import Snail.Client.Compose
import Snail.Mail.Script
import Snail.Server.RelayTo

/-!
# SmtpScript — the script a client sends

`build_smtp_script` of `crates/client/bind.rs`: the commands and the payload that go on the wire for
a message, once the name and the addresses have been checked for control characters.
-/

open Snail.Reasoning Snail.Mail Snail.Server

namespace Snail.Client

structure SmtpScript where
  commands : List Str
  data : Bytes
  deriving DecidableEq, Repr

def buildSmtpScript (helo sender : Str) (recipients : List Str) (rawMessage : Bytes) :
    Except Str SmtpScript := do
  forbidControl "helo" helo
  let sender ← parseAddress "sender" sender
  let recipients ← parseRecipients recipients
  let message ← (Message.parse ⟨some sender, recipients⟩ rawMessage).mapError mailErrorText
  let script := relayScript helo message
  return ⟨script.commands, script.data⟩

def SmtpScript.bytes (script : SmtpScript) : Bytes :=
  script.commands.flatMap commandBytes ++ script.data

/-! ## 1. What is written -/

section
variable {helo sender : Str} {addrs : List Str} {raw : Bytes} {script : SmtpScript}

theorem buildSmtpScript_eq_ok (h : buildSmtpScript helo sender addrs raw = .ok script) :
    forbidControl "helo" helo = .ok () ∧ ∃ box recipients message,
      parseAddress "sender" sender = .ok box ∧ parseRecipients addrs = .ok recipients ∧
      Message.parse ⟨some box, recipients⟩ raw = .ok message ∧
      script = ⟨(relayScript helo message).commands, (relayScript helo message).data⟩ := by
  obtain ⟨u, hhelo, h⟩ := exists_of_bind_eq_ok h
  obtain ⟨box, hbox, h⟩ := exists_of_bind_eq_ok h
  obtain ⟨recipients, hrecipients, h⟩ := exists_of_bind_eq_ok h
  obtain ⟨message, hmessage, h⟩ := exists_of_bind_eq_ok h
  exact ⟨hhelo, box, recipients, message, hbox, hrecipients, mapError_eq_ok_iff.mp hmessage,
    (Except.ok.inj h).symm⟩

/-- Neither the name nor an address breaks its line. -/
theorem newline_not_mem_script (h : buildSmtpScript helo sender addrs raw = .ok script) :
    ∀ line ∈ script.commands, '\n' ∉ line := by
  obtain ⟨hhelo, box, recipients, message, hbox, hrecipients, hmessage, rfl⟩ :=
    buildSmtpScript_eq_ok h
  have henvelope := (Message.toBytes_parse hmessage).2
  apply newline_not_mem_commands (newline_not_mem_of_forbidControl hhelo)
  · rw [henvelope]
    intro m hm
    cases hm
    exact (parseAddress_eq_ok hbox).2
  · rw [henvelope]
    exact (parseRecipients_eq_ok hrecipients).2

/-! ## 2. What is read -/

theorem trimEndCrLf_wire {s : Str} (hcr : '\r' ∉ s) (hlf : '\n' ∉ s) :
    trimEndCrLf (s ++ wireEnd) = s := by
  rcases List.eq_nil_or_concat s with rfl | ⟨front, last, rfl⟩
  · rfl
  · have hcr' : last ≠ '\r' := by
      rintro rfl
      exact hcr (by simp)
    have hlf' : last ≠ '\n' := by
      rintro rfl
      exact hlf (by simp)
    rw [List.concat_eq_append, List.append_assoc, List.singleton_append,
      trimEndCrLf_append_cons _ _ hcr' hlf']
    rfl

theorem return_not_mem_of_forbidControl {field : String} {value : Str}
    (h : forbidControl field value = .ok ()) : '\r' ∉ value := by
  intro hmem
  rw [forbidControl, if_pos (List.any_eq_true.mpr ⟨_, hmem, by decide⟩)] at h
  cases h

theorem parse_ehloCommand_iff (h : forbidControl "helo" helo = .ok ()) :
    SmtpCommand.parse (ehloCommand helo ++ wireEnd) = .ok (.ehlo (trim helo)) ↔ trim helo ≠ [] := by
  have hwords : commandWords (ehloCommand helo ++ wireEnd) = ("EHLO".toList, trim helo) := by
    have hline : ehloCommand helo ++ wireEnd = "EHLO".toList ++ ' ' :: (helo ++ wireEnd) := rfl
    rw [hline, commandWords_space (by decide),
      trimEndCrLf_wire (return_not_mem_of_forbidControl h) (newline_not_mem_of_forbidControl h)]
    rfl
  rw [SmtpCommand.parse, hwords]
  change (nonEmpty (trim helo) "EHLO").map SmtpCommand.ehlo = _ ↔ _
  rw [nonEmpty]
  by_cases hblank : trim helo = []
  · rw [if_pos hblank]
    refine ⟨fun hread => ?_, fun hne => absurd hblank hne⟩
    cases hread
  · rw [if_neg hblank]
    exact ⟨fun _ => hblank, fun _ => rfl⟩

/-- The brackets are not closed early, and no route was left in front. -/
def Clear (m : Mailbox) : Prop :=
  '>' ∉ m.toString ∧ ∀ c ∈ m.localPart.head?, c ≠ '@' ∧ isWhitespace c = false

theorem bracketed_iff {addr : Str} {m : Mailbox} (h : Mailbox.parse addr = .ok m) :
    bracketed m.toString = .ok (some m) ↔ Clear m := by
  rw [bracketed_toString_iff, Mailbox.parse_toString_iff h]
  rfl

theorem parse_mailCommand_iff {addr : Str} {m : Mailbox} (h : Mailbox.parse addr = .ok m) :
    SmtpCommand.parse (mailCommand (some m) ++ wireEnd) = .ok (.mailFrom (some m)) ↔ Clear m := by
  rw [← bracketed_iff h, parse_mailCommand, Option.elim_some, map_eq_ok_iff]
  constructor
  · rintro ⟨read, hread, heq⟩
    cases heq
    exact hread
  · exact fun hread => ⟨some m, hread, rfl⟩

theorem parse_rcptCommand_iff {addr : Str} {m : Mailbox} (h : Mailbox.parse addr = .ok m) :
    SmtpCommand.parse (rcptCommand m ++ wireEnd) = .ok (.rcptTo m) ↔ Clear m := by
  rw [← bracketed_iff h, parse_rcptCommand]
  constructor
  · intro hread
    split at hread
    · cases hread
    · cases hread
    · rename_i read hpath
      cases hread
      exact hpath
  · intro hpath
    rw [hpath]

/-- What a client writes for its commands is read as so many lines, and every one of them as it was
meant exactly if the name is not blank and the addresses are clear. -/
theorem script_read_as_meant (h : buildSmtpScript helo sender addrs raw = .ok script) :
    ∃ box recipients, Mailbox.parse sender = .ok box ∧
      List.Forall₂ (fun addr m => Mailbox.parse addr = .ok m) addrs recipients ∧
      splitInclusive lf script.bytes =
        script.commands.map commandBytes ++ splitInclusive lf script.data ∧
      (script.commands.map (fun line => SmtpCommand.parse (line ++ wireEnd)) =
          .ok (.ehlo (trim helo)) :: .ok (.mailFrom (some box)) ::
            (recipients.map (fun m => .ok (.rcptTo m)) ++ [.ok .data]) ↔
        trim helo ≠ [] ∧ ∀ m ∈ box :: recipients, Clear m) := by
  have hnewline := newline_not_mem_script h
  obtain ⟨hhelo, box, recipients, message, hbox, hrecipients, hmessage, rfl⟩ :=
    buildSmtpScript_eq_ok h
  have henvelope := (Message.toBytes_parse hmessage).2
  obtain ⟨hall, -⟩ := parseRecipients_eq_ok hrecipients
  refine ⟨box, recipients, (parseAddress_eq_ok hbox).1, hall, ?_, ?_⟩
  · have hlf : ∀ c ∈ (relayScript helo message).commands.map encodeUtf8, lf ∉ c := by
      intro c hc
      obtain ⟨line, hline, rfl⟩ := List.mem_map.mp hc
      exact lf_not_mem_encodeUtf8 (hnewline line hline)
    have hcut := splitInclusive_crlfLines hlf (relayScript helo message).data
    rw [List.flatMap_map, List.map_map] at hcut
    exact hcut
  · rw [commands_relayScript, henvelope]
    simp only [List.map_cons, List.map_append, List.map_map, List.map_nil, parse_data,
      List.cons.injEq, List.append_cancel_right_eq, List.map_inj_left, Function.comp_apply,
      List.forall_mem_cons, parse_ehloCommand_iff hhelo,
      parse_mailCommand_iff (parseAddress_eq_ok hbox).1]
    refine and_congr_right fun _ => and_congr_right fun _ => forall₂_congr fun m hm => ?_
    obtain ⟨addr, -, haddr⟩ := exists_mem_of_forall₂ hall m hm
    exact parse_rcptCommand_iff haddr

-- a bracket in the address ends the path early
theorem script_read_as_meant_bracket : ∃ script box,
    buildSmtpScript "x.org".toList "a@b>c@d".toList ["e@f".toList] (ascii "A: b\r\n\r\n") =
      .ok script ∧
    Mailbox.parse "a@b>c@d".toList = .ok box ∧
    script.commands.map (fun line => SmtpCommand.parse (line ++ wireEnd)) ≠
      [.ok (.ehlo "x.org".toList), .ok (.mailFrom (some box)), .ok (.rcptTo ⟨['e'], ['f']⟩),
        .ok .data] := by
  have h : buildSmtpScript "x.org".toList "a@b>c@d".toList ["e@f".toList]
      (ascii "A: b\r\n\r\n") = .ok ⟨["EHLO x.org".toList, "MAIL FROM:<a@b>c@d>".toList,
        "RCPT TO:<e@f>".toList, "DATA".toList], ascii "A: b\r\n\r\n\r\n.\r\n"⟩ := by
    decide +kernel
  obtain ⟨box, recipients, hbox, hall, -, hiff⟩ := script_read_as_meant h
  refine ⟨_, box, h, hbox, fun hread => ?_⟩
  have hsender : Mailbox.parse "a@b>c@d".toList = .ok ⟨"a@b>c".toList, "d".toList⟩ := by decide
  cases hbox.symm.trans hsender
  cases hall with
  | cons hrcpt hrest =>
    have hto : Mailbox.parse "e@f".toList = .ok ⟨['e'], ['f']⟩ := by decide
    cases hrest
    cases hrcpt.symm.trans hto
    exact ((hiff.mp hread).2 _ List.mem_cons_self).1 (by decide)

end

end Snail.Client
