import Snail.Mail.Keywords
import Snail.Mail.Outbound

/-!
# Script — the commands of a relay script as the receiver reads them

An address is written between angle brackets, as it is printed.  The receiver takes what stands in
front of the first closing bracket and parses it.
-/

open Snail.Reasoning

namespace Snail.Mail

/-! ## 1. Lines -/

def wireEnd : Str := "\r\n".toList

def ehloCommand (helo : Str) : Str := "EHLO ".toList ++ helo

def mailCommand (sender : Option Mailbox) : Str :=
  "MAIL FROM:<".toList ++ sender.elim [] Mailbox.toString ++ ['>']

def rcptCommand (rcpt : Mailbox) : Str := "RCPT TO:<".toList ++ rcpt.toString ++ ['>']

theorem commands_relayScript (helo : Str) (message : Message) :
    (relayScript helo message).commands =
      ehloCommand helo :: mailCommand message.envelope.sender ::
        (message.envelope.recipients.map rcptCommand ++ ["DATA".toList]) := rfl

theorem parse_data : SmtpCommand.parse ("DATA".toList ++ wireEnd) = .ok .data := by decide

/-! ## 2. Paths -/

-- what the receiver takes from the brackets
def insideBrackets (path : Str) : Str := path.takeWhile (· ≠ '>')

def bracketed (path : Str) : Except MailError (Option Mailbox) :=
  if insideBrackets path = [] then .ok none else (Mailbox.parse (insideBrackets path)).map some

theorem insideBrackets_of_not_mem {path : Str} (h : '>' ∉ path) : insideBrackets path = path := by
  apply List.takeWhile_eq_self_iff.mpr
  intro c hc
  apply decide_eq_true
  rintro rfl
  exact h hc

theorem splitOnce_bracket (path : Str) :
    ∃ rest, splitOnce '>' (path ++ ['>']) = some (insideBrackets path, rest) := by
  by_cases h : '>' ∈ path
  · obtain ⟨front, back, rfl, hfront⟩ := List.eq_append_cons_of_mem h
    refine ⟨back ++ ['>'], ?_⟩
    have hinside : insideBrackets (front ++ '>' :: back) = front := by
      have hpos : ∀ c ∈ front, decide (c ≠ '>') = true := by
        intro c hc
        apply decide_eq_true
        rintro rfl
        exact hfront hc
      rw [insideBrackets, List.takeWhile_append_of_pos hpos]
      simp
    rw [hinside, List.append_assoc, List.cons_append, splitOnce_append_cons hfront]
  · exact ⟨[], by rw [insideBrackets_of_not_mem h, splitOnce_append_cons h]⟩

theorem pathBehind_brackets (path : Str) : pathBehind ('<' :: path ++ ['>']) = bracketed path := by
  obtain ⟨rest, hsplit⟩ := splitOnce_bracket path
  have hopen : ['<'].isPrefixOf? ('<' :: path ++ ['>']) = some (path ++ ['>']) :=
    List.isPrefixOf?_eq_some_iff_append_eq.mpr rfl
  rw [pathBehind, trim_cons_concat path (by decide) (by decide), hopen, Option.bind_some, hsplit]
  rfl

theorem commandWords_path {v : Str} (hv : ' ' ∉ v) (key : Str) {first : Char} {mid : Str}
    (hkey : key = first :: mid) (hfirst : isWhitespace first = false) (path : Str) :
    commandWords (v ++ ' ' :: (key ++ ('<' :: path ++ ['>'])) ++ wireEnd) =
      (toAsciiUppercase v, key ++ ('<' :: path ++ ['>'])) := by
  have hline : v ++ ' ' :: (key ++ ('<' :: path ++ ['>'])) ++ wireEnd =
      v ++ ' ' :: ((key ++ '<' :: path) ++ '>' :: wireEnd) := by
    simp
  have htrim : trim (key ++ '<' :: path ++ ['>']) = key ++ '<' :: path ++ ['>'] := by
    rw [hkey, List.cons_append]
    exact trim_cons_concat _ hfirst (by decide)
  rw [hline, commandWords_space hv, trimEndCrLf_append_cons _ _ (by decide) (by decide)]
  change (_, trim (key ++ '<' :: path ++ ['>'])) = _
  rw [htrim]
  simp

theorem parse_mailCommand (sender : Option Mailbox) :
    SmtpCommand.parse (mailCommand sender ++ wireEnd) =
      (bracketed (sender.elim [] Mailbox.toString)).map .mailFrom := by
  have hline : mailCommand sender ++ wireEnd = "MAIL".toList ++
      ' ' :: ("FROM:".toList ++ ('<' :: sender.elim [] Mailbox.toString ++ ['>'])) ++ wireEnd := rfl
  rw [hline, SmtpCommand.parse, commandWords_path (by decide) "FROM:".toList rfl (by decide)]
  change (parsePathOpt _ "FROM:").map SmtpCommand.mailFrom = _
  rw [parsePathOpt_append rfl, if_pos (.inl rfl), pathBehind_brackets]

theorem parse_rcptCommand (rcpt : Mailbox) :
    SmtpCommand.parse (rcptCommand rcpt ++ wireEnd) =
      match bracketed rcpt.toString with
      | .error e => .error e
      | .ok none => .error (.malformed "RCPT TO cannot be the null path".toList)
      | .ok (some read) => .ok (.rcptTo read) := by
  have hline : rcptCommand rcpt ++ wireEnd = "RCPT".toList ++
      ' ' :: ("TO:".toList ++ ('<' :: rcpt.toString ++ ['>'])) ++ wireEnd := rfl
  have hpath : parsePathOpt ("TO:".toList ++ ('<' :: rcpt.toString ++ ['>'])) "TO:" =
      bracketed rcpt.toString := by
    rw [parsePathOpt_append rfl, if_pos (.inl rfl), pathBehind_brackets]
  rw [hline, SmtpCommand.parse, commandWords_path (by decide) "TO:".toList rfl (by decide), ← hpath]
  rfl

theorem bracket_not_mem_inside (path : Str) : '>' ∉ insideBrackets path := by
  intro h
  have := List.mem_takeWhile_imp h
  simp at this

/-- An address comes back from its brackets exactly if it does not close them itself and reads back
from its printed form. -/
theorem bracketed_toString_iff (m : Mailbox) : bracketed m.toString = .ok (some m) ↔
    '>' ∉ m.toString ∧ Mailbox.parse m.toString = .ok m := by
  constructor
  · intro h
    have hparse : Mailbox.parse (insideBrackets m.toString) = .ok m := by
      unfold bracketed at h
      split at h
      · cases h
      · obtain ⟨read, hread, heq⟩ := map_eq_ok_iff.mp h
        cases heq
        exact hread
    have hbracket : '>' ∉ m.toString := fun hc =>
      bracket_not_mem_inside _ (Mailbox.mem_of_mem_toString hparse hc)
    rw [insideBrackets_of_not_mem hbracket] at hparse
    exact ⟨hbracket, hparse⟩
  · rintro ⟨hbracket, hparse⟩
    rw [bracketed, insideBrackets_of_not_mem hbracket, if_neg m.toString_ne_nil, hparse]
    rfl

/-! ## 3. Line breaks -/

theorem newline_not_mem_commands {helo : Str} {message : Message} (hhelo : '\n' ∉ helo)
    (hsender : ∀ m ∈ message.envelope.sender, '\n' ∉ m.toString)
    (hrcpts : ∀ m ∈ message.envelope.recipients, '\n' ∉ m.toString) :
    ∀ line ∈ (relayScript helo message).commands, '\n' ∉ line := by
  have hpath : ∀ (start path : Str), '\n' ∉ start → '\n' ∉ path →
      '\n' ∉ start ++ path ++ ['>'] := by
    intro start path hstart hpath
    simp [hstart, hpath]
  intro line hline
  rw [commands_relayScript, List.mem_cons, List.mem_cons, List.mem_append, List.mem_map] at hline
  rcases hline with rfl | rfl | ⟨rcpt, hrcpt, rfl⟩ | hdata
  · intro hmem
    rcases List.mem_append.mp hmem with h | h
    · revert h
      decide
    · exact hhelo h
  · apply hpath _ _ (by decide)
    cases hs : message.envelope.sender with
    | none => exact List.not_mem_nil
    | some m => exact hsender m hs
  · exact hpath _ _ (by decide) (hrcpts rcpt hrcpt)
  · rw [List.mem_singleton.mp hdata]
    decide

end Snail.Mail
