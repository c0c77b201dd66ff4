import Snail.Reasoning.LineEnds
import Snail.Server.Composed
import Snail.Server.Spool

/-!
# Compose — messages a client writes

`compose_message` of `crates/client/bind.rs` and what it calls.  The header fields are checked for
control characters before they are written, and the body's line ends are made CR LF.
-/

open Snail.Reasoning Snail.Mail Snail.Server

namespace Snail.Client

/-! ## 1. The fields -/

def forbidControl (field : String) (value : Str) : Except Str Unit :=
  if value.any isControl then
    .error (field.toList ++ " must not contain control characters".toList)
  else .ok ()

def parseAddress (field : String) (addr : Str) : Except Str Mailbox := do
  forbidControl field addr
  (Mailbox.parse addr).mapError mailErrorText

def parseRecipients (addrs : List Str) : Except Str (List Mailbox) :=
  if addrs = [] then .error "at least one recipient is required".toList
  else addrs.mapM (parseAddress "recipient")

/-! ## 2. The body -/

-- the loop of `normalise_crlf`: what is in `out`, and the bytes to come
def normaliseLoop : Bytes → Bytes → Bytes
  | out, [] => out
  -- the CRLF that is there is not doubled
  | out, 13 :: 10 :: rest => normaliseLoop (out ++ crlf) rest
  | out, 13 :: rest => normaliseLoop (out ++ crlf) rest
  | out, 10 :: rest => normaliseLoop (out ++ crlf) rest
  | out, other :: rest => normaliseLoop (out ++ [other]) rest

-- the error is the panic of `expect`
def normaliseCrlf (text : Str) : Except Str Str :=
  match decodeUtf8 (normaliseLoop [] (encodeUtf8 text)) with
  | some out => .ok out
  | none => .error "CRLF normalisation preserves UTF-8 validity".toList

/-! ## 3. The message -/

def toHeader (recipients : List Mailbox) : Str :=
  ", ".toList.intercalate (recipients.map Mailbox.toString)

def composeMessage (sender : Str) (addrs : List Str) (subject body : Str) : Except Str Bytes := do
  forbidControl "subject" subject
  let sender ← parseAddress "from" sender
  let recipients ← parseRecipients addrs
  let body ← normaliseCrlf body
  let raw := "From: ".toList ++ sender.toString ++ "\r\nTo: ".toList ++ toHeader recipients ++
    "\r\nSubject: ".toList ++ subject ++ "\r\n\r\n".toList ++ body
  let message ← (Message.parse ⟨some sender, recipients⟩ (encodeUtf8 raw)).mapError mailErrorText
  return message.toBytes

/-! ## 4. The line ends of the body -/

theorem normaliseLoop_return {rest : Bytes} (h : rest.head? ≠ some lf) (out : Bytes) :
    normaliseLoop out (cr :: rest) = normaliseLoop (out ++ crlf) rest := by
  rw [cr, normaliseLoop]
  rintro t rfl
  exact h rfl

theorem normaliseLoop_copy {bytes : Bytes} (hcr : cr ∉ bytes) (hlf : lf ∉ bytes)
    (out rest : Bytes) :
    normaliseLoop out (bytes ++ rest) = normaliseLoop (out ++ bytes) rest := by
  induction bytes generalizing out with
  | nil => rw [List.nil_append, List.append_nil]
  | cons b bytes ih =>
    rw [List.mem_cons, not_or] at hcr hlf
    rw [List.cons_append, normaliseLoop, ih hcr.2 hlf.2, List.append_assoc, List.singleton_append]
    · exact fun _ hb _ => hcr.1 hb.symm
    · exact fun hb => hcr.1 hb.symm
    · exact fun hb => hlf.1 hb.symm

theorem head?_encodeUtf8_ne {s : Str} (h : s.head? ≠ some '\n') :
    (encodeUtf8 s).head? ≠ some lf := by
  cases s with
  | nil => nofun
  | cons c s =>
    intro hhead
    rw [encodeUtf8, List.flatMap_cons,
      List.head?_append_of_ne_nil _ String.utf8EncodeChar_ne_nil] at hhead
    have hc : c = '\n' := eq_of_mem_utf8EncodeChar (b := lf) (by decide) (List.mem_of_head? hhead)
    exact h (by rw [hc]; rfl)

/-- Byte by byte the line ends change as they do character by character. -/
theorem normaliseLoop_encodeUtf8 (s : Str) (out : Bytes) :
    normaliseLoop out (encodeUtf8 s) = out ++ encodeUtf8 (toCrlf s) := by
  unfold toCrlf
  fun_induction normaliseEol s generalizing out with
  | case1 => exact (List.append_nil out).symm
  | case2 s ih =>
    change normaliseLoop out (13 :: 10 :: encodeUtf8 s) = _
    rw [normaliseLoop, ih, List.append_assoc]
    rfl
  | case3 s hs ih =>
    have hhead : s.head? ≠ some '\n' := by
      intro h
      obtain ⟨t, ht⟩ := List.head?_eq_some_iff.mp h
      exact hs t ht
    change normaliseLoop out (cr :: encodeUtf8 s) = _
    rw [normaliseLoop_return (head?_encodeUtf8_ne hhead), ih, List.append_assoc]
    rfl
  | case4 c s _ hc ih =>
    rw [List.flatMap_cons, encodeUtf8_append, crlfChar]
    split
    · rename_i hn
      rw [hn]
      change normaliseLoop out (10 :: encodeUtf8 s) = _
      rw [normaliseLoop, ih, List.append_assoc]
      rfl
    · rename_i hn
      have hcr : cr ∉ String.utf8EncodeChar c := fun h =>
        hc (eq_of_mem_utf8EncodeChar (by decide) h)
      have hlf : lf ∉ String.utf8EncodeChar c := fun h =>
        hn (eq_of_mem_utf8EncodeChar (by decide) h)
      change normaliseLoop out (String.utf8EncodeChar c ++ encodeUtf8 s) = _
      rw [normaliseLoop_copy hcr hlf, ih, List.append_assoc]
      simp [encodeUtf8]

theorem normaliseCrlf_eq (text : Str) : normaliseCrlf text = .ok (toCrlf text) := by
  rw [normaliseCrlf, normaliseLoop_encodeUtf8, List.nil_append, decodeUtf8_encodeUtf8]

/-! ## 5. What is composed is what is read -/

theorem newline_not_mem_of_forbidControl {field : String} {value : Str}
    (h : forbidControl field value = .ok ()) : '\n' ∉ value := by
  intro hmem
  rw [forbidControl, if_pos (List.any_eq_true.mpr ⟨_, hmem, by decide⟩)] at h
  cases h

theorem parseAddress_eq_ok {field : String} {addr : Str} {m : Mailbox}
    (h : parseAddress field addr = .ok m) : Mailbox.parse addr = .ok m ∧ '\n' ∉ m.toString := by
  obtain ⟨u, hguard, h⟩ := exists_of_bind_eq_ok h
  have hparse := mapError_eq_ok_iff.mp h
  refine ⟨hparse, fun hmem => ?_⟩
  exact newline_not_mem_of_forbidControl hguard (Mailbox.mem_of_mem_toString hparse hmem)

theorem parseRecipients_eq_ok {addrs : List Str} {recipients : List Mailbox}
    (h : parseRecipients addrs = .ok recipients) :
    List.Forall₂ (fun addr m => Mailbox.parse addr = .ok m) addrs recipients ∧
      ∀ m ∈ recipients, '\n' ∉ m.toString := by
  unfold parseRecipients at h
  split at h
  · cases h
  · have hall := (mapM_eq_ok_iff.mp h).imp fun _ _ => parseAddress_eq_ok
    refine ⟨hall.imp fun _ _ => And.left, ?_⟩
    have hflip := hall.flip.imp fun _ _ hm => And.symm hm
    exact ((List.forall₂_and_left _ _).mp hflip).1

theorem newline_not_mem_toHeader {recipients : List Mailbox}
    (h : ∀ m ∈ recipients, '\n' ∉ m.toString) : '\n' ∉ toHeader recipients := by
  intro hmem
  rcases mem_intercalate hmem with hsep | ⟨text, htext, hc⟩
  · exact absurd hsep (by decide)
  · obtain ⟨m, hm, rfl⟩ := List.mem_map.mp htext
    exact h m hm hc

-- the fields in the order they are written
def composedFields (sender : Mailbox) (recipients : List Mailbox) (subject : Str) :
    List (Str × Str) :=
  [("From".toList, sender.toString), ("To".toList, toHeader recipients),
    ("Subject".toList, subject)]

theorem encodeUtf8_raw (box : Mailbox) (recipients : List Mailbox) (subject body : Str) :
    encodeUtf8 ("From: ".toList ++ box.toString ++ "\r\nTo: ".toList ++ toHeader recipients ++
      "\r\nSubject: ".toList ++ subject ++ "\r\n\r\n".toList ++ body) =
    composed (composedFields box recipients subject) (encodeUtf8 body) := by
  have hpush : ∀ line, pushLine line = encodeUtf8 (line ++ "\r\n".toList) :=
    fun line => (encodeUtf8_append line "\r\n".toList).symm
  simp only [composed, composedFields, List.map_cons, List.map_nil, List.flatMap_cons,
    List.flatMap_nil, List.append_nil, hpush, ← encodeUtf8_append]
  simp [fieldLine]

theorem composeMessage_eq_ok {sender : Str} {addrs : List Str} {subject body : Str} {raw : Bytes}
    (h : composeMessage sender addrs subject body = .ok raw) :
    forbidControl "subject" subject = .ok () ∧ ∃ box recipients,
      parseAddress "from" sender = .ok box ∧ parseRecipients addrs = .ok recipients ∧
      raw = composed (composedFields box recipients subject) (encodeUtf8 (toCrlf body)) := by
  obtain ⟨u, hsubject, h⟩ := exists_of_bind_eq_ok h
  obtain ⟨box, hbox, h⟩ := exists_of_bind_eq_ok h
  obtain ⟨recipients, hrecipients, h⟩ := exists_of_bind_eq_ok h
  obtain ⟨out, hout, h⟩ := exists_of_bind_eq_ok h
  obtain ⟨m, hm, h⟩ := exists_of_bind_eq_ok h
  have hbody : toCrlf body = out := Except.ok.inj ((normaliseCrlf_eq body).symm.trans hout)
  refine ⟨hsubject, box, recipients, hbox, hrecipients, ?_⟩
  have hraw := (Message.toBytes_parse (mapError_eq_ok_iff.mp hm)).1
  rw [← Except.ok.inj h, hraw, encodeUtf8_raw, hbody]

/-- What a client composes is read as its three fields and its body; the body's line ends are CR LF
and its lines are those of the text. -/
theorem composed_not_injected (sender : Str) (addrs : List Str) (subject body : Str) (raw : Bytes)
    (env : Envelope) (text : Str) :
    (composeMessage sender addrs subject body = .ok raw →
      ∃ box recipients out m, Mailbox.parse sender = .ok box ∧
        List.Forall₂ (fun addr m => Mailbox.parse addr = .ok m) addrs recipients ∧
        normaliseCrlf body = .ok out ∧ Message.parse env raw = .ok m ∧
        m.headers.entries = [("From".toList, trim box.toString),
          ("To".toList, trim (", ".toList.intercalate (recipients.map Mailbox.toString))),
          ("Subject".toList, trim subject)] ∧
        m.body = encodeUtf8 out) ∧
    ∃ out, normaliseCrlf text = .ok out ∧ CrlfOnly out ∧ normaliseCrlf out = .ok out ∧
      textLines out = textLines text := by
  refine ⟨?_, toCrlf text, normaliseCrlf_eq text, crlfOnly_toCrlf text, ?_, textLines_toCrlf text⟩
  · intro h
    obtain ⟨hsubject, box, recipients, hbox, hrecipients, rfl⟩ := composeMessage_eq_ok h
    obtain ⟨hsender, hsenderLine⟩ := parseAddress_eq_ok hbox
    obtain ⟨hall, hlines⟩ := parseRecipients_eq_ok hrecipients
    have hnames : IsFieldName "From".toList ∧ IsFieldName "To".toList ∧
        IsFieldName "Subject".toList := by decide
    have hfields : ∀ f ∈ composedFields box recipients subject, IsFieldName f.1 ∧ '\n' ∉ f.2 := by
      intro f hf
      simp only [composedFields, List.mem_cons, List.not_mem_nil, or_false] at hf
      rcases hf with rfl | rfl | rfl
      · exact ⟨hnames.1, hsenderLine⟩
      · exact ⟨hnames.2.1, newline_not_mem_toHeader hlines⟩
      · exact ⟨hnames.2.2, newline_not_mem_of_forbidControl hsubject⟩
    obtain ⟨m, hm, hentries, hbody⟩ :=
      parse_composed (List.cons_ne_nil _ _) hfields env (encodeUtf8 (toCrlf body))
    exact ⟨box, recipients, toCrlf body, m, hsender, hall,
      normaliseCrlf_eq body, hm, hentries, hbody⟩
  · rw [normaliseCrlf_eq, toCrlf_toCrlf]

-- a field in the body stays in the body
theorem composed_not_injected_bcc : ∃ raw m,
    composeMessage "a@x.org".toList ["b@y.org".toList] "hi".toList "\nBcc: c@z.org\n\n".toList =
      .ok raw ∧
    Message.parse ⟨none, []⟩ raw = .ok m ∧
    m.headers.entries.map Prod.fst = ["From".toList, "To".toList, "Subject".toList] := by
  have h : composeMessage "a@x.org".toList ["b@y.org".toList] "hi".toList
      "\nBcc: c@z.org\n\n".toList = .ok (encodeUtf8 (("From: a@x.org\r\nTo: b@y.org\r\n" ++
        "Subject: hi\r\n\r\n\r\nBcc: c@z.org\r\n\r\n").toList)) := by
    decide +kernel
  obtain ⟨_, _, _, m, -, -, -, hm, hentries, -⟩ :=
    (composed_not_injected _ _ _ _ _ ⟨none, []⟩ []).1 h
  exact ⟨_, m, h, hm, by rw [hentries]; rfl⟩

end Snail.Client
