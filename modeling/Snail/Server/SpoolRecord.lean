import Snail.Mail.Smtp
import Snail.Server.Spool

/-!
# SpoolRecord — reading a control record back

The record prints addresses and parses them again.  What the parser of SMTP commands lets through
survives that unless a stripped source route has left something in front of the local part.
-/

open Snail.Reasoning Snail.Mail

namespace Snail.Server

/-! ## 1. Lines -/

-- a value that stays on its line
def OnLine (v : Str) : Prop := '\n' ∉ v ∧ v.getLast? ≠ some '\r'

theorem onLine_nil : OnLine [] := by
  apply And.intro <;> simp

theorem onLine_showNat (n : Nat) : OnLine (showNat n) := by
  apply And.intro
  · intro h
    exact absurd (isDigit_of_mem_showNat h) (by decide)
  · intro h
    exact absurd (isDigit_of_mem_showNat (List.mem_of_getLast? h)) (by decide)

theorem lines_ctrlLine {key : String} {v : Str} (hkey : '\n' ∉ key.toList) (hv : OnLine v)
    (t : Str) : lines (ctrlLine key v ++ t) = (key.toList ++ ' ' :: v) :: lines t := by
  have hno : '\n' ∉ key.toList ++ ' ' :: v := by
    rw [List.mem_append, List.mem_cons, not_or, not_or]
    exact ⟨hkey, by decide, hv.1⟩
  have hcr : (key.toList ++ ' ' :: v).getLast? ≠ some '\r' := by
    rw [List.getLast?_append, List.getLast?_cons]
    cases hl : v.getLast? with
    | none => simp
    | some c =>
      have hne := hv.2
      rw [hl] at hne
      simpa using hne
  have happ := lines_append_newline hno hcr t
  simpa [ctrlLine] using happ

theorem lines_rcpts {vs : List Str} (h : ∀ v ∈ vs, OnLine v) :
    lines (vs.flatMap (ctrlLine "rcpt")) = vs.map fun v => "rcpt".toList ++ ' ' :: v := by
  induction vs with
  | nil => rfl
  | cons v vs ih =>
    rw [List.flatMap_cons, lines_ctrlLine (by decide) (h v (by simp)),
      ih fun w hw => h w (by simp [hw])]
    rfl

theorem parseCtrlLine_append {key : String} (hkey : ' ' ∉ key.toList) (f : CtrlFields) (v : Str) :
    parseCtrlLine f (key.toList ++ ' ' :: v) = parseCtrlField f key.toList v := by
  unfold parseCtrlLine
  rw [splitOnce_append_cons hkey]
  rfl

/-! ## 2. Times and counts -/

theorem ofEpochSecs?_toSecs_isSome (t : SystemTime) :
    (SystemTime.ofEpochSecs? t.toSecs).isSome := by
  have hlt : t.toSecs < 0x8000000000000000 := by
    have h := t.secs_lt
    unfold SystemTime.toSecs
    omega
  unfold SystemTime.ofEpochSecs?
  rw [dif_pos hlt]
  rfl

-- the time a record gives back
def readBack (t : SystemTime) : SystemTime :=
  (SystemTime.ofEpochSecs? t.toSecs).get (ofEpochSecs?_toSecs_isSome t)

theorem readBack_eq_truncate_iff (t : SystemTime) : readBack t = t.truncate ↔ 0 ≤ t.secs := by
  rw [← SystemTime.ofEpochSecs?_toSecs]
  unfold readBack
  apply Iff.intro
  · intro h
    rw [← h, Option.some_get]
  · intro h
    simp only [h, Option.get_some]

theorem ctrlTime_showNat (t : SystemTime) (bad : String) :
    ctrlTime (showNat t.toSecs) bad = .ok (readBack t) := by
  have hmax : t.toSecs ≤ u64Max := by
    have h := t.secs_lt
    unfold SystemTime.toSecs u64Max
    omega
  have hsome : SystemTime.ofEpochSecs? t.toSecs = some (readBack t) := (Option.some_get _).symm
  unfold ctrlTime
  rw [parseUnsigned_showNat hmax]
  simp only [hsome]

theorem parseCtrlField_attempts (f : CtrlFields) (attempts : UInt32) :
    parseCtrlField f "attempts".toList (showNat attempts.toNat) =
      .ok { f with attempts := some attempts } := by
  have hmax : attempts.toNat ≤ u32Max := by
    have h := attempts.toNat_lt
    unfold u32Max
    omega
  unfold parseCtrlField
  rw [if_neg (by decide), if_neg (by decide), if_pos rfl, parseUnsigned_showNat hmax]
  simp only [UInt32.ofNat_toNat]

/-! ## 3. Addresses -/

theorem ctrlMailbox_eq_ok_iff {v : Str} {m : Mailbox} :
    ctrlMailbox v = .ok m ↔ Mailbox.parse v = .ok m := by
  unfold ctrlMailbox
  cases Mailbox.parse v with
  | error e => simp
  | ok m' => simp

theorem parseCtrlField_rcpt (f : CtrlFields) (v : Str) :
    parseCtrlField f "rcpt".toList v =
      (ctrlMailbox v).map fun m => { f with recipients := f.recipients ++ [m] } := by
  unfold parseCtrlField
  rw [if_neg (by decide), if_neg (by decide), if_neg (by decide),
    if_neg (fun hc => absurd hc.1 (by decide)), if_pos rfl]

-- what an address line gives for the sender
def ReadsAs : Option Mailbox → Option Mailbox → Prop
  | none, sender => sender = none
  | some m, sender => ∃ m', Mailbox.parse m.toString = .ok m' ∧ sender = some m'

-- the sender line; a null sender leaves its value empty
theorem parseCtrlField_from {f f' : CtrlFields} (hf : f.sender = none) (sender : Option Mailbox) :
    parseCtrlField f "from".toList (sender.elim [] Mailbox.toString) = .ok f' ↔
      ∃ sender', ReadsAs sender sender' ∧ f' = { f with sender := sender' } := by
  unfold parseCtrlField
  rw [if_neg (by decide), if_neg (by decide), if_neg (by decide)]
  cases sender with
  | none =>
    rw [if_neg (fun hc => hc.2 rfl), if_neg (by decide)]
    simp only [ReadsAs, exists_eq_left, Except.ok.injEq, ← hf]
    exact eq_comm
  | some m =>
    rw [if_pos ⟨rfl, m.toString_ne_nil⟩, map_eq_ok_iff]
    simp only [Option.elim_some, ctrlMailbox_eq_ok_iff, ReadsAs]
    apply Iff.intro
    · intro h
      rcases h with ⟨m', hm, rfl⟩
      exact ⟨some m', ⟨m', hm, rfl⟩, rfl⟩
    · intro h
      rcases h with ⟨_, ⟨m', hm, rfl⟩, rfl⟩
      exact ⟨m', hm, rfl⟩

theorem parseCtrlLines_cons {line : Str} {rest : List Str} {f g : CtrlFields} :
    parseCtrlLines (line :: rest) f = .ok g ↔
      ∃ f', parseCtrlLine f line = .ok f' ∧ parseCtrlLines rest f' = .ok g := by
  rw [parseCtrlLines]
  cases parseCtrlLine f line with
  | error e => simp
  | ok f' => simp

theorem parseCtrl_eq_ok_iff {id text : Str} {entry : SpoolEntry} :
    parseCtrl id text = .ok entry ↔
      ∃ f, parseCtrlLines (lines text) .start = .ok f ∧ f.entry id = .ok entry := by
  unfold parseCtrl
  cases parseCtrlLines (lines text) .start with
  | error e => simp
  | ok f => simp

-- the loop over the recipient lines
theorem parseCtrlLines_rcpts {vs : List Str} {f f' : CtrlFields} :
    parseCtrlLines (vs.map fun v => "rcpt".toList ++ ' ' :: v) f = .ok f' ↔
      ∃ ms, List.Forall₂ (fun v m => Mailbox.parse v = .ok m) vs ms ∧
        f' = { f with recipients := f.recipients ++ ms } := by
  induction vs generalizing f with
  | nil =>
    simp only [List.map_nil, parseCtrlLines, List.forall₂_nil_left_iff, exists_eq_left,
      List.append_nil, Except.ok.injEq]
    exact eq_comm
  | cons v vs ih =>
    rw [List.map_cons, parseCtrlLines, parseCtrlLine_append (by decide), parseCtrlField_rcpt]
    apply Iff.intro
    · intro h
      cases hm : ctrlMailbox v with
      | error e =>
        rw [hm] at h
        cases h
      | ok m =>
        rw [hm] at h
        rcases ih.mp h with ⟨ms, hms, hf⟩
        refine ⟨m :: ms, .cons (ctrlMailbox_eq_ok_iff.mp hm) hms, ?_⟩
        rw [hf]
        simp
    · intro h
      rcases h with ⟨ms, hms, hf⟩
      cases hms with
      | @cons _ m _ ms hm hms =>
        rw [ctrlMailbox_eq_ok_iff.mpr hm]
        refine ih.mpr ⟨ms, hms, ?_⟩
        rw [hf]
        simp

theorem readCtrl_of_record {d : Disk} {id text : Str}
    (h : d.lookup (ctrlPath id) = some (encodeUtf8 text)) : readCtrl d id = parseCtrl id text := by
  unfold readCtrl
  rw [h]
  dsimp only
  rw [decodeUtf8_encodeUtf8]

/-- What a record whose addresses stay on their lines reads as. -/
theorem parseCtrl_renderCtrl {env : Envelope} (hsender : ∀ m ∈ env.sender, OnLine m.toString)
    (hrcpts : ∀ m ∈ env.recipients, OnLine m.toString) {id : Str} {attempts : UInt32}
    {next created : SystemTime} {entry : SpoolEntry} :
    parseCtrl id (renderCtrl env attempts next created) = .ok entry ↔
      ∃ sender ms, ReadsAs env.sender sender ∧
        List.Forall₂ (fun m m' => Mailbox.parse m.toString = .ok m') env.recipients ms ∧
        ms ≠ [] ∧
        entry = ⟨id, sender, ms, attempts, readBack next, readBack created⟩ := by
  have hfrom : OnLine (env.sender.elim [] Mailbox.toString) := by
    cases hs : env.sender with
    | none => exact onLine_nil
    | some m => exact hsender m hs
  have hvs : ∀ v ∈ env.recipients.map Mailbox.toString, OnLine v := by
    intro v hv
    rcases List.mem_map.mp hv with ⟨m, hm, rfl⟩
    exact hrcpts m hm
  have hlines : lines (renderCtrl env attempts next created) =
      ("created".toList ++ ' ' :: showNat created.toSecs) ::
      ("next".toList ++ ' ' :: showNat next.toSecs) ::
      ("attempts".toList ++ ' ' :: showNat attempts.toNat) ::
      ("from".toList ++ ' ' :: env.sender.elim [] Mailbox.toString) ::
      (env.recipients.map Mailbox.toString).map fun v => "rcpt".toList ++ ' ' :: v := by
    unfold renderCtrl
    simp only [List.append_assoc]
    rw [lines_ctrlLine (by decide) (onLine_showNat _),
      lines_ctrlLine (by decide) (onLine_showNat _),
      lines_ctrlLine (by decide) (onLine_showNat _), lines_ctrlLine (by decide) hfrom,
      lines_rcpts hvs]
  have hcreated : ∀ f, parseCtrlLine f ("created".toList ++ ' ' :: showNat created.toSecs) =
      .ok { f with created := some (readBack created) } := by
    intro f
    rw [parseCtrlLine_append (by decide), parseCtrlField, if_pos rfl, ctrlTime_showNat]
    rfl
  have hnext : ∀ f, parseCtrlLine f ("next".toList ++ ' ' :: showNat next.toSecs) =
      .ok { f with next := some (readBack next) } := by
    intro f
    rw [parseCtrlLine_append (by decide), parseCtrlField, if_neg (by decide), if_pos rfl,
      ctrlTime_showNat]
    rfl
  have hattempts : ∀ f, parseCtrlLine f ("attempts".toList ++ ' ' :: showNat attempts.toNat) =
      .ok { f with attempts := some attempts } := by
    intro f
    rw [parseCtrlLine_append (by decide), parseCtrlField_attempts]
  rw [parseCtrl_eq_ok_iff, hlines]
  simp only [parseCtrlLines_cons, hcreated, hnext, hattempts, Except.ok.injEq, exists_eq_left']
  rw [parseCtrlLine_append (by decide)]
  apply Iff.intro
  · intro h
    rcases h with ⟨f, ⟨f', hsend, hrest⟩, hentry⟩
    rcases (parseCtrlField_from rfl _).mp hsend with ⟨sender, hreads, rfl⟩
    rcases parseCtrlLines_rcpts.mp hrest with ⟨ms, hms, rfl⟩
    rw [List.forall₂_map_left_iff] at hms
    have hne : ms ≠ [] := by
      intro hnil
      rw [hnil] at hentry
      cases hentry
    refine ⟨sender, ms, hreads, hms, hne, ?_⟩
    unfold CtrlFields.entry at hentry
    rw [if_neg (by simpa [CtrlFields.start] using hne)] at hentry
    cases hentry
    rfl
  · intro h
    rcases h with ⟨sender, ms, hreads, hms, hne, rfl⟩
    refine ⟨_, ⟨_, (parseCtrlField_from rfl _).mpr ⟨sender, hreads, rfl⟩,
      parseCtrlLines_rcpts.mpr ⟨ms, List.forall₂_map_left_iff.mpr hms, rfl⟩⟩, ?_⟩
    unfold CtrlFields.entry
    rw [if_neg (by simpa [CtrlFields.start] using hne)]
    rfl

/-! ## 4. No line break survives -/

theorem newline_not_mem_of_parse {v : Str} {m : Mailbox} (h : Mailbox.parse v = .ok m)
    (hv : '\n' ∉ v) : '\n' ∉ m.toString := fun hm =>
  hv (mem_of_mem_trim ((Mailbox.addrSpec?_suffix (Mailbox.parse_eq_ok_iff.mp h).1).subset hm))

def CtrlFields.Unbroken (f : CtrlFields) : Prop :=
  (∀ m ∈ f.sender, '\n' ∉ m.toString) ∧ ∀ m ∈ f.recipients, '\n' ∉ m.toString

-- every address was read from a line
def CtrlFields.Read (f : CtrlFields) : Prop :=
  ∀ m, m ∈ f.sender ∨ m ∈ f.recipients → ∃ v, '\n' ∉ v ∧ Mailbox.parse v = .ok m

theorem CtrlFields.Read.unbroken {f : CtrlFields} (h : f.Read) : f.Unbroken := by
  refine ⟨?_, ?_⟩
  · intro m hm
    obtain ⟨v, hv, hparse⟩ := h m (.inl hm)
    exact newline_not_mem_of_parse hparse hv
  · intro m hm
    obtain ⟨v, hv, hparse⟩ := h m (.inr hm)
    exact newline_not_mem_of_parse hparse hv

theorem read_parseCtrlField {f f' : CtrlFields} {key val : Str} (hf : f.Read)
    (hval : '\n' ∉ val) (h : parseCtrlField f key val = .ok f') : f'.Read := by
  unfold parseCtrlField at h
  split at h
  · rcases map_eq_ok_iff.mp h with ⟨t, -, rfl⟩
    exact hf
  split at h
  · rcases map_eq_ok_iff.mp h with ⟨t, -, rfl⟩
    exact hf
  split at h
  · split at h
    · cases h
      exact hf
    · cases h
  split at h
  · rcases map_eq_ok_iff.mp h with ⟨m, hm, rfl⟩
    intro m' hm'
    obtain hm' | hm' := hm'
    · cases hm'
      exact ⟨val, hval, ctrlMailbox_eq_ok_iff.mp hm⟩
    · exact hf m' (.inr hm')
  split at h
  · rcases map_eq_ok_iff.mp h with ⟨m, hm, rfl⟩
    intro m' hm'
    obtain hm' | hm' := hm'
    · exact hf m' (.inl hm')
    · obtain hm' | hm' := List.mem_append.mp hm'
      · exact hf m' (.inr hm')
      · rw [List.mem_singleton.mp hm']
        exact ⟨val, hval, ctrlMailbox_eq_ok_iff.mp hm⟩
  · cases h
    exact hf

theorem read_parseCtrlLines {ls : List Str} {f f' : CtrlFields} (hls : ∀ l ∈ ls, '\n' ∉ l)
    (hf : f.Read) (h : parseCtrlLines ls f = .ok f') : f'.Read := by
  induction ls generalizing f with
  | nil =>
    cases h
    exact hf
  | cons line rest ih =>
    rcases parseCtrlLines_cons.mp h with ⟨g, hg, hrest⟩
    have hline : '\n' ∉ line := hls line (by simp)
    have hval : '\n' ∉ ((splitOnce ' ' line).getD (line, [])).2 := by
      cases hs : splitOnce ' ' line with
      | none => simp
      | some p =>
        intro hm
        rw [(splitOnce_eq_some_iff.mp hs).1] at hline
        exact hline (List.mem_append_right _ (List.mem_cons_of_mem _ hm))
    exact ih (fun l hl => hls l (by simp [hl])) (read_parseCtrlField hf hval hg) hrest

-- what an entry is made of
theorem fields_of_parseCtrl {id text : Str} {entry : SpoolEntry}
    (h : parseCtrl id text = .ok entry) :
    ∃ f : CtrlFields, f.Read ∧ entry.sender = f.sender ∧ entry.recipients = f.recipients ∧
      f.recipients ≠ [] := by
  rcases parseCtrl_eq_ok_iff.mp h with ⟨f, hf, hentry⟩
  have hstart : CtrlFields.start.Read := by
    intro m hm
    simp [CtrlFields.start] at hm
  have hread := read_parseCtrlLines (fun _ hl => newline_not_mem_of_mem_lines hl) hstart hf
  unfold CtrlFields.entry at hentry
  split at hentry
  · cases hentry
  rename_i hsome
  split at hentry
  all_goals cases hentry
  exact ⟨f, hread, rfl, rfl, hsome⟩

theorem read_parseCtrl {id text : Str} {entry : SpoolEntry} (h : parseCtrl id text = .ok entry)
    {m : Mailbox} (hm : m ∈ entry.sender ∨ m ∈ entry.recipients) :
    ∃ v, '\n' ∉ v ∧ Mailbox.parse v = .ok m := by
  obtain ⟨f, hread, hsender, hrcpts, -⟩ := fields_of_parseCtrl h
  rw [hsender, hrcpts] at hm
  exact hread m hm

theorem unbroken_parseCtrl {id text : Str} {entry : SpoolEntry}
    (h : parseCtrl id text = .ok entry) :
    (∀ m ∈ entry.sender, '\n' ∉ m.toString) ∧ ∀ m ∈ entry.recipients, '\n' ∉ m.toString := by
  obtain ⟨f, hread, hsender, hrcpts, -⟩ := fields_of_parseCtrl h
  rw [hsender, hrcpts]
  exact hread.unbroken

/-! ## 5. The spool keeps an envelope -/

-- the entry an envelope is stored as
def keptEntry (id : Str) (env : Envelope) (attempts : UInt32) (next created : SystemTime) :
    SpoolEntry :=
  ⟨id, env.sender, env.recipients, attempts, next.truncate, created.truncate⟩

/-- The record gives the entry back; so `due_now` lists it, once it is due and unless it is being
bounced, and `load_message` rebuilds the message under the same envelope. -/
def Keeps (id : Str) (env : Envelope) (attempts : UInt32) (next created : SystemTime) : Prop :=
  parseCtrl id (renderCtrl env attempts next created) =
    .ok (keptEntry id env attempts next created) ∧
  ∀ (d : Disk) (eml : Bytes),
    d.lookup (ctrlPath id) = some (encodeUtf8 (renderCtrl env attempts next created)) →
    d.lookup (emlPath id) = some eml →
    (∀ now due, d.lookup (bouncingMarker id) = none → next.truncate.le now = true →
      dueNow d now = .ok due → keptEntry id env attempts next created ∈ due) ∧
    ∀ m, Message.parse env eml = .ok m → loadMessage d id = .ok m ∧ m.envelope = env

theorem dueEntry_of_record {d : Disk} {id text : Str} {eml : Bytes} {now : SystemTime}
    {entry : SpoolEntry} (hctrl : d.lookup (ctrlPath id) = some (encodeUtf8 text))
    (heml : d.lookup (emlPath id) = some eml) (hmarker : d.lookup (bouncingMarker id) = none)
    (hparse : parseCtrl id text = .ok entry) (hdue : entry.nextAttemptAt.le now = true) :
    dueEntry d now id = .ok (some entry) := by
  unfold dueEntry
  rw [hmarker, heml, hctrl]
  simp only [Option.isSome_none, Bool.false_eq_true, if_false, Option.isNone_some,
    Option.bind_some, decodeUtf8_encodeUtf8, hparse, hdue, if_true]

theorem keeps_of_parse {id : Str} {env : Envelope} {attempts : UInt32} {next created : SystemTime}
    (h : parseCtrl id (renderCtrl env attempts next created) =
      .ok (keptEntry id env attempts next created)) : Keeps id env attempts next created := by
  refine ⟨h, ?_⟩
  intro d eml hctrl heml
  apply And.intro
  · intro now due hmarker hdue hnow
    rw [mem_dueNow hnow]
    exact ⟨id, by rw [hctrl]; rfl, dueEntry_of_record hctrl heml hmarker h hdue⟩
  · intro m hm
    have hread : readCtrl d id = .ok (keptEntry id env attempts next created) := by
      rw [readCtrl_of_record hctrl, h]
    have henv : (keptEntry id env attempts next created).envelope = env := rfl
    refine ⟨?_, (Message.toBytes_parse hm).2⟩
    unfold loadMessage
    rw [heml, hread]
    simp only [henv, hm]

-- a mailbox the record reads back: no route left in front of it, and no line break inside
def Survives (m : Mailbox) : Prop :=
  (∀ c ∈ m.localPart.head?, c ≠ '@' ∧ isWhitespace c = false) ∧ '\n' ∉ m.toString

theorem onLine_toString {addr : Str} {m : Mailbox} (h : Mailbox.parse addr = .ok m)
    (hno : '\n' ∉ m.toString) : OnLine m.toString := by
  refine ⟨hno, ?_⟩
  intro hcr
  have hws := Mailbox.getLast_toString h hcr
  exact absurd hws (by decide)

/-- For every envelope that SMTP commands can make, the spool keeps it exactly when each of its
mailboxes survives printing and neither time lies before the epoch. -/
theorem spool_keeps_envelope_iff (id : Str) (env : Envelope) (attempts : UInt32)
    (next created : SystemTime)
    (hsender : ∃ line, SmtpCommand.parse line = .ok (.mailFrom env.sender))
    (hrcpts : ∀ r ∈ env.recipients, ∃ line, SmtpCommand.parse line = .ok (.rcptTo r))
    (hne : env.recipients ≠ []) :
    Keeps id env attempts next created ↔
      (∀ m ∈ env.sender, Survives m) ∧ (∀ m ∈ env.recipients, Survives m) ∧
        0 ≤ next.secs ∧ 0 ≤ created.secs := by
  have hfrom : ∀ m ∈ env.sender, ∃ addr, Mailbox.parse addr = .ok m := by
    intro m hm
    rcases hsender with ⟨line, hline⟩
    rcases (SmtpCommand.path_of_parse hline).1 _ rfl with ⟨rest, hrest⟩
    rw [hm] at hrest
    exact mailbox_of_parsePathOpt hrest
  have hto : ∀ m ∈ env.recipients, ∃ addr, Mailbox.parse addr = .ok m := by
    intro m hm
    rcases hrcpts m hm with ⟨line, hline⟩
    rcases (SmtpCommand.path_of_parse hline).2 _ rfl with ⟨rest, hrest⟩
    exact mailbox_of_parsePathOpt hrest
  apply Iff.intro
  · intro h
    have hread := h.1
    -- what was read has no line break, and it is the envelope
    have hun := unbroken_parseCtrl hread
    have honS : ∀ m ∈ env.sender, OnLine m.toString := by
      intro m hm
      rcases hfrom m hm with ⟨addr, haddr⟩
      exact onLine_toString haddr (hun.1 m hm)
    have honR : ∀ m ∈ env.recipients, OnLine m.toString := by
      intro m hm
      rcases hto m hm with ⟨addr, haddr⟩
      exact onLine_toString haddr (hun.2 m hm)
    rcases (parseCtrl_renderCtrl honS honR).mp hread with ⟨sender, ms, hreads, hms, -, heq⟩
    simp only [keptEntry, SpoolEntry.mk.injEq, true_and] at heq
    rcases heq with ⟨hs, hr, hn, hc⟩
    rw [← hr] at hms
    rw [← hs] at hreads
    refine ⟨?_, ?_, (readBack_eq_truncate_iff next).mp hn.symm,
      (readBack_eq_truncate_iff created).mp hc.symm⟩
    · intro m hm
      rcases hfrom m hm with ⟨addr, haddr⟩
      rw [hm] at hreads
      rcases hreads with ⟨m', hm', hsame⟩
      cases hsame
      exact ⟨(Mailbox.parse_toString_iff haddr).mp hm', hun.1 m hm⟩
    · intro m hm
      rcases hto m hm with ⟨addr, haddr⟩
      exact ⟨(Mailbox.parse_toString_iff haddr).mp (List.forall₂_same.mp hms m hm), hun.2 m hm⟩
  · intro h
    rcases h with ⟨hS, hR, hn, hc⟩
    apply keeps_of_parse
    have honS : ∀ m ∈ env.sender, OnLine m.toString := by
      intro m hm
      rcases hfrom m hm with ⟨addr, haddr⟩
      exact onLine_toString haddr (hS m hm).2
    have honR : ∀ m ∈ env.recipients, OnLine m.toString := by
      intro m hm
      rcases hto m hm with ⟨addr, haddr⟩
      exact onLine_toString haddr (hR m hm).2
    refine (parseCtrl_renderCtrl honS honR).mpr
      ⟨env.sender, env.recipients, ?_, List.forall₂_same.mpr ?_, hne, ?_⟩
    · cases hs : env.sender with
      | none => rfl
      | some m =>
        rcases hfrom m hs with ⟨addr, haddr⟩
        exact ⟨m, (Mailbox.parse_toString_iff haddr).mpr (hS m hs).1, rfl⟩
    · intro m hm
      rcases hto m hm with ⟨addr, haddr⟩
      exact (Mailbox.parse_toString_iff haddr).mpr (hR m hm).1
    · rw [keptEntry, (readBack_eq_truncate_iff next).mpr hn,
        (readBack_eq_truncate_iff created).mpr hc]

theorem spool_keeps_envelope_iff_plain :
    Keeps "1".toList ⟨none, [⟨"user".toList, "example.com".toList⟩]⟩ 3 .unixEpoch .unixEpoch := by
  refine (spool_keeps_envelope_iff _ _ _ _ _ ⟨"MAIL FROM:<>".toList, by decide +kernel⟩ ?_
    (by simp)).mpr ⟨by simp, ?_, by decide, by decide⟩
  · intro r hr
    rw [List.mem_singleton.mp hr]
    exact ⟨"RCPT TO:<user@example.com>".toList, by decide +kernel⟩
  · intro m hm
    rw [List.mem_singleton.mp hm]
    apply And.intro
    · intro c hc
      have hu : 'u' = c := Option.some.inj hc
      rw [← hu]
      decide
    · decide

/-- A second `@` behind a source route stays in the local part, and the record of such a recipient
cannot be read. -/
theorem spool_loses_routed_recipient :
    SmtpCommand.parse "MAIL FROM:<>".toList = .ok (.mailFrom none) ∧
    SmtpCommand.parse "RCPT TO:<@a:@b@c>".toList = .ok (.rcptTo ⟨"@b".toList, "c".toList⟩) ∧
    parseCtrl "1".toList (renderCtrl ⟨none, [⟨"@b".toList, "c".toList⟩]⟩ 0 .unixEpoch .unixEpoch) =
      .error "invalid mailbox address: @b@c".toList ∧
    ¬ Keeps "1".toList ⟨none, [⟨"@b".toList, "c".toList⟩]⟩ 0 .unixEpoch .unixEpoch := by
  have hread : parseCtrl "1".toList
      (renderCtrl ⟨none, [⟨"@b".toList, "c".toList⟩]⟩ 0 .unixEpoch .unixEpoch) =
      .error "invalid mailbox address: @b@c".toList := by decide +kernel
  refine ⟨by decide +kernel, by decide +kernel, hread, ?_⟩
  intro h
  rw [h.1] at hread
  cases hread

end Snail.Server
