import Snail.Security.Audit

/-!
# AuditChain — what the audit file shows

The file of completed appends is the chain of their records, through any number of restarts.
-/

open Snail.Reasoning

namespace Snail.Security

variable {blake2b512 : Bytes → Bytes}

/-! ## 1. Framing -/

-- free of the separators of fields and lines
def Framed (s : Str) : Prop := ∀ c ∈ s, c ≠ '\t' ∧ c ≠ '\n' ∧ c ≠ '\r'

instance (s : Str) : Decidable (Framed s) := List.decidableBAll _ s

theorem Framed.append {s t : Str} (hs : Framed s) (ht : Framed t) : Framed (s ++ t) := by
  intro c hc
  rcases List.mem_append.mp hc with hc | hc
  · exact hs c hc
  · exact ht c hc

-- on one line, with no end of a line in it
def SingleLine (s : Str) : Prop := '\n' ∉ s ∧ '\r' ∉ s

theorem Framed.singleLine {s : Str} (h : Framed s) : SingleLine s :=
  ⟨fun hm => (h _ hm).2.1 rfl, fun hm => (h _ hm).2.2 rfl⟩

theorem SingleLine.append {s t : Str} (hs : SingleLine s) (ht : SingleLine t) :
    SingleLine (s ++ t) :=
  ⟨fun hm => (List.mem_append.mp hm).elim hs.1 ht.1,
    fun hm => (List.mem_append.mp hm).elim hs.2 ht.2⟩

theorem SingleLine.tab {s t : Str} (hs : SingleLine s) (ht : SingleLine t) :
    SingleLine (s ++ '\t' :: t) := by
  have htab : SingleLine ['\t'] := ⟨by decide, by decide⟩
  exact hs.append (htab.append ht)

theorem digitChar_framed : ∀ d < 16, Nat.digitChar d ≠ '\t' ∧ Nat.digitChar d ≠ '\n' ∧
    Nat.digitChar d ≠ '\r' := by
  decide

theorem framed_showNat (n : Nat) : Framed (showNat n) := by
  intro c hc
  obtain ⟨d, hd, rfl⟩ := exists_digit_of_mem_toDigits (by decide) hc
  exact digitChar_framed d (by omega)

theorem framed_toText (ip : IpAddr) : Framed ip.toText := by
  intro c hc
  rcases isAddrChar_of_mem_toText hc with rfl | rfl | ⟨d, hd, rfl⟩
  · decide
  · decide
  · exact digitChar_framed d hd

theorem framed_sanitize (s : Str) : Framed (AuditEvent.sanitize s) := by
  intro c hc
  obtain ⟨d, -, rfl⟩ := List.mem_map.mp hc
  by_cases hd : d = '\t' ∨ d = '\n' ∨ d = '\r'
  · rw [if_pos hd]
    decide
  · rw [if_neg hd]
    exact ⟨fun h => hd (.inl h), fun h => hd (.inr (.inl h)), fun h => hd (.inr (.inr h))⟩

theorem framed_encode (event : AuditEvent) : Framed event.encode := by
  cases event with
  | authSuccess user => exact Framed.append (by decide) (framed_sanitize user)
  | authFailure user ip =>
    exact ((Framed.append (by decide) (framed_sanitize user)).append
      (by decide)).append (framed_toText ip)
  | blocked ip reason =>
    exact ((Framed.append (by decide) (framed_toText ip)).append
      (by decide)).append (framed_sanitize reason)
  | rateLimited ip => exact Framed.append (by decide) (framed_toText ip)
  | firewallPaused => decide
  | firewallResumed => decide

theorem framed_chainHash (prev payload : Str) : Framed (chainHash blake2b512 prev payload) := by
  intro c hc
  obtain ⟨b, -, hb⟩ := List.mem_flatMap.mp hc
  have hlt : b.toNat < 256 := b.toNat_lt
  unfold hexByte at hb
  rw [List.mem_pair] at hb
  rcases hb with rfl | rfl
  · exact digitChar_framed _ (by omega)
  · exact digitChar_framed _ (by omega)

theorem singleLine_payload (seq : Nat) (now : SystemTime) (event : AuditEvent) :
    SingleLine (auditPayload seq now event) :=
  (framed_showNat seq).singleLine.tab
    ((framed_showNat now.toSecs).singleLine.tab (framed_encode event).singleLine)

/-! ## 2. The records of a sequence of events -/

-- the chain that the events make behind a hash and a number of records
def recordsFrom (blake2b512 : Bytes → Bytes) :
    Str → Nat → List (SystemTime × AuditEvent) → List (Str × Str)
  | _, _, [] => []
  | prev, seq, entry :: rest =>
      auditRecord blake2b512 prev seq entry.1 entry.2 ::
        recordsFrom blake2b512 (auditRecord blake2b512 prev seq entry.1 entry.2).2 (seq + 1) rest

def fileText (records : List (Str × Str)) : Str := records.flatMap fun r => recordLine r ++ ['\n']

section
variable {prev : Str} {seq : Nat} {entries more : List (SystemTime × AuditEvent)}
  {records : List (Str × Str)}

theorem linked_recordsFrom :
    Linked (chainHash blake2b512) prev (recordsFrom blake2b512 prev seq entries) := by
  induction entries generalizing prev seq with
  | nil => exact trivial
  | cons entry entries ih => exact ⟨rfl, ih⟩

theorem length_recordsFrom : (recordsFrom blake2b512 prev seq entries).length = entries.length := by
  induction entries generalizing prev seq with
  | nil => rfl
  | cons entry entries ih => exact congrArg (· + 1) ih

theorem recordsFrom_append : recordsFrom blake2b512 prev seq (entries ++ more) =
    recordsFrom blake2b512 prev seq entries ++
      recordsFrom blake2b512 (chainTip prev (recordsFrom blake2b512 prev seq entries))
        (seq + entries.length) more := by
  induction entries generalizing prev seq with
  | nil => rfl
  | cons entry entries ih =>
    show _ :: recordsFrom blake2b512 _ (seq + 1) (entries ++ more) = _
    rw [ih, Nat.add_assoc, Nat.add_comm 1]
    rfl

-- records that stand on a line of their own
def OnLines (records : List (Str × Str)) : Prop := ∀ r ∈ records, SingleLine (recordLine r)

theorem onLines_recordsFrom : OnLines (recordsFrom blake2b512 prev seq entries) := by
  induction entries generalizing prev seq with
  | nil => exact fun r hr => absurd hr List.not_mem_nil
  | cons entry entries ih =>
    intro r hr
    rcases List.mem_cons.mp hr with rfl | hr
    · exact (singleLine_payload seq entry.1 entry.2).tab (framed_chainHash _ _).singleLine
    · exact ih r hr

theorem lines_fileText (h : OnLines records) (rest : Str) :
    lines (fileText records ++ rest) = records.map recordLine ++ lines rest := by
  induction records with
  | nil => rfl
  | cons r records ih =>
    have hr : SingleLine (recordLine r) := h r List.mem_cons_self
    have htext : fileText (r :: records) ++ rest =
        recordLine r ++ '\n' :: (fileText records ++ rest) := by
      simp [fileText]
    rw [htext, lines_append_newline hr.1 fun hlast => hr.2 (List.mem_of_getLast? hlast),
      ih fun s hs => h s (List.mem_cons_of_mem _ hs)]
    rfl

theorem fileText_append {others : List (Str × Str)} :
    fileText (records ++ others) = fileText records ++ fileText others :=
  List.flatMap_append

theorem length_le_fileText (records : List (Str × Str)) :
    records.length ≤ (fileText records).length := by
  induction records with
  | nil => exact Nat.le_refl 0
  | cons r records ih =>
    rw [fileText, List.flatMap_cons, List.length_append, List.length_append, List.length_singleton,
      List.length_cons, ← fileText]
    omega

/-! ## 3. Reading the chain -/

theorem recordLine_eq (now : SystemTime) (event : AuditEvent) :
    recordLine (auditRecord blake2b512 prev seq now event) =
      showNat seq ++ '\t' :: (showNat now.toSecs ++ '\t' :: event.encode ++
        '\t' :: (auditRecord blake2b512 prev seq now event).2) := by
  simp [recordLine, auditRecord, auditPayload]

theorem rsplitOnce_recordLine {payload hash : Str} (h : Framed hash) :
    rsplitOnce '\t' (recordLine (payload, hash)) = some (payload, hash) :=
  rsplitOnce_append_cons fun hm => (h _ hm).1 rfl

theorem framed_of_linked (h : Linked (chainHash blake2b512) prev records) :
    ∀ r ∈ records, Framed r.2 := by
  induction records generalizing prev with
  | nil => exact fun r hr => absurd hr List.not_mem_nil
  | cons s records ih =>
    intro r hr
    rcases List.mem_cons.mp hr with rfl | hr
    · rw [← h.1]
      exact framed_chainHash _ _
    · exact ih h.2 r hr

-- `verify` passes over a chain
theorem verifyLines_linked (h : Linked (chainHash blake2b512) prev records) (n : Nat)
    (rest : List Str) :
    verifyLines blake2b512 prev n (records.map recordLine ++ rest) =
      verifyLines blake2b512 (chainTip prev records) (n + records.length) rest := by
  induction records generalizing prev n with
  | nil => rfl
  | cons r records ih =>
    rw [List.map_cons, List.cons_append, verifyLines,
      rsplitOnce_recordLine (framed_of_linked h r List.mem_cons_self)]
    dsimp only
    rw [if_neg (not_not.mpr h.1), ih h.2, List.length_cons, Nat.add_assoc, Nat.add_comm 1]
    rfl

theorem verifyLines_records (n : Nat) (h : Linked (chainHash blake2b512) prev records) :
    verifyLines blake2b512 prev n (records.map recordLine) = .valid (n + records.length) := by
  have hall := verifyLines_linked h n []
  rw [List.append_nil] at hall
  exact hall

-- ... and over nothing else
theorem linked_of_verifyLines {n k : Nat} {ls : List Str}
    (h : verifyLines blake2b512 prev n ls = .valid k) :
    ∃ records, ls = records.map recordLine ∧ Linked (chainHash blake2b512) prev records := by
  induction ls generalizing prev n with
  | nil => exact ⟨[], rfl, trivial⟩
  | cons line ls ih =>
    rw [verifyLines] at h
    cases hsplit : rsplitOnce '\t' line with
    | none =>
      rw [hsplit] at h
      cases h
    | some fields =>
      rw [hsplit] at h
      dsimp only at h
      split at h
      · cases h
      · rename_i hhash
        obtain ⟨records, rfl, hlinked⟩ := ih h
        exact ⟨fields :: records, by rw [(rsplitOnce_eq_some_iff.mp hsplit).1]; rfl,
          not_not.mp hhash, hlinked⟩

theorem le_of_brokenAt {n line : Nat} {ls : List Str}
    (h : verifyLines blake2b512 prev n ls = .brokenAt line) : n ≤ line := by
  induction ls generalizing prev n with
  | nil => cases h
  | cons l ls ih =>
    rw [verifyLines] at h
    cases hsplit : rsplitOnce '\t' l with
    | none =>
      rw [hsplit] at h
      cases h
      exact Nat.le_refl _
    | some fields =>
      rw [hsplit] at h
      dsimp only at h
      split at h
      · cases h
        exact Nat.le_refl _
      · have := ih h
        omega

-- the first field of a payload
theorem head_splitOn_number (seq : Nat) (rest : Str) :
    ((showNat seq ++ '\t' :: rest).splitOn '\t').head? = some (showNat seq) := by
  rw [List.splitOn_append_cons_self_of_not_mem fun hm => (framed_showNat seq _ hm).1 rfl]
  rfl

-- a line of fields, the first of which is a number
theorem tipStep_numbered {found : Str × Nat} {rest payload hash : Str} (hseq : seq ≤ 2 ^ 64 - 1)
    (hsplit : rsplitOnce '\t' (showNat seq ++ '\t' :: rest) = some (payload, hash)) :
    tipStep found (showNat seq ++ '\t' :: rest) = (hash, seq + 1) := by
  -- the payload has the same first field
  have hfield : (payload.splitOn '\t').head? = some (showNat seq) := by
    have hhead := head_splitOn_number seq rest
    rw [(rsplitOnce_eq_some_iff.mp hsplit).1, List.splitOn_append_cons_self] at hhead
    rwa [List.head?_append_of_ne_nil _ (List.splitOn_ne_nil _ _)] at hhead
  unfold tipStep
  rw [hsplit]
  dsimp only
  rw [hfield, Option.bind_some, parseUnsigned_showNat hseq]

theorem foldl_tipStep (h : seq + entries.length ≤ 2 ^ 64) :
    ((recordsFrom blake2b512 prev seq entries).map recordLine).foldl tipStep (prev, seq) =
      (chainTip prev (recordsFrom blake2b512 prev seq entries), seq + entries.length) := by
  induction entries generalizing prev seq with
  | nil => rfl
  | cons entry entries ih =>
    rw [List.length_cons] at h
    have hstep : tipStep (prev, seq)
        (recordLine (auditRecord blake2b512 prev seq entry.1 entry.2)) =
        ((auditRecord blake2b512 prev seq entry.1 entry.2).2, seq + 1) := by
      have hsplit : rsplitOnce '\t' (recordLine (auditRecord blake2b512 prev seq entry.1 entry.2)) =
          some (auditRecord blake2b512 prev seq entry.1 entry.2) :=
        rsplitOnce_recordLine (framed_chainHash _ _)
      rw [recordLine_eq] at hsplit ⊢
      exact tipStep_numbered (by omega) hsplit
    show List.foldl tipStep (tipStep (prev, seq) _) (List.map recordLine _) = _
    rw [hstep, ih (by omega), List.length_cons, Nat.add_assoc, Nat.add_comm 1]
    rfl

/-! ## 4. Runs -/

-- the sink behind the records of the entries
def sinkBehind (blake2b512 : Bytes → Bytes) (entries : List (SystemTime × AuditEvent)) :
    DurableAuditSink :=
  ⟨fileText (recordsFrom blake2b512 [] 0 entries),
    chainTip [] (recordsFrom blake2b512 [] 0 entries), entries.length⟩

theorem lines_sinkBehind (rest : Str) : lines ((sinkBehind blake2b512 entries).text ++ rest) =
    (recordsFrom blake2b512 [] 0 entries).map recordLine ++ lines rest :=
  lines_fileText onLines_recordsFrom rest

theorem lines_sinkBehind_text : lines (sinkBehind blake2b512 entries).text =
    (recordsFrom blake2b512 [] 0 entries).map recordLine := by
  have hlines : lines ((sinkBehind blake2b512 entries).text ++ []) = _ := lines_sinkBehind []
  rwa [List.append_nil, show lines [] = [] from rfl, List.append_nil] at hlines

theorem tip_sinkBehind (h : entries.length ≤ 2 ^ 64) :
    tip (sinkBehind blake2b512 entries).text =
      ((sinkBehind blake2b512 entries).prevHash, entries.length) := by
  unfold tip
  rw [lines_sinkBehind_text, foldl_tipStep (by omega), Nat.zero_add]
  rfl

theorem open_sinkBehind (h : entries.length ≤ 2 ^ 64) :
    DurableAuditSink.open (some (sinkBehind blake2b512 entries).text) =
      sinkBehind blake2b512 entries := by
  unfold DurableAuditSink.open
  dsimp only
  rw [tip_sinkBehind h]
  rfl

theorem sinkBehind_concat (now : SystemTime) (event : AuditEvent) :
    sinkBehind blake2b512 (entries ++ [(now, event)]) =
      let sink := sinkBehind blake2b512 entries
      let record := auditRecord blake2b512 sink.prevHash sink.seq now event
      ⟨sink.text ++ (recordLine record ++ ['\n']), record.2, sink.seq + 1⟩ := by
  have hrecords : recordsFrom blake2b512 [] 0 (entries ++ [(now, event)]) =
      recordsFrom blake2b512 [] 0 entries ++ [auditRecord blake2b512
        (sinkBehind blake2b512 entries).prevHash entries.length now event] := by
    rw [recordsFrom_append, Nat.zero_add]
    rfl
  rw [sinkBehind, hrecords, fileText_append, chainTip_append, List.length_append]
  simp [fileText, sinkBehind, chainTip]

theorem append_sinkBehind (now : SystemTime) (event : AuditEvent) :
    (sinkBehind blake2b512 entries).append blake2b512 now event =
      if (sinkBehind blake2b512 (entries ++ [(now, event)])).text.length ≤ maxFileLen then
        some (sinkBehind blake2b512 (entries ++ [(now, event)]))
      else none := by
  rw [sinkBehind_concat]
  rfl

theorem length_le_sinkBehind (blake2b512 : Bytes → Bytes)
    (entries : List (SystemTime × AuditEvent)) :
    entries.length ≤ (sinkBehind blake2b512 entries).text.length := by
  have hcount := length_le_fileText (recordsFrom blake2b512 [] 0 entries)
  rwa [length_recordsFrom] at hcount

theorem runs_eq {steps : List SinkStep} {sink : DurableAuditSink}
    (h : (DurableAuditSink.open none).runs blake2b512 steps = some sink) :
    sink = sinkBehind blake2b512 (steps.filterMap SinkStep.entry?) ∧
      (steps.filterMap SinkStep.entry?).length ≤ maxFileLen := by
  induction steps using List.reverseRecOn generalizing sink with
  | nil =>
    cases h
    exact ⟨rfl, Nat.zero_le _⟩
  | append_singleton steps step ih =>
    unfold DurableAuditSink.runs at h ih
    rw [List.foldlM_append, Option.bind_eq_bind, Option.bind_eq_some_iff] at h
    obtain ⟨before, hbefore, hstep⟩ := h
    obtain ⟨rfl, hlength⟩ := ih hbefore
    rw [List.foldlM_cons, Option.bind_eq_bind, Option.bind_eq_some_iff] at hstep
    obtain ⟨after, hafter, hsink⟩ := hstep
    cases hsink
    rw [List.filterMap_append]
    cases step with
    | append now event =>
      change (sinkBehind blake2b512 _).append blake2b512 now event = _ at hafter
      rw [append_sinkBehind] at hafter
      split at hafter
      · rename_i hfits
        cases hafter
        exact ⟨rfl, (length_le_sinkBehind _ _).trans hfits⟩
      · cases hafter
    | reopen =>
      cases hafter
      have hshort : (steps.filterMap SinkStep.entry?).length ≤ 2 ^ 64 := by
        unfold maxFileLen at hlength
        omega
      rw [open_sinkBehind hshort, show [SinkStep.reopen].filterMap SinkStep.entry? = [] from rfl,
        List.append_nil]
      exact ⟨rfl, hlength⟩

-- an append is completed as long as the file has room for it
theorem runs_isSome_iff (blake2b512 : Bytes → Bytes) (steps : List SinkStep) :
    ((DurableAuditSink.open none).runs blake2b512 steps).isSome ↔
      (sinkBehind blake2b512 (steps.filterMap SinkStep.entry?)).text.length ≤ maxFileLen := by
  induction steps using List.reverseRecOn with
  | nil => simp [DurableAuditSink.runs, sinkBehind, fileText, recordsFrom]
  | append_singleton steps step ih =>
    have hruns : (DurableAuditSink.open none).runs blake2b512 (steps ++ [step]) =
        ((DurableAuditSink.open none).runs blake2b512 steps).bind
          fun sink => step.run blake2b512 sink := by
      unfold DurableAuditSink.runs
      rw [List.foldlM_append]
      simp
    rw [hruns, List.filterMap_append]
    cases hbefore : (DurableAuditSink.open none).runs blake2b512 steps with
    | none =>
      rw [hbefore] at ih
      have hlong : ¬ (sinkBehind blake2b512 (steps.filterMap SinkStep.entry?)).text.length ≤
          maxFileLen := fun h => absurd (ih.mpr h) (by decide)
      have hgrows : (sinkBehind blake2b512 (steps.filterMap SinkStep.entry?)).text.length ≤
          (sinkBehind blake2b512 (steps.filterMap SinkStep.entry? ++
            [step].filterMap SinkStep.entry?)).text.length := by
        unfold sinkBehind
        dsimp only
        rw [recordsFrom_append, fileText_append, List.length_append]
        exact Nat.le_add_right _ _
      constructor
      · intro h
        cases h
      · intro h
        exact absurd (hgrows.trans h) hlong
    | some sink =>
      obtain ⟨rfl, -⟩ := runs_eq hbefore
      have hfits := ih.mp (by rw [hbefore]; rfl)
      rw [Option.bind_some]
      cases step with
      | reopen =>
        rw [show [SinkStep.reopen].filterMap SinkStep.entry? = [] from rfl, List.append_nil]
        exact ⟨fun _ => hfits, fun _ => rfl⟩
      | append now event =>
        change ((sinkBehind blake2b512 _).append blake2b512 now event).isSome ↔ _
        rw [append_sinkBehind]
        exact Option.isSome_dite

/-! ## 5. An untouched file -/

-- the sequence field of a line
def seqField (line : Str) : Option Str := (line.splitOn '\t').head?

theorem seqField_recordsFrom : ((recordsFrom blake2b512 prev seq entries).map recordLine).map
    seqField = (List.range' seq entries.length).map fun i => some (showNat i) := by
  induction entries generalizing prev seq with
  | nil => rfl
  | cons entry entries ih =>
    show seqField (recordLine _) :: _ = _
    rw [recordLine_eq, seqField, head_splitOn_number, ih]
    rfl

theorem verify_sinkBehind : DurableAuditSink.verify blake2b512
    (some (sinkBehind blake2b512 entries).text) = .valid entries.length := by
  rw [DurableAuditSink.verify, lines_sinkBehind_text, verifyLines_records 0 linked_recordsFrom,
    Nat.zero_add, length_recordsFrom]

/-- A file that nothing but completed appends has touched verifies, with as many records, numbered
from zero. -/
theorem untouched_log_verifies {steps : List SinkStep} {sink : DurableAuditSink}
    (h : (DurableAuditSink.open none).runs blake2b512 steps = some sink) :
    DurableAuditSink.verify blake2b512 (some sink.text) =
        .valid (steps.filterMap SinkStep.entry?).length ∧
      (lines sink.text).map seqField =
        (List.range (steps.filterMap SinkStep.entry?).length).map fun i => some (showNat i) := by
  obtain ⟨rfl, -⟩ := runs_eq h
  refine ⟨verify_sinkBehind, ?_⟩
  rw [lines_sinkBehind_text, seqField_recordsFrom, List.range_eq_range']

-- hostile names, and a restart between
theorem untouched_log_verifies_restarted :
    ∃ sink, (DurableAuditSink.open none).runs (fun x => [UInt8.ofNat x.length])
      [.append .unixEpoch (.authFailure "a\tb\r\n7\t0".toList (.v4 1#32)), .reopen,
        .append .unixEpoch (.authSuccess "\n".toList)] = some sink ∧
      DurableAuditSink.verify (fun x => [UInt8.ofNat x.length]) (some sink.text) = .valid 2 ∧
      (lines sink.text).map seqField = [some "0".toList, some "1".toList] := by
  obtain ⟨sink, hsink⟩ := Option.isSome_iff_exists.mp
    ((runs_isSome_iff (fun x => [UInt8.ofNat x.length])
      [.append .unixEpoch (.authFailure "a\tb\r\n7\t0".toList (.v4 1#32)), .reopen,
        .append .unixEpoch (.authSuccess "\n".toList)]).mpr (by decide +kernel))
  exact ⟨sink, hsink, untouched_log_verifies hsink⟩

end

end Snail.Security
