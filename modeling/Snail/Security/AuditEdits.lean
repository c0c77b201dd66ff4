import Snail.Security.AuditChain

/-!
# AuditEdits — the audit file behind an edit or a crash

What `verify` finds in a file that was edited without computing a hash, and what the chain is worth
behind a write that was cut off.
-/

open Snail.Reasoning

namespace Snail.Security

variable {blake2b512 : Bytes → Bytes}

/-! ## 1. The chain hash -/

theorem hexByte_injective : Function.Injective hexByte := by
  have hdigit : ∀ m < 16, ∀ n < 16, Nat.digitChar m = Nat.digitChar n → m = n := by decide
  intro b c h
  unfold hexByte at h
  rw [List.cons.injEq, List.cons.injEq] at h
  have hb : b.toNat < 256 := b.toNat_lt
  have hc : c.toNat < 256 := c.toNat_lt
  have hhigh := hdigit _ (by omega) _ (by omega) h.1
  have hlow := hdigit _ (by omega) _ (by omega) h.2.1
  exact UInt8.toNat_inj.mp (by omega)

theorem hexBytes_injective : Function.Injective fun bytes : Bytes => bytes.flatMap hexByte := by
  intro l
  induction l with
  | nil =>
    intro m h
    cases m with
    | nil => rfl
    | cons c m => simp [hexByte] at h
  | cons b l ih =>
    intro m h
    cases m with
    | nil => simp [hexByte] at h
    | cons c m =>
      have h' : hexByte b ++ l.flatMap hexByte = hexByte c ++ m.flatMap hexByte := h
      obtain ⟨hfirst, hrest⟩ := List.append_inj h' rfl
      rw [hexByte_injective hfirst, ih hrest]

-- a hash determines the line it was computed for, behind a hash without a newline
theorem chainHash_inj (hinj : Function.Injective blake2b512) {prev prev' payload payload' : Str}
    (hprev : '\n' ∉ prev) (hprev' : '\n' ∉ prev')
    (h : chainHash blake2b512 prev payload = chainHash blake2b512 prev' payload') :
    prev = prev' ∧ payload = payload' := by
  have hinput := congrArg (splitOnce lf) (hinj (hexBytes_injective h))
  rw [splitOnce_append_cons (lf_not_mem_encodeUtf8 hprev),
    splitOnce_append_cons (lf_not_mem_encodeUtf8 hprev'), Option.some.injEq,
    Prod.mk.injEq] at hinput
  exact ⟨encodeUtf8_injective hinput.1, encodeUtf8_injective hinput.2⟩

theorem binding_chainHash (hinj : Function.Injective blake2b512) (hne : ∀ x, blake2b512 x ≠ []) :
    Binding (chainHash blake2b512) [] := by
  have htip : ∀ p, IsTip (chainHash blake2b512) [] p → '\n' ∉ p := by
    rintro p (rfl | ⟨prev, payload, rfl⟩)
    · exact List.not_mem_nil
    · exact (framed_chainHash prev payload).singleLine.1
  constructor
  · intro prev payload h
    exact hne _ (hexBytes_injective h)
  · intro p q b c hp hq h
    exact chainHash_inj hinj (htip p hp) (htip q hq) h

/-! ## 2. Edits -/

-- the hash fields of a file
def chainHashes (text : Str) : List Str :=
  (lines text).filterMap fun line => (rsplitOnce '\t' line).map Prod.snd

/-- No hash was computed for the new file: a field of it that hashes anything at all is one that the
old file has. -/
def NothingRecomputed (blake2b512 : Bytes → Bytes) (old new : Str) : Prop :=
  ∀ hash ∈ chainHashes new, (∃ prev payload, chainHash blake2b512 prev payload = hash) →
    hash ∈ chainHashes old

theorem NothingRecomputed.of_subset {old new : Str} (h : ∀ hash ∈ chainHashes new,
    hash ∈ chainHashes old) : NothingRecomputed blake2b512 old new :=
  fun hash hhash _ => h hash hhash

section
variable {prev : Str} {records : List (Str × Str)}

theorem filterMap_rsplitOnce (h : Linked (chainHash blake2b512) prev records) :
    (records.map recordLine).filterMap (fun line => (rsplitOnce '\t' line).map Prod.snd) =
      records.map Prod.snd := by
  rw [List.filterMap_map, ← List.filterMap_eq_map]
  apply List.filterMap_congr
  intro r hr
  show (rsplitOnce '\t' (recordLine r)).map Prod.snd = some r.2
  rw [rsplitOnce_recordLine (framed_of_linked h r hr)]
  rfl

theorem exists_chainHash_of_linked (h : Linked (chainHash blake2b512) prev records) :
    ∀ r ∈ records, ∃ p, chainHash blake2b512 p r.1 = r.2 := by
  intro r hr
  obtain ⟨front, rest, rfl⟩ := List.append_of_mem hr
  exact ⟨_, (linked_append.mp h).2.1⟩

end

/-- Of the files that are put together without computing a hash, `verify` passes those whose lines
are the first lines of the file that was there. -/
theorem tampering_detected_iff (hinj : Function.Injective blake2b512)
    (hne : ∀ x, blake2b512 x ≠ []) {steps : List SinkStep} {sink : DurableAuditSink}
    (hrun : (DurableAuditSink.open none).runs blake2b512 steps = some sink) {text : Str}
    (hnew : NothingRecomputed blake2b512 sink.text text) :
    (∃ line, DurableAuditSink.verify blake2b512 (some text) = .brokenAt line) ↔
      ¬ lines text <+: lines sink.text := by
  obtain ⟨rfl, -⟩ := runs_eq hrun
  rw [lines_sinkBehind_text]
  have hlinked : Linked (chainHash blake2b512) []
      (recordsFrom blake2b512 [] 0 (steps.filterMap SinkStep.entry?)) := linked_recordsFrom
  constructor
  · rintro ⟨line, hbroken⟩ hpre
    obtain ⟨records, hrecords, hlines⟩ := List.prefix_map_iff.mp hpre
    obtain ⟨rest, hrest⟩ := hrecords
    rw [← hrest] at hlinked
    rw [DurableAuditSink.verify, hlines, verifyLines_records 0 (linked_append.mp hlinked).1]
      at hbroken
    cases hbroken
  · intro hpre
    cases hverify : DurableAuditSink.verify blake2b512 (some text) with
    | brokenAt line => exact ⟨line, rfl⟩
    | valid n =>
      obtain ⟨records, hlines, hchain⟩ := linked_of_verifyLines hverify
      have hhashes : ∀ r ∈ records, r.2 ∈
          (recordsFrom blake2b512 [] 0 (steps.filterMap SinkStep.entry?)).map Prod.snd := by
        intro r hr
        have hfield : r.2 ∈ chainHashes text := by
          unfold chainHashes
          rw [hlines, filterMap_rsplitOnce hchain]
          exact List.mem_map_of_mem hr
        obtain ⟨p, hp⟩ := exists_chainHash_of_linked hchain r hr
        have hold := hnew r.2 hfield ⟨p, r.1, hp⟩
        unfold chainHashes at hold
        rwa [lines_sinkBehind_text, filterMap_rsplitOnce hlinked] at hold
      apply absurd _ hpre
      rw [hlines]
      exact ((binding_chainHash hinj hne).isPrefix_of_hashes hlinked hchain hhashes).map _

/-- The last of two records is deleted, and nothing is noticed. -/
theorem deleted_record_unnoticed :
    ∃ sink, (DurableAuditSink.open none).runs (1 :: ·)
        [.append .unixEpoch .firewallPaused, .append .unixEpoch .firewallResumed] = some sink ∧
      let text := ((lines sink.text).take 1).flatMap (· ++ ['\n'])
      text ≠ sink.text ∧ NothingRecomputed (1 :: ·) sink.text text ∧
        DurableAuditSink.verify (1 :: ·) (some text) = .valid 1 := by
  obtain ⟨sink, hsink⟩ := Option.isSome_iff_exists.mp ((runs_isSome_iff (1 :: ·)
    [.append .unixEpoch .firewallPaused, .append .unixEpoch .firewallResumed]).mpr
      (by decide +kernel))
  refine ⟨sink, hsink, ?_⟩
  obtain ⟨rfl, -⟩ := runs_eq hsink
  exact ⟨by decide +kernel, .of_subset (by decide +kernel), by decide +kernel⟩

-- two records change places
theorem tampering_detected_iff_reordered :
    ∃ sink, (DurableAuditSink.open none).runs (1 :: ·)
        [.append .unixEpoch .firewallPaused, .append .unixEpoch .firewallResumed] = some sink ∧
      ∃ line, DurableAuditSink.verify (1 :: ·)
        (some ((lines sink.text).reverse.flatMap (· ++ ['\n']))) = .brokenAt line := by
  obtain ⟨sink, hsink⟩ := Option.isSome_iff_exists.mp ((runs_isSome_iff (1 :: ·)
    [.append .unixEpoch .firewallPaused, .append .unixEpoch .firewallResumed]).mpr
      (by decide +kernel))
  refine ⟨sink, hsink, (tampering_detected_iff (List.cons_injective) (by simp) hsink ?_).mpr ?_⟩
  · obtain ⟨rfl, -⟩ := runs_eq hsink
    exact .of_subset (by decide +kernel)
  · obtain ⟨rfl, -⟩ := runs_eq hsink
    decide +kernel

/-! ## 3. A write that was cut off -/

section
variable {entries more : List (SystemTime × AuditEvent)} {now : SystemTime} {event : AuditEvent}
  {p : Str}

-- the line that the next append writes
def nextLine (blake2b512 : Bytes → Bytes) (sink : DurableAuditSink) (now : SystemTime)
    (event : AuditEvent) : Str :=
  recordLine (auditRecord blake2b512 sink.prevHash sink.seq now event)

theorem singleLine_torn {sink : DurableAuditSink}
    (hp : p <+: nextLine blake2b512 sink now event) : SingleLine p := by
  have hline : SingleLine (nextLine blake2b512 sink now event) :=
    (singleLine_payload _ _ _).tab (framed_chainHash _ _).singleLine
  exact ⟨fun hm => hline.1 (hp.subset hm), fun hm => hline.2 (hp.subset hm)⟩

theorem tip_torn : tip ((sinkBehind blake2b512 entries).text ++ p) =
    (lines p).foldl tipStep (tip (sinkBehind blake2b512 entries).text) := by
  unfold tip
  rw [lines_sinkBehind, lines_sinkBehind_text, List.foldl_append]

-- a torn line with a tab in it is taken for a record
theorem tip_torn_of_tab (hlength : entries.length ≤ 2 ^ 64 - 1)
    (hp : p <+: nextLine blake2b512 (sinkBehind blake2b512 entries) now event) (htab : '\t' ∈ p) :
    (tip ((sinkBehind blake2b512 entries).text ++ p)).2 = entries.length + 1 := by
  obtain ⟨first, rest, rfl, hfirst⟩ := List.eq_append_cons_of_mem htab
  -- the number is written out in full
  have hnumber : first = showNat entries.length := by
    obtain ⟨after, hafter⟩ := hp
    rw [nextLine, recordLine_eq, List.append_assoc, List.cons_append] at hafter
    have hcut := congrArg (splitOnce '\t') hafter
    rw [splitOnce_append_cons hfirst,
      splitOnce_append_cons fun hm => (framed_showNat _ _ hm).1 rfl, Option.some.injEq,
      Prod.mk.injEq] at hcut
    exact hcut.1
  subst hnumber
  rw [tip_torn, lines_eq_singleton (singleLine_torn hp).1 (by simp)]
  obtain ⟨⟨payload, hash⟩, hsplit⟩ :=
    Option.ne_none_iff_exists'.mp (mt rsplitOnce_eq_none_iff.mp (not_not.mpr htab))
  exact congrArg Prod.snd (tipStep_numbered hlength hsplit)

theorem tip_torn_of_no_tab (hnl : '\n' ∉ p) (htab : '\t' ∉ p) :
    tip ((sinkBehind blake2b512 entries).text ++ p) = tip (sinkBehind blake2b512 entries).text := by
  rw [tip_torn]
  by_cases hne : p = []
  · rw [hne]
    rfl
  · rw [lines_eq_singleton hnl hne, List.foldl_cons, List.foldl_nil, tipStep,
      rsplitOnce_eq_none_iff.mpr htab]

-- what appends write, from any sink on
theorem text_of_appends {sink later : DurableAuditSink}
    (h : sink.runs blake2b512 (more.map fun e => .append e.1 e.2) = some later) :
    later.text = sink.text ++ fileText (recordsFrom blake2b512 sink.prevHash sink.seq more) := by
  induction more generalizing sink with
  | nil =>
    cases h
    exact (List.append_nil _).symm
  | cons entry more ih =>
    unfold DurableAuditSink.runs at h ih
    rw [List.map_cons, List.foldlM_cons, Option.bind_eq_bind, Option.bind_eq_some_iff] at h
    obtain ⟨next, hnext, hrest⟩ := h
    change sink.append blake2b512 entry.1 entry.2 = some next at hnext
    unfold DurableAuditSink.append at hnext
    dsimp only at hnext
    split at hnext
    · cases hnext
      rw [ih hrest]
      simp [fileText, recordsFrom]
    · cases hnext

-- a record that continues a torn line was hashed without it
theorem verifyLines_glued (hinj : Function.Injective blake2b512) (hne : p ≠ []) (prev payload : Str)
    (n : Nat) (rest : List Str) :
    verifyLines blake2b512 prev n
      (recordLine (p ++ payload, chainHash blake2b512 prev payload) :: rest) = .brokenAt n := by
  have hdiffer : chainHash blake2b512 prev (p ++ payload) ≠ chainHash blake2b512 prev payload := by
    intro hsame
    have hbytes := List.append_cancel_left (hinj (hexBytes_injective hsame))
    exact hne (List.append_left_eq_self.mp (encodeUtf8_injective (List.cons.inj hbytes).2))
  rw [verifyLines, rsplitOnce_recordLine (framed_chainHash _ _)]
  dsimp only
  rw [if_pos hdiffer]

theorem verify_glued (hinj : Function.Injective blake2b512) (hp : SingleLine p) (hne : p ≠ [])
    (entry : SystemTime × AuditEvent) :
    DurableAuditSink.verify blake2b512 (some ((sinkBehind blake2b512 entries).text ++ p ++
      fileText (recordsFrom blake2b512 (sinkBehind blake2b512 entries).prevHash entries.length
        (entry :: more)))) = .brokenAt entries.length := by
  rw [recordsFrom]
  set record := auditRecord blake2b512 (sinkBehind blake2b512 entries).prevHash entries.length
    entry.1 entry.2
  set rest := recordsFrom blake2b512 record.2 (entries.length + 1) more
  have htext : p ++ fileText (record :: rest) =
      fileText ((p ++ record.1, record.2) :: rest) ++ [] := by
    simp [fileText, recordLine]
  have hlines : OnLines ((p ++ record.1, record.2) :: rest) := by
    intro r hr
    rcases List.mem_cons.mp hr with rfl | hr
    · exact (hp.append (singleLine_payload _ _ _)).tab (framed_chainHash _ _).singleLine
    · exact onLines_recordsFrom r hr
  rw [List.append_assoc, htext, DurableAuditSink.verify, lines_sinkBehind, lines_fileText hlines,
    verifyLines_linked linked_recordsFrom, length_recordsFrom, Nat.zero_add]
  exact verifyLines_glued hinj hne _ _ _ _

-- a torn line that leaves the tip alone is continued by the next record
theorem verify_torn_appended (hinj : Function.Injective blake2b512)
    (hshort : entries.length ≤ 2 ^ 64 - 1) (hp : SingleLine p) (hne : p ≠ [])
    (htip : tip ((sinkBehind blake2b512 entries).text ++ p) =
      tip (sinkBehind blake2b512 entries).text) {entry : SystemTime × AuditEvent}
    {later : DurableAuditSink}
    (h : (DurableAuditSink.open (some ((sinkBehind blake2b512 entries).text ++ p))).runs blake2b512
      ((entry :: more).map fun e => .append e.1 e.2) = some later) :
    DurableAuditSink.verify blake2b512 (some later.text) = .brokenAt entries.length := by
  have htext := text_of_appends h
  have hopen : DurableAuditSink.open (some ((sinkBehind blake2b512 entries).text ++ p)) =
      ⟨(sinkBehind blake2b512 entries).text ++ p, (sinkBehind blake2b512 entries).prevHash,
        entries.length⟩ := by
    unfold DurableAuditSink.open
    dsimp only
    rw [htip, tip_sinkBehind (by omega)]
  rw [hopen] at htext
  rw [htext]
  exact verify_glued hinj hp hne entry

-- where nothing was torn, the appends behind a restart are like any others
theorem verify_restarted {steps : List SinkStep} {later : DurableAuditSink}
    (hshort : (steps.filterMap SinkStep.entry?).length ≤ 2 ^ 64 - 1)
    (hrun : (DurableAuditSink.open none).runs blake2b512 steps =
      some (sinkBehind blake2b512 (steps.filterMap SinkStep.entry?)))
    (h : (DurableAuditSink.open (some (sinkBehind blake2b512
        (steps.filterMap SinkStep.entry?)).text)).runs blake2b512
      (more.map fun e => .append e.1 e.2) = some later) :
    DurableAuditSink.verify blake2b512 (some later.text) =
      .valid ((steps.filterMap SinkStep.entry?).length + more.length) := by
  rw [open_sinkBehind (by omega)] at h
  have hwhole : (DurableAuditSink.open none).runs blake2b512
      (steps ++ more.map fun e => .append e.1 e.2) = some later := by
    unfold DurableAuditSink.runs at hrun h ⊢
    rw [List.foldlM_append, hrun]
    exact h
  obtain ⟨rfl, -⟩ := runs_eq hwhole
  have happended : (steps ++ more.map fun e => SinkStep.append e.1 e.2).filterMap
      SinkStep.entry? = steps.filterMap SinkStep.entry? ++ more := by
    rw [List.filterMap_append, List.filterMap_map]
    exact congrArg (_ ++ ·) List.filterMap_some
  rw [happended, verify_sinkBehind, List.length_append]

-- the records before a torn line verify
theorem length_le_of_torn_brokenAt {line : Nat}
    (h : DurableAuditSink.verify blake2b512 (some ((sinkBehind blake2b512 entries).text ++ p)) =
      .brokenAt line) : entries.length ≤ line := by
  rw [DurableAuditSink.verify, lines_sinkBehind, verifyLines_linked linked_recordsFrom] at h
  have hle := le_of_brokenAt h
  rw [length_recordsFrom, Nat.zero_add] at hle
  exact hle

/-- A write that is cut off leaves the tip and everything appended later in order only where nothing
of it reached the file, or nothing is appended and it broke off before the first tab. -/
theorem torn_write_survived_iff (hinj : Function.Injective blake2b512) {steps : List SinkStep}
    {sink later : DurableAuditSink}
    (hrun : (DurableAuditSink.open none).runs blake2b512 steps = some sink)
    (hp : p <+: nextLine blake2b512 sink now event)
    (hmore : (DurableAuditSink.open (some (sink.text ++ p))).runs blake2b512
      (more.map fun e => .append e.1 e.2) = some later) :
    (tip (sink.text ++ p) = tip sink.text ∧
      (∀ line, DurableAuditSink.verify blake2b512 (some later.text) = .brokenAt line →
        (steps.filterMap SinkStep.entry?).length ≤ line) ∧
      (more = [] ∨ DurableAuditSink.verify blake2b512 (some later.text) =
        .valid ((steps.filterMap SinkStep.entry?).length + more.length))) ↔
      p = [] ∨ (more = [] ∧ '\t' ∉ p) := by
  obtain ⟨rfl, hlength⟩ := runs_eq hrun
  have hshort : (steps.filterMap SinkStep.entry?).length ≤ 2 ^ 64 - 1 := by
    unfold maxFileLen at hlength
    omega
  constructor
  · rintro ⟨htip, -, hall⟩
    by_cases hne : p = []
    · exact .inl hne
    have htab : '\t' ∉ p := by
      intro htab
      have hseq := tip_torn_of_tab hshort hp htab
      rw [htip, tip_sinkBehind (by omega)] at hseq
      exact absurd hseq (by simp)
    cases more with
    | nil => exact .inr ⟨rfl, htab⟩
    | cons entry more =>
      rw [verify_torn_appended hinj hshort (singleLine_torn hp) hne htip hmore] at hall
      rcases hall with hall | hall
      · cases hall
      · cases hall
  · rintro (rfl | ⟨rfl, htab⟩)
    · rw [List.append_nil] at hmore ⊢
      have hvalid := verify_restarted hshort hrun hmore
      rw [hvalid]
      refine ⟨rfl, ?_, .inr rfl⟩
      intro line h
      cases h
    · cases hmore
      exact ⟨tip_torn_of_no_tab (singleLine_torn hp).1 htab,
        fun _ hbroken => length_le_of_torn_brokenAt hbroken, .inl rfl⟩

end

-- one record, and the first character of the next
theorem torn_write_survived_iff_number :
    ∃ sink, (DurableAuditSink.open none).runs (1 :: ·) [.append .unixEpoch .firewallPaused] =
        some sink ∧
      tip (sink.text ++ "1".toList) = tip sink.text := by
  obtain ⟨sink, hsink⟩ := Option.isSome_iff_exists.mp ((runs_isSome_iff (1 :: ·)
    [.append .unixEpoch .firewallPaused]).mpr (by decide +kernel))
  have hp : "1".toList <+: nextLine (1 :: ·) sink .unixEpoch .firewallResumed := by
    obtain ⟨rfl, -⟩ := runs_eq hsink
    decide +kernel
  have hmore : (DurableAuditSink.open (some (sink.text ++ "1".toList))).runs (1 :: ·)
      (([] : List (SystemTime × AuditEvent)).map fun e => .append e.1 e.2) = some _ := rfl
  exact ⟨sink, hsink, ((torn_write_survived_iff List.cons_injective hsink hp hmore).mpr
    (.inr ⟨rfl, by decide⟩)).1⟩

/-- The first record of a file breaks off behind its first tab: it is counted as a record, and the
one that is appended next stands on its line and does not verify. -/
theorem torn_write_poisons_tip :
    "0\t".toList <+: nextLine (1 :: ·) (DurableAuditSink.open none) .unixEpoch .firewallPaused ∧
      tip "0\t".toList = ([], 1) ∧ tip [] = ([], 0) ∧
      ((DurableAuditSink.open (some "0\t".toList)).append (1 :: ·) .unixEpoch
          .firewallResumed).map (fun later => DurableAuditSink.verify (1 :: ·) (some later.text)) =
        some (.brokenAt 0) := by
  exact ⟨by decide +kernel, by decide +kernel, rfl, by decide +kernel⟩

end Snail.Security
