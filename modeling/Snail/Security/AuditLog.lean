import Snail.Reasoning.Recent
import Snail.Security.AuditEdits

/-!
# AuditLog — the audit log whose disk fails

`AuditLog` of `audit_logger.rs`: the ring of the last events, and the file behind it.  An append may
fail when a part of the line is written, or when all of it is and not yet synced.  What is written
stays in the file, and the handle goes on from the record in front of it.
-/

open Snail.Reasoning

namespace Snail.Security

variable {blake2b512 : Bytes → Bytes}

/-! ## 1. The log -/

/-- How the writing of a line ends: it is synced, or it breaks off behind so many characters and
before the newline, or it is written and `flush` or `sync_data` fails.  A write that breaks off
inside a character, which leaves a file that is no text, is not modelled. -/
inductive WriteOutcome where
  | synced
  | torn (written : Nat)
  | unsynced
  deriving DecidableEq, Repr

/-- `DurableAuditSink::append`; `false` is an error, and `prev_hash` and `seq` stay as they were.
There is no result where the file has no room for what is written. -/
def DurableAuditSink.appendWith (blake2b512 : Bytes → Bytes) (sink : DurableAuditSink)
    (now : SystemTime) (event : AuditEvent) : WriteOutcome → Option (Bool × DurableAuditSink)
  | .synced => (sink.append blake2b512 now event).map fun after => (true, after)
  | .torn written =>
      let text := sink.text ++ (nextLine blake2b512 sink now event).take written
      if text.length ≤ maxFileLen then some (false, { sink with text }) else none
  | .unsynced => (sink.append blake2b512 now event).map fun after =>
      (false, { sink with text := after.text })

structure AuditLog where
  recent : Recent AuditEvent
  sink : Option DurableAuditSink

/-- `AuditLog::new`; the sink is missing where none is configured or it could not be opened. -/
def AuditLog.new (capacity : Nat) (sink : Option DurableAuditSink) : AuditLog :=
  ⟨.new capacity, sink⟩

/-- `AuditLog::record`: an error of the sink is only reported. -/
def AuditLog.record (blake2b512 : Bytes → Bytes) (log : AuditLog) (now : SystemTime)
    (event : AuditEvent) (outcome : WriteOutcome) : Option AuditLog :=
  match log.sink with
  | none => some ⟨log.recent.push event, none⟩
  | some sink => (sink.appendWith blake2b512 now event outcome).map fun appended =>
      ⟨log.recent.push event, some appended.2⟩

inductive LogStep where
  | record (now : SystemTime) (event : AuditEvent) (outcome : WriteOutcome)
  | restart
  deriving DecidableEq

-- a restart opens the file that the last handle has left
def LogStep.run (blake2b512 : Bytes → Bytes) (capacity : Nat) (log : AuditLog) :
    LogStep → Option AuditLog
  | .record now event outcome => log.record blake2b512 now event outcome
  | .restart => some (.new capacity (log.sink.map fun sink => .open (some sink.text)))

def LogStep.event? : LogStep → Option AuditEvent
  | .record _ event _ => some event
  | .restart => none

def AuditLog.runs (blake2b512 : Bytes → Bytes) (capacity : Nat) (log : AuditLog)
    (steps : List LogStep) : Option AuditLog :=
  steps.foldlM (LogStep.run blake2b512 capacity) log

/-! ## 2. What the file is worth -/

/-- The file as `verify` will find it: with so many records, the last of which the handle may not
know of, with an unfinished line behind them, or broken. -/
inductive ChainState where
  | sound (records : Nat)
  | ahead (records : Nat)
  | torn (records : Nat)
  | broken (line : Nat)
  deriving DecidableEq, Repr

/-- What `verify` may say.  An unfinished line breaks the chain, unless it reads as a record: when
only its newline is missing, it does. -/
def ChainState.statuses : ChainState → List ChainStatus
  | .sound records | .ahead records => [.valid records]
  | .torn records => [.brokenAt records, .valid (records + 1)]
  | .broken line => [.brokenAt line]

def ChainState.write (outcome : WriteOutcome) (state : ChainState) : ChainState :=
  match outcome, state with
  | .torn 0, _ | _, .broken _ => state
  | .torn _, .sound records | .torn _, .ahead records | .torn _, .torn records => .torn records
  | .synced, .sound records => .sound (records + 1)
  | .unsynced, .sound records => .ahead (records + 1)
  -- a second line that is chained to the same record, or a line behind the unfinished one
  | _, .ahead records | _, .torn records => .broken records

def ChainState.reopen : ChainState → ChainState
  | .ahead records => .sound records
  | state => state

def ChainState.step (state : ChainState) : LogStep → ChainState
  | .record _ _ outcome => state.write outcome
  | .restart => state.reopen

/-- How a sink stands to the state of its file. -/
inductive Follows (blake2b512 : Bytes → Bytes) : DurableAuditSink → ChainState → Prop where
  | sound (entries : List (SystemTime × AuditEvent)) (hfits : entries.length ≤ maxFileLen) :
      Follows blake2b512 (sinkBehind blake2b512 entries) (.sound entries.length)
  | ahead (entries : List (SystemTime × AuditEvent)) (last : SystemTime × AuditEvent)
      (hfits : (entries ++ [last]).length ≤ maxFileLen) :
      Follows blake2b512
        { sinkBehind blake2b512 entries with
          text := (sinkBehind blake2b512 (entries ++ [last])).text }
        (.ahead (entries ++ [last]).length)
  | torn (entries : List (SystemTime × AuditEvent)) (hfits : entries.length ≤ maxFileLen)
      {p prev : Str} (hp : SingleLine p) (hne : p ≠ []) (hprev : '\n' ∉ prev) (seq : Nat) :
      Follows blake2b512 ⟨(sinkBehind blake2b512 entries).text ++ p, prev, seq⟩
        (.torn entries.length)
  | broken (sink : DurableAuditSink) (line : Nat)
      (hbroken : ∀ more,
        DurableAuditSink.verify blake2b512 (some (sink.text ++ more)) = .brokenAt line) :
      Follows blake2b512 sink (.broken line)

section
variable {sink after : DurableAuditSink} {state : ChainState}
  {entries : List (SystemTime × AuditEvent)} {now : SystemTime} {event : AuditEvent}

-- `verify` on what stands behind the records
theorem verify_behind (rest : Str) :
    DurableAuditSink.verify blake2b512 (some ((sinkBehind blake2b512 entries).text ++ rest)) =
      verifyLines blake2b512 (sinkBehind blake2b512 entries).prevHash entries.length
        (lines rest) := by
  rw [DurableAuditSink.verify, lines_sinkBehind, verifyLines_linked linked_recordsFrom,
    length_recordsFrom, Nat.zero_add]
  rfl

theorem Follows.verify_mem (h : Follows blake2b512 sink state) :
    DurableAuditSink.verify blake2b512 (some sink.text) ∈ state.statuses := by
  cases h with
  | sound entries hfits => exact List.mem_singleton.mpr verify_sinkBehind
  | ahead entries last hfits => exact List.mem_singleton.mpr verify_sinkBehind
  | torn entries hfits hp hne hprev seq =>
    rw [verify_behind, lines_eq_singleton hp.1 hne, verifyLines]
    split
    · exact List.mem_cons_self
    · split
      · exact List.mem_cons_self
      · exact List.mem_cons_of_mem _ List.mem_cons_self
  | broken _ line hbroken =>
    have hself := hbroken []
    rw [List.append_nil] at hself
    exact List.mem_singleton.mpr hself

theorem newline_not_mem_prevHash : '\n' ∉ (sinkBehind blake2b512 entries).prevHash := by
  have hlinked : Linked (chainHash blake2b512) [] (recordsFrom blake2b512 [] 0 entries) :=
    linked_recordsFrom
  change '\n' ∉ chainTip [] _
  rcases hlinked.isTip with h | ⟨prev, payload, h⟩
  · rw [h]
    exact List.not_mem_nil
  · rw [← h]
    exact (framed_chainHash prev payload).singleLine.1

-- the tip behind an unfinished line may be a piece of it
theorem newline_not_mem_tip (hfits : entries.length ≤ maxFileLen) {p : Str} (hp : SingleLine p)
    (hne : p ≠ []) : '\n' ∉ (tip ((sinkBehind blake2b512 entries).text ++ p)).1 := by
  rw [tip_torn, lines_eq_singleton hp.1 hne, tip_sinkBehind (hfits.trans (by decide)),
    List.foldl_cons, List.foldl_nil, tipStep]
  split
  · exact newline_not_mem_prevHash
  · rename_i payload hash hsplit
    have hhash : '\n' ∉ hash := by
      intro hm
      rw [(rsplitOnce_eq_some_iff.mp hsplit).1] at hp
      exact hp.1 (by simp [hm])
    split <;> exact hhash

theorem Follows.reopen (h : Follows blake2b512 sink state) :
    Follows blake2b512 (.open (some sink.text)) state.reopen := by
  cases h with
  | sound entries hfits =>
    rw [open_sinkBehind (hfits.trans (by decide))]
    exact .sound entries hfits
  | ahead entries last hfits =>
    change Follows _ (DurableAuditSink.open (some (sinkBehind blake2b512 (entries ++ [last])).text))
      (.sound (entries ++ [last]).length)
    rw [open_sinkBehind (hfits.trans (by decide))]
    exact .sound _ hfits
  | torn entries hfits hp hne hprev seq =>
    exact .torn entries hfits hp hne (newline_not_mem_tip hfits hp hne) _
  | broken _ line hbroken => exact .broken _ line hbroken

-- the line an append writes
theorem text_append (h : sink.append blake2b512 now event = some after) :
    after.text = sink.text ++ (nextLine blake2b512 sink now event ++ ['\n']) := by
  unfold DurableAuditSink.append at h
  dsimp only at h
  split at h
  · cases h
    rfl
  · cases h

/-! ## 3. Lines that do not follow -/

/-- A line written behind the records and a part of a line, by a handle whose hash is not that of
what the line then shows. -/
theorem unchained_append {p last : Str} {number : Nat} (hp : SingleLine p)
    (hne : ∀ payload, chainHash blake2b512 (sinkBehind blake2b512 entries).prevHash (p ++ payload) ≠
      chainHash blake2b512 last payload)
    (happend : DurableAuditSink.append blake2b512
      ⟨(sinkBehind blake2b512 entries).text ++ p, last, number⟩ now event = some after)
    (prev : Str) (seq : Nat) :
    Follows blake2b512 ⟨after.text, prev, seq⟩ (.broken entries.length) := by
  obtain ⟨hash, hhash⟩ : ∃ hash, chainHash blake2b512 last (auditPayload number now event) = hash :=
    ⟨_, rfl⟩
  have hframed : Framed hash := hhash ▸ framed_chainHash _ _
  have hline : SingleLine (recordLine (p ++ auditPayload number now event, hash)) :=
    (hp.append (singleLine_payload number now event)).tab hframed.singleLine
  have htext : ∀ more, after.text ++ more = (sinkBehind blake2b512 entries).text ++
      (recordLine (p ++ auditPayload number now event, hash) ++ '\n' :: more) := by
    intro more
    rw [text_append happend, ← hhash]
    simp [nextLine, recordLine, auditRecord]
  refine .broken _ _ fun more => ?_
  dsimp only
  rw [htext, verify_behind, lines_append_newline hline.1 fun hlast =>
    hline.2 (List.mem_of_getLast? hlast), verifyLines, rsplitOnce_recordLine hframed]
  dsimp only
  rw [if_pos (hhash ▸ hne _)]

-- the handle that its file is ahead of is chained to an earlier hash
theorem unchained_ahead (hbind : Binding (chainHash blake2b512) []) (last : SystemTime × AuditEvent)
    (payload : Str) :
    chainHash blake2b512 (sinkBehind blake2b512 (entries ++ [last])).prevHash payload ≠
      chainHash blake2b512 (sinkBehind blake2b512 entries).prevHash payload := by
  have hlinked : Linked (chainHash blake2b512) []
      (recordsFrom blake2b512 [] 0 (entries ++ [last])) := linked_recordsFrom
  have hfront : Linked (chainHash blake2b512) [] (recordsFrom blake2b512 [] 0 entries) :=
    linked_recordsFrom
  intro hhash
  have htip := (hbind.inj hlinked.isTip hfront.isTip hhash).1
  rw [recordsFrom_append] at hlinked htip
  exact absurd (hbind.eq_nil_of_chainTip hlinked htip) (by simp [recordsFrom])

theorem sound_append (happend : (sinkBehind blake2b512 entries).append blake2b512 now event =
      some after) :
    after = sinkBehind blake2b512 (entries ++ [(now, event)]) ∧
      (entries ++ [(now, event)]).length ≤ maxFileLen := by
  rw [append_sinkBehind] at happend
  split at happend
  · rename_i hfits
    cases happend
    exact ⟨rfl, (length_le_sinkBehind _ _).trans hfits⟩
  · cases happend

/-- A line that is written, and what the handle then knows of it. -/
theorem Follows.append (hinj : Function.Injective blake2b512) (hne : ∀ x, blake2b512 x ≠ [])
    (h : Follows blake2b512 sink state)
    (happend : sink.append blake2b512 now event = some after) :
    Follows blake2b512 after (state.write .synced) ∧
      Follows blake2b512 { sink with text := after.text } (state.write .unsynced) := by
  cases h with
  | sound entries hfits =>
    obtain ⟨rfl, hfits'⟩ := sound_append happend
    have hsynced : Follows blake2b512 _ _ := .sound (entries ++ [(now, event)]) hfits'
    have hunsynced : Follows blake2b512 _ _ := .ahead entries (now, event) hfits'
    rw [List.length_append, List.length_singleton] at hsynced hunsynced
    exact ⟨hsynced, hunsynced⟩
  | ahead entries last hfits =>
    rw [← List.append_nil (sinkBehind blake2b512 (entries ++ [last])).text] at happend
    have hbroken := unchained_append (by simp [SingleLine])
      (unchained_ahead (binding_chainHash hinj hne) last) happend
    exact ⟨hbroken _ _, hbroken _ _⟩
  | torn entries hfits hp hp' hprev seq =>
    have hbroken := unchained_append hp ?_ happend
    exact ⟨hbroken _ _, hbroken _ _⟩
    -- the hash is that of the line without its beginning
    intro payload hhash
    have hsame := (chainHash_inj hinj newline_not_mem_prevHash hprev hhash).2
    exact hp' (List.append_left_eq_self.mp hsame)
  | broken _ line hbroken =>
    have hlater : ∀ more, DurableAuditSink.verify blake2b512 (some (after.text ++ more)) =
        .brokenAt line := by
      intro more
      rw [text_append happend, List.append_assoc]
      exact hbroken _
    exact ⟨.broken _ line hlater, .broken _ line hlater⟩

/-- A part of a line. -/
theorem Follows.tear (h : Follows blake2b512 sink state) (written : Nat) :
    Follows blake2b512
      { sink with text := sink.text ++ (nextLine blake2b512 sink now event).take written }
      (state.write (.torn written)) := by
  cases written with
  | zero =>
    rw [List.take_zero, List.append_nil]
    cases state <;> exact h
  | succ k =>
    have hp : SingleLine ((nextLine blake2b512 sink now event).take (k + 1)) :=
      singleLine_torn (List.take_prefix _ _)
    have hne : (nextLine blake2b512 sink now event).take (k + 1) ≠ [] := by
      simp [nextLine, recordLine]
    cases h with
    | sound entries hfits => exact .torn entries hfits hp hne newline_not_mem_prevHash _
    | ahead entries last hfits => exact .torn _ hfits hp hne newline_not_mem_prevHash _
    | torn entries hfits hp' hne' hprev seq =>
      dsimp only
      rw [List.append_assoc]
      exact .torn entries hfits (hp'.append hp) (by simp [hne']) hprev seq
    | broken _ line hbroken =>
      refine .broken _ line fun more => ?_
      rw [List.append_assoc]
      exact hbroken _

theorem Follows.write (hinj : Function.Injective blake2b512) (hne : ∀ x, blake2b512 x ≠ [])
    {outcome : WriteOutcome} {appended : Bool × DurableAuditSink}
    (h : Follows blake2b512 sink state)
    (happended : sink.appendWith blake2b512 now event outcome = some appended) :
    Follows blake2b512 appended.2 (state.write outcome) := by
  cases outcome with
  | torn written =>
    rw [DurableAuditSink.appendWith] at happended
    split at happended
    · cases happended
      exact h.tear written
    · cases happended
  | synced =>
    obtain ⟨after, hafter, rfl⟩ := Option.map_eq_some_iff.mp happended
    exact (h.append hinj hne hafter).1
  | unsynced =>
    obtain ⟨after, hafter, rfl⟩ := Option.map_eq_some_iff.mp happended
    exact (h.append hinj hne hafter).2

end

/-! ## 4. Runs -/

-- the events recorded since the log was last opened
def sinceRestart (steps : List LogStep) : List AuditEvent :=
  steps.foldl (fun events step => step.event?.elim [] fun event => events ++ [event]) []

theorem sinceRestart_record (steps : List LogStep) (now : SystemTime) (event : AuditEvent)
    (outcome : WriteOutcome) :
    sinceRestart (steps ++ [.record now event outcome]) = sinceRestart steps ++ [event] := by
  rw [sinceRestart, List.foldl_append]
  rfl

structure AuditLog.Agrees (blake2b512 : Bytes → Bytes) (capacity : Nat) (steps : List LogStep)
    (log : AuditLog) : Prop where
  sink : ∃ sink, log.sink = some sink ∧
    Follows blake2b512 sink (steps.foldl ChainState.step (.sound 0))
  recent : log.recent = (Recent.new capacity).pushAll (sinceRestart steps)

theorem AuditLog.Agrees.step (hinj : Function.Injective blake2b512)
    (hne : ∀ x, blake2b512 x ≠ []) {capacity : Nat}
    {steps : List LogStep} {log after : AuditLog} (h : log.Agrees blake2b512 capacity steps)
    {step : LogStep} (hstep : step.run blake2b512 capacity log = some after) :
    after.Agrees blake2b512 capacity (steps ++ [step]) := by
  obtain ⟨⟨sink, hsink, htracks⟩, hrecent⟩ := h
  cases step with
  | restart =>
    cases hstep
    refine ⟨⟨.open (some sink.text), by rw [hsink]; rfl, ?_⟩, ?_⟩
    · rw [List.foldl_append]
      exact htracks.reopen
    · rw [sinceRestart, List.foldl_append]
      rfl
  | record now event outcome =>
    change log.record blake2b512 now event outcome = some after at hstep
    rw [AuditLog.record, hsink] at hstep
    obtain ⟨appended, happended, rfl⟩ := Option.map_eq_some_iff.mp hstep
    refine ⟨⟨appended.2, rfl, ?_⟩, ?_⟩
    · rw [List.foldl_append]
      exact htracks.write hinj hne happended
    · change log.recent.push event = _
      rw [hrecent, sinceRestart_record, Recent.pushAll, Recent.pushAll, List.foldl_append]
      rfl

theorem AuditLog.agrees_runs (hinj : Function.Injective blake2b512)
    (hne : ∀ x, blake2b512 x ≠ []) {capacity : Nat}
    {steps : List LogStep} {log : AuditLog}
    (hrun : (AuditLog.new capacity (some (.open none))).runs blake2b512 capacity steps =
      some log) : log.Agrees blake2b512 capacity steps := by
  induction steps using List.reverseRecOn generalizing log with
  | nil =>
    cases hrun
    exact ⟨⟨_, rfl, .sound [] (Nat.zero_le _)⟩, rfl⟩
  | append_singleton steps step ih =>
    rw [AuditLog.runs, List.foldlM_append, Option.bind_eq_bind, Option.bind_eq_some_iff] at hrun
    obtain ⟨before, hbefore, hstep⟩ := hrun
    rw [List.foldlM_cons, Option.bind_eq_bind, Option.bind_eq_some_iff] at hstep
    obtain ⟨after, hafter, hlog⟩ := hstep
    cases hlog
    exact (ih hbefore).step hinj hne hafter

/-- Behind every run, `verify` finds the lines that were written, until one is written behind an
unfinished line or by a handle that a failed sync has left behind its file: there the file is
broken for good.  The events in memory are the last ones, whatever became of them on the disk. -/
theorem chain_status_after_failures (hinj : Function.Injective blake2b512)
    (hne : ∀ x, blake2b512 x ≠ []) {capacity : Nat} {steps : List LogStep} {log : AuditLog}
    (hrun : (AuditLog.new capacity (some (.open none))).runs blake2b512 capacity steps =
      some log) :
    (∃ sink, log.sink = some sink ∧ DurableAuditSink.verify blake2b512 (some sink.text) ∈
        (steps.foldl ChainState.step (.sound 0)).statuses) ∧
      log.recent.entries = (sinceRestart steps).rtake (max capacity 1) := by
  obtain ⟨⟨sink, hsink, htracks⟩, hrecent⟩ := AuditLog.agrees_runs hinj hne hrun
  refine ⟨⟨sink, hsink, htracks.verify_mem⟩, ?_⟩
  rw [hrecent, Recent.entries_pushAll]

-- one write breaks off behind its first tab, and the log that goes on is taken for a forged one
theorem chain_status_broken : ∃ log sink,
    (AuditLog.new 2 (some (.open none))).runs (fun x => 0 :: x) 2
      [.record .unixEpoch .firewallPaused (.torn 2), .record .unixEpoch .firewallResumed .synced] =
      some log ∧ log.sink = some sink ∧
    DurableAuditSink.verify (fun x => 0 :: x) (some sink.text) = .brokenAt 0 := by
  obtain ⟨log, hlog⟩ := Option.isSome_iff_exists.mp
    (show ((AuditLog.new 2 (some (.open none))).runs (fun x => 0 :: x) 2
      [.record .unixEpoch .firewallPaused (.torn 2),
        .record .unixEpoch .firewallResumed .synced]).isSome = true by decide +kernel)
  obtain ⟨⟨sink, hsink, hstatus⟩, -⟩ :=
    chain_status_after_failures List.cons_injective (fun _ => List.cons_ne_nil _ _) hlog
  exact ⟨log, sink, hlog, hsink, List.mem_singleton.mp hstatus⟩

end Snail.Security
