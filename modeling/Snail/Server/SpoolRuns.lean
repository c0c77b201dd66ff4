import Mathlib.Data.List.Induction
import Snail.Server.SpoolCrash

/-!
# SpoolRuns — what every run of the outbound queue keeps
-/

open Snail.Reasoning Snail.Mail

namespace Snail.Server

/-! ## 1. The ledger along a run -/

theorem runEvents_concat (events : List Event) (e : Event) :
    runEvents (events ++ [e]) = e.run (runEvents events) := by
  simp [runEvents]

theorem ledgerOf_concat (events : List Event) (e : Event) :
    ledgerOf (events ++ [e]) = (ledgerOf events).step e := by
  simp [ledgerOf]

theorem Ledger.step_other {l : Ledger} {e : Event} {id : Str} (he : e.enqueued ≠ some id)
    (hl : l id = none) : l.step e id = none := by
  rcases e with ⟨call, crash⟩
  cases call with
  | «open» => exact hl
  | dueNow now => exact hl
  | enqueue i message now =>
    have hne : id ≠ i := fun h => he (by rw [h]; rfl)
    simp [Ledger.step, Ledger.set, hne, hl]
  | defer i attempts next =>
    by_cases h : id = i
    · simp [Ledger.step, Ledger.set, ← h, hl]
    · simp [Ledger.step, Ledger.set, h, hl]
  | remove i =>
    by_cases h : id = i
    · simp [Ledger.step, Ledger.set, ← h, hl]
    · simp [Ledger.step, Ledger.set, h, hl]
  | bounce i =>
    by_cases h : id = i
    · simp [Ledger.step, Ledger.set, ← h, hl]
    · simp [Ledger.step, Ledger.set, h, hl]

theorem ledgerOf_of_not_enqueued {events : List Event} {id : Str}
    (h : id ∉ events.filterMap Event.enqueued) : ledgerOf events id = none := by
  induction events using List.reverseRecOn with
  | nil => rfl
  | append_singleton events e ih =>
    rw [ledgerOf_concat]
    rw [List.filterMap_append, List.mem_append, not_or] at h
    apply Ledger.step_other _ (ih h.1)
    intro he
    apply h.2
    simp [he]

theorem ValidRun.init {events : List Event} {e : Event} (h : ValidRun (events ++ [e])) :
    ValidRun events ∧ (∀ last ∈ events.getLast?, last.crash ≠ none → e.call = .open) ∧
      ∀ id ∈ e.enqueued, ledgerOf events id = none := by
  have hchain := List.isChain_append.mp h.recovers
  have hdistinct := h.distinct
  rw [List.filterMap_append] at hdistinct
  have hsplit := List.nodup_append.mp hdistinct
  refine ⟨⟨hchain.1, hsplit.1⟩, fun last hl => hchain.2.2 last hl e rfl, ?_⟩
  intro id hid
  apply ledgerOf_of_not_enqueued
  intro hmem
  exact hsplit.2.2 id hmem id (by simp [Option.mem_def.mp hid]) rfl

-- an entry stays; only its record and its two flags change
theorem Ledger.step_entry {l : Ledger} {e : Event} {id : Str} {r : LedgerEntry}
    (he : e.enqueued ≠ some id) (hl : l id = some r) :
    ∃ r', l.step e id = some r' ∧ r'.message = r.message ∧ r'.committed = r.committed ∧
      (r'.removing = true ↔ r.removing = true ∨ e.Removes id) ∧
      (r'.bouncing = true ↔ r.bouncing = true ∨ e.Bounces id) := by
  rcases e with ⟨call, crash⟩
  cases call with
  | «open» => exact ⟨r, hl, rfl, rfl, by simp [Event.Removes], by simp [Event.Bounces]⟩
  | dueNow now => exact ⟨r, hl, rfl, rfl, by simp [Event.Removes], by simp [Event.Bounces]⟩
  | enqueue i message now =>
    have hne : id ≠ i := fun h => he (by rw [h]; rfl)
    refine ⟨r, ?_, rfl, rfl, by simp [Event.Removes], by simp [Event.Bounces]⟩
    simp [Ledger.step, Ledger.set, hne, hl]
  | defer i attempts next =>
    by_cases h : id = i
    · refine ⟨r.deferred i attempts next (decide (Event.reached ⟨.defer i attempts next, crash⟩ 2)),
        ?_, ?_⟩
      · simp [Ledger.step, Ledger.set, ← h, hl]
      · unfold LedgerEntry.deferred
        split <;> simp [Event.Removes, Event.Bounces]
    · refine ⟨r, ?_, rfl, rfl, by simp [Event.Removes], by simp [Event.Bounces]⟩
      simp [Ledger.step, Ledger.set, h, hl]
  | remove i =>
    by_cases h : id = i
    · refine ⟨{ r with removing := r.removing || decide (Event.reached ⟨.remove i, crash⟩ 1) }, ?_,
        rfl, rfl, ?_, by simp [Event.Bounces]⟩
      · simp [Ledger.step, Ledger.set, ← h, hl]
      · simp [Event.Removes, h]
    · refine ⟨r, ?_, rfl, rfl, ?_, by simp [Event.Bounces]⟩
      · simp [Ledger.step, Ledger.set, h, hl]
      · simp [Event.Removes, Ne.symm h]
  | bounce i =>
    by_cases h : id = i
    · refine ⟨{ r with bouncing := r.bouncing || decide (Event.reached ⟨.bounce i, crash⟩ 1) }, ?_,
        rfl, rfl, by simp [Event.Removes], ?_⟩
      · simp [Ledger.step, Ledger.set, ← h, hl]
      · simp [Event.Bounces, h]
    · refine ⟨r, ?_, rfl, rfl, by simp [Event.Removes], ?_⟩
      · simp [Ledger.step, Ledger.set, h, hl]
      · simp [Event.Bounces, Ne.symm h]

/-- What the ledger says of an entry, in terms of the events since its `enqueue`. -/
theorem ledgerOf_enqueued {pre post : List Event} {id : Str} {message : Message}
    {now : SystemTime} {crash : Option Nat} (hpost : id ∉ post.filterMap Event.enqueued) :
    ∃ r, ledgerOf (pre ++ ⟨.enqueue id message now, crash⟩ :: post) id = some r ∧
      r.message = message.toBytes ∧
      (r.committed = true ↔ Event.reached ⟨.enqueue id message now, crash⟩ 4) ∧
      (r.removing = true ↔ ∃ e ∈ post, e.Removes id) ∧
      (r.bouncing = true ↔ ∃ e ∈ post, e.Bounces id) := by
  induction post using List.reverseRecOn with
  | nil =>
    rw [ledgerOf_concat]
    refine ⟨_, if_pos rfl, rfl, ?_, by simp, by simp⟩
    simp
  | append_singleton post e ih =>
    rw [List.filterMap_append, List.mem_append, not_or] at hpost
    rcases ih hpost.1 with ⟨r, hr, hmsg, hcom, hrem, hb⟩
    have he : e.enqueued ≠ some id := by
      intro hid
      apply hpost.2
      simp [hid]
    rcases Ledger.step_entry he hr with ⟨r', hr', hmsg', hcom', hrem', hb'⟩
    refine ⟨r', ?_, hmsg'.trans hmsg, by rw [hcom', hcom], ?_, ?_⟩
    · rw [← List.cons_append, ← List.append_assoc, ledgerOf_concat]
      exact hr'
    · rw [hrem', hrem]
      simp only [List.mem_append, List.mem_singleton, or_and_right, exists_or, exists_eq_left]
    · rw [hb', hb]
      simp only [List.mem_append, List.mem_singleton, or_and_right, exists_or, exists_eq_left]

-- an entry of the ledger was enqueued, and not again since
theorem exists_enqueue_of_ledgerOf {events : List Event} {id : Str} {r : LedgerEntry}
    (h : ledgerOf events id = some r) :
    ∃ pre message now crash post, events = pre ++ ⟨.enqueue id message now, crash⟩ :: post ∧
      id ∉ post.filterMap Event.enqueued := by
  induction events using List.reverseRecOn generalizing r with
  | nil => cases h
  | append_singleton events e ih =>
    rw [ledgerOf_concat] at h
    by_cases he : e.enqueued = some id
    · rcases e with ⟨call, crash⟩
      cases call with
      | enqueue i message now =>
        cases he
        exact ⟨events, message, now, crash, [], rfl, by simp⟩
      | _ => cases he
    · cases hl : ledgerOf events id with
      | none =>
        rw [Ledger.step_other he hl] at h
        cases h
      | some r0 =>
        rcases ih hl with ⟨pre, message, now, crash, post, rfl, hpost⟩
        refine ⟨pre, message, now, crash, post ++ [e], by simp, ?_⟩
        rw [List.filterMap_append, List.mem_append, not_or]
        refine ⟨hpost, ?_⟩
        intro hm
        rcases List.mem_filterMap.mp hm with ⟨e', he', hid⟩
        rw [List.mem_singleton.mp he'] at hid
        exact he hid

/-! ## 2. Directories and ledger -/

/-- In every run the directories keep to the ledger, and no bounce is under way unless the last call
has crashed. -/
theorem consistent_runEvents {events : List Event} (h : ValidRun events) :
    Consistent (ledgerOf events) (runEvents events) ∧
      ((∀ e ∈ events.getLast?, e.crash = none) → Quiet (runEvents events)) := by
  induction events using List.reverseRecOn with
  | nil =>
    refine ⟨?_, ?_⟩
    · intro id
      exact ⟨rfl, rfl, rfl, rfl⟩
    · intro _ id
      rfl
  | append_singleton events e ih =>
    rcases h.init with ⟨hinit, hopen, hfresh⟩
    have hih := ih hinit
    have hq : Quiet (runEvents events) ∨ e.call = .open := by
      by_cases hlast : ∀ last ∈ events.getLast?, last.crash = none
      · exact .inl (hih.2 hlast)
      · push Not at hlast
        rcases hlast with ⟨last, hmem, hcrash⟩
        exact .inr (hopen last hmem hcrash)
    rw [runEvents_concat, ledgerOf_concat]
    refine ⟨hih.1.event hq hfresh, fun hdone => ?_⟩
    exact Quiet.event hq (hdone e (by simp))

/-! ## 3. The guarantee -/

theorem parseCtrl_id {id text : Str} {entry : SpoolEntry} (h : parseCtrl id text = .ok entry) :
    entry.id = id := by
  unfold parseCtrl at h
  split at h
  · unfold CtrlFields.entry at h
    split at h
    · cases h
    split at h
    all_goals cases h
    rfl
  · cases h

theorem dueEntry_some {d : Disk} {now : SystemTime} {id : Str} {entry : SpoolEntry}
    (h : dueEntry d now id = .ok (some entry)) :
    (slots d id).marker = none ∧ (d.lookup (emlPath id)).isSome ∧ entry.id = id := by
  unfold dueEntry at h
  split at h
  · cases h
  rename_i hmarker
  split at h
  · cases h
  rename_i heml
  split at h
  · cases h
  split at h
  · rename_i text _ entry' hparse
    have hentry : entry' = entry := by
      split at h
      · cases h
        rfl
      · cases h
    rw [hentry] at hparse
    refine ⟨by simpa [slots] using hmarker, ?_, parseCtrl_id hparse⟩
    simpa [Option.isSome_iff_ne_none] using heml
  · cases h

-- enqueued once, an id is not enqueued again
theorem ValidRun.not_enqueued_again {pre post : List Event} {e : Event} {id : Str}
    (h : ValidRun (pre ++ e :: post)) (he : e.enqueued = some id) :
    id ∉ post.filterMap Event.enqueued := by
  have hdistinct := h.distinct
  rw [List.filterMap_append, List.filterMap_cons, he] at hdistinct
  have hsplit := (List.nodup_append.mp hdistinct).2.1
  exact (List.nodup_cons.mp hsplit).1

/-- The outbound queue survives crashes.  Take any run in which every crash is followed by `open`
and which does not end in a crash.  An entry whose `enqueue` returned and whose removal has not
begun lies in one of two places, without a marker: in the spool directory, with the bytes of its
message and the record last written for it, or, only if a bounce of it has begun, in `bounced/`.
What `due_now` lists has its message, was committed by its `enqueue` and has not begun to bounce. -/
theorem spool_survives_crashes (events : List Event) (hvalid : ValidRun events)
    (hdone : ∀ e ∈ events.getLast?, e.crash = none) :
    (∀ pre id message now post, events = pre ++ ⟨.enqueue id message now, none⟩ :: post →
      (∀ e ∈ post, ¬ e.Removes id) →
      ∃ record, (ledgerOf events id).map LedgerEntry.record = some record ∧
        (slots (runEvents events) id = ⟨some message.toBytes, some record, none, none, none⟩ ∨
        (∃ e ∈ post, e.Bounces id) ∧
          slots (runEvents events) id = ⟨none, none, none, some message.toBytes, some record⟩)) ∧
    (∀ now due entry, dueNow (runEvents events) now = .ok due → entry ∈ due →
      ((runEvents events).lookup (emlPath entry.id)).isSome ∧
      ∃ pre message at' crash post,
        events = pre ++ ⟨.enqueue entry.id message at', crash⟩ :: post ∧
        Event.reached ⟨.enqueue entry.id message at', crash⟩ 4 ∧
        ∀ e ∈ post, ¬ e.Bounces entry.id) := by
  rcases consistent_runEvents hvalid with ⟨hcons, hquiet⟩
  have hq := hquiet hdone
  apply And.intro
  · intro pre id message now post hevents hremoves
    have hpost : id ∉ post.filterMap Event.enqueued := by
      rw [hevents] at hvalid
      exact hvalid.not_enqueued_again rfl
    rcases ledgerOf_enqueued hpost with ⟨r, hr, hmsg, hcom, hrem, hb⟩
    rw [← hevents] at hr
    have hat := hcons id
    rw [hr] at hat
    have hcommitted : r.committed = true := hcom.mpr (by simp [Event.reached])
    have hremoving : r.removing = false := by
      cases hf : r.removing with
      | false => rfl
      | true =>
        rcases hrem.mp hf with ⟨e, he, hrm⟩
        exact absurd hrm (hremoves e he)
    refine ⟨r.record, by rw [hr]; rfl, ?_⟩
    have hmarker := hq id
    generalize slots (runEvents events) id = s at hat hmarker
    rcases s with ⟨eml, ctrl, marker, bouncedEml, bouncedCtrl⟩
    cases hf : r.bouncing with
    | false =>
      rcases Agrees.kept hat hcommitted hremoving hf with ⟨h1, h2, h3, h4⟩
      simp only at h1 h2 h3 h4 hmarker
      rw [h1, h2, h3, h4, hmarker, hmsg]
      exact .inl rfl
    | true =>
      rcases Agrees.moved hat hcommitted hremoving hf with ⟨heml, hctrl, hgone⟩
      rcases hgone hmarker with ⟨h1, h2⟩
      simp only at h1 h2 heml hctrl hmarker
      rw [h1] at heml
      rw [h2] at hctrl
      have h3 : bouncedEml = some message.toBytes := by simpa [hmsg] using heml
      have h4 : bouncedCtrl = some r.record := by simpa using hctrl
      rw [h1, h2, h3, h4, hmarker]
      exact .inr ⟨hb.mp hf, rfl⟩
  · intro now due entry hdue hmem
    rcases (mem_dueNow hdue).mp hmem with ⟨id, hctrl, hentry⟩
    rcases dueEntry_some hentry with ⟨hmarker, heml, rfl⟩
    refine ⟨heml, ?_⟩
    have hat := hcons entry.id
    cases hl : ledgerOf events entry.id with
    | none =>
      rw [hl] at hat
      have hnone : (runEvents events).lookup (ctrlPath entry.id) = none := hat.2.1
      rw [hnone] at hctrl
      cases hctrl
    | some r =>
      rw [hl] at hat
      have hne : (slots (runEvents events) entry.id).ctrl ≠ none :=
        Option.isSome_iff_ne_none.mp hctrl
      have hlisted := Agrees.listed hat hne
      rcases exists_enqueue_of_ledgerOf hl with ⟨pre, message, at', crash, post, hevents, hpost⟩
      rcases ledgerOf_enqueued hpost with ⟨r', hr', -, hcom, -, hb⟩
      rw [← hevents, hl] at hr'
      cases hr'
      refine ⟨pre, message, at', crash, post, hevents, hcom.mp hlisted.1, ?_⟩
      intro e he hbounce
      exact hlisted.2 (hb.mpr ⟨e, he, hbounce⟩) hmarker

def shortMessage : Message := ⟨⟨none, [⟨"b".toList, "y".toList⟩]⟩, ⟨[]⟩, ascii "hi", []⟩

-- a bounce that was cut off between its two moves, and the `open` that finishes it
def interruptedBounce : List Event :=
  [⟨.open, none⟩,
    ⟨.enqueue "1".toList shortMessage .unixEpoch, none⟩,
    ⟨.bounce "1".toList, some 2⟩, ⟨.open, none⟩]

theorem validRun_interruptedBounce : ValidRun interruptedBounce where
  recovers := by simp [interruptedBounce]
  distinct := by decide

theorem spool_survives_crashes_bounce :
    ∃ record, (ledgerOf interruptedBounce "1".toList).map LedgerEntry.record = some record ∧
      slots (runEvents interruptedBounce) "1".toList =
        ⟨none, none, none, some (ascii "hi"), some record⟩ := by
  have hmoved : (slots (runEvents interruptedBounce) "1".toList).eml = none := by decide +kernel
  rcases (spool_survives_crashes interruptedBounce validRun_interruptedBounce
    (by simp [interruptedBounce])).1 [⟨.open, none⟩] "1".toList shortMessage
    .unixEpoch [⟨.bounce "1".toList, some 2⟩, ⟨.open, none⟩] rfl
    (by simp [Event.Removes]) with ⟨record, hrecord, h | h⟩
  · rw [h] at hmoved
    cases hmoved
  · exact ⟨record, hrecord, h.2⟩

end Snail.Server
