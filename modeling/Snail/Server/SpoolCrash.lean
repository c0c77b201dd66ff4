import Mathlib.Data.List.Chain
import Snail.Server.Spool

/-!
# SpoolCrash — the outbound queue across crashes

A run is a sequence of calls, any of which may be cut off between two of its file system steps; the
next call is then `open`.  Beside it runs a ledger: what has been put into the queue, the record
last written for it, and whether a removal or a bounce of it has begun.  Whenever no crash is
pending the directories agree with the ledger.
-/

open Snail.Reasoning Snail.Mail

namespace Snail.Server

/-! ## 1. Runs -/

inductive Call where
  | «open»
  -- the id comes from `new_id`
  | enqueue (id : Str) (message : Message) (now : SystemTime)
  | defer (id : Str) (attempts : UInt32) (next : SystemTime)
  | remove (id : Str)
  | bounce (id : Str)
  | dueNow (now : SystemTime)

-- a call that fails before it writes takes no step
def Call.steps (d : Disk) : Call → List SpoolStep
  | .open => openSteps d
  | .enqueue id message now => enqueueSteps id message now
  | .defer id attempts next => (deferSteps d id attempts next).toOption.getD []
  | .remove id => removeSteps id
  | .bounce id => bounceSteps id
  | .dueNow _ => []

/-- A call that returned (`crash = none`), or one that was cut off after so many steps. -/
structure Event where
  call : Call
  crash : Option Nat

def Event.run (e : Event) (d : Disk) : Disk :=
  match e.crash with
  | none => runSteps (e.call.steps d) d
  | some k => runSteps ((e.call.steps d).take k) d

def runEvents (events : List Event) : Disk := events.foldl (fun d e => e.run d) ∅

-- at least `k` steps were taken
def Event.reached (e : Event) (k : Nat) : Prop := ∀ n ∈ e.crash, k ≤ n

instance (e : Event) (k : Nat) : Decidable (e.reached k) := by
  unfold Event.reached
  infer_instance

-- the first step of the call was taken
def Event.Removes (e : Event) (id : Str) : Prop := e.call = .remove id ∧ e.reached 1
def Event.Bounces (e : Event) (id : Str) : Prop := e.call = .bounce id ∧ e.reached 1

def Event.enqueued (e : Event) : Option Str :=
  match e.call with
  | .enqueue id _ _ => some id
  | _ => none

/-- After a crash comes `open`, and no id is generated twice. -/
structure ValidRun (events : List Event) : Prop where
  recovers : events.IsChain fun e e' => e.crash ≠ none → e'.call = .open
  distinct : (events.filterMap Event.enqueued).Nodup

/-! ## 2. The ledger -/

structure LedgerEntry where
  message : Bytes
  record : Bytes
  committed : Bool
  removing : Bool
  bouncing : Bool
  deriving DecidableEq

abbrev Ledger := Str → Option LedgerEntry

def Ledger.set (l : Ledger) (id : Str) (entry : Option LedgerEntry) : Ledger :=
  fun i => if i = id then entry else l i

-- what `defer` makes of a record; one that cannot be read stays
def deferRecord (id : Str) (attempts : UInt32) (next : SystemTime) (record : Bytes) : Bytes :=
  match (decodeUtf8 record).map (parseCtrl id) with
  | some (.ok entry) => encodeUtf8 (renderCtrl entry.envelope attempts next entry.createdAt)
  | _ => record

-- the record of a bounced entry is out of reach
def LedgerEntry.deferred (r : LedgerEntry) (id : Str) (attempts : UInt32) (next : SystemTime)
    (written : Bool) : LedgerEntry :=
  if written = true ∧ r.bouncing = false then
    { r with record := deferRecord id attempts next r.record }
  else r

def Ledger.step (l : Ledger) (e : Event) : Ledger :=
  match e.call with
  | .enqueue id message now =>
      l.set id (some
        { message := message.toBytes
          record := encodeUtf8 (renderCtrl message.envelope 0 now now)
          committed := decide (e.reached 4)
          removing := false
          bouncing := false })
  | .defer id attempts next =>
      l.set id ((l id).map fun r => r.deferred id attempts next (decide (e.reached 2)))
  | .remove id =>
      l.set id ((l id).map fun r => { r with removing := r.removing || decide (e.reached 1) })
  | .bounce id =>
      l.set id ((l id).map fun r => { r with bouncing := r.bouncing || decide (e.reached 1) })
  | .open | .dueNow _ => l

def ledgerOf (events : List Event) : Ledger := events.foldl Ledger.step fun _ => none

/-! ## 3. The files of one id -/

structure Slots where
  eml : Option Bytes
  ctrl : Option Bytes
  marker : Option Bytes
  bouncedEml : Option Bytes
  bouncedCtrl : Option Bytes

def slots (d : Disk) (id : Str) : Slots where
  eml := d.lookup (emlPath id)
  ctrl := d.lookup (ctrlPath id)
  marker := d.lookup (bouncingMarker id)
  bouncedEml := d.lookup (emlPath id).inBounced
  bouncedCtrl := d.lookup (ctrlPath id).inBounced

/-- What the files of an id in the ledger look like at any time, crashes included. -/
structure Agrees (r : LedgerEntry) (s : Slots) : Prop where
  marker : s.marker ≠ none → r.bouncing = true
  listed : s.ctrl ≠ none → r.committed = true ∧ (r.bouncing = true → s.marker ≠ none)
  kept : r.committed = true → r.removing = false → r.bouncing = false →
    s.eml = some r.message ∧ s.ctrl = some r.record ∧ s.bouncedEml = none ∧ s.bouncedCtrl = none
  -- each file is in one of the two places, and without the marker both have been moved
  moved : r.committed = true → r.removing = false → r.bouncing = true →
    (s.eml = some r.message ∧ s.bouncedEml = none ∨ s.eml = none ∧ s.bouncedEml = some r.message) ∧
    (s.ctrl = some r.record ∧ s.bouncedCtrl = none ∨
      s.ctrl = none ∧ s.bouncedCtrl = some r.record) ∧
    (s.marker = none → s.eml = none ∧ s.ctrl = none)

-- an id outside the ledger has no files but, perhaps, a marker
def AgreesAt (entry : Option LedgerEntry) (s : Slots) : Prop :=
  match entry with
  | some r => Agrees r s
  | none => s.eml = none ∧ s.ctrl = none ∧ s.bouncedEml = none ∧ s.bouncedCtrl = none

def Consistent (l : Ledger) (d : Disk) : Prop := ∀ id, AgreesAt (l id) (slots d id)

-- no bounce is under way
def Quiet (d : Disk) : Prop := ∀ id, (slots d id).marker = none

-- steps on the files of other ids
theorem slots_runSteps_of_ne {steps : List SpoolStep} {id other : Str}
    (h : ∀ step ∈ steps, ∀ f ∈ step.touches, f.id = id) (hne : other ≠ id) (d : Disk) :
    slots (runSteps steps d) other = slots d other := by
  have hkeep : ∀ f : SpoolFile, f.id = other → (runSteps steps d).lookup f = d.lookup f := by
    intro f hf
    apply lookup_runSteps_of_untouched
    intro step hstep htouch
    exact hne (hf.symm.trans (h step hstep f htouch))
  unfold slots
  rw [hkeep _ rfl, hkeep _ rfl, hkeep _ rfl, hkeep _ rfl, hkeep _ rfl]

/-! ## 4. What a call does to the files of its id -/

@[simp] theorem slots_write_tmp (d : Disk) (f : SpoolFile) (bytes : Bytes) (id : Str) :
    slots ((FileStep.write { f with tmp := true } bytes).run d) id = slots d id := by
  simp [slots, lookup_write, emlPath, ctrlPath, bouncingMarker, SpoolFile.inBounced]

theorem slots_writeAtomic_eml (d : Disk) (id : Str) (bytes : Bytes) :
    slots (runSteps (writeAtomic (emlPath id) bytes) d) id =
      { slots d id with eml := some bytes } := by
  simp [writeAtomic, slots, lookup_write, lookup_rename, emlPath, ctrlPath, bouncingMarker,
    SpoolFile.inBounced]

theorem slots_writeAtomic_ctrl (d : Disk) (id : Str) (bytes : Bytes) :
    slots (runSteps (writeAtomic (ctrlPath id) bytes) d) id =
      { slots d id with ctrl := some bytes } := by
  simp [writeAtomic, slots, lookup_write, lookup_rename, emlPath, ctrlPath, bouncingMarker,
    SpoolFile.inBounced]

theorem slots_enqueue (d : Disk) (id : Str) (message : Message) (now : SystemTime) (k : Nat) :
    slots (runSteps ((enqueueSteps id message now).take k) d) id =
      { slots d id with
        eml := if 2 ≤ k then some message.toBytes else (slots d id).eml
        ctrl := if 4 ≤ k then some (encodeUtf8 (renderCtrl message.envelope 0 now now))
          else (slots d id).ctrl } := by
  have hfull : ∀ n, (enqueueSteps id message now).take (n + 4) = enqueueSteps id message now :=
    fun n => List.take_of_length_le (by simp [enqueueSteps, writeAtomic])
  have hhalf :
      (enqueueSteps id message now).take 2 = writeAtomic (emlPath id) message.toBytes := rfl
  match k with
  | 0 => rfl
  | 1 => simp [enqueueSteps, writeAtomic]
  | 2 =>
    rw [hhalf, slots_writeAtomic_eml]
    rfl
  | 3 =>
    have hthree : (enqueueSteps id message now).take 3 = writeAtomic (emlPath id) message.toBytes ++
        [.write { ctrlPath id with tmp := true }
          (encodeUtf8 (renderCtrl message.envelope 0 now now))] := rfl
    rw [hthree, runSteps_append, runSteps_cons, runSteps_nil, slots_write_tmp,
      slots_writeAtomic_eml]
    rfl
  | n + 4 =>
    rw [hfull, enqueueSteps, runSteps_append, slots_writeAtomic_ctrl, slots_writeAtomic_eml,
      if_pos (by omega), if_pos (by omega)]

theorem slots_remove (d : Disk) (id : Str) (k : Nat) :
    slots (runSteps ((removeSteps id).take k) d) id =
      { slots d id with
        eml := if 1 ≤ k then none else (slots d id).eml
        ctrl := if 2 ≤ k then none else (slots d id).ctrl } := by
  match k with
  | 0 => rfl
  | 1 => simp [removeSteps, slots, lookup_unlink, emlPath, ctrlPath, bouncingMarker,
      SpoolFile.inBounced]
  | n + 2 => simp [removeSteps, slots, lookup_unlink, emlPath, ctrlPath, bouncingMarker,
      SpoolFile.inBounced]

-- the end of a bounce: two moves, then the marker goes
def settleSteps (id : Str) : List SpoolStep :=
  relocateToBounced id ++ [.unlink (bouncingMarker id)]

def Slots.settle (s : Slots) (k : Nat) : Slots where
  eml := if 1 ≤ k then none else s.eml
  ctrl := if 2 ≤ k then none else s.ctrl
  marker := if 3 ≤ k then none else s.marker
  bouncedEml := if 1 ≤ k then s.eml.or s.bouncedEml else s.bouncedEml
  bouncedCtrl := if 2 ≤ k then s.ctrl.or s.bouncedCtrl else s.bouncedCtrl

theorem slots_settle (d : Disk) (id : Str) (k : Nat) :
    slots (runSteps ((settleSteps id).take k) d) id = (slots d id).settle k := by
  unfold Slots.settle
  match k with
  | 0 => rfl
  | 1 => simp [settleSteps, relocateToBounced, slots, lookup_rename, emlPath, ctrlPath,
      bouncingMarker, SpoolFile.inBounced]
  | 2 => simp [settleSteps, relocateToBounced, slots, lookup_rename, emlPath, ctrlPath,
      bouncingMarker, SpoolFile.inBounced]
  | n + 3 => simp [settleSteps, relocateToBounced, slots, lookup_rename, lookup_unlink, emlPath,
      ctrlPath, bouncingMarker, SpoolFile.inBounced]

theorem slots_mark (d : Disk) (id : Str) (bytes : Bytes) :
    slots ((FileStep.write (bouncingMarker id) bytes).run d) id =
      { slots d id with marker := some bytes } := by
  simp [slots, lookup_write, emlPath, ctrlPath, bouncingMarker, SpoolFile.inBounced]

/-! ## 5. Each call keeps the ledger -/

theorem Consistent.set {l : Ledger} {d d' : Disk} {id : Str} {entry : Option LedgerEntry}
    (hc : Consistent l d) (hid : AgreesAt entry (slots d' id))
    (hother : ∀ other, other ≠ id → slots d' other = slots d other) :
    Consistent (l.set id entry) d' := by
  intro other
  unfold Ledger.set
  by_cases ho : other = id
  · rw [if_pos ho, ho]
    exact hid
  · rw [if_neg ho, hother other ho]
    exact hc other

theorem Agrees.settle {r : LedgerEntry} {s : Slots} (h : Agrees r s) (hb : r.bouncing = true)
    (k : Nat) : Agrees r (s.settle k) where
  marker _ := hb
  listed := by
    intro hctrl
    have hk : ¬ 2 ≤ k := fun hk => hctrl (if_pos hk)
    have horig : s.ctrl ≠ none := by
      intro hn
      exact hctrl (by rw [Slots.settle, if_neg hk, hn])
    refine ⟨(h.listed horig).1, fun _ => ?_⟩
    show (if 3 ≤ k then none else s.marker) ≠ none
    rw [if_neg (by omega)]
    exact (h.listed horig).2 hb
  kept _ _ hno := by
    rw [hb] at hno
    cases hno
  moved hcom hrem _ := by
    rcases h.moved hcom hrem hb with ⟨heml, hctrl, hmark⟩
    unfold Slots.settle
    refine ⟨?_, ?_, ?_⟩
    · by_cases hk : 1 ≤ k
      · simp only [if_pos hk]
        rcases heml with ⟨he, hbe⟩ | ⟨he, hbe⟩
        · exact .inr ⟨trivial, by rw [he]; rfl⟩
        · exact .inr ⟨trivial, by rw [he, hbe]; rfl⟩
      · simp only [if_neg hk]
        exact heml
    · by_cases hk : 2 ≤ k
      · simp only [if_pos hk]
        rcases hctrl with ⟨he, hbe⟩ | ⟨he, hbe⟩
        · exact .inr ⟨trivial, by rw [he]; rfl⟩
        · exact .inr ⟨trivial, by rw [he, hbe]; rfl⟩
      · simp only [if_neg hk]
        exact hctrl
    · intro hnone
      by_cases hk : 3 ≤ k
      · exact ⟨if_pos (by omega), if_pos (by omega)⟩
      · simp only [if_neg hk] at hnone
        rw [(hmark hnone).1, (hmark hnone).2]
        simp

theorem AgreesAt.settle {entry : Option LedgerEntry} {s : Slots} (h : AgreesAt entry s)
    (hb : ∀ r ∈ entry, r.bouncing = true) (k : Nat) : AgreesAt entry (s.settle k) := by
  cases entry with
  | some r => exact Agrees.settle h (hb r rfl) k
  | none =>
    rcases h with ⟨h1, h2, h3, h4⟩
    simp [AgreesAt, Slots.settle, h1, h2, h3, h4]

theorem touches_settle {id : Str} {step : SpoolStep} (h : step ∈ settleSteps id) :
    ∀ f ∈ step.touches, f.id = id := by
  simp only [settleSteps, relocateToBounced, List.mem_append, List.mem_cons, List.not_mem_nil,
    or_false] at h
  rcases h with (rfl | rfl) | rfl <;>
    simp [FileStep.touches, emlPath, ctrlPath, bouncingMarker, SpoolFile.inBounced]

theorem Consistent.settle {l : Ledger} {d : Disk} {id : Str} (hc : Consistent l d)
    (hb : ∀ r ∈ l id, r.bouncing = true) (k : Nat) :
    Consistent l (runSteps ((settleSteps id).take k) d) := by
  intro other
  by_cases ho : other = id
  · rw [ho, slots_settle]
    exact (hc id).settle hb k
  · rw [slots_runSteps_of_ne (fun step hs => touches_settle (List.mem_of_mem_take hs)) ho d]
    exact hc other

/-- Recovery, cut off anywhere, keeps to the ledger. -/
theorem Consistent.recover {l : Ledger} {d : Disk} {ids : List Str} (hc : Consistent l d)
    (hb : ∀ id ∈ ids, ∀ r ∈ l id, r.bouncing = true) (k : Nat) :
    Consistent l (runSteps ((ids.flatMap settleSteps).take k) d) := by
  induction ids generalizing d k with
  | nil => simpa using hc
  | cons id ids ih =>
    rw [List.flatMap_cons, List.take_append, runSteps_append]
    exact ih (hc.settle (hb id (by simp)) k) (fun i hi => hb i (by simp [hi])) _

theorem marker_settle (d : Disk) (id other : Str) :
    (slots (runSteps (settleSteps id) d) other).marker =
      if other = id then none else (slots d other).marker := by
  have hfull : (settleSteps id).take 3 = settleSteps id := rfl
  by_cases ho : other = id
  · rw [if_pos ho, ho, ← hfull, slots_settle]
    rfl
  · rw [if_neg ho, slots_runSteps_of_ne (fun step hs => touches_settle hs) ho]

theorem marker_recover (ids : List Str) (d : Disk) (other : Str) :
    (slots (runSteps (ids.flatMap settleSteps) d) other).marker =
      if other ∈ ids then none else (slots d other).marker := by
  induction ids generalizing d with
  | nil => simp
  | cons id ids ih =>
    rw [List.flatMap_cons, runSteps_append, ih, marker_settle]
    by_cases hmem : other ∈ ids
    · simp [hmem]
    · by_cases ho : other = id
      · simp [ho]
      · simp [hmem, ho]

theorem openSteps_eq (d : Disk) : openSteps d = (idsOf .bouncing d).flatMap settleSteps := rfl

theorem Consistent.open {l : Ledger} {d : Disk} (hc : Consistent l d) (k : Nat) :
    Consistent l (runSteps ((openSteps d).take k) d) := by
  rw [openSteps_eq]
  apply hc.recover
  intro id hid r hr
  have hmarker : (slots d id).marker ≠ none := by
    intro hn
    have hsome := mem_idsOf.mp hid
    have hnone : d.lookup ⟨false, id, .bouncing, false⟩ = none := hn
    rw [hnone] at hsome
    cases hsome
  have hagree := hc id
  rw [hr] at hagree
  exact Agrees.marker hagree hmarker

-- a finished recovery leaves no marker
theorem quiet_open (d : Disk) : Quiet (runSteps (openSteps d) d) := by
  intro id
  rw [openSteps_eq, marker_recover]
  by_cases hm : id ∈ idsOf .bouncing d
  · rw [if_pos hm]
  · rw [if_neg hm]
    rw [mem_idsOf] at hm
    simpa [slots, bouncingMarker] using hm

/-! ## 6. The other calls -/

theorem touches_take {steps : List SpoolStep} {id : Str}
    (h : ∀ step ∈ steps, ∀ f ∈ step.touches, f.id = id) (k : Nat) :
    ∀ step ∈ steps.take k, ∀ f ∈ step.touches, f.id = id :=
  fun step hs => h step (List.mem_of_mem_take hs)

theorem touches_writeAtomic {path : SpoolFile} {bytes : Bytes} {step : SpoolStep}
    (h : step ∈ writeAtomic path bytes) : ∀ f ∈ step.touches, f.id = path.id := by
  simp only [writeAtomic, List.mem_cons, List.not_mem_nil, or_false] at h
  rcases h with rfl | rfl <;> simp [FileStep.touches]

theorem touches_enqueue {id : Str} {message : Message} {now : SystemTime} {step : SpoolStep}
    (h : step ∈ enqueueSteps id message now) : ∀ f ∈ step.touches, f.id = id := by
  rcases List.mem_append.mp h with h | h
  · exact touches_writeAtomic h
  · exact touches_writeAtomic h

theorem touches_remove {id : Str} {step : SpoolStep} (h : step ∈ removeSteps id) :
    ∀ f ∈ step.touches, f.id = id := by
  simp only [removeSteps, List.mem_cons, List.not_mem_nil, or_false] at h
  rcases h with rfl | rfl <;> simp [FileStep.touches, emlPath, ctrlPath]

theorem Consistent.enqueue {l : Ledger} {d : Disk} (hc : Consistent l d) (hq : Quiet d) {id : Str}
    (hfresh : l id = none) (message : Message) (now : SystemTime) (k : Nat) :
    Consistent (l.set id (some ⟨message.toBytes, encodeUtf8 (renderCtrl message.envelope 0 now now),
      decide (4 ≤ k), false, false⟩)) (runSteps ((enqueueSteps id message now).take k) d) := by
  have hnone := hc id
  rw [hfresh] at hnone
  rcases hnone with ⟨he, hct, hbe, hbc⟩
  apply hc.set
  · rw [slots_enqueue]
    refine ⟨fun hm => absurd (hq id) hm, ?_, ?_, fun _ _ hb => by cases hb⟩
    · intro hctrl
      have hk : 4 ≤ k := by
        by_cases hk : 4 ≤ k
        · exact hk
        · exact absurd (by simpa [hk] using hct) hctrl
      exact ⟨by simpa using hk, fun hb => by cases hb⟩
    · intro hcom _ _
      have hk : 4 ≤ k := by simpa using hcom
      have hk' : 2 ≤ k := by omega
      simp only [if_pos hk, if_pos hk']
      exact ⟨trivial, trivial, hbe, hbc⟩
  · intro other ho
    exact slots_runSteps_of_ne (touches_take (fun step hs => touches_enqueue hs) k) ho d

-- the record an entry has on disk decides what `defer` writes
theorem deferRecord_of_readCtrl {d : Disk} {id : Str} {record : Bytes} {entry : SpoolEntry}
    (hctrl : d.lookup (ctrlPath id) = some record) (h : readCtrl d id = .ok entry)
    (attempts : UInt32) (next : SystemTime) :
    deferRecord id attempts next record =
      encodeUtf8 (renderCtrl entry.envelope attempts next entry.createdAt) := by
  unfold readCtrl at h
  rw [hctrl] at h
  unfold deferRecord
  cases hdec : decodeUtf8 record with
  | none => simp [hdec] at h
  | some text =>
    simp only [hdec] at h
    simp only [Option.map_some, h]

theorem deferRecord_of_error {d : Disk} {id : Str} {record : Bytes} {e : Str}
    (hctrl : d.lookup (ctrlPath id) = some record) (h : readCtrl d id = .error e)
    (attempts : UInt32) (next : SystemTime) : deferRecord id attempts next record = record := by
  unfold readCtrl at h
  rw [hctrl] at h
  unfold deferRecord
  cases hdec : decodeUtf8 record with
  | none => rfl
  | some text =>
    simp only [hdec] at h
    simp only [Option.map_some, h]

theorem Agrees.deferred_of_error {r : LedgerEntry} {d : Disk} {id e : Str}
    (h : Agrees r (slots d id)) (hread : readCtrl d id = .error e) (attempts : UInt32)
    (next : SystemTime) (written : Bool) :
    Agrees (r.deferred id attempts next written) (slots d id) := by
  unfold LedgerEntry.deferred
  split
  · rename_i hw
    refine ⟨h.marker, h.listed, ?_, ?_⟩
    · intro hcom hrem hb
      rcases h.kept hcom hrem hb with ⟨he, hct, hbe, hbc⟩
      refine ⟨he, ?_, hbe, hbc⟩
      rw [deferRecord_of_error hct hread]
      exact hct
    · intro _ _ hb
      exact absurd (hw.2.symm.trans hb) (by decide)
  · exact h

theorem Agrees.deferred {r : LedgerEntry} {d : Disk} {id : Str} {entry : SpoolEntry}
    (h : Agrees r (slots d id)) (hq : (slots d id).marker = none)
    (hread : readCtrl d id = .ok entry) (attempts : UInt32) (next : SystemTime) :
    Agrees (r.deferred id attempts next true)
      { slots d id with
        ctrl := some (encodeUtf8 (renderCtrl entry.envelope attempts next entry.createdAt)) } := by
  have hsome : (slots d id).ctrl ≠ none := by
    intro hn
    have hlook : d.lookup (ctrlPath id) = none := hn
    rw [readCtrl, hlook] at hread
    cases hread
  have hlisted := h.listed hsome
  have hbounce : r.bouncing = false := by
    cases hb : r.bouncing with
    | false => rfl
    | true => exact absurd hq (hlisted.2 hb)
  unfold LedgerEntry.deferred
  rw [if_pos ⟨rfl, hbounce⟩]
  refine ⟨h.marker, fun _ => hlisted, ?_, ?_⟩
  · intro hcom hrem hb
    rcases h.kept hcom hrem hb with ⟨he, hct, hbe, hbc⟩
    refine ⟨he, ?_, hbe, hbc⟩
    rw [deferRecord_of_readCtrl hct hread]
  · intro _ _ hb
    exact absurd (hbounce.symm.trans hb) (by decide)

theorem Consistent.defer {l : Ledger} {d : Disk} (hc : Consistent l d) (hq : Quiet d) (id : Str)
    (attempts : UInt32) (next : SystemTime) (k : Nat) {written : Bool}
    (hw : ∀ entry, readCtrl d id = .ok entry → written = decide (2 ≤ k)) :
    Consistent (l.set id ((l id).map fun r => r.deferred id attempts next written))
      (runSteps (((deferSteps d id attempts next).toOption.getD []).take k) d) := by
  have hat := hc id
  cases hread : readCtrl d id with
  | error e =>
    -- nothing is written
    have hsteps : (deferSteps d id attempts next).toOption.getD [] = [] := by
      rw [deferSteps, hread]
      rfl
    rw [hsteps, List.take_nil, runSteps_nil]
    apply hc.set _ fun _ _ => rfl
    cases hl : l id with
    | none =>
      rw [hl] at hat
      exact hat
    | some r =>
      rw [hl] at hat
      exact Agrees.deferred_of_error hat hread attempts next written
  | ok entry =>
    have hsteps : (deferSteps d id attempts next).toOption.getD [] = writeAtomic (ctrlPath id)
        (encodeUtf8 (renderCtrl entry.envelope attempts next entry.createdAt)) := by
      rw [deferSteps, hread]
      rfl
    rw [hsteps]
    apply hc.set
    · cases hl : l id with
      | none =>
        -- an id outside the ledger has no record to read
        rw [hl] at hat
        have hlook : d.lookup (ctrlPath id) = none := hat.2.1
        rw [readCtrl, hlook] at hread
        cases hread
      | some r =>
        rw [hl] at hat
        rw [hw entry hread]
        match k with
        | 0 =>
          show Agrees (r.deferred id attempts next false) (slots d id)
          exact hat
        | 1 =>
          show Agrees (r.deferred id attempts next false) _
          rw [writeAtomic, List.take_succ_cons, List.take_zero, runSteps_cons, runSteps_nil,
            slots_write_tmp]
          exact hat
        | n + 2 =>
          have htake : (writeAtomic (ctrlPath id)
              (encodeUtf8 (renderCtrl entry.envelope attempts next entry.createdAt))).take (n + 2) =
              writeAtomic (ctrlPath id)
                (encodeUtf8 (renderCtrl entry.envelope attempts next entry.createdAt)) :=
            List.take_of_length_le (by simp [writeAtomic])
          have hdec : decide (2 ≤ n + 2) = true := by simp
          rw [htake, slots_writeAtomic_ctrl, hdec]
          exact Agrees.deferred hat (hq id) hread attempts next
    · intro other ho
      exact slots_runSteps_of_ne (touches_take (fun step hs => touches_writeAtomic hs) k) ho d

theorem Consistent.remove {l : Ledger} {d : Disk} (hc : Consistent l d) (hq : Quiet d) (id : Str)
    (k : Nat) :
    Consistent (l.set id ((l id).map fun r => { r with removing := r.removing || decide (1 ≤ k) }))
      (runSteps ((removeSteps id).take k) d) := by
  have hat := hc id
  apply hc.set
  · rw [slots_remove]
    cases hl : l id with
    | none =>
      rw [hl] at hat
      rcases hat with ⟨he, hct, hbe, hbc⟩
      refine ⟨?_, ?_, hbe, hbc⟩
      · simp [he]
      · simp [hct]
    | some r =>
      rw [hl] at hat
      cases k with
      | zero =>
        have hsame : ({ r with removing := r.removing || decide (1 ≤ 0) } : LedgerEntry) = r := by
          simp
        show Agrees { r with removing := r.removing || decide (1 ≤ 0) } (slots d id)
        rw [hsame]
        exact hat
      | succ n =>
        have hrem : (r.removing || decide (1 ≤ n + 1)) = true := by simp
        refine ⟨fun hm => absurd (hq id) hm, ?_, ?_, ?_⟩
        · intro hctrl
          apply Agrees.listed hat
          intro hn
          apply hctrl
          simp [hn]
        · intro _ hno
          exact absurd (hrem.symm.trans hno) (by decide)
        · intro _ hno
          exact absurd (hrem.symm.trans hno) (by decide)
  · intro other ho
    exact slots_runSteps_of_ne (touches_take (fun step hs => touches_remove hs) k) ho d

-- the marker is written: the entry is on its way out
theorem Agrees.mark {r : LedgerEntry} {s : Slots} (h : Agrees r s) (bytes : Bytes) :
    Agrees { r with bouncing := true } { s with marker := some bytes } where
  marker _ := rfl
  listed hctrl := ⟨(h.listed hctrl).1, fun _ => by simp⟩
  kept _ _ hb := by cases hb
  moved hcom hrem _ := by
    refine ⟨?_, ?_, fun hm => by cases hm⟩
    · cases hb : r.bouncing with
      | false => exact .inl ⟨(h.kept hcom hrem hb).1, (h.kept hcom hrem hb).2.2.1⟩
      | true => exact (h.moved hcom hrem hb).1
    · cases hb : r.bouncing with
      | false => exact .inl ⟨(h.kept hcom hrem hb).2.1, (h.kept hcom hrem hb).2.2.2⟩
      | true => exact (h.moved hcom hrem hb).2.1

theorem bounceSteps_eq (id : Str) :
    bounceSteps id = .write (bouncingMarker id) (encodeUtf8 id) :: settleSteps id := rfl

theorem Consistent.bounce {l : Ledger} {d : Disk} (hc : Consistent l d) (id : Str) (k : Nat) :
    Consistent (l.set id ((l id).map fun r => { r with bouncing := r.bouncing || decide (1 ≤ k) }))
      (runSteps ((bounceSteps id).take k) d) := by
  cases k with
  | zero =>
    apply hc.set _ fun _ _ => rfl
    have hat := hc id
    show AgreesAt _ (slots d id)
    cases hl : l id with
    | none =>
      rw [hl] at hat
      exact hat
    | some r =>
      rw [hl] at hat
      have hsame : ({ r with bouncing := r.bouncing || decide (1 ≤ 0) } : LedgerEntry) = r := by
        simp
      show Agrees { r with bouncing := r.bouncing || decide (1 ≤ 0) } (slots d id)
      rw [hsame]
      exact hat
  | succ n =>
    have hflag : ∀ r : LedgerEntry, (r.bouncing || decide (1 ≤ n + 1)) = true := by simp
    simp only [hflag]
    rw [bounceSteps_eq, List.take_succ_cons, runSteps_cons]
    -- first the marker, then the moves
    have hmark : Consistent (l.set id ((l id).map fun r => { r with bouncing := true }))
        ((FileStep.write (bouncingMarker id) (encodeUtf8 id)).run d) := by
      apply hc.set
      · rw [slots_mark]
        have hat := hc id
        cases hl : l id with
        | none =>
          rw [hl] at hat
          exact hat
        | some r =>
          rw [hl] at hat
          exact Agrees.mark hat _
      · intro other ho
        have hone : ∀ step ∈ [FileStep.write (bouncingMarker id) (encodeUtf8 id)],
            ∀ f ∈ step.touches, f.id = id := by
          simp [FileStep.touches, bouncingMarker]
        exact slots_runSteps_of_ne hone ho d
    apply hmark.settle
    intro r hr
    rw [Ledger.set, if_pos rfl] at hr
    rcases Option.map_eq_some_iff.mp hr with ⟨r0, -, rfl⟩
    rfl

/-! ## 7. Events -/

def Event.count (e : Event) (d : Disk) : Nat := e.crash.getD (e.call.steps d).length

theorem Event.run_eq (e : Event) (d : Disk) :
    e.run d = runSteps ((e.call.steps d).take (e.count d)) d := by
  unfold Event.run Event.count
  cases e.crash with
  | none => simp
  | some k => rfl

theorem Event.reached_iff {e : Event} {d : Disk} {k : Nat} (h : k ≤ (e.call.steps d).length) :
    e.reached k ↔ k ≤ e.count d := by
  unfold Event.reached Event.count
  cases e.crash with
  | none => simpa using h
  | some n => simp

/-- One event, crashed or not, keeps to the ledger. -/
theorem Consistent.event {l : Ledger} {d : Disk} {e : Event} (hc : Consistent l d)
    (hq : Quiet d ∨ e.call = .open) (hfresh : ∀ id ∈ e.enqueued, l id = none) :
    Consistent (l.step e) (e.run d) := by
  rw [Event.run_eq]
  rcases e with ⟨call, crash⟩
  cases call with
  | «open» => exact hc.open _
  | dueNow now =>
    show Consistent l (runSteps (List.take _ []) d)
    rw [List.take_nil]
    exact hc
  | enqueue id message now =>
    have hquiet := hq.resolve_right (by simp)
    have hreach := Event.reached_iff (e := ⟨.enqueue id message now, crash⟩) (d := d) (k := 4)
      (by simp [Call.steps, enqueueSteps, writeAtomic])
    simp only [Ledger.step, hreach]
    exact hc.enqueue hquiet (hfresh id rfl) message now _
  | defer id attempts next =>
    have hquiet := hq.resolve_right (by simp)
    refine hc.defer hquiet id attempts next _ ?_
    intro entry hread
    have hlen : 2 ≤ (Call.steps d (.defer id attempts next)).length := by
      simp [Call.steps, deferSteps, hread, writeAtomic, Except.map, Except.toOption]
    rw [decide_eq_decide]
    exact Event.reached_iff (e := ⟨.defer id attempts next, crash⟩) hlen
  | remove id =>
    have hquiet := hq.resolve_right (by simp)
    have hreach := Event.reached_iff (e := ⟨.remove id, crash⟩) (d := d) (k := 1)
      (by simp [Call.steps, removeSteps])
    simp only [Ledger.step, hreach]
    exact hc.remove hquiet id _
  | bounce id =>
    have hreach := Event.reached_iff (e := ⟨.bounce id, crash⟩) (d := d) (k := 1)
      (by simp [Call.steps, bounceSteps])
    simp only [Ledger.step, hreach]
    exact hc.bounce id _

theorem quiet_of_untouched {steps : List SpoolStep} {d : Disk} (hq : Quiet d)
    (h : ∀ step ∈ steps, ∀ f ∈ step.touches, f.kind ≠ .bouncing) : Quiet (runSteps steps d) := by
  intro id
  have hkeep : (runSteps steps d).lookup (bouncingMarker id) = d.lookup (bouncingMarker id) := by
    apply lookup_runSteps_of_untouched
    intro step hs hf
    exact h step hs _ hf rfl
  exact hkeep.trans (hq id)

theorem kind_writeAtomic {path : SpoolFile} (hp : path.kind ≠ .bouncing) {bytes : Bytes}
    {step : SpoolStep} (h : step ∈ writeAtomic path bytes) :
    ∀ f ∈ step.touches, f.kind ≠ .bouncing := by
  simp only [writeAtomic, List.mem_cons, List.not_mem_nil, or_false] at h
  rcases h with rfl | rfl <;> simpa [FileStep.touches] using hp

theorem quiet_bounce {d : Disk} (hq : Quiet d) (id : Str) :
    Quiet (runSteps (bounceSteps id) d) := by
  intro other
  rw [bounceSteps_eq, runSteps_cons, marker_settle]
  by_cases ho : other = id
  · rw [if_pos ho]
  · rw [if_neg ho]
    have hne : bouncingMarker other ≠ bouncingMarker id := by
      simpa [bouncingMarker] using ho
    show ((FileStep.write (bouncingMarker id) _).run d).lookup (bouncingMarker other) = none
    rw [lookup_write, if_neg hne]
    exact hq other

-- a call that returns leaves no marker behind
theorem Quiet.event {d : Disk} {e : Event} (hq : Quiet d ∨ e.call = .open)
    (hdone : e.crash = none) : Quiet (e.run d) := by
  unfold Event.run
  rw [hdone]
  rcases e with ⟨call, crash⟩
  cases call with
  | «open» => exact quiet_open d
  | dueNow now => exact hq.resolve_right (by simp)
  | enqueue id message now =>
    apply quiet_of_untouched (hq.resolve_right (by simp))
    intro step hs
    rcases List.mem_append.mp hs with hs | hs
    · exact kind_writeAtomic (by simp [emlPath]) hs
    · exact kind_writeAtomic (by simp [ctrlPath]) hs
  | defer id attempts next =>
    apply quiet_of_untouched (hq.resolve_right (by simp))
    intro step hs
    simp only [Call.steps, deferSteps] at hs
    cases hread : readCtrl d id with
    | error e => simp [hread, Except.map, Except.toOption] at hs
    | ok entry =>
      rw [hread] at hs
      exact kind_writeAtomic (by simp [ctrlPath]) hs
  | remove id =>
    apply quiet_of_untouched (hq.resolve_right (by simp))
    intro step hs
    simp only [Call.steps, removeSteps, List.mem_cons, List.not_mem_nil, or_false] at hs
    rcases hs with rfl | rfl <;> simp [FileStep.touches, emlPath, ctrlPath]
  | bounce id => exact quiet_bounce (hq.resolve_right (by simp)) id

end Snail.Server
