import Snail.Reasoning.Retry
import Snail.Server.Worker

/-!
# RetryQueue — the relay queue drains

Every run of the worker is a run of a queue of jobs with five tries, the notices being the jobs that
others leave behind.  So the attempts at an entry, the entries and all attempts are bounded,
whatever the reports are.  What an attempt leaves depends on the addresses: an entry is put off as
itself exactly if each of them is read back from the record.
-/

open Snail.Reasoning Snail.Mail

namespace Snail.Server

/-! ## 1. Jobs -/

-- an entry whose record cannot be read is not a job: it is never listed
def jobAt (d : Disk) (id : Str) : Option Job :=
  (readCtrl d id).toOption.map fun e => ⟨e.attempts.toNat, e.sender.isSome⟩

def Attempt.act (a : Attempt) : Act Str := ⟨a.id, a.isDeferred, a.created.head?⟩

theorem jobAt_of_readCtrl {d : Disk} {id : Str} {e : SpoolEntry} (h : readCtrl d id = .ok e) :
    jobAt d id = some ⟨e.attempts.toNat, e.sender.isSome⟩ := by
  unfold jobAt
  rw [h]
  rfl

theorem readCtrl_of_jobAt {d : Disk} {id : Str} {job : Job} (h : jobAt d id = some job) :
    ∃ e, readCtrl d id = .ok e ∧ job = ⟨e.attempts.toNat, e.sender.isSome⟩ := by
  obtain ⟨e, he, rfl⟩ := Option.map_eq_some_iff.mp h
  exact ⟨e, toOption_eq_some_iff.mp he, rfl⟩

theorem jobAt_of_no_ctrl {d : Disk} {id : Str} (h : (slots d id).ctrl = none) :
    jobAt d id = none := by
  cases hjob : jobAt d id with
  | none => rfl
  | some job =>
    obtain ⟨e, he, -⟩ := readCtrl_of_jobAt hjob
    exact absurd h (ctrl_ne_none_of_readCtrl he)

theorem jobAt_congr {d d' : Disk} {id : Str} (h : (slots d' id).ctrl = (slots d id).ctrl) :
    jobAt d' id = jobAt d id := by
  unfold jobAt
  rw [readCtrl_congr h]

namespace Attempt.Sound

variable {a : Attempt}

theorem ctrl_ne_none (h : a.Sound) : (slots a.before a.id).ctrl ≠ none :=
  ctrl_ne_none_of_readCtrl h.stored

-- an entry that is not put off has no record any more
theorem ctrl_eq_none (h : a.Sound) (hend : ¬ a.PutOff) : (slots a.after a.id).ctrl = none := by
  by_cases hreport : a.report = .delivered
  · rw [h.removed hreport]
  · rw [h.bounced hreport hend]

theorem left_iff (h : a.Sound) : a.Left ↔ (a.PutOff → a.entry.Plain) := by
  constructor
  · intro hleft hputOff
    exact (h.putOff hputOff).1.mp (hleft.2.1 hputOff)
  · intro hplain
    exact ⟨h.removed, fun hputOff => (h.putOff hputOff).1.mpr (hplain hputOff), h.bounced⟩

theorem spawned_toList (h : a.Sound) : a.act.spawned.toList = a.created := by
  show a.created.head?.toList = a.created
  obtain hnone | ⟨sender, new, now, -, -, hnew, -⟩ := h.created
  · rw [hnone]
    rfl
  · rw [hnew]
    rfl

/-- An attempt is a step of the queue. -/
theorem step (h : a.Sound) (htries : a.entry.attempts.toNat < maxAttempts.toNat) :
    Step maxAttempts.toNat (jobAt a.before) (jobAt a.after) a.act
      ⟨a.entry.attempts.toNat, a.entry.sender.isSome⟩ where
  live := jobAt_of_readCtrl h.stored
  ends := by
    by_cases hputOff : a.PutOff
    · cases hread : readCtrl a.after a.id with
      | error e =>
        refine .inl ?_
        show jobAt a.after a.id = none
        unfold jobAt
        rw [hread]
        rfl
      | ok e =>
        obtain ⟨hattempts, hsender⟩ := (h.putOff hputOff).2 e hread
        have hlt : (a.entry.attempts + 1).toNat < maxAttempts.toNat := hputOff.2
        have hsum : (a.entry.attempts + 1).toNat = a.entry.attempts.toNat + 1 := by
          rw [UInt32.toNat_add]
          exact Nat.mod_eq_of_lt (lt_trans (Nat.add_lt_add_right htries 1) (by decide))
        refine .inr ⟨hputOff.1, ?_, by rw [← hsum]; exact hlt, ?_⟩
        · obtain hnone | ⟨sender, new, now, -, hnot, -⟩ := h.created
          · show a.created.head? = none
            rw [hnone]
            rfl
          · exact absurd hputOff hnot
        · show jobAt a.after a.id = _
          rw [jobAt_of_readCtrl hread, hattempts, hsender, hsum]
    · exact .inl (jobAt_of_no_ctrl (h.ctrl_eq_none hputOff))
  leaves := by
    intro new hnew
    have hmem : new ∈ a.created := List.mem_of_mem_head? hnew
    have hbefore : (slots a.before new).ctrl = none := by
      have hout := (Attempt.mem_created.mp hmem).2
      rwa [mem_idsOf_ctrl, not_not] at hout
    obtain hnone | ⟨sender, first, now, hsender, -, hfirst, hrecord⟩ := h.created
    · rw [hnone] at hmem
      cases hmem
    · rw [hfirst, List.mem_singleton] at hmem
      subst hmem
      refine ⟨jobAt_of_no_ctrl hbefore, by rw [hsender]; rfl, fun left hleft => ?_⟩
      obtain ⟨e, he, rfl⟩ := readCtrl_of_jobAt hleft
      have hline : ∀ m, m ∈ (none : Option Mailbox) ∨ m ∈ [sender] → OnLine m.toString := by
        intro m hm
        obtain hm | hm := hm
        · cases hm
        · rw [List.mem_singleton.mp hm]
          exact (onLine_of_readCtrl h.stored (.inl hsender)).1
      obtain ⟨hattempts, -, hnull⟩ := readCtrl_written hline hrecord he
      rw [hattempts, hnull]
      rfl
  frame := by
    intro other hother hnew
    refine jobAt_congr (congrArg Slots.ctrl (h.frame other hother fun hmem => hnew ?_))
    rw [← h.spawned_toList] at hmem
    exact Option.mem_toList.mp hmem

end Attempt.Sound

/-! ## 2. A run so far -/

/-- The entries that a run has created. -/
def createdIn (log : List Attempt) : List Str := log.flatMap Attempt.created

/-- How the spool stands behind the attempts of `log`. -/
structure Kept (w₀ w : World) (log : List Attempt) : Prop where
  sound : ∀ a ∈ log, a.Sound
  counter : w₀.counter ≤ w.counter
  numbered : ∀ id ∈ createdIn log, id ∉ idsOf .ctrl w₀.disk ∧
    ∃ nanos seq, id = newId nanos seq ∧ seq < w.counter
  nodup : (createdIn log).Nodup
  entries : ∀ id ∈ idsOf .ctrl w.disk, id ∈ idsOf .ctrl w₀.disk ++ createdIn log
  known : ∀ a ∈ log, a.id ∈ idsOf .ctrl w₀.disk ++ createdIn log
  runs : Runs maxAttempts.toNat (jobAt w₀.disk) (log.map Attempt.act) (jobAt w.disk)
  ended : ∀ a ∈ log, ¬ a.PutOff → a.id ∉ idsOf .ctrl w.disk
  later : log.Pairwise fun a b => ¬ a.PutOff → b.id ≠ a.id

section
variable {w₀ w w' : World} {log : List Attempt} {id : Str}

theorem Kept.nil (w : World) : Kept w w [] where
  sound := by simp
  counter := le_rfl
  numbered := by simp [createdIn]
  nodup := List.nodup_nil
  entries := fun _ h => List.mem_append_left _ h
  known := by simp
  runs := .nil
  ended := by simp
  later := .nil

theorem spawnedIn_acts (h : ∀ a ∈ log, a.Sound) :
    spawnedIn (log.map Attempt.act) = createdIn log := by
  unfold spawnedIn createdIn
  rw [List.filterMap_map, List.filterMap_eq_flatMap_toList]
  exact List.flatMap_congr fun a ha => (h a ha).spawned_toList

-- a new number gives a new name
theorem Kept.fresh (h : Kept w₀ w log) {nanos : Nat}
    (hnew : newId nanos w.counter ∉ idsOf .ctrl w₀.disk) :
    newId nanos w.counter ∉ idsOf .ctrl w₀.disk ++ createdIn log := by
  intro hmem
  obtain hmem | hmem := List.mem_append.mp hmem
  · exact hnew hmem
  · obtain ⟨-, nanos', seq, heq, hlt⟩ := h.numbered _ hmem
    have hsame := newId_inj heq
    omega

-- what comes into the queue was not in it at the start
theorem Kept.spawned_fresh (h : Kept w₀ w log) :
    (spawnedIn (log.map Attempt.act)).Nodup ∧
      ∀ new ∈ spawnedIn (log.map Attempt.act), jobAt w₀.disk new = none := by
  rw [spawnedIn_acts h.sound]
  refine ⟨h.nodup, fun new hnew => ?_⟩
  have hout := (h.numbered new hnew).1
  rw [mem_idsOf_ctrl, not_not] at hout
  exact jobAt_of_no_ctrl hout

theorem Kept.tries_lt (h : Kept w₀ w log)
    (hstart : ∀ id job, jobAt w₀.disk id = some job → job.tries < maxAttempts.toNat)
    {job : Job} (hjob : jobAt w.disk id = some job) : job.tries < maxAttempts.toNat := by
  obtain ⟨hnodup, hfresh⟩ := h.spawned_fresh
  exact ((h.runs.account (by decide) hstart hnodup hfresh id).2 job hjob).2

/-- A step that is no attempt and adds no record. -/
theorem Kept.silent (h : Kept w₀ w log) (hcounter : w'.counter = w.counter)
    (hfewer : ∀ id ∈ idsOf .ctrl w'.disk, id ∈ idsOf .ctrl w.disk)
    (hruns : Runs maxAttempts.toNat (jobAt w₀.disk) (log.map Attempt.act) (jobAt w'.disk)) :
    Kept w₀ w' log where
  sound := h.sound
  counter := by rw [hcounter]; exact h.counter
  numbered := by rw [hcounter]; exact h.numbered
  nodup := h.nodup
  entries := fun id hid => h.entries id (hfewer id hid)
  known := h.known
  runs := hruns
  ended := fun a ha hend hmem => h.ended a ha hend (hfewer a.id hmem)
  later := h.later

-- an entry is taken away
theorem Kept.drop (h : Kept w₀ w log) (hcounter : w'.counter = w.counter)
    (hgone : (slots w'.disk id).ctrl = none)
    (hframe : ∀ other, other ≠ id → (slots w'.disk other).ctrl = (slots w.disk other).ctrl) :
    Kept w₀ w' log := by
  refine h.silent hcounter (fun other hother => ?_)
    (h.runs.drop id (jobAt_of_no_ctrl hgone) fun other hid => jobAt_congr (hframe other hid))
  rw [mem_idsOf_ctrl] at hother ⊢
  by_cases hid : other = id
  · rw [hid] at hother
    exact absurd hgone hother
  · rwa [hframe other hid] at hother

theorem Kept.congr (h : Kept w₀ w log) (hcounter : w'.counter = w.counter)
    (hctrl : ∀ id, (slots w'.disk id).ctrl = (slots w.disk id).ctrl) : Kept w₀ w' log := by
  have hjobs : jobAt w'.disk = jobAt w.disk := funext fun id => jobAt_congr (hctrl id)
  refine h.silent hcounter (fun id hid => ?_) (by rw [hjobs]; exact h.runs)
  rwa [mem_idsOf_ctrl, hctrl, ← mem_idsOf_ctrl] at hid

theorem createdIn_snoc (log : List Attempt) (a : Attempt) :
    createdIn (log ++ [a]) = createdIn log ++ a.created := by
  simp [createdIn]

/-- One attempt more. -/
theorem Kept.attempt (h : Kept w₀ w log)
    (hstart : ∀ id job, jobAt w₀.disk id = some job → job.tries < maxAttempts.toNat)
    {a : Attempt} (hsound : a.Sound) (hbefore : a.before = w.disk) (hafter : a.after = w'.disk)
    (hcounter : w'.counter = w.counter + a.created.length) {nanos : Nat}
    (hnumber : ∀ id ∈ a.created, id = newId nanos w.counter)
    (hnew : newId nanos w.counter ∉ idsOf .ctrl w₀.disk) : Kept w₀ w' (log ++ [a]) := by
  have hlive : a.id ∈ idsOf .ctrl w.disk := by
    rw [mem_idsOf_ctrl, ← hbefore]
    exact hsound.ctrl_ne_none
  have hunknown : ∀ id ∈ a.created, id ∉ idsOf .ctrl w₀.disk ++ createdIn log := by
    intro id hid
    rw [hnumber id hid]
    exact h.fresh hnew
  have hwider : ∀ id, id ∈ idsOf .ctrl w₀.disk ++ createdIn log →
      id ∈ idsOf .ctrl w₀.disk ++ createdIn (log ++ [a]) := by
    intro id hid
    rw [createdIn_snoc, ← List.append_assoc]
    exact List.mem_append_left _ hid
  have hended : ∀ b ∈ log, ¬ b.PutOff → b.id ≠ a.id := by
    intro b hb hend heq
    have hgone := h.ended b hb hend
    rw [heq] at hgone
    exact hgone hlive
  have hframe : ∀ other, other ≠ a.id → other ∉ a.created →
      (other ∈ idsOf .ctrl w'.disk ↔ other ∈ idsOf .ctrl w.disk) := by
    intro other hother hout
    rw [mem_idsOf_ctrl, mem_idsOf_ctrl, ← hafter, ← hbefore, hsound.frame other hother hout]
  refine ⟨?_, by rw [hcounter]; exact le_trans h.counter (Nat.le_add_right _ _), ?_, ?_, ?_, ?_, ?_,
    ?_, ?_⟩
  · intro b hb
    obtain hb | hb := List.mem_append.mp hb
    · exact h.sound b hb
    · rw [List.mem_singleton.mp hb]
      exact hsound
  · intro id hid
    rw [createdIn_snoc] at hid
    obtain hid | hid := List.mem_append.mp hid
    · obtain ⟨hout, nanos', seq, heq, hlt⟩ := h.numbered id hid
      exact ⟨hout, nanos', seq, heq, by omega⟩
    · have hlength := List.length_pos_of_mem hid
      rw [hnumber id hid]
      exact ⟨hnew, nanos, w.counter, rfl, by omega⟩
  · rw [createdIn_snoc, List.nodup_append]
    refine ⟨h.nodup, (nodup_idsOf .ctrl a.after).filter _, ?_⟩
    rintro id hid new hmem rfl
    exact hunknown id hmem (List.mem_append_right _ hid)
  · intro id hid
    by_cases hmem : id ∈ a.created
    · rw [createdIn_snoc]
      exact List.mem_append_right _ (List.mem_append_right _ hmem)
    · refine hwider id (h.entries id ?_)
      by_cases hself : id = a.id
      · rw [hself]
        exact hlive
      · exact (hframe id hself hmem).mp hid
  · intro b hb
    obtain hb | hb := List.mem_append.mp hb
    · exact hwider _ (h.known b hb)
    · rw [List.mem_singleton.mp hb]
      exact hwider _ (h.entries _ hlive)
  · rw [List.map_append]
    have htries : a.entry.attempts.toNat < maxAttempts.toNat :=
      h.tries_lt hstart (jobAt_of_readCtrl (by rw [← hbefore]; exact hsound.stored))
    have hstep := hsound.step htries
    rw [hbefore, hafter] at hstep
    exact h.runs.snoc hstep
  · intro b hb hend
    obtain hb | hb := List.mem_append.mp hb
    · rw [hframe b.id (hended b hb hend) fun hmem => hunknown _ hmem (h.known b hb)]
      exact h.ended b hb hend
    · rw [List.mem_singleton.mp hb] at hend ⊢
      rw [mem_idsOf_ctrl, not_not, ← hafter]
      exact hsound.ctrl_eq_none hend
  · rw [List.pairwise_append]
    refine ⟨h.later, List.pairwise_singleton _ _, ?_⟩
    intro b hb c hc hend
    rw [List.mem_singleton.mp hc]
    exact Ne.symm (hended b hb hend)

end

/-! ## 3. Passes -/

/-- The writes of the pass succeed, and its names are none of those at the start of the run. -/
structure PassIo.Succeeds (io : PassIo) (w₀ : World) : Prop where
  writes : ∀ id, (io.writes id 0).fault = none
  names : ∀ id seq, w₀.counter ≤ seq → newId (io.writes id 0).nanos seq ∉ idsOf .ctrl w₀.disk

section
variable {server : Server} {io : PassIo} {w₀ w : World} {log : List Attempt}

theorem relayEntry_keeps (hrelay : server.relay = true) (hio : io.Succeeds w₀)
    (hstart : ∀ id job, jobAt w₀.disk id = some job → job.tries < maxAttempts.toNat)
    (h : Kept w₀ w log) {entry : SpoolEntry}
    (hdue : dueEntry w.disk io.now entry.id = .ok (some entry)) :
    Kept w₀ (relayEntry server io entry w).1 (log ++ (relayEntry server io entry w).2) ∧
      ∀ other ∈ idsOf .ctrl w.disk, other ≠ entry.id →
        slots (relayEntry server io entry w).1.disk other = slots w.disk other := by
  unfold relayEntry
  cases loadMessage w.disk entry.id with
  | error e =>
    have hframe : ∀ other, other ≠ entry.id →
        slots (w.onDisk (bounceSteps entry.id)).disk other = slots w.disk other := fun other hne =>
      slots_runSteps_of_ne (fun _ h => touches_bounceSteps h) hne w.disk
    refine ⟨?_, fun other _ hne => hframe other hne⟩
    rw [List.append_nil]
    refine h.drop rfl ?_ fun other hne => congrArg Slots.ctrl (hframe other hne)
    exact congrArg Slots.ctrl (slots_bounceSteps w.disk entry.id)
  | ok message =>
    have hnew := hio.names entry.id w.counter h.counter
    have hfresh : newId (io.writes entry.id 0).nanos w.counter ∉ idsOf .ctrl w.disk :=
      fun hmem => h.fresh hnew (h.entries _ hmem)
    obtain ⟨hsound, hcounter, hnumber⟩ := sound_attemptAt hrelay hdue (hio.writes entry.id)
      (by rwa [mem_idsOf_ctrl, not_not] at hfresh) message
    refine ⟨h.attempt hstart hsound rfl rfl hcounter hnumber hnew, fun other hother hne => ?_⟩
    refine hsound.frame other hne fun hmem => ?_
    rw [hnumber other hmem] at hother
    exact hfresh hother

theorem relayLoop_keeps (hrelay : server.relay = true) (hio : io.Succeeds w₀)
    (hstart : ∀ id job, jobAt w₀.disk id = some job → job.tries < maxAttempts.toNat)
    (h : Kept w₀ w log) {due : List SpoolEntry} (hnodup : (due.map SpoolEntry.id).Nodup)
    (hdue : ∀ entry ∈ due, dueEntry w.disk io.now entry.id = .ok (some entry)) :
    Kept w₀ (relayLoop server io due w).1 (log ++ (relayLoop server io due w).2) := by
  induction due generalizing w log with
  | nil =>
    rw [relayLoop, List.append_nil]
    exact h
  | cons entry rest ih =>
    obtain ⟨hout, hrest⟩ := List.nodup_cons.mp hnodup
    obtain ⟨hkept, hframe⟩ := relayEntry_keeps hrelay hio hstart h (hdue entry List.mem_cons_self)
    rw [relayLoop, ← List.append_assoc]
    refine ih hkept hrest fun other hother => ?_
    -- the entries that are still to come are as they were listed
    have hlisted := hdue other (List.mem_cons_of_mem _ hother)
    have hne : other.id ≠ entry.id := fun heq => hout (heq ▸ List.mem_map_of_mem hother)
    rw [dueEntry_congr (hframe other.id ?_ hne), hlisted]
    rw [mem_idsOf_ctrl]
    exact ctrl_ne_none_of_readCtrl (of_dueEntry hlisted).1

theorem ids_dueLoop_sublist {d : Disk} {now : SystemTime} {ids : List Str}
    {found : List SpoolEntry} (h : dueLoop d now ids = .ok found) :
    (found.map SpoolEntry.id).Sublist ids := by
  induction ids generalizing found with
  | nil =>
    cases h
    exact List.Sublist.slnil
  | cons id rest ih =>
    rw [dueLoop] at h
    cases hentry : dueEntry d now id with
    | error e =>
      rw [hentry] at h
      cases h
    | ok first =>
      rw [hentry] at h
      obtain ⟨tail, htail, rfl⟩ := map_eq_ok_iff.mp h
      cases first with
      | none => exact (ih htail).cons id
      | some entry =>
        rw [← (dueEntry_some hentry).2.2]
        exact (ih htail).cons_cons entry.id

theorem nodup_ids_dueNow {d : Disk} {now : SystemTime} {due : List SpoolEntry}
    (h : dueNow d now = .ok due) : (due.map SpoolEntry.id).Nodup := by
  obtain ⟨found, hfound, rfl⟩ := map_eq_ok_iff.mp h
  rw [((List.mergeSort_perm found _).map SpoolEntry.id).nodup_iff]
  exact (nodup_idsOf .ctrl d).sublist (ids_dueLoop_sublist hfound)

theorem relayDue_keeps (hio : io.Succeeds w₀)
    (hstart : ∀ id job, jobAt w₀.disk id = some job → job.tries < maxAttempts.toNat)
    (h : Kept w₀ w log) :
    Kept w₀ (relayDue server io w).1 (log ++ (relayDue server io w).2) := by
  unfold relayDue
  by_cases hrelay : server.relay = false
  · rw [if_pos hrelay, List.append_nil]
    exact h
  rw [if_neg hrelay]
  cases hdue : dueNow w.disk io.now with
  | error e =>
    rw [List.append_nil]
    exact h
  | ok due =>
    have hkept := relayLoop_keeps (Bool.eq_true_of_not_eq_false hrelay) hio hstart h
      (nodup_ids_dueNow hdue) fun entry hentry => by
        obtain ⟨id, -, hid⟩ := (mem_dueNow hdue).mp hentry
        rw [(dueEntry_some hid).2.2]
        exact hid
    exact hkept.congr rfl fun id => (slots_reapBounced io.aged _ id).2.1

theorem runWorker_keeps {passes : List PassIo} (hpasses : ∀ io ∈ passes, io.Succeeds w₀)
    (hstart : ∀ id job, jobAt w₀.disk id = some job → job.tries < maxAttempts.toNat)
    (h : Kept w₀ w log) :
    Kept w₀ (runWorker server passes w).1 (log ++ (runWorker server passes w).2) := by
  induction passes generalizing w log with
  | nil =>
    rw [runWorker, List.append_nil]
    exact h
  | cons io rest ih =>
    rw [runWorker, ← List.append_assoc]
    exact ih (fun other hother => hpasses other (List.mem_cons_of_mem _ hother))
      (relayDue_keeps (hpasses io List.mem_cons_self) hstart h)

end

/-! ## 4. The queue drains -/

/-- What a run from `w₀` to `w` with the attempts of `log` is to keep. -/
structure Drains (w₀ w : World) (log : List Attempt) : Prop where
  -- with the tries before the run, an entry is attempted five times at most
  attempts : ∀ id, startTries (jobAt w₀.disk) id + log.countP (·.id = id) ≤ 5
  -- the stored counter is the number of deferrals
  counter : ∀ id e, readCtrl w.disk id = .ok e → e.attempts.toNat =
    startTries (jobAt w₀.disk) id + log.countP (fun a => a.id = id ∧ a.isDeferred = true)
  -- never before the stored time
  due : ∀ a ∈ log, readCtrl a.before a.id = .ok a.entry ∧ a.entry.nextAttemptAt.le a.now = true
  left : ∀ a ∈ log, a.Left
  -- what is removed or bounced is not listed again
  ended : (∀ a ∈ log, ¬ a.PutOff → a.id ∉ idsOf .ctrl w.disk) ∧
    log.Pairwise fun a b => ¬ a.PutOff → b.id ≠ a.id
  notices : ∀ a ∈ log, ∀ new ∈ a.created, a.entry.sender ≠ none ∧ ∃ rcpts now,
    a.after.lookup (ctrlPath new) = some (encodeUtf8 (renderCtrl ⟨none, rcpts⟩ 0 now now))
  creates : ∀ id, (createdIn (log.filter (·.id = id))).length ≤ 1
  entries : (∀ id ∈ idsOf .ctrl w.disk, id ∈ idsOf .ctrl w₀.disk ++ createdIn log) ∧
    (idsOf .ctrl w₀.disk ++ createdIn log).length ≤ 2 * (idsOf .ctrl w₀.disk).length
  total : log.length ≤ 10 * (idsOf .ctrl w₀.disk).length

theorem tried_acts (id : Str) (log : List Attempt) :
    tried id (log.map Attempt.act) = log.countP (·.id = id) := by
  unfold tried List.count
  rw [List.map_map, List.countP_map]
  exact List.countP_congr fun a _ => by simp [Attempt.act]

theorem timesPutOff_acts (id : Str) (log : List Attempt) :
    timesPutOff id (log.map Attempt.act) =
      log.countP fun a => a.id = id ∧ a.isDeferred = true := by
  unfold timesPutOff
  rw [List.countP_map]
  rfl

theorem Kept.drains_iff {w₀ w : World} {log : List Attempt} (h : Kept w₀ w log)
    (hstart : ∀ id job, jobAt w₀.disk id = some job → job.tries < maxAttempts.toNat) :
    Drains w₀ w log ↔ ∀ a ∈ log, a.PutOff → a.entry.Plain := by
  obtain ⟨hnodup, hfresh⟩ := h.spawned_fresh
  have hids : ∀ id, jobAt w₀.disk id ≠ none → id ∈ idsOf .ctrl w₀.disk := by
    intro id hid
    rw [mem_idsOf_ctrl]
    exact fun hnone => hid (jobAt_of_no_ctrl hnone)
  constructor
  · intro hdrains a ha
    exact (h.sound a ha).left_iff.mp (hdrains.left a ha)
  · intro hplain
    have haccount := h.runs.account (by decide) hstart hnodup hfresh
    refine ⟨fun id => ?_, fun id e he => ?_,
      fun a ha => ⟨(h.sound a ha).stored, (h.sound a ha).due⟩,
      fun a ha => (h.sound a ha).left_iff.mpr (hplain a ha), ⟨h.ended, h.later⟩, ?_, fun id => ?_,
      ⟨h.entries, ?_⟩, ?_⟩
    · rw [← tried_acts]
      exact (haccount id).1
    · rw [← timesPutOff_acts]
      exact ((haccount id).2 _ (jobAt_of_readCtrl he)).1
    · intro a ha new hnew
      obtain hnone | ⟨sender, first, now, hsender, -, hfirst, hrecord⟩ := (h.sound a ha).created
      · rw [hnone] at hnew
        cases hnew
      · rw [hfirst, List.mem_singleton] at hnew
        rw [hnew, hsender]
        exact ⟨by simp, [sender], now, hrecord⟩
    · have hone := h.runs.length_spawnedIn_filter_le hfresh id
      rw [List.filter_map, spawnedIn_acts fun a ha => h.sound a (List.mem_of_mem_filter ha)] at hone
      exact hone
    · have hspawn := h.runs.length_spawnedIn_le hfresh hids
      rw [spawnedIn_acts h.sound] at hspawn
      rw [List.length_append]
      omega
    · have htotal := h.runs.length_le (by decide) hstart hnodup hfresh hids
      rw [List.length_map, show maxAttempts.toNat = 5 from rfl] at htotal
      omega

/-- Over every run of passes, whatever the reports: the queue drains as it should exactly if no
entry is put off that has an address which begins with `@` or white space. -/
theorem retry_queue_drains_iff (server : Server) (w₀ : World) (passes : List PassIo)
    (hstart : ∀ id e, readCtrl w₀.disk id = .ok e → e.attempts < maxAttempts)
    (hpasses : ∀ io ∈ passes, io.Succeeds w₀) :
    Drains w₀ (runWorker server passes w₀).1 (runWorker server passes w₀).2 ↔
      ∀ a ∈ (runWorker server passes w₀).2, a.PutOff → a.entry.Plain := by
  have htries : ∀ id job, jobAt w₀.disk id = some job → job.tries < maxAttempts.toNat := by
    intro id job hjob
    obtain ⟨e, he, rfl⟩ := readCtrl_of_jobAt hjob
    exact hstart id e he
  have hkept : Kept w₀ (runWorker server passes w₀).1 ([] ++ (runWorker server passes w₀).2) :=
    runWorker_keeps hpasses htries (Kept.nil w₀)
  exact hkept.drains_iff htries

-- a spool with one entry, from `a@x.org`
def oneEntry (rcpt : Mailbox) : World :=
  World.empty.enqueue ⟨0, .unixEpoch, none⟩
    ⟨⟨some ⟨"a".toList, "x.org".toList⟩, [rcpt]⟩, ⟨[]⟩, [], []⟩

-- the first hours after the epoch
theorem early_ge {secs : Nat} (_h : secs < 0x10000) : -0x8000000000000000 ≤ (secs : Int) := by
  omega

theorem early_room {secs : Nat} (h : secs < 0x10000) (_id : Str) :
    (secs : Int) + 3601 < 0x8000000000000000 := by
  omega

theorem early_lt {secs : Nat} (h : secs < 0x10000) : (secs : Int) < 0x8000000000000000 := by
  omega

def passAt (secs : Nat) (h : secs < 0x10000) (report : RelayReport) : PassIo where
  now := ⟨secs, 0, early_ge h, early_lt h, SystemTime.zero_nanos_lt⟩
  report _ := report
  clock _ := ⟨secs, 0, early_ge h, early_lt h, SystemTime.zero_nanos_lt⟩
  writes _ _ := ⟨0, ⟨secs, 0, early_ge h, early_lt h, SystemTime.zero_nanos_lt⟩, none⟩
  aged _ := false
  room := early_room h

theorem idsOf_oneEntry (rcpt : Mailbox) : idsOf .ctrl (oneEntry rcpt).disk = [newId 0 0] := by
  rfl

theorem passAt_succeeds (secs : Nat) (h : secs < 0x10000) (report : RelayReport) (rcpt : Mailbox) :
    (passAt secs h report).Succeeds (oneEntry rcpt) where
  writes _ := rfl
  names := by
    intro id seq hseq hmem
    rw [idsOf_oneEntry, List.mem_singleton] at hmem
    have hzero : seq = 0 := newId_inj hmem
    rw [hzero] at hseq
    exact absurd hseq (Nat.not_succ_le_zero 0)

theorem oneEntry_attempts {rcpt : Mailbox}
    (h : ((readCtrl (oneEntry rcpt).disk (newId 0 0)).toOption.all fun e =>
      e.attempts < maxAttempts) = true) :
    ∀ id e, readCtrl (oneEntry rcpt).disk id = .ok e → e.attempts < maxAttempts := by
  intro id e he
  have hid : id ∈ idsOf .ctrl (oneEntry rcpt).disk := by
    rw [mem_idsOf_ctrl]
    exact ctrl_ne_none_of_readCtrl he
  rw [idsOf_oneEntry, List.mem_singleton] at hid
  rw [← hid, he] at h
  exact of_decide_eq_true h

-- put off, given up, and the notice delivered
def noticedPasses : List PassIo :=
  [passAt 0 (by decide) (.deferred 450 "later".toList),
    passAt 1000 (by decide) (.failed "no".toList), passAt 2000 (by decide) .delivered]

theorem retry_queue_drains_iff_noticed :
    let r := runWorker relayServer noticedPasses (oneEntry ⟨"b".toList, "z.org".toList⟩)
    Drains (oneEntry ⟨"b".toList, "z.org".toList⟩) r.1 r.2 ∧ r.2.length = 3 := by
  refine ⟨(retry_queue_drains_iff relayServer _ noticedPasses
    (oneEntry_attempts (by decide +kernel)) ?_).mpr (by decide +kernel), by decide +kernel⟩
  simp [noticedPasses, passAt_succeeds]

-- what is left of `@x:@y:@z@z.org`
def routedRcpt : Mailbox := ⟨"@y:@z".toList, "z.org".toList⟩

def putOffOnce : List PassIo := [passAt 0 (by decide) (.deferred 450 "later".toList)]

/-- The record is read as `@z@z.org`, and as that it is written again: now it cannot be read, and
the entry is neither removed nor bounced nor due at any time. -/
theorem deferred_entry_is_lost :
    Mailbox.parse "@x:@y:@z@z.org".toList = .ok routedRcpt ∧
    (∀ id e, readCtrl (oneEntry routedRcpt).disk id = .ok e → e.attempts < maxAttempts) ∧
    (∀ io ∈ putOffOnce, io.Succeeds (oneEntry routedRcpt)) ∧
    ¬ Drains (oneEntry routedRcpt) (runWorker relayServer putOffOnce (oneEntry routedRcpt)).1
      (runWorker relayServer putOffOnce (oneEntry routedRcpt)).2 := by
  refine ⟨by decide +kernel, oneEntry_attempts (by decide +kernel), ?_, fun h => ?_⟩
  · simp [putOffOnce, passAt_succeeds]
  · have hlost : ∃ a ∈ (runWorker relayServer putOffOnce (oneEntry routedRcpt)).2,
        a.PutOff ∧ (readCtrl a.after a.id).toOption = none := by decide +kernel
    obtain ⟨a, ha, hputOff, hread⟩ := hlost
    obtain ⟨⟨e, he, -⟩, -⟩ := (h.left a ha).2.1 hputOff
    rw [he] at hread
    cases hread

end Snail.Server
