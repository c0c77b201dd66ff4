import Mathlib.Data.List.Perm.Subperm
import Snail.Reasoning.Lists

/-!
# Retry — jobs with a bounded number of tries

A queue of jobs, each of them tried until it is done or its tries are used up.  A job that is given
up may leave another one behind to tell of it, which leaves none itself.  The queue is a function of
the names of the jobs; a run is the list of the attempts, one job at a time.
-/

namespace Snail.Reasoning

structure Job where
  -- how often it has been put off
  tries : Nat
  -- whether it may leave another job behind
  notifies : Bool
  deriving DecidableEq, Repr

abbrev JobQueue (ι : Type) := ι → Option Job

/-- An attempt at a job, whether the job was put off by it, and the job it leaves behind. -/
structure Act (ι : Type) where
  id : ι
  deferred : Bool
  spawned : Option ι
  deriving DecidableEq, Repr

/-! ## 1. Runs -/

section
variable {ι : Type}

/-- What one attempt makes of the queue. -/
structure Step (limit : Nat) (q q' : JobQueue ι) (act : Act ι) (job : Job) : Prop where
  live : q act.id = some job
  ends : q' act.id = none ∨ act.deferred = true ∧ act.spawned = none ∧ job.tries + 1 < limit ∧
    q' act.id = some { job with tries := job.tries + 1 }
  leaves : ∀ new ∈ act.spawned, q new = none ∧ job.notifies = true ∧
    ∀ left ∈ q' new, left = ⟨0, false⟩
  frame : ∀ other, other ≠ act.id → other ∉ act.spawned → q' other = q other

-- a job can be dropped without an attempt
inductive Runs (limit : Nat) (q : JobQueue ι) : List (Act ι) → JobQueue ι → Prop where
  | nil : Runs limit q [] q
  | drop {acts : List (Act ι)} {q' q'' : JobQueue ι} (run : Runs limit q acts q') (id : ι)
      (gone : q'' id = none) (frame : ∀ other, other ≠ id → q'' other = q' other) :
      Runs limit q acts q''
  | snoc {acts : List (Act ι)} {act : Act ι} {job : Job} {q' q'' : JobQueue ι}
      (run : Runs limit q acts q') (step : Step limit q' q'' act job) :
      Runs limit q (acts ++ [act]) q''

def spawnedIn (acts : List (Act ι)) : List ι := acts.filterMap Act.spawned

-- the jobs that leave another one behind
def parentsIn (acts : List (Act ι)) : List ι := (acts.filter (·.spawned.isSome)).map Act.id

variable {limit : Nat} {q q' : JobQueue ι} {acts : List (Act ι)} {act : Act ι} {job : Job} {id : ι}

theorem spawnedIn_append (acts more : List (Act ι)) :
    spawnedIn (acts ++ more) = spawnedIn acts ++ spawnedIn more :=
  List.filterMap_append

theorem mem_spawnedIn_singleton : id ∈ spawnedIn [act] ↔ id ∈ act.spawned := by
  simp [spawnedIn]

theorem length_spawnedIn (acts : List (Act ι)) :
    (spawnedIn acts).length = (parentsIn acts).length := by
  induction acts with
  | nil => rfl
  | cons act acts ih =>
    obtain ⟨i, deferred, spawned⟩ := act
    cases spawned with
    | none => exact ih
    | some new => exact congrArg (· + 1) ih

-- a job that is not there can only be the one left behind
theorem Step.stays_none (h : Step limit q q' act job) (hnew : id ∉ act.spawned)
    (hnone : q id = none) : q' id = none := by
  have hne : id ≠ act.id := by
    rintro rfl
    rw [h.live] at hnone
    cases hnone
  rw [h.frame id hne hnew, hnone]

-- a run comes apart at each of its attempts
theorem Runs.split {pre post : List (Act ι)} (h : Runs limit q (pre ++ act :: post) q') :
    ∃ q₁ q₂ job, Runs limit q pre q₁ ∧ Step limit q₁ q₂ act job ∧ Runs limit q₂ post q' := by
  generalize hacts : pre ++ act :: post = acts at h
  induction h generalizing post with
  | nil => simp at hacts
  | drop hrun i hgone hframe ih =>
    obtain ⟨q₁, q₂, job, hpre, hact, hpost⟩ := ih hacts
    exact ⟨q₁, q₂, job, hpre, hact, .drop hpost i hgone hframe⟩
  | snoc hrun hstep ih =>
    cases post using List.reverseRecOn with
    | nil =>
      obtain ⟨rfl, hlast⟩ := List.append_inj' hacts rfl
      cases hlast
      exact ⟨_, _, _, hrun, hstep, .nil⟩
    | append_singleton post last =>
      rw [← List.cons_append, ← List.append_assoc] at hacts
      obtain ⟨hinit, hlast⟩ := List.append_inj' hacts rfl
      cases hlast
      obtain ⟨q₁, q₂, job, hpre, hact, hpost⟩ := ih hinit
      exact ⟨q₁, q₂, job, hpre, hact, .snoc hpost hstep⟩

end

/-! ## 2. One job -/

section
variable {ι : Type} [DecidableEq ι]

def tried (id : ι) (acts : List (Act ι)) : Nat := (acts.map Act.id).count id

def timesPutOff (id : ι) (acts : List (Act ι)) : Nat :=
  acts.countP fun act => act.id = id ∧ act.deferred = true

variable {limit : Nat} {q q' : JobQueue ι} {acts : List (Act ι)} {act : Act ι} {job : Job} {id : ι}

theorem tried_append (id : ι) (acts more : List (Act ι)) :
    tried id (acts ++ more) = tried id acts + tried id more := by
  simp [tried, List.count_append]

theorem timesPutOff_append (id : ι) (acts more : List (Act ι)) :
    timesPutOff id (acts ++ more) = timesPutOff id acts + timesPutOff id more :=
  List.countP_append

theorem tried_singleton (id : ι) (act : Act ι) :
    tried id [act] = if act.id = id then 1 else 0 := by
  simp [tried, List.count_singleton]

theorem timesPutOff_singleton (id : ι) (act : Act ι) :
    timesPutOff id [act] = if act.id = id ∧ act.deferred = true then 1 else 0 := by
  simp [timesPutOff, List.countP_singleton]

/-- A job that is not in the queue and does not come into it is not tried. -/
theorem Runs.gone (h : Runs limit q acts q') (hnone : q id = none)
    (hnew : id ∉ spawnedIn acts) :
    q' id = none ∧ tried id acts = 0 ∧ timesPutOff id acts = 0 := by
  induction h with
  | nil => exact ⟨hnone, rfl, rfl⟩
  | drop hrun i hgone hframe ih =>
    obtain ⟨hstill, hcounts⟩ := ih hnew
    refine ⟨?_, hcounts⟩
    by_cases hi : id = i
    · rw [hi, hgone]
    · rw [hframe id hi, hstill]
  | @snoc acts act job q₁ q₂ hrun hstep ih =>
    rw [spawnedIn_append, List.mem_append, not_or, mem_spawnedIn_singleton] at hnew
    obtain ⟨hgone, htried, hputOff⟩ := ih hnew.1
    have hne : act.id ≠ id := by
      rintro rfl
      rw [hstep.live] at hgone
      cases hgone
    rw [tried_append, timesPutOff_append, htried, hputOff, tried_singleton, timesPutOff_singleton,
      if_neg hne, if_neg fun h => hne h.1]
    exact ⟨hstep.stays_none hnew.2 hgone, rfl, rfl⟩

/-- A job of the queue is tried until the limit at most; as long as it is there, each try has put it
off once more. -/
theorem Runs.follow (h : Runs limit q acts q') (hjob : q id = some job)
    (hlt : job.tries < limit) (hnew : id ∉ spawnedIn acts) :
    job.tries + tried id acts ≤ limit ∧
      ∀ job', q' id = some job' → job'.tries = job.tries + timesPutOff id acts ∧
        tried id acts = timesPutOff id acts ∧ job'.tries < limit := by
  induction h with
  | nil =>
    refine ⟨Nat.le_of_lt hlt, fun job' hjob' => ?_⟩
    rw [hjob] at hjob'
    cases hjob'
    exact ⟨rfl, rfl, hlt⟩
  | drop hrun i hgone hframe ih =>
    obtain ⟨hbound, hlive⟩ := ih hnew
    refine ⟨hbound, fun job' hjob' => ?_⟩
    by_cases hi : id = i
    · rw [hi, hgone] at hjob'
      cases hjob'
    · rw [hframe id hi] at hjob'
      exact hlive job' hjob'
  | @snoc acts act before q₁ q₂ hrun hstep ih =>
    rw [spawnedIn_append, List.mem_append, not_or, mem_spawnedIn_singleton] at hnew
    obtain ⟨hbound, hlive⟩ := ih hnew.1
    rw [tried_append, timesPutOff_append, tried_singleton, timesPutOff_singleton]
    by_cases hi : act.id = id
    · have hbefore := hlive before (by rw [← hi]; exact hstep.live)
      rw [if_pos hi]
      refine ⟨by omega, fun job' hjob' => ?_⟩
      obtain hnone | ⟨hdeferred, -, hless, hagain⟩ := hstep.ends
      · rw [hi, hjob'] at hnone
        cases hnone
      · rw [hi, hjob'] at hagain
        cases hagain
        rw [if_pos ⟨hi, hdeferred⟩]
        dsimp only
        omega
    · rw [if_neg hi, if_neg fun h => hi h.1]
      refine ⟨hbound, fun job' hjob' => ?_⟩
      rw [hstep.frame id (Ne.symm hi) hnew.2] at hjob'
      exact hlive job' hjob'

/-- A job that another one leaves behind starts with no tries. -/
theorem Runs.born {pre post : List (Act ι)} (h : Runs limit q (pre ++ act :: post) q')
    (hlimit : 0 < limit) (hspawned : act.spawned = some id) (hnone : q id = none)
    (hpre : id ∉ spawnedIn pre) (hpost : id ∉ spawnedIn post) :
    tried id (pre ++ act :: post) ≤ limit ∧
      ∀ job, q' id = some job → job.tries = timesPutOff id (pre ++ act :: post) ∧
        job.tries < limit := by
  obtain ⟨q₁, q₂, parent, hbefore, hstep, hafter⟩ := h.split
  obtain ⟨hgone, htried, hputOff⟩ := hbefore.gone hnone hpre
  have hne : act.id ≠ id := by
    rintro rfl
    rw [hstep.live] at hgone
    cases hgone
  have htotal : tried id (pre ++ act :: post) = tried id post := by
    rw [← List.singleton_append, tried_append, tried_append, tried_singleton, htried, if_neg hne]
    omega
  have htotal' : timesPutOff id (pre ++ act :: post) = timesPutOff id post := by
    rw [← List.singleton_append, timesPutOff_append, timesPutOff_append, timesPutOff_singleton,
      hputOff, if_neg fun h => hne h.1]
    omega
  rw [htotal, htotal']
  cases hleft : q₂ id with
  | none =>
    obtain ⟨hend, hzero, -⟩ := hafter.gone hleft hpost
    refine ⟨by omega, fun job hjob => ?_⟩
    rw [hend] at hjob
    cases hjob
  | some left =>
    have hzero : left = ⟨0, false⟩ := (hstep.leaves id hspawned).2.2 left hleft
    obtain ⟨hbound, hlive⟩ := hafter.follow hleft (by rw [hzero]; exact hlimit) hpost
    rw [hzero] at hbound hlive
    dsimp only at hbound hlive
    refine ⟨by omega, fun job hjob => ?_⟩
    obtain ⟨htries, -, hlt⟩ := hlive job hjob
    exact ⟨by omega, hlt⟩

-- how often a job had been put off before the run
def startTries (q : JobQueue ι) (id : ι) : Nat := (q id).elim 0 Job.tries

/-- The account of one job, whether it is there from the start or left behind by another. -/
theorem Runs.account (h : Runs limit q acts q') (hlimit : 0 < limit)
    (hstart : ∀ id job, q id = some job → job.tries < limit) (hnodup : (spawnedIn acts).Nodup)
    (hfresh : ∀ new ∈ spawnedIn acts, q new = none) (id : ι) :
    startTries q id + tried id acts ≤ limit ∧
      ∀ job, q' id = some job → job.tries = startTries q id + timesPutOff id acts ∧
        job.tries < limit := by
  unfold startTries
  cases hjob : q id with
  | some job =>
    have hnew : id ∉ spawnedIn acts := by
      intro hmem
      rw [hfresh id hmem] at hjob
      cases hjob
    obtain ⟨hbound, hlive⟩ := h.follow hjob (hstart id job hjob) hnew
    exact ⟨hbound, fun job' hjob' => ⟨(hlive job' hjob').1, (hlive job' hjob').2.2⟩⟩
  | none =>
    dsimp only [Option.elim]
    rw [Nat.zero_add, Nat.zero_add]
    by_cases hmem : id ∈ spawnedIn acts
    · obtain ⟨act, hact, hspawned⟩ := List.mem_filterMap.mp hmem
      obtain ⟨pre, post, rfl⟩ := List.append_of_mem hact
      rw [spawnedIn, List.filterMap_append, List.filterMap_cons_some hspawned,
        List.nodup_append] at hnodup
      exact h.born hlimit hspawned hjob
        (fun hm => hnodup.2.2 id hm id List.mem_cons_self rfl) (List.nodup_cons.mp hnodup.2.1).1
    · obtain ⟨hend, hzero, -⟩ := h.gone hjob hmem
      refine ⟨by omega, fun job hjob' => ?_⟩
      rw [hend] at hjob'
      cases hjob'

/-! ## 3. All jobs -/

omit [DecidableEq ι] in
-- what is left behind does not notify
theorem Runs.notifies (h : Runs limit q acts q') (hjob : q' id = some job)
    (hnotifies : job.notifies = true) : ∃ first, q id = some first := by
  induction h generalizing job with
  | nil => exact ⟨job, hjob⟩
  | drop hrun i hgone hframe ih =>
    by_cases hi : id = i
    · rw [hi, hgone] at hjob
      cases hjob
    · rw [hframe id hi] at hjob
      exact ih hjob hnotifies
  | @snoc acts act before q₁ q₂ hrun hstep ih =>
    by_cases hi : id = act.id
    · obtain hnone | ⟨-, -, -, hagain⟩ := hstep.ends
      · rw [← hi, hjob] at hnone
        cases hnone
      · rw [← hi, hjob] at hagain
        cases hagain
        exact ih (show q₁ id = some before by rw [hi]; exact hstep.live) hnotifies
    · by_cases hspawned : id ∈ act.spawned
      · rw [(hstep.leaves id hspawned).2.2 job hjob] at hnotifies
        cases hnotifies
      · rw [hstep.frame id hi hspawned] at hjob
        exact ih hjob hnotifies

omit [DecidableEq ι] in
/-- A job leaves at most one behind, and only if it is there from the start. -/
theorem Runs.parents (h : Runs limit q acts q') (hfresh : ∀ new ∈ spawnedIn acts, q new = none) :
    (parentsIn acts).Nodup ∧ ∀ id ∈ parentsIn acts, q' id = none ∧ ∃ first, q id = some first := by
  induction h with
  | nil => exact ⟨List.nodup_nil, by simp [parentsIn]⟩
  | drop hrun i hgone hframe ih =>
    obtain ⟨hnodup, hparents⟩ := ih hfresh
    refine ⟨hnodup, fun id hid => ⟨?_, (hparents id hid).2⟩⟩
    by_cases hi : id = i
    · rw [hi, hgone]
    · rw [hframe id hi, (hparents id hid).1]
  | @snoc acts act job q₁ q₂ hrun hstep ih =>
    simp only [spawnedIn_append, List.mem_append, mem_spawnedIn_singleton] at hfresh
    obtain ⟨hnodup, hgone⟩ := ih fun new hnew => hfresh new (.inl hnew)
    have hstill : ∀ id ∈ parentsIn acts, q₂ id = none ∧ ∃ first, q id = some first := by
      intro id hid
      obtain ⟨hnone, first, hfirst⟩ := hgone id hid
      refine ⟨hstep.stays_none (fun hnew => ?_) hnone, first, hfirst⟩
      rw [hfresh id (.inr hnew)] at hfirst
      cases hfirst
    unfold parentsIn
    rw [List.filter_append, List.map_append]
    cases hspawned : act.spawned with
    | none =>
      rw [List.filter_cons_of_neg (by rw [hspawned]; simp), List.filter_nil, List.map_nil,
        List.append_nil]
      exact ⟨hnodup, hstill⟩
    | some new =>
      rw [List.filter_cons_of_pos (by rw [hspawned]; simp), List.filter_nil, List.map_singleton]
      have hlast : q₂ act.id = none := by
        obtain hnone | ⟨-, hnot, -⟩ := hstep.ends
        · exact hnone
        · rw [hspawned] at hnot
          cases hnot
      refine ⟨?_, ?_⟩
      · rw [List.nodup_append]
        refine ⟨hnodup, List.nodup_singleton _, ?_⟩
        rintro a ha b hb rfl
        have hlive := hstep.live
        rw [← List.mem_singleton.mp hb, (hgone a ha).1] at hlive
        cases hlive
      · intro id hid
        obtain hid | hid := List.mem_append.mp hid
        · exact hstill id hid
        · rw [List.mem_singleton.mp hid]
          exact ⟨hlast, hrun.notifies hstep.live (hstep.leaves new hspawned).2.1⟩

theorem Runs.length_spawnedIn_filter_le (h : Runs limit q acts q')
    (hfresh : ∀ new ∈ spawnedIn acts, q new = none) (id : ι) :
    (spawnedIn (acts.filter (·.id = id))).length ≤ 1 := by
  have hsub : (parentsIn (acts.filter (·.id = id))).Sublist (parentsIn acts) :=
    (List.filter_sublist.filter _).map _
  have hall : ∀ i ∈ parentsIn (acts.filter (·.id = id)), i = id := by
    intro i hi
    obtain ⟨act, hact, rfl⟩ := List.mem_map.mp hi
    have hid := List.mem_filter.mp (List.mem_of_mem_filter hact)
    exact of_decide_eq_true hid.2
  have hnodup := (h.parents hfresh).1.sublist hsub
  rw [List.eq_replicate_of_mem hall, List.nodup_replicate] at hnodup
  rw [length_spawnedIn]
  exact hnodup

omit [DecidableEq ι] in
/-- No more jobs are left behind than there are at the start. -/
theorem Runs.length_spawnedIn_le (h : Runs limit q acts q')
    (hfresh : ∀ new ∈ spawnedIn acts, q new = none) {ids : List ι}
    (hids : ∀ id, q id ≠ none → id ∈ ids) : (spawnedIn acts).length ≤ ids.length := by
  obtain ⟨hnodup, hparents⟩ := h.parents hfresh
  rw [length_spawnedIn]
  refine (hnodup.subperm fun id hid => ?_).length_le
  obtain ⟨-, first, hfirst⟩ := hparents id hid
  exact hids id (by rw [hfirst]; simp)

/-- All attempts together. -/
theorem Runs.length_le (h : Runs limit q acts q') (hlimit : 0 < limit)
    (hstart : ∀ id job, q id = some job → job.tries < limit) (hnodup : (spawnedIn acts).Nodup)
    (hfresh : ∀ new ∈ spawnedIn acts, q new = none) {ids : List ι}
    (hids : ∀ id, q id ≠ none → id ∈ ids) : acts.length ≤ limit * (2 * ids.length) := by
  have hmem : ∀ id ∈ acts.map Act.id, id ∈ ids ++ spawnedIn acts := by
    intro id hid
    by_contra hout
    rw [List.mem_append, not_or] at hout
    have hnone : q id = none := by
      by_contra hsome
      exact hout.1 (hids id hsome)
    have hzero := (h.gone hnone hout.2).2.1
    rw [tried, List.count_eq_zero] at hzero
    exact hzero hid
  have hcount : ∀ id ∈ ids ++ spawnedIn acts, (acts.map Act.id).count id ≤ limit := by
    intro id _
    have haccount := (h.account hlimit hstart hnodup hfresh id).1
    exact le_trans (Nat.le_add_left _ _) haccount
  calc acts.length
      = (acts.map Act.id).length := (List.length_map _).symm
    _ ≤ limit * (ids ++ spawnedIn acts).length := length_le_mul_of_count_le hmem hcount
    _ ≤ limit * (2 * ids.length) := by
        have hspawned := h.length_spawnedIn_le hfresh hids
        rw [List.length_append]
        exact Nat.mul_le_mul_left _ (by omega)

end

end Snail.Reasoning
