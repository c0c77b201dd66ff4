import Snail.Reasoning.Limiter
import Snail.Security.Window

/-!
# ThrottleRuns — the throttle as an automaton for each address

Sequences of the calls of `crates/security/src/throttle.rs` on any addresses.  What the throttle
answers for an address is the state of a limiter over the calls for that address.
-/

open Snail.Reasoning

namespace Snail.Security

/-! ## 1. Calls -/

inductive ThrottleCall where
  | check (ip : IpAddr) (now : SystemTime)
  | failure (ip : IpAddr) (now : SystemTime)
  | success (ip : IpAddr)

def ThrottleCall.ip : ThrottleCall → IpAddr
  | .check ip _ => ip
  | .failure ip _ => ip
  | .success ip => ip

-- `record_success` does not ask for the time
def ThrottleCall.time? : ThrottleCall → Option SystemTime
  | .check _ now => some now
  | .failure _ now => some now
  | .success _ => none

def ThrottleCall.run (config : ThrottleConfig) (t : Throttle) : ThrottleCall → Throttle
  | .check _ _ => t
  | .failure ip now => t.recordFailureAt config ip now
  | .success ip => t.recordSuccess ip

-- the state behind the calls, from an empty throttle on
def throttleAfter (config : ThrottleConfig) (calls : List ThrottleCall) : Throttle :=
  calls.foldl (ThrottleCall.run config) ∅

def ThrottleCall.answer? (t : Throttle) : ThrottleCall → Option (IpAddr × Bool)
  | .check ip now => some (ip, t.checkAt ip now)
  | .failure _ _ => none
  | .success _ => none

-- what the calls of `check_at` return
def throttleAnswers (config : ThrottleConfig) : Throttle → List ThrottleCall → List (IpAddr × Bool)
  | _, [] => []
  | t, call :: calls => (call.answer? t).toList ++ throttleAnswers config (call.run config t) calls

/-- The times of the calls do not decrease. -/
def Ordered (calls : List ThrottleCall) : Prop :=
  (calls.filterMap ThrottleCall.time?).Pairwise fun t u => t.sinceEpoch ≤ u.sinceEpoch

/-! ## 2. The limiter of an address -/

def ThrottleCall.signal? (ip : IpAddr) : ThrottleCall → Option (Signal SystemTime)
  | .check _ _ => none
  | .failure other now => if other = ip then some (.failure now) else none
  | .success other => if other = ip then some .reset else none

-- what the throttle is told about an address
def signals (ip : IpAddr) (calls : List ThrottleCall) : List (Signal SystemTime) :=
  calls.filterMap (ThrottleCall.signal? ip)

-- the limit is at least one
def ThrottleConfig.limit (config : ThrottleConfig) : Nat := max config.maxFailures 1

/-- A lockout has gone by. -/
def ThrottleConfig.spent (config : ThrottleConfig) (last now : SystemTime) : Bool :=
  last.sinceEpoch + (config.lockout : Int) ≤ now.sinceEpoch

-- the failures counted since the last reset
def ThrottleConfig.window (config : ThrottleConfig) (s : List (Signal SystemTime)) :
    List SystemTime :=
  counted config.limit config.spent s

section
variable {config : ThrottleConfig} {window : List SystemTime} {clock : Int}
  {entry : Option Attempt} {now t last : SystemTime}

/-- The record holds the window that was last counted at `last`: the failures, or the lockout from
`last` on. -/
def Attempt.Holds (config : ThrottleConfig) (window : List SystemTime) (last : SystemTime)
    (a : Attempt) : Prop :=
  (last.checkedAdd config.lockout).isSome ∧
    (window.length < config.limit ∧ a.lockedUntil = none ∧ a.failures = window.length ∧
        a.lastSeen = last ∨
      config.limit ≤ window.length ∧ a.lockedUntil = last.checkedAdd config.lockout)

-- no lockout reaches past `clock`
def Unlocked (clock : Int) (entry : Option Attempt) : Prop :=
  ∀ a ∈ entry, ∀ d ∈ a.lockedUntil, d.sinceEpoch ≤ clock

/-- The record of an address behind a window of its failures: it holds the window; or it was dropped
when the window was spent; or the end of the lockout cannot be represented, and there is none. -/
def Tracks (config : ThrottleConfig) (window : List SystemTime) (clock : Int)
    (entry : Option Attempt) : Prop :=
  match window.getLast? with
  | none => entry = none
  | some last =>
      last.sinceEpoch ≤ clock ∧
        ((∃ a, entry = some a ∧ a.Holds config window last) ∨
          (entry = none ∧ last.sinceEpoch + (config.lockout : Int) ≤ clock) ∨
          (last.checkedAdd config.lockout = none ∧ Unlocked clock entry))

theorem Tracks.later (h : Tracks config window clock entry) {clock' : Int} (hle : clock ≤ clock') :
    Tracks config window clock' entry := by
  unfold Tracks at h ⊢
  cases hlast : window.getLast? with
  | none =>
    rw [hlast] at h
    exact h
  | some last =>
    rw [hlast] at h
    obtain ⟨hbefore, hcases⟩ := h
    refine ⟨by omega, ?_⟩
    rcases hcases with hholds | ⟨hnone, hspent⟩ | ⟨hend, hunlocked⟩
    · exact .inl hholds
    · exact .inr (.inl ⟨hnone, by omega⟩)
    · refine .inr (.inr ⟨hend, ?_⟩)
      intro a ha d hd
      have := hunlocked a ha d hd
      omega

theorem Attempt.locked_iff {a : Attempt} :
    a.locked t = true ↔ ∃ d, a.lockedUntil = some d ∧ t.sinceEpoch < d.sinceEpoch := by
  unfold Attempt.locked
  rw [Option.any_eq_true]
  simp only [SystemTime.lt_iff]

theorem Unlocked.not_locked (h : Unlocked clock entry) (hle : clock ≤ t.sinceEpoch) :
    ∀ a ∈ entry, a.locked t = false := by
  intro a ha
  rw [← Bool.not_eq_true, Attempt.locked_iff]
  rintro ⟨d, hd, hlt⟩
  have := h a ha d hd
  omega

theorem Attempt.Holds.locked_iff {a : Attempt} (h : a.Holds config window last) :
    a.locked t = true ↔ config.limit ≤ window.length ∧ config.spent last t = false := by
  obtain ⟨hend, hcases⟩ := h
  obtain ⟨d, hd⟩ := Option.isSome_iff_exists.mp hend
  have hsum := SystemTime.sinceEpoch_checkedAdd hd
  have hspent : config.spent last t = false ↔ t.sinceEpoch < d.sinceEpoch := by
    unfold ThrottleConfig.spent
    rw [decide_eq_false_iff_not]
    omega
  rw [Attempt.locked_iff, hspent]
  rcases hcases with ⟨hshort, hnone, -, -⟩ | ⟨hfull, hlocked⟩
  · rw [hnone]
    constructor
    · rintro ⟨e, he, -⟩
      cases he
    · rintro ⟨hfull, -⟩
      omega
  · rw [hlocked, hd]
    constructor
    · rintro ⟨e, he, hlt⟩
      cases he
      exact ⟨hfull, hlt⟩
    · rintro ⟨-, hlt⟩
      exact ⟨d, rfl, hlt⟩

-- a record that is dropped belongs to a window that is spent
theorem Attempt.Holds.spent_of_not_live {a : Attempt} (h : a.Holds config window last)
    (hlive : a.live config.lockout now = false) : config.spent last now = true := by
  have hunlocked : ¬ a.locked now = true := by
    intro hlocked
    unfold Attempt.live at hlive
    rw [hlocked] at hlive
    cases hlive
  rcases h.2 with ⟨-, -, -, hseen⟩ | ⟨hfull, -⟩
  · obtain ⟨d, hd⟩ := Option.isSome_iff_exists.mp h.1
    have hsum := SystemTime.sinceEpoch_checkedAdd hd
    rw [← Bool.not_eq_true, Attempt.live_iff] at hlive
    unfold ThrottleConfig.spent
    rw [decide_eq_true_iff]
    by_contra hlt
    exact hlive (.inr ⟨d, by rw [hseen, hd], by omega⟩)
  · rw [h.locked_iff] at hunlocked
    cases hspent : config.spent last now with
    | true => rfl
    | false => exact absurd ⟨hfull, hspent⟩ hunlocked

theorem Attempt.Holds.counted_of_spent {a : Attempt} (h : a.Holds config window last)
    (hspent : config.spent last now = true) (hlive : a.live config.lockout now = true) :
    a.counted = 0 := by
  unfold Attempt.counted
  obtain ⟨-, hnone, -, hseen⟩ | ⟨-, hlocked⟩ := h.2
  · -- it would have been dropped
    exfalso
    unfold ThrottleConfig.spent at hspent
    rw [decide_eq_true_iff] at hspent
    rcases Attempt.live_iff.mp hlive with ⟨d, hd, -⟩ | ⟨d, hd, hlt⟩
    · rw [hnone] at hd
      cases hd
    · rw [hseen] at hd
      have hsum := SystemTime.sinceEpoch_checkedAdd hd
      omega
  · rw [hlocked, if_pos h.1]

/-- Pruning, by whichever address. -/
theorem Tracks.prune (h : Tracks config window clock entry) (hle : clock ≤ now.sinceEpoch) :
    Tracks config window now.sinceEpoch (entry.filter (Attempt.live config.lockout now)) := by
  have h := h.later hle
  unfold Tracks at h ⊢
  cases hlast : window.getLast? with
  | none =>
    rw [hlast] at h
    rw [show entry = none from h]
    rfl
  | some last =>
    rw [hlast] at h
    obtain ⟨hbefore, hcases⟩ := h
    refine ⟨hbefore, ?_⟩
    rcases hcases with ⟨a, rfl, hholds⟩ | ⟨rfl, hspent⟩ | ⟨hend, hunlocked⟩
    · cases hlive : a.live config.lockout now with
      | true => exact .inl ⟨a, Option.filter_eq_some_iff.mpr ⟨rfl, hlive⟩, hholds⟩
      | false =>
        refine .inr (.inl ⟨?_, ?_⟩)
        · rw [Option.filter_some, hlive]
          rfl
        · exact decide_eq_true_iff.mp (hholds.spent_of_not_live hlive)
    · exact .inr (.inl ⟨rfl, hspent⟩)
    · refine .inr (.inr ⟨hend, ?_⟩)
      intro a ha
      exact hunlocked a (Option.filter_eq_some_iff.mp ha).1

theorem Attempt.fail_of_not_locked {a : Attempt} (h : a.locked now = false) :
    a.fail config now = ⟨a.counted + 1, if a.counted + 1 ≥ config.maxFailures then
      now.checkedAdd config.lockout else none, now⟩ := by
  unfold Attempt.fail
  rw [if_neg (by rw [h]; exact Bool.false_ne_true)]
  rfl

-- the record of a failure that is counted
theorem Attempt.Holds.of_counted {n : Nat} (hn : window.length = n + 1)
    (hend : (now.checkedAdd config.lockout).isSome) :
    Attempt.Holds config window now ⟨n + 1, if n + 1 ≥ config.maxFailures then
      now.checkedAdd config.lockout else none, now⟩ := by
  have hlimit : config.limit ≤ window.length ↔ n + 1 ≥ config.maxFailures := by
    unfold ThrottleConfig.limit
    omega
  refine ⟨hend, ?_⟩
  by_cases hfull : n + 1 ≥ config.maxFailures
  · rw [if_pos hfull]
    exact .inr ⟨hlimit.mpr hfull, rfl⟩
  · rw [if_neg hfull]
    exact .inl ⟨by rw [← hlimit] at hfull; omega, rfl, hn.symm, rfl⟩

theorem Tracks.of_counted {n : Nat} (hlast : window.getLast? = some now)
    (hn : window.length = n + 1) :
    Tracks config window now.sinceEpoch (some ⟨n + 1, if n + 1 ≥ config.maxFailures then
      now.checkedAdd config.lockout else none, now⟩) := by
  unfold Tracks
  rw [hlast]
  refine ⟨le_refl _, ?_⟩
  cases hend : now.checkedAdd config.lockout with
  | some d =>
    have hholds : Attempt.Holds config window now _ := .of_counted hn (by rw [hend]; rfl)
    rw [hend] at hholds
    exact .inl ⟨_, rfl, hholds⟩
  | none =>
    refine .inr (.inr ⟨rfl, ?_⟩)
    intro a ha d hd
    cases ha
    simp at hd

theorem countSignal_of_spent (h : ∀ last ∈ window.getLast?, config.spent last now = true) :
    countSignal config.limit config.spent window (.failure now) = [now] := by
  unfold countSignal
  cases hlast : window.getLast? with
  | none => rfl
  | some last => exact if_pos (h last hlast)

-- a record that is fresh, or begins anew
theorem Tracks.fail_fresh (hspent : ∀ last ∈ window.getLast?, config.spent last now = true)
    (hunlocked : ∀ a ∈ entry, a.locked now = false)
    (hcounted : ∀ a ∈ entry, a.live config.lockout now = true → a.counted = 0) :
    Tracks config (countSignal config.limit config.spent window (.failure now)) now.sinceEpoch
      (some (failed config entry now)) := by
  have hbase : ((entry.filter (Attempt.live config.lockout now)).getD ⟨0, none, now⟩).locked now =
      false ∧ ((entry.filter (Attempt.live config.lockout now)).getD ⟨0, none, now⟩).counted =
      0 := by
    cases hfilter : entry.filter (Attempt.live config.lockout now) with
    | none => exact ⟨rfl, rfl⟩
    | some a =>
      obtain ⟨ha, hlive⟩ := Option.filter_eq_some_iff.mp hfilter
      exact ⟨hunlocked a ha, hcounted a ha hlive⟩
  rw [countSignal_of_spent hspent, failed, Attempt.fail_of_not_locked hbase.1, hbase.2]
  exact Tracks.of_counted rfl rfl

theorem failed_of_live {a : Attempt} (h : a.live config.lockout now = true) :
    failed config (some a) now = a.fail config now := by
  rw [failed, Option.filter_some, if_pos h]
  rfl

theorem Attempt.Holds.live {a : Attempt} (h : a.Holds config window last)
    (hspent : config.spent last now = false) : a.live config.lockout now = true := by
  cases hlive : a.live config.lockout now with
  | true => rfl
  | false =>
    rw [h.spent_of_not_live hlive] at hspent
    cases hspent

-- under a lockout nothing is counted
theorem Attempt.Holds.fail_full {a : Attempt} (h : a.Holds config window last)
    (hspent : config.spent last now = false) (hfull : config.limit ≤ window.length) :
    (a.fail config now).Holds config window last := by
  have hlocked : a.locked now = true := h.locked_iff.mpr ⟨hfull, hspent⟩
  rw [Attempt.fail, if_pos hlocked]
  refine ⟨h.1, ?_⟩
  rcases h.2 with ⟨hshort, -⟩ | hrest
  · omega
  · exact .inr hrest

theorem Attempt.Holds.fail_short {a : Attempt} (h : a.Holds config window last)
    (hshort : window.length < config.limit) :
    a.fail config now = ⟨window.length + 1, if window.length + 1 ≥ config.maxFailures then
      now.checkedAdd config.lockout else none, now⟩ := by
  obtain ⟨-, hnone, hfailures, -⟩ | ⟨hthere, -⟩ := h.2
  · have hopen : a.locked now = false := by
      rw [Attempt.locked, hnone]
      rfl
    have hcounted : a.counted = window.length := by
      rw [Attempt.counted, hnone]
      exact hfailures
    rw [Attempt.fail_of_not_locked hopen, hcounted]
  · omega

-- a failure within the window
theorem Tracks.fail_holds {a : Attempt} (hlast : window.getLast? = some last)
    (hle : last.sinceEpoch ≤ now.sinceEpoch) (h : a.Holds config window last)
    (hspent : config.spent last now = false) :
    Tracks config (countSignal config.limit config.spent window (.failure now)) now.sinceEpoch
      (some (failed config (some a) now)) := by
  have hcount : countSignal config.limit config.spent window (.failure now) =
      if config.limit ≤ window.length then window else window ++ [now] := by
    unfold countSignal
    rw [hlast]
    exact if_neg (by rw [hspent]; exact Bool.false_ne_true)
  rw [failed_of_live (h.live hspent), hcount]
  by_cases hfull : config.limit ≤ window.length
  · rw [if_pos hfull]
    unfold Tracks
    rw [hlast]
    exact ⟨hle, .inl ⟨_, rfl, h.fail_full hspent hfull⟩⟩
  · rw [if_neg hfull, h.fail_short (by omega)]
    exact Tracks.of_counted List.getLast?_concat (by simp)

-- past the last point in time that a lockout can end at
theorem Tracks.fail_unrepresentable (hlast : window.getLast? = some last)
    (hle : last.sinceEpoch ≤ now.sinceEpoch) (hend : last.checkedAdd config.lockout = none)
    (hunlocked : ∀ a ∈ entry, a.locked now = false) :
    Tracks config (countSignal config.limit config.spent window (.failure now)) now.sinceEpoch
      (some (failed config entry now)) := by
  have hend' := SystemTime.checkedAdd_eq_none_of_le hend hle
  have hnone : (failed config entry now).lockedUntil = none := by
    rw [failed, Attempt.fail_of_not_locked (not_locked_base (le_refl now.sinceEpoch) hunlocked),
      hend', ite_self]
  have hunlocked' : Unlocked now.sinceEpoch (some (failed config entry now)) := by
    intro a ha d hd
    cases ha
    rw [hnone] at hd
    cases hd
  unfold Tracks
  rcases countSignal_failure_cases config.limit config.spent window now with
    ⟨-, -, -, -, hsame⟩ | ⟨hnow, -⟩
  · rw [hsame, hlast]
    exact ⟨hle, .inr (.inr ⟨hend, hunlocked'⟩)⟩
  · rw [hnow]
    exact ⟨le_refl _, .inr (.inr ⟨hend', hunlocked'⟩)⟩

/-- A failure of the address itself. -/
theorem Tracks.fail (h : Tracks config window clock entry) (hle : clock ≤ now.sinceEpoch) :
    Tracks config (countSignal config.limit config.spent window (.failure now)) now.sinceEpoch
      (some (failed config entry now)) := by
  have h := h.later hle
  unfold Tracks at h
  cases hlast : window.getLast? with
  | none =>
    rw [hlast] at h
    rw [show entry = none from h]
    exact Tracks.fail_fresh (by simp [hlast]) (by simp) (by simp)
  | some last =>
    rw [hlast] at h
    obtain ⟨hbefore, ⟨a, rfl, hholds⟩ | ⟨rfl, hspent⟩ | ⟨hend, hunlocked⟩⟩ := h
    · cases hspent : config.spent last now with
      | true =>
        -- the window is over, and so is a lockout
        have hopen : a.locked now = false := by
          rw [← Bool.not_eq_true, hholds.locked_iff, hspent]
          simp
        refine Tracks.fail_fresh (by simpa [hlast] using hspent) (by simpa using hopen) ?_
        intro b hb hlive
        cases hb
        exact hholds.counted_of_spent hspent hlive
      | false => exact Tracks.fail_holds hlast hbefore hholds hspent
    · have hover : config.spent last now = true := decide_eq_true_iff.mpr hspent
      exact Tracks.fail_fresh (by simpa [hlast] using hover) (by simp) (by simp)
    · exact Tracks.fail_unrepresentable hlast hbefore hend (hunlocked.not_locked (le_refl _))

/-- The answer for the address. -/
theorem Tracks.check (h : Tracks config window clock entry) (hle : clock ≤ t.sinceEpoch) :
    (entry.all fun a => !a.locked t) = false ↔
      ∃ s, ClosedBy config.limit config.spent window s t ∧
        (s.checkedAdd config.lockout).isSome := by
  have h := h.later hle
  unfold Tracks at h
  unfold ClosedBy
  cases hlast : window.getLast? with
  | none =>
    rw [hlast] at h
    rw [show entry = none from h]
    simp
  | some last =>
    rw [hlast] at h
    have hs : (∃ s, (some last = some s ∧ config.limit ≤ window.length ∧
        config.spent s t = false) ∧ (s.checkedAdd config.lockout).isSome) ↔
        (config.limit ≤ window.length ∧ config.spent last t = false) ∧
          (last.checkedAdd config.lockout).isSome := by
      constructor
      · rintro ⟨s, ⟨he, hrest⟩, hend⟩
        cases he
        exact ⟨hrest, hend⟩
      · rintro ⟨hrest, hend⟩
        exact ⟨last, ⟨rfl, hrest⟩, hend⟩
    rw [hs]
    obtain ⟨hbefore, ⟨a, rfl, hholds⟩ | ⟨rfl, hspent⟩ | ⟨hend, hunlocked⟩⟩ := h
    · rw [and_iff_left hholds.1, ← hholds.locked_iff]
      simp
    · rw [show config.spent last t = true from decide_eq_true_iff.mpr hspent]
      simp
    · rw [hend]
      have hopen := hunlocked.not_locked (le_refl _)
      cases entry with
      | none => simp
      | some a => simp [hopen a rfl]

end

/-! ## 3. Runs -/

section
variable {config : ThrottleConfig} {calls : List ThrottleCall} {ip : IpAddr} {clock : Int}
  {t : SystemTime}

theorem throttleAfter_concat (config : ThrottleConfig) (calls : List ThrottleCall)
    (call : ThrottleCall) :
    throttleAfter config (calls ++ [call]) = call.run config (throttleAfter config calls) := by
  unfold throttleAfter
  rw [List.foldl_append]
  rfl

theorem signals_concat (ip : IpAddr) (calls : List ThrottleCall) (call : ThrottleCall) :
    signals ip (calls ++ [call]) = signals ip calls ++ (call.signal? ip).toList := by
  unfold signals
  rw [List.filterMap_append]
  cases h : call.signal? ip with
  | none => simp [h]
  | some s => simp [h]

-- every call so far was made by `clock`
def DoneBy (clock : Int) (calls : List ThrottleCall) : Prop :=
  ∀ call ∈ calls, ∀ now ∈ call.time?, now.sinceEpoch ≤ clock

theorem doneBy_iff : DoneBy clock calls ↔
    ∀ now ∈ calls.filterMap ThrottleCall.time?, now.sinceEpoch ≤ clock := by
  unfold DoneBy
  simp only [List.mem_filterMap, Option.mem_def]
  constructor
  · rintro h now ⟨call, hcall, hnow⟩
    exact h call hcall now hnow
  · intro h call hcall now hnow
    exact h now ⟨call, hcall, hnow⟩

theorem ordered_append_cons {call : ThrottleCall} {after : List ThrottleCall}
    (h : Ordered (calls ++ call :: after)) :
    Ordered calls ∧ ∀ now ∈ call.time?, DoneBy now.sinceEpoch calls := by
  unfold Ordered at h
  rw [List.filterMap_append, List.pairwise_append] at h
  refine ⟨h.1, ?_⟩
  intro now hnow
  rw [doneBy_iff]
  intro u hu
  exact h.2.2 u hu now (List.mem_filterMap.mpr ⟨call, List.mem_cons_self, hnow⟩)

/-- The record of an address tracks the calls for it. -/
theorem tracks_throttleAfter (hordered : Ordered calls) (hdone : DoneBy clock calls) :
    Tracks config (config.window (signals ip calls)) clock
      ((throttleAfter config calls).lookup ip) := by
  induction calls using List.reverseRecOn generalizing clock with
  | nil => exact rfl
  | append_singleton calls call ih =>
    obtain ⟨hbefore, htime⟩ := ordered_append_cons hordered
    have hcalls : DoneBy clock calls := fun c hc => hdone c (List.mem_append_left _ hc)
    have hcall := hdone call (by simp)
    rw [throttleAfter_concat, signals_concat]
    cases call with
    | check other now =>
      rw [ThrottleCall.signal?, Option.toList_none, List.append_nil]
      exact ih hbefore hcalls
    | failure other now =>
      have hnow := ih hbefore (htime now rfl)
      have hlater : now.sinceEpoch ≤ clock := hcall now rfl
      by_cases hother : other = ip
      · subst hother
        rw [ThrottleCall.signal?, if_pos rfl, Option.toList_some, ThrottleConfig.window,
          counted_concat, ThrottleCall.run, Throttle.lookup_recordFailureAt]
        refine Tracks.later ?_ hlater
        exact hnow.fail (le_refl _)
      · rw [ThrottleCall.signal?, if_neg hother, Option.toList_none, List.append_nil,
          ThrottleCall.run, Throttle.lookup_recordFailureAt_of_ne _ _ _ (Ne.symm hother)]
        refine Tracks.later ?_ hlater
        exact hnow.prune (le_refl _)
    | success other =>
      by_cases hother : other = ip
      · subst hother
        rw [ThrottleCall.signal?, if_pos rfl, Option.toList_some, ThrottleConfig.window,
          counted_concat, ThrottleCall.run]
        exact Throttle.lookup_recordSuccess _ other
      · rw [ThrottleCall.signal?, if_neg hother, Option.toList_none, List.append_nil,
          ThrottleCall.run, Throttle.lookup_recordSuccess_of_ne _ (Ne.symm hother)]
        exact ih hbefore hcalls

theorem checkAt_throttleAfter (hordered : Ordered calls) (hdone : DoneBy t.sinceEpoch calls) :
    (throttleAfter config calls).checkAt ip t = false ↔
      ∃ s, ClosedBy config.limit config.spent (config.window (signals ip calls)) s t ∧
        (s.checkedAdd config.lockout).isSome :=
  (tracks_throttleAfter hordered hdone).check (le_refl _)

/-! ## 4. Lockouts -/

/-- At `t` the address is locked out by the failure at `s`: that was counted as the last one up to
the limit, less than a lockout ago, and there was no success since. -/
def LockedBy (config : ThrottleConfig) (own : List (Signal SystemTime)) (s t : SystemTime) : Prop :=
  Since (fun before e => e = .failure s ∧ IsLimit config.limit config.spent before s)
      (· ≠ .reset) own ∧
    s.sinceEpoch ≤ t.sinceEpoch ∧ t.sinceEpoch < s.sinceEpoch + (config.lockout : Int)

theorem failure_mem_of_mem_signals {now : SystemTime} (h : .failure now ∈ signals ip calls) :
    .failure ip now ∈ calls := by
  obtain ⟨call, hcall, hsignal⟩ := List.mem_filterMap.mp h
  cases call with
  | check other u => cases hsignal
  | failure other u =>
    by_cases hother : other = ip
    · rw [ThrottleCall.signal?, if_pos hother] at hsignal
      cases hsignal
      rwa [← hother]
    · rw [ThrottleCall.signal?, if_neg hother] at hsignal
      cases hsignal
  | success other =>
    by_cases hother : other = ip
    · rw [ThrottleCall.signal?, if_pos hother] at hsignal
      cases hsignal
    · rw [ThrottleCall.signal?, if_neg hother] at hsignal
      cases hsignal

theorem lockedBy_iff (hdone : DoneBy t.sinceEpoch calls) (s : SystemTime) :
    LockedBy config (signals ip calls) s t ↔
      ClosedBy config.limit config.spent (config.window (signals ip calls)) s t := by
  have hby : ∀ now, .failure now ∈ signals ip calls → now.sinceEpoch ≤ t.sinceEpoch := by
    intro now hnow
    exact hdone _ (failure_mem_of_mem_signals hnow) now rfl
  have hlimit : 1 ≤ config.limit := le_max_right _ _
  have hlater : ∀ last now, .failure now ∈ signals ip calls → config.spent last now = true →
      config.spent last t = true := by
    intro last now hnow hspent
    have := hby now hnow
    unfold ThrottleConfig.spent at hspent ⊢
    rw [decide_eq_true_iff] at hspent ⊢
    omega
  unfold ThrottleConfig.window LockedBy
  rw [closedBy_counted_iff hlimit hlater]
  have hopen : config.spent s t = false ↔ t.sinceEpoch < s.sinceEpoch + (config.lockout : Int) := by
    unfold ThrottleConfig.spent
    rw [decide_eq_false_iff_not, not_le]
  rw [hopen]
  constructor
  · rintro ⟨hsince, -, hlt⟩
    exact ⟨hsince, hlt⟩
  · rintro ⟨hsince, hlt⟩
    obtain ⟨before, e, after, hown, ⟨rfl, -⟩, -⟩ := id hsince
    exact ⟨hsince, hby s (by rw [hown]; simp), hlt⟩

theorem checkAt_iff_lockedBy (hordered : Ordered calls) (hdone : DoneBy t.sinceEpoch calls) :
    (throttleAfter config calls).checkAt ip t = false ↔
      ∃ s, LockedBy config (signals ip calls) s t ∧ (s.checkedAdd config.lockout).isSome := by
  rw [checkAt_throttleAfter hordered hdone]
  exact exists_congr fun s => and_congr_left' (lockedBy_iff hdone s).symm

theorem throttleAnswers_append (s : Throttle) (first rest : List ThrottleCall) :
    throttleAnswers config s (first ++ rest) = throttleAnswers config s first ++
      throttleAnswers config (first.foldl (ThrottleCall.run config) s) rest := by
  induction first generalizing s with
  | nil => rfl
  | cons call first ih =>
    rw [List.cons_append, throttleAnswers, ih, ← List.append_assoc]
    rfl

theorem signals_filter (ip : IpAddr) (calls : List ThrottleCall) :
    signals ip (calls.filter fun c => c.ip = ip) = signals ip calls := by
  unfold signals
  rw [List.filterMap_filter]
  apply List.filterMap_congr
  intro call _
  by_cases hip : call.ip = ip
  · simp [hip]
  · rw [if_neg (by simpa using hip)]
    cases call with
    | check other now => rfl
    | failure other now => exact (if_neg hip).symm
    | success other => exact (if_neg hip).symm

theorem Ordered.filter (h : Ordered calls) (p : ThrottleCall → Bool) :
    Ordered (calls.filter p) :=
  h.sublist (List.filter_sublist.filterMap _)

-- the calls for other addresses make no difference to an answer
theorem checkAt_filter (hordered : Ordered calls) (hdone : DoneBy t.sinceEpoch calls) :
    (throttleAfter config (calls.filter fun c => c.ip = ip)).checkAt ip t =
      (throttleAfter config calls).checkAt ip t := by
  have hown : (throttleAfter config (calls.filter fun c => c.ip = ip)).checkAt ip t = false ↔
      (throttleAfter config calls).checkAt ip t = false := by
    rw [checkAt_iff_lockedBy (hordered.filter _) fun c hc => hdone c (List.mem_filter.mp hc).1,
      checkAt_iff_lockedBy hordered hdone, signals_filter]
  cases hall : (throttleAfter config calls).checkAt ip t with
  | false => exact hown.mpr hall
  | true =>
    rw [← Bool.not_eq_false, hown, hall]
    exact Bool.noConfusion

theorem answer?_filter {call : ThrottleCall} (hordered : Ordered calls)
    (hdone : ∀ now ∈ call.time?, DoneBy now.sinceEpoch calls) :
    call.answer? (throttleAfter config (calls.filter fun c => c.ip = call.ip)) =
      call.answer? (throttleAfter config calls) := by
  cases call with
  | failure ip now => rfl
  | success ip => rfl
  | check ip now => exact congrArg (fun b => some (ip, b)) (checkAt_filter hordered (hdone now rfl))

theorem ip_of_answer? {call : ThrottleCall} {s : Throttle} {a : IpAddr × Bool}
    (h : a ∈ (call.answer? s).toList) : a.1 = call.ip := by
  cases call with
  | failure ip now => cases h
  | success ip => cases h
  | check ip now =>
    rw [show a = (ip, s.checkAt ip now) from List.mem_singleton.mp h]
    rfl

/-- What is answered for an address is what would be answered if there were no other. -/
theorem throttleAnswers_filter (hordered : Ordered calls) (ip : IpAddr) :
    (throttleAnswers config ∅ calls).filter (fun a => a.1 = ip) =
      throttleAnswers config ∅ (calls.filter fun c => c.ip = ip) := by
  induction calls using List.reverseRecOn with
  | nil => rfl
  | append_singleton calls call ih =>
    obtain ⟨hbefore, htime⟩ := ordered_append_cons hordered
    have hlast : throttleAnswers config (throttleAfter config calls) [call] =
        (call.answer? (throttleAfter config calls)).toList := List.append_nil _
    rw [throttleAnswers_append, List.filter_append, List.filter_append, throttleAnswers_append,
      ih hbefore, ← throttleAfter, ← throttleAfter, hlast]
    congr 1
    by_cases hip : call.ip = ip
    · subst hip
      rw [List.filter_eq_self.mpr fun a ha => decide_eq_true (ip_of_answer? ha),
        ← answer?_filter hbefore htime, List.filter_cons_of_pos (by simp)]
      exact (List.append_nil _).symm
    · rw [List.filter_eq_nil_iff.mpr, List.filter_cons_of_neg (by simpa using hip)]
      · rfl
      · intro a ha
        rw [ip_of_answer? ha]
        simpa using hip

/-- The answers for an address are its own affair; and the throttle refuses it exactly under a
lockout, if and only if each lockout it is asked about ends at a time that can be represented. -/
theorem throttle_automaton_iff (config : ThrottleConfig) (hordered : Ordered calls) (ip : IpAddr) :
    (throttleAnswers config ∅ calls).filter (fun a => a.1 = ip) =
        throttleAnswers config ∅ (calls.filter fun c => c.ip = ip) ∧
      ((∀ before t after, calls = before ++ .check ip t :: after →
          ((throttleAfter config before).checkAt ip t = false ↔
            ∃ s, LockedBy config (signals ip before) s t)) ↔
        ∀ before t after, calls = before ++ .check ip t :: after →
          ∀ s, LockedBy config (signals ip before) s t →
            (s.checkedAdd config.lockout).isSome) := by
  refine ⟨throttleAnswers_filter hordered ip, ?_⟩
  -- at each check, the refusal is that of the lockout whose end can be represented
  have hcheck : ∀ before t after, calls = before ++ .check ip t :: after →
      ((throttleAfter config before).checkAt ip t = false ↔
        ∃ s, LockedBy config (signals ip before) s t ∧ (s.checkedAdd config.lockout).isSome) ∧
      ∀ s s', LockedBy config (signals ip before) s t →
        LockedBy config (signals ip before) s' t → s = s' := by
    intro before t after hcalls
    rw [hcalls] at hordered
    obtain ⟨hbefore, htime⟩ := ordered_append_cons hordered
    refine ⟨checkAt_iff_lockedBy hbefore (htime t rfl), ?_⟩
    intro s s' hs hs'
    rw [lockedBy_iff (htime t rfl)] at hs hs'
    exact Option.some.inj (hs.1.symm.trans hs'.1)
  constructor
  · intro h before t after hcalls s hs
    obtain ⟨hiff, hunique⟩ := hcheck before t after hcalls
    obtain ⟨s', hs', hend⟩ := hiff.mp ((h before t after hcalls).mpr ⟨s, hs⟩)
    rw [hunique s s' hs hs']
    exact hend
  · intro h before t after hcalls
    rw [(hcheck before t after hcalls).1]
    constructor
    · rintro ⟨s, hs, -⟩
      exact ⟨s, hs⟩
    · rintro ⟨s, hs⟩
      exact ⟨s, hs, h before t after hcalls s hs⟩

-- one failure of each of two addresses, and a check
theorem throttle_automaton_iff_two :
    ((throttleAfter ⟨1, .fromSecs 60⟩ [.failure (.v4 1#32) .unixEpoch,
        .failure (.v4 2#32) .unixEpoch]).checkAt (.v4 1#32) .unixEpoch = false ↔
      ∃ s, LockedBy ⟨1, .fromSecs 60⟩ (signals (.v4 1#32) [.failure (.v4 1#32) .unixEpoch,
        .failure (.v4 2#32) .unixEpoch]) s .unixEpoch) := by
  have hordered : Ordered [.failure (.v4 1#32) .unixEpoch, .failure (.v4 2#32) .unixEpoch,
      .check (.v4 1#32) .unixEpoch] := by
    unfold Ordered
    decide
  refine (throttle_automaton_iff ⟨1, .fromSecs 60⟩ hordered (.v4 1#32)).2.mpr ?_ _ _ [] rfl
  intro before t after hcalls s hs
  obtain ⟨front, e, rest, hown, ⟨rfl, -⟩, -⟩ := hs.1
  have hmem : ThrottleCall.failure (.v4 1#32) s ∈ [ThrottleCall.failure (.v4 1#32) .unixEpoch,
      .failure (.v4 2#32) .unixEpoch, .check (.v4 1#32) .unixEpoch] := by
    rw [hcalls]
    exact List.mem_append_left _ (failure_mem_of_mem_signals (by rw [hown]; simp))
  obtain rfl : s = .unixEpoch := by simpa using hmem
  decide

/-- A lockout that is longer than time itself is none. -/
theorem endless_lockout_is_none :
    LockedBy ⟨1, .fromSecs (2 ^ 64 - 1)⟩
        (signals (.v4 1#32) [.failure (.v4 1#32) .unixEpoch]) .unixEpoch .unixEpoch ∧
      (throttleAfter ⟨1, .fromSecs (2 ^ 64 - 1)⟩
        [.failure (.v4 1#32) .unixEpoch]).checkAt (.v4 1#32) .unixEpoch = true := by
  refine ⟨⟨⟨[], _, [], rfl, ⟨rfl, ?_⟩, by simp⟩, by decide, by decide⟩, by decide⟩
  exact ⟨by simp [counted], rfl⟩

end

end Snail.Security
