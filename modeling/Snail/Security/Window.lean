import Mathlib.Data.List.Chain
import Snail.Reasoning.Past
import Snail.Security.Throttle

/-!
# Window — how many guesses the throttle lets pass

The record of one address, through guesses that all fail.
-/

open Snail.Reasoning

namespace Snail.Security

/-! ## 1. Guesses -/

/-- A call of `auth.check`: when the throttle let it pass, and when its outcome was recorded. -/
structure Guess where
  asked : SystemTime
  recorded : SystemTime

-- each outcome is recorded less than a lockout after the one before
def Apart (lockout : Duration) (guesses : List Guess) : Prop :=
  guesses.IsChain fun g g' => g'.recorded.sinceEpoch < g.recorded.sinceEpoch + (lockout : Int)

/-! ## 2. Behind a window of guesses -/

section
variable {config : ThrottleConfig} {past : List Guess} {clock : Int} {entry : Option Attempt}

/-- What the record of the address holds behind a window of guesses: as many failures, a lockout
from the last one on, or the time of a lockout has passed. -/
def Held (config : ThrottleConfig) (past : List Guess) (clock : Int) (entry : Option Attempt) :
    Prop :=
  ∀ last ∈ past.getLast?, past.length ≤ config.maxFailures → Apart config.lockout past →
    last.recorded.sinceEpoch ≤ clock ∧
    (last.recorded.sinceEpoch + (config.lockout : Int) ≤ clock ∨
      ∃ a, entry = some a ∧ last.recorded.sinceEpoch ≤ a.lastSeen.sinceEpoch ∧
        (a.lastSeen.checkedAdd config.lockout).isSome ∧
        ((a.lockedUntil = none ∧ past.length ≤ a.failures ∧ a.failures < config.maxFailures) ∨
          ∃ d, a.lockedUntil = some d ∧
            last.recorded.sinceEpoch + (config.lockout : Int) ≤ d.sinceEpoch))

theorem Held.later (h : Held config past clock entry) {now : Int} (hnow : clock ≤ now) :
    Held config past now entry := by
  intro last hlast hlength hapart
  obtain ⟨hclock, hcases⟩ := h last hlast hlength hapart
  exact ⟨by omega, hcases.imp_left (by omega)⟩

theorem Attempt.live_iff {lockout : Duration} {now : SystemTime} {a : Attempt} :
    a.live lockout now = true ↔
      (∃ d, a.lockedUntil = some d ∧ now.sinceEpoch < d.sinceEpoch) ∨
        ∃ d, a.lastSeen.checkedAdd lockout = some d ∧ now.sinceEpoch < d.sinceEpoch := by
  unfold Attempt.live Attempt.locked
  rw [Bool.or_eq_true, Option.any_eq_true, Option.any_eq_true]
  simp only [SystemTime.lt_iff]

-- a record is dropped once a lockout has passed
theorem Held.prune (h : Held config past clock entry) {now : SystemTime}
    (hnow : clock ≤ now.sinceEpoch) :
    Held config past now.sinceEpoch (entry.filter (Attempt.live config.lockout now)) := by
  intro last hlast hlength hapart
  obtain ⟨hclock, hcases⟩ := h last hlast hlength hapart
  refine ⟨by omega, ?_⟩
  rcases hcases with hpassed | ⟨a, rfl, hseen, hsome, hrest⟩
  · exact .inl (by omega)
  · by_cases hlive : a.live config.lockout now = true
    · exact .inr ⟨a, Option.filter_eq_some_iff.mpr ⟨rfl, hlive⟩, hseen, hsome, hrest⟩
    · obtain ⟨d, hd⟩ := Option.isSome_iff_exists.mp hsome
      have hsum := SystemTime.sinceEpoch_checkedAdd hd
      have hnot : ¬ now.sinceEpoch < d.sinceEpoch := fun hlt => hlive (Attempt.live_iff.mpr
        (.inr ⟨d, hd, hlt⟩))
      exact .inl (by omega)

theorem Attempt.not_locked_later {a : Attempt} {asked now : SystemTime} (h : a.locked asked = false)
    (hle : asked.sinceEpoch ≤ now.sinceEpoch) : a.locked now = false := by
  rw [← Bool.not_eq_true] at h ⊢
  intro hlocked
  apply h
  unfold Attempt.locked at hlocked ⊢
  rw [Option.any_eq_true] at hlocked ⊢
  obtain ⟨d, hd, hlt⟩ := hlocked
  rw [SystemTime.lt_iff] at hlt
  exact ⟨d, hd, SystemTime.lt_iff.mpr (by omega)⟩

-- the failures that a new one is counted on top of
def Attempt.counted (a : Attempt) : Nat := if a.lockedUntil.isSome then 0 else a.failures

theorem Attempt.fail_cases {a : Attempt} {now d : SystemTime} (hlocked : a.locked now = false)
    (hd : now.checkedAdd config.lockout = some d) :
    (a.fail config now).lastSeen = now ∧
      (((a.fail config now).lockedUntil = none ∧ (a.fail config now).failures = a.counted + 1 ∧
          a.counted + 1 < config.maxFailures) ∨
        (a.fail config now).lockedUntil = some d) := by
  unfold Attempt.fail
  rw [if_neg (by rw [hlocked]; simp)]
  refine ⟨rfl, ?_⟩
  change ((if a.counted + 1 ≥ config.maxFailures then _ else _) = none ∧ _) ∨
    (if a.counted + 1 ≥ config.maxFailures then _ else _) = _
  by_cases hmax : a.counted + 1 ≥ config.maxFailures
  · rw [if_pos hmax]
    exact .inr hd
  · rw [if_neg hmax]
    exact .inl ⟨rfl, rfl, by omega⟩

-- the record with one more failure on it
def failed (config : ThrottleConfig) (entry : Option Attempt) (now : SystemTime) : Attempt :=
  ((entry.filter (Attempt.live config.lockout now)).getD ⟨0, none, now⟩).fail config now

section
variable {asked now d : SystemTime} (hclock : clock ≤ asked.sinceEpoch)
  (hle : asked.sinceEpoch ≤ now.sinceEpoch) (hallowed : ∀ a ∈ entry, a.locked asked = false)
  (hd : now.checkedAdd config.lockout = some d)

include hle hallowed in
theorem not_locked_base :
    ((entry.filter (Attempt.live config.lockout now)).getD ⟨0, none, now⟩).locked now = false := by
  cases hentry : entry.filter (Attempt.live config.lockout now) with
  | none => rfl
  | some a =>
    exact Attempt.not_locked_later (hallowed a (Option.filter_eq_some_iff.mp hentry).1) hle

include hclock hle hallowed in
/-- An attempt that is let pass meets the time of the lockout passed, or a record of the guesses
without a lockout. -/
theorem Held.of_allowed (h : Held config past clock entry) {last : Guess}
    (hlast : last ∈ past.getLast?) (hlength : past.length ≤ config.maxFailures)
    (hapart : Apart config.lockout past) :
    last.recorded.sinceEpoch ≤ now.sinceEpoch ∧
    (last.recorded.sinceEpoch + (config.lockout : Int) ≤ asked.sinceEpoch ∨
      last.recorded.sinceEpoch + (config.lockout : Int) ≤ now.sinceEpoch ∧
        past.length < config.maxFailures ∨
      past.length < config.maxFailures ∧
        ∃ a, entry.filter (Attempt.live config.lockout now) = some a ∧
          past.length ≤ a.counted) := by
  obtain ⟨hbefore, hcases⟩ := h last hlast hlength hapart
  refine ⟨by omega, ?_⟩
  rcases hcases with hpassed | ⟨a, rfl, hseen, hsome, ⟨hnone, hcount, hmax⟩ | ⟨deadline, hu, hlong⟩⟩
  · exact .inl (by omega)
  · obtain ⟨deadline, hdeadline⟩ := Option.isSome_iff_exists.mp hsome
    have hsum := SystemTime.sinceEpoch_checkedAdd hdeadline
    by_cases hlive : a.live config.lockout now = true
    · refine .inr (.inr ⟨by omega, a, Option.filter_eq_some_iff.mpr ⟨rfl, hlive⟩, ?_⟩)
      unfold Attempt.counted
      rw [hnone]
      exact hcount
    · have hnot : ¬ now.sinceEpoch < deadline.sinceEpoch := fun hlt => hlive (Attempt.live_iff.mpr
        (.inr ⟨deadline, hdeadline, hlt⟩))
      exact .inr (.inl ⟨by omega, by omega⟩)
  · have hopen := hallowed a rfl
    have hnot : ¬ asked.sinceEpoch < deadline.sinceEpoch := by
      intro hlt
      rw [← Bool.not_eq_true] at hopen
      apply hopen
      unfold Attempt.locked
      rw [hu]
      exact SystemTime.lt_iff.mpr hlt
    exact .inl (by omega)

include hclock hle hallowed hd in
-- a failure that is recorded without a check
theorem Held.charge (h : Held config past clock entry) :
    Held config past now.sinceEpoch (some (failed config entry now)) := by
  intro last hlast hlength hapart
  obtain ⟨hbefore, hcases⟩ := h.of_allowed hclock hle hallowed hlast hlength hapart
  refine ⟨hbefore, ?_⟩
  have hsum := SystemTime.sinceEpoch_checkedAdd hd
  obtain ⟨hseen, hfail⟩ := Attempt.fail_cases (not_locked_base hle hallowed) hd
  rcases hcases with hpassed | ⟨hpassed, -⟩ | ⟨hmore, a, hbase, hcount⟩
  · exact .inl (by omega)
  · exact .inl hpassed
  · refine .inr ⟨_, rfl, ?_, ?_, ?_⟩
    · rw [failed, hseen]
      exact hbefore
    · rw [failed, hseen, hd]
      rfl
    · rcases hfail with ⟨hnone, hfailures, hmax⟩ | hlocked
      · refine .inl ⟨hnone, ?_, ?_⟩
        · rw [failed, hfailures, hbase]
          exact Nat.le_succ_of_le hcount
        · rw [failed, hfailures]
          exact hmax
      · exact .inr ⟨d, hlocked, by omega⟩

include hclock hle hallowed hd in
theorem Held.guess (h : Held config past clock entry) :
    Held config (past ++ [⟨asked, now⟩]) now.sinceEpoch (some (failed config entry now)) := by
  intro last hlast hlength hapart
  rw [List.getLast?_concat] at hlast
  cases hlast
  rw [List.length_append, List.length_singleton] at hlength
  have hsum := SystemTime.sinceEpoch_checkedAdd hd
  obtain ⟨hseen, hfail⟩ := Attempt.fail_cases (not_locked_base hle hallowed) hd
  -- what is counted already
  have hcounted : past.length ≤
      ((entry.filter (Attempt.live config.lockout now)).getD ⟨0, none, now⟩).counted := by
    cases hpast : past.getLast? with
    | none =>
      rw [List.getLast?_eq_none_iff.mp hpast]
      exact Nat.zero_le _
    | some before =>
      obtain ⟨hfirst, -, hnext⟩ := List.isChain_append.mp hapart
      have hshort : now.sinceEpoch < before.recorded.sinceEpoch + (config.lockout : Int) :=
        hnext before hpast ⟨asked, now⟩ rfl
      obtain ⟨-, hcases⟩ := h.of_allowed hclock hle hallowed hpast (by omega) hfirst
      rcases hcases with hpassed | ⟨hpassed, -⟩ | ⟨-, a, hbase, hcount⟩
      · omega
      · omega
      · rw [hbase]
        exact hcount
  refine ⟨le_refl _, .inr ⟨_, rfl, ?_, ?_, ?_⟩⟩
  · rw [failed, hseen]
  · rw [failed, hseen, hd]
    rfl
  · rcases hfail with ⟨hnone, hfailures, hmax⟩ | hlocked
    · refine .inl ⟨hnone, ?_, ?_⟩
      · rw [failed, hfailures, List.length_append, List.length_singleton]
        omega
      · rw [failed, hfailures]
        exact hmax
    · exact .inr ⟨d, hlocked, hsum.ge⟩

end

/-- Once as many checks have failed as the limit says, each less than a lockout after the one
before, the next one is made a lockout later or not at all. -/
def Bounded (config : ThrottleConfig) (guesses : List Guess) : Prop :=
  ∀ first g rest, guesses = first ++ g :: rest → first.length = config.maxFailures →
    Apart config.lockout first → ∀ last ∈ first.getLast?,
      last.recorded.sinceEpoch + (config.lockout : Int) ≤ g.asked.sinceEpoch

theorem Bounded.concat {asked now : SystemTime} (h : Bounded config past)
    (hheld : Held config past clock entry) (hclock : clock ≤ asked.sinceEpoch)
    (hle : asked.sinceEpoch ≤ now.sinceEpoch) (hallowed : ∀ a ∈ entry, a.locked asked = false) :
    Bounded config (past ++ [⟨asked, now⟩]) := by
  intro first g rest hsplit hlength hapart last hlast
  rcases concat_eq_append_cons_iff.mp hsplit with ⟨rfl, rfl, -⟩ | ⟨rest', -, hpast⟩
  · obtain ⟨-, hcases⟩ := hheld.of_allowed hclock hle hallowed hlast (by omega) hapart
    rcases hcases with hpassed | ⟨-, hshort⟩ | ⟨hshort, -⟩
    · exact hpassed
    · omega
    · omega
  · exact h first g rest' hpast hlength hapart last hlast

theorem Bounded.length_le_or {guesses : List Guess} (h : Bounded config guesses)
    (hmax : 1 ≤ config.maxFailures)
    (hapart : Apart config.lockout (guesses.take config.maxFailures)) :
    guesses.length ≤ config.maxFailures ∨
      ∃ last g, guesses[config.maxFailures - 1]? = some last ∧
        guesses[config.maxFailures]? = some g ∧
        last.recorded.sinceEpoch + (config.lockout : Int) ≤ g.asked.sinceEpoch := by
  by_cases hlength : guesses.length ≤ config.maxFailures
  · exact .inl hlength
  have hlt : config.maxFailures < guesses.length := by omega
  have hsplit : guesses = guesses.take config.maxFailures ++
      guesses[config.maxFailures] :: guesses.drop (config.maxFailures + 1) := by
    rw [← List.drop_eq_getElem_cons hlt, List.take_append_drop]
  have htaken : (guesses.take config.maxFailures).length = config.maxFailures := by
    rw [List.length_take]
    omega
  have hlast : (guesses.take config.maxFailures).getLast? =
      guesses[config.maxFailures - 1]? := by
    rw [List.getLast?_eq_getElem?, htaken, List.getElem?_take_of_lt (by omega)]
  have hbefore : config.maxFailures - 1 < guesses.length := by omega
  refine .inr ⟨guesses[config.maxFailures - 1], guesses[config.maxFailures],
    List.getElem?_eq_getElem hbefore, List.getElem?_eq_getElem hlt, ?_⟩
  apply h _ _ _ hsplit htaken hapart
  rw [hlast]
  exact List.getElem?_eq_getElem hbefore

end

end Snail.Security
