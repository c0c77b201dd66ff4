import Snail.Reasoning.Gate
import Snail.Security.ThrottleRuns
import Snail.Server.ServeAccess

/-!
# ParallelGuesses — many connections of one address

`check` and `record_failure` are two critical sections of the throttle, with the verification of the
password between them.  The connections of an address take these steps in any order, among the calls
for other addresses.
-/

set_option linter.dupNamespace false

open Snail.Reasoning Snail.Security

namespace Snail.Server

variable {ι : Type} [DecidableEq ι]

/-! ## 1. Steps -/

structure Guessing (ι : Type) where
  throttle : Throttle
  phase : ι → GatePhase
  guesses : Nat

/-- The steps of the connections, and the calls for other addresses. -/
inductive GuessStep (ι : Type) where
  | check (i : ι) (now : SystemTime)
  | verify (i : ι)
  | record (i : ι) (now : SystemTime)
  | other (call : ThrottleCall)

def GuessStep.time? : GuessStep ι → Option SystemTime
  | .check _ now => some now
  | .verify _ => none
  | .record _ now => some now
  | .other call => call.time?

def GuessStep.recorded? : GuessStep ι → Option SystemTime
  | .check _ _ => none
  | .verify _ => none
  | .record _ now => some now
  | .other _ => none

-- `none` where the connection is not at that step
def GuessStep.run (config : ThrottleConfig) (ip : IpAddr) (s : Guessing ι) :
    GuessStep ι → Option (Guessing ι)
  | .check i now =>
      if s.phase i = .idle then
        if s.throttle.checkAt ip now then
          some { s with phase := Function.update s.phase i .admitted }
        else some s
      else none
  | .verify i =>
      if s.phase i = .admitted then
        some { s with phase := Function.update s.phase i .acted, guesses := s.guesses + 1 }
      else none
  | .record i now =>
      if s.phase i = .acted then
        some { s with
          phase := Function.update s.phase i .idle
          throttle := s.throttle.recordFailureAt config ip now }
      else none
  | .other call =>
      if call.ip = ip then none else some { s with throttle := call.run config s.throttle }

def Guessing.runs (config : ThrottleConfig) (ip : IpAddr) (s : Guessing ι)
    (steps : List (GuessStep ι)) : Option (Guessing ι) :=
  steps.foldlM (GuessStep.run config ip) s

/-- Every step is taken less than a lockout after each failure recorded before it. -/
def Close (lockout : Duration) (steps : List (GuessStep ι)) : Prop :=
  steps.Pairwise fun a b => ∀ s ∈ a.recorded?, ∀ t ∈ b.time?,
    t.sinceEpoch < s.sinceEpoch + (lockout : Int)

/-! ## 2. The record of the address -/

section
variable {config : ThrottleConfig} {ip : IpAddr} {reports : Nat} {recorded : List SystemTime}
  {entry : Option Attempt} {now : SystemTime}

/-- The record of the address holds the failures that were reported, up to the limit. -/
def Charged (config : ThrottleConfig) (reports : Nat) (recorded : List SystemTime)
    (entry : Option Attempt) : Prop :=
  (reports = 0 ∧ entry = none) ∨
    1 ≤ reports ∧ ∃ a window last, entry = some a ∧ last ∈ recorded ∧
      a.Holds config window last ∧ window.length = min reports config.limit

-- `now` is less than a lockout after each of the failures
def CloseTo (config : ThrottleConfig) (recorded : List SystemTime) (now : SystemTime) : Prop :=
  ∀ s ∈ recorded, now.sinceEpoch < s.sinceEpoch + (config.lockout : Int)

theorem CloseTo.not_spent {last : SystemTime} (h : CloseTo config recorded now)
    (hlast : last ∈ recorded) : config.spent last now = false := by
  have := h last hlast
  unfold ThrottleConfig.spent
  rw [decide_eq_false_iff_not]
  omega

theorem Charged.check (h : Charged config reports recorded entry)
    (hclose : CloseTo config recorded now) (hlimit : 1 ≤ config.limit) :
    (entry.all fun a => !a.locked now) = true ↔ reports < config.limit := by
  rcases h with ⟨rfl, rfl⟩ | ⟨hone, a, window, last, rfl, hlast, hholds, hlength⟩
  · simp
    omega
  · have hlocked : a.locked now = true ↔ config.limit ≤ window.length := by
      rw [hholds.locked_iff, hclose.not_spent hlast]
      simp
    rw [Option.all_some, Bool.not_eq_true', ← Bool.not_eq_true, hlocked]
    omega

theorem Charged.prune (h : Charged config reports recorded entry)
    (hclose : CloseTo config recorded now) :
    Charged config reports recorded (entry.filter (Attempt.live config.lockout now)) := by
  rcases h with ⟨rfl, rfl⟩ | ⟨hone, a, window, last, rfl, hlast, hholds, hlength⟩
  · exact .inl ⟨rfl, rfl⟩
  · rw [Option.filter_some, if_pos (hholds.live (hclose.not_spent hlast))]
    exact .inr ⟨hone, a, window, last, rfl, hlast, hholds, hlength⟩

theorem Charged.record (h : Charged config reports recorded entry)
    (hclose : CloseTo config recorded now) (hend : (now.checkedAdd config.lockout).isSome)
    (hlimit : 1 ≤ config.limit) :
    Charged config (reports + 1) (recorded ++ [now]) (some (failed config entry now)) := by
  rcases h with ⟨rfl, rfl⟩ | ⟨hone, a, window, last, rfl, hlast, hholds, hlength⟩
  · have hholds : Attempt.Holds config [now] now _ := .of_counted rfl hend
    exact .inr ⟨le_refl _, _, [now], now, rfl, by simp, hholds, by simp; omega⟩
  · have hspent := hclose.not_spent hlast
    rw [failed_of_live (hholds.live hspent)]
    by_cases hfull : config.limit ≤ window.length
    · exact .inr ⟨by omega, _, window, last, rfl, List.mem_append_left _ hlast,
        hholds.fail_full hspent hfull, by omega⟩
    · have hnext : Attempt.Holds config (window ++ [now]) now _ :=
        .of_counted (n := window.length) (by simp) hend
      rw [hholds.fail_short (by omega)]
      exact .inr ⟨by omega, _, window ++ [now], now, rfl, by simp, hnext, by simp; omega⟩

end

/-! ## 3. The connections as clients of a gate -/

section
variable {config : ThrottleConfig} {ip : IpAddr} {s s' : Guessing ι} {g : Gate ι}
  {steps : List (GuessStep ι)} {recorded : List SystemTime}

/-- The connections stand where the clients of the gate stand, and the throttle is charged with what
was reported. -/
structure Simulates (config : ThrottleConfig) (ip : IpAddr) (recorded : List SystemTime)
    (s : Guessing ι) (g : Gate ι) : Prop where
  phase : s.phase = g.phase
  guesses : s.guesses = g.acts
  charged : Charged config g.reports recorded (s.throttle.lookup ip)

-- a check that passes enters the gate, and one that is refused changes nothing
theorem Simulates.check {i : ι} {now : SystemTime} (h : Simulates config ip recorded s g)
    (hlimit : 1 ≤ config.limit) (hclose : CloseTo config recorded now)
    (hrun : (GuessStep.check i now).run config ip s = some s') :
    ∃ g', Relation.ReflTransGen (GateStep config.limit) g g' ∧
      Simulates config ip recorded s' g' := by
  have hcheck := h.charged.check hclose hlimit
  rw [GuessStep.run] at hrun
  split at hrun
  · rename_i hidle
    split at hrun
    · rename_i hallowed
      cases hrun
      rw [h.phase] at hidle
      refine ⟨_, .single (.enter i hidle (hcheck.mp hallowed)), ?_, h.guesses, h.charged⟩
      exact congrArg (Function.update · i _) h.phase
    · cases hrun
      exact ⟨g, .refl, h⟩
  · cases hrun

theorem Simulates.verify {i : ι} (h : Simulates config ip recorded s g)
    (hrun : (GuessStep.verify i).run config ip s = some s') :
    ∃ g', Relation.ReflTransGen (GateStep config.limit) g g' ∧
      Simulates config ip recorded s' g' := by
  rw [GuessStep.run] at hrun
  split at hrun
  · rename_i hadmitted
    cases hrun
    rw [h.phase] at hadmitted
    refine ⟨_, .single (.act i hadmitted), ?_, congrArg (· + 1) h.guesses, h.charged⟩
    exact congrArg (Function.update · i _) h.phase
  · cases hrun

theorem Simulates.record {i : ι} {now : SystemTime} (h : Simulates config ip recorded s g)
    (hlimit : 1 ≤ config.limit) (hclose : CloseTo config recorded now)
    (hend : (now.checkedAdd config.lockout).isSome)
    (hrun : (GuessStep.record i now).run config ip s = some s') :
    ∃ g', Relation.ReflTransGen (GateStep config.limit) g g' ∧
      Simulates config ip (recorded ++ [now]) s' g' := by
  rw [GuessStep.run] at hrun
  split at hrun
  · rename_i hacted
    cases hrun
    rw [h.phase] at hacted
    refine ⟨_, .single (.report i hacted), ?_, h.guesses, ?_⟩
    · exact congrArg (Function.update · i _) h.phase
    · show Charged config (g.reports + 1) _ ((s.throttle.recordFailureAt config ip now).lookup ip)
      rw [Throttle.lookup_recordFailureAt]
      exact h.charged.record hclose hend hlimit
  · cases hrun

-- the calls of other addresses may prune, but the record of this one is still fresh
theorem Simulates.other {call : ThrottleCall} (h : Simulates config ip recorded s g)
    (hclose : ∀ t ∈ call.time?, CloseTo config recorded t)
    (hrun : (GuessStep.other call).run config ip s = some s') :
    Simulates config ip recorded s' g := by
  rw [GuessStep.run] at hrun
  split at hrun
  · cases hrun
  · rename_i hother
    cases hrun
    refine ⟨h.phase, h.guesses, ?_⟩
    show Charged config g.reports recorded ((call.run config s.throttle).lookup ip)
    cases call with
    | check other now => exact h.charged
    | failure other now =>
      change ¬ other = ip at hother
      rw [ThrottleCall.run, Throttle.lookup_recordFailureAt_of_ne _ _ _ (Ne.symm hother)]
      exact h.charged.prune (hclose now rfl)
    | success other =>
      change ¬ other = ip at hother
      rw [ThrottleCall.run, Throttle.lookup_recordSuccess_of_ne _ (Ne.symm hother)]
      exact h.charged

-- a step of the connections is one of the clients, or none
theorem Simulates.step {step : GuessStep ι} (h : Simulates config ip recorded s g)
    (hlimit : 1 ≤ config.limit) (hrun : step.run config ip s = some s')
    (hclose : ∀ t ∈ step.time?, CloseTo config recorded t)
    (hend : ∀ t ∈ step.recorded?, (t.checkedAdd config.lockout).isSome) :
    ∃ g', Relation.ReflTransGen (GateStep config.limit) g g' ∧
      Simulates config ip (recorded ++ step.recorded?.toList) s' g' := by
  cases step with
  | check i now =>
    rw [GuessStep.recorded?, Option.toList_none, List.append_nil]
    exact h.check hlimit (hclose now rfl) hrun
  | verify i =>
    rw [GuessStep.recorded?, Option.toList_none, List.append_nil]
    exact h.verify hrun
  | record i now => exact h.record hlimit (hclose now rfl) (hend now rfl) hrun
  | other call =>
    rw [GuessStep.recorded?, Option.toList_none, List.append_nil]
    exact ⟨g, .refl, h.other hclose hrun⟩

theorem Simulates.runs {start : Guessing ι} (h : Simulates config ip [] start g)
    (hlimit : 1 ≤ config.limit) (hrun : start.runs config ip steps = some s)
    (hclose : Close config.lockout steps)
    (hend : ∀ step ∈ steps, ∀ t ∈ step.recorded?, (t.checkedAdd config.lockout).isSome) :
    ∃ g', Relation.ReflTransGen (GateStep config.limit) g g' ∧
      Simulates config ip (steps.filterMap GuessStep.recorded?) s g' := by
  induction steps using List.reverseRecOn generalizing s with
  | nil =>
    cases hrun
    exact ⟨g, .refl, h⟩
  | append_singleton steps step ih =>
    unfold Guessing.runs at hrun ih
    rw [List.foldlM_append, Option.bind_eq_bind, Option.bind_eq_some_iff] at hrun
    obtain ⟨before, hbefore, hrest⟩ := hrun
    rw [List.foldlM_cons, Option.bind_eq_bind, Option.bind_eq_some_iff] at hrest
    obtain ⟨after, hstep, hafter⟩ := hrest
    cases hafter
    obtain ⟨hearlier, -, hlast⟩ := List.pairwise_append.mp hclose
    obtain ⟨g', hreach, hsim⟩ := ih hbefore hearlier
      fun step' hstep' => hend step' (List.mem_append_left _ hstep')
    have hnear : ∀ t ∈ step.time?, CloseTo config (steps.filterMap GuessStep.recorded?) t := by
      intro t ht u hu
      obtain ⟨earlier, hmem, hrec⟩ := List.mem_filterMap.mp hu
      exact hlast earlier hmem step (by simp) u hrec t ht
    obtain ⟨g'', hnext, hsim'⟩ := hsim.step hlimit hstep hnear (hend step (by simp))
    refine ⟨g'', hreach.trans hnext, ?_⟩
    rw [List.filterMap_append]
    have hone : [step].filterMap GuessStep.recorded? = step.recorded?.toList := by
      cases hrec : step.recorded? with
      | none => simp [hrec]
      | some t => simp [hrec]
    rw [hone]
    exact hsim'

/-- Guessing in parallel gains at most one try for each further connection. -/
theorem parallel_guesses_le [Fintype ι] {start : Guessing ι} (hmax : 1 ≤ config.maxFailures)
    (hrecord : start.throttle.lookup ip = none) (hidle : ∀ i, start.phase i = .idle)
    (hguesses : start.guesses = 0) (hrun : start.runs config ip steps = some s)
    (hclose : Close config.lockout steps)
    (hend : ∀ step ∈ steps, ∀ t ∈ step.recorded?, (t.checkedAdd config.lockout).isSome) :
    s.guesses ≤ config.maxFailures + Fintype.card ι - 1 := by
  have hlimit : config.limit = config.maxFailures := max_eq_left hmax
  have hstart : Simulates config ip [] start ⟨start.phase, 0, 0⟩ :=
    ⟨rfl, hguesses, .inl ⟨rfl, hrecord⟩⟩
  obtain ⟨g', hreach, hsim⟩ := hstart.runs (by omega) hrun hclose hend
  have hbound := acts_lt_of_reachable (by omega) hidle rfl rfl hreach
  rw [hlimit] at hbound
  rw [hsim.guesses]
  omega

end

-- two connections that are let pass together
theorem parallel_guesses_le_two :
    ∃ s : Guessing (Fin 2), Guessing.runs .default (.v4 1#32) ⟨∅, fun _ => .idle, 0⟩
        [.check 0 .unixEpoch, .check 1 .unixEpoch, .verify 0, .record 0 .unixEpoch, .verify 1] =
        some s ∧ s.guesses ≤ 5 + 2 - 1 := by
  obtain ⟨s, hs⟩ := Option.isSome_iff_exists.mp
    (show (Guessing.runs .default (.v4 1#32) (⟨∅, fun _ => .idle, 0⟩ : Guessing (Fin 2))
      [.check 0 .unixEpoch, .check 1 .unixEpoch, .verify 0, .record 0 .unixEpoch,
        .verify 1]).isSome by decide)
  refine ⟨s, hs, parallel_guesses_le (by decide) rfl (fun _ => rfl) rfl hs ?_ ?_⟩
  · simp [Close, GuessStep.recorded?, GuessStep.time?]
  · simp [GuessStep.recorded?]
    decide

/-- With a lockout whose end cannot be represented, one connection guesses again at once. -/
theorem endless_lockout_never_locks :
    Close (.fromSecs (2 ^ 64 - 1)) ([.check 0 .unixEpoch, .verify 0, .record 0 .unixEpoch,
      .check 0 .unixEpoch, .verify 0] : List (GuessStep (Fin 1))) ∧
    (Guessing.runs ⟨1, .fromSecs (2 ^ 64 - 1)⟩ (.v4 1#32)
      (⟨∅, fun _ => .idle, 0⟩ : Guessing (Fin 1))
      [.check 0 .unixEpoch, .verify 0, .record 0 .unixEpoch, .check 0 .unixEpoch, .verify 0]).map
      Guessing.guesses = some 2 := by
  refine ⟨?_, by decide⟩
  simp [Close, GuessStep.recorded?, GuessStep.time?, Duration.fromSecs]

/-! ## 4. The steps of a PASS -/

section
variable {server : Server} {peer : IpAddr} {t : Turn} {c : PopConn} {password : Str}
  {s : Guessing ι} {i : ι}

/-- An iteration of `serve_pop` on a wrong password is the three steps of a connection. -/
theorem popPass_steps (hthrottle : s.throttle = t.world.throttle) (hidle : s.phase i = .idle)
    (hwrong : (c.session.handle server.auth.check t.world.store (.pass password)).1.ok = false)
    (hallowed : t.world.throttle.checkAt peer t.now = true) :
    ∃ s', s.runs server.throttle peer [.check i t.now, .verify i, .record i t.later] = some s' ∧
      s'.throttle = (server.popPass peer t c password).world.throttle ∧ s'.phase = s.phase ∧
      s'.guesses = s.guesses + 1 := by
  have hworld : (server.popPass peer t c password).world.throttle =
      t.world.throttle.recordFailureAt server.throttle peer t.later := by
    unfold Server.popPass
    rw [if_neg (by rw [hallowed]; exact Bool.noConfusion)]
    dsimp only
    rw [hwrong]
    rfl
  refine ⟨⟨s.throttle.recordFailureAt server.throttle peer t.later, s.phase, s.guesses + 1⟩,
    ?_, by rw [hthrottle, hworld], rfl, rfl⟩
  simp [Guessing.runs, GuessStep.run, hidle, hthrottle, hallowed]

-- and one that is refused the first of them
theorem popPass_refused (hthrottle : s.throttle = t.world.throttle) (hidle : s.phase i = .idle)
    (hrefused : t.world.throttle.checkAt peer t.now = false) :
    s.runs server.throttle peer [.check i t.now] = some s ∧
      (server.popPass peer t c password).world = t.world := by
  unfold Server.popPass
  rw [if_pos hrefused]
  refine ⟨?_, rfl⟩
  simp [Guessing.runs, GuessStep.run, hidle, hthrottle, hrefused]

end

end Snail.Server
