import Mathlib.Data.List.Perm.Basic
import Mathlib.Logic.Function.Basic

/-!
# AcceptLoop — connections and the permits they hold

`accept_loop` of `services/snail_server/src/serve.rs`, one for each listener of `run`, and the
handlers it spawns.  A permit is taken before `accept` and goes to the handler, or is dropped.
-/

namespace Snail.Server

/-! ## 1. The loops -/

inductive Listener where
  | submission
  | pop3
  | imap
  | inbound
  deriving DecidableEq, Repr

structure ConcurrencyLimits where
  submission : Nat := 256
  pop3 : Nat := 256
  imap : Nat := 256
  inbound : Nat := 512

def ConcurrencyLimits.of (limits : ConcurrencyLimits) : Listener → Nat
  | .submission => limits.submission
  | .pop3 => limits.pop3
  | .imap => limits.imap
  | .inbound => limits.inbound

inductive LoopPhase where
  | acquiring
  | accepting
  | stopped
  deriving DecidableEq, Repr

-- the permits that the loop itself holds
@[simp] def LoopPhase.held : LoopPhase → Nat
  | .accepting => 1
  | _ => 0

/-- A listener: the permits of its semaphore, where its loop is, and the connections served. -/
structure Port (κ : Type) where
  permits : Nat
  phase : LoopPhase
  live : List κ

/-- What happens next; `ended` is the end of a handler, whatever its result, and `aborted` that of
the loop at a shutdown. -/
inductive PortStep (κ : Type) where
  | acquired
  | accepted (c : κ)
  | failed
  | ended (c : κ)
  | aborted

variable {κ : Type} [DecidableEq κ]

def Port.new (limit : Nat) : Port κ := ⟨limit, .acquiring, []⟩

def Port.step (p : Port κ) : PortStep κ → Option (Port κ)
  | .acquired =>
      if p.phase = .acquiring ∧ 0 < p.permits then
        some { p with permits := p.permits - 1, phase := .accepting }
      else none
  | .accepted c =>
      if p.phase = .accepting then some { p with phase := .acquiring, live := p.live ++ [c] }
      else none
  -- `continue` drops the permit
  | .failed =>
      if p.phase = .accepting then
        some { p with permits := p.permits + 1, phase := .acquiring }
      else none
  | .ended c =>
      if c ∈ p.live then some { p with permits := p.permits + 1, live := p.live.erase c }
      else none
  | .aborted => some { p with permits := p.permits + p.phase.held, phase := .stopped }

def Port.run : Port κ → List (PortStep κ) → Option (Port κ)
  | p, [] => some p
  | p, a :: steps => (p.step a).bind fun p => p.run steps

/-- The listeners of a server, each with a semaphore of its own. -/
abbrev Ports (κ : Type) := Listener → Port κ

def Ports.new (limits : ConcurrencyLimits) : Ports κ := fun l => .new (limits.of l)

def Ports.step (s : Ports κ) (l : Listener) (a : PortStep κ) : Option (Ports κ) :=
  ((s l).step a).map (Function.update s l)

def Ports.run : Ports κ → List (Listener × PortStep κ) → Option (Ports κ)
  | s, [] => some s
  | s, a :: steps => (s.step a.1 a.2).bind fun s => s.run steps

/-! ## 2. One listener -/

@[simp] def PortStep.accepts : PortStep κ → List κ
  | .accepted c => [c]
  | _ => []

@[simp] def PortStep.ends : PortStep κ → List κ
  | .ended c => [c]
  | _ => []

/-- Every permit is somewhere, and so is every connection. -/
structure Port.Accounts (limit : Nat) (accepted ended : List κ) (p : Port κ) : Prop where
  permits : p.permits + p.phase.held + p.live.length = limit
  served : accepted.Perm (ended ++ p.live)

theorem Port.Accounts.step {limit : Nat} {accepted ended : List κ} {p p' : Port κ} {a : PortStep κ}
    (h : p.Accounts limit accepted ended) (hstep : p.step a = some p') :
    p'.Accounts limit (accepted ++ a.accepts) (ended ++ a.ends) := by
  obtain ⟨hpermits, hserved⟩ := h
  cases a with
  | acquired =>
    obtain ⟨⟨hphase, hpos⟩, ⟨⟩⟩ := Option.ite_none_right_eq_some.mp hstep
    rw [hphase] at hpermits
    refine ⟨?_, by simpa using hserved⟩
    simp only [LoopPhase.held] at hpermits ⊢
    omega
  | accepted c =>
    obtain ⟨hphase, ⟨⟩⟩ := Option.ite_none_right_eq_some.mp hstep
    rw [hphase] at hpermits
    refine ⟨?_, ?_⟩
    · simp only [LoopPhase.held, List.length_append, List.length_singleton] at hpermits ⊢
      omega
    · simpa using hserved.append_right [c]
  | failed =>
    obtain ⟨hphase, ⟨⟩⟩ := Option.ite_none_right_eq_some.mp hstep
    rw [hphase] at hpermits
    refine ⟨?_, by simpa using hserved⟩
    simp only [LoopPhase.held] at hpermits ⊢
    omega
  | ended c =>
    obtain ⟨hlive, ⟨⟩⟩ := Option.ite_none_right_eq_some.mp hstep
    have hlength := List.length_erase_add_one hlive
    refine ⟨by dsimp only; omega, ?_⟩
    have hmoved : (ended ++ p.live).Perm (ended ++ [c] ++ p.live.erase c) := by
      rw [List.append_assoc]
      exact (List.perm_cons_erase hlive).append_left ended
    simpa using hserved.trans hmoved
  | aborted =>
    cases hstep
    refine ⟨hpermits, ?_⟩
    simpa using hserved

theorem Port.Accounts.run {limit : Nat} {accepted ended : List κ} {p p' : Port κ}
    {steps : List (PortStep κ)} (h : p.Accounts limit accepted ended)
    (hrun : p.run steps = some p') :
    p'.Accounts limit (accepted ++ steps.flatMap PortStep.accepts)
      (ended ++ steps.flatMap PortStep.ends) := by
  induction steps generalizing p accepted ended with
  | nil =>
    cases hrun
    simpa using h
  | cons a steps ih =>
    obtain ⟨mid, hstep, hrest⟩ := Option.bind_eq_some_iff.mp hrun
    simpa using ih (h.step hstep) hrest

/-! ## 3. All of them -/

def stepsAt (l : Listener) (steps : List (Listener × PortStep κ)) : List (PortStep κ) :=
  (steps.filter fun a => a.1 = l).map Prod.snd

-- what happens at one listener is not seen at another
theorem Ports.run_at {s s' : Ports κ} {steps : List (Listener × PortStep κ)}
    (hrun : s.run steps = some s') (l : Listener) : (s l).run (stepsAt l steps) = some (s' l) := by
  induction steps generalizing s with
  | nil =>
    cases hrun
    rfl
  | cons a steps ih =>
    obtain ⟨mid, hstep, hrest⟩ := Option.bind_eq_some_iff.mp hrun
    obtain ⟨p, hp, rfl⟩ := Option.map_eq_some_iff.mp hstep
    have htail := ih hrest
    by_cases hl : a.1 = l
    · subst hl
      rw [Function.update_self] at htail
      simpa [stepsAt, Port.run, hp] using htail
    · rw [Function.update_of_ne (Ne.symm hl)] at htail
      simpa [stepsAt, hl] using htail

/-- However connections come and go, a listener serves no more of them than its limit, waits for a
permit exactly when it serves that many, loses none that it has accepted, and is as it would be if
there were no other. -/
theorem listeners_keep_their_limits {limits : ConcurrencyLimits} {s : Ports κ}
    {steps : List (Listener × PortStep κ)} (hrun : (Ports.new limits).run steps = some s)
    (l : Listener) :
    (s l).live.length ≤ limits.of l ∧
    ((s l).phase = .acquiring →
      ((s.step l .acquired).isNone = true ↔ (s l).live.length = limits.of l)) ∧
    ((stepsAt l steps).flatMap PortStep.accepts).Perm
      ((stepsAt l steps).flatMap PortStep.ends ++ (s l).live) ∧
    (Port.new (limits.of l)).run (stepsAt l steps) = some (s l) := by
  have hat := Ports.run_at hrun l
  have hnew : (Port.new (limits.of l) : Port κ).Accounts (limits.of l) [] [] :=
    ⟨by simp [Port.new, LoopPhase.held], .nil⟩
  obtain ⟨hpermits, hserved⟩ := hnew.run hat
  refine ⟨by omega, ?_, hserved, hat⟩
  intro hphase
  rw [hphase] at hpermits
  simp only [LoopPhase.held] at hpermits
  simp only [Ports.step, Port.step, hphase, true_and, Option.isNone_map]
  split
  · simp
    omega
  · simp
    omega

-- with a limit of one, the second connection waits for the first
theorem listeners_keep_their_limits_one : ∃ s : Ports Nat,
    (Ports.new { inbound := 1 }).run [(.inbound, .acquired), (.inbound, .accepted 7)] = some s ∧
      (s.step .inbound .acquired).isNone = true := by
  have hrun : (Ports.new { inbound := 1 }).run [(.inbound, .acquired), (.inbound, .accepted 7)] =
      some _ := rfl
  exact ⟨_, hrun, ((listeners_keep_their_limits hrun .inbound).2.1 rfl).mpr rfl⟩

end Snail.Server
