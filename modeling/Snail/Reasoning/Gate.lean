import Mathlib.Algebra.Order.BigOperators.Group.Finset
import Mathlib.Logic.Relation
import Snail.Reasoning.Threads

/-!
# Gate — clients that act before they report

Each client passes a gate, acts, and reports; the gate closes at the limit of reports.  Clients that
are past the gate when it closes still act, so the actions are at most those of the limit and one
for each client but the one that closed it.
-/

namespace Snail.Reasoning

inductive GatePhase where
  | idle
  | admitted
  | acted
  deriving DecidableEq, Repr

structure Gate (ι : Type) where
  phase : ι → GatePhase
  acts : Nat
  reports : Nat

variable {ι : Type} [DecidableEq ι]

inductive GateStep (limit : Nat) (g : Gate ι) : Gate ι → Prop where
  | enter (i : ι) (idle : g.phase i = .idle) (below : g.reports < limit) :
      GateStep limit g { g with phase := Function.update g.phase i .admitted }
  | act (i : ι) (admitted : g.phase i = .admitted) :
      GateStep limit g
        { g with phase := Function.update g.phase i .acted, acts := g.acts + 1 }
  | report (i : ι) (acted : g.phase i = .acted) :
      GateStep limit g
        { g with phase := Function.update g.phase i .idle, reports := g.reports + 1 }

-- past the gate
def GatePhase.pending : GatePhase → Nat
  | .idle => 0
  | .admitted => 1
  | .acted => 1

-- has acted and not reported
def GatePhase.owing : GatePhase → Nat
  | .idle => 0
  | .admitted => 0
  | .acted => 1

variable [Fintype ι] {limit : Nat} {g g' : Gate ι}

omit [DecidableEq ι] in
theorem sum_pending_le (f : ι → GatePhase) : ∑ i, (f i).pending ≤ Fintype.card ι := by
  have hone : ∀ i ∈ Finset.univ, (f i).pending ≤ 1 := by
    intro i _
    cases f i <;> decide
  have hsum := Finset.sum_le_card_nsmul Finset.univ (fun i => (f i).pending) 1 hone
  simpa using hsum

omit [DecidableEq ι] in
theorem sum_owing_le (f : ι → GatePhase) : ∑ i, (f i).owing ≤ ∑ i, (f i).pending := by
  apply Finset.sum_le_sum
  intro i _
  cases f i <;> decide

/-- Every action is reported or owed; and once the gate is closed, the reports and the clients past
the gate are together at most the limit and all clients but one. -/
structure Gate.Bounded (limit : Nat) (g : Gate ι) : Prop where
  acts_eq : g.acts = g.reports + ∑ i, (g.phase i).owing
  closed : limit ≤ g.reports →
    g.reports + ∑ i, (g.phase i).pending + 1 ≤ limit + Fintype.card ι

theorem Gate.Bounded.step (h : g.Bounded limit) (hstep : GateStep limit g g') :
    g'.Bounded limit := by
  have hacts := h.acts_eq
  have hclosed := h.closed
  cases hstep with
  | enter i idle below =>
    have howing := sum_phases_update GatePhase.owing g.phase i .admitted
    rw [idle] at howing
    change _ + 0 = _ + 0 at howing
    refine ⟨?_, ?_⟩
    · dsimp only
      omega
    · intro hfull
      change limit ≤ g.reports at hfull
      omega
  | act i admitted =>
    have howing := sum_phases_update GatePhase.owing g.phase i .acted
    have hpending := sum_phases_update GatePhase.pending g.phase i .acted
    rw [admitted] at howing hpending
    change _ + 0 = _ + 1 at howing
    change _ + 1 = _ + 1 at hpending
    refine ⟨?_, ?_⟩
    · dsimp only
      omega
    · intro hfull
      have := hclosed hfull
      dsimp only
      omega
  | report i acted =>
    have howing := sum_phases_update GatePhase.owing g.phase i .idle
    have hpending := sum_phases_update GatePhase.pending g.phase i .idle
    have hall := sum_pending_le g.phase
    rw [acted] at howing hpending
    change _ + 1 = _ + 0 at howing hpending
    refine ⟨?_, ?_⟩
    · dsimp only
      omega
    · intro hfull
      dsimp only at hfull ⊢
      -- the gate is closed by this report, or was closed before it
      by_cases hbefore : limit ≤ g.reports
      · have := hclosed hbefore
        omega
      · omega

omit [DecidableEq ι] in
theorem Gate.Bounded.acts_lt (h : g.Bounded limit) :
    g.acts + 1 ≤ limit + Fintype.card ι := by
  have hacts := h.acts_eq
  have howing := sum_owing_le g.phase
  have hall := sum_pending_le g.phase
  by_cases hfull : limit ≤ g.reports
  · have := h.closed hfull
    omega
  · omega

/-- However the clients take turns, they act less often than the limit and their number say. -/
theorem acts_lt_of_reachable (hlimit : 1 ≤ limit) (hidle : ∀ i, g.phase i = .idle)
    (hacts : g.acts = 0) (hreports : g.reports = 0)
    (hruns : Relation.ReflTransGen (GateStep limit) g g') :
    g'.acts + 1 ≤ limit + Fintype.card ι := by
  have hstart : g.Bounded limit := by
    constructor
    · rw [hacts, hreports]
      simp [hidle, GatePhase.owing]
    · intro hfull
      omega
  have hbounded : g'.Bounded limit := by
    induction hruns with
    | refl => exact hstart
    | tail _ hstep ih => exact ih.step hstep
  exact hbounded.acts_lt

end Snail.Reasoning
