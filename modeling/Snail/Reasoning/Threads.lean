import Mathlib.Algebra.BigOperators.Group.Finset.Basic
import Mathlib.Data.Fintype.BigOperators

/-!
# Threads — what several threads hold between them

Each thread is in a phase of its own; a weight of the phases, summed over the threads, changes by
the weight of the one thread that moves.
-/

namespace Snail.Reasoning

variable {ι φ M : Type} [DecidableEq ι] [Fintype ι] [AddCommMonoid M]

theorem sum_phases_update (w : φ → M) (f : ι → φ) (i : ι) (p : φ) :
    ∑ j, w (Function.update f i p j) + w (f i) = ∑ j, w (f j) + w p := by
  have hold := Finset.add_sum_erase Finset.univ (fun j => w (f j)) (Finset.mem_univ i)
  have hnew := Finset.add_sum_erase Finset.univ (fun j => w (Function.update f i p j))
    (Finset.mem_univ i)
  have hrest : ∑ j ∈ Finset.univ.erase i, w (Function.update f i p j) =
      ∑ j ∈ Finset.univ.erase i, w (f j) := by
    apply Finset.sum_congr rfl
    intro j hj
    rw [Function.update_of_ne (Finset.ne_of_mem_erase hj)]
  rw [Function.update_self, hrest] at hnew
  rw [← hold, ← hnew, add_right_comm, add_comm (w p) (w (f i)), add_right_comm]

/-- A thread that takes over `m` from elsewhere. -/
theorem sum_phases_take {w : φ → M} {f : ι → φ} {i : ι} {p : φ} {m : M} (hfree : w (f i) = 0)
    (hp : w p = m) : ∑ j, w (Function.update f i p j) = ∑ j, w (f j) + m := by
  have h := sum_phases_update w f i p
  rwa [hfree, add_zero, hp] at h

/-- A thread that hands on what it holds. -/
theorem sum_phases_give {w : φ → M} {f : ι → φ} {i : ι} {p : φ} (hp : w p = 0) :
    ∑ j, w (Function.update f i p j) + w (f i) = ∑ j, w (f j) := by
  rw [sum_phases_update, hp, add_zero]

end Snail.Reasoning
