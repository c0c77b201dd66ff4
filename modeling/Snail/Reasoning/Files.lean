import Mathlib.Data.List.AList
import Snail.Reasoning.Utf8

/-!
# Files — directories under atomic steps and crashes

A directory tree is a finite map from names to contents.  A program is the list of the atomic steps
it takes; a crash leaves the steps done so far.
-/

namespace Snail.Reasoning

variable {K : Type} [DecidableEq K]

abbrev Files (K : Type) := AList fun _ : K => Bytes

inductive FileStep (K : Type) where
  | write (name : K) (bytes : Bytes)
  -- a source that is gone makes no change
  | rename (src dst : K)
  | unlink (name : K)
  deriving DecidableEq, Repr

def FileStep.run : FileStep K → Files K → Files K
  | .write name bytes, d => d.insert name bytes
  | .rename src dst, d =>
      match d.lookup src with
      | some bytes => (d.erase src).insert dst bytes
      | none => d
  | .unlink name, d => d.erase name

def runSteps (steps : List (FileStep K)) (d : Files K) : Files K :=
  steps.foldl (fun d step => step.run d) d

@[simp] theorem runSteps_nil (d : Files K) : runSteps [] d = d := rfl

@[simp] theorem runSteps_cons (step : FileStep K) (steps : List (FileStep K)) (d : Files K) :
    runSteps (step :: steps) d = runSteps steps (step.run d) := rfl

theorem runSteps_append (steps more : List (FileStep K)) (d : Files K) :
    runSteps (steps ++ more) d = runSteps more (runSteps steps d) := by
  unfold runSteps
  rw [List.foldl_append]

/-! ## 1. Reading after a step -/

theorem lookup_write (name f : K) (bytes : Bytes) (d : Files K) :
    ((FileStep.write name bytes).run d).lookup f = if f = name then some bytes else d.lookup f := by
  unfold FileStep.run
  by_cases h : f = name
  · rw [if_pos h, h, AList.lookup_insert]
  · rw [if_neg h, AList.lookup_insert_ne h]

theorem lookup_unlink (name f : K) (d : Files K) :
    ((FileStep.unlink name).run d).lookup f = if f = name then none else d.lookup f := by
  unfold FileStep.run
  by_cases h : f = name
  · rw [if_pos h, h, AList.lookup_erase]
  · rw [if_neg h, AList.lookup_erase_ne h]

theorem run_rename_of_some {src : K} {bytes : Bytes} {d : Files K} (h : d.lookup src = some bytes)
    (dst : K) : (FileStep.rename src dst).run d = (d.erase src).insert dst bytes := by
  simp only [FileStep.run, h]

theorem run_rename_of_none {src : K} {d : Files K} (h : d.lookup src = none) (dst : K) :
    (FileStep.rename src dst).run d = d := by
  simp only [FileStep.run, h]

-- a move between two different names
theorem lookup_rename {src dst : K} (hne : src ≠ dst) (f : K) (d : Files K) :
    ((FileStep.rename src dst).run d).lookup f =
      if f = src then none
      else if f = dst then (d.lookup src).or (d.lookup dst)
      else d.lookup f := by
  cases hs : d.lookup src with
  | none =>
    rw [run_rename_of_none hs]
    by_cases hf : f = src
    · rw [if_pos hf, hf, hs]
    · rw [if_neg hf]
      by_cases hd : f = dst
      · rw [if_pos hd, hd]
        rfl
      · rw [if_neg hd]
  | some bytes =>
    rw [run_rename_of_some hs]
    by_cases hd : f = dst
    · have hf : f ≠ src := fun he => hne (he.symm.trans hd)
      rw [if_neg hf, if_pos hd, hd, AList.lookup_insert]
      rfl
    · rw [AList.lookup_insert_ne hd, if_neg hd]
      by_cases hf : f = src
      · rw [if_pos hf, hf, AList.lookup_erase]
      · rw [if_neg hf, AList.lookup_erase_ne hf]

/-! ## 2. Steps elsewhere -/

def FileStep.touches : FileStep K → List K
  | .write name _ => [name]
  | .rename src dst => [src, dst]
  | .unlink name => [name]

theorem lookup_run_of_untouched {step : FileStep K} {f : K} (h : f ∉ step.touches) (d : Files K) :
    (step.run d).lookup f = d.lookup f := by
  cases step with
  | write name bytes =>
    have hne : f ≠ name := by simpa [FileStep.touches] using h
    rw [lookup_write, if_neg hne]
  | unlink name =>
    have hne : f ≠ name := by simpa [FileStep.touches] using h
    rw [lookup_unlink, if_neg hne]
  | rename src dst =>
    have hne : f ≠ src ∧ f ≠ dst := by simpa [FileStep.touches, not_or] using h
    by_cases heq : src = dst
    · subst heq
      cases hs : d.lookup src with
      | none => rw [run_rename_of_none hs]
      | some bytes =>
        rw [run_rename_of_some hs, AList.lookup_insert_ne hne.1, AList.lookup_erase_ne hne.1]
    · rw [lookup_rename heq, if_neg hne.1, if_neg hne.2]

theorem lookup_runSteps_of_untouched {steps : List (FileStep K)} {f : K}
    (h : ∀ step ∈ steps, f ∉ step.touches) (d : Files K) :
    (runSteps steps d).lookup f = d.lookup f := by
  induction steps generalizing d with
  | nil => rfl
  | cons step steps ih =>
    rw [runSteps_cons, ih (fun s hs => h s (by simp [hs])),
      lookup_run_of_untouched (h step (by simp))]

end Snail.Reasoning
