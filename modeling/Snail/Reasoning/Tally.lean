import Mathlib.Algebra.GroupWithZero.Nat
import Mathlib.Data.List.AList

/-!
# Tally — counts that are added to and taken away whole

A state collects events one at a time; now and then it is handed out and begun anew.  What the
states handed out say together, and each by itself, is what the events between say.
-/

namespace Snail.Reasoning

/-! ## 1. Handing out the state -/

section
variable {S E : Type*} (init : S) (add : S → E → S) (takes : E → Bool)

/-- The states that the events of a list hand out, and the one that is left. -/
def drains : S → List E → List S × S
  | s, [] => ([], s)
  | s, e :: es =>
      if takes e then (s :: (drains init es).1, (drains init es).2) else drains (add s e) es

theorem modifyHead_zero_add (l : List Nat) : l.modifyHead (0 + ·) = l := by
  cases l with
  | nil => rfl
  | cons n l => simp

variable {init add takes} {g : S → Nat} {w : E → Nat}

section
variable (hinit : g init = 0) (hadd : ∀ s e, takes e = false → g (add s e) = g s + w e)

include hinit hadd

/-- Each state handed out weighs as much as the events since the one before. -/
theorem drains_windows (s : S) (es : List E) :
    (drains init add takes s es).1.map g ++ [g (drains init add takes s es).2] =
      ((es.splitOnP takes).map fun window => (window.map w).sum).modifyHead (g s + ·) := by
  induction es generalizing s with
  | nil => simp [drains]
  | cons e es ih =>
    cases he : takes e with
    | true =>
      have hrest := ih init
      rw [hinit] at hrest
      rw [modifyHead_zero_add] at hrest
      simp [drains, he, List.splitOnP_cons_eq_if_modifyHead, ← hrest]
    | false =>
      have hrest := ih (add s e)
      rw [hadd s e he] at hrest
      rw [drains, if_neg (by rw [he]; exact Bool.false_ne_true), hrest,
        List.splitOnP_cons_eq_if_modifyHead, if_neg (by rw [he]; exact Bool.false_ne_true)]
      cases es.splitOnP takes with
      | nil => rfl
      | cons window windows => simp [Nat.add_assoc]

/-- Nothing is lost, and nothing is handed out twice. -/
theorem sum_drains (hw : ∀ e, takes e = true → w e = 0) (s : S) (es : List E) :
    ((drains init add takes s es).1.map g).sum + g (drains init add takes s es).2 =
      g s + (es.map w).sum := by
  induction es generalizing s with
  | nil => simp [drains]
  | cons e es ih =>
    rw [List.map_cons, List.sum_cons]
    cases he : takes e with
    | true =>
      have hrest := ih init
      rw [hinit] at hrest
      rw [drains, if_pos he, List.map_cons, List.sum_cons, hw e he]
      dsimp only
      omega
    | false =>
      rw [drains, if_neg (by rw [he]; exact Bool.false_ne_true), ih, hadd s e he]
      omega

end

end

theorem sum_map_toNat {E : Type*} (p : E → Bool) (es : List E) :
    (es.map fun e => (p e).toNat).sum = es.countP p := by
  induction es with
  | nil => rfl
  | cons e es ih =>
    rw [List.map_cons, List.sum_cons, ih, List.countP_cons]
    cases p e with
    | false => simp
    | true => simp [Nat.add_comm]

/-! ## 2. The entry of one key -/

section
variable {K V : Type*} [DecidableEq K]

-- the weight of what a map holds for a key
def weigh (f : V → Nat) (k : K) (t : AList fun _ : K => V) : Nat := ((t.lookup k).map f).getD 0

theorem sum_dlookup (f : V → Nat) (k : K) {l : List (Sigma fun _ : K => V)} (h : l.NodupKeys) :
    (l.map fun e => if e.1 = k then f e.2 else 0).sum = ((l.dlookup k).map f).getD 0 := by
  induction l with
  | nil => rfl
  | cons e l ih =>
    obtain ⟨hnot, hrest⟩ := List.nodupKeys_cons.mp h
    rw [List.map_cons, List.sum_cons, ih hrest]
    by_cases he : e.1 = k
    · subst he
      rw [if_pos rfl, List.dlookup_cons_eq, List.dlookup_eq_none.mpr hnot]
      rfl
    · rw [if_neg he, Nat.zero_add, List.dlookup_cons_ne _ _ (Ne.symm he)]

theorem sum_entries (f : V → Nat) (k : K) (t : AList fun _ : K => V) :
    (t.entries.map fun e => if e.1 = k then f e.2 else 0).sum = weigh f k t :=
  sum_dlookup f k t.nodupKeys

theorem weigh_eq_getD (f : V → Nat) {v : V} (h : f v = 0) (k : K) (t : AList fun _ : K => V) :
    f ((t.lookup k).getD v) = weigh f k t := by
  unfold weigh
  cases t.lookup k with
  | none => exact h
  | some u => rfl

theorem weigh_insert (f : V → Nat) (k k' : K) (v : V) (t : AList fun _ : K => V) :
    weigh f k' (t.insert k v) = if k' = k then f v else weigh f k' t := by
  unfold weigh
  by_cases hk : k' = k
  · rw [if_pos hk, hk, AList.lookup_insert]
    rfl
  · rw [if_neg hk, AList.lookup_insert_ne hk]

end

end Snail.Reasoning
