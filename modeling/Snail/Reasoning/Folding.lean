import Snail.Reasoning.Lists

/-!
# Folding — texts whose line breaks are all folds

A line break is a pair `x`, `y`.  In a folded text every break is followed by a blank, so that a
break followed by anything else marks the end of the text wherever it is embedded.
-/

namespace Snail.Reasoning

variable {α : Type} {x y c : α} {blank : α → Bool} {s t : List α}

def startsBlank (blank : α → Bool) (s : List α) : Bool := s.head?.any blank

/-- Every line break in `s` is followed by a blank. -/
def Folded (x y : α) (blank : α → Bool) (s : List α) : Prop :=
  ∀ u v, s = u ++ x :: y :: v → startsBlank blank v = true

theorem startsBlank_append (h : startsBlank blank s = true) (t : List α) :
    startsBlank blank (s ++ t) = true := by
  cases s with
  | nil => cases h
  | cons a s => exact h

theorem startsBlank_of_append (h : startsBlank blank (s ++ t) = true) (hs : s ≠ []) :
    startsBlank blank s = true := by
  cases s with
  | nil => exact absurd rfl hs
  | cons a s => exact h

theorem folded_of_not_mem (h : x ∉ s) : Folded x y blank s := by
  intro u v hs
  rw [hs] at h
  simp at h

theorem Folded.of_append_left (h : Folded x y blank (t ++ s)) : Folded x y blank s := by
  intro u v hs
  apply h (t ++ u) v
  rw [hs, List.append_assoc]

-- cutting a folded text anywhere but behind a break leaves a folded text
theorem Folded.of_append_right (h : Folded x y blank (s ++ t)) (hend : s.getLast? ≠ some y) :
    Folded x y blank s := by
  intro u v hs
  have hv : v ≠ [] := by
    intro hnil
    rw [hs, hnil] at hend
    simp at hend
  have hblank := h u (v ++ t) (by rw [hs]; simp)
  exact startsBlank_of_append hblank hv

-- a map that makes no new breaks and keeps the blanks
theorem Folded.map {f : α → α} (h : Folded x y blank s) (hx : ∀ a, f a = x → a = x)
    (hy : ∀ a, f a = y → a = y) (hblank : ∀ a, blank a = true → blank (f a) = true) :
    Folded x y blank (s.map f) := by
  intro u v hs
  rcases List.map_eq_append_iff.mp hs with ⟨u', rest, rfl, -, hrest⟩
  rcases List.map_eq_cons_iff.mp hrest with ⟨a, rest, rfl, ha, hrest⟩
  rcases List.map_eq_cons_iff.mp hrest with ⟨b, v', rfl, hb, rfl⟩
  rw [hx a ha, hy b hb] at h
  have hstart := h u' v' rfl
  cases v' with
  | nil => cases hstart
  | cons c v' => exact hblank c hstart

/-- An element that neither breaks lines nor is blank cuts a folded text in two. -/
theorem folded_append_cons_iff (hx : c ≠ x) (hy : c ≠ y) (hc : blank c = false) :
    Folded x y blank (s ++ c :: t) ↔ Folded x y blank s ∧ Folded x y blank t := by
  apply Iff.intro
  · intro h
    apply And.intro
    · intro u v hs
      cases v with
      | nil =>
        have hblank := h u (c :: t) (by rw [hs]; simp)
        rw [show startsBlank blank (c :: t) = blank c from rfl, hc] at hblank
        cases hblank
      | cons b v => exact h u (b :: v ++ c :: t) (by rw [hs]; simp)
    · have hcut : s ++ c :: t = (s ++ [c]) ++ t := by simp
      rw [hcut] at h
      exact h.of_append_left
  · rintro ⟨hs, ht⟩ u v heq
    rcases List.append_eq_append_iff.mp heq with ⟨a, rfl, ha⟩ | ⟨a, rfl, ha⟩
    · -- the break lies behind `c`
      cases a with
      | nil =>
        cases ha
        exact absurd rfl hx
      | cons b a =>
        rw [List.cons_append, List.cons.injEq] at ha
        exact ht a v ha.2
    · -- the break lies before `c`
      cases a with
      | nil =>
        cases ha
        exact absurd rfl hx
      | cons b a =>
        cases a with
        | nil =>
          simp only [List.cons_append, List.nil_append, List.cons.injEq] at ha
          exact absurd ha.2.1.symm hy
        | cons b' a =>
          simp only [List.cons_append, List.cons.injEq] at ha
          rcases ha with ⟨rfl, rfl, rfl⟩
          exact startsBlank_append (hs u a rfl) (c :: t)

theorem folded_intercalate_iff (hx : c ≠ x) (hy : c ≠ y) (hc : blank c = false)
    {l : List (List α)} (hl : l ≠ []) :
    Folded x y blank ([c].intercalate l) ↔ ∀ s ∈ l, Folded x y blank s := by
  induction l with
  | nil => exact absurd rfl hl
  | cons s l ih =>
    cases l with
    | nil => simp
    | cons s' l =>
      rw [List.intercalate_cons_cons, List.append_assoc, List.singleton_append,
        folded_append_cons_iff hx hy hc, ih (by simp)]
      exact List.forall_mem_cons.symm

-- one more line, behind a break
theorem Folded.append_line (hxy : x ≠ y) (hs : Folded x y blank s) (ht : ¬ [x, y] <:+: t)
    (hblank : startsBlank blank t = true) : Folded x y blank (s ++ x :: y :: t) := by
  intro u v heq
  rcases List.append_eq_append_iff.mp heq with ⟨a, rfl, ha⟩ | ⟨a, rfl, ha⟩
  · cases a with
    | nil =>
      cases ha
      exact hblank
    | cons b a =>
      cases a with
      | nil =>
        simp only [List.cons_append, List.nil_append, List.cons.injEq] at ha
        exact absurd ha.2.1.symm hxy
      | cons b' a =>
        simp only [List.cons_append, List.cons.injEq] at ha
        exact absurd ⟨a, v, by rw [ha.2.2]; simp⟩ ht
  · cases a with
    | nil =>
      cases ha
      exact hblank
    | cons b a =>
      cases a with
      | nil =>
        simp only [List.cons_append, List.nil_append, List.cons.injEq] at ha
        exact absurd ha.2.1.symm hxy
      | cons b' a =>
        simp only [List.cons_append, List.cons.injEq] at ha
        rcases ha with ⟨rfl, rfl, rfl⟩
        exact startsBlank_append (hs u a rfl) _

section
variable [DecidableEq α]

theorem startsBlank_head_splitOnPair (hx : blank x = false) (h : startsBlank blank s = true) :
    ∃ first rest, splitOnPair x y s = first :: rest ∧ startsBlank blank first = true := by
  cases s with
  | nil => cases h
  | cons a s =>
    have hblank : blank a = true := h
    have hne : ¬ [x, y] <+: a :: s := by
      intro hp
      rw [(List.cons_prefix_cons.mp hp).1, hblank] at hx
      cases hx
    rcases List.exists_cons_of_ne_nil (splitOnPair_ne_nil x y s) with ⟨first, rest, hs⟩
    refine ⟨a :: first, rest, ?_, hblank⟩
    rw [splitOnPair_cons_of_ne a s hne, hs]
    rfl

/-- The lines of a folded text behind its first all begin with a blank. -/
theorem Folded.startsBlank_of_mem_tail (hx : blank x = false) (h : Folded x y blank s) :
    ∀ line ∈ (splitOnPair x y s).tail, startsBlank blank line = true := by
  fun_induction splitOnPair x y s with
  | case1 => simp
  | case2 a => simp
  | case3 a b l hab ih =>
    intro line hline
    rw [hab.1, hab.2] at h
    have hl : Folded x y blank l := by
      have hcut : x :: y :: l = [x, y] ++ l := rfl
      rw [hcut] at h
      exact h.of_append_left
    rcases startsBlank_head_splitOnPair hx (h [] l rfl) with ⟨first, rest, hsplit, hfirst⟩
    rw [List.tail_cons, hsplit] at hline
    rcases List.mem_cons.mp hline with rfl | hrest
    · exact hfirst
    · exact ih hl line (by rw [hsplit]; exact hrest)
  | case4 a b l hne ih =>
    intro line hline
    have hl : Folded x y blank (b :: l) := by
      have hcut : a :: b :: l = [a] ++ (b :: l) := rfl
      rw [hcut] at h
      exact h.of_append_left
    rw [List.tail_modifyHead] at hline
    exact ih hl line hline

end

end Snail.Reasoning
