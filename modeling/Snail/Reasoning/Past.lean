import Mathlib.Data.List.Induction

/-!
# Past — histories of events and what has happened in them

A history lists events, the first one first.  A condition on an event may look at the history in
front of it.
-/

namespace Snail.Reasoning

variable {ε : Type}

/-- Some event of the history met `P`. -/
def Once (P : List ε → ε → Prop) (history : List ε) : Prop :=
  ∃ before e after, history = before ++ e :: after ∧ P before e

/-- Some event of the history met `P`, and every one since then `Q`. -/
def Since (P : List ε → ε → Prop) (Q : ε → Prop) (history : List ε) : Prop :=
  ∃ before e after, history = before ++ e :: after ∧ P before e ∧ ∀ x ∈ after, Q x

section
variable {P : List ε → ε → Prop} {Q : ε → Prop} {history : List ε} {e : ε}

theorem concat_eq_append_cons_iff {before after : List ε} {x : ε} :
    history ++ [e] = before ++ x :: after ↔
      (before = history ∧ x = e ∧ after = []) ∨
        ∃ after', after = after' ++ [e] ∧ history = before ++ x :: after' := by
  induction after using List.reverseRecOn with
  | nil =>
    rw [List.append_singleton_inj]
    apply Iff.intro
    · rintro ⟨rfl, rfl⟩
      exact .inl ⟨rfl, rfl, rfl⟩
    · rintro (⟨rfl, rfl, -⟩ | ⟨after', hnil, -⟩)
      · exact ⟨rfl, rfl⟩
      · simp at hnil
  | append_singleton after last _ =>
    rw [← List.cons_append, ← List.append_assoc, List.append_singleton_inj]
    apply Iff.intro
    · rintro ⟨rfl, rfl⟩
      exact .inr ⟨after, rfl, rfl⟩
    · rintro (⟨-, -, hnil⟩ | ⟨after', hafter, rfl⟩)
      · simp at hnil
      · obtain ⟨rfl, rfl⟩ := List.append_singleton_inj.mp hafter
        exact ⟨rfl, rfl⟩

theorem not_once_nil : ¬ Once P [] := by
  rintro ⟨before, e, after, h, -⟩
  simp at h

theorem not_since_nil : ¬ Since P Q [] := by
  rintro ⟨before, e, after, h, -⟩
  simp at h

theorem since_concat : Since P Q (history ++ [e]) ↔ P history e ∨ (Since P Q history ∧ Q e) := by
  apply Iff.intro
  · rintro ⟨before, x, after, h, hP, hQ⟩
    rcases concat_eq_append_cons_iff.mp h with ⟨rfl, rfl, -⟩ | ⟨after', rfl, hhistory⟩
    · exact .inl hP
    · exact .inr ⟨⟨before, x, after', hhistory, hP, fun y hy => hQ y (List.mem_append_left _ hy)⟩,
        hQ e (by simp)⟩
  · rintro (hP | ⟨⟨before, x, after, rfl, hP, hQ⟩, he⟩)
    · exact ⟨history, e, [], rfl, hP, by simp⟩
    · refine ⟨before, x, after ++ [e], by simp, hP, ?_⟩
      intro y hy
      rcases List.mem_append.mp hy with hy | hy
      · exact hQ y hy
      · rw [List.mem_singleton.mp hy]
        exact he

theorem once_concat : Once P (history ++ [e]) ↔ P history e ∨ Once P history := by
  have h : Since P (fun _ => True) (history ++ [e]) ↔
      P history e ∨ (Since P (fun _ => True) history ∧ True) := since_concat
  simpa only [Since, Once, and_true, implies_true] using h

end

end Snail.Reasoning
