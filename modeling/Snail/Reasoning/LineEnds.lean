import Snail.Reasoning.Text

/-!
# LineEnds — the three ways to end a line

A line of text may end with CR LF, with a CR or with an LF.
-/

namespace Snail.Reasoning

-- every line end becomes an LF
def normaliseEol : Str → Str
  | [] => []
  | '\r' :: '\n' :: s => '\n' :: normaliseEol s
  | '\r' :: s => '\n' :: normaliseEol s
  | c :: s => c :: normaliseEol s

-- the lines, however each of them ends
def textLines (s : Str) : List Str := (normaliseEol s).splitOn '\n'

/-- CR and LF stand together, in this order. -/
structure CrlfOnly (s : Str) : Prop where
  after_return : ∀ before after, s = before ++ '\r' :: after → after.head? = some '\n'
  before_newline : ∀ before after, s = before ++ '\n' :: after → before.getLast? = some '\r'

-- an LF with the CR in front
def crlfChar (c : Char) : Str := if c = '\n' then ['\r', '\n'] else [c]

/-- The text with a CR LF at the end of each line. -/
def toCrlf (s : Str) : Str := (normaliseEol s).flatMap crlfChar

theorem normaliseEol_cons {c : Char} (h : c ≠ '\r') (s : Str) :
    normaliseEol (c :: s) = c :: normaliseEol s := by
  rw [normaliseEol]
  all_goals simp [h]

theorem normaliseEol_append {s : Str} (h : '\r' ∉ s) (t : Str) :
    normaliseEol (s ++ t) = s ++ normaliseEol t := by
  induction s with
  | nil => rfl
  | cons c s ih =>
    rw [List.mem_cons, not_or] at h
    rw [List.cons_append, normaliseEol_cons (Ne.symm h.1), ih h.2]
    rfl

theorem normaliseEol_return {s : Str} (h : s.head? ≠ some '\n') :
    normaliseEol ('\r' :: s) = '\n' :: normaliseEol s := by
  rw [normaliseEol]
  rintro t rfl
  exact h rfl

theorem return_not_mem_normaliseEol (s : Str) : '\r' ∉ normaliseEol s := by
  fun_induction normaliseEol s with
  | case1 => exact List.not_mem_nil
  | case2 s ih => simpa using ih
  | case3 s _ ih => simpa using ih
  | case4 c s _ hc ih =>
    rw [List.mem_cons, not_or]
    exact ⟨fun h => hc h.symm, ih⟩

theorem normaliseEol_eq_self_iff {s : Str} : normaliseEol s = s ↔ '\r' ∉ s := by
  constructor
  · intro h
    rw [← h]
    exact return_not_mem_normaliseEol s
  · intro h
    have happend := normaliseEol_append h []
    rw [List.append_nil] at happend
    rw [happend]
    exact List.append_nil s

/-! ### CR LF -/

theorem normaliseEol_flatMap_crlfChar {s : Str} (h : '\r' ∉ s) :
    normaliseEol (s.flatMap crlfChar) = s := by
  induction s with
  | nil => rfl
  | cons c s ih =>
    rw [List.mem_cons, not_or] at h
    rw [List.flatMap_cons, crlfChar]
    split
    · rename_i hc
      rw [hc, List.cons_append, List.singleton_append, normaliseEol, ih h.2]
    · rw [List.singleton_append, normaliseEol_cons (Ne.symm h.1), ih h.2]

-- only the line ends change
theorem normaliseEol_toCrlf (s : Str) : normaliseEol (toCrlf s) = normaliseEol s :=
  normaliseEol_flatMap_crlfChar (return_not_mem_normaliseEol s)

theorem textLines_toCrlf (s : Str) : textLines (toCrlf s) = textLines s := by
  rw [textLines, normaliseEol_toCrlf, textLines]

theorem toCrlf_toCrlf (s : Str) : toCrlf (toCrlf s) = toCrlf s := by
  rw [toCrlf, normaliseEol_toCrlf, toCrlf]

theorem CrlfOnly.nil : CrlfOnly [] := ⟨by simp, by simp⟩

theorem CrlfOnly.cons {c : Char} {s : Str} (hr : c ≠ '\r') (hn : c ≠ '\n') (h : CrlfOnly s) :
    CrlfOnly (c :: s) := by
  refine ⟨fun before after heq => ?_, fun before after heq => ?_⟩
  · cases before with
    | nil => exact absurd (List.cons.inj heq).1 hr
    | cons d before => exact h.after_return before after (List.cons.inj heq).2
  · cases before with
    | nil => exact absurd (List.cons.inj heq).1 hn
    | cons d before =>
      rw [List.getLast?_cons, h.before_newline before after (List.cons.inj heq).2]
      rfl

theorem CrlfOnly.crlf {s : Str} (h : CrlfOnly s) : CrlfOnly ('\r' :: '\n' :: s) := by
  refine ⟨fun before after heq => ?_, fun before after heq => ?_⟩
  · rcases before with _ | ⟨d, _ | ⟨e, before⟩⟩
    · rw [← (List.cons.inj heq).2]
      rfl
    · cases (List.cons.inj (List.cons.inj heq).2).1
    · exact h.after_return before after (List.cons.inj (List.cons.inj heq).2).2
  · rcases before with _ | ⟨d, _ | ⟨e, before⟩⟩
    · cases (List.cons.inj heq).1
    · rw [← (List.cons.inj heq).1]
      rfl
    · have hlast := h.before_newline before after (List.cons.inj (List.cons.inj heq).2).2
      rw [List.getLast?_cons, List.getLast?_cons, hlast]
      rfl

theorem crlfOnly_flatMap_crlfChar {s : Str} (h : '\r' ∉ s) : CrlfOnly (s.flatMap crlfChar) := by
  induction s with
  | nil => exact .nil
  | cons c s ih =>
    rw [List.mem_cons, not_or] at h
    rw [List.flatMap_cons, crlfChar]
    split
    · exact (ih h.2).crlf
    · rename_i hc
      exact (ih h.2).cons (Ne.symm h.1) hc

theorem crlfOnly_toCrlf (s : Str) : CrlfOnly (toCrlf s) :=
  crlfOnly_flatMap_crlfChar (return_not_mem_normaliseEol s)

end Snail.Reasoning
