import Mathlib.Data.List.Basic
import Mathlib.Data.List.Infix
import Mathlib.Data.List.Sort

/-!
# Cutting lists at separators

The wire formats of a mail server are lists of bytes or characters that every layer cuts in its own
way: at the first or last occurrence of a separator, at every occurrence of the two-element
separator CRLF, or after every line terminator.  This file gives those cuts over an arbitrary
alphabet together with the rules by which they compose.
-/

namespace Snail.Reasoning

variable {α : Type*} [DecidableEq α]

/-! ## 1. The first and the last occurrence of one separator -/

-- cut at the first `a`, which is dropped
def splitOnce (a : α) : List α → Option (List α × List α)
  | [] => none
  | b :: l => if b = a then some ([], l) else (splitOnce a l).map fun p => (b :: p.1, p.2)

-- cut at the last `a`, which is dropped
def rsplitOnce (a : α) : List α → Option (List α × List α)
  | [] => none
  | b :: l =>
      match rsplitOnce a l with
      | some p => some (b :: p.1, p.2)
      | none => if b = a then some ([], l) else none

theorem splitOnce_append_cons {a : α} {l m : List α} (h : a ∉ l) :
    splitOnce a (l ++ a :: m) = some (l, m) := by
  induction l with
  | nil => simp [splitOnce]
  | cons b l ih =>
    have hb : b ≠ a := fun e => h (by simp [e])
    simp [splitOnce, hb, ih fun hm => h (List.mem_cons_of_mem _ hm)]

theorem splitOnce_eq_none_iff {a : α} {l : List α} : splitOnce a l = none ↔ a ∉ l := by
  induction l with
  | nil => simp [splitOnce]
  | cons b l ih =>
    by_cases hb : b = a
    · simp [splitOnce, hb]
    · simp [splitOnce, hb, ih, Ne.symm hb]

theorem splitOnce_eq_some_iff {a : α} {l x y : List α} :
    splitOnce a l = some (x, y) ↔ l = x ++ a :: y ∧ a ∉ x := by
  constructor
  · intro h
    by_cases ha : a ∈ l
    · obtain ⟨s, t, rfl, hs⟩ := List.eq_append_cons_of_mem ha
      rw [splitOnce_append_cons hs] at h
      cases h
      exact ⟨rfl, hs⟩
    · rw [splitOnce_eq_none_iff.mpr ha] at h
      cases h
  · rintro ⟨rfl, hx⟩
    exact splitOnce_append_cons hx

theorem rsplitOnce_eq_none_iff {a : α} {l : List α} : rsplitOnce a l = none ↔ a ∉ l := by
  induction l with
  | nil => simp [rsplitOnce]
  | cons b l ih =>
    cases hl : rsplitOnce a l with
    | none =>
      have hmem := ih.mp hl
      by_cases hb : b = a
      · simp [rsplitOnce, hl, hb]
      · simp [rsplitOnce, hl, hb, hmem, Ne.symm hb]
    | some p =>
      have hmem : a ∈ l := by
        by_contra hn
        rw [ih.mpr hn] at hl
        cases hl
      simp [rsplitOnce, hl, hmem]

theorem rsplitOnce_append_cons {a : α} {l m : List α} (h : a ∉ m) :
    rsplitOnce a (l ++ a :: m) = some (l, m) := by
  induction l with
  | nil => simp [rsplitOnce, rsplitOnce_eq_none_iff.mpr h]
  | cons b l ih => simp [rsplitOnce, ih]

theorem rsplitOnce_eq_some_iff {a : α} {l x y : List α} :
    rsplitOnce a l = some (x, y) ↔ l = x ++ a :: y ∧ a ∉ y := by
  constructor
  · intro h
    induction l generalizing x with
    | nil => simp [rsplitOnce] at h
    | cons b l ih =>
      cases hl : rsplitOnce a l with
      | none =>
        rw [rsplitOnce, hl] at h
        by_cases hb : b = a
        · simp only [hb, if_true, Option.some.injEq, Prod.mk.injEq] at h
          obtain ⟨rfl, rfl⟩ := h
          exact ⟨by simp [hb], rsplitOnce_eq_none_iff.mp hl⟩
        · simp [hb] at h
      | some p =>
        rw [rsplitOnce, hl] at h
        simp only [Option.some.injEq, Prod.mk.injEq] at h
        obtain ⟨rfl, rfl⟩ := h
        obtain ⟨hl', hp⟩ := ih hl
        exact ⟨by simp [hl'], hp⟩
  · rintro ⟨rfl, hy⟩
    exact rsplitOnce_append_cons hy

-- the last occurrence is one place
theorem last_unique {a : α} {l m l' m' : List α} (h : l ++ a :: m = l' ++ a :: m') (hm : a ∉ m)
    (hm' : a ∉ m') : l = l' ∧ m = m' := by
  have hsplit := rsplitOnce_append_cons (l := l) hm
  rw [h, rsplitOnce_append_cons hm'] at hsplit
  cases hsplit
  exact ⟨rfl, rfl⟩

theorem exists_last {a : α} {l : List α} (h : a ∈ l) : ∃ x y, l = x ++ a :: y ∧ a ∉ y := by
  cases hsplit : rsplitOnce a l with
  | none => exact absurd h (rsplitOnce_eq_none_iff.mp hsplit)
  | some p => exact ⟨p.1, p.2, rsplitOnce_eq_some_iff.mp hsplit⟩

omit [DecidableEq α] in
-- of two elements only one is the last
theorem not_both_last {a b : α} {l m l' m' : List α} (hne : a ≠ b) (hm : b ∉ m) (hm' : a ∉ m')
    (h : l ++ a :: m = l' ++ b :: m') : False := by
  rcases List.append_eq_append_iff.mp h with ⟨r, -, hr⟩ | ⟨r, -, hr⟩
  · cases r with
    | nil => exact hne (List.cons.inj hr).1
    | cons c r => exact hm (by rw [(List.cons.inj hr).2]; simp)
  · cases r with
    | nil => exact hne (List.cons.inj hr).1.symm
    | cons c r => exact hm' (by rw [(List.cons.inj hr).2]; simp)

/-! ## 2. The segments between two-element separators -/

/-- The segments of a list between the occurrences of the separator `[x, y]`, scanning from the
left; there is always at least one segment, and a trailing separator leaves a last empty one. -/
def splitOnPair (x y : α) : List α → List (List α)
  | [] => [[]]
  | [a] => [[a]]
  | a :: b :: l =>
      if a = x ∧ b = y then [] :: splitOnPair x y l
      else (splitOnPair x y (b :: l)).modifyHead (a :: ·)

theorem splitOnPair_ne_nil (x y : α) (l : List α) : splitOnPair x y l ≠ [] := by
  fun_induction splitOnPair x y l with
  | case1 => simp
  | case2 => simp
  | case3 => simp
  | case4 a b l _ ih => simpa using ih

theorem splitOnPair_cons_of_ne {x y : α} (a : α) (l : List α) (h : ¬ [x, y] <+: a :: l) :
    splitOnPair x y (a :: l) = (splitOnPair x y l).modifyHead (a :: ·) := by
  cases l with
  | nil => rfl
  | cons b l =>
    have hab : ¬ (a = x ∧ b = y) := by
      rintro ⟨rfl, rfl⟩
      exact h ⟨l, rfl⟩
    simp [splitOnPair, hab]

/-- A separator cuts the list in two that are split independently: no separator can lie across the
cut because its two elements differ. -/
theorem splitOnPair_append {x y : α} (hxy : x ≠ y) (l m : List α) :
    splitOnPair x y (l ++ x :: y :: m) = splitOnPair x y l ++ splitOnPair x y m := by
  induction l using List.twoStepInduction with
  | nil => simp [splitOnPair]
  | singleton a =>
    have hax : ¬ (a = x ∧ x = y) := fun h => hxy h.2
    simp [splitOnPair, hax]
  | cons_cons a b l ihl ihbl =>
    by_cases hab : a = x ∧ b = y
    · simp [splitOnPair, hab, ihl]
    · have htail := ihbl b
      simp only [List.cons_append] at htail ⊢
      rw [splitOnPair, if_neg hab, htail, splitOnPair, if_neg hab]
      obtain ⟨s, ss, hs⟩ := List.exists_cons_of_ne_nil (splitOnPair_ne_nil x y (b :: l))
      simp [hs]

theorem splitOnPair_eq_singleton {x y : α} {l : List α} (h : ¬ [x, y] <:+: l) :
    splitOnPair x y l = [l] := by
  induction l with
  | nil => rfl
  | cons a l ih =>
    rw [splitOnPair_cons_of_ne a l fun hp => h hp.isInfix,
      ih fun hi => h (hi.trans (List.suffix_cons a l).isInfix)]
    rfl

-- no segment contains the separator
theorem not_infix_of_mem_splitOnPair {x y : α} {l s : List α} (hs : s ∈ splitOnPair x y l) :
    ¬ [x, y] <:+: s := by
  fun_induction splitOnPair x y l generalizing s with
  | case1 => simp at hs; simp [hs]
  | case2 a => simp at hs; subst hs; intro h; simpa using h.length_le
  | case3 a b l _ ih =>
    rcases List.mem_cons.mp hs with rfl | hs
    · simp
    · exact ih hs
  | case4 a b l hab ih =>
    obtain ⟨t, ts, ht⟩ := List.exists_cons_of_ne_nil (splitOnPair_ne_nil x y (b :: l))
    rw [ht] at hs ih
    rcases List.mem_cons.mp hs with rfl | hs
    · intro hi
      rcases List.infix_cons_iff.mp hi with hp | hi
      · -- a separator at the front of the segment would start at `a` in the list itself
        have htb : t.take 1 <+: [b] := by
          cases l with
          | nil => simp [splitOnPair] at ht; simp [← ht.1]
          | cons c l =>
            rw [splitOnPair] at ht
            split at ht
            · cases ht; simp
            · obtain ⟨u, us, hu⟩ := List.exists_cons_of_ne_nil (splitOnPair_ne_nil x y (c :: l))
              rw [hu] at ht
              cases ht
              simp
        rcases t with _ | ⟨c, t⟩
        · simpa using hp.length_le
        · have hc : c = b := by simpa using htb
          have hpair : a = x ∧ c = y := by
            obtain ⟨r, hr⟩ := hp
            simp only [List.cons_append, List.cons.injEq] at hr
            exact ⟨hr.1.symm, hr.2.1.symm⟩
          exact hab ⟨hpair.1, hc ▸ hpair.2⟩
      · exact ih List.mem_cons_self hi
    · exact ih (List.mem_cons_of_mem _ hs)

-- terminating every segment again gives the list back with one separator more
theorem flatMap_splitOnPair (x y : α) (l : List α) :
    (splitOnPair x y l).flatMap (· ++ [x, y]) = l ++ [x, y] := by
  fun_induction splitOnPair x y l with
  | case1 => rfl
  | case2 a => rfl
  | case3 a b l hab ih => simp [hab, ih]
  | case4 a b l _ ih =>
    obtain ⟨s, ss, hs⟩ := List.exists_cons_of_ne_nil (splitOnPair_ne_nil x y (b :: l))
    rw [hs] at ih ⊢
    simp only [List.modifyHead, List.flatMap_cons] at ih ⊢
    rw [List.cons_append, List.cons_append, ih]
    rfl

-- the segments of separately terminated pieces are the pieces themselves
theorem splitOnPair_flatMap {x y : α} (hxy : x ≠ y) (ss : List (List α)) (rest : List α)
    (h : ∀ s ∈ ss, ¬ [x, y] <:+: s) :
    splitOnPair x y (ss.flatMap (· ++ [x, y]) ++ rest) = ss ++ splitOnPair x y rest := by
  induction ss with
  | nil => simp
  | cons s ss ih =>
    have hs := splitOnPair_eq_singleton (h s List.mem_cons_self)
    have hss := ih fun t ht => h t (List.mem_cons_of_mem _ ht)
    rw [List.flatMap_cons, List.append_assoc, List.append_assoc]
    change splitOnPair x y (s ++ x :: y :: (ss.flatMap (· ++ [x, y]) ++ rest)) = _
    rw [splitOnPair_append hxy, hs, hss]
    rfl

/-! ## 3. Lines that keep their terminator -/

/-- Cut after every `a`; the terminator stays with its line, and an unterminated rest is a last
line of its own. -/
def splitInclusive (a : α) : List α → List (List α)
  | [] => []
  | b :: l =>
      if b = a then [b] :: splitInclusive a l
      else match splitInclusive a l with
        | [] => [[b]]
        | s :: ss => (b :: s) :: ss

theorem splitInclusive_flatten (a : α) (l : List α) : (splitInclusive a l).flatten = l := by
  fun_induction splitInclusive a l with
  | case1 => rfl
  | case2 l ih => simp [ih]
  | case3 b l hb hn ih => rw [hn] at ih; simpa using ih
  | case4 b l hb s ss hs ih => rw [hs] at ih; simpa using ih

theorem splitInclusive_append_cons {a : α} {l : List α} (h : a ∉ l) (m : List α) :
    splitInclusive a (l ++ a :: m) = (l ++ [a]) :: splitInclusive a m := by
  induction l with
  | nil => simp [splitInclusive]
  | cons b l ih =>
    have hb : b ≠ a := fun e => h (by simp [e])
    simp [splitInclusive, hb, ih fun hm => h (List.mem_cons_of_mem _ hm)]

theorem splitInclusive_of_not_mem {a : α} {l : List α} (h : a ∉ l) (hne : l ≠ []) :
    splitInclusive a l = [l] := by
  induction l with
  | nil => exact absurd rfl hne
  | cons b l ih =>
    have hb : b ≠ a := fun e => h (by simp [e])
    cases l with
    | nil => simp [splitInclusive, hb]
    | cons c l => rw [splitInclusive, if_neg hb, ih (fun hm => h (by simp [hm])) (by simp)]

-- either the list is one unterminated line, or its first line ends at the first terminator
theorem exists_line_or_not_mem (a : α) (l : List α) :
    a ∉ l ∨ ∃ s m, l = s ++ a :: m ∧ a ∉ s := by
  by_cases h : a ∈ l
  · obtain ⟨s, m, rfl, hs⟩ := List.eq_append_cons_of_mem h
    exact .inr ⟨s, m, rfl, hs⟩
  · exact .inl h

-- cutting a list right after a terminator cuts its lines there
theorem splitInclusive_append {a : α} (l m : List α) (h : l = [] ∨ l.getLast? = some a) :
    splitInclusive a (l ++ m) = splitInclusive a l ++ splitInclusive a m := by
  induction hn : l.length using Nat.strong_induction_on generalizing l with
  | h n ih =>
    rcases exists_line_or_not_mem a l with hl | ⟨s, t, rfl, hs⟩
    · rcases h with rfl | hlast
      · simp [splitInclusive]
      · exact absurd (List.mem_of_getLast? hlast) hl
    · have ht : t = [] ∨ t.getLast? = some a := by
        cases t with
        | nil => exact .inl rfl
        | cons c t =>
          rcases h with h | h
          · simp at h
          · exact .inr (by simpa using h)
      rw [List.append_assoc, List.cons_append, splitInclusive_append_cons hs,
        splitInclusive_append_cons hs, ih t.length (by subst hn; simp; omega) t ht rfl]
      rfl

-- a line is not empty and holds the terminator at most as its last element
theorem not_mem_dropLast_of_mem_splitInclusive {a : α} {l s : List α}
    (h : s ∈ splitInclusive a l) : a ∉ s.dropLast ∧ s ≠ [] := by
  fun_induction splitInclusive a l generalizing s with
  | case1 => simp at h
  | case2 l ih =>
    rcases List.mem_cons.mp h with rfl | h
    · simp
    · exact ih h
  | case3 b l hb hn ih =>
    rw [List.mem_singleton.mp h]
    simp
  | case4 b l hb t ts ht ih =>
    rcases List.mem_cons.mp h with rfl | h
    · have hmem := ih (s := t) (by rw [ht]; simp)
      refine ⟨?_, by simp⟩
      rw [List.dropLast_cons_of_ne_nil hmem.2]
      intro hm
      rcases List.mem_cons.mp hm with hm | hm
      · exact hb hm.symm
      · exact hmem.1 hm
    · exact ih (by rw [ht]; simp [h])

-- every line of a list that ends in the terminator is terminated
theorem getLast?_of_mem_splitInclusive {a : α} {l s : List α} (hl : l.getLast? = some a)
    (h : s ∈ splitInclusive a l) : s.getLast? = some a := by
  induction hn : l.length using Nat.strong_induction_on generalizing l with
  | h n ih =>
    rcases exists_line_or_not_mem a l with hno | ⟨u, m, rfl, hu⟩
    · exact absurd (List.mem_of_getLast? hl) hno
    · rw [splitInclusive_append_cons hu] at h
      rcases List.mem_cons.mp h with rfl | h
      · simp
      · cases m with
        | nil => simp [splitInclusive] at h
        | cons x m =>
          exact ih (x :: m).length (by subst hn; simp; omega) (by simpa using hl) h rfl

/-! ## 4. Where a sublist first occurs -/

-- the index of the first occurrence of a nonempty `needle`
def findSub (needle : List α) : List α → Option Nat
  | [] => none
  | a :: l => if needle <+: a :: l then some 0 else (findSub needle l).map (· + 1)

theorem findSub_eq_none_iff {needle : List α} (hn : needle ≠ []) {l : List α} :
    findSub needle l = none ↔ ¬ needle <:+: l := by
  induction l with
  | nil => simp [findSub, hn]
  | cons a l ih =>
    by_cases hp : needle <+: a :: l
    · simp [findSub, hp, hp.isInfix]
    · simp [findSub, hp, ih, List.infix_cons_iff]

-- the index found is where the needle stands, and it stands nowhere further left
theorem findSub_spec {needle l : List α} {p : Nat} (h : findSub needle l = some p) :
    (∃ u v, l = u ++ (needle ++ v) ∧ u.length = p) ∧
      ∀ u v, l = u ++ (needle ++ v) → p ≤ u.length := by
  induction l generalizing p with
  | nil => simp [findSub] at h
  | cons a l ih =>
    rw [findSub] at h
    split at h
    · rename_i hp
      cases h
      obtain ⟨v, hv⟩ := hp
      exact ⟨⟨[], v, hv.symm, rfl⟩, fun u v _ => Nat.zero_le _⟩
    · rename_i hp
      obtain ⟨q, hq, rfl⟩ := Option.map_eq_some_iff.mp h
      obtain ⟨⟨u, v, rfl, rfl⟩, hmin⟩ := ih hq
      refine ⟨⟨a :: u, v, rfl, rfl⟩, fun u' v' huv => ?_⟩
      cases u' with
      | nil => exact absurd ⟨v', huv.symm⟩ hp
      | cons b u' =>
        have htail := (List.cons.inj huv).2
        exact Nat.succ_le_succ (hmin u' v' htail)

theorem findSub_eq_some_of_first {needle : List α} (hn : needle ≠ []) {u v : List α}
    (hmin : ∀ u' v', u ++ (needle ++ v) = u' ++ (needle ++ v') → u.length ≤ u'.length) :
    findSub needle (u ++ (needle ++ v)) = some u.length := by
  cases h : findSub needle (u ++ (needle ++ v)) with
  | none => exact absurd ⟨u, v, by simp⟩ ((findSub_eq_none_iff hn).mp h)
  | some p =>
    obtain ⟨⟨u', v', huv, rfl⟩, hle⟩ := findSub_spec h
    exact congrArg some (le_antisymm (hle u v rfl) (hmin u' v' huv))

-- an occurrence that is found stays the first one when the list grows on the right
theorem findSub_append {needle l : List α} (hn : needle ≠ []) {p : Nat}
    (h : findSub needle l = some p) (m : List α) : findSub needle (l ++ m) = some p := by
  obtain ⟨⟨u, v, rfl, rfl⟩, hmin⟩ := findSub_spec h
  rw [List.append_assoc, List.append_assoc]
  refine findSub_eq_some_of_first hn fun u' v' huv => ?_
  by_contra hlt
  -- an earlier occurrence would end inside the old list and so have been there before
  have hnew : u' ++ needle <+: u ++ (needle ++ (v ++ m)) := ⟨v', by rw [List.append_assoc, huv]⟩
  have hold : u ++ (needle ++ v) <+: u ++ (needle ++ (v ++ m)) := ⟨m, by simp⟩
  have hpre : u' ++ needle <+: u ++ (needle ++ v) := by
    apply List.prefix_of_prefix_length_le hnew hold
    simp only [List.length_append]
    omega
  obtain ⟨w, hw⟩ := hpre
  exact hlt (hmin u' w (by rw [← hw, List.append_assoc]))

-- an occurrence is found behind a beginning that has none
theorem length_lt_of_findSub {needle l m : List α} (hno : ¬ needle <:+: m) (hm : m <+: l) {p : Nat}
    (h : findSub needle l = some p) : m.length < p + needle.length := by
  obtain ⟨⟨u, v, huv, hlen⟩, -⟩ := findSub_spec h
  by_contra hle
  have hpre : u ++ needle <+: l := ⟨v, by rw [huv, List.append_assoc]⟩
  have hinside : u ++ needle <+: m := by
    apply List.prefix_of_prefix_length_le hpre hm
    rw [List.length_append]
    omega
  exact hno ((List.suffix_append u needle).isInfix.trans hinside.isInfix)

/-! ## 5. Up to and including the element that stops -/

section
variable {β : Type*} (stop : Nat → β → Bool)

-- whether an element stops; elements are counted from `n` on
def stopsAt : Nat → List β → Bool
  | _, [] => false
  | n, b :: l => stop n b || stopsAt (n + 1) l

def takeThrough : Nat → List β → List β
  | _, [] => []
  | n, b :: l => b :: if stop n b then [] else takeThrough (n + 1) l

theorem stopsAt_append (n : Nat) (l m : List β) :
    stopsAt stop n (l ++ m) = (stopsAt stop n l || stopsAt stop (n + l.length) m) := by
  induction l generalizing n with
  | nil => simp [stopsAt]
  | cons b l ih =>
    simp only [List.cons_append, stopsAt, ih, Bool.or_assoc, List.length_cons]
    rw [show n + 1 + l.length = n + (l.length + 1) by omega]

theorem stopsAt_iff {stop : Nat → β → Bool} {n : Nat} {l : List β} : stopsAt stop n l = true ↔
    ∃ before b after, l = before ++ b :: after ∧ stop (n + before.length) b = true := by
  constructor
  · intro h
    induction l generalizing n with
    | nil => cases h
    | cons c l ih =>
      rw [stopsAt, Bool.or_eq_true] at h
      rcases h with h | h
      · exact ⟨[], c, l, rfl, h⟩
      · rcases ih h with ⟨before, b, after, hl, hstop⟩
        refine ⟨c :: before, b, after, by rw [hl]; rfl, ?_⟩
        rw [List.length_cons, show n + (before.length + 1) = n + 1 + before.length by omega]
        exact hstop
  · rintro ⟨before, b, after, rfl, hstop⟩
    rw [stopsAt_append, stopsAt, hstop]
    simp

theorem stopsAt_eq_any (n : Nat) (l : List β) :
    stopsAt stop n l = (l.zipIdx n).any fun b => stop b.2 b.1 := by
  induction l generalizing n with
  | nil => rfl
  | cons b l ih => rw [stopsAt, List.zipIdx_cons, List.any_cons, ih]

theorem stopsAt_takeThrough (n : Nat) (l : List β) :
    stopsAt stop n (takeThrough stop n l) = stopsAt stop n l := by
  induction l generalizing n with
  | nil => rfl
  | cons b l ih =>
    rw [takeThrough, stopsAt, stopsAt]
    cases stop n b with
    | true => rfl
    | false => exact congrArg (false || ·) (ih (n + 1))

theorem takeThrough_append (n : Nat) (l m : List β) :
    takeThrough stop n (l ++ m) = takeThrough stop n l ++
      if stopsAt stop n l then [] else takeThrough stop (n + l.length) m := by
  induction l generalizing n with
  | nil => simp [stopsAt, takeThrough]
  | cons b l ih =>
    rw [List.cons_append, takeThrough, takeThrough, stopsAt, List.length_cons,
      show n + (l.length + 1) = n + 1 + l.length by omega]
    cases hstop : stop n b with
    | true => simp
    | false => simp [ih]

theorem takeThrough_of_not_stopsAt {stop : Nat → β → Bool} {n : Nat} {l : List β}
    (h : stopsAt stop n l = false) : takeThrough stop n l = l := by
  induction l generalizing n with
  | nil => rfl
  | cons b l ih =>
    rw [stopsAt, Bool.or_eq_false_iff] at h
    rw [takeThrough, h.1, ih h.2]
    rfl

theorem takeThrough_isPrefix (stop : Nat → β → Bool) (n : Nat) (l : List β) :
    takeThrough stop n l <+: l := by
  induction l generalizing n with
  | nil => exact List.prefix_rfl
  | cons b l ih =>
    rw [takeThrough, List.prefix_cons_inj]
    split
    · exact List.nil_prefix
    · exact ih (n + 1)

theorem mem_takeThrough_iff {stop : Nat → β → Bool} {n : Nat} {l : List β} {b : β} :
    b ∈ takeThrough stop n l ↔
      ∃ before after, l = before ++ b :: after ∧ stopsAt stop n before = false := by
  constructor
  · intro h
    induction l generalizing n with
    | nil => cases h
    | cons c l ih =>
      rw [takeThrough] at h
      rcases List.mem_cons.mp h with rfl | h
      · exact ⟨[], l, rfl, rfl⟩
      · cases hstop : stop n c with
        | true =>
          rw [hstop] at h
          cases h
        | false =>
          rw [hstop] at h
          rcases ih h with ⟨before, after, hl, hbefore⟩
          exact ⟨c :: before, after, by rw [hl]; rfl, by rw [stopsAt, hstop, hbefore]; rfl⟩
  · rintro ⟨before, after, rfl, hbefore⟩
    rw [takeThrough_append, hbefore, takeThrough_of_not_stopsAt hbefore]
    simp [takeThrough]

end

/-! ## 6. An element of a concatenation -/

theorem exists_split_of_flatMap {β γ : Type*} {f : β → List γ} {l : List β} {c : γ}
    {earlier later : List γ} (h : l.flatMap f = earlier ++ c :: later) :
    ∃ before b after pre post, l = before ++ b :: after ∧ f b = pre ++ c :: post ∧
      earlier = before.flatMap f ++ pre := by
  induction l generalizing earlier with
  | nil => simp at h
  | cons b l ih =>
    have hcons : ∀ {rest : List γ}, l.flatMap f = rest ++ c :: later → earlier = f b ++ rest →
        ∃ before b' after pre post, b :: l = before ++ b' :: after ∧ f b' = pre ++ c :: post ∧
          earlier = before.flatMap f ++ pre := by
      intro rest hrest hearlier
      rcases ih hrest with ⟨before, b', after, pre, post, hl, hb', hpre⟩
      refine ⟨b :: before, b', after, pre, post, by rw [hl]; rfl, hb', ?_⟩
      rw [hearlier, hpre, List.flatMap_cons, List.append_assoc]
    rw [List.flatMap_cons] at h
    rcases List.append_eq_append_iff.mp h with ⟨t, hearlier, ht⟩ | ⟨t, hb, ht⟩
    · exact hcons ht hearlier
    · cases t with
      | nil =>
        have hrest : l.flatMap f = [] ++ c :: later := ht.symm
        exact hcons hrest (by rw [hb, List.append_nil, List.append_nil])
      | cons c' t =>
        rw [List.cons_append, List.cons.injEq] at ht
        exact ⟨[], b, l, earlier, t, rfl, by rw [hb, ht.1], rfl⟩

/-! ## 7. The pieces between separators -/

theorem mem_intercalate {α : Type*} {sep : List α} {l : List (List α)} {a : α}
    (h : a ∈ sep.intercalate l) : a ∈ sep ∨ ∃ s ∈ l, a ∈ s := by
  induction l with
  | nil => simp at h
  | cons s l ih =>
    cases l with
    | nil =>
      rw [List.intercalate_singleton] at h
      exact .inr ⟨s, by simp, h⟩
    | cons t l =>
      rw [List.intercalate_cons_cons, List.mem_append, List.mem_append] at h
      rcases h with (h | h) | h
      · exact .inr ⟨s, by simp, h⟩
      · exact .inl h
      · exact (ih h).imp_right fun ⟨u, hu, hau⟩ => ⟨u, List.mem_cons_of_mem _ hu, hau⟩

/-- A function that goes through the separator goes through a joined text. -/
theorem intercalate_map {β γ : Type*} {f : List β → List γ} {sep : List β} {sep' : List γ}
    (hnil : f [] = []) (hsep : ∀ x y, f (x ++ sep ++ y) = f x ++ sep' ++ f y)
    (l : List (List β)) : f (sep.intercalate l) = sep'.intercalate (l.map f) := by
  induction l with
  | nil => exact hnil
  | cons s l ih =>
    cases l with
    | nil => rw [List.intercalate_singleton, List.map_singleton, List.intercalate_singleton]
    | cons t l =>
      rw [List.intercalate_cons_cons, hsep, ih]
      simp only [List.map_cons, List.intercalate_cons_cons]

theorem not_mem_of_mem_splitOn {a : α} {l s : List α} (hs : s ∈ l.splitOn a) : a ∉ s := by
  induction l generalizing s with
  | nil =>
    rw [List.splitOn_nil, List.mem_singleton] at hs
    rw [hs]
    exact List.not_mem_nil
  | cons b l ih =>
    rw [List.splitOn_cons_eq_if_modifyHead] at hs
    split at hs
    · obtain rfl | hs := List.mem_cons.mp hs
      · exact List.not_mem_nil
      · exact ih hs
    · rename_i hb
      obtain ⟨piece, pieces, hl⟩ := List.exists_cons_of_ne_nil (List.splitOn_ne_nil a l)
      rw [hl, List.modifyHead_cons] at hs
      obtain rfl | hs := List.mem_cons.mp hs
      · have hpiece : a ∉ piece := ih (by rw [hl]; exact List.mem_cons_self)
        rw [List.mem_cons, not_or]
        exact ⟨fun hab => hb (by rw [hab]; exact beq_self_eq_true b), hpiece⟩
      · exact ih (by rw [hl]; exact List.mem_cons_of_mem _ hs)

-- a joined text splits into its parts exactly when no part has the separator in it
theorem splitOn_intercalate_eq_iff {a : α} {l : List (List α)} (hne : l ≠ []) :
    ([a].intercalate l).splitOn a = l ↔ ∀ s ∈ l, a ∉ s := by
  apply Iff.intro
  · intro h s hs
    rw [← h] at hs
    exact not_mem_of_mem_splitOn hs
  · intro h
    exact List.splitOn_intercalate a h hne

theorem splitOn_inj {a : α} {s t : List α} : s.splitOn a = t.splitOn a ↔ s = t := by
  refine ⟨fun h => ?_, congrArg _⟩
  have hjoin := congrArg (List.intercalate [a]) h
  rwa [List.intercalate_splitOn, List.intercalate_splitOn] at hjoin

theorem splitOn_of_splitOnce {a : α} {s first rest : List α}
    (h : splitOnce a s = some (first, rest)) :
    s.splitOn a = first :: rest.splitOn a := by
  obtain ⟨rfl, hfirst⟩ := splitOnce_eq_some_iff.mp h
  exact List.splitOn_append_cons_self_of_not_mem hfirst rest

theorem exists_splitOnce_of_splitOn {a : α} {s first : List α} {ls : List (List α)}
    (hls : ls ≠ []) (h : s.splitOn a = first :: ls) :
    ∃ rest, splitOnce a s = some (first, rest) ∧ rest.splitOn a = ls := by
  cases hsplit : splitOnce a s with
  | none =>
    rw [List.splitOn_eq_singleton (splitOnce_eq_none_iff.mp hsplit)] at h
    cases h
    exact absurd rfl hls
  | some p =>
    rw [splitOn_of_splitOnce hsplit] at h
    cases h
    exact ⟨p.2, rfl, rfl⟩

-- terminated pieces, and the empty one behind the last terminator
theorem splitOn_flatMap {a : α} {ss : List (List α)} (h : ∀ s ∈ ss, a ∉ s) :
    (ss.flatMap (· ++ [a])).splitOn a = ss ++ [[]] := by
  induction ss with
  | nil => rfl
  | cons s ss ih =>
    have hcut : (s :: ss).flatMap (· ++ [a]) = s ++ a :: ss.flatMap (· ++ [a]) := by simp
    rw [hcut, List.splitOn_append_cons_self_of_not_mem (h s List.mem_cons_self),
      ih fun t ht => h t (List.mem_cons_of_mem _ ht)]
    rfl

-- what is added behind belongs to the last piece
theorem mem_splitOn_concat {a b : α} (hb : b ≠ a) {l s : List α}
    (h : s ∈ (l ++ [b]).splitOn a) : s ∈ l.splitOn a ∨ ∃ t ∈ l.splitOn a, s = t ++ [b] := by
  have hconcat {t : List α} (ht : a ∉ t) : a ∉ t ++ [b] := by
    simp [ht, Ne.symm hb]
  by_cases ha : a ∈ l
  · obtain ⟨x, y, rfl, hy⟩ := exists_last ha
    rw [List.append_assoc, List.cons_append, List.splitOn_append_cons_self,
      List.splitOn_eq_singleton (hconcat hy), List.mem_append, List.mem_singleton] at h
    rw [List.splitOn_append_cons_self, List.splitOn_eq_singleton hy]
    rcases h with h | h
    · exact .inl (List.mem_append_left _ h)
    · exact .inr ⟨y, List.mem_append_right _ (List.mem_singleton.mpr rfl), h⟩
  · rw [List.splitOn_eq_singleton (hconcat ha), List.mem_singleton] at h
    rw [List.splitOn_eq_singleton ha]
    exact .inr ⟨l, List.mem_singleton.mpr rfl, h⟩

theorem intercalate_cons {α : Type*} (sep s : List α) (l : List (List α)) :
    sep.intercalate (s :: l) = s ++ l.flatMap (sep ++ ·) := by
  induction l generalizing s with
  | nil => simp
  | cons t l ih =>
    rw [List.intercalate_cons_cons, ih t, List.flatMap_cons]
    simp

theorem intercalate_append_cons {α : Type*} (sep : List α) (l : List (List α)) (s : List α)
    (m : List (List α)) : sep.intercalate (l ++ s :: m) =
      l.flatMap (· ++ sep) ++ (s ++ m.flatMap (sep ++ ·)) := by
  induction l with
  | nil => exact intercalate_cons sep s m
  | cons t l ih =>
    obtain ⟨u, us, hu⟩ := List.exists_cons_of_ne_nil (show l ++ s :: m ≠ [] by simp)
    rw [List.cons_append, hu, List.intercalate_cons_cons, ← hu, ih]
    simp

theorem exists_last_where {α : Type*} {p : α → Prop} {l : List α} (h : ∃ a ∈ l, p a) :
    ∃ x a y, l = x ++ a :: y ∧ p a ∧ ∀ b ∈ y, ¬ p b := by
  induction l with
  | nil =>
    obtain ⟨a, ha, -⟩ := h
    cases ha
  | cons c l ih =>
    by_cases hl : ∃ a ∈ l, p a
    · obtain ⟨x, a, y, rfl, hp, hy⟩ := ih hl
      exact ⟨c :: x, a, y, rfl, hp, hy⟩
    · obtain ⟨a, ha, hp⟩ := h
      rcases List.mem_cons.mp ha with rfl | ha
      · exact ⟨[], a, l, rfl, hp, fun b hb hpb => hl ⟨b, hb, hpb⟩⟩
      · exact absurd ⟨a, ha, hp⟩ hl

/-! ## 8. Counting -/

theorem length_le_mul_of_count_le {l s : List α} {k : Nat} (hmem : ∀ a ∈ l, a ∈ s)
    (hcount : ∀ a ∈ s, l.count a ≤ k) : l.length ≤ k * s.length := by
  induction s generalizing l with
  | nil =>
    cases l with
    | nil => exact Nat.zero_le _
    | cons a l => cases hmem a List.mem_cons_self
  | cons b s ih =>
    -- without the occurrences of `b`
    have hrest : (l.filter (· ≠ b)).length ≤ k * s.length := by
      refine ih ?_ ?_
      · intro a ha
        obtain ⟨hal, hab⟩ := List.mem_filter.mp ha
        obtain rfl | hs := List.mem_cons.mp (hmem a hal)
        · simp at hab
        · exact hs
      · intro a ha
        exact le_trans (List.filter_sublist.count_le a) (hcount a (List.mem_cons_of_mem _ ha))
    have hb := hcount b List.mem_cons_self
    rw [List.count_eq_length_filter] at hb
    have hsplit := List.length_eq_length_filter_add (l := l) (· == b)
    rw [List.length_cons, Nat.mul_succ]
    simp only [ne_eq, decide_not] at hrest
    simp only [beq_eq_decide] at hsplit hb
    omega

/-! ## 9. Stable sorting -/

section
variable {β γ : Type*} [LinearOrder γ]

/-- `m` is `l` in ascending order of the key, elements of one key in the order of `l`. -/
structure StableSort (key : β → γ) (l m : List β) : Prop where
  perm : m.Perm l
  sorted : m.Pairwise fun a b => key a ≤ key b
  stable : ∀ k, (m.filter fun b => key b = k) = l.filter fun b => key b = k

theorem stableSort_insertionSort (key : β → γ) (l : List β) :
    StableSort key l (l.insertionSort fun a b => key a ≤ key b) := by
  have hperm := List.perm_insertionSort (fun a b => key a ≤ key b) l
  have : Std.Total (α := β) fun a b => key a ≤ key b := ⟨fun a b => le_total (key a) (key b)⟩
  have : IsTrans β fun a b => key a ≤ key b := ⟨fun _ _ _ => le_trans⟩
  refine ⟨hperm, List.pairwise_insertionSort _ l, fun k => ?_⟩
  -- the elements of one key are sorted as they stand, so that they stay a sublist
  have hequal : (l.filter fun b => key b = k).Pairwise fun a b => key a ≤ key b := by
    refine List.Pairwise.imp_of_mem ?_ (List.pairwise_of_forall (R := fun _ _ => True) (by simp))
    intro a b ha hb _
    have ha' : key a = k := by simpa using (List.mem_filter.mp ha).2
    have hb' : key b = k := by simpa using (List.mem_filter.mp hb).2
    exact (ha'.trans hb'.symm).le
  have hsub := (List.sublist_insertionSort hequal List.filter_sublist).filter fun b => key b = k
  rw [List.filter_filter] at hsub
  simp only [Bool.and_self] at hsub
  exact (hsub.eq_of_length (hperm.filter _).length_eq.symm).symm

end

end Snail.Reasoning
