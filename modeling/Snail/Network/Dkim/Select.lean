import Snail.Network.Dkim.Verify
import Mathlib.Data.List.Nodup

/-!
# Select — which header fields a signature covers

`compute_header_hash` walks the `h=` list and takes, for each name, the lowest field of that name
not yet taken.  So the `k`-th mention of a name stands for the `k`-th field of that name counted
from the bottom, and for nothing once the fields have run out.
-/

open Snail.Reasoning

namespace Snail.Network

/-! ## 1. The fields of one name -/

-- in header order, with their positions; the signature's own field is never among them
def candidates (fields : List HeaderField) (sigIdx : Nat) (name : Str) : List (HeaderField × Nat) :=
  fields.zipIdx.filter fun fi => fi.2 != sigIdx && eqIgnoreAsciiCase fi.1.name name

-- how often a list of names mentions `name`
def mentions (names : List Str) (name : Str) : Nat := names.countP (eqIgnoreAsciiCase · name)

section
variable {fields : List HeaderField} {sigIdx : Nat} {name other : Str} {fi gj : HeaderField × Nat}

theorem eqIgnoreAsciiCase_iff {s t : Str} :
    eqIgnoreAsciiCase s t = true ↔ toAsciiLowercase s = toAsciiLowercase t := by
  simp [eqIgnoreAsciiCase]

theorem candidates_congr (h : eqIgnoreAsciiCase other name = true) :
    candidates fields sigIdx other = candidates fields sigIdx name := by
  have hlower := eqIgnoreAsciiCase_iff.mp h
  simp only [candidates, eqIgnoreAsciiCase, hlower]

theorem mem_candidates :
    fi ∈ candidates fields sigIdx name ↔
      fields[fi.2]? = some fi.1 ∧ fi.2 ≠ sigIdx ∧ eqIgnoreAsciiCase fi.1.name name = true := by
  simp [candidates, List.mem_zipIdx_iff_getElem?]

-- a field stands under one name only
theorem eqIgnoreAsciiCase_of_mem_candidates (h : fi ∈ candidates fields sigIdx name)
    (h' : fi ∈ candidates fields sigIdx other) : eqIgnoreAsciiCase other name = true := by
  have hname := eqIgnoreAsciiCase_iff.mp (mem_candidates.mp h).2.2
  have hother := eqIgnoreAsciiCase_iff.mp (mem_candidates.mp h').2.2
  rw [eqIgnoreAsciiCase_iff, ← hother, hname]

theorem eq_of_mem_candidates (h : fi ∈ candidates fields sigIdx name)
    (h' : gj ∈ candidates fields sigIdx other) (hidx : fi.2 = gj.2) : fi = gj := by
  have hf := (mem_candidates.mp h).1
  have hg := (mem_candidates.mp h').1
  rw [hidx, hg, Option.some.injEq] at hf
  exact Prod.ext hf.symm hidx

theorem nodup_candidates : (candidates fields sigIdx name).Nodup := by
  have hidx : (fields.zipIdx.map Prod.snd).Nodup := by
    rw [List.zipIdx_map_snd]
    exact List.nodup_range'
  exact (List.Nodup.of_map Prod.snd hidx).filter _

/-! ## 2. What has been taken -/

-- after the names `seen`, the fields left under a name are all but its lowest ones
def Taken (fields : List HeaderField) (sigIdx : Nat) (seen : List Str) (consumed : List Nat) :
    Prop :=
  ∀ name, (candidates fields sigIdx name).filter (fun fi => !consumed.contains fi.2) =
    (candidates fields sigIdx name).take
      ((candidates fields sigIdx name).length - mentions seen name)

-- the field the next mention of a name stands for
def nthFromBottom (fields : List HeaderField) (sigIdx : Nat) (seen : List Str) (name : Str) :
    Option (HeaderField × Nat) :=
  (candidates fields sigIdx name).reverse[mentions seen name]?

theorem taken_nil : Taken fields sigIdx [] [] := by
  intro name
  simp [mentions]

theorem getLast?_take_sub {α : Type} (l : List α) (k : Nat) :
    (l.take (l.length - k)).getLast? = l.reverse[k]? := by
  by_cases hk : k < l.length
  · rw [List.getLast?_take, if_neg (by omega), List.getElem?_reverse hk,
      List.getElem?_eq_getElem (by omega), Option.some_or]
    rw [List.getElem?_eq_getElem (by omega)]
    congr 2
    omega
  · rw [Nat.sub_eq_zero_of_le (by omega), List.getElem?_eq_none (by simp; omega)]
    rfl

variable {seen : List Str} {consumed : List Nat}

theorem pickField_eq (h : Taken fields sigIdx seen consumed) (name : Str) :
    pickField fields sigIdx consumed name = nthFromBottom fields sigIdx seen name := by
  have hfilter : fields.zipIdx.filter (fun fi =>
      fi.2 != sigIdx && !consumed.contains fi.2 && eqIgnoreAsciiCase fi.1.name name) =
      (candidates fields sigIdx name).filter fun fi => !consumed.contains fi.2 := by
    rw [candidates, List.filter_filter]
    congr 1
    funext fi
    cases fi.2 != sigIdx <;> cases consumed.contains fi.2 <;> simp
  rw [pickField, ← List.getLast?_filter, hfilter, h name, getLast?_take_sub]
  rfl

theorem mentions_cons (seen : List Str) (other name : Str) :
    mentions (other :: seen) name =
      mentions seen name + if eqIgnoreAsciiCase other name then 1 else 0 :=
  List.countP_cons

theorem mentions_congr (h : eqIgnoreAsciiCase other name = true) :
    mentions seen other = mentions seen name := by
  have hlower := eqIgnoreAsciiCase_iff.mp h
  simp only [mentions, eqIgnoreAsciiCase, hlower]

theorem filter_consumed (consumed : List Nat) (idx : Nat) (l : List (HeaderField × Nat)) :
    l.filter (fun fi => !(idx :: consumed).contains fi.2) =
      (l.filter fun fi => !consumed.contains fi.2).filter fun fi => fi.2 != idx := by
  rw [List.filter_filter]
  congr 1
  funext fi
  cases h : fi.2 == idx <;> simp_all

theorem Taken.pick (h : Taken fields sigIdx seen consumed)
    (hpick : nthFromBottom fields sigIdx seen name = some fi) :
    Taken fields sigIdx (name :: seen) (fi.2 :: consumed) := by
  have hmem : fi ∈ candidates fields sigIdx name :=
    List.mem_reverse.mp (List.mem_of_getElem? hpick)
  intro other
  rw [filter_consumed, h other, mentions_cons]
  by_cases hsame : eqIgnoreAsciiCase name other = true
  · -- the field taken was the last one left under this name
    rw [if_pos hsame]
    rw [nthFromBottom, candidates_congr hsame] at hpick
    generalize hC : candidates fields sigIdx other = C at hpick ⊢
    rw [mentions_congr hsame] at hpick
    have hlt : mentions seen other < C.length := by
      have := (List.getElem?_eq_some_iff.mp hpick).1
      simpa using this
    have hcut : C.take (C.length - mentions seen other) =
        C.take (C.length - (mentions seen other + 1)) ++ [fi] := by
      have hsucc : C.length - mentions seen other = C.length - (mentions seen other + 1) + 1 := by
        omega
      rw [List.getElem?_reverse hlt] at hpick
      rw [hsucc, List.take_add_one, show C.length - (mentions seen other + 1) =
        C.length - 1 - mentions seen other by omega, hpick]
      rfl
    have hnodup : (C.take (C.length - mentions seen other)).Nodup := by
      rw [← hC]
      exact nodup_candidates.sublist (List.take_sublist _ _)
    rw [hcut] at hnodup ⊢
    have hfresh : ∀ gj ∈ C.take (C.length - (mentions seen other + 1)), gj.2 ≠ fi.2 := by
      intro gj hgj hidx
      have hgC : gj ∈ candidates fields sigIdx other := by
        rw [hC]
        exact List.mem_of_mem_take hgj
      have heq := eq_of_mem_candidates hgC hmem hidx
      rw [heq] at hgj
      exact (List.nodup_append.mp hnodup).2.2 fi hgj fi (by simp) rfl
    rw [List.filter_append, List.filter_eq_self.mpr (by simpa using hfresh)]
    simp
  · rw [if_neg hsame, Nat.add_zero, List.filter_eq_self]
    intro gj hgj
    have hgC := List.mem_of_mem_take hgj
    rw [bne_iff_ne]
    intro hidx
    rw [eq_of_mem_candidates hgC hmem hidx] at hgC
    exact hsame (eqIgnoreAsciiCase_of_mem_candidates hgC hmem)

theorem Taken.skip (h : Taken fields sigIdx seen consumed)
    (hpick : nthFromBottom fields sigIdx seen name = none) :
    Taken fields sigIdx (name :: seen) consumed := by
  intro other
  rw [h other, mentions_cons]
  by_cases hsame : eqIgnoreAsciiCase name other = true
  · rw [nthFromBottom, candidates_congr hsame, List.getElem?_eq_none_iff,
      List.length_reverse] at hpick
    rw [mentions_congr hsame] at hpick
    rw [if_pos hsame, Nat.sub_eq_zero_of_le hpick, Nat.sub_eq_zero_of_le (by omega)]
  · rw [if_neg hsame, Nat.add_zero]

/-! ## 3. The fields an `h=` list selects -/

theorem mem_selectFields_iff (h : Taken fields sigIdx seen consumed) {names : List Str} {j : Nat}
    (hfi : (candidates fields sigIdx name).reverse[j]? = some fi) :
    fi ∈ selectFields fields sigIdx names consumed ↔
      mentions seen name ≤ j ∧ j < mentions seen name + mentions names name := by
  have hmem : fi ∈ candidates fields sigIdx name :=
    List.mem_reverse.mp (List.mem_of_getElem? hfi)
  induction names generalizing seen consumed with
  | nil =>
    simp only [selectFields, List.not_mem_nil, mentions, List.countP_nil, false_iff]
    omega
  | cons n names ih =>
    -- this mention stands for `fi` exactly when it is its turn
    have hturn : nthFromBottom fields sigIdx seen n = some fi ↔
        eqIgnoreAsciiCase n name = true ∧ mentions seen name = j := by
      apply Iff.intro
      · intro hn
        have hsame := eqIgnoreAsciiCase_of_mem_candidates hmem
          (List.mem_reverse.mp (List.mem_of_getElem? hn))
        rw [nthFromBottom, candidates_congr hsame, mentions_congr hsame] at hn
        have hnodup := List.nodup_reverse.mpr (@nodup_candidates fields sigIdx name)
        rcases List.getElem?_eq_some_iff.mp hn with ⟨hlt, -⟩
        exact ⟨hsame, (List.getElem?_inj hlt hnodup).mp (hn.trans hfi.symm)⟩
      · rintro ⟨hsame, hj⟩
        rw [nthFromBottom, candidates_congr hsame, mentions_congr hsame, hj]
        exact hfi
    rw [selectFields, pickField_eq h]
    have hsplit := mentions_cons names n name
    have hseen := mentions_cons seen n name
    cases hp : nthFromBottom fields sigIdx seen n with
    | some gj =>
      have hrest : fi ∈ selectFields fields sigIdx names (gj.2 :: consumed) ↔
          mentions (n :: seen) name ≤ j ∧ j < mentions (n :: seen) name + mentions names name :=
        ih (h.pick hp)
      change fi ∈ gj :: selectFields fields sigIdx names (gj.2 :: consumed) ↔ _
      rw [List.mem_cons, hrest]
      rw [hp, Option.some.injEq] at hturn
      rw [@eq_comm _ fi gj, hturn, hsplit, hseen]
      by_cases hsame : eqIgnoreAsciiCase n name = true
      · simp only [hsame, if_true, true_and]
        omega
      · simp only [hsame, if_false, false_and, false_or, Bool.false_eq_true]
        omega
    | none =>
      have hrest : fi ∈ selectFields fields sigIdx names consumed ↔
          mentions (n :: seen) name ≤ j ∧ j < mentions (n :: seen) name + mentions names name :=
        ih (h.skip hp)
      change fi ∈ selectFields fields sigIdx names consumed ↔ _
      rw [hrest]
      rw [hp] at hturn
      rw [hsplit, hseen]
      by_cases hsame : eqIgnoreAsciiCase n name = true
      · simp only [hsame, true_and, reduceCtorEq, false_iff] at hturn
        simp only [hsame, if_true]
        omega
      · simp only [hsame, if_false, Bool.false_eq_true]
        omega

-- the top-most field of a name is covered when the name is mentioned once for each such field
theorem head_mem_selectFields_iff {names : List Str}
    (hfi : (candidates fields sigIdx name).head? = some fi) :
    fi ∈ selectFields fields sigIdx names [] ↔
      (candidates fields sigIdx name).length ≤ mentions names name := by
  rcases List.head?_eq_some_iff.mp hfi with ⟨rest, hc⟩
  have hlast : (candidates fields sigIdx name).reverse[rest.length]? = some fi := by
    rw [hc, List.reverse_cons, List.getElem?_append_right (by simp)]
    simp
  rw [mem_selectFields_iff taken_nil hlast, hc]
  simp only [mentions, List.countP_nil, List.length_cons]
  omega

end

end Snail.Network
