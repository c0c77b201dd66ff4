import Mathlib.Algebra.Order.BigOperators.Group.List
import Snail.Network.Dkim.Fields
import Snail.Network.Dkim.Select

/-!
# HeaderHash — what a DKIM header hash covers

The bytes `compute_header_hash` feeds to SHA-256: the selected fields in canonical form, each with
its CRLF, and the signature's own field without one.
-/

open Snail.Reasoning Snail.Mail

namespace Snail.Network

def headerHashInput (fields : List HeaderField) (sigIdx : Nat) (current : HeaderField)
    (sig : DkimSignature) : Bytes :=
  (selectFields fields sigIdx sig.signedHeaders []).flatMap
      (fun fi => canonicalizeHeader fi.1.name fi.1.value sig.headerCanon true) ++
    canonicalizeHeader current.name sig.bStrippedValue sig.headerCanon false

theorem computeHeaderHash_eq (crypto : Crypto) (fields : List HeaderField) (sigIdx : Nat)
    (current : HeaderField) (sig : DkimSignature) :
    computeHeaderHash crypto fields sigIdx current sig =
      crypto.sha256 (headerHashInput fields sigIdx current sig) := rfl

/-! ## 1. Mention by mention -/

section
variable {fields : List HeaderField} {sigIdx : Nat} {name : Str} {f : HeaderField}

-- the field that the mention at place `i` stands for
def mentioned (fields : List HeaderField) (sigIdx : Nat) (names : List Str) (i : Nat) :
    Option (HeaderField × Nat) :=
  names[i]?.bind fun name => (candidates fields sigIdx name).reverse[mentions (names.take i) name]?

theorem selectFields_eq_filterMap {seen : List Str} {consumed : List Nat}
    (h : Taken fields sigIdx seen consumed) (names : List Str) :
    selectFields fields sigIdx names consumed =
      (List.range names.length).filterMap fun i => names[i]?.bind fun name =>
        (candidates fields sigIdx name).reverse[
          mentions seen name + mentions (names.take i) name]? := by
  induction names generalizing seen consumed with
  | nil => rfl
  | cons n names ih =>
    -- the rest of the list has seen one name more
    have hrest : ∀ i, ((n :: names)[i + 1]?.bind fun name =>
          (candidates fields sigIdx name).reverse[
        mentions seen name + mentions ((n :: names).take (i + 1)) name]?) =
        names[i]?.bind fun name => (candidates fields sigIdx name).reverse[
          mentions (n :: seen) name + mentions (names.take i) name]? := by
      intro i
      rw [List.getElem?_cons_succ]
      congr 1
      funext name
      rw [List.take_succ_cons, mentions_cons, mentions_cons, Nat.add_right_comm, Nat.add_assoc]
    rw [selectFields, pickField_eq h, List.length_cons, List.range_succ_eq_map, List.filterMap_cons,
      List.filterMap_map]
    have hhead : ((n :: names)[0]?.bind fun name => (candidates fields sigIdx name).reverse[
        mentions seen name + mentions ((n :: names).take 0) name]?) =
        nthFromBottom fields sigIdx seen n := rfl
    rw [hhead]
    cases hp : nthFromBottom fields sigIdx seen n with
    | some fi =>
      simp only
      rw [ih (h.pick hp)]
      congr 2
      funext i
      exact (hrest i).symm
    | none =>
      simp only
      rw [ih (h.skip hp)]
      congr 1
      funext i
      exact (hrest i).symm

theorem selectFields_eq_mentioned (fields : List HeaderField) (sigIdx : Nat) (names : List Str) :
    selectFields fields sigIdx names [] =
      (List.range names.length).filterMap (mentioned fields sigIdx names) := by
  rw [selectFields_eq_filterMap taken_nil]
  congr 1
  funext i
  unfold mentioned
  congr 1
  funext name
  rw [show mentions [] name = 0 from rfl, Nat.zero_add]

/-! ## 2. A field on top -/

-- all positions move down by one
def shifted (fi : HeaderField × Nat) : HeaderField × Nat := (fi.1, fi.2 + 1)

theorem candidates_cons (f : HeaderField) (fields : List HeaderField) (sigIdx : Nat) (name : Str) :
    candidates (f :: fields) (sigIdx + 1) name =
      (if eqIgnoreAsciiCase f.name name then [(f, 0)] else []) ++
        (candidates fields sigIdx name).map shifted := by
  have hidx : fields.zipIdx 1 = fields.zipIdx.map shifted := by
    rw [List.zipIdx_succ]
    rfl
  have hkeep : ((fun fi : HeaderField × Nat =>
      fi.2 != sigIdx + 1 && eqIgnoreAsciiCase fi.1.name name) ∘ shifted) =
      fun fi => fi.2 != sigIdx && eqIgnoreAsciiCase fi.1.name name := by
    funext fi
    simp [shifted, bne]
  unfold candidates
  rw [List.zipIdx_cons, hidx, List.filter_cons, List.filter_map, hkeep]
  simp only [bne_iff_ne, Bool.and_eq_true, ne_eq]
  by_cases h : eqIgnoreAsciiCase f.name name = true
  · rw [if_pos ⟨by omega, h⟩, if_pos h]
    rfl
  · rw [if_neg (fun hh => h hh.2), if_neg h]
    rfl

-- the new field is the last of its name counted from the bottom
theorem getElem?_candidates_cons (f : HeaderField) (fields : List HeaderField) (sigIdx : Nat)
    (name : Str) (k : Nat) :
    (candidates (f :: fields) (sigIdx + 1) name).reverse[k]? =
      if eqIgnoreAsciiCase f.name name ∧ k = (candidates fields sigIdx name).length then some (f, 0)
      else (candidates fields sigIdx name).reverse[k]?.map shifted := by
  rw [candidates_cons, List.reverse_append, ← List.map_reverse]
  by_cases h : eqIgnoreAsciiCase f.name name = true
  · rw [if_pos h]
    by_cases hk : k = (candidates fields sigIdx name).length
    · rw [if_pos ⟨h, hk⟩, List.getElem?_append_right (by simp [hk])]
      simp [hk]
    · rw [if_neg (fun hh => hk hh.2)]
      by_cases hlt : k < (candidates fields sigIdx name).length
      · rw [List.getElem?_append_left (by simpa using hlt), List.getElem?_map]
      · rw [List.getElem?_eq_none (by simp; omega), List.getElem?_eq_none (by simp; omega)]
        rfl
  · rw [if_neg h, if_neg (fun hh => h hh.1), List.reverse_nil, List.append_nil, List.getElem?_map]

-- whether the mention at place `i` is the first that the new field answers
def Reaches (fields : List HeaderField) (sigIdx : Nat) (f : HeaderField) (names : List Str)
    (i : Nat) : Prop :=
  ∃ name, names[i]? = some name ∧ eqIgnoreAsciiCase f.name name = true ∧
    mentions (names.take i) name = (candidates fields sigIdx name).length

theorem mentioned_cons_of_reaches {names : List Str} {i : Nat}
    (h : Reaches fields sigIdx f names i) :
    mentioned fields sigIdx names i = none ∧
      mentioned (f :: fields) (sigIdx + 1) names i = some (f, 0) := by
  rcases h with ⟨name, hname, hsame, hcount⟩
  unfold mentioned
  rw [hname, Option.bind_some, Option.bind_some, getElem?_candidates_cons, if_pos ⟨hsame, hcount⟩]
  exact ⟨List.getElem?_eq_none (by simp [hcount]), rfl⟩

theorem mentioned_cons_of_not_reaches {names : List Str} {i : Nat}
    (h : ¬ Reaches fields sigIdx f names i) :
    mentioned (f :: fields) (sigIdx + 1) names i =
      (mentioned fields sigIdx names i).map shifted := by
  unfold mentioned
  cases hname : names[i]? with
  | none => rfl
  | some name =>
    rw [Option.bind_some, Option.bind_some, getElem?_candidates_cons,
      if_neg (fun hh => h ⟨name, hname, hh⟩)]

theorem mentions_take_succ {names : List Str} {i : Nat} {n : Str} (h : names[i]? = some n)
    (name : Str) :
    mentions (names.take (i + 1)) name =
      mentions (names.take i) name + if eqIgnoreAsciiCase n name then 1 else 0 := by
  unfold mentions
  rw [List.take_add_one, h, List.countP_append, Option.toList_some, List.countP_singleton]

theorem mentions_take_le (names : List Str) (i : Nat) (name : Str) :
    mentions (names.take i) name ≤ mentions names name :=
  (List.take_sublist i names).countP_le

theorem length_candidates_congr {other : Str} (h : eqIgnoreAsciiCase f.name other = true) :
    (candidates fields sigIdx other).length = (candidates fields sigIdx f.name).length := by
  rw [candidates_congr h]

-- some mention reaches the new field exactly when its name is mentioned more often than it occurs
theorem exists_reaches_iff (fields : List HeaderField) (sigIdx : Nat) (f : HeaderField)
    (names : List Str) :
    (∃ i < names.length, Reaches fields sigIdx f names i) ↔
      (candidates fields sigIdx f.name).length < mentions names f.name := by
  apply Iff.intro
  · rintro ⟨i, -, name, hname, hsame, hcount⟩
    have hsymm : eqIgnoreAsciiCase name f.name = true :=
      eqIgnoreAsciiCase_iff.mpr (eqIgnoreAsciiCase_iff.mp hsame).symm
    have hle := mentions_take_le names (i + 1) f.name
    rw [mentions_take_succ hname, if_pos hsymm, mentions_congr hsame, hcount,
      length_candidates_congr hsame] at hle
    omega
  · intro hlt
    generalize hc : (candidates fields sigIdx f.name).length = c at hlt
    -- the last place up to which the name is mentioned at most `c` times
    have hex : ∃ i, c < mentions (names.take (i + 1)) f.name := by
      refine ⟨names.length, ?_⟩
      rw [List.take_of_length_le (by omega)]
      exact hlt
    have hfind := Nat.find_spec hex
    generalize hi : Nat.find hex = i at hfind
    have hbefore : mentions (names.take i) f.name ≤ c := by
      cases i with
      | zero => simp [mentions]
      | succ i =>
        have hmin := Nat.find_min hex (m := i) (by omega)
        omega
    have hlen : i < names.length := by
      rcases Nat.lt_or_ge i names.length with h | h
      · exact h
      · rw [List.take_of_length_le (by omega)] at hfind hbefore
        omega
    have hname := List.getElem?_eq_getElem hlen
    rw [mentions_take_succ hname] at hfind
    split at hfind
    · rename_i hsymm
      have hsame : eqIgnoreAsciiCase f.name names[i] = true :=
        eqIgnoreAsciiCase_iff.mpr (eqIgnoreAsciiCase_iff.mp hsymm).symm
      refine ⟨i, hlen, names[i], hname, hsame, ?_⟩
      rw [← mentions_congr hsame, length_candidates_congr hsame, hc]
      omega
    · omega

-- what a mention adds to the hash input
def mentionBytes (canon : HeaderCanon) (picked : Option (HeaderField × Nat)) : Bytes :=
  picked.elim [] fun fi => canonicalizeHeader fi.1.name fi.1.value canon true

theorem mentionBytes_shifted (canon : HeaderCanon) (picked : Option (HeaderField × Nat)) :
    mentionBytes canon (picked.map shifted) = mentionBytes canon picked := by
  cases picked with
  | none => rfl
  | some fi => rfl

theorem canonicalizeHeader_ne_nil (name : Str) (value : Bytes) (canon : HeaderCanon) :
    canonicalizeHeader name value canon true ≠ [] := by
  unfold canonicalizeHeader
  rw [if_pos rfl]
  exact List.append_ne_nil_of_right_ne_nil _ (by decide)

theorem flatMap_filterMap {α β γ : Type} (l : List α) (g : α → Option β) (k : β → List γ) :
    (l.filterMap g).flatMap k = l.flatMap fun a => (g a).elim [] k := by
  induction l with
  | nil => rfl
  | cons a l ih =>
    rw [List.filterMap_cons, List.flatMap_cons]
    cases g a with
    | none => exact ih
    | some b =>
      rw [List.flatMap_cons, ih]
      rfl

theorem headerHashInput_eq (fields : List HeaderField) (sigIdx : Nat) (current : HeaderField)
    (sig : DkimSignature) :
    headerHashInput fields sigIdx current sig =
      (List.range sig.signedHeaders.length).flatMap
          (fun i => mentionBytes sig.headerCanon (mentioned fields sigIdx sig.signedHeaders i)) ++
        canonicalizeHeader current.name sig.bStrippedValue sig.headerCanon false := by
  unfold headerHashInput
  rw [selectFields_eq_mentioned, flatMap_filterMap]
  rfl

theorem length_mentionBytes_le (canon : HeaderCanon) (names : List Str) (i : Nat) :
    (mentionBytes canon (mentioned fields sigIdx names i)).length ≤
      (mentionBytes canon (mentioned (f :: fields) (sigIdx + 1) names i)).length := by
  by_cases h : Reaches fields sigIdx f names i
  · rw [(mentioned_cons_of_reaches h).1]
    exact Nat.zero_le _
  · rw [mentioned_cons_of_not_reaches h, mentionBytes_shifted]

/-- Trace headers and signatures.  The `k`-th mention of a name in `h=` stands for the `k`-th field
of that name from the bottom, or for nothing; so a field put on top leaves the hash input alone
exactly when its name is mentioned no more often than it already occurs beside the signature. -/
theorem trace_field_keeps_hash_iff (fields : List HeaderField) (sigIdx : Nat)
    (current : HeaderField) (sig : DkimSignature) :
    selectFields fields sigIdx sig.signedHeaders [] =
        (List.range sig.signedHeaders.length).filterMap (fun i =>
          sig.signedHeaders[i]?.bind fun name => (candidates fields sigIdx name).reverse[
            mentions (sig.signedHeaders.take i) name]?) ∧
      ∀ f : HeaderField,
        headerHashInput (f :: fields) (sigIdx + 1) current sig =
            headerHashInput fields sigIdx current sig ↔
          mentions sig.signedHeaders f.name ≤ (candidates fields sigIdx f.name).length := by
  apply And.intro
  · exact selectFields_eq_mentioned fields sigIdx sig.signedHeaders
  · intro f
    rw [headerHashInput_eq, headerHashInput_eq, List.append_left_inj, ← Nat.not_lt,
      ← exists_reaches_iff]
    apply Iff.intro
    · -- a field that is reached makes the input longer
      rintro heq ⟨i, hi, hreach⟩
      have hlength := congrArg List.length heq
      rw [List.length_flatMap, List.length_flatMap] at hlength
      have hlt := List.sum_lt_sum (l := List.range sig.signedHeaders.length)
        (fun i => (mentionBytes sig.headerCanon
          (mentioned fields sigIdx sig.signedHeaders i)).length)
        (fun i => (mentionBytes sig.headerCanon
          (mentioned (f :: fields) (sigIdx + 1) sig.signedHeaders i)).length)
        (fun i _ => length_mentionBytes_le sig.headerCanon sig.signedHeaders i)
        ⟨i, List.mem_range.mpr hi, by
          rw [(mentioned_cons_of_reaches hreach).1, (mentioned_cons_of_reaches hreach).2]
          exact List.length_pos_of_ne_nil (canonicalizeHeader_ne_nil _ _ _)⟩
      omega
    · intro hnone
      apply List.flatMap_congr
      intro i hi
      rw [mentioned_cons_of_not_reaches (fun h => hnone ⟨i, List.mem_range.mp hi, h⟩),
        mentionBytes_shifted]

end

end Snail.Network
