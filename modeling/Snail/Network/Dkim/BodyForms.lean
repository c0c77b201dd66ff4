import Mathlib.Data.List.Destutter
import Snail.Network.Dkim.Canonicalize

/-!
# BodyForms — which bodies have the same canonical form

The forms said without the loops: `relaxed` is a list of tidied lines, `simple` is the body without
the CRLFs at its end.  The loops of `canonicalize.rs` print exactly these.
-/

open Snail.Reasoning

namespace Snail.Network

/-! ## 1. One line -/

/-- A line with one space for every run of spaces and tabs, and none at its end. -/
def tidyLine (line : Bytes) : Bytes :=
  let spaced := line.map fun b => if b = tab then space else b
  (spaced.destutter fun a b => ¬ (a = space ∧ b = space)).rdropWhile (· == space)

theorem rdropWhile_cons_of_ne {b : UInt8} (h : b ≠ space) (l : Bytes) :
    (b :: l).rdropWhile (· == space) = b :: l.rdropWhile (· == space) := by
  unfold List.rdropWhile
  rw [List.reverse_cons, List.dropWhile_append]
  by_cases hnil : (l.reverse.dropWhile (· == space)) = []
  · simp [hnil, h]
  · simp [hnil]

theorem rdropWhile_space_cons {l : Bytes} (h : l.rdropWhile (· == space) ≠ []) :
    (space :: l).rdropWhile (· == space) = space :: l.rdropWhile (· == space) := by
  unfold List.rdropWhile at h ⊢
  rw [List.reverse_cons, List.dropWhile_append]
  rw [ne_eq, List.reverse_eq_nil_iff] at h
  simp [h]

/-- The loop of `relax_line` behind a byte that has been written, and inside a run of blanks. -/
theorem relaxLineFrom_eq (l : Bytes) :
    (∀ b, b ≠ space →
      ((l.map fun b => if b = tab then space else b).destutter'
        (fun a b => ¬ (a = space ∧ b = space)) b).rdropWhile (· == space) =
        b :: relaxLineFrom false l) ∧
    ((l.map fun b => if b = tab then space else b).destutter'
      (fun a b => ¬ (a = space ∧ b = space)) space).rdropWhile (· == space) =
        relaxLineFrom true l := by
  induction l with
  | nil =>
    refine ⟨?_, by decide⟩
    intro b hb
    rw [List.map_nil, List.destutter'_nil, rdropWhile_cons_of_ne hb]
    rfl
  | cons c l ih =>
    obtain ⟨ihout, ihin⟩ := ih
    rw [List.map_cons]
    by_cases hc : c = space ∨ c = tab
    · -- a blank: the run goes on, or begins behind `b`
      have hspace : (if c = tab then space else c) = space := by
        rcases hc with rfl | rfl <;> rfl
      rw [hspace]
      refine ⟨?_, ?_⟩
      · intro b hb
        rw [List.destutter'_cons_pos _ (by simp [hb]), rdropWhile_cons_of_ne hb, ihin,
          relaxLineFrom, if_pos hc]
      · rw [List.destutter'_cons_neg _ (by simp), ihin, relaxLineFrom, if_pos hc]
    · have hspace : c ≠ space := fun h => hc (.inl h)
      have htab : c ≠ tab := fun h => hc (.inr h)
      rw [if_neg htab]
      refine ⟨?_, ?_⟩
      · intro b hb
        rw [List.destutter'_cons_pos _ (by simp [hb]), rdropWhile_cons_of_ne hb, ihout c hspace,
          relaxLineFrom, if_neg hc]
        rfl
      · rw [List.destutter'_cons_pos _ (by simp [hspace]), rdropWhile_space_cons
          (by rw [ihout c hspace]; simp), ihout c hspace, relaxLineFrom, if_neg hc]
        rfl

theorem relaxLine_eq (line : Bytes) : relaxLine line = tidyLine line := by
  unfold relaxLine tidyLine
  cases line with
  | nil => rfl
  | cons c l =>
    dsimp only
    rw [List.map_cons, List.destutter_cons']
    by_cases hc : c = space ∨ c = tab
    · have hspace : (if c = tab then space else c) = space := by
        rcases hc with rfl | rfl <;> rfl
      rw [hspace, (relaxLineFrom_eq l).2, relaxLineFrom, if_pos hc]
    · rw [if_neg fun h => hc (.inr h), (relaxLineFrom_eq l).1 c fun h => hc (.inl h),
        relaxLineFrom, if_neg hc]
      rfl

theorem tidyLine_tidyLine (line : Bytes) : tidyLine (tidyLine line) = tidyLine line := by
  have hnotab : ∀ b ∈ tidyLine line, b ≠ tab := by
    intro b hb
    have hmem := (List.destutter_sublist _ _).subset ((List.rdropWhile_prefix _ _).subset hb)
    obtain ⟨c, -, rfl⟩ := List.mem_map.mp hmem
    split
    · decide
    · assumption
  have hmap : (tidyLine line).map (fun b => if b = tab then space else b) = tidyLine line := by
    rw [List.map_congr_left (g := id), List.map_id]
    intro b hb
    rw [if_neg (hnotab b hb)]
    rfl
  -- a beginning of a line without double spaces has none either
  have hchain : (tidyLine line).IsChain fun a b => ¬ (a = space ∧ b = space) := by
    obtain ⟨blanks, hblanks⟩ : tidyLine line <+: _ := List.rdropWhile_prefix _ _
    have hall := List.isChain_destutter (fun a b => ¬ (a = space ∧ b = space))
      (line.map fun b => if b = tab then space else b)
    rw [← hblanks] at hall
    exact hall.left_of_append
  calc tidyLine (tidyLine line)
      = (((tidyLine line).map fun b => if b = tab then space else b).destutter
          fun a b => ¬ (a = space ∧ b = space)).rdropWhile (· == space) := rfl
    _ = (tidyLine line).rdropWhile (· == space) := by
      rw [hmap, List.destutter_of_isChain _ _ hchain]
    _ = tidyLine line := List.rdropWhile_idempotent _ _

-- only a line that begins with `lf` is relaxed to one that does
theorem head_of_relaxLineFrom {l m : Bytes} (h : relaxLineFrom false l = lf :: m) :
    l.head? = some lf := by
  have hblank : ∀ l : Bytes, (relaxLineFrom true l).head? ≠ some lf := by
    intro l
    induction l with
    | nil => simp [relaxLineFrom]
    | cons b l ih =>
      rw [relaxLineFrom]
      split
      · exact ih
      · show some space ≠ some lf
        decide
  cases l with
  | nil => cases h
  | cons b l =>
    rw [relaxLineFrom] at h
    split at h
    · exact absurd (by rw [h]; rfl) (hblank l)
    · rw [(List.cons.inj h).1]
      rfl

theorem not_crlf_relaxLineFrom {l : Bytes} (h : ¬ crlf <:+: l) (w : Bool) :
    ¬ crlf <:+: relaxLineFrom w l := by
  induction l generalizing w with
  | nil =>
    rw [relaxLineFrom]
    decide
  | cons b l ih =>
    have htail := ih fun hi => h (hi.trans (List.suffix_cons b l).isInfix)
    rw [relaxLineFrom]
    split
    · exact htail true
    · have hcons : ¬ crlf <:+: b :: relaxLineFrom false l := by
        intro hi
        rcases List.infix_cons_iff.mp hi with hp | hi
        · obtain ⟨m, hm⟩ := hp
          have hb := (List.cons.inj hm).1
          have hhead := head_of_relaxLineFrom (List.cons.inj hm).2.symm
          obtain ⟨r, rfl⟩ := List.head?_eq_some_iff.mp hhead
          exact h ⟨[], r, by rw [← hb]; rfl⟩
        · exact htail false hi
      cases w with
      | false => exact hcons
      | true =>
        intro hi
        rcases List.infix_cons_iff.mp hi with hp | hi
        · obtain ⟨m, hm⟩ := hp
          exact absurd (List.cons.inj hm).1 (by decide)
        · exact hcons hi

/-! ## 2. The lines of the relaxed form -/

/-- The tidied lines of a body without the empty ones at its end. -/
def canonicalLines (body : Bytes) : List Bytes :=
  ((splitOnPair cr lf body).map tidyLine).rdropWhile (· == [])

theorem not_crlf_of_mem_canonicalLines {body line : Bytes} (h : line ∈ canonicalLines body) :
    ¬ crlf <:+: line := by
  obtain ⟨segment, hsegment, rfl⟩ := List.mem_map.mp ((List.rdropWhile_prefix _ _).subset h)
  rw [← relaxLine_eq]
  exact not_crlf_relaxLineFrom (not_infix_of_mem_splitOnPair hsegment) false

-- a segment behind the last CRLF is a line only if it is not empty, which the form forgets
theorem canonicalLines_eq_bodyLines (body : Bytes) :
    canonicalLines body = ((bodyLines body).map relaxLine).rdropWhile (· == []) := by
  have hrelax : relaxLine = tidyLine := funext relaxLine_eq
  unfold canonicalLines bodyLines
  rw [hrelax]
  dsimp only
  by_cases hlast : (splitOnPair cr lf body).getLast? = some []
  · obtain ⟨init, hinit⟩ := List.getLast?_eq_some_iff.mp hlast
    rw [if_pos hlast, hinit, List.dropLast_concat, List.map_append, List.map_singleton,
      List.rdropWhile_concat_pos _ _ _ (by decide)]
  · rw [if_neg hlast]

/-- The second loop of `relaxed_body`: looking four bytes back finds the empty lines, because no
line has a CRLF in it. -/
theorem peelEmptyLines_eq {ls : List Bytes} (h : ∀ line ∈ ls, ¬ crlf <:+: line) :
    peelEmptyLines (ls.flatMap (· ++ crlf)).reverse =
      ((ls.rdropWhile (· == [])).flatMap (· ++ crlf)).reverse := by
  induction ls using List.reverseRecOn with
  | nil => rfl
  | append_singleton init last ih =>
    have hinit := ih fun line hline => h line (List.mem_append_left _ hline)
    have hfront := reverse_flatMap_crlf id init
    simp only [id_eq] at hfront
    have hrev : ((init ++ [last]).flatMap (· ++ crlf)).reverse =
        lf :: cr :: (last.reverse ++ (init.flatMap (· ++ crlf)).reverse) := by
      simp [crlf]
    rw [hrev]
    by_cases hlast : last = []
    · subst hlast
      rw [peelEmptyLines, if_pos ⟨rfl, rfl, hfront⟩, List.rdropWhile_concat_pos _ _ _ (by rfl)]
      exact hinit
    · rw [List.rdropWhile_concat_neg _ _ _ (by simpa using hlast), hrev, peelEmptyLines, if_neg]
      rintro ⟨-, -, hnil | hcrlf⟩
      · simp [hlast] at hnil
      · have hline := h last (by simp)
        -- the two bytes before the terminator are the line's own, or reach into the line before
        obtain ⟨body, c, rfl⟩ := (List.eq_nil_or_concat last).resolve_left hlast
        rw [List.concat_eq_append, List.reverse_append, List.reverse_singleton,
          List.singleton_append, List.cons_append] at hcrlf
        obtain ⟨hc, hcr⟩ := List.cons_prefix_cons.mp hcrlf
        rcases List.eq_nil_or_concat body with rfl | ⟨body, d, rfl⟩
        · rcases hfront with hfront | hfront
          · rw [List.reverse_nil, List.nil_append, hfront] at hcr
            simp at hcr
          · obtain ⟨m, hm⟩ := hfront
            rw [List.reverse_nil, List.nil_append, ← hm] at hcr
            exact absurd (List.cons_prefix_cons.mp hcr).1 (by decide)
        · rw [List.concat_eq_append, List.reverse_append, List.reverse_singleton,
            List.singleton_append, List.cons_append] at hcr
          have hd := (List.cons_prefix_cons.mp hcr).1
          subst hc hd
          exact hline ⟨body, [], by simp [crlf]⟩

theorem getLast_canonicalLines {body line : Bytes} (h : line ∈ (canonicalLines body).getLast?) :
    line ≠ [] := by
  obtain ⟨init, hinit⟩ := List.getLast?_eq_some_iff.mp h
  have hne : canonicalLines body ≠ [] := by
    rw [hinit]
    simp
  have hlast := List.rdropWhile_last_not (· == []) ((splitOnPair cr lf body).map tidyLine) hne
  have hget : (canonicalLines body).getLast hne = line := by
    simp [hinit]
  rintro rfl
  apply hlast
  show ((canonicalLines body).getLast hne == []) = true
  rw [hget]
  rfl

/-- `relaxed_body` prints the canonical lines, every one with its CRLF. -/
theorem relaxedBody_eq (body : Bytes) :
    relaxedBody body = (canonicalLines body).flatMap (· ++ crlf) := by
  have hout : (bodyLines body).flatMap (fun line => relaxLine line ++ crlf) =
      ((bodyLines body).map relaxLine).flatMap (· ++ crlf) := by
    rw [List.flatMap_map]
  have hclean : ∀ line ∈ (bodyLines body).map relaxLine, ¬ crlf <:+: line := by
    intro line hline
    obtain ⟨segment, hsegment, rfl⟩ := List.mem_map.mp hline
    have hmem : segment ∈ splitOnPair cr lf body := by
      unfold bodyLines at hsegment
      dsimp only at hsegment
      split at hsegment
      · exact List.mem_of_mem_dropLast hsegment
      · exact hsegment
    exact not_crlf_relaxLineFrom (not_infix_of_mem_splitOnPair hmem) false
  unfold relaxedBody
  dsimp only
  rw [hout, peelEmptyLines_eq hclean, List.reverse_reverse, ← canonicalLines_eq_bodyLines, if_neg]
  -- a lone CRLF would be an empty last line
  intro hcrlf
  rcases List.eq_nil_or_concat (canonicalLines body) with hnil | ⟨init, last, hlines⟩
  · rw [hnil] at hcrlf
    cases hcrlf
  · have hlast : last ≠ [] := getLast_canonicalLines (by rw [hlines]; simp)
    have hlen := congrArg List.length hcrlf
    rw [hlines] at hlen
    have hpos := List.length_pos_iff.mpr hlast
    simp [crlf] at hlen
    omega

/-- The relaxed form shows its lines: the CRLFs in it are the ones it ends its lines with. -/
theorem splitOnPair_relaxedBody (body : Bytes) :
    splitOnPair cr lf (relaxedBody body) = canonicalLines body ++ [[]] := by
  have h := splitOnPair_flatMap (show cr ≠ lf by decide) (canonicalLines body) []
    fun line hline => not_crlf_of_mem_canonicalLines hline
  rw [List.append_nil] at h
  rw [relaxedBody_eq]
  exact h

theorem canonicalLines_relaxedBody (body : Bytes) :
    canonicalLines (relaxedBody body) = canonicalLines body := by
  have htidy : (canonicalLines body).map tidyLine = canonicalLines body := by
    rw [List.map_congr_left (g := id), List.map_id]
    intro line hline
    obtain ⟨segment, -, rfl⟩ := List.mem_map.mp ((List.rdropWhile_prefix _ _).subset hline)
    exact tidyLine_tidyLine segment
  calc canonicalLines (relaxedBody body)
      = ((canonicalLines body ++ [[]]).map tidyLine).rdropWhile (· == []) := by
        unfold canonicalLines
        rw [splitOnPair_relaxedBody]
        rfl
    _ = (canonicalLines body ++ [[]]).rdropWhile (· == []) := by
        rw [List.map_append, htidy]
        rfl
    _ = (canonicalLines body).rdropWhile (· == []) := List.rdropWhile_concat_pos _ _ _ (by rfl)
    _ = canonicalLines body := List.rdropWhile_idempotent _ _

theorem relaxedBody_eq_iff {a b : Bytes} :
    relaxedBody a = relaxedBody b ↔ canonicalLines a = canonicalLines b := by
  apply Iff.intro
  · intro h
    rw [← canonicalLines_relaxedBody a, h, canonicalLines_relaxedBody]
  · intro h
    rw [relaxedBody_eq, relaxedBody_eq, h]

theorem relaxedBody_relaxedBody (body : Bytes) :
    relaxedBody (relaxedBody body) = relaxedBody body :=
  relaxedBody_eq_iff.mpr (canonicalLines_relaxedBody body)

theorem relaxedBody_shape (body : Bytes) :
    relaxedBody body = [] ∨ ∃ front line, relaxedBody body = front ++ line ++ crlf ∧
      (front = [] ∨ crlf <:+ front) ∧ line ≠ [] ∧ ¬ crlf <:+: line := by
  rw [relaxedBody_eq]
  rcases List.eq_nil_or_concat (canonicalLines body) with hnil | ⟨init, last, hlines⟩
  · left
    rw [hnil]
    rfl
  · right
    rw [List.concat_eq_append] at hlines
    refine ⟨init.flatMap (· ++ crlf), last, ?_, ?_, ?_, ?_⟩
    · rw [hlines]
      simp
    · rcases reverse_flatMap_crlf id init with h | h
      · exact .inl (List.reverse_eq_nil_iff.mp h)
      · exact .inr (List.reverse_prefix.mp h)
    · exact getLast_canonicalLines (by rw [hlines]; simp)
    · exact not_crlf_of_mem_canonicalLines (by rw [hlines]; simp)

/-! ## 3. The simple form -/

/-- `core` is `body` without the CRLFs at its end. -/
def IsCore (core body : Bytes) : Prop :=
  ¬ crlf <:+ core ∧ ∃ n, body = core ++ (List.replicate n crlf).flatten

theorem simpleBody_of_not_crlf {core : Bytes} (h : ¬ crlf <:+ core) :
    simpleBody core = core ++ crlf := by
  have hdrop : dropCrlfs core.reverse = core.reverse := by
    match hrev : core.reverse with
    | [] => rfl
    | [_] => rfl
    | b :: a :: l =>
      rw [dropCrlfs, if_neg]
      rintro ⟨rfl, rfl⟩
      apply h
      rw [← List.reverse_prefix, hrev]
      exact ⟨l, rfl⟩
  rw [simpleBody, hdrop, List.reverse_reverse]

theorem IsCore.simpleBody {core body : Bytes} (h : IsCore core body) :
    simpleBody body = core ++ crlf := by
  obtain ⟨hcore, n, rfl⟩ := h
  induction n with
  | zero =>
    rw [List.replicate_zero, List.flatten_nil, List.append_nil]
    exact simpleBody_of_not_crlf hcore
  | succ n ih =>
    rw [List.replicate_succ', List.flatten_append, List.flatten_singleton, ← List.append_assoc,
      simpleBody_append_crlf]
    exact ih

theorem exists_core (body : Bytes) : ∃ core, IsCore core body := by
  -- take CRLFs off the end for as long as there are any
  induction hn : body.length using Nat.strong_induction_on generalizing body with
  | _ n ih =>
    by_cases hcrlf : crlf <:+ body
    · obtain ⟨front, rfl⟩ := hcrlf
      have hlt : front.length < n := by
        rw [← hn, List.length_append]
        exact Nat.lt_add_of_pos_right (by decide)
      obtain ⟨core, hcore, m, hm⟩ := ih front.length hlt front rfl
      refine ⟨core, hcore, m + 1, ?_⟩
      rw [List.replicate_succ', List.flatten_append, List.flatten_singleton, ← List.append_assoc,
        ← hm]
    · exact ⟨body, hcrlf, 0, by simp⟩

theorem simpleBody_eq_iff {a b : Bytes} :
    simpleBody a = simpleBody b ↔ ∃ core, IsCore core a ∧ IsCore core b := by
  apply Iff.intro
  · intro h
    obtain ⟨core, hcore⟩ := exists_core a
    obtain ⟨core', hcore'⟩ := exists_core b
    rw [hcore.simpleBody, hcore'.simpleBody, List.append_left_inj] at h
    subst h
    exact ⟨core, hcore, hcore'⟩
  · rintro ⟨core, ha, hb⟩
    rw [ha.simpleBody, hb.simpleBody]

theorem simpleBody_simpleBody (body : Bytes) : simpleBody (simpleBody body) = simpleBody body := by
  obtain ⟨core, hcore⟩ := exists_core body
  rw [hcore.simpleBody, simpleBody_append_crlf]
  exact simpleBody_of_not_crlf hcore.1

/-! ## 4. Both forms -/

/-- Bodies have one canonical form exactly if they agree on what the form keeps; a canonical form is
its own, and a relaxed one has no empty line at its end. -/
theorem body_forms_exact (a b : Bytes) :
    (relaxedBody a = relaxedBody b ↔ canonicalLines a = canonicalLines b) ∧
    (simpleBody a = simpleBody b ↔ ∃ core, IsCore core a ∧ IsCore core b) ∧
    relaxedBody (relaxedBody a) = relaxedBody a ∧
    simpleBody (simpleBody a) = simpleBody a ∧
    (relaxedBody a = [] ∨ ∃ front line, relaxedBody a = front ++ line ++ crlf ∧
      (front = [] ∨ crlf <:+ front) ∧ line ≠ [] ∧ ¬ crlf <:+: line) :=
  ⟨relaxedBody_eq_iff, simpleBody_eq_iff, relaxedBody_relaxedBody a, simpleBody_simpleBody a,
    relaxedBody_shape a⟩

end Snail.Network
