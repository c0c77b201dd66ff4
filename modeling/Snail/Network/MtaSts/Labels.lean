import Snail.Network.MtaSts.Policy

/-!
# Labels — what an `mx` pattern means

A host name is its list of labels, without the root and in lower case.  A pattern is such a list
too, and a star in front of it stands for one label.
-/

open Snail.Reasoning

namespace Snail.Network

/-! ## 1. Names as labels -/

def labels (name : Str) : List Str := (toAsciiLowercase (trimEndMatches '.' name)).splitOn '.'

/-- The lists are equal, or they are behind the star and one label. -/
def LabelsMatch (pattern host : List Str) : Prop :=
  pattern = host ∨
    ∃ label ls, ls ≠ [] ∧ pattern = "*".toList :: ls ∧ label ≠ [] ∧ host = label :: ls

/-! ## 2. Patterns -/

-- `strip_prefix("*.")` takes off the label `*`
theorem stripStar_iff {p suffix : Str} :
    "*.".toList.isPrefixOf? p = some suffix ↔ splitOnce '.' p = some ("*".toList, suffix) := by
  rw [List.isPrefixOf?_eq_some_iff_append_eq, splitOnce_eq_some_iff]
  constructor
  · rintro rfl
    exact ⟨rfl, by decide⟩
  · rintro ⟨rfl, -⟩
    rfl

theorem mxPatternMatches_iff {pattern host : Str} :
    mxPatternMatches pattern host = true ↔
      LabelsMatch ((trimEndMatches '.' pattern).splitOn '.') (host.splitOn '.') := by
  unfold mxPatternMatches LabelsMatch
  generalize trimEndMatches '.' pattern = p
  cases hstar : "*.".toList.isPrefixOf? p with
  | none =>
    dsimp only
    rw [decide_eq_true_iff, splitOn_inj]
    refine ⟨.inl, ?_⟩
    rintro (heq | ⟨label, ls, hls, hp, -, -⟩)
    · exact heq
    · obtain ⟨rest, hsplit, -⟩ := exists_splitOnce_of_splitOn hls hp
      rw [stripStar_iff.mpr hsplit] at hstar
      cases hstar
  | some suffix =>
    dsimp only
    rw [splitOn_of_splitOnce (stripStar_iff.mp hstar), Option.any_eq_true]
    constructor
    · rintro ⟨⟨label, rest⟩, hsplit, hmatch⟩
      rw [Bool.and_eq_true, decide_eq_true_iff, decide_eq_true_iff] at hmatch
      obtain ⟨hlabel, rfl⟩ := hmatch
      exact .inr ⟨label, _, List.splitOn_ne_nil _ _, rfl, hlabel, splitOn_of_splitOnce hsplit⟩
    · -- a host that spells the star matches as one label as well
      have hmatch : ∀ label : Str, label ≠ [] → host.splitOn '.' = label :: suffix.splitOn '.' →
          ∃ lr : Str × Str, splitOnce '.' host = some lr ∧
            (decide (lr.1 ≠ []) && decide (lr.2 = suffix)) = true := by
        intro label hlabel hhost
        obtain ⟨rest, hsplit, hrest⟩ :=
          exists_splitOnce_of_splitOn (List.splitOn_ne_nil _ _) hhost
        refine ⟨(label, rest), hsplit, ?_⟩
        rw [Bool.and_eq_true, decide_eq_true_iff, decide_eq_true_iff]
        exact ⟨hlabel, splitOn_inj.mp hrest⟩
      rintro (heq | ⟨label, ls, -, hls, hlabel, hhost⟩)
      · exact hmatch "*".toList (by decide) heq.symm
      · cases hls
        exact hmatch label hlabel hhost

/-! ## 3. Policies -/

-- the patterns collected so far
def PolicyDraft.Lowered (d : PolicyDraft) : Prop := ∀ p ∈ d.mx, toAsciiLowercase p = p

theorem PolicyDraft.Lowered.field {d d' : PolicyDraft} {key value : Str} (h : d.Lowered)
    (hfield : d.field key value = .ok d') : d'.Lowered := by
  unfold PolicyDraft.field at hfield
  split at hfield
  · split at hfield
    · cases hfield
      exact h
    · cases hfield
  split at hfield
  · obtain ⟨mode, -, rfl⟩ := map_eq_ok_iff.mp hfield
    exact h
  split at hfield
  · split at hfield
    · cases hfield
      exact h
    · cases hfield
  split at hfield
  · cases hfield
    intro p hp
    rcases List.mem_append.mp hp with hp | hp
    · exact h p hp
    · rw [List.mem_singleton.mp hp]
      exact toAsciiLowercase_idem value
  · cases hfield
    exact h

theorem PolicyDraft.Lowered.line {d d' : PolicyDraft} {raw : Str} (h : d.Lowered)
    (hline : d.line raw = .ok d') : d'.Lowered := by
  unfold PolicyDraft.line at hline
  split at hline
  · cases hline
    exact h
  split at hline
  · cases hline
  · exact h.field hline

theorem PolicyDraft.Lowered.lines {raws : List Str} {d d' : PolicyDraft} (h : d.Lowered)
    (hlines : raws.foldlM PolicyDraft.line d = .ok d') : d'.Lowered := by
  induction raws generalizing d with
  | nil =>
    cases hlines
    exact h
  | cons raw raws ih =>
    rw [List.foldlM_cons] at hlines
    obtain ⟨next, hnext, hrest⟩ := exists_of_bind_eq_ok hlines
    exact ih (h.line hnext) hrest

theorem MtaStsPolicy.lowered_of_parse {body : Str} {policy : MtaStsPolicy}
    (h : MtaStsPolicy.parse body = .ok policy) :
    ∀ p ∈ policy.mx, toAsciiLowercase p = p := by
  obtain ⟨d, hlines, hfinish⟩ := exists_of_bind_eq_ok h
  have hd : d.Lowered := PolicyDraft.Lowered.lines (fun p hp => absurd hp (List.not_mem_nil)) hlines
  unfold PolicyDraft.finish at hfinish
  split at hfinish
  · cases hfinish
  split at hfinish
  · cases hfinish
  · cases hfinish
  split at hfinish
  · cases hfinish
  · cases hfinish
    exact hd

theorem allowsMx_iff_labels {body host : Str} {policy : MtaStsPolicy}
    (hparse : MtaStsPolicy.parse body = .ok policy) (hhost : trimEndMatches '.' host ≠ []) :
    policy.allowsMx host = true ↔
      ∃ pattern ∈ policy.mx, LabelsMatch (labels pattern) (labels host) := by
  have hne : toAsciiLowercase (trimEndMatches '.' host) ≠ [] := by
    unfold toAsciiLowercase
    rwa [Ne, List.map_eq_nil_iff]
  unfold MtaStsPolicy.allowsMx
  dsimp only
  rw [Bool.and_eq_true, decide_eq_true_iff, and_iff_right hne, List.any_eq_true]
  refine exists_congr fun pattern => and_congr_right fun hmem => ?_
  unfold labels
  rw [mxPatternMatches_iff, toAsciiLowercase_trimEndMatches (by decide) (by decide) pattern,
    MtaStsPolicy.lowered_of_parse hparse pattern hmem]

theorem allowsMx_iff_labels_wildcard :
    ∃ policy, MtaStsPolicy.parse
        "version: STSv1\nmode: enforce\nmx: *.X.org.\nmax_age: 1\n".toList = .ok policy ∧
      policy.allowsMx "mx.x.ORG.".toList = true ∧ policy.allowsMx "x.org".toList = false := by
  have hparse : MtaStsPolicy.parse
      "version: STSv1\nmode: enforce\nmx: *.X.org.\nmax_age: 1\n".toList =
      .ok ⟨.enforce, ["*.x.org.".toList], 1⟩ := by decide +kernel
  refine ⟨_, hparse, ?_, by decide⟩
  refine (allowsMx_iff_labels hparse (by decide)).mpr ⟨_, List.mem_singleton_self _, .inr ?_⟩
  exact ⟨"mx".toList, ["x".toList, "org".toList], by decide, by decide, by decide, by decide⟩

end Snail.Network
