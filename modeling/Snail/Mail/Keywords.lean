import Snail.Mail.Smtp

/-!
# Keywords — the spelling of a command line

The verb of a command is put into upper case before it is looked up; the keyword of a path is
compared with two spellings only.
-/

open Snail.Reasoning

namespace Snail.Mail

/-! ## 1. Verbs -/

theorem trimEndCrLf_append_cons (s t : Str) {c : Char} (hcr : c ≠ '\r') (hlf : c ≠ '\n') :
    trimEndCrLf (s ++ c :: t) = s ++ c :: trimEndCrLf t := by
  have hc : (c == '\r' || c == '\n') = false := by simp [hcr, hlf]
  exact rdropWhile_append_cons (q := fun c => c == '\r' || c == '\n') s t hc

theorem commandWords_space {v : Str} (hv : ' ' ∉ v) (rest : Str) :
    commandWords (v ++ ' ' :: rest) = (toAsciiUppercase v, trim (trimEndCrLf rest)) := by
  unfold commandWords
  rw [trimEndCrLf_append_cons v rest (by decide) (by decide)]
  dsimp only
  rw [splitOnce_append_cons hv]

theorem commandWords_of_not_mem {line : Str} (h : ' ' ∉ line) :
    commandWords line = (trimEndCrLf (toAsciiUppercase line), []) := by
  have hmem : ' ' ∉ trimEndCrLf line := by
    intro hc
    have hpre : trimEndCrLf line <+: line := List.rdropWhile_prefix _ _
    exact h (hpre.subset hc)
  have hmap : toAsciiUppercase (trimEndCrLf line) = trimEndCrLf (toAsciiUppercase line) := by
    -- no character becomes a line terminator, and none stops being one
    have hkind : ((fun c => c == '\r' || c == '\n') ∘ Char.toUpper) =
        fun c : Char => c == '\r' || c == '\n' := by
      ext c
      have hiff : ∀ d : Char, d.isUpper = false → d.toUpper = d →
          (c.toUpper == d) = (c == d) := by
        intro d hd hself
        rw [Bool.eq_iff_iff, beq_iff_eq, beq_iff_eq]
        exact ⟨eq_of_toUpper_eq hd, fun h => by rw [h, hself]⟩
      rw [Function.comp_apply, hiff '\r' (by decide) (by decide), hiff '\n' (by decide) (by decide)]
    unfold trimEndCrLf toAsciiUppercase
    rw [← List.map_reverse, List.dropWhile_map, hkind, List.map_reverse]
  unfold commandWords
  dsimp only
  rw [splitOnce_eq_none_iff.mpr hmem]
  dsimp only
  rw [hmap]

/-- The case of the verb does not matter. -/
theorem parse_verb_case {v v' : Str} (hv : ' ' ∉ v) (hcase : eqIgnoreAsciiCase v' v = true)
    (rest : Str) : SmtpCommand.parse (v' ++ rest) = SmtpCommand.parse (v ++ rest) := by
  have hv' : ' ' ∉ v' := fun hc => hv (mem_of_ignoreCase hcase (by decide) (by decide) hc)
  have hupper : ∀ a, toAsciiUppercase (v' ++ a) = toAsciiUppercase (v ++ a) := by
    intro a
    have h := toAsciiUppercase_eq_of_ignoreCase hcase
    unfold toAsciiUppercase at h ⊢
    rw [List.map_append, List.map_append, h]
  have hwords : commandWords (v' ++ rest) = commandWords (v ++ rest) := by
    by_cases hrest : ' ' ∈ rest
    · obtain ⟨a, b, rfl, ha⟩ := List.eq_append_cons_of_mem hrest
      rw [← List.append_assoc, ← List.append_assoc, commandWords_space (by simp [hv', ha]),
        commandWords_space (by simp [hv, ha]), hupper a]
    · rw [commandWords_of_not_mem (by simp [hv', hrest]), commandWords_of_not_mem
        (by simp [hv, hrest]), hupper rest]
  unfold SmtpCommand.parse
  rw [hwords]

/-! ## 2. Keywords -/

/-- The keyword in front of the path, for the verbs that take one. -/
def pathKeyword (verb : Str) : Option String :=
  if verb = "MAIL".toList then some "FROM:"
  else if verb = "RCPT".toList then some "TO:"
  else none

-- what `parse_path_opt` makes of the text behind the keyword
def pathBehind (after : Str) : Except MailError (Option Mailbox) :=
  match (['<'].isPrefixOf? (trim after)).bind (splitOnce '>') with
  | none => .error (.malformed "path must be wrapped in <>".toList)
  | some (inner, _) => if inner = [] then .ok none else (Mailbox.parse inner).map some

theorem isPrefixOf?_of_length_eq {s key t : Str} (hlen : key.length = s.length) :
    s.isPrefixOf? (key ++ t) = if key = s then some t else none := by
  by_cases hkey : key = s
  · rw [if_pos hkey, hkey]
    exact List.isPrefixOf?_eq_some_iff_append_eq.mpr rfl
  · rw [if_neg hkey]
    cases hs : s.isPrefixOf? (key ++ t) with
    | none => rfl
    | some r =>
      have happend := List.isPrefixOf?_eq_some_iff_append_eq.mp hs
      exact absurd (List.append_inj happend hlen.symm).1.symm hkey

/-- Two spellings of the keyword are known; with any other the path is refused. -/
theorem parsePathOpt_append {key : Str} {keyword : String}
    (hlen : key.length = keyword.toList.length) (t : Str) :
    parsePathOpt (key ++ t) keyword =
      if key = keyword.toList ∨ key = toAsciiLowercase keyword.toList then pathBehind t
      else .error (.malformed ("expected `".toList ++ keyword.toList ++ "<addr>`".toList)) := by
  have hlower : key.length = (toAsciiLowercase keyword.toList).length := by
    rw [hlen, toAsciiLowercase, List.length_map]
  unfold parsePathOpt
  rw [isPrefixOf?_of_length_eq hlen, isPrefixOf?_of_length_eq hlower]
  by_cases hknown : key = keyword.toList ∨ key = toAsciiLowercase keyword.toList
  · rw [if_pos hknown]
    by_cases hupper : key = keyword.toList
    · rw [if_pos hupper]
      rfl
    · rw [if_neg hupper, if_pos (hknown.resolve_left hupper)]
      rfl
  · rw [if_neg hknown]
    rw [not_or] at hknown
    rw [if_neg hknown.1, if_neg hknown.2]
    rfl

/-- The words of a line with a keyword; white space in front of the keyword is dropped. -/
theorem commandWords_keyword {v gap key tail : Str} (hv : ' ' ∉ v)
    (hgap : ∀ c ∈ gap, isWhitespace c = true) {first : Char} {mid : Str} {last : Char}
    (hkey : key = first :: mid ++ [last]) (hfirst : isWhitespace first = false)
    (hlast : isWhitespace last = false) :
    commandWords (v ++ ' ' :: (gap ++ (key ++ tail))) =
      (toAsciiUppercase v, key ++ trimEnd (trimEndCrLf tail)) := by
  have hcr : last ≠ '\r' := by
    rintro rfl
    exact absurd hlast (by decide)
  have hlf : last ≠ '\n' := by
    rintro rfl
    exact absurd hlast (by decide)
  have hgap' : trimStart (gap ++ first :: mid) = first :: mid := by
    unfold trimStart
    rw [dropWhile_append_cons gap mid hfirst, List.dropWhile_eq_nil_iff.mpr hgap, List.nil_append]
  rw [commandWords_space hv, hkey]
  have hshape :
      gap ++ (first :: mid ++ [last] ++ tail) = (gap ++ first :: mid) ++ last :: tail := by
    simp
  rw [hshape, trimEndCrLf_append_cons _ _ hcr hlf, trim_append_cons _ _ hlast, hgap']
  simp

-- a keyword in any case has no white space at either end
theorem exists_ends_of_keyword {verb key : Str} {keyword : String}
    (hverb : pathKeyword verb = some keyword)
    (hkey : eqIgnoreAsciiCase key keyword.toList = true) :
    ∃ first mid last, key = first :: mid ++ [last] ∧ isWhitespace first = false ∧
      isWhitespace last = false := by
  have hknown : keyword = "FROM:" ∨ keyword = "TO:" := by
    unfold pathKeyword at hverb
    split at hverb
    · exact .inl (Option.some.inj hverb).symm
    · split at hverb
      · exact .inr (Option.some.inj hverb).symm
      · cases hverb
  have hlen := length_eq_of_ignoreCase hkey
  have hplain : ∀ c ∈ key, isWhitespace c = false := by
    intro c hc
    apply not_isWhitespace_of_ignoreCase hkey _ hc
    rw [← List.forall_iff_forall_mem]
    rcases hknown with rfl | rfl <;> decide
  match key, hlen, hplain with
  | [], hlen, _ => rcases hknown with rfl | rfl <;> cases hlen
  | [_], hlen, _ => rcases hknown with rfl | rfl <;> cases hlen
  | first :: second :: rest, _, hplain =>
    obtain ⟨mid, last, hmid⟩ := (List.eq_nil_or_concat (second :: rest)).resolve_left (by simp)
    refine ⟨first, mid, last, by rw [hmid]; simp, hplain first (by simp), hplain last ?_⟩
    rw [hmid]
    simp

-- what `RCPT` makes of the path it has read
def rcptOf : Except MailError (Option Mailbox) → Except MailError SmtpCommand
  | .error e => .error e
  | .ok none => .error (.malformed "RCPT TO cannot be the null path".toList)
  | .ok (some rcpt) => .ok (.rcptTo rcpt)

/-- A command with a path stands or falls with the path behind its keyword. -/
theorem ofWords_keyword {verb : Str} {keyword : String} (hverb : pathKeyword verb = some keyword) :
    ∃ f : Option Mailbox → Except MailError SmtpCommand, ∀ rest,
      SmtpCommand.ofWords verb rest = (parsePathOpt rest keyword).bind f := by
  unfold pathKeyword at hverb
  split at hverb
  · rename_i hmail
    subst hmail
    cases hverb
    refine ⟨fun sender => .ok (.mailFrom sender), ?_⟩
    intro rest
    have hwords : SmtpCommand.ofWords "MAIL".toList rest =
        (parsePathOpt rest "FROM:").map SmtpCommand.mailFrom := rfl
    rw [hwords]
    cases parsePathOpt rest "FROM:" with
    | error e => rfl
    | ok sender => rfl
  · split at hverb
    · rename_i hrcpt
      subst hrcpt
      cases hverb
      refine ⟨fun rcpt => rcptOf (.ok rcpt), ?_⟩
      intro rest
      have hwords : SmtpCommand.ofWords "RCPT".toList rest =
          rcptOf (parsePathOpt rest "TO:") := rfl
      rw [hwords]
      cases parsePathOpt rest "TO:" with
      | error e => rfl
      | ok rcpt => rfl
    · cases hverb

/-! ## 3. Which spellings are accepted -/

/-- Verbs may be written in any case.  A line whose path keyword is written in another case is read
as before only if that keyword is all in capitals or all in small letters. -/
theorem keyword_case_iff {v v' : Str} (hv : ' ' ∉ v) (hcase : eqIgnoreAsciiCase v' v = true) :
    (∀ rest, SmtpCommand.parse (v' ++ rest) = SmtpCommand.parse (v ++ rest)) ∧
    ∀ (gap key key' tail : Str) (keyword : String) (command : SmtpCommand),
      pathKeyword (toAsciiUppercase v) = some keyword →
      (∀ c ∈ gap, isWhitespace c = true) →
      eqIgnoreAsciiCase key keyword.toList = true → eqIgnoreAsciiCase key' keyword.toList = true →
      SmtpCommand.parse (v ++ ' ' :: (gap ++ (key ++ tail))) = .ok command →
      (SmtpCommand.parse (v' ++ ' ' :: (gap ++ (key' ++ tail))) = .ok command ↔
        key' = keyword.toList ∨ key' = toAsciiLowercase keyword.toList) := by
  refine ⟨parse_verb_case hv hcase, ?_⟩
  intro gap key key' tail keyword command hverb hgap hkey hkey' hparse
  obtain ⟨f, hf⟩ := ofWords_keyword hverb
  -- both lines as what their keyword makes of the same path
  have hline : ∀ key : Str, eqIgnoreAsciiCase key keyword.toList = true →
      SmtpCommand.parse (v ++ ' ' :: (gap ++ (key ++ tail))) =
        (if key = keyword.toList ∨ key = toAsciiLowercase keyword.toList then
          pathBehind (trimEnd (trimEndCrLf tail))
        else .error (.malformed ("expected `".toList ++ keyword.toList ++ "<addr>`".toList))).bind
          f := by
    intro key hkey
    obtain ⟨first, mid, last, hshape, hfirst, hlast⟩ := exists_ends_of_keyword hverb hkey
    unfold SmtpCommand.parse
    rw [commandWords_keyword hv hgap hshape hfirst hlast, hf,
      parsePathOpt_append (length_eq_of_ignoreCase hkey)]
  rw [parse_verb_case hv hcase, hline key' hkey']
  rw [hline key hkey] at hparse
  have hknown : key = keyword.toList ∨ key = toAsciiLowercase keyword.toList := by
    by_contra hunknown
    rw [if_neg hunknown] at hparse
    cases hparse
  rw [if_pos hknown] at hparse
  apply Iff.intro
  · intro h
    by_contra hunknown
    rw [if_neg hunknown] at h
    cases h
  · intro hknown'
    rw [if_pos hknown']
    exact hparse

theorem keyword_case_small :
    SmtpCommand.parse "maIL from:<>".toList = .ok (.mailFrom none) :=
  ((@keyword_case_iff "MAIL".toList "maIL".toList (by decide) (by decide)).2 [] "FROM:".toList
    "from:".toList "<>".toList "FROM:" (.mailFrom none) (by decide) (by simp) (by decide)
    (by decide) (by decide)).mpr (.inr rfl)

/-- A capital letter followed by small ones is not understood. -/
theorem keyword_case_refused :
    SmtpCommand.parse "MAIL FROM:<a@b.c>".toList =
      .ok (.mailFrom (some ⟨"a".toList, "b.c".toList⟩)) ∧
    eqIgnoreAsciiCase "From:".toList "FROM:".toList = true ∧
    SmtpCommand.parse "MAIL From:<a@b.c>".toList =
      .error (.malformed "expected `FROM:<addr>`".toList) := by
  decide

end Snail.Mail
