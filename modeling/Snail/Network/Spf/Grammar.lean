import Snail.Network.Spf.Macro

/-!
# Grammar — the texts of RFC 7208 and what they denote

The grammar of directives, said apart from the parser.  Names may be written in any case.
-/

open Snail.Reasoning

namespace Snail.Network.Spf

/-! ## 1. Domain-specs -/

def macroLetters : List Char := "slodiphcrtvSLODIPHCRTV".toList

/-- `macro-expand`. -/
inductive MacroExpand : Str → Prop
  | percent : MacroExpand ['%', '%']
  | blank : MacroExpand ['%', '_']
  | encodedBlank : MacroExpand ['%', '-']
  | body {letter : Char} {digits reverse delims : Str} :
      letter ∈ macroLetters → digits.all Char.isDigit = true →
      reverse ∈ [[], ['r'], ['R']] → delims.all (delimiters.contains ·) = true →
      MacroExpand ('%' :: '{' :: letter :: (digits ++ (reverse ++ (delims ++ ['}']))))

-- printable ASCII characters other than the blank
def isVisible (c : Char) : Bool := 0x21 ≤ c.toNat && c.toNat ≤ 0x7E

/-- `macro-string`: macros and literal characters. -/
inductive MacroString : Str → Prop
  | nil : MacroString []
  | literal {c : Char} {s : Str} : isVisible c = true → c ≠ '%' → MacroString s →
      MacroString (c :: s)
  | expand {e s : Str} : MacroExpand e → MacroString s → MacroString (e ++ s)

def isLabelChar (c : Char) : Bool := c.isAlphanum || c == '-'

/-- `toplabel`: letters and digits with a letter among them, or with hyphens inside. -/
def isToplabel (s : Str) : Bool :=
  s.all Char.isAlphanum && s.any Char.isAlpha ||
    s.all isLabelChar && s.contains '-' && s.head?.any Char.isAlphanum &&
      s.getLast?.any Char.isAlphanum

/-- `domain-end`. -/
def IsDomainEnd (s : Str) : Prop :=
  (∃ label, isToplabel label = true ∧ (s = '.' :: label ∨ s = '.' :: label ++ ['.'])) ∨
    MacroExpand s

/-- `domain-spec`. -/
def IsDomainSpec (s : Str) : Prop :=
  ∃ front last, s = front ++ last ∧ MacroString front ∧ IsDomainEnd last

theorem isVisible_of_isAlphanum {c : Char} (h : c.isAlphanum = true) : isVisible c = true := by
  have hrange : ((65 ≤ c.toNat ∧ c.toNat ≤ 90) ∨ 97 ≤ c.toNat ∧ c.toNat ≤ 122) ∨
      48 ≤ c.toNat ∧ c.toNat ≤ 57 := by
    rw [Char.isAlphanum, Bool.or_eq_true, isAlpha_iff, Char.isDigit_iff_toNat] at h
    exact h
  simp only [isVisible, Bool.and_eq_true, decide_eq_true_eq]
  omega

theorem not_isWhitespace_of_isVisible {c : Char} (h : isVisible c = true) :
    isWhitespace c = false := by
  simp only [isVisible, Bool.and_eq_true, decide_eq_true_eq] at h
  simp only [isWhitespace, Bool.or_eq_false_iff, Bool.and_eq_false_iff, decide_eq_false_iff_not,
    beq_eq_false_iff_ne]
  omega

theorem MacroExpand.visible {e : Str} (h : MacroExpand e) {c : Char} (hc : c ∈ e) :
    isVisible c = true := by
  have hall : ∀ l : Str, l.all isVisible = true → ∀ c ∈ l, isVisible c = true :=
    fun l hl => List.all_eq_true.mp hl
  cases h with
  | percent => exact hall ['%', '%'] (by decide) c hc
  | blank => exact hall ['%', '_'] (by decide) c hc
  | encodedBlank => exact hall ['%', '-'] (by decide) c hc
  | body hletter hdigits hreverse hdelims =>
    simp only [List.mem_cons, List.mem_append, List.not_mem_nil, or_false] at hc
    rcases hc with rfl | rfl | rfl | hc | hc | hc | rfl
    · decide
    · decide
    · exact hall macroLetters (by decide) c hletter
    · apply isVisible_of_isAlphanum
      rw [Char.isAlphanum, List.all_eq_true.mp hdigits c hc, Bool.or_true]
    · have hr : c = 'r' ∨ c = 'R' := by
        simp only [List.mem_cons, List.not_mem_nil, or_false] at hreverse
        rcases hreverse with rfl | rfl | rfl <;> simp_all
      rcases hr with rfl | rfl <;> decide
    · have hdelim := List.contains_iff_mem.mp (List.all_eq_true.mp hdelims c hc)
      exact hall delimiters (by decide) c hdelim
    · decide

theorem MacroString.visible {s : Str} (h : MacroString s) {c : Char} (hc : c ∈ s) :
    isVisible c = true := by
  induction h with
  | nil => cases hc
  | literal hv _ _ ih =>
    rcases List.mem_cons.mp hc with rfl | hc
    · exact hv
    · exact ih hc
  | expand he _ ih =>
    rcases List.mem_append.mp hc with hc | hc
    · exact he.visible hc
    · exact ih hc

theorem isLabelChar_of_isToplabel {s : Str} (h : isToplabel s = true) {c : Char} (hc : c ∈ s) :
    isLabelChar c = true := by
  simp only [isToplabel, Bool.or_eq_true, Bool.and_eq_true, List.all_eq_true] at h
  rcases h with h | h
  · rw [isLabelChar, h.1 c hc, Bool.true_or]
  · exact h.1.1.1 c hc

theorem isVisible_of_isLabelChar {c : Char} (h : isLabelChar c = true) : isVisible c = true := by
  rw [isLabelChar, Bool.or_eq_true, beq_iff_eq] at h
  rcases h with h | rfl
  · exact isVisible_of_isAlphanum h
  · decide

theorem IsDomainSpec.visible {s : Str} (h : IsDomainSpec s) {c : Char} (hc : c ∈ s) :
    isVisible c = true := by
  obtain ⟨front, last, rfl, hfront, hlast⟩ := h
  rcases List.mem_append.mp hc with hc | hc
  · exact hfront.visible hc
  · rcases hlast with ⟨label, hlabel, rfl | rfl⟩ | hmacro
    · rcases List.mem_cons.mp hc with rfl | hc
      · decide
      · exact isVisible_of_isLabelChar (isLabelChar_of_isToplabel hlabel hc)
    · simp only [List.mem_append, List.mem_cons, List.not_mem_nil, or_false] at hc
      rcases hc with (rfl | hc) | rfl
      · decide
      · exact isVisible_of_isLabelChar (isLabelChar_of_isToplabel hlabel hc)
      · decide
    · exact hmacro.visible hc

theorem IsDomainSpec.ne_nil {s : Str} (h : IsDomainSpec s) : s ≠ [] := by
  obtain ⟨front, last, rfl, -, hlast⟩ := h
  have hne : last ≠ [] := by
    rcases hlast with ⟨label, -, rfl | rfl⟩ | hmacro
    · simp
    · simp
    · cases hmacro <;> simp
  simp [hne]

-- the characters a dual CIDR length is made of
def isLengthChar (c : Char) : Bool := c.isDigit || c == '/' || c == '+'

theorem MacroExpand.getLast {e : Str} (h : MacroExpand e) :
    ∃ front c, e = front ++ [c] ∧ isLengthChar c = false := by
  cases h with
  | percent => exact ⟨['%'], '%', rfl, by decide⟩
  | blank => exact ⟨['%'], '_', rfl, by decide⟩
  | encodedBlank => exact ⟨['%'], '-', rfl, by decide⟩
  | @body letter digits reverse delims =>
    exact ⟨'%' :: '{' :: letter :: (digits ++ (reverse ++ delims)), '}', by simp, by decide⟩

/-- Behind a slash in a domain-spec there is more than lengths: a domain-spec ends in a macro or in
a label that has no slash in it. -/
theorem IsDomainSpec.behind_slash {s t : Str} (h : IsDomainSpec (s ++ '/' :: t)) :
    ∃ c ∈ t, isLengthChar c = false := by
  obtain ⟨front, last, hspec, -, hlast⟩ := h
  rcases hlast with ⟨label, hlabel, hend⟩ | hmacro
  · by_contra hnone
    push Not at hnone
    have hdot : '.' ∉ '/' :: t := by
      intro hmem
      rcases List.mem_cons.mp hmem with hmem | hmem
      · cases hmem
      · exact absurd (hnone '.' hmem) (by decide)
    -- the slash would have to stand inside the label
    obtain ⟨tail, htail, hplain⟩ : ∃ tail, last = '.' :: tail ∧ '/' ∉ tail := by
      have hslash : '/' ∉ label := fun hmem =>
        absurd (isLabelChar_of_isToplabel hlabel hmem) (by decide)
      rcases hend with rfl | rfl
      · exact ⟨label, rfl, hslash⟩
      · exact ⟨label ++ ['.'], rfl, by simp [hslash]⟩
    have hsuffix : '/' :: t <:+ s ++ '/' :: t := ⟨s, rfl⟩
    have hsuffix' : '.' :: tail <:+ s ++ '/' :: t := ⟨front, by rw [hspec, htail]⟩
    rcases List.suffix_or_suffix_of_suffix hsuffix hsuffix' with hs | hs
    · rcases List.suffix_cons_iff.mp hs with hs | hs
      · cases (List.cons.inj hs).1
      · exact hplain (hs.subset List.mem_cons_self)
    · exact hdot (hs.subset List.mem_cons_self)
  · obtain ⟨e, c, rfl, hc⟩ := hmacro.getLast
    rw [← List.append_assoc] at hspec
    rcases List.eq_nil_or_concat t with rfl | ⟨t, d, rfl⟩
    · have hlast := (List.append_singleton_inj.mp hspec).2
      rw [← hlast] at hc
      exact absurd hc (by decide)
    · rw [List.concat_eq_append, ← List.cons_append, ← List.append_assoc,
        List.append_singleton_inj] at hspec
      exact ⟨d, by simp, by rw [hspec.2]; exact hc⟩

/-! ## 2. Mechanisms -/

-- decimal digits without a sign and without leading zeros
def isPlainNumber (p : Str) : Bool :=
  p ≠ [] && p.all Char.isDigit && (p.head? ≠ some '0' || p.length == 1)

/-- A prefix length behind its slashes, or nothing for the whole address. -/
def LengthText (slashes : Str) (max : Nat) (text : Str) (n : Nat) : Prop :=
  text = [] ∧ n = max ∨
    ∃ p, text = slashes ++ p ∧ isPlainNumber p = true ∧ Nat.ofDigitChars 10 p 0 = n ∧ n ≤ max

/-- A domain-spec behind a colon, or nothing for the current domain. -/
def TargetText (text : Str) (domain : Option Str) : Prop :=
  text = [] ∧ domain = none ∨ ∃ spec, text = ':' :: spec ∧ domain = some spec ∧ IsDomainSpec spec

/-- The texts of a mechanism.  An address is any text that the standard library reads as it. -/
inductive MechanismText : Str → Mechanism → Prop
  | all {name : Str} : toAsciiLowercase name = "all".toList → MechanismText name .all
  | ip4 {name addr cidr : Str} {net : Ipv4Addr} {n : Nat} :
      toAsciiLowercase name = "ip4".toList → Ipv4Addr.parse addr = some net →
      LengthText ['/'] 32 cidr n → MechanismText (name ++ ':' :: (addr ++ cidr)) (.ip4 net n)
  | ip6 {name addr cidr : Str} {net : Ipv6Addr} {n : Nat} :
      toAsciiLowercase name = "ip6".toList → Ipv6Addr.parse addr = some net →
      LengthText ['/'] 128 cidr n → MechanismText (name ++ ':' :: (addr ++ cidr)) (.ip6 net n)
  | a {name target cidr4 cidr6 : Str} {domain : Option Str} {v4 v6 : Nat} :
      toAsciiLowercase name = "a".toList → TargetText target domain →
      LengthText ['/'] 32 cidr4 v4 → LengthText ['/', '/'] 128 cidr6 v6 →
      MechanismText (name ++ (target ++ (cidr4 ++ cidr6))) (.a domain v4 v6)
  | mx {name target cidr4 cidr6 : Str} {domain : Option Str} {v4 v6 : Nat} :
      toAsciiLowercase name = "mx".toList → TargetText target domain →
      LengthText ['/'] 32 cidr4 v4 → LengthText ['/', '/'] 128 cidr6 v6 →
      MechanismText (name ++ (target ++ (cidr4 ++ cidr6))) (.mx domain v4 v6)
  | includeSpec {name spec : Str} :
      toAsciiLowercase name = "include".toList → IsDomainSpec spec →
      MechanismText (name ++ ':' :: spec) (.include spec)
  | existsSpec {name spec : Str} :
      toAsciiLowercase name = "exists".toList → IsDomainSpec spec →
      MechanismText (name ++ ':' :: spec) (.exists spec)
  | ptr {name target : Str} {domain : Option Str} :
      toAsciiLowercase name = "ptr".toList → TargetText target domain →
      MechanismText (name ++ target) (.ptr domain)

/-- A mechanism behind its qualifier; without one it passes. -/
def DirectiveText (term : Str) (d : Directive) : Prop :=
  (d.qualifier = .pass ∧ MechanismText term d.mechanism) ∨
    ∃ c body, term = c :: body ∧ Qualifier.fromChar c = some d.qualifier ∧
      MechanismText body d.mechanism

/-! ## 3. The parser on these texts -/

-- a name has no separator and no white space in it
structure IsName (name : Str) : Prop where
  ne_nil : name ≠ []
  colon : ':' ∉ name
  slash : '/' ∉ name
  equals : '=' ∉ name
  visible : ∀ c ∈ name, isWhitespace c = false
  unqualified : ∀ c ∈ name.head?, Qualifier.fromChar c = none

theorem isName_of_lowercase {name : Str} {lit : String} (h : toAsciiLowercase name = lit.toList)
    (hlit : lit.toList.all Char.isAlphanum = true) (hne : lit.toList ≠ []) : IsName name := by
  have hplain : ∀ c : Char, c.isAlphanum = false → c.toLower = c → c ∉ name := by
    intro c hc hself
    apply not_mem_of_toAsciiLowercase_eq h hself
    intro hmem
    rw [List.all_eq_true.mp hlit c hmem] at hc
    cases hc
  refine ⟨?_, hplain ':' (by decide) (by decide), hplain '/' (by decide) (by decide),
    hplain '=' (by decide) (by decide), ?_, ?_⟩
  · rintro rfl
    exact hne h.symm
  · intro c hc
    by_contra hws
    rw [Bool.not_eq_false] at hws
    have hself := toLower_of_isWhitespace hws
    have halnum : c.isAlphanum = false := by
      by_contra halnum
      rw [Bool.not_eq_false] at halnum
      have hvisible := not_isWhitespace_of_isVisible (isVisible_of_isAlphanum halnum)
      rw [hws] at hvisible
      cases hvisible
    exact hplain c halnum hself hc
  · intro c hc
    have hmem := List.mem_of_head? hc
    unfold Qualifier.fromChar
    split
    · exact absurd hmem (hplain '+' (by decide) (by decide))
    · exact absurd hmem (hplain '-' (by decide) (by decide))
    · exact absurd hmem (hplain '~' (by decide) (by decide))
    · exact absurd hmem (hplain '?' (by decide) (by decide))
    · rfl

section
variable {name : Str} (h : IsName name)

include h

theorem IsName.splitMechanism_self : splitMechanism name = (name, none) := by
  unfold splitMechanism
  rw [splitOnce_eq_none_iff.mpr h.colon]
  dsimp only
  rw [splitOnce_eq_none_iff.mpr h.slash]

theorem IsName.splitMechanism_colon (rest : Str) :
    splitMechanism (name ++ ':' :: rest) = (name, some rest) := by
  unfold splitMechanism
  rw [splitOnce_append_cons h.colon]

theorem IsName.splitMechanism_slash {rest : Str} (hrest : ':' ∉ rest) :
    splitMechanism (name ++ '/' :: rest) = (name, some ('/' :: rest)) := by
  have hcolon : ':' ∉ name ++ '/' :: rest := by
    simp [h.colon, hrest]
  unfold splitMechanism
  rw [splitOnce_eq_none_iff.mpr hcolon]
  dsimp only
  rw [splitOnce_append_cons h.slash]
  simp

end

end Snail.Network.Spf
