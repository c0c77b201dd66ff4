import Snail.Server.Authenticate

/-!
# FromHeader — whose domain DMARC looks up

`from_header_domain` looks for the last angle brackets and the last `@` of the value.  Section 1
says what a value with one mailbox is, in the terms of RFC 5322; the rest says on which of them the
function finds the domain of that mailbox.
-/

open Snail.Reasoning

namespace Snail.Server

/-! ## 1. Values with one mailbox -/

def dquote : Char := Char.ofNat 34

def backslash : Char := Char.ofNat 92

-- `atext`
def isAtext (c : Char) : Bool :=
  (48 ≤ c.toNat && c.toNat ≤ 57) || (65 ≤ c.toNat && c.toNat ≤ 90) ||
    (97 ≤ c.toNat && c.toNat ≤ 122) || "!#$%&'*+-/=?^_`\x7b|\x7d~".toList.contains c

structure Atom where
  text : Str
  nonempty : text ≠ []
  atext : ∀ c ∈ text, isAtext c = true

-- one atom and the others behind their dots
structure DotAtom where
  first : Atom
  others : List Atom

def DotAtom.text (d : DotAtom) : Str := d.first.text ++ d.others.flatMap fun a => '.' :: a.text

inductive QuotedItem where
  | plain (c : Char) (unescaped : c ≠ dquote ∧ c ≠ backslash)
  | pair (c : Char)

def QuotedItem.text : QuotedItem → Str
  | .plain c _ => [c]
  | .pair c => [backslash, c]

def quotedText (items : List QuotedItem) : Str :=
  dquote :: items.flatMap QuotedItem.text ++ [dquote]

inductive Word where
  | atom (a : Atom)
  | quoted (items : List QuotedItem)

def Word.text : Word → Str
  | .atom a => a.text
  | .quoted items => quotedText items

inductive LocalPart where
  | dotAtom (d : DotAtom)
  | quoted (items : List QuotedItem)

def LocalPart.text : LocalPart → Str
  | .dotAtom d => d.text
  | .quoted items => quotedText items

-- a name, or a literal in square brackets
inductive FromDomain where
  | dotAtom (d : DotAtom)
  | literal (text : Str) (dtext : ∀ c ∈ text, c ≠ '[' ∧ c ≠ ']' ∧ c ≠ backslash)

def FromDomain.text : FromDomain → Str
  | .dotAtom d => d.text
  | .literal text _ => '[' :: text ++ [']']

structure Blanks where
  text : Str
  blank : ∀ c ∈ text, c = ' ' ∨ c = '\t'

inductive FromMailbox where
  | angle (name : List (Word × Blanks)) (localPart : LocalPart) (domain : FromDomain)
  | bare (localPart : LocalPart) (domain : FromDomain)

def FromMailbox.domain : FromMailbox → FromDomain
  | .angle _ _ domain => domain
  | .bare _ domain => domain

/-- One mailbox and the comments behind it, whose texts are arbitrary. -/
structure FromValue where
  lead : Blanks
  mailbox : FromMailbox
  comments : List (Blanks × Str)
  trail : Blanks

def FromValue.commentText (v : FromValue) : Str :=
  (v.comments.flatMap fun c => c.1.text ++ '(' :: c.2 ++ [')']) ++ v.trail.text

-- what stands before the `@` of the address
def FromValue.before (v : FromValue) : Str :=
  match v.mailbox with
  | .angle name localPart _ =>
      v.lead.text ++ (name.flatMap fun w => w.1.text ++ w.2.text) ++ '<' :: localPart.text
  | .bare localPart _ => v.lead.text ++ localPart.text

-- what stands behind its domain
def FromValue.behind (v : FromValue) : Str :=
  match v.mailbox with
  | .angle _ _ _ => '>' :: v.commentText
  | .bare _ _ => v.commentText

def FromValue.text (v : FromValue) : Str :=
  v.before ++ '@' :: v.mailbox.domain.text ++ v.behind

/-! ## 2. What is read -/

-- the trimming of `from_header_domain`
def cleaned (s : Str) : Str := trim (trimEndMatches '>' (trim s))

-- `s` reads as the domain `d`
def SameDomain (s d : Str) : Prop := toAsciiLowercase (cleaned s) = toAsciiLowercase d

/-- The last `<` stands before the last `>`. -/
def Closes (s : Str) : Prop := ∃ t u, s = t ++ '>' :: u ∧ '<' ∈ t ∧ '<' ∉ u ∧ '>' ∉ u

theorem rfind_append_cons {c : Char} {s t : Str} (h : c ∉ t) :
    rfind c (s ++ c :: t) = some s.length := by
  rw [rfind, rsplitOnce_append_cons h]
  rfl

theorem rfind_of_not_mem {c : Char} {s : Str} (h : c ∉ s) : rfind c s = none := by
  rw [rfind, rsplitOnce_eq_none_iff.mpr h]
  rfl

theorem fromAddress_closed {s t u : Str} (ht : '<' ∉ t) (hu : '<' ∉ u) (hu' : '>' ∉ u) :
    fromAddress (s ++ '<' :: t ++ '>' :: u) = t := by
  have hopen : rfind '<' (s ++ '<' :: t ++ '>' :: u) = some s.length := by
    rw [List.append_assoc, List.cons_append]
    apply rfind_append_cons
    simp [ht, hu]
  have hpast : s ++ '<' :: t = (s ++ ['<']) ++ t := by simp
  rw [fromAddress, hopen, rfind_append_cons hu']
  dsimp only
  rw [if_pos (by simp), List.take_left, hpast,
    show s.length + 1 = (s ++ ['<']).length by simp, List.drop_left]

theorem fromAddress_of_not_closes {s : Str} (h : ¬ Closes s) : fromAddress s = trim s := by
  unfold fromAddress
  by_cases hopen : '<' ∈ s
  · rcases exists_last hopen with ⟨t, u, rfl, hu⟩
    rw [rfind_append_cons hu]
    by_cases hclose : '>' ∈ u
    · rcases exists_last hclose with ⟨x, y, rfl, hy⟩
      exact absurd ⟨t ++ '<' :: x, y, by simp, by simp, fun hm => hu (by simp [hm]), hy⟩ h
    · -- the last `>` is before the last `<`
      by_cases hbefore : '>' ∈ t
      · rcases exists_last hbefore with ⟨x, y, rfl, hy⟩
        have hlast : rfind '>' (x ++ '>' :: y ++ '<' :: u) = some x.length := by
          rw [List.append_assoc, List.cons_append]
          apply rfind_append_cons
          simp [hy, hclose]
        rw [hlast]
        dsimp only
        rw [if_neg (by simp)]
      · rw [rfind_of_not_mem (c := '>') (by simp [hbefore, hclose])]
  · rw [rfind_of_not_mem hopen]

def readDomain (s : Str) : Option Str :=
  if cleaned s = [] then none else some (toAsciiLowercase (cleaned s))

theorem fromHeaderDomain_eq (s : Str) :
    fromHeaderDomain s = (rsplitOnce '@' (fromAddress s)).bind fun p => readDomain p.2 := rfl

theorem readDomain_eq_iff {s d : Str} (hd : d ≠ []) :
    readDomain s = some (toAsciiLowercase d) ↔ SameDomain s d := by
  unfold readDomain SameDomain
  by_cases h : cleaned s = []
  · simp [h, toAsciiLowercase, hd]
  · rw [if_neg h, Option.some.injEq]

-- in brackets, behind the last `@`
theorem fromHeaderDomain_at {s t u : Str} (hs : '<' ∈ s) (ht : '<' ∉ t) (ht' : '@' ∉ t)
    (hu : '<' ∉ u) (hu' : '>' ∉ u) :
    fromHeaderDomain (s ++ '@' :: t ++ '>' :: u) = readDomain t := by
  rcases exists_last hs with ⟨x, y, rfl, hy⟩
  have haddress : fromAddress (x ++ '<' :: y ++ '@' :: t ++ '>' :: u) = y ++ '@' :: t := by
    have hclosed := fromAddress_closed (s := x) (t := y ++ '@' :: t) (by simp [hy, ht]) hu hu'
    simpa using hclosed
  rw [fromHeaderDomain_eq, haddress, rsplitOnce_append_cons ht']
  rfl

-- no `@` in the brackets
theorem fromHeaderDomain_open {s t u : Str} (ht : '<' ∉ t) (ht' : '@' ∉ t) (hu : '<' ∉ u)
    (hu' : '>' ∉ u) : fromHeaderDomain (s ++ '<' :: t ++ '>' :: u) = none := by
  rw [fromHeaderDomain_eq, fromAddress_closed ht hu hu', rsplitOnce_eq_none_iff.mpr ht']
  rfl

theorem cleaned_trimEnd (s : Str) : cleaned (trimEnd s) = cleaned s := by
  have hblank : ∀ c ∈ s.rtakeWhile isWhitespace, isWhitespace c = true :=
    fun c hc => List.mem_rtakeWhile_imp hc
  have htrim := trim_append_blank (trimEnd s) hblank
  rw [trimEnd, List.rdropWhile_append_rtakeWhile] at htrim
  unfold cleaned
  rw [htrim, trimEnd]

-- no closed brackets
theorem fromHeaderDomain_of_not_closes {s t : Str} (h : ¬ Closes (s ++ '@' :: t)) (ht : '@' ∉ t) :
    fromHeaderDomain (s ++ '@' :: t) = readDomain t := by
  have hnot : '@' ∉ trimEnd t := fun hm => ht ((trimEnd_isPrefix t).subset hm)
  rw [fromHeaderDomain_eq, fromAddress_of_not_closes h, trim_append_cons s t (by decide),
    rsplitOnce_append_cons hnot]
  dsimp only [Option.bind]
  unfold readDomain
  rw [cleaned_trimEnd]

/-! ## 3. Texts that are, and are not, read as a domain -/

theorem isWhitespace_of_isAtext {c : Char} (h : isAtext c = true) : isWhitespace c = false := by
  simp only [isAtext, Bool.or_eq_true, Bool.and_eq_true, decide_eq_true_eq] at h
  rcases h with h | h
  · simp only [isWhitespace, Bool.or_eq_false_iff, Bool.and_eq_false_iff, decide_eq_false_iff_not,
      beq_eq_false_iff_ne]
    omega
  · have hspecial : "!#$%&'*+-/=?^_`\x7b|\x7d~".toList.all (fun c => !isWhitespace c) = true := by
      decide
    simpa using List.all_eq_true.mp hspecial c (List.contains_iff_mem.mp h)

-- neither blank nor one of the characters that `from_header_domain` looks for
def Plain (c : Char) : Prop :=
  isWhitespace c = false ∧ c ≠ '<' ∧ c ≠ '>' ∧ c ≠ '@' ∧ c ≠ ')'

theorem plain_of_isAtext {c : Char} (h : isAtext c = true) : Plain c := by
  have hne : ∀ {d : Char}, isAtext d = false → c ≠ d := by
    rintro d hd rfl
    rw [h] at hd
    cases hd
  exact ⟨isWhitespace_of_isAtext h, hne (by decide), hne (by decide), hne (by decide),
    hne (by decide)⟩

theorem DotAtom.plain_of_mem {d : DotAtom} {c : Char} (h : c ∈ d.text) : Plain c := by
  rcases List.mem_append.mp h with h | h
  · exact plain_of_isAtext (d.first.atext c h)
  · rcases List.mem_flatMap.mp h with ⟨a, -, ha⟩
    rcases List.mem_cons.mp ha with rfl | ha
    · exact ⟨by decide, by decide, by decide, by decide, by decide⟩
    · exact plain_of_isAtext (a.atext c ha)

theorem FromDomain.text_ne_nil (d : FromDomain) : d.text ≠ [] := by
  cases d with
  | dotAtom d => simp [text, DotAtom.text, d.first.nonempty]
  | literal text _ => simp [FromDomain.text]

theorem FromDomain.head_text {d : FromDomain} {c : Char} (h : c ∈ d.text.head?) :
    isWhitespace c = false := by
  cases d with
  | dotAtom d => exact (DotAtom.plain_of_mem (List.mem_of_mem_head? h)).1
  | literal text _ =>
    cases h
    decide

theorem FromDomain.exists_last (d : FromDomain) :
    ∃ s c, d.text = s ++ [c] ∧ isWhitespace c = false ∧ c ≠ '>' ∧ c ≠ ')' := by
  cases d with
  | dotAtom d =>
    rcases List.eq_nil_or_concat d.text with hnil | ⟨s, c, hlast⟩
    · exact absurd hnil (FromDomain.text_ne_nil (.dotAtom d))
    · have hplain : Plain c := DotAtom.plain_of_mem (d := d) (by rw [hlast]; simp)
      exact ⟨s, c, hlast.trans List.concat_eq_append, hplain.1, hplain.2.2.1, hplain.2.2.2.2⟩
  | literal text _ => exact ⟨'[' :: text, ']', rfl, by decide, by decide, by decide⟩

-- a domain that holds one of the characters is a literal
theorem FromDomain.literal_of_mem {d : FromDomain} {c : Char} (h : c ∈ d.text) (hc : ¬ Plain c) :
    ∃ m, d.text = '[' :: m ++ [']'] ∧ '[' ∉ m := by
  cases d with
  | dotAtom d => exact absurd (DotAtom.plain_of_mem h) hc
  | literal text dtext => exact ⟨text, rfl, fun hm => (dtext _ hm).1 rfl⟩

theorem FromDomain.literal_split {d : FromDomain} {s t : Str} {c : Char} (hd : d.text = s ++ c :: t)
    (hc : ¬ Plain c) (hopen : c ≠ '[') (hclose : c ≠ ']') :
    ∃ m e, t = m ++ [']'] ∧ '[' ∉ m ∧ d.text = '[' :: e := by
  rcases FromDomain.literal_of_mem (d := d) (c := c) (by rw [hd]; simp) hc with ⟨m, hm, hno⟩
  have heq : s ++ c :: t = ('[' :: m) ++ [']'] := hd.symm.trans hm
  rcases List.append_eq_append_iff.mp heq with ⟨r, hs, hr⟩ | ⟨r, hs, hr⟩
  · cases r with
    | nil => exact absurd (List.cons.inj hr).1 hclose
    | cons e r =>
      rw [List.cons_append, List.cons.injEq] at hr
      cases s with
      | nil => exact absurd (hr.1.trans (List.cons.inj hs).1.symm) hopen
      | cons f s =>
        refine ⟨r, _, hr.2, ?_, hm⟩
        intro hmem
        exact hno (by rw [(List.cons.inj hs).2]; simp [hmem])
  · rcases List.append_eq_singleton_iff.mp hr.symm with ⟨-, hbad⟩ | ⟨-, hbad⟩
    · exact absurd (List.cons.inj hbad).1 hclose
    · cases hbad

theorem cleaned_append_cons (s t : Str) {c : Char} (h : isWhitespace c = false) (hne : c ≠ '>') :
    cleaned (s ++ c :: t) = trimStart s ++ c :: trimEnd (trimEndMatches '>' (trimEnd t)) := by
  have hagain : trimStart (trimStart s) = trimStart s := List.dropWhile_idempotent _ _
  unfold cleaned
  rw [trim_append_cons s t h, trimEndMatches, rdropWhile_append_cons _ _ (by simpa using hne),
    trim_append_cons _ _ h, hagain, trimEndMatches]

theorem length_cleaned_le (s : Str) : (cleaned s).length ≤ s.length := by
  have hend : (trimEndMatches '>' (trim s)).length ≤ (trim s).length :=
    (List.rdropWhile_prefix _ _).length_le
  exact ((length_trim_le _).trans hend).trans (length_trim_le s)

theorem FromDomain.trimStart_text_append (d : FromDomain) (s : Str) :
    trimStart (d.text ++ s) = d.text ++ s := by
  apply trimStart_eq_self
  intro c hc
  rw [List.head?_append_of_ne_nil _ d.text_ne_nil] at hc
  exact FromDomain.head_text hc

theorem FromDomain.sameDomain (d : FromDomain) {s : Str} (hs : ∀ c ∈ s, isWhitespace c = true) :
    SameDomain (d.text ++ s) d.text := by
  rcases d.exists_last with ⟨t, c, hd, hc, hne, -⟩
  have ht : trimStart t = t := by
    apply trimStart_eq_self
    intro e he
    apply FromDomain.head_text (d := d)
    rw [hd, List.head?_append]
    simp [Option.mem_def.mp he]
  have hclean : cleaned (d.text ++ s) = d.text := by
    rw [hd, List.append_assoc, List.singleton_append, cleaned_append_cons t s hc hne, ht,
      trimEnd_blank hs]
    rfl
  rw [SameDomain, hclean]

theorem not_sameDomain_of_lt {s d : Str} (h : s.length < d.length) : ¬ SameDomain s d := by
  intro hsame
  have hlength := congrArg List.length hsame
  simp only [toAsciiLowercase, List.length_map] at hlength
  have hle := length_cleaned_le s
  omega

-- the text goes on with a comment
theorem FromDomain.not_sameDomain_comment (d : FromDomain) (s t : Str) :
    ¬ SameDomain (d.text ++ s ++ '(' :: t) d.text := by
  intro hsame
  have hlength := congrArg List.length hsame
  rw [cleaned_append_cons _ t (by decide) (by decide), d.trimStart_text_append] at hlength
  simp only [toAsciiLowercase, List.length_map, List.length_append, List.length_cons] at hlength
  omega

-- the text ends with a comment
theorem FromDomain.not_sameDomain_paren (d : FromDomain) (s : Str) {t : Str}
    (ht : ∀ c ∈ t, isWhitespace c = true) : ¬ SameDomain (s ++ ')' :: t) d.text := by
  intro hsame
  rcases d.exists_last with ⟨u, c, hd, -, -, hparen⟩
  have hlast := congrArg List.getLast? hsame
  rw [cleaned_append_cons s t (by decide) (by decide), trimEnd_blank ht, hd] at hlast
  simp only [toAsciiLowercase, List.map_append, List.map_cons] at hlast
  have hlower : c.toLower = ')' := by
    simpa [trimEndMatches, trimEnd] using hlast.symm
  exact hparen (eq_of_toLower_eq (by decide) hlower)

-- the text starts inside a literal
theorem not_sameDomain_literal {m : Str} (hm : '[' ∉ m) (s t : Str) :
    ¬ SameDomain (m ++ ']' :: s) ('[' :: t) := by
  intro hsame
  rw [SameDomain, cleaned_append_cons m s (by decide) (by decide)] at hsame
  cases hstart : trimStart m with
  | nil =>
    rw [hstart] at hsame
    cases (List.cons.inj hsame).1
  | cons c r =>
    rw [hstart] at hsame
    have hc : c = '[' := eq_of_toLower_eq (by decide) (List.cons.inj hsame).1
    have hmem : c ∈ m := (List.dropWhile_suffix isWhitespace).subset
      (show c ∈ trimStart m by rw [hstart]; simp)
    exact hm (by rw [← hc]; exact hmem)

/-! ## 4. The whole value -/

/-- The text between the last `@` and the last `>` of `s` reads as the domain `d`; `opened` says
that a `<` stands before `s`. -/
def Echoes (opened : Prop) (s d : Str) : Prop :=
  ∃ t u v, s = t ++ '@' :: u ++ '>' :: v ∧ (opened ∨ '<' ∈ t) ∧ '@' ∉ u ∧ '<' ∉ u ∧
    '<' ∉ v ∧ '>' ∉ v ∧ SameDomain u d

theorem exists_last_mark (s : Str) :
    ('@' ∉ s ∧ '<' ∉ s) ∨ (∃ t u, s = t ++ '@' :: u ∧ '@' ∉ u ∧ '<' ∉ u) ∨
      ∃ t u, s = t ++ '<' :: u ∧ '@' ∉ u ∧ '<' ∉ u := by
  induction s with
  | nil => exact .inl ⟨by simp, by simp⟩
  | cons c s ih =>
    rcases ih with ⟨hat, hopen⟩ | ⟨t, u, rfl, hu⟩ | ⟨t, u, rfl, hu⟩
    · by_cases hc : c = '@'
      · exact .inr (.inl ⟨[], s, by rw [hc]; rfl, hat, hopen⟩)
      · by_cases hc' : c = '<'
        · exact .inr (.inr ⟨[], s, by rw [hc']; rfl, hat, hopen⟩)
        · exact .inl ⟨by simp [hat, Ne.symm hc], by simp [hopen, Ne.symm hc']⟩
    · exact .inr (.inl ⟨c :: t, u, rfl, hu⟩)
    · exact .inr (.inr ⟨c :: t, u, rfl, hu⟩)

section
variable {s t u : Str} (d : FromDomain)

theorem fromHeaderDomain_at_iff (hs : '<' ∈ s) (ht : '<' ∉ t) (ht' : '@' ∉ t) (hu : '<' ∉ u)
    (hu' : '>' ∉ u) :
    fromHeaderDomain (s ++ '@' :: t ++ '>' :: u) = some (toAsciiLowercase d.text) ↔
      SameDomain t d.text := by
  rw [fromHeaderDomain_at hs ht ht' hu hu', readDomain_eq_iff d.text_ne_nil]

-- the brackets close behind the domain, in a comment
theorem fromHeaderDomain_beyond {x y : Str} (hopen : '<' ∈ s ++ '@' :: d.text ++ t)
    (ht : t = x ++ '(' :: y) (hu : '<' ∉ u) (hu' : '>' ∉ u) :
    fromHeaderDomain (s ++ '@' :: d.text ++ t ++ '>' :: u) = some (toAsciiLowercase d.text) ↔
      ∃ a b, t = a ++ '@' :: b ∧ '@' ∉ b ∧ '<' ∉ b ∧ SameDomain b d.text := by
  rcases exists_last_mark t with ⟨hat, hlt⟩ | ⟨a, b, rfl, hat, hlt⟩ | ⟨a, b, rfl, hat, hlt⟩
  · -- nothing is read from the comment alone
    have hno : ¬ ∃ a b, t = a ++ '@' :: b ∧ '@' ∉ b ∧ '<' ∉ b ∧ SameDomain b d.text := by
      rintro ⟨a, b, rfl, -⟩
      simp at hat
    refine iff_of_false ?_ hno
    rcases exists_last_mark d.text with
      ⟨hdat, hdlt⟩ | ⟨a, b, hd, hdat, hdlt⟩ | ⟨a, b, hd, hdat, hdlt⟩
    · have hs : '<' ∈ s := by
        simpa [hdlt, hlt] using hopen
      rw [List.append_assoc s, List.cons_append,
        fromHeaderDomain_at_iff d hs (by simp [hdlt, hlt]) (by simp [hdat, hat]) hu hu', ht,
        ← List.append_assoc]
      exact d.not_sameDomain_comment x y
    · rcases FromDomain.literal_split hd (by simp [Plain]) (by decide) (by decide) with
        ⟨m, e, hb, hm, he⟩
      have hs : '<' ∈ s ++ '@' :: a := by
        rw [hd] at hopen
        simpa [hdlt, hlt] using hopen
      have htext : s ++ '@' :: d.text ++ t ++ '>' :: u =
          (s ++ '@' :: a) ++ '@' :: (b ++ t) ++ '>' :: u := by
        rw [hd]
        simp
      rw [htext, fromHeaderDomain_at_iff d hs (by simp [hdlt, hlt]) (by simp [hdat, hat]) hu hu',
        hb, he, List.append_assoc]
      exact not_sameDomain_literal hm t e
    · have htext : s ++ '@' :: d.text ++ t ++ '>' :: u =
          (s ++ '@' :: a) ++ '<' :: (b ++ t) ++ '>' :: u := by
        rw [hd]
        simp
      rw [htext, fromHeaderDomain_open (by simp [hdlt, hlt]) (by simp [hdat, hat]) hu hu']
      simp
  · have hs : '<' ∈ s ++ '@' :: d.text ++ a := by
      simpa [hlt] using hopen
    have htext : s ++ '@' :: d.text ++ (a ++ '@' :: b) ++ '>' :: u =
        (s ++ '@' :: d.text ++ a) ++ '@' :: b ++ '>' :: u := by
      simp
    rw [htext, fromHeaderDomain_at_iff d hs hlt hat hu hu']
    constructor
    · intro h
      exact ⟨a, b, rfl, hat, hlt, h⟩
    · rintro ⟨a', b', heq, hat', -, h⟩
      rw [(last_unique heq hat hat').2]
      exact h
  · have htext : s ++ '@' :: d.text ++ (a ++ '<' :: b) ++ '>' :: u =
        (s ++ '@' :: d.text ++ a) ++ '<' :: b ++ '>' :: u := by
      simp
    rw [htext, fromHeaderDomain_open hlt hat hu hu']
    refine iff_of_false (by simp) ?_
    rintro ⟨a', b', heq, -, hlt', -⟩
    exact not_both_last (by decide) hat hlt' heq

-- the brackets do not close, and a comment ends the value
theorem fromHeaderDomain_paren (hclosed : ¬ Closes (s ++ ')' :: t)) (hs : '@' ∈ s)
    (ht : ∀ c ∈ t, isWhitespace c = true) :
    fromHeaderDomain (s ++ ')' :: t) ≠ some (toAsciiLowercase d.text) := by
  rcases exists_last hs with ⟨a, b, rfl, hb⟩
  have hat : '@' ∉ b ++ ')' :: t := by
    have hblank : '@' ∉ t := fun hm => absurd (ht _ hm) (by decide)
    simp [hb, hblank]
  rw [List.append_assoc, List.cons_append] at hclosed ⊢
  rw [fromHeaderDomain_of_not_closes hclosed hat, Ne, readDomain_eq_iff d.text_ne_nil]
  exact d.not_sameDomain_paren b ht

end

/-! ## 5. Comments -/

theorem Blanks.isWhitespace_of_mem {b : Blanks} {c : Char} (h : c ∈ b.text) :
    isWhitespace c = true := by
  rcases b.blank c h with rfl | rfl
  · decide
  · decide

namespace FromValue

variable (v : FromValue)

theorem commentText_of_nil (h : v.comments = []) {c : Char} (hc : c ∈ v.commentText) :
    isWhitespace c = true := by
  rw [commentText, h] at hc
  exact Blanks.isWhitespace_of_mem hc

theorem commentText_of_ne_nil (h : v.comments ≠ []) :
    (∃ s t, v.commentText = s ++ ')' :: t ∧ ∀ c ∈ t, isWhitespace c = true) ∧
      ∃ s t, v.commentText = s ++ '(' :: t ∧ ∀ c ∈ s, isWhitespace c = true := by
  refine ⟨?_, ?_⟩
  · rcases List.eq_nil_or_concat v.comments with hnil | ⟨init, last, hlast⟩
    · exact absurd hnil h
    · refine ⟨(init.flatMap fun c => c.1.text ++ '(' :: c.2 ++ [')']) ++
        (last.1.text ++ '(' :: last.2), v.trail.text, ?_,
        fun c hc => Blanks.isWhitespace_of_mem hc⟩
      rw [commentText, hlast]
      simp
  · rcases List.exists_cons_of_ne_nil h with ⟨first, rest, hfirst⟩
    refine ⟨first.1.text, first.2 ++ ')' ::
      ((rest.flatMap fun c => c.1.text ++ '(' :: c.2 ++ [')']) ++ v.trail.text), ?_,
      fun c hc => Blanks.isWhitespace_of_mem hc⟩
    rw [commentText, hfirst]
    simp

-- a bracket in the comments stands behind the first parenthesis
theorem exists_paren {s t : Str} {c : Char} (h : v.commentText = s ++ c :: t)
    (hc : isWhitespace c = false) (hne : c ≠ '(') : ∃ x y, s = x ++ '(' :: y := by
  have hcomments : v.comments ≠ [] := by
    intro hnil
    have hblank := v.commentText_of_nil hnil (c := c) (by rw [h]; simp)
    rw [hc] at hblank
    cases hblank
  rcases (v.commentText_of_ne_nil hcomments).2 with ⟨x, y, hxy, hx⟩
  rcases List.append_eq_append_iff.mp (h.symm.trans hxy) with ⟨r, hr, hrest⟩ | ⟨r, hr, hrest⟩
  · cases r with
    | nil => exact absurd (List.cons.inj hrest).1 hne
    | cons e r =>
      have hblank := hx e (by rw [hr]; simp)
      rw [← (List.cons.inj hrest).1, hc] at hblank
      cases hblank
  · cases r with
    | nil => exact absurd (List.cons.inj hrest).1.symm hne
    | cons e r =>
      rw [List.cons_append, List.cons.injEq] at hrest
      exact ⟨x, r, by rw [hr, hrest.1]⟩

end FromValue

theorem not_closes {s t : Str} (h : '>' ∉ t) : ¬ Closes (s ++ '<' :: t) := by
  rintro ⟨a, b, heq, -, hb, -⟩
  exact not_both_last (by decide) h hb heq

theorem mem_of_echoes {opened : Prop} {s d : Str} (h : Echoes opened s d) : '>' ∈ s := by
  rcases h with ⟨t, u, v, rfl, -⟩
  simp

theorem echoes_iff {opened : Prop} {s t d : Str} (ht : '>' ∉ t) :
    Echoes opened (s ++ '>' :: t) d ↔
      '<' ∉ t ∧ ∃ a b, s = a ++ '@' :: b ∧ (opened ∨ '<' ∈ a) ∧ '@' ∉ b ∧ '<' ∉ b ∧
        SameDomain b d := by
  constructor
  · rintro ⟨a, b, c, heq, hopened, hat, hlt, hc, hc', hsame⟩
    rcases last_unique heq ht hc' with ⟨rfl, rfl⟩
    exact ⟨hc, a, b, rfl, hopened, hat, hlt, hsame⟩
  · rintro ⟨hlt, a, b, rfl, hopened, hat, hlt', hsame⟩
    exact ⟨a, b, t, rfl, hopened, hat, hlt', hlt, ht, hsame⟩

/-! ## 6. The domain of the mailbox -/

/-- When the domain of the mailbox is found.  An address in brackets must have no `@` or `<` in its
domain, which a literal may hold, and no brackets in the comments; a bare address must have no
comment, and no closed brackets in its quoted parts.  Or else what is read instead, in the comments
or in the local part, spells the same domain. -/
def FromValue.Readable (v : FromValue) : Prop :=
  match v.mailbox with
  | .angle _ _ domain =>
      ('<' ∉ v.commentText ∧ '>' ∉ v.commentText ∧ '@' ∉ domain.text ∧ '<' ∉ domain.text) ∨
        Echoes True v.commentText domain.text
  | .bare localPart domain =>
      (v.comments = [] ∧ '@' ∉ domain.text ∧ ¬ Closes v.text) ∨
        Echoes ('<' ∈ localPart.text ++ domain.text) v.commentText domain.text ∨
        (Echoes False localPart.text domain.text ∧
          ∀ c ∈ domain.text ++ v.commentText, c ≠ '<' ∧ c ≠ '>')

-- a `<` behind every `>` leaves the whole value to be read, up to the end of the last comment
theorem FromValue.angle_open (v : FromValue) (d : FromDomain) (s : Str) {a b : Str}
    (hab : v.commentText = a ++ '<' :: b) (hb : '>' ∉ b) :
    fromHeaderDomain (s ++ '@' :: d.text ++ '>' :: v.commentText) ≠
      some (toAsciiLowercase d.text) := by
  have hcomments : v.comments ≠ [] := by
    intro hnil
    exact absurd (v.commentText_of_nil hnil (c := '<') (by rw [hab]; simp)) (by decide)
  have hclosed : ¬ Closes (s ++ '@' :: d.text ++ '>' :: v.commentText) := by
    rw [hab, show s ++ '@' :: d.text ++ '>' :: (a ++ '<' :: b) =
      (s ++ '@' :: d.text ++ '>' :: a) ++ '<' :: b by simp]
    exact not_closes hb
  rcases (v.commentText_of_ne_nil hcomments).1 with ⟨x, y, hxy, hy⟩
  rw [hxy, show s ++ '@' :: d.text ++ '>' :: (x ++ ')' :: y) =
    (s ++ '@' :: d.text ++ '>' :: x) ++ ')' :: y by simp] at hclosed ⊢
  exact fromHeaderDomain_paren d hclosed (by simp) hy

-- the brackets close in the comments
theorem FromValue.angle_comment (v : FromValue) (d : FromDomain) {s a b : Str} (hs : '<' ∈ s)
    (hab : v.commentText = a ++ '>' :: b) (hb : '>' ∉ b) :
    fromHeaderDomain (s ++ '@' :: d.text ++ '>' :: v.commentText) =
        some (toAsciiLowercase d.text) ↔
      Echoes True v.commentText d.text := by
  by_cases hlt : '<' ∈ b
  · rcases exists_last hlt with ⟨x, y, rfl, hy⟩
    have hopen : v.commentText = (a ++ '>' :: x) ++ '<' :: y := by
      rw [hab]
      simp
    refine iff_of_false (v.angle_open d s hopen fun hm => hb (by simp [hm])) ?_
    rw [hab, echoes_iff hb]
    exact fun h => h.1 hlt
  · rcases v.exists_paren hab (by decide) (by decide) with ⟨x, y, ha⟩
    have htext : s ++ '@' :: d.text ++ '>' :: v.commentText =
        s ++ '@' :: d.text ++ ('>' :: a) ++ '>' :: b := by
      rw [hab]
      simp
    rw [htext, fromHeaderDomain_beyond d (x := '>' :: x) (y := y) (by simp [hs])
      (by rw [ha]; rfl) hlt hb, hab, echoes_iff hb]
    constructor
    · rintro ⟨a', b', heq, hat, hlt', hsame⟩
      cases a' with
      | nil => cases (List.cons.inj heq).1
      | cons c a' => exact ⟨hlt, a', b', (List.cons.inj heq).2, .inl trivial, hat, hlt', hsame⟩
    · rintro ⟨-, a', b', heq, -, hat, hlt', hsame⟩
      exact ⟨'>' :: a', b', by rw [heq]; rfl, hat, hlt', hsame⟩

-- the brackets are those of the address
theorem fromHeaderDomain_angle (d : FromDomain) {s t : Str} (hs : '<' ∈ s) (hlt : '<' ∉ t)
    (hgt : '>' ∉ t) :
    fromHeaderDomain (s ++ '@' :: d.text ++ '>' :: t) = some (toAsciiLowercase d.text) ↔
      '@' ∉ d.text ∧ '<' ∉ d.text := by
  rcases exists_last_mark d.text with
    ⟨hat, hdlt⟩ | ⟨a, b, hd, hat, hdlt⟩ | ⟨a, b, hd, hat, hdlt⟩
  · rw [fromHeaderDomain_at_iff d hs hdlt hat hlt hgt]
    refine iff_of_true ?_ ⟨hat, hdlt⟩
    simpa using d.sameDomain (s := []) (by simp)
  · have htext : s ++ '@' :: d.text ++ '>' :: t = (s ++ '@' :: a) ++ '@' :: b ++ '>' :: t := by
      rw [hd]
      simp
    rw [htext, fromHeaderDomain_at_iff d (by simp [hs]) hdlt hat hlt hgt]
    refine iff_of_false (not_sameDomain_of_lt ?_) fun h => h.1 (by rw [hd]; simp)
    rw [hd, List.length_append, List.length_cons]
    omega
  · have htext : s ++ '@' :: d.text ++ '>' :: t = (s ++ '@' :: a) ++ '<' :: b ++ '>' :: t := by
      rw [hd]
      simp
    rw [htext, fromHeaderDomain_open hdlt hat hlt hgt]
    exact iff_of_false (by simp) fun h => h.2 (by rw [hd]; simp)

theorem FromValue.angle_iff (v : FromValue) (d : FromDomain) {s : Str} (hs : '<' ∈ s) :
    fromHeaderDomain (s ++ '@' :: d.text ++ '>' :: v.commentText) =
        some (toAsciiLowercase d.text) ↔
      ('<' ∉ v.commentText ∧ '>' ∉ v.commentText ∧ '@' ∉ d.text ∧ '<' ∉ d.text) ∨
        Echoes True v.commentText d.text := by
  by_cases hgt : '>' ∈ v.commentText
  · rcases exists_last hgt with ⟨a, b, hab, hb⟩
    rw [or_iff_right fun h => h.2.1 hgt]
    exact v.angle_comment d hs hab hb
  · rw [or_iff_left fun h => hgt (mem_of_echoes h)]
    by_cases hlt : '<' ∈ v.commentText
    · rcases exists_last hlt with ⟨a, b, hab, -⟩
      refine iff_of_false (v.angle_open d s hab ?_) fun h => h.1 hlt
      exact fun hm => hgt (by rw [hab]; simp [hm])
    · rw [fromHeaderDomain_angle d hs hlt hgt, and_iff_right hlt, and_iff_right hgt]

theorem closes_of_echoes {opened : Prop} {s t u d : Str} (h : Echoes opened t d)
    (hopened : opened → '<' ∈ s) (hu : ∀ c ∈ u, c ≠ '<' ∧ c ≠ '>') : Closes (s ++ t ++ u) := by
  rcases h with ⟨a, b, c, rfl, hlt, -, -, hc, hc', -⟩
  refine ⟨s ++ a ++ '@' :: b, c ++ u, by simp, ?_, ?_, ?_⟩
  · rcases hlt with h | h
    · simp [hopened h]
    · simp [h]
  · simp only [List.mem_append, not_or]
    exact ⟨hc, fun hm => (hu _ hm).1 rfl⟩
  · simp only [List.mem_append, not_or]
    exact ⟨hc', fun hm => (hu _ hm).2 rfl⟩

section
variable (v : FromValue) (l d : Str)

-- what the condition says of a bare address once its brackets do not close
theorem FromValue.not_echoes_of_not_closes
    (h : ¬ Closes (v.lead.text ++ l ++ '@' :: d ++ v.commentText)) :
    ¬ (Echoes ('<' ∈ l ++ d) v.commentText d ∨
      (Echoes False l d ∧ ∀ c ∈ d ++ v.commentText, c ≠ '<' ∧ c ≠ '>')) := by
  rintro (hecho | ⟨hecho, hclean⟩)
  · have hcloses := closes_of_echoes (s := v.lead.text ++ l ++ '@' :: d) (u := []) hecho
      (fun hm => by
        rcases List.mem_append.mp hm with hm | hm
        · simp [hm]
        · simp [hm]) (by simp)
    rw [List.append_nil] at hcloses
    exact h hcloses
  · have hcloses := closes_of_echoes (s := v.lead.text) (u := '@' :: d ++ v.commentText) hecho
      False.elim (by
        intro c hc
        rcases List.mem_cons.mp hc with rfl | hc
        · decide
        · exact hclean c hc)
    rw [← List.append_assoc] at hcloses
    exact h hcloses

end

theorem FromValue.bare_iff_of_not_closes (v : FromValue) (l : Str) (d : FromDomain)
    (h : ¬ Closes (v.lead.text ++ l ++ '@' :: d.text ++ v.commentText)) :
    fromHeaderDomain (v.lead.text ++ l ++ '@' :: d.text ++ v.commentText) =
        some (toAsciiLowercase d.text) ↔ v.comments = [] ∧ '@' ∉ d.text := by
  by_cases hcomments : v.comments = []
  · have hblank : ∀ c ∈ v.commentText, isWhitespace c = true :=
      fun c hc => v.commentText_of_nil hcomments hc
    have hat : '@' ∉ v.commentText := fun hm => absurd (hblank _ hm) (by decide)
    by_cases hd : '@' ∈ d.text
    · rcases exists_last hd with ⟨a, b, hab, hb⟩
      rcases FromDomain.literal_split hab (by simp [Plain]) (by decide) (by decide) with
        ⟨m, e, hbm, hm, he⟩
      have htext : v.lead.text ++ l ++ '@' :: d.text ++ v.commentText =
          (v.lead.text ++ l ++ '@' :: a) ++ '@' :: (b ++ v.commentText) := by
        rw [hab]
        simp
      rw [htext] at h ⊢
      rw [fromHeaderDomain_of_not_closes h (by simp [hb, hat]), readDomain_eq_iff d.text_ne_nil]
      refine iff_of_false ?_ fun hcond => hcond.2 hd
      rw [hbm, he, List.append_assoc]
      exact not_sameDomain_literal hm _ e
    · rw [List.append_assoc, List.cons_append] at h ⊢
      rw [fromHeaderDomain_of_not_closes h (by simp [hd, hat]), readDomain_eq_iff d.text_ne_nil]
      exact iff_of_true (d.sameDomain hblank) ⟨hcomments, hd⟩
  · refine iff_of_false ?_ fun hcond => hcomments hcond.1
    rcases (v.commentText_of_ne_nil hcomments).1 with ⟨x, y, hxy, hy⟩
    rw [hxy, ← List.append_assoc] at h ⊢
    exact fromHeaderDomain_paren d h (by simp) hy

-- the brackets close in the comments
theorem FromValue.bare_iff_comment (v : FromValue) (l : Str) (d : FromDomain) {s t : Str}
    (hcomments : v.commentText = s ++ '>' :: t) (hlt : '<' ∉ t) (hgt : '>' ∉ t)
    (hopen : '<' ∈ v.lead.text ++ l ++ '@' :: d.text ++ s) :
    fromHeaderDomain (v.lead.text ++ l ++ '@' :: d.text ++ v.commentText) =
        some (toAsciiLowercase d.text) ↔
      Echoes ('<' ∈ l ++ d.text) v.commentText d.text := by
  have hlead : '<' ∉ v.lead.text :=
    fun hm => absurd (Blanks.isWhitespace_of_mem hm) (by decide)
  rcases v.exists_paren hcomments (by decide) (by decide) with ⟨x, y, hs⟩
  rw [hcomments, ← List.append_assoc, fromHeaderDomain_beyond d hopen hs hlt hgt, echoes_iff hgt]
  constructor
  · rintro ⟨a, b, rfl, hat, hb, hsame⟩
    refine ⟨hlt, a, b, rfl, ?_, hat, hb, hsame⟩
    simp only [List.mem_append, List.mem_cons, hlead, hb] at hopen ⊢
    simpa [or_assoc] using hopen
  · rintro ⟨-, a, b, rfl, -, hat, hb, hsame⟩
    exact ⟨a, b, rfl, hat, hb, hsame⟩

-- the brackets close in the domain
theorem FromValue.not_reads_domain {a s t u : Str} {d : FromDomain}
    (hd : d.text = a ++ '>' :: t) (hlt : '<' ∉ t ++ u) (hgt : '>' ∉ t ++ u)
    (hopen : '<' ∈ s ++ '@' :: a) :
    fromHeaderDomain (s ++ '@' :: d.text ++ u) ≠ some (toAsciiLowercase d.text) := by
  have htext : s ++ '@' :: d.text ++ u = s ++ '@' :: a ++ '>' :: (t ++ u) := by
    rw [hd]
    simp
  rw [htext]
  rcases exists_last_mark a with ⟨hat, ha⟩ | ⟨x, y, rfl, hat, ha⟩ | ⟨x, y, rfl, hat, ha⟩
  · have hs : '<' ∈ s := by
      simpa [ha] using hopen
    rw [Ne, fromHeaderDomain_at_iff d hs ha hat hlt hgt]
    apply not_sameDomain_of_lt
    rw [hd, List.length_append, List.length_cons]
    omega
  · have hs : '<' ∈ s ++ '@' :: x := by
      simpa [ha] using hopen
    rw [show s ++ '@' :: (x ++ '@' :: y) ++ '>' :: (t ++ u) =
      (s ++ '@' :: x) ++ '@' :: y ++ '>' :: (t ++ u) by simp, Ne,
      fromHeaderDomain_at_iff d hs ha hat hlt hgt]
    apply not_sameDomain_of_lt
    rw [hd]
    simp only [List.length_append, List.length_cons]
    omega
  · rw [show s ++ '@' :: (x ++ '<' :: y) ++ '>' :: (t ++ u) =
      (s ++ '@' :: x) ++ '<' :: y ++ '>' :: (t ++ u) by simp, fromHeaderDomain_open ha hat hlt hgt]
    simp

-- the brackets close in the local part
theorem FromValue.bare_iff_local {s t u : Str} (b : Blanks) (d : FromDomain) (hlt : '<' ∉ t ++ u)
    (hgt : '>' ∉ t ++ u) (hopen : '<' ∈ s) :
    fromHeaderDomain (b.text ++ (s ++ '>' :: t) ++ u) = some (toAsciiLowercase d.text) ↔
      Echoes False (s ++ '>' :: t) d.text := by
  have htlt : '<' ∉ t := fun hm => hlt (by simp [hm])
  have htgt : '>' ∉ t := fun hm => hgt (by simp [hm])
  have htext : b.text ++ (s ++ '>' :: t) ++ u = b.text ++ s ++ '>' :: (t ++ u) := by simp
  rw [htext, echoes_iff htgt]
  rcases exists_last_mark s with ⟨-, hs⟩ | ⟨x, y, rfl, hat, hs⟩ | ⟨x, y, rfl, hat, hs⟩
  · exact absurd hopen hs
  · have hx : '<' ∈ x := by
      simpa [hs] using hopen
    rw [← List.append_assoc, fromHeaderDomain_at_iff d (by simp [hx]) hs hat hlt hgt]
    constructor
    · intro hsame
      exact ⟨htlt, x, y, rfl, .inr hx, hat, hs, hsame⟩
    · rintro ⟨-, x', y', heq, -, hat', -, hsame⟩
      rw [(last_unique heq hat hat').2]
      exact hsame
  · rw [← List.append_assoc, fromHeaderDomain_open hs hat hlt hgt]
    refine iff_of_false (by simp) ?_
    rintro ⟨-, x', y', heq, -, -, hs', -⟩
    exact not_both_last (by decide) hat hs' heq

theorem FromValue.bare_iff (v : FromValue) (l : Str) (d : FromDomain) :
    fromHeaderDomain (v.lead.text ++ l ++ '@' :: d.text ++ v.commentText) =
        some (toAsciiLowercase d.text) ↔
      (v.comments = [] ∧ '@' ∉ d.text ∧
        ¬ Closes (v.lead.text ++ l ++ '@' :: d.text ++ v.commentText)) ∨
      Echoes ('<' ∈ l ++ d.text) v.commentText d.text ∨
      (Echoes False l d.text ∧ ∀ c ∈ d.text ++ v.commentText, c ≠ '<' ∧ c ≠ '>') := by
  by_cases hcloses : Closes (v.lead.text ++ l ++ '@' :: d.text ++ v.commentText)
  · rw [or_iff_right fun h => h.2.2 hcloses]
    rcases hcloses with ⟨t, u, htext, ht, hu, hu'⟩
    by_cases hcomments : '>' ∈ v.commentText
    · rcases exists_last hcomments with ⟨a, b, hab, hb⟩
      have hlast : v.lead.text ++ l ++ '@' :: d.text ++ a ++ '>' :: b = t ++ '>' :: u := by
        rw [← htext, hab, List.append_assoc _ a]
      rcases last_unique hlast hb hu' with ⟨rfl, rfl⟩
      rw [or_iff_left fun h => (h.2 '>' (by simp [hcomments])).2 rfl]
      exact v.bare_iff_comment l d hab hu hb ht
    · rw [or_iff_right fun h => hcomments (mem_of_echoes h)]
      by_cases hdomain : '>' ∈ d.text
      · rcases exists_last hdomain with ⟨a, b, hab, hb⟩
        have hlast : v.lead.text ++ l ++ '@' :: a ++ '>' :: (b ++ v.commentText) =
            t ++ '>' :: u := by
          rw [← htext, hab]
          simp
        rcases last_unique hlast (by simp [hb, hcomments]) hu' with ⟨rfl, rfl⟩
        refine iff_of_false (FromValue.not_reads_domain hab hu hu' ht) ?_
        intro h
        exact (h.2 '>' (by simp [hdomain])).2 rfl
      · have hlead : ∀ {c : Char}, isWhitespace c = false → c ∉ v.lead.text := by
          intro c hc hm
          rw [Blanks.isWhitespace_of_mem hm] at hc
          cases hc
        have hlocal : '>' ∈ l := by
          have hmem : '>' ∈ v.lead.text ++ l ++ '@' :: d.text ++ v.commentText := by
            rw [htext]
            simp
          simpa [hdomain, hcomments, hlead (show isWhitespace '>' = false by decide)] using hmem
        rcases exists_last hlocal with ⟨a, b, rfl, hb⟩
        have hlast : v.lead.text ++ a ++ '>' :: (b ++ ('@' :: d.text ++ v.commentText)) =
            t ++ '>' :: u := by
          rw [← htext]
          simp
        rcases last_unique hlast (by simp [hb, hdomain, hcomments]) hu' with ⟨rfl, rfl⟩
        have ha : '<' ∈ a := by
          simpa [hlead (show isWhitespace '<' = false by decide)] using ht
        rw [List.append_assoc, FromValue.bare_iff_local v.lead d hu hu' ha, and_iff_left]
        intro c hc
        refine ⟨?_, ?_⟩
        · rintro rfl
          exact hu (List.mem_append_right b (List.mem_cons_of_mem '@' hc))
        · rintro rfl
          exact hu' (List.mem_append_right b (List.mem_cons_of_mem '@' hc))
  · rw [or_iff_left (v.not_echoes_of_not_closes l d.text hcloses),
      v.bare_iff_of_not_closes l d hcloses, and_iff_left hcloses]

/-- Whose domain is found: the mailbox's, exactly on the readable values. -/
theorem from_domain_is_mailbox_iff (v : FromValue) :
    fromHeaderDomain v.text = some (toAsciiLowercase v.mailbox.domain.text) ↔ v.Readable := by
  unfold FromValue.Readable
  cases hmailbox : v.mailbox with
  | angle name localPart domain =>
    have htext : v.text = v.before ++ '@' :: domain.text ++ '>' :: v.commentText := by
      simp only [FromValue.text, FromValue.behind, hmailbox, FromMailbox.domain]
    have hbefore : '<' ∈ v.before := by
      simp [FromValue.before, hmailbox]
    rw [htext]
    exact v.angle_iff domain hbefore
  | bare localPart domain =>
    have htext : v.text = v.lead.text ++ localPart.text ++ '@' :: domain.text ++ v.commentText := by
      simp only [FromValue.text, FromValue.before, FromValue.behind, hmailbox, FromMailbox.domain]
    rw [htext]
    exact v.bare_iff localPart.text domain

/-! ## 7. A spoofed author -/

def exampleAtom (text : String) (h : text.toList ≠ [] ∧ text.toList.all isAtext = true) : Atom :=
  ⟨text.toList, h.1, List.all_eq_true.mp h.2⟩

def space : Blanks := ⟨[' '], by simp⟩

def noBlanks : Blanks := ⟨[], by simp⟩

def spoofedValue : FromValue where
  lead := noBlanks
  mailbox := .angle [(.atom (exampleAtom "CEO" (by decide)), space)]
    (.dotAtom ⟨exampleAtom "ceo" (by decide), []⟩)
    (.dotAtom ⟨exampleAtom "x" (by decide), [exampleAtom "org" (by decide)]⟩)
  comments := [(space, "via <a@y.org>".toList)]
  trail := noBlanks

-- the address in the comment is taken for the author's
theorem from_domain_of_comment :
    spoofedValue.text = "CEO <ceo@x.org> (via <a@y.org>)".toList ∧
      spoofedValue.mailbox.domain.text = "x.org".toList ∧
      fromHeaderDomain spoofedValue.text = some "y.org".toList := by
  decide

end Snail.Server
