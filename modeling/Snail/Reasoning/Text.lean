import Mathlib.Data.List.DropRight
import Mathlib.Data.Nat.Digits.Defs
import Snail.Reasoning.Lists

/-!
# Text — the string functions of the Rust standard library

A string is its list of Unicode scalar values.  The functions below follow the documented behaviour
of `str`: trimming removes the characters of the `White_Space` property, the case functions touch
ASCII letters only, and parsing an unsigned number admits a leading `+` but no other sign.
-/

namespace Snail.Reasoning

abbrev Str := List Char

/-! ## 1. White space -/

-- the Unicode property `White_Space` (`char::is_whitespace`)
def isWhitespace (c : Char) : Bool :=
  let n := c.toNat
  (9 ≤ n && n ≤ 13) || n == 0x20 || n == 0x85 || n == 0xA0 || n == 0x1680 ||
    (0x2000 ≤ n && n ≤ 0x200A) || n == 0x2028 || n == 0x2029 || n == 0x202F || n == 0x205F ||
    n == 0x3000

-- the general category `Cc` (`char::is_control`)
def isControl (c : Char) : Bool :=
  c.toNat < 0x20 || (0x7F ≤ c.toNat && c.toNat ≤ 0x9F)

def trimStart (s : Str) : Str := s.dropWhile isWhitespace

def trimEnd (s : Str) : Str := s.rdropWhile isWhitespace

def trim (s : Str) : Str := trimEnd (trimStart s)

def trimEndMatches (c : Char) (s : Str) : Str := s.rdropWhile (· == c)

def trimStartMatches (c : Char) (s : Str) : Str := s.dropWhile (· == c)

/-- `str::split_whitespace`: the maximal runs of characters that are not white space. -/
def splitWhitespace (s : Str) : List Str :=
  (s.splitOnP isWhitespace).filter (· ≠ [])

theorem splitWhitespace_append_cons (s t : Str) {c : Char} (h : isWhitespace c = true) :
    splitWhitespace (s ++ c :: t) = splitWhitespace s ++ splitWhitespace t := by
  unfold splitWhitespace
  rw [List.splitOnP_append_cons s t h, List.filter_append]

theorem splitWhitespace_word {s : Str} (hne : s ≠ []) (h : ∀ c ∈ s, isWhitespace c = false) :
    splitWhitespace s = [s] := by
  have hsplit : s.splitOnP isWhitespace = [s] := List.splitOnP_eq_singleton h
  unfold splitWhitespace
  rw [hsplit]
  simp [hne]

-- words with blanks between them are read back
theorem splitWhitespace_intercalate {words : List Str}
    (h : ∀ w ∈ words, w ≠ [] ∧ ∀ c ∈ w, isWhitespace c = false) :
    splitWhitespace ([' '].intercalate words) = words := by
  induction words with
  | nil => rfl
  | cons w words ih =>
    have hw := h w List.mem_cons_self
    have hwords := ih fun v hv => h v (List.mem_cons_of_mem _ hv)
    cases words with
    | nil =>
      rw [List.intercalate_singleton]
      exact splitWhitespace_word hw.1 hw.2
    | cons v words =>
      rw [List.intercalate_cons_cons, List.append_assoc, List.singleton_append,
        splitWhitespace_append_cons _ _ (by decide), hwords, splitWhitespace_word hw.1 hw.2]
      rfl

theorem head_trimStart {s r : Str} {c : Char} (h : trimStart s = c :: r) :
    isWhitespace c = false := by
  have hne : s.dropWhile isWhitespace ≠ [] := by
    intro hn
    rw [trimStart, hn] at h
    cases h
  have hhead := List.head_dropWhile_not isWhitespace hne
  simp only [trimStart] at h
  simp only [h, List.head_cons] at hhead
  exact hhead

theorem trimStart_eq_self {s : Str} (h : ∀ c ∈ s.head?, isWhitespace c = false) :
    trimStart s = s := by
  cases s with
  | nil => rfl
  | cons c s => simp [trimStart, h c (by simp)]

theorem trimEnd_blank {s : Str} (h : ∀ c ∈ s, isWhitespace c = true) : trimEnd s = [] :=
  List.rdropWhile_eq_nil_iff.mpr h

-- trimming leaves a text alone when it neither starts nor ends with white space
theorem trim_eq_self {s : Str} (hfirst : ∀ c ∈ s.head?, isWhitespace c = false)
    (hlast : ∀ c ∈ s.getLast?, isWhitespace c = false) : trim s = s := by
  have hstart : trimStart s = s := trimStart_eq_self hfirst
  rw [trim, hstart, trimEnd, List.rdropWhile_eq_self_iff]
  intro hl
  have := hlast (s.getLast hl) (List.getLast?_eq_some_getLast hl)
  simp [this]

theorem trim_cons_concat {c d : Char} (s : Str) (hc : isWhitespace c = false)
    (hd : isWhitespace d = false) : trim (c :: s ++ [d]) = c :: s ++ [d] := by
  refine trim_eq_self ?_ ?_
  · intro e he
    rw [← Option.some.inj he]
    exact hc
  · intro e he
    rw [List.getLast?_concat] at he
    rw [← Option.some.inj he]
    exact hd

theorem trimEnd_isPrefix (s : Str) : trimEnd s <+: s := List.rdropWhile_prefix _ _

theorem getLast_trimEnd {s : Str} {c : Char} (h : c ∈ (trimEnd s).getLast?) :
    isWhitespace c = false := by
  have hne : trimEnd s ≠ [] := by
    rintro hn
    simp [hn] at h
  have hnot := List.rdropWhile_last_not isWhitespace s hne
  rw [List.getLast?_eq_some_getLast hne] at h
  cases h
  exact Bool.eq_false_iff.mpr hnot

theorem head_trim {s : Str} {c : Char} (h : c ∈ (trim s).head?) : isWhitespace c = false := by
  obtain ⟨r, hr⟩ : ∃ r, trim s = c :: r := by
    cases ht : trim s with
    | nil => simp [ht] at h
    | cons d r =>
      simp only [ht, List.head?_cons, Option.mem_def, Option.some.injEq] at h
      exact ⟨r, by rw [h]⟩
  obtain ⟨t, ht⟩ := trimEnd_isPrefix (trimStart s)
  rw [← trim, hr] at ht
  exact head_trimStart ht.symm

theorem getLast_trim {s : Str} {c : Char} (h : c ∈ (trim s).getLast?) : isWhitespace c = false :=
  getLast_trimEnd h

-- trimming stops at a character that stays
theorem dropWhile_append_cons {q : Char → Bool} (s t : Str) {c : Char} (h : q c = false) :
    (s ++ c :: t).dropWhile q = s.dropWhile q ++ c :: t := by
  induction s with
  | nil => simp [h]
  | cons d s ih =>
    cases hd : q d with
    | true => simpa [hd] using ih
    | false => simp [hd]

theorem rdropWhile_append_cons {q : Char → Bool} (s t : Str) {c : Char} (h : q c = false) :
    (s ++ c :: t).rdropWhile q = s ++ c :: t.rdropWhile q := by
  unfold List.rdropWhile
  rw [List.reverse_append, List.reverse_cons, List.append_assoc, List.singleton_append,
    dropWhile_append_cons _ _ h]
  simp

theorem trim_append_cons (s t : Str) {c : Char} (h : isWhitespace c = false) :
    trim (s ++ c :: t) = trimStart s ++ c :: trimEnd t := by
  unfold trim trimStart trimEnd
  rw [dropWhile_append_cons s t h, rdropWhile_append_cons _ t h]

/-! ## 2. ASCII case -/

def toAsciiLowercase (s : Str) : Str := s.map Char.toLower

def toAsciiUppercase (s : Str) : Str := s.map Char.toUpper

def eqIgnoreAsciiCase (s t : Str) : Bool := toAsciiLowercase s == toAsciiLowercase t

theorem isUpper_iff {c : Char} : c.isUpper = true ↔ 65 ≤ c.toNat ∧ c.toNat ≤ 90 := by
  refine decide_eq_true_iff.trans ?_
  rw [ge_iff_le, UInt32.le_iff_toNat_le, UInt32.le_iff_toNat_le]
  rfl

theorem isLower_iff {c : Char} : c.isLower = true ↔ 97 ≤ c.toNat ∧ c.toNat ≤ 122 := by
  refine Bool.and_eq_true_iff.trans ?_
  rw [decide_eq_true_iff, decide_eq_true_iff, ge_iff_le, UInt32.le_iff_toNat_le,
    UInt32.le_iff_toNat_le]
  rfl

theorem isAlpha_iff {c : Char} : c.isAlpha = true ↔
    (65 ≤ c.toNat ∧ c.toNat ≤ 90) ∨ 97 ≤ c.toNat ∧ c.toNat ≤ 122 := by
  rw [← isUpper_iff, ← isLower_iff]
  exact Bool.or_eq_true_iff

theorem toLower_of_not_isUpper {c : Char} (h : ¬ c.isUpper = true) : c.toLower = c :=
  dif_neg fun hc => h (decide_eq_true hc)

theorem toNat_toLower {c : Char} (h : c.isUpper = true) : c.toLower.toNat = c.toNat + 32 := by
  have hrange := isUpper_iff.mp h
  have hlower : c.toLower.val = c.val + ('a'.val - 'A'.val) :=
    congrArg Char.val (dif_pos (of_decide_eq_true h))
  change c.toLower.val.toNat = _
  rw [hlower, UInt32.toNat_add]
  change (c.toNat + 32) % 4294967296 = _
  omega

theorem toUpper_of_not_isLower {c : Char} (h : ¬ c.isLower = true) : c.toUpper = c :=
  dif_neg fun hc => h (Bool.and_eq_true_iff.mpr ⟨decide_eq_true hc.1, decide_eq_true hc.2⟩)

theorem toNat_toUpper {c : Char} (h : c.isLower = true) : c.toUpper.toNat + 32 = c.toNat := by
  have hrange := isLower_iff.mp h
  have hc := Bool.and_eq_true_iff.mp h
  have hletter : 'a'.val ≤ c.val ∧ c.val ≤ 'z'.val :=
    ⟨of_decide_eq_true hc.1, of_decide_eq_true hc.2⟩
  have hupper : c.toUpper.val = c.val + ('A'.val - 'a'.val) := by
    delta Char.toUpper
    rw [dif_pos hletter]
  have hdiff : ('A'.val - 'a'.val).toNat = 4294967264 := by decide
  have hval : c.val.toNat = c.toNat := rfl
  change c.toUpper.val.toNat + 32 = _
  rw [hupper, UInt32.toNat_add, hdiff, hval]
  omega

-- only capital letters are changed, and to lower-case letters
theorem eq_of_toLower_eq {a c : Char} (ha : a.isLower = false) (h : c.toLower = a) : c = a := by
  by_cases hc : c.isUpper = true
  · exfalso
    have hrange := isUpper_iff.mp hc
    have hnat := toNat_toLower hc
    rw [h] at hnat
    rw [isLower_iff.mpr (by omega)] at ha
    cases ha
  · rw [← h, toLower_of_not_isUpper hc]

theorem eq_of_toUpper_eq {a c : Char} (ha : a.isUpper = false) (h : c.toUpper = a) : c = a := by
  by_cases hc : c.isLower = true
  · exfalso
    have hrange := isLower_iff.mp hc
    have hnat := toNat_toUpper hc
    rw [h] at hnat
    rw [isUpper_iff.mpr (by omega)] at ha
    cases ha
  · rw [← h, toUpper_of_not_isLower hc]

theorem toUpper_toLower (c : Char) : c.toLower.toUpper = c.toUpper := by
  by_cases hc : c.isUpper = true
  · -- a capital letter goes down and up again
    have hrange := isUpper_iff.mp hc
    have hnat := toNat_toLower hc
    have hlower : c.toLower.isLower = true := isLower_iff.mpr (by omega)
    have hself : ¬ c.isLower = true := by
      rw [isLower_iff]
      omega
    have hback := toNat_toUpper hlower
    rw [toUpper_of_not_isLower hself, ← Char.toNat_inj]
    omega
  · rw [toLower_of_not_isUpper hc]

theorem toAsciiLowercase_idem (s : Str) :
    toAsciiLowercase (toAsciiLowercase s) = toAsciiLowercase s := by
  have hlower : ∀ c : Char, c.toLower.toLower = c.toLower := by
    intro c
    by_cases hc : c.isUpper = true
    · have hrange := isUpper_iff.mp hc
      apply toLower_of_not_isUpper
      rw [isUpper_iff, toNat_toLower hc]
      omega
    · rw [toLower_of_not_isUpper hc, toLower_of_not_isUpper hc]
  unfold toAsciiLowercase
  rw [List.map_map]
  exact List.map_congr_left fun c _ => hlower c

-- texts that agree up to the case of their letters
theorem toAsciiUppercase_eq_of_ignoreCase {s t : Str} (h : eqIgnoreAsciiCase s t = true) :
    toAsciiUppercase s = toAsciiUppercase t := by
  have hupper : ∀ u : Str, toAsciiUppercase u = toAsciiUppercase (toAsciiLowercase u) := by
    intro u
    rw [toAsciiUppercase, toAsciiUppercase, toAsciiLowercase, List.map_map]
    apply List.map_congr_left
    intro c _
    exact (toUpper_toLower c).symm
  rw [hupper s, hupper t, beq_iff_eq.mp h]

theorem length_eq_of_ignoreCase {s t : Str} (h : eqIgnoreAsciiCase s t = true) :
    s.length = t.length := by
  have hlen := congrArg List.length (beq_iff_eq.mp h)
  rwa [toAsciiLowercase, toAsciiLowercase, List.length_map, List.length_map] at hlen

theorem mem_of_ignoreCase {s t : Str} (h : eqIgnoreAsciiCase s t = true) {c : Char}
    (hc : c.isLower = false) (hself : c.toLower = c) (hs : c ∈ s) : c ∈ t := by
  have hmem : c ∈ toAsciiLowercase t := by
    rw [← beq_iff_eq.mp h]
    exact List.mem_map.mpr ⟨c, hs, hself⟩
  obtain ⟨d, hd, hlower⟩ := List.mem_map.mp hmem
  rwa [← eq_of_toLower_eq hc hlower]

theorem toLower_of_isWhitespace {c : Char} (h : isWhitespace c = true) : c.toLower = c := by
  apply toLower_of_not_isUpper
  rw [isUpper_iff]
  simp [isWhitespace] at h
  omega

theorem not_isWhitespace_of_ignoreCase {s t : Str} (h : eqIgnoreAsciiCase s t = true)
    (ht : ∀ c ∈ toAsciiLowercase t, isWhitespace c = false) {c : Char} (hc : c ∈ s) :
    isWhitespace c = false := by
  have hlower : isWhitespace c.toLower = false := by
    apply ht
    rw [← beq_iff_eq.mp h]
    exact List.mem_map.mpr ⟨c, hc, rfl⟩
  by_contra hws
  rw [Bool.not_eq_false] at hws
  rw [toLower_of_isWhitespace hws, hws] at hlower
  cases hlower

theorem isWhitespace_toLower (c : Char) : isWhitespace c.toLower = isWhitespace c := by
  cases h : isWhitespace c with
  | true => rw [toLower_of_isWhitespace h, h]
  | false =>
    by_contra hws
    rw [Bool.not_eq_false] at hws
    have hlower : c.toLower.isLower = false := by
      rw [← Bool.not_eq_true, isLower_iff]
      simp [isWhitespace] at hws
      omega
    rw [← eq_of_toLower_eq hlower rfl, h] at hws
    cases hws

-- trimming looks at characters without case only
theorem toAsciiLowercase_dropWhile {q : Char → Bool} (hq : ∀ c : Char, q c.toLower = q c)
    (s : Str) : toAsciiLowercase (s.dropWhile q) = (toAsciiLowercase s).dropWhile q := by
  unfold toAsciiLowercase
  rw [List.dropWhile_map]
  congr 2
  funext c
  exact (hq c).symm

theorem toAsciiLowercase_rdropWhile {q : Char → Bool} (hq : ∀ c : Char, q c.toLower = q c)
    (s : Str) : toAsciiLowercase (s.rdropWhile q) = (toAsciiLowercase s).rdropWhile q := by
  unfold List.rdropWhile
  have hreverse : ∀ t : Str, toAsciiLowercase t.reverse = (toAsciiLowercase t).reverse :=
    fun t => List.map_reverse
  rw [hreverse, toAsciiLowercase_dropWhile hq, hreverse]

theorem toAsciiLowercase_trim (s : Str) :
    toAsciiLowercase (trim s) = trim (toAsciiLowercase s) := by
  unfold trim trimEnd trimStart
  rw [toAsciiLowercase_rdropWhile isWhitespace_toLower,
    toAsciiLowercase_dropWhile isWhitespace_toLower]

theorem toAsciiLowercase_trimEndMatches {d : Char} (hd : d.isLower = false) (hself : d.toLower = d)
    (s : Str) : toAsciiLowercase (trimEndMatches d s) = trimEndMatches d (toAsciiLowercase s) := by
  apply toAsciiLowercase_rdropWhile
  intro c
  rw [Bool.eq_iff_iff, beq_iff_eq, beq_iff_eq]
  apply Iff.intro
  · exact eq_of_toLower_eq hd
  · rintro rfl
    exact hself

-- a character without case that is not in the lower-case text is not in the text
theorem not_mem_of_toAsciiLowercase_eq {s t : Str} (h : toAsciiLowercase s = t) {c : Char}
    (hself : c.toLower = c) (hc : c ∉ t) : c ∉ s := by
  intro hmem
  apply hc
  rw [← h]
  exact List.mem_map.mpr ⟨c, hmem, hself⟩

/-! ## 3. Lines -/

-- one line of `str::lines`: the terminator `\n` or `\r\n` is dropped
def dropLineEnding (line : Str) : Str :=
  match ['\n'].isSuffixOf? line with
  | none => line
  | some body => (['\r'].isSuffixOf? body).getD body

def lines (s : Str) : List Str := (splitInclusive '\n' s).map dropLineEnding

theorem dropLineEnding_newline {s : Str} (h : s.getLast? ≠ some '\r') :
    dropLineEnding (s ++ ['\n']) = s := by
  have hnl : ['\n'].isSuffixOf? (s ++ ['\n']) = some s :=
    List.isSuffixOf?_eq_some_iff_append_eq.mpr rfl
  have hcr : ['\r'].isSuffixOf? s = none := by
    cases hs : ['\r'].isSuffixOf? s with
    | none => rfl
    | some t =>
      rw [List.isSuffixOf?_eq_some_iff_append_eq] at hs
      exact absurd (by rw [← hs]; simp) h
  simp only [dropLineEnding, hnl, hcr, Option.getD_none]

-- the lines of a text that starts with a finished line
theorem lines_append_newline {s : Str} (hs : '\n' ∉ s) (hcr : s.getLast? ≠ some '\r') (t : Str) :
    lines (s ++ '\n' :: t) = s :: lines t := by
  rw [lines, splitInclusive_append_cons hs, List.map_cons, dropLineEnding_newline hcr]
  rfl

theorem lines_append_crlf {s : Str} (hs : '\n' ∉ s) (t : Str) :
    lines (s ++ '\r' :: '\n' :: t) = s :: lines t := by
  have hline : '\n' ∉ s ++ ['\r'] := by simp [hs]
  have htext : s ++ '\r' :: '\n' :: t = (s ++ ['\r']) ++ '\n' :: t := by simp
  have hnl : ['\n'].isSuffixOf? (s ++ ['\r'] ++ ['\n']) = some (s ++ ['\r']) :=
    List.isSuffixOf?_eq_some_iff_append_eq.mpr rfl
  have hcr : ['\r'].isSuffixOf? (s ++ ['\r']) = some s :=
    List.isSuffixOf?_eq_some_iff_append_eq.mpr rfl
  have hending : dropLineEnding (s ++ ['\r'] ++ ['\n']) = s := by
    simp only [dropLineEnding, hnl, hcr, Option.getD_some]
  rw [htext, lines, splitInclusive_append_cons hline, List.map_cons, hending]
  rfl

-- a line that is not finished
theorem lines_eq_singleton {s : Str} (hs : '\n' ∉ s) (hne : s ≠ []) : lines s = [s] := by
  have hending : dropLineEnding s = s := by
    unfold dropLineEnding
    cases hsuf : ['\n'].isSuffixOf? s with
    | none => rfl
    | some body =>
      rw [List.isSuffixOf?_eq_some_iff_append_eq] at hsuf
      exact absurd (by rw [← hsuf]; simp) hs
  rw [lines, splitInclusive_of_not_mem hs hne, List.map_singleton, hending]

theorem newline_not_mem_of_mem_lines {s line : Str} (h : line ∈ lines s) : '\n' ∉ line := by
  rcases List.mem_map.mp h with ⟨piece, hpiece, rfl⟩
  have hinit := (not_mem_dropLast_of_mem_splitInclusive hpiece).1
  unfold dropLineEnding
  cases hs : ['\n'].isSuffixOf? piece with
  | none =>
    -- an unfinished last line
    intro hm
    have hne : piece ≠ [] := List.ne_nil_of_mem hm
    rw [← List.dropLast_append_getLast hne] at hm
    rcases List.mem_append.mp hm with hm | hm
    · exact hinit hm
    · have hsuf : ['\n'].isSuffixOf? piece = some piece.dropLast := by
        rw [List.isSuffixOf?_eq_some_iff_append_eq, List.mem_singleton.mp hm]
        exact List.dropLast_append_getLast hne
      rw [hs] at hsuf
      cases hsuf
  | some body =>
    rw [List.isSuffixOf?_eq_some_iff_append_eq] at hs
    have hbody : '\n' ∉ body := by
      rw [← hs] at hinit
      simpa using hinit
    show '\n' ∉ (['\r'].isSuffixOf? body).getD body
    cases hr : ['\r'].isSuffixOf? body with
    | none => exact hbody
    | some rest =>
      rw [List.isSuffixOf?_eq_some_iff_append_eq] at hr
      rw [← hr] at hbody
      exact fun hm => hbody (List.mem_append_left _ hm)

theorem trim_concat (s : Str) {c : Char} (h : isWhitespace c) : trim (s ++ [c]) = trim s := by
  have hend : ∀ t : Str, trimEnd (t ++ [c]) = trimEnd t := by
    intro t
    exact List.rdropWhile_concat_pos _ _ _ h
  unfold trim trimStart
  rw [List.dropWhile_append]
  by_cases hs : (s.dropWhile isWhitespace).isEmpty
  · rw [if_pos hs, List.isEmpty_iff.mp hs]
    simp [h]
  · rw [if_neg hs, hend]

theorem trim_append_blank (s : Str) {t : Str} (h : ∀ c ∈ t, isWhitespace c = true) :
    trim (s ++ t) = trim s := by
  induction t using List.reverseRecOn with
  | nil => rw [List.append_nil]
  | append_singleton t c ih =>
    rw [← List.append_assoc, trim_concat _ (h c (by simp)), ih fun d hd => h d (by simp [hd])]

theorem mem_of_mem_trim {s : Str} {c : Char} (h : c ∈ trim s) : c ∈ s :=
  (List.dropWhile_suffix isWhitespace).subset ((trimEnd_isPrefix (trimStart s)).subset h)

theorem mem_trim_iff {s : Str} {c : Char} (hc : isWhitespace c = false) : c ∈ trim s ↔ c ∈ s := by
  apply Iff.intro mem_of_mem_trim
  intro h
  obtain ⟨u, v, rfl⟩ := List.append_of_mem h
  rw [trim_append_cons u v hc]
  simp

theorem mem_trimEndMatches_iff {s : Str} {c d : Char} (hc : c ≠ d) :
    c ∈ trimEndMatches d s ↔ c ∈ s := by
  apply Iff.intro
  · intro h
    exact (List.rdropWhile_prefix _ s).subset h
  · intro h
    obtain ⟨u, v, rfl⟩ := List.append_of_mem h
    unfold trimEndMatches
    rw [rdropWhile_append_cons (q := (· == d)) u v (beq_eq_false_iff_ne.mpr hc)]
    simp

theorem length_trim_le (s : Str) : (trim s).length ≤ s.length := by
  have hend := (trimEnd_isPrefix (trimStart s)).length_le
  have hstart := (List.dropWhile_suffix isWhitespace (l := s)).length_le
  exact hend.trans hstart

-- `trim_end_matches(['\r', '\n'])`
def trimEndCrLf (line : Str) : Str :=
  (line.reverse.dropWhile fun c => c == '\r' || c == '\n').reverse

/-! ## 4. Unsigned decimal numbers -/

/-- `format!("{n}")`. -/
def showNat (n : Nat) : Str := Nat.toDigits 10 n

/-- `format!("{n:0w}")`: padded with zeros on the left to at least `w` characters. -/
def showNatPadded (w n : Nat) : Str :=
  List.replicate (w - (showNat n).length) '0' ++ showNat n

/-- `str::parse` into an unsigned integer type whose greatest value is `max`. -/
def parseUnsigned (max : Nat) (s : Str) : Option Nat :=
  let digits := (['+'].isPrefixOf? s).getD s
  if digits ≠ [] ∧ digits.all Char.isDigit ∧ Nat.ofDigitChars 10 digits 0 ≤ max then
    some (Nat.ofDigitChars 10 digits 0)
  else none

theorem isDigit_of_mem_showNat {n : Nat} {c : Char} (h : c ∈ showNat n) : c.isDigit :=
  Nat.isDigit_of_mem_toDigits (by decide) (by decide) h

-- reading back what was printed
theorem parseUnsigned_showNat {max n : Nat} (h : n ≤ max) :
    parseUnsigned max (showNat n) = some n := by
  have hplus : ['+'].isPrefixOf? (showNat n) = none := by
    cases hs : ['+'].isPrefixOf? (showNat n) with
    | none => rfl
    | some t =>
      rw [List.isPrefixOf?_eq_some_iff_append_eq] at hs
      have hmem : '+' ∈ showNat n := by rw [← hs]; simp
      exact absurd (isDigit_of_mem_showNat hmem) (by decide)
  have hval : Nat.ofDigitChars 10 (showNat n) 0 = n := Nat.ofDigitChars_ten_toDigits
  have hall : (showNat n).all Char.isDigit :=
    List.all_eq_true.mpr fun c hc => isDigit_of_mem_showNat hc
  simp only [parseUnsigned, hplus, Option.getD_none, hval]
  rw [if_pos ⟨Nat.toDigits_ne_nil, hall, h⟩]

theorem isDigit_of_mem_showNatPadded {w n : Nat} {c : Char} (h : c ∈ showNatPadded w n) :
    c.isDigit := by
  rcases List.mem_append.mp h with h | h
  · rw [List.eq_of_mem_replicate h]
    decide
  · exact isDigit_of_mem_showNat h

theorem ofDigitChars_showNatPadded (w n : Nat) : Nat.ofDigitChars 10 (showNatPadded w n) 0 = n := by
  have hzeros : ∀ k, Nat.ofDigitChars 10 (List.replicate k '0') 0 = 0 := by
    intro k
    induction k with
    | zero => rfl
    | succ k ih =>
      rw [List.replicate_succ, Nat.ofDigitChars_cons]
      exact ih
  rw [showNatPadded, Nat.ofDigitChars_append, hzeros]
  exact Nat.ofDigitChars_ten_toDigits

theorem showNatPadded_injective (w : Nat) : Function.Injective (showNatPadded w) := by
  intro m n h
  rw [← ofDigitChars_showNatPadded w m, h, ofDigitChars_showNatPadded]

/-! ## 5. Results -/

theorem toOption_eq_some_iff {ε α : Type} {x : Except ε α} {a : α} :
    x.toOption = some a ↔ x = .ok a := by
  cases x with
  | error e => simp [Except.toOption]
  | ok b => simp [Except.toOption]

theorem exists_of_bind_eq_ok {ε α β : Type} {x : Except ε α} {f : α → Except ε β} {b : β}
    (h : x >>= f = .ok b) : ∃ a, x = .ok a ∧ f a = .ok b := by
  cases x with
  | error e => cases h
  | ok a => exact ⟨a, rfl, h⟩

theorem map_eq_ok_iff {ε α β : Type} {f : α → β} {x : Except ε α} {b : β} :
    x.map f = .ok b ↔ ∃ a, x = .ok a ∧ f a = b := by
  cases x with
  | error e => simp [Except.map]
  | ok a => simp [Except.map]

theorem mapError_eq_ok_iff {ε ε' α : Type} {f : ε → ε'} {x : Except ε α} {a : α} :
    x.mapError f = .ok a ↔ x = .ok a := by
  cases x with
  | error e => simp [Except.mapError]
  | ok b => simp [Except.mapError]

theorem mapM_eq_ok_iff {α β ε : Type} {f : α → Except ε β} {l : List α} {m : List β} :
    l.mapM f = .ok m ↔ List.Forall₂ (fun a b => f a = .ok b) l m := by
  induction l generalizing m with
  | nil =>
    rw [List.mapM_nil, List.forall₂_nil_left_iff]
    exact ⟨fun h => (Except.ok.inj h).symm, fun h => by rw [h]; rfl⟩
  | cons a l ih =>
    rw [List.mapM_cons, List.forall₂_cons_left_iff]
    apply Iff.intro
    · intro h
      obtain ⟨b, hb, h⟩ := exists_of_bind_eq_ok h
      obtain ⟨bs, hbs, h⟩ := exists_of_bind_eq_ok h
      cases h
      exact ⟨b, bs, hb, ih.mp hbs, rfl⟩
    · rintro ⟨b, bs, hb, hbs, rfl⟩
      rw [hb, ih.mpr hbs]
      rfl

theorem exists_mem_of_forall₂ {α β : Type} {r : α → β → Prop} {as : List α} {bs : List β}
    (h : List.Forall₂ r as bs) : ∀ b ∈ bs, ∃ a ∈ as, r a b := by
  induction h with
  | nil => simp
  | @cons a b as bs hab _ ih =>
    intro x hx
    rcases List.mem_cons.mp hx with rfl | hx
    · exact ⟨a, List.mem_cons_self, hab⟩
    · obtain ⟨a', ha', hax⟩ := ih x hx
      exact ⟨a', List.mem_cons_of_mem _ ha', hax⟩

end Snail.Reasoning
