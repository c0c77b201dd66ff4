import Snail.Network.Spf.RoundTrip

/-!
# Expansion — what macro strings expand to

`expand` of two strings one behind the other, the transformers of RFC 7208 §7.1, and the names of
the reverse DNS tree.
-/

open Snail.Reasoning

namespace Snail.Network.Spf

/-! ## 1. Composition -/

section
variable {ctx : MacroContext}

-- the text that is out already is never looked at again
theorem expandFrom_out (st : ExpandState) (out cs : Str) :
    expandFrom ctx st out cs = (expandFrom ctx st [] cs).map (out ++ ·) := by
  suffices h : ∀ more, expandFrom ctx st (out ++ more) cs =
      (expandFrom ctx st more cs).map (out ++ ·) by
    have hnil := h []
    rw [List.append_nil] at hnil
    exact hnil
  induction cs generalizing st with
  | nil =>
    intro more
    cases st <;> rfl
  | cons c cs ih =>
    intro more
    cases st with
    | text =>
      simp only [expandFrom]
      split
      · exact ih _ _
      · rw [List.append_assoc]
        exact ih _ _
    | escape =>
      simp only [expandFrom, List.append_assoc]
      split
      · exact ih _ _
      · split
        · exact ih _ _
        · split
          · exact ih _ _
          · split
            · exact ih _ _
            · rfl
    | body acc =>
      simp only [expandFrom]
      split
      · cases expandOne acc ctx with
        | error e => rfl
        | ok value =>
          dsimp only
          rw [List.append_assoc]
          exact ih _ _
      · exact ih _ _

-- a string that expands leaves the loop in plain text
theorem expandFrom_append {st : ExpandState} {out s x : Str}
    (h : expandFrom ctx st out s = .ok x) (t : Str) :
    expandFrom ctx st out (s ++ t) = expandFrom ctx .text x t := by
  induction s generalizing st out with
  | nil =>
    cases st with
    | text =>
      cases h
      rfl
    | escape => cases h
    | body acc => cases h
  | cons c s ih =>
    cases st with
    | text =>
      simp only [List.cons_append, expandFrom] at h ⊢
      split at h
      · rename_i hc
        rw [if_pos hc]
        exact ih h
      · rename_i hc
        rw [if_neg hc]
        exact ih h
    | escape =>
      simp only [List.cons_append, expandFrom] at h ⊢
      by_cases hpercent : c = '%'
      · rw [if_pos hpercent] at h ⊢
        exact ih h
      · rw [if_neg hpercent] at h ⊢
        by_cases hblank : c = '_'
        · rw [if_pos hblank] at h ⊢
          exact ih h
        · rw [if_neg hblank] at h ⊢
          by_cases hencoded : c = '-'
          · rw [if_pos hencoded] at h ⊢
            exact ih h
          · rw [if_neg hencoded] at h ⊢
            by_cases hbrace : c = '{'
            · rw [if_pos hbrace] at h ⊢
              exact ih h
            · rw [if_neg hbrace] at h
              cases h
    | body acc =>
      simp only [List.cons_append, expandFrom] at h ⊢
      split at h
      · rename_i hc
        rw [if_pos hc]
        cases hone : expandOne acc ctx with
        | error e =>
          rw [hone] at h
          cases h
        | ok value =>
          rw [hone] at h
          exact ih h
      · rename_i hc
        rw [if_neg hc]
        exact ih h

theorem expand_append {s x : Str} (h : expand s ctx = .ok x) (t : Str) :
    expand (s ++ t) ctx = (expand t ctx).map (x ++ ·) := by
  unfold expand
  rw [expandFrom_append h, expandFrom_out]

end

/-! ## 2. One macro -/

theorem expandFrom_body {ctx : MacroContext} (acc : Str) {body : Str} (hbody : '}' ∉ body)
    (out : Str) :
    expandFrom ctx (.body acc) out (body ++ ['}']) =
      (expandOne (acc ++ body) ctx).map (out ++ ·) := by
  induction body generalizing acc with
  | nil =>
    rw [List.nil_append, List.append_nil, expandFrom, if_pos rfl]
    cases expandOne acc ctx <;> rfl
  | cons c body ih =>
    rw [List.mem_cons, not_or] at hbody
    rw [List.cons_append, expandFrom, if_neg (Ne.symm hbody.1), ih _ hbody.2]
    simp

theorem expand_braced {ctx : MacroContext} {body : Str} (hbody : '}' ∉ body) :
    expand ('%' :: '{' :: (body ++ ['}'])) ctx = expandOne body ctx := by
  have h := @expandFrom_body ctx [] body hbody []
  rw [List.nil_append] at h
  calc expand ('%' :: '{' :: (body ++ ['}'])) ctx
      = expandFrom ctx (.body []) [] (body ++ ['}']) := rfl
    _ = expandOne body ctx := by
      rw [h]
      cases expandOne body ctx <;> rfl

-- the letters that have a value in a domain-spec
def domainLetters : List Char := "slodiphvSLODIPHV".toList

-- the decimal number that a digit string denotes
def digitsValue (digits : Str) : Nat := Nat.ofDigitChars 10 digits 0

/-- RFC 7208 §7.1: the parts of a value between the delimiters, reversed if asked for, and of these
the right-most ones.  A digit string must not denote zero. -/
def transformed (value digits reverse delims : Str) : Option Str :=
  let parts := value.splitOnP ((if delims = [] then ['.'] else delims).contains ·)
  let ordered := if reverse = [] then parts else parts.reverse
  if digits = [] then some (List.intercalate ['.'] ordered)
  else if digitsValue digits = 0 then none
  else some (List.intercalate ['.']
    (ordered.drop (parts.length - min (digitsValue digits) parts.length)))

def macroText (letter : Char) (digits reverse delims : Str) : Str :=
  '%' :: '{' :: (letter :: (digits ++ (reverse ++ delims)) ++ ['}'])

theorem takeWhile_digits {digits tail : Str} (hdigits : digits.all Char.isDigit = true)
    (htail : ∀ c ∈ tail.head?, c.isDigit = false) :
    (digits ++ tail).takeWhile Char.isDigit = digits ∧
      (digits ++ tail).dropWhile Char.isDigit = tail := by
  have hall := List.all_eq_true.mp hdigits
  rw [List.takeWhile_append_of_pos hall, List.dropWhile_append_of_pos hall]
  cases tail with
  | nil => simp
  | cons c tail => simp [htail c rfl]

section
variable {letter : Char} {digits reverse delims : Str} (ctx : MacroContext)
  (hletter : letter ∈ domainLetters) (hdigits : digits.all Char.isDigit = true)
  (hreverse : reverse ∈ [[], ['r'], ['R']]) (hdelims : delims.all (delimiters.contains ·) = true)

include hletter in
theorem exists_macroValue : ∃ value, macroValue letter.toLower ctx = some value := by
  have hall : domainLetters.all (fun c => "slodiphv".toList.contains c.toLower) = true := by decide
  have hmem := List.contains_iff_mem.mp (List.all_eq_true.mp hall letter hletter)
  generalize letter.toLower = c at hmem
  have hsome : ∀ c ∈ "slodiphv".toList, (macroValue c ctx).isSome = true := by
    rw [show "slodiphv".toList = ['s', 'l', 'o', 'd', 'i', 'p', 'h', 'v'] by rfl]
    simp [macroValue]
  exact Option.isSome_iff_exists.mp (hsome c hmem)

include hreverse hdelims in
theorem brace_and_digit_free : ∀ c ∈ reverse ++ delims, c ≠ '}' ∧ c.isDigit = false := by
  intro c hc
  rcases List.mem_append.mp hc with hc | hc
  · have hr : c = 'r' ∨ c = 'R' := by
      simp only [List.mem_cons, List.not_mem_nil, or_false] at hreverse
      rcases hreverse with rfl | rfl | rfl <;> simp_all
    rcases hr with rfl | rfl <;> decide
  · have hall : delimiters.all (fun c => c ≠ '}' && !c.isDigit) = true := by decide
    have hmem := List.contains_iff_mem.mp (List.all_eq_true.mp hdelims c hc)
    simpa using List.all_eq_true.mp hall c hmem

include hletter hdigits hreverse hdelims in
theorem brace_free : '}' ∉ letter :: (digits ++ (reverse ++ delims)) := by
  intro hmem
  rcases List.mem_cons.mp hmem with rfl | hmem
  · exact absurd hletter (by decide)
  · rcases List.mem_append.mp hmem with hmem | hmem
    · exact absurd (List.all_eq_true.mp hdigits '}' hmem) (by decide)
    · exact (brace_and_digit_free hreverse hdelims '}' hmem).1 rfl

include hreverse hdelims in
theorem reverse_flag :
    ((reverse ++ delims).head? == some 'r' || (reverse ++ delims).head? == some 'R') =
        decide (reverse ≠ []) ∧
      (if decide (reverse ≠ []) = true then (reverse ++ delims).tail else reverse ++ delims) =
        delims := by
  simp only [List.mem_cons, List.not_mem_nil, or_false] at hreverse
  rcases hreverse with rfl | rfl | rfl
  · refine ⟨?_, by simp⟩
    cases delims with
    | nil => rfl
    | cons c delims =>
      have hall : delimiters.all (fun c => c ≠ 'r' && c ≠ 'R') = true := by decide
      have hmem := List.contains_iff_mem.mp (List.all_eq_true.mp hdelims c List.mem_cons_self)
      have hc := List.all_eq_true.mp hall c hmem
      simp only [Bool.and_eq_true, decide_eq_true_eq] at hc
      simp [hc.1, hc.2]
  · exact ⟨rfl, rfl⟩
  · exact ⟨rfl, rfl⟩

-- how many parts a digit string asks for
def keepCount (digits : Str) : Except NetworkError (Option Nat) :=
  if digits = [] then .ok none
  else match parseUnsigned (2 ^ 64 - 1) digits with
    | some n => .ok (some n)
    | none => recordErr "bad macro digit count".toList

include hdigits hreverse hdelims in
theorem expandOne_eq {value : Str} (hvalue : macroValue letter.toLower ctx = some value) :
    expandOne (letter :: (digits ++ (reverse ++ delims))) ctx =
      (keepCount digits).map fun keep =>
        let joined := transform value (if delims = [] then ['.'] else delims)
          (decide (reverse ≠ [])) keep
        if letter.isUpper then urlEscape joined else joined := by
  have hother : ∀ c ∈ (reverse ++ delims).head?, c.isDigit = false := fun c hc =>
    (brace_and_digit_free hreverse hdelims c (List.mem_of_head? hc)).2
  obtain ⟨htake, hdrop⟩ := takeWhile_digits hdigits hother
  obtain ⟨hflag, htail⟩ := reverse_flag hreverse hdelims
  unfold expandOne keepCount
  simp only [htake, hdrop, hflag, htail, hdelims, hvalue]
  split
  · rfl
  · cases parseUnsigned (2 ^ 64 - 1) digits <;> rfl

theorem keepCount_of_digits (hne : digits ≠ []) (hdigits : digits.all Char.isDigit = true) :
    keepCount digits = if digitsValue digits < 2 ^ 64 then .ok (some (digitsValue digits))
      else recordErr "bad macro digit count".toList := by
  unfold keepCount
  rw [if_neg hne, parseUnsigned_of_digits hne (List.all_eq_true.mp hdigits), ← digitsValue]
  by_cases hfits : digitsValue digits < 2 ^ 64
  · rw [if_pos hfits, if_pos (by omega)]
  · rw [if_neg hfits, if_neg (by omega)]

-- keeping the right-most parts: all of them when more are asked for
theorem transform_some (value : Str) (splitOn : List Char) (flag : Bool) (n : Nat) :
    transform value splitOn flag (some n) =
      let parts := value.splitOnP (splitOn.contains ·)
      let ordered := if flag then parts.reverse else parts
      List.intercalate ['.'] (ordered.drop (parts.length - min n parts.length)) := by
  have hlength : (if flag then (value.splitOnP (splitOn.contains ·)).reverse
      else value.splitOnP (splitOn.contains ·)).length =
        (value.splitOnP (splitOn.contains ·)).length := by
    cases flag <;> simp
  unfold transform
  dsimp only
  rw [hlength]
  split
  · rename_i hn
    rw [Nat.min_eq_left hn.le]
  · rename_i hn
    rw [Nat.min_eq_right (Nat.le_of_not_lt hn), Nat.sub_self, List.drop_zero]

end

/-! ## 3. Percent-encoding -/

def isUnreserved (c : Char) : Bool := c.isAlphanum || "-._~".toList.contains c

def hexUpper (n : Nat) : Char := "0123456789ABCDEF".toList.getD n '0'

/-- RFC 3986: the bytes of a reserved character as two upper-case hexadecimal digits each. -/
def percentEncode (s : Str) : Str :=
  s.flatMap fun c =>
    if isUnreserved c then [c]
    else (String.utf8EncodeChar c).flatMap fun b =>
      ['%', hexUpper (b.toNat / 16), hexUpper (b.toNat % 16)]

theorem percentByte_eq (b : UInt8) :
    percentByte b = ['%', hexUpper (b.toNat / 16), hexUpper (b.toNat % 16)] := by
  have hall : ∀ n < 256, '%' :: (addrGroups 4 2 n).flatMap
      (fun n => toAsciiUppercase (showHex n)) = ['%', hexUpper (n / 16), hexUpper (n % 16)] := by
    decide +kernel
  exact hall b.toNat (UInt8.toNat_lt_size b)

theorem toNat_lt_of_isUnreserved {c : Char} (h : isUnreserved c = true) : c.toNat < 0x80 := by
  rw [isUnreserved, Bool.or_eq_true] at h
  rcases h with h | h
  · have hvisible := isVisible_of_isAlphanum h
    simp only [isVisible, Bool.and_eq_true, decide_eq_true_eq] at hvisible
    omega
  · have hall : "-._~".toList.all (fun c => c.toNat < 0x80) = true := by decide
    exact of_decide_eq_true (List.all_eq_true.mp hall c (List.contains_iff_mem.mp h))

theorem isUnreserved_eq (c : Char) :
    (c.isAlphanum || c == '-' || c == '.' || c == '_' || c == '~') = isUnreserved c := by
  rw [isUnreserved, show "-._~".toList = ['-', '.', '_', '~'] by rfl]
  simp only [List.contains_cons, List.contains_nil, Bool.or_false, Bool.or_assoc]

-- a byte of a reserved character is not an unreserved character itself
theorem isUnreserved_of_mem {c : Char} (hc : isUnreserved c = false) {b : UInt8}
    (hb : b ∈ String.utf8EncodeChar c) : isUnreserved (Char.ofNat b.toNat) = false := by
  by_cases hlow : b.toNat < 0x80
  · rw [← eq_of_mem_utf8EncodeChar hlow hb]
    exact hc
  · by_contra hfree
    rw [Bool.not_eq_false] at hfree
    have hlt := toNat_lt_of_isUnreserved hfree
    have hbyte := UInt8.toNat_lt_size b
    have hvalid : Nat.isValidChar b.toNat := by
      left
      simp only [UInt8.size] at hbyte
      omega
    rw [Char.ofNat, dif_pos hvalid] at hlt
    exact hlow hlt

theorem urlEscape_eq (s : Str) : urlEscape s = percentEncode s := by
  unfold urlEscape percentEncode encodeUtf8
  simp only [isUnreserved_eq]
  rw [List.flatMap_assoc]
  apply List.flatMap_congr
  intro c _
  by_cases hc : isUnreserved c = true
  · have hlow := toNat_lt_of_isUnreserved hc
    have hbyte : (UInt8.ofNat c.toNat).toNat = c.toNat := toNat_ofNat_lt (by omega)
    have hencode : String.utf8EncodeChar c = [UInt8.ofNat c.toNat] := by
      have hself := @utf8EncodeChar_ascii (UInt8.ofNat c.toNat)
        (by rw [UInt8.lt_iff_toNat_lt, hbyte]; exact hlow)
      rw [hbyte, Char.ofNat_toNat] at hself
      exact hself
    rw [hencode, List.flatMap_singleton, hbyte, Char.ofNat_toNat, if_pos hc, if_pos hc]
  · rw [if_neg hc]
    rw [Bool.not_eq_true] at hc
    apply List.flatMap_congr
    intro b hb
    rw [isUnreserved_of_mem hc hb, percentByte_eq]
    rfl

/-- A macro expands to its transformed value, percent-encoded for an upper-case letter, if its digit
string does not denote zero; more than a machine word of them are refused. -/
theorem macro_expansion_exact {letter : Char} {digits reverse delims : Str} (ctx : MacroContext)
    (hletter : letter ∈ domainLetters) (hdigits : digits.all Char.isDigit = true)
    (hreverse : reverse ∈ [[], ['r'], ['R']])
    (hdelims : delims.all (delimiters.contains ·) = true)
    (hnonzero : digits = [] ∨ digitsValue digits ≠ 0) :
    ∃ value text, macroValue letter.toLower ctx = some value ∧
      transformed value digits reverse delims = some text ∧
      expand (macroText letter digits reverse delims) ctx =
        if digitsValue digits < 2 ^ 64 then
          .ok (if letter.isUpper then percentEncode text else text)
        else recordErr "bad macro digit count".toList := by
  obtain ⟨value, hvalue⟩ := exists_macroValue ctx hletter
  have hone := expandOne_eq ctx hdigits hreverse hdelims hvalue
  unfold macroText
  rw [expand_braced (brace_free hletter hdigits hreverse hdelims), hone]
  by_cases hnone : digits = []
  · have hcount : keepCount digits = .ok none := if_pos hnone
    have htext : digitsValue digits < 2 ^ 64 := by
      rw [hnone]
      decide
    refine ⟨value, _, hvalue, if_pos hnone, ?_⟩
    rw [hcount, if_pos htext]
    simp only [Except.map, urlEscape_eq, transform, decide_eq_true_eq, ite_not]
  · refine ⟨value, _, hvalue, (if_neg hnone).trans (if_neg (hnonzero.resolve_left hnone)), ?_⟩
    rw [keepCount_of_digits hnone hdigits]
    by_cases hfits : digitsValue digits < 2 ^ 64
    · rw [if_pos hfits, if_pos hfits]
      simp only [Except.map, urlEscape_eq, transform_some, decide_eq_true_eq, ite_not]
    · rw [if_neg hfits, if_neg hfits]
      rfl

-- `%{D2r-}`
theorem macro_expansion_upper :
    ∃ text, transformed "a-b.c-d".toList "2".toList ['r'] ['-'] = some text ∧
      expand (macroText 'D' "2".toList ['r'] ['-'])
        ⟨.v4 0#32, [], [], [], "a-b.c-d".toList⟩ = .ok (percentEncode text) := by
  obtain ⟨value, text, hvalue, htext, hexpand⟩ :=
    @macro_expansion_exact 'D' "2".toList ['r'] ['-'] ⟨.v4 0#32, [], [], [], "a-b.c-d".toList⟩
      (by decide) (by decide) (by decide) (by decide) (.inr (by decide))
  cases hvalue
  exact ⟨text, htext, hexpand⟩

theorem overlong_digits_refused :
    transformed "a.b".toList "18446744073709551616".toList [] [] = some "a.b".toList ∧
      expand (macroText 'd' "18446744073709551616".toList [] [])
        ⟨.v4 0#32, [], [], [], "a.b".toList⟩ = recordErr "bad macro digit count".toList := by
  decide +kernel

/-! ## 4. Reverse names -/

-- the octets or nibbles of an address as they are written, least significant first
def reverseGroups : IpAddr → List Str
  | .v4 addr => (List.range 4).map fun i => showNat (addr.toNat / 256 ^ i % 256)
  | .v6 addr => (List.range 32).map fun i => showHex (addr.toNat / 16 ^ i % 16)

/-- The name of an address in the reverse DNS tree. -/
def reverseName (ip : IpAddr) : Str :=
  List.intercalate ['.'] (reverseGroups ip) ++
    match ip with
    | .v4 _ => ".in-addr.arpa".toList
    | .v6 _ => ".ip6.arpa".toList

theorem dot_not_mem_toDigits {b : Nat} (hb : 1 < b) (hle : b ≤ 16) (n : Nat) :
    '.' ∉ Nat.toDigits b n := by
  intro h
  obtain ⟨d, hd, hdot⟩ := exists_digit_of_mem_toDigits hb h
  have hall : ∀ d < 16, Nat.digitChar d ≠ '.' := by decide
  exact hall d (by omega) hdot.symm

theorem ipDotted_parts (ip : IpAddr) :
    ∃ parts, ipDotted ip = List.intercalate ['.'] parts ∧ parts ≠ [] ∧ (∀ s ∈ parts, '.' ∉ s) ∧
      parts.reverse = reverseGroups ip := by
  cases ip with
  | v4 addr =>
    refine ⟨(Ipv4Addr.octets addr).map showNat, rfl, by simp [Ipv4Addr.octets, addrGroups], ?_, ?_⟩
    · intro s hs
      obtain ⟨n, -, rfl⟩ := List.mem_map.mp hs
      exact dot_not_mem_toDigits (by decide) (by decide) n
    · rw [← List.map_reverse, Ipv4Addr.octets, reverse_addrGroups, List.map_map]
      rfl
  | v6 addr =>
    refine ⟨(addrGroups 4 32 addr.toNat).map showHex, rfl, by simp [addrGroups], ?_, ?_⟩
    · intro s hs
      obtain ⟨n, -, rfl⟩ := List.mem_map.mp hs
      exact dot_not_mem_toDigits (by decide) (by decide) n
    · rw [← List.map_reverse, reverse_addrGroups, List.map_map]
      rfl

theorem transform_reverse {parts : List Str} (hne : parts ≠ []) (hdot : ∀ s ∈ parts, '.' ∉ s) :
    transform (List.intercalate ['.'] parts) ['.'] true none =
      List.intercalate ['.'] parts.reverse := by
  have hsplit : (List.intercalate ['.'] parts).splitOnP (['.'].contains ·) = parts := by
    have hdelim : (fun c : Char => ['.'].contains c) = (· == '.') := by
      funext c
      rw [List.contains_cons, List.contains_nil, Bool.or_false]
    rw [hdelim]
    exact (splitOn_intercalate_eq_iff hne).mpr hdot
  unfold transform
  dsimp only
  rw [hsplit]
  rfl

/-- Expansion composes, and `%{ir}.%{v}.arpa` is the reverse name of the client. -/
theorem expansion_composes :
    (∀ (ctx : MacroContext) (s t x : Str), expand s ctx = .ok x →
      (∀ y, expand t ctx = .ok y → expand (s ++ t) ctx = .ok (x ++ y)) ∧
      ∀ e, expand t ctx = .error e → expand (s ++ t) ctx = .error e) ∧
    ∀ ctx : MacroContext, expand "%\x7bir\x7d.%\x7bv\x7d.arpa".toList ctx =
      .ok (reverseName ctx.ip) := by
  refine ⟨?_, ?_⟩
  · intro ctx s t x hs
    refine ⟨?_, ?_⟩
    · intro y hy
      rw [expand_append hs, hy]
      rfl
    · intro e he
      rw [expand_append hs, he]
      rfl
  · intro ctx
    obtain ⟨parts, hvalue, hne, hdot, hreverse⟩ := ipDotted_parts ctx.ip
    have hip : expand (macroText 'i' [] ['r'] []) ctx =
        .ok (List.intercalate ['.'] (reverseGroups ctx.ip)) := by
      rw [← hreverse, ← transform_reverse hne hdot, ← hvalue]
      exact expand_braced (by decide)
    have hrest : expand ".%\x7bv\x7d.arpa".toList ctx = .ok (match ctx.ip with
        | .v4 _ => ".in-addr.arpa".toList
        | .v6 _ => ".ip6.arpa".toList) := by
      cases ctx with
      | mk ip l o h d => cases ip <;> rfl
    have happ := expand_append hip ".%\x7bv\x7d.arpa".toList
    rw [hrest] at happ
    exact happ

end Snail.Network.Spf
