import Snail.Reasoning.Utf8

/-!
# Digits — decimal text in lexicographic order

Digit strings of one length compare as the numbers they spell.  Zero-padded text does so only as
long as the padding suffices.
-/

namespace Snail.Reasoning

/-! ## 1. Texts of one length -/

theorem append_lt_append_iff {u v s t : Str} (h : u.length = v.length) :
    u ++ s < v ++ t ↔ u < v ∨ u = v ∧ s < t := by
  induction u generalizing v with
  | nil =>
    obtain rfl := List.length_eq_zero_iff.mp h.symm
    simp only [List.nil_append, List.not_lt_nil, true_and, false_or]
  | cons a u ih =>
    cases v with
    | nil => cases h
    | cons b v =>
      rw [List.cons_append, List.cons_append, List.cons_lt_cons_iff, List.cons_lt_cons_iff,
        ih (Nat.succ.inj h), List.cons.injEq]
      tauto

theorem ofDigitChars_cons_zero (c : Char) (s : Str) :
    Nat.ofDigitChars 10 (c :: s) 0 = 10 ^ s.length * (c.toNat - 48) + Nat.ofDigitChars 10 s 0 := by
  rw [Nat.ofDigitChars_cons, Nat.ofDigitChars_eq_ofDigitChars_zero, Nat.mul_zero, Nat.zero_add]
  rfl

theorem digit_range {c : Char} (h : c.isDigit) : 48 ≤ c.toNat ∧ c.toNat ≤ 57 :=
  Char.isDigit_iff_toNat.mp h

theorem ofDigitChars_lt {s : Str} (hs : ∀ c ∈ s, c.isDigit) :
    Nat.ofDigitChars 10 s 0 < 10 ^ s.length := by
  induction s with
  | nil => decide
  | cons c s ih =>
    have htail := ih fun d hd => hs d (List.mem_cons_of_mem c hd)
    have hc := digit_range (hs c List.mem_cons_self)
    have hdigit : 10 ^ s.length * (c.toNat - 48) ≤ 10 ^ s.length * 9 :=
      Nat.mul_le_mul_left _ (by omega)
    rw [ofDigitChars_cons_zero, List.length_cons, pow_succ]
    omega

-- the leading digit decides first
theorem mul_add_lt_iff {p a b x y : Nat} (hx : x < p) (hy : y < p) :
    p * a + x < p * b + y ↔ a < b ∨ a = b ∧ x < y := by
  rcases lt_trichotomy a b with hab | rfl | hab
  · have hle : p * (a + 1) ≤ p * b := Nat.mul_le_mul_left p hab
    rw [Nat.mul_succ] at hle
    exact ⟨fun _ => .inl hab, fun _ => by omega⟩
  · omega
  · have hle : p * (b + 1) ≤ p * a := Nat.mul_le_mul_left p hab
    rw [Nat.mul_succ] at hle
    omega

theorem lt_iff_ofDigitChars_lt {s t : Str} (hs : ∀ c ∈ s, c.isDigit) (ht : ∀ c ∈ t, c.isDigit)
    (h : s.length = t.length) : s < t ↔ Nat.ofDigitChars 10 s 0 < Nat.ofDigitChars 10 t 0 := by
  induction s generalizing t with
  | nil =>
    obtain rfl := List.length_eq_zero_iff.mp h.symm
    exact iff_of_false (List.not_lt_nil _) (lt_irrefl _)
  | cons c s ih =>
    cases t with
    | nil => cases h
    | cons d t =>
      have hlen : s.length = t.length := Nat.succ.inj h
      have hs' : ∀ x ∈ s, x.isDigit := fun x hx => hs x (List.mem_cons_of_mem c hx)
      have ht' : ∀ x ∈ t, x.isDigit := fun x hx => ht x (List.mem_cons_of_mem d hx)
      have hc := digit_range (hs c List.mem_cons_self)
      have hd := digit_range (ht d List.mem_cons_self)
      have hlt : c < d ↔ c.toNat - 48 < d.toNat - 48 := by
        rw [Char.lt_def, UInt32.lt_iff_toNat_lt]
        change c.toNat < d.toNat ↔ _
        omega
      have heq : c = d ↔ c.toNat - 48 = d.toNat - 48 := by
        rw [← Char.toNat_inj]
        omega
      rw [List.cons_lt_cons_iff, ofDigitChars_cons_zero, ofDigitChars_cons_zero, ← hlen,
        mul_add_lt_iff (ofDigitChars_lt hs') (hlen ▸ ofDigitChars_lt ht'), ih hs' ht' hlen, hlt,
        heq]

/-! ## 2. Padded numbers -/

theorem length_showNatPadded (w n : Nat) :
    (showNatPadded w n).length = max w (showNat n).length := by
  unfold showNatPadded
  rw [List.length_append, List.length_replicate]
  omega

theorem length_showNatPadded_le_iff {w n k : Nat} (hw : 0 < w) :
    (showNatPadded w n).length ≤ k ↔ w ≤ k ∧ n < 10 ^ k := by
  rw [length_showNatPadded, max_le_iff]
  refine and_congr_right fun hk => ?_
  exact Nat.length_toDigits_le_iff (by decide) (hw.trans_le hk)

theorem showNatPadded_lt_iff {w m n : Nat}
    (h : (showNatPadded w m).length = (showNatPadded w n).length) :
    showNatPadded w m < showNatPadded w n ↔ m < n := by
  rw [lt_iff_ofDigitChars_lt (fun c => isDigit_of_mem_showNatPadded)
    (fun c => isDigit_of_mem_showNatPadded) h, ofDigitChars_showNatPadded,
    ofDigitChars_showNatPadded]

theorem length_showNatPadded_of_lt {w n : Nat} (hw : 0 < w) (h : n < 10 ^ w) :
    (showNatPadded w n).length = w := by
  refine le_antisymm ((length_showNatPadded_le_iff hw).mpr ⟨le_rfl, h⟩) ?_
  rw [length_showNatPadded]
  exact le_max_left _ _

-- counting on changes the length only at a power of ten past the padding
theorem length_showNatPadded_succ {w n : Nat} (hw : 0 < w) (h : ∀ k, w ≤ k → n + 1 ≠ 10 ^ k) :
    (showNatPadded w n).length = (showNatPadded w (n + 1)).length := by
  refine eq_of_forall_ge_iff fun k => ?_
  rw [length_showNatPadded_le_iff hw, length_showNatPadded_le_iff hw]
  refine and_congr_right fun hk => ?_
  have hne := h k hk
  omega

/-! ## 3. The order of the bytes -/

theorem encodeUtf8_cons_ascii {c : Char} (hc : c.toNat < 128) (s : Str) :
    encodeUtf8 (c :: s) = UInt8.ofNat c.toNat :: encodeUtf8 s := by
  have hbyte : (UInt8.ofNat c.toNat).toNat = c.toNat := toNat_ofNat_lt (by omega)
  have hchar := utf8EncodeChar_ascii (UInt8.lt_iff_toNat_lt.mpr (hbyte.symm ▸ hc))
  rw [hbyte, Char.ofNat_toNat] at hchar
  unfold encodeUtf8
  rw [List.flatMap_cons, hchar, List.singleton_append]

theorem encodeUtf8_lt_iff {s t : Str} (hs : ∀ c ∈ s, c.toNat < 128) (ht : ∀ c ∈ t, c.toNat < 128) :
    encodeUtf8 s < encodeUtf8 t ↔ s < t := by
  induction s generalizing t with
  | nil =>
    cases t with
    | nil => exact iff_of_false (List.not_lt_nil _) (List.not_lt_nil _)
    | cons d t =>
      rw [encodeUtf8_cons_ascii (ht d List.mem_cons_self)]
      exact iff_of_true (List.nil_lt_cons _ _) (List.nil_lt_cons _ _)
  | cons c s ih =>
    have hc := hs c List.mem_cons_self
    cases t with
    | nil => exact iff_of_false (List.not_lt_nil _) (List.not_lt_nil _)
    | cons d t =>
      have hd := ht d List.mem_cons_self
      have hbytes : (UInt8.ofNat c.toNat).toNat = c.toNat ∧ (UInt8.ofNat d.toNat).toNat = d.toNat :=
        ⟨toNat_ofNat_lt (by omega), toNat_ofNat_lt (by omega)⟩
      rw [encodeUtf8_cons_ascii hc, encodeUtf8_cons_ascii hd, List.cons_lt_cons_iff,
        List.cons_lt_cons_iff, UInt8.lt_iff_toNat_lt, ← UInt8.toNat_inj, hbytes.1, hbytes.2,
        Char.toNat_inj, Char.lt_def, UInt32.lt_iff_toNat_lt,
        ih (fun x hx => hs x (List.mem_cons_of_mem c hx))
          (fun x hx => ht x (List.mem_cons_of_mem d hx))]
      rfl

end Snail.Reasoning
