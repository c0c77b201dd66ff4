import Snail.Reasoning.Text

/-!
# Utf8 — encoding text and the lenient decoder

`decodeLossy` is `String::from_utf8_lossy`: well-formed sequences decode to their characters, and
each maximal prefix of a well-formed sequence that is not completed becomes one U+FFFD.  The decoder
reads byte by byte and remembers the sequence it is inside of, so that what a line break does to it
is one induction over the bytes.
-/

namespace Snail.Reasoning

abbrev Bytes := List UInt8

-- the bytes of an ASCII literal
def ascii (s : String) : Bytes := s.toList.map fun c => c.toNat.toUInt8

def cr : UInt8 := 13
def lf : UInt8 := 10
def crlf : Bytes := [cr, lf]

/-- `str::as_bytes`. -/
def encodeUtf8 (s : Str) : Bytes := s.flatMap String.utf8EncodeChar

-- `s[..n]` and `s[n..]`; a slice that cuts a character in two panics
def splitAtByte : Nat → Str → Option (Str × Str)
  | 0, s => some ([], s)
  | _ + 1, [] => none
  | n + 1, c :: s =>
      if c.utf8Size ≤ n + 1 then
        (splitAtByte (n + 1 - c.utf8Size) s).map fun p => (c :: p.1, p.2)
      else none

-- U+FFFD, the replacement character
def replacement : Char := Char.ofNat 0xFFFD

/-- A multi-byte sequence that has begun: how many bytes are missing, which bytes may come next,
and the bits collected so far. -/
structure Partial where
  remaining : Nat
  lo : UInt8
  hi : UInt8
  acc : Nat

-- whether `b` continues the sequence `p`
def Partial.accepts (p : Partial) (b : UInt8) : Bool :=
  0x80 ≤ b && b ≤ 0xBF && p.lo ≤ b && b ≤ p.hi

/-- A byte read between two sequences.  The ranges of the second byte exclude overlong forms
(`E0`, `F0`), surrogates (`ED`) and values above U+10FFFF (`F4`). -/
def startByte (b : UInt8) : Str × Option Partial :=
  if b < 0x80 then ([Char.ofNat b.toNat], none)
  else if 0xC2 ≤ b && b ≤ 0xDF then ([], some ⟨1, 0x80, 0xBF, b.toNat - 0xC0⟩)
  else if b == 0xE0 then ([], some ⟨2, 0xA0, 0xBF, 0⟩)
  else if b == 0xED then ([], some ⟨2, 0x80, 0x9F, 0xD⟩)
  else if 0xE1 ≤ b && b ≤ 0xEF then ([], some ⟨2, 0x80, 0xBF, b.toNat - 0xE0⟩)
  else if b == 0xF0 then ([], some ⟨3, 0x90, 0xBF, 0⟩)
  else if b == 0xF4 then ([], some ⟨3, 0x80, 0x8F, 4⟩)
  else if 0xF1 ≤ b && b ≤ 0xF3 then ([], some ⟨3, 0x80, 0xBF, b.toNat - 0xF0⟩)
  else ([replacement], none)

-- one byte: the characters it completes and the sequence left open
def decodeStep : Option Partial → UInt8 → Str × Option Partial
  | none, b => startByte b
  | some p, b =>
      if p.accepts b then
        let acc := p.acc * 64 + (b.toNat - 0x80)
        if p.remaining = 1 then ([Char.ofNat acc], none)
        else ([], some ⟨p.remaining - 1, 0x80, 0xBF, acc⟩)
      else (replacement :: (startByte b).1, (startByte b).2)

def decodeFrom : Option Partial → Bytes → Str
  | none, [] => []
  | some _, [] => [replacement]
  | q, b :: l => (decodeStep q b).1 ++ decodeFrom (decodeStep q b).2 l

/-- `String::from_utf8_lossy`. -/
def decodeLossy (bytes : Bytes) : Str := decodeFrom none bytes

example : decodeLossy [0x63, 0xC3, 0xA9, 0xE2, 0x82, 0xAC, 0xF0, 0x9F, 0x98, 0x80] =
    ['c', 'é', '€', '😀'] := by decide
example : decodeLossy [0xF0, 0x9F, 0x41, 0xFF, 0xE2, 0x82] =
    [replacement, 'A', replacement, replacement] := by decide

/-! ## 1. ASCII bytes cut the decoding -/

theorem startByte_ascii {a : UInt8} (h : a < 0x80) :
    startByte a = ([Char.ofNat a.toNat], none) := by
  unfold startByte
  rw [if_pos h]

theorem accepts_ascii (p : Partial) {a : UInt8} (h : a < 0x80) : p.accepts a = false := by
  have hlow : ¬ 0x80 ≤ a := UInt8.not_le.mpr h
  simp [Partial.accepts, hlow]

/-- An ASCII byte is never part of a longer sequence, so the text before it and the text after it
decode independently. -/
theorem decodeFrom_append_ascii {a : UInt8} (h : a < 0x80) (q : Option Partial) (l m : Bytes) :
    decodeFrom q (l ++ a :: m) = decodeFrom q l ++ Char.ofNat a.toNat :: decodeFrom none m := by
  induction l generalizing q with
  | nil =>
    cases q with
    | none => simp [decodeFrom, decodeStep, startByte_ascii h]
    | some p => simp [decodeFrom, decodeStep, accepts_ascii p h, startByte_ascii h]
  | cons b l ih =>
    cases q <;> simp only [List.cons_append, decodeFrom, ih, List.append_assoc]

theorem decodeLossy_append_ascii {a : UInt8} (h : a < 0x80) (l m : Bytes) :
    decodeLossy (l ++ a :: m) = decodeLossy l ++ Char.ofNat a.toNat :: decodeLossy m :=
  decodeFrom_append_ascii h none l m

theorem decodeLossy_cons_ascii {a : UInt8} (h : a < 0x80) (l : Bytes) :
    decodeLossy (a :: l) = Char.ofNat a.toNat :: decodeLossy l :=
  decodeLossy_append_ascii h [] l

/-! ## 2. Decoding what was encoded -/

theorem toNat_ofNat_lt {n : Nat} (h : n < 256) : (UInt8.ofNat n).toNat = n := by
  simp [UInt8.toNat_ofNat', Nat.mod_eq_of_lt h]

-- the start-byte table over numbers
theorem startByte_ofNat {n : Nat} (h : n < 256) :
    startByte (UInt8.ofNat n) =
      if n < 0x80 then ([Char.ofNat n], none)
      else if 0xC2 ≤ n ∧ n ≤ 0xDF then ([], some ⟨1, 0x80, 0xBF, n - 0xC0⟩)
      else if n = 0xE0 then ([], some ⟨2, 0xA0, 0xBF, 0⟩)
      else if n = 0xED then ([], some ⟨2, 0x80, 0x9F, 0xD⟩)
      else if 0xE1 ≤ n ∧ n ≤ 0xEF then ([], some ⟨2, 0x80, 0xBF, n - 0xE0⟩)
      else if n = 0xF0 then ([], some ⟨3, 0x90, 0xBF, 0⟩)
      else if n = 0xF4 then ([], some ⟨3, 0x80, 0x8F, 4⟩)
      else if 0xF1 ≤ n ∧ n ≤ 0xF3 then ([], some ⟨3, 0x80, 0xBF, n - 0xF0⟩)
      else ([replacement], none) := by
  have hn := toNat_ofNat_lt h
  have hrange : ∀ lo hi : UInt8, (lo ≤ UInt8.ofNat n && UInt8.ofNat n ≤ hi) = true ↔
      lo.toNat ≤ n ∧ n ≤ hi.toNat := by
    intro lo hi
    rw [Bool.and_eq_true, decide_eq_true_eq, decide_eq_true_eq, UInt8.le_iff_toNat_le,
      UInt8.le_iff_toNat_le, hn]
  have hbyte : ∀ b : UInt8, (UInt8.ofNat n == b) = true ↔ n = b.toNat := by
    intro b
    rw [beq_iff_eq, ← UInt8.toNat_inj, hn]
  unfold startByte
  rw [hn]
  refine if_congr ?_ rfl (if_congr (hrange _ _) rfl (if_congr (hbyte _) rfl
    (if_congr (hbyte _) rfl (if_congr (hrange _ _) rfl (if_congr (hbyte _) rfl
      (if_congr (hbyte _) rfl (if_congr (hrange _ _) rfl rfl)))))))
  rw [UInt8.lt_iff_toNat_lt, hn]
  rfl

theorem accepts_ofNat {n lo hi : Nat} (r acc : Nat) (h : n < 256) (hlo : lo < 256)
    (hhi : hi < 256) :
    Partial.accepts ⟨r, UInt8.ofNat lo, UInt8.ofNat hi, acc⟩ (UInt8.ofNat n) =
      decide (0x80 ≤ n ∧ n ≤ 0xBF ∧ lo ≤ n ∧ n ≤ hi) := by
  have hn := toNat_ofNat_lt h
  have hl := toNat_ofNat_lt hlo
  have hh := toNat_ofNat_lt hhi
  simp only [Partial.accepts, UInt8.le_iff_toNat_le, hn, hl, hh]
  simp [Bool.and_assoc, Bool.decide_and]

theorem decodeStep_accept {n lo hi : Nat} (r acc : Nat) (h : 0x80 ≤ n) (h' : n ≤ 0xBF)
    (hlo : lo ≤ n) (hhi : n ≤ hi) (hb : hi < 256) :
    decodeStep (some ⟨r, UInt8.ofNat lo, UInt8.ofNat hi, acc⟩) (UInt8.ofNat n) =
      if r = 1 then ([Char.ofNat (acc * 64 + (n - 0x80))], none)
      else ([], some ⟨r - 1, 0x80, 0xBF, acc * 64 + (n - 0x80)⟩) := by
  have hacc := accepts_ofNat r acc (show n < 256 by omega) (show lo < 256 by omega) hb
  have hn := toNat_ofNat_lt (show n < 256 by omega)
  rw [decodeStep, hacc, if_pos (by simp; omega), hn]

-- the last continuation byte completes the character
theorem decodeFrom_last {lo hi x : Nat} (acc : Nat) (l : Bytes) (hlo : lo ≤ x % 0x40 + 0x80)
    (hhi : x % 0x40 + 0x80 ≤ hi) (hb : hi < 256) :
    decodeFrom (some ⟨1, UInt8.ofNat lo, UInt8.ofNat hi, acc⟩)
        (UInt8.ofNat (x % 0x40 + 0x80) :: l) =
      Char.ofNat (acc * 64 + x % 0x40) :: decodeFrom none l := by
  rw [decodeFrom, decodeStep_accept 1 acc (by omega) (by omega) hlo hhi hb, if_pos rfl,
    Nat.add_sub_cancel]
  rfl

-- any other continuation byte adds its six bits
theorem decodeFrom_next {lo hi x : Nat} (r acc : Nat) (l : Bytes) (hlo : lo ≤ x % 0x40 + 0x80)
    (hhi : x % 0x40 + 0x80 ≤ hi) (hb : hi < 256) :
    decodeFrom (some ⟨r + 2, UInt8.ofNat lo, UInt8.ofNat hi, acc⟩)
        (UInt8.ofNat (x % 0x40 + 0x80) :: l) =
      decodeFrom (some ⟨r + 1, UInt8.ofNat 0x80, UInt8.ofNat 0xBF, acc * 64 + x % 0x40⟩) l := by
  rw [decodeFrom, decodeStep_accept (r + 2) acc (by omega) (by omega) hlo hhi hb,
    if_neg (by omega), Nat.add_sub_cancel]
  rfl

theorem toNat_range (c : Char) : c.toNat < 0xD800 ∨ 0xDFFF < c.toNat ∧ c.toNat < 0x110000 := by
  have h := c.valid
  simpa [UInt32.isValidChar, Nat.isValidChar] using h

-- the second byte of a three-byte sequence lies in the range its start byte allows
theorem startByte_three {v : Nat} (h : 0x7ff < v) (h' : v ≤ 0xffff) (hs : v < 0xD800 ∨ 0xDFFF < v) :
    ∃ lo hi, lo ≤ v / 64 % 0x40 + 0x80 ∧ v / 64 % 0x40 + 0x80 ≤ hi ∧ hi < 256 ∧
      startByte (UInt8.ofNat (v / 4096 % 0x10 + 0xe0)) =
        ([], some ⟨2, UInt8.ofNat lo, UInt8.ofNat hi, v / 4096⟩) := by
  have hst := startByte_ofNat (show v / 4096 % 0x10 + 0xe0 < 256 by omega)
  rw [if_neg (by omega), if_neg (by omega)] at hst
  by_cases h0 : v / 4096 = 0
  · rw [if_pos (by omega)] at hst
    exact ⟨0xA0, 0xBF, by omega, by omega, by omega, by rw [hst, h0]; rfl⟩
  by_cases hd : v / 4096 = 0xD
  · rw [if_neg (by omega), if_pos (by omega)] at hst
    exact ⟨0x80, 0x9F, by omega, by omega, by omega, by rw [hst, hd]; rfl⟩
  rw [if_neg (by omega), if_neg (by omega), if_pos (by omega)] at hst
  have hacc : v / 4096 % 0x10 + 0xe0 - 0xE0 = v / 4096 := by omega
  exact ⟨0x80, 0xBF, by omega, by omega, by omega, by rw [hst, hacc]; rfl⟩

-- likewise for four bytes
theorem startByte_four {v : Nat} (h : 0xffff < v) (h' : v < 0x110000) :
    ∃ lo hi, lo ≤ v / 4096 % 0x40 + 0x80 ∧ v / 4096 % 0x40 + 0x80 ≤ hi ∧ hi < 256 ∧
      startByte (UInt8.ofNat (v / 262144 % 0x08 + 0xf0)) =
        ([], some ⟨3, UInt8.ofNat lo, UInt8.ofNat hi, v / 262144⟩) := by
  have hst := startByte_ofNat (show v / 262144 % 0x08 + 0xf0 < 256 by omega)
  rw [if_neg (by omega), if_neg (by omega), if_neg (by omega), if_neg (by omega),
    if_neg (by omega)] at hst
  by_cases h0 : v / 262144 = 0
  · rw [if_pos (by omega)] at hst
    exact ⟨0x90, 0xBF, by omega, by omega, by omega, by rw [hst, h0]; rfl⟩
  by_cases h4 : v / 262144 = 4
  · rw [if_neg (by omega), if_pos (by omega)] at hst
    exact ⟨0x80, 0x8F, by omega, by omega, by omega, by rw [hst, h4]; rfl⟩
  rw [if_neg (by omega), if_neg (by omega), if_pos (by omega)] at hst
  have hacc : v / 262144 % 0x08 + 0xf0 - 0xF0 = v / 262144 := by omega
  exact ⟨0x80, 0xBF, by omega, by omega, by omega, by rw [hst, hacc]; rfl⟩

-- the decoder gives back a character it reads in encoded form
theorem decodeFrom_encodeChar (c : Char) (l : Bytes) :
    decodeFrom none (String.utf8EncodeChar c ++ l) = c :: decodeFrom none l := by
  have hc : Char.ofNat c.toNat = c := Char.ofNat_toNat c
  have hr := toNat_range c
  unfold String.utf8EncodeChar
  rw [show c.val.toNat = c.toNat from rfl]
  generalize c.toNat = v at hc hr ⊢
  -- one case per length of the encoding
  by_cases h1 : v ≤ 0x7f
  · have hs := startByte_ofNat (show v < 256 by omega)
    rw [if_pos (by omega)] at hs
    simp only [h1, if_true, List.cons_append, List.nil_append, decodeFrom, decodeStep, hs, hc]
  by_cases h2 : v ≤ 0x7ff
  · have hs := startByte_ofNat (show v / 64 % 0x20 + 0xc0 < 256 by omega)
    rw [if_neg (by omega), if_pos (by omega)] at hs
    have hval : (v / 64 % 0x20 + 0xc0 - 0xC0) * 64 + v % 0x40 = v := by omega
    simp only [h1, h2, if_true, if_false, List.cons_append, List.nil_append]
    rw [decodeFrom, decodeStep, hs]
    have hlast := @decodeFrom_last 0x80 0xBF v (v / 64 % 0x20 + 0xc0 - 0xC0) l (by omega) (by omega)
      (by omega)
    rw [hval, hc] at hlast
    exact hlast
  by_cases h3 : v ≤ 0xffff
  · rcases startByte_three (by omega) h3 (by omega) with ⟨lo, hi, hlo, hhi, hb, hs⟩
    have hval : (v / 4096 * 64 + v / 64 % 0x40) * 64 + v % 0x40 = v := by omega
    simp only [h1, h2, h3, if_true, if_false, List.cons_append, List.nil_append]
    rw [decodeFrom, decodeStep, hs, decodeFrom_next 0 _ _ hlo hhi hb,
      decodeFrom_last _ l (by omega) (by omega) (by omega), hval, hc]
    rfl
  · rcases startByte_four (v := v) (by omega) (by omega) with ⟨lo, hi, hlo, hhi, hb, hs⟩
    have hval : ((v / 262144 * 64 + v / 4096 % 0x40) * 64 + v / 64 % 0x40) * 64 + v % 0x40 = v := by
      omega
    simp only [h1, h2, h3, if_false, List.cons_append, List.nil_append]
    rw [decodeFrom, decodeStep, hs, decodeFrom_next 1 _ _ hlo hhi hb,
      decodeFrom_next 0 _ _ (by omega) (by omega) (by omega),
      decodeFrom_last _ l (by omega) (by omega) (by omega), hval, hc]
    rfl

theorem decodeLossy_encodeUtf8 (s : Str) : decodeLossy (encodeUtf8 s) = s := by
  induction s with
  | nil => rfl
  | cons c s ih =>
    change decodeFrom none (String.utf8EncodeChar c ++ encodeUtf8 s) = c :: s
    rw [decodeFrom_encodeChar]
    exact congrArg (c :: ·) ih

theorem encodeUtf8_injective : Function.Injective encodeUtf8 :=
  Function.LeftInverse.injective decodeLossy_encodeUtf8

theorem eq_of_mem_utf8EncodeChar {c : Char} {b : UInt8} (hb : b.toNat < 0x80)
    (h : b ∈ String.utf8EncodeChar c) : c = Char.ofNat b.toNat := by
  have hr := toNat_range c
  unfold String.utf8EncodeChar at h
  rw [show c.val.toNat = c.toNat from rfl] at h
  have hof : ∀ n, n < 256 → 0x80 ≤ n → b ≠ UInt8.ofNat n := by
    intro n hn hlow he
    rw [he, toNat_ofNat_lt hn] at hb
    omega
  by_cases h1 : c.toNat ≤ 0x7f
  · rw [if_pos h1, List.mem_singleton] at h
    rw [h, toNat_ofNat_lt (by omega), Char.ofNat_toNat]
  · -- every byte of a longer encoding has its high bit set
    rw [if_neg h1] at h
    exfalso
    split at h
    · simp only [List.mem_cons, List.not_mem_nil, or_false] at h
      rcases h with h | h <;> exact hof _ (by omega) (by omega) h
    · split at h <;> simp only [List.mem_cons, List.not_mem_nil, or_false] at h
      · rcases h with h | h | h <;> exact hof _ (by omega) (by omega) h
      · rcases h with h | h | h | h <;> exact hof _ (by omega) (by omega) h

theorem ofNat_mem_of_mem_encodeUtf8 {s : Str} {b : UInt8} (hb : b.toNat < 0x80)
    (h : b ∈ encodeUtf8 s) : Char.ofNat b.toNat ∈ s := by
  rcases List.mem_flatMap.mp h with ⟨c, hc, hbc⟩
  rw [← eq_of_mem_utf8EncodeChar hb hbc]
  exact hc

/-! ## 3. ASCII characters come from ASCII bytes -/

-- scalar values outside ASCII
def IsWide (v : Nat) : Prop := 0x80 ≤ v ∧ (v < 0xD800 ∨ 0xDFFF < v ∧ v < 0x110000)

theorem toNat_ofNat_valid {v : Nat} (h : v < 0xD800 ∨ 0xDFFF < v ∧ v < 0x110000) :
    (Char.ofNat v).toNat = v := by
  have hv : v.isValidChar := h
  unfold Char.ofNat
  rw [dif_pos hv]
  rfl

theorem not_ascii_ofNat {v : Nat} (h : IsWide v) : 0x80 ≤ (Char.ofNat v).toNat := by
  rw [toNat_ofNat_valid h.2]
  exact h.1

-- whatever bytes continue an open sequence, the character they complete is wide
def WideFrom : Nat → Nat → Nat → Nat → Prop
  | 0, _, _, _ => False
  | 1, lo, hi, acc =>
      ∀ x, 0x80 ≤ x → x ≤ 0xBF → lo ≤ x → x ≤ hi → IsWide (acc * 64 + (x - 0x80))
  | r + 2, lo, hi, acc =>
      ∀ x, 0x80 ≤ x → x ≤ 0xBF → lo ≤ x → x ≤ hi →
        WideFrom (r + 1) 0x80 0xBF (acc * 64 + (x - 0x80))

def Partial.Wide (p : Partial) : Prop := WideFrom p.remaining p.lo.toNat p.hi.toNat p.acc

-- a row of the table that opens a sequence
theorem opens_wide {r acc : Nat} {lo hi : UInt8} (b : UInt8)
    (h : WideFrom r lo.toNat hi.toNat acc) :
    (∀ c ∈ ([] : Str), c.toNat < 0x80 → c = Char.ofNat b.toNat) ∧
      ∀ p ∈ some (Partial.mk r lo hi acc), p.Wide := by
  refine ⟨by simp, ?_⟩
  intro p hp
  cases hp
  exact h

theorem startByte_wide (b : UInt8) :
    (∀ c ∈ (startByte b).1, c.toNat < 0x80 → c = Char.ofNat b.toNat) ∧
      ∀ p ∈ (startByte b).2, p.Wide := by
  have hb : b = UInt8.ofNat b.toNat := by simp
  have hlt : b.toNat < 256 := b.toNat_lt
  have hstart := startByte_ofNat hlt
  rw [← hb] at hstart
  -- one case per row of the table; the bounds of the second byte keep the value in range
  by_cases h0 : b.toNat < 0x80
  · rw [if_pos h0] at hstart
    rw [hstart]
    refine ⟨?_, by simp⟩
    intro c hc _
    exact List.mem_singleton.mp hc
  rw [if_neg h0] at hstart
  by_cases h1 : 0xC2 ≤ b.toNat ∧ b.toNat ≤ 0xDF
  · rw [if_pos h1] at hstart
    rw [hstart]
    apply opens_wide
    intro x _ _ _ _
    exact ⟨by omega, .inl (by omega)⟩
  rw [if_neg h1] at hstart
  by_cases h2 : b.toNat = 0xE0
  · rw [if_pos h2] at hstart
    rw [hstart]
    apply opens_wide
    intro x _ _ (hlo : 0xA0 ≤ x) _ y _ _ _ _
    exact ⟨by omega, .inl (by omega)⟩
  rw [if_neg h2] at hstart
  by_cases h3 : b.toNat = 0xED
  · rw [if_pos h3] at hstart
    rw [hstart]
    apply opens_wide
    intro x _ _ _ (hhi : x ≤ 0x9F) y _ _ _ _
    exact ⟨by omega, .inl (by omega)⟩
  rw [if_neg h3] at hstart
  by_cases h4 : 0xE1 ≤ b.toNat ∧ b.toNat ≤ 0xEF
  · rw [if_pos h4] at hstart
    rw [hstart]
    apply opens_wide
    intro x _ _ _ _ y _ _ _ _
    unfold IsWide
    omega
  rw [if_neg h4] at hstart
  by_cases h5 : b.toNat = 0xF0
  · rw [if_pos h5] at hstart
    rw [hstart]
    apply opens_wide
    intro x _ _ (hlo : 0x90 ≤ x) _ y _ _ _ _ z _ _ _ _
    exact ⟨by omega, .inr ⟨by omega, by omega⟩⟩
  rw [if_neg h5] at hstart
  by_cases h6 : b.toNat = 0xF4
  · rw [if_pos h6] at hstart
    rw [hstart]
    apply opens_wide
    intro x _ _ _ (hhi : x ≤ 0x8F) y _ _ _ _ z _ _ _ _
    exact ⟨by omega, .inr ⟨by omega, by omega⟩⟩
  rw [if_neg h6] at hstart
  by_cases h7 : 0xF1 ≤ b.toNat ∧ b.toNat ≤ 0xF3
  · rw [if_pos h7] at hstart
    rw [hstart]
    apply opens_wide
    intro x _ _ _ _ y _ _ _ _ z _ _ _ _
    exact ⟨by omega, .inr ⟨by omega, by omega⟩⟩
  rw [if_neg h7] at hstart
  rw [hstart]
  refine ⟨?_, by simp⟩
  intro c hc hlow
  rw [List.mem_singleton.mp hc] at hlow
  exact absurd hlow (by decide)

theorem decodeStep_wide {q : Option Partial} (hq : ∀ p ∈ q, p.Wide) (b : UInt8) :
    (∀ c ∈ (decodeStep q b).1, c.toNat < 0x80 → c = Char.ofNat b.toNat) ∧
      ∀ p ∈ (decodeStep q b).2, p.Wide := by
  have hstart := startByte_wide b
  cases q with
  | none => exact hstart
  | some p =>
    have hp := hq p rfl
    rcases p with ⟨r, lo, hi, acc⟩
    by_cases hacc : Partial.accepts ⟨r, lo, hi, acc⟩ b
    · rw [decodeStep, if_pos hacc]
      simp only [Partial.accepts, UInt8.le_iff_toNat_le, Bool.and_eq_true,
        decide_eq_true_eq] at hacc
      rcases hacc with ⟨⟨⟨h80, hBF⟩, hlo⟩, hhi⟩
      match r, hp with
      | 1, hp =>
        have hwide := not_ascii_ofNat (hp b.toNat h80 hBF hlo hhi)
        refine ⟨?_, by simp⟩
        intro c hc hlow
        rw [if_pos rfl, List.mem_singleton] at hc
        rw [hc] at hlow
        omega
      | r + 2, hp =>
        rw [if_neg (show ¬ r + 2 = 1 by omega)]
        refine ⟨by simp, ?_⟩
        intro p hp'
        cases hp'
        exact hp b.toNat h80 hBF hlo hhi
    · rw [decodeStep, if_neg hacc]
      refine ⟨?_, hstart.2⟩
      intro c hc hlow
      rcases List.mem_cons.mp hc with rfl | hc
      · exact absurd hlow (by decide)
      · exact hstart.1 c hc hlow

theorem mem_of_mem_decodeFrom {q : Option Partial} (hq : ∀ p ∈ q, p.Wide) {l : Bytes} {c : Char}
    (hc : c ∈ decodeFrom q l) (hlow : c.toNat < 0x80) : ∃ b ∈ l, c = Char.ofNat b.toNat := by
  induction l generalizing q with
  | nil =>
    cases q with
    | none => simp [decodeFrom] at hc
    | some p =>
      rw [decodeFrom, List.mem_singleton] at hc
      rw [hc] at hlow
      exact absurd hlow (by decide)
  | cons b l ih =>
    have hstep := decodeStep_wide hq b
    rw [decodeFrom, List.mem_append] at hc
    rcases hc with hc | hc
    · exact ⟨b, by simp, hstep.1 c hc hlow⟩
    · rcases ih hstep.2 hc with ⟨b', hb', heq⟩
      exact ⟨b', by simp [hb'], heq⟩

theorem ofNat_mem_decodeLossy_iff {a : UInt8} (h : a < 0x80) (l : Bytes) :
    Char.ofNat a.toNat ∈ decodeLossy l ↔ a ∈ l := by
  have ha : a.toNat < 0x80 := UInt8.lt_iff_toNat_lt.mp h
  have hval : ∀ b : UInt8, (Char.ofNat b.toNat).toNat = b.toNat := by
    intro b
    have hb : b.toNat < 256 := b.toNat_lt
    exact toNat_ofNat_valid (by omega)
  apply Iff.intro
  · intro hmem
    rcases mem_of_mem_decodeFrom (by simp) hmem (by rw [hval]; exact ha) with
      ⟨b, hb, heq⟩
    have hnat := congrArg Char.toNat heq
    rw [hval, hval, UInt8.toNat_inj] at hnat
    rw [hnat]
    exact hb
  · intro hmem
    rcases List.append_of_mem hmem with ⟨x, y, rfl⟩
    rw [decodeLossy_append_ascii h]
    simp

-- an open sequence ends in a character or in a replacement
theorem decodeFrom_some_ne_nil (p : Partial) (l : Bytes) : decodeFrom (some p) l ≠ [] := by
  induction l generalizing p with
  | nil => simp [decodeFrom]
  | cons b l ih =>
    rw [decodeFrom, decodeStep]
    by_cases hacc : p.accepts b
    · rw [if_pos hacc]
      by_cases hlast : p.remaining = 1
      · simp [hlast]
      · simpa [hlast] using ih _
    · simp [hacc]

-- a start byte that completes no character opens a sequence
theorem startByte_opens (b : UInt8) : (startByte b).1 = [] → ∃ p, (startByte b).2 = some p := by
  have hrow : ∀ {c : Prop} [Decidable c] {x y : Str × Option Partial},
      (x.1 = [] → ∃ p, x.2 = some p) → (y.1 = [] → ∃ p, y.2 = some p) →
      (if c then x else y).1 = [] → ∃ p, (if c then x else y).2 = some p := by
    intro c _ x y hx hy
    by_cases hc : c
    · rw [if_pos hc]
      exact hx
    · rw [if_neg hc]
      exact hy
  have hshown : ∀ c : Char, ([c], (none : Option Partial)).1 = [] →
      ∃ p, ([c], (none : Option Partial)).2 = some p := by
    intro c h
    cases h
  have hopened : ∀ p : Partial, ([], some p).1 = ([] : Str) →
      ∃ p', (([] : Str), some p).2 = some p' := fun p _ => ⟨p, rfl⟩
  exact hrow (hshown _) (hrow (hopened _) (hrow (hopened _) (hrow (hopened _) (hrow (hopened _)
    (hrow (hopened _) (hrow (hopened _) (hrow (hopened _) (hshown _))))))))

theorem decodeLossy_eq_nil_iff {l : Bytes} : decodeLossy l = [] ↔ l = [] := by
  apply Iff.intro
  · intro h
    cases l with
    | nil => rfl
    | cons b l =>
      exfalso
      rw [decodeLossy, decodeFrom, List.append_eq_nil_iff] at h
      rcases startByte_opens b h.1 with ⟨p, hp⟩
      have hrest := h.2
      rw [decodeStep, hp] at hrest
      exact decodeFrom_some_ne_nil p l hrest
  · intro h
    rw [h]
    rfl

theorem splitOnce_decodeLossy {a : UInt8} (h : a < 0x80) (l : Bytes) :
    splitOnce (Char.ofNat a.toNat) (decodeLossy l) =
      (splitOnce a l).map fun p => (decodeLossy p.1, decodeLossy p.2) := by
  cases hl : splitOnce a l with
  | none =>
    rw [splitOnce_eq_none_iff] at hl
    rw [Option.map_none, splitOnce_eq_none_iff, ofNat_mem_decodeLossy_iff h]
    exact hl
  | some p =>
    have hp := splitOnce_eq_some_iff.mp hl
    rw [Option.map_some, splitOnce_eq_some_iff, hp.1, decodeLossy_append_ascii h,
      ofNat_mem_decodeLossy_iff h]
    exact ⟨rfl, hp.2⟩

theorem head?_decodeLossy_iff {a : UInt8} (h : a < 0x80) (l : Bytes) :
    (decodeLossy l).head? = some (Char.ofNat a.toNat) ↔ l.head? = some a := by
  apply Iff.intro
  · intro hhead
    -- cut at the first `a`: nothing can stand in front of it
    have hmem := (ofNat_mem_decodeLossy_iff h l).mp (List.mem_of_head? hhead)
    rcases List.eq_append_cons_of_mem hmem with ⟨x, y, rfl, hx⟩
    cases hd : decodeLossy x with
    | nil =>
      rw [decodeLossy_eq_nil_iff.mp hd]
      rfl
    | cons c r =>
      rw [decodeLossy_append_ascii h, hd, List.cons_append, List.head?_cons,
        Option.some.injEq] at hhead
      exact absurd ((ofNat_mem_decodeLossy_iff h x).mp (by rw [hd, hhead]; simp)) hx
  · intro hhead
    rcases List.head?_eq_some_iff.mp hhead with ⟨r, rfl⟩
    rw [decodeLossy_cons_ascii h]
    rfl

-- an ASCII character in the decoded text stands for its byte
theorem decodeLossy_eq_append_cons {a : UInt8} (h : a < 0x80) {l : Bytes} {u v : Str}
    (heq : decodeLossy l = u ++ Char.ofNat a.toNat :: v) :
    ∃ p q, l = p ++ a :: q ∧ decodeLossy p = u ∧ decodeLossy q = v := by
  induction hn : l.length using Nat.strong_induction_on generalizing l u with
  | _ n ih =>
    have hmem : a ∈ l := by
      rw [← ofNat_mem_decodeLossy_iff h, heq]
      simp
    rcases List.eq_append_cons_of_mem hmem with ⟨p, q, rfl, hp⟩
    rw [decodeLossy_append_ascii h] at heq
    have hfresh : Char.ofNat a.toNat ∉ decodeLossy p := by
      rw [ofNat_mem_decodeLossy_iff h]
      exact hp
    rcases List.append_eq_append_iff.mp heq with ⟨w, rfl, hw⟩ | ⟨w, hw, hw'⟩
    · cases w with
      | nil =>
        rw [List.nil_append, List.cons.injEq] at hw
        exact ⟨p, q, rfl, by simp, hw.2⟩
      | cons c w =>
        -- it stands further right, behind the first one
        rw [List.cons_append, List.cons.injEq] at hw
        have hshort : q.length < n := by
          rw [← hn, List.length_append, List.length_cons]
          omega
        rcases ih q.length hshort hw.2 rfl with ⟨p', q', rfl, hp', hq'⟩
        refine ⟨p ++ a :: p', q', by simp, ?_, hq'⟩
        rw [decodeLossy_append_ascii h, hp', hw.1]
    · cases w with
      | nil =>
        rw [List.nil_append, List.cons.injEq] at hw'
        exact ⟨p, q, rfl, by rw [hw]; simp, hw'.2.symm⟩
      | cons c w =>
        rw [List.cons_append, List.cons.injEq] at hw'
        rw [hw, ← hw'.1] at hfresh
        simp at hfresh

/-- `String::from_utf8`: the text these bytes encode, if they encode one. -/
def decodeUtf8 (bytes : Bytes) : Option Str :=
  let text := decodeLossy bytes
  if encodeUtf8 text = bytes then some text else none

theorem decodeUtf8_encodeUtf8 (s : Str) : decodeUtf8 (encodeUtf8 s) = some s := by
  simp [decodeUtf8, decodeLossy_encodeUtf8]

theorem decodeUtf8_eq_some_iff {bytes : Bytes} {s : Str} :
    decodeUtf8 bytes = some s ↔ encodeUtf8 s = bytes := by
  apply Iff.intro
  · intro h
    unfold decodeUtf8 at h
    dsimp only at h
    split at h
    · rename_i hvalid
      rw [← Option.some.inj h]
      exact hvalid
    · cases h
  · rintro rfl
    exact decodeUtf8_encodeUtf8 s

theorem encodeUtf8_append (s t : Str) : encodeUtf8 (s ++ t) = encodeUtf8 s ++ encodeUtf8 t :=
  List.flatMap_append

theorem utf8EncodeChar_ascii {a : UInt8} (h : a < 0x80) :
    String.utf8EncodeChar (Char.ofNat a.toNat) = [a] := by
  have hall : ∀ n < 128, String.utf8EncodeChar (Char.ofNat n) = [n.toUInt8] := by
    decide
  rw [hall a.toNat (UInt8.lt_iff_toNat_lt.mp h)]
  simp

theorem encodeUtf8_intercalate {a : UInt8} (h : a < 0x80) (l : List Str) :
    encodeUtf8 ([Char.ofNat a.toNat].intercalate l) = [a].intercalate (l.map encodeUtf8) := by
  apply intercalate_map rfl
  intro x y
  have hsep : encodeUtf8 [Char.ofNat a.toNat] = [a] := by
    rw [encodeUtf8, List.flatMap_singleton, utf8EncodeChar_ascii h]
  rw [encodeUtf8_append, encodeUtf8_append, hsep]

theorem decodeLossy_intercalate_ascii {a : UInt8} (h : a < 0x80) (l : List Bytes) :
    decodeLossy ([a].intercalate l) = [Char.ofNat a.toNat].intercalate (l.map decodeLossy) := by
  apply intercalate_map rfl
  intro x y
  rw [List.append_assoc, List.singleton_append, decodeLossy_append_ascii h, List.append_assoc,
    List.singleton_append]

-- an ASCII separator cuts the bytes and the text at the same places
theorem splitOn_decodeLossy_ascii {a : UInt8} (h : a < 0x80) (l : Bytes) :
    (decodeLossy l).splitOn (Char.ofNat a.toNat) = (l.splitOn a).map decodeLossy := by
  have hl : [a].intercalate (l.splitOn a) = l := List.intercalate_splitOn a
  have hfree : ∀ s ∈ (l.splitOn a).map decodeLossy, Char.ofNat a.toNat ∉ s := by
    intro s hs
    obtain ⟨piece, hpiece, rfl⟩ := List.mem_map.mp hs
    rw [ofNat_mem_decodeLossy_iff h]
    exact not_mem_of_mem_splitOn hpiece
  conv_lhs => rw [← hl, decodeLossy_intercalate_ascii h]
  exact List.splitOn_intercalate _ hfree (by simp)

/-- The bytes of the leniently decoded text. -/
def recode (bytes : Bytes) : Bytes := encodeUtf8 (decodeLossy bytes)

theorem recode_eq_self_iff {bytes : Bytes} : recode bytes = bytes ↔ (decodeUtf8 bytes).isSome := by
  unfold recode decodeUtf8
  dsimp only
  split <;> simp_all

theorem mem_recode_iff {a : UInt8} (h : a < 0x80) (bytes : Bytes) :
    a ∈ recode bytes ↔ a ∈ bytes := by
  rw [← ofNat_mem_decodeLossy_iff h bytes]
  apply Iff.intro
  · intro hmem
    exact ofNat_mem_of_mem_encodeUtf8 (UInt8.lt_iff_toNat_lt.mp h) hmem
  · intro hmem
    have hchar : a ∈ String.utf8EncodeChar (Char.ofNat a.toNat) := by
      rw [utf8EncodeChar_ascii h]
      exact List.mem_singleton_self a
    exact List.mem_flatMap.mpr ⟨_, hmem, hchar⟩

theorem recode_append_ascii {a : UInt8} (h : a < 0x80) (l m : Bytes) :
    recode (l ++ a :: m) = recode l ++ a :: recode m := by
  unfold recode
  rw [decodeLossy_append_ascii h, encodeUtf8_append]
  congr 1
  rw [encodeUtf8, List.flatMap_cons, utf8EncodeChar_ascii h]
  rfl

/-! ## 4. The first blank line -/

theorem lf_not_mem_encodeUtf8 {s : Str} (h : '\n' ∉ s) : lf ∉ encodeUtf8 s :=
  fun hlf => h (ofNat_mem_of_mem_encodeUtf8 (by decide) hlf)

theorem not_crlf_of_lf {l : Bytes} (h : lf ∉ l) : ¬ [cr, lf] <:+: l :=
  fun hcrlf => h (hcrlf.subset (by simp))

theorem findSub_of_no_blank {w : Bytes} (h : ¬ crlf ++ crlf <:+: w ++ crlf) :
    findSub (crlf ++ crlf) (w ++ crlf ++ crlf) = some w.length := by
  have hassoc : w ++ crlf ++ crlf = w ++ (crlf ++ crlf ++ []) := by simp
  rw [hassoc]
  refine findSub_eq_some_of_first (by decide) fun u v huv => ?_
  have hpre : u ++ (crlf ++ crlf) <+: w ++ crlf ++ [cr] ++ [lf] :=
    ⟨v, by rw [List.append_assoc, ← huv]; simp [crlf]⟩
  rcases List.prefix_concat_iff.mp hpre with heq | hpre
  · have hlen := congrArg List.length heq
    simp [crlf] at hlen
    omega
  · rcases List.prefix_concat_iff.mp hpre with heq | hpre
    · have hlast := congrArg List.getLast? heq
      simp [crlf, cr, lf] at hlast
    · exact absurd ((List.suffix_append u _).isInfix.trans hpre.isInfix) h

-- a line in front, none of it broken, moves the first blank line by its length
theorem findSub_line {line raw : Bytes} (hline : lf ∉ line) (hraw : ¬ crlf <+: raw) :
    findSub (crlf ++ crlf) (line ++ crlf ++ raw) =
      (findSub (crlf ++ crlf) raw).map (· + (line.length + 2)) := by
  induction line with
  | nil =>
    have hfirst : ¬ crlf ++ crlf <+: cr :: lf :: raw := by
      rintro ⟨t, ht⟩
      exact hraw ⟨t, (List.cons.inj (List.cons.inj ht).2).2⟩
    have hsecond : ¬ crlf ++ crlf <+: lf :: raw := by
      rintro ⟨t, ht⟩
      exact absurd (List.cons.inj ht).1 (by decide)
    show findSub (crlf ++ crlf) (cr :: lf :: raw) = _
    rw [findSub, if_neg hfirst, findSub, if_neg hsecond, Option.map_map]
    rfl
  | cons a line ih =>
    -- a line feed would have to stand in second place
    have hfirst : ¬ crlf ++ crlf <+: a :: (line ++ crlf ++ raw) := by
      rintro ⟨t, ht⟩
      have hsecond := (List.cons.inj ht).2
      cases line with
      | nil => exact absurd (List.cons.inj hsecond).1 (by decide)
      | cons b line =>
        have hb : lf = b := (List.cons.inj hsecond).1
        exact hline (by rw [hb]; simp)
    have hrest : lf ∉ line := fun hm => hline (List.mem_cons_of_mem _ hm)
    rw [List.cons_append, List.cons_append, findSub, if_neg hfirst, ih hrest, Option.map_map]
    apply congrArg (Option.map · _)
    funext n
    show n + (line.length + 2) + 1 = n + (line.length + 1 + 2)
    omega

/-- Lines with something on them, none of them broken, have no blank line between them. -/
theorem not_blank_of_lines {bs : List Bytes}
    (h : ∀ b ∈ bs, lf ∉ b ∧ ∃ a rest, b = a :: rest ∧ a ≠ cr) :
    ¬ crlf ++ crlf <:+: bs.flatMap (· ++ crlf) := by
  induction bs with
  | nil => simp [crlf]
  | cons b bs ih =>
    rintro ⟨s, t, hst⟩
    have hb := h b List.mem_cons_self
    -- the line and its return hold no line feed
    have hline : lf ∉ b ++ [cr] := by
      rw [List.mem_append, not_or]
      exact ⟨hb.1, by decide⟩
    have hcut := splitOnce_append_cons (m := bs.flatMap (· ++ crlf)) hline
    have htext : (b :: bs).flatMap (· ++ crlf) = (b ++ [cr]) ++ lf :: bs.flatMap (· ++ crlf) := by
      simp [crlf]
    rw [htext] at hst
    by_cases hs : lf ∈ s
    · obtain ⟨u, v, rfl, hu⟩ := List.eq_append_cons_of_mem hs
      rw [← hst, show u ++ lf :: v ++ (crlf ++ crlf) ++ t = u ++ lf :: (v ++ (crlf ++ crlf) ++ t) by
        simp, splitOnce_append_cons hu, Option.some.injEq, Prod.mk.injEq] at hcut
      exact ih (fun b' hb' => h b' (List.mem_cons_of_mem _ hb')) ⟨v, t, hcut.2⟩
    · have hs' : lf ∉ s ++ [cr] := by
        rw [List.mem_append, not_or]
        exact ⟨hs, by decide⟩
      rw [← hst, show s ++ (crlf ++ crlf) ++ t = (s ++ [cr]) ++ lf :: (crlf ++ t) by simp [crlf],
        splitOnce_append_cons hs', Option.some.injEq, Prod.mk.injEq] at hcut
      -- what follows the line begins with the next one
      cases bs with
      | nil =>
        have hnil := hcut.2
        simp [crlf] at hnil
      | cons b' bs =>
        obtain ⟨-, a, rest, rfl, ha⟩ := h b' (by simp)
        have hhead := congrArg List.head? hcut.2
        simp [crlf] at hhead
        exact ha hhead.symm

/-! ## 5. Slices of bytes -/

theorem length_encodeUtf8_cons (c : Char) (s : Str) :
    (encodeUtf8 (c :: s)).length = c.utf8Size + (encodeUtf8 s).length := by
  unfold encodeUtf8
  rw [List.flatMap_cons, List.length_append, String.length_utf8EncodeChar]

theorem splitAtByte_eq_some_iff {n : Nat} {s u v : Str} :
    splitAtByte n s = some (u, v) ↔ s = u ++ v ∧ (encodeUtf8 u).length = n := by
  induction n, s using splitAtByte.induct generalizing u v with
  | case1 s =>
    rw [splitAtByte, Option.some.injEq, Prod.mk.injEq]
    constructor
    · rintro ⟨rfl, rfl⟩
      exact ⟨rfl, rfl⟩
    · rintro ⟨rfl, hlen⟩
      cases u with
      | nil => exact ⟨rfl, rfl⟩
      | cons c u =>
        have hpos := c.utf8Size_pos
        rw [length_encodeUtf8_cons] at hlen
        omega
  | case2 n =>
    rw [splitAtByte]
    constructor
    · intro h
      cases h
    · rintro ⟨hnil, hlen⟩
      rw [(List.nil_eq_append_iff.mp hnil).1] at hlen
      cases hlen
  | case3 n c s hle ih =>
    rw [splitAtByte, if_pos hle, Option.map_eq_some_iff]
    constructor
    · rintro ⟨⟨u', v'⟩, hsplit, heq⟩
      simp only [Prod.mk.injEq] at heq
      obtain ⟨rfl, rfl⟩ := heq
      obtain ⟨rfl, hlen⟩ := ih.mp hsplit
      rw [length_encodeUtf8_cons]
      exact ⟨rfl, by omega⟩
    · rintro ⟨heq, hlen⟩
      cases u with
      | nil => cases hlen
      | cons d u =>
        rw [List.cons_append, List.cons.injEq] at heq
        obtain ⟨rfl, rfl⟩ := heq
        rw [length_encodeUtf8_cons] at hlen
        exact ⟨(u, v), ih.mpr ⟨rfl, by omega⟩, rfl⟩
  | case4 n c s hgt =>
    rw [splitAtByte, if_neg hgt]
    constructor
    · intro h
      cases h
    · rintro ⟨heq, hlen⟩
      cases u with
      | nil => cases hlen
      | cons d u =>
        rw [List.cons_append, List.cons.injEq] at heq
        rw [length_encodeUtf8_cons, ← heq.1] at hlen
        omega

-- `u8::to_ascii_lowercase`
def lowerByte (b : UInt8) : UInt8 := if 0x41 ≤ b ∧ b ≤ 0x5A then b + 0x20 else b

theorem utf8EncodeChar_toLower (c : Char) :
    String.utf8EncodeChar c.toLower = (String.utf8EncodeChar c).map lowerByte := by
  by_cases hc : c.toNat < 128
  · have hall : ∀ n < 128, String.utf8EncodeChar (Char.ofNat n).toLower =
        (String.utf8EncodeChar (Char.ofNat n)).map lowerByte := by decide
    have h := hall c.toNat hc
    rwa [Char.ofNat_toNat] at h
  · -- neither the character nor any of its bytes is a letter
    have hlower : c.toLower = c := by
      apply toLower_of_not_isUpper
      rw [isUpper_iff]
      omega
    have hbytes : ∀ b ∈ String.utf8EncodeChar c, lowerByte b = b := by
      intro b hb
      unfold lowerByte
      rw [if_neg]
      rintro ⟨-, hz⟩
      have hle : b.toNat ≤ 90 := UInt8.le_iff_toNat_le.mp hz
      have heq := congrArg Char.toNat (eq_of_mem_utf8EncodeChar (by omega) hb)
      rw [toNat_ofNat_valid (by omega)] at heq
      omega
    rw [hlower]
    exact ((List.map_congr_left hbytes).trans (List.map_id _)).symm

theorem encodeUtf8_toAsciiLowercase (s : Str) :
    encodeUtf8 (toAsciiLowercase s) = (encodeUtf8 s).map lowerByte := by
  unfold encodeUtf8 toAsciiLowercase
  rw [List.flatMap_map, List.map_flatMap]
  exact congrArg (fun f => s.flatMap f) (funext utf8EncodeChar_toLower)

theorem eqIgnoreAsciiCase_iff_bytes {s t : Str} :
    eqIgnoreAsciiCase s t = true ↔
      (encodeUtf8 s).map lowerByte = (encodeUtf8 t).map lowerByte := by
  unfold eqIgnoreAsciiCase
  rw [beq_iff_eq, ← encodeUtf8_injective.eq_iff, encodeUtf8_toAsciiLowercase,
    encodeUtf8_toAsciiLowercase]

theorem length_encodeUtf8_of_ignoreCase {s t : Str} (h : eqIgnoreAsciiCase s t = true) :
    (encodeUtf8 s).length = (encodeUtf8 t).length := by
  have hmap := congrArg List.length (eqIgnoreAsciiCase_iff_bytes.mp h)
  rwa [List.length_map, List.length_map] at hmap

-- position `n` is not inside a character of `s`
def CharBoundary (n : Nat) (s : Str) : Prop := ∃ u v, s = u ++ v ∧ (encodeUtf8 u).length = n

theorem splitAtByte_eq_none_iff {n : Nat} {s : Str} :
    splitAtByte n s = none ↔ ¬ CharBoundary n s := by
  rw [Option.eq_none_iff_forall_ne_some]
  unfold CharBoundary
  push Not
  constructor
  · intro h u v heq hlen
    exact h (u, v) (splitAtByte_eq_some_iff.mpr ⟨heq, hlen⟩)
  · rintro h ⟨u, v⟩ hsplit
    obtain ⟨heq, hlen⟩ := splitAtByte_eq_some_iff.mp hsplit
    exact h u v heq hlen

end Snail.Reasoning
