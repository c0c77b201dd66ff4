import Snail.Network.Spf.Semantics

/-!
# Networks — the mask against the leading bits

`cidr4` and `cidr6` are one function at two widths.  At every length that `parse_prefix` accepts the
mask keeps the leading bits, and no shift is as wide as the word.
-/

open Snail.Reasoning

namespace Snail.Network.Spf

/-! ## 1. Leading bits -/

theorem div_eq_iff_getMsbD {w len : Nat} (hlen : len ≤ w) (x y : BitVec w) :
    x.toNat / 2 ^ (w - len) = y.toNat / 2 ^ (w - len) ↔
      ∀ i < len, x.getMsbD i = y.getMsbD i := by
  rw [← Nat.shiftRight_eq_div_pow, ← Nat.shiftRight_eq_div_pow, ← BitVec.toNat_ushiftRight,
    ← BitVec.toNat_ushiftRight, BitVec.toNat_inj]
  constructor
  · intro h i hi
    have hbit := congrArg (fun z => z.getMsbD (i + (w - len))) h
    have hin : i + (w - len) < w := by omega
    have hout : ¬ i + (w - len) < w - len := by omega
    simpa [BitVec.getMsbD_ushiftRight, hin, hout] using hbit
  · intro h
    refine BitVec.eq_of_getMsbD_eq fun i hi => ?_
    rw [BitVec.getMsbD_ushiftRight, BitVec.getMsbD_ushiftRight]
    by_cases hlow : i < w - len
    · simp only [hlow, decide_true, Bool.not_true, Bool.false_and, Bool.and_false]
    · rw [h (i - (w - len)) (by omega)]

section
variable {w len : Nat}

theorem sameBits_iff_getMsbD (hlen : len ≤ w) {net ip : BitVec w} :
    SameBits net len ip ↔ ∀ i < len, net.getMsbD i = ip.getMsbD i := by
  unfold SameBits
  rw [and_iff_right hlen, div_eq_iff_getMsbD hlen]

theorem sameBits_equivalence (hlen : len ≤ w) :
    Equivalence fun net ip : BitVec w => SameBits net len ip :=
  ⟨fun _ => ⟨hlen, rfl⟩, fun h => ⟨hlen, h.2.symm⟩, fun h h' => ⟨hlen, h.2.trans h'.2⟩⟩

theorem SameBits.shorter {net ip : BitVec w} (h : SameBits net len ip) {m : Nat} (hm : m ≤ len) :
    SameBits net m ip := by
  rw [sameBits_iff_getMsbD (hm.trans h.1)]
  intro i hi
  exact (sameBits_iff_getMsbD h.1).mp h i (by omega)

end

/-! ## 2. Checked arithmetic -/

-- `a - b` and `x << k`, which panic outside their ranges
def sub? (a b : Nat) : Option Nat := if b ≤ a then some (a - b) else none

def shl? {w : Nat} (x : BitVec w) (k : Nat) : Option (BitVec w) :=
  if k < w then some (x <<< k) else none

/-- `cidr4` and `cidr6` with their arithmetic checked. -/
def checkedCidr {w : Nat} (net : BitVec w) (len : Nat) (ip : BitVec w) : Option Bool :=
  if len = 0 then some true
  else if len > w then some false
  else do
    let mask ← shl? (BitVec.allOnes w) (← sub? w len)
    return net &&& mask == ip &&& mask

theorem checkedCidr_eq {w : Nat} (net : BitVec w) (len : Nat) (ip : BitVec w) :
    checkedCidr net len ip = some (
      if len = 0 then true
      else if len > w then false
      else net &&& (BitVec.allOnes w <<< (w - len)) ==
        ip &&& (BitVec.allOnes w <<< (w - len))) := by
  unfold checkedCidr
  by_cases hzero : len = 0
  · rw [if_pos hzero, if_pos hzero]
  rw [if_neg hzero, if_neg hzero]
  by_cases hbig : len > w
  · rw [if_pos hbig, if_pos hbig]
  rw [if_neg hbig, if_neg hbig]
  have hsub : sub? w len = some (w - len) := if_pos (by omega)
  have hshl : shl? (BitVec.allOnes w) (w - len) = some (BitVec.allOnes w <<< (w - len)) :=
    if_pos (by omega)
  rw [hsub, Option.bind_eq_bind, Option.bind_some, hshl]
  rfl

/-! ## 3. Accepted lengths -/

/-- What membership in a network of length `len` is. -/
structure PrefixAgreement {w : Nat} (cidr : BitVec w → Nat → BitVec w → Bool) (len : Nat) :
    Prop where
  bits : ∀ net ip, cidr net len ip = true ↔ ∀ i < len, net.getMsbD i = ip.getMsbD i
  quotients : ∀ net ip, cidr net len ip = true ↔
    net.toNat / 2 ^ (w - len) = ip.toNat / 2 ^ (w - len)
  checked : ∀ net ip, checkedCidr net len ip = some (cidr net len ip)
  equivalence : Equivalence fun net ip => cidr net len ip = true
  shorter : ∀ m ≤ len, ∀ net ip, cidr net len ip = true → cidr net m ip = true

theorem prefixAgreement {w len : Nat} {cidr : BitVec w → Nat → BitVec w → Bool}
    (hcidr : ∀ net len ip, cidr net len ip = true ↔ SameBits net len ip)
    (hchecked : ∀ net ip, checkedCidr net len ip = some (cidr net len ip)) (hlen : len ≤ w) :
    PrefixAgreement cidr len where
  bits net ip := by rw [hcidr, sameBits_iff_getMsbD hlen]
  quotients net ip := by
    rw [hcidr]
    exact and_iff_right hlen
  checked := hchecked
  equivalence := by
    simp only [hcidr]
    exact sameBits_equivalence hlen
  shorter m hm net ip h := (hcidr net m ip).mpr (((hcidr net len ip).mp h).shorter hm)

theorem le_of_parsePrefix {p : Str} {max n : Nat} (h : parsePrefix p max = .ok n) : n ≤ max := by
  unfold parsePrefix at h
  split at h
  · cases h
  split at h
  · cases h
  · cases h
    omega

theorem accepted_lengths_agree (p : Str) (n : Nat) :
    (parsePrefix p 32 = .ok n → PrefixAgreement cidr4 n) ∧
      (parsePrefix p 128 = .ok n → PrefixAgreement cidr6 n) := by
  constructor
  · intro h
    exact prefixAgreement cidr4_iff (fun net ip => checkedCidr_eq net n ip) (le_of_parsePrefix h)
  · intro h
    exact prefixAgreement cidr6_iff (fun net ip => checkedCidr_eq net n ip) (le_of_parsePrefix h)

-- 192.168.1.0/24
theorem accepted_lengths_agree_private :
    parsePrefix "24".toList 32 = .ok 24 ∧ cidr4 0xC0A80100 24 0xC0A801FF = true ∧
      parsePrefix "7".toList 128 = .ok 7 ∧ cidr6 (0xFC <<< 120) 7 (0xFD <<< 120) = true := by
  have h4 : parsePrefix "24".toList 32 = .ok 24 := by decide
  have h6 : parsePrefix "7".toList 128 = .ok 7 := by decide
  refine ⟨h4, ?_, h6, ?_⟩
  · exact (((accepted_lengths_agree _ 24).1 h4).quotients _ _).mpr (by decide)
  · exact (((accepted_lengths_agree _ 7).2 h6).quotients _ _).mpr (by decide)

end Snail.Network.Spf
