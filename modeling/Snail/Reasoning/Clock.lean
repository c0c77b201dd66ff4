import Mathlib.Data.Int.Order.Basic

/-!
# Clock — points in time

`std::time::SystemTime` as the platform keeps it: whole seconds since the Unix epoch in 64 signed
bits, and the nanoseconds within the second.
-/

namespace Snail.Reasoning

structure SystemTime where
  secs : Int
  nanos : Nat
  secs_ge : -0x8000000000000000 ≤ secs
  secs_lt : secs < 0x8000000000000000
  nanos_lt : nanos < 1000000000
  deriving DecidableEq

-- a whole second
theorem SystemTime.zero_nanos_lt : 0 < 1000000000 := by decide

def SystemTime.unixEpoch : SystemTime := ⟨0, 0, by omega, by omega, zero_nanos_lt⟩

/-- `UNIX_EPOCH + Duration::from_secs(secs)`; the addition panics past the last representable
second. -/
def SystemTime.ofEpochSecs? (secs : Nat) : Option SystemTime :=
  if h : secs < 0x8000000000000000 then
    some ⟨secs, 0, by omega, by omega, zero_nanos_lt⟩
  else none

/-- `duration_since(UNIX_EPOCH).map(as_secs).unwrap_or(0)`: whole seconds, zero before the epoch. -/
def SystemTime.toSecs (t : SystemTime) : Nat := t.secs.toNat

/-- `duration_since(UNIX_EPOCH).map(subsec_nanos).unwrap_or(0)`. -/
def SystemTime.subsecNanos (t : SystemTime) : Nat := if 0 ≤ t.secs then t.nanos else 0

-- the start of the second `t` lies in
def SystemTime.truncate (t : SystemTime) : SystemTime :=
  { t with nanos := 0, nanos_lt := zero_nanos_lt }

/-- `t ≤ u`. -/
def SystemTime.le (t u : SystemTime) : Bool :=
  t.secs < u.secs || (t.secs == u.secs && t.nanos ≤ u.nanos)

-- `t < u`
def SystemTime.lt (t u : SystemTime) : Bool := !u.le t

-- nanoseconds
abbrev Duration := Nat

def Duration.fromSecs (secs : Nat) : Duration := secs * 1000000000

def SystemTime.checkedAdd (t : SystemTime) (d : Duration) : Option SystemTime :=
  let total := t.nanos + d
  if h : t.secs + (total / 1000000000 : Nat) < 0x8000000000000000 then
    some ⟨t.secs + (total / 1000000000 : Nat), total % 1000000000,
      by have := t.secs_ge; omega, h, Nat.mod_lt _ (by decide)⟩
  else none

-- `duration_since`, which fails for a point in time that lies ahead
def SystemTime.durationSince (t earlier : SystemTime) : Option Duration :=
  if earlier.le t then
    some ((t.secs - earlier.secs).toNat * 1000000000 + t.nanos - earlier.nanos)
  else none

-- reading back the seconds of a point in time truncates it, from the epoch on
theorem SystemTime.ofEpochSecs?_toSecs (t : SystemTime) :
    ofEpochSecs? t.toSecs = some t.truncate ↔ 0 ≤ t.secs := by
  have hlt : t.toSecs < 0x8000000000000000 := by
    have h := t.secs_lt
    unfold toSecs
    omega
  unfold ofEpochSecs?
  rw [dif_pos hlt]
  unfold truncate
  rw [Option.some.injEq, SystemTime.mk.injEq]
  unfold toSecs
  omega

/-! ## On a line -/

-- nanoseconds since the epoch
def SystemTime.sinceEpoch (t : SystemTime) : Int := t.secs * 1000000000 + t.nanos

theorem SystemTime.le_iff {t u : SystemTime} : t.le u = true ↔ t.sinceEpoch ≤ u.sinceEpoch := by
  have ht := t.nanos_lt
  have hu := u.nanos_lt
  unfold le sinceEpoch
  rw [Bool.or_eq_true, Bool.and_eq_true, decide_eq_true_iff, decide_eq_true_iff, beq_iff_eq]
  omega

theorem SystemTime.lt_iff {t u : SystemTime} : t.lt u = true ↔ t.sinceEpoch < u.sinceEpoch := by
  unfold lt
  rw [Bool.not_eq_true', ← Bool.not_eq_true, le_iff, not_le]

theorem SystemTime.sinceEpoch_checkedAdd {t u : SystemTime} {d : Duration}
    (h : t.checkedAdd d = some u) : u.sinceEpoch = t.sinceEpoch + d := by
  unfold checkedAdd at h
  dsimp only at h
  split at h
  · cases h
    unfold sinceEpoch
    dsimp only
    omega
  · cases h

-- the last nanosecond is that of the greatest second
theorem SystemTime.checkedAdd_isSome_iff {t : SystemTime} {d : Duration} :
    (t.checkedAdd d).isSome ↔
      t.sinceEpoch + (d : Int) < 0x8000000000000000 * 1000000000 := by
  unfold checkedAdd sinceEpoch
  dsimp only
  split
  · rename_i h
    simp only [Option.isSome_some, true_iff]
    omega
  · rename_i h
    simp only [Option.isSome_none, Bool.false_eq_true, false_iff]
    omega

theorem SystemTime.checkedAdd_eq_none_of_le {t u : SystemTime} {d : Duration}
    (h : t.checkedAdd d = none) (hle : t.sinceEpoch ≤ u.sinceEpoch) : u.checkedAdd d = none := by
  rw [← Option.not_isSome_iff_eq_none, checkedAdd_isSome_iff] at h ⊢
  omega

theorem SystemTime.durationSince_any_le {t earlier : SystemTime} {d : Duration}
    (h : earlier.sinceEpoch ≤ t.sinceEpoch) :
    ((t.durationSince earlier).any fun waited => decide (d ≤ waited)) = true ↔
      earlier.sinceEpoch + (d : Int) ≤ t.sinceEpoch := by
  unfold durationSince
  rw [if_pos (le_iff.mpr h), Option.any_some, decide_eq_true_iff]
  have ht := t.nanos_lt
  have he := earlier.nanos_lt
  unfold sinceEpoch at h ⊢
  change @LE.le Nat _ d ((t.secs - earlier.secs).toNat * 1000000000 + t.nanos - earlier.nanos) ↔ _
  omega

end Snail.Reasoning
