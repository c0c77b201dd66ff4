import Mathlib.Data.Char
import Mathlib.Data.List.Lex
import Snail.Reasoning.Digits
import Snail.Server.RetryQueue

/-!
# SpoolIds — the order of the queue ids

`new_id` prints the clock and the counter of the process, each zero-padded.  Twenty digits hold
every clock reading until the year 5138; six hold the counter up to the millionth call.
-/

open Snail.Reasoning

namespace Snail.Server

/-! ## 1. Drawing ids -/

-- the part of the spool that `new_id` uses
structure OutboundSpool where
  counter : UInt64

-- a spool as `open` leaves it
def OutboundSpool.opened : OutboundSpool := ⟨0⟩

-- `duration_since(UNIX_EPOCH).unwrap_or_default().as_nanos()`
def clockNanos (now : SystemTime) : Nat := (now.durationSince .unixEpoch).getD 0

/-- `OutboundSpool::new_id` at a clock reading; `fetch_add` wraps. -/
def OutboundSpool.newId (spool : OutboundSpool) (now : SystemTime) : Str × OutboundSpool :=
  (Server.newId (clockNanos now) spool.counter.toNat, ⟨spool.counter + 1⟩)

def OutboundSpool.newIds (spool : OutboundSpool) : List SystemTime → List Str
  | [] => []
  | now :: rest => (spool.newId now).1 :: (spool.newId now).2.newIds rest

theorem OutboundSpool.length_newIds (spool : OutboundSpool) (readings : List SystemTime) :
    (spool.newIds readings).length = readings.length := by
  induction readings generalizing spool with
  | nil => rfl
  | cons now rest ih => rw [newIds, List.length_cons, List.length_cons, ih]

theorem OutboundSpool.getElem?_newIds (spool : OutboundSpool) (readings : List SystemTime)
    (n : Nat) : (spool.newIds readings)[n]? = readings[n]?.map fun now =>
      Server.newId (clockNanos now) ((spool.counter.toNat + n) % 2 ^ 64) := by
  induction readings generalizing spool n with
  | nil => rfl
  | cons now rest ih =>
    rw [newIds]
    cases n with
    | zero =>
      rw [List.getElem?_cons_zero, List.getElem?_cons_zero, Nat.add_zero,
        Nat.mod_eq_of_lt spool.counter.toNat_lt]
      rfl
    | succ n =>
      have hcounter : ((spool.newId now).2.counter.toNat + n) % 2 ^ 64 =
          (spool.counter.toNat + (n + 1)) % 2 ^ 64 := by
        change ((spool.counter + 1).toNat + n) % 2 ^ 64 = _
        rw [UInt64.toNat_add]
        change ((spool.counter.toNat + 1) % 2 ^ 64 + n) % 2 ^ 64 = _
        omega
      rw [List.getElem?_cons_succ, List.getElem?_cons_succ, ih, hcounter]

theorem clockNanos_eq (now : SystemTime) : clockNanos now = now.sinceEpoch.toNat := by
  have hnanos := now.nanos_lt
  have hle : SystemTime.unixEpoch.le now = true ↔ 0 ≤ now.sinceEpoch := SystemTime.le_iff
  unfold clockNanos SystemTime.durationSince
  unfold SystemTime.sinceEpoch at hle ⊢
  by_cases h : SystemTime.unixEpoch.le now = true
  · have hpos := hle.mp h
    rw [if_pos h, Option.getD_some]
    change (now.secs - 0).toNat * 1000000000 + now.nanos - 0 = _
    omega
  · have hneg := mt hle.mpr h
    rw [if_neg h, Option.getD_none]
    omega

/-! ## 2. Two ids in a row -/

/-- The counter wraps, or needs a digit more than the padding and all numbers before it. -/
def Rollover (n : Nat) : Prop := n % 2 ^ 64 = 0 ∨ ∃ k, 6 ≤ k ∧ n % 2 ^ 64 = 10 ^ k

theorem showNatPadded_rollover {k : Nat} (hk : 6 ≤ k) (hlt : 10 ^ k < 2 ^ 64) :
    ¬ showNatPadded 6 (10 ^ k - 1) < showNatPadded 6 (10 ^ k) := by
  have hk' : k < 20 := by
    by_contra hge
    have hle : 10 ^ 20 ≤ 10 ^ k := Nat.pow_le_pow_right (by decide) (by omega)
    omega
  have hall : ∀ k < 20, 6 ≤ k →
      ¬ showNatPadded 6 (10 ^ k - 1) < showNatPadded 6 (10 ^ k) := by decide +kernel
  exact hall k hk' hk

theorem showNatPadded_wrap : ¬ showNatPadded 6 (2 ^ 64 - 1) < showNatPadded 6 0 := by
  decide +kernel

theorem showNatPadded_next_iff (n : Nat) :
    showNatPadded 6 (n % 2 ^ 64) < showNatPadded 6 ((n + 1) % 2 ^ 64) ↔ ¬ Rollover (n + 1) := by
  have hwrap : n % 2 ^ 64 + 1 < 2 ^ 64 ∧ (n + 1) % 2 ^ 64 = n % 2 ^ 64 + 1 ∨
      n % 2 ^ 64 = 2 ^ 64 - 1 ∧ (n + 1) % 2 ^ 64 = 0 := by omega
  unfold Rollover
  rcases hwrap with ⟨hlt, hnext⟩ | ⟨hlast, hnext⟩
  · rw [hnext]
    by_cases hpower : ∃ k, 6 ≤ k ∧ n % 2 ^ 64 + 1 = 10 ^ k
    · obtain ⟨k, hk, heq⟩ := hpower
      have hnot := showNatPadded_rollover hk (heq ▸ hlt)
      rw [← heq, Nat.add_sub_cancel] at hnot
      exact iff_of_false hnot fun hnone => hnone (.inr ⟨k, hk, heq⟩)
    · have hlen := length_showNatPadded_succ (w := 6) (by decide)
        fun k hk heq => hpower ⟨k, hk, heq⟩
      refine iff_of_true ((showNatPadded_lt_iff hlen).mpr (Nat.lt_succ_self _)) ?_
      rintro (hzero | hsome)
      · omega
      · exact hpower hsome
  · rw [hnext, hlast]
    exact iff_of_false showNatPadded_wrap fun hnone => hnone (.inl rfl)

theorem newId_lt_iff {a b s s' : Nat} (hab : a ≤ b) (hb : b < 10 ^ 20) :
    newId a s < newId b s' ↔ a < b ∨ a = b ∧ showNatPadded 6 s < showNatPadded 6 s' := by
  have hlen : (showNatPadded 20 a).length = (showNatPadded 20 b).length := by
    rw [length_showNatPadded_of_lt (by decide) (hab.trans_lt hb),
      length_showNatPadded_of_lt (by decide) hb]
  have hdash : ∀ {u v : Str}, '-' :: u < '-' :: v ↔ u < v := by
    intro u v
    have hirrefl : ¬ '-' < '-' := by decide
    rw [List.cons_lt_cons_iff, or_iff_right hirrefl, and_iff_right rfl]
  unfold newId
  rw [append_lt_append_iff hlen, showNatPadded_lt_iff hlen, (showNatPadded_injective 20).eq_iff,
    hdash]

theorem ascii_newId {a s : Nat} : ∀ c ∈ newId a s, c.toNat < 128 := by
  have hdigit : ∀ {c : Char}, c.isDigit → c.toNat < 128 := by
    intro c hc
    have hrange := digit_range hc
    omega
  intro c hc
  rcases List.mem_append.mp hc with h | h
  · exact hdigit (isDigit_of_mem_showNatPadded h)
  · rcases List.mem_cons.mp h with rfl | h
    · decide
    · exact hdigit (isDigit_of_mem_showNatPadded h)

/-! ## 3. All ids of a process -/

section
variable {readings : List SystemTime}

theorem newId_next_lt_iff {t u : SystemTime} (htu : t.le u = true) (hu : u.sinceEpoch < 10 ^ 20)
    (n : Nat) :
    newId (clockNanos t) (n % 2 ^ 64) < newId (clockNanos u) ((n + 1) % 2 ^ 64) ↔
      (Rollover (n + 1) → t.lt u = true ∧ SystemTime.unixEpoch.lt u = true) := by
  have hepoch : SystemTime.unixEpoch.sinceEpoch = 0 := rfl
  rw [SystemTime.le_iff] at htu
  rw [newId_lt_iff (by rw [clockNanos_eq, clockNanos_eq]; omega) (by rw [clockNanos_eq]; omega),
    showNatPadded_next_iff, SystemTime.lt_iff, SystemTime.lt_iff, hepoch, clockNanos_eq,
    clockNanos_eq]
  by_cases hroll : Rollover (n + 1)
  · simp only [hroll, not_true_eq_false, and_false, or_false, forall_const]
    omega
  · simp only [hroll, not_false_eq_true, and_true, false_imp_iff, iff_true]
    omega

theorem chain_newIds_iff (hmono : readings.Pairwise fun t u => t.le u = true)
    (hsmall : ∀ t ∈ readings, t.sinceEpoch < 10 ^ 20) :
    (OutboundSpool.opened.newIds readings).IsChain (· < ·) ↔
      ∀ n t u, readings[n]? = some t → readings[n + 1]? = some u → Rollover (n + 1) →
        t.lt u = true ∧ SystemTime.unixEpoch.lt u = true := by
  have hids : ∀ {n : Nat} {t : SystemTime}, readings[n]? = some t →
      (OutboundSpool.opened.newIds readings)[n]? = some (newId (clockNanos t) (n % 2 ^ 64)) := by
    intro n t ht
    have hzero : OutboundSpool.opened.counter.toNat = 0 := rfl
    rw [OutboundSpool.getElem?_newIds, ht, hzero, Nat.zero_add]
    rfl
  have hstep : ∀ {n : Nat} {t u : SystemTime}, readings[n]? = some t →
      readings[n + 1]? = some u →
      (newId (clockNanos t) (n % 2 ^ 64) < newId (clockNanos u) ((n + 1) % 2 ^ 64) ↔
        (Rollover (n + 1) → t.lt u = true ∧ SystemTime.unixEpoch.lt u = true)) := by
    intro n t u ht hu
    obtain ⟨hn, rfl⟩ := List.getElem?_eq_some_iff.mp ht
    obtain ⟨hn', rfl⟩ := List.getElem?_eq_some_iff.mp hu
    exact newId_next_lt_iff (List.pairwise_iff_getElem.mp hmono n (n + 1) hn hn' (by omega))
      (hsmall _ (List.getElem_mem hn')) n
  rw [List.isChain_iff_getElem]
  constructor
  · intro h n t u ht hu
    obtain ⟨hn', hid'⟩ := List.getElem?_eq_some_iff.mp (hids hu)
    obtain ⟨hn, hid⟩ := List.getElem?_eq_some_iff.mp (hids ht)
    have hlt := h n hn'
    rw [hid, hid'] at hlt
    exact (hstep ht hu).mp hlt
  · intro h n hn
    have hlen : n + 1 < readings.length := by
      rwa [OutboundSpool.length_newIds] at hn
    have ht := List.getElem?_eq_getElem (Nat.lt_of_succ_lt hlen)
    have hu := List.getElem?_eq_getElem hlen
    obtain ⟨_, hid⟩ := List.getElem?_eq_some_iff.mp (hids ht)
    obtain ⟨_, hid'⟩ := List.getElem?_eq_some_iff.mp (hids hu)
    rw [hid, hid']
    exact (hstep ht hu).mpr (h n _ _ ht hu)

theorem pairwise_bytes_newIds_iff (spool : OutboundSpool) :
    (spool.newIds readings).Pairwise (fun a b => encodeUtf8 a < encodeUtf8 b) ↔
      (spool.newIds readings).IsChain (· < ·) := by
  have hascii : ∀ id ∈ spool.newIds readings, ∀ c ∈ id, c.toNat < 128 := by
    intro id hid
    obtain ⟨n, hn⟩ := List.mem_iff_getElem?.mp hid
    rw [spool.getElem?_newIds, Option.map_eq_some_iff] at hn
    obtain ⟨now, -, rfl⟩ := hn
    exact ascii_newId
  rw [List.isChain_iff_pairwise]
  constructor
  · intro h
    exact h.imp_of_mem fun ha hb hlt => (encodeUtf8_lt_iff (hascii _ ha) (hascii _ hb)).mp hlt
  · intro h
    exact h.imp_of_mem fun ha hb hlt => (encodeUtf8_lt_iff (hascii _ ha) (hascii _ hb)).mpr hlt

/-! ## 4. The listing -/

theorem sorted_ids_dueNow {d : Disk} {now : SystemTime} {due : List SpoolEntry}
    (h : dueNow d now = .ok due) : (due.map SpoolEntry.id).Pairwise (· ≤ ·) := by
  obtain ⟨found, hfound, rfl⟩ := map_eq_ok_iff.mp h
  rw [List.pairwise_map]
  have hsorted := @List.pairwise_mergeSort _ (fun a b : SpoolEntry => decide ¬ b.id < a.id) ?_ ?_
    found
  · exact hsorted.imp fun hab => not_lt.mp (of_decide_eq_true hab)
  · intro a b c hab hbc
    rw [decide_eq_true_iff, not_lt] at hab hbc ⊢
    exact hab.trans hbc
  · intro a b
    rw [Bool.or_eq_true, decide_eq_true_iff, decide_eq_true_iff, not_lt, not_lt]
    exact le_total a.id b.id

theorem due_in_creation_order {ids : List Str} (hids : ids.Pairwise (· < ·)) {d : Disk}
    {now : SystemTime} {due : List SpoolEntry} (h : dueNow d now = .ok due) :
    ((due.map SpoolEntry.id).filter (· ∈ ids)).Sublist ids := by
  have hsub : (due.map SpoolEntry.id).filter (· ∈ ids) ⊆ ids := by
    intro id hid
    exact of_decide_eq_true (List.mem_filter.mp hid).2
  have hsubperm := ((nodup_ids_dueNow h).filter _).subperm hsub
  exact List.sublist_of_subperm_of_pairwise hsubperm ((sorted_ids_dueNow h).filter _)
    (hids.imp le_of_lt)

theorem ids_in_creation_order_iff (readings : List SystemTime)
    (hmono : readings.Pairwise fun t u => t.le u = true)
    (hsmall : ∀ t ∈ readings, t.sinceEpoch < 10 ^ 20) :
    ((OutboundSpool.opened.newIds readings).Nodup ∧
      (OutboundSpool.opened.newIds readings).Pairwise
        (fun a b => encodeUtf8 a < encodeUtf8 b) ∧
      ∀ d now due, dueNow d now = .ok due →
        ((due.map SpoolEntry.id).filter (· ∈ OutboundSpool.opened.newIds readings)).Sublist
          (OutboundSpool.opened.newIds readings)) ↔
      ∀ n t u, readings[n]? = some t → readings[n + 1]? = some u → Rollover (n + 1) →
        t.lt u = true ∧ SystemTime.unixEpoch.lt u = true := by
  rw [← chain_newIds_iff hmono hsmall, ← pairwise_bytes_newIds_iff]
  constructor
  · rintro ⟨-, hbytes, -⟩
    exact hbytes
  · intro hbytes
    have hsorted := List.isChain_iff_pairwise.mp
      ((pairwise_bytes_newIds_iff OutboundSpool.opened).mp hbytes)
    refine ⟨hsorted.imp fun hlt => hlt.ne, hbytes, ?_⟩
    intro d now due hdue
    exact due_in_creation_order hsorted hdue

end

theorem ids_in_creation_order_iff_two :
    (OutboundSpool.opened.newIds [.unixEpoch, .unixEpoch]).Pairwise
      (fun a b => encodeUtf8 a < encodeUtf8 b) := by
  refine ((ids_in_creation_order_iff [.unixEpoch, .unixEpoch] (by decide) (by decide)).mpr ?_).2.1
  intro n t u _ hu hroll
  obtain ⟨hn, -⟩ := List.getElem?_eq_some_iff.mp hu
  have hzero : n = 0 := by
    rw [List.length_cons, List.length_singleton] at hn
    omega
  subst hzero
  rcases hroll with h | ⟨k, hk, h⟩
  · cases h
  · have hle : 10 ^ 6 ≤ 10 ^ k := Nat.pow_le_pow_right (by decide) hk
    omega

-- the last id with six digits, then the first with seven, at one clock reading
def millionth : Str := newId 0 999999
def afterMillionth : Str := newId 0 1000000

def millionQueued : Disk :=
  runSteps (enqueueSteps millionth shortMessage .unixEpoch ++
    enqueueSteps afterMillionth shortMessage .unixEpoch) ∅

def queuedEntry (id : Str) : SpoolEntry :=
  ⟨id, none, [⟨"b".toList, "y".toList⟩], 0, .unixEpoch, .unixEpoch⟩

theorem dueNow_millionQueued :
    dueNow millionQueued .unixEpoch =
      .ok [queuedEntry afterMillionth, queuedEntry millionth] := by
  have hloop : dueLoop millionQueued .unixEpoch (idsOf .ctrl millionQueued) =
      .ok [queuedEntry afterMillionth, queuedEntry millionth] := by decide +kernel
  unfold dueNow
  rw [hloop, Except.map]
  refine congrArg Except.ok (List.mergeSort_of_pairwise ?_)
  decide +kernel

theorem afterMillionth_sorts_first :
    (OutboundSpool.opened.newIds (List.replicate 1000001 .unixEpoch))[999999]? = some millionth ∧
      (OutboundSpool.opened.newIds (List.replicate 1000001 .unixEpoch))[1000000]? =
        some afterMillionth ∧
      encodeUtf8 afterMillionth < encodeUtf8 millionth ∧
      dueNow millionQueued .unixEpoch =
        .ok [queuedEntry afterMillionth, queuedEntry millionth] := by
  refine ⟨?_, ?_, by decide +kernel, dueNow_millionQueued⟩
  · rw [OutboundSpool.getElem?_newIds, List.getElem?_replicate, if_pos (by decide)]
    rfl
  · rw [OutboundSpool.getElem?_newIds, List.getElem?_replicate, if_pos (by decide)]
    rfl

end Snail.Server
