import Mathlib.Data.Finset.Insert
import Snail.Reasoning.Retain
import Snail.Reasoning.Recent
import Snail.Security.Audit

/-!
# Firewall — who may connect to the public port

`crates/security/src/firewall`: the lists of addresses, the rate limiter, the count of attempts by
address, the trace of decisions and the pause switch, composed into one gate.  The rate limiter is
that of the `governor` crate and a parameter here.
-/

open Snail.Reasoning

namespace Snail.Security

/-! ## 1. Decisions and their trace -/

inductive DenyReason where
  | blocklisted
  | rateLimited
  deriving DecidableEq, Repr

inductive Decision where
  | allow
  | deny (reason : DenyReason)
  deriving DecidableEq, Repr

abbrev DecisionTrace := Recent (IpAddr × Decision)

def DecisionTrace.new (capacity : Nat) : DecisionTrace := Recent.new capacity

def DecisionTrace.record (t : DecisionTrace) (ip : IpAddr) (decision : Decision) : DecisionTrace :=
  Recent.push t (ip, decision)

/-! ## 2. Attempts by address -/

-- a reading of the monotonic clock, in nanoseconds
abbrev Instant := Nat

structure AttemptRecord where
  attempts : Nat
  lastSeen : Instant
  deriving DecidableEq, Repr

structure ConnectionTracker where
  records : AList fun _ : IpAddr => AttemptRecord
  idleTtl : Duration
  maxTracked : Nat
  sincePrune : Nat

def pruneInterval : Nat := 1024

def ConnectionTracker.withLimits (idleTtl : Duration) (maxTracked : Nat) : ConnectionTracker :=
  ⟨∅, idleTtl, maxTracked, 0⟩

-- `saturating_duration_since` is zero for an instant that lies ahead
def ConnectionTracker.prune (t : ConnectionTracker) (now : Instant) : ConnectionTracker :=
  { t with
    records := retain (fun r => decide (now - r.lastSeen < t.idleTtl)) t.records
    sincePrune := 0 }

-- the count of calls since the last sweep, a `u32` that saturates, and the sweep
def ConnectionTracker.sweep (t : ConnectionTracker) (now : Instant) : ConnectionTracker :=
  let t := { t with sincePrune := min (t.sincePrune + 1) (2 ^ 32 - 1) }
  if t.sincePrune ≥ pruneInterval then t.prune now else t

/-- `record_at`: the running total of the address, and the tracker.  An address that is new to a
full tracker is not entered. -/
def ConnectionTracker.recordAt (t : ConnectionTracker) (ip : IpAddr) (now : Instant) :
    Nat × ConnectionTracker :=
  let t := t.sweep now
  match t.records.lookup ip with
  | some r => (r.attempts + 1, { t with records := t.records.insert ip ⟨r.attempts + 1, now⟩ })
  | none =>
      if t.records.entries.length ≥ t.maxTracked then (1, t)
      else (1, { t with records := t.records.insert ip ⟨1, now⟩ })

def ConnectionTracker.attempts (t : ConnectionTracker) (ip : IpAddr) : Nat :=
  (t.records.lookup ip).elim 0 AttemptRecord.attempts

def ConnectionTracker.trackedIps (t : ConnectionTracker) : Nat := t.records.entries.length

/-! ## 3. The gate -/

/-- What the firewall takes from `governor`: an empty keyed store, whether a key is within its quota
at an instant, and the sweep that drops keys. -/
structure KeyedLimiter (σ : Type) where
  empty : σ
  checkKey : σ → IpAddr → Instant → Bool × σ
  retainRecent : σ → Instant → σ

structure FirewallConfig (σ : Type) where
  quota : KeyedLimiter σ
  allow : List IpAddr
  block : List IpAddr
  traceCapacity : Nat
  maxTrackedIps : Nat
  idleTtl : Duration

-- the default, but for the quota
def FirewallConfig.default {σ : Type} (quota : KeyedLimiter σ) : FirewallConfig σ where
  quota
  allow := []
  block := []
  traceCapacity := 256
  maxTrackedIps := 100000
  idleTtl := .fromSecs 600

/-- `audited` says whether an audit sink is attached. -/
structure Firewall (σ : Type) where
  quota : KeyedLimiter σ
  limiter : σ
  allow : Finset IpAddr
  block : Finset IpAddr
  tracker : ConnectionTracker
  trace : DecisionTrace
  paused : Bool
  checks : Nat
  audited : Bool

variable {σ : Type}

def maintenanceInterval : Nat := 1024

def Firewall.build (config : FirewallConfig σ) : Firewall σ where
  quota := config.quota
  limiter := config.quota.empty
  allow := config.allow.foldl (fun ips ip => insert ip ips) ∅
  block := config.block.foldl (fun ips ip => insert ip ips) ∅
  tracker := .withLimits config.idleTtl config.maxTrackedIps
  trace := .new config.traceCapacity
  paused := false
  checks := 0
  audited := false

def Firewall.withAudit (fw : Firewall σ) : Firewall σ := { fw with audited := true }

def Firewall.maintain (fw : Firewall σ) (now : Instant) : Firewall σ :=
  { fw with limiter := fw.quota.retainRecent fw.limiter now }

-- `fetch_add` wraps
def Firewall.count (fw : Firewall σ) : Firewall σ :=
  { fw with checks := (fw.checks + 1) % 2 ^ 64 }

def Firewall.track (fw : Firewall σ) (ip : IpAddr) (now : Instant) : Firewall σ :=
  { fw with tracker := (fw.tracker.recordAt ip now).2 }

-- the answer of the rate limiter
def Firewall.limit (fw : Firewall σ) (ip : IpAddr) (now : Instant) : Decision × Firewall σ :=
  let r := fw.quota.checkKey fw.limiter ip now
  (if r.1 then .allow else .deny .rateLimited, { fw with limiter := r.2 })

def Firewall.decide (fw : Firewall σ) (ip : IpAddr) (now : Instant) : Decision × Firewall σ :=
  if fw.paused = true ∨ ip ∈ fw.allow then (.allow, fw)
  else if ip ∈ fw.block then (.deny .blocklisted, fw)
  else fw.limit ip now

def Firewall.traced (fw : Firewall σ) (ip : IpAddr) (decision : Decision) : Firewall σ :=
  { fw with trace := fw.trace.record ip decision }

/-- The clocks one check reads: for the housekeeping, for the tracker and for the rate limiter. -/
structure CheckClocks where
  swept : Instant
  seen : Instant
  limited : Instant

/-- `Firewall::check`. -/
def Firewall.check (fw : Firewall σ) (ip : IpAddr) (clocks : CheckClocks) :
    Decision × Firewall σ :=
  let swept := if fw.checks % maintenanceInterval = 0 then fw.count.maintain clocks.swept
    else fw.count
  let r := (swept.track ip clocks.seen).decide ip clocks.limited
  (r.1, r.2.traced ip r.1)

def Firewall.allowIp (fw : Firewall σ) (ip : IpAddr) : Firewall σ :=
  { fw with allow := insert ip fw.allow }

def Firewall.blockIp (fw : Firewall σ) (ip : IpAddr) : Firewall σ :=
  { fw with block := insert ip fw.block }

/-- `pause`, with the event for the audit sink: there is one for each real transition. -/
def Firewall.pause (fw : Firewall σ) : Option AuditEvent × Firewall σ :=
  (if fw.paused = false ∧ fw.audited = true then some .firewallPaused else none,
    { fw with paused := true })

def Firewall.resume (fw : Firewall σ) : Option AuditEvent × Firewall σ :=
  (if fw.paused = true ∧ fw.audited = true then some .firewallResumed else none,
    { fw with paused := false })

/-! ## 4. What the tracker counts -/

namespace ConnectionTracker

variable {t : ConnectionTracker} {ip other : IpAddr} {now : Instant}

theorem maxTracked_sweep (t : ConnectionTracker) (now : Instant) :
    (t.sweep now).maxTracked = t.maxTracked := by
  unfold sweep
  dsimp only
  split
  · rfl
  · rfl

-- a sweep only drops addresses
theorem attempts_sweep_le (t : ConnectionTracker) (now : Instant) (ip : IpAddr) :
    (t.sweep now).attempts ip ≤ t.attempts ip := by
  unfold sweep attempts
  dsimp only
  split
  · unfold prune
    dsimp only
    rw [lookup_retain]
    cases t.records.lookup ip with
    | none => exact Nat.le_refl _
    | some r =>
      rw [Option.filter_some]
      split
      · exact Nat.le_refl _
      · exact Nat.zero_le _
  · exact Nat.le_refl _

theorem trackedIps_sweep_le (t : ConnectionTracker) (now : Instant) :
    (t.sweep now).trackedIps ≤ t.trackedIps := by
  unfold sweep
  dsimp only
  split
  · exact length_retain_le _ t.records
  · exact Nat.le_refl _

-- between two sweeps
theorem sweep_eq (h : t.sincePrune + 1 < pruneInterval) :
    t.sweep now = { t with sincePrune := t.sincePrune + 1 } := by
  have hmin : min (t.sincePrune + 1) (2 ^ 32 - 1) = t.sincePrune + 1 := by
    unfold pruneInterval at h
    omega
  unfold sweep
  dsimp only
  rw [hmin, if_neg (Nat.not_le.mpr h)]

/-- An attempt is added to the count of its address, or begins one where there is room. -/
theorem recordAt_cases (t : ConnectionTracker) (ip : IpAddr) (now : Instant) :
    (∃ r, (t.sweep now).records.lookup ip = some r ∧ (t.recordAt ip now).2 =
      { t.sweep now with records := (t.sweep now).records.insert ip ⟨r.attempts + 1, now⟩ }) ∨
    ((t.sweep now).records.lookup ip = none ∧ (t.sweep now).trackedIps ≥ t.maxTracked ∧
      (t.recordAt ip now).2 = t.sweep now) ∨
    ((t.sweep now).records.lookup ip = none ∧ (t.sweep now).trackedIps < t.maxTracked ∧
      (t.recordAt ip now).2 =
        { t.sweep now with records := (t.sweep now).records.insert ip ⟨1, now⟩ }) := by
  unfold recordAt trackedIps
  dsimp only
  cases hlookup : (t.sweep now).records.lookup ip with
  | some r => exact .inl ⟨r, rfl, rfl⟩
  | none =>
    dsimp only
    rw [maxTracked_sweep]
    split
    · rename_i hfull
      exact .inr (.inl ⟨rfl, hfull, rfl⟩)
    · rename_i hroom
      exact .inr (.inr ⟨rfl, Nat.lt_of_not_le hroom, rfl⟩)

theorem maxTracked_recordAt (t : ConnectionTracker) (ip : IpAddr) (now : Instant) :
    (t.recordAt ip now).2.maxTracked = t.maxTracked := by
  have hsweep := t.maxTracked_sweep now
  rcases t.recordAt_cases ip now with ⟨_, -, hnew⟩ | ⟨-, -, hnew⟩ | ⟨-, -, hnew⟩
  all_goals
    rw [hnew]
    exact hsweep

theorem trackedIps_recordAt_le (h : t.trackedIps ≤ t.maxTracked) (ip : IpAddr) (now : Instant) :
    (t.recordAt ip now).2.trackedIps ≤ t.maxTracked := by
  have hswept := (t.trackedIps_sweep_le now).trans h
  rcases t.recordAt_cases ip now with ⟨r, hthere, hnew⟩ | ⟨-, -, hnew⟩ | ⟨habsent, hroom, hnew⟩
  · rw [hnew, trackedIps, length_insert, hthere]
    exact hswept
  · rw [hnew]
    exact hswept
  · rw [hnew, trackedIps, length_insert, habsent, if_neg (by simp)]
    exact hroom

theorem attempts_insert (records : AList fun _ : IpAddr => AttemptRecord) (r : AttemptRecord) :
    attempts { t with records := records.insert ip r } other =
      if other = ip then r.attempts else (records.lookup other).elim 0 AttemptRecord.attempts := by
  unfold attempts
  dsimp only
  split
  · rename_i heq
    rw [heq, AList.lookup_insert]
    rfl
  · rename_i hne
    rw [AList.lookup_insert_ne hne]

theorem attempts_recordAt_le (t : ConnectionTracker) (ip : IpAddr) (now : Instant)
    (other : IpAddr) : (t.recordAt ip now).2.attempts other ≤
      t.attempts other + [ip].count other := by
  have hswept := t.attempts_sweep_le now other
  rcases t.recordAt_cases ip now with ⟨r, hthere, hnew⟩ | ⟨-, -, hnew⟩ | ⟨habsent, hroom, hnew⟩
  · rw [hnew, attempts_insert]
    split
    · rename_i heq
      rw [heq] at hswept ⊢
      unfold attempts at hswept ⊢
      rw [hthere] at hswept
      simpa using hswept
    · exact hswept.trans (Nat.le_add_right _ _)
  · rw [hnew]
    exact hswept.trans (Nat.le_add_right _ _)
  · rw [hnew, attempts_insert]
    split
    · rename_i heq
      rw [heq]
      simp
    · exact hswept.trans (Nat.le_add_right _ _)

/-! ## 5. Runs of the tracker -/

-- the tracker behind the attempts, each with its instant
def after (idleTtl : Duration) (maxTracked : Nat) (attempts : List (IpAddr × Instant)) :
    ConnectionTracker :=
  attempts.foldl (fun t a => (t.recordAt a.1 a.2).2) (withLimits idleTtl maxTracked)

variable (idleTtl : Duration) (maxTracked : Nat)

theorem after_concat (attempts : List (IpAddr × Instant)) (a : IpAddr × Instant) :
    after idleTtl maxTracked (attempts ++ [a]) =
      ((after idleTtl maxTracked attempts).recordAt a.1 a.2).2 := by
  unfold after
  rw [List.foldl_append]
  rfl

theorem maxTracked_after (attempts : List (IpAddr × Instant)) :
    (after idleTtl maxTracked attempts).maxTracked = maxTracked := by
  induction attempts using List.reverseRecOn with
  | nil => rfl
  | append_singleton attempts a ih => rw [after_concat, maxTracked_recordAt, ih]

/-- However many addresses come, the tracker holds no more than its limit. -/
theorem trackedIps_after_le (attempts : List (IpAddr × Instant)) :
    (after idleTtl maxTracked attempts).trackedIps ≤ maxTracked := by
  induction attempts using List.reverseRecOn with
  | nil => exact Nat.zero_le _
  | append_singleton attempts a ih =>
    have hmax := maxTracked_after idleTtl maxTracked attempts
    have hle := trackedIps_recordAt_le (ih.trans_eq hmax.symm) a.1 a.2
    rwa [hmax, ← after_concat] at hle

-- it may have forgotten attempts, but has never made one up
theorem attempts_after_le (attempts : List (IpAddr × Instant)) (ip : IpAddr) :
    (after idleTtl maxTracked attempts).attempts ip ≤ (attempts.map Prod.fst).count ip := by
  induction attempts using List.reverseRecOn with
  | nil => exact Nat.zero_le _
  | append_singleton attempts a ih =>
    rw [after_concat, List.map_append, List.count_append]
    exact (attempts_recordAt_le _ a.1 a.2 ip).trans (Nat.add_le_add_right ih _)

/-- The tracker holds every address of the attempts, with the number of its attempts. -/
structure Holds (t : ConnectionTracker) (ips : List IpAddr) : Prop where
  sincePrune : t.sincePrune = ips.length
  tracked : t.trackedIps = ips.toFinset.card
  there : ∀ ip, (t.records.lookup ip).isSome = true ↔ ip ∈ ips
  attempts : ∀ ip, t.attempts ip = ips.count ip

-- one more attempt, where no sweep is due and there is room
theorem Holds.recordAt {ips : List IpAddr} (h : t.Holds ips) (ip : IpAddr) (now : Instant)
    (hshort : ips.length + 1 < pruneInterval) (hfits : (ips ++ [ip]).toFinset.card ≤ t.maxTracked) :
    (t.recordAt ip now).2.Holds (ips ++ [ip]) := by
  have hsweep : t.sweep now = { t with sincePrune := ips.length + 1 } := by
    rw [sweep_eq (by rw [h.sincePrune]; exact hshort), h.sincePrune]
  have hset : (ips ++ [ip]).toFinset = insert ip ips.toFinset := by
    rw [List.toFinset_append, Finset.union_comm]
    rfl
  -- the count of the address goes up by one, the others stay
  have hinsert : ∀ r : AttemptRecord, r.attempts = ips.count ip + 1 →
      (t.records.insert ip r).entries.length = (ips ++ [ip]).toFinset.card →
      Holds { t with sincePrune := ips.length + 1, records := t.records.insert ip r }
        (ips ++ [ip]) := by
    intro r hr htracked
    refine ⟨by simp, htracked, fun other => ?_, fun other => ?_⟩
    · by_cases heq : other = ip
      · rw [heq, AList.lookup_insert]
        simp
      · rw [AList.lookup_insert_ne heq, h.there]
        simp [heq]
    · rw [attempts_insert (t := { t with sincePrune := ips.length + 1 }), List.count_append]
      split
      · rename_i heq
        rw [hr, heq, List.count_singleton_self]
      · rename_i hne
        rw [List.count_eq_zero.mpr (by simpa using hne : other ∉ [ip])]
        exact h.attempts other
  have hcount := h.attempts ip
  rcases t.recordAt_cases ip now with ⟨r, hthere, hnew⟩ | ⟨habsent, hfull, hnew⟩ |
    ⟨habsent, hroom, hnew⟩
  · rw [hsweep] at hthere hnew
    change t.records.lookup ip = some r at hthere
    have hmem : ip ∈ ips.toFinset := List.mem_toFinset.mpr ((h.there ip).mp (by rw [hthere]; rfl))
    rw [ConnectionTracker.attempts, hthere] at hcount
    rw [hnew]
    refine hinsert _ (congrArg (· + 1) hcount) ?_
    rw [length_insert, hthere, hset, Finset.insert_eq_of_mem hmem]
    exact h.tracked
  all_goals
    rw [hsweep] at habsent hnew
    change t.records.lookup ip = none at habsent
    have hnotin : ip ∉ ips.toFinset := by
      rw [List.mem_toFinset, ← h.there, habsent]
      exact Bool.false_ne_true
    rw [hset, Finset.card_insert_of_notMem hnotin] at hfits
  · rw [hsweep] at hfull
    change t.trackedIps ≥ _ at hfull
    rw [h.tracked] at hfull
    omega
  · rw [ConnectionTracker.attempts, habsent] at hcount
    rw [hnew]
    refine hinsert ⟨1, now⟩ (congrArg (· + 1) hcount) ?_
    rw [length_insert, habsent, if_neg (by simp), hset, Finset.card_insert_of_notMem hnotin,
      ← h.tracked]
    rfl

/-- Before the first sweep, and as long as there is room, every attempt is counted. -/
theorem holds_after {attempts : List (IpAddr × Instant)} (hshort : attempts.length < pruneInterval)
    (hfits : (attempts.map Prod.fst).toFinset.card ≤ maxTracked) :
    (after idleTtl maxTracked attempts).Holds (attempts.map Prod.fst) := by
  induction attempts using List.reverseRecOn with
  | nil => exact ⟨rfl, rfl, fun _ => by simp [after, withLimits], fun _ => rfl⟩
  | append_singleton attempts a ih =>
    rw [List.length_append, List.length_singleton] at hshort
    rw [List.map_append, List.map_singleton] at hfits ⊢
    have hless : (attempts.map Prod.fst).toFinset.card ≤
        (attempts.map Prod.fst ++ [a.1]).toFinset.card := by
      apply Finset.card_le_card
      intro ip hip
      rw [List.mem_toFinset] at hip ⊢
      exact List.mem_append_left _ hip
    rw [after_concat]
    apply (ih (by omega) (hless.trans hfits)).recordAt
    · rw [List.length_map]
      exact hshort
    · rw [maxTracked_after]
      exact hfits

end ConnectionTracker

end Snail.Security
