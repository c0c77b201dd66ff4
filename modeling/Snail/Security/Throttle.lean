import Snail.Reasoning.Clock
import Snail.Reasoning.Ip
import Snail.Reasoning.Retain

/-!
# Throttle — failed logins by address

`crates/security/src/throttle.rs`: a counter of failed attempts for each address, with a lockout
once it reaches the limit.
-/

open Snail.Reasoning

namespace Snail.Security

structure ThrottleConfig where
  maxFailures : Nat
  lockout : Duration
  deriving DecidableEq, Repr

def ThrottleConfig.default : ThrottleConfig where
  maxFailures := 5
  lockout := .fromSecs (15 * 60)

structure Attempt where
  failures : Nat
  lockedUntil : Option SystemTime
  lastSeen : SystemTime
  deriving DecidableEq

abbrev Throttle := AList fun _ : IpAddr => Attempt

def Attempt.locked (now : SystemTime) (a : Attempt) : Bool := a.lockedUntil.any fun t => now.lt t

/-- `check_at`: whether the address may try. -/
def Throttle.checkAt (t : Throttle) (ip : IpAddr) (now : SystemTime) : Bool :=
  (t.lookup ip).all fun a => !a.locked now

def Attempt.live (lockout : Duration) (now : SystemTime) (a : Attempt) : Bool :=
  a.locked now || (a.lastSeen.checkedAdd lockout).any fun deadline => now.lt deadline

def Throttle.prune (lockout : Duration) (now : SystemTime) (t : Throttle) : Throttle :=
  ⟨t.entries.filter fun e => e.2.live lockout now, t.nodupKeys.sublist List.filter_sublist⟩

-- one more failure on the record of an address
def Attempt.fail (config : ThrottleConfig) (now : SystemTime) (a : Attempt) : Attempt :=
  if a.locked now then { a with lastSeen := now }
  else
    -- a lockout that has passed begins a new window
    let failures := (if a.lockedUntil.isSome then 0 else a.failures) + 1
    { failures
      lockedUntil := if failures ≥ config.maxFailures then now.checkedAdd config.lockout else none
      lastSeen := now }

/-- `record_failure_at`. -/
def Throttle.recordFailureAt (config : ThrottleConfig) (t : Throttle) (ip : IpAddr)
    (now : SystemTime) : Throttle :=
  let t := t.prune config.lockout now
  t.insert ip (((t.lookup ip).getD ⟨0, none, now⟩).fail config now)

/-- `record_success`. -/
def Throttle.recordSuccess (t : Throttle) (ip : IpAddr) : Throttle := t.erase ip

/-! ## The record of one address -/

section
variable (t : Throttle) (config : ThrottleConfig) (now : SystemTime)

theorem Throttle.lookup_prune (lockout : Duration) (ip : IpAddr) :
    (t.prune lockout now).lookup ip = (t.lookup ip).filter (Attempt.live lockout now) :=
  lookup_retain (Attempt.live lockout now) t ip

theorem Throttle.lookup_recordFailureAt (ip : IpAddr) :
    (t.recordFailureAt config ip now).lookup ip =
      some ((((t.lookup ip).filter (Attempt.live config.lockout now)).getD
        ⟨0, none, now⟩).fail config now) := by
  unfold recordFailureAt
  rw [AList.lookup_insert, lookup_prune]

theorem Throttle.lookup_recordFailureAt_of_ne {ip other : IpAddr} (h : ip ≠ other) :
    (t.recordFailureAt config other now).lookup ip =
      (t.lookup ip).filter (Attempt.live config.lockout now) := by
  unfold recordFailureAt
  rw [AList.lookup_insert_ne h, lookup_prune]

theorem Throttle.lookup_recordSuccess (ip : IpAddr) : (t.recordSuccess ip).lookup ip = none :=
  AList.lookup_erase ip t

theorem Throttle.lookup_recordSuccess_of_ne {ip other : IpAddr} (h : ip ≠ other) :
    (t.recordSuccess other).lookup ip = t.lookup ip :=
  AList.lookup_erase_ne h

end

end Snail.Security
