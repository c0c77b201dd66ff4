import Snail.Reasoning.Clock
import Snail.Reasoning.Ip
import Snail.Reasoning.Retain

/-!
# Greylist — deferring unseen senders

`crates/security/src/greylist.rs`.  The entries lie behind one mutex; a check reads and updates them
in one step.
-/

open Snail.Reasoning

namespace Snail.Security

structure GreylistConfig where
  delay : Duration
  pendingTtl : Duration
  passTtl : Duration
  maxEntries : Nat
  deriving DecidableEq, Repr

def GreylistConfig.default : GreylistConfig where
  delay := .fromSecs 60
  pendingTtl := .fromSecs (6 * 60 * 60)
  passTtl := .fromSecs (30 * 24 * 60 * 60)
  maxEntries := 100000

inductive GreyDecision where
  | allow
  | defer
  deriving DecidableEq, Repr

structure GreyEntry where
  firstSeen : SystemTime
  lastSeen : SystemTime
  passed : Bool
  deriving DecidableEq

abbrev Triplet := IpAddr × Str × Str

abbrev Greylist := AList fun _ : Triplet => GreyEntry

-- the network of an address: `/24` or `/64`
def maskIp : IpAddr → IpAddr
  | .v4 addr => .v4 (addr &&& ~~~0xFF)
  | .v6 addr => .v6 (addr &&& ~~~0xFFFFFFFFFFFFFFFF)

def GreyEntry.live (config : GreylistConfig) (now : SystemTime) (e : GreyEntry) : Bool :=
  (e.lastSeen.checkedAdd (if e.passed then config.passTtl else config.pendingTtl)).any
    fun deadline => now.lt deadline

def Greylist.prune (config : GreylistConfig) (now : SystemTime) (g : Greylist) : Greylist :=
  ⟨g.entries.filter fun e => e.2.live config now, g.nodupKeys.sublist List.filter_sublist⟩

-- a triplet seen before
def GreyEntry.retry (config : GreylistConfig) (now : SystemTime) (e : GreyEntry) :
    GreyDecision × GreyEntry :=
  let e := { e with lastSeen := now }
  if e.passed then (.allow, e)
  else if (now.durationSince e.firstSeen).any fun waited => config.delay ≤ waited then
    (.allow, { e with passed := true })
  else (.defer, e)

/-- `check_at`. -/
def Greylist.checkAt (config : GreylistConfig) (g : Greylist) (ip : IpAddr)
    (sender recipient : Str) (now : SystemTime) : GreyDecision × Greylist :=
  let key := (maskIp ip, toAsciiLowercase sender, toAsciiLowercase recipient)
  let g := g.prune config now
  match g.lookup key with
  | some e => ((e.retry config now).1, g.insert key (e.retry config now).2)
  -- full: an unseen triplet is let through and not remembered
  | none =>
      if g.entries.length ≥ config.maxEntries then (.allow, g)
      else (.defer, g.insert key ⟨now, now, false⟩)

end Snail.Security
