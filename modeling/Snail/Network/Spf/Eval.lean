import Snail.Network.Spf.Macro

/-!
# Eval — the SPF evaluation engine

`check_host` of `crates/network/src/spf/eval.rs` with its two counters.  The evaluator recurses
through `include` and `redirect` into names that DNS chooses, so the model runs on fuel; the results
say how much is always enough.
-/

open Snail.Reasoning

namespace Snail.Network.Spf

inductive SpfResult where
  | pass
  | fail
  | softFail
  | neutral
  | none
  | tempError
  | permError
  deriving DecidableEq, Repr

def SpfResult.asStr : SpfResult → Str
  | .pass => "pass".toList
  | .fail => "fail".toList
  | .softFail => "softfail".toList
  | .neutral => "neutral".toList
  | .none => "none".toList
  | .tempError => "temperror".toList
  | .permError => "permerror".toList

def maxLookups : Nat := 10
def maxVoid : Nat := 2
def maxHosts : Nat := 10

/-- What an evaluation does to the outside: the charges it makes and the queries it sends. -/
inductive Event where
  | chargeLookup (passed : Bool)
  | chargeVoid (passed : Bool)
  | lookupTxt (name : Str)
  | lookupMx (name : Str)
  | lookupIp (host : Str)
  | reverseLookup (ip : IpAddr)
  deriving DecidableEq, Repr

/-- The counters of `Evaluator`, and a log of its events. -/
structure EvalState where
  lookups : Nat
  void : Nat
  log : List Event
  deriving DecidableEq, Repr

/-- The unchanging part of `Evaluator`. -/
structure Evaluator where
  resolver : DnsResolver
  ip : IpAddr
  senderLocal : Str
  senderDomain : Str
  helo : Str

inductive MechOutcome where
  | matched
  | noMatch
  | error (result : SpfResult)
  deriving DecidableEq, Repr

def MechOutcome.ofBool (matched : Bool) : MechOutcome := if matched then .matched else .noMatch

def qualifierResult : Qualifier → SpfResult
  | .pass => .pass
  | .fail => .fail
  | .softFail => .softFail
  | .neutral => .neutral

/-! ## 1. Networks -/

/-- `cidr4`: equal under the mask of the leading bits. -/
def cidr4 (net : Ipv4Addr) (prefixLen : Nat) (ip : Ipv4Addr) : Bool :=
  if prefixLen = 0 then true
  else if prefixLen > 32 then false
  else
    let mask := BitVec.allOnes 32 <<< (32 - prefixLen)
    net &&& mask == ip &&& mask

def cidr6 (net : Ipv6Addr) (prefixLen : Nat) (ip : Ipv6Addr) : Bool :=
  if prefixLen = 0 then true
  else if prefixLen > 128 then false
  else
    let mask := BitVec.allOnes 128 <<< (128 - prefixLen)
    net &&& mask == ip &&& mask

/-- `ip_in_net`: the families must agree. -/
def ipInNet (client net : IpAddr) (v4 v6 : Nat) : Bool :=
  match client, net with
  | .v4 c, .v4 n => cidr4 n v4 c
  | .v6 c, .v6 n => cidr6 n v6 c
  | _, _ => false

/-! ## 2. Charges and queries -/

/-- `charge_lookup`; the flag says whether the budget still holds. -/
def EvalState.chargeLookup (s : EvalState) : Bool × EvalState :=
  let passed := decide (s.lookups + 1 ≤ maxLookups)
  (passed, { s with lookups := s.lookups + 1, log := s.log ++ [.chargeLookup passed] })

def EvalState.chargeVoid (s : EvalState) : Bool × EvalState :=
  let passed := decide (s.void + 1 ≤ maxVoid)
  (passed, { s with void := s.void + 1, log := s.log ++ [.chargeVoid passed] })

def EvalState.ask (s : EvalState) (e : Event) : EvalState := { s with log := s.log ++ [e] }

-- a failed lookup counts as an empty answer
def answers {α : Type} (answer : Except NetworkError (List α)) : List α :=
  answer.toOption.getD []

def Evaluator.lookupIp (ev : Evaluator) (host : Str) (s : EvalState) : List IpAddr × EvalState :=
  (answers (ev.resolver.lookupIp host), s.ask (.lookupIp host))

/-- `Evaluator::expand`: a malformed macro is a `PermError`, `none` here. -/
def Evaluator.expand (ev : Evaluator) (spec current : Str) : Option Str :=
  (Spf.expand spec ⟨ev.ip, ev.senderLocal, ev.senderDomain, ev.helo, current⟩).toOption

def Evaluator.resolveTarget (ev : Evaluator) (domain : Option Str) (current : Str) : Option Str :=
  domain.elim (some current) fun spec => ev.expand spec current

-- the void charge behind an empty answer; `k` is what follows when it passes
def EvalState.whenVoid {α : Type} (s : EvalState) (answer : List α)
    (k : EvalState → MechOutcome × EvalState) : MechOutcome × EvalState :=
  if answer = [] then
    let c := s.chargeVoid
    if c.1 then k c.2 else (.error .permError, c.2)
  else k s

-- the start of every querying mechanism: charge the lookup, then find the target
def EvalState.whenCharged {α : Type} (s : EvalState) (target : Option Str)
    (failed : SpfResult → EvalState → α) (k : Str → EvalState → α) : α :=
  let c := s.chargeLookup
  if c.1 then target.elim (failed .permError c.2) fun t => k t c.2
  else failed .permError c.2

def mechError (r : SpfResult) (s : EvalState) : MechOutcome × EvalState := (.error r, s)

/-! ## 3. Mechanisms without recursion -/

def Evaluator.aMatch (ev : Evaluator) (domain : Option Str) (current : Str) (v4 v6 : Nat)
    (s : EvalState) : MechOutcome × EvalState :=
  s.whenCharged (ev.resolveTarget domain current) mechError fun target s =>
    let r := ev.lookupIp target s
    r.2.whenVoid r.1 fun s => (.ofBool (r.1.any fun a => ipInNet ev.ip a v4 v6), s)

-- the loop of `mx_match` over the hosts: each costs a query, the first match ends it
def Evaluator.mxHosts (ev : Evaluator) (v4 v6 : Nat) :
    List MxRecord → EvalState → MechOutcome × EvalState
  | [], s => (.noMatch, s)
  | mx :: rest, s =>
      let r := ev.lookupIp mx.exchange s
      if r.1.any fun a => ipInNet ev.ip a v4 v6 then (.matched, r.2)
      else ev.mxHosts v4 v6 rest r.2

def Evaluator.mxMatch (ev : Evaluator) (domain : Option Str) (current : Str) (v4 v6 : Nat)
    (s : EvalState) : MechOutcome × EvalState :=
  s.whenCharged (ev.resolveTarget domain current) mechError fun target s =>
    let mxs := answers (ev.resolver.lookupMx target)
    (s.ask (.lookupMx target)).whenVoid mxs fun s => ev.mxHosts v4 v6 (mxs.take maxHosts) s

def Evaluator.existsMatch (ev : Evaluator) (spec current : Str) (s : EvalState) :
    MechOutcome × EvalState :=
  s.whenCharged (ev.expand spec current) mechError fun target s =>
    let r := ev.lookupIp target s
    r.2.whenVoid r.1 fun s => (.ofBool (!r.1.isEmpty), s)

-- whether a PTR name lies within the target domain
def ptrWithin (name target : Str) : Bool :=
  let nameLc := toAsciiLowercase name
  let targetLc := toAsciiLowercase target
  nameLc == targetLc || ('.' :: targetLc).isSuffixOf nameLc

-- the loop of `ptr_match` over the names
def Evaluator.ptrNames (ev : Evaluator) (target : Str) :
    List Str → EvalState → MechOutcome × EvalState
  | [], s => (.noMatch, s)
  | name :: rest, s =>
      if ptrWithin name target then
        let r := ev.lookupIp name s
        if r.1.contains ev.ip then (.matched, r.2) else ev.ptrNames target rest r.2
      else ev.ptrNames target rest s

def Evaluator.ptrMatch (ev : Evaluator) (domain : Option Str) (current : Str) (s : EvalState) :
    MechOutcome × EvalState :=
  s.whenCharged (ev.resolveTarget domain current) mechError fun target s =>
    let names := answers (ev.resolver.reverseLookup ev.ip)
    (s.ask (.reverseLookup ev.ip)).whenVoid names fun s =>
      ev.ptrNames target (names.take maxHosts) s

/-! ## 4. The recursion -/

-- how an `include` turns the result of its target into an outcome
def includeOutcome : SpfResult → MechOutcome
  | .pass => .matched
  | .fail | .softFail | .neutral => .noMatch
  | .none => .error .permError
  | .tempError => .error .tempError
  | .permError => .error .permError

-- an evaluation of one domain, if it finishes
abbrev CheckHost := Str → EvalState → Option (SpfResult × EvalState)

def Evaluator.includeMatch (ev : Evaluator) (checkHost : CheckHost) (spec current : Str)
    (s : EvalState) : Option (MechOutcome × EvalState) :=
  s.whenCharged (ev.expand spec current) (fun r s => some (mechError r s)) fun target s =>
    (checkHost target s).map fun r => (includeOutcome r.1, r.2)

def Evaluator.matches (ev : Evaluator) (checkHost : CheckHost) (mech : Mechanism) (current : Str)
    (s : EvalState) : Option (MechOutcome × EvalState) :=
  match mech with
  | .all => some (.matched, s)
  | .ip4 net prefixLen =>
      match ev.ip with
      | .v4 c => some (.ofBool (cidr4 net prefixLen c), s)
      | .v6 _ => some (.noMatch, s)
  | .ip6 net prefixLen =>
      match ev.ip with
      | .v6 c => some (.ofBool (cidr6 net prefixLen c), s)
      | .v4 _ => some (.noMatch, s)
  | .a domain v4 v6 => some (ev.aMatch domain current v4 v6 s)
  | .mx domain v4 v6 => some (ev.mxMatch domain current v4 v6 s)
  | .include spec => ev.includeMatch checkHost spec current s
  | .exists spec => some (ev.existsMatch spec current s)
  | .ptr domain => some (ev.ptrMatch domain current s)

/-- The loop of `check_host` over the directives: the result that ends it, or `none` when no
directive matches. -/
def Evaluator.runDirectives (ev : Evaluator) (checkHost : CheckHost) (current : Str) :
    List Directive → EvalState → Option (Option SpfResult × EvalState)
  | [], s => some (none, s)
  | d :: rest, s =>
      match ev.matches checkHost d.mechanism current s with
      | none => none
      | some (.matched, s) => some (some (qualifierResult d.qualifier), s)
      | some (.noMatch, s) => ev.runDirectives checkHost current rest s
      | some (.error r, s) => some (some r, s)

-- a redirect to a domain without a record is an error
def redirectResult : SpfResult → SpfResult
  | .none => .permError
  | r => r

-- the end of `check_host`, when no directive has matched
def Evaluator.applyRedirect (ev : Evaluator) (checkHost : CheckHost) (redirect : Option Str)
    (current : Str) (s : EvalState) : Option (SpfResult × EvalState) :=
  match redirect with
  | none => some (.neutral, s)
  | some spec =>
      s.whenCharged (ev.expand spec current) (fun r s => some (r, s)) fun target s =>
        (checkHost target s).map fun r => (redirectResult r.1, r.2)

-- the texts published at a name that begin with the version token
def spfTexts (txts : List Str) : List Str :=
  txts.filter fun t => (splitWhitespace t).head?.any isSpfVersion

def Evaluator.checkHost (ev : Evaluator) : Nat → CheckHost
  | 0, _, _ => none
  | fuel + 1, domain, s =>
      let s := s.ask (.lookupTxt domain)
      match spfTexts (answers (ev.resolver.lookupTxt domain)) with
      | [] => some (.none, s)
      | _ :: _ :: _ => some (.permError, s)
      | [raw] =>
          match SpfRecord.parse raw with
          | .error _ => some (.permError, s)
          | .ok record =>
              match ev.runDirectives (ev.checkHost fuel) domain record.directives s with
              | none => none
              | some (some r, s) => some (r, s)
              | some (none, s) => ev.applyRedirect (ev.checkHost fuel) record.redirect domain s

/-- The identity that is checked: the sender, or the postmaster of the HELO domain for a null or
malformed one. -/
def checkedIdentity (helo mailFrom : Str) : Str × Str :=
  match rsplitOnce '@' mailFrom with
  | some (l, d) => if l ≠ [] ∧ d ≠ [] then (l, d) else ("postmaster".toList, helo)
  | none => ("postmaster".toList, helo)

def EvalState.initial : EvalState := ⟨0, 0, []⟩

/-- `evaluate` on fuel. -/
def evaluateWith (fuel : Nat) (resolver : DnsResolver) (ip : IpAddr) (helo mailFrom : Str) :
    Option (SpfResult × EvalState) :=
  let (localPart, domain) := checkedIdentity helo mailFrom
  if domain = [] then some (.none, .initial)
  else (Evaluator.mk resolver ip localPart domain helo).checkHost fuel domain .initial

end Snail.Network.Spf
