import Snail.Network.Dns

/-!
# Record — parsing `v=spf1` records

`crates/network/src/spf/record.rs`: a record is a sequence of qualified mechanisms and modifiers.
Domain-specs are kept unexpanded.
-/

open Snail.Reasoning

namespace Snail.Network.Spf

inductive Qualifier where
  | pass
  | fail
  | softFail
  | neutral
  deriving DecidableEq, Repr

def Qualifier.fromChar : Char → Option Qualifier
  | '+' => some .pass
  | '-' => some .fail
  | '~' => some .softFail
  | '?' => some .neutral
  | _ => none

inductive Mechanism where
  | all
  | ip4 (net : Ipv4Addr) (prefixLen : Nat)
  | ip6 (net : Ipv6Addr) (prefixLen : Nat)
  | a (domain : Option Str) (v4 v6 : Nat)
  | mx (domain : Option Str) (v4 v6 : Nat)
  | include (spec : Str)
  | exists (spec : Str)
  | ptr (domain : Option Str)
  deriving DecidableEq, Repr

structure Directive where
  qualifier : Qualifier
  mechanism : Mechanism
  deriving DecidableEq, Repr

structure SpfRecord where
  directives : List Directive
  redirect : Option Str
  deriving DecidableEq, Repr

def recordErr {α : Type} (reason : Str) : Except NetworkError α :=
  .error (.record "SPF".toList reason)

def isSpfVersion (term : Str) : Bool := eqIgnoreAsciiCase term "v=spf1".toList

/-- `split_modifier`: `name=value` with a well-formed name and no colon before the `=`. -/
def splitModifier (term : Str) : Option (Str × Str) :=
  match splitOnce '=' term with
  | none => none
  | some (name, rest) =>
      let firstOk := name.head?.any Char.isAlpha
      let restOk := name.tail.all fun c => c.isAlphanum || c == '-' || c == '_' || c == '.'
      if ':' ∈ name then none
      else if firstOk && restOk then some (name, rest) else none

def parsePrefix (p : Str) (max : Nat) : Except NetworkError Nat :=
  match parseUnsigned 255 p with
  | none => recordErr ("bad CIDR prefix `".toList ++ p ++ "`".toList)
  | some n =>
      if n > max then
        recordErr ("CIDR prefix ".toList ++ showNat n ++ " exceeds ".toList ++ showNat max)
      else .ok n

/-- `addr[/prefix]` for either family. -/
def parseIpCidr {α : Type} (family : String) (max : Nat) (parseAddr : Str → Option α)
    (spec : Str) : Except NetworkError (α × Nat) := do
  let (addr, prefixLen) ← match splitOnce '/' spec with
    | some (a, p) => (parsePrefix p max).map fun n => (a, n)
    | none => .ok (spec, max)
  match parseAddr addr with
  | some net => .ok (net, prefixLen)
  | none => recordErr ("bad ".toList ++ family.toList ++ " address `".toList ++ addr ++ "`".toList)

def parseIp4Cidr (spec : Str) : Except NetworkError (Ipv4Addr × Nat) :=
  parseIpCidr "ip4" 32 Ipv4Addr.parse spec

def parseIp6Cidr (spec : Str) : Except NetworkError (Ipv6Addr × Nat) :=
  parseIpCidr "ip6" 128 Ipv6Addr.parse spec

/-- `parse_dual_cidr`: nothing, `/v4`, `//v6` or `/v4//v6`. -/
def parseDualCidr (s : Str) : Except NetworkError (Nat × Nat) :=
  if s = [] then .ok (32, 128)
  else do
    let (v4Part, v6Part) := match findSub ['/', '/'] s with
      | some i => (s.take i, some (s.drop (i + 2)))
      | none => (s, none)
    let v4 ← match ['/'].isPrefixOf? v4Part with
      | none => .ok 32
      | some p => if p = [] then .ok 32 else parsePrefix p 32
    let v6 ← match v6Part with
      | some p => parsePrefix p 128
      | none => .ok 128
    return (v4, v6)

def parseDomainAndDualCidr (rest : Option Str) :
    Except NetworkError (Option Str × Nat × Nat) :=
  match rest.filter (· ≠ []) with
  | none => .ok (none, 32, 128)
  | some rest =>
      let domainPart := rest.takeWhile (· ≠ '/')
      let cidrPart := rest.dropWhile (· ≠ '/')
      (parseDualCidr cidrPart).map fun (v4, v6) =>
        (if domainPart = [] then none else some domainPart, v4, v6)

/-- The name of a mechanism and what follows it: the text behind a colon, or a `/cidr` tail with its
slash. -/
def splitMechanism (body : Str) : Str × Option Str :=
  match splitOnce ':' body with
  | some (n, r) => (n, some r)
  | none =>
      match splitOnce '/' body with
      | some (n, _) => (n, some (body.drop n.length))
      | none => (body, none)

def parseMechanism (body : Str) : Except NetworkError Mechanism :=
  let (name, rest) := splitMechanism body
  let nameLc := toAsciiLowercase name
  if nameLc = "all".toList then .ok .all
  else if nameLc = "ip4".toList then
    match rest with
    | none => recordErr "ip4 requires an address".toList
    | some spec => (parseIp4Cidr spec).map fun (net, p) => .ip4 net p
  else if nameLc = "ip6".toList then
    match rest with
    | none => recordErr "ip6 requires an address".toList
    | some spec => (parseIp6Cidr spec).map fun (net, p) => .ip6 net p
  else if nameLc = "a".toList then
    (parseDomainAndDualCidr rest).map fun (domain, v4, v6) => .a domain v4 v6
  else if nameLc = "mx".toList then
    (parseDomainAndDualCidr rest).map fun (domain, v4, v6) => .mx domain v4 v6
  else if nameLc = "include".toList then
    match rest.filter (· ≠ []) with
    | none => recordErr "include requires a domain".toList
    | some spec => .ok (.include spec)
  else if nameLc = "exists".toList then
    match rest.filter (· ≠ []) with
    | none => recordErr "exists requires a domain".toList
    | some spec => .ok (.exists spec)
  else if nameLc = "ptr".toList then .ok (.ptr (rest.filter (· ≠ [])))
  else recordErr ("unknown mechanism `".toList ++ nameLc ++ "`".toList)

def parseDirective : Str → Except NetworkError Directive
  | [] => recordErr "empty term".toList
  | first :: rest =>
      let (qualifier, body) := match Qualifier.fromChar first with
        | some q => (q, rest)
        | none => (.pass, first :: rest)
      (parseMechanism body).map fun mechanism => ⟨qualifier, mechanism⟩

/-- The loop of `SpfRecord::parse` over the terms behind the version: a later `redirect` replaces an
earlier one, other modifiers are ignored. -/
def parseTerms : List Str → List Directive → Option Str → Except NetworkError SpfRecord
  | [], directives, redirect => .ok ⟨directives, redirect⟩
  | term :: rest, directives, redirect =>
      match splitModifier term with
      | some (name, value) =>
          if toAsciiLowercase name = "redirect".toList then
            parseTerms rest directives (some value)
          else parseTerms rest directives redirect
      | none =>
          match parseDirective term with
          | .error e => .error e
          | .ok directive => parseTerms rest (directives ++ [directive]) redirect

def SpfRecord.parse (raw : Str) : Except NetworkError SpfRecord :=
  match splitWhitespace raw with
  | [] => recordErr "missing v=spf1 version term".toList
  | version :: terms =>
      if isSpfVersion version then parseTerms terms [] none
      else recordErr "missing v=spf1 version term".toList

example : SpfRecord.parse "v=spf1 ip4:192.0.2.0/24 ~mx/26//64 redirect=_spf.example.com".toList =
    .ok ⟨[⟨.pass, .ip4 0xC0000200#32 24⟩, ⟨.softFail, .mx none 26 64⟩],
      some "_spf.example.com".toList⟩ := by decide

end Snail.Network.Spf
