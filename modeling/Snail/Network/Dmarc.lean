import Snail.Network.Dns
import Snail.Network.Spf.Eval
import Snail.Reasoning.Clock

/-!
# Dmarc — record discovery, identifier alignment and disposition

`crates/network/src/dmarc/eval.rs`.  The Public Suffix List is third-party data: `psl` stands for
`psl::domain_str`.
-/

open Snail.Reasoning

namespace Snail.Network

inductive DmarcDisposition where
  | none
  | quarantine
  | reject
  deriving DecidableEq, Repr

def DmarcDisposition.asStr : DmarcDisposition → Str
  | .none => "none".toList
  | .quarantine => "quarantine".toList
  | .reject => "reject".toList

structure DmarcResult where
  recordFound : Bool
  pass : Bool
  spfAligned : Bool
  dkimAligned : Bool
  disposition : DmarcDisposition
  policyDomain : Str
  published : Option DmarcRecord
  deriving DecidableEq, Repr

def DmarcResult.asStr (r : DmarcResult) : Str :=
  if !r.recordFound then "none".toList else if r.pass then "pass".toList else "fail".toList

def DmarcResult.none : DmarcResult := ⟨false, false, false, false, .none, [], .none⟩

-- `trim().trim_end_matches('.')`
def trimDomain (domain : Str) : Str := ((trim domain).reverse.dropWhile (· == '.')).reverse

def organizationalDomain (psl : Str → Option Str) (domain : Str) : Str :=
  let lower := toAsciiLowercase (trimDomain domain)
  ((psl lower).map toAsciiLowercase).getD lower

def aligned (psl : Str → Option Str) (authenticated source : Str) (mode : AlignmentMode) : Bool :=
  let a := toAsciiLowercase (trimDomain authenticated)
  let f := toAsciiLowercase (trimDomain source)
  if a = [] then false
  else match mode with
    | .strict => a = f
    | .relaxed => organizationalDomain psl a = organizationalDomain psl f

-- the nanoseconds of the clock serve as the random source
def sampleInPct (now : SystemTime) (pct : Nat) : Bool := now.subsecNanos % 100 < pct

def applyPct (now : SystemTime) (policy : DmarcPolicy) (pct : Nat) : DmarcDisposition :=
  let full : DmarcDisposition := match policy with
    | .none => .none
    | .quarantine => .quarantine
    | .reject => .reject
  if pct ≥ 100 ∨ sampleInPct now pct then full
  else match full with
    | .reject => .quarantine
    | .quarantine | .none => .none

-- the record at the domain itself or, failing that, at its organizational domain (`true`)
def discover (resolver : DnsResolver) (domain org : Str) : Option (DmarcRecord × Bool) :=
  match resolver.lookupDmarc domain with
  | .ok record => some (record, false)
  | .error _ =>
      if org ≠ domain then
        match resolver.lookupDmarc org with
        | .ok record => some (record, true)
        | .error _ => .none
      else .none

/-- `evaluate`, re-exported as `evaluate_dmarc`. -/
def evaluateDmarc (psl : Str → Option Str) (resolver : DnsResolver) (now : SystemTime)
    (fromDomain : Str) (spfResult : Spf.SpfResult) (spfDomain : Str) (dkimPassDomains : List Str) :
    DmarcResult :=
  let source := trimDomain fromDomain
  if source = [] then .none
  else
    let org := organizationalDomain psl source
    match discover resolver source org with
    | none => .none
    | some (record, atOrg) =>
        let spfAligned := spfResult == .pass && aligned psl spfDomain source record.aspf
        let dkimAligned := dkimPassDomains.any fun d => aligned psl d source record.adkim
        let pass := spfAligned || dkimAligned
        -- `sp` speaks for the subdomains of the domain it is published at
        let policy := if atOrg ∧ source ≠ org then record.subdomainPolicy.getD record.policy
          else record.policy
        { recordFound := true
          pass := pass
          spfAligned := spfAligned
          dkimAligned := dkimAligned
          disposition := if pass then .none else applyPct now policy record.pct
          policyDomain := if atOrg then org else source
          published := some record }

theorem DmarcResult.asStr_mem (r : DmarcResult) :
    r.asStr ∈ ["none".toList, "pass".toList, "fail".toList] := by
  unfold asStr
  split
  · decide
  · split <;> decide

end Snail.Network
