import Snail.Network.Dns

/-!
# Policy — MTA-STS policies and their discovery record

`crates/network/src/mta_sts/policy.rs`.
-/

open Snail.Reasoning

namespace Snail.Network

-- in seconds
def maxAgeCap : Nat := 31557600

inductive MtaStsMode where
  | enforce
  | testing
  | none
  deriving DecidableEq, Repr

structure MtaStsPolicy where
  mode : MtaStsMode
  -- host patterns in lower case
  mx : List Str
  maxAge : Nat
  deriving DecidableEq, Repr

def stsErr {α : Type} (reason : Str) : Except NetworkError α :=
  .error (.record "MTA-STS".toList reason)

/-! ## 1. The policy file -/

-- what the loop of `parse` has collected
structure PolicyDraft where
  versionOk : Bool
  mode : Option MtaStsMode
  maxAge : Option Nat
  mx : List Str

def MtaStsMode.parse (value : Str) : Except NetworkError MtaStsMode :=
  if value = "enforce".toList then .ok .enforce
  else if value = "testing".toList then .ok .testing
  else if value = "none".toList then .ok .none
  else stsErr ("unknown mode `".toList ++ value ++ "`".toList)

def PolicyDraft.field (d : PolicyDraft) (key value : Str) : Except NetworkError PolicyDraft :=
  if key = "version".toList then
    if eqIgnoreAsciiCase value "STSv1".toList then .ok { d with versionOk := true }
    else stsErr ("unsupported version `".toList ++ value ++ "`".toList)
  else if key = "mode".toList then
    (MtaStsMode.parse (toAsciiLowercase value)).map fun mode => { d with mode := some mode }
  else if key = "max_age".toList then
    match parseUnsigned (2 ^ 64 - 1) value with
    | some n => .ok { d with maxAge := some (min n maxAgeCap) }
    | none => stsErr ("invalid max_age `".toList ++ value ++ "`".toList)
  else if key = "mx".toList ∧ value ≠ [] then .ok { d with mx := d.mx ++ [toAsciiLowercase value] }
  else .ok d

def PolicyDraft.line (d : PolicyDraft) (raw : Str) : Except NetworkError PolicyDraft :=
  if trim raw = [] then .ok d
  else match splitOnce ':' (trim raw) with
    | none => stsErr "malformed policy line (no `:`)".toList
    | some kv => d.field (toAsciiLowercase (trim kv.1)) (trim kv.2)

-- the checks behind the loop
def PolicyDraft.finish (d : PolicyDraft) : Except NetworkError MtaStsPolicy :=
  if d.versionOk = false then stsErr "missing `version: STSv1`".toList
  else match d.mode, d.maxAge with
    | none, _ => stsErr "missing `mode`".toList
    | some _, none => stsErr "missing `max_age`".toList
    | some mode, some maxAge =>
        if (mode = .enforce ∨ mode = .testing) ∧ d.mx = [] then
          stsErr "policy in enforce/testing mode lists no `mx`".toList
        else .ok ⟨mode, d.mx, maxAge⟩

def MtaStsPolicy.parse (body : Str) : Except NetworkError MtaStsPolicy :=
  (lines body).foldlM PolicyDraft.line ⟨false, none, none, []⟩ >>= PolicyDraft.finish

/-! ## 2. Allowed exchanges -/

-- the host is in lower case and without a trailing dot
def mxPatternMatches (pattern host : Str) : Bool :=
  match "*.".toList.isPrefixOf? (trimEndMatches '.' pattern) with
  | some suffix => (splitOnce '.' host).any fun lr => lr.1 ≠ [] && lr.2 = suffix
  | none => trimEndMatches '.' pattern = host

def MtaStsPolicy.allowsMx (policy : MtaStsPolicy) (host : Str) : Bool :=
  let host := toAsciiLowercase (trimEndMatches '.' host)
  host ≠ [] && policy.mx.any fun pattern => mxPatternMatches pattern host

/-! ## 3. The discovery record -/

def isAsciiAlphanumeric (b : UInt8) : Bool :=
  (48 ≤ b && b ≤ 57) || (65 ≤ b && b ≤ 90) || (97 ≤ b && b ≤ 122)

def isValidId (id : Str) : Bool :=
  id ≠ [] && (encodeUtf8 id).length ≤ 32 && (encodeUtf8 id).all isAsciiAlphanumeric

-- one field: the version and the id seen last count
def stsField (acc : Bool × Option Str) (field : Str) : Bool × Option Str :=
  match splitOnce '=' (trim field) with
  | none => acc
  | some kv =>
      if trim kv.1 = "v".toList then (eqIgnoreAsciiCase (trim kv.2) "STSv1".toList, acc.2)
      else if trim kv.1 = "id".toList then (acc.1, some (trim kv.2))
      else acc

def parseStsTxt (txt : Str) : Option Str :=
  let fields := (txt.splitOn ';').foldl stsField (false, none)
  fields.2.filter fun id => fields.1 && isValidId id

end Snail.Network
