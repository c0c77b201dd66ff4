import Snail.Reasoning.Ip
import Snail.Reasoning.Utf8

/-!
# Dns — records and the resolver contract

`crates/network/src/dns`.  A resolver is an arbitrary function from names to answers or errors; the
DKIM and DMARC lookups are built on its TXT lookup.
-/

open Snail.Reasoning

namespace Snail.Network

inductive NetworkError where
  | resolve (name reason : Str)
  | record (kind reason : Str)
  | tls (reason : Str)
  | io (reason : Str)
  deriving DecidableEq, Repr

-- the texts of `Display`
def NetworkError.toText : NetworkError → Str
  | .resolve name reason => "dns lookup failed for `".toList ++ name ++ "`: ".toList ++ reason
  | .record kind reason => "malformed ".toList ++ kind ++ " record: ".toList ++ reason
  | .tls reason => "tls configuration error: ".toList ++ reason
  | .io reason => "i/o error: ".toList ++ reason

structure MxRecord where
  preference : Nat
  exchange : Str
  deriving DecidableEq, Repr

-- the domain takes no mail
def MxRecord.isNull (mx : MxRecord) : Bool := mx.exchange = []

/-! ## 1. Tag lists -/

/-- `parse_tag_map`: the tags in order of occurrence. -/
def parseTagMap (raw : Str) : List (Str × Str) :=
  ((raw.splitOn ';').filterMap (splitOnce '=')).map (fun kv => (trim kv.1, trim kv.2))
    |>.filter fun kv => kv.1 ≠ []

-- lookup in the collected map: of equal keys the last one was kept
def tagGet (tags : List (Str × Str)) (key : String) : Option Str :=
  (tags.reverse.find? fun kv => kv.1 = key.toList).map Prod.snd

/-! ## 2. DKIM keys -/

structure DkimRecord where
  version : Option Str
  keyType : Option Str
  publicKey : Str
  deriving DecidableEq, Repr

def DkimRecord.parse (raw : Str) : Except NetworkError DkimRecord :=
  let tags := parseTagMap raw
  match tagGet tags "p" with
  | none => .error (.record "DKIM".toList "missing public key (p=)".toList)
  | some publicKey => .ok ⟨tagGet tags "v", tagGet tags "k", publicKey⟩

/-! ## 3. DMARC policies -/

inductive DmarcPolicy where
  | none
  | quarantine
  | reject
  deriving DecidableEq, Repr

inductive AlignmentMode where
  | relaxed
  | strict
  deriving DecidableEq, Repr

def AlignmentMode.parse (value : Option Str) : AlignmentMode :=
  if value = some "s".toList then .strict else .relaxed

structure DmarcRecord where
  policy : DmarcPolicy
  subdomainPolicy : Option DmarcPolicy
  adkim : AlignmentMode
  aspf : AlignmentMode
  pct : Nat
  rua : Option Str
  deriving DecidableEq, Repr

def parsePolicy (value : Option Str) : Option DmarcPolicy :=
  if value = some "none".toList then some .none
  else if value = some "quarantine".toList then some .quarantine
  else if value = some "reject".toList then some .reject
  else none

def DmarcRecord.parse (raw : Str) : Except NetworkError DmarcRecord :=
  let tags := parseTagMap raw
  if tagGet tags "v" ≠ some "DMARC1".toList then
    .error (.record "DMARC".toList "not a DMARC1 record".toList)
  else match parsePolicy (tagGet tags "p") with
    | none => .error (.record "DMARC".toList "missing or invalid p=".toList)
    | some policy =>
        .ok {
          policy
          subdomainPolicy := (tagGet tags "sp").bind fun s => parsePolicy (some s)
          adkim := AlignmentMode.parse (tagGet tags "adkim")
          aspf := AlignmentMode.parse (tagGet tags "aspf")
          pct := (((tagGet tags "pct").bind (parseUnsigned 255)).filter (· ≤ 100)).getD 100
          rua := tagGet tags "rua" }

/-! ## 4. Resolvers -/

/-- `DnsResolver`: the four raw lookups.  The answers are those of one evaluation; between two
evaluations a resolver may change its mind. -/
structure DnsResolver where
  lookupMx : Str → Except NetworkError (List MxRecord)
  lookupIp : Str → Except NetworkError (List IpAddr)
  lookupTxt : Str → Except NetworkError (List Str)
  reverseLookup : IpAddr → Except NetworkError (List Str)

-- the first TXT record at `name` that parses
def DnsResolver.lookupParsed {α : Type} (resolver : DnsResolver) (kind : String)
    (parse : Str → Except NetworkError α) (name : Str) : Except NetworkError α :=
  match resolver.lookupTxt name with
  | .error e => .error e
  | .ok txts =>
      match txts.findSome? fun txt => (parse txt).toOption with
      | some record => .ok record
      | none =>
          .error (.record kind.toList
            ("no parseable ".toList ++ kind.toList ++ " record at ".toList ++ name))

def DnsResolver.lookupDkim (resolver : DnsResolver) (selector domain : Str) :
    Except NetworkError DkimRecord :=
  resolver.lookupParsed "DKIM" DkimRecord.parse (selector ++ "._domainkey.".toList ++ domain)

def DnsResolver.lookupDmarc (resolver : DnsResolver) (domain : Str) :
    Except NetworkError DmarcRecord :=
  resolver.lookupParsed "DMARC" DmarcRecord.parse ("_dmarc.".toList ++ domain)

/-! ## 5. Records that DNSSEC vouches for -/

inductive TlsaUsage where
  | pkixTa
  | pkixEe
  | daneTa
  | daneEe
  | other (value : UInt8)
  deriving DecidableEq, Repr

inductive TlsaSelector where
  | full
  | spki
  | other (value : UInt8)
  deriving DecidableEq, Repr

inductive TlsaMatching where
  | full
  | sha256
  | sha512
  | other (value : UInt8)
  deriving DecidableEq, Repr

structure TlsaRecord where
  usage : TlsaUsage
  selector : TlsaSelector
  matching : TlsaMatching
  data : Bytes
  deriving DecidableEq, Repr

def TlsaUsage.isDane : TlsaUsage → Bool
  | .daneEe | .daneTa => true
  | _ => false

def TlsaSelector.isKnown : TlsaSelector → Bool
  | .other _ => false
  | _ => true

def TlsaMatching.isKnown : TlsaMatching → Bool
  | .other _ => false
  | _ => true

def TlsaRecord.isUsable (record : TlsaRecord) : Bool :=
  record.usage.isDane && record.selector.isKnown && record.matching.isKnown

def hasUsableTlsa (records : List TlsaRecord) : Bool := records.any TlsaRecord.isUsable

/-- A `DnsResolver` with the two validated lookups; `none` where nothing is securely published. -/
structure SecureResolver extends DnsResolver where
  secureTlsa : Nat → Str → Except NetworkError (Option (List TlsaRecord))
  secureMx : Str → Except NetworkError (Option (List MxRecord))

end Snail.Network
