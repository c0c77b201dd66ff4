import Snail.Network.Dkim.Signature
import Snail.Reasoning.Clock

/-!
# Verify — verifying the DKIM signatures of a message

`crates/network/src/dkim/verify.rs`.  The verifier works on the bytes as received; every
`DKIM-Signature` field gives one outcome, in header order.
-/

open Snail.Reasoning

namespace Snail.Network

inductive DkimResult where
  | pass
  | fail
  | permError
  | tempError
  deriving DecidableEq, Repr

def DkimResult.asStr : DkimResult → Str
  | .pass => "pass".toList
  | .fail => "fail".toList
  | .permError => "permerror".toList
  | .tempError => "temperror".toList

structure DkimOutcome where
  domain : Str
  selector : Str
  result : DkimResult
  deriving DecidableEq, Repr

/-! ## 1. Header fields -/

/-- One field: the name, and everything after the colon with the folding kept. -/
structure HeaderField where
  name : Str
  value : Bytes
  deriving DecidableEq, Repr

def colon : UInt8 := 58

def splitMessage (raw : Bytes) : Bytes × Bytes :=
  match findSub (crlf ++ crlf) raw with
  | some p => (raw.take p, raw.drop (p + 4))
  | none => (raw, [])

-- a line that begins with white space continues the field before it
def isFolded (line : Bytes) : Bool := line.head? == some space || line.head? == some tab

-- the loop of `parse_fields` that joins folded lines: the lines left and the open block
def joinFolded : List Bytes → Option Bytes → List Bytes
  | [], current => current.toList
  | line :: rest, none => joinFolded rest (some line)
  | line :: rest, some block =>
      if isFolded line then joinFolded rest (some (block ++ crlf ++ line))
      else block :: joinFolded rest (some line)

-- a block with a colon is a field; any other is dropped
def parseField (block : Bytes) : Option HeaderField :=
  (splitOnce colon block).map fun nv => ⟨trim (decodeLossy nv.1), nv.2⟩

def parseFields (headers : Bytes) : List HeaderField :=
  (joinFolded (splitOnPair cr lf headers) none).filterMap parseField

/-! ## 2. The signed headers -/

-- the lowest field of that name that is neither the signature nor taken already
def pickField (fields : List HeaderField) (sigIdx : Nat) (consumed : List Nat) (name : Str) :
    Option (HeaderField × Nat) :=
  fields.zipIdx.reverse.find? fun fi =>
    fi.2 != sigIdx && !consumed.contains fi.2 && eqIgnoreAsciiCase fi.1.name name

-- the fields an `h=` list selects, in signing order, with their positions
def selectFields (fields : List HeaderField) (sigIdx : Nat) :
    List Str → List Nat → List (HeaderField × Nat)
  | [], _ => []
  | name :: names, consumed =>
      match pickField fields sigIdx consumed name with
      | some fi => fi :: selectFields fields sigIdx names (fi.2 :: consumed)
      | none => selectFields fields sigIdx names consumed

def computeHeaderHash (crypto : Crypto) (fields : List HeaderField) (sigIdx : Nat)
    (current : HeaderField) (sig : DkimSignature) : Bytes :=
  let selected := selectFields fields sigIdx sig.signedHeaders []
  crypto.sha256
    (selected.flatMap (fun fi => canonicalizeHeader fi.1.name fi.1.value sig.headerCanon true) ++
      canonicalizeHeader current.name sig.bStrippedValue sig.headerCanon false)

/-! ## 3. Verification -/

def rsaPublicKey (crypto : Crypto) (der : Bytes) : Option crypto.RsaPublicKey :=
  crypto.rsaFromPublicKeyDer der <|> crypto.rsaFromPkcs1Der der

-- step 5 of `verify_one`: the signature over the header hash
def verifySignature (crypto : Crypto) (sig : DkimSignature) (keyDer headerHash : Bytes) :
    DkimResult :=
  match sig.algorithm with
  | .rsaSha256 =>
      match rsaPublicKey crypto keyDer with
      | none => .permError
      | some key => if crypto.rsaVerify key headerHash sig.signature then .pass else .fail
  | .ed25519Sha256 =>
      if keyDer.length ≠ 32 then .permError
      else match crypto.ed25519FromBytes keyDer with
        | none => .permError
        | some key =>
            if sig.signature.length ≠ 64 then .permError
            else if crypto.ed25519Verify key headerHash sig.signature then .pass else .fail

-- the `k=` tag of a key names the algorithm family
def keyTypeMatches (algorithm : Algorithm) (keyType : Str) : Bool :=
  match algorithm with
  | .rsaSha256 => eqIgnoreAsciiCase keyType "rsa".toList
  | .ed25519Sha256 => eqIgnoreAsciiCase keyType "ed25519".toList

-- steps 3 to 5 of `verify_one`: key, header hash, signature
def verifyKey (crypto : Crypto) (resolver : DnsResolver) (fields : List HeaderField)
    (sigIdx : Nat) (current : HeaderField) (sig : DkimSignature) : DkimResult :=
  match resolver.lookupDkim sig.selector sig.domain with
  | .error _ => .permError
  | .ok record =>
      if record.publicKey = [] then .fail
      else if record.keyType.any fun k => !keyTypeMatches sig.algorithm k then .permError
      else match crypto.base64Decode (encodeUtf8 record.publicKey) with
        | .error _ => .permError
        | .ok keyDer =>
            verifySignature crypto sig keyDer (computeHeaderHash crypto fields sigIdx current sig)

def verifyOne (crypto : Crypto) (resolver : DnsResolver) (now : SystemTime)
    (fields : List HeaderField) (sigIdx : Nat) (current : HeaderField) (sig : DkimSignature)
    (body : Bytes) : DkimResult :=
  if sig.expiration.any fun exp => now.toSecs > exp then .fail
  else
    let canonBody := canonicalizeBody body sig.bodyCanon
    let hashed := sig.bodyLength.elim canonBody fun l => canonBody.take l
    if crypto.sha256 hashed ≠ sig.bodyHash then .fail
    else verifyKey crypto resolver fields sigIdx current sig

-- the outcome of one field, if it is a signature
def verifyField (crypto : Crypto) (resolver : DnsResolver) (now : SystemTime)
    (fields : List HeaderField) (body : Bytes) (field : HeaderField) (idx : Nat) :
    Option DkimOutcome :=
  if eqIgnoreAsciiCase field.name "DKIM-Signature".toList then
    match DkimSignature.parse crypto field.value with
    | .ok sig =>
        some ⟨sig.domain, sig.selector, verifyOne crypto resolver now fields idx field sig body⟩
    | .error _ => some ⟨[], [], .permError⟩
  else none

def verify (crypto : Crypto) (resolver : DnsResolver) (now : SystemTime) (rawMessage : Bytes) :
    List DkimOutcome :=
  let (headerSection, body) := splitMessage rawMessage
  let fields := parseFields headerSection
  fields.zipIdx.filterMap fun fi => verifyField crypto resolver now fields body fi.1 fi.2

end Snail.Network
