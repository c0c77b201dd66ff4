import Snail.Network.Dns
import Snail.Network.Dkim.Canonicalize

/-!
# Signature — parsing a DKIM-Signature field

`crates/network/src/dkim/signature.rs`.  Hashing, base64 and the signature schemes are third-party
code; they enter as the fields of `Crypto`.
-/

open Snail.Reasoning

namespace Snail.Network

/-- What the verifier uses of `sha2`, `base64`, `rsa` and `ed25519_dalek`. -/
structure Crypto where
  sha256 : Bytes → Bytes
  /-- The standard alphabet with padding; the error is printed. -/
  base64Decode : Bytes → Except Str Bytes
  RsaPublicKey : Type
  rsaFromPublicKeyDer : Bytes → Option RsaPublicKey
  rsaFromPkcs1Der : Bytes → Option RsaPublicKey
  /-- PKCS#1 v1.5 over a SHA-256 digest: key, digest, signature. -/
  rsaVerify : RsaPublicKey → Bytes → Bytes → Bool
  Ed25519Key : Type
  ed25519FromBytes : Bytes → Option Ed25519Key
  /-- `verify_strict`: key, message, signature. -/
  ed25519Verify : Ed25519Key → Bytes → Bytes → Bool

inductive Algorithm where
  | rsaSha256
  | ed25519Sha256
  deriving DecidableEq, Repr

structure DkimSignature where
  algorithm : Algorithm
  signature : Bytes
  bodyHash : Bytes
  headerCanon : HeaderCanon
  bodyCanon : BodyCanon
  domain : Str
  selector : Str
  signedHeaders : List Str
  bodyLength : Option Nat
  expiration : Option Nat
  bStrippedValue : Bytes
  deriving DecidableEq, Repr

def dkimErr {α : Type} (reason : Str) : Except NetworkError α :=
  .error (.record "DKIM".toList reason)

def Algorithm.parse (a : Str) : Except NetworkError Algorithm :=
  let lower := toAsciiLowercase a
  if lower = "rsa-sha256".toList then .ok .rsaSha256
  else if lower = "ed25519-sha256".toList then .ok .ed25519Sha256
  else dkimErr ("unsupported algorithm `".toList ++ lower ++ "`".toList)

/-- `decode_b64`: white space inside the value is ignored. -/
def decodeB64 (crypto : Crypto) (value : Str) : Except NetworkError Bytes :=
  match crypto.base64Decode (encodeUtf8 (value.filter fun c => !isWhitespace c)) with
  | .ok bytes => .ok bytes
  | .error e => dkimErr ("invalid base64: ".toList ++ e)

/-- `strip_b_value`: the value of every `b` tag is removed, everything else stays. -/
def stripBValue (value : Str) : Str :=
  List.intercalate [';'] ((value.splitOn ';').map fun segment =>
    match splitOnce '=' segment with
    | some (key, _) => if trim key = "b".toList then key ++ ['='] else segment
    | none => segment)

def requireTag (tags : List (Str × Str)) (key : String) : Except NetworkError Str :=
  match tagGet tags key with
  | some value => .ok value
  | none => dkimErr ("missing ".toList ++ key.toList ++ "=".toList)

theorem tagGet_of_requireTag {tags : List (Str × Str)} {key : String} {value : Str}
    (h : requireTag tags key = .ok value) : tagGet tags key = some value := by
  unfold requireTag at h
  split at h
  · rename_i found hfound
    cases h
    exact hfound
  · cases h

-- an optional number tag
def numberTag (tags : List (Str × Str)) (key reason : String) :
    Except NetworkError (Option Nat) :=
  match tagGet tags key with
  | none => .ok none
  | some value =>
      match parseUnsigned (2 ^ 64 - 1) value with
      | some n => .ok (some n)
      | none => dkimErr reason.toList

-- the names of an `h=` tag, in signing order
def parseSignedHeaders (value : Str) : List Str :=
  ((value.splitOn ':').map fun h => toAsciiLowercase (trim h)).filter (· ≠ [])

def DkimSignature.parse (crypto : Crypto) (rawValue : Bytes) :
    Except NetworkError DkimSignature := do
  let text := decodeLossy rawValue
  let tags := parseTagMap text
  match tagGet tags "v" with
  | some v =>
      if v ≠ "1".toList then dkimErr ("unsupported DKIM version `".toList ++ v ++ "`".toList)
  | none => pure ()
  let algorithm ← Algorithm.parse (← requireTag tags "a")
  let signature ← decodeB64 crypto (← requireTag tags "b")
  let bodyHash ← decodeB64 crypto (← requireTag tags "bh")
  let (headerCanon, bodyCanon) := parseCanon (tagGet tags "c")
  let domain ← requireTag tags "d"
  let selector ← requireTag tags "s"
  let signedHeaders := parseSignedHeaders (← requireTag tags "h")
  if signedHeaders = [] then dkimErr "h= lists no header fields".toList
  let bodyLength ← numberTag tags "l" "bad l= length"
  let expiration ← numberTag tags "x" "bad x= expiration"
  return ⟨algorithm, signature, bodyHash, headerCanon, bodyCanon, domain, selector, signedHeaders,
    bodyLength, expiration, encodeUtf8 (stripBValue text)⟩

-- a signature that parses has a `b` tag
theorem signature_of_parse {crypto : Crypto} {value : Bytes} {sig : DkimSignature}
    (h : DkimSignature.parse crypto value = .ok sig) :
    ∃ b, tagGet (parseTagMap (decodeLossy value)) "b" = some b := by
  unfold DkimSignature.parse at h
  dsimp only at h
  split at h
  on_goal 1 => split at h
  on_goal 1 => cases h
  all_goals
    iterate 2 obtain ⟨_, -, h⟩ := exists_of_bind_eq_ok h
    obtain ⟨b, hb, -⟩ := exists_of_bind_eq_ok h
    exact ⟨b, tagGet_of_requireTag hb⟩

end Snail.Network
