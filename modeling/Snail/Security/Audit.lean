import Snail.Reasoning.Clock
import Snail.Reasoning.HashChain
import Snail.Reasoning.Ip
import Snail.Reasoning.Utf8

/-!
# Audit — the chained audit file

`crates/security/src/audit`: the encoding of an event (`audit_logger.rs`), and the file that keeps
one line for each event, the sequence number, the time, the event and the hash that chains it to the
line before (`sink.rs`).  The digest function is a parameter.
-/

open Snail.Reasoning

namespace Snail.Security

/-! ## 1. Events -/

inductive AuditEvent where
  | authSuccess (user : Str)
  | authFailure (user : Str) (ip : IpAddr)
  | blocked (ip : IpAddr) (reason : Str)
  | rateLimited (ip : IpAddr)
  | firewallPaused
  | firewallResumed
  deriving DecidableEq, Repr

-- `replace(['\t', '\n', '\r'], " ")`
def AuditEvent.sanitize (s : Str) : Str :=
  s.map fun c => if c = '\t' ∨ c = '\n' ∨ c = '\r' then ' ' else c

def AuditEvent.encode : AuditEvent → Str
  | .authSuccess user => "auth_success user=".toList ++ sanitize user
  | .authFailure user ip =>
      "auth_failure user=".toList ++ sanitize user ++ " ip=".toList ++ ip.toText
  | .blocked ip reason =>
      "blocked ip=".toList ++ ip.toText ++ " reason=".toList ++ sanitize reason
  | .rateLimited ip => "rate_limited ip=".toList ++ ip.toText
  | .firewallPaused => "firewall_paused".toList
  | .firewallResumed => "firewall_resumed".toList

/-! ## 2. The chain -/

-- `format!("{b:02x}")`
def hexByte (b : UInt8) : Str := [Nat.digitChar (b.toNat / 16), Nat.digitChar (b.toNat % 16)]

/-- `chain_hash`, over the digest function `blake2b512`. -/
def chainHash (blake2b512 : Bytes → Bytes) (prevHashHex payload : Str) : Str :=
  (blake2b512 (encodeUtf8 prevHashHex ++ lf :: encodeUtf8 payload)).flatMap hexByte

inductive ChainStatus where
  | valid (records : Nat)
  | brokenAt (line : Nat)
  deriving DecidableEq, Repr

-- one line: what is hashed, and the hash
def recordLine (record : Str × Str) : Str := record.1 ++ '\t' :: record.2

-- the loop of `verify`; the index of a line is the number of the records verified in front of it
def verifyLines (blake2b512 : Bytes → Bytes) : Str → Nat → List Str → ChainStatus
  | _, records, [] => .valid records
  | prev, records, line :: rest =>
      match rsplitOnce '\t' line with
      | none => .brokenAt records
      | some (payload, hash) =>
          if chainHash blake2b512 prev payload ≠ hash then .brokenAt records
          else verifyLines blake2b512 hash (records + 1) rest

/-- `DurableAuditSink::verify` on what the file holds; `none` is a missing file. -/
def DurableAuditSink.verify (blake2b512 : Bytes → Bytes) : Option Str → ChainStatus
  | none => .valid 0
  | some text => verifyLines blake2b512 [] 0 (lines text)

-- one turn of the loop of `tip`
def tipStep (found : Str × Nat) (line : Str) : Str × Nat :=
  match rsplitOnce '\t' line with
  | none => found
  | some (payload, hash) =>
      match (payload.splitOn '\t').head?.bind (parseUnsigned (2 ^ 64 - 1)) with
      | some s => (hash, s + 1)
      | none => (hash, found.2)

/-- `tip`: the last hash and the next sequence number. -/
def tip (text : Str) : Str × Nat := (lines text).foldl tipStep ([], 0)

/-! ## 3. The sink -/

/-- An open `DurableAuditSink`: what its file holds, and the state behind the mutex. -/
structure DurableAuditSink where
  text : Str
  prevHash : Str
  seq : Nat
  deriving DecidableEq, Repr

/-- `DurableAuditSink::open`; `none` is a missing file. -/
def DurableAuditSink.open (file : Option Str) : DurableAuditSink :=
  match file with
  | some existing => ⟨existing, (tip existing).1, (tip existing).2⟩
  | none => ⟨[], [], 0⟩

def auditPayload (seq : Nat) (now : SystemTime) (event : AuditEvent) : Str :=
  showNat seq ++ '\t' :: (showNat now.toSecs ++ '\t' :: event.encode)

-- the record of an event behind `seq` others
def auditRecord (blake2b512 : Bytes → Bytes) (prevHash : Str) (seq : Nat) (now : SystemTime)
    (event : AuditEvent) : Str × Str :=
  (auditPayload seq now event, chainHash blake2b512 prevHash (auditPayload seq now event))

-- offsets in a file are 64-bit signed numbers
def maxFileLen : Nat := 2 ^ 63 - 1

/-- `DurableAuditSink::append`, where the write is completed: a file that would grow past the
greatest offset is an error. -/
def DurableAuditSink.append (blake2b512 : Bytes → Bytes) (sink : DurableAuditSink)
    (now : SystemTime) (event : AuditEvent) : Option DurableAuditSink :=
  let record := auditRecord blake2b512 sink.prevHash sink.seq now event
  let text := sink.text ++ (recordLine record ++ ['\n'])
  if text.length ≤ maxFileLen then some ⟨text, record.2, sink.seq + 1⟩ else none

inductive SinkStep where
  | append (now : SystemTime) (event : AuditEvent)
  | reopen

def SinkStep.run (blake2b512 : Bytes → Bytes) (sink : DurableAuditSink) :
    SinkStep → Option DurableAuditSink
  | .append now event => sink.append blake2b512 now event
  | .reopen => some (DurableAuditSink.open (some sink.text))

-- all steps of a run are completed
def DurableAuditSink.runs (blake2b512 : Bytes → Bytes) (sink : DurableAuditSink)
    (steps : List SinkStep) : Option DurableAuditSink :=
  steps.foldlM (SinkStep.run blake2b512) sink

-- the event a step appends, with its time
def SinkStep.entry? : SinkStep → Option (SystemTime × AuditEvent)
  | .append now event => some (now, event)
  | .reopen => none

end Snail.Security
