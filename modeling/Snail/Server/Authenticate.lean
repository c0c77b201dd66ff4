import Snail.Network.Dkim.Fields
import Snail.Network.Dkim.Select
import Snail.Network.Spf.Budget
import Snail.Server.Received
import Snail.Server.Server

/-!
# Authenticate — what a message must pass before it is accepted

The middle part of the two SMTP loops of `services/snail_server/src/serve.rs`: from the collected
bytes to the stamped message that goes to `accept_inbound`, or to the reply that refuses it.
-/

set_option linter.dupNamespace false

open Snail.Reasoning Snail.Mail Snail.Network

namespace Snail.Server

/-! ## 1. The From domain -/

-- `rfind`
def rfind (c : Char) (s : Str) : Option Nat := (rsplitOnce c s).map fun p => p.1.length

-- the address inside the last angle brackets, or the whole value
def fromAddress (value : Str) : Str :=
  match rfind '<' value, rfind '>' value with
  | some l, some r => if l < r then (value.take r).drop (l + 1) else trim value
  | _, _ => trim value

/-- `from_header_domain`. -/
def fromHeaderDomain (value : Str) : Option Str :=
  (rsplitOnce '@' (fromAddress value)).bind fun p =>
    let domain := trim (trimEndMatches '>' (trim p.2))
    if domain = [] then none else some (toAsciiLowercase domain)

example : fromHeaderDomain "Ann <ann@X.org>".toList = some "x.org".toList := by decide
example : fromHeaderDomain "ann@x.org (Ann)".toList = some "x.org (ann)".toList := by decide

/-! ## 2. SPF, DKIM and DMARC -/

/-- The clock readings of one acceptance: of the DKIM verifier, of the DMARC sampling and of the
trace line. -/
structure Clocks where
  dkim : SystemTime
  dmarc : SystemTime
  stamp : SystemTime

structure InboundAuth where
  spf : Option Spf.SpfResult
  dkim : List DkimOutcome
  fromDomain : Str
  dmarc : Option DmarcResult

def mailFromText (envelope : Envelope) : Str := (envelope.sender.map Mailbox.toString).getD []

def fromDomainOf (headers : Headers) : Str :=
  ((headers.get "From".toList).bind fromHeaderDomain).getD []

def spfDomainOf (helo mailFrom : Str) : Str := ((rsplitOnce '@' mailFrom).map Prod.snd).getD helo

def dkimPass (dkim : List DkimOutcome) : List Str :=
  (dkim.filter fun o => o.result = .pass).map DkimOutcome.domain

-- without a resolver nothing is checked
def Server.authenticate (server : Server) (clocks : Clocks) (peer : IpAddr) (helo mailFrom : Str)
    (message : Message) : InboundAuth :=
  let spf := server.resolver.map fun r => Spf.evaluate r peer helo mailFrom
  let dkim := server.resolver.elim [] fun r =>
    verify server.crypto r clocks.dkim message.toBytes
  let fromDomain := fromDomainOf message.headers
  { spf
    dkim
    fromDomain
    dmarc := (server.resolver.filter fun _ => fromDomain ≠ []).map fun r =>
      evaluateDmarc server.psl r clocks.dmarc fromDomain (spf.getD .none)
        (spfDomainOf helo mailFrom) (dkimPass dkim) }

/-! ## 3. From the collected bytes to a stamped message -/

def noRecipients : Str := "554 no valid recipients\r\n".toList
def parseErrorReply : Str := "554 message parse error\r\n".toList
def loopReply : Str := "554 too many Received headers; possible mail loop\r\n".toList
def spfReply : Str := "550 5.7.23 SPF validation failed\r\n".toList
def dmarcReply : Str := "550 5.7.1 DMARC policy: message rejected\r\n".toList

-- the part the two loops share
def readMessage (envelope : Option Envelope) (collector : InboundCollector) : Except Str Message :=
  match envelope with
  | none => .error noRecipients
  | some envelope =>
      match collector.intoMessage envelope with
      | .error _ => .error parseErrorReply
      | .ok message =>
          if message.receivedHeaderCount ≥ maxReceivedHops then .error loopReply else .ok message

-- Authentication-Results below, then Received-SPF, then the hop on top
def Server.stampInbound (server : Server) (clocks : Clocks) (tls : Bool) (peer : IpAddr)
    (helo mailFrom : Str) (auth : InboundAuth) (message : Message) : Message :=
  let m := message.prependHeader (authenticationResultsHeader server.hostName auth.spf mailFrom
    auth.dkim (auth.dmarc.map DmarcResult.asStr) auth.fromDomain)
  let m := auth.spf.elim m fun result =>
    m.prependHeader (receivedSpfHeader result.asStr server.hostName peer.toText mailFrom helo)
  m.prependHeader (receivedHeader helo server.hostName (protocol false tls) clocks.stamp)

-- the checks of the public port
def Server.screenInbound (server : Server) (clocks : Clocks) (tls : Bool) (peer : IpAddr)
    (helo : Str) (message : Message) : Except Str Message :=
  let mailFrom := mailFromText message.envelope
  let auth := server.authenticate clocks peer helo mailFrom message
  if auth.spf = some .fail ∧ server.spfEnforce then .error spfReply
  else if server.dmarcEnforce ∧ auth.dmarc.map DmarcResult.disposition = some .reject then
    .error dmarcReply
  else .ok (server.stampInbound clocks tls peer helo mailFrom auth message)

def Server.stampSubmission (server : Server) (clocks : Clocks) (tls : Bool) (helo : Str)
    (message : Message) : Message :=
  message.prependHeader (receivedHeader helo server.hostName (protocol true tls) clocks.stamp)

theorem readMessage_ok {taken : Option Envelope} {collector : InboundCollector} {m : Message}
    (h : readMessage taken collector = .ok m) :
    ∃ envelope, taken = some envelope ∧ collector.intoMessage envelope = .ok m ∧
      m.receivedHeaderCount < maxReceivedHops := by
  unfold readMessage at h
  split at h
  · cases h
  · rename_i envelope
    split at h
    · cases h
    · rename_i m' hinto
      split at h
      · cases h
      · rename_i hcount
        cases h
        exact ⟨envelope, rfl, hinto, Nat.lt_of_not_le hcount⟩

theorem screenInbound_ok {server : Server} {clocks : Clocks} {tls : Bool} {peer : IpAddr}
    {helo : Str} {m m' : Message} (h : server.screenInbound clocks tls peer helo m = .ok m') :
    m' = server.stampInbound clocks tls peer helo (mailFromText m.envelope)
      (server.authenticate clocks peer helo (mailFromText m.envelope) m) m := by
  unfold Server.screenInbound at h
  dsimp only at h
  split at h
  · cases h
  split at h
  · cases h
  · exact (Except.ok.inj h).symm

/-! ## 4. The From field a DMARC pass by DKIM speaks for -/

def isFrom (name : Str) : Bool := eqIgnoreAsciiCase name "From".toList

/-- The signature in field `idx` passes, and the DMARC evaluation reports alignment through its
domain. -/
structure VouchedBy (server : Server) (clocks : Clocks) (peer : IpAddr) (helo mailFrom : Str)
    (m : Message) (resolver : DnsResolver) (idx : Nat) (field : HeaderField) (sig : DkimSignature)
    (result : DmarcResult) (record : DmarcRecord) : Prop where
  resolved : server.resolver = some resolver
  located : (parseFields (splitMessage m.toBytes).1)[idx]? = some field
  named : eqIgnoreAsciiCase field.name "DKIM-Signature".toList = true
  parsed : DkimSignature.parse server.crypto field.value = .ok sig
  passes : verifyOne server.crypto resolver clocks.dkim (parseFields (splitMessage m.toBytes).1) idx
    field sig (splitMessage m.toBytes).2 = .pass
  reported : (server.authenticate clocks peer helo mailFrom m).dmarc = some result
  aligned : result.dkimAligned = true
  published : result.published = some record
  through : Network.aligned server.psl sig.domain (trimDomain (fromDomainOf m.headers))
    record.adkim = true

section
variable {server : Server} {clocks : Clocks} {peer : IpAddr} {helo mailFrom : Str} {m : Message}
  {resolver : DnsResolver} {idx : Nat} {field : HeaderField} {sig : DkimSignature}
  {result : DmarcResult} {record : DmarcRecord}

theorem VouchedBy.fromDomain_ne_nil
    (h : VouchedBy server clocks peer helo mailFrom m resolver idx field sig result record) :
    fromDomainOf m.headers ≠ [] := by
  intro hnil
  have hrep := h.reported
  simp [Server.authenticate, hnil] at hrep

theorem VouchedBy.not_isFrom
    (h : VouchedBy server clocks peer helo mailFrom m resolver idx field sig result record) :
    isFrom field.name = false := by
  have hname := eqIgnoreAsciiCase_iff.mp h.named
  unfold isFrom eqIgnoreAsciiCase
  rw [hname]
  decide

-- where the first From stands among the fields
theorem exists_first_from {fields : List HeaderField} {headers : Headers}
    (hentries : headers.entries = fields.map HeaderField.entry)
    (hfrom : fromDomainOf headers ≠ []) :
    ∃ above f below, fields = above ++ f :: below ∧ isFrom f.name = true ∧
      (∀ g ∈ above, isFrom g.name = false) ∧
      fromHeaderDomain f.entry.2 = some (fromDomainOf headers) := by
  unfold fromDomainOf Headers.get at hfrom ⊢
  cases hfind : headers.entries.find? fun e => eqIgnoreAsciiCase e.1 "From".toList with
  | none =>
    rw [hfind] at hfrom
    exact absurd rfl hfrom
  | some e =>
    rw [hfind] at hfrom
    rw [hentries, List.find?_map, Option.map_eq_some_iff] at hfind
    rcases hfind with ⟨f, hf, rfl⟩
    rcases List.find?_eq_some_iff_append.mp hf with ⟨hname, above, below, hfields, habove⟩
    refine ⟨above, f, below, hfields, hname, ?_, ?_⟩
    · intro g hg
      have hnot := habove g hg
      simpa [isFrom, HeaderField.entry] using hnot
    · cases hdom : fromHeaderDomain f.entry.2 with
      | none => simp [hdom] at hfrom
      | some d => simp [hdom]

theorem candidates_from {fields : List HeaderField} (hidx : fields[idx]? = some field)
    (hfield : isFrom field.name = false) :
    candidates fields idx "From".toList = fields.zipIdx.filter fun fi => isFrom fi.1.name := by
  unfold candidates
  apply List.filter_congr
  intro fi hfi
  by_cases hi : fi.2 = idx
  · have hget := List.mem_zipIdx_iff_getElem?.mp hfi
    rw [hi, hidx, Option.some.injEq] at hget
    rw [← hget, hfield]
    simp [hi]
  · simp [hi, isFrom]

theorem length_filter_zipIdx {α : Type} (l : List α) (p : α → Bool) :
    (l.zipIdx.filter fun x => p x.1).length = l.countP p := by
  have hmap := List.countP_map (p := p) (f := Prod.fst) (l := l.zipIdx)
  rw [List.zipIdx_map_fst] at hmap
  rw [← List.countP_eq_length_filter, hmap]
  rfl

/-- The From field whose domain DMARC has checked is among the fields a passing, aligned signature
covers exactly when its `h=` tag mentions From as often as the message has From fields. -/
theorem dkim_alignment_covers_from_iff {envelope : Envelope} {raw : Bytes} (hraw : Assembled raw)
    (hparse : Message.parse envelope raw = .ok m)
    (hv : VouchedBy server clocks peer helo mailFrom m resolver idx field sig result record) :
    ∃ k f, m.headers.entries.findIdx? (fun e => isFrom e.1) = some k ∧
      m.headers.entries[k]? = some f.entry ∧
      fromHeaderDomain f.entry.2 = some (fromDomainOf m.headers) ∧
      (parseFields (splitMessage raw).1)[k]? = some f ∧
      ((f, k) ∈ selectFields (parseFields (splitMessage raw).1) idx sig.signedHeaders [] ↔
        m.headers.entries.countP (fun e => isFrom e.1) ≤
          mentions sig.signedHeaders "From".toList) := by
  have hentries := (parse_eq_fields hraw.crlfLines.noBareLf hparse).1
  have hlocated := hv.located
  rw [(Message.toBytes_parse hparse).1] at hlocated
  generalize parseFields (splitMessage raw).1 = fields at hentries hlocated ⊢
  rcases exists_first_from hentries hv.fromDomain_ne_nil with
    ⟨above, f, below, hfields, hname, habove, hdomain⟩
  have hget : fields[above.length]? = some f := by
    rw [hfields]
    simp
  refine ⟨above.length, f, ?_, ?_, hdomain, hget, ?_⟩
  · rw [hentries, List.findIdx?_map, hfields, List.findIdx?_append]
    have hnone : above.findIdx? ((fun e => isFrom e.1) ∘ HeaderField.entry) = none := by
      rw [List.findIdx?_eq_none_iff]
      exact habove
    have hhere : ((fun e : Str × Str => isFrom e.1) ∘ HeaderField.entry) f = true := hname
    rw [hnone, List.findIdx?_cons, hhere]
    simp
  · rw [hentries, List.getElem?_map, hget]
    rfl
  · -- the candidates are all From fields, and the first of them is the one looked at
    have hcand := candidates_from hlocated hv.not_isFrom
    have hhead : (candidates fields idx "From".toList).head? = some (f, above.length) := by
      rw [hcand, List.head?_filter, List.find?_eq_some_iff_append]
      refine ⟨hname, above.zipIdx, below.zipIdx (above.length + 1), ?_, ?_⟩
      · rw [hfields, List.zipIdx_append, List.zipIdx_cons, Nat.zero_add]
      · intro gj hgj
        have hmem := List.mem_map_of_mem (f := Prod.fst) hgj
        rw [List.zipIdx_map_fst] at hmem
        simpa using habove gj.1 hmem
    rw [head_mem_selectFields_iff hhead, hcand,
      length_filter_zipIdx fields fun g => isFrom g.name, hentries, List.countP_map]
    rfl

end

/-! ## 5. A signature that leaves From out

A message signed over its subject alone by `x.org`, an Ed25519 domain.  The tables below hold the
values of the hash, the decoder and the signature scheme on what the verifier asks of them here. -/

def bodyDigest : Bytes :=
  [68, 114, 61, 212, 208, 224, 212, 106, 60, 127, 168, 172, 162, 84, 182, 28, 39, 182, 181, 120,
    159, 150, 23, 126, 130, 200, 7, 0, 64, 159, 21, 53]

def headerDigest : Bytes :=
  [155, 180, 249, 157, 232, 51, 145, 116, 11, 218, 148, 48, 158, 74, 135, 44, 15, 18, 255, 166,
    239, 27, 62, 6, 232, 104, 251, 105, 186, 106, 125, 211]

def signatureBytes : Bytes :=
  [209, 135, 198, 61, 232, 112, 4, 198, 83, 183, 87, 101, 159, 144, 33, 56, 127, 201, 22, 204, 170,
    234, 59, 223, 216, 251, 65, 214, 79, 212, 159, 194, 144, 77, 195, 142, 239, 140, 111, 14, 229,
    147, 234, 104, 142, 20, 201, 135, 56, 226, 190, 106, 208, 104, 118, 203, 137, 173, 183, 232,
    236, 55, 44, 12]

def keyBytes : Bytes :=
  [215, 90, 152, 1, 130, 177, 10, 183, 213, 75, 254, 211, 201, 100, 7, 58, 14, 225, 114, 243, 218,
    166, 35, 37, 175, 2, 26, 104, 247, 7, 81, 26]

def bodyDigest64 : String := "RHI91NDg1Go8f6isolS2HCe2tXiflhd+gsgHAECfFTU="

def signature64 : String :=
  "0YfGPehwBMZTt1dln5AhOH/JFsyq6jvf2PtB1k/Un8KQTcOO74xvDuWT6miOFMmHOOK+atBodsuJrbfo7DcsDA=="

def key64 : String := "11qYAYKxCrfVS/7TyWQHOg7hcvPapiMlrwIaaPcHURo="

def unsignedValue : Bytes :=
  ascii " v=1; a=ed25519-sha256; d=x.org; s=k; h=subject; bh=" ++ ascii bodyDigest64 ++ ascii "; b="

def subjectField : Bytes := ascii "Subject: hi\r\n"

def subjectOnly : Bytes :=
  ascii "DKIM-Signature:" ++ unsignedValue ++ ascii signature64 ++
    ascii "\r\nFrom: ceo@x.org\r\n" ++ subjectField ++ ascii "\r\nhi\r\n"

def tableCrypto : Crypto where
  sha256 bytes :=
    if bytes = ascii "hi\r\n" then bodyDigest
    else if bytes = subjectField ++ ascii "DKIM-Signature:" ++ unsignedValue then headerDigest
    else []
  base64Decode text :=
    if text = ascii bodyDigest64 then .ok bodyDigest
    else if text = ascii signature64 then .ok signatureBytes
    else if text = ascii key64 then .ok keyBytes
    else .error []
  RsaPublicKey := Empty
  rsaFromPublicKeyDer _ := none
  rsaFromPkcs1Der _ := none
  rsaVerify _ _ _ := false
  Ed25519Key := Bytes
  ed25519FromBytes := some
  ed25519Verify key message signature :=
    key == keyBytes && message == headerDigest && signature == signatureBytes

def tableResolver : DnsResolver where
  lookupMx _ := .error (.io [])
  lookupIp _ := .error (.io [])
  lookupTxt name :=
    if name = "k._domainkey.x.org".toList then
      .ok ["v=DKIM1; k=ed25519; p=".toList ++ key64.toList]
    else if name = "_dmarc.x.org".toList then .ok ["v=DMARC1; p=reject".toList]
    else .error (.io [])
  reverseLookup _ := .error (.io [])

def tableServer : Server where
  mta := Mta.new nullFilter ["y.org".toList]
  auth := ⟨fun _ _ => false, fun _ => none⟩
  hostName := "y.org".toList
  relay := false
  tls := false
  maxMessageSize := 4096
  resolver := some tableResolver
  spfEnforce := true
  dmarcEnforce := true
  greylist := none
  throttle := .default
  crypto := tableCrypto
  -- `x.org` is its own registrable domain
  psl domain := if domain = "x.org".toList then some domain else none

def subjectOnlySig : DkimSignature where
  algorithm := .ed25519Sha256
  signature := signatureBytes
  bodyHash := bodyDigest
  headerCanon := .simple
  bodyCanon := .simple
  domain := "x.org".toList
  selector := "k".toList
  signedHeaders := ["subject".toList]
  bodyLength := none
  expiration := none
  bStrippedValue := unsignedValue

def rejectPolicy : DmarcRecord where
  policy := .reject
  subdomainPolicy := none
  adkim := .relaxed
  aspf := .relaxed
  pct := 100
  rua := none

def subjectOnlyMessage : Message where
  envelope := ⟨none, [⟨"b".toList, "y.org".toList⟩]⟩
  headers := ⟨[("DKIM-Signature".toList, trim (decodeLossy (unsignedValue ++ ascii signature64))),
    ("From".toList, "ceo@x.org".toList), ("Subject".toList, "hi".toList)]⟩
  body := ascii "hi\r\n"
  rawHead := subjectOnly.dropLast.dropLast.dropLast.dropLast

-- what the parsers, the verifier and the evaluator compute on it
theorem eval_subjectOnly :
    (InboundCollector.assemble 4096 (subjectOnly ++ ascii ".\r\n")).body = subjectOnly ∧
      Message.parse subjectOnlyMessage.envelope subjectOnly = .ok subjectOnlyMessage ∧
      parseFields (splitMessage subjectOnlyMessage.toBytes).1 =
        [⟨"DKIM-Signature".toList, unsignedValue ++ ascii signature64⟩,
          ⟨"From".toList, ascii " ceo@x.org"⟩, ⟨"Subject".toList, ascii " hi"⟩] ∧
      DkimSignature.parse tableCrypto (unsignedValue ++ ascii signature64) = .ok subjectOnlySig ∧
      verifyOne tableCrypto tableResolver .unixEpoch
        [⟨"DKIM-Signature".toList, unsignedValue ++ ascii signature64⟩,
          ⟨"From".toList, ascii " ceo@x.org"⟩, ⟨"Subject".toList, ascii " hi"⟩] 0
        ⟨"DKIM-Signature".toList, unsignedValue ++ ascii signature64⟩ subjectOnlySig
        (splitMessage subjectOnlyMessage.toBytes).2 = .pass ∧
      (tableServer.authenticate ⟨.unixEpoch, .unixEpoch, .unixEpoch⟩ (.v4 0) "x".toList []
        subjectOnlyMessage).dmarc =
        some ⟨true, true, false, true, .none, "x.org".toList, some rejectPolicy⟩ ∧
      (tableServer.screenInbound ⟨.unixEpoch, .unixEpoch, .unixEpoch⟩ false (.v4 0) "x".toList
        subjectOnlyMessage).toOption.isSome = true := by
  decide +kernel

theorem assembled_subjectOnly : Assembled subjectOnly := ⟨4096, _, eval_subjectOnly.1⟩

theorem vouched_subjectOnly :
    VouchedBy tableServer ⟨.unixEpoch, .unixEpoch, .unixEpoch⟩ (.v4 0) "x".toList []
      subjectOnlyMessage tableResolver 0
      ⟨"DKIM-Signature".toList, unsignedValue ++ ascii signature64⟩ subjectOnlySig
      ⟨true, true, false, true, .none, "x.org".toList, some rejectPolicy⟩ rejectPolicy := by
  rcases eval_subjectOnly with ⟨-, -, hfields, hparsed, hpasses, hreported, -⟩
  exact {
    resolved := rfl
    located := by rw [hfields]; rfl
    named := by decide
    parsed := hparsed
    passes := by rw [hfields]; exact hpasses
    reported := hreported
    aligned := rfl
    published := rfl
    through := by decide +kernel }

theorem dkim_alignment_covers_from_iff_subjectOnly :
    Assembled subjectOnly ∧
      ∃ k f, subjectOnlyMessage.headers.entries.findIdx? (fun e => isFrom e.1) = some k ∧
        ((f, k) ∈ selectFields (parseFields (splitMessage subjectOnly).1) 0
            subjectOnlySig.signedHeaders [] ↔
          subjectOnlyMessage.headers.entries.countP (fun e => isFrom e.1) ≤
            mentions subjectOnlySig.signedHeaders "From".toList) := by
  rcases dkim_alignment_covers_from_iff assembled_subjectOnly eval_subjectOnly.2.1
    vouched_subjectOnly with ⟨k, f, hk, -, -, -, hiff⟩
  exact ⟨assembled_subjectOnly, k, f, hk, hiff⟩

/-- The message is accepted with a DMARC pass through its signature, and the From field that was
checked is not among the fields signed: any other address at `x.org` would pass as well. -/
theorem dkim_alignment_misses_from :
    Assembled subjectOnly ∧
      Message.parse subjectOnlyMessage.envelope subjectOnly = .ok subjectOnlyMessage ∧
      (tableServer.screenInbound ⟨.unixEpoch, .unixEpoch, .unixEpoch⟩ false (.v4 0) "x".toList
        subjectOnlyMessage).toOption.isSome = true ∧
      VouchedBy tableServer ⟨.unixEpoch, .unixEpoch, .unixEpoch⟩ (.v4 0) "x".toList []
        subjectOnlyMessage tableResolver 0
        ⟨"DKIM-Signature".toList, unsignedValue ++ ascii signature64⟩ subjectOnlySig
        ⟨true, true, false, true, .none, "x.org".toList, some rejectPolicy⟩ rejectPolicy ∧
      subjectOnlyMessage.headers.entries.findIdx? (fun e => isFrom e.1) = some 1 ∧
      1 ∉ (selectFields (parseFields (splitMessage subjectOnly).1) 0 subjectOnlySig.signedHeaders
        []).map Prod.snd := by
  have hfields := eval_subjectOnly.2.2.1
  rw [(Message.toBytes_parse eval_subjectOnly.2.1).1] at hfields
  refine ⟨assembled_subjectOnly, eval_subjectOnly.2.1, eval_subjectOnly.2.2.2.2.2.2,
    vouched_subjectOnly, by decide, ?_⟩
  rw [hfields]
  decide +kernel

end Snail.Server
