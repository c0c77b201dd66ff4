import Snail.Network.Dns

/-!
# Dane — certificates that TLSA records stand for

The validated lookups of `crates/network/src/dns/manager.rs` and the certificate verifier of
`crates/network/src/dane/mod.rs`.  What the resolver library says of an answer, and the X.509 and
PKIX libraries of a certificate, is left open.
-/

open Snail.Reasoning

namespace Snail.Network

/-! ## 1. Validated lookups -/

inductive RecordType where
  | mx
  | tlsa
  | other
  deriving DecidableEq, Repr

inductive RData where
  | mx (preference : Nat) (exchange : Str)
  | tlsa (certUsage selector matching : UInt8) (certData : Bytes)
  | other
  deriving DecidableEq, Repr

/-- A record of an answer; `secure` is the proof of DNSSEC. -/
structure DnsAnswer where
  data : RData
  secure : Bool
  deriving DecidableEq, Repr

def DnsAnswer.recordType (answer : DnsAnswer) : RecordType :=
  match answer.data with
  | .mx _ _ => .mx
  | .tlsa _ _ _ _ => .tlsa
  | .other => .other

def TlsaUsage.fromU8 : UInt8 → TlsaUsage
  | 0 => .pkixTa
  | 1 => .pkixEe
  | 2 => .daneTa
  | 3 => .daneEe
  | value => .other value

def TlsaSelector.fromU8 : UInt8 → TlsaSelector
  | 0 => .full
  | 1 => .spki
  | value => .other value

def TlsaMatching.fromU8 : UInt8 → TlsaMatching
  | 0 => .full
  | 1 => .sha256
  | 2 => .sha512
  | value => .other value

-- `map_tlsa`, on the records that it is for
def DnsAnswer.tlsa? (answer : DnsAnswer) : Option TlsaRecord :=
  match answer.data with
  | .tlsa usage selector matching data =>
      some ⟨.fromU8 usage, .fromU8 selector, .fromU8 matching, data⟩
  | _ => none

theorem DnsAnswer.recordType_of_tlsa {answer : DnsAnswer} {r : TlsaRecord}
    (h : answer.tlsa? = some r) : answer.recordType = .tlsa := by
  unfold tlsa? at h
  unfold recordType
  split at h
  · rename_i hdata
    rw [hdata]
  · cases h

-- `map_mx` and `strip_root`
def DnsAnswer.mx? (answer : DnsAnswer) : Option MxRecord :=
  match answer.data with
  | .mx preference exchange => some ⟨preference, trimEndMatches '.' exchange⟩
  | _ => none

/-- The two resolvers: the plain one, and the answers of the one that validates. -/
structure HickoryResolver where
  inner : DnsResolver
  validating : Str → RecordType → Except NetworkError (List DnsAnswer)

variable (h : HickoryResolver)

def HickoryResolver.secureAnswers (name : Str) (type : RecordType) : Option (List DnsAnswer) :=
  (h.validating name type).toOption.bind fun all =>
    let answers := all.filter fun r => r.recordType = type
    if answers = [] then none else if answers.all DnsAnswer.secure then some answers else none

def tlsaName (port : Nat) (host : Str) : Str :=
  '_' :: showNat port ++ "._tcp.".toList ++ trimEndMatches '.' host

-- `(!records.is_empty()).then_some(records)`
def unlessEmpty {α : Type} (records : List α) : Option (List α) :=
  if records.isEmpty then none else some records

def HickoryResolver.toSecureResolver : SecureResolver where
  toDnsResolver := h.inner
  secureTlsa port host := .ok ((h.secureAnswers (tlsaName port host) .tlsa).bind fun answers =>
    unlessEmpty (answers.filterMap DnsAnswer.tlsa?))
  secureMx domain := .ok ((h.secureAnswers domain .mx).bind fun answers =>
    unlessEmpty (answers.filterMap DnsAnswer.mx?))

variable {h}

/-- The records of a validated lookup come from secure answers. -/
theorem exists_secure_of_mem_secureTlsa {port : Nat} {host : Str} {records : List TlsaRecord}
    (hrecords : h.toSecureResolver.secureTlsa port host = .ok (some records)) {r : TlsaRecord}
    (hr : r ∈ records) :
    ∃ answers, h.validating (tlsaName port host) .tlsa = .ok answers ∧
      ∃ a ∈ answers, a.secure = true ∧ a.tlsa? = some r := by
  obtain ⟨answers, hanswers, hrest⟩ := Option.bind_eq_some_iff.mp (Except.ok.inj hrecords)
  obtain ⟨all, hall, hgate⟩ := Option.bind_eq_some_iff.mp hanswers
  refine ⟨all, toOption_eq_some_iff.mp hall, ?_⟩
  have hmem : r ∈ answers.filterMap DnsAnswer.tlsa? := by
    unfold unlessEmpty at hrest
    split at hrest
    · cases hrest
    · cases hrest
      exact hr
  obtain ⟨a, ha, hmap⟩ := List.mem_filterMap.mp hmem
  dsimp only at hgate
  split at hgate
  · cases hgate
  · split at hgate
    · rename_i hsecure
      cases hgate
      exact ⟨a, (List.mem_filter.mp ha).1, List.all_eq_true.mp hsecure a ha, hmap⟩
    · cases hgate

/-- No usable secure TLSA record is obtained: the validating lookup fails, one of the records is not
secure, or none of them is usable. -/
def HickoryResolver.Unprotected (h : HickoryResolver) (port : Nat) (host : Str) : Prop :=
  (∃ e, h.validating (tlsaName port host) .tlsa = .error e) ∨
    ∃ answers, h.validating (tlsaName port host) .tlsa = .ok answers ∧
      ((∃ a ∈ answers, a.recordType = .tlsa ∧ a.secure = false) ∨
        ∀ a ∈ answers, ∀ r, a.tlsa? = some r → r.isUsable = false)

theorem unprotected_or_usable (h : HickoryResolver) (port : Nat) (host : Str) :
    h.Unprotected port host ∨ ∃ records,
      h.toSecureResolver.secureTlsa port host = .ok (some records) ∧
        hasUsableTlsa records = true := by
  rw [HickoryResolver.Unprotected]
  cases hall : h.validating (tlsaName port host) .tlsa with
  | error e => exact .inl (.inl ⟨e, rfl⟩)
  | ok all =>
    by_cases hinsecure : ∃ a ∈ all, a.recordType = .tlsa ∧ a.secure = false
    · exact .inl (.inr ⟨all, rfl, .inl hinsecure⟩)
    by_cases hunusable : ∀ a ∈ all, ∀ r, a.tlsa? = some r → r.isUsable = false
    · exact .inl (.inr ⟨all, rfl, .inr hunusable⟩)
    push Not at hinsecure hunusable
    obtain ⟨a, ha, r, hr, husable⟩ := hunusable
    have hanswer : a ∈ all.filter fun b => b.recordType = .tlsa :=
      List.mem_filter.mpr ⟨ha, decide_eq_true (DnsAnswer.recordType_of_tlsa hr)⟩
    have hsecure : (all.filter fun b => b.recordType = .tlsa).all DnsAnswer.secure = true := by
      refine List.all_eq_true.mpr fun b hb => ?_
      obtain ⟨hb, htlsa⟩ := List.mem_filter.mp hb
      exact Bool.ne_false_iff.mp (hinsecure b hb (of_decide_eq_true htlsa))
    have hrecord := List.mem_filterMap.mpr ⟨a, hanswer, hr⟩
    refine .inr ⟨_, ?_, List.any_eq_true.mpr ⟨r, hrecord, Bool.ne_false_iff.mp husable⟩⟩
    have hanswers : h.secureAnswers (tlsaName port host) .tlsa =
        some (all.filter fun b => b.recordType = .tlsa) := by
      rw [HickoryResolver.secureAnswers, hall]
      exact (if_neg (List.ne_nil_of_mem hanswer)).trans (if_pos hsecure)
    change Except.ok ((h.secureAnswers _ _).bind _) = _
    rw [hanswers, Option.bind_some, unlessEmpty,
      if_neg (mt List.isEmpty_iff.mp (List.ne_nil_of_mem hrecord))]

/-! ## 2. The verifier -/

/-- What is taken from the libraries: the key of a certificate, the digests, whether a certificate
can be an anchor or an end entity, whether it chains to an anchor, and whether it is for a name. -/
structure Pki where
  spkiDer : Bytes → Option Bytes
  sha256 : Bytes → Bytes
  sha512 : Bytes → Bytes
  isAnchor : Bytes → Bool
  isEndEntity : Bytes → Bool
  chains : (endEntity anchor : Bytes) → (intermediates : List Bytes) → (now : Nat) → Bool
  isFor : (endEntity : Bytes) → (name : Str) → Bool

/-- The certificates that a server presents. -/
structure Presented where
  endEntity : Bytes
  intermediates : List Bytes

def Presented.certificates (shown : Presented) : List Bytes :=
  shown.endEntity :: shown.intermediates

namespace Pki

variable (pki : Pki)

def selectedContent (selector : TlsaSelector) (cert : Bytes) : Option Bytes :=
  match selector with
  | .full => some cert
  | .spki => pki.spkiDer cert
  | .other _ => none

def matchesAssociation (matching : TlsaMatching) (content data : Bytes) : Bool :=
  match matching with
  | .full => content = data
  | .sha256 => pki.sha256 content = data
  | .sha512 => pki.sha512 content = data
  | .other _ => false

def certMatches (tlsa : TlsaRecord) (cert : Bytes) : Bool :=
  match pki.selectedContent tlsa.selector cert with
  | some content => pki.matchesAssociation tlsa.matching content tlsa.data
  | none => false

def matchesDaneTa (tlsa : TlsaRecord) (shown : Presented) (name : Str) (now : Nat) : Bool :=
  match shown.certificates.find? (pki.certMatches tlsa) with
  | none => false
  | some ta =>
      if pki.isAnchor ta = false then false
      else if pki.isEndEntity shown.endEntity = false then false
      else if pki.chains shown.endEntity ta shown.intermediates now = false then false
      else pki.isFor shown.endEntity name

def matched (tlsa : TlsaRecord) (shown : Presented) (name : Str) (now : Nat) : Bool :=
  match tlsa.usage with
  | .daneEe => pki.certMatches tlsa shown.endEntity
  | .daneTa => pki.matchesDaneTa tlsa shown name now
  | .pkixTa | .pkixEe | .other _ => false

def verifyServerCert (tlsa : List TlsaRecord) (shown : Presented) (name : Str) (now : Nat) :
    Except Str Unit :=
  match tlsa with
  | [] => .error "DANE: no usable TLSA record matched the server certificate chain".toList
  | record :: rest =>
      if pki.matched record shown name now then .ok () else verifyServerCert rest shown name now

/-! ## 3. What a record vouches for -/

-- a certificate, or a key, or the digest of one
def Names (tlsa : TlsaRecord) (cert : Bytes) : Prop :=
  ∃ content, (tlsa.selector = .full ∧ content = cert ∨
      tlsa.selector = .spki ∧ pki.spkiDer cert = some content) ∧
    (tlsa.matching = .full ∧ tlsa.data = content ∨
      tlsa.matching = .sha256 ∧ tlsa.data = pki.sha256 content ∨
      tlsa.matching = .sha512 ∧ tlsa.data = pki.sha512 content)

-- in front of it no certificate is named
def NamesFirst (tlsa : TlsaRecord) (shown : Presented) (anchor : Bytes) : Prop :=
  pki.Names tlsa anchor ∧ ∃ front back, shown.certificates = front ++ anchor :: back ∧
    ∀ c ∈ front, ¬ pki.Names tlsa c

/-- The end entity is the one named, or it chains to the first certificate named and is for the host
that was asked. -/
def Vouches (tlsa : TlsaRecord) (shown : Presented) (name : Str) (now : Nat) : Prop :=
  tlsa.usage = .daneEe ∧ pki.Names tlsa shown.endEntity ∨
    tlsa.usage = .daneTa ∧ ∃ anchor, pki.NamesFirst tlsa shown anchor ∧
      pki.isAnchor anchor = true ∧ pki.isEndEntity shown.endEntity = true ∧
      pki.chains shown.endEntity anchor shown.intermediates now = true ∧
      pki.isFor shown.endEntity name = true

variable {pki} {tlsa : TlsaRecord} {shown : Presented} {name : Str} {now : Nat}

theorem certMatches_iff {cert : Bytes} :
    pki.certMatches tlsa cert = true ↔ pki.Names tlsa cert := by
  obtain ⟨usage, selector, matching, data⟩ := tlsa
  unfold certMatches Names selectedContent matchesAssociation
  cases selector <;> cases matching <;> cases pki.spkiDer cert <;> simp [eq_comm]

theorem find?_certMatches_iff {anchor : Bytes} :
    shown.certificates.find? (pki.certMatches tlsa) = some anchor ↔
      pki.NamesFirst tlsa shown anchor := by
  simp only [List.find?_eq_some_iff_append, NamesFirst, certMatches_iff, Bool.not_eq_true',
    ← Bool.not_eq_true]

theorem matched_iff :
    pki.matched tlsa shown name now = true ↔ pki.Vouches tlsa shown name now := by
  unfold matched Vouches
  cases husage : tlsa.usage with
  | daneEe => simp [certMatches_iff]
  | daneTa =>
    simp only [reduceCtorEq, false_and, true_and, false_or, ← find?_certMatches_iff, matchesDaneTa]
    cases shown.certificates.find? (pki.certMatches tlsa) with
    | none => simp
    | some anchor => simp
  | pkixTa => simp
  | pkixEe => simp
  | other value => simp

/-- A record that DANE cannot use vouches for nobody. -/
theorem Vouches.isUsable (hv : pki.Vouches tlsa shown name now) : tlsa.isUsable = true := by
  have hdane : tlsa.usage.isDane = true := by
    rcases hv with ⟨husage, -⟩ | ⟨husage, -⟩
    · rw [husage]
      rfl
    · rw [husage]
      rfl
  obtain ⟨cert, content, hselector, hmatching⟩ : ∃ cert, pki.Names tlsa cert := by
    rcases hv with ⟨-, hnames⟩ | ⟨-, anchor, hfirst, -⟩
    · exact ⟨_, hnames⟩
    · exact ⟨_, hfirst.1⟩
  have hknown : tlsa.selector.isKnown = true := by
    rcases hselector with ⟨h, -⟩ | ⟨h, -⟩ <;> rw [h] <;> rfl
  have hmatch : tlsa.matching.isKnown = true := by
    rcases hmatching with ⟨h, -⟩ | ⟨h, -⟩ | ⟨h, -⟩ <;> rw [h] <;> rfl
  rw [TlsaRecord.isUsable, hdane, hknown, hmatch]
  rfl

/-- The order of the records does not matter, and those that DANE cannot use do not either. -/
theorem verifyServerCert_iff {records : List TlsaRecord} :
    pki.verifyServerCert records shown name now = .ok () ↔
      ∃ r ∈ records, r.isUsable = true ∧ pki.Vouches r shown name now := by
  have hany : pki.verifyServerCert records shown name now = .ok () ↔
      ∃ r ∈ records, pki.Vouches r shown name now := by
    induction records with
    | nil => exact ⟨nofun, nofun⟩
    | cons record rest ih =>
      rw [verifyServerCert, List.exists_mem_cons_iff, ← matched_iff, ← ih]
      split
      · rename_i hmatched
        exact ⟨fun _ => .inl hmatched, fun _ => rfl⟩
      · rename_i hmatched
        exact ⟨.inr, fun hor => hor.resolve_left hmatched⟩
  rw [hany]
  constructor
  · rintro ⟨r, hr, hvouches⟩
    exact ⟨r, hr, hvouches.isUsable, hvouches⟩
  · rintro ⟨r, hr, -, hvouches⟩
    exact ⟨r, hr, hvouches⟩

end Pki

end Snail.Network
