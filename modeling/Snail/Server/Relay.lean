import Mathlib.Data.List.Sort
import Snail.Network.MtaSts.Resolver
import Snail.Server.RelayTo

/-!
# Relay — one pass over the exchanges of a domain

`relay` of `services/snail_server/src/outbound.rs`: the exchanges in order of preference, the TLS
posture of each, and the calls of `relay_to` that follow.  The calls are on record; which of them
are made depends on the lookups, and on how the servers behave.
-/

open Snail.Reasoning Snail.Mail Snail.Network

namespace Snail.Server

variable {κ : Type}

/-! ## 1. What a pass is made with -/

/-- `MtaStsResolver` at one call: its cache, what the call meets, and the client configuration. -/
structure StsResolver (κ : Type) where
  cache : StsCache
  met : PolicyCall
  pkixConfig : κ

def StsResolver.policyFor (sts : StsResolver κ) (domain : Str) : Option MtaStsPolicy :=
  (sts.cache.policyFor { sts.met with domain }).1

/-- The arguments of `relay` and what it meets.  `daneClient` makes a configuration of TLSA records,
`peers` is who answers the connection of that number at an address, and `debug` is `{:?}`. -/
structure RelayPass (κ : Type) where
  resolver : SecureResolver
  helo : Str
  port : Nat
  message : Message
  tls : Option κ
  mtaSts : Option (StsResolver κ)
  dane : Bool
  daneClient : List TlsaRecord → Except NetworkError κ
  peers : Nat → Str → Peer κ
  debug : Str → Str

-- one call of `relay_to`
structure RelayCall (κ : Type) where
  addr : Str
  serverName : Str
  policy : TlsPolicy κ
  deriving DecidableEq, Repr

structure RelayResult (κ : Type) where
  calls : List (RelayCall κ)
  report : RelayReport
  deriving DecidableEq, Repr

def RelayReport.isFinal : RelayReport → Bool
  | .deferred _ _ => false
  | _ => true

namespace RelayPass

variable (p : RelayPass κ)

/-! ## 2. The exchanges and their postures -/

def domain : Option Str := p.message.envelope.recipients.head?.map Mailbox.domain

-- `unwrap_or(None)`: a failed lookup is no secure answer
def secureMx (domain : Str) : Option (List MxRecord) :=
  if p.dane then (p.resolver.secureMx domain).toOption.join else none

-- `sort_by_key` is stable
def sortMx (mxs : List MxRecord) : List MxRecord :=
  mxs.insertionSort fun a b => a.preference ≤ b.preference

def exchanges (domain : Str) : Except RelayReport (List MxRecord) :=
  match p.secureMx domain with
  | some mxs => .ok (sortMx mxs)
  | none =>
      match p.resolver.lookupMx domain with
      | .error e =>
          .error (.deferred 0 ("MX lookup for ".toList ++ domain ++ ": ".toList ++ e.toText))
      | .ok [] => .ok [⟨0, domain⟩]
      | .ok mxs => .ok (sortMx mxs)

def stsPolicy (domain : Str) : Option MtaStsPolicy :=
  if (p.secureMx domain).isSome then none else p.mtaSts.bind fun sts => sts.policyFor domain

-- the opportunistic posture, or none without a configuration
def opportunistic (tls : Option κ) : TlsPolicy κ := tls.elim .none .opportunistic

/-- `exchange_tls_policy`: `none` where the exchange is skipped. -/
def exchangeTlsPolicy (sts : Option MtaStsPolicy) (pkix : Option κ) (mxHost : Str)
    (tls : Option κ) : Option (TlsPolicy κ) :=
  match sts.filter fun policy => policy.mode = .enforce with
  | some policy => if policy.allowsMx mxHost then pkix.map .strict else none
  | none => some (opportunistic tls)

/-- `dane_tls_policy`: a failed lookup and a failed configuration count as absence. -/
def daneTlsPolicy (host : Str) : Option κ :=
  (p.resolver.secureTlsa p.port host).toOption.join.bind fun records =>
    if hasUsableTlsa records then (p.daneClient records).toOption else none

def tlsPolicy (domain : Str) (mx : MxRecord) : Option (TlsPolicy κ) :=
  if (p.secureMx domain).isSome then
    some ((p.daneTlsPolicy mx.exchange).elim (opportunistic p.tls) .strict)
  else
    exchangeTlsPolicy (p.stsPolicy domain) (p.mtaSts.map StsResolver.pkixConfig) mx.exchange p.tls

/-- `resolve_exchange`. -/
def resolveExchange (exchange : Str) : Except Str (List IpAddr) :=
  match IpAddr.parse exchange with
  | some ip => .ok [ip]
  | none =>
      match p.resolver.lookupIp exchange with
      | .error e =>
          .error ("address lookup for MX ".toList ++ exchange ++ ": ".toList ++ e.toText)
      | .ok [] => .error ("no A/AAAA address for MX ".toList ++ exchange)
      | .ok ips => .ok ips

/-! ## 3. The loops -/

def call (exchange : Str) (policy : TlsPolicy κ) (ip : IpAddr) : RelayCall κ :=
  ⟨socketText ip p.port, exchange, policy⟩

-- what comes of the `n`-th call; a socket error defers
def outcome (n : Nat) (c : RelayCall κ) : RelayReport :=
  match (relayTo (p.peers n c.addr) c.addr c.serverName p.helo p.message c.policy).result with
  | .ok report => report
  | .error e => .deferred 0 (c.addr ++ ": ".toList ++ e.toText p.debug)

structure Loop (κ : Type) where
  calls : List (RelayCall κ)
  -- a final report is the one returned
  last : RelayReport
  attempted : Bool

def tryAddresses (exchange : Str) (policy : TlsPolicy κ) : List IpAddr → Loop κ → Loop κ
  | [], s => s
  | ip :: ips, s =>
      let c := p.call exchange policy ip
      let report := p.outcome s.calls.length c
      let s := { s with calls := s.calls ++ [c], last := report }
      if report.isFinal then s else tryAddresses exchange policy ips s

def tryExchanges (domain : Str) : List MxRecord → Loop κ → Loop κ
  | [], s => s
  | mx :: mxs, s =>
      if mx.isNull then tryExchanges domain mxs s
      else match p.tlsPolicy domain mx with
        | none => tryExchanges domain mxs s
        | some policy =>
            match p.resolveExchange mx.exchange with
            | .error text =>
                tryExchanges domain mxs { s with attempted := true, last := .deferred 0 text }
            | .ok ips =>
                let s := p.tryAddresses mx.exchange policy ips { s with attempted := true }
                if s.last.isFinal then s else tryExchanges domain mxs s

def start (domain : Str) : Loop κ :=
  ⟨[], .deferred 0 ("no usable MX for ".toList ++ domain), false⟩

/-- `relay`. -/
def relay : RelayResult κ :=
  match p.domain with
  | none => ⟨[], .failed "message has no recipients".toList⟩
  | some domain =>
      match p.exchanges domain with
      | .error report => ⟨[], report⟩
      | .ok mxs =>
          if mxs.all MxRecord.isNull then
            ⟨[], .failed (domain ++ " does not accept mail (null MX, RFC 7505)".toList)⟩
          else
            let s := p.tryExchanges domain mxs (start domain)
            if (p.stsPolicy domain).any (fun policy => policy.mode = .enforce) ∧ !s.attempted then
              ⟨s.calls, .deferred 0
                ("no MX for ".toList ++ domain ++ " matches its MTA-STS policy".toList)⟩
            else ⟨s.calls, s.last⟩

/-! ## 4. The calls of a pass -/

-- the addresses of an exchange, none if the lookup fails
def addresses (exchange : Str) : List IpAddr := (p.resolveExchange exchange).toOption.getD []

-- the calls to one exchange, if nothing ends the pass
def attempts (domain : Str) (mx : MxRecord) : List (RelayCall κ) :=
  if mx.isNull then []
  else (p.tlsPolicy domain mx).elim [] fun policy =>
    (p.addresses mx.exchange).map (p.call mx.exchange policy)

-- whether the `n`-th call ends the pass
def ends (n : Nat) (c : RelayCall κ) : Bool := (p.outcome n c).isFinal

variable {p}

theorem tryAddresses_spec (exchange : Str) (policy : TlsPolicy κ) (ips : List IpAddr) {s : Loop κ}
    (hs : s.last.isFinal = false) :
    (p.tryAddresses exchange policy ips s).calls =
        s.calls ++ takeThrough p.ends s.calls.length (ips.map (p.call exchange policy)) ∧
      (p.tryAddresses exchange policy ips s).last.isFinal =
        stopsAt p.ends s.calls.length (ips.map (p.call exchange policy)) := by
  induction ips generalizing s with
  | nil => exact ⟨by simp [tryAddresses, takeThrough], hs⟩
  | cons ip ips ih =>
    rw [tryAddresses, List.map_cons, takeThrough, stopsAt]
    rw [show p.ends s.calls.length (p.call exchange policy ip) =
      (p.outcome s.calls.length (p.call exchange policy ip)).isFinal from rfl]
    cases hfinal : (p.outcome s.calls.length (p.call exchange policy ip)).isFinal with
    | true => exact ⟨rfl, hfinal⟩
    | false =>
      have htail := ih (s := { s with
        calls := s.calls ++ [p.call exchange policy ip],
        last := p.outcome s.calls.length (p.call exchange policy ip) }) hfinal
      simpa using htail

/-- The calls made are those of the exchanges in turn, up to the one that ends the pass. -/
theorem tryExchanges_spec {domain : Str} (mxs : List MxRecord) {s : Loop κ}
    (hs : s.last.isFinal = false) :
    (p.tryExchanges domain mxs s).calls =
      s.calls ++ takeThrough p.ends s.calls.length (mxs.flatMap (p.attempts domain)) := by
  induction mxs generalizing s with
  | nil => simp [tryExchanges, takeThrough]
  | cons mx mxs ih =>
    rw [tryExchanges, List.flatMap_cons]
    by_cases hnull : mx.isNull = true
    · rw [if_pos hnull, ih hs, attempts, if_pos hnull]
      rfl
    · rw [if_neg hnull, attempts, if_neg hnull]
      cases hpolicy : p.tlsPolicy domain mx with
      | none => exact ih hs
      | some policy =>
        dsimp only [Option.elim]
        cases hresolve : p.resolveExchange mx.exchange with
        | error text =>
          have haddresses : p.addresses mx.exchange = [] := by
            rw [addresses, hresolve]
            rfl
          rw [haddresses]
          exact ih rfl
        | ok ips =>
          have haddresses : p.addresses mx.exchange = ips := by
            rw [addresses, hresolve]
            rfl
          have hloop := tryAddresses_spec mx.exchange policy ips
            (p := p) (s := { s with attempted := true }) hs
          rw [haddresses, takeThrough_append]
          dsimp only at hloop ⊢
          rw [← hloop.2, ← List.append_assoc, ← hloop.1]
          cases hfinal : (p.tryAddresses mx.exchange policy ips
              { s with attempted := true }).last.isFinal with
          | true => simp
          | false =>
            have hall := hloop.2.symm.trans hfinal
            rw [if_neg (by simp), if_neg (by simp), ih hfinal, hloop.1,
              takeThrough_of_not_stopsAt hall]
            simp [Nat.add_comm]

theorem attempts_of_isNull {domain : Str} {mx : MxRecord} (h : mx.isNull = true) :
    p.attempts domain mx = [] := by
  rw [attempts, if_pos h]

theorem calls_relay {domain : Str} {mxs : List MxRecord} (hdomain : p.domain = some domain)
    (hmxs : p.exchanges domain = .ok mxs) :
    p.relay.calls = takeThrough p.ends 0 (mxs.flatMap (p.attempts domain)) := by
  rw [relay, hdomain]
  dsimp only
  rw [hmxs]
  dsimp only
  split
  · rename_i hnull
    have hnone : mxs.flatMap (p.attempts domain) = [] := by
      rw [List.flatMap_eq_nil_iff]
      intro mx hmx
      exact attempts_of_isNull (List.all_eq_true.mp hnull mx hmx)
    rw [hnone]
    rfl
  · have hloop : (p.tryExchanges domain mxs (start domain)).calls =
        [] ++ takeThrough p.ends 0 (mxs.flatMap (p.attempts domain)) := tryExchanges_spec mxs rfl
    split
    · exact hloop
    · exact hloop

theorem mem_attempts_iff {domain : Str} {mx : MxRecord} {c : RelayCall κ} :
    c ∈ p.attempts domain mx ↔ mx.isNull = false ∧ p.tlsPolicy domain mx = some c.policy ∧
      ∃ ip ∈ p.addresses mx.exchange, c = p.call mx.exchange c.policy ip := by
  unfold attempts
  cases hnull : mx.isNull with
  | true => simp
  | false =>
    cases hpolicy : p.tlsPolicy domain mx with
    | none => simp
    | some policy =>
      simp only [Bool.false_eq_true, if_false, Option.elim, List.mem_map, true_and,
        Option.some.injEq]
      constructor
      · rintro ⟨ip, hip, rfl⟩
        exact ⟨rfl, ip, hip, rfl⟩
      · rintro ⟨rfl, ip, hip, hc⟩
        exact ⟨ip, hip, hc.symm⟩

-- every call belongs to an exchange of the domain, and is made under its posture
theorem of_mem_calls {domain : Str} (hdomain : p.domain = some domain) {c : RelayCall κ}
    (hc : c ∈ p.relay.calls) :
    ∃ mxs, p.exchanges domain = .ok mxs ∧
      ∃ mx ∈ mxs, mx.exchange = c.serverName ∧ p.tlsPolicy domain mx = some c.policy := by
  cases hmxs : p.exchanges domain with
  | error report =>
    rw [relay, hdomain] at hc
    dsimp only at hc
    rw [hmxs] at hc
    cases hc
  | ok mxs =>
    rw [calls_relay hdomain hmxs] at hc
    rcases mem_takeThrough_iff.mp hc with ⟨before, after, hall, -⟩
    have hmem : c ∈ mxs.flatMap (p.attempts domain) := by
      rw [hall]
      simp
    rcases List.mem_flatMap.mp hmem with ⟨mx, hmx, hattempt⟩
    rcases mem_attempts_iff.mp hattempt with ⟨-, hpolicy, ip, -, hcall⟩
    exact ⟨mxs, rfl, mx, hmx, by rw [hcall]; rfl, hpolicy⟩

/-! ## 5. DANE and MTA-STS -/

variable (p)

/-- The domain's MX records are securely published, and the pass looks for that. -/
def DaneActive (domain : Str) : Prop :=
  p.dane = true ∧ ∃ mxs, p.resolver.secureMx domain = .ok (some mxs)

-- the resolver answers without records that DANE could use
def NoUsableTlsa (exchange : Str) : Prop :=
  p.resolver.secureTlsa p.port exchange = .ok none ∨
    ∃ records, p.resolver.secureTlsa p.port exchange = .ok (some records) ∧
      hasUsableTlsa records = false

variable {p}

theorem secureMx_eq_some_iff {domain : Str} {mxs : List MxRecord} :
    p.secureMx domain = some mxs ↔
      p.dane = true ∧ p.resolver.secureMx domain = .ok (some mxs) := by
  unfold secureMx
  cases p.dane with
  | false => simp
  | true =>
    cases p.resolver.secureMx domain with
    | error e => simp [Except.toOption]
    | ok answer => simp [Except.toOption]

theorem isSome_secureMx_iff {domain : Str} :
    (p.secureMx domain).isSome = true ↔ p.DaneActive domain := by
  simp only [Option.isSome_iff_exists, secureMx_eq_some_iff, exists_and_left, DaneActive]

theorem daneTlsPolicy_of_usable {exchange : Str} {records : List TlsaRecord} {config : κ}
    (hrecords : p.resolver.secureTlsa p.port exchange = .ok (some records))
    (husable : hasUsableTlsa records = true) (hconfig : p.daneClient records = .ok config) :
    p.daneTlsPolicy exchange = some config := by
  simp [daneTlsPolicy, hrecords, husable, hconfig, Except.toOption]

theorem daneTlsPolicy_of_noUsableTlsa {exchange : Str} (h : p.NoUsableTlsa exchange) :
    p.daneTlsPolicy exchange = none := by
  rcases h with h | ⟨records, h, hunusable⟩
  · simp [daneTlsPolicy, h, Except.toOption]
  · simp [daneTlsPolicy, h, hunusable, Except.toOption]

theorem tlsPolicy_of_enforce {domain : Str} {mx : MxRecord} {sts : StsResolver κ}
    {policy : MtaStsPolicy} {posture : TlsPolicy κ} (hinactive : ¬ p.DaneActive domain)
    (hsts : p.mtaSts = some sts) (hpolicy : sts.policyFor domain = some policy)
    (henforce : policy.mode = .enforce) (h : p.tlsPolicy domain mx = some posture) :
    posture = .strict sts.pkixConfig ∧ policy.allowsMx mx.exchange = true := by
  have hsecure : ¬ (p.secureMx domain).isSome = true := isSome_secureMx_iff.not.mpr hinactive
  have hin : p.stsPolicy domain = some policy := by
    rw [stsPolicy, if_neg hsecure, hsts]
    exact hpolicy
  rw [tlsPolicy, if_neg hsecure, exchangeTlsPolicy, hin, hsts, Option.filter_some,
    if_pos (by simpa using henforce)] at h
  dsimp only at h
  split at h
  · rename_i hallows
    cases h
    exact ⟨rfl, hallows⟩
  · cases h

/-- Where DANE is not active, an enforced policy is kept to by every call.  Where it is, MTA-STS is
not consulted: usable records mandate TLS, and their definite absence leaves it opportunistic. -/
theorem sts_enforced_unless_dane_active {domain : Str} {sts : StsResolver κ}
    {policy : MtaStsPolicy} {c : RelayCall κ} (hdomain : p.domain = some domain)
    (hsts : p.mtaSts = some sts) (hpolicy : sts.policyFor domain = some policy)
    (henforce : policy.mode = .enforce) (hc : c ∈ p.relay.calls) :
    (¬ p.DaneActive domain →
      c.policy = .strict sts.pkixConfig ∧ policy.allowsMx c.serverName = true) ∧
    (p.DaneActive domain →
      (∀ records config, p.resolver.secureTlsa p.port c.serverName = .ok (some records) →
        hasUsableTlsa records = true → p.daneClient records = .ok config →
        c.policy = .strict config) ∧
      (p.NoUsableTlsa c.serverName → c.policy = opportunistic p.tls)) := by
  rcases of_mem_calls hdomain hc with ⟨mxs, -, mx, -, hname, hposture⟩
  rw [← hname]
  refine ⟨?_, ?_⟩
  · intro hinactive
    exact tlsPolicy_of_enforce hinactive hsts hpolicy henforce hposture
  · intro hactive
    rw [tlsPolicy, if_pos (isSome_secureMx_iff.mpr hactive), Option.some.injEq] at hposture
    refine ⟨?_, ?_⟩
    · intro records config hrecords husable hconfig
      rw [← hposture, daneTlsPolicy_of_usable hrecords husable hconfig]
      rfl
    · intro hnone
      rw [← hposture, daneTlsPolicy_of_noUsableTlsa hnone]
      rfl

/-! ## 6. Failing TLSA lookups -/

variable (p)

-- the lookup fails, or usable records make no configuration
def TlsaFails (exchange : Str) : Prop :=
  (∃ e, p.resolver.secureTlsa p.port exchange = .error e) ∨
    ∃ records e, p.resolver.secureTlsa p.port exchange = .ok (some records) ∧
      hasUsableTlsa records = true ∧ p.daneClient records = .error e

-- a call to one of the exchanges ends the pass
def EndsWithin (domain : Str) (mxs : List MxRecord) : Prop :=
  ∃ earlier c later, mxs.flatMap (p.attempts domain) = earlier ++ c :: later ∧
    (p.outcome earlier.length c).isFinal = true

variable {p}

theorem daneTlsPolicy_of_tlsaFails {exchange : Str} (h : p.TlsaFails exchange) :
    p.daneTlsPolicy exchange = none := by
  rcases h with ⟨e, h⟩ | ⟨records, e, h, husable, hconfig⟩
  · simp [daneTlsPolicy, h, Except.toOption]
  · simp [daneTlsPolicy, h, husable, hconfig, Except.toOption]

theorem stopsAt_ends_iff {domain : Str} {mxs : List MxRecord} :
    stopsAt p.ends 0 (mxs.flatMap (p.attempts domain)) = true ↔ p.EndsWithin domain mxs := by
  rw [stopsAt_iff]
  simp [EndsWithin, ends]

theorem opportunistic_ne_strict (tls : Option κ) (config : κ) :
    opportunistic tls ≠ .strict config := by
  cases tls with
  | none => simp [opportunistic]
  | some c => simp [opportunistic]

/-- A failing TLSA lookup is kept from switching DANE off exactly when it is not reached: the
exchange is null, has no address, or stands behind one that ends the pass. -/
theorem tlsa_failure_keeps_dane_iff {domain : Str} {mxs : List MxRecord}
    (hdomain : p.domain = some domain) (hdane : p.dane = true)
    (hmx : p.resolver.secureMx domain = .ok (some mxs)) :
    (∀ c ∈ p.relay.calls, p.TlsaFails c.serverName → ∃ config, c.policy = .strict config) ↔
      ∀ before mx after, sortMx mxs = before ++ mx :: after → p.TlsaFails mx.exchange →
        mx.isNull = true ∨ p.addresses mx.exchange = [] ∨ p.EndsWithin domain before := by
  have hsecure : p.secureMx domain = some mxs := secureMx_eq_some_iff.mpr ⟨hdane, hmx⟩
  have hmxs : p.exchanges domain = .ok (sortMx mxs) := by
    rw [exchanges, hsecure]
  have hposture : ∀ {mx : MxRecord}, p.TlsaFails mx.exchange →
      p.tlsPolicy domain mx = some (opportunistic p.tls) := by
    intro mx hfails
    rw [tlsPolicy, hsecure, daneTlsPolicy_of_tlsaFails hfails]
    rfl
  rw [calls_relay hdomain hmxs]
  constructor
  · intro h before mx after hsplit hfails
    by_contra hnot
    push Not at hnot
    rcases hnot with ⟨hnull, haddresses, hends⟩
    rcases List.exists_cons_of_ne_nil haddresses with ⟨ip, ips, hips⟩
    have hattempts : p.attempts domain mx =
        p.call mx.exchange (opportunistic p.tls) ip ::
          ips.map (p.call mx.exchange (opportunistic p.tls)) := by
      rw [attempts, if_neg hnull, hposture hfails, hips]
      rfl
    have hcalled : p.call mx.exchange (opportunistic p.tls) ip ∈
        takeThrough p.ends 0 ((sortMx mxs).flatMap (p.attempts domain)) := by
      rw [mem_takeThrough_iff, hsplit, List.flatMap_append, List.flatMap_cons, hattempts]
      exact ⟨before.flatMap (p.attempts domain), _, rfl,
        Bool.eq_false_iff.mpr (stopsAt_ends_iff.not.mpr hends)⟩
    rcases h _ hcalled hfails with ⟨config, hconfig⟩
    exact opportunistic_ne_strict p.tls config hconfig
  · intro h c hc hfails
    exfalso
    rcases mem_takeThrough_iff.mp hc with ⟨earlier, later, hall, hearlier⟩
    rcases exists_split_of_flatMap hall with
      ⟨before, mx, after, pre, post, hsplit, hattempts, heq⟩
    have hattempt : c ∈ p.attempts domain mx := by
      rw [hattempts]
      simp
    rcases mem_attempts_iff.mp hattempt with ⟨hnull, -, ip, hip, hcall⟩
    rw [hcall] at hfails
    rcases h before mx after hsplit hfails with hn | hnone | hends
    · rw [hnull] at hn
      cases hn
    · rw [hnone] at hip
      cases hip
    · rw [heq, stopsAt_append, stopsAt_ends_iff.mpr hends] at hearlier
      cases hearlier

end RelayPass

/-! ## 7. A domain with one exchange -/

/-- A pass to `b@x.org`, whose policy is enforced and whose only exchange refuses connections. -/
def singlePass (dane : Bool) (ips : List IpAddr)
    (tlsa : Except NetworkError (Option (List TlsaRecord))) : RelayPass Nat where
  resolver := {
    lookupMx := fun _ => .ok [⟨10, "mx.x.org".toList⟩]
    lookupIp := fun _ => .ok ips
    lookupTxt := fun _ => .ok []
    reverseLookup := fun _ => .ok []
    secureTlsa := fun _ _ => tlsa
    secureMx := fun _ => .ok (some [⟨10, "mx.x.org".toList⟩]) }
  helo := "a".toList
  port := 25
  message := ⟨⟨none, [⟨"b".toList, "x.org".toList⟩]⟩, ⟨[]⟩, ascii "hi", []⟩
  tls := none
  mtaSts := some ⟨runPolicies [], longLived, 0⟩
  dane
  daneClient := fun _ => .ok 1
  peers := fun _ _ => ⟨.error "connection refused".toList, fun _ _ => .error []⟩
  debug := id

def exampleIp : IpAddr := .v4 0xC0000201#32

def exampleCall (policy : TlsPolicy Nat) : RelayCall Nat :=
  ⟨"192.0.2.1:25".toList, "mx.x.org".toList, policy⟩

def exampleTlsa : TlsaRecord := ⟨.daneEe, .spki, .sha256, [1]⟩

theorem policyFor_longLived :
    (StsResolver.policyFor ⟨runPolicies [], longLived, 0⟩ "x.org".toList) = some longPolicy := by
  decide +kernel

/-- Securely published MX records and no TLSA records: the enforced policy is not asked for, and the
message goes out in the clear. -/
theorem sts_enforcement_gives_way_to_dane :
    (singlePass true [exampleIp] (.ok none)).domain = some "x.org".toList ∧
      (singlePass true [exampleIp] (.ok none)).mtaSts = some ⟨runPolicies [], longLived, 0⟩ ∧
      (StsResolver.policyFor ⟨runPolicies [], longLived, 0⟩ "x.org".toList) = some longPolicy ∧
      longPolicy.mode = .enforce ∧
      exampleCall .none ∈ (singlePass true [exampleIp] (.ok none)).relay.calls :=
  ⟨by decide, rfl, policyFor_longLived, rfl, by decide +kernel⟩

theorem sts_enforced_unless_dane_active_at_example :
    (exampleCall (.strict 0) ∈ (singlePass false [exampleIp] (.ok none)).relay.calls ∧
      longPolicy.allowsMx "mx.x.org".toList = true) ∧
    exampleCall (.strict 1) ∈ (singlePass true [exampleIp] (.ok (some [exampleTlsa]))).relay.calls ∧
      (exampleCall (.strict 1)).policy = .strict 1 := by
  have hplain : exampleCall (.strict 0) ∈
      (singlePass false [exampleIp] (.ok none)).relay.calls := by decide +kernel
  have hdane : exampleCall (.strict 1) ∈
      (singlePass true [exampleIp] (.ok (some [exampleTlsa]))).relay.calls := by decide +kernel
  have hinactive : ¬ (singlePass false [exampleIp] (.ok none)).DaneActive "x.org".toList :=
    fun h => absurd h.1 (by decide)
  refine ⟨⟨hplain, ?_⟩, hdane, ?_⟩
  · exact ((RelayPass.sts_enforced_unless_dane_active rfl rfl policyFor_longLived rfl hplain).1
      hinactive).2
  · exact ((RelayPass.sts_enforced_unless_dane_active rfl rfl policyFor_longLived rfl hdane).2
      ⟨rfl, _, rfl⟩).1 [exampleTlsa] 1 rfl rfl rfl

/-- The lookup of the TLSA records fails, and the message goes out in the clear. -/
theorem failing_tlsa_lookup_switches_dane_off :
    (singlePass true [exampleIp] (.error (.io []))).domain = some "x.org".toList ∧
      (singlePass true [exampleIp] (.error (.io []))).dane = true ∧
      (singlePass true [exampleIp] (.error (.io []))).resolver.secureMx "x.org".toList =
        .ok (some [⟨10, "mx.x.org".toList⟩]) ∧
      (singlePass true [exampleIp] (.error (.io []))).TlsaFails "mx.x.org".toList ∧
      exampleCall .none ∈ (singlePass true [exampleIp] (.error (.io []))).relay.calls :=
  ⟨by decide, rfl, rfl, .inl ⟨_, rfl⟩, by decide +kernel⟩

-- an exchange without an address is not reached
theorem tlsa_failure_keeps_dane_without_address :
    (singlePass true [] (.error (.io []))).TlsaFails "mx.x.org".toList ∧
      ∀ c ∈ (singlePass true [] (.error (.io []))).relay.calls,
        (singlePass true [] (.error (.io []))).TlsaFails c.serverName →
          ∃ config, c.policy = .strict config := by
  refine ⟨.inl ⟨_, rfl⟩, ?_⟩
  apply (RelayPass.tlsa_failure_keeps_dane_iff rfl rfl rfl).mpr
  intro before mx after hsplit _
  have hmx : mx = ⟨10, "mx.x.org".toList⟩ := by
    have hmem : mx ∈ RelayPass.sortMx [⟨10, "mx.x.org".toList⟩] := by
      rw [hsplit]
      simp
    simpa [RelayPass.sortMx] using hmem
  rw [hmx]
  exact .inr (.inl (by decide))

end Snail.Server
