import Snail.Network.Dane
import Snail.Server.RelayOrder

/-!
# DaneRelay — a pass under DANE

`relay` of `services/snail_server/src/outbound.rs` with the resolver and the client configurations
that it is given: what a server gets to see depends on the certificates it presents.
-/

open Snail.Reasoning Snail.Mail Snail.Network

namespace Snail.Server

/-! ## 1. Servers and their certificates -/

/-- The configurations of `TlsConfig`; the last is that of `dane_client`. -/
inductive ClientConfig where
  | opportunistic
  | pkix
  | dane (records : List TlsaRecord)
  deriving DecidableEq, Repr

/-- A server: the plain connection, the certificates it shows a client that asks for a name, and
what comes of the handshake if they are accepted. -/
structure Endpoint where
  connect : Except Str Stream
  shows : Str → Presented
  now : Nat
  accepted : ClientConfig → Str → Except Str Stream

def Endpoint.peer (pki : Pki) (e : Endpoint) : Peer ClientConfig where
  connect := e.connect
  handshake config name :=
    match config with
    | .dane records =>
        (pki.verifyServerCert records (e.shows name) name e.now).bind fun _ =>
          e.accepted config name
    | _ => e.accepted config name

variable {h : HickoryResolver} {pki : Pki} {endpoints : Nat → Str → Endpoint}

/-- A pass over these servers with this resolver. -/
structure RelayPass.Runs (p : RelayPass ClientConfig) (h : HickoryResolver) (pki : Pki)
    (endpoints : Nat → Str → Endpoint) : Prop where
  resolver : p.resolver = h.toSecureResolver
  client : ∀ records, p.daneClient records = .ok (.dane records)
  peers : ∀ n addr, p.peers n addr = (endpoints n addr).peer pki

/-- A secure record of the server's vouches for what it shows. -/
def Vouched (h : HickoryResolver) (pki : Pki) (port : Nat) (e : Endpoint) (host : Str) : Prop :=
  ∃ answers, h.validating (tlsaName port host) .tlsa = .ok answers ∧
    ∃ a ∈ answers, a.secure = true ∧ ∃ r, a.tlsa? = some r ∧ r.isUsable = true ∧
      pki.Vouches r (e.shows host) host e.now

/-! ## 2. What a server gets to see -/

section
variable {κ : Type} {peer : Peer κ} {config : κ}

theorem aborted_or_handshake (addr serverName helo : Str) (message : Message) :
    (relayTo peer addr serverName helo message (.strict config)).Aborted (ehloLine helo message) ∨
      ∃ tls, peer.handshake config serverName = .ok tls := by
  rcases relayTo_cases peer addr serverName helo message (.strict config) with
    habort | ⟨plain, g, s₁, r, s₂, -, -, -, -, -, heq⟩
  · exact .inl habort
  rcases capable_cases r.texts s₂ with
    habort | ⟨hoptional, -⟩ | ⟨config', r₂, s₃, tls, hconfig, -, -, -, hshake, -⟩
  · rw [heq]
    refine .inl ⟨?_, habort.undelivered⟩
    exact (habort.opening.after_one (opening_read _ _ _)).after_one (opening_command (.inl rfl))
      |>.after_one (opening_read _ _ _)
  · cases hoptional
  · cases hconfig
    exact .inr ⟨tls, hshake⟩

end

theorem Endpoint.vouched_of_handshake {e : Endpoint} {host : Str} {port : Nat}
    {records : List TlsaRecord} {tls : Stream}
    (hrecords : h.toSecureResolver.secureTlsa port host = .ok (some records))
    (hshake : (e.peer pki).handshake (.dane records) host = .ok tls) :
    Vouched h pki port e host := by
  obtain ⟨⟨⟩, hverified, -⟩ := exists_of_bind_eq_ok hshake
  obtain ⟨r, hr, husable, hvouches⟩ := Pki.verifyServerCert_iff.mp hverified
  obtain ⟨answers, hanswers, a, ha, hsecure, hmap⟩ := exists_secure_of_mem_secureTlsa hrecords hr
  exact ⟨answers, hanswers, a, ha, hsecure, r, hmap, husable, hvouches⟩

section
variable {p : RelayPass ClientConfig} {domain : Str}

theorem RelayPass.exists_delivered (hdelivered : p.relay.report = .delivered) :
    ∃ n c, p.relay.calls[n]? = some c ∧ (p.dialog n c).result = .ok .delivered := by
  have hlast := List.mem_of_getLast? (p.report_eq_delivered_iff.mp hdelivered).2
  obtain ⟨⟨c, n⟩, hcall, houtcome⟩ := List.mem_map.mp hlast
  refine ⟨n, c, List.mem_zipIdx_iff_getElem?.mp hcall, ?_⟩
  rw [RelayPass.dialog]
  dsimp only [RelayPass.outcome] at houtcome
  split at houtcome
  · rename_i report hresult
    rw [hresult, houtcome]
  · cases houtcome

theorem RelayPass.Runs.cases (hp : p.Runs h pki endpoints) (hdomain : p.domain = some domain)
    (hactive : p.DaneActive domain) {c : RelayCall ClientConfig} (hc : c ∈ p.relay.calls)
    (n : Nat) :
    h.Unprotected p.port c.serverName ∨ (p.dialog n c).Aborted (ehloLine p.helo p.message) ∨
      Vouched h pki p.port (endpoints n c.addr) c.serverName := by
  obtain ⟨-, -, mx, -, hname, hposture⟩ := RelayPass.of_mem_calls hdomain hc
  rw [RelayPass.tlsPolicy, if_pos (RelayPass.isSome_secureMx_iff.mpr hactive), hname,
    Option.some.injEq] at hposture
  refine (unprotected_or_usable h p.port c.serverName).imp_right ?_
  rintro ⟨records, hrecords, husable⟩
  rw [RelayPass.daneTlsPolicy_of_usable (hp.resolver ▸ hrecords) husable (hp.client records)]
    at hposture
  rw [RelayPass.dialog, ← hposture, hp.peers]
  refine (aborted_or_handshake c.addr c.serverName p.helo p.message).imp_right ?_
  rintro ⟨tls, hshake⟩
  exact Endpoint.vouched_of_handshake hrecords hshake

/-- With DANE active, a server for which usable secure records are obtained and that does not show a
certificate that one of them vouches for sees EHLO and STARTTLS and no more; nothing is delivered to
it. -/
theorem dane_mail_needs_vouched_server (hp : p.Runs h pki endpoints)
    (hdomain : p.domain = some domain) (hactive : p.DaneActive domain) :
    (∀ n c, p.relay.calls[n]? = some c → h.Unprotected p.port c.serverName ∨
      (p.dialog n c).Aborted (ehloLine p.helo p.message) ∨
      Vouched h pki p.port (endpoints n c.addr) c.serverName) ∧
    (p.relay.report = .delivered → ∃ n c, p.relay.calls[n]? = some c ∧
      (p.dialog n c).result = .ok .delivered ∧ (h.Unprotected p.port c.serverName ∨
        Vouched h pki p.port (endpoints n c.addr) c.serverName)) := by
  refine ⟨fun n c hc => hp.cases hdomain hactive (List.mem_of_getElem? hc) n, ?_⟩
  intro hdelivered
  obtain ⟨n, c, hc, hresult⟩ := RelayPass.exists_delivered hdelivered
  refine ⟨n, c, hc, hresult, ?_⟩
  refine (hp.cases hdomain hactive (List.mem_of_getElem? hc) n).imp_right fun hseen => ?_
  exact hseen.resolve_left fun habort => habort.undelivered hresult

end

/-! ### A server with one certificate -/

def vouchedResolver : HickoryResolver where
  inner := (singlePass true [exampleIp] (.ok none)).resolver.toDnsResolver
  validating _ _ := .ok [⟨.mx 10 "mx.x.org.".toList, true⟩, ⟨.tlsa 3 0 0 [1], true⟩]

def plainPki : Pki :=
  ⟨some, id, id, fun _ => true, fun _ => true, fun _ _ _ _ => true, fun _ _ => true⟩

def vouchedEndpoint : Endpoint where
  connect := politePeer.connect
  shows _ := ⟨[1], []⟩
  now := 0
  accepted _ := politePeer.handshake ()

def vouchedPass : RelayPass ClientConfig where
  resolver := vouchedResolver.toSecureResolver
  helo := "a".toList
  port := 25
  message := politeMessage
  tls := none
  mtaSts := none
  dane := true
  daneClient records := .ok (.dane records)
  peers _ _ := vouchedEndpoint.peer plainPki
  debug := id

theorem dane_mail_needs_vouched_server_single : vouchedPass.relay.report = .delivered ∧
    ∃ n c, vouchedPass.relay.calls[n]? = some c ∧
      (vouchedPass.dialog n c).result = .ok .delivered ∧
      Vouched vouchedResolver plainPki 25 vouchedEndpoint c.serverName := by
  have hruns : vouchedPass.Runs vouchedResolver plainPki fun _ _ => vouchedEndpoint :=
    ⟨rfl, fun _ => rfl, fun _ _ => rfl⟩
  have hactive : vouchedPass.DaneActive "c".toList := ⟨rfl, [⟨10, "mx.x.org".toList⟩], by decide⟩
  have hdelivered : vouchedPass.relay.report = .delivered := by decide +kernel
  obtain ⟨n, c, hc, hresult, hseen⟩ :=
    (dane_mail_needs_vouched_server hruns rfl hactive).2 hdelivered
  refine ⟨hdelivered, n, c, hc, hresult, hseen.resolve_left ?_⟩
  rintro (⟨e, herror⟩ | ⟨answers, hanswers, hinsecure | hunusable⟩)
  · cases herror
  · cases hanswers
    exact absurd hinsecure (by decide)
  · cases hanswers
    exact absurd (hunusable ⟨.tlsa 3 0 0 [1], true⟩ (by simp) _ rfl) (by decide)

end Snail.Server
