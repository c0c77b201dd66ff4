import Snail.Server.Guesses

/-!
# Upgrade — logins and the TLS handshake

A connection with the bytes it reads its lines from: those of the socket up to the handshake, those
that TLS decrypts from then on.
-/

set_option linter.dupNamespace false

open Snail.Reasoning Snail.Mail Snail.Network Snail.Security Snail.Access

namespace Snail.Server

/-! ## 1. What is left in the buffer -/

-- `!conn.buffer().is_empty()` behind `read_line_capped`
def leftOver (max : Nat) : Bytes → List Bytes → Bool
  | _, [] => false
  | buf, chunk :: rest =>
      let newline := newlineAt chunk
      let take := newline.elim chunk.length (· + 1)
      if buf.length + take > max then max - buf.length < chunk.length
      else if newline.isSome then take < chunk.length
      else leftOver max (buf ++ chunk) rest

/-- With nothing left over, all that the buffer has shown was read as lines. -/
theorem of_leftOver_eq_false {max : Nat} {buf : Bytes} {chunks : List Bytes}
    (h : leftOver max buf chunks = false) :
    ∃ shown, chunks = shown ++ (readLoop max buf chunks).2.2 ∧
      (readLoop max buf chunks).2.1 = buf ++ shown.flatten := by
  have hwhole : ∀ (n : Nat) (chunk : Bytes) (rest : List Bytes), chunk.length ≤ n →
      chunk.take n = chunk ∧ consume n (chunk :: rest) = rest := by
    intro n chunk rest hn
    refine ⟨List.take_of_length_le hn, ?_⟩
    rw [consume, if_neg (by omega)]
  induction chunks generalizing buf with
  | nil => exact ⟨[], rfl, (List.append_nil _).symm⟩
  | cons chunk rest ih =>
    rw [leftOver] at h
    rw [readLoop]
    by_cases hlong : buf.length + (newlineAt chunk).elim chunk.length (· + 1) > max
    · rw [if_pos hlong, decide_eq_false_iff_not, not_lt] at h
      obtain ⟨htake, hconsume⟩ := hwhole _ chunk rest h
      rw [if_pos hlong]
      dsimp only
      rw [htake, hconsume]
      exact ⟨[chunk], rfl, by simp⟩
    · rw [if_neg hlong] at h ⊢
      by_cases hnewline : (newlineAt chunk).isSome
      · rw [if_pos hnewline, decide_eq_false_iff_not, not_lt] at h
        obtain ⟨htake, hconsume⟩ := hwhole _ chunk rest h
        rw [if_pos hnewline]
        dsimp only
        rw [htake, hconsume]
        exact ⟨[chunk], rfl, by simp⟩
      · rw [if_neg hnewline] at h ⊢
        obtain ⟨shown, hchunks, hbuf⟩ := ih h
        refine ⟨chunk :: shown, congrArg (chunk :: ·) hchunks, ?_⟩
        rw [hbuf, List.flatten_cons, List.append_assoc]

/-! ## 2. Connections with their bytes -/

structure Link where
  client : Client
  plain : Reader
  secure : Reader

def Link.reader (l : Link) : Reader := if l.client.tls then l.secure else l.plain

-- the turn that the line read makes of what the world does
def Link.turn (l : Link) (t : Turn) : Turn :=
  { t with
    read := (l.reader.readLineCapped maxLineLength).1
    buf := (l.reader.readLineCapped maxLineLength).2.1
    buffered := leftOver maxLineLength [] l.reader.chunks }

def Link.next (l : Link) (client : Client) : Link :=
  let rest := (l.reader.readLineCapped maxLineLength).2.2
  if l.client.tls then ⟨client, l.plain, rest⟩ else ⟨client, rest, l.secure⟩

section
variable (server : Server) (peer : IpAddr)

def Server.stepLink (t : Turn) (l : Link) : Option Link :=
  (server.stepClient peer (l.turn t) l.client).1.map l.next

def Server.runLink (protocol : Protocol) (plain secure : Reader) (turns : List Turn) :
    Option Link :=
  turns.foldl (fun l t => l.bind (server.stepLink peer t))
    (some ⟨server.connect protocol, plain, secure⟩)

end

section
variable {server : Server} {peer : IpAddr} {protocol : Protocol} {plain secure : Reader}

theorem client_next (l : Link) (client : Client) : (l.next client).client = client := by
  unfold Link.next
  dsimp only
  split
  · rfl
  · rfl

theorem secure_next {l : Link} (h : l.client.tls = false) (client : Client) :
    (l.next client).secure = l.secure := by
  unfold Link.next
  dsimp only
  rw [if_neg (by rw [h]; simp)]

structure LinkInv (server : Server) (protocol : Protocol) (secure : Reader) (l : Link) : Prop where
  inStep : server.InStep l.client
  protocol : l.client.protocol = protocol
  untouched : l.client.tls = false → l.secure = secure

theorem LinkInv.step {l l' : Link} {t : Turn} (h : LinkInv server protocol secure l)
    (hstep : server.stepLink peer t l = some l') : LinkInv server protocol secure l' := by
  obtain ⟨client, hnext, rfl⟩ := Option.map_eq_some_iff.mp hstep
  obtain ⟨hin, hsame, hcases⟩ := stepClient_cases h.inStep hnext
  refine ⟨?_, ?_, ?_⟩
  · rw [client_next]
    exact hin
  · rw [client_next, hsame]
    exact h.protocol
  · rw [client_next]
    intro hplain
    have hbefore : l.client.tls = false := by
      rcases hcases with hkept | ⟨hup, -⟩
      · exact hkept.symm.trans hplain
      · exact hup.plain
    rw [secure_next hbefore]
    exact h.untouched hbefore

theorem linkInv_run {turns : List Turn} {l : Link}
    (h : server.runLink peer protocol plain secure turns = some l) :
    LinkInv server protocol secure l := by
  induction turns using List.reverseRecOn generalizing l with
  | nil =>
    cases h
    refine ⟨inStep_connect server protocol, ?_, fun _ => rfl⟩
    cases protocol with
    | submission => rfl
    | pop => rfl
    | imap => rfl
  | append_singleton turns t ih =>
    unfold Server.runLink at h ih
    rw [List.foldl_append] at h
    obtain ⟨l₁, hrun, hstep⟩ := Option.bind_eq_some_iff.mp h
    exact (ih hrun).step hstep

-- the ports turn credentials away as long as the stream is plain
theorem checked_of_plain {c : Client} (h : server.InStep c) (htls : server.tls = true)
    (hplain : c.tls = false) (t : Turn) : (server.handling peer t c).checked = none := by
  have hno : ∀ {σ : Type} {c : Conn σ}, c.tls = false → ¬ server.credentialsChecked c = true := by
    intro σ c hc
    simp [Server.credentialsChecked, htls, hc]
  cases c with
  | submission c =>
    change (server.submissionHandling peer t c).checked = none
    rcases submissionHandling_cases server peer t c with
      hnone | ⟨hsecure, -⟩
    · rw [hnone]
      rfl
    · exact absurd ⟨htls, hplain⟩ hsecure
  | pop c =>
    have hline : server.passLine peer t c = none := by
      refine Option.eq_none_iff_forall_ne_some.mpr fun password hline => ?_
      exact hno hplain (of_passLine hline).1
    change (server.popHandling peer t c).checked = none
    rw [popHandling_eq h, hline]
    rfl
  | imap c =>
    have hline : server.loginLine peer t c = none := by
      refine Option.eq_none_iff_forall_ne_some.mpr fun line hline => ?_
      exact hno hplain (of_loginLine hline).1
    change (server.imapHandling peer t c).checked = none
    rw [imapHandling_eq h, hline]
    rfl

end

/-- Credentials are never checked in cleartext when TLS is configured.  In every run of a connection
from its bytes: the session's flag tells what the stream is; on a plain stream nothing is checked;
an upgrade leaves a fresh session that reads what TLS has decrypted, from its beginning, and all
that the plain buffer had shown was read as lines before; and on an encrypted stream the plain bytes
that are left play no part. -/
theorem credentials_never_in_cleartext (server : Server) (peer : IpAddr) (protocol : Protocol)
    (plain secure : Reader) (turns : List Turn) (l : Link) (htls : server.tls = true)
    (hrun : server.runLink peer protocol plain secure turns = some l) :
    (∀ active, l.client.tlsActive = some active → active = l.client.tls) ∧
    (l.client.tls = false → ∀ t, (server.handling peer t l.client).checked = none) ∧
    (∀ t l', server.stepLink peer t l = some l' → l.client.tls = false → l'.client.tls = true →
      l'.client = upgraded protocol ∧ l'.secure = secure ∧
        ∃ shown, l.plain.chunks = shown ++ l'.plain.chunks ∧
          (l.turn t).buf = shown.flatten) ∧
    (l.client.tls = true → ∀ t rest, server.stepLink peer t { l with plain := rest } =
      (server.stepLink peer t l).map fun l' => { l' with plain := rest }) := by
  have hinv := linkInv_run hrun
  refine ⟨?_, fun hplain t => checked_of_plain hinv.inStep htls hplain t, ?_, ?_⟩
  · intro active hactive
    obtain ⟨client, plainRest, secureRest⟩ := l
    have hin := hinv.inStep
    cases client with
    | submission c => cases hactive
    | pop c =>
      cases hactive
      exact congrArg Prod.snd hin.1
    | imap c =>
      cases hactive
      exact congrArg Prod.snd hin.1
  · intro t l' hstep hplain hsecure
    obtain ⟨client, hnext, rfl⟩ := Option.map_eq_some_iff.mp hstep
    obtain ⟨-, -, hcases⟩ := stepClient_cases hinv.inStep hnext
    rw [client_next] at hsecure ⊢
    rcases hcases with hkept | ⟨hup, hfresh⟩
    · rw [hkept, hplain] at hsecure
      cases hsecure
    · have hreader : l.reader = l.plain := by
        unfold Link.reader
        rw [if_neg (by rw [hplain]; simp)]
      have hempty : leftOver maxLineLength [] l.plain.chunks = false := by
        rw [← hreader]
        exact hup.unbuffered
      obtain ⟨shown, hchunks, hbuf⟩ := of_leftOver_eq_false hempty
      rw [hinv.protocol] at hfresh
      refine ⟨hfresh, (secure_next hplain client).trans (hinv.untouched hplain), shown, ?_, ?_⟩
      · unfold Link.next
        dsimp only
        rw [if_neg (by rw [hplain]; simp), hreader]
        exact hchunks
      · unfold Link.turn
        dsimp only
        rw [hreader]
        exact hbuf
  · intro hsecure t rest
    have hreader : Link.reader { l with plain := rest } = l.reader := by
      unfold Link.reader
      rw [if_pos hsecure, if_pos hsecure]
    have hturn : Link.turn { l with plain := rest } t = l.turn t := by
      unfold Link.turn
      rw [hreader]
    unfold Server.stepLink
    rw [hturn, Option.map_map]
    congr 1
    funext client
    unfold Link.next
    dsimp only [Function.comp]
    rw [hreader, if_pos hsecure, if_pos hsecure]

def tlsServer : Server := { lonelyServer with tls := true }

def handshakeTurn : Turn := { lineTurn "" with handshake := true }

def socketBytes : Reader := ⟨[ascii "STLS\r\n", ascii "ClientHello"], by decide⟩
def decrypted : Reader := ⟨[ascii "USER a@y.org\r\n"], by decide⟩

theorem credentials_never_in_cleartext_stls :
    ∃ l', tlsServer.stepLink (.v4 0) handshakeTurn
        ⟨tlsServer.connect .pop, socketBytes, decrypted⟩ = some l' ∧
      l'.client = upgraded .pop ∧ l'.secure = decrypted := by
  have hsecure : (tlsServer.stepLink (.v4 0) handshakeTurn
      ⟨tlsServer.connect .pop, socketBytes, decrypted⟩).map (fun l => l.client.tls) =
        some true := by decide +kernel
  obtain ⟨l', hstep, htls⟩ := Option.map_eq_some_iff.mp hsecure
  have hlink := credentials_never_in_cleartext tlsServer (.v4 0) .pop socketBytes decrypted [] _ rfl
    rfl
  obtain ⟨hclient, hbytes, -⟩ := hlink.2.2.1 handshakeTurn l' hstep rfl htls
  exact ⟨l', hstep, hclient, hbytes⟩

end Snail.Server
