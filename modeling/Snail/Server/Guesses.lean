import Snail.Server.ServeAccess
import Snail.Server.Submission

/-!
# Guesses — logins on the three authenticated ports

What an iteration of `serve_submission`, `serve_pop` or `serve_imap` asks the authenticator and
tells the throttle.
-/

set_option linter.dupNamespace false

open Snail.Reasoning Snail.Mail Snail.Network Snail.Security Snail.Access

namespace Snail.Server

/-! ## 1. The three ports -/

inductive Protocol where
  | submission
  | pop
  | imap
  deriving DecidableEq, Repr

inductive Client where
  | submission (c : SubmissionConn)
  | pop (c : PopConn)
  | imap (c : ImapConn)

def Client.tls : Client → Bool
  | .submission c => c.tls
  | .pop c => c.tls
  | .imap c => c.tls

-- the session's own flag; that of a submission has none
def Client.tlsActive : Client → Option Bool
  | .submission _ => none
  | .pop c => some c.session.tlsActive
  | .imap c => some c.session.tlsActive

def Server.connect (server : Server) : Protocol → Client
  | .submission => .submission .start
  | .pop => .pop server.popStart
  | .imap => .imap server.imapStart

def Server.stepClient (server : Server) (peer : IpAddr) (t : Turn) : Client → Option Client × World
  | .submission c =>
      ((server.stepSubmission peer t c).next.map .submission,
        (server.stepSubmission peer t c).world)
  | .pop c => ((server.stepPop peer t c).next.map .pop, (server.stepPop peer t c).world)
  | .imap c => ((server.stepImap peer t c).next.map .imap, (server.stepImap peer t c).world)

-- a connection after so many iterations
def Server.runClient (server : Server) (peer : IpAddr) (protocol : Protocol) (turns : List Turn) :
    Option Client :=
  turns.foldl (fun c t => c.bind fun c => (server.stepClient peer t c).1)
    (some (server.connect protocol))

theorem runClient_invariant {server : Server} {peer : IpAddr} {protocol : Protocol}
    {inv : Client → Prop} (hstart : inv (server.connect protocol))
    (hstep : ∀ t c c', inv c → (server.stepClient peer t c).1 = some c' → inv c')
    {turns : List Turn} {c : Client} (h : server.runClient peer protocol turns = some c) :
    inv c := by
  induction turns using List.reverseRecOn generalizing c with
  | nil =>
    cases h
    exact hstart
  | append_singleton turns t ih =>
    unfold Server.runClient at h ih
    rw [List.foldl_append] at h
    obtain ⟨c₁, hrun, hnext⟩ := Option.bind_eq_some_iff.mp h
    exact hstep t c₁ c (ih hrun) hnext

/-! ## 2. Flags and streams -/

def popFlags (s : Pop3Session) : Bool × Bool := (s.tlsAvailable, s.tlsActive)
def imapFlags (s : ImapSession) : Bool × Bool := (s.tlsAvailable, s.tlsActive)

/-- The flags of the session agree with the configuration and the stream. -/
def Server.InStep (server : Server) : Client → Prop
  | .submission c => c.tls = true → server.tls = true
  | .pop c => popFlags c.session = (server.tls, c.tls) ∧ (c.tls = true → server.tls = true) ∧
      c.collecting = none
  | .imap c => imapFlags c.session = (server.tls, c.tls) ∧ (c.tls = true → server.tls = true) ∧
      c.collecting = none

theorem inStep_connect (server : Server) (protocol : Protocol) :
    server.InStep (server.connect protocol) := by
  cases protocol with
  | submission =>
    intro h
    cases h
  | pop =>
    refine ⟨?_, fun h => (by cases h), rfl⟩
    change popFlags (if server.tls then Pop3Session.withTls false else .new) = (server.tls, false)
    cases server.tls with
    | false => rfl
    | true => rfl
  | imap =>
    refine ⟨?_, fun h => (by cases h), rfl⟩
    change imapFlags (if server.tls then ImapSession.withTls false else .new) = (server.tls, false)
    cases server.tls with
    | false => rfl
    | true => rfl

-- no command touches the flags
theorem popFlags_handle (check : Str → Str → Bool) (s : Pop3Session) (store : MailStore)
    (command : PopCommand) : popFlags (s.handle check store command).2.1 = popFlags s := by
  cases command
  all_goals
    cases hstate : s.state
    all_goals
      simp only [Pop3Session.handle, hstate]
      repeat' split
      all_goals rfl

theorem imapFlags_handle (check : Str → Str → Bool) (s : ImapSession) (store : MailStore)
    (tagged : TaggedCommand) : imapFlags (s.handle check store tagged).2 = imapFlags s := by
  cases hcommand : tagged.command
  all_goals
    simp only [ImapSession.handle, hcommand, ImapSession.handleAuthenticated]
    repeat' split
    all_goals rfl

/-- What a client has behind a handshake, whatever it did before. -/
def upgraded : Protocol → Client
  | .submission => .submission ⟨.new, none, true⟩
  | .pop => .pop ⟨.withTls true, none, true⟩
  | .imap => .imap ⟨.withTls true, none, true⟩

def Client.protocol : Client → Protocol
  | .submission _ => .submission
  | .pop _ => .pop
  | .imap _ => .imap

section
variable {server : Server} {peer : IpAddr} {t : Turn}

-- the conditions of an upgrade
structure Server.Upgrades (server : Server) (t : Turn) (plain : Bool) : Prop where
  tls : server.tls = true
  plain : plain = false
  unbuffered : t.buffered = false
  handshake : t.handshake = true

theorem stepPop_cases {c c' : PopConn} (hnext : (server.stepPop peer t c).next = some c') :
    (popFlags c'.session = popFlags c.session ∧ c'.tls = c.tls ∧ c'.collecting = c.collecting) ∨
      (server.Upgrades t c.tls ∧ c' = ⟨.withTls true, c.collecting, true⟩) := by
  have hclosing : ∀ (r : AccessReaction Pop3Session) (ends : Bool),
      (r.closing ends).next = some c' → r.next = some c' := by
    intro r ends hr
    unfold AccessReaction.closing at hr
    dsimp only at hr
    split at hr
    · cases hr
    · exact hr
  have hother : ∀ command ends, ((server.popOther t c command).closing ends).next = some c' →
      popFlags c'.session = popFlags c.session ∧ c'.tls = c.tls ∧
        c'.collecting = c.collecting := by
    intro command ends hr
    cases hclosing _ ends hr
    exact ⟨popFlags_handle _ _ _ _, rfl, rfl⟩
  unfold Server.stepPop at hnext
  split at hnext
  · cases hnext
  · cases hnext
  unfold Server.popCommand at hnext
  dsimp only at hnext
  split at hnext
  · unfold Server.popStls at hnext
    split at hnext
    · cases hnext
      exact .inl ⟨rfl, rfl, rfl⟩
    · rename_i hbuffered
      dsimp only at hnext
      split at hnext
      · rename_i hup
        dsimp only at hnext
        split at hnext
        · rename_i hhandshake
          cases hnext
          exact .inr ⟨⟨hup.2.2, hup.2.1, by simpa using hbuffered, hhandshake⟩, rfl⟩
        · cases hnext
      · cases hnext
        exact .inl ⟨popFlags_handle _ _ _ _, rfl, rfl⟩
  · split at hnext
    · have hr := hclosing _ _ hnext
      unfold Server.popPass at hr
      split at hr
      · cases hr
      · cases hr
        exact .inl ⟨popFlags_handle _ _ _ _, rfl, rfl⟩
    · exact .inl (hother _ _ hnext)
  · exact .inl (hother _ _ hnext)
  · cases hclosing _ _ hnext
    exact .inl ⟨rfl, rfl, rfl⟩

theorem stepImap_cases {c c' : ImapConn} (hnext : (server.stepImap peer t c).next = some c') :
    (imapFlags c'.session = imapFlags c.session ∧ c'.tls = c.tls ∧ c'.collecting = c.collecting) ∨
      (server.Upgrades t c.tls ∧ c' = ⟨.withTls true, c.collecting, true⟩) := by
  have hother : ∀ tagged, (server.imapOther t c tagged).next = some c' →
      imapFlags c'.session = imapFlags c.session ∧ c'.tls = c.tls ∧
        c'.collecting = c.collecting := by
    intro tagged hr
    unfold Server.imapOther AccessReaction.closing at hr
    dsimp only at hr
    split at hr
    · cases hr
    · cases hr
      exact ⟨imapFlags_handle _ _ _ _, rfl, rfl⟩
  unfold Server.stepImap at hnext
  split at hnext
  · cases hnext
  · cases hnext
  unfold Server.imapCommand at hnext
  split at hnext
  · cases hnext
    exact .inl ⟨rfl, rfl, rfl⟩
  · split at hnext
    · unfold Server.imapStartTls at hnext
      split at hnext
      · cases hnext
        exact .inl ⟨rfl, rfl, rfl⟩
      · rename_i hbuffered
        dsimp only at hnext
        split at hnext
        · rename_i hup
          dsimp only at hnext
          split at hnext
          · rename_i hhandshake
            cases hnext
            exact .inr ⟨⟨hup.2, hup.1, by simpa using hbuffered, hhandshake⟩, rfl⟩
          · cases hnext
        · cases hnext
          exact .inl ⟨imapFlags_handle _ _ _ _, rfl, rfl⟩
    · split at hnext
      · unfold Server.imapLogin at hnext
        split at hnext
        · cases hnext
        · cases hnext
          exact .inl ⟨imapFlags_handle _ _ _ _, rfl, rfl⟩
      · exact .inl (hother _ hnext)
    · exact .inl (hother _ hnext)

theorem tls_submissionCommand {c c' : SubmissionConn} (hcollecting : c.collecting = none)
    (hnext : (server.submissionCommand peer t c).next = some c') :
    c'.tls = c.tls ∨ (server.Upgrades t c.tls ∧ c' = ⟨.new, none, true⟩) := by
  have hanswered : ∀ command reply session,
      (answered server t.world c command reply session).next = some c' → c'.tls = c.tls := by
    intro command reply session hr
    unfold answered at hr
    dsimp only at hr
    split at hr
    · cases hr
    · cases hr
      rfl
  have hgreeting : ∀ command, (server.submissionGreeting t c command).next = some c' →
      c'.tls = c.tls := by
    intro command hr
    unfold Server.submissionGreeting at hr
    dsimp only at hr
    split at hr
    · cases hr
      rfl
    · split at hr
      · cases hr
        rfl
      · cases hr
        rfl
  unfold Server.submissionCommand at hnext
  split at hnext
  · cases hnext
  · unfold Server.submissionAuth at hnext
    split at hnext
    · cases hnext
      exact .inl rfl
    · split at hnext
      · cases hnext
      · cases hnext
        exact .inl rfl
  · split at hnext
    · cases hnext
      exact .inl rfl
    · unfold startTls at hnext
      split at hnext
      · rename_i htls
        split at hnext
        · cases hnext
          exact .inl rfl
        · split at hnext
          · cases hnext
            exact .inl rfl
          · rename_i hbuffered
            split at hnext
            · rename_i hhandshake
              cases hnext
              rw [hcollecting]
              exact .inr ⟨⟨htls.1, htls.2, by simpa using hbuffered, hhandshake⟩, rfl⟩
            · cases hnext
      · cases hnext
        exact .inl rfl
    · exact .inl (hgreeting _ hnext)
    · exact .inl (hgreeting _ hnext)
    · exact .inl (hanswered _ _ _ hnext)

theorem stepSubmission_cases {c c' : SubmissionConn}
    (hnext : (server.stepSubmission peer t c).next = some c') :
    c'.tls = c.tls ∨ (server.Upgrades t c.tls ∧ c' = ⟨.new, none, true⟩) := by
  unfold Server.stepSubmission iteration at hnext
  split at hnext
  · cases hnext
  · cases hnext
  split at hnext
  · rename_i collector hcollecting
    unfold dataLine at hnext
    dsimp only at hnext
    split at hnext
    · cases hnext
    · split at hnext
      · rw [next_answer hnext]
        exact .inl rfl
      · cases hnext
        exact .inl rfl
  · rename_i hcollecting
    exact tls_submissionCommand hcollecting hnext

-- an iteration that leaves the flags, the stream and the collector alone
theorem inStep_kept {flags flags' : Bool × Bool} {tls tls' : Bool} {γ : Type}
    {data data' : Option γ}
    (h : flags = (server.tls, tls) ∧ (tls = true → server.tls = true) ∧ data = none)
    (hkept : flags' = flags ∧ tls' = tls ∧ data' = data) :
    flags' = (server.tls, tls') ∧ (tls' = true → server.tls = true) ∧ data' = none := by
  obtain ⟨rfl, rfl, rfl⟩ := hkept
  exact h

/-- An iteration keeps the stream, or it upgrades it, and then nothing of the client is left. -/
theorem stepClient_cases {c c' : Client} (h : server.InStep c)
    (hnext : (server.stepClient peer t c).1 = some c') :
    server.InStep c' ∧ c'.protocol = c.protocol ∧
      (c'.tls = c.tls ∨ (server.Upgrades t c.tls ∧ c' = upgraded c.protocol)) := by
  cases c with
  | submission c =>
    obtain ⟨next, hstep, rfl⟩ := Option.map_eq_some_iff.mp hnext
    rcases stepSubmission_cases hstep with htls | ⟨hup, rfl⟩
    · exact ⟨fun hn => h (htls.symm.trans hn), rfl, .inl htls⟩
    · exact ⟨fun _ => hup.tls, rfl, .inr ⟨hup, rfl⟩⟩
  | pop c =>
    obtain ⟨next, hstep, rfl⟩ := Option.map_eq_some_iff.mp hnext
    rcases stepPop_cases hstep with hsame | ⟨hup, rfl⟩
    · exact ⟨inStep_kept h hsame, rfl, .inl hsame.2.1⟩
    · rw [h.2.2]
      refine ⟨⟨?_, fun _ => hup.tls, rfl⟩, rfl, .inr ⟨hup, rfl⟩⟩
      rw [hup.tls]
      rfl
  | imap c =>
    obtain ⟨next, hstep, rfl⟩ := Option.map_eq_some_iff.mp hnext
    rcases stepImap_cases hstep with hsame | ⟨hup, rfl⟩
    · exact ⟨inStep_kept h hsame, rfl, .inl hsame.2.1⟩
    · rw [h.2.2]
      refine ⟨⟨?_, fun _ => hup.tls, rfl⟩, rfl, .inr ⟨hup, rfl⟩⟩
      rw [hup.tls]
      rfl

theorem inStep_runClient {protocol : Protocol} {turns : List Turn} {c : Client}
    (h : server.runClient peer protocol turns = some c) :
    server.InStep c ∧ c.protocol = protocol := by
  apply runClient_invariant _ _ h
  · refine ⟨inStep_connect server protocol, ?_⟩
    cases protocol with
    | submission => rfl
    | pop => rfl
    | imap => rfl
  · intro t c c' hc hnext
    obtain ⟨hin, hsame, -⟩ := stepClient_cases hc.1 hnext
    exact ⟨hin, hsame.trans hc.2⟩

end

/-! ## 3. What is checked and what is recorded -/

/-- What an iteration gets from `auth.check`, if it calls it, and then tells the throttle: a
success, a failure or nothing. -/
structure Handling where
  checked : Option Bool
  recorded : Option Bool
  deriving DecidableEq, Repr

def Handling.nothing : Handling := ⟨none, none⟩

-- whether the throttle lets the address try
def Turn.allows (t : Turn) (peer : IpAddr) : Bool := t.world.throttle.checkAt peer t.now

section
variable (server : Server) (peer : IpAddr) (t : Turn)

-- the reply code decides
def codeRecord (code : Nat) : Option Bool :=
  if code = 235 then some true else if code = 535 then some false else none

def Server.authHandling (c : SubmissionConn) (rest : Str) : Handling :=
  if server.tls ∧ c.tls = false then .nothing
  else if t.allows peer = false then .nothing
  else if trim rest = [] then .nothing
  else
    ⟨(decodePlain server.auth (trim rest)).map fun creds =>
        server.auth.check creds.username creds.password,
      codeRecord (c.session.authenticatePlain server.auth (trim rest)).1.code⟩

def Server.submissionHandling (c : SubmissionConn) : Handling :=
  if t.read = .read ∧ c.collecting = none then
    match stripPrefixCi (trimEnd (decodeLossy t.buf)) "AUTH PLAIN".toList with
    | .present rest => server.authHandling peer t c rest
    | _ => .nothing
  else .nothing

-- the `PASS` that gets past the throttle
def Server.passLine (c : PopConn) : Option Str :=
  if t.read = .read then
    match PopCommand.parse (decodeLossy t.buf) with
    | .ok (.pass password) =>
        if server.credentialsChecked c ∧ t.allows peer = true then some password else none
    | _ => none
  else none

-- the answer of the authenticator to what the session passes on
def Server.asked (server : Server) (pair : Option (Str × Str)) : Option Bool :=
  pair.map fun p => server.auth.check p.1 p.2

def Server.popHandling (c : PopConn) : Handling :=
  match t.read with
  | .read =>
      match PopCommand.parse (decodeLossy t.buf) with
      | .ok .stls => .nothing
      | .ok (.pass password) =>
          if server.credentialsChecked c then
            if t.allows peer = false then .nothing
            else ⟨server.asked (c.session.checks (.pass password)),
              some (c.session.handle server.auth.check t.world.store (.pass password)).1.ok⟩
          else ⟨server.asked (c.session.checks (.pass password)), none⟩
      | .ok command => ⟨server.asked (c.session.checks command), none⟩
      | .error _ => .nothing
  | _ => .nothing

-- the `LOGIN` that gets past the throttle: its tag and its credentials
def Server.loginLine (c : ImapConn) : Option (Str × Str × Str) :=
  if t.read = .read then
    match TaggedCommand.parse (decodeLossy t.buf) with
    | .ok ⟨tag, .login username password⟩ =>
        if server.credentialsChecked c ∧ t.allows peer = true then
          some (tag, username, password)
        else none
    | _ => none
  else none

def Server.imapHandling (c : ImapConn) : Handling :=
  match t.read with
  | .read =>
      match TaggedCommand.parse (decodeLossy t.buf) with
      | .ok ⟨tag, .login username password⟩ =>
          if server.credentialsChecked c then
            if t.allows peer = false then .nothing
            else ⟨server.asked (c.session.checks (.login username password)),
              some (statusOk (c.session.handle server.auth.check t.world.store
                ⟨tag, .login username password⟩).1.status)⟩
          else ⟨server.asked (c.session.checks (.login username password)), none⟩
      | .ok tagged => ⟨server.asked (c.session.checks tagged.command), none⟩
      | .error _ => .nothing
  | _ => .nothing

def Server.handling : Client → Handling
  | .submission c => server.submissionHandling peer t c
  | .pop c => server.popHandling peer t c
  | .imap c => server.imapHandling peer t c

-- the throttle with that record
def Server.noted : Option Bool → Throttle
  | none => t.world.throttle
  | some true => t.world.throttle.recordSuccess peer
  | some false => t.world.throttle.recordFailureAt server.throttle peer t.later

end

/-! ### The throttle changes by the record -/

section
variable {server : Server} {peer : IpAddr} {t : Turn}

theorem throttle_enqueueGroups (w : World) (ios : Nat → EnqueueIo) (source : Message) (i : Nat)
    (groups : List (Str × List Mailbox)) :
    (w.enqueueGroups ios source i groups).throttle = w.throttle := by
  induction groups generalizing w i with
  | nil => rfl
  | cons group groups ih => exact ih _ _

theorem throttle_acceptInbound (w : World) (ios : Nat → EnqueueIo) (message : Message)
    (authorization : RelayAuthorization) :
    (server.acceptInbound w ios message authorization).2.throttle = w.throttle := by
  unfold Server.acceptInbound
  dsimp only
  split
  · split
    · rfl
    · exact throttle_enqueueGroups _ _ _ _ _
  · rfl

theorem throttle_recordLogin (ok : Bool) (store : MailStore) :
    (server.recordLogin peer t ok { t.world with store := store }).throttle =
      server.noted peer t (some ok) := by
  cases ok with
  | true => rfl
  | false => rfl

theorem throttle_stepPop (c : PopConn) :
    (server.stepPop peer t c).world.throttle =
      server.noted peer t (server.popHandling peer t c).recorded := by
  unfold Server.stepPop Server.popHandling Server.popCommand
  cases t.read with
  | eof => rfl
  | tooLong => rfl
  | read =>
    dsimp only
    cases PopCommand.parse (decodeLossy t.buf) with
    | error e => rfl
    | ok command =>
      cases command with
      | stls =>
        dsimp only
        unfold Server.popStls
        split
        · rfl
        · dsimp only
          split
          · rfl
          · rfl
      | pass password =>
        unfold AccessReaction.closing Server.popPass Turn.allows
        dsimp only
        split
        · split
          · rfl
          · exact throttle_recordLogin _ _
        · rfl
      | _ => rfl

theorem throttle_stepImap (c : ImapConn) :
    (server.stepImap peer t c).world.throttle =
      server.noted peer t (server.imapHandling peer t c).recorded := by
  unfold Server.stepImap Server.imapHandling Server.imapCommand
  cases t.read with
  | eof => rfl
  | tooLong => rfl
  | read =>
    dsimp only
    cases TaggedCommand.parse (decodeLossy t.buf) with
    | error e => rfl
    | ok tagged =>
      obtain ⟨tag, command⟩ := tagged
      cases command with
      | startTls =>
        dsimp only
        unfold Server.imapStartTls
        split
        · rfl
        · dsimp only
          split
          · rfl
          · rfl
      | login username password =>
        unfold Server.imapLogin Turn.allows
        dsimp only
        split
        · split
          · rfl
          · exact throttle_recordLogin _ _
        · rfl
      | _ => rfl

theorem throttle_submissionAuth (c : SubmissionConn) (rest : Str) :
    (server.submissionAuth peer t c rest).world.throttle =
      server.noted peer t (server.authHandling peer t c rest).recorded := by
  have hrecord : ∀ code, (recordAuth server peer t code).throttle =
      server.noted peer t (codeRecord code) := by
    intro code
    unfold recordAuth codeRecord
    split
    · rfl
    · split
      · rfl
      · rfl
  unfold Server.submissionAuth Server.authHandling Turn.allows
  split
  · rfl
  · split
    · rfl
    · dsimp only
      split
      · rfl
      · exact hrecord _

theorem throttle_submissionGreeting (c : SubmissionConn) (command : SmtpCommand) :
    (server.submissionGreeting t c command).world.throttle = t.world.throttle := by
  unfold Server.submissionGreeting
  dsimp only
  repeat' split
  all_goals rfl

theorem throttle_answered (c : SubmissionConn) (command : SmtpCommand) (reply : SmtpReply)
    (session : MsaSession) :
    (answered server t.world c command reply session).world.throttle = t.world.throttle := by
  unfold answered
  dsimp only
  split
  · rfl
  · rfl

theorem throttle_stepSubmission (c : SubmissionConn) :
    (server.stepSubmission peer t c).world.throttle =
      server.noted peer t (server.submissionHandling peer t c).recorded := by
  rw [world_stepSubmission]
  unfold Server.submissionHandling
  by_cases hcommand : t.read = .read ∧ c.collecting = none
  · have hnone : server.handedSubmission t c = none := by
      unfold Server.handedSubmission handed
      rw [if_pos hcommand.1, hcommand.2]
      rfl
    rw [hnone, if_pos hcommand, if_pos hcommand, Option.map_none, Option.getD_none]
    unfold Server.submissionCommand
    cases stripPrefixCi (trimEnd (decodeLossy t.buf)) "AUTH PLAIN".toList with
    | panics => rfl
    | present rest => exact throttle_submissionAuth c rest
    | absent =>
      dsimp only
      cases SmtpCommand.parse (decodeLossy t.buf) with
      | error e => rfl
      | ok command =>
        cases command with
        | startTls =>
          dsimp only
          unfold startTls
          repeat' split
          all_goals rfl
        | ehlo domain => exact throttle_submissionGreeting c _
        | helo domain => exact throttle_submissionGreeting c _
        | _ => exact throttle_answered c _ _ _
  · rw [if_neg hcommand, if_neg hcommand]
    cases server.handedSubmission t c with
    | none => rfl
    | some message => exact throttle_acceptInbound _ _ _ _

theorem throttle_stepClient (c : Client) :
    (server.stepClient peer t c).2.throttle =
      server.noted peer t (server.handling peer t c).recorded := by
  cases c with
  | submission c => exact throttle_stepSubmission c
  | pop c => exact throttle_stepPop c
  | imap c => exact throttle_stepImap c

end

/-! ## 4. Iterations that check -/

section
variable {server : Server} {peer : IpAddr} {t : Turn}

-- on the submission port a check and its record go together
theorem submissionHandling_cases (server : Server) (peer : IpAddr) (t : Turn) (c : SubmissionConn) :
    server.submissionHandling peer t c = .nothing ∨
      ¬ (server.tls = true ∧ c.tls = false) ∧ t.allows peer = true ∧
        ∃ granted, server.submissionHandling peer t c = ⟨some granted, some granted⟩ := by
  unfold Server.submissionHandling
  split
  · split
    · rename_i rest _
      unfold Server.authHandling
      by_cases htls : server.tls ∧ c.tls = false
      · exact .inl (if_pos htls)
      rw [if_neg htls]
      by_cases hallowed : t.allows peer = false
      · exact .inl (if_pos hallowed)
      rw [if_neg hallowed]
      by_cases hempty : trim rest = []
      · exact .inl (if_pos hempty)
      rw [if_neg hempty]
      unfold MsaSession.authenticatePlain
      cases decodePlain server.auth (trim rest) with
      | none => exact .inl rfl
      | some creds =>
        refine .inr ⟨htls, by simpa using hallowed, ?_⟩
        by_cases hcheck : server.auth.check creds.username creds.password = true
        · refine ⟨true, ?_⟩
          simp only [Option.map_some, hcheck]
          rfl
        · refine ⟨false, ?_⟩
          simp only [Option.map_some, Bool.eq_false_of_not_eq_true hcheck]
          rfl
    · exact .inl rfl
  · exact .inl rfl

theorem of_passLine {c : PopConn} {password : Str} (h : server.passLine peer t c = some password) :
    server.credentialsChecked c = true ∧ t.allows peer = true := by
  unfold Server.passLine at h
  grind

theorem of_loginLine {c : ImapConn} {line : Str × Str × Str}
    (h : server.loginLine peer t c = some line) :
    server.credentialsChecked c = true ∧ t.allows peer = true := by
  unfold Server.loginLine at h
  grind

theorem needsTls_of_flags {s : Pop3Session} {a b : Bool} (h : popFlags s = (a, b)) :
    s.needsTls = !(!a || b) := by
  obtain ⟨h₁, h₂⟩ := Prod.mk.inj h
  unfold Pop3Session.needsTls
  rw [h₁, h₂]
  cases a with
  | false => rfl
  | true => rfl

theorem imap_needsTls_of_flags {s : ImapSession} {a b : Bool} (h : imapFlags s = (a, b)) :
    s.needsTls = !(!a || b) := by
  obtain ⟨h₁, h₂⟩ := Prod.mk.inj h
  unfold ImapSession.needsTls
  rw [h₁, h₂]
  cases a with
  | false => rfl
  | true => rfl

/-- POP3 records for every `PASS` that gets past the throttle, checked or not. -/
theorem popHandling_eq {c : PopConn} (h : server.InStep (.pop c)) :
    server.popHandling peer t c = match server.passLine peer t c with
      | none => .nothing
      | some password => match c.session.checks (.pass password) with
        | some p => ⟨some (server.auth.check p.1 p.2), some (server.auth.check p.1 p.2)⟩
        | none => ⟨none, some false⟩ := by
  have hneeds : c.session.needsTls = !server.credentialsChecked c := needsTls_of_flags h.1
  unfold Server.popHandling Server.passLine
  cases t.read with
  | eof => rfl
  | tooLong => rfl
  | read =>
    rw [if_pos rfl]
    cases PopCommand.parse (decodeLossy t.buf) with
    | error e => rfl
    | ok command =>
      cases command with
      | pass password =>
        dsimp only
        by_cases hchecked : server.credentialsChecked c = true
        · rw [if_pos hchecked]
          by_cases hallowed : t.allows peer = true
          · rw [if_neg (by rw [hallowed]; simp), if_pos ⟨hchecked, hallowed⟩]
            dsimp only
            cases hpair : c.session.checks (.pass password) with
            | some p => simp only [Pop3Session.ok_of_checks hpair, Server.asked, Option.map_some]
            | none =>
              simp only [Pop3Session.not_ok_of_unchecked hpair, Server.asked, Option.map_none]
          · rw [if_pos (by simpa using hallowed), if_neg (fun hh => hallowed hh.2)]
        · -- the session refuses before it looks at the password
          have hnone : c.session.checks (.pass password) = none := by
            rw [Pop3Session.checks, if_neg]
            rintro ⟨-, htls⟩
            rw [hneeds, Bool.eq_false_of_not_eq_true hchecked] at htls
            cases htls
          rw [if_neg hchecked, if_neg (fun hh => hchecked hh.1), hnone]
          rfl
      | _ => rfl

/-- IMAP records for every `LOGIN` that gets past the throttle, by the words of the status line. -/
theorem imapHandling_eq {c : ImapConn} (h : server.InStep (.imap c)) :
    server.imapHandling peer t c = match server.loginLine peer t c with
      | none => .nothing
      | some (tag, username, password) =>
          ⟨some (server.auth.check username password),
            some (statusOk (if server.auth.check username password then
                okStatus tag "LOGIN completed" else noStatus tag "LOGIN failed"))⟩ := by
  have hneeds : c.session.needsTls = !server.credentialsChecked c := imap_needsTls_of_flags h.1
  unfold Server.imapHandling Server.loginLine
  cases t.read with
  | eof => rfl
  | tooLong => rfl
  | read =>
    rw [if_pos rfl]
    cases TaggedCommand.parse (decodeLossy t.buf) with
    | error e => rfl
    | ok tagged =>
      obtain ⟨tag, command⟩ := tagged
      cases command with
      | login username password =>
        dsimp only
        by_cases hchecked : server.credentialsChecked c = true
        · have hpair : c.session.checks (.login username password) = some (username, password) := by
            rw [ImapSession.checks, if_neg]
            rw [hneeds, hchecked]
            simp
          rw [if_pos hchecked]
          by_cases hallowed : t.allows peer = true
          · rw [if_neg (by rw [hallowed]; simp), if_pos ⟨hchecked, hallowed⟩]
            dsimp only
            rw [@ImapSession.status_of_checks c.session ⟨tag, .login username password⟩ _ hpair,
              hpair]
            rfl
          · rw [if_pos (by simpa using hallowed), if_neg (fun hh => hallowed hh.2)]
        · have hnone : c.session.checks (.login username password) = none := by
            rw [ImapSession.checks, if_pos]
            rw [hneeds, Bool.eq_false_of_not_eq_true hchecked]
            rfl
          rw [if_neg hchecked, if_neg (fun hh => hchecked hh.1), hnone]
          rfl
      | _ => rfl

/-! ### The words of a status line -/

theorem words_okStatus (tag : Str) : splitWhitespace (okStatus tag "LOGIN completed") =
    splitWhitespace tag ++ ["OK".toList, "LOGIN".toList, "completed".toList] := by
  have happend : okStatus tag "LOGIN completed" = tag ++ ' ' :: "OK LOGIN completed".toList := by
    simp [okStatus]
  rw [happend, splitWhitespace_append_cons _ _ (by decide)]
  exact congrArg (splitWhitespace tag ++ ·) (by decide)

theorem words_noStatus (tag : Str) : splitWhitespace (noStatus tag "LOGIN failed") =
    splitWhitespace tag ++ ["NO".toList, "LOGIN".toList, "failed".toList] := by
  have happend : noStatus tag "LOGIN failed" = tag ++ ' ' :: "NO LOGIN failed".toList := by
    simp [noStatus]
  rw [happend, splitWhitespace_append_cons _ _ (by decide)]
  exact congrArg (splitWhitespace tag ++ ·) (by decide)

-- the tag is cut off at a space only, so it may have words of its own
def secondWord (tag : Str) : Option Str := (splitWhitespace tag)[1]?

theorem statusOk_no_iff (tag : Str) :
    statusOk (noStatus tag "LOGIN failed") = true ↔ secondWord tag = some "OK".toList := by
  unfold statusOk secondWord
  rw [words_noStatus, decide_eq_true_iff]
  cases splitWhitespace tag with
  | nil => simp
  | cons first rest =>
    cases rest with
    | nil => simp
    | cons second rest => simp

theorem statusOk_ok_iff (tag : Str) :
    statusOk (okStatus tag "LOGIN completed") = true ↔
      (splitWhitespace tag).length = 1 ∨ secondWord tag = some "OK".toList := by
  unfold statusOk secondWord
  rw [words_okStatus, decide_eq_true_iff]
  cases splitWhitespace tag with
  | nil => simp
  | cons first rest =>
    cases rest with
    | nil => simp
    | cons second rest => simp

end

end Snail.Server
