import Snail.Server.Accepted

/-!
# Submission — who a submitted message was accepted from

A log of what a connection of `serve_submission` does with its session.  The session is the replay
of its log, and the log of a message that is accepted shows the login and the `MAIL` command behind
it.  The last section says at which lines the test for `AUTH PLAIN` panics.
-/

set_option linter.dupNamespace false

open Snail.Reasoning Snail.Mail Snail.Network Snail.Security Snail.Access

namespace Snail.Server

/-! ## 1. The log -/

inductive SubmissionEvent where
  -- `auth.check` was called through the session
  | checked (user password : Str) (granted : Bool)
  -- the session handled a command while `user` was logged in
  | handled (user : Option Str) (command : SmtpCommand) (reply : SmtpReply)
  -- the session was replaced behind a TLS handshake
  | upgraded
  -- an envelope was taken at the end of data
  | taken
  deriving DecidableEq, Repr

def handledBy (session : MsaSession) (command : SmtpCommand) : SubmissionEvent :=
  .handled session.user command (session.handle command).1

section
variable (server : Server) (peer : IpAddr) (t : Turn) (c : SubmissionConn)

def Server.authEvents (rest : Str) : List SubmissionEvent :=
  if server.tls ∧ c.tls = false then []
  else if t.world.throttle.checkAt peer t.now = false then []
  else if trim rest = [] then []
  else (decodePlain server.auth (trim rest)).toList.map fun creds =>
    .checked creds.username creds.password (server.auth.check creds.username creds.password)

def Server.startTlsEvents : List SubmissionEvent :=
  if server.tls ∧ c.tls = false then
    handledBy c.session .startTls ::
      if (c.session.handle .startTls).1.code = 220 ∧ t.buffered = false ∧ t.handshake then
        [.upgraded] else []
  else []

def Server.commandEvents (command : SmtpCommand) : List SubmissionEvent :=
  if command = .startTls then server.startTlsEvents t c else [handledBy c.session command]

-- what one iteration does with the session, in order
def Server.submissionEvents : List SubmissionEvent :=
  match t.read with
  | .eof => []
  | .tooLong => []
  | .read =>
      match c.collecting with
      | some collector =>
          if (collector.pushLine t.buf).1 ∧ (collector.pushLine t.buf).2.sizeExceeded = false ∧
            c.session.smtp.takeEnvelope.1.isSome then [.taken] else []
      | none =>
          match stripPrefixCi (trimEnd (decodeLossy t.buf)) "AUTH PLAIN".toList with
          | .panics => []
          | .present rest => server.authEvents peer t c rest
          | .absent =>
              match SmtpCommand.parse (decodeLossy t.buf) with
              | .error _ => []
              | .ok command => server.commandEvents t c command

end

-- the connection and its log, iteration by iteration
def Server.logSubmission (server : Server) (peer : IpAddr) (turns : List Turn) :
    Option SubmissionConn × List SubmissionEvent :=
  turns.foldl (fun p t => (p.1.bind fun c => (server.stepSubmission peer t c).next,
    p.2 ++ p.1.elim [] (server.submissionEvents peer t))) (some SubmissionConn.start, [])

theorem logSubmission_fst (server : Server) (peer : IpAddr) (turns : List Turn) :
    (server.logSubmission peer turns).1 = server.runSubmission peer turns := by
  unfold Server.logSubmission Server.runSubmission runConn
  induction turns using List.reverseRecOn with
  | nil => rfl
  | append_singleton turns t ih =>
    rw [List.foldl_append, List.foldl_append, ← ih]
    rfl

theorem logSubmission_snd_concat (server : Server) (peer : IpAddr) (turns : List Turn) (t : Turn) :
    (server.logSubmission peer (turns ++ [t])).2 = (server.logSubmission peer turns).2 ++
      (server.runSubmission peer turns).elim [] (server.submissionEvents peer t) := by
  rw [← logSubmission_fst]
  unfold Server.logSubmission
  rw [List.foldl_append]
  rfl

/-! ## 2. The session is the replay of its log -/

/-- What a log tells about the session: one case for each thing that can happen to it. -/
inductive Replays (auth : AuthBackend) : List SubmissionEvent → MsaSession → Prop
  | start : Replays auth [] .new
  | granted {log s} (h : Replays auth log s) (user password : Str)
      (hcheck : auth.check user password = true) :
      Replays auth (log ++ [.checked user password true]) { s with user := some user }
  | denied {log s} (h : Replays auth log s) (user password : Str) :
      Replays auth (log ++ [.checked user password false]) s
  | handled {log s} (h : Replays auth log s) (command : SmtpCommand) (hquit : command ≠ .quit) :
      Replays auth (log ++ [handledBy s command]) (s.handle command).2
  | upgraded {log s} (h : Replays auth log s) : Replays auth (log ++ [.upgraded]) .new
  | taken {log s} (h : Replays auth log s) (hsome : s.smtp.takeEnvelope.1.isSome = true) :
      Replays auth (log ++ [.taken]) { s with smtp := s.smtp.takeEnvelope.2 }

section
variable {server : Server} {peer : IpAddr} {t : Turn} {c c' : SubmissionConn}
  {log : List SubmissionEvent}

theorem replays_submissionAuth {rest : Str} (h : Replays server.auth log c.session)
    (hnext : (server.submissionAuth peer t c rest).next = some c') :
    Replays server.auth (log ++ server.authEvents peer t c rest) c'.session := by
  unfold Server.submissionAuth at hnext
  unfold Server.authEvents
  split at hnext
  · rename_i htls
    rw [if_pos htls, List.append_nil]
    cases hnext
    exact h
  rename_i htls
  rw [if_neg htls]
  split at hnext
  · cases hnext
  rename_i hthrottle
  rw [if_neg hthrottle]
  simp only at hnext
  cases hnext
  by_cases hempty : trim rest = []
  · simp only [if_pos hempty, List.append_nil]
    exact h
  · simp only [if_neg hempty]
    unfold MsaSession.authenticatePlain
    cases decodePlain server.auth (trim rest) with
    | none =>
      rw [Option.toList_none, List.map_nil, List.append_nil]
      exact h
    | some creds =>
      simp only [Option.toList_some, List.map_cons, List.map_nil]
      by_cases hcheck : server.auth.check creds.username creds.password = true
      · rw [if_pos hcheck, hcheck]
        exact h.granted _ _ hcheck
      · rw [if_neg hcheck, Bool.eq_false_of_not_eq_true hcheck]
        exact h.denied _ _

theorem handle_startTls (s : MsaSession) : (s.handle .startTls).2 = s := by
  have hsmtp : (s.smtp.handle .startTls).2 = s.smtp := by
    rw [SmtpSession.handle]
    split
    · rfl
    · rfl
  unfold MsaSession.handle
  rw [if_neg (by simp [needsAuth])]
  change { s with smtp := (s.smtp.handle .startTls).2 } = s
  rw [hsmtp]

theorem replays_startTls (h : Replays server.auth log c.session)
    (hnext : (startTls server t c (c.session.handle .startTls).1 .new).next = some c') :
    Replays server.auth (log ++ server.startTlsEvents t c) c'.session := by
  have hhandled := h.handled .startTls (by decide)
  rw [handle_startTls] at hhandled
  unfold startTls at hnext
  unfold Server.startTlsEvents
  split at hnext
  · rename_i htls
    rw [if_pos htls]
    split at hnext
    · rename_i hcode
      rw [if_neg (fun hh => hcode hh.1)]
      cases hnext
      exact hhandled
    · rename_i hcode
      split at hnext
      · rename_i hbuffered
        rw [if_neg (fun hh => by simp [hbuffered] at hh)]
        cases hnext
        exact hhandled
      · rename_i hbuffered
        split at hnext
        · rename_i hhandshake
          rw [if_pos ⟨not_not.mp hcode, by simpa using hbuffered, hhandshake⟩]
          cases hnext
          have hup := hhandled.upgraded
          rw [List.append_assoc] at hup
          exact hup
        · cases hnext
  · rename_i htls
    rw [if_neg htls, List.append_nil]
    cases hnext
    exact h

theorem replays_handledBy {command : SmtpCommand} (h : Replays server.auth log c.session)
    (hquit : command ≠ .quit) (hsession : c'.session = (c.session.handle command).2) :
    Replays server.auth (log ++ [handledBy c.session command]) c'.session := by
  rw [hsession]
  exact h.handled command hquit

theorem session_submissionGreeting {command : SmtpCommand}
    (hnext : (server.submissionGreeting t c command).next = some c') :
    c'.session = (c.session.handle command).2 := by
  unfold Server.submissionGreeting at hnext
  simp only at hnext
  split at hnext
  · exact (congrArg Conn.session (Option.some.inj hnext)).symm
  · split at hnext
    · exact (congrArg Conn.session (Option.some.inj hnext)).symm
    · exact (congrArg Conn.session (Option.some.inj hnext)).symm

theorem ne_quit_of_answered {w : World} {command : SmtpCommand} {reply : SmtpReply}
    {session : MsaSession} (hnext : (answered server w c command reply session).next = some c') :
    command ≠ .quit := by
  intro hquit
  unfold answered at hnext
  rw [hquit] at hnext
  cases hnext

theorem takeEnvelope_of_none {smtp : SmtpSession} (h : ¬ smtp.takeEnvelope.1.isSome = true) :
    smtp.takeEnvelope.2 = smtp := by
  unfold SmtpSession.takeEnvelope at h ⊢
  split
  · rfl
  · rename_i hne
    rw [if_neg hne] at h
    exact absurd rfl h

theorem replays_stepSubmission (h : Replays server.auth log c.session)
    (hnext : (server.stepSubmission peer t c).next = some c') :
    Replays server.auth (log ++ server.submissionEvents peer t c) c'.session := by
  unfold Server.stepSubmission iteration at hnext
  unfold Server.submissionEvents
  cases hread : t.read with
  | eof =>
    rw [hread] at hnext
    cases hnext
  | tooLong =>
    rw [hread] at hnext
    cases hnext
  | read =>
    rw [hread] at hnext
    simp only at hnext ⊢
    cases hcollecting : c.collecting with
    | some collector =>
      rw [hcollecting] at hnext
      simp only at hnext ⊢
      unfold dataLine at hnext
      simp only at hnext
      split at hnext
      · cases hnext
      · rename_i hsize
        split at hnext
        · rename_i hdone
          rw [next_answer hnext]
          by_cases hsome : c.session.smtp.takeEnvelope.1.isSome = true
          · rw [if_pos ⟨hdone, by simpa using hsize, hsome⟩]
            exact h.taken hsome
          · rw [if_neg (fun hh => hsome hh.2.2), List.append_nil, takeEnvelope_of_none hsome]
            exact h
        · rename_i hdone
          rw [if_neg (fun hh => hdone hh.1), List.append_nil]
          cases hnext
          exact h
    | none =>
      rw [hcollecting] at hnext
      simp only at hnext ⊢
      unfold Server.submissionCommand at hnext
      cases hstrip : stripPrefixCi (trimEnd (decodeLossy t.buf)) "AUTH PLAIN".toList with
      | panics =>
        rw [hstrip] at hnext
        cases hnext
      | present rest =>
        rw [hstrip] at hnext
        exact replays_submissionAuth h hnext
      | absent =>
        rw [hstrip] at hnext
        simp only at hnext ⊢
        cases hparse : SmtpCommand.parse (decodeLossy t.buf) with
        | error e =>
          rw [hparse] at hnext
          cases hnext
          rw [List.append_nil]
          exact h
        | ok command =>
          rw [hparse] at hnext
          cases command with
          | startTls => exact replays_startTls h hnext
          | ehlo domain => exact replays_handledBy h (by simp) (session_submissionGreeting hnext)
          | helo domain => exact replays_handledBy h (by simp) (session_submissionGreeting hnext)
          | mailFrom _ | rcptTo _ | data | rset | noop | quit =>
            exact replays_handledBy h (ne_quit_of_answered hnext) (session_answered hnext)

/-- In every run, the log replays to the session. -/
theorem replays_runSubmission {turns : List Turn}
    (hrun : server.runSubmission peer turns = some c) :
    Replays server.auth (server.logSubmission peer turns).2 c.session := by
  induction turns using List.reverseRecOn generalizing c with
  | nil =>
    cases hrun
    exact .start
  | append_singleton turns t ih =>
    rcases runConn_concat hrun with ⟨before, hbefore, hnext⟩
    rw [logSubmission_snd_concat, show server.runSubmission peer turns = some before from hbefore]
    exact replays_stepSubmission (ih hbefore) hnext

end

/-! ## 3. Logins and transactions -/

def acceptedRcpt : SubmissionEvent → Option Mailbox
  | .handled _ (.rcptTo rcpt) reply => if reply.code = 250 then some rcpt else none
  | _ => none

-- what forgets the sender of a transaction or sets it anew
def SubmissionEvent.ends : SubmissionEvent → Bool
  | .upgraded => true
  | .taken => true
  | .handled _ (.helo _) _ => true
  | .handled _ (.ehlo _) _ => true
  | .handled _ .rset _ => true
  | .handled _ (.mailFrom _) reply => reply.code = 250
  | _ => false

section
variable {auth : AuthBackend} {log : List SubmissionEvent} {s : MsaSession} {user : Str}

/-- The log shows a granted check of `user`, made through the session that is current at its end. -/
def LoggedIn (auth : AuthBackend) (log : List SubmissionEvent) (user : Str) : Prop :=
  ∃ before password after, log = before ++ .checked user password true :: after ∧
    auth.check user password = true ∧ .upgraded ∉ after

theorem LoggedIn.append (h : LoggedIn auth log user) {e : SubmissionEvent} (he : e ≠ .upgraded) :
    LoggedIn auth (log ++ [e]) user := by
  rcases h with ⟨before, password, after, rfl, hcheck, hup⟩
  refine ⟨before, password, after ++ [e], by simp, hcheck, ?_⟩
  rw [List.mem_append, List.mem_singleton]
  rintro (h | h)
  · exact hup h
  · exact he h.symm

theorem user_handle (s : MsaSession) (command : SmtpCommand) :
    (s.handle command).2.user = s.user := by
  unfold MsaSession.handle
  split
  · rfl
  · split
    · rfl
    · rfl

theorem loggedIn_of_replays (h : Replays auth log s) (huser : s.user = some user) :
    LoggedIn auth log user := by
  induction h with
  | start => cases huser
  | granted h new password hcheck ih =>
    cases huser
    exact ⟨_, password, [], rfl, hcheck, by simp⟩
  | denied h _ _ ih => exact (ih huser).append (by simp)
  | handled h command _ ih =>
    rw [user_handle] at huser
    exact (ih huser).append (by simp [handledBy])
  | upgraded h ih => cases huser
  | taken h _ ih => exact (ih huser).append (by simp)

/-- The log shows the `MAIL` command behind an envelope: it was answered 250 while its sender was
logged in, the login was made through the current session, nothing has ended the transaction since,
and the recipients are those of the `RCPT` commands answered 250. -/
def Transaction (auth : AuthBackend) (log : List SubmissionEvent) (envelope : Envelope) : Prop :=
  ∃ before user address reply after,
    log = before ++ .handled (some user) (.mailFrom (some address)) reply :: after ∧
    LoggedIn auth before user ∧ reply.code = 250 ∧ (∀ e ∈ after, e.ends = false) ∧
    envelope.sender = some address ∧ eqIgnoreAsciiCase address.toString user = true ∧
    envelope.recipients = after.filterMap acceptedRcpt

theorem Transaction.append {sender : Option Mailbox} {rcpts : List Mailbox}
    (h : Transaction auth log ⟨sender, rcpts⟩) {e : SubmissionEvent} (he : e.ends = false) :
    Transaction auth (log ++ [e]) ⟨sender, rcpts ++ (acceptedRcpt e).toList⟩ := by
  rcases h with ⟨before, user, address, reply, after, rfl, hlogin, hcode, hends, hsender, howns,
    hrcpts⟩
  refine ⟨before, user, address, reply, after ++ [e], by simp, hlogin, hcode, ?_, hsender, howns,
    ?_⟩
  · intro e' he'
    rcases List.mem_append.mp he' with he' | he'
    · exact hends e' he'
    · rw [List.mem_singleton.mp he']
      exact he
  · rw [List.filterMap_append, ← hrcpts]
    cases hr : acceptedRcpt e with
    | none => simp [hr]
    | some rcpt => simp [hr]

def inTransaction : Phase → Bool
  | .sender => true
  | .recipients => true
  | .data => true
  | _ => false

/-- The SMTP session against the log: outside a transaction there are no recipients, inside one the
log shows where its envelope comes from. -/
structure Tracked (auth : AuthBackend) (log : List SubmissionEvent) (s : SmtpSession) : Prop where
  helo : s.helo = none → s.phase = .greeting
  idle : inTransaction s.phase = false → s.recipients = []
  busy : inTransaction s.phase = true → Transaction auth log ⟨s.sender, s.recipients⟩

section
variable {smtp : SmtpSession} {e : SubmissionEvent}

theorem Tracked.keep (h : Tracked auth log smtp) (he : e.ends = false)
    (hrcpt : acceptedRcpt e = none) : Tracked auth (log ++ [e]) smtp := by
  refine ⟨h.helo, h.idle, ?_⟩
  intro hphase
  have happend := (h.busy hphase).append he
  rw [hrcpt, Option.toList_none, List.append_nil] at happend
  exact happend

theorem tracked_new (log : List SubmissionEvent) : Tracked auth log .new :=
  ⟨fun _ => rfl, fun _ => rfl, fun h => by cases h⟩

-- RSET, the greetings and the end of data
theorem tracked_cleared (hphase : smtp.phase = .identified ∨ smtp.phase = .greeting)
    (hhelo : smtp.helo = none → smtp.phase = .greeting) (hrcpts : smtp.recipients = [])
    (log : List SubmissionEvent) : Tracked auth log smtp := by
  refine ⟨hhelo, fun _ => hrcpts, ?_⟩
  intro hbusy
  rcases hphase with hphase | hphase
  · rw [hphase] at hbusy
    cases hbusy
  · rw [hphase] at hbusy
    cases hbusy

theorem Tracked.taken (h : Tracked auth log smtp) (hsome : smtp.takeEnvelope.1.isSome = true)
    (log' : List SubmissionEvent) : Tracked auth log' smtp.takeEnvelope.2 := by
  unfold SmtpSession.takeEnvelope at hsome ⊢
  split
  · rename_i hnil
    rw [if_pos hnil] at hsome
    cases hsome
  · rename_i hne
    apply tracked_cleared
    · exact .inl rfl
    · -- with recipients there is a transaction, which needs a greeting
      intro hhelo
      have hidle : inTransaction smtp.phase = false := by
        rw [h.helo hhelo]
        rfl
      exact absurd (h.idle hidle) hne
    · rfl

-- a refused MAIL, RCPT or DATA
theorem not_ends_of_refused {user : Option Str} {command : SmtpCommand} {reply : SmtpReply}
    (hneeds : needsAuth command = true) (hcode : reply.code ≠ 250) :
    (SubmissionEvent.handled user command reply).ends = false ∧
      acceptedRcpt (.handled user command reply) = none := by
  cases command with
  | mailFrom sender => exact ⟨by simp [SubmissionEvent.ends, hcode], rfl⟩
  | rcptTo rcpt => exact ⟨rfl, by simp [acceptedRcpt, hcode]⟩
  | data => exact ⟨rfl, rfl⟩
  | _ => cases hneeds

theorem Tracked.refused (h : Tracked auth log smtp) {user : Option Str} {command : SmtpCommand}
    {reply : SmtpReply} (hneeds : needsAuth command = true) (hcode : reply.code ≠ 250) :
    Tracked auth (log ++ [.handled user command reply]) smtp :=
  h.keep (not_ends_of_refused hneeds hcode).1 (not_ends_of_refused hneeds hcode).2

-- MAIL, RCPT and DATA when they are taken
theorem Tracked.busier (h : Tracked auth log smtp) {smtp' : SmtpSession}
    {log' : List SubmissionEvent} (hphase : smtp.phase ≠ .greeting) (hhelo : smtp'.helo = smtp.helo)
    (hbusy : inTransaction smtp'.phase = true)
    (htransaction : Transaction auth log' ⟨smtp'.sender, smtp'.recipients⟩) :
    Tracked auth log' smtp' := by
  refine ⟨?_, ?_, fun _ => htransaction⟩
  · intro hnone
    rw [hhelo] at hnone
    exact absurd (h.helo hnone) hphase
  · intro hidle
    rw [hbusy] at hidle
    cases hidle

theorem Tracked.handle (h : Tracked auth log smtp) {user : Option Str} {command : SmtpCommand}
    (hquit : command ≠ .quit)
    (hmail : ∀ sender, command = .mailFrom sender → ∃ u address, user = some u ∧
      LoggedIn auth log u ∧ sender = some address ∧ eqIgnoreAsciiCase address.toString u = true) :
    Tracked auth (log ++ [.handled user command (smtp.handle command).1])
      (smtp.handle command).2 := by
  cases command with
  | quit => exact absurd rfl hquit
  | noop => exact h.keep rfl rfl
  | helo domain => exact tracked_cleared (.inl rfl) (fun hh => by cases hh) rfl _
  | ehlo domain => exact tracked_cleared (.inl rfl) (fun hh => by cases hh) rfl _
  | rset =>
    rw [SmtpSession.handle]
    by_cases hhelo : smtp.helo = none
    · have hphase := h.helo hhelo
      apply tracked_cleared
      · exact .inr (by simp [hhelo, hphase])
      · intro _
        simp [hhelo, hphase]
      · rfl
    · apply tracked_cleared
      · exact .inl (by simp [Option.isSome_iff_ne_none, hhelo])
      · intro hnone
        exact absurd hnone hhelo
      · rfl
  | startTls =>
    rw [SmtpSession.handle]
    split
    · exact h.keep rfl rfl
    · exact h.keep rfl rfl
  | mailFrom sender =>
    rw [SmtpSession.handle]
    split
    · rename_i hphase
      rcases hmail sender rfl with ⟨u, address, rfl, hlogin, rfl, howns⟩
      have hidle : smtp.recipients = [] := h.idle (by rw [hphase]; rfl)
      refine h.busier (by rw [hphase]; simp) ?_ ?_ ?_
      · rfl
      · rfl
      · exact ⟨log, u, address, _, [], rfl, hlogin, rfl, by simp, rfl, howns, hidle⟩
    · exact h.refused rfl (show 503 ≠ 250 by decide)
  | rcptTo rcpt =>
    rw [SmtpSession.handle]
    split
    · rename_i hphase
      split
      · exact h.refused rfl (show 452 ≠ 250 by decide)
      · have hbusy : inTransaction smtp.phase = true ∧ smtp.phase ≠ .greeting := by
          rcases hphase with hphase | hphase
          · rw [hphase]
            exact ⟨rfl, by simp⟩
          · rw [hphase]
            exact ⟨rfl, by simp⟩
        refine h.busier hbusy.2 ?_ ?_ ?_
        · rfl
        · rfl
        · exact (h.busy hbusy.1).append rfl
    · exact h.refused rfl (show 503 ≠ 250 by decide)
  | data =>
    rw [SmtpSession.handle]
    split
    · rename_i hphase
      refine h.busier (by rw [hphase]; simp) ?_ ?_ ?_
      · rfl
      · rfl
      · exact (h.keep rfl rfl).busy (by rw [hphase]; rfl)
    · exact h.refused rfl (show 503 ≠ 250 by decide)

end

-- what the login adds to the SMTP session
theorem msa_handle_cases (s : MsaSession) (command : SmtpCommand) :
    (needsAuth command = true ∧ (s.handle command).1.code ≠ 250 ∧ (s.handle command).2 = s) ∨
      ((s.handle command).1 = (s.smtp.handle command).1 ∧
        (s.handle command).2.smtp = (s.smtp.handle command).2 ∧
        ∀ sender, command = .mailFrom sender → ∃ u address, s.user = some u ∧
          sender = some address ∧ eqIgnoreAsciiCase address.toString u = true) := by
  unfold MsaSession.handle
  split
  · rename_i hneeds
    exact .inl ⟨hneeds.1, show 530 ≠ 250 by decide, rfl⟩
  · rename_i hneeds
    cases hforeign : foreignSender s.user command with
    | some user =>
      left
      cases command with
      | mailFrom sender => exact ⟨rfl, show 553 ≠ 250 by decide, rfl⟩
      | _ => cases hforeign
    | none =>
      right
      refine ⟨rfl, rfl, ?_⟩
      intro sender hcommand
      rw [hcommand] at hneeds hforeign
      cases huser : s.user with
      | none => exact absurd ⟨rfl, huser⟩ hneeds
      | some u =>
        rw [huser] at hforeign
        have howns : ownsSender u sender = true := by simpa [foreignSender] using hforeign
        rcases (Option.any_eq_true _ _).mp howns with ⟨address, haddress, heq⟩
        exact ⟨u, address, rfl, haddress, heq⟩

theorem tracked_of_replays (h : Replays auth log s) : Tracked auth log s.smtp := by
  induction h with
  | start => exact tracked_new []
  | granted h _ _ _ ih => exact ih.keep rfl rfl
  | denied h _ _ ih => exact ih.keep rfl rfl
  | upgraded h ih => exact tracked_new _
  | taken h hsome ih => exact ih.taken hsome _
  | @handled log s h command hquit ih =>
    unfold handledBy
    rcases msa_handle_cases s command with ⟨hneeds, hcode, hsame⟩ | ⟨hreply, hsmtp, hmail⟩
    · rw [hsame]
      exact ih.refused hneeds hcode
    · rw [hreply, hsmtp]
      apply ih.handle hquit
      intro sender hcommand
      rcases hmail sender hcommand with ⟨u, address, huser, hsender, howns⟩
      exact ⟨u, address, huser, loggedIn_of_replays h huser, hsender, howns⟩

end

/-! ## 4. What submission accepts -/

theorem world_stepSubmission (server : Server) (peer : IpAddr) (t : Turn) (c : SubmissionConn) :
    (server.stepSubmission peer t c).world =
      ((server.handedSubmission t c).map fun message =>
        (server.acceptInbound t.world t.ios message .permitted).2).getD
          (if t.read = .read ∧ c.collecting = none then (server.submissionCommand peer t c).world
            else t.world) :=
  world_iteration server t c .permitted (server.submissionMessage t c) _ _

theorem envelope_of_handedSubmission {server : Server} {t : Turn} {c : SubmissionConn}
    {message : Message} (h : server.handedSubmission t c = some message) :
    message.envelope = ⟨c.session.smtp.sender, c.session.smtp.recipients⟩ ∧
      c.session.smtp.recipients ≠ [] := by
  rcases handed_eq_some h with ⟨-, collector, -, -, -, hok⟩
  rcases submissionMessage_ok hok with ⟨envelope, m, htaken, hinto, hstamped⟩
  rw [envelope_of_stamped hinto hstamped, SmtpSession.takeEnvelope_eq_some htaken]
  refine ⟨rfl, ?_⟩
  intro hnil
  unfold SmtpSession.takeEnvelope at htaken
  rw [if_pos hnil] at htaken
  cases htaken

/-- Submission accepts no unauthenticated or spoofed mail.  In every run of `serve_submission`, when
a message goes to `accept_inbound` with the authorization to relay, the log shows a granted check of
a user through the current session, then the `MAIL` command of that user with the sender of the
message as their own address, and then the `RCPT` commands of exactly its recipients. -/
theorem submission_is_authenticated {server : Server} {peer : IpAddr} {turns : List Turn}
    {t : Turn} {c : SubmissionConn} {message : Message}
    (hrun : server.runSubmission peer turns = some c)
    (hhanded : server.handedSubmission t c = some message) :
    (server.stepSubmission peer t c).world =
        (server.acceptInbound t.world t.ios message .permitted).2 ∧
      ∃ before user password between address reply after,
        (server.logSubmission peer turns).2 =
          before ++ .checked user password true :: between ++
            .handled (some user) (.mailFrom (some address)) reply :: after ∧
        server.auth.check user password = true ∧ .upgraded ∉ between ++ after ∧
        reply.code = 250 ∧ (∀ e ∈ after, e.ends = false) ∧
        message.envelope.sender = some address ∧
        eqIgnoreAsciiCase address.toString user = true ∧
        message.envelope.recipients = after.filterMap acceptedRcpt := by
  apply And.intro
  · rw [world_stepSubmission, hhanded]
    rfl
  · rcases envelope_of_handedSubmission hhanded with ⟨henvelope, hne⟩
    have htracked := tracked_of_replays (replays_runSubmission hrun)
    have hbusy : inTransaction c.session.smtp.phase = true := by
      rw [← Bool.not_eq_false]
      intro hidle
      exact hne (htracked.idle hidle)
    rcases htracked.busy hbusy with
      ⟨before, user, address, reply, after, hlog, hlogin, hcode, hends, hsender, howns, hrcpts⟩
    rcases hlogin with ⟨before', password, between, rfl, hcheck, hup⟩
    refine ⟨before', user, password, between, address, reply, after, hlog, hcheck, ?_, hcode, hends,
      ?_, howns, ?_⟩
    · rw [List.mem_append]
      rintro (h | h)
      · exact hup h
      · exact absurd (hends _ h) (by decide)
    · rw [henvelope]
      exact hsender
    · rw [henvelope]
      exact hrcpts

theorem eval_handedSubmission :
    (lonelyServer.runSubmission (.v4 0) (submissionTurns "RCPT TO:<b@z.org>\r\n")).map (fun c =>
        (lonelyServer.handedSubmission endOfData c).map fun m => m.envelope) =
      some (some ⟨some ⟨"a".toList, "y.org".toList⟩, [⟨"b".toList, "z.org".toList⟩]⟩) := by
  decide +kernel

theorem submission_is_authenticated_for_stranger :
    ∃ c message,
      lonelyServer.runSubmission (.v4 0) (submissionTurns "RCPT TO:<b@z.org>\r\n") = some c ∧
      lonelyServer.handedSubmission endOfData c = some message ∧
      message.envelope.recipients = [⟨"b".toList, "z.org".toList⟩] ∧
      ∃ user password address, lonelyServer.auth.check user password = true ∧
        message.envelope.sender = some address ∧
        eqIgnoreAsciiCase address.toString user = true := by
  rcases Option.map_eq_some_iff.mp eval_handedSubmission with ⟨c, hrun, hhanded⟩
  rcases Option.map_eq_some_iff.mp hhanded with ⟨message, hmessage, henvelope⟩
  rcases (submission_is_authenticated hrun hmessage).2 with
    ⟨-, user, password, -, address, -, -, -, hcheck, -, -, -, hsender, howns, -⟩
  exact ⟨c, message, hrun, hmessage, by rw [henvelope], user, password, address, hcheck, hsender,
    howns⟩

/-! ## 5. The line that announces a login -/

theorem stripPrefixCi_panics_iff {s start : Str} :
    stripPrefixCi s start = .panics ↔
      (encodeUtf8 start).length ≤ (encodeUtf8 s).length ∧
        ¬ CharBoundary (encodeUtf8 start).length s := by
  unfold stripPrefixCi
  by_cases hlen : (encodeUtf8 s).length < (encodeUtf8 start).length
  · rw [if_pos hlen]
    constructor
    · intro h
      cases h
    · rintro ⟨hle, -⟩
      omega
  · rw [if_neg hlen, ← splitAtByte_eq_none_iff]
    cases hsplit : splitAtByte (encodeUtf8 start).length s with
    | none => exact ⟨fun _ => ⟨by omega, rfl⟩, fun _ => rfl⟩
    | some p =>
      dsimp only
      constructor
      · intro h
        split at h
        · cases h
        · cases h
      · rintro ⟨-, h⟩
        cases h

theorem stripPrefixCi_present_iff {s start rest : Str} :
    stripPrefixCi s start = .present rest ↔
      ∃ u, s = u ++ rest ∧ eqIgnoreAsciiCase u start = true := by
  unfold stripPrefixCi
  by_cases hlen : (encodeUtf8 s).length < (encodeUtf8 start).length
  · rw [if_pos hlen]
    constructor
    · intro h
      cases h
    · rintro ⟨u, rfl, hu⟩
      have hu' := length_encodeUtf8_of_ignoreCase hu
      rw [encodeUtf8_append, List.length_append] at hlen
      omega
  · rw [if_neg hlen]
    constructor
    · intro h
      cases hsplit : splitAtByte (encodeUtf8 start).length s with
      | none =>
        rw [hsplit] at h
        cases h
      | some p =>
        rw [hsplit] at h
        dsimp only at h
        split at h
        · rename_i hcase
          cases h
          exact ⟨p.1, (splitAtByte_eq_some_iff.mp hsplit).1, hcase⟩
        · cases h
    · rintro ⟨u, hs, hu⟩
      rw [splitAtByte_eq_some_iff.mpr ⟨hs, length_encodeUtf8_of_ignoreCase hu⟩]
      dsimp only
      rw [if_pos hu]

-- at a character boundary the bytes decide
theorem stripPrefixCi_present_bytes {s start rest : Str}
    (hs : CharBoundary (encodeUtf8 start).length s) :
    stripPrefixCi s start = .present rest ↔
      ((encodeUtf8 s).take (encodeUtf8 start).length).map lowerByte =
          (encodeUtf8 start).map lowerByte ∧
        encodeUtf8 rest = (encodeUtf8 s).drop (encodeUtf8 start).length := by
  obtain ⟨u, v, rfl, hlen⟩ := hs
  rw [stripPrefixCi_present_iff, encodeUtf8_append, List.take_left' hlen, List.drop_left' hlen,
    encodeUtf8_injective.eq_iff, ← eqIgnoreAsciiCase_iff_bytes]
  constructor
  · rintro ⟨u', hsplit, hu'⟩
    -- both cut after the same number of bytes
    have hlen' := length_encodeUtf8_of_ignoreCase hu'
    have hsame := congrArg encodeUtf8 hsplit
    rw [encodeUtf8_append, encodeUtf8_append] at hsame
    obtain ⟨hu, hv⟩ := List.append_inj hsame (hlen.trans hlen'.symm)
    rw [encodeUtf8_injective hu, encodeUtf8_injective hv]
    exact ⟨hu', rfl⟩
  · rintro ⟨hu, rfl⟩
    exact ⟨u, rfl, hu⟩

theorem stripPrefixCi_line_iff (buf : Bytes) :
    (stripPrefixCi (trimEnd (decodeLossy buf)) "AUTH PLAIN".toList ≠ .panics ∧
      ∀ rest, stripPrefixCi (trimEnd (decodeLossy buf)) "AUTH PLAIN".toList = .present rest ↔
        ((encodeUtf8 (trimEnd (decodeLossy buf))).take 10).map lowerByte =
            (ascii "AUTH PLAIN").map lowerByte ∧
          encodeUtf8 rest = (encodeUtf8 (trimEnd (decodeLossy buf))).drop 10) ↔
      (encodeUtf8 (trimEnd (decodeLossy buf))).length < 10 ∨
        CharBoundary 10 (trimEnd (decodeLossy buf)) := by
  have hstart : encodeUtf8 "AUTH PLAIN".toList = ascii "AUTH PLAIN" := by decide
  generalize trimEnd (decodeLossy buf) = line
  constructor
  · rintro ⟨hsafe, -⟩
    rw [Ne, stripPrefixCi_panics_iff, not_and_not_right, hstart] at hsafe
    by_cases hlen : (encodeUtf8 line).length < 10
    · exact .inl hlen
    · exact .inr (hsafe (not_lt.mp hlen))
  · rintro (hshort | hboundary)
    · have habsent : stripPrefixCi line "AUTH PLAIN".toList = .absent :=
        if_pos (by rw [hstart]; exact hshort)
      rw [habsent]
      refine ⟨Stripped.noConfusion, fun rest => ⟨Stripped.noConfusion, ?_⟩⟩
      rintro ⟨hbytes, -⟩
      have hlen := congrArg List.length hbytes
      rw [List.length_map, List.length_map, List.length_take] at hlen
      change min 10 _ = 10 at hlen
      omega
    · refine ⟨?_, fun rest => ?_⟩
      · rw [Ne, stripPrefixCi_panics_iff, hstart]
        rintro ⟨-, hinside⟩
        exact hinside hboundary
      · have hbytes := @stripPrefixCi_present_bytes line "AUTH PLAIN".toList rest
        rw [hstart] at hbytes
        exact hbytes hboundary

-- U+FFFD takes three bytes
theorem stripPrefixCi_line_straddling :
    stripPrefixCi (trimEnd (decodeLossy (ascii "AUTH PLAI" ++ [0xFF, cr, lf])))
        "AUTH PLAIN".toList = .panics ∧
      ∀ (server : Server) (peer : IpAddr) (t : Turn) (c : SubmissionConn),
        t.buf = ascii "AUTH PLAI" ++ [0xFF, cr, lf] →
        server.submissionCommand peer t c = ⟨none, [], t.world⟩ := by
  have hpanics : stripPrefixCi (trimEnd (decodeLossy (ascii "AUTH PLAI" ++ [0xFF, cr, lf])))
      "AUTH PLAIN".toList = .panics := by decide
  refine ⟨hpanics, ?_⟩
  intro server peer t c hbuf
  unfold Server.submissionCommand
  rw [hbuf, hpanics]

end Snail.Server
