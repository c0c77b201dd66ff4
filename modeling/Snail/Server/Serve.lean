import Snail.Server.Authenticate
import Snail.Server.Lines

/-!
# Serve — the two SMTP loops

`serve_inbound` and `serve_submission` of `services/snail_server/src/serve.rs`, one iteration at a
time.  An iteration finds the shared state as the other connections and the workers have left it.
-/

set_option linter.dupNamespace false

open Snail.Reasoning Snail.Mail Snail.Network Snail.Security Snail.Access

namespace Snail.Server

/-! ## 1. Iterations -/

/-- A connection, with the session `σ` of its protocol. -/
structure Conn (σ : Type) where
  session : σ
  collecting : Option InboundCollector
  tls : Bool

/-- What an iteration meets: the line read, whether more is buffered behind it, how a TLS handshake
would go, the clocks, the fate of the spool's writes, and the shared state. -/
structure Turn where
  read : LineRead
  buf : Bytes
  buffered : Bool
  handshake : Bool
  clocks : Clocks
  -- of the greylist or the throttle, and of the throttle's record
  now : SystemTime
  later : SystemTime
  ios : Nat → EnqueueIo
  world : World

/-- What it leaves: the connection unless it is over, what was written, and the shared state. -/
structure Reaction (σ : Type) where
  next : Option (Conn σ)
  sent : List Str
  world : World

variable {σ : Type}

def say (w : World) (c : Conn σ) (text : Str) : Reaction σ := ⟨some c, [text], w⟩
def hangUp (w : World) (text : Str) : Reaction σ := ⟨none, [text], w⟩

def tooLongReply : Str := "500 line too long; closing\r\n".toList
def oversizeReply : Str := "552 message exceeds the maximum size; closing\r\n".toList
def acceptedReply : Str := "250 OK message accepted\r\n".toList

-- a line of the DATA stream
def dataLine (t : Turn) (c : Conn σ) (collector : InboundCollector)
    (finish : InboundCollector → Reaction σ) : Reaction σ :=
  let p := collector.pushLine t.buf
  if p.2.sizeExceeded then hangUp t.world oversizeReply
  else if p.1 then finish p.2
  else ⟨some { c with collecting := some p.2 }, [], t.world⟩

def iteration (t : Turn) (c : Conn σ) (finish : InboundCollector → Reaction σ)
    (command : Reaction σ) : Reaction σ :=
  match t.read with
  | .eof => ⟨none, [], t.world⟩
  | .tooLong => hangUp t.world tooLongReply
  | .read =>
      match c.collecting with
      | some collector => dataLine t c collector finish
      | none => command

-- the end of data: the message is refused, or handed to `accept_inbound` and acknowledged whatever
-- comes of it
def answer (server : Server) (t : Turn) (c : Conn σ) (authorization : RelayAuthorization) :
    Except Str Message → Reaction σ
  | .error reply => say t.world c reply
  | .ok message =>
      say (server.acceptInbound t.world t.ios message authorization).2 c acceptedReply

def unknownHelo : Str := "unknown".toList

def commandError (w : World) (c : Conn σ) (e : MailError) : Reaction σ :=
  say w c ("500 ".toList ++ mailErrorText e ++ "\r\n".toList)

-- a command that the session answers on its own; 354 opens the DATA stream
def answered (server : Server) (w : World) (c : Conn σ) (command : SmtpCommand) (reply : SmtpReply)
    (session : σ) : Reaction σ :=
  let c' := { c with
    session
    collecting := if reply.code = 354 then some (.withMaxSize server.maxMessageSize)
      else c.collecting }
  if command = .quit then hangUp w reply.toWire else say w c' reply.toWire

-- STARTTLS, given the session's reply and the session to begin behind the handshake
def startTls (server : Server) (t : Turn) (c : Conn σ) (reply : SmtpReply) (fresh : σ) :
    Reaction σ :=
  if server.tls ∧ c.tls = false then
    if reply.code ≠ 220 then say t.world c reply.toWire
    else if t.buffered then say t.world c "503 no pipelining before STARTTLS\r\n".toList
    else if t.handshake then
      say t.world { c with session := fresh, tls := true } "220 Ready to start TLS\r\n".toList
    else hangUp t.world "220 Ready to start TLS\r\n".toList
  else say t.world c "502 STARTTLS not available\r\n".toList

def multiline (text : Str) (extension : String) : Str :=
  "250-".toList ++ text ++ "\r\n250 ".toList ++ extension.toList ++ "\r\n".toList

/-! ## 2. The public port -/

abbrev InboundConn := Conn SmtpSession

def InboundConn.start : InboundConn := ⟨.new, none, false⟩

-- what goes to `accept_inbound` once `collector` has seen the end of data
def Server.inboundMessage (server : Server) (peer : IpAddr) (t : Turn) (c : InboundConn)
    (collector : InboundCollector) : Except Str Message :=
  match readMessage c.session.takeEnvelope.1 collector with
  | .error reply => .error reply
  | .ok message =>
      server.screenInbound t.clocks c.tls peer (c.session.helo.getD unknownHelo) message

def Server.finishInbound (server : Server) (peer : IpAddr) (t : Turn) (c : InboundConn)
    (collector : InboundCollector) : Reaction SmtpSession :=
  answer server t { c with session := c.session.takeEnvelope.2, collecting := none } .forbidden
    (server.inboundMessage peer t c collector)

-- the decision for a local recipient, and the greylist after it
def Server.greylisted (server : Server) (peer : IpAddr) (t : Turn) (c : InboundConn)
    (rcpt : Mailbox) : GreyDecision × World :=
  match server.greylist with
  | none => (.allow, t.world)
  | some config =>
      let sender := (c.session.sender.map Mailbox.toString).getD []
      let r := t.world.greylist.checkAt config peer sender rcpt.toString t.now
      (r.1, { t.world with greylist := r.2 })

def Server.inboundRcpt (server : Server) (peer : IpAddr) (t : Turn) (c : InboundConn)
    (rcpt : Mailbox) : Reaction SmtpSession :=
  if server.isLocal rcpt = false then
    say t.world c ("550 <".toList ++ rcpt.toString ++ "> relay not permitted\r\n".toList)
  else
    let g := server.greylisted peer t c rcpt
    if g.1 = .defer then say g.2 c "451 4.7.1 greylisted; please retry later\r\n".toList
    else
      let r := c.session.handle (.rcptTo rcpt)
      answered server g.2 c (.rcptTo rcpt) r.1 r.2

def Server.inboundGreeting (server : Server) (t : Turn) (c : InboundConn) (command : SmtpCommand) :
    Reaction SmtpSession :=
  let r := c.session.handle command
  let c' := { c with session := r.2 }
  if server.tls ∧ c.tls = false then say t.world c' (multiline r.1.text "STARTTLS")
  else say t.world c' r.1.toWire

def Server.inboundCommand (server : Server) (peer : IpAddr) (t : Turn) (c : InboundConn) :
    Reaction SmtpSession :=
  match SmtpCommand.parse (decodeLossy t.buf) with
  | .error e => commandError t.world c e
  | .ok .startTls => startTls server t c (c.session.handle .startTls).1 .new
  | .ok (.ehlo domain) => server.inboundGreeting t c (.ehlo domain)
  | .ok (.helo domain) => server.inboundGreeting t c (.helo domain)
  | .ok (.rcptTo rcpt) => server.inboundRcpt peer t c rcpt
  | .ok command =>
      answered server t.world c command (c.session.handle command).1 (c.session.handle command).2

/-- One iteration of `serve_inbound`. -/
def Server.stepInbound (server : Server) (peer : IpAddr) (t : Turn) (c : InboundConn) :
    Reaction SmtpSession :=
  iteration t c (server.finishInbound peer t c) (server.inboundCommand peer t c)

/-! ## 3. Submission -/

abbrev SubmissionConn := Conn MsaSession

def SubmissionConn.start : SubmissionConn := ⟨.new, none, false⟩

def Server.submissionMessage (server : Server) (t : Turn) (c : SubmissionConn)
    (collector : InboundCollector) : Except Str Message :=
  match readMessage c.session.smtp.takeEnvelope.1 collector with
  | .error reply => .error reply
  | .ok message =>
      .ok (server.stampSubmission t.clocks c.tls (c.session.smtp.helo.getD unknownHelo) message)

def Server.finishSubmission (server : Server) (t : Turn) (c : SubmissionConn)
    (collector : InboundCollector) : Reaction MsaSession :=
  answer server t
    { c with
      session := { c.session with smtp := c.session.smtp.takeEnvelope.2 }, collecting := none }
    .permitted (server.submissionMessage t c collector)

/-- What `strip_prefix_ci` does: it may panic in the middle of a character. -/
inductive Stripped where
  | panics
  | absent
  | present (rest : Str)
  deriving DecidableEq, Repr

def stripPrefixCi (s start : Str) : Stripped :=
  if (encodeUtf8 s).length < (encodeUtf8 start).length then .absent
  else match splitAtByte (encodeUtf8 start).length s with
    | none => .panics
    | some (head, rest) => if eqIgnoreAsciiCase head start then .present rest else .absent

example : stripPrefixCi "auth plain AbC=".toList "AUTH PLAIN".toList = .present " AbC=".toList := by
  decide
example : stripPrefixCi "xxxxxxxxxé".toList "AUTH PLAIN".toList = .panics := by decide

-- the throttle hears of credential checks only
def recordAuth (server : Server) (peer : IpAddr) (t : Turn) (code : Nat) : World :=
  if code = 235 then { t.world with throttle := t.world.throttle.recordSuccess peer }
  else if code = 535 then
    { t.world with
      throttle := t.world.throttle.recordFailureAt server.throttle peer t.later }
  else t.world

def Server.submissionAuth (server : Server) (peer : IpAddr) (t : Turn) (c : SubmissionConn)
    (rest : Str) : Reaction MsaSession :=
  if server.tls ∧ c.tls = false then
    say t.world c "530 Must issue a STARTTLS command first\r\n".toList
  else if t.world.throttle.checkAt peer t.now = false then
    hangUp t.world
      "421 4.7.0 too many failed authentication attempts; try again later\r\n".toList
  else
    let r := if trim rest = [] then
        (smtpReply 501 "AUTH PLAIN requires an initial response", c.session)
      else c.session.authenticatePlain server.auth (trim rest)
    say (recordAuth server peer t r.1.code) { c with session := r.2 } r.1.toWire

def Server.submissionGreeting (server : Server) (t : Turn) (c : SubmissionConn)
    (command : SmtpCommand) : Reaction MsaSession :=
  let r := c.session.handle command
  let c' := { c with session := r.2 }
  if c.tls then say t.world c' (multiline r.1.text "AUTH PLAIN")
  else if server.tls then say t.world c' (multiline r.1.text "STARTTLS")
  else say t.world c' r.1.toWire

def Server.submissionCommand (server : Server) (peer : IpAddr) (t : Turn) (c : SubmissionConn) :
    Reaction MsaSession :=
  match stripPrefixCi (trimEnd (decodeLossy t.buf)) "AUTH PLAIN".toList with
  | .panics => ⟨none, [], t.world⟩
  | .present rest => server.submissionAuth peer t c rest
  | .absent =>
      match SmtpCommand.parse (decodeLossy t.buf) with
      | .error e => commandError t.world c e
      | .ok .startTls => startTls server t c (c.session.handle .startTls).1 .new
      | .ok (.ehlo domain) => server.submissionGreeting t c (.ehlo domain)
      | .ok (.helo domain) => server.submissionGreeting t c (.helo domain)
      | .ok command =>
          answered server t.world c command (c.session.handle command).1
            (c.session.handle command).2

/-- One iteration of `serve_submission`. -/
def Server.stepSubmission (server : Server) (peer : IpAddr) (t : Turn) (c : SubmissionConn) :
    Reaction MsaSession :=
  iteration t c (server.finishSubmission t c) (server.submissionCommand peer t c)

/-! ## 4. What an iteration does to the session -/

theorem next_answer {server : Server} {t : Turn} {c c' : Conn σ} {auth : RelayAuthorization}
    {outcome : Except Str Message} (h : (answer server t c auth outcome).next = some c') :
    c' = c := by
  unfold answer at h
  split at h
  · exact (Option.some.inj h).symm
  · exact (Option.some.inj h).symm

theorem session_startTls {server : Server} {t : Turn} {c c' : Conn σ} {reply : SmtpReply}
    {fresh : σ} (h : (startTls server t c reply fresh).next = some c') :
    c'.session = c.session ∨ c'.session = fresh := by
  unfold startTls say hangUp at h
  split at h
  · split at h
    · exact Or.inl (congrArg Conn.session (Option.some.inj h)).symm
    · split at h
      · exact Or.inl (congrArg Conn.session (Option.some.inj h)).symm
      · split at h
        · exact Or.inr (congrArg Conn.session (Option.some.inj h)).symm
        · cases h
  · exact Or.inl (congrArg Conn.session (Option.some.inj h)).symm

theorem session_answered {server : Server} {w : World} {c c' : Conn σ} {command : SmtpCommand}
    {reply : SmtpReply} {session : σ}
    (h : (answered server w c command reply session).next = some c') : c'.session = session := by
  unfold answered say hangUp at h
  simp only at h
  split at h
  · cases h
  · exact (congrArg Conn.session (Option.some.inj h)).symm

/-- The moves of the session on the public port; only local recipients reach it. -/
inductive Server.Moves (server : Server) (s : SmtpSession) : SmtpSession → Prop
  | stay : server.Moves s s
  | upgraded : server.Moves s .new
  | taken : server.Moves s s.takeEnvelope.2
  | command (command : SmtpCommand)
      (hlocal : ∀ rcpt, command = .rcptTo rcpt → server.isLocal rcpt = true) :
      server.Moves s (s.handle command).2

theorem Server.moves_inboundRcpt {server : Server} {peer : IpAddr} {t : Turn} {c c' : InboundConn}
    {rcpt : Mailbox} (h : (server.inboundRcpt peer t c rcpt).next = some c') :
    server.Moves c.session c'.session := by
  unfold Server.inboundRcpt at h
  split at h
  · cases h
    exact .stay
  · rename_i hlocal
    simp only at h
    split at h
    · cases h
      exact .stay
    · rw [session_answered h]
      apply Moves.command
      intro rcpt' he
      cases he
      simpa using hlocal

theorem Server.moves_inboundGreeting {server : Server} {t : Turn} {c c' : InboundConn}
    {command : SmtpCommand} (hrcpt : ∀ rcpt, command ≠ .rcptTo rcpt)
    (h : (server.inboundGreeting t c command).next = some c') :
    server.Moves c.session c'.session := by
  have hsession : c'.session = (c.session.handle command).2 := by
    unfold Server.inboundGreeting at h
    simp only at h
    split at h
    · exact (congrArg Conn.session (Option.some.inj h)).symm
    · exact (congrArg Conn.session (Option.some.inj h)).symm
  rw [hsession]
  exact .command command fun rcpt he => absurd he (hrcpt rcpt)

theorem Server.moves_inboundCommand {server : Server} {peer : IpAddr} {t : Turn}
    {c c' : InboundConn} (h : (server.inboundCommand peer t c).next = some c') :
    server.Moves c.session c'.session := by
  unfold Server.inboundCommand at h
  split at h
  · cases h
    exact .stay
  · rcases session_startTls h with hs | hs
    · rw [hs]
      exact .stay
    · rw [hs]
      exact .upgraded
  · exact moves_inboundGreeting (by simp) h
  · exact moves_inboundGreeting (by simp) h
  · exact moves_inboundRcpt h
  · rename_i command _ _ _ hnot _
    rw [session_answered h]
    exact .command command fun rcpt he => absurd he (hnot rcpt)

theorem Server.moves_stepInbound {server : Server} {peer : IpAddr} {t : Turn} {c c' : InboundConn}
    (h : (server.stepInbound peer t c).next = some c') : server.Moves c.session c'.session := by
  unfold Server.stepInbound iteration at h
  split at h
  · cases h
  · cases h
  · split at h
    · unfold dataLine at h
      simp only at h
      split at h
      · cases h
      · split at h
        · rw [next_answer h]
          exact .taken
        · cases h
          exact .stay
    · exact moves_inboundCommand h

/-! ## 5. What an iteration hands on -/

-- the message that goes to `accept_inbound`, given what is made of a finished collector
def handed (t : Turn) (c : Conn σ) (outcome : InboundCollector → Except Str Message) :
    Option Message :=
  if t.read = .read then
    c.collecting.bind fun collector =>
      let p := collector.pushLine t.buf
      if p.1 ∧ p.2.sizeExceeded = false then (outcome p.2).toOption else none
  else none

def Server.handedInbound (server : Server) (peer : IpAddr) (t : Turn) (c : InboundConn) :
    Option Message :=
  handed t c (server.inboundMessage peer t c)

def Server.handedSubmission (server : Server) (t : Turn) (c : SubmissionConn) : Option Message :=
  handed t c (server.submissionMessage t c)

-- a message is handed on only at the end of data
theorem handed_eq_some {t : Turn} {c : Conn σ} {outcome : InboundCollector → Except Str Message}
    {message : Message} (h : handed t c outcome = some message) :
    t.read = .read ∧ ∃ collector, c.collecting = some collector ∧
      (collector.pushLine t.buf).1 = true ∧ (collector.pushLine t.buf).2.sizeExceeded = false ∧
      outcome (collector.pushLine t.buf).2 = .ok message := by
  unfold handed at h
  split at h
  · rename_i hread
    rcases Option.bind_eq_some_iff.mp h with ⟨collector, hcollecting, h⟩
    simp only at h
    split at h
    · rename_i hdone
      refine ⟨hread, collector, hcollecting, hdone.1, hdone.2, ?_⟩
      cases houtcome : outcome (collector.pushLine t.buf).2 with
      | error reply =>
        rw [houtcome] at h
        cases h
      | ok m =>
        rw [houtcome] at h
        rw [Option.some.inj h]
    · cases h
  · cases h

/-- The shared state after an iteration: what `accept_inbound` made of the message handed on, or
what the command left. -/
theorem world_iteration (server : Server) (t : Turn) (c : Conn σ) (auth : RelayAuthorization)
    (outcome : InboundCollector → Except Str Message) (c' : Conn σ) (command : Reaction σ) :
    (iteration t c (fun collector => answer server t c' auth (outcome collector)) command).world =
      ((handed t c outcome).map fun message =>
        (server.acceptInbound t.world t.ios message auth).2).getD
          (if t.read = .read ∧ c.collecting = none then command.world else t.world) := by
  unfold iteration handed
  cases t.read with
  | eof => rfl
  | tooLong => rfl
  | read =>
    cases c.collecting with
    | none => rfl
    | some collector =>
      simp only [dataLine, if_true, Option.bind_some]
      by_cases hsize : (collector.pushLine t.buf).2.sizeExceeded = true
      · rw [if_pos hsize, if_neg (by simp [hsize])]
        rfl
      · rw [if_neg hsize]
        by_cases hdone : (collector.pushLine t.buf).1 = true
        · rw [if_pos hdone, if_pos ⟨hdone, by simpa using hsize⟩]
          cases outcome (collector.pushLine t.buf).2 with
          | error reply => rfl
          | ok message => rfl
        · rw [if_neg hdone, if_neg (fun h => hdone h.1)]
          rfl

/-! ## 6. Runs -/

-- the connection after so many iterations; `none` once it is over
def runConn (step : Turn → Conn σ → Reaction σ) (start : Conn σ) (turns : List Turn) :
    Option (Conn σ) :=
  turns.foldl (fun c t => c.bind fun c => (step t c).next) (some start)

def Server.runInbound (server : Server) (peer : IpAddr) (turns : List Turn) : Option InboundConn :=
  runConn (server.stepInbound peer) InboundConn.start turns

def Server.runSubmission (server : Server) (peer : IpAddr) (turns : List Turn) :
    Option SubmissionConn :=
  runConn (server.stepSubmission peer) SubmissionConn.start turns

theorem runConn_concat {step : Turn → Conn σ → Reaction σ} {start c' : Conn σ} {turns : List Turn}
    {t : Turn} (h : runConn step start (turns ++ [t]) = some c') :
    ∃ c, runConn step start turns = some c ∧ (step t c).next = some c' := by
  unfold runConn at h ⊢
  rw [List.foldl_append] at h
  exact Option.bind_eq_some_iff.mp h

/-- What holds at the start and is kept by every iteration holds throughout. -/
theorem runConn_invariant {step : Turn → Conn σ → Reaction σ} {start c : Conn σ}
    {inv : Conn σ → Prop} (hstart : inv start)
    (hstep : ∀ t c c', inv c → (step t c).next = some c' → inv c') {turns : List Turn}
    (h : runConn step start turns = some c) : inv c := by
  induction turns using List.reverseRecOn generalizing c with
  | nil =>
    cases h
    exact hstart
  | append_singleton turns t ih =>
    rcases runConn_concat h with ⟨c₁, hrun, hnext⟩
    exact hstep t c₁ c (ih hrun) hnext

/-- In every state of a connection on the public port, the recipients are local. -/
theorem Server.isLocal_of_runInbound {server : Server} {peer : IpAddr} {turns : List Turn}
    {c : InboundConn} (h : server.runInbound peer turns = some c) :
    ∀ rcpt ∈ c.session.recipients, server.isLocal rcpt = true := by
  apply runConn_invariant _ _ h
  · intro rcpt hrcpt
    cases hrcpt
  · intro t c c' hinv hnext rcpt hrcpt
    have hmoves := moves_stepInbound hnext
    generalize c'.session = s at hmoves hrcpt
    cases hmoves with
    | stay => exact hinv rcpt hrcpt
    | upgraded => cases hrcpt
    | taken =>
      rw [SmtpSession.recipients_takeEnvelope] at hrcpt
      cases hrcpt
    | command command hlocal =>
      rcases SmtpSession.mem_recipients_handle hrcpt with hrcpt | he
      · exact hinv rcpt hrcpt
      · exact hlocal rcpt he

end Snail.Server
