import Snail.Mail.Outbound

/-!
# RelayTo — one delivery attempt to one server

`relay_to` of `services/snail_server/src/outbound.rs` with everything it writes and reads on record.
A stream is what `read_line` will return, line after line, and the peer may be anyone: it says what
it likes, in one piece or many, and the lines behind a reply may already be in the buffer.
-/

open Snail.Reasoning Snail.Mail

namespace Snail.Server

/-! ## 1. Reports and policies -/

inductive RelayReport where
  | delivered
  | deferred (code : Nat) (text : Str)
  | failed (reason : Str)
  deriving DecidableEq, Repr

/-- The TLS posture, over the type of client configurations. -/
inductive TlsPolicy (κ : Type) where
  | none
  | opportunistic (config : κ)
  | strict (config : κ)
  deriving DecidableEq, Repr

variable {κ : Type}

def TlsPolicy.config : TlsPolicy κ → Option κ
  | .none => Option.none
  | .opportunistic config => some config
  | .strict config => some config

def TlsPolicy.isMandatory : TlsPolicy κ → Bool
  | .strict _ => true
  | _ => false

def classify (code : Nat) (context : Str) : RelayReport :=
  if code = 0 ∨ (400 ≤ code ∧ code < 500) then .deferred code context
  else .failed (showNat code ++ ' ' :: context)

def joinWords (texts : List Str) : Str := List.intercalate [' '] texts

/-! ## 2. Streams and replies -/

/-- A line as `read_line` returns it, and whether the buffer holds more behind it.  It is empty only
at the end of the stream. -/
structure StreamLine where
  raw : Bytes
  buffered : Bool
  nonempty : raw ≠ []

/-- One end of a connection: the lines to come, the socket error behind them if they do not end in
an end of file, and how many writes succeed before one fails, and why, if one does. -/
structure Stream where
  lines : List StreamLine
  failure : Option Str
  writable : Option (Nat × Str)

inductive ReplyError where
  | closed
  | socket (reason : Str)
  | notUtf8
  | malformed (line : Str)
  deriving DecidableEq, Repr

-- the text of the error; `debug` is how a string prints under `{:?}`
def ReplyError.toText (debug : Str → Str) : ReplyError → Str
  | .closed => "connection closed mid-reply".toList
  | .socket reason => reason
  | .notUtf8 => "stream did not contain valid UTF-8".toList
  | .malformed line => "malformed SMTP reply line: ".toList ++ debug line

structure Reply where
  raw : Bytes
  code : Nat
  texts : List Str
  -- whether the buffer holds more behind the reply
  buffered : Bool

-- `get(..3)` and `parse::<u16>`
def replyCode (line : Str) : Option Nat :=
  (splitAtByte 3 line).bind fun p => parseUnsigned 65535 p.1

def replyText (line : Str) : Str := ((splitAtByte 4 line).map Prod.snd).getD []

def isContinued (line : Str) : Bool := (encodeUtf8 line)[3]? = some 45

/-- The loop of `read_reply`. -/
def readReplyLines (failure : Option Str) :
    List StreamLine → Except ReplyError (Reply × List StreamLine)
  | [] => .error (failure.elim .closed .socket)
  | line :: rest =>
      match (decodeUtf8 line.raw).map trimEndCrLf with
      | none => .error .notUtf8
      | some text =>
          match replyCode text with
          | none => .error (.malformed text)
          | some code =>
              if isContinued text then
                (readReplyLines failure rest).map fun r =>
                  ({ r.1 with raw := line.raw ++ r.1.raw,
                              texts := replyText text :: r.1.texts }, r.2)
              else .ok (⟨line.raw, code, [replyText text], line.buffered⟩, rest)

def Stream.readReply (s : Stream) : Except ReplyError (Reply × Stream) :=
  (readReplyLines s.failure s.lines).map fun r => (r.1, { s with lines := r.2 })

def Stream.write (s : Stream) : Except Str Stream :=
  match s.writable with
  | none => .ok s
  | some (0, reason) => .error reason
  | some (left + 1, reason) => .ok { s with writable := some (left, reason) }

def advertisesStarttls (capabilities : List Str) : Bool :=
  capabilities.any fun line =>
    (splitWhitespace line).head?.any fun token => eqIgnoreAsciiCase token "STARTTLS".toList

/-! ## 3. The dialog -/

/-- What is on record; `secure` tells the encrypted stream from the plain one. -/
inductive RelayEvent where
  | wrote (secure : Bool) (bytes : Bytes)
  | read (secure : Bool) (raw : Bytes) (code : Nat) (texts : List Str)
  | handshake
  deriving DecidableEq, Repr

structure RelayOutcome where
  events : List RelayEvent
  result : Except ReplyError RelayReport

def RelayOutcome.after (events : List RelayEvent) (o : RelayOutcome) : RelayOutcome :=
  { o with events := events ++ o.events }

def report (r : RelayReport) : RelayOutcome := ⟨[], .ok r⟩

def commandBytes (line : Str) : Bytes := encodeUtf8 line ++ crlf

-- reading a reply, and what is done with it
def reading (secure : Bool) (s : Stream) (next : Reply → Stream → RelayOutcome) : RelayOutcome :=
  match s.readReply with
  | .error e => ⟨[], .error e⟩
  | .ok (r, s) => (next r s).after [.read secure r.raw r.code r.texts]

-- a write that fails may have sent a part of the bytes
def writing (secure : Bool) (s : Stream) (bytes : Bytes) (next : Stream → RelayOutcome) :
    RelayOutcome :=
  match s.write with
  | .error reason => ⟨[.wrote secure bytes], .error (.socket reason)⟩
  | .ok s => (next s).after [.wrote secure bytes]

/-- `command`. -/
def command (secure : Bool) (s : Stream) (line : Str) (next : Reply → Stream → RelayOutcome) :
    RelayOutcome :=
  writing secure s (commandBytes line) fun s => reading secure s next

def isOk (code : Nat) : Bool := 200 ≤ code && code < 300

def commandOk (line : Str) (code : Nat) : Bool :=
  if line = "DATA".toList then code = 354 else isOk code

-- the loop over the commands behind the greeting
def sendCommands (secure : Bool) (next : Stream → RelayOutcome) : List Str → Stream → RelayOutcome
  | [], s => next s
  | line :: rest, s => command secure s line fun r s =>
      if commandOk line r.code then sendCommands secure next rest s
      else report (classify r.code
        ("after `".toList ++ line ++ "`: ".toList ++ joinWords r.texts))

-- the payload and the verdict; QUIT may fail
def transmit (secure : Bool) (data : Bytes) (s : Stream) : RelayOutcome :=
  writing secure s data fun s => reading secure s fun r _ =>
    (report (if isOk r.code then .delivered else classify r.code (joinWords r.texts))).after
      [.wrote secure (ascii "QUIT\r\n")]

def deliver (secure : Bool) (script : RelayScript) (s : Stream) : RelayOutcome :=
  sendCommands secure (transmit secure script.data) script.commands.tail s

/-- The server at the other end: what comes of the connection, and of a TLS handshake with a
configuration and a server name. -/
structure Peer (κ : Type) where
  connect : Except Str Stream
  handshake : κ → Str → Except Str Stream

def starttls : Str := "STARTTLS".toList

-- the dialog over TLS, from the second EHLO on
def encrypted (script : RelayScript) (ehlo : Str) (tls : Stream) : RelayOutcome :=
  command true tls ehlo fun r tls =>
    if isOk r.code then deliver true script tls
    else report (classify r.code
      ("after TLS `".toList ++ ehlo ++ "`: ".toList ++ joinWords r.texts))

-- behind the reply to STARTTLS; the plain stream is given up with what it still holds
def shakeHands (peer : Peer κ) (serverName : Str) (script : RelayScript) (ehlo : Str) (config : κ)
    (r : Reply) : RelayOutcome :=
  if isOk r.code = false then
    report (.deferred r.code ("STARTTLS refused: ".toList ++ joinWords r.texts))
  else if r.buffered then report (.deferred 0 "server pipelined data after STARTTLS".toList)
  else match peer.handshake config serverName with
    | .error e =>
        report (.deferred 0 ("STARTTLS handshake with ".toList ++ serverName ++ ": ".toList ++ e))
    | .ok tls => (encrypted script ehlo tls).after [.handshake]

-- behind the first EHLO
def capable (peer : Peer κ) (serverName : Str) (script : RelayScript) (ehlo : Str)
    (policy : TlsPolicy κ) (capabilities : List Str) (s : Stream) : RelayOutcome :=
  if policy.isMandatory ∧ advertisesStarttls capabilities = false then
    report (.deferred 0
      ("MTA-STS enforce: ".toList ++ serverName ++ " does not advertise STARTTLS".toList))
  else match policy.config, advertisesStarttls capabilities with
    | some config, true => command false s starttls fun r _ =>
        shakeHands peer serverName script ehlo config r
    | _, _ => deliver false script s

-- behind the greeting
def greeted (peer : Peer κ) (serverName : Str) (script : RelayScript) (ehlo : Str)
    (policy : TlsPolicy κ) (s : Stream) : RelayOutcome :=
  command false s ehlo fun r s =>
    if isOk r.code then capable peer serverName script ehlo policy r.texts s
    else report (classify r.code ("after `".toList ++ ehlo ++ "`: ".toList ++ joinWords r.texts))

def ehloLine (helo : Str) (message : Message) : Str := (relayScript helo message).commands.headD []

/-- `relay_to`. -/
def relayTo (peer : Peer κ) (addr serverName helo : Str) (message : Message)
    (policy : TlsPolicy κ) : RelayOutcome :=
  match peer.connect with
  | .error e => report (.deferred 0 ("connect ".toList ++ addr ++ ": ".toList ++ e))
  | .ok plain => reading false plain fun r s =>
      if 200 ≤ r.code ∧ r.code < 400 then
        greeted peer serverName (relayScript helo message) (ehloLine helo message) policy s
      else report (classify r.code ("greeting: ".toList ++ joinWords r.texts))

/-! ## 4. What is on record -/

section
variable {secure : Bool} {s : Stream} {o : RelayOutcome} {P : RelayEvent → Prop}

def RelayOutcome.Only (P : RelayEvent → Prop) (o : RelayOutcome) : Prop := ∀ e ∈ o.events, P e

theorem only_report (r : RelayReport) : (report r).Only P := by
  intro e he
  cases he

theorem RelayOutcome.Only.after {events : List RelayEvent} (h : o.Only P)
    (hevents : ∀ e ∈ events, P e) : (o.after events).Only P := by
  intro e he
  rcases List.mem_append.mp he with he | he
  · exact hevents e he
  · exact h e he

theorem only_single {e : RelayEvent} {result : Except ReplyError RelayReport} (h : P e) :
    RelayOutcome.Only P ⟨[e], result⟩ := by
  intro e' he'
  rw [List.mem_singleton.mp he']
  exact h

theorem RelayOutcome.Only.after_one {e : RelayEvent} (h : o.Only P) (he : P e) :
    (o.after [e]).Only P := by
  apply h.after
  intro e' he'
  rw [List.mem_singleton.mp he']
  exact he

theorem only_reading {next : Reply → Stream → RelayOutcome}
    (hread : ∀ raw code texts, P (.read secure raw code texts))
    (hnext : ∀ r s, (next r s).Only P) : (reading secure s next).Only P := by
  unfold reading
  split
  · intro e he
    cases he
  · exact (hnext _ _).after_one (hread _ _ _)

theorem only_writing {bytes : Bytes} {next : Stream → RelayOutcome}
    (hwrote : P (.wrote secure bytes)) (hnext : ∀ s, (next s).Only P) :
    (writing secure s bytes next).Only P := by
  unfold writing
  split
  · exact only_single hwrote
  · exact (hnext _).after_one hwrote

theorem only_command {line : Str} {next : Reply → Stream → RelayOutcome}
    (hwrote : P (.wrote secure (commandBytes line)))
    (hread : ∀ raw code texts, P (.read secure raw code texts))
    (hnext : ∀ r s, (next r s).Only P) : (command secure s line next).Only P :=
  only_writing hwrote fun _ => only_reading hread hnext

theorem only_sendCommands {next : Stream → RelayOutcome} {lines : List Str}
    (hwrote : ∀ line ∈ lines, P (.wrote secure (commandBytes line)))
    (hread : ∀ raw code texts, P (.read secure raw code texts))
    (hnext : ∀ s, (next s).Only P) : (sendCommands secure next lines s).Only P := by
  induction lines generalizing s with
  | nil => exact hnext s
  | cons line lines ih =>
    rw [sendCommands]
    apply only_command (hwrote line (by simp)) hread
    intro r s
    split
    · exact ih fun l hl => hwrote l (by simp [hl])
    · exact only_report _

-- on which stream something happens; the handshake begins the encrypted one
def RelayEvent.isSecure : RelayEvent → Bool
  | .wrote secure _ => secure
  | .read secure _ _ _ => secure
  | .handshake => true

theorem only_deliver (hwrote : ∀ bytes, P (.wrote secure bytes))
    (hread : ∀ raw code texts, P (.read secure raw code texts)) (script : RelayScript) :
    (deliver secure script s).Only P := by
  apply only_sendCommands (fun line _ => hwrote _) hread
  intro s
  apply only_writing (hwrote _)
  intro s
  apply only_reading hread
  intro r s
  exact (only_report _).after_one (hwrote _)

end

/-! ## 5. Replies and the bytes they are read from -/

def Stream.bytes (s : Stream) : Bytes := s.lines.flatMap StreamLine.raw

/-- A reply read from a stream: its lines are the next ones, and the last of them tells what is
buffered behind it. -/
def Replied (s : Stream) (r : Reply) (s' : Stream) : Prop :=
  ∃ consumed last, s.lines = consumed ++ last :: s'.lines ∧
    r.raw = (consumed ++ [last]).flatMap StreamLine.raw ∧ r.buffered = last.buffered

theorem consumed_of_readReplyLines {failure : Option Str} {lines rest : List StreamLine} {r : Reply}
    (h : readReplyLines failure lines = .ok (r, rest)) :
    ∃ consumed last, lines = consumed ++ last :: rest ∧
      r.raw = (consumed ++ [last]).flatMap StreamLine.raw ∧ r.buffered = last.buffered := by
  induction lines generalizing r with
  | nil => cases h
  | cons line lines ih =>
    rw [readReplyLines] at h
    split at h
    · cases h
    · split at h
      · cases h
      · split at h
        · rcases map_eq_ok_iff.mp h with ⟨p, hp, heq⟩
          rw [Prod.mk.injEq] at heq
          rw [← heq.2]
          rcases ih (r := p.1) (by rw [hp, ← heq.2]) with ⟨consumed, last, hlines, hraw, hbuffered⟩
          refine ⟨line :: consumed, last, ?_, ?_, ?_⟩
          · rw [hlines, heq.2]
            rfl
          · rw [← heq.1, hraw]
            rfl
          · rw [← heq.1, ← hbuffered]
        · cases h
          exact ⟨[], line, rfl, by simp, rfl⟩

theorem replied_of_readReply {s s' : Stream} {r : Reply} (h : s.readReply = .ok (r, s')) :
    Replied s r s' := by
  rcases map_eq_ok_iff.mp h with ⟨p, hp, heq⟩
  rw [Prod.mk.injEq] at heq
  have hread : readReplyLines s.failure s.lines = .ok (p.1, p.2) := hp
  rcases consumed_of_readReplyLines hread with ⟨consumed, last, hlines, hraw, hbuf⟩
  refine ⟨consumed, last, ?_, ?_, ?_⟩
  · rw [hlines, ← heq.2]
  · rw [← heq.1, hraw]
  · rw [← heq.1, hbuf]

theorem Replied.bytes_eq {s s' : Stream} {r : Reply} (h : Replied s r s') :
    s.bytes = r.raw ++ s'.bytes := by
  rcases h with ⟨consumed, last, hlines, hraw, -⟩
  unfold Stream.bytes
  rw [hlines, hraw]
  simp

theorem lines_of_write {s s' : Stream} (h : s.write = .ok s') : s'.lines = s.lines := by
  unfold Stream.write at h
  split at h
  · cases h
    rfl
  · cases h
  · cases h
    rfl

theorem Replied.of_write {s s' s'' : Stream} {r : Reply} (hw : s.write = .ok s')
    (h : Replied s' r s'') : Replied s r s'' := by
  unfold Replied at h ⊢
  rw [lines_of_write hw] at h
  exact h

theorem reading_cases (secure : Bool) (s : Stream) (next : Reply → Stream → RelayOutcome) :
    (∃ e, reading secure s next = ⟨[], .error e⟩) ∨
      ∃ r s', Replied s r s' ∧
        reading secure s next = (next r s').after [.read secure r.raw r.code r.texts] := by
  unfold reading
  cases h : s.readReply with
  | error e => exact .inl ⟨e, rfl⟩
  | ok p => exact .inr ⟨p.1, p.2, replied_of_readReply h, rfl⟩

theorem writing_cases (secure : Bool) (s : Stream) (bytes : Bytes) (next : Stream → RelayOutcome) :
    (∃ e, writing secure s bytes next = ⟨[.wrote secure bytes], .error e⟩) ∨
      ∃ s', s.write = .ok s' ∧
        writing secure s bytes next = (next s').after [.wrote secure bytes] := by
  unfold writing
  cases h : s.write with
  | error reason => exact .inl ⟨_, rfl⟩
  | ok s' => exact .inr ⟨s', rfl, rfl⟩

/-- What comes of a command: an error, or a reply that is read from the stream. -/
theorem command_cases (secure : Bool) (s : Stream) (line : Str)
    (next : Reply → Stream → RelayOutcome) :
    (∃ e, command secure s line next = ⟨[.wrote secure (commandBytes line)], .error e⟩) ∨
      ∃ r s', Replied s r s' ∧ command secure s line next = (next r s').after
        [.wrote secure (commandBytes line), .read secure r.raw r.code r.texts] := by
  unfold command
  rcases writing_cases secure s (commandBytes line) fun s => reading secure s next with
    ⟨e, h⟩ | ⟨s', hw, h⟩
  · exact .inl ⟨e, h⟩
  · rw [h]
    rcases reading_cases secure s' next with ⟨e, hr⟩ | ⟨r, s'', hreplied, hr⟩
    · rw [hr]
      exact .inl ⟨e, rfl⟩
    · rw [hr]
      exact .inr ⟨r, s'', hreplied.of_write hw, rfl⟩

def RelayEvent.readBytes : RelayEvent → Bytes
  | .read _ raw _ _ => raw
  | _ => []

def readBytes (events : List RelayEvent) : Bytes := events.flatMap RelayEvent.readBytes

-- everything read comes from the stream, in order
def RelayOutcome.ReadsFrom (o : RelayOutcome) (s : Stream) : Prop :=
  readBytes o.events <+: s.bytes

theorem readsFrom_report (r : RelayReport) (s : Stream) : (report r).ReadsFrom s :=
  List.nil_prefix

theorem readsFrom_reading {secure : Bool} {s : Stream} {next : Reply → Stream → RelayOutcome}
    (hnext : ∀ r s', (next r s').ReadsFrom s') : (reading secure s next).ReadsFrom s := by
  rcases reading_cases secure s next with ⟨e, h⟩ | ⟨r, s', hreplied, h⟩
  · rw [h]
    exact List.nil_prefix
  · rw [h, RelayOutcome.ReadsFrom, hreplied.bytes_eq]
    exact (List.prefix_append_right_inj r.raw).mpr (hnext r s')

theorem readsFrom_writing {secure : Bool} {s : Stream} {bytes : Bytes}
    {next : Stream → RelayOutcome} (hnext : ∀ s', (next s').ReadsFrom s') :
    (writing secure s bytes next).ReadsFrom s := by
  rcases writing_cases secure s bytes next with ⟨e, h⟩ | ⟨s', hw, h⟩
  · rw [h]
    exact List.nil_prefix
  · have hbytes : s.bytes = s'.bytes := by
      unfold Stream.bytes
      rw [lines_of_write hw]
    rw [h, RelayOutcome.ReadsFrom, hbytes]
    exact hnext s'

theorem readsFrom_deliver (secure : Bool) (script : RelayScript) (s : Stream) :
    (deliver secure script s).ReadsFrom s := by
  unfold deliver
  induction script.commands.tail generalizing s with
  | nil =>
    apply readsFrom_writing
    intro s
    apply readsFrom_reading
    intro r s
    exact List.nil_prefix
  | cons line rest ih =>
    rw [sendCommands]
    apply readsFrom_writing
    intro s
    apply readsFrom_reading
    intro r s
    split
    · exact ih s
    · exact readsFrom_report _ s

/-! ## 6. Over TLS -/

-- what happens on the encrypted stream
def Encrypted (e : RelayEvent) : Prop := e.isSecure = true ∧ e ≠ .handshake

theorem only_encrypted (script : RelayScript) (ehlo : Str) (tls : Stream) :
    (encrypted script ehlo tls).Only Encrypted := by
  have hwrote : ∀ bytes, Encrypted (.wrote true bytes) := fun _ => ⟨rfl, by simp⟩
  have hread : ∀ raw code texts, Encrypted (.read true raw code texts) :=
    fun _ _ _ => ⟨rfl, by simp⟩
  apply only_command (hwrote _) hread
  intro r s
  split
  · exact only_deliver hwrote hread script
  · exact only_report _

theorem readsFrom_encrypted (script : RelayScript) (ehlo : Str) (tls : Stream) :
    (encrypted script ehlo tls).ReadsFrom tls := by
  apply readsFrom_writing
  intro s
  apply readsFrom_reading
  intro r s
  split
  · exact readsFrom_deliver true script s
  · exact readsFrom_report _ s

/-! ## 7. How far a dialog gets -/

-- what may go out in the clear
def Opening (ehlo : Str) (e : RelayEvent) : Prop :=
  ∀ bytes, e = .wrote false bytes → bytes = commandBytes ehlo ∨ bytes = commandBytes starttls

/-- A dialog that ends before the envelope. -/
structure RelayOutcome.Aborted (ehlo : Str) (o : RelayOutcome) : Prop where
  opening : o.Only fun e => e.isSecure = false ∧ Opening ehlo e
  undelivered : o.result ≠ .ok .delivered

theorem classify_ne_delivered (code : Nat) (context : Str) :
    classify code context ≠ .delivered := by
  unfold classify
  split
  · simp
  · simp

section
variable {ehlo : Str}

theorem opening_read (raw : Bytes) (code : Nat) (texts : List Str) :
    RelayEvent.isSecure (.read false raw code texts) = false ∧
      Opening ehlo (.read false raw code texts) := by
  refine ⟨rfl, ?_⟩
  intro bytes h
  cases h

theorem opening_command {line : Str} (h : line = ehlo ∨ line = starttls) :
    RelayEvent.isSecure (.wrote false (commandBytes line)) = false ∧
      Opening ehlo (.wrote false (commandBytes line)) := by
  refine ⟨rfl, ?_⟩
  intro bytes he
  cases he
  rcases h with h | h
  · exact .inl (by rw [h])
  · exact .inr (by rw [h])

theorem aborted_report {r : RelayReport} (h : r ≠ .delivered) : (report r).Aborted ehlo := by
  refine ⟨only_report r, ?_⟩
  intro hr
  cases hr
  exact h rfl

theorem RelayOutcome.Aborted.after_command {o : RelayOutcome} (h : o.Aborted ehlo) {line : Str}
    (hline : line = ehlo ∨ line = starttls) (r : Reply) :
    (o.after [.wrote false (commandBytes line),
      .read false r.raw r.code r.texts]).Aborted ehlo := by
  have hreply := h.opening.after_one (opening_read r.raw r.code r.texts)
  exact ⟨hreply.after_one (opening_command hline), h.undelivered⟩

theorem aborted_command {line : Str} (hline : line = ehlo ∨ line = starttls) (e : ReplyError) :
    RelayOutcome.Aborted ehlo ⟨[.wrote false (commandBytes line)], .error e⟩ := by
  exact ⟨only_single (opening_command hline), by simp⟩

end

section
variable {peer : Peer κ} {serverName : Str} {script : RelayScript} {ehlo : Str}
  {policy : TlsPolicy κ}

theorem shakeHands_cases (config : κ) (r : Reply) :
    (shakeHands peer serverName script ehlo config r).Aborted ehlo ∨
      ∃ tls, isOk r.code = true ∧ r.buffered = false ∧ peer.handshake config serverName = .ok tls ∧
        shakeHands peer serverName script ehlo config r =
          (encrypted script ehlo tls).after [.handshake] := by
  unfold shakeHands
  by_cases hok : isOk r.code = false
  · rw [if_pos hok]
    exact .inl (aborted_report (by simp))
  · rw [if_neg hok]
    cases hbuffered : r.buffered with
    | true => exact .inl (aborted_report (by simp))
    | false =>
      cases hshake : peer.handshake config serverName with
      | error e => exact .inl (aborted_report (by simp))
      | ok tls => exact .inr ⟨tls, by simpa using hok, rfl, rfl, rfl⟩

/-- Behind the first EHLO: the dialog is given up, or goes on in the clear where it may, or over the
stream of a handshake made with nothing left in the buffer. -/
theorem capable_cases (capabilities : List Str) (s : Stream) :
    (capable peer serverName script ehlo policy capabilities s).Aborted ehlo ∨
      (policy.isMandatory = false ∧
        (policy.config = none ∨ advertisesStarttls capabilities = false) ∧
        capable peer serverName script ehlo policy capabilities s = deliver false script s) ∨
      ∃ config r s' tls, policy.config = some config ∧ Replied s r s' ∧ isOk r.code = true ∧
        r.buffered = false ∧ peer.handshake config serverName = .ok tls ∧
        capable peer serverName script ehlo policy capabilities s =
          (encrypted script ehlo tls).after [.wrote false (commandBytes starttls),
            .read false r.raw r.code r.texts, .handshake] := by
  unfold capable
  split
  · exact .inl (aborted_report (by simp))
  · rename_i hnot
    split
    · rename_i config hconfig hadvertised
      rcases command_cases false s starttls fun r _ =>
        shakeHands peer serverName script ehlo config r with ⟨e, h⟩ | ⟨r, s', hreplied, h⟩
      · rw [h]
        exact .inl (aborted_command (.inr rfl) e)
      · rw [h]
        rcases shakeHands_cases config r with habort | ⟨tls, hok, hbuffered, hshake, heq⟩
        · exact .inl (habort.after_command (.inr rfl) r)
        · rw [heq]
          exact .inr (.inr ⟨config, r, s', tls, hconfig, hreplied, hok, hbuffered, hshake, rfl⟩)
    · rename_i hcase
      have hplain : policy.config = none ∨ advertisesStarttls capabilities = false := by
        cases hconfig : policy.config with
        | none => exact .inl rfl
        | some config => exact .inr (Bool.eq_false_iff.mpr (hcase config hconfig))
      refine .inr (.inl ⟨?_, hplain, rfl⟩)
      -- a mandatory policy has a configuration
      cases policy with
      | strict config =>
        rcases hplain with h | h
        · cases h
        · exact absurd ⟨rfl, h⟩ hnot
      | _ => rfl

end

section
variable (peer : Peer κ) (addr serverName helo : Str) (message : Message) (policy : TlsPolicy κ)

theorem relayTo_cases :
    (relayTo peer addr serverName helo message policy).Aborted (ehloLine helo message) ∨
      ∃ plain g s₁ r s₂, peer.connect = .ok plain ∧ Replied plain g s₁ ∧
        (200 ≤ g.code ∧ g.code < 400) ∧ Replied s₁ r s₂ ∧ isOk r.code = true ∧
        relayTo peer addr serverName helo message policy =
          (capable peer serverName (relayScript helo message) (ehloLine helo message) policy
            r.texts s₂).after [.read false g.raw g.code g.texts,
              .wrote false (commandBytes (ehloLine helo message)),
              .read false r.raw r.code r.texts] := by
  unfold relayTo
  cases hconnect : peer.connect with
  | error e => exact .inl (aborted_report (by simp))
  | ok plain =>
    -- whatever follows the greeting
    have hgreeting : ∀ {o : RelayOutcome} (g : Reply), o.Aborted (ehloLine helo message) →
        (o.after [.read false g.raw g.code g.texts]).Aborted (ehloLine helo message) := by
      intro o g h
      exact ⟨h.opening.after_one (opening_read _ _ _), h.undelivered⟩
    dsimp only
    rcases reading_cases false plain _ with ⟨e, h⟩ | ⟨g, s₁, hg, h⟩
    · rw [h]
      refine .inl ⟨?_, by simp⟩
      intro e he
      cases he
    · rw [h]
      split
      · rename_i hcode
        unfold greeted
        rcases command_cases false s₁ (ehloLine helo message) _ with ⟨e, hc⟩ | ⟨r, s₂, hr, hc⟩
        · rw [hc]
          exact .inl (hgreeting g (aborted_command (.inl rfl) e))
        · rw [hc]
          split
          · rename_i hok
            exact .inr ⟨plain, g, s₁, r, s₂, rfl, hg, hcode, hr, hok, rfl⟩
          · exact .inl (hgreeting g
              ((aborted_report (classify_ne_delivered _ _)).after_command (.inl rfl) r))
      · exact .inl (hgreeting g (aborted_report (classify_ne_delivered _ _)))

end

/-! ## 8. Accepted commands -/

/-- Commands and their replies in turn, each of them accepted. -/
inductive Answered (secure : Bool) : List Str → List RelayEvent → Prop where
  | nil : Answered secure [] []
  | cons {line : Str} {rest : List Str} {events : List RelayEvent} (raw : Bytes) (code : Nat)
      (texts : List Str)
      (accepted : if line = "DATA".toList then code = 354 else 200 ≤ code ∧ code < 300)
      (tail : Answered secure rest events) :
      Answered secure (line :: rest)
        (.wrote secure (commandBytes line) :: .read secure raw code texts :: events)

theorem isOk_iff {code : Nat} : isOk code = true ↔ 200 ≤ code ∧ code < 300 := by
  simp [isOk]

theorem commandOk_iff {line : Str} {code : Nat} : commandOk line code = true ↔
    if line = "DATA".toList then code = 354 else 200 ≤ code ∧ code < 300 := by
  unfold commandOk
  split
  · exact decide_eq_true_iff
  · exact isOk_iff

-- the payload and the verdict
def Concluded (secure : Bool) (data : Bytes) (events : List RelayEvent) : Prop :=
  ∃ raw code texts, (200 ≤ code ∧ code < 300) ∧ events =
    [.wrote secure data, .read secure raw code texts, .wrote secure (ascii "QUIT\r\n")]

theorem concluded_of_transmit {secure : Bool} {data : Bytes} {s : Stream}
    (h : (transmit secure data s).result = .ok .delivered) :
    Concluded secure data (transmit secure data s).events := by
  unfold transmit at h ⊢
  rcases writing_cases secure s data _ with ⟨e, hw⟩ | ⟨s', -, hw⟩
  · rw [hw] at h
    cases h
  · rw [hw] at h ⊢
    rcases reading_cases secure s' _ with ⟨e, hr⟩ | ⟨r, s'', -, hr⟩
    · rw [hr] at h
      cases h
    · rw [hr] at h ⊢
      cases hok : isOk r.code with
      | true => exact ⟨r.raw, r.code, r.texts, isOk_iff.mp hok, rfl⟩
      | false =>
        have hresult : (.ok (classify r.code (joinWords r.texts)) :
            Except ReplyError RelayReport) = .ok .delivered := by
          simpa [RelayOutcome.after, report, hok] using h
        exact absurd (Except.ok.inj hresult) (classify_ne_delivered _ _)

theorem answered_of_sendCommands {secure : Bool} {data : Bytes} {lines : List Str} {s : Stream}
    (h : (sendCommands secure (transmit secure data) lines s).result = .ok .delivered) :
    ∃ envelope conclusion,
      (sendCommands secure (transmit secure data) lines s).events = envelope ++ conclusion ∧
        Answered secure lines envelope ∧ Concluded secure data conclusion := by
  induction lines generalizing s with
  | nil => exact ⟨[], _, rfl, .nil, concluded_of_transmit h⟩
  | cons line rest ih =>
    rw [sendCommands] at h ⊢
    rcases command_cases secure s line _ with ⟨e, hc⟩ | ⟨r, s', -, hc⟩
    · rw [hc] at h
      cases h
    · rw [hc] at h ⊢
      cases hok : commandOk line r.code with
      | true =>
        simp only [hok, if_true] at h ⊢
        rcases ih h with ⟨envelope, conclusion, hevents, henvelope, hconclusion⟩
        refine ⟨_, conclusion, ?_, .cons r.raw r.code r.texts (commandOk_iff.mp hok) henvelope,
          hconclusion⟩
        simp [RelayOutcome.after, hevents]
      | false =>
        simp only [hok, Bool.false_eq_true, if_false] at h
        exact absurd (Except.ok.inj h) (classify_ne_delivered _ _)

/-- What stands between the greeting and the envelope: EHLO, and for an encrypted dialog STARTTLS,
the handshake and EHLO again. -/
def Opened (ehlo : Str) : Bool → List RelayEvent → Prop
  | false, events => Answered false [ehlo] events
  | true, events => ∃ plain tls, events = plain ++ .handshake :: tls ∧
      Answered false [ehlo, starttls] plain ∧ Answered true [ehlo] tls

theorem answered_ehlo {secure : Bool} (helo : Str) (message : Message) {rest : List Str}
    {events : List RelayEvent} {r : Reply} (hok : isOk r.code = true)
    (hrest : Answered secure rest events) :
    Answered secure (ehloLine helo message :: rest)
      (.wrote secure (commandBytes (ehloLine helo message)) ::
        .read secure r.raw r.code r.texts :: events) := by
  refine .cons r.raw r.code r.texts ?_ hrest
  have hne : ehloLine helo message ≠ "DATA".toList := by
    intro h
    cases (List.cons.inj h).1
  rw [if_neg hne]
  exact isOk_iff.mp hok

theorem answered_of_encrypted {helo : Str} {message : Message} {script : RelayScript} {tls : Stream}
    (h : (encrypted script (ehloLine helo message) tls).result = .ok .delivered) :
    ∃ ehlo envelope conclusion, (encrypted script (ehloLine helo message) tls).events =
        ehlo ++ envelope ++ conclusion ∧ Answered true [ehloLine helo message] ehlo ∧
      Answered true script.commands.tail envelope ∧ Concluded true script.data conclusion := by
  unfold encrypted at h ⊢
  rcases command_cases true tls (ehloLine helo message) _ with ⟨e, hc⟩ | ⟨r, s', -, hc⟩
  · rw [hc] at h
    cases h
  · rw [hc] at h ⊢
    cases hok : isOk r.code with
    | true =>
      simp only [hok, if_true] at h ⊢
      rcases answered_of_sendCommands h with ⟨envelope, conclusion, hevents, henvelope, hconclusion⟩
      refine ⟨_, envelope, conclusion, ?_, answered_ehlo helo message hok .nil, henvelope,
        hconclusion⟩
      simp [RelayOutcome.after, deliver, hevents]
    | false =>
      simp only [hok, Bool.false_eq_true, if_false] at h
      exact absurd (Except.ok.inj h) (classify_ne_delivered _ _)

/-! ## 9. The dialog as a whole -/

theorem Replied.trans {s s' s'' : Stream} {r r' : Reply} (h : Replied s r s')
    (h' : Replied s' r' s'') : Replied s { r' with raw := r.raw ++ r'.raw } s'' := by
  rcases h with ⟨c, l, hlines, hraw, -⟩
  rcases h' with ⟨c', l', hlines', hraw', hbuffered⟩
  refine ⟨c ++ l :: c', l', ?_, ?_, hbuffered⟩
  · rw [hlines, hlines']
    simp
  · dsimp only
    rw [hraw, hraw']
    simp

section
variable (peer : Peer κ) (addr serverName helo : Str) (message : Message) (policy : TlsPolicy κ)

theorem only_opening_relayTo
    (h : policy.isMandatory = true ∨ policy.config ≠ none ∧ ∃ raw code texts,
      (relayTo peer addr serverName helo message policy).events[2]? =
        some (.read false raw code texts) ∧ advertisesStarttls texts = true) :
    (relayTo peer addr serverName helo message policy).Only (Opening (ehloLine helo message)) := by
  rcases relayTo_cases peer addr serverName helo message policy with
    habort | ⟨plain, g, s₁, r, s₂, -, -, -, -, -, heq⟩
  · exact fun e he => (habort.opening e he).2
  · rw [heq] at h ⊢
    suffices hrest : (capable peer serverName (relayScript helo message) (ehloLine helo message)
        policy r.texts s₂).Only (Opening (ehloLine helo message)) by
      have hehlo := (hrest.after_one (opening_read r.raw r.code r.texts).2).after_one
        (opening_command (.inl rfl)).2
      exact hehlo.after_one (opening_read g.raw g.code g.texts).2
    rcases capable_cases r.texts s₂ with
      habort | ⟨hoptional, hplain, -⟩ | ⟨config, r₂, s₃, tls, -, -, -, -, -, hupgrade⟩
    · exact fun e he => (habort.opening e he).2
    · -- TLS is neither required nor on offer
      exfalso
      rcases h with h | ⟨hconfig, raw, code, texts, hthird, hadvertised⟩
      · rw [hoptional] at h
        cases h
      · cases hthird
        rcases hplain with hnone | hsilent
        · exact hconfig hnone
        · rw [hsilent] at hadvertised
          cases hadvertised
    · have hsecure : ∀ e : RelayEvent, e.isSecure = true → Opening (ehloLine helo message) e := by
        rintro e he bytes rfl
        cases he
      have htls : (encrypted (relayScript helo message) (ehloLine helo message) tls).Only
          (Opening (ehloLine helo message)) :=
        fun e he => hsecure e (only_encrypted _ _ tls e he).1
      have hstarttls := (htls.after_one (hsecure .handshake rfl)).after_one
        (opening_read r₂.raw r₂.code r₂.texts).2
      rw [hupgrade]
      exact hstarttls.after_one (opening_command (.inr rfl)).2

/-- A handshake is made with an empty buffer, and behind it only the new stream is read. -/
def CleanHandshake (o : RelayOutcome) : Prop :=
  ∃ plain config tls before after, peer.connect = .ok plain ∧ policy.config = some config ∧
    peer.handshake config serverName = .ok tls ∧ o.events = before ++ .handshake :: after ∧
    (∀ e ∈ before, e.isSecure = false) ∧ (∀ e ∈ after, e.isSecure = true ∧ e ≠ .handshake) ∧
    readBytes after <+: tls.bytes ∧
    ∃ consumed last rest, plain.lines = consumed ++ last :: rest ∧
      readBytes before = (consumed ++ [last]).flatMap StreamLine.raw ∧ last.buffered = false

theorem cleanHandshake_relayTo
    (h : .handshake ∈ (relayTo peer addr serverName helo message policy).events) :
    CleanHandshake peer serverName policy (relayTo peer addr serverName helo message policy) := by
  rcases relayTo_cases peer addr serverName helo message policy with
    habort | ⟨plain, g, s₁, r, s₂, hconnect, hg, -, hr, -, heq⟩
  · cases (habort.opening _ h).1
  · rw [heq] at h ⊢
    rcases capable_cases r.texts s₂ with
      habort | ⟨-, -, hplain⟩ | ⟨config, r₂, s₃, tls, hconfig, hr₂, -, hbuffered, hshake, hupgrade⟩
    · have hnot : .handshake ∈ (capable peer serverName (relayScript helo message)
          (ehloLine helo message) policy r.texts s₂).events := by
        simpa [RelayOutcome.after] using h
      cases (habort.opening _ hnot).1
    · have hnot : .handshake ∈ (deliver false (relayScript helo message) s₂).events := by
        rw [hplain] at h
        simpa [RelayOutcome.after] using h
      have hclear : (deliver false (relayScript helo message) s₂).Only (·.isSecure = false) :=
        only_deliver (fun _ => rfl) (fun _ _ _ => rfl) _
      cases hclear _ hnot
    · rcases (hg.trans hr).trans hr₂ with ⟨consumed, last, hlines, hraw, hlast⟩
      rw [hupgrade]
      refine ⟨plain, config, tls, [.read false g.raw g.code g.texts,
        .wrote false (commandBytes (ehloLine helo message)), .read false r.raw r.code r.texts,
        .wrote false (commandBytes starttls), .read false r₂.raw r₂.code r₂.texts],
        (encrypted (relayScript helo message) (ehloLine helo message) tls).events,
        hconnect, hconfig, hshake, rfl, ?_, only_encrypted _ _ tls, readsFrom_encrypted _ _ tls,
        consumed, last, s₃.lines, hlines, ?_, ?_⟩
      · intro e he
        simp only [List.mem_cons, List.not_mem_nil, or_false] at he
        rcases he with rfl | rfl | rfl | rfl | rfl <;> rfl
      · rw [← hraw]
        simp [readBytes, RelayEvent.readBytes]
      · rw [← hlast]
        exact hbuffered

/-- A delivery: a good greeting, and every command behind it accepted. -/
def FullyAnswered (o : RelayOutcome) : Prop :=
  ∃ raw greeting texts secure opening envelope conclusion,
    o.events = .read false raw greeting texts :: opening ++ envelope ++ conclusion ∧
      (200 ≤ greeting ∧ greeting < 400) ∧ Opened (ehloLine helo message) secure opening ∧
      Answered secure (relayScript helo message).commands.tail envelope ∧
      Concluded secure (relayScript helo message).data conclusion

theorem fullyAnswered_relayTo
    (h : (relayTo peer addr serverName helo message policy).result = .ok .delivered) :
    FullyAnswered helo message (relayTo peer addr serverName helo message policy) := by
  rcases relayTo_cases peer addr serverName helo message policy with
    habort | ⟨plain, g, s₁, r, s₂, hconnect, hg, hgreeting, hr, hok, heq⟩
  · exact absurd h habort.undelivered
  · rw [heq] at h ⊢
    rcases capable_cases r.texts s₂ with
      habort | ⟨-, -, hplain⟩ | ⟨config, r₂, s₃, tls, -, -, hok₂, -, -, hupgrade⟩
    · exact absurd h habort.undelivered
    · rw [hplain] at h ⊢
      have hdeliver : (deliver false (relayScript helo message) s₂).result = .ok .delivered := h
      rcases answered_of_sendCommands hdeliver with
        ⟨envelope, conclusion, hevents, henvelope, hconclusion⟩
      refine ⟨g.raw, g.code, g.texts, false, _, envelope, conclusion, ?_, hgreeting,
        answered_ehlo helo message hok .nil, henvelope, hconclusion⟩
      simp [RelayOutcome.after, deliver, hevents]
    · rw [hupgrade] at h ⊢
      have hencrypted : (encrypted (relayScript helo message) (ehloLine helo message) tls).result =
          .ok .delivered := h
      rcases answered_of_encrypted hencrypted with
        ⟨ehlo, envelope, conclusion, hevents, hehlo, henvelope, hconclusion⟩
      have hstarttls : Answered false [starttls] [.wrote false (commandBytes starttls),
          .read false r₂.raw r₂.code r₂.texts] := by
        refine .cons r₂.raw r₂.code r₂.texts ?_ .nil
        rw [if_neg (by decide)]
        exact isOk_iff.mp hok₂
      refine ⟨g.raw, g.code, g.texts, true, _ ++ .handshake :: ehlo, envelope, conclusion, ?_,
        hgreeting, ⟨_, ehlo, rfl, answered_ehlo helo message hok hstarttls, hehlo⟩, henvelope,
        hconclusion⟩
      simp [RelayOutcome.after, hevents]

/-- Whatever the server says: where TLS is required, or on offer and possible, only EHLO and
STARTTLS go out in the clear; a handshake leaves nothing of the plain stream to be read; and a
delivery means that every command was accepted. -/
theorem relay_dialog_keeps_to_tls :
    (policy.isMandatory = true ∨ (policy.config ≠ none ∧ ∃ raw code texts,
        (relayTo peer addr serverName helo message policy).events[2]? =
          some (.read false raw code texts) ∧ advertisesStarttls texts = true) →
      (relayTo peer addr serverName helo message policy).Only (Opening (ehloLine helo message))) ∧
    (.handshake ∈ (relayTo peer addr serverName helo message policy).events →
      CleanHandshake peer serverName policy (relayTo peer addr serverName helo message policy)) ∧
    ((relayTo peer addr serverName helo message policy).result = .ok .delivered →
      FullyAnswered helo message (relayTo peer addr serverName helo message policy)) :=
  ⟨only_opening_relayTo peer addr serverName helo message policy,
    cleanHandshake_relayTo peer addr serverName helo message policy,
    fullyAnswered_relayTo peer addr serverName helo message policy⟩

end

-- a line with nothing behind it in the buffer
def replyLine (code : String) (text : Str) : StreamLine :=
  ⟨ascii code ++ encodeUtf8 text ++ crlf, false, by simp [crlf]⟩

/-- An exchange that offers STARTTLS and takes everything. -/
def politePeer : Peer Unit where
  connect := .ok ⟨[replyLine "220 " "mx".toList, replyLine "250-" "mx".toList,
    replyLine "250 " starttls, replyLine "220 " "go".toList], none, none⟩
  handshake _ _ := .ok ⟨[replyLine "250 " "mx".toList, replyLine "250 " "ok".toList,
    replyLine "250 " "ok".toList, replyLine "354 " "go".toList, replyLine "250 " "ok".toList],
    none, none⟩

def politeMessage : Message := ⟨⟨none, [⟨"b".toList, "c".toList⟩]⟩, ⟨[]⟩, ascii "hi", []⟩

def politeOutcome : RelayOutcome :=
  relayTo politePeer "192.0.2.1:25".toList "mx".toList "a".toList politeMessage (.strict ())

theorem relay_dialog_keeps_to_tls_strict :
    politeOutcome.result = .ok .delivered ∧ .handshake ∈ politeOutcome.events ∧
      politeOutcome.Only (Opening (ehloLine "a".toList politeMessage)) ∧
      CleanHandshake politePeer "mx".toList (.strict ()) politeOutcome ∧
      FullyAnswered "a".toList politeMessage politeOutcome := by
  have hdelivered : politeOutcome.result = .ok .delivered := by rfl
  have hhandshake : .handshake ∈ politeOutcome.events := by decide
  have h := relay_dialog_keeps_to_tls politePeer "192.0.2.1:25".toList "mx".toList "a".toList
    politeMessage (.strict ())
  exact ⟨hdelivered, hhandshake, h.1 (.inl rfl), h.2.1 hhandshake, h.2.2 hdelivered⟩

end Snail.Server
