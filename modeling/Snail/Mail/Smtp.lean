import Snail.Mail.Message

/-!
# Smtp — commands, replies and the server session

`crates/mail/src/transport/smtp.rs`.  The session is a state machine over parsed commands; what a
connection does with its replies is modelled with the service loops.
-/

open Snail.Reasoning

namespace Snail.Mail

/-! ## 1. Commands -/

inductive SmtpCommand where
  | helo (domain : Str)
  | ehlo (domain : Str)
  -- `none` is the null sender
  | mailFrom (sender : Option Mailbox)
  | rcptTo (rcpt : Mailbox)
  | data
  | startTls
  | rset
  | noop
  | quit
  deriving DecidableEq, Repr

def nonEmpty (s : Str) (what : String) : Except MailError Str :=
  if s = [] then .error (.malformed (what.toList ++ " requires an argument".toList)) else .ok s

/-- `parse_path_opt`; what follows the closing bracket is ignored. -/
def parsePathOpt (rest : Str) (keyword : String) : Except MailError (Option Mailbox) :=
  match keyword.toList.isPrefixOf? rest <|> (toAsciiLowercase keyword.toList).isPrefixOf? rest with
  | none => .error (.malformed ("expected `".toList ++ keyword.toList ++ "<addr>`".toList))
  | some after =>
      match (['<'].isPrefixOf? (trim after)).bind (splitOnce '>') with
      | none => .error (.malformed "path must be wrapped in <>".toList)
      | some (inner, _) => if inner = [] then .ok none else (Mailbox.parse inner).map some

-- the verb of a command line in upper case, and the trimmed rest
def commandWords (text : Str) : Str × Str :=
  let line := trimEndCrLf text
  match splitOnce ' ' line with
  | some (v, r) => (toAsciiUppercase v, trim r)
  | none => (toAsciiUppercase line, [])

def SmtpCommand.ofWords (verb rest : Str) : Except MailError SmtpCommand :=
  if verb = "HELO".toList then (nonEmpty rest "HELO").map .helo
  else if verb = "EHLO".toList then (nonEmpty rest "EHLO").map .ehlo
  else if verb = "MAIL".toList then (parsePathOpt rest "FROM:").map .mailFrom
  else if verb = "RCPT".toList then
    match parsePathOpt rest "TO:" with
    | .error e => .error e
    | .ok none => .error (.malformed "RCPT TO cannot be the null path".toList)
    | .ok (some rcpt) => .ok (.rcptTo rcpt)
  else if verb = "DATA".toList then .ok .data
  else if verb = "RSET".toList then .ok .rset
  else if verb = "NOOP".toList then .ok .noop
  else if verb = "QUIT".toList then .ok .quit
  else if verb = "STARTTLS".toList then
    if rest = [] then .ok .startTls
    else .error (.malformed "STARTTLS takes no arguments".toList)
  else .error (.malformed ("unknown command `".toList ++ verb ++ "`".toList))

/-- `SmtpCommand::parse`. -/
def SmtpCommand.parse (text : Str) : Except MailError SmtpCommand :=
  ofWords (commandWords text).1 (commandWords text).2

-- the mailboxes of a path come from the address parser
theorem mailbox_of_parsePathOpt {rest : Str} {keyword : String} {m : Mailbox}
    (h : parsePathOpt rest keyword = .ok (some m)) : ∃ addr, Mailbox.parse addr = .ok m := by
  unfold parsePathOpt at h
  split at h
  · cases h
  · split at h
    · cases h
    · rename_i inner _ _
      split at h
      · cases h
      · rcases map_eq_ok_iff.mp h with ⟨m', hp, hm⟩
        cases hm
        exact ⟨inner, hp⟩

-- the paths of a command come from the path parser
def SmtpCommand.PathsParsed (r : Except MailError SmtpCommand) : Prop :=
  ∀ command, r = .ok command →
    (∀ sender, command = .mailFrom sender → ∃ rest, parsePathOpt rest "FROM:" = .ok sender) ∧
    (∀ rcpt, command = .rcptTo rcpt → ∃ rest, parsePathOpt rest "TO:" = .ok (some rcpt))

namespace SmtpCommand

theorem PathsParsed.ite {c : Prop} [Decidable c] {x y : Except MailError SmtpCommand}
    (hx : PathsParsed x) (hy : PathsParsed y) : PathsParsed (if c then x else y) := by
  split
  · exact hx
  · exact hy

theorem pathsParsed_error (e : MailError) : PathsParsed (.error e) := by
  intro command h
  cases h

theorem pathsParsed_ok {command : SmtpCommand} (hmail : ∀ sender, command ≠ .mailFrom sender)
    (hrcpt : ∀ rcpt, command ≠ .rcptTo rcpt) : PathsParsed (.ok command) := by
  intro command' h
  cases h
  exact ⟨fun sender he => absurd he (hmail sender), fun rcpt he => absurd he (hrcpt rcpt)⟩

theorem pathsParsed_greeting {r : Except MailError Str} {f : Str → SmtpCommand}
    (hmail : ∀ d sender, f d ≠ .mailFrom sender) (hrcpt : ∀ d rcpt, f d ≠ .rcptTo rcpt) :
    PathsParsed (r.map f) := by
  cases r with
  | error e => exact pathsParsed_error e
  | ok d => exact pathsParsed_ok (hmail d) (hrcpt d)

theorem pathsParsed_mail (rest : Str) :
    PathsParsed ((parsePathOpt rest "FROM:").map .mailFrom) := by
  intro command h
  rcases map_eq_ok_iff.mp h with ⟨sender, hp, rfl⟩
  refine ⟨?_, by simp⟩
  intro sender' he
  cases he
  exact ⟨rest, hp⟩

theorem pathsParsed_rcpt (rest : Str) :
    PathsParsed (match parsePathOpt rest "TO:" with
      | .error e => .error e
      | .ok none => .error (.malformed "RCPT TO cannot be the null path".toList)
      | .ok (some rcpt) => .ok (.rcptTo rcpt)) := by
  intro command h
  split at h
  · cases h
  · cases h
  · rename_i rcpt hp
    cases h
    refine ⟨by simp, ?_⟩
    intro rcpt' he
    cases he
    exact ⟨rest, hp⟩

theorem path_of_parse {line : Str} {command : SmtpCommand}
    (h : SmtpCommand.parse line = .ok command) :
    (∀ sender, command = .mailFrom sender → ∃ rest, parsePathOpt rest "FROM:" = .ok sender) ∧
    (∀ rcpt, command = .rcptTo rcpt → ∃ rest, parsePathOpt rest "TO:" = .ok (some rcpt)) := by
  have hparsed : PathsParsed (ofWords (commandWords line).1 (commandWords line).2) := by
    unfold ofWords
    apply PathsParsed.ite (pathsParsed_greeting (by simp) (by simp))
    apply PathsParsed.ite (pathsParsed_greeting (by simp) (by simp))
    apply PathsParsed.ite (pathsParsed_mail _)
    apply PathsParsed.ite (pathsParsed_rcpt _)
    -- no other verb has a path
    apply PathsParsed.ite (pathsParsed_ok (by simp) (by simp))
    apply PathsParsed.ite (pathsParsed_ok (by simp) (by simp))
    apply PathsParsed.ite (pathsParsed_ok (by simp) (by simp))
    apply PathsParsed.ite (pathsParsed_ok (by simp) (by simp))
    apply PathsParsed.ite _ (pathsParsed_error _)
    exact PathsParsed.ite (pathsParsed_ok (by simp) (by simp)) (pathsParsed_error _)
  exact hparsed command h

end SmtpCommand

/-! ## 2. The session -/

structure SmtpReply where
  code : Nat
  text : Str
  deriving DecidableEq, Repr

def SmtpReply.toWire (r : SmtpReply) : Str := showNat r.code ++ ' ' :: r.text ++ "\r\n".toList

def SmtpReply.isPositive (r : SmtpReply) : Bool := 200 ≤ r.code && r.code < 400

inductive Phase where
  | greeting
  | identified
  | sender
  | recipients
  | data
  | closed
  deriving DecidableEq, Repr

def defaultMaxRecipients : Nat := 1000

structure SmtpSession where
  phase : Phase
  helo : Option Str
  sender : Option Mailbox
  recipients : List Mailbox
  maxRecipients : Nat
  deriving DecidableEq, Repr

def SmtpSession.withMaxRecipients (maxRecipients : Nat) : SmtpSession :=
  ⟨.greeting, none, none, [], maxRecipients⟩

def SmtpSession.new : SmtpSession := .withMaxRecipients defaultMaxRecipients

def smtpReply (code : Nat) (text : String) : SmtpReply := ⟨code, text.toList⟩

/-- `SmtpSession::handle`. -/
def SmtpSession.handle (s : SmtpSession) : SmtpCommand → SmtpReply × SmtpSession
  | .quit => (smtpReply 221 "Bye", { s with phase := .closed })
  | .noop => (smtpReply 250 "OK", s)
  | .rset =>
      (smtpReply 250 "OK",
        { s with
          sender := none
          recipients := []
          phase := if s.helo.isSome then .identified else s.phase })
  | .helo domain | .ehlo domain =>
      (⟨250, "Hello ".toList ++ domain⟩,
        { s with helo := some domain, sender := none, recipients := [], phase := .identified })
  | .mailFrom sender =>
      if s.phase = .identified then
        (smtpReply 250 "OK", { s with sender := sender, phase := .sender })
      else (smtpReply 503 "Bad sequence: need EHLO first", s)
  | .rcptTo rcpt =>
      if s.phase = .sender ∨ s.phase = .recipients then
        if s.recipients.length ≥ s.maxRecipients then
          (smtpReply 452 "4.5.3 Too many recipients", s)
        else
          (smtpReply 250 "OK",
            { s with recipients := s.recipients ++ [rcpt], phase := .recipients })
      else (smtpReply 503 "Bad sequence: need MAIL FROM first", s)
  | .data =>
      if s.phase = .recipients then
        (smtpReply 354 "Start mail input; end with <CRLF>.<CRLF>", { s with phase := .data })
      else (smtpReply 503 "Bad sequence: need RCPT TO first", s)
  | .startTls =>
      if s.phase = .greeting ∨ s.phase = .identified then
        (smtpReply 220 "Ready to start TLS", s)
      else (smtpReply 503 "Bad sequence: STARTTLS not allowed during a mail transaction", s)

/-- `SmtpSession::take_envelope`. -/
def SmtpSession.takeEnvelope (s : SmtpSession) : Option Envelope × SmtpSession :=
  if s.recipients = [] then (none, s)
  else (some ⟨s.sender, s.recipients⟩,
    { s with sender := none, recipients := [], phase := .identified })

-- recipients come from RCPT alone
theorem SmtpSession.mem_recipients_handle {s : SmtpSession} {command : SmtpCommand} {rcpt : Mailbox}
    (h : rcpt ∈ (s.handle command).2.recipients) :
    rcpt ∈ s.recipients ∨ command = .rcptTo rcpt := by
  cases command with
  | quit | noop => exact Or.inl h
  | rset | helo _ | ehlo _ => cases h
  | mailFrom _ | data | startTls =>
    rw [SmtpSession.handle] at h
    split at h
    · exact Or.inl h
    · exact Or.inl h
  | rcptTo new =>
    rw [SmtpSession.handle] at h
    split at h
    · split at h
      · exact Or.inl h
      · rcases List.mem_append.mp h with h | h
        · exact Or.inl h
        · rw [List.mem_singleton.mp h]
          exact Or.inr rfl
    · exact Or.inl h

theorem SmtpSession.recipients_takeEnvelope (s : SmtpSession) :
    s.takeEnvelope.2.recipients = [] := by
  unfold SmtpSession.takeEnvelope
  split
  · assumption
  · rfl

theorem SmtpSession.takeEnvelope_eq_some {s : SmtpSession} {envelope : Envelope}
    (h : s.takeEnvelope.1 = some envelope) : envelope = ⟨s.sender, s.recipients⟩ := by
  unfold SmtpSession.takeEnvelope at h
  split at h
  · cases h
  · cases h
    rfl

end Snail.Mail
