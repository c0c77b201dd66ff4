import Snail.Mail.Smtp

/-!
# Msa — authenticated submission

`crates/access/src/msa.rs`: an SMTP session behind a login.  The credential backend and the base64
decoder of the SASL layer (`crates/identity/src/sals.rs`) are parameters.
-/

open Snail.Reasoning Snail.Mail

namespace Snail.Access

/-- What a session needs of `identity`: `SessionAuth::check`, and the standard base64 alphabet. -/
structure AuthBackend where
  check : Str → Str → Bool
  base64Decode : Bytes → Option Bytes

structure SaslCredentials where
  username : Str
  password : Str
  deriving DecidableEq, Repr

-- authzid, authcid and password, between NUL bytes
def plainFields (raw : Bytes) : Option SaslCredentials :=
  match raw.splitOn 0 with
  | [_, authcid, passwd] =>
      match decodeUtf8 authcid, decodeUtf8 passwd with
      | some username, some password => if username = [] then none else some ⟨username, password⟩
      | _, _ => none
  | _ => none

/-- `decode_plain`. -/
def decodePlain (backend : AuthBackend) (response : Str) : Option SaslCredentials :=
  (backend.base64Decode (encodeUtf8 (trim response))).bind plainFields

structure MsaSession where
  smtp : SmtpSession
  user : Option Str
  deriving DecidableEq, Repr

def MsaSession.new : MsaSession := ⟨.new, none⟩

/-- `authenticate_plain`. -/
def MsaSession.authenticatePlain (backend : AuthBackend) (s : MsaSession) (response : Str) :
    SmtpReply × MsaSession :=
  match decodePlain backend response with
  | some creds =>
      if backend.check creds.username creds.password then
        (smtpReply 235 "Authentication successful", { s with user := some creds.username })
      else (smtpReply 535 "Authentication credentials invalid", s)
  | none => (smtpReply 501 "Malformed AUTH response", s)

def needsAuth : SmtpCommand → Bool
  | .mailFrom _ | .rcptTo _ | .data => true
  | _ => false

-- an authenticated user sends as themselves only
def ownsSender (user : Str) (sender : Option Mailbox) : Bool :=
  sender.any fun mailbox => eqIgnoreAsciiCase mailbox.toString user

-- the user whose address a `MAIL` command fails to name
def foreignSender (user : Option Str) : SmtpCommand → Option Str
  | .mailFrom sender => user.filter fun u => !ownsSender u sender
  | _ => none

/-- `MsaSession::handle`. -/
def MsaSession.handle (s : MsaSession) (command : SmtpCommand) : SmtpReply × MsaSession :=
  if needsAuth command ∧ s.user = none then (smtpReply 530 "Authentication required", s)
  else match foreignSender s.user command with
    | some user =>
        (⟨553, "5.7.1 Sender address rejected: not owned by user ".toList ++ user⟩, s)
    | none => ((s.smtp.handle command).1, { s with smtp := (s.smtp.handle command).2 })

end Snail.Access
