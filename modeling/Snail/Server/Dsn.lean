import Snail.Server.Composed
import Snail.Server.Received

/-!
# Dsn — notices of failed deliveries

`services/snail_server/src/dsn.rs`.  A notice goes to the sender of the message that failed, and
names no sender itself.
-/

open Snail.Reasoning Snail.Mail

namespace Snail.Server

def sanitizeLine (s : Str) : Str := s.map fun c => if c = '\r' ∨ c = '\n' then ' ' else c

-- nanoseconds since the epoch, none before it
def boundaryNonce (at' : SystemTime) : Nat :=
  if 0 ≤ at'.secs then at'.secs.toNat * 1000000000 + at'.nanos else 0

def dsnFields (host : Str) (originalSender : Mailbox) (date boundary : Str) : List (Str × Str) :=
  [("From".toList, "Mail Delivery System <MAILER-DAEMON@".toList ++ host ++ ['>']),
    ("To".toList, '<' :: originalSender.toString ++ ['>']),
    ("Subject".toList, "Undelivered Mail Returned to Sender".toList),
    ("Date".toList, date),
    ("Auto-Submitted".toList, "auto-replied".toList),
    ("MIME-Version".toList, "1.0".toList),
    ("Content-Type".toList,
      "multipart/report; report-type=delivery-status; boundary=\"".toList ++ boundary ++ ['"'])]

-- the explanation and the status, one line after the other
def dsnLines (host : Str) (failedRecipients : List Mailbox) (reason date boundary : Str) :
    List Str :=
  ["--".toList ++ boundary,
    "Content-Type: text/plain; charset=us-ascii".toList,
    [],
    "This is the mail system at host ".toList ++ host ++ ['.'],
    [],
    "Your message could not be delivered to one or more recipients.".toList,
    "The error reported was:".toList,
    [],
    "    ".toList ++ reason,
    []] ++
  (failedRecipients.map fun rcpt =>
    "    <".toList ++ rcpt.toString ++ ">: delivery failed".toList) ++
  [[],
    "--".toList ++ boundary,
    "Content-Type: message/delivery-status".toList,
    [],
    "Reporting-MTA: dns; ".toList ++ host,
    "Arrival-Date: ".toList ++ date] ++
  (failedRecipients.flatMap fun rcpt =>
    [[],
      "Final-Recipient: rfc822; ".toList ++ rcpt.toString,
      "Action: failed".toList,
      "Status: 5.0.0".toList,
      "Diagnostic-Code: smtp; ".toList ++ reason]) ++
  [[],
    "--".toList ++ boundary,
    "Content-Type: text/rfc822-headers".toList,
    []]

def dsnBody (host : Str) (failedRecipients : List Mailbox) (reason : Str) (originalHeaders : Bytes)
    (date boundary : Str) : Bytes :=
  (dsnLines host failedRecipients reason date boundary).flatMap pushLine ++ originalHeaders ++
    (if crlf.isSuffixOf originalHeaders then [] else crlf) ++
    pushLine ("--".toList ++ boundary ++ "--".toList)

-- what is sent when the notice cannot be read back
def fallbackDsn : Bytes :=
  ascii "Subject: Undelivered Mail Returned to Sender\r\n\r\nDelivery failed.\r\n"

/-- `build_failure_dsn`. -/
def buildFailureDsn (host : Str) (originalSender : Mailbox) (failedRecipients : List Mailbox)
    (reason : Str) (originalHeaders : Bytes) (at' : SystemTime) : Message :=
  let host := sanitizeLine host
  let date := rfc5322Date at'
  let reason := sanitizeLine reason
  let boundary := "=_snail_dsn_".toList ++ showNat (boundaryNonce at')
  let envelope : Envelope := ⟨none, [originalSender]⟩
  let raw := composed (dsnFields host originalSender date boundary)
    (dsnBody host failedRecipients reason originalHeaders date boundary)
  match Message.parse envelope raw with
  | .ok m => m
  | .error _ =>
      -- the two sections of `fallback_dsn`
      ⟨envelope, ⟨[("Subject".toList, "Undelivered Mail Returned to Sender".toList)]⟩,
        ascii "Delivery failed.\r\n",
        ascii "Subject: Undelivered Mail Returned to Sender\r\n\r\n"⟩

-- the fallback can always be read
theorem parse_fallbackDsn (env : Envelope) : Message.parse env fallbackDsn =
    .ok ⟨env, ⟨[("Subject".toList, "Undelivered Mail Returned to Sender".toList)]⟩,
      ascii "Delivery failed.\r\n",
      ascii "Subject: Undelivered Mail Returned to Sender\r\n\r\n"⟩ := by
  have hsplit : splitHeaderBody fallbackDsn =
      (ascii "Subject: Undelivered Mail Returned to Sender", 48) := by
    decide +kernel
  have hheaders : parseHeaders
      (decodeLossy (ascii "Subject: Undelivered Mail Returned to Sender")) =
      .ok ⟨[("Subject".toList, "Undelivered Mail Returned to Sender".toList)]⟩ := by
    decide +kernel
  unfold Message.parse
  rw [hsplit]
  dsimp only
  rw [hheaders]
  rfl

/-- No sender, and the sender of the failed message as the only recipient. -/
theorem envelope_buildFailureDsn (host : Str) (originalSender : Mailbox)
    (failedRecipients : List Mailbox) (reason : Str) (originalHeaders : Bytes) (at' : SystemTime) :
    (buildFailureDsn host originalSender failedRecipients reason originalHeaders at').envelope =
      ⟨none, [originalSender]⟩ := by
  unfold buildFailureDsn
  dsimp only
  split
  · rename_i m hm
    exact (Message.toBytes_parse hm).2
  · rfl

end Snail.Server
