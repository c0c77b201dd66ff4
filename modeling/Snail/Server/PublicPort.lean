import Snail.Server.Accepted

/-!
# PublicPort — the public port is no relay

Whoever connects to `serve_inbound` reaches local mailboxes only.  The recipients of a session are
local in every state of a connection, so no message handed to `accept_inbound` names anyone else,
and `accept_inbound` itself is called without the authorization to queue.
-/

set_option linter.dupNamespace false

open Snail.Reasoning Snail.Mail Snail.Network Snail.Security Snail.Access

namespace Snail.Server

/-! ## 1. Iterations -/

section
variable {server : Server} {peer : IpAddr} {t : Turn} {c : InboundConn}

-- a command may touch the greylist, and nothing else that is shared
theorem world_answered (w : World) (command : SmtpCommand) (reply : SmtpReply)
    (session : SmtpSession) : (answered server w c command reply session).world = w := by
  unfold answered
  simp only
  split
  · rfl
  · rfl

theorem world_startTls (reply : SmtpReply) (fresh : SmtpSession) :
    (startTls server t c reply fresh).world = t.world := by
  unfold startTls
  split
  · split
    · rfl
    · split
      · rfl
      · split
        · rfl
        · rfl
  · rfl

theorem world_inboundRcpt (rcpt : Mailbox) :
    ∃ greylist, (server.inboundRcpt peer t c rcpt).world = { t.world with greylist } := by
  have hgrey : ∃ greylist, (server.greylisted peer t c rcpt).2 = { t.world with greylist } := by
    unfold Server.greylisted
    split
    · exact ⟨t.world.greylist, rfl⟩
    · exact ⟨_, rfl⟩
  unfold Server.inboundRcpt
  split
  · exact ⟨t.world.greylist, rfl⟩
  · simp only
    split
    · exact hgrey
    · rw [world_answered]
      exact hgrey

theorem world_inboundCommand :
    ∃ greylist, (server.inboundCommand peer t c).world = { t.world with greylist } := by
  have hgreeting : ∀ command, (server.inboundGreeting t c command).world = t.world := by
    intro command
    unfold Server.inboundGreeting
    simp only
    split
    · rfl
    · rfl
  unfold Server.inboundCommand
  split
  · exact ⟨t.world.greylist, rfl⟩
  · exact ⟨t.world.greylist, world_startTls _ _⟩
  · exact ⟨t.world.greylist, hgreeting _⟩
  · exact ⟨t.world.greylist, hgreeting _⟩
  · exact world_inboundRcpt _
  · exact ⟨t.world.greylist, world_answered _ _ _ _⟩

theorem world_stepInbound (server : Server) (peer : IpAddr) (t : Turn) (c : InboundConn) :
    (server.stepInbound peer t c).world =
      ((server.handedInbound peer t c).map fun message =>
        (server.acceptInbound t.world t.ios message .forbidden).2).getD
          (if t.read = .read ∧ c.collecting = none then (server.inboundCommand peer t c).world
            else t.world) :=
  world_iteration server t c .forbidden (server.inboundMessage peer t c) _ _

-- without the authorization nothing is queued
theorem acceptInbound_forbidden (server : Server) (w : World) (ios : Nat → EnqueueIo)
    (message : Message) :
    (server.acceptInbound w ios message .forbidden).2 =
      { w with store := (server.mta.acceptInbound w.store message).2 } := by
  unfold Server.acceptInbound
  simp

theorem stepInbound_of_handed {message : Message}
    (h : server.handedInbound peer t c = some message) :
    (server.stepInbound peer t c).world =
      { t.world with store := (server.mta.acceptInbound t.world.store message).2 } := by
  rw [world_stepInbound, h]
  exact acceptInbound_forbidden server t.world t.ios message

theorem stepInbound_of_not_handed (h : server.handedInbound peer t c = none) :
    ∃ greylist, (server.stepInbound peer t c).world = { t.world with greylist } := by
  rw [world_stepInbound, h, Option.map_none, Option.getD_none]
  split
  · exact world_inboundCommand
  · exact ⟨t.world.greylist, rfl⟩

theorem recipients_of_handedInbound {message : Message}
    (h : server.handedInbound peer t c = some message) :
    message.envelope.recipients = c.session.recipients := by
  rcases handed_eq_some h with ⟨-, collector, -, -, -, hok⟩
  rcases inboundMessage_ok hok with ⟨envelope, m, htaken, hinto, hstamped⟩
  rw [envelope_of_stamped hinto hstamped, SmtpSession.takeEnvelope_eq_some htaken]

/-! ## 2. Runs -/

/-- The public port is not an open relay.  In every run of `serve_inbound`, whatever the client
sends next: the spool stays as it was, a message handed to `accept_inbound` has local recipients
only, and the mail store changes by deliveries to mailboxes of the configured domains only. -/
theorem public_port_is_no_open_relay {filter : MessageFilter} {localDomains : List Str}
    (hmta : server.mta = Mta.new filter localDomains) {turns : List Turn}
    (hrun : server.runInbound peer turns = some c) (t : Turn) :
    let after := (server.stepInbound peer t c).world
    after.disk = t.world.disk ∧ after.counter = t.world.counter ∧
      (server.handedInbound peer t c = none → after.store = t.world.store) ∧
      ∀ message, server.handedInbound peer t c = some message →
        (∀ rcpt ∈ message.envelope.recipients, server.isLocal rcpt = true) ∧
        after.store = t.world.store.deliverAll
          (message.withRecipients (server.mta.here message))
          (server.mta.deliveries message) ∧
        ∀ rcpt ∈ server.mta.deliveries message,
          toAsciiLowercase rcpt.domain ∈ localDomains.map toAsciiLowercase := by
  intro after
  cases hhanded : server.handedInbound peer t c with
  | none =>
    rcases stepInbound_of_not_handed hhanded with ⟨greylist, hafter⟩
    have hworld : after = { t.world with greylist } := hafter
    rw [hworld]
    refine ⟨rfl, rfl, fun _ => rfl, ?_⟩
    intro message hmessage
    cases hmessage
  | some message =>
    have hworld : after =
        { t.world with store := (server.mta.acceptInbound t.world.store message).2 } :=
      stepInbound_of_handed hhanded
    rw [hworld]
    refine ⟨rfl, rfl, fun hnone => (by cases hnone), ?_⟩
    intro message' hmessage
    cases hmessage
    refine ⟨?_, Mta.store_acceptInbound _ _ _, ?_⟩
    · rw [recipients_of_handedInbound hhanded]
      exact Server.isLocal_of_runInbound hrun
    · intro rcpt hrcpt
      have hroute := Mta.route_of_mem_deliveries hrcpt
      rw [hmta] at hroute
      exact Mta.route_new_eq_local_iff.mp hroute

end

/-! ### A message for a colleague -/

-- a second transaction behind one that was reset, with a stranger refused on the way
def publicTurns : List Turn :=
  ["EHLO x\r\n", "MAIL FROM:<>\r\n", "RCPT TO:<b@y.org>\r\n", "RSET\r\n", "MAIL FROM:<>\r\n",
    "RCPT TO:<b@z.org>\r\n", "RCPT TO:<c@Y.org>\r\n", "DATA\r\n", "Subject: hi\r\n",
    "\r\n"].map lineTurn

def publicServer : Server := { tableServer with resolver := none }

theorem eval_publicTurns :
    (publicServer.runInbound (.v4 0) publicTurns).map (fun c =>
        (publicServer.handedInbound (.v4 0) endOfData c).map fun m => m.envelope.recipients) =
      some (some [⟨"c".toList, "Y.org".toList⟩]) := by
  decide +kernel

theorem public_port_is_no_open_relay_for_colleague :
    ∃ c message, publicServer.runInbound (.v4 0) publicTurns = some c ∧
      publicServer.handedInbound (.v4 0) endOfData c = some message ∧
      message.envelope.recipients = [⟨"c".toList, "Y.org".toList⟩] ∧
      (publicServer.stepInbound (.v4 0) endOfData c).world.disk = endOfData.world.disk ∧
      ∀ rcpt ∈ publicServer.mta.deliveries message, toAsciiLowercase rcpt.domain ∈
        ["y.org".toList].map toAsciiLowercase := by
  rcases Option.map_eq_some_iff.mp eval_publicTurns with ⟨c, hrun, hhanded⟩
  rcases Option.map_eq_some_iff.mp hhanded with ⟨message, hmessage, hrcpts⟩
  have hport := public_port_is_no_open_relay rfl hrun endOfData
  exact ⟨c, message, hrun, hmessage, hrcpts, hport.1, (hport.2.2.2 message hmessage).2.2⟩

end Snail.Server
