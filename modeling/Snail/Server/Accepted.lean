import Snail.Server.Serve
import Snail.Server.SpoolCrash

/-!
# Accepted — what has become of a message when its sender is told 250

Both loops answer `250 OK message accepted` once they have called `accept_inbound`, and look at
nothing it returns.  So a message is kept when nothing on its way fails, and not otherwise.
-/

set_option linter.dupNamespace false

open Snail.Reasoning Snail.Mail Snail.Network Snail.Access

namespace Snail.Server

/-! ## 1. The queue -/

/-- The entry `id` is committed: its text and its control record are there, and the record lists the
recipient. -/
structure World.Queued (w : World) (message : Message) (rcpt : Mailbox) (id : Str) : Prop where
  eml : w.disk.lookup (emlPath id) = some message.toBytes
  ctrl : ∃ envelope now, envelope.sender = message.envelope.sender ∧ rcpt ∈ envelope.recipients ∧
    w.disk.lookup (ctrlPath id) = some (encodeUtf8 (renderCtrl envelope 0 now now))

section
variable {w : World} {message : Message} {rcpt : Mailbox} {nanos seq : Nat}

theorem slots_enqueue_of_ne (w : World) (io : EnqueueIo) (message : Message) {id : Str}
    (h : id ≠ newId io.nanos w.counter) :
    slots (w.enqueue io message).disk id = slots w.disk id := by
  have htouch : ∀ step ∈ io.steps (enqueueSteps (newId io.nanos w.counter) message io.now),
      ∀ f ∈ step.touches, f.id = newId io.nanos w.counter := by
    unfold EnqueueIo.steps
    cases io.fault with
    | none => exact fun step hs => touches_enqueue hs
    | some k => exact touches_take (fun step hs => touches_enqueue hs) k
  exact slots_runSteps_of_ne htouch h w.disk

-- later entries have other ids
theorem World.Queued.enqueue (h : w.Queued message rcpt (newId nanos seq)) (hseq : seq < w.counter)
    (io : EnqueueIo) (other : Message) :
    (w.enqueue io other).Queued message rcpt (newId nanos seq) := by
  have hne : newId nanos seq ≠ newId io.nanos w.counter := by
    intro he
    have hcounter := newId_inj he
    omega
  have hslots := slots_enqueue_of_ne w io other hne
  have heml : (w.enqueue io other).disk.lookup (emlPath (newId nanos seq)) =
      w.disk.lookup (emlPath (newId nanos seq)) := congrArg Slots.eml hslots
  have hctrl : (w.enqueue io other).disk.lookup (ctrlPath (newId nanos seq)) =
      w.disk.lookup (ctrlPath (newId nanos seq)) := congrArg Slots.ctrl hslots
  apply World.Queued.mk
  · rw [heml]
    exact h.eml
  · rw [hctrl]
    exact h.ctrl

theorem queued_enqueue {io : EnqueueIo} (hio : io.fault = none)
    (hrcpt : rcpt ∈ message.envelope.recipients) :
    (w.enqueue io message).Queued message rcpt (newId io.nanos w.counter) := by
  have hfull : io.steps (enqueueSteps (newId io.nanos w.counter) message io.now) =
      (enqueueSteps (newId io.nanos w.counter) message io.now).take 4 := by
    unfold EnqueueIo.steps
    rw [hio]
    rfl
  have hslots := slots_enqueue w.disk (newId io.nanos w.counter) message io.now 4
  rw [← hfull] at hslots
  exact ⟨congrArg Slots.eml hslots,
    message.envelope, io.now, rfl, hrcpt, congrArg Slots.ctrl hslots⟩

theorem World.Queued.enqueueGroups (h : w.Queued message rcpt (newId nanos seq))
    (hseq : seq < w.counter) (ios : Nat → EnqueueIo) (source : Message) (i : Nat)
    (groups : List (Str × List Mailbox)) :
    (w.enqueueGroups ios source i groups).Queued message rcpt (newId nanos seq) := by
  induction groups generalizing w i with
  | nil => exact h
  | cons group groups ih => exact ih (h.enqueue hseq _ _) (Nat.lt_succ_of_lt hseq) (i + 1)

-- when no write fails, every group is queued
theorem exists_queued_enqueueGroups {ios : Nat → EnqueueIo} {i : Nat}
    {groups : List (Str × List Mailbox)} {group : Str × List Mailbox}
    (hios : ∀ j < groups.length, (ios (i + j)).fault = none) (hgroup : group ∈ groups)
    (hrcpt : rcpt ∈ group.2) :
    ∃ id, (w.enqueueGroups ios message i groups).Queued message rcpt id := by
  induction groups generalizing w i with
  | nil => cases hgroup
  | cons first groups ih =>
    rcases List.mem_cons.mp hgroup with rfl | hgroup
    · have hqueued : (w.enqueue (ios i) (message.withRecipients group.2)).Queued
          (message.withRecipients group.2) rcpt (newId (ios i).nanos w.counter) :=
        queued_enqueue (hios 0 (Nat.succ_pos _)) hrcpt
      -- narrowing the envelope keeps the text and the sender
      have hqueued' : (w.enqueue (ios i) (message.withRecipients group.2)).Queued message rcpt
          (newId (ios i).nanos w.counter) := ⟨hqueued.eml, hqueued.ctrl⟩
      exact ⟨_, hqueued'.enqueueGroups (Nat.lt_succ_self _) ios message (i + 1) groups⟩
    · apply ih _ hgroup
      intro j hj
      rw [Nat.add_right_comm]
      exact hios (j + 1) (Nat.succ_lt_succ hj)

theorem mem_insertByDomain (new : Mailbox) (groups : List (Str × List Mailbox)) :
    ∃ group ∈ insertByDomain new groups, new ∈ group.2 := by
  induction groups with
  | nil => exact ⟨(toAsciiLowercase new.domain, [new]), List.mem_cons_self, List.mem_cons_self⟩
  | cons first groups ih =>
    rw [insertByDomain]
    split
    · exact ⟨_, List.mem_cons_self, by simp⟩
    · split
      · exact ⟨_, List.mem_cons_self, by simp⟩
      · rcases ih with ⟨group, hgroup, hnew⟩
        exact ⟨group, List.mem_cons_of_mem _ hgroup, hnew⟩

theorem mem_insertByDomain_of_mem (new : Mailbox) {groups : List (Str × List Mailbox)}
    (h : ∃ group ∈ groups, rcpt ∈ group.2) :
    ∃ group ∈ insertByDomain new groups, rcpt ∈ group.2 := by
  induction groups with
  | nil =>
    rcases h with ⟨group, hgroup, -⟩
    cases hgroup
  | cons first groups ih =>
    rcases h with ⟨group, hgroup, hrcpt⟩
    rw [insertByDomain]
    split
    · rcases List.mem_cons.mp hgroup with rfl | hgroup
      · exact ⟨_, List.mem_cons_self, List.mem_append_left _ hrcpt⟩
      · exact ⟨group, List.mem_cons_of_mem _ hgroup, hrcpt⟩
    · split
      · exact ⟨group, List.mem_cons_of_mem _ hgroup, hrcpt⟩
      · rcases List.mem_cons.mp hgroup with rfl | hgroup
        · exact ⟨group, List.mem_cons_self, hrcpt⟩
        · rcases ih ⟨group, hgroup, hrcpt⟩ with ⟨g, hg, hr⟩
          exact ⟨g, List.mem_cons_of_mem _ hg, hr⟩

-- grouping loses no recipient
theorem mem_groupByDomain {rcpts : List Mailbox} (h : rcpt ∈ rcpts) :
    ∃ group ∈ groupByDomain rcpts, rcpt ∈ group.2 := by
  unfold groupByDomain
  induction rcpts using List.reverseRecOn with
  | nil => cases h
  | append_singleton rcpts last ih =>
    rw [List.foldl_append]
    rcases List.mem_append.mp h with h | h
    · exact mem_insertByDomain_of_mem last (ih h)
    · rw [List.mem_singleton.mp h]
      exact mem_insertByDomain last _

theorem store_enqueueGroups (w : World) (ios : Nat → EnqueueIo) (source : Message) (i : Nat)
    (groups : List (Str × List Mailbox)) :
    (w.enqueueGroups ios source i groups).store = w.store := by
  induction groups generalizing w i with
  | nil => rfl
  | cons group groups ih => exact ih _ _

end

/-! ## 2. `accept_inbound` -/

/-- A copy of the message is somewhere for the recipient. -/
def World.Keeps (w : World) (message : Message) (rcpt : Mailbox) : Prop :=
  (∃ copy, w.store.Has rcpt.toString copy ∧ copy.toBytes = message.toBytes) ∨
    ∃ id, w.Queued message rcpt id

-- those `Mta::accept_inbound` hands back
def Server.remote (server : Server) (message : Message) : List Mailbox :=
  message.envelope.recipients.filter fun rcpt => server.mta.route rcpt ≠ .local

/-- Nothing on the way fails: the filter does not reject what there is for local recipients, and
what there is for others finds a relay and a spool that can be written to. -/
structure Server.NothingFails (server : Server) (ios : Nat → EnqueueIo) (message : Message) :
    Prop where
  verdict : (∃ rcpt ∈ message.envelope.recipients, server.isLocal rcpt = true) →
    server.mta.filter
      (message.withRecipients (message.envelope.recipients.filter server.isLocal)) ≠ .reject
  relay : (∃ rcpt ∈ message.envelope.recipients, server.isLocal rcpt = false) →
    server.relay = true ∧
      ∀ i < (groupByDomain (server.remote message)).length, (ios i).fault = none

section
variable {server : Server} {w : World} {ios : Nat → EnqueueIo} {message : Message} {rcpt : Mailbox}
  {authorization : RelayAuthorization}

theorem relay_acceptInbound (server : Server) (s : MailStore) (message : Message) :
    (server.mta.acceptInbound s message).1.relay = server.remote message := by
  unfold Mta.acceptInbound
  simp only
  split
  · rfl
  · rfl

theorem store_acceptInbound (server : Server) (w : World) (ios : Nat → EnqueueIo)
    (message : Message) (authorization : RelayAuthorization) :
    (server.acceptInbound w ios message authorization).2.store =
      (server.mta.acceptInbound w.store message).2 := by
  unfold Server.acceptInbound
  simp only
  split
  · split
    · rfl
    · exact store_enqueueGroups _ _ _ _ _
  · rfl

theorem keeps_local (hverdict : server.mta.filter
      (message.withRecipients (message.envelope.recipients.filter server.isLocal)) ≠ .reject)
    (hrcpt : rcpt ∈ message.envelope.recipients) (hlocal : server.isLocal rcpt = true) :
    (server.acceptInbound w ios message authorization).2.Keeps message rcpt := by
  have hroute : server.mta.route rcpt = .local := of_decide_eq_true hlocal
  have hhas := Mta.has_acceptInbound (s := w.store) hrcpt hroute hverdict
  rw [← store_acceptInbound server w ios message authorization] at hhas
  exact Or.inl ⟨_, hhas, rfl⟩

theorem keeps_remote (hrelay : server.relay = true)
    (hios : ∀ i < (groupByDomain (server.remote message)).length, (ios i).fault = none)
    (hrcpt : rcpt ∈ message.envelope.recipients) (hremote : server.isLocal rcpt = false) :
    (server.acceptInbound w ios message .permitted).2.Keeps message rcpt := by
  have hmem : rcpt ∈ server.remote message := by
    apply List.mem_filter.mpr
    exact ⟨hrcpt, decide_eq_true (of_decide_eq_false hremote)⟩
  rcases mem_groupByDomain hmem with ⟨group, hgroup, hin⟩
  unfold Server.acceptInbound
  simp only
  rw [if_pos ⟨hrelay, trivial⟩, relay_acceptInbound, if_neg (List.ne_nil_of_mem hmem)]
  apply Or.inr
  apply exists_queued_enqueueGroups _ hgroup hin
  intro j hj
  rw [Nat.zero_add]
  exact hios j hj

/-- With nothing failing, every recipient's copy is kept. -/
theorem Server.NothingFails.keeps (h : server.NothingFails ios message)
    (hauth : ∀ rcpt ∈ message.envelope.recipients, server.isLocal rcpt = false →
      authorization = .permitted)
    (hrcpt : rcpt ∈ message.envelope.recipients) :
    (server.acceptInbound w ios message authorization).2.Keeps message rcpt := by
  cases hlocal : server.isLocal rcpt with
  | true => exact keeps_local (h.verdict ⟨rcpt, hrcpt, hlocal⟩) hrcpt hlocal
  | false =>
    rw [hauth rcpt hrcpt hlocal]
    have hrelay := h.relay ⟨rcpt, hrcpt, hlocal⟩
    exact keeps_remote hrelay.1 hrelay.2 hrcpt hlocal

-- without a relay, what is for nobody here leaves no trace
theorem acceptInbound_unrelayed (hrelay : server.relay = false)
    (hremote : ∀ rcpt ∈ message.envelope.recipients, server.isLocal rcpt = false) :
    (server.acceptInbound w ios message authorization).2 = w := by
  have hnone : (message.envelope.recipients.filter fun r => server.mta.route r = .local) = [] := by
    rw [List.filter_eq_nil_iff]
    intro rcpt hrcpt hlocal
    exact absurd hlocal (by simpa [Server.isLocal] using hremote rcpt hrcpt)
  unfold Server.acceptInbound Mta.acceptInbound
  simp only [hrelay, hnone]
  rfl

end

/-! ## 3. The reply -/

def refusals : List Str := [noRecipients, parseErrorReply, loopReply, spfReply, dmarcReply]

theorem readMessage_error {taken : Option Envelope} {collector : InboundCollector} {reply : Str}
    (h : readMessage taken collector = .error reply) : reply ∈ refusals := by
  unfold readMessage at h
  split at h
  · cases h
    simp [refusals]
  · split at h
    · cases h
      simp [refusals]
    · split at h
      · cases h
        simp [refusals]
      · cases h

theorem stamped_stampInbound (server : Server) (clocks : Clocks) (tls : Bool) (peer : IpAddr)
    (helo mailFrom : Str) (auth : InboundAuth) (m : Message) :
    Stamped m (server.stampInbound clocks tls peer helo mailFrom auth m) := by
  unfold Server.stampInbound
  simp only
  apply Stamped.prepend
  · cases auth.spf with
    | none => exact Stamped.refl.prepend (.authenticationResults _ none _ _ _ _)
    | some result =>
      apply Stamped.prepend
      · exact Stamped.refl.prepend (.authenticationResults _ (some result) _ _ _ _)
      · exact .receivedSpf result _ _ _ _
  · exact .received _ _ _ _ _

theorem stamped_stampSubmission (server : Server) (clocks : Clocks) (tls : Bool) (helo : Str)
    (m : Message) : Stamped m (server.stampSubmission clocks tls helo m) :=
  Stamped.refl.prepend (.received _ _ _ _ _)

section
variable {server : Server} {peer : IpAddr} {t : Turn} {collector : InboundCollector} {reply : Str}
  {message : Message}

theorem inboundMessage_error {c : InboundConn}
    (h : server.inboundMessage peer t c collector = .error reply) : reply ∈ refusals := by
  unfold Server.inboundMessage at h
  split at h
  · rename_i hread
    cases h
    exact readMessage_error hread
  · unfold Server.screenInbound at h
    simp only at h
    split at h
    · cases h
      simp [refusals]
    · split at h
      · cases h
        simp [refusals]
      · cases h

theorem inboundMessage_ok {c : InboundConn}
    (h : server.inboundMessage peer t c collector = .ok message) :
    ∃ envelope m, c.session.takeEnvelope.1 = some envelope ∧
      collector.intoMessage envelope = .ok m ∧ Stamped m message := by
  unfold Server.inboundMessage at h
  split at h
  · cases h
  · rename_i m hread
    rcases readMessage_ok hread with ⟨envelope, htaken, hinto, -⟩
    refine ⟨envelope, m, htaken, hinto, ?_⟩
    rw [screenInbound_ok h]
    exact stamped_stampInbound _ _ _ _ _ _ _ _

theorem submissionMessage_error {c : SubmissionConn}
    (h : server.submissionMessage t c collector = .error reply) : reply ∈ refusals := by
  unfold Server.submissionMessage at h
  split at h
  · rename_i hread
    cases h
    exact readMessage_error hread
  · cases h

theorem submissionMessage_ok {c : SubmissionConn}
    (h : server.submissionMessage t c collector = .ok message) :
    ∃ envelope m, c.session.smtp.takeEnvelope.1 = some envelope ∧
      collector.intoMessage envelope = .ok m ∧ Stamped m message := by
  unfold Server.submissionMessage at h
  split at h
  · cases h
  · rename_i m hread
    rcases readMessage_ok hread with ⟨envelope, htaken, hinto, -⟩
    cases h
    exact ⟨envelope, m, htaken, hinto, stamped_stampSubmission _ _ _ _ _⟩

end

section
variable {σ : Type} {server : Server} {t : Turn} {c : Conn σ}

-- in the DATA stream nothing but the end of data is answered with that reply
theorem iteration_of_sent {collector : InboundCollector} {finish : InboundCollector → Reaction σ}
    {command : Reaction σ} (hcollecting : c.collecting = some collector)
    (h : (iteration t c finish command).sent = [acceptedReply]) :
    iteration t c finish command = finish (collector.pushLine t.buf).2 := by
  have hlong : tooLongReply ≠ acceptedReply := by decide
  have hsize : oversizeReply ≠ acceptedReply := by decide
  unfold iteration at h ⊢
  rw [hcollecting] at h ⊢
  split at h
  · cases h
  · exact absurd (List.head_eq_of_cons_eq h) hlong
  · unfold dataLine at h ⊢
    simp only at h ⊢
    split at h
    · exact absurd (List.head_eq_of_cons_eq h) hsize
    · rename_i hfit
      rw [if_neg hfit]
      split at h
      · rename_i hdone
        rw [if_pos hdone]
      · cases h

theorem answer_of_sent {authorization : RelayAuthorization} {outcome : Except Str Message}
    (hrefused : ∀ reply, outcome = .error reply → reply ∈ refusals)
    (h : (answer server t c authorization outcome).sent = [acceptedReply]) :
    ∃ message, outcome = .ok message ∧ (answer server t c authorization outcome).world =
      (server.acceptInbound t.world t.ios message authorization).2 := by
  have hnot : acceptedReply ∉ refusals := by decide
  cases outcome with
  | ok message => exact ⟨message, rfl, rfl⟩
  | error reply =>
    have hreply : reply = acceptedReply := List.head_eq_of_cons_eq h
    rw [← hreply] at hnot
    exact absurd (hrefused reply rfl) hnot

end

-- what an acknowledgement tells about the iteration that sent it
theorem stepInbound_of_sent {server : Server} {peer : IpAddr} {t : Turn} {c : InboundConn}
    {collector : InboundCollector} (hcollecting : c.collecting = some collector)
    (hsent : (server.stepInbound peer t c).sent = [acceptedReply]) :
    ∃ message, server.inboundMessage peer t c (collector.pushLine t.buf).2 = .ok message ∧
      (server.stepInbound peer t c).world =
        (server.acceptInbound t.world t.ios message .forbidden).2 := by
  have hstep : server.stepInbound peer t c =
      server.finishInbound peer t c (collector.pushLine t.buf).2 :=
    iteration_of_sent hcollecting hsent
  rw [hstep] at hsent ⊢
  exact answer_of_sent (fun _ he => inboundMessage_error he) hsent

theorem stepSubmission_of_sent {server : Server} {peer : IpAddr} {t : Turn} {c : SubmissionConn}
    {collector : InboundCollector} (hcollecting : c.collecting = some collector)
    (hsent : (server.stepSubmission peer t c).sent = [acceptedReply]) :
    ∃ message, server.submissionMessage t c (collector.pushLine t.buf).2 = .ok message ∧
      (server.stepSubmission peer t c).world =
        (server.acceptInbound t.world t.ios message .permitted).2 := by
  have hstep : server.stepSubmission peer t c =
      server.finishSubmission t c (collector.pushLine t.buf).2 :=
    iteration_of_sent hcollecting hsent
  rw [hstep] at hsent ⊢
  exact answer_of_sent (fun _ he => submissionMessage_error he) hsent

theorem envelope_of_stamped {collector : InboundCollector} {envelope : Envelope}
    {m message : Message}
    (hinto : collector.intoMessage envelope = .ok m) (hstamped : Stamped m message) :
    message.envelope = envelope :=
  hstamped.envelope.trans (Message.toBytes_parse hinto).2

/-! ## 4. Accepted mail -/

/-- In every run of either loop, a message acknowledged at the end of data is kept for each of its
recipients if nothing fails on the way. -/
theorem accepted_mail_is_kept (server : Server) (peer : IpAddr) (turns : List Turn) (t : Turn) :
    (∀ c collector, server.runInbound peer turns = some c → c.collecting = some collector →
      (server.stepInbound peer t c).sent = [acceptedReply] →
      ∃ envelope m message, c.session.takeEnvelope.1 = some envelope ∧
        (collector.pushLine t.buf).2.intoMessage envelope = .ok m ∧ Stamped m message ∧
        server.inboundMessage peer t c (collector.pushLine t.buf).2 = .ok message ∧
        (server.NothingFails t.ios message →
          ∀ rcpt ∈ envelope.recipients, (server.stepInbound peer t c).world.Keeps message rcpt)) ∧
    (∀ c collector, server.runSubmission peer turns = some c → c.collecting = some collector →
      (server.stepSubmission peer t c).sent = [acceptedReply] →
      ∃ envelope m message, c.session.smtp.takeEnvelope.1 = some envelope ∧
        (collector.pushLine t.buf).2.intoMessage envelope = .ok m ∧ Stamped m message ∧
        server.submissionMessage t c (collector.pushLine t.buf).2 = .ok message ∧
        (server.NothingFails t.ios message →
          ∀ rcpt ∈ envelope.recipients,
            (server.stepSubmission peer t c).world.Keeps message rcpt)) := by
  apply And.intro
  · intro c collector hrun hcollecting hsent
    rcases stepInbound_of_sent hcollecting hsent with ⟨message, hok, hworld⟩
    rcases inboundMessage_ok hok with ⟨envelope, m, htaken, hinto, hstamped⟩
    have henvelope := envelope_of_stamped hinto hstamped
    refine ⟨envelope, m, message, htaken, hinto, hstamped, hok, ?_⟩
    intro hnothing rcpt hrcpt
    rw [← henvelope] at hrcpt
    rw [hworld]
    apply hnothing.keeps _ hrcpt
    -- no recipient needs the relay here
    intro other hother hremote
    rw [henvelope, SmtpSession.takeEnvelope_eq_some htaken] at hother
    rw [Server.isLocal_of_runInbound hrun other hother] at hremote
    cases hremote
  · intro c collector _ hcollecting hsent
    rcases stepSubmission_of_sent hcollecting hsent with ⟨message, hok, hworld⟩
    rcases submissionMessage_ok hok with ⟨envelope, m, htaken, hinto, hstamped⟩
    refine ⟨envelope, m, message, htaken, hinto, hstamped, hok, ?_⟩
    intro hnothing rcpt hrcpt
    rw [← envelope_of_stamped hinto hstamped] at hrcpt
    rw [hworld]
    exact hnothing.keeps (fun _ _ _ => rfl) hrcpt

/-! ### A server without a relay -/

def World.empty : World := ⟨.empty, ∅, 0, ∅, ∅⟩

-- one account; `AGFAeS5vcmcAcHc=` is the base64 text of its PLAIN response
def lonelyServer : Server :=
  { tableServer with
    auth :=
      ⟨fun user password => user = "a@y.org".toList ∧ password = "pw".toList,
        fun text => if text = ascii "AGFAeS5vcmcAcHc=" then
          some (0 :: ascii "a@y.org" ++ 0 :: ascii "pw") else none⟩ }

def lineTurn (line : String) : Turn where
  read := .read
  buf := ascii line
  buffered := false
  handshake := false
  clocks := ⟨.unixEpoch, .unixEpoch, .unixEpoch⟩
  now := .unixEpoch
  later := .unixEpoch
  ios _ := ⟨0, .unixEpoch, none⟩
  world := .empty

-- a login and a message up to its last line, for the recipient named in `rcpt`
def submissionTurns (rcpt : String) : List Turn :=
  ["EHLO x\r\n", "AUTH PLAIN AGFAeS5vcmcAcHc=\r\n", "MAIL FROM:<a@y.org>\r\n", rcpt, "DATA\r\n",
    "Subject: hi\r\n", "\r\n"].map lineTurn

def endOfData : Turn := lineTurn ".\r\n"

-- the recipients at the end of data, and the answer to it
def submitted (rcpt : String) : Option (Bool × List Mailbox × List Str) :=
  (lonelyServer.runSubmission (.v4 0) (submissionTurns rcpt)).map fun c =>
    (c.collecting.isSome, c.session.smtp.recipients,
      (lonelyServer.stepSubmission (.v4 0) endOfData c).sent)

theorem eval_submitted :
    submitted "RCPT TO:<b@y.org>\r\n" =
        some (true, [⟨"b".toList, "y.org".toList⟩], [acceptedReply]) ∧
      submitted "RCPT TO:<b@z.org>\r\n" =
        some (true, [⟨"b".toList, "z.org".toList⟩], [acceptedReply]) := by
  decide +kernel

theorem run_of_submitted {rcpt : String} {box : Mailbox}
    (h : submitted rcpt = some (true, [box], [acceptedReply])) :
    ∃ c collector,
      lonelyServer.runSubmission (.v4 0) (submissionTurns rcpt) = some c ∧
      c.collecting = some collector ∧
      c.session.smtp.takeEnvelope.1 = some ⟨c.session.smtp.sender, [box]⟩ ∧
      (lonelyServer.stepSubmission (.v4 0) endOfData c).sent = [acceptedReply] := by
  rcases Option.map_eq_some_iff.mp h with ⟨c, hrun, hc⟩
  simp only [Prod.mk.injEq] at hc
  rcases hc with ⟨hcollecting, hrcpts, hsent⟩
  rcases Option.isSome_iff_exists.mp hcollecting with ⟨collector, hcollector⟩
  refine ⟨c, collector, hrun, hcollector, ?_, hsent⟩
  unfold SmtpSession.takeEnvelope
  rw [hrcpts]
  rfl

-- the message for the colleague is kept
theorem accepted_mail_is_kept_for_colleague :
    ∃ c message,
      lonelyServer.runSubmission (.v4 0) (submissionTurns "RCPT TO:<b@y.org>\r\n") = some c ∧
      (lonelyServer.stepSubmission (.v4 0) endOfData c).sent = [acceptedReply] ∧
      (lonelyServer.stepSubmission (.v4 0) endOfData c).world.Keeps message
        ⟨"b".toList, "y.org".toList⟩ := by
  rcases run_of_submitted eval_submitted.1 with ⟨c, collector, hrun, hcollecting, htaken, hsent⟩
  rcases (accepted_mail_is_kept lonelyServer (.v4 0) _ endOfData).2 c collector hrun hcollecting
    hsent with ⟨envelope, m, message, htaken', hinto, hstamped, -, hkeeps⟩
  have henvelope := envelope_of_stamped hinto hstamped
  rw [htaken] at htaken'
  cases htaken'
  refine ⟨c, message, hrun, hsent, hkeeps ⟨?_, ?_⟩ _ List.mem_cons_self⟩
  · intro _ hverdict
    cases hverdict
  · rintro ⟨rcpt, hrcpt, hremote⟩
    rw [henvelope] at hrcpt
    rw [List.mem_singleton.mp hrcpt] at hremote
    exact absurd hremote (by decide)

-- the one for a stranger is acknowledged and gone
theorem accepted_mail_lost_without_relay :
    ∃ (server : Server) (peer : IpAddr) (turns : List Turn) (t : Turn) (c : SubmissionConn)
      (collector : InboundCollector) (envelope : Envelope) (rcpt : Mailbox),
      server.runSubmission peer turns = some c ∧ c.collecting = some collector ∧
      (server.stepSubmission peer t c).sent = [acceptedReply] ∧
      c.session.smtp.takeEnvelope.1 = some envelope ∧ rcpt ∈ envelope.recipients ∧
      ∀ message, ¬ (server.stepSubmission peer t c).world.Keeps message rcpt := by
  rcases run_of_submitted eval_submitted.2 with ⟨c, collector, hrun, hcollecting, htaken, hsent⟩
  refine ⟨lonelyServer, .v4 0, _, endOfData, c, collector, _, _, hrun, hcollecting, hsent, htaken,
    List.mem_cons_self, ?_⟩
  rcases stepSubmission_of_sent hcollecting hsent with ⟨sent, hok, hworld⟩
  rcases submissionMessage_ok hok with ⟨envelope, m, htaken', hinto, hstamped⟩
  have henvelope := envelope_of_stamped hinto hstamped
  rw [htaken] at htaken'
  cases htaken'
  have hremote : ∀ rcpt ∈ sent.envelope.recipients, lonelyServer.isLocal rcpt = false := by
    intro rcpt hrcpt
    rw [henvelope] at hrcpt
    rw [List.mem_singleton.mp hrcpt]
    decide
  rw [hworld, acceptInbound_unrelayed rfl hremote]
  rintro message (⟨copy, ⟨stored, hstored, -⟩, -⟩ | ⟨id, hqueued⟩)
  · cases hstored
  · cases hqueued.eml

end Snail.Server
