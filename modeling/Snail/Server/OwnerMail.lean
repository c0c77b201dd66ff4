import Snail.Access.Isolation
import Snail.Access.Pop
import Snail.Server.PublicPort

/-!
# OwnerMail — what a user finds of the mail delivered for them

Acceptance compares domains without their case; the store and the two access protocols have printed
addresses as keys.
-/

set_option linter.dupNamespace false

open Snail.Reasoning Snail.Mail Snail.Access

namespace Snail.Server

/-! ## 1. Opening the inbox -/

/-- The messages that a session of `user` obtains from the store: those of a `PASS` that POP3
answers with success, or those of a `SELECT` of `INBOX` behind an IMAP login. -/
inductive Opens (check : Str → Str → Bool) (store : MailStore) (user : Str) :
    List StoredMessage → Prop where
  | pop (s : Pop3Session) (password : Str) (hpending : s.pendingUser = some user)
      (hok : (s.handle check store (.pass password)).1.ok = true) :
      Opens check store user (s.handle check store (.pass password)).2.1.messages
  | imap (s : ImapSession) (tag name : Str) (huser : s.user = some user)
      (hstate : s.state ≠ .notAuthenticated) (hname : eqIgnoreAsciiCase name inbox = true) :
      Opens check store user (s.handle check store ⟨tag, .select name⟩).2.selected

section
variable {check : Str → Str → Bool} {store : MailStore} {user : Str}

theorem messages_of_pass {s : Pop3Session} {password : Str} (hpending : s.pendingUser = some user)
    (hok : (s.handle check store (.pass password)).1.ok = true) :
    (s.handle check store (.pass password)).2.1.messages = store.list user := by
  cases hstate : s.state with
  | authorization =>
    simp only [Pop3Session.handle, hstate, hpending] at hok ⊢
    by_cases htls : s.needsTls = true
    · rw [if_pos htls] at hok
      cases hok
    · rw [if_neg htls] at hok ⊢
      by_cases hcheck : check user password = true
      · rw [if_pos hcheck]
      · rw [if_neg hcheck] at hok
        cases hok
  | transaction =>
    simp only [Pop3Session.handle, hstate] at hok
    cases hok
  | closed =>
    simp only [Pop3Session.handle, hstate] at hok
    cases hok

theorem selected_of_select {s : ImapSession} {tag name : Str} (huser : s.user = some user)
    (hstate : s.state ≠ .notAuthenticated) (hname : eqIgnoreAsciiCase name inbox = true) :
    (s.handle check store ⟨tag, .select name⟩).2.selected = store.list user := by
  simp only [ImapSession.handle, if_neg hstate, ImapSession.handleAuthenticated, huser]
  rw [mailboxKey_eq_self_iff.mpr hname]

theorem Opens.eq_list {ms : List StoredMessage} (h : Opens check store user ms) :
    ms = store.list user := by
  cases h with
  | pop s password hpending hok => exact messages_of_pass hpending hok
  | imap s tag name huser hstate hname => exact selected_of_select huser hstate hname

-- a registered user gets there
theorem opens_of_check {password : Str} (h : check user password = true) :
    ∃ ms, Opens check store user ms :=
  ⟨_, .pop { Pop3Session.new with pendingUser := some user } password rfl (by
    simp only [Pop3Session.handle, Pop3Session.new, Pop3Session.needsTls, h]
    rfl)⟩

end

/-! ## 2. Later deliveries -/

def deliverEach (s : MailStore) (later : List (Str × Message)) : MailStore :=
  later.foldl (fun s d => (s.deliver d.1 d.2).2) s

-- they come behind what is there, under new ids
theorem mailboxes_deliverEach (s : MailStore) (later : List (Str × Message)) (box : Str) :
    ∃ more, (deliverEach s later).mailboxes box = s.mailboxes box ++ more ∧
      ∀ m ∈ more, s.nextId < m.id := by
  induction later generalizing s with
  | nil => exact ⟨[], (List.append_nil _).symm, by simp⟩
  | cons d later ih =>
    obtain ⟨more, hmore, hids⟩ := ih (s.deliver d.1 d.2).2
    have hnew : ∀ m ∈ more, s.nextId < m.id := by
      intro m hm
      have hlt : s.nextId + 1 < m.id := hids m hm
      omega
    have hbox : (s.deliver d.1 d.2).2.mailboxes box =
        if box = d.1 then s.mailboxes box ++ [⟨s.nextId + 1, d.2⟩] else s.mailboxes box := rfl
    change ∃ more, (deliverEach (s.deliver d.1 d.2).2 later).mailboxes box = _ ∧ _
    rw [hmore, hbox]
    split
    · refine ⟨⟨s.nextId + 1, d.2⟩ :: more, List.append_assoc _ _ _, ?_⟩
      intro m hm
      rcases List.mem_cons.mp hm with rfl | hm
      · exact Nat.lt_succ_self _
      · exact hnew m hm
    · exact ⟨more, rfl, hnew⟩

/-! ## 3. Finding a copy -/

theorem nextId_deliverAll (s : MailStore) (message : Message) (rcpts : List Mailbox) :
    (s.deliverAll message rcpts).nextId = s.nextId + rcpts.length := by
  induction rcpts generalizing s with
  | nil => rfl
  | cons rcpt rest ih =>
    rw [MailStore.deliverAll, ih, List.length_cons]
    show s.nextId + 1 + rest.length = _
    omega

/-- The copy of the `k`th delivery lies under its recipient's address and under no other. -/
theorem mem_list_iff {s : MailStore} {message : Message} {rcpts : List Mailbox} {k : Nat}
    {rcpt : Mailbox} (hk : rcpts[k]? = some rcpt) (later : List (Str × Message)) (box : Str) :
    (⟨s.nextId + k + 1, message⟩ : StoredMessage) ∈
        (deliverEach (s.deliverAll message rcpts) later).list box ↔ rcpt.toString = box := by
  obtain ⟨more, hmore, hids⟩ := mailboxes_deliverEach (s.deliverAll message rcpts) later box
  have hlt : k < rcpts.length := (List.getElem?_eq_some_iff.mp hk).1
  rw [MailStore.list, hmore, MailStore.mailboxes_deliverAll, List.mem_append, List.mem_append,
    mem_copies_iff]
  apply Iff.intro
  · rintro ((hold | ⟨k', rcpt', hk', hbox, hsame⟩) | hlater)
    · -- the ids of the old messages are smaller
      have hle : s.nextId + k + 1 ≤ s.nextId := s.issued box _ hold
      omega
    · have hid : s.nextId + k + 1 = s.nextId + k' + 1 := congrArg StoredMessage.id hsame
      have hkk : k' = k := by omega
      rw [hkk, hk] at hk'
      cases hk'
      exact hbox
    · have hgt := hids _ hlater
      rw [nextId_deliverAll] at hgt
      change s.nextId + rcpts.length < s.nextId + k + 1 at hgt
      omega
  · intro hbox
    exact .inl (.inr ⟨k, rcpt, hk, hbox, rfl⟩)

theorem toString_eq_iff {u r : Mailbox} (h : r.localPart = u.localPart) :
    r.toString = u.toString ↔ r.domain = u.domain := by
  unfold Mailbox.toString
  rw [h]
  exact ⟨fun hs => List.cons_inj_right _ |>.mp (List.append_cancel_left hs), fun hd => by rw [hd]⟩

/-- Whether owners find their mail.  A registered user can open the inbox, and what they then get
has the copy that `serve_inbound` delivered for a recipient with their local part exactly when the
recipient's domain is spelled as the user's, in case too. -/
theorem owner_reads_mail_iff (server : Server) (peer : IpAddr) (t : Turn) (c : InboundConn)
    (message : Message) (hhanded : server.handedInbound peer t c = some message) (u r : Mailbox)
    (hregistered : Registered server.auth.check u.toString) (hlocal : r.localPart = u.localPart)
    (k : Nat) (hdelivered : (server.mta.deliveries message)[k]? = some r)
    (later : List (Str × Message)) :
    let store := deliverEach (server.stepInbound peer t c).world.store later
    (∃ ms, Opens server.auth.check store u.toString ms) ∧
      ∀ ms, Opens server.auth.check store u.toString ms →
        ((⟨t.world.store.nextId + k + 1, message.withRecipients (server.mta.here message)⟩ :
          StoredMessage) ∈ ms ↔ r.domain = u.domain) := by
  intro store
  obtain ⟨password, hpassword⟩ := hregistered
  refine ⟨opens_of_check hpassword, ?_⟩
  intro ms hms
  have hstore : store = deliverEach
      (t.world.store.deliverAll (message.withRecipients (server.mta.here message))
        (server.mta.deliveries message)) later := by
    show deliverEach (server.stepInbound peer t c).world.store later = _
    rw [stepInbound_of_handed hhanded, ← Mta.store_acceptInbound]
  rw [hms.eq_list, hstore, mem_list_iff hdelivered]
  exact toString_eq_iff hlocal

/-! ### A login and its spellings -/

def ownerServer : Server := { publicServer with auth := lonelyServer.auth }

def ownerTurns (rcpt : String) : List Turn :=
  ["EHLO x\r\n", "MAIL FROM:<>\r\n", rcpt, "DATA\r\n", "Subject: hi\r\n", "\r\n"].map lineTurn

def owner : Mailbox := ⟨"a".toList, "y.org".toList⟩

-- who is delivered to, the answer, and how much the owner's mailbox has afterwards
def ownerMail (rcpt : String) : Option (Option (List Mailbox) × List Str × Nat) :=
  (ownerServer.runInbound (.v4 0) (ownerTurns rcpt)).map fun c =>
    ((ownerServer.handedInbound (.v4 0) endOfData c).map ownerServer.mta.deliveries,
      (ownerServer.stepInbound (.v4 0) endOfData c).sent,
      ((ownerServer.stepInbound (.v4 0) endOfData c).world.store.list owner.toString).length)

theorem eval_ownerMail :
    ownerMail "RCPT TO:<a@y.org>\r\n" = some (some [owner], [acceptedReply], 1) ∧
    ownerMail "RCPT TO:<a@Y.org>\r\n" =
      some (some [⟨"a".toList, "Y.org".toList⟩], [acceptedReply], 0) := by
  decide +kernel

theorem registered_owner : Registered ownerServer.auth.check owner.toString :=
  ⟨"pw".toList, by decide⟩

theorem of_ownerMail {rcpt : String} {rcpts : List Mailbox} {sent : List Str} {n : Nat}
    (h : ownerMail rcpt = some (some rcpts, sent, n)) :
    ∃ c message, ownerServer.runInbound (.v4 0) (ownerTurns rcpt) = some c ∧
      ownerServer.handedInbound (.v4 0) endOfData c = some message ∧
      ownerServer.mta.deliveries message = rcpts ∧
      (ownerServer.stepInbound (.v4 0) endOfData c).sent = sent ∧
      ((ownerServer.stepInbound (.v4 0) endOfData c).world.store.list owner.toString).length =
        n := by
  obtain ⟨c, hc, h⟩ := Option.map_eq_some_iff.mp h
  obtain ⟨hdeliveries, hrest⟩ := Prod.mk.inj h
  obtain ⟨hsent, hlength⟩ := Prod.mk.inj hrest
  obtain ⟨message, hmessage, hrcpts⟩ := Option.map_eq_some_iff.mp hdeliveries
  exact ⟨c, message, hc, hmessage, hrcpts, hsent, hlength⟩

theorem owner_reads_mail_iff_same_spelling :
    ∃ c message, ownerServer.runInbound (.v4 0) (ownerTurns "RCPT TO:<a@y.org>\r\n") = some c ∧
      ∀ ms, Opens ownerServer.auth.check
        (deliverEach (ownerServer.stepInbound (.v4 0) endOfData c).world.store []) owner.toString
        ms → (⟨1, message⟩ : StoredMessage) ∈ ms := by
  obtain ⟨c, message, hrun, hhanded, hdeliveries, -, -⟩ := of_ownerMail eval_ownerMail.1
  have hread := owner_reads_mail_iff ownerServer (.v4 0) endOfData c message hhanded owner owner
    registered_owner rfl 0 (by rw [hdeliveries]; rfl) []
  exact ⟨c, _, hrun, fun ms hms => (hread.2 ms hms).mpr rfl⟩

/-- A message for `a@Y.org` is accepted and delivered, and `a@y.org` finds nothing. -/
theorem owner_misses_other_spelling :
    toAsciiLowercase "Y.org".toList = toAsciiLowercase owner.domain ∧
    toAsciiLowercase owner.domain ∈ ownerServer.mta.localDomains ∧
    Registered ownerServer.auth.check owner.toString ∧
    ∃ c message, ownerServer.runInbound (.v4 0) (ownerTurns "RCPT TO:<a@Y.org>\r\n") = some c ∧
      ownerServer.handedInbound (.v4 0) endOfData c = some message ∧
      ownerServer.mta.deliveries message = [⟨owner.localPart, "Y.org".toList⟩] ∧
      (ownerServer.stepInbound (.v4 0) endOfData c).sent = [acceptedReply] ∧
      (∃ ms, Opens ownerServer.auth.check (ownerServer.stepInbound (.v4 0) endOfData c).world.store
        owner.toString ms) ∧
      ∀ ms, Opens ownerServer.auth.check (ownerServer.stepInbound (.v4 0) endOfData c).world.store
        owner.toString ms → ms = [] := by
  obtain ⟨c, message, hrun, hhanded, hdeliveries, hsent, hlength⟩ := of_ownerMail eval_ownerMail.2
  refine ⟨by decide, by decide, registered_owner, c, message, hrun, hhanded, hdeliveries, hsent,
    opens_of_check registered_owner.choose_spec, ?_⟩
  intro ms hms
  rw [hms.eq_list]
  exact List.length_eq_zero_iff.mp hlength

end Snail.Server
