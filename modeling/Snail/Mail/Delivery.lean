import Mathlib.Data.List.Nodup
import Snail.Mail.Message

/-!
# Delivery — the mail store, the delivery agent and routing

`storage/store.rs`, `storage/mda.rs` and `transport/mta.rs` of `crates/mail`.
-/

open Snail.Reasoning

namespace Snail.Mail

/-! ## 1. The store -/

structure StoredMessage where
  id : Nat
  message : Message
  deriving DecidableEq, Repr

/-- `MemoryMailStore`: the mailboxes by address, none of them ever unknown.  Ids are handed out once
for the whole store; the `u64` that counts them is unbounded here. -/
structure MailStore where
  nextId : Nat
  mailboxes : Str → List StoredMessage
  issued : ∀ box, ∀ m ∈ mailboxes box, m.id ≤ nextId
  distinct : ∀ box, ((mailboxes box).map StoredMessage.id).Nodup

def MailStore.empty : MailStore where
  nextId := 0
  mailboxes _ := []
  issued := by simp
  distinct := by simp

theorem nodup_deliver {l : List StoredMessage} {n : Nat} {message : Message}
    (hd : (l.map StoredMessage.id).Nodup) (hi : ∀ m ∈ l, m.id ≤ n) :
    ((l ++ [StoredMessage.mk (n + 1) message]).map StoredMessage.id).Nodup := by
  rw [List.map_append, List.map_singleton, List.nodup_append]
  refine ⟨hd, by simp, ?_⟩
  intro i hmem j hj
  rcases List.mem_map.mp hmem with ⟨m, hm, rfl⟩
  have hle := hi m hm
  rw [List.mem_singleton.mp hj]
  show m.id ≠ n + 1
  omega

-- the id is returned along with the new store
def MailStore.deliver (s : MailStore) (mailbox : Str) (message : Message) : Nat × MailStore :=
  (s.nextId + 1,
    { nextId := s.nextId + 1
      mailboxes := fun box =>
        if box = mailbox then s.mailboxes box ++ [⟨s.nextId + 1, message⟩] else s.mailboxes box
      issued := by
        intro box m hm
        have hold := s.issued box
        split at hm
        · rcases List.mem_append.mp hm with hm | hm
          · exact Nat.le_succ_of_le (hold m hm)
          · rw [List.mem_singleton.mp hm]
        · exact Nat.le_succ_of_le (hold m hm)
      distinct := by
        intro box
        split
        · exact nodup_deliver (s.distinct box) (s.issued box)
        · exact s.distinct box })

def MailStore.list (s : MailStore) (mailbox : Str) : List StoredMessage := s.mailboxes mailbox

def MailStore.count (s : MailStore) (mailbox : Str) : Nat := (s.mailboxes mailbox).length

def MailStore.remove (s : MailStore) (mailbox : Str) (id : Nat) : Bool × MailStore :=
  ((s.mailboxes mailbox).any (fun m => m.id = id),
    { s with
      mailboxes := fun box =>
        if box = mailbox then (s.mailboxes box).filter (fun m => m.id ≠ id) else s.mailboxes box
      issued := by
        intro box m hm
        split at hm
        · exact s.issued box m (List.mem_filter.mp hm).1
        · exact s.issued box m hm
      distinct := by
        intro box
        split
        · exact (s.distinct box).sublist (List.filter_sublist.map _)
        · exact s.distinct box })

/-! ## 2. The delivery agent -/

inductive DeliveryOutcome where
  | delivered (recipients : Nat) (flagged : Bool)
  | rejected
  deriving DecidableEq, Repr

-- the loop of `deliver` over the recipients
def MailStore.deliverAll (s : MailStore) (message : Message) : List Mailbox → MailStore
  | [] => s
  | rcpt :: rest => (s.deliver rcpt.toString message).2.deliverAll message rest

/-- `MailDeliveryAgent::deliver`. -/
def mdaDeliver (filter : MessageFilter) (s : MailStore) (message : Message) :
    DeliveryOutcome × MailStore :=
  match filter message with
  | .reject => (.rejected, s)
  | .flag => (.delivered message.envelope.recipients.length true,
      s.deliverAll message message.envelope.recipients)
  | .accept => (.delivered message.envelope.recipients.length false,
      s.deliverAll message message.envelope.recipients)

/-! ## 3. Routing -/

inductive Route where
  | «local»
  | relay
  deriving DecidableEq, Repr

structure InboundResult where
  «local» : Option DeliveryOutcome
  relay : List Mailbox
  deriving DecidableEq, Repr

-- the configured domains are kept in lower case
structure Mta where
  localDomains : List Str
  filter : MessageFilter

def Mta.new (filter : MessageFilter) (localDomains : List Str) : Mta :=
  ⟨localDomains.map toAsciiLowercase, filter⟩

def Mta.route (mta : Mta) (mailbox : Mailbox) : Route :=
  if toAsciiLowercase mailbox.domain ∈ mta.localDomains then .local else .relay

def Message.withRecipients (m : Message) (recipients : List Mailbox) : Message :=
  { m with envelope := ⟨m.envelope.sender, recipients⟩ }

theorem Message.withRecipients_self {m : Message} {recipients : List Mailbox}
    (h : m.envelope.recipients = recipients) : m.withRecipients recipients = m := by
  rw [← h]
  rfl

/-- `Mta::accept_inbound`. -/
def Mta.acceptInbound (mta : Mta) (s : MailStore) (message : Message) : InboundResult × MailStore :=
  let here := message.envelope.recipients.filter fun r => mta.route r = .local
  let relay := message.envelope.recipients.filter fun r => mta.route r ≠ .local
  if here = [] then (⟨none, relay⟩, s)
  else
    let r := mdaDeliver mta.filter s (message.withRecipients here)
    (⟨some r.1, relay⟩, r.2)

/-! ## 4. What delivery leaves in the store -/

-- nothing is taken away
def MailStore.Extends (s' s : MailStore) : Prop := ∀ box, s.mailboxes box <+: s'.mailboxes box

theorem MailStore.Extends.refl (s : MailStore) : s.Extends s := fun _ => List.prefix_rfl

theorem MailStore.Extends.trans {s s' s'' : MailStore} (h : s'.Extends s) (h' : s''.Extends s') :
    s''.Extends s := fun box => (h box).trans (h' box)

theorem MailStore.extends_deliver (s : MailStore) (mailbox : Str) (message : Message) :
    (s.deliver mailbox message).2.Extends s := by
  intro box
  show _ <+: if box = mailbox then _ else _
  split
  · exact List.prefix_append _ _
  · exact List.prefix_rfl

theorem MailStore.extends_deliverAll (s : MailStore) (message : Message) (rcpts : List Mailbox) :
    (s.deliverAll message rcpts).Extends s := by
  induction rcpts generalizing s with
  | nil => exact Extends.refl s
  | cons rcpt rest ih => exact (s.extends_deliver rcpt.toString message).trans (ih _)

-- a copy of the message lies in the mailbox
def MailStore.Has (s : MailStore) (mailbox : Str) (message : Message) : Prop :=
  ∃ stored ∈ s.mailboxes mailbox, stored.message = message

theorem MailStore.Extends.has {s s' : MailStore} {mailbox : Str} {message : Message}
    (h : s'.Extends s) (hs : s.Has mailbox message) : s'.Has mailbox message := by
  rcases hs with ⟨stored, hmem, hm⟩
  exact ⟨stored, (h mailbox).subset hmem, hm⟩

theorem MailStore.has_deliver (s : MailStore) (mailbox : Str) (message : Message) :
    (s.deliver mailbox message).2.Has mailbox message := by
  refine ⟨⟨s.nextId + 1, message⟩, ?_, rfl⟩
  show _ ∈ if mailbox = mailbox then _ else _
  rw [if_pos rfl]
  simp

theorem MailStore.has_deliverAll {s : MailStore} {message : Message} {rcpts : List Mailbox}
    {rcpt : Mailbox} (h : rcpt ∈ rcpts) :
    (s.deliverAll message rcpts).Has rcpt.toString message := by
  induction rcpts generalizing s with
  | nil => cases h
  | cons first rest ih =>
    rcases List.mem_cons.mp h with rfl | h
    · exact (extends_deliverAll _ message rest).has (s.has_deliver rcpt.toString message)
    · exact ih h

theorem mdaDeliver_reject {filter : MessageFilter} {s : MailStore} {message : Message}
    (h : filter message = .reject) : mdaDeliver filter s message = (.rejected, s) := by
  unfold mdaDeliver
  rw [h]

-- a verdict other than reject stores a copy for every recipient
theorem mdaDeliver_store {filter : MessageFilter} {s : MailStore} {message : Message}
    (h : filter message ≠ .reject) :
    (mdaDeliver filter s message).2 = s.deliverAll message message.envelope.recipients := by
  unfold mdaDeliver
  cases hv : filter message with
  | reject => exact absurd hv h
  | flag => rfl
  | accept => rfl

/-- Unless the filter rejects it, every local recipient gets a copy. -/
theorem Mta.has_acceptInbound {mta : Mta} {s : MailStore} {message : Message} {rcpt : Mailbox}
    (hmem : rcpt ∈ message.envelope.recipients) (hlocal : mta.route rcpt = .local)
    (hverdict : mta.filter (message.withRecipients
      (message.envelope.recipients.filter fun r => mta.route r = .local)) ≠ .reject) :
    (mta.acceptInbound s message).2.Has rcpt.toString (message.withRecipients
      (message.envelope.recipients.filter fun r => mta.route r = .local)) := by
  have hhere : rcpt ∈ message.envelope.recipients.filter fun r => mta.route r = .local := by
    rw [List.mem_filter]
    exact ⟨hmem, by simpa using hlocal⟩
  have hne : (message.envelope.recipients.filter fun r => mta.route r = .local) ≠ [] :=
    List.ne_nil_of_mem hhere
  unfold Mta.acceptInbound
  simp only
  rw [if_neg hne]
  simp only
  rw [mdaDeliver_store hverdict]
  exact MailStore.has_deliverAll hhere

/-! ## 5. Where deliveries go -/

def Mta.here (mta : Mta) (message : Message) : List Mailbox :=
  message.envelope.recipients.filter fun r => mta.route r = .local

-- the recipients that `accept_inbound` calls `store.deliver` for, in order
def Mta.deliveries (mta : Mta) (message : Message) : List Mailbox :=
  if mta.filter (message.withRecipients (mta.here message)) = .reject then []
  else mta.here message

theorem Mta.deliveries_of_not_reject {mta : Mta} {message : Message}
    (h : mta.here message ≠ [] →
      mta.filter (message.withRecipients (mta.here message)) ≠ .reject) :
    mta.deliveries message = mta.here message := by
  unfold Mta.deliveries
  split
  · rename_i hreject
    by_contra hne
    exact h (Ne.symm hne) hreject
  · rfl

theorem Mta.store_acceptInbound (mta : Mta) (s : MailStore) (message : Message) :
    (mta.acceptInbound s message).2 =
      s.deliverAll (message.withRecipients (mta.here message)) (mta.deliveries message) := by
  unfold Mta.acceptInbound Mta.deliveries
  simp only
  by_cases hhere : mta.here message = []
  · rw [if_pos (show List.filter _ _ = [] from hhere), hhere, ite_self]
    rfl
  · rw [if_neg (show ¬ List.filter _ _ = [] from hhere)]
    change (mdaDeliver mta.filter s (message.withRecipients (mta.here message))).2 = _
    by_cases hreject : mta.filter (message.withRecipients (mta.here message)) = .reject
    · rw [if_pos hreject, mdaDeliver_reject hreject]
      rfl
    · rw [if_neg hreject, mdaDeliver_store hreject]
      rfl

theorem Mta.route_of_mem_deliveries {mta : Mta} {message : Message} {rcpt : Mailbox}
    (h : rcpt ∈ mta.deliveries message) : mta.route rcpt = .local := by
  unfold Mta.deliveries at h
  split at h
  · cases h
  · simpa using (List.mem_filter.mp h).2

theorem Mta.route_new_eq_local_iff {filter : MessageFilter} {localDomains : List Str}
    {mailbox : Mailbox} :
    (Mta.new filter localDomains).route mailbox = .local ↔
      toAsciiLowercase mailbox.domain ∈ localDomains.map toAsciiLowercase := by
  unfold Mta.route Mta.new
  split
  · rename_i h
    exact ⟨fun _ => h, fun _ => rfl⟩
  · rename_i h
    exact ⟨fun hr => (by cases hr), fun hm => absurd hm h⟩

/-! ## 6. The copies of a delivery -/

-- what the loop of `deliver` appends to one mailbox; the ids are the next ones
def copies (box : Str) (message : Message) : Nat → List Mailbox → List StoredMessage
  | _, [] => []
  | n, rcpt :: rest =>
      (if rcpt.toString = box then [⟨n + 1, message⟩] else []) ++ copies box message (n + 1) rest

theorem MailStore.mailboxes_deliverAll (s : MailStore) (message : Message) (rcpts : List Mailbox)
    (box : Str) : (s.deliverAll message rcpts).mailboxes box =
      s.mailboxes box ++ copies box message s.nextId rcpts := by
  induction rcpts generalizing s with
  | nil => simp [deliverAll, copies]
  | cons rcpt rest ih =>
    rw [deliverAll, ih, copies, ← List.append_assoc]
    change (if box = rcpt.toString then _ else _) ++ _ = _
    by_cases hbox : box = rcpt.toString
    · rw [if_pos hbox, if_pos hbox.symm]
      rfl
    · rw [if_neg hbox, if_neg (Ne.symm hbox), List.append_nil]
      rfl

theorem mem_copies_iff {box : Str} {message : Message} {n : Nat} {rcpts : List Mailbox}
    {stored : StoredMessage} : stored ∈ copies box message n rcpts ↔
      ∃ k rcpt, rcpts[k]? = some rcpt ∧ rcpt.toString = box ∧ stored = ⟨n + k + 1, message⟩ := by
  induction rcpts generalizing n with
  | nil => simp [copies]
  | cons first rest ih =>
    rw [copies, List.mem_append, ih]
    constructor
    · rintro (h | ⟨k, rcpt, hk, hbox, hstored⟩)
      · split at h
        · rename_i hbox
          exact ⟨0, first, rfl, hbox, List.mem_singleton.mp h⟩
        · cases h
      · exact ⟨k + 1, rcpt, hk, hbox, by rw [hstored, Nat.add_right_comm n 1 k]; rfl⟩
    · rintro ⟨k, rcpt, hk, hbox, hstored⟩
      cases k with
      | zero =>
        cases hk
        left
        rw [if_pos hbox, List.mem_singleton]
        exact hstored
      | succ k =>
        exact .inr ⟨k, rcpt, hk, hbox, by rw [hstored, Nat.add_right_comm n 1 k]; rfl⟩

end Snail.Mail
