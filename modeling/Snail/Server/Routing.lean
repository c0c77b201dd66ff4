import Snail.Server.Accepted
import Snail.Server.SpoolRecord

/-!
# Routing — where the recipients of a message go

`accept_inbound` parts the recipients of a message: the local ones get a copy in the store, the
others are grouped by domain and each group is queued as an entry of its own.
-/

set_option linter.dupNamespace false

open Snail.Reasoning Snail.Mail
open scoped List

namespace Snail.Server

/-! ## 1. Grouping by domain -/

def domainKey (rcpt : Mailbox) : Str := toAsciiLowercase rcpt.domain

-- the keys of a `BTreeMap` in order
def SortedKeys (groups : List (Str × List Mailbox)) : Prop :=
  groups.Pairwise fun a b => encodeUtf8 a.1 < encodeUtf8 b.1

theorem SortedKeys.head_ne {first : Str × List Mailbox} {rest : List (Str × List Mailbox)}
    (h : SortedKeys (first :: rest)) (key : Str) (hkey : encodeUtf8 key ≤ encodeUtf8 first.1) :
    ∀ group ∈ rest, group.1 ≠ key := by
  intro group hgroup heq
  have hlt := (List.pairwise_cons.mp h).1 group hgroup
  rw [heq] at hlt
  exact hkey hlt

/-- A recipient joins the group of its domain, at the end, or opens it; the others stay. -/
theorem of_mem_insertByDomain {rcpt : Mailbox} {groups : List (Str × List Mailbox)}
    (hsorted : SortedKeys groups) {group : Str × List Mailbox}
    (h : group ∈ insertByDomain rcpt groups) :
    (group ∈ groups ∧ group.1 ≠ domainKey rcpt) ∨
      (∃ old, (domainKey rcpt, old) ∈ groups ∧ group = (domainKey rcpt, old ++ [rcpt])) ∨
      (group = (domainKey rcpt, [rcpt]) ∧ ∀ other ∈ groups, other.1 ≠ domainKey rcpt) := by
  induction groups with
  | nil => exact .inr (.inr ⟨List.mem_singleton.mp h, by simp⟩)
  | cons first rest ih =>
    obtain ⟨domain, rcpts⟩ := first
    rw [insertByDomain] at h
    by_cases heq : toAsciiLowercase rcpt.domain = domain
    · rw [if_pos heq] at h
      have hrest := hsorted.head_ne (domainKey rcpt) (by
        rw [show domainKey rcpt = domain from heq]
        exact List.lt_irrefl _)
      rcases List.mem_cons.mp h with rfl | hmem
      · exact .inr (.inl ⟨rcpts, by rw [show domainKey rcpt = domain from heq]; simp,
          by rw [show domainKey rcpt = domain from heq]⟩)
      · exact .inl ⟨List.mem_cons_of_mem _ hmem, hrest group hmem⟩
    · rw [if_neg heq] at h
      by_cases hlt : encodeUtf8 (toAsciiLowercase rcpt.domain) < encodeUtf8 domain
      · rw [if_pos hlt] at h
        have hne : ∀ other ∈ (domain, rcpts) :: rest, other.1 ≠ domainKey rcpt := by
          intro other hother
          rcases List.mem_cons.mp hother with rfl | hother
          · exact fun he => heq he.symm
          · exact hsorted.head_ne (domainKey rcpt) (List.lt_asymm hlt) other hother
        rcases List.mem_cons.mp h with rfl | hmem
        · exact .inr (.inr ⟨rfl, hne⟩)
        · exact .inl ⟨hmem, hne group hmem⟩
      · rw [if_neg hlt] at h
        rcases List.mem_cons.mp h with rfl | hmem
        · exact .inl ⟨by simp, fun he => heq he.symm⟩
        · rcases ih (List.pairwise_cons.mp hsorted).2 hmem with hold | ⟨old, hold, hgroup⟩ |
            ⟨hgroup, hnone⟩
          · exact .inl ⟨List.mem_cons_of_mem _ hold.1, hold.2⟩
          · exact .inr (.inl ⟨old, List.mem_cons_of_mem _ hold, hgroup⟩)
          · refine .inr (.inr ⟨hgroup, ?_⟩)
            intro other hother
            rcases List.mem_cons.mp hother with rfl | hother
            · exact fun he => heq he.symm
            · exact hnone other hother

theorem sortedKeys_insertByDomain {groups : List (Str × List Mailbox)} (h : SortedKeys groups)
    (rcpt : Mailbox) : SortedKeys (insertByDomain rcpt groups) := by
  induction groups with
  | nil => exact List.pairwise_singleton _ _
  | cons first rest ih =>
    obtain ⟨domain, rcpts⟩ := first
    obtain ⟨hfirst, hrest⟩ := List.pairwise_cons.mp h
    rw [insertByDomain]
    by_cases heq : toAsciiLowercase rcpt.domain = domain
    · rw [if_pos heq]
      exact List.pairwise_cons.mpr ⟨hfirst, hrest⟩
    · rw [if_neg heq]
      by_cases hlt : encodeUtf8 (toAsciiLowercase rcpt.domain) < encodeUtf8 domain
      · rw [if_pos hlt]
        refine List.pairwise_cons.mpr ⟨?_, h⟩
        intro other hother
        rcases List.mem_cons.mp hother with rfl | hother
        · exact hlt
        · exact List.lt_trans hlt (hfirst other hother)
      · rw [if_neg hlt]
        refine List.pairwise_cons.mpr ⟨?_, ih hrest⟩
        -- the new key lies behind the first one
        have hgt : encodeUtf8 domain < encodeUtf8 (domainKey rcpt) := by
          by_contra hge
          exact heq (encodeUtf8_injective (List.le_antisymm hge hlt))
        intro other hother
        rcases of_mem_insertByDomain hrest hother with hold | ⟨old, -, hgroup⟩ | ⟨hgroup, -⟩
        · exact hfirst other hold.1
        · rw [hgroup]
          exact hgt
        · rw [hgroup]
          exact hgt

theorem perm_insertByDomain (rcpt : Mailbox) (groups : List (Str × List Mailbox)) :
    (insertByDomain rcpt groups).flatMap Prod.snd ~ rcpt :: groups.flatMap Prod.snd := by
  induction groups with
  | nil => exact List.Perm.refl _
  | cons first rest ih =>
    obtain ⟨domain, rcpts⟩ := first
    rw [insertByDomain]
    split
    · rw [List.flatMap_cons, List.flatMap_cons, List.append_assoc]
      exact List.perm_middle
    · split
      · exact List.Perm.refl _
      · rw [List.flatMap_cons, List.flatMap_cons]
        exact (List.Perm.append_left rcpts ih).trans List.perm_middle

/-- What the grouping pass makes of a list of recipients. -/
structure Grouped (rcpts : List Mailbox) (groups : List (Str × List Mailbox)) : Prop where
  sorted : SortedKeys groups
  perm : groups.flatMap Prod.snd ~ rcpts
  members : ∀ group ∈ groups,
    group.2 = rcpts.filter (fun rcpt => domainKey rcpt = group.1) ∧ group.2 ≠ []

-- two groups have different keys, and their members those keys
theorem Grouped.apart {rcpts : List Mailbox} {groups : List (Str × List Mailbox)}
    (h : Grouped rcpts groups) : (groups.map Prod.snd).Pairwise fun a b =>
      ∀ rcpt ∈ a, ∀ rcpt' ∈ b, domainKey rcpt ≠ domainKey rcpt' := by
  rw [List.pairwise_map]
  refine h.sorted.imp_of_mem ?_
  intro a b ha hb hlt rcpt hrcpt rcpt' hrcpt' heq
  rw [(h.members a ha).1, List.mem_filter] at hrcpt
  rw [(h.members b hb).1, List.mem_filter] at hrcpt'
  have hsame : a.1 = b.1 := ((of_decide_eq_true hrcpt.2).symm.trans heq).trans
    (of_decide_eq_true hrcpt'.2)
  rw [hsame] at hlt
  exact List.lt_irrefl _ hlt

theorem Grouped.insert {rcpts : List Mailbox} {groups : List (Str × List Mailbox)}
    (h : Grouped rcpts groups) (rcpt : Mailbox) :
    Grouped (rcpts ++ [rcpt]) (insertByDomain rcpt groups) := by
  refine ⟨sortedKeys_insertByDomain h.sorted rcpt, ?_, ?_⟩
  · exact (perm_insertByDomain rcpt groups).trans
      ((h.perm.cons rcpt).trans (List.perm_append_singleton rcpt rcpts).symm)
  · intro group hgroup
    rw [List.filter_append]
    rcases of_mem_insertByDomain h.sorted hgroup with ⟨hold, hne⟩ | ⟨old, hold, rfl⟩ | ⟨rfl, hnone⟩
    · have hmembers := h.members group hold
      refine ⟨?_, hmembers.2⟩
      rw [← hmembers.1, List.filter_cons_of_neg (by simpa using Ne.symm hne)]
      simp
    · have hmembers := h.members _ hold
      refine ⟨?_, by simp⟩
      dsimp only at hmembers ⊢
      rw [← hmembers.1, List.filter_cons_of_pos (by simp)]
      rfl
    · -- nobody before has had this domain
      have hnil : rcpts.filter (fun r => domainKey r = domainKey rcpt) = [] := by
        rw [List.filter_eq_nil_iff]
        intro other hother hkey
        obtain ⟨group, hgroup, hin⟩ := List.mem_flatMap.mp (h.perm.mem_iff.mpr hother)
        rw [(h.members group hgroup).1, List.mem_filter] at hin
        exact hnone group hgroup ((of_decide_eq_true hin.2).symm.trans (of_decide_eq_true hkey))
      refine ⟨?_, by simp⟩
      dsimp only
      rw [hnil, List.filter_cons_of_pos (by simp)]
      rfl

theorem grouped_groupByDomain (rcpts : List Mailbox) : Grouped rcpts (groupByDomain rcpts) := by
  unfold groupByDomain
  induction rcpts using List.reverseRecOn with
  | nil => exact ⟨List.Pairwise.nil, List.Perm.refl _, by simp⟩
  | append_singleton rcpts last ih =>
    rw [List.foldl_append]
    exact ih.insert last

/-! ## 2. The new entries -/

/-- The entry `id` holds the text of the message, and its record is that of a fresh entry for these
recipients. -/
structure World.HoldsEntry (w : World) (message : Message) (id : Str) (rcpts : List Mailbox) :
    Prop where
  eml : w.disk.lookup (emlPath id) = some message.toBytes
  ctrl : ∃ now, w.disk.lookup (ctrlPath id) =
    some (encodeUtf8 (renderCtrl ⟨message.envelope.sender, rcpts⟩ 0 now now))

-- the entries that the loop of `enqueue_relay` makes, one for each group
def newEntries (ios : Nat → EnqueueIo) :
    Nat → Nat → List (Str × List Mailbox) → List (Str × List Mailbox)
  | _, _, [] => []
  | i, counter, (_, rcpts) :: rest =>
      (newId (ios i).nanos counter, rcpts) :: newEntries ios (i + 1) (counter + 1) rest

theorem map_snd_newEntries (ios : Nat → EnqueueIo) (i counter : Nat)
    (groups : List (Str × List Mailbox)) :
    (newEntries ios i counter groups).map Prod.snd = groups.map Prod.snd := by
  induction groups generalizing i counter with
  | nil => rfl
  | cons group groups ih => exact congrArg (group.2 :: ·) (ih _ _)

theorem of_mem_newEntries {ios : Nat → EnqueueIo} {i counter : Nat}
    {groups : List (Str × List Mailbox)} {id : Str}
    (h : id ∈ (newEntries ios i counter groups).map Prod.fst) :
    ∃ nanos seq, counter ≤ seq ∧ id = newId nanos seq := by
  induction groups generalizing i counter with
  | nil => cases h
  | cons group groups ih =>
    rcases List.mem_cons.mp h with rfl | h
    · exact ⟨_, counter, le_refl _, rfl⟩
    · obtain ⟨nanos, seq, hseq, hid⟩ := ih h
      exact ⟨nanos, seq, by omega, hid⟩

theorem nodup_newEntries (ios : Nat → EnqueueIo) (i counter : Nat)
    (groups : List (Str × List Mailbox)) :
    ((newEntries ios i counter groups).map Prod.fst).Nodup := by
  induction groups generalizing i counter with
  | nil => exact List.nodup_nil
  | cons group groups ih =>
    refine List.nodup_cons.mpr ⟨?_, ih _ _⟩
    intro hmem
    obtain ⟨nanos, seq, hseq, hid⟩ := of_mem_newEntries hmem
    have hsame := newId_inj hid
    omega

theorem slots_enqueueGroups_of_not_mem {w : World} {ios : Nat → EnqueueIo} {source : Message}
    {i : Nat} {groups : List (Str × List Mailbox)} {id : Str}
    (h : id ∉ (newEntries ios i w.counter groups).map Prod.fst) :
    slots (w.enqueueGroups ios source i groups).disk id = slots w.disk id := by
  induction groups generalizing w i with
  | nil => rfl
  | cons group groups ih =>
    rw [newEntries, List.map_cons, List.mem_cons, not_or] at h
    rw [World.enqueueGroups, ih h.2]
    exact slots_enqueue_of_ne w (ios i) _ h.1

theorem holdsEntry_of_slots {w w' : World} {message : Message} {id : Str} {rcpts : List Mailbox}
    (h : w.HoldsEntry message id rcpts) (hslots : slots w'.disk id = slots w.disk id) :
    w'.HoldsEntry message id rcpts := by
  refine ⟨?_, ?_⟩
  · rw [show w'.disk.lookup (emlPath id) = w.disk.lookup (emlPath id) from
      congrArg Slots.eml hslots]
    exact h.eml
  · rw [show w'.disk.lookup (ctrlPath id) = w.disk.lookup (ctrlPath id) from
      congrArg Slots.ctrl hslots]
    exact h.ctrl

theorem holdsEntry_enqueue {w : World} {io : EnqueueIo} (hio : io.fault = none)
    (source : Message) (rcpts : List Mailbox) :
    (w.enqueue io (source.withRecipients rcpts)).HoldsEntry source (newId io.nanos w.counter)
      rcpts := by
  have hfull : io.steps (enqueueSteps (newId io.nanos w.counter) (source.withRecipients rcpts)
      io.now) = (enqueueSteps (newId io.nanos w.counter) (source.withRecipients rcpts)
      io.now).take 4 := by
    unfold EnqueueIo.steps
    rw [hio]
    rfl
  have hslots := slots_enqueue w.disk (newId io.nanos w.counter) (source.withRecipients rcpts)
    io.now 4
  rw [← hfull] at hslots
  exact ⟨congrArg Slots.eml hslots, io.now, congrArg Slots.ctrl hslots⟩

/-- When no write fails, every group becomes an entry. -/
theorem holdsEntry_enqueueGroups {w : World} {ios : Nat → EnqueueIo} {source : Message} {i : Nat}
    {groups : List (Str × List Mailbox)} (hios : ∀ j, (ios j).fault = none)
    {entry : Str × List Mailbox} (h : entry ∈ newEntries ios i w.counter groups) :
    (w.enqueueGroups ios source i groups).HoldsEntry source entry.1 entry.2 := by
  induction groups generalizing w i with
  | nil => cases h
  | cons group groups ih =>
    rcases List.mem_cons.mp h with rfl | h
    · -- the entries behind it have other ids
      have hnodup := List.nodup_cons.mp (nodup_newEntries ios i w.counter (group :: groups))
      exact holdsEntry_of_slots (holdsEntry_enqueue (hios i) source group.2)
        (slots_enqueueGroups_of_not_mem (w := w.enqueue _ _) hnodup.1)
    · exact ih (w := w.enqueue _ _) h

-- the record gives the envelope back when every address does
theorem World.HoldsEntry.readCtrl {w : World} {message : Message} {id : Str}
    {rcpts : List Mailbox} (h : w.HoldsEntry message id rcpts) (hne : rcpts ≠ [])
    (hsender : ∀ m ∈ message.envelope.sender,
      Mailbox.parse m.toString = .ok m ∧ OnLine m.toString)
    (hrcpts : ∀ m ∈ rcpts, Mailbox.parse m.toString = .ok m ∧ OnLine m.toString) :
    ∃ entry, Server.readCtrl w.disk id = .ok entry ∧
      entry.envelope = ⟨message.envelope.sender, rcpts⟩ := by
  obtain ⟨now, hctrl⟩ := h.ctrl
  have hreads : ReadsAs message.envelope.sender message.envelope.sender := by
    cases hs : message.envelope.sender with
    | none => rfl
    | some m => exact ⟨m, (hsender m hs).1, rfl⟩
  have hiff := @parseCtrl_renderCtrl ⟨message.envelope.sender, rcpts⟩
    (fun m hm => (hsender m hm).2) (fun m hm => (hrcpts m hm).2) id 0 now now
    ⟨id, message.envelope.sender, rcpts, 0, readBack now, readBack now⟩
  refine ⟨⟨id, message.envelope.sender, rcpts, 0, readBack now, readBack now⟩, ?_, rfl⟩
  rw [readCtrl_of_record hctrl, hiff]
  exact ⟨_, rcpts, hreads, List.forall₂_same.mpr fun m hm => (hrcpts m hm).1, hne, rfl⟩

/-! ## 3. The split -/

theorem Mta.route_eq_local_iff {mta : Mta} {rcpt : Mailbox} :
    mta.route rcpt = .local ↔ toAsciiLowercase rcpt.domain ∈ mta.localDomains := by
  unfold Mta.route
  split
  · rename_i h
    exact iff_of_true rfl h
  · rename_i h
    exact iff_of_false Route.noConfusion h

theorem acceptInbound_relayed {server : Server} (hrelay : server.relay = true) (w : World)
    (ios : Nat → EnqueueIo) (message : Message) :
    (server.acceptInbound w ios message .permitted).2 =
      { w with store := (server.mta.acceptInbound w.store message).2 }.enqueueGroups ios message 0
        (groupByDomain (server.remote message)) := by
  unfold Server.acceptInbound
  dsimp only
  rw [if_pos ⟨hrelay, rfl⟩, relay_acceptInbound]
  by_cases hnone : server.remote message = []
  · rw [if_pos hnone, hnone]
    rfl
  · rw [if_neg hnone]
    rfl

theorem perm_here_remote (server : Server) (message : Message) :
    message.envelope.recipients ~ server.mta.here message ++ server.remote message := by
  have hsplit := List.filter_append_perm (fun r => decide (server.mta.route r = .local))
    message.envelope.recipients
  simp only [← decide_not] at hsplit
  exact hsplit.symm

-- a remote group has all the recipients of its domain
theorem filter_remote {server : Server} {message : Message} {rcpt : Mailbox}
    (h : rcpt ∈ server.remote message) :
    (server.remote message).filter (fun r => domainKey r = domainKey rcpt) =
      message.envelope.recipients.filter fun r => domainKey r = domainKey rcpt := by
  have hroute : ¬ server.mta.route rcpt = .local := by simpa using (List.mem_filter.mp h).2
  rw [Server.remote, List.filter_filter]
  apply List.filter_congr
  intro r _
  rw [Bool.and_eq_left_iff_imp, decide_eq_true_iff, decide_eq_true_iff]
  intro hkey
  rw [Ne, Mta.route_eq_local_iff]
  rw [Mta.route_eq_local_iff] at hroute
  exact fun hlocal => hroute (show domainKey rcpt ∈ _ from hkey ▸ hlocal)

/-- Routing neither loses nor duplicates recipients.  With a filter that does not reject, a relay
and a spool that can be written to, the recipients are those delivered to the store together with
those of the new entries, as often as they occur.  To the store go those of a local domain; an entry
has the recipients of one domain, in their order, and no two entries have the same domain.  All
copies have the bytes of the message, the record of an entry reads back where its addresses do, and
no other file changes. -/
theorem routing_keeps_recipients (server : Server) (w : World) (ios : Nat → EnqueueIo)
    (message : Message)
    (hfilter : server.mta.here message ≠ [] →
      server.mta.filter (message.withRecipients (server.mta.here message)) ≠ .reject)
    (hrelay : server.relay = true) (hios : ∀ i, (ios i).fault = none) :
    ∃ (delivered : List Mailbox) (entries : List (Str × List Mailbox)),
      message.envelope.recipients ~ delivered ++ entries.flatMap Prod.snd ∧
      (∀ rcpt ∈ message.envelope.recipients,
        rcpt ∈ delivered ↔ toAsciiLowercase rcpt.domain ∈ server.mta.localDomains) ∧
      (message.withRecipients delivered).toBytes = message.toBytes ∧
      (∀ box, (server.acceptInbound w ios message .permitted).2.store.mailboxes box =
        w.store.mailboxes box ++
          copies box (message.withRecipients delivered) w.store.nextId delivered) ∧
      (entries.map Prod.fst).Nodup ∧
      (∀ entry ∈ entries, (server.acceptInbound w ios message .permitted).2.HoldsEntry message
        entry.1 entry.2) ∧
      (∀ entry ∈ entries, (∀ m, m ∈ message.envelope.sender ∨ m ∈ entry.2 →
        Mailbox.parse m.toString = .ok m ∧ OnLine m.toString) →
        ∃ e, readCtrl (server.acceptInbound w ios message .permitted).2.disk entry.1 = .ok e ∧
          e.envelope = ⟨message.envelope.sender, entry.2⟩) ∧
      (∀ id ∉ entries.map Prod.fst,
        slots (server.acceptInbound w ios message .permitted).2.disk id = slots w.disk id) ∧
      (∀ entry ∈ entries, ∃ first ∈ entry.2, entry.2 = message.envelope.recipients.filter
        fun rcpt => toAsciiLowercase rcpt.domain = toAsciiLowercase first.domain) ∧
      entries.Pairwise fun a b => ∀ rcpt ∈ a.2, ∀ rcpt' ∈ b.2,
        toAsciiLowercase rcpt.domain ≠ toAsciiLowercase rcpt'.domain := by
  have hgrouped := grouped_groupByDomain (server.remote message)
  have hsnd := map_snd_newEntries ios 0 w.counter (groupByDomain (server.remote message))
  -- an entry lies with a group, and a group has the recipients of its domain
  have hgroup : ∀ rcpts ∈ (newEntries ios 0 w.counter
      (groupByDomain (server.remote message))).map Prod.snd,
      ∃ group ∈ groupByDomain (server.remote message), group.2 = rcpts := by
    intro rcpts hrcpts
    rw [hsnd] at hrcpts
    exact List.mem_map.mp hrcpts
  have hne : ∀ entry ∈ newEntries ios 0 w.counter (groupByDomain (server.remote message)),
      entry.2 ≠ [] := by
    intro entry hentry
    obtain ⟨group, hmem, hrcpts⟩ := hgroup entry.2 (List.mem_map_of_mem hentry)
    rw [← hrcpts]
    exact (hgrouped.members group hmem).2
  have hholds : ∀ entry ∈ newEntries ios 0 w.counter (groupByDomain (server.remote message)),
      (server.acceptInbound w ios message .permitted).2.HoldsEntry message entry.1 entry.2 := by
    intro entry hentry
    rw [acceptInbound_relayed hrelay]
    exact holdsEntry_enqueueGroups (w := { w with store := _ }) hios hentry
  refine ⟨server.mta.here message, newEntries ios 0 w.counter
    (groupByDomain (server.remote message)), ?_, ?_, rfl, ?_, nodup_newEntries _ _ _ _, hholds,
    ?_, ?_, ?_, ?_⟩
  · have hflat : (newEntries ios 0 w.counter (groupByDomain (server.remote message))).flatMap
        Prod.snd = (groupByDomain (server.remote message)).flatMap Prod.snd := by
      rw [List.flatMap_def, List.flatMap_def, hsnd]
    rw [hflat]
    exact (perm_here_remote server message).trans (hgrouped.perm.symm.append_left _)
  · intro rcpt hrcpt
    rw [Mta.here, List.mem_filter, decide_eq_true_iff, Mta.route_eq_local_iff]
    exact and_iff_right hrcpt
  · intro box
    rw [store_acceptInbound, Mta.store_acceptInbound, Mta.deliveries_of_not_reject hfilter]
    exact MailStore.mailboxes_deliverAll _ _ _ _
  · intro entry hentry hplain
    exact (hholds entry hentry).readCtrl (hne entry hentry) (fun m hm => hplain m (.inl hm))
      fun m hm => hplain m (.inr hm)
  · intro id hid
    rw [acceptInbound_relayed hrelay]
    exact slots_enqueueGroups_of_not_mem (w := { w with store := _ }) hid
  · intro entry hentry
    obtain ⟨group, hmem, hrcpts⟩ := hgroup entry.2 (List.mem_map_of_mem hentry)
    obtain ⟨hfilt, hsome⟩ := hgrouped.members group hmem
    obtain ⟨first, hfirst⟩ := List.exists_mem_of_ne_nil _ hsome
    have hkey := List.mem_filter.mp (hfilt ▸ hfirst)
    refine ⟨first, hrcpts ▸ hfirst, ?_⟩
    rw [← hrcpts, hfilt, ← of_decide_eq_true hkey.2]
    exact filter_remote hkey.1
  · have hapart := hgrouped.apart
    rw [← hsnd, List.pairwise_map] at hapart
    exact hapart

def relayServer : Server := { tableServer with relay := true }

def mixedRecipients : List Mailbox :=
  [⟨"a".toList, "Y.org".toList⟩, ⟨"b".toList, "z.org".toList⟩, ⟨"a".toList, "y.org".toList⟩,
    ⟨"c".toList, "Z.org".toList⟩, ⟨"b".toList, "z.org".toList⟩]

def mixedMessage : Message := ⟨⟨none, mixedRecipients⟩, ⟨[]⟩, ascii "hi", []⟩

theorem routing_keeps_recipients_mixed :
    ∃ (delivered : List Mailbox) (entries : List (Str × List Mailbox)),
      mixedRecipients ~ delivered ++ entries.flatMap Prod.snd ∧
      (⟨"a".toList, "Y.org".toList⟩ : Mailbox) ∈ delivered ∧
      (⟨"c".toList, "Z.org".toList⟩ : Mailbox) ∉ delivered ∧
      ∀ entry ∈ entries, (relayServer.acceptInbound .empty (fun _ => ⟨0, .unixEpoch, none⟩)
        mixedMessage .permitted).2.HoldsEntry mixedMessage entry.1 entry.2 := by
  obtain ⟨delivered, entries, hperm, hiff, -, -, -, hholds, -⟩ := routing_keeps_recipients
    relayServer .empty (fun _ => ⟨0, .unixEpoch, none⟩) mixedMessage (fun _ => by decide) rfl
    (fun _ => rfl)
  exact ⟨delivered, entries, hperm, (hiff _ (by decide)).mpr (by decide),
    fun h => absurd ((hiff _ (by decide)).mp h) (by decide), hholds⟩

end Snail.Server
