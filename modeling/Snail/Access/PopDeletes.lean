import Snail.Access.PopSharing

/-!
# PopDeletes — POP3 deletes what was asked, whatever runs beside it
-/

open Snail.Reasoning Snail.Mail

namespace Snail.Access

/-! ## 1. From login to quit -/

structure Kept (user : Str) (ms : List StoredMessage) (s : Pop3Session) : Prop where
  messages : s.messages = ms
  mailbox : s.mailbox = some user
  deleted : ∀ id ∈ s.deleted, ∃ m ∈ ms, m.id = id

/-- A session that got `ms` when it logged in, and has only those to remove. -/
def Holds (user : Str) (ms : List StoredMessage) : Thread → Prop
  | .idle s => Kept user ms s ∧ s.state ≠ .authorization
  | .quitting s mailbox pending =>
      Kept user ms s ∧ mailbox = user ∧ ∀ id ∈ pending, ∃ m ∈ ms, m.id = id
  | .gone => True

section
variable {check : Str → Str → Bool} {user : Str} {ms : List StoredMessage}

theorem holds_quitLoop {s : Pop3Session} (h : Kept user ms s) {ids : List Nat}
    (hids : ∀ id ∈ ids, ∃ m ∈ ms, m.id = id) : Holds user ms (quitLoop s user ids) := by
  cases ids with
  | nil => exact ⟨⟨h.messages, h.mailbox, h.deleted⟩, by simp⟩
  | cons id rest => exact ⟨h, rfl, hids⟩

theorem Holds.moves {s s' : Pop3Session} {store : MailStore} {command : PopCommand}
    (h : Holds user ms (.idle s)) (hmoves : Moves check store s command s') :
    Holds user ms (.idle s') := by
  obtain ⟨hkept, hstate⟩ := h
  cases hmoves with
  | stay hsame hmailbox hmessages hdeleted =>
    refine ⟨⟨hmessages.trans hkept.messages, hmailbox.trans hkept.mailbox, ?_⟩, ?_⟩
    · rw [hdeleted]
      exact hkept.deleted
    · rw [hsame]
      exact hstate
  | login hauth => exact absurd hauth hstate
  | mark _ hat =>
    refine ⟨⟨hkept.messages, hkept.mailbox, ?_⟩, by simp⟩
    intro id hid
    rcases List.mem_cons.mp hid with rfl | hid
    · exact ⟨_, hkept.messages ▸ mem_of_messageAt hat, rfl⟩
    · exact hkept.deleted id hid
  | reset => exact ⟨⟨hkept.messages, hkept.mailbox, by simp⟩, by simp⟩
  | close => exact ⟨⟨hkept.messages, hkept.mailbox, hkept.deleted⟩, by simp⟩

theorem Holds.step {w w' : Shared} {e : Event} {i : Nat} (h : Holds user ms (w.threads i))
    (hdoes : Does check w e w') : Holds user ms (w'.threads i) := by
  have hset : ∀ (w : Shared) (j : Nat) (t : Thread), (j = i → Holds user ms t) →
      (j ≠ i → Holds user ms (w.threads i)) → Holds user ms ((w.set j t).threads i) := by
    intro w j t hself hother
    by_cases hj : j = i
    · rw [hj, threads_set_self]
      exact hself hj
    · rw [threads_set_of_ne w t (Ne.symm hj)]
      exact hother hj
  cases hdoes with
  | deliver => exact h
  | command hthread hmoves =>
    refine hset _ _ _ ?_ fun _ => h
    rintro rfl
    rw [hthread] at h
    exact h.moves hmoves
  | quit hthread _ hmailbox =>
    refine hset _ _ _ ?_ fun _ => h
    rintro rfl
    rw [hthread] at h
    have huser := hmailbox.symm.trans h.1.mailbox
    cases huser
    exact holds_quitLoop h.1 h.1.deleted
  | remove hthread =>
    refine hset _ _ _ ?_ fun _ => h
    rintro rfl
    rw [hthread] at h
    obtain ⟨hkept, rfl, hpending⟩ := h
    exact holds_quitLoop hkept fun id hid => hpending id (List.mem_of_mem_erase hid)
  | drop => exact hset _ _ _ (fun _ => trivial) fun _ => h
  | nothing => exact h

variable {store : MailStore} {tls : Nat → Option Bool} {i : Nat}

theorem Holds.run {before : List Event}
    (h : Holds user ms ((Shared.run check store tls before).threads i)) (after : List Event) :
    Holds user ms ((Shared.run check store tls (before ++ after)).threads i) := by
  induction after using List.reverseRecOn with
  | nil => rwa [List.append_nil]
  | append_singleton after e ih =>
    rw [← List.append_assoc, run_concat_pop]
    exact ih.step (does_step check _ e)

-- it removes nothing else from then on
theorem Holds.removedBy {before after : List Event} {mailbox : Str} {id : Nat}
    (h : Holds user ms ((Shared.run check store tls before).threads i))
    (hnone : ¬ RemovedBy check store tls i mailbox id before)
    (hremoved : RemovedBy check store tls i mailbox id (before ++ after)) :
    mailbox = user ∧ ∃ m ∈ ms, m.id = id := by
  induction after using List.reverseRecOn with
  | nil =>
    rw [List.append_nil] at hremoved
    exact absurd hremoved hnone
  | append_singleton after e ih =>
    rw [← List.append_assoc] at hremoved
    rcases once_concat.mp hremoved with ⟨s, pending, -, hthread, hmem⟩ | hold
    · have hholds := h.run after
      rw [hthread] at hholds
      exact ⟨hholds.2.1, hholds.2.2 id hmem⟩
    · exact ih hold

end

-- a thread that is still in the authorization state has always been
def Unopened : Thread → Prop
  | .idle s => s.state = .authorization
  | _ => False

section
variable {check : Str → Str → Bool} {store : MailStore} {tls : Nat → Option Bool} {i : Nat}

theorem unopened_of_step {w w' : Shared} {e : Event} (hdoes : Does check w e w')
    (h : Unopened (w'.threads i)) : Unopened (w.threads i) := by
  have hset : ∀ (w : Shared) (j : Nat) (t : Thread), Unopened ((w.set j t).threads i) →
      (j = i ∧ Unopened t) ∨ Unopened (w.threads i) := by
    intro w j t ht
    by_cases hj : j = i
    · rw [hj, threads_set_self] at ht
      exact .inl ⟨hj, ht⟩
    · rw [threads_set_of_ne w t (Ne.symm hj)] at ht
      exact .inr ht
  have hloop : ∀ (s : Pop3Session) (mailbox : Str) (ids : List Nat),
      ¬ Unopened (quitLoop s mailbox ids) := by
    intro s mailbox ids
    cases ids with
    | nil => exact fun hs => by cases hs
    | cons first rest => exact fun hs => hs
  cases hdoes with
  | deliver => exact h
  | command hthread hmoves =>
    rcases hset _ _ _ h with ⟨rfl, hs'⟩ | hold
    · rw [hthread]
      cases hmoves with
      | stay hstate => exact hstate.symm.trans hs'
      | login hstate => exact hstate
      | mark => cases hs'
      | reset => cases hs'
      | close => cases hs'
    · exact hold
  | quit =>
    rcases hset _ _ _ h with ⟨-, hs'⟩ | hold
    · exact absurd hs' (hloop _ _ _)
    · exact hold
  | remove =>
    rcases hset _ _ _ h with ⟨-, hs'⟩ | hold
    · exact absurd hs' (hloop _ _ _)
    · exact hold
  | drop =>
    rcases hset _ _ _ h with ⟨-, hs'⟩ | hold
    · exact hs'.elim
    · exact hold
  | nothing => exact h

theorem not_removedBy_of_unopened {history : List Event} {mailbox : Str} {id : Nat}
    (h : Unopened ((Shared.run check store tls history).threads i)) :
    ¬ RemovedBy check store tls i mailbox id history := by
  induction history using List.reverseRecOn with
  | nil => exact not_once_nil
  | append_singleton history e ih =>
    rw [run_concat_pop] at h
    have hbefore := unopened_of_step (does_step check _ e) h
    intro hremoved
    rcases once_concat.mp hremoved with ⟨s, pending, -, hthread, -⟩ | hold
    · rw [hthread] at hbefore
      exact hbefore
    · exact ih hbefore hold

end

/-! ## 2. Message numbers -/

-- the message that a number stands for
def numbered (ms : List StoredMessage) : Nat → Option StoredMessage
  | 0 => none
  | i + 1 => ms[i]?

/-- `RETR n` and `LIST n` answer about the `n`th message of the snapshot, unless it is marked or
there is none. -/
def Refers (check : Str → Str → Bool) (ms : List StoredMessage) (t : Pop3Session) : Prop :=
  ∀ (store : MailStore) (n : Nat),
    (∃ m, numbered ms n = some m ∧ (t.handle check store (.retr n)).1 = retrReply m ∧
      (t.handle check store (.list (some n))).1 =
        .good (showNat n ++ ' ' :: showNat (octets m))) ∨
    ((t.handle check store (.retr n)).1 = .err "no such message" ∧
      (t.handle check store (.list (some n))).1 = .err "no such message")

theorem refers_of_transaction (check : Str → Str → Bool) {t : Pop3Session}
    (hstate : t.state = .transaction) : Refers check t.messages t := by
  intro store n
  cases hat : t.messageAt n with
  | none =>
    simp only [Pop3Session.handle, hstate, hat]
    exact .inr ⟨trivial, trivial⟩
  | some m =>
    simp only [Pop3Session.handle, hstate, hat]
    refine .inl ⟨m, ?_, rfl, rfl⟩
    cases n with
    | zero => cases hat
    | succ i => exact (Option.filter_eq_some_iff.mp hat).1

/-! ## 3. Any interleaving -/

section
variable {check : Str → Str → Bool} {store : MailStore} {tls : Nat → Option Bool}

-- a message of the later archive that is not in the earlier one has a greater id
theorem nextId_lt_of_new {before after : List Event} {mailbox : Str} {m : StoredMessage}
    (hm : m ∈ (archive store (before ++ after)).mailboxes mailbox)
    (hnew : m ∉ (archive store before).mailboxes mailbox) :
    (archive store before).nextId < m.id := by
  have hmono : ∀ after, (archive store before).nextId ≤
      (archive store (before ++ after)).nextId := by
    intro after
    induction after using List.reverseRecOn with
    | nil => rw [List.append_nil]
    | append_singleton after e ih =>
      rw [← List.append_assoc, archive_concat]
      cases e with
      | deliver box message => exact Nat.le_succ_of_le ih
      | _ => exact ih
  induction after using List.reverseRecOn with
  | nil =>
    rw [List.append_nil] at hm
    exact absurd hm hnew
  | append_singleton after e ih =>
    rw [← List.append_assoc, archive_concat] at hm
    cases e with
    | deliver box message =>
      change m ∈ (if mailbox = box then _ else _ : List StoredMessage) at hm
      split at hm
      · rcases List.mem_append.mp hm with hm | hm
        · exact ih hm
        · rw [List.mem_singleton.mp hm]
          exact Nat.lt_succ_of_le (hmono after)
      · exact ih hm
    | _ => exact ih hm

theorem Moves.login_inv {s s' : Pop3Session} {password : Str}
    (h : Moves check store s (.pass password) s') (hstate : s.state = .authorization)
    (hstate' : s'.state = .transaction) :
    ∃ user, s'.mailbox = some user ∧ s'.messages = store.list user ∧ s'.deleted = s.deleted := by
  cases h with
  | stay hsame =>
    rw [hsame, hstate] at hstate'
    cases hstate'
  | @login user _ _ => exact ⟨user, rfl, rfl, rfl⟩

theorem login_of_pass {w : Shared} {i : Nat} {password : Str} {s s' : Pop3Session}
    (hthread : w.threads i = .idle s) (hstate : s.state = .authorization)
    (hthread' : (w.step check (.command i (.pass password))).threads i = .idle s')
    (hstate' : s'.state = .transaction) :
    ∃ user, s'.mailbox = some user ∧ s'.messages = w.store.list user ∧
      s'.deleted = s.deleted := by
  have hcommand : w.step check (.command i (.pass password)) =
      { w with store := (s.handle check w.store (.pass password)).2.2 }.set i
        (.idle (s.handle check w.store (.pass password)).2.1) := by
    simp only [Shared.step, hthread, Shared.command]
  rw [hcommand, threads_set_self] at hthread'
  cases hthread'
  exact (moves_pass check s w.store password).login_inv hstate hstate'

end

/-- POP3 deletes exactly what was asked, under any concurrency.  Take any history of deliveries and
of commands of any number of sessions.  Compared with the deliveries alone, no mailbox is reordered
and no message changed; a message is missing only if a logged-in session reached `QUIT` with a mark
on it, and then it is, unless the loop of such a `QUIT` is still to come to it.  A session that logs
in keeps to the messages it then gets: it removes none that is delivered later, and its numbers go
on to stand for the same messages. -/
theorem pop_deletes_exactly (check : Str → Str → Bool) (store : MailStore)
    (tls : Nat → Option Bool) (history : List Event) :
    let w := Shared.run check store tls history
    (∀ mailbox, (w.store.mailboxes mailbox).Sublist ((archive store history).mailboxes mailbox) ∧
      ∀ m ∈ (archive store history).mailboxes mailbox,
        (m ∉ w.store.mailboxes mailbox → Deletes check store tls mailbox m.id history) ∧
        (Deletes check store tls mailbox m.id history →
          m ∉ w.store.mailboxes mailbox ∨ w.Removing mailbox m.id)) ∧
    ∀ before after i password s s', history = before ++ .command i (.pass password) :: after →
      (Shared.run check store tls before).threads i = .idle s → s.state = .authorization →
      (Shared.run check store tls (before ++ [.command i (.pass password)])).threads i = .idle s' →
      s'.state = .transaction →
      (∀ mailbox, ∀ m ∈ (archive store history).mailboxes mailbox,
        m ∉ (archive store before).mailboxes mailbox →
          ¬ RemovedBy check store tls i mailbox m.id history) ∧
      ∀ t, w.threads i = .idle t → t.state = .transaction → Refers check s'.messages t := by
  intro w
  have hinv := sharedInv_run check store tls history
  refine ⟨?_, ?_⟩
  · intro mailbox
    refine ⟨hinv.kept mailbox, ?_⟩
    intro m hm
    have hpresent := hinv.present mailbox m hm
    apply And.intro
    · intro hmissing
      exact (hinv.removed mailbox m.id (not_not.mp fun hno => hmissing (hpresent.mpr hno))).1
    · intro hdeletes
      rcases hinv.deleted mailbox m.id hdeletes with hgone | hremoving
      · exact .inl fun hin => hpresent.mp hin hgone
      · exact .inr hremoving
  · rintro before after i password s s' rfl hthread hstate hthread' hstate'
    have hbefore := sharedInv_run check store tls before
    have hthreadStep := hthread'
    rw [run_concat_pop] at hthreadStep
    obtain ⟨user, hmailbox, hmessages, hdeleted⟩ :=
      login_of_pass hthread hstate hthreadStep hstate'
    have hfollows := hbefore.threads i
    rw [hthread] at hfollows
    have hnil : s'.deleted = [] :=
      hdeleted.trans ((hfollows (by rw [hstate]; simp)).fresh hstate).2
    -- what the session has from its login on
    have hholds : Holds user s'.messages
        ((Shared.run check store tls (before ++ [.command i (.pass password)])).threads i) := by
      rw [hthread']
      refine ⟨⟨rfl, hmailbox, ?_⟩, by rw [hstate']; simp⟩
      rw [hnil]
      simp
    have hsplit : before ++ .command i (.pass password) :: after =
        (before ++ [.command i (.pass password)]) ++ after := by simp
    have hnone : ∀ mailbox id, ¬ RemovedBy check store tls i mailbox id
        (before ++ [.command i (.pass password)]) := by
      intro mailbox id hremoved
      have hunopened : Unopened ((Shared.run check store tls before).threads i) := by
        rw [hthread]
        exact hstate
      rcases once_concat.mp hremoved with ⟨s₁, pending, he, -⟩ | hold
      · cases he
      · exact not_removedBy_of_unopened hunopened hold
    refine ⟨?_, ?_⟩
    · intro mailbox m hm hnew hremoved
      rw [hsplit] at hremoved
      obtain ⟨-, m', hm', hid⟩ := hholds.removedBy (hnone mailbox m.id) hremoved
      rw [hmessages] at hm'
      have hle := (Shared.run check store tls before).store.issued user m' hm'
      have hlt := nextId_lt_of_new hm hnew
      rw [hbefore.nextId, hid] at hle
      omega
    · intro t ht htransaction
      have hkept := hholds.run after
      rw [← hsplit, show (Shared.run check store tls _).threads i = .idle t from ht] at hkept
      have hrefers := refers_of_transaction check htransaction
      rw [hkept.1.messages] at hrefers
      exact hrefers

end Snail.Access
