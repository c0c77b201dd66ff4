import Snail.Access.Pop
import Snail.Reasoning.Past

/-!
# PopSharing — POP3 sessions side by side at one mail store

Every call of the store runs under its lock, so what the threads do to it is a sequence of such
calls.  A command makes at most one of them, apart from the `QUIT` of a logged-in session, whose
loop takes the lock once for each message it removes: others may get in between.
-/

open Snail.Reasoning Snail.Mail

namespace Snail.Access

/-! ## 1. Threads -/

/-- A session between two commands, one in the loop of its `QUIT` with the ids that are left, or one
whose connection is gone. -/
inductive Thread where
  | idle (s : Pop3Session)
  | quitting (s : Pop3Session) (mailbox : Str) (pending : List Nat)
  | gone

structure Shared where
  store : MailStore
  threads : Nat → Thread

inductive Event where
  | deliver (mailbox : Str) (message : Message)
  | command (i : Nat) (command : PopCommand)
  | remove (i id : Nat)
  | drop (i : Nat)

def Shared.set (w : Shared) (i : Nat) (t : Thread) : Shared :=
  { w with threads := fun j => if j = i then t else w.threads j }

-- the session is closed once the loop is through
def quitLoop (s : Pop3Session) (mailbox : Str) : List Nat → Thread
  | [] => .idle { s with state := .closed }
  | id :: pending => .quitting s mailbox (id :: pending)

def Shared.command (check : Str → Str → Bool) (w : Shared) (i : Nat) (s : Pop3Session)
    (command : PopCommand) : Shared :=
  match command, s.state, s.mailbox with
  | .quit, .transaction, some mailbox => w.set i (quitLoop s mailbox s.deleted)
  | _, _, _ =>
      let r := s.handle check w.store command
      { w with store := r.2.2 }.set i (.idle r.2.1)

-- the ids are a hash set: the loop takes them in any order.  It does not look at the connection, so
-- a client that goes away does not stop it.
def Shared.step (check : Str → Str → Bool) (w : Shared) : Event → Shared
  | .deliver mailbox message => { w with store := (w.store.deliver mailbox message).2 }
  | .command i command =>
      match w.threads i with
      | .idle s => w.command check i s command
      | _ => w
  | .remove i id =>
      match w.threads i with
      | .quitting s mailbox pending =>
          if id ∈ pending then
            { w with store := (w.store.remove mailbox id).2 }.set i
              (quitLoop s mailbox (pending.erase id))
          else w
      | _ => w
  | .drop i =>
      match w.threads i with
      | .idle _ => w.set i .gone
      | _ => w

-- without TLS, or with it offered or active
def Pop3Session.opened : Option Bool → Pop3Session
  | none => .new
  | some active => .withTls active

/-- Where a sequence of events leads.  Every session is there from the beginning, as it is made when
its client connects. -/
def Shared.run (check : Str → Str → Bool) (store : MailStore) (tls : Nat → Option Bool)
    (history : List Event) : Shared :=
  history.foldl (Shared.step check) ⟨store, fun i => .idle (.opened (tls i))⟩

-- the store if only the deliveries had happened
def archive (store : MailStore) (history : List Event) : MailStore :=
  history.foldl (fun store e => match e with
    | .deliver mailbox message => (store.deliver mailbox message).2
    | _ => store) store

theorem run_concat_pop (check : Str → Str → Bool) (store : MailStore) (tls : Nat → Option Bool)
    (history : List Event) (e : Event) :
    Shared.run check store tls (history ++ [e]) =
      (Shared.run check store tls history).step check e := by
  unfold Shared.run
  rw [List.foldl_append]
  rfl

theorem archive_concat (store : MailStore) (history : List Event) (e : Event) :
    archive store (history ++ [e]) = match e with
      | .deliver mailbox message => ((archive store history).deliver mailbox message).2
      | _ => archive store history := by
  unfold archive
  rw [List.foldl_append]
  rfl

/-- The loop of a `QUIT` without anything in between is what `handle` does. -/
theorem run_quit_loop (check : Str → Str → Bool) {w : Shared} {i : Nat} {s : Pop3Session}
    {mailbox : Str} (hthread : w.threads i = .idle s) (hstate : s.state = .transaction)
    (hmailbox : s.mailbox = some mailbox) :
    (.command i .quit :: s.deleted.map (Event.remove i)).foldl (Shared.step check) w =
      { w with store := (s.handle check w.store .quit).2.2 }.set i
        (.idle (s.handle check w.store .quit).2.1) := by
  have hloop : ∀ (ids : List Nat) (store : MailStore),
      (ids.map (Event.remove i)).foldl (Shared.step check)
        ({ w with store := store }.set i (quitLoop s mailbox ids)) =
        { w with store := removeAll store mailbox ids }.set i
          (.idle { s with state := .closed }) := by
    intro ids
    induction ids with
    | nil => intro store; rfl
    | cons id ids ih =>
      intro store
      have hnext : ({ w with store := store }.set i (quitLoop s mailbox (id :: ids))).step check
          (.remove i id) = { w with store := (store.remove mailbox id).2 }.set i
            (quitLoop s mailbox ids) := by
        simp only [Shared.step, Shared.set, quitLoop, if_true, List.mem_cons_self,
          List.erase_cons_head, Shared.mk.injEq, true_and]
        funext j
        split
        · rfl
        · rfl
      rw [List.map_cons, List.foldl_cons, hnext, ih]
      rfl
  have hquit : w.step check (.command i .quit) =
      { w with store := w.store }.set i (quitLoop s mailbox s.deleted) := by
    simp only [Shared.step, hthread, Shared.command, hstate, hmailbox]
  rw [List.foldl_cons, hquit, hloop]
  simp only [Pop3Session.handle, hstate, hmailbox]

/-! ## 2. What was asked for -/

section
variable (check : Str → Str → Bool) (store : MailStore) (tls : Nat → Option Bool)

/-- The session is logged in to the mailbox, and `n` is the number of a message it has not marked:
`DELE n` marks it. -/
def Shared.Marks (w : Shared) (i n : Nat) (mailbox : Str) (m : StoredMessage) : Prop :=
  ∃ s, w.threads i = .idle s ∧ s.state = .transaction ∧ s.mailbox = some mailbox ∧
    s.messageAt n = some m

/-- The session has sent a `DELE` of the message and no `RSET` since. -/
def Marked (i : Nat) (mailbox : Str) (id : Nat) : List Event → Prop :=
  Since (fun before e => ∃ n m, e = .command i (.dele n) ∧
    (Shared.run check store tls before).Marks i n mailbox m ∧ m.id = id)
    (fun e => e ≠ .command i .rset)

/-- Some session in the transaction state has reached `QUIT` with the message marked. -/
def Deletes (mailbox : Str) (id : Nat) : List Event → Prop :=
  Once fun before e => ∃ i s, e = .command i .quit ∧
    (Shared.run check store tls before).threads i = .idle s ∧ s.state = .transaction ∧
    Marked check store tls i mailbox id before

/-- The loop of the session's `QUIT` has called `remove` for the message. -/
def RemovedBy (i : Nat) (mailbox : Str) (id : Nat) : List Event → Prop :=
  Once fun before e => ∃ s pending, e = .remove i id ∧
    (Shared.run check store tls before).threads i = .quitting s mailbox pending ∧ id ∈ pending

-- a `QUIT` is on its way to the message
def Shared.Removing (w : Shared) (mailbox : Str) (id : Nat) : Prop :=
  ∃ i s pending, w.threads i = .quitting s mailbox pending ∧ id ∈ pending

end

/-! ## 3. What a command does to its session -/

/-- The session keeps its mailbox, its messages and its marks, or it logs in, marks a message,
clears the marks or closes. -/
inductive Moves (check : Str → Str → Bool) (store : MailStore) (s : Pop3Session) :
    PopCommand → Pop3Session → Prop where
  | stay {command : PopCommand} {s' : Pop3Session} (hstate : s'.state = s.state)
      (hmailbox : s'.mailbox = s.mailbox) (hmessages : s'.messages = s.messages)
      (hdeleted : s'.deleted = s.deleted)
      (hdele : s.state = .transaction → ∀ n, command = .dele n → s.messageAt n = none)
      (hrset : s.state = .transaction → command ≠ .rset) : Moves check store s command s'
  | login {user password : Str} (hstate : s.state = .authorization) :
      Moves check store s (.pass password)
        { s with
          pendingUser := none
          messages := store.list user
          mailbox := some user
          state := .transaction }
  | mark {n : Nat} {m : StoredMessage} (hstate : s.state = .transaction)
      (hm : s.messageAt n = some m) :
      Moves check store s (.dele n)
        { s with
          state := .transaction
          deleted := m.id :: s.deleted }
  | reset (hstate : s.state = .transaction) :
      Moves check store s .rset
        { s with
          state := .transaction
          deleted := [] }
  | close : Moves check store s .quit { s with state := .closed }

theorem Moves.keep {check : Str → Str → Bool} {store : MailStore} {s : Pop3Session}
    {command : PopCommand} (hdele : s.state = .transaction → ∀ n, command = .dele n →
      s.messageAt n = none) (hrset : s.state = .transaction → command ≠ .rset) :
    Moves check store s command s :=
  .stay rfl rfl rfl rfl hdele hrset

theorem moves_pass (check : Str → Str → Bool) (s : Pop3Session) (store : MailStore)
    (password : Str) :
    Moves check store s (.pass password) (s.handle check store (.pass password)).2.1 := by
  cases hstate : s.state with
  | authorization =>
    simp only [Pop3Session.handle, hstate]
    split
    · exact .keep (by simp) (by simp)
    · split
      · exact .keep (by simp) (by simp)
      · split
        · exact .login hstate
        · exact .stay hstate.symm rfl rfl rfl (by simp) (by simp)
  | transaction | closed =>
    simp only [Pop3Session.handle, hstate]
    exact .keep (by simp) (by simp)

theorem moves_dele (check : Str → Str → Bool) (s : Pop3Session) (store : MailStore) (n : Nat) :
    Moves check store s (.dele n) (s.handle check store (.dele n)).2.1 := by
  cases hstate : s.state with
  | transaction =>
    cases hm : s.messageAt n with
    | some m =>
      simp only [Pop3Session.handle, hstate, hm]
      exact .mark hstate hm
    | none =>
      simp only [Pop3Session.handle, hstate, hm]
      exact .keep (fun _ k hk => by cases hk; exact hm) (by simp)
  | authorization | closed =>
    simp only [Pop3Session.handle, hstate]
    exact .keep (by simp [hstate]) (by simp)

theorem moves_handle (check : Str → Str → Bool) (s : Pop3Session) (store : MailStore)
    (command : PopCommand) : Moves check store s command (s.handle check store command).2.1 := by
  cases command with
  | pass password => exact moves_pass check s store password
  | dele n => exact moves_dele check s store n
  | quit => exact .close
  | rset =>
    cases hstate : s.state with
    | transaction =>
      simp only [Pop3Session.handle, hstate]
      exact .reset hstate
    | authorization | closed =>
      simp only [Pop3Session.handle, hstate]
      exact .keep (by simp) (by simp [hstate])
  | user name =>
    cases hstate : s.state with
    | authorization =>
      simp only [Pop3Session.handle, hstate]
      split
      · exact .keep (by simp) (by simp)
      · exact .stay hstate.symm rfl rfl rfl (by simp) (by simp)
    | transaction | closed =>
      simp only [Pop3Session.handle, hstate]
      exact .keep (by simp) (by simp)
  | list msg =>
    cases msg
    all_goals
      cases hstate : s.state
      all_goals
        simp only [Pop3Session.handle, hstate]
        repeat' split
        all_goals exact .keep (by simp) (by simp)
  | _ =>
    -- the other commands leave the session alone
    cases hstate : s.state
    all_goals
      simp only [Pop3Session.handle, hstate]
      repeat' split
      all_goals exact .keep (by simp) (by simp)

-- only `QUIT` touches the store
theorem store_handle (check : Str → Str → Bool) (s : Pop3Session) (store : MailStore)
    (command : PopCommand) (h : command = .quit → ¬ (s.state = .transaction ∧ s.mailbox.isSome)) :
    (s.handle check store command).2.2 = store := by
  cases command with
  | quit =>
    simp only [Pop3Session.handle]
    split
    · rename_i hstate hmailbox
      exact absurd ⟨hstate, by rw [hmailbox]; rfl⟩ (h rfl)
    · rfl
  | _ =>
    cases hstate : s.state
    all_goals
      simp only [Pop3Session.handle, hstate]
      repeat' split
      all_goals rfl

theorem mem_of_messageAt {s : Pop3Session} {n : Nat} {m : StoredMessage}
    (h : s.messageAt n = some m) : m ∈ s.messages := by
  cases n with
  | zero => cases h
  | succ i => exact List.mem_of_getElem? (Option.filter_eq_some_iff.mp h).1

/-! ## 4. What an event does -/

theorem quitLoop_of_mem {s : Pop3Session} {mailbox : Str} {ids : List Nat} {id : Nat}
    (h : id ∈ ids) : quitLoop s mailbox ids = .quitting s mailbox ids := by
  cases ids with
  | nil => cases h
  | cons first rest => rfl

theorem threads_set_self (w : Shared) (i : Nat) (t : Thread) : (w.set i t).threads i = t :=
  if_pos rfl

theorem threads_set_of_ne (w : Shared) {i j : Nat} (t : Thread) (h : j ≠ i) :
    (w.set i t).threads j = w.threads j :=
  if_neg h

/-- The effects of an event; those of one that finds its thread elsewhere are none. -/
inductive Does (check : Str → Str → Bool) (w : Shared) : Event → Shared → Prop where
  | deliver (mailbox : Str) (message : Message) :
      Does check w (.deliver mailbox message)
        { w with store := (w.store.deliver mailbox message).2 }
  | command {i : Nat} {s s' : Pop3Session} {command : PopCommand}
      (hthread : w.threads i = .idle s) (hmoves : Moves check w.store s command s')
      (hquit : command = .quit → ¬ (s.state = .transaction ∧ s.mailbox.isSome)) :
      Does check w (.command i command) (w.set i (.idle s'))
  | quit {i : Nat} {s : Pop3Session} {mailbox : Str} (hthread : w.threads i = .idle s)
      (hstate : s.state = .transaction) (hmailbox : s.mailbox = some mailbox) :
      Does check w (.command i .quit) (w.set i (quitLoop s mailbox s.deleted))
  | remove {i id : Nat} {s : Pop3Session} {mailbox : Str} {pending : List Nat}
      (hthread : w.threads i = .quitting s mailbox pending) (hmem : id ∈ pending) :
      Does check w (.remove i id)
        ({ w with store := (w.store.remove mailbox id).2 }.set i
          (quitLoop s mailbox (pending.erase id)))
  | drop {i : Nat} {s : Pop3Session} (hthread : w.threads i = .idle s) :
      Does check w (.drop i) (w.set i .gone)
  | nothing {e : Event} (hdeliver : ∀ mailbox message, e ≠ .deliver mailbox message)
      (hcommand : ∀ i s command, e = .command i command → w.threads i ≠ .idle s)
      (hremove : ∀ i id s mailbox pending, e = .remove i id →
        w.threads i = .quitting s mailbox pending → id ∉ pending) : Does check w e w

theorem does_command (check : Str → Str → Bool) (w : Shared) {i : Nat} {s : Pop3Session}
    (hthread : w.threads i = .idle s) (command : PopCommand) :
    Does check w (.command i command) (w.command check i s command) := by
  unfold Shared.command
  split
  · rename_i hstate hmailbox
    exact .quit hthread hstate hmailbox
  · rename_i command _ _ _ hno
    have hquit : command = .quit → ¬ (s.state = .transaction ∧ s.mailbox.isSome) := by
      rintro hcommand ⟨hstate, hsome⟩
      obtain ⟨mailbox, hmailbox⟩ := Option.isSome_iff_exists.mp hsome
      exact hno mailbox hcommand hstate hmailbox
    dsimp only
    rw [store_handle check s w.store command hquit]
    exact .command hthread (moves_handle check s w.store command) hquit

theorem does_step (check : Str → Str → Bool) (w : Shared) (e : Event) :
    Does check w e (w.step check e) := by
  cases e with
  | deliver mailbox message => exact .deliver mailbox message
  | command i command =>
    simp only [Shared.step]
    split
    · rename_i s hthread
      exact does_command check w hthread command
    · rename_i hno
      refine .nothing (by simp) ?_ (by simp)
      intro j s c hc
      cases hc
      exact hno s
  | remove i id =>
    simp only [Shared.step]
    split
    · rename_i s mailbox pending hthread
      split
      · rename_i hmem
        exact .remove hthread hmem
      · rename_i hmem
        refine .nothing (by simp) (by simp) ?_
        intro j id' s' mailbox' pending' he hthread'
        cases he
        rw [hthread] at hthread'
        cases hthread'
        exact hmem
    · rename_i hno
      refine .nothing (by simp) (by simp) ?_
      intro j id' s' mailbox' pending' he hthread'
      cases he
      exact absurd hthread' (hno s' mailbox' pending')
  | drop i =>
    simp only [Shared.step]
    split
    · rename_i s hthread
      exact .drop hthread
    · exact .nothing (by simp) (by simp) (by simp)

/-! ## 5. The invariant -/

section
variable (check : Str → Str → Bool) (store : MailStore) (tls : Nat → Option Bool)

structure SessionInv (history : List Event) (i : Nat) (s : Pop3Session) : Prop where
  marks : ∀ mailbox id, Marked check store tls i mailbox id history ↔
    s.mailbox = some mailbox ∧ id ∈ s.deleted
  fresh : s.state = .authorization → s.mailbox = none ∧ s.deleted = []
  mailbox : s.state = .transaction → s.mailbox.isSome
  snapshot : ∀ mailbox, s.mailbox = some mailbox →
    ∀ m ∈ s.messages, m ∈ (archive store history).mailboxes mailbox
  own : ∀ id ∈ s.deleted, ∃ m ∈ s.messages, m.id = id

def Follows (history : List Event) (i : Nat) : Thread → Prop
  | .idle s => s.state ≠ .closed → SessionInv check store tls history i s
  | .quitting _ mailbox pending => ∀ id ∈ pending, Deletes check store tls mailbox id history ∧
      ∃ m ∈ (archive store history).mailboxes mailbox, m.id = id
  | .gone => True

def Removed (mailbox : Str) (id : Nat) (history : List Event) : Prop :=
  ∃ i, RemovedBy check store tls i mailbox id history

structure SharedInv (history : List Event) (w : Shared) : Prop where
  threads : ∀ i, Follows check store tls history i (w.threads i)
  nextId : w.store.nextId = (archive store history).nextId
  kept : ∀ mailbox, (w.store.mailboxes mailbox).Sublist ((archive store history).mailboxes mailbox)
  present : ∀ mailbox, ∀ m ∈ (archive store history).mailboxes mailbox,
    (m ∈ w.store.mailboxes mailbox ↔ ¬ Removed check store tls mailbox m.id history)
  removed : ∀ mailbox id, Removed check store tls mailbox id history →
    Deletes check store tls mailbox id history ∧
      ∃ m ∈ (archive store history).mailboxes mailbox, m.id = id
  deleted : ∀ mailbox id, Deletes check store tls mailbox id history →
    Removed check store tls mailbox id history ∨ w.Removing mailbox id

end

section
variable {check : Str → Str → Bool} {store : MailStore} {tls : Nat → Option Bool}
  {history : List Event} {e : Event}

theorem mem_archive_concat {mailbox : Str} {m : StoredMessage}
    (h : m ∈ (archive store history).mailboxes mailbox) :
    m ∈ (archive store (history ++ [e])).mailboxes mailbox := by
  rw [archive_concat]
  cases e with
  | deliver box message => exact (MailStore.extends_deliver _ box message mailbox).subset h
  | _ => exact h

theorem Deletes.concat {mailbox : Str} {id : Nat}
    (h : Deletes check store tls mailbox id history) :
    Deletes check store tls mailbox id (history ++ [e]) :=
  once_concat.mpr (.inr h)

theorem marked_concat_of_ne {i : Nat} {mailbox : Str} {id : Nat}
    (h : ∀ command, e ≠ .command i command) :
    Marked check store tls i mailbox id (history ++ [e]) ↔
      Marked check store tls i mailbox id history := by
  unfold Marked
  rw [since_concat]
  apply Iff.intro
  · rintro (⟨n, m, he, -⟩ | ⟨hold, -⟩)
    · exact absurd he (h _)
    · exact hold
  · intro hold
    exact .inr ⟨hold, h _⟩

-- an event of another session, or one that finds no session
theorem Follows.concat {i : Nat} {t : Thread} (h : Follows check store tls history i t)
    (he : ∀ s, t = .idle s → ∀ command, e ≠ .command i command) :
    Follows check store tls (history ++ [e]) i t := by
  cases t with
  | idle s =>
    intro hopen
    have hinv := h hopen
    refine ⟨?_, hinv.fresh, hinv.mailbox, ?_, hinv.own⟩
    · intro mailbox id
      rw [marked_concat_of_ne (he s rfl)]
      exact hinv.marks mailbox id
    · intro mailbox hmailbox m hm
      exact mem_archive_concat (hinv.snapshot mailbox hmailbox m hm)
  | quitting s mailbox pending =>
    intro id hid
    obtain ⟨hdeletes, m, hm, hmid⟩ := h id hid
    exact ⟨hdeletes.concat, m, mem_archive_concat hm, hmid⟩
  | gone => trivial

-- which marks there are behind a command of the session
theorem SessionInv.marked_command {i : Nat} {s : Pop3Session}
    (h : SessionInv check store tls history i s)
    (hthread : (Shared.run check store tls history).threads i = .idle s) (command : PopCommand)
    (mailbox : Str) (id : Nat) :
    Marked check store tls i mailbox id (history ++ [.command i command]) ↔
      (∃ n m, command = .dele n ∧ s.state = .transaction ∧ s.mailbox = some mailbox ∧
        s.messageAt n = some m ∧ m.id = id) ∨
      ((s.mailbox = some mailbox ∧ id ∈ s.deleted) ∧ command ≠ .rset) := by
  unfold Marked
  rw [since_concat]
  refine or_congr ?_ (and_congr (h.marks mailbox id) (by simp))
  constructor
  · rintro ⟨n, m, he, ⟨s₁, hs₁, hrest⟩, hm⟩
    rw [hthread] at hs₁
    cases hs₁
    cases he
    exact ⟨n, m, rfl, hrest.1, hrest.2.1, hrest.2.2, hm⟩
  · rintro ⟨n, m, rfl, hstate, hmailbox, hat, hm⟩
    exact ⟨n, m, rfl, ⟨s, hthread, hstate, hmailbox, hat⟩, hm⟩

theorem SessionInv.move {i : Nat} {s s' : Pop3Session} {command : PopCommand}
    (h : SessionInv check store tls history i s)
    (hthread : (Shared.run check store tls history).threads i = .idle s)
    (hkept : ∀ mailbox, ((Shared.run check store tls history).store.mailboxes mailbox).Sublist
      ((archive store history).mailboxes mailbox))
    (hmoves : Moves check (Shared.run check store tls history).store s command s')
    (hopen : s'.state ≠ .closed) :
    SessionInv check store tls (history ++ [.command i command]) i s' := by
  have hnew := h.marked_command hthread command
  have harchive : ∀ mailbox, s.mailbox = some mailbox → ∀ m ∈ s.messages,
      m ∈ (archive store (history ++ [.command i command])).mailboxes mailbox :=
    fun mailbox hmailbox m hm => mem_archive_concat (h.snapshot mailbox hmailbox m hm)
  cases hmoves with
  | stay hstate hmailbox hmessages hdeleted hdele hrset =>
    refine ⟨?_, ?_, ?_, ?_, ?_⟩
    · intro mailbox id
      rw [hnew, hmailbox, hdeleted]
      apply Iff.intro
      · rintro (⟨n, m, hcommand, htransaction, -, hat, -⟩ | ⟨hold, -⟩)
        · rw [hdele htransaction n hcommand] at hat
          cases hat
        · exact hold
      · intro hold
        refine .inr ⟨hold, ?_⟩
        -- a session with marks is logged in
        cases hs : s.state with
        | transaction => exact hrset hs
        | authorization =>
          rw [(h.fresh hs).1] at hold
          cases hold.1
        | closed =>
          rw [hstate] at hopen
          exact absurd hs hopen
    · rw [hstate, hmailbox, hdeleted]
      exact h.fresh
    · rw [hstate, hmailbox]
      exact h.mailbox
    · rw [hmailbox, hmessages]
      exact harchive
    · rw [hdeleted, hmessages]
      exact h.own
  | @login user password hstate =>
    obtain ⟨hnone, hnil⟩ := h.fresh hstate
    refine ⟨?_, fun hs => (by cases hs), fun _ => rfl, ?_, ?_⟩
    · intro mailbox id
      rw [hnew, hnone, hnil]
      simp
    · intro mailbox hmailbox m hm
      cases hmailbox
      exact mem_archive_concat ((hkept user).subset hm)
    · intro id hid
      change id ∈ s.deleted at hid
      rw [hnil] at hid
      cases hid
  | @mark n m hstate hat =>
    refine ⟨?_, fun hs => (by cases hs), fun _ => h.mailbox hstate, harchive, ?_⟩
    · intro mailbox id
      rw [hnew]
      apply Iff.intro
      · rintro (⟨n', m', hn, -, hmailbox, hat', hid⟩ | ⟨⟨hmailbox, hid⟩, -⟩)
        · cases hn
          rw [hat] at hat'
          cases hat'
          exact ⟨hmailbox, by rw [← hid]; exact List.mem_cons_self⟩
        · exact ⟨hmailbox, List.mem_cons_of_mem _ hid⟩
      · rintro ⟨hmailbox, hid⟩
        rcases List.mem_cons.mp hid with rfl | hid
        · exact .inl ⟨n, m, rfl, hstate, hmailbox, hat, rfl⟩
        · exact .inr ⟨⟨hmailbox, hid⟩, by simp⟩
    · intro id hid
      rcases List.mem_cons.mp hid with rfl | hid
      · exact ⟨m, mem_of_messageAt (s := s) hat, rfl⟩
      · exact h.own id hid
  | reset hstate =>
    refine ⟨?_, fun hs => (by cases hs), fun _ => h.mailbox hstate, harchive, by simp⟩
    intro mailbox id
    rw [hnew]
    simp
  | close => exact absurd rfl hopen

/-- What has been removed changes with an effective `remove` only. -/
theorem removed_concat_of_not {mailbox : Str} {id : Nat}
    (h : ∀ i s pending, e = .remove i id →
      (Shared.run check store tls history).threads i = .quitting s mailbox pending →
      id ∉ pending) :
    Removed check store tls mailbox id (history ++ [e]) ↔
      Removed check store tls mailbox id history := by
  apply exists_congr
  intro i
  unfold RemovedBy
  rw [once_concat, or_iff_right]
  rintro ⟨s, pending, he, hthread, hmem⟩
  exact h i s pending he hthread hmem

theorem removed_concat_remove {i k : Nat} {s : Pop3Session} {box : Str} {pending : List Nat}
    (hthread : (Shared.run check store tls history).threads i = .quitting s box pending)
    (hmem : k ∈ pending) {mailbox : Str} {id : Nat} :
    Removed check store tls mailbox id (history ++ [.remove i k]) ↔
      (mailbox = box ∧ id = k) ∨ Removed check store tls mailbox id history := by
  apply Iff.intro
  · rintro ⟨j, hj⟩
    rcases once_concat.mp hj with ⟨s', pending', he, hthread', -⟩ | hold
    · cases he
      rw [hthread] at hthread'
      cases hthread'
      exact .inl ⟨rfl, rfl⟩
    · exact .inr ⟨j, hold⟩
  · rintro (⟨rfl, rfl⟩ | ⟨j, hold⟩)
    · exact ⟨i, once_concat.mpr (.inl ⟨s, pending, rfl, hthread, hmem⟩)⟩
    · exact ⟨j, once_concat.mpr (.inr hold)⟩

/-- A new deletion is that of a logged-in session's `QUIT`, with its marks. -/
theorem SharedInv.of_deletes_concat {w : Shared} (h : SharedInv check store tls history w)
    (hw : Shared.run check store tls history = w) {mailbox : Str} {id : Nat}
    (hdeletes : Deletes check store tls mailbox id (history ++ [e])) :
    Deletes check store tls mailbox id history ∨
      ∃ i s, e = .command i .quit ∧ w.threads i = .idle s ∧ s.state = .transaction ∧
        s.mailbox = some mailbox ∧ id ∈ s.deleted := by
  rcases once_concat.mp hdeletes with ⟨i, s, he, hthread, hstate, hmarked⟩ | hold
  · rw [hw] at hthread
    have hfollows := h.threads i
    rw [hthread] at hfollows
    have hmarks := ((hfollows (by rw [hstate]; simp)).marks mailbox id).mp hmarked
    exact .inr ⟨i, s, he, hthread, hstate, hmarks.1, hmarks.2⟩
  · exact .inl hold

theorem Shared.Removing.set {w : Shared} {mailbox : Str} {id i : Nat} (h : w.Removing mailbox id)
    {s : Pop3Session} (hthread : w.threads i = .idle s) (t : Thread) :
    (w.set i t).Removing mailbox id := by
  obtain ⟨j, s', pending, hj, hmem⟩ := h
  have hne : j ≠ i := by
    rintro rfl
    rw [hthread] at hj
    cases hj
  exact ⟨j, s', pending, (threads_set_of_ne w t hne).trans hj, hmem⟩

end

/-! ## 6. Every step keeps it -/

section
variable {check : Str → Str → Bool} {store : MailStore} {tls : Nat → Option Bool}
  {history : List Event} {w : Shared}

theorem SharedInv.deliver (h : SharedInv check store tls history w)
    (hw : Shared.run check store tls history = w) (mailbox : Str) (message : Message) :
    SharedInv check store tls (history ++ [.deliver mailbox message])
      { w with store := (w.store.deliver mailbox message).2 } := by
  have hremoved : ∀ box id, Removed check store tls box id (history ++ [.deliver mailbox message]) ↔
      Removed check store tls box id history :=
    fun box id => removed_concat_of_not (by simp)
  refine ⟨fun i => (h.threads i).concat (by simp), ?_, ?_, ?_, ?_, ?_⟩
  · rw [archive_concat]
    exact congrArg (· + 1) h.nextId
  · intro box
    rw [archive_concat]
    change (if box = mailbox then _ else _ : List StoredMessage).Sublist
      (if box = mailbox then _ else _)
    rw [h.nextId]
    split
    · exact (h.kept box).append (List.Sublist.refl _)
    · exact h.kept box
  · intro box m hm
    rw [hremoved]
    rw [archive_concat] at hm
    change m ∈ (if box = mailbox then _ else _ : List StoredMessage) at hm
    change m ∈ (if box = mailbox then _ else _ : List StoredMessage) ↔ _
    by_cases hbox : box = mailbox
    · rw [if_pos hbox, List.mem_append] at hm ⊢
      rw [h.nextId]
      rcases hm with hm | hm
      · -- an old message is not the new one
        have hle := (archive store history).issued box m hm
        rw [or_iff_left (fun hnew => by
          rw [List.mem_singleton.mp hnew] at hle
          exact absurd hle (by simp))]
        exact h.present box m hm
      · apply iff_of_true (.inr hm)
        intro hgone
        obtain ⟨-, m', hm', hid⟩ := h.removed box m.id hgone
        have hle := (archive store history).issued box m' hm'
        rw [hid, List.mem_singleton.mp hm] at hle
        exact absurd hle (by simp)
    · rw [if_neg hbox] at hm ⊢
      exact h.present box m hm
  · intro box id hgone
    obtain ⟨hdeletes, m, hm, hid⟩ := h.removed box id ((hremoved box id).mp hgone)
    exact ⟨hdeletes.concat, m, mem_archive_concat hm, hid⟩
  · intro box id hdeletes
    rw [hremoved]
    rcases h.of_deletes_concat hw hdeletes with hold | ⟨i, s, he, -⟩
    · exact h.deleted box id hold
    · cases he

-- the events that leave the store alone
theorem SharedInv.same_store {e : Event} {w' : Shared} (h : SharedInv check store tls history w)
    (hw : Shared.run check store tls history = w)
    (hdeliver : ∀ mailbox message, e ≠ .deliver mailbox message)
    (hremove : ∀ i id s mailbox pending, e = .remove i id →
      w.threads i = .quitting s mailbox pending → id ∉ pending)
    (hstore : w'.store = w.store)
    (hthreads : ∀ i, Follows check store tls (history ++ [e]) i (w'.threads i))
    (hold : ∀ mailbox id, w.Removing mailbox id → w'.Removing mailbox id)
    (hnew : ∀ i s mailbox id, e = .command i .quit → w.threads i = .idle s →
      s.state = .transaction → s.mailbox = some mailbox → id ∈ s.deleted →
      w'.Removing mailbox id) :
    SharedInv check store tls (history ++ [e]) w' := by
  have harchive : archive store (history ++ [e]) = archive store history := by
    rw [archive_concat]
    split
    · exact absurd rfl (hdeliver _ _)
    · rfl
  have hremoved : ∀ mailbox id, Removed check store tls mailbox id (history ++ [e]) ↔
      Removed check store tls mailbox id history := by
    intro mailbox id
    apply removed_concat_of_not
    rw [hw]
    exact fun i s pending => hremove i id s mailbox pending
  refine ⟨hthreads, ?_, ?_, ?_, ?_, ?_⟩
  · rw [hstore, harchive]
    exact h.nextId
  · rw [hstore, harchive]
    exact h.kept
  · intro mailbox m hm
    rw [hstore, hremoved]
    rw [harchive] at hm
    exact h.present mailbox m hm
  · intro mailbox id hgone
    rw [harchive]
    obtain ⟨hdeletes, hm⟩ := h.removed mailbox id ((hremoved mailbox id).mp hgone)
    exact ⟨hdeletes.concat, hm⟩
  · intro mailbox id hdeletes
    rw [hremoved]
    rcases h.of_deletes_concat hw hdeletes with hbefore | ⟨i, s, he, hi, hstate, hmailbox, hmem⟩
    · exact (h.deleted mailbox id hbefore).imp_right (hold mailbox id)
    · exact .inr (hnew i s mailbox id he hi hstate hmailbox hmem)

-- only the thread that moves needs a look
theorem follows_set (h : SharedInv check store tls history w) {e : Event} {i : Nat} {t : Thread}
    (he : ∀ j, j ≠ i → ∀ command, e ≠ .command j command)
    (hmoved : Follows check store tls (history ++ [e]) i t) (j : Nat) :
    Follows check store tls (history ++ [e]) j ((w.set i t).threads j) := by
  by_cases hj : j = i
  · rw [hj, threads_set_self]
    exact hmoved
  · rw [threads_set_of_ne w t hj]
    exact (h.threads j).concat fun _ _ => he j hj

theorem SharedInv.command {i : Nat} {s s' : Pop3Session} {command : PopCommand}
    (h : SharedInv check store tls history w) (hw : Shared.run check store tls history = w)
    (hthread : w.threads i = .idle s) (hmoves : Moves check w.store s command s')
    (hquit : command = .quit → ¬ (s.state = .transaction ∧ s.mailbox.isSome)) :
    SharedInv check store tls (history ++ [.command i command]) (w.set i (.idle s')) := by
  refine h.same_store hw (by simp) (by simp) rfl ?_ (fun _ _ hr => hr.set hthread _) ?_
  · apply follows_set h (fun j hj command' he => hj (by cases he; rfl))
    intro hopen
    have hfollows := h.threads i
    rw [hthread] at hfollows
    have hbefore : s.state ≠ .closed := by
      intro hclosed
      cases hmoves with
      | stay hstate => exact hopen (hstate.trans hclosed)
      | login hstate => rw [hclosed] at hstate; cases hstate
      | mark hstate => rw [hclosed] at hstate; cases hstate
      | reset hstate => rw [hclosed] at hstate; cases hstate
      | close => exact hopen rfl
    subst hw
    exact (hfollows hbefore).move hthread h.kept hmoves hopen
  · intro j s₁ mailbox id he hj hstate hmailbox
    cases he
    rw [hthread] at hj
    cases hj
    exact absurd ⟨hstate, by rw [hmailbox]; rfl⟩ (hquit rfl)

theorem SharedInv.quit {i : Nat} {s : Pop3Session} {mailbox : Str}
    (h : SharedInv check store tls history w) (hw : Shared.run check store tls history = w)
    (hthread : w.threads i = .idle s) (hstate : s.state = .transaction)
    (hmailbox : s.mailbox = some mailbox) :
    SharedInv check store tls (history ++ [.command i .quit])
      (w.set i (quitLoop s mailbox s.deleted)) := by
  have hfollows := h.threads i
  rw [hthread] at hfollows
  have hinv : SessionInv check store tls history i s := hfollows (by rw [hstate]; simp)
  refine h.same_store hw (by simp) (by simp) rfl ?_ (fun _ _ hr => hr.set hthread _) ?_
  · apply follows_set h (fun j hj command' he => hj (by cases he; rfl))
    by_cases hnil : s.deleted = []
    · rw [hnil]
      exact fun hopen => absurd rfl hopen
    · obtain ⟨first, hfirst⟩ := List.exists_mem_of_ne_nil _ hnil
      rw [quitLoop_of_mem hfirst]
      intro id hid
      have hmarked := (hinv.marks mailbox id).mpr ⟨hmailbox, hid⟩
      obtain ⟨m, hm, hmid⟩ := hinv.own id hid
      exact ⟨once_concat.mpr (.inl ⟨i, s, rfl, hw ▸ hthread, hstate, hmarked⟩), m,
        mem_archive_concat (hinv.snapshot mailbox hmailbox m hm), hmid⟩
  · intro j s₁ box id he hj _ hbox hmem
    cases he
    rw [hthread] at hj
    cases hj
    rw [hmailbox] at hbox
    cases hbox
    exact ⟨i, s, s.deleted, (threads_set_self _ _ _).trans (quitLoop_of_mem hmem), hmem⟩

theorem SharedInv.remove {i k : Nat} {s : Pop3Session} {box : Str} {pending : List Nat}
    (h : SharedInv check store tls history w) (hw : Shared.run check store tls history = w)
    (hthread : w.threads i = .quitting s box pending) (hmem : k ∈ pending) :
    SharedInv check store tls (history ++ [.remove i k])
      ({ w with store := (w.store.remove box k).2 }.set i (quitLoop s box (pending.erase k))) := by
  have harchive : archive store (history ++ [.remove i k]) = archive store history :=
    archive_concat _ _ _
  have hremoved : ∀ mailbox id, Removed check store tls mailbox id (history ++ [.remove i k]) ↔
      (mailbox = box ∧ id = k) ∨ Removed check store tls mailbox id history :=
    fun _ _ => removed_concat_remove (hw ▸ hthread) hmem
  have hfollows := h.threads i
  rw [hthread] at hfollows
  refine ⟨?_, ?_, ?_, ?_, ?_, ?_⟩
  · intro j
    by_cases hj : j = i
    · rw [hj, threads_set_self]
      by_cases hnil : pending.erase k = []
      · rw [hnil]
        exact fun hopen => absurd rfl hopen
      · obtain ⟨first, hfirst⟩ := List.exists_mem_of_ne_nil _ hnil
        rw [quitLoop_of_mem hfirst]
        intro id hid
        obtain ⟨hdeletes, m, hm, hmid⟩ := hfollows id (List.mem_of_mem_erase hid)
        exact ⟨hdeletes.concat, m, mem_archive_concat hm, hmid⟩
    · rw [threads_set_of_ne _ _ hj]
      exact (h.threads j).concat (by simp)
  · rw [harchive]
    exact h.nextId
  · intro mailbox
    rw [harchive]
    change (if mailbox = box then _ else _ : List StoredMessage).Sublist _
    split
    · exact List.filter_sublist.trans (h.kept mailbox)
    · exact h.kept mailbox
  · intro mailbox m hm
    rw [harchive] at hm
    rw [hremoved, not_or, ← h.present mailbox m hm]
    change m ∈ (if mailbox = box then _ else _ : List StoredMessage) ↔ _
    by_cases hbox : mailbox = box
    · rw [if_pos hbox, List.mem_filter, decide_eq_true_iff, and_comm]
      exact and_congr_left' ⟨fun hne hand => hne hand.2, fun hnot hid => hnot ⟨hbox, hid⟩⟩
    · rw [if_neg hbox]
      exact ⟨fun hin => ⟨fun hand => hbox hand.1, hin⟩, And.right⟩
  · intro mailbox id hgone
    rw [harchive]
    rcases (hremoved mailbox id).mp hgone with ⟨rfl, rfl⟩ | hold
    · obtain ⟨hdeletes, hm⟩ := hfollows id hmem
      exact ⟨hdeletes.concat, hm⟩
    · obtain ⟨hdeletes, hm⟩ := h.removed mailbox id hold
      exact ⟨hdeletes.concat, hm⟩
  · intro mailbox id hdeletes
    rw [hremoved]
    rcases h.of_deletes_concat hw hdeletes with hbefore | ⟨j, s₁, he, -⟩
    · rcases h.deleted mailbox id hbefore with hold | ⟨j, s₁, pending₁, hj, hid⟩
      · exact .inl (.inr hold)
      · by_cases hji : j = i
        · rw [hji, hthread] at hj
          cases hj
          by_cases hk : id = k
          · exact .inl (.inl ⟨rfl, hk⟩)
          · have herase : id ∈ pending.erase k := (List.mem_erase_of_ne hk).mpr hid
            exact .inr ⟨i, s, _, (threads_set_self _ _ _).trans (quitLoop_of_mem herase), herase⟩
        · exact .inr ⟨j, s₁, pending₁, (threads_set_of_ne _ _ hji).trans hj, hid⟩
    · cases he

theorem SharedInv.step (h : SharedInv check store tls history w)
    (hw : Shared.run check store tls history = w) {e : Event} {w' : Shared}
    (hdoes : Does check w e w') : SharedInv check store tls (history ++ [e]) w' := by
  cases hdoes with
  | deliver mailbox message => exact h.deliver hw mailbox message
  | command hthread hmoves hquit => exact h.command hw hthread hmoves hquit
  | quit hthread hstate hmailbox => exact h.quit hw hthread hstate hmailbox
  | remove hthread hmem => exact h.remove hw hthread hmem
  | drop hthread =>
    refine h.same_store hw (by simp) (by simp) rfl ?_ (fun _ _ hr => hr.set hthread _) (by simp)
    exact follows_set h (by simp) trivial
  | nothing hdeliver hcommand hremove =>
    refine h.same_store hw hdeliver hremove rfl ?_ (fun _ _ hr => hr) ?_
    · intro i
      apply (h.threads i).concat
      intro s hs command he
      exact hcommand i s command he hs
    · intro i s mailbox id he hi
      exact absurd hi (hcommand i s _ he)

theorem sharedInv_run (check : Str → Str → Bool) (store : MailStore) (tls : Nat → Option Bool)
    (history : List Event) :
    SharedInv check store tls history (Shared.run check store tls history) := by
  induction history using List.reverseRecOn with
  | nil =>
    have hnone : ∀ mailbox id, ¬ Removed check store tls mailbox id [] := by
      rintro mailbox id ⟨i, hi⟩
      exact not_once_nil hi
    refine ⟨?_, rfl, fun mailbox => List.Sublist.refl _, ?_, ?_, ?_⟩
    · intro i _
      have hmarked : ∀ mailbox id, ¬ Marked check store tls i mailbox id [] :=
        fun mailbox id => not_since_nil
      have hfresh : (Pop3Session.opened (tls i)).mailbox = none ∧
          (Pop3Session.opened (tls i)).deleted = [] ∧
          (Pop3Session.opened (tls i)).state = .authorization := by
        cases tls i with
        | none => exact ⟨rfl, rfl, rfl⟩
        | some active => exact ⟨rfl, rfl, rfl⟩
      refine ⟨?_, fun _ => ⟨hfresh.1, hfresh.2.1⟩, ?_, ?_, ?_⟩
      · intro mailbox id
        refine iff_of_false (hmarked mailbox id) ?_
        rw [hfresh.1]
        rintro ⟨hsome, -⟩
        cases hsome
      · rw [hfresh.2.2]
        intro hs
        cases hs
      · rw [hfresh.1]
        intro mailbox hsome
        cases hsome
      · rw [hfresh.2.1]
        simp
    · intro mailbox m hm
      exact iff_of_true hm (hnone mailbox m.id)
    · exact fun mailbox id hgone => absurd hgone (hnone mailbox id)
    · exact fun mailbox id hdeletes => absurd hdeletes not_once_nil
  | append_singleton history e ih =>
    rw [run_concat_pop]
    exact ih.step rfl (does_step check _ e)

end

end Snail.Access
