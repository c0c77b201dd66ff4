import Snail.Access.Imap

/-!
# Isolation — whose mail an IMAP session can fetch

The mailboxes of all users share one key space: the inbox of a user lies under the plain username,
every other mailbox under the username, a slash and a name of the client's choice.
-/

open Snail.Reasoning Snail.Mail

namespace Snail.Access

/-! ## 1. Sessions -/

/-- A command, and the store as the command finds it. -/
structure ImapTurn where
  store : MailStore
  tagged : TaggedCommand

def ImapSession.run (check : Str → Str → Bool) (s : ImapSession) (turns : List ImapTurn) :
    ImapSession :=
  turns.foldl (fun s t => (s.handle check t.store t.tagged).2) s

-- the two ways a session begins
def ImapSession.Fresh (s : ImapSession) : Prop := s = .new ∨ ∃ active, s = .withTls active

-- someone can log in under this name
def Registered (check : Str → Str → Bool) (user : Str) : Prop := ∃ password, check user password

-- who has logged in once the command is done, if `last` has before
def loginAfter (check : Str → Str → Bool) (needsTls : Bool) (last : Option Str) :
    ImapCommand → Option Str
  | .login user password => if !needsTls && check user password then some user else last
  | _ => last

/-- The user who last logged in successfully. -/
def lastLogin (check : Str → Str → Bool) (start : ImapSession) (turns : List ImapTurn) :
    Option Str :=
  turns.foldl (fun last t => loginAfter check start.needsTls last t.tagged.command) none

section
variable {check : Str → Str → Bool} {start s : ImapSession} {turns : List ImapTurn} {t : ImapTurn}

theorem run_concat (s : ImapSession) (turns : List ImapTurn) (t : ImapTurn) :
    s.run check (turns ++ [t]) = ((s.run check turns).handle check t.store t.tagged).2 := by
  unfold ImapSession.run
  rw [List.foldl_append]
  rfl

theorem lastLogin_concat (check : Str → Str → Bool) (start : ImapSession) (turns : List ImapTurn)
    (t : ImapTurn) :
    lastLogin check start (turns ++ [t]) =
      loginAfter check start.needsTls (lastLogin check start turns) t.tagged.command := by
  unfold lastLogin
  rw [List.foldl_append]
  rfl

/-- What a command can do to a session: nothing, log out, log a user in, or select a mailbox of the
user. -/
theorem handle_cases (check : Str → Str → Bool) (s : ImapSession) (store : MailStore)
    (tagged : TaggedCommand) :
    ((s.handle check store tagged).2 = s ∧
        loginAfter check s.needsTls s.user tagged.command = s.user) ∨
      (tagged.command = .logout ∧
        (s.handle check store tagged).2 = { s with state := .notAuthenticated }) ∨
      (∃ user password, tagged.command = .login user password ∧
        loginAfter check s.needsTls s.user tagged.command = some user ∧
        (s.handle check store tagged).2 = { s with user := some user, state := .authenticated }) ∨
      ∃ user name, tagged.command = .select name ∧ s.user = some user ∧
        (s.handle check store tagged).2 =
          { s with selected := store.list (mailboxKey user name), state := .selected } := by
  rcases tagged with ⟨tag, command⟩
  cases command with
  | capability => exact .inl ⟨rfl, rfl⟩
  | noop => exact .inl ⟨rfl, rfl⟩
  | logout => exact .inr (.inl ⟨rfl, rfl⟩)
  | startTls =>
    left
    refine ⟨?_, rfl⟩
    dsimp only [ImapSession.handle]
    split
    · rfl
    · split
      · rfl
      · rfl
  | login user password =>
    dsimp only [ImapSession.handle, loginAfter]
    by_cases htls : s.needsTls = true
    · simp [htls]
    · by_cases hcheck : check user password = true
      · simp [htls, hcheck]
      · simp [htls, hcheck]
  | list reference pattern =>
    left
    refine ⟨?_, rfl⟩
    dsimp only [ImapSession.handle, ImapSession.handleAuthenticated]
    split
    · rfl
    · rfl
  | fetch seq item =>
    left
    refine ⟨?_, rfl⟩
    dsimp only [ImapSession.handle, ImapSession.handleAuthenticated]
    split
    · rfl
    · split
      · rfl
      · split
        · rfl
        · rfl
  | select name =>
    dsimp only [ImapSession.handle, ImapSession.handleAuthenticated]
    split
    · exact .inl ⟨rfl, rfl⟩
    · cases huser : s.user with
      | none => exact .inl ⟨rfl, rfl⟩
      | some user => exact .inr (.inr (.inr ⟨user, name, rfl, rfl, rfl⟩))

/-! ## 2. What is selected -/

/-- The session against its commands: the user is the one who last logged in, and what is selected
is what a `SELECT` of that user has listed. -/
structure Tracks (check : Str → Str → Bool) (start : ImapSession) (turns : List ImapTurn)
    (s : ImapSession) : Prop where
  needsTls : s.needsTls = start.needsTls
  user : s.user = lastLogin check start turns
  selected : s.state = .selected → ∃ user t name, t ∈ turns ∧ t.tagged.command = .select name ∧
    lastLogin check start turns = some user ∧ s.selected = t.store.list (mailboxKey user name)

theorem Tracks.step (h : Tracks check start turns s) (t : ImapTurn) :
    Tracks check start (turns ++ [t]) (s.handle check t.store t.tagged).2 := by
  have hlast := lastLogin_concat check start turns t
  rw [← h.user, ← h.needsTls] at hlast
  rcases handle_cases check s t.store t.tagged with ⟨hs, hsame⟩ | ⟨hcommand, hs⟩ |
    ⟨user, password, -, hlogin, hs⟩ | ⟨user, name, hcommand, huser, hs⟩
  · rw [hs]
    refine ⟨h.needsTls, by rw [hlast, hsame], ?_⟩
    intro hselected
    rcases h.selected hselected with ⟨user, t', name, hmem, hname, huser, hlist⟩
    exact ⟨user, t', name, List.mem_append_left _ hmem, hname,
      by rw [hlast, hsame, h.user, huser], hlist⟩
  · rw [hs]
    refine ⟨h.needsTls, by rw [hlast, hcommand]; rfl, ?_⟩
    intro hselected
    cases hselected
  · rw [hs]
    refine ⟨h.needsTls, by rw [hlast, hlogin], ?_⟩
    intro hselected
    cases hselected
  · rw [hs]
    have hkept : lastLogin check start (turns ++ [t]) = some user := by
      rw [hlast, hcommand]
      exact huser
    exact ⟨h.needsTls, by rw [hkept, ← huser],
      fun _ => ⟨user, t, name, by simp, hcommand, hkept, rfl⟩⟩

theorem tracks_run (hfresh : start.Fresh) (turns : List ImapTurn) :
    Tracks check start turns (start.run check turns) := by
  induction turns using List.reverseRecOn with
  | nil =>
    rcases hfresh with rfl | ⟨active, rfl⟩
    · exact ⟨rfl, rfl, fun h => by cases h⟩
    · exact ⟨rfl, rfl, fun h => by cases h⟩
  | append_singleton turns t ih =>
    rw [run_concat]
    exact ih.step t

-- a `FETCH` that returns anything returns a selected message
theorem fetch_selected {store : MailStore} {tag : Str} {seq : Nat} {item : FetchItem}
    (h : (s.handle check store ⟨tag, .fetch seq item⟩).1.untagged ≠ [] ∨
      (s.handle check store ⟨tag, .fetch seq item⟩).1.fetchLiteral.isSome) :
    s.state = .selected ∧ ∃ m ∈ s.selected,
      (s.handle check store ⟨tag, .fetch seq item⟩).1 = fetchResponse tag seq m item := by
  dsimp only [ImapSession.handle, ImapSession.handleAuthenticated] at h ⊢
  by_cases hauth : s.state = .notAuthenticated
  · simp [hauth, ImapResponse.no] at h
  · rw [if_neg hauth] at h ⊢
    by_cases hselected : s.state = .selected
    · rw [if_neg (not_not.mpr hselected)] at h ⊢
      cases hm : s.messageAt seq with
      | none => simp [hm, ImapResponse.no] at h
      | some m =>
        refine ⟨hselected, m, ?_, rfl⟩
        cases seq with
        | zero => cases hm
        | succ i => exact List.mem_of_getElem? hm
    · simp [hselected, ImapResponse.no] at h

end

/-! ## 3. Keys -/

theorem mailboxKey_eq_self_iff {user name : Str} :
    mailboxKey user name = user ↔ eqIgnoreAsciiCase name inbox = true := by
  unfold mailboxKey
  split
  · rename_i h
    exact ⟨fun _ => h, fun _ => rfl⟩
  · rename_i h
    refine ⟨fun hkey => ?_, fun hname => absurd hname h⟩
    have hlen := congrArg List.length hkey
    rw [List.length_append, List.length_cons] at hlen
    omega

theorem mailboxKey_of_ne_inbox (user : Str) {name : Str}
    (h : ¬ eqIgnoreAsciiCase name inbox = true) :
    mailboxKey user name = user ++ '/' :: name := if_neg h

/-- No name that someone can log in with is another such name followed by a slash, unless only the
inbox follows. -/
def Separated (check : Str → Str → Bool) : Prop :=
  ∀ user name, Registered check user → Registered check (user ++ '/' :: name) →
    eqIgnoreAsciiCase name inbox = true

theorem mailboxKey_ne_iff_separated {check : Str → Str → Bool} :
    (∀ u v, Registered check u → Registered check v → u ≠ v → ∀ name, mailboxKey u name ≠ v) ↔
      Separated check := by
  apply Iff.intro
  · intro h user name huser hother
    by_contra hname
    have hne : user ≠ user ++ '/' :: name := by simp
    exact h _ _ huser hother hne name (mailboxKey_of_ne_inbox _ hname)
  · rintro h u v hu hv hne name rfl
    have hname : ¬ eqIgnoreAsciiCase name inbox = true := fun hname =>
      hne (mailboxKey_eq_self_iff.mpr hname).symm
    rw [mailboxKey_of_ne_inbox _ hname] at hv
    exact hname (h u name hu hv)

/-! ## 4. Isolation -/

/-- Whatever a `FETCH` returns was listed by a `SELECT` from a mailbox of the user who last logged
in: the inbox, or one that is nobody else's inbox. -/
def Isolated (check : Str → Str → Bool) : Prop :=
  ∀ (start : ImapSession) (turns : List ImapTurn) (store : MailStore) (tag : Str) (seq : Nat)
    (item : FetchItem), start.Fresh →
    (((start.run check turns).handle check store ⟨tag, .fetch seq item⟩).1.untagged ≠ [] ∨
      ((start.run check turns).handle check store ⟨tag, .fetch seq item⟩).1.fetchLiteral.isSome) →
    ∃ user t name m, lastLogin check start turns = some user ∧
      t ∈ turns ∧ t.tagged.command = .select name ∧ m ∈ t.store.list (mailboxKey user name) ∧
      ((start.run check turns).handle check store ⟨tag, .fetch seq item⟩).1 =
        fetchResponse tag seq m item ∧
      (mailboxKey user name = user ∨
        ∀ other, Registered check other → other ≠ user → mailboxKey user name ≠ other)

theorem registered_of_lastLogin {check : Str → Str → Bool} {start : ImapSession}
    {turns : List ImapTurn} {user : Str} (h : lastLogin check start turns = some user) :
    Registered check user := by
  induction turns using List.reverseRecOn with
  | nil => cases h
  | append_singleton turns t ih =>
    rw [lastLogin_concat] at h
    unfold loginAfter at h
    split at h
    · rename_i u password _
      by_cases hlogin : (!start.needsTls && check u password) = true
      · rw [if_pos hlogin] at h
        cases h
        exact ⟨password, (Bool.and_eq_true_iff.mp hlogin).2⟩
      · rw [if_neg hlogin] at h
        exact ih h
    · exact ih h

-- a store with one message, in one mailbox
def storeWith (mailbox : Str) (message : Message) : MailStore :=
  (MailStore.empty.deliver mailbox message).2

theorem list_storeWith (mailbox : Str) (message : Message) :
    (storeWith mailbox message).list mailbox = [⟨1, message⟩] := by
  unfold storeWith MailStore.list MailStore.deliver
  simp [MailStore.empty]

theorem isolated_of_separated {check : Str → Str → Bool} (h : Separated check) :
    Isolated check := by
  intro start turns store tag seq item hfresh hdata
  rcases fetch_selected hdata with ⟨hselected, m, hm, hresponse⟩
  rcases (tracks_run hfresh turns).selected hselected with
    ⟨user, t, name, hmem, hcommand, hlast, hlist⟩
  rw [hlist] at hm
  refine ⟨user, t, name, m, hlast, hmem, hcommand, hm, hresponse, ?_⟩
  by_cases hname : eqIgnoreAsciiCase name inbox = true
  · exact .inl (mailboxKey_eq_self_iff.mpr hname)
  · right
    intro other hother hne
    exact mailboxKey_ne_iff_separated.mpr h user other (registered_of_lastLogin hlast) hother
      hne.symm name

-- a user selects the inbox of another as a mailbox of their own
theorem separated_of_isolated {check : Str → Str → Bool} (h : Isolated check) :
    Separated check := by
  rintro user name ⟨password, hcheck⟩ hother
  by_contra hname
  have hkey := mailboxKey_of_ne_inbox user hname
  let store := storeWith (user ++ '/' :: name) hiMessage
  let turns : List ImapTurn :=
    [⟨store, [], .login user password⟩, ⟨store, [], .select name⟩]
  have hlast : lastLogin check .new turns = some user := by
    simp [turns, lastLogin, loginAfter, ImapSession.needsTls, ImapSession.new, hcheck]
  have hrun : (ImapSession.new.run check turns) =
      ⟨.selected, some user, [⟨1, hiMessage⟩], false, false⟩ := by
    have hlist : store.list (mailboxKey user name) = [⟨1, hiMessage⟩] := by
      rw [hkey]
      exact list_storeWith _ _
    simp [turns, ImapSession.run, ImapSession.handle, ImapSession.handleAuthenticated,
      ImapSession.needsTls, ImapSession.new, hcheck, hlist]
  rcases h .new turns store [] 1 .full (.inl rfl) (by rw [hrun]; exact .inr rfl) with
    ⟨user', t, name', m, huser, hmem, hcommand, -, -, hseparate⟩
  rw [hlast] at huser
  cases huser
  -- the only `SELECT` is the one of `name`
  have hsame : name' = name := by
    rcases List.mem_cons.mp hmem with rfl | hmem
    · cases hcommand
    · rw [List.mem_singleton.mp hmem] at hcommand
      cases hcommand
      rfl
  rw [hsame] at hseparate
  rcases hseparate with hself | hseparate
  · exact hname (mailboxKey_eq_self_iff.mp hself)
  · exact hseparate _ hother (by simp) hkey

/-- IMAP users are isolated from one another exactly when their names are separated, and exactly
then no mailbox name of one user makes the key of another's inbox. -/
theorem imap_isolates_users_iff (check : Str → Str → Bool) :
    Isolated check ∧
        (∀ u v, Registered check u → Registered check v → u ≠ v →
          ∀ name, mailboxKey u name ≠ v) ↔
      Separated check :=
  ⟨fun h => separated_of_isolated h.1,
    fun h => ⟨isolated_of_separated h, mailboxKey_ne_iff_separated.mpr h⟩⟩

-- two users; the name of the second is an address with a local part of its own
def nestedNames (user password : Str) : Bool :=
  (user = "a@x.org".toList || user = "a@x.org/b@x.org".toList) && password = "pw".toList

def nestedStore : MailStore := storeWith "a@x.org/b@x.org".toList hiMessage

def nestedTurns : List ImapTurn :=
  [⟨nestedStore, "1".toList, .login "a@x.org".toList "pw".toList⟩,
    ⟨nestedStore, "2".toList, .select "b@x.org".toList⟩]

/-- Mail for `a@x.org/b@x.org` is fetched by `a@x.org` from a mailbox of that user's own. -/
theorem fetch_of_nested_user :
    Mailbox.parse "a@x.org/b@x.org".toList = .ok ⟨"a@x.org/b".toList, "x.org".toList⟩ ∧
    TaggedCommand.parse "1 LOGIN a@x.org pw\r\n".toList =
      .ok ⟨"1".toList, .login "a@x.org".toList "pw".toList⟩ ∧
    TaggedCommand.parse "2 SELECT b@x.org\r\n".toList =
      .ok ⟨"2".toList, .select "b@x.org".toList⟩ ∧
    TaggedCommand.parse "3 FETCH 1 RFC822\r\n".toList = .ok ⟨"3".toList, .fetch 1 .full⟩ ∧
    ((ImapSession.new.run nestedNames nestedTurns).handle nestedNames nestedStore
        ⟨"3".toList, .fetch 1 .full⟩).1.fetchLiteral = some ⟨1, hiMessage.toBytes⟩ ∧
    mailboxKey "a@x.org".toList "b@x.org".toList = "a@x.org/b@x.org".toList ∧
    ¬ Isolated nestedNames := by
  refine ⟨by decide, by decide, by decide, by decide, by decide, by decide, ?_⟩
  intro h
  have hsame := separated_of_isolated h "a@x.org".toList "b@x.org".toList
    ⟨"pw".toList, by decide⟩ ⟨"pw".toList, by decide⟩
  exact absurd hsame (by decide)

end Snail.Access
