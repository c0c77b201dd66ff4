import Snail.Access.Pop

/-!
# Imap — IMAP sessions

`crates/access/src/imap.rs`, and `write_imap_response` of the socket layer.  A session reads the
shared mail store and never changes it.
-/

open Snail.Reasoning Snail.Mail

namespace Snail.Access

/-! ## 1. Commands -/

inductive FetchItem where
  | full
  | size
  deriving DecidableEq, Repr

inductive ImapCommand where
  | capability
  | startTls
  | login (username password : Str)
  | select (mailbox : Str)
  | list (reference pattern : Str)
  | fetch (seq : Nat) (item : FetchItem)
  | noop
  | logout
  deriving DecidableEq, Repr

structure TaggedCommand where
  tag : Str
  command : ImapCommand
  deriving DecidableEq, Repr

def unquote (s : Str) : Str :=
  ((['"'].isPrefixOf? s).bind fun rest => ['"'].isSuffixOf? rest).getD s

def fetchItem (item : Str) : Except Str FetchItem :=
  let name := toAsciiUppercase (trim item)
  if name = "RFC822".toList ∨ name = "BODY[]".toList ∨ name = "BODY.PEEK[]".toList then .ok .full
  else if name = "RFC822.SIZE".toList then .ok .size
  else .error ("unsupported FETCH item `".toList ++ name ++ "`".toList)

def fetchCommand (args : Str) : Except Str ImapCommand :=
  match splitOnce ' ' args with
  | none => .error "FETCH needs <seq> <item>".toList
  | some (seq, item) =>
      match parseUnsigned usizeMax seq with
      | none => .error "invalid sequence number".toList
      | some n => (fetchItem item).map (.fetch n)

def ImapCommand.parse (verb args : Str) : Except Str ImapCommand :=
  if verb = "CAPABILITY".toList then .ok .capability
  else if verb = "STARTTLS".toList then .ok .startTls
  else if verb = "NOOP".toList then .ok .noop
  else if verb = "LOGOUT".toList then .ok .logout
  else if verb = "LOGIN".toList then
    match splitOnce ' ' args with
    | none => .error "LOGIN needs <user> <pass>".toList
    | some (u, p) => .ok (.login (unquote u) (unquote (trim p)))
  else if verb = "SELECT".toList then .ok (.select (unquote args))
  else if verb = "LIST".toList then
    match splitOnce ' ' args with
    | none => .error "LIST needs <ref> <pattern>".toList
    | some (r, p) => .ok (.list (unquote r) (unquote (trim p)))
  else if verb = "FETCH".toList then fetchCommand args
  else .error ("unknown command `".toList ++ verb ++ "`".toList)

-- `splitn(3, ' ')`: the tag ends at the first space and at nothing else
def TaggedCommand.parse (text : Str) : Except Str TaggedCommand :=
  match splitOnce ' ' (trimEndCrLf text) with
  | none =>
      .error (if trimEndCrLf text = [] then "missing tag".toList else "missing command".toList)
  | some (tag, rest) =>
      if tag = [] then .error "missing tag".toList
      else
        let verbArgs := (splitOnce ' ' rest).getD (rest, [])
        (ImapCommand.parse (toAsciiUppercase verbArgs.1) (trim verbArgs.2)).map (.mk tag)

/-! ### Quoted strings -/

-- a quoted string of RFC 3501: a backslash in front of each quote and backslash
def escapeQuoted (s : Str) : Str :=
  s.flatMap fun c => if c = '"' ∨ c = '\\' then ['\\', c] else [c]

def quoted (s : Str) : Str := '"' :: escapeQuoted s ++ ['"']

def loginLine (tag username password : Str) : Str :=
  tag ++ ' ' :: ("LOGIN".toList ++ ' ' :: (quoted username ++ ' ' :: quoted password))

theorem length_escapeQuoted (s : Str) :
    (escapeQuoted s).length = s.length + s.countP fun c => c = '"' ∨ c = '\\' := by
  induction s with
  | nil => rfl
  | cons c s ih =>
    rw [escapeQuoted, List.flatMap_cons, List.length_append, List.countP_cons, List.length_cons]
    change _ + (escapeQuoted s).length = _
    rw [ih]
    by_cases hc : c = '"' ∨ c = '\\'
    · simp [hc]
      omega
    · simp [hc]
      omega

-- nothing is escaped exactly if there is nothing to escape
theorem escapeQuoted_eq_self_iff {s : Str} : escapeQuoted s = s ↔ '"' ∉ s ∧ '\\' ∉ s := by
  constructor
  · intro h
    have hlen := length_escapeQuoted s
    rw [h] at hlen
    have hzero : s.countP (fun c => c = '"' ∨ c = '\\') = 0 := by omega
    rw [List.countP_eq_zero] at hzero
    exact ⟨fun hq => hzero _ hq (by simp), fun hb => hzero _ hb (by simp)⟩
  · rintro ⟨hquote, hslash⟩
    have hid : ∀ c ∈ s, (if c = '"' ∨ c = '\\' then ['\\', c] else [c]) = [c] := by
      intro c hc
      rw [if_neg]
      rintro (rfl | rfl)
      · exact hquote hc
      · exact hslash hc
    rw [escapeQuoted, List.flatMap_congr hid, List.flatMap_singleton']

theorem space_mem_escapeQuoted {s : Str} : ' ' ∈ escapeQuoted s ↔ ' ' ∈ s := by
  unfold escapeQuoted
  rw [List.mem_flatMap]
  constructor
  · rintro ⟨c, hc, hspace⟩
    split at hspace
    · rename_i hesc
      rcases List.mem_cons.mp hspace with h | h
      · cases h
      · rw [List.mem_singleton.mp h]
        exact hc
    · rw [List.mem_singleton.mp hspace]
      exact hc
  · intro h
    exact ⟨' ', h, by decide⟩

theorem unquote_quoted (s : Str) : unquote (quoted s) = escapeQuoted s := by
  have hopen : ['"'].isPrefixOf? (quoted s) = some (escapeQuoted s ++ ['"']) :=
    List.isPrefixOf?_eq_some_iff_append_eq.mpr rfl
  have hclose : ['"'].isSuffixOf? (escapeQuoted s ++ ['"']) = some (escapeQuoted s) :=
    List.isSuffixOf?_eq_some_iff_append_eq.mpr rfl
  rw [unquote, hopen, Option.bind_some, hclose]
  rfl

-- what is read has no character that was not there
theorem mem_of_mem_unquote {s : Str} {c : Char} (h : c ∈ unquote s) : c ∈ s := by
  unfold unquote at h
  cases hopen : ['"'].isPrefixOf? s with
  | none =>
    rw [hopen] at h
    exact h
  | some rest =>
    rw [hopen, Option.bind_some] at h
    rw [List.isPrefixOf?_eq_some_iff_append_eq] at hopen
    cases hclose : ['"'].isSuffixOf? rest with
    | none =>
      rw [hclose] at h
      exact h
    | some inner =>
      rw [hclose] at h
      rw [List.isSuffixOf?_eq_some_iff_append_eq] at hclose
      rw [← hopen, ← hclose]
      exact List.mem_append_right _ (List.mem_append_left _ h)

theorem trimEndCrLf_concat_quote (s : Str) : trimEndCrLf (s ++ ['"']) = s ++ ['"'] := by
  rw [trimEndCrLf, List.reverse_concat, List.dropWhile_cons_of_neg (by decide),
    ← List.reverse_concat, List.reverse_reverse]

theorem trim_quoted (s : Str) : trim (quoted s) = quoted s :=
  trim_cons_concat (escapeQuoted s) (by decide) (by decide)

theorem parse_loginLine {tag u p : Str} (hne : tag ≠ []) (htag : ' ' ∉ tag) :
    TaggedCommand.parse (loginLine tag u p) =
      (ImapCommand.parse "LOGIN".toList (quoted u ++ ' ' :: quoted p)).map (.mk tag) := by
  -- the line ends with a quote, so neither end of it is trimmed
  have hend : trimEndCrLf (loginLine tag u p) = loginLine tag u p := by
    have hline : loginLine tag u p =
        (tag ++ " LOGIN ".toList ++ quoted u ++ ' ' :: '"' :: escapeQuoted p) ++ ['"'] := by
      simp [loginLine, quoted]
    rw [hline]
    exact trimEndCrLf_concat_quote _
  have hargs : trim (quoted u ++ ' ' :: quoted p) = quoted u ++ ' ' :: quoted p := by
    have hboth : quoted u ++ ' ' :: quoted p =
        '"' :: (escapeQuoted u ++ '"' :: ' ' :: '"' :: escapeQuoted p) ++ ['"'] := by
      simp [quoted]
    rw [hboth]
    exact trim_cons_concat _ (by decide) (by decide)
  have hverb : splitOnce ' ' ("LOGIN".toList ++ ' ' :: (quoted u ++ ' ' :: quoted p)) =
      some ("LOGIN".toList, quoted u ++ ' ' :: quoted p) :=
    splitOnce_append_cons (by decide)
  have hupper : toAsciiUppercase "LOGIN".toList = "LOGIN".toList := by decide
  rw [TaggedCommand.parse, hend, loginLine, splitOnce_append_cons htag]
  dsimp only
  rw [if_neg hne, hverb, Option.getD_some, hargs, hupper]

-- `LOGIN` cuts its arguments at the first space, quoted or not
theorem login_args {args u p : Str} (hu : ' ' ∉ u) (hargs : args = u ++ ' ' :: p) :
    ImapCommand.parse "LOGIN".toList args = .ok (.login (unquote u) (unquote (trim p))) := by
  rw [hargs, ImapCommand.parse, splitOnce_append_cons hu]
  rfl

/-- A `LOGIN` with quoted strings is understood exactly if there is no space in the username and
nothing in either string that has to be escaped. -/
theorem login_quoted_iff (tag u p : Str) (hne : tag ≠ []) (htag : ' ' ∉ tag) :
    TaggedCommand.parse (loginLine tag u p) = .ok ⟨tag, .login u p⟩ ↔
      (' ' ∉ u ∧ '"' ∉ u ∧ '\\' ∉ u) ∧ '"' ∉ p ∧ '\\' ∉ p := by
  rw [parse_loginLine hne htag]
  by_cases hspace : ' ' ∈ u
  · -- the username that is read ends before its first space
    obtain ⟨before, after, hsplit, hbefore⟩ := List.eq_append_cons_of_mem
      (List.mem_append_left (' ' :: quoted p) (show ' ' ∈ quoted u from
        List.mem_cons_of_mem _ (List.mem_append_left _ (space_mem_escapeQuoted.mpr hspace))))
    rw [login_args hbefore hsplit]
    constructor
    · intro h
      have hcmd : unquote before = u := by
        injection h with h
        injection h with _ h
        injection h
      rw [← hcmd] at hspace
      exact absurd (mem_of_mem_unquote hspace) hbefore
    · rintro ⟨⟨hno, -⟩, -⟩
      exact absurd hspace hno
  · have hquoted : ' ' ∉ quoted u := by
      simp [quoted, space_mem_escapeQuoted, hspace]
    rw [login_args hquoted rfl, trim_quoted, unquote_quoted, unquote_quoted,
      ← escapeQuoted_eq_self_iff, ← escapeQuoted_eq_self_iff]
    constructor
    · intro h
      injection h with h
      injection h with _ h
      injection h with hu hp
      exact ⟨⟨hspace, hu⟩, hp⟩
    · rintro ⟨⟨-, hu⟩, hp⟩
      rw [hu, hp]
      rfl

theorem login_quoted_iff_alice :
    TaggedCommand.parse (loginLine "a1".toList "alice".toList "two words".toList) =
      .ok ⟨"a1".toList, .login "alice".toList "two words".toList⟩ :=
  (login_quoted_iff "a1".toList "alice".toList "two words".toList (by decide) (by decide)).mpr
    (by decide)

-- a username with a space, and a password with a quote in it
theorem quoted_login_misread :
    TaggedCommand.parse (loginLine "a1".toList "al ice".toList "pw".toList) =
        .ok ⟨"a1".toList, .login "\"al".toList "ice\" \"pw\"".toList⟩ ∧
      TaggedCommand.parse (loginLine "a1".toList "alice".toList "p\"w".toList) =
        .ok ⟨"a1".toList, .login "alice".toList "p\\\"w".toList⟩ := by
  decide

/-! ## 2. Sessions -/

structure FetchLiteral where
  seq : Nat
  octets : Bytes
  deriving DecidableEq, Repr

structure ImapResponse where
  untagged : List Str
  fetchLiteral : Option FetchLiteral
  status : Str
  deriving DecidableEq, Repr

inductive ImapState where
  | notAuthenticated
  | authenticated
  | selected
  deriving DecidableEq, Repr

/-- `ImapSession`, less the borrowed authenticator and store. -/
structure ImapSession where
  state : ImapState
  user : Option Str
  selected : List StoredMessage
  tlsAvailable : Bool
  tlsActive : Bool

def ImapSession.new : ImapSession := ⟨.notAuthenticated, none, [], false, false⟩

def ImapSession.withTls (active : Bool) : ImapSession :=
  ⟨.notAuthenticated, none, [], true, active⟩

-- `LOGINDISABLED`
def ImapSession.needsTls (s : ImapSession) : Bool := s.tlsAvailable && !s.tlsActive

def inbox : Str := "INBOX".toList

/-- The store key of a mailbox name: the user's address for `INBOX`, else a path below it. -/
def mailboxKey (user name : Str) : Str :=
  if eqIgnoreAsciiCase name inbox then user else user ++ '/' :: name

-- the two kinds of status line
def okStatus (tag : Str) (text : String) : Str := tag ++ " OK ".toList ++ text.toList
def noStatus (tag : Str) (text : String) : Str := tag ++ " NO ".toList ++ text.toList

def ImapResponse.good (tag : Str) (text : String) : ImapResponse := ⟨[], none, okStatus tag text⟩
def ImapResponse.no (tag : Str) (text : String) : ImapResponse := ⟨[], none, noStatus tag text⟩

-- `seq.wrapping_sub(1)`: no list is long enough for what zero wraps to
def ImapSession.messageAt (s : ImapSession) : Nat → Option StoredMessage
  | 0 => none
  | i + 1 => s.selected[i]?

def fetchResponse (tag : Str) (seq : Nat) (m : StoredMessage) : FetchItem → ImapResponse
  | .size =>
      ⟨[showNat seq ++ " FETCH (RFC822.SIZE ".toList ++ showNat (octets m) ++ ")".toList], none,
        okStatus tag "FETCH completed"⟩
  | .full => ⟨[], some ⟨seq, m.message.toBytes⟩, okStatus tag "FETCH completed"⟩

def capabilities (s : ImapSession) : Str :=
  "CAPABILITY IMAP4rev1".toList ++ if s.needsTls then " STARTTLS LOGINDISABLED".toList else []

-- the commands that need a login
def ImapSession.handleAuthenticated (s : ImapSession) (store : MailStore) (tag : Str) :
    ImapCommand → ImapResponse × ImapSession
  | .select mailbox =>
      match s.user with
      | none => (.no tag "not authenticated", s)
      | some user =>
          let messages := store.list (mailboxKey user mailbox)
          (⟨[showNat messages.length ++ " EXISTS".toList, "FLAGS (\\Seen \\Deleted)".toList], none,
              okStatus tag "[READ-WRITE] SELECT completed"⟩,
            { s with selected := messages, state := .selected })
  | .list _ _ =>
      (⟨["LIST (\\HasNoChildren) \"/\" \"INBOX\"".toList], none, okStatus tag "LIST completed"⟩, s)
  | .fetch seq item =>
      if s.state ≠ .selected then (.no tag "no mailbox selected", s)
      else match s.messageAt seq with
        | some m => (fetchResponse tag seq m item, s)
        | none => (.no tag "no such message", s)
  | _ => (.no tag "must authenticate first", s)

/-- `ImapSession::handle`. -/
def ImapSession.handle (check : Str → Str → Bool) (s : ImapSession) (store : MailStore)
    (tagged : TaggedCommand) : ImapResponse × ImapSession :=
  match tagged.command with
  | .capability => (⟨[capabilities s], none, okStatus tagged.tag "CAPABILITY completed"⟩, s)
  | .startTls =>
      if s.tlsActive then (.no tagged.tag "STARTTLS already active", s)
      else if s.tlsAvailable then (.good tagged.tag "Begin TLS negotiation now", s)
      else (.no tagged.tag "STARTTLS not supported", s)
  | .noop => (.good tagged.tag "NOOP completed", s)
  | .logout =>
      (⟨["BYE Snail logging out".toList], none, okStatus tagged.tag "LOGOUT completed"⟩,
        { s with state := .notAuthenticated })
  | .login username password =>
      if s.needsTls then
        (.no tagged.tag "[PRIVACYREQUIRED] LOGIN disabled until STARTTLS", s)
      else if check username password then
        (.good tagged.tag "LOGIN completed",
          { s with user := some username, state := .authenticated })
      else (.no tagged.tag "LOGIN failed", s)
  | command =>
      if s.state = .notAuthenticated then (.no tagged.tag "must authenticate first", s)
      else s.handleAuthenticated store tagged.tag command

/-- `write_imap_response`. -/
def writeImapResponse (response : ImapResponse) : Bytes :=
  response.untagged.flatMap (fun line => ascii "* " ++ encodeUtf8 line ++ crlf) ++
    response.fetchLiteral.elim [] (fun lit =>
      ascii "* " ++ encodeUtf8 (showNat lit.seq) ++ ascii " FETCH (RFC822 \x7b" ++
        encodeUtf8 (showNat lit.octets.length) ++ ascii "\x7d\r\n" ++ lit.octets ++
        ascii ")\r\n") ++
    encodeUtf8 response.status ++ crlf

end Snail.Access
