import Snail.Mail.Delivery
import Snail.Mail.Outbound

/-!
# Pop — POP3 sessions

`crates/access/src/pop.rs`, and `write_pop_reply` of the socket layer.  The credential backend is a
parameter of the session; the mail store is shared and passed along.
-/

open Snail.Reasoning Snail.Mail

namespace Snail.Access

-- the greatest `usize`
def usizeMax : Nat := 2 ^ 64 - 1

inductive PopCommand where
  | capa
  | stls
  | user (name : Str)
  | pass (password : Str)
  | stat
  | list (msg : Option Nat)
  | retr (msg : Nat)
  | dele (msg : Nat)
  | rset
  | noop
  | quit
  deriving DecidableEq, Repr

def popNumber (arg : Str) : Except Str Nat :=
  match parseUnsigned usizeMax arg with
  | some n => .ok n
  | none => .error ("invalid message number `".toList ++ arg ++ "`".toList)

def PopCommand.parse (text : Str) : Except Str PopCommand :=
  let line := trimEndCrLf text
  let verbArg := match splitOnce ' ' line with
    | some (v, a) => (v, trim a)
    | none => (line, [])
  let arg := verbArg.2
  let verb := toAsciiUppercase verbArg.1
  if verb = "CAPA".toList then .ok .capa
  else if verb = "STLS".toList then .ok .stls
  else if verb = "USER".toList ∧ arg ≠ [] then .ok (.user arg)
  else if verb = "PASS".toList then .ok (.pass arg)
  else if verb = "STAT".toList then .ok .stat
  else if verb = "LIST".toList ∧ arg = [] then .ok (.list none)
  else if verb = "LIST".toList then (popNumber arg).map fun n => .list (some n)
  else if verb = "RETR".toList then (popNumber arg).map .retr
  else if verb = "DELE".toList then (popNumber arg).map .dele
  else if verb = "RSET".toList then .ok .rset
  else if verb = "NOOP".toList then .ok .noop
  else if verb = "QUIT".toList then .ok .quit
  else .error ("unknown command `".toList ++ verb ++ "`".toList)

structure PopReply where
  ok : Bool
  message : Str
  lines : List Str
  body : Option Bytes
  deriving DecidableEq, Repr

def PopReply.good (message : Str) : PopReply := ⟨true, message, [], none⟩
def PopReply.err (message : String) : PopReply := ⟨false, message.toList, [], none⟩

inductive PopState where
  | authorization
  | transaction
  | closed
  deriving DecidableEq, Repr

/-- `Pop3Session`, less the borrowed authenticator and store. -/
structure Pop3Session where
  state : PopState
  pendingUser : Option Str
  mailbox : Option Str
  messages : List StoredMessage
  deleted : List Nat
  tlsAvailable : Bool
  tlsActive : Bool

def Pop3Session.new : Pop3Session := ⟨.authorization, none, none, [], [], false, false⟩

def Pop3Session.withTls (active : Bool) : Pop3Session :=
  ⟨.authorization, none, none, [], [], true, active⟩

-- live messages under their 1-based number
def Pop3Session.live (s : Pop3Session) : List (Nat × StoredMessage) :=
  (s.messages.zipIdx.filter fun mi => !s.deleted.contains mi.1.id).map fun mi => (mi.2 + 1, mi.1)

def Pop3Session.messageAt (s : Pop3Session) (number : Nat) : Option StoredMessage :=
  match number with
  | 0 => none
  | i + 1 => (s.messages[i]?).filter fun m => !s.deleted.contains m.id

def octets (m : StoredMessage) : Nat := m.message.toBytes.length

def retrReply (m : StoredMessage) : PopReply :=
  { PopReply.good (showNat (octets m) ++ " octets".toList) with body := some m.message.toBytes }

def removeAll (store : MailStore) (mailbox : Str) (ids : List Nat) : MailStore :=
  ids.foldl (fun store id => (store.remove mailbox id).2) store

-- credentials are refused on a plain connection that offers TLS
def Pop3Session.needsTls (s : Pop3Session) : Bool := s.tlsAvailable && !s.tlsActive

/-- `Pop3Session::handle`. -/
def Pop3Session.handle (check : Str → Str → Bool) (s : Pop3Session) (store : MailStore) :
    PopCommand → PopReply × Pop3Session × MailStore
  | .quit =>
      let store' := match s.state, s.mailbox with
        | .transaction, some mailbox => removeAll store mailbox s.deleted
        | _, _ => store
      (.good "Bye".toList, { s with state := .closed }, store')
  | .noop => (.good [], s, store)
  | .capa =>
      ({ PopReply.good "Capability list follows".toList with
          lines := "USER".toList :: if s.needsTls then ["STLS".toList] else [] }, s, store)
  | command =>
      match s.state, command with
      | .authorization, .stls =>
          if s.tlsActive then (.err "STLS already active", s, store)
          else if s.tlsAvailable then (.good "Begin TLS negotiation".toList, s, store)
          else (.err "STLS not supported", s, store)
      | .transaction, .stls => (.err "STLS only allowed before authentication", s, store)
      | .authorization, .user name =>
          if s.needsTls then (.err "[AUTH] STLS required before authentication", s, store)
          else (.good "send PASS".toList, { s with pendingUser := some name }, store)
      | .authorization, .pass password =>
          if s.needsTls then (.err "[AUTH] STLS required before authentication", s, store)
          else match s.pendingUser with
            | none => (.err "USER required first", s, store)
            | some user =>
                if check user password then
                  (.good (showNat (store.list user).length ++ " message(s)".toList),
                    { s with
                      pendingUser := none
                      messages := store.list user
                      mailbox := some user
                      state := .transaction }, store)
                else (.err "authentication failed", { s with pendingUser := none }, store)
      | .transaction, .stat =>
          (.good (showNat s.live.length ++ ' ' :: showNat (s.live.map fun nm => octets nm.2).sum),
            s, store)
      | .transaction, .list none =>
          ({ PopReply.good "scan listing follows".toList with
              lines := s.live.map fun nm => showNat nm.1 ++ ' ' :: showNat (octets nm.2) },
            s, store)
      | .transaction, .list (some n) =>
          match s.messageAt n with
          | some m => (.good (showNat n ++ ' ' :: showNat (octets m)), s, store)
          | none => (.err "no such message", s, store)
      | .transaction, .retr n =>
          match s.messageAt n with
          | some m => (retrReply m, s, store)
          | none => (.err "no such message", s, store)
      | .transaction, .dele n =>
          match s.messageAt n with
          | some m =>
              (.good ("message ".toList ++ showNat n ++ " deleted".toList),
                { s with deleted := m.id :: s.deleted }, store)
          | none => (.err "no such message", s, store)
      | .transaction, .rset => (.good "reset".toList, { s with deleted := [] }, store)
      | .authorization, _ => (.err "authenticate first", s, store)
      | .transaction, _ => (.err "already authenticated", s, store)
      | .closed, _ => (.err "session closed", s, store)

-- a multi-line payload ends with a lone dot, and a leading dot is doubled
def popLine (line : Str) : Bytes :=
  (if line.head? = some '.' then [dot] else []) ++ encodeUtf8 line ++ crlf

/-- `write_pop_reply`. -/
def writePopReply (reply : PopReply) : Bytes :=
  let status := if reply.ok then ascii "+OK" else ascii "-ERR"
  let first := status ++ ascii " " ++ encodeUtf8 reply.message ++ crlf
  if !reply.ok then first
  else match reply.body with
    | some body => first ++ dotStuff body
    | none => if reply.lines = [] then first else first ++ reply.lines.flatMap popLine ++ endLine

theorem handle_retr {check : Str → Str → Bool} {s : Pop3Session} {store : MailStore} {n : Nat}
    {m : StoredMessage} (hstate : s.state = .transaction) (hm : s.messageAt n = some m) :
    s.handle check store (.retr n) = (retrReply m, s, store) := by
  simp only [Pop3Session.handle, hstate, hm]

theorem writePopReply_retr (m : StoredMessage) :
    writePopReply (retrReply m) =
      ascii "+OK " ++ encodeUtf8 (showNat m.message.toBytes.length ++ " octets".toList) ++ crlf ++
        dotStuff m.message.toBytes := by
  simp only [writePopReply, retrReply, PopReply.good, octets]
  rfl

/-! ## Fetching a message -/

/-- Framing a collected message never brings back its bytes: whatever its cap, a receiver that
unstuffs it gets something else, and one with room gets one CRLF more.  So does the client of a
`RETR`, whose status line announces the length without it. -/
theorem framed_message_gains_crlf (m : Message) (hm : Assembled m.toBytes) :
    (∀ maxSize, receive maxSize (dotStuff m.toBytes) ≠ some m.toBytes) ∧
    (∀ maxSize, m.toBytes.length + 2 ≤ maxSize →
      receive maxSize (dotStuff m.toBytes) = some (m.toBytes ++ crlf)) ∧
    (∀ (check : Str → Str → Bool) (s : Pop3Session) (store : MailStore) (n id : Nat),
      s.state = .transaction → s.messageAt n = some ⟨id, m⟩ →
      ∃ payload, writePopReply (s.handle check store (.retr n)).1 =
          ascii "+OK " ++ encodeUtf8 (showNat m.toBytes.length ++ " octets".toList) ++ crlf ++
            payload ∧
        ∀ maxSize got, receive maxSize payload = some got →
          got ≠ m.toBytes ∧ got.length = m.toBytes.length + 2) := by
  have hlines : CrlfLines m.toBytes := hm.crlfLines
  have hgot : ∀ maxSize got, receive maxSize (dotStuff m.toBytes) = some got →
      got ≠ m.toBytes ∧ got.length = m.toBytes.length + 2 := by
    intro maxSize got h
    have hadd : got = m.toBytes ++ crlf := eq_of_receive_dotStuff hlines h
    have hlen : got.length = m.toBytes.length + 2 := by
      rw [hadd, List.length_append]
      rfl
    refine ⟨fun he => ?_, hlen⟩
    rw [he] at hlen
    omega
  refine ⟨fun maxSize h => (hgot maxSize _ h).1 rfl, ?_, ?_⟩
  · intro maxSize hroom
    exact receive_dotStuff hlines hroom
  · intro check s store n id hstate hat
    rw [handle_retr hstate hat]
    exact ⟨dotStuff m.toBytes, writePopReply_retr ⟨id, m⟩, hgot⟩

-- what a collector makes of `Subject: x`, a blank line and `hi`
def hiMessage : Message :=
  ⟨⟨none, []⟩, ⟨[("Subject".toList, "x".toList)]⟩, ascii "hi\r\n", ascii "Subject: x\r\n\r\n"⟩

theorem assembled_hiMessage : Assembled hiMessage.toBytes :=
  ⟨100, ascii "Subject: x\r\n\r\nhi\r\n.\r\n", by decide⟩

theorem framed_message_gains_crlf_hi :
    receive 100 (dotStuff hiMessage.toBytes) = some (hiMessage.toBytes ++ crlf) :=
  (framed_message_gains_crlf hiMessage assembled_hiMessage).2.1 100 (by decide)

theorem framed_message_differs :
    Message.parse ⟨none, []⟩ (ascii "Subject: x\r\n\r\nhi\r\n") = .ok hiMessage ∧
    Assembled hiMessage.toBytes ∧
    receive 100 (dotStuff hiMessage.toBytes) = some (ascii "Subject: x\r\n\r\nhi\r\n\r\n") ∧
    receive 100 (dotStuff hiMessage.toBytes) ≠ some hiMessage.toBytes :=
  ⟨by decide, assembled_hiMessage, by decide, by decide⟩

/-! ## Listings -/

-- the lines up to a lone dot, which has to be terminated itself, and the bytes behind it
def readListing : List Bytes → Option (List Bytes × Bytes)
  | [] => none
  | line :: rest =>
      if rest = [] then none
      else if line = [dot] then some ([], crlf.intercalate rest)
      else (readListing rest).map fun p => (unstuff line :: p.1, p.2)

/-- A multi-line response as RFC 1939 has it, read by a client that expects one. -/
def decodeListing (stream : Bytes) : Option (List Bytes × Bytes) :=
  match splitOnCrlf stream with
  | [] => none
  | status :: rest => if ascii "+OK" <+: status then readListing rest else none

theorem readListing_stuffed (contents : List Bytes) :
    readListing (contents.map stuffLine ++ [[dot], []]) = some (contents, []) := by
  induction contents with
  | nil => rfl
  | cons content contents ih =>
    rw [List.map_cons, List.cons_append, readListing, if_neg (by simp),
      if_neg (stuffLine_ne_dot content), ih, Option.map_some, unstuff_stuffLine]

theorem popLine_eq_stuffLine (line : Str) : popLine line = stuffLine (encodeUtf8 line) ++ crlf := by
  have hhead := @head?_decodeLossy_iff dot (by decide) (encodeUtf8 line)
  rw [decodeLossy_encodeUtf8] at hhead
  unfold popLine stuffLine
  by_cases hdot : line.head? = some '.'
  · rw [if_pos hdot, if_pos (hhead.mp hdot)]
    rfl
  · rw [if_neg hdot, if_neg (mt hhead.mpr hdot)]
    rfl

-- what stands in front of the first CRLF
def statusLine (message : Str) : Bytes := ascii "+OK " ++ encodeUtf8 message

theorem not_crlf_statusLine {message : Str} (h : '\n' ∉ message) :
    ¬ [cr, lf] <:+: statusLine message := by
  refine not_crlf_of_lf ?_
  rw [statusLine, List.mem_append, not_or]
  exact ⟨by decide, lf_not_mem_encodeUtf8 h⟩

theorem decodeListing_lines {message : Str} {contents : List Bytes} (hmessage : '\n' ∉ message)
    (hcontents : ∀ content ∈ contents, lf ∉ content) :
    decodeListing (statusLine message ++ crlf ++
      (contents.flatMap (fun content => stuffLine content ++ crlf) ++ endLine)) =
      some (contents, []) := by
  have hsplit : splitOnCrlf (statusLine message ++ crlf ++
      (contents.flatMap (fun content => stuffLine content ++ crlf) ++ endLine)) =
      statusLine message :: (contents.map stuffLine ++ [[dot], []]) := by
    have hcut := splitOnPair_flatMap (show cr ≠ lf by decide)
      (statusLine message :: contents.map stuffLine) endLine ?_
    · rw [List.flatMap_cons, List.flatMap_map, List.append_assoc] at hcut
      exact hcut
    · intro segment hsegment
      rcases List.mem_cons.mp hsegment with rfl | hsegment
      · exact not_crlf_statusLine hmessage
      · obtain ⟨content, hcontent, rfl⟩ := List.mem_map.mp hsegment
        exact not_crlf_of_lf (lf_not_mem_stuffLine (hcontents content hcontent))
  unfold decodeListing
  rw [hsplit]
  dsimp only
  rw [if_pos ⟨ascii " " ++ encodeUtf8 message, rfl⟩, readListing_stuffed]

theorem decodeListing_status {message : Str} (hmessage : '\n' ∉ message) :
    decodeListing (statusLine message ++ crlf) = none := by
  have hsplit : splitOnCrlf (statusLine message ++ crlf) = [statusLine message, []] := by
    have hcut := splitOnPair_append (show cr ≠ lf by decide) (statusLine message) []
    rw [splitOnPair_eq_singleton (not_crlf_statusLine hmessage)] at hcut
    exact hcut
  unfold decodeListing
  rw [hsplit]
  dsimp only
  rw [if_pos ⟨ascii " " ++ encodeUtf8 message, rfl⟩]
  rfl

-- the writer takes a reply without lines for one of a single line
theorem decodeListing_writePopReply {message : Str} {lines : List Str} (hmessage : '\n' ∉ message)
    (hlines : ∀ line ∈ lines, '\n' ∉ line) :
    decodeListing (writePopReply ⟨true, message, lines, none⟩) =
        some (lines.map encodeUtf8, []) ↔ lines ≠ [] := by
  have hwrite : writePopReply ⟨true, message, lines, none⟩ =
      if lines = [] then statusLine message ++ crlf
      else statusLine message ++ crlf ++
        ((lines.map encodeUtf8).flatMap (fun content => stuffLine content ++ crlf) ++ endLine) := by
    rw [List.flatMap_map, ← funext popLine_eq_stuffLine]
    unfold writePopReply statusLine
    dsimp only
    rw [if_neg (by decide), if_pos rfl]
    by_cases hnil : lines = []
    · rw [if_pos hnil, if_pos hnil]
      rfl
    · rw [if_neg hnil, if_neg hnil, ← List.append_assoc]
      rfl
  rw [hwrite]
  by_cases hnil : lines = []
  · rw [if_pos hnil, decodeListing_status hmessage]
    simp [hnil]
  · rw [if_neg hnil, decodeListing_lines hmessage]
    · simp [hnil]
    · intro content hcontent
      obtain ⟨line, hline, rfl⟩ := List.mem_map.mp hcontent
      exact lf_not_mem_encodeUtf8 (hlines line hline)

theorem live_ne_nil_iff (s : Pop3Session) : s.live ≠ [] ↔ ∃ m ∈ s.messages, m.id ∉ s.deleted := by
  have hmem (m : StoredMessage) : m ∈ s.messages ↔ ∃ mi ∈ s.messages.zipIdx, mi.1 = m := by
    rw [← List.mem_map, List.zipIdx_map_fst]
  unfold Pop3Session.live
  rw [Ne, List.map_eq_nil_iff, List.filter_eq_nil_iff]
  constructor
  · intro h
    obtain ⟨mi, hmi⟩ := not_forall.mp h
    obtain ⟨hmi, hlive⟩ := Classical.not_imp.mp hmi
    exact ⟨mi.1, (hmem mi.1).mpr ⟨mi, hmi, rfl⟩, by simpa using hlive⟩
  · rintro ⟨m, hm, hlive⟩ h
    obtain ⟨mi, hmi, rfl⟩ := (hmem m).mp hm
    exact h mi hmi (by simpa using hlive)

theorem newline_not_mem_showNat (n : Nat) : '\n' ∉ showNat n := by
  intro h
  exact absurd (isDigit_of_mem_showNat h) (by decide)

/-- The listing of `LIST` or `CAPA` reads back as its lines exactly if there is a line: `CAPA`
always has one, `LIST` if a message is not marked deleted.  Otherwise the client waits on for the
end of the listing. -/
theorem listing_framed_iff (check : Str → Str → Bool) (s : Pop3Session) (store : MailStore)
    (command : PopCommand) (hcommand : command = .capa ∨ command = .list none)
    (hok : (s.handle check store command).1.ok = true) :
    decodeListing (writePopReply (s.handle check store command).1) =
        some ((s.handle check store command).1.lines.map encodeUtf8, []) ↔
      command = .capa ∨ ∃ m ∈ s.messages, m.id ∉ s.deleted := by
  rcases hcommand with rfl | rfl
  · have hframed := @decodeListing_writePopReply "Capability list follows".toList
      ("USER".toList :: if s.needsTls then ["STLS".toList] else []) (by decide) (by
        intro line hline
        split at hline <;> revert line <;> decide)
    exact ⟨fun _ => .inl rfl, fun _ => hframed.mpr (by simp)⟩
  · have hstate : s.state = .transaction := by
      cases hstate : s.state with
      | transaction => rfl
      | authorization =>
        simp only [Pop3Session.handle, hstate] at hok
        cases hok
      | closed =>
        simp only [Pop3Session.handle, hstate] at hok
        cases hok
    have hhandle : (s.handle check store (.list none)).1 =
        ⟨true, "scan listing follows".toList,
          s.live.map fun nm => showNat nm.1 ++ ' ' :: showNat (octets nm.2), none⟩ := by
      simp only [Pop3Session.handle, hstate]
      rfl
    rw [hhandle, decodeListing_writePopReply (by decide)]
    · rw [Ne, List.map_eq_nil_iff, ← Ne, live_ne_nil_iff]
      simp
    · intro line hline
      obtain ⟨nm, -, rfl⟩ := List.mem_map.mp hline
      rw [List.mem_append, List.mem_cons, not_or, not_or]
      exact ⟨newline_not_mem_showNat _, by decide, newline_not_mem_showNat _⟩

-- a login to an empty mailbox
def emptyLogin : Pop3Session :=
  let s := (Pop3Session.new.handle (fun _ _ => true) .empty (.user "a".toList)).2.1
  (s.handle (fun _ _ => true) .empty (.pass "p".toList)).2.1

-- the status line announces a listing that never comes
theorem empty_listing_unframed :
    (emptyLogin.handle (fun _ _ => true) .empty (.list none)).1 =
        ⟨true, "scan listing follows".toList, [], none⟩ ∧
      writePopReply (emptyLogin.handle (fun _ _ => true) .empty (.list none)).1 =
        ascii "+OK scan listing follows\r\n" ∧
      decodeListing (writePopReply (emptyLogin.handle (fun _ _ => true) .empty (.list none)).1) =
        none :=
  ⟨by decide, by decide, by decide⟩

def hiLogin : Pop3Session := { emptyLogin with messages := [⟨1, hiMessage⟩] }

theorem listing_framed_iff_hi :
    decodeListing (writePopReply (hiLogin.handle (fun _ _ => true) .empty (.list none)).1) =
      some ((hiLogin.handle (fun _ _ => true) .empty (.list none)).1.lines.map encodeUtf8, []) :=
  (listing_framed_iff (fun _ _ => true) hiLogin .empty (.list none) (.inr rfl) (by decide)).mpr
    (.inr ⟨⟨1, hiMessage⟩, List.mem_singleton.mpr rfl, nofun⟩)

end Snail.Access
