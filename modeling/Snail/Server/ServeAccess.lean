import Snail.Access.Credentials
import Snail.Server.Serve

/-!
# ServeAccess — the POP3 and the IMAP loop

`serve_pop` and `serve_imap` of `services/snail_server/src/serve.rs`, one iteration at a time.
-/

set_option linter.dupNamespace false

open Snail.Reasoning Snail.Mail Snail.Network Snail.Security Snail.Access

namespace Snail.Server

/-- What an iteration leaves, with the bytes it wrote. -/
structure AccessReaction (σ : Type) where
  next : Option (Conn σ)
  sent : List Bytes
  world : World

-- the loop ends behind a `QUIT`
def AccessReaction.closing {σ : Type} (r : AccessReaction σ) (ends : Bool) : AccessReaction σ :=
  { r with next := if ends then none else r.next }

def Server.credentialsChecked {σ : Type} (server : Server) (c : Conn σ) : Bool :=
  !server.tls || c.tls

def Server.recordLogin (server : Server) (peer : IpAddr) (t : Turn) (success : Bool) (w : World) :
    World :=
  { w with
    throttle := if success then w.throttle.recordSuccess peer
      else w.throttle.recordFailureAt server.throttle peer t.later }

/-! ## 1. POP3 -/

abbrev PopConn := Conn Pop3Session

def Server.popStart (server : Server) : PopConn :=
  ⟨if server.tls then .withTls false else .new, none, false⟩

def Server.popStls (server : Server) (t : Turn) (c : PopConn) : AccessReaction Pop3Session :=
  if t.buffered then ⟨some c, [ascii "-ERR no pipelining before STLS\r\n"], t.world⟩
  else
    let r := c.session.handle server.auth.check t.world.store .stls
    let w := { t.world with store := r.2.2 }
    if r.1.ok ∧ c.tls = false ∧ server.tls then
      -- a failed handshake ends the connection
      ⟨if t.handshake then some { c with session := .withTls true, tls := true } else none,
        [writePopReply r.1], w⟩
    else ⟨some { c with session := r.2.1 }, [writePopReply r.1], w⟩

def Server.popPass (server : Server) (peer : IpAddr) (t : Turn) (c : PopConn) (password : Str) :
    AccessReaction Pop3Session :=
  if t.world.throttle.checkAt peer t.now = false then
    ⟨none, [ascii "-ERR [AUTH] too many failed attempts; try again later\r\n"], t.world⟩
  else
    let r := c.session.handle server.auth.check t.world.store (.pass password)
    ⟨some { c with session := r.2.1 }, [writePopReply r.1],
      server.recordLogin peer t r.1.ok { t.world with store := r.2.2 }⟩

def Server.popOther (server : Server) (t : Turn) (c : PopConn) (command : PopCommand) :
    AccessReaction Pop3Session :=
  let r := c.session.handle server.auth.check t.world.store command
  ⟨some { c with session := r.2.1 }, [writePopReply r.1], { t.world with store := r.2.2 }⟩

def Server.popCommand (server : Server) (peer : IpAddr) (t : Turn) (c : PopConn) :
    AccessReaction Pop3Session :=
  let line := decodeLossy t.buf
  let isQuit := eqIgnoreAsciiCase (trimEnd line) "QUIT".toList
  match PopCommand.parse line with
  | .ok .stls => server.popStls t c
  | .ok (.pass password) =>
      (if server.credentialsChecked c then server.popPass peer t c password
        else server.popOther t c (.pass password)).closing isQuit
  | .ok command => (server.popOther t c command).closing isQuit
  | .error e =>
      AccessReaction.closing
        ⟨some c, [encodeUtf8 ("-ERR ".toList ++ e ++ "\r\n".toList)], t.world⟩ isQuit

/-- One iteration of `serve_pop`. -/
def Server.stepPop (server : Server) (peer : IpAddr) (t : Turn) (c : PopConn) :
    AccessReaction Pop3Session :=
  match t.read with
  | .eof => ⟨none, [], t.world⟩
  | .tooLong => ⟨none, [ascii "-ERR line too long; closing\r\n"], t.world⟩
  | .read => server.popCommand peer t c

/-! ## 2. IMAP -/

abbrev ImapConn := Conn ImapSession

def Server.imapStart (server : Server) : ImapConn :=
  ⟨if server.tls then .withTls false else .new, none, false⟩

-- the second word of the status line
def statusOk (status : Str) : Bool := (splitWhitespace status)[1]? = some "OK".toList

def Server.imapStartTls (server : Server) (t : Turn) (c : ImapConn) (tagged : TaggedCommand) :
    AccessReaction ImapSession :=
  if t.buffered then
    ⟨some c, [encodeUtf8 (tagged.tag ++ " BAD pipelining not allowed before STARTTLS\r\n".toList)],
      t.world⟩
  else
    let r := c.session.handle server.auth.check t.world.store tagged
    if c.tls = false ∧ server.tls then
      ⟨if t.handshake then some { c with session := .withTls true, tls := true } else none,
        [writeImapResponse r.1], t.world⟩
    else ⟨some { c with session := r.2 }, [writeImapResponse r.1], t.world⟩

def Server.imapLogin (server : Server) (peer : IpAddr) (t : Turn) (c : ImapConn)
    (tagged : TaggedCommand) : AccessReaction ImapSession :=
  if t.world.throttle.checkAt peer t.now = false then
    ⟨none, [encodeUtf8 (tagged.tag ++
      " NO [UNAVAILABLE] too many failed attempts; try again later\r\n".toList)], t.world⟩
  else
    let r := c.session.handle server.auth.check t.world.store tagged
    ⟨some { c with session := r.2 }, [writeImapResponse r.1],
      server.recordLogin peer t (statusOk r.1.status) t.world⟩

def Server.imapOther (server : Server) (t : Turn) (c : ImapConn) (tagged : TaggedCommand) :
    AccessReaction ImapSession :=
  let r := c.session.handle server.auth.check t.world.store tagged
  AccessReaction.closing ⟨some { c with session := r.2 }, [writeImapResponse r.1], t.world⟩
    (tagged.command = .logout)

def Server.imapCommand (server : Server) (peer : IpAddr) (t : Turn) (c : ImapConn) :
    AccessReaction ImapSession :=
  match TaggedCommand.parse (decodeLossy t.buf) with
  | .error e => ⟨some c, [encodeUtf8 ("* BAD ".toList ++ e ++ "\r\n".toList)], t.world⟩
  | .ok tagged =>
      match tagged.command with
      | .startTls => server.imapStartTls t c tagged
      | .login _ _ =>
          if server.credentialsChecked c then server.imapLogin peer t c tagged
          else server.imapOther t c tagged
      | _ => server.imapOther t c tagged

/-- One iteration of `serve_imap`. -/
def Server.stepImap (server : Server) (peer : IpAddr) (t : Turn) (c : ImapConn) :
    AccessReaction ImapSession :=
  match t.read with
  | .eof => ⟨none, [], t.world⟩
  | .tooLong => ⟨none, [ascii "* BAD line too long; closing\r\n"], t.world⟩
  | .read => server.imapCommand peer t c

end Snail.Server
