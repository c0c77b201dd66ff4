import Snail.Access.Msa
import Snail.Mail.Delivery
import Snail.Network.Dns
import Snail.Network.Dkim.Signature
import Snail.Security.Greylist
import Snail.Security.Throttle
import Snail.Server.Spool

/-!
# Server — the composed server and what it does with an accepted message

`services/snail_server/src/server.rs`.  The configuration is fixed once the server runs; the store,
the spool directory, the greylist and the throttle are shared by all connections and workers.
-/

open Snail.Reasoning Snail.Mail Snail.Network Snail.Security Snail.Access

set_option linter.dupNamespace false

namespace Snail.Server

/-! ## 1. Configuration and shared state -/

inductive RelayAuthorization where
  | permitted
  | forbidden
  deriving DecidableEq, Repr

/-- What is composed at startup.  `relay` and `tls` say whether a relay context and a TLS
configuration are there. -/
structure Server where
  mta : Mta
  auth : AuthBackend
  hostName : Str
  relay : Bool
  tls : Bool
  maxMessageSize : Nat
  resolver : Option DnsResolver
  spfEnforce : Bool
  dmarcEnforce : Bool
  greylist : Option GreylistConfig
  throttle : ThrottleConfig
  -- third-party code behind the checks of inbound mail
  crypto : Crypto
  psl : Str → Option Str

-- `Server::new` takes its name from the first local domain
def hostNameOf (localDomains : List Str) : Str := localDomains.head?.getD "localhost".toList

def Server.isLocal (server : Server) (mailbox : Mailbox) : Bool :=
  server.mta.route mailbox = .local

/-- The shared state: `counter` numbers the ids of the spool.  It is unbounded here; where the width
of the source's `u64` matters, `SpoolIds` has it. -/
structure World where
  store : MailStore
  disk : Disk
  counter : Nat
  greylist : Greylist
  throttle : Throttle

/-! ## 2. Queueing for relay -/

/-- What one call of `enqueue` meets: the clock of the id, the clock of the record, and how many
file system steps succeed before one fails, if one does. -/
structure EnqueueIo where
  nanos : Nat
  now : SystemTime
  fault : Option Nat

def EnqueueIo.steps (io : EnqueueIo) (steps : List SpoolStep) : List SpoolStep :=
  io.fault.elim steps steps.take

-- the id is used up even when a write fails
def World.enqueue (w : World) (io : EnqueueIo) (message : Message) : World :=
  { w with
    disk := runSteps (io.steps (enqueueSteps (newId io.nanos w.counter) message io.now)) w.disk
    counter := w.counter + 1 }

-- the `BTreeMap` of `enqueue_relay`: sorted domains, each with its recipients in order
def insertByDomain (rcpt : Mailbox) : List (Str × List Mailbox) → List (Str × List Mailbox)
  | [] => [(toAsciiLowercase rcpt.domain, [rcpt])]
  | (domain, rcpts) :: rest =>
      if toAsciiLowercase rcpt.domain = domain then (domain, rcpts ++ [rcpt]) :: rest
      else if encodeUtf8 (toAsciiLowercase rcpt.domain) < encodeUtf8 domain then
        (toAsciiLowercase rcpt.domain, [rcpt]) :: (domain, rcpts) :: rest
      else (domain, rcpts) :: insertByDomain rcpt rest

def groupByDomain (rcpts : List Mailbox) : List (Str × List Mailbox) :=
  rcpts.foldl (fun groups rcpt => insertByDomain rcpt groups) []

-- the loop over the groups; a failure is logged and the next group tried
def World.enqueueGroups (w : World) (ios : Nat → EnqueueIo) (source : Message) :
    Nat → List (Str × List Mailbox) → World
  | _, [] => w
  | i, (_, rcpts) :: rest =>
      (w.enqueue (ios i) (source.withRecipients rcpts)).enqueueGroups ios source (i + 1) rest

/-- `enqueue_relay`. -/
def World.enqueueRelay (w : World) (ios : Nat → EnqueueIo) (source : Message)
    (recipients : List Mailbox) : World :=
  w.enqueueGroups ios source 0 (groupByDomain recipients)

/-- `Server::accept_inbound`. -/
def Server.acceptInbound (server : Server) (w : World) (ios : Nat → EnqueueIo) (message : Message)
    (authorization : RelayAuthorization) : InboundResult × World :=
  let r := server.mta.acceptInbound w.store message
  let w' := { w with store := r.2 }
  if server.relay ∧ authorization = .permitted then
    if r.1.relay = [] then (r.1, w') else (r.1, w'.enqueueRelay ios message r.1.relay)
  else (r.1, w')

end Snail.Server
