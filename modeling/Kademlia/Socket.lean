import Kademlia.Link
import Kademlia.Message.Wire
import Kademlia.Server

/-!
# Kademlia.Socket

The socket of a node as a state machine.  It answers the requests that come
in, and ties the answers that come in to the requests that wait for them: an
answer counts if it has the transaction id of a pending request and comes from
the address that the request went to.

An event takes the socket to its next state and has effects: packets that are
sent, and requests that are over.  A request is known by the number of its
caller, since a transaction id may be given out again.

Events are atomic, one happens after the other.  A real socket locks its pending
requests anew for each access, and so between two accesses of one event another
one may come.  In particular `timeout` ends the wait and takes the entry of the
caller out at once, where a real caller that has stopped to wait takes out, by
transaction id and under a lock of its own, whichever entry is there by then.
-/

namespace Kademlia

/-- A request that waits for its answer. -/
structure Pending where
  /-- Who waits: the number of requests that were started before. -/
  caller : Nat
  target : Address
  deriving DecidableEq

/-- A socket of a node. -/
structure Socket (P S : Type) where
  server : Server P S
  /-- The transaction id of the next request. -/
  nextId : UInt16 := 0
  /-- The requests that wait, by transaction id. -/
  pending : List (UInt16 × Pending) := []
  /-- How many requests were started. -/
  callers : Nat := 0
  /-- Whether the socket was shut down. -/
  isDown : Bool := false

namespace Socket

/-- What a socket does. -/
inductive Effect where
  /-- A packet leaves. -/
  | send (target : Address) (packet : Bytes)
  /-- A request is over. -/
  | finish (caller : Nat) (outcome : Except RpcError Answer)

/-- What happens to a socket. -/
inductive Event where
  /-- A query is to go to an address. -/
  | start (target : Address) (query : Query)
  /-- A packet arrives. -/
  | receive (source : Address) (packet : Bytes)
  /-- A request has waited for too long. -/
  | timeout (caller : Nat)
  /-- The socket is to stop. -/
  | shutdown
  /-- A stopped socket lets go of the requests that wait. -/
  | drain

variable {P S : Type}

/-! ## Pending requests -/

/-- Lets go of the request with a transaction id. -/
def forget (sock : Socket P S) (tid : UInt16) : Socket P S :=
  { sock with pending := sock.pending.filter (·.1 != tid) }

/-- Makes a request wait, in the place of one with its transaction id. -/
def await (sock : Socket P S) (tid : UInt16) (p : Pending) : Socket P S :=
  { sock with pending := (tid, p) :: sock.pending.filter (·.1 != tid) }

/-- A caller whose request is let go of learns of a shutdown. -/
def abandoned (p : Pending) : Effect := .finish p.caller (.error .shutdown)

variable [PeerStore P] [Storage S]

/-! ## Events -/

/-- Sends a query under the next transaction id and waits for the answer.  It
fails at once if the socket is down or the packet cannot be sent. -/
def start (link : Link) (target : Address) (query : Query) (sock : Socket P S) :
    List Effect × Socket P S :=
  let caller := sock.callers
  let sock := { sock with callers := caller + 1 }
  if sock.isDown then ([.finish caller (.error .shutdown)], sock)
  else
    let tid := sock.nextId
    let packet := Message.encode ⟨tid, .request ⟨sock.server.id, query⟩⟩
    let replaced := (sock.pending.lookup tid).toList.map abandoned
    let sock := { sock with nextId := tid + 1 }.await tid ⟨caller, target⟩
    if link.sends target packet then (replaced ++ [.send target packet], sock)
    else (replaced ++ [.finish caller (.error .unreachable)], sock.forget tid)

/-- Hands an answer to the request that it is for; any other one is dropped. -/
def accept (source : Address) (tid : UInt16) (answer : Answer) (sock : Socket P S) :
    List Effect × Socket P S :=
  match sock.pending.lookup tid with
  | none => ([], sock)
  | some p =>
    if p.target.answeredBy source then ([.finish p.caller (.ok answer)], sock.forget tid)
    else ([], sock)

/-- Answers a request to where it came from. -/
def reply (link : Link) (source : Address) (tid : UInt16) (request : Request) (sock : Socket P S) :
    List Effect × Socket P S :=
  let (answer, server) := sock.server.handle source request
  let packet := Message.encode ⟨tid, .answer answer⟩
  (if link.sends source packet then [.send source packet] else [], { sock with server })

/-- Takes in a packet.  It is dropped if the socket is down, if there is no
port to answer to, or if it is not a message. -/
def receive (link : Link) (source : Address) (packet : Bytes) (sock : Socket P S) :
    List Effect × Socket P S :=
  if sock.isDown ∨ source.port = 0 then ([], sock)
  else
    match Message.decode packet with
    | .error _ => ([], sock)
    | .ok ⟨tid, .request request⟩ => sock.reply link source tid request
    | .ok ⟨tid, .answer answer⟩ => sock.accept source tid answer

/-- Ends a request that still waits. -/
def timeout (caller : Nat) (sock : Socket P S) : List Effect × Socket P S :=
  match sock.pending.find? (·.2.caller == caller) with
  | none => ([], sock)
  | some (tid, _) => ([.finish caller (.error .unreachable)], sock.forget tid)

/-- Stops the socket; the requests that wait learn of it when it drains. -/
def shutdown (sock : Socket P S) : Socket P S := { sock with isDown := true }

/-- Lets go of all requests that wait, if the socket was stopped. -/
def drain (sock : Socket P S) : List Effect × Socket P S :=
  if sock.isDown then (sock.pending.map fun entry => abandoned entry.2, { sock with pending := [] })
  else ([], sock)

/-- What an event does. -/
def step (link : Link) : Event → Socket P S → List Effect × Socket P S
  | .start target query, sock => sock.start link target query
  | .receive source packet, sock => sock.receive link source packet
  | .timeout caller, sock => sock.timeout caller
  | .shutdown, sock => ([], sock.shutdown)
  | .drain, sock => sock.drain

/-- What events do, one after the other. -/
def run (link : Link) : List Event → Socket P S → List Effect × Socket P S
  | [], sock => ([], sock)
  | event :: rest, sock =>
    let (effects, sock) := sock.step link event
    let (later, sock) := run link rest sock
    (effects ++ later, sock)

end Socket
end Kademlia
