import Kademlia.PeerStore
import Kademlia.Storage

/-!
# Kademlia.Server

The answering side of a node: requests are answered from the peers it knows
and the values it keeps.  Requests of other nodes and the question that every
lookup first puts to the local node go the same way.
-/

namespace Kademlia

/-- The peers that a node knows and the values that it keeps. -/
structure Server (P S : Type) where
  peers : P
  values : S

namespace Server

variable {P S : Type} [PeerStore P] [Storage S]

/-- The id of the local node, with which it answers. -/
def id (srv : Server P S) : Id := PeerStore.localId srv.peers

/-- Adds the sender of a request to the known peers, space permitting; one of
another overlay is refused. -/
def remember (srv : Server P S) (requester : Peer) : Except ErrorCode (Server P S) :=
  match PeerStore.add srv.peers requester with
  | .ok peers => .ok { srv with peers }
  | .error .noSpace => .ok srv
  | .error (.id (.lengthMismatch _ _)) => .error .invalidRequest
  | .error _ => .error .internalServerError

/-- Accepts a request: the key has the length of the local id, and the
requester, unless it is the local node, becomes known. -/
def accept (srv : Server P S) (requester : Option Peer) (key : Id) :
    Except ErrorCode (Server P S) :=
  if key.length ≠ srv.id.length then .error .invalidRequest
  else
    match requester with
    | none => .ok srv
    | some peer => srv.remember peer

/-- The value kept for a key, or else the known peers closest to it. -/
def lookUp (srv : Server P S) (request : GetRequest) : Except ErrorCode GetReply :=
  match Storage.get srv.values request.key.bytes with
  | .error _ => .error .internalServerError
  | .ok (some value) => .ok ⟨srv.id, some value, []⟩
  | .ok none =>
    match PeerStore.closest srv.peers request.key request.k.toNat with
    | .error _ => .error .internalServerError
    | .ok closest => .ok ⟨srv.id, none, closest.map (·.1)⟩

/-- Answers a question for a value.  The local node asks without a requester. -/
def handleGet (requester : Option Peer) (request : GetRequest) (srv : Server P S) :
    Except ErrorCode GetReply × Server P S :=
  match srv.accept requester request.key with
  | .error code => (.error code, srv)
  | .ok srv => (srv.lookUp request, srv)

/-- Keeps a value in place of any other under its key. -/
def handleStore (requester : Option Peer) (request : StoreRequest) (srv : Server P S) :
    Except ErrorCode StoreReply × Server P S :=
  match srv.accept requester request.key with
  | .error code => (.error code, srv)
  | .ok srv =>
    match Storage.set srv.values request.key.bytes request.value with
    | .error _ => (.error .internalServerError, srv)
    | .ok values => (.ok ⟨srv.id⟩, { srv with values })

/-- Answers a request that came from an address: with a response, or with the
failure that its error code describes. -/
def handle (source : Address) (request : Request) (srv : Server P S) : Answer × Server P S :=
  let requester := some ⟨request.requester, source⟩
  match request.query with
  | .getValue query =>
    let (reply, srv) := srv.handleGet requester query
    (.ofResult (reply.map .getValue), srv)
  | .storeValue query =>
    let (reply, srv) := srv.handleStore requester query
    (.ofResult (reply.map .storeValue), srv)

end Server
end Kademlia
