import Kademlia.Address.Numeric
import Kademlia.Config
import Kademlia.Transport

/-!
# Kademlia.Node

A node as its operations see it: settings, an address, the local server and a
transport, all acting on one state.  The server is a part of that state because
a request may come back to the node that sent it.

Every operation takes the state and returns its result with the state after it.
-/

namespace Kademlia

/-- A node that acts on states of type `σ`. -/
structure Node (P S σ : Type) where
  config : Config
  /-- Where others reach the node. -/
  address : Address
  /-- The local server. -/
  server : σ → Server P S
  /-- Puts another local server in the place of the present one. -/
  setServer : Server P S → σ → σ
  transport : Transport σ

namespace Node

variable {P S σ : Type} [PeerStore P] [Storage S]

/-- The id of the node. -/
def id (node : Node P S σ) (s : σ) : Id := (node.server s).id

/-- Runs a step of the local server. -/
def locally {α : Type} (node : Node P S σ) (step : Server P S → α × Server P S) (s : σ) : α × σ :=
  let (result, srv) := step (node.server s)
  (result, node.setServer srv s)

/-! ## Requests to peers

A request to the node itself is answered by the local server; any other one
goes out through the transport. -/

/-- Accepts a reply to a question for `key` if it is from the peer that was
asked, and lists only peers of the same overlay. -/
def checkReply (peer : Peer) (key : Id) (reply : GetReply) : Except RpcError GetReply :=
  if reply.responder ≠ peer.id then
    .error (.invalidResponse (.wrongResponder peer.id reply.responder))
  else
    match reply.nodes.find? (·.id.length ≠ key.length) with
    | some other => .error (.invalidResponse (.wrongPeerLength other.id.length key.length))
    | none => .ok reply

/-- Asks a peer for a value or for peers closer to the key. -/
def ask (node : Node P S σ) (peer : Peer) (request : GetRequest) (s : σ) :
    Except RpcError GetReply × σ :=
  let (reply, s) :=
    if peer.id = node.id s then
      let (reply, s) := node.locally (Server.handleGet none request) s
      (reply.mapError RpcError.remote, s)
    else node.transport.getValue peer.address request s
  (reply.bind (checkReply peer request.key), s)

/-- Accepts an acknowledgement if it is from the peer that was asked. -/
def checkAcknowledgement (peer : Peer) (reply : StoreReply) : Except RpcError Unit :=
  if reply.responder ≠ peer.id then
    .error (.invalidResponse (.wrongResponder peer.id reply.responder))
  else .ok ()

/-- Asks a peer to store a value. -/
def storeAt (node : Node P S σ) (peer : Peer) (request : StoreRequest) (s : σ) :
    Except RpcError Unit × σ :=
  let (reply, s) :=
    if peer.id = node.id s then
      let (reply, s) := node.locally (Server.handleStore none request) s
      (reply.mapError RpcError.remote, s)
    else node.transport.storeValue peer.address request s
  (reply.bind (checkAcknowledgement peer), s)

/-! ## Joining -/

/-- Joins an overlay through the node at an address: asks it for the own id,
and remembers it under the id it answers with. -/
def bootstrap (node : Node P S σ) (target : Address) (s : σ) : Except Error Unit × σ :=
  match node.transport.getValue target ⟨node.id s, 0⟩ s with
  | (.error e, s) => (.error (.rpc e), s)
  | (.ok reply, s) =>
    if reply.responder = node.id s then (.ok (), s)
    else
      let srv := node.server s
      match PeerStore.add srv.peers ⟨reply.responder, target⟩ with
      | .ok peers => (.ok (), node.setServer { srv with peers } s)
      | .error e => (.error e, s)

/-- Joins through every address that the settings name, one after the other.
Texts that are no addresses and nodes that do not answer are passed over. -/
def bootstrapAll (node : Node P S σ) (s : σ) : σ :=
  (node.config.bootstrap.filterMap Address.parseNumeric?).foldl
    (fun s target => (node.bootstrap target s).2) s

end Node
end Kademlia
