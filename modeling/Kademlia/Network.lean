import Kademlia.Node.Values

/-!
# Kademlia.Network

Nodes that reach each other in memory.  A request to the address of a node is
handled by its server at once; faults that are set on an address change what
comes back from there.  Every exchange is written into a log.
-/

namespace Kademlia

/-- What goes wrong at an address. -/
inductive Fault where
  /-- Every request fails. -/
  | all (error : RpcError)
  /-- Questions for values fail. -/
  | gets (error : RpcError)
  /-- Stores fail. -/
  | stores (error : RpcError)
  /-- The node answers under another id. -/
  | responder (id : Id)
  /-- Questions for values get this reply, whoever is there or nobody. -/
  | reply (reply : GetReply)

/-- The id under which a node answers. -/
def Fault.disguise (fault : Option Fault) (id : Id) : Id :=
  match fault with
  | some (.responder other) => other
  | _ => id

/-- A node of a network. -/
structure Seat (P S : Type) where
  config : Config
  address : Address
  server : Server P S
  /-- Whether the node takes requests; while it starts it does not. -/
  listening : Bool := true

/-- A network of `n` nodes. -/
structure Network (P S : Type) (n : Nat) where
  seats : Vector (Seat P S) n
  /-- The fault at each address; the first one counts. -/
  faults : List (Address × Fault) := []
  /-- What was sent, in order. -/
  log : List Exchange := []
  /-- How many addresses were given out. -/
  addresses : Nat := 0

namespace Network

variable {P S : Type} {n : Nat}

/-- A network without nodes. -/
def empty : Network P S 0 := { seats := #v[] }

/-- The node with this number. -/
def seat (net : Network P S n) (i : Fin n) : Seat P S := net.seats.get i

/-- Puts another node in the place of one. -/
def setSeat (net : Network P S n) (i : Fin n) (seat : Seat P S) : Network P S n :=
  { net with seats := net.seats.set i seat i.isLt }

/-- The server of a node. -/
def server (net : Network P S n) (i : Fin n) : Server P S := (net.seat i).server

/-- Puts another server in the place of that of a node. -/
def setServer (net : Network P S n) (i : Fin n) (server : Server P S) : Network P S n :=
  net.setSeat i { net.seat i with server }

/-- The new node stands at its number, and every other node where it was. -/
theorem seat_setSeat (net : Network P S n) (i j : Fin n) (seat : Seat P S) :
    (net.setSeat i seat).seat j = if i = j then seat else net.seat j := by
  change (net.seats.set i seat i.isLt)[j.val] = if i = j then seat else net.seats[j.val]
  rw [Vector.getElem_set]
  simp only [Fin.ext_iff]

/-- The node has the new server, and every other node keeps its own. -/
theorem server_setServer (net : Network P S n) (i j : Fin n) (server : Server P S) :
    (net.setServer i server).server j = if i = j then server else net.server j := by
  rw [setServer, Network.server, seat_setSeat]
  split <;> rfl

/-- A node as its peers see it. -/
def peer [PeerStore P] (net : Network P S n) (i : Fin n) : Peer :=
  ⟨(net.server i).id, (net.seat i).address⟩

/-! ## Faults -/

/-- Sets the fault at an address in the place of any other. -/
def setFault (net : Network P S n) (target : Address) (fault : Fault) : Network P S n :=
  { net with faults := (target, fault) :: net.faults.filter (·.1 != target) }

/-- Takes the fault from an address. -/
def clearFault (net : Network P S n) (target : Address) : Network P S n :=
  { net with faults := net.faults.filter (·.1 != target) }

/-! ## Requests -/

/-- The node that takes requests at an address. -/
def listener? (net : Network P S n) (target : Address) : Option (Fin n) :=
  (List.finRange n).find? fun i => (net.seat i).listening && (net.seat i).address == target

/-- Writes an exchange into the log. -/
def record (net : Network P S n) (exchange : Exchange) : Network P S n :=
  { net with log := net.log ++ [exchange] }

variable [PeerStore P] [Storage S]

/-- Takes a request from a node to the one at an address. -/
def deliver {α : Type} (net : Network P S n) (sender : Fin n) (target : Address)
    (handle : Option Peer → Server P S → Except ErrorCode α × Server P S) :
    Except RpcError α × Network P S n :=
  match net.listener? target with
  | none => (.error .unreachable, net)
  | some i =>
    let (reply, server) := handle (some (net.peer sender)) (net.server i)
    (reply.mapError RpcError.remote, net.setServer i server)

/-- A question for a value under the faults of the network. -/
def askAt (sender : Fin n) (target : Address) (request : GetRequest) (net : Network P S n) :
    Except RpcError GetReply × Network P S n :=
  match net.faults.lookup target with
  | some (.all e) | some (.gets e) => (.error e, net)
  | some (.reply reply) => (.ok reply, net)
  | fault =>
    let (reply, net) := net.deliver sender target (Server.handleGet · request)
    (reply.map fun r => { r with responder := Fault.disguise fault r.responder }, net)

/-- A store under the faults of the network. -/
def storeAt (sender : Fin n) (target : Address) (request : StoreRequest) (net : Network P S n) :
    Except RpcError StoreReply × Network P S n :=
  match net.faults.lookup target with
  | some (.all e) | some (.stores e) => (.error e, net)
  | fault =>
    let (reply, net) := net.deliver sender target (Server.handleStore · request)
    (reply.map fun r => { r with responder := Fault.disguise fault r.responder }, net)

/-- The requests of a node, each of which goes into the log. -/
def transport (sender : Fin n) : Transport (Network P S n) where
  getValue target request net :=
    let (outcome, net) := net.askAt sender target request
    (outcome, net.record (.get target request outcome))
  storeValue target request net :=
    let (outcome, net) := net.storeAt sender target request
    (outcome, net.record (.store target request outcome))

/-! ## Nodes -/

/-- A node, which acts on the network. -/
def node (net : Network P S n) (i : Fin n) : Node P S (Network P S n) where
  config := (net.seat i).config
  address := (net.seat i).address
  server net := net.server i
  setServer server net := net.setServer i server
  transport := transport i

/-- The address that is given out next. -/
def nextAddress (net : Network P S n) : Address :=
  .ofIPv4 10 0 0 1 (net.addresses + 1).toUInt16

/-- Gives out an address; none is given out twice. -/
def takeAddress (net : Network P S n) : Network P S n :=
  { net with addresses := net.addresses + 1 }

/-- Starts a node at an address.  It joins through the nodes that its settings
name before it takes requests itself. -/
def joinAt (net : Network P S n) (address : Address) (config : Config) (custom : CustomStores P S)
    (fresh : Id) : Except ConfigError (Network P S (n + 1)) := do
  let (config, server) ← config.prepare custom fresh
  let seat : Seat P S := { config, address, server }
  let starting := { net with seats := net.seats.push { seat with listening := false } }
  let i := Fin.last n
  let joined := (starting.node i).bootstrapAll starting
  return joined.setSeat i { joined.seat i with listening := true }

/-- Starts a node at the next address. -/
def join (net : Network P S n) (config : Config) (custom : CustomStores P S) (fresh : Id) :
    Except ConfigError (Network P S (n + 1)) :=
  net.takeAddress.joinAt net.nextAddress config custom fresh

/-- Makes a peer known to a node, if its store takes it. -/
def introduce (net : Network P S n) (i : Fin n) (peer : Peer) : Network P S n :=
  let server := net.server i
  match PeerStore.add server.peers peer with
  | .ok peers => net.setServer i { server with peers }
  | .error _ => net

/-- Makes every node known to every other one. -/
def connectAll (net : Network P S n) : Network P S n :=
  (List.finRange n).foldl (fun net i =>
    (List.finRange n).foldl (fun net j => net.introduce i (net.peer j)) net) net

end Network
end Kademlia
