import Kademlia.Node.Values
import Kademlia.Socket

/-!
# Kademlia.Loopback

Nodes with sockets on one host, reached through its loopback address.  A
packet arrives at once or, if the host does not send it or nobody is there,
never; then the request that waits for an answer runs into its timeout.
-/

namespace Kademlia

/-- A node with a socket at a port. -/
structure Endpoint (P S : Type) where
  config : Config
  port : UInt16
  socket : Socket P S

/-- Where the other nodes of the host reach an endpoint. -/
def Endpoint.address {P S : Type} (e : Endpoint P S) : Address := .ofIPv4 127 0 0 1 e.port

/-- A host with `n` nodes. -/
structure Loopback (P S : Type) (n : Nat) where
  link : Link
  endpoints : Vector (Endpoint P S) n

namespace Loopback

variable {P S : Type} {n : Nat}

/-- A host without nodes. -/
def empty (link : Link) : Loopback P S 0 := ⟨link, #v[]⟩

/-- The endpoint with this number. -/
def endpoint (host : Loopback P S n) (i : Fin n) : Endpoint P S := host.endpoints.get i

/-- The socket of a node. -/
def socket (host : Loopback P S n) (i : Fin n) : Socket P S := (host.endpoint i).socket

/-- Puts another socket in the place of that of a node. -/
def setSocket (host : Loopback P S n) (i : Fin n) (socket : Socket P S) : Loopback P S n :=
  { host with endpoints := host.endpoints.set i { host.endpoint i with socket } i.isLt }

/-- The node has the new socket, and every other node keeps its own. -/
theorem socket_setSocket (host : Loopback P S n) (i j : Fin n) (socket : Socket P S) :
    (host.setSocket i socket).socket j = if i = j then socket else host.socket j := by
  change (host.endpoints.set i { host.endpoint i with socket } i.isLt)[j.val].socket = _
  rw [Vector.getElem_set]
  simp only [Fin.ext_iff]
  split <;> rfl

/-- The node whose socket gets what is sent to an address. -/
def receiver? (host : Loopback P S n) (target : Address) : Option (Fin n) :=
  (List.finRange n).find? fun i => target.answeredBy (host.endpoint i).address

/-! ## Packets -/

/-- How a request of a node ended, if this effect of a socket says so. -/
def outcome? (i : Fin n) (caller : Nat) : Fin n × Socket.Effect →
    Option (Except RpcError Answer)
  | (j, .finish other outcome) => if j = i ∧ other = caller then some outcome else none
  | _ => none

variable [PeerStore P] [Storage S]

/-- Carries the packets among the effects of sockets to where they go, and
returns the effects that they have there. -/
def carry : List (Fin n × Socket.Effect) → Loopback P S n →
    List (Fin n × Socket.Effect) × Loopback P S n
  | [], host => ([], host)
  | (_, .finish _ _) :: rest, host => carry rest host
  | (i, .send target packet) :: rest, host =>
    match host.receiver? target with
    | none => carry rest host
    | some j =>
      let (effects, socket) := (host.socket j).receive host.link (host.endpoint i).address packet
      let (others, host) := carry rest (host.setSocket j socket)
      (effects.map (j, ·) ++ others, host)

/-- Sends a query and waits for what comes of it.  The packet of the query is
carried and then that of the answer. -/
def call (i : Fin n) (target : Address) (query : Query) (host : Loopback P S n) :
    Except RpcError Answer × Loopback P S n :=
  let caller := (host.socket i).callers
  let (started, socket) := (host.socket i).start host.link target query
  let sent := started.map (i, ·)
  let (answered, host) := carry sent (host.setSocket i socket)
  let (received, host) := carry answered host
  match (sent ++ answered ++ received).findSome? (outcome? i caller) with
  | some outcome => (outcome, host)
  | none => (.error .unreachable, host.setSocket i ((host.socket i).timeout caller).2)

/-- The requests of a node. -/
def transport (i : Fin n) : Transport (Loopback P S n) where
  getValue target request host :=
    let (answer, host) := host.call i target (.getValue request)
    (answer.bind Answer.getReply, host)
  storeValue target request host :=
    let (answer, host) := host.call i target (.storeValue request)
    (answer.bind Answer.storeReply, host)

/-! ## Nodes -/

/-- A node, which acts on the host.  Its socket is bound to every interface,
and it knows its own address in that form. -/
def node (host : Loopback P S n) (i : Fin n) : Node P S (Loopback P S n) where
  config := (host.endpoint i).config
  address := .ofIPv4 0 0 0 0 (host.endpoint i).port
  server host := (host.socket i).server
  setServer server host := host.setSocket i { host.socket i with server }
  transport := transport i

/-- Whether a socket is bound to a port. -/
def isBound (host : Loopback P S n) (port : UInt16) : Bool :=
  host.endpoints.any (·.port == port)

/-- The first dynamic port that is free. -/
def freePort? (host : Loopback P S n) : Option UInt16 :=
  ((List.range 16384).map fun i => (49152 + i).toUInt16).find? (!host.isBound ·)

/-- Chooses the port of a socket: the one that is asked for, or a free one if
none or port 0 is. -/
def bind? (host : Loopback P S n) (port : Option UInt16) : Option UInt16 :=
  match port.filter (· != 0) with
  | some port => if host.isBound port then none else some port
  | none => host.freePort?

/-- Starts a node, which joins through the nodes that its settings name. -/
def join (host : Loopback P S n) (config : Config) (custom : CustomStores P S) (fresh : Id) :
    Except Error (Loopback P S (n + 1)) := do
  let (config, server) ← (config.prepare custom fresh).mapError Error.invalidConfig
  match host.bind? config.port with
  | none => .error .io
  | some port =>
    let host := { host with endpoints := host.endpoints.push { config, port, socket := { server } } }
    return (host.node (Fin.last n)).bootstrapAll host

/-- Stops the socket of a node. -/
def shutdown (host : Loopback P S n) (i : Fin n) : Loopback P S n :=
  host.setSocket i (host.socket i).shutdown.drain.2

end Loopback
end Kademlia
