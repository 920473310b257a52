import Kademlia.RoutingTable
import Kademlia.Server

/-!
# Kademlia.Config

The settings of a node, and the server that a node with these settings starts
with.
-/

namespace Kademlia

/-- The settings of a node. -/
structure Config where
  /-- The id; a node without one takes that of its peer store, or a random one. -/
  id : Option Id := none
  /-- Where to look for peers at the start, each as `ip:port`; see
  `Address.parseNumeric?` for the forms that are read. -/
  bootstrap : List String := []
  /-- The port to listen at; any free one if not given. -/
  port : Option UInt16 := none
  /-- How many milliseconds an answer may take. -/
  requestTimeout : Nat := 2000
  /-- The number of peers in a bucket of the routing table. -/
  bucketSize : Nat := RoutingTable.defaultBucketSize
  /-- How many requests a search for a value may have under way.  To have one
  at a time is within every such bound, and is what the lookups here do. -/
  workersGet : Nat := 3
  /-- The same for storing a value. -/
  workersSet : Nat := 3
  /-- How many peers to ask for at each step of a search for a value. -/
  peersReturnedGet : UInt64 := 10
  /-- The same for a search for storers. -/
  peersReturnedSet : UInt64 := 10
  /-- At how many nodes to store a value at most. -/
  maxStores : Nat := 5
  /-- At how many nodes a value has to be stored. -/
  minStores : Nat := 2
  deriving DecidableEq

/-- Stores that a node brings along in the place of the usual ones. -/
structure CustomStores (P S : Type) where
  peers : Option P := none
  values : Option S := none

namespace Config

variable {P S : Type} [PeerStore P] [Storage S]

/-- The peer store of a node: its own, if the id agrees, or else an empty one.
`fresh` is the id of a node that was given none. -/
def peerStore (c : Config) (custom : Option P) (fresh : Id) : Except ConfigError P :=
  match custom with
  | some peers =>
    if c.id.all (· == PeerStore.localId peers) then .ok peers else .error .otherPeerStoreId
  | none =>
    if c.bucketSize = 0 then .error .noBucketSpace
    else .ok (PeerStore.create (c.id.getD fresh) c.bucketSize)

/-- Checks the settings and sets up the server; the settings returned hold the
id of the node. -/
def prepare (c : Config) (custom : CustomStores P S) (fresh : Id) :
    Except ConfigError (Config × Server P S) :=
  if c.workersGet = 0 ∨ c.workersSet = 0 then .error .noWorkers
  else do
    let peers ← c.peerStore custom.peers fresh
    let server := { peers, values := custom.values.getD Storage.create }
    return ({ c with id := some server.id }, server)

end Config
end Kademlia
