import Kademlia.RoutingTable

/-!
# Kademlia.PeerStore

What a node needs of the peers it knows.  The routing table is the usual
store; a node may bring another one.
-/

namespace Kademlia

/-- Peers known to a node, and the distances between ids. -/
class PeerStore (P : Type) where
  /-- A store without peers for the node with this id, in buckets of a size. -/
  create : (localId : Id) → (bucketSize : Nat) → P
  /-- The id of the local node. -/
  localId : P → Id
  /-- Adds a peer.  The local node and known peers change nothing; there may
  be no space for a new one. -/
  add : P → Peer → Except Error P
  /-- Removes a peer. -/
  remove : P → Peer → Except Error P
  /-- All known peers, in no particular order. -/
  peers : P → List Peer
  /-- The known peers closest to a key with their distances, closest first. -/
  closest : P → (key : Id) → (k : Nat) → Except Error (List (Peer × Distance))
  /-- The distance between two ids. -/
  distance : P → Id → Id → Except Error Distance

instance : PeerStore RoutingTable where
  create := RoutingTable.empty
  localId := (·.localId)
  add := RoutingTable.add
  remove t peer := t.remove peer.id
  peers := RoutingTable.peers
  closest t key k := Error.liftId (t.closest key k)
  distance _ a b := Error.liftId (a.distance b)

end Kademlia
