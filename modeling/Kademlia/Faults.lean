import Kademlia.PeerStore
import Kademlia.Storage

/-!
# Kademlia.Faults

Stores that fail on request, to see what a node does about it: each wraps a
working store and refuses the operations that its list of faults names.
-/

namespace Kademlia

/-- The operations that a peer store refuses, by the ids they are about. -/
structure PeerFaults where
  add : List Id := []
  remove : List Id := []
  /-- Distances measured from these ids. -/
  distance : List Id := []
  /-- Every search for closest peers. -/
  closest : Bool := false

/-- A routing table that refuses some operations. -/
structure FaultyTable where
  table : RoutingTable
  faults : PeerFaults := {}

/-- The error of a refused operation. -/
def refusal (operation : String) : StorageError := ⟨operation ++ " failed"⟩

namespace FaultyTable

/-- Runs `operation` unless it is refused. -/
def refuseIf {α : Type} (refused : Bool) (name : String) (operation : Except Error α) :
    Except Error α :=
  if refused then .error (.storage (refusal name)) else operation

instance : PeerStore FaultyTable where
  create localId bucketSize := { table := PeerStore.create localId bucketSize }
  localId s := PeerStore.localId s.table
  add s peer := refuseIf (s.faults.add.contains peer.id) "add"
    ((PeerStore.add s.table peer).map ({ s with table := · }))
  remove s peer := refuseIf (s.faults.remove.contains peer.id) "remove"
    ((PeerStore.remove s.table peer).map ({ s with table := · }))
  peers s := PeerStore.peers s.table
  closest s key k := refuseIf s.faults.closest "closest" (PeerStore.closest s.table key k)
  distance s a b := refuseIf (s.faults.distance.contains a) "distance"
    (PeerStore.distance s.table a b)

end FaultyTable

/-- The keys on which a storage fails to read or to write. -/
structure StorageFaults where
  get : List Bytes := []
  set : List Bytes := []

/-- Values in memory, with keys that fail. -/
structure FaultyStorage where
  storage : MemoryStorage := {}
  faults : StorageFaults := {}

instance : Storage FaultyStorage where
  create := {}
  get s key :=
    if s.faults.get.contains key then .error (refusal "get") else Storage.get s.storage key
  set s key value :=
    if s.faults.set.contains key then .error (refusal "set")
    else (Storage.set s.storage key value).map ({ s with storage := · })

end Kademlia
