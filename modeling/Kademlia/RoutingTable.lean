import Kademlia.Bucket
import Kademlia.Selection

/-!
# Kademlia.RoutingTable

The peers that a node knows.  Bucket `i` holds those that share exactly `i`
leading bits with the local id, so a table has one bucket for every bit of
the id, and the local id itself belongs in none.
-/

namespace Kademlia

/-- The known peers of the node `localId`, at most `bucketSize` to a bucket. -/
structure RoutingTable where
  localId : Id
  bucketSize : Nat
  buckets : Vector (Bucket bucketSize) (8 * localId.length)

namespace RoutingTable

/-- The number of peers in a bucket unless one asks for another. -/
def defaultBucketSize : Nat := 20

/-- A table without peers. -/
def empty (localId : Id) (bucketSize : Nat) : RoutingTable :=
  ⟨localId, bucketSize, Vector.replicate _ {}⟩

/-- The bucket that an id belongs to; `none` for the local id. -/
def bucketIndex? (t : RoutingTable) (id : Id) :
    Except IdError (Option (Fin (8 * t.localId.length))) := do
  let shared ← t.localId.commonPrefixLength id
  return if h : shared < 8 * t.localId.length then some ⟨shared, h⟩ else none

/-! ## What is known -/

/-- All known peers, bucket by bucket. -/
def peers (t : RoutingTable) : List Peer := t.buckets.toList.flatMap (·.peers)

/-- The number of known peers. -/
def size (t : RoutingTable) : Nat := t.buckets.toList.foldr (fun b n => b.size + n) 0

/-- Whether nobody is known. -/
def isEmpty (t : RoutingTable) : Bool := t.buckets.toList.all (·.peers.isEmpty)

/-- The peers of one bucket in the order they came; nobody out of range. -/
def bucket (t : RoutingTable) (index : Nat) : List Peer :=
  match t.buckets[index]? with
  | some b => b.peers
  | none => []

/-- Whether a peer with this id is known. -/
def contains (t : RoutingTable) (id : Id) : Bool :=
  match t.bucketIndex? id with
  | .ok (some i) => (t.buckets.get i).contains id
  | _ => false

/-- The `k` known peers closest to `key` with their distances, closest first. -/
def closest (t : RoutingTable) (key : Id) (k : Nat) : Except IdError (List (Peer × Distance)) := do
  t.localId.checkLength key
  let selection ← Selection.addAll ⟨key, k, []⟩ t.peers
  return selection.peers

/-! ## Changes -/

/-- Puts another bucket in the place of one. -/
def setBucket (t : RoutingTable) (i : Fin (8 * t.localId.length)) (b : Bucket t.bucketSize) :
    RoutingTable :=
  { t with buckets := t.buckets.set i b i.isLt }

/-- The new bucket stands at its index, and every other one where it was. -/
theorem get_setBucket (t : RoutingTable) (i j : Fin (8 * t.localId.length))
    (b : Bucket t.bucketSize) :
    (t.setBucket i b).buckets.get j = if i = j then b else t.buckets.get j := by
  change (t.buckets.set i b i.isLt)[j.val] = if i = j then b else t.buckets[j.val]
  rw [Vector.getElem_set]
  simp only [Fin.ext_iff]

/-- Adds a peer to its bucket; the local node and known peers change nothing. -/
def add (t : RoutingTable) (peer : Peer) : Except Error RoutingTable := do
  match ← Error.liftId (t.bucketIndex? peer.id) with
  | none => return t
  | some i => return t.setBucket i (← (t.buckets.get i).add peer)

/-- Removes the peer with this id; an unknown one changes nothing. -/
def remove (t : RoutingTable) (id : Id) : Except Error RoutingTable := do
  match ← Error.liftId (t.bucketIndex? id) with
  | none => return t
  | some i => return t.setBucket i ((t.buckets.get i).remove id)

end RoutingTable
end Kademlia
