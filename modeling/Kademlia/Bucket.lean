import Kademlia.Error

/-!
# Kademlia.Bucket

A bucket of a routing table: a bounded list of peers in the order they came.
A full bucket takes nobody new.
-/

namespace Kademlia

/-- A list of peers that grows to `capacity` at most. -/
structure Bucket (capacity : Nat) where
  peers : List Peer := []

namespace Bucket

variable {capacity : Nat}

/-- Whether a peer with this id is in the bucket. -/
def contains (b : Bucket capacity) (id : Id) : Bool := b.peers.any (·.id == id)

/-- Appends a peer; one that is there already changes nothing. -/
def add (b : Bucket capacity) (peer : Peer) : Except Error (Bucket capacity) :=
  if b.contains peer.id then .ok b
  else if capacity ≤ b.peers.length then .error .noSpace
  else .ok ⟨b.peers ++ [peer]⟩

/-- Takes out the peer with this id and keeps the order of the others. -/
def remove (b : Bucket capacity) (id : Id) : Bucket capacity :=
  ⟨b.peers.eraseP (·.id == id)⟩

/-- The number of peers. -/
def size (b : Bucket capacity) : Nat := b.peers.length

end Bucket
end Kademlia
