import Kademlia.Id
import Kademlia.Address.Text

/-!
# Kademlia.Peer

A peer: the id of a node and the address it is reached at.  A node is known
by its id, so two peers with one id are the same node wherever they are.
-/

namespace Kademlia

/-- A node of the overlay as another one knows it. -/
structure Peer where
  id : Id
  address : Address
  deriving DecidableEq

namespace Peer

/-- Whether two peers are one node: their ids are equal. -/
def sameNode (a b : Peer) : Bool := a.id == b.id

/-- A peer with a random id. -/
def random {γ : Type} [RandomGen γ] (address : Address) (g : γ) : Peer × γ :=
  let (id, g) := Id.random g
  (⟨id, address⟩, g)

instance : ToString Peer := ⟨fun p => s!"{p.id}@{p.address}"⟩

end Peer
end Kademlia
