import Kademlia.Node

/-!
# Kademlia.Replication

Storing a value at several nodes.  Each replica is on its own: a peer that
cannot be reached, or that answers for another node, is one replica less, any
other error ends the storing, and nothing is taken back.
-/

namespace Kademlia.Node

variable {P S σ : Type} [PeerStore P] [Storage S]

/-- Stores a value at each of the peers, in order; returns those that failed. -/
def replicate (node : Node P S σ) (request : StoreRequest) :
    (storers : List Peer) → σ → Except RpcError (List PeerError) × σ
  | [], s => (.ok [], s)
  | peer :: rest, s =>
    match node.storeAt peer request s with
    | (.ok (), s) => node.replicate request rest s
    | (.error e, s) =>
      if e.isStoreFailure then
        let (failures, s) := node.replicate request rest s
        (failures.map (⟨peer, e⟩ :: ·), s)
      else (.error e, s)

end Kademlia.Node
