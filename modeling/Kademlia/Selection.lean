import Kademlia.Distance
import Kademlia.Peer

/-!
# Kademlia.Selection

The peers closest to a target among those offered one after the other.  A
selection is bounded: once it is full, a peer enters only in the place of a
farther one.
-/

namespace Kademlia

/-- At most `capacity` peers with their distances to `target`, closest first. -/
structure Selection where
  target : Id
  capacity : Nat
  peers : List (Peer × Distance) := []

namespace Selection

/-- Whether a peer with this id is selected. -/
def contains (s : Selection) (id : Id) : Bool := s.peers.any (·.1.id == id)

/-- Puts a peer behind all that are not farther than it. -/
def insertSorted (peer : Peer) (d : Distance) (peers : List (Peer × Distance)) :
    List (Peer × Distance) :=
  peers.takeWhile (fun p => !d.closer p.2) ++ (peer, d)
    :: peers.dropWhile (fun p => !d.closer p.2)

/-- Makes room for a peer at distance `d`: in a full selection the farthest
peer leaves if it is strictly farther; `none` if there is no room. -/
def makeRoom? (s : Selection) (d : Distance) : Option (List (Peer × Distance)) :=
  if s.peers.length = s.capacity then
    match s.peers.getLast? with
    | some (_, farthest) => if d.closer farthest then some s.peers.dropLast else none
    | none => none
  else some s.peers

/-- Offers a peer.  Its id must have the length of the target; one that is
selected already, or that finds no room, changes nothing. -/
def add (s : Selection) (peer : Peer) : Except IdError Selection := do
  let d ← s.target.distance peer.id
  if s.capacity = 0 || s.contains peer.id then return s
  match s.makeRoom? d with
  | none => return s
  | some peers => return { s with peers := insertSorted peer d peers }

/-- Offers peers one after the other. -/
def addAll (s : Selection) (peers : List Peer) : Except IdError Selection :=
  peers.foldlM add s

end Selection
end Kademlia
