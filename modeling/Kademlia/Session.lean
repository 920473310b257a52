import Kademlia.Distance
import Kademlia.Peer

/-!
# Kademlia.Session

The candidates of one lookup: peers with their distances to its key, and
which of them were asked already.

* An unbounded session keeps every peer it is offered; it serves to find a value.
* A bounded session keeps the closest ones: once full it takes a peer only in
  the place of a farther one.  It serves to find where to store a value.

No session holds two candidates with one id.

A bounded session makes room for all its candidates when it is opened.  No
allocation has 2^63 bytes or more, so beyond `maxCapacity` there is no such
session (`bounded?`), and whoever opens one panics.  An allocation within that
limit is taken to succeed: running out of memory is not modelled.
-/

namespace Kademlia

/-- A peer that a lookup may ask. -/
structure Candidate where
  peer : Peer
  distance : Distance
  /-- Whether the lookup has picked it. -/
  searched : Bool := false

/-- The candidates of a lookup; `capacity` bounds their number if given. -/
structure Session where
  capacity : Option Nat
  candidates : List Candidate := []

namespace Session

/-- A session without bound. -/
def unbounded : Session := { capacity := none }

/-- A session of at most `capacity` candidates, for which there is room. -/
def bounded (capacity : Nat) : Session := { capacity := some capacity }

/-- The bytes that a candidate takes where words have 64 bits: 32 for its id, 32
for its address, 16 for its distance and 8 for its mark. -/
def candidateSize : Nat := 88

/-- The most candidates that room can be made for. -/
def maxCapacity : Nat := 0x7fffffffffffffff / candidateSize

/-- Opens a session of at most `capacity` candidates; `none` is a panic. -/
def bounded? (capacity : Nat) : Option Session :=
  if capacity ≤ maxCapacity then some (bounded capacity) else none

/-- Whether the number of candidates is bounded. -/
def isBounded (s : Session) : Bool := s.capacity.isSome

/-- The peers of the candidates, in order. -/
def peers (s : Session) : List Peer := s.candidates.map (·.peer)

/-- Whether a peer with this id is a candidate. -/
def contains (s : Session) (id : Id) : Bool := s.candidates.any (·.peer.id == id)

/-! ## Offering candidates -/

/-- Appends a candidate unless its peer is there, and tells whether it did;
the capacity does not matter. -/
def add (s : Session) (c : Candidate) : Bool × Session :=
  if s.contains c.peer.id then (false, s)
  else (true, { s with candidates := s.candidates ++ [c] })

/-- Of two candidates the farther, and the later one if they are equally far. -/
def fartherOf (x y : Candidate) : Candidate := if y.distance.closer x.distance then x else y

/-- The last of the farthest candidates. -/
def farthest? : List Candidate → Option Candidate
  | [] => none
  | c :: cs => some (cs.foldl fartherOf c)

/-- Puts `new` where the peer of `old` stands. -/
def replace (s : Session) (old new : Candidate) : Session :=
  { s with candidates := s.candidates.map fun c => if c.peer.id = old.peer.id then new else c }

/-- Whether there is room for one more. -/
def hasRoom (s : Session) : Bool := s.capacity.all (s.candidates.length < ·)

/-- Offers one candidate to the session, and tells whether it took it: into
free room, or in the place of the farthest candidate if it is strictly closer. -/
def offer (s : Session) (c : Candidate) : Bool × Session :=
  if s.contains c.peer.id then (false, s)
  else if s.hasRoom then (true, { s with candidates := s.candidates ++ [c] })
  else
    match farthest? s.candidates with
    | some far =>
      if c.distance.closer far.distance then (true, s.replace far c) else (false, s)
    | none => (false, s)

/-- Applies a step to candidates one after the other and counts those it took. -/
def countTaken (step : Session → Candidate → Bool × Session) (s : Session)
    (cs : List Candidate) : Nat × Session :=
  cs.foldl (fun (taken, s) c =>
    let (took, s) := step s c
    (if took then taken + 1 else taken, s)) (0, s)

/-- Offers candidates one after the other and counts those that were taken. -/
def addIfCloser (s : Session) (cs : List Candidate) : Nat × Session := countTaken offer s cs

/-- Adds candidates in the manner of the session and counts those that were taken. -/
def merge (s : Session) (cs : List Candidate) : Nat × Session :=
  if s.isBounded then s.addIfCloser cs else countTaken add s cs

/-! ## Picking candidates -/

/-- Of two candidates the closer, and the earlier one if they are equally far. -/
def closerOf (x y : Candidate) : Candidate := if y.distance.closer x.distance then y else x

/-- The first of the closest candidates that nobody picked yet. -/
def closestUnsearched? (s : Session) : Option Candidate :=
  match s.candidates.filter (!·.searched) with
  | [] => none
  | c :: cs => some (cs.foldl closerOf c)

/-- Marks the candidate with this id as picked, if there is one. -/
def markSearched (s : Session) (id : Id) : Session :=
  { s with candidates := s.candidates.map fun c =>
      if c.peer.id = id then { c with searched := true } else c }

/-- Picks the closest candidate that nobody picked yet. -/
def next? (s : Session) : Option (Candidate × Session) :=
  s.closestUnsearched?.map fun c =>
    ({ c with searched := true }, s.markSearched c.peer.id)

end Session
end Kademlia
