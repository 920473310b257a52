import Kademlia.Node
import Kademlia.Session

/-!
# Kademlia.Lookup

The iterative search for a key.  Each step asks the closest candidate that was
not asked yet; the peers that it names become known to the node and candidates
of the lookup.  The search ends

* at the first value, or the first error that is more than one bad peer;
* when a step leaves a bounded session as it was;
* when every candidate was asked.
-/

namespace Kademlia

/-- A search under way: the candidates, and the errors of peers that were
asked in vain, in the order they arose. -/
structure Lookup where
  key : Id
  /-- How many peers to ask for at each step. -/
  k : UInt64
  session : Session
  errors : List PeerError := []

/-- How a search ends. -/
inductive Lookup.Ending where
  /-- A peer has a value for the key. -/
  | found (peer : Peer) (value : Bytes)
  /-- An error that is more than one bad peer. -/
  | failed (error : Error)
  /-- The closest peers stay the same. -/
  | settled
  /-- Every candidate was asked. -/
  | exhausted
  /-- The bound on the number of steps was reached. -/
  | cutOff
  deriving DecidableEq

namespace Server

variable {P S : Type} [PeerStore P]

/-- Peers as candidates of a lookup. -/
def candidates (srv : Server P S) (key : Id) (peers : List Peer) : Except Error (List Candidate) :=
  peers.mapM fun peer => do
    return { peer, distance := ← PeerStore.distance srv.peers peer.id key }

/-- Gets to know peers, space permitting, and makes them candidates; the
first one that cannot be added or measured ends it. -/
def learn (key : Id) : List Peer → Server P S → Except Error (List Candidate) × Server P S
  | [], srv => (.ok [], srv)
  | peer :: rest, srv =>
    let added : Except Error (Server P S) :=
      match PeerStore.add srv.peers peer with
      | .ok peers => .ok { srv with peers }
      | .error .noSpace => .ok srv
      | .error e => .error e
    match added with
    | .error e => (.error e, srv)
    | .ok srv =>
      match PeerStore.distance srv.peers peer.id key with
      | .error e => (.error e, srv)
      | .ok distance =>
        let (learned, srv) := learn key rest srv
        (learned.map ({ peer, distance } :: ·), srv)

/-- Forgets the peers that caused errors; one that cannot be removed stays. -/
def evict (srv : Server P S) (errors : List PeerError) : Server P S :=
  errors.foldl (fun srv e =>
    match PeerStore.remove srv.peers e.peer with
    | .ok peers => { srv with peers }
    | .error _ => srv) srv

end Server

namespace Lookup

variable {P S σ : Type} [PeerStore P] [Storage S]

/-- Takes up the peers that a reply names. -/
def absorb (node : Node P S σ) (l : Lookup) (nodes : List Peer) (s : σ) :
    Option Ending × Lookup × σ :=
  match node.locally (Server.learn l.key nodes) s with
  | (.error e, s) => (some (.failed e), l, s)
  | (.ok candidates, s) =>
    let (taken, session) := l.session.merge candidates
    (if session.isBounded ∧ taken = 0 then some .settled else none, { l with session }, s)

/-- Asks the next candidate; there is an ending if the search is over. -/
def step (node : Node P S σ) (l : Lookup) (s : σ) : Option Ending × Lookup × σ :=
  match l.session.next? with
  | none => (some .exhausted, l, s)
  | some (candidate, session) =>
    let l := { l with session }
    match node.ask candidate.peer ⟨l.key, l.k⟩ s with
    | (.error e, s) =>
      if e.isExpected then (none, { l with errors := l.errors ++ [⟨candidate.peer, e⟩] }, s)
      else (some (.failed (.rpc e)), l, s)
    | (.ok reply, s) =>
      match reply.value with
      | some value => (some (.found candidate.peer value), l, s)
      | none => l.absorb node reply.nodes s

/-- Takes at most `fuel` steps. -/
def runFor (node : Node P S σ) : (fuel : Nat) → Lookup → σ → Ending × Lookup × σ
  | 0, l, s => (.cutOff, l, s)
  | fuel + 1, l, s =>
    match l.step node s with
    | (some ending, l, s) => (ending, l, s)
    | (none, l, s) => runFor node fuel l s

/-- How many steps a search takes at most: no id is asked twice, so there are
no more of them than ids of the key's length. -/
def stepBound (l : Lookup) : Nat := Nat.pow 256 l.key.length

/-- Searches to the end. -/
def run (node : Node P S σ) (l : Lookup) (s : σ) : Ending × Lookup × σ :=
  runFor node l.stepBound l s

end Lookup
end Kademlia
