import Kademlia.Lookup
import Kademlia.Replication

/-!
# Kademlia.Node.Values

Getting the value of a key from an overlay, and setting it once.  Either begins
at the local node, which is asked as any other peer would be.

To set a value, room is made for the candidates first, and there may be none.
`setValue?` is the call with that check; `setValue` is what it does where there
is room.
-/

namespace Kademlia.Node

variable {P S σ : Type} [PeerStore P] [Storage S]

/-- What the local node knows about a key. -/
inductive Opening where
  /-- It has the value. -/
  | here (value : Bytes)
  /-- It knows whom to ask. -/
  | lookup (l : Lookup)

/-- Asks the local node, in a session that has no candidates yet. -/
def begin (node : Node P S σ) (session : Session) (key : Id) (k : UInt64) (s : σ) :
    Except Error Opening × σ :=
  let srv := node.server s
  match srv.candidates key [⟨srv.id, node.address⟩] with
  | .error e => (.error e, s)
  | .ok self =>
    match node.locally (Server.handleGet none ⟨key, k⟩) s with
    | (.error code, s) => (.error (.server code), s)
    | (.ok ⟨_, some value, _⟩, s) => (.ok (.here value), s)
    | (.ok ⟨_, none, nodes⟩, s) =>
      let session := (session.merge self).2.markSearched (node.id s)
      let opening := do
        let candidates ← (node.server s).candidates key nodes
        return Opening.lookup { key, k, session := (session.merge candidates).2 }
      (opening, s)

/-- Forgets the peers that a search asked in vain. -/
def evict (node : Node P S σ) (errors : List PeerError) (s : σ) : σ :=
  node.setServer ((node.server s).evict errors) s

/-- The value that somebody keeps for a key. -/
def getValue (node : Node P S σ) (key : Id) (s : σ) : Except Error Bytes × σ :=
  match node.begin .unbounded key node.config.peersReturnedGet s with
  | (.error e, s) => (.error e, s)
  | (.ok (.here value), s) => (.ok value, s)
  | (.ok (.lookup l), s) =>
    let (ending, l, s) := l.run node s
    let result :=
      match ending with
      | .found _ value => .ok value
      | .failed e => .error e
      | .settled | .exhausted => .error (.notFound l.errors)
      | .cutOff => .error .interrupted
    (result, node.evict l.errors s)

/-- Stores a value at the peers that a search has settled on. -/
def place (node : Node P S σ) (l : Lookup) (value : Bytes) (s : σ) : Except Error Unit × σ :=
  let storers := l.session.peers
  let required := node.config.minStores
  if storers.length < required then
    (.error (.settingFailed (.notEnoughStorers storers.length required) l.errors), s)
  else
    match node.replicate ⟨l.key, value⟩ storers (node.evict l.errors s) with
    | (.error e, s) => (.error (.rpc e), s)
    | (.ok failures, s) =>
      let stored := storers.length - failures.length
      if stored < required then
        (.error (.settingFailed (.notEnoughReplicas stored required) failures), s)
      else (.ok (), s)

/-- Looks for storers in a session without candidates, and stores a value there
unless somebody has one for the key. -/
def setValueIn (node : Node P S σ) (session : Session) (key : Id) (value : Bytes) (s : σ) :
    Except Error Unit × σ :=
  match node.begin session key node.config.peersReturnedSet s with
  | (.error e, s) => (.error e, s)
  | (.ok (.here _), s) => (.error .alreadySet, s)
  | (.ok (.lookup l), s) =>
    match l.run node s with
    | (.found _ _, _, s) => (.error .alreadySet, s)
    | (.failed e, _, s) => (.error e, s)
    | (.cutOff, _, s) => (.error .interrupted, s)
    | (.settled, l, s) | (.exhausted, l, s) => node.place l value s

/-- Stores a value at the nodes closest to its key, unless somebody has one
for the key already.  There has to be room for as many candidates as there are
to be storers; `setValue?` is the call that makes it. -/
def setValue (node : Node P S σ) (key : Id) (value : Bytes) (s : σ) : Except Error Unit × σ :=
  if node.config.maxStores = 0 then (.error (.invalidConfig .noStores), s)
  else node.setValueIn (.bounded node.config.maxStores) key value s

/-- Makes room for the candidates and sets a value; `none` is a panic, which
comes before anything is looked up or sent. -/
def setValue? (node : Node P S σ) (key : Id) (value : Bytes) (s : σ) :
    Option (Except Error Unit × σ) :=
  if node.config.maxStores = 0 then some (.error (.invalidConfig .noStores), s)
  else
    (Session.bounded? node.config.maxStores).map fun session =>
      node.setValueIn session key value s

/-- What a call comes to in a thread of its own: if the thread panics, the call
was interrupted and has changed nothing. -/
def inThread {α : Type} (s : σ) (outcome : Option (Except Error α × σ)) : Except Error α × σ :=
  outcome.getD (.error .interrupted, s)

section

variable {node : Node P S σ} {key : Id} {value : Bytes} {s : σ}

/-- Where there is room for the storers, `setValue?` does what `setValue` does. -/
theorem setValue?_of_le (hroom : node.config.maxStores ≤ Session.maxCapacity) :
    node.setValue? key value s = some (node.setValue key value s) := by
  rw [setValue?, setValue, Session.bounded?, if_pos hroom]
  split <;> rfl

/-- Elsewhere it panics. -/
theorem setValue?_of_lt (hroom : Session.maxCapacity < node.config.maxStores) :
    node.setValue? key value s = none := by
  rw [setValue?, Session.bounded?, if_neg (Nat.ne_of_gt (Nat.zero_lt_of_lt hroom)),
    if_neg (Nat.not_le_of_gt hroom)]
  rfl

theorem setValue?_eq_none_iff :
    node.setValue? key value s = none ↔ Session.maxCapacity < node.config.maxStores := by
  refine ⟨fun h => Nat.lt_of_not_le fun hroom => ?_, setValue?_of_lt⟩
  rw [setValue?_of_le hroom] at h
  contradiction

theorem setValue?_eq_some_iff {outcome : Except Error Unit × σ} :
    node.setValue? key value s = some outcome ↔
      node.config.maxStores ≤ Session.maxCapacity ∧ node.setValue key value s = outcome := by
  constructor
  · intro h
    by_cases hroom : node.config.maxStores ≤ Session.maxCapacity
    · exact ⟨hroom, Option.some.inj ((setValue?_of_le hroom).symm.trans h)⟩
    · rw [setValue?_of_lt (Nat.lt_of_not_le hroom)] at h
      contradiction
  · rintro ⟨hroom, rfl⟩
    exact setValue?_of_le hroom

end

end Kademlia.Node
