import Kademlia.Proofs.Joining

/-!
# Kademlia.Proofs.Run

Everything that can happen to a network without faults: nodes start, and each
node joins through others, gets values and sets them, in any order
(`Network.Run`).  Such a network is always honest, and every node of it takes
requests (`Network.Run.ready`), because no call takes a node or a known peer
away (`Network.Ready.step`).
-/

namespace Kademlia

/-- Something that is done to a network. -/
inductive Call where
  | join (address : Address) (config : Config) (fresh : Id)
  | bootstrap (node : Nat) (target : Address)
  | get (node : Nat) (key : Id)
  | set (node : Nat) (key : Id) (value : Bytes) (result : Except Error Unit)

/-- Whether a value is set for a key. -/
def Call.sets (key : Id) : Call → Bool
  | .set _ other _ _ => other == key
  | _ => false

/-- The calls that set a key, after one more. -/
theorem Call.filter_sets_append (key : Id) (calls : List Call) (call : Call) :
    (calls ++ [call]).filter (·.sets key) =
      if call.sets key then calls.filter (·.sets key) ++ [call] else calls.filter (·.sets key) := by
  rw [List.filter_append]
  cases h : call.sets key <;> simp [h]

namespace Network

variable {n : Nat} {net net' : Overlay n} {i j : Fin n} {calls : List Call}

/-! ## Runs -/

/-- The networks that calls can lead to, each with the calls so far. -/
inductive Run : {n : Nat} → List Call → Overlay n → Prop where
  | start : Run [] Network.empty
  /-- A node starts at an address where no other is. -/
  | join {n : Nat} {calls : List Call} {net : Overlay n} {net' : Overlay (n + 1)}
      (hrun : Run calls net) (address : Address) (config : Config) (fresh : Id)
      (hfree : ∀ i, (net.seat i).address ≠ address)
      (hjoin : net.joinAt address config {} fresh = .ok net') :
      Run (calls ++ [.join address config fresh]) net'
  | bootstrap {n : Nat} {calls : List Call} {net : Overlay n} (hrun : Run calls net) (i : Fin n)
      (target : Address) :
      Run (calls ++ [.bootstrap i target]) ((net.node i).bootstrap target net).2
  | get {n : Nat} {calls : List Call} {net : Overlay n} (hrun : Run calls net) (i : Fin n)
      (key : Id) : Run (calls ++ [.get i key]) ((net.node i).getValue key net).2
  | set {n : Nat} {calls : List Call} {net : Overlay n} (hrun : Run calls net) (i : Fin n)
      (key : Id) (value : Bytes) :
      Run (calls ++ [.set i key value ((net.node i).setValue key value net).1])
        ((net.node i).setValue key value net).2

/-- A network that takes calls. -/
structure Ready (net : Overlay n) : Prop where
  honest : Honest net
  listening : net.Listening
  bucketSize_eq : ∀ i, (net.table i).bucketSize = (net.seat i).config.bucketSize

theorem Ready.grown (h : net.Ready) (hn : Honest net') (hg : Grown net net') : net'.Ready where
  honest := hn
  listening := hg.listening h.listening
  bucketSize_eq i := by
    rw [hg.bucketSize_eq, hg.config_eq]
    exact h.bucketSize_eq i

theorem Ready.joined {address : Address} {config : Config} {net' : Overlay (n + 1)} (h : net.Ready)
    (hj : Joined net address config net') : net'.Ready where
  honest := hj.honest
  listening := hj.listening
  bucketSize_eq i := by
    induction i using Fin.lastCases with
    | last => exact hj.bucketSize_last
    | cast i =>
        rw [hj.bucketSize_eq, hj.config_eq]
        exact h.bucketSize_eq i

/-- What one call makes of a network. -/
inductive Step {n : Nat} (net : Overlay n) : {m : Nat} → Overlay m → Prop where
  | join (address : Address) (config : Config) (fresh : Id)
      (hfree : ∀ i, (net.seat i).address ≠ address) {net' : Overlay (n + 1)}
      (hjoin : net.joinAt address config {} fresh = .ok net') : Step net net'
  | bootstrap (i : Fin n) (target : Address) : Step net ((net.node i).bootstrap target net).2
  | get (i : Fin n) (key : Id) : Step net ((net.node i).getValue key net).2
  | set (i : Fin n) (key : Id) (value : Bytes) : Step net ((net.node i).setValue key value net).2

/-- No node is lost, and no node forgets anybody. -/
structure Extends {m : Nat} (net : Overlay n) (net' : Overlay m) : Prop where
  le : n ≤ m
  peer_eq : ∀ i : Fin n, net'.peer (i.castLE le) = net.peer i
  known : ∀ i : Fin n, ∀ p ∈ (net.table i).peers, p ∈ (net'.table (i.castLE le)).peers

theorem Grown.extends (h : Grown net net') : Extends net net' :=
  ⟨Nat.le_refl n, h.peer_eq, h.known⟩

theorem Joined.extends {address : Address} {config : Config} {net' : Overlay (n + 1)}
    (h : Joined net address config net') : Extends net net' :=
  ⟨Nat.le_succ n, h.peer_eq, h.known⟩

theorem Extends.trans {m k : Nat} {net₁ : Overlay m} {net₂ : Overlay k} (h₁ : Extends net net₁)
    (h₂ : Extends net₁ net₂) : Extends net net₂ where
  le := h₁.le.trans h₂.le
  peer_eq i := (h₂.peer_eq _).trans (h₁.peer_eq i)
  known i p hp := h₂.known _ p (h₁.known i p hp)

/-- **A call leaves a network that takes the next one**, and nobody is forgotten. -/
theorem Ready.step {m : Nat} {net' : Overlay m} (h : net.Ready) (hstep : net.Step net') :
    net'.Ready ∧ Extends net net' := by
  have hgrown : ∀ {net' : Overlay n}, Honest net' → Grown net net' →
      net'.Ready ∧ Extends net net' := fun hn hg => ⟨h.grown hn hg, hg.extends⟩
  cases hstep with
  | join address config fresh hfree hjoin =>
      have hj := h.honest.joined h.listening hfree hjoin
      exact ⟨h.joined hj, hj.extends⟩
  | bootstrap i target =>
      obtain ⟨hn, hq⟩ := h.honest.quiet_bootstrap i target _
      exact hgrown hn hq.toGrown
  | get i key =>
      obtain ⟨hn, hq, _⟩ := h.honest.getValue h.listening i key
      exact hgrown hn hq.toGrown
  | set i key value =>
      obtain ⟨hn, hg⟩ := (h.honest.setOutcome h.listening i key value).grown
      exact hgrown hn hg

/-- **Whatever the calls, the network is honest and takes the next one.** -/
theorem Run.ready (h : Run calls net) : net.Ready := by
  induction h with
  | start => exact ⟨⟨rfl, fun i => i.elim0, fun i => i.elim0, fun i => i.elim0⟩,
      fun i => i.elim0, fun i => i.elim0⟩
  | join _ address config fresh hfree hjoin ih =>
      exact (ih.step (.join address config fresh hfree hjoin)).1
  | bootstrap _ i target ih => exact (ih.step (.bootstrap i target)).1
  | get _ i key ih => exact (ih.step (.get i key)).1
  | set _ i key value ih => exact (ih.step (.set i key value)).1

/-! ## Small networks -/

namespace Small

/-- An id of one byte. -/
def id (byte : UInt8) : Id := ⟨[byte], Id.singleton_ne_nil byte⟩

def address (port : UInt16) : Address := .ofIPv4 10 0 0 1 port

/-- A node with such an id that stores at two nodes at most. -/
def config (byte : UInt8) (bootstrap : List String) : Config where
  id := some (id byte)
  bootstrap := bootstrap
  workersGet := 1
  workersSet := 1
  maxStores := 2
  minStores := 1

/-- The network after such a node joined. -/
def join (net : Overlay n) (port : UInt16) (byte : UInt8) (bootstrap : List String) :
    Overlay (n + 1) :=
  net.welcome (address port) (config byte bootstrap) (id byte)

theorem run_join (hrun : Run calls net) (port : UInt16) (byte : UInt8) (bootstrap : List String)
    (hfree : ∀ i, (net.seat i).address ≠ address port) :
    Run (calls ++ [.join (address port) (config byte bootstrap) (id byte)])
      (join net port byte bootstrap) := by
  have hworkers : ¬ ((config byte bootstrap).workersGet = 0 ∨
      (config byte bootstrap).workersSet = 0) := by
    simp [config]
  have hsize : (config byte bootstrap).bucketSize ≠ 0 := by
    simp [config, RoutingTable.defaultBucketSize]
  exact .join hrun _ _ _ hfree (joinAt_eq net (address port) (id byte) hworkers hsize)

/-- The first node keeps a value, and another one joins through it. -/
def pair : Overlay 2 :=
  let net := join Network.empty 1 2 []
  join ((net.node 0).setValue (id 0) [0xaa] net).2 2 4 ["10.0.0.1:1"]

/-- A third one, closest to the key, joins through the second. -/
def chain : Overlay 3 := join pair 3 1 ["10.0.0.1:2"]

theorem run_chain : Run [.join (address 1) (config 2 []) (id 2),
    .set 0 (id 0) [0xaa] (.ok ()),
    .join (address 2) (config 4 ["10.0.0.1:1"]) (id 4),
    .join (address 3) (config 1 ["10.0.0.1:2"]) (id 1)] chain := by
  have hset := (run_join Run.start 1 2 [] fun i => i.elim0).set 0 (id 0) [0xaa]
  have hok : (((join Network.empty 1 2 []).node 0).setValue (id 0) [0xaa]
      (join Network.empty 1 2 [])).1 = .ok () := by
    decide +kernel
  rw [hok] at hset
  have hpair := run_join hset 2 4 ["10.0.0.1:1"] (by decide +kernel)
  exact run_join hpair 3 1 ["10.0.0.1:2"] (by decide +kernel)

end Small

end Network
end Kademlia
