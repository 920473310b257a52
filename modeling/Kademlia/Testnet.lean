import Kademlia.Loopback

/-!
# Kademlia.Testnet

A small overlay on one host to try things out on: nodes with random ids, each
of which joins through a few of those started before it.
-/

namespace Kademlia.Testnet

/-- How many nodes a new one joins through at most. -/
def contacts : Nat := 3

/-- Takes one element out of a list at random. -/
def draw {α γ : Type} [RandomGen γ] (xs : List α) (g : γ) : Option (α × List α) × γ :=
  let (i, g) := randNat g 0 (xs.length - 1)
  (xs[i]?.map fun x => (x, xs.eraseIdx i), g)

/-- Up to `k` elements of a list, drawn at random. -/
def choose {α γ : Type} [RandomGen γ] : (k : Nat) → List α → γ → List α × γ
  | 0, _, g => ([], g)
  | k + 1, xs, g =>
    match draw xs g with
    | (none, g) => ([], g)
    | (some (x, rest), g) =>
      let (chosen, g) := choose k rest g
      (x :: chosen, g)

/-- Where the nodes of a host can be joined, in the order they started. -/
def bootstrapTexts {P S : Type} {n : Nat} (host : Loopback P S n) : List String :=
  host.endpoints.toList.map fun e => toString e.address

/-- Starts nodes one after the other. -/
def start {γ : Type} [RandomGen γ] (link : Link) :
    (count : Nat) → γ → Except Error (Loopback RoutingTable MemoryStorage count × γ)
  | 0, g => .ok (.empty link, g)
  | count + 1, g => do
    let (host, g) ← start link count g
    let (bootstrap, g) := choose contacts (bootstrapTexts host) g
    let (id, g) := Id.random g
    return (← host.join { bootstrap } {} id, g)

end Kademlia.Testnet
