import Kademlia.Proofs.Joining
import Mathlib.Logic.Relation

/-!
# Kademlia.Proofs.Exhaustive

Searches without bound in honest networks, where every answer has space for
everybody.  Such a search always ends, and it ends without a value only if
nobody has one that can be reached from the node which began it, from one known
peer to the next (`Network.Honest.exhaustive`).
-/

namespace Kademlia

namespace Network

variable {n : Nat} {net net₀ net' : Overlay n} {i j : Fin n} {key : Id} {l l' : Lookup}

/-- With space for everybody a node names all whom it knows. -/
theorem Names.mem_ids {k : Nat} {nodes : List Peer} (hnames : net.Names j key k nodes)
    (hk : n ≤ k) {p : Peer} (hp : p ∈ (net.table j).peers) : ∃ q ∈ nodes, q.id = p.id := by
  obtain ⟨table, hgrown, hknown, _, hnearest⟩ := hnames
  have hall : table.peers.map (·.id) ⊆ (List.finRange n).map net.id := by
    intro id hid
    obtain ⟨q, hq, rfl⟩ := List.mem_map.mp hid
    obtain ⟨_, h, rfl⟩ := hknown q hq
    exact List.mem_map_of_mem (List.mem_finRange h)
  have hlen : ((List.finRange n).map net.id).length ≤ k := by
    rw [List.length_map, List.length_finRange]
    exact hk
  exact List.mem_map.mp (hnearest.mem_of_length_le hall hlen
    (List.mem_map_of_mem (f := Peer.id) (hgrown p hp)))

/-- A search without bound: whomever a node knows that was asked is a candidate. -/
structure Widening (net₀ : Overlay n) (i : Fin n) (l : Lookup) (net : Overlay n) : Prop
    extends Searching net₀ i l net where
  unbounded : l.session.capacity = none
  own : net₀.id i ∈ l.session.ids
  closed : ∀ c ∈ l.session.candidates, c.searched = true → ∀ j, net₀.Receives i c.peer j →
    ∀ p ∈ (net₀.table j).peers, p.id ∈ l.session.ids

/-- A node that has no value begins such a search. -/
theorem Honest.begin_widening (hn : Honest net) (hi : (net.id i).length = key.length)
    (hnone : net.value? i key = none) {k : UInt64} (hk : n ≤ k.toNat) :
    ∃ l, (net.node i).begin .unbounded key k net = (.ok (.lookup l), net) ∧ l.key = key ∧
      l.k = k ∧ 0 < l.session.searchedCount ∧ Widening net i l net := by
  obtain ⟨nodes, hnames, hbegin, hs⟩ := hn.begin_of_none hi hnone none k
  refine ⟨_, hbegin, rfl, rfl, Node.searchedCount_openingLookup, hs, ?_,
    Node.id_mem_openingLookup, ?_⟩
  · exact (Session.capacity_merge _ _).trans (Node.capacity_opened _ _ _ _)
  · intro c hc hsearched j hj p hp
    rcases Node.mem_openingLookup hc with ⟨q, _, rfl⟩ | hself
    · contradiction
    · have hid : c.peer.id = net.id i := congrArg Peer.id hself
      obtain rfl : j = i := by
        rcases hj with ⟨_, h⟩ | ⟨hne, _⟩
        · exact h
        · exact absurd hid hne
      obtain ⟨q, hq, hqid⟩ := hnames.mem_ids hk hp
      rw [← hqid]
      exact Node.mem_ids_openingLookup hq

/-- A step that is not the last makes progress. -/
theorem Widening.step (hw : Widening net₀ i l net) (hn₀ : Honest net₀) (hl : net₀.Listening)
    (hk : n ≤ l.k.toNat) (hstep : l.step (net₀.node i) net = (none, l', net')) :
    Widening net₀ i l' net' ∧ l'.key = l.key ∧ l'.k = l.k ∧
      l.session.searchedCount < l'.session.searchedCount := by
  have hadv := hw.advance hn₀ hl
  rw [hstep] at hadv
  cases hadv with
  | widened c j nodes net' hc hj hnone hnames htaken hs =>
      have hcap : (l.session.markSearched c.peer.id).capacity = none := hw.unbounded
      have hsub := Session.ids_subset_merge hcap (nodes.map (Candidate.fresh l.key))
      rw [Session.ids_markSearched] at hsub
      refine ⟨⟨hs, (Session.capacity_merge _ _).trans hcap, hsub hw.own, ?_⟩, rfl, rfl, ?_⟩
      · intro d hd hsearched h hdh p hp
        rcases Session.mem_candidates_merge hd with hd | hd
        · obtain ⟨q, _, rfl⟩ := List.mem_map.mp hd
          contradiction
        · rcases Session.mem_markSearched hd with ⟨hd, _⟩ | ⟨e, he, hid, rfl⟩
          · exact hsub (hw.closed d hd hsearched h hdh p hp)
          · -- It was asked just now, and whomever it knows it has named.
            obtain rfl : e = c := Session.eq_of_id_eq hw.sound.wellFormed.nodup he hc.mem hid
            obtain rfl : j = h := hj.unique hn₀ hdh
            obtain ⟨q, hq, hqid⟩ := hnames.mem_ids hk hp
            rw [← hqid]
            exact Session.mem_ids_merge hcap (List.mem_map_of_mem (f := Candidate.fresh l.key) hq)
      · exact Nat.lt_of_lt_of_le (Session.searchedCount_markSearched hc.mem hc.unsearched)
          (Session.searchedCount_merge hcap _)

/-- The last step finds a value, or there is nobody left to ask. -/
theorem Widening.last (hw : Widening net₀ i l net) (hn₀ : Honest net₀) (hl : net₀.Listening)
    {ending : Lookup.Ending} (hstep : l.step (net₀.node i) net = (some ending, l', net')) :
    (∃ p value, ending = .found p value) ∨ (ending = .exhausted ∧ l'.key = l.key ∧
      Widening net₀ i l' net' ∧ ∀ c ∈ l'.session.candidates, c.searched = true) := by
  have hadv := hw.advance hn₀ hl
  rw [hstep] at hadv
  cases hadv with
  | exhausted hall => exact .inr ⟨rfl, rfl, hw, hall⟩
  | found c j value => exact .inl ⟨c.peer, value, rfl⟩
  | settled c j nodes net' hbounded =>
      rw [Session.isBounded, hw.unbounded] at hbounded
      contradiction

/-- Node `i` knows node `j`. -/
def Knows (net : Overlay n) (i j : Fin n) : Prop := net.peer j ∈ (net.table i).peers

/-- Node `j` can be reached from node `i`, from one known peer to the next. -/
def Reaches (net : Overlay n) : Fin n → Fin n → Prop := Relation.ReflTransGen net.Knows

/-- A search that has nobody left to ask has asked everybody whom it could reach. -/
theorem Widening.value?_eq_none (hw : Widening net₀ i l net)
    (hid : ∀ a b, net₀.id a = net₀.id b → a = b)
    (hall : ∀ c ∈ l.session.candidates, c.searched = true) (hj : net₀.Reaches i j) :
    net₀.value? j l.key = none := by
  have hreceived : ∀ a, net₀.id a ∈ l.session.ids →
      ∃ c ∈ l.session.candidates, net₀.Receives i c.peer a := by
    intro a ha
    obtain ⟨c, hc, hca⟩ := Session.mem_ids.mp ha
    by_cases hself : c.peer.id = net₀.id i
    · obtain rfl : a = i := hid a i (hca.symm.trans hself)
      exact ⟨c, hc, .inl ⟨hself, rfl⟩⟩
    · obtain ⟨h, hh⟩ := hw.named c hc
      obtain rfl : h = a := hid h a ((congrArg Peer.id hh).trans hca)
      exact ⟨c, hc, .inr ⟨hself, hh⟩⟩
  have hmem : net₀.id j ∈ l.session.ids := by
    induction hj with
    | refl => exact hw.own
    | tail _ hknows ih =>
        obtain ⟨c, hc, hca⟩ := hreceived _ ih
        exact hw.closed c hc (hall c hc) _ hca _ hknows
  obtain ⟨c, hc, hcj⟩ := hreceived j hmem
  exact hw.asked c hc (hall c hc) j hcj

/-- **A search without bound ends**, with a value or after it asked everybody
whom it could reach. -/
theorem Honest.exhaustive (hn : Honest net) (hl : net.Listening)
    (hi : (net.id i).length = key.length) (hnone : net.value? i key = none) {k : UInt64}
    (hk : n ≤ k.toNat) : ∃ l₀ ending l net',
      (net.node i).begin .unbounded key k net = (.ok (.lookup l₀), net) ∧
      l₀.run (net.node i) net = (ending, l, net') ∧
      ((∃ p value, ending = .found p value) ∨ (ending = .exhausted ∧ l.key = key ∧
        Widening net i l net' ∧ ∀ c ∈ l.session.candidates, c.searched = true)) := by
  obtain ⟨l₀, hbegin, hkey₀, hk₀, hpos, hw₀⟩ := hn.begin_widening hi hnone hk
  refine ⟨l₀, _, _, _, hbegin, rfl, ?_⟩
  have hbound : ∀ l net', Widening net i l net' → l.session.searchedCount ≤ 256 ^ l.key.length :=
    fun l net' hw => (Session.searchedCount_le _).trans hw.sound.wellFormed.length_ids_le
  refine Lookup.runFor_terminates
    (fun l₁ net₁ => Widening net i l₁ net₁ ∧ l₁.key = key ∧ l₁.k = k)
    (fun ending l net' => (∃ p value, ending = .found p value) ∨ (ending = .exhausted ∧
      l.key = key ∧ Widening net i l net' ∧ ∀ c ∈ l.session.candidates, c.searched = true))
    (fun l₁ => 256 ^ key.length - l₁.session.searchedCount) ?_ ?_ ⟨hw₀, hkey₀, hk₀⟩ ?_
  · rintro l₁ net₁ l₂ net₂ ⟨hw₁, hkey₁, hk₁⟩ hstep
    obtain ⟨hw₂, hkey₂, hk₂, hlt⟩ := hw₁.step hn hl (by rw [hk₁]; exact hk) hstep
    have hle := hbound l₂ net₂ hw₂
    rw [hkey₂, hkey₁] at hle
    exact ⟨⟨hw₂, hkey₂.trans hkey₁, hk₂.trans hk₁⟩, by omega⟩
  · rintro l₁ net₁ e l₂ net₂ ⟨hw₁, hkey₁, _⟩ hstep
    rcases hw₁.last hn hl hstep with hfound | ⟨he, hkey₂, hw₂, hall⟩
    · exact .inl hfound
    · exact .inr ⟨he, hkey₂.trans hkey₁, hw₂, hall⟩
  · have hstep : l₀.stepBound = 256 ^ key.length := by
      rw [Lookup.stepBound, hkey₀]
      rfl
    have hpow : 0 < 256 ^ key.length := Nat.pow_pos (by decide)
    rw [hstep]
    omega

end Network
end Kademlia
