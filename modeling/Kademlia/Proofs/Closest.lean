import Kademlia.Proofs.Nearest
import Kademlia.Proofs.Table

/-!
# Kademlia.Proofs.Closest

The closest peers of a routing table.  A selection is sorted, measures every
peer it holds, and holds the nearest of those it was offered; so the answer of
a well-formed table is the nearest of the peers that it knows
(`RoutingTable.exists_closest`).
-/

namespace Kademlia

namespace Selection

variable {peer : Peer} {d : Distance} {ps : List (Peer × Distance)}

/-! ## Sorted insertion -/

theorem insertSorted_cons (peer : Peer) (d : Distance) (p : Peer × Distance)
    (ps : List (Peer × Distance)) : insertSorted peer d (p :: ps) =
      if d.closer p.2 then (peer, d) :: p :: ps else p :: insertSorted peer d ps := by
  cases hc : d.closer p.2 <;> simp [insertSorted, hc]

theorem insertSorted_perm (peer : Peer) (d : Distance) (ps : List (Peer × Distance)) :
    (insertSorted peer d ps).Perm ((peer, d) :: ps) := by
  have hsplit := List.takeWhile_append_dropWhile (p := fun p : Peer × Distance => !d.closer p.2)
    (l := ps)
  rw [insertSorted]
  conv => rhs; rw [← hsplit]
  exact List.perm_middle

/-- Distances that do not decrease. -/
def Sorted (ps : List (Peer × Distance)) : Prop := ps.Pairwise fun a b => a.2.toNat ≤ b.2.toNat

theorem Sorted.insertSorted (h : Sorted ps) (peer : Peer) (d : Distance) :
    Sorted (insertSorted peer d ps) := by
  induction ps with
  | nil => exact List.pairwise_singleton _ _
  | cons p ps ih =>
      obtain ⟨hp, hps⟩ := List.pairwise_cons.mp h
      rw [insertSorted_cons]
      cases hc : d.closer p.2 with
      | true =>
          have hlt := (Distance.closer_iff _ _).mp hc
          rw [if_pos rfl]
          refine List.pairwise_cons.mpr ⟨?_, h⟩
          intro q hq
          rcases List.mem_cons.mp hq with rfl | hq
          · exact Nat.le_of_lt hlt
          · exact Nat.le_trans (Nat.le_of_lt hlt) (hp q hq)
      | false =>
          have hle := (Distance.closer_eq_false_iff _ _).mp hc
          rw [if_neg (by simp)]
          refine List.pairwise_cons.mpr ⟨?_, ih hps⟩
          intro q hq
          rcases List.mem_cons.mp ((insertSorted_perm peer d ps).mem_iff.mp hq) with rfl | hq
          · exact hle
          · exact hp q hq

/-! ## What a selection holds -/

/-- After some peers were offered: the entries are sorted and measured, and
their ids are the nearest of those offered. -/
structure Holds (s : Selection) (offered : List Peer) : Prop where
  sorted : Sorted s.peers
  measured : ∀ e ∈ s.peers, e.1 ∈ offered ∧ e.2 = s.target.xor e.1.id
  nearest : Nearest s.target s.capacity (offered.map (·.id)) (s.peers.map (·.1.id))

variable {s : Selection} {offered : List Peer}

theorem holds_nil (target : Id) (capacity : Nat) : Holds ⟨target, capacity, []⟩ [] where
  sorted := List.Pairwise.nil
  measured := by simp
  nearest := Nearest.nil target capacity

theorem Holds.gap_eq (h : Holds s offered) {e : Peer × Distance} (he : e ∈ s.peers) :
    s.target.gap e.1.id = e.2.toNat := by
  rw [(h.measured e he).2, Id.xor_comm, Id.toNat_xor]

/-- The last entry is the farthest. -/
theorem Holds.gap_le_getLast (h : Holds s offered) {far e : Peer × Distance}
    (hlast : s.peers.getLast? = some far) (he : e ∈ s.peers) :
    s.target.gap e.1.id ≤ s.target.gap far.1.id := by
  obtain ⟨rest, hrest⟩ := List.getLast?_eq_some_iff.mp hlast
  have hfar : far ∈ s.peers := by
    rw [hrest]
    exact List.mem_append_right _ (List.mem_singleton.mpr rfl)
  rw [h.gap_eq he, h.gap_eq hfar]
  have hs := h.sorted
  rw [Sorted, hrest, List.pairwise_append] at hs
  rw [hrest] at he
  rcases List.mem_append.mp he with he | he
  · exact hs.2.2 e he far (List.mem_singleton.mpr rfl)
  · rw [List.mem_singleton.mp he]

/-- An offer that changes nothing. -/
theorem Holds.keep (h : Holds s offered)
    (hn : Nearest s.target s.capacity (peer.id :: offered.map (·.id)) (s.peers.map (·.1.id))) :
    Holds s (peer :: offered) where
  sorted := h.sorted
  measured := fun e he => ⟨List.mem_cons_of_mem _ (h.measured e he).1, (h.measured e he).2⟩
  nearest := hn

/-- An offer that enters a peer beside some of the present ones. -/
theorem Holds.enter (h : Holds s offered) (hsub : ps.Sublist s.peers)
    (hn : Nearest s.target s.capacity (peer.id :: offered.map (·.id))
      (peer.id :: ps.map (·.1.id))) :
    Holds { s with peers := insertSorted peer (s.target.xor peer.id) ps } (peer :: offered) where
  sorted := Sorted.insertSorted (List.Pairwise.sublist hsub h.sorted) peer _
  measured := by
    intro e he
    rcases List.mem_cons.mp ((insertSorted_perm _ _ _).mem_iff.mp he) with rfl | he
    · exact ⟨List.mem_cons_self, rfl⟩
    · obtain ⟨hmem, hd⟩ := h.measured e (hsub.subset he)
      exact ⟨List.mem_cons_of_mem _ hmem, hd⟩
  nearest := by
    have hp := (insertSorted_perm peer (s.target.xor peer.id) ps).map
      (fun e : Peer × Distance => e.1.id)
    exact hn.perm hp.symm

theorem contains_iff (s : Selection) (id : Id) :
    s.contains id = true ↔ id ∈ s.peers.map (·.1.id) := by
  simp [contains]

/-- What offering a peer can come to. -/
inductive Choice (s : Selection) (peer : Peer) : Except IdError Selection → Prop where
  /-- Nobody is selected. -/
  | nobody (hcap : s.capacity = 0) : Choice s peer (.ok s)
  /-- Its id is selected already. -/
  | known (hmem : peer.id ∈ s.peers.map (·.1.id)) : Choice s peer (.ok s)
  /-- There is room for it. -/
  | joined (hcap : s.capacity ≠ 0) (hmem : peer.id ∉ s.peers.map (·.1.id))
      (hroom : s.peers.length ≠ s.capacity) :
      Choice s peer
        (.ok { s with peers := insertSorted peer (s.target.xor peer.id) s.peers })
  /-- There is no room, and nobody is farther. -/
  | refused (far : Peer × Distance) (hfull : s.peers.length = s.capacity)
      (hlast : s.peers.getLast? = some far) (hge : far.2.toNat ≤ (s.target.xor peer.id).toNat) :
      Choice s peer (.ok s)
  /-- It takes the place of the farthest. -/
  | exchanged (far : Peer × Distance) (hmem : peer.id ∉ s.peers.map (·.1.id))
      (hfull : s.peers.length = s.capacity) (hlast : s.peers.getLast? = some far)
      (hlt : (s.target.xor peer.id).toNat < far.2.toNat) :
      Choice s peer
        (.ok { s with peers := insertSorted peer (s.target.xor peer.id) s.peers.dropLast })

theorem choice (s : Selection) {peer : Peer} (hl : peer.id.length = s.target.length) :
    Choice s peer (s.add peer) := by
  simp only [add, Id.distance_of_length_eq hl.symm, bind, Except.bind, pure, Except.pure]
  by_cases hcap : s.capacity = 0
  · rw [if_pos (by simp [hcap])]
    exact .nobody hcap
  by_cases hmem : peer.id ∈ s.peers.map (·.1.id)
  · rw [if_pos (by simp [(contains_iff s peer.id).mpr hmem])]
    exact .known hmem
  have hcontains : s.contains peer.id = false := by
    rw [← Bool.not_eq_true, contains_iff]
    exact hmem
  rw [if_neg (by simp [hcap, hcontains]), makeRoom?]
  by_cases hfull : s.peers.length = s.capacity
  · rw [if_pos hfull]
    cases hlast : s.peers.getLast? with
    | none =>
        rw [List.getLast?_eq_none_iff] at hlast
        rw [hlast, List.length_nil] at hfull
        exact absurd hfull.symm hcap
    | some far =>
        cases hc : (s.target.xor peer.id).closer far.2 with
        | false =>
            simp only [hc, Bool.false_eq_true, if_false]
            exact .refused far hfull hlast ((Distance.closer_eq_false_iff _ _).mp hc)
        | true =>
            simp only [hc, if_true]
            exact .exchanged far hmem hfull hlast ((Distance.closer_iff _ _).mp hc)
  · rw [if_neg hfull]
    exact .joined hcap hmem hfull

/-- One more offer. -/
theorem Holds.add (h : Holds s offered) (hl : peer.id.length = s.target.length) :
    ∃ s', s.add peer = .ok s' ∧ s'.target = s.target ∧ s'.capacity = s.capacity ∧
      Holds s' (peer :: offered) := by
  have hgap : (s.target.xor peer.id).toNat = s.target.gap peer.id := by
    rw [Id.xor_comm, Id.toNat_xor]
  have hle : s.peers.length ≤ s.capacity := by
    simpa using h.nearest.length_le
  have hlen : s.peers.length = s.capacity → (s.peers.map (·.1.id)).length = s.capacity :=
    (List.length_map _).trans
  have hfarmem : ∀ far, s.peers.getLast? = some far → far ∈ s.peers := by
    intro far hlast
    obtain ⟨rest, hrest⟩ := List.getLast?_eq_some_iff.mp hlast
    rw [hrest]
    exact List.mem_append_right _ (List.mem_singleton.mpr rfl)
  have hfar : ∀ far, s.peers.getLast? = some far →
      ∀ b ∈ s.peers.map (·.1.id), s.target.gap b ≤ s.target.gap far.1.id := by
    intro far hlast b hb
    obtain ⟨e, he, rfl⟩ := List.mem_map.mp hb
    exact h.gap_le_getLast hlast he
  have hchoice := choice s hl
  generalize s.add peer = result at hchoice ⊢
  cases hchoice with
  | nobody hcap =>
      have hempty : s.peers = [] := List.length_eq_zero_iff.mp (by omega)
      refine ⟨s, rfl, rfl, rfl, h.keep (h.nearest.reject hl (by simp [hempty, hcap]) ?_)⟩
      simp [hempty]
  | known hmem => exact ⟨s, rfl, rfl, rfl, h.keep (h.nearest.again (h.nearest.subset hmem))⟩
  | joined hcap hmem hroom =>
      refine ⟨_, rfl, rfl, rfl, h.enter (List.Sublist.refl _) (h.nearest.add hl hmem ?_)⟩
      rw [List.length_map]
      omega
  | refused far hfull hlast hge =>
      rw [hgap, ← h.gap_eq (hfarmem far hlast)] at hge
      exact ⟨s, rfl, rfl, rfl, h.keep (h.nearest.reject hl (hlen hfull)
        fun b hb _ => Nat.le_trans (hfar far hlast b hb) hge)⟩
  | exchanged far hmem hfull hlast hlt =>
      rw [hgap, ← h.gap_eq (hfarmem far hlast)] at hlt
      refine ⟨_, rfl, rfl, rfl, h.enter (List.dropLast_sublist _) ?_⟩
      have hrep := h.nearest.replace hl hmem (hlen hfull)
        (List.mem_map_of_mem (hfarmem far hlast)) (hfar far hlast) hlt
      -- The ids are distinct, so without the farthest they are those of the front.
      obtain ⟨rest, hrest⟩ := List.getLast?_eq_some_iff.mp hlast
      have hnd := h.nearest.nodup
      rw [hrest, List.map_append, List.map_singleton] at hnd hrep
      have hnot : far.1.id ∉ rest.map (·.1.id) := by
        intro hin
        exact (List.nodup_append.mp hnd).2.2 _ hin _ (List.mem_singleton.mpr rfl) rfl
      rw [List.erase_append_right _ hnot, List.erase_cons_head, List.append_nil] at hrep
      rw [hrest, List.dropLast_concat]
      exact hrep

/-- Any number of offers. -/
theorem Holds.addAll (h : Holds s offered) (peers : List Peer)
    (hl : ∀ p ∈ peers, p.id.length = s.target.length) :
    ∃ s', s.addAll peers = .ok s' ∧ s'.target = s.target ∧ s'.capacity = s.capacity ∧
      Holds s' (peers.reverse ++ offered) := by
  induction peers generalizing s offered with
  | nil => exact ⟨s, rfl, rfl, rfl, h⟩
  | cons peer rest ih =>
      obtain ⟨s₁, hadd, ht, hc, h₁⟩ := h.add (hl peer List.mem_cons_self)
      have hl₁ : ∀ p ∈ rest, p.id.length = s₁.target.length := by
        intro p hp
        rw [ht]
        exact hl p (List.mem_cons_of_mem _ hp)
      obtain ⟨s', haddAll, ht', hc', h'⟩ := ih h₁ hl₁
      refine ⟨s', ?_, ht'.trans ht, hc'.trans hc, ?_⟩
      · rw [Selection.addAll, List.foldlM_cons, hadd]
        exact haddAll
      · rw [List.reverse_cons, List.append_assoc]
        exact h'

end Selection

namespace RoutingTable

variable {t : RoutingTable} {key : Id}

/-- **The closest peers of a table are the nearest of those it knows**, in
order, each with its distance. -/
theorem exists_closest (h : t.WellFormed) (hl : key.length = t.localId.length) (k : Nat) :
    ∃ found, t.closest key k = .ok found ∧ Selection.Sorted found ∧
      (∀ e ∈ found, e.1 ∈ t.peers ∧ e.2 = key.xor e.1.id) ∧
      Nearest key k (t.peers.map (·.id)) (found.map (·.1.id)) := by
  have hlen : ∀ p ∈ t.peers, p.id.length = key.length := fun p hp => by
    rw [hl]
    exact (h.of_mem hp).1
  obtain ⟨s, hs, ht, hc, hh⟩ := (Selection.holds_nil key k).addAll t.peers hlen
  rw [List.append_nil] at hh
  refine ⟨s.peers, ?_, hh.sorted, ?_, ?_⟩
  · rw [closest, Id.checkLength, if_pos hl.symm]
    exact congrArg (fun r => r.map Selection.peers) hs
  · intro e he
    obtain ⟨hmem, hd⟩ := hh.measured e he
    exact ⟨List.mem_reverse.mp hmem, by rw [hd, ht]⟩
  · have hn := hh.nearest
    rw [ht, hc] at hn
    exact hn.congr fun b => by simp

end RoutingTable
end Kademlia
