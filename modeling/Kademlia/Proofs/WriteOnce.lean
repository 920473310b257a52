import Kademlia.Proofs.Run

/-!
# Kademlia.Proofs.WriteOnce

Whether setting a value can take the place of another one.  A search for
storers may settle before it has asked all of them, and whoever was not asked
is sent the value just the same.  So a value is lost exactly if a storer that
was not asked has it (`Network.Run.setValue_overwrites`), and that does happen
(`Network.not_setValue_writes_once`).
-/

namespace Kademlia

namespace Network

variable {n : Nat} {net net₁ : Overlay n} {i j : Fin n} {key : Id} {l : Lookup} {calls : List Call}

/-- A node that a value goes to after node `i` searched for storers. -/
def Storer (net : Overlay n) (i : Fin n) (l : Lookup) (j : Fin n) : Prop :=
  ∃ c ∈ l.session.candidates, net.Receives i c.peer j

/-- A storer that was asked whether it has a value. -/
def Asked (net : Overlay n) (i : Fin n) (l : Lookup) (j : Fin n) : Prop :=
  ∃ c ∈ l.session.candidates, c.searched = true ∧ net.Receives i c.peer j

/-- A storer that was not. -/
def Unasked (net : Overlay n) (i : Fin n) (l : Lookup) (j : Fin n) : Prop :=
  ∃ c ∈ l.session.candidates, c.searched = false ∧ net.Receives i c.peer j

theorem Unasked.storer (h : net.Unasked i l j) : net.Storer i l j := by
  obtain ⟨c, hc, _, hj⟩ := h
  exact ⟨c, hc, hj⟩

/-- Nobody who was asked has a value. -/
theorem Searching.value?_eq_none (hs : Searching net i l net₁) (h : net.Asked i l j) :
    net.value? j l.key = none := by
  obtain ⟨c, hc, hsearched, hj⟩ := h
  exact hs.asked c hc hsearched j hj

/-- A storer with a value was not asked. -/
theorem Searching.unasked (hs : Searching net i l net₁) (hj : net.Storer i l j)
    (hv : net.value? j l.key ≠ none) : net.Unasked i l j := by
  obtain ⟨c, hc, hcj⟩ := hj
  cases hsearched : c.searched with
  | true => exact absurd (hs.asked c hc hsearched j hcj) hv
  | false => exact ⟨c, hc, hsearched, hcj⟩

/-- Whoever was not asked is farther from the key than somebody who was. -/
theorem Honest.exists_closer_asked (hn : Honest net) (hl : net.Listening)
    (hseek : (net.node i).seek key net = (.ok l, net₁)) (hj : net.Unasked i l j) :
    ∃ h, net.Asked i l h ∧ key.gap (net.id h) < key.gap (net.id j) := by
  obtain ⟨ending, hending, hended⟩ := hn.ended_of_seek hl hseek
  obtain ⟨hkey, hs⟩ := hn.of_seek hl hseek
  obtain ⟨d, hd, hunsearched, hdj⟩ := hj
  rcases hending with rfl | rfl
  · obtain ⟨c, hc, hsearched, hclosest⟩ := hended.settled rfl
    obtain ⟨h, hch⟩ := exists_receives i (hs.named c hc)
    refine ⟨h, ⟨c, hc, hsearched, hch⟩, ?_⟩
    rw [← hch.id_eq, ← hdj.id_eq]
    refine Nat.lt_of_le_of_ne (hclosest d hd hunsearched) fun hgap => ?_
    -- Nobody else is as far as the candidate that was asked last.
    have hlen := hs.sound.wellFormed.measured
    rw [hkey] at hlen
    have hid : c.peer.id = d.peer.id := Id.eq_of_gap_eq (hlen c hc).1 (hlen d hd).1 hgap
    have hcd : c = d := Session.eq_of_id_eq hs.sound.wellFormed.nodup hc hd hid
    rw [hcd, hunsearched] at hsearched
    contradiction
  · rw [hended.exhausted rfl d hd] at hunsearched
    contradiction

/-- **What a value that is set takes the place of.**  In every network that
calls can lead to, the storers are the nodes that the search has come to.  One
of them had a value before just if it was not asked and has one; then somebody
closer to the key was asked and has none.  With one storer nothing is lost. -/
theorem Run.setValue_overwrites (hrun : Run calls net) (i : Fin n) (key : Id) (value : Bytes)
    (hok : ((net.node i).setValue key value net).1 = .ok ()) :
    ∃ l, ((net.node i).seek key net).1 = .ok l ∧
      (∀ j, net.Storer i l j →
        ((net.node i).setValue key value net).2.value? j key = some value) ∧
      (∀ j other, (other = key → ¬ net.Storer i l j) →
        ((net.node i).setValue key value net).2.value? j other = net.value? j other) ∧
      (∀ j, (net.Storer i l j ∧ net.value? j key ≠ none) ↔
        (net.Unasked i l j ∧ net.value? j key ≠ none)) ∧
      (∀ j, net.Unasked i l j → ∃ h, net.Asked i l h ∧ net.value? h key = none ∧
        key.gap (net.id h) < key.gap (net.id j)) ∧
      ((net.seat i).config.maxStores = 1 → ∀ j, net.Storer i l j → net.value? j key = none) := by
  obtain ⟨hn, hl, _⟩ := hrun.ready
  have hout := hn.setOutcome hl i key value
  generalize (net.node i).setValue key value net = result at hout hok ⊢
  cases hout with
  | refused => contradiction
  | placed l net₁ net' hseek hs hplaced =>
      obtain ⟨rfl, _⟩ := hn.of_seek hl hseek
      have hunasked : ∀ j, net.Storer i l j → net.value? j l.key ≠ none → net.Unasked i l j :=
        fun j => hs.unasked
      have hcloser : ∀ j, net.Unasked i l j → ∃ h, net.Asked i l h ∧ net.value? h l.key = none ∧
          l.key.gap (net.id h) < l.key.gap (net.id j) := by
        intro j hj
        obtain ⟨h, hasked, hlt⟩ := hn.exists_closer_asked hl hseek hj
        exact ⟨h, hasked, hs.value?_eq_none hasked, hlt⟩
      refine ⟨l, congrArg Prod.fst hseek, ?_, ?_, ?_, hcloser, ?_⟩
      · rintro j ⟨c, hc, hj⟩
        exact hplaced.stored c.peer (List.mem_map_of_mem hc) j hj
      · intro j other hnot
        refine hplaced.kept j other fun hkey p hp hj => ?_
        obtain ⟨c, hc, rfl⟩ := List.mem_map.mp hp
        exact hnot hkey ⟨c, hc, hj⟩
      · exact fun j => ⟨fun h => ⟨hunasked j h.1 h.2, h.2⟩, fun h => ⟨h.1.storer, h.2⟩⟩
      · intro hone j hj
        by_contra hv
        -- The storer that was not asked and the closer one that was are two.
        obtain ⟨h, ⟨c, hc, _, hch⟩, _, hlt⟩ := hcloser j (hunasked j hj hv)
        obtain ⟨d, hd, hdj⟩ := hj
        obtain ⟨_, hsound, hcap⟩ := Node.sound_of_seek (lawful_node net i) hseek
        have hlen := hsound.wellFormed.bounded _ hcap
        have hmax : (net.node i).config.maxStores = 1 := hone
        rw [hmax] at hlen
        have hcd : c = d := by
          obtain ⟨e, he⟩ := List.length_eq_one_iff.mp
            (Nat.le_antisymm hlen (List.length_pos_of_mem hc))
          rw [he] at hc hd
          rw [List.mem_singleton.mp hc, List.mem_singleton.mp hd]
        rw [← hch.id_eq, ← hdj.id_eq, hcd] at hlt
        exact absurd hlt (Nat.lt_irrefl _)

/-- The second node of a chain asks the third, which knows nobody else and has
no value, and then stores at the first, which was not asked and has one. -/
theorem setValue_overwrites_chain :
    ∃ l, ((Small.chain.node 1).seek (Small.id 0) Small.chain).1 = .ok l ∧
      Small.chain.Unasked 1 l 0 := by
  obtain ⟨l, hseek, _, hkept, hiff, _⟩ :=
    Run.setValue_overwrites Small.run_chain 1 (Small.id 0) [0xbb] (by decide +kernel)
  refine ⟨l, hseek, ((hiff 0).mp ⟨?_, by decide +kernel⟩).1⟩
  by_contra hnot
  have hsame := hkept 0 (Small.id 0) fun _ => hnot
  revert hsame
  decide +kernel

/-- It is not so that values stay what they are. -/
theorem not_setValue_writes_once : ¬ ∀ (n : Nat) (net : Overlay n) (calls : List Call),
    Run calls net → ∀ (i : Fin n) (key : Id) (value : Bytes),
      ((net.node i).setValue key value net).1 = .ok () →
      ∀ j old, net.value? j key = some old →
        ((net.node i).setValue key value net).2.value? j key = some old := by
  intro h
  have hsame := h 3 Small.chain _ Small.run_chain 1 (Small.id 0) [0xbb] (by decide +kernel) 0 [0xaa]
    (by decide +kernel)
  revert hsame
  decide +kernel

end Network
end Kademlia
