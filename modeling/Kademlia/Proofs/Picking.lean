import Kademlia.Proofs.Candidates

/-!
# Kademlia.Proofs.Picking

No candidate is picked twice.  Each operation of a session is a single step, so
whatever the workers of a lookup do to the session that they share, in whatever
order, is a `Session.Run`.  A bounded session forgets that it gave out a
candidate once it drops it.  But it drops nobody before everybody else in it is
closer, and from then on it only gets closer: whoever was offered once is
*barred*, there or too far away to be taken again (`Session.Barred.offer`).
-/

namespace Kademlia

namespace Session

/-- What settles an id: it was picked, or marked while it was there. -/
inductive Event where
  | picked (id : Id)
  | marked (id : Id)

namespace Event

def id : Event → Id
  | .picked id | .marked id => id

/-- The id that was picked. -/
def picked? : Event → Option Id
  | .picked id => some id
  | .marked _ => none

end Event

variable {s s' : Session} {c d : Candidate} {cs : List Candidate} {key id : Id} {ids : List Id}

/-! ## Too far to be taken again -/

/-- The session does not take this id again: it is there, or there is no room
and everybody there is closer. -/
def Barred (s : Session) (key id : Id) : Prop :=
  id ∈ s.ids ∨ s.hasRoom = false ∧ ∀ c ∈ s.candidates, c.distance.toNat < key.gap id

theorem hasRoom_replace (s : Session) (far c : Candidate) :
    (s.replace far c).hasRoom = s.hasRoom := by
  simp [hasRoom, replace]

/-- Whoever is not the farthest is closer than it. -/
theorem WellFormed.gap_lt_of_ne (h : s.WellFormed key) (hc : c ∈ s.candidates)
    (hid : id.length = key.length) (hle : c.distance.toNat ≤ key.gap id) (hne : c.peer.id ≠ id) :
    c.distance.toNat < key.gap id := by
  rw [h.gap_eq hc] at hle ⊢
  exact Nat.lt_of_le_of_ne hle fun heq => hne (Id.eq_of_gap_eq (h.measured c hc).1 hid heq)

namespace Barred

/-- **Whoever is barred stays so**, even if it is the one that is dropped. -/
theorem offer (h : s.Barred key id) (hwf : s.WellFormed key) (c : Candidate) :
    (s.offer c).2.Barred key id := by
  have hoff := offering s c
  generalize s.offer c = result at hoff ⊢
  cases hoff with
  | known => exact h
  | refused => exact h
  | joined hid hroom =>
      rcases h with hmem | ⟨hfull, _⟩
      · simp only [Barred, ids, List.map_append]
        exact .inl (List.mem_append_left _ hmem)
      · rw [hroom] at hfull
        contradiction
  | exchanged far hid hroom hmem hfar hlt =>
      have hgap := hwf.gap_eq hmem
      by_cases hdropped : id ∈ s.ids ∧ id ≠ far.peer.id
      · refine .inl ((ids_replace_perm hwf.nodup hmem).mem_iff.mpr ?_)
        exact List.mem_cons_of_mem _ ((List.mem_erase_of_ne hdropped.2).mpr hdropped.1)
      -- Either `far` had this id, or all that were there are closer than it.
      · have hle : far.distance.toNat ≤ key.gap id := by
          rcases h with hin | ⟨_, hcloser⟩
          · obtain rfl : id = far.peer.id := by
              by_contra hne
              exact hdropped ⟨hin, hne⟩
            exact hgap.le
          · exact (hcloser far hmem).le
        refine .inr ⟨(hasRoom_replace s far c).trans hroom, fun d hd => ?_⟩
        rcases mem_replace hd with rfl | ⟨hd, hne⟩
        · omega
        · have hd' := hwf.gap_lt_of_ne hd (hwf.measured far hmem).1 (hgap ▸ hfar d hd) hne
          omega

/-- Whoever was offered is barred. -/
theorem of_offer (hwf : s.WellFormed key) (hl : c.peer.id.length = key.length)
    (hd : c.distance = c.peer.id.xor key) : (s.offer c).2.Barred key c.peer.id := by
  have hgap : c.distance.toNat = key.gap c.peer.id := by rw [hd, Id.toNat_xor]
  have hoff := offering s c
  generalize s.offer c = result at hoff ⊢
  cases hoff with
  | known hid => exact .inl hid
  | joined => exact .inl (by simp [ids])
  | refused hid hroom hfar =>
      refine .inr ⟨hroom, fun d hd => ?_⟩
      have hne : d.peer.id ≠ c.peer.id := fun heq => hid (heq ▸ mem_ids_of_mem hd)
      exact hwf.gap_lt_of_ne hd hl (hgap ▸ hfar d hd) hne
  | exchanged far _ _ hmem =>
      refine .inl ((ids_replace_perm hwf.nodup hmem).mem_iff.mpr ?_)
      exact List.mem_cons_self

/-- Whoever is barred is not taken. -/
theorem offer_eq (h : s.Barred key c.peer.id)
    (hd : c.distance = c.peer.id.xor key) : s.offer c = (false, s) := by
  have hgap : c.distance.toNat = key.gap c.peer.id := by rw [hd, Id.toNat_xor]
  have hoff := offering s c
  generalize s.offer c = result at hoff ⊢
  cases hoff with
  | known => rfl
  | refused => rfl
  | joined hid hroom =>
      rcases h with hmem | ⟨hfull, _⟩
      · exact absurd hmem hid
      · rw [hroom] at hfull
        contradiction
  | exchanged far hid _ hmem _ hlt =>
      rcases h with hin | ⟨_, hcloser⟩
      · exact absurd hin hid
      · have hfar := hcloser far hmem
        omega

theorem markSearched (h : s.Barred key id) (other : Id) :
    (s.markSearched other).Barred key id := by
  rcases h with hmem | ⟨hroom, hcloser⟩
  · exact .inl (by rwa [ids_markSearched])
  · refine .inr ⟨by simpa [hasRoom, Session.markSearched] using hroom, fun d hd => ?_⟩
    rcases mem_markSearched hd with ⟨hd, _⟩ | ⟨e, he, _, rfl⟩
    · exact hcloser d hd
    · exact hcloser e he

end Barred

/-! ## Settled ids -/

/-- A session that gives none of these ids out: each of them is barred, and
picked already if it is there. -/
structure Settled (s : Session) (key : Id) (ids : List Id) : Prop where
  wellFormed : s.WellFormed key
  length_eq : ∀ id ∈ ids, id.length = key.length
  barred : ∀ id ∈ ids, s.Barred key id
  searched : ∀ c ∈ s.candidates, c.peer.id ∈ ids → c.searched = true

namespace Settled

theorem empty (capacity : Option Nat) (key : Id) : Settled ⟨capacity, []⟩ key [] where
  wellFormed := WellFormed.empty capacity key
  length_eq := by simp
  barred := by simp
  searched := by simp

theorem offer (h : s.Settled key ids) (hl : c.peer.id.length = key.length)
    (hd : c.distance = c.peer.id.xor key) : (s.offer c).2.Settled key ids := by
  by_cases hc : c.peer.id ∈ ids
  · rw [(h.barred _ hc).offer_eq hd]
    exact h
  · refine ⟨h.wellFormed.offer hl hd, h.length_eq,
      fun id hid => (h.barred id hid).offer h.wellFormed c, fun d hdc hid => ?_⟩
    rcases mem_candidates_offer hdc with rfl | hdc
    · exact absurd hid hc
    · exact h.searched d hdc hid

/-- Candidates at their distances settle nobody, and unsettle nobody. -/
theorem merge (h : s.Settled key ids)
    (hcs : ∀ c ∈ cs, c.peer.id.length = key.length ∧ c.distance = c.peer.id.xor key) :
    (s.merge cs).2.Settled key ids :=
  merge_induction (motive := fun t => t.Settled key ids) h
    fun _ c hc ht => ht.offer (hcs c hc).1 (hcs c hc).2

/-- To mark a candidate unsettles nobody. -/
theorem markSearched (h : s.Settled key ids) (id : Id) : (s.markSearched id).Settled key ids where
  wellFormed := h.wellFormed.markSearched id
  length_eq := h.length_eq
  barred := fun other hother => (h.barred other hother).markSearched id
  searched := by
    intro d hd hmem
    rcases mem_markSearched hd with ⟨hd, _⟩ | ⟨e, _, _, rfl⟩
    · exact h.searched d hd hmem
    · rfl

/-- To mark an id that is barred settles it. -/
theorem settle (h : s.Settled key ids) (hid : id.length = key.length) (hb : s.Barred key id) :
    (s.markSearched id).Settled key (ids ++ [id]) := by
  have hmarked := h.markSearched id
  refine ⟨hmarked.wellFormed, fun other hother => ?_, fun other hother => ?_, fun d hd hmem => ?_⟩
  · rcases List.mem_append.mp hother with hother | hother
    · exact h.length_eq other hother
    · rwa [List.mem_singleton.mp hother]
  · rcases List.mem_append.mp hother with hother | hother
    · exact hmarked.barred other hother
    · rw [List.mem_singleton.mp hother]
      exact hb.markSearched id
  · rcases mem_markSearched hd with ⟨hd, hne⟩ | ⟨e, _, _, rfl⟩
    · refine h.searched d hd ((List.mem_append.mp hmem).resolve_right fun hlast => ?_)
      exact hne (List.mem_singleton.mp hlast)
    · rfl

/-- **Nobody who is settled is picked**, and whoever is picked is settled. -/
theorem next (h : s.Settled key ids) (hnext : s.next? = some (c, s')) :
    c.peer.id ∉ ids ∧ c.peer.id.length = key.length ∧ s'.Settled key (ids ++ [c.peer.id]) := by
  obtain ⟨e, he, hunsearched, rfl, rfl, _⟩ := of_next? hnext
  refine ⟨fun hmem => ?_, (h.wellFormed.measured e he).1,
    h.settle (h.wellFormed.measured e he).1 (.inl (mem_ids_of_mem he))⟩
  rw [h.searched e he hmem] at hunsearched
  contradiction

end Settled

/-! ## Any operations in any order -/

/-- A candidate may be offered if it was not picked, and its distance is that
of its id from the key. -/
structure Offered (key : Id) (c : Candidate) : Prop where
  unsearched : c.searched = false
  measured : c.peer.id.distance key = .ok c.distance

theorem Offered.length_eq (h : Offered key c) :
    c.peer.id.length = key.length ∧ c.distance = c.peer.id.xor key :=
  Id.of_distance_eq_ok h.measured

/-- The sessions that operations can lead to, each with the events so far. -/
inductive Run (key : Id) (capacity : Option Nat) : List Event → Session → Prop where
  | start : Run key capacity [] ⟨capacity, []⟩
  | merge {events : List Event} {s : Session} (hrun : Run key capacity events s)
      (cs : List Candidate) (hcs : ∀ c ∈ cs, Offered key c) : Run key capacity events (s.merge cs).2
  | add {events : List Event} {s : Session} (hrun : Run key capacity events s) (c : Candidate)
      (hc : Offered key c) (hs : s.isBounded = false) : Run key capacity events (s.add c).2
  | addIfCloser {events : List Event} {s : Session} (hrun : Run key capacity events s)
      (cs : List Candidate) (hcs : ∀ c ∈ cs, Offered key c) (hs : s.isBounded = true) :
      Run key capacity events (s.addIfCloser cs).2
  | mark {events : List Event} {s : Session} (hrun : Run key capacity events s) (id : Id)
      (hid : s.contains id = true) : Run key capacity (events ++ [.marked id]) (s.markSearched id)
  /-- Nobody has this id. -/
  | markNobody {events : List Event} {s : Session} (hrun : Run key capacity events s) (id : Id)
      (hid : s.contains id = false) : Run key capacity events (s.markSearched id)
  | next {events : List Event} {s s' : Session} (hrun : Run key capacity events s) (c : Candidate)
      (hnext : s.next? = some (c, s')) : Run key capacity (events ++ [.picked c.peer.id]) s'

namespace Run

variable {capacity : Option Nat} {events : List Event}

theorem settled (hrun : Run key capacity events s) : s.Settled key (events.map Event.id) := by
  induction hrun with
  | start => exact Settled.empty capacity key
  | merge hrun cs hcs ih => exact ih.merge fun c hc => (hcs c hc).length_eq
  | add hrun c hc hs ih =>
      rw [← offer_of_unbounded (by simpa [isBounded] using hs)]
      exact ih.offer hc.length_eq.1 hc.length_eq.2
  | addIfCloser hrun cs hcs hs ih =>
      rw [← merge_eq]
      exact ih.merge fun c hc => (hcs c hc).length_eq
  | mark hrun id hid ih =>
      obtain ⟨c, hc, rfl⟩ := mem_ids.mp ((contains_iff _ id).mp hid)
      rw [List.map_append]
      exact ih.settle (ih.wellFormed.measured c hc).1 (.inl (mem_ids_of_mem hc))
  | markNobody hrun id hid ih => exact ih.markSearched id
  | next hrun c hnext ih =>
      rw [List.map_append]
      exact (ih.next hnext).2.2

/-- **Whoever is picked was neither picked nor marked before.** -/
theorem picked_once (hrun : Run key capacity events s) :
    events.Pairwise fun earlier later => ∀ id, later = .picked id → earlier.id ≠ id := by
  induction hrun with
  | start => exact .nil
  | merge _ _ _ ih => exact ih
  | add _ _ _ _ ih => exact ih
  | addIfCloser _ _ _ _ ih => exact ih
  | mark _ id _ ih =>
      refine List.pairwise_append.mpr ⟨ih, List.pairwise_singleton _ _, fun e _ e' he' => ?_⟩
      rw [List.mem_singleton.mp he']
      simp
  | markNobody _ _ _ ih => exact ih
  | next hrun c hnext ih =>
      refine List.pairwise_append.mpr ⟨ih, List.pairwise_singleton _ _, ?_⟩
      intro e he e' he' id hid
      rw [List.mem_singleton.mp he', Event.picked.injEq] at hid
      rintro rfl
      exact (hrun.settled.next hnext).1 (List.mem_map.mpr ⟨e, he, hid.symm⟩)

/-- However many workers share a session, they pick no more than all ids. -/
theorem length_picked_le (hrun : Run key capacity events s) :
    (events.filterMap Event.picked?).length ≤ 256 ^ key.length := by
  have hsome : ∀ (e : Event) (id : Id), e.picked? = some id → e = .picked id := by
    rintro (id | id) other h
    · rw [Option.some.inj h]
    · contradiction
  refine Id.length_le_of_nodup ?_ fun id hid => ?_
  · refine hrun.picked_once.filterMap _ fun e e' honce id hid id' hid' => ?_
    rw [hsome e id hid] at honce
    exact honce id' (hsome e' id' hid')
  · obtain ⟨e, he, hid⟩ := List.mem_filterMap.mp hid
    obtain rfl := hsome e id hid
    exact hrun.settled.length_eq id (List.mem_map.mpr ⟨_, he, rfl⟩)

end Run

end Session
end Kademlia
