import Kademlia.PeerStore
import Kademlia.Proofs.Metric
import Mathlib.Data.List.Nodup

/-!
# Kademlia.Proofs.Table

What a routing table knows.  A table is *well formed* if every peer stands in
the bucket of its id, no bucket holds an id twice, and none holds more than its
size; the empty table is, and whatever is added or removed keeps it so.
`RoutingTable.addition` says once what adding a peer can come to; everything
else about adding is derived from it.
-/

namespace Kademlia

theorem Bucket.contains_iff {capacity : Nat} (b : Bucket capacity) (id : Id) :
    b.contains id = true ↔ ∃ p ∈ b.peers, p.id = id := by
  simp [Bucket.contains]

namespace RoutingTable

variable {t t' : RoutingTable} {peer p q : Peer} {id : Id}

/-! ## Buckets -/

theorem bucketIndex?_of_length_ne (h : id.length ≠ t.localId.length) :
    t.bucketIndex? id = .error (.lengthMismatch t.localId.length id.length) := by
  rw [bucketIndex?, Id.commonPrefixLength_of_length_ne (Ne.symm h)]
  rfl

theorem bucketIndex?_localId : t.bucketIndex? t.localId = .ok none := by
  rw [bucketIndex?, Id.commonPrefixLength_of_length_eq rfl]
  have hge : ¬ Id.sharedBits t.localId.bytes t.localId.bytes < 8 * t.localId.length := by
    rw [Id.sharedBits_self, Id.length]
    omega
  simp only [bind, Except.bind, pure, Except.pure, dif_neg hge]

/-- Every id of the right length but the local one has a bucket. -/
theorem exists_bucketIndex? (hl : id.length = t.localId.length) (hne : id ≠ t.localId) :
    ∃ i, t.bucketIndex? id = .ok (some i) := by
  have hbytes : t.localId.bytes ≠ id.bytes := fun h => hne (Id.ext h.symm)
  have hlt : Id.sharedBits t.localId.bytes id.bytes < 8 * t.localId.length :=
    Id.sharedBits_lt hl.symm hbytes
  refine ⟨⟨_, hlt⟩, ?_⟩
  rw [bucketIndex?, Id.commonPrefixLength_of_length_eq hl.symm]
  simp only [bind, Except.bind, pure, Except.pure, dif_pos hlt]

/-- An id that has a bucket has the right length and is not the local one. -/
theorem of_bucketIndex? {i : Fin (8 * t.localId.length)} (h : t.bucketIndex? id = .ok (some i)) :
    id.length = t.localId.length ∧ id ≠ t.localId := by
  constructor
  · by_contra hl
    rw [bucketIndex?_of_length_ne hl] at h
    contradiction
  · rintro rfl
    rw [bucketIndex?_localId] at h
    simp at h

theorem mem_peers : p ∈ t.peers ↔ ∃ i, p ∈ (t.buckets.get i).peers := by
  rw [peers, List.mem_flatMap]
  constructor
  · rintro ⟨b, hb, hp⟩
    obtain ⟨i, hi, rfl⟩ := Vector.mem_iff_getElem.mp (Vector.mem_toList_iff.mp hb)
    exact ⟨⟨i, hi⟩, hp⟩
  · rintro ⟨i, hp⟩
    exact ⟨_, Vector.mem_toList_iff.mpr (Vector.getElem_mem i.isLt), hp⟩

theorem setBucket_get (t : RoutingTable) (i : Fin (8 * t.localId.length)) :
    t.setBucket i (t.buckets.get i) = t := by
  rw [setBucket]
  have hset : t.buckets.set i (t.buckets.get i) i.isLt = t.buckets := Vector.set_getElem_self i.isLt
  rw [hset]

/-! ## Adding a peer -/

/-- What adding a peer can come to. -/
inductive Addition (t : RoutingTable) (peer : Peer) : Except Error RoutingTable → Prop where
  /-- The peer is of another overlay. -/
  | foreign (hl : peer.id.length ≠ t.localId.length) :
      Addition t peer (.error (.id (.lengthMismatch t.localId.length peer.id.length)))
  /-- It is the local node. -/
  | self (hid : peer.id = t.localId) : Addition t peer (.ok t)
  /-- Its id is known. -/
  | known (i : Fin (8 * t.localId.length)) (hi : t.bucketIndex? peer.id = .ok (some i))
      (hc : ∃ p ∈ (t.buckets.get i).peers, p.id = peer.id) : Addition t peer (.ok t)
  /-- Its bucket is full. -/
  | full (i : Fin (8 * t.localId.length)) (hi : t.bucketIndex? peer.id = .ok (some i))
      (hc : ¬ ∃ p ∈ (t.buckets.get i).peers, p.id = peer.id)
      (hfull : t.bucketSize ≤ (t.buckets.get i).peers.length) : Addition t peer (.error .noSpace)
  /-- It goes behind the others of its bucket. -/
  | new (i : Fin (8 * t.localId.length)) (hi : t.bucketIndex? peer.id = .ok (some i))
      (hc : ¬ ∃ p ∈ (t.buckets.get i).peers, p.id = peer.id)
      (hroom : (t.buckets.get i).peers.length < t.bucketSize) :
      Addition t peer (.ok (t.setBucket i ⟨(t.buckets.get i).peers ++ [peer]⟩))

theorem addition (t : RoutingTable) (peer : Peer) : Addition t peer (t.add peer) := by
  by_cases hl : peer.id.length = t.localId.length
  · by_cases hid : peer.id = t.localId
    · have hadd : t.add peer = .ok t := by
        rw [add, hid, bucketIndex?_localId]
        rfl
      rw [hadd]
      exact .self hid
    · obtain ⟨i, hi⟩ := exists_bucketIndex? hl hid
      have hadd : t.add peer = ((t.buckets.get i).add peer).map (t.setBucket i) := by
        rw [add, hi]
        rfl
      rw [hadd, Bucket.add]
      by_cases hc : ∃ p ∈ (t.buckets.get i).peers, p.id = peer.id
      · rw [if_pos ((Bucket.contains_iff _ _).mpr hc), Except.map, setBucket_get]
        exact .known i hi hc
      · rw [if_neg (fun h => hc ((Bucket.contains_iff _ _).mp h))]
        by_cases hfull : t.bucketSize ≤ (t.buckets.get i).peers.length
        · rw [if_pos hfull]
          exact .full i hi hc hfull
        · rw [if_neg hfull]
          exact .new i hi hc (Nat.lt_of_not_le hfull)
  · have hadd : t.add peer = .error (.id (.lengthMismatch t.localId.length peer.id.length)) := by
      rw [add, bucketIndex?_of_length_ne hl]
      rfl
    rw [hadd]
    exact .foreign hl

/-- A peer of the same overlay is refused for want of space only. -/
theorem add_of_length_eq (hl : peer.id.length = t.localId.length) :
    (∃ t', t.add peer = .ok t') ∨ t.add peer = .error .noSpace := by
  have hadd := addition t peer
  generalize t.add peer = result at hadd ⊢
  cases hadd with
  | foreign hne => exact absurd hl hne
  | self => exact .inl ⟨_, rfl⟩
  | known => exact .inl ⟨_, rfl⟩
  | full => exact .inr rfl
  | new => exact .inl ⟨_, rfl⟩

theorem mem_peers_append {i : Fin (8 * t.localId.length)} :
    p ∈ (t.setBucket i ⟨(t.buckets.get i).peers ++ [q]⟩).peers ↔ p ∈ t.peers ∨ p = q := by
  rw [mem_peers, mem_peers]
  constructor
  · rintro ⟨j, hj⟩
    rw [get_setBucket t i j _] at hj
    by_cases hij : i = j
    · rw [if_pos hij, List.mem_append, List.mem_singleton] at hj
      exact hj.imp_left fun hp => ⟨i, hp⟩
    · rw [if_neg hij] at hj
      exact .inl ⟨j, hj⟩
  · rintro (⟨j, hj⟩ | rfl)
    · refine ⟨j, ?_⟩
      rw [get_setBucket t i j _]
      by_cases hij : i = j
      · subst hij
        rw [if_pos rfl]
        exact List.mem_append_left _ hj
      · rw [if_neg hij]
        exact hj
    · refine ⟨i, ?_⟩
      rw [get_setBucket t i i _, if_pos rfl]
      exact List.mem_append_right _ (List.mem_singleton.mpr rfl)

/-- What removing an id can come to, if it succeeds. -/
theorem of_remove (h : t.remove id = .ok t') :
    t' = t ∨ ∃ i, t' = t.setBucket i ((t.buckets.get i).remove id) := by
  rw [remove] at h
  cases hi : t.bucketIndex? id with
  | error e =>
      rw [hi] at h
      contradiction
  | ok found =>
      rw [hi] at h
      cases found with
      | none => exact .inl (Except.ok.inj h).symm
      | some i => exact .inr ⟨i, (Except.ok.inj h).symm⟩

theorem localId_remove (h : t.remove id = .ok t') : t'.localId = t.localId := by
  obtain rfl | ⟨i, rfl⟩ := of_remove h <;> rfl

/-! ## Meeting a peer -/

/-- The table after it was offered a peer: a peer that it does not take leaves
it as it was. -/
def meet (t : RoutingTable) (peer : Peer) : RoutingTable :=
  match t.add peer with
  | .ok t' => t'
  | .error _ => t

theorem meet_of_add (h : t.add peer = .ok t') : t.meet peer = t' := by
  rw [meet, h]

theorem meet_of_error {e : Error} (h : t.add peer = .error e) : t.meet peer = t := by
  rw [meet, h]

@[simp] theorem localId_meet (t : RoutingTable) (peer : Peer) :
    (t.meet peer).localId = t.localId := by
  rw [meet]
  have hadd := addition t peer
  generalize t.add peer = result at hadd ⊢
  cases hadd <;> rfl

@[simp] theorem bucketSize_meet (t : RoutingTable) (peer : Peer) :
    (t.meet peer).bucketSize = t.bucketSize := by
  rw [meet]
  have hadd := addition t peer
  generalize t.add peer = result at hadd ⊢
  cases hadd <;> rfl

/-- Nobody is forgotten. -/
theorem mem_meet_of_mem (h : p ∈ t.peers) : p ∈ (t.meet peer).peers := by
  rw [meet]
  have hadd := addition t peer
  generalize t.add peer = result at hadd ⊢
  cases hadd with
  | new => exact mem_peers_append.mpr (.inl h)
  | _ => exact h

/-- Who is known afterwards was known before or is the peer that was met. -/
theorem mem_or_eq_of_mem_meet (h : p ∈ (t.meet peer).peers) : p ∈ t.peers ∨ p = peer := by
  rw [meet] at h
  have hadd := addition t peer
  generalize t.add peer = result at hadd h
  cases hadd with
  | new => exact mem_peers_append.mp h
  | _ => exact .inl h

/-- With space in every bucket, whoever may be known is known afterwards. -/
theorem exists_mem_meet (hl : peer.id.length = t.localId.length) (hne : peer.id ≠ t.localId)
    (hroom : ∀ i, (t.buckets.get i).peers.length < t.bucketSize) :
    ∃ p ∈ (t.meet peer).peers, p.id = peer.id := by
  rw [meet]
  have hadd := addition t peer
  generalize t.add peer = result at hadd ⊢
  cases hadd with
  | foreign hl' => exact absurd hl hl'
  | self hid => exact absurd hid hne
  | known i _ hc =>
      obtain ⟨p, hp, hid⟩ := hc
      exact ⟨p, mem_peers.mpr ⟨i, hp⟩, hid⟩
  | full i _ _ hfull => exact absurd (hroom i) (Nat.not_lt.mpr hfull)
  | new => exact ⟨peer, mem_peers_append.mpr (.inr rfl), rfl⟩

/-! ## Well-formed tables -/

/-- Every peer stands in the bucket of its id, and no bucket holds an id twice
or more peers than its size allows. -/
structure WellFormed (t : RoutingTable) : Prop where
  placed : ∀ i, ∀ p ∈ (t.buckets.get i).peers, t.bucketIndex? p.id = .ok (some i)
  distinct : ∀ i, ((t.buckets.get i).peers.map (·.id)).Nodup
  bounded : ∀ i, (t.buckets.get i).peers.length ≤ t.bucketSize

theorem peers_get_empty (localId : Id) (bucketSize : Nat)
    (i : Fin (8 * (empty localId bucketSize).localId.length)) :
    ((empty localId bucketSize).buckets.get i).peers = [] := by
  change ((Vector.replicate (8 * localId.length) ({} : Bucket bucketSize))[i.val]).peers = []
  rw [Vector.getElem_replicate]

theorem not_mem_peers_empty (localId : Id) (bucketSize : Nat) :
    p ∉ (empty localId bucketSize).peers := by
  intro hp
  obtain ⟨i, hi⟩ := mem_peers.mp hp
  rw [peers_get_empty] at hi
  exact absurd hi List.not_mem_nil

theorem wellFormed_empty (localId : Id) (bucketSize : Nat) :
    (empty localId bucketSize).WellFormed := by
  constructor
  · intro i p hp
    rw [peers_get_empty] at hp
    exact absurd hp List.not_mem_nil
  · intro i
    rw [peers_get_empty]
    exact List.nodup_nil
  · intro i
    rw [peers_get_empty]
    exact Nat.zero_le _

namespace WellFormed

/-- A bucket may be exchanged for one that is in order itself. -/
theorem setBucket (h : t.WellFormed) {i : Fin (8 * t.localId.length)} {b : Bucket t.bucketSize}
    (hplaced : ∀ p ∈ b.peers, t.bucketIndex? p.id = .ok (some i))
    (hdistinct : (b.peers.map (·.id)).Nodup) (hbounded : b.peers.length ≤ t.bucketSize) :
    (t.setBucket i b).WellFormed := by
  constructor
  · intro j p hp
    rw [get_setBucket t i j b] at hp
    by_cases hij : i = j
    · subst hij
      rw [if_pos rfl] at hp
      exact hplaced p hp
    · rw [if_neg hij] at hp
      exact h.placed j p hp
  · intro j
    rw [get_setBucket t i j b]
    split
    · exact hdistinct
    · exact h.distinct j
  · intro j
    rw [get_setBucket t i j b]
    split
    · exact hbounded
    · exact h.bounded j

theorem meet (h : t.WellFormed) (peer : Peer) : (t.meet peer).WellFormed := by
  rw [RoutingTable.meet]
  have hadd := addition t peer
  generalize t.add peer = result at hadd ⊢
  cases hadd with
  | new i hi hc hroom =>
      refine h.setBucket ?_ ?_ ?_
      · intro p hp
        rcases List.mem_append.mp hp with hp | hp
        · exact h.placed i p hp
        · rw [List.mem_singleton.mp hp]
          exact hi
      · rw [List.map_append, List.nodup_append]
        refine ⟨h.distinct i, List.nodup_singleton _, ?_⟩
        intro a ha b hb hab
        obtain ⟨p, hp, rfl⟩ := List.mem_map.mp ha
        rw [List.map_singleton, List.mem_singleton] at hb
        exact hc ⟨p, hp, hab.trans hb⟩
      · rw [List.length_append, List.length_singleton]
        exact hroom
  | _ => exact h

theorem remove (h : t.WellFormed) (hr : t.remove id = .ok t') : t'.WellFormed := by
  obtain rfl | ⟨i, rfl⟩ := of_remove hr
  · exact h
  · have hsub : ((t.buckets.get i).remove id).peers.Sublist (t.buckets.get i).peers :=
      List.eraseP_sublist
    refine h.setBucket (fun p hp => h.placed i p (hsub.subset hp)) ?_ ?_
    · exact (h.distinct i).sublist (hsub.map _)
    · exact Nat.le_trans hsub.length_le (h.bounded i)

/-- Known peers have ids of the local length, and none of them is the local node. -/
theorem of_mem (h : t.WellFormed) (hp : p ∈ t.peers) :
    p.id.length = t.localId.length ∧ p.id ≠ t.localId := by
  obtain ⟨i, hi⟩ := mem_peers.mp hp
  exact of_bucketIndex? (h.placed i p hi)

/-- No id is known twice. -/
theorem eq_of_id_eq (h : t.WellFormed) (hp : p ∈ t.peers) (hq : q ∈ t.peers)
    (hid : p.id = q.id) : p = q := by
  obtain ⟨i, hi⟩ := mem_peers.mp hp
  obtain ⟨j, hj⟩ := mem_peers.mp hq
  have hij := (h.placed i p hi).symm.trans (hid ▸ h.placed j q hj)
  simp only [Except.ok.injEq, Option.some.injEq] at hij
  subst hij
  exact List.inj_on_of_nodup_map (h.distinct i) hi hj hid

end WellFormed

/-- The local node is not entered into its own table. -/
theorem meet_localId (hid : peer.id = t.localId) : t.meet peer = t := by
  rw [meet]
  have hadd := addition t peer
  generalize t.add peer = result at hadd ⊢
  cases hadd with
  | new i hi => exact absurd hid (of_bucketIndex? hi).2
  | _ => rfl

end RoutingTable
end Kademlia
