import Kademlia.Proofs.Buckets
import Kademlia.Proofs.Closest

/-!
# Kademlia.Proofs.Ranking

A selection against a plain sort.  The `ranking` of some peers is all of them,
each with its distance to a key, sorted by that distance.  A selection never
sees more than its own few entries, but what it holds after any offers is the
front of the ranking of everybody who was offered (`Selection.ranks`): an offer
enters the ranking in one place, and the front of the longer ranking can be
told from the front of the shorter one (`take_insertSorted_of_closer`,
`take_insertSorted_of_not_closer`).

So the closest peers of a table are the front of the ranking of all that it
knows (`RoutingTable.closest_ranked`).
-/

namespace Kademlia

/-! ## Sorting by distance -/

/-- Peers with their distances to a key, closest first. -/
def ranking (key : Id) (peers : List Peer) : List (Peer × Distance) :=
  (peers.map fun p => (p, key.xor p.id)).mergeSort fun a b => a.2.toNat ≤ b.2.toNat

/-- Distances that increase. -/
def Ascending (es : List (Peer × Distance)) : Prop := es.Pairwise fun a b => a.2.toNat < b.2.toNat

variable {key : Id} {peers others : List Peer} {peer : Peer} {d : Distance}
  {es fs : List (Peer × Distance)}

theorem ranking_perm (key : Id) (peers : List Peer) :
    (ranking key peers).Perm (peers.map fun p => (p, key.xor p.id)) :=
  List.mergeSort_perm _ _

theorem sorted_ranking (key : Id) (peers : List Peer) :
    Selection.Sorted (ranking key peers) := by
  let le (a b : Peer × Distance) : Bool := a.2.toNat ≤ b.2.toNat
  have htrans : ∀ a b c, le a b = true → le b c = true → le a c = true := by
    simp only [le, decide_eq_true_eq]
    exact fun _ _ _ => Nat.le_trans
  have htotal : ∀ a b, (le a b || le b a) = true := by
    simp only [le, Bool.or_eq_true, decide_eq_true_eq]
    exact fun _ _ => Nat.le_total _ _
  have h := List.pairwise_mergeSort htrans htotal (peers.map fun p => (p, key.xor p.id))
  simpa [Selection.Sorted, ranking, le] using h

@[simp] theorem length_ranking (key : Id) (peers : List Peer) :
    (ranking key peers).length = peers.length := by
  simpa using (ranking_perm key peers).length_eq

theorem mem_ranking {e : Peer × Distance} :
    e ∈ ranking key peers ↔ e.1 ∈ peers ∧ e.2 = key.xor e.1.id := by
  rw [(ranking_perm key peers).mem_iff, List.mem_map]
  constructor
  · rintro ⟨p, hp, rfl⟩
    exact ⟨hp, rfl⟩
  · rintro ⟨hp, hd⟩
    exact ⟨e.1, hp, by rw [← hd]⟩

theorem ids_ranking_perm (key : Id) (peers : List Peer) :
    ((ranking key peers).map (·.1.id)).Perm (peers.map (·.id)) := by
  have h := (ranking_perm key peers).map (·.1.id)
  rwa [List.map_map] at h

/-- There is one way to put entries in ascending order. -/
theorem Ascending.eq_of_perm (he : Ascending es) (hf : Ascending fs) (h : es.Perm fs) : es = fs :=
  List.Perm.eq_of_pairwise (fun _ _ _ _ hab hba => absurd hab (Nat.lt_asymm hba)) he hf h

/-- No two ids are equally far, so sorted entries of different ids ascend. -/
theorem ascending_of_sorted (key : Id) (hs : Selection.Sorted es)
    (hd : ∀ e ∈ es, e.1.id.length = key.length ∧ e.2 = key.xor e.1.id)
    (hn : (es.map (·.1.id)).Nodup) : Ascending es := by
  have hne : es.Pairwise fun a b => a.1.id ≠ b.1.id := List.pairwise_map.mp hn
  refine (hs.and hne).imp_of_mem ?_
  rintro a b ha hb ⟨hle, hid⟩
  obtain ⟨hla, hda⟩ := hd a ha
  obtain ⟨hlb, hdb⟩ := hd b hb
  refine Nat.lt_of_le_of_ne hle fun heq => hid (Id.eq_of_gap_eq hla hlb ?_)
  rwa [hda, hdb, Id.xor_comm, Id.toNat_xor, Id.xor_comm, Id.toNat_xor] at heq

/-- Peers of one overlay, each of them once. -/
structure Distinct (key : Id) (peers : List Peer) : Prop where
  length_eq : ∀ p ∈ peers, p.id.length = key.length
  nodup : (peers.map (·.id)).Nodup

namespace Distinct

theorem ascending (h : Distinct key peers) : Ascending (ranking key peers) := by
  refine ascending_of_sorted key (sorted_ranking key peers) (fun e he => ?_)
    ((ids_ranking_perm key peers).nodup_iff.mpr h.nodup)
  obtain ⟨hp, hd⟩ := mem_ranking.mp he
  exact ⟨h.length_eq _ hp, hd⟩

/-- The ranking does not depend on the order of the peers. -/
theorem ranking_congr (h : Distinct key peers) (h' : Distinct key others)
    (hmem : ∀ p, p ∈ peers ↔ p ∈ others) : ranking key peers = ranking key others := by
  have hperm := (List.perm_ext_iff_of_nodup (h.nodup.of_map _) (h'.nodup.of_map _)).mpr hmem
  refine h.ascending.eq_of_perm h'.ascending ?_
  exact (ranking_perm key peers).trans ((hperm.map _).trans (ranking_perm key others).symm)

/-- One peer more is one insertion more. -/
theorem ranking_append (h : Distinct key (peers ++ [peer])) :
    ranking key (peers ++ [peer]) =
      Selection.insertSorted peer (key.xor peer.id) (ranking key peers) := by
  have hperm : (ranking key (peers ++ [peer])).Perm
      (Selection.insertSorted peer (key.xor peer.id) (ranking key peers)) := by
    refine (ranking_perm key _).trans ?_
    rw [List.map_append]
    refine (List.perm_append_comm).trans ?_
    refine List.Perm.trans ?_ (Selection.insertSorted_perm _ _ _).symm
    exact (ranking_perm key peers).symm.cons _
  have hids := hperm.map (·.1.id)
  refine h.ascending.eq_of_perm (ascending_of_sorted key ?_ (fun e he => ?_)
    (hids.nodup_iff.mp ((ids_ranking_perm key _).nodup_iff.mpr h.nodup))) hperm
  · exact (sorted_ranking key peers).insertSorted peer _
  · obtain ⟨hp, hd⟩ := mem_ranking.mp (hperm.mem_iff.mpr he)
    exact ⟨h.length_eq _ hp, hd⟩

end Distinct

/-! ## The front of a longer ranking -/

namespace Selection

/-- As long as there is room, everybody keeps a place. -/
theorem take_insertSorted_of_length_le {n : Nat} (h : es.length ≤ n) :
    (insertSorted peer d es).take (n + 1) = insertSorted peer d es := by
  refine List.take_of_length_le ?_
  rw [(insertSorted_perm peer d es).length_eq, List.length_cons]
  omega

/-- A peer that is closer than the last of the front takes the place of it. -/
theorem take_insertSorted_of_closer {n : Nat} {far : Peer × Distance} (hfar : es[n]? = some far)
    (h : d.closer far.2 = true) :
    (insertSorted peer d es).take (n + 1) = insertSorted peer d (es.take n) := by
  induction es generalizing n with
  | nil => simp at hfar
  | cons e es ih =>
    rw [insertSorted_cons]
    cases n with
    | zero =>
      obtain rfl : e = far := by simpa using hfar
      rw [if_pos h]
      rfl
    | succ n =>
      rw [List.take_succ_cons, insertSorted_cons]
      split
      · rfl
      · rw [List.take_succ_cons, ih (by simpa using hfar)]

/-- One that is not changes nothing in front. -/
theorem take_insertSorted_of_not_closer {n : Nat} {far : Peer × Distance} (hs : Sorted es)
    (hfar : es[n]? = some far) (h : d.closer far.2 = false) :
    (insertSorted peer d es).take (n + 1) = es.take (n + 1) := by
  induction es generalizing n with
  | nil => simp at hfar
  | cons e es ih =>
    obtain ⟨he, hes⟩ := List.pairwise_cons.mp hs
    have hle : far.2.toNat ≤ d.toNat := (Distance.closer_eq_false_iff _ _).mp h
    have hnot : d.closer e.2 = false := by
      rw [Distance.closer_eq_false_iff]
      rcases List.mem_cons.mp (List.mem_of_getElem? hfar) with rfl | hmem
      · exact hle
      · exact Nat.le_trans (he far hmem) hle
    rw [insertSorted_cons, if_neg (by simp [hnot]), List.take_succ_cons, List.take_succ_cons]
    cases n with
    | zero => rfl
    | succ n => rw [ih hes (by simpa using hfar)]

/-! ## Any offers -/

/-- The selection after an offer; one that fails leaves it as it was. -/
def offer (s : Selection) (peer : Peer) : Selection :=
  match s.add peer with
  | .ok s' => s'
  | .error _ => s

/-- The peers without those whose id came up before. -/
def firsts : List Peer → List Peer
  | [] => []
  | p :: ps => p :: (firsts ps).filter (·.id ≠ p.id)

theorem mem_ids_firsts {id : Id} : id ∈ (firsts peers).map (·.id) ↔ id ∈ peers.map (·.id) := by
  induction peers with
  | nil => rfl
  | cons p ps ih =>
    by_cases hid : id = p.id
    · simp [firsts, hid]
    · have hmem : id ∈ ((firsts ps).filter (·.id ≠ p.id)).map (·.id) ↔
          id ∈ (firsts ps).map (·.id) := by
        simp only [List.mem_map, List.mem_filter]
        constructor
        · rintro ⟨q, ⟨hq, -⟩, rfl⟩
          exact ⟨q, hq, rfl⟩
        · rintro ⟨q, hq, rfl⟩
          exact ⟨q, ⟨hq, by simpa using hid⟩, rfl⟩
      rw [firsts, List.map_cons, List.map_cons, List.mem_cons, List.mem_cons, hmem, ih]

theorem nodup_firsts (peers : List Peer) : ((firsts peers).map (·.id)).Nodup := by
  induction peers with
  | nil => exact List.nodup_nil
  | cons p ps ih =>
    rw [firsts, List.map_cons, List.nodup_cons]
    refine ⟨by simp, ih.sublist (List.filter_sublist.map _)⟩

theorem firsts_sublist (peers : List Peer) : (firsts peers).Sublist peers := by
  induction peers with
  | nil => exact List.Sublist.refl _
  | cons p ps ih => exact (List.filter_sublist.trans ih).cons_cons p

theorem firsts_of_nodup (h : (peers.map (·.id)).Nodup) : firsts peers = peers := by
  induction peers with
  | nil => rfl
  | cons p ps ih =>
    obtain ⟨hp, hps⟩ := List.nodup_cons.mp h
    rw [firsts, ih hps, List.filter_eq_self.mpr]
    intro q hq
    have hne : q.id ≠ p.id := fun heq => hp (List.mem_map.mpr ⟨q, hq, heq⟩)
    simpa using hne

/-- One peer more counts if its id did not come up before. -/
theorem firsts_append (peers : List Peer) (peer : Peer) :
    firsts (peers ++ [peer]) =
      if peer.id ∈ peers.map (·.id) then firsts peers else firsts peers ++ [peer] := by
  induction peers with
  | nil => rfl
  | cons p ps ih =>
    rw [List.cons_append, firsts, firsts, ih]
    by_cases hid : peer.id = p.id
    · have hmem : peer.id ∈ (p :: ps).map (·.id) := by simp [hid]
      rw [if_pos hmem]
      split
      · rfl
      · simp [hid]
    · by_cases hmem : peer.id ∈ ps.map (·.id)
      · rw [if_pos hmem, if_pos (by rw [List.map_cons]; exact List.mem_cons_of_mem _ hmem)]
      · rw [if_neg hmem, if_neg (by simp only [List.map_cons, List.mem_cons, hid, hmem]; simp)]
        simp [hid]

/-- The first `capacity` of the ranking of those who were offered. -/
def Fronts (s : Selection) (offered : List Peer) : Prop :=
  s.peers = (ranking s.target (firsts offered)).take s.capacity

variable {s : Selection} {offered : List Peer}

theorem distinct_firsts (hl : ∀ p ∈ offered, p.id.length = key.length) :
    Distinct key (firsts offered) :=
  ⟨fun p hp => hl p ((firsts_sublist offered).subset hp), nodup_firsts offered⟩

/-- The last entry of a full selection stands at its place in the ranking. -/
theorem Fronts.getElem?_eq (h : s.Fronts offered) {far : Peer × Distance}
    (hfull : s.peers.length = s.capacity) (hlast : s.peers.getLast? = some far) :
    ∃ n, s.capacity = n + 1 ∧ (ranking s.target (firsts offered))[n]? = some far := by
  obtain ⟨n, hn⟩ : ∃ n, s.capacity = n + 1 := by
    refine Nat.exists_eq_succ_of_ne_zero fun hzero => ?_
    rw [hzero, List.length_eq_zero_iff] at hfull
    simp [hfull] at hlast
  refine ⟨n, hn, ?_⟩
  rw [List.getLast?_eq_getElem?, hfull, hn, h, hn, List.getElem?_take, if_pos (by omega)] at hlast
  exact hlast

/-- Whoever came up before is selected already or stands behind everybody who is. -/
theorem Fronts.add_of_seen (h : s.Fronts offered) (hl : peer.id.length = s.target.length)
    (hseen : peer.id ∈ offered.map (·.id)) : s.add peer = .ok s := by
  obtain ⟨e, he, hid⟩ := List.mem_map.mp
    ((ids_ranking_perm s.target (firsts offered)).mem_iff.mpr (mem_ids_firsts.mpr hseen))
  have hd : e.2 = s.target.xor peer.id := by rw [(mem_ranking.mp he).2, hid]
  have hchoice := choice s hl
  generalize s.add peer = result at hchoice ⊢
  cases hchoice with
  | nobody => rfl
  | known => rfl
  | refused => rfl
  | joined hcap hmem hroom =>
    rw [h] at hmem hroom
    rw [List.take_of_length_le (by rw [List.length_take] at hroom; omega)] at hmem
    exact absurd (List.mem_map.mpr ⟨e, he, hid⟩) hmem
  | exchanged far hmem hfull hlast hlt =>
    obtain ⟨n, hn, hfar⟩ := h.getElem?_eq hfull hlast
    rw [h, hn] at hmem
    have hsorted := sorted_ranking s.target (firsts offered)
    rw [← List.take_append_drop (n + 1) (ranking s.target (firsts offered))] at he hsorted
    rcases List.mem_append.mp he with he | he
    · exact absurd (List.mem_map.mpr ⟨e, he, hid⟩) hmem
    · have hfront : far ∈ (ranking s.target (firsts offered)).take (n + 1) :=
        List.mem_of_getElem? (i := n) (by rw [List.getElem?_take, if_pos (by omega), hfar])
      have hle := (List.pairwise_append.mp hsorted).2.2 far hfront e he
      rw [hd] at hle
      omega

/-- **One more offer.**  Somebody new enters the front as the whole ranking is entered. -/
theorem Fronts.add (h : s.Fronts offered)
    (hl : ∀ p ∈ offered ++ [peer], p.id.length = s.target.length) :
    ∃ s', s.add peer = .ok s' ∧ s'.target = s.target ∧ s'.capacity = s.capacity ∧
      s'.Fronts (offered ++ [peer]) := by
  have hpeer := hl peer (List.mem_append_right _ List.mem_cons_self)
  by_cases hseen : peer.id ∈ offered.map (·.id)
  · refine ⟨s, h.add_of_seen hpeer hseen, rfl, rfl, ?_⟩
    rw [Fronts, firsts_append, if_pos hseen]
    exact h
  have hfirsts : firsts (offered ++ [peer]) = firsts offered ++ [peer] := by
    rw [firsts_append, if_neg hseen]
  have hrank := (hfirsts ▸ distinct_firsts hl).ranking_append
  have hchoice := choice s hpeer
  generalize s.add peer = result at hchoice ⊢
  cases hchoice with
  | nobody hcap =>
    refine ⟨s, rfl, rfl, rfl, ?_⟩
    rw [Fronts, h, hcap, List.take_zero, List.take_zero]
  | known hmem =>
    obtain ⟨e, he, hid⟩ := List.mem_map.mp hmem
    rw [h] at he
    have hoffered := (mem_ranking.mp (List.mem_of_mem_take he)).1
    exact absurd (mem_ids_firsts.mp (List.mem_map.mpr ⟨e.1, hoffered, hid⟩)) hseen
  | joined hcap hmem hroom =>
    obtain ⟨n, hn⟩ := Nat.exists_eq_succ_of_ne_zero hcap
    rw [h, List.length_take] at hroom
    have hle : (ranking s.target (firsts offered)).length ≤ n := by omega
    refine ⟨_, rfl, rfl, rfl, ?_⟩
    simp only [Fronts]
    rw [hfirsts, hrank, hn, take_insertSorted_of_length_le hle, h,
      List.take_of_length_le (by omega)]
  | refused far hfull hlast hge =>
    obtain ⟨n, hn, hfar⟩ := h.getElem?_eq hfull hlast
    have hfarther := (Distance.closer_eq_false_iff _ _).mpr hge
    refine ⟨s, rfl, rfl, rfl, ?_⟩
    rw [Fronts, hfirsts, hrank, hn,
      take_insertSorted_of_not_closer (sorted_ranking _ _) hfar hfarther, ← hn]
    exact h
  | exchanged far hmem hfull hlast hlt =>
    obtain ⟨n, hn, hfar⟩ := h.getElem?_eq hfull hlast
    have hcloser := (Distance.closer_iff _ _).mpr hlt
    have hfront : s.peers.dropLast = (ranking s.target (firsts offered)).take n := by
      rw [List.dropLast_eq_take, hfull, hn, h, hn, List.take_take]
      congr 1
      omega
    refine ⟨_, rfl, rfl, rfl, ?_⟩
    simp only [Fronts]
    rw [hfirsts, hrank, hn, take_insertSorted_of_closer hfar hcloser, hfront]

theorem add_of_length_ne (hl : peer.id.length ≠ s.target.length) :
    s.add peer = .error (.lengthMismatch s.target.length peer.id.length) := by
  rw [Selection.add, Id.distance_of_length_ne (Ne.symm hl)]
  rfl

theorem offer_of_length_ne (hl : peer.id.length ≠ s.target.length) : s.offer peer = s := by
  rw [offer, add_of_length_ne hl]

/-- A peer of the same overlay can be offered. -/
theorem add_of_length_eq (hl : peer.id.length = s.target.length) :
    s.add peer = .ok (s.offer peer) ∧ (s.offer peer).target = s.target := by
  have hchoice := choice s hl
  rw [offer]
  generalize s.add peer = result at hchoice ⊢
  cases hchoice <;> exact ⟨rfl, rfl⟩

@[simp] theorem target_offer (s : Selection) (peer : Peer) : (s.offer peer).target = s.target := by
  by_cases hl : peer.id.length = s.target.length
  · exact (add_of_length_eq hl).2
  · rw [offer_of_length_ne hl]

theorem addAll_eq (hl : ∀ p ∈ peers, p.id.length = s.target.length) :
    s.addAll peers = .ok (peers.foldl offer s) := by
  induction peers generalizing s with
  | nil => rfl
  | cons p ps ih =>
    have hadd := (add_of_length_eq (hl p List.mem_cons_self)).1
    rw [addAll, List.foldlM_cons, hadd, List.foldl_cons]
    exact ih fun q hq => by rw [target_offer, hl q (List.mem_cons_of_mem p hq)]

/-- Peers of another overlay count for nothing. -/
theorem foldl_offer_filter (s : Selection) (offers : List Peer) :
    offers.foldl offer s = (offers.filter (·.id.length = s.target.length)).foldl offer s := by
  induction offers generalizing s with
  | nil => rfl
  | cons p ps ih =>
    rw [List.foldl_cons, ih, target_offer]
    by_cases hl : p.id.length = s.target.length
    · rw [List.filter_cons_of_pos (by simpa using hl), List.foldl_cons]
    · rw [List.filter_cons_of_neg (by simpa using hl), offer_of_length_ne hl]

/-- **Any number of offers.** -/
theorem fronts_foldl_offer {target : Id} (capacity : Nat)
    (hl : ∀ p ∈ peers, p.id.length = target.length) :
    (peers.foldl offer ⟨target, capacity, []⟩).target = target ∧
      (peers.foldl offer ⟨target, capacity, []⟩).capacity = capacity ∧
      (peers.foldl offer ⟨target, capacity, []⟩).Fronts peers := by
  induction peers using List.reverseRecOn with
  | nil => simp [Fronts, firsts, ranking]
  | append_singleton peers peer ih =>
    obtain ⟨htarget, hcapacity, hfronts⟩ := ih fun p hp => hl p (List.mem_append_left _ hp)
    obtain ⟨s', hadd, htarget', hcapacity', hfronts'⟩ :=
      hfronts.add fun p hp => (hl p hp).trans (congrArg Id.length htarget).symm
    rw [List.foldl_append, List.foldl_cons, List.foldl_nil, offer, hadd]
    exact ⟨htarget'.trans htarget, hcapacity'.trans hcapacity, hfronts'⟩

/-- What any offers to an empty selection come to. -/
structure Ranks (target : Id) (capacity : Nat) (offers : List Peer) : Prop where
  /-- The front of the sorted list of everybody of the right length, each id
  as it first came up. -/
  peers_eq : (offers.foldl offer ⟨target, capacity, []⟩).peers =
    (ranking target (firsts (offers.filter (·.id.length = target.length)))).take capacity
  /-- The next offer is refused for the length of its id, which leaves the
  selection as it was, and for nothing else. -/
  of_length_ne : ∀ peer, peer.id.length ≠ target.length →
    let s := offers.foldl offer ⟨target, capacity, []⟩
    s.add peer = .error (.lengthMismatch target.length peer.id.length) ∧ s.offer peer = s
  of_length_eq : ∀ peer, peer.id.length = target.length →
    let s := offers.foldl offer ⟨target, capacity, []⟩
    s.add peer = .ok (s.offer peer)

theorem ranks (target : Id) (capacity : Nat) (offers : List Peer) :
    Ranks target capacity offers := by
  have hl : ∀ p ∈ offers.filter (·.id.length = target.length), p.id.length = target.length := by
    simp
  obtain ⟨htarget, hcapacity, hfronts⟩ := fronts_foldl_offer capacity hl
  rw [Fronts, htarget, hcapacity] at hfronts
  rw [← foldl_offer_filter ⟨target, capacity, []⟩ offers] at htarget hfronts
  refine ⟨hfronts, fun peer hne => ?_, fun peer heq => ?_⟩
  · rw [← htarget] at hne
    exact ⟨by rw [add_of_length_ne hne, htarget], offer_of_length_ne hne⟩
  · exact (add_of_length_eq (heq.trans (congrArg Id.length htarget).symm)).1

end Selection

/-! ## Tables -/

/-- A peer with an id of one byte. -/
def Peer.ofByte (byte : UInt8) : Peer := ⟨⟨[byte], Id.singleton_ne_nil byte⟩, .ofIPv4 10 0 0 1 1⟩

namespace RoutingTable

variable {t : RoutingTable}

theorem WellFormed.distinct_peers (h : t.WellFormed) (hl : key.length = t.localId.length) :
    Distinct key t.peers :=
  ⟨fun _ hp => (h.of_mem hp).1.trans hl.symm, h.nodup_peers⟩

/-- **The closest peers of a table are the first of all that it knows.** -/
theorem WellFormed.closest_eq (h : t.WellFormed) (hl : key.length = t.localId.length) (k : Nat) :
    t.closest key k = .ok ((ranking key t.peers).take k) := by
  have hd := h.distinct_peers hl
  obtain ⟨htarget, hcapacity, hfronts⟩ := Selection.fronts_foldl_offer k hd.length_eq
  rw [Selection.Fronts, htarget, hcapacity, Selection.firsts_of_nodup hd.nodup] at hfronts
  rw [closest, Id.checkLength, if_pos hl.symm, Selection.addAll_eq hd.length_eq, ← hfronts]
  rfl

/-- What is told of the closest peers of a table. -/
structure RanksClosest (t : RoutingTable) (key : Id) : Prop where
  /-- The ranking is a list of all known peers. -/
  perm : ((ranking key t.peers).map (·.1)).Perm t.peers
  /-- Each stands beside its distance to the key. -/
  measured : ∀ e ∈ ranking key t.peers, key.distance e.1.id = .ok e.2
  /-- No two of them are equally far, and the closest comes first. -/
  ascending : Ascending (ranking key t.peers)
  /-- The answer is its beginning: `k` peers, or all of them. -/
  closest_eq : ∀ k, t.closest key k = .ok ((ranking key t.peers).take (min k t.size))
  /-- To ask for fewer is to get the first of them. -/
  closest_prefix : ∀ j k near far, j ≤ k → t.closest key j = .ok near →
    t.closest key k = .ok far → near <+: far
  /-- Whatever happened to a table, the answer depends on who is known only. -/
  closest_congr : ∀ (localId : Id) (bucketSize : Nat) (calls : List Call),
    let t' := calls.foldl after (empty localId bucketSize)
    localId.length = key.length → (∀ p, p ∈ t'.peers ↔ p ∈ t.peers) →
      ∀ k, t'.closest key k = t.closest key k

theorem WellFormed.ranksClosest (h : t.WellFormed) (hl : key.length = t.localId.length) :
    t.RanksClosest key where
  perm := by
    have hperm := (ranking_perm key t.peers).map (·.1)
    have hid : (·.1) ∘ (fun p : Peer => (p, key.xor p.id)) = id := rfl
    rwa [List.map_map, hid, List.map_id] at hperm
  measured e he := by
    obtain ⟨hp, hd⟩ := mem_ranking.mp he
    rw [hd]
    exact Id.distance_of_length_eq (hl.trans (h.of_mem hp).1.symm)
  ascending := (h.distinct_peers hl).ascending
  closest_eq k := by
    rw [h.closest_eq hl, size_eq, ← length_ranking key t.peers, ← List.take_take, List.take_length]
  closest_prefix j k near far hjk hnear hfar := by
    rw [h.closest_eq hl] at hnear hfar
    obtain rfl := Except.ok.inj hnear
    obtain rfl := Except.ok.inj hfar
    exact List.take_prefix_take_left hjk
  closest_congr localId bucketSize calls := by
    intro t' hlocal hmem k
    obtain ⟨h', hlocal', -⟩ := (wellFormed_empty localId bucketSize).foldl_after calls
    have hl' : key.length = t'.localId.length := by rw [← hlocal, hlocal']; rfl
    rw [h'.closest_eq hl', h.closest_eq hl,
      (h'.distinct_peers hl').ranking_congr (h.distinct_peers hl) hmem]

/-- **The closest peers are those of a plain sort.**  For every table that calls
can lead to, the closest peers are the first of all known peers in the order of
their distances, whatever the order in which they came; and so it is with the
selection behind it for any offers, repeated ids and ids of other lengths
among them. -/
theorem closest_ranked (localId : Id) (bucketSize : Nat) (calls : List Call) (key : Id)
    (hl : key.length = localId.length) :
    (calls.foldl after (empty localId bucketSize)).RanksClosest key ∧
      ∀ capacity offers, Selection.Ranks key capacity offers := by
  obtain ⟨h, hlocal, -⟩ := (wellFormed_empty localId bucketSize).foldl_after calls
  exact ⟨h.ranksClosest (hl.trans (congrArg Id.length hlocal).symm), Selection.ranks key⟩

/-- One of five calls takes a peer away again. -/
theorem closest_ranked_small :
    let t := [Call.add (.ofByte 9), .add (.ofByte 1), .add (.ofByte 2), .remove (.ofByte 1),
      .add (.ofByte 4)].foldl after (empty (Peer.ofByte 0).id 20)
    t.closest (Peer.ofByte 3).id 2 = .ok [(.ofByte 2, ⟨[1]⟩), (.ofByte 4, ⟨[7]⟩)] ∧
      t.RanksClosest (Peer.ofByte 3).id :=
  ⟨by rfl, (closest_ranked (Peer.ofByte 0).id 20 _ (Peer.ofByte 3).id rfl).1⟩

end RoutingTable
end Kademlia
