import Kademlia.Session
import Kademlia.Proofs.Nearest

/-!
# Kademlia.Proofs.Candidates

The candidates of a lookup.  `Session.offering` says once what offering a
candidate can come to; merging is offering one after the other, in sessions
with and without bound alike (`Session.merge_eq`).  From this follow

* `Session.WellFormed.merge` — no id twice, every candidate at its distance,
  and no more of them than the capacity allows;
* `Session.Keeps.merge` — a bounded session holds the nearest of all that it
  was offered;
* `Session.mem_ids_merge` — a session without bound holds all of them.
-/

namespace Kademlia

/-- A peer as a new candidate in the search for a key. -/
def Candidate.fresh (key : Id) (peer : Peer) : Candidate :=
  { peer, distance := peer.id.xor key }

/-- There are no more ids of one length than byte strings. -/
theorem Id.length_le_of_nodup {key : Id} {ids : List Id} (hn : ids.Nodup)
    (hl : ∀ id ∈ ids, id.length = key.length) : ids.length ≤ 256 ^ key.length := by
  have hnodup : (ids.map key.gap).Nodup :=
    hn.map_on fun a ha b hb hab => eq_of_gap_eq (hl a ha) (hl b hb) hab
  have hsub : ids.map key.gap ⊆ List.range (256 ^ key.length) := by
    intro g hg
    obtain ⟨id, hid, rfl⟩ := List.mem_map.mp hg
    exact List.mem_range.mpr (gap_lt (hl id hid))
  have hle := (hnodup.subperm hsub).length_le
  rwa [List.length_map, List.length_range] at hle

namespace Session

variable {s s' : Session} {c d : Candidate} {cs : List Candidate} {key id : Id} {k : Nat}

/-- The ids of the candidates. -/
def ids (s : Session) : List Id := s.candidates.map (·.peer.id)

theorem mem_ids : id ∈ s.ids ↔ ∃ c ∈ s.candidates, c.peer.id = id := by
  rw [ids, List.mem_map]

theorem mem_ids_of_mem (hc : c ∈ s.candidates) : c.peer.id ∈ s.ids := List.mem_map_of_mem hc

theorem contains_iff (s : Session) (id : Id) : s.contains id = true ↔ id ∈ s.ids := by
  rw [mem_ids, contains, List.any_eq_true]
  simp only [beq_iff_eq]

/-- With distinct ids, a candidate is known by its id. -/
theorem eq_of_id_eq (hn : s.ids.Nodup) (hc : c ∈ s.candidates) (hd : d ∈ s.candidates)
    (hid : c.peer.id = d.peer.id) : c = d :=
  List.inj_on_of_nodup_map hn hc hd hid

/-! ## The farthest and the closest candidate -/

/-- Picking one of two over and over picks the best of all. -/
theorem foldl_pick {f : Candidate → Candidate → Candidate} {r : Candidate → Candidate → Prop}
    (hrefl : ∀ x, r x x) (htrans : ∀ x y z, r x y → r y z → r x z)
    (hf : ∀ x y, (f x y = x ∨ f x y = y) ∧ r x (f x y) ∧ r y (f x y))
    (c : Candidate) (cs : List Candidate) :
    cs.foldl f c ∈ c :: cs ∧ ∀ d ∈ c :: cs, r d (cs.foldl f c) := by
  induction cs generalizing c with
  | nil => exact ⟨List.mem_cons_self, by simpa using hrefl c⟩
  | cons e es ih =>
      obtain ⟨hmem, hbest⟩ := ih (f c e)
      obtain ⟨hpick, hc, he⟩ := hf c e
      have hhead := hbest _ List.mem_cons_self
      rw [List.foldl_cons]
      constructor
      · rcases List.mem_cons.mp hmem with heq | hmem
        · rw [heq]
          rcases hpick with hp | hp <;> rw [hp] <;> simp
        · exact List.mem_cons_of_mem _ (List.mem_cons_of_mem _ hmem)
      · intro d hd
        simp only [List.mem_cons] at hd
        rcases hd with rfl | rfl | hd
        · exact htrans _ _ _ hc hhead
        · exact htrans _ _ _ he hhead
        · exact hbest d (List.mem_cons_of_mem _ hd)

theorem foldl_fartherOf (c : Candidate) (cs : List Candidate) :
    cs.foldl fartherOf c ∈ c :: cs ∧
      ∀ d ∈ c :: cs, d.distance.toNat ≤ (cs.foldl fartherOf c).distance.toNat := by
  refine foldl_pick (r := fun d e => d.distance.toNat ≤ e.distance.toNat)
    (fun _ => Nat.le_refl _) (fun _ _ _ => Nat.le_trans) (fun x y => ?_) c cs
  rw [fartherOf]
  cases hc : y.distance.closer x.distance with
  | true => exact ⟨.inl rfl, Nat.le_refl _, Nat.le_of_lt ((Distance.closer_iff _ _).mp hc)⟩
  | false => exact ⟨.inr rfl, (Distance.closer_eq_false_iff _ _).mp hc, Nat.le_refl _⟩

theorem foldl_closerOf (c : Candidate) (cs : List Candidate) :
    cs.foldl closerOf c ∈ c :: cs ∧
      ∀ d ∈ c :: cs, (cs.foldl closerOf c).distance.toNat ≤ d.distance.toNat := by
  refine foldl_pick (r := fun d e => e.distance.toNat ≤ d.distance.toNat)
    (fun _ => Nat.le_refl _) (fun _ _ _ h h' => Nat.le_trans h' h) (fun x y => ?_) c cs
  rw [closerOf]
  cases hc : y.distance.closer x.distance with
  | true => exact ⟨.inr rfl, Nat.le_of_lt ((Distance.closer_iff _ _).mp hc), Nat.le_refl _⟩
  | false => exact ⟨.inl rfl, Nat.le_refl _, (Distance.closer_eq_false_iff _ _).mp hc⟩

theorem farthest?_eq_none {cs : List Candidate} (h : farthest? cs = none) : cs = [] := by
  cases cs with
  | nil => rfl
  | cons c cs => simp [farthest?] at h

theorem of_farthest? {cs : List Candidate} {far : Candidate} (h : farthest? cs = some far) :
    far ∈ cs ∧ ∀ d ∈ cs, d.distance.toNat ≤ far.distance.toNat := by
  cases cs with
  | nil => simp [farthest?] at h
  | cons c cs =>
      obtain rfl : cs.foldl fartherOf c = far := Option.some.inj h
      exact foldl_fartherOf c cs

/-! ## Offering one candidate -/

/-- What offering a candidate can come to. -/
inductive Offering (s : Session) (c : Candidate) : Bool × Session → Prop where
  /-- Its id is there already. -/
  | known (hid : c.peer.id ∈ s.ids) : Offering s c (false, s)
  /-- There is room for it. -/
  | joined (hid : c.peer.id ∉ s.ids) (hroom : s.hasRoom = true) :
      Offering s c (true, { s with candidates := s.candidates ++ [c] })
  /-- There is no room, and nobody is farther. -/
  | refused (hid : c.peer.id ∉ s.ids) (hroom : s.hasRoom = false)
      (hfar : ∀ d ∈ s.candidates, d.distance.toNat ≤ c.distance.toNat) : Offering s c (false, s)
  /-- It takes the place of the farthest candidate. -/
  | exchanged (far : Candidate) (hid : c.peer.id ∉ s.ids) (hroom : s.hasRoom = false)
      (hmem : far ∈ s.candidates)
      (hfar : ∀ d ∈ s.candidates, d.distance.toNat ≤ far.distance.toNat)
      (hlt : c.distance.toNat < far.distance.toNat) : Offering s c (true, s.replace far c)

theorem offering (s : Session) (c : Candidate) : Offering s c (s.offer c) := by
  rw [offer]
  by_cases hid : c.peer.id ∈ s.ids
  · rw [if_pos ((contains_iff s _).mpr hid)]
    exact .known hid
  · rw [if_neg (fun h => hid ((contains_iff s _).mp h))]
    cases hroom : s.hasRoom with
    | true => exact .joined hid hroom
    | false =>
        rw [if_neg (by simp)]
        cases hf : farthest? s.candidates with
        | none =>
            refine .refused hid hroom ?_
            rw [farthest?_eq_none hf]
            simp
        | some far =>
            obtain ⟨hmem, hfar⟩ := of_farthest? hf
            cases hc : c.distance.closer far.distance with
            | true =>
                simp only [hc, if_true]
                exact .exchanged far hid hroom hmem hfar ((Distance.closer_iff _ _).mp hc)
            | false =>
                simp only [hc, Bool.false_eq_true, if_false]
                have hle := (Distance.closer_eq_false_iff _ _).mp hc
                exact .refused hid hroom fun d hd => Nat.le_trans (hfar d hd) hle

theorem capacity_offer (s : Session) (c : Candidate) : (s.offer c).2.capacity = s.capacity := by
  have hoff := offering s c
  generalize s.offer c = result at hoff ⊢
  cases hoff <;> rfl

/-- A session that did not take a candidate is as it was. -/
theorem offer_of_not_taken (h : (s.offer c).1 = false) : (s.offer c).2 = s := by
  have hoff := offering s c
  generalize s.offer c = result at h hoff ⊢
  cases hoff with
  | known => rfl
  | refused => rfl
  | joined => contradiction
  | exchanged => contradiction

/-- In the place of `far` stands `c`; the others are as they were. -/
theorem mem_replace {far : Candidate} (h : d ∈ (s.replace far c).candidates) :
    d = c ∨ d ∈ s.candidates ∧ d.peer.id ≠ far.peer.id := by
  rw [replace] at h
  obtain ⟨e, he, rfl⟩ := List.mem_map.mp h
  split
  · exact .inl rfl
  next hne => exact .inr ⟨he, hne⟩

theorem mem_candidates_offer (h : d ∈ (s.offer c).2.candidates) : d = c ∨ d ∈ s.candidates := by
  have hoff := offering s c
  generalize s.offer c = result at h hoff
  cases hoff with
  | known => exact .inr h
  | refused => exact .inr h
  | joined =>
      rw [List.mem_append, List.mem_singleton] at h
      exact h.symm
  | exchanged => exact (mem_replace h).imp_right And.left

theorem ids_replace_perm {far : Candidate} (hn : s.ids.Nodup) (hmem : far ∈ s.candidates) :
    (s.replace far c).ids.Perm (c.peer.id :: s.ids.erase far.peer.id) := by
  obtain ⟨front, back, hsplit⟩ := List.append_of_mem hmem
  rw [ids, hsplit, List.map_append, List.map_cons, List.nodup_append, List.nodup_cons] at hn
  obtain ⟨_, ⟨hback, _⟩, hdisj⟩ := hn
  have hfront : far.peer.id ∉ front.map (·.peer.id) := fun h =>
    hdisj _ h _ List.mem_cons_self rfl
  -- Nobody but `far` has its id, so all others stay what they were.
  have hkeep : ∀ es : List Candidate, far.peer.id ∉ es.map (·.peer.id) →
      (es.map fun e => if e.peer.id = far.peer.id then c else e) = es := by
    intro es hes
    conv => rhs; rw [← List.map_id es]
    refine List.map_congr_left fun e he => ?_
    have hne : e.peer.id ≠ far.peer.id := fun heq => hes (List.mem_map.mpr ⟨e, he, heq⟩)
    exact if_neg hne
  have herase : s.ids.erase far.peer.id = front.map (·.peer.id) ++ back.map (·.peer.id) := by
    rw [ids, hsplit, List.map_append, List.map_cons, List.erase_append_right _ hfront,
      List.erase_cons_head]
  rw [herase, ids, replace, hsplit, List.map_append, List.map_cons, if_pos rfl,
    hkeep front hfront, hkeep back hback, List.map_append, List.map_cons]
  exact List.perm_middle

/-! ## Merging -/

/-- Without a bound, to offer a candidate is to add it. -/
theorem offer_of_unbounded (hs : s.capacity = none) (c : Candidate) : s.offer c = s.add c := by
  have hroom : s.hasRoom = true := by
    rw [hasRoom, hs]
    rfl
  rw [offer, add, hroom, if_pos rfl]

theorem foldl_countTaken (step : Session → Candidate → Bool × Session) (n : Nat) (s : Session)
    (cs : List Candidate) :
    cs.foldl (fun (taken, s) c =>
      let (took, s) := step s c
      (if took then taken + 1 else taken, s)) (n, s) =
    (n + (countTaken step s cs).1, (countTaken step s cs).2) := by
  induction cs generalizing n s with
  | nil => rfl
  | cons c cs ih =>
      rw [countTaken, List.foldl_cons, List.foldl_cons]
      generalize hr : step s c = r
      obtain ⟨took, s'⟩ := r
      simp only [hr]
      rw [ih, ih]
      cases took
      · simp
      · simp [Nat.add_assoc]

theorem countTaken_cons (step : Session → Candidate → Bool × Session) (s : Session) (c : Candidate)
    (cs : List Candidate) : countTaken step s (c :: cs) =
      ((if (step s c).1 then 1 else 0) + (countTaken step (step s c).2 cs).1,
        (countTaken step (step s c).2 cs).2) := by
  rw [countTaken, List.foldl_cons]
  generalize hr : step s c = r
  obtain ⟨took, s'⟩ := r
  simp only [hr]
  rw [foldl_countTaken]

/-- Merging is offering, in sessions of either kind. -/
theorem merge_eq (s : Session) (cs : List Candidate) : s.merge cs = s.addIfCloser cs := by
  rw [merge]
  split
  · rfl
  next hs =>
    have hcap : s.capacity = none := by
      simpa [isBounded] using hs
    clear hs
    rw [addIfCloser]
    induction cs generalizing s with
    | nil => rfl
    | cons c cs ih =>
        have hstep := capacity_offer s c
        rw [countTaken_cons, countTaken_cons, ← offer_of_unbounded hcap, ih _ (hstep.trans hcap)]

theorem merge_nil (s : Session) : (s.merge []).2 = s := by
  rw [merge_eq]
  rfl

theorem merge_cons (s : Session) (c : Candidate) (cs : List Candidate) :
    (s.merge (c :: cs)).2 = ((s.offer c).2.merge cs).2 := by
  rw [merge_eq, merge_eq, addIfCloser, countTaken_cons]
  rfl

/-- What every offer keeps up, a merge does. -/
theorem merge_induction {motive : Session → Prop} (hs : motive s)
    (hstep : ∀ s, ∀ c ∈ cs, motive s → motive (s.offer c).2) : motive (s.merge cs).2 := by
  induction cs generalizing s with
  | nil =>
      rw [merge_nil]
      exact hs
  | cons c cs ih =>
      rw [merge_cons]
      exact ih (hstep s c List.mem_cons_self hs)
        fun s d hd => hstep s d (List.mem_cons_of_mem c hd)

@[simp] theorem capacity_merge (s : Session) (cs : List Candidate) :
    (s.merge cs).2.capacity = s.capacity :=
  merge_induction (motive := fun t => t.capacity = s.capacity) rfl
    fun t c _ h => (capacity_offer t c).trans h

/-- A merge that takes nobody leaves the session as it is. -/
theorem merge_of_taken_zero (h : (s.merge cs).1 = 0) : (s.merge cs).2 = s := by
  rw [merge_eq, addIfCloser] at h ⊢
  induction cs generalizing s with
  | nil => rfl
  | cons c cs ih =>
      rw [countTaken_cons] at h ⊢
      have hnot : (s.offer c).1 = false := by
        cases htook : (s.offer c).1 with
        | false => rfl
        | true =>
            rw [htook, if_pos rfl] at h
            omega
      rw [offer_of_not_taken hnot] at h ⊢
      exact ih (by simpa [hnot] using h)

/-- A merge that leaves every session it meets as it is takes nobody. -/
theorem merge_of_offers (h : ∀ c ∈ cs, s.offer c = (false, s)) : s.merge cs = (0, s) := by
  rw [merge_eq, addIfCloser]
  induction cs with
  | nil => rfl
  | cons c cs ih =>
      rw [countTaken_cons, h c List.mem_cons_self]
      rw [ih fun d hd => h d (List.mem_cons_of_mem c hd)]
      rfl

theorem mem_candidates_merge (h : d ∈ (s.merge cs).2.candidates) :
    d ∈ cs ∨ d ∈ s.candidates := by
  have hall : ∀ d ∈ (s.merge cs).2.candidates, d ∈ cs ∨ d ∈ s.candidates := by
    refine merge_induction (motive := fun t => ∀ d ∈ t.candidates, d ∈ cs ∨ d ∈ s.candidates)
      (fun d hd => .inr hd) ?_
    intro t c hc ht d hd
    rcases mem_candidates_offer hd with rfl | hd
    · exact .inl hc
    · exact ht d hd
  exact hall d h

/-! ## Picking a candidate -/

@[simp] theorem capacity_markSearched (s : Session) (id : Id) :
    (s.markSearched id).capacity = s.capacity := rfl

@[simp] theorem ids_markSearched (s : Session) (id : Id) : (s.markSearched id).ids = s.ids := by
  rw [ids, markSearched, List.map_map, ids]
  refine List.map_congr_left fun c _ => ?_
  rw [Function.comp_apply]
  split <;> rfl

@[simp] theorem peers_markSearched (s : Session) (id : Id) :
    (s.markSearched id).peers = s.peers := by
  rw [peers, markSearched, List.map_map, peers]
  refine List.map_congr_left fun c _ => ?_
  rw [Function.comp_apply]
  split <;> rfl

theorem mem_markSearched (h : d ∈ (s.markSearched id).candidates) :
    (d ∈ s.candidates ∧ d.peer.id ≠ id) ∨
      ∃ c ∈ s.candidates, c.peer.id = id ∧ d = { c with searched := true } := by
  rw [markSearched] at h
  obtain ⟨c, hc, rfl⟩ := List.mem_map.mp h
  by_cases hid : c.peer.id = id
  · rw [if_pos hid]
    exact .inr ⟨c, hc, hid, rfl⟩
  · rw [if_neg hid]
    exact .inl ⟨hc, hid⟩

theorem mem_markSearched_of_mem (hc : c ∈ s.candidates) :
    { c with searched := true } ∈ (s.markSearched c.peer.id).candidates := by
  rw [markSearched]
  exact List.mem_map.mpr ⟨c, hc, if_pos rfl⟩

/-- Nobody is left to pick when everybody was picked. -/
theorem next?_eq_none_iff : s.next? = none ↔ ∀ c ∈ s.candidates, c.searched = true := by
  rw [next?, Option.map_eq_none_iff, closestUnsearched?]
  have hfilter : s.candidates.filter (!·.searched) = [] ↔
      ∀ c ∈ s.candidates, c.searched = true := by
    simp [List.filter_eq_nil_iff]
  rw [← hfilter]
  cases s.candidates.filter (!·.searched) <;> simp

/-- The one picked is the closest of those that nobody picked before. -/
theorem of_next? (h : s.next? = some (c, s')) :
    ∃ e ∈ s.candidates, e.searched = false ∧ c = { e with searched := true } ∧
      s' = s.markSearched e.peer.id ∧
      ∀ d ∈ s.candidates, d.searched = false → e.distance.toNat ≤ d.distance.toNat := by
  rw [next?, Option.map_eq_some_iff] at h
  obtain ⟨e, he, heq⟩ := h
  obtain ⟨rfl, rfl⟩ := Prod.mk.inj heq
  rw [closestUnsearched?] at he
  have hmem : ∀ d, d ∈ s.candidates.filter (!·.searched) ↔
      d ∈ s.candidates ∧ d.searched = false := by
    simp [List.mem_filter]
  cases hl : s.candidates.filter (!·.searched) with
  | nil =>
      rw [hl] at he
      contradiction
  | cons x xs =>
      rw [hl] at he hmem
      obtain rfl : xs.foldl closerOf x = e := Option.some.inj he
      obtain ⟨hin, hmin⟩ := foldl_closerOf x xs
      obtain ⟨hc, hs⟩ := (hmem _).mp hin
      exact ⟨_, hc, hs, rfl, rfl, fun d hd hds => hmin d ((hmem d).mpr ⟨hd, hds⟩)⟩

/-- Only one candidate is picked. -/
theorem next?_inj {s₁ s₂ : Session} (h₁ : s.next? = some (c, s₁)) (h₂ : s.next? = some (d, s₂)) :
    c = d ∧ s₁ = s₂ := by
  simpa [h₁] using h₂

/-- To pick somebody adds and drops nobody. -/
theorem frame_next? (h : s.next? = some (c, s')) :
    s'.peers = s.peers ∧ s'.ids = s.ids ∧ s'.capacity = s.capacity := by
  obtain ⟨e, _, _, _, rfl, _⟩ := of_next? h
  simp

/-! ## Well-formed sessions -/

/-- No id twice, every candidate at its distance from the key, and no more of
them than the capacity allows. -/
structure WellFormed (s : Session) (key : Id) : Prop where
  nodup : s.ids.Nodup
  measured : ∀ c ∈ s.candidates, c.peer.id.length = key.length ∧ c.distance = c.peer.id.xor key
  bounded : ∀ k, s.capacity = some k → s.candidates.length ≤ k

namespace WellFormed

theorem empty (capacity : Option Nat) (key : Id) : WellFormed ⟨capacity, []⟩ key where
  nodup := List.nodup_nil
  measured := by simp
  bounded := fun k _ => Nat.zero_le k

theorem gap_eq (h : s.WellFormed key) (hc : c ∈ s.candidates) :
    c.distance.toNat = key.gap c.peer.id := by
  rw [(h.measured c hc).2, Id.toNat_xor]

theorem offer (h : s.WellFormed key) (hl : c.peer.id.length = key.length)
    (hd : c.distance = c.peer.id.xor key) : (s.offer c).2.WellFormed key := by
  have hmeasured : ∀ d ∈ (s.offer c).2.candidates,
      d.peer.id.length = key.length ∧ d.distance = d.peer.id.xor key := by
    intro d hdc
    rcases mem_candidates_offer hdc with rfl | hdc
    · exact ⟨hl, hd⟩
    · exact h.measured d hdc
  have hoff := offering s c
  generalize s.offer c = result at hoff hmeasured ⊢
  cases hoff with
  | known => exact h
  | refused => exact h
  | joined hid hroom =>
      refine ⟨?_, hmeasured, ?_⟩
      · rw [ids, List.map_append, List.map_singleton, List.nodup_append]
        refine ⟨h.nodup, List.nodup_singleton _, ?_⟩
        intro a ha b hb hab
        rw [List.mem_singleton] at hb
        rw [hab, hb] at ha
        exact hid ha
      · intro k hk
        have hlt : s.candidates.length < k := by
          rw [hasRoom, show s.capacity = some k from hk] at hroom
          simpa using hroom
        rw [List.length_append, List.length_singleton]
        exact hlt
  | exchanged far hid hroom hmem =>
      refine ⟨?_, hmeasured, ?_⟩
      · rw [(ids_replace_perm h.nodup hmem).nodup_iff]
        exact List.nodup_cons.mpr ⟨fun hin => hid (List.mem_of_mem_erase hin), h.nodup.erase _⟩
      · intro k hk
        rw [replace, List.length_map]
        exact h.bounded k hk

theorem markSearched (h : s.WellFormed key) (id : Id) : (s.markSearched id).WellFormed key where
  nodup := by rw [ids_markSearched]; exact h.nodup
  measured := by
    intro d hd
    rcases mem_markSearched hd with ⟨hd, _⟩ | ⟨c, hc, _, rfl⟩
    · exact h.measured d hd
    · exact h.measured c hc
  bounded := by
    intro k hk
    rw [Session.markSearched, List.length_map]
    exact h.bounded k hk

/-- Fresh candidates for the key keep a session well formed. -/
theorem merge (h : s.WellFormed key) {peers : List Peer}
    (hl : ∀ p ∈ peers, p.id.length = key.length) :
    (s.merge (peers.map (Candidate.fresh key))).2.WellFormed key := by
  refine merge_induction (motive := fun t => t.WellFormed key) h ?_
  intro t c hc ht
  obtain ⟨p, hp, rfl⟩ := List.mem_map.mp hc
  exact ht.offer (hl p hp) rfl

end WellFormed

/-- There are no more candidates than ids of the key's length. -/
theorem WellFormed.length_ids_le (h : s.WellFormed key) : s.ids.length ≤ 256 ^ key.length := by
  refine Id.length_le_of_nodup h.nodup fun id hid => ?_
  obtain ⟨c, hc, rfl⟩ := mem_ids.mp hid
  exact (h.measured c hc).1

/-! ## Candidates that stay -/

theorem offer_ne_nil (h : s.candidates ≠ []) (c : Candidate) : (s.offer c).2.candidates ≠ [] := by
  have hoff := offering s c
  generalize s.offer c = result at hoff ⊢
  cases hoff with
  | known => exact h
  | refused => exact h
  | joined => simp
  | exchanged => simpa [replace] using h

theorem merge_ne_nil (h : s.candidates ≠ []) (cs : List Candidate) :
    (s.merge cs).2.candidates ≠ [] :=
  merge_induction (motive := fun t => t.candidates ≠ []) h fun _ c _ ht => offer_ne_nil ht c

theorem markSearched_ne_nil (h : s.candidates ≠ []) (id : Id) :
    (s.markSearched id).candidates ≠ [] := by
  simpa [markSearched] using h

/-! ## Bounded sessions -/

/-- A session of at most `k` candidates that holds the nearest of the ids that
it was offered. -/
structure Keeps (s : Session) (key : Id) (k : Nat) (offered : List Id) : Prop where
  capacity_eq : s.capacity = some k
  wellFormed : s.WellFormed key
  nearest : Nearest key k offered s.ids

namespace Keeps

variable {offered : List Id}

theorem empty (key : Id) (k : Nat) : (bounded k).Keeps key k [] where
  capacity_eq := rfl
  wellFormed := WellFormed.empty _ key
  nearest := Nearest.nil key k

/-- Without room there are as many candidates as there may be. -/
theorem length_of_full (h : s.Keeps key k offered) (hroom : s.hasRoom = false) :
    s.ids.length = k := by
  have hle := h.nearest.length_le
  rw [hasRoom, h.capacity_eq] at hroom
  have hge : ¬ s.candidates.length < k := by simpa using hroom
  rw [ids, List.length_map] at hle ⊢
  omega

theorem room (h : s.Keeps key k offered) (hroom : s.hasRoom = true) : s.ids.length < k := by
  rw [hasRoom, h.capacity_eq] at hroom
  rw [ids, List.length_map]
  simpa using hroom

theorem offer (h : s.Keeps key k offered) (hl : c.peer.id.length = key.length)
    (hd : c.distance = c.peer.id.xor key) :
    (s.offer c).2.Keeps key k (c.peer.id :: offered) := by
  have hcap := (capacity_offer s c).trans h.capacity_eq
  have hwf := h.wellFormed.offer hl hd
  have hgap : c.distance.toNat = key.gap c.peer.id := by rw [hd, Id.toNat_xor]
  have hoff := offering s c
  generalize s.offer c = result at hoff hcap hwf ⊢
  cases hoff with
  | known hid => exact ⟨hcap, hwf, h.nearest.again (h.nearest.subset hid)⟩
  | joined hid hroom =>
      have hn := h.nearest.add hl hid (h.room hroom)
      refine ⟨hcap, hwf, hn.perm ?_⟩
      simp only [ids, List.map_append, List.map_singleton]
      exact (List.perm_append_singleton _ _).symm
  | refused hid hroom hfar =>
      refine ⟨hcap, hwf, h.nearest.reject hl (h.length_of_full hroom) ?_⟩
      intro b hb _
      obtain ⟨d, hdc, rfl⟩ := mem_ids.mp hb
      rw [← h.wellFormed.gap_eq hdc, ← hgap]
      exact hfar d hdc
  | exchanged far hid hroom hmem hfar hlt =>
      rw [hgap, h.wellFormed.gap_eq hmem] at hlt
      have hmax : ∀ b ∈ s.ids, key.gap b ≤ key.gap far.peer.id := by
        intro b hb
        obtain ⟨d, hdc, rfl⟩ := mem_ids.mp hb
        rw [← h.wellFormed.gap_eq hdc, ← h.wellFormed.gap_eq hmem]
        exact hfar d hdc
      have hn := h.nearest.replace hl hid (h.length_of_full hroom) (mem_ids_of_mem hmem) hmax hlt
      exact ⟨hcap, hwf, hn.perm (ids_replace_perm h.wellFormed.nodup hmem).symm⟩

theorem mergeAll (h : s.Keeps key k offered)
    (hcs : ∀ c ∈ cs, c.peer.id.length = key.length ∧ c.distance = c.peer.id.xor key) :
    (s.merge cs).2.Keeps key k (cs.map (·.peer.id) ++ offered) := by
  induction cs generalizing s offered with
  | nil =>
      rw [List.map_nil, merge_nil]
      exact h
  | cons c cs ih =>
      rw [merge_cons]
      obtain ⟨hl, hd⟩ := hcs c List.mem_cons_self
      obtain ⟨hcap, hwf, hn⟩ := ih (h.offer hl hd) fun d hd => hcs d (List.mem_cons_of_mem c hd)
      refine ⟨hcap, hwf, hn.congr fun b => ?_⟩
      simp only [List.map_cons, List.cons_append, List.mem_cons, List.mem_append]
      tauto

theorem merge (h : s.Keeps key k offered) {peers : List Peer}
    (hl : ∀ p ∈ peers, p.id.length = key.length) :
    (s.merge (peers.map (Candidate.fresh key))).2.Keeps key k (peers.map (·.id) ++ offered) := by
  have hfresh : ∀ c ∈ peers.map (Candidate.fresh key),
      c.peer.id.length = key.length ∧ c.distance = c.peer.id.xor key := by
    intro c hc
    obtain ⟨p, hp, rfl⟩ := List.mem_map.mp hc
    exact ⟨hl p hp, rfl⟩
  have hmerged := h.mergeAll hfresh
  rwa [List.map_map] at hmerged

theorem markSearched (h : s.Keeps key k offered) (id : Id) :
    (s.markSearched id).Keeps key k offered where
  capacity_eq := h.capacity_eq
  wellFormed := h.wellFormed.markSearched id
  nearest := by rw [ids_markSearched]; exact h.nearest

/-- Whoever was offered before is not taken again. -/
theorem offer_again (h : s.Keeps key k offered) (hc : c.peer.id ∈ offered)
    (hd : c.distance = c.peer.id.xor key) : s.offer c = (false, s) := by
  have hgap : c.distance.toNat = key.gap c.peer.id := by rw [hd, Id.toNat_xor]
  have hoff := offering s c
  generalize s.offer c = result at hoff ⊢
  cases hoff with
  | known => rfl
  | refused => rfl
  | joined hid hroom =>
      have hlen := (h.nearest.left_out _ hc hid).1
      have hlt := h.room hroom
      omega
  | exchanged far hid hroom hmem hfar hlt =>
      have hfarther := (h.nearest.left_out _ hc hid).2 _ (mem_ids_of_mem hmem)
      rw [hgap, h.wellFormed.gap_eq hmem] at hlt
      omega

/-- Nor is anybody, if all were offered before. -/
theorem merge_again (h : s.Keeps key k offered) {peers : List Peer}
    (hc : ∀ p ∈ peers, p.id ∈ offered) :
    s.merge (peers.map (Candidate.fresh key)) = (0, s) := by
  refine merge_of_offers fun c hcs => ?_
  obtain ⟨p, hp, rfl⟩ := List.mem_map.mp hcs
  exact h.offer_again (hc p hp) rfl

end Keeps

/-! ## Sessions without bound -/

theorem hasRoom_of_unbounded (hs : s.capacity = none) : s.hasRoom = true := by
  rw [hasRoom, hs]
  rfl

/-- Nobody leaves a session without bound. -/
theorem exists_merge_append (hs : s.capacity = none) (cs : List Candidate) :
    ∃ new, (s.merge cs).2.candidates = s.candidates ++ new ∧ ∀ c ∈ new, c ∈ cs := by
  induction cs generalizing s with
  | nil => exact ⟨[], by rw [merge_nil, List.append_nil], by simp⟩
  | cons c cs ih =>
      rw [merge_cons]
      obtain ⟨new, hnew, hsub⟩ := ih ((capacity_offer s c).trans hs)
      have hoff := offering s c
      generalize s.offer c = result at hoff hnew ⊢
      cases hoff with
      | known => exact ⟨new, hnew, fun d hd => List.mem_cons_of_mem c (hsub d hd)⟩
      | joined =>
          refine ⟨c :: new, by rw [hnew]; simp, ?_⟩
          intro d hd
          rcases List.mem_cons.mp hd with rfl | hd
          · exact List.mem_cons_self
          · exact List.mem_cons_of_mem c (hsub d hd)
      | refused _ hroom => rw [hasRoom_of_unbounded hs] at hroom; contradiction
      | exchanged _ _ hroom => rw [hasRoom_of_unbounded hs] at hroom; contradiction

theorem ids_subset_merge (hs : s.capacity = none) (cs : List Candidate) :
    s.ids ⊆ (s.merge cs).2.ids := by
  obtain ⟨new, hnew, _⟩ := exists_merge_append hs cs
  rw [ids, ids, hnew, List.map_append]
  exact List.subset_append_left _ _

/-- Everybody that is offered to a session without bound is in it afterwards. -/
theorem mem_ids_merge (hs : s.capacity = none) (hc : c ∈ cs) : c.peer.id ∈ (s.merge cs).2.ids := by
  induction cs generalizing s with
  | nil => exact absurd hc List.not_mem_nil
  | cons e es ih =>
      rw [merge_cons]
      have hcap := (capacity_offer s e).trans hs
      rcases List.mem_cons.mp hc with rfl | hc
      · obtain ⟨new, hnew, _⟩ := exists_merge_append hcap es
        rw [ids, hnew, List.map_append]
        refine List.mem_append_left _ ?_
        have hoff := offering s c
        generalize s.offer c = result at hoff ⊢
        cases hoff with
        | known hid => exact hid
        | joined => simp
        | refused _ hroom => rw [hasRoom_of_unbounded hs] at hroom; contradiction
        | exchanged _ _ hroom => rw [hasRoom_of_unbounded hs] at hroom; contradiction
      · exact ih hcap hc

/-- A session without bound takes the first peer of every id that is new to it. -/
theorem mem_peers_merge (hs : s.capacity = none) {peers : List Peer} {p : Peer} :
    p ∈ (s.merge (peers.map (Candidate.fresh key))).2.peers ↔
      p ∈ s.peers ∨ p.id ∉ s.ids ∧ peers.find? (·.id == p.id) = some p := by
  induction peers generalizing s with
  | nil => simp [merge_nil]
  | cons q qs ih =>
      rw [List.map_cons, merge_cons, ih ((capacity_offer s _).trans hs), List.find?_cons]
      have hoff := offering s (Candidate.fresh key q)
      generalize s.offer (Candidate.fresh key q) = result at hoff ⊢
      cases hoff with
      | known hid =>
          by_cases hq : q.id = p.id
          · have hp : p.id ∈ s.ids := hq ▸ hid
            simp [hp]
          · rw [beq_eq_false_iff_ne.mpr hq]
      | joined hid =>
          have hpeers : ({ s with candidates := s.candidates ++ [Candidate.fresh key q] } :
              Session).peers = s.peers ++ [q] := by
            simp [Session.peers, Candidate.fresh]
          have hids : ({ s with candidates := s.candidates ++ [Candidate.fresh key q] } :
              Session).ids = s.ids ++ [q.id] := by
            simp [ids, Candidate.fresh]
          rw [hpeers, hids, List.mem_append, List.mem_append, List.mem_singleton,
            List.mem_singleton, or_assoc]
          by_cases hq : q.id = p.id
          · have hp : p.id ∉ s.ids := hq ▸ hid
            simp [hq, hp, eq_comm]
          · have hne : p ≠ q := fun heq => hq (congrArg Peer.id heq).symm
            rw [beq_eq_false_iff_ne.mpr hq]
            simp [hne, Ne.symm hq]
      | refused _ hroom => rw [hasRoom_of_unbounded hs] at hroom; contradiction
      | exchanged _ _ hroom => rw [hasRoom_of_unbounded hs] at hroom; contradiction

/-! ## How many were picked -/

/-- The number of candidates that were picked. -/
def searchedCount (s : Session) : Nat := s.candidates.countP (·.searched)

theorem searchedCount_le (s : Session) : s.searchedCount ≤ s.ids.length := by
  rw [ids, List.length_map]
  exact List.countP_le_length

theorem searchedCount_merge (hs : s.capacity = none) (cs : List Candidate) :
    s.searchedCount ≤ (s.merge cs).2.searchedCount := by
  obtain ⟨new, hnew, _⟩ := exists_merge_append hs cs
  rw [searchedCount, searchedCount, hnew, List.countP_append]
  exact Nat.le_add_right _ _

/-- To pick somebody is progress. -/
theorem searchedCount_markSearched (hc : c ∈ s.candidates) (hs : c.searched = false) :
    s.searchedCount < (s.markSearched c.peer.id).searchedCount := by
  obtain ⟨front, back, hsplit⟩ := List.append_of_mem hc
  have hmono : ∀ es : List Candidate, es.countP (·.searched) ≤
      (es.map fun e => if e.peer.id = c.peer.id then { e with searched := true } else e).countP
        (·.searched) := by
    intro es
    rw [List.countP_map]
    refine List.countP_mono_left fun e _ he => ?_
    rw [Function.comp_apply]
    split
    · rfl
    · exact he
  have hfront := hmono front
  have hback := hmono back
  rw [searchedCount, searchedCount, markSearched, hsplit, List.map_append, List.map_cons,
    if_pos rfl, List.countP_append, List.countP_append,
    List.countP_cons_of_neg (a := c) (by simp [hs]), List.countP_cons_of_pos (by rfl)]
  omega

end Session
end Kademlia
