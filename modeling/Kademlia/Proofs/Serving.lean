import Kademlia.Lookup
import Kademlia.Proofs.Candidates
import Kademlia.Proofs.Closest

/-!
# Kademlia.Proofs.Serving

What the server of a node with a routing table does with a request, and with
the peers that a search comes upon.  All that ever happens to its table on the
way is `RoutingTable.meet`.
-/

namespace Kademlia

namespace Server

variable {S : Type} {srv : Server RoutingTable S} {key : Id} {peer : Peer} {peers : List Peer}

/-! ## Meeting peers -/

/-- The server after its node met a peer. -/
def meet (srv : Server RoutingTable S) (peer : Peer) : Server RoutingTable S :=
  { srv with peers := srv.peers.meet peer }

/-- The server after its node met peers one after the other. -/
def meetAll (srv : Server RoutingTable S) (peers : List Peer) : Server RoutingTable S :=
  peers.foldl meet srv

@[simp] theorem id_meet (srv : Server RoutingTable S) (peer : Peer) :
    (srv.meet peer).id = srv.id := RoutingTable.localId_meet srv.peers peer

/-- What every meeting keeps up, meeting several peers does. -/
theorem meetAll_induction {motive : Server RoutingTable S → Prop} (h : motive srv)
    (hstep : ∀ srv, ∀ p ∈ peers, motive srv → motive (srv.meet p)) :
    motive (srv.meetAll peers) := by
  rw [meetAll]
  induction peers generalizing srv with
  | nil => exact h
  | cons p ps ih =>
      rw [List.foldl_cons]
      exact ih (hstep srv p List.mem_cons_self h)
        fun srv q hq => hstep srv q (List.mem_cons_of_mem p hq)

@[simp] theorem values_meetAll (srv : Server RoutingTable S) (peers : List Peer) :
    (srv.meetAll peers).values = srv.values :=
  meetAll_induction (motive := fun srv' => srv'.values = srv.values) rfl fun _ _ _ h => h

@[simp] theorem id_meetAll (srv : Server RoutingTable S) (peers : List Peer) :
    (srv.meetAll peers).id = srv.id :=
  meetAll_induction (motive := fun srv' => srv'.id = srv.id) rfl
    fun srv p _ h => (id_meet srv p).trans h

theorem mem_meetAll_of_mem {p : Peer} (hp : p ∈ srv.peers.peers) :
    p ∈ (srv.meetAll peers).peers.peers :=
  meetAll_induction (motive := fun srv' => p ∈ srv'.peers.peers) hp
    fun _ _ _ h => RoutingTable.mem_meet_of_mem h

/-- Who is known afterwards was known before or was met. -/
theorem mem_or_mem_of_mem_meetAll {p : Peer} (hp : p ∈ (srv.meetAll peers).peers.peers) :
    p ∈ srv.peers.peers ∨ p ∈ peers := by
  have hall : ∀ p ∈ (srv.meetAll peers).peers.peers, p ∈ srv.peers.peers ∨ p ∈ peers := by
    refine meetAll_induction
      (motive := fun srv' => ∀ p ∈ srv'.peers.peers, p ∈ srv.peers.peers ∨ p ∈ peers)
      (fun p hp => .inl hp) ?_
    intro srv' q hq h p hp
    rcases RoutingTable.mem_or_eq_of_mem_meet hp with hp | rfl
    · exact h p hp
    · exact .inr hq
  exact hall p hp

@[simp] theorem bucketSize_meetAll (srv : Server RoutingTable S) (peers : List Peer) :
    (srv.meetAll peers).peers.bucketSize = srv.peers.bucketSize :=
  meetAll_induction (motive := fun srv' => srv'.peers.bucketSize = srv.peers.bucketSize) rfl
    fun srv p _ h => (RoutingTable.bucketSize_meet srv.peers p).trans h

theorem wellFormed_meetAll (h : srv.peers.WellFormed) : (srv.meetAll peers).peers.WellFormed :=
  meetAll_induction (motive := fun srv' => srv'.peers.WellFormed) h fun _ p _ hwf => hwf.meet p

/-! ## Answering requests -/

/-- The server after a request of somebody, or of its own node. -/
def greet (srv : Server RoutingTable S) : (requester : Option Peer) → Server RoutingTable S
  | none => srv
  | some peer => srv.meet peer

@[simp] theorem id_greet (srv : Server RoutingTable S) (requester : Option Peer) :
    (srv.greet requester).id = srv.id := by
  cases requester with
  | none => rfl
  | some peer => exact id_meet srv peer

@[simp] theorem values_greet (srv : Server RoutingTable S) (requester : Option Peer) :
    (srv.greet requester).values = srv.values := by
  cases requester <;> rfl

/-- A request is of the same overlay if its key and its sender are. -/
def Matches (srv : Server RoutingTable S) (requester : Option Peer) (key : Id) : Prop :=
  key.length = srv.id.length ∧ ∀ p ∈ requester, p.id.length = srv.id.length

theorem accept_eq {requester : Option Peer} (h : srv.Matches requester key) :
    srv.accept requester key = .ok (srv.greet requester) := by
  obtain ⟨hk, hp⟩ := h
  unfold accept
  rw [if_neg (not_not.mpr hk)]
  cases requester with
  | none => rfl
  | some peer =>
      show srv.remember peer = .ok (srv.meet peer)
      rw [remember, meet]
      rcases RoutingTable.add_of_length_eq (hp peer rfl) with ⟨t, ht⟩ | ht
      · have hadd : PeerStore.add srv.peers peer = .ok t := ht
        rw [hadd, RoutingTable.meet_of_add ht]
      · have hadd : PeerStore.add srv.peers peer = .error .noSpace := ht
        rw [hadd, RoutingTable.meet_of_error ht]

theorem accept_of_not_matches {requester : Option Peer} (h : ¬ srv.Matches requester key) :
    srv.accept requester key = .error .invalidRequest := by
  unfold accept
  by_cases hk : key.length = srv.id.length
  · rw [if_neg (not_not.mpr hk)]
    cases requester with
    | none => exact absurd ⟨hk, by simp⟩ h
    | some peer =>
        have hp : peer.id.length ≠ srv.peers.localId.length := fun hp =>
          h ⟨hk, fun p hmem => by obtain rfl := Option.mem_some.mp hmem; exact hp⟩
        have hadd : PeerStore.add srv.peers peer =
            .error (.id (.lengthMismatch srv.peers.localId.length peer.id.length)) := by
          have hadd' := RoutingTable.addition srv.peers peer
          show srv.peers.add peer = _
          generalize srv.peers.add peer = result at hadd' ⊢
          cases hadd' with
          | foreign => rfl
          | self hid => exact absurd (congrArg Id.length hid) hp
          | known i hi => exact absurd (RoutingTable.of_bucketIndex? hi).1 hp
          | full i hi => exact absurd (RoutingTable.of_bucketIndex? hi).1 hp
          | new i hi => exact absurd (RoutingTable.of_bucketIndex? hi).1 hp
        show srv.remember peer = _
        rw [remember, hadd]
  · rw [if_pos hk]

section

variable [Storage S]

theorem handleGet_eq {requester : Option Peer} {k : UInt64} (h : srv.Matches requester key) :
    handleGet requester ⟨key, k⟩ srv =
      ((srv.greet requester).lookUp ⟨key, k⟩, srv.greet requester) := by
  rw [handleGet, accept_eq h]

theorem handleGet_of_not_matches {requester : Option Peer} {k : UInt64}
    (h : ¬ srv.Matches requester key) :
    handleGet requester ⟨key, k⟩ srv = (.error .invalidRequest, srv) := by
  rw [handleGet, accept_of_not_matches h]

theorem handleStore_of_ok {requester : Option Peer} {value : Bytes} {values : S}
    (h : srv.Matches requester key)
    (hset : Storage.set (srv.greet requester).values key.bytes value = .ok values) :
    handleStore requester ⟨key, value⟩ srv =
      (.ok ⟨(srv.greet requester).id⟩, { srv.greet requester with values }) := by
  rw [handleStore, accept_eq h]
  simp only [hset]

theorem handleStore_of_error {requester : Option Peer} {value : Bytes} {e : StorageError}
    (h : srv.Matches requester key)
    (hset : Storage.set (srv.greet requester).values key.bytes value = .error e) :
    handleStore requester ⟨key, value⟩ srv =
      (.error .internalServerError, srv.greet requester) := by
  rw [handleStore, accept_eq h]
  simp only [hset]

end

/-- A question makes nobody known but the one that asks. -/
theorem mem_handleGet [Storage S] {requester : Option Peer} {request : GetRequest} {p : Peer}
    (hp : p ∈ (handleGet requester request srv).2.peers.peers) :
    p ∈ srv.peers.peers ∨ requester = some p := by
  by_cases h : srv.Matches requester request.key
  · rw [handleGet_eq h] at hp
    cases requester with
    | none => exact .inl hp
    | some q =>
        rcases RoutingTable.mem_or_eq_of_mem_meet hp with hold | rfl
        · exact .inl hold
        · exact .inr rfl
  · rw [handleGet_of_not_matches h] at hp
    exact .inl hp

/-! ## Looking up -/

section

variable {srv : Server RoutingTable MemoryStorage} {k : UInt64}

/-- A value that is kept is given out. -/
theorem lookUp_of_value {value : Bytes} (h : srv.values.get? key.bytes = some value) :
    srv.lookUp ⟨key, k⟩ = .ok ⟨srv.id, some value, []⟩ := by
  have hget : Storage.get srv.values key.bytes = .ok (some value) := congrArg Except.ok h
  rw [lookUp, hget]

/-- In place of a value that is not kept come the closest peers of the table. -/
theorem lookUp_of_closest {found : List (Peer × Distance)}
    (hfound : srv.peers.closest key k.toNat = .ok found)
    (h : srv.values.get? key.bytes = none) :
    srv.lookUp ⟨key, k⟩ = .ok ⟨srv.id, none, found.map (·.1)⟩ := by
  have hget : Storage.get srv.values key.bytes = .ok none := congrArg Except.ok h
  have hclosest : PeerStore.closest srv.peers key k.toNat = .ok found := by
    show Error.liftId (srv.peers.closest key k.toNat) = _
    rw [hfound]
    rfl
  rw [lookUp, hget]
  simp only [hclosest]

/-- They are the nearest of the known peers. -/
theorem exists_lookUp (hwf : srv.peers.WellFormed) (hk : key.length = srv.id.length)
    (h : srv.values.get? key.bytes = none) :
    ∃ nodes, srv.lookUp ⟨key, k⟩ = .ok ⟨srv.id, none, nodes⟩ ∧
      (∀ p ∈ nodes, p ∈ srv.peers.peers) ∧
      Nearest key k.toNat (srv.peers.peers.map (·.id)) (nodes.map (·.id)) := by
  obtain ⟨found, hfound, _, hmem, hn⟩ := RoutingTable.exists_closest hwf hk k.toNat
  refine ⟨found.map (·.1), lookUp_of_closest hfound h, ?_, ?_⟩
  · intro p hp
    obtain ⟨e, he, rfl⟩ := List.mem_map.mp hp
    exact (hmem e he).1
  · rw [List.map_map]
    exact hn

/-- Who is named is known. -/
theorem mem_of_lookUp (hwf : srv.peers.WellFormed) (hk : key.length = srv.id.length)
    {reply : GetReply} (h : srv.lookUp ⟨key, k⟩ = .ok reply) :
    ∀ p ∈ reply.nodes, p ∈ srv.peers.peers := by
  cases hv : srv.values.get? key.bytes with
  | some value =>
      obtain rfl := Except.ok.inj ((lookUp_of_value hv).symm.trans h)
      simp
  | none =>
      obtain ⟨nodes, hlook, hmem, _⟩ := exists_lookUp hwf hk hv
      obtain rfl := Except.ok.inj (hlook.symm.trans h)
      exact hmem

theorem mem_of_handleGet {requester : Option Peer} (hwf : srv.peers.WellFormed) {reply : GetReply}
    (h : (handleGet requester ⟨key, k⟩ srv).1 = .ok reply) :
    ∀ p ∈ reply.nodes, p ∈ (handleGet requester ⟨key, k⟩ srv).2.peers.peers := by
  by_cases hm : srv.Matches requester key
  · rw [handleGet_eq hm] at h ⊢
    cases requester with
    | none => exact mem_of_lookUp hwf hm.1 h
    | some q =>
        have hk : key.length = (srv.meet q).id.length :=
          hm.1.trans (congrArg Id.length (id_meet srv q).symm)
        exact mem_of_lookUp (hwf.meet q) hk h
  · rw [handleGet_of_not_matches hm] at h
    contradiction

end

/-! ## Candidates -/

theorem distance_eq (hl : peer.id.length = key.length) :
    PeerStore.distance srv.peers peer.id key = .ok (peer.id.xor key) := by
  show Error.liftId (peer.id.distance key) = _
  rw [Id.distance_of_length_eq hl]
  rfl

theorem distance_of_length_ne (hl : peer.id.length ≠ key.length) :
    PeerStore.distance srv.peers peer.id key =
      .error (.id (.lengthMismatch peer.id.length key.length)) := by
  show Error.liftId (peer.id.distance key) = _
  rw [Id.distance_of_length_ne hl]
  rfl

theorem candidates_cons (hl : peer.id.length = key.length) (peers : List Peer) :
    srv.candidates key (peer :: peers) =
      (srv.candidates key peers).map (Candidate.fresh key peer :: ·) := by
  rw [candidates, List.mapM_cons, distance_eq hl]
  rfl

theorem candidates_cons_of_length_ne (hl : peer.id.length ≠ key.length) (peers : List Peer) :
    srv.candidates key (peer :: peers) =
      .error (.id (.lengthMismatch peer.id.length key.length)) := by
  rw [candidates, List.mapM_cons, distance_of_length_ne hl]
  rfl

theorem candidates_eq (hl : ∀ p ∈ peers, p.id.length = key.length) :
    srv.candidates key peers = .ok (peers.map (Candidate.fresh key)) := by
  induction peers with
  | nil => rfl
  | cons p ps ih =>
      rw [candidates_cons (hl p List.mem_cons_self)]
      rw [ih fun q hq => hl q (List.mem_cons_of_mem p hq)]
      rfl

/-- If peers could be measured, their ids have the length of the key. -/
theorem length_eq_of_candidates {cs : List Candidate} (h : srv.candidates key peers = .ok cs) :
    ∀ p ∈ peers, p.id.length = key.length := by
  induction peers generalizing cs with
  | nil => simp
  | cons p ps ih =>
      by_cases hp : p.id.length = key.length
      · rw [candidates_cons hp] at h
        cases hrest : srv.candidates key ps with
        | error e =>
            rw [hrest] at h
            contradiction
        | ok cs' =>
            intro q hq
            rcases List.mem_cons.mp hq with rfl | hq
            · exact hp
            · exact ih hrest q hq
      · rw [candidates_cons_of_length_ne hp] at h
        contradiction

/-- Peers that could not be measured are of another overlay. -/
theorem candidates_error {e : Error} (h : srv.candidates key peers = .error e) :
    ∃ cause, e = .id cause := by
  induction peers with
  | nil => contradiction
  | cons p ps ih =>
      by_cases hp : p.id.length = key.length
      · rw [candidates_cons hp] at h
        cases hrest : srv.candidates key ps with
        | error e' =>
            rw [hrest] at h
            obtain rfl : e' = e := Except.error.inj h
            exact ih hrest
        | ok cs' =>
            rw [hrest] at h
            contradiction
      · rw [candidates_cons_of_length_ne hp] at h
        exact ⟨_, (Except.error.inj h).symm⟩

/-- Whoever is learned of is met and becomes a candidate. -/
theorem learn_eq (hk : key.length = srv.id.length) (hl : ∀ p ∈ peers, p.id.length = key.length) :
    learn key peers srv = (.ok (peers.map (Candidate.fresh key)), srv.meetAll peers) := by
  induction peers generalizing srv with
  | nil => rfl
  | cons p ps ih =>
      have hp := hl p List.mem_cons_self
      have hrest : learn key ps (srv.meet p) = _ := ih (by rw [id_meet]; exact hk)
        fun q hq => hl q (List.mem_cons_of_mem p hq)
      have hdist : PeerStore.distance (srv.meet p).peers p.id key = _ := distance_eq hp
      rw [meet] at hrest hdist
      rw [learn]
      rcases RoutingTable.add_of_length_eq (hp.trans hk) with ⟨t, ht⟩ | ht
      · have hadd : PeerStore.add srv.peers p = .ok t := ht
        rw [RoutingTable.meet_of_add ht] at hrest hdist
        simp only [hadd, hdist, hrest]
        rw [meetAll, meetAll, List.foldl_cons, meet, RoutingTable.meet_of_add ht]
        rfl
      · have hadd : PeerStore.add srv.peers p = .error .noSpace := ht
        rw [RoutingTable.meet_of_error ht] at hrest hdist
        simp only [hadd, hdist, hrest]
        rw [meetAll, meetAll, List.foldl_cons, meet, RoutingTable.meet_of_error ht]
        rfl

/-! ## Forgetting peers -/

variable {errors : List PeerError}

@[simp] theorem evict_nil (srv : Server RoutingTable S) : srv.evict [] = srv := rfl

theorem evict_cons {P : Type} [PeerStore P] (srv : Server P S) (e : PeerError)
    (errors : List PeerError) : srv.evict (e :: errors) = (srv.evict [e]).evict errors := rfl

@[simp] theorem values_evict {P : Type} [PeerStore P] (srv : Server P S) (errors : List PeerError) :
    (srv.evict errors).values = srv.values := by
  induction errors generalizing srv with
  | nil => rfl
  | cons e es ih =>
      rw [evict_cons, ih, evict, List.foldl_cons, List.foldl_nil]
      split <;> rfl

@[simp] theorem id_evict (srv : Server RoutingTable S) (errors : List PeerError) :
    (srv.evict errors).id = srv.id := by
  induction errors generalizing srv with
  | nil => rfl
  | cons e es ih =>
      rw [evict_cons, ih, evict, List.foldl_cons, List.foldl_nil]
      split
      next t ht => exact RoutingTable.localId_remove ht
      · rfl

end Server
end Kademlia
