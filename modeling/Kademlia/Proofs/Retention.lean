import Kademlia.Proofs.BestFirst

/-!
# Kademlia.Proofs.Retention

What a bounded session holds.  Whatever the workers of a lookup do to it, it
holds the nearest of the ids that they offered so far, and an offer that takes
nobody is one that leaves its ids as they are (`Session.HoldsExactly`).  A
search for storers therefore ends with the nearest of all peers that it has
heard of (`Node.draws_of_seek`).
-/

namespace Kademlia

/-! ## Any operations in any order -/

namespace Session

variable {s s' : Session} {c : Candidate} {cs : List Candidate} {key : Id} {k : Nat}
  {offered : List Id}

/-- What the workers of a lookup do to its bounded session. -/
inductive Operation where
  /-- They offer candidates, all at once. -/
  | offer (cs : List Candidate)
  /-- They pick the next candidate, if there is one. -/
  | next
  /-- They mark the candidate with this id, if there is one. -/
  | mark (id : Id)

namespace Operation

/-- The candidates that are offered. -/
def candidates : Operation → List Candidate
  | .offer cs => cs
  | .next | .mark _ => []

/-- The session after an operation. -/
def apply (s : Session) : Operation → Session
  | .offer cs => (s.addIfCloser cs).2
  | .next => (s.next?.map (·.2)).getD s
  | .mark id => s.markSearched id

end Operation

/-- The session after several operations. -/
def after (s : Session) (ops : List Operation) : Session := ops.foldl Operation.apply s

/-- The ids that operations offer. -/
def offeredIds (ops : List Operation) : List Id :=
  (ops.flatMap Operation.candidates).map (·.peer.id)

/-- The distance of a candidate is that of its id from the key. -/
def Measured (key : Id) (c : Candidate) : Prop := c.peer.id.distance key = .ok c.distance

theorem Keeps.addIfCloser (h : s.Keeps key k offered) (hcs : ∀ c ∈ cs, Measured key c) :
    (s.addIfCloser cs).2.Keeps key k (cs.map (·.peer.id) ++ offered) := by
  rw [← merge_eq]
  exact h.mergeAll fun c hc => Id.of_distance_eq_ok (hcs c hc)

/-- To pick somebody is to mark a candidate. -/
theorem Keeps.next? (h : s.Keeps key k offered) (hnext : s.next? = some (c, s')) :
    s'.Keeps key k offered := by
  obtain ⟨e, _, _, _, rfl, _⟩ := of_next? hnext
  exact h.markSearched e.peer.id

theorem Keeps.apply (h : s.Keeps key k offered) {op : Operation}
    (hop : ∀ c ∈ op.candidates, Measured key c) :
    (op.apply s).Keeps key k (op.candidates.map (·.peer.id) ++ offered) := by
  cases op with
  | offer cs => exact h.addIfCloser hop
  | next =>
      show ((s.next?.map (·.2)).getD s).Keeps key k offered
      cases hnext : s.next? with
      | none => exact h
      | some picked => exact h.next? hnext
  | mark id => exact h.markSearched id

/-- **A bounded session holds the nearest of all that it was offered**, in
whatever order and however often. -/
theorem Keeps.after (h : s.Keeps key k offered) {ops : List Operation}
    (hops : ∀ op ∈ ops, ∀ c ∈ op.candidates, Measured key c) :
    (s.after ops).Keeps key k (offeredIds ops ++ offered) := by
  induction ops generalizing s offered with
  | nil => exact h
  | cons op ops ih =>
      obtain ⟨hcap, hwf, hnearest⟩ := ih (h.apply (hops op List.mem_cons_self))
        fun op' hop' => hops op' (List.mem_cons_of_mem op hop')
      refine ⟨hcap, hwf, hnearest.congr fun id => ?_⟩
      simp only [offeredIds, List.flatMap_cons, List.map_append, List.mem_append]
      tauto

/-- Its ids are exactly the `k` nearest of those that were offered, or all of
them if there are fewer, and the next offer takes nobody if and only if it
leaves them as they are. -/
structure HoldsExactly (s : Session) (key : Id) (k : Nat) (offered : List Id) : Prop where
  nodup : s.ids.Nodup
  nearest : Nearest key k offered s.ids
  length_eq : s.ids.length = min k offered.dedup.length
  taken_eq_zero_iff : ∀ cs, (∀ c ∈ cs, Measured key c) →
    ((s.addIfCloser cs).1 = 0 ↔ ∀ id, id ∈ (s.addIfCloser cs).2.ids ↔ id ∈ s.ids)

theorem Keeps.holdsExactly (h : s.Keeps key k offered) : s.HoldsExactly key k offered where
  nodup := h.wellFormed.nodup
  nearest := h.nearest
  length_eq := h.nearest.length_eq_min
  taken_eq_zero_iff := by
    intro cs hcs
    have hafter := h.addIfCloser hcs
    rw [← merge_eq] at hafter ⊢
    constructor
    · intro hzero
      simp [merge_of_taken_zero hzero]
    · intro hsame
      -- What leaves the ids as they are could as well have been offered before.
      have hperm : (s.merge cs).2.ids.Perm s.ids :=
        (List.perm_ext_iff_of_nodup hafter.wellFormed.nodup h.wellFormed.nodup).mpr hsame
      have hbefore : s.Keeps key k (cs.map (·.peer.id) ++ offered) :=
        ⟨h.capacity_eq, h.wellFormed, hafter.nearest.perm hperm⟩
      have hrefused : ∀ c ∈ cs, s.offer c = (false, s) := fun c hc =>
        hbefore.offer_again (List.mem_append_left _ (List.mem_map_of_mem hc))
          (Id.of_distance_eq_ok (hcs c hc)).2
      simp [merge_of_offers hrefused]

/-! ## Sessions of peers -/

/-- A session of at most `k` of these peers that holds the nearest of them. -/
structure Draws (s : Session) (key : Id) (k : Nat) (peers : List Peer) : Prop where
  keeps : s.Keeps key k (peers.map (·.id))
  subset : s.peers ⊆ peers

namespace Draws

variable {peers more : List Peer}

theorem empty (key : Id) (k : Nat) : (bounded k).Draws key k [] where
  keeps := Keeps.empty key k
  subset := by simp [bounded, Session.peers]

theorem merge (h : s.Draws key k peers) (hl : ∀ p ∈ more, p.id.length = key.length) :
    (s.merge (more.map (Candidate.fresh key))).2.Draws key k (peers ++ more) where
  keeps := by
    obtain ⟨hcap, hwf, hnearest⟩ := h.keeps.merge hl
    exact ⟨hcap, hwf, hnearest.congr fun id => by simp [or_comm]⟩
  subset := by
    intro p hp
    obtain ⟨c, hc, rfl⟩ := List.mem_map.mp hp
    cases mem_candidates_merge hc with
    | inl hnew =>
        obtain ⟨q, hq, rfl⟩ := List.mem_map.mp hnew
        exact List.mem_append_right _ hq
    | inr hold => exact List.mem_append_left _ (h.subset (List.mem_map_of_mem hold))

theorem markSearched (h : s.Draws key k peers) (id : Id) :
    (s.markSearched id).Draws key k peers where
  keeps := h.keeps.markSearched id
  subset := by simpa using h.subset

theorem next? (h : s.Draws key k peers) (hnext : s.next? = some (c, s')) :
    s'.Draws key k peers where
  keeps := h.keeps.next? hnext
  subset := by simpa [(frame_next? hnext).1] using h.subset

/-- The peers in it are the nearest. -/
theorem nearest (h : s.Draws key k peers) :
    Nearest key k (peers.map (·.id)) (s.peers.map (·.id)) := by
  have hids : s.peers.map (·.id) = s.ids := by simp [Session.peers, ids]
  rw [hids]
  exact h.keeps.nearest

end Draws

end Session

/-! ## Searches in a bounded session -/

namespace Lookup

variable {S σ : Type} {node : Node RoutingTable S σ} {l l' : Lookup} {s s' : σ}
  {session : Session} {candidate : Candidate} {home : Peer} {key : Id} {m : Nat}
  {found : List Peer} {cs : List Contact} {c : Contact}

/-- The peers that a search has heard of: those that the node found itself, and
those that accepted replies named. -/
def heard (key : Id) (found : List Peer) (cs : List Contact) : List Peer :=
  found ++ cs.flatMap (Contact.named key)

theorem heard_concat (key : Id) (found : List Peer) (cs : List Contact) (c : Contact) :
    heard key found (cs ++ [c]) = heard key found cs ++ c.named key := by
  simp [heard]

/-- A search under way after these contacts: its session holds the nearest of
the node and of all that it has heard of. -/
structure Gathered (node : Node RoutingTable S σ) (home : Peer) (key : Id) (m : Nat)
    (found : List Peer) (cs : List Contact) (l : Lookup) (s : σ) : Prop where
  tracked : l.Tracked node home.id key cs s
  draws : l.session.Draws key m (home :: heard key found cs)

namespace Gathered

variable [Storage S]

/-- A peer that fails names nobody. -/
theorem skip (h : Gathered node home key m found cs l s)
    (hnext : l.session.next? = some (candidate, session)) {e : RpcError}
    (hask : node.ask candidate.peer ⟨l.key, l.k⟩ s = (.error e, s')) :
    session.Draws key m (home :: heard key found (cs ++ [l.contact node candidate s])) := by
  rw [heard_concat, Contact.named_of_error (h.tracked.outcome_eq hnext hask), List.append_nil]
  exact h.draws.next? hnext

/-- The peers of a reply are offered to the session. -/
theorem take (h : Gathered node home key m found cs l s)
    (hnext : l.session.next? = some (candidate, session)) {reply : GetReply}
    (hask : node.ask candidate.peer ⟨l.key, l.k⟩ s = (.ok reply, s')) :
    (session.merge (reply.nodes.map (Candidate.fresh l.key))).2.Draws key m
      (home :: heard key found (cs ++ [l.contact node candidate s])) := by
  have hl : ∀ p ∈ reply.nodes, p.id.length = key.length := by
    rw [← h.tracked.key_eq]
    exact Node.length_eq_of_ask hask
  rw [heard_concat, Contact.named_of_ok (h.tracked.outcome_eq hnext hask), h.tracked.key_eq]
  exact (h.draws.next? hnext).merge hl

/-- With each step the search goes on, or ends with what it has gathered. -/
theorem step (hn : node.Lawful) (h : Gathered node home key m found cs l s)
    (hnext : l.session.next? = some (candidate, session)) {ending : Option Ending}
    (hending : ending = none ∨ ending = some .settled)
    (hstep : l.step node s = (ending, l', s')) :
    l'.session.Draws key m (home :: heard key found (cs ++ [l.contact node candidate s])) := by
  have hst := stepped hn h.tracked.sound
  rw [hstep] at hst
  cases hst with
  | exhausted hnone => simp [hnext] at hnone
  | skipped d session' e s' hnext' hask =>
      obtain ⟨rfl, rfl⟩ := Session.next?_inj hnext hnext'
      exact h.skip hnext hask
  | aborted => simp at hending
  | found => simp at hending
  | settled d session' reply s' hnext' hask _ _ htaken =>
      obtain ⟨rfl, rfl⟩ := Session.next?_inj hnext hnext'
      have htake := h.take hnext hask
      rwa [Session.merge_of_taken_zero htaken] at htake
  | widened d session' reply s' hnext' hask =>
      obtain ⟨rfl, rfl⟩ := Session.next?_inj hnext hnext'
      exact h.take hnext hask

/-- **A search that settles or has asked everybody holds the nearest of all
that it has heard of.** -/
theorem run (hn : node.Lawful) (h : Gathered node home key m found [] l s)
    (hending : (l.run node s).1 = .settled ∨ (l.run node s).1 = .exhausted) :
    (l.run node s).2.1.session.Draws key m
      (home :: heard key found (l.contacts node l.stepBound s)) := by
  refine h.tracked.history hn (Gathered node home key m found)
    (fun cs ending l _ => ending = .settled ∨ ending = .exhausted →
      l.session.Draws key m (home :: heard key found cs)) ?_ ?_ ?_ h hending
  · intro cs l s c session l' s' htracked h hnext hstep
    exact ⟨htracked.step hn hnext hstep, h.step hn hnext (.inl rfl) hstep⟩
  · intro cs l s c session e l' s' _ h hnext hstep hending
    have hst := stepped hn h.tracked.sound
    rw [hstep] at hst
    cases hst with
    | exhausted hnone => simp [hnext] at hnone
    | aborted => simp at hending
    | found => simp at hending
    | settled => exact h.step hn hnext (.inr rfl) hstep
  · intro cs l s _ h _ _
    exact h.draws

end Gathered

end Lookup

/-! ## Searches for storers -/

/-- Chosen are the `m` of several peers that are nearest to a key, or all of them
if there are fewer. -/
structure NearestOf (key : Id) (m : Nat) (peers chosen : List Peer) : Prop where
  subset : chosen ⊆ peers
  nearest : Nearest key m (peers.map (·.id)) (chosen.map (·.id))

/-- A server without a value names the closest of the peers that it knows. -/
theorem Server.exists_closest_of_lookUp {P S : Type} [PeerStore P] [Storage S] {srv : Server P S}
    {request : GetRequest} {responder : Id} {nodes : List Peer}
    (h : srv.lookUp request = .ok ⟨responder, none, nodes⟩) :
    ∃ found, PeerStore.closest srv.peers request.key request.k.toNat = .ok found ∧
      nodes = found.map (·.1) := by
  rw [lookUp] at h
  split at h
  · contradiction
  · simp at h
  · split at h
    · contradiction
    next found hfound =>
      simp only [Except.ok.injEq, GetReply.mk.injEq] at h
      exact ⟨found, hfound, h.2.2.symm⟩

namespace Node

section

variable {S σ : Type} {node : Node RoutingTable S σ} {key : Id} {k : UInt64} {s s' : σ}
  {nodes : List Peer} {m : Nat}

theorem draws_openingLookup (hself : (node.id s).length = key.length)
    (hl : ∀ p ∈ nodes, p.id.length = key.length) :
    (node.openingLookup (.bounded m) key k nodes s).session.Draws key m (node.self s :: nodes) := by
  have hown : ∀ p ∈ [node.self s], p.id.length = key.length := by simpa [self] using hself
  exact (((Session.Draws.empty key m).merge hown).markSearched (node.id s)).merge hl

variable [Storage S]

/-- **The storers that a search ends with are the nearest of the node, the
closest peers that it knew, and all that accepted replies named.** -/
theorem draws_of_seek (hn : node.Lawful) {l : Lookup} (h : node.seek key s = (.ok l, s')) :
    ∃ found, PeerStore.closest (node.server s).peers key node.config.peersReturnedSet.toNat =
        .ok found ∧
      l.session.Draws key node.config.maxStores (node.self s ::
        Lookup.heard key (found.map (·.1)) (node.contacts (.bounded node.config.maxStores) key
          node.config.peersReturnedSet s)) := by
  have hseek := seeking hn key s
  rw [h] at hseek
  cases hseek with
  | ended _ l₀ l ending s' hbegin hending hrun =>
      have htracked := (tracked_of_begin hn hbegin).2.2
      have hcontacts := contacts_of_lookup hbegin
      have hopening := beginning hn (.bounded node.config.maxStores) key
        node.config.peersReturnedSet s
      rw [hbegin] at hopening
      cases hopening with
      | lookup hl responder nodes hlook hnodes =>
          obtain ⟨found, hfound, rfl⟩ := Server.exists_closest_of_lookUp hlook
          have hgathered : Lookup.Gathered node (node.self s) key node.config.maxStores
              (found.map (·.1)) [] (node.openingLookup (.bounded node.config.maxStores) key
                node.config.peersReturnedSet (found.map (·.1)) s) s :=
            ⟨htracked, by simpa [Lookup.heard] using draws_openingLookup hl hnodes⟩
          have hdraws := hgathered.run hn (by rw [hrun]; exact hending)
          rw [hrun, ← hcontacts] at hdraws
          exact ⟨found, hfound, hdraws⟩

end

/-- Placing a value after a search for storers delivers to them. -/
theorem exists_replicas_of_seek {S τ : Type} [Storage S] {config : Config} {address : Address}
    {world : Transport τ} {key : Id} {s s' : Setting S τ} {l : Lookup}
    (h : (among config address world).seek key s = (.ok l, s')) (value : Bytes) :
    ∃ replicas,
      Delivered s ((among config address world).setValue key value s).2 ⟨key, value⟩ replicas ∧
      Accounted config l.session.peers replicas
        ((among config address world).setValue key value s).1 := by
  have hseek : Delivered s ((among config address world).seek key s).2 ⟨key, value⟩ [] :=
    seek_delivers_nothing key s
  obtain ⟨rfl, hsound, hcapacity⟩ := sound_of_seek (lawful_among config address world) h
  obtain ⟨replicas, hdelivered, haccounted⟩ := place_accounted hsound hcapacity value
  rw [h] at hseek
  rw [setValue_of_seek_ok h]
  exact ⟨replicas, hseek.append hdelivered hdelivered.distinct, haccounted⟩

/-- **A bounded session holds exactly the closest candidates**, after any
operations on a new one.  So, whatever the peers of a node do, a value is stored
at the nearest of the node itself, the closest peers that it knows, and all
peers that accepted replies name. -/
theorem storers_nearest {S τ : Type} [Storage S] (key : Id) :
    (∀ (capacity : Nat) (ops : List Session.Operation),
      (∀ op ∈ ops, ∀ c ∈ op.candidates, Session.Measured key c) →
      ((Session.bounded capacity).after ops).HoldsExactly key capacity (Session.offeredIds ops)) ∧
    ∀ (config : Config) (address : Address) (world : Transport τ) (s s' : Setting S τ) (l : Lookup),
      (among config address world).seek key s = (.ok l, s') →
      ∃ found, PeerStore.closest s.server.peers key config.peersReturnedSet.toNat = .ok found ∧
        NearestOf key config.maxStores
          (⟨s.server.id, address⟩ :: Lookup.heard key (found.map (·.1))
            ((among config address world).contacts (.bounded config.maxStores) key
              config.peersReturnedSet s))
          l.session.peers ∧
        ∀ value, ∃ replicas,
          Delivered s ((among config address world).setValue key value s).2 ⟨key, value⟩ replicas ∧
          Accounted config l.session.peers replicas
            ((among config address world).setValue key value s).1 := by
  constructor
  · intro capacity ops hops
    have hkeeps := (Session.Keeps.empty key capacity).after hops
    rw [List.append_nil] at hkeeps
    exact hkeeps.holdsExactly
  · intro config address world s s' l hseek
    obtain ⟨found, hfound, hdraws⟩ := draws_of_seek (lawful_among config address world) hseek
    exact ⟨found, hfound, ⟨hdraws.subset, hdraws.nearest⟩, exists_replicas_of_seek hseek⟩

/-! A node with the id 2 knows the one with the id 4, which names two more. -/

namespace Quartet

def config : Config where
  maxStores := 2
  minStores := 1

def world : Transport Unit where
  getValue target _ _ :=
    if target = (Relay.peer 4 2).address then
      (.ok ⟨(Relay.peer 4 2).id, none, [Relay.peer 8 4, Relay.peer 1 3]⟩, ())
    else if target = (Relay.peer 1 3).address then (.ok ⟨(Relay.peer 1 3).id, none, []⟩, ())
    else (.error .unreachable, ())
  storeValue target _ _ :=
    if target = (Relay.peer 1 3).address then (.ok ⟨(Relay.peer 1 3).id⟩, ())
    else (.error .unreachable, ())

def node : Node RoutingTable MemoryStorage (Setting MemoryStorage Unit) :=
  among config (Relay.peer 2 1).address world

theorem exists_seek : ∃ l s', node.seek (Relay.peer 0 0).id Relay.setting = (.ok l, s') ∧
    l.session.peers = [Relay.peer 2 1, Relay.peer 1 3] := by
  have hstorers : node.storers (Relay.peer 0 0).id Relay.setting =
      [Relay.peer 2 1, Relay.peer 1 3] := by
    decide +kernel
  rw [← hstorers]
  exact exists_seek_of_storers (hstorers ▸ List.cons_ne_nil _ _)

theorem heard_eq {found : List (Peer × Distance)}
    (h : PeerStore.closest Relay.setting.server.peers (Relay.peer 0 0).id 10 = .ok found) :
    Lookup.heard (Relay.peer 0 0).id (found.map (·.1))
        (node.contacts (.bounded 2) (Relay.peer 0 0).id 10 Relay.setting) =
      [Relay.peer 4 2, Relay.peer 8 4, Relay.peer 1 3] := by
  have hclosest : (PeerStore.closest Relay.setting.server.peers (Relay.peer 0 0).id 10).toOption.map
      (·.map (·.1)) = some [Relay.peer 4 2] := by
    decide +kernel
  have hnamed : (node.contacts (.bounded 2) (Relay.peer 0 0).id 10 Relay.setting).flatMap
      (Contact.named (Relay.peer 0 0).id) = [Relay.peer 8 4, Relay.peer 1 3] := by
    decide +kernel
  have hknown : found.map (·.1) = [Relay.peer 4 2] := by simpa [h, Except.toOption] using hclosest
  simp [Lookup.heard, hnamed, hknown]

end Quartet

/-- The candidate 3 gives way to 1 and is not taken again; the node 4 gives way
to 1, which it names. -/
theorem storers_nearest_small :
    ((Session.bounded 2).after [.offer [byteCandidate 3, byteCandidate 2], .next,
      .offer [byteCandidate 1], .mark (byteCandidate 2).peer.id,
      .offer [byteCandidate 3]]).HoldsExactly (Relay.peer 0 0).id 2
        ([3, 2, 1, 3].map fun byte => (byteCandidate byte).peer.id) ∧
    ∃ l s', Quartet.node.seek (Relay.peer 0 0).id Relay.setting = (.ok l, s') ∧
      l.session.peers = [Relay.peer 2 1, Relay.peer 1 3] ∧
      NearestOf (Relay.peer 0 0).id 2
        [Relay.peer 2 1, Relay.peer 4 2, Relay.peer 8 4, Relay.peer 1 3] l.session.peers := by
  have hall := storers_nearest (S := MemoryStorage) (τ := Unit) (Relay.peer 0 0).id
  have hmeasured : ∀ byte, Session.Measured (Relay.peer 0 0).id (byteCandidate byte) := fun _ => rfl
  obtain ⟨l, s', hseek, hstorers⟩ := Quartet.exists_seek
  obtain ⟨found, hfound, hnearest, _⟩ := hall.2 _ _ _ _ _ _ hseek
  have hheard := Quartet.heard_eq hfound
  refine ⟨hall.1 2 _ ?_, l, s', hseek, hstorers, ?_⟩
  · simp [Session.Operation.candidates, hmeasured]
  · rw [← hheard]
    exact hnearest

end Node

end Kademlia
