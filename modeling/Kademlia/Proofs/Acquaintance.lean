import Kademlia.Proofs.BestFirst
import Kademlia.Proofs.Buckets

/-!
# Kademlia.Proofs.Acquaintance

What a call leaves in the routing table of its node.  Whatever the peers do,
the table after a search is that of before, which met everybody whom an accepted
reply without a value named, in the order of the contacts; and the errors that
the search notes are those of the contacts that failed (`Lookup.Tracked.noted`).
To get a value forgets whoever failed, whatever comes of it; to set one does so
only if it comes to placing the value (`Node.changes_table`).
-/

namespace Kademlia

/-! ## Contacts -/

namespace Contact

variable {key : Id} {c : Contact} {cs : List Contact} {reply : GetReply} {e : RpcError}

/-- The peers that a search takes up from a contact: those of an accepted reply
that has no value. -/
def introduced (key : Id) (c : Contact) : List Peer :=
  match c.outcome key with
  | .ok ⟨_, none, nodes⟩ => nodes
  | _ => []

/-- The peer that was asked failed, by an error that is its own fault only. -/
def Failed (key : Id) (c : Contact) : Prop :=
  ∃ e, c.outcome key = .error e ∧ e.isExpected = true

/-- The error of a peer that failed so. -/
def fault? (key : Id) (c : Contact) : Option PeerError :=
  (c.failure? key).filter (·.error.isExpected)

/-- The ids of the peers that failed. -/
def failedIds (key : Id) (cs : List Contact) : List Id :=
  (cs.filterMap (fault? key)).map (·.peer.id)

theorem introduced_of_ok (h : c.outcome key = .ok reply) (hv : reply.value = none) :
    c.introduced key = reply.nodes := by
  obtain ⟨responder, value, nodes⟩ := reply
  obtain rfl : value = none := hv
  rw [introduced, h]

theorem introduced_of_value {value : Bytes} (h : c.outcome key = .ok reply)
    (hv : reply.value = some value) : c.introduced key = [] := by
  obtain ⟨responder, value', nodes⟩ := reply
  obtain rfl : value' = some value := hv
  rw [introduced, h]

theorem introduced_of_error (h : c.outcome key = .error e) : c.introduced key = [] := by
  rw [introduced, h]

theorem fault?_of_ok (h : c.outcome key = .ok reply) : c.fault? key = none := by
  rw [fault?, failure?_of_ok h, Option.filter_none]

theorem fault?_of_error (h : c.outcome key = .error e) :
    c.fault? key = if e.isExpected then some ⟨c.peer, e⟩ else none := by
  rw [fault?, failure?_of_error h, Option.filter_some]

theorem fault?_eq_some_iff {fault : PeerError} : c.fault? key = some fault ↔
    c.outcome key = .error fault.error ∧ fault.error.isExpected = true ∧ fault.peer = c.peer := by
  cases h : c.outcome key with
  | ok reply => simp [fault?_of_ok h]
  | error e =>
      rw [fault?_of_error h]
      constructor
      · intro hsome
        split at hsome
        next he =>
          obtain rfl := Option.some.inj hsome
          exact ⟨rfl, he, rfl⟩
        · contradiction
      · obtain ⟨peer, error⟩ := fault
        rintro ⟨herror, he, rfl⟩
        obtain rfl : e = error := Except.error.inj herror
        exact if_pos he

/-- Somebody failed exactly if the id is among those of the noted errors. -/
theorem mem_failedIds {id : Id} :
    id ∈ failedIds key cs ↔ ∃ c ∈ cs, c.Failed key ∧ c.peer.id = id := by
  simp only [failedIds, List.mem_map, List.mem_filterMap]
  constructor
  · rintro ⟨fault, ⟨c, hc, hfault⟩, rfl⟩
    obtain ⟨houtcome, he, hpeer⟩ := fault?_eq_some_iff.mp hfault
    exact ⟨c, hc, ⟨_, houtcome, he⟩, congrArg Peer.id hpeer.symm⟩
  · rintro ⟨c, hc, ⟨e, houtcome, he⟩, rfl⟩
    exact ⟨⟨c.peer, e⟩, ⟨c, hc, fault?_eq_some_iff.mpr ⟨houtcome, he, rfl⟩⟩, rfl⟩

/-- Whoever is introduced was named by an accepted reply. -/
theorem accepts_of_mem_introduced {p : Peer} (hp : p ∈ c.introduced key) :
    ∃ reply, c.Accepts key reply ∧ p ∈ reply.nodes := by
  cases h : c.outcome key with
  | error e => simp [introduced_of_error h] at hp
  | ok reply =>
      refine ⟨reply, accepts_iff.mpr h, ?_⟩
      cases hv : reply.value with
      | none => rwa [introduced_of_ok h hv] at hp
      | some value => simp [introduced_of_value h hv] at hp

/-- A reply that is from another node, or names a peer of another overlay,
introduces nobody. -/
theorem introduced_of_rejected (hreply : c.reply = .ok reply)
    (h : reply.responder ≠ c.peer.id ∨ ∃ p ∈ reply.nodes, p.id.length ≠ key.length) :
    c.introduced key = [] := by
  cases houtcome : c.outcome key with
  | error e => exact introduced_of_error houtcome
  | ok accepted =>
      obtain ⟨hsame, hresponder, hlength⟩ := accepts_iff.mpr houtcome
      obtain rfl : reply = accepted := Except.ok.inj (hreply.symm.trans hsame)
      rcases h with hother | ⟨p, hp, hl⟩
      · exact absurd hresponder hother
      · exact absurd (hlength p hp) hl

end Contact

/-! ## Servers that meet and forget -/

namespace Server

variable {S : Type} {srv : Server RoutingTable S} {errors : List PeerError} {p : Peer}

theorem meetAll_append (srv : Server RoutingTable S) (ps qs : List Peer) :
    srv.meetAll (ps ++ qs) = (srv.meetAll ps).meetAll qs := List.foldl_append

/-- To forget one peer is to take its id out of the table. -/
theorem evict_singleton (h : srv.peers.WellFormed) (e : PeerError) :
    (srv.evict [e]).peers.WellFormed ∧
      (srv.evict [e]).peers.peers = srv.peers.peers.filter (·.id ≠ e.peer.id) := by
  rw [evict, List.foldl_cons, List.foldl_nil]
  by_cases hl : e.peer.id.length = srv.peers.localId.length
  · obtain ⟨t, hremove, _, _, _, hpeers⟩ := (h.removes e.peer.id).of_length_eq hl
    have hforget : PeerStore.remove srv.peers e.peer = .ok t := hremove
    rw [hforget]
    exact ⟨h.remove hremove, hpeers⟩
  · obtain ⟨_, _, hremove⟩ := (h.removes e.peer.id).mismatch_iff.mpr hl
    have hforget : PeerStore.remove srv.peers e.peer = .error _ := hremove
    rw [hforget]
    refine ⟨h, (RoutingTable.filter_eq_self_of_ne fun q hq heq => hl ?_).symm⟩
    rw [← heq]
    exact (h.of_mem hq).1

/-- Whoever is known after peers were forgotten was known, and is none of them. -/
theorem mem_evict (h : srv.peers.WellFormed) : p ∈ (srv.evict errors).peers.peers ↔
    p ∈ srv.peers.peers ∧ p.id ∉ errors.map (·.peer.id) := by
  induction errors generalizing srv with
  | nil => simp
  | cons e errors ih =>
      obtain ⟨hwf, hpeers⟩ := evict_singleton h e
      rw [evict_cons, ih hwf, hpeers, List.mem_filter, List.map_cons, List.mem_cons, not_or,
        and_assoc, decide_eq_true_iff]

/-- To store a value of its own node changes nothing that a server knows. -/
theorem peers_handleStore_none [Storage S] (request : StoreRequest) (srv : Server RoutingTable S) :
    (handleStore none request srv).2.peers = srv.peers := by
  by_cases hk : request.key.length = srv.id.length
  · have hmatches : srv.Matches none request.key := ⟨hk, by simp⟩
    cases hset : Storage.set srv.values request.key.bytes request.value with
    | error e =>
        have hhandle : handleStore none request srv = _ := handleStore_of_error hmatches hset
        rw [hhandle]
        rfl
    | ok values =>
        have hhandle : handleStore none request srv = _ := handleStore_of_ok hmatches hset
        rw [hhandle]
        rfl
  · rw [handleStore, accept, if_pos hk]

end Server

/-! ## Searches -/

section

variable {S τ : Type} [Storage S] {config : Config} {address : Address} {world : Transport τ}
  {s s' : Setting S τ} {l l' : Lookup} {c : Candidate} {session : Session} {cs : List Contact}
  {own key : Id}

namespace Lookup

/-- A step introduces those that its contact names, and notes its error. -/
theorem Tracked.noted_step (h : l.Tracked (.among config address world) own key cs s)
    (hnext : l.session.next? = some (c, session)) {ending : Option Ending}
    (hstep : l.step (.among config address world) s = (ending, l', s')) :
    s'.server = s.server.meetAll ((l.contact (.among config address world) c s).introduced key) ∧
      l'.errors = l.errors ++
        ((l.contact (.among config address world) c s).fault? key).toList := by
  have hn := Node.lawful_among (S := S) config address world
  -- Neither the question nor its answer is about the node's own server.
  have hask : ∀ {outcome s₁}, (Node.among config address world).ask c.peer ⟨l.key, l.k⟩ s =
      (outcome, s₁) → s₁.server = s.server := by
    intro outcome s₁ ha
    rw [Node.ask_of_ne (h.next hnext).1] at ha
    obtain ⟨_, rfl⟩ := Prod.mk.inj ha
    rfl
  have hst := stepped hn h.sound
  rw [hstep] at hst
  cases hst with
  | exhausted hnone => simp [hnext] at hnone
  | skipped d session' e s' hnext' ha he =>
      obtain ⟨rfl, rfl⟩ := Session.next?_inj hnext hnext'
      have houtcome := h.outcome_eq hnext ha
      rw [Contact.introduced_of_error houtcome, Contact.fault?_of_error houtcome, if_pos he]
      exact ⟨hask ha, rfl⟩
  | aborted d session' e s' hnext' ha he =>
      obtain ⟨rfl, rfl⟩ := Session.next?_inj hnext hnext'
      have houtcome := h.outcome_eq hnext ha
      rw [Contact.introduced_of_error houtcome, Contact.fault?_of_error houtcome,
        if_neg (by simp [he])]
      exact ⟨hask ha, (List.append_nil _).symm⟩
  | found d session' reply value s' hnext' ha hv =>
      obtain ⟨rfl, rfl⟩ := Session.next?_inj hnext hnext'
      have houtcome := h.outcome_eq hnext ha
      rw [Contact.introduced_of_value houtcome hv, Contact.fault?_of_ok houtcome]
      exact ⟨hask ha, (List.append_nil _).symm⟩
  | settled d session' reply s' hnext' ha hv =>
      obtain ⟨rfl, rfl⟩ := Session.next?_inj hnext hnext'
      have houtcome := h.outcome_eq hnext ha
      rw [Contact.introduced_of_ok houtcome hv, Contact.fault?_of_ok houtcome, ← hask ha]
      exact ⟨rfl, (List.append_nil _).symm⟩
  | widened d session' reply s' hnext' ha hv =>
      obtain ⟨rfl, rfl⟩ := Session.next?_inj hnext hnext'
      have houtcome := h.outcome_eq hnext ha
      rw [Contact.introduced_of_ok houtcome hv, Contact.fault?_of_ok houtcome, ← hask ha]
      exact ⟨rfl, (List.append_nil _).symm⟩

/-- What the contacts of a search say about the server of its node, and about
the errors that it notes. -/
structure Noted (key : Id) (before : Server RoutingTable S) (cs : List Contact) (l : Lookup)
    (after : Server RoutingTable S) : Prop where
  server_eq : after = before.meetAll (cs.flatMap (Contact.introduced key))
  errors_eq : l.errors = cs.filterMap (Contact.fault? key)

theorem Noted.step {before : Server RoutingTable S} (hnoted : Noted key before cs l s.server)
    (h : l.Tracked (.among config address world) own key cs s)
    (hnext : l.session.next? = some (c, session)) {ending : Option Ending}
    (hstep : l.step (.among config address world) s = (ending, l', s')) :
    Noted key before (cs ++ [l.contact (.among config address world) c s]) l' s'.server := by
  obtain ⟨hserver, herrors⟩ := h.noted_step hnext hstep
  constructor
  · rw [hserver, hnoted.server_eq, ← Server.meetAll_append, List.flatMap_append,
      List.flatMap_singleton]
  · rw [herrors, hnoted.errors_eq, List.filterMap_append]
    rw [List.filterMap_cons, List.filterMap_nil]
    cases (l.contact (.among config address world) c s).fault? key <;> rfl

/-- **A search leaves what its contacts say**, however it ends. -/
theorem Tracked.noted (h : l.Tracked (.among config address world) own key [] s)
    (herrors : l.errors = []) :
    Noted key s.server (l.contacts (.among config address world) l.stepBound s)
      (l.run (.among config address world) s).2.1
      (l.run (.among config address world) s).2.2.server := by
  have hn := Node.lawful_among (S := S) config address world
  refine h.history hn (fun cs l t => Noted key s.server cs l t.server)
    (fun cs _ l t => Noted key s.server cs l t.server) ?_ ?_ ?_ ⟨rfl, herrors⟩
  · intro cs l t c session l' t' h hnoted hnext hstep
    exact hnoted.step h hnext hstep
  · intro cs l t c session e l' t' h hnoted hnext hstep
    exact hnoted.step h hnext hstep
  · intro cs l t _ hnoted _
    exact hnoted

end Lookup

/-! ## Calls -/

/-- What a call with these contacts has done to the table of its node, if it
forgot the peers of these errors. -/
structure Server.Changed (key : Id) (cs : List Contact) (errors : List PeerError)
    (before after : Server RoutingTable S) : Prop where
  /-- Whoever an accepted reply named was met, contact by contact. -/
  table_eq : after.peers =
    ((before.meetAll (cs.flatMap (Contact.introduced key))).evict errors).peers
  /-- Those who failed are not known any more, under whatever address. -/
  forgotten : ∀ p ∈ after.peers.peers, p.id ∉ errors.map (·.peer.id)
  /-- Everybody else who was known still is, at the same address. -/
  kept : ∀ p ∈ before.peers.peers, p.id ∉ errors.map (·.peer.id) → p ∈ after.peers.peers
  new : ∀ p ∈ after.peers.peers, p ∉ before.peers.peers →
    ∃ c ∈ cs, ∃ reply, c.Accepts key reply ∧ p ∈ reply.nodes
  /-- A reply of another node, or with a peer of another overlay, adds nobody. -/
  rejected : ∀ c ∈ cs, ∀ reply, c.reply = .ok reply →
    (reply.responder ≠ c.peer.id ∨ ∃ p ∈ reply.nodes, p.id.length ≠ key.length) →
    c.introduced key = []

omit [Storage S] in
theorem Server.Changed.of_peers_eq {before after : Server RoutingTable S}
    (h : before.peers.WellFormed) {errors : List PeerError} (heq : after.peers =
      ((before.meetAll (cs.flatMap (Contact.introduced key))).evict errors).peers) :
    Changed key cs errors before after where
  table_eq := heq
  forgotten p hp := by
    rw [heq, mem_evict (wellFormed_meetAll h)] at hp
    exact hp.2
  kept p hp hid := by
    rw [heq, mem_evict (wellFormed_meetAll h)]
    exact ⟨mem_meetAll_of_mem hp, hid⟩
  new p hp hnew := by
    rw [heq, mem_evict (wellFormed_meetAll h)] at hp
    obtain ⟨c, hc, hintroduced⟩ :=
      List.mem_flatMap.mp ((mem_or_mem_of_mem_meetAll hp.1).resolve_left hnew)
    exact ⟨c, hc, Contact.accepts_of_mem_introduced hintroduced⟩
  rejected _ _ _ := Contact.introduced_of_rejected

namespace Node

/-- A call to set a value comes to placing it: enough storers were found. -/
def Places {σ : Type} (node : Node RoutingTable S σ) (key : Id) (s : σ) : Prop :=
  ∃ l s', node.seek key s = (.ok l, s') ∧ node.config.minStores ≤ l.session.peers.length

theorem errors_of_begin {σ : Type} {node : Node RoutingTable S σ} (hn : node.Lawful)
    {opening : Session} {k : UInt64} {s s' : σ}
    (h : node.begin opening key k s = (.ok (.lookup l), s')) : l.errors = [] := by
  have hbegin := beginning hn opening key k s
  rw [h] at hbegin
  cases hbegin with
  | lookup => rfl

variable (config address world)

theorem noted_of_begin {capacity : Option Nat} {k : UInt64}
    (h : (among config address world).begin ⟨capacity, []⟩ key k s = (.ok (.lookup l), s)) :
    Lookup.Noted key s.server (l.contacts (among config address world) l.stepBound s)
      (l.run (among config address world) s).2.1
      (l.run (among config address world) s).2.2.server := by
  have hn := lawful_among (S := S) config address world
  exact (tracked_of_begin hn h).2.2.noted (errors_of_begin hn h)

/-- To get a value is to meet whom accepted replies name, and then to forget
whoever failed. -/
theorem server_getValue (key : Id) (s : Setting S τ) :
    ((among config address world).getValue key s).2.server =
      (s.server.meetAll (((among config address world).contacts .unbounded key
        config.peersReturnedGet s).flatMap (Contact.introduced key))).evict
        (((among config address world).contacts .unbounded key
          config.peersReturnedGet s).filterMap (Contact.fault? key)) := by
  refine getValue_history (lawful_among config address world) (fun cs s' => s'.server =
    (s.server.meetAll (cs.flatMap (Contact.introduced key))).evict
      (cs.filterMap (Contact.fault? key))) rfl fun l hbegin => ?_
  have hnoted := noted_of_begin config address world hbegin
  exact congrArg₂ Server.evict hnoted.server_eq hnoted.errors_eq

/-- To search for storers is to meet whom accepted replies name. -/
theorem server_seek (key : Id) (s : Setting S τ) :
    ((among config address world).seek key s).2.server = s.server.meetAll
      (((among config address world).contacts (.bounded config.maxStores) key
        config.peersReturnedSet s).flatMap (Contact.introduced key)) :=
  seek_history (lawful_among config address world)
    (fun cs s' => s'.server = s.server.meetAll (cs.flatMap (Contact.introduced key))) rfl
    fun _ hbegin => (noted_of_begin config address world hbegin).server_eq

/-- The search that ends with storers has noted whoever failed. -/
theorem errors_of_seek (h : (among config address world).seek key s = (.ok l, s')) :
    l.errors = ((among config address world).contacts (.bounded config.maxStores) key
      config.peersReturnedSet s).filterMap (Contact.fault? key) := by
  have hseek := seeking (lawful_among config address world) key s
  rw [h] at hseek
  cases hseek with
  | ended _ l₀ l ending s' hbegin _ hrun =>
      have herrors := (noted_of_begin config address world hbegin).errors_eq
      rwa [hrun, ← contacts_of_lookup hbegin] at herrors

/-- To store a value leaves the table of the node as it is. -/
theorem peers_storeAt (peer : Peer) (request : StoreRequest) (s : Setting S τ) :
    ((among config address world).storeAt peer request s).2.server.peers = s.server.peers := by
  by_cases hid : peer.id = (among (S := S) config address world).id s
  · rw [storeAt_self hid]
    exact Server.peers_handleStore_none request s.server
  · rw [storeAt_of_ne hid]
    rfl

/-- To place a value is to forget whoever failed if there are enough storers,
and nobody otherwise. -/
theorem peers_place (l : Lookup) (value : Bytes) (s : Setting S τ) :
    (config.minStores ≤ l.session.peers.length →
      ((among config address world).place l value s).2.server.peers =
        (s.server.evict l.errors).peers) ∧
    (l.session.peers.length < config.minStores →
      ((among config address world).place l value s).2.server.peers = s.server.peers) := by
  have hreplicated : ((among config address world).replicate ⟨l.key, value⟩ l.session.peers
      ((among config address world).evict l.errors s)).2.server.peers =
        (s.server.evict l.errors).peers :=
    replicate_rule (J := fun s' : Setting S τ => s'.server.peers = (s.server.evict l.errors).peers)
      (fun peer s' h => (peers_storeAt config address world peer ⟨l.key, value⟩ s').trans h)
      l.session.peers rfl
  have hplace := placing (among config address world) l value s
  generalize (among config address world).place l value s = result at hplace ⊢
  cases hplace with
  | few hfew => exact ⟨fun henough => absurd hfew (Nat.not_lt.mpr henough), fun _ => rfl⟩
  | aborted henough e s' hrep =>
      rw [hrep] at hreplicated
      exact ⟨fun _ => hreplicated, fun hfew => absurd hfew (Nat.not_lt.mpr henough)⟩
  | short henough failures s' hrep =>
      rw [hrep] at hreplicated
      exact ⟨fun _ => hreplicated, fun hfew => absurd hfew (Nat.not_lt.mpr henough)⟩
  | stored henough failures s' hrep =>
      rw [hrep] at hreplicated
      exact ⟨fun _ => hreplicated, fun hfew => absurd hfew (Nat.not_lt.mpr henough)⟩

/-- To set a value is to meet whom accepted replies name, and, if it comes to
placing the value, to forget whoever failed. -/
theorem peers_setValue (key : Id) (value : Bytes) (s : Setting S τ)
    (hcontacts : (among config address world).contacts (.bounded config.maxStores) key
      config.peersReturnedSet s = cs) :
    ((among config address world).Places key s →
      ((among config address world).setValue key value s).2.server.peers =
        ((s.server.meetAll (cs.flatMap (Contact.introduced key))).evict
          (cs.filterMap (Contact.fault? key))).peers) ∧
    (¬ (among config address world).Places key s →
      ((among config address world).setValue key value s).2.server.peers =
        (s.server.meetAll (cs.flatMap (Contact.introduced key))).peers) := by
  have hserver := server_seek config address world key s
  rw [hcontacts] at hserver
  cases hseek : (among config address world).seek key s with
  | mk outcome s₁ =>
      rw [hseek] at hserver
      cases outcome with
      | error e =>
          rw [setValue_of_seek_error hseek]
          exact ⟨fun ⟨_, _, hl, _⟩ => by simp [hseek] at hl, fun _ => congrArg Server.peers hserver⟩
      | ok l =>
          have herrors := errors_of_seek config address world hseek
          obtain ⟨henough, hfew⟩ := peers_place config address world l value s₁
          rw [hserver, herrors, hcontacts] at henough
          rw [hserver] at hfew
          rw [setValue_of_seek_ok hseek]
          refine ⟨fun ⟨l', s', hl, hle⟩ => ?_, fun hnot => hfew (Nat.lt_of_not_le fun hle => ?_)⟩
          · obtain ⟨rfl, rfl⟩ : l = l' ∧ s₁ = s' := by simpa [hseek] using hl
            exact henough hle
          · exact hnot ⟨l, s₁, hseek, hle⟩

/-- A call that comes to placing its value does not fail before that. -/
theorem isUnplaced_of_places {key : Id} {s : Setting S τ} {value : Bytes}
    (h : (among config address world).Places key s) {e : Error}
    (he : ((among config address world).setValue key value s).1 = .error e) :
    e.isUnplaced = false := by
  obtain ⟨l, s₁, hseek, henough⟩ := h
  rw [setValue_of_seek_ok hseek] at he
  have hplace := placing (among config address world) l value s₁
  generalize (among config address world).place l value s₁ = result at hplace he
  cases hplace with
  | few hfew => exact absurd hfew (Nat.not_lt.mpr henough)
  | aborted => rw [← Except.error.inj he]; rfl
  | short => rw [← Except.error.inj he]; rfl
  | stored => contradiction

/-- **What a call does to the routing table.**  Whatever its peers do, a node
with a table meets those whom accepted replies name, as far as there is space
for them, and forgets nobody but those who failed: when it gets a value, whatever
comes of it, and when it sets one, if it comes to placing it. -/
theorem changes_table (key : Id) (s : Setting S τ) (hwf : s.server.peers.WellFormed) :
    (∃ cs, (among config address world).contacts .unbounded key config.peersReturnedGet s = cs ∧
      ((among config address world).getValue key s).2.log =
        s.log ++ cs.map (Contact.exchange ⟨key, config.peersReturnedGet⟩) ∧
      Server.Changed key cs (cs.filterMap (Contact.fault? key)) s.server
        ((among config address world).getValue key s).2.server) ∧
    ∃ cs, (among config address world).contacts (.bounded config.maxStores) key
        config.peersReturnedSet s = cs ∧
      ∀ value, ((among config address world).setValue key value s).2.questions =
          s.questions ++ cs.map (Contact.exchange ⟨key, config.peersReturnedSet⟩) ∧
        ((among config address world).Places key s →
          Server.Changed key cs (cs.filterMap (Contact.fault? key)) s.server
            ((among config address world).setValue key value s).2.server) ∧
        (¬ (among config address world).Places key s →
          Server.Changed key cs [] s.server
            ((among config address world).setValue key value s).2.server) ∧
        ∀ e, ((among config address world).seek key s).1 = .error e ∨
            ((among config address world).setValue key value s).1 = .error e ∧
              e.isUnplaced = true →
          ¬ (among config address world).Places key s := by
  refine ⟨⟨_, rfl, log_getValue config address world key s, ?_⟩, _, rfl, fun value =>
    ⟨questions_setValue config address world key value s, fun hplaces => ?_, fun hnot => ?_,
      ?_⟩⟩
  · exact .of_peers_eq hwf (congrArg Server.peers (server_getValue config address world key s))
  · exact .of_peers_eq hwf ((peers_setValue config address world key value s rfl).1 hplaces)
  · exact .of_peers_eq hwf ((peers_setValue config address world key value s rfl).2 hnot)
  · rintro e (hfailed | ⟨he, hunplaced⟩) hplaces
    · obtain ⟨l, s', hl, _⟩ := hplaces
      simp [hl] at hfailed
    · simp [isUnplaced_of_places config address world hplaces he] at hunplaced

end Node

end

namespace Node

/-! A node with the id 2 knows the one with the id 4, which names one that
cannot be reached. -/

namespace Absent

def world : Transport Unit where
  getValue target _ _ :=
    if target = (Relay.peer 4 2).address then
      (.ok ⟨(Relay.peer 4 2).id, none, [Relay.peer 1 3]⟩, ())
    else (.error .unreachable, ())
  storeValue target _ _ :=
    if target = (Relay.peer 4 2).address then (.ok ⟨(Relay.peer 4 2).id⟩, ())
    else (.error .unreachable, ())

def node : Node RoutingTable MemoryStorage (Setting MemoryStorage Unit) :=
  among {} (Relay.peer 2 1).address world

/-- The node comes to placing a value. -/
theorem places : node.Places (Relay.peer 0 0).id Relay.setting := by
  have hstorers : node.storers (Relay.peer 0 0).id Relay.setting =
      [Relay.peer 2 1, Relay.peer 4 2, Relay.peer 1 3] := by
    decide +kernel
  obtain ⟨l, s', hseek, hpeers⟩ := exists_seek_of_storers (hstorers ▸ List.cons_ne_nil _ _)
  exact ⟨l, s', hseek, by rw [hpeers, hstorers]; decide⟩

end Absent

/-- Whether a value is got or set, the peer that cannot be reached is forgotten,
and the other one is not. -/
theorem changes_table_absent :
    (∀ p ∈ (Absent.node.getValue (Relay.peer 0 0).id Relay.setting).2.server.peers.peers,
      p.id ≠ (Relay.peer 1 3).id) ∧
    ∀ value, Relay.peer 4 2 ∈
      (Absent.node.setValue (Relay.peer 0 0).id value Relay.setting).2.server.peers.peers := by
  have hwf : Relay.setting.server.peers.WellFormed :=
    (RoutingTable.wellFormed_empty (Relay.peer 2 1).id 20).meet (Relay.peer 4 2)
  have hget_failed : ((Absent.node.contacts .unbounded (Relay.peer 0 0).id 10
      Relay.setting).filterMap (Contact.fault? (Relay.peer 0 0).id)).map (·.peer.id) =
        [(Relay.peer 1 3).id] := by
    decide +kernel
  have hset_failed : ((Absent.node.contacts (.bounded 5) (Relay.peer 0 0).id 10
      Relay.setting).filterMap (Contact.fault? (Relay.peer 0 0).id)).map (·.peer.id) =
        [(Relay.peer 1 3).id] := by
    decide +kernel
  obtain ⟨⟨_, rfl, _, hget⟩, _, rfl, hset⟩ :=
    changes_table {} (Relay.peer 2 1).address Absent.world (Relay.peer 0 0).id Relay.setting hwf
  constructor
  · intro p hp hid
    exact hget.forgotten p hp (hget_failed.symm ▸ hid ▸ List.mem_singleton_self _)
  · intro value
    exact ((hset value).2.1 Absent.places).kept _ (by decide +kernel)
      (hset_failed.symm ▸ by decide)

end Node

end Kademlia
