import Kademlia.Node.Values
import Kademlia.Proofs.Serving

/-!
# Kademlia.Proofs.Search

The search for a key, of a node with a routing table.  `Lookup.stepped` says
once what a step can come to; `Lookup.runFor_rule` carries an invariant of the
steps through a whole search, and `Lookup.runFor_terminates` does so for a
search whose steps make progress.

To set a value is to search for storers (`Node.seek`) and then to place it
there (`Node.setValue_eq`); nothing is placed before the search is over.
-/

namespace Kademlia

/-- A question without a sender leaves the server as it is. -/
theorem Server.handleGet_none_snd {P S : Type} [PeerStore P] [Storage S] (request : GetRequest)
    (srv : Server P S) : (Server.handleGet none request srv).2 = srv := by
  rw [Server.handleGet]
  cases h : srv.accept none request.key with
  | error code => rfl
  | ok srv' =>
      rw [Server.accept] at h
      split at h
      · contradiction
      · exact (Except.ok.inj h).symm

namespace Node

variable {S σ : Type} {node : Node RoutingTable S σ} {key : Id} {k : UInt64} {s s' : σ}
  {session : Session}

/-! ## Nodes to rely on -/

/-- The state of a node holds the server that was put there last, and no
question of the node changes its id. -/
structure Lawful (node : Node RoutingTable S σ) : Prop where
  server_setServer : ∀ srv s, node.server (node.setServer srv s) = srv
  setServer_server : ∀ s, node.setServer (node.server s) s = s
  id_getValue : ∀ target request s, node.id (node.transport.getValue target request s).2 = node.id s

/-- The node as its peers see it. -/
def self (node : Node RoutingTable S σ) (s : σ) : Peer := ⟨node.id s, node.address⟩

/-- The state after the node met peers. -/
def meetAll (node : Node RoutingTable S σ) (peers : List Peer) (s : σ) : σ :=
  node.setServer ((node.server s).meetAll peers) s

theorem Lawful.server_meetAll (hn : node.Lawful) (peers : List Peer) (s : σ) :
    node.server (node.meetAll peers s) = (node.server s).meetAll peers :=
  hn.server_setServer _ s

theorem Lawful.id_meetAll (hn : node.Lawful) (peers : List Peer) (s : σ) :
    node.id (node.meetAll peers s) = node.id s := by
  rw [id, hn.server_meetAll, Server.id_meetAll]
  rfl

/-! ## The first candidates -/

/-- The session in which the node asked itself. -/
def opened (node : Node RoutingTable S σ) (session : Session) (key : Id) (s : σ) : Session :=
  (session.merge [Candidate.fresh key (node.self s)]).2.markSearched (node.id s)

/-- The lookup that goes on from the peers which the node itself knows. -/
def openingLookup (node : Node RoutingTable S σ) (session : Session) (key : Id) (k : UInt64)
    (nodes : List Peer) (s : σ) : Lookup :=
  { key, k, session := ((node.opened session key s).merge (nodes.map (Candidate.fresh key))).2 }

/-- Its candidates are the peers that the node knows, not asked yet, and itself. -/
theorem mem_openingLookup {capacity : Option Nat} {nodes : List Peer} {c : Candidate}
    (hc : c ∈ (node.openingLookup ⟨capacity, []⟩ key k nodes s).session.candidates) :
    (∃ p ∈ nodes, c = Candidate.fresh key p) ∨ c.peer = node.self s := by
  have hmerged : ∀ c ∈ (Session.merge ⟨capacity, []⟩
      [Candidate.fresh key (node.self s)]).2.candidates, c.peer = node.self s := by
    intro c hc
    rcases Session.mem_candidates_merge hc with hc | hc
    · rw [List.mem_singleton.mp hc]
      rfl
    · exact absurd hc List.not_mem_nil
  rcases Session.mem_candidates_merge hc with hc | hc
  · obtain ⟨p, hp, rfl⟩ := List.mem_map.mp hc
    exact .inl ⟨p, hp, rfl⟩
  · rcases Session.mem_markSearched hc with ⟨hc, _⟩ | ⟨e, he, _, rfl⟩
    · exact .inr (hmerged c hc)
    · exact .inr (hmerged e he)

@[simp] theorem capacity_opened (node : Node RoutingTable S σ) (session : Session) (key : Id)
    (s : σ) : (node.opened session key s).capacity = session.capacity := by
  rw [opened, Session.capacity_markSearched, Session.capacity_merge]

/-- A lookup without bound begins with all of them. -/
theorem mem_ids_openingLookup {nodes : List Peer} {p : Peer} (hp : p ∈ nodes) :
    p.id ∈ (node.openingLookup .unbounded key k nodes s).session.ids :=
  Session.mem_ids_merge (capacity_opened node .unbounded key s)
    (List.mem_map_of_mem (f := Candidate.fresh key) hp)

/-- It begins with the node itself, which was asked. -/
theorem exists_self_opened (node : Node RoutingTable S σ) (key : Id) (s : σ) :
    ∃ c ∈ (node.opened .unbounded key s).candidates,
      c.searched = true ∧ c.peer = node.self s := by
  have hself : Candidate.fresh key (node.self s) ∈ [Candidate.fresh key (node.self s)] :=
    List.mem_singleton.mpr rfl
  obtain ⟨c, hc, hid⟩ := Session.mem_ids.mp (Session.mem_ids_merge (s := .unbounded) rfl hself)
  obtain rfl : c = Candidate.fresh key (node.self s) := by
    rcases Session.mem_candidates_merge hc with h | h
    · exact List.mem_singleton.mp h
    · exact absurd h List.not_mem_nil
  exact ⟨_, Session.mem_markSearched_of_mem hc, rfl, rfl⟩

theorem id_mem_openingLookup {nodes : List Peer} :
    node.id s ∈ (node.openingLookup .unbounded key k nodes s).session.ids := by
  obtain ⟨c, hc, _, hpeer⟩ := exists_self_opened node key s
  have hid : c.peer.id = node.id s := congrArg Peer.id hpeer
  rw [← hid]
  exact Session.ids_subset_merge (capacity_opened node .unbounded key s) _
    (Session.mem_ids_of_mem hc)

theorem searchedCount_openingLookup {nodes : List Peer} :
    0 < (node.openingLookup .unbounded key k nodes s).session.searchedCount := by
  obtain ⟨c, hc, hsearched, _⟩ := exists_self_opened node key s
  have hopened : 0 < (node.opened .unbounded key s).searchedCount :=
    List.countP_pos_iff.mpr ⟨c, hc, hsearched⟩
  exact Nat.lt_of_lt_of_le hopened
    (Session.searchedCount_merge (capacity_opened node .unbounded key s) _)

/-- A bounded lookup begins with the nearest of them. -/
theorem keeps_openingLookup {nodes : List Peer} {m : Nat} (hself : (node.id s).length = key.length)
    (hl : ∀ p ∈ nodes, p.id.length = key.length) :
    (node.openingLookup (.bounded m) key k nodes s).session.Keeps key m
      (nodes.map (·.id) ++ [node.id s]) := by
  have hown : ∀ p ∈ [node.self s], p.id.length = key.length := by
    intro p hp
    rw [List.mem_singleton.mp hp]
    exact hself
  have hopened := ((Session.Keeps.empty key m).merge hown).markSearched (node.id s)
  exact hopened.merge hl

/-! ## Asking a peer -/

variable [Storage S]

/-- A node's question to itself changes nothing. -/
theorem Lawful.locally_handleGet (hn : node.Lawful) (request : GetRequest) (s : σ) :
    node.locally (Server.handleGet none request) s =
      ((Server.handleGet none request (node.server s)).1, s) := by
  have hsnd := Server.handleGet_none_snd request (node.server s)
  rw [locally]
  generalize Server.handleGet none request (node.server s) = result at hsnd ⊢
  obtain ⟨reply, srv⟩ := result
  obtain rfl : srv = node.server s := hsnd
  show (reply, node.setServer (node.server s) s) = (reply, s)
  rw [hn.setServer_server]

theorem ask_of_ne {peer : Peer} (hid : peer.id ≠ node.id s) (request : GetRequest) :
    node.ask peer request s =
      ((node.transport.getValue peer.address request s).1.bind (checkReply peer request.key),
        (node.transport.getValue peer.address request s).2) := by
  rw [ask, if_neg hid]

theorem Lawful.ask_self (hn : node.Lawful) {peer : Peer} (hid : peer.id = node.id s)
    (request : GetRequest) : node.ask peer request s =
      (((Server.handleGet none request (node.server s)).1.mapError RpcError.remote).bind
        (checkReply peer request.key), s) := by
  rw [ask, if_pos hid, hn.locally_handleGet]

theorem Lawful.id_ask (hn : node.Lawful) (peer : Peer) (request : GetRequest) (s : σ) :
    node.id (node.ask peer request s).2 = node.id s := by
  by_cases hid : peer.id = node.id s
  · rw [hn.ask_self hid]
  · rw [ask_of_ne hid]
    exact hn.id_getValue _ _ _

/-- A reply that is accepted is from the peer that was asked, and lists only
peers of the key's overlay. -/
theorem of_checkReply {peer : Peer} {given reply : GetReply}
    (h : checkReply peer key given = .ok reply) : given = reply ∧ reply.responder = peer.id ∧
      ∀ p ∈ reply.nodes, p.id.length = key.length := by
  rw [checkReply] at h
  split at h
  · contradiction
  next hresponder =>
    split at h
    · contradiction
    next hnone =>
      obtain rfl := Except.ok.inj h
      refine ⟨rfl, not_not.mp hresponder, fun p hp => ?_⟩
      simpa using List.find?_eq_none.mp hnone p hp

theorem checkReply_eq {peer : Peer} {reply : GetReply} (hresponder : reply.responder = peer.id)
    (hl : ∀ p ∈ reply.nodes, p.id.length = key.length) : checkReply peer key reply = .ok reply := by
  have hfind : reply.nodes.find? (·.id.length ≠ key.length) = none := by
    rw [List.find?_eq_none]
    intro p hp
    simpa using hl p hp
  rw [checkReply, if_neg (not_not.mpr hresponder), hfind]

/-- Any other reply is only the fault of its peer. -/
theorem isExpected_of_checkReply {peer : Peer} {reply : GetReply} {e : RpcError}
    (h : checkReply peer key reply = .error e) : e.isExpected = true := by
  rw [checkReply] at h
  split at h
  · rw [← Except.error.inj h]
    rfl
  · split at h
    · rw [← Except.error.inj h]
      rfl
    · contradiction

theorem length_eq_of_ask {peer : Peer} {request : GetRequest} {reply : GetReply}
    (h : node.ask peer request s = (.ok reply, s')) :
    ∀ p ∈ reply.nodes, p.id.length = request.key.length := by
  rw [ask] at h
  have hreply := congrArg Prod.fst h
  obtain ⟨given, _, hcheck⟩ := Except.exists_of_bind_eq_ok hreply
  exact (of_checkReply hcheck).2.2

/-! ## Storing at a peer -/

theorem storeAt_of_ne {P : Type} [PeerStore P] {node : Node P S σ} {peer : Peer}
    (hid : peer.id ≠ node.id s) (request : StoreRequest) :
    node.storeAt peer request s =
      ((node.transport.storeValue peer.address request s).1.bind (checkAcknowledgement peer),
        (node.transport.storeValue peer.address request s).2) := by
  rw [storeAt, if_neg hid]

theorem storeAt_self {P : Type} [PeerStore P] {node : Node P S σ} {peer : Peer}
    (hid : peer.id = node.id s) (request : StoreRequest) :
    node.storeAt peer request s =
      (((Server.handleStore none request (node.server s)).1.mapError RpcError.remote).bind
        (checkAcknowledgement peer),
        node.setServer (Server.handleStore none request (node.server s)).2 s) := by
  rw [storeAt, if_pos hid, locally]

theorem checkAcknowledgement_eq {peer : Peer} {reply : StoreReply}
    (hid : reply.responder = peer.id) : checkAcknowledgement peer reply = .ok () := by
  rw [checkAcknowledgement, if_neg (not_not.mpr hid)]

/-- What every store keeps up, storing at several peers does. -/
theorem replicate_rule {P : Type} [PeerStore P] {node : Node P S σ} {J : σ → Prop}
    {request : StoreRequest} (hstore : ∀ peer s, J s → J (node.storeAt peer request s).2)
    (storers : List Peer) (hJ : J s) : J (node.replicate request storers s).2 := by
  induction storers generalizing s with
  | nil => exact hJ
  | cons peer rest ih =>
      have hstored := hstore peer s hJ
      rw [replicate]
      cases hstep : node.storeAt peer request s with
      | mk outcome s₁ =>
          rw [hstep] at hstored
          cases outcome with
          | ok u => exact ih hstored
          | error e =>
              cases he : e.isStoreFailure with
              | true =>
                  simp only [he, if_true]
                  exact ih hstored
              | false =>
                  simp only [he, Bool.false_eq_true, if_false]
                  exact hstored

/-- What placing a value at the peers that a search has settled on can come to. -/
inductive Placing {P : Type} [PeerStore P] (node : Node P S σ) (l : Lookup) (value : Bytes)
    (s : σ) : Except Error Unit × σ → Prop where
  /-- They are too few. -/
  | few (hfew : l.session.peers.length < node.config.minStores) :
      Placing node l value s (.error (.settingFailed
        (.notEnoughStorers l.session.peers.length node.config.minStores) l.errors), s)
  /-- A store failed with an error that is not that of one replica. -/
  | aborted (henough : node.config.minStores ≤ l.session.peers.length) (e : RpcError) (s' : σ)
      (hrep : node.replicate ⟨l.key, value⟩ l.session.peers (node.evict l.errors s) =
        (.error e, s')) : Placing node l value s (.error (.rpc e), s')
  /-- Too few of them acknowledged the value. -/
  | short (henough : node.config.minStores ≤ l.session.peers.length) (failures : List PeerError)
      (s' : σ) (hrep : node.replicate ⟨l.key, value⟩ l.session.peers (node.evict l.errors s) =
        (.ok failures, s'))
      (hlt : l.session.peers.length - failures.length < node.config.minStores) :
      Placing node l value s (.error (.settingFailed (.notEnoughReplicas
        (l.session.peers.length - failures.length) node.config.minStores) failures), s')
  /-- The value is set. -/
  | stored (henough : node.config.minStores ≤ l.session.peers.length) (failures : List PeerError)
      (s' : σ) (hrep : node.replicate ⟨l.key, value⟩ l.session.peers (node.evict l.errors s) =
        (.ok failures, s'))
      (hge : node.config.minStores ≤ l.session.peers.length - failures.length) :
      Placing node l value s (.ok (), s')

theorem placing {P : Type} [PeerStore P] (node : Node P S σ) (l : Lookup) (value : Bytes) (s : σ) :
    Placing node l value s (node.place l value s) := by
  rw [place]
  by_cases hfew : l.session.peers.length < node.config.minStores
  · rw [if_pos hfew]
    exact .few hfew
  rw [if_neg hfew]
  have henough := Nat.le_of_not_lt hfew
  cases hrep : node.replicate ⟨l.key, value⟩ l.session.peers (node.evict l.errors s) with
  | mk outcome s' =>
      cases outcome with
      | error e => exact .aborted henough e s' hrep
      | ok failures =>
          by_cases hlt : l.session.peers.length - failures.length < node.config.minStores
          · simp only [if_pos hlt]
            exact .short henough failures s' hrep hlt
          · simp only [if_neg hlt]
            exact .stored henough failures s' hrep (Nat.le_of_not_lt hlt)

/-- What forgetting peers and every store keep up, placing a value does. -/
theorem place_rule {P : Type} [PeerStore P] {node : Node P S σ} {J : σ → Prop} {l : Lookup}
    {value : Bytes} (hevict : ∀ errors s, J s → J (node.evict errors s))
    (hstore : ∀ peer s, J s → J (node.storeAt peer ⟨l.key, value⟩ s).2) (hJ : J s) :
    J (node.place l value s).2 := by
  have hreplicated := replicate_rule hstore l.session.peers (hevict l.errors s hJ)
  have hplace := placing node l value s
  generalize node.place l value s = result at hplace ⊢
  cases hplace with
  | few => exact hJ
  | aborted _ e s' hrep => rwa [hrep] at hreplicated
  | short _ failures s' hrep => rwa [hrep] at hreplicated
  | stored _ failures s' hrep => rwa [hrep] at hreplicated

/-! ## Asking oneself first -/

/-- What asking oneself first can come to; it changes nothing. -/
inductive Beginning (node : Node RoutingTable S σ) (session : Session) (key : Id) (k : UInt64)
    (s : σ) : Except Error Opening × σ → Prop where
  /-- The key is of another overlay. -/
  | foreign (hl : (node.id s).length ≠ key.length) :
      Beginning node session key k s
        (.error (.id (.lengthMismatch (node.id s).length key.length)), s)
  /-- The server fails. -/
  | unable (hl : (node.id s).length = key.length) (code : ErrorCode)
      (hlook : (node.server s).lookUp ⟨key, k⟩ = .error code) :
      Beginning node session key k s (.error (.server code), s)
  /-- It has a value. -/
  | here (hl : (node.id s).length = key.length) (responder : Id) (value : Bytes) (nodes : List Peer)
      (hlook : (node.server s).lookUp ⟨key, k⟩ = .ok ⟨responder, some value, nodes⟩) :
      Beginning node session key k s (.ok (.here value), s)
  /-- It names peers of another overlay. -/
  | unmeasured (hl : (node.id s).length = key.length) (responder : Id) (nodes : List Peer)
      (hlook : (node.server s).lookUp ⟨key, k⟩ = .ok ⟨responder, none, nodes⟩)
      (hnodes : ¬ ∀ p ∈ nodes, p.id.length = key.length) (cause : IdError) :
      Beginning node session key k s (.error (.id cause), s)
  /-- It names peers to go on with. -/
  | lookup (hl : (node.id s).length = key.length) (responder : Id) (nodes : List Peer)
      (hlook : (node.server s).lookUp ⟨key, k⟩ = .ok ⟨responder, none, nodes⟩)
      (hnodes : ∀ p ∈ nodes, p.id.length = key.length) :
      Beginning node session key k s
        (.ok (.lookup (node.openingLookup session key k nodes s)), s)

theorem beginning (hn : node.Lawful) (session : Session) (key : Id) (k : UInt64) (s : σ) :
    Beginning node session key k s (node.begin session key k s) := by
  by_cases hl : (node.id s).length = key.length
  · have hself : (node.server s).candidates key [node.self s] =
        .ok [Candidate.fresh key (node.self s)] := by
      rw [Server.candidates_cons hl]
      rfl
    have hmatches : (node.server s).Matches none key := ⟨hl.symm, by simp⟩
    have hget : (Server.handleGet none ⟨key, k⟩ (node.server s)).1 =
        (node.server s).lookUp ⟨key, k⟩ := by
      rw [Server.handleGet_eq hmatches]
      rfl
    rw [self, id] at hself
    rw [begin, hself]
    simp only [hn.locally_handleGet, hget]
    cases hlook : (node.server s).lookUp ⟨key, k⟩ with
    | error code => exact .unable hl code hlook
    | ok reply =>
        obtain ⟨responder, value, nodes⟩ := reply
        cases value with
        | some value => exact .here hl responder value nodes hlook
        | none =>
            cases hc : (node.server s).candidates key nodes with
            | error e =>
                obtain ⟨cause, rfl⟩ := Server.candidates_error hc
                have hnodes : ¬ ∀ p ∈ nodes, p.id.length = key.length := fun hnodes => by
                  rw [Server.candidates_eq hnodes] at hc
                  contradiction
                simp only [hc]
                exact .unmeasured hl responder nodes hlook hnodes cause
            | ok cs =>
                have hnodes := Server.length_eq_of_candidates hc
                simp only [Server.candidates_eq hnodes]
                exact .lookup hl responder nodes hlook hnodes
  · have hself : (node.server s).candidates key [node.self s] = _ :=
      Server.candidates_cons_of_length_ne hl []
    rw [self, id] at hself
    rw [begin, hself]
    exact .foreign hl

/-- A node that names peers of its overlay goes on with them. -/
theorem begin_of_lookUp (hn : node.Lawful) (session : Session)
    (hl : (node.id s).length = key.length) {responder : Id} {nodes : List Peer}
    (hlook : (node.server s).lookUp ⟨key, k⟩ = .ok ⟨responder, none, nodes⟩)
    (hnodes : ∀ p ∈ nodes, p.id.length = key.length) :
    node.begin session key k s =
      (.ok (.lookup (node.openingLookup session key k nodes s)), s) := by
  have hbegin := beginning hn session key k s
  generalize node.begin session key k s = result at hbegin ⊢
  cases hbegin with
  | foreign hl' => exact absurd hl hl'
  | unable _ code hlook' => simp [hlook] at hlook'
  | here _ responder' value nodes' hlook' => simp [hlook] at hlook'
  | unmeasured _ responder' nodes' hlook' hnodes' =>
      obtain ⟨_, rfl⟩ : responder = responder' ∧ nodes = nodes' := by
        simpa [hlook] using hlook'
      exact absurd hnodes hnodes'
  | lookup _ responder' nodes' hlook' =>
      obtain ⟨_, rfl⟩ : responder = responder' ∧ nodes = nodes' := by
        simpa [hlook] using hlook'
      rfl

/-- To begin changes nothing. -/
theorem begin_snd (hn : node.Lawful) (session : Session) (key : Id) (k : UInt64) (s : σ) :
    (node.begin session key k s).2 = s := by
  have hbegin := beginning hn session key k s
  generalize node.begin session key k s = result at hbegin ⊢
  cases hbegin <;> rfl

/-- A node that begins is of the key's overlay. -/
theorem length_eq_of_begin (hn : node.Lawful) {opening : Opening}
    (h : node.begin session key k s = (.ok opening, s')) : (node.id s).length = key.length := by
  have hbegin := beginning hn session key k s
  rw [h] at hbegin
  cases hbegin with
  | here hl => exact hl
  | lookup hl => exact hl

/-- A node that cannot begin is of another overlay, or has a server that fails. -/
theorem begin_error (hn : node.Lawful) {e : Error}
    (h : node.begin session key k s = (.error e, s')) :
    (∃ cause, e = .id cause) ∨ ∃ code, e = .server code := by
  have hbegin := beginning hn session key k s
  rw [h] at hbegin
  cases hbegin with
  | foreign => exact .inl ⟨_, rfl⟩
  | unable _ code => exact .inr ⟨code, rfl⟩
  | unmeasured _ _ _ _ _ cause => exact .inl ⟨cause, rfl⟩

end Node

namespace Lookup

variable {S σ : Type} {node : Node RoutingTable S σ} {l l' : Lookup} {s s' : σ}

/-! ## One step -/

/-- A lookup that a node may go on with: its key is of the overlay, and its
session is well formed. -/
structure Sound (node : Node RoutingTable S σ) (l : Lookup) (s : σ) : Prop where
  length_eq : (node.id s).length = l.key.length
  wellFormed : l.session.WellFormed l.key

/-- Everybody that an accepted reply names is met. -/
theorem absorb_eq {nodes : List Peer} (hk : (node.id s).length = l.key.length)
    (hl : ∀ p ∈ nodes, p.id.length = l.key.length) : l.absorb node nodes s =
      (if l.session.isBounded ∧ (l.session.merge (nodes.map (Candidate.fresh l.key))).1 = 0
        then some .settled else none,
        { l with session := (l.session.merge (nodes.map (Candidate.fresh l.key))).2 },
        node.meetAll nodes s) := by
  have hlearn : node.locally (Server.learn l.key nodes) s =
      (.ok (nodes.map (Candidate.fresh l.key)), node.meetAll nodes s) := by
    rw [Node.locally, Server.learn_eq hk.symm hl]
    rfl
  have hbounded : (l.session.merge (nodes.map (Candidate.fresh l.key))).2.isBounded =
      l.session.isBounded := by
    rw [Session.isBounded, Session.capacity_merge]
    rfl
  rw [absorb, hlearn, ← hbounded]

variable [Storage S]

/-- What a step of a search can come to. -/
inductive Stepped (node : Node RoutingTable S σ) (l : Lookup) (s : σ) :
    Option Ending × Lookup × σ → Prop where
  /-- Everybody was asked. -/
  | exhausted (hnext : l.session.next? = none) : Stepped node l s (some .exhausted, l, s)
  /-- The peer is passed over. -/
  | skipped (c : Candidate) (session : Session) (e : RpcError) (s' : σ)
      (hnext : l.session.next? = some (c, session))
      (hask : node.ask c.peer ⟨l.key, l.k⟩ s = (.error e, s')) (he : e.isExpected = true) :
      Stepped node l s (none, { l with session, errors := l.errors ++ [⟨c.peer, e⟩] }, s')
  /-- The error is more than one bad peer. -/
  | aborted (c : Candidate) (session : Session) (e : RpcError) (s' : σ)
      (hnext : l.session.next? = some (c, session))
      (hask : node.ask c.peer ⟨l.key, l.k⟩ s = (.error e, s')) (he : e.isExpected = false) :
      Stepped node l s (some (.failed (.rpc e)), { l with session }, s')
  /-- The peer has a value. -/
  | found (c : Candidate) (session : Session) (reply : GetReply) (value : Bytes) (s' : σ)
      (hnext : l.session.next? = some (c, session))
      (hask : node.ask c.peer ⟨l.key, l.k⟩ s = (.ok reply, s')) (hv : reply.value = some value) :
      Stepped node l s (some (.found c.peer value), { l with session }, s')
  /-- The peer names nobody that a bounded session takes. -/
  | settled (c : Candidate) (session : Session) (reply : GetReply) (s' : σ)
      (hnext : l.session.next? = some (c, session))
      (hask : node.ask c.peer ⟨l.key, l.k⟩ s = (.ok reply, s')) (hv : reply.value = none)
      (hbounded : session.isBounded = true)
      (htaken : (session.merge (reply.nodes.map (Candidate.fresh l.key))).1 = 0) :
      Stepped node l s (some .settled, { l with session }, node.meetAll reply.nodes s')
  /-- The peers that it names become known, and candidates. -/
  | widened (c : Candidate) (session : Session) (reply : GetReply) (s' : σ)
      (hnext : l.session.next? = some (c, session))
      (hask : node.ask c.peer ⟨l.key, l.k⟩ s = (.ok reply, s')) (hv : reply.value = none)
      (htaken : session.isBounded = true →
        (session.merge (reply.nodes.map (Candidate.fresh l.key))).1 ≠ 0) :
      Stepped node l s
        (none, { l with session := (session.merge (reply.nodes.map (Candidate.fresh l.key))).2 },
          node.meetAll reply.nodes s')

theorem stepped (hn : node.Lawful) (h : l.Sound node s) : Stepped node l s (l.step node s) := by
  rw [step]
  cases hnext : l.session.next? with
  | none => exact .exhausted hnext
  | some picked =>
      obtain ⟨c, session⟩ := picked
      have hid := hn.id_ask c.peer ⟨l.key, l.k⟩ s
      cases hask : node.ask c.peer ⟨l.key, l.k⟩ s with
      | mk outcome s' =>
          rw [hask] at hid
          cases outcome with
          | error e =>
              cases he : e.isExpected with
              | true =>
                  simp only [hask, he, if_true]
                  exact .skipped c session e s' hnext hask he
              | false =>
                  simp only [hask, he, Bool.false_eq_true, if_false]
                  exact .aborted c session e s' hnext hask he
          | ok reply =>
              cases hv : reply.value with
              | some value =>
                  simp only [hask, hv]
                  exact .found c session reply value s' hnext hask hv
              | none =>
                  have hl : ∀ p ∈ reply.nodes, p.id.length = l.key.length :=
                    Node.length_eq_of_ask hask
                  have hk : (node.id s').length = l.key.length :=
                    (congrArg Id.length hid).trans h.length_eq
                  simp only [hask, hv]
                  rw [absorb_eq (l := { l with session }) hk hl]
                  by_cases hstop : session.isBounded = true ∧
                      (session.merge (reply.nodes.map (Candidate.fresh l.key))).1 = 0
                  · have hsame := Session.merge_of_taken_zero hstop.2
                    rw [if_pos hstop, hsame]
                    exact .settled c session reply s' hnext hask hv hstop.1 hstop.2
                  · rw [if_neg hstop]
                    exact .widened c session reply s' hnext hask hv
                      fun hb ht => hstop ⟨hb, ht⟩

/-- No step changes what is looked for, or how many candidates there may be. -/
theorem Stepped.frame {ending : Option Ending} (h : Stepped node l s (ending, l', s')) :
    l'.key = l.key ∧ l'.k = l.k ∧ l'.session.capacity = l.session.capacity := by
  have hpick : ∀ c session, l.session.next? = some (c, session) →
      session.capacity = l.session.capacity := fun _ _ hnext => (Session.frame_next? hnext).2.2
  cases h with
  | exhausted => exact ⟨rfl, rfl, rfl⟩
  | skipped c session e s' hnext => exact ⟨rfl, rfl, hpick c session hnext⟩
  | aborted c session e s' hnext => exact ⟨rfl, rfl, hpick c session hnext⟩
  | found c session reply value s' hnext => exact ⟨rfl, rfl, hpick c session hnext⟩
  | settled c session reply s' hnext => exact ⟨rfl, rfl, hpick c session hnext⟩
  | widened c session reply s' hnext =>
      exact ⟨rfl, rfl, (Session.capacity_merge _ _).trans (hpick c session hnext)⟩

/-- No step changes the id of the node. -/
theorem Stepped.id_eq {ending : Option Ending} (hn : node.Lawful)
    (h : Stepped node l s (ending, l', s')) : node.id s' = node.id s := by
  have hask : ∀ peer outcome s', node.ask peer ⟨l.key, l.k⟩ s = (outcome, s') →
      node.id s' = node.id s := by
    intro peer outcome s' ha
    have hid := hn.id_ask peer ⟨l.key, l.k⟩ s
    rwa [ha] at hid
  cases h with
  | exhausted => rfl
  | skipped c session e s' _ ha => exact hask _ _ _ ha
  | aborted c session e s' _ ha => exact hask _ _ _ ha
  | found c session reply value s' _ ha => exact hask _ _ _ ha
  | settled c session reply s' _ ha => exact (hn.id_meetAll _ _).trans (hask _ _ _ ha)
  | widened c session reply s' _ ha => exact (hn.id_meetAll _ _).trans (hask _ _ _ ha)

/-- A step leads from sound lookups to sound ones. -/
theorem Stepped.sound {ending : Option Ending} (hn : node.Lawful) (h : l.Sound node s)
    (hstep : Stepped node l s (ending, l', s')) : l'.Sound node s' := by
  have hpick : ∀ c session, l.session.next? = some (c, session) → session.WellFormed l.key := by
    intro c session hnext
    obtain ⟨e, _, _, _, rfl, _⟩ := Session.of_next? hnext
    exact h.wellFormed.markSearched _
  have hwf : l'.session.WellFormed l.key := by
    cases hstep with
    | exhausted => exact h.wellFormed
    | skipped c session e s' hnext => exact hpick c session hnext
    | aborted c session e s' hnext => exact hpick c session hnext
    | found c session reply value s' hnext => exact hpick c session hnext
    | settled c session reply s' hnext => exact hpick c session hnext
    | widened c session reply s' hnext ha =>
        exact (hpick c session hnext).merge (Node.length_eq_of_ask ha)
  have hkey := hstep.frame.1
  refine ⟨?_, by rwa [hkey]⟩
  rw [hstep.id_eq hn, h.length_eq, hkey]

/-- No step leaves a search without candidates. -/
theorem Stepped.ne_nil {ending : Option Ending} (hstep : Stepped node l s (ending, l', s'))
    (h : l.session.candidates ≠ []) : l'.session.candidates ≠ [] := by
  have hpick : ∀ c session, l.session.next? = some (c, session) → session.candidates ≠ [] := by
    intro c session hnext
    obtain ⟨e, _, _, _, rfl, _⟩ := Session.of_next? hnext
    exact Session.markSearched_ne_nil h _
  cases hstep with
  | exhausted => exact h
  | skipped c session e s' hnext => exact hpick c session hnext
  | aborted c session e s' hnext => exact hpick c session hnext
  | found c session reply value s' hnext => exact hpick c session hnext
  | settled c session reply s' hnext => exact hpick c session hnext
  | widened c session reply s' hnext => exact Session.merge_ne_nil (hpick c session hnext) _

/-! ## A whole search -/

variable (Inv : Lookup → σ → Prop) (Post : Ending → Lookup → σ → Prop)

/-- **What every step keeps up, a search does**, unless the bound on the
number of steps ends it. -/
theorem runFor_rule
    (hmore : ∀ l s l' s', Inv l s → l.step node s = (none, l', s') → Inv l' s')
    (hend : ∀ l s e l' s', Inv l s → l.step node s = (some e, l', s') → Post e l' s')
    (h : Inv l s) (fuel : Nat) {ending : Ending} (hrun : runFor node fuel l s = (ending, l', s')) :
    (ending = .cutOff ∧ Inv l' s') ∨ Post ending l' s' := by
  induction fuel generalizing l s with
  | zero =>
      obtain ⟨rfl, rfl, rfl⟩ : .cutOff = ending ∧ l = l' ∧ s = s' := by simpa [runFor] using hrun
      exact .inl ⟨rfl, h⟩
  | succ fuel ih =>
      rw [runFor] at hrun
      cases hstep : l.step node s with
      | mk outcome next =>
          obtain ⟨l₁, s₁⟩ := next
          rw [hstep] at hrun
          cases outcome with
          | some e =>
              obtain ⟨rfl, rfl, rfl⟩ : e = ending ∧ l₁ = l' ∧ s₁ = s' := by simpa using hrun
              exact .inr (hend l s e l₁ s₁ h hstep)
          | none => exact ih (hmore l s l₁ s₁ h hstep) hrun

/-- A search whose steps make progress ends before the bound on their number. -/
theorem runFor_terminates (measure : Lookup → Nat)
    (hmore : ∀ l s l' s', Inv l s → l.step node s = (none, l', s') →
      Inv l' s' ∧ measure l' < measure l)
    (hend : ∀ l s e l' s', Inv l s → l.step node s = (some e, l', s') → Post e l' s')
    (h : Inv l s) {fuel : Nat} (hfuel : measure l < fuel) :
    Post (runFor node fuel l s).1 (runFor node fuel l s).2.1 (runFor node fuel l s).2.2 := by
  induction fuel generalizing l s with
  | zero => exact absurd hfuel (Nat.not_lt_zero _)
  | succ fuel ih =>
      rw [runFor]
      cases hstep : l.step node s with
      | mk outcome next =>
          obtain ⟨l₁, s₁⟩ := next
          cases outcome with
          | some e => exact hend l s e l₁ s₁ h hstep
          | none =>
              obtain ⟨h₁, hlt⟩ := hmore l s l₁ s₁ h hstep
              exact ih h₁ (by omega)

/-- A search that ends with its first step. -/
theorem run_of_step {e : Ending} (hstep : l.step node s = (some e, l', s')) :
    l.run node s = (e, l', s') := by
  have hpos : 0 < l.stepBound := Nat.pow_pos (by decide)
  obtain ⟨fuel, hfuel⟩ := Nat.exists_eq_add_one_of_ne_zero hpos.ne'
  rw [run, hfuel, runFor, hstep]

/-- Whatever asking and meeting peers keep up, a search does; its lookup stays
sound, with the same key and capacity, and only a request can make it fail. -/
theorem Sound.runFor (hn : node.Lawful) {J : σ → Prop}
    (hask : ∀ peer request s, J s → J (node.ask peer request s).2)
    (hmeet : ∀ peers s, J s → J (node.meetAll peers s))
    (h : l.Sound node s) (hJ : J s) {fuel : Nat} {ending : Ending}
    (hrun : runFor node fuel l s = (ending, l', s')) :
    J s' ∧ l'.Sound node s' ∧ l'.key = l.key ∧ l'.session.capacity = l.session.capacity ∧
      ∀ e, ending = .failed e → ∃ cause, e = .rpc cause := by
  have hstep : ∀ (l₁ : Lookup) (s₁ : σ) (outcome : Option Ending) (l₂ : Lookup) (s₂ : σ),
      (J s₁ ∧ l₁.Sound node s₁ ∧ l₁.key = l.key ∧ l₁.session.capacity = l.session.capacity) →
      l₁.step node s₁ = (outcome, l₂, s₂) →
      (J s₂ ∧ l₂.Sound node s₂ ∧ l₂.key = l.key ∧ l₂.session.capacity = l.session.capacity) ∧
        ∀ e, outcome = some (.failed e) → ∃ cause, e = .rpc cause := by
    rintro l₁ s₁ outcome l₂ s₂ ⟨hJ₁, h₁, hk, hc⟩ heq
    have hst := stepped hn h₁
    rw [heq] at hst
    obtain ⟨hk', _, hc'⟩ := hst.frame
    refine ⟨⟨?_, hst.sound hn h₁, hk'.trans hk, hc'.trans hc⟩, ?_⟩
    have hasked : ∀ peer outcome s', node.ask peer ⟨l₁.key, l₁.k⟩ s₁ = (outcome, s') → J s' := by
      intro peer outcome s' ha
      have hJ' := hask peer ⟨l₁.key, l₁.k⟩ s₁ hJ₁
      rwa [ha] at hJ'
    · cases hst with
      | exhausted => exact hJ₁
      | skipped c session e s' _ ha => exact hasked _ _ _ ha
      | aborted c session e s' _ ha => exact hasked _ _ _ ha
      | found c session reply value s' _ ha => exact hasked _ _ _ ha
      | settled c session reply s' _ ha => exact hmeet _ _ (hasked _ _ _ ha)
      | widened c session reply s' _ ha => exact hmeet _ _ (hasked _ _ _ ha)
    · intro e hfailed
      cases hst with
      | aborted c session e' =>
          obtain rfl := Ending.failed.inj (Option.some.inj hfailed)
          exact ⟨e', rfl⟩
      | _ => simp at hfailed
  have hrule := runFor_rule _ _
    (fun l₁ s₁ l₂ s₂ h₁ heq => (hstep l₁ s₁ none l₂ s₂ h₁ heq).1)
    (fun l₁ s₁ e l₂ s₂ h₁ heq => hstep l₁ s₁ (some e) l₂ s₂ h₁ heq) ⟨hJ, h, rfl, rfl⟩ fuel hrun
  rcases hrule with ⟨rfl, hJ', hsound, hk, hc⟩ | ⟨⟨hJ', hsound, hk, hc⟩, hfailed⟩
  · exact ⟨hJ', hsound, hk, hc, by simp⟩
  · exact ⟨hJ', hsound, hk, hc, fun e he => hfailed e (congrArg some he)⟩

end Lookup

namespace Node

variable {S σ : Type} [Storage S] {node : Node RoutingTable S σ} {key : Id} {s s' : σ}

/-- The lookup that a node begins with is sound. -/
theorem sound_of_begin (hn : node.Lawful) {capacity : Option Nat} {k : UInt64} {l : Lookup}
    (h : node.begin ⟨capacity, []⟩ key k s = (.ok (.lookup l), s')) :
    l.Sound node s ∧ l.key = key ∧ l.session.capacity = capacity := by
  have hbegin := beginning hn ⟨capacity, []⟩ key k s
  rw [h] at hbegin
  cases hbegin with
  | lookup hl responder nodes _ hnodes =>
      have hself : ∀ p ∈ [node.self s], p.id.length = key.length := by
        intro p hp
        rw [List.mem_singleton.mp hp]
        exact hl
      have hempty := Session.WellFormed.empty capacity key
      refine ⟨⟨hl, ((hempty.merge hself).markSearched (node.id s)).merge hnodes⟩, rfl, ?_⟩
      rw [openingLookup, Session.capacity_merge, capacity_opened]

/-! ## Searching for a value -/

/-- What the end of a search means to somebody who wants a value. -/
def searchResult (errors : List PeerError) : Lookup.Ending → Except Error Bytes
  | .found _ value => .ok value
  | .failed e => .error e
  | .settled | .exhausted => .error (.notFound errors)
  | .cutOff => .error .interrupted

/-- What getting a value can come to. -/
inductive Getting (node : Node RoutingTable S σ) (key : Id) (s : σ) :
    Except Error Bytes × σ → Prop where
  /-- The node cannot answer itself. -/
  | refused (e : Error)
      (hbegin : node.begin .unbounded key node.config.peersReturnedGet s = (.error e, s)) :
      Getting node key s (.error e, s)
  /-- It has a value itself. -/
  | here (value : Bytes)
      (hbegin : node.begin .unbounded key node.config.peersReturnedGet s =
        (.ok (.here value), s)) : Getting node key s (.ok value, s)
  /-- It searches for one. -/
  | searched (l₀ l : Lookup) (ending : Lookup.Ending) (s' : σ)
      (hbegin : node.begin .unbounded key node.config.peersReturnedGet s =
        (.ok (.lookup l₀), s)) (hrun : l₀.run node s = (ending, l, s')) :
      Getting node key s (searchResult l.errors ending, node.evict l.errors s')

theorem getting (hn : node.Lawful) (key : Id) (s : σ) :
    Getting node key s (node.getValue key s) := by
  rw [getValue]
  have hsnd := begin_snd hn .unbounded key node.config.peersReturnedGet s
  cases hbegin : node.begin .unbounded key node.config.peersReturnedGet s with
  | mk opening s₁ =>
      rw [hbegin] at hsnd
      obtain rfl : s₁ = s := hsnd
      cases opening with
      | error e => exact .refused e hbegin
      | ok opening =>
          cases opening with
          | here value => exact .here value hbegin
          | lookup l₀ =>
              cases hrun : l₀.run node s₁ with
              | mk ending next =>
                  have hget := Getting.searched l₀ next.1 ending next.2 hbegin hrun
                  simp only [hrun]
                  cases ending <;> exact hget

theorem getValue_of_here {value : Bytes}
    (hbegin : node.begin .unbounded key node.config.peersReturnedGet s =
      (.ok (.here value), s)) : (node.getValue key s).1 = .ok value := by
  rw [getValue, hbegin]

theorem getValue_of_found {l₀ l : Lookup} {p : Peer} {value : Bytes}
    (hbegin : node.begin .unbounded key node.config.peersReturnedGet s = (.ok (.lookup l₀), s))
    (hrun : l₀.run node s = (.found p value, l, s')) : (node.getValue key s).1 = .ok value := by
  rw [getValue, hbegin]
  simp only [hrun]

theorem getValue_of_exhausted {l₀ l : Lookup}
    (hbegin : node.begin .unbounded key node.config.peersReturnedGet s = (.ok (.lookup l₀), s))
    (hrun : l₀.run node s = (.exhausted, l, s')) :
    (node.getValue key s).1 = .error (.notFound l.errors) := by
  rw [getValue, hbegin]
  simp only [hrun]

/-! ## Searching for storers -/

/-- The search for nodes to store a value at: it ends with their lookup, or
with the error that keeps the value from being placed. -/
def seek (node : Node RoutingTable S σ) (key : Id) (s : σ) : Except Error Lookup × σ :=
  if node.config.maxStores = 0 then (.error (.invalidConfig .noStores), s)
  else
    match node.begin (.bounded node.config.maxStores) key node.config.peersReturnedSet s with
    | (.error e, s) => (.error e, s)
    | (.ok (.here _), s) => (.error .alreadySet, s)
    | (.ok (.lookup l), s) =>
      match l.run node s with
      | (.found _ _, _, s) => (.error .alreadySet, s)
      | (.failed e, _, s) => (.error e, s)
      | (.cutOff, _, s) => (.error .interrupted, s)
      | (.settled, l, s) | (.exhausted, l, s) => (.ok l, s)

/-- **To set a value is to search for storers and then to place it there.** -/
theorem setValue_eq (node : Node RoutingTable S σ) (key : Id) (value : Bytes) (s : σ) :
    node.setValue key value s =
      match node.seek key s with
      | (.error e, s) => (.error e, s)
      | (.ok l, s) => node.place l value s := by
  rw [setValue, seek]
  by_cases hmax : node.config.maxStores = 0
  · rw [if_pos hmax, if_pos hmax]
  · rw [if_neg hmax, if_neg hmax, setValueIn]
    cases node.begin (.bounded node.config.maxStores) key node.config.peersReturnedSet s with
    | mk opening s₁ =>
        cases opening with
        | error e => rfl
        | ok opening =>
            cases opening with
            | here value => rfl
            | lookup l =>
                cases hrun : l.run node s₁ with
                | mk ending next =>
                    simp only [hrun]
                    cases ending <;> rfl

theorem setValue_of_seek_error {e : Error} (h : node.seek key s = (.error e, s')) (value : Bytes) :
    node.setValue key value s = (.error e, s') := by
  rw [setValue_eq, h]

theorem setValue_of_seek_ok {l : Lookup} (h : node.seek key s = (.ok l, s')) (value : Bytes) :
    node.setValue key value s = node.place l value s' := by
  rw [setValue_eq, h]

/-- What a search for storers can come to. -/
inductive Seeking (node : Node RoutingTable S σ) (key : Id) (s : σ) :
    Except Error Lookup × σ → Prop where
  /-- There are to be no storers. -/
  | noStores (hmax : node.config.maxStores = 0) :
      Seeking node key s (.error (.invalidConfig .noStores), s)
  /-- The node cannot answer itself. -/
  | refused (hmax : node.config.maxStores ≠ 0) (e : Error)
      (hbegin : node.begin (.bounded node.config.maxStores) key node.config.peersReturnedSet s =
        (.error e, s)) : Seeking node key s (.error e, s)
  /-- It has a value itself. -/
  | here (hmax : node.config.maxStores ≠ 0) (value : Bytes)
      (hbegin : node.begin (.bounded node.config.maxStores) key node.config.peersReturnedSet s =
        (.ok (.here value), s)) : Seeking node key s (.error .alreadySet, s)
  /-- Somebody else has one. -/
  | found (hmax : node.config.maxStores ≠ 0) (l₀ l : Lookup) (peer : Peer) (value : Bytes) (s' : σ)
      (hbegin : node.begin (.bounded node.config.maxStores) key node.config.peersReturnedSet s =
        (.ok (.lookup l₀), s)) (hrun : l₀.run node s = (.found peer value, l, s')) :
      Seeking node key s (.error .alreadySet, s')
  /-- A request failed. -/
  | failed (hmax : node.config.maxStores ≠ 0) (l₀ l : Lookup) (e : Error) (s' : σ)
      (hbegin : node.begin (.bounded node.config.maxStores) key node.config.peersReturnedSet s =
        (.ok (.lookup l₀), s)) (hrun : l₀.run node s = (.failed e, l, s')) :
      Seeking node key s (.error e, s')
  /-- The bound on the number of steps was reached. -/
  | cutOff (hmax : node.config.maxStores ≠ 0) (l₀ l : Lookup) (s' : σ)
      (hbegin : node.begin (.bounded node.config.maxStores) key node.config.peersReturnedSet s =
        (.ok (.lookup l₀), s)) (hrun : l₀.run node s = (.cutOff, l, s')) :
      Seeking node key s (.error .interrupted, s')
  /-- The closest peers stay the same, or everybody was asked. -/
  | ended (hmax : node.config.maxStores ≠ 0) (l₀ l : Lookup) (ending : Lookup.Ending) (s' : σ)
      (hbegin : node.begin (.bounded node.config.maxStores) key node.config.peersReturnedSet s =
        (.ok (.lookup l₀), s)) (hending : ending = .settled ∨ ending = .exhausted)
      (hrun : l₀.run node s = (ending, l, s')) : Seeking node key s (.ok l, s')

theorem seeking (hn : node.Lawful) (key : Id) (s : σ) : Seeking node key s (node.seek key s) := by
  rw [seek]
  by_cases hmax : node.config.maxStores = 0
  · rw [if_pos hmax]
    exact .noStores hmax
  rw [if_neg hmax]
  have hsnd := begin_snd hn (.bounded node.config.maxStores) key node.config.peersReturnedSet s
  cases hbegin : node.begin (.bounded node.config.maxStores) key
      node.config.peersReturnedSet s with
  | mk opening s₁ =>
      rw [hbegin] at hsnd
      obtain rfl : s₁ = s := hsnd
      cases opening with
      | error e => exact .refused hmax e hbegin
      | ok opening =>
          cases opening with
          | here value => exact .here hmax value hbegin
          | lookup l₀ =>
              cases hrun : l₀.run node s₁ with
              | mk ending next =>
                  simp only [hrun]
                  cases ending with
                  | found peer value => exact .found hmax l₀ next.1 peer value next.2 hbegin hrun
                  | failed e => exact .failed hmax l₀ next.1 e next.2 hbegin hrun
                  | cutOff => exact .cutOff hmax l₀ next.1 next.2 hbegin hrun
                  | settled =>
                      exact .ended hmax l₀ next.1 .settled next.2 hbegin (.inl rfl) hrun
                  | exhausted =>
                      exact .ended hmax l₀ next.1 .exhausted next.2 hbegin (.inr rfl) hrun

theorem seek_of_run (hmax : node.config.maxStores ≠ 0) {l₀ l : Lookup} {ending : Lookup.Ending}
    (hbegin : node.begin (.bounded node.config.maxStores) key node.config.peersReturnedSet s =
      (.ok (.lookup l₀), s)) (hrun : l₀.run node s = (ending, l, s'))
    (hending : ending = .settled ∨ ending = .exhausted) : node.seek key s = (.ok l, s') := by
  rw [seek, if_neg hmax, hbegin]
  simp only [hrun]
  rcases hending with rfl | rfl <;> rfl

theorem seek_of_here (hmax : node.config.maxStores ≠ 0) {value : Bytes}
    (hbegin : node.begin (.bounded node.config.maxStores) key node.config.peersReturnedSet s =
      (.ok (.here value), s)) : node.seek key s = (.error .alreadySet, s) := by
  rw [seek, if_neg hmax, hbegin]

theorem seek_of_found (hmax : node.config.maxStores ≠ 0) {l₀ l : Lookup} {p : Peer} {value : Bytes}
    (hbegin : node.begin (.bounded node.config.maxStores) key node.config.peersReturnedSet s =
      (.ok (.lookup l₀), s)) (hrun : l₀.run node s = (.found p value, l, s')) :
    node.seek key s = (.error .alreadySet, s') := by
  rw [seek, if_neg hmax, hbegin]
  simp only [hrun]

/-- What asking and meeting peers keep up, a search for storers does. -/
theorem seek_rule (hn : node.Lawful) {J : σ → Prop}
    (hask : ∀ peer request s, J s → J (node.ask peer request s).2)
    (hmeet : ∀ peers s, J s → J (node.meetAll peers s)) (hJ : J s) (key : Id) :
    J (node.seek key s).2 := by
  have hrule : ∀ l₀ ending l s',
      node.begin (.bounded node.config.maxStores) key node.config.peersReturnedSet s =
        (.ok (.lookup l₀), s) → l₀.run node s = (ending, l, s') → J s' := by
    intro l₀ ending l s' hbegin hrun
    exact ((sound_of_begin hn hbegin).1.runFor hn hask hmeet hJ hrun).1
  have hseek := seeking hn key s
  generalize node.seek key s = result at hseek ⊢
  cases hseek with
  | noStores => exact hJ
  | refused => exact hJ
  | here => exact hJ
  | found _ l₀ l peer value s' hbegin hrun => exact hrule l₀ _ l s' hbegin hrun
  | failed _ l₀ l e s' hbegin hrun => exact hrule l₀ _ l s' hbegin hrun
  | cutOff _ l₀ l s' hbegin hrun => exact hrule l₀ _ l s' hbegin hrun
  | ended _ l₀ l ending s' hbegin _ hrun => exact hrule l₀ _ l s' hbegin hrun

/-- The lookup that a search for storers ends with. -/
theorem sound_of_seek (hn : node.Lawful) {l : Lookup} (h : node.seek key s = (.ok l, s')) :
    l.key = key ∧ l.Sound node s' ∧ l.session.capacity = some node.config.maxStores := by
  have hseek := seeking hn key s
  rw [h] at hseek
  cases hseek with
  | ended _ l₀ l ending s' hbegin _ hrun =>
      obtain ⟨hsound₀, hkey₀, hcap₀⟩ := sound_of_begin hn hbegin
      obtain ⟨_, hsound, hkey, hcap, _⟩ := hsound₀.runFor hn (J := fun _ => True)
        (fun _ _ _ h => h) (fun _ _ h => h) trivial hrun
      exact ⟨hkey.trans hkey₀, hsound, hcap.trans hcap₀⟩

/-- It has candidates. -/
theorem ne_nil_of_seek (hn : node.Lawful) {l : Lookup} (h : node.seek key s = (.ok l, s')) :
    l.session.candidates ≠ [] := by
  have hseek := seeking hn key s
  rw [h] at hseek
  cases hseek with
  | ended hmax l₀ l ending s' hbegin _ hrun =>
      have hsound₀ := (sound_of_begin hn hbegin).1
      have hne₀ : l₀.session.candidates ≠ [] := by
        have hopening := beginning hn (.bounded node.config.maxStores) key
          node.config.peersReturnedSet s
        rw [hbegin] at hopening
        cases hopening with
        | lookup hl responder nodes _ hnodes =>
            have hkeeps := keeps_openingLookup (m := node.config.maxStores)
              (k := node.config.peersReturnedSet) hl hnodes
            have hids := hkeeps.nearest.kept_ne_nil (Nat.pos_of_ne_zero hmax)
              (List.mem_append_right _ (List.mem_singleton.mpr rfl))
            intro hnil
            rw [Session.ids, hnil] at hids
            exact hids rfl
      have hrule := Lookup.runFor_rule (fun l s => l.Sound node s ∧ l.session.candidates ≠ [])
        (fun _ l _ => l.session.candidates ≠ []) ?_ ?_ ⟨hsound₀, hne₀⟩ _ hrun
      · rcases hrule with ⟨_, _, hne⟩ | hne <;> exact hne
      · rintro l₁ s₁ l₂ s₂ ⟨hsound₁, hne₁⟩ hstep
        have hst := Lookup.stepped hn hsound₁
        rw [hstep] at hst
        exact ⟨hst.sound hn hsound₁, hst.ne_nil hne₁⟩
      · rintro l₁ s₁ e l₂ s₂ ⟨hsound₁, hne₁⟩ hstep
        have hst := Lookup.stepped hn hsound₁
        rw [hstep] at hst
        exact hst.ne_nil hne₁

/-- A search for storers never fails for want of storers. -/
theorem seek_error (hn : node.Lawful) {e : Error} (h : (node.seek key s).1 = .error e)
    (reason : SettingFailure) (errors : List PeerError) : e ≠ .settingFailed reason errors := by
  have hseek := seeking hn key s
  generalize node.seek key s = result at h hseek
  cases hseek with
  | noStores => rw [← Except.error.inj h]; simp
  | refused _ e' hbegin =>
      obtain rfl : e' = e := Except.error.inj h
      rcases begin_error hn hbegin with ⟨cause, rfl⟩ | ⟨code, rfl⟩ <;> simp
  | here => rw [← Except.error.inj h]; simp
  | found => rw [← Except.error.inj h]; simp
  | failed _ l₀ l e' s' hbegin hrun =>
      obtain rfl : e' = e := Except.error.inj h
      obtain ⟨_, _, _, _, hfailed⟩ := (sound_of_begin hn hbegin).1.runFor hn
        (J := fun _ => True) (fun _ _ _ h => h) (fun _ _ h => h) trivial hrun
      obtain ⟨cause, rfl⟩ := hfailed e' rfl
      simp
  | cutOff => rw [← Except.error.inj h]; simp
  | ended => contradiction

end Node
end Kademlia
