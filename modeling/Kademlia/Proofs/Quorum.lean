import Kademlia.Proofs.Search

/-!
# Kademlia.Proofs.Quorum

How many peers have to acknowledge a value before it counts as set.  A node
stands among peers that may do anything: each answer or error may depend on
all that was asked before.  `Delivered` accounts for every replica of a call,
whether it was sent to a peer or kept by the node itself, and
`Node.setValue_quorum` says how the result of the call follows from them.
-/

namespace Kademlia

/-! ## A node among arbitrary peers -/

/-- A node, whatever the answers of its peers depend on, and all exchanges so far. -/
structure Setting (S τ : Type) where
  server : Server RoutingTable S
  world : τ
  log : List Exchange := []

/-- Whether a value was sent. -/
def Exchange.isStore : Exchange → Bool
  | .get .. => false
  | .store .. => true

namespace Setting

variable {S τ : Type}

/-- The values that were sent, in order, with what came of each. -/
def stores (s : Setting S τ) : List Exchange := s.log.filter Exchange.isStore

/-- The setting after an exchange. -/
def after (s : Setting S τ) (next : τ × List Exchange) : Setting S τ :=
  { s with world := next.1, log := next.2 }

end Setting

/-- A node whose peers are whatever a transport makes of them. -/
def Node.among {S τ : Type} (config : Config) (address : Address) (world : Transport τ) :
    Node RoutingTable S (Setting S τ) where
  config
  address
  server := (·.server)
  setServer server s := { s with server }
  transport :=
    { getValue := fun target request s =>
        let (outcome, next) := world.recorded.getValue target request (s.world, s.log)
        (outcome, s.after next)
      storeValue := fun target request s =>
        let (outcome, next) := world.recorded.storeValue target request (s.world, s.log)
        (outcome, s.after next) }

theorem Node.lawful_among {S τ : Type} (config : Config) (address : Address)
    (world : Transport τ) : (Node.among (S := S) config address world).Lawful where
  server_setServer _ _ := rfl
  setServer_server _ := rfl
  id_getValue _ _ _ := rfl

/-! ## Replicas -/

/-- A peer that was to keep a value, and what it replied. -/
structure Replica where
  peer : Peer
  reply : Except RpcError StoreReply

namespace Replica

/-- What the node makes of the reply. -/
def outcome (r : Replica) : Except RpcError Unit := r.reply.bind (Node.checkAcknowledgement r.peer)

/-- Whether the peer acknowledged the value, under its own id. -/
def acknowledged (r : Replica) : Bool :=
  match r.reply with
  | .ok reply => reply.responder == r.peer.id
  | .error _ => false

/-- The error of a peer that did not. -/
def failure? (r : Replica) : Option PeerError :=
  match r.outcome with
  | .ok () => none
  | .error e => some ⟨r.peer, e⟩

theorem outcome_eq_ok_iff (r : Replica) : r.outcome = .ok () ↔ r.acknowledged = true := by
  obtain ⟨peer, reply⟩ := r
  cases reply with
  | error e => simp [outcome, acknowledged, Except.bind]
  | ok reply =>
      by_cases h : reply.responder = peer.id <;>
        simp [outcome, acknowledged, Except.bind, Node.checkAcknowledgement, h]

theorem failure?_of_acknowledged {r : Replica} (h : r.acknowledged = true) :
    r.failure? = none := by
  rw [failure?, (outcome_eq_ok_iff r).mpr h]

theorem exists_failure? {r : Replica} (h : r.acknowledged = false) :
    ∃ e, r.failure? = some e ∧ e.peer = r.peer := by
  rw [failure?]
  cases ho : r.outcome with
  | ok u =>
      have hack := (outcome_eq_ok_iff r).mp ho
      rw [h] at hack
      contradiction
  | error e => exact ⟨⟨r.peer, e⟩, rfl, rfl⟩

/-- The errors are those of the peers that did not acknowledge, in order. -/
theorem filterMap_failure? (rs : List Replica) :
    (rs.filterMap failure?).map (·.peer) = (rs.filter (!·.acknowledged)).map (·.peer) := by
  induction rs with
  | nil => rfl
  | cons r rs ih =>
      cases h : r.acknowledged with
      | true =>
          rw [List.filterMap_cons_none (failure?_of_acknowledged h),
            List.filter_cons_of_neg (by simp [h]), ih]
      | false =>
          obtain ⟨e, he, hpeer⟩ := exists_failure? h
          rw [List.filterMap_cons_some he, List.filter_cons_of_pos (by simp [h]),
            List.map_cons, List.map_cons, ih, hpeer]

/-- Every replica is acknowledged or has failed. -/
theorem count_add_count (rs : List Replica) :
    (rs.filter (·.acknowledged)).length + (rs.filterMap failure?).length = rs.length := by
  have hfail := congrArg List.length (filterMap_failure? rs)
  rw [List.length_map, List.length_map] at hfail
  rw [hfail, ← List.length_append]
  exact (List.filter_append_perm (·.acknowledged) rs).length_eq

/-- The peers that did not acknowledge are as different as all of them. -/
theorem nodup_failures {rs : List Replica} (h : (rs.map (·.peer.id)).Nodup) :
    ((rs.filterMap failure?).map (·.peer.id)).Nodup := by
  have hnames := congrArg (List.map Peer.id) (filterMap_failure? rs)
  rw [List.map_map, List.map_map] at hnames
  show ((rs.filterMap failure?).map (Peer.id ∘ fun e => e.peer)).Nodup
  rw [hnames]
  exact h.sublist (List.filter_sublist.map _)

end Replica

/-! ## What a call leaves behind -/

section

variable {S τ : Type} [Storage S] {config : Config} {address : Address} {world : Transport τ}
  {s s₁ s₂ s' : Setting S τ} {request : StoreRequest} {rs rs₁ rs₂ : List Replica}

/-- The replicas between two settings: no peer has two of them; each is a value
that was sent, with the peer's reply, but the node's own, which is there if
its storage took the value.  No other value was sent or kept. -/
structure Delivered (s s' : Setting S τ) (request : StoreRequest) (rs : List Replica) : Prop where
  id_eq : s'.server.id = s.server.id
  distinct : (rs.map (·.peer.id)).Nodup
  sent : s'.stores = s.stores ++ (rs.filter (·.peer.id ≠ s.server.id)).map fun r =>
    .store r.peer.address request r.reply
  kept :
    (∃ r ∈ rs, r.peer.id = s.server.id ∧ r.acknowledged = true ∧
      Storage.set s.server.values request.key.bytes request.value = .ok s'.server.values) ∨
    ((∀ r ∈ rs, r.peer.id = s.server.id → r.acknowledged = false) ∧
      s'.server.values = s.server.values)

namespace Delivered

/-- Nothing was delivered where no value was sent or kept. -/
theorem nothing (hid : s'.server.id = s.server.id) (hstores : s'.stores = s.stores)
    (hvalues : s'.server.values = s.server.values) : Delivered s s' request [] where
  id_eq := hid
  distinct := List.nodup_nil
  sent := by simp [hstores]
  kept := .inr ⟨by simp, hvalues⟩

theorem of_nil (h : Delivered s s' request []) :
    s'.stores = s.stores ∧ s'.server.values = s.server.values := by
  refine ⟨by simpa using h.sent, ?_⟩
  rcases h.kept with ⟨r, hr, _⟩ | ⟨_, hsame⟩
  · exact absurd hr List.not_mem_nil
  · exact hsame

/-- Replicas add up. -/
theorem append (h₁ : Delivered s s₁ request rs₁) (h₂ : Delivered s₁ s₂ request rs₂)
    (hdistinct : ((rs₁ ++ rs₂).map (·.peer.id)).Nodup) :
    Delivered s s₂ request (rs₁ ++ rs₂) where
  id_eq := h₂.id_eq.trans h₁.id_eq
  distinct := hdistinct
  sent := by
    rw [h₂.sent, h₁.sent, h₁.id_eq, List.filter_append, List.map_append, List.append_assoc]
  kept := by
    have hk₂ := h₂.kept
    rw [h₁.id_eq] at hk₂
    rcases h₁.kept with ⟨r, hr, hid, hack, hset⟩ | ⟨hnone₁, hsame₁⟩
    · -- The node is in the first part, so it is not in the second one.
      rcases hk₂ with ⟨r', hr', hid', _⟩ | ⟨_, hsame₂⟩
      · rw [List.map_append, List.nodup_append] at hdistinct
        exact absurd (hid.trans hid'.symm) (hdistinct.2.2 _ (List.mem_map_of_mem hr) _
          (List.mem_map_of_mem hr'))
      · rw [← hsame₂] at hset
        exact .inl ⟨r, List.mem_append_left _ hr, hid, hack, hset⟩
    · rcases hk₂ with ⟨r, hr, hid, hack, hset⟩ | ⟨hnone₂, hsame₂⟩
      · rw [hsame₁] at hset
        exact .inl ⟨r, List.mem_append_right _ hr, hid, hack, hset⟩
      · refine .inr ⟨?_, hsame₂.trans hsame₁⟩
        intro r hr
        rcases List.mem_append.mp hr with hr | hr
        · exact hnone₁ r hr
        · exact hnone₂ r hr

theorem refl (s : Setting S τ) (request : StoreRequest) : Delivered s s request [] :=
  nothing rfl rfl rfl

end Delivered

/-! ## Asking delivers nothing -/

theorem ask_delivers_nothing (peer : Peer) (question : GetRequest) (s : Setting S τ) :
    Delivered s ((Node.among config address world).ask peer question s).2 request [] := by
  have hn := Node.lawful_among (S := S) config address world
  by_cases hid : peer.id = (Node.among (S := S) config address world).id s
  · rw [hn.ask_self hid]
    exact Delivered.refl s request
  · rw [Node.ask_of_ne hid]
    refine Delivered.nothing rfl ?_ rfl
    have hlog : ((Node.among (S := S) config address world).transport.getValue peer.address
        question s).2.log = s.log ++ [.get peer.address question
          (world.getValue peer.address question s.world).1] := rfl
    rw [Setting.stores, hlog, List.filter_append, Setting.stores]
    exact List.append_nil _

theorem meetAll_delivers_nothing (peers : List Peer) (s : Setting S τ) :
    Delivered s ((Node.among config address world).meetAll peers s) request [] :=
  Delivered.nothing (Server.id_meetAll s.server peers) rfl (Server.values_meetAll s.server peers)

theorem seek_delivers_nothing (key : Id) (s : Setting S τ) :
    Delivered s ((Node.among config address world).seek key s).2 request [] := by
  refine Node.seek_rule (J := fun s' => Delivered s s' request [])
    (Node.lawful_among config address world) ?_ ?_ (Delivered.refl s request) key
  · intro peer question s' h
    exact h.append (ask_delivers_nothing peer question s') List.nodup_nil
  · intro peers s' h
    exact h.append (meetAll_delivers_nothing peers s') List.nodup_nil

theorem evict_delivers_nothing (errors : List PeerError) (s : Setting S τ) :
    Delivered s ((Node.among config address world).evict errors s) request [] :=
  Delivered.nothing (Server.id_evict s.server errors) rfl (Server.values_evict s.server errors)

/-! ## Storing at several peers -/

variable (config address world)

/-- To store at one peer delivers one replica. -/
theorem storeAt_delivers (peer : Peer) (hk : request.key.length = s.server.id.length) :
    ∃ r : Replica, r.peer = peer ∧
      ((Node.among config address world).storeAt peer request s).1 = r.outcome ∧
      Delivered s ((Node.among config address world).storeAt peer request s).2 request [r] := by
  by_cases hid : peer.id = s.server.id
  · have hmatches : s.server.Matches none request.key := ⟨hk, by simp⟩
    have hself : (Node.among config address world).storeAt peer request s =
        (((Server.handleStore none request s.server).1.mapError RpcError.remote).bind
          (Node.checkAcknowledgement peer),
          { s with server := (Server.handleStore none request s.server).2 }) :=
      Node.storeAt_self hid request
    cases hset : Storage.set s.server.values request.key.bytes request.value with
    | error e =>
        have hhandle : Server.handleStore none request s.server = _ :=
          Server.handleStore_of_error hmatches hset
        rw [Server.greet] at hhandle
        rw [hself, hhandle]
        refine ⟨⟨peer, .error (.remote .internalServerError)⟩, rfl, rfl, rfl,
          List.nodup_singleton _, by simp [hid, Setting.stores], .inr ⟨?_, rfl⟩⟩
        intro r hr _
        rw [List.mem_singleton.mp hr]
        rfl
    | ok values =>
        have hhandle : Server.handleStore none request s.server = _ :=
          Server.handleStore_of_ok hmatches hset
        rw [Server.greet] at hhandle
        rw [hself, hhandle]
        refine ⟨⟨peer, .ok ⟨s.server.id⟩⟩, rfl, rfl, rfl,
          List.nodup_singleton _, by simp [hid, Setting.stores], .inl ?_⟩
        exact ⟨_, List.mem_singleton.mpr rfl, hid, by simp [Replica.acknowledged, hid], hset⟩
  · rw [Node.storeAt_of_ne hid]
    refine ⟨⟨peer, (world.storeValue peer.address request s.world).1⟩, rfl, rfl, rfl,
      List.nodup_singleton _, ?_, .inr ⟨?_, rfl⟩⟩
    · simp [hid, Setting.stores, Node.among, Transport.recorded, Setting.after, Exchange.isStore]
    · intro r hr
      rw [List.mem_singleton.mp hr]
      exact fun h => absurd h hid

/-- How contacting storers in order has ended follows from the replicas: unless
an error ended it, each storer got one, and those that failed are reported. -/
structure Reported (storers : List Peer) (rs : List Replica)
    (result : Except RpcError (List PeerError)) : Prop where
  contacted : rs.map (·.peer) <+: storers
  all : ∀ failures, result = .ok failures →
    rs.map (·.peer) = storers ∧ failures = rs.filterMap Replica.failure?

namespace Reported

variable {rest : List Peer} {result : Except RpcError (List PeerError)} {r : Replica}

theorem cons_ok (h : Reported rest rs result) (hr : r.failure? = none) :
    Reported (r.peer :: rest) (r :: rs) result where
  contacted := (List.prefix_cons_inj r.peer).mpr h.contacted
  all failures hok := by
    obtain ⟨hsame, hfailures⟩ := h.all failures hok
    rw [List.filterMap_cons_none hr, List.map_cons, hsame]
    exact ⟨rfl, hfailures⟩

theorem cons_failed (h : Reported rest rs result) {e : PeerError} (hr : r.failure? = some e) :
    Reported (r.peer :: rest) (r :: rs) (result.map (e :: ·)) where
  contacted := (List.prefix_cons_inj r.peer).mpr h.contacted
  all failures hok := by
    cases result with
    | error e' => contradiction
    | ok others =>
        obtain ⟨hsame, rfl⟩ := h.all others rfl
        rw [List.filterMap_cons_some hr, List.map_cons, hsame]
        exact ⟨rfl, (Except.ok.inj hok).symm⟩

theorem stopped (rest : List Peer) (r : Replica) (e : RpcError) :
    Reported (r.peer :: rest) [r] (.error e) where
  contacted := List.prefix_append [r.peer] rest
  all _ hok := by contradiction

end Reported

/-- To store at several peers delivers one replica after the other. -/
theorem replicate_delivers (request : StoreRequest) {storers : List Peer}
    (hk : request.key.length = s.server.id.length)
    (hd : (storers.map (·.id)).Nodup) :
    ∃ rs, Delivered s ((Node.among config address world).replicate request storers s).2 request rs ∧
      Reported storers rs ((Node.among config address world).replicate request storers s).1 := by
  induction storers generalizing s with
  | nil =>
      exact ⟨[], Delivered.refl s request, List.nil_prefix,
        fun _ h => ⟨rfl, (Except.ok.inj h).symm⟩⟩
  | cons peer rest ih =>
      obtain ⟨r, rfl, houtcome, hdel⟩ :
          ∃ r : Replica, r.peer = peer ∧
            ((Node.among config address world).storeAt peer request s).1 = r.outcome ∧
            Delivered s ((Node.among config address world).storeAt peer request s).2 request [r] :=
        storeAt_delivers config address world peer hk
      rw [Node.replicate]
      cases hstore : (Node.among config address world).storeAt r.peer request s with
      | mk outcome s₁ =>
          rw [hstore] at houtcome hdel
          obtain ⟨rs, hrest, hreported⟩ := ih (s := s₁)
            (hk.trans (congrArg Id.length hdel.id_eq.symm)) (List.nodup_cons.mp hd).2
          have hids : (([r] ++ rs).map (·.peer.id)).Nodup := by
            have hsub := ((List.prefix_cons_inj r.peer).mpr hreported.contacted).sublist.map Peer.id
            rw [List.map_cons, List.map_map] at hsub
            exact hd.sublist hsub
          have hboth := hdel.append hrest hids
          cases outcome with
          | ok u =>
              have hnone : r.failure? = none := by rw [Replica.failure?, ← houtcome]
              exact ⟨[r] ++ rs, hboth, hreported.cons_ok hnone⟩
          | error e =>
              have hsome : r.failure? = some ⟨r.peer, e⟩ := by
                rw [Replica.failure?, ← houtcome]
              cases he : e.isStoreFailure with
              | true =>
                  simp only [he, if_true]
                  exact ⟨[r] ++ rs, hboth, hreported.cons_failed hsome⟩
              | false =>
                  simp only [he, Bool.false_eq_true, if_false]
                  exact ⟨[r], hdel, .stopped rest r e⟩

end

/-! ## The result of setting a value -/

/-- Errors of a call that has not come to placing its value. -/
def Error.isUnplaced : Error → Bool
  | .invalidConfig _ | .id _ | .server _ | .alreadySet => true
  | .settingFailed (.notEnoughStorers _ _) _ => true
  | _ => false

namespace Node

/-- The peers that a search for storers comes to; nobody if it fails. -/
def storers {S σ : Type} [Storage S] (node : Node RoutingTable S σ) (key : Id) (s : σ) :
    List Peer :=
  match (node.seek key s).1 with
  | .ok l => l.session.peers
  | .error _ => []

/-- A search that comes to somebody does not fail. -/
theorem exists_seek_of_storers {S σ : Type} [Storage S] {node : Node RoutingTable S σ} {key : Id}
    {s : σ} (h : node.storers key s ≠ []) :
    ∃ l s', node.seek key s = (.ok l, s') ∧ l.session.peers = node.storers key s := by
  rw [storers] at h ⊢
  generalize node.seek key s = result at h ⊢
  obtain ⟨outcome, s'⟩ := result
  cases outcome with
  | error e => exact absurd rfl h
  | ok l => exact ⟨l, s', rfl, rfl⟩

/-- How the result of setting a value follows from its replicas. -/
structure Accounted (config : Config) (storers : List Peer) (replicas : List Replica)
    (result : Except Error Unit) : Prop where
  /-- Storers are contacted in order, each at most once. -/
  contacted : replicas.map (·.peer) <+: storers
  /-- A value that is set was acknowledged by enough peers, and by no more than may keep it. -/
  set : result = .ok () → replicas.map (·.peer) = storers ∧
    config.minStores ≤ (replicas.filter (·.acknowledged)).length ∧
    (replicas.filter (·.acknowledged)).length ≤ config.maxStores
  /-- Without enough acknowledgements, the error names everybody who gave none. -/
  short : ∀ stored required errors,
    result = .error (.settingFailed (.notEnoughReplicas stored required) errors) →
      replicas.map (·.peer) = storers ∧ stored = (replicas.filter (·.acknowledged)).length ∧
      stored < config.minStores ∧ required = config.minStores ∧
      errors.map (·.peer) = (replicas.filter (!·.acknowledged)).map (·.peer) ∧
      (errors.map (·.peer.id)).Nodup ∧ stored + errors.length = storers.length
  /-- Every other failure but that of a store precedes the first replica. -/
  unplaced : ∀ e, result = .error e → e.isUnplaced = true → replicas = []

namespace Accounted

variable {config : Config} {storers : List Peer} {replicas : List Replica}

/-- An error that precedes the first replica. -/
theorem early {e : Error} (he : ∀ stored required errors,
    e ≠ .settingFailed (.notEnoughReplicas stored required) errors) :
    Accounted config storers [] (.error e) where
  contacted := List.nil_prefix
  set := by simp
  short stored required errors heq := absurd (Except.error.inj heq) (he stored required errors)
  unplaced _ _ _ := rfl

/-- An error that is not a store's own ends the call. -/
theorem rpc (hcontacted : replicas.map (·.peer) <+: storers) (e : RpcError) :
    Accounted config storers replicas (.error (.rpc e)) where
  contacted := hcontacted
  set := by simp
  short := by simp
  unplaced e' he' hu := by
    rw [← Except.error.inj he'] at hu
    contradiction

/-- All storers were contacted, and too few acknowledged. -/
theorem few (hsame : replicas.map (·.peer) = storers) (hdistinct : (replicas.map (·.peer.id)).Nodup)
    (hmin : (replicas.filter (·.acknowledged)).length < config.minStores) :
    Accounted config storers replicas (.error (.settingFailed
      (.notEnoughReplicas (replicas.filter (·.acknowledged)).length config.minStores)
      (replicas.filterMap Replica.failure?))) where
  contacted := hsame ▸ List.prefix_refl _
  set := by simp
  short stored required errors heq := by
    simp only [Except.error.injEq, Error.settingFailed.injEq,
      SettingFailure.notEnoughReplicas.injEq] at heq
    obtain ⟨⟨rfl, rfl⟩, rfl⟩ := heq
    refine ⟨hsame, rfl, hmin, rfl, Replica.filterMap_failure? replicas,
      Replica.nodup_failures hdistinct, ?_⟩
    rw [Replica.count_add_count, ← hsame, List.length_map]
  unplaced e' he' hu := by
    rw [← Except.error.inj he'] at hu
    contradiction

/-- All storers were contacted, and enough acknowledged. -/
theorem enough (hsame : replicas.map (·.peer) = storers) (hmax : storers.length ≤ config.maxStores)
    (hmin : config.minStores ≤ (replicas.filter (·.acknowledged)).length) :
    Accounted config storers replicas (.ok ()) where
  contacted := hsame ▸ List.prefix_refl _
  set _ := by
    have hcount := Replica.count_add_count replicas
    rw [← hsame, List.length_map] at hmax
    exact ⟨hsame, hmin, by omega⟩
  short := by simp
  unplaced := by simp

end Accounted

section

variable {S τ : Type} [Storage S] {config : Config} {address : Address} {world : Transport τ}
  {s s' : Setting S τ} {storers : List Peer}

/-- How placing a value at the storers that were found ends. -/
theorem place_accounted {l : Lookup} (hl : l.Sound (among config address world) s)
    (hcapacity : l.session.capacity = some config.maxStores) (value : Bytes) :
    ∃ replicas,
      Delivered s ((among config address world).place l value s).2 ⟨l.key, value⟩ replicas ∧
      Accounted config l.session.peers replicas
        ((among config address world).place l value s).1 := by
  have hids : (l.session.peers.map (·.id)).Nodup := by
    rw [Session.peers, List.map_map]
    exact hl.wellFormed.nodup
  have hlen : l.session.peers.length ≤ config.maxStores := by
    rw [Session.peers, List.length_map]
    exact hl.wellFormed.bounded _ hcapacity
  have hevict : Delivered s ((among config address world).evict l.errors s) ⟨l.key, value⟩ [] :=
    evict_delivers_nothing l.errors s
  have hk : l.key.length = ((among config address world).evict l.errors s).server.id.length :=
    (congrArg Id.length hevict.id_eq ▸ hl.length_eq).symm
  obtain ⟨replicas, hdel, hreported⟩ :=
    replicate_delivers config address world ⟨l.key, value⟩ hk hids
  have hdelivered := hevict.append hdel hdel.distinct
  -- The storers that did not fail are those that acknowledged.
  have hall : ∀ failures s', (among config address world).replicate ⟨l.key, value⟩ l.session.peers
      ((among config address world).evict l.errors s) = (.ok failures, s') →
      replicas.map (·.peer) = l.session.peers ∧ failures = replicas.filterMap Replica.failure? ∧
        l.session.peers.length - failures.length =
          (replicas.filter (·.acknowledged)).length := by
    intro failures s' hrep
    obtain ⟨hsame, hfailures⟩ := hreported.all failures (congrArg Prod.fst hrep)
    have hcount := Replica.count_add_count replicas
    have hlength := congrArg List.length hsame
    rw [List.length_map] at hlength
    rw [hfailures]
    exact ⟨hsame, rfl, by omega⟩
  have hplace := placing (among config address world) l value s
  generalize (among config address world).place l value s = result at hplace ⊢
  cases hplace with
  | few => exact ⟨[], Delivered.refl s _, .early (by simp)⟩
  | aborted _ e s' hrep =>
      rw [hrep] at hdelivered
      exact ⟨replicas, hdelivered, .rpc hreported.contacted e⟩
  | short _ failures s' hrep hlt =>
      obtain ⟨hsame, rfl, hstored⟩ := hall failures s' hrep
      rw [hrep] at hdelivered
      rw [hstored] at hlt ⊢
      exact ⟨replicas, hdelivered, .few hsame hdel.distinct hlt⟩
  | stored _ failures s' hrep hge =>
      obtain ⟨hsame, rfl, hstored⟩ := hall failures s' hrep
      rw [hrep] at hdelivered
      rw [hstored] at hge
      exact ⟨replicas, hdelivered, .enough hsame hlen hge⟩

end

/-- **Quorum.** Whatever the peers of a node do, the result of setting a value
accounts for every replica: it is set if as many peers acknowledged it as the
settings ask for, and otherwise the error tells how many did and who did not.
A call that fails in its search, or before it, sends nothing and keeps nothing. -/
theorem setValue_quorum {S τ : Type} [Storage S] (config : Config) (address : Address)
    (world : Transport τ) (key : Id) (value : Bytes) (s : Setting S τ) :
    ∃ replicas,
      Delivered s ((among config address world).setValue key value s).2 ⟨key, value⟩ replicas ∧
      Accounted config ((among config address world).storers key s) replicas
        ((among config address world).setValue key value s).1 ∧
      ∀ e, ((among config address world).seek key s).1 = .error e ∨
          ((among config address world).setValue key value s).1 = .error e ∧ e.isUnplaced = true →
        ((among config address world).setValue key value s).2.stores = s.stores ∧
        ((among config address world).setValue key value s).2.server.values = s.server.values := by
  have hn := lawful_among (S := S) config address world
  have hseek : Delivered s ((among config address world).seek key s).2 ⟨key, value⟩ [] :=
    seek_delivers_nothing key s
  rw [setValue_eq, storers]
  cases hfound : (among config address world).seek key s with
  | mk outcome s₁ =>
      rw [hfound] at hseek
      cases outcome with
      | error e =>
          have herror : ((among config address world).seek key s).1 = .error e := by rw [hfound]
          exact ⟨[], hseek, .early fun _ _ => seek_error hn herror _, fun _ _ => hseek.of_nil⟩
      | ok l =>
          obtain ⟨rfl, hsound, hcapacity⟩ := sound_of_seek hn hfound
          obtain ⟨replicas, hdel, hacc⟩ := place_accounted hsound hcapacity value
          have hdelivered := hseek.append hdel hdel.distinct
          refine ⟨replicas, hdelivered, hacc, ?_⟩
          rintro e (hfailed | ⟨hresult, hunplaced⟩)
          · contradiction
          · obtain rfl := hacc.unplaced e hresult hunplaced
            exact hdelivered.of_nil

end Node

end Kademlia
