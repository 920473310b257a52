import Kademlia.Network
import Kademlia.Proofs.Search

/-!
# Kademlia.Proofs.Overlay

Networks in which nobody lies: no faults, every node at an address of its own,
and every known peer an existing node at its right address
(`Network.Honest`).  Requests change little in such a network: nodes get to
know each other (`Network.Grown`), and nobody's values change unless one is
stored (`Network.Quiet`).  The section on requests says what each of them
comes to.
-/

namespace Kademlia

/-- A network of nodes with routing tables and storages in memory. -/
abbrev Overlay (n : Nat) := Network RoutingTable MemoryStorage n

namespace Network

variable {n : Nat} {net net₀ net₁ net₂ net' : Overlay n} {i j h : Fin n} {key : Id} {value : Bytes}

/-- The id of a node. -/
def id (net : Overlay n) (i : Fin n) : Id := (net.server i).id

/-- The routing table of a node. -/
def table (net : Overlay n) (i : Fin n) : RoutingTable := (net.server i).peers

/-- The value that a node keeps for a key. -/
def value? (net : Overlay n) (i : Fin n) (key : Id) : Option Bytes :=
  (net.server i).values.get? key.bytes

/-! ## Other servers -/

theorem config_setServer {P S : Type} (net : Network P S n) (i j : Fin n) (srv : Server P S) :
    ((net.setServer i srv).seat j).config = (net.seat j).config := by
  rw [setServer, seat_setSeat]
  split
  next h => rw [h]
  · rfl

theorem address_setServer {P S : Type} (net : Network P S n) (i j : Fin n) (srv : Server P S) :
    ((net.setServer i srv).seat j).address = (net.seat j).address := by
  rw [setServer, seat_setSeat]
  split
  next h => rw [h]
  · rfl

theorem listening_setServer {P S : Type} (net : Network P S n) (i j : Fin n) (srv : Server P S) :
    ((net.setServer i srv).seat j).listening = (net.seat j).listening := by
  rw [setServer, seat_setSeat]
  split
  next h => rw [h]
  · rfl

theorem setServer_server (net : Overlay n) (i : Fin n) : net.setServer i (net.server i) = net := by
  have hset : net.seats.set i (net.seats.get i) i.isLt = net.seats :=
    Vector.set_getElem_self i.isLt
  show ({ net with seats := net.seats.set i (net.seats.get i) i.isLt } : Overlay n) = net
  rw [hset]

/-! ## Growing networks -/

/-- Nodes stay what and where they are, and forget nobody. -/
structure Grown (net net' : Overlay n) : Prop where
  config_eq : ∀ i, (net'.seat i).config = (net.seat i).config
  address_eq : ∀ i, (net'.seat i).address = (net.seat i).address
  listening_eq : ∀ i, (net'.seat i).listening = (net.seat i).listening
  id_eq : ∀ i, net'.id i = net.id i
  bucketSize_eq : ∀ i, (net'.table i).bucketSize = (net.table i).bucketSize
  known : ∀ i, ∀ p ∈ (net.table i).peers, p ∈ (net'.table i).peers

/-- And nobody's values change. -/
structure Quiet (net net' : Overlay n) : Prop extends Grown net net' where
  values_eq : ∀ i, (net'.server i).values = (net.server i).values

namespace Grown

theorem refl (net : Overlay n) : Grown net net where
  config_eq _ := rfl
  address_eq _ := rfl
  listening_eq _ := rfl
  id_eq _ := rfl
  bucketSize_eq _ := rfl
  known _ _ hp := hp

theorem trans (h₁ : Grown net net₁) (h₂ : Grown net₁ net₂) : Grown net net₂ where
  config_eq i := (h₂.config_eq i).trans (h₁.config_eq i)
  address_eq i := (h₂.address_eq i).trans (h₁.address_eq i)
  listening_eq i := (h₂.listening_eq i).trans (h₁.listening_eq i)
  id_eq i := (h₂.id_eq i).trans (h₁.id_eq i)
  bucketSize_eq i := (h₂.bucketSize_eq i).trans (h₁.bucketSize_eq i)
  known i p hp := h₂.known i p (h₁.known i p hp)

theorem peer_eq (h : Grown net net') (i : Fin n) : net'.peer i = net.peer i := by
  have hid := h.id_eq i
  have haddress := h.address_eq i
  rw [peer, peer, haddress]
  exact congrArg (Peer.mk · _) hid

end Grown

namespace Quiet

theorem refl (net : Overlay n) : Quiet net net := ⟨Grown.refl net, fun _ => rfl⟩

theorem trans (h₁ : Quiet net net₁) (h₂ : Quiet net₁ net₂) : Quiet net net₂ :=
  ⟨h₁.toGrown.trans h₂.toGrown, fun i => (h₂.values_eq i).trans (h₁.values_eq i)⟩

theorem value?_eq (h : Quiet net net') (i : Fin n) (key : Id) :
    net'.value? i key = net.value? i key := by
  rw [value?, value?, h.values_eq]

end Quiet

/-- Another server for a node, with the same id and nobody forgotten. -/
theorem Grown.setServer {srv : Server RoutingTable MemoryStorage} (hid : srv.id = net.id i)
    (hsize : srv.peers.bucketSize = (net.table i).bucketSize)
    (hknown : ∀ p ∈ (net.table i).peers, p ∈ srv.peers.peers) :
    Grown net (net.setServer i srv) where
  config_eq j := config_setServer net i j srv
  address_eq j := address_setServer net i j srv
  listening_eq j := listening_setServer net i j srv
  id_eq j := by
    rw [id, server_setServer]
    split
    next h => rw [← h]; exact hid
    · rfl
  bucketSize_eq j := by
    rw [table, server_setServer]
    split
    next h => rw [← h]; exact hsize
    · rfl
  known j p hp := by
    rw [table, server_setServer]
    split
    next h => rw [← h] at hp; exact hknown p hp
    · exact hp

/-! ## Honest networks -/

/-- Nobody lies: there are no faults, every node is at an address of its own,
and every known peer is an existing node. -/
structure Honest (net : Overlay n) : Prop where
  faultless : net.faults = []
  addressed : ∀ i j, (net.seat i).address = (net.seat j).address → i = j
  wellFormed : ∀ i, (net.table i).WellFormed
  known : ∀ i, ∀ p ∈ (net.table i).peers, ∃ j, net.peer j = p

namespace Honest

theorem peer_inj (hn : Honest net) (h : net.peer i = net.peer j) : i = j :=
  hn.addressed i j (congrArg Peer.address h)

/-- Another server for a node, as good as the present one. -/
theorem setServer (hn : Honest net) {srv : Server RoutingTable MemoryStorage}
    (hid : srv.id = net.id i) (hsize : srv.peers.bucketSize = (net.table i).bucketSize)
    (hwf : srv.peers.WellFormed)
    (hknown : ∀ p ∈ srv.peers.peers, ∃ j, net.peer j = p)
    (hgrown : ∀ p ∈ (net.table i).peers, p ∈ srv.peers.peers) :
    Honest (net.setServer i srv) := by
  have hg : Grown net (net.setServer i srv) := Grown.setServer hid hsize hgrown
  refine ⟨hn.faultless, ?_, ?_, ?_⟩
  · intro j k hjk
    rw [hg.address_eq, hg.address_eq] at hjk
    exact hn.addressed j k hjk
  · intro j
    rw [table, server_setServer]
    split
    · exact hwf
    · exact hn.wellFormed j
  · intro j p hp
    have hpeer : ∃ k, net.peer k = p := by
      rw [table, server_setServer] at hp
      split at hp
      · exact hknown p hp
      · exact hn.known j p hp
    obtain ⟨k, rfl⟩ := hpeer
    exact ⟨k, hg.peer_eq k⟩

theorem record (hn : Honest net) (exchange : Exchange) : Honest (net.record exchange) :=
  ⟨hn.faultless, hn.addressed, hn.wellFormed, hn.known⟩

end Honest

theorem Quiet.record (net : Overlay n) (exchange : Exchange) : Quiet net (net.record exchange) :=
  ⟨⟨fun _ => rfl, fun _ => rfl, fun _ => rfl, fun _ => rfl, fun _ => rfl, fun _ _ hp => hp⟩,
    fun _ => rfl⟩

/-! ## Getting to know peers -/

/-- The network after a node met peers. -/
def meetAll (net : Overlay n) (i : Fin n) (peers : List Peer) : Overlay n :=
  net.setServer i ((net.server i).meetAll peers)

theorem Quiet.meetAll (net : Overlay n) (i : Fin n) (peers : List Peer) :
    Quiet net (net.meetAll i peers) := by
  refine ⟨Grown.setServer (Server.id_meetAll _ _) (Server.bucketSize_meetAll _ _)
    fun p => Server.mem_meetAll_of_mem, ?_⟩
  intro j
  rw [Network.meetAll, server_setServer]
  split
  next h => rw [← h]; exact Server.values_meetAll _ _
  · rfl

/-- To meet existing peers is honest, whatever values the node keeps. -/
theorem Honest.setMet (hn : Honest net) (i : Fin n) {peers : List Peer}
    (hpeers : ∀ p ∈ peers, ∃ j, net.peer j = p) (values : MemoryStorage) :
    Honest (net.setServer i { (net.server i).meetAll peers with values }) := by
  refine hn.setServer (Server.id_meetAll _ _) (Server.bucketSize_meetAll _ _)
    (Server.wellFormed_meetAll (hn.wellFormed i)) ?_ fun p => Server.mem_meetAll_of_mem
  intro p hp
  rcases Server.mem_or_mem_of_mem_meetAll hp with hp | hp
  · exact hn.known i p hp
  · exact hpeers p hp

theorem Honest.meetAll (hn : Honest net) (i : Fin n) {peers : List Peer}
    (hpeers : ∀ p ∈ peers, ∃ j, net.peer j = p) : Honest (net.meetAll i peers) :=
  hn.setMet i hpeers ((net.server i).meetAll peers).values

theorem meetAll_of_add {p : Peer} {t : RoutingTable} (h : (net.table i).add p = .ok t) :
    net.meetAll i [p] = net.setServer i { net.server i with peers := t } := by
  have hmeet : (net.server i).peers.meet p = t := RoutingTable.meet_of_add h
  rw [meetAll, Server.meetAll, List.foldl_cons, List.foldl_nil, Server.meet, hmeet]

theorem meetAll_of_error {p : Peer} {e : Error} (h : (net.table i).add p = .error e) :
    net.meetAll i [p] = net := by
  have hmeet : (net.server i).peers.meet p = (net.server i).peers := RoutingTable.meet_of_error h
  rw [meetAll, Server.meetAll, List.foldl_cons, List.foldl_nil, Server.meet, hmeet]
  exact setServer_server net i

/-- No node meets itself. -/
theorem meetAll_self {p : Peer} (hid : p.id = net.id i) : net.meetAll i [p] = net := by
  have hmeet : (net.server i).peers.meet p = (net.server i).peers := RoutingTable.meet_localId hid
  rw [meetAll, Server.meetAll, List.foldl_cons, List.foldl_nil, Server.meet, hmeet]
  exact setServer_server net i

/-! ## Delivering requests -/

/-- Every node takes requests. -/
def Listening (net : Overlay n) : Prop := ∀ i, (net.seat i).listening = true

theorem Grown.listening (h : Grown net net') (hl : net.Listening) : net'.Listening :=
  fun i => (h.listening_eq i).trans (hl i)

theorem of_listener? {target : Address} (h : net.listener? target = some j) :
    (net.seat j).listening = true ∧ (net.seat j).address = target := by
  have hfound := List.find?_some h
  simpa using hfound

/-- A request to the address of a node reaches that node. -/
theorem Honest.listener?_eq (hn : Honest net) (hl : (net.seat j).listening = true) :
    net.listener? (net.seat j).address = some j := by
  cases hfind : net.listener? (net.seat j).address with
  | none =>
      have hnone := List.find?_eq_none.mp hfind j (List.mem_finRange j)
      simp [hl] at hnone
  | some h => rw [hn.addressed h j (of_listener? hfind).2]

theorem id_handleGet (requester : Option Peer) (request : GetRequest)
    (srv : Server RoutingTable MemoryStorage) :
    (Server.handleGet requester request srv).2.id = srv.id := by
  by_cases hm : srv.Matches requester request.key
  · rw [Server.handleGet_eq hm]
    exact srv.id_greet requester
  · rw [Server.handleGet_of_not_matches hm]

/-- A question that goes out, without faults. -/
theorem getValue_transport (hf : net.faults = []) {target : Address} (request : GetRequest)
    (hl : net.listener? target = some j) : (transport i).getValue target request net =
      ((Server.handleGet (some (net.peer i)) request (net.server j)).1.mapError RpcError.remote,
        (net.setServer j (Server.handleGet (some (net.peer i)) request (net.server j)).2).record
          (.get target request ((Server.handleGet (some (net.peer i)) request
            (net.server j)).1.mapError RpcError.remote))) := by
  have hask : net.askAt i target request =
      ((Server.handleGet (some (net.peer i)) request (net.server j)).1.mapError RpcError.remote,
        net.setServer j (Server.handleGet (some (net.peer i)) request (net.server j)).2) := by
    rw [askAt, hf, List.lookup_nil, deliver, hl]
    generalize hr : Server.handleGet (some (net.peer i)) request (net.server j) = result
    obtain ⟨reply, srv⟩ := result
    simp only [hr]
    cases reply <;> rfl
  rw [transport]
  simp only [hask]

/-- A value that goes out, without faults. -/
theorem storeValue_transport (hf : net.faults = []) {target : Address} (request : StoreRequest)
    (hl : net.listener? target = some j) : (transport i).storeValue target request net =
      ((Server.handleStore (some (net.peer i)) request (net.server j)).1.mapError RpcError.remote,
        (net.setServer j (Server.handleStore (some (net.peer i)) request (net.server j)).2).record
          (.store target request ((Server.handleStore (some (net.peer i)) request
            (net.server j)).1.mapError RpcError.remote))) := by
  have hstore : net.storeAt i target request =
      ((Server.handleStore (some (net.peer i)) request (net.server j)).1.mapError RpcError.remote,
        net.setServer j (Server.handleStore (some (net.peer i)) request (net.server j)).2) := by
    rw [storeAt, hf, List.lookup_nil, deliver, hl]
    generalize hr : Server.handleStore (some (net.peer i)) request (net.server j) = result
    obtain ⟨reply, srv⟩ := result
    simp only [hr]
    cases reply <;> rfl
  rw [transport]
  simp only [hstore]

/-- A question that reaches nobody, without faults. -/
theorem getValue_transport_none (hf : net.faults = []) {target : Address} (request : GetRequest)
    (hl : net.listener? target = none) : (transport i).getValue target request net =
      (.error .unreachable, net.record (.get target request (.error .unreachable))) := by
  have hask : net.askAt i target request = (.error .unreachable, net) := by
    rw [askAt, hf, List.lookup_nil, deliver, hl]
    rfl
  rw [transport]
  simp only [hask]

/-- No question changes an id, whatever the faults. -/
theorem id_askAt (sender : Fin n) (target : Address) (request : GetRequest) (net : Overlay n)
    (i : Fin n) : (net.askAt sender target request).2.id i = net.id i := by
  have hdeliver : ∀ i, (net.deliver sender target (Server.handleGet · request)).2.id i =
      net.id i := by
    intro i
    rw [deliver]
    cases net.listener? target with
    | none => rfl
    | some j =>
        show (net.setServer j (Server.handleGet (some (net.peer sender)) request
          (net.server j)).2).id i = net.id i
        rw [id, server_setServer]
        split
        next h => rw [← h]; exact id_handleGet _ _ _
        · rfl
  rw [askAt]
  split
  · rfl
  · rfl
  · rfl
  · exact hdeliver i

/-- Nodes of networks can be relied on. -/
theorem lawful_node (net : Overlay n) (i : Fin n) : (net.node i).Lawful where
  server_setServer srv net := by
    show (net.setServer i srv).server i = srv
    rw [server_setServer, if_pos rfl]
  setServer_server net := setServer_server net i
  id_getValue target request net := id_askAt i target request net i

/-! ## Requests in honest networks -/

/-- Whom a request of node `i` to a peer reaches: the node that the peer is, but
node `i` itself if the peer has its id. -/
def Receives (net : Overlay n) (i : Fin n) (p : Peer) (j : Fin n) : Prop :=
  (p.id = net.id i ∧ j = i) ∨ (p.id ≠ net.id i ∧ net.peer j = p)

/-- What a node without a value for a key names: the nearest of those it knows. -/
def Names (net : Overlay n) (j : Fin n) (key : Id) (k : Nat) (nodes : List Peer) : Prop :=
  ∃ table : RoutingTable, (∀ p ∈ (net.table j).peers, p ∈ table.peers) ∧
    (∀ p ∈ table.peers, p.id.length = key.length ∧ ∃ h, net.peer h = p) ∧
    (∀ p ∈ nodes, p ∈ table.peers) ∧
    Nearest key k (table.peers.map (·.id)) (nodes.map (·.id))

/-- What a node answers to a question for a key. -/
structure Answers (net : Overlay n) (j : Fin n) (key : Id) (k : Nat) (reply : GetReply) :
    Prop where
  responder_eq : reply.responder = net.id j
  value_eq : reply.value = net.value? j key
  length_eq : ∀ p ∈ reply.nodes, p.id.length = key.length
  names : reply.value = none → net.Names j key k reply.nodes

theorem Names.length_eq {k : Nat} {nodes : List Peer} (hnames : net.Names j key k nodes) :
    ∀ p ∈ nodes, p.id.length = key.length := by
  obtain ⟨table, _, hknown, hmem, _⟩ := hnames
  exact fun p hp => (hknown p (hmem p hp)).1

theorem Honest.length_eq_of_known (hn : Honest net) {p : Peer} (hp : p ∈ (net.table i).peers) :
    p.id.length = (net.id i).length :=
  ((hn.wellFormed i).of_mem hp).1

/-- The server of an honest node answers from its values and its table. -/
theorem Honest.exists_lookUp (hn : Honest net') (hq : Quiet net net')
    (hj : (net.id j).length = key.length) (k : UInt64) :
    ∃ reply, (net'.server j).lookUp ⟨key, k⟩ = .ok reply ∧ net.Answers j key k.toNat reply := by
  have hid := hq.id_eq j
  have hvalue := hq.value?_eq j key
  have hj' : (net'.id j).length = key.length := (congrArg Id.length hid).trans hj
  cases hv : net'.value? j key with
  | some v =>
      rw [hv] at hvalue
      exact ⟨_, Server.lookUp_of_value hv, hid, hvalue, by simp, by simp⟩
  | none =>
      rw [hv] at hvalue
      obtain ⟨nodes, hlook, hmem, hnearest⟩ := Server.exists_lookUp (hn.wellFormed j) hj'.symm hv
      have hknown : ∀ p ∈ (net'.table j).peers, p.id.length = key.length ∧ ∃ h, net.peer h = p := by
        intro p hp
        obtain ⟨h, rfl⟩ := hn.known j p hp
        exact ⟨(hn.length_eq_of_known hp).trans hj', h, (hq.peer_eq h).symm⟩
      exact ⟨_, hlook, hid, hvalue, fun p hp => (hknown p (hmem p hp)).1,
        fun _ => ⟨net'.table j, hq.known j, hknown, hmem, hnearest⟩⟩

/-- Such an answer is accepted. -/
theorem Answers.checkReply_eq {p : Peer} {k : Nat} {reply : GetReply}
    (h : net.Answers j key k reply) (hid : net.id j = p.id) :
    Node.checkReply p key reply = .ok reply :=
  Node.checkReply_eq (h.responder_eq.trans hid) h.length_eq

/-- A question that goes out within one overlay is answered, and the node that
answers has met the one that asks. -/
theorem Honest.getValue_transport (hn : Honest net) (hl : (net.seat j).listening = true)
    (hi : (net.id i).length = key.length) (hj : (net.id j).length = key.length) (k : UInt64) :
    ∃ reply, (transport i).getValue (net.seat j).address ⟨key, k⟩ net = (.ok reply,
        (net.meetAll j [net.peer i]).record (.get (net.seat j).address ⟨key, k⟩ (.ok reply))) ∧
      net.Answers j key k.toNat reply := by
  have hmatches : (net.server j).Matches (some (net.peer i)) key := by
    refine ⟨hj.symm, fun q hq => ?_⟩
    obtain rfl := Option.mem_some.mp hq
    exact hi.trans hj.symm
  have hmet : Honest (net.meetAll j [net.peer i]) := hn.meetAll j (by simp)
  obtain ⟨reply, hlook, hans⟩ := hmet.exists_lookUp (Quiet.meetAll net j [net.peer i]) hj k
  have hserver : (net.meetAll j [net.peer i]).server j = (net.server j).meet (net.peer i) := by
    rw [Network.meetAll, server_setServer, if_pos rfl]
    rfl
  rw [hserver] at hlook
  have hget : Server.handleGet (some (net.peer i)) ⟨key, k⟩ (net.server j) =
      (.ok reply, (net.server j).meet (net.peer i)) := by
    rw [Server.handleGet_eq hmatches]
    exact congrArg (·, _) hlook
  refine ⟨reply, ?_, hans⟩
  rw [Network.getValue_transport hn.faultless _ (hn.listener?_eq hl), hget]
  rfl

/-- **A question to a known peer is answered by the node that it reaches**, and
changes nothing but who knows whom. -/
theorem Honest.ask (hn : Honest net) (hl : net.Listening) (hi : (net.id i).length = key.length)
    {p : Peer} (hp : ∃ j, net.peer j = p) (hpl : p.id.length = key.length) (k : UInt64)
    (net₀ : Overlay n) :
    ∃ j reply net', net.Receives i p j ∧ (net₀.node i).ask p ⟨key, k⟩ net = (.ok reply, net') ∧
      Honest net' ∧ Quiet net net' ∧ net.Answers j key k.toNat reply := by
  by_cases hid : p.id = net.id i
  · obtain ⟨reply, hlook, hans⟩ := hn.exists_lookUp (Quiet.refl net) hi k
    refine ⟨i, reply, net, .inl ⟨hid, rfl⟩, ?_, hn, Quiet.refl net, hans⟩
    have hmatches : (net.server i).Matches none key := ⟨hi.symm, by simp⟩
    have hget : (Server.handleGet none ⟨key, k⟩ (net.server i)).1 = .ok reply := by
      rw [Server.handleGet_eq hmatches]
      exact hlook
    have hask : (net₀.node i).ask p ⟨key, k⟩ net = _ := (lawful_node net₀ i).ask_self hid ⟨key, k⟩
    have hserver : (net₀.node i).server net = net.server i := rfl
    rw [hask, hserver, hget]
    exact congrArg (·, net) (hans.checkReply_eq hid.symm)
  · obtain ⟨j, rfl⟩ := hp
    have hj : (net.id j).length = key.length := hpl
    obtain ⟨reply, hsend, hans⟩ := hn.getValue_transport (hl j) hi hj k
    have hask : (net₀.node i).ask (net.peer j) ⟨key, k⟩ net =
        (((transport i).getValue (net.seat j).address ⟨key, k⟩ net).1.bind
          (Node.checkReply (net.peer j) key),
          ((transport i).getValue (net.seat j).address ⟨key, k⟩ net).2) := Node.ask_of_ne hid _
    have haccept : (Except.ok reply).bind (Node.checkReply (net.peer j) key) = .ok reply :=
      hans.checkReply_eq rfl
    simp only [hsend, haccept] at hask
    have hmet : Honest (net.meetAll j [net.peer i]) := hn.meetAll j (by simp)
    exact ⟨j, reply, _, .inr ⟨hid, rfl⟩, hask, hmet.record _,
      (Quiet.meetAll net j [net.peer i]).trans (Quiet.record _ _), hans⟩

/-! ## Storing in honest networks -/

/-- The network after a node met peers and kept a value. -/
def keep (net : Overlay n) (j : Fin n) (peers : List Peer) (key : Id) (value : Bytes) :
    Overlay n :=
  net.setServer j { (net.server j).meetAll peers with
    values := (net.server j).values.insert key.bytes value }

theorem Grown.keep (net : Overlay n) (j : Fin n) (peers : List Peer) (key : Id) (value : Bytes) :
    Grown net (net.keep j peers key value) :=
  Grown.setServer (Server.id_meetAll _ _) (Server.bucketSize_meetAll _ _)
    fun _ => Server.mem_meetAll_of_mem

theorem Honest.keep (hn : Honest net) (j : Fin n) {peers : List Peer}
    (hpeers : ∀ p ∈ peers, ∃ h, net.peer h = p) (key : Id) (value : Bytes) :
    Honest (net.keep j peers key value) :=
  hn.setMet j hpeers ((net.server j).values.insert key.bytes value)

theorem value?_keep (net : Overlay n) (j h : Fin n) (peers : List Peer) (key other : Id)
    (value : Bytes) : (net.keep j peers key value).value? h other =
      if h = j ∧ other = key then some value else net.value? h other := by
  rw [value?, value?, keep, server_setServer]
  by_cases hj : j = h
  · subst hj
    have hbytes : other.bytes = key.bytes ↔ other = key := ⟨Id.ext, congrArg Id.bytes⟩
    rw [if_pos rfl, MemoryStorage.get?_insert]
    simp only [hbytes, true_and]
  · have hne : ¬ (h = j ∧ other = key) := fun heq => hj heq.1.symm
    rw [if_neg hj, if_neg hne]

/-- **A value that goes to a known peer is kept by the node that it reaches**,
and by no other. -/
theorem Honest.storeAt (hn : Honest net) (hl : net.Listening)
    (hi : (net.id i).length = key.length) {p : Peer} (hp : ∃ j, net.peer j = p)
    (hpl : p.id.length = key.length) (value : Bytes) (net₀ : Overlay n) :
    ∃ j net', net.Receives i p j ∧
      (net₀.node i).storeAt p ⟨key, value⟩ net = (.ok (), net') ∧ Honest net' ∧ Grown net net' ∧
      ∀ h other, net'.value? h other =
        if h = j ∧ other = key then some value else net.value? h other := by
  by_cases hid : p.id = net.id i
  · have hmatches : (net.server i).Matches none key := ⟨hi.symm, by simp⟩
    have hstore : Server.handleStore none ⟨key, value⟩ (net.server i) =
        (.ok ⟨net.id i⟩, { net.server i with
          values := (net.server i).values.insert key.bytes value }) := by
      rw [Server.handleStore_of_ok hmatches rfl]
      rfl
    have hself : (net₀.node i).storeAt p ⟨key, value⟩ net =
        (((Server.handleStore none ⟨key, value⟩ (net.server i)).1.mapError RpcError.remote).bind
          (Node.checkAcknowledgement p),
          net.setServer i (Server.handleStore none ⟨key, value⟩ (net.server i)).2) :=
      Node.storeAt_self hid _
    have haccept : (Except.mapError RpcError.remote (Except.ok ⟨net.id i⟩)).bind
        (Node.checkAcknowledgement p) = .ok () := Node.checkAcknowledgement_eq hid.symm
    simp only [hstore, haccept] at hself
    exact ⟨i, net.keep i [] key value, .inl ⟨hid, rfl⟩, hself, hn.keep i (by simp) key value,
      Grown.keep net i [] key value, fun h other => value?_keep net i h [] key other value⟩
  · obtain ⟨j, rfl⟩ := hp
    have hj : (net.id j).length = key.length := hpl
    have hmatches : (net.server j).Matches (some (net.peer i)) key := by
      refine ⟨hj.symm, fun q hq => ?_⟩
      obtain rfl := Option.mem_some.mp hq
      exact hi.trans hj.symm
    have hresponder : ((net.server j).meet (net.peer i)).id = net.id j := Server.id_meet _ _
    have hstore : Server.handleStore (some (net.peer i)) ⟨key, value⟩ (net.server j) =
        (.ok ⟨net.id j⟩, { (net.server j).meetAll [net.peer i] with
          values := (net.server j).values.insert key.bytes value }) := by
      rw [Server.handleStore_of_ok hmatches rfl, ← hresponder]
      rfl
    have hsend : (transport i).storeValue (net.seat j).address ⟨key, value⟩ net =
        (.ok ⟨net.id j⟩, (net.keep j [net.peer i] key value).record
          (.store (net.seat j).address ⟨key, value⟩ (.ok ⟨net.id j⟩))) := by
      rw [storeValue_transport hn.faultless _ (hn.listener?_eq (hl j)), hstore]
      rfl
    have hout : (net₀.node i).storeAt (net.peer j) ⟨key, value⟩ net =
        (((transport i).storeValue (net.seat j).address ⟨key, value⟩ net).1.bind
          (Node.checkAcknowledgement (net.peer j)),
          ((transport i).storeValue (net.seat j).address ⟨key, value⟩ net).2) :=
      Node.storeAt_of_ne hid _
    have haccept : (Except.ok ⟨net.id j⟩).bind (Node.checkAcknowledgement (net.peer j)) =
        .ok () := Node.checkAcknowledgement_eq rfl
    simp only [hsend, haccept] at hout
    exact ⟨j, _, .inr ⟨hid, rfl⟩, hout, (hn.keep j (by simp) key value).record _,
      (Grown.keep net j [net.peer i] key value).trans (Quiet.record _ _).toGrown,
      fun h other => value?_keep net j h [net.peer i] key other value⟩

end Network
end Kademlia
