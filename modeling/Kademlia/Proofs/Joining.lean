import Kademlia.Proofs.OverlaySearch

/-!
# Kademlia.Proofs.Joining

How nodes come to know each other.  To join through an address is to meet the
node there (`Network.Honest.bootstrap`); in a network with space for everybody
the two then know each other (`Network.Spacious.acquainted_bootstrap`).  A node
that starts finds the network as it was, and joins through every address that
its settings name (`Network.Honest.joined`).
-/

namespace Kademlia

namespace Network

variable {n : Nat} {net net' : Overlay n} {i j : Fin n}

/-! ## Joining through a node -/

/-- A node meets the one that answers it. -/
theorem bootstrap_of_answer {net₀ met : Overlay n} {target : Address} {reply : GetReply}
    (hsend : (net₀.node i).transport.getValue target ⟨(net₀.node i).id net, 0⟩ net =
      (.ok reply, met)) (hresponder : ⟨reply.responder, target⟩ = net.peer j) :
    ((net₀.node i).bootstrap target net).2 = met.meetAll i [net.peer j] := by
  have hreply : reply.responder = net.id j := congrArg Peer.id hresponder
  rw [Node.bootstrap, hsend]
  simp only [hreply]
  by_cases hself : net.id j = met.id i
  · have hmeet : met.meetAll i [net.peer j] = met := meetAll_self hself
    have hself' : net.id j = (net₀.node i).id met := hself
    rw [if_pos hself', hmeet]
  · have hself' : ¬ net.id j = (net₀.node i).id met := hself
    have htarget : target = (net.seat j).address := congrArg Peer.address hresponder
    rw [if_neg hself', htarget]
    cases hadd : (met.table i).add (net.peer j) with
    | ok t =>
        have hadd' : PeerStore.add ((net₀.node i).server met).peers
          ⟨net.id j, (net.seat j).address⟩ = .ok t := hadd
        rw [meetAll_of_add hadd, hadd']
        rfl
    | error e =>
        have hadd' : PeerStore.add ((net₀.node i).server met).peers
          ⟨net.id j, (net.seat j).address⟩ = .error e := hadd
        rw [meetAll_of_error hadd, hadd']

/-- **To join through an address is to meet the node there**, and to be met by
it, if there is a node of the same overlay; else nothing happens. -/
theorem Honest.bootstrap (hn : Honest net) (i : Fin n) (target : Address) (net₀ : Overlay n) :
    (∃ exchange, ((net₀.node i).bootstrap target net).2 = net.record exchange ∧
      ∀ j, net.listener? target = some j → (net.id i).length ≠ (net.id j).length) ∨
    ∃ j exchange, net.listener? target = some j ∧ (net.id i).length = (net.id j).length ∧
      ((net₀.node i).bootstrap target net).2 =
        ((net.meetAll j [net.peer i]).record exchange).meetAll i [net.peer j] := by
  cases hlist : net.listener? target with
  | none =>
      refine .inl ⟨.get target ⟨net.id i, 0⟩ (.error .unreachable), ?_, by simp⟩
      have hsend : (net₀.node i).transport.getValue target ⟨(net₀.node i).id net, 0⟩ net = _ :=
        getValue_transport_none hn.faultless ⟨net.id i, 0⟩ hlist
      rw [Node.bootstrap, hsend]
  | some j =>
      obtain ⟨hl, rfl⟩ := of_listener? hlist
      by_cases hlen : (net.id i).length = (net.id j).length
      · obtain ⟨reply, hsend, hans⟩ := hn.getValue_transport (i := i) hl rfl hlen.symm 0
        generalize hmet : (net.meetAll j [net.peer i]).record
          (.get (net.seat j).address ⟨net.id i, 0⟩ (.ok reply)) = met at hsend
        have hsend' : (net₀.node i).transport.getValue (net.seat j).address
            ⟨(net₀.node i).id net, 0⟩ net = (.ok reply, met) := hsend
        refine .inr ⟨j, .get (net.seat j).address ⟨net.id i, 0⟩ (.ok reply), rfl, hlen, ?_⟩
        rw [hmet]
        exact bootstrap_of_answer hsend' (congrArg (Peer.mk · _) hans.responder_eq)
      · have hmatches : ¬ (net.server j).Matches (some (net.peer i)) (net.id i) :=
          fun h => hlen h.1
        have hsend : (net₀.node i).transport.getValue (net.seat j).address
            ⟨(net₀.node i).id net, 0⟩ net = (.error (.remote .invalidRequest), net.record
              (.get (net.seat j).address ⟨net.id i, 0⟩ (.error (.remote .invalidRequest)))) := by
          have hget := Network.getValue_transport (i := i) hn.faultless ⟨net.id i, 0⟩ hlist
          rw [Server.handleGet_of_not_matches hmatches, setServer_server] at hget
          exact hget
        refine .inl ⟨.get (net.seat j).address ⟨net.id i, 0⟩ (.error (.remote .invalidRequest)),
          ?_, fun h hh => ?_⟩
        · rw [Node.bootstrap, hsend]
        · rw [← Option.some.inj hh]
          exact hlen

/-- A node has met another one, and this is in the log. -/
theorem Honest.quiet_met (hn : Honest net) (i j : Fin n) (exchange : Exchange) :
    Honest ((net.meetAll j [net.peer i]).record exchange) ∧
      Quiet net ((net.meetAll j [net.peer i]).record exchange) :=
  ⟨(hn.meetAll j (by simp)).record exchange,
    (Quiet.meetAll net j [net.peer i]).trans (Quiet.record _ exchange)⟩

/-- To join through an address is honest, and changes nobody's values. -/
theorem Honest.quiet_bootstrap (hn : Honest net) (i : Fin n) (target : Address)
    (net₀ : Overlay n) : Honest ((net₀.node i).bootstrap target net).2 ∧
      Quiet net ((net₀.node i).bootstrap target net).2 := by
  rcases hn.bootstrap i target net₀ with ⟨exchange, heq, _⟩ | ⟨j, exchange, _, _, heq⟩
  · rw [heq]
    exact ⟨hn.record exchange, Quiet.record net exchange⟩
  · obtain ⟨hmet, hquiet⟩ := hn.quiet_met i j exchange
    rw [heq]
    refine ⟨hmet.meetAll i fun p hp => ⟨j, ?_⟩, hquiet.trans (Quiet.meetAll _ i _)⟩
    rw [List.mem_singleton.mp hp]
    exact hquiet.peer_eq j

/-- The same of several addresses, one after the other. -/
theorem Honest.quiet_bootstraps (hn : Honest net) (i : Fin n) (targets : List Address)
    (net₀ : Overlay n) :
    Honest (targets.foldl (fun net target => ((net₀.node i).bootstrap target net).2) net) ∧
      Quiet net (targets.foldl (fun net target => ((net₀.node i).bootstrap target net).2) net) := by
  induction targets generalizing net with
  | nil => exact ⟨hn, Quiet.refl net⟩
  | cons target rest ih =>
      obtain ⟨hn₁, hq₁⟩ := hn.quiet_bootstrap i target net₀
      obtain ⟨hn', hq'⟩ := ih hn₁
      exact ⟨hn', hq₁.trans hq'⟩

/-! ## Networks with space -/

/-- Every node may know all others. -/
structure Spacious (net : Overlay n) : Prop where
  id_inj : ∀ i j, net.id i = net.id j → i = j
  length_eq : ∀ i j, (net.id i).length = (net.id j).length
  le_bucketSize : ∀ i, n ≤ (net.table i).bucketSize

/-- How much space there is depends on ids and sizes only. -/
theorem spacious_congr (hid : ∀ i, net'.id i = net.id i)
    (hsize : ∀ i, (net'.table i).bucketSize = (net.table i).bucketSize) (hs : net.Spacious) :
    net'.Spacious where
  id_inj i j h := hs.id_inj i j (by rw [← hid, ← hid, h])
  length_eq i j := by
    rw [hid, hid]
    exact hs.length_eq i j
  le_bucketSize i := by
    rw [hsize]
    exact hs.le_bucketSize i

theorem Grown.spacious_iff (hg : Grown net net') : net'.Spacious ↔ net.Spacious :=
  ⟨spacious_congr (fun i => (hg.id_eq i).symm) fun i => (hg.bucketSize_eq i).symm,
    spacious_congr hg.id_eq hg.bucketSize_eq⟩

/-- No bucket is ever full: the node itself is in none. -/
theorem Spacious.room (hs : net.Spacious) (hn : Honest net) (i : Fin n)
    (b : Fin (8 * (net.table i).localId.length)) :
    ((net.table i).buckets.get b).peers.length < (net.table i).bucketSize := by
  have hwf := hn.wellFormed i
  have hnodup : (net.id i :: ((net.table i).buckets.get b).peers.map (·.id)).Nodup := by
    refine List.nodup_cons.mpr ⟨fun hmem => ?_, hwf.distinct b⟩
    obtain ⟨p, hp, hid⟩ := List.mem_map.mp hmem
    exact (hwf.of_mem (RoutingTable.mem_peers.mpr ⟨b, hp⟩)).2 hid
  have hsub : net.id i :: ((net.table i).buckets.get b).peers.map (·.id) ⊆
      (List.finRange n).map net.id := by
    intro id hid
    rcases List.mem_cons.mp hid with rfl | hid
    · exact List.mem_map_of_mem (List.mem_finRange i)
    · obtain ⟨p, hp, rfl⟩ := List.mem_map.mp hid
      obtain ⟨j, rfl⟩ := hn.known i p (RoutingTable.mem_peers.mpr ⟨b, hp⟩)
      exact List.mem_map_of_mem (List.mem_finRange j)
  have hlen := (hnodup.subperm hsub).length_le
  have hsize := hs.le_bucketSize i
  rw [List.length_cons, List.length_map, List.length_map, List.length_finRange] at hlen
  omega

/-- Whom a node meets it knows. -/
theorem Spacious.mem_meetAll (hs : net.Spacious) (hn : Honest net) (hij : i ≠ j) :
    net.peer j ∈ ((net.meetAll i [net.peer j]).table i).peers := by
  have hmet : Honest (net.meetAll i [net.peer j]) := hn.meetAll i (by simp)
  have hq := Quiet.meetAll net i [net.peer j]
  have hne : net.id j ≠ net.id i := fun h => hij (hs.id_inj j i h).symm
  obtain ⟨p, hp, hid⟩ : ∃ p ∈ ((net.table i).meet (net.peer j)).peers, p.id = net.id j :=
    RoutingTable.exists_mem_meet (hs.length_eq j i) hne (hs.room hn i)
  have htable : (net.meetAll i [net.peer j]).table i = (net.table i).meet (net.peer j) := by
    rw [table, Network.meetAll, server_setServer, if_pos rfl]
    rfl
  rw [← htable] at hp
  obtain ⟨h, rfl⟩ := hmet.known i p hp
  rw [hq.peer_eq h] at hp hid
  obtain rfl : h = j := hs.id_inj h j hid
  exact hp

/-- Two nodes know each other. -/
def Acquainted (net : Overlay n) (i j : Fin n) : Prop :=
  net.peer j ∈ (net.table i).peers ∧ net.peer i ∈ (net.table j).peers

theorem Grown.acquainted (hg : Grown net net') (h : net.Acquainted i j) : net'.Acquainted i j := by
  rw [Acquainted, hg.peer_eq, hg.peer_eq]
  exact ⟨hg.known i _ h.1, hg.known j _ h.2⟩

/-- **A node and the one through which it joins get to know each other.** -/
theorem Spacious.acquainted_bootstrap (hs : net.Spacious) (hn : Honest net) (hij : i ≠ j)
    (hl : (net.seat j).listening = true) (net₀ : Overlay n) :
    ((net₀.node i).bootstrap (net.seat j).address net).2.Acquainted i j := by
  have hlist := hn.listener?_eq hl
  rcases hn.bootstrap i (net.seat j).address net₀ with ⟨_, _, hnot⟩ | ⟨h, exchange, hh, _, heq⟩
  · exact absurd (hs.length_eq i j) (hnot j hlist)
  · obtain rfl : j = h := Option.some.inj (hlist.symm.trans hh)
    obtain ⟨hmet, hquiet⟩ := hn.quiet_met i j exchange
    have hq := Quiet.meetAll ((net.meetAll j [net.peer i]).record exchange) i [net.peer j]
    have hforth := (hquiet.spacious_iff.mpr hs).mem_meetAll hmet hij
    have hback := hs.mem_meetAll hn (Ne.symm hij)
    rw [hquiet.peer_eq] at hforth
    rw [heq, Acquainted, (hquiet.trans hq).peer_eq, (hquiet.trans hq).peer_eq]
    exact ⟨hforth, hq.known j _ hback⟩

theorem Spacious.acquainted_bootstraps (hs : net.Spacious) (hn : Honest net) (hij : i ≠ j)
    (hl : (net.seat j).listening = true) {targets : List Address}
    (hmem : (net.seat j).address ∈ targets) (net₀ : Overlay n) :
    (targets.foldl (fun net target => ((net₀.node i).bootstrap target net).2) net).Acquainted
      i j := by
  induction targets generalizing net with
  | nil => exact absurd hmem List.not_mem_nil
  | cons target rest ih =>
      obtain ⟨hn₁, hq₁⟩ := hn.quiet_bootstrap i target net₀
      rw [List.foldl_cons]
      rcases List.mem_cons.mp hmem with rfl | hmem
      · exact (hn₁.quiet_bootstraps i rest net₀).2.acquainted
          (hs.acquainted_bootstrap hn hij hl net₀)
      · refine ih (hq₁.spacious_iff.mpr hs) hn₁ ((hq₁.listening_eq j).trans hl) ?_
        rw [hq₁.address_eq]
        exact hmem

/-! ## New nodes -/

/-- A node that starts with these settings, before it takes requests. -/
def newcomer (address : Address) (config : Config) (fresh : Id) :
    Seat RoutingTable MemoryStorage where
  config := { config with id := some (config.id.getD fresh) }
  address := address
  server := ⟨.empty (config.id.getD fresh) config.bucketSize, {}⟩
  listening := false

/-- The network with one node more. -/
def addSeat (net : Overlay n) (seat : Seat RoutingTable MemoryStorage) : Overlay (n + 1) :=
  { net with seats := net.seats.push seat }

@[simp] theorem seat_addSeat_castSucc (net : Overlay n) (seat : Seat RoutingTable MemoryStorage)
    (i : Fin n) : (net.addSeat seat).seat i.castSucc = net.seat i :=
  Vector.getElem_push_lt i.isLt

@[simp] theorem seat_addSeat_last (net : Overlay n) (seat : Seat RoutingTable MemoryStorage) :
    (net.addSeat seat).seat (Fin.last n) = seat :=
  Vector.getElem_push_eq

/-- The network in which a node takes requests. -/
def listen (net : Overlay n) (i : Fin n) : Overlay n :=
  net.setSeat i { net.seat i with listening := true }

theorem seat_listen (net : Overlay n) (i j : Fin n) : (net.listen i).seat j =
    { net.seat j with listening := decide (i = j) || (net.seat j).listening } := by
  rw [listen, seat_setSeat]
  by_cases h : i = j
  · rw [if_pos h, h, decide_eq_true rfl, Bool.true_or]
  · rw [if_neg h, decide_eq_false h, Bool.false_or]

@[simp] theorem server_listen (net : Overlay n) (i j : Fin n) :
    (net.listen i).server j = net.server j := by
  rw [server, seat_listen]
  rfl

@[simp] theorem peer_listen (net : Overlay n) (i j : Fin n) :
    (net.listen i).peer j = net.peer j := by
  rw [peer, server_listen, seat_listen]
  rfl

theorem Honest.listen (hn : Honest net) (i : Fin n) : Honest (net.listen i) := by
  refine ⟨hn.faultless, fun j k h => ?_, fun j => ?_, fun j p hp => ?_⟩
  · rw [seat_listen, seat_listen] at h
    exact hn.addressed j k h
  · rw [table, server_listen]
    exact hn.wellFormed j
  · rw [table, server_listen] at hp
    obtain ⟨k, rfl⟩ := hn.known j p hp
    exact ⟨k, peer_listen net i k⟩

/-- The network after a node started: it joins through its settings, and then
takes requests. -/
def welcome (net : Overlay n) (address : Address) (config : Config) (fresh : Id) :
    Overlay (n + 1) :=
  let starting := net.addSeat (newcomer address config fresh)
  ((config.bootstrap.filterMap Address.parseNumeric?).foldl
    (fun net target => ((starting.node (Fin.last n)).bootstrap target net).2)
    starting).listen (Fin.last n)

/-- A node starts if it has workers and space for peers. -/
theorem joinAt_eq (net : Overlay n) (address : Address) {config : Config} (fresh : Id)
    (hworkers : ¬ (config.workersGet = 0 ∨ config.workersSet = 0)) (hsize : config.bucketSize ≠ 0) :
    net.joinAt address config {} fresh = .ok (net.welcome address config fresh) := by
  have hconfig : ((net.addSeat (newcomer address config fresh)).node (Fin.last n)).config.bootstrap
      = config.bootstrap := by
    rw [node, seat_addSeat_last]
    rfl
  have hwelcome : net.welcome address config fresh =
      (((net.addSeat (newcomer address config fresh)).node (Fin.last n)).bootstrapAll
        (net.addSeat (newcomer address config fresh))).listen (Fin.last n) := by
    rw [welcome, Node.bootstrapAll, hconfig]
  rw [joinAt, Config.prepare, if_neg hworkers, Config.peerStore, if_neg hsize, hwelcome]
  rfl

theorem of_joinAt {net' : Overlay (n + 1)} {address : Address} {config : Config} {fresh : Id}
    (h : net.joinAt address config {} fresh = .ok net') :
    net' = net.welcome address config fresh := by
  by_cases hworkers : config.workersGet = 0 ∨ config.workersSet = 0
  · rw [joinAt, Config.prepare, if_pos hworkers] at h
    contradiction
  by_cases hsize : config.bucketSize = 0
  · rw [joinAt, Config.prepare, if_neg hworkers, Config.peerStore, if_pos hsize] at h
    contradiction
  rw [joinAt_eq net address fresh hworkers hsize] at h
  exact (Except.ok.inj h).symm

/-- A network after a node joined it: everybody who was there is as before, but
may know more nodes. -/
structure Joined (net : Overlay n) (address : Address) (config : Config) (net' : Overlay (n + 1)) :
    Prop where
  honest : Honest net'
  listening : net'.Listening
  config_eq : ∀ i : Fin n, (net'.seat i.castSucc).config = (net.seat i).config
  address_eq : ∀ i : Fin n, (net'.seat i.castSucc).address = (net.seat i).address
  id_eq : ∀ i : Fin n, net'.id i.castSucc = net.id i
  bucketSize_eq : ∀ i : Fin n, (net'.table i.castSucc).bucketSize = (net.table i).bucketSize
  known : ∀ i : Fin n, ∀ p ∈ (net.table i).peers, p ∈ (net'.table i.castSucc).peers
  value?_eq : ∀ (i : Fin n) (key : Id), net'.value? i.castSucc key = net.value? i key
  bootstrap_last : (net'.seat (Fin.last n)).config.bootstrap = config.bootstrap
  address_last : (net'.seat (Fin.last n)).address = address
  bucketSize_last : (net'.table (Fin.last n)).bucketSize =
    (net'.seat (Fin.last n)).config.bucketSize
  value?_last : ∀ key : Id, net'.value? (Fin.last n) key = none
  acquainted : net'.Spacious → ∀ i : Fin n, ∀ text ∈ config.bootstrap,
    Address.parseNumeric? text = some (net.seat i).address → net'.Acquainted (Fin.last n) i.castSucc

theorem Joined.peer_eq {address : Address} {config : Config} {net' : Overlay (n + 1)}
    (h : Joined net address config net') (i : Fin n) : net'.peer i.castSucc = net.peer i := by
  rw [peer, peer, h.address_eq]
  exact congrArg (Peer.mk · _) (h.id_eq i)

/-- A newcomer knows nobody and keeps nothing, so it changes nothing. -/
theorem Honest.addSeat (hn : Honest net) {address : Address} (config : Config) (fresh : Id)
    (hfree : ∀ i, (net.seat i).address ≠ address) :
    Honest (net.addSeat (newcomer address config fresh)) := by
  have hpeer : ∀ i : Fin n, (net.addSeat (newcomer address config fresh)).peer i.castSucc =
      net.peer i := by
    intro i
    rw [peer, server, seat_addSeat_castSucc]
    rfl
  refine ⟨hn.faultless, fun i j => ?_, fun i => ?_, fun i p => ?_⟩
  · induction i using Fin.lastCases with
    | last =>
        induction j using Fin.lastCases with
        | last => exact fun _ => rfl
        | cast j =>
            rw [seat_addSeat_last, seat_addSeat_castSucc]
            exact fun h => absurd h.symm (hfree j)
    | cast i =>
        induction j using Fin.lastCases with
        | last =>
            rw [seat_addSeat_last, seat_addSeat_castSucc]
            exact fun h => absurd h (hfree i)
        | cast j =>
            rw [seat_addSeat_castSucc, seat_addSeat_castSucc]
            exact fun h => congrArg Fin.castSucc (hn.addressed i j h)
  · induction i using Fin.lastCases with
    | last =>
        rw [table, server, seat_addSeat_last]
        exact RoutingTable.wellFormed_empty _ _
    | cast i =>
        rw [table, server, seat_addSeat_castSucc]
        exact hn.wellFormed i
  · induction i using Fin.lastCases with
    | last =>
        rw [table, server, seat_addSeat_last]
        exact fun hp => absurd hp (RoutingTable.not_mem_peers_empty _ _)
    | cast i =>
        rw [table, server, seat_addSeat_castSucc]
        intro hp
        obtain ⟨j, rfl⟩ := hn.known i p hp
        exact ⟨j.castSucc, hpeer j⟩

/-- A newcomer gets to know everybody whose address its settings name. -/
theorem Honest.acquainted_newcomer (hn : Honest net) (hl : net.Listening) {address : Address}
    {config : Config} {fresh : Id} (hfree : ∀ i, (net.seat i).address ≠ address)
    (hs : (net.addSeat (newcomer address config fresh)).Spacious) (i : Fin n) {text : String}
    (htext : text ∈ config.bootstrap)
    (hparse : Address.parseNumeric? text = some (net.seat i).address)
    (net₀ : Overlay (n + 1)) :
    ((config.bootstrap.filterMap Address.parseNumeric?).foldl
      (fun net target => ((net₀.node (Fin.last n)).bootstrap target net).2)
      (net.addSeat (newcomer address config fresh))).Acquainted (Fin.last n) i.castSucc := by
  have hseat := seat_addSeat_castSucc net (newcomer address config fresh) i
  have hne : Fin.last n ≠ i.castSucc := (Fin.ne_of_lt (Fin.castSucc_lt_last i)).symm
  refine hs.acquainted_bootstraps (hn.addSeat config fresh hfree) hne ?_ ?_ net₀
  · rw [hseat]
    exact hl i
  · rw [hseat]
    exact List.mem_filterMap.mpr ⟨text, htext, hparse⟩

/-- **What a node that joins changes.** -/
theorem Honest.joined (hn : Honest net) (hl : net.Listening) {address : Address} {config : Config}
    {fresh : Id} (hfree : ∀ i, (net.seat i).address ≠ address) {net' : Overlay (n + 1)}
    (h : net.joinAt address config {} fresh = .ok net') : Joined net address config net' := by
  obtain rfl := of_joinAt h
  rw [welcome]
  generalize hnet₀ : net.addSeat (newcomer address config fresh) = net₀
  have hn₀ : Honest net₀ := hnet₀ ▸ hn.addSeat config fresh hfree
  have hcast : ∀ i : Fin n, net₀.seat i.castSucc = net.seat i := by
    rw [← hnet₀]
    exact fun i => seat_addSeat_castSucc net _ i
  have hlast : net₀.seat (Fin.last n) = newcomer address config fresh := by
    rw [← hnet₀]
    exact seat_addSeat_last net _
  have hserver : ∀ i : Fin n, net₀.server i.castSucc = net.server i :=
    fun i => congrArg Seat.server (hcast i)
  obtain ⟨hn₁, hq⟩ := hn₀.quiet_bootstraps (Fin.last n)
    (config.bootstrap.filterMap Address.parseNumeric?) net₀
  have hacquainted := fun (hs : net₀.Spacious) (i : Fin n) (text : String)
      (htext : text ∈ config.bootstrap) hparse =>
    hnet₀ ▸ hn.acquainted_newcomer hl hfree (hnet₀ ▸ hs) i htext hparse net₀
  generalize (config.bootstrap.filterMap Address.parseNumeric?).foldl
    (fun net₁ target => ((net₀.node (Fin.last n)).bootstrap target net₁).2) net₀ = net₁ at *
  constructor
  case honest => exact hn₁.listen (Fin.last n)
  case listening =>
    intro i
    rw [seat_listen]
    induction i using Fin.lastCases with
    | last => simp
    | cast i =>
        have hi := hq.listening_eq i.castSucc
        rw [hcast, hl i] at hi
        simp [hi]
  case config_eq =>
    intro i
    rw [seat_listen, hq.config_eq, hcast]
  case address_eq =>
    intro i
    rw [seat_listen, hq.address_eq, hcast]
  case id_eq =>
    intro i
    rw [id, server_listen]
    exact (hq.id_eq i.castSucc).trans (congrArg Server.id (hserver i))
  case bucketSize_eq =>
    intro i
    rw [table, server_listen]
    exact (hq.bucketSize_eq i.castSucc).trans (congrArg (·.peers.bucketSize) (hserver i))
  case known =>
    intro i p hp
    rw [table, ← hserver] at hp
    rw [table, server_listen]
    exact hq.known i.castSucc p hp
  case value?_eq =>
    intro i key
    rw [value?, server_listen]
    exact (hq.value?_eq i.castSucc key).trans (congrArg (·.values.get? key.bytes) (hserver i))
  case bootstrap_last =>
    rw [seat_listen, hq.config_eq, hlast]
    rfl
  case address_last =>
    rw [seat_listen, hq.address_eq, hlast]
    rfl
  case bucketSize_last =>
    rw [seat_listen, hq.config_eq, hlast, table, server_listen]
    have hsize := hq.bucketSize_eq (Fin.last n)
    rw [table, table, server, server, hlast] at hsize
    exact hsize
  case value?_last =>
    intro key
    rw [value?, server_listen]
    have hvalue := hq.value?_eq (Fin.last n) key
    rw [value?, value?, server, server, hlast] at hvalue
    exact hvalue
  case acquainted =>
    intro hs i text htext hparse
    have hs₀ : net₀.Spacious := hq.spacious_iff.mp (spacious_congr
      (fun j => (congrArg Server.id (server_listen net₁ _ j)).symm)
      (fun j => (congrArg (·.peers.bucketSize) (server_listen net₁ _ j)).symm) hs)
    rw [Acquainted, peer_listen, peer_listen, table, table, server_listen, server_listen]
    exact hacquainted hs₀ i text htext hparse

end Network
end Kademlia
