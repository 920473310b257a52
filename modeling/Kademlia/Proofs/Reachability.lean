import Kademlia.Proofs.Exhaustive
import Kademlia.Proofs.Run

/-!
# Kademlia.Proofs.Reachability

To get a value decides reachability: in an honest network it is found exactly
if a node has it that can be reached from the one that searches, from one known
peer to the next (`Network.Honest.getValue_reachable`).  That everybody who can
be reached is asked is `Widening.value?_eq_none`.  For the converse, whatever
nodes the search begins among, if they know nobody else it does not leave them
(`Network.Confined`), although nodes get to know each other on the way.
-/

namespace Kademlia

namespace Network

variable {n : Nat} {net net₀ net' : Overlay n} {i j : Fin n} {key : Id} {l l' : Lookup}
  {within : Fin n → Prop}

/-! ## Questions make few nodes known -/

/-- Whom an answer names is known to the node that gave it, and nobody but the
one who asked became known. -/
theorem Honest.of_ask (hn : Honest net) (hl : net.Listening) {p : Peer}
    (hj : net.Receives i p j) {k : UInt64} {reply : GetReply}
    (hask : (net₀.node i).ask p ⟨key, k⟩ net = (.ok reply, net')) :
    (∀ q ∈ reply.nodes, q ∈ (net'.table j).peers) ∧
      ∀ h, ∀ q ∈ (net'.table h).peers, q ∈ (net.table h).peers ∨ q = net.peer i := by
  have haccepted : ∀ {given : Except ErrorCode GetReply},
      (given.mapError RpcError.remote).bind (Node.checkReply p key) = .ok reply →
        given = .ok reply := by
    intro given h
    obtain ⟨reply', hgiven, hcheck⟩ := Except.exists_of_bind_eq_ok h
    obtain ⟨rfl, _⟩ := Node.of_checkReply hcheck
    cases given with
    | error e => contradiction
    | ok given => exact congrArg _ (Except.ok.inj hgiven)
  rcases hj with ⟨hid, rfl⟩ | ⟨hid, rfl⟩
  · have hself : (net₀.node j).ask p ⟨key, k⟩ net = _ :=
      (lawful_node net₀ j).ask_self hid ⟨key, k⟩
    obtain ⟨hgiven, rfl⟩ := Prod.mk.inj (hself.symm.trans hask)
    have hmem := Server.mem_of_handleGet (hn.wellFormed j) (haccepted hgiven)
    rw [Server.handleGet_none_snd] at hmem
    exact ⟨hmem, fun _ _ hq => .inl hq⟩
  · have hout : (net₀.node i).ask (net.peer j) ⟨key, k⟩ net =
        (((transport i).getValue (net.seat j).address ⟨key, k⟩ net).1.bind
          (Node.checkReply (net.peer j) key),
          ((transport i).getValue (net.seat j).address ⟨key, k⟩ net).2) := Node.ask_of_ne hid _
    rw [Network.getValue_transport hn.faultless _ (hn.listener?_eq (hl j))] at hout
    obtain ⟨hgiven, rfl⟩ := Prod.mk.inj (hout.symm.trans hask)
    have hmem := Server.mem_of_handleGet (hn.wellFormed j) (haccepted hgiven)
    have hfew : ∀ q ∈ (Server.handleGet (some (net.peer i)) ⟨key, k⟩ (net.server j)).2.peers.peers,
        q ∈ (net.table j).peers ∨ q = net.peer i := fun q hq =>
      (Server.mem_handleGet hq).imp_right fun heq => (Option.some.inj heq).symm
    generalize Server.handleGet (some (net.peer i)) ⟨key, k⟩ (net.server j) = result at hmem hfew ⊢
    have hserver : ∀ h, (net.setServer j result.2).server h =
        if j = h then result.2 else net.server h := fun h => server_setServer net j h result.2
    refine ⟨fun q hq => ?_, fun h q hq => ?_⟩
    · show q ∈ ((net.setServer j result.2).server j).peers.peers
      rw [hserver, if_pos rfl]
      exact hmem q hq
    · have hq' : q ∈ ((net.setServer j result.2).server h).peers.peers := hq
      rw [hserver] at hq'
      split at hq'
      next heq => exact heq ▸ hfew q hq'
      · exact .inl hq'

/-! ## Searches that do not leave a part of the network -/

/-- The nodes of this part know only each other. -/
def Closed (net : Overlay n) (within : Fin n → Prop) : Prop :=
  ∀ a b, within a → net.Knows a b → within b

/-- A search that began in `net₀` and has not left a part of the network. -/
structure Confined (net₀ : Overlay n) (within : Fin n → Prop) (l : Lookup) (net : Overlay n) :
    Prop where
  closed : net.Closed within
  inside : ∀ c ∈ l.session.candidates, ∀ j, net₀.peer j = c.peer → within j

/-- A question to a candidate is received within that part. -/
theorem Confined.receives (hc : Confined net₀ within l net) (hi : within i) {c : Candidate}
    (hmem : c ∈ l.session.candidates) (hj : net₀.Receives i c.peer j) : within j := by
  rcases hj with ⟨_, rfl⟩ | ⟨_, hpeer⟩
  · exact hi
  · exact hc.inside c hmem j hpeer

/-- Whoever asks from within, the part stays closed. -/
theorem Closed.of_ask (hclosed : net.Closed within) (hn : Honest net)
    (hpeer : ∀ h, net'.peer h = net.peer h) (hi : within i)
    (hfew : ∀ h, ∀ q ∈ (net'.table h).peers, q ∈ (net.table h).peers ∨ q = net.peer i) :
    net'.Closed within := by
  intro a b ha hknows
  rw [Knows, hpeer] at hknows
  rcases hfew a _ hknows with hold | hnew
  · exact hclosed a b ha hold
  · obtain rfl : b = i := hn.peer_inj hnew
    exact hi

/-- And so it does when nodes of it are met. -/
theorem Closed.meetAll (hclosed : net.Closed within) {nodes : List Peer}
    (hnodes : ∀ p ∈ nodes, ∀ h, net.peer h = p → within h) :
    (net.meetAll i nodes).Closed within := by
  intro a b ha hknows
  rw [Knows, (Quiet.meetAll net i nodes).peer_eq] at hknows
  rw [table, Network.meetAll, server_setServer] at hknows
  split at hknows
  next heq =>
    rcases Server.mem_or_mem_of_mem_meetAll hknows with hold | hnew
    · rw [heq] at hold
      exact hclosed a b ha hold
    · exact hnodes _ hnew b rfl
  · exact hclosed a b ha hknows

/-- **A search does not leave a part of the network that is closed.** -/
theorem Confined.step (hc : Confined net₀ within l net) (hs : Searching net₀ i l net)
    (hl : net₀.Listening) (hi : within i) (hstep : l.step (net₀.node i) net = (none, l', net')) :
    Confined net₀ within l' net' := by
  have hst := Lookup.stepped (lawful_node net₀ i) hs.sound
  rw [hstep] at hst
  cases hst with
  | skipped c session e s' hnext ha =>
      obtain ⟨d, hd, hpeer, rfl⟩ := hs.picked hnext
      obtain ⟨j, reply, net', _, heq, _⟩ := hs.ask hl hd.mem
      rw [hpeer, heq] at ha
      simp at ha
  | widened c session reply net₁ hnext ha hv =>
      obtain ⟨d, hd, hpeer, rfl⟩ := hs.picked hnext
      obtain ⟨j, reply', net₂, hj, heq, hn', hq', hans⟩ := hs.ask hl hd.mem
      rw [hpeer, heq] at ha
      obtain ⟨rfl, rfl⟩ : reply' = reply ∧ net₂ = net₁ := by simpa using ha
      have hj' := hc.receives hi hd.mem hj
      obtain ⟨hmem, hfew⟩ := hs.honest.of_ask (hs.quiet.listening hl)
        (hs.quiet.receives_iff.mpr hj) heq
      have hclosed : net₂.Closed within := hc.closed.of_ask hs.honest
        (fun h => (hq'.peer_eq h).trans (hs.quiet.peer_eq h).symm) hi hfew
      -- Those it names are known to the node that was asked, which is within.
      have hnodes : ∀ p ∈ reply'.nodes, ∀ h, net₂.peer h = p → within h := by
        rintro p hp h rfl
        exact hclosed j h hj' (hmem _ hp)
      refine ⟨hclosed.meetAll hnodes, fun e he h hh => ?_⟩
      rcases Session.mem_candidates_merge he with he | he
      · obtain ⟨p, hp, rfl⟩ := List.mem_map.mp he
        exact hnodes p hp h ((hq'.peer_eq h).trans hh)
      · rcases Session.mem_markSearched he with ⟨he, _⟩ | ⟨e', he', _, rfl⟩
        · exact hc.inside e he h hh
        · exact hc.inside e' he' h hh

/-- What it finds is kept within that part. -/
theorem Confined.run (hc : Confined net₀ within l net) (hs : Searching net₀ i l net)
    (hn₀ : Honest net₀) (hl : net₀.Listening) (hi : within i) {p : Peer} {value : Bytes}
    (hrun : l.run (net₀.node i) net = (.found p value, l', net')) :
    ∃ j, within j ∧ net₀.value? j l.key = some value := by
  have hrule := Lookup.runFor_rule
    (fun l₁ net₁ => Confined net₀ within l₁ net₁ ∧ Searching net₀ i l₁ net₁ ∧ l₁.key = l.key)
    (fun ending _ _ => ∀ p value, ending = .found p value →
      ∃ j, within j ∧ net₀.value? j l.key = some value) ?_ ?_ ⟨hc, hs, rfl⟩ _ hrun
  · rcases hrule with ⟨hcut, _⟩ | hfound
    · contradiction
    · exact hfound p value rfl
  · rintro l₁ net₁ l₂ net₂ ⟨hc₁, hs₁, hkey⟩ hstep
    have hc₂ := hc₁.step hs₁ hl hi hstep
    have hadv := hs₁.advance hn₀ hl
    rw [hstep] at hadv
    cases hadv with
    | widened c j nodes net' hc hj hnone hnames htaken hs₂ => exact ⟨hc₂, hs₂, hkey⟩
  · rintro l₁ net₁ e l₂ net₂ ⟨hc₁, hs₁, hkey⟩ hstep p value rfl
    have hadv := hs₁.advance hn₀ hl
    rw [hstep] at hadv
    cases hadv with
    | found c j value net' hpicked hj hv =>
        exact ⟨j, hc₁.receives hi hpicked.mem hj, hkey ▸ hv⟩

/-- A search begins among those whom the node knows. -/
theorem Honest.confined_of_begin (hn : Honest net) (hclosed : net.Closed within) (hi : within i)
    {capacity : Option Nat} {k : UInt64}
    (h : (net.node i).begin ⟨capacity, []⟩ key k net = (.ok (.lookup l), net')) :
    Confined net within l net := by
  have hbegin := Node.beginning (lawful_node net i) ⟨capacity, []⟩ key k net
  rw [h] at hbegin
  cases hbegin with
  | lookup hlen responder nodes hlook _ =>
      have hmem := Server.mem_of_lookUp (hn.wellFormed i) hlen.symm hlook
      refine ⟨hclosed, fun c hc j hj => ?_⟩
      rcases Node.mem_openingLookup hc with ⟨p, hp, rfl⟩ | hself
      · have hknows : net.Knows i j := by
          rw [Knows, hj]
          exact hmem p hp
        exact hclosed i j hi hknows
      · obtain rfl : j = i := hn.peer_inj (hj.trans hself)
        exact hi

/-- What a node gets is kept within every closed part that it is in. -/
theorem Honest.getValue_within (hn : Honest net) (hl : net.Listening)
    (hclosed : net.Closed within) (hi : within i) {value : Bytes}
    (h : ((net.node i).getValue key net).1 = .ok value) :
    ∃ j, within j ∧ net.value? j key = some value := by
  have hget := Node.getting (lawful_node net i) key net
  generalize (net.node i).getValue key net = result at hget h
  cases hget with
  | refused e => contradiction
  | here v hbegin =>
      obtain rfl : v = value := Except.ok.inj h
      exact ⟨i, hi, hn.of_begin_here hbegin⟩
  | searched l₀ l ending net' hbegin hrun =>
      obtain ⟨p, rfl⟩ : ∃ p, ending = .found p value := by
        cases ending with
        | found p v => exact ⟨p, congrArg _ (Except.ok.inj h)⟩
        | failed e => contradiction
        | settled => contradiction
        | exhausted => contradiction
        | cutOff => contradiction
      obtain ⟨_, _, _, _, rfl, hs⟩ := hn.of_begin_lookup hbegin
      exact (hn.confined_of_begin hclosed hi hbegin).run hs hn hl hi hrun

/-! ## Reachability -/

theorem closed_reaches (net : Overlay n) (i : Fin n) : net.Closed (net.Reaches i) :=
  fun _ _ ha hb => ha.tail hb

/-- **To get a value decides reachability.**  In an honest network of one
overlay, with space for everybody in every answer, a node finds nothing exactly
if nobody whom it can reach has a value; otherwise it gets one that somebody
keeps whom it can reach. -/
theorem Honest.getValue_reachable (hn : Honest net) (hl : net.Listening)
    (hid : ∀ i j, net.id i = net.id j → i = j) (hkey : ∀ i, (net.id i).length = key.length)
    (g : Fin n) (hreturned : n ≤ (net.seat g).config.peersReturnedGet.toNat) :
    (((net.node g).getValue key net).1 = .error (.notFound []) ↔
      ∀ j, net.Reaches g j → net.value? j key = none) ∧
    ((¬ ∀ j, net.Reaches g j → net.value? j key = none) →
      ∃ value j, ((net.node g).getValue key net).1 = .ok value ∧ net.Reaches g j ∧
        net.value? j key = some value) := by
  have hfound : ∀ value, ((net.node g).getValue key net).1 = .ok value →
      ∃ j, net.Reaches g j ∧ net.value? j key = some value := fun value h =>
    hn.getValue_within hl (closed_reaches net g) .refl h
  have hcases : (∃ value, ((net.node g).getValue key net).1 = .ok value) ∨
      ((net.node g).getValue key net).1 = .error (.notFound []) ∧
        ∀ j, net.Reaches g j → net.value? j key = none := by
    cases hown : net.value? g key with
    | some value =>
        exact .inl ⟨value, Node.getValue_of_here (hn.begin_of_some (hkey g) hown none _)⟩
    | none =>
        obtain ⟨l₀, ending, l, net', hbegin, hrun, hending⟩ :=
          hn.exhaustive hl (hkey g) hown hreturned
        rcases hending with ⟨p, value, rfl⟩ | ⟨rfl, rfl, hw, hall⟩
        · exact .inl ⟨value, Node.getValue_of_found hbegin hrun⟩
        · refine .inr ⟨?_, fun j hj => hw.value?_eq_none hid hall hj⟩
          rw [Node.getValue_of_exhausted hbegin hrun, hw.errors_nil]
  rcases hcases with ⟨value, hok⟩ | ⟨hnone, hall⟩
  · obtain ⟨j, hj, hv⟩ := hfound value hok
    refine ⟨⟨fun h => ?_, fun h => ?_⟩, fun _ => ⟨value, j, hok, hj, hv⟩⟩
    · rw [hok] at h
      contradiction
    · rw [h j hj] at hv
      contradiction
  · exact ⟨⟨fun _ => hall, fun _ => hnone⟩, fun h => absurd hall h⟩

/-- The last node of a chain reaches the first one, which keeps a value. -/
theorem getValue_reachable_chain : ∃ value j,
    ((Small.chain.node 2).getValue (Small.id 0) Small.chain).1 = .ok value ∧
      Small.chain.Reaches 2 j ∧ Small.chain.value? j (Small.id 0) = some value := by
  have hready := Small.run_chain.ready
  have hlen : ∀ i, (Small.chain.id i).length = (Small.id 0).length := by decide +kernel
  have hreaches : Small.chain.Reaches 2 0 :=
    .tail (.single (show Small.chain.peer 1 ∈ (Small.chain.table 2).peers by decide +kernel))
      (show Small.chain.peer 0 ∈ (Small.chain.table 1).peers by decide +kernel)
  have hkept : Small.chain.value? 0 (Small.id 0) ≠ none := by decide +kernel
  refine (Honest.getValue_reachable hready.honest hready.listening (by decide +kernel) hlen 2
    (by decide +kernel)).2 fun hnone => hkept (hnone 0 hreaches)

end Network
end Kademlia
