import Kademlia.Proofs.Outcomes
import Kademlia.Proofs.Run

/-!
# Kademlia.Proofs.Storing

Storing a value at several peers, one after the other.  `Node.Attempt` is what
happens at one of them, on whatever state and transport the node acts.  An
attempt is acknowledged, counts as one replica less, or ends the storing
(`Replica.fatal?`); `Replica.Ended` says what a sequence of attempts comes to, and
`Node.exists_attempts` that storing is just that.

Nothing that was written is taken back: a server that keeps the value of a
request (`Server.Holds`) keeps it whatever comes after (`Network.Steady`).
-/

namespace Kademlia

/-- To put errors differently makes no result. -/
theorem Except.mapError_eq_ok {ε ε' α : Type} {f : ε → ε'} {x : Except ε α} {a : α} :
    x.mapError f = .ok a ↔ x = .ok a := by
  cases x <;> simp [Except.mapError]

/-! ## Replicas that end the storing -/

namespace Replica

variable {r : Replica} {e : RpcError}

/-- The error that ends the storing, if there is one: any but that the peer
could not be reached, or that its answer did not fit. -/
def fatal? (r : Replica) : Option RpcError :=
  match r.reply with
  | .ok _ | .error .unreachable | .error (.invalidResponse _) => none
  | .error e => some e

theorem fatal?_eq_some_iff :
    r.fatal? = some e ↔ r.reply = .error e ∧ e.isStoreFailure = false := by
  obtain ⟨peer, reply⟩ := r
  cases reply with
  | ok reply => simp [fatal?]
  | error cause =>
      by_cases heq : cause = e
      · rw [heq]
        cases e <;> simp [fatal?, RpcError.isStoreFailure]
      · cases cause <;> simp [fatal?, heq]

theorem outcome_of_fatal? (h : r.fatal? = some e) : r.outcome = .error e := by
  rw [outcome, (fatal?_eq_some_iff.mp h).1]
  rfl

/-- Any other error is one replica less. -/
theorem isStoreFailure_of_outcome (h : r.fatal? = none) (ho : r.outcome = .error e) :
    e.isStoreFailure = true := by
  rw [outcome] at ho
  cases hreply : r.reply with
  | ok reply =>
      rw [hreply] at ho
      exact Node.isStoreFailure_of_checkAcknowledgement ho
  | error cause =>
      rw [hreply] at ho
      obtain rfl : cause = e := Except.error.inj ho
      by_contra hfatal
      have hsome := fatal?_eq_some_iff.mpr ⟨hreply, by simpa using hfatal⟩
      rw [h] at hsome
      contradiction

/-- Whoever acknowledged has replied. -/
theorem exists_reply (h : r.acknowledged = true) : ∃ reply, r.reply = .ok reply := by
  rw [acknowledged] at h
  cases hreply : r.reply with
  | ok reply => exact ⟨reply, rfl⟩
  | error cause =>
      rw [hreply] at h
      contradiction

/-! ## How storing ends -/

/-- How storing at several peers ends, with what came of each contact. -/
inductive Ended (storers : List Peer) : List Replica → Except Error (List PeerError) → Prop where
  /-- Every peer was contacted; those that did not acknowledge the value are
  reported, in order. -/
  | completed (rs : List Replica) (failures : List PeerError)
      (hall : rs.map (·.peer) = storers) (hfatal : ∀ r ∈ rs, r.fatal? = none)
      (hfailures : failures = rs.filterMap Replica.failure?)
      (hfailed : failures.map (·.peer) = (rs.filter (!·.acknowledged)).map (·.peer)) :
      Ended storers rs (.ok failures)
  /-- An error ended it, and nobody was contacted afterwards. -/
  | aborted (before : List Replica) (last : Replica) (rest : List Peer) (e : RpcError)
      (hstorers : storers = before.map (·.peer) ++ last.peer :: rest)
      (hbefore : ∀ r ∈ before, r.fatal? = none) (hlast : last.fatal? = some e) :
      Ended storers (before ++ [last]) (.error (.rpc e))

namespace Ended

variable {rest : List Peer} {r : Replica} {rs : List Replica}
  {result : Except Error (List PeerError)}

theorem nil : Ended [] [] (.ok []) := .completed [] [] rfl (by simp) rfl rfl

theorem stopped {e : RpcError} (h : r.fatal? = some e) :
    Ended (r.peer :: rest) [r] (.error (.rpc e)) :=
  .aborted [] r rest e rfl (by simp) h

/-- The storing goes on after a contact that does not end it. -/
theorem cons (h : Ended rest rs result) (hr : r.fatal? = none) :
    Ended (r.peer :: rest) (r :: rs) (result.map (r.failure?.toList ++ ·)) := by
  cases h with
  | completed rs failures hall hfatal hfailures hfailed =>
      have hmore : r.failure?.toList ++ failures = (r :: rs).filterMap Replica.failure? := by
        rw [hfailures]
        cases hf : r.failure? with
        | none => rw [List.filterMap_cons_none hf]; rfl
        | some e => rw [List.filterMap_cons_some hf]; rfl
      have hnamed := Replica.filterMap_failure? (r :: rs)
      rw [← hmore] at hnamed
      exact .completed (r :: rs) _ (by rw [List.map_cons, hall])
        (List.forall_mem_cons.mpr ⟨hr, hfatal⟩) hmore hnamed
  | aborted before last after e hstorers hbefore hlast =>
      exact .aborted (r :: before) last after e (by rw [hstorers]; rfl)
        (List.forall_mem_cons.mpr ⟨hr, hbefore⟩) hlast

end Ended

end Replica

namespace Node

section

variable {P S σ : Type} [PeerStore P] [Storage S] {node : Node P S σ} {request : StoreRequest}
  {s s₁ s' : σ} {r : Replica} {rs : List Replica}

/-! ## Contacts -/

/-- What happens when a node is to store a value at a peer, and the state
afterwards. -/
inductive Attempt (node : Node P S σ) (request : StoreRequest) (s : σ) : Replica → σ → Prop where
  /-- The peer is the node itself: its own server handles the request. -/
  | own (peer : Peer) (hid : peer.id = node.id s) :
      Attempt node request s
        ⟨peer, (Server.handleStore none request (node.server s)).1.mapError RpcError.remote⟩
        (node.setServer (Server.handleStore none request (node.server s)).2 s)
  /-- The request goes out to the address of the peer. -/
  | sent (peer : Peer) (hid : peer.id ≠ node.id s) :
      Attempt node request s ⟨peer, (node.transport.storeValue peer.address request s).1⟩
        (node.transport.storeValue peer.address request s).2

/-- Attempts one after the other. -/
inductive Attempts (node : Node P S σ) (request : StoreRequest) :
    (s : σ) → List Replica → (s' : σ) → Prop where
  | nil (s : σ) : Attempts node request s [] s
  | cons {s s₁ s' : σ} {r : Replica} {rs : List Replica} (hfirst : node.Attempt request s r s₁)
      (hrest : Attempts node request s₁ rs s') : Attempts node request s (r :: rs) s'

/-- To store at a peer is one attempt. -/
theorem exists_attempt (node : Node P S σ) (peer : Peer) (request : StoreRequest) (s : σ) :
    ∃ r s', r.peer = peer ∧ node.storeAt peer request s = (r.outcome, s') ∧
      node.Attempt request s r s' := by
  by_cases hid : peer.id = node.id s
  · rw [storeAt_self hid]
    exact ⟨_, _, rfl, rfl, .own peer hid⟩
  · rw [storeAt_of_ne hid]
    exact ⟨_, _, rfl, rfl, .sent peer hid⟩

/-- An error that is more than one replica less ends the storing. -/
theorem replicate_of_fatal {e : RpcError} (rest : List Peer)
    (hstore : node.storeAt r.peer request s = (r.outcome, s')) (h : r.fatal? = some e) :
    node.replicate request (r.peer :: rest) s = (.error e, s') := by
  have hfailure := (Replica.fatal?_eq_some_iff.mp h).2
  rw [replicate, hstore, Replica.outcome_of_fatal? h]
  simp only [hfailure, Bool.false_eq_true, if_false]

/-- After any other attempt it goes on. -/
theorem replicate_of_not_fatal {rest : List Peer} {result : Except RpcError (List PeerError)}
    (hstore : node.storeAt r.peer request s = (r.outcome, s₁)) (h : r.fatal? = none)
    (hrest : node.replicate request rest s₁ = (result, s')) :
    node.replicate request (r.peer :: rest) s = (result.map (r.failure?.toList ++ ·), s') := by
  rw [replicate, hstore, Replica.failure?]
  cases houtcome : r.outcome with
  | ok u =>
      show node.replicate request rest s₁ = _
      rw [hrest]
      cases result <;> rfl
  | error e =>
      have hfailure := Replica.isStoreFailure_of_outcome h houtcome
      simp only [hfailure, if_true, hrest]
      rfl

/-- **To store at several peers is to attempt it in their order**, and how it ends
follows from what came of the attempts. -/
theorem exists_attempts (node : Node P S σ) (request : StoreRequest) (storers : List Peer) (s : σ) :
    ∃ rs result s', node.replicate request storers s = (result, s') ∧
      node.Attempts request s rs s' ∧ Replica.Ended storers rs (result.mapError Error.rpc) := by
  induction storers generalizing s with
  | nil => exact ⟨[], .ok [], s, rfl, .nil s, .nil⟩
  | cons peer rest ih =>
      obtain ⟨r, s₁, rfl, hstore, hattempt⟩ := node.exists_attempt peer request s
      cases hfatal : r.fatal? with
      | some e =>
          exact ⟨[r], .error e, s₁, replicate_of_fatal rest hstore hfatal,
            .cons hattempt (.nil s₁), .stopped hfatal⟩
      | none =>
          obtain ⟨rs, result, s', hrest, hattempts, hended⟩ := ih s₁
          have hcons := hended.cons hfatal
          refine ⟨r :: rs, _, s', replicate_of_not_fatal hstore hfatal hrest,
            .cons hattempt hattempts, ?_⟩
          cases result <;> exact hcons

/-- What an attempt keeps up, several do. -/
theorem Attempts.rule {J : σ → Prop} (hstep : ∀ s r s', J s → node.Attempt request s r s' → J s')
    (h : node.Attempts request s rs s') (hJ : J s) : J s' := by
  induction h with
  | nil s => exact hJ
  | cons hfirst _ ih => exact ih (hstep _ _ _ hJ hfirst)

/-- What each attempt comes to holds in the end, if the later ones keep it up. -/
theorem Attempts.forall_mem {J : σ → Prop} {K : Replica → σ → Prop}
    (hstep : ∀ s r s', J s → node.Attempt request s r s' → J s' ∧ K r s')
    (hkeep : ∀ s r s' r', J s → K r' s → node.Attempt request s r s' → K r' s')
    (h : node.Attempts request s rs s') (hJ : J s) : ∀ r ∈ rs, K r s' := by
  induction h with
  | nil s => simp
  | cons hfirst hrest ih =>
      have hfirst := hstep _ _ _ hJ hfirst
      have hlater := hrest.rule (J := fun s => J s ∧ K _ s) (fun s r s' hs hattempt =>
        ⟨(hstep s r s' hs.1 hattempt).1, hkeep s r s' _ hs.1 hs.2 hattempt⟩) hfirst
      exact List.forall_mem_cons.mpr ⟨hlater.2, ih hfirst.1⟩

end

end Node

/-! ## Servers -/

namespace Server

/-- The server keeps the value of a request: its values are what its storage
made of some when it took it. -/
def Holds {P S : Type} [Storage S] (srv : Server P S) (request : StoreRequest) : Prop :=
  ∃ values, Storage.set values request.key.bytes request.value = .ok srv.values

/-- In memory, the value is found under its key. -/
theorem Holds.get?_eq {P : Type} {srv : Server P MemoryStorage} {request : StoreRequest}
    (h : srv.Holds request) : srv.values.get? request.key.bytes = some request.value := by
  obtain ⟨values, hset⟩ := h
  rw [← Except.ok.inj hset, MemoryStorage.get?_insert, if_pos rfl]

section

variable {S : Type} [Storage S] {srv : Server RoutingTable S} {request : StoreRequest}

/-- What the request to store a value can come to at a server. -/
inductive Storing (srv : Server RoutingTable S) (request : StoreRequest) :
    Except ErrorCode StoreReply × Server RoutingTable S → Prop where
  | kept (srv' : Server RoutingTable S) (hid : srv'.id = srv.id)
      (hset : Storage.set srv.values request.key.bytes request.value = .ok srv'.values) :
      Storing srv request (.ok ⟨srv.id⟩, srv')
  | refused (code : ErrorCode) (srv' : Server RoutingTable S) (hid : srv'.id = srv.id)
      (hvalues : srv'.values = srv.values) : Storing srv request (.error code, srv')

theorem storing (requester : Option Peer) (request : StoreRequest) (srv : Server RoutingTable S) :
    Storing srv request (handleStore requester request srv) := by
  by_cases hm : srv.Matches requester request.key
  · cases hset : Storage.set srv.values request.key.bytes request.value with
    | error e =>
        have hrefused := hset
        rw [← srv.values_greet requester] at hrefused
        have hhandle : handleStore requester request srv = _ := handleStore_of_error hm hrefused
        rw [hhandle]
        exact .refused _ _ (srv.id_greet requester) (srv.values_greet requester)
    | ok values =>
        have hkept := hset
        rw [← srv.values_greet requester] at hkept
        have hhandle : handleStore requester request srv = _ := handleStore_of_ok hm hkept
        rw [hhandle, id_greet]
        exact .kept _ (srv.id_greet requester) hset
  · rw [handleStore, accept_of_not_matches hm]
    exact .refused _ srv rfl rfl

namespace Storing

variable {result : Except ErrorCode StoreReply × Server RoutingTable S}

theorem id_eq (h : Storing srv request result) : result.2.id = srv.id := by
  cases h with
  | kept srv' hid => exact hid
  | refused code srv' hid => exact hid

/-- A value that a server acknowledges is kept. -/
theorem holds (h : Storing srv request result) {reply : StoreReply} (hok : result.1 = .ok reply) :
    result.2.Holds request := by
  cases h with
  | kept srv' _ hset => exact ⟨_, hset⟩
  | refused => contradiction

/-- It is kept whatever becomes of the same request later on. -/
theorem holds_of_holds (h : Storing srv request result) (hheld : srv.Holds request) :
    result.2.Holds request := by
  cases h with
  | kept srv' _ hset => exact ⟨_, hset⟩
  | refused code srv' _ hvalues =>
      obtain ⟨values, hset⟩ := hheld
      exact ⟨values, by rw [hset, hvalues]⟩

/-- A node that stores at itself acknowledges the value, or ends the storing. -/
theorem acknowledged_or_fatal (h : Storing srv request result) {peer : Peer}
    (hid : peer.id = srv.id) :
    let r : Replica := ⟨peer, result.1.mapError RpcError.remote⟩
    r.acknowledged = true ∧ result.2.Holds request ∨ ∃ code, r.fatal? = some (.remote code) := by
  cases h with
  | kept srv' _ hset => exact .inl ⟨by simp [Replica.acknowledged, Except.mapError, hid], _, hset⟩
  | refused code => exact .inr ⟨code, rfl⟩

end Storing

end

end Server

/-! ## Storing among arbitrary peers -/

namespace Node

section

variable {S τ : Type} [Storage S] {config : Config} {address : Address} {world : Transport τ}
  {request : StoreRequest} {s s' : Setting S τ} {r : Replica} {rs : List Replica}

theorem Attempt.id_eq_among (h : (among config address world).Attempt request s r s') :
    s'.server.id = s.server.id := by
  cases h with
  | own peer hid => exact (Server.storing none request s.server).id_eq
  | sent peer hid => rfl

/-- Every request that goes out is in the log, with what came of it. -/
theorem Attempts.log_among (h : (among config address world).Attempts request s rs s') :
    s'.log = s.log ++ (rs.filter (·.peer.id ≠ s.server.id)).map fun r =>
      .store r.peer.address request r.reply := by
  induction h with
  | nil s => simp
  | @cons s s₁ s' r rs hfirst hrest ih =>
      rw [ih, hfirst.id_eq_among]
      cases hfirst with
      | own peer hid =>
          have hown : peer.id = s.server.id := hid
          rw [List.filter_cons_of_neg (by simpa using hown)]
          rfl
      | sent peer hid =>
          have hother : peer.id ≠ s.server.id := hid
          rw [List.filter_cons_of_pos (by simpa using hother), List.map_cons,
            List.append_cons]
          rfl

/-- What the node was to keep itself it keeps, or an error ended the storing. -/
theorem Attempts.own_among (h : (among config address world).Attempts request s rs s') :
    ∀ r ∈ rs, r.peer.id = s.server.id →
      r.acknowledged = true ∧ s'.server.Holds request ∨ ∃ code, r.fatal? = some (.remote code) := by
  refine h.forall_mem (J := fun s' => s'.server.id = s.server.id)
    (K := fun r s' => r.peer.id = s.server.id →
      r.acknowledged = true ∧ s'.server.Holds request ∨ ∃ code, r.fatal? = some (.remote code))
    ?_ ?_ rfl
  · intro s₁ r s₂ hid hattempt
    refine ⟨hattempt.id_eq_among.trans hid, fun hown => ?_⟩
    cases hattempt with
    | own peer hself => exact (Server.storing none request s₁.server).acknowledged_or_fatal hself
    | sent peer hother => exact absurd (hown.trans hid.symm) hother
  · intro s₁ r s₂ r' hid hkept hattempt hown
    cases hkept hown with
    | inr hremote => exact .inr hremote
    | inl hheld =>
        refine .inl ⟨hheld.1, ?_⟩
        cases hattempt with
        | own peer => exact (Server.storing none request s₁.server).holds_of_holds hheld.2
        | sent peer => exact hheld.2

end

end Node

/-! ## Storing in networks -/

namespace Network

variable {S : Type} [Storage S] {n : Nat} {net net₀ net₁ net' : Network RoutingTable S n}
  {i j : Fin n} {request : StoreRequest} {r : Replica} {rs : List Replica}

omit [Storage S] in
theorem listener?_setServer (net : Network RoutingTable S n) (i : Fin n)
    (srv : Server RoutingTable S) (target : Address) :
    (net.setServer i srv).listener? target = net.listener? target := by
  rw [listener?, listener?]
  simp only [listening_setServer, address_setServer]

/-- The node that is to keep a value for a peer: the sender itself if the peer
has its id, and otherwise the one at the address of the peer. -/
def storer? (net : Network RoutingTable S n) (i : Fin n) (peer : Peer) : Option (Fin n) :=
  if peer.id = (net.server i).id then some i else net.listener? peer.address

/-- Nodes stay who and where they are, and those that keep the value of a
request go on keeping it. -/
structure Steady (request : StoreRequest) (net net' : Network RoutingTable S n) : Prop where
  id_eq : ∀ j, (net'.server j).id = (net.server j).id
  listener?_eq : ∀ target, net'.listener? target = net.listener? target
  holds : ∀ j, (net.server j).Holds request → (net'.server j).Holds request

namespace Steady

theorem refl (request : StoreRequest) (net : Network RoutingTable S n) :
    Steady request net net where
  id_eq _ := rfl
  listener?_eq _ := rfl
  holds _ h := h

theorem trans (h₁ : Steady request net net₁) (h₂ : Steady request net₁ net') :
    Steady request net net' where
  id_eq j := (h₂.id_eq j).trans (h₁.id_eq j)
  listener?_eq target := (h₂.listener?_eq target).trans (h₁.listener?_eq target)
  holds j h := h₂.holds j (h₁.holds j h)

theorem storer?_eq (h : Steady request net net') (i : Fin n) (peer : Peer) :
    net'.storer? i peer = net.storer? i peer := by
  rw [storer?, storer?, h.id_eq, h.listener?_eq]

theorem handleStore (net : Network RoutingTable S n) (j : Fin n) (requester : Option Peer)
    (request : StoreRequest) : Steady request net
      (net.setServer j (Server.handleStore requester request (net.server j)).2) where
  id_eq h := by
    rw [server_setServer]
    split
    next heq => rw [← heq]; exact (Server.storing requester request (net.server j)).id_eq
    · rfl
  listener?_eq := net.listener?_setServer j _
  holds h hheld := by
    rw [server_setServer]
    split
    next heq =>
      rw [← heq] at hheld
      exact (Server.storing requester request (net.server j)).holds_of_holds hheld
    · exact hheld

end Steady

/-- What a store that goes out can come to, whatever the faults. -/
inductive Sending (net : Network RoutingTable S n) (target : Address) (request : StoreRequest) :
    Except RpcError StoreReply × Network RoutingTable S n → Prop where
  /-- Nobody got it. -/
  | lost (e : RpcError) : Sending net target request (.error e, net)
  /-- The node at the address handled it; a reply means that it keeps the value. -/
  | handled (j : Fin n) (requester : Option Peer) (outcome : Except RpcError StoreReply)
      (hlistener : net.listener? target = some j)
      (houtcome : ∀ reply, outcome = .ok reply → ∃ given,
        (Server.handleStore requester request (net.server j)).1 = .ok given) :
      Sending net target request
        (outcome, net.setServer j (Server.handleStore requester request (net.server j)).2)

theorem sending_deliver (net : Network RoutingTable S n) (sender : Fin n) (target : Address)
    (request : StoreRequest) :
    Sending net target request (net.deliver sender target (Server.handleStore · request)) := by
  rw [deliver]
  cases hlistener : net.listener? target with
  | none => exact .lost .unreachable
  | some j =>
      exact .handled j (some (net.peer sender))
        ((Server.handleStore (some (net.peer sender)) request (net.server j)).1.mapError
          RpcError.remote) hlistener fun reply hreply => ⟨reply, Except.mapError_eq_ok.mp hreply⟩

/-- A disguise does not make an error a reply. -/
theorem Sending.disguised {result : Except RpcError StoreReply × Network RoutingTable S n}
    {target : Address} (h : Sending net target request result) (f : StoreReply → StoreReply) :
    Sending net target request (result.1.map f, result.2) := by
  cases h with
  | lost e => exact .lost e
  | handled j requester outcome hlistener houtcome =>
      refine .handled j requester _ hlistener fun reply hreply => ?_
      cases outcome with
      | error e => contradiction
      | ok reply' => exact houtcome reply' rfl

theorem sending (sender : Fin n) (target : Address) (request : StoreRequest)
    (net : Network RoutingTable S n) :
    Sending net target request (net.storeAt sender target request) := by
  have hdeliver := sending_deliver net sender target request
  rw [storeAt]
  split
  · exact .lost _
  · exact .lost _
  · exact hdeliver.disguised _

/-- A store that goes out changes nothing else, and a reply means that the node
at the address keeps the value. -/
theorem Sending.steady {result : Except RpcError StoreReply × Network RoutingTable S n}
    {target : Address} (h : Sending net target request result) :
    Steady request net result.2 ∧ ∀ reply, result.1 = .ok reply →
      ∃ j, net.listener? target = some j ∧ (result.2.server j).Holds request := by
  cases h with
  | lost e => exact ⟨.refl request net, by simp⟩
  | handled j requester outcome hlistener houtcome =>
      refine ⟨.handleStore net j requester request, fun reply hreply => ⟨j, hlistener, ?_⟩⟩
      obtain ⟨given, hgiven⟩ := houtcome reply hreply
      rw [server_setServer, if_pos rfl]
      exact (Server.storing requester request (net.server j)).holds hgiven

/-- An attempt changes nothing else, and one that is acknowledged means that the
node which it comes to keeps the value. -/
theorem attempt_steady (h : (net₀.node i).Attempt request net r net') :
    Steady request net net' ∧ (r.acknowledged = true →
      ∃ j, net.storer? i r.peer = some j ∧ (net'.server j).Holds request) := by
  cases h with
  | own peer hid =>
      have hown : peer.id = (net.server i).id := hid
      refine ⟨.handleStore net i none request, fun hack => ⟨i, if_pos hown, ?_⟩⟩
      obtain ⟨reply, hreply⟩ := Replica.exists_reply hack
      show ((net.setServer i _).server i).Holds request
      rw [server_setServer, if_pos rfl]
      exact (Server.storing none request (net.server i)).holds (Except.mapError_eq_ok.mp hreply)
  | sent peer hid =>
      have hother : peer.id ≠ (net.server i).id := hid
      obtain ⟨hsteady, hheld⟩ := (sending i peer.address request net).steady
      refine ⟨⟨hsteady.id_eq, hsteady.listener?_eq, hsteady.holds⟩, fun hack => ?_⟩
      obtain ⟨reply, hreply⟩ := Replica.exists_reply hack
      obtain ⟨j, hlistener, hholds⟩ := hheld reply hreply
      exact ⟨j, (if_neg hother).trans hlistener, hholds⟩

/-- Nothing that was acknowledged is taken back. -/
theorem attempts_steady (h : (net₀.node i).Attempts request net rs net') :
    ∀ r ∈ rs, r.acknowledged = true →
      ∃ j, net.storer? i r.peer = some j ∧ (net'.server j).Holds request := by
  refine h.forall_mem (J := Steady request net) (K := fun r net' => r.acknowledged = true →
    ∃ j, net.storer? i r.peer = some j ∧ (net'.server j).Holds request) ?_ ?_ (.refl request net)
  · intro net₁ r net₂ hsteady hattempt
    obtain ⟨hnext, hheld⟩ := attempt_steady hattempt
    refine ⟨hsteady.trans hnext, fun hack => ?_⟩
    rw [← hsteady.storer?_eq]
    exact hheld hack
  · intro net₁ r net₂ r' hsteady hkept hattempt hack
    obtain ⟨j, hstorer, hheld⟩ := hkept hack
    exact ⟨j, hstorer, (attempt_steady hattempt).1.holds j hheld⟩

end Network

/-! ## The result -/

/-- **Storing in order.**  Whatever the peers do, and whatever state they share with
the node, it stores a value at several of them by attempts in their order.  An
error that is more than one replica less ends the storing with the last
attempt; otherwise everybody is contacted, and whoever did not acknowledge the
value is reported.  Each request goes out once, and what the node was to keep
itself it keeps, or else that error ends the storing.  In a network, with
whatever faults, a node that has acknowledged the value keeps it, however the
storing ends; a node with its values in memory finds it under its key. -/
theorem Node.replicate_in_order {S : Type} [Storage S] (request : StoreRequest)
    (storers : List Peer) :
    (∀ {P σ : Type} [PeerStore P] (node : Node P S σ) (s : σ), ∃ rs result s',
      node.replicate request storers s = (result, s') ∧
      node.Attempts request s rs s' ∧ Replica.Ended storers rs (result.mapError Error.rpc)) ∧
    (∀ {τ : Type} (config : Config) (address : Address) (world : Transport τ) (s : Setting S τ),
      ∃ rs result s', (among config address world).replicate request storers s = (result, s') ∧
        (among config address world).Attempts request s rs s' ∧
        Replica.Ended storers rs (result.mapError Error.rpc) ∧
        s'.log = s.log ++ (rs.filter (·.peer.id ≠ s.server.id)).map (fun r =>
          .store r.peer.address request r.reply) ∧
        ∀ r ∈ rs, r.peer.id = s.server.id →
          r.acknowledged = true ∧ s'.server.Holds request ∨
            ∃ code, r.fatal? = some (.remote code)) ∧
    (∀ {n : Nat} (net : Network RoutingTable S n) (i : Fin n), ∃ rs result net',
      (net.node i).replicate request storers net = (result, net') ∧
        (net.node i).Attempts request net rs net' ∧
        Replica.Ended storers rs (result.mapError Error.rpc) ∧
        ∀ r ∈ rs, r.acknowledged = true →
          ∃ j, net.storer? i r.peer = some j ∧ (net'.server j).Holds request) ∧
    ∀ srv : Server RoutingTable MemoryStorage, srv.Holds request →
      srv.values.get? request.key.bytes = some request.value := by
  refine ⟨fun node s => node.exists_attempts request storers s, ?_, ?_, fun _ h => h.get?_eq⟩
  · intro τ config address world s
    obtain ⟨rs, result, s', hreplicate, hattempts, hended⟩ :=
      (among config address world).exists_attempts request storers s
    exact ⟨rs, result, s', hreplicate, hattempts, hended, hattempts.log_among, hattempts.own_among⟩
  · intro n net i
    obtain ⟨rs, result, net', hreplicate, hattempts, hended⟩ :=
      (net.node i).exists_attempts request storers net
    exact ⟨rs, result, net', hreplicate, hattempts, hended, Network.attempts_steady hattempts⟩

namespace Network

namespace Small

/-- The chain whose second node is shut down before it can store anything. -/
def halted : Overlay 3 := chain.setFault (address 2) (.all .shutdown)

/-- All of its nodes, in order. -/
def several : List Peer := [halted.peer 0, halted.peer 1, halted.peer 2]

def another : StoreRequest := ⟨id 5, [0xbb]⟩

end Small

/-- The second of three peers ends the storing: the first one, which is the node
itself, keeps the value, and nothing is sent to the third. -/
theorem replicate_in_order_halted : ∃ rs net',
    (Small.halted.node 0).replicate Small.another Small.several Small.halted =
      (.error .shutdown, net') ∧
    (Small.halted.node 0).Attempts Small.another Small.halted rs net' ∧
    Replica.Ended Small.several rs (.error (.rpc .shutdown)) ∧
    net'.value? 0 (Small.id 5) = some [0xbb] ∧ net'.value? 2 (Small.id 5) = none := by
  obtain ⟨rs, result, net', hreplicate, hattempts, hended, _⟩ :=
    (Node.replicate_in_order Small.another Small.several).2.2.1 Small.halted 0
  have hrun : ((Small.halted.node 0).replicate Small.another Small.several Small.halted).1 =
        .error .shutdown ∧
      ((Small.halted.node 0).replicate Small.another Small.several Small.halted).2.value? 0
        (Small.id 5) = some [0xbb] ∧
      ((Small.halted.node 0).replicate Small.another Small.several Small.halted).2.value? 2
        (Small.id 5) = none := by
    decide +kernel
  rw [hreplicate] at hrun
  obtain ⟨rfl, hvalues⟩ := hrun
  exact ⟨rs, net', hreplicate, hattempts, hended, hvalues⟩

end Network
end Kademlia
