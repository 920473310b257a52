import Kademlia.Proofs.Provenance
import Kademlia.Proofs.Run

/-!
# Kademlia.Proofs.Integrity

Where the values in a network come from, whatever goes wrong between its nodes.
A course of a network (`Network.Course`) is any sequence of calls, with faults
that come and go in between; a fault may silence a node, make it fail or let it
answer under another id, but it makes up no value.

An act writes no value but that of its own call (`Act.follows`).  So every value in
the network, and every one that somebody gets, was set for its key
(`values_were_set`).
-/

namespace Kademlia

/-- A fault that makes up no value. -/
def Fault.Faithful (fault : Fault) : Prop := ∀ reply, fault = .reply reply → reply.value = none

namespace Network

variable {P : Type} {n m : Nat} {net net₀ : Network P MemoryStorage n} {i j : Fin n}

/-- The value that a node keeps under a key. -/
def kept? (net : Network P MemoryStorage n) (i : Fin n) (key : Bytes) : Option Bytes :=
  (net.server i).values.get? key

/-- No fault in the network makes up a value. -/
def Faithful (net : Network P MemoryStorage n) : Prop :=
  ∀ entry ∈ net.faults, entry.2.Faithful

/-- The values that nodes keep are those of another network, and so are the faults. -/
structure SameValues (net₀ net : Network P MemoryStorage n) : Prop where
  faults : net.faults = net₀.faults
  values : ∀ j, (net.server j).values = (net₀.server j).values

/-- The values that nodes keep are those of another network, apart from one that was written. -/
structure Wrote (net₀ : Network P MemoryStorage n) (key value : Bytes)
    (net : Network P MemoryStorage n) : Prop where
  faults : net.faults = net₀.faults
  kept : ∀ j other, net.kept? j other = net₀.kept? j other ∨
    other = key ∧ net.kept? j other = some value

theorem SameValues.setServer (h : SameValues net₀ net) {srv : Server P MemoryStorage}
    (hsrv : srv.values = (net.server i).values) : SameValues net₀ (net.setServer i srv) where
  faults := h.faults
  values j := by
    rw [server_setServer]
    grind [SameValues]

theorem Wrote.setServer {key value : Bytes} (h : Wrote net₀ key value net)
    {srv : Server P MemoryStorage} (hsrv : srv.values = (net.server i).values ∨
      srv.values = (net.server i).values.insert key value) :
    Wrote net₀ key value (net.setServer i srv) where
  faults := h.faults
  kept j other := by
    have hold := h.kept j other
    rw [kept?, server_setServer]
    split
    · next heq =>
      subst heq
      rcases hsrv with hsrv | hsrv
      · rwa [hsrv]
      · rw [hsrv, MemoryStorage.get?_insert]
        split
        · next heq => exact .inr ⟨heq, rfl⟩
        · exact hold
    · exact hold

theorem SameValues.listen (h : SameValues net₀ net) :
    SameValues net₀ (net.setSeat i { net.seat i with listening := true }) where
  faults := h.faults
  values j := by
    rw [server, seat_setSeat, ← h.values]
    split
    · next heq => rw [← heq]; rfl
    · rfl

/-- The network with one node more. -/
def withSeat (net : Network P MemoryStorage n) (seat : Seat P MemoryStorage) :
    Network P MemoryStorage (n + 1) :=
  { net with seats := net.seats.push seat }

@[simp] theorem server_withSeat_castSucc (net : Network P MemoryStorage n)
    (seat : Seat P MemoryStorage) (i : Fin n) :
    (net.withSeat seat).server i.castSucc = net.server i :=
  congrArg Seat.server (Vector.getElem_push_lt i.isLt)

@[simp] theorem server_withSeat_last (net : Network P MemoryStorage n)
    (seat : Seat P MemoryStorage) : (net.withSeat seat).server (Fin.last n) = seat.server :=
  congrArg Seat.server Vector.getElem_push_eq

/-! ## Requests -/

variable [PeerStore P]

/-- A request changes one server at most, as that one handles it. -/
theorem deliver_snd {α : Type} (net : Network P MemoryStorage n) (sender : Fin n) (target : Address)
    (handle : Option Peer → Server P MemoryStorage → Except ErrorCode α × Server P MemoryStorage) :
    (net.deliver sender target handle).2 = net ∨ ∃ j, (net.deliver sender target handle).2 =
      net.setServer j (handle (some (net.peer sender)) (net.server j)).2 := by
  unfold deliver
  split
  · exact .inl rfl
  · exact .inr ⟨_, rfl⟩

theorem askAt_snd (sender : Fin n) (target : Address) (request : GetRequest)
    (net : Network P MemoryStorage n) :
    (net.askAt sender target request).2 = net ∨ ∃ j, (net.askAt sender target request).2 =
      net.setServer j (Server.handleGet (some (net.peer sender)) request (net.server j)).2 := by
  have hdeliver := net.deliver_snd sender target (Server.handleGet · request)
  unfold askAt
  grind

/-- What holds whatever a server does without changing its values, holds after a question. -/
theorem askAt_rule {I : Network P MemoryStorage n → Prop} (h : I net)
    (hset : ∀ j srv, srv.values = (net.server j).values → I (net.setServer j srv))
    (sender : Fin n) (target : Address) (request : GetRequest) :
    I (net.askAt sender target request).2 := by
  cases askAt_snd sender target request net with
  | inl hsame => rwa [hsame]
  | inr hhandled =>
    obtain ⟨j, hj⟩ := hhandled
    rw [hj]
    exact hset j _ (Server.values_handleGet _ _ _)

theorem storeAt_snd (sender : Fin n) (target : Address) (request : StoreRequest)
    (net : Network P MemoryStorage n) :
    (net.storeAt sender target request).2 = net ∨ ∃ j, (net.storeAt sender target request).2 =
      net.setServer j (Server.handleStore (some (net.peer sender)) request (net.server j)).2 := by
  have hdeliver := net.deliver_snd sender target (Server.handleStore · request)
  unfold storeAt
  grind

theorem kept?_of_handleGet {requester : Option Peer} {request : GetRequest} {reply : GetReply}
    {value : Bytes} (h : (Server.handleGet requester request (net.server i)).1 = .ok reply)
    (hv : reply.value = some value) : net.kept? i request.key.bytes = some value :=
  Except.ok.inj (Server.get_of_handleGet h hv)

theorem of_deliver {sender : Fin n} {target : Address} {request : GetRequest} {reply : GetReply}
    {value : Bytes} (h : (net.deliver sender target (Server.handleGet · request)).1 = .ok reply)
    (hv : reply.value = some value) : ∃ j, net.kept? j request.key.bytes = some value := by
  unfold deliver at h
  split at h
  · cases h
  · next j _ =>
    refine ⟨j, ?_⟩
    cases hgiven : (Server.handleGet (some (net.peer sender)) request (net.server j)).1 with
    | error e => simp [hgiven, Except.mapError] at h
    | ok given =>
      simp only [hgiven, Except.mapError, Except.ok.injEq] at h
      exact kept?_of_handleGet hgiven (h ▸ hv)

/-- A value that comes back is kept by some node. -/
theorem of_askAt {sender : Fin n} {target : Address} {request : GetRequest} {reply : GetReply}
    {value : Bytes} (hf : net.Faithful) (h : (net.askAt sender target request).1 = .ok reply)
    (hv : reply.value = some value) : ∃ j, net.kept? j request.key.bytes = some value := by
  unfold askAt at h
  split at h
  · cases h
  · cases h
  · next made hfault =>
    obtain rfl : made = reply := Except.ok.inj h
    obtain ⟨before, after, heq, -⟩ := List.lookup_eq_some_iff.mp hfault
    have hnone := hf (target, .reply made) (by simp [heq]) made rfl
    simp [hv] at hnone
  · cases hgiven : (net.deliver sender target (Server.handleGet · request)).1 with
    | error e => simp [hgiven, Except.map] at h
    | ok given =>
      simp only [hgiven, Except.map, Except.ok.injEq] at h
      exact of_deliver hgiven (by rw [← hv, ← h])

/-! ## Nodes -/

theorem values_of_prepare {config config' : Config} {custom : CustomStores P MemoryStorage}
    {fresh : Id} {server : Server P MemoryStorage}
    (hvalues : ∀ values, custom.values = some values → values = {})
    (h : config.prepare custom fresh = .ok (config', server)) : server.values = {} := by
  unfold Config.prepare at h
  split at h
  · cases h
  · obtain ⟨peers, -, hserver⟩ := Except.exists_of_bind_eq_ok h
    cases hserver
    cases hcustom : custom.values with
    | none => rfl
    | some values => exact hvalues values hcustom

omit [PeerStore P] in
theorem SameValues.refl (net : Network P MemoryStorage n) : SameValues net net :=
  ⟨rfl, fun _ => rfl⟩

omit [PeerStore P] in
theorem Wrote.refl (net : Network P MemoryStorage n) (key value : Bytes) :
    Wrote net key value net :=
  ⟨rfl, fun _ _ => .inl rfl⟩

/-- Whatever a node asks, no values change. -/
theorem upholds (net net₀ : Network P MemoryStorage n) (i : Fin n) :
    (net.node i).Upholds (SameValues net₀) where
  setServer s srv hs hsrv := hs.setServer hsrv
  getValue s target request hs := by
    have hasked := askAt_rule hs (fun _ _ => hs.setServer) i target request
    exact ⟨hasked.faults, hasked.values⟩

/-- Whatever comes back was kept before. -/
theorem vouches (hf : net₀.Faithful) (net : Network P MemoryStorage n) (i : Fin n) (key : Id) :
    (net.node i).Vouches (SameValues net₀) key fun value =>
      ∃ j, net₀.kept? j key.bytes = some value where
  toUpholds := net.upholds net₀ i
  own s value hs hget := ⟨i, by
    rw [kept?, ← hs.values]
    exact Except.ok.inj hget⟩
  others s target k reply value hs hreply hv := by
    have hfs : s.Faithful := fun entry hentry => hf entry (hs.faults ▸ hentry)
    obtain ⟨j, hj⟩ := of_askAt hfs hreply hv
    exact ⟨j, by rwa [kept?, ← hs.values]⟩

/-- Whatever a node stores, it writes nothing else. -/
theorem writes (net net₀ : Network P MemoryStorage n) (i : Fin n) (key : Id) (value : Bytes) :
    (net.node i).Writes (Wrote net₀ key.bytes value) ⟨key, value⟩ where
  setServer s srv hs hsrv := hs.setServer (.inl hsrv)
  getValue s target request hs := by
    have hasked := askAt_rule hs (fun _ _ hsrv => hs.setServer (.inl hsrv)) i target request
    exact ⟨hasked.faults, hasked.kept⟩
  own s srv hs hset := hs.setServer (.inr (Except.ok.inj hset).symm)
  others s target hs := by
    have hstored : Wrote net₀ key.bytes value (s.storeAt i target ⟨key, value⟩).2 := by
      rcases storeAt_snd i target ⟨key, value⟩ s with heq | ⟨j, heq⟩
      · rwa [heq]
      · rw [heq]
        refine hs.setServer ((Server.values_handleStore _ _ _).imp_right fun hset => ?_)
        exact (Except.ok.inj hset).symm
    exact ⟨hstored.faults, hstored.kept⟩

/-! ## Courses -/

/-- Something that happens to a network, with the call that it is, if it is one. -/
inductive Act (net : Network P MemoryStorage n) :
    {m : Nat} → List Call → Network P MemoryStorage m → Prop where
  /-- A node starts without values. -/
  | join (address : Address) (config : Config) (custom : CustomStores P MemoryStorage) (fresh : Id)
    (hvalues : ∀ values, custom.values = some values → values = {})
    {net' : Network P MemoryStorage (n + 1)}
    (hjoin : net.joinAt address config custom fresh = .ok net') :
    Act net [.join address config fresh] net'
  | bootstrap (i : Fin n) (target : Address) :
    Act net [.bootstrap i target] ((net.node i).bootstrap target net).2
  | get (i : Fin n) (key : Id) : Act net [.get i key] ((net.node i).getValue key net).2
  | set (i : Fin n) (key : Id) (value : Bytes) :
    Act net [.set i key value ((net.node i).setValue key value net).1]
      ((net.node i).setValue key value net).2
  /-- A node gets to know a peer. -/
  | introduce (i : Fin n) (peer : Peer) : Act net [] (net.introduce i peer)
  | fail (target : Address) (fault : Fault) (hfault : fault.Faithful) :
    Act net [] (net.setFault target fault)
  | recover (target : Address) : Act net [] (net.clearFault target)

/-- What may happen to a network from a point on, with the calls that are made. -/
inductive Course (first : Network P MemoryStorage n) :
    {m : Nat} → List Call → Network P MemoryStorage m → Prop where
  | start : Course first [] first
  | act {m k : Nat} {calls more : List Call} {net : Network P MemoryStorage m}
    {net' : Network P MemoryStorage k} (h : Course first calls net) (hact : Act net more net') :
    Course first (calls ++ more) net'

/-- Values stay, and new ones are those that were set. -/
structure Follows (net : Network P MemoryStorage n) (calls : List Call)
    (net' : Network P MemoryStorage m) : Prop where
  le : n ≤ m
  faithful : net.Faithful → net'.Faithful
  origin : ∀ i key value, net'.kept? i key = some value →
    (∃ j, net.kept? j key = some value) ∨
      ∃ j id result, .set j id value result ∈ calls ∧ id.bytes = key
  stays : ∀ i key, (net.kept? i key).isSome → (net'.kept? (i.castLE le) key).isSome

namespace Follows

variable {calls more : List Call} {net' : Network P MemoryStorage m}

omit [PeerStore P] in
theorem trans {k : Nat} {net'' : Network P MemoryStorage k} (h : Follows net calls net')
    (h' : Follows net' more net'') : Follows net (calls ++ more) net'' where
  le := h.le.trans h'.le
  faithful := h'.faithful ∘ h.faithful
  origin i key value hkept := by
    rcases h'.origin i key value hkept with ⟨j, hj⟩ | ⟨j, id, result, hset, hid⟩
    · rcases h.origin j key value hj with hold | ⟨j, id, result, hset, hid⟩
      · exact .inl hold
      · exact .inr ⟨j, id, result, List.mem_append_left _ hset, hid⟩
    · exact .inr ⟨j, id, result, List.mem_append_right _ hset, hid⟩
  stays i key hkept := h'.stays _ key (h.stays i key hkept)

omit [PeerStore P] in
theorem of_sameValues {net' : Network P MemoryStorage n} (h : SameValues net net')
    (calls : List Call) : Follows net calls net' where
  le := le_rfl
  faithful hf entry hentry := hf entry (h.faults ▸ hentry)
  origin i key value hkept := .inl ⟨i, by rwa [kept?, ← h.values]⟩
  stays i key hkept := by
    rw [kept?, h.values]
    exact hkept

omit [PeerStore P] in
theorem of_wrote {net' : Network P MemoryStorage n} {key : Id} {value : Bytes} (i : Fin n)
    (result : Except Error Unit) (h : Wrote net key.bytes value net') :
    Follows net [.set i key value result] net' where
  le := le_rfl
  faithful hf entry hentry := hf entry (h.faults ▸ hentry)
  origin j other v hkept := by
    rcases h.kept j other with heq | ⟨rfl, heq⟩
    · exact .inl ⟨j, heq ▸ hkept⟩
    · obtain rfl : v = value := Option.some.inj (hkept.symm.trans heq)
      exact .inr ⟨i, key, result, List.mem_singleton_self _, rfl⟩
  stays j other hkept := by
    rcases h.kept j other with heq | ⟨-, heq⟩
    · exact (congrArg Option.isSome heq).trans hkept
    · exact congrArg Option.isSome heq

omit [PeerStore P] in
/-- A node without values brings none. -/
theorem of_withSeat {seat : Seat P MemoryStorage} {net' : Network P MemoryStorage (n + 1)}
    (hseat : seat.server.values = {}) (h : SameValues (net.withSeat seat) net')
    (calls : List Call) : Follows net calls net' where
  le := Nat.le_succ n
  faithful hf entry hentry := hf entry (h.faults ▸ hentry)
  origin i key value hkept := by
    rw [kept?, h.values] at hkept
    induction i using Fin.lastCases with
    | last => simp [hseat, MemoryStorage.get?] at hkept
    | cast i => exact .inl ⟨i, by rwa [server_withSeat_castSucc] at hkept⟩
  stays i key hkept := by
    have hvalues := (h.values i.castSucc).trans (congrArg _ (net.server_withSeat_castSucc seat i))
    exact (congrArg (fun values => (MemoryStorage.get? values key).isSome) hvalues).trans hkept

theorem of_joinAt {net' : Network P MemoryStorage (n + 1)} {address : Address} {config : Config}
    {custom : CustomStores P MemoryStorage} {fresh : Id}
    (hvalues : ∀ values, custom.values = some values → values = {})
    (hjoin : net.joinAt address config custom fresh = .ok net') (calls : List Call) :
    Follows net calls net' := by
  obtain ⟨⟨config, server⟩, hprepare, hjoined⟩ := Except.exists_of_bind_eq_ok hjoin
  obtain rfl := Except.ok.inj hjoined
  let starting := net.withSeat ⟨config, address, server, false⟩
  have hjoined : SameValues starting ((starting.node (Fin.last n)).bootstrapAll starting) :=
    (starting.upholds starting (Fin.last n)).bootstrapAll (.refl starting)
  exact of_withSeat (values_of_prepare hvalues hprepare) hjoined.listen calls

end Follows

theorem SameValues.introduce (net : Network P MemoryStorage n) (i : Fin n) (peer : Peer) :
    SameValues net (net.introduce i peer) := by
  unfold Network.introduce
  dsimp only
  split
  · exact (SameValues.refl net).setServer rfl
  · exact .refl net

omit [PeerStore P] in
/-- A fault changes no values. -/
theorem Follows.of_faults {faults : List (Address × Fault)}
    (h : ∀ entry ∈ faults, entry ∈ net.faults ∨ entry.2.Faithful) :
    Follows net [] { net with faults } where
  le := le_rfl
  faithful hf entry hentry := (h entry hentry).elim (hf entry) fun hfault => hfault
  origin i _ _ hkept := .inl ⟨i, hkept⟩
  stays _ _ hkept := hkept

variable {calls more : List Call} {net' : Network P MemoryStorage m}

/-- **What one act does to the values.** -/
theorem Act.follows (h : Act net calls net') : Follows net calls net' := by
  cases h with
  | join address config custom fresh hvalues hjoin => exact .of_joinAt hvalues hjoin _
  | bootstrap i target =>
    exact .of_sameValues ((net.upholds net i).bootstrap (.refl net) target) _
  | get i key => exact .of_sameValues ((net.upholds net i).getValue_snd (.refl net) key) _
  | set i key value =>
      exact .of_wrote i _ ((net.writes net i key value).setValue_snd (.refl net _ _))
  | introduce i peer => exact .of_sameValues (.introduce net i peer) _
  | fail target fault hfault => exact .of_faults (by grind)
  | recover target => exact .of_faults (by grind)

theorem Course.follows {first : Network P MemoryStorage n} (h : Course first calls net') :
    Follows first calls net' := by
  induction h with
  | start => exact .of_sameValues (.refl first) []
  | act _ hact ih => exact ih.trans hact.follows

/-- **Values are those that were set.**  However a network comes about, and
whatever goes wrong in it: a value that a node keeps was set for its key, and a
node that keeps one for a key keeps one ever after.  To get a value or to join
changes no values, and a value that somebody gets was set for its key before. -/
theorem values_were_set (h : Course Network.empty calls net) :
    (∀ i key value, net.kept? i key = some value →
      ∃ j id result, .set j id value result ∈ calls ∧ id.bytes = key) ∧
    (∀ m later (net' : Network P MemoryStorage m), Course net later net' →
      ∃ hle : n ≤ m, ∀ i key, (net.kept? i key).isSome → (net'.kept? (i.castLE hle) key).isSome) ∧
    (∀ i key j, (((net.node i).getValue key net).2.server j).values = (net.server j).values) ∧
    (∀ i target j,
      (((net.node i).bootstrap target net).2.server j).values = (net.server j).values) ∧
    ∀ i key value, ((net.node i).getValue key net).1 = .ok value →
      ∃ j result, .set j key value result ∈ calls := by
  have hfollows := h.follows
  have horigin {i : Fin n} {key value : Bytes} (hkept : net.kept? i key = some value) :
      ∃ j id result, .set j id value result ∈ calls ∧ id.bytes = key :=
    (hfollows.origin i key value hkept).resolve_left fun ⟨j, _⟩ => j.elim0
  refine ⟨fun i key value => horigin, fun m later net' hlater => ?_, fun i key j => ?_,
    fun i target j => ?_, fun i key value hget => ?_⟩
  · exact ⟨hlater.follows.le, hlater.follows.stays⟩
  · exact ((net.upholds net i).getValue_snd (.refl net) key).values j
  · exact ((net.upholds net i).bootstrap (.refl net) target).values j
  · have hfaithful : net.Faithful := hfollows.faithful (by simp [Faithful, Network.empty])
    obtain ⟨j, hkept⟩ := (vouches hfaithful net i key).of_getValue (.refl net) hget
    obtain ⟨j, id, result, hset, hid⟩ := horigin hkept
    obtain rfl := Id.ext hid
    exact ⟨j, result, hset⟩

/-- A run without faults is a course. -/
theorem Run.course {net : Overlay n} (h : Run calls net) : Course Network.empty calls net := by
  induction h with
  | start => exact .start
  | join _ address config fresh _ hjoin ih =>
    exact ih.act (.join address config {} fresh (by simp) hjoin)
  | bootstrap _ i target ih => exact ih.act (.bootstrap i target)
  | get _ i key ih => exact ih.act (.get i key)
  | set _ i key value ih => exact ih.act (.set i key value)

namespace Small

/-- The calls that the chain comes about by. -/
def chainCalls : List Call := [.join (address 1) (config 2 []) (id 2),
  .set 0 (id 0) [0xaa] (.ok ()),
  .join (address 2) (config 4 ["10.0.0.1:1"]) (id 4),
  .join (address 3) (config 1 ["10.0.0.1:2"]) (id 1)]

/-- The chain in which the node closest to the key cannot be reached. -/
def broken : Overlay 3 := chain.setFault (address 3) (.all .unreachable)

theorem course_broken : Course Network.empty chainCalls broken :=
  run_chain.course.act (.fail (address 3) (.all .unreachable) (by simp [Fault.Faithful]))

end Small

theorem values_were_set_small :
    Course Network.empty Small.chainCalls Small.broken ∧
      ((Small.broken.node 1).getValue (Small.id 0) Small.broken).1 = .ok [0xaa] ∧
      ∃ j result, .set j (Small.id 0) [0xaa] result ∈ Small.chainCalls := by
  have hget : ((Small.broken.node 1).getValue (Small.id 0) Small.broken).1 = .ok [0xaa] := by
    decide +kernel
  exact ⟨Small.course_broken, hget,
    (values_were_set Small.course_broken).2.2.2.2 1 (Small.id 0) [0xaa] hget⟩

end Network
end Kademlia
