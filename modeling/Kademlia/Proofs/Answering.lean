import Kademlia.Proofs.Ranking
import Kademlia.Proofs.Serving

/-!
# Kademlia.Proofs.Answering

What a server answers, whatever it was asked before.  A request of the overlay
of the node (`Request.Fits`) makes its sender known if there is a place for it
(`RoutingTable.HasPlace`), and is then answered from what the node keeps; any
other one leaves no trace.

* One request: `handle_of_not_fits`, `handle_getValue` and `handle_storeValue`.
* Any requests: the server keeps, for every key, the value of the latest
  request that stored one (`values_afterAll`), and is in order
  (`wellFormed_afterAll`).

Together they say what becomes of a request after any others
(`Server.answers_after`).
-/

namespace Kademlia

/-! ## A place for a peer -/

namespace RoutingTable

variable {t : RoutingTable} {peer p : Peer} {id : Id}

/-- The id is not known, and its bucket is not full.  The local id has no bucket. -/
def HasPlace (t : RoutingTable) (id : Id) : Prop :=
  t.New id ∧ ∃ i, t.Belongs i id ∧ (t.bucket i).length < t.bucketSize

/-- **What meeting a peer does to a table**: it is known afterwards if there was
a place for it, and nothing else changes. -/
theorem WellFormed.mem_meet_iff (h : t.WellFormed) :
    p ∈ (t.meet peer).peers ↔ p ∈ t.peers ∨ p = peer ∧ t.HasPlace peer.id := by
  have hadd := addition t peer
  rw [RoutingTable.meet]
  generalize t.add peer = result at hadd ⊢
  cases hadd with
  | foreign hl =>
    have hplace : ¬ t.HasPlace peer.id := by
      rintro ⟨-, i, hi, -⟩
      exact hl hi.length_eq
    simp [hplace]
  | self hid =>
    have hplace : ¬ t.HasPlace peer.id := by
      rintro ⟨-, i, hi, -⟩
      exact hi.ne hid
    simp [hplace]
  | known j hj hc =>
    obtain ⟨q, hq, hid⟩ := hc
    have hplace : ¬ t.HasPlace peer.id := fun h => h.1 q (mem_peers.mpr ⟨j, hq⟩) hid
    simp [hplace]
  | full j hj hc hfull =>
    have hplace : ¬ t.HasPlace peer.id := by
      rintro ⟨-, i, hi, hroom⟩
      rw [hi.unique (belongs_of_bucketIndex? hj), bucket_eq] at hroom
      omega
    simp [hplace]
  | new j hj hc hroom =>
    have hplace : t.HasPlace peer.id :=
      ⟨h.new_of_bucket hj hc, j, belongs_of_bucketIndex? hj, by rwa [bucket_eq]⟩
    simp [mem_peers_append, hplace]

/-- A peer of the overlay is known afterwards unless it is the local node or
its bucket was full. -/
theorem WellFormed.exists_mem_meet (h : t.WellFormed) (hl : peer.id.length = t.localId.length)
    (hne : peer.id ≠ t.localId)
    (hroom : ∀ i, t.Belongs i peer.id → (t.bucket i).length < t.bucketSize) :
    ∃ q ∈ (t.meet peer).peers, q.id = peer.id := by
  by_cases hnew : t.New peer.id
  · obtain ⟨j, hj⟩ := exists_bucketIndex? hl hne
    have hbelongs := belongs_of_bucketIndex? hj
    have hplace : t.HasPlace peer.id := ⟨hnew, j, hbelongs, hroom j hbelongs⟩
    exact ⟨peer, h.mem_meet_iff.mpr (.inr ⟨rfl, hplace⟩), rfl⟩
  · obtain ⟨q, hq, hid⟩ : ∃ q ∈ t.peers, q.id = peer.id := by simpa [New] using hnew
    exact ⟨q, h.mem_meet_iff.mpr (.inl hq), hid⟩

end RoutingTable

/-! ## Requests -/

/-- The key that a query is about. -/
def Query.key : Query → Id
  | .getValue q => q.key
  | .storeValue q => q.key

namespace Request

/-- The request is of the overlay of this node: its key and its sender have ids
of the right length. -/
def Fits (request : Request) (localId : Id) : Prop :=
  request.query.key.length = localId.length ∧ request.requester.length = localId.length

instance (request : Request) (localId : Id) : Decidable (request.Fits localId) :=
  inferInstanceAs (Decidable (_ ∧ _))

/-- The value that the request, if it fits the node, stores under a key. -/
def stores? (localId key : Id) (request : Request) : Option Bytes :=
  match request.query with
  | .getValue _ => none
  | .storeValue q => if q.key = key ∧ request.Fits localId then some q.value else none

/-- The value of the latest of these requests that stores one under a key. -/
def latest? (localId key : Id) (requests : List (Address × Request)) : Option Bytes :=
  (requests.filterMap fun r => r.2.stores? localId key).getLast?

end Request

namespace Server

open Request

variable {srv : Server RoutingTable MemoryStorage} {source : Address} {request : Request}
  {requester key : Id} {k : UInt64} {value : Bytes}

/-! ## One request -/

theorem matches_iff : srv.Matches (some ⟨requester, source⟩) key ↔
    key.length = srv.id.length ∧ requester.length = srv.id.length := by
  simp [Matches]

theorem handle_of_not_fits (h : ¬ request.Fits srv.id) :
    srv.handle source request = (.failure (.ofCode .invalidRequest), srv) := by
  obtain ⟨requester, query⟩ := request
  have hnot : ¬ srv.Matches (some ⟨requester, source⟩) query.key := fun hm =>
    h (matches_iff.mp hm)
  cases query with
  | getValue q =>
    have hget : srv.handleGet (some ⟨requester, source⟩) q = _ := handleGet_of_not_matches hnot
    simp only [handle]
    rw [hget]
    rfl
  | storeValue q =>
    have haccept : srv.accept (some ⟨requester, source⟩) q.key = _ := accept_of_not_matches hnot
    simp only [handle]
    rw [handleStore, haccept]
    rfl

/-- A question is answered from what is kept and known once its sender was met. -/
theorem handle_getValue (h : Fits ⟨requester, .getValue ⟨key, k⟩⟩ srv.id) :
    srv.handle source ⟨requester, .getValue ⟨key, k⟩⟩ =
      (.ofResult (((srv.meet ⟨requester, source⟩).lookUp ⟨key, k⟩).map .getValue),
        srv.meet ⟨requester, source⟩) := by
  have hmatches : srv.Matches (some ⟨requester, source⟩) key := matches_iff.mpr h
  simp only [handle]
  rw [handleGet_eq hmatches]
  rfl

theorem handle_of_value (h : Fits ⟨requester, .getValue ⟨key, k⟩⟩ srv.id)
    (hvalue : srv.values.get? key.bytes = some value) :
    (srv.handle source ⟨requester, .getValue ⟨key, k⟩⟩).1 =
      .response (.getValue ⟨srv.id, some value, []⟩) := by
  have hlook : (srv.meet ⟨requester, source⟩).lookUp ⟨key, k⟩ = _ := lookUp_of_value hvalue
  rw [handle_getValue h, hlook, id_meet]
  rfl

theorem handle_of_no_value (hwf : srv.peers.WellFormed)
    (h : Fits ⟨requester, .getValue ⟨key, k⟩⟩ srv.id)
    (hvalue : srv.values.get? key.bytes = none) :
    (srv.handle source ⟨requester, .getValue ⟨key, k⟩⟩).1 = .response (.getValue ⟨srv.id, none,
      ((ranking key (srv.peers.meet ⟨requester, source⟩).peers).take k.toNat).map (·.1)⟩) := by
  have hl : key.length = (srv.peers.meet ⟨requester, source⟩).localId.length := by
    rw [RoutingTable.localId_meet]
    exact h.1
  have hclosest := (hwf.meet ⟨requester, source⟩).closest_eq hl k.toNat
  have hlook : (srv.meet ⟨requester, source⟩).lookUp ⟨key, k⟩ = _ :=
    lookUp_of_closest hclosest hvalue
  rw [handle_getValue h, hlook, id_meet]
  rfl

theorem handle_storeValue (h : Fits ⟨requester, .storeValue ⟨key, value⟩⟩ srv.id) :
    srv.handle source ⟨requester, .storeValue ⟨key, value⟩⟩ =
      (.response (.storeValue ⟨srv.id⟩),
        { srv.meet ⟨requester, source⟩ with values := srv.values.insert key.bytes value }) := by
  have hmatches : srv.Matches (some ⟨requester, source⟩) key := matches_iff.mpr h
  have hset : Storage.set (srv.greet (some ⟨requester, source⟩)).values key.bytes value =
      .ok (srv.values.insert key.bytes value) := rfl
  simp only [handle]
  rw [handleStore_of_ok hmatches hset]
  simp [greet, Answer.ofResult, Except.map]

/-- The peers that are known after a request. -/
theorem peers_handle (srv : Server RoutingTable MemoryStorage) (source : Address)
    (request : Request) : (srv.handle source request).2.peers =
      if request.Fits srv.id then srv.peers.meet ⟨request.requester, source⟩ else srv.peers := by
  by_cases h : request.Fits srv.id
  · rw [if_pos h]
    obtain ⟨requester, q | q⟩ := request
    · rw [handle_getValue h, meet]
    · rw [handle_storeValue h, meet]
  · rw [if_neg h, handle_of_not_fits h]

@[simp] theorem id_handle (srv : Server RoutingTable MemoryStorage) (source : Address)
    (request : Request) : (srv.handle source request).2.id = srv.id := by
  show (srv.handle source request).2.peers.localId = srv.peers.localId
  rw [peers_handle]
  split
  · rw [RoutingTable.localId_meet]
  · rfl

theorem bucketSize_handle (srv : Server RoutingTable MemoryStorage) (source : Address)
    (request : Request) :
    (srv.handle source request).2.peers.bucketSize = srv.peers.bucketSize := by
  rw [peers_handle]
  split
  · rw [RoutingTable.bucketSize_meet]
  · rfl

theorem wellFormed_handle (h : srv.peers.WellFormed) :
    (srv.handle source request).2.peers.WellFormed := by
  rw [peers_handle]
  split
  · exact h.meet _
  · exact h

/-- Nobody is forgotten. -/
theorem mem_handle {p : Peer} (hp : p ∈ srv.peers.peers) :
    p ∈ (srv.handle source request).2.peers.peers := by
  rw [peers_handle]
  split
  · exact RoutingTable.mem_meet_of_mem hp
  · exact hp

/-- A response carries the own id, and names known peers only. -/
theorem of_handle_response {response : Response} (hwf : srv.peers.WellFormed)
    (h : (srv.handle source request).1 = .response response) :
    response = .storeValue ⟨srv.id⟩ ∨ ∃ value nodes, response = .getValue ⟨srv.id, value, nodes⟩ ∧
      ∀ p ∈ nodes, p ∈ (srv.handle source request).2.peers.peers := by
  by_cases hfits : request.Fits srv.id
  · obtain ⟨requester, ⟨key, k⟩ | ⟨key, value⟩⟩ := request
    · cases hvalue : srv.values.get? key.bytes with
      | some value =>
        rw [handle_of_value hfits hvalue] at h
        obtain rfl := Answer.response.inj h
        exact .inr ⟨_, _, rfl, by simp⟩
      | none =>
        rw [handle_of_no_value hwf hfits hvalue] at h
        obtain rfl := Answer.response.inj h
        refine .inr ⟨_, _, rfl, fun p hp => ?_⟩
        obtain ⟨e, he, rfl⟩ := List.mem_map.mp hp
        rw [peers_handle, if_pos hfits]
        exact (mem_ranking.mp (List.mem_of_mem_take he)).1
    · rw [handle_storeValue hfits] at h
      exact .inl (Answer.response.inj h).symm
  · rw [handle_of_not_fits hfits] at h
    contradiction

/-- The value that is kept under a key after a request. -/
theorem values_handle (srv : Server RoutingTable MemoryStorage) (source : Address)
    (request : Request) (key : Id) : (srv.handle source request).2.values.get? key.bytes =
      (request.stores? srv.id key).or (srv.values.get? key.bytes) := by
  by_cases h : request.Fits srv.id
  · obtain ⟨requester, q | q⟩ := request
    · rw [handle_getValue h]
      rfl
    · rw [handle_storeValue h, MemoryStorage.get?_insert, stores?]
      have hkey : key.bytes = q.key.bytes ↔ q.key = key :=
        ⟨fun heq => Id.ext heq.symm, fun heq => by rw [heq]⟩
      by_cases heq : q.key = key
      · simp [heq, h]
      · simp [hkey, heq]
  · have hstores : request.stores? srv.id key = none := by
      obtain ⟨requester, q | q⟩ := request
      · rfl
      · simp [stores?, h]
    rw [handle_of_not_fits h, hstores]
    rfl

/-! ## Any requests -/

/-- The server after it was sent requests from some addresses. -/
def afterAll (srv : Server RoutingTable MemoryStorage) (requests : List (Address × Request)) :
    Server RoutingTable MemoryStorage :=
  requests.foldl (fun srv r => (srv.handle r.1 r.2).2) srv

theorem afterAll_append (srv : Server RoutingTable MemoryStorage)
    (requests : List (Address × Request)) (r : Address × Request) :
    srv.afterAll (requests ++ [r]) = ((srv.afterAll requests).handle r.1 r.2).2 := by
  simp [afterAll]

/-- What every request keeps up, any requests do. -/
theorem afterAll_induction {motive : Server RoutingTable MemoryStorage → Prop} (h : motive srv)
    (hstep : ∀ srv source request, motive srv → motive (srv.handle source request).2)
    (requests : List (Address × Request)) : motive (srv.afterAll requests) := by
  induction requests using List.reverseRecOn with
  | nil => exact h
  | append_singleton requests r ih =>
    rw [afterAll_append]
    exact hstep _ _ _ ih

@[simp] theorem id_afterAll (srv : Server RoutingTable MemoryStorage)
    (requests : List (Address × Request)) : (srv.afterAll requests).id = srv.id :=
  afterAll_induction (motive := fun srv' => srv'.id = srv.id) rfl
    (fun srv' _ _ h => (id_handle srv' _ _).trans h) requests

theorem bucketSize_afterAll (srv : Server RoutingTable MemoryStorage)
    (requests : List (Address × Request)) :
    (srv.afterAll requests).peers.bucketSize = srv.peers.bucketSize :=
  afterAll_induction (motive := fun srv' => srv'.peers.bucketSize = srv.peers.bucketSize) rfl
    (fun srv' _ _ h => (bucketSize_handle srv' _ _).trans h) requests

theorem wellFormed_afterAll (h : srv.peers.WellFormed) (requests : List (Address × Request)) :
    (srv.afterAll requests).peers.WellFormed :=
  afterAll_induction (motive := fun srv' => srv'.peers.WellFormed) h
    (fun _ _ _ h => wellFormed_handle h) requests

theorem mem_afterAll {p : Peer} (hp : p ∈ srv.peers.peers)
    (requests : List (Address × Request)) : p ∈ (srv.afterAll requests).peers.peers :=
  afterAll_induction (motive := fun srv' => p ∈ srv'.peers.peers) hp
    (fun _ _ _ h => mem_handle h) requests

/-- **The value under a key is the latest that was stored there.** -/
theorem values_afterAll (srv : Server RoutingTable MemoryStorage)
    (requests : List (Address × Request)) (key : Id) :
    (srv.afterAll requests).values.get? key.bytes =
      (latest? srv.id key requests).or (srv.values.get? key.bytes) := by
  induction requests using List.reverseRecOn with
  | nil => rfl
  | append_singleton requests r ih =>
    rw [afterAll_append, values_handle, id_afterAll, ih, latest?, latest?, List.filterMap_append]
    cases hr : r.2.stores? srv.id key <;> simp [hr]

/-! ## What becomes of a request -/

/-- A server without peers and values. -/
def fresh (localId : Id) (bucketSize : Nat) : Server RoutingTable MemoryStorage :=
  ⟨.empty localId bucketSize, {}⟩

/-- What becomes of a request that reaches a server after `earlier` ones: `srv`
is the server before it, `srv'` the one after it. -/
structure Answers (localId : Id) (earlier : List (Address × Request))
    (srv : Server RoutingTable MemoryStorage) (source : Address) (request : Request)
    (answer : Answer) (srv' : Server RoutingTable MemoryStorage) : Prop where
  /-- One that does not fit is refused and changes nothing. -/
  of_not_fits : ¬ request.Fits localId →
    answer = .failure (.ofCode .invalidRequest) ∧ srv' = srv
  /-- A value that was stored is given out, and it is the latest one. -/
  of_latest : request.Fits localId → ∀ key k value, request.query = .getValue ⟨key, k⟩ →
    latest? localId key earlier = some value →
    answer = .response (.getValue ⟨localId, some value, []⟩)
  /-- Without one, the known peers closest to the key are named, the closest
  first: `k` of them, or all. -/
  of_no_value : request.Fits localId → ∀ key k, request.query = .getValue ⟨key, k⟩ →
    latest? localId key earlier = none →
    answer = .response (.getValue
      ⟨localId, none, ((ranking key srv'.peers.peers).take k.toNat).map (·.1)⟩)
  /-- A value to store is kept. -/
  of_store : request.Fits localId → ∀ key value, request.query = .storeValue ⟨key, value⟩ →
    answer = .response (.storeValue ⟨localId⟩) ∧
      srv'.values = srv.values.insert key.bytes value
  /-- The sender becomes known if there is a place for it; everybody else is
  known after the request who was known before, at the same address. -/
  mem_iff : request.Fits localId → ∀ p, p ∈ srv'.peers.peers ↔ p ∈ srv.peers.peers ∨
    p = ⟨request.requester, source⟩ ∧ srv.peers.HasPlace request.requester
  /-- So it is known unless it is the local node or its bucket is full. -/
  sender_known : request.Fits localId → request.requester ≠ localId →
    (∀ i, srv.peers.Belongs i request.requester →
      (srv.peers.bucket i).length < srv.peers.bucketSize) →
    ∃ p ∈ srv'.peers.peers, p.id = request.requester
  /-- The node answers with its own id. -/
  responder_eq : ∀ response, answer = .response response → response.responder = localId
  /-- It never names itself. -/
  not_named : ∀ reply, answer = .response (.getValue reply) →
    ∀ p ∈ reply.nodes, p.id ≠ localId
  /-- A question does not change what is kept. -/
  values_eq : ∀ q, request.query = .getValue q → srv'.values = srv.values
  /-- Whatever is asked for from then on, a known peer stays known, and no other
  address comes in the place of its own. -/
  stays_known : ∀ later, ∀ p ∈ srv'.peers.peers, p ∈ (srv'.afterAll later).peers.peers ∧
    ∀ q ∈ (srv'.afterAll later).peers.peers, q.id = p.id → q = p

theorem answers {localId : Id} {earlier : List (Address × Request)}
    (hwf : srv.peers.WellFormed) (hid : srv.id = localId)
    (hvalues : ∀ key : Id, srv.values.get? key.bytes = latest? localId key earlier) :
    Answers localId earlier srv source request (srv.handle source request).1
      (srv.handle source request).2 := by
  subst hid
  have hwf' : (srv.handle source request).2.peers.WellFormed := wellFormed_handle hwf
  have hpeers := peers_handle srv source request
  constructor
  case of_not_fits =>
    intro hfits
    rw [handle_of_not_fits hfits]
    exact ⟨rfl, rfl⟩
  case of_latest =>
    rintro hfits key k value hquery hlatest
    obtain ⟨requester, query⟩ := request
    obtain rfl : query = _ := hquery
    exact handle_of_value hfits ((hvalues key).trans hlatest)
  case of_no_value =>
    rintro hfits key k hquery hlatest
    obtain ⟨requester, query⟩ := request
    obtain rfl : query = _ := hquery
    rw [hpeers, if_pos hfits]
    exact handle_of_no_value hwf hfits ((hvalues key).trans hlatest)
  case of_store =>
    rintro hfits key value hquery
    obtain ⟨requester, query⟩ := request
    obtain rfl : query = _ := hquery
    rw [handle_storeValue hfits]
    exact ⟨rfl, rfl⟩
  case mem_iff =>
    intro hfits p
    rw [hpeers, if_pos hfits]
    exact hwf.mem_meet_iff
  case sender_known =>
    intro hfits hne hroom
    rw [hpeers, if_pos hfits]
    exact hwf.exists_mem_meet hfits.2 hne hroom
  case responder_eq =>
    intro response hresponse
    obtain rfl | ⟨value, nodes, rfl, -⟩ := of_handle_response hwf hresponse
    · rfl
    · rfl
  case not_named =>
    intro reply hreply p hp
    obtain heq | ⟨value, nodes, heq, hnodes⟩ := of_handle_response hwf hreply
    · contradiction
    · obtain rfl := Response.getValue.inj heq
      rw [← id_handle srv source request]
      exact (hwf'.of_mem (hnodes p hp)).2
  case values_eq =>
    rintro q hquery
    obtain ⟨requester, query⟩ := request
    obtain rfl : query = _ := hquery
    by_cases hfits : Fits ⟨requester, .getValue q⟩ srv.id
    · rw [handle_getValue hfits, meet]
    · rw [handle_of_not_fits hfits]
  case stays_known =>
    intro later p hp
    have hlater := mem_afterAll hp later
    exact ⟨hlater, fun q hq hqp => (wellFormed_afterAll hwf' later).eq_of_id_eq hq hlater hqp⟩

/-- **The answers of a server over any run.**  Whatever requests came before, and
whoever sent them, a request is answered from the latest value under its key or
from the known peers, and changes no more than it should. -/
theorem answers_after (localId : Id) (bucketSize : Nat) (earlier : List (Address × Request))
    (source : Address) (request : Request) :
    let srv := (fresh localId bucketSize).afterAll earlier
    srv.peers.localId = localId ∧ srv.peers.bucketSize = bucketSize ∧
      Answers localId earlier srv source request (srv.handle source request).1
        (srv.handle source request).2 := by
  have hid : ((fresh localId bucketSize).afterAll earlier).id = localId := id_afterAll _ _
  refine ⟨hid, bucketSize_afterAll _ _, answers ?_ hid fun key => ?_⟩
  · exact wellFormed_afterAll (RoutingTable.wellFormed_empty localId bucketSize) earlier
  · exact (values_afterAll _ _ key).trans (Option.or_none)

/-- The latest of two values is given out.  The second sender found the bucket full. -/
example :
    let ask (p : Peer) (query : Query) := (p.address, Request.mk p.id query)
    let srv := (fresh (Peer.ofByte 0).id 1).afterAll
      [ask (.ofByte 8) (.storeValue ⟨(Peer.ofByte 1).id, [7]⟩),
        ask (.ofByte 9) (.storeValue ⟨(Peer.ofByte 1).id, [8]⟩)]
    let answer (r : Address × Request) := (srv.handle r.1 r.2).1
    answer (ask (.ofByte 8) (.getValue ⟨(Peer.ofByte 1).id, 3⟩)) =
        .response (.getValue ⟨(Peer.ofByte 0).id, some [8], []⟩) ∧
      answer (ask (.ofByte 4) (.getValue ⟨(Peer.ofByte 2).id, 3⟩)) =
        .response (.getValue ⟨(Peer.ofByte 0).id, none, [.ofByte 4, .ofByte 8]⟩) :=
  ⟨rfl, rfl⟩

end Server
end Kademlia
