import Kademlia.Loopback
import Kademlia.Proofs.Replies
import Kademlia.Proofs.Takeover
import Kademlia.Transport

/-!
# Kademlia.Proofs.RemoteCalls

A query that goes over sockets and the same query put to the server itself.  If
the packet of the query and that of the answer arrive (`Connected`), then the
caller gets what the server answers, the server is left as it would be without
sockets in between, and the request is forgotten (`calls_as_directly`).

The other pending requests are as before, unless one of them had the same
transaction id: it is forgotten as well (`forgets_another`).
-/

namespace Kademlia

/-! ## Replies in answers -/

namespace Answer

theorem getReply_ofResult (result : Except ErrorCode GetReply) :
    (ofResult (result.map .getValue)).getReply = result.mapError .remote := by
  cases result <;> rfl

theorem storeReply_ofResult (result : Except ErrorCode StoreReply) :
    (ofResult (result.map .storeValue)).storeReply = result.mapError .remote := by
  cases result <;> rfl

end Answer

/-- The number of peers that a query asks for fits into a signed number of 64 bits. -/
def Query.Countable (query : Query) : Prop :=
  ∀ request, query = .getValue request → request.k.toNat < 2 ^ 63

namespace Socket

variable {P S : Type} [PeerStore P] {client server : Socket P S} {query : Query}

/-- Whatever is asked for, it comes back from the packet. -/
theorem decode_packet (client : Socket P S) (h : query.Countable) :
    Message.decode (client.packet query) =
      .ok ⟨client.nextId, .request ⟨client.server.id, query⟩⟩ := by
  apply Message.decode_encode_of_countable
  cases query with
  | getValue request => simpa [Message.Countable, Message.count?] using h request rfl
  | storeValue request => simp [Message.Countable, Message.count?]

/-- The socket after it sent a query. -/
def asked (client : Socket P S) (target : Address) : Socket P S :=
  { client with callers := client.callers + 1, nextId := client.nextId + 1 }.await client.nextId
    ⟨client.callers, target⟩

omit [PeerStore P] in
theorem lookup_asked (client : Socket P S) (target : Address) :
    (client.asked target).pending.lookup client.nextId = some ⟨client.callers, target⟩ := by
  simp [asked, await]

omit [PeerStore P] in
/-- A request that was started and forgotten leaves no trace among the pending ones, except for
one with its transaction id. -/
theorem pending_forget_asked (client : Socket P S) (target : Address) :
    ((client.asked target).forget client.nextId).pending =
      (client.forget client.nextId).pending := by
  simp [asked, await, forget]

omit [PeerStore P] in
/-- Forgetting a transaction id changes nothing if and only if no request has it. -/
theorem pending_forget_eq_iff (client : Socket P S) (tid : UInt16) :
    (client.forget tid).pending = client.pending ↔ client.pending.lookup tid = none := by
  rw [forget, List.filter_eq_self, List.lookup_eq_none_iff]
  grind

variable [Storage S]

/-- The packet of a query gets to the server, and that of the answer back. -/
structure Connected (link there : Link) (target home source : Address) (query : Query)
    (client server : Socket P S) : Prop where
  client_up : client.isDown = false
  server_up : server.isDown = false
  /-- The server can answer to where the query comes from. -/
  home_port : home.port ≠ 0
  source_port : source.port ≠ 0
  /-- The answer comes from where the query went. -/
  answered : target.answeredBy source
  sent : link.sends target (client.packet query)
  replied : there.sends home
    (server.replyPacket home client.nextId ⟨client.server.id, query⟩)

namespace Connected

variable {link there : Link} {target home source : Address}

theorem start_eq (h : Connected link there target home source query client server) :
    client.start link target query =
      (client.displaced ++ [.send target (client.packet query)], client.asked target) := by
  have hup : ¬ client.isDown := by simp [h.client_up]
  exact (if_neg hup).trans (if_pos h.sent)

/-- The server answers, and changes as it does without sockets. -/
theorem receive_packet (h : Connected link there target home source query client server)
    (hquery : query.Countable) :
    server.receive there home (client.packet query) =
      ([.send home (server.replyPacket home client.nextId ⟨client.server.id, query⟩)],
        { server with server := (server.server.handle home ⟨client.server.id, query⟩).2 }) := by
  rw [receive_of_request h.server_up h.home_port (decode_packet client hquery), if_pos h.replied]

/-- The caller gets the answer, as long as its request waits. -/
theorem receive_replyPacket (h : Connected link there target home source query client server)
    {sock : Socket P S} (hup : sock.isDown = false)
    (hwaits : sock.pending.lookup client.nextId = some ⟨client.callers, target⟩) :
    sock.receive link source (server.replyPacket home client.nextId ⟨client.server.id, query⟩) =
      ([.finish client.callers (.ok (server.server.handle home ⟨client.server.id, query⟩).1)],
        sock.forget client.nextId) :=
  receive_of_answeredBy hup h.source_port (decode_replyPacket ..) hwaits h.answered

end Connected

/-! ## Calls -/

/-- **A query over sockets is a query to the server.**  Its packet gets to the
server and that of the answer back.  Then the caller gets what the server
answers to the same query of the client, error codes as those of a remote node,
and the server changes as it does by that query.  What else happens to the
client until the answer arrives does not matter, as long as the request waits.
It is forgotten then, and with it a pending request that had its transaction id,
and all other pending requests are as before.

The answers are equal because no address here has IPv6 flow information (`Host`):
a packet would not carry it. -/
theorem calls_as_directly {link there : Link} {target home source : Address}
    (h : Connected link there target home source query client server) (hquery : query.Countable) :
    let requester : Peer := ⟨client.server.id, home⟩
    let reply := server.replyPacket home client.nextId ⟨client.server.id, query⟩
    let called := (client.start link target query).2
    ∃ answer next,
      (client.start link target query).1 =
        client.displaced ++ [.send target (client.packet query)] ∧
      server.receive there home (client.packet query) =
        ([.send home reply], { server with server := next }) ∧
      (∀ request, query = .getValue request →
        answer.getReply = (server.server.handleGet requester request).1.mapError .remote ∧
          next = (server.server.handleGet requester request).2) ∧
      (∀ request, query = .storeValue request →
        answer.storeReply = (server.server.handleStore requester request).1.mapError .remote ∧
          next = (server.server.handleStore requester request).2) ∧
      called.receive link source reply =
        ([.finish client.callers (.ok answer)], called.forget client.nextId) ∧
      (called.forget client.nextId).pending = (client.forget client.nextId).pending ∧
      ((called.forget client.nextId).pending = client.pending ↔
        client.pending.lookup client.nextId = none) ∧
      (client.Keyed → ∀ later log sock, Run called later log sock → sock.isDown = false →
        client.callers ∉ finished log →
        sock.receive link source reply =
          ([.finish client.callers (.ok answer)], sock.forget client.nextId)) := by
  intro requester reply called
  have hstart := h.start_eq
  have hcalled : called = client.asked target := congrArg Prod.snd hstart
  have hpending := pending_forget_asked client target
  refine ⟨(server.server.handle home ⟨client.server.id, query⟩).1,
    (server.server.handle home ⟨client.server.id, query⟩).2, congrArg Prod.fst hstart,
    h.receive_packet hquery, ?_, ?_, ?_, ?_, ?_, ?_⟩
  · rintro request rfl
    exact ⟨Answer.getReply_ofResult _, rfl⟩
  · rintro request rfl
    exact ⟨Answer.storeReply_ofResult _, rfl⟩
  · rw [hcalled]
    exact h.receive_replyPacket h.client_up (lookup_asked client target)
  · rw [hcalled, hpending]
  · rw [hcalled, hpending, pending_forget_eq_iff]
  · intro hkeyed later log sock hrun hup hwaits
    have hkeyed' : called.Keyed :=
      (transition link (.start target query) client).keyed hkeyed
    have hentry : (client.nextId, ⟨client.callers, target⟩) ∈ called.pending := by
      rw [hcalled]
      exact List.mem_cons_self
    have hwaits' := (hrun.mem_or_finished hkeyed' hentry).resolve_right hwaits
    exact h.receive_replyPacket hup ((lookup_eq_some (hrun.keyed hkeyed')).mpr hwaits')

namespace Small

/-- A node that asks. -/
def asker : Socket RoutingTable MemoryStorage :=
  { server := ⟨.empty stranger 1, {}⟩ }

/-- Where the node that asks is reached. -/
def home : Address := .ofIPv4 127 0 0 1 6882

theorem answeredBy_target : target.answeredBy target := by
  simp [Address.answeredBy, target, Address.ofIPv4, Host.sameIp]

theorem connected : Connected .ipv4 .ipv4 target home target Small.query asker (keeper [5]) :=
  ⟨rfl, rfl, by decide, by decide, answeredBy_target, by rfl, by rfl⟩

theorem countable_query : Small.query.Countable := by
  rintro request ⟨rfl⟩
  decide

/-- A host that sends everything. -/
def everything : Link := ⟨fun _ _ => true⟩

/-- A node calls when its first request has waited for as many starts as there are transaction
ids.  The number is a variable here, so that nothing runs that many events. -/
theorem forgotten {n : Nat} (hn : n = 2 ^ 16) :
    let client := (socket.run .ipv4 (List.replicate n asks)).2
    let reply := (keeper [5]).replyPacket home client.nextId ⟨client.server.id, Small.query⟩
    let called := (client.start everything target Small.query).2
    Connected everything everything target home target Small.query client (keeper [5]) ∧
      (0, ⟨0, target⟩) ∈ client.pending ∧
      ∃ answer, called.receive everything target reply =
          ([.finish client.callers (.ok answer)], called.forget client.nextId) ∧
        (0, ⟨0, target⟩) ∉ (called.forget client.nextId).pending := by
  intro client reply called
  obtain ⟨hwaits, hnext, -, hstep⟩ := taken_over hn
  have hup : client.isDown = false :=
    (transition .ipv4 asks client).isDown_of_start.symm.trans hstep
  have hconnected : Connected everything everything target home target Small.query client
      (keeper [5]) :=
    ⟨hup, rfl, by decide, by decide, answeredBy_target, rfl, rfl⟩
  refine ⟨hconnected, hwaits, _, hconnected.receive_replyPacket ?_ ?_, ?_⟩
  · rw [show called = client.asked target from congrArg Prod.snd hconnected.start_eq]
    exact hup
  · rw [show called = client.asked target from congrArg Prod.snd hconnected.start_eq]
    exact lookup_asked client target
  · simp [forget, show client.nextId = 0 from hnext]

end Small

theorem calls_as_directly_small :
    let reply := (Small.keeper [5]).replyPacket Small.home 0 ⟨Small.stranger, Small.query⟩
    let called := (Small.asker.start .ipv4 Small.target Small.query).2
    Connected .ipv4 .ipv4 Small.target Small.home Small.target Small.query Small.asker
        (Small.keeper [5]) ∧ Small.query.Countable ∧
      ∃ answer, answer.getReply = .ok ⟨Small.socket.server.id, some [5], []⟩ ∧
        called.receive .ipv4 Small.target reply = ([.finish 0 (.ok answer)], called.forget 0) ∧
        (called.forget 0).pending = Small.asker.pending := by
  obtain ⟨answer, _, -, -, hget, -, hreply, -, hsame, -⟩ :=
    calls_as_directly Small.connected Small.countable_query
  obtain ⟨hanswer, -⟩ := hget ⟨⟨[2], List.cons_ne_nil _ _⟩, 1⟩ rfl
  exact ⟨Small.connected, Small.countable_query, answer, hanswer, hreply, hsame.mpr rfl⟩

/-- A request gets its answer, and another one is forgotten with it: the latter was started
`2 ^ 16` requests before, and waits. -/
theorem forgets_another :
    let client := (Small.socket.run .ipv4 (List.replicate (2 ^ 16) Small.asks)).2
    let reply := (Small.keeper [5]).replyPacket Small.home client.nextId
      ⟨client.server.id, Small.query⟩
    let called := (client.start Small.everything Small.target Small.query).2
    Connected Small.everything Small.everything Small.target Small.home Small.target Small.query
        client (Small.keeper [5]) ∧
      (0, ⟨0, Small.target⟩) ∈ client.pending ∧
      ∃ answer, called.receive Small.everything Small.target reply =
          ([.finish client.callers (.ok answer)], called.forget client.nextId) ∧
        (0, ⟨0, Small.target⟩) ∉ (called.forget client.nextId).pending :=
  Small.forgotten rfl

end Socket

/-! ## Nodes of one host -/

namespace Loopback

variable {P S : Type} {n : Nat} (host : Loopback P S n) (i : Fin n) (socket : Socket P S)

theorem endpoint_setSocket (j : Fin n) :
    (host.setSocket i socket).endpoint j =
      if i = j then { host.endpoint i with socket } else host.endpoint j := by
  show (host.endpoints.set i _ i.isLt)[j.val] = _
  rw [Vector.getElem_set]
  simp only [Fin.ext_iff]
  rfl

@[simp] theorem address_setSocket (j : Fin n) :
    ((host.setSocket i socket).endpoint j).address = (host.endpoint j).address := by
  rw [endpoint_setSocket]
  grind [Endpoint.address]

@[simp] theorem receiver?_setSocket (target : Address) :
    (host.setSocket i socket).receiver? target = host.receiver? target := by
  simp [receiver?]

@[simp] theorem link_setSocket : (host.setSocket i socket).link = host.link := rfl

variable [PeerStore P] [Storage S] {host i} {j : Fin n} {target : Address} {query : Query}

/-- The host after a call of one node to another, whose packets arrive. -/
def called (host : Loopback P S n) (i j : Fin n) (target : Address) (query : Query) :
    Loopback P S n :=
  let client := host.socket i
  let server := ((host.socket j).server.handle (host.endpoint i).address
    ⟨client.server.id, query⟩).2
  let host := (host.setSocket i (client.asked target)).setSocket j { host.socket j with server }
  host.setSocket i ((client.asked target).forget client.nextId)

/-- What one node needs to call another one. -/
structure Reachable (host : Loopback P S n) (i j : Fin n) (target : Address) (query : Query) :
    Prop where
  ne : i ≠ j
  out : host.receiver? target = some j
  back : host.receiver? (host.endpoint i).address = some i
  connected : Socket.Connected host.link host.link target (host.endpoint i).address
    (host.endpoint j).address query (host.socket i) (host.socket j)
  /-- The callers that wait started before. -/
  earlier : ∀ entry ∈ (host.socket i).pending, entry.2.caller ≠ (host.socket i).callers

theorem call_eq (h : host.Reachable i j target query) (hquery : query.Countable) :
    host.call i target query =
      (.ok ((host.socket j).server.handle (host.endpoint i).address
        ⟨(host.socket i).server.id, query⟩).1, host.called i j target query) := by
  have hreceive := h.connected.receive_packet hquery
  have hup : ((host.socket i).asked target).isDown = false := h.connected.client_up
  have hreply := h.connected.receive_replyPacket hup (Socket.lookup_asked _ _)
  unfold call
  rw [h.connected.start_eq]
  cases hlookup : (host.socket i).pending.lookup (host.socket i).nextId with
  | none =>
    simp [Socket.displaced, hlookup, carry, h.out, h.back, socket_setSocket, h.ne, h.ne.symm,
      hreceive, hreply, outcome?, List.findSome?, called]
  | some p =>
    -- The caller whose place is taken is another one, so the call does not end with it.
    have hp : p.caller ≠ (host.socket i).callers := by
      obtain ⟨l, r, heq, -⟩ := List.lookup_eq_some_iff.mp hlookup
      exact h.earlier ((host.socket i).nextId, p) (by simp [heq])
    simp [Socket.displaced, hlookup, carry, h.out, h.back, socket_setSocket, h.ne, h.ne.symm,
      hreceive, hreply, outcome?, List.findSome?, Socket.abandoned, hp, called]

theorem server_called (host : Loopback P S n) (hne : i ≠ j) (query : Query) :
    ((host.called i j target query).socket j).server =
      ((host.socket j).server.handle (host.endpoint i).address
        ⟨(host.socket i).server.id, query⟩).2 := by
  simp [called, socket_setSocket, hne]

/-- The requests of a node are answered as if they were put to the server of the other one,
whose state is the same afterwards. -/
theorem transport_eq_direct (h : host.Reachable i j target query) (hquery : query.Countable) :
    let requester : Peer := ⟨(host.socket i).server.id, (host.endpoint i).address⟩
    let server := (host.socket j).server
    (∀ request, query = .getValue request →
      (transport i).getValue target request host =
          ((server.handleGet requester request).1.mapError .remote, host.called i j target query) ∧
        ((host.called i j target query).socket j).server =
          (server.handleGet requester request).2) ∧
    ∀ request, query = .storeValue request →
      (transport i).storeValue target request host =
          ((server.handleStore requester request).1.mapError .remote,
            host.called i j target query) ∧
        ((host.called i j target query).socket j).server =
          (server.handleStore requester request).2 := by
  intro requester server
  constructor
  · rintro request rfl
    refine ⟨?_, server_called host h.ne _⟩
    simp only [transport, call_eq h hquery]
    exact Prod.ext (Answer.getReply_ofResult _) rfl
  · rintro request rfl
    refine ⟨?_, server_called host h.ne _⟩
    simp only [transport, call_eq h hquery]
    exact Prod.ext (Answer.storeReply_ofResult _) rfl

end Loopback
end Kademlia
