import Kademlia.Proofs.Correlation

/-!
# Kademlia.Proofs.Replies

What a packet does to a socket.  It is dropped for one of five reasons
(`Dropped`) and changes nothing then, or it is a request, which is answered to
where it came from, or else the answer that a pending request waits for
(`drops_replies_or_delivers`).

A socket makes one packet for each request.  The host may refuse to send it: a
value can be kept that is too long for a datagram, and then nobody gets an
answer who asks for it (`silent_on_long_value`).
-/

namespace Kademlia

/-! ## Packets that hold a value -/

/-- A packet is longer than the value in it. -/
theorem Message.length_lt_of_value (tid : UInt16) (responder : Id) (value : Bytes)
    (nodes : List Peer) :
    value.length <
      (encode ⟨tid, .answer (.response (.getValue ⟨responder, some value, nodes⟩))⟩).length := by
  simp [encode, Frame.ofMessage, Frame.toValue, Frame.record, Bencode.Value.encode,
    Bencode.encodeEntries]
  omega

theorem Link.sends_ipv4_of_lt {target : Address} {packet : Bytes}
    (h : maxPayload < packet.length) : ipv4.sends target packet = false := by
  simp only [ipv4]
  split
  · simp [h]
  · rfl

namespace Socket

variable {P S : Type} {sock : Socket P S} {link : Link} {source : Address} {packet : Bytes}
  {tid : UInt16} {request : Request} {answer : Answer}

/-! ## Packets that are dropped -/

/-- Why a packet is dropped. -/
inductive Dropped (sock : Socket P S) (source : Address) (packet : Bytes) : Prop
  /-- The socket is down. -/
  | down (hdown : sock.isDown)
  /-- There is no port to answer to. -/
  | portless (hport : source.port = 0)
  /-- It is not a message. -/
  | unreadable {e : Error} (hread : Message.decode packet = .error e)
  /-- It answers a request that does not wait. -/
  | unexpected {tid : UInt16} {answer : Answer}
    (hread : Message.decode packet = .ok ⟨tid, .answer answer⟩)
    (hnone : sock.pending.lookup tid = none)
  /-- It answers a request that went elsewhere. -/
  | misdirected {tid : UInt16} {answer : Answer} {p : Pending}
    (hread : Message.decode packet = .ok ⟨tid, .answer answer⟩)
    (hp : sock.pending.lookup tid = some p) (hsource : ¬ p.target.answeredBy source)

/-- A packet that is not dropped is a request, or the answer to a pending one. -/
theorem of_not_dropped (h : ¬ sock.Dropped source packet) :
    sock.isDown = false ∧ source.port ≠ 0 ∧ ∃ tid,
      (∃ request, Message.decode packet = .ok ⟨tid, .request request⟩) ∨
      ∃ answer p, Message.decode packet = .ok ⟨tid, .answer answer⟩ ∧
        sock.pending.lookup tid = some p ∧ p.target.answeredBy source := by
  refine ⟨Bool.eq_false_iff.mpr fun hdown => h (.down hdown), fun hport => h (.portless hport), ?_⟩
  cases hread : Message.decode packet with
  | error e => exact absurd (.unreadable hread) h
  | ok m =>
    obtain ⟨tid, request | answer⟩ := m
    · exact ⟨tid, .inl ⟨request, rfl⟩⟩
    · cases hp : sock.pending.lookup tid with
      | none => exact absurd (.unexpected hread hp) h
      | some p =>
        have hsource : p.target.answeredBy source := by
          by_contra hsource
          exact h (.misdirected hread hp hsource)
        exact ⟨tid, .inr ⟨answer, p, rfl, hp, hsource⟩⟩

variable [PeerStore P] [Storage S]

/-- A packet that is dropped changes nothing and sends nothing. -/
theorem Dropped.receive_eq (h : sock.Dropped source packet) :
    sock.receive link source packet = ([], sock) := by
  cases h with
  | down hdown => simp [receive, hdown]
  | portless hport => simp [receive, hport]
  | unreadable hread => simp [receive, hread]
  | unexpected hread hnone => simp [receive, hread, accept, hnone]
  | misdirected hread hp hsource => exact receive_of_not_answeredBy hread hp hsource

/-! ## Packets that are not -/

/-- The packet that answers a request. -/
def replyPacket (sock : Socket P S) (source : Address) (tid : UInt16) (request : Request) : Bytes :=
  Message.encode ⟨tid, .answer (sock.server.handle source request).1⟩

/-- Whatever a node answers, it comes back from the packet. -/
theorem decode_replyPacket (sock : Socket P S) (source : Address) (tid : UInt16)
    (request : Request) :
    Message.decode (sock.replyPacket source tid request) =
      .ok ⟨tid, .answer (sock.server.handle source request).1⟩ := by
  apply Message.decode_encode_of_countable
  simp [Message.Countable, Message.count?]

theorem receive_of_request (hup : sock.isDown = false) (hport : source.port ≠ 0)
    (hread : Message.decode packet = .ok ⟨tid, .request request⟩) :
    sock.receive link source packet =
      (if link.sends source (sock.replyPacket source tid request)
        then [.send source (sock.replyPacket source tid request)] else [],
      { sock with server := (sock.server.handle source request).2 }) := by
  have hreply : sock.receive link source packet = sock.reply link source tid request := by
    simp [receive, hup, hport, hread]
  rw [hreply]
  rfl

/-- An answer goes to a pending request or nowhere. -/
theorem receive_of_answer (hread : Message.decode packet = .ok ⟨tid, .answer answer⟩) :
    (sock.receive link source packet).2.server = sock.server ∧
      ∀ target sent, .send target sent ∉ (sock.receive link source packet).1 := by
  unfold receive accept
  grind [forget]

/-- **A packet is dropped, answered or delivered.**  One that is dropped changes
nothing and sends nothing, and any other one is a request or the answer to a
pending one.  A request is answered with one packet to where it came from, and
what is read from that packet is the answer of the node under the transaction
id of the request; nothing is sent if the host does not send that packet.  Only
the known peers and the values change by a request, and neither of them by an
answer, for which nothing is sent. -/
theorem drops_replies_or_delivers (link : Link) (source : Address) (packet : Bytes)
    (sock : Socket P S) :
    (sock.Dropped source packet → sock.receive link source packet = ([], sock)) ∧
    (¬ sock.Dropped source packet → ∃ tid,
      (∃ request, Message.decode packet = .ok ⟨tid, .request request⟩) ∨
      ∃ answer p, Message.decode packet = .ok ⟨tid, .answer answer⟩ ∧
        sock.pending.lookup tid = some p ∧
        sock.receive link source packet = ([.finish p.caller (.ok answer)], sock.forget tid)) ∧
    (∀ tid request, sock.isDown = false → source.port ≠ 0 →
      Message.decode packet = .ok ⟨tid, .request request⟩ →
      ∃ reply answer server, (answer, server) = sock.server.handle source request ∧
        reply = Message.encode ⟨tid, .answer answer⟩ ∧
        Message.decode reply = .ok ⟨tid, .answer answer⟩ ∧
        sock.receive link source packet =
          (if link.sends source reply then [.send source reply] else [], { sock with server })) ∧
    ∀ tid answer, Message.decode packet = .ok ⟨tid, .answer answer⟩ →
      (sock.receive link source packet).2.server = sock.server ∧
        ∀ target sent, .send target sent ∉ (sock.receive link source packet).1 := by
  refine ⟨Dropped.receive_eq, fun h => ?_, fun tid request hup hport hread => ?_,
    fun tid answer => receive_of_answer⟩
  · obtain ⟨hup, hport, tid, hrequest | ⟨answer, p, hread, hp, hsource⟩⟩ := of_not_dropped h
    · exact ⟨tid, .inl hrequest⟩
    · exact ⟨tid, .inr ⟨answer, p, hread, hp, receive_of_answeredBy hup hport hread hp hsource⟩⟩
  · exact ⟨_, _, _, rfl, rfl, decode_replyPacket sock source tid request,
      receive_of_request hup hport hread⟩

namespace Small

/-- The id of another node. -/
def stranger : Id := ⟨[3], List.cons_ne_nil _ _⟩

/-- The request for a value that is put to the node, from the other one. -/
def question : Message := ⟨7, .request ⟨stranger, query⟩⟩

theorem decode_question : Message.decode question.encode = .ok question := by
  apply Message.decode_encode_of_countable
  simp [Message.Countable, Message.count?, question, query]

/-- The node when it keeps a value under the key of the question. -/
def keeper (value : Bytes) : Socket RoutingTable MemoryStorage :=
  { socket with server := { socket.server with values := ⟨[([2], value)]⟩ } }

theorem handle_keeper (value : Bytes) :
    ((keeper value).server.handle target ⟨stranger, query⟩).1 =
      .response (.getValue ⟨socket.server.id, some value, []⟩) := by
  rfl

end Small

theorem drops_replies_or_delivers_small :
    let sock := Small.keeper [5]
    let reply := Message.encode
      ⟨7, .answer (.response (.getValue ⟨Small.socket.server.id, some [5], []⟩))⟩
    sock.Dropped Small.target Small.reply.encode ∧
      sock.receive .ipv4 Small.target Small.reply.encode = ([], sock) ∧
      (sock.receive .ipv4 Small.target Small.question.encode).1 = [.send Small.target reply] := by
  intro sock reply
  have hread := Message.decode_encode_of_countable Small.countable_reply
  have hdropped : sock.Dropped Small.target Small.reply.encode := .unexpected hread rfl
  refine ⟨hdropped, (drops_replies_or_delivers _ _ _ _).1 hdropped, ?_⟩
  obtain ⟨_, _, _, hhandle, rfl, -, hreceive⟩ :=
    (drops_replies_or_delivers .ipv4 Small.target Small.question.encode sock).2.2.1 7 _ rfl
      (by decide) Small.decode_question
  obtain rfl := (congrArg Prod.fst hhandle).trans (Small.handle_keeper [5])
  have hsent : Link.ipv4.sends Small.target reply = true := by rfl
  rw [hreceive, if_pos hsent]

/-- **A value may be too long for an answer.**  A node keeps a value of as many
bytes as a datagram takes, and nothing is sent to the node that asks for it. -/
theorem silent_on_long_value :
    let sock := Small.keeper (List.replicate Link.maxPayload 0)
    sock.isDown = false ∧ Small.target.port ≠ 0 ∧
      Message.decode Small.question.encode = .ok Small.question ∧
      (sock.receive .ipv4 Small.target Small.question.encode).1 = [] := by
  intro sock
  have hport : Small.target.port ≠ 0 := by decide
  refine ⟨rfl, hport, Small.decode_question, ?_⟩
  rw [receive_of_request rfl hport Small.decode_question]
  have hlong : Link.maxPayload < (sock.replyPacket Small.target 7
      ⟨Small.stranger, Small.query⟩).length := by
    have hlt := Message.length_lt_of_value 7 Small.socket.server.id
      (List.replicate Link.maxPayload 0) []
    rwa [List.length_replicate, ← Small.handle_keeper] at hlt
  simp [Link.sends_ipv4_of_lt hlong]

end Socket
end Kademlia
