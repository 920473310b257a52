import Kademlia.Proofs.Frames

/-!
# Kademlia.Proofs.Packets

Packets and the messages in them.

* A message comes back from its packet, unless it asks for 2^63 peers or more
  (`Message.decode_encode`).  What is read from any packet asks for fewer.
* A packet ends where its message ends: what follows it does not change what is
  read, and what is cut short is not read at all (`Message.self_delimiting`).
-/

namespace Kademlia

open Bencode (Value Spells)

/-! ## Counts -/

/-- The number of peers that is asked for fits into a signed number of 64 bits. -/
def Message.Countable (m : Message) : Prop := ∀ k ∈ m.count?, k.toNat < 2 ^ 63

namespace Frame

theorem of_checkCount {n : Int} {k : UInt64} (h : checkCount n = .ok k)
    (hn : n ≤ Int64.maxValue.toInt) : k.toNat < 2 ^ 63 := by
  have hmax : Int64.maxValue.toInt = 2 ^ 63 - 1 := rfl
  unfold checkCount at h
  split at h
  · contradiction
  · obtain rfl := Except.ok.inj h
    rw [Nat.toUInt64, UInt64.toNat_ofNat']
    omega

theorem of_checkBody {t : UInt16} {body : FrameBody} {b : Body} (h : checkBody body = .ok b) :
    ∀ k ∈ (Message.mk t b).count?, ∃ n ∈ body.number?, checkCount n = .ok k := by
  intro k hk
  unfold checkBody at h
  split at h
  · next id key n =>
    obtain ⟨_, -, h⟩ := Except.exists_of_bind_eq_ok h
    obtain ⟨_, -, h⟩ := Except.exists_of_bind_eq_ok h
    obtain ⟨k', hcount, h⟩ := Except.exists_of_bind_eq_ok h
    obtain rfl := Except.ok.inj h
    obtain rfl := Option.some.inj hk
    exact ⟨n, rfl, hcount⟩
  · obtain ⟨_, -, h⟩ := Except.exists_of_bind_eq_ok h
    obtain ⟨_, -, h⟩ := Except.exists_of_bind_eq_ok h
    obtain rfl := Except.ok.inj h
    contradiction
  · obtain ⟨_, -, h⟩ := Except.exists_of_bind_eq_ok h
    obtain rfl := Except.ok.inj h
    contradiction
  · obtain ⟨_, -, h⟩ := Except.exists_of_bind_eq_ok h
    obtain ⟨_, -, h⟩ := Except.exists_of_bind_eq_ok h
    obtain rfl := Except.ok.inj h
    contradiction
  · obtain rfl := Except.ok.inj h
    contradiction

/-- A message whose integers were read from a packet can be written again. -/
theorem countable_of_toMessage {f : Frame} {m : Message} (h : f.toMessage = .ok m)
    (hn : ∀ n ∈ f.body.number?, n ≤ Int64.maxValue.toInt) : m.Countable := by
  intro k hk
  obtain ⟨t, -, h⟩ := Except.exists_of_bind_eq_ok h
  obtain ⟨body, hbody, h⟩ := Except.exists_of_bind_eq_ok h
  obtain rfl := Except.ok.inj h
  obtain ⟨n, hmem, hcount⟩ := of_checkBody hbody k hk
  exact of_checkCount hcount (hn n hmem)

end Frame

namespace Message

/-! ## Small messages -/

namespace Small

/-- A link-local address in zone 3. -/
def address : Address := ⟨.v6 #v[0xfe80, 0, 0, 0, 0, 0, 0, 1] 3, 6881⟩

/-- The answer of a node that has a value, and knows a peer there. -/
def reply : Message :=
  ⟨258, .answer (.response (.getValue
    ⟨⟨[1], by simp⟩, some [255, 0], [⟨⟨[2], by simp⟩, address⟩]⟩))⟩

/-- A request for more peers than can be written. -/
def excessive : Message :=
  ⟨0, .request ⟨⟨[1], by simp⟩, .getValue ⟨⟨[2], by simp⟩, .ofNat (2 ^ 63)⟩⟩⟩

theorem countable_reply : reply.Countable := by
  simp [Countable, count?, reply]

end Small

variable {m : Message} {v : Value} {p packet : Bytes}

/-! ## Reading -/

/-- Only the value at the front of a packet is looked at. -/
theorem decode_append_of_some {f : Frame} (h : Spells v p) (hf : Frame.ofValue? v = some f)
    (x : Bytes) : decode (p ++ x) = f.toMessage := by
  simp [decode, h.decodePrefix?_append x, hf]

theorem decode_append_of_none (h : Spells v p) (hf : Frame.ofValue? v = none) (x : Bytes) :
    decode (p ++ x) = .error .malformed := by
  simp [decode, h.decodePrefix?_append x, hf]

theorem of_decode (h : decode packet = .ok m) :
    ∃ v p x f, packet = p ++ x ∧ Spells v p ∧ Frame.ofValue? v = some f ∧ f.toMessage = .ok m := by
  unfold decode at h
  split at h
  · contradiction
  · next v x hread =>
    obtain ⟨p, rfl, hp⟩ := Bencode.decodePrefix?_eq_some_iff.mp hread
    split at h
    · contradiction
    · next f hf => exact ⟨v, p, x, f, rfl, hp, hf, h⟩

/-- The packet of a message spells the dictionary of its frame. -/
theorem spells_encode (m : Message) : Spells (Frame.ofMessage m).toValue m.encode :=
  Frame.spells_toValue _ (Frame.number?_ofMessage m)

theorem decode_encode_append (m : Message) (x : Bytes) :
    decode (m.encode ++ x) = (Frame.ofMessage m).toMessage :=
  decode_append_of_some m.spells_encode (Frame.ofValue?_toValue _) x

theorem countable_of_decode (h : decode packet = .ok m) : m.Countable := by
  obtain ⟨v, p, x, f, rfl, hp, hf, hm⟩ := of_decode h
  exact Frame.countable_of_toMessage hm (Frame.le_of_ofValue? hp hf)

theorem decode_encode_of_countable (h : m.Countable) : decode m.encode = .ok m := by
  have hread := decode_encode_append m []
  rwa [List.append_nil, Frame.toMessage_ofMessage m h] at hread

/-- **Messages come back from their packets.**  Those that ask for 2^63 peers or
more do not: the number has become a negative one, and the packet is refused.
No packet holds such a message. -/
theorem decode_encode :
    (∀ m : Message, m.Countable → decode m.encode = .ok m) ∧
    (∀ (m : Message) (k : UInt64), m.count? = some k → 2 ^ 63 ≤ k.toNat →
      decode m.encode = .error (.invalidMessage (.negativeCount (k.toNat - 2 ^ 64)))) ∧
    ∀ (packet : Bytes) (m : Message), decode packet = .ok m → decode m.encode = .ok m := by
  refine ⟨fun m => decode_encode_of_countable, fun m k hk hle => ?_,
    fun packet m h => decode_encode_of_countable (countable_of_decode h)⟩
  have hread := decode_encode_append m []
  rwa [List.append_nil, Frame.toMessage_ofMessage_of_le hk hle] at hread

theorem decode_encode_small :
    decode Small.reply.encode = .ok Small.reply ∧
      decode Small.excessive.encode = .error (.invalidMessage (.negativeCount (-2 ^ 63))) ∧
      decode (Small.reply.encode ++ [0]) = .ok Small.reply := by
  have hread : decode (Small.reply.encode ++ [0]) = .ok Small.reply := by
    rw [decode_encode_append, Frame.toMessage_ofMessage _ Small.countable_reply]
  have hcount : (UInt64.ofNat (2 ^ 63)).toNat = 2 ^ 63 := rfl
  have hrefused := decode_encode.2.1 Small.excessive _ rfl hcount.ge
  rw [hcount] at hrefused
  exact ⟨decode_encode.2.2 _ _ hread, hrefused, hread⟩

/-! ## Where a packet ends -/

/-- **Packets are self-delimiting.**  What follows a packet does not change the
message that is read, and the packet of a message is not read when it is cut short. -/
theorem self_delimiting :
    (∀ (packet x : Bytes) (m : Message), decode packet = .ok m → decode (packet ++ x) = .ok m) ∧
    ∀ (m : Message) (p : Bytes), p <+: m.encode → p ≠ m.encode →
      decode p = .error .malformed := by
  constructor
  · intro packet x m h
    obtain ⟨v, p, y, f, rfl, hp, hf, hm⟩ := of_decode h
    rw [List.append_assoc, decode_append_of_some hp hf, hm]
  · intro m p hp hne
    simp [decode, m.spells_encode.decodePrefix?_eq_none hp hne]

theorem self_delimiting_small :
    decode (Small.reply.encode ++ [0, 1]) = .ok Small.reply ∧
      decode Small.reply.encode.dropLast = .error .malformed := by
  have hread := decode_encode_of_countable Small.countable_reply
  have hne : Small.reply.encode.dropLast ≠ Small.reply.encode := by
    obtain ⟨c, t, heq, -⟩ := Small.reply.spells_encode.exists_cons
    intro hsame
    have hlen := congrArg List.length hsame
    simp [heq] at hlen
  exact ⟨self_delimiting.1 _ [0, 1] _ hread,
    self_delimiting.2 _ _ (List.dropLast_prefix _) hne⟩

end Message
end Kademlia
