import Kademlia.Message.Wire
import Kademlia.Proofs.AddressText
import Kademlia.Proofs.Grammar

/-!
# Kademlia.Proofs.Frames

Messages, frames and their packets.  A frame comes back from its dictionary
whatever its parts are (`Frame.ofValue?_toValue`), and a message from its frame
(`Frame.toMessage_ofMessage`), unless the message asks for 2^63 peers or more:
counts are written as signed numbers, so that one comes out negative
(`Frame.toMessage_ofMessage_of_le`).

Dictionaries are looked at through `dictionary`, whose entries have byte strings
for keys, and `named`, which makes such entries of texts.  What tells the kind of
a packet are the `tags` of its body, and the other parts stand in one `place`
(`Frame.of_body?`).  All that is read from a packet was spelled in it, so its
integers fit into 64 bits (`Frame.le_of_ofValue?`).
-/

namespace Kademlia

open Bencode (Value Spells)

/-- Different texts have different bytes. -/
@[simp] theorem Bytes.ofText_inj {s t : String} : ofText s = ofText t ↔ s = t := by
  constructor
  · intro h
    have htext := congrArg text? h
    simpa using htext
  · rintro rfl
    rfl

namespace Frame

/-! ## Dictionaries -/

/-- A dictionary whose keys are byte strings. -/
def dictionary (entries : List (Bytes × Value)) : Value :=
  .dict (entries.map fun (key, v) => (.bytes key, v))

/-- The entries of a dictionary with texts for keys. -/
def named (fields : List (String × Value)) : List (Bytes × Value) :=
  fields.map fun (name, v) => (Bytes.ofText name, v)

theorem record_eq (fields : List (String × Value)) : record fields = dictionary (named fields) := by
  simp [record, dictionary, named, Function.comp_def]

theorem keyed?_map (entries : List (Bytes × Value)) :
    keyed? (entries.map fun (key, v) => (.bytes key, v)) = some entries := by
  induction entries with
  | nil => rfl
  | cons entry entries ih =>
    rw [keyed?] at ih ⊢
    rw [List.map_cons, List.mapM_cons, ih]
    rfl

theorem slots?_dictionary (names : List String) (entries : List (Bytes × Value)) :
    slots? names (dictionary entries) = names.mapM (single? entries) := by
  rw [dictionary, slots?, keyed?_map]
  rfl

theorem ofValue?_dictionary (entries : List (Bytes × Value)) :
    ofValue? (dictionary entries) =
      if entries.all fun entry => entry.1.text?.isSome then
        ((required? entries "t").bind bytes?).bind fun id => (body? entries).map (Frame.mk id)
      else none := by
  rw [dictionary, ofValue?, keyed?_map]
  simp [Option.map_eq_bind, Option.bind_assoc]

theorem all_isSome_named (fields : List (String × Value)) :
    ((named fields).all fun entry => entry.1.text?.isSome) = true := by
  simp [named]

theorem single?_named (fields : List (String × Value)) (name : String) :
    single? (named fields) name =
      match fields.filter (·.1 == name) with
      | [] => some none
      | [(_, v)] => some (some v)
      | _ => none := by
  have hfilter : (named fields).filter (·.1 == Bytes.ofText name) =
      named (fields.filter (·.1 == name)) := by
    rw [named, named, List.filter_map]
    congr 2
    funext field
    rw [Bool.eq_iff_iff]
    simp
  rw [single?, hfilter]
  generalize fields.filter (·.1 == name) = found
  rcases found with _ | ⟨_, _ | _⟩ <;> rfl

/-! ## Frames and their dictionaries -/

theorem node?_nodeValue (node : Bytes × String) : node? (nodeValue node) = some node := by
  simp [node?, nodeValue, record_eq, slots?_dictionary, single?_named, bytes?, text?, textValue]

theorem nodes?_map (nodes : List (Bytes × String)) :
    nodes? (.list (nodes.map nodeValue)) = some nodes := by
  induction nodes with
  | nil => rfl
  | cons node nodes ih =>
    rw [nodes?] at ih ⊢
    rw [List.map_cons, List.mapM_cons, node?_nodeValue, ih]
    rfl

/-- **A frame is read back from its dictionary.** -/
theorem ofValue?_toValue (f : Frame) : ofValue? f.toValue = some f := by
  obtain ⟨t, body⟩ := f
  cases body with
  | getValue id key k =>
    simp [toValue, record_eq, ofValue?_dictionary, all_isSome_named, required?, single?_named,
      body?, arguments?, slots?_dictionary, text?, textValue, bytes?, int?]
  | storeValue id key value =>
    simp [toValue, record_eq, ofValue?_dictionary, all_isSome_named, required?, single?_named,
      body?, arguments?, slots?_dictionary, text?, textValue, bytes?]
  | response id value nodes =>
    cases value <;> cases nodes <;>
      simp [toValue, record_eq, ofValue?_dictionary, all_isSome_named, required?, single?_named,
        body?, response?, slots?_dictionary, text?, textValue, bytes?, optional?, nodes?_map]
  | failure code description =>
    simp [toValue, record_eq, ofValue?_dictionary, all_isSome_named, required?, single?_named,
      body?, failure?, text?, textValue, bytes?, int?]

end Frame

/-! ## Kinds of bodies -/

namespace FrameBody

/-- The names of the entries that tell the kind, and the texts under them. -/
def tags : FrameBody → List (String × String)
  | .getValue _ _ _ => [("y", "q"), ("q", "get_value")]
  | .storeValue _ _ _ => [("y", "q"), ("q", "store_value")]
  | .response _ _ _ => [("y", "r")]
  | .failure _ _ => [("y", "e")]

/-- The name of the entry with all the parts. -/
def place : FrameBody → String
  | .getValue _ _ _ => "a"
  | .storeValue _ _ _ => "a"
  | .response _ _ _ => "r"
  | .failure _ _ => "e"

/-- How the parts of a body of this kind are read. -/
def read? : FrameBody → Value → Option FrameBody
  | .getValue _ _ _ => Frame.arguments? "get_value"
  | .storeValue _ _ _ => Frame.arguments? "store_value"
  | .response _ _ _ => Frame.response?
  | .failure _ _ => Frame.failure?

/-- The integer among the parts, if there is one. -/
def number? : FrameBody → Option Int
  | .getValue _ _ k => some k
  | .failure code _ => some code
  | _ => none

end FrameBody

namespace Frame

variable {es : List (Bytes × Value)} {body : FrameBody}

/-- The text under a name. -/
def textAt (es : List (Bytes × Value)) (name : String) : Option String :=
  (required? es name).bind text?

theorem body?_eq_bind (es : List (Bytes × Value)) :
    body? es = (textAt es "y").bind fun kind =>
      if kind = "q" then
        (textAt es "q").bind fun method => (required? es "a").bind (arguments? method)
      else if kind = "r" then (required? es "r").bind response?
      else if kind = "e" then (required? es "e").bind failure?
      else none := by
  simp only [body?, textAt, Option.bind_eq_bind, Option.bind_assoc]

/-- Under the tags of a kind, only the parts that go with it are looked at. -/
theorem body?_of_tags (h : ∀ tag ∈ body.tags, textAt es tag.1 = some tag.2) :
    body? es = (required? es body.place).bind body.read? := by
  rw [body?_eq_bind]
  cases body <;> simp_all [FrameBody.tags, FrameBody.place, FrameBody.read?]

theorem exists_of_arguments? {method : String} {v : Value} (h : arguments? method v = some body) :
    (∃ id key k, body = .getValue id key k ∧ method = "get_value") ∨
      ∃ id key value, body = .storeValue id key value ∧ method = "store_value" := by
  unfold arguments? at h
  split_ifs at h with hget hstore
  · split at h
    · simp [Option.bind_eq_some_iff] at h
      obtain ⟨id, -, key, -, k, -, rfl⟩ := h
      exact .inl ⟨_, _, _, rfl, hget⟩
    · contradiction
  · split at h
    · simp [Option.bind_eq_some_iff] at h
      obtain ⟨id, -, key, -, value, -, rfl⟩ := h
      exact .inr ⟨_, _, _, rfl, hstore⟩
    · contradiction

theorem exists_of_response? {v : Value} (h : response? v = some body) :
    ∃ id value nodes, body = .response id value nodes := by
  unfold response? at h
  split at h
  · simp [Option.bind_eq_some_iff] at h
    obtain ⟨id, -, value, -, nodes, -, rfl⟩ := h
    exact ⟨_, _, _, rfl⟩
  · contradiction

theorem exists_of_failure? {v : Value} (h : failure? v = some body) :
    ∃ code description, body = .failure code description := by
  unfold failure? at h
  split at h
  · simp [Option.bind_eq_some_iff] at h
    obtain ⟨code, -, description, -, rfl⟩ := h
    exact ⟨_, _, rfl⟩
  · contradiction

/-- A body is read under the tags of its kind, and from the parts that go with it. -/
theorem of_body? (h : body? es = some body) :
    (∀ tag ∈ body.tags, textAt es tag.1 = some tag.2) ∧
      (required? es body.place).bind body.read? = some body := by
  rw [body?_eq_bind] at h
  obtain ⟨kind, hkind, h⟩ := Option.bind_eq_some_iff.mp h
  split_ifs at h with hq hr he
  · obtain ⟨method, hmethod, h⟩ := Option.bind_eq_some_iff.mp h
    obtain ⟨v, hv, hread⟩ := Option.bind_eq_some_iff.mp h
    obtain ⟨id, key, k, rfl, rfl⟩ | ⟨id, key, value, rfl, rfl⟩ := exists_of_arguments? hread
    · simp_all [FrameBody.tags, FrameBody.place, FrameBody.read?]
    · simp_all [FrameBody.tags, FrameBody.place, FrameBody.read?]
  · obtain ⟨v, hv, hread⟩ := Option.bind_eq_some_iff.mp h
    obtain ⟨id, value, nodes, rfl⟩ := exists_of_response? hread
    simp_all [FrameBody.tags, FrameBody.place, FrameBody.read?]
  · obtain ⟨v, hv, hread⟩ := Option.bind_eq_some_iff.mp h
    obtain ⟨code, description, rfl⟩ := exists_of_failure? hread
    simp_all [FrameBody.tags, FrameBody.place, FrameBody.read?]

/-! ## Spelling frames -/

theorem spells_record {fields : List (String × Value)}
    (h : ∀ field ∈ fields, Spells field.2 field.2.encode) :
    Spells (record fields) (record fields).encode := by
  refine Bencode.spells_dict fun entry hentry => ?_
  obtain ⟨field, hfield, rfl⟩ := List.mem_map.mp hentry
  exact ⟨Bencode.spells_bytes _, h field hfield⟩

theorem spells_textValue (s : String) : Spells (textValue s) (textValue s).encode :=
  Bencode.spells_bytes _

theorem spells_nodes (nodes : List (Bytes × String)) :
    Spells (.list (nodes.map nodeValue)) (Value.list (nodes.map nodeValue)).encode := by
  refine Bencode.spells_list (List.forall_mem_map.mpr fun node _ => ?_)
  refine spells_record ?_
  simp [spells_textValue, Bencode.spells_bytes]

/-- The packet of a frame spells its dictionary if its integers have 64 bits. -/
theorem spells_toValue (f : Frame)
    (h : ∀ n ∈ f.body.number?, Int64.minValue.toInt ≤ n ∧ n ≤ Int64.maxValue.toInt) :
    Spells f.toValue f.toValue.encode := by
  have hint : ∀ n ∈ f.body.number?, Spells (.int n) (Value.int n).encode :=
    fun n hn => Bencode.spells_int (h n hn).1 (h n hn).2
  obtain ⟨t, body⟩ := f
  cases body with
  | getValue id key k =>
    have hk := hint k rfl
    simp [toValue, spells_record, spells_textValue, Bencode.spells_bytes, hk]
  | storeValue id key value =>
    simp [toValue, spells_record, spells_textValue, Bencode.spells_bytes]
  | response id value nodes =>
    cases value <;> cases nodes <;>
      simp [toValue, spells_record, spells_textValue, Bencode.spells_bytes, spells_nodes]
  | failure code description =>
    have hcode := hint code rfl
    have hinfo : Spells (.list [.int code, textValue description]) _ :=
      Bencode.spells_list (by simp [hcode, spells_textValue])
    simp [toValue, spells_record, spells_textValue, Bencode.spells_bytes, hinfo]

/-! ## What a packet holds -/

/-- Whatever is read from a list is read from a member of it. -/
theorem exists_of_mem_mapM {α β : Type} {f : α → Option β} {xs : List α} {ys : List β} {y : β}
    (h : xs.mapM f = some ys) (hy : y ∈ ys) : ∃ x ∈ xs, f x = some y := by
  induction xs generalizing ys with
  | nil =>
    rw [List.mapM_nil] at h
    obtain rfl := Option.some.inj h
    contradiction
  | cons x xs ih =>
    rw [List.mapM_cons] at h
    obtain ⟨z, hz, h⟩ := Option.bind_eq_some_iff.mp h
    obtain ⟨zs, hzs, h⟩ := Option.bind_eq_some_iff.mp h
    obtain rfl := Option.some.inj h
    rcases List.mem_cons.mp hy with rfl | hy
    · exact ⟨x, List.mem_cons_self, hz⟩
    · obtain ⟨x', hx', hread⟩ := ih hzs hy
      exact ⟨x', List.mem_cons_of_mem _ hx', hread⟩

theorem exists_mem_of_keyed? {entries : List (Value × Value)} {entry : Bytes × Value}
    (h : keyed? entries = some es) (hentry : entry ∈ es) : ∃ e ∈ entries, e.2 = entry.2 := by
  obtain ⟨⟨k, v⟩, hmem, hread⟩ := exists_of_mem_mapM h hentry
  cases k with
  | bytes key =>
    obtain rfl := Option.some.inj hread
    exact ⟨_, hmem, rfl⟩
  | _ => contradiction

theorem exists_mem_of_single? {name : String} {v : Value} (h : single? es name = some (some v)) :
    ∃ entry ∈ es, entry.2 = v := by
  unfold single? at h
  split at h
  · simp at h
  · next key u hfilter =>
    obtain rfl : u = v := by simpa using h
    have hmem : (key, u) ∈ es.filter (·.1 == Bytes.ofText name) := by simp [hfilter]
    exact ⟨_, List.mem_of_mem_filter hmem, rfl⟩
  · contradiction

/-- What stands under a name is spelled within the dictionary. -/
theorem exists_spells_of_single? {entries : List (Value × Value)} {name : String} {v : Value}
    {s : Bytes} (h : Spells (.dict entries) s) (hes : keyed? entries = some es)
    (hv : single? es name = some (some v)) : ∃ t, Spells v t := by
  obtain ⟨entry, hentry, rfl⟩ := exists_mem_of_single? hv
  obtain ⟨e, he, heq⟩ := exists_mem_of_keyed? hes hentry
  rw [← heq]
  exact h.of_mem_dict he

theorem exists_spells_of_slots? {names : List String} {v w : Value} {s : Bytes}
    {slots : List (Option Value)} (h : Spells v s) (hslots : slots? names v = some slots)
    (hw : some w ∈ slots) : ∃ t, Spells w t := by
  unfold slots? at hslots
  split at hslots
  · obtain ⟨es, hes, hslots⟩ := Option.bind_eq_some_iff.mp hslots
    obtain ⟨name, -, hname⟩ := exists_of_mem_mapM hslots hw
    exact exists_spells_of_single? h hes hname
  · split at hslots
    · obtain rfl := Option.some.inj hslots
      simp at hw
      exact h.of_mem_list hw
    · contradiction
  · contradiction

theorem le_of_int? {v : Value} {n : Int} {s : Bytes} (h : Spells v s) (hn : int? v = some n) :
    n ≤ Int64.maxValue.toInt := by
  unfold int? at hn
  split at hn
  · obtain rfl := Option.some.inj hn
    exact h.le_of_int
  · contradiction

/-- The integer among the parts of a packet fits into 64 bits. -/
theorem le_of_read? {v : Value} {s : Bytes} (h : Spells v s) (hread : body.read? v = some body) :
    ∀ n ∈ body.number?, n ≤ Int64.maxValue.toInt := by
  intro n hn
  cases body with
  | getValue id key k =>
    obtain rfl := Option.some.inj hn
    simp only [FrameBody.read?, arguments?, ↓reduceIte] at hread
    split at hread
    · next id' key' k' hslots =>
      obtain ⟨t, ht⟩ := exists_spells_of_slots? h hslots (w := k') (by simp)
      simp [Option.bind_eq_some_iff] at hread
      exact le_of_int? ht hread.2.2
    · contradiction
  | storeValue => contradiction
  | response => contradiction
  | failure code description =>
    obtain rfl := Option.some.inj hn
    simp only [FrameBody.read?, failure?] at hread
    split at hread
    · next code' description' =>
      obtain ⟨t, ht⟩ := h.of_mem_list (v := code') (by simp)
      simp [Option.bind_eq_some_iff] at hread
      exact le_of_int? ht hread.1
    · contradiction

theorem le_of_ofValue? {f : Frame} {v : Value} {s : Bytes} (h : Spells v s)
    (hread : ofValue? v = some f) : ∀ n ∈ f.body.number?, n ≤ Int64.maxValue.toInt := by
  unfold ofValue? at hread
  split at hread
  · next entries =>
    obtain ⟨es, hes, hread⟩ := Option.bind_eq_some_iff.mp hread
    split at hread
    · obtain ⟨u, -, hread⟩ := Option.bind_eq_some_iff.mp hread
      obtain ⟨id, -, hread⟩ := Option.bind_eq_some_iff.mp hread
      obtain ⟨body, hbody, hframe⟩ := Option.bind_eq_some_iff.mp hread
      obtain rfl := Option.some.inj hframe
      obtain ⟨v, hv, hread⟩ := Option.bind_eq_some_iff.mp (of_body? hbody).2
      obtain ⟨t, ht⟩ := exists_spells_of_single? h hes (Option.join_eq_some_iff.mp hv)
      exact le_of_read? ht hread
    · contradiction
  · contradiction

end Frame

/-! ## Messages and their frames -/

/-- How many peers a message asks for, if it asks for some. -/
def Message.count? (m : Message) : Option UInt64 :=
  match m.body with
  | .request ⟨_, .getValue ⟨_, k⟩⟩ => some k
  | _ => none

namespace Frame

theorem checkTransactionId_idBytes (n : UInt16) : checkTransactionId (idBytes n) = .ok n := by
  have hjoin : (n >>> 8).toUInt8.toUInt16 * 256 + n.toUInt8.toUInt16 = n := Address.joinOctets_eq n
  rw [idBytes, checkTransactionId, hjoin]

@[simp] theorem checkId_bytes (id : Id) : checkId id.bytes = .ok id := by
  simp [checkId, Error.liftId, Except.mapError]

theorem checkNode_ofPeer (p : Peer) : checkNode (p.id.bytes, toString p.address) = .ok p := by
  simp only [checkNode, Address.parse?_toString, checkId_bytes]
  rfl

theorem mapM_checkNode (peers : List Peer) :
    (peers.map fun p => (p.id.bytes, toString p.address)).mapM checkNode = .ok peers := by
  induction peers with
  | nil => rfl
  | cons p peers ih =>
    rw [List.map_cons, List.mapM_cons, checkNode_ofPeer, ih]
    rfl

theorem toInt_toInt64 (k : UInt64) :
    k.toInt64.toInt = if k.toNat < 2 ^ 63 then (k.toNat : Int) else k.toNat - 2 ^ 64 := by
  have hcond : k.toInt64.toInt =
      if 2 * k.toNat < 2 ^ 64 then (k.toNat : Int) else (k.toNat : Int) - (2 ^ 64 : Nat) :=
    BitVec.toInt_eq_toNat_cond k.toBitVec
  rw [hcond]
  split_ifs <;> omega

/-- A count below 2^63 is written as it is. -/
theorem checkCount_of_lt {k : UInt64} (h : k.toNat < 2 ^ 63) :
    checkCount k.toInt64.toInt = .ok k := by
  rw [toInt_toInt64, if_pos h, checkCount, if_neg (by omega)]
  simp

/-- A larger one is written as a negative number. -/
theorem checkCount_of_le {k : UInt64} (h : 2 ^ 63 ≤ k.toNat) :
    checkCount k.toInt64.toInt = .error (.invalidMessage (.negativeCount (k.toNat - 2 ^ 64))) := by
  have hlt := k.toNat_lt
  rw [toInt_toInt64, if_neg (by omega), checkCount, if_pos (by omega)]

/-- **A message is read back from its frame.** -/
theorem toMessage_ofMessage (m : Message) (h : ∀ k ∈ m.count?, k.toNat < 2 ^ 63) :
    (ofMessage m).toMessage = .ok m := by
  obtain ⟨t, body⟩ := m
  simp only [ofMessage, toMessage, checkTransactionId_idBytes]
  rcases body with ⟨requester, ⟨key, k⟩ | ⟨key, value⟩⟩ |
    ⟨⟨responder, value, nodes⟩ | ⟨responder⟩⟩ | ⟨code, description⟩
  · simp only [checkBody, checkId_bytes, checkCount_of_lt (h k rfl)]
    rfl
  · simp only [checkBody, checkId_bytes]
    rfl
  · simp only [checkBody, checkId_bytes, Option.getD_some, mapM_checkNode]
    rfl
  · simp only [checkBody, checkId_bytes]
    rfl
  · simp only [checkBody, ErrorCode.ofNumber?_number]
    rfl

/-- A message that asks for too many peers is refused. -/
theorem toMessage_ofMessage_of_le {m : Message} {k : UInt64} (hk : m.count? = some k)
    (h : 2 ^ 63 ≤ k.toNat) :
    (ofMessage m).toMessage = .error (.invalidMessage (.negativeCount (k.toNat - 2 ^ 64))) := by
  obtain ⟨t, body⟩ := m
  unfold Message.count? at hk
  split at hk
  · next requester key count hbody =>
    obtain rfl := Option.some.inj hk
    cases hbody
    simp only [ofMessage, toMessage, checkTransactionId_idBytes, checkBody, checkId_bytes,
      checkCount_of_le h]
    rfl
  · contradiction

/-- The integers of a message's frame have 64 bits. -/
theorem number?_ofMessage (m : Message) :
    ∀ n ∈ (ofMessage m).body.number?, Int64.minValue.toInt ≤ n ∧ n ≤ Int64.maxValue.toInt := by
  intro n hn
  obtain ⟨t, body⟩ := m
  rcases body with ⟨requester, ⟨key, k⟩ | ⟨key, value⟩⟩ |
    ⟨⟨responder, value, nodes⟩ | ⟨responder⟩⟩ | ⟨code, description⟩
  · obtain rfl := Option.some.inj hn
    exact ⟨k.toInt64.le_toInt, k.toInt64.toInt_le⟩
  · contradiction
  · contradiction
  · contradiction
  · obtain rfl := Option.some.inj hn
    cases code <;> decide

end Frame
end Kademlia
