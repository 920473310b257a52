import Kademlia.Bencode
import Kademlia.Error

/-!
# Kademlia.Message.Wire

The packet of a message: a bencoded dictionary.  At the top stand `t` (the
transaction id in two bytes) and `y` (the kind of message), and then

* for a request (`q`): `q` (the method) and `a` (`id`, `key` and `k` or `v`);
* for a response (`r`): `r` (`id`, perhaps `v`, perhaps `nodes`);
* for a failure (`e`): `e` (the code and the description).

A packet is read in two steps.  `Frame.ofValue?` takes the parts out of the
dictionary: keys may come in any order, and unknown ones are ignored, but a
part may not come twice, and the arguments may also stand in a list, in the
order of their names.  `Frame.toMessage` then checks the parts.
-/

namespace Kademlia

open Bencode (Value)

/-! ## Frames -/

/-- The parts of a message other than its transaction id, not checked. -/
inductive FrameBody where
  | getValue (id key : Bytes) (k : Int)
  | storeValue (id key value : Bytes)
  | response (id : Bytes) (value : Option Bytes) (nodes : Option (List (Bytes × String)))
  | failure (code : Int) (description : String)
  deriving DecidableEq, Repr

/-- A message as it stands in a packet: its parts, not checked. -/
structure Frame where
  transactionId : Bytes
  body : FrameBody
  deriving DecidableEq, Repr

namespace Frame

/-! ## Writing frames -/

/-- A dictionary with texts for keys. -/
def record (fields : List (String × Value)) : Value :=
  .dict (fields.map fun (name, v) => (.bytes (Bytes.ofText name), v))

/-- A text as a byte string. -/
def textValue (s : String) : Value := .bytes (Bytes.ofText s)

/-- A peer in a list of nodes: its address and its id. -/
def nodeValue (node : Bytes × String) : Value :=
  record [("a", textValue node.2), ("id", .bytes node.1)]

/-- The dictionary of a frame; the keys of every dictionary in it are sorted. -/
def toValue (f : Frame) : Value :=
  let transactionId := ("t", Value.bytes f.transactionId)
  match f.body with
  | .getValue id key k =>
    record [("a", record [("id", .bytes id), ("k", .int k), ("key", .bytes key)]),
      ("q", textValue "get_value"), transactionId, ("y", textValue "q")]
  | .storeValue id key value =>
    record [("a", record [("id", .bytes id), ("key", .bytes key), ("v", .bytes value)]),
      ("q", textValue "store_value"), transactionId, ("y", textValue "q")]
  | .response id value nodes =>
    let nodes := nodes.toList.map fun ns => ("nodes", Value.list (ns.map nodeValue))
    let value := value.toList.map fun v => ("v", Value.bytes v)
    record [("r", record (("id", .bytes id) :: nodes ++ value)), transactionId,
      ("y", textValue "r")]
  | .failure code description =>
    record [("e", .list [.int code, textValue description]), transactionId,
      ("y", textValue "e")]

/-! ## Reading frames -/

/-- The entries of a dictionary whose keys are all byte strings. -/
def keyed? (entries : List (Value × Value)) : Option (List (Bytes × Value)) :=
  entries.mapM fun
    | (.bytes key, v) => some (key, v)
    | _ => none

/-- What stands under a name: `none` if it comes twice, `some none` if it is missing. -/
def single? (entries : List (Bytes × Value)) (name : String) : Option (Option Value) :=
  match entries.filter (·.1 == Bytes.ofText name) with
  | [] => some none
  | [(_, v)] => some (some v)
  | _ => none

/-- The named parts of a dictionary, or of a list that gives them in the
order of `names`, where the last ones may be left out. -/
def slots? (names : List String) : Value → Option (List (Option Value))
  | .dict entries => (keyed? entries).bind fun entries => names.mapM (single? entries)
  | .list vs =>
    if vs.length ≤ names.length then
      some (vs.map some ++ List.replicate (names.length - vs.length) none)
    else none
  | _ => none

/-- An integer. -/
def int? : Value → Option Int
  | .int n => some n
  | _ => none

/-- A number of 0 to 255. -/
def byte? : Value → Option UInt8
  | .int n => if 0 ≤ n ∧ n < 256 then some n.toNat.toUInt8 else none
  | _ => none

/-- A byte string, or a list of its bytes. -/
def bytes? : Value → Option Bytes
  | .bytes bs => some bs
  | .list vs => vs.mapM byte?
  | _ => none

/-- A byte string in UTF-8. -/
def text? : Value → Option String
  | .bytes bs => bs.text?
  | _ => none

/-- A peer in a list of nodes. -/
def node? (v : Value) : Option (Bytes × String) :=
  match slots? ["id", "a"] v with
  | some [some id, some address] => return (← bytes? id, ← text? address)
  | _ => none

/-- A list of peers. -/
def nodes? : Value → Option (List (Bytes × String))
  | .list vs => vs.mapM node?
  | _ => none

/-- The arguments of a request of each method. -/
def arguments? (method : String) (v : Value) : Option FrameBody :=
  if method = "get_value" then
    match slots? ["id", "key", "k"] v with
    | some [some id, some key, some k] => return .getValue (← bytes? id) (← bytes? key) (← int? k)
    | _ => none
  else if method = "store_value" then
    match slots? ["id", "key", "v"] v with
    | some [some id, some key, some value] =>
      return .storeValue (← bytes? id) (← bytes? key) (← bytes? value)
    | _ => none
  else none

/-- A part that may be missing. -/
def optional? {α : Type} (read : Value → Option α) : Option Value → Option (Option α)
  | none => some none
  | some v => (read v).map some

/-- The parts of a response. -/
def response? (v : Value) : Option FrameBody :=
  match slots? ["id", "v", "nodes"] v with
  | some [some id, value, nodes] =>
    return .response (← bytes? id) (← optional? bytes? value) (← optional? nodes? nodes)
  | _ => none

/-- The parts of a failure. -/
def failure? : Value → Option FrameBody
  | .list [code, description] => return .failure (← int? code) (← text? description)
  | _ => none

/-- A part that may not be missing. -/
def required? (entries : List (Bytes × Value)) (name : String) : Option Value :=
  (single? entries name).join

/-- The parts that go with each kind of message. -/
def body? (entries : List (Bytes × Value)) : Option FrameBody := do
  let kind ← text? (← required? entries "y")
  if kind = "q" then
    let method ← text? (← required? entries "q")
    arguments? method (← required? entries "a")
  else if kind = "r" then response? (← required? entries "r")
  else if kind = "e" then failure? (← required? entries "e")
  else none

/-- The parts of a packet: a dictionary with texts for keys. -/
def ofValue? : Value → Option Frame
  | .dict entries => do
    let entries ← keyed? entries
    if entries.all fun entry => entry.1.text?.isSome then
      let transactionId ← bytes? (← required? entries "t")
      return ⟨transactionId, ← body? entries⟩
    else none
  | _ => none

/-! ## Frames and messages -/

/-- The two bytes of a transaction id, the most significant first. -/
def idBytes (n : UInt16) : Bytes := [(n >>> 8).toUInt8, n.toUInt8]

/-- The parts of a message.  Counts are written as signed numbers of 64 bits. -/
def ofMessage (m : Message) : Frame where
  transactionId := idBytes m.transactionId
  body :=
    match m.body with
    | .request ⟨requester, .getValue ⟨key, k⟩⟩ =>
      .getValue requester.bytes key.bytes k.toInt64.toInt
    | .request ⟨requester, .storeValue ⟨key, value⟩⟩ =>
      .storeValue requester.bytes key.bytes value
    | .answer (.response (.getValue ⟨responder, value, nodes⟩)) =>
      .response responder.bytes value (some (nodes.map fun p => (p.id.bytes, toString p.address)))
    | .answer (.response (.storeValue ⟨responder⟩)) => .response responder.bytes none none
    | .answer (.failure ⟨code, description⟩) => .failure code.number description

/-- A transaction id has two bytes. -/
def checkTransactionId : Bytes → Except Error UInt16
  | [high, low] => .ok (high.toUInt16 * 256 + low.toUInt16)
  | bs => .error (.invalidMessage (.transactionIdLength bs.length))

/-- An id is not empty. -/
def checkId (bs : Bytes) : Except Error Id := Error.liftId (Id.ofBytes bs)

/-- A count is not negative. -/
def checkCount (k : Int) : Except Error UInt64 :=
  if k < 0 then .error (.invalidMessage (.negativeCount k)) else .ok k.toNat.toUInt64

/-- A node has an address and an id that is not empty. -/
def checkNode (node : Bytes × String) : Except Error Peer :=
  match Address.parse? node.2 with
  | none => .error (.invalidMessage (.nodeAddress node.2))
  | some address => do return ⟨← checkId node.1, address⟩

/-- Checks the parts of a body.  A response with neither value nor nodes
acknowledges a store, and an unknown error code counts as the generic one. -/
def checkBody : FrameBody → Except Error Body
  | .getValue id key k => do
    let requester ← checkId id
    let key ← checkId key
    return .request ⟨requester, .getValue ⟨key, ← checkCount k⟩⟩
  | .storeValue id key value => do
    let requester ← checkId id
    return .request ⟨requester, .storeValue ⟨← checkId key, value⟩⟩
  | .response id none none => do return .answer (.response (.storeValue ⟨← checkId id⟩))
  | .response id value nodes => do
    let responder ← checkId id
    let nodes ← (nodes.getD []).mapM checkNode
    return .answer (.response (.getValue ⟨responder, value, nodes⟩))
  | .failure code description =>
    .ok (.answer (.failure ⟨(ErrorCode.ofNumber? code).getD .generic, description⟩))

/-- Checks the parts of a message, the transaction id before the others. -/
def toMessage (f : Frame) : Except Error Message := do
  let transactionId ← checkTransactionId f.transactionId
  return ⟨transactionId, ← checkBody f.body⟩

end Frame

namespace Message

/-- The packet of a message. -/
def encode (m : Message) : Bytes := (Frame.ofMessage m).toValue.encode

/-- Reads a packet; what follows the first bencoded value is ignored. -/
def decode (packet : Bytes) : Except Error Message :=
  match Value.decodePrefix? packet with
  | none => .error .malformed
  | some (v, _) =>
    match Frame.ofValue? v with
    | none => .error .malformed
    | some f => f.toMessage

end Message
end Kademlia
