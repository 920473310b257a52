import Kademlia.Message

/-!
# Kademlia.Message.Text

The text of a response inside an error message: every part under its name,
and the bytes of a value quoted, with those outside printable ASCII escaped.
-/

namespace Kademlia

/-- A byte inside quotes. -/
def quoteByte (b : UInt8) : String :=
  if b = 10 then "\\n"
  else if b = 13 then "\\r"
  else if b = 9 then "\\t"
  else if b = 92 then "\\\\"
  else if b = 34 then "\\\""
  else if b = 0 then "\\0"
  else if 32 ≤ b ∧ b < 127 then String.singleton (Char.ofNat b.toNat)
  else "\\x" ++ Hex.encode [b]

/-- Bytes in quotes. -/
def quoteBytes (bs : Bytes) : String := "b\"" ++ String.join (bs.map quoteByte) ++ "\""

/-- Named parts in braces. -/
def recordText (name : String) (fields : List (String × String)) : String :=
  name ++ " \x7b " ++ ", ".intercalate (fields.map fun (field, text) => field ++ ": " ++ text)
    ++ " \x7d"

namespace Peer

/-- The id and the address of a peer, each under its name. -/
def debugText (p : Peer) : String :=
  recordText "Peer" [("id", p.id.debugText), ("address", toString p.address)]

end Peer

namespace Response

/-- Bytes that may be missing. -/
def optionalBytesText : Option Bytes → String
  | none => "None"
  | some bs => "Some(" ++ quoteBytes bs ++ ")"

/-- The kind of a response and all it carries. -/
def debugText : Response → String
  | .getValue reply =>
    "Response(GetValue(" ++ recordText "GetValueResponseArguments"
      [("responder_id", reply.responder.debugText),
       ("value", optionalBytesText reply.value),
       ("nodes", "[" ++ ", ".intercalate (reply.nodes.map Peer.debugText) ++ "]")] ++ "))"
  | .storeValue reply =>
    "Response(StoreValue(" ++ recordText "StoreValueResponseArguments"
      [("responder_id", reply.responder.debugText)] ++ "))"

end Response
end Kademlia
