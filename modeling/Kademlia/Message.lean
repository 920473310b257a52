import Kademlia.Peer

/-!
# Kademlia.Message

The messages that nodes exchange.  A request asks for the value of a key (or
the peers closest to it), or asks to store one; it is answered by a response
of its kind or by a failure with an error code.  The transaction id ties an
answer to its request.
-/

namespace Kademlia

/-! ## Failures -/

/-- What went wrong at the answering node. -/
inductive ErrorCode where
  | generic
  | internalServerError
  | invalidRequest
  | methodUnknown
  deriving DecidableEq, Repr

namespace ErrorCode

/-- The number that is sent. -/
def number : ErrorCode → Int
  | .generic => 201
  | .internalServerError => 202
  | .invalidRequest => 203
  | .methodUnknown => 204

/-- The code with a number. -/
def ofNumber? (n : Int) : Option ErrorCode :=
  [generic, internalServerError, invalidRequest, methodUnknown].find? (·.number == n)

/-- The name of the failure. -/
def title : ErrorCode → String
  | .generic => "Generic Error"
  | .internalServerError => "Internal Server Error"
  | .invalidRequest => "Invalid Request"
  | .methodUnknown => "Method Unknown"

instance : ToString ErrorCode := ⟨fun c => s!"{c.number} {c.title}"⟩

/-- Every code is found by its number. -/
@[simp] theorem ofNumber?_number (c : ErrorCode) : ofNumber? c.number = some c := by
  cases c <;> rfl

end ErrorCode

/-- The body of an answer that reports a failure. -/
structure Failure where
  code : ErrorCode
  description : String
  deriving DecidableEq, Repr

/-- The failure that a node reports for a code: the description is the text of the code. -/
def Failure.ofCode (code : ErrorCode) : Failure := ⟨code, toString code⟩

/-! ## Requests -/

/-- Asks for the value of `key`, or the `k` known peers closest to it. -/
structure GetRequest where
  key : Id
  k : UInt64
  deriving DecidableEq

/-- Asks to keep `value` under `key`. -/
structure StoreRequest where
  key : Id
  value : Bytes
  deriving DecidableEq

/-- What is asked for. -/
inductive Query where
  | getValue (request : GetRequest)
  | storeValue (request : StoreRequest)
  deriving DecidableEq

/-- A query together with the id of the node that asks. -/
structure Request where
  requester : Id
  query : Query
  deriving DecidableEq

/-! ## Responses -/

/-- Carries the value, or else the known peers closest to the key. -/
structure GetReply where
  responder : Id
  value : Option Bytes
  nodes : List Peer
  deriving DecidableEq

/-- Acknowledges that the value is kept. -/
structure StoreReply where
  responder : Id
  deriving DecidableEq

/-- The answer to a query of the same kind. -/
inductive Response where
  | getValue (reply : GetReply)
  | storeValue (reply : StoreReply)
  deriving DecidableEq

/-- The id of the node that answers. -/
def Response.responder : Response → Id
  | .getValue reply => reply.responder
  | .storeValue reply => reply.responder

/-- What a node answers to a request. -/
inductive Answer where
  | response (response : Response)
  | failure (failure : Failure)
  deriving DecidableEq

/-- A response, or the failure that an error code describes. -/
def Answer.ofResult : Except ErrorCode Response → Answer
  | .ok r => .response r
  | .error code => .failure (.ofCode code)

/-! ## Messages -/

/-- What a message says. -/
inductive Body where
  | request (request : Request)
  | answer (answer : Answer)
  deriving DecidableEq

/-- A body under the transaction id of the exchange it belongs to. -/
structure Message where
  transactionId : UInt16
  body : Body
  deriving DecidableEq

/-- The id of the node that sent the message; a failure does not tell it. -/
def Message.author? (m : Message) : Option Id :=
  match m.body with
  | .request request => some request.requester
  | .answer (.response response) => some response.responder
  | .answer (.failure _) => none

end Kademlia
