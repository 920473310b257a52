import Kademlia.Error

/-!
# Kademlia.Transport

How the requests of one node reach others.  A transport acts on a state of any
type, which holds at least what an answer depends on: the servers of a network
in memory, sockets, or whatever an arbitrary peer may remember.
-/

namespace Kademlia

/-- The requests that one node can send.  Each goes to an address and comes
back with a reply or an error; the transport tells the receiver who asks. -/
structure Transport (σ : Type) where
  getValue : Address → GetRequest → σ → Except RpcError GetReply × σ
  storeValue : Address → StoreRequest → σ → Except RpcError StoreReply × σ

/-- A request that was sent, and what came of it. -/
inductive Exchange where
  | get (target : Address) (request : GetRequest) (outcome : Except RpcError GetReply)
  | store (target : Address) (request : StoreRequest) (outcome : Except RpcError StoreReply)

namespace Transport

/-- A transport that also writes down every exchange, in order. -/
def recorded {σ : Type} (t : Transport σ) : Transport (σ × List Exchange) where
  getValue target request := fun (s, log) =>
    let (outcome, s) := t.getValue target request s
    (outcome, s, log ++ [.get target request outcome])
  storeValue target request := fun (s, log) =>
    let (outcome, s) := t.storeValue target request s
    (outcome, s, log ++ [.store target request outcome])

end Transport

namespace Answer

/-- The reply to a question for a value; an answer of the other kind is invalid. -/
def getReply : Answer → Except RpcError GetReply
  | .response (.getValue reply) => .ok reply
  | .response other => .error (.invalidResponse (.unexpected "get_value" other))
  | .failure f => .error (.remote f.code)

/-- The acknowledgement of a store; an answer of the other kind is invalid. -/
def storeReply : Answer → Except RpcError StoreReply
  | .response (.storeValue reply) => .ok reply
  | .response other => .error (.invalidResponse (.unexpected "store_value" other))
  | .failure f => .error (.remote f.code)

end Answer
end Kademlia
