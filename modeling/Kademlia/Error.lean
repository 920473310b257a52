import Kademlia.Message.Text

/-!
# Kademlia.Error

What can go wrong, by cause, and what is told to the user about it.  The
wording stands in one `message` function for each type of error.
-/

namespace Kademlia

/-! ## Errors of a single request -/

/-- Why an answer does not fit its request. -/
inductive InvalidResponse where
  /-- It comes from another node than the one asked. -/
  | wrongResponder (expected got : Id)
  /-- It lists a peer of another overlay. -/
  | wrongPeerLength (length expected : Nat)
  /-- It answers a query of the other kind; `method` names the one sent. -/
  | unexpected (method : String) (response : Response)
  /-- Any other reason, in words. -/
  | described (text : String)
  deriving DecidableEq

def InvalidResponse.message : InvalidResponse → String
  | .wrongResponder expected got => s!"expected responder id {expected}, got {got}"
  | .wrongPeerLength length expected =>
    s!"returned peer id of length {length}, expected {expected}"
  | .unexpected method response => s!"unexpected response to {method}: {response.debugText}"
  | .described text => text

/-- Why a request to a peer failed. -/
inductive RpcError where
  /-- It could not be sent, or no answer came in time. -/
  | unreachable
  /-- The answer does not fit the request. -/
  | invalidResponse (cause : InvalidResponse)
  /-- The peer answered with a failure. -/
  | remote (code : ErrorCode)
  /-- The local node is shut down. -/
  | shutdown
  deriving DecidableEq

namespace RpcError

def message : RpcError → String
  | .unreachable => "Peer is unreachable"
  | .invalidResponse cause => s!"Invalid response: {cause.message}"
  | .remote code => s!"Peer responded with error {code}"
  | .shutdown => "Rpc was shut down"

/-- Whether the error disqualifies only the peer that caused it, so that a
lookup goes on with the others. -/
def isExpected : RpcError → Bool
  | .unreachable | .invalidResponse _ => true
  | .remote .generic => false
  | .remote _ => true
  | .shutdown => false

/-- Whether the error counts as one replica less while storing; any other
one ends the storing. -/
def isStoreFailure : RpcError → Bool
  | .unreachable | .invalidResponse _ => true
  | .remote _ | .shutdown => false

end RpcError

/-- A failed request and the peer it went to. -/
structure PeerError where
  peer : Peer
  error : RpcError
  deriving DecidableEq

instance : ToString PeerError := ⟨fun e => s!"{e.peer}: {e.error.message}"⟩

/-- Errors of several peers, in the order they arose. -/
def PeerError.listText (errors : List PeerError) : String :=
  ", ".intercalate (errors.map toString)

/-! ## Errors of messages -/

/-- What is wrong with a message whose structure is right. -/
inductive MessageError where
  | transactionIdLength (length : Nat)
  | negativeCount (k : Int)
  | nodeAddress (text : String)
  | unknownErrorCode (code : Int)
  /-- Any other reason, in words. -/
  | described (text : String)
  deriving DecidableEq

def MessageError.message : MessageError → String
  | .transactionIdLength length => s!"Invalid transaction id length: {length}"
  | .negativeCount k => s!"Invalid k: {k}"
  | .nodeAddress text => s!"Invalid node address: {text}"
  | .unknownErrorCode code => s!"Unknown error code {code}"
  | .described text => text

/-! ## Errors of operations -/

/-- A configuration that makes an operation impossible. -/
inductive ConfigError where
  | noWorkers
  | otherPeerStoreId
  | noBucketSpace
  | noStores
  deriving DecidableEq, Repr

def ConfigError.message : ConfigError → String
  | .noWorkers => "number of workers must be larger than 0"
  | .otherPeerStoreId => "peer store local id doesn't match the configured id"
  | .noBucketSpace => "bucket size must be larger than 0"
  | .noStores => "max_num_stores must be larger than 0"

/-- A storage that could not read or write, and its reason. -/
structure StorageError where
  reason : String
  deriving DecidableEq, Repr

/-- Why a value was not set. -/
inductive SettingFailure where
  /-- The lookup found too few peers to store at. -/
  | notEnoughStorers (found required : Nat)
  /-- Too few of the peers acknowledged the value. -/
  | notEnoughReplicas (stored required : Nat)
  deriving DecidableEq, Repr

def SettingFailure.message : SettingFailure → String
  | .notEnoughStorers found required =>
    s!"unable to find the minimum amount of storers ({required}) in the network, found {found}"
  | .notEnoughReplicas stored required =>
    s!"value was stored at {stored} peers, less than the minimum ({required})"

/-- Why an operation failed. -/
inductive Error where
  /-- Ids could not be made or compared. -/
  | id (cause : IdError)
  /-- The bucket of a new peer is full. -/
  | noSpace
  | invalidConfig (cause : ConfigError)
  /-- Nobody had the value; the errors are those of peers that could not be asked. -/
  | notFound (errors : List PeerError)
  /-- The key has a value already. -/
  | alreadySet
  | settingFailed (reason : SettingFailure) (errors : List PeerError)
  /-- A request failed in a way that ends the whole operation. -/
  | rpc (cause : RpcError)
  /-- The local node could not answer itself. -/
  | server (code : ErrorCode)
  | storage (cause : StorageError)
  /-- The system refused to send, or to open a socket. -/
  | io
  /-- A packet does not have the structure of a message. -/
  | malformed
  | invalidMessage (cause : MessageError)
  /-- The operation ended without a result. -/
  | interrupted
  deriving DecidableEq

/-- What is told to the user; the texts for `io` and `malformed` are not ours. -/
def Error.message? : Error → Option String
  | .id cause => some cause.message
  | .noSpace => some "No space left in the k-bucket to store the peer"
  | .invalidConfig cause => some s!"Invalid configuration: {cause.message}"
  | .notFound errors =>
    some s!"Value not found, errors contacting peers: [{PeerError.listText errors}]"
  | .alreadySet => some "A value with this key is already set in the DHT"
  | .settingFailed reason errors =>
    some s!"Failed to set value: {reason.message}, errors: [{PeerError.listText errors}]"
  | .rpc cause => some cause.message
  | .server code => some s!"Local request handling failed: {code}"
  | .storage cause => some s!"Storage failure: {cause.reason}"
  | .io | .malformed => none
  | .invalidMessage cause => some s!"Invalid message: {cause.message}"
  | .interrupted => some "Operation was interrupted before producing a result"

/-- An error about ids as an error of the operation that met it. -/
def Error.liftId {α : Type} (result : Except IdError α) : Except Error α :=
  result.mapError Error.id

/-- An operation of two steps that succeeds has succeeded in both. -/
theorem Except.exists_of_bind_eq_ok {ε α β : Type} {x : Except ε α} {f : α → Except ε β} {b : β}
    (h : x.bind f = .ok b) : ∃ a, x = .ok a ∧ f a = .ok b := by
  cases x with
  | error e => contradiction
  | ok a => exact ⟨a, rfl, h⟩

end Kademlia
