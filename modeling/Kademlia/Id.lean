import Kademlia.Hex
import Kademlia.Sha1

/-!
# Kademlia.Id

Node ids and lookup keys: byte strings that are not empty.  All ids of one
overlay have one length, but that length is a matter of the overlay, so every
operation that compares two ids reports a difference in length as an error.
-/

namespace Kademlia

/-- Why ids could not be made or compared. -/
inductive IdError where
  /-- Two ids of different lengths were compared. -/
  | lengthMismatch (expected actual : Nat)
  /-- An id cannot have this many bytes. -/
  | invalidSize (size : Nat)
  /-- The text is not hexadecimal. -/
  | invalidEncoding (text : String)
  deriving DecidableEq, Repr

/-- What is told to the user. -/
def IdError.message : IdError → String
  | .lengthMismatch expected actual =>
    s!"Id length mismatch: expected {expected} bytes, got {actual}"
  | .invalidSize size => s!"Invalid Id size: {size}"
  | .invalidEncoding text => s!"Invalid Id encoding: {text}"

/-- A node id or a lookup key. -/
structure Id where
  bytes : Bytes
  ne_nil : bytes ≠ []
  deriving DecidableEq

namespace Id

/-- The length in bytes. -/
def length (id : Id) : Nat := id.bytes.length

@[ext] theorem ext {a b : Id} (h : a.bytes = b.bytes) : a = b := by
  cases a; cases b; cases h; rfl

/-! ## Making ids -/

/-- One byte is enough for an id. -/
theorem singleton_ne_nil (byte : UInt8) : [byte] ≠ [] := by simp

/-- The id with these bytes; there is none of no bytes. -/
def ofBytes (bs : Bytes) : Except IdError Id :=
  if h : bs = [] then .error (.invalidSize 0) else .ok ⟨bs, h⟩

@[simp] theorem ofBytes_bytes (id : Id) : ofBytes id.bytes = .ok id := by
  simp [ofBytes, id.ne_nil]

/-- The content-addressed key of a value: its digest. -/
def ofValue (value : Bytes) : Id :=
  ⟨Sha1.digest value, List.ne_nil_of_length_pos (by simp)⟩

@[simp] theorem length_ofValue (value : Bytes) : (ofValue value).length = 20 := by
  simp [ofValue, length]

/-- The number of bytes of a random id. -/
def randomSize : Nat := 20

/-- Draws `n` bytes. -/
def randomBytes {γ : Type} [RandomGen γ] : Nat → γ → Bytes × γ
  | 0, g => ([], g)
  | n + 1, g =>
    let (b, g) := randNat g 0 255
    let (bs, g) := randomBytes n g
    (b.toUInt8 :: bs, g)

theorem length_randomBytes {γ : Type} [RandomGen γ] (n : Nat) (g : γ) :
    (randomBytes n g).1.length = n := by
  induction n generalizing g with
  | zero => rfl
  | succ n ih => simp [randomBytes, ih]

/-- An id of `randomSize` bytes drawn from a generator. -/
def random {γ : Type} [RandomGen γ] (g : γ) : Id × γ :=
  let drawn := randomBytes randomSize g
  (⟨drawn.1, List.ne_nil_of_length_pos (by simp [drawn, length_randomBytes, randomSize])⟩, drawn.2)

/-! ## Text -/

/-- Two lower-case digits a byte. -/
protected def toString (id : Id) : String := Hex.encode id.bytes

instance : ToString Id := ⟨Id.toString⟩

/-- The form of an id inside a larger value. -/
def debugText (id : Id) : String := s!"Id({id})"

/-- Reads the text of an id: hexadecimal, and not empty. -/
def parse (text : String) : Except IdError Id :=
  match Hex.decode? (Bytes.ofText text) with
  | none => .error (.invalidEncoding text)
  | some bs => ofBytes bs

end Id
end Kademlia
