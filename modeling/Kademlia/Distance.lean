import Kademlia.Id

/-!
# Kademlia.Distance

The distance between two ids: their exclusive or, read as a number with the
most significant byte first.  Distances of any lengths are ordered by that
number.  Beside it stands the number of leading bits that two ids share,
which places a peer in a routing table.
-/

namespace Kademlia

/-- The exclusive or of two ids of one length. -/
structure Distance where
  bytes : Bytes
  deriving Repr

namespace Distance

/-- The number that the distance stands for. -/
def toNat (d : Distance) : Nat := d.bytes.toNat

/-- Whether the two ids are equal. -/
def isZero (d : Distance) : Bool := d.bytes.all (· == 0)

/-- The bytes from the first one that is not zero. -/
def significant (d : Distance) : Bytes := d.bytes.dropWhile (· == 0)

/-- Numbers without leading zeros are ordered by length, and those of one
length by their first difference. -/
protected def compare (x y : Distance) : Ordering :=
  (compare x.significant.length y.significant.length).then
    (compare x.significant y.significant)

instance : Ord Distance := ⟨Distance.compare⟩

instance : BEq Distance := ⟨fun x y => x.compare y == .eq⟩

/-- Whether `x` is strictly the smaller. -/
def closer (x y : Distance) : Bool := x.compare y == .lt

/-- The form of a distance inside a larger value. -/
def debugText (d : Distance) : String := s!"Distance({Hex.encode d.bytes})"

end Distance

namespace Id

/-- Ids are ordered by their bytes: the first difference decides, and a
shorter id comes before its continuations. -/
instance : Ord Id := ⟨fun a b => compare a.bytes b.bytes⟩

/-- Refuses two ids of different lengths; the first one's is the expected one. -/
def checkLength (a b : Id) : Except IdError Unit :=
  if a.length = b.length then .ok () else .error (.lengthMismatch a.length b.length)

/-- The distance between two ids of one length. -/
def distance (a b : Id) : Except IdError Distance := do
  a.checkLength b
  return ⟨List.zipWith (· ^^^ ·) a.bytes b.bytes⟩

/-- The number of leading bits that two byte strings share. -/
def sharedBits : Bytes → Bytes → Nat
  | a :: as, b :: bs =>
    if a = b then 8 + sharedBits as bs else (a ^^^ b).toBitVec.clz.toNat
  | _, _ => 0

/-- The number of leading bits that two ids of one length share; equal ids
share all of theirs. -/
def commonPrefixLength (a b : Id) : Except IdError Nat := do
  a.checkLength b
  return sharedBits a.bytes b.bytes

end Id
end Kademlia
