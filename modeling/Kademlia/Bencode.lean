import Kademlia.Bytes

/-!
# Kademlia.Bencode

Bencoded values: integers `i5e`, byte strings `3:abc`, lists `l…e` and
dictionaries `d…e`, whose keys and values alternate.

* `Value.encode` writes a value.
* `Value.decodePrefix?` reads one value from the front of a byte string and
  returns the rest; what follows is never looked at.
-/

namespace Kademlia.Bencode

/-- A bencoded value.  A dictionary keeps its entries as they stand, whatever
their order and their keys. -/
inductive Value where
  | int (n : Int)
  | bytes (bs : Bytes)
  | list (items : List Value)
  | dict (entries : List (Value × Value))
  deriving BEq, Repr, Inhabited

/-! ## Writing -/

/-- The decimal digits of a number, as ASCII codes. -/
def decimal (n : Nat) : Bytes := Bytes.ofText (toString n)

/-- The decimal digits of an integer behind a minus sign if it is negative. -/
def signedDecimal : Int → Bytes
  | .ofNat n => decimal n
  | .negSucc n => 45 :: decimal (n + 1)

mutual

/-- The bencoded form of a value. -/
def Value.encode : Value → Bytes
  | .int n => 105 :: signedDecimal n ++ [101]
  | .bytes bs => decimal bs.length ++ 58 :: bs
  | .list items => 108 :: encodeItems items ++ [101]
  | .dict entries => 100 :: encodeEntries entries ++ [101]

/-- One value after the other. -/
def encodeItems : List Value → Bytes
  | [] => []
  | v :: vs => v.encode ++ encodeItems vs

/-- One entry after the other, the key before the value. -/
def encodeEntries : List (Value × Value) → Bytes
  | [] => []
  | (k, v) :: rest => k.encode ++ v.encode ++ encodeEntries rest

end

/-! ## Reading numbers and strings -/

/-- Whether an ASCII code is a decimal digit. -/
def isDigit (c : UInt8) : Bool := 48 ≤ c && c ≤ 57

/-- The number that decimal digits spell. -/
def digitsToNat (ds : Bytes) : Nat := ds.foldl (fun n d => 10 * n + (d.toNat - 48)) 0

/-- One or more decimal digits as a number. -/
def unsigned? (ds : Bytes) : Option Nat :=
  if ds.isEmpty || !ds.all isDigit then none else some (digitsToNat ds)

/-- Decimal digits behind one sign or none, as an integer of 64 bits. -/
def signed64? (text : Bytes) : Option Int :=
  let n? : Option Int :=
    match text with
    | 45 :: ds => (unsigned? ds).map fun n => -(n : Int)
    | 43 :: ds => (unsigned? ds).map fun n => (n : Int)
    | ds => (unsigned? ds).map fun n => (n : Int)
  n?.filter fun n => Int64.minValue.toInt ≤ n && n ≤ Int64.maxValue.toInt

/-- Reads the rest of an integer: its digits up to the closing `e`. -/
def readInt (s : Bytes) : Option (Int × Bytes) :=
  let text := s.takeWhile (· != 101)
  match s.drop text.length with
  | [] => none
  | _ :: rest => (signed64? text).map (·, rest)

/-- Reads a byte string: its length, a colon and as many bytes. -/
def readBytes (s : Bytes) : Option (Bytes × Bytes) :=
  let digits := s.takeWhile isDigit
  match s.drop digits.length with
  | 58 :: rest =>
    (unsigned? digits).bind fun n =>
      let bs := rest.take n
      if bs.length = n then some (bs, rest.drop n) else none
  | _ => none

/-! ## Reading values -/

/-- Values two by two, as keys and values; there must be as many of both. -/
def pairUp : List Value → Option (List (Value × Value))
  | [] => some []
  | [_] => none
  | k :: v :: rest => (pairUp rest).map ((k, v) :: ·)

mutual

/-- Reads a value.  The depth of the recursion is bounded by `fuel`; no value
needs more of it than it has bytes. -/
def readValue : Nat → Bytes → Option (Value × Bytes)
  | 0, _ => none
  | _ + 1, [] => none
  | fuel + 1, c :: s =>
    if c = 105 then (readInt s).map fun (n, rest) => (.int n, rest)
    else if c = 108 then (readItems fuel s).map fun (vs, rest) => (.list vs, rest)
    else if c = 100 then
      (readItems fuel s).bind fun (vs, rest) =>
        (pairUp vs).map fun entries => (.dict entries, rest)
    else if isDigit c then (readBytes (c :: s)).map fun (bs, rest) => (.bytes bs, rest)
    else none

/-- Reads values up to and with the closing `e`. -/
def readItems : Nat → Bytes → Option (List Value × Bytes)
  | 0, _ => none
  | _ + 1, [] => none
  | fuel + 1, c :: s =>
    if c = 101 then some ([], s)
    else
      (readValue fuel (c :: s)).bind fun (v, rest) =>
        (readItems fuel rest).map fun (vs, rest) => (v :: vs, rest)

end

/-- Reads one value from the front of a byte string; returns it and the rest. -/
def Value.decodePrefix? (s : Bytes) : Option (Value × Bytes) := readValue s.length s

end Kademlia.Bencode
