import Kademlia.Bytes

/-!
# Kademlia.Hex

Hexadecimal text of byte strings: two digits a byte.  Writing uses lower-case
digits; reading accepts either case and takes a plus sign in the place of a
leading zero digit.
-/

namespace Kademlia.Hex

/-! ## Writing -/

/-- The lower-case digit of a value below 16. -/
def digit (n : UInt8) : Char :=
  Char.ofNat (if n < 10 then 48 + n.toNat else 87 + n.toNat)

/-- The two digits of a byte. -/
def encodeByte (b : UInt8) : List Char := [digit (b / 16), digit (b % 16)]

/-- Two lower-case digits a byte, in order. -/
def encode (bs : Bytes) : String := String.ofList (bs.flatMap encodeByte)

/-! ## Reading -/

/-- The value of a digit in either case, given by its ASCII code. -/
def value? (c : UInt8) : Option UInt8 :=
  if 48 ≤ c ∧ c ≤ 57 then some (c - 48)
  else if 97 ≤ c ∧ c ≤ 102 then some (c - 87)
  else if 65 ≤ c ∧ c ≤ 70 then some (c - 55)
  else none

/-- The byte that two characters spell: two digits, or a plus sign (code 43)
and one digit. -/
def decodeByte? (hi lo : UInt8) : Option UInt8 :=
  match value? lo with
  | none => none
  | some l => if hi = 43 then some l else (value? hi).map (16 * · + l)

/-- Reads text, given by its UTF-8 bytes, two characters a byte. -/
def decode? : Bytes → Option Bytes
  | [] => some []
  | [_] => none
  | hi :: lo :: rest =>
    match decodeByte? hi lo, decode? rest with
    | some b, some bs => some (b :: bs)
    | _, _ => none

end Kademlia.Hex
