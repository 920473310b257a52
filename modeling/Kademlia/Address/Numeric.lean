import Kademlia.Address.Text

/-!
# Kademlia.Address.Numeric

Addresses as people write them into settings: a socket address, or else a host
and a port with a colon between them, the host given by its numbers.

* IPv4 in numbers and dots: one to four numbers, decimal, octal after a `0`, or
  hexadecimal after a `0x`.  A number before a dot is one octet, and the last
  number fills all octets that are left: `10.1` is `10.0.0.1`.
* IPv6 without brackets, with a zone after a `%` if one likes.  The last colon
  of the text is the one before the port.

A port may have a plus sign.  Names of hosts are not looked up.
-/

namespace Kademlia.Address

/-! ## Hosts -/

/-- Takes what tells the radix of a number: `0x` for 16, and a `0`, which is a
digit as well, for 8. -/
def readRadix : List Char → Nat × List Char
  | '0' :: 'x' :: rest => (16, rest)
  | '0' :: 'X' :: rest => (16, rest)
  | '0' :: rest => (8, '0' :: rest)
  | cs => (10, cs)

/-- Reads one number of at most 32 bits in the radix that it tells. -/
def readRadixNumber (cs : List Char) : Option (Nat × List Char) :=
  let (radix, rest) := readRadix cs
  readNumber ⟨radix, 4294967295, none, true⟩ rest

/-- The octets of a number, the highest first; none if it needs more of them. -/
def octetsOf? : (count : Nat) → Nat → Option (Vector UInt8 count)
  | 0, n => if n = 0 then some #v[] else none
  | count + 1, n => (octetsOf? count (n / 256)).map (·.push n.toUInt8)

/-- Reads a whole text as numbers with dots between them that fill so many
octets. -/
def parseOctets? : (count : Nat) → List Char → Option (Vector UInt8 count)
  | 0, _ => none
  | count + 1, cs =>
    match readRadixNumber cs with
    | none => none
    | some (n, []) => octetsOf? (count + 1) n
    | some (n, c :: rest) =>
      if c = '.' then do
        let first ← octetsOf? 1 n
        let others ← parseOctets? count rest
        return (first ++ others).cast (Nat.add_comm 1 count)
      else none

/-- Reads a whole text as IPv6 groups and a zone. -/
def parseGroups? (cs : List Char) : Option Host := do
  let (groups, rest) ← readIPv6 cs
  let (scope, rest) ← readScope rest
  if rest.isEmpty then some (.v6 groups scope) else none

/-- Reads a whole text as a host given by its numbers. -/
def parseHost? (cs : List Char) : Option Host :=
  (parseOctets? 4 cs).map .v4 <|> parseGroups? cs

/-! ## Addresses -/

/-- The text before the last colon, and the text after it. -/
def splitLastColon? : List Char → Option (List Char × List Char)
  | [] => none
  | c :: cs =>
    match splitLastColon? cs with
    | some (host, port) => some (c :: host, port)
    | none => if c = ':' then some ([], cs) else none

/-- Reads a whole text as a port, which may have a plus sign. -/
def parsePort? (cs : List Char) : Option UInt16 := do
  let (port, rest) ← readNumber portForm ((readChar '+' cs).getD cs)
  if rest.isEmpty then some port.toUInt16 else none

/-- Reads the whole text as a socket address, or as a host given by its numbers
and a port. -/
def parseNumeric? (text : String) : Option Address :=
  parse? text <|> do
    let (host, port) ← splitLastColon? text.toList
    return ⟨← parseHost? host, ← parsePort? port⟩

end Kademlia.Address
