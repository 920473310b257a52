import Kademlia.Address

/-!
# Kademlia.Address.Text

The text of socket addresses: `a.b.c.d:port`, and for IPv6 `[groups]:port` or
`[groups%scope]:port`.

* Writing: IPv6 groups are lower-case hexadecimal without leading zeros.  The
  first of the longest runs of two or more zero groups becomes `::`, and an
  address that carries an IPv4 one (`::ffff:a.b.c.d`) shows it dotted.
* Reading: octets have no leading zeros, groups have one to four digits, `::`
  stands for one group or more, and the last two groups may be dotted.  Ports
  and scopes are decimal, with leading zeros if one likes.
-/

namespace Kademlia.Address

/-! ## Writing -/

/-- Four octets with dots between them. -/
def dotted (octets : List UInt8) : String :=
  ".".intercalate (octets.map fun o => toString o.toNat)

/-- A group in hexadecimal without leading zeros. -/
def groupText (g : UInt16) : String := String.ofList (Nat.toDigits 16 g.toNat)

/-- Groups with colons between them. -/
def groupsText (groups : List UInt16) : String := ":".intercalate (groups.map groupText)

/-- The start and the length of the first of the longest runs of zero groups. -/
def longestZeroRun (groups : List UInt16) : Nat × Nat :=
  let runs := groups.zipIdx.map fun (_, i) =>
    (i, ((groups.drop i).takeWhile (· == 0)).length)
  runs.foldl (fun best run => if best.2 < run.2 then run else best) (0, 0)

/-- The octets of the address that an IPv4-mapped IPv6 address carries. -/
def mappedIPv4? : List UInt16 → Option (List UInt8)
  | [0, 0, 0, 0, 0, 0xffff, x, y] =>
    some [(x >>> 8).toUInt8, x.toUInt8, (y >>> 8).toUInt8, y.toUInt8]
  | _ => none

/-- The text of an IPv6 address. -/
def ipv6Text (groups : List UInt16) : String :=
  match mappedIPv4? groups with
  | some octets => "::ffff:" ++ dotted octets
  | none =>
    let (start, count) := longestZeroRun groups
    if 1 < count then
      groupsText (groups.take start) ++ "::" ++ groupsText (groups.drop (start + count))
    else groupsText groups

/-- The text of a socket address. -/
protected def toString (a : Address) : String :=
  match a.host with
  | .v4 octets => s!"{dotted octets.toList}:{a.port.toNat}"
  | .v6 groups scope =>
    let zone := if scope = 0 then "" else s!"%{scope.toNat}"
    s!"[{ipv6Text groups.toList}{zone}]:{a.port.toNat}"

instance : ToString Address := ⟨Address.toString⟩

/-! ## Reading

A reader takes what it can from the front of the text and returns the rest. -/

/-- The value of a digit in a radix of at most 16. -/
def digitValue? (radix : Nat) (c : Char) : Option Nat :=
  let value :=
    if '0' ≤ c ∧ c ≤ '9' then c.toNat - '0'.toNat
    else if 'a' ≤ c ∧ c ≤ 'f' then c.toNat - 'a'.toNat + 10
    else if 'A' ≤ c ∧ c ≤ 'F' then c.toNat - 'A'.toNat + 10
    else 16
  if value < radix then some value else none

/-- A form of number: its radix, its largest value, how many digits it may
have, and whether it may start with needless zeros. -/
structure NumberForm where
  radix : Nat
  largest : Nat
  maxDigits : Option Nat
  leadingZeros : Bool

/-- Octets are decimal without leading zeros. -/
def octetForm : NumberForm := ⟨10, 255, some 3, false⟩
/-- Groups have one to four hexadecimal digits. -/
def groupForm : NumberForm := ⟨16, 65535, some 4, true⟩
/-- Ports are decimal. -/
def portForm : NumberForm := ⟨10, 65535, none, true⟩
/-- Scopes are decimal. -/
def scopeForm : NumberForm := ⟨10, 4294967295, none, true⟩

/-- Reads all digits in front as one number of the given form. -/
def readNumber (form : NumberForm) (cs : List Char) : Option (Nat × List Char) :=
  let digits := cs.takeWhile fun c => (digitValue? form.radix c).isSome
  let values := digits.filterMap (digitValue? form.radix)
  let number := values.foldl (fun n d => form.radix * n + d) 0
  let tooLong := form.maxDigits.any (· < digits.length)
  let padded := !form.leadingZeros && digits.head? == some '0' && 1 < digits.length
  if digits.isEmpty || tooLong || padded || form.largest < number then none
  else some (number, cs.drop digits.length)

/-- Takes one given character. -/
def readChar (c : Char) : List Char → Option (List Char)
  | d :: cs => if d = c then some cs else none
  | [] => none

/-- Reads four octets with dots between them. -/
def readDotted (cs : List Char) : Option (Vector UInt8 4 × List Char) := do
  let (a, cs) ← readNumber octetForm cs
  let (b, cs) ← readNumber octetForm (← readChar '.' cs)
  let (c, cs) ← readNumber octetForm (← readChar '.' cs)
  let (d, cs) ← readNumber octetForm (← readChar '.' cs)
  return (#v[a.toUInt8, b.toUInt8, c.toUInt8, d.toUInt8], cs)

/-- The group that two octets fill. -/
def joinOctets (high low : UInt8) : UInt16 := high.toUInt16 * 256 + low.toUInt16

/-- The two groups that four octets fill. -/
def groupsOfOctets (octets : Vector UInt8 4) : List UInt16 :=
  [joinOctets octets[0] octets[1], joinOctets octets[2] octets[3]]

/-- What stands before a group: nothing for the first one, else a colon. -/
def readSeparator (first : Bool) (cs : List Char) : Option (List Char) :=
  if first then some cs else readChar ':' cs

/-- Reads at most `limit` groups with colons between them, and tells whether
they ended in a dotted pair; dotted octets need room for two groups. -/
def readGroups : Nat → Bool → List Char → List UInt16 × Bool × List Char
  | 0, _, cs => ([], false, cs)
  | limit + 1, first, cs =>
    match if 0 < limit then (readSeparator first cs).bind readDotted else none with
    | some (octets, rest) => (groupsOfOctets octets, true, rest)
    | none =>
      match (readSeparator first cs).bind (readNumber groupForm) with
      | some (g, rest) =>
        let (gs, dottedTail, rest) := readGroups limit false rest
        (g.toUInt16 :: gs, dottedTail, rest)
      | none => ([], false, cs)

/-- Eight groups: zeros stand between those before and those after a `::`. -/
def fillGroups (head tail : List UInt16) : Vector UInt16 8 :=
  let groups := head ++ List.replicate (8 - head.length - tail.length) 0 ++ tail
  Vector.ofFn fun i => groups.getD i.val 0

/-- Reads an IPv6 address: eight groups, or fewer with one `::`. -/
def readIPv6 (cs : List Char) : Option (Vector UInt16 8 × List Char) :=
  let (head, dottedHead, rest) := readGroups 8 true cs
  if head.length = 8 then some (fillGroups head [], rest)
  else if dottedHead then none
  else do
    let rest ← readChar ':' (← readChar ':' rest)
    let (tail, _, rest) := readGroups (7 - head.length) true rest
    return (fillGroups head tail, rest)

/-- Reads the colon and the port that end an address. -/
def readPort (cs : List Char) : Option UInt16 := do
  let (port, rest) ← readNumber portForm (← readChar ':' cs)
  if rest.isEmpty then some port.toUInt16 else none

/-- Reads `a.b.c.d:port`. -/
def parseIPv4? (cs : List Char) : Option Address := do
  let (octets, rest) ← readDotted cs
  return ⟨.v4 octets, ← readPort rest⟩

/-- Reads the zone of an IPv6 address; none is written for zone 0. -/
def readScope (cs : List Char) : Option (UInt32 × List Char) :=
  match readChar '%' cs with
  | none => some (0, cs)
  | some rest => (readNumber scopeForm rest).map fun (n, rest) => (n.toUInt32, rest)

/-- Reads `[groups]:port` or `[groups%scope]:port`. -/
def parseIPv6? (cs : List Char) : Option Address := do
  let (groups, rest) ← readIPv6 (← readChar '[' cs)
  let (scope, rest) ← readScope rest
  return ⟨.v6 groups scope, ← readPort (← readChar ']' rest)⟩

/-- Reads the whole text as a socket address. -/
def parse? (text : String) : Option Address :=
  parseIPv4? text.toList <|> parseIPv6? text.toList

end Kademlia.Address
