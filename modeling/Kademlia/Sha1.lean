import Kademlia.Bytes

/-!
# Kademlia.Sha1

The SHA-1 digest of a byte string, from which content-addressed keys are
made: the message is padded to blocks of sixteen 32-bit words, each block is
stretched to eighty words, and each word takes the five chaining words one
round further.
-/

namespace Kademlia.Sha1

/-- The five chaining words. -/
structure Chain where
  a : UInt32
  b : UInt32
  c : UInt32
  d : UInt32
  e : UInt32
  deriving DecidableEq, Repr

/-- The chaining words before the first block. -/
def Chain.initial : Chain :=
  ⟨0x67452301, 0xEFCDAB89, 0x98BADCFE, 0x10325476, 0xC3D2E1F0⟩

/-- Turns the bits of a word `n` places to the left, for `0 < n < 32`. -/
def rotateLeft (x : UInt32) (n : UInt32) : UInt32 := (x <<< n) ||| (x >>> (32 - n))

/-! ## Padding -/

/-- The bytes of a 64-bit number, most significant first. -/
def bigEndian64 (n : UInt64) : Bytes :=
  [56, 48, 40, 32, 24, 16, 8, 0].map fun (shift : UInt64) => (n >>> shift).toUInt8

/-- The message, the byte `0x80`, zeros up to eight bytes short of a whole
block, and the length of the message in bits. -/
def pad (message : Bytes) : Bytes :=
  message ++ [0x80] ++ List.replicate ((119 - message.length % 64) % 64) 0
    ++ bigEndian64 (8 * message.length).toUInt64

/-- Four bytes a word, most significant first. -/
def toWords : Bytes → List UInt32
  | a :: b :: c :: d :: rest =>
    ((a.toUInt32 <<< 24) ||| (b.toUInt32 <<< 16) ||| (c.toUInt32 <<< 8) ||| d.toUInt32)
      :: toWords rest
  | _ => []

/-- The bytes of a word, most significant first. -/
def ofWord (w : UInt32) : Bytes :=
  [24, 16, 8, 0].map fun (shift : UInt32) => (w >>> shift).toUInt8

/-! ## Compression -/

/-- Adds `n` words to a schedule whose latest word comes first: each is the
turned exclusive or of the words 3, 8, 14 and 16 places back. -/
def extendSchedule : Nat → List UInt32 → List UInt32
  | 0, ws => ws
  | n + 1, ws =>
    let back (i : Nat) := ws.getD (i - 1) 0
    extendSchedule n (rotateLeft (back 3 ^^^ back 8 ^^^ back 14 ^^^ back 16) 1 :: ws)

/-- The eighty words of a block of sixteen. -/
def schedule (block : List UInt32) : List UInt32 :=
  (extendSchedule 64 block.reverse).reverse

/-- The mixing function and the constant of round `i`. -/
def mix (i : Nat) (x : Chain) : UInt32 × UInt32 :=
  if i < 20 then ((x.b &&& x.c) ||| ((~~~ x.b) &&& x.d), 0x5A827999)
  else if i < 40 then (x.b ^^^ x.c ^^^ x.d, 0x6ED9EBA1)
  else if i < 60 then ((x.b &&& x.c) ||| (x.b &&& x.d) ||| (x.c &&& x.d), 0x8F1BBCDC)
  else (x.b ^^^ x.c ^^^ x.d, 0xCA62C1D6)

/-- One round. -/
def round (x : Chain) (word : UInt32 × Nat) : Chain :=
  let (f, k) := mix word.2 x
  ⟨rotateLeft x.a 5 + f + x.e + k + word.1, x.a, rotateLeft x.b 30, x.c, x.d⟩

/-- Takes the chaining words over one block. -/
def compress (x : Chain) (block : List UInt32) : Chain :=
  let y := (schedule block).zipIdx.foldl round x
  ⟨x.a + y.a, x.b + y.b, x.c + y.c, x.d + y.d, x.e + y.e⟩

/-- Takes the chaining words over all blocks of sixteen words. -/
def compressAll (x : Chain) (ws : List UInt32) : Chain :=
  match _h : ws.drop 15 with
  | [] => x
  | _ :: rest => compressAll (compress x (ws.take 16)) rest
termination_by ws.length
decreasing_by
  have hlen := congrArg List.length _h
  simp only [List.length_drop, List.length_cons] at hlen
  omega

/-- The twenty bytes of the digest. -/
def digest (message : Bytes) : Bytes :=
  let x := compressAll .initial (toWords (pad message))
  [x.a, x.b, x.c, x.d, x.e].flatMap ofWord

/-- A digest has twenty bytes. -/
@[simp] theorem length_digest (message : Bytes) : (digest message).length = 20 := by
  simp [digest, ofWord]

end Kademlia.Sha1
