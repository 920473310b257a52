/-!
# Kademlia.Bytes

Byte strings: ids, keys, values and packets are all byte strings.  A byte
string may be read as a number, most significant byte first, or as UTF-8
text; `Bytes.text?_ofText` says that text comes back from its bytes.
-/

namespace Kademlia

/-- A byte string. -/
abbrev Bytes := List UInt8

namespace Bytes

/-- The number that a byte string spells, most significant byte first. -/
def toNat (bs : Bytes) : Nat :=
  bs.foldl (fun n b => 256 * n + b.toNat) 0

/-- The bytes of a text in UTF-8. -/
def ofText (s : String) : Bytes := s.toUTF8.data.toList

/-- The text whose UTF-8 form is `bs`, if there is one. -/
def text? (bs : Bytes) : Option String := String.fromUTF8? ⟨bs.toArray⟩

/-- A text comes back from its bytes. -/
@[simp] theorem text?_ofText (s : String) : (ofText s).text? = some s := by
  have h : (⟨(ofText s).toArray⟩ : ByteArray) = s.toUTF8 := by simp [ofText]
  rw [text?, h, String.fromUTF8?, String.toUTF8_eq_toByteArray, dif_pos s.isValidUTF8]
  rfl

end Bytes
end Kademlia
