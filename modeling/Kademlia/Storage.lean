import Kademlia.Error

/-!
# Kademlia.Storage

The values that a node keeps, each under its exact key.
-/

namespace Kademlia

/-- A place to keep values. -/
class Storage (S : Type) where
  /-- A storage without values. -/
  create : S
  /-- The value under a key. -/
  get : S → (key : Bytes) → Except StorageError (Option Bytes)
  /-- Keeps a value under a key in place of any other. -/
  set : S → (key value : Bytes) → Except StorageError S

/-- Values in memory, each key once. -/
structure MemoryStorage where
  entries : List (Bytes × Bytes) := []
  deriving DecidableEq, Repr

namespace MemoryStorage

/-- The value under a key. -/
def get? (s : MemoryStorage) (key : Bytes) : Option Bytes := s.entries.lookup key

/-- Keeps a value under a key in place of any other. -/
def insert (s : MemoryStorage) (key value : Bytes) : MemoryStorage :=
  ⟨(key, value) :: s.entries.filter (·.1 != key)⟩

/-- The number of keys. -/
def size (s : MemoryStorage) : Nat := s.entries.length

/-- Leaving out the entries of one key does not change what others find. -/
theorem lookup_filter_ne (es : List (Bytes × Bytes)) {key other : Bytes} (h : other ≠ key) :
    (es.filter (·.1 != key)).lookup other = es.lookup other := by
  induction es with
  | nil => rfl
  | cons e es ih =>
    obtain ⟨k, v⟩ := e
    by_cases hk : k = key
    · have hne : (other == k) = false := by simpa [hk] using h
      simp [List.lookup_cons, hk, ← ih]
      simp [← hk, hne]
    · have hkeep : (k != key) = true := by simpa using hk
      rw [List.filter_cons_of_pos (by exact hkeep), List.lookup_cons, List.lookup_cons, ih]

/-- The value just kept is found, and every other key keeps its own. -/
theorem get?_insert (s : MemoryStorage) (key value other : Bytes) :
    (s.insert key value).get? other = if other = key then some value else s.get? other := by
  by_cases h : other = key
  · simp [get?, insert, h]
  · have hne : (other == key) = false := by simpa using h
    simp [get?, insert, h, List.lookup_cons, hne, lookup_filter_ne _ h]

end MemoryStorage

instance : Storage MemoryStorage where
  create := {}
  get s key := .ok (s.get? key)
  set s key value := .ok (s.insert key value)

end Kademlia
