import Kademlia.Distance
import Mathlib.Tactic.Ring

/-!
# Kademlia.Proofs.Metric

The order of distances.  A distance stands for the number that its bytes
spell, and distances are ordered as these numbers are, whatever their lengths
(`Distance.compare_eq`).  Seen from one key, no two ids of its length are
equally far (`Id.eq_of_gap_eq`), so "the closest" is always one id.
-/

namespace Kademlia

/-! ## Big-endian numbers -/

namespace Bytes

/-- The fold behind `toNat`, from any number read so far. -/
theorem foldl_toNat (n : Nat) (bs : Bytes) :
    bs.foldl (fun n b => 256 * n + b.toNat) n = n * 256 ^ bs.length + toNat bs := by
  induction bs generalizing n with
  | nil => simp [toNat]
  | cons b bs ih =>
      have h0 : toNat (b :: bs) = b.toNat * 256 ^ bs.length + toNat bs := by
        rw [toNat, List.foldl_cons, ih]
        simp
      rw [List.foldl_cons, ih, h0, List.length_cons]
      ring

@[simp] theorem toNat_nil : toNat [] = 0 := rfl

theorem toNat_cons (b : UInt8) (bs : Bytes) :
    toNat (b :: bs) = b.toNat * 256 ^ bs.length + toNat bs := by
  rw [toNat, List.foldl_cons, foldl_toNat]
  simp

theorem toNat_lt (bs : Bytes) : toNat bs < 256 ^ bs.length := by
  induction bs with
  | nil => simp
  | cons b bs ih =>
      have hb : b.toNat + 1 ≤ 256 := b.toNat_lt
      rw [toNat_cons, List.length_cons, Nat.pow_succ]
      calc
        b.toNat * 256 ^ bs.length + toNat bs
          < b.toNat * 256 ^ bs.length + 256 ^ bs.length := by omega
        _ = (b.toNat + 1) * 256 ^ bs.length := by ring
        _ ≤ 256 * 256 ^ bs.length := Nat.mul_le_mul_right _ hb
        _ = 256 ^ bs.length * 256 := Nat.mul_comm _ _

/-- Leading zeros do not count. -/
theorem toNat_dropWhile_zero (bs : Bytes) : toNat (bs.dropWhile (· == 0)) = toNat bs := by
  induction bs with
  | nil => rfl
  | cons b bs ih =>
      by_cases hb : b = 0
      · subst hb
        rw [List.dropWhile_cons_of_pos (by simp), ih, toNat_cons]
        simp
      · rw [List.dropWhile_cons_of_neg (by simpa using hb)]

/-- A byte string without a leading zero spells a number of its own length. -/
theorem pow_le_toNat_cons {b : UInt8} (hb : b ≠ 0) (bs : Bytes) :
    256 ^ bs.length ≤ toNat (b :: bs) := by
  have hpos : 1 ≤ b.toNat := by
    have : b.toNat ≠ 0 := fun h => hb (UInt8.toNat_inj.mp h)
    omega
  rw [toNat_cons]
  calc
    256 ^ bs.length = 1 * 256 ^ bs.length := (Nat.one_mul _).symm
    _ ≤ b.toNat * 256 ^ bs.length := Nat.mul_le_mul_right _ hpos
    _ ≤ b.toNat * 256 ^ bs.length + toNat bs := Nat.le_add_right _ _

/-- Bytes are ordered as the numbers they stand for. -/
theorem compare_byte (a b : UInt8) : compare a b = compare a.toNat b.toNat := by
  show compareOfLessAndEq a b = compareOfLessAndEq a.toNat b.toNat
  simp only [compareOfLessAndEq, UInt8.lt_iff_toNat_lt, UInt8.toNat_inj]

/-- Of two digit strings of one length, the first difference decides. -/
theorem compare_toNat_cons (a b : UInt8) {as bs : Bytes} (hl : as.length = bs.length) :
    compare (toNat (a :: as)) (toNat (b :: bs)) =
      (compare a b).then (compare (toNat as) (toNat bs)) := by
  have ha := toNat_lt as
  have hb := toNat_lt bs
  rw [toNat_cons, toNat_cons, compare_byte, hl]
  rw [hl] at ha
  generalize 256 ^ bs.length = w at ha hb ⊢
  rcases Nat.lt_trichotomy a.toNat b.toNat with h | h | h
  · have hlt : a.toNat * w + toNat as < b.toNat * w + toNat bs := by
      have hstep : (a.toNat + 1) * w ≤ b.toNat * w := Nat.mul_le_mul_right _ h
      rw [Nat.add_mul, Nat.one_mul] at hstep
      omega
    rw [Nat.compare_eq_lt.mpr hlt, Nat.compare_eq_lt.mpr h]
    rfl
  · rw [h, Nat.compare_eq_eq.mpr rfl, Ordering.then]
    simp only [Nat.compare_eq_ite_lt, Nat.add_lt_add_iff_left]
  · have hlt : b.toNat * w + toNat bs < a.toNat * w + toNat as := by
      have hstep : (b.toNat + 1) * w ≤ a.toNat * w := Nat.mul_le_mul_right _ h
      rw [Nat.add_mul, Nat.one_mul] at hstep
      omega
    rw [Nat.compare_eq_gt.mpr hlt, Nat.compare_eq_gt.mpr h]
    rfl

/-- Byte strings of one length are ordered as the numbers that they spell. -/
theorem compare_of_length_eq (as bs : Bytes) (hl : as.length = bs.length) :
    compare as bs = compare (toNat as) (toNat bs) := by
  induction as generalizing bs with
  | nil =>
      obtain rfl : bs = [] := List.length_eq_zero_iff.mp hl.symm
      rfl
  | cons a as ih =>
      cases bs with
      | nil => simp at hl
      | cons b bs =>
          have hl' : as.length = bs.length := by simpa using hl
          rw [List.compare_cons_cons, ih bs hl', compare_toNat_cons a b hl']

/-- Among byte strings of one length, each number is spelled once. -/
theorem eq_of_toNat_eq {as bs : Bytes} (hl : as.length = bs.length) (h : toNat as = toNat bs) :
    as = bs := by
  have hc : compare as bs = .eq := by
    rw [compare_of_length_eq as bs hl, h]
    exact Nat.compare_eq_eq.mpr rfl
  exact Std.LawfulEqOrd.eq_of_compare hc

end Bytes

/-! ## Distances as numbers -/

namespace Distance

/-- The significant bytes do not begin with a zero. -/
theorem ne_zero_of_significant_eq_cons {x : Distance} {b : UInt8} {bs : Bytes}
    (h : x.significant = b :: bs) : b ≠ 0 := by
  have hne : x.significant ≠ [] := by
    rw [h]
    exact List.cons_ne_nil b bs
  have hhead : (x.significant.head hne == 0) = false := List.head_dropWhile_not (· == 0) hne
  simp only [h, List.head_cons, beq_eq_false_iff_ne] at hhead
  exact hhead

/-- Without its leading zeros, a shorter number is smaller. -/
theorem toNat_lt_of_significant_length_lt {x y : Distance}
    (h : x.significant.length < y.significant.length) : x.toNat < y.toNat := by
  have hx : x.toNat < 256 ^ x.significant.length := by
    rw [toNat, ← Bytes.toNat_dropWhile_zero]
    exact Bytes.toNat_lt _
  cases hy : y.significant with
  | nil => rw [hy] at h; simp at h
  | cons b bs =>
      have hb : b ≠ 0 := ne_zero_of_significant_eq_cons hy
      have hlen : x.significant.length ≤ bs.length := by
        rw [hy, List.length_cons] at h
        omega
      calc
        x.toNat < 256 ^ x.significant.length := hx
        _ ≤ 256 ^ bs.length := Nat.pow_le_pow_right (by decide) hlen
        _ ≤ Bytes.toNat (b :: bs) := Bytes.pow_le_toNat_cons hb bs
        _ = y.toNat := by rw [← hy, significant, Bytes.toNat_dropWhile_zero]; rfl

/-- **Distances are ordered as numbers**, whatever their lengths. -/
theorem compare_eq (x y : Distance) : x.compare y = compare x.toNat y.toNat := by
  have hx : x.toNat = x.significant.toNat := (Bytes.toNat_dropWhile_zero _).symm
  have hy : y.toNat = y.significant.toNat := (Bytes.toNat_dropWhile_zero _).symm
  rw [Distance.compare]
  rcases Nat.lt_trichotomy x.significant.length y.significant.length with h | h | h
  · rw [Nat.compare_eq_lt.mpr h, Nat.compare_eq_lt.mpr (toNat_lt_of_significant_length_lt h)]
    rfl
  · rw [Nat.compare_eq_eq.mpr h, Bytes.compare_of_length_eq _ _ h, hx, hy]
    rfl
  · rw [Nat.compare_eq_gt.mpr h, Nat.compare_eq_gt.mpr (toNat_lt_of_significant_length_lt h)]
    rfl

theorem closer_iff (x y : Distance) : x.closer y = true ↔ x.toNat < y.toNat := by
  rw [closer, compare_eq, beq_iff_eq, Nat.compare_eq_lt]

theorem closer_eq_false_iff (x y : Distance) : x.closer y = false ↔ y.toNat ≤ x.toNat := by
  rw [← Bool.not_eq_true, closer_iff, Nat.not_lt]

end Distance

/-! ## Distances between ids -/

namespace Id

/-- The distance between two ids; of interest only if they have one length. -/
def xor (a b : Id) : Distance := ⟨List.zipWith (· ^^^ ·) a.bytes b.bytes⟩

/-- How far an id is from a key, as a number. -/
def gap (key a : Id) : Nat := (a.xor key).toNat

theorem distance_of_length_eq {a b : Id} (h : a.length = b.length) :
    a.distance b = .ok (a.xor b) := by
  rw [distance, checkLength, if_pos h]
  rfl

theorem distance_of_length_ne {a b : Id} (h : a.length ≠ b.length) :
    a.distance b = .error (.lengthMismatch a.length b.length) := by
  rw [distance, checkLength, if_neg h]
  rfl

/-- A distance is one between ids of one length. -/
theorem of_distance_eq_ok {a b : Id} {d : Distance} (h : a.distance b = .ok d) :
    a.length = b.length ∧ d = a.xor b := by
  by_cases hl : a.length = b.length
  · rw [distance_of_length_eq hl] at h
    exact ⟨hl, (Except.ok.inj h).symm⟩
  · rw [distance_of_length_ne hl] at h
    contradiction

theorem xor_comm (a b : Id) : a.xor b = b.xor a := by
  rw [xor, xor, List.zipWith_comm]
  simp only [UInt8.xor_comm]

theorem toNat_xor (key a : Id) : (a.xor key).toNat = gap key a := rfl

end Id

/-- What was added by exclusive or can be taken away again. -/
theorem zipWith_xor_cancel {as bs ks : Bytes} (ha : as.length = ks.length)
    (hb : bs.length = ks.length)
    (h : List.zipWith (· ^^^ ·) as ks = List.zipWith (· ^^^ ·) bs ks) : as = bs := by
  induction ks generalizing as bs with
  | nil =>
      rw [List.length_nil] at ha hb
      rw [List.length_eq_zero_iff.mp ha, List.length_eq_zero_iff.mp hb]
  | cons k ks ih =>
      cases as with
      | nil => simp at ha
      | cons a as =>
          cases bs with
          | nil => simp at hb
          | cons b bs =>
              simp only [List.zipWith_cons_cons, List.cons.injEq] at h
              obtain ⟨hhead, htail⟩ := h
              have hab : a = b := (UInt8.xor_left_inj k).mp hhead
              rw [hab, ih (by simpa using ha) (by simpa using hb) htail]

/-- **Seen from a key, no two ids of its length are equally far.** -/
theorem Id.eq_of_gap_eq {key a b : Id} (ha : a.length = key.length) (hb : b.length = key.length)
    (h : key.gap a = key.gap b) : a = b := by
  have hl : (List.zipWith (· ^^^ ·) a.bytes key.bytes).length =
      (List.zipWith (· ^^^ ·) b.bytes key.bytes).length := by
    rw [List.length_zipWith, List.length_zipWith]
    rw [length, length] at ha hb
    omega
  have hx := Bytes.eq_of_toNat_eq hl h
  exact Id.ext (zipWith_xor_cancel ha hb hx)

/-- How far an id can be. -/
theorem Id.gap_lt {key a : Id} (h : a.length = key.length) : key.gap a < 256 ^ key.length := by
  have hlt := Bytes.toNat_lt (a.xor key).bytes
  have hlen : (a.xor key).bytes.length = key.length := by
    rw [Id.xor, List.length_zipWith]
    rw [Id.length, Id.length] at h
    rw [Id.length, h, Nat.min_self]
  rw [hlen] at hlt
  exact hlt

/-! ## Shared bits -/

namespace Id

theorem sharedBits_self (bs : Bytes) : sharedBits bs bs = 8 * bs.length := by
  induction bs with
  | nil => rfl
  | cons b bs ih =>
      rw [sharedBits, if_pos rfl, ih, List.length_cons]
      omega

/-- Different byte strings of one length differ in some bit. -/
theorem sharedBits_lt {as bs : Bytes} (hl : as.length = bs.length) (h : as ≠ bs) :
    sharedBits as bs < 8 * as.length := by
  induction as generalizing bs with
  | nil => exact absurd (List.length_eq_zero_iff.mp hl.symm).symm h
  | cons a as ih =>
      cases bs with
      | nil => simp at hl
      | cons b bs =>
          rw [sharedBits, List.length_cons]
          by_cases hab : a = b
          · rw [if_pos hab]
            have hne : as ≠ bs := fun heq => h (by rw [hab, heq])
            have hlt := ih (by simpa using hl) hne
            omega
          · rw [if_neg hab]
            have hne : (a ^^^ b).toBitVec ≠ 0#8 := by
              intro hz
              have hxor : a ^^^ b = 0 := UInt8.toBitVec_inj.mp hz
              exact hab (UInt8.xor_eq_zero_iff.mp hxor)
            have hlt := BitVec.clz_lt_iff_ne_zero.mpr hne
            have hlt' : (a ^^^ b).toBitVec.clz.toNat < 8 := hlt
            omega

theorem commonPrefixLength_of_length_eq {a b : Id} (h : a.length = b.length) :
    a.commonPrefixLength b = .ok (sharedBits a.bytes b.bytes) := by
  rw [commonPrefixLength, checkLength, if_pos h]
  rfl

theorem commonPrefixLength_of_length_ne {a b : Id} (h : a.length ≠ b.length) :
    a.commonPrefixLength b = .error (.lengthMismatch a.length b.length) := by
  rw [commonPrefixLength, checkLength, if_neg h]
  rfl

end Id
end Kademlia
