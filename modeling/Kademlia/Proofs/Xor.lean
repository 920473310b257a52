import Kademlia.Proofs.Metric
import Mathlib.Data.Nat.Bitwise

/-!
# Kademlia.Proofs.Xor

The distance between two ids of one length stands for the exclusive or of the
numbers that the ids spell (`Id.toNat_xor_eq`).  As an exclusive or of numbers
it is a metric, and one of a special kind: seen from one id, no two others are
equally far.

Distances of all lengths are compared as these numbers, so their order is that
of the natural numbers.  `Id.distance_metric` sums it up.
-/

namespace Kademlia

/-! ## Exclusive or of numbers -/

/-- High and low parts are joined one by one. -/
theorem mul_pow_add_xor {w x y : Nat} (a b : Nat) (hx : x < 2 ^ w) (hy : y < 2 ^ w) :
    (2 ^ w * a + x) ^^^ (2 ^ w * b + y) = 2 ^ w * (a ^^^ b) + (x ^^^ y) := by
  have hxy : x ^^^ y < 2 ^ w := Nat.xor_lt_two_pow hx hy
  apply Nat.eq_of_testBit_eq
  intro i
  rw [Nat.testBit_xor, Nat.testBit_two_pow_mul_add a hx, Nat.testBit_two_pow_mul_add b hy,
    Nat.testBit_two_pow_mul_add (a ^^^ b) hxy]
  by_cases hi : i < w <;> simp [hi]

/-- Without carries a sum is no larger. -/
theorem xor_le_add (x y : Nat) : x ^^^ y ≤ x + y := by
  induction x using Nat.strongRecOn generalizing y with
  | ind x ih =>
      by_cases hx : x = 0
      · simp [hx]
      · have hhalf := ih (x / 2) (by omega) (y / 2)
        have hdiv : (x ^^^ y) / 2 = x / 2 ^^^ y / 2 := Nat.xor_div_two
        have hmod : (x ^^^ y) % 2 = (x + y) % 2 := Nat.xor_mod_two_eq
        omega

/-! ## Exclusive or of byte strings -/

namespace Bytes

/-- Byte by byte, the exclusive or of two byte strings spells that of their numbers. -/
theorem toNat_zipWith_xor {as bs : Bytes} (h : as.length = bs.length) :
    toNat (List.zipWith (· ^^^ ·) as bs) = toNat as ^^^ toNat bs := by
  induction as generalizing bs with
  | nil => simp [List.length_eq_zero_iff.mp h.symm]
  | cons a as ih =>
      cases bs with
      | nil => simp at h
      | cons b bs =>
          have hl : as.length = bs.length := by simpa using h
          have hw : 256 ^ bs.length = 2 ^ (8 * bs.length) := by rw [Nat.pow_mul]
          have hlt (cs : Bytes) (hc : cs.length = bs.length) : toNat cs < 2 ^ (8 * bs.length) := by
            rw [← hw, ← hc]
            exact toNat_lt cs
          simp only [List.zipWith_cons_cons, toNat_cons, ih hl, List.length_zipWith, hl,
            Nat.min_self, UInt8.toNat_xor, hw, Nat.mul_comm _ (2 ^ _)]
          rw [mul_pow_add_xor _ _ (hlt as hl) (hlt bs rfl)]

/-- Zero is spelled by zeros only. -/
theorem all_zero_iff (bs : Bytes) : bs.all (· == 0) = true ↔ toNat bs = 0 := by
  induction bs with
  | nil => simp
  | cons b bs ih =>
      have hb : b = 0 ↔ b.toNat = 0 := (UInt8.toNat_inj (b := 0)).symm
      simp [toNat_cons, ih, hb]

end Bytes

/-! ## The order of distances -/

namespace Distance

theorem isZero_iff (x : Distance) : x.isZero = true ↔ x.toNat = 0 := Bytes.all_zero_iff x.bytes

/-- Distances are equal if they stand for one number, with any leading zeros. -/
theorem beq_iff (x y : Distance) : (x == y) = true ↔ x.toNat = y.toNat := by
  show (x.compare y == .eq) = true ↔ _
  rw [compare_eq, beq_iff_eq, Nat.compare_eq_eq]

theorem isLE_compare_iff (x y : Distance) : (compare x y).isLE = true ↔ x.toNat ≤ y.toNat := by
  show (x.compare y).isLE = true ↔ _
  rw [compare_eq, Nat.isLE_compare]

/-- How distances of any lengths compare. -/
structure Ordered (x y z : Distance) : Prop where
  /-- Each stands for a number, and these are compared. -/
  compare_eq : compare x y = compare x.toNat y.toNat
  beq_iff : (x == y) = true ↔ x.toNat = y.toNat
  /-- Two are equal exactly if neither is smaller. -/
  eq_iff : (x == y) = true ↔ compare x y = .eq
  swap : (compare x y).swap = compare y x
  total : (compare x y).isLE = true ∨ (compare y x).isLE = true
  trans : (compare x y).isLE = true → (compare y z).isLE = true → (compare x z).isLE = true
  /-- What is equal compares alike. -/
  congr : (x == y) = true → compare x z = compare y z

theorem ordered (x y z : Distance) : Ordered x y z where
  compare_eq := x.compare_eq y
  beq_iff := x.beq_iff y
  eq_iff := beq_iff_eq (a := x.compare y)
  swap := by
    show (x.compare y).swap = y.compare x
    rw [Distance.compare_eq, Distance.compare_eq, Nat.compare_swap]
  total := by
    simp only [isLE_compare_iff]
    omega
  trans := by
    simp only [isLE_compare_iff]
    omega
  congr h := by
    have hxy := (x.beq_iff y).mp h
    show x.compare z = y.compare z
    rw [Distance.compare_eq, Distance.compare_eq, hxy]

end Distance

/-! ## The metric -/

namespace Id

variable {a b c : Id}

/-- **A distance stands for the exclusive or of the ids.** -/
theorem toNat_xor_eq (h : a.length = b.length) :
    (a.xor b).toNat = a.bytes.toNat ^^^ b.bytes.toNat :=
  Bytes.toNat_zipWith_xor h

/-- An id is told by its length and its number. -/
theorem toNat_bytes_inj (h : a.length = b.length) : a.bytes.toNat = b.bytes.toNat ↔ a = b := by
  constructor
  · intro heq
    exact Id.ext (Bytes.eq_of_toNat_eq h heq)
  · intro heq
    rw [heq]

theorem toNat_xor_eq_zero_iff (h : a.length = b.length) : (a.xor b).toNat = 0 ↔ a = b := by
  rw [toNat_xor_eq h, Nat.xor_eq_zero_iff, toNat_bytes_inj h]

theorem toNat_xor_le_add (hab : a.length = b.length) (hbc : b.length = c.length) :
    (a.xor c).toNat ≤ (a.xor b).toNat + (b.xor c).toNat := by
  have hvia : a.bytes.toNat ^^^ c.bytes.toNat =
      (a.bytes.toNat ^^^ b.bytes.toNat) ^^^ (b.bytes.toNat ^^^ c.bytes.toNat) := by
    rw [Nat.xor_assoc, Nat.xor_xor_cancel_left]
  rw [toNat_xor_eq hab, toNat_xor_eq hbc, toNat_xor_eq (hab.trans hbc), hvia]
  exact xor_le_add _ _

/-- The distances between three ids. -/
structure Metric (a b c : Id) (ab bc ac : Distance) : Prop where
  toNat_eq : ab.toNat = a.bytes.toNat ^^^ b.bytes.toNat
  symm : b.distance a = .ok ab
  eq_zero_iff : ab.toNat = 0 ↔ a = b
  isZero_iff : ab.isZero = true ↔ a = b
  triangle : ac.toNat ≤ ab.toNat + bc.toNat
  /-- No two ids are equally far from a third one. -/
  cancel : (ac == bc) = true → a = b

theorem metric_xor (hab : a.length = b.length) (hbc : b.length = c.length) :
    Metric a b c (a.xor b) (b.xor c) (a.xor c) where
  toNat_eq := toNat_xor_eq hab
  symm := by rw [distance_of_length_eq hab.symm, xor_comm]
  eq_zero_iff := toNat_xor_eq_zero_iff hab
  isZero_iff := by rw [Distance.isZero_iff, toNat_xor_eq_zero_iff hab]
  triangle := toNat_xor_le_add hab hbc
  cancel h := eq_of_gap_eq (hab.trans hbc) hbc ((Distance.beq_iff _ _).mp h)

/-- **The exclusive or is a metric on the ids of one length**, whatever that is.
Ids of different lengths have no distance, and distances of whatever lengths are
compared as numbers. -/
theorem distance_metric :
    (∀ a b c : Id, a.length = b.length → b.length = c.length → ∃ ab bc ac,
      a.distance b = .ok ab ∧ b.distance c = .ok bc ∧ a.distance c = .ok ac ∧
        Metric a b c ab bc ac) ∧
    (∀ a b : Id, a.length ≠ b.length →
      a.distance b = .error (.lengthMismatch a.length b.length)) ∧
    ∀ x y z : Distance, x.Ordered y z := by
  refine ⟨fun a b c hab hbc => ?_, fun a b => distance_of_length_ne, Distance.ordered⟩
  exact ⟨a.xor b, b.xor c, a.xor c, distance_of_length_eq hab, distance_of_length_eq hbc,
    distance_of_length_eq (hab.trans hbc), metric_xor hab hbc⟩

namespace Small

def first : Id := ⟨[0xaa, 0xff], by simp⟩
def second : Id := ⟨[0x55, 0x00], by simp⟩
def third : Id := ⟨[0xaa, 0xaa], by simp⟩

/-- Of another overlay. -/
def short : Id := ⟨[0xaa], by simp⟩

end Small

/-- Three ids of two bytes, one of one byte, and distances of one to three bytes. -/
theorem distance_metric_small :
    (Small.first.length = Small.second.length ∧ Small.second.length = Small.third.length ∧
      ∃ ab bc ac, Small.first.distance Small.second = .ok ab ∧
        Small.second.distance Small.third = .ok bc ∧ Small.first.distance Small.third = .ok ac ∧
        Metric Small.first Small.second Small.third ab bc ac) ∧
    Small.first.distance Small.short = .error (.lengthMismatch 2 1) ∧
    Distance.Ordered ⟨[0, 0, 1]⟩ ⟨[2]⟩ ⟨[0, 3]⟩ :=
  ⟨⟨rfl, rfl, distance_metric.1 Small.first Small.second Small.third rfl rfl⟩,
    distance_metric.2.1 Small.first Small.short (by decide), distance_metric.2.2 _ _ _⟩

end Id
end Kademlia
