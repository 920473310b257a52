import Kademlia.Proofs.Buckets
import Kademlia.Proofs.Xor

/-!
# Kademlia.Proofs.Prefixes

The leading bits that two ids share, and how far they are from each other.  The
bits are counted byte by byte, the distance is one number for all bytes; both
are about the first bit in which the ids differ.

* `Id.two_pow_le_toNat_xor` and `Id.toNat_xor_lt_two_pow` are the bounds
  that the shared bits set to the distance.
* Two ids share at least the bits that both share with a third one
  (`Id.min_sharedBits_le`).

So a peer in a later bucket of a routing table is closer to the local node than
any one in an earlier bucket; `Id.prefix_and_distance` sums it up.
-/

namespace Kademlia

namespace Id

variable {as bs cs : Bytes} {a b : UInt8}

theorem sharedBits_comm (as bs : Bytes) : sharedBits as bs = sharedBits bs as := by
  induction as generalizing bs with
  | nil => cases bs <;> rfl
  | cons a as ih =>
      cases bs with
      | nil => rfl
      | cons b bs => simp only [sharedBits, ih bs, UInt8.xor_comm a b, eq_comm (a := a)]

theorem sharedBits_le (h : as.length = bs.length) : sharedBits as bs ≤ 8 * as.length := by
  by_cases heq : as = bs
  · simp [heq, sharedBits_self]
  · exact Nat.le_of_lt (sharedBits_lt h heq)

/-! ## Shared bits as bits -/

/-- Byte strings share at least `n` bits if their first `n` bits are the same. -/
theorem le_sharedBits_iff (h : as.length = bs.length) {n : Nat} (hn : n ≤ 8 * as.length) :
    n ≤ sharedBits as bs ↔ ∀ j < n, as.bit j = bs.bit j := by
  by_cases heq : as = bs
  · simp [heq, sharedBits_self, ← h, hn]
  · obtain ⟨hsame, hdiffer⟩ := shareExactly_sharedBits h heq
    constructor
    · intro hle j hj
      exact hsame j (by omega)
    · intro hbits
      by_contra hlt
      exact hdiffer (hbits _ (by omega))

/-- What both share with a third one, two byte strings share. -/
theorem min_sharedBits_le (hab : as.length = bs.length) (hbc : bs.length = cs.length) :
    min (sharedBits as bs) (sharedBits bs cs) ≤ sharedBits as cs := by
  have hle := sharedBits_le hab
  rw [le_sharedBits_iff (hab.trans hbc) (by omega)]
  intro j hj
  have hfirst := (le_sharedBits_iff hab hle).mp (Nat.le_refl _) j (by omega)
  have hsecond := (le_sharedBits_iff hbc (sharedBits_le hbc)).mp (Nat.le_refl _) j (by omega)
  exact hfirst.trans hsecond

/-! ## Shared bits as bounds -/

/-- The leading zeros of the exclusive or of two bytes are told by its size. -/
theorem clz_bounds (h : a ≠ b) : (a ^^^ b).toBitVec.clz.toNat < 8 ∧
    2 ^ (7 - (a ^^^ b).toBitVec.clz.toNat) ≤ (a ^^^ b).toNat ∧
    (a ^^^ b).toNat < 2 ^ (8 - (a ^^^ b).toBitVec.clz.toNat) := by
  have hne : (a ^^^ b).toBitVec ≠ 0#8 := by
    intro hzero
    have hxor : a ^^^ b = 0 := UInt8.toBitVec_inj.mp hzero
    exact h (UInt8.xor_eq_zero_iff.mp hxor)
  have hlt : (a ^^^ b).toBitVec.clz.toNat < 8 := BitVec.clz_lt_iff_ne_zero.mpr hne
  have hlow := BitVec.two_pow_sub_clz_le_toNat_of_ne_zero (by decide) hne
  have hhigh : (a ^^^ b).toBitVec.toNat < _ := BitVec.toNat_lt_two_pow_sub_clz
  exact ⟨hlt, by simpa using hlow, by simpa using hhigh⟩

/-- Behind the shared bits, the first one of the exclusive or is set. -/
theorem two_pow_le_toNat_xor (h : as.length = bs.length) (hne : as ≠ bs) :
    2 ^ (8 * as.length - 1 - sharedBits as bs) ≤ Bytes.toNat (List.zipWith (· ^^^ ·) as bs) := by
  induction as generalizing bs with
  | nil => exact absurd (List.length_eq_zero_iff.mp h.symm).symm hne
  | cons a as ih =>
      cases bs with
      | nil => simp at h
      | cons b bs =>
          have hl : as.length = bs.length := by simpa using h
          rw [List.zipWith_cons_cons, Bytes.toNat_cons, List.length_zipWith, ← hl, Nat.min_self,
            sharedBits, List.length_cons]
          by_cases hab : a = b
          · have hrest := ih hl (by simpa [hab] using hne)
            have hbits : 8 * (as.length + 1) - 1 - (8 + sharedBits as bs) =
                8 * as.length - 1 - sharedBits as bs := by omega
            simpa [hab, hbits] using hrest
          · obtain ⟨hlt, hlow, -⟩ := clz_bounds hab
            rw [if_neg hab]
            generalize (a ^^^ b).toBitVec.clz.toNat = zeros at hlt hlow
            calc
              2 ^ (8 * (as.length + 1) - 1 - zeros) = 2 ^ (7 - zeros + 8 * as.length) := by
                congr 1; omega
              _ = 2 ^ (7 - zeros) * 256 ^ as.length := by rw [Nat.pow_add, Nat.pow_mul]
              _ ≤ (a ^^^ b).toNat * 256 ^ as.length := Nat.mul_le_mul_right _ hlow
              _ ≤ _ := Nat.le_add_right _ _

/-- The shared bits of the exclusive or are zero. -/
theorem toNat_xor_lt_two_pow (h : as.length = bs.length) :
    Bytes.toNat (List.zipWith (· ^^^ ·) as bs) < 2 ^ (8 * as.length - sharedBits as bs) := by
  induction as generalizing bs with
  | nil => simp
  | cons a as ih =>
      cases bs with
      | nil => simp at h
      | cons b bs =>
          have hl : as.length = bs.length := by simpa using h
          have hrest := Bytes.toNat_lt (List.zipWith (· ^^^ ·) as bs)
          rw [List.length_zipWith, ← hl, Nat.min_self] at hrest
          rw [List.zipWith_cons_cons, Bytes.toNat_cons, List.length_zipWith, ← hl, Nat.min_self,
            sharedBits, List.length_cons]
          by_cases hab : a = b
          · have hbits : 8 * (as.length + 1) - (8 + sharedBits as bs) =
                8 * as.length - sharedBits as bs := by omega
            simpa [hab, hbits] using ih hl
          · obtain ⟨hlt, -, hhigh⟩ := clz_bounds hab
            rw [if_neg hab]
            generalize (a ^^^ b).toBitVec.clz.toNat = zeros at hlt hhigh
            calc
              (a ^^^ b).toNat * 256 ^ as.length + Bytes.toNat (List.zipWith (· ^^^ ·) as bs)
                < ((a ^^^ b).toNat + 1) * 256 ^ as.length := by
                  rw [Nat.add_mul]; omega
              _ ≤ 2 ^ (8 - zeros) * 256 ^ as.length := Nat.mul_le_mul_right _ hhigh
              _ = 2 ^ (8 - zeros + 8 * as.length) := by rw [Nat.pow_add, Nat.pow_mul]
              _ = 2 ^ (8 * (as.length + 1) - zeros) := by
                congr 1; omega

/-- The bounds leave one number of shared bits. -/
theorem sharedBits_eq_iff (h : as.length = bs.length) {i : Nat} (hi : i < 8 * as.length) :
    sharedBits as bs = i ↔
      2 ^ (8 * as.length - 1 - i) ≤ Bytes.toNat (List.zipWith (· ^^^ ·) as bs) ∧
      Bytes.toNat (List.zipWith (· ^^^ ·) as bs) < 2 ^ (8 * as.length - i) := by
  by_cases heq : as = bs
  · have hzero : Bytes.toNat (List.zipWith (· ^^^ ·) bs bs) = 0 := by
      rw [Bytes.toNat_zipWith_xor rfl, Nat.xor_self]
    have hpos : 0 < 2 ^ (8 * bs.length - 1 - i) := Nat.two_pow_pos _
    rw [heq] at hi ⊢
    rw [sharedBits_self, hzero]
    omega
  · have hlow := two_pow_le_toNat_xor h heq
    have hhigh := toNat_xor_lt_two_pow h
    constructor
    · intro hs
      rw [hs] at hlow hhigh
      exact ⟨hlow, hhigh⟩
    · intro hbounds
      have hlt := sharedBits_lt h heq
      have hle := (Nat.pow_lt_pow_iff_right (by decide)).mp (Nat.lt_of_le_of_lt hlow hbounds.2)
      have hge := (Nat.pow_lt_pow_iff_right (by decide)).mp (Nat.lt_of_le_of_lt hbounds.1 hhigh)
      omega

/-- Who shares more bits is closer. -/
theorem toNat_xor_lt_of_sharedBits_lt {ks : Bytes} (ha : ks.length = as.length)
    (hb : ks.length = bs.length) (h : sharedBits ks as < sharedBits ks bs) :
    Bytes.toNat (List.zipWith (· ^^^ ·) ks bs) < Bytes.toNat (List.zipWith (· ^^^ ·) ks as) := by
  have hle := sharedBits_le hb
  have hne : ks ≠ as := by
    intro heq
    rw [← heq, sharedBits_self] at h
    omega
  calc
    Bytes.toNat (List.zipWith (· ^^^ ·) ks bs) < 2 ^ (8 * ks.length - sharedBits ks bs) :=
      toNat_xor_lt_two_pow hb
    _ ≤ 2 ^ (8 * ks.length - 1 - sharedBits ks as) :=
      Nat.pow_le_pow_right (by decide) (by omega)
    _ ≤ Bytes.toNat (List.zipWith (· ^^^ ·) ks as) := two_pow_le_toNat_xor ha hne

/-! ## Between ids -/

/-- What it means for two ids to share `n` bits. -/
structure Shares (a b : Id) (n : Nat) : Prop where
  symm : b.commonPrefixLength a = .ok n
  le : n ≤ 8 * a.length
  eq_iff : n = 8 * a.length ↔ a = b
  /-- The first bit in which the ids differ comes behind the shared ones. -/
  bits_iff : ∀ i < 8 * a.length, n = i ↔ Bytes.ShareExactly i a.bytes b.bytes
  /-- It is the first one that is set in the distance. -/
  distance_iff : ∃ d, a.distance b = .ok d ∧ ∀ i < 8 * a.length,
    n = i ↔ 2 ^ (8 * a.length - 1 - i) ≤ d.toNat ∧ d.toNat < 2 ^ (8 * a.length - i)

variable {a b c : Id}

theorem shares_sharedBits (h : a.length = b.length) :
    Shares a b (sharedBits a.bytes b.bytes) where
  symm := by rw [commonPrefixLength_of_length_eq h.symm, sharedBits_comm]
  le := sharedBits_le h
  eq_iff := by
    constructor
    · intro hall
      by_contra hne
      have hlt := sharedBits_lt h fun heq => hne (Id.ext heq)
      exact absurd hall (Nat.ne_of_lt hlt)
    · intro heq
      rw [heq]
      exact sharedBits_self b.bytes
  bits_iff i hi := by
    constructor
    · intro hs
      have hne : a.bytes ≠ b.bytes := by
        intro heq
        rw [heq, sharedBits_self, ← heq] at hs
        exact absurd hs.symm (Nat.ne_of_lt hi)
      rw [← hs]
      exact shareExactly_sharedBits h hne
    · intro hshare
      exact (shareExactly_sharedBits h hshare.ne).unique hshare
  distance_iff := ⟨a.xor b, distance_of_length_eq h, fun _ hi => sharedBits_eq_iff h hi⟩

end Id

/-! ## Between buckets -/

namespace RoutingTable

variable {t : RoutingTable} {id : Id} {i : Nat}

theorem Belongs.sharedBits_eq (h : t.Belongs i id) : Id.sharedBits t.localId.bytes id.bytes = i :=
  ((Id.shares_sharedBits h.length_eq.symm).bits_iff i h.lt).mpr h.shared

/-- Whoever belongs in a later bucket is closer to the local node. -/
theorem Belongs.closer {other : Id} {j : Nat} (hi : t.Belongs i id) (hj : t.Belongs j other)
    (hij : i < j) : (t.localId.xor other).closer (t.localId.xor id) = true := by
  rw [← hi.sharedBits_eq, ← hj.sharedBits_eq] at hij
  rw [Distance.closer_iff]
  exact Id.toNat_xor_lt_of_sharedBits_lt hi.length_eq.symm hj.length_eq.symm hij

end RoutingTable

/-- **Shared bits and distances agree.**  The number of leading bits that two ids
of one length share tells the size of their distance, and the other way round.
Two ids share at least what both share with a third one.  Whatever calls have
made a routing table, the peers of a later bucket are closer to the local node
than those of an earlier one. -/
theorem Id.prefix_and_distance :
    (∀ a b : Id, a.length = b.length → ∃ n, a.commonPrefixLength b = .ok n ∧ Shares a b n) ∧
    (∀ a b c : Id, a.length = b.length → b.length = c.length → ∃ ab bc ac,
      a.commonPrefixLength b = .ok ab ∧ b.commonPrefixLength c = .ok bc ∧
        a.commonPrefixLength c = .ok ac ∧ min ab bc ≤ ac) ∧
    ∀ (localId : Id) (bucketSize : Nat) (calls : List RoutingTable.Call),
      let t := calls.foldl RoutingTable.after (RoutingTable.empty localId bucketSize)
      ∀ i j, i < j → ∀ p ∈ t.bucket i, ∀ q ∈ t.bucket j, ∃ far near,
        localId.distance p.id = .ok far ∧ localId.distance q.id = .ok near ∧
          near.closer far = true := by
  refine ⟨fun a b h => ?_, fun a b c hab hbc => ?_, fun localId bucketSize calls => ?_⟩
  · exact ⟨_, commonPrefixLength_of_length_eq h, shares_sharedBits h⟩
  · exact ⟨_, _, _, commonPrefixLength_of_length_eq hab, commonPrefixLength_of_length_eq hbc,
      commonPrefixLength_of_length_eq (hab.trans hbc), min_sharedBits_le hab hbc⟩
  · obtain ⟨hwf, hlocal, -⟩ :=
      (RoutingTable.wellFormed_empty localId bucketSize).foldl_after calls
    intro t i j hij p hp q hq
    have hi : t.Belongs i p.id := hwf.belongs hp
    have hj : t.Belongs j q.id := hwf.belongs hq
    have hid : t.localId = localId := hlocal
    rw [← hid]
    exact ⟨_, _, distance_of_length_eq hi.length_eq.symm, distance_of_length_eq hj.length_eq.symm,
      hi.closer hj hij⟩

namespace Id

namespace Leading

def whole : Id := ⟨[0b01011110, 0b11111111], by simp⟩

/-- It has the first four bits of `whole`, and not the fifth. -/
def four : Id := ⟨[0b01010000, 0b11011111], by simp⟩

/-- It has the first byte of `whole`, and not the bit behind it. -/
def eight : Id := ⟨[0b01011110, 0b01111111], by simp⟩

def peer (id : Id) : Peer := ⟨id, .ofIPv4 10 0 0 1 6881⟩

/-- A node meets the other two. -/
def calls : List RoutingTable.Call := [.add (peer four), .add (peer eight)]

def table : RoutingTable := calls.foldl RoutingTable.after (RoutingTable.empty whole 1)

end Leading

/-- Four bits and a whole byte. -/
theorem prefix_and_distance_leading :
    (Leading.whole.length = Leading.four.length ∧
      ∃ n, Leading.whole.commonPrefixLength Leading.four = .ok n ∧
        Shares Leading.whole Leading.four n) ∧
    (Leading.four.length = Leading.whole.length ∧ Leading.whole.length = Leading.eight.length ∧
      ∃ ab bc ac, Leading.four.commonPrefixLength Leading.whole = .ok ab ∧
        Leading.whole.commonPrefixLength Leading.eight = .ok bc ∧
        Leading.four.commonPrefixLength Leading.eight = .ok ac ∧ min ab bc ≤ ac) ∧
    Leading.peer Leading.four ∈ Leading.table.bucket 4 ∧
    Leading.peer Leading.eight ∈ Leading.table.bucket 8 ∧ ∃ far near,
      Leading.whole.distance Leading.four = .ok far ∧
        Leading.whole.distance Leading.eight = .ok near ∧ near.closer far = true := by
  obtain ⟨hshares, hmin, hbuckets⟩ := prefix_and_distance
  have hearlier : Leading.peer Leading.four ∈ Leading.table.bucket 4 := by decide +kernel
  have hlater : Leading.peer Leading.eight ∈ Leading.table.bucket 8 := by decide +kernel
  exact ⟨⟨rfl, hshares Leading.whole Leading.four rfl⟩,
    ⟨rfl, rfl, hmin Leading.four Leading.whole Leading.eight rfl rfl⟩, hearlier, hlater,
    hbuckets Leading.whole 1 Leading.calls 4 8 (by decide) _ hearlier _ hlater⟩

end Id

end Kademlia
