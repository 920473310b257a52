import Kademlia.Proofs.Table
import Mathlib.Data.List.Range

/-!
# Kademlia.Proofs.Buckets

What a routing table holds after any calls.  The bucket of an id is told by its
bits (`RoutingTable.Belongs`): the number of leading bits that it shares with
the local id, no more and no fewer.

* `RoutingTable.Sound` says what the buckets hold.  It is what a well-formed
  table comes to once the buckets are seen from outside, by their number.
* `RoutingTable.Adds` and `RoutingTable.Removes` say what becomes of a call:
  how it fails, and what it leaves as it was.

A call keeps tables well formed, so all of this holds after any number of calls
to an empty table (`RoutingTable.sound_after`).
-/

namespace Kademlia

/-! ## Bits -/

namespace Bytes

/-- Bit `n` of a byte string; bit 0 is the most significant one of the first byte. -/
def bit (bs : Bytes) (n : Nat) : Bool := (bs.getD (n / 8) 0).toBitVec.getMsbD (n % 8)

/-- The byte strings have the first `n` bits in common, and differ in the next one. -/
def ShareExactly (n : Nat) (as bs : Bytes) : Prop :=
  (∀ j < n, as.bit j = bs.bit j) ∧ as.bit n ≠ bs.bit n

variable {as bs : Bytes} {a b : UInt8} {m n : Nat}

theorem bit_cons_of_lt (h : n < 8) : bit (b :: bs) n = b.toBitVec.getMsbD n := by
  simp [bit, Nat.div_eq_of_lt h, Nat.mod_eq_of_lt h]

theorem bit_cons_add (b : UInt8) (bs : Bytes) (n : Nat) : bit (b :: bs) (8 + n) = bit bs n := by
  simp [bit]

theorem ShareExactly.unique (hm : ShareExactly m as bs) (hn : ShareExactly n as bs) : m = n := by
  rcases Nat.lt_trichotomy m n with h | h | h
  · exact absurd (hn.1 m h) hm.2
  · exact h
  · exact absurd (hm.1 n h) hn.2

theorem ShareExactly.ne (h : ShareExactly n as bs) : as ≠ bs := by
  rintro rfl
  exact h.2 rfl

/-- The zeros in front of the exclusive or of two bytes are the bits they share. -/
theorem shareExactly_clz (h : a ≠ b) (as bs : Bytes) :
    ShareExactly (a ^^^ b).toBitVec.clz.toNat (a :: as) (b :: bs) := by
  have hne : (a ^^^ b).toBitVec ≠ 0#8 := by
    intro hzero
    have hxor : a ^^^ b = 0 := UInt8.toBitVec_inj.mp hzero
    exact h (UInt8.xor_eq_zero_iff.mp hxor)
  have hlt : (a ^^^ b).toBitVec.clz.toNat < 8 := BitVec.clz_lt_iff_ne_zero.mpr hne
  have hbit (j : Nat) :
      (a ^^^ b).toBitVec.getMsbD j = (a.toBitVec.getMsbD j ^^ b.toBitVec.getMsbD j) := by
    simp
  constructor
  · intro j hj
    have hsmall : (a ^^^ b).toBitVec.toNat < 2 ^ (8 - 1 - j) :=
      Nat.lt_of_lt_of_le BitVec.toNat_lt_two_pow_sub_clz
        (Nat.pow_le_pow_right (by omega) (by omega))
    have hzero : (a ^^^ b).toBitVec.getMsbD j = false := by
      rw [BitVec.getMsbD_eq_getLsbD, ← BitVec.testBit_toNat, Nat.testBit_lt_two_pow hsmall]
      simp
    rw [bit_cons_of_lt (by omega), bit_cons_of_lt (by omega)]
    simpa [hbit] using hzero
  · have hone : (a ^^^ b).toBitVec.getMsbD (a ^^^ b).toBitVec.clz.toNat = true := by
      rw [BitVec.getMsbD_eq_getLsbD, BitVec.getLsbD_true_clz_of_ne_zero (by omega) hne]
      simpa using hlt
    rw [bit_cons_of_lt hlt, bit_cons_of_lt hlt]
    simpa [hbit] using hone

end Bytes

/-- **The shared bits are the leading ones that two ids have in common.** -/
theorem Id.shareExactly_sharedBits {as bs : Bytes} (hl : as.length = bs.length) (h : as ≠ bs) :
    Bytes.ShareExactly (sharedBits as bs) as bs := by
  induction as generalizing bs with
  | nil => exact absurd (List.length_eq_zero_iff.mp hl.symm).symm h
  | cons a as ih =>
    cases bs with
    | nil => simp at hl
    | cons b bs =>
      rw [sharedBits]
      by_cases hab : a = b
      · subst hab
        rw [if_pos rfl]
        obtain ⟨hsame, hdiffer⟩ := ih (by simpa using hl) (by simpa using h)
        constructor
        · intro j hj
          by_cases hj8 : j < 8
          · rw [Bytes.bit_cons_of_lt hj8, Bytes.bit_cons_of_lt hj8]
          · obtain ⟨i, rfl⟩ := Nat.exists_eq_add_of_le (Nat.le_of_not_lt hj8)
            rw [Bytes.bit_cons_add, Bytes.bit_cons_add]
            exact hsame i (by omega)
        · rw [Bytes.bit_cons_add, Bytes.bit_cons_add]
          exact hdiffer
      · rw [if_neg hab]
        exact Bytes.shareExactly_clz hab as bs

/-- The first byte and one bit more. -/
example : Id.sharedBits [0xff, 0x80] [0xff, 0xc0] = 9 := by decide

namespace RoutingTable

variable {t t' : RoutingTable} {peer p : Peer} {id : Id} {i : Nat}

/-! ## Buckets by number -/

/-- Bucket `i` is the one for this id. -/
structure Belongs (t : RoutingTable) (i : Nat) (id : Id) : Prop where
  length_eq : id.length = t.localId.length
  lt : i < 8 * t.localId.length
  shared : Bytes.ShareExactly i t.localId.bytes id.bytes

theorem Belongs.ne (h : t.Belongs i id) : id ≠ t.localId := by
  rintro rfl
  exact h.shared.ne rfl

/-- Only one bucket is the one for an id. -/
theorem Belongs.unique {j : Nat} (hi : t.Belongs i id) (hj : t.Belongs j id) : i = j :=
  hi.shared.unique hj.shared

/-- The index that the table computes is that of the bucket that the id belongs to. -/
theorem belongs_of_bucketIndex? {j : Fin (8 * t.localId.length)}
    (h : t.bucketIndex? id = .ok (some j)) : t.Belongs j id := by
  obtain ⟨hl, hne⟩ := of_bucketIndex? h
  have hshared : Id.sharedBits t.localId.bytes id.bytes = j := by
    rw [bucketIndex?, Id.commonPrefixLength_of_length_eq hl.symm] at h
    simp only [bind, Except.bind, pure, Except.pure, Except.ok.injEq] at h
    split at h
    · obtain rfl := Option.some.inj h
      rfl
    · contradiction
  refine ⟨hl, j.isLt, ?_⟩
  rw [← hshared]
  exact Id.shareExactly_sharedBits hl.symm fun heq => hne (Id.ext heq.symm)

theorem bucketIndex?_iff {j : Fin (8 * t.localId.length)} :
    t.bucketIndex? id = .ok (some j) ↔ t.Belongs j id := by
  constructor
  · exact belongs_of_bucketIndex?
  · intro h
    obtain ⟨k, hk⟩ := exists_bucketIndex? h.length_eq h.ne
    rw [hk, Fin.ext ((belongs_of_bucketIndex? hk).unique h)]

theorem bucket_eq (t : RoutingTable) (j : Fin (8 * t.localId.length)) :
    t.bucket j = (t.buckets.get j).peers := by
  rw [bucket, Vector.getElem?_eq_getElem j.isLt]
  rfl

theorem bucket_of_le (h : 8 * t.localId.length ≤ i) : t.bucket i = [] := by
  rw [bucket, Vector.getElem?_eq_none h]

/-- What holds of nobody and of every bucket holds of the bucket with any number. -/
theorem bucket_rule {motive : List Peer → Prop} (hnobody : motive [])
    (hget : ∀ j, motive (t.buckets.get j).peers) (i : Nat) : motive (t.bucket i) := by
  by_cases hi : i < 8 * t.localId.length
  · rw [bucket_eq t ⟨i, hi⟩]
    exact hget _
  · rw [bucket_of_le (Nat.le_of_not_lt hi)]
    exact hnobody

theorem lt_of_mem_bucket (hp : p ∈ t.bucket i) : i < 8 * t.localId.length := by
  by_contra hle
  rw [bucket_of_le (Nat.le_of_not_lt hle)] at hp
  contradiction

theorem bucket_setBucket (t : RoutingTable) (j : Fin (8 * t.localId.length))
    (b : Bucket t.bucketSize) (i : Nat) :
    (t.setBucket j b).bucket i = if i = j then b.peers else t.bucket i := by
  by_cases hi : i < 8 * t.localId.length
  · have hget := congrArg Bucket.peers (get_setBucket t j ⟨i, hi⟩ b)
    have hset : (t.setBucket j b).bucket i = _ := (bucket_eq (t.setBucket j b) ⟨i, hi⟩).trans hget
    have hold : t.bucket i = _ := bucket_eq t ⟨i, hi⟩
    rw [hset, hold]
    by_cases hij : j = ⟨i, hi⟩
    · subst hij
      simp
    · rw [if_neg hij, if_neg fun heq => hij (Fin.ext heq.symm)]
  · have hne : i ≠ j := by omega
    have hle := Nat.le_of_not_lt hi
    have hset : (t.setBucket j b).bucket i = [] := bucket_of_le hle
    rw [hset, if_neg hne, bucket_of_le hle]

theorem peers_eq (t : RoutingTable) :
    t.peers = (List.range (8 * t.localId.length)).flatMap t.bucket := by
  rw [peers, List.flatMap_def, List.flatMap_def]
  congr 1
  refine List.ext_getElem (by simp) fun i hi hi' => ?_
  simp at hi
  rw [List.getElem_map, List.getElem_map, List.getElem_range]
  exact (bucket_eq t ⟨i, hi⟩).symm

theorem mem_peers_iff_bucket : p ∈ t.peers ↔ ∃ i, p ∈ t.bucket i := by
  rw [peers_eq, List.mem_flatMap]
  constructor
  · rintro ⟨i, -, hp⟩
    exact ⟨i, hp⟩
  · rintro ⟨i, hp⟩
    exact ⟨i, List.mem_range.mpr (lt_of_mem_bucket hp), hp⟩

theorem size_eq (t : RoutingTable) : t.size = t.peers.length := by
  rw [size, peers]
  induction t.buckets.toList with
  | nil => rfl
  | cons b bs ih => rw [List.foldr_cons, ih, List.flatMap_cons, List.length_append, Bucket.size]

/-! ## What the buckets hold -/

/-- What can be relied on about the peers of a table. -/
structure Sound (t : RoutingTable) : Prop where
  /-- A peer stands in the bucket that its id belongs to. -/
  belongs : ∀ i, ∀ p ∈ t.bucket i, t.Belongs i p.id
  /-- The local node stands in none. -/
  ne_localId : ∀ i, ∀ p ∈ t.bucket i, p.id ≠ t.localId
  bounded : ∀ i, (t.bucket i).length ≤ t.bucketSize
  distinct : ∀ i, ((t.bucket i).map (·.id)).Nodup
  /-- No id is known twice, in whatever buckets. -/
  unique : (t.peers.map (·.id)).Nodup
  contains_iff : ∀ id, t.contains id = true ↔ ∃ p ∈ t.peers, p.id = id
  size_eq : t.size = t.peers.length
  /-- The bucket that is looked into for an id is the one that it belongs to. -/
  index_iff : ∀ id (j : Fin (8 * t.localId.length)),
    t.bucketIndex? id = .ok (some j) ↔ t.Belongs j id
  /-- There is a bucket for any number of shared bits but that of the local id. -/
  in_range : ∀ id n, t.localId.commonPrefixLength id = .ok n →
    n ≠ 8 * t.localId.length → n < t.buckets.toList.length

namespace WellFormed

theorem belongs (h : t.WellFormed) (hp : p ∈ t.bucket i) : t.Belongs i p.id := by
  have hi := lt_of_mem_bucket hp
  rw [bucket_eq t ⟨i, hi⟩] at hp
  exact belongs_of_bucketIndex? (h.placed _ p hp)

theorem nodup_bucket (h : t.WellFormed) (i : Nat) : ((t.bucket i).map (·.id)).Nodup :=
  bucket_rule (motive := fun ps => (ps.map (·.id)).Nodup) List.nodup_nil h.distinct i

theorem length_bucket_le (h : t.WellFormed) (i : Nat) : (t.bucket i).length ≤ t.bucketSize :=
  bucket_rule (motive := fun ps => ps.length ≤ t.bucketSize) (Nat.zero_le _) h.bounded i

/-- Who is known by an id is known in the bucket of the id. -/
theorem mem_bucket (h : t.WellFormed) (hp : p ∈ t.peers) (hi : t.Belongs i p.id) :
    p ∈ t.bucket i := by
  obtain ⟨j, hj⟩ := mem_peers_iff_bucket.mp hp
  rwa [(h.belongs hj).unique hi] at hj

theorem nodup_peers (h : t.WellFormed) : (t.peers.map (·.id)).Nodup := by
  rw [peers_eq, List.map_flatMap, List.nodup_flatMap]
  refine ⟨fun i _ => h.nodup_bucket i, List.nodup_range.imp fun {i j} hij id hi hj => hij ?_⟩
  obtain ⟨p, hp, rfl⟩ := List.mem_map.mp hi
  obtain ⟨q, hq, heq⟩ := List.mem_map.mp hj
  exact (h.belongs hp).unique (heq ▸ h.belongs hq)

theorem contains_iff (h : t.WellFormed) (id : Id) :
    t.contains id = true ↔ ∃ p ∈ t.peers, p.id = id := by
  constructor
  · intro hc
    rw [contains] at hc
    split at hc
    · next j hj =>
      obtain ⟨p, hp, hid⟩ := (Bucket.contains_iff _ _).mp hc
      exact ⟨p, mem_peers.mpr ⟨j, hp⟩, hid⟩
    · contradiction
  · rintro ⟨p, hp, rfl⟩
    obtain ⟨j, hj⟩ := mem_peers.mp hp
    rw [contains, h.placed j p hj]
    exact (Bucket.contains_iff _ _).mpr ⟨p, hj, rfl⟩

/-- **What well-formed tables hold.** -/
theorem sound (h : t.WellFormed) : t.Sound where
  belongs _ _ hp := h.belongs hp
  ne_localId _ _ hp := (h.belongs hp).ne
  bounded := h.length_bucket_le
  distinct := h.nodup_bucket
  unique := h.nodup_peers
  contains_iff := h.contains_iff
  size_eq := t.size_eq
  index_iff _ _ := bucketIndex?_iff
  in_range id n hn hne := by
    rw [Vector.length_toList]
    by_cases hl : t.localId.length = id.length
    · rw [Id.commonPrefixLength_of_length_eq hl] at hn
      obtain rfl := Except.ok.inj hn
      by_cases heq : t.localId.bytes = id.bytes
      · rw [← heq, Id.sharedBits_self] at hne
        contradiction
      · exact Id.sharedBits_lt hl heq
    · rw [Id.commonPrefixLength_of_length_ne hl] at hn
      contradiction

end WellFormed

/-! ## Calls -/

/-- A change that is asked for. -/
inductive Call where
  | add (peer : Peer)
  | remove (peer : Peer)

/-- Carries out a call. -/
def call (t : RoutingTable) : Call → Except Error RoutingTable
  | .add peer => t.add peer
  | .remove peer => t.remove peer.id

/-- The table after a call; one that fails leaves it as it was. -/
def after (t : RoutingTable) (c : Call) : RoutingTable :=
  match t.call c with
  | .ok t' => t'
  | .error _ => t

/-! ## Adding -/

/-- No known peer has the id. -/
def New (t : RoutingTable) (id : Id) : Prop := ∀ p ∈ t.peers, p.id ≠ id

/-- What comes of adding a peer. -/
structure Adds (t : RoutingTable) (peer : Peer) : Prop where
  mismatch_iff : (∃ expected actual, t.add peer = .error (.id (.lengthMismatch expected actual))) ↔
    peer.id.length ≠ t.localId.length
  noSpace_iff : t.add peer = .error .noSpace ↔ t.New peer.id ∧ peer.id ≠ t.localId ∧
    ∃ i, t.Belongs i peer.id ∧ (t.bucket i).length = t.bucketSize
  /-- It fails in no other way, and then nothing changes. -/
  of_error : ∀ e, t.add peer = .error e → t.after (.add peer) = t ∧
    (e = .noSpace ∨ ∃ expected actual, e = .id (.lengthMismatch expected actual))
  /-- Known peers and the local node change nothing. -/
  of_known : ¬ t.New peer.id ∨ peer.id = t.localId → t.add peer = .ok t
  /-- Anybody else goes behind the others of one bucket. -/
  of_ok : ∀ t', t.add peer = .ok t' → t.New peer.id → peer.id ≠ t.localId →
    t'.localId = t.localId ∧ t'.bucketSize = t.bucketSize ∧ ∃ i, t.Belongs i peer.id ∧
      ∀ j, t'.bucket j = if j = i then t.bucket j ++ [peer] else t.bucket j

/-- An id that is not in its bucket is nowhere else. -/
theorem WellFormed.new_of_bucket (h : t.WellFormed) {j : Fin (8 * t.localId.length)}
    (hj : t.bucketIndex? id = .ok (some j)) (hc : ¬ ∃ p ∈ (t.buckets.get j).peers, p.id = id) :
    t.New id := by
  rintro p hp rfl
  have hmem := h.mem_bucket hp (belongs_of_bucketIndex? hj)
  rw [bucket_eq] at hmem
  exact hc ⟨p, hmem, rfl⟩

theorem WellFormed.adds (h : t.WellFormed) (peer : Peer) : t.Adds peer := by
  have hadd := addition t peer
  generalize hresult : t.add peer = result at hadd
  cases hadd with
  | foreign hl =>
    have hnot (i : Nat) : ¬ t.Belongs i peer.id := fun hi => hl hi.length_eq
    have hnew : t.New peer.id := fun p hp heq => hl (heq ▸ (h.of_mem hp).1)
    have hlocal : peer.id ≠ t.localId := fun heq => hl (congrArg Id.length heq)
    constructor <;> simp [hresult, hl, hnot, hnew, hlocal, after, call]
  | self hid =>
    constructor <;> simp [hresult, hid, after, call]
  | known j hj hc =>
    obtain ⟨p, hp, hid⟩ := hc
    have hnew : ¬ t.New peer.id := fun hnew => hnew p (mem_peers.mpr ⟨j, hp⟩) hid
    constructor <;> simp [hresult, (of_bucketIndex? hj).1, hnew, after, call]
  | full j hj hc hfull =>
    have hnew := h.new_of_bucket hj hc
    have hbelongs := belongs_of_bucketIndex? hj
    rw [← bucket_eq] at hfull
    have hlength := Nat.le_antisymm (h.length_bucket_le j) hfull
    have hfullAt : ∃ i, t.Belongs i peer.id ∧ (t.bucket i).length = t.bucketSize :=
      ⟨j, hbelongs, hlength⟩
    constructor <;>
      simp [hresult, hbelongs.length_eq, hbelongs.ne, hnew, hfullAt, after, call]
  | new j hj hc hroom =>
    have hnew := h.new_of_bucket hj hc
    have hbelongs := belongs_of_bucketIndex? hj
    rw [← bucket_eq] at hroom
    have hnotFull : ∀ i, t.Belongs i peer.id → (t.bucket i).length ≠ t.bucketSize := by
      intro i hi
      rw [hi.unique hbelongs]
      exact Nat.ne_of_lt hroom
    constructor
    case of_ok =>
      intro t' ht' _ _
      obtain rfl := Except.ok.inj (hresult.symm.trans ht')
      refine ⟨rfl, rfl, j, hbelongs, fun i => ?_⟩
      rw [bucket_setBucket, ← bucket_eq]
      split
      · next hij => rw [hij]
      · rfl
    case noSpace_iff => simpa [hresult, hnew, hbelongs.ne] using hnotFull
    all_goals simp [hresult, hbelongs.length_eq, hbelongs.ne, hnew]

/-! ## Removing -/

/-- Without repetitions, to take out the first peer with an id is to take out all. -/
theorem eraseP_eq_filter {ps : List Peer} (h : (ps.map (·.id)).Nodup) (id : Id) :
    ps.eraseP (·.id == id) = ps.filter (·.id ≠ id) := by
  induction ps with
  | nil => rfl
  | cons p ps ih =>
    obtain ⟨hp, hps⟩ := List.nodup_cons.mp h
    by_cases hid : p.id = id
    · subst hid
      rw [List.eraseP_cons_of_pos (by simp), List.filter_cons_of_neg (by simp), eq_comm,
        List.filter_eq_self]
      intro q hq
      have hne : q.id ≠ p.id := fun heq => hp (List.mem_map.mpr ⟨q, hq, heq⟩)
      simpa using hne
    · rw [List.eraseP_cons_of_neg (by simpa using hid),
        List.filter_cons_of_pos (by simpa using hid), ih hps]

theorem filter_eq_self_of_ne {ps : List Peer} (h : ∀ p ∈ ps, p.id ≠ id) :
    ps.filter (·.id ≠ id) = ps := by
  rw [List.filter_eq_self]
  simpa using h

/-- Removing looks at one bucket, or at none for the local id. -/
theorem remove_of_length_eq (hl : id.length = t.localId.length) :
    id = t.localId ∧ t.remove id = .ok t ∨ ∃ j : Fin (8 * t.localId.length), t.Belongs j id ∧
      t.remove id = .ok (t.setBucket j ((t.buckets.get j).remove id)) := by
  by_cases hid : id = t.localId
  · refine .inl ⟨hid, ?_⟩
    rw [remove, hid, bucketIndex?_localId]
    rfl
  · obtain ⟨j, hj⟩ := exists_bucketIndex? hl hid
    refine .inr ⟨j, belongs_of_bucketIndex? hj, ?_⟩
    rw [remove, hj]
    rfl

/-- What comes of removing an id. -/
structure Removes (t : RoutingTable) (id : Id) : Prop where
  mismatch_iff : (∃ expected actual, t.remove id = .error (.id (.lengthMismatch expected actual))) ↔
    id.length ≠ t.localId.length
  /-- The peer with the id is missing afterwards; the others stay in their order. -/
  of_length_eq : id.length = t.localId.length → ∃ t', t.remove id = .ok t' ∧
    t'.localId = t.localId ∧ t'.bucketSize = t.bucketSize ∧
    (∀ i, t'.bucket i = (t.bucket i).filter (·.id ≠ id)) ∧
    t'.peers = t.peers.filter (·.id ≠ id)

theorem WellFormed.exists_remove (h : t.WellFormed) (hl : id.length = t.localId.length) :
    ∃ t', t.remove id = .ok t' ∧ t'.localId = t.localId ∧ t'.bucketSize = t.bucketSize ∧
      ∀ i, t'.bucket i = (t.bucket i).filter (·.id ≠ id) := by
  obtain ⟨rfl, hremove⟩ | ⟨j, hj, hremove⟩ := remove_of_length_eq hl
  · exact ⟨t, hremove, rfl, rfl,
      fun i => (filter_eq_self_of_ne fun p hp => (h.belongs hp).ne).symm⟩
  · refine ⟨_, hremove, rfl, rfl, fun i => ?_⟩
    rw [bucket_setBucket]
    split
    · next hij => rw [hij, bucket_eq, Bucket.remove, eraseP_eq_filter (h.distinct j)]
    · next hij =>
      refine (filter_eq_self_of_ne fun p hp heq => hij ?_).symm
      exact (h.belongs hp).unique (heq ▸ hj)

theorem WellFormed.removes (h : t.WellFormed) (id : Id) : t.Removes id := by
  by_cases hl : id.length = t.localId.length
  · obtain ⟨t', hremove, hlocal, hsize, hbucket⟩ := h.exists_remove hl
    have hpeers : t'.peers = t.peers.filter (·.id ≠ id) := by
      have hbuckets : t'.bucket = fun i => (t.bucket i).filter (·.id ≠ id) := funext hbucket
      rw [peers_eq, peers_eq, hlocal, List.filter_flatMap, hbuckets]
    exact ⟨by simp [hremove, hl], fun _ => ⟨t', hremove, hlocal, hsize, hbucket, hpeers⟩⟩
  · have hremove : t.remove id = .error (.id (.lengthMismatch t.localId.length id.length)) := by
      rw [RoutingTable.remove, bucketIndex?_of_length_ne hl]
      rfl
    constructor <;> simp [hremove, hl]

/-! ## Any number of calls -/

theorem after_add (t : RoutingTable) (peer : Peer) : t.after (.add peer) = t.meet peer := rfl

@[simp] theorem localId_after (t : RoutingTable) (c : Call) :
    (t.after c).localId = t.localId := by
  cases c with
  | add peer => rw [after_add, localId_meet]
  | remove peer =>
    rw [after]
    split
    · next hremove => exact localId_remove hremove
    · rfl

@[simp] theorem bucketSize_after (t : RoutingTable) (c : Call) :
    (t.after c).bucketSize = t.bucketSize := by
  cases c with
  | add peer => rw [after_add, bucketSize_meet]
  | remove peer =>
    rw [after]
    split
    · next hremove => obtain rfl | ⟨j, rfl⟩ := of_remove hremove <;> rfl
    · rfl

theorem WellFormed.after (h : t.WellFormed) (c : Call) : (t.after c).WellFormed := by
  cases c with
  | add peer =>
    rw [after_add]
    exact h.meet peer
  | remove peer =>
    rw [RoutingTable.after]
    split
    · next hremove => exact h.remove hremove
    · exact h

/-- Calls keep a table well formed, and it stays that of its node. -/
theorem WellFormed.foldl_after (h : t.WellFormed) (calls : List Call) :
    (calls.foldl RoutingTable.after t).WellFormed ∧
      (calls.foldl RoutingTable.after t).localId = t.localId ∧
      (calls.foldl RoutingTable.after t).bucketSize = t.bucketSize := by
  induction calls generalizing t with
  | nil => exact ⟨h, rfl, rfl⟩
  | cons c calls ih => simpa using ih (h.after c)

/-- **The representation invariant.**  Whatever was asked for before, in
whatever order and with whatever results, the buckets hold what they should, and
the next call does what it should. -/
theorem sound_after (localId : Id) (bucketSize : Nat) (calls : List Call) :
    let t := calls.foldl after (empty localId bucketSize)
    t.localId = localId ∧ t.bucketSize = bucketSize ∧ t.Sound ∧ (∀ peer, t.Adds peer) ∧
      ∀ id, t.Removes id := by
  obtain ⟨h, hlocal, hsize⟩ := (wellFormed_empty localId bucketSize).foldl_after calls
  exact ⟨hlocal, hsize, h.sound, h.adds, h.removes⟩

end RoutingTable
end Kademlia
