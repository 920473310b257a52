import Kademlia.Proofs.Numerals

/-!
# Kademlia.Proofs.Grammar

What is bencoded.  `Spells v s` says that the byte string `s` spells the value
`v`: numbers may have needless zeros, integers a plus sign, and the keys of a
dictionary may be any values in any order.

The reader accepts exactly what the grammar derives, and never looks at what
stands behind it (`decodePrefix?_eq_some_iff`).  So no spelling is the beginning
of another one (`Spells.eq_nil_of_append`).  What a value is encoded to spells
it, as long as its integers have 64 bits (`spells_int`, `spells_bytes`,
`spells_list`, `spells_dict`).
-/

namespace Kademlia.Bencode

/-! ## The grammar -/

/-- Keys and values one after the other. -/
def flatten (entries : List (Value × Value)) : List Value :=
  entries.flatMap fun entry => [entry.1, entry.2]

mutual

/-- The byte string spells the value. -/
inductive Spells : Value → Bytes → Prop where
  | int {text : Bytes} {n : Int} (h : signed64? text = some n) :
      Spells (.int n) (105 :: (text ++ [101]))
  | bytes {digits bs : Bytes} (h : unsigned? digits = some bs.length) :
      Spells (.bytes bs) (digits ++ 58 :: bs)
  | list {vs : List Value} {s : Bytes} (h : SpellsAll vs s) :
      Spells (.list vs) (108 :: (s ++ [101]))
  | dict {entries : List (Value × Value)} {s : Bytes} (h : SpellsAll (flatten entries) s) :
      Spells (.dict entries) (100 :: (s ++ [101]))

/-- The byte string spells the values one after the other. -/
inductive SpellsAll : List Value → Bytes → Prop where
  | nil : SpellsAll [] []
  | cons {v : Value} {vs : List Value} {s t : Bytes} (h : Spells v s) (hs : SpellsAll vs t) :
      SpellsAll (v :: vs) (s ++ t)

end

variable {s text digits bs rest : Bytes} {n : Nat}

/-! ## Numbers and byte strings -/

theorem of_unsigned? (h : unsigned? digits = some n) :
    digits ≠ [] ∧ (∀ d ∈ digits, isDigit d = true) ∧ digitsToNat digits = n := by
  unfold unsigned? at h
  split at h
  · contradiction
  · next hc =>
    simp only [Bool.or_eq_true, Bool.not_eq_true', not_or, Bool.not_eq_false, List.all_eq_true,
      List.isEmpty_iff] at hc
    exact ⟨hc.1, hc.2, Option.some.inj h⟩

/-- No integer is written with the letter that ends it. -/
theorem ne_of_mem_of_signed64? {n : Int} (h : signed64? text = some n) : ∀ c ∈ text, c ≠ 101 := by
  have hdigits {ds : Bytes} {m : Nat} (hds : unsigned? ds = some m) : ∀ c ∈ ds, c ≠ 101 := by
    rintro c hc rfl
    exact absurd ((of_unsigned? hds).2.1 _ hc) (by decide)
  unfold signed64? at h
  obtain ⟨h, _⟩ := Option.filter_eq_some_iff.mp h
  split at h
  all_goals
    simp [Option.bind_eq_some_iff] at h
    obtain ⟨m, hm, _⟩ := h
  · simpa using hdigits hm
  · simpa using hdigits hm
  · exact hdigits hm

theorem readInt_append {n : Int} (h : signed64? text = some n) (rest : Bytes) :
    readInt (text ++ 101 :: rest) = some (n, rest) := by
  have htake : (text ++ 101 :: rest).takeWhile (· != 101) = text := by
    rw [List.takeWhile_append_of_pos fun c hc => by simpa using ne_of_mem_of_signed64? h c hc]
    simp
  simp [readInt, htake, h]

theorem of_readInt {n : Int} (h : readInt s = some (n, rest)) :
    ∃ text, s = text ++ 101 :: rest ∧ signed64? text = some n := by
  simp only [readInt] at h
  split at h
  · contradiction
  · next c after hdrop =>
    obtain ⟨hs, hc⟩ := of_drop_takeWhile hdrop
    obtain rfl : c = 101 := by simpa using hc
    obtain ⟨m, hm, hpair⟩ := Option.map_eq_some_iff.mp h
    obtain ⟨rfl, rfl⟩ := Prod.mk.inj hpair
    exact ⟨_, hs, hm⟩

theorem readBytes_append (h : unsigned? digits = some bs.length) (rest : Bytes) :
    readBytes (digits ++ 58 :: (bs ++ rest)) = some (bs, rest) := by
  have htake : (digits ++ 58 :: (bs ++ rest)).takeWhile isDigit = digits := by
    rw [List.takeWhile_append_of_pos (of_unsigned? h).2.1, List.takeWhile_cons_of_neg (by decide),
      List.append_nil]
  simp [readBytes, htake, h]

theorem of_readBytes (h : readBytes s = some (bs, rest)) :
    ∃ digits, s = digits ++ 58 :: (bs ++ rest) ∧ unsigned? digits = some bs.length := by
  simp only [readBytes] at h
  split at h
  · next after hdrop =>
    obtain ⟨hs, -⟩ := of_drop_takeWhile hdrop
    obtain ⟨n, hn, h⟩ := Option.bind_eq_some_iff.mp h
    split at h
    · next hlen =>
      obtain ⟨rfl, rfl⟩ := Prod.mk.inj (Option.some.inj h)
      exact ⟨_, by rwa [List.take_append_drop], by rw [hn, hlen]⟩
    · contradiction
  · contradiction

/-! ## Dictionaries -/

theorem pairUp_flatten (entries : List (Value × Value)) :
    pairUp (flatten entries) = some entries := by
  induction entries with
  | nil => rfl
  | cons entry entries ih =>
    change pairUp (entry.1 :: entry.2 :: flatten entries) = _
    rw [pairUp, ih]
    rfl

theorem flatten_of_pairUp {vs : List Value} {entries : List (Value × Value)}
    (h : pairUp vs = some entries) : vs = flatten entries := by
  fun_induction pairUp vs generalizing entries with
  | case1 =>
    obtain rfl := Option.some.inj h
    rfl
  | case2 => contradiction
  | case3 k v rest ih =>
    obtain ⟨pairs, hpairs, rfl⟩ := Option.map_eq_some_iff.mp h
    rw [ih hpairs]
    rfl

/-! ## The reader -/

/-- A value does not begin with what ends a list. -/
theorem Spells.exists_cons {v : Value} (h : Spells v s) : ∃ c t, s = c :: t ∧ c ≠ 101 := by
  cases h with
  | int => exact ⟨_, _, rfl, by decide⟩
  | list => exact ⟨_, _, rfl, by decide⟩
  | dict => exact ⟨_, _, rfl, by decide⟩
  | @bytes digits bs h =>
    obtain ⟨hne, hall, -⟩ := of_unsigned? h
    cases digits with
    | nil => contradiction
    | cons d ds =>
      refine ⟨d, _, rfl, ?_⟩
      rintro rfl
      exact absurd (hall 101 (by simp)) (by decide)

mutual

/-- A spelled value is read, and what follows it is left. -/
theorem Spells.readValue {v : Value} {s : Bytes} (h : Spells v s) (rest : Bytes) (fuel : Nat)
    (hfuel : s.length ≤ fuel) : readValue fuel (s ++ rest) = some (v, rest) :=
  match h, fuel with
  | .int h, fuel + 1 => by
    simp [Bencode.readValue, readInt_append h]
  | @Spells.bytes digits bs h, fuel => by
    obtain ⟨d, ds, rfl⟩ := List.exists_cons_of_ne_nil (of_unsigned? h).1
    have hd : isDigit d = true := (of_unsigned? h).2.1 d (by simp)
    cases fuel with
    | zero => simp at hfuel
    | succ fuel =>
      have hread := readBytes_append h rest
      rw [List.cons_append] at hread
      have h105 : d ≠ 105 := by rintro rfl; exact absurd hd (by decide)
      have h108 : d ≠ 108 := by rintro rfl; exact absurd hd (by decide)
      have h100 : d ≠ 100 := by rintro rfl; exact absurd hd (by decide)
      simp [Bencode.readValue, h105, h108, h100, hd, hread]
  | .list h, fuel + 1 => by
    simp only [List.length_cons, List.length_append, List.length_nil] at hfuel
    have hread := h.readItems rest fuel (by omega)
    simp [Bencode.readValue, hread]
  | .dict h, fuel + 1 => by
    simp only [List.length_cons, List.length_append, List.length_nil] at hfuel
    have hread := h.readItems rest fuel (by omega)
    simp [Bencode.readValue, hread, pairUp_flatten]

/-- Spelled values are read up to the closing letter. -/
theorem SpellsAll.readItems {vs : List Value} {s : Bytes} (h : SpellsAll vs s) (rest : Bytes)
    (fuel : Nat) (hfuel : s.length < fuel) :
    readItems fuel (s ++ 101 :: rest) = some (vs, rest) :=
  match h, fuel with
  | .nil, fuel + 1 => by simp [Bencode.readItems]
  | @SpellsAll.cons _ _ s t h hs, fuel + 1 => by
    obtain ⟨c, s', rfl, hc⟩ := h.exists_cons
    simp only [List.length_cons, List.length_append] at hfuel
    have hread := h.readValue (t ++ 101 :: rest) fuel (by simp; omega)
    have hreads := hs.readItems rest fuel (by omega)
    rw [List.cons_append] at hread
    simp [Bencode.readItems, hc, hread, hreads]

end


mutual

/-- What is read as a value spells it. -/
theorem of_readValue : (fuel : Nat) → {s : Bytes} → {v : Value} → {rest : Bytes} →
    readValue fuel s = some (v, rest) → ∃ t, s = t ++ rest ∧ Spells v t
  | fuel + 1, c :: s, v, rest, h => by
    rw [readValue] at h
    split_ifs at h with hint hlist hdict hdigit
    · obtain ⟨⟨n, after⟩, hread, hpair⟩ := Option.map_eq_some_iff.mp h
      obtain ⟨rfl, rfl⟩ := Prod.mk.inj hpair
      obtain ⟨text, rfl, htext⟩ := of_readInt hread
      exact ⟨_, by simp [hint], .int htext⟩
    · obtain ⟨⟨vs, after⟩, hread, hpair⟩ := Option.map_eq_some_iff.mp h
      obtain ⟨rfl, rfl⟩ := Prod.mk.inj hpair
      obtain ⟨t, rfl, ht⟩ := of_readItems fuel hread
      exact ⟨_, by simp [hlist], .list ht⟩
    · obtain ⟨⟨vs, after⟩, hread, h⟩ := Option.bind_eq_some_iff.mp h
      obtain ⟨entries, hpairs, hpair⟩ := Option.map_eq_some_iff.mp h
      obtain ⟨rfl, rfl⟩ := Prod.mk.inj hpair
      obtain ⟨t, rfl, ht⟩ := of_readItems fuel hread
      rw [flatten_of_pairUp hpairs] at ht
      exact ⟨_, by simp [hdict], .dict ht⟩
    · obtain ⟨⟨bs, after⟩, hread, hpair⟩ := Option.map_eq_some_iff.mp h
      obtain ⟨rfl, rfl⟩ := Prod.mk.inj hpair
      obtain ⟨digits, hs, hdigits⟩ := of_readBytes hread
      exact ⟨_, by simpa using hs, .bytes hdigits⟩

/-- What is read up to the closing letter spells the values. -/
theorem of_readItems : (fuel : Nat) → {s : Bytes} → {vs : List Value} → {rest : Bytes} →
    readItems fuel s = some (vs, rest) → ∃ t, s = t ++ 101 :: rest ∧ SpellsAll vs t
  | fuel + 1, c :: s, vs, rest, h => by
    rw [readItems] at h
    split_ifs at h with hend
    · obtain ⟨rfl, rfl⟩ := Prod.mk.inj (Option.some.inj h)
      exact ⟨[], by simp [hend], .nil⟩
    · obtain ⟨⟨v, after⟩, hread, h⟩ := Option.bind_eq_some_iff.mp h
      obtain ⟨⟨ws, after'⟩, hreads, hpair⟩ := Option.map_eq_some_iff.mp h
      obtain ⟨rfl, rfl⟩ := Prod.mk.inj hpair
      obtain ⟨t, ht, hspells⟩ := of_readValue fuel hread
      obtain ⟨u, rfl, hspellsAll⟩ := of_readItems fuel hreads
      exact ⟨t ++ u, by simp [ht], .cons hspells hspellsAll⟩

end

/-- **The reader accepts what the grammar derives**, and leaves what follows. -/
theorem decodePrefix?_eq_some_iff {v : Value} {s rest : Bytes} :
    Value.decodePrefix? s = some (v, rest) ↔ ∃ t, s = t ++ rest ∧ Spells v t := by
  constructor
  · exact of_readValue s.length
  · rintro ⟨t, rfl, ht⟩
    exact ht.readValue rest _ (by simp)

/-- Whatever follows a spelling is left alone. -/
theorem Spells.decodePrefix?_append {v : Value} (h : Spells v s) (rest : Bytes) :
    Value.decodePrefix? (s ++ rest) = some (v, rest) :=
  decodePrefix?_eq_some_iff.mpr ⟨s, rfl, h⟩

/-- **No spelling is the beginning of another one.** -/
theorem Spells.eq_nil_of_append {v w : Value} (hv : Spells v s) (hw : Spells w (s ++ rest)) :
    rest = [] := by
  have hlong := hw.decodePrefix?_append []
  rw [List.append_nil, hv.decodePrefix?_append rest] at hlong
  exact (Prod.mk.inj (Option.some.inj hlong)).2

/-- **A spelling that is cut short cannot be read.** -/
theorem Spells.decodePrefix?_eq_none {v : Value} {p : Bytes} (h : Spells v s) (hp : p <+: s)
    (hne : p ≠ s) : Value.decodePrefix? p = none := by
  cases hread : Value.decodePrefix? p with
  | none => rfl
  | some result =>
    obtain ⟨w, rest⟩ := result
    obtain ⟨t, rfl, ht⟩ := decodePrefix?_eq_some_iff.mp hread
    obtain ⟨x, rfl⟩ := hp
    rw [List.append_assoc] at h
    have hnil := ht.eq_nil_of_append h
    rw [(List.append_eq_nil_iff.mp hnil).2, List.append_nil] at hne
    contradiction

/-! ## The parts of a spelling -/

/-- An integer that is spelled fits into 64 bits. -/
theorem Spells.le_of_int {n : Int} (h : Spells (.int n) s) : n ≤ Int64.maxValue.toInt := by
  cases h with
  | int h =>
    have hrange := (Option.filter_eq_some_iff.mp h).2
    rw [Bool.and_eq_true] at hrange
    exact of_decide_eq_true hrange.2

theorem SpellsAll.of_mem {v : Value} {vs : List Value} (h : SpellsAll vs s) (hv : v ∈ vs) :
    ∃ t, Spells v t := by
  induction vs generalizing s with
  | nil => contradiction
  | cons w vs ih =>
    cases h with
    | cons hw hvs =>
      rcases List.mem_cons.mp hv with rfl | hv
      · exact ⟨_, hw⟩
      · exact ih hvs hv

theorem Spells.of_mem_list {v : Value} {vs : List Value} (h : Spells (.list vs) s) (hv : v ∈ vs) :
    ∃ t, Spells v t := by
  cases h with
  | list h => exact h.of_mem hv

theorem Spells.of_mem_dict {entry : Value × Value} {entries : List (Value × Value)}
    (h : Spells (.dict entries) s) (hentry : entry ∈ entries) : ∃ t, Spells entry.2 t := by
  cases h with
  | dict h => exact h.of_mem (List.mem_flatMap.mpr ⟨entry, hentry, by simp⟩)

/-! ## Writing -/

theorem spells_int {n : Int} (hmin : Int64.minValue.toInt ≤ n) (hmax : n ≤ Int64.maxValue.toInt) :
    Spells (.int n) (Value.int n).encode := by
  rw [Value.encode]
  exact .int (signed64?_signedDecimal hmin hmax)

theorem spells_bytes (bs : Bytes) : Spells (.bytes bs) (Value.bytes bs).encode := by
  rw [Value.encode]
  exact .bytes (unsigned?_decimal bs.length)

theorem spellsAll_encodeItems {vs : List Value} (h : ∀ v ∈ vs, Spells v v.encode) :
    SpellsAll vs (encodeItems vs) := by
  induction vs with
  | nil =>
    rw [encodeItems]
    exact .nil
  | cons v vs ih =>
    rw [encodeItems]
    exact .cons (h v (by simp)) (ih fun w hw => h w (by simp [hw]))

theorem spells_list {vs : List Value} (h : ∀ v ∈ vs, Spells v v.encode) :
    Spells (.list vs) (Value.list vs).encode := by
  rw [Value.encode]
  exact .list (spellsAll_encodeItems h)

theorem encodeEntries_eq (entries : List (Value × Value)) :
    encodeEntries entries = encodeItems (flatten entries) := by
  induction entries with
  | nil => rfl
  | cons entry entries ih =>
    change encodeEntries ((entry.1, entry.2) :: entries) =
      encodeItems (entry.1 :: entry.2 :: flatten entries)
    rw [encodeEntries, encodeItems, encodeItems, ih, List.append_assoc]

theorem spells_dict {entries : List (Value × Value)}
    (h : ∀ entry ∈ entries, Spells entry.1 entry.1.encode ∧ Spells entry.2 entry.2.encode) :
    Spells (.dict entries) (Value.dict entries).encode := by
  rw [Value.encode, encodeEntries_eq]
  refine .dict (spellsAll_encodeItems fun v hv => ?_)
  obtain ⟨entry, hentry, hv⟩ := List.mem_flatMap.mp hv
  rcases List.mem_pair.mp hv with rfl | rfl
  · exact (h entry hentry).1
  · exact (h entry hentry).2

end Kademlia.Bencode
