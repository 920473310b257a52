import Kademlia.Id
import Kademlia.Proofs.Numerals

/-!
# Kademlia.Proofs.HexText

Which texts are ids.  Reading takes the bytes of a text two at a time, whatever
characters they belong to; so one that is not in ASCII is refused wherever it
is cut, and the others are told by their characters: pairs of hexadecimal
digits, with a plus sign allowed in the place of the first digit of a pair
(`Hex.map_encode_decode?`).

What is read is displayed in lower case, with a zero for each plus sign, and
what is displayed is read back (`Id.parse_text`).
-/

namespace Kademlia

namespace Hex

/-! ## Characters -/

/-- Whether a character is a hexadecimal digit, in either case. -/
def isDigit (c : Char) : Bool :=
  ('0' ≤ c && c ≤ '9') || ('a' ≤ c && c ≤ 'f') || ('A' ≤ c && c ≤ 'F')

/-- Whether characters are pairs of digits, where a plus sign may stand in the
place of a pair's first one. -/
def isPairs : List Char → Bool
  | [] => true
  | [_] => false
  | hi :: lo :: rest => (isDigit hi || hi == '+') && isDigit lo && isPairs rest

/-- The digit that is displayed for a character. -/
def plain (c : Char) : Char := if c = '+' then '0' else c.toLower

/-- The byte of a character of ASCII. -/
def code (c : Char) : UInt8 := UInt8.ofNat c.toNat

/-- What holds of all 128 characters of ASCII. -/
theorem ascii_rule {motive : Char → Prop} (h : ∀ n < 128, motive (Char.ofNat n)) (c : Char)
    (hc : c.toNat < 128) : motive c := by
  have hchar := h c.toNat hc
  rwa [Char.ofNat_toNat] at hchar

/-- What is no digit has no value. -/
theorem map_digit_value? (c : Char) (hc : c.toNat < 128) :
    (value? (code c)).map digit = if isDigit c then some (plain c) else none :=
  ascii_rule (motive := fun c => (value? (code c)).map digit =
    if isDigit c then some (plain c) else none) (by decide) c hc

theorem of_value?_eq_none {c : Char} (hc : c.toNat < 128) (h : value? (code c) = none) :
    isDigit c = false := by
  simpa [h] using map_digit_value? c hc

theorem of_value?_eq_some {c : Char} {v : UInt8} (hc : c.toNat < 128)
    (h : value? (code c) = some v) : isDigit c = true ∧ digit v = plain c := by
  simpa [h] using map_digit_value? c hc

theorem code_eq_plus_iff (c : Char) (hc : c.toNat < 128) : code c = 43 ↔ c = '+' :=
  ascii_rule (motive := fun c => code c = 43 ↔ c = '+') (by decide) c hc

theorem value?_lt {b v : UInt8} (h : value? b = some v) : v < 16 ∧ b < 128 := by
  rw [value?] at h
  grind [UInt8.le_iff_toNat_le, UInt8.lt_iff_toNat_lt, UInt8.toNat_sub_of_le]

/-! ## Pairs -/

theorem encodeByte_pair {h l : UInt8} (hh : h < 16) (hl : l < 16) :
    encodeByte (16 * h + l) = [digit h, digit l] := by
  have hdiv : (16 * h + l) / 16 = h := by
    rw [← UInt8.toNat_inj]
    simp [UInt8.lt_iff_toNat_lt] at *
    omega
  have hmod : (16 * h + l) % 16 = l := by
    rw [← UInt8.toNat_inj]
    simp [UInt8.lt_iff_toNat_lt] at *
    omega
  rw [encodeByte, hdiv, hmod]

/-- A pair is read as the byte that is displayed by it. -/
theorem map_encodeByte_decodeByte? (hi lo : Char) (hhi : hi.toNat < 128) (hlo : lo.toNat < 128) :
    (decodeByte? (code hi) (code lo)).map encodeByte =
      if (isDigit hi || hi == '+') && isDigit lo then some [plain hi, plain lo] else none := by
  rw [decodeByte?]
  cases hl : value? (code lo) with
  | none => simp [of_value?_eq_none hlo hl]
  | some l =>
      obtain ⟨hdigit, hplain⟩ := of_value?_eq_some hlo hl
      by_cases hplus : hi = '+'
      · have hcode : code hi = 43 := (code_eq_plus_iff hi hhi).mpr hplus
        have hzero := encodeByte_pair (h := 0) (by decide) (value?_lt hl).1
        have hfirst : digit 0 = plain hi := by
          rw [hplus]
          decide
        have hallowed : (isDigit hi || hi == '+') = true := by simp [hplus]
        rw [UInt8.mul_zero, UInt8.zero_add, hfirst, hplain] at hzero
        simp [hcode, hdigit, hzero, hallowed]
      · have hcode : code hi ≠ 43 := fun heq => hplus ((code_eq_plus_iff hi hhi).mp heq)
        cases hh : value? (code hi) with
        | none => simp [hcode, hplus, of_value?_eq_none hhi hh]
        | some h =>
            obtain ⟨hdigit', hplain'⟩ := of_value?_eq_some hhi hh
            have hpair := encodeByte_pair (value?_lt hh).1 (value?_lt hl).1
            simp [hcode, hdigit, hdigit', hpair, hplain, hplain']

theorem map_encode_decode?_code (cs : List Char) (hcs : ∀ c ∈ cs, c.toNat < 128) :
    (decode? (cs.map code)).map (·.flatMap encodeByte) =
      if isPairs cs then some (cs.map plain) else none := by
  induction cs using isPairs.induct with
  | case1 => rfl
  | case2 c => rfl
  | case3 hi lo rest ih =>
      have hbyte := map_encodeByte_decodeByte? hi lo (hcs hi (by simp)) (hcs lo (by simp))
      have hrest := ih fun c hc => hcs c (by simp [hc])
      rw [List.map_cons, List.map_cons, decode?, isPairs]
      cases hb : decodeByte? (code hi) (code lo) with
      | none =>
          rw [hb] at hbyte
          grind
      | some b =>
          cases hbs : decode? (rest.map code) with
          | none => grind
          | some bs => grind

/-! ## Texts -/

theorem lt_of_decodeByte? {hi lo b : UInt8} (h : decodeByte? hi lo = some b) :
    hi < 128 ∧ lo < 128 := by
  rw [decodeByte?] at h
  cases hl : value? lo with
  | none => simp [hl] at h
  | some l =>
      refine ⟨?_, (value?_lt hl).2⟩
      by_cases hplus : hi = 43
      · rw [hplus]
        decide
      · cases hh : value? hi with
        | none => simp [hl, hplus, hh] at h
        | some v => exact (value?_lt hh).2

/-- Only ASCII is read. -/
theorem lt_of_mem_of_decode? {bs out : Bytes} (h : decode? bs = some out) :
    ∀ b ∈ bs, b < 128 := by
  induction bs using decode?.induct generalizing out with
  | case1 => simp
  | case2 b => simp [decode?] at h
  | case3 hi lo rest b bs hrest hbyte ih =>
      obtain ⟨hhi, hlo⟩ := lt_of_decodeByte? hbyte
      have hothers := ih hrest
      simp only [List.mem_cons]
      grind
  | case4 hi lo rest hnone ih =>
      rw [decode?] at h
      grind

theorem lt_of_isDigit {c : Char} (h : isDigit c = true) : c.toNat < 128 := by
  simp only [isDigit, Bool.or_eq_true, Bool.and_eq_true, decide_eq_true_eq, Char.le_def,
    UInt32.le_iff_toNat_le] at h
  show c.val.toNat < 128
  have hnine : '9'.val.toNat = 57 := rfl
  have hlower : 'f'.val.toNat = 102 := rfl
  have hupper : 'F'.val.toNat = 70 := rfl
  omega

theorem lt_of_isPairs {cs : List Char} (h : isPairs cs = true) : ∀ c ∈ cs, c.toNat < 128 := by
  have hplus : '+'.toNat < 128 := by decide
  induction cs using isPairs.induct with
  | case1 => simp
  | case2 c => simp [isPairs] at h
  | case3 hi lo rest ih =>
      simp only [isPairs, Bool.and_eq_true, Bool.or_eq_true, beq_iff_eq] at h
      have hrest := ih h.2
      have hlo := lt_of_isDigit h.1.2
      have hhi : hi.toNat < 128 := h.1.1.elim lt_of_isDigit fun heq => heq ▸ hplus
      simp only [List.mem_cons]
      grind

/-- A character outside of ASCII has a byte outside of it. -/
theorem exists_mem_utf8EncodeChar {c : Char} (h : 128 ≤ c.toNat) :
    ∃ b ∈ String.utf8EncodeChar c, 128 ≤ b := by
  have hascii : ¬ c.val.toNat ≤ 127 := Nat.not_le.mpr h
  refine ⟨UInt8.ofNat (c.val.toNat % 64 + 128), ?_, ?_⟩
  · simp only [String.utf8EncodeChar, hascii, if_false]
    split
    · simp
    · split <;> simp
  · rw [UInt8.le_iff_toNat_le]
    simp
    omega

/-- A text that is read is in ASCII. -/
theorem toNat_lt_of_decode? {s : String} {out : Bytes} (h : decode? (Bytes.ofText s) = some out) :
    ∀ c ∈ s.toList, c.toNat < 128 := by
  intro c hc
  by_contra hhigh
  obtain ⟨b, hb, hle⟩ := exists_mem_utf8EncodeChar (Nat.le_of_not_lt hhigh)
  have hbytes : Bytes.ofText s = s.toList.flatMap String.utf8EncodeChar := by
    rw [← Bytes.ofText_eq_flatMap, String.ofList_toList]
  have hmem : b ∈ Bytes.ofText s := by
    rw [hbytes]
    exact List.mem_flatMap.mpr ⟨c, hc, hb⟩
  have hlt := lt_of_mem_of_decode? h b hmem
  rw [UInt8.lt_iff_toNat_lt] at hlt
  rw [UInt8.le_iff_toNat_le] at hle
  omega

/-- **A text is read exactly if it consists of pairs**, and what is displayed
for it is told by its characters. -/
theorem map_encode_decode? (s : String) : (decode? (Bytes.ofText s)).map encode =
    if isPairs s.toList then some (s.map plain) else none := by
  by_cases hascii : ∀ c ∈ s.toList, c.toNat < 128
  · have hcode : Bytes.ofText s = s.toList.map code := by
      have hbytes := Bytes.ofText_ofList hascii
      rwa [String.ofList_toList] at hbytes
    have hread := congrArg (Option.map String.ofList) (map_encode_decode?_code s.toList hascii)
    rw [Option.map_map, ← hcode] at hread
    have htext : String.ofList (s.toList.map plain) = s.map plain := by
      rw [← String.toList_map, String.ofList_toList]
    refine hread.trans ?_
    rw [← htext]
    split <;> rfl
  · have hnot : isPairs s.toList = false := by
      by_contra hpairs
      exact hascii (lt_of_isPairs (by simpa using hpairs))
    have hnone : decode? (Bytes.ofText s) = none := by
      rw [Option.eq_none_iff_forall_ne_some]
      intro out hout
      exact hascii (toNat_lt_of_decode? hout)
    simp [hnot, hnone]

/-! ## What is displayed -/

/-- A digit is in ASCII, and has its value. -/
theorem value?_digit {v : UInt8} (h : v < 16) : (digit v).toNat < 128 ∧
    value? (code (digit v)) = some v ∧ code (digit v) ≠ 43 := by
  have hall : ∀ n < 16, (digit (UInt8.ofNat n)).toNat < 128 ∧
      value? (code (digit (UInt8.ofNat n))) = some (UInt8.ofNat n) ∧
      code (digit (UInt8.ofNat n)) ≠ 43 := by decide
  have hv := hall v.toNat (by simpa [UInt8.lt_iff_toNat_lt] using h)
  rwa [UInt8.ofNat_toNat] at hv

/-- **What is displayed is read back.** -/
theorem decode?_encode (bs : Bytes) : decode? (Bytes.ofText (encode bs)) = some bs := by
  have hhalf (b : UInt8) : b / 16 < 16 ∧ b % 16 < 16 := by
    simp only [UInt8.lt_iff_toNat_lt]
    simp
    have := b.toNat_lt
    omega
  have hascii : ∀ c ∈ bs.flatMap encodeByte, c.toNat < 128 := by
    intro c hc
    simp only [List.mem_flatMap, encodeByte, List.mem_cons, List.not_mem_nil, or_false] at hc
    obtain ⟨b, -, rfl | rfl⟩ := hc
    · exact (value?_digit (hhalf b).1).1
    · exact (value?_digit (hhalf b).2).1
  rw [encode, Bytes.ofText_ofList hascii]
  show decode? ((bs.flatMap encodeByte).map code) = some bs
  clear hascii
  induction bs with
  | nil => rfl
  | cons b bs ih =>
      obtain ⟨-, hhi, hplus⟩ := value?_digit (hhalf b).1
      obtain ⟨-, hlo, -⟩ := value?_digit (hhalf b).2
      have hb : 16 * (b / 16) + b % 16 = b := by
        rw [← UInt8.toNat_inj]
        simp
        have := b.toNat_lt
        omega
      rw [List.flatMap_cons, List.map_append, encodeByte]
      simp [decode?, decodeByte?, hhi, hlo, hplus, hb, ih]

/-! ## Without plus signs -/

theorem isPairs_iff {cs : List Char} (h : '+' ∉ cs) :
    isPairs cs = true ↔ cs.length % 2 = 0 ∧ ∀ c ∈ cs, isDigit c = true := by
  induction cs using isPairs.induct with
  | case1 => simp [isPairs]
  | case2 c => simp [isPairs]
  | case3 hi lo rest ih =>
      simp only [List.mem_cons, not_or] at h
      have hplus : (hi == '+') = false := by
        rw [beq_eq_false_iff_ne]
        exact Ne.symm h.1
      have hlen : (hi :: lo :: rest).length % 2 = rest.length % 2 := by
        simp only [List.length_cons]
        omega
      rw [hlen]
      simp only [isPairs, hplus, Bool.or_false, Bool.and_eq_true, ih h.2.2, List.forall_mem_cons]
      grind

theorem map_plain_eq {s : String} (h : '+' ∉ s.toList) : s.map plain = s.toLower := by
  show s.map plain = s.map Char.toLower
  rw [← String.toList_inj, String.toList_map, String.toList_map]
  apply List.map_congr_left
  intro c hc
  rw [plain, if_neg]
  intro heq
  exact h (heq ▸ hc)

end Hex

/-! ## Ids -/

namespace Id

theorem parse_of_not_isPairs {s : String} (h : Hex.isPairs s.toList = false) :
    parse s = .error (.invalidEncoding s) := by
  have hread := Hex.map_encode_decode? s
  rw [h] at hread
  rw [parse, Option.map_eq_none_iff.mp hread]

theorem parse_of_isPairs {s : String} (hne : s ≠ "") (h : Hex.isPairs s.toList = true) :
    ∃ id, parse s = .ok id ∧ id.toString = s.map Hex.plain := by
  have hread := Hex.map_encode_decode? s
  rw [h, if_pos rfl, Option.map_eq_some_iff] at hread
  obtain ⟨bs, hbs, htext⟩ := hread
  have hbytes : bs ≠ [] := by
    intro hnil
    rw [hnil] at htext
    exact hne (String.map_eq_empty.mp htext.symm)
  refine ⟨⟨bs, hbytes⟩, ?_, htext⟩
  rw [parse, hbs]
  exact dif_neg hbytes

theorem parse_empty : parse "" = .error (.invalidSize 0) := rfl

/-- **An id is read back from its text.** -/
theorem parse_toString (id : Id) : parse id.toString = .ok id := by
  rw [parse, Id.toString, Hex.decode?_encode]
  exact ofBytes_bytes id

/-- What comes of reading a text. -/
structure Reading (s : String) (result : Except IdError Id) : Prop where
  ok_iff : (∃ id, result = .ok id) ↔ s ≠ "" ∧ Hex.isPairs s.toList = true
  toString_eq : ∀ id, result = .ok id → id.toString = s.map Hex.plain
  error_eq : ∀ e, result = .error e → e = if s = "" then .invalidSize 0 else .invalidEncoding s
  /-- Only hexadecimal texts are read, unless a plus sign stands for a zero. -/
  hex_iff : ((∃ id, result = .ok id) ↔
      s ≠ "" ∧ s.toList.length % 2 = 0 ∧ ∀ c ∈ s.toList, Hex.isDigit c = true) ↔
    ¬ ('+' ∈ s.toList ∧ Hex.isPairs s.toList = true)
  /-- Without plus signs a text is displayed in lower case. -/
  toLower_eq : '+' ∉ s.toList → ∀ id, result = .ok id → id.toString = s.toLower

theorem parse_eq_ok_iff (s : String) :
    (∃ id, parse s = .ok id) ↔ s ≠ "" ∧ Hex.isPairs s.toList = true := by
  constructor
  · rintro ⟨id, hid⟩
    constructor
    · intro hempty
      rw [hempty, parse_empty] at hid
      contradiction
    · by_contra hno
      rw [parse_of_not_isPairs (by simpa using hno)] at hid
      contradiction
  · intro h
    obtain ⟨id, hid, -⟩ := parse_of_isPairs h.1 h.2
    exact ⟨id, hid⟩

theorem toString_of_parse {s : String} {id : Id} (h : parse s = .ok id) :
    id.toString = s.map Hex.plain := by
  obtain ⟨hne, hpairs⟩ := (parse_eq_ok_iff s).mp ⟨id, h⟩
  obtain ⟨id', hid', htext⟩ := parse_of_isPairs hne hpairs
  rw [h] at hid'
  rw [Except.ok.inj hid', htext]

theorem error_of_parse {s : String} {e : IdError} (h : parse s = .error e) :
    e = if s = "" then .invalidSize 0 else .invalidEncoding s := by
  by_cases hempty : s = ""
  · rw [hempty, parse_empty] at h
    rw [if_pos hempty, Except.error.inj h]
  · cases hpairs : Hex.isPairs s.toList with
    | false =>
        rw [parse_of_not_isPairs hpairs] at h
        rw [if_neg hempty, Except.error.inj h]
    | true =>
        obtain ⟨id, hid, -⟩ := parse_of_isPairs hempty hpairs
        rw [hid] at h
        contradiction

/-- A plus sign is all that makes a text other than hexadecimal an id. -/
theorem parse_eq_ok_iff_hex_iff (s : String) : ((∃ id, parse s = .ok id) ↔
      s ≠ "" ∧ s.toList.length % 2 = 0 ∧ ∀ c ∈ s.toList, Hex.isDigit c = true) ↔
    ¬ ('+' ∈ s.toList ∧ Hex.isPairs s.toList = true) := by
  have hplus : Hex.isDigit '+' = false := by decide
  rw [parse_eq_ok_iff]
  by_cases h : '+' ∈ s.toList
  · -- The text is not hexadecimal, so it must not be read.
    have hne : s ≠ "" := fun hempty => by simp [hempty] at h
    have hnot : ¬ ∀ c ∈ s.toList, Hex.isDigit c = true := by
      intro hall
      rw [hall '+' h] at hplus
      contradiction
    simp [h, hne, hnot]
  · simp [h, Hex.isPairs_iff h]

theorem reading_parse (s : String) : Reading s (parse s) where
  ok_iff := parse_eq_ok_iff s
  toString_eq _ := toString_of_parse
  error_eq _ := error_of_parse
  hex_iff := parse_eq_ok_iff_hex_iff s
  toLower_eq h id hid := by rw [toString_of_parse hid, Hex.map_plain_eq h]

/-- **Which texts are ids.**  Pairs of hexadecimal digits are, where a plus sign
counts as a zero in the place of a pair's first digit; the id is displayed in
lower case.  Every other text is an error.  What is displayed is read back. -/
theorem parse_text (s : String) (id : Id) : Reading s (parse s) ∧ parse id.toString = .ok id :=
  ⟨reading_parse s, parse_toString id⟩

/-- Not only hexadecimal texts are ids: `+f` is read as the byte 15. -/
theorem not_only_hex : ¬ ∀ s : String, (∃ id, parse s = .ok id) ↔
    s ≠ "" ∧ s.toList.length % 2 = 0 ∧ ∀ c ∈ s.toList, Hex.isDigit c = true := by
  intro h
  have hread : ∃ id, parse "+f" = .ok id := ⟨⟨[15], by simp⟩, by decide⟩
  have hplus := ((h "+f").mp hread).2.2 '+' (by decide)
  contradiction

end Id
end Kademlia
