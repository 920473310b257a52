import Kademlia.Address.Text
import Kademlia.Bencode
import Mathlib.Data.List.Basic

/-!
# Kademlia.Proofs.Numerals

Numbers come back from their digits.  The digits of a number are those of what
is left after dividing by the radix, and the remainder behind them
(`toDigits_induction`); every fact about digits below is an induction of that
shape.  `Address.readNumber_append` is about digits in the text of an address,
`Bencode.unsigned?_decimal` and `Bencode.signed64?_signedDecimal` are about
those in a packet.
-/

namespace Kademlia

/-! ## Scanning -/

theorem drop_length_takeWhile {α : Type} (p : α → Bool) (l : List α) :
    l.drop (l.takeWhile p).length = l.dropWhile p := by
  calc
    l.drop (l.takeWhile p).length
      = (l.takeWhile p ++ l.dropWhile p).drop (l.takeWhile p).length := by
        rw [List.takeWhile_append_dropWhile]
    _ = l.dropWhile p := List.drop_left

/-- What a scan passes over, and what it stops at. -/
theorem of_drop_takeWhile {α : Type} {p : α → Bool} {l rest : List α} {c : α}
    (h : l.drop (l.takeWhile p).length = c :: rest) :
    l = l.takeWhile p ++ c :: rest ∧ p c = false := by
  rw [drop_length_takeWhile] at h
  refine ⟨by rw [← h, List.takeWhile_append_dropWhile], ?_⟩
  have hstop := List.head_dropWhile_not p (l := l) (by simp [h])
  simpa [h] using hstop

/-! ## Digits -/

/-- The last digit is the remainder, and the others spell the quotient. -/
theorem toDigits_induction {radix : Nat} (hradix : 1 < radix) {motive : Nat → List Char → Prop}
    (digit : ∀ d < radix, motive d [Nat.digitChar d])
    (append : ∀ n d, 0 < n → d < radix → motive n (Nat.toDigits radix n) →
      motive (radix * n + d) (Nat.toDigits radix n ++ [Nat.digitChar d]))
    (n : Nat) : motive n (Nat.toDigits radix n) := by
  induction n using Nat.strongRecOn with
  | ind n ih =>
    rw [Nat.toDigits_eq_if hradix]
    split
    · next hlt => exact digit n hlt
    · next hle =>
      have hpos : 0 < n / radix := Nat.div_pos (by omega) (by omega)
      have hlt : n / radix < n := Nat.div_lt_self (by omega) hradix
      have h := append (n / radix) (n % radix) hpos (Nat.mod_lt _ (by omega)) (ih _ hlt)
      rwa [Nat.div_add_mod] at h

/-- No number but zero begins with a zero. -/
theorem head?_toDigits {radix : Nat} (hradix : 1 < radix) (hle : radix ≤ 16) (n : Nat) :
    0 < n → (Nat.toDigits radix n).head? ≠ some '0' := by
  refine toDigits_induction hradix (motive := fun n ds => 0 < n → ds.head? ≠ some '0') ?_ ?_ n
  · intro d hd hpos hhead
    have hzero : ∀ d < 16, Nat.digitChar d = '0' → d = 0 := by decide
    have := hzero d (by omega) (by simpa using hhead)
    omega
  · intro n d hn hd ih _
    rw [List.head?_append_of_ne_nil _ Nat.toDigits_ne_nil]
    exact ih hn

theorem toNat_of_mem_toDigits {n : Nat} {c : Char} (h : c ∈ Nat.toDigits 10 n) :
    48 ≤ c.toNat ∧ c.toNat ≤ 57 := by
  have hdigit := Nat.isDigit_of_mem_toDigits (by decide) (by decide) h
  simp only [Char.isDigit, Bool.and_eq_true, decide_eq_true_eq, ge_iff_le,
    UInt32.le_iff_toNat_le] at hdigit
  exact hdigit

/-! ## Digits in the text of an address -/

namespace Address

theorem digitValue?_digitChar {radix d : Nat} (hle : radix ≤ 16) (hd : d < radix) :
    digitValue? radix (Nat.digitChar d) = some d := by
  have hvalue : ∀ d < 16, (if '0' ≤ Nat.digitChar d ∧ Nat.digitChar d ≤ '9' then
        (Nat.digitChar d).toNat - '0'.toNat
      else if 'a' ≤ Nat.digitChar d ∧ Nat.digitChar d ≤ 'f' then
        (Nat.digitChar d).toNat - 'a'.toNat + 10
      else if 'A' ≤ Nat.digitChar d ∧ Nat.digitChar d ≤ 'F' then
        (Nat.digitChar d).toNat - 'A'.toNat + 10
      else 16) = d := by decide
  rw [digitValue?]
  simp only [hvalue d (by omega), hd, if_true]

theorem isSome_digitValue? {radix : Nat} (hradix : 1 < radix) (hle : radix ≤ 16) (n : Nat) :
    ∀ c ∈ Nat.toDigits radix n, (digitValue? radix c).isSome = true := by
  refine toDigits_induction hradix
    (motive := fun _ ds => ∀ c ∈ ds, (digitValue? radix c).isSome = true) ?_ ?_ n
  · intro d hd c hc
    rw [List.mem_singleton.mp hc, digitValue?_digitChar hle hd]
    rfl
  · intro n d _ hd ih c hc
    rcases List.mem_append.mp hc with hc | hc
    · exact ih c hc
    · rw [List.mem_singleton.mp hc, digitValue?_digitChar hle hd]
      rfl

theorem foldl_toDigits {radix : Nat} (hradix : 1 < radix) (hle : radix ≤ 16) (n : Nat) :
    ((Nat.toDigits radix n).filterMap (digitValue? radix)).foldl (fun n d => radix * n + d) 0
      = n := by
  refine toDigits_induction hradix (motive := fun n ds =>
    (ds.filterMap (digitValue? radix)).foldl (fun n d => radix * n + d) 0 = n) ?_ ?_ n
  · intro d hd
    simp [digitValue?_digitChar hle hd]
  · intro n d _ hd ih
    simp [List.filterMap_append, ih, digitValue?_digitChar hle hd]

/-- A number that a form admits: it is not too large, and has not too many digits. -/
structure NumberForm.Admits (form : NumberForm) (n : Nat) : Prop where
  le_largest : n ≤ form.largest
  length_le : ∀ limit ∈ form.maxDigits, (Nat.toDigits form.radix n).length ≤ limit

/-- **A number is read back from its digits**, up to what is no digit. -/
theorem readNumber_append (form : NumberForm) {n : Nat} {rest : List Char}
    (hradix : 1 < form.radix) (hle : form.radix ≤ 16) (hn : form.Admits n)
    (hrest : ∀ c ∈ rest.head?, digitValue? form.radix c = none) :
    readNumber form (Nat.toDigits form.radix n ++ rest) = some (n, rest) := by
  have htake : (Nat.toDigits form.radix n ++ rest).takeWhile
      (fun c => (digitValue? form.radix c).isSome) = Nat.toDigits form.radix n := by
    rw [List.takeWhile_append_of_pos (isSome_digitValue? hradix hle n)]
    cases rest with
    | nil => simp
    | cons c rest => simp [hrest c (by simp)]
  have htooLong : form.maxDigits.any (· < (Nat.toDigits form.radix n).length) = false := by
    cases hmax : form.maxDigits with
    | none => rfl
    | some limit => simpa using hn.length_le limit (by simp [hmax])
  have hpadded : ((Nat.toDigits form.radix n).head? == some '0' &&
      1 < (Nat.toDigits form.radix n).length) = false := by
    rcases Nat.eq_zero_or_pos n with rfl | hpos
    · simp [Nat.toDigits_zero]
    · simp [head?_toDigits hradix hle n hpos]
  have hlarge : ¬ form.largest < n := Nat.not_lt.mpr hn.le_largest
  unfold readNumber
  simp only [htake, foldl_toDigits hradix hle, htooLong]
  simp [hlarge, Bool.and_assoc, hpadded]

end Address

/-! ## Digits in a packet -/

/-- The bytes of a text are those of its characters, in order. -/
theorem Bytes.ofText_eq_flatMap (cs : List Char) :
    ofText (String.ofList cs) = cs.flatMap String.utf8EncodeChar := by
  simp [ofText, List.utf8Encode, String.toUTF8_eq_toByteArray, List.data_toByteArray]

/-- Each character of ASCII is one byte. -/
theorem Bytes.ofText_ofList {cs : List Char} (h : ∀ c ∈ cs, c.toNat < 128) :
    ofText (String.ofList cs) = cs.map fun c => UInt8.ofNat c.toNat := by
  rw [ofText_eq_flatMap]
  induction cs with
  | nil => rfl
  | cons c cs ih =>
    have hc : c.val.toNat ≤ 127 := Nat.le_of_lt_succ (h c (by simp))
    rw [List.flatMap_cons, ih fun d hd => h d (by simp [hd]), List.map_cons,
      String.utf8EncodeChar]
    simp only [if_pos hc]
    rfl

namespace Bencode

theorem decimal_eq (n : Nat) :
    decimal n = (Nat.toDigits 10 n).map fun c => UInt8.ofNat c.toNat := by
  rw [decimal, Nat.toString_eq_ofList_toDigits, Bytes.ofText_ofList]
  intro c hc
  have := toNat_of_mem_toDigits hc
  omega

theorem unsigned?_decimal (n : Nat) : unsigned? (decimal n) = some n := by
  have hbyte : ∀ c ∈ Nat.toDigits 10 n, (UInt8.ofNat c.toNat).toNat = c.toNat := by
    intro c hc
    have := toNat_of_mem_toDigits hc
    rw [UInt8.toNat_ofNat']
    omega
  have hne : decimal n ≠ [] := by simp [decimal_eq, Nat.toDigits_ne_nil]
  have hall : (decimal n).all isDigit = true := by
    rw [decimal_eq, List.all_map, List.all_eq_true]
    intro c hc
    simp only [Function.comp, isDigit, Bool.and_eq_true, decide_eq_true_eq, UInt8.le_iff_toNat_le,
      hbyte c hc]
    exact toNat_of_mem_toDigits hc
  have hvalue : digitsToNat (decimal n) = n := by
    calc
      digitsToNat (decimal n)
        = (Nat.toDigits 10 n).foldl (fun m c => 10 * m + (c.toNat - '0'.toNat)) 0 := by
          rw [digitsToNat, decimal_eq, List.foldl_map]
          refine List.foldl_ext _ _ _ fun m c hc => ?_
          rw [hbyte c hc]
          rfl
      _ = n := by rw [← Nat.ofDigitChars_eq_foldl, Nat.ofDigitChars_ten_toDigits]
  simp [unsigned?, hall, hne, hvalue]

/-- An integer of 64 bits is read back from its digits. -/
theorem signed64?_signedDecimal {n : Int} (hmin : Int64.minValue.toInt ≤ n)
    (hmax : n ≤ Int64.maxValue.toInt) : signed64? (signedDecimal n) = some n := by
  have hrange : (Int64.minValue.toInt ≤ n && n ≤ Int64.maxValue.toInt) = true := by
    rw [Bool.and_eq_true]
    exact ⟨decide_eq_true hmin, decide_eq_true hmax⟩
  unfold signed64?
  cases n with
  | ofNat m =>
    have hread := unsigned?_decimal m
    rw [signedDecimal]
    -- Digits begin with no sign.
    split
    · next ds hds =>
      rw [hds] at hread
      simp [unsigned?, isDigit] at hread
    · next ds hds =>
      rw [hds] at hread
      simp [unsigned?, isDigit] at hread
    · simp only [hread]
      exact Option.filter_some_pos hrange
  | negSucc m =>
    simp only [signedDecimal, unsigned?_decimal]
    exact Option.filter_some_pos hrange

end Bencode
end Kademlia
