import Kademlia.Proofs.Numerals
import Mathlib.Data.List.TakeWhile
import Mathlib.Tactic.IntervalCases

/-!
# Kademlia.Proofs.AddressText

An address comes back from its text (`Address.parse?_toString`), IPv4 and IPv6
alike.  An IPv6 address is written in one of three ways, and each is read by the
same reader: with its last two groups dotted (`readGroups_mapped`), with a run
of zeros left out (`of_longestZeroRun`), or in full.  Every reader takes what it
can, so each step needs to know where it stops: `NoDigit` says that a number
ends, and `Closing` that an IPv6 address does.
-/

namespace Kademlia.Address

/-! ## Characters between numbers -/

/-- Nothing in front is a digit. -/
def NoDigit (radix : Nat) (rest : List Char) : Prop :=
  ∀ c ∈ rest.head?, digitValue? radix c = none

variable {rest : List Char}

theorem NoDigit.cons {radix : Nat} {c : Char} (h : digitValue? radix c = none) (cs : List Char) :
    NoDigit radix (c :: cs) := by
  intro d hd
  obtain rfl : c = d := by simpa using hd
  exact h

theorem readNumber_octet (o : UInt8) (h : NoDigit 10 rest) :
    readNumber octetForm (Nat.toDigits 10 o.toNat ++ rest) = some (o.toNat, rest) := by
  refine readNumber_append octetForm (by decide) (by decide) ⟨?_, ?_⟩ h
  · exact Nat.le_of_lt_succ o.toNat_lt
  · intro limit hlimit
    obtain rfl : 3 = limit := by simpa [octetForm] using hlimit
    exact (Nat.length_toDigits_le_iff (by decide) (by decide)).mpr
      (Nat.lt_trans o.toNat_lt (by decide))

theorem readNumber_group (g : UInt16) (h : NoDigit 16 rest) :
    readNumber groupForm (Nat.toDigits 16 g.toNat ++ rest) = some (g.toNat, rest) := by
  refine readNumber_append groupForm (by decide) (by decide) ⟨?_, ?_⟩ h
  · exact Nat.le_of_lt_succ g.toNat_lt
  · intro limit hlimit
    obtain rfl : 4 = limit := by simpa [groupForm] using hlimit
    exact (Nat.length_toDigits_le_iff (by decide) (by decide)).mpr g.toNat_lt

theorem readNumber_scope (s : UInt32) (h : NoDigit 10 rest) :
    readNumber scopeForm (Nat.toDigits 10 s.toNat ++ rest) = some (s.toNat, rest) :=
  readNumber_append scopeForm (by decide) (by decide)
    ⟨Nat.le_of_lt_succ s.toNat_lt, by simp [scopeForm]⟩ h

/-- The port ends the text. -/
theorem readPort_digits (port : UInt16) :
    readPort (':' :: Nat.toDigits 10 port.toNat) = some port := by
  have hread : readNumber portForm (Nat.toDigits 10 port.toNat ++ []) = some (port.toNat, []) :=
    readNumber_append portForm (by decide) (by decide)
      ⟨Nat.le_of_lt_succ port.toNat_lt, by simp [portForm]⟩ (by simp)
  rw [List.append_nil] at hread
  simp [readPort, readChar, hread]

/-! ## IPv4 -/

/-- The characters of four octets. -/
theorem toList_dotted (a b c d : UInt8) :
    (dotted [a, b, c, d]).toList =
      Nat.toDigits 10 a.toNat ++ '.' :: (Nat.toDigits 10 b.toNat ++ '.' ::
        (Nat.toDigits 10 c.toNat ++ '.' :: Nat.toDigits 10 d.toNat)) := by
  simp [dotted]

theorem readDotted_dotted (a b c d : UInt8) (h : NoDigit 10 rest) :
    readDotted ((dotted [a, b, c, d]).toList ++ rest) = some (#v[a, b, c, d], rest) := by
  have hdot (cs : List Char) : NoDigit 10 ('.' :: cs) := NoDigit.cons (by decide) cs
  rw [toList_dotted]
  simp only [List.append_assoc, List.cons_append]
  simp [readDotted, readChar, readNumber_octet _ h, readNumber_octet _ (hdot _)]

/-! ## IPv6 groups -/

/-- Groups with a colon before each but the first. -/
def groupChars : (first : Bool) → List UInt16 → List Char
  | _, [] => []
  | true, g :: gs => Nat.toDigits 16 g.toNat ++ groupChars false gs
  | false, g :: gs => ':' :: (Nat.toDigits 16 g.toNat ++ groupChars false gs)

theorem toList_groupsText (gs : List UInt16) : (groupsText gs).toList = groupChars true gs := by
  cases gs with
  | nil => rfl
  | cons g gs =>
    rw [groupsText, String.toList_intercalate, groupChars]
    induction gs generalizing g with
    | nil => simp [groupText, groupChars]
    | cons h gs ih =>
      have ih' := ih h
      simp [groupText, groupChars] at ih' ⊢
      rw [ih']

/-- Digits are neither dots nor colons. -/
theorem not_mem_toDigits {radix n : Nat} {c : Char} (hradix : 1 < radix) (hle : radix ≤ 16)
    (hc : digitValue? radix c = none) : c ∉ Nat.toDigits radix n := by
  intro hmem
  have hsome := isSome_digitValue? hradix hle n c hmem
  rw [hc] at hsome
  contradiction

theorem not_mem_groupChars (first : Bool) (gs : List UInt16) : '.' ∉ groupChars first gs := by
  have hdigits (g : UInt16) : '.' ∉ Nat.toDigits 16 g.toNat :=
    not_mem_toDigits (by decide) (by decide) (by decide)
  induction gs generalizing first with
  | nil => simp [groupChars]
  | cons g gs ih => cases first <;> simp [groupChars, hdigits, ih]

/-- Only text with a dot in it is read as octets. -/
theorem readDotted_eq_none {cs : List Char} (h : '.' ∉ cs) : readDotted cs = none := by
  cases hread : readNumber octetForm cs with
  | none => simp [readDotted, hread]
  | some result =>
    obtain ⟨a, after⟩ := result
    have hafter : ∃ k, after = cs.drop k := by
      simp only [readNumber] at hread
      split at hread
      · contradiction
      · exact ⟨_, (Prod.mk.inj (Option.some.inj hread)).2.symm⟩
    have hdot : readChar '.' after = none := by
      obtain ⟨k, rfl⟩ := hafter
      cases hdrop : cs.drop k with
      | nil => rfl
      | cons d ds =>
        have hd : d ≠ '.' := by
          rintro rfl
          exact h (List.mem_of_mem_drop (hdrop ▸ List.mem_cons_self))
        simp [readChar, hd]
    simp [readDotted, hread, hdot]

/-- Where octets are found, they are the last two groups. -/
theorem readGroups_dotted {limit : Nat} {first : Bool} {cs : List Char} {octets : Vector UInt8 4}
    (h : (readSeparator first cs).bind readDotted = some (octets, rest)) :
    readGroups (limit + 2) first cs = (groupsOfOctets octets, true, rest) := by
  rw [readGroups, if_pos (Nat.succ_pos limit), h]

/-- Where no octets are found, the next group is. -/
theorem readGroups_group {limit g : Nat} {first : Bool} {cs : List Char}
    (hnone : (readSeparator first cs).bind readDotted = none)
    (hgroup : (readSeparator first cs).bind (readNumber groupForm) = some (g, rest)) :
    readGroups (limit + 1) first cs =
      (g.toUInt16 :: (readGroups limit false rest).1, (readGroups limit false rest).2) := by
  rw [readGroups, hnone, ite_self, hgroup]

/-- Where nothing is found, the groups end. -/
theorem readGroups_end {limit : Nat} {first : Bool} {cs : List Char}
    (hnone : (readSeparator first cs).bind readDotted = none)
    (hgroup : (readSeparator first cs).bind (readNumber groupForm) = none) :
    readGroups (limit + 1) first cs = ([], false, cs) := by
  rw [readGroups, hnone, ite_self, hgroup]

theorem bind_readDotted_eq_none {cs : List Char} (first : Bool) (h : '.' ∉ cs) :
    (readSeparator first cs).bind readDotted = none := by
  cases first with
  | true => exact readDotted_eq_none h
  | false =>
    cases cs with
    | nil => rfl
    | cons c cs =>
      simp only [readSeparator, readChar, Bool.false_eq_true, if_false]
      split
      · exact readDotted_eq_none fun hmem => h (List.mem_cons_of_mem c hmem)
      · rfl

theorem NoDigit.groupChars (gs : List UInt16) (h : NoDigit 16 rest) :
    NoDigit 16 (Address.groupChars false gs ++ rest) := by
  cases gs with
  | nil => exact h
  | cons g gs =>
    exact NoDigit.cons (by decide) _

/-- **Groups are read as far as they go.** -/
theorem readGroups_groupChars {limit : Nat} {first : Bool} {gs : List UInt16}
    (hlimit : gs.length ≤ limit) (hdigit : NoDigit 16 rest) (hdot : '.' ∉ rest)
    (hstop : gs.length < limit →
      (readSeparator (first && gs.isEmpty) rest).bind (readNumber groupForm) = none) :
    readGroups limit first (groupChars first gs ++ rest) = (gs, false, rest) := by
  induction limit generalizing first gs with
  | zero =>
    obtain rfl := List.length_eq_zero_iff.mp (Nat.le_zero.mp hlimit)
    rfl
  | succ limit ih =>
    have hnone : (readSeparator first (groupChars first gs ++ rest)).bind readDotted = none :=
      bind_readDotted_eq_none first (by simp [not_mem_groupChars first gs, hdot])
    cases gs with
    | nil =>
      have hgroup := hstop (Nat.succ_pos limit)
      rw [List.isEmpty_nil, Bool.and_true] at hgroup
      exact readGroups_end hnone hgroup
    | cons g gs =>
      have hgroup : (readSeparator first (groupChars first (g :: gs) ++ rest)).bind
          (readNumber groupForm) = some (g.toNat, groupChars false gs ++ rest) := by
        cases first <;>
          simp [readSeparator, readChar, groupChars, List.append_assoc,
            readNumber_group g (hdigit.groupChars gs)]
      have hrest : readGroups limit false (groupChars false gs ++ rest) = (gs, false, rest) :=
        ih (by simpa using hlimit) fun hlt => by simpa using hstop (by simpa using hlt)
      rw [readGroups_group hnone hgroup, hrest]
      simp

/-! ## IPv6 addresses -/

/-- What can stand behind an IPv6 address: it goes on with no digit, colon or dot. -/
structure Closing (rest : List Char) : Prop where
  noDigit : NoDigit 16 rest
  noColon : readChar ':' rest = none
  noDot : '.' ∉ rest

theorem NoDigit.ten (h : NoDigit 16 rest) : NoDigit 10 rest := by
  intro c hc
  have h16 := h c hc
  grind [digitValue?]

/-- The longest run of zeros is one. -/
theorem of_longestZeroRun {gs : List UInt16} {start count : Nat}
    (h : longestZeroRun gs = (start, count)) :
    gs = gs.take start ++ (List.replicate count 0 ++ gs.drop (start + count)) := by
  have hbest (runs : List (Nat × Nat)) (best : Nat × Nat) :
      runs.foldl (fun best run => if best.2 < run.2 then run else best) best ∈ best :: runs := by
    induction runs generalizing best with
    | nil => simp
    | cons run runs ih =>
      rw [List.foldl_cons]
      split
      · exact List.mem_cons_of_mem _ (ih run)
      · rcases List.mem_cons.mp (ih best) with heq | hmem
        · exact List.mem_cons.mpr (.inl heq)
        · exact List.mem_cons_of_mem _ (List.mem_cons_of_mem _ hmem)
  rw [longestZeroRun.eq_1] at h
  have hrun := h ▸ hbest _ (0, 0)
  rcases List.mem_cons.mp hrun with hzero | hrun
  · obtain ⟨rfl, rfl⟩ := Prod.mk.inj hzero
    simp
  · obtain ⟨⟨_, i⟩, -, hpair⟩ := List.mem_map.mp hrun
    obtain ⟨rfl, rfl⟩ := Prod.mk.inj hpair
    have hzeros : (gs.drop i).takeWhile (· == 0) =
        List.replicate ((gs.drop i).takeWhile (· == 0)).length 0 := by
      refine List.eq_replicate_iff.mpr ⟨rfl, fun g hg => ?_⟩
      simpa using List.mem_takeWhile_imp hg
    rw [← hzeros, ← List.drop_drop, drop_length_takeWhile, List.takeWhile_append_dropWhile,
      List.take_append_drop]

theorem fillGroups_eq {head tail : List UInt16} {v : Vector UInt16 8}
    (h : v.toList = head ++ (List.replicate (8 - head.length - tail.length) 0 ++ tail)) :
    fillGroups head tail = v := by
  apply Vector.ext
  intro i hi
  have hget : v[i] = v.toList.getD i 0 := by simp [hi]
  simp [fillGroups, hget, h]

theorem NoDigit.readNumber {form : NumberForm} {cs : List Char} (h : NoDigit form.radix cs) :
    readNumber form cs = none := by
  have htake : cs.takeWhile (fun c => (digitValue? form.radix c).isSome) = [] := by
    cases cs with
    | nil => rfl
    | cons c cs => simp [h c (by simp)]
  simp [Address.readNumber, htake]

theorem NoDigit.readDotted {cs : List Char} (h : NoDigit 10 cs) : readDotted cs = none := by
  have hread : Address.readNumber octetForm cs = none := h.readNumber
  simp [Address.readDotted, hread]

theorem NoDigit.readGroups {cs : List Char} (h : NoDigit 16 cs) (limit : Nat) :
    readGroups limit true cs = ([], false, cs) := by
  cases limit with
  | zero => rfl
  | succ limit =>
    have hread : Address.readNumber groupForm cs = none := h.readNumber
    have hnone : (readSeparator true cs).bind Address.readDotted = none := h.ten.readDotted
    exact readGroups_end hnone hread

theorem joinOctets_eq (g : UInt16) : joinOctets (g >>> 8).toUInt8 g.toUInt8 = g := by
  apply UInt16.toNat_inj.mp
  have := g.toNat_lt
  simp [joinOctets, Nat.shiftRight_eq_div_pow]
  omega

/-- The last two groups are read from four octets. -/
theorem readGroups_mapped (x y : UInt16) (h : NoDigit 10 rest) :
    readGroups 7 true ('f' :: 'f' :: 'f' :: 'f' :: ':' ::
      ((dotted [(x >>> 8).toUInt8, x.toUInt8, (y >>> 8).toUInt8, y.toUInt8]).toList ++ rest)) =
      ([0xffff, x, y], true, rest) := by
  have hoctets := readDotted_dotted (x >>> 8).toUInt8 x.toUInt8 (y >>> 8).toUInt8 y.toUInt8 h
  generalize (dotted [(x >>> 8).toUInt8, x.toUInt8, (y >>> 8).toUInt8, y.toUInt8]).toList ++ rest
    = cs at hoctets ⊢
  have hgroup : readNumber groupForm ('f' :: 'f' :: 'f' :: 'f' :: ':' :: cs) =
      some (65535, ':' :: cs) :=
    readNumber_group 0xffff (NoDigit.cons (c := ':') (by decide) cs)
  have hnone : readDotted ('f' :: 'f' :: 'f' :: 'f' :: ':' :: cs) = none :=
    (NoDigit.cons (by decide) _).readDotted
  have hlast : readGroups 6 false (':' :: cs) = ([x, y], true, rest) := by
    have hfound : (readSeparator false (':' :: cs)).bind readDotted = some (_, rest) := hoctets
    rw [readGroups_dotted hfound]
    simp [groupsOfOctets, joinOctets_eq]
  rw [readGroups_group (by simpa [readSeparator] using hnone)
      (by simpa [readSeparator] using hgroup),
    hlast]
  rfl

theorem readIPv6_ipv6Text (v : Vector UInt16 8) (h : Closing rest) :
    readIPv6 ((ipv6Text v.toList).toList ++ rest) = some (v, rest) := by
  unfold ipv6Text
  split
  · next octets hmapped =>
    unfold mappedIPv4? at hmapped
    split at hmapped
    · next x y hv =>
      obtain rfl := Option.some.inj hmapped
      have hhead (cs : List Char) : readGroups 8 true (':' :: cs) = ([], false, ':' :: cs) :=
        (NoDigit.cons (by decide) cs).readGroups 8
      have htail := readGroups_mapped x y h.noDigit.ten
      have hfill : fillGroups [] [0xffff, x, y] = v := fillGroups_eq hv
      simp [readIPv6, hhead, readChar, htail, hfill]
    · contradiction
  · next hmapped =>
    cases hrun : longestZeroRun v.toList with
    | mk start count =>
      dsimp only
      split
      · next hcount =>
        have hgs := of_longestZeroRun hrun
        have hlen := congrArg List.length hgs
        simp only [List.length_append, List.length_replicate, Vector.length_toList] at hlen
        generalize v.toList.take start = head at hgs hlen ⊢
        generalize v.toList.drop (start + count) = tail at hgs hlen ⊢
        have hhead : readGroups 8 true (groupChars true head ++ ':' :: ':' ::
            (groupChars true tail ++ rest)) =
            (head, false, ':' :: ':' :: (groupChars true tail ++ rest)) := by
          refine readGroups_groupChars (by omega) ?_ ?_ ?_
          · exact NoDigit.cons (by decide) _
          · simp [not_mem_groupChars, h.noDot]
          · intro _
            cases head with
            | nil => rfl
            | cons g gs => rfl
        have htail : readGroups (7 - head.length) true (groupChars true tail ++ rest) =
            (tail, false, rest) := by
          refine readGroups_groupChars (by omega) h.noDigit h.noDot fun _ => ?_
          cases tail with
          | nil => exact h.noDigit.readNumber
          | cons g gs => simp [readSeparator, h.noColon]
        have hfull : head.length ≠ 8 := by omega
        have hfill : fillGroups head tail = v := by
          refine fillGroups_eq ?_
          have hzeros : 8 - head.length - tail.length = count := by omega
          rw [hzeros]
          exact hgs
        simp [toList_groupsText, readIPv6, hhead, htail, hfull, hfill, readChar]
      · next hcount =>
        have hread : readGroups 8 true (groupChars true v.toList ++ rest) =
            (v.toList, false, rest) :=
          readGroups_groupChars (by simp) h.noDigit h.noDot (by simp)
        simp [toList_groupsText, readIPv6, hread]
        exact fillGroups_eq (by simp)

/-! ## Socket addresses -/

theorem parseIPv4?_toString (octets : Vector UInt8 4) (port : UInt16) :
    parseIPv4? (toString (⟨.v4 octets, port⟩ : Address)).toList = some ⟨.v4 octets, port⟩ := by
  have htext : (toString (⟨.v4 octets, port⟩ : Address)).toList =
      (dotted octets.toList).toList ++ ':' :: Nat.toDigits 10 port.toNat := by
    simp [toString, Address.toString]
  have hsplit : octets = #v[octets[0], octets[1], octets[2], octets[3]] := by
    apply Vector.ext
    intro i hi
    interval_cases i <;> rfl
  rw [htext, hsplit]
  have hread := readDotted_dotted octets[0] octets[1] octets[2] octets[3]
    (NoDigit.cons (c := ':') (by decide) (Nat.toDigits 10 port.toNat))
  simp [parseIPv4?, hread, readPort_digits]

/-- The zone of an address in the text. -/
def zoneChars (scope : UInt32) : List Char :=
  if scope = 0 then [] else '%' :: Nat.toDigits 10 scope.toNat

theorem readScope_zoneChars (scope : UInt32) (rest : List Char) :
    readScope (zoneChars scope ++ ']' :: rest) = some (scope, ']' :: rest) := by
  unfold zoneChars
  split
  · next h => simp [readScope, readChar, h]
  · have hread := readNumber_scope scope (NoDigit.cons (c := ']') (by decide) rest)
    simp [readScope, readChar, hread]

theorem closing_zoneChars (scope : UInt32) (port : UInt16) :
    Closing (zoneChars scope ++ ']' :: ':' :: Nat.toDigits 10 port.toNat) := by
  have hdot (n : Nat) : '.' ∉ Nat.toDigits 10 n :=
    not_mem_toDigits (by decide) (by decide) (by decide)
  unfold zoneChars
  split
  · exact ⟨NoDigit.cons (by decide) _, rfl, by simp [hdot]⟩
  · exact ⟨NoDigit.cons (by decide) _, rfl, by simp [hdot]⟩

theorem parseIPv6?_toString (groups : Vector UInt16 8) (scope : UInt32) (port : UInt16) :
    parseIPv6? (toString (⟨.v6 groups scope, port⟩ : Address)).toList =
      some ⟨.v6 groups scope, port⟩ := by
  have hzone : (if scope = 0 then "" else s!"%{scope.toNat}").toList = zoneChars scope := by
    unfold zoneChars
    split
    · rfl
    · simp [toString]
  have htext : (toString (⟨.v6 groups scope, port⟩ : Address)).toList =
      '[' :: ((ipv6Text groups.toList).toList ++
        (zoneChars scope ++ ']' :: ':' :: Nat.toDigits 10 port.toNat)) := by
    simp [toString, Address.toString, ← hzone]
  rw [htext]
  simp [parseIPv6?, readChar, readIPv6_ipv6Text groups (closing_zoneChars scope port),
    readScope_zoneChars, readPort_digits]

/-- **The text of an address is read back as that address.** -/
theorem parse?_toString (a : Address) : parse? (toString a) = some a := by
  obtain ⟨host, port⟩ := a
  cases host with
  | v4 octets => simp [parse?, parseIPv4?_toString]
  | v6 groups scope =>
    have hnone : parseIPv4? (toString (⟨.v6 groups scope, port⟩ : Address)).toList = none := by
      have htext : ∃ cs, (toString (⟨.v6 groups scope, port⟩ : Address)).toList = '[' :: cs := by
        simp [toString, Address.toString]
      obtain ⟨cs, hcs⟩ := htext
      rw [hcs, parseIPv4?, (NoDigit.cons (by decide) cs).readDotted]
      rfl
    simp [parse?, hnone, parseIPv6?_toString]

end Kademlia.Address
