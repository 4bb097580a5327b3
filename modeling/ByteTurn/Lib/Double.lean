import Mathlib

/-!
# ByteTurn.Lib.Double

Finite double-precision numbers as exact rationals with a sign, and the two
conversions between them and decimal text:

* `stod` — read the longest decimal numeral at the front of a text and round it
  to the nearest double; it fails where there is no numeral and where the value
  is out of range;
* `toFixed` — the `%f` format: the integer part, a point and six digits,
  rounded half to even.

`roundToDigits` is the number that is left of a value when a fixed number of
significant digits is printed.  `stod_toFixed` is the fact the clients use: what
is printed can be read back.
The module names no program.
-/

/-- A double: a finite one is its sign and its exact magnitude. -/
inductive Double where
  | finite (negative : Bool) (magnitude : ℚ)
  | infinite (negative : Bool)
  | nan (negative : Bool)

namespace Double

/-! ## decimal digits -/

/-- The value of an ASCII digit. -/
def digit? (b : UInt8) : Option Nat :=
  if 0x30 ≤ b ∧ b ≤ 0x39 then some (b.toNat - 0x30) else none

/-- An ASCII digit. -/
def isDigit (b : UInt8) : Bool := (digit? b).isSome

/-- The number a list of digits spells, the most significant one first. -/
def ofDigits (digits : List UInt8) : Nat :=
  digits.foldl (fun n b => 10 * n + (digit? b).getD 0) 0

/-- The ASCII digit of a number below ten. -/
def digitByte (n : Nat) : UInt8 := (0x30 + n).toUInt8

/-- The decimal digits of a number; zero is one digit. -/
def toDigits (n : Nat) : List UInt8 :=
  if n = 0 then [digitByte 0] else (Nat.digits 10 n).reverse.map digitByte

/-! ## rounding -/

/-- The nearest integer, ties to even. -/
def roundHalfEven (x : ℚ) : Nat :=
  let n := ⌊x⌋₊
  let r := x - n
  if r < 1 / 2 then n else if 1 / 2 < r then n + 1 else n + n % 2

/-- Values from here on round to infinity. -/
def overflow : ℚ := 2 ^ 1024 - 2 ^ 970

/-- The smallest normal double. -/
def smallestNormal : ℚ := 1 / 2 ^ 1022

/-- Positive values below this one are tiny: with 53 significant bits, and any
exponent, they round to less than the smallest normal double. -/
def tinyLimit : ℚ := smallestNormal - 1 / 2 ^ 1076

/-- The nearest double of a positive value: 53 significant bits, and no bit
below `2 ^ -1074`. -/
def roundToDouble (q : ℚ) : ℚ :=
  let ulp : ℚ := (2 : ℚ) ^ max (Int.log 2 q - 52) (-1074)
  roundHalfEven (q / ulp) * ulp

/-! ## reading -/

/-- A numeral: its sign and its exact magnitude. -/
structure Numeral where
  negative : Bool
  magnitude : ℚ

/-- An optional sign. -/
def readSign : List UInt8 → Bool × List UInt8
  | 0x2d :: rest => (true, rest)
  | 0x2b :: rest => (false, rest)
  | rest => (false, rest)

/-- An exponent; it counts only with a digit. -/
def readExponent : List UInt8 → Int
  | b :: rest =>
      if b = 0x65 ∨ b = 0x45 then
        let digits := (readSign rest).2.takeWhile isDigit
        if (readSign rest).1 then -(ofDigits digits : Int) else ofDigits digits
      else 0
  | [] => 0

/-- The longest numeral at the front of a text; a point needs a digit on one
side. -/
def readNumeral (text : List UInt8) : Option Numeral :=
  let (negative, rest) := readSign text
  let whole := rest.takeWhile isDigit
  let rest := rest.dropWhile isDigit
  let (fraction, rest) := match rest with
    | 0x2e :: rest => (rest.takeWhile isDigit, rest.dropWhile isDigit)
    | rest => ([], rest)
  if whole = [] ∧ fraction = [] then none
  else some ⟨negative, ofDigits (whole ++ fraction) *
    (10 : ℚ) ^ (readExponent rest - fraction.length)⟩

/-- Read a double, as `strtod` of glibc on x86-64 does.  There is none where the
text begins with no numeral, where the value overflows, and where it underflows:
where it is tiny, which is tested after rounding, and not exact. -/
def stod (text : List UInt8) : Option Double :=
  match readNumeral text with
  | none => none
  | some numeral =>
      let q := numeral.magnitude
      if q = 0 then some (.finite numeral.negative 0)
      else if overflow ≤ q then none
      else if q < tinyLimit ∧ roundToDouble q ≠ q then none
      else some (.finite numeral.negative (roundToDouble q))

/-- `0 ≤ d`; a negative zero is zero. -/
def isNonneg : Double → Bool
  | .finite negative magnitude => !negative || magnitude = 0
  | .infinite negative => !negative
  | .nan _ => false

/-- The conversion of a number that is not negative to an unsigned integer of 64
bits, where it is defined: the integer part, if it fits. -/
def toUInt64? : Double → Option Nat
  | .finite _ magnitude => if ⌊magnitude⌋₊ < 2 ^ 64 then some ⌊magnitude⌋₊ else none
  | _ => none

/-! ## printing -/

/-- The `%f` format of a magnitude. -/
def fixedDigits (magnitude : ℚ) : List UInt8 :=
  let n := roundHalfEven (magnitude * 10 ^ 6)
  let fraction := toDigits (n % 10 ^ 6)
  toDigits (n / 10 ^ 6) ++ 0x2e :: (List.replicate (6 - fraction.length) 0x30 ++ fraction)

/-- A minus sign, if there is one. -/
def signBytes (negative : Bool) : List UInt8 := if negative then [0x2d] else []

/-- The `%f` format. -/
def toFixed : Double → List UInt8
  | .finite negative magnitude => signBytes negative ++ fixedDigits magnitude
  | .infinite negative => signBytes negative ++ "inf".toUTF8.data.toList
  | .nan negative => signBytes negative ++ "nan".toUTF8.data.toList

/-- The decimal form of an integer. -/
def toDecimal (n : Int) : List UInt8 := signBytes (n < 0) ++ toDigits n.natAbs

/-- The nearest double of an integer. -/
def ofInt (n : Int) : Double :=
  .finite (n < 0) (if n = 0 then 0 else roundToDouble n.natAbs)

/-- The nearest number of so many significant decimal digits, ties to even. -/
def roundToDigits (digits : Nat) (q : ℚ) : ℚ :=
  let ulp : ℚ := (10 : ℚ) ^ (Int.log 10 |q| + 1 - digits)
  let magnitude := roundHalfEven (|q| / ulp) * ulp
  if q < 0 then -magnitude else magnitude

/-- A finite double. -/
def IsFinite : Double → Prop
  | .finite _ magnitude => 0 ≤ magnitude ∧ magnitude ≤ 2 ^ 1024 - 2 ^ 971
  | _ => False

/-! ## what is printed is a numeral -/

/-- A digit is read as the number it was printed for. -/
theorem digit?_digitByte {n : Nat} (h : n < 10) : digit? (digitByte n) = some n := by
  interval_cases n <;> rfl

/-- What is printed for a digit is one. -/
theorem isDigit_digitByte {n : Nat} (h : n < 10) : isDigit (digitByte n) = true := by
  rw [isDigit, digit?_digitByte h]
  rfl

/-- A numeral consists of digits. -/
theorem isDigit_of_mem_toDigits {n : Nat} {b : UInt8} (h : b ∈ toDigits n) : isDigit b = true := by
  unfold toDigits at h
  split at h
  · rw [List.mem_singleton.mp h]
    rfl
  · obtain ⟨d, hd, rfl⟩ := List.mem_map.mp h
    exact isDigit_digitByte (Nat.digits_lt_base (by omega) (List.mem_reverse.mp hd))

/-- Every numeral has one. -/
theorem toDigits_ne_nil (n : Nat) : toDigits n ≠ [] := by
  unfold toDigits
  split
  · simp
  · next hn => simp [Nat.digits_ne_nil_iff_ne_zero.mpr hn]

/-- A numeral of an integer begins with a zero only where it is zero. -/
theorem toDigits_head {n : Nat} (h : (toDigits n).head? = some 0x30) : toDigits n = [0x30] := by
  unfold toDigits at h ⊢
  split
  · rfl
  · next hn =>
    rw [if_neg hn, List.head?_map, List.head?_reverse,
      List.getLast?_eq_some_getLast (Nat.digits_ne_nil_iff_ne_zero.mpr hn)] at h
    have hlast := Nat.getLast_digit_ne_zero 10 hn
    have hlt := Nat.digits_lt_base (by omega : 1 < 10) (List.getLast_mem
      (Nat.digits_ne_nil_iff_ne_zero.mpr hn))
    generalize (Nat.digits 10 n).getLast _ = d at h hlast hlt
    interval_cases d <;> contradiction

/-- The first of two numerals counts its digits beyond the second. -/
theorem ofDigits_append (a b : List UInt8) :
    ofDigits (a ++ b) = ofDigits a * 10 ^ b.length + ofDigits b := by
  have hfold (l : List UInt8) (n : Nat) :
      l.foldl (fun n b => 10 * n + (digit? b).getD 0) n = n * 10 ^ l.length + ofDigits l := by
    induction l using List.reverseRecOn generalizing n with
    | nil => simp [ofDigits]
    | append_singleton l b ih =>
        rw [ofDigits, List.foldl_append, List.foldl_append, ih n, ih 0]
        simp only [List.foldl_cons, List.foldl_nil, List.length_append, List.length_singleton,
          pow_succ]
        ring
  rw [ofDigits, List.foldl_append, hfold]
  rfl

/-- A numeral is read as the number it was printed for. -/
theorem ofDigits_toDigits (n : Nat) : ofDigits (toDigits n) = n := by
  unfold toDigits
  split
  · next hn => rw [hn]; rfl
  · have hlist (l : List Nat) (hl : ∀ d ∈ l, d < 10) :
        ofDigits (l.reverse.map digitByte) = Nat.ofDigits 10 l := by
      induction l with
      | nil => rfl
      | cons d l ih =>
          rw [List.reverse_cons, List.map_append, ofDigits_append,
            ih fun d hd => hl d (List.mem_cons_of_mem _ hd), Nat.ofDigits_cons]
          simp only [ofDigits, List.map_cons, List.map_nil, List.foldl_cons, List.foldl_nil,
            digit?_digitByte (hl d List.mem_cons_self), List.length_singleton, Option.getD_some]
          ring
    rw [hlist _ fun d hd => Nat.digits_lt_base (by omega) hd, Nat.ofDigits_digits]

/-- Zeros in front do not count. -/
theorem ofDigits_replicate (k : Nat) (l : List UInt8) :
    ofDigits (List.replicate k 0x30 ++ l) = ofDigits l := by
  induction k with
  | zero => rfl
  | succ k ih => exact ih

/-- A number has no more digits than the bound it is below. -/
theorem length_toDigits_le {n k : Nat} (hk : 0 < k) (h : n < 10 ^ k) : (toDigits n).length ≤ k := by
  unfold toDigits
  split
  · exact hk
  · rw [List.length_map, List.length_reverse, Nat.digits_length_le_iff (by omega)]
    exact h

/-- Rounding adds at most one half. -/
theorem roundHalfEven_le {x : ℚ} (hx : 0 ≤ x) : (roundHalfEven x : ℚ) ≤ x + 1 / 2 := by
  have hfloor : (⌊x⌋₊ : ℚ) ≤ x := Nat.floor_le hx
  unfold roundHalfEven
  dsimp only
  split
  · linarith
  · split
    · push_cast
      linarith
    · have hmod : ((⌊x⌋₊ % 2 : Nat) : ℚ) ≤ 1 := by
        have hlt : ⌊x⌋₊ % 2 ≤ 1 := by omega
        exact_mod_cast hlt
      push_cast
      linarith

/-- A numeral is read up to the first byte that is no digit. -/
theorem takeWhile_digits {l : List UInt8} (hl : ∀ b ∈ l, isDigit b = true) (rest : List UInt8)
    (hrest : ∀ b ∈ rest.head?, isDigit b = false) :
    (l ++ rest).takeWhile isDigit = l ∧ (l ++ rest).dropWhile isDigit = rest := by
  have hnone : rest.takeWhile isDigit = [] ∧ rest.dropWhile isDigit = rest := by
    cases rest with
    | nil => exact ⟨rfl, rfl⟩
    | cons b rest =>
        have hb := hrest b rfl
        simp [hb]
  rw [List.takeWhile_append_of_pos hl, List.dropWhile_append_of_pos hl, hnone.1, hnone.2,
    List.append_nil]
  exact ⟨rfl, rfl⟩

/-- The sign that is printed is read. -/
theorem readSign_signBytes (negative : Bool) {b : UInt8} (hb : isDigit b = true)
    (rest : List UInt8) :
    readSign (signBytes negative ++ b :: rest) = (negative, b :: rest) := by
  cases negative with
  | true => rfl
  | false =>
      have hminus : b ≠ 0x2d := by rintro rfl; contradiction
      have hplus : b ≠ 0x2b := by rintro rfl; contradiction
      rw [signBytes, if_neg (by simp), List.nil_append]
      unfold readSign
      split
      · next heq => exact absurd (List.cons.inj heq).1 hminus
      · next heq => exact absurd (List.cons.inj heq).1 hplus
      · rfl

/-- Digits around a point are read as their number, scaled by the places after it. -/
theorem readNumeral_fixed (negative : Bool) {whole fraction : List UInt8}
    (hwhole : ∀ b ∈ whole, isDigit b = true) (hne : whole ≠ [])
    (hfraction : ∀ b ∈ fraction, isDigit b = true) :
    readNumeral (signBytes negative ++ (whole ++ 0x2e :: fraction)) =
      some ⟨negative, ofDigits (whole ++ fraction) * (10 : ℚ) ^ (0 - fraction.length : Int)⟩ := by
  obtain ⟨b, tail, rfl⟩ := List.exists_cons_of_ne_nil hne
  have hsign := readSign_signBytes negative (hwhole b List.mem_cons_self) (tail ++ 0x2e :: fraction)
  obtain ⟨htake, hdrop⟩ := takeWhile_digits hwhole (0x2e :: fraction)
    (fun c hc => by rw [← Option.some.inj hc]; rfl)
  obtain ⟨htake', hdrop'⟩ := takeWhile_digits hfraction [] (by simp)
  rw [List.append_nil] at htake' hdrop'
  rw [List.cons_append] at htake hdrop
  unfold readNumeral
  rw [List.cons_append, hsign]
  simp only [htake, hdrop, htake', hdrop', readExponent, reduceCtorEq, false_and, if_false]

/-- The padding consists of digits too. -/
theorem isDigit_of_mem_padded {k n : Nat} {b : UInt8}
    (h : b ∈ List.replicate k 0x30 ++ toDigits n) : isDigit b = true := by
  cases List.mem_append.mp h with
  | inl hzero => rw [List.eq_of_mem_replicate hzero]; rfl
  | inr hdigit => exact isDigit_of_mem_toDigits hdigit

/-- The numeral that is printed: the magnitude rounded to six digits. -/
theorem readNumeral_toFixed (negative : Bool) (magnitude : ℚ) :
    readNumeral (toFixed (.finite negative magnitude)) =
      some ⟨negative, roundHalfEven (magnitude * 10 ^ 6) / 10 ^ 6⟩ := by
  rw [toFixed, fixedDigits]
  generalize roundHalfEven (magnitude * 10 ^ 6) = n
  have hlength : (toDigits (n % 10 ^ 6)).length ≤ 6 :=
    length_toDigits_le (by omega) (Nat.mod_lt _ (by omega))
  have hpadded : (List.replicate (6 - (toDigits (n % 10 ^ 6)).length) (0x30 : UInt8) ++
      toDigits (n % 10 ^ 6)).length = 6 := by
    rw [List.length_append, List.length_replicate]
    omega
  rw [readNumeral_fixed negative (fun b hb => isDigit_of_mem_toDigits hb) (toDigits_ne_nil _)
    (fun b hb => isDigit_of_mem_padded hb), hpadded, ofDigits_append, hpadded, ofDigits_replicate,
    ofDigits_toDigits, ofDigits_toDigits, Nat.div_add_mod']
  norm_num [div_eq_mul_inv]

/-- No finite double overflows when one is added. -/
theorem add_one_lt_overflow {m : ℚ} (h : m ≤ 2 ^ 1024 - 2 ^ 971) : m + 1 < overflow := by
  have hone : (1 : ℚ) < 2 ^ 970 := one_lt_pow₀ (by norm_num) (by omega)
  rw [pow_succ' 2 970] at h
  rw [overflow]
  generalize (2 : ℚ) ^ 970 = t at h hone ⊢
  generalize (2 : ℚ) ^ 1024 = r at h ⊢
  linarith

/-- A number with a digit in the first six places is normal. -/
theorem smallestNormal_le : smallestNormal ≤ 1 / 10 ^ 6 := by
  have hpow : (2 : ℚ) ^ 20 ≤ 2 ^ 1022 := pow_le_pow_right₀ (by norm_num) (by omega)
  rw [smallestNormal]
  refine one_div_le_one_div_of_le (by norm_num) (le_trans ?_ hpow)
  norm_num

/-- No value from a millionth on is tiny. -/
theorem tinyLimit_le : tinyLimit ≤ 1 / 10 ^ 6 :=
  (sub_le_self smallestNormal (by positivity)).trans smallestNormal_le

/-- **What is printed can be read**: the text of a finite double is in range. -/
theorem stod_toFixed {d : Double} (h : d.IsFinite) : ∃ d', stod (toFixed d) = some d' := by
  cases d with
  | finite negative magnitude =>
      obtain ⟨hnonneg, hmax⟩ := h
      have hmax := add_one_lt_overflow hmax
      have hround := roundHalfEven_le (x := magnitude * 10 ^ 6) (by positivity)
      rw [stod, readNumeral_toFixed]
      generalize roundHalfEven (magnitude * 10 ^ 6) = n at hround
      dsimp only
      have hlt : ¬ overflow ≤ (n : ℚ) / 10 ^ 6 := by
        have hle : (n : ℚ) / 10 ^ 6 ≤ magnitude + 1 := by
          rw [div_le_iff₀ (by norm_num)]
          linarith
        linarith
      by_cases hzero : (n : ℚ) / 10 ^ 6 = 0
      · exact ⟨_, by rw [if_pos hzero]⟩
      · have hpos : 1 ≤ (n : ℚ) := by
          have hne : n ≠ 0 := by
            rintro rfl
            simp at hzero
          exact_mod_cast Nat.one_le_iff_ne_zero.mpr hne
        have hnormal : ¬ ((n : ℚ) / 10 ^ 6 < tinyLimit ∧
            roundToDouble ((n : ℚ) / 10 ^ 6) ≠ (n : ℚ) / 10 ^ 6) := by
          have hsmall := tinyLimit_le
          have hle : (1 : ℚ) / 10 ^ 6 ≤ (n : ℚ) / 10 ^ 6 := by gcongr
          intro htiny
          linarith [htiny.1]
        exact ⟨_, by rw [if_neg hzero, if_neg hlt, if_neg hnormal]⟩
  | infinite negative | nan negative => exact h.elim

/-- The bytes a numeral may consist of. -/
def isNumberByte (b : UInt8) : Bool :=
  isDigit b || b = 0x2d || b = 0x2b || b = 0x2e || b = 0x65 || b = 0x45

/-! ## integers -/

/-- The numeral that is printed: the integer. -/
theorem readNumeral_toDecimal (n : Int) :
    readNumeral (toDecimal n) = some ⟨n < 0, n.natAbs⟩ := by
  obtain ⟨b, tail, hdigits⟩ := List.exists_cons_of_ne_nil (toDigits_ne_nil n.natAbs)
  have hall (c : UInt8) (hc : c ∈ b :: tail) : isDigit c = true :=
    isDigit_of_mem_toDigits (hdigits ▸ hc)
  have hsign := readSign_signBytes (n < 0) (hall b List.mem_cons_self) tail
  obtain ⟨htake, hdrop⟩ := takeWhile_digits hall [] (by simp)
  rw [List.append_nil] at htake hdrop
  have hvalue : ofDigits (b :: tail) = n.natAbs := by rw [← hdigits, ofDigits_toDigits]
  rw [toDecimal, hdigits]
  unfold readNumeral
  rw [hsign]
  simp only [htake, hdrop, readExponent, reduceCtorEq, false_and, if_false, List.append_nil,
    hvalue, List.length_nil]
  norm_num

/-- An integer is printed with number bytes. -/
theorem isNumberByte_of_mem_toDecimal {n : Int} {b : UInt8} (hb : b ∈ toDecimal n) :
    isNumberByte b = true := by
  cases List.mem_append.mp hb with
  | inl hsign =>
      unfold signBytes at hsign
      split at hsign
      · rw [List.mem_singleton.mp hsign]
        rfl
      · contradiction
  | inr hdigit => simp [isNumberByte, isDigit_of_mem_toDigits hdigit]

/-- A bound for what no double can hold. -/
theorem two_pow_le_overflow : (2 : ℚ) ^ 970 ≤ overflow := by
  have hpow : (2 : ℚ) ^ 971 ≤ 2 ^ 1024 := pow_le_pow_right₀ (by norm_num) (by omega)
  rw [pow_succ' 2 970] at hpow
  rw [overflow]
  generalize (2 : ℚ) ^ 970 = t at hpow ⊢
  generalize (2 : ℚ) ^ 1024 = r at hpow ⊢
  linarith

/-- **An integer that is printed can be read**, as the nearest double. -/
theorem stod_toDecimal {n : Int} (h : (n.natAbs : ℚ) < overflow) :
    stod (toDecimal n) = some (ofInt n) := by
  rw [stod, readNumeral_toDecimal, ofInt]
  dsimp only
  by_cases hzero : n = 0
  · subst hzero
    rfl
  · have hpos : (1 : ℚ) ≤ n.natAbs := by
      have hle : 1 ≤ n.natAbs := by omega
      exact_mod_cast hle
    have hne : (n.natAbs : ℚ) ≠ 0 := by
      intro heq
      linarith
    have hsmall := tinyLimit_le
    have hnormal : ¬ ((n.natAbs : ℚ) < tinyLimit ∧ roundToDouble n.natAbs ≠ n.natAbs) := by
      intro htiny
      linarith [htiny.1]
    rw [if_neg hne, if_neg (not_le.mpr h), if_neg hnormal, if_neg hzero]

end Double
