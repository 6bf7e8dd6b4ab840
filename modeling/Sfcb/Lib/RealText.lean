import Sfcb.Lib.LongDouble

/-!
# Printed reals

`printReal` is what `printf` writes for a `double` with `%g`: six digits of it, rounded to the
nearest (to the even one between two), without the zeros at the end. The number is given by its
bits, in a format of IEEE 754.

`printFixed` is `%f`. The number is a multiple of the smallest positive `double` there, as
`strtod` gives it. `roundDouble_whole`: a whole number that is not too large is what it is.
-/

namespace Sfcb.Lib

/-- A binary format. -/
structure RealFormat where
  mantissa : Nat
  exponent : Nat
  deriving Repr, DecidableEq

/-- `float`. -/
def RealFormat.single : RealFormat := ⟨23, 8⟩

/-- `double`. -/
def RealFormat.double : RealFormat := ⟨52, 11⟩

/-- The whole number next to a fraction. -/
def roundEven (num den : Nat) : Nat :=
  let q := num / den
  let r := num % den
  if 2 * r < den ∨ (2 * r = den ∧ q % 2 = 0) then q else q + 1

/-- The power of ten that is not above a fraction. -/
def decimalExponent (num den : Nat) : Int :=
  if den ≤ num then (numeral 10 (num / den)).length - 1
  else -((numeral 10 ((den - 1) / num)).length : Int)

/-- Six digits of a fraction, as a number, and the exponent of the first one. -/
def sixDigits (num den : Nat) : Nat × Int :=
  let x := decimalExponent num den
  let n := if x ≤ 5 then roundEven (num * 10 ^ (5 - x).toNat) den
    else roundEven num (den * 10 ^ (x - 5).toNat)
  if n = 10 ^ 6 then (10 ^ 5, x + 1) else (n, x)

/-- The zeros at the end go. -/
def dropZeros (s : CStr) : CStr := (s.reverse.dropWhile (· = 48)).reverse

/-- A point and the digits behind it, if there are any. -/
def fractionText (s : CStr) : CStr :=
  let t := dropZeros s
  if t = [] then [] else 46 :: t

/-- An exponent has two digits or more. -/
def exponentText (x : Int) : CStr :=
  let ds := numeral 10 x.natAbs
  (if x < 0 then lit "e-" else lit "e+") ++ (if ds.length < 2 then 48 :: ds else ds)

/-- `%g` of a fraction that is not zero. -/
def printFraction (num den : Nat) : CStr :=
  let n := sixDigits num den
  let ds := numeral 10 n.1
  if n.2 < -4 ∨ 6 ≤ n.2 then ds.take 1 ++ fractionText (ds.drop 1) ++ exponentText n.2
  else if n.2 < 0 then lit "0." ++ List.replicate (-n.2 - 1).toNat 48 ++ dropZeros ds
  else ds.take (n.2.toNat + 1) ++ fractionText (ds.drop (n.2.toNat + 1))

/-- `%g` of the number with these bits. -/
def printReal (f : RealFormat) (bits : Nat) : CStr :=
  let fraction := bits % 2 ^ f.mantissa
  let biased := bits / 2 ^ f.mantissa % 2 ^ f.exponent
  let sign : CStr := if bits / 2 ^ (f.mantissa + f.exponent) = 0 then [] else lit "-"
  sign ++
    if biased = 2 ^ f.exponent - 1 then if fraction = 0 then lit "inf" else lit "nan"
    else
      let m := if biased = 0 then fraction else 2 ^ f.mantissa + fraction
      -- what is one in the mantissa is `2 ^ (up - down)`
      let up := max biased 1
      let down := 2 ^ (f.exponent - 1) - 1 + f.mantissa
      if m = 0 then lit "0" else printFraction (m * 2 ^ (up - down)) (2 ^ (down - up))

/-! ## Doubles as whole numbers -/

/-- The number of 53 bits next to a fraction, in units of which one has `2 ^ e`; none is larger
than `infinity`. -/
def roundBits (e infinity num den : Nat) : Nat :=
  let units := num * 2 ^ e
  let ulp := 2 ^ ((units / den).log2 - 52)
  min (roundEven units (den * ulp) * ulp) infinity

/-- The smallest positive `double` is `2 ^ (-1074)`. -/
@[irreducible]
def doubleBits : Nat := 1074

/-- One. -/
def doubleOne : Nat := 2 ^ doubleBits

/-- Infinity: the first power of two above all numbers. -/
def doubleInfinity : Nat := 2 ^ (1024 + doubleBits)

/-- The `double` next to a fraction. -/
def roundDouble (num den : Nat) : Nat := roundBits doubleBits doubleInfinity num den

/-- `strtod` on a number without an exponent. -/
def strtod (s : CStr) : Int :=
  let (minus, t) := splitSign (s.dropWhile isSpace)
  let n : Nat :=
    if strncasecmp t (lit "inf") 3 = 0 then doubleInfinity
    else match scanMantissa 10 t with
      | some (value, fraction, _) => roundDouble value (10 ^ fraction)
      | none => 0
  if minus then -(n : Int) else n

/-- `%f`. -/
def printFixed (minus : Bool) (x : Nat) : CStr :=
  (if minus then lit "-" else []) ++
    if doubleInfinity ≤ x then lit "inf"
    else
      let n := roundEven (x * 10 ^ 6) doubleOne
      numeral 10 (n / 10 ^ 6) ++ 46 :: (numeral 10 (10 ^ 6 + n % 10 ^ 6)).tail

theorem doubleOne_pos : 0 < doubleOne := Nat.two_pow_pos _

theorem div_le_roundEven (num den : Nat) : num / den ≤ roundEven num den := by
  unfold roundEven
  dsimp only
  split <;> omega

theorem roundEven_mul {den : Nat} (hden : 0 < den) (k : Nat) : roundEven (k * den) den = k := by
  unfold roundEven
  dsimp only
  rw [Nat.mul_mod_left, Nat.mul_div_cancel k hden, if_pos (Or.inl (by omega))]

section Whole

variable {e infinity : Nat} (hinfinity : 2 ^ (53 + e) ≤ infinity)
include hinfinity

theorem mul_lt_infinity {k : Nat} (hk : k < 2 ^ 53) : k * 2 ^ e < infinity :=
  calc k * 2 ^ e < 2 ^ 53 * 2 ^ e := Nat.mul_lt_mul_of_pos_right hk (Nat.two_pow_pos e)
    _ = 2 ^ (53 + e) := (Nat.pow_add ..).symm
    _ ≤ infinity := hinfinity

/-- A whole number is what it is. -/
theorem roundBits_whole {k den : Nat} (hden : 0 < den) (hk : k < 2 ^ 53) :
    roundBits e infinity (k * den) den = k * 2 ^ e := by
  have hunits : k * den * 2 ^ e = k * 2 ^ e * den := Nat.mul_right_comm k den _
  -- it has all its bits above the last one that is kept
  have hlog : (k * 2 ^ e).log2 - 52 ≤ e := by
    by_cases hzero : k * 2 ^ e = 0
    · rw [hzero, Nat.log2_zero]
      omega
    · have := (Nat.log2_lt hzero).mpr (mul_lt_infinity (Nat.le_refl (2 ^ (53 + e))) hk)
      omega
  obtain ⟨c, hc⟩ := Nat.pow_dvd_pow 2 hlog
  have hpos : 0 < 2 ^ ((k * 2 ^ e).log2 - 52) := Nat.two_pow_pos _
  have hlt := mul_lt_infinity hinfinity hk
  unfold roundBits
  dsimp only
  rw [hunits, Nat.mul_div_cancel _ hden]
  generalize 2 ^ ((k * 2 ^ e).log2 - 52) = ulp at hc hpos ⊢
  have hmul : k * 2 ^ e * den = k * c * (den * ulp) := by
    rw [hc]
    ac_rfl
  have hvalue : k * c * ulp = k * 2 ^ e := by
    rw [hc]
    ac_rfl
  rw [hmul, roundEven_mul (Nat.mul_pos hden hpos), hvalue, Nat.min_eq_left (Nat.le_of_lt hlt)]

/-- A larger number stays large. -/
theorem le_roundBits {n : Nat} (hn : 2 ^ 53 ≤ n) : 2 ^ 53 * 2 ^ e ≤ roundBits e infinity n 1 := by
  have hsum : 2 ^ 53 * 2 ^ e = 2 ^ (53 + e) := (Nat.pow_add ..).symm
  have hle : 2 ^ (53 + e) ≤ n * 2 ^ e := hsum ▸ Nat.mul_le_mul_right _ hn
  have hne : n * 2 ^ e ≠ 0 := Nat.ne_of_gt (Nat.lt_of_lt_of_le (Nat.two_pow_pos _) hle)
  have hlog : 53 + e ≤ (n * 2 ^ e).log2 := (Nat.le_log2 hne).mpr hle
  have hself : 2 ^ (n * 2 ^ e).log2 ≤ n * 2 ^ e := Nat.log2_self_le hne
  unfold roundBits
  dsimp only
  rw [Nat.div_one, hsum]
  generalize n * 2 ^ e = units at hlog hself ⊢
  have hsplit : (2 : Nat) ^ units.log2 = 2 ^ 52 * 2 ^ (units.log2 - 52) := by
    rw [← Nat.pow_add]
    congr 1
    omega
  have hround : 2 ^ 52 ≤ roundEven units (1 * 2 ^ (units.log2 - 52)) := by
    refine Nat.le_trans ?_ (div_le_roundEven _ _)
    rw [Nat.one_mul]
    exact (Nat.le_div_iff_mul_le (Nat.two_pow_pos _)).mpr (hsplit ▸ hself)
  refine Nat.le_min.mpr ⟨?_, hinfinity⟩
  refine Nat.le_trans (Nat.pow_le_pow_right (by omega) hlog) ?_
  rw [hsplit]
  exact Nat.mul_le_mul_right _ hround

end Whole

theorem le_doubleInfinity : 2 ^ (53 + doubleBits) ≤ doubleInfinity := by
  unfold doubleInfinity
  exact Nat.pow_le_pow_right (by omega) (by omega)

theorem roundDouble_whole {k den : Nat} (hden : 0 < den) (hk : k < 2 ^ 53) :
    roundDouble (k * den) den = k * doubleOne :=
  roundBits_whole le_doubleInfinity hden hk

theorem le_roundDouble {n : Nat} (hn : 2 ^ 53 ≤ n) : 2 ^ 53 * doubleOne ≤ roundDouble n 1 :=
  le_roundBits le_doubleInfinity hn

theorem mul_doubleOne_lt {k : Nat} (hk : k < 2 ^ 53) : k * doubleOne < doubleInfinity :=
  mul_lt_infinity le_doubleInfinity hk

/-- The text of a whole number, with a fraction of zeros or without. -/
def wholeText (minus : Bool) (n : Nat) (fraction : CStr) : CStr :=
  (if minus then [45] else []) ++ (numeral 10 n ++ fraction)

/-- What `%f` writes behind a whole number. -/
def zeroFraction : CStr := lit ".000000"

/-- `%f` of a whole number. -/
theorem printFixed_whole (minus : Bool) {k : Nat} (hk : k < 2 ^ 53) :
    printFixed minus (k * doubleOne) = wholeText minus k zeroFraction := by
  have hfraction : zeroFraction = 46 :: (numeral 10 (10 ^ 6 + 0)).tail := by decide
  have hminus : lit "-" = [45] := rfl
  unfold printFixed wholeText
  rw [if_neg (Nat.not_le.mpr (mul_doubleOne_lt hk)), Nat.mul_right_comm,
    roundEven_mul doubleOne_pos]
  dsimp only
  rw [Nat.mul_div_cancel k (by omega), Nat.mul_mod_left, hfraction, hminus]

theorem printInt_eq (n : Int) : printInt n = wholeText (decide (n < 0)) n.natAbs [] := by
  unfold printInt wholeText
  by_cases hneg : n < 0 <;> simp [hneg]

section WholeText

variable {n : Nat} {fraction : CStr} (hends : EndsNumber fraction)

/-- There is no sign in front of a number that is not negative. -/
theorem wholeText_cases (n : Nat) (fraction : CStr) :
    ∃ d ds, (wholeText false n fraction).dropWhile isSpace = d :: ds ∧
      d :: ds = numeral 10 n ++ fraction ∧ isDigit d = true ∧ d ≠ 45 ∧ d ≠ 43 := by
  obtain ⟨d, ds, hcons, hd⟩ := numeral_eq_cons n
  refine ⟨d, ds ++ fraction, ?_, by rw [hcons, List.cons_append], hd, fun h => ?_, fun h => ?_⟩
  · unfold wholeText
    rw [if_neg (by decide), hcons, List.nil_append, List.cons_append, dropWhile_isSpace hd]
  · rw [h] at hd
    exact absurd hd (by decide)
  · rw [h] at hd
    exact absurd hd (by decide)

include hends

theorem scanDigits_wholeText : scanDigits 10 0 (numeral 10 n ++ fraction) = (n, fraction) := by
  rw [scanDigits_numeral (by omega) (by omega), scanDigits_of_endsNumber hends]
  simp

/-- `strtoll` reads a whole number. -/
theorem strtoll_wholeText (minus : Bool) (hn : n < 2 ^ 63) :
    strtoll (wholeText minus n fraction) = if minus then -(n : Int) else n := by
  cases minus with
  | true =>
    show -((min (scanDigits 10 0 (numeral 10 n ++ fraction)).1 (2 ^ 63) : Nat) : Int) = -(n : Int)
    rw [scanDigits_wholeText hends, Nat.min_eq_left (by omega)]
  | false =>
    obtain ⟨d, ds, hdrop, hcons, -, hminus, hplus⟩ := wholeText_cases n fraction
    unfold strtoll
    rw [hdrop]
    split
    · next heq => exact absurd (List.cons.inj heq).1 hminus
    · next heq => exact absurd (List.cons.inj heq).1 hplus
    · rw [hcons, scanDigits_wholeText hends]
      show ((min n (2 ^ 63 - 1) : Nat) : Int) = n
      rw [Nat.min_eq_left (by omega)]

/-- `strtoull` reads one that is not negative. -/
theorem strtoull_wholeText {minus : Bool} (hn : n < 2 ^ 64) (hminus : minus = true → n = 0) :
    strtoull (wholeText minus n fraction) = n := by
  cases minus with
  | true =>
    obtain rfl := hminus rfl
    show (if (scanDigits 10 0 (numeral 10 0 ++ fraction)).1 < 2 ^ 64
      then (2 ^ 64 - (scanDigits 10 0 (numeral 10 0 ++ fraction)).1) % 2 ^ 64 else 2 ^ 64 - 1) = 0
    rw [scanDigits_wholeText hends]
    simp only [Nat.sub_zero, Nat.mod_self, Nat.two_pow_pos, if_true]
  | false =>
    obtain ⟨d, ds, hdrop, hcons, -, hminus, hplus⟩ := wholeText_cases n fraction
    unfold strtoull
    rw [hdrop]
    split
    · next heq => exact absurd (List.cons.inj heq).1 hminus
    · next heq => exact absurd (List.cons.inj heq).1 hplus
    · rw [hcons, scanDigits_wholeText hends]
      exact Nat.min_eq_left (by omega)

omit hends in
/-- `inf` does not begin with a digit. -/
theorem numeral_ne_inf (n : Nat) (fraction : CStr) :
    strncasecmp (numeral 10 n ++ fraction) (lit "inf") 3 ≠ 0 := by
  obtain ⟨d, ds, hcons, hd⟩ := numeral_eq_cons n
  have hlow : toLower d = d := by
    unfold toLower
    rw [if_neg]
    simp only [isDigit, Bool.and_eq_true, decide_eq_true_eq, UInt8.le_iff_toNat_le,
      UInt8.reduceToNat] at hd ⊢
    omega
  have hne : d ≠ 105 := by
    rintro rfl
    exact absurd hd (by decide)
  have hnum : (d.toNat : Int) - 105 ≠ 0 := fun h => hne (UInt8.toNat_inj.mp (by
    show d.toNat = 105
    omega))
  rw [hcons]
  show strcmp (toLower d :: _) (105 :: _) ≠ 0
  rw [strcmp, if_neg (hlow.symm ▸ hne), hlow]
  exact hnum

omit hends in
theorem scanDigits_zeros (n : Nat) : scanDigits 10 n (lit "000000") = (n * 10 ^ 6, []) := by
  have hzero : digitVal 10 48 = some 0 := by decide
  show scanDigits 10 n [48, 48, 48, 48, 48, 48] = _
  simp only [scanDigits, hzero]
  congr 1
  omega

/-- `strtod` reads the digits. -/
theorem strtod_wholeText (minus : Bool) (hzero : fraction = [] ∨ fraction = zeroFraction) :
    ∃ (x : Int) (den : Nat), strtod (wholeText minus n fraction) = (if minus then -x else x) ∧
      x = roundDouble (n * den) den ∧ 0 < den ∧ (fraction = [] → den = 1) := by
  have hsplit : splitSign ((wholeText minus n fraction).dropWhile isSpace) =
      (minus, numeral 10 n ++ fraction) := by
    cases minus with
    | true => rfl
    | false =>
      obtain ⟨d, ds, hdrop, hcons, -, hminus, hplus⟩ := wholeText_cases n fraction
      rw [hdrop]
      unfold splitSign
      split
      · next heq => exact absurd (List.cons.inj heq).1 hminus
      · next heq => exact absurd (List.cons.inj heq).1 hplus
      · rw [hcons]
  have hmantissa : ∃ k rest, scanMantissa 10 (numeral 10 n ++ fraction) =
      some (n * 10 ^ k, k, rest) ∧ (fraction = [] → k = 0) := by
    have hne : numeral 10 n ≠ [] := numeral_ne_nil (by omega) n
    have hlen : fraction.length ≠ (numeral 10 n ++ fraction).length := by
      rw [List.length_append]
      have := List.length_pos_iff.mpr hne
      omega
    unfold scanMantissa
    rw [scanDigits_wholeText hends]
    dsimp only
    rcases hzero with rfl | rfl
    · refine ⟨0, [], ?_, fun _ => rfl⟩
      rw [show afterPoint [] = none from rfl]
      dsimp only
      rw [if_neg fun h => hlen h.1, Nat.pow_zero, Nat.mul_one]
    · refine ⟨6, [], ?_, fun h => absurd h (by decide)⟩
      rw [show afterPoint zeroFraction = some (lit "000000") from rfl]
      dsimp only
      rw [if_neg fun h => hlen h.1, scanDigits_zeros]
      rfl
  obtain ⟨k, rest, hscan, hk⟩ := hmantissa
  refine ⟨_, 10 ^ k, ?_, rfl, Nat.pow_pos (by omega), fun h => by rw [hk h, Nat.pow_zero]⟩
  unfold strtod
  rw [hsplit]
  dsimp only
  rw [if_neg (numeral_ne_inf n fraction), hscan]

/-- A whole number of 53 bits is what it is. -/
theorem strtod_whole (minus : Bool) (hzero : fraction = [] ∨ fraction = zeroFraction)
    (hn : n < 2 ^ 53) :
    strtod (wholeText minus n fraction) = (if minus then -(n : Int) else n) * doubleOne := by
  obtain ⟨x, den, hread, hx, hden, -⟩ := strtod_wholeText hends minus hzero
  rw [hread, hx, roundDouble_whole hden hn]
  cases minus with
  | true =>
    rw [if_pos rfl, if_pos rfl, Int.natCast_mul]
    exact (Int.neg_mul ..).symm
  | false =>
    rw [if_neg (by decide), if_neg (by decide), Int.natCast_mul]

end WholeText

/-- Numbers are in the order of what `strtod` reads, if one of them has 53 bits. -/
theorem strtod_printInt_order (n : Int) {k : Int} (hk : k.natAbs < 2 ^ 53) :
    (strtod (printInt n) < k * doubleOne ↔ n < k) ∧
      (k * doubleOne < strtod (printInt n) ↔ k < n) := by
  have hends : EndsNumber [] := fun _ hb => absurd hb (by simp)
  have hpos : (0 : Int) < doubleOne := Int.natCast_pos.mpr doubleOne_pos
  rw [printInt_eq]
  by_cases hn : n.natAbs < 2 ^ 53
  · have hvalue : (if decide (n < 0) then -(n.natAbs : Int) else n.natAbs) = n := by
      by_cases hneg : n < 0
      · rw [if_pos (by simpa using hneg)]
        omega
      · rw [if_neg (by simpa using hneg)]
        omega
    rw [strtod_whole hends _ (Or.inl rfl) hn, hvalue]
    exact ⟨Int.mul_lt_mul_right hpos, Int.mul_lt_mul_right hpos⟩
  · obtain ⟨x, den, hread, hx, -, hone⟩ := strtod_wholeText hends (n := n.natAbs) (decide (n < 0))
      (Or.inl rfl)
    obtain rfl := hone rfl
    -- beyond 53 bits, on the one side or on the other
    have hle : (2 ^ 53 : Int) * doubleOne ≤ x := by
      rw [hx, Nat.mul_one]
      exact_mod_cast le_roundDouble (Nat.le_of_not_lt hn)
    have hhigh : k * doubleOne < 2 ^ 53 * doubleOne := (Int.mul_lt_mul_right hpos).mpr (by omega)
    have hlow : -(2 ^ 53 * doubleOne : Int) < k * doubleOne := by
      rw [← Int.neg_mul]
      exact (Int.mul_lt_mul_right hpos).mpr (by omega)
    rw [hread]
    by_cases hneg : n < 0
    · rw [if_pos (by simpa using hneg)]
      omega
    · rw [if_neg (by simpa using hneg)]
      omega

/-- `1.0000001` and `-1.5e10`. -/
example : printReal .double 0x3FF000001AD7F29B = lit "1" ∧
    printReal .double 0xC20BF08EB0000000 = lit "-1.5e+10" := by decide

end Sfcb.Lib
