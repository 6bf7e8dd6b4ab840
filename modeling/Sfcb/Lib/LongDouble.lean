import Sfcb.Lib.Numeral

/-!
# `strtold`

A `long double` of the x87 is a multiple of its smallest positive number, `2 ^ (-16445)`:
an integer here, and the infinities are the first power of two above all numbers. The text
is read as an exact fraction and rounded once.
-/

namespace Sfcb.Lib

/-- Infinity, in units of the smallest positive number. -/
def infinity : Nat := 2 ^ 32829

/-- `num / den` in these units: the nearest of the numbers with 64 bits, the even one of two. -/
def roundLongDouble (num den : Nat) : Nat :=
  let units := num * 2 ^ 16445
  let ulp := 2 ^ ((units / den).log2 - 63)
  let d := den * ulp
  let n := units / d
  let n := if 2 * (units % d) < d then n else if 2 * (units % d) > d then n + 1 else n + n % 2
  min (n * ulp) infinity

/-- Whether there is a minus sign, and what is behind the sign. -/
def splitSign : CStr → Bool × CStr
  | 45 :: t => (true, t)
  | 43 :: t => (false, t)
  | t => (false, t)

/-- What is behind a point. -/
def afterPoint : CStr → Option CStr
  | b :: t => if b = 46 then some t else none
  | [] => none

/-- Digits with a point in them: their value, how many come behind the point, and the rest.
`none` if there is no digit. -/
def scanMantissa (base : Nat) (s : CStr) : Option (Nat × Nat × CStr) :=
  let (whole, rest) := scanDigits base 0 s
  let (value, fraction, rest') :=
    match afterPoint rest with
    | some ds =>
      let (value, rest') := scanDigits base whole ds
      (value, ds.length - rest'.length, rest')
    | none => (whole, 0, rest)
  if rest.length = s.length ∧ fraction = 0 then none else some (value, fraction, rest')

/-- An exponent behind its letter. Without digits there is none. -/
def scanExponent (letter : UInt8) : CStr → Int
  | b :: rest =>
    if toLower b = letter then
      let (minus, ds) := splitSign rest
      if minus then -((scanDigits 10 0 ds).1 : Int) else (scanDigits 10 0 ds).1
    else 0
  | [] => 0

/-- `value * base ^ exponent`. -/
def scaled (value base : Nat) (exponent : Int) : Nat :=
  if 0 ≤ exponent then roundLongDouble (value * base ^ exponent.toNat) 1
  else roundLongDouble value (base ^ (-exponent).toNat)

def decimalMagnitude (s : CStr) : Nat :=
  match scanMantissa 10 s with
  | some (value, fraction, rest) => scaled value 10 (scanExponent 101 rest - fraction)
  | none => 0

/-- The number behind a sign; `none` if it is not a number. -/
def magnitude (s : CStr) : Option Nat :=
  if strncasecmp s (lit "inf") 3 = 0 then some infinity
  else if strncasecmp s (lit "nan") 3 = 0 then none
  else if strncasecmp s (lit "0x") 2 = 0 then
    match scanMantissa 16 (s.drop 2) with
    | some (value, fraction, rest) => some (scaled value 2 (scanExponent 112 rest - 4 * fraction))
    | none => some 0
  else some (decimalMagnitude s)

/-- `strtold`; `none` is NaN. -/
def strtold (s : CStr) : Option Int :=
  let (minus, t) := splitSign (s.dropWhile isSpace)
  (magnitude t).map fun n => if minus then -(n : Int) else n

/-! ## Upper and lower case -/

/-- A byte that is no letter. -/
theorem toLower_eq_iff {a : UInt8} (ha : a.toNat < 65) (b : UInt8) : toLower b = a ↔ b = a := by
  obtain h | ⟨hlow, hhigh, hb⟩ := toLower_cases b
  · rw [h]
  · constructor
    · intro he
      rw [he] at hb
      omega
    · intro he
      rw [he] at hlow
      omega

theorem digitVal_toLower (base : Nat) (b : UInt8) :
    digitVal base (toLower b) = digitVal base b := by
  have hrank : digitRank (toLower b) = digitRank b := by
    obtain h | ⟨hlow, hhigh, hb⟩ := toLower_cases b
    · rw [h]
    · unfold digitRank
      rw [hb]
      by_cases hhex : b.toNat ≤ 70
      · rw [if_neg (by omega), if_pos (by omega), if_neg (by omega), if_neg (by omega),
          if_pos (by omega)]
        omega
      · rw [if_neg (by omega), if_neg (by omega), if_neg (by omega), if_neg (by omega),
          if_neg (by omega), if_neg (by omega)]
  unfold digitVal
  rw [hrank]

theorem isSpace_toLower (b : UInt8) : isSpace (toLower b) = isSpace b := by
  obtain h | ⟨hlow, hhigh, hb⟩ := toLower_cases b
  · rw [h]
  · have hnot : ∀ a : UInt8, 65 ≤ a.toNat → isSpace a = false := by
      intro a ha
      unfold isSpace
      rw [Bool.or_eq_false_iff, Bool.and_eq_false_iff]
      refine ⟨beq_eq_false_iff_ne.mpr fun h => ?_, .inr (decide_eq_false fun h => ?_)⟩
      · rw [h, show (32 : UInt8).toNat = 32 from rfl] at ha
        omega
      · have := UInt8.le_iff_toNat_le.mp h
        rw [show (13 : UInt8).toNat = 13 from rfl] at this
        omega
    rw [hnot _ (by omega), hnot b hlow]

theorem scanDigits_fold (base acc : Nat) (s : CStr) : scanDigits base acc (fold s) =
    ((scanDigits base acc s).1, fold (scanDigits base acc s).2) := by
  induction s generalizing acc with
  | nil => rfl
  | cons b s ih =>
    unfold fold at ih ⊢
    rw [List.map_cons]
    unfold scanDigits
    rw [digitVal_toLower]
    split
    · exact ih _
    · rfl

theorem dropWhile_isSpace_fold (s : CStr) :
    (fold s).dropWhile isSpace = fold (s.dropWhile isSpace) := by
  unfold fold
  rw [List.dropWhile_map]
  congr 2
  exact funext isSpace_toLower

theorem splitSign_of_ne {t : CStr} (hminus : ∀ ds, t ≠ 45 :: ds) (hplus : ∀ ds, t ≠ 43 :: ds) :
    splitSign t = (false, t) := by
  unfold splitSign
  split
  · next ds => exact absurd rfl (hminus ds)
  · next ds => exact absurd rfl (hplus ds)
  · rfl

theorem splitSign_fold (t : CStr) :
    splitSign (fold t) = ((splitSign t).1, fold (splitSign t).2) := by
  have hcons : ∀ (b : UInt8) t, fold (b :: t) = toLower b :: fold t := fun _ _ => rfl
  cases t with
  | nil => rfl
  | cons b t =>
    by_cases hminus : b = 45
    · rw [hminus]
      rfl
    by_cases hplus : b = 43
    · rw [hplus]
      rfl
    have hother : ∀ (a : UInt8) u, a ≠ 45 → a ≠ 43 → splitSign (a :: u) = (false, a :: u) :=
      fun a u h₁ h₂ => splitSign_of_ne (fun ds h => h₁ (List.cons.inj h).1)
        fun ds h => h₂ (List.cons.inj h).1
    rw [hother b t hminus hplus, hcons, hother]
    · exact fun h => hminus ((toLower_eq_iff (by decide) b).mp h)
    · exact fun h => hplus ((toLower_eq_iff (by decide) b).mp h)

/-- Integers are read the same in any case. -/
theorem strtoll_fold (s : CStr) : strtoll (fold s) = strtoll s := by
  have heq : ∀ s, strtoll s = (if (splitSign (s.dropWhile isSpace)).1 then
      -(min (scanDigits 10 0 (splitSign (s.dropWhile isSpace)).2).1 (2 ^ 63) : Nat)
      else ((min (scanDigits 10 0 (splitSign (s.dropWhile isSpace)).2).1 (2 ^ 63 - 1) : Nat)) :
      Int) := by
    intro s
    unfold strtoll
    generalize s.dropWhile isSpace = t
    split
    · rfl
    · rfl
    · next hminus hplus =>
      rw [splitSign_of_ne hminus hplus]
      rfl
  rw [heq, heq, dropWhile_isSpace_fold, splitSign_fold]
  simp only [scanDigits_fold]

theorem strtoull_fold (s : CStr) : strtoull (fold s) = strtoull s := by
  have heq : ∀ s, strtoull s = if (splitSign (s.dropWhile isSpace)).1 then
      if (scanDigits 10 0 (splitSign (s.dropWhile isSpace)).2).1 < 2 ^ 64 then
        (2 ^ 64 - (scanDigits 10 0 (splitSign (s.dropWhile isSpace)).2).1) % 2 ^ 64
      else 2 ^ 64 - 1
      else min (scanDigits 10 0 (splitSign (s.dropWhile isSpace)).2).1 (2 ^ 64 - 1) := by
    intro s
    unfold strtoull
    generalize s.dropWhile isSpace = t
    split
    · rfl
    · rfl
    · next hminus hplus =>
      rw [splitSign_of_ne hminus hplus]
      rfl
  rw [heq, heq, dropWhile_isSpace_fold, splitSign_fold]
  simp only [scanDigits_fold]

theorem afterPoint_fold (t : CStr) : afterPoint (fold t) = (afterPoint t).map fold := by
  cases t with
  | nil => rfl
  | cons b t =>
    rw [show fold (b :: t) = toLower b :: fold t from rfl, afterPoint, afterPoint]
    by_cases hpoint : b = 46
    · rw [if_pos ((toLower_eq_iff (by decide) b).mpr hpoint), if_pos hpoint]
      rfl
    · rw [if_neg fun h => hpoint ((toLower_eq_iff (by decide) b).mp h), if_neg hpoint]
      rfl

theorem scanMantissa_fold (base : Nat) (s : CStr) : scanMantissa base (fold s) =
    (scanMantissa base s).map fun r => (r.1, r.2.1, fold r.2.2) := by
  unfold scanMantissa
  rw [scanDigits_fold]
  simp only [afterPoint_fold, length_fold]
  cases afterPoint (scanDigits base 0 s).2 with
  | none =>
    simp only [Option.map_none]
    split <;> rfl
  | some ds =>
    simp only [Option.map_some, scanDigits_fold, length_fold]
    split <;> rfl

theorem scanExponent_fold (letter : UInt8) (s : CStr) :
    scanExponent letter (fold s) = scanExponent letter s := by
  cases s with
  | nil => rfl
  | cons b s =>
    have hb : toLower (toLower b) = toLower b := (List.cons.inj (fold_fold [b])).1
    rw [show fold (b :: s) = toLower b :: fold s from rfl, scanExponent, scanExponent, hb,
      splitSign_fold]
    simp only [scanDigits_fold]

theorem strncasecmp_fold (s t : CStr) (n : Nat) : strncasecmp (fold s) t n = strncasecmp s t n := by
  have hfold : ((fold s).take n).map toLower = (s.take n).map toLower := by
    rw [List.map_take, List.map_take]
    exact congrArg (List.take n) (fold_fold s)
  unfold strncasecmp strcasecmp
  rw [hfold]

theorem magnitude_fold (s : CStr) : magnitude (fold s) = magnitude s := by
  have hdrop : (fold s).drop 2 = fold (s.drop 2) := List.map_drop.symm
  unfold magnitude decimalMagnitude
  simp only [strncasecmp_fold, hdrop, scanMantissa_fold]
  cases scanMantissa 16 (s.drop 2) <;> cases scanMantissa 10 s <;>
    simp only [Option.map_none, Option.map_some, scanExponent_fold]

/-- A floating-point number is read the same in any case. -/
theorem strtold_fold (s : CStr) : strtold (fold s) = strtold s := by
  unfold strtold
  rw [dropWhile_isSpace_fold, splitSign_fold]
  simp only [magnitude_fold]

end Sfcb.Lib
