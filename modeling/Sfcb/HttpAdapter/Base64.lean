import Sfcb.HttpAdapter.Authentication
import Mathlib.Data.List.TakeWhile
import Mathlib.Tactic.IntervalCases

/-!
# Base 64 there and back

`encode64` and `decode64` of `support.c` work on groups of three bytes and of four characters.
`decode64_encode64`: what has been encoded is decoded to what it was.

Both get twice the length of their input for the result. For `encode64` that is not enough when
the input is short, and `encode64_fits` says when. The length is an `int`, and so is its double.

Mirroring notes:
- The characters of `encode64` are shifted as `int`s with a sign, and the bits that this brings
  in are masked out again; here they are bytes.
- A write behind the memory of the result is the outcome `none`.
-/

namespace Sfcb.HttpAdapter

open Sfcb.Lib

/-! ## Encoding -/

/-- The six bits of the first character. -/
def sextet1 (a : UInt8) : UInt8 := (a >>> 2) &&& (63 : UInt8)

/-- Of the second, from two bytes. -/
def sextet2 (a b : UInt8) : UInt8 := ((a <<< 4) &&& (63 : UInt8)) ||| ((b >>> 4) &&& (15 : UInt8))

def sextet3 (b c : UInt8) : UInt8 := ((b <<< 2) &&& (63 : UInt8)) ||| ((c >>> 6) &&& (3 : UInt8))

def sextet4 (c : UInt8) : UInt8 := c &&& (63 : UInt8)

/-- `cvt[c]`. -/
def cvtAt (c : UInt8) : UInt8 := cvt.getD c.toNat 0

/-- The loop of `encode64`. A byte that is not there leaves its bits zero, and a character that
has no bits of the input is `=`. -/
def encodeLoop : CStr → CStr
  | [] => []
  | [a] => [cvtAt (sextet1 a), cvtAt (sextet2 a 0), 61, 61]
  | [a, b] => [cvtAt (sextet1 a), cvtAt (sextet2 a b), cvtAt (sextet3 b 0), 61]
  | a :: b :: c :: data =>
    cvtAt (sextet1 a) :: cvtAt (sextet2 a b) :: cvtAt (sextet3 b c) :: cvtAt (sextet4 c) ::
      encodeLoop data

/-- `encode64`, with `len * 2` bytes for the text and its terminator. -/
def encode64 (data : CStr) : Option CStr :=
  let ret := encodeLoop data
  let len := data.length
  if len * 2 < 2 ^ 31 ∧ ret.length + 1 ≤ len * 2 then some ret else none

/-! ## Characters -/

/-- `find` is the inverse of `cvt`. -/
theorem find_cvtAt (stray : UInt8 → UInt8) {c : UInt8} (h : c < 64) :
    find stray (cvtAt c) = c := by
  have hall : ∀ n : Fin 64, cvtAt (UInt8.ofNat n) ≠ 0 ∧
      cvt.idxOf? (cvtAt (UInt8.ofNat n)) = some n.val := by decide +kernel
  have hc : c.toNat < 64 := h
  obtain ⟨hne, hidx⟩ := hall ⟨c.toNat, hc⟩
  rw [UInt8.ofNat_toNat] at hne hidx
  rw [find, if_neg hne, hidx]
  exact UInt8.ofNat_toNat

/-- `=` is not one of the characters. -/
theorem cvtAt_ne {c : UInt8} (h : c < 64) : cvtAt c ≠ 61 := by
  have hall : ∀ n : Fin 64, cvtAt (UInt8.ofNat n) ≠ 61 := by decide +kernel
  have hc : c.toNat < 64 := h
  have hne := hall ⟨c.toNat, hc⟩
  rwa [UInt8.ofNat_toNat] at hne

/-- What is masked with six bits is a number for a character. -/
theorem and_lt (a : UInt8) : a &&& (63 : UInt8) < 64 := by
  rw [UInt8.lt_iff_toNat_lt, UInt8.toNat_and]
  exact Nat.lt_of_le_of_lt Nat.and_le_right (by decide)

theorem sextet1_lt (a : UInt8) : sextet1 a < 64 := and_lt _

theorem sextet4_lt (c : UInt8) : sextet4 c < 64 := and_lt _

theorem or_lt {a b : UInt8} (ha : a < 64) (hb : b < 64) : a ||| b < 64 := by
  rw [UInt8.lt_iff_toNat_lt, UInt8.toNat_or]
  exact Nat.or_lt_two_pow (n := 6) ha hb

theorem sextet2_lt (a b : UInt8) : sextet2 a b < 64 := by
  apply or_lt (and_lt _)
  rw [UInt8.lt_iff_toNat_lt, UInt8.toNat_and]
  exact Nat.lt_of_le_of_lt Nat.and_le_right (by decide)

theorem sextet3_lt (b c : UInt8) : sextet3 b c < 64 := by
  apply or_lt (and_lt _)
  rw [UInt8.lt_iff_toNat_lt, UInt8.toNat_and]
  exact Nat.lt_of_le_of_lt Nat.and_le_right (by decide)

/-! ## The bits come back -/

theorem first_byte (a b : UInt8) :
    sextet1 a <<< 2 ||| (sextet2 a b >>> 4 &&& 3) = a := by
  unfold sextet1 sextet2
  apply UInt8.toBitVec_inj.mp
  apply BitVec.eq_of_getLsbD_eq
  intro i hi
  interval_cases i <;> simp

theorem second_byte (a b c : UInt8) :
    (sextet2 a b <<< 4 &&& (240 : UInt8)) ||| (sextet3 b c >>> 2 &&& 15) = b := by
  unfold sextet2 sextet3
  apply UInt8.toBitVec_inj.mp
  apply BitVec.eq_of_getLsbD_eq
  intro i hi
  interval_cases i <;> simp

theorem third_byte (b c : UInt8) :
    (sextet3 b c <<< 6 &&& (192 : UInt8)) ||| sextet4 c = c := by
  unfold sextet3 sextet4
  apply UInt8.toBitVec_inj.mp
  apply BitVec.eq_of_getLsbD_eq
  intro i hi
  interval_cases i <;> simp

theorem decodeLoop_encodeLoop (stray : UInt8 → UInt8) (s : CStr) :
    decodeLoop stray (encodeLoop s) = s := by
  induction s using encodeLoop.induct with
  | case1 => rfl
  | case2 a =>
    simp only [encodeLoop, decodeLoop, if_true, find_cvtAt stray (sextet1_lt a),
      find_cvtAt stray (sextet2_lt a 0), first_byte]
  | case3 a b =>
    simp only [encodeLoop, decodeLoop, if_true, if_neg (cvtAt_ne (sextet3_lt b 0)),
      find_cvtAt stray (sextet1_lt a), find_cvtAt stray (sextet2_lt a b),
      find_cvtAt stray (sextet3_lt b 0), first_byte, second_byte]
  | case4 a b c data ih =>
    simp only [encodeLoop, decodeLoop, if_neg (cvtAt_ne (sextet3_lt b c)),
      if_neg (cvtAt_ne (sextet4_lt c)), find_cvtAt stray (sextet1_lt a),
      find_cvtAt stray (sextet2_lt a b), find_cvtAt stray (sextet3_lt b c),
      find_cvtAt stray (sextet4_lt c), first_byte, second_byte, third_byte, ih]

/-! ## Room for the results -/

theorem length_encodeLoop (s : CStr) : (encodeLoop s).length = 4 * ((s.length + 2) / 3) := by
  induction s using encodeLoop.induct with
  | case1 => rfl
  | case2 a => simp [encodeLoop]
  | case3 a b => simp [encodeLoop]
  | case4 a b c data ih =>
    simp only [encodeLoop, List.length_cons, ih]
    omega

/-- The memory that `encode64` asks for is too small for a text of up to two bytes, and of four. -/
theorem encode64_fits (s : CStr) :
    (encode64 s).isSome ↔
      s.length < 2 ^ 30 ∧ s.length ≠ 0 ∧ s.length ≠ 1 ∧ s.length ≠ 2 ∧ s.length ≠ 4 := by
  unfold encode64
  simp only [length_encodeLoop, Option.isSome_ite]
  omega

/-! ## There and back -/

/-- A text is encoded, unless the memory is too small, and decoded to what it was. What it is
encoded to is shorter than `2 ^ 30` bytes, as `decode64` has an `int` for the double of it too. -/
theorem decode64_encode64 (stray : UInt8 → UInt8) {s : CStr} (hs : 0 ∉ s)
    (hsmall : s.length < 3 * 2 ^ 28 - 2)
    (hlength : s.length ≠ 0 ∧ s.length ≠ 1 ∧ s.length ≠ 2 ∧ s.length ≠ 4) :
    ∃ t, encode64 s = some t ∧ t.length < 2 ^ 30 ∧ decode64 stray t = some s := by
  obtain ⟨t, h⟩ := Option.isSome_iff_exists.mp ((encode64_fits s).mpr ⟨by omega, hlength⟩)
  refine ⟨t, h, ?_⟩
  unfold encode64 at h
  simp only [Option.ite_none_right_eq_some, Option.some.injEq] at h
  obtain ⟨_, rfl⟩ := h
  refine ⟨by rw [length_encodeLoop]; omega, ?_⟩
  have hne : encodeLoop s ≠ [] := by
    intro hnil
    have hback := decodeLoop_encodeLoop stray s
    rw [hnil] at hback
    exact hlength.1 (congrArg List.length hback.symm)
  rw [decode64, if_neg hne, decodeLoop_encodeLoop, Option.some.injEq, List.takeWhile_eq_self_iff]
  intro b hb
  simp only [ne_eq, decide_not, Bool.not_eq_true', decide_eq_false_iff_not]
  intro hzero
  exact hs (hzero ▸ hb)

theorem decode64_encode64_user :
    ∃ t, encode64 (lit "user:pw") = some t ∧ t.length < 2 ^ 30 ∧
      decode64 (fun _ => 0) t = some (lit "user:pw") :=
  decode64_encode64 (fun _ => 0) (by decide) (by decide) (by decide)

end Sfcb.HttpAdapter
