import Sfcb.Lib.Numeral

/-!
# Numbers of a fixed width

`padded w n` is what `printf` writes for `%w.wllu`: zeros in front, up to `w` digits. Such
numbers can be written side by side and cut apart again, and are read as the number they are.
-/

namespace Sfcb.Lib

/-- `n` with zeros in front. -/
def padded (w n : Nat) : CStr := List.replicate (w - (numeral 10 n).length) 48 ++ numeral 10 n

theorem length_padded {w n : Nat} (hw : 0 < w) (h : n < 10 ^ w) : (padded w n).length = w := by
  obtain ⟨k, rfl⟩ := Nat.exists_eq_add_one_of_ne_zero (Nat.ne_of_gt hw)
  have := length_numeral_le_of_lt (by omega) k h
  rw [padded, List.length_append, List.length_replicate]
  omega

theorem isDigit_of_mem_padded {w n : Nat} {b : UInt8} (h : b ∈ padded w n) : isDigit b = true := by
  obtain hzero | hnumeral := List.mem_append.mp h
  · rw [(List.mem_replicate.mp hzero).2]
    decide
  · exact isDigit_of_mem_numeral hnumeral

theorem padded_eq_cons (w n : Nat) : ∃ d ds, padded w n = d :: ds ∧ isDigit d = true := by
  cases h : padded w n with
  | nil => exact absurd (List.append_eq_nil_iff.mp h).2 (numeral_ne_nil (by omega) n)
  | cons d ds =>
    exact ⟨d, ds, rfl, isDigit_of_mem_padded (w := w) (n := n) (by rw [h]; exact List.mem_cons_self)⟩

theorem scanDigits_replicate (k acc : Nat) (s : CStr) (hacc : acc = 0) :
    scanDigits 10 acc (List.replicate k 48 ++ s) = scanDigits 10 acc s := by
  induction k with
  | zero => rfl
  | succ k ih =>
    have hzero : digitVal 10 48 = some 0 := by decide
    rw [List.replicate_succ, List.cons_append, scanDigits, hzero]
    simp only
    rw [hacc] at ih ⊢
    exact ih

theorem scanDigits_padded (w n : Nat) {rest : CStr} (h : EndsNumber rest) :
    scanDigits 10 0 (padded w n ++ rest) = (n, rest) := by
  rw [padded, List.append_assoc, scanDigits_replicate _ _ _ rfl,
    scanDigits_numeral (by omega) (by omega), scanDigits_of_endsNumber h]
  simp

/-- A text that begins with a digit has neither blanks nor a sign in front. -/
theorem dropWhile_digit {d : UInt8} (h : isDigit d = true) (ds : CStr) :
    (d :: ds).dropWhile isSpace = d :: ds ∧ d ≠ 45 ∧ d ≠ 43 := by
  have hne : ∀ b : UInt8, isDigit b = false → d ≠ b := by
    intro b hb he
    rw [he, hb] at h
    exact absurd h (by simp)
  refine ⟨?_, hne 45 (by decide), hne 43 (by decide)⟩
  have hspace : isSpace d = false := by
    simp [isDigit, UInt8.le_iff_toNat_le] at h
    simp [isSpace, UInt8.le_iff_toNat_le, ← UInt8.toNat_inj]
    omega
  rw [List.dropWhile_cons, hspace]
  simp

theorem strtoull_padded (w : Nat) {n : Nat} (hn : n < 2 ^ 64) {rest : CStr}
    (h : EndsNumber rest) : strtoull (padded w n ++ rest) = n := by
  have hscan := scanDigits_padded w n h
  obtain ⟨d, ds, hcons, hd⟩ := padded_eq_cons w n
  obtain ⟨hdrop, hminus, hplus⟩ := dropWhile_digit hd (ds ++ rest)
  rw [hcons, List.cons_append] at hscan ⊢
  unfold strtoull
  rw [hdrop]
  split
  · next heq => exact absurd (List.cons.inj heq).1 hminus
  · next heq => exact absurd (List.cons.inj heq).1 hplus
  · rw [hscan]
    exact Nat.min_eq_left (by omega)

theorem atoi_padded (w : Nat) {n : Nat} (hn : n < 2 ^ 31) {rest : CStr} (h : EndsNumber rest) :
    atoi (padded w n ++ rest) = n := by
  have hscan := scanDigits_padded w n h
  obtain ⟨d, ds, hcons, hd⟩ := padded_eq_cons w n
  obtain ⟨hdrop, hminus, hplus⟩ := dropWhile_digit hd (ds ++ rest)
  rw [hcons, List.cons_append] at hscan ⊢
  unfold atoi
  rw [hdrop]
  split
  · next heq => exact absurd (List.cons.inj heq).1 hminus
  · next heq => exact absurd (List.cons.inj heq).1 hplus
  · rw [hscan]
    show cInt ((min n (2 ^ 63 - 1) : Nat) : Int) = n
    rw [Nat.min_eq_left (by omega), cInt_of_lt hn]

/-- `%+w.wd`: the sign is always written. -/
def signed (w : Nat) (n : Int) : CStr :=
  (if n < 0 then lit "-" else lit "+") ++ padded w n.natAbs

/-- A number of at most `w` digits is read with its sign. -/
theorem atoi_signed (w : Nat) {n : Int} (hn : n.natAbs < 2 ^ 31) {rest : CStr}
    (h : EndsNumber rest) : atoi (signed w n ++ rest) = n := by
  have hscan := scanDigits_padded w n.natAbs h
  unfold signed
  rw [List.append_assoc]
  split
  · next hneg =>
    have hminus : lit "-" = [45] := by decide
    rw [hminus, List.singleton_append, atoi, List.dropWhile_cons, if_neg (by decide)]
    simp only
    rw [hscan]
    show cInt (-((min n.natAbs (2 ^ 63) : Nat) : Int)) = n
    rw [Nat.min_eq_left (by omega), cInt, Int.bmod_eq_of_le (by omega) (by omega)]
    omega
  · next hneg =>
    have hplus : lit "+" = [43] := by decide
    rw [hplus, List.singleton_append, atoi, List.dropWhile_cons, if_neg (by decide)]
    simp only
    rw [hscan]
    show cInt ((min n.natAbs (2 ^ 63 - 1) : Nat) : Int) = n
    rw [Nat.min_eq_left (by omega), cInt_of_lt hn]
    omega

end Sfcb.Lib
