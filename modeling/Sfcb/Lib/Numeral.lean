import Mathlib.Algebra.Group.Int.Defs
import Mathlib.Algebra.Group.Nat.Defs
import Sfcb.Lib.CString

/-!
# Printed numbers

`numeral base n` is what `printf` writes for an unsigned number (`%u`, `%x`), and
`scanDigits` is the loop at the heart of `strtoul`: it reads digits as long as
there are any. The round trip `scanDigits_numeral` is stated with the text that
follows, so that it applies in the middle of a line.
-/

namespace Sfcb.Lib

/-- The lower-case digit for a value below sixteen. -/
def digitByte (d : Nat) : UInt8 :=
  UInt8.ofNat (if d < 10 then 48 + d else 87 + d)

/-- The value of a hexadecimal digit of either case, 255 for any other byte. -/
def digitRank (b : UInt8) : Nat :=
  if 48 ≤ b.toNat ∧ b.toNat ≤ 57 then b.toNat - 48
  else if 97 ≤ b.toNat ∧ b.toNat ≤ 102 then b.toNat - 87
  else if 65 ≤ b.toNat ∧ b.toNat ≤ 70 then b.toNat - 55
  else 255

/-- The value of a digit in the given base. -/
def digitVal (base : Nat) (b : UInt8) : Option Nat :=
  if digitRank b < base then some (digitRank b) else none

/-- The digits of `n`, most significant first; `fuel` bounds their number. -/
def numeralFuel (base : Nat) : (fuel n : Nat) → CStr
  | 0, _ => []
  | fuel + 1, n =>
    if n < base then [digitByte n]
    else numeralFuel base fuel (n / base) ++ [digitByte (n % base)]

/-- `n` printed in `base`. A number has at most as many digits as bits. -/
def numeral (base n : Nat) : CStr :=
  numeralFuel base (n.log2 + 1) n

/-- Reads digits onto `acc`; the rest starts at the first byte that is none. -/
def scanDigits (base acc : Nat) : CStr → Nat × CStr
  | [] => (acc, [])
  | b :: bs =>
    match digitVal base b with
    | some d => scanDigits base (acc * base + d) bs
    | none => (acc, b :: bs)

/-- A number stored in an `int`. -/
def cInt (n : Int) : Int := n.bmod (2 ^ 32)

/-- `%d`. -/
def printInt (n : Int) : CStr :=
  if n < 0 then 45 :: numeral 10 n.natAbs else numeral 10 n.natAbs

/-- The digits `strspn` is given. -/
def isDigit (b : UInt8) : Bool := 48 ≤ b && b ≤ 57

/-- `isspace` in the C locale. -/
def isSpace (b : UInt8) : Bool := b == 32 || (9 ≤ b && b ≤ 13)

/-- `atoi`, which is `strtol` to a `long` and then an `int`. -/
def atoi (s : CStr) : Int :=
  match s.dropWhile isSpace with
  | 45 :: ds => cInt (-(min (scanDigits 10 0 ds).1 (2 ^ 63) : Nat))
  | 43 :: ds => cInt (min (scanDigits 10 0 ds).1 (2 ^ 63 - 1) : Nat)
  | ds => cInt (min (scanDigits 10 0 ds).1 (2 ^ 63 - 1) : Nat)

/-- `strtoll`, which stops at the limits of a `long long`. -/
def strtoll (s : CStr) : Int :=
  match s.dropWhile isSpace with
  | 45 :: ds => -(min (scanDigits 10 0 ds).1 (2 ^ 63) : Nat)
  | 43 :: ds => (min (scanDigits 10 0 ds).1 (2 ^ 63 - 1) : Nat)
  | ds => (min (scanDigits 10 0 ds).1 (2 ^ 63 - 1) : Nat)

/-- `strtoull`: a minus sign is taken modulo 2^64. -/
def strtoull (s : CStr) : Nat :=
  match s.dropWhile isSpace with
  | 45 :: ds => if (scanDigits 10 0 ds).1 < 2 ^ 64 then (2 ^ 64 - (scanDigits 10 0 ds).1) % 2 ^ 64
    else 2 ^ 64 - 1
  | 43 :: ds => min (scanDigits 10 0 ds).1 (2 ^ 64 - 1)
  | ds => min (scanDigits 10 0 ds).1 (2 ^ 64 - 1)

theorem cInt_of_lt {n : Nat} (h : n < 2 ^ 31) : cInt n = n := by
  rw [cInt, Int.bmod_eq_of_le (by omega) (by omega)]

theorem printInt_natCast (n : Nat) : printInt n = numeral 10 n := by
  rw [printInt, if_neg (by omega), Int.natAbs_natCast]

theorem digitRank_digitByte {d : Nat} (hd : d < 16) : digitRank (digitByte d) = d := by
  have hnat : (digitByte d).toNat = if d < 10 then 48 + d else 87 + d := by
    simp only [digitByte, UInt8.toNat_ofNat']
    split <;> omega
  simp only [digitRank, hnat]
  by_cases h10 : d < 10
  · simp only [h10, if_true]
    rw [if_pos (by omega)]
    omega
  · simp only [h10, if_false]
    rw [if_neg (by omega), if_pos (by omega)]
    omega

theorem digitVal_digitByte {base d : Nat} (hb : base ≤ 16) (hd : d < base) :
    digitVal base (digitByte d) = some d := by
  rw [digitVal, digitRank_digitByte (by omega), if_pos hd]

/-- More fuel than digits makes no difference. -/
theorem numeralFuel_eq {base : Nat} (hb : 2 ≤ base) :
    ∀ (f g n : Nat), n < 2 ^ f → n < 2 ^ g → 0 < f → 0 < g →
      numeralFuel base f n = numeralFuel base g n := by
  intro f
  induction f with
  | zero => intro g n _ _ hf; omega
  | succ f ih =>
    intro g n hnf hng _ hg
    obtain ⟨g, rfl⟩ : ∃ k, g = k + 1 := ⟨g - 1, by omega⟩
    simp only [numeralFuel]
    split
    · rfl
    · next hlt =>
      have hhalf : n / base ≤ n / 2 := Nat.div_le_div_left hb (by omega)
      have hf : n / base < 2 ^ f := by rw [Nat.pow_succ] at hnf; omega
      have hg' : n / base < 2 ^ g := by rw [Nat.pow_succ] at hng; omega
      have hpos : 0 < n / base := Nat.div_pos (by omega) (by omega)
      have hf0 : 0 < f := by
        rcases Nat.eq_zero_or_pos f with rfl | h
        · simp at hf; omega
        · exact h
      have hg0 : 0 < g := by
        rcases Nat.eq_zero_or_pos g with rfl | h
        · simp at hg'; omega
        · exact h
      rw [ih g _ hf hg' hf0 hg0]

/-- The recursion of printing. -/
theorem numeral_eq {base : Nat} (hb : 2 ≤ base) (n : Nat) :
    numeral base n
      = if n < base then [digitByte n] else numeral base (n / base) ++ [digitByte (n % base)] := by
  rw [numeral, numeralFuel]
  split
  · rfl
  · next hlt =>
    have hn : n < 2 ^ (n.log2 + 1) := Nat.lt_log2_self
    have hhalf : n / base ≤ n / 2 := Nat.div_le_div_left hb (by omega)
    have hpos : 0 < n / base := Nat.div_pos (by omega) (by omega)
    have hlog : 0 < n.log2 := by
      rcases Nat.eq_zero_or_pos n.log2 with h | h
      · rw [h] at hn; simp at hn; omega
      · exact h
    rw [numeral, numeralFuel_eq hb n.log2 ((n / base).log2 + 1) (n / base)
      (by rw [Nat.pow_succ] at hn; omega) Nat.lt_log2_self hlog (by omega)]

/-- Scanning a printed number puts it behind what was scanned before. -/
theorem scanDigits_numeral {base : Nat} (h2 : 2 ≤ base) (h16 : base ≤ 16) (n : Nat) :
    ∀ (acc : Nat) (rest : CStr),
      scanDigits base acc (numeral base n ++ rest)
        = scanDigits base (acc * base ^ (numeral base n).length + n) rest := by
  induction n using Nat.strongRecOn with
  | ind n ih =>
    intro acc rest
    rw [numeral_eq h2]
    split
    · next hlt =>
      simp only [List.cons_append, List.nil_append, scanDigits, digitVal_digitByte h16 hlt,
        List.length_cons, List.length_nil, Nat.pow_succ, Nat.pow_zero, Nat.one_mul]
    · next hge =>
      have hlt : n / base < n := Nat.div_lt_self (by omega) (by omega)
      have hmod : n % base < base := Nat.mod_lt _ (by omega)
      rw [List.append_assoc, ih _ hlt]
      simp only [List.cons_append, List.nil_append, scanDigits, digitVal_digitByte h16 hmod,
        List.length_append, List.length_cons, List.length_nil, Nat.pow_succ]
      have hval : (acc * base ^ (numeral base (n / base)).length + n / base) * base + n % base
          = acc * (base ^ (numeral base (n / base)).length * base) + n := by
        rw [Nat.add_mul, Nat.mul_assoc, Nat.add_assoc, Nat.mul_comm (n / base),
          Nat.div_add_mod]
      rw [hval]

theorem numeral_ne_nil {base : Nat} (h2 : 2 ≤ base) (n : Nat) : numeral base n ≠ [] := by
  rw [numeral_eq h2]
  split <;> simp

private theorem length_numeralFuel_le (base : Nat) :
    ∀ f n, (numeralFuel base f n).length ≤ f := by
  intro f
  induction f with
  | zero => intro n; simp [numeralFuel]
  | succ f ih =>
    intro n
    have := ih (n / base)
    simp only [numeralFuel]
    split
    · simp
    · simp only [List.length_append, List.length_cons, List.length_nil]
      omega

/-- A number has no more digits than bits. -/
theorem length_numeral_le {base n k : Nat} (h : n < 2 ^ k) : (numeral base n).length ≤ k + 1 := by
  have hlen := length_numeralFuel_le base (n.log2 + 1) n
  have hlog : n.log2 ≤ k := by
    rcases Nat.eq_zero_or_pos n with rfl | hpos
    · simp
    · have hlt := (Nat.log2_lt (by omega)).mpr h
      omega
  rw [numeral]
  omega

/-- A printed number is made of digits. -/
theorem mem_numeral {base : Nat} (h2 : 2 ≤ base) (h16 : base ≤ 16) (n : Nat) {b : UInt8}
    (h : b ∈ numeral base n) : digitVal base b ≠ none := by
  induction n using Nat.strongRecOn with
  | ind n ih =>
    rw [numeral_eq h2] at h
    split at h
    · next hlt =>
      rw [List.mem_singleton] at h
      rw [h, digitVal_digitByte h16 hlt]
      simp
    · next hge =>
      rcases List.mem_append.mp h with h | h
      · exact ih _ (Nat.div_lt_self (by omega) (by omega)) h
      · rw [List.mem_singleton] at h
        rw [h, digitVal_digitByte h16 (Nat.mod_lt _ (by omega))]
        simp

theorem digitVal_ten (b : UInt8) : digitVal 10 b ≠ none ↔ isDigit b = true := by
  have hle : isDigit b = true ↔ 48 ≤ b.toNat ∧ b.toNat ≤ 57 := by
    simp [isDigit, UInt8.le_iff_toNat_le]
  rw [hle]
  have hrank : digitRank b < 10 ↔ 48 ≤ b.toNat ∧ b.toNat ≤ 57 := by
    unfold digitRank
    repeat' split
    all_goals omega
  rw [← hrank]
  unfold digitVal
  split <;> simp_all

/-- A printed decimal number is made of the bytes `0` to `9`. -/
theorem isDigit_of_mem_numeral {n : Nat} {b : UInt8} (h : b ∈ numeral 10 n) : isDigit b = true :=
  (digitVal_ten b).mp (mem_numeral (by omega) (by omega) n h)

/-- A text that goes on with something else than a digit ends a number. -/
def EndsNumber (rest : CStr) : Prop := ∀ b ∈ rest.head?, isDigit b = false

theorem endsNumber_cons {b : UInt8} (h : isDigit b = false) (rest : CStr) :
    EndsNumber (b :: rest) := by
  intro c hc
  rw [List.head?_cons, Option.mem_some_iff] at hc
  rw [← hc, h]

theorem scanDigits_of_endsNumber {rest : CStr} (h : EndsNumber rest) (acc : Nat) :
    scanDigits 10 acc rest = (acc, rest) := by
  cases rest with
  | nil => rfl
  | cons b bs =>
    unfold scanDigits
    cases hd : digitVal 10 b with
    | none => rfl
    | some d =>
      have hdigit := (digitVal_ten b).mp (by rw [hd]; simp)
      rw [h b rfl] at hdigit
      exact absurd hdigit (by simp)

/-- `strspn` finds the whole of a printed number. -/
theorem strspn_numeral {rest : CStr} (h : EndsNumber rest) (n : Nat) :
    strspn (numeral 10 n ++ rest) isDigit = (numeral 10 n).length :=
  strspn_append (fun _ hb => isDigit_of_mem_numeral hb) h

/-- The first byte of a printed number is a digit. -/
theorem numeral_eq_cons (n : Nat) :
    ∃ d ds, numeral 10 n = d :: ds ∧ isDigit d = true := by
  cases h : numeral 10 n with
  | nil => exact absurd h (numeral_ne_nil (by omega) n)
  | cons d ds => exact ⟨d, ds, rfl, isDigit_of_mem_numeral (n := n) (by rw [h]; simp)⟩

theorem dropWhile_isSpace {d : UInt8} (h : isDigit d = true) (ds : CStr) :
    (d :: ds).dropWhile isSpace = d :: ds := by
  simp [isDigit, UInt8.le_iff_toNat_le] at h
  have hspace : isSpace d = false := by
    simp [isSpace, UInt8.le_iff_toNat_le, ← UInt8.toNat_inj]
    omega
  rw [List.dropWhile_cons, hspace]
  simp

/-- `atoi` reads a printed number that an `int` can hold. -/
theorem atoi_numeral {n : Nat} (hn : n < 2 ^ 31) {rest : CStr} (h : EndsNumber rest) :
    atoi (numeral 10 n ++ rest) = n := by
  have hscan : scanDigits 10 0 (numeral 10 n ++ rest) = (n, rest) := by
    rw [scanDigits_numeral (by omega) (by omega), scanDigits_of_endsNumber h]
    simp
  obtain ⟨d, ds, hcons, hd⟩ := numeral_eq_cons n
  rw [hcons, List.cons_append] at hscan ⊢
  unfold atoi
  rw [dropWhile_isSpace hd]
  split
  · next heq => rw [(List.cons.inj heq).1] at hd; exact absurd hd (by decide)
  · next heq => rw [(List.cons.inj heq).1] at hd; exact absurd hd (by decide)
  · rw [hscan]
    show cInt ((min n (2 ^ 63 - 1) : Nat) : Int) = n
    rw [Nat.min_eq_left (by omega), cInt_of_lt hn]

/-- A printed number has no sign and no blank in front. -/
theorem dropWhile_numeral (n : Nat) :
    ∃ d ds, (numeral 10 n).dropWhile isSpace = d :: ds ∧ d :: ds = numeral 10 n ∧ d ≠ 45 ∧ d ≠ 43 := by
  obtain ⟨d, ds, hcons, hd⟩ := numeral_eq_cons n
  refine ⟨d, ds, by rw [hcons, dropWhile_isSpace hd], hcons.symm, fun h => ?_, fun h => ?_⟩
  · rw [h] at hd
    exact absurd hd (by decide)
  · rw [h] at hd
    exact absurd hd (by decide)

theorem scanDigits_numeral_self (n : Nat) : scanDigits 10 0 (numeral 10 n) = (n, []) := by
  have h := @scanDigits_numeral 10 (by omega) (by omega) n 0 []
  simpa [scanDigits] using h

/-- `strtoll` reads what `%lld` prints. -/
theorem strtoll_printInt {n : Int} (hlow : -2 ^ 63 ≤ n) (hhigh : n < 2 ^ 63) :
    strtoll (printInt n) = n := by
  by_cases hneg : n < 0
  · rw [printInt, if_pos hneg]
    show -((min (scanDigits 10 0 (numeral 10 n.natAbs)).1 (2 ^ 63) : Nat) : Int) = n
    rw [scanDigits_numeral_self, Nat.min_eq_left (by omega)]
    omega
  · rw [printInt, if_neg hneg]
    obtain ⟨d, ds, hdrop, hcons, hminus, hplus⟩ := dropWhile_numeral n.natAbs
    unfold strtoll
    rw [hdrop]
    split
    · next heq => exact absurd (List.cons.inj heq).1 hminus
    · next heq => exact absurd (List.cons.inj heq).1 hplus
    · rw [hcons, scanDigits_numeral_self]
      show ((min n.natAbs (2 ^ 63 - 1) : Nat) : Int) = n
      rw [Nat.min_eq_left (by omega)]
      omega

/-- `strtoull` reads what `%llu` prints. -/
theorem strtoull_printInt {n : Nat} (h : n < 2 ^ 64) : strtoull (printInt n) = n := by
  rw [printInt_natCast]
  unfold strtoull
  obtain ⟨d, ds, hdrop, hcons, hminus, hplus⟩ := dropWhile_numeral n
  rw [hdrop]
  split
  · next heq => exact absurd (List.cons.inj heq).1 hminus
  · next heq => exact absurd (List.cons.inj heq).1 hplus
  · rw [hcons, scanDigits_numeral_self]
    exact Nat.min_eq_left (by omega)

/-- A larger number has at least as many digits. -/
theorem length_numeral_mono {base : Nat} (h2 : 2 ≤ base) {m n : Nat} (h : m ≤ n) :
    (numeral base m).length ≤ (numeral base n).length := by
  induction n using Nat.strongRecOn generalizing m with
  | ind n ih =>
    by_cases hm : m < base
    · have hpos := List.length_pos_iff.mpr (numeral_ne_nil h2 n)
      rw [numeral_eq h2 m, if_pos hm]
      exact hpos
    · have hdiv := ih (n / base) (Nat.div_lt_self (by omega) (by omega))
        (Nat.div_le_div_right (c := base) h)
      rw [numeral_eq h2 m, numeral_eq h2 n, if_neg hm, if_neg (by omega)]
      simp only [List.length_append, List.length_singleton]
      omega

/-- `k + 1` digits are enough for the numbers below `base ^ (k + 1)`. -/
theorem length_numeral_le_of_lt {base : Nat} (h2 : 2 ≤ base) (k : Nat) {n : Nat}
    (h : n < base ^ (k + 1)) : (numeral base n).length ≤ k + 1 := by
  induction k generalizing n with
  | zero =>
    rw [numeral_eq h2, if_pos (by simpa using h)]
    simp
  | succ k ih =>
    rw [numeral_eq h2]
    split
    · simp
    · have hdiv : n / base < base ^ (k + 1) :=
        Nat.div_lt_of_lt_mul (by rwa [Nat.pow_succ, Nat.mul_comm] at h)
      have := ih hdiv
      simp only [List.length_append, List.length_singleton]
      omega

end Sfcb.Lib
