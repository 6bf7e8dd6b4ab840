import Mathlib.Algebra.Ring.Nat
import Mathlib.Algebra.BigOperators.Group.List.Basic

/-!
# The Gregorian calendar

Days are counted from the first of January of the year one. `yearOf` finds the year of a day,
and `splitMonth` the month: `yearOf_spec` and `splitMonth_spec` say that the days before them
and the day in them make up the day again.
-/

namespace Sfcb.Lib.Calendar

def isLeap (y : Int) : Bool := y % 4 = 0 ∧ (y % 100 ≠ 0 ∨ y % 400 = 0)

/-- The days before the first of January. -/
def yearStart (y : Int) : Int := 365 * (y - 1) + (y - 1) / 4 - (y - 1) / 100 + (y - 1) / 400

theorem yearStart_succ (y : Int) :
    yearStart (y + 1) = yearStart y + 365 + (if isLeap y then 1 else 0) := by
  unfold yearStart isLeap
  split
  · next h =>
    simp only [decide_eq_true_eq] at h
    omega
  · next h =>
    simp only [decide_eq_true_eq] at h
    omega

/-- Goes on as long as the next year has begun. -/
def yearFrom (day : Int) : Nat → Int → Int
  | 0, y => y
  | fuel + 1, y => if yearStart (y + 1) ≤ day then yearFrom day fuel (y + 1) else y

/-- The year of a day: not before `day / 366`. -/
def yearOf (day : Nat) : Int := yearFrom day (day + 367) (day / 366)

theorem yearFrom_spec {day : Int} {fuel : Nat} {y : Int} (hy : yearStart y ≤ day)
    (hfuel : day < yearStart y + fuel) :
    yearStart (yearFrom day fuel y) ≤ day ∧ day < yearStart (yearFrom day fuel y + 1) := by
  induction fuel generalizing y with
  | zero => omega
  | succ fuel ih =>
    have hsucc := yearStart_succ y
    unfold yearFrom
    split
    · next hnext => exact ih hnext (by split at hsucc <;> omega)
    · next hnext => exact ⟨hy, by omega⟩

theorem yearOf_spec (day : Nat) :
    yearStart (yearOf day) ≤ day ∧ (day : Int) < yearStart (yearOf day + 1) := by
  have hstart : yearStart (day / 366 : Int) ≤ day := by
    unfold yearStart
    omega
  have hlow : -366 ≤ yearStart (day / 366 : Int) := by
    unfold yearStart
    omega
  exact yearFrom_spec hstart (by omega)

def monthLengths (y : Int) : List Nat :=
  [31, if isLeap y then 29 else 28, 31, 30, 31, 30, 31, 31, 30, 31, 30, 31]

/-- The days before the first of a month. -/
def monthStart (y : Int) (mon : Nat) : Nat := ((monthLengths y).take mon).sum

/-- The month of a day, and the day in it. -/
def splitMonth : List Nat → Nat → Nat × Nat
  | [], d => (0, d)
  | m :: ms, d => if d < m then (0, d) else ((splitMonth ms (d - m)).1 + 1, (splitMonth ms (d - m)).2)

theorem splitMonth_spec {ms : List Nat} {d : Nat} (h : d < ms.sum) :
    (splitMonth ms d).1 < ms.length ∧ (ms.take (splitMonth ms d).1).sum + (splitMonth ms d).2 = d ∧
      ∃ m ∈ ms, (splitMonth ms d).2 < m := by
  induction ms generalizing d with
  | nil => exact absurd h (Nat.not_lt_zero d)
  | cons m ms ih =>
    unfold splitMonth
    split
    · next hd => exact ⟨Nat.zero_lt_succ _, Nat.zero_add d, m, List.mem_cons_self, hd⟩
    · next hd =>
      rw [List.sum_cons] at h
      obtain ⟨hlt, hsum, m', hm', hday⟩ := @ih (d - m) (by omega)
      refine ⟨Nat.succ_lt_succ hlt, ?_, m', List.mem_cons_of_mem _ hm', hday⟩
      rw [List.take_succ_cons, List.sum_cons]
      omega

theorem monthLengths_sum (y : Int) :
    (monthLengths y).sum = 365 + (if isLeap y then 1 else 0) := by
  unfold monthLengths
  split <;> rfl

end Sfcb.Lib.Calendar
