import Mathlib.Logic.Basic

/-!
# Semaphores with an undo value

A semaphore of System V has a value, and for a process that asks for it what is to be added to
the value when that process ends. The value does not fall below zero on that way.

An operation of a program that ignores its result: one that waits and is interrupted by a signal
has changed nothing, and the program goes on as if it had. Neither does a release change anything
that would come to more than `SEMVMX`.

`HeldByOne` is what a semaphore that guards something has to do with those who have taken it:
it is one and nobody has, or it is zero and exactly one has. It stays so when one takes it who
finds it above zero, and when one gives it back who has it.
-/

namespace Sfcb.Lib

/-- The value, and what the end of the process adds to it. -/
structure Semaphore where
  value : Nat
  undo : Int
deriving DecidableEq, Repr

namespace Semaphore

variable (s : Semaphore)

/-- The most that a value can be. -/
def SEMVMX : Nat := 32767

/-- One is taken, if there is one. Else the caller waits, until a signal interrupts it. -/
def acquire (interrupted : Bool) : Option Semaphore :=
  if 0 < s.value then some { s with value := s.value - 1 }
  else if interrupted then some s else none

def acquireUnDo (interrupted : Bool) : Option Semaphore :=
  if 0 < s.value then some ⟨s.value - 1, s.undo + 1⟩
  else if interrupted then some s else none

def release : Semaphore := if s.value < SEMVMX then { s with value := s.value + 1 } else s

def releaseUnDo : Semaphore := if s.value < SEMVMX then ⟨s.value + 1, s.undo - 1⟩ else s

/-- A new value. It makes every process forget what it would have undone. -/
def setValue (value : Nat) : Semaphore := ⟨value, 0⟩

/-- The process ends. -/
def processExit : Semaphore := ⟨((s.value : Int) + s.undo).toNat, 0⟩

variable {s} {s' : Semaphore}

theorem pos_of_acquire (h : s.acquire false = some s') : 0 < s.value := by
  by_cases hpos : 0 < s.value
  · exact hpos
  · rw [acquire, if_neg hpos] at h
    cases h

theorem value_of_acquire (h : s.acquire false = some s') : s'.value = s.value - 1 := by
  rw [acquire, if_pos (pos_of_acquire h), Option.some.injEq] at h
  rw [← h]

theorem pos_of_acquireUnDo (h : s.acquireUnDo false = some s') : 0 < s.value := by
  by_cases hpos : 0 < s.value
  · exact hpos
  · rw [acquireUnDo, if_neg hpos] at h
    cases h

theorem value_of_acquireUnDo (h : s.acquireUnDo false = some s') : s'.value = s.value - 1 := by
  rw [acquireUnDo, if_pos (pos_of_acquireUnDo h), Option.some.injEq] at h
  rw [← h]

theorem value_release (h : s.value < SEMVMX) : s.release.value = s.value + 1 := by
  rw [release, if_pos h]

theorem value_releaseUnDo (h : s.value < SEMVMX) : s.releaseUnDo.value = s.value + 1 := by
  rw [releaseUnDo, if_pos h]

end Semaphore

section Guards

variable {ρ : Type} {v : Nat} {holds holds' : ρ → Prop} {p q : ρ}

/-- The semaphore is one and nobody has it, or it is zero and exactly one has it. -/
def HeldByOne (v : Nat) (holds : ρ → Prop) : Prop :=
  (v = 1 ∧ ∀ q, ¬holds q) ∨ (v = 0 ∧ ∃ p, ∀ q, holds q ↔ q = p)

theorem HeldByOne.unique (h : HeldByOne v holds) (hp : holds p) (hq : holds q) : p = q := by
  obtain ⟨_, hnone⟩ | ⟨_, r, hr⟩ := h
  · exact absurd hp (hnone p)
  · rw [(hr p).mp hp, (hr q).mp hq]

theorem HeldByOne.zero (h : HeldByOne v holds) (hp : holds p) : v = 0 := by
  obtain ⟨_, hnone⟩ | ⟨hv, _⟩ := h
  · exact absurd hp (hnone p)
  · exact hv

theorem HeldByOne.free (h : HeldByOne v holds) (hv : 0 < v) (q : ρ) : ¬holds q := by
  obtain ⟨_, hnone⟩ | ⟨hzero, _⟩ := h
  · exact hnone q
  · omega

theorem HeldByOne.congr (h : HeldByOne v holds) (heq : ∀ q, holds' q ↔ holds q) :
    HeldByOne v holds' := by
  obtain ⟨hv, hnone⟩ | ⟨hv, p, hp⟩ := h
  · exact .inl ⟨hv, fun q hq => hnone q ((heq q).mp hq)⟩
  · exact .inr ⟨hv, p, fun q => (heq q).trans (hp q)⟩

/-- One takes it. -/
theorem HeldByOne.taken (h : HeldByOne v holds) (hv : 0 < v)
    (hp : ∀ q, holds' q ↔ holds q ∨ q = p) : HeldByOne (v - 1) holds' := by
  obtain ⟨hone, hnone⟩ | ⟨hzero, _⟩ := h
  · refine .inr ⟨by omega, p, fun q => (hp q).trans ?_⟩
    exact or_iff_right (hnone q)
  · omega

/-- The one who has it gives it back. -/
theorem HeldByOne.given (h : HeldByOne v holds) (hheld : holds p)
    (hp : ∀ q, holds' q ↔ holds q ∧ q ≠ p) : HeldByOne (v + 1) holds' := by
  refine .inl ⟨by rw [h.zero hheld], fun q hq => ?_⟩
  obtain ⟨hq, hne⟩ := (hp q).mp hq
  exact hne (h.unique hq hheld)

/-- So it is with the semaphore. -/
theorem HeldByOne.released {s : Semaphore} (h : HeldByOne s.value holds) (hheld : holds p)
    (hp : ∀ q, holds' q ↔ holds q ∧ q ≠ p) : HeldByOne s.release.value holds' := by
  have hzero := h.zero hheld
  rw [Semaphore.value_release (by rw [hzero]; decide)]
  exact h.given hheld hp

end Guards

end Sfcb.Lib
