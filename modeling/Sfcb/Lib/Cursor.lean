import Mathlib.Logic.Function.Basic
import Mathlib.Logic.Function.Iterate

/-!
# Lists that carry their own cursor

Some list types keep the position of a walk in the list itself: `first` sets it and `next`
moves it on. A walk is right as long as nobody else moves the cursor between two calls.

A `CursorProgram` makes such calls on any number of lists, one at a time. `Shared` runs any
number of programs over the same cursors, and `run_eq_alone` is the rule: a program goes on as
if it were alone while each `next` finds the cursor where the program's own last call left it.
-/

namespace Sfcb.Lib

variable {ι κ α σ : Type}

inductive CursorCall (κ : Type) where
  | first (k : κ)
  | next (k : κ)
  deriving Repr, DecidableEq

def CursorCall.list : CursorCall κ → κ
  | .first k => k
  | .next k => k

/-- The element at a cursor. Position `0` is in front of the list. -/
def elementAt (l : List α) : Nat → Option α
  | 0 => none
  | i + 1 => l[i]?

/-- Where the cursor of the list stands after the call: on the first element, if there is one,
or one further, and not beyond the position behind the list. -/
def CursorCall.move (lists : κ → List α) (cursors : κ → Nat) : CursorCall κ → Nat
  | .first k => if (lists k).isEmpty then 0 else 1
  | .next k => min (cursors k + 1) ((lists k).length + 1)

/-- A program that makes calls and goes on with the elements it gets. -/
structure CursorProgram (κ α σ : Type) where
  call : σ → Option (CursorCall κ)
  resume : σ → Option α → σ

variable [DecidableEq κ]

/-- One call of a program that has the cursors for itself. -/
def CursorProgram.step (P : CursorProgram κ α σ) (lists : κ → List α) (a : (κ → Nat) × σ) :
    (κ → Nat) × σ :=
  match P.call a.2 with
  | none => a
  | some c =>
    (Function.update a.1 c.list (c.move lists a.1),
      P.resume a.2 (elementAt (lists c.list) (c.move lists a.1)))

/-- A program alone, after `n` calls. -/
def CursorProgram.alone (P : CursorProgram κ α σ) (lists : κ → List α) (cursors : κ → Nat) (s : σ)
    (n : Nat) : (κ → Nat) × σ := (P.step lists)^[n] (cursors, s)

/-- Programs over one set of cursors. For the statements only, `own` is where the last call of
a program on a list left the cursor. -/
structure Shared (ι κ σ : Type) where
  cursors : κ → Nat
  own : ι → κ → Nat
  states : ι → σ

def Shared.start (cursors : κ → Nat) (states : ι → σ) : Shared ι κ σ :=
  ⟨cursors, fun _ => cursors, states⟩

variable [DecidableEq ι]

/-- The program `i` makes its next call. -/
def Shared.step (P : CursorProgram κ α σ) (lists : κ → List α) (w : Shared ι κ σ) (i : ι) :
    Shared ι κ σ :=
  match P.call (w.states i) with
  | none => w
  | some c =>
    ⟨Function.update w.cursors c.list (c.move lists w.cursors),
      Function.update w.own i (Function.update (w.own i) c.list (c.move lists w.cursors)),
      Function.update w.states i
        (P.resume (w.states i) (elementAt (lists c.list) (c.move lists w.cursors)))⟩

def Shared.run (P : CursorProgram κ α σ) (lists : κ → List α) (w : Shared ι κ σ) :
    List ι → Shared ι κ σ
  | [] => w
  | i :: schedule => Shared.run P lists (w.step P lists i) schedule

/-- A `next` finds the cursor where the program left it. -/
def Shared.Undisturbed (P : CursorProgram κ α σ) (w : Shared ι κ σ) (i : ι) : Prop :=
  ∀ k, P.call (w.states i) = some (.next k) → w.cursors k = w.own i k

def Shared.UndisturbedRun (P : CursorProgram κ α σ) (lists : κ → List α) (w : Shared ι κ σ) :
    List ι → Prop
  | [] => True
  | i :: schedule =>
    w.Undisturbed P i ∧ Shared.UndisturbedRun P lists (w.step P lists i) schedule

section Rules

variable {P : CursorProgram κ α σ} {lists : κ → List α} {w : Shared ι κ σ} {i j : ι}

/-- What a program sees of itself. -/
def Shared.view (w : Shared ι κ σ) (i : ι) : (κ → Nat) × σ := (w.own i, w.states i)

theorem Shared.view_step_ne (h : j ≠ i) : (w.step P lists i).view j = w.view j := by
  unfold Shared.step
  cases P.call (w.states i) with
  | none => rfl
  | some c => simp [Shared.view, Function.update_of_ne h]

/-- The call goes as it does alone. -/
theorem Shared.view_step (h : w.Undisturbed P i) :
    (w.step P lists i).view i = P.step lists (w.view i) := by
  have hcall : P.call (w.view i).2 = P.call (w.states i) := rfl
  unfold Shared.step CursorProgram.step
  rw [hcall]
  cases hc : P.call (w.states i) with
  | none => rfl
  | some c =>
    have hmove : c.move lists w.cursors = c.move lists (w.own i) := by
      cases c with
      | first k => rfl
      | next k => rw [CursorCall.move, CursorCall.move, h k hc]
    simp [Shared.view, hmove]

theorem Shared.view_run {schedule : List ι} (h : w.UndisturbedRun P lists schedule) (i : ι) :
    (w.run P lists schedule).view i = (P.step lists)^[schedule.count i] (w.view i) := by
  induction schedule generalizing w with
  | nil => rfl
  | cons j schedule ih =>
    rw [Shared.run, ih h.2]
    by_cases hij : i = j
    · subst hij
      rw [List.count_cons_self, Function.iterate_succ_apply, Shared.view_step h.1]
    · rw [List.count_cons_of_ne (Ne.symm hij), Shared.view_step_ne hij]

theorem run_eq_alone {cursors : κ → Nat} {states : ι → σ} {schedule : List ι}
    (h : (Shared.start cursors states).UndisturbedRun P lists schedule) (i : ι) :
    ((Shared.start cursors states).run P lists schedule).states i =
      (P.alone lists cursors (states i) (schedule.count i)).2 :=
  congrArg Prod.snd (Shared.view_run h i)

/-- A program that has ended alone stays as it is. -/
theorem CursorProgram.alone_of_le {cursors : κ → Nat} {s : σ} {m n : Nat}
    (hend : P.call (P.alone lists cursors s m).2 = none) (hle : m ≤ n) :
    P.alone lists cursors s n = P.alone lists cursors s m := by
  induction hle with
  | refl => rfl
  | @step n _ ih =>
    have hstep : P.alone lists cursors s (n + 1) = P.step lists (P.alone lists cursors s n) :=
      Function.iterate_succ_apply' _ _ _
    rw [hstep, ih, CursorProgram.step, hend]

end Rules

end Sfcb.Lib
