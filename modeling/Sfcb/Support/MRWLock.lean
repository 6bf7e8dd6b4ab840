import Sfcb.Lib.Monitor

/-!
# The multiple reader lock

`mrwlock.c`. Readers take the mutex only to count themselves. A writer waits, with the mutex,
until no reader is counted, and keeps the mutex until it calls `MWriteUnlock`.

`mrwlock_excludes_iff` says that the lock does what it is for in a run of any number of threads
if and only if there are never 2 ^ 32 read locks at a time: `mrw_rnum` is unsigned.

Mirroring notes:
- `mrwl` is not null, and the pthread functions succeed.
- Between its calls a thread is at `caller`. It may make any call there, except that it gives
  back only what it has. Read locks nest. A thread that calls `MReadLock` inside of its own
  write section waits for its own mutex.
- `reads` and `writing` are there for the statements only.
-/

namespace Sfcb.Support

open Sfcb.Lib

/-- Where a thread is. -/
inductive MRWPoint where
  | caller
  /-- In `MReadLock`. -/
  | readLock | countRead | readLocked
  /-- In `MReadUnlock`. -/
  | readUnlock | uncountRead | testReaders | wakeWriters | readUnlocked
  /-- In `MWriteLock`. -/
  | writeLock | testWrite | waitWrite
  /-- In `MWriteUnlock`. -/
  | writeUnlock
  deriving Repr, DecidableEq

structure MRWThread where
  point : MRWPoint
  /-- How many calls of `MReadLock` have returned, less the calls of `MReadUnlock` made. -/
  reads : Nat
  /-- From the return of `MWriteLock` until `MWriteUnlock` gives the mutex back. -/
  writing : Bool
  deriving Repr, DecidableEq

def MRWThread.goTo (t : MRWThread) (point : MRWPoint) : MRWThread := { t with point := point }

/-- The calls a thread may make. -/
def MRWThread.Calls (t t' : MRWThread) : Prop :=
  t' = t.goTo .readLock ∨ t' = t.goTo .writeLock ∨
    (t.reads ≠ 0 ∧ t' = { t with point := .readUnlock, reads := t.reads - 1 }) ∨
    (t.writing = true ∧ t' = t.goTo .writeUnlock)

/-- The four functions; the value that is shared is `mrw_rnum`. -/
def mrwProgram (t : MRWThread) : MonitorOp UInt32 MRWThread :=
  match t.point with
  | .caller => .choose t.Calls
  -- `MReadLock`
  | .readLock => .lock (t.goTo .countRead)
  | .countRead => .act (· + 1) fun _ => t.goTo .readLocked
  | .readLocked => .unlock { t with point := .caller, reads := t.reads + 1 }
  -- `MReadUnlock`
  | .readUnlock => .lock (t.goTo .uncountRead)
  | .uncountRead => .act (· - 1) fun _ => t.goTo .testReaders
  | .testReaders => .act id fun rnum => t.goTo (if rnum = 0 then .wakeWriters else .readUnlocked)
  | .wakeWriters => .broadcast (t.goTo .readUnlocked)
  | .readUnlocked => .unlock (t.goTo .caller)
  -- `MWriteLock`
  | .writeLock => .lock (t.goTo .testWrite)
  | .testWrite => .act id fun rnum =>
      if rnum = 0 then { t with point := .caller, writing := true } else t.goTo .waitWrite
  | .waitWrite => .wait (t.goTo .testWrite)
  -- `MWriteUnlock`
  | .writeUnlock => .unlock { t with point := .caller, writing := false }

abbrev MRWState (ι : Type) := Monitor ι UInt32 MRWThread

/-- After `MRWInit`. -/
def MRWInit {ι : Type} : MRWState ι := .start 0 ⟨.caller, 0, false⟩

/-- The read locks a thread has: from where `MReadLock` counts the lock to where `MReadUnlock`
does no longer. -/
def MRWThread.outstanding (t : MRWThread) : Nat :=
  t.reads + match t.point with
    | .readLocked | .readUnlock | .uncountRead => 1
    | _ => 0

/-! ## Who has the mutex -/

/-- A writer is in none of the sections of the other functions. -/
def MRWThread.Possible (t : MRWThread) : Prop :=
  match t.point with
  | .caller | .readLock | .readUnlock | .writeLock => True
  | .writeUnlock => t.writing = true
  | _ => t.writing = false

def MRWThread.Holds (t : MRWThread) : Prop :=
  match t.point with
  | .caller | .readLock | .readUnlock | .writeLock => t.writing = true
  | _ => True

theorem mrwProgram_disciplined :
    Disciplined mrwProgram MRWThread.Possible MRWThread.Holds where
  lock := by
    rintro ⟨point, reads, writing⟩
    cases point <;>
      simp [mrwProgram, MRWThread.Possible, MRWThread.Holds, MRWThread.goTo]
  unlock := by
    rintro ⟨point, reads, writing⟩
    cases point <;>
      simp [mrwProgram, MRWThread.Possible, MRWThread.Holds, MRWThread.goTo]
  wait := by
    rintro ⟨point, reads, writing⟩
    cases point <;>
      simp [mrwProgram, MRWThread.Possible, MRWThread.Holds, MRWThread.goTo]
  broadcast := by
    rintro ⟨point, reads, writing⟩
    cases point <;>
      simp [mrwProgram, MRWThread.Possible, MRWThread.Holds, MRWThread.goTo]
  act := by
    rintro ⟨point, reads, writing⟩ f next hop hpossible v
    cases point <;> simp [mrwProgram] at hop
    all_goals obtain ⟨-, rfl⟩ := hop
    · exact ⟨hpossible, Iff.rfl⟩
    · exact ⟨hpossible, Iff.rfl⟩
    · have hout : writing = false := hpossible
      by_cases hv : v = 0 <;>
        simp [MRWThread.goTo, MRWThread.Possible, MRWThread.Holds, hv, hout]
    · have hout : writing = false := hpossible
      by_cases hv : v = 0 <;>
        simp [MRWThread.goTo, MRWThread.Possible, MRWThread.Holds, hv, hout]
  choose := by
    rintro ⟨point, reads, writing⟩ next hop hpossible t ht
    cases point with
    | caller =>
      simp only [mrwProgram, MonitorOp.choose.injEq] at hop
      subst hop
      obtain rfl | rfl | ⟨-, rfl⟩ | ⟨hwriting, rfl⟩ := ht <;>
        simp_all [MRWThread.Possible, MRWThread.Holds, MRWThread.goTo]
    | _ => simp [mrwProgram] at hop

/-! ## What the operations do to the count -/

section Operations

variable {t next : MRWThread}

theorem lock_spec (hop : mrwProgram t = .lock next) :
    next.outstanding = t.outstanding ∧ next.writing = t.writing := by
  obtain ⟨point, reads, writing⟩ := t
  cases point <;> simp [mrwProgram] at hop <;> subst hop <;> exact ⟨rfl, rfl⟩

theorem unlock_spec (hop : mrwProgram t = .unlock next) (hpossible : t.Possible) :
    next.outstanding = t.outstanding ∧ next.writing = false := by
  obtain ⟨point, reads, writing⟩ := t
  cases point <;> simp [mrwProgram] at hop <;> subst hop
  · exact ⟨rfl, hpossible⟩
  · exact ⟨rfl, hpossible⟩
  · exact ⟨rfl, rfl⟩

theorem wait_spec (hop : mrwProgram t = .wait next) (hpossible : t.Possible) :
    next.outstanding = t.outstanding ∧ next.writing = false := by
  obtain ⟨point, reads, writing⟩ := t
  cases point <;> simp [mrwProgram] at hop
  subst hop
  exact ⟨rfl, hpossible⟩

theorem broadcast_spec (hop : mrwProgram t = .broadcast next) (hpossible : t.Possible) :
    next.outstanding = t.outstanding ∧ next.writing = false := by
  obtain ⟨point, reads, writing⟩ := t
  cases point <;> simp [mrwProgram] at hop
  subst hop
  exact ⟨rfl, hpossible⟩

theorem choose_spec {choices : MRWThread → Prop} (hop : mrwProgram t = .choose choices)
    (hnext : choices next) : next.outstanding = t.outstanding ∧ next.writing = t.writing := by
  obtain ⟨point, reads, writing⟩ := t
  cases point <;> simp [mrwProgram] at hop
  subst hop
  obtain rfl | rfl | ⟨hreads, rfl⟩ | ⟨hwriting, rfl⟩ := hnext
  · exact ⟨rfl, rfl⟩
  · exact ⟨rfl, rfl⟩
  · refine ⟨?_, rfl⟩
    simp only [MRWThread.outstanding] at hreads ⊢
    omega
  · exact ⟨rfl, rfl⟩

/-- What a step on `mrw_rnum` does to it, and to the locks the thread has. -/
inductive Counts (t next : MRWThread) (rnum : UInt32) : UInt32 → Prop where
  | same (hcount : next.outstanding = t.outstanding)
      (hwriting : next.writing = true → rnum = 0) : Counts t next rnum rnum
  | more (hcount : next.outstanding = t.outstanding + 1) (hwriting : next.writing = false) :
      Counts t next rnum (rnum + 1)
  | less (hcount : t.outstanding = next.outstanding + 1) (hwriting : next.writing = false) :
      Counts t next rnum (rnum - 1)

theorem act_spec {f : UInt32 → UInt32} {after : UInt32 → MRWThread}
    (hop : mrwProgram t = .act f after) (hpossible : t.Possible) (rnum : UInt32) :
    t.writing = false ∧ t.Holds ∧ Counts t (after rnum) rnum (f rnum) := by
  obtain ⟨point, reads, writing⟩ := t
  cases point <;> simp [mrwProgram] at hop
  all_goals
    obtain ⟨rfl, rfl⟩ := hop
    refine ⟨hpossible, trivial, ?_⟩
  · exact .more rfl hpossible
  · exact .less rfl hpossible
  · have hout : writing = false := hpossible
    refine .same ?_ fun hwriting => absurd hwriting (by simp [MRWThread.goTo, hout])
    by_cases hrnum : rnum = 0 <;> simp [MRWThread.goTo, MRWThread.outstanding, hrnum]
  · have hout : writing = false := hpossible
    by_cases hrnum : rnum = 0
    · exact .same (by simp [MRWThread.outstanding, hrnum]) fun _ => hrnum
    · refine .same (by simp [MRWThread.goTo, MRWThread.outstanding, hrnum]) fun hwriting => ?_
      exact absurd hwriting (by simp [MRWThread.goTo, hrnum, hout])

end Operations

/-! ## The lock -/

section Lock

variable {ι : Type} [Fintype ι] {m m' : MRWState ι}

/-- The lock does what it is for. -/
structure Excludes (m : MRWState ι) : Prop where
  counted : m.value.toNat = m.total MRWThread.outstanding
  readers : ∀ i j, (m.point i).writing = true → (m.point j).outstanding = 0
  writers : ∀ i j, (m.point i).writing = true → (m.point j).writing = true → i = j

/-- A writer has the mutex, and came in when nobody was counted. -/
structure Counted (m : MRWState ι) : Prop where
  guarded : Guarded MRWThread.Possible MRWThread.Holds m
  counted : m.value.toNat = m.total MRWThread.outstanding
  writer : ∀ i, (m.point i).writing = true → (m.status i).inside MRWThread.Holds ∧ m.value = 0

theorem Counted.excludes (h : Counted m) : Excludes m := by
  refine ⟨h.counted, fun i j hi => ?_, fun i j hi hj => ?_⟩
  · have hzero : m.value.toNat = 0 := by
      rw [(h.writer i hi).2]
      rfl
    have hle := le_total MRWThread.outstanding m j
    have hcounted := h.counted
    omega
  · exact h.guarded.unique (h.writer i hi).1 (h.writer j hj).1

theorem counted_MRWInit : Counted (MRWInit : MRWState ι) := by
  refine ⟨guarded_start 0 trivial (by simp [MRWThread.Holds]), ?_, fun i hi => ?_⟩
  · exact (total_start MRWThread.outstanding 0 rfl).symm
  · exact absurd hi (by simp [MRWInit, Monitor.point, Monitor.start, ThreadStatus.point])

theorem Counted.wakeAll (h : Counted m) :
    Counted { m with status := fun j => (m.status j).wake } := by
  refine ⟨h.guarded.wakeAll, ?_, fun i hi => ?_⟩
  · rw [total_wakeAll]
    exact h.counted
  · simp only [Monitor.point, ThreadStatus.point_wake] at hi
    have hwriter := h.writer i hi
    cases hs : m.status i <;> simp_all [ThreadStatus.wake, ThreadStatus.inside]

variable [DecidableEq ι]

/-- A thread goes on. Only the owner of the mutex changes the count, and no other is inside. -/
theorem Counted.goTo {i : ι} {s : ThreadStatus MRWThread} {owner : Option ι} {value : UInt32}
    (h : Counted m)
    (hguarded : Guarded MRWThread.Possible MRWThread.Holds
      { m.goTo i s with owner := owner, value := value })
    (hcount : value.toNat + (m.point i).outstanding = m.value.toNat + s.point.outstanding)
    (hvalue : value = m.value ∨ (m.status i).inside MRWThread.Holds ∧ (m.point i).writing = false)
    (hwriter : s.point.writing = true → s.inside MRWThread.Holds ∧ value = 0) :
    Counted { m.goTo i s with owner := owner, value := value } := by
  refine ⟨hguarded, ?_, fun j hj => ?_⟩
  · have htotal := total_goTo MRWThread.outstanding m i s
    have hcounted := h.counted
    change value.toNat = (m.goTo i s).total MRWThread.outstanding
    omega
  · by_cases hji : j = i
    · subst hji
      simp only [Monitor.point, status_goTo_self] at hj ⊢
      exact hwriter hj
    · simp only [Monitor.point, status_goTo_of_ne m s hji] at hj ⊢
      obtain ⟨hinside, hzero⟩ := h.writer j hj
      obtain rfl | ⟨hother, -⟩ := hvalue
      · exact ⟨hinside, hzero⟩
      · exact absurd (h.guarded.unique hinside hother) hji

/-- What one step preserves, unless it makes the read locks too many. -/
theorem Counted.step (h : Counted m) (hstep : Monitor.Step mrwProgram m m')
    (hlimit : m'.total MRWThread.outstanding < 2 ^ 32) : Counted m' := by
  have hguarded := h.guarded.step mrwProgram_disciplined hstep
  cases hstep with
  | @lock i t next hat hop hfree =>
    have hpoint : m.point i = t := by rw [Monitor.point, hat]; rfl
    obtain ⟨hcount, hwriting⟩ := lock_spec hop
    refine h.goTo hguarded (by rw [hpoint, ← hcount]; rfl) (.inl rfl) fun hnext => ?_
    -- a writer does not get its own mutex
    have hinside := (h.writer i (by rw [hpoint, ← hwriting]; exact hnext)).1
    exact absurd hinside (h.guarded.not_inside hfree)
  | @unlock i t next hat hop =>
    have hpoint : m.point i = t := by rw [Monitor.point, hat]; rfl
    obtain ⟨hcount, hwriting⟩ := unlock_spec hop (h.guarded.possibleAt hat)
    refine h.goTo hguarded (by rw [hpoint, ← hcount]; rfl) (.inl rfl) fun hnext => ?_
    exact absurd hnext (by simp [ThreadStatus.point, hwriting])
  | @wait i t next hat hop =>
    have hpoint : m.point i = t := by rw [Monitor.point, hat]; rfl
    obtain ⟨hcount, hwriting⟩ := wait_spec hop (h.guarded.possibleAt hat)
    refine h.goTo hguarded (by rw [hpoint, ← hcount]; rfl) (.inl rfl) fun hnext => ?_
    exact absurd hnext (by simp [ThreadStatus.point, hwriting])
  | @wake i t hat =>
    have hpoint : m.point i = t := by rw [Monitor.point, hat]; rfl
    refine h.goTo hguarded (by rw [hpoint]; rfl) (.inl rfl) fun hnext => ?_
    have hinside := (h.writer i (by rw [hpoint]; exact hnext)).1
    rw [hat] at hinside
    exact hinside.elim
  | @relock i t hat hfree =>
    have hpoint : m.point i = t := by rw [Monitor.point, hat]; rfl
    refine h.goTo hguarded (by rw [hpoint]; rfl) (.inl rfl) fun hnext => ?_
    have hinside := (h.writer i (by rw [hpoint]; exact hnext)).1
    rw [hat] at hinside
    exact hinside.elim
  | @broadcast i t next hat hop =>
    have hpoint : m.point i = t := by rw [Monitor.point, hat]; rfl
    obtain ⟨hcount, hwriting⟩ := broadcast_spec hop (h.guarded.possibleAt hat)
    refine h.wakeAll.goTo hguarded ?_ (.inl rfl) fun hnext => ?_
    · simp only [Monitor.point, ThreadStatus.point_wake]
      rw [hat, ThreadStatus.point, ThreadStatus.point, hcount]
    · exact absurd hnext (by simp [ThreadStatus.point, hwriting])
  | @act i t f after hat hop =>
    have hpoint : m.point i = t := by rw [Monitor.point, hat]; rfl
    obtain ⟨hout, hholds, hcounts⟩ := act_spec hop (h.guarded.possibleAt hat) m.value
    have hinside : (m.status i).inside MRWThread.Holds := by
      rw [hat]
      exact hholds
    have htotal := total_goTo MRWThread.outstanding m i (.running (after m.value))
    rw [hpoint] at htotal
    have hcounted := h.counted
    have hle := le_total MRWThread.outstanding m i
    rw [hpoint] at hle
    change (m.goTo i (.running (after m.value))).total MRWThread.outstanding < 2 ^ 32 at hlimit
    refine h.goTo hguarded ?_ (.inr ⟨hinside, by rw [hpoint, hout]⟩) fun hnext => ?_
    · rw [hpoint]
      generalize f m.value = value at hcounts
      simp only [ThreadStatus.point] at htotal ⊢
      cases hcounts with
      | same hcount => rw [hcount]
      | more hcount =>
        rw [UInt32.toNat_add, UInt32.toNat_one, Nat.mod_eq_of_lt (by omega)]
        omega
      | less hcount =>
        have hone : (1 : UInt32) ≤ m.value := by
          rw [UInt32.le_iff_toNat_le, UInt32.toNat_one]
          omega
        rw [UInt32.toNat_sub_of_le _ _ hone, UInt32.toNat_one]
        omega
    · refine ⟨?_, ?_⟩
      · exact ((mrwProgram_disciplined.act t f after hop (h.guarded.possibleAt hat) m.value).2).mpr
          hholds
      · simp only [ThreadStatus.point] at hnext
        generalize f m.value = value at hcounts
        cases hcounts with
        | same hcount hwriting => exact hwriting hnext
        | more hcount hwriting => exact absurd hnext (by simp [hwriting])
        | less hcount hwriting => exact absurd hnext (by simp [hwriting])
  | @choose i t t' choices hat hop hnext =>
    have hpoint : m.point i = t := by rw [Monitor.point, hat]; rfl
    obtain ⟨hcount, hwriting⟩ := choose_spec hop hnext
    refine h.goTo hguarded (by rw [hpoint, ← hcount]; rfl) (.inl rfl) fun hwrites => ?_
    obtain ⟨hinside, hzero⟩ := h.writer i (by rw [hpoint, ← hwriting]; exact hwrites)
    rw [hat] at hinside
    exact ⟨((mrwProgram_disciplined.choose t choices hop (h.guarded.possibleAt hat) t'
      hnext).2).mpr hinside, hzero⟩

theorem Counted.run {ms : List (MRWState ι)} (h : Counted m)
    (hrun : (m :: ms).IsChain (Monitor.Step mrwProgram))
    (hlimit : ∀ m ∈ ms, m.total MRWThread.outstanding < 2 ^ 32) : ∀ m ∈ ms, Counted m := by
  induction ms generalizing m with
  | nil => exact fun m hm => absurd hm (by simp)
  | cons m' ms ih =>
    rw [List.isChain_cons_cons] at hrun
    have hm' := h.step hrun.1 (hlimit m' List.mem_cons_self)
    intro m hm
    obtain rfl | hm := List.mem_cons.mp hm
    · exact hm'
    · exact ih hm' hrun.2 (fun m hm => hlimit m (List.mem_cons_of_mem _ hm)) m hm

/-- In a run the lock keeps readers and writers apart, and counts right, if and only if at no
time there are 2 ^ 32 read locks or more. -/
theorem mrwlock_excludes_iff {ms : List (MRWState ι)}
    (hrun : (MRWInit :: ms).IsChain (Monitor.Step mrwProgram)) :
    (∀ m ∈ ms, Excludes m) ↔ ∀ m ∈ ms, m.total MRWThread.outstanding < 2 ^ 32 := by
  constructor
  · intro h m hm
    rw [← (h m hm).counted]
    exact m.value.toNat_lt
  · intro hlimit m hm
    exact (counted_MRWInit.run hrun hlimit m hm).excludes

end Lock

/-- A thread goes on; who has the mutex then, and the count. -/
def goesOn (i : Bool) (s : ThreadStatus MRWThread) (owner : Option Bool) (value : UInt32)
    (m : MRWState Bool) : MRWState Bool :=
  { m.goTo i s with owner, value }

theorem goesOn_act {m : MRWState Bool} {i : Bool} {t t' : MRWThread} {f : UInt32 → UInt32}
    {next : UInt32 → MRWThread} {value : UInt32} (hat : m.status i = .running t)
    (hop : mrwProgram t = .act f next) (hnext : next m.value = t') (hvalue : f m.value = value) :
    Monitor.Step mrwProgram m (goesOn i (.running t') m.owner value m) := by
  subst hnext hvalue
  exact .act hat hop

/-- The states of a run. -/
def statesOf (m : MRWState Bool) : List (MRWState Bool → MRWState Bool) → List (MRWState Bool)
  | [] => []
  | f :: fs => f m :: statesOf (f m) fs

abbrev reader (point : MRWPoint) (reads : Nat) := goesOn true (.running ⟨point, reads, false⟩)

abbrev writer (point : MRWPoint) (writing : Bool) := goesOn false (.running ⟨point, 0, writing⟩)

/-- A reader comes in, a writer waits for it, the reader leaves and wakes the writer, which
takes the lock and gives it back. -/
def readThenWrite : List (MRWState Bool → MRWState Bool) :=
  [reader .readLock 0 none 0,
    reader .countRead 0 (some true) 0,
    reader .readLocked 0 (some true) 1,
    reader .caller 1 none 1,
    writer .writeLock false none 1,
    writer .testWrite false (some false) 1,
    writer .waitWrite false (some false) 1,
    goesOn false (.waiting ⟨.testWrite, 0, false⟩) none 1,
    reader .readUnlock 0 none 1,
    reader .uncountRead 0 (some true) 1,
    reader .testReaders 0 (some true) 0,
    reader .wakeWriters 0 (some true) 0,
    fun m => { m with status := fun j => (m.status j).wake }.goTo true
      (.running ⟨.readUnlocked, 0, false⟩),
    reader .caller 0 none 0,
    writer .testWrite false (some false) 0,
    writer .caller true (some false) 0,
    writer .writeUnlock true (some false) 0,
    writer .caller false none 0]

theorem mrwlock_excludes_iff_reading :
    (∀ m ∈ statesOf MRWInit readThenWrite, Excludes m) ↔
      ∀ m ∈ statesOf MRWInit readThenWrite, m.total MRWThread.outstanding < 2 ^ 32 :=
  mrwlock_excludes_iff <|
    .cons_cons (.choose rfl rfl (.inl rfl)) <| .cons_cons (.lock rfl rfl rfl) <|
    .cons_cons (goesOn_act rfl rfl rfl rfl) <| .cons_cons (.unlock rfl rfl) <|
    .cons_cons (.choose rfl rfl (.inr (.inl rfl))) <| .cons_cons (.lock rfl rfl rfl) <|
    .cons_cons (goesOn_act rfl rfl rfl rfl) <| .cons_cons (.wait rfl rfl) <|
    .cons_cons (.choose rfl rfl (.inr (.inr (.inl ⟨by decide, rfl⟩)))) <|
    .cons_cons (.lock rfl rfl rfl) <| .cons_cons (goesOn_act rfl rfl rfl rfl) <| .cons_cons (goesOn_act rfl rfl rfl rfl) <|
    .cons_cons (.broadcast rfl rfl) <| .cons_cons (.unlock rfl rfl) <|
    .cons_cons (.relock rfl rfl) <| .cons_cons (goesOn_act rfl rfl rfl rfl) <|
    .cons_cons (.choose rfl rfl (.inr (.inr (.inr ⟨rfl, rfl⟩)))) <|
    .cons_cons (.unlock rfl rfl) <| .singleton _

/-! ## Too many read locks -/

section TooMany

variable {ι : Type} [DecidableEq ι] {m : MRWState ι}

/-- A call of `MReadLock` while nobody has the mutex. -/
theorem mreadLock_steps {i : ι} {n : Nat} (hfree : m.owner = none)
    (hat : m.status i = .running ⟨.caller, n, false⟩) :
    Relation.ReflTransGen (Monitor.Step mrwProgram) m
      { m.goTo i (.running ⟨.caller, n + 1, false⟩) with value := m.value + 1 } := by
  obtain ⟨owner, value, status⟩ := m
  obtain rfl : owner = none := hfree
  have hsteps := (((Relation.ReflTransGen.refl (r := Monitor.Step mrwProgram)).tail
    (.choose hat rfl (.inl rfl))).tail (.lock (status_goTo_self ..) rfl rfl)).tail
    (.act (status_goTo_self ..) rfl) |>.tail (.unlock (status_goTo_self ..) rfl)
  simpa [Monitor.goTo, MRWThread.goTo, Function.update_idem] using hsteps

/-- A call of `MWriteLock` while nobody has the mutex and nobody is counted. -/
theorem mwriteLock_steps {i : ι} {n : Nat} (hfree : m.owner = none) (hzero : m.value = 0)
    (hat : m.status i = .running ⟨.caller, n, false⟩) :
    Relation.ReflTransGen (Monitor.Step mrwProgram) m
      { m.goTo i (.running ⟨.caller, n, true⟩) with owner := some i } := by
  obtain ⟨owner, value, status⟩ := m
  obtain rfl : owner = none := hfree
  obtain rfl : value = 0 := hzero
  have hsteps := ((Relation.ReflTransGen.refl (r := Monitor.Step mrwProgram)).tail
    (.choose hat rfl (.inr (.inl rfl)))).tail (.lock (status_goTo_self ..) rfl rfl) |>.tail
    (.act (status_goTo_self ..) rfl)
  simpa [Monitor.goTo, MRWThread.goTo, Function.update_idem] using hsteps

/-- A thread takes the read lock any number of times, and another one takes none. -/
theorem nested_reads (n : Nat) : ∃ m : MRWState Bool,
    Relation.ReflTransGen (Monitor.Step mrwProgram) MRWInit m ∧ m.owner = none ∧
      m.value = UInt32.ofNat n ∧ m.status false = .running ⟨.caller, n, false⟩ ∧
      m.status true = .running ⟨.caller, 0, false⟩ := by
  induction n with
  | zero => exact ⟨MRWInit, .refl, rfl, rfl, rfl, rfl⟩
  | succ n ih =>
    obtain ⟨m, hrun, hfree, hvalue, hreader, hother⟩ := ih
    refine ⟨_, hrun.trans (mreadLock_steps hfree hreader), hfree, ?_, status_goTo_self m false _, ?_⟩
    · rw [UInt32.ofNat_add, ← hvalue]
      rfl
    · rw [← hother]
      exact @status_goTo_of_ne _ _ _ _ m false true (.running ⟨.caller, n + 1, false⟩) nofun

end TooMany

/-- One thread may take the read lock 2 ^ 32 times, and a writer then comes in. -/
theorem not_mrwlock_excludes : ¬ ∀ m : MRWState Bool,
    Relation.ReflTransGen (Monitor.Step mrwProgram) MRWInit m → Excludes m := by
  intro h
  obtain ⟨m, hrun, hfree, hvalue, hreader, hother⟩ := nested_reads (2 ^ 32)
  have hwriter := mwriteLock_steps hfree (hvalue.trans (by decide)) hother
  have hzero := (h _ (hrun.trans hwriter)).readers true false
  simp only [Monitor.point, status_goTo_self, status_goTo_of_ne m _ (by decide : false ≠ true),
    hreader, ThreadStatus.point, MRWThread.outstanding] at hzero
  exact absurd (hzero trivial) (by decide)

end Sfcb.Support
