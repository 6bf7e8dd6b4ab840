import Sfcb.IndCIMXMLHandler.RetryExport

/-!
# The retry thread

Who queues an element starts the retry thread if `retryRunning` says that none is
running; the thread resets the flag when it has found the queue empty
(`indCIMXMLHandler.c`). The queue is protected by `RQlock`, the flag is not: a call
reads it after it has released the lock, and sets it in a step of its own.

The system is any number of calls (failed `_deliver`s and `refillRetryQ`s) and of
retry threads, one step at a time: a step is one section between taking and releasing
`RQlock`, or one access to `retryRunning`. `runActs_present` says what is needed so that
a queue with something in it always has its thread, and only one.

Mirroring notes:
- Calls and threads have a slot each, which is empty before they start and after they
  end.
- A section of the thread goes over as many passes as it takes to the next `sleep` or
  to the end of the loop. A thread that reads through a null pointer ends the process,
  so there is no step for it.
- The queue is empty when `RQhead` is `NULL`, as the code sees it.
-/

namespace Sfcb.IndCIMXMLHandler

open Sfcb.Lib Sfcb.Cmpi

/-- Where a call stands. -/
inductive Call where
  /-- an element is to be queued, with those that follow it -/
  | enqueue (x : Ptr × RTElement) (rest : List (Ptr × RTElement)) (repo : Bool)
  /-- `retryRunning` is to be read -/
  | check
  /-- it was read as 0 and is to be set -/
  | set
  /-- the thread is to be created -/
  | create
  deriving DecidableEq, Repr

/-- Where a retry thread stands. -/
inductive Thread where
  /-- it has not taken the lock yet -/
  | starting
  /-- it sleeps before a delivery -/
  | asleep (cur : Ptr) (inp : PassInput)
  /-- it has left its loop and released the lock, and has not reset the flag yet -/
  | leaving
  deriving DecidableEq, Repr

/-- The thread has not left its loop. -/
def Thread.inLoop : Thread → Bool
  | .leaving => false
  | _ => true

/-- The process. -/
structure World where
  queue : Queue
  retryRunning : Bool
  calls : Nat → Option Call
  threads : Nat → Option Thread

/-- Fills or empties a slot. -/
def put {α : Type} (slots : Nat → Option α) (i : Nat) (x : Option α) : Nat → Option α :=
  fun k => if k = i then x else slots k

/-- The loop of `retryExport` from `cur`, with the lock held, over the answers the passes
get: up to the next sleep, or to the end of the loop. -/
def runSection (p : RetryParams) (q : Queue) (cur : Ptr) : List PassInput → Option (Queue × Thread)
  | [] => if q.RQhead = NULL then some (q, .leaving) else none
  | inp :: inps =>
    if q.RQhead = NULL then some (q, .leaving)
    else
      match passFront q cur inp with
      | some done => runSection p done.queue done.cur inps
      | none =>
        if sleepsBefore p q cur inp then some (q, .asleep cur inp)
        else
          match passBack p q cur inp with
          | some done => runSection p done.queue done.cur inps
          | none => none

/-- A step of the system: a call begins, a call goes on (a thread it creates gets the
slot `j`), or a thread goes on. -/
inductive Act where
  | deliverFails (i : Nat) (x : Ptr × RTElement)
  | refillRetryQ (i : Nat) (es : List (Ptr × RTElement))
  | call (i j : Nat)
  | thread (j : Nat) (inps : List PassInput)

/-- The next step of the call in slot `i`. -/
def callStep (w : World) (i j : Nat) : Call → Option World
  | .enqueue x rest repo =>
    some { w with
      queue := (enqRetry (alloc w.queue x.1 x.2) x.1 repo).queue
      calls := put w.calls i (some (match rest with
        | [] => .check
        | y :: ys => .enqueue y ys repo)) }
  | .check => some { w with calls := put w.calls i (if w.retryRunning then none else some .set) }
  | .set => some { w with retryRunning := true, calls := put w.calls i (some .create) }
  | .create =>
    if w.threads j = none then
      some { w with calls := put w.calls i none, threads := put w.threads j (some .starting) }
    else none

/-- The next step of the thread in slot `j`. -/
def threadStep (p : RetryParams) (w : World) (j : Nat) (inps : List PassInput) :
    Thread → Option World
  | .starting =>
    (runSection p w.queue w.queue.RQhead inps).map fun r =>
      { w with queue := r.1, threads := put w.threads j (some r.2) }
  | .asleep cur inp =>
    (passBack p w.queue cur inp).bind fun done =>
      (runSection p done.queue done.cur inps).map fun r =>
        { w with queue := r.1, threads := put w.threads j (some r.2) }
  | .leaving => some { w with retryRunning := false, threads := put w.threads j none }

/-- One step; `none` where there is no such step. -/
def step (p : RetryParams) (w : World) : Act → Option World
  | .deliverFails i x =>
    if w.calls i = none then some { w with calls := put w.calls i (some (.enqueue x [] true)) }
    else none
  | .refillRetryQ i es =>
    if w.calls i = none then
      match es with
      | [] => some w
      | x :: rest =>
        if w.queue.RQhead = NULL then
          some { w with calls := put w.calls i (some (.enqueue x rest false)) }
        else some w
    else none
  | .call i j => (w.calls i).bind (callStep w i j)
  | .thread j inps => (w.threads j).bind (threadStep p w j inps)

/-- A sequence of steps. -/
def runActs (p : RetryParams) : World → List Act → Option World
  | w, [] => some w
  | w, a :: acts => (step p w a).bind fun w' => runActs p w' acts

/-- A process that has just started: nothing is queued and nothing is running. -/
structure World.Idle (w : World) : Prop where
  empty : w.queue.RQhead = NULL
  running : w.retryRunning = false
  calls : ∀ i, w.calls i = none
  threads : ∀ j, w.threads j = none

/-- The thread in slot `j` is in its loop. -/
def World.InLoop (w : World) (j : Nat) : Prop := ∃ t, w.threads j = some t ∧ t.inLoop = true

/-- What is asked of the thread: when no call is in progress and something is queued a
thread is in its loop, and there is never more than one. -/
structure Present (w : World) : Prop where
  some : (∀ i, w.calls i = none) → w.queue.RQhead ≠ NULL → ∃ j, w.InLoop j
  unique : ∀ j k, w.InLoop j → w.InLoop k → j = k

/-- What a step must meet. A call reads the flag only when no other call is between
reading it as 0 and setting it. And if it reads it as 1 after a thread has left its loop
and before that thread resets it, nothing is queued or another call is still in
progress. -/
def MeetsAct (w : World) : Act → Prop
  | .call i _ =>
    w.calls i = some .check →
      (∀ k, w.calls k ≠ some .set) ∧
      ((∃ j, w.threads j = some .leaving) →
        w.queue.RQhead = NULL ∨ ∃ k, k ≠ i ∧ w.calls k ≠ none)
  | _ => True

/-- Every step of a run meets the condition. -/
def AllMeetAct (p : RetryParams) : World → List Act → Prop
  | _, [] => True
  | w, a :: acts => MeetsAct w a ∧ ∀ w', step p w a = some w' → AllMeetAct p w' acts

/-! ## The invariant -/

@[simp] theorem put_self {α : Type} (slots : Nat → Option α) (i : Nat) (x : Option α) :
    put slots i x i = x := by
  simp [put]

theorem put_of_ne {α : Type} {slots : Nat → Option α} {i k : Nat} {x : Option α} (h : k ≠ i) :
    put slots i x k = slots k := by
  simp [put, h]

/-- What held of no other slot holds of the one that was put, if of any. -/
theorem put_only {α : Type} {P : Option α → Prop} {slots : Nat → Option α} {i k : Nat}
    {x : Option α} (h : ∀ k, P (slots k) → k = i) (hk : P (put slots i x k)) : k = i := by
  apply Classical.byContradiction
  intro hki
  rw [put_of_ne hki] at hk
  exact hki (h k hk)

/-- A call that has taken it upon itself to start a thread. -/
def Starts (c : Option Call) : Prop := c = some .set ∨ c = some .create

/-- At most one call or thread has the flag, or is about to take it; the flag is set
exactly when one has it; and what is queued has a thread in its loop, or a call that is
still in progress. -/
structure Guarded (w : World) : Prop where
  flag : w.retryRunning = true ↔ (∃ i, w.calls i = some .create) ∨ ∃ j, w.threads j ≠ none
  calls : ∀ i k, Starts (w.calls i) → Starts (w.calls k) → i = k
  threads : ∀ j k, w.threads j ≠ none → w.threads k ≠ none → j = k
  apart : ∀ i, Starts (w.calls i) → ∀ j, w.threads j = none
  served : w.queue.RQhead ≠ NULL → (∃ j, w.InLoop j) ∨ ∃ i, w.calls i ≠ none

theorem World.Idle.guarded {w : World} (h : w.Idle) : Guarded w := by
  refine ⟨?_, ?_, ?_, fun _ _ j => h.threads j, fun hne => absurd h.empty hne⟩
  · rw [h.running]
    refine iff_of_false Bool.false_ne_true ?_
    rintro (⟨i, hi⟩ | ⟨j, hj⟩)
    · rw [h.calls] at hi
      cases hi
    · exact hj (h.threads j)
  · intro i k hi
    rw [h.calls] at hi
    rcases hi with hi | hi <;> cases hi
  · exact fun j _ hj => absurd (h.threads j) hj

theorem Guarded.present {w : World} (h : Guarded w) : Present w := by
  refine ⟨fun hcalls hqueue => ?_, fun j k hj hk => ?_⟩
  · rcases h.served hqueue with hloop | ⟨i, hi⟩
    · exact hloop
    · exact absurd (hcalls i) hi
  · obtain ⟨t, ht, -⟩ := hj
    obtain ⟨t', ht', -⟩ := hk
    exact h.threads j k (by simp [ht]) (by simp [ht'])

section Step

variable {p : RetryParams} {w w' : World} {i j : Nat}

/-- A call that neither starts a thread before nor after its step leaves the flag and the
threads to others. -/
theorem Guarded.quiet {x : Option Call} (h : Guarded w) (hold : ¬ Starts (w.calls i))
    (hnew : ¬ Starts x) (hcalls : w'.calls = put w.calls i x) (hthreads : w'.threads = w.threads)
    (hflag : w'.retryRunning = w.retryRunning)
    (hserved : w'.queue.RQhead ≠ NULL → (∃ j, w'.InLoop j) ∨ ∃ i, w'.calls i ≠ none) :
    Guarded w' := by
  have hstarts : ∀ {k}, Starts (w'.calls k) → Starts (w.calls k) ∧ w'.calls k = w.calls k := by
    intro k hk
    rw [hcalls] at hk ⊢
    by_cases hki : k = i
    · rw [hki, put_self] at hk
      exact absurd hk hnew
    · rw [put_of_ne hki] at hk ⊢
      exact ⟨hk, rfl⟩
  have hcreate : (∃ k, w'.calls k = some .create) ↔ ∃ k, w.calls k = some .create := by
    constructor
    · rintro ⟨k, hk⟩
      exact ⟨k, by rw [← (hstarts (Or.inr hk)).2]; exact hk⟩
    · rintro ⟨k, hk⟩
      have hki : k ≠ i := fun he => hold (he ▸ Or.inr hk)
      exact ⟨k, by rw [hcalls, put_of_ne hki]; exact hk⟩
  refine ⟨?_, ?_, ?_, ?_, hserved⟩
  · rw [hflag, hcreate, hthreads]
    exact h.flag
  · exact fun k l hk hl => h.calls k l (hstarts hk).1 (hstarts hl).1
  · rw [hthreads]
    exact h.threads
  · intro k hk
    rw [hthreads]
    exact h.apart k (hstarts hk).1

/-- What is queued keeps its call when another step puts a call into a slot. -/
theorem served_of_call {x : Call} (hcalls : w'.calls = put w.calls i (some x)) :
    (∃ j, w'.InLoop j) ∨ ∃ i, w'.calls i ≠ none :=
  Or.inr ⟨i, by rw [hcalls, put_self]; exact Option.some_ne_none x⟩

theorem Guarded.check {k : Nat} (h : Guarded w) (hi : w.calls i = some .check)
    (hmeets : MeetsAct w (.call i k)) (hstep : callStep w i j .check = some w') : Guarded w' := by
  have hold : ¬ Starts (w.calls i) := by
    rw [hi]
    rintro (he | he) <;> cases he
  obtain ⟨hset, hleaving⟩ := hmeets hi
  cases hrun : w.retryRunning with
  | true =>
    -- the call is done; whoever has the flag is to look after the queue
    rw [callStep, hrun, if_pos rfl, Option.some.injEq] at hstep
    subst hstep
    refine h.quiet hold (by rintro (he | he) <;> cases he) rfl rfl hrun.symm fun hqueue => ?_
    rcases h.flag.mp hrun with ⟨l, hl⟩ | ⟨l, hl⟩
    · have hli : l ≠ i := by
        rintro rfl
        rw [hi] at hl
        cases hl
      refine Or.inr ⟨l, ?_⟩
      dsimp only
      rw [put_of_ne hli, hl]
      exact Option.some_ne_none _
    · obtain ⟨t, ht⟩ := Option.ne_none_iff_exists'.mp hl
      cases hloop : t.inLoop with
      | true => exact Or.inl ⟨l, t, ht, hloop⟩
      | false =>
        have : t = .leaving := by
          cases t with
          | leaving => rfl
          | starting | asleep => cases hloop
        rcases hleaving ⟨l, this ▸ ht⟩ with hempty | ⟨m, hmi, hm⟩
        · exact absurd hempty hqueue
        · refine Or.inr ⟨m, ?_⟩
          dsimp only
          rw [put_of_ne hmi]
          exact hm
  | false =>
    -- nobody has the flag, and nobody else is about to take it
    rw [callStep, hrun, if_neg Bool.false_ne_true, Option.some.injEq] at hstep
    subst hstep
    have hnone : ∀ k, ¬ Starts (w.calls k) := by
      rintro k (hk | hk)
      · exact hset k hk
      · have := h.flag.mpr (Or.inl ⟨k, hk⟩)
        rw [hrun] at this
        cases this
    have hthreads : ∀ j, w.threads j = none := by
      intro l
      apply Classical.byContradiction
      intro hl
      have := h.flag.mpr (Or.inr ⟨l, hl⟩)
      rw [hrun] at this
      cases this
    have honly : ∀ {k}, Starts (put w.calls i (some .set) k) → k = i :=
      put_only fun k hk => absurd hk (hnone k)
    refine ⟨?_, ?_, h.threads, fun _ _ => hthreads, fun _ => served_of_call rfl⟩
    · refine iff_of_false Bool.false_ne_true ?_
      rintro (⟨k, hk⟩ | ⟨l, hl⟩)
      · have hki := honly (Or.inr hk)
        rw [hki] at hk
        dsimp only at hk
        rw [put_self] at hk
        cases hk
      · exact hl (hthreads l)
    · exact fun k l hk hl => (honly hk).trans (honly hl).symm

theorem Guarded.set (h : Guarded w) (hi : w.calls i = some .set)
    (hstep : callStep w i j .set = some w') : Guarded w' := by
  rw [callStep, Option.some.injEq] at hstep
  subst hstep
  have hthreads := h.apart i (Or.inl hi)
  have hstarts : ∀ {k}, Starts (put w.calls i (some .create) k) → k = i :=
    put_only fun k hk => h.calls k i hk (Or.inl hi)
  refine ⟨?_, ?_, h.threads, fun _ _ => hthreads, fun _ => served_of_call rfl⟩
  · exact iff_of_true rfl (Or.inl ⟨i, put_self ..⟩)
  · exact fun k l hk hl => (hstarts hk).trans (hstarts hl).symm

theorem Guarded.create (h : Guarded w) (hi : w.calls i = some .create)
    (hstep : callStep w i j .create = some w') : Guarded w' := by
  rw [callStep] at hstep
  split at hstep
  · cases hstep
    have hthreads := h.apart i (Or.inr hi)
    have hnone : ∀ {k}, ¬ Starts (put w.calls i none k) := by
      intro k hk
      have hki : k = i := put_only (fun k hk => h.calls k i hk (Or.inr hi)) hk
      rw [hki, put_self] at hk
      rcases hk with hk | hk <;> cases hk
    have honly : ∀ {k}, put w.threads j (some .starting) k ≠ none → k = j :=
      put_only (P := (· ≠ none)) fun k hk => absurd (hthreads k) hk
    refine ⟨?_, ?_, ?_, ?_, ?_⟩
    · refine iff_of_true (h.flag.mpr (Or.inl ⟨i, hi⟩)) (Or.inr ⟨j, ?_⟩)
      dsimp only
      rw [put_self]
      exact Option.some_ne_none _
    · exact fun k l hk => absurd hk hnone
    · exact fun k l hk hl => (honly hk).trans (honly hl).symm
    · exact fun k hk => absurd hk hnone
    · exact fun _ => Or.inl ⟨j, .starting, put_self .., rfl⟩
  · cases hstep

theorem Guarded.callStep {c : Call} {k : Nat} (h : Guarded w) (hi : w.calls i = some c)
    (hmeets : MeetsAct w (.call i k)) (hstep : callStep w i j c = some w') : Guarded w' := by
  cases c with
  | enqueue x rest repo =>
    have hold : ¬ Starts (w.calls i) := by
      rw [hi]
      rintro (he | he) <;> cases he
    cases rest with
    | nil =>
      cases hstep
      exact h.quiet hold (by rintro (he | he) <;> cases he) rfl rfl rfl fun _ => served_of_call rfl
    | cons y ys =>
      cases hstep
      exact h.quiet hold (by rintro (he | he) <;> cases he) rfl rfl rfl fun _ => served_of_call rfl
  | check => exact h.check hi hmeets hstep
  | set => exact h.set hi hstep
  | create => exact h.create hi hstep

/-- A section ends with the thread asleep in its loop, or out of it with nothing
queued. -/
theorem runSection_spec {inps : List PassInput} {q : Queue} {cur : Ptr} {r : Queue × Thread}
    (h : runSection p q cur inps = some r) : r.2.inLoop = true ∨ r.1.RQhead = NULL := by
  induction inps generalizing q cur with
  | nil =>
    rw [runSection] at h
    split at h
    · next hempty =>
      cases h
      exact Or.inr hempty
    · cases h
  | cons inp inps ih =>
    rw [runSection] at h
    split at h
    · next hempty =>
      cases h
      exact Or.inr hempty
    · split at h
      · exact ih h
      · split at h
        · cases h
          exact Or.inl rfl
        · split at h
          · exact ih h
          · cases h

/-- A section of a thread that is in its loop. -/
theorem Guarded.section {t : Thread} {r : Queue × Thread} (h : Guarded w)
    (hj : w.threads j = some t) (hr : r.2.inLoop = true ∨ r.1.RQhead = NULL)
    (hw' : w' = { w with queue := r.1, threads := put w.threads j (some r.2) }) : Guarded w' := by
  subst hw'
  have hown : w.threads j ≠ none := by simp [hj]
  have honly : ∀ {k}, put w.threads j (some r.2) k ≠ none → k = j :=
    put_only (P := (· ≠ none)) fun k hk => h.threads k j hk hown
  refine ⟨?_, h.calls, ?_, ?_, ?_⟩
  · refine iff_of_true (h.flag.mpr (Or.inr ⟨j, hown⟩)) (Or.inr ⟨j, ?_⟩)
    dsimp only
    rw [put_self]
    exact Option.some_ne_none _
  · exact fun k l hk hl => (honly hk).trans (honly hl).symm
  · exact fun k hk => absurd (h.apart k hk j) hown
  · intro hqueue
    rcases hr with hloop | hempty
    · exact Or.inl ⟨j, r.2, put_self .., hloop⟩
    · exact absurd hempty hqueue

theorem Guarded.threadStep {t : Thread} {inps : List PassInput} (h : Guarded w)
    (hj : w.threads j = some t) (hstep : threadStep p w j inps t = some w') : Guarded w' := by
  have hown : w.threads j ≠ none := by simp [hj]
  cases t with
  | starting =>
    rw [IndCIMXMLHandler.threadStep, Option.map_eq_some_iff] at hstep
    obtain ⟨r, hr, rfl⟩ := hstep
    exact h.section hj (runSection_spec hr) rfl
  | asleep cur inp =>
    rw [IndCIMXMLHandler.threadStep, Option.bind_eq_some_iff] at hstep
    obtain ⟨done, -, hstep⟩ := hstep
    rw [Option.map_eq_some_iff] at hstep
    obtain ⟨r, hr, rfl⟩ := hstep
    exact h.section hj (runSection_spec hr) rfl
  | leaving =>
    rw [IndCIMXMLHandler.threadStep, Option.some.injEq] at hstep
    subst hstep
    -- this was the only one with the flag
    have hnone : ∀ k, put w.threads j none k = none := by
      intro k
      apply Classical.byContradiction
      intro hk
      have hkj : k = j := put_only (P := (· ≠ none)) (fun k hk => h.threads k j hk hown) hk
      rw [hkj, put_self] at hk
      exact hk rfl
    have hcalls : ∀ k, ¬ Starts (w.calls k) := fun k hk => hown (h.apart k hk j)
    refine ⟨?_, h.calls, ?_, fun k hk => absurd hk (hcalls k), ?_⟩
    · refine iff_of_false Bool.false_ne_true ?_
      rintro (⟨k, hk⟩ | ⟨k, hk⟩)
      · exact hcalls k (Or.inr hk)
      · exact hk (hnone k)
    · exact fun k _ hk => absurd (hnone k) hk
    · intro hqueue
      rcases h.served hqueue with ⟨k, t, ht, hloop⟩ | hcall
      · have hkj := h.threads k j (by simp [ht]) hown
        rw [hkj, hj] at ht
        cases ht
        cases hloop
      · exact Or.inr hcall

/-- One step under the condition keeps the invariant. -/
theorem Guarded.step {a : Act} (h : Guarded w) (hmeets : MeetsAct w a)
    (hstep : step p w a = some w') : Guarded w' := by
  have hidle : ∀ {i}, w.calls i = none → ¬ Starts (w.calls i) := by
    intro i hi
    rw [hi]
    rintro (he | he) <;> cases he
  -- a call begins in a free slot, so it is not one that starts a thread
  have hbegin : ∀ {i x rest repo}, w.calls i = none →
      Guarded { w with calls := put w.calls i (some (.enqueue x rest repo)) } := by
    intro i x rest repo hi
    exact h.quiet (hidle hi) (by rintro (he | he) <;> cases he) rfl rfl rfl
      fun _ => served_of_call rfl
  cases a with
  | deliverFails i x =>
    rw [IndCIMXMLHandler.step] at hstep
    split at hstep
    · next hi =>
      cases hstep
      exact hbegin hi
    · cases hstep
  | refillRetryQ i es =>
    cases es with
    | nil =>
      simp only [IndCIMXMLHandler.step] at hstep
      split at hstep
      · cases hstep
        exact h
      · cases hstep
    | cons x rest =>
      simp only [IndCIMXMLHandler.step] at hstep
      split at hstep
      · next hi =>
        split at hstep
        · cases hstep
          exact hbegin hi
        · cases hstep
          exact h
      · cases hstep
  | call i j =>
    rw [IndCIMXMLHandler.step, Option.bind_eq_some_iff] at hstep
    obtain ⟨c, hc, hstep⟩ := hstep
    exact h.callStep hc hmeets hstep
  | thread j inps =>
    rw [IndCIMXMLHandler.step, Option.bind_eq_some_iff] at hstep
    obtain ⟨t, ht, hstep⟩ := hstep
    exact h.threadStep ht hstep

end Step

/-- In every run from an idle process whose steps meet the condition, the retry thread is
there when it is needed, and there is never more than one. -/
theorem runActs_present {p : RetryParams} {w w' : World} {acts : List Act} (hidle : w.Idle)
    (hrun : runActs p w acts = some w') (hmeets : AllMeetAct p w acts) : Present w' := by
  -- the induction is on the steps, from any world with the invariant
  have hinv : ∀ {w : World}, Guarded w → runActs p w acts = some w' → AllMeetAct p w acts →
      Guarded w' := by
    clear hrun hmeets hidle
    induction acts with
    | nil =>
      intro w h hrun _
      cases hrun
      exact h
    | cons a acts ih =>
      intro w h hrun hmeets
      rw [runActs, Option.bind_eq_some_iff] at hrun
      obtain ⟨w₁, hstep, hrun⟩ := hrun
      exact ih (h.step hmeets.1 hstep) hrun (hmeets.2 w₁ hstep)
  exact (hinv hidle.guarded hrun hmeets).present

/-- A process that has just started. -/
def idleWorld : World :=
  ⟨⟨fun _ => sampleElement, [], NULL, NULL⟩, false, fun _ => none, fun _ => none⟩

theorem idleWorld_idle : idleWorld.Idle := ⟨rfl, rfl, fun _ => rfl, fun _ => rfl⟩

/-- A delivery fails, and its call starts the thread. -/
def startActs : List Act :=
  [.deliverFails 0 (1, sampleElement), .call 0 0, .call 0 0, .call 0 0, .call 0 0]

theorem startActs_present :
    ∃ w, runActs sampleParams idleWorld startActs = some w ∧ w.queue.RQhead ≠ NULL ∧
      (∀ i, w.calls i = none) ∧ Present w := by
  have hmeets : AllMeetAct sampleParams idleWorld startActs := by
    refine ⟨trivial, ?_⟩
    rintro w ⟨⟩
    refine ⟨by rintro ⟨⟩, ?_⟩
    rintro w ⟨⟩
    refine ⟨fun _ => ⟨fun k => ?_, ?_⟩, ?_⟩
    · by_cases hk : k = 0 <;> simp [idleWorld, put, hk]
    · rintro ⟨j, ⟨⟩⟩
    rintro w ⟨⟩
    refine ⟨by rintro ⟨⟩, ?_⟩
    rintro w ⟨⟩
    exact ⟨by rintro ⟨⟩, fun _ _ => trivial⟩
  refine ⟨_, rfl, by decide, fun i => ?_, runActs_present idleWorld_idle rfl hmeets⟩
  by_cases hi : i = 0 <;> simp [idleWorld, put, hi]

/-- The thread delivers what is queued and leaves its loop. Before it resets the flag
another delivery fails: its call queues the element, reads the flag as set, and is
done. -/
def overtakenActs : List Act :=
  startActs ++ [.thread 0 [deliveredInput], .deliverFails 1 (2, sampleElement), .call 1 0,
    .call 1 0, .thread 0 []]

/-- The second element stays queued, with no thread for it. -/
theorem overtakenActs_not_present :
    ∃ w, runActs sampleParams idleWorld overtakenActs = some w ∧
      (∀ i, w.calls i = none) ∧ w.queue.RQhead = 2 ∧ (∀ j, w.threads j = none) ∧
      ¬ Present w := by
  have hthreads : ∀ j, put (put (put idleWorld.threads 0 (some .starting)) 0
      (some .leaving)) 0 none j = none := by
    intro j
    by_cases hj : j = 0 <;> simp [idleWorld, put, hj]
  have hcalls : ∀ i, put (put (put (put (put (put (put (put idleWorld.calls 0
      (some (.enqueue (1, sampleElement) [] true))) 0 (some .check)) 0 (some .set)) 0
      (some .create)) 0 none) 1 (some (.enqueue (2, sampleElement) [] true))) 1 (some .check)) 1
      none i = none := by
    intro i
    by_cases hi : i = 0 <;> by_cases hi' : i = 1 <;> simp [idleWorld, put, hi, hi']
  refine ⟨_, rfl, hcalls, by decide, hthreads, fun h => ?_⟩
  obtain ⟨j, t, ht, -⟩ := h.some hcalls (by decide)
  have hnone := hthreads j
  exact Option.some_ne_none t (ht.symm.trans hnone)

end Sfcb.IndCIMXMLHandler
