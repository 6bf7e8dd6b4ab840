import Sfcb.Cmpi.Status
import Sfcb.IndCIMXMLHandler.RetryQueue

/-!
# The retry loop

`retryExport` walks around the retry queue, tries to deliver the indication of the
element it stands at, and removes the elements that are done with
(`indCIMXMLHandler.c`). One turn of its loop is a pass; a pass falls into what happens
before the delivery, where the thread may release the lock and sleep, and the delivery
with what follows from it.

`retryExport_passes` is about every queue and every sequence of passes: which
subscriptions a pass touches, why an element leaves the queue, and how often an element
is tried.

Mirroring notes:
- What the repository, the clock and the delivery answer in a pass is data (`PassInput`).
- A subscription that cannot be read for another reason than that it is gone, and a
  stored element that is not there, are null pointers; the pass that reads through one
  has the outcome `none`.
- `time_t` and `int` are unbounded; the sum with `sfc` is one of 64 unsigned bits, as
  in the source.
-/

namespace Sfcb.IndCIMXMLHandler

open Sfcb.Lib Sfcb.Cmpi

/-- The parameters read from the `CIM_IndicationService` instance. -/
structure RetryParams where
  maxcount : Int
  rint : Int
  rtint : Int
  ract : Int
  deriving DecidableEq, Repr

/-- The assignments of the four properties to `int` variables. -/
def RetryParams.read (deliveryRetryAttempts : UInt16) (deliveryRetryInterval : UInt32)
    (subscriptionRemovalTimeInterval : UInt32) (subscriptionRemovalAction : UInt16) :
    RetryParams :=
  ⟨deliveryRetryAttempts.toNat, deliveryRetryInterval.toInt32.toInt,
    subscriptionRemovalTimeInterval.toInt32.toInt, subscriptionRemovalAction.toNat⟩

/-- What `internalProviderGetInstance` finds under the path of the subscription. -/
inductive SubLookup where
  | found (deliveryFailureTime : UInt64) (subscriptionState : UInt16)
  | notFound
  | failed
  deriving DecidableEq, Repr

/-- What a pass is answered. -/
structure PassInput where
  /-- the status of reading the stored indication -/
  indRc : CMPIrc
  sub : SubLookup
  /-- the clock before the delivery -/
  now : Int
  /-- the status of `deliverInd` -/
  deliverRc : CMPIrc
  /-- the clock after a failed delivery -/
  failedAt : Int
  /-- the stored element, if it can be read -/
  indele : Option Inst
  deriving DecidableEq, Repr

/-- What a pass leaves: the queue, where the thread stands, and the repository calls. -/
structure Pass where
  queue : Queue
  cur : Ptr
  upcalls : List Upcall

/-- `purge=cur; cur=cur->next; dqRetry(ctx,purge);` after the repository calls `before`. -/
def purge (q : Queue) (cur : Ptr) (before : List Upcall) : Pass :=
  ⟨(dqRetry q cur).queue, (q.mem cur).next, before ++ (dqRetry q cur).upcalls⟩

/-- The first part of a pass, up to the delivery: the element is purged, or there is
something to deliver. -/
def passFront (q : Queue) (cur : Ptr) (inp : PassInput) : Option Pass :=
  if inp.indRc ≠ .OK then some (purge q cur [])
  else if inp.sub = .notFound then some (purge q cur [])
  else none

/-- The thread releases the lock and sleeps before it delivers. -/
def sleepsBefore (p : RetryParams) (q : Queue) (cur : Ptr) (inp : PassInput) : Bool :=
  (q.mem cur).lasttry + p.rint > inp.now

/-- `cur->count++`, and the time of this try. -/
def countTry (q : Queue) (cur : Ptr) (failedAt : Int) : Queue :=
  { q with mem := fun x => if x = cur then
      { q.mem x with count := (q.mem x).count + 1, lasttry := failedAt } else q.mem x }

/-- Sets `LastDelivery` and `RetryCount` of a stored element. -/
def Inst.setTry (i : Inst) (count lasttry : Int) : Inst :=
  match i with
  | .element id _ _ ld ind sub => .element id count lasttry ld ind sub
  | i => i

/-- The threshold test `sfc+rtint < tv.tv_sec`. -/
def exceeded (p : RetryParams) (sfc : UInt64) (failedAt : Int) : Bool :=
  sfc + UInt64.ofInt p.rtint < UInt64.ofInt failedAt

/-- A delivery failed and may be tried again. -/
def passFailed (p : RetryParams) (q : Queue) (cur : Ptr) (inp : PassInput) : Option Pass :=
  match inp.indele, inp.sub with
  | some indele, .found sfc state =>
    let q := countTry q cur inp.failedAt
    let e := q.mem cur
    let counted := Upcall.modifyInstance (.element e.sfcbIndEle) (indele.setTry e.count e.lasttry)
    if sfc = 0 then
      -- `cur` is moved on before its `sub` is read
      some ⟨q, e.next, [counted, .modifyInstance (.subscription (q.mem e.next).sub)
        (.subscription (UInt64.ofInt inp.failedAt) state)]⟩
    else if exceeded p sfc inp.failedAt then
      if p.ract = 2 then
        some (purge q cur [counted, .deleteInstance (.subscription e.sub)])
      else if p.ract = 3 then
        some (purge q cur [counted, .modifyInstance (.subscription e.sub) (.subscription sfc 4)])
      else some ⟨q, cur, [counted]⟩
    else some ⟨q, e.next, [counted]⟩
  | _, _ => none

/-- The second part of a pass: the delivery. -/
def passBack (p : RetryParams) (q : Queue) (cur : Ptr) (inp : PassInput) : Option Pass :=
  if inp.deliverRc = .OK then
    match inp.sub with
    | .found _ state =>
      some (purge q cur
        [.modifyInstance (.subscription (q.mem cur).sub) (.subscription 0 state)])
    | _ => none
  else if (q.mem cur).count ≥ p.maxcount - 1 then some (purge q cur [])
  else passFailed p q cur inp

/-- A pass of the loop. -/
def retryPass (p : RetryParams) (q : Queue) (cur : Ptr) (inp : PassInput) : Option Pass :=
  match passFront q cur inp with
  | some done => some done
  | none => passBack p q cur inp

/-- A pass that gets as far as the delivery. -/
def PassInput.tries (inp : PassInput) : Bool :=
  inp.indRc == .OK && inp.sub != .notFound

/-- A pass that was made: where the thread stood, what it was answered and what the pass
left. -/
structure Record where
  before : Queue
  cur : Ptr
  inp : PassInput
  after : Pass

/-- The loop `while (RQhead != NULL)` from `cur`, over the answers the passes get: the
passes that are made. -/
def retryLoop (p : RetryParams) : Queue → Ptr → List PassInput → List Record
  | _, _, [] => []
  | q, cur, inp :: inps =>
    if q.RQhead = NULL then []
    else
      match retryPass p q cur inp with
      | none => []
      | some done => ⟨q, cur, inp, done⟩ :: retryLoop p done.queue done.cur inps

/-- `retryExport`: the loop starts at `RQhead`. -/
def retryExport (p : RetryParams) (q : Queue) (inps : List PassInput) : List Record :=
  retryLoop p q q.RQhead inps

/-! ## What a pass does -/

section Pass

variable {p : RetryParams} {q : Queue} {cur : Ptr} {inp : PassInput} {done : Pass}

/-- The update of the stored element after a failed try. -/
def counted (q : Queue) (cur : Ptr) (inp : PassInput) (indele : Inst) : Upcall :=
  .modifyInstance (.element (q.mem cur).sfcbIndEle)
    (indele.setTry ((q.mem cur).count + 1) inp.failedAt)

/-- The ways a pass can go. -/
inductive PassCase (p : RetryParams) (q : Queue) (cur : Ptr) (inp : PassInput) : Pass → Prop where
  /-- the stored indication cannot be read -/
  | unreadable (h : inp.indRc ≠ .OK) : PassCase p q cur inp (purge q cur [])
  /-- the subscription is gone -/
  | gone (h : inp.sub = .notFound) : PassCase p q cur inp (purge q cur [])
  | delivered {sfc : UInt64} {state : UInt16} (ht : inp.tries = true)
      (hrc : inp.deliverRc = .OK) (hsub : inp.sub = .found sfc state) :
      PassCase p q cur inp (purge q cur
        [.modifyInstance (.subscription (q.mem cur).sub) (.subscription 0 state)])
  /-- it was the last try -/
  | lastTry (ht : inp.tries = true) (hcount : (q.mem cur).count ≥ p.maxcount - 1) :
      PassCase p q cur inp (purge q cur [])
  /-- the first failure of the subscription -/
  | firstFailure {state : UInt16} {indele : Inst} (ht : inp.tries = true)
      (hcount : (q.mem cur).count < p.maxcount - 1) (hsub : inp.sub = .found 0 state) :
      PassCase p q cur inp ⟨countTry q cur inp.failedAt, (q.mem cur).next,
        [counted q cur inp indele, .modifyInstance
          (.subscription ((countTry q cur inp.failedAt).mem (q.mem cur).next).sub)
          (.subscription (UInt64.ofInt inp.failedAt) state)]⟩
  /-- the removal threshold is reached, and the subscription is deleted -/
  | removed {indele : Inst} (ht : inp.tries = true)
      (hcount : (q.mem cur).count < p.maxcount - 1) :
      PassCase p q cur inp (purge (countTry q cur inp.failedAt) cur
        [counted q cur inp indele, .deleteInstance (.subscription (q.mem cur).sub)])
  /-- the removal threshold is reached, and the subscription is disabled -/
  | disabled {sfc : UInt64} {indele : Inst} (ht : inp.tries = true)
      (hcount : (q.mem cur).count < p.maxcount - 1) :
      PassCase p q cur inp (purge (countTry q cur inp.failedAt) cur
        [counted q cur inp indele,
          .modifyInstance (.subscription (q.mem cur).sub) (.subscription sfc 4)])
  /-- it stays, and the thread stays with it or goes on -/
  | kept {indele : Inst} {cur' : Ptr} (ht : inp.tries = true)
      (hcount : (q.mem cur).count < p.maxcount - 1) (hcur : cur' = cur ∨ cur' = (q.mem cur).next) :
      PassCase p q cur inp ⟨countTry q cur inp.failedAt, cur', [counted q cur inp indele]⟩

theorem countTry_mem_self (q : Queue) (cur : Ptr) (failedAt : Int) :
    (countTry q cur failedAt).mem cur =
      { q.mem cur with count := (q.mem cur).count + 1, lasttry := failedAt } := by
  simp [countTry]

theorem passFailed_case (ht : inp.tries = true) (hcount : (q.mem cur).count < p.maxcount - 1)
    (h : passFailed p q cur inp = some done) : PassCase p q cur inp done := by
  unfold passFailed at h
  split at h
  · next indele sfc state _ hsub =>
    simp only [countTry_mem_self] at h
    split at h
    · next hzero =>
      cases h
      exact .firstFailure ht hcount (hzero ▸ hsub)
    · split at h
      · split at h
        · cases h
          exact .removed ht hcount
        · split at h
          · cases h
            exact .disabled ht hcount
          · cases h
            exact .kept ht hcount (Or.inl rfl)
      · cases h
        exact .kept ht hcount (Or.inr rfl)
  · cases h

/-- Every pass goes one of these ways. -/
theorem retryPass_case (h : retryPass p q cur inp = some done) : PassCase p q cur inp done := by
  unfold retryPass passFront at h
  by_cases hind : inp.indRc = .OK
  · by_cases hsub : inp.sub = .notFound
    · simp only [hind, ne_eq, not_true_eq_false, hsub, if_false, if_true, Option.some.injEq] at h
      rw [← h]
      exact .gone hsub
    · have ht : inp.tries = true := by simp [PassInput.tries, hind, hsub]
      simp only [hind, ne_eq, not_true_eq_false, hsub, if_false] at h
      unfold passBack at h
      split at h
      · next hrc =>
        split at h
        · next hfound =>
          cases h
          exact .delivered ht hrc hfound
        · cases h
      · split at h
        · next hcount =>
          cases h
          exact .lastTry ht hcount
        · next hcount => exact passFailed_case ht (Int.not_le.mp hcount) h
  · simp only [ne_eq, hind, not_false_eq_true, if_true, Option.some.injEq] at h
    rw [← h]
    exact .unreadable hind

end Pass

/-! ## The queue along the loop -/

/-- The element `a` is on the queue, seen from where the thread stands. -/
def QueuedFrom (q : Queue) (cur a : Ptr) : Prop := q.RQhead ≠ NULL ∧ Reaches q.next cur a

/-- The invariant of the loop: the queue is empty, or the thread stands in the ring of
what is queued. -/
def RingAt (q : Queue) (cur : Ptr) (queued : List Ptr) : Prop :=
  (q.RQhead = NULL ∧ queued = []) ∨
    (q.RQhead ≠ NULL ∧ ∃ l, Ring q.next q.prev cur l ∧ (cur :: l).Perm queued)

section Loop

variable {p : RetryParams} {q : Queue} {cur a : Ptr} {queued : List Ptr} {inp : PassInput}
  {done : Pass}

theorem RingAt.queuedFrom_iff (h : RingAt q cur queued) : QueuedFrom q cur a ↔ a ∈ queued := by
  rcases h with ⟨hhead, hnil⟩ | ⟨hhead, l, hring, hperm⟩
  · rw [hnil]
    exact iff_of_false (fun h => h.1 hhead) List.not_mem_nil
  · rw [QueuedFrom, hring.reaches_iff, hperm.mem_iff]
    exact and_iff_right hhead

theorem RingAt.cur_mem (h : RingAt q cur queued) (hhead : q.RQhead ≠ NULL) : cur ∈ queued := by
  rcases h with ⟨hnull, -⟩ | ⟨-, l, -, hperm⟩
  · exact absurd hnull hhead
  · exact hperm.mem_iff.mp List.mem_cons_self

theorem RingAt.nodup (h : RingAt q cur queued) : queued.Nodup := by
  rcases h with ⟨-, rfl⟩ | ⟨-, l, hring, hperm⟩
  · exact List.nodup_nil
  · exact hperm.nodup_iff.mp hring.nodup

/-- The thread may go on to the next element. -/
theorem RingAt.next (h : RingAt q cur queued) : RingAt q (q.next cur) queued := by
  rcases h with hempty | ⟨hhead, l, hring, hperm⟩
  · exact Or.inl hempty
  · have hmem : q.next cur ∈ cur :: l :=
      hring.reaches_iff.mp Reaches.here.step
    obtain ⟨m, hring', hperm'⟩ := hring.enter hmem
    exact Or.inr ⟨hhead, m, hring', hperm'.trans hperm⟩

/-- The element the thread stands at is taken out, and the thread stands at the next. -/
theorem RingAt.purge (h : RingAt q cur queued) (hhead : q.RQhead ≠ NULL) (before : List Upcall) :
    RingAt (purge q cur before).queue (purge q cur before).cur (queued.erase cur) := by
  rcases h with ⟨hnull, -⟩ | ⟨-, l, hring, hperm⟩
  · exact absurd hnull hhead
  · have herase := hperm.erase cur
    rw [List.erase_cons_head] at herase
    cases l with
    | nil => exact Or.inl ⟨unlink_only hring.stretch.1, List.nil_perm.mp herase⟩
    | cons d m =>
      obtain ⟨hring', hhead', -⟩ := unlink_ring hring
      have hd : (q.mem cur).next = d := hring.stretch.1.1
      refine Or.inr ⟨?_, m, ?_, ?_⟩
      · exact fun hnull => hhead (hhead' ▸ hnull)
      · rw [IndCIMXMLHandler.purge, hd]
        exact hring'
      · rw [IndCIMXMLHandler.purge, hd]
        exact herase

/-- Counting a try moves no pointer. -/
theorem RingAt.countTry (h : RingAt q cur queued) (failedAt : Int) :
    RingAt (countTry q cur failedAt) cur queued := by
  have hnext : (IndCIMXMLHandler.countTry q cur failedAt).next = q.next := by
    funext x
    by_cases hx : x = cur <;> simp [IndCIMXMLHandler.countTry, Queue.next, hx]
  have hprev : (IndCIMXMLHandler.countTry q cur failedAt).prev = q.prev := by
    funext x
    by_cases hx : x = cur <;> simp [IndCIMXMLHandler.countTry, Queue.prev, hx]
  unfold RingAt
  rw [hnext, hprev]
  exact h

theorem countTry_next (q : Queue) (cur : Ptr) (failedAt : Int) :
    (countTry q cur failedAt).next cur = (q.mem cur).next := by
  simp [countTry, Queue.next]

/-- The subscription a repository call is about. -/
def Upcall.onSubscription : Upcall → Option CStr
  | .modifyInstance (.subscription sub) _ => some sub
  | .deleteInstance (.subscription sub) => some sub
  | _ => none

/-- The pass records the first failure of the subscription while other elements are
queued. -/
def stampsNeighbour (p : RetryParams) (q : Queue) (cur : Ptr) (inp : PassInput) : Prop :=
  (q.mem cur).count < p.maxcount - 1 ∧ (∃ state, inp.sub = .found 0 state) ∧
    (q.mem cur).next ≠ cur

/-- A pass touches the subscription of the element it tried to deliver and no other. -/
def TouchesOwn (q : Queue) (cur : Ptr) (inp : PassInput) (done : Pass) : Prop :=
  ∀ u ∈ done.upcalls, ∀ sub, u.onSubscription = some sub →
    inp.tries = true ∧ sub = (q.mem cur).sub

/-- Why a pass takes the element off the queue: its indication cannot be read, its
subscription is gone, or it was tried and that succeeded, was its last try, or ended with
the subscription deleted or disabled. -/
def LeaveReason (p : RetryParams) (q : Queue) (cur : Ptr) (inp : PassInput) (done : Pass) : Prop :=
  inp.indRc ≠ .OK ∨ inp.sub = .notFound ∨
    (inp.tries = true ∧ (inp.deliverRc = .OK ∨ (q.mem cur).count + 1 ≥ p.maxcount ∨
      .deleteInstance (.subscription (q.mem cur).sub) ∈ done.upcalls ∨
      ∃ sfc, .modifyInstance (.subscription (q.mem cur).sub) (.subscription sfc 4) ∈ done.upcalls))

theorem purge_count (before : List Upcall) :
    ((purge q cur before).queue.mem a).count = (q.mem a).count :=
  (congrArg RTElement.count (dqRetry_data q cur a) :)

theorem countTry_count (failedAt : Int) :
    ((countTry q cur failedAt).mem a).count =
      if a = cur then (q.mem a).count + 1 else (q.mem a).count := by
  by_cases h : a = cur <;> simp [countTry, h]

/-- A purge touches no subscription of its own accord. -/
theorem purge_onSubscription {before : List Upcall} {u : Upcall} {sub : CStr}
    (hu : u ∈ (purge q cur before).upcalls) (hsub : u.onSubscription = some sub) : u ∈ before := by
  simp only [purge, dqRetry, List.mem_append, List.mem_cons, List.not_mem_nil, or_false] at hu
  rcases hu with hu | rfl | rfl
  · exact hu
  · simp [Upcall.onSubscription] at hsub
  · simp [Upcall.onSubscription] at hsub

/-- Which subscriptions a pass touches. -/
theorem PassCase.touchesOwn (h : PassCase p q cur inp done)
    (hother : ¬ stampsNeighbour p q cur inp) : TouchesOwn q cur inp done := by
  intro u hu sub hsub
  cases h with
  | unreadable | gone | lastTry =>
    have := purge_onSubscription hu hsub
    cases this
  | delivered ht hrc hfound =>
    have := List.mem_singleton.mp (purge_onSubscription hu hsub)
    subst this
    exact ⟨ht, (Option.some.inj hsub).symm⟩
  | firstFailure ht hcount hfound =>
    -- the element is alone, so the next one is this one
    have halone : (q.mem cur).next = cur :=
      Decidable.byContradiction fun hne => hother ⟨hcount, ⟨_, hfound⟩, hne⟩
    rw [List.mem_cons, List.mem_singleton] at hu
    rcases hu with rfl | rfl
    · cases hsub
    · rw [halone, countTry_mem_self] at hsub
      exact ⟨ht, (Option.some.inj hsub).symm⟩
  | removed ht hcount =>
    have := purge_onSubscription hu hsub
    rw [List.mem_cons, List.mem_singleton] at this
    rcases this with rfl | rfl
    · cases hsub
    · exact ⟨ht, (Option.some.inj hsub).symm⟩
  | disabled ht hcount =>
    have := purge_onSubscription hu hsub
    rw [List.mem_cons, List.mem_singleton] at this
    rcases this with rfl | rfl
    · cases hsub
    · exact ⟨ht, (Option.some.inj hsub).symm⟩
  | kept ht hcount hcur =>
    rw [List.mem_singleton.mp hu] at hsub
    cases hsub

/-- What a pass does to the queue: the element stays, having been tried and counted, or
it leaves for one of the reasons. -/
theorem PassCase.queue (h : PassCase p q cur inp done) (hring : RingAt q cur queued)
    (hhead : q.RQhead ≠ NULL) :
    (RingAt done.queue done.cur queued ∧ inp.tries = true ∧ (q.mem cur).count < p.maxcount - 1 ∧
      ∀ a, (done.queue.mem a).count = if a = cur then (q.mem a).count + 1 else (q.mem a).count) ∨
    (RingAt done.queue done.cur (queued.erase cur) ∧ LeaveReason p q cur inp done ∧
      ∀ a, a ≠ cur → (done.queue.mem a).count = (q.mem a).count) := by
  cases h with
  | unreadable h =>
    exact Or.inr ⟨hring.purge hhead _, Or.inl h, fun a _ => purge_count _⟩
  | gone h =>
    exact Or.inr ⟨hring.purge hhead _, Or.inr (Or.inl h), fun a _ => purge_count _⟩
  | delivered ht hrc hfound =>
    exact Or.inr ⟨hring.purge hhead _, Or.inr (Or.inr ⟨ht, Or.inl hrc⟩), fun a _ => purge_count _⟩
  | lastTry ht hcount =>
    refine Or.inr ⟨hring.purge hhead _, Or.inr (Or.inr ⟨ht, Or.inr (Or.inl ?_)⟩),
      fun a _ => purge_count _⟩
    omega
  | firstFailure ht hcount hfound =>
    refine Or.inl ⟨?_, ht, hcount, fun a => countTry_count _⟩
    have := (hring.countTry inp.failedAt).next
    rwa [countTry_next] at this
  | removed ht hcount =>
    refine Or.inr ⟨(hring.countTry _).purge hhead _,
      Or.inr (Or.inr ⟨ht, Or.inr (Or.inr (Or.inl ?_))⟩), fun a hne => ?_⟩
    · simp [purge]
    · rw [purge_count, countTry_count, if_neg hne]
  | @disabled sfc indele ht hcount =>
    refine Or.inr ⟨(hring.countTry _).purge hhead _,
      Or.inr (Or.inr ⟨ht, Or.inr (Or.inr (Or.inr ⟨sfc, ?_⟩))⟩), fun a hne => ?_⟩
    · exact List.mem_append_left _ (List.mem_cons_of_mem _ List.mem_cons_self)
    · rw [purge_count, countTry_count, if_neg hne]
  | kept ht hcount hcur =>
    refine Or.inl ⟨?_, ht, hcount, fun a => countTry_count _⟩
    rcases hcur with rfl | rfl
    · exact hring.countTry inp.failedAt
    · have := (hring.countTry inp.failedAt).next
      rwa [countTry_next] at this

end Loop

/-! ## The loop -/

/-- How often the passes tried to deliver the element `a`. -/
def triesOf (a : Ptr) (rs : List Record) : Nat := rs.countP fun r => r.cur == a && r.inp.tries

/-- What holds of a pass that was made: it touches only the subscription of the element it
tried, unless it records a first failure while others are queued, and an element that
leaves the queue in it is the one it was about and leaves for a reason. -/
def Record.Proper (p : RetryParams) (r : Record) : Prop :=
  (¬ stampsNeighbour p r.before r.cur r.inp → TouchesOwn r.before r.cur r.inp r.after) ∧
    ∀ a, QueuedFrom r.before r.cur a → ¬ QueuedFrom r.after.queue r.after.cur a →
      a = r.cur ∧ LeaveReason p r.before r.cur r.inp r.after

/-- One turn of the loop. -/
theorem retryLoop_cons {p : RetryParams} {q : Queue} {cur : Ptr} {inp : PassInput}
    {inps : List PassInput} :
    retryLoop p q cur (inp :: inps) = [] ∨
      ∃ done, q.RQhead ≠ NULL ∧ retryPass p q cur inp = some done ∧
        retryLoop p q cur (inp :: inps) =
          ⟨q, cur, inp, done⟩ :: retryLoop p done.queue done.cur inps := by
  rw [retryLoop]
  split
  · exact Or.inl rfl
  · next hhead =>
    cases hpass : retryPass p q cur inp with
    | none => exact Or.inl rfl
    | some done => exact Or.inr ⟨done, hhead, rfl, rfl⟩

/-- Every pass of the loop is proper. -/
theorem retryLoop_proper {p : RetryParams} {inps : List PassInput} {q : Queue} {cur : Ptr}
    {queued : List Ptr} (hring : RingAt q cur queued) :
    ∀ r ∈ retryLoop p q cur inps, r.Proper p := by
  induction inps generalizing q cur queued with
  | nil => exact fun r hr => absurd hr List.not_mem_nil
  | cons inp inps ih =>
    rcases @retryLoop_cons p q cur inp inps with hstop | ⟨done, hhead, hpass, heq⟩
    · rw [hstop]
      exact fun r hr => absurd hr List.not_mem_nil
    · have hcase := retryPass_case hpass
      rw [heq]
      intro r hr
      rcases hcase.queue hring hhead with ⟨hring', -⟩ | ⟨hring', hreason, -⟩
      · rcases List.mem_cons.mp hr with rfl | hr
        · refine ⟨hcase.touchesOwn, fun a hbefore hafter => ?_⟩
          exact absurd (hring'.queuedFrom_iff.mpr (hring.queuedFrom_iff.mp hbefore)) hafter
        · exact ih hring' r hr
      · rcases List.mem_cons.mp hr with rfl | hr
        · refine ⟨hcase.touchesOwn, fun a hbefore hafter => ⟨?_, hreason⟩⟩
          apply Decidable.byContradiction
          intro hne
          refine hafter (hring'.queuedFrom_iff.mpr ?_)
          exact (List.mem_erase_of_ne hne).mpr (hring.queuedFrom_iff.mp hbefore)
        · exact ih hring' r hr

/-- How often an element is tried: not at all if it is not queued, and otherwise as often
as is left of its tries, but once in any case. -/
theorem retryLoop_tries {p : RetryParams} {inps : List PassInput} {q : Queue} {cur : Ptr}
    {queued : List Ptr} (hring : RingAt q cur queued) (a : Ptr) :
    (triesOf a (retryLoop p q cur inps) : Int) ≤
      if a ∈ queued then max 1 (p.maxcount - (q.mem a).count) else 0 := by
  induction inps generalizing q cur queued with
  | nil =>
    simp only [retryLoop, triesOf, List.countP_nil]
    split <;> omega
  | cons inp inps ih =>
    rcases @retryLoop_cons p q cur inp inps with hstop | ⟨done, hhead, hpass, heq⟩
    · rw [hstop, triesOf, List.countP_nil]
      split <;> omega
    · have hmem := hring.cur_mem hhead
      rw [heq, triesOf, List.countP_cons]
      change ((triesOf a (retryLoop p done.queue done.cur inps) + _ : Nat) : Int) ≤ _
      rcases (retryPass_case hpass).queue hring hhead with
        ⟨hring', ht, hcount, hmem'⟩ | ⟨hring', -, hmem'⟩
      · have := ih hring'
        rw [hmem' a] at this
        by_cases ha : a = cur
        · -- one of its tries is used up
          subst ha
          simp only [hmem, if_true, BEq.rfl, ht, Bool.and_self] at this ⊢
          omega
        · have hne : (cur == a) = false := beq_eq_false_iff_ne.mpr (Ne.symm ha)
          simp only [ha, if_false, hne, Bool.false_and, Bool.false_eq_true] at this ⊢
          omega
      · have := ih hring'
        by_cases ha : a = cur
        · -- it is gone after this pass
          subst ha
          have hgone : a ∉ queued.erase a := fun h => (hring.nodup.mem_erase_iff.mp h).1 rfl
          rw [if_neg hgone] at this
          rw [if_pos hmem]
          split <;> omega
        · have hne : (cur == a) = false := beq_eq_false_iff_ne.mpr (Ne.symm ha)
          have hiff : a ∈ queued.erase cur ↔ a ∈ queued := List.mem_erase_of_ne ha
          simp only [hmem' a ha, hiff, hne, Bool.false_and, Bool.false_eq_true, if_false] at this ⊢
          omega

/-- Every run of the retry loop over a queue that `RQhead` leads around: the passes are
proper, and an element is tried as often as is left of `maxcount`, but at least once. -/
theorem retryExport_passes {p : RetryParams} {q : Queue} {l : List Ptr} {inps : List PassInput}
    (hhead : q.RQhead ≠ NULL) (hring : Ring q.next q.prev q.RQhead l) :
    (∀ r ∈ retryExport p q inps, r.Proper p) ∧
      ∀ a, (triesOf a (retryExport p q inps) : Int) ≤ max 1 (p.maxcount - (q.mem a).count) := by
  have hstart : RingAt q q.RQhead (q.RQhead :: l) := Or.inr ⟨hhead, l, hring, List.Perm.refl _⟩
  refine ⟨retryLoop_proper hstart, fun a => ?_⟩
  have := @retryLoop_tries p inps q q.RQhead (q.RQhead :: l) hstart a
  rw [retryExport]
  split at this <;> omega

/-- The queue of the examples: one element, at address 1. -/
def sampleQueue : Queue := link (alloc ⟨fun _ => sampleElement, [], NULL, NULL⟩ 1 sampleElement) 1

/-- Three tries, a minute apart. -/
def sampleParams : RetryParams := .read 3 60 3600 2

/-- A pass whose delivery succeeds. -/
def deliveredInput : PassInput := ⟨.OK, .found 0 2, 100, .OK, 100, none⟩

/-- A pass whose delivery fails, for an element that is to be tried again. -/
def failedInput : PassInput :=
  ⟨.OK, .found 90 2, 100, .ERR_FAILED, 100, some (.element 1 0 0 (lit "ld") ⟨lit "ind", 1⟩ (lit "sub"))⟩

/-- A second element, at address 2. -/
def pairQueue : Queue := link (alloc sampleQueue 2 sampleElement) 2

/-- The second element is delivered, and the first is tried three times. -/
theorem retryExport_passes_sample :
    let passes := retryExport sampleParams pairQueue
      [failedInput, deliveredInput, failedInput, failedInput]
    passes.map (·.cur) = [1, 2, 1, 1] ∧ (∀ r ∈ passes, r.Proper sampleParams) ∧
      triesOf 1 passes = 3 ∧ (triesOf 1 passes : Int) ≤ 3 := by
  have hring : Ring pairQueue.next pairQueue.prev pairQueue.RQhead [2] :=
    Ring.rotate (l := []) (link_ring (l := []) (by decide) (Ring.single (by decide) (by decide)) (by decide)).1
  obtain ⟨hproper, htries⟩ := @retryExport_passes sampleParams pairQueue [2]
    [failedInput, deliveredInput, failedInput, failedInput] (by decide) hring
  exact ⟨by decide, hproper, by decide, htries 1⟩

/-- A pass that cannot read the stored indication. -/
def unreadableInput : PassInput := ⟨.ERR_NOT_FOUND, .found 0 2, 100, .OK, 100, none⟩

/-- The element leaves the queue: it was not tried, and its subscription is there and is
not touched. -/
theorem unreadable_leaves :
    ∃ r, retryExport sampleParams sampleQueue [unreadableInput] = [r] ∧
      QueuedFrom r.before r.cur r.cur ∧ ¬ QueuedFrom r.after.queue r.after.cur r.cur ∧
      r.inp.tries = false ∧ r.inp.sub ≠ .notFound ∧
      r.after.upcalls = [.deleteInstance (.element 1), .deleteInstance (.indication ⟨lit "ind", 1⟩)] := by
  refine ⟨⟨sampleQueue, 1, unreadableInput, purge sampleQueue 1 []⟩, rfl, ⟨by decide, .here⟩,
    fun h => h.1 (by decide), by decide, by decide, by decide⟩

end Sfcb.IndCIMXMLHandler
