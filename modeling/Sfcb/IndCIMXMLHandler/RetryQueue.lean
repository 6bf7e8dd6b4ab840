import Sfcb.Lib.Ring

/-!
# The retry queue

Indications that could not be delivered wait on a queue of `RTElement`s
(`indCIMXMLHandler.c`), a circular doubly linked list with two globals into it:
`RQhead`, which is only ever compared with `NULL` and read when a thread starts, and
`RQtail`, behind which `enqRetry` links the next element. Every element is stored in
the repository as well, as an instance of `SFCB_IndicationElement`.

`dqRetry` does not look at `RQtail`. `runOps_sound_iff` says what follows: the queue
is what it should be along a run exactly when no step removes the element `RQtail`
points at while there are others.

Mirroring notes:
- An element is named by its address, `NULL` is `0`, and a memory maps an address to
  what is stored there. `live` lists the addresses `malloc` handed out and that were
  not freed; what a freed element held is still found by reading it.
- `malloc` may hand out any address that is not live, so an address may come back.
- An object path is given by what tells it from other paths.
- The calls that reach the repository are returned in the order they are made.
- Taking and releasing `RQlock` does not fail.
-/

namespace Sfcb.IndCIMXMLHandler

open Sfcb.Lib

/-- The address of an element. -/
abbrev Ptr := Nat

/-- The null pointer. -/
abbrev NULL : Ptr := 0

/-- The path of a stored indication: the path of the indication with the key
`SFCB_IndicationID` added to it. -/
structure IndPath where
  text : CStr
  indicationID : UInt32
  deriving DecidableEq, Repr

/-- An object path: that of an `SFCB_IndicationElement` by its only key, that of a stored
indication, and that of a subscription or of a listener destination by its text. -/
inductive Path where
  | element (indicationID : UInt32)
  | indication (path : IndPath)
  | subscription (text : CStr)
  | listenerDestination (text : CStr)
  deriving DecidableEq, Repr

/-- An instance, with the properties the handler reads or sets. -/
inductive Inst where
  | element (indicationID : UInt32) (retryCount lastDelivery : Int) (ld : CStr) (ind : IndPath)
      (sub : CStr)
  | indication (content : CStr)
  | subscription (deliveryFailureTime : UInt64) (subscriptionState : UInt16)
  deriving DecidableEq, Repr

/-- A call that changes the repository. -/
inductive Upcall where
  | createInstance (path : Path) (inst : Inst)
  | modifyInstance (path : Path) (inst : Inst)
  | deleteInstance (path : Path)
  deriving DecidableEq, Repr

/-- `RTElement`. -/
structure RTElement where
  /-- the listener destination -/
  ref : CStr
  /-- the subscription -/
  sub : CStr
  /-- the stored indication -/
  ind : IndPath
  /-- the key of the stored element -/
  sfcbIndEle : UInt32
  count : Int
  lasttry : Int
  instanceID : UInt32
  next : Ptr
  prev : Ptr
  deriving DecidableEq, Repr

/-- The memory of the handler and its two globals. -/
structure Queue where
  mem : Ptr → RTElement
  live : List Ptr
  RQhead : Ptr
  RQtail : Ptr

/-- Stores into the field `next`. -/
def setNext (mem : Ptr → RTElement) (a b : Ptr) : Ptr → RTElement :=
  fun x => if x = a then { mem x with next := b } else mem x

/-- Stores into the field `prev`. -/
def setPrev (mem : Ptr → RTElement) (a b : Ptr) : Ptr → RTElement :=
  fun x => if x = a then { mem x with prev := b } else mem x

/-- What a call leaves: the queue, the repository calls it made, and the addresses of
the elements it wrote to. -/
structure Done where
  queue : Queue
  upcalls : List Upcall
  written : List Ptr

/-- The instance `enqRetry` stores for an element. -/
def RTElement.stored (e : RTElement) : Inst :=
  .element e.instanceID e.count e.lasttry e.ref e.ind e.sub

/-- The pointer work of `enqRetry`. -/
def link (q : Queue) (element : Ptr) : Queue :=
  if q.RQhead = NULL then
    { q with
      mem := setPrev (setNext q.mem element element) element element
      RQhead := element
      RQtail := element }
  else
    let mem := setNext q.mem element (q.mem q.RQtail).next
    let mem := setPrev mem (mem element).next element
    let mem := setNext mem q.RQtail element
    let mem := setPrev mem element q.RQtail
    { q with mem := mem, RQtail := element }

/-- The elements `enqRetry` writes to. -/
def linkWrites (q : Queue) (element : Ptr) : List Ptr :=
  if q.RQhead = NULL then [element]
  else [element, (q.mem q.RQtail).next, q.RQtail]

/-- `enqRetry`. With `repo` the element is stored too; `RQtail` is the element then. -/
def enqRetry (q : Queue) (element : Ptr) (repo : Bool) : Done :=
  let q' := link q element
  if repo then
    let e := q'.mem element
    let stored := { e with sfcbIndEle := e.instanceID }
    ⟨{ q' with mem := fun x => if x = element then stored else q'.mem x },
      [.createInstance (.element e.instanceID)
        (.element e.instanceID (q'.mem q'.RQtail).count (q'.mem q'.RQtail).lasttry e.ref e.ind
          e.sub)],
      linkWrites q element⟩
  else ⟨q', [], linkWrites q element⟩

/-- The pointer work of `dqRetry`. -/
def unlink (q : Queue) (cur : Ptr) : Queue :=
  if (q.mem cur).next = cur then { q with live := q.live.erase cur, RQhead := NULL }
  else
    let mem := setNext q.mem (q.mem cur).prev (q.mem cur).next
    let mem := setPrev mem (mem cur).next (mem cur).prev
    { q with mem := mem, live := q.live.erase cur }

/-- `dqRetry`. -/
def dqRetry (q : Queue) (cur : Ptr) : Done :=
  ⟨unlink q cur,
    [.deleteInstance (.element (q.mem cur).instanceID),
      .deleteInstance (.indication (q.mem cur).ind)],
    if (q.mem cur).next = cur then [] else [(q.mem cur).prev, (q.mem cur).next]⟩

/-- `malloc`, and the fields that are set before the element is queued. -/
def alloc (q : Queue) (p : Ptr) (e : RTElement) : Queue :=
  { q with mem := fun x => if x = p then e else q.mem x, live := p :: q.live }

/-! ## The two operations on a ring -/

/-- `next`, as a function on addresses. -/
abbrev Queue.next (q : Queue) (a : Ptr) : Ptr := (q.mem a).next

/-- `prev`, as a function on addresses. -/
abbrev Queue.prev (q : Queue) (a : Ptr) : Ptr := (q.mem a).prev

@[simp] theorem setNext_next (mem : Ptr → RTElement) (a b x : Ptr) :
    (setNext mem a b x).next = if x = a then b else (mem x).next := by
  unfold setNext
  split <;> rfl

@[simp] theorem setNext_prev (mem : Ptr → RTElement) (a b x : Ptr) :
    (setNext mem a b x).prev = (mem x).prev := by
  unfold setNext
  split <;> rfl

@[simp] theorem setPrev_next (mem : Ptr → RTElement) (a b x : Ptr) :
    (setPrev mem a b x).next = (mem x).next := by
  unfold setPrev
  split <;> rfl

@[simp] theorem setPrev_prev (mem : Ptr → RTElement) (a b x : Ptr) :
    (setPrev mem a b x).prev = if x = a then b else (mem x).prev := by
  unfold setPrev
  split <;> rfl

/-- What `enqRetry` does to the pointers does not depend on the repository. -/
theorem enqRetry_pointers (q : Queue) (element : Ptr) (repo : Bool) :
    (enqRetry q element repo).queue.next = (link q element).next ∧
      (enqRetry q element repo).queue.prev = (link q element).prev ∧
      (enqRetry q element repo).queue.live = (link q element).live ∧
      (enqRetry q element repo).queue.RQhead = (link q element).RQhead ∧
      (enqRetry q element repo).queue.RQtail = (link q element).RQtail ∧
      (enqRetry q element repo).written = linkWrites q element := by
  cases repo with
  | false => exact ⟨rfl, rfl, rfl, rfl, rfl, rfl⟩
  | true =>
    refine ⟨?_, ?_, rfl, rfl, rfl, rfl⟩
    · funext x
      by_cases h : x = element <;> simp [enqRetry, Queue.next, h]
    · funext x
      by_cases h : x = element <;> simp [enqRetry, Queue.prev, h]

theorem link_live (q : Queue) (element : Ptr) : (link q element).live = q.live := by
  unfold link
  split <;> rfl

theorem link_RQtail (q : Queue) (element : Ptr) : (link q element).RQtail = element := by
  unfold link
  split <;> rfl

/-- Linking into an empty queue makes a ring of one element. -/
theorem link_empty {q : Queue} {element : Ptr} (hempty : q.RQhead = NULL) :
    Ring (link q element).next (link q element).prev element [] ∧
      (link q element).RQhead = element := by
  unfold link
  rw [if_pos hempty]
  refine ⟨Ring.single ?_ ?_, rfl⟩
  · simp [Queue.next]
  · simp [Queue.prev]

/-- Linking behind `RQtail` keeps the ring. -/
theorem link_ring {q : Queue} {element : Ptr} {l : List Ptr} (hhead : q.RQhead ≠ NULL)
    (hring : Ring q.next q.prev q.RQtail l) (hnew : element ∉ q.RQtail :: l) :
    Ring (link q element).next (link q element).prev element (l ++ [q.RQtail]) ∧
      (link q element).RQhead = q.RQhead := by
  have het : element ≠ q.RQtail := fun h => hnew (h ▸ List.mem_cons_self)
  -- the element is new, so it is not the one behind `RQtail` either
  have hnt : q.next q.RQtail ≠ element := by
    intro h
    have hmem := hring.stretch.next_mem List.mem_cons_self
    rw [h, List.mem_append, List.mem_singleton] at hmem
    rcases hmem with hmem | hmem
    · exact hnew (List.mem_cons_of_mem _ hmem)
    · exact het hmem
  have hnext : ∀ x, (link q element).next x =
      if x = q.RQtail then element else if x = element then q.next q.RQtail else q.next x := by
    intro x
    simp [link, hhead, Queue.next]
  have hprev : ∀ x, (link q element).prev x =
      if x = element then q.RQtail else if x = q.next q.RQtail then element else q.prev x := by
    intro x
    simp [link, hhead, Queue.next, Queue.prev]
  refine ⟨hring.insert hnew ?_ ?_ ?_ ?_ ?_ ?_, by simp [link, hhead]⟩
  · intro x h1 h2
    rw [hnext, if_neg h1, if_neg h2]
  · rw [hnext, if_pos rfl]
  · rw [hnext, if_neg het, if_pos rfl]
  · intro x h1 h2
    rw [hprev, if_neg h2, if_neg h1]
  · rw [hprev, if_neg hnt, if_pos rfl]
  · rw [hprev, if_pos rfl]

/-- Taking an element out of a ring with others keeps a ring of the others. -/
theorem unlink_ring {q : Queue} {cur d : Ptr} {m : List Ptr}
    (hring : Ring q.next q.prev cur (d :: m)) :
    Ring (unlink q cur).next (unlink q cur).prev d m ∧
      (unlink q cur).RQhead = q.RQhead ∧ (unlink q cur).RQtail = q.RQtail := by
  have hself : ¬ (q.mem cur).next = cur := fun h => by
    have := hring.next_eq_self_iff.mp h
    cases this
  have hnext : ∀ x, (unlink q cur).next x = if x = q.prev cur then q.next cur else q.next x := by
    intro x
    simp [unlink, hself, Queue.next, Queue.prev]
  have hprev : ∀ x, (unlink q cur).prev x = if x = q.next cur then q.prev cur else q.prev x := by
    intro x
    simp [unlink, hself, Queue.next, Queue.prev]
  refine ⟨hring.remove ?_ ?_ ?_ ?_, by simp [unlink, hself], by simp [unlink, hself]⟩
  · intro x h
    rw [hnext, if_neg h]
  · rw [hnext, if_pos rfl]
  · intro x h
    rw [hprev, if_neg h]
  · rw [hprev, if_pos rfl]

/-- Taking the only element out leaves an empty queue. -/
theorem unlink_only {q : Queue} {cur : Ptr} (hself : q.next cur = cur) :
    (unlink q cur).RQhead = NULL := by
  unfold unlink
  rw [if_pos hself]

theorem unlink_live (q : Queue) (cur : Ptr) : (unlink q cur).live = q.live.erase cur := by
  unfold unlink
  split <;> rfl

/-- An element without the fields the queue operations set. -/
def RTElement.data (e : RTElement) : RTElement :=
  { e with sfcbIndEle := 0, next := NULL, prev := NULL }

@[simp] theorem setNext_data (mem : Ptr → RTElement) (a b x : Ptr) :
    (setNext mem a b x).data = (mem x).data := by
  unfold setNext
  split <;> rfl

@[simp] theorem setPrev_data (mem : Ptr → RTElement) (a b x : Ptr) :
    (setPrev mem a b x).data = (mem x).data := by
  unfold setPrev
  split <;> rfl

/-- Queueing an element changes nothing else of any element. -/
theorem enqRetry_data (q : Queue) (element a : Ptr) (repo : Bool) :
    ((enqRetry q element repo).queue.mem a).data = (q.mem a).data := by
  have hlink : ∀ a, ((link q element).mem a).data = (q.mem a).data := by
    intro a
    unfold link
    split <;> simp
  cases repo with
  | false => exact hlink a
  | true =>
    by_cases h : a = element
    · rw [← hlink a]
      simp [enqRetry, h, RTElement.data]
    · rw [← hlink a]
      simp [enqRetry, h]

/-- Removing an element changes nothing else of any element. -/
theorem dqRetry_data (q : Queue) (cur a : Ptr) :
    ((dqRetry q cur).queue.mem a).data = (q.mem a).data := by
  rw [dqRetry]
  dsimp only
  unfold unlink
  split
  · rfl
  · simp

/-! ## Runs -/

/-- A call: a new element at an address `malloc` chose is queued, or an element is
removed. -/
inductive Op where
  | enq (element : Ptr) (e : RTElement) (repo : Bool)
  | dq (cur : Ptr)
  deriving DecidableEq, Repr

/-- The queue, with the elements that were enqueued and not yet removed. -/
structure Run where
  queue : Queue
  queued : List Ptr

/-- Nothing is queued or allocated; the memory holds anything. -/
def Run.start (mem : Ptr → RTElement) : Run := ⟨⟨mem, [], NULL, NULL⟩, []⟩

/-- One call. -/
def Run.next (r : Run) : Op → Run
  | .enq element e repo => ⟨(enqRetry (alloc r.queue element e) element repo).queue,
      element :: r.queued⟩
  | .dq cur => ⟨(dqRetry r.queue cur).queue, r.queued.erase cur⟩

/-- `malloc` hands out an address that is not in use, and `dqRetry` is called on an
element of the queue. -/
def Allowed (r : Run) : Op → Prop
  | .enq element _ _ => element ≠ NULL ∧ element ∉ r.queue.live
  | .dq cur => cur ∈ r.queued

/-- Every call of a run is allowed. -/
def AllAllowed : Run → List Op → Prop
  | _, [] => True
  | r, op :: ops => Allowed r op ∧ AllAllowed (r.next op) ops

/-- What is asked of the queue: it is empty when `RQhead` says so, and otherwise what
`RQtail` reaches is exactly what is queued, a circle with both pointers right, in
memory that is not freed. -/
structure Sound (r : Run) : Prop where
  empty : r.queue.RQhead = NULL ↔ r.queued = []
  tail : r.queue.RQhead ≠ NULL → r.queue.RQtail ∈ r.queued
  contents : r.queue.RQhead ≠ NULL → ∀ a, Reaches r.queue.next r.queue.RQtail a ↔ a ∈ r.queued
  circular : r.queue.RQhead ≠ NULL → ∀ a ∈ r.queued, Reaches r.queue.next a r.queue.RQtail
  inverse : r.queue.RQhead ≠ NULL → ∀ a ∈ r.queued,
    r.queue.prev (r.queue.next a) = a ∧ r.queue.next (r.queue.prev a) = a
  live : r.queue.RQhead ≠ NULL → ∀ a, Reaches r.queue.next r.queue.RQtail a → a ∈ r.queue.live

/-- `enqRetry` writes to elements that are allocated. -/
def WritesLive (r : Run) : Op → Prop
  | .enq element e repo =>
    ∀ a ∈ (enqRetry (alloc r.queue element e) element repo).written,
      a ∈ (alloc r.queue element e).live
  | .dq _ => True

/-- The queue is what it should be in every state of a run, and no call writes to freed
memory. -/
def AllSound : Run → List Op → Prop
  | r, [] => Sound r
  | r, op :: ops => Sound r ∧ WritesLive r op ∧ AllSound (r.next op) ops

/-- A removal must not take the element `RQtail` points at, unless it is alone. -/
def Meets (r : Run) : Op → Prop
  | .enq _ _ _ => True
  | .dq cur => cur = r.queue.RQtail → r.queued.length = 1

/-- Every call of a run meets the condition. -/
def AllMeet : Run → List Op → Prop
  | _, [] => True
  | r, op :: ops => Meets r op ∧ AllMeet (r.next op) ops

/-- The invariant: nothing is queued, or a ring through `RQtail` holds what is. -/
structure Linked (r : Run) : Prop where
  live : ∀ a ∈ r.queued, a ∈ r.queue.live
  null : NULL ∉ r.queued
  ring : (r.queue.RQhead = NULL ∧ r.queued = []) ∨
    (r.queue.RQhead ≠ NULL ∧ ∃ l, Ring r.queue.next r.queue.prev r.queue.RQtail l ∧
      (r.queue.RQtail :: l).Perm r.queued)

theorem linked_start (mem : Ptr → RTElement) : Linked (.start mem) :=
  ⟨fun _ h => absurd h List.not_mem_nil, List.not_mem_nil, Or.inl ⟨rfl, rfl⟩⟩

/-- The invariant gives what is asked of the queue. -/
theorem Linked.sound {r : Run} (h : Linked r) : Sound r := by
  rcases h.ring with ⟨hhead, hnil⟩ | ⟨hhead, l, hring, hperm⟩
  · exact ⟨iff_of_true hhead hnil, fun hne => absurd hhead hne, fun hne => absurd hhead hne,
      fun hne => absurd hhead hne, fun hne => absurd hhead hne, fun hne => absurd hhead hne⟩
  · have hmem : ∀ a, a ∈ r.queued ↔ a ∈ r.queue.RQtail :: l := fun a => hperm.symm.mem_iff
    have hreach : ∀ a, Reaches r.queue.next r.queue.RQtail a ↔ a ∈ r.queued :=
      fun a => hring.reaches_iff.trans (hmem a).symm
    have htail : r.queue.RQtail ∈ r.queued := (hmem _).mpr List.mem_cons_self
    refine ⟨iff_of_false hhead (List.ne_nil_of_mem htail), fun _ => htail, fun _ => hreach, ?_, ?_,
      fun _ a ha => h.live a ((hreach a).mp ha)⟩
    · -- from any element the ring leads back to `RQtail`
      intro _ a ha
      obtain ⟨m, hring', hperm'⟩ := hring.enter ((hmem a).mp ha)
      exact hring'.reaches_iff.mpr (hperm'.symm.mem_iff.mp List.mem_cons_self)
    · intro _ a ha
      have ha' := (hmem a).mp ha
      refine ⟨hring.stretch.prev_next ha', hring.stretch.next_prev ?_⟩
      exact (@List.perm_append_comm _ [r.queue.RQtail] l).mem_iff.mp ha'

theorem alloc_next {q : Queue} {p a : Ptr} {e : RTElement} (hne : a ≠ p) :
    (alloc q p e).next a = q.next a := by
  simp [alloc, Queue.next, hne]

theorem alloc_prev {q : Queue} {p a : Ptr} {e : RTElement} (hne : a ≠ p) :
    (alloc q p e).prev a = q.prev a := by
  simp [alloc, Queue.prev, hne]

/-- A ring stays when an element is allocated outside of it. -/
theorem alloc_ring {q : Queue} {p a : Ptr} {e : RTElement} {l : List Ptr}
    (hring : Ring q.next q.prev a l) (hnew : p ∉ a :: l) :
    Ring (alloc q p e).next (alloc q p e).prev a l := by
  refine ⟨hring.nodup, hring.stretch.congr ?_ ?_⟩
  · exact fun x hx => alloc_next fun h => hnew (h ▸ hx)
  · intro x hx
    refine alloc_prev fun h => hnew ?_
    exact (@List.perm_append_comm _ l [a]).mem_iff.mp (h ▸ hx)

/-- Enqueueing keeps the invariant, and writes to allocated elements only. -/
theorem Linked.enq {r : Run} (h : Linked r) {element : Ptr} {e : RTElement} {repo : Bool}
    (hok : Allowed r (.enq element e repo)) :
    Linked (r.next (.enq element e repo)) ∧ WritesLive r (.enq element e repo) := by
  obtain ⟨hnull, hfresh⟩ := hok
  have hnew : element ∉ r.queued := fun hmem => hfresh (h.live _ hmem)
  obtain ⟨hnext, hprev, hlive, hhead, htail, hwritten⟩ :=
    enqRetry_pointers (alloc r.queue element e) element repo
  rw [link_live] at hlive
  rw [link_RQtail] at htail
  have hlive' : ∀ a ∈ element :: r.queued, a ∈ (alloc r.queue element e).live := by
    intro a ha
    rcases List.mem_cons.mp ha with rfl | ha
    · exact List.mem_cons_self
    · exact List.mem_cons_of_mem _ (h.live a ha)
  have hnotnull : NULL ∉ element :: r.queued := by
    rw [List.mem_cons, not_or]
    exact ⟨Ne.symm hnull, h.null⟩
  -- the ring now goes through the new element, which is where `RQtail` points
  have hring : (r.next (.enq element e repo)).queue.RQhead ≠ NULL ∧
      ∃ l, Ring (r.next (.enq element e repo)).queue.next (r.next (.enq element e repo)).queue.prev
        element l ∧ (element :: l).Perm (element :: r.queued) := by
    rw [Run.next, hnext, hprev, hhead]
    rcases h.ring with ⟨hempty, hnil⟩ | ⟨hfull, l, hring, hperm⟩
    · obtain ⟨hsingle, hhead'⟩ := @link_empty (alloc r.queue element e) element hempty
      rw [hhead', hnil]
      exact ⟨hnull, [], hsingle, List.Perm.refl _⟩
    · have hout : element ∉ r.queue.RQtail :: l := fun hmem => hnew (hperm.mem_iff.mp hmem)
      obtain ⟨hring', hhead'⟩ :=
        @link_ring (alloc r.queue element e) element l hfull (alloc_ring hring hout) hout
      rw [hhead']
      exact ⟨hfull, _, hring',
        ((@List.perm_append_comm _ l [r.queue.RQtail]).trans hperm).cons element⟩
  refine ⟨⟨?_, hnotnull, Or.inr ?_⟩, ?_⟩
  · rw [Run.next, hlive]
    exact hlive'
  · have htail' : (r.next (.enq element e repo)).queue.RQtail = element := htail
    rw [htail']
    exact hring
  · -- the elements written to are the new one, `RQtail` and the one behind it
    intro a ha
    rw [hwritten, linkWrites] at ha
    apply hlive'
    split at ha
    · rw [List.mem_singleton.mp ha]
      exact List.mem_cons_self
    · next hfull =>
      rcases h.ring with ⟨hempty, -⟩ | ⟨-, l, hring, hperm⟩
      · exact absurd hempty hfull
      · have hout : element ∉ r.queue.RQtail :: l := fun hmem => hnew (hperm.mem_iff.mp hmem)
        have hring' := @alloc_ring _ _ _ e _ hring hout
        simp only [List.mem_cons, List.not_mem_nil, or_false] at ha
        rcases ha with rfl | rfl | rfl
        · exact List.mem_cons_self
        · have hmem := hring'.stretch.next_mem List.mem_cons_self
          exact List.mem_cons_of_mem _
            (hperm.mem_iff.mp ((@List.perm_append_comm _ l [r.queue.RQtail]).mem_iff.mp hmem))
        · exact List.mem_cons_of_mem _ (hperm.mem_iff.mp List.mem_cons_self)

/-- What is known of a queue with an element in it. -/
theorem Linked.ring_of_mem {r : Run} (h : Linked r) {cur : Ptr} (hcur : cur ∈ r.queued) :
    r.queue.RQhead ≠ NULL ∧ ∃ l, Ring r.queue.next r.queue.prev r.queue.RQtail l ∧
      (r.queue.RQtail :: l).Perm r.queued := by
  rcases h.ring with ⟨-, hnil⟩ | hring
  · rw [hnil] at hcur
    cases hcur
  · exact hring

/-- Removing an element under the condition keeps the invariant. -/
theorem Linked.dq {r : Run} (h : Linked r) {cur : Ptr} (hcur : cur ∈ r.queued)
    (hmeets : Meets r (.dq cur)) : Linked (r.next (.dq cur)) := by
  obtain ⟨hhead, l, hring, hperm⟩ := h.ring_of_mem hcur
  have hnodup : r.queued.Nodup := hperm.nodup_iff.mp hring.nodup
  refine ⟨?_, ?_, ?_⟩
  · intro a ha
    rw [Run.next, dqRetry, unlink_live]
    obtain ⟨hne, hmem⟩ := (hnodup.mem_erase_iff).mp ha
    exact (List.mem_erase_of_ne hne).mpr (h.live a hmem)
  · exact fun hnull => h.null (List.mem_of_mem_erase hnull)
  · rw [Run.next, dqRetry]
    by_cases htail : cur = r.queue.RQtail
    · -- it is alone
      left
      have hone := hmeets htail
      have hl : l = [] := by
        have := hperm.length_eq
        rw [hone, List.length_cons] at this
        exact List.length_eq_zero_iff.mp (by omega)
      rw [hl] at hring hperm
      rw [← List.singleton_perm.mp hperm, htail, List.erase_cons_head]
      exact ⟨unlink_only hring.stretch.1, rfl⟩
    · right
      obtain ⟨m, hring₁, hperm₁⟩ := hring.enter (hperm.mem_iff.mpr hcur)
      -- `RQtail` is among the others, so there are others
      have htail₁ : r.queue.RQtail ∈ m := by
        have := hperm₁.symm.mem_iff.mp (@List.mem_cons_self _ r.queue.RQtail l)
        rcases List.mem_cons.mp this with heq | hmem
        · exact absurd heq.symm htail
        · exact hmem
      obtain ⟨d, m', rfl⟩ := List.exists_cons_of_ne_nil (List.ne_nil_of_mem htail₁)
      obtain ⟨hring₂, hhead₂, htail₂⟩ := unlink_ring hring₁
      obtain ⟨l', hring₃, hperm₃⟩ := hring₂.enter htail₁
      dsimp only
      rw [hhead₂, htail₂]
      refine ⟨hhead, l', hring₃, hperm₃.trans ?_⟩
      have herase := (hperm₁.trans hperm).erase cur
      rwa [List.erase_cons_head] at herase

/-- Removing the element `RQtail` points at, with others left, leaves `RQtail` at an
element that is not queued. -/
theorem Linked.not_sound_dq {r : Run} (h : Linked r) {cur : Ptr} (hcur : cur ∈ r.queued)
    (hmeets : ¬ Meets r (.dq cur)) : ¬ Sound (r.next (.dq cur)) := by
  intro hsound
  obtain ⟨hhead, l, hring, hperm⟩ := h.ring_of_mem hcur
  have hnodup : r.queued.Nodup := hperm.nodup_iff.mp hring.nodup
  simp only [Meets, Classical.not_imp] at hmeets
  obtain ⟨htail, hmore⟩ := hmeets
  cases l with
  | nil => exact hmore hperm.length_eq.symm
  | cons d m =>
    rw [← htail] at hring
    obtain ⟨-, hhead', htail'⟩ := unlink_ring hring
    have hmem := hsound.tail (by rw [Run.next, dqRetry, hhead']; exact hhead)
    rw [Run.next, dqRetry, htail', ← htail] at hmem
    exact (hnodup.mem_erase_iff.mp hmem).1 rfl

/-- In every run the queue is what it should be, in every state and at every write,
exactly when no step removes the element `RQtail` points at while others are queued. -/
theorem runOps_sound_iff {mem : Ptr → RTElement} {ops : List Op}
    (hallowed : AllAllowed (.start mem) ops) :
    AllSound (.start mem) ops ↔ AllMeet (.start mem) ops := by
  -- the induction is on the calls, from any state with the invariant
  have hrun : ∀ {r : Run}, Linked r → AllAllowed r ops → (AllSound r ops ↔ AllMeet r ops) := by
    clear hallowed
    induction ops with
    | nil => exact fun h _ => iff_of_true h.sound trivial
    | cons op ops ih =>
      intro r h hallowed
      rw [AllSound, AllMeet]
      cases op with
      | enq element e repo =>
        obtain ⟨hnext, hwrites⟩ := h.enq hallowed.1
        rw [ih hnext hallowed.2]
        exact ⟨fun hall => ⟨trivial, hall.2.2⟩, fun hall => ⟨h.sound, hwrites, hall.2⟩⟩
      | dq cur =>
        by_cases hmeets : Meets r (.dq cur)
        · rw [ih (h.dq hallowed.1 hmeets) hallowed.2]
          exact ⟨fun hall => ⟨hmeets, hall.2.2⟩, fun hall => ⟨h.sound, trivial, hall.2⟩⟩
        · refine iff_of_false (fun hall => ?_) (fun hall => hmeets hall.1)
          apply h.not_sound_dq hallowed.1 hmeets
          cases ops with
          | nil => exact hall.2.2
          | cons op ops => exact hall.2.2.1
  exact hrun (linked_start mem) hallowed

/-- An element of the examples. -/
def sampleElement : RTElement :=
  ⟨lit "ld", lit "sub", ⟨lit "ind", 1⟩, 1, 0, 0, 1, NULL, NULL⟩

/-- Elements come and go, and the last one stays. -/
def sampleOps : List Op :=
  [.enq 1 sampleElement true, .enq 2 sampleElement true, .dq 1, .enq 1 sampleElement true]

theorem sampleOps_sound :
    AllAllowed (.start fun _ => sampleElement) sampleOps ∧
      AllSound (.start fun _ => sampleElement) sampleOps := by
  have hallowed : AllAllowed (.start fun _ => sampleElement) sampleOps :=
    ⟨⟨by decide, by decide⟩, ⟨by decide, by decide⟩, by unfold Allowed; decide,
      ⟨by decide, by decide⟩, trivial⟩
  have hmeets : AllMeet (.start fun _ => sampleElement) sampleOps :=
    ⟨trivial, trivial, by unfold Meets; decide, trivial, trivial⟩
  exact ⟨hallowed, (runOps_sound_iff hallowed).mpr hmeets⟩

/-- Two elements are queued, the second is removed, and another one is queued. -/
def tailOps : List Op :=
  [.enq 1 sampleElement true, .enq 2 sampleElement true, .dq 2, .enq 3 sampleElement true]

/-- `RQtail` still points at the element that was freed, and the next call writes to
it. -/
theorem tailOps_not_sound :
    AllAllowed (.start fun _ => sampleElement) tailOps ∧
      ¬ AllSound (.start fun _ => sampleElement) tailOps ∧
      ¬ WritesLive ((((Run.start fun _ => sampleElement).next (.enq 1 sampleElement true)).next
        (.enq 2 sampleElement true)).next (.dq 2)) (.enq 3 sampleElement true) := by
  refine ⟨⟨⟨by decide, by decide⟩, ⟨by decide, by decide⟩, by unfold Allowed; decide,
      ⟨by decide, by decide⟩, trivial⟩, ?_, by unfold WritesLive; decide⟩
  intro hall
  have htail := hall.2.2.2.2.2.2.1.tail (by decide)
  revert htail
  decide

end Sfcb.IndCIMXMLHandler
