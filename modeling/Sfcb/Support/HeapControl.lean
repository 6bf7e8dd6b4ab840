import Mathlib.Logic.Function.Basic
import Sfcb.Lib.Numeral

/-!
# The heap of a thread

The memory management of `support.c`: the table of the encapsulated objects of a thread,
which `markHeap` replaces by an empty one and `releaseHeap` restores.

Mirroring notes:
- An object is its number. `memState` is its `mem_state`, as long as it has not been freed:
  the id under which it stands in a table, or `MEM_NOT_TRACKED`.
- `memEncObjs` are the slots below `memEncUsed`, which is their number; a slot of `NULL` is
  `none`. The id of an object is an `int`.
- The outcome `none` is a write outside the table, or the release of an object that was
  freed before: nothing is said about such a run.
- `__memInit` gives a thread its first table before it is used, so a thread starts with one.
  It is a thread of a server, not of a local client (`localClientMode`).
- `markHeap` returns a pointer to a copy of the heap control, with which `releaseHeap` is
  called. Every caller nests the calls, so `releaseHeap` is given the last copy. The pointers
  are numbered in the order of the calls; the generation that `markHeap` starts is known by
  its pointer.
- The release of an object of any class does what `__ift_release` of `instance.c` does here.
- A step also says which objects it tracked or released.
-/

namespace Sfcb.Support

open Sfcb.Lib

/-- `MEM_NOT_TRACKED`. -/
def MEM_NOT_TRACKED : Int := -2

/-- `MEM_RELEASED`. -/
def MEM_RELEASED : Int := -1

/-- `MT_SIZE_STEP`. -/
def MT_SIZE_STEP : Nat := 100

structure HeapControl where
  memEncObjs : List (Option Nat)
  memEncSize : Nat
  deriving Repr, DecidableEq

/-- The heap control `__init_mt` and `markHeap` set up. -/
def newHeapControl : HeapControl := ⟨[], MT_SIZE_STEP⟩

/-- A thread: its heap control, the copies of earlier ones with their pointers, and the
objects. -/
structure Thread where
  hc : HeapControl
  saved : List (Nat × HeapControl)
  marks : Nat
  memState : Nat → Option Int
  created : Nat

def newThread : Thread := ⟨newHeapControl, [], 0, fun _ => none, 0⟩

/-- What released an object. -/
inductive Cause where
  | explicit
  | releaseHeap (hc : Nat)
  | flush
  deriving Repr, DecidableEq

inductive Event where
  | tracked (obj : Nat) (generation : Option Nat)
  | released (obj : Nat) (cause : Cause)
  deriving Repr, DecidableEq

/-- The pointer that started the current generation. -/
def Thread.generation (t : Thread) : Option Nat := t.saved.head?.map Prod.fst

/-- Other slots in the current table. -/
def Thread.setSlots (t : Thread) (slots : List (Option Nat)) : Thread :=
  { t with hc := ⟨slots, t.hc.memEncSize⟩ }

/-- Other objects. -/
def Thread.setState (t : Thread) (memState : Nat → Option Int) : Thread :=
  { t with memState := memState }

/-- What `memAddEncObj` and `memLinkEncObj` do to the table. -/
def HeapControl.enter (hc : HeapControl) (obj : Nat) : HeapControl :=
  let used := hc.memEncObjs.length + 1
  ⟨hc.memEncObjs ++ [some obj],
    if used = hc.memEncSize then hc.memEncSize + MT_SIZE_STEP else hc.memEncSize⟩

/-- The object gets a slot and the id of it. -/
def track (t : Thread) (obj : Nat) : Option (Thread × List Event) :=
  if t.hc.memEncSize ≤ t.hc.memEncObjs.length then none
  else some ({ t with
      hc := t.hc.enter obj
      memState := Function.update t.memState obj (some (cInt (t.hc.memEncObjs.length + 1 : Nat))) },
    [.tracked obj t.generation])

/-- `memAddEncObj`. -/
def memAddEncObj (t : Thread) (tracked : Bool) : Option (Thread × List Event) :=
  let obj := t.created
  let t := { t with
    memState := Function.update t.memState obj (some MEM_NOT_TRACKED), created := obj + 1 }
  if tracked then track t obj else some (t, [])

/-- `memLinkEncObj`. -/
def memLinkEncObj (t : Thread) (obj : Nat) : Option (Thread × List Event) := track t obj

/-- `memUnlinkEncObj`. -/
def memUnlinkEncObj (t : Thread) (memId : Int) : Option Thread :=
  if memId ≠ MEM_RELEASED ∧ memId ≠ MEM_NOT_TRACKED then
    if 0 ≤ memId - 1 ∧ memId - 1 < t.hc.memEncSize then
      some (t.setSlots (t.hc.memEncObjs.set (memId - 1).toNat none))
    else none
  else some t

/-- `__ift_release`. -/
def release (t : Thread) (obj : Nat) (cause : Cause) : Option (Thread × List Event) :=
  match t.memState obj with
  | none => none
  | some memState =>
    if memState ≠ 0 ∧ memState ≠ MEM_RELEASED then
      (memUnlinkEncObj t memState).map fun t =>
        (t.setState (Function.update t.memState obj none), [.released obj cause])
    else some (t, [])

/-- The second loop of `__flush_mt`, with `memEncUsed` in front of its decrement. -/
def flushMt (cause : Cause) : (memEncUsed : Nat) → Thread → Option (Thread × List Event)
  | 0, t => some (t, [])
  | n + 1, t =>
    let slot := t.hc.memEncObjs[n]?.join
    let t := t.setSlots (t.hc.memEncObjs.take n)
    match slot with
    | none => flushMt cause n t
    | some obj =>
      (release t obj cause).bind fun r =>
        (flushMt cause n r.1).map fun rest => (rest.1, r.2 ++ rest.2)

/-- `__flush_mt`. -/
def flush (cause : Cause) (t : Thread) : Option (Thread × List Event) :=
  flushMt cause t.hc.memEncObjs.length t

/-- `markHeap`. -/
def markHeap (t : Thread) : Thread :=
  { t with hc := newHeapControl, saved := (t.marks, t.hc) :: t.saved, marks := t.marks + 1 }

/-- `releaseHeap`. -/
def releaseHeap (t : Thread) : Option (Thread × List Event) :=
  match t.saved with
  | [] => none
  | (p, hc) :: saved =>
    (flush (.releaseHeap p) t).map fun r => ({ r.1 with hc := hc, saved := saved }, r.2)

inductive Op where
  | memAddEncObj (tracked : Bool)
  | memLinkEncObj (obj : Nat)
  | release (obj : Nat)
  | markHeap
  | releaseHeap
  deriving Repr, DecidableEq

def step (t : Thread) : Op → Option (Thread × List Event)
  | .memAddEncObj tracked => memAddEncObj t tracked
  | .memLinkEncObj obj => memLinkEncObj t obj
  | .release obj => release t obj .explicit
  | .markHeap => some (markHeap t, [])
  | .releaseHeap => releaseHeap t

def runOps (t : Thread) : List Op → Option (Thread × List Event)
  | [] => some (t, [])
  | op :: ops =>
    (step t op).bind fun r => (runOps r.1 ops).map fun rest => (rest.1, r.2 ++ rest.2)

end Sfcb.Support
