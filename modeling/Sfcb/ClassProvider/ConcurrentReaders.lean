import Sfcb.ClassProvider.ClassRegister
import Sfcb.Lib.Cursor

/-!
# Concurrent readers of the classes

The read lock keeps writers out and lets any number of readers in. The readers walk the child
lists, and a child list has one cursor, in the list. A reader is a program that calls `getFirst`
and `getNext` on these lists; what it still has to do is a stack of calls, the innermost loop
first.

Mirroring notes:
- `candidate` is `repCandidate`, which reads the classes and the provider register.
- Enumerations without class name walk the hash table, which has iterators of its own, and make
  no call on a child list.
- Left out: what is returned for the children besides their names.
-/

namespace Sfcb.ClassProvider

open Sfcb.Lib

variable {γ ι : Type}

/-- The requests that take the read lock. -/
inductive ReadRequest where
  | enumClassNames (cn : Option CStr) (deep assocsOnly : Bool)
  | enumClasses (cn : Option CStr) (deep : Bool)
  | getchildren (cn : CStr)
  | getallchildren (cn : CStr) (ignprov : Bool)
  | ischild (parent chldn : CStr)
  deriving Repr, DecidableEq

/-- What is done for a child. -/
inductive Walk where
  | shallow
  /-- `loopOnChildNames`, `loopOnChildren` and `loopOnChildChars`. -/
  | deep
  /-- `loopOnChildCount`. -/
  | count (ignprov : Bool)
  /-- `traverseChildren`. -/
  | search (chldn : CStr)
  deriving Repr, DecidableEq

structure Reader where
  walk : Walk
  /-- The class whose children are asked for. -/
  cn : CStr
  /-- The call that comes next, and those of the loops around it. -/
  pending : List (CursorCall CStr)
  visited : List CStr
  n : Nat
  found : Bool
  deriving Repr, DecidableEq

section Readers

variable (cr : ClassRegister γ) (candidate : CStr → Bool)

/-- A loop over the children of `cn` comes before the calls `outer`, if there is a list. -/
def loopOn (cn : CStr) (outer : List (CursorCall CStr)) : List (CursorCall CStr) :=
  if (cr.it.lookup (fold cn)).isSome then .first (fold cn) :: outer else outer

/-- `getFirst` or `getNext` has returned a child. -/
def Reader.visit (r : Reader) (k : CStr) (outer : List (CursorCall CStr)) (child : CStr) : Reader :=
  let r := { r with visited := r.visited ++ [child] }
  let inner := loopOn cr child (.next k :: outer)
  match r.walk with
  | .shallow => { r with pending := .next k :: outer }
  | .deep => { r with pending := inner }
  | .count ignprov =>
    { r with n := if ignprov || candidate child then r.n + 1 else r.n, pending := inner }
  -- every loop around breaks as well
  | .search chldn =>
    if fold child = fold chldn then { r with pending := [], found := true }
    else { r with pending := inner }

/-- A loop has ended. -/
def Reader.leave (r : Reader) : List (CursorCall CStr) → Reader
  | call :: outer => { r with pending := call :: outer }
  | [] =>
    match r.walk with
    -- the children have been counted and are stored now
    | .count _ =>
      if r.n ≠ 0 then { r with walk := .deep, pending := loopOn cr r.cn [] }
      else { r with pending := [] }
    | _ => { r with pending := [] }

def Reader.resume (r : Reader) (child : Option CStr) : Reader :=
  match r.pending, child with
  | [], _ => r
  | _ :: outer, none => r.leave cr outer
  | call :: outer, some child => r.visit cr candidate call.list outer child

def readerProgram : CursorProgram CStr CStr Reader :=
  ⟨fun r => r.pending.head?, Reader.resume cr candidate⟩

/-- The child lists. -/
def childLists (k : CStr) : List CStr := (cr.it.lookup k).getD []

/-- A walk of the children of `cn`. -/
def Reader.walking (walk : Walk) (cn : CStr) : Reader := ⟨walk, cn, loopOn cr cn [], [], 0, false⟩

/-- A request that makes no call, with what it returns. -/
def Reader.done (visited : List CStr) : Reader := ⟨.shallow, [], [], visited, 0, false⟩

/-- The names of an enumeration without class name. -/
def tableNames (p : Class γ → Bool) : List CStr :=
  (cr.ht.entries.filter fun e => p e.2).map fun e => e.2.name

/-- Where a request begins. -/
def ReadRequest.begin : ReadRequest → Reader
  | .enumClassNames cn deep assocsOnly =>
    match cn.filter fun cn => cn ≠ [] ∧ fold cn ≠ fold (lit "$ClassProvider$") with
    | none => .done (tableNames cr fun c =>
        (deep || c.superClass.isNone) && (!assocsOnly || c.isAssociation))
    | some cn =>
      match getClass cr cn with
      | none => .done []
      | some cls =>
        if deep then
          if !assocsOnly || cls.isAssociation then .walking cr .deep cn else .done []
        else .walking cr .shallow cn
  | .enumClasses cn deep =>
    match cn.filter fun cn => cn ≠ [] with
    | none => .done (tableNames cr fun c => deep || c.superClass.isNone)
    | some cn =>
      match getClass cr cn with
      | none => .done []
      | some _ => .walking cr (if deep then .deep else .shallow) cn
  | .getchildren cn => .walking cr .shallow cn
  | .getallchildren cn ignprov => .walking cr (.count ignprov) cn
  | .ischild parent chldn => .walking cr (.search chldn) parent

/-- A request alone, after `n` calls. -/
def readAlone (cursors : CStr → Nat) (q : ReadRequest) (n : Nat) : Reader :=
  ((readerProgram cr candidate).alone (childLists cr) cursors (q.begin cr) n).2

end Readers

/-! ## Interleavings -/

section Interleavings

variable [DecidableEq ι] (cr : ClassRegister γ) (candidate : CStr → Bool) (cursors : CStr → Nat)
  (requests : ι → ReadRequest)

/-- The requests under the read lock, before the first call. -/
def startReaders : Shared ι CStr Reader := .start cursors fun i => (requests i).begin cr

/-- The requests after the calls of a schedule. -/
def runReaders (schedule : List ι) : Shared ι CStr Reader :=
  (startReaders cr cursors requests).run (readerProgram cr candidate) (childLists cr) schedule

/-- Every `getNext` of the schedule finds the cursor where the request's own last call on that
list left it. -/
def CursorsKept (schedule : List ι) : Prop :=
  (startReaders cr cursors requests).UndisturbedRun (readerProgram cr candidate) (childLists cr)
    schedule

/-- What is asked of an interleaving: a request has visited what it visits alone with as many
calls, and one that ends alone has ended with the same classes. -/
structure ReadsAsAlone (schedule : List ι) (i : ι) : Prop where
  soFar : ((runReaders cr candidate cursors requests schedule).states i).visited =
    (readAlone cr candidate cursors (requests i) (schedule.count i)).visited
  atEnd : ∀ n, (readAlone cr candidate cursors (requests i) n).pending = [] →
    n ≤ schedule.count i →
      ((runReaders cr candidate cursors requests schedule).states i).pending = [] ∧
        ∀ cn, cn ∈ ((runReaders cr candidate cursors requests schedule).states i).visited ↔
          cn ∈ (readAlone cr candidate cursors (requests i) n).visited

/-- In an interleaving that keeps the cursors of each list for one request at a time, every
request reads as if it were alone. -/
theorem readsAsAlone_of_cursorsKept {schedule : List ι}
    (h : CursorsKept cr candidate cursors requests schedule) (i : ι) :
    ReadsAsAlone cr candidate cursors requests schedule i := by
  have hstate : (runReaders cr candidate cursors requests schedule).states i =
      readAlone cr candidate cursors (requests i) (schedule.count i) := run_eq_alone h i
  refine ⟨congrArg Reader.visited hstate, fun n hend hle => ?_⟩
  have hcall : (readerProgram cr candidate).call
      ((readerProgram cr candidate).alone (childLists cr) cursors ((requests i).begin cr) n).2 =
        none := List.head?_eq_none_iff.mpr hend
  have hlater : readAlone cr candidate cursors (requests i) (schedule.count i) =
      readAlone cr candidate cursors (requests i) n :=
    congrArg Prod.snd (CursorProgram.alone_of_le hcall hle)
  rw [hstate, hlater]
  exact ⟨hend, fun cn => Iff.rfl⟩

end Interleavings

/-- A class with two subclasses. -/
def siblingClasses : SchemaFile Unit :=
  .ofClasses [⟨lit "A", none, false, ()⟩, ⟨lit "B", some (lit "A"), false, ()⟩,
    ⟨lit "C", some (lit "A"), false, ()⟩]

theorem readsAsAlone_of_cursorsKept_siblings :
    CursorsKept (loadedRegister siblingClasses) (fun _ => true) (fun _ => 0)
        (fun _ : Bool => .getchildren (lit "A")) [true, true, true, false] ∧
      ReadsAsAlone (loadedRegister siblingClasses) (fun _ => true) (fun _ => 0)
        (fun _ : Bool => .getchildren (lit "A")) [true, true, true, false] true := by
  have hkept : CursorsKept (loadedRegister siblingClasses) (fun _ => true) (fun _ => 0)
      (fun _ : Bool => .getchildren (lit "A")) [true, true, true, false] := by
    refine ⟨fun k hk => ?_, fun k hk => ?_, fun k hk => ?_, fun k hk => ?_, trivial⟩ <;> cases hk
    · rfl
    · rfl
  exact ⟨hkept, readsAsAlone_of_cursorsKept _ _ _ _ hkept true⟩

/-- Two requests walk one list in turns, and one of them ends with half of it. -/
theorem not_readsAsAlone_siblings :
    newClassRegister siblingClasses = some (loadedRegister siblingClasses) ∧
      ¬ ReadsAsAlone (loadedRegister siblingClasses) (fun _ => true) (fun _ => 0)
        (fun _ : Bool => .getchildren (lit "A")) [true, false, true, false, false] false := by
  refine ⟨rfl, fun h => ?_⟩
  have hend := h.atEnd 3 rfl (by decide)
  exact absurd (hend.2 (lit "C")) (by decide)

end Sfcb.ClassProvider
