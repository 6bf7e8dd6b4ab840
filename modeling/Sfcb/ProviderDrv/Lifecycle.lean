import Sfcb.Lib.Semaphore
import Mathlib.Logic.Function.Basic
import Mathlib.Data.List.FinRange

/-!
# Provider processes that come and go

The provider manager starts a process for a provider when a client asks for it, and the process
ends itself when nobody has used it for a while. Each process has a slot with three semaphores:
`GUARD` keeps the others apart, `INUSE` counts the contexts that clients have open, `ALIVE` says
whether the process is still there.

Three parties work on a slot at the same time: the manager in `forkProvider` and `getProcess`,
any number of clients in `setInuseSem` and `closeProviderContext`, and the process itself, first in `getProcess`
behind its `fork` and then in `providerIdleThread`. A step of the model is one operation on a
semaphore, or what a party does for itself between two of them.

Mirroring notes:
- A process ends by `exit` in its idle thread. One that dies of a signal is not modelled, nor is
  a `fork` that fails, after which the manager aborts.
- The end of a process comes to the manager as a signal, between any two of its steps. What the
  handler does then is a step of its own; that it also ends the waiting of the manager is in the
  flags `interrupted`.
- The group of a provider is the one that it has after `provAutoGroup`.
- What clean-up functions answer, how much time has passed and whether a library can be loaded
  is up to the run.
- `contexts` and `failed` are for the statements only: the contexts that are open, and the loads
  of the process that have failed. So is `incarnation`, which tells the processes of a slot apart
  as their pids do.
-/

namespace Sfcb.ProviderDrv

open Sfcb.Lib

variable {n : Nat} {ι π γ : Type}

/-- What a client has got: a process to send its requests to. -/
structure Context (ι : Type) where
  client : ι
  incarnation : Nat
deriving DecidableEq, Repr

/-- How far a process has come. -/
inductive ProcessStage where
  | absent
  /-- Forked; so many of its first semaphore operations are done. -/
  | starting (done : Nat)
  | serving
  /-- Its idle thread has the guard. -/
  | watching
  /-- The idle thread has seen that nobody uses the process, and that it has been so for long. -/
  | idle
  | gone
deriving DecidableEq, Repr

/-- `ProviderProcess`, with the semaphores of the slot. `pid` is whether the manager's field is
not zero. -/
structure ProviderProcess (ι π γ : Type) where
  guard : Semaphore
  inuse : Semaphore
  alive : Semaphore
  stage : ProcessStage
  pid : Bool
  group : Option γ
  firstProv : List π
  incarnation : Nat
  contexts : List (Context ι)
  failed : Nat

/-- Where the manager is in a slot. -/
inductive ManagerStage where
  /-- `forkProvider`, in front of its `semAcquire`. -/
  | wantGuard
  | testAlive
  | countUse
  | freeGuard
  | respond
  | freeDead
  /-- The first loop of `getProcess`. -/
  | shareGuard
  | shareUse
  | shareFree
  /-- `invokeProvider`, with the request to load the provider. -/
  | loading
deriving DecidableEq, Repr

/-- The manager, for a client and a provider. -/
inductive Manager (n : Nat) (ι π : Type) where
  | ready
  | working (client : ι) (info : π) (slot : Fin n) (stage : ManagerStage)
  /-- At the beginning of `getProcess`. -/
  | choosing (client : ι) (info : π)

/-- Where a client is in `closeProviderContext`, or in `setInuseSem`, which is `freeGuard` only. -/
inductive CloseStage where
  | testUse
  | takeUse
  | freeGuard
deriving DecidableEq, Repr

/-- The broker. `loaded` is the process of a provider whose `pid` is not zero. -/
structure Broker (n : Nat) (ι π γ : Type) where
  provProc : Fin n → ProviderProcess ι π γ
  loaded : π → Option (Fin n)
  manager : Manager n ι π
  closing : ι → Option (Fin n × Context ι × CloseStage)
  seq : Nat

/-- `initSem` and `initProvProcCtl`. -/
def initProvProcCtl (n : Nat) (ι π γ : Type) : Broker n ι π γ where
  provProc := fun _ =>
    { guard := .setValue 1, inuse := .setValue 0, alive := .setValue 0, stage := .absent
      pid := false, group := none, firstProv := [], incarnation := 0, contexts := [], failed := 0 }
  loaded := fun _ => none
  manager := .ready
  closing := fun _ => none
  seq := 0

/-- What happens next. -/
inductive Action (n : Nat) (ι π : Type) where
  /-- The manager gets a request. -/
  | request (client : ι) (info : π)
  | manager (interrupted : Bool)
  /-- The process answers the request to load a provider. -/
  | loadAnswer (ok : Bool)
  /-- A new process makes its next operation. -/
  | start (slot : Fin n)
  /-- The idle thread wakes up. -/
  | watch (slot : Fin n) (interrupted : Bool)
  /-- It reads `INUSE`, and whether the last activity was long ago. -/
  | look (slot : Fin n) (late : Bool)
  /-- The clean-up functions have answered: the process ends, or stays. -/
  | decide (slot : Fin n) (doNotExit : Bool)
  /-- The manager hears of the end of the process. -/
  | childExit (slot : Fin n)
  /-- A client has got a context. -/
  | opened (client : ι) (slot : Fin n) (incarnation : Nat) (interrupted : Bool)
  /-- A client begins to close one of its contexts. -/
  | close (client : ι) (slot : Fin n) (incarnation : Nat) (interrupted : Bool)
  /-- It goes on with that. -/
  | closing (client : ι) (interrupted : Bool)

/-- Whether a signal ends the waiting for a semaphore. -/
def Action.interrupted : Action n ι π → Bool
  | .manager interrupted | .watch _ interrupted | .opened _ _ _ interrupted
  | .close _ _ _ interrupted | .closing _ interrupted => interrupted
  | _ => false

namespace Broker

variable (w : Broker n ι π γ)

/-- A slot changes. -/
def setSlot (k : Fin n) (s : ProviderProcess ι π γ) : Broker n ι π γ :=
  { w with provProc := Function.update w.provProc k s }

/-- The guard of a slot is taken, or the caller goes on without it. -/
def takeGuard (k : Fin n) (interrupted : Bool) : Option (Broker n ι π γ) :=
  ((w.provProc k).guard.acquire interrupted).map fun guard =>
    w.setSlot k { w.provProc k with guard := guard }

/-- A context is handed out. -/
def handOut (client : ι) (k : Fin n) : Broker n ι π γ :=
  { w.setSlot k { w.provProc k with
      contexts := ⟨client, (w.provProc k).incarnation⟩ :: (w.provProc k).contexts } with
    manager := .ready }

section Choices

variable [DecidableEq γ]

/-- The process of a group, as the first loop of `getProcess` finds it. -/
def sharedSlot (group : Option γ) : Option (Fin n) :=
  if group.isSome then
    (List.finRange n).find? fun k => (w.provProc k).pid && decide ((w.provProc k).group = group)
  else none

/-- The first slot without a process. -/
def freeSlot : Option (Fin n) := (List.finRange n).find? fun k => !(w.provProc k).pid

end Choices

variable [DecidableEq π]

/-- What `forkProvider` does with a process that is not alive: it forgets it. -/
def forget (k : Fin n) : Broker n ι π γ :=
  { w.setSlot k { w.provProc k with pid := false, group := none, firstProv := [] } with
    loaded := fun p => if p ∈ (w.provProc k).firstProv then none else w.loaded p }

/-- The second loop of `getProcess`, with a free slot: the manager's side of the `fork`. -/
def fork (groupOf : π → Option γ) (client : ι) (info : π) (k : Fin n) : Broker n ι π γ :=
  { w.setSlot k { w.provProc k with
      stage := .starting 0, pid := true, group := groupOf info, firstProv := [info]
      incarnation := w.seq + 1, failed := 0 } with
    loaded := Function.update w.loaded info (some k)
    manager := .working client info k .loading
    seq := w.seq + 1 }

variable [DecidableEq γ]

/-- The next operation of the manager. -/
def managerStep (groupOf : π → Option γ) (interrupted : Bool) : Option (Broker n ι π γ) :=
  match w.manager with
  | .ready => none
  | .choosing client info =>
    match w.sharedSlot (groupOf info) with
    | some k => some { w with manager := .working client info k .shareGuard }
    | none =>
      match w.freeSlot with
      | some k => some (w.fork groupOf client info k)
      -- forkProvider returns CMPI_RC_ERR_FAILED
      | none => some { w with manager := .ready }
  | .working client info k stage =>
    let s := w.provProc k
    match stage with
    | .wantGuard =>
      (w.takeGuard k interrupted).map fun w =>
        { w with manager := .working client info k .testAlive }
    | .testAlive =>
      some { w with
        manager := .working client info k (if s.alive.value ≠ 0 then .countUse else .freeDead) }
    | .countUse =>
      some { w.setSlot k { s with inuse := s.inuse.release } with
        manager := .working client info k .freeGuard }
    | .freeGuard =>
      some { w.setSlot k { s with guard := s.guard.release } with
        manager := .working client info k .respond }
    | .respond => some (w.handOut client k)
    | .freeDead =>
      some { (w.setSlot k { s with guard := s.guard.release }).forget k with
        manager := .choosing client info }
    | .shareGuard =>
      (w.takeGuard k interrupted).map fun w =>
        { w with manager := .working client info k .shareUse }
    | .shareUse =>
      some { w.setSlot k { s with inuse := s.inuse.release } with
        manager := .working client info k .shareFree }
    | .shareFree =>
      some { w.setSlot k { s with guard := s.guard.release, firstProv := info :: s.firstProv } with
        -- the `pid` is read again: it is zero if the end of the process has been reported
        loaded := Function.update w.loaded info (if s.pid then some k else none)
        manager := if s.pid then .working client info k .loading else .ready }
    -- the answer is an action of its own
    | .loading => none

/-- The answer to the manager: a context for the client, or a use that nobody has. -/
def loadAnswer (ok : Bool) : Option (Broker n ι π γ) :=
  match w.manager with
  | .working client _ k .loading =>
    let s := w.provProc k
    if s.stage = .serving ∨ s.stage = .watching ∨ s.stage = .idle then
      if ok then some (w.handOut client k)
      else some { w.setSlot k { s with failed := s.failed + 1 } with manager := .ready }
    else none
  | _ => none

/-- The first operations of a process. -/
def startStep (k : Fin n) : Option (Broker n ι π γ) :=
  let s := w.provProc k
  match s.stage with
  | .starting 0 => some (w.setSlot k { s with guard := .setValue 0, stage := .starting 1 })
  | .starting 1 => some (w.setSlot k { s with inuse := .setValue 0, stage := .starting 2 })
  | .starting 2 => some (w.setSlot k { s with alive := .setValue 0, stage := .starting 3 })
  | .starting 3 => some (w.setSlot k { s with alive := s.alive.releaseUnDo, stage := .starting 4 })
  | .starting 4 => some (w.setSlot k { s with inuse := s.inuse.releaseUnDo, stage := .starting 5 })
  | .starting 5 => some (w.setSlot k { s with guard := s.guard.release, stage := .serving })
  | _ => none

/-- The idle thread acquires the guard. -/
def watchStep (k : Fin n) (interrupted : Bool) : Option (Broker n ι π γ) :=
  let s := w.provProc k
  if s.stage = .serving then
    (s.guard.acquireUnDo interrupted).map fun guard =>
      w.setSlot k { s with guard := guard, stage := .watching }
  else none

/-- It reads `INUSE` and the time. -/
def lookStep (k : Fin n) (late : Bool) : Option (Broker n ι π γ) :=
  let s := w.provProc k
  if s.stage = .watching then
    if s.inuse.value = 0 ∧ late then some (w.setSlot k { s with stage := .idle })
    else some (w.setSlot k { s with guard := s.guard.release, stage := .serving })
  else none

/-- It ends the process, or gives the guard back. The operating system undoes what the process
has asked for. -/
def decideStep (k : Fin n) (doNotExit : Bool) : Option (Broker n ι π γ) :=
  let s := w.provProc k
  if s.stage = .idle then
    if doNotExit then some (w.setSlot k { s with guard := s.guard.release, stage := .serving })
    else
      some (w.setSlot k { s with
        guard := s.guard.processExit
        inuse := s.inuse.processExit
        alive := s.alive.processExit
        stage := .gone })
  else none

/-- `testStartedProc` and `resetProvider`, called by the signal handler of the manager. -/
def testStartedProc (k : Fin n) : Option (Broker n ι π γ) :=
  if (w.provProc k).stage = .gone ∧ (w.provProc k).pid = true then
    some { w.setSlot k { w.provProc k with pid := false } with
      loaded := fun p => if w.loaded p = some k then none else w.loaded p }
  else none

variable [DecidableEq ι]

/-- A client that has a context open acquires the guard: the first operation of `setInuseSem`, or
of `closeProviderContext` for one provider. -/
def enterStep (client : ι) (k : Fin n) (incarnation : Nat) (stage : CloseStage)
    (interrupted : Bool) : Option (Broker n ι π γ) :=
  if w.closing client = none ∧ ⟨client, incarnation⟩ ∈ (w.provProc k).contexts then
    (w.takeGuard k interrupted).map fun w =>
      { w with
        closing := Function.update w.closing client (some (k, ⟨client, incarnation⟩, stage)) }
  else none

/-- And goes on. -/
def closingStep (client : ι) (interrupted : Bool) : Option (Broker n ι π γ) :=
  match w.closing client with
  | none => none
  | some (k, context, stage) =>
    let s := w.provProc k
    match stage with
    | .testUse =>
      if s.inuse.value ≠ 0 then
        some { w with closing := Function.update w.closing client (some (k, context, .takeUse)) }
      else
        -- "already zero"
        some { w.setSlot k { s with contexts := s.contexts.erase context } with
          closing := Function.update w.closing client (some (k, context, .freeGuard)) }
    | .takeUse =>
      (s.inuse.acquire interrupted).map fun inuse =>
        { w.setSlot k { s with inuse := inuse, contexts := s.contexts.erase context } with
          closing := Function.update w.closing client (some (k, context, .freeGuard)) }
    | .freeGuard =>
      some { w.setSlot k { s with guard := s.guard.release } with
        closing := Function.update w.closing client none }

/-- One step. -/
def step (groupOf : π → Option γ) : Action n ι π → Option (Broker n ι π γ)
  | .request client info =>
    match w.manager with
    | .ready =>
      match w.loaded info with
      | some k => some { w with manager := .working client info k .wantGuard }
      | none => some { w with manager := .choosing client info }
    | _ => none
  | .manager interrupted => w.managerStep groupOf interrupted
  | .loadAnswer ok => w.loadAnswer ok
  | .start k => w.startStep k
  | .watch k interrupted => w.watchStep k interrupted
  | .look k late => w.lookStep k late
  | .decide k doNotExit => w.decideStep k doNotExit
  | .childExit k => w.testStartedProc k
  | .opened client k incarnation interrupted =>
    w.enterStep client k incarnation .freeGuard interrupted
  | .close client k incarnation interrupted =>
    w.enterStep client k incarnation .testUse interrupted
  | .closing client interrupted => w.closingStep client interrupted

/-- A run. There is none if a step of it is not possible. -/
def run (groupOf : π → Option γ) :
    Broker n ι π γ → List (Action n ι π) → Option (Broker n ι π γ)
  | w, [] => some w
  | w, a :: as => (w.step groupOf a).bind fun w => run groupOf w as

/-- No signal ends the waiting for a semaphore in a run, and `INUSE` is never at its end. -/
def Undisturbed (groupOf : π → Option γ) : Broker n ι π γ → List (Action n ι π) → Prop
  | _, [] => True
  | w, a :: as =>
    a.interrupted = false ∧ (∀ k, (w.provProc k).inuse.value < Semaphore.SEMVMX) ∧
      ∀ w' ∈ w.step groupOf a, Undisturbed groupOf w' as

instance decidableUndisturbed (groupOf : π → Option γ) :
    (w : Broker n ι π γ) → (as : List (Action n ι π)) → Decidable (w.Undisturbed groupOf as)
  | _, [] => .isTrue trivial
  | _, _ :: as =>
    have _ (w' : Broker n ι π γ) : Decidable (w'.Undisturbed groupOf as) :=
      decidableUndisturbed groupOf w' as
    inferInstanceAs (Decidable (_ ∧ _ ∧ _))

end Broker

end Sfcb.ProviderDrv
