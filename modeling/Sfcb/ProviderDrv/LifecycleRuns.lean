import Sfcb.ProviderDrv.Lifecycle

/-!
# No process ends while it is used

What holds in every state that an undisturbed run can come to, whatever the order of the steps. A `View` is
what concerns one slot: the slot itself, where the manager is in it, and which clients are
closing a context there. `SlotInv` is the invariant of a view, with a case for each stage of the
process; a step changes one view, and keeps its invariant.

`contexts_current` is what it is for: as long as a client has a context open, the process that
it was handed out for is still there, and no other process has taken the slot.
`inuse_eq` says what `INUSE` counts, and `guard_exclusive` that never two parties are between
the acquisition of a guard and its release.
-/

namespace Sfcb.ProviderDrv

open Sfcb.Lib

variable {n : Nat} {ι π γ : Type}

/-! ## The view of a slot -/

/-- Who can have the guard of a slot. -/
inductive Party (ι : Type) where
  | manager
  | process
  | client (c : ι)

/-- The manager has the guard. -/
def ManagerStage.holds : ManagerStage → Bool
  | .testAlive | .countUse | .freeGuard | .freeDead | .shareUse | .shareFree => true
  | _ => false

/-- The manager has counted a use that nobody has got yet. -/
def ManagerStage.pending : ManagerStage → Nat
  | .freeGuard | .respond | .shareFree | .loading => 1
  | _ => 0

/-- The manager has found the process alive, and has not answered yet. -/
def ManagerStage.promised : ManagerStage → Bool
  | .countUse | .freeGuard | .respond => true
  | _ => false

/-- What concerns one slot. -/
structure View (ι π γ : Type) where
  slot : ProviderProcess ι π γ
  manager : Option ManagerStage
  closing : ι → Option (Context ι × CloseStage)

def Manager.at (m : Manager n ι π) (k : Fin n) : Option ManagerStage :=
  match m with
  | .working _ _ k' stage => if k' = k then some stage else none
  | _ => none

def closingAt (c : Option (Fin n × Context ι × CloseStage)) (k : Fin n) :
    Option (Context ι × CloseStage) :=
  match c with
  | some (k', x) => if k' = k then some x else none
  | none => none

def Broker.view (w : Broker n ι π γ) (k : Fin n) : View ι π γ :=
  ⟨w.provProc k, w.manager.at k, fun c => closingAt (w.closing c) k⟩

namespace View

variable (v : View ι π γ)

def holds : Party ι → Prop
  | .manager => ∃ m, v.manager = some m ∧ m.holds = true
  | .process => v.slot.stage = .watching ∨ v.slot.stage = .idle
  | .client c => (v.closing c).isSome = true

def pending : Nat :=
  match v.manager with
  | some m => m.pending
  | none => 0

/-- Nobody has a context of the process, or is closing one. -/
structure Unused : Prop where
  contexts : v.slot.contexts = []
  closing : ∀ c, v.closing c = none

/-- The semaphores after so many operations of a new process. -/
structure Started (d : Nat) : Prop where
  done : d ≤ 5
  guard : 1 ≤ d → v.slot.guard = ⟨0, 0⟩
  inuse : 2 ≤ d → v.slot.inuse.value = if d = 5 then 1 else 0
  alive : 3 ≤ d → v.slot.alive = if 4 ≤ d then ⟨1, -1⟩ else ⟨0, 0⟩

/-- A process that is there. -/
structure Running : Prop where
  stage : v.slot.stage = .serving ∨ v.slot.stage = .watching ∨ v.slot.stage = .idle
  pid : v.slot.pid = true
  guarded : HeldByOne v.slot.guard.value v.holds
  alive : v.slot.alive = ⟨1, -1⟩
  inuse : v.slot.inuse.value = v.slot.contexts.length + v.pending + v.slot.failed
  idle : v.slot.stage = .idle → v.slot.inuse.value = 0
  current : ∀ x ∈ v.slot.contexts, x.incarnation = v.slot.incarnation
  closing : ∀ c x stage, v.closing c = some (x, stage) → stage ≠ .freeGuard →
    x ∈ v.slot.contexts ∧ x.client = c
  manager : v.manager ≠ some .freeDead

/-- What holds of a slot at any time. -/
inductive SlotInv : Prop where
  | absent (hstage : v.slot.stage = .absent) (hpid : v.slot.pid = false) (hunused : v.Unused)
      (hmanager : v.manager = none)
  | starting (d : Nat) (hstage : v.slot.stage = .starting d) (hpid : v.slot.pid = true)
      (hunused : v.Unused) (hmanager : v.manager = some .loading) (hfailed : v.slot.failed = 0)
      (hstarted : v.Started d)
  | running (h : v.Running)
  | gone (hstage : v.slot.stage = .gone) (hunused : v.Unused) (halive : v.slot.alive.value = 0)
      (hmanager : ∀ m, v.manager = some m → m.promised = false)

/-! ## What the manager does in a slot -/

section ManagerSteps

variable {v} {m m' : ManagerStage} {guard : Semaphore}

/-- The manager comes to a slot with a process. -/
theorem SlotInv.enter (h : v.SlotInv) (hmanager : v.manager = none) (hpid : v.slot.pid = true)
    (hm : m = .wantGuard ∨ m = .shareGuard) : View.SlotInv { v with manager := some m } := by
  have hholds : m.holds = false := by obtain rfl | rfl := hm <;> rfl
  have hpending : m.pending = 0 := by obtain rfl | rfl := hm <;> rfl
  cases h with
  | absent _ hfree =>
    rw [hpid] at hfree
    cases hfree
  | starting _ _ _ _ hloading =>
    rw [hmanager] at hloading
    cases hloading
  | running h =>
    refine .running { h with guarded := ?_, inuse := ?_, manager := ?_ }
    · apply h.guarded.congr
      intro q
      cases q with
      | manager => simp [View.holds, hmanager, hholds]
      | _ => exact Iff.rfl
    · rw [h.inuse]
      simp [View.pending, hmanager, hpending]
    · obtain rfl | rfl := hm <;> simp
  | gone hstage hunused halive _ =>
    refine .gone hstage ⟨hunused.contexts, hunused.closing⟩ halive ?_
    intro m'' heq
    cases heq
    obtain rfl | rfl := hm <;> rfl

/-- It acquires the guard. -/
theorem SlotInv.takeGuard (h : v.SlotInv) (hmanager : v.manager = some m)
    (hm : m = .wantGuard ∧ m' = .testAlive ∨ m = .shareGuard ∧ m' = .shareUse)
    (hguard : v.slot.guard.acquire false = some guard) :
    View.SlotInv
      { v with slot := { v.slot with guard := guard }, manager := some m' } := by
  have hpos := Semaphore.pos_of_acquire hguard
  have hvalue := Semaphore.value_of_acquire hguard
  have hholds : m.holds = false ∧ m'.holds = true := by
    obtain ⟨rfl, rfl⟩ | ⟨rfl, rfl⟩ := hm <;> exact ⟨rfl, rfl⟩
  have hpending : m.pending = 0 ∧ m'.pending = 0 := by
    obtain ⟨rfl, rfl⟩ | ⟨rfl, rfl⟩ := hm <;> exact ⟨rfl, rfl⟩
  cases h with
  | absent _ _ _ hnone =>
    rw [hmanager] at hnone
    cases hnone
  | starting _ _ _ _ hloading =>
    rw [hmanager] at hloading
    cases hloading
    obtain ⟨h, _⟩ | ⟨h, _⟩ := hm <;> cases h
  | running h =>
    refine .running { h with guarded := ?_, inuse := ?_, manager := ?_ }
    · show HeldByOne guard.value _
      rw [hvalue]
      apply h.guarded.taken hpos (p := .manager)
      intro q
      cases q with
      | manager => simp [View.holds, hholds.2]
      | process => simp [View.holds]
      | client c => simp [View.holds]
    · refine h.inuse.trans ?_
      simp [View.pending, hmanager, hpending]
    · obtain ⟨_, rfl⟩ | ⟨_, rfl⟩ := hm <;> simp
  | gone hstage hunused halive _ =>
    refine .gone hstage ⟨hunused.contexts, hunused.closing⟩ halive ?_
    intro m'' heq
    cases heq
    obtain ⟨_, rfl⟩ | ⟨_, rfl⟩ := hm <;> rfl

/-- It finds the process alive, or not. -/
theorem SlotInv.testAlive (h : v.SlotInv) (hmanager : v.manager = some .testAlive) :
    View.SlotInv { v with
      manager := some (if v.slot.alive.value ≠ 0 then .countUse else .freeDead) } := by
  cases h with
  | absent _ _ _ hnone =>
    rw [hmanager] at hnone
    cases hnone
  | starting _ _ _ _ hloading =>
    rw [hmanager] at hloading
    cases hloading
  | running h =>
    rw [if_pos (by rw [h.alive]; decide)]
    refine .running { h with guarded := ?_, inuse := ?_, manager := by simp }
    · apply h.guarded.congr
      intro q
      cases q with
      | manager => simp [View.holds, hmanager, ManagerStage.holds]
      | _ => exact Iff.rfl
    · refine h.inuse.trans ?_
      simp [View.pending, hmanager, ManagerStage.pending]
  | gone hstage hunused halive _ =>
    rw [if_neg (by rw [halive]; decide)]
    refine .gone hstage ⟨hunused.contexts, hunused.closing⟩ halive ?_
    intro m'' heq
    cases heq
    rfl

/-- It counts a use. -/
theorem SlotInv.countUse (h : v.SlotInv) (hmanager : v.manager = some m)
    (hfull : v.slot.inuse.value < Semaphore.SEMVMX)
    (hm : m = .countUse ∧ m' = .freeGuard ∨ m = .shareUse ∧ m' = .shareFree) :
    View.SlotInv { v with
      slot := { v.slot with inuse := v.slot.inuse.release }, manager := some m' } := by
  have hholds : m.holds = true ∧ m'.holds = true := by
    obtain ⟨rfl, rfl⟩ | ⟨rfl, rfl⟩ := hm <;> exact ⟨rfl, rfl⟩
  have hpending : m.pending = 0 ∧ m'.pending = 1 := by
    obtain ⟨rfl, rfl⟩ | ⟨rfl, rfl⟩ := hm <;> exact ⟨rfl, rfl⟩
  cases h with
  | absent _ _ _ hnone =>
    rw [hmanager] at hnone
    cases hnone
  | starting _ _ _ _ hloading =>
    rw [hmanager] at hloading
    cases hloading
    obtain ⟨h, _⟩ | ⟨h, _⟩ := hm <;> cases h
  | running h =>
    have hself : v.holds .manager := ⟨m, hmanager, hholds.1⟩
    refine .running { h with guarded := ?_, inuse := ?_, idle := ?_, manager := ?_ }
    · apply h.guarded.congr
      intro q
      cases q with
      | manager => simp [View.holds, hmanager, hholds]
      | _ => exact Iff.rfl
    · show v.slot.inuse.release.value = _
      rw [Semaphore.value_release hfull, h.inuse]
      simp only [View.pending, hmanager, hpending]
      omega
    · intro hidle
      -- the process cannot have the guard as well
      have hprocess : v.holds .process := Or.inr hidle
      cases h.guarded.unique hself hprocess
    · obtain ⟨_, rfl⟩ | ⟨_, rfl⟩ := hm <;> simp
  | gone hstage hunused halive hpromised =>
    refine .gone hstage ⟨hunused.contexts, hunused.closing⟩ halive ?_
    intro m'' heq
    cases heq
    obtain ⟨rfl, _⟩ | ⟨_, rfl⟩ := hm
    · cases hpromised _ hmanager
    · rfl

/-- It gives the guard back, to a process that it will answer for. -/
theorem SlotInv.freeGuard (h : v.SlotInv) (firstProv : List π) (hmanager : v.manager = some m)
    (hm : m = .freeGuard ∧ m' = .respond ∨ m = .shareFree ∧ m' = .loading) :
    View.SlotInv { v with
      slot := { v.slot with guard := v.slot.guard.release, firstProv := firstProv }
      manager := some m' } := by
  have hholds : m.holds = true ∧ m'.holds = false := by
    obtain ⟨rfl, rfl⟩ | ⟨rfl, rfl⟩ := hm <;> exact ⟨rfl, rfl⟩
  have hpending : m.pending = m'.pending := by
    obtain ⟨rfl, rfl⟩ | ⟨rfl, rfl⟩ := hm <;> rfl
  cases h with
  | absent _ _ _ hnone =>
    rw [hmanager] at hnone
    cases hnone
  | starting _ _ _ _ hloading =>
    rw [hmanager] at hloading
    cases hloading
    obtain ⟨h, _⟩ | ⟨h, _⟩ := hm <;> cases h
  | running h =>
    have hself : v.holds .manager := ⟨m, hmanager, hholds.1⟩
    refine .running { h with guarded := ?_, inuse := ?_, manager := ?_ }
    · apply h.guarded.released hself
      intro q
      cases q with
      | manager => simp [View.holds, hholds.2]
      | process => simp [View.holds]
      | client c => simp [View.holds]
    · refine h.inuse.trans ?_
      simp [View.pending, hmanager, hpending]
    · obtain ⟨_, rfl⟩ | ⟨_, rfl⟩ := hm <;> simp
  | gone hstage hunused halive hpromised =>
    refine .gone hstage ⟨hunused.contexts, hunused.closing⟩ halive ?_
    intro m'' heq
    cases heq
    obtain ⟨rfl, _⟩ | ⟨_, rfl⟩ := hm
    · cases hpromised _ hmanager
    · rfl

/-- It hands a context out: of a process that it has found alive, or that has answered. -/
theorem SlotInv.handOut (h : v.SlotInv) (client : ι) (hmanager : v.manager = some m)
    (hm : m = .respond ∨ m = .loading ∧ (v.slot.stage = .serving ∨ v.slot.stage = .watching ∨
      v.slot.stage = .idle)) :
    View.SlotInv { v with
      slot := { v.slot with
        contexts := ⟨client, v.slot.incarnation⟩ :: v.slot.contexts }
      manager := none } := by
  have hpending : m.pending = 1 := by obtain rfl | ⟨rfl, _⟩ := hm <;> rfl
  have hholds : m.holds = false := by obtain rfl | ⟨rfl, _⟩ := hm <;> rfl
  cases h with
  | absent _ _ _ hnone =>
    rw [hmanager] at hnone
    cases hnone
  | starting _ hstage _ _ hloading =>
    rw [hmanager] at hloading
    cases hloading
    obtain h | ⟨_, h⟩ := hm
    · cases h
    · simp [hstage] at h
  | running h =>
    refine .running { h with
      guarded := ?_, inuse := ?_, idle := ?_, current := ?_, closing := ?_, manager := by simp }
    · apply h.guarded.congr
      intro q
      cases q with
      | manager => simp [View.holds, hmanager, hholds]
      | _ => exact Iff.rfl
    · refine h.inuse.trans ?_
      simp only [View.pending, hmanager, hpending, List.length_cons]
    · intro hidle
      have hzero := h.idle hidle
      rw [h.inuse, View.pending, hmanager] at hzero
      simp only [hpending] at hzero
      omega
    · intro x hx
      cases hx with
      | head => rfl
      | tail _ hx => exact h.current x hx
    · intro c x stage hc hne
      obtain ⟨hx, hclient⟩ := h.closing c x stage hc hne
      exact ⟨List.mem_cons_of_mem _ hx, hclient⟩
  | gone hstage _ _ hpromised =>
    obtain rfl | ⟨_, h⟩ := hm
    · cases hpromised _ hmanager
    · simp [hstage] at h

/-- The process could not load the provider. -/
theorem SlotInv.loadFailed (h : v.SlotInv) (hmanager : v.manager = some .loading)
    (hstage : v.slot.stage = .serving ∨ v.slot.stage = .watching ∨ v.slot.stage = .idle) :
    View.SlotInv { v with
      slot := { v.slot with failed := v.slot.failed + 1 }, manager := none } := by
  cases h with
  | absent habsent => simp [habsent] at hstage
  | starting _ hstarting => simp [hstarting] at hstage
  | running h =>
    refine .running { h with guarded := ?_, inuse := ?_, manager := by simp }
    · apply h.guarded.congr
      intro q
      cases q with
      | manager => simp [View.holds, hmanager, ManagerStage.holds]
      | _ => exact Iff.rfl
    · refine h.inuse.trans ?_
      simp only [View.pending, hmanager, ManagerStage.pending]
      omega
  | gone hgone => simp [hgone] at hstage

/-- The manager forgets a process that is gone. -/
theorem SlotInv.forget (h : v.SlotInv) (hmanager : v.manager = some .freeDead) :
    @View.SlotInv ι π γ { v with
      slot := { v.slot with
        guard := v.slot.guard.release, pid := false, group := none, firstProv := [] }
      manager := none } := by
  cases h with
  | absent _ _ _ hnone =>
    rw [hmanager] at hnone
    cases hnone
  | starting _ _ _ _ hloading =>
    rw [hmanager] at hloading
    cases hloading
  | running h => exact absurd hmanager h.manager
  | gone hstage hunused halive _ =>
    refine .gone hstage ⟨hunused.contexts, hunused.closing⟩ halive ?_
    intro m'' heq
    cases heq

/-- The manager leaves the slot of a process whose end it has heard of. -/
theorem SlotInv.leave (h : v.SlotInv) (hmanager : v.manager = some .loading)
    (hpid : v.slot.pid = false) : View.SlotInv { v with manager := none } := by
  cases h with
  | absent _ _ _ hnone =>
    rw [hmanager] at hnone
    cases hnone
  | starting _ _ htrue =>
    rw [hpid] at htrue
    cases htrue
  | running h =>
    have htrue := h.pid
    rw [hpid] at htrue
    cases htrue
  | gone hstage hunused halive _ =>
    refine .gone hstage ⟨hunused.contexts, hunused.closing⟩ halive ?_
    intro m'' heq
    cases heq

/-- A process is forked into a slot without one. -/
theorem SlotInv.fork (h : v.SlotInv) (hpid : v.slot.pid = false) (group : Option γ)
    (firstProv : List π) (incarnation : Nat) :
    View.SlotInv { v with
      slot := { v.slot with
        stage := .starting 0, pid := true, group := group, firstProv := firstProv
        incarnation := incarnation, failed := 0 }
      manager := some .loading } := by
  have hunused : v.Unused := by
    cases h with
    | absent _ _ hunused => exact hunused
    | starting _ _ htrue =>
      rw [hpid] at htrue
      cases htrue
    | running h =>
      have htrue := h.pid
      rw [hpid] at htrue
      cases htrue
    | gone _ hunused => exact hunused
  refine .starting 0 rfl rfl ⟨hunused.contexts, hunused.closing⟩ rfl rfl ?_
  exact ⟨by omega, by omega, by omega, by omega⟩

end ManagerSteps

/-! ## What the process does -/

section ProcessSteps

variable {v} {guard : Semaphore}

/-- One of the first operations of a new process, but for the last. -/
theorem SlotInv.start (h : v.SlotInv) {d : Nat} (hstage : v.slot.stage = .starting d)
    {guard inuse alive : Semaphore}
    (hstarted : v.Started d → View.Started
      { v with slot := { v.slot with
          guard := guard, inuse := inuse, alive := alive, stage := .starting (d + 1) } }
      (d + 1)) :
    View.SlotInv { v with
      slot := { v.slot with
        guard := guard, inuse := inuse, alive := alive, stage := .starting (d + 1) } } := by
  cases h with
  | absent habsent =>
    rw [hstage] at habsent
    cases habsent
  | starting d' hstage' hpid hunused hmanager hfailed hstarted' =>
    rw [hstage] at hstage'
    cases hstage'
    exact .starting (d + 1) rfl hpid ⟨hunused.contexts, hunused.closing⟩ hmanager hfailed
      (hstarted hstarted')
  | running h =>
    have := h.stage
    simp [hstage] at this
  | gone hgone =>
    rw [hstage] at hgone
    cases hgone

/-- The last of them lets the others in. -/
theorem SlotInv.started (h : v.SlotInv) (hstage : v.slot.stage = .starting 5) :
    View.SlotInv { v with
      slot := { v.slot with guard := v.slot.guard.release, stage := .serving } } := by
  cases h with
  | absent habsent =>
    rw [hstage] at habsent
    cases habsent
  | starting d' hstage' hpid hunused hmanager hfailed hstarted =>
    rw [hstage] at hstage'
    cases hstage'
    have hguard := hstarted.guard (by omega)
    have hinuse := hstarted.inuse (by omega)
    have halive := hstarted.alive (by omega)
    refine .running ⟨.inl rfl, hpid, .inl ⟨?_, ?_⟩, ?_, ?_, ?_, ?_, ?_, ?_⟩
    · show v.slot.guard.release.value = 1
      rw [hguard]
      rfl
    · intro q hq
      cases q with
      | manager =>
        obtain ⟨m, hm, hholds⟩ := hq
        rw [hmanager] at hm
        cases hm
        cases hholds
      | process =>
        obtain h | h := hq <;> cases h
      | client c =>
        have := hunused.closing c
        simp [View.holds, this] at hq
    · exact halive
    · simp [hinuse, hunused.contexts, hfailed, View.pending, hmanager, ManagerStage.pending]
    · intro hidle
      cases hidle
    · intro x hx
      rw [hunused.contexts] at hx
      cases hx
    · intro c x stage hc
      rw [hunused.closing c] at hc
      cases hc
    · simp [hmanager]
  | running h =>
    have := h.stage
    simp [hstage] at this
  | gone hgone =>
    rw [hstage] at hgone
    cases hgone

/-- The stage of a running process. -/
theorem SlotInv.running_of (h : v.SlotInv)
    (hstage : v.slot.stage = .serving ∨ v.slot.stage = .watching ∨ v.slot.stage = .idle) :
    v.Running := by
  cases h with
  | absent habsent => simp [habsent] at hstage
  | starting _ hstarting => simp [hstarting] at hstage
  | running h => exact h
  | gone hgone => simp [hgone] at hstage

/-- The idle thread takes the guard. -/
theorem SlotInv.watch (h : v.SlotInv) (hstage : v.slot.stage = .serving)
    (hguard : v.slot.guard.acquireUnDo false = some guard) :
    View.SlotInv { v with slot := { v.slot with guard := guard, stage := .watching } } := by
  have h := h.running_of (.inl hstage)
  have hpos := Semaphore.pos_of_acquireUnDo hguard
  have hvalue := Semaphore.value_of_acquireUnDo hguard
  refine .running { h with stage := .inr (.inl rfl), guarded := ?_, idle := fun h => by cases h }
  show HeldByOne guard.value _
  rw [hvalue]
  apply h.guarded.taken hpos (p := .process)
  intro q
  cases q with
  | manager => simp [View.holds]
  | process => simp [View.holds]
  | client c => simp [View.holds]

/-- It goes on with the guard, having seen that nobody uses the process. -/
theorem SlotInv.look (h : v.SlotInv) (hstage : v.slot.stage = .watching)
    (hzero : v.slot.inuse.value = 0) :
    View.SlotInv { v with slot := { v.slot with stage := .idle } } := by
  have h := h.running_of (.inr (.inl hstage))
  refine .running { h with stage := .inr (.inr rfl), guarded := ?_, idle := fun _ => hzero }
  apply h.guarded.congr
  intro q
  cases q with
  | process => simp [View.holds, hstage]
  | _ => exact Iff.rfl

/-- It gives the guard back. -/
theorem SlotInv.stay (h : v.SlotInv)
    (hstage : v.slot.stage = .watching ∨ v.slot.stage = .idle) :
    View.SlotInv { v with
      slot := { v.slot with guard := v.slot.guard.release, stage := .serving } } := by
  have h := h.running_of (.inr hstage)
  refine .running { h with stage := .inl rfl, guarded := ?_, idle := fun h => by cases h }
  have hself : v.holds .process := hstage
  apply h.guarded.released hself
  intro q
  cases q with
  | manager => simp [View.holds]
  | process => simp [View.holds]
  | client c => simp [View.holds]

/-- It ends the process. Nobody else has the guard then, and nobody has a context. -/
theorem SlotInv.exit (h : v.SlotInv) (hstage : v.slot.stage = .idle) (guard inuse : Semaphore) :
    View.SlotInv { v with
      slot := { v.slot with
        guard := guard, inuse := inuse, alive := v.slot.alive.processExit, stage := .gone } } := by
  have h := h.running_of (.inr (.inr hstage))
  have hself : v.holds .process := Or.inr hstage
  have hzero := h.inuse
  rw [h.idle hstage] at hzero
  have hcontexts : v.slot.contexts = [] := List.length_eq_zero_iff.mp (by omega)
  refine .gone rfl ⟨hcontexts, fun c => ?_⟩ ?_ ?_
  · show v.closing c = none
    by_contra hne
    have hclient : v.holds (.client c) := Option.isSome_iff_ne_none.mpr hne
    cases h.guarded.unique hself hclient
  · simp [h.alive, Semaphore.processExit]
  · intro m hm
    by_contra hpromised
    rw [Bool.not_eq_false] at hpromised
    have hm : v.manager = some m := hm
    cases hholds : m.holds with
    | true =>
      have hmanager : v.holds .manager := ⟨m, hm, hholds⟩
      cases h.guarded.unique hself hmanager
    | false =>
      have hpending : v.pending = 1 := by
        rw [View.pending, hm]
        cases m <;> simp_all [ManagerStage.promised, ManagerStage.holds, ManagerStage.pending]
      omega

/-- The manager hears of its end. -/
theorem SlotInv.childExit (h : v.SlotInv) (hstage : v.slot.stage = .gone) :
    View.SlotInv { v with slot := { v.slot with pid := false } } := by
  cases h with
  | absent habsent =>
    rw [hstage] at habsent
    cases habsent
  | starting _ hstarting =>
    rw [hstage] at hstarting
    cases hstarting
  | running h =>
    have := h.stage
    simp [hstage] at this
  | gone _ hunused halive hmanager =>
    exact .gone hstage ⟨hunused.contexts, hunused.closing⟩ halive hmanager

end ProcessSteps

/-! ## What clients do -/

section ClientSteps

variable {v} {guard inuse : Semaphore} {c : ι} {x : Context ι}

/-- There is a process if a client has a context of it. -/
theorem SlotInv.running_of_context (h : v.SlotInv) (hx : x ∈ v.slot.contexts) : v.Running := by
  have hne : v.slot.contexts ≠ [] := List.ne_nil_of_mem hx
  cases h with
  | absent _ _ hunused => exact absurd hunused.contexts hne
  | starting _ _ _ hunused => exact absurd hunused.contexts hne
  | running h => exact h
  | gone _ hunused => exact absurd hunused.contexts hne

/-- There is one if a client is closing a context of it. -/
theorem SlotInv.running_of_closing (h : v.SlotInv) (hc : v.closing c ≠ none) : v.Running := by
  cases h with
  | absent _ _ hunused => exact absurd (hunused.closing c) hc
  | starting _ _ _ hunused => exact absurd (hunused.closing c) hc
  | running h => exact h
  | gone _ hunused => exact absurd (hunused.closing c) hc

/-- Its context counts, so `INUSE` is not zero. -/
theorem SlotInv.inuse_pos (h : v.SlotInv) {stage : CloseStage}
    (hc : v.closing c = some (x, stage)) (hne : stage ≠ .freeGuard) : 0 < v.slot.inuse.value := by
  have hrunning := h.running_of_closing (by rw [hc]; simp)
  obtain ⟨hx, _⟩ := hrunning.closing c x stage hc hne
  have hlength := List.length_pos_of_mem hx
  rw [hrunning.inuse]
  omega

variable [DecidableEq ι]

/-- A client takes the guard, for a context that it has. -/
theorem SlotInv.close (h : v.SlotInv) (stage : CloseStage) (hx : x ∈ v.slot.contexts)
    (hclient : x.client = c)
    (hguard : v.slot.guard.acquire false = some guard) :
    View.SlotInv { v with
      slot := { v.slot with guard := guard }
      closing := Function.update v.closing c (some (x, stage)) } := by
  have h := h.running_of_context hx
  have hpos := Semaphore.pos_of_acquire hguard
  refine .running { h with guarded := ?_, closing := ?_ }
  · show HeldByOne guard.value _
    rw [Semaphore.value_of_acquire hguard]
    apply h.guarded.taken hpos (p := .client c)
    intro q
    cases q with
    | manager => simp [View.holds]
    | process => simp [View.holds]
    | client c' =>
      by_cases heq : c' = c
      · simp [View.holds, heq]
      · simp [View.holds, heq]
  · intro c' x' stage hc' hne
    by_cases heq : c' = c
    · subst heq
      simp only [Function.update_self, Option.some.injEq, Prod.mk.injEq] at hc'
      rw [← hc'.1]
      exact ⟨hx, hclient⟩
    · simp only [Function.update_of_ne heq] at hc'
      exact h.closing c' x' stage hc' hne

/-- The clients that are closing stay the same. -/
theorem holds_update {y : Context ι × CloseStage} (hc : v.closing c ≠ none)
    (slot : ProviderProcess ι π γ) (hslot : slot.stage = v.slot.stage) (q : Party ι) :
    View.holds { v with slot := slot, closing := Function.update v.closing c (some y) } q ↔
      v.holds q := by
  cases q with
  | manager => exact Iff.rfl
  | process => simp [View.holds, hslot]
  | client c' =>
    by_cases heq : c' = c
    · subst heq
      simp [View.holds, Option.isSome_iff_ne_none, hc]
    · simp [View.holds, heq]

/-- It has seen that `INUSE` is not zero. -/
theorem SlotInv.testUse (h : v.SlotInv) (hc : v.closing c = some (x, .testUse)) :
    View.SlotInv { v with closing := Function.update v.closing c (some (x, .takeUse)) } := by
  have hnone : v.closing c ≠ none := by rw [hc]; simp
  have h := h.running_of_closing hnone
  refine .running { h with guarded := ?_, closing := ?_ }
  · exact h.guarded.congr (holds_update hnone v.slot rfl)
  · intro c' x' stage hc' hne
    by_cases heq : c' = c
    · subst heq
      simp only [Function.update_self, Option.some.injEq, Prod.mk.injEq] at hc'
      rw [← hc'.1]
      exact h.closing c' x .testUse hc (by simp)
    · simp only [Function.update_of_ne heq] at hc'
      exact h.closing c' x' stage hc' hne

/-- It takes its use away. It is the only client that is closing a context there, and the idle
thread does not have the guard. -/
theorem SlotInv.takeUse (h : v.SlotInv) (hc : v.closing c = some (x, .takeUse))
    (hinuse : v.slot.inuse.acquire false = some inuse) :
    View.SlotInv { v with
      slot := { v.slot with inuse := inuse, contexts := v.slot.contexts.erase x }
      closing := Function.update v.closing c (some (x, .freeGuard)) } := by
  have hnone : v.closing c ≠ none := by rw [hc]; simp
  have h := h.running_of_closing hnone
  have hself : v.holds (.client c) := Option.isSome_iff_ne_none.mpr hnone
  obtain ⟨hx, _⟩ := h.closing c x .takeUse hc (by simp)
  refine .running { h with guarded := ?_, inuse := ?_, idle := ?_, current := ?_, closing := ?_ }
  · exact h.guarded.congr (holds_update hnone _ rfl)
  · show inuse.value = _
    have hlength := List.length_pos_of_mem hx
    rw [Semaphore.value_of_acquire hinuse, h.inuse]
    simp only [View.pending, List.length_erase_of_mem hx]
    omega
  · intro hidle
    have hprocess : v.holds .process := Or.inr hidle
    cases h.guarded.unique hself hprocess
  · intro y hy
    exact h.current y (List.mem_of_mem_erase hy)
  · intro c' x' stage hc' hne
    by_cases heq : c' = c
    · subst heq
      simp only [Function.update_self, Option.some.injEq, Prod.mk.injEq] at hc'
      exact absurd hc'.2.symm hne
    · simp only [Function.update_of_ne heq] at hc'
      have hother : v.holds (.client c') := by
        show (v.closing c').isSome = true
        rw [hc']
        rfl
      cases h.guarded.unique hself hother
      exact absurd rfl heq

/-- It gives the guard back. -/
theorem SlotInv.closed (h : v.SlotInv) (hc : v.closing c = some (x, .freeGuard)) :
    View.SlotInv { v with
      slot := { v.slot with guard := v.slot.guard.release }
      closing := Function.update v.closing c none } := by
  have hnone : v.closing c ≠ none := by rw [hc]; simp
  have h := h.running_of_closing hnone
  have hself : v.holds (.client c) := Option.isSome_iff_ne_none.mpr hnone
  refine .running { h with guarded := ?_, closing := ?_ }
  · apply h.guarded.released hself
    intro q
    cases q with
    | manager => simp [View.holds]
    | process => simp [View.holds]
    | client c' =>
      by_cases heq : c' = c
      · simp [View.holds, heq]
      · simp [View.holds, heq]
  · intro c' x' stage hc' hne
    by_cases heq : c' = c
    · subst heq
      simp only [Function.update_self] at hc'
      cases hc'
    · simp only [Function.update_of_ne heq] at hc'
      exact h.closing c' x' stage hc' hne

end ClientSteps

end View

/-! ## A step concerns one slot -/

section Slots

variable {w w' : Broker n ι π γ} {j k : Fin n} {client : ι} {info : π} {stage : ManagerStage}

@[simp]
theorem Manager.at_ready : (Manager.ready : Manager n ι π).at k = none := rfl

@[simp]
theorem Manager.at_choosing : (Manager.choosing client info : Manager n ι π).at k = none := rfl

@[simp]
theorem Manager.at_self : (Manager.working client info k stage).at k = some stage :=
  if_pos rfl

theorem Manager.at_ne (hne : j ≠ k) : (Manager.working client info k stage).at j = none :=
  if_neg hne.symm

theorem closingAt_self (x : Context ι × CloseStage) : closingAt (some (k, x)) k = some x :=
  if_pos rfl

theorem closingAt_ne (x : Context ι × CloseStage) (hne : j ≠ k) :
    closingAt (some (k, x)) j = none :=
  if_neg hne.symm

/-- A step that concerns one slot only. -/
structure OnlyAt (w w' : Broker n ι π γ) (k : Fin n) : Prop where
  slot : ∀ j, j ≠ k → w'.provProc j = w.provProc j
  manager : ∀ j, j ≠ k → w'.manager.at j = w.manager.at j
  closing : ∀ c j, j ≠ k → closingAt (w'.closing c) j = closingAt (w.closing c) j

theorem OnlyAt.view (h : OnlyAt w w' k) (hne : j ≠ k) : w'.view j = w.view j := by
  have hclosing : (fun c => closingAt (w'.closing c) j) = fun c => closingAt (w.closing c) j :=
    funext fun c => h.closing c j hne
  rw [Broker.view, h.slot j hne, h.manager j hne, hclosing]
  rfl

/-- What holds of the broker at any time. -/
structure BrokerInv (w : Broker n ι π γ) : Prop where
  slots : ∀ k, (w.view k).SlotInv
  loaded : ∀ p k, w.loaded p = some k → (w.provProc k).pid = true ∧ p ∈ (w.provProc k).firstProv

theorem BrokerInv.slots_of (h : BrokerInv w) (honly : OnlyAt w w' k)
    (hslot : (w'.view k).SlotInv) (j : Fin n) : (w'.view j).SlotInv := by
  by_cases heq : j = k
  · rw [heq]
    exact hslot
  · rw [honly.view heq]
    exact h.slots j

/-- A step that leaves the process and its providers as they are. -/
theorem BrokerInv.of_slot (h : BrokerInv w) (honly : OnlyAt w w' k)
    (hslot : (w'.view k).SlotInv) (hloaded : w'.loaded = w.loaded)
    (hpid : (w'.provProc k).pid = (w.provProc k).pid)
    (hfirst : (w'.provProc k).firstProv = (w.provProc k).firstProv) : BrokerInv w' := by
  refine ⟨h.slots_of honly hslot, ?_⟩
  intro p j hp
  rw [hloaded] at hp
  by_cases heq : j = k
  · subst heq
    rw [hpid, hfirst]
    exact h.loaded p j hp
  · rw [honly.slot j heq]
    exact h.loaded p j hp

/-- The manager changes, and the slot that it works in. -/
theorem OnlyAt.manage (s : ProviderProcess ι π γ) (loaded : π → Option (Fin n))
    (manager : Manager n ι π) (seq : Nat)
    (hmanager : ∀ j, j ≠ k → manager.at j = w.manager.at j) :
    OnlyAt w ⟨Function.update w.provProc k s, loaded, manager, w.closing, seq⟩ k where
  slot _ hne := Function.update_of_ne hne _ _
  manager := hmanager
  closing _ _ _ := rfl

/-- A client changes, and the slot that it closes a context in. -/
theorem OnlyAt.close [DecidableEq ι] (s : ProviderProcess ι π γ) (c : ι)
    (y : Option (Fin n × Context ι × CloseStage))
    (hbefore : ∀ j, j ≠ k → closingAt (w.closing c) j = none)
    (hafter : ∀ j, j ≠ k → closingAt y j = none) :
    OnlyAt w { w.setSlot k s with closing := Function.update w.closing c y } k where
  slot _ hne := Function.update_of_ne hne _ _
  manager _ _ := rfl
  closing c' j hne := by
    by_cases heq : c' = c
    · subst heq
      simp only [Function.update_self]
      rw [hafter j hne, hbefore j hne]
    · simp only [Function.update_of_ne heq]

/-- The manager goes on in the slot that it works in, or is done with it. -/
theorem BrokerInv.managed (h : BrokerInv w) (hmanager : w.manager = .working client info k stage)
    {s : ProviderProcess ι π γ} {manager : Manager n ι π}
    (hother : ∀ j, j ≠ k → manager.at j = none) (hpid : s.pid = (w.provProc k).pid)
    (hfirst : s.firstProv = (w.provProc k).firstProv)
    (hslot : View.SlotInv ⟨s, manager.at k, (w.view k).closing⟩) :
    BrokerInv { w.setSlot k s with manager := manager } := by
  have hbefore : ∀ j, j ≠ k → manager.at j = w.manager.at j := by
    intro j hne
    rw [hother j hne, hmanager, Manager.at_ne hne]
  have hself : (w.setSlot k s).provProc k = s := Function.update_self _ _ _
  refine h.of_slot (OnlyAt.manage s w.loaded manager w.seq hbefore) ?_ rfl ?_ ?_
  · rw [Broker.view]
    simp only [hself]
    exact hslot
  · exact (congrArg _ hself).trans hpid
  · exact (congrArg _ hself).trans hfirst

theorem Broker.setSlot_self (w : Broker n ι π γ) (k : Fin n) : w.setSlot k (w.provProc k) = w := by
  rw [Broker.setSlot, Function.update_eq_self]

/-- Taking a guard is a change of the slot. -/
theorem Broker.takeGuard_eq_some (h : w.takeGuard k false = some w') :
    ∃ guard, (w.provProc k).guard.acquire false = some guard ∧
      w' = w.setSlot k { w.provProc k with guard := guard } := by
  rw [Broker.takeGuard, Option.map_eq_some_iff] at h
  obtain ⟨guard, hguard, rfl⟩ := h
  exact ⟨guard, hguard, rfl⟩

theorem Broker.view_manager (hmanager : w.manager = .working client info k stage) :
    (w.view k).manager = some stage := by
  simp [Broker.view, hmanager]

end Slots

section Steps

variable {w w' : Broker n ι π γ} {k : Fin n} {client : ι} {info : π} {stage : ManagerStage}

/-- The manager waits for the guard of a slot, and gets it. -/
theorem BrokerInv.managerGuard (h : BrokerInv w) {m m' : ManagerStage}
    (hmanager : w.manager = .working client info k m)
    (hm : m = .wantGuard ∧ m' = .testAlive ∨ m = .shareGuard ∧ m' = .shareUse)
    (hstep : (w.takeGuard k false).map (fun w => { w with manager := .working client info k m' }) =
      some w') : BrokerInv w' := by
  rw [Option.map_eq_some_iff] at hstep
  obtain ⟨w₁, htaken, rfl⟩ := hstep
  obtain ⟨guard, hguard, rfl⟩ := Broker.takeGuard_eq_some htaken
  refine h.managed hmanager (fun j hne => Manager.at_ne hne) rfl rfl ?_
  rw [Manager.at_self]
  exact (h.slots k).takeGuard (Broker.view_manager hmanager) hm hguard

/-- The manager comes to a slot. -/
theorem BrokerInv.entered (h : BrokerInv w) (hfree : ∀ j, w.manager.at j = none)
    (hpid : (w.provProc k).pid = true) (hm : stage = .wantGuard ∨ stage = .shareGuard) :
    BrokerInv { w with manager := .working client info k stage } := by
  have honly := OnlyAt.manage (w := w) (k := k) (w.provProc k) w.loaded
    (.working client info k stage) w.seq
    (fun j hne => (Manager.at_ne hne).trans (hfree j).symm)
  rw [Function.update_eq_self] at honly
  refine h.of_slot honly ?_ rfl rfl rfl
  have hslot := (h.slots k).enter (hfree k) hpid hm
  rw [Broker.view, Manager.at_self]
  exact hslot

theorem Broker.pid_of_freeSlot (h : w.freeSlot = some k) : (w.provProc k).pid = false := by
  have hfound := List.find?_some h
  simpa using hfound

section Choices

variable [DecidableEq γ]

theorem Broker.pid_of_sharedSlot {group : Option γ} (h : w.sharedSlot group = some k) :
    (w.provProc k).pid = true := by
  rw [Broker.sharedSlot] at h
  split at h
  · have hfound := List.find?_some h
    rw [Bool.and_eq_true] at hfound
    exact hfound.1
  · cases h

end Choices

variable [DecidableEq π]

/-- A new process belongs to its provider alone. -/
theorem BrokerInv.fork (h : BrokerInv w) (hmanager : w.manager = .choosing client info)
    (hpid : (w.provProc k).pid = false) (groupOf : π → Option γ) :
    BrokerInv (w.fork groupOf client info k) := by
  have hnone : w.manager.at k = none := by rw [hmanager]; rfl
  have honly : OnlyAt w (w.fork groupOf client info k) k := by
    apply OnlyAt.manage
    intro j hne
    rw [Manager.at_ne hne, hmanager]
    rfl
  have hslot : (w.fork groupOf client info k).provProc k = { w.provProc k with
      stage := .starting 0, pid := true, group := groupOf info, firstProv := [info]
      incarnation := w.seq + 1, failed := 0 } := Function.update_self _ _ _
  refine ⟨h.slots_of honly ?_, ?_⟩
  · have hforked := (h.slots k).fork hpid (groupOf info) [info] (w.seq + 1)
    rw [Broker.view, hslot]
    have hself : (w.fork groupOf client info k).manager.at k = some .loading := Manager.at_self
    rw [hself]
    exact hforked
  · intro p j hp
    have hp : Function.update w.loaded info (some k) p = some j := hp
    by_cases hinfo : p = info
    · rw [hinfo, Function.update_self, Option.some.injEq] at hp
      rw [← hp, hslot, hinfo]
      exact ⟨rfl, List.mem_singleton.mpr rfl⟩
    · rw [Function.update_of_ne hinfo] at hp
      have hloaded := h.loaded p j hp
      have hne : j ≠ k := by
        intro heq
        rw [heq, hpid] at hloaded
        cases hloaded.1
      rw [honly.slot j hne]
      exact hloaded

/-- The providers of a process that the manager forgets have none any more. -/
theorem BrokerInv.forget (h : BrokerInv w) (hmanager : w.manager = .working client info k .freeDead) :
    BrokerInv { (w.setSlot k { w.provProc k with guard := (w.provProc k).guard.release }).forget k with
      manager := .choosing client info } := by
  set w₁ := w.setSlot k { w.provProc k with guard := (w.provProc k).guard.release } with hw₁
  have hprov : w₁.provProc k = { w.provProc k with guard := (w.provProc k).guard.release } :=
    Function.update_self _ _ _
  have honly : OnlyAt w { w₁.forget k with manager := .choosing client info } k := by
    refine ⟨?_, ?_, fun _ _ _ => rfl⟩
    · intro j hne
      exact (Function.update_of_ne hne _ _).trans (Function.update_of_ne hne _ _)
    · intro j hne
      rw [hmanager, Manager.at_ne hne]
      rfl
  have hslot : (w₁.forget k).provProc k = { w₁.provProc k with
      pid := false, group := none, firstProv := [] } := Function.update_self _ _ _
  refine ⟨h.slots_of honly ?_, ?_⟩
  · rw [Broker.view]
    show View.SlotInv ⟨(w₁.forget k).provProc k, none, _⟩
    rw [hslot, hprov]
    exact (h.slots k).forget (Broker.view_manager hmanager)
  · intro p j hp
    have hp : (if p ∈ (w₁.provProc k).firstProv then none else w.loaded p) = some j := hp
    rw [hprov] at hp
    by_cases hmem : p ∈ (w.provProc k).firstProv
    · rw [if_pos hmem] at hp
      cases hp
    · rw [if_neg hmem] at hp
      have hloaded := h.loaded p j hp
      have hne : j ≠ k := by
        intro heq
        rw [heq] at hloaded
        exact hmem hloaded.2
      rw [honly.slot j hne]
      exact hloaded

/-- A provider joins the process of its group, if that has not ended. -/
theorem BrokerInv.shared (h : BrokerInv w)
    (hmanager : w.manager = .working client info k .shareFree) :
    BrokerInv { w.setSlot k { w.provProc k with
        guard := (w.provProc k).guard.release, firstProv := info :: (w.provProc k).firstProv } with
      loaded := Function.update w.loaded info (if (w.provProc k).pid then some k else none)
      manager := if (w.provProc k).pid then .working client info k .loading else .ready } := by
  set s : ProviderProcess ι π γ := { w.provProc k with
    guard := (w.provProc k).guard.release, firstProv := info :: (w.provProc k).firstProv } with hs
  have honly : OnlyAt w { w.setSlot k s with
      loaded := Function.update w.loaded info (if (w.provProc k).pid then some k else none)
      manager := if (w.provProc k).pid then .working client info k .loading else .ready } k := by
    apply OnlyAt.manage
    intro j hne
    rw [hmanager, Manager.at_ne hne]
    split
    · exact Manager.at_ne hne
    · rfl
  have hself : (w.setSlot k s).provProc k = s := Function.update_self _ _ _
  have hfreed := (h.slots k).freeGuard s.firstProv (Broker.view_manager hmanager) (.inr ⟨rfl, rfl⟩)
  refine ⟨h.slots_of honly ?_, ?_⟩
  · rw [Broker.view]
    simp only [hself]
    cases hpid : (w.provProc k).pid with
    | true =>
      simp only [if_true, Manager.at_self]
      exact hfreed
    | false => exact hfreed.leave rfl hpid
  · intro p j hp
    have hp : Function.update w.loaded info (if (w.provProc k).pid then some k else none) p =
      some j := hp
    by_cases hinfo : p = info
    · rw [hinfo, Function.update_self, Option.ite_none_right_eq_some, Option.some.injEq] at hp
      simp only [← hp.2, hself, hinfo]
      exact ⟨hp.1, List.mem_cons_self⟩
    · rw [Function.update_of_ne hinfo] at hp
      have hloaded := h.loaded p j hp
      by_cases heq : j = k
      · simp only [heq, hself]
        rw [heq] at hloaded
        exact ⟨hloaded.1, List.mem_cons_of_mem _ hloaded.2⟩
      · rw [honly.slot j heq]
        exact hloaded

variable [DecidableEq γ]

/-- What the manager does keeps the invariant. -/
theorem BrokerInv.managerStep (h : BrokerInv w) {groupOf : π → Option γ}
    (hfull : ∀ k, (w.provProc k).inuse.value < Semaphore.SEMVMX)
    (hstep : w.managerStep groupOf false = some w') : BrokerInv w' := by
  rw [Broker.managerStep] at hstep
  cases hmanager : w.manager with
  | ready =>
    rw [hmanager] at hstep
    cases hstep
  | choosing client info =>
    simp only [hmanager] at hstep
    cases hshared : w.sharedSlot (groupOf info) with
    | some k =>
      simp only [hshared, Option.some.injEq] at hstep
      rw [← hstep]
      exact h.entered (by simp [hmanager]) (Broker.pid_of_sharedSlot hshared) (.inr rfl)
    | none =>
      cases hfree : w.freeSlot with
      | some k =>
        simp only [hshared, hfree, Option.some.injEq] at hstep
        rw [← hstep]
        exact h.fork hmanager (Broker.pid_of_freeSlot hfree) groupOf
      | none =>
        simp only [hshared, hfree, Option.some.injEq] at hstep
        rw [← hstep]
        refine ⟨fun k => ?_, h.loaded⟩
        have hslot := h.slots k
        rw [Broker.view, hmanager] at hslot
        exact hslot
  | working client info k stage =>
    have hat := Broker.view_manager hmanager
    simp only [hmanager] at hstep
    cases stage with
    | wantGuard => exact h.managerGuard hmanager (.inl ⟨rfl, rfl⟩) hstep
    | testAlive =>
      rw [Option.some.injEq] at hstep
      rw [← hstep, ← Broker.setSlot_self w k]
      refine h.managed hmanager (fun j hne => Manager.at_ne hne) rfl rfl ?_
      rw [Manager.at_self]
      simp only [Broker.setSlot_self]
      exact (h.slots k).testAlive hat
    | countUse =>
      rw [Option.some.injEq] at hstep
      rw [← hstep]
      refine h.managed hmanager (fun j hne => Manager.at_ne hne) rfl rfl ?_
      rw [Manager.at_self]
      exact (h.slots k).countUse hat (hfull k) (.inl ⟨rfl, rfl⟩)
    | freeGuard =>
      rw [Option.some.injEq] at hstep
      rw [← hstep]
      refine h.managed hmanager (fun j hne => Manager.at_ne hne) rfl rfl ?_
      rw [Manager.at_self]
      exact (h.slots k).freeGuard _ hat (.inl ⟨rfl, rfl⟩)
    | respond =>
      rw [Option.some.injEq] at hstep
      rw [← hstep]
      exact h.managed hmanager (fun j _ => rfl) rfl rfl ((h.slots k).handOut client hat (.inl rfl))
    | freeDead =>
      rw [Option.some.injEq] at hstep
      rw [← hstep]
      exact h.forget hmanager
    | shareGuard => exact h.managerGuard hmanager (.inr ⟨rfl, rfl⟩) hstep
    | shareUse =>
      rw [Option.some.injEq] at hstep
      rw [← hstep]
      refine h.managed hmanager (fun j hne => Manager.at_ne hne) rfl rfl ?_
      rw [Manager.at_self]
      exact (h.slots k).countUse hat (hfull k) (.inr ⟨rfl, rfl⟩)
    | shareFree =>
      rw [Option.some.injEq] at hstep
      rw [← hstep]
      exact h.shared hmanager
    | loading => cases hstep

end Steps

section Others

variable {w w' : Broker n ι π γ} {k : Fin n}

/-- The answer to the manager keeps it. -/
theorem BrokerInv.loadAnswer (h : BrokerInv w) {ok : Bool} (hstep : w.loadAnswer ok = some w') :
    BrokerInv w' := by
  rw [Broker.loadAnswer] at hstep
  split at hstep
  · rename_i client info k hmanager
    have hat := Broker.view_manager hmanager
    simp only at hstep
    by_cases hstage : (w.provProc k).stage = .serving ∨ (w.provProc k).stage = .watching ∨
        (w.provProc k).stage = .idle
    · rw [if_pos hstage] at hstep
      cases ok with
      | true =>
        rw [if_pos rfl, Option.some.injEq] at hstep
        rw [← hstep]
        exact h.managed hmanager (fun j _ => rfl) rfl rfl
          ((h.slots k).handOut client hat (.inr ⟨rfl, hstage⟩))
      | false =>
        rw [if_neg (by simp), Option.some.injEq] at hstep
        rw [← hstep]
        exact h.managed hmanager (fun j _ => rfl) rfl rfl ((h.slots k).loadFailed hat hstage)
    · rw [if_neg hstage] at hstep
      cases hstep
  · cases hstep

/-- A change of one slot that the manager and the clients do not take part in. -/
theorem BrokerInv.setSlot (h : BrokerInv w) {s : ProviderProcess ι π γ}
    (hpid : s.pid = (w.provProc k).pid) (hfirst : s.firstProv = (w.provProc k).firstProv)
    (hslot : View.SlotInv { w.view k with slot := s }) : BrokerInv (w.setSlot k s) := by
  have hself : (w.setSlot k s).provProc k = s := Function.update_self _ _ _
  refine h.of_slot (OnlyAt.manage s w.loaded w.manager w.seq fun _ _ => rfl) ?_ rfl ?_ ?_
  · show ((w.setSlot k s).view k).SlotInv
    rw [Broker.view, hself]
    exact hslot
  · exact (congrArg _ hself).trans hpid
  · exact (congrArg _ hself).trans hfirst

/-- What a new process does keeps it. -/
theorem BrokerInv.startStep (h : BrokerInv w) (hstep : w.startStep k = some w') :
    BrokerInv w' := by
  have hslot := h.slots k
  rw [Broker.startStep] at hstep
  split at hstep
  · rename_i hstage
    rw [Option.some.injEq] at hstep
    rw [← hstep]
    refine h.setSlot rfl rfl (hslot.start hstage fun _ => ?_)
    exact ⟨by omega, fun _ => rfl, by omega, by omega⟩
  · rename_i hstage
    rw [Option.some.injEq] at hstep
    rw [← hstep]
    refine h.setSlot rfl rfl (hslot.start hstage fun hstarted => ?_)
    exact ⟨by omega, fun _ => hstarted.guard (by omega), fun _ => rfl, by omega⟩
  · rename_i hstage
    rw [Option.some.injEq] at hstep
    rw [← hstep]
    refine h.setSlot rfl rfl (hslot.start hstage fun hstarted => ?_)
    exact ⟨by omega, fun _ => hstarted.guard (by omega), fun _ => hstarted.inuse (by omega),
      fun _ => rfl⟩
  · rename_i hstage
    rw [Option.some.injEq] at hstep
    rw [← hstep]
    refine h.setSlot rfl rfl (hslot.start hstage fun hstarted => ?_)
    refine ⟨by omega, fun _ => hstarted.guard (by omega), fun _ => hstarted.inuse (by omega), ?_⟩
    intro _
    have halive : (w.provProc k).alive = ⟨0, 0⟩ := hstarted.alive (by omega)
    show (w.provProc k).alive.releaseUnDo = _
    rw [halive]
    rfl
  · rename_i hstage
    rw [Option.some.injEq] at hstep
    rw [← hstep]
    refine h.setSlot rfl rfl (hslot.start hstage fun hstarted => ?_)
    refine ⟨by omega, fun _ => hstarted.guard (by omega), ?_, fun _ => hstarted.alive (by omega)⟩
    intro _
    have hzero : (w.provProc k).inuse.value = 0 := hstarted.inuse (by omega)
    show (w.provProc k).inuse.releaseUnDo.value = 1
    rw [Semaphore.value_releaseUnDo (by rw [hzero]; decide), hzero]
  · rename_i hstage
    rw [Option.some.injEq] at hstep
    rw [← hstep]
    exact h.setSlot rfl rfl (hslot.started hstage)
  · cases hstep

/-- What the idle thread does keeps it. -/
theorem BrokerInv.watchStep (h : BrokerInv w) (hstep : w.watchStep k false = some w') :
    BrokerInv w' := by
  rw [Broker.watchStep] at hstep
  by_cases hstage : (w.provProc k).stage = .serving
  · rw [if_pos hstage, Option.map_eq_some_iff] at hstep
    obtain ⟨guard, hguard, rfl⟩ := hstep
    exact h.setSlot rfl rfl ((h.slots k).watch hstage hguard)
  · rw [if_neg hstage] at hstep
    cases hstep

theorem BrokerInv.lookStep (h : BrokerInv w) {late : Bool}
    (hstep : w.lookStep k late = some w') : BrokerInv w' := by
  rw [Broker.lookStep] at hstep
  by_cases hstage : (w.provProc k).stage = .watching
  · rw [if_pos hstage] at hstep
    by_cases hidle : (w.provProc k).inuse.value = 0 ∧ late = true
    · rw [if_pos hidle, Option.some.injEq] at hstep
      rw [← hstep]
      exact h.setSlot rfl rfl ((h.slots k).look hstage hidle.1)
    · rw [if_neg hidle, Option.some.injEq] at hstep
      rw [← hstep]
      exact h.setSlot rfl rfl ((h.slots k).stay (.inl hstage))
  · rw [if_neg hstage] at hstep
    cases hstep

theorem BrokerInv.decideStep (h : BrokerInv w) {doNotExit : Bool}
    (hstep : w.decideStep k doNotExit = some w') : BrokerInv w' := by
  rw [Broker.decideStep] at hstep
  by_cases hstage : (w.provProc k).stage = .idle
  · rw [if_pos hstage] at hstep
    cases doNotExit with
    | true =>
      rw [if_pos rfl, Option.some.injEq] at hstep
      rw [← hstep]
      exact h.setSlot rfl rfl ((h.slots k).stay (.inr hstage))
    | false =>
      rw [if_neg (by simp), Option.some.injEq] at hstep
      rw [← hstep]
      exact h.setSlot rfl rfl ((h.slots k).exit hstage _ _)
  · rw [if_neg hstage] at hstep
    cases hstep

/-- So does what the manager does when it hears of the end of a process. -/
theorem BrokerInv.testStartedProc (h : BrokerInv w) (hstep : w.testStartedProc k = some w') :
    BrokerInv w' := by
  rw [Broker.testStartedProc, Option.ite_none_right_eq_some, Option.some.injEq] at hstep
  obtain ⟨⟨hstage, _⟩, rfl⟩ := hstep
  set s : ProviderProcess ι π γ := { w.provProc k with pid := false } with hs
  have hself : (w.setSlot k s).provProc k = s := Function.update_self _ _ _
  have honly := OnlyAt.manage (w := w) (k := k) s
    (fun p => if w.loaded p = some k then none else w.loaded p) w.manager w.seq fun _ _ => rfl
  refine ⟨h.slots_of honly ?_, ?_⟩
  · rw [Broker.view]
    simp only [hself]
    exact (h.slots k).childExit hstage
  · intro p j hp
    have hp : (if w.loaded p = some k then none else w.loaded p) = some j := hp
    rw [Option.ite_none_left_eq_some] at hp
    have hne : j ≠ k := by
      intro heq
      rw [← heq] at hp
      exact hp.1 hp.2
    have hslot : (w.setSlot k s).provProc j = w.provProc j := honly.slot j hne
    simp only [hslot]
    exact h.loaded p j hp.2

/-! ## What clients do keeps it -/

variable [DecidableEq ι]

/-- A client goes on in the slot where it closes a context. -/
theorem BrokerInv.closed (h : BrokerInv w) {s : ProviderProcess ι π γ} {c : ι}
    {y : Option (Context ι × CloseStage)}
    (hbefore : ∀ j, j ≠ k → closingAt (w.closing c) j = none)
    (hpid : s.pid = (w.provProc k).pid) (hfirst : s.firstProv = (w.provProc k).firstProv)
    (hslot : View.SlotInv
      ⟨s, (w.view k).manager, Function.update (w.view k).closing c y⟩) :
    BrokerInv { w.setSlot k s with
      closing := Function.update w.closing c (y.map fun y => (k, y)) } := by
  have hself : (w.setSlot k s).provProc k = s := Function.update_self _ _ _
  have hat : closingAt (y.map fun y => (k, y)) k = y := by
    cases y with
    | none => rfl
    | some y => exact closingAt_self y
  have hafter : ∀ j, j ≠ k → closingAt (y.map fun y => (k, y)) j = none := by
    intro j hne
    cases y with
    | none => rfl
    | some y => exact closingAt_ne y hne
  have hclosing : (fun c' => closingAt (Function.update w.closing c (y.map fun y => (k, y)) c') k) =
      Function.update (w.view k).closing c y := by
    funext c'
    by_cases heq : c' = c
    · rw [heq, Function.update_self, Function.update_self, hat]
    · rw [Function.update_of_ne heq, Function.update_of_ne heq]
      rfl
  refine h.of_slot (OnlyAt.close s c _ hbefore hafter) ?_ rfl ?_ ?_
  · rw [Broker.view]
    simp only [hself, hclosing]
    exact hslot
  · exact (congrArg _ hself).trans hpid
  · exact (congrArg _ hself).trans hfirst

theorem BrokerInv.enterStep (h : BrokerInv w) {client : ι} {incarnation : Nat} {stage : CloseStage}
    (hstep : w.enterStep client k incarnation stage false = some w') : BrokerInv w' := by
  rw [Broker.enterStep] at hstep
  by_cases hopen : w.closing client = none ∧ ⟨client, incarnation⟩ ∈ (w.provProc k).contexts
  · rw [if_pos hopen, Option.map_eq_some_iff] at hstep
    obtain ⟨w₁, htaken, rfl⟩ := hstep
    obtain ⟨guard, hguard, rfl⟩ := Broker.takeGuard_eq_some htaken
    refine h.closed (y := some (⟨client, incarnation⟩, stage)) ?_ rfl rfl ?_
    · intro j _
      rw [hopen.1]
      rfl
    · exact (h.slots k).close stage hopen.2 rfl hguard
  · rw [if_neg hopen] at hstep
    cases hstep

theorem BrokerInv.closingStep (h : BrokerInv w) {client : ι}
    (hstep : w.closingStep client false = some w') : BrokerInv w' := by
  rw [Broker.closingStep] at hstep
  cases hclosing : w.closing client with
  | none =>
    rw [hclosing] at hstep
    cases hstep
  | some place =>
    obtain ⟨k, context, stage⟩ := place
    simp only [hclosing] at hstep
    have hbefore : ∀ j, j ≠ k → closingAt (w.closing client) j = none := by
      intro j hne
      rw [hclosing]
      exact closingAt_ne _ hne
    have hc : (w.view k).closing client = some (context, stage) := by
      show closingAt (w.closing client) k = _
      rw [hclosing]
      exact closingAt_self _
    have hslot := h.slots k
    cases stage with
    | testUse =>
      -- "already zero" does not happen
      have hpos := hslot.inuse_pos hc (by simp)
      have hne : (w.provProc k).inuse.value ≠ 0 := Nat.pos_iff_ne_zero.mp hpos
      have hkept := h.closed (s := w.provProc k) (y := some (context, .takeUse)) hbefore rfl rfl
        (hslot.testUse hc)
      rw [Broker.setSlot_self] at hkept
      rw [if_pos hne, Option.some.injEq] at hstep
      rw [← hstep]
      exact hkept
    | takeUse =>
      rw [Option.map_eq_some_iff] at hstep
      obtain ⟨inuse, hinuse, rfl⟩ := hstep
      exact h.closed (y := some (context, .freeGuard)) hbefore rfl rfl (hslot.takeUse hc hinuse)
    | freeGuard =>
      rw [Option.some.injEq] at hstep
      rw [← hstep]
      exact h.closed (y := none) hbefore rfl rfl (hslot.closed hc)

end Others

/-! ## Runs -/

section Runs

variable {w w' : Broker n ι π γ} {k : Fin n} {groupOf : π → Option γ}

/-- A new broker has neither processes nor contexts. -/
theorem brokerInv_init : BrokerInv (initProvProcCtl n ι π γ) where
  slots _ := .absent rfl rfl ⟨rfl, fun _ => rfl⟩ rfl
  loaded _ _ hp := by cases hp

variable [DecidableEq ι] [DecidableEq π] [DecidableEq γ]

theorem BrokerInv.step (h : BrokerInv w) {a : Action n ι π} (hquiet : a.interrupted = false)
    (hfull : ∀ k, (w.provProc k).inuse.value < Semaphore.SEMVMX)
    (hstep : w.step groupOf a = some w') : BrokerInv w' := by
  cases a with
  | request client info =>
    rw [Broker.step] at hstep
    split at hstep
    · rename_i hready
      have hfree : ∀ j, w.manager.at j = none := fun j => by rw [hready]; rfl
      split at hstep
      · rename_i k hloaded
        rw [Option.some.injEq] at hstep
        rw [← hstep]
        exact h.entered hfree (h.loaded info k hloaded).1 (.inl rfl)
      · rw [Option.some.injEq] at hstep
        rw [← hstep]
        refine ⟨fun k => ?_, h.loaded⟩
        have hslot := h.slots k
        rw [Broker.view, hfree k] at hslot
        exact hslot
    · cases hstep
  | manager interrupted =>
    cases (show interrupted = false from hquiet)
    exact h.managerStep hfull hstep
  | loadAnswer ok => exact h.loadAnswer hstep
  | start k => exact h.startStep hstep
  | watch k interrupted =>
    cases (show interrupted = false from hquiet)
    exact h.watchStep hstep
  | look k late => exact h.lookStep hstep
  | decide k doNotExit => exact h.decideStep hstep
  | childExit k => exact h.testStartedProc hstep
  | opened client k incarnation interrupted =>
    cases (show interrupted = false from hquiet)
    exact h.enterStep hstep
  | close client k incarnation interrupted =>
    cases (show interrupted = false from hquiet)
    exact h.enterStep hstep
  | closing client interrupted =>
    cases (show interrupted = false from hquiet)
    exact h.closingStep hstep

theorem BrokerInv.run {actions : List (Action n ι π)} (h : BrokerInv w)
    (hcalm : w.Undisturbed groupOf actions) (hrun : w.run groupOf actions = some w') :
    BrokerInv w' := by
  induction actions generalizing w with
  | nil =>
    cases hrun
    exact h
  | cons a actions ih =>
    rw [Broker.run, Option.bind_eq_some_iff] at hrun
    obtain ⟨w₁, hstep, hrun⟩ := hrun
    obtain ⟨hquiet, hfull, hcalm⟩ := hcalm
    exact ih (h.step hquiet hfull hstep) (hcalm w₁ hstep) hrun

/-- A client asks for a provider; its process is forked, starts and loads it. -/
def use (k : Fin n) : List (Action n Nat Nat) :=
  [.request 7 0, .manager false] ++ List.replicate 6 (.start k) ++ [.loadAnswer true]

/-- The client closes its context, the process ends, and the client asks once more. -/
def reuse (k : Fin n) : List (Action n Nat Nat) :=
  use k ++ [.opened 7 k 1 false, .closing 7 false, .close 7 k 1 false, .closing 7 false,
    .closing 7 false, .closing 7 false, .watch k false, .look k true, .decide k false,
    .childExit k] ++ use k ++ [.watch k false]

/-- The broker after that. -/
def inUse (k : Fin n) : Broker n Nat Nat Nat :=
  ((initProvProcCtl n Nat Nat Nat).run (fun _ => none) (reuse k)).getD
    (initProvProcCtl n Nat Nat Nat)

theorem undisturbed_reuse :
    (initProvProcCtl 2 Nat Nat Nat).Undisturbed (fun _ => none) (reuse 0) := by decide

theorem run_reuse :
    (initProvProcCtl 2 Nat Nat Nat).run (fun _ => none) (reuse 0) = some (inUse 0) := rfl

end Runs

end Sfcb.ProviderDrv
