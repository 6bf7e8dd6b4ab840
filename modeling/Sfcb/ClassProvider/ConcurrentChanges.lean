import Sfcb.ClassProvider.Inheritance
import Sfcb.ClassProvider.RoundTrip

/-!
# Concurrent changes of the classes

`ClassProviderCreateClass` and `ClassProviderDeleteClass` look the classes up before they take
the write lock, and `addClass` and `removeClass` look up no more than the superclass again. Any
number of requests are under way here, each at a stage of its own, and a schedule says which one
goes on next.

Mirroring notes:
- A stage is what stands between two points where another request may come in: a lookup without
  the lock, or a section under the write lock.
- `cl` is a pointer to a class that stays allocated when it is removed, so the superclass that
  a delete request reads from it is that of its lookup.
- `effects` is there for the statements only: the requests that have taken effect.
-/

namespace Sfcb.ClassProvider

open Sfcb.Lib
open Sfcb.Cmpi (CMPIrc)

variable {γ : Type}

/-- How far a request has come, and what it goes on with. -/
inductive Stage (γ : Type) where
  | lookupClass (cc : Class γ)
  | lookupSuper (cc : Class γ) (pn : CStr)
  | addClass (cc : Class γ)
  | lookupDeleted (cn : CStr)
  | lookupChildren (cn : CStr) (cl : Class γ)
  | removeClass (cn : CStr) (pn : Option CStr)
  | returned (rc : CMPIrc)
  deriving DecidableEq

/-- Where a request begins. -/
def Request.begin : Request γ → Stage γ
  | .create cc => .lookupClass cc
  | .delete cn => .lookupDeleted cn

/-- One stage of a request. -/
def Stage.step (merge : γ → γ → γ) (cr : ClassRegister γ) : Stage γ → ClassRegister γ × Stage γ
  | .lookupClass cc =>
    if (getClass cr cc.name).isSome then (cr, .returned .ERR_ALREADY_EXISTS)
    else match cc.superClass with
      | none => (cr, .addClass cc)
      | some pn => (cr, .lookupSuper cc pn)
  | .lookupSuper cc pn =>
    if (getClass cr pn).isNone then (cr, .returned .ERR_INVALID_SUPERCLASS) else (cr, .addClass cc)
  | .addClass cc =>
    ((ClassProvider.addClass merge cr cc).1, .returned (ClassProvider.addClass merge cr cc).2)
  | .lookupDeleted cn =>
    match getClass cr cn with
    | none => (cr, .returned .ERR_NOT_FOUND)
    | some cl => (cr, .lookupChildren cn cl)
  | .lookupChildren cn cl =>
    if (getChildren cr cn).length ≠ 0 then (cr, .returned .ERR_CLASS_HAS_CHILDREN)
    else (cr, .removeClass cn cl.superClass)
  | .removeClass cn pn => (deleteSection cr cn pn, .returned .OK)
  | .returned rc => (cr, .returned rc)

/-- The stage brought the class into the register, or took it out. -/
def Stage.tookEffect (cr cr' : ClassRegister γ) : Stage γ → Bool
  | .addClass cc => (getClass cr cc.name).isNone && (getClass cr' cc.name).isSome
  | .removeClass cn _ => (getClass cr cn).isSome && (getClass cr' cn).isNone
  | _ => false

structure World (γ : Type) where
  cr : ClassRegister γ
  requests : List (Stage γ)
  effects : List Nat

def World.start (cr : ClassRegister γ) (qs : List (Request γ)) : World γ :=
  ⟨cr, qs.map Request.begin, []⟩

/-- The request `i` goes on. -/
def World.step (merge : γ → γ → γ) (w : World γ) (i : Nat) : World γ :=
  match w.requests[i]? with
  | none => w
  | some s =>
    ⟨(s.step merge w.cr).1, w.requests.set i (s.step merge w.cr).2,
      if s.tookEffect w.cr (s.step merge w.cr).1 then i :: w.effects else w.effects⟩

def World.run (merge : γ → γ → γ) (w : World γ) : List Nat → World γ
  | [] => w
  | i :: schedule => World.run merge (w.step merge i) schedule

/-- A request that is alone does what the request does. -/
theorem run_alone (merge : γ → γ → γ) (cr : ClassRegister γ) (q : Request γ) :
    ((World.start cr [q]).run merge [0, 0, 0]).cr = (serve merge cr q).1 ∧
      ((World.start cr [q]).run merge [0, 0, 0]).requests = [.returned (serve merge cr q).2] := by
  cases q with
  | create cc =>
    cases hnew : getClass cr cc.name with
    | some old => simp [World.run, World.step, World.start, Request.begin, Stage.step, serve,
        createClass, hnew]
    | none =>
      cases hsuper : cc.superClass with
      | none => simp [World.run, World.step, World.start, Request.begin, Stage.step, serve,
          createClass, hnew, hsuper]
      | some pn =>
        cases hp : getClass cr pn <;> simp [World.run, World.step, World.start, Request.begin,
          Stage.step, serve, createClass, hnew, hsuper, hp]
  | delete cn =>
    cases hcl : getClass cr cn with
    | none => simp [World.run, World.step, World.start, Request.begin, Stage.step, serve,
        deleteClass, hcl]
    | some cl =>
      by_cases hchildren : getChildren cr cn = []
      · simp [World.run, World.step, World.start, Request.begin, Stage.step, serve, deleteClass,
          hcl, hchildren]
      · simp [World.run, World.step, World.start, Request.begin, Stage.step, serve, deleteClass,
          hcl, hchildren]

/-! ## The condition -/

/-- What a request has found is still so when it changes the register. -/
def Careful (cr : ClassRegister γ) : Stage γ → Prop
  | .addClass cc => getClass cr cc.name = none
  | .removeClass cn _ => getClass cr cn ≠ none ∧
    ∀ k c p, cr.ht.lookup k = some c → c.superClass = some p → fold p ≠ fold cn
  | _ => True

def CarefulRun (merge : γ → γ → γ) (w : World γ) : List Nat → Prop
  | [] => True
  | i :: schedule =>
    (∀ s, w.requests[i]? = some s → Careful w.cr s) ∧ CarefulRun merge (w.step merge i) schedule

/-! ## The register -/

/-- No two classes have one name. -/
def NamesDiffer (cs : List (Class γ)) : Prop := cs.Pairwise fun c d => fold c.name ≠ fold d.name

/-- The file has every class once, they are all registered, and so are the superclasses. -/
structure FileSound (cr : ClassRegister γ) (records : List (Record γ)) : Prop where
  isFile : cr.file = some ⟨records, .none⟩
  names : NamesDiffer (classesOf records)
  registered : ∀ c ∈ classesOf records, getClass cr c.name ≠ none
  closed : Closed cr

section Steps

variable {cr : ClassRegister γ} {records : List (Record γ)}

theorem FileSound.with {mc : Class γ} (h : FileSound cr records)
    (hnew : getClass cr mc.name = none)
    (hparent : ∀ p, mc.superClass = some p → getClass cr p ≠ none) :
    FileSound (cr.with mc) (records ++ [.cls mc]) := by
  have hkeep : ∀ cn, getClass cr cn ≠ none → getClass (cr.with mc) cn ≠ none :=
    fun cn => getClass_with hnew
  have hclasses : classesOf (records ++ [.cls mc]) = classesOf records ++ [mc] := by
    simp [classesOf, Record.class?]
  refine ⟨?_, ?_, ?_, ?_⟩
  · have hfile : (cr.with mc).file = appendClass cr.file mc := rfl
    rw [hfile, h.isFile]
    rfl
  · rw [hclasses, NamesDiffer, List.pairwise_append]
    refine ⟨h.names, List.pairwise_singleton _ _, ?_⟩
    intro c hc d hd heq
    rw [List.mem_singleton] at hd
    subst hd
    have hsame : getClass cr c.name = getClass cr d.name := by rw [getClass, heq]; rfl
    exact h.registered c hc (hsame.trans hnew)
  · intro c hc
    rw [hclasses, List.mem_append, List.mem_singleton] at hc
    rcases hc with hc | rfl
    · exact hkeep c.name (h.registered c hc)
    · have hlookup : getClass (cr.with c) c.name = some c := AList.lookup_insert _
      rw [hlookup]
      simp
  · exact closed_with h.closed hnew hparent

theorem FileSound.without {cn : CStr} (h : FileSound cr records)
    (hchildren : ∀ k c p, cr.ht.lookup k = some c → c.superClass = some p → fold p ≠ fold cn)
    (pn : Option CStr) :
    FileSound (deleteSection cr cn pn) (records.filter (keepRecord cn)) := by
  have hget : ∀ q, fold q ≠ fold cn → getClass (deleteSection cr cn pn) q = getClass cr q := by
    intro q hq
    rw [getClass, ht_deleteSection, AList.lookup_erase_ne hq]
    rfl
  refine ⟨?_, ?_, ?_, ?_⟩
  · cases pn <;> simp [deleteSection, removeClass, h.isFile]
  · rw [classesOf_filter]
    exact h.names.filter _
  · intro c hc
    rw [classesOf_filter, List.mem_filter] at hc
    have hne : fold c.name ≠ fold cn := fun heq => by simp [heq] at hc
    rw [hget c.name hne]
    exact h.registered c hc.1
  · intro k c p hc hp
    have hk : cr.ht.lookup k = some c := by
      rw [ht_deleteSection] at hc
      by_cases hk : k = fold cn
      · subst hk
        rw [AList.lookup_erase] at hc
        cases hc
      · rwa [AList.lookup_erase_ne hk] at hc
    rw [hget p (hchildren k c p hk hp)]
    exact h.closed k c p hk hp

/-! ## The requests -/

def Stage.succeeded : Stage γ → Bool
  | .returned .OK => true
  | _ => false

/-- A stage without effect leaves the register alone, and the request does not succeed by it. -/
theorem step_lookup (merge : γ → γ → γ) (cr : ClassRegister γ) {s : Stage γ}
    (hadd : ∀ cc, s ≠ .addClass cc)
    (hremove : ∀ cn pn, s ≠ .removeClass cn pn) :
    (s.step merge cr).1 = cr ∧ s.tookEffect cr (s.step merge cr).1 = false ∧
      (s.step merge cr).2.succeeded = s.succeeded := by
  cases s with
  | addClass cc => exact absurd rfl (hadd cc)
  | removeClass cn pn => exact absurd rfl (hremove cn pn)
  | returned rc => exact ⟨rfl, rfl, rfl⟩
  | lookupClass cc =>
    rw [Stage.step]
    split
    · exact ⟨rfl, rfl, rfl⟩
    · cases cc.superClass <;> exact ⟨rfl, rfl, rfl⟩
  | lookupSuper cc pn =>
    rw [Stage.step]
    split <;> exact ⟨rfl, rfl, rfl⟩
  | lookupDeleted cn =>
    rw [Stage.step]
    cases getClass cr cn <;> exact ⟨rfl, rfl, rfl⟩
  | lookupChildren cn cl =>
    rw [Stage.step]
    split <;> exact ⟨rfl, rfl, rfl⟩

/-- A careful stage keeps the file sound, and takes effect exactly if the request succeeds
by it. -/
theorem FileSound.stage (merge : γ → γ → γ) {s : Stage γ} (h : FileSound cr records)
    (hcareful : Careful cr s) :
    (∃ records', FileSound (s.step merge cr).1 records') ∧
      (s.step merge cr).2.succeeded.toNat =
        s.succeeded.toNat + (s.tookEffect cr (s.step merge cr).1).toNat := by
  by_cases hadd : ∃ cc, s = .addClass cc
  · obtain ⟨cc, rfl⟩ := hadd
    have hnew : getClass cr cc.name = none := hcareful
    rcases addClass_cases merge cr cc with ⟨p, -, -, hrun⟩ | ⟨hparent, mc, hmc, hrun⟩
    · rw [Stage.step, hrun]
      exact ⟨⟨records, h⟩, by simp [Stage.succeeded, Stage.tookEffect, hnew]⟩
    · rw [Stage.step, hrun]
      have hadded : getClass (cr.with mc) cc.name = some mc := by
        rw [← hmc.name]
        exact AList.lookup_insert _
      exact ⟨⟨_, h.with (hmc.name ▸ hnew) (hmc.superClass ▸ hparent)⟩,
        by simp [Stage.succeeded, Stage.tookEffect, hnew, hadded]⟩
  · by_cases hremove : ∃ cn pn, s = .removeClass cn pn
    · obtain ⟨cn, pn, rfl⟩ := hremove
      obtain ⟨hcn, hchildren⟩ := hcareful
      have hremoved : getClass (deleteSection cr cn pn) cn = none := by
        rw [getClass, ht_deleteSection, AList.lookup_erase]
      have hregistered : (getClass cr cn).isSome = true := Option.isSome_iff_ne_none.mpr hcn
      exact ⟨⟨_, h.without hchildren pn⟩,
        by simp [Stage.step, Stage.succeeded, Stage.tookEffect, hregistered, hremoved]⟩
    · obtain ⟨hcr, heffect, hsucceeded⟩ := step_lookup merge cr
        (fun cc hs => hadd ⟨cc, hs⟩) (fun cn pn hs => hremove ⟨cn, pn, hs⟩)
      rw [hcr] at heffect ⊢
      rw [heffect, hsucceeded]
      exact ⟨⟨records, h⟩, rfl⟩

end Steps

/-! ## Interleavings -/

/-- What is asked of the system at every point: no class is in the file twice, the
superclasses are registered, and a request that returned OK took effect once. -/
structure Intact (w : World γ) : Prop where
  names : ∃ records, w.cr.file = some ⟨records, .none⟩ ∧ NamesDiffer (classesOf records)
  closed : Closed w.cr
  effects : ∀ i, w.requests[i]? = some (.returned .OK) → w.effects.count i = 1

/-- The invariant: the requests that succeeded are those that took effect. -/
structure Tracked (w : World γ) : Prop where
  file : ∃ records, FileSound w.cr records
  effects : ∀ i s, w.requests[i]? = some s → w.effects.count i = s.succeeded.toNat

section Interleavings

variable {merge : γ → γ → γ} {w : World γ}

theorem Tracked.intact (h : Tracked w) : Intact w := by
  obtain ⟨records, hfile⟩ := h.file
  exact ⟨⟨records, hfile.isFile, hfile.names⟩, hfile.closed, fun i hi => h.effects i _ hi⟩

theorem Tracked.step {i : Nat} (h : Tracked w)
    (hcareful : ∀ s, w.requests[i]? = some s → Careful w.cr s) : Tracked (w.step merge i) := by
  unfold World.step
  cases hs : w.requests[i]? with
  | none => exact h
  | some s =>
    obtain ⟨records, hfile⟩ := h.file
    obtain ⟨hfile', hcount⟩ := hfile.stage merge (hcareful s hs)
    refine ⟨hfile', fun j t hj => ?_⟩
    dsimp only at hj ⊢
    by_cases hij : i = j
    · subst hij
      obtain ⟨hlt, -⟩ := List.getElem?_eq_some_iff.mp hs
      rw [List.getElem?_set_self hlt] at hj
      cases hj
      rw [hcount, ← h.effects i s hs]
      split
      · next heffect => rw [heffect, List.count_cons_self]; rfl
      · next heffect => rw [Bool.eq_false_iff.mpr heffect]; rfl
    · rw [List.getElem?_set_ne hij] at hj
      rw [← h.effects j t hj]
      split
      · exact List.count_cons_of_ne hij
      · rfl

theorem Tracked.run {schedule : List Nat} (h : Tracked w)
    (hcareful : CarefulRun merge w schedule) : Tracked (w.run merge schedule) := by
  induction schedule generalizing w with
  | nil => exact h
  | cons i schedule ih => exact ih (h.step hcareful.1) hcareful.2

end Interleavings

theorem tracked_start {cr : ClassRegister γ} {records : List (Record γ)}
    (h : FileSound cr records) (qs : List (Request γ)) : Tracked (World.start cr qs) := by
  refine ⟨⟨records, h⟩, fun i s hs => ?_⟩
  obtain ⟨q, -, rfl⟩ := List.mem_map.mp (List.mem_of_getElem? hs)
  cases q <;> rfl

/-- Any number of requests keep the register intact, however they are interleaved, as long
as what each one has found is still so when it gets the write lock. -/
theorem run_intact (merge : γ → γ → γ) {records : List (Record γ)} {cr : ClassRegister γ}
    (hload : newClassRegister ⟨records, .none⟩ = some cr) (hplain : Plain ⟨records, .none⟩)
    (hnames : NamesDiffer (classesOf records)) (hclosed : Closed cr) (qs : List (Request γ))
    {schedule : List Nat} (hcareful : CarefulRun merge (World.start cr qs) schedule) :
    Intact ((World.start cr qs).run merge schedule) := by
  obtain ⟨-, rfl⟩ := newClassRegister_iff.mp hload
  have hholds := (holds_loadedRegister_iff _).mpr hplain
  have hregistered : ∀ c ∈ classesOf records, getClass (loadedRegister ⟨records, .none⟩) c.name ≠
      none := by
    intro c hc
    rw [(hholds c).mpr (mem_classesOf.mp hc)]
    simp
  have hfile : FileSound (loadedRegister ⟨records, .none⟩) records :=
    ⟨file_loadedRegister _, hnames, hregistered, hclosed⟩
  exact ((tracked_start hfile qs).run hcareful).intact

theorem run_intact_two : ∃ cr,
    newClassRegister (.ofClasses ([] : List (Class Unit))) = some cr ∧
      Intact ((World.start cr [.create ⟨lit "A", none, false, ()⟩,
        .create ⟨lit "B", none, false, ()⟩]).run (fun _ c => c) [0, 1, 0, 1]) := by
  obtain ⟨cr, hload⟩ : ∃ cr,
      newClassRegister (.ofClasses ([] : List (Class Unit))) = some cr := ⟨_, rfl⟩
  have hclosed : Closed cr := by
    cases hload
    intro k c p hc
    cases hc
  have hplain : Plain (.ofClasses ([] : List (Class Unit))) :=
    ⟨fun c hc => by simp [SchemaFile.ofClasses] at hc,
      fun c hc => by simp [SchemaFile.ofClasses] at hc,
      fun c d hc => by simp [SchemaFile.ofClasses] at hc⟩
  have hcareful : CarefulRun (fun _ c => c) (World.start cr [.create ⟨lit "A", none, false, ()⟩,
      .create ⟨lit "B", none, false, ()⟩]) [0, 1, 0, 1] := by
    cases hload
    refine ⟨fun s hs => ?_, fun s hs => ?_, fun s hs => ?_, fun s hs => ?_, trivial⟩ <;> cases hs
    · trivial
    · trivial
    · rfl
    · rfl
  exact ⟨cr, hload, run_intact _ hload hplain .nil hclosed _ hcareful⟩

/-- Two requests create one class: both find that it is not there. -/
theorem not_intact_twice : ∃ cr,
    newClassRegister (.ofClasses ([] : List (Class Unit))) = some cr ∧
      ¬ Intact ((World.start cr [.create ⟨lit "A", none, false, ()⟩,
        .create ⟨lit "A", none, false, ()⟩]).run (fun _ c => c) [0, 1, 0, 1]) := by
  refine ⟨_, rfl, fun hintact => ?_⟩
  obtain ⟨records, hfile, hnames⟩ := hintact.names
  cases hfile
  have hne : fold (lit "A") ≠ fold (lit "A") :=
    (List.pairwise_cons.mp hnames).1 ⟨lit "A", none, false, ()⟩ (List.mem_singleton_self _)
  exact hne rfl

end Sfcb.ClassProvider
