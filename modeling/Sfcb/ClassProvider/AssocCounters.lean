import Sfcb.ClassProvider.ClassRegister

/-!
# The association counters

`assocs` and `topAssocs` count the association classes of a register, and those of them without
superclass. They go up where a class is entered; `removeClass` leaves them as they are, and a
class that replaces another one under its name is counted as well. `Counted` says that they are
right, and `getassocs` relies on it: it allocates `topAssocs` elements and stores one for each
class.
-/

namespace Sfcb.ClassProvider

open Sfcb.Lib
open Sfcb.Cmpi (CMPIrc)

variable {γ : Type}

def Class.isTopAssoc (c : Class γ) : Bool := c.isAssociation && c.superClass.isNone

/-! ## The method `getassocs` -/

/-- A `CMPIArray` of strings: null values where nothing has been stored. -/
structure StringArray where
  data : List (Option CStr)
  dynamic : Bool
  deriving Repr, DecidableEq

/-- `CMNewArray`: an array without elements grows. -/
def newArray (size : Nat) : StringArray := ⟨List.replicate size none, size = 0⟩

/-- `CMSetArrayElementAt`; the status is not looked at. -/
def StringArray.setElementAt (a : StringArray) (index : Nat) (v : CStr) : StringArray :=
  if a.dynamic ∧ index = a.data.length then { a with data := a.data ++ [some v] }
  else if index < a.data.length then { a with data := a.data.set index (some v) }
  else a

/-- The names of the top-level association classes, as the table is walked. -/
def topAssocNames (cr : ClassRegister γ) : List CStr :=
  (cr.ht.entries.filter fun e => e.2.isTopAssoc).map fun e => e.2.name

/-- The loop of `getassocs`, from the element `n` on. -/
def storeNames (a : StringArray) (n : Nat) : List CStr → StringArray
  | [] => a
  | cn :: cns => storeNames (a.setElementAt n cn) (n + 1) cns

/-- The number of elements that are allocated: `topAssocs` as a `CMPICount`. -/
def assocsSize (cr : ClassRegister γ) : Nat := (cr.topAssocs % 2 ^ 32).toNat

/-- The method `getassocs`. -/
def getassocs (cr : ClassRegister γ) : StringArray :=
  storeNames (newArray (assocsSize cr)) 0 (topAssocNames cr)

/-- What is stored into null values behind `front` stands behind `front`. -/
theorem storeNames_data {a : StringArray} {front names : List CStr}
    (h : a.data = front.map some ++ List.replicate names.length none) :
    (storeNames a front.length names).data = (front ++ names).map some := by
  induction names generalizing a front with
  | nil => simpa [storeNames] using h
  | cons cn cns ih =>
    have hlt : front.length < a.data.length := by simp [h]
    have hset : (a.setElementAt front.length cn).data =
        (front ++ [cn]).map some ++ List.replicate cns.length none := by
      unfold StringArray.setElementAt
      rw [if_neg fun hgrow => absurd hgrow.2 (by omega), if_pos hlt]
      simp [h, List.replicate_succ]
    have hrest := ih hset
    rw [List.length_append, List.length_singleton, List.append_assoc] at hrest
    exact hrest

/-! ## Counting -/

/-- Both counters are right. -/
structure Counted (cr : ClassRegister γ) : Prop where
  assocs : cr.assocs = Table.count (fun c => c.isAssociation) cr.ht
  topAssocs : cr.topAssocs = Table.count Class.isTopAssoc cr.ht

/-- As many elements are allocated as are stored, and they are all stored. -/
structure AssocsStored (cr : ClassRegister γ) : Prop where
  size : assocsSize cr = (topAssocNames cr).length
  stored : (getassocs cr).data = (topAssocNames cr).map some

theorem length_topAssocNames (cr : ClassRegister γ) :
    (topAssocNames cr).length = Table.count Class.isTopAssoc cr.ht := by
  rw [topAssocNames, List.length_map, ← List.countP_eq_length_filter]
  rfl

theorem AssocsStored.of_size {cr : ClassRegister γ}
    (h : assocsSize cr = (topAssocNames cr).length) : AssocsStored cr := by
  refine ⟨h, ?_⟩
  have hdata : (newArray (assocsSize cr)).data =
      ([] : List CStr).map some ++ List.replicate (topAssocNames cr).length none := by
    rw [h]
    rfl
  exact storeNames_data hdata

section Steps

variable {cr : ClassRegister γ} {c : Class γ}

theorem Counted.topAssocs_le (h : Counted cr) : cr.topAssocs ≤ cr.assocs := by
  rw [h.assocs, h.topAssocs]
  refine Int.ofNat_le.mpr (List.countP_mono_left fun e _ htop => ?_)
  exact (Bool.and_eq_true_iff.mp htop).1

theorem Counted.assocsStored (h : Counted cr) (hlt : cr.assocs < 2 ^ 31) : AssocsStored cr := by
  have hle := h.topAssocs_le
  have hlength := length_topAssocNames cr
  have htop := h.topAssocs
  refine AssocsStored.of_size ?_
  rw [assocsSize, hlength]
  omega

theorem cInt_succ {n : Nat} (h : (n : Int) < 2 ^ 31 - 1) : cInt (n + 1) = ((n + 1 : Nat) : Int) :=
  cInt_of_lt (n := n + 1) (by omega)

/-- A class that replaces no association class is counted once. -/
theorem Counted.enter (h : Counted cr) (hlt : c.isAssociation = true → cr.assocs < 2 ^ 31 - 1)
    (hold : ∀ old, cr.ht.lookup (fold c.name) = some old → old.isAssociation = false) :
    Counted (cr.enter c) := by
  have htopOld : ∀ old, cr.ht.lookup (fold c.name) = some old → old.isTopAssoc = false := by
    intro old hlookup
    rw [Class.isTopAssoc, hold old hlookup]
    rfl
  have hassocs := Table.count_insert_of_not hold c
  have htop := Table.count_insert_of_not htopOld c
  constructor
  · show (if c.isAssociation then cInt (cr.assocs + 1) else cr.assocs) = _
    rw [ClassRegister.enter, hassocs]
    cases hc : c.isAssociation with
    | false => simpa using h.assocs
    | true =>
      have hlt := hlt hc
      rw [h.assocs] at hlt
      rw [if_pos rfl, if_pos rfl, h.assocs]
      exact cInt_succ hlt
  · show (if c.isAssociation ∧ c.superClass = none then cInt (cr.topAssocs + 1)
      else cr.topAssocs) = _
    have hiff : (c.isAssociation ∧ c.superClass = none) ↔ c.isTopAssoc = true := by
      rw [Class.isTopAssoc, Bool.and_eq_true, Option.isNone_iff_eq_none]
    rw [ClassRegister.enter, htop]
    by_cases hc : c.isTopAssoc = true
    · have hlt := Int.lt_of_le_of_lt h.topAssocs_le (hlt (hiff.mpr hc).1)
      rw [h.topAssocs] at hlt
      rw [if_pos (hiff.mpr hc), if_pos hc, h.topAssocs]
      exact cInt_succ hlt
    · rw [if_neg fun hboth => hc (hiff.mp hboth), if_neg hc]
      simpa using h.topAssocs

theorem Counted.enter_assocs (h : Counted cr)
    (hlt : c.isAssociation = true → cr.assocs < 2 ^ 31 - 1) :
    (cr.enter c).assocs = cr.assocs + if c.isAssociation then 1 else 0 := by
  show (if c.isAssociation then cInt (cr.assocs + 1) else cr.assocs) = _
  cases hc : c.isAssociation with
  | false => simp
  | true =>
    have hlt := hlt hc
    rw [h.assocs] at hlt
    rw [if_pos rfl, if_pos rfl, h.assocs, cInt_succ hlt]
    rfl

/-- Loading: no association class is followed by a class of its name. -/
theorem Counted.foldl_enter {cs : List (Class γ)} (h : Counted cr)
    (hnames : cs.Pairwise fun c d => c.isAssociation = true → fold c.name ≠ fold d.name)
    (hold : ∀ c ∈ cs, ∀ old, cr.ht.lookup (fold c.name) = some old → old.isAssociation = false)
    (hlt : cr.assocs + cs.countP (fun c => c.isAssociation) < 2 ^ 31) :
    Counted (cs.foldl ClassRegister.enter cr) ∧
      (cs.foldl ClassRegister.enter cr).assocs < 2 ^ 31 := by
  induction cs generalizing cr with
  | nil => exact ⟨h, by simpa using hlt⟩
  | cons c cs ih =>
    obtain ⟨hlater, hnames⟩ := List.pairwise_cons.mp hnames
    rw [List.countP_cons] at hlt
    have hroom : c.isAssociation = true → cr.assocs < 2 ^ 31 - 1 := by
      intro hc
      rw [if_pos hc] at hlt
      omega
    rw [List.foldl_cons]
    refine ih (h.enter hroom (hold c List.mem_cons_self)) hnames ?_ ?_
    · intro d hd old hlookup
      by_cases heq : fold d.name = fold c.name
      · rw [heq] at hlookup
        have hc : c = old := Option.some.inj ((AList.lookup_insert cr.ht).symm.trans hlookup)
        subst hc
        exact Bool.eq_false_iff.mpr fun hc => hlater d hd hc heq.symm
      · have hlookup : cr.ht.lookup (fold d.name) = some old := by
          simpa [ClassRegister.enter, AList.lookup_insert_ne heq] using hlookup
        exact hold d (List.mem_cons_of_mem c hd) old hlookup
    · rw [h.enter_assocs hroom]
      by_cases hc : c.isAssociation = true
      · rw [if_pos hc] at hlt ⊢
        omega
      · rw [if_neg hc] at hlt ⊢
        omega

/-- A class that is not an association goes without being counted. -/
theorem Counted.without {cn : CStr} {cl : Class γ} (h : Counted cr)
    (hcl : getClass cr cn = some cl) (hassoc : cl.isAssociation = false) :
    Counted (deleteSection cr cn cl.superClass) := by
  have htop : cl.isTopAssoc = false := by
    rw [Class.isTopAssoc, hassoc]
    rfl
  have hassocs := Table.count_erase hcl fun c => c.isAssociation
  have htops := Table.count_erase hcl Class.isTopAssoc
  rw [hassoc] at hassocs
  rw [htop] at htops
  have hkeep : (deleteSection cr cn cl.superClass).assocs = cr.assocs ∧
      (deleteSection cr cn cl.superClass).topAssocs = cr.topAssocs := by
    cases cl.superClass <;> exact ⟨rfl, rfl⟩
  constructor
  · rw [hkeep.1, h.assocs, ht_deleteSection, ← hassocs]
    rfl
  · rw [hkeep.2, h.topAssocs, ht_deleteSection, ← htops]
    rfl

end Steps

/-! ## Runs -/

/-- What keeps the counters right: there is room for one more, and no association class
goes. -/
def Steady (cr : ClassRegister γ) : Request γ → Prop
  | .create _ => cr.assocs < 2 ^ 31 - 1
  | .delete cn => ∀ cl, getClass cr cn = some cl → getChildren cr cn = [] →
    cl.isAssociation = false

def SteadyRun (merge : γ → γ → γ) (cr : ClassRegister γ) : List (Request γ) → Prop
  | [] => True
  | q :: qs => Steady cr q ∧ SteadyRun merge (serve merge cr q).1 qs

theorem Counted.serve {merge : γ → γ → γ} {cr : ClassRegister γ} {q : Request γ} (h : Counted cr)
    (hlt : cr.assocs < 2 ^ 31) (hsteady : Steady cr q) :
    Counted (serve merge cr q).1 ∧ (serve merge cr q).1.assocs < 2 ^ 31 := by
  rcases serve_cases merge cr q with hrun | ⟨cc, mc, rfl, hnew, -, hmc, hrun⟩ |
    ⟨cn, cl, rfl, hcl, hchildren, hrun⟩
  · rw [hrun]
    exact ⟨h, hlt⟩
  · rw [hrun]
    have hsteady : cr.assocs < 2 ^ 31 - 1 := hsteady
    have hroom : mc.isAssociation = true → cr.assocs < 2 ^ 31 - 1 := fun _ => hsteady
    have hold : ∀ old, cr.ht.lookup (fold mc.name) = some old → old.isAssociation = false := by
      intro old hlookup
      have hnone : cr.ht.lookup (fold cc.name) = none := hnew
      rw [hmc.name, hnone] at hlookup
      cases hlookup
    obtain ⟨hassocs, htop⟩ := h.enter hroom hold
    refine ⟨⟨hassocs, htop⟩, ?_⟩
    have hcount := h.enter_assocs hroom
    show (cr.enter mc).assocs < 2 ^ 31
    rw [hcount]
    split <;> omega
  · rw [hrun]
    refine ⟨h.without hcl (hsteady cl hcl hchildren), ?_⟩
    cases cl.superClass <;> exact hlt

theorem Counted.run {merge : γ → γ → γ} {cr : ClassRegister γ} {qs : List (Request γ)}
    (h : Counted cr) (hlt : cr.assocs < 2 ^ 31) (hsteady : SteadyRun merge cr qs) :
    Counted (run merge cr qs) ∧ (run merge cr qs).assocs < 2 ^ 31 := by
  induction qs generalizing cr with
  | nil => exact ⟨h, hlt⟩
  | cons q qs ih =>
    obtain ⟨h', hlt'⟩ := h.serve hlt hsteady.1
    exact ih h' hlt' hsteady.2

/-- The counters are right, and `getassocs` allocates what it stores, in every run that
deletes no association class, from a file in which no association class is followed by
another class of its name. -/
theorem run_counted (merge : γ → γ → γ) {file : SchemaFile γ} {cr : ClassRegister γ}
    (hload : newClassRegister file = some cr)
    (hnames : (loadedClasses file).Pairwise fun c d =>
      c.isAssociation = true → fold c.name ≠ fold d.name)
    (hlt : (loadedClasses file).countP (fun c => c.isAssociation) < 2 ^ 31)
    {qs : List (Request γ)} (hsteady : SteadyRun merge cr qs) :
    Counted (run merge cr qs) ∧ AssocsStored (run merge cr qs) := by
  obtain ⟨-, rfl⟩ := newClassRegister_iff.mp hload
  have hempty : Counted (⟨∅, ∅, some file, 0, 0, []⟩ : ClassRegister γ) := ⟨rfl, rfl⟩
  have hroom : (0 : Int) + (loadedClasses file).countP (fun c => c.isAssociation) < 2 ^ 31 := by
    omega
  obtain ⟨⟨hassocs, htop⟩, hlt⟩ :=
    hempty.foldl_enter hnames (fun c _ old hold => by cases hold) hroom
  have hloaded : Counted (loadedRegister file) := ⟨hassocs, htop⟩
  obtain ⟨h, hlt⟩ := hloaded.run hlt hsteady
  exact ⟨h, h.assocsStored hlt⟩

theorem run_counted_created : ∃ cr,
    newClassRegister (.ofClasses [⟨lit "A", none, true, ()⟩]) = some cr ∧
      Counted (run (fun _ c => c) cr [.create ⟨lit "B", some (lit "A"), true, ()⟩]) := by
  obtain ⟨cr, hload⟩ : ∃ cr,
      newClassRegister (.ofClasses [⟨lit "A", none, true, ()⟩]) = some cr := ⟨_, rfl⟩
  have hsteady : SteadyRun (fun _ c => c) cr [.create ⟨lit "B", some (lit "A"), true, ()⟩] := by
    have hassocs : cr.assocs < 2 ^ 31 - 1 := by
      cases hload
      decide
    exact ⟨hassocs, trivial⟩
  exact ⟨cr, hload, (run_counted (fun _ c => c) hload (by decide) (by decide) hsteady).1⟩

/-- A deleted association class is still counted, and `getassocs` leaves an element null. -/
theorem not_counted_deleted : ∃ cr,
    newClassRegister (.ofClasses [⟨lit "A", none, true, ()⟩]) = some cr ∧
      ¬ Counted (run (fun _ c => c) cr [.delete (lit "A")]) ∧
      ¬ AssocsStored (run (fun _ c => c) cr [.delete (lit "A")]) := by
  refine ⟨_, rfl, fun hcounted => ?_, fun hstored => ?_⟩
  · exact absurd hcounted.assocs (by decide)
  · exact absurd hstored.size (by decide)

end Sfcb.ClassProvider
