import Sfcb.Cmpi.Status
import Sfcb.Lib.Numeral
import Sfcb.Lib.Pool

/-!
# The class register

The classes of a namespace in `classProvider.c`: a hash table by name, the table of the
children of each class, the schema file both come from, and two counters.

Mirroring notes:
- A class is its name, its superclass, whether it is an association, and the rest of its
  contents, about which nothing is assumed; `merge` is what `cpyClass` makes of the contents
  of a superclass and of a class.
- Names are values. Those that `addClass` puts into the table of the children point into the
  object of the request, which is freed with it; `borrowed` has the classes they are put under.
- A record of the file is read and written as a whole. That a class reads from its record as
  it was written, wherever the record is loaded and however often it is relocated there, is
  the matter of the object layer.
- A file may end in a part of a header or of a body. What is written behind such a part is not
  read as a record; a file to which that has happened is `none`.
- `strcasecmp(a, b) == 0` is `fold a = fold b`, and the hash tables ignore the case of their
  keys, so they are tables of folded names. The order in which a hash table is walked is not
  specified.
- `assocs` and `topAssocs` are of type `int`.
- Left out: messages, `vr` beyond the test of it, a directory without schema file.
-/

namespace Sfcb.ClassProvider

open Sfcb.Lib
open Sfcb.Cmpi (CMPIrc)

variable {γ : Type}

structure Class (γ : Type) where
  name : CStr
  superClass : Option CStr
  isAssociation : Bool
  body : γ
  deriving Repr, DecidableEq

/-- A record of the schema file: a version record, a class, or anything else. -/
inductive Record (γ : Type) where
  | version (id : CStr) (objImplLevel : Nat)
  | cls (c : Class γ)
  | foreign
  deriving Repr, DecidableEq

/-- What comes behind the last record. -/
inductive Ending where
  | none | partOfHeader | partOfBody
  deriving Repr, DecidableEq

structure SchemaFile (γ : Type) where
  records : List (Record γ)
  ending : Ending
  deriving Repr, DecidableEq

structure ClassRegister (γ : Type) where
  ht : Table CStr (Class γ)
  it : Table CStr (List CStr)
  file : Option (SchemaFile γ)
  assocs : Int
  topAssocs : Int
  /-- the keys under which `it` has names that are not its own -/
  borrowed : List CStr

/-! ## Loading -/

/-- `ClCurrentObjImplLevel`. -/
def ClCurrentObjImplLevel : Nat := 3

/-- A schema file as it is staged: a version record, and the classes. -/
def SchemaFile.ofClasses (cs : List (Class γ)) : SchemaFile γ :=
  ⟨.version (lit "sfcb-rep") ClCurrentObjImplLevel :: cs.map .cls, .none⟩

/-- `strncmp(cn,"DMY_",4)==0`. -/
def isDummy (cn : CStr) : Bool := strncmp cn (lit "DMY_") 4 == 0

/-- A class comes into the table and is counted. -/
def ClassRegister.enter (cr : ClassRegister γ) (c : Class γ) : ClassRegister γ :=
  { cr with
    ht := cr.ht.insert (fold c.name) c
    assocs := if c.isAssociation then cInt (cr.assocs + 1) else cr.assocs
    topAssocs := if c.isAssociation ∧ c.superClass = none then cInt (cr.topAssocs + 1)
      else cr.topAssocs }

/-- The loop of `newClassRegister`, with `first`. The outcome `none` is a directory that is
skipped. -/
def loadRecords : (first : Bool) → ClassRegister γ → List (Record γ) → Option (ClassRegister γ)
  | _, cr, [] => some cr
  | true, cr, .version id objImplLevel :: records =>
    if strcmp id (lit "sfcb-rep") ≠ 0 then none
    else if objImplLevel = ClCurrentObjImplLevel then loadRecords false cr records
    else none
  -- `ClVerifyObjImplLevel(NULL)` is -1, and the record is skipped
  | true, cr, .cls _ :: records => loadRecords false cr records
  | false, _, .version _ _ :: _ => none
  | false, cr, .cls c :: records =>
    loadRecords false (if isDummy c.name then cr else cr.enter c) records
  | _, _, .foreign :: _ => none

/-- `ul->ft->prepend`, into a new list if there is none. -/
def addChild (it : Table CStr (List CStr)) (pn cn : CStr) : Table CStr (List CStr) :=
  it.insert (fold pn) (cn :: (it.lookup (fold pn)).getD [])

/-- The loop body of `buildInheritanceTable`. -/
def enterChild (it : Table CStr (List CStr)) (e : Sigma fun _ : CStr => Class γ) :
    Table CStr (List CStr) :=
  match e.2.superClass with
  | none => it
  | some p => addChild it p e.2.name

/-- `buildInheritanceTable`. -/
def buildInheritanceTable (ht : Table CStr (Class γ)) : Table CStr (List CStr) :=
  ht.entries.foldl enterChild ∅

/-- `newClassRegister`. -/
def newClassRegister (file : SchemaFile γ) : Option (ClassRegister γ) :=
  if file.ending = .partOfBody then none
  else (loadRecords true ⟨∅, ∅, some file, 0, 0, []⟩ file.records).map fun cr =>
    { cr with it := buildInheritanceTable cr.ht }

/-! ## Lookups -/

/-- `getClass`. -/
def getClass (cr : ClassRegister γ) (cn : CStr) : Option (Class γ) := cr.ht.lookup (fold cn)

/-- `getChildren`, with the empty list for none. -/
def getChildren (cr : ClassRegister γ) (cn : CStr) : List CStr := (cr.it.lookup (fold cn)).getD []

/-! ## Changes -/

/-- A class is appended to the file. -/
def appendClass (file : Option (SchemaFile γ)) (c : Class γ) : Option (SchemaFile γ) :=
  match file with
  | some ⟨records, .none⟩ => some ⟨records ++ [.cls c], .none⟩
  | _ => none

section Merge

variable (merge : γ → γ → γ)

/-- `mergeParents`: the class with what it inherits. -/
def mergeParents (cr : ClassRegister γ) (cc : Class γ) (p : CStr) : Except CMPIrc (Class γ) :=
  match getClass cr p with
  | none => .error .ERR_INVALID_SUPERCLASS
  | some pcc => .ok
    { cc with
      isAssociation := pcc.isAssociation || cc.isAssociation
      body := merge pcc.body cc.body }

/-- `addClass`: the section of `ClassProviderCreateClass` under the write lock. -/
def addClass (cr : ClassRegister γ) (cc : Class γ) : ClassRegister γ × CMPIrc :=
  match cc.superClass with
  | none => ({ cr.enter cc with file := appendClass cr.file cc }, .OK)
  | some p =>
    match mergeParents merge cr cc p with
    | .error rc => (cr, rc)
    | .ok mc =>
      ({ cr.enter mc with
          file := appendClass cr.file mc
          it := addChild cr.it p cc.name
          borrowed := fold p :: cr.borrowed }, .OK)

/-- `ClassProviderCreateClass`. -/
def createClass (cr : ClassRegister γ) (cc : Class γ) : ClassRegister γ × CMPIrc :=
  if (getClass cr cc.name).isSome then (cr, .ERR_ALREADY_EXISTS)
  else match cc.superClass with
    | none => addClass merge cr cc
    | some pn =>
      if (getClass cr pn).isNone then (cr, .ERR_INVALID_SUPERCLASS) else addClass merge cr cc

end Merge

/-- `removeChild`. -/
def removeChild (it : Table CStr (List CStr)) (pn chd : CStr) : Table CStr (List CStr) :=
  match it.lookup (fold pn) with
  | none => it
  | some ul => it.insert (fold pn) (ul.eraseP fun child => fold child = fold chd)

/-- The record is copied by `removeClass`. -/
def keepRecord (cn : CStr) : Record γ → Bool
  | .cls c => fold cn ≠ fold c.name
  | _ => true

/-- `removeClass`. -/
def removeClass (cr : ClassRegister γ) (cn : CStr) : ClassRegister γ :=
  { cr with
    ht := cr.ht.erase (fold cn)
    file := cr.file.map fun f => ⟨f.records.filter (keepRecord cn), .none⟩ }

/-- The section of `ClassProviderDeleteClass` under the write lock. -/
def deleteSection (cr : ClassRegister γ) (cn : CStr) (pn : Option CStr) : ClassRegister γ :=
  match pn with
  | none => removeClass cr cn
  | some pn => removeClass { cr with it := removeChild cr.it pn cn } cn

/-- `ClassProviderDeleteClass`. -/
def deleteClass (cr : ClassRegister γ) (cn : CStr) : ClassRegister γ × CMPIrc :=
  match getClass cr cn with
  | none => (cr, .ERR_NOT_FOUND)
  | some cl =>
    if (getChildren cr cn).length ≠ 0 then (cr, .ERR_CLASS_HAS_CHILDREN)
    else (deleteSection cr cn cl.superClass, .OK)

/-! ## Runs -/

inductive Request (γ : Type) where
  | create (cc : Class γ)
  | delete (cn : CStr)
  deriving Repr, DecidableEq

def serve (merge : γ → γ → γ) (cr : ClassRegister γ) : Request γ → ClassRegister γ × CMPIrc
  | .create cc => createClass merge cr cc
  | .delete cn => deleteClass cr cn

def run (merge : γ → γ → γ) (cr : ClassRegister γ) : List (Request γ) → ClassRegister γ
  | [] => cr
  | q :: qs => run merge (serve merge cr q).1 qs

/-! ## What the requests do -/

section Requests

variable {merge : γ → γ → γ} {cr : ClassRegister γ} {cc : Class γ} {cn : CStr}

/-- The class that `addClass` stores for `cc`: only what it inherits is added. -/
structure Stores (cc mc : Class γ) : Prop where
  name : mc.name = cc.name
  superClass : mc.superClass = cc.superClass

/-- The register with one more class. -/
def ClassRegister.with (cr : ClassRegister γ) (mc : Class γ) : ClassRegister γ :=
  { cr.enter mc with
    file := appendClass cr.file mc
    it := enterChild cr.it ⟨fold mc.name, mc⟩
    borrowed := (mc.superClass.map fold).toList ++ cr.borrowed }

theorem addClass_cases (merge : γ → γ → γ) (cr : ClassRegister γ) (cc : Class γ) :
    (∃ p, cc.superClass = some p ∧ getClass cr p = none ∧
        addClass merge cr cc = (cr, .ERR_INVALID_SUPERCLASS)) ∨
      ((∀ p, cc.superClass = some p → getClass cr p ≠ none) ∧
        ∃ mc, Stores cc mc ∧ addClass merge cr cc = (cr.with mc, .OK)) := by
  unfold addClass
  cases hsuper : cc.superClass with
  | none =>
    refine Or.inr ⟨by simp, cc, ⟨rfl, rfl⟩, ?_⟩
    simp [ClassRegister.with, ClassRegister.enter, enterChild, hsuper]
  | some p =>
    cases hp : getClass cr p with
    | none => exact Or.inl ⟨p, rfl, hp, by simp [mergeParents, hp]⟩
    | some pcc =>
      refine Or.inr ⟨?_, { cc with
        isAssociation := pcc.isAssociation || cc.isAssociation
        body := merge pcc.body cc.body }, ⟨rfl, rfl⟩, ?_⟩
      · intro q hq
        cases hq
        simp [hp]
      · simp [mergeParents, hp, ClassRegister.with, ClassRegister.enter, enterChild, hsuper]

/-- A creation is refused and changes nothing, or the class is new, its superclass is there,
and it is added. -/
theorem createClass_cases (merge : γ → γ → γ) (cr : ClassRegister γ) (cc : Class γ) :
    (∃ rc, rc ≠ .OK ∧ createClass merge cr cc = (cr, rc)) ∨
      (getClass cr cc.name = none ∧ (∀ p, cc.superClass = some p → getClass cr p ≠ none) ∧
        ∃ mc, Stores cc mc ∧ createClass merge cr cc = (cr.with mc, .OK)) := by
  have hadd : addClass merge cr cc = createClass merge cr cc →
      getClass cr cc.name = none → (∃ rc, rc ≠ .OK ∧ createClass merge cr cc = (cr, rc)) ∨
      (getClass cr cc.name = none ∧ (∀ p, cc.superClass = some p → getClass cr p ≠ none) ∧
        ∃ mc, Stores cc mc ∧ createClass merge cr cc = (cr.with mc, .OK)) := by
    intro heq hnew
    rcases addClass_cases merge cr cc with ⟨p, -, -, h⟩ | ⟨hp, mc, hmc, h⟩
    · exact Or.inl ⟨.ERR_INVALID_SUPERCLASS, by decide, heq ▸ h⟩
    · exact Or.inr ⟨hnew, hp, mc, hmc, heq ▸ h⟩
  cases hnew : getClass cr cc.name with
  | some old => exact Or.inl ⟨.ERR_ALREADY_EXISTS, by decide, by simp [createClass, hnew]⟩
  | none =>
    rw [hnew] at hadd
    cases hsuper : cc.superClass with
    | none => exact hsuper ▸ hadd (by simp [createClass, hnew, hsuper]) rfl
    | some p =>
      cases hp : getClass cr p with
      | none =>
        exact Or.inl ⟨.ERR_INVALID_SUPERCLASS, by decide, by simp [createClass, hnew, hsuper, hp]⟩
      | some pcc => exact hsuper ▸ hadd (by simp [createClass, hnew, hsuper, hp]) rfl

theorem deleteClass_cases (cr : ClassRegister γ) (cn : CStr) :
    (getClass cr cn = none ∧ deleteClass cr cn = (cr, .ERR_NOT_FOUND)) ∨
      ∃ cl, getClass cr cn = some cl ∧
        ((getChildren cr cn ≠ [] ∧ deleteClass cr cn = (cr, .ERR_CLASS_HAS_CHILDREN)) ∨
          (getChildren cr cn = [] ∧
            deleteClass cr cn = (deleteSection cr cn cl.superClass, .OK))) := by
  unfold deleteClass
  cases hcl : getClass cr cn with
  | none => exact Or.inl ⟨rfl, rfl⟩
  | some cl =>
    refine Or.inr ⟨cl, rfl, ?_⟩
    by_cases hchildren : getChildren cr cn = []
    · exact Or.inr ⟨hchildren, by simp [hchildren]⟩
    · exact Or.inl ⟨hchildren, by simp [hchildren]⟩

/-- What a request makes of the register: nothing, one class more or one class less. -/
theorem serve_cases (merge : γ → γ → γ) (cr : ClassRegister γ) (q : Request γ) :
    (serve merge cr q).1 = cr ∨
      (∃ cc mc, q = .create cc ∧ getClass cr cc.name = none ∧
        (∀ p, cc.superClass = some p → getClass cr p ≠ none) ∧ Stores cc mc ∧
        (serve merge cr q).1 = cr.with mc) ∨
      ∃ cn cl, q = .delete cn ∧ getClass cr cn = some cl ∧ getChildren cr cn = [] ∧
        (serve merge cr q).1 = deleteSection cr cn cl.superClass := by
  cases q with
  | create cc =>
    rcases createClass_cases merge cr cc with ⟨rc, -, hrun⟩ | ⟨hnew, hparent, mc, hmc, hrun⟩
    · exact Or.inl (congrArg Prod.fst hrun)
    · exact Or.inr (Or.inl ⟨cc, mc, rfl, hnew, hparent, hmc, congrArg Prod.fst hrun⟩)
  | delete cn =>
    rcases deleteClass_cases cr cn with ⟨-, hrun⟩ | ⟨cl, hcl, ⟨-, hrun⟩ | ⟨hchildren, hrun⟩⟩
    · exact Or.inl (congrArg Prod.fst hrun)
    · exact Or.inl (congrArg Prod.fst hrun)
    · exact Or.inr (Or.inr ⟨cn, cl, rfl, hcl, hchildren, congrArg Prod.fst hrun⟩)

theorem ht_deleteSection (cr : ClassRegister γ) (cn : CStr) (pn : Option CStr) :
    (deleteSection cr cn pn).ht = cr.ht.erase (fold cn) := by
  cases pn <;> rfl

end Requests

/-! ## Names -/

section Names

variable {ht : Table CStr (Class γ)}

/-- Classes stand under their own names. -/
def Keyed (ht : Table CStr (Class γ)) : Prop := ∀ k c, ht.lookup k = some c → fold c.name = k

theorem Keyed.insert {c : Class γ} (h : Keyed ht) : Keyed (ht.insert (fold c.name) c) := by
  intro k d hd
  by_cases hk : k = fold c.name
  · subst hk
    rw [AList.lookup_insert, Option.some.injEq] at hd
    rw [hd]
  · rw [AList.lookup_insert_ne hk] at hd
    exact h k d hd

theorem Keyed.erase (h : Keyed ht) (l : CStr) : Keyed (ht.erase l) := by
  intro k d hd
  by_cases hk : k = l
  · subst hk
    rw [AList.lookup_erase] at hd
    cases hd
  · rw [AList.lookup_erase_ne hk] at hd
    exact h k d hd

theorem keyed_foldl_enter {cr : ClassRegister γ} (h : Keyed cr.ht) (cs : List (Class γ)) :
    Keyed (cs.foldl ClassRegister.enter cr).ht := by
  induction cs generalizing cr with
  | nil => exact h
  | cons c cs ih => exact ih h.insert

end Names

/-! ## What is loaded -/

section Loaded

variable {cr cr' : ClassRegister γ} {file : SchemaFile γ}

def Record.class? : Record γ → Option (Class γ)
  | .cls c => some c
  | _ => none

/-- The class records among the records. -/
def classesOf (records : List (Record γ)) : List (Class γ) := records.filterMap Record.class?

/-- The classes that are entered: not the first record, and no dummy. -/
def loadedClasses (file : SchemaFile γ) : List (Class γ) :=
  (classesOf file.records.tail).filter fun c => !isDummy c.name

/-- The register of the loaded classes. -/
def loadedRegister (file : SchemaFile γ) : ClassRegister γ :=
  { (loadedClasses file).foldl ClassRegister.enter ⟨∅, ∅, some file, 0, 0, []⟩ with
    it := buildInheritanceTable
      ((loadedClasses file).foldl ClassRegister.enter ⟨∅, ∅, some file, 0, 0, []⟩).ht }

/-- A record that a file may begin with. -/
def Record.Leads : Record γ → Prop
  | .version id objImplLevel =>
    strcmp id (lit "sfcb-rep") = 0 ∧ objImplLevel = ClCurrentObjImplLevel
  | .cls _ => True
  | .foreign => False

/-- A file that is loaded. -/
structure Accepted (file : SchemaFile γ) : Prop where
  ending : file.ending ≠ .partOfBody
  leads : ∀ r ∈ file.records.head?, r.Leads
  classes : ∀ r ∈ file.records.tail, ∃ c, r = .cls c

theorem loadRecords_false_iff {records : List (Record γ)} :
    loadRecords false cr records = some cr' ↔ (∀ r ∈ records, ∃ c, r = .cls c) ∧
      cr' = ((classesOf records).filter fun c => !isDummy c.name).foldl ClassRegister.enter cr := by
  induction records generalizing cr with
  | nil => simp [loadRecords, classesOf, eq_comm]
  | cons r records ih =>
    cases r with
    | version id level => simp [loadRecords]
    | foreign => simp [loadRecords]
    | cls c =>
      rw [loadRecords, ih]
      cases hdummy : isDummy c.name <;> simp [classesOf, Record.class?, hdummy]

theorem loadRecords_true_iff {records : List (Record γ)} :
    loadRecords true cr records = some cr' ↔ (∀ r ∈ records.head?, r.Leads) ∧
      loadRecords false cr records.tail = some cr' := by
  cases records with
  | nil => simp [loadRecords]
  | cons r records =>
    cases r with
    | foreign => simp [loadRecords, Record.Leads]
    | cls c => simp [loadRecords, Record.Leads]
    | version id level =>
      rw [loadRecords]
      by_cases hid : strcmp id (lit "sfcb-rep") = 0
      · by_cases hlevel : level = ClCurrentObjImplLevel
        · simp [Record.Leads, hid, hlevel]
        · simp [Record.Leads, hid, hlevel]
      · simp [Record.Leads, hid]

theorem newClassRegister_iff :
    newClassRegister file = some cr ↔ Accepted file ∧ cr = loadedRegister file := by
  unfold newClassRegister
  by_cases hending : file.ending = .partOfBody
  · rw [if_pos hending]
    exact iff_of_false (by simp) fun h => h.1.ending hending
  · rw [if_neg hending, Option.map_eq_some_iff]
    constructor
    · rintro ⟨cr₀, hload, rfl⟩
      obtain ⟨hleads, hload⟩ := loadRecords_true_iff.mp hload
      obtain ⟨hclasses, rfl⟩ := loadRecords_false_iff.mp hload
      exact ⟨⟨hending, hleads, hclasses⟩, rfl⟩
    · rintro ⟨h, rfl⟩
      exact ⟨_, loadRecords_true_iff.mpr ⟨h.leads, loadRecords_false_iff.mpr ⟨h.classes, rfl⟩⟩, rfl⟩

theorem keyed_loadedRegister (file : SchemaFile γ) : Keyed (loadedRegister file).ht :=
  keyed_foldl_enter (fun k c hc => by cases hc) _

end Loaded

end Sfcb.ClassProvider
