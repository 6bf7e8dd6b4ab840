import Sfcb.FileRepository.Store
import Sfcb.Paths.NormalizedKeys
import Sfcb.SfcUtil.ListRuns
import Sfcb.SfcUtil.UtilHashtable

/-!
# Following associations

The internal provider answers the four association requests with one function, `getRefs`. It
puts the instances of the association classes into a list, takes those out that do not
reference the object, and returns the rest or what they reference beside the object. A hash
table under the normalized paths keeps it from returning an object twice.

`enumInstances` has the loops over the classes and over the blobs of each class; the list and
the table are those of `genericlist.c` and `hashtable.c`.

Mirroring notes:
- `Cimom` has what is asked of others while one request is served: the class provider, the
  broker's upcalls, the CMPI calls on an instance. Nothing else changes the repository meanwhile.
- A reference that is the null pointer stops the provider when its path is normalized: the
  outcome `none`. So does the assertion of `HashTablePut` that the value is not null.
- The upcalls to the class provider succeed. There is memory.
-/

namespace Sfcb.InternalProvider

open Sfcb.Lib Sfcb.Cmpi Sfcb.Paths Sfcb.FileRepository Sfcb.SfcUtil

variable {ι σ : Type}

/-! ## Paths and properties -/

/-- A path as `normalizeObjectPathStrBuf` writes it: a C string. -/
@[ext] structure NormalPath where
  chars : CStr
  terminated : 0 ∉ chars

instance : DecidableEq NormalPath := fun pn qn =>
  decidable_of_iff (pn.chars = qn.chars) NormalPath.ext_iff.symm

theorem terminated_takeWhile (s : CStr) : 0 ∉ s.takeWhile fun b => b ≠ 0 := by
  intro hzero
  have hne := List.mem_takeWhile_imp hzero
  simp at hne

/-- `normalizeObjectPathStrBuf`. -/
def normalizeObjectPathStrBuf (cop : Cop) : NormalPath :=
  ⟨(normalizeObjectPathCharsDup cop).takeWhile fun b => b ≠ 0, terminated_takeWhile _⟩

/-- `CMPIData` of a property: a reference, if it is not the null pointer, or something else. -/
inductive PropertyData where
  | ref (path : Option Cop)
  | other

/-- What `getConstClass` gives out. -/
structure AssocClass where
  isAssociation : Bool
  properties : List CStr

/-- `cc->ft->getProperty` finds a property, in any case. -/
def AssocClass.has (cc : AssocClass) (name : CStr) : Bool :=
  cc.properties.any fun p => strcasecmp p name == 0

/-- What others answer while a request is served. -/
structure Cimom (ι : Type) where
  /-- `CMGetPropertyCount` and `CMGetPropertyAt`. -/
  properties : ι → List (CStr × PropertyData)
  /-- `CMGetObjectPath`. -/
  objectPath : ι → Cop
  setPropertyFilter : ι → List CStr → List CStr → ι
  getConstClass : CStr → CStr → Option AssocClass
  /-- The class provider, for `classignoreprov`. -/
  getallchildren : CStr → CStr → List CStr
  getassocs : CStr → List (Option CStr)
  /-- `CMClassPathIsA`. -/
  classPathIsA : Cop → CStr → Bool
  /-- `CBGetInstance`, for the list of properties, with its status. -/
  getInstance : Cop → Option (List CStr) → Option ι × CMPIrc
  interopNs : CStr
  pg_interopNs : CStr
  /-- The files of a namespace and a class. -/
  repository : CStr → CStr → Repository
  files : Files
  /-- `relocateSerializedInstance`. -/
  relocated : List UInt8 → ι

namespace Cimom

variable (c : Cimom ι)

/-- `CMGetProperty`; `none` is `CMPI_notFound`. -/
def getProperty (ci : ι) (name : CStr) : Option PropertyData :=
  ((c.properties ci).find? fun p => strcasecmp p.1 name == 0).map (·.2)

/-- `repositoryNs`. -/
def repositoryNs (nss : CStr) : CStr :=
  if strcasecmp nss c.pg_interopNs = 0 then c.interopNs else nss

/-- `getKeyList`. -/
def getKeyList (cop : Cop) : List CStr := cop.keys.map (·.1)

/-! ## Enumerating -/

/-- What `enumInstances` does with an instance before it returns it. -/
def cutDown (properties : Option (List CStr)) (ci : ι) : ι :=
  match properties with
  | some properties => c.setPropertyFilter ci properties (getKeyList (c.objectPath ci))
  | none => ci

/-- `for (ci = ipGetFirst(bi,...); ci; ci = ipGetNext(bi,...))` for a class. -/
def classInstances (ns cn : CStr) : Option (List ι) :=
  (enumerate (c.repository ns cn) c.files (ns.length + cn.length + 64)).map fun visits =>
    visits.map fun v => c.relocated v.blob

/-- `enumInstances`, with `ignprov`. -/
def enumInstances (nss cns : CStr) (properties : Option (List CStr))
    (retFnc : σ → ι → Option σ) (rslt : σ) : Option σ :=
  let bnss := c.repositoryNs nss
  (cns :: c.getallchildren bnss cns).foldlM (fun rslt cn =>
    (c.classInstances bnss cn).bind fun cis =>
      cis.foldlM (fun rslt ci => retFnc rslt (c.cutDown properties ci)) rslt) rslt

/-- `return2lst`. -/
def return2lst (ul : GenericListInfo ι) (ci : ι) : Option (GenericListInfo ι) :=
  ul.addToEnd (some ci)

/-- `assocForName`. -/
def assocForName (nameSpace assocClass : CStr) (role resultRole : Option CStr) :
    Option AssocClass :=
  match c.getConstClass nameSpace assocClass with
  | some cc =>
    if cc.isAssociation && role.all cc.has && resultRole.all cc.has then some cc else none
  | none => none

end Cimom

/-! ## `getRefs` -/

/-- An association request. The namespace of the object is there. -/
structure AssocRequest where
  cop : Cop
  ns : CStr
  assocClass : Option CStr
  resultClass : Option CStr
  role : Option CStr
  resultRole : Option CStr
  propertyList : Option (List CStr)

/-- `associatorFunction`. -/
inductive AssociatorFunction where
  | ASSOC
  | ASSOC_NAME
  | REF
  | REF_NAME
deriving DecidableEq

/-- What is returned through the result. -/
inductive Returned (ι : Type) where
  | instance (ci : ι)
  | objectPath (op : Cop)

namespace Cimom

variable (c : Cimom ι) (q : AssocRequest)

/-- The list of instances that `getRefs` begins with. -/
def collectRefs : Option (GenericListInfo ι) :=
  match q.assocClass with
  | some assocClass =>
    c.enumInstances q.ns assocClass q.propertyList return2lst (initializeList ι)
  | none =>
    (c.getassocs q.ns).foldlM (fun refs name =>
      match name with
      | some name => c.enumInstances q.ns name q.propertyList return2lst refs
      | none => some refs) (initializeList ι)

/-- `objectPathEquals`, with the path of the object normalized. -/
def objectPathEquals (pn : NormalPath) (op : Option Cop) : Option Bool :=
  op.map fun op => decide (normalizeObjectPathStrBuf op = pn)

/-- The loop over the properties of an instance, up to one that references the object. -/
def matched (pn : NormalPath) : List (CStr × PropertyData) → Option Bool
  | [] => some false
  | (_, .other) :: ps => matched pn ps
  | (_, .ref op) :: ps =>
    (objectPathEquals pn op).bind fun eq => if eq then some true else matched pn ps

/-- Whether an instance stays in the list. -/
def stays (ci : ι) : Option Bool :=
  let pn := normalizeObjectPathStrBuf q.cop
  match q.role with
  | some role =>
    match c.getProperty ci role with
    | some (.ref op) => objectPathEquals pn op
    | _ => some false
  | none => matched pn (c.properties ci)

variable [DecidableEq ι]

/-- `newHashTable(61, UtilHashTable_charKey)`, for instances. -/
def newAssocs : HashTable NormalPath ι :=
  hashTableCreate 61 (fun k l => strcmp k.chars l.chars) (fun v w => if v = w then 0 else 1)
    (fun k => charHashFunction k.chars) false false

/-- The table of associators, and the status. -/
abbrev Assocs (ι : Type) : Type := HashTable NormalPath ι × CMPIrc

/-- `assocs->ft->put`. -/
def putAssoc (s : Assocs ι) (an : NormalPath) (aci : Option ι) (rc : CMPIrc) : Option (Assocs ι) :=
  -- `assert(value != NULL)`
  aci.map fun aci => ((s.1.hashTablePut true true an aci).1, rc)

/-- The result class is none, or that of the reference. -/
def isResult (ref : Cop) : Bool := q.resultClass.all fun rc => c.classPathIsA ref rc

/-- With `resultRole`: what that property references is put, without a look at whether it is
there. -/
def associateRole (resultRole : CStr) (s : Assocs ι) (ci : ι) : Option (Assocs ι) :=
  let pn := normalizeObjectPathStrBuf q.cop
  match c.getProperty ci resultRole with
  | some (.ref none) => none
  | some (.ref (some ref)) =>
    let an := normalizeObjectPathStrBuf ref
    if an ≠ pn ∧ c.isResult q ref = true then
      let r := c.getInstance ref q.propertyList
      putAssoc s an r.1 r.2
    else some s
  | _ => some s

/-- A reference in the namespace of the object, unless it has one of its own. -/
def withNameSpace (ns : CStr) (ref : Cop) : Cop :=
  { ref with nameSpace := some (ref.nameSpace.getD ns) }

/-- Without it: a property of the instance. What is not there is not put. -/
def associateProperty (s : Assocs ι) (data : PropertyData) : Option (Assocs ι) :=
  let pn := normalizeObjectPathStrBuf q.cop
  match data with
  | .other => some s
  | .ref none => none
  | .ref (some ref) =>
    let ref := withNameSpace q.ns ref
    let an := normalizeObjectPathStrBuf ref
    if an ≠ pn ∧ c.isResult q ref = true then
      let r := c.getInstance ref q.propertyList
      match r.1 with
      | some aci => putAssoc s an (some aci) r.2
      | none => some (s.1, r.2)
    else some s

/-- The body of the loop over the references. -/
def associate (s : Assocs ι) (ci : ι) : Option (Assocs ι) :=
  match q.resultRole with
  | some resultRole => c.associateRole q resultRole s ci
  | none => (c.properties ci).foldlM (fun s p => c.associateProperty q s p.2) s

/-- What is returned for an instance, as `associatorFunction` says. -/
def returned (name : Bool) (ci : ι) : Returned ι :=
  if name then .objectPath (c.objectPath ci) else .instance ci

/-- The last part: the associators, from the table. -/
def returnAssocs (name : Bool) (s : Assocs ι) : List (Returned ι) × CMPIrc :=
  ((s.1.walk (s.1.numOfElements + 1) s.1.hashTableGetFirst).map fun pair =>
    c.returned name pair.value, s.2)

/-- The parts of `getRefs` behind the enumeration. -/
def returnRefs (associatorFunction : AssociatorFunction) (refs : GenericListInfo ι) :
    Option (List (Returned ι) × CMPIrc) := do
  let (refs, _) ← sweepOrFault (fun _ ci => (c.stays q ci).map fun stays => ((), !stays)) refs ()
  match associatorFunction with
  | .REF | .REF_NAME =>
    let (_, rslt) ← sweepOrFault (fun rslt ci =>
      some (rslt ++ [c.returned (associatorFunction = .REF_NAME) ci], false)) refs []
    return (rslt, .OK)
  | .ASSOC | .ASSOC_NAME =>
    let (_, assocs) ← sweepOrFault (fun s ci => (c.associate q s ci).map fun s => (s, false)) refs
      ((newAssocs, .OK) : Assocs ι)
    return c.returnAssocs (associatorFunction = .ASSOC_NAME) assocs

/-- `getRefs`: what is returned, and the status. -/
def getRefs (associatorFunction : AssociatorFunction) : Option (List (Returned ι) × CMPIrc) :=
  -- for an unknown class we just return nothing
  if q.assocClass.any fun ac => (c.assocForName q.ns ac q.role q.resultRole).isNone then
    some ([], .OK)
  else (c.collectRefs q).bind (c.returnRefs q associatorFunction)

end Cimom

end Sfcb.InternalProvider
