import Sfcb.Object.Building

/-!
# Reading objects

The functions that read an object (`objectImpl.c`), and what it means that two objects
cannot be told apart by them (`CimObject.ReadsAs`).

Mirroring notes:
- Strings are given as their texts, an array as what `native_make_CMPIArray` makes of its
  cells, an embedded instance as its bytes. A pointer that was stored as it came is not
  followed: `none`. What it leads to belongs to whoever gave it, so an object with such a
  pointer is not the same elsewhere (`CimObject.SelfContained`).
- An id that the function refuses with `1` has the outcome `some none`. The check lets the
  id behind the last item pass; there is nothing to read there, and the outcome is `none`.
-/

namespace Sfcb.Object

open Sfcb.Lib

/-! ## Values -/

/-- A string, read under another type. -/
def Stored.readText (hdr : ObjectHdr) (type : CMPIType) (d : Stored) : Option CMPIData :=
  (Object.readText hdr d.value).map (⟨type, d.state, ·⟩)

/-- An array. -/
def Stored.readArray (hdr : ObjectHdr) (d : Stored) : Option CMPIData :=
  match d.value with
  | .num 0 => some ⟨d.type, d.state, .nullPtr⟩
  | .num id =>
    ((getClArray hdr id).bind (nativeMakeCMPIArray hdr)).map fun a => ⟨d.type, d.state, .array a⟩
  | .ptr => none

/-- An embedded instance. -/
def Stored.readObject (hdr : ObjectHdr) (d : Stored) : Option CMPIData :=
  match d.value with
  | .num 0 => some ⟨d.type, d.state, .nullPtr⟩
  | .num id => (getClObject hdr id).map fun bytes => ⟨d.type, d.state, .blob bytes⟩
  | .ptr => none

/-- A value that is copied. -/
def Stored.readWord (d : Stored) : Option CMPIData :=
  match d.value with
  | .num n => some ⟨d.type, d.state, .word n⟩
  | .ptr => none

/-- The value of a qualifier. -/
def readQualifierData (hdr : ObjectHdr) (d : Stored) : Option CMPIData :=
  if d.type = CMPIBase.chars.simple then d.readText hdr CMPIBase.string.simple
  else if d.type.array then d.readArray hdr
  else d.readWord

/-- The value of a key. -/
def readKeyData (hdr : ObjectHdr) (d : Stored) : Option CMPIData :=
  if d.type = CMPIBase.chars.simple then d.readText hdr CMPIBase.string.simple
  else if d.type = CMPIBase.dateTime.simple then d.readText hdr d.type
  else d.readWord

/-- The value of a property of an instance, and of an argument. -/
def readPropertyData (hdr : ObjectHdr) (d : Stored) : Option CMPIData :=
  if d.type = CMPIBase.chars.simple then d.readText hdr CMPIBase.string.simple
  else if d.type = CMPIBase.dateTime.simple then d.readText hdr d.type
  else if d.type.array then d.readArray hdr
  else if d.type = CMPIBase.inst.simple then d.readObject hdr
  else d.readWord

/-- The value of a property of a class: null has no value. -/
def readDefaultData (hdr : ObjectHdr) (d : Stored) : Option CMPIData :=
  if isNull d.state then some ⟨d.type, d.state, .word 0⟩ else readPropertyData hdr d

/-! ## Items -/

/-- The item of a section with that id. -/
def itemIn {α β : Type} (s : ClSection α) (id : Int) (read : α → Option (Option β)) :
    Option (Option β) :=
  if id < 0 ∨ id > s.items.length then some none else (s.items[id.toNat]?).bind read

/-- The same where reading itself refuses nothing. -/
def itemAt {α β : Type} (s : ClSection α) (id : Int) (read : α → Option β) :
    Option (Option β) :=
  itemIn s id fun x => (read x).map some

/-- The number of items of an inner section; it is one for an id that is refused. -/
def countIn {α : Type} (s : ClSection α) (id : Int) (count : α → Nat) : Option Nat :=
  if id < 0 ∨ id > s.items.length then some 1 else (s.items[id.toNat]?).map count

/-- What is read of a qualifier. -/
structure QualifierReading where
  data : CMPIData
  name : Option CStr
  deriving DecidableEq, Repr

/-- What is read of a property. -/
structure PropertyReading where
  data : CMPIData
  name : Option CStr
  quals : Nat
  refName : Option CStr
  deriving DecidableEq, Repr

/-- What is read of a method. -/
structure MethodReading where
  type : CMPIType
  name : Option CStr
  quals : Nat
  deriving DecidableEq, Repr

/-- `ClGetQualifierAt`. -/
def clGetQualifierAt (hdr : ObjectHdr) (q : ClQualifier) : Option QualifierReading :=
  (readQualifierData hdr q.data).map (⟨·, getClString hdr q.id⟩)

/-! ## Classes -/

def clClassGetQualifierCount (cls : ClClass) : Nat := cls.qualifiers.items.length

def clClassGetQualifierAt (cls : ClClass) (id : Int) : Option (Option QualifierReading) :=
  itemAt cls.qualifiers id (clGetQualifierAt cls.hdr)

def clClassGetPropertyCount (cls : ClClass) : Nat := cls.properties.items.length

def clClassGetPropertyAt (cls : ClClass) (id : Int) : Option (Option PropertyReading) :=
  itemAt cls.properties id fun p =>
    (readDefaultData cls.hdr p.data).map
      (⟨·, getClString cls.hdr p.id, p.quals, getClString cls.hdr p.refName⟩)

def clClassGetPropQualifierCount (cls : ClClass) (id : Int) : Option Nat :=
  countIn cls.properties id fun p => p.qualifiers.items.length

def clClassGetPropQualifierAt (cls : ClClass) (id qid : Int) : Option (Option QualifierReading) :=
  itemIn cls.properties id fun p => itemAt p.qualifiers qid (clGetQualifierAt cls.hdr)

def clClassGetMethodCount (cls : ClClass) : Nat := cls.methods.items.length

def clClassGetMethodAt (cls : ClClass) (id : Int) : Option (Option MethodReading) :=
  itemAt cls.methods id fun m => some ⟨m.type, getClString cls.hdr m.id, m.quals⟩

def clClassGetMethQualifierCount (cls : ClClass) (id : Int) : Option Nat :=
  countIn cls.methods id fun m => m.qualifiers.items.length

/-- `ClClassGetMethQualifierAt` for the method with that id. -/
def clClassGetMethQualifierAt (cls : ClClass) (id qid : Int) : Option (Option QualifierReading) :=
  itemIn cls.methods id fun m => itemAt m.qualifiers qid (clGetQualifierAt cls.hdr)

def clClassGetMethParameterCount (cls : ClClass) (id : Int) : Option Nat :=
  countIn cls.methods id fun m => m.parameters.items.length

/-- What is read of a parameter. -/
structure ParameterReading where
  parm : CMPIParameter
  name : Option CStr
  deriving DecidableEq, Repr

/-- `ClClassGetMethParameterAt` for the method with that id. -/
def clClassGetMethParameterAt (cls : ClClass) (id pid : Int) : Option (Option ParameterReading) :=
  itemIn cls.methods id fun m =>
    itemAt m.parameters pid fun p =>
      some ⟨⟨p.type, p.arraySize, getClString cls.hdr p.refName⟩, getClString cls.hdr p.id⟩

/-- `ClClassGetMethParamQualifierCount` for the parameter with that id. -/
def clClassGetMethParamQualifierCount (cls : ClClass) (id pid : Int) : Option (Option Nat) :=
  itemIn cls.methods id fun m =>
    itemAt m.parameters pid fun p => some p.qualifiers.items.length

/-- `ClClassGetMethParamQualifierAt` for the parameter with that id. -/
def clClassGetMethParamQualifierAt (cls : ClClass) (id pid qid : Int) :
    Option (Option QualifierReading) :=
  itemIn cls.methods id fun m =>
    itemIn m.parameters pid fun p => itemAt p.qualifiers qid (clGetQualifierAt cls.hdr)

/-- Whatever is read of `cls` is read of `cls'`. -/
structure ClClass.ReadsAs (cls cls' : ClClass) : Prop where
  string : ∀ id, getClString cls'.hdr id = getClString cls.hdr id
  names : cls'.name = cls.name ∧ cls'.parent = cls.parent
  bits : cls'.quals = cls.quals ∧ cls'.parents = cls.parents
  qualifierCount : clClassGetQualifierCount cls' = clClassGetQualifierCount cls
  qualifierAt : ∀ id, clClassGetQualifierAt cls' id = clClassGetQualifierAt cls id
  propertyCount : clClassGetPropertyCount cls' = clClassGetPropertyCount cls
  propertyAt : ∀ id, clClassGetPropertyAt cls' id = clClassGetPropertyAt cls id
  locateProperty : ∀ id, Object.locateProperty cls'.hdr cls'.properties.items id =
    Object.locateProperty cls.hdr cls.properties.items id
  propQualifierCount : ∀ id,
    clClassGetPropQualifierCount cls' id = clClassGetPropQualifierCount cls id
  propQualifierAt : ∀ id qid,
    clClassGetPropQualifierAt cls' id qid = clClassGetPropQualifierAt cls id qid
  methodCount : clClassGetMethodCount cls' = clClassGetMethodCount cls
  methodAt : ∀ id, clClassGetMethodAt cls' id = clClassGetMethodAt cls id
  locateMethod : ∀ id, clClassLocateMethod cls'.hdr cls'.methods.items id =
    clClassLocateMethod cls.hdr cls.methods.items id
  methQualifierCount : ∀ id,
    clClassGetMethQualifierCount cls' id = clClassGetMethQualifierCount cls id
  methQualifierAt : ∀ id qid,
    clClassGetMethQualifierAt cls' id qid = clClassGetMethQualifierAt cls id qid
  methParameterCount : ∀ id,
    clClassGetMethParameterCount cls' id = clClassGetMethParameterCount cls id
  methParameterAt : ∀ id pid,
    clClassGetMethParameterAt cls' id pid = clClassGetMethParameterAt cls id pid
  methParamQualifierCount : ∀ id pid,
    clClassGetMethParamQualifierCount cls' id pid = clClassGetMethParamQualifierCount cls id pid
  methParamQualifierAt : ∀ id pid qid,
    clClassGetMethParamQualifierAt cls' id pid qid = clClassGetMethParamQualifierAt cls id pid qid

/-! ## Instances -/

def clInstanceGetPropertyCount (inst : ClInstance) : Nat := inst.properties.items.length

def clInstanceGetPropertyAt (inst : ClInstance) (id : Int) : Option (Option PropertyReading) :=
  itemAt inst.properties id fun p =>
    (readPropertyData inst.hdr p.data).map (⟨·, getClString inst.hdr p.id, p.quals, none⟩)

def clInstanceIsPropertyAtFiltered (inst : ClInstance) (id : Int) : Option Bool :=
  if id < 0 then none
  else (inst.properties.items[id.toNat]?).map fun p => decide (p.flags &&& filteredFlag ≠ 0)

/-- The qualifiers of an instance, as `ClInstanceToString` goes through them. -/
def clInstanceQualifierAt (inst : ClInstance) (id : Int) : Option (Option QualifierReading) :=
  itemAt inst.qualifiers id (clGetQualifierAt inst.hdr)

/-- Whatever is read of `inst` is read of `inst'`. -/
structure ClInstance.ReadsAs (inst inst' : ClInstance) : Prop where
  string : ∀ id, getClString inst'.hdr id = getClString inst.hdr id
  names : inst'.className = inst.className ∧ inst'.nameSpace = inst.nameSpace
  bits : inst'.quals = inst.quals ∧ inst'.parents = inst.parents
  qualifierAt : ∀ id, clInstanceQualifierAt inst' id = clInstanceQualifierAt inst id
  propertyCount : clInstanceGetPropertyCount inst' = clInstanceGetPropertyCount inst
  propertyAt : ∀ id, clInstanceGetPropertyAt inst' id = clInstanceGetPropertyAt inst id
  provided : ∀ id, getPropertyAt inst' id = getPropertyAt inst id
  filtered : ∀ id, clInstanceIsPropertyAtFiltered inst' id = clInstanceIsPropertyAtFiltered inst id
  locateProperty : ∀ id, Object.locateProperty inst'.hdr inst'.properties.items id =
    Object.locateProperty inst.hdr inst.properties.items id

/-! ## Object paths and arguments -/

def clObjectPathGetKeyCount (op : ClObjectPath) : Nat := op.properties.items.length

def clObjectPathGetKeyAt (op : ClObjectPath) (id : Int) : Option (Option PropertyReading) :=
  itemAt op.properties id fun p =>
    (readKeyData op.hdr p.data).map (⟨·, getClString op.hdr p.id, 0, none⟩)

/-- Whatever is read of `op` is read of `op'`. -/
structure ClObjectPath.ReadsAs (op op' : ClObjectPath) : Prop where
  string : ∀ id, getClString op'.hdr id = getClString op.hdr id
  names : op'.hostName = op.hostName ∧ op'.nameSpace = op.nameSpace ∧ op'.className = op.className
  keyCount : clObjectPathGetKeyCount op' = clObjectPathGetKeyCount op
  keyAt : ∀ id, clObjectPathGetKeyAt op' id = clObjectPathGetKeyAt op id
  locateProperty : ∀ id, Object.locateProperty op'.hdr op'.properties.items id =
    Object.locateProperty op.hdr op.properties.items id

def clArgsGetArgCount (arg : ClArgs) : Nat := arg.properties.items.length

def clArgsGetArgAt (arg : ClArgs) (id : Int) : Option (Option PropertyReading) :=
  itemAt arg.properties id fun p =>
    (readPropertyData arg.hdr p.data).map (⟨·, getClString arg.hdr p.id, 0, none⟩)

/-- Whatever is read of `arg` is read of `arg'`. -/
structure ClArgs.ReadsAs (arg arg' : ClArgs) : Prop where
  string : ∀ id, getClString arg'.hdr id = getClString arg.hdr id
  argCount : clArgsGetArgCount arg' = clArgsGetArgCount arg
  argAt : ∀ id, clArgsGetArgAt arg' id = clArgsGetArgAt arg id
  locateProperty : ∀ id, Object.locateProperty arg'.hdr arg'.properties.items id =
    Object.locateProperty arg.hdr arg.properties.items id

/-! ## Declarations of qualifiers -/

/-- `ClQualifierDeclarationGetQualifierData`: the first of the section. -/
def clQualifierDeclarationGetQualifierData (q : ClQualifierDeclaration) : Option CMPIData :=
  (q.qualifierData.items[0]?).bind fun x => readQualifierData q.hdr x.data

/-- Whatever is read of `q` is read of `q'`. -/
structure ClQualifierDeclaration.ReadsAs (q q' : ClQualifierDeclaration) : Prop where
  string : ∀ id, getClString q'.hdr id = getClString q.hdr id
  names : q'.qualifierName = q.qualifierName ∧ q'.nameSpace = q.nameSpace
  fields : q'.flavor = q.flavor ∧ q'.scope = q.scope ∧ q'.type = q.type ∧
    q'.arraySize = q.arraySize
  data : clQualifierDeclarationGetQualifierData q' = clQualifierDeclarationGetQualifierData q
  all : ∀ id, itemAt q'.qualifierData id (clGetQualifierAt q'.hdr) =
    itemAt q.qualifierData id (clGetQualifierAt q.hdr)

/-! ## Objects of all kinds -/

def ClSection.values (s : ClSection ClQualifier) : List Stored := s.items.map ClQualifier.data

def ClProperty.values (p : ClProperty) : List Stored := p.data :: p.qualifiers.values

def ClMethod.values (m : ClMethod) : List Stored :=
  m.qualifiers.values ++ m.parameters.items.flatMap fun p => p.qualifiers.values

/-- The cells of the arrays. -/
def ObjectHdr.values (hdr : ObjectHdr) : List Stored := (hdr.arrayBuf.map (·.cells)).getD []

/-- All values in an object. -/
def CimObject.values : CimObject → List Stored
  | .cls c => c.qualifiers.values ++ c.properties.items.flatMap ClProperty.values ++
    c.methods.items.flatMap ClMethod.values ++ c.hdr.values
  | .inst i => i.qualifiers.values ++ i.properties.items.flatMap ClProperty.values ++ i.hdr.values
  | .objectPath op => op.properties.items.flatMap ClProperty.values ++ op.hdr.values
  | .args arg => arg.properties.items.flatMap ClProperty.values ++ arg.hdr.values
  | .qualifier q => q.qualifierData.values ++ q.hdr.values

/-- No value is a pointer to something outside of the object. -/
def CimObject.SelfContained (o : CimObject) : Prop := ∀ d ∈ o.values, d.value ≠ .ptr

instance (o : CimObject) : Decidable o.SelfContained :=
  inferInstanceAs (Decidable (∀ d ∈ o.values, d.value ≠ .ptr))

/-- Whatever is read of `o` is read of `o'`. -/
def CimObject.SameReadings : CimObject → CimObject → Prop
  | .cls c, .cls c' => c.ReadsAs c'
  | .inst i, .inst i' => i.ReadsAs i'
  | .objectPath op, .objectPath op' => op.ReadsAs op'
  | .args arg, .args arg' => arg.ReadsAs arg'
  | .qualifier q, .qualifier q' => q.ReadsAs q'
  | _, _ => False

/-- Whatever is read of `o` is read of `o'`, and leads to the same there. -/
structure CimObject.ReadsAs (o o' : CimObject) : Prop where
  sameReadings : o.SameReadings o'
  selfContained : o.SelfContained

end Sfcb.Object
