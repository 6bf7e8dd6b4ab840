import Sfcb.Object.Instance

/-!
# Building objects

Qualifiers, methods and parameters of a class, and the declaration of a qualifier
(`objectImpl.c`). A `Recipe` is how an object of any kind is made and what is added to it,
one operation after the other.

Mirroring notes:
- An item of a section is given by its place there; the source has a pointer to it that
  its caller got from the place.
- An array that comes as the cells of another object (`arrHdr`) is given as the array
  that `native_make_CMPIArray` makes of them.
- `locateParameter` compares `i > prms->used` and so finds nothing: a parameter is added
  each time.
- The flags of a new method are not written (`malloc`); they are `0` here.
-/

namespace Sfcb.Object

open Sfcb.Lib

/-! ## Qualifiers -/

/-- `locateQualifier`, from zero. -/
def locateQualifier (hdr : ObjectHdr) (qlfs : List ClQualifier) (id : CStr) : Option Nat :=
  qlfs.findIdx? fun q =>
    match getClString hdr q.id with
    | none => false
    | some name => strcasecmp id name == 0

/-- The value of a new qualifier. -/
def storeQualifier (hdr : ObjectHdr) (d : CMPIData) : Option (ObjectHdr × Stored) :=
  if isNull d.state then some (hdr, d.raw)
  else if d.type = CMPIBase.chars.simple ∨ d.type = CMPIBase.string.simple then
    match d.value with
    | .text s =>
      (addClString hdr s).map fun r => (r.1, ⟨CMPIBase.chars.simple, d.state, .num r.2⟩)
    | _ => none
  else if d.type.array then
    match d.value with
    | .array a => (addClArray hdr a).map fun r => (r.1, ⟨d.type, d.state, .num r.2⟩)
    | _ => none
  else some (hdr, d.raw)

/-- `addClQualifier`: nothing happens to a qualifier that is there. -/
def addClQualifier (hdr : ObjectHdr) (qlfs : ClSection ClQualifier) (id : CStr) (d : CMPIData) :
    Option (ObjectHdr × ClSection ClQualifier) :=
  match locateQualifier hdr qlfs.items id with
  | some _ => some (hdr, qlfs)
  | none => do
    let (hdr, name) ← addClString hdr id
    let (hdr, data) ← storeQualifier hdr d
    let qlfs ← qlfs.push 4 ⟨name, data⟩
    return (hdr, qlfs)

/-- `ClClass_Q_Abstract`. -/
def qAbstract : Nat := 1

/-- `ClClass_Q_Association`. -/
def qAssociation : Nat := 2

/-- `ClClass_Q_Indication`. -/
def qIndication : Nat := 4

/-- `ClProperty_Q_Key`. -/
def qKey : Nat := 1

/-- `ClClassAddQualifierSpecial`: three qualifiers of a class are bits of it, also where
they come for one of its properties. -/
def clClassAddQualifierSpecial (cls : ClClass) (qlfs : ClSection ClQualifier) (id : CStr)
    (d : CMPIData) : Option (ClClass × ClSection ClQualifier) :=
  if strcasecmp id (lit "Abstract") = 0 then
    some ({ cls with quals := cls.quals ||| qAbstract }, qlfs)
  else if strcasecmp id (lit "Association") = 0 then
    some ({ cls with quals := cls.quals ||| qAssociation }, qlfs)
  else if strcasecmp id (lit "Indication") = 0 then
    some ({ cls with quals := cls.quals ||| qIndication }, qlfs)
  else (addClQualifier cls.hdr qlfs id d).map fun r => ({ cls with hdr := r.1 }, r.2)

/-- `ClClassAddQualifier` for the qualifiers of the class. -/
def clClassAddQualifier (cls : ClClass) (id : CStr) (d : CMPIData) : Option ClClass :=
  (clClassAddQualifierSpecial cls cls.qualifiers id d).map fun r =>
    { r.1 with qualifiers := r.2 }

/-- An item of a section is written. -/
def ClSection.setItem {α : Type} (s : ClSection α) (i : Nat) (item : α) : ClSection α :=
  { s with items := s.items.set i item }

/-- `ClClassAddPropertyQualifierSpecial` for the property at place `i`. -/
def clClassAddPropertyQualifier (cls : ClClass) (i : Nat) (id : CStr) (d : CMPIData) :
    Option ClClass :=
  match cls.properties.items[i]? with
  | none => none
  | some p =>
    if strcasecmp id (lit "key") = 0 then
      some { cls with properties := cls.properties.setItem i { p with quals := p.quals ||| qKey } }
    else if strcasecmp id (lit "embeddedobject") = 0 then
      some { cls with
        properties := cls.properties.setItem i { p with quals := p.quals ||| qEmbeddedObject } }
    else
      (clClassAddQualifierSpecial cls p.qualifiers id d).map fun r =>
        { r.1 with properties := cls.properties.setItem i { p with qualifiers := r.2 } }

/-! ## Methods -/

/-- `ClClassLocateMethod`, from zero. -/
def clClassLocateMethod (hdr : ObjectHdr) (mths : List ClMethod) (id : CStr) : Option Nat :=
  mths.findIdx? fun m =>
    match getClString hdr m.id with
    | none => false
    | some name => strcasecmp id name == 0

/-- `ClClassAddMethod`: a method that is there gets the type. -/
def clClassAddMethod (cls : ClClass) (id : CStr) (t : CMPIType) : Option ClClass :=
  match clClassLocateMethod cls.hdr cls.methods.items id with
  | none => do
    let (hdr, name) ← addClString cls.hdr id
    let methods ← cls.methods.push 8
      { id := name, type := t, flags := 0, quals := 0, originId := 0, qualifiers := .clear,
        parameters := .clear }
    return { cls with hdr, methods }
  | some i =>
    match cls.methods.items[i]? with
    | none => none
    | some m => some { cls with methods := cls.methods.setItem i { m with type := t } }

/-- `ClClassAddMethodQualifier` for the method at place `i`. -/
def clClassAddMethodQualifier (cls : ClClass) (i : Nat) (id : CStr) (d : CMPIData) :
    Option ClClass :=
  match cls.methods.items[i]? with
  | none => none
  | some m =>
    (addClQualifier cls.hdr m.qualifiers id d).map fun r =>
      { cls with hdr := r.1, methods := cls.methods.setItem i { m with qualifiers := r.2 } }

/-! ## Parameters -/

/-- `CMPIParameter` as a caller gives it. -/
structure CMPIParameter where
  type : CMPIType
  arraySize : Nat
  refName : Option CStr
  deriving DecidableEq, Repr

/-- `makeClParameter`. -/
def makeClParameter (hdr : ObjectHdr) (id : CStr) (cp : CMPIParameter) :
    Option (ObjectHdr × ClParameter) := do
  let (hdr, name) ← addClString hdr id
  let (hdr, ref) ← addClStringOrNone hdr cp.refName
  return (hdr, { id := name, type := cp.type, arraySize := cp.arraySize, refName := ref,
                 quals := 0, qualifiers := .clear })

/-- `ClClassAddMethParameter` for the method at place `i`. -/
def clClassAddMethParameter (cls : ClClass) (i : Nat) (id : CStr) (cp : CMPIParameter) :
    Option ClClass :=
  match cls.methods.items[i]? with
  | none => none
  | some m => do
    let (hdr, p) ← makeClParameter cls.hdr id cp
    let parameters ← m.parameters.push 4 p
    return { cls with hdr, methods := cls.methods.setItem i { m with parameters } }

/-- `ClClassAddMethParamQualifier` for the parameter at place `j` of the method at
place `i`. -/
def clClassAddMethParamQualifier (cls : ClClass) (i j : Nat) (id : CStr) (d : CMPIData) :
    Option ClClass :=
  match cls.methods.items[i]? with
  | none => none
  | some m =>
    match m.parameters.items[j]? with
    | none => none
    | some p =>
      (addClQualifier cls.hdr p.qualifiers id d).map fun r =>
        { cls with
          hdr := r.1
          methods := cls.methods.setItem i
            { m with parameters := m.parameters.setItem j { p with qualifiers := r.2 } } }

/-- `ClClassAddGrandParent`; the count is one byte. -/
def clClassAddGrandParent (cls : ClClass) (gp : CStr) : Option ClClass :=
  (addClString cls.hdr gp).map fun r =>
    { cls with hdr := r.1, parents := (cls.parents + 1) % 2 ^ 8 }

/-! ## Declarations of qualifiers -/

/-- `ClQualifierDeclaration`. -/
structure ClQualifierDeclaration where
  hdr : ObjectHdr
  flavor : Nat
  scope : Nat
  type : CMPIType
  arraySize : Nat
  qualifierName : Nat
  nameSpace : Nat
  qualifierData : ClSection ClQualifier
  deriving DecidableEq, Repr

/-- `newQualifierDeclarationH`. -/
def newQualifierDeclarationH (ns name : Option CStr) : Option ClQualifierDeclaration := do
  let (hdr, qualifierName) ← addClStringOrNone (.new .qualifier) name
  let (hdr, nameSpace) ← addClStringOrNone hdr ns
  return { hdr, flavor := 0, scope := 0, type := CMPIBase.null.simple, arraySize := 0,
           qualifierName, nameSpace, qualifierData := .clear }

/-! ## Strings of an object path -/

/-- `ClObjectPathSetHostName` and its siblings: a string that is there is replaced. -/
def setPathString (hdr : ObjectHdr) (id : Nat) (s : Option CStr) : Option (ObjectHdr × Nat) :=
  if id ≠ 0 then
    match s with
    | none => none
    | some s => (replaceClString hdr id s).map (·, id)
  else addClStringOrNone hdr s

/-- `ClObjectPathSetHostName`. -/
def clObjectPathSetHostName (op : ClObjectPath) (hn : Option CStr) : Option ClObjectPath :=
  (setPathString op.hdr op.hostName hn).map fun r => { op with hdr := r.1, hostName := r.2 }

/-- `ClObjectPathSetNameSpace`. -/
def clObjectPathSetNameSpace (op : ClObjectPath) (ns : Option CStr) : Option ClObjectPath :=
  (setPathString op.hdr op.nameSpace ns).map fun r => { op with hdr := r.1, nameSpace := r.2 }

/-- `ClObjectPathSetClassName`. -/
def clObjectPathSetClassName (op : ClObjectPath) (cn : Option CStr) : Option ClObjectPath :=
  (setPathString op.hdr op.className cn).map fun r => { op with hdr := r.1, className := r.2 }

/-! ## Recipes -/

/-- What can be added to a class. -/
inductive ClassOp where
  | grandParent (gp : CStr)
  | qualifier (id : CStr) (d : CMPIData)
  | property (id : CStr) (d : CMPIData) (refName : Option CStr)
  | propertyQualifier (i : Nat) (id : CStr) (d : CMPIData)
  | method (id : CStr) (t : CMPIType)
  | methodQualifier (i : Nat) (id : CStr) (d : CMPIData)
  | parameter (i : Nat) (id : CStr) (cp : CMPIParameter)
  | parameterQualifier (i j : Nat) (id : CStr) (d : CMPIData)
  deriving DecidableEq, Repr

def ClClass.apply (cls : ClClass) : ClassOp → Option ClClass
  | .grandParent gp => clClassAddGrandParent cls gp
  | .qualifier id d => clClassAddQualifier cls id d
  | .property id d refName => (clClassAddProperty cls id d refName).map (·.1)
  | .propertyQualifier i id d => clClassAddPropertyQualifier cls i id d
  | .method id t => clClassAddMethod cls id t
  | .methodQualifier i id d => clClassAddMethodQualifier cls i id d
  | .parameter i id cp => clClassAddMethParameter cls i id cp
  | .parameterQualifier i j id d => clClassAddMethParamQualifier cls i j id d

/-- What can be added to an instance. -/
inductive InstanceOp where
  | property (id : CStr) (d : CMPIData)
  | qualifier (id : CStr) (d : CMPIData)
  | filterFlag (id : Int)
  deriving DecidableEq, Repr

def ClInstance.apply (inst : ClInstance) : InstanceOp → Option ClInstance
  | .property id d => (clInstanceAddProperty inst id d).map (·.1)
  | .qualifier id d =>
    (addClQualifier inst.hdr inst.qualifiers id d).map fun r =>
      { inst with hdr := r.1, qualifiers := r.2 }
  | .filterFlag id => clInstanceFilterFlagProperty inst id

/-- What can be added to an object path. -/
inductive PathOp where
  | key (id : CStr) (d : CMPIData)
  | hostName (hn : Option CStr)
  | nameSpace (ns : Option CStr)
  | className (cn : Option CStr)
  deriving DecidableEq, Repr

def ClObjectPath.apply (op : ClObjectPath) : PathOp → Option ClObjectPath
  | .key id d => (clObjectPathAddKey op id d).map (·.1)
  | .hostName hn => clObjectPathSetHostName op hn
  | .nameSpace ns => clObjectPathSetNameSpace op ns
  | .className cn => clObjectPathSetClassName op cn

/-- What can be added to the declaration of a qualifier; its fields are set by the
caller. -/
inductive QualifierOp where
  | data (id : CStr) (d : CMPIData)
  | fields (flavor scope : Nat) (type : CMPIType) (arraySize : Nat)
  deriving DecidableEq, Repr

def ClQualifierDeclaration.apply (q : ClQualifierDeclaration) :
    QualifierOp → Option ClQualifierDeclaration
  | .data id d =>
    (addClQualifier q.hdr q.qualifierData id d).map fun r =>
      { q with hdr := r.1, qualifierData := r.2 }
  | .fields flavor scope type arraySize => some { q with flavor, scope, type, arraySize }

/-- One operation after the other. -/
def applyAll {σ ω : Type} (apply : σ → ω → Option σ) : σ → List ω → Option σ
  | o, [] => some o
  | o, op :: ops => (apply o op).bind fun o => applyAll apply o ops

/-- An object of any kind. -/
inductive CimObject where
  | cls (cls : ClClass)
  | inst (inst : ClInstance)
  | objectPath (op : ClObjectPath)
  | args (arg : ClArgs)
  | qualifier (q : ClQualifierDeclaration)
  deriving DecidableEq, Repr

/-- How an object is made. -/
inductive Recipe where
  | cls (cn pa : Option CStr) (ops : List ClassOp)
  | inst (ns cn : Option CStr) (ops : List InstanceOp)
  | objectPath (ns cn : Option CStr) (ops : List PathOp)
  | args (ops : List (CStr × CMPIData))
  | qualifier (ns name : Option CStr) (ops : List QualifierOp)
  deriving DecidableEq, Repr

/-- What comes of it. -/
def Recipe.build : Recipe → Option CimObject
  | .cls cn pa ops => ((newClassH cn pa).bind (applyAll ClClass.apply · ops)).map .cls
  | .inst ns cn ops => ((newInstanceH ns cn).bind (applyAll ClInstance.apply · ops)).map .inst
  | .objectPath ns cn ops =>
    ((newObjectPathH ns cn).bind (applyAll ClObjectPath.apply · ops)).map .objectPath
  | .args ops =>
    (applyAll (fun arg op => (clArgsAddArg arg op.1 op.2).map (·.1)) newArgsH ops).map .args
  | .qualifier ns name ops =>
    ((newQualifierDeclarationH ns name).bind (applyAll ClQualifierDeclaration.apply · ops)).map
      .qualifier

end Sfcb.Object
