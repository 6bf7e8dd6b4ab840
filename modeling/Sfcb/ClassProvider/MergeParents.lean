import Sfcb.Lib.KeyedList
import Sfcb.Object.Building
import Sfcb.Object.Contents

/-!
# Merging a class with its superclass

`mergeParents` in `classProvider.c` copies the superclass into a new class and then, by the same
function `cpyClass`, the class that is created. A class is here what the functions of
`objectImpl.c` read of it, and each step of `cpyClass` is what reading an element and adding it
comes to.

Mirroring notes:
- The outcome `none` is undefined: memory is read, written or freed where it must not be.
- `strcasecmp(a, b) == 0` is `fold a = fold b`.
- A name or a text is read as it was added. `replaceClString` is the exception: it copies every
  entry of the string buffer up to the first zero, and what is left of an embedded instance is
  no instance (`Property.cut`).
- A date is the text that it is kept as, and an embedded instance its serialized form.
- `ClProperty_Q_Key` and `ClProperty_Q_EmbeddedObject` are the only bits of a property's `quals`.
- Of a state only `CMPI_nullValue` is kept.
- Sections and buffers only grow while the new class is made, so whether there is room in them
  (`Roomy`) is asked at once. A section holds up to `2 ^ 14 + 1` elements and a buffer as many
  entries. A date that replaces another one takes the room of one more.
- Left out: flags and origins, `parents`.
-/

namespace Sfcb.ClassMerge

open Sfcb.Lib
open Sfcb.Object (CMPIType CMPIBase CMPIData CMPIParameter NativeArray)

/-! ## Classes -/

structure Qualifier where
  name : CStr
  data : CMPIData
  deriving DecidableEq, Repr

/-- A type whose values are numbers. -/
def isNumber : CMPIBase → Bool
  | .boolean | .char16 | .real32 | .real64 => true
  | .uint8 | .uint16 | .uint32 | .uint64 | .sint8 | .sint16 | .sint32 | .sint64 => true
  | _ => false

/-- The default value of a property, as it is stored. -/
inductive Default where
  | null (type : CMPIType)
  | number (base : CMPIBase) (isNumber : isNumber base = true) (n : Nat)
  | text (s : CStr)
  | date (s : CStr)
  | ref (s : CStr)
  | array (base : CMPIBase) (a : NativeArray)
  | inst (bytes : List UInt8)
  /-- A pointer that was stored as it came, or an instance that was cut. -/
  | lost (type : CMPIType)
  deriving DecidableEq, Repr

def Default.type : Default → CMPIType
  | .null type => type
  | .number base _ _ => base.simple
  | .text _ => CMPIBase.chars.simple
  | .date _ => CMPIBase.dateTime.simple
  | .ref _ => CMPIBase.ref.simple
  | .array base _ => base.arrayOf
  | .inst _ => CMPIBase.inst.simple
  | .lost type => type

def Default.isInst : Default → Bool
  | .inst _ => true
  | _ => false

structure Property where
  name : CStr
  data : Default
  refName : Option CStr
  key : Bool
  embeddedObject : Bool
  qualifiers : List Qualifier
  deriving DecidableEq, Repr

structure Parameter where
  name : CStr
  parameter : CMPIParameter
  qualifiers : List Qualifier
  deriving DecidableEq, Repr

structure Method where
  name : CStr
  type : CMPIType
  qualifiers : List Qualifier
  parameters : List Parameter
  deriving DecidableEq, Repr

/-- `quals` of a class. -/
structure Quals where
  abstract : Bool
  association : Bool
  indication : Bool
  deriving DecidableEq, Repr

structure Class where
  name : CStr
  parent : Option CStr
  quals : Quals
  qualifiers : List Qualifier
  properties : List Property
  methods : List Method
  deriving DecidableEq, Repr

/-- `ClClassNew`. -/
def clClassNew (cn pa : CStr) : Class := ⟨cn, some pa, ⟨false, false, false⟩, [], [], []⟩

/-! ## Names -/

def Qualifier.key (q : Qualifier) : CStr := fold q.name

def Property.id (p : Property) : CStr := fold p.name

def Method.id (m : Method) : CStr := fold m.name

/-! ## Qualifiers -/

/-- `addClQualifier`: nothing happens to a qualifier that is there. -/
def addClQualifier (qlfs : List Qualifier) (q : Qualifier) : List Qualifier :=
  if (lookupBy Qualifier.key qlfs q.key).isSome then qlfs else qlfs ++ [q]

def addQualifiers (qlfs new : List Qualifier) : List Qualifier := new.foldl addClQualifier qlfs

/-- `ClClassAddQualifierSpecial`: three names are bits of the class. -/
def clClassAddQualifierSpecial (s : Quals × List Qualifier) (q : Qualifier) :
    Quals × List Qualifier :=
  if q.key = fold (lit "Abstract") then ({ s.1 with abstract := true }, s.2)
  else if q.key = fold (lit "Association") then ({ s.1 with association := true }, s.2)
  else if q.key = fold (lit "Indication") then ({ s.1 with indication := true }, s.2)
  else (s.1, addClQualifier s.2 q)

/-- `ClClassAddPropertyQualifierSpecial`: two more are bits of the property. -/
def clClassAddPropertyQualifierSpecial (s : Quals × Property) (q : Qualifier) : Quals × Property :=
  if q.key = fold (lit "key") then (s.1, { s.2 with key := true })
  else if q.key = fold (lit "embeddedobject") then (s.1, { s.2 with embeddedObject := true })
  else ((clClassAddQualifierSpecial (s.1, s.2.qualifiers) q).1,
    { s.2 with qualifiers := (clClassAddQualifierSpecial (s.1, s.2.qualifiers) q).2 })

/-! ## Properties -/

/-- A default read by `ClClassGetPropertyAt` and stored by `addObjectPropertyH` as a new one. -/
def Default.stored : Default → Option Default
  | .null type => some (.null type)
  | .number base h n => some (.number base h n)
  | .text s => some (.text s)
  | .date s => some (.date s)
  | .inst bytes => some (.inst bytes)
  -- `sfcb_pathToChars` is given the id of the text for a path
  | .ref _ => none
  -- `addClArray` is given the cells of the array for an array
  | .array _ _ => none
  | .lost _ => none

/-- A default stored as it was read, by `data = d`. -/
def Default.assigned : Default → Default
  | .text _ => .lost CMPIBase.string.simple
  | .date _ => .lost CMPIBase.dateTime.simple
  | .ref _ => .lost CMPIBase.ref.simple
  | .array base _ => .lost base.arrayOf
  | .inst _ => .lost CMPIBase.inst.simple
  | d => d

/-- What giving a value to a property that is there comes to. -/
inductive Replaced where
  | typeMismatch
  /-- `replaced` where `replaceClString` was called. -/
  | stored (data : Default) (replaced : Bool)
  deriving DecidableEq, Repr

/-- The other half of `addObjectPropertyH`: `od` is what the property has, `quals` whether it
has any bit. -/
def storeReplace (od : Default) (quals : Bool) (d : Default) : Option Replaced :=
  match d with
  | .null type => some (.stored (.null type) false)
  | .lost _ => none
  | d =>
    if od.type = CMPIBase.chars.simple then
      -- `quals && ClProperty_Q_EmbeddedObject`
      if quals then some .typeMismatch
      else match d, od with
        | .text _, .text _ => some (.stored d.assigned true)
        -- the id 0 is replaced, which writes in front of the index
        | .text _, _ => none
        | _, _ => some .typeMismatch
    else if od.type = CMPIBase.dateTime.simple then
      match d, od with
      | .date s, .date _ => some (.stored (.date s) true)
      | .date s, .null _ => some (.stored (.date s) false)
      | .date _, _ => none
      | _, _ => some .typeMismatch
    else if od.type = CMPIBase.ref.simple then
      match d with
      | .ref _ => none
      | _ => some .typeMismatch
    else if od.type.array then
      match d with
      | .array _ _ => none
      | _ => some .typeMismatch
    else some (.stored d.assigned false)

/-- What `replaceClString` does to a property. -/
def Property.cut (p : Property) : Property :=
  if p.data.isInst then { p with data := .lost CMPIBase.inst.simple } else p

/-- A property of `cpyClass`. The name of a referenced class is a part of the string buffer, and
it is freed. -/
def Class.cpyProperty (cl : Class) (p : Property) : Option Class :=
  if p.refName.isSome then none
  else match lookupBy Property.id cl.properties p.id with
    | none =>
      match p.data.stored with
      | none => none
      | some data =>
        let s := p.qualifiers.foldl clClassAddPropertyQualifierSpecial
          (cl.quals, ⟨p.name, data, none, false, data.isInst, []⟩)
        some { cl with quals := s.1, properties := cl.properties ++ [s.2] }
    | some old =>
      match storeReplace old.data (old.key || old.embeddedObject) p.data with
      | none => none
      -- the error is taken for a place, which is in front of the section
      | some .typeMismatch => if p.qualifiers = [] then some cl else none
      | some (.stored data replaced) =>
        let properties := if replaced then cl.properties.map Property.cut else cl.properties
        let s := p.qualifiers.foldl clClassAddPropertyQualifierSpecial (cl.quals, { old with data })
        some { cl with
          quals := s.1
          properties := properties.set (place Property.id cl.properties p.id) s.2 }

/-! ## Methods -/

/-- The loop of `cpyClass` over parameters. `locateParameter` finds nothing, so that each one is
appended; its qualifiers are those of the parameter of the source in the place that it got. -/
def cpyParameters (source : List Parameter) : List Parameter → List Parameter →
    Option (List Parameter)
  | target, [] => some target
  | target, p :: ps =>
    match source[target.length]? with
    | none => none
    | some parm =>
      cpyParameters source
        (target ++ [⟨p.name, p.parameter, addQualifiers [] parm.qualifiers⟩]) ps

/-- The method as `ClClassAddMethod` leaves it. -/
def addedMethod (old : Option Method) (m : Method) : Method :=
  match old with
  | none => ⟨m.name, m.type, [], []⟩
  | some old => { old with type := m.type }

/-- What the method `meth` of the source is copied into `newMeth`. -/
def cpyInto (newMeth meth : Method) : Option Method :=
  (cpyParameters meth.parameters newMeth.parameters meth.parameters).map fun parameters =>
    { newMeth with qualifiers := addQualifiers newMeth.qualifiers meth.qualifiers, parameters }

/-- A method of `cpyClass`. Qualifiers and parameters are those of the method of the source in
the place that the method got in the target. -/
def Class.cpyMethod (source : List Method) (cl : Class) (m : Method) : Option Class :=
  match source[place Method.id cl.methods m.id]? with
  | none => none
  | some meth =>
    (cpyInto (addedMethod (lookupBy Method.id cl.methods m.id) m) meth).map fun newMeth =>
      { cl with
        methods := match lookupBy Method.id cl.methods m.id with
          | none => cl.methods ++ [newMeth]
          | some _ => cl.methods.set (place Method.id cl.methods m.id) newMeth }

/-! ## Classes -/

/-- One step after the other. -/
def Class.each {α : Type} (step : Class → α → Option Class) : Class → List α → Option Class
  | cl, [] => some cl
  | cl, a :: as => (step cl a).bind fun cl => Class.each step cl as

/-- `cpyClass`. -/
def cpyClass (cl ccl : Class) : Option Class :=
  let quals : Quals := ⟨cl.quals.abstract || ccl.quals.abstract,
    cl.quals.association || ccl.quals.association, cl.quals.indication || ccl.quals.indication⟩
  let s := ccl.qualifiers.foldl clClassAddQualifierSpecial (quals, cl.qualifiers)
  (Class.each Class.cpyProperty { cl with quals := s.1, qualifiers := s.2 } ccl.properties).bind
    fun cl => Class.each (Class.cpyMethod ccl.methods) cl ccl.methods

/-! ## Room -/

/-- The strings that a qualifier is kept with. -/
def Qualifier.strings (q : Qualifier) : List (List UInt8) :=
  (q.name ++ [0]) ::
    if Object.isNull q.data.state then []
    else match q.data.value with
      | .text s => [s ++ [0]]
      | .array a => a.records
      | _ => []

/-- The array that it is kept with. -/
def Qualifier.arrays (q : Qualifier) : List (List Object.Stored) :=
  if Object.isNull q.data.state then []
  else match q.data.value with
    | .array a => [a.arrayRecord 0]
    | _ => []

def Default.strings : Default → List (List UInt8)
  | .text s => [s ++ [0]]
  | .date s => [s ++ [0]]
  | .inst bytes => [bytes]
  | _ => []

/-- The elements of the second list with a name that the first does not have. -/
def newBy {α : Type} (key : α → CStr) (l new : List α) : List α :=
  new.filter fun a => (lookupBy key l (key a)).isNone

/-- The qualifiers of what is declared under a name, if it is. -/
def inheritedQualifiers {α : Type} (key : α → CStr) (qualifiers : α → List Qualifier) (l : List α)
    (a : α) : List Qualifier :=
  ((lookupBy key l (key a)).map qualifiers).getD []

/-- The qualifiers that are added when `c` is copied behind `p`. -/
def addedQualifiers (p c : Class) : List Qualifier :=
  p.qualifiers ++ newBy Qualifier.key p.qualifiers c.qualifiers ++
    p.properties.flatMap Property.qualifiers ++
    c.properties.flatMap (fun q => newBy Qualifier.key
      (inheritedQualifiers Property.id Property.qualifiers p.properties q) q.qualifiers) ++
    p.methods.flatMap Method.qualifiers ++
    c.methods.flatMap (fun m => newBy Qualifier.key
      (inheritedQualifiers Method.id Method.qualifiers p.methods m) m.qualifiers) ++
    (p.methods ++ c.methods).flatMap fun m => m.parameters.flatMap Parameter.qualifiers

/-- The strings that are added. -/
def addedStrings (p c : Class) (pn : CStr) : List (List UInt8) :=
  [c.name ++ [0], pn ++ [0]] ++ (addedQualifiers p c).flatMap Qualifier.strings ++
    (p.properties ++ newBy Property.id p.properties c.properties).map (fun q => q.name ++ [0]) ++
    (p.properties ++ c.properties).flatMap (fun q => q.data.strings) ++
    (p.methods ++ newBy Method.id p.methods c.methods).map (fun m => m.name ++ [0]) ++
    (p.methods ++ c.methods).flatMap fun m => m.parameters.flatMap fun a =>
      (a.name ++ [0]) :: (a.parameter.refName.map fun s => [s ++ [0]]).getD []

/-- The sizes of the sections in the end. -/
def sectionSizes (p c : Class) : List Nat :=
  [p.qualifiers.length + (newBy Qualifier.key p.qualifiers c.qualifiers).length,
    p.properties.length + (newBy Property.id p.properties c.properties).length,
    p.methods.length + (newBy Method.id p.methods c.methods).length] ++
  p.properties.map (fun q => q.qualifiers.length) ++
  c.properties.map (fun q =>
    let inherited := inheritedQualifiers Property.id Property.qualifiers p.properties q
    inherited.length + (newBy Qualifier.key inherited q.qualifiers).length) ++
  p.methods.map (fun m => m.qualifiers.length) ++
  c.methods.map (fun m =>
    let inherited := inheritedQualifiers Method.id Method.qualifiers p.methods m
    inherited.length + (newBy Qualifier.key inherited m.qualifiers).length) ++
  p.methods.map (fun m => m.parameters.length) ++
  c.methods.map (fun m => m.parameters.length +
    ((lookupBy Method.id p.methods m.id).map fun old => old.parameters.length).getD 0) ++
  (p.methods ++ c.methods).flatMap fun m => m.parameters.map fun a => a.qualifiers.length

/-- There is room for `c` behind `p`, in the sections, in the string buffer and in the array
buffer. -/
structure Roomy (p c : Class) (pn : CStr) : Prop where
  sections : ∀ n ∈ sectionSizes p c, n ≤ 2 ^ 14 + 1
  strings : IndexedBuf.RoomFor none (addedStrings p c pn)
  arrays : IndexedBuf.RoomFor none ((addedQualifiers p c).flatMap Qualifier.arrays)

instance (p c : Class) (pn : CStr) : Decidable (Roomy p c pn) :=
  decidable_of_iff ((∀ n ∈ sectionSizes p c, n ≤ 2 ^ 14 + 1) ∧
      IndexedBuf.RoomFor none (addedStrings p c pn) ∧
      IndexedBuf.RoomFor none ((addedQualifiers p c).flatMap Qualifier.arrays))
    ⟨fun h => ⟨h.1, h.2.1, h.2.2⟩, fun h => ⟨h.sections, h.strings, h.arrays⟩⟩

/-- `mergeParents` into the new class of `addClass`, for the superclass `pcc`. -/
def mergeParents (pcc cc : Class) (pn : CStr) : Option Class :=
  if Roomy pcc cc pn then (cpyClass (clClassNew cc.name pn) pcc).bind fun cl => cpyClass cl cc
  else none

end Sfcb.ClassMerge
