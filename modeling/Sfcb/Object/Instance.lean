import Sfcb.Object.Objects

/-!
# Instances

How a provider sets and gets the properties of an instance (`instance.c`), over the
representation of objects, and how a stored array becomes an array again (`array.c`).

Mirroring notes:
- A value is given by what it points at. `none` is a null `CMPIValue *`, `nullPtr` a null
  pointer inside of the value.
- Where an id leads is looked up in the buffers; where a stored pointer leads is not
  known, and reading through it has the outcome `none`, as a crash.
- The value of a null element is never written (`malloc`); it is `0` here.
-/

namespace Sfcb.Object

open Sfcb.Lib

/-- The size of a number. -/
def CMPIBase.bits : CMPIBase → Option Nat
  | .boolean | .uint8 | .sint8 => some 8
  | .char16 | .uint16 | .sint16 => some 16
  | .uint32 | .sint32 | .real32 => some 32
  | .uint64 | .sint64 | .real64 => some 64
  | _ => none

/-- A type with one of the bits of `CMPI_ENCA`. -/
def CMPIType.enca (type : CMPIType) : Bool :=
  type.array ||
    match type.base with
    | .inst | .ref | .args | .cls | .filter | .enumeration | .string | .chars | .dateTime | .ptr
    | .charsptr => true
    | _ => false

/-- `sfcb_setAlignedValue`: a number is cut to its size, a pointer is copied. -/
def setAlignedValue (type : CMPIType) : Value → Value
  | .word n =>
    match type.array, type.base.bits with
    | false, some w => .word (n % 2 ^ w)
    | _, _ => .word (n % 2 ^ 64)
  | v => v

/-! ## Setting a property -/

/-- `struct native_instance`. -/
structure NativeInstance where
  hdl : ClInstance
  filtered : Bool
  propertyList : Option (List CStr)
  keyList : Option (List CStr)
  deriving DecidableEq, Repr

/-- `__contained_list`. -/
def containedList (list : Option (List CStr)) (name : CStr) : Bool :=
  (list.getD []).any fun entry => strcasecmp entry name == 0

/-- The `CMPIData` that `__ift_setProperty` makes of a value. -/
def setData (value : Option Value) (type : CMPIType) : CMPIData :=
  let stored := if type = CMPIBase.string.simple then CMPIBase.chars.simple else type
  match value with
  | none => ⟨stored, nullValue, .word 0⟩
  | some v =>
    let v :=
      if type = CMPIBase.chars.simple ∨ type = CMPIBase.string.simple then v
      else setAlignedValue type v
    if type.enca ∧ (v = .nullPtr ∨ v = .word 0) then ⟨stored, nullValue, .word 0⟩
    else ⟨stored, 0, v⟩

/-- `ClProperty_Filtered`. -/
def filteredFlag : Nat := 4

/-- `ClInstanceFilterFlagProperty`. -/
def clInstanceFilterFlagProperty (inst : ClInstance) (id : Int) : Option ClInstance :=
  if id < 0 then none
  else
    match inst.properties.items[id.toNat]? with
    | none => none
    | some p =>
      some { inst with properties := { inst.properties with
        items := inst.properties.items.set id.toNat { p with flags := p.flags ||| filteredFlag } } }

/-- `__ift_setProperty`, with its status. -/
def setProperty (i : NativeInstance) (name : CStr) (value : Option Value) (type : CMPIType) :
    Option (NativeInstance × Int) :=
  if i.filtered = false ∨ i.propertyList = none ∨ containedList i.propertyList name ∨
      containedList i.keyList name then do
    let (inst, rc) ← clInstanceAddProperty i.hdl name (setData value type)
    let inst ←
      if i.filtered && !containedList i.propertyList name && containedList i.keyList name then
        clInstanceFilterFlagProperty inst (rc - 1)
      else some inst
    return ({ i with hdl := inst }, if rc < 0 then -rc else 0)
  else some (i, 0)

/-! ## Arrays -/

/-- `CMPIString` of a stored string. -/
def readText (hdr : ObjectHdr) : Word → Option Value
  | .num 0 => some .nullPtr
  | .num id => (getClString hdr id).map .text
  | .ptr => none

/-- The same for an element. -/
def readElemText (hdr : ObjectHdr) : Word → Option ElemValue
  | .num 0 => some (.word 0)
  | .num id => (getClString hdr id).map .text
  | .ptr => none

/-- An element that was not set. -/
def nullItem : ArrayItem := ⟨nullValue, .word 0⟩

/-- The loop body of `internal_native_make_CMPIArray`: `arraySetElementNotTrackedAt` does
nothing where the type is not the one of the array. -/
def makeItem (hdr : ObjectHdr) (type : CMPIBase) (cell : Stored) : Option ArrayItem :=
  let whenTyped (base : CMPIBase) (v : Option ElemValue) : Option ArrayItem :=
    if type = base then v.map (⟨0, ·⟩) else some nullItem
  if cell.state = nullValue then some nullItem
  else if cell.type = CMPIBase.string.simple then whenTyped .string (readElemText hdr cell.value)
  else if cell.type = CMPIBase.ref.simple then whenTyped .ref (readElemText hdr cell.value)
  else if cell.type = CMPIBase.inst.simple then
    match cell.value with
    | .num id => whenTyped .inst ((getClObject hdr id).map .blob)
    | .ptr => none
  else if cell.type = CMPIBase.dateTime.simple then
    whenTyped .dateTime (readElemText hdr cell.value)
  else if cell.type = type.simple then
    match cell.value with
    | .num n => some ⟨0, .word (n % 2 ^ (type.bits.getD 64))⟩
    | .ptr => none
  else some nullItem

/-- Its loop, over `m` cells. -/
def makeItems (hdr : ObjectHdr) (type : CMPIBase) : (m : Nat) → List Stored → Option (List ArrayItem)
  | 0, _ => some []
  | _ + 1, [] => none
  | m + 1, cell :: cells =>
    match makeItem hdr type cell with
    | none => none
    | some item => (makeItems hdr type m cells).map (item :: ·)

/-- `native_make_CMPIArray`. -/
def nativeMakeCMPIArray (hdr : ObjectHdr) : List Stored → Option NativeArray
  | ⟨type, _, .num m⟩ :: cells =>
    let base := if type.base = .chars then .string else type.base
    (makeItems hdr base m cells).map (⟨base, ·⟩)
  | _ => none

/-! ## Getting a property -/

/-- `ClInstanceGetPropertyAt` and what `__ift_internal_getPropertyAt` makes of it for a
caller that may keep it. -/
def getPropertyAt (inst : ClInstance) (id : Nat) : Option CMPIData :=
  match inst.properties.items[id]? with
  | none => none
  | some p =>
    let d := p.data
    if d.type = CMPIBase.chars.simple then
      (readText inst.hdr d.value).map (⟨CMPIBase.string.simple, d.state, ·⟩)
    -- the stored word is followed as a `CMPIString`
    else if d.type = CMPIBase.string.simple then none
    else if d.type = CMPIBase.dateTime.simple ∨ d.type = CMPIBase.ref.simple then
      (readText inst.hdr d.value).map (⟨d.type, d.state, ·⟩)
    else if d.type.array then
      match d.value with
      | .num 0 => some ⟨d.type, d.state, .nullPtr⟩
      | .num id =>
        ((getClArray inst.hdr id).bind (nativeMakeCMPIArray inst.hdr)).map
          fun a => ⟨d.type, d.state, .array a⟩
      | .ptr => none
    else if d.type = CMPIBase.inst.simple then
      match d.value with
      | .num 0 => some ⟨d.type, d.state, .nullPtr⟩
      | .num id => (getClObject inst.hdr id).map fun bytes => ⟨d.type, d.state, .blob bytes⟩
      | .ptr => none
    else
      match d.value with
      | .num n => some ⟨d.type, d.state, .word n⟩
      | .ptr => none

/-- `CMPI_RC_ERR_NOT_FOUND`. -/
def notFound : Int := 6

/-- `CMPI_notFound`. -/
def notFoundState : Nat := 4 * 2 ^ 8

/-- `__ift_getProperty`, with its status. -/
def getProperty (i : NativeInstance) (id : CStr) : Option (CMPIData × Int) :=
  match locateProperty i.hdl.hdr i.hdl.properties.items id with
  | none => some (⟨CMPIBase.null.simple, notFoundState, .word 0⟩, notFound)
  | some place => (getPropertyAt i.hdl place).map (·, 0)

/-- `__ift_getPropertyCount`. -/
def getPropertyCount (i : NativeInstance) : Nat := i.hdl.properties.items.length

end Sfcb.Object
