import Sfcb.Lib.CString
import Sfcb.Lib.IndexedBuf

/-!
# Objects

Instances, classes, object paths and argument lists are kept in one representation
(`objectImpl.c`): a header with a string buffer and an array buffer, and sections of
properties that refer to strings and arrays by their number in these buffers. Setting a
property copies what its value points at into the buffers.

Mirroring notes:
- A value that is given is what its pointers lead to (`Value`); a value that is stored
  is a word (`Word`), and a pointer that was stored as it came is told apart from a
  number.
- `dateTime2chars` and `sfcb_pathToChars` are calls on the value given: a date and a
  path are given as the text they print. An instance is given as its serialized form.
- The outcome `none` is a crash: a null pointer that is followed, memory that is written
  outside its area, a size that does not fit an `int`.
- What is freed, and the flags that only say so, is left out.
-/

namespace Sfcb.Object

open Sfcb.Lib

/-! ## Values -/

/-- The simple part of a `CMPIType`. -/
inductive CMPIBase where
  | null | boolean | char16 | real32 | real64
  | uint8 | uint16 | uint32 | uint64 | sint8 | sint16 | sint32 | sint64
  | inst | ref | args | cls | filter | enumeration | string | chars | dateTime | ptr | charsptr
  deriving DecidableEq, Repr

/-- A `CMPIType`: the base and `CMPI_ARRAY`. -/
structure CMPIType where
  base : CMPIBase
  array : Bool
  deriving DecidableEq, Repr

/-- A type that is not an array. -/
def CMPIBase.simple (base : CMPIBase) : CMPIType := ⟨base, false⟩

/-- An array type. -/
def CMPIBase.arrayOf (base : CMPIBase) : CMPIType := ⟨base, true⟩

/-- `CMPI_nullValue` is set in a state. -/
def isNull (state : Nat) : Bool := state.testBit 8

/-- `CMPI_nullValue`. -/
def nullValue : Nat := 2 ^ 8

/-- What the element of an array is or points at. -/
inductive ElemValue where
  | word (n : Nat)
  | text (s : CStr)
  | blob (bytes : List UInt8)
  deriving DecidableEq, Repr

/-- `struct native_array_item`. -/
structure ArrayItem where
  state : Nat
  value : ElemValue
  deriving DecidableEq, Repr

/-- `struct native_array`; `size` is the number of items. -/
structure NativeArray where
  type : CMPIBase
  data : List ArrayItem
  deriving DecidableEq, Repr

/-- A value as a caller gives it. `nullPtr` is a null pointer that does not say so in the
state. -/
inductive Value where
  | word (n : Nat)
  | text (s : CStr)
  | nullPtr
  | blob (bytes : List UInt8)
  | array (a : NativeArray)
  deriving DecidableEq, Repr

/-- `CMPIData`. -/
structure CMPIData where
  type : CMPIType
  state : Nat
  value : Value
  deriving DecidableEq, Repr

/-- A value as it is stored: a number (a scalar or an id), or a pointer. -/
inductive Word where
  | num (n : Nat)
  | ptr
  deriving DecidableEq, Repr

/-- A stored `CMPIData`. -/
structure Stored where
  type : CMPIType
  state : Nat
  value : Word
  deriving DecidableEq, Repr

/-- A value copied without following it. -/
def Value.raw : Value → Word
  | .word n => .num n
  | .nullPtr => .num 0
  | .text _ => .ptr
  | .blob _ => .ptr
  | .array _ => .ptr

def ElemValue.raw : ElemValue → Word
  | .word n => .num n
  | .text _ => .ptr
  | .blob _ => .ptr

/-- `p->data = d`. -/
def CMPIData.raw (d : CMPIData) : Stored := ⟨d.type, d.state, d.value.raw⟩

/-! ## Header and buffers -/

/-- `HDR_Class` and so on. -/
inductive HdrType where
  | cls | inst | objectPath | args | qualifier
  deriving DecidableEq, Repr

/-- `ClObjectHdr`. -/
structure ObjectHdr where
  type : HdrType
  strBuf : Option (IndexedBuf UInt8)
  arrayBuf : Option (IndexedBuf Stored)
  /-- `HDR_ContainsEmbeddedObject` -/
  containsEmbeddedObject : Bool
  deriving DecidableEq, Repr

/-- A cleared header. -/
def ObjectHdr.new (type : HdrType) : ObjectHdr := ⟨type, none, none, false⟩

/-- `strlen(f) + 1`. -/
def strLength (f : List UInt8) : Nat := (f.takeWhile (· ≠ 0)).length + 1

/-- `f->value.sint32 + 1`: the head of a stored array has its size. -/
def arrayLength (f : List Stored) : Nat :=
  match f with
  | ⟨_, _, .num n⟩ :: _ => n + 1
  | _ => 1

/-- `ClObjectGetClObject`: the bytes from the start of an entry on. -/
def getClObject (hdr : ObjectHdr) (id : Nat) : Option (List UInt8) :=
  hdr.strBuf.bind (·.entry id)

/-- `ClObjectGetClString`. -/
def getClString (hdr : ObjectHdr) (id : Nat) : Option CStr :=
  (getClObject hdr id).map (·.takeWhile (· ≠ 0))

/-- `ClObjectGetClArray`: the head and what is behind it. -/
def getClArray (hdr : ObjectHdr) (id : Nat) : Option (List Stored) :=
  hdr.arrayBuf.bind (·.entry id)

/-- `addClStringN` of the bytes given. -/
def addClStringN (hdr : ObjectHdr) (bytes : List UInt8) : Option (ObjectHdr × Nat) :=
  (IndexedBuf.add 256 hdr.strBuf bytes).map fun r => ({ hdr with strBuf := some r.1 }, r.2)

/-- `addClString`. -/
def addClString (hdr : ObjectHdr) (str : CStr) : Option (ObjectHdr × Nat) :=
  addClStringN hdr (str ++ [0])

/-- A string that may be missing: `if (s) id = addClString(hdr, s); else id = 0;` -/
def addClStringOrNone (hdr : ObjectHdr) : Option CStr → Option (ObjectHdr × Nat)
  | none => some (hdr, 0)
  | some s => addClString hdr s

/-- `replaceClStringN`. -/
def replaceClStringN (hdr : ObjectHdr) (id : Nat) (bytes : List UInt8) : Option ObjectHdr :=
  match hdr.strBuf with
  | none => none
  | some b => (b.replace strLength id bytes).map fun b => { hdr with strBuf := some b }

/-- `replaceClString`. -/
def replaceClString (hdr : ObjectHdr) (id : Nat) (str : CStr) : Option ObjectHdr :=
  replaceClStringN hdr id (str ++ [0])

/-- The text that a value of the type points at fits where it is printed: a path is printed into a
`char[4096]` first. -/
def CMPIBase.prints (base : CMPIBase) (s : CStr) : Bool := decide (base = .ref → s.length < 4096)

/-- The text of a value, put into the string buffer. -/
def addText (hdr : ObjectHdr) (base : CMPIBase) (s : CStr) : Option (ObjectHdr × Nat) :=
  if base.prints s then addClString hdr s else none

/-- A text that was put there is a string. -/
theorem map_addText {β : Type} {hdr : ObjectHdr} {base : CMPIBase} {s : CStr}
    {f : ObjectHdr × Nat → β} {r : β} (h : (addText hdr base s).map f = some r) :
    (addClStringN hdr (s ++ [0])).map f = some r := by
  unfold addText at h
  split at h
  · exact h
  · exact absurd h (by simp)

/-- The loop body of `addClArray`: what an element points at is put into the string
buffer. -/
def storeItem (hdr : ObjectHdr) (type : CMPIBase) (item : ArrayItem) :
    Option (ObjectHdr × Stored) :=
  let asString (as : CMPIBase) : Option (ObjectHdr × Stored) :=
    match item.value with
    | .text s => (addText hdr as s).map fun r => (r.1, ⟨as.simple, item.state, .num r.2⟩)
    | _ => none
  if isNull item.state then some (hdr, ⟨type.simple, item.state, item.value.raw⟩)
  else
    match type with
    | .chars => asString .string
    | .string => asString .string
    | .dateTime => asString .dateTime
    | .ref => asString .ref
    | .inst =>
      match item.value with
      | .blob bytes =>
        (addClStringN hdr bytes).map fun r => (r.1, ⟨CMPIBase.inst.simple, item.state, .num r.2⟩)
      | _ => none
    | _ => some (hdr, ⟨type.simple, item.state, item.value.raw⟩)

/-- The loop of `addClArray`. -/
def storeItems (type : CMPIBase) : ObjectHdr → List ArrayItem → Option (ObjectHdr × List Stored)
  | hdr, [] => some (hdr, [])
  | hdr, item :: items =>
    match storeItem hdr type item with
    | none => none
    | some (hdr, cell) => (storeItems type hdr items).map fun r => (r.1, cell :: r.2)

/-- The head of a stored array. -/
def arrayHead (a : NativeArray) : Stored :=
  ⟨(if a.type = .string then CMPIBase.chars else a.type).arrayOf, 0, .num a.data.length⟩

/-- `addClArray`. -/
def addClArray (hdr : ObjectHdr) (a : NativeArray) : Option (ObjectHdr × Nat) :=
  match storeItems a.type hdr a.data with
  | none => none
  | some (hdr, cells) =>
    (IndexedBuf.add 16 hdr.arrayBuf (arrayHead a :: cells)).map
      fun r => ({ hdr with arrayBuf := some r.1 }, r.2)

/-- `replaceClArray`. -/
def replaceClArray (hdr : ObjectHdr) (id : Nat) (a : NativeArray) : Option ObjectHdr :=
  match storeItems a.type hdr a.data with
  | none => none
  | some (hdr, cells) =>
    match hdr.arrayBuf with
    | none => none
    | some b =>
      (b.replace arrayLength id (arrayHead a :: cells)).map
        fun b => { hdr with arrayBuf := some b }

/-! ## Sections -/

/-- `ClSection`: `used` is the number of items, `max` the low fifteen bits of the
capacity. A section that is not `there` has no memory yet. -/
structure ClSection (α : Type) where
  items : List α
  max : Nat
  there : Bool
  deriving DecidableEq, Repr

/-- `clearClSection`. -/
def ClSection.clear {α : Type} : ClSection α := ⟨[], 0, false⟩

/-- `ensureClSpace` for `iSize` items at first, and the new item. A capacity that wrapped
to nothing gives the memory back. -/
def ClSection.push {α : Type} (s : ClSection α) (iSize : Nat) (item : α) :
    Option (ClSection α) :=
  if s.there = false then some ⟨s.items ++ [item], iSize, true⟩
  else if s.items.length ≥ s.max then
    if s.max = 0 then none else some ⟨s.items ++ [item], s.max * 2 % 2 ^ 15, true⟩
  else some { s with items := s.items ++ [item] }

/-- `ClQualifier`. -/
structure ClQualifier where
  id : Nat
  data : Stored
  deriving DecidableEq, Repr

/-- `ClProperty`. -/
structure ClProperty where
  data : Stored
  id : Nat
  refName : Nat
  flags : Nat
  quals : Nat
  originId : Nat
  qualifiers : ClSection ClQualifier
  deriving DecidableEq, Repr

/-- `ClProperty_Q_EmbeddedObject`. -/
def qEmbeddedObject : Nat := 8

/-! ## Properties -/

/-- A property has that name. -/
def ClProperty.isNamed (hdr : ObjectHdr) (id : CStr) (p : ClProperty) : Bool :=
  match getClString hdr p.id with
  | none => false
  | some name => strcasecmp id name == 0

/-- `ClObjectLocateProperty`: the place of the property with that name, from zero; the
source counts from one and has zero for none. -/
def locateProperty (hdr : ObjectHdr) (prps : List ClProperty) (id : CStr) : Option Nat :=
  prps.findIdx? (ClProperty.isNamed hdr id)

/-- The value of a new property, from the branches of `addObjectPropertyH`. -/
def storeNew (hdr : ObjectHdr) (d : CMPIData) : Option (ObjectHdr × Stored) :=
  let asString (as : CMPIBase) : Option (ObjectHdr × Stored) :=
    match d.value with
    | .text s => (addText hdr as s).map fun r => (r.1, ⟨as.simple, d.state, .num r.2⟩)
    | _ => none
  if isNull d.state then some (hdr, d.raw)
  else if d.type = CMPIBase.chars.simple then asString .chars
  else if d.type = CMPIBase.string.simple then
    match d.value with
    | .nullPtr => some (hdr, ⟨CMPIBase.chars.simple, d.state, .num 0⟩)
    | _ => asString .chars
  else if d.type = CMPIBase.dateTime.simple then asString .dateTime
  else if d.type = CMPIBase.ref.simple then asString .ref
  else if d.type.array then
    match d.value with
    | .array a => (addClArray hdr a).map fun r => (r.1, ⟨d.type, d.state, .num r.2⟩)
    | _ => none
  else if d.type = CMPIBase.inst.simple then
    match d.value with
    | .blob bytes =>
      (addClStringN { hdr with containsEmbeddedObject := true } bytes).map
        fun r => (r.1, ⟨d.type, d.state, .num r.2⟩)
    | _ => none
  else some (hdr, d.raw)

/-- `CMPI_RC_ERR_TYPE_MISMATCH`. -/
def typeMismatch : Int := 13

/-- What setting a property that is there comes to. -/
inductive Replaced where
  | error (rc : Int)
  | stored (hdr : ObjectHdr) (data : Stored)
  deriving DecidableEq, Repr

/-- A text that takes the place of the old one, or is new if there was none. -/
def replaceText (hdr : ObjectHdr) (od : Stored) (d : CMPIData) : Option Replaced :=
  match d.value, od.value with
  | .text s, .num 0 =>
    (addText hdr d.type.base s).map fun r => .stored r.1 ⟨d.type, d.state, .num r.2⟩
  | .text s, .num id =>
    if d.type.base.prints s then
      (replaceClString hdr id s).map fun hdr => .stored hdr ⟨d.type, d.state, .num id⟩
    else none
  | _, _ => none

/-- The other half of `addObjectPropertyH`: `od` is what the property has. -/
def storeReplace (hdr : ObjectHdr) (p : ClProperty) (d : CMPIData) : Option Replaced :=
  let od := p.data
  if isNull d.state then some (.stored hdr d.raw)
  else if od.type = CMPIBase.chars.simple then
    -- `quals && ClProperty_Q_EmbeddedObject`
    if p.quals ≠ 0 then some (.error (-typeMismatch))
    else if d.type ≠ CMPIBase.chars.simple then
      if d.type ≠ CMPIBase.string.simple then some (.error (-typeMismatch))
      else
        match od.value with
        | .num id => (replaceClString hdr id []).map fun hdr => .stored hdr d.raw
        | .ptr => none
    else replaceText hdr od d
  else if od.type = CMPIBase.dateTime.simple then
    if d.type ≠ CMPIBase.dateTime.simple then some (.error (-typeMismatch))
    else replaceText hdr od d
  else if od.type = CMPIBase.ref.simple then
    if d.type ≠ CMPIBase.ref.simple then some (.error (-typeMismatch))
    else replaceText hdr od d
  else if od.type.array then
    if d.type.array = false then some (.error (-typeMismatch))
    else
      match d.value, od.value with
      | .array a, .num 0 => (addClArray hdr a).map fun r => .stored r.1 ⟨d.type, d.state, .num r.2⟩
      | .array a, .num id =>
        (replaceClArray hdr id a).map fun hdr => .stored hdr ⟨d.type, d.state, .num id⟩
      | _, _ => none
  else if hdr.type = .inst ∧ od.type = CMPIBase.inst.simple then
    if d.type ≠ CMPIBase.inst.simple then some (.error typeMismatch)
    else
      match d.value, od.value with
      | .blob bytes, .num 0 =>
        (addClStringN hdr bytes).map fun r => .stored r.1 ⟨d.type, d.state, .num r.2⟩
      -- the id is not put back
      | .blob bytes, .num id => (replaceClStringN hdr id bytes).map fun hdr => .stored hdr d.raw
      | _, _ => none
  else some (.stored hdr d.raw)

/-- The part of an object that has properties. -/
structure PropertyStore where
  hdr : ObjectHdr
  properties : ClSection ClProperty
  deriving DecidableEq, Repr

/-- A new property with its name, the name of a referenced class, and its value. -/
def newProperty (hdr : ObjectHdr) (id : CStr) (d : CMPIData) (refName : Option CStr) :
    Option (ObjectHdr × ClProperty) := do
  let (hdr, name) ← addClString hdr id
  let (hdr, ref) ← addClStringOrNone hdr refName
  let (hdr, data) ← storeNew hdr d
  let quals := if isNull d.state = false ∧ d.type = CMPIBase.inst.simple then qEmbeddedObject else 0
  return (hdr, { data, id := name, refName := ref, flags := 0, quals, originId := 0,
                 qualifiers := .clear })

/-- `addObjectPropertyH`, with its return code. -/
def addObjectPropertyH (o : PropertyStore) (id : CStr) (d : CMPIData)
    (refName : Option CStr) : Option (PropertyStore × Int) :=
  match locateProperty o.hdr o.properties.items id with
  | none =>
    match newProperty o.hdr id d refName with
    | none => none
    | some (hdr, p) =>
      (o.properties.push 8 p).map fun prps => (⟨hdr, prps⟩, prps.items.length)
  | some i =>
    match o.properties.items[i]? with
    | none => none
    | some p =>
      match storeReplace o.hdr p d with
      | none => none
      | some (.error rc) => some (o, rc)
      | some (.stored hdr data) =>
        some (⟨hdr, { o.properties with items := o.properties.items.set i { p with data } }⟩,
          i + 1)

end Sfcb.Object
