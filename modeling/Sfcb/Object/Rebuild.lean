import Sfcb.Lib.Blocks
import Sfcb.Object.Getters

/-!
# Flat objects

An object is copied into one area that can be sent or stored (`objectImpl.c`): its fixed
part, then its sections with the sections inside of their items, then the string buffer
and the array buffer, each with its index behind it. `size…` says beforehand how large the
area has to be, `rebuild…` fills it, and `relocate` adjusts an area that was copied to
another address. `readFlat` is the object a reader finds at an address.

Mirroring notes:
- The area is the address it starts at and the blocks that were written to it, by their
  offsets. A section that was copied is set in place in the item it belongs to; such an
  item is written here once, as it is in the end.
- The five kinds of objects differ in their fixed part, in the sections they have and in
  that an object path has no array buffer copied. `ClObject` has the sections of all of
  them; copying a section that is empty does nothing.
- Sizes are those of a machine with pointers of eight bytes.
- `sz` and `ofs` are `int`. `sz` is set first, and no offset is larger than it; a size
  that does not fit has the outcome `none`.
-/

namespace Sfcb.Object

open Sfcb.Lib Sfcb.Lib.Blocks

/-! ## Sizes -/

/-- `CLALIGN`. -/
def clAlign : Nat := 8

/-- `ALIGN(x,y)`. -/
def align (x y : Nat) : Nat := if x = 0 then 0 else ((x - 1) / y + 1) * y

def sizeofCMPIData : Nat := 24
def sizeofIndex : Nat := 4
def sizeofClStrBuf : Nat := 32
def sizeofClArrayBuf : Nat := 48
def sizeofClQualifier : Nat := 32
def sizeofClProperty : Nat := 64
def sizeofClMethod : Nat := 48
def sizeofClParameter : Nat := 48
def sizeofClClass : Nat := 96
def sizeofClInstance : Nat := 88
def sizeofClObjectPath : Nat := 64
def sizeofClArgs : Nat := 40
def sizeofClQualifierDeclaration : Nat := 64

/-- `sizeStringBuf`. -/
def sizeStringBuf (hdr : ObjectHdr) : Nat :=
  match hdr.strBuf with
  | none => 0
  | some b =>
    align (sizeofClStrBuf + align b.cells.length 4 + b.index.length * sizeofIndex) clAlign

/-- `sizeArrayBuf`. -/
def sizeArrayBuf (hdr : ObjectHdr) : Nat :=
  match hdr.arrayBuf with
  | none => 0
  | some b =>
    align (sizeofClArrayBuf + b.cells.length * sizeofCMPIData + b.index.length * sizeofIndex) clAlign

/-- `sizeQualifiers`. -/
def sizeQualifiers (s : ClSection ClQualifier) : Nat :=
  align (s.items.length * sizeofClQualifier) clAlign

/-- An inner section, which counts where it has items. -/
def sizeUsed {α : Type} (size : ClSection α → Nat) (s : ClSection α) : Nat :=
  if s.items.length = 0 then 0 else size s

/-- The items of a section and what is inside of each of them. -/
def sizeSection {α : Type} (size : Nat) (inner : α → Nat) (s : ClSection α) : Nat :=
  align (s.items.length * size + (s.items.map inner).sum) clAlign

/-- `sizeProperties`. -/
def sizeProperties : ClSection ClProperty → Nat :=
  sizeSection sizeofClProperty fun p => sizeUsed sizeQualifiers p.qualifiers

/-- `sizeParameters`. -/
def sizeParameters : ClSection ClParameter → Nat :=
  sizeSection sizeofClParameter fun p => sizeUsed sizeQualifiers p.qualifiers

/-- `sizeMethods`. -/
def sizeMethods : ClSection ClMethod → Nat :=
  sizeSection sizeofClMethod fun m =>
    sizeUsed sizeQualifiers m.qualifiers + sizeUsed sizeParameters m.parameters

/-- `sizeClassH`. -/
def sizeClassH (cls : ClClass) : Nat :=
  align (sizeofClClass + sizeQualifiers cls.qualifiers + sizeProperties cls.properties +
    sizeMethods cls.methods + sizeStringBuf cls.hdr + sizeArrayBuf cls.hdr) clAlign

/-- `sizeInstanceH`. -/
def sizeInstanceH (inst : ClInstance) : Nat :=
  align (sizeofClInstance + sizeQualifiers inst.qualifiers + sizeProperties inst.properties +
    sizeStringBuf inst.hdr + sizeArrayBuf inst.hdr) clAlign

/-- `sizeObjectPathH`. -/
def sizeObjectPathH (op : ClObjectPath) : Nat :=
  align (sizeofClObjectPath + sizeProperties op.properties + sizeStringBuf op.hdr) clAlign

/-- `sizeArgsH`. -/
def sizeArgsH (arg : ClArgs) : Nat :=
  align (sizeofClArgs + sizeProperties arg.properties + sizeStringBuf arg.hdr +
    sizeArrayBuf arg.hdr) clAlign

/-- `sizeQualifierDeclarationH`. -/
def sizeQualifierDeclarationH (q : ClQualifierDeclaration) : Nat :=
  align (sizeofClQualifierDeclaration + sizeQualifiers q.qualifierData + sizeStringBuf q.hdr +
    sizeArrayBuf q.hdr) clAlign

/-! ## The area -/

/-- Where a section or a buffer is: nowhere, in memory of its own, or at an offset. -/
inductive Ref where
  | null
  | heap
  | offset (ofs : Nat)
  deriving DecidableEq, Repr

/-- `ClSection` as it is in memory. -/
structure FlatSection where
  used : Nat
  max : Nat
  ref : Ref
  deriving DecidableEq, Repr

/-- `ClProperty` as it is in memory. -/
structure FlatProperty where
  data : Stored
  id : Nat
  refName : Nat
  flags : Nat
  quals : Nat
  originId : Nat
  qualifiers : FlatSection
  deriving DecidableEq, Repr

/-- `ClParameter` as it is in memory. -/
structure FlatParameter where
  id : Nat
  type : CMPIType
  arraySize : Nat
  refName : Nat
  quals : Nat
  qualifiers : FlatSection
  deriving DecidableEq, Repr

/-- `ClMethod` as it is in memory. -/
structure FlatMethod where
  id : Nat
  type : CMPIType
  flags : Nat
  quals : Nat
  originId : Nat
  qualifiers : FlatSection
  parameters : FlatSection
  deriving DecidableEq, Repr

/-- The fields of `ClStrBuf` and `ClArrayBuf` in front of the cells. -/
structure FlatBuf where
  iUsed : Nat
  iMax : Nat
  indexOffset : Nat
  /-- an address, not an offset -/
  indexPtr : Nat
  bMax : Nat
  deriving DecidableEq, Repr

/-- The fields an object has besides its header and its sections. -/
inductive Fixed where
  | cls (quals parents name parent : Nat)
  | inst (quals parents className nameSpace : Nat)
  | objectPath (hostName nameSpace className : Nat)
  | args
  | qualifier (flavor scope : Nat) (type : CMPIType) (arraySize qualifierName nameSpace : Nat)
  deriving DecidableEq, Repr

/-- `sizeof` the fixed part of an object. -/
def Fixed.sizeof : Fixed → Nat
  | .cls .. => sizeofClClass
  | .inst .. => sizeofClInstance
  | .objectPath .. => sizeofClObjectPath
  | .args => sizeofClArgs
  | .qualifier .. => sizeofClQualifierDeclaration

/-- The array buffer is copied for all objects but paths. -/
def Fixed.copiesArrays : Fixed → Bool
  | .objectPath .. => false
  | _ => true

/-- The fixed part of an object as it is in memory. -/
structure FlatHead where
  fixed : Fixed
  type : HdrType
  containsEmbeddedObject : Bool
  size : Nat
  strBuf : Ref
  arrayBuf : Ref
  qualifiers : FlatSection
  properties : FlatSection
  methods : FlatSection
  deriving DecidableEq, Repr

/-- What is written in one piece. -/
inductive Block where
  | head (h : FlatHead)
  | qualifiers (items : List ClQualifier)
  | properties (items : List FlatProperty)
  | parameters (items : List FlatParameter)
  | methods (items : List FlatMethod)
  | strBuf (h : FlatBuf) (cells : List UInt8)
  | arrayBuf (h : FlatBuf) (cells : List Stored)
  | index (entries : List Nat)
  deriving DecidableEq, Repr

/-- The bytes that are written. -/
def Block.size : Block → Nat
  | .head h => h.fixed.sizeof
  | .qualifiers items => items.length * sizeofClQualifier
  | .properties items => items.length * sizeofClProperty
  | .parameters items => items.length * sizeofClParameter
  | .methods items => items.length * sizeofClMethod
  | .strBuf _ cells => sizeofClStrBuf + cells.length
  | .arrayBuf _ cells => sizeofClArrayBuf + cells.length * sizeofCMPIData
  | .index entries => entries.length * sizeofIndex

/-- An area that was filled from its start. -/
structure Area where
  base : Nat
  writes : List (Nat × Block)
  deriving DecidableEq, Repr

/-- What was copied: the blocks written, what points at them, and how far they reach. -/
structure Copied (τ : Type) where
  writes : List (Nat × Block)
  target : τ
  length : Nat
  deriving DecidableEq, Repr

/-! ## Copying sections -/

/-- A section as it comes with the structure it is in. -/
def ClSection.flat {α : Type} (s : ClSection α) : FlatSection :=
  ⟨s.items.length, s.max, if s.there then .heap else .null⟩

/-- The loop over the items: what is inside of each is copied behind what was copied
before. -/
def copyItems {α β : Type} (inner : Nat → α → Copied β) : (ofs : Nat) → List α → Copied (List β)
  | _, [] => ⟨[], [], 0⟩
  | ofs, x :: xs =>
    let r := inner ofs x
    let rs := copyItems inner (ofs + r.length) xs
    ⟨r.writes ++ rs.writes, r.target :: rs.target, r.length + rs.length⟩

/-- The items of a section, and behind them what is inside of each. -/
def copySection {α β : Type} (size : Nat) (block : List β → Block) (inner : Nat → α → Copied β)
    (ofs : Nat) (fs : ClSection α) : Copied FlatSection :=
  let l := fs.items.length * size
  if l = 0 then ⟨[], fs.flat, 0⟩
  else
    let r := copyItems inner (ofs + l) fs.items
    ⟨(ofs, block r.target) :: r.writes,
      ⟨fs.items.length, fs.items.length % 2 ^ 15, .offset ofs⟩, align (l + r.length) clAlign⟩

/-- An inner section is copied where it has items. -/
def copyUsed {α : Type} (copy : Nat → ClSection α → Copied FlatSection) (ofs : Nat)
    (s : ClSection α) : Copied FlatSection :=
  if s.items.length = 0 then ⟨[], s.flat, 0⟩ else copy ofs s

/-- `copyQualifiers`. -/
def copyQualifiers : Nat → ClSection ClQualifier → Copied FlatSection :=
  copySection sizeofClQualifier .qualifiers fun _ q => ⟨[], q, 0⟩

/-- A property and its qualifiers. -/
def copyProperty (ofs : Nat) (p : ClProperty) : Copied FlatProperty :=
  let r := copyUsed copyQualifiers ofs p.qualifiers
  ⟨r.writes, ⟨p.data, p.id, p.refName, p.flags, p.quals, p.originId, r.target⟩, r.length⟩

/-- `copyProperties`. -/
def copyProperties : Nat → ClSection ClProperty → Copied FlatSection :=
  copySection sizeofClProperty .properties copyProperty

/-- A parameter and its qualifiers. -/
def copyParameter (ofs : Nat) (p : ClParameter) : Copied FlatParameter :=
  let r := copyUsed copyQualifiers ofs p.qualifiers
  ⟨r.writes, ⟨p.id, p.type, p.arraySize, p.refName, p.quals, r.target⟩, r.length⟩

/-- `copyParameters`. -/
def copyParameters : Nat → ClSection ClParameter → Copied FlatSection :=
  copySection sizeofClParameter .parameters copyParameter

/-- A method, its qualifiers and its parameters. -/
def copyMethod (ofs : Nat) (m : ClMethod) : Copied FlatMethod :=
  let q := copyUsed copyQualifiers ofs m.qualifiers
  let p := copyUsed copyParameters (ofs + q.length) m.parameters
  ⟨q.writes ++ p.writes,
    ⟨m.id, m.type, m.flags, m.quals, m.originId, q.target, p.target⟩, q.length + p.length⟩

/-- `copyMethods`. -/
def copyMethods : Nat → ClSection ClMethod → Copied FlatSection :=
  copySection sizeofClMethod .methods copyMethod

/-! ## Copying buffers -/

/-- The cells of a buffer, and `l` bytes behind their start the index. An index without
entries is not written. -/
def copyBuf {α : Type} (base ofs l : Nat) (block : FlatBuf → List α → Block) (b : IndexedBuf α) :
    Copied Ref :=
  let n := b.index.length
  let h : FlatBuf := ⟨n, n % 2 ^ 15, ofs + l, base + (ofs + l), b.cells.length⟩
  let index := if n * sizeofIndex = 0 then [] else [(ofs + l, Block.index b.index)]
  ⟨(ofs, block h b.cells) :: index, .offset ofs, align (l + n * sizeofIndex) clAlign⟩

/-- `copyStringBuf`. -/
def copyStringBuf (base ofs : Nat) : Option (IndexedBuf UInt8) → Copied Ref
  | none => ⟨[], .null, 0⟩
  | some b => copyBuf base ofs (align (sizeofClStrBuf + b.cells.length) 4) .strBuf b

/-- `copyArrayBuf`. -/
def copyArrayBuf (base ofs : Nat) : Option (IndexedBuf Stored) → Copied Ref
  | none => ⟨[], .null, 0⟩
  | some b => copyBuf base ofs (sizeofClArrayBuf + b.cells.length * sizeofCMPIData) .arrayBuf b

/-! ## Rebuilding -/

/-- An object of any kind. -/
structure ClObject where
  fixed : Fixed
  hdr : ObjectHdr
  qualifiers : ClSection ClQualifier
  properties : ClSection ClProperty
  methods : ClSection ClMethod
  deriving DecidableEq, Repr

/-- A buffer as it comes with the header. -/
def bufRef {α : Type} : Option (IndexedBuf α) → Ref
  | none => .null
  | some _ => .heap

/-- The array buffer, where it is copied. -/
def ClObject.copyArrays (o : ClObject) (base ofs : Nat) : Copied Ref :=
  if o.fixed.copiesArrays then copyArrayBuf base ofs o.hdr.arrayBuf
  else ⟨[], bufRef o.hdr.arrayBuf, 0⟩

/-- What the functions `rebuild…H` do with the area at `base`. -/
def rebuildH (sz : Nat) (o : ClObject) (base : Nat) : Option Area :=
  if sz ≥ 2 ^ 31 then none
  else
    let ofs := o.fixed.sizeof
    let q := copyQualifiers ofs o.qualifiers
    let p := copyProperties (ofs + q.length) o.properties
    let m := copyMethods (ofs + q.length + p.length) o.methods
    let s := copyStringBuf base (ofs + q.length + p.length + m.length) o.hdr.strBuf
    let a := o.copyArrays base (ofs + q.length + p.length + m.length + s.length)
    let head : FlatHead :=
      { fixed := o.fixed, type := o.hdr.type,
        containsEmbeddedObject := o.hdr.containsEmbeddedObject, size := align sz clAlign,
        strBuf := s.target, arrayBuf := a.target, qualifiers := q.target,
        properties := p.target, methods := m.target }
    some ⟨base, (0, .head head) :: (q.writes ++ (p.writes ++ (m.writes ++ (s.writes ++ a.writes))))⟩

def ClClass.object (cls : ClClass) : ClObject :=
  ⟨.cls cls.quals cls.parents cls.name cls.parent, cls.hdr, cls.qualifiers, cls.properties,
    cls.methods⟩

def ClInstance.object (inst : ClInstance) : ClObject :=
  ⟨.inst inst.quals inst.parents inst.className inst.nameSpace, inst.hdr, inst.qualifiers,
    inst.properties, .clear⟩

def ClObjectPath.object (op : ClObjectPath) : ClObject :=
  ⟨.objectPath op.hostName op.nameSpace op.className, op.hdr, .clear, op.properties, .clear⟩

def ClArgs.object (arg : ClArgs) : ClObject := ⟨.args, arg.hdr, .clear, arg.properties, .clear⟩

def ClQualifierDeclaration.object (q : ClQualifierDeclaration) : ClObject :=
  ⟨.qualifier q.flavor q.scope q.type q.arraySize q.qualifierName q.nameSpace, q.hdr,
    q.qualifierData, .clear, .clear⟩

/-- `rebuildClassH`. -/
def rebuildClassH (cls : ClClass) : Nat → Option Area := rebuildH (sizeClassH cls) cls.object

/-- `rebuildInstanceH`. -/
def rebuildInstanceH (inst : ClInstance) : Nat → Option Area :=
  rebuildH (sizeInstanceH inst) inst.object

/-- `rebuildObjectPathH`. -/
def rebuildObjectPathH (op : ClObjectPath) : Nat → Option Area :=
  rebuildH (sizeObjectPathH op) op.object

/-- `rebuildArgsH`. -/
def rebuildArgsH (arg : ClArgs) : Nat → Option Area := rebuildH (sizeArgsH arg) arg.object

/-- `rebuildQualifierH`. -/
def rebuildQualifierH (q : ClQualifierDeclaration) : Nat → Option Area :=
  rebuildH (sizeQualifierDeclarationH q) q.object

/-! ## Another address -/

/-- The bytes of the area are copied to another address. -/
def Area.copyTo (a : Area) (base : Nat) : Area := { a with base }

def Area.load (a : Area) (ofs : Nat) : Option Block := Blocks.load Block.size a.writes ofs

/-- What an address leads to. -/
def Area.deref (a : Area) (ptr : Nat) : Option Block :=
  if ptr < a.base then none else a.load (ptr - a.base)

/-- The head of the object in an area. -/
def Area.head (a : Area) : Option FlatHead :=
  match a.load 0 with
  | some (.head h) => some h
  | _ => none

/-- The index is where the offset says, from the address the object has now. -/
def FlatBuf.relocate (base : Nat) (h : FlatBuf) : FlatBuf :=
  { h with indexPtr := base + h.indexOffset, iMax := h.iMax % 2 ^ 15 }

def Block.relocateStrings (base : Nat) : Block → Block
  | .strBuf h cells => .strBuf (h.relocate base) cells
  | b => b

def Block.relocateArrays (base : Nat) : Block → Block
  | .arrayBuf h cells => .arrayBuf (h.relocate base) cells
  | b => b

/-- `ClObjectRelocateStringBuffer` and `ClObjectRelocateArrayBuffer`: nothing is done for
a buffer that is not there, and one that is not in the area is out of reach. -/
def Area.relocateBuf (a : Area) (f : Block → Block) : Ref → Option Area
  | .null => some a
  | .heap => none
  | .offset ofs => some { a with writes := update f ofs a.writes }

/-- `ClClassRelocateClass` and its siblings, which are all the same. -/
def Area.relocate (a : Area) : Option Area :=
  match a.head with
  | none => none
  | some h =>
    (a.relocateBuf (Block.relocateStrings a.base) h.strBuf).bind fun a =>
      a.relocateBuf (Block.relocateArrays a.base) h.arrayBuf

/-! ## Reading an area -/

/-- All items of a section. -/
def readItems {α β : Type} (read : β → Option α) : List β → Option (List α)
  | [] => some []
  | x :: xs => (read x).bind fun y => (readItems read xs).map (y :: ·)

/-- The section at its offset from the object. -/
def readSection {α β : Type} (items : Block → Option (List β)) (read : β → Option α) (a : Area)
    (s : FlatSection) : Option (ClSection α) :=
  if s.used = 0 then some .clear
  else
    match s.ref with
    | .offset ofs =>
      ((a.load ofs).bind items).bind fun xs =>
        if xs.length = s.used then (readItems read xs).map (⟨·, s.max, true⟩) else none
    | _ => none

def Block.qualifiers? : Block → Option (List ClQualifier)
  | .qualifiers items => some items
  | _ => none

def Block.properties? : Block → Option (List FlatProperty)
  | .properties items => some items
  | _ => none

def Block.parameters? : Block → Option (List FlatParameter)
  | .parameters items => some items
  | _ => none

def Block.methods? : Block → Option (List FlatMethod)
  | .methods items => some items
  | _ => none

def readQualifiers : Area → FlatSection → Option (ClSection ClQualifier) :=
  readSection Block.qualifiers? some

def readProperty (a : Area) (p : FlatProperty) : Option ClProperty :=
  (readQualifiers a p.qualifiers).map
    (⟨p.data, p.id, p.refName, p.flags, p.quals, p.originId, ·⟩)

def readParameter (a : Area) (p : FlatParameter) : Option ClParameter :=
  (readQualifiers a p.qualifiers).map (⟨p.id, p.type, p.arraySize, p.refName, p.quals, ·⟩)

def readMethod (a : Area) (m : FlatMethod) : Option ClMethod :=
  (readQualifiers a m.qualifiers).bind fun qualifiers =>
    (readSection Block.parameters? (readParameter a) a m.parameters).map
      (⟨m.id, m.type, m.flags, m.quals, m.originId, qualifiers, ·⟩)

/-- The index of a buffer is followed by its address. -/
def readIndex (a : Area) (h : FlatBuf) : Option (List Nat) :=
  if h.iUsed = 0 then some []
  else
    match a.deref h.indexPtr with
    | some (.index entries) => some entries
    | _ => none

/-- A buffer in the area. -/
def readBuf {α : Type} (a : Area) (h : FlatBuf) (cells : List α) : Option (IndexedBuf α) :=
  (readIndex a h).map fun index =>
    { index, iMax := h.iMax, iMalloced := false, iAlloc := h.iUsed, cells, bMax := h.bMax }

def readStrBuf (a : Area) : Ref → Option (Option (IndexedBuf UInt8))
  | .null => some none
  | .heap => none
  | .offset ofs =>
    match a.load ofs with
    | some (.strBuf h cells) => (readBuf a h cells).map some
    | _ => none

def readArrayBuf (a : Area) : Ref → Option (Option (IndexedBuf Stored))
  | .null => some none
  | .heap => none
  | .offset ofs =>
    match a.load ofs with
    | some (.arrayBuf h cells) => (readBuf a h cells).map some
    | _ => none

/-- The object a reader finds in an area. -/
def readFlat (a : Area) : Option ClObject := do
  let h ← a.head
  let qualifiers ← readQualifiers a h.qualifiers
  let properties ← readSection Block.properties? (readProperty a) a h.properties
  let methods ← readSection Block.methods? (readMethod a) a h.methods
  let strBuf ← readStrBuf a h.strBuf
  let arrayBuf ← readArrayBuf a h.arrayBuf
  return ⟨h.fixed, ⟨h.type, strBuf, arrayBuf, h.containsEmbeddedObject⟩, qualifiers, properties,
    methods⟩

/-- An object of its kind. -/
def ClObject.ofKind (o : ClObject) : CimObject :=
  match o.fixed with
  | .cls quals parents name parent =>
    .cls ⟨o.hdr, quals, parents, name, parent, o.qualifiers, o.properties, o.methods⟩
  | .inst quals parents className nameSpace =>
    .inst ⟨o.hdr, quals, parents, className, nameSpace, o.qualifiers, o.properties⟩
  | .objectPath hostName nameSpace className =>
    .objectPath ⟨o.hdr, hostName, nameSpace, className, o.properties⟩
  | .args => .args ⟨o.hdr, o.properties⟩
  | .qualifier flavor scope type arraySize qualifierName nameSpace =>
    .qualifier ⟨o.hdr, flavor, scope, type, arraySize, qualifierName, nameSpace, o.qualifiers⟩

end Sfcb.Object
