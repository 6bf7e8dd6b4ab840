import Sfcb.Object.Getters

/-!
# Packed objects

An object with no more room than it needs: its sections have the capacity of their items,
and its buffers that of their contents. This is what is found of an object in an area.
Nothing that reads an object looks at capacities, so a packed object cannot be told from
the one it was made of (`CimObject.reads_packed`).
-/

namespace Sfcb.Object

open Sfcb.Lib

/-- A section with no more room than its items need. -/
def packSection {α : Type} (pack : α → α) (s : ClSection α) : ClSection α :=
  if s.items.length = 0 then .clear else ⟨s.items.map pack, s.items.length % 2 ^ 15, true⟩

theorem packSection_items {α : Type} (pack : α → α) (s : ClSection α) :
    (packSection pack s).items = s.items.map pack := by
  unfold packSection
  split
  · next h => rw [List.length_eq_zero_iff.mp h]; rfl
  · rfl

def packQualifiers (s : ClSection ClQualifier) : ClSection ClQualifier :=
  packSection (fun q => q) s

def ClProperty.packed (p : ClProperty) : ClProperty :=
  { p with qualifiers := packQualifiers p.qualifiers }

def ClParameter.packed (p : ClParameter) : ClParameter :=
  { p with qualifiers := packQualifiers p.qualifiers }

def ClMethod.packed (m : ClMethod) : ClMethod :=
  { m with
    qualifiers := packQualifiers m.qualifiers
    parameters := packSection ClParameter.packed m.parameters }

/-- A buffer with no more room than its contents need, with its index in the area. -/
def packBuf {α : Type} (b : IndexedBuf α) : IndexedBuf α :=
  { index := b.index, iMax := b.index.length % 2 ^ 15, iMalloced := false,
    iAlloc := b.index.length, cells := b.cells, bMax := b.cells.length }

def ObjectHdr.packed (hdr : ObjectHdr) : ObjectHdr :=
  { hdr with strBuf := hdr.strBuf.map packBuf, arrayBuf := hdr.arrayBuf.map packBuf }

def CimObject.packed : CimObject → CimObject
  | .cls c => .cls { c with
      hdr := c.hdr.packed
      qualifiers := packQualifiers c.qualifiers
      properties := packSection ClProperty.packed c.properties
      methods := packSection ClMethod.packed c.methods }
  | .inst i => .inst { i with
      hdr := i.hdr.packed
      qualifiers := packQualifiers i.qualifiers
      properties := packSection ClProperty.packed i.properties }
  | .objectPath op => .objectPath { op with
      hdr := op.hdr.packed
      properties := packSection ClProperty.packed op.properties }
  | .args arg => .args { arg with
      hdr := arg.hdr.packed
      properties := packSection ClProperty.packed arg.properties }
  | .qualifier q => .qualifier { q with
      hdr := q.hdr.packed
      qualifierData := packQualifiers q.qualifierData }

/-! ## Buffers -/

section Buffers

variable (hdr : ObjectHdr)

@[simp] theorem getClObject_packed (id : Nat) : getClObject hdr.packed id = getClObject hdr id := by
  unfold getClObject ObjectHdr.packed
  cases hdr.strBuf <;> rfl

@[simp] theorem getClString_packed (id : Nat) : getClString hdr.packed id = getClString hdr id := by
  unfold getClString
  rw [getClObject_packed]

@[simp] theorem getClArray_packed (id : Nat) : getClArray hdr.packed id = getClArray hdr id := by
  unfold getClArray ObjectHdr.packed
  cases hdr.arrayBuf <;> rfl

@[simp] theorem readText_packed (w : Word) : readText hdr.packed w = readText hdr w := by
  unfold readText
  simp only [getClString_packed]

@[simp] theorem makeItem_packed (type : CMPIBase) (cell : Stored) :
    makeItem hdr.packed type cell = makeItem hdr type cell := by
  simp only [makeItem, readElemText, getClString_packed, getClObject_packed]

@[simp] theorem makeItems_packed (type : CMPIBase) (m : Nat) (cells : List Stored) :
    makeItems hdr.packed type m cells = makeItems hdr type m cells := by
  induction m generalizing cells with
  | zero => cases cells <;> rfl
  | succ m ih =>
    cases cells with
    | nil => rfl
    | cons cell cells => simp only [makeItems, makeItem_packed, ih]

@[simp] theorem nativeMakeCMPIArray_packed (cells : List Stored) :
    nativeMakeCMPIArray hdr.packed cells = nativeMakeCMPIArray hdr cells := by
  unfold nativeMakeCMPIArray
  simp only [makeItems_packed]

@[simp] theorem readArray_packed (d : Stored) : d.readArray hdr.packed = d.readArray hdr := by
  have harray : nativeMakeCMPIArray hdr.packed = nativeMakeCMPIArray hdr :=
    funext (nativeMakeCMPIArray_packed hdr)
  unfold Stored.readArray
  simp only [getClArray_packed, harray]

@[simp] theorem readObject_packed (d : Stored) : d.readObject hdr.packed = d.readObject hdr := by
  unfold Stored.readObject
  simp only [getClObject_packed]

@[simp] theorem readQualifierData_packed (d : Stored) :
    readQualifierData hdr.packed d = readQualifierData hdr d := by
  simp only [readQualifierData, Stored.readText, readText_packed, readArray_packed]

@[simp] theorem readKeyData_packed (d : Stored) :
    readKeyData hdr.packed d = readKeyData hdr d := by
  simp only [readKeyData, Stored.readText, readText_packed]

@[simp] theorem readPropertyData_packed (d : Stored) :
    readPropertyData hdr.packed d = readPropertyData hdr d := by
  simp only [readPropertyData, Stored.readText, readText_packed, readArray_packed,
    readObject_packed]

@[simp] theorem readDefaultData_packed (d : Stored) :
    readDefaultData hdr.packed d = readDefaultData hdr d := by
  simp only [readDefaultData, readPropertyData_packed]

@[simp] theorem clGetQualifierAt_packed (q : ClQualifier) :
    clGetQualifierAt hdr.packed q = clGetQualifierAt hdr q := by
  simp only [clGetQualifierAt, readQualifierData_packed, getClString_packed]

end Buffers

/-! ## Sections -/

section Sections

variable {α β : Type} (pack : α → α) (s : ClSection α) (id : Int)

theorem itemIn_packed (read : α → Option (Option β)) :
    itemIn (packSection pack s) id read = itemIn s id fun x => read (pack x) := by
  unfold itemIn
  rw [packSection_items, List.length_map, List.getElem?_map]
  cases s.items[id.toNat]? <;> rfl

theorem itemAt_packed (read : α → Option β) :
    itemAt (packSection pack s) id read = itemAt s id fun x => read (pack x) :=
  itemIn_packed pack s id _

theorem countIn_packed (count : α → Nat) :
    countIn (packSection pack s) id count = countIn s id fun x => count (pack x) := by
  unfold countIn
  rw [packSection_items, List.length_map, List.getElem?_map]
  cases s.items[id.toNat]? <;> rfl

end Sections

theorem length_packSection {α : Type} (pack : α → α) (s : ClSection α) :
    (packSection pack s).items.length = s.items.length := by
  rw [packSection_items, List.length_map]

/-- The qualifiers of an item. -/
theorem qualifierAt_packed (hdr : ObjectHdr) (s : ClSection ClQualifier) (id : Int) :
    itemAt (packQualifiers s) id (clGetQualifierAt hdr.packed) =
      itemAt s id (clGetQualifierAt hdr) := by
  unfold packQualifiers
  rw [itemAt_packed]
  simp only [clGetQualifierAt_packed]

theorem locateProperty_packed (hdr : ObjectHdr) (s : ClSection ClProperty) (id : CStr) :
    locateProperty hdr.packed (packSection ClProperty.packed s).items id =
      locateProperty hdr s.items id := by
  have hnamed : ClProperty.isNamed hdr.packed id ∘ ClProperty.packed = ClProperty.isNamed hdr id := by
    funext p
    simp only [Function.comp_apply, ClProperty.isNamed, getClString_packed, ClProperty.packed]
  unfold locateProperty
  rw [packSection_items, List.findIdx?_map, hnamed]

theorem locateMethod_packed (hdr : ObjectHdr) (s : ClSection ClMethod) (id : CStr) :
    clClassLocateMethod hdr.packed (packSection ClMethod.packed s).items id =
      clClassLocateMethod hdr s.items id := by
  unfold clClassLocateMethod
  rw [packSection_items, List.findIdx?_map]
  simp only [Function.comp_def, getClString_packed, ClMethod.packed]

/-! ## Objects -/

theorem ClClass.reads_packed (c : ClClass) : c.ReadsAs { c with
    hdr := c.hdr.packed
    qualifiers := packQualifiers c.qualifiers
    properties := packSection ClProperty.packed c.properties
    methods := packSection ClMethod.packed c.methods } where
  string := getClString_packed c.hdr
  names := ⟨rfl, rfl⟩
  bits := ⟨rfl, rfl⟩
  qualifierCount := length_packSection _ c.qualifiers
  qualifierAt := qualifierAt_packed c.hdr c.qualifiers
  propertyCount := length_packSection _ c.properties
  propertyAt id := by
    unfold clClassGetPropertyAt
    rw [itemAt_packed]
    simp only [readDefaultData_packed, getClString_packed, ClProperty.packed]
  locateProperty := locateProperty_packed c.hdr c.properties
  propQualifierCount id := by
    unfold clClassGetPropQualifierCount
    rw [countIn_packed]
    simp only [ClProperty.packed, packQualifiers, length_packSection]
  propQualifierAt id qid := by
    unfold clClassGetPropQualifierAt
    rw [itemIn_packed]
    simp only [ClProperty.packed, qualifierAt_packed]
  methodCount := length_packSection _ c.methods
  methodAt id := by
    unfold clClassGetMethodAt
    rw [itemAt_packed]
    simp only [getClString_packed, ClMethod.packed]
  locateMethod := locateMethod_packed c.hdr c.methods
  methQualifierCount id := by
    unfold clClassGetMethQualifierCount
    rw [countIn_packed]
    simp only [ClMethod.packed, packQualifiers, length_packSection]
  methQualifierAt id qid := by
    unfold clClassGetMethQualifierAt
    rw [itemIn_packed]
    simp only [ClMethod.packed, qualifierAt_packed]
  methParameterCount id := by
    unfold clClassGetMethParameterCount
    rw [countIn_packed]
    simp only [ClMethod.packed, length_packSection]
  methParameterAt id pid := by
    unfold clClassGetMethParameterAt
    rw [itemIn_packed]
    simp only [ClMethod.packed, itemAt_packed, ClParameter.packed, getClString_packed]
  methParamQualifierCount id pid := by
    unfold clClassGetMethParamQualifierCount
    rw [itemIn_packed]
    simp only [ClMethod.packed, itemAt_packed, ClParameter.packed, packQualifiers,
      length_packSection]
  methParamQualifierAt id pid qid := by
    unfold clClassGetMethParamQualifierAt
    rw [itemIn_packed]
    simp only [ClMethod.packed, itemIn_packed, ClParameter.packed, qualifierAt_packed]

theorem ClInstance.reads_packed (i : ClInstance) : i.ReadsAs { i with
    hdr := i.hdr.packed
    qualifiers := packQualifiers i.qualifiers
    properties := packSection ClProperty.packed i.properties } where
  string := getClString_packed i.hdr
  names := ⟨rfl, rfl⟩
  bits := ⟨rfl, rfl⟩
  qualifierAt := qualifierAt_packed i.hdr i.qualifiers
  propertyCount := length_packSection _ i.properties
  propertyAt id := by
    unfold clInstanceGetPropertyAt
    rw [itemAt_packed]
    simp only [readPropertyData_packed, getClString_packed, ClProperty.packed]
  provided id := by
    have harray : nativeMakeCMPIArray i.hdr.packed = nativeMakeCMPIArray i.hdr :=
      funext (nativeMakeCMPIArray_packed i.hdr)
    unfold getPropertyAt
    rw [packSection_items, List.getElem?_map]
    cases i.properties.items[id]? with
    | none => rfl
    | some p =>
      simp only [Option.map_some, ClProperty.packed, readText_packed, getClArray_packed,
        getClObject_packed, harray]
  filtered id := by
    unfold clInstanceIsPropertyAtFiltered
    rw [packSection_items, List.getElem?_map]
    cases i.properties.items[id.toNat]? <;> rfl
  locateProperty := locateProperty_packed i.hdr i.properties

theorem ClObjectPath.reads_packed (op : ClObjectPath) : op.ReadsAs { op with
    hdr := op.hdr.packed
    properties := packSection ClProperty.packed op.properties } where
  string := getClString_packed op.hdr
  names := ⟨rfl, rfl, rfl⟩
  keyCount := length_packSection _ op.properties
  keyAt id := by
    unfold clObjectPathGetKeyAt
    rw [itemAt_packed]
    simp only [readKeyData_packed, getClString_packed, ClProperty.packed]
  locateProperty := locateProperty_packed op.hdr op.properties

theorem ClArgs.reads_packed (arg : ClArgs) : arg.ReadsAs { arg with
    hdr := arg.hdr.packed
    properties := packSection ClProperty.packed arg.properties } where
  string := getClString_packed arg.hdr
  argCount := length_packSection _ arg.properties
  argAt id := by
    unfold clArgsGetArgAt
    rw [itemAt_packed]
    simp only [readPropertyData_packed, getClString_packed, ClProperty.packed]
  locateProperty := locateProperty_packed arg.hdr arg.properties

theorem ClQualifierDeclaration.reads_packed (q : ClQualifierDeclaration) : q.ReadsAs { q with
    hdr := q.hdr.packed
    qualifierData := packQualifiers q.qualifierData } where
  string := getClString_packed q.hdr
  names := ⟨rfl, rfl⟩
  fields := ⟨rfl, rfl, rfl, rfl⟩
  data := by
    unfold clQualifierDeclarationGetQualifierData packQualifiers
    rw [packSection_items, List.map_id']
    simp only [readQualifierData_packed]
  all := qualifierAt_packed q.hdr q.qualifierData

/-- Packing changes nothing that can be read. -/
theorem CimObject.reads_packed (o : CimObject) : o.SameReadings o.packed := by
  cases o with
  | cls c => exact c.reads_packed
  | inst i => exact i.reads_packed
  | objectPath op => exact op.reads_packed
  | args arg => exact arg.reads_packed
  | qualifier q => exact q.reads_packed

end Sfcb.Object
