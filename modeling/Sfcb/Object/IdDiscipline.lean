import Sfcb.Object.Contents
import Sfcb.Object.Objects

/-!
# Ids instead of pointers

A property whose value is a text, an instance or an array has the id of it in the value
field. `addObjectPropertyH` keeps to that in most of its branches; `Call.misstores` names
the others, where a pointer (or nothing) is stored as it came:

- a property that is `chars` is set with a `string`;
- a property with a plain number is set with anything that needs an id;
- an embedded instance is replaced by another one, or set where the object is no instance;
- a pointer is null and the state does not say so.

A call can also find no room in a buffer or a section (`Call.HasRoomIn`). A run of calls
that do none of this keeps `WellFormed`, and so `HasId` holds of every property after
every call (`runCalls_hasId`).
-/

namespace Sfcb.Object

open Sfcb.Lib Sfcb.Lib.IndexedBuf

/-! ## The discipline -/

/-- The value of such a type is in the string buffer. -/
def CMPIType.inStrings (type : CMPIType) : Bool :=
  type.array = false && (type.base.isText || type.base = .inst)

/-- A stored value that is not null refers to the buffers by a number they have, and what
is there ends inside of the buffer. -/
structure HasId (hdr : ObjectHdr) (data : Stored) : Prop where
  string : isNull data.state = false → data.type.inStrings = true →
    ∃ id bytes, data.value = .num id ∧ 1 ≤ id ∧ id ≤ IndexedBuf.used hdr.strBuf ∧
      getClObject hdr id = some bytes ∧ 0 ∈ bytes
  array : isNull data.state = false → data.type.array = true →
    ∃ id cells, data.value = .num id ∧ 1 ≤ id ∧ id ≤ IndexedBuf.used hdr.arrayBuf ∧
      getClArray hdr id = some cells ∧ arrayLength cells ≤ cells.length

/-! ## Calls -/

/-- The arguments of `addObjectPropertyH`. -/
structure Call where
  id : CStr
  d : CMPIData
  refName : Option CStr
  deriving DecidableEq, Repr

/-- `d` is what its type and its state say: nothing where it is null, else a number, or a
pointer to what the type says, which may be null. -/
def CMPIData.shaped (d : CMPIData) : Bool :=
  if isNull d.state then d.value = .word 0
  else
    match d.value with
    | .word _ => !d.type.array && !d.type.inStrings
    | .nullPtr => d.type.array || d.type.inStrings
    | .text _ => !d.type.array && d.type.base.isText
    | .blob bytes => d.type = CMPIBase.inst.simple && decide (0 ∈ bytes)
    | .array a => d.type.array && a.data.all (ArrayItem.shaped a.type)

/-- What the string buffer gets for a value. -/
def CMPIData.records (d : CMPIData) : List (List UInt8) :=
  if isNull d.state then []
  else
    match d.value with
    | .text s => [s ++ [0]]
    | .blob bytes => [bytes]
    | .array a => a.records
    | _ => []

/-- What the array buffer gets for a value, up to the ids in it. -/
def CMPIData.arrayRecords (d : CMPIData) : List (List Stored) :=
  if isNull d.state then []
  else
    match d.value with
    | .array a => [a.arrayRecord 0]
    | _ => []

/-- The paths in a value print in fewer than 4096 characters. -/
def CMPIData.prints (d : CMPIData) : Bool :=
  isNull d.state ||
    match d.value with
    | .text s => d.type.base.prints s
    | .array a => a.prints
    | _ => true

/-- A property that is there refuses a value of another type. -/
def ClProperty.refuses (hdr : ObjectHdr) (p : ClProperty) (d : CMPIData) : Bool :=
  let od := p.data
  !isNull d.state &&
    if od.type = CMPIBase.chars.simple then
      p.quals ≠ 0 || (d.type ≠ CMPIBase.chars.simple && d.type ≠ CMPIBase.string.simple)
    else if od.type = CMPIBase.dateTime.simple then d.type ≠ CMPIBase.dateTime.simple
    else if od.type = CMPIBase.ref.simple then d.type ≠ CMPIBase.ref.simple
    else if od.type.array then d.type.array = false
    else if hdr.type = .inst ∧ od.type = CMPIBase.inst.simple then d.type ≠ CMPIBase.inst.simple
    else false

/-- A property that is there keeps the value as it came, or nothing of it. -/
def ClProperty.misstores (hdr : ObjectHdr) (p : ClProperty) (d : CMPIData) : Bool :=
  let od := p.data
  !isNull d.state &&
    (d.value = .nullPtr ||
      if od.type = CMPIBase.chars.simple then d.type = CMPIBase.string.simple
      else if od.type = CMPIBase.dateTime.simple ∨ od.type = CMPIBase.ref.simple ∨
          od.type.array then
        false
      else if hdr.type = .inst ∧ od.type = CMPIBase.inst.simple then od.value ≠ .num 0
      else d.type.inStrings || d.type.array)

/-- The property a call is about. -/
def Call.located (o : PropertyStore) (c : Call) : Option ClProperty :=
  (locateProperty o.hdr o.properties.items c.id).bind (o.properties.items[·]?)

/-- The call stores a value against the discipline. -/
def Call.misstores (o : PropertyStore) (c : Call) : Bool :=
  match c.located o with
  | none => !isNull c.d.state && c.d.value = .nullPtr
  | some p => !p.refuses o.hdr c.d && p.misstores o.hdr c.d

/-- There is room for what the call stores in a new property, or in one that is there, and for
the paths where they are printed. -/
def Call.HasRoomIn (o : PropertyStore) (c : Call) : Option ClProperty → Prop
  | none =>
    c.d.prints = true ∧ RoomFor o.hdr.strBuf
        ((c.id ++ [0]) :: (c.refName.toList.map (· ++ [0]) ++ c.d.records)) ∧
      RoomFor o.hdr.arrayBuf c.d.arrayRecords ∧
      (o.properties.there = false ∨ o.properties.max ≠ 0)
  | some p =>
    p.refuses o.hdr c.d = false →
      c.d.prints = true ∧ RoomFor o.hdr.strBuf c.d.records ∧ RoomFor o.hdr.arrayBuf c.d.arrayRecords

/-- The condition on a call. -/
structure Call.Meets (o : PropertyStore) (c : Call) : Prop where
  stores : c.misstores o = false
  room : c.HasRoomIn o (c.located o)

instance (o : PropertyStore) (c : Call) : (p : Option ClProperty) → Decidable (c.HasRoomIn o p)
  | none => inferInstanceAs (Decidable (_ ∧ _ ∧ _ ∧ _))
  | some p => inferInstanceAs (Decidable (p.refuses o.hdr c.d = false → _ ∧ _ ∧ _))

instance (o : PropertyStore) (c : Call) : Decidable (c.Meets o) :=
  decidable_of_iff (c.misstores o = false ∧ c.HasRoomIn o (c.located o))
    ⟨fun h => ⟨h.1, h.2⟩, fun h => ⟨h.stores, h.room⟩⟩

/-! ## Values -/

/-- The value field fits the type, with `n` strings and `m` arrays in the buffers. -/
structure StoredOk (n m : Nat) (data : Stored) : Prop where
  null : isNull data.state = true → data.value = .num 0
  string : isNull data.state = false → data.type.inStrings = true →
    ∃ id, data.value = .num id ∧ 1 ≤ id ∧ id ≤ n
  array : isNull data.state = false → data.type.array = true →
    ∃ id, data.value = .num id ∧ 1 ≤ id ∧ id ≤ m

theorem StoredOk.mono {n n' m m' : Nat} {data : Stored} (h : StoredOk n m data) (hn : n ≤ n')
    (hm : m ≤ m') : StoredOk n' m' data := by
  refine ⟨h.null, fun hstate htype => ?_, fun hstate htype => ?_⟩
  · obtain ⟨id, hid, hpos, hle⟩ := h.string hstate htype
    exact ⟨id, hid, hpos, Nat.le_trans hle hn⟩
  · obtain ⟨id, hid, hpos, hle⟩ := h.array hstate htype
    exact ⟨id, hid, hpos, Nat.le_trans hle hm⟩

theorem inStrings_array {type : CMPIType} (h : type.inStrings = true) : type.array = false := by
  unfold CMPIType.inStrings at h
  simpa using (Bool.and_eq_true_iff.mp h).1

/-- A string that has just been added. -/
theorem storedOk_string {n m id : Nat} {type : CMPIType} {state : Nat}
    (hstate : isNull state = false) (htype : type.inStrings = true) (hpos : 1 ≤ id)
    (hle : id ≤ n) : StoredOk n m ⟨type, state, .num id⟩ := by
  refine ⟨fun h => ?_, fun _ _ => ⟨id, rfl, hpos, hle⟩, fun _ h => ?_⟩
  · rw [show isNull state = true from h] at hstate
    exact absurd hstate (by simp)
  · rw [inStrings_array htype] at h
    exact absurd h (by simp)

/-- An array that has just been added. -/
theorem storedOk_array {n m id : Nat} {type : CMPIType} {state : Nat}
    (hstate : isNull state = false) (htype : type.array = true) (hpos : 1 ≤ id)
    (hle : id ≤ m) : StoredOk n m ⟨type, state, .num id⟩ := by
  refine ⟨fun h => ?_, fun _ h => ?_, fun _ _ => ⟨id, rfl, hpos, hle⟩⟩
  · rw [show isNull state = true from h] at hstate
    exact absurd hstate (by simp)
  · rw [inStrings_array h] at htype
    exact absurd htype (by simp)

/-- Nothing, or a number. -/
theorem storedOk_raw {n m : Nat} {d : CMPIData} (hshape : d.shaped = true)
    (hraw : isNull d.state = true ∨ d.type.inStrings = false ∧ d.type.array = false) :
    StoredOk n m d.raw := by
  refine ⟨fun h => ?_, fun h htype => ?_, fun h htype => ?_⟩
  · unfold CMPIData.shaped at hshape
    rw [if_pos (show isNull d.state = true from h)] at hshape
    show d.value.raw = _
    rw [of_decide_eq_true hshape]
    rfl
  · rcases hraw with hnull | ⟨hstr, -⟩
    · exact absurd (hnull.symm.trans h) (by simp)
    · exact absurd (hstr.symm.trans htype) (by simp)
  · rcases hraw with hnull | ⟨-, harr⟩
    · exact absurd (hnull.symm.trans h) (by simp)
    · exact absurd (harr.symm.trans htype) (by simp)


/-! ## Storing a value -/

section Storing

variable {hdr : ObjectHdr} {strs : List (List UInt8)} {arrs : List (List Stored)}

/-- The object after a value was stored: nothing is lost, and the value has its id. -/
structure Stores (strs : List (List UInt8)) (arrs : List (List Stored)) (hdr' : ObjectHdr)
    (data : Stored) (strs' : List (List UInt8)) (arrs' : List (List Stored)) : Prop where
  contents : Contents hdr' strs' arrs'
  strings : strs.length ≤ strs'.length
  arrays : arrs.length ≤ arrs'.length
  stored : StoredOk strs'.length arrs'.length data

/-- A value that is not null, by what it points at. -/
theorem shaped_cases {d : CMPIData} (hshape : d.shaped = true) (hstate : isNull d.state = false) :
    (d.value = .nullPtr) ∨
    (∃ (base : CMPIBase) (n : Nat),
      d = ⟨base.simple, d.state, .word n⟩ ∧ base.isText = false ∧ base ≠ .inst) ∨
    (∃ (base : CMPIBase) (s : CStr), d = ⟨base.simple, d.state, .text s⟩ ∧ base.isText = true) ∨
    (∃ bytes, d = ⟨CMPIBase.inst.simple, d.state, .blob bytes⟩ ∧ 0 ∈ bytes) ∨
    ∃ (base : CMPIBase) (a : NativeArray), d = ⟨base.arrayOf, d.state, .array a⟩ ∧
      ∀ item ∈ a.data, item.shaped a.type = true := by
  unfold CMPIData.shaped at hshape
  rw [if_neg (by simp [hstate])] at hshape
  obtain ⟨⟨base, array⟩, state, value⟩ := d
  cases value with
  | nullPtr => exact Or.inl rfl
  | word n =>
    obtain ⟨harray, hstr⟩ := Bool.and_eq_true_iff.mp hshape
    obtain rfl : array = false := by simpa using harray
    refine Or.inr (Or.inl ⟨base, n, rfl, ?_⟩)
    simpa [CMPIType.inStrings] using hstr
  | text s =>
    obtain ⟨harray, htext⟩ := Bool.and_eq_true_iff.mp hshape
    obtain rfl : array = false := by simpa using harray
    exact Or.inr (Or.inr (Or.inl ⟨base, s, rfl, htext⟩))
  | blob bytes =>
    obtain ⟨htype, hmem⟩ := Bool.and_eq_true_iff.mp hshape
    obtain ⟨rfl, rfl⟩ := CMPIType.mk.inj (of_decide_eq_true htype)
    exact Or.inr (Or.inr (Or.inr (Or.inl ⟨bytes, rfl, of_decide_eq_true hmem⟩)))
  | array a =>
    obtain ⟨harray, hitems⟩ := Bool.and_eq_true_iff.mp hshape
    obtain rfl : array = true := harray
    exact Or.inr (Or.inr (Or.inr (Or.inr ⟨base, a, rfl, List.all_eq_true.mp hitems⟩)))

theorem shaped_text {d : CMPIData} (hshape : d.shaped = true) (hstate : isNull d.state = false)
    (hptr : d.value ≠ .nullPtr) {base : CMPIBase} (hbase : base.isText = true)
    (htype : d.type = base.simple) : ∃ s, d = ⟨base.simple, d.state, .text s⟩ := by
  rcases shaped_cases hshape hstate with hv | ⟨base', n, hd, hbase', -⟩ | ⟨base', s, hd, -⟩ |
    ⟨bytes, hd, -⟩ | ⟨base', a, hd, -⟩
  · exact absurd hv hptr
  · rw [hd] at htype
    obtain rfl : base' = base := (CMPIType.mk.inj htype).1
    exact absurd (hbase.symm.trans hbase') (by simp)
  · rw [hd] at htype
    obtain rfl : base' = base := (CMPIType.mk.inj htype).1
    exact ⟨s, hd⟩
  · rw [hd] at htype
    obtain rfl : CMPIBase.inst = base := (CMPIType.mk.inj htype).1
    exact Bool.noConfusion hbase
  · rw [hd] at htype
    exact Bool.noConfusion (CMPIType.mk.inj htype).2

theorem shaped_array {d : CMPIData} (hshape : d.shaped = true) (hstate : isNull d.state = false)
    (hptr : d.value ≠ .nullPtr) (htype : d.type.array = true) :
    ∃ (base : CMPIBase) (a : NativeArray), d = ⟨base.arrayOf, d.state, .array a⟩ ∧
      ∀ item ∈ a.data, item.shaped a.type = true := by
  rcases shaped_cases hshape hstate with hv | ⟨base, n, hd, -⟩ | ⟨base, s, hd, -⟩ |
    ⟨bytes, hd, -⟩ | harray
  · exact absurd hv hptr
  · rw [hd] at htype
    exact Bool.noConfusion htype
  · rw [hd] at htype
    exact Bool.noConfusion htype
  · rw [hd] at htype
    exact Bool.noConfusion htype
  · exact harray

theorem shaped_inst {d : CMPIData} (hshape : d.shaped = true) (hstate : isNull d.state = false)
    (hptr : d.value ≠ .nullPtr) (htype : d.type = CMPIBase.inst.simple) :
    ∃ bytes, d = ⟨CMPIBase.inst.simple, d.state, .blob bytes⟩ ∧ 0 ∈ bytes := by
  rcases shaped_cases hshape hstate with hv | ⟨base, n, hd, -, hne⟩ | ⟨base, s, hd, hbase⟩ |
    hblob | ⟨base, a, hd, -⟩
  · exact absurd hv hptr
  · rw [hd] at htype
    exact absurd (CMPIType.mk.inj htype).1 hne
  · rw [hd] at htype
    obtain rfl : base = CMPIBase.inst := (CMPIType.mk.inj htype).1
    exact Bool.noConfusion hbase
  · exact hblob
  · rw [hd] at htype
    exact Bool.noConfusion (CMPIType.mk.inj htype).2

theorem inStrings_text {base : CMPIBase} (h : base.isText = true) :
    base.simple.inStrings = true := by
  show (true && (base.isText || _)) = true
  rw [h]
  rfl

/-- An array added to the buffers. -/
theorem addClArray_stores (h : Contents hdr strs arrs) {base : CMPIBase} {state : Nat}
    (hstate : isNull state = false) {a : NativeArray}
    (hshape : ∀ item ∈ a.data, item.shaped a.type = true) (hprints : a.prints = true)
    (hstrs : RoomFor hdr.strBuf a.records) (harrs : RoomFor hdr.arrayBuf [a.arrayRecord 0]) :
    ∃ hdr' id strs' arrs', addClArray hdr a = some (hdr', id) ∧
      Stores strs arrs hdr' ⟨base.arrayOf, state, .num id⟩ strs' arrs' := by
  obtain ⟨b, b', hadd, hcontents⟩ := addClArray_contents h hshape hprints hstrs
    (harrs.congr (by simp [NativeArray.arrayRecord, length_cellsOf]))
  refine ⟨_, _, _, _, hadd, hcontents, by simp, by simp, ?_⟩
  exact storedOk_array hstate rfl (by omega) (by simp)

/-- The value of a new property. -/
theorem storeNew_stores (h : Contents hdr strs arrs) {d : CMPIData} (hshape : d.shaped = true)
    (hptr : isNull d.state = false → d.value ≠ .nullPtr) (hprints : d.prints = true)
    (hstrs : RoomFor hdr.strBuf d.records) (harrs : RoomFor hdr.arrayBuf d.arrayRecords) :
    ∃ hdr' data strs' arrs', storeNew hdr d = some (hdr', data) ∧
      Stores strs arrs hdr' data strs' arrs' := by
  by_cases hnull : isNull d.state = true
  · exact ⟨hdr, d.raw, strs, arrs, storeNew_null hnull, h, Nat.le_refl _, Nat.le_refl _,
      storedOk_raw hshape (Or.inl hnull)⟩
  have hstate := Bool.eq_false_iff.mpr hnull
  unfold CMPIData.records at hstrs
  unfold CMPIData.arrayRecords at harrs
  unfold CMPIData.prints at hprints
  rw [if_neg hnull] at hstrs harrs
  rw [hstate, Bool.false_or] at hprints
  rcases shaped_cases hshape hstate with hv | ⟨base, n, hd, hbase, hinst⟩ | ⟨base, s, hd, hbase⟩ |
    ⟨bytes, hd, hmem⟩ | ⟨base, a, hd, hitems⟩
  · exact absurd hv (hptr hstate)
  · refine ⟨hdr, d.raw, strs, arrs, ?_, h, Nat.le_refl _, Nat.le_refl _, ?_⟩
    · rw [hd, storeNew_word hbase hinst]
      rfl
    · refine storedOk_raw hshape (Or.inr ?_)
      rw [hd]
      exact ⟨by simp [CMPIType.inStrings, CMPIBase.simple, hbase, hinst], rfl⟩
  · rw [hd] at hstrs hprints
    obtain ⟨b, hadd, hcontents, -⟩ := addClString_contents h hstrs
    refine ⟨_, _, _, _, by rw [hd, storeNew_text hstate hbase hprints, hadd]; rfl, hcontents, by simp,
      Nat.le_refl _, ?_⟩
    refine storedOk_string hstate (inStrings_text ?_) (by omega) (by simp)
    unfold newTextType
    split
    · rfl
    · exact hbase
  · rw [hd] at hstrs
    have h' : Contents { hdr with containsEmbeddedObject := true } strs arrs :=
      ⟨h.strings, h.arrays⟩
    obtain ⟨b, hadd, hcontents, -⟩ := addClStringN_contents h' (delimited_of_mem hmem) hstrs
    exact ⟨_, _, _, _, by rw [hd, storeNew_blob hstate, hadd]; rfl, hcontents, by simp,
      Nat.le_refl _, storedOk_string hstate rfl (by omega) (by simp)⟩
  · rw [hd] at hstrs harrs hprints
    obtain ⟨hdr', id, strs', arrs', hadd, hstores⟩ := addClArray_stores h hstate
      hitems hprints hstrs harrs
    exact ⟨hdr', _, strs', arrs', by rw [hd, storeNew_array hstate, hadd]; rfl, hstores⟩

/-- The string of a property, or none yet. -/
theorem StoredOk.string_ref {n m : Nat} {data : Stored} (h : StoredOk n m data)
    (htype : data.type.inStrings = true) : ∃ id, data.value = .num id ∧ id ≤ n := by
  by_cases hnull : isNull data.state = true
  · exact ⟨0, h.null hnull, Nat.zero_le _⟩
  · obtain ⟨id, hid, -, hle⟩ := h.string (Bool.eq_false_iff.mpr hnull) htype
    exact ⟨id, hid, hle⟩

/-- The array of a property, or none yet. -/
theorem StoredOk.array_ref {n m : Nat} {data : Stored} (h : StoredOk n m data)
    (htype : data.type.array = true) : ∃ id, data.value = .num id ∧ id ≤ m := by
  by_cases hnull : isNull data.state = true
  · exact ⟨0, h.null hnull, Nat.zero_le _⟩
  · obtain ⟨id, hid, -, hle⟩ := h.array (Bool.eq_false_iff.mpr hnull) htype
    exact ⟨id, hid, hle⟩

/-- A text that is set again. -/
theorem replaceText_stores (h : Contents hdr strs arrs) {p : ClProperty}
    (hp : StoredOk strs.length arrs.length p.data) {base : CMPIBase} (hbase : base.isText = true)
    (hod : p.data.type = base.simple) {state : Nat} (hstate : isNull state = false) {s : CStr}
    (hprints : base.prints s = true) (hroom : RoomFor hdr.strBuf [s ++ [0]]) :
    ∃ hdr' data strs' arrs',
      replaceText hdr p.data ⟨base.simple, state, .text s⟩ = some (.stored hdr' data) ∧
      Stores strs arrs hdr' data strs' arrs' := by
  have htype := inStrings_text hbase
  obtain ⟨id, hvalue, hle⟩ := hp.string_ref (by rw [hod]; exact htype)
  by_cases hid : id = 0
  · subst hid
    obtain ⟨b, hadd, hcontents, -⟩ := addClString_contents h hroom
    exact ⟨_, _, _, _, by rw [replaceText_add hvalue hprints, hadd]; rfl, hcontents, by simp,
      Nat.le_refl _, storedOk_string hstate htype (by omega) (by simp)⟩
  · obtain ⟨b, hreplace, hcontents⟩ := replaceClStringN_contents h (delimited_text s)
      (Nat.pos_of_ne_zero hid) hle hroom
    refine ⟨_, ⟨base.simple, state, .num id⟩, _, _, ?_, hcontents, by simp, Nat.le_refl _,
      storedOk_string hstate htype (by omega) (by simpa using hle)⟩
    rw [replaceText_replace hvalue hid hprints]
    unfold replaceClString
    rw [hreplace]
    rfl

/-- An array that is set again. -/
theorem storeReplace_array_stores (h : Contents hdr strs arrs) {p : ClProperty}
    (hp : StoredOk strs.length arrs.length p.data) (hod : p.data.type.array = true)
    {base : CMPIBase} {state : Nat} (hstate : isNull state = false) {a : NativeArray}
    (hshape : ∀ item ∈ a.data, item.shaped a.type = true) (hprints : a.prints = true)
    (hstrs : RoomFor hdr.strBuf a.records) (harrs : RoomFor hdr.arrayBuf [a.arrayRecord 0]) :
    ∃ hdr' data strs' arrs',
      storeReplace hdr p ⟨base.arrayOf, state, .array a⟩ = some (.stored hdr' data) ∧
      Stores strs arrs hdr' data strs' arrs' := by
  obtain ⟨id, hvalue, hle⟩ := hp.array_ref hod
  by_cases hid : id = 0
  · subst hid
    obtain ⟨hdr', id, strs', arrs', hadd, hstores⟩ := addClArray_stores h hstate hshape hprints
      hstrs harrs
    exact ⟨hdr', _, strs', arrs', by rw [storeReplace_array_add hstate hod hvalue, hadd]; rfl,
      hstores⟩
  · obtain ⟨b, b', hreplace, hcontents⟩ := replaceClArray_contents h hshape hprints
      (Nat.pos_of_ne_zero hid) hle hstrs
      (harrs.congr (by simp [NativeArray.arrayRecord, length_cellsOf]))
    exact ⟨_, _, _, _, by rw [storeReplace_array_replace hstate hod hvalue hid, hreplace]; rfl,
      hcontents, by simp, by simp, storedOk_array hstate rfl (by omega) (by simpa using hle)⟩

/-- A property that keeps a value has a place for it, by the type it has: the branches of
`addObjectPropertyH` where none was wrong. -/
theorem kept_cases {p : ClProperty} {d : CMPIData} (hstate : isNull d.state = false)
    (hrefuses : p.refuses hdr d = false) (hmisstores : p.misstores hdr d = false) :
    (∃ base : CMPIBase, base.isText = true ∧ base ≠ .string ∧ (base = .chars → p.quals = 0) ∧
      p.data.type = base.simple ∧ d.type = base.simple) ∨
    (p.data.type.array = true ∧ d.type.array = true) ∨
    (hdr.type = .inst ∧ p.data.type = CMPIBase.inst.simple ∧ p.data.value = .num 0 ∧
      d.type = CMPIBase.inst.simple) ∨
    (d.type.inStrings = false ∧ d.type.array = false ∧
      storeReplace hdr p d = some (.stored hdr d.raw)) := by
  unfold ClProperty.refuses at hrefuses
  unfold ClProperty.misstores at hmisstores
  simp only [hstate, Bool.not_false, Bool.true_and] at hrefuses hmisstores
  obtain ⟨-, hmisstores⟩ := Bool.or_eq_false_iff.mp hmisstores
  -- the order of the tests is that of the source
  by_cases hchars : p.data.type = CMPIBase.chars.simple
  · rw [if_pos hchars] at hrefuses hmisstores
    obtain ⟨hquals, htype⟩ := Bool.or_eq_false_iff.mp hrefuses
    have hstring := of_decide_eq_false hmisstores
    have htype : d.type = CMPIBase.chars.simple := by simpa [hstring] using htype
    exact Or.inl ⟨.chars, rfl, by decide, fun _ => by simpa using hquals, hchars, htype⟩
  rw [if_neg hchars] at hrefuses hmisstores
  by_cases hdate : p.data.type = CMPIBase.dateTime.simple
  · rw [if_pos hdate] at hrefuses
    have htype : d.type = CMPIBase.dateTime.simple := by simpa using hrefuses
    exact Or.inl ⟨.dateTime, rfl, by decide, fun h => absurd h (by decide), hdate, htype⟩
  rw [if_neg hdate] at hrefuses
  by_cases href : p.data.type = CMPIBase.ref.simple
  · rw [if_pos href] at hrefuses
    have htype : d.type = CMPIBase.ref.simple := by simpa using hrefuses
    exact Or.inl ⟨.ref, rfl, by decide, fun h => absurd h (by decide), href, htype⟩
  rw [if_neg href] at hrefuses
  by_cases harray : p.data.type.array = true
  · rw [if_pos harray] at hrefuses
    exact Or.inr (Or.inl ⟨harray, by simpa using hrefuses⟩)
  rw [if_neg harray] at hrefuses
  rw [if_neg (by simp [hdate, href, harray])] at hmisstores
  by_cases hinst : hdr.type = .inst ∧ p.data.type = CMPIBase.inst.simple
  · rw [if_pos hinst] at hrefuses hmisstores
    exact Or.inr (Or.inr (Or.inl ⟨hinst.1, hinst.2, by simpa using hmisstores,
      by simpa using hrefuses⟩))
  -- what is left is stored as it comes
  rw [if_neg hinst] at hmisstores
  obtain ⟨hstr, harr⟩ := Bool.or_eq_false_iff.mp hmisstores
  refine Or.inr (Or.inr (Or.inr ⟨hstr, harr, ?_⟩))
  unfold storeReplace
  simp only [hstate, hchars, hdate, href, harray, hinst]
  rfl

/-- An instance that is set where there is none yet. -/
theorem storeReplace_blob (htype : hdr.type = .inst) {p : ClProperty} {state : Nat}
    (hstate : isNull state = false) (hod : p.data.type = CMPIBase.inst.simple)
    (hvalue : p.data.value = .num 0) (bytes : List UInt8) :
    storeReplace hdr p ⟨CMPIBase.inst.simple, state, .blob bytes⟩ =
      (addClStringN hdr bytes).map fun r =>
        .stored r.1 ⟨CMPIBase.inst.simple, state, .num r.2⟩ := by
  unfold storeReplace
  simp only [hstate, hod, htype, hvalue]
  rfl

/-- A value that is not refused, in a property that is there. -/
theorem storeReplace_stores (h : Contents hdr strs arrs) {p : ClProperty}
    (hp : StoredOk strs.length arrs.length p.data) {d : CMPIData} (hshape : d.shaped = true)
    (hrefuses : p.refuses hdr d = false) (hmisstores : p.misstores hdr d = false)
    (hprints : d.prints = true) (hstrs : RoomFor hdr.strBuf d.records) (harrs : RoomFor hdr.arrayBuf d.arrayRecords) :
    ∃ hdr' data strs' arrs', storeReplace hdr p d = some (.stored hdr' data) ∧
      Stores strs arrs hdr' data strs' arrs' := by
  by_cases hnull : isNull d.state = true
  · exact ⟨hdr, d.raw, strs, arrs, storeReplace_null hnull, h, Nat.le_refl _, Nat.le_refl _,
      storedOk_raw hshape (Or.inl hnull)⟩
  have hstate := Bool.eq_false_iff.mpr hnull
  have hptr : d.value ≠ .nullPtr := by
    intro hv
    unfold ClProperty.misstores at hmisstores
    rw [hstate, hv] at hmisstores
    exact absurd hmisstores (by simp)
  unfold CMPIData.records at hstrs
  unfold CMPIData.arrayRecords at harrs
  unfold CMPIData.prints at hprints
  rw [if_neg hnull] at hstrs harrs
  rw [hstate, Bool.false_or] at hprints
  rcases kept_cases hstate hrefuses hmisstores with
    ⟨base, hbase, hstring, hquals, hod, htype⟩ | ⟨hod, htype⟩ | ⟨hhdr, hod, hvalue, htype⟩ |
      ⟨hstr, harr, hraw⟩
  · obtain ⟨s, hd⟩ := shaped_text hshape hstate hptr hbase htype
    rw [hd] at hstrs hprints
    rw [hd, storeReplace_text hstate hbase hstring hod hquals]
    exact replaceText_stores h hp hbase hod hstate hprints hstrs
  · obtain ⟨base, a, hd, hitems⟩ := shaped_array hshape hstate hptr htype
    rw [hd] at hstrs harrs hprints ⊢
    exact storeReplace_array_stores h hp hod hstate hitems hprints hstrs harrs
  · obtain ⟨bytes, hd, hmem⟩ := shaped_inst hshape hstate hptr htype
    rw [hd] at hstrs
    obtain ⟨b, hadd, hcontents, -⟩ := addClStringN_contents h (delimited_of_mem hmem) hstrs
    exact ⟨_, _, _, _, by rw [hd, storeReplace_blob hhdr hstate hod hvalue, hadd]; rfl,
      hcontents, by simp, Nat.le_refl _, storedOk_string hstate rfl (by omega) (by simp)⟩
  · exact ⟨hdr, d.raw, strs, arrs, hraw, h, Nat.le_refl _, Nat.le_refl _,
      storedOk_raw hshape (Or.inr ⟨hstr, harr⟩)⟩

end Storing

/-! ## Steps and runs -/

/-- The buffers and the values that refer to them. -/
structure WellFormed (o : PropertyStore) (strs : List (List UInt8)) (arrs : List (List Stored)) :
    Prop where
  contents : Contents o.hdr strs arrs
  stored : ∀ p ∈ o.properties.items, StoredOk strs.length arrs.length p.data

theorem WellFormed.hasId {o : PropertyStore} {strs : List (List UInt8)}
    {arrs : List (List Stored)} (h : WellFormed o strs arrs) {p : ClProperty}
    (hp : p ∈ o.properties.items) : HasId o.hdr p.data := by
  have hok := h.stored p hp
  refine ⟨fun hstate htype => ?_, fun hstate htype => ?_⟩
  · obtain ⟨id, hid, hpos, hle⟩ := hok.string hstate htype
    have hlt : id - 1 < strs.length := by omega
    obtain ⟨bytes, hget, hpre⟩ := h.contents.getClObject_eq (List.getElem?_eq_getElem hlt)
    rw [show id - 1 + 1 = id by omega] at hget
    refine ⟨id, bytes, hid, hpos, by rw [h.contents.strings.used_eq]; exact hle, hget, ?_⟩
    exact hpre.subset
      (mem_of_strLength_le (h.contents.strings.delimited _ (List.getElem_mem hlt)).le)
  · obtain ⟨id, hid, hpos, hle⟩ := hok.array hstate htype
    have hlt : id - 1 < arrs.length := by omega
    obtain ⟨cells, hget, hpre⟩ := h.contents.getClArray_eq (List.getElem?_eq_getElem hlt)
    rw [show id - 1 + 1 = id by omega] at hget
    have hdel := h.contents.arrays.delimited _ (List.getElem_mem hlt)
    refine ⟨id, cells, hid, hpos, by rw [h.contents.arrays.used_eq]; exact hle, hget, ?_⟩
    obtain ⟨rest, rfl⟩ := hpre
    have := hdel.le
    rw [hdel.append, List.length_append]
    omega

/-- A new property. -/
theorem newProperty_stores {hdr : ObjectHdr} {strs : List (List UInt8)}
    {arrs : List (List Stored)} (h : Contents hdr strs arrs) {c : Call}
    (hshape : c.d.shaped = true) (hptr : isNull c.d.state = false → c.d.value ≠ .nullPtr)
    (hprints : c.d.prints = true) (hstrs : RoomFor hdr.strBuf
      ((c.id ++ [0]) :: (c.refName.toList.map (· ++ [0]) ++ c.d.records)))
    (harrs : RoomFor hdr.arrayBuf c.d.arrayRecords) :
    ∃ hdr' p strs' arrs', newProperty hdr c.id c.d c.refName = some (hdr', p) ∧
      Stores strs arrs hdr' p.data strs' arrs' := by
  obtain ⟨b₁, hname, hcontents₁, hroom₁⟩ := addClString_contents h hstrs
  obtain ⟨b₂, ref, href, hcontents₂, hroom₂⟩ := addClStringOrNone_contents hcontents₁ hroom₁
  obtain ⟨hdr', data, strs', arrs', hstore, hstores⟩ := storeNew_stores hcontents₂ hshape hptr
    hprints hroom₂ harrs
  refine ⟨hdr', _, strs', arrs', newProperty_eq hname href hstore, hstores.contents, ?_,
    hstores.arrays, hstores.stored⟩
  have := hstores.strings
  simp only [List.length_append] at this
  omega

theorem located_none {o : PropertyStore} {c : Call} (h : c.located o = none) :
    locateProperty o.hdr o.properties.items c.id = none := by
  unfold Call.located at h
  cases hlocate : locateProperty o.hdr o.properties.items c.id with
  | none => rfl
  | some i =>
    obtain ⟨hi, -⟩ := List.findIdx?_eq_some_iff_findIdx_eq.mp hlocate
    rw [hlocate, Option.bind_some, List.getElem?_eq_getElem hi] at h
    exact absurd h (by simp)

theorem located_some {o : PropertyStore} {c : Call} {p : ClProperty} (h : c.located o = some p) :
    ∃ i, locateProperty o.hdr o.properties.items c.id = some i ∧
      o.properties.items[i]? = some p :=
  Option.bind_eq_some_iff.mp h

/-- A refused value leaves everything as it is. -/
theorem storeReplace_refuses {hdr : ObjectHdr} {p : ClProperty} {d : CMPIData}
    (h : p.refuses hdr d = true) : ∃ rc, storeReplace hdr p d = some (.error rc) := by
  unfold ClProperty.refuses at h
  obtain ⟨hstate, h⟩ := Bool.and_eq_true_iff.mp h
  unfold storeReplace
  simp only [Bool.not_eq_true'] at hstate
  simp only [hstate]
  -- both definitions test the stored type in the same order
  split at h
  · next hchars =>
    rw [if_neg (by simp), if_pos hchars]
    by_cases hquals : p.quals = 0
    · obtain ⟨h₁, h₂⟩ : d.type ≠ CMPIBase.chars.simple ∧ d.type ≠ CMPIBase.string.simple := by
        simpa [hquals] using h
      rw [if_neg (by simpa using hquals), if_pos h₁, if_pos h₂]
      exact ⟨_, rfl⟩
    · rw [if_pos hquals]
      exact ⟨_, rfl⟩
  · next hchars =>
    rw [if_neg (by simp), if_neg hchars]
    split at h
    · next hdate =>
      rw [if_pos hdate, if_pos (by simpa using h)]
      exact ⟨_, rfl⟩
    · next hdate =>
      rw [if_neg hdate]
      split at h
      · next href =>
        rw [if_pos href, if_pos (by simpa using h)]
        exact ⟨_, rfl⟩
      · next href =>
        rw [if_neg href]
        split at h
        · next harray =>
          rw [if_pos harray, if_pos (by simpa using h)]
          exact ⟨_, rfl⟩
        · next harray =>
          rw [if_neg harray]
          split at h
          · next hinst =>
            rw [if_pos hinst, if_pos (by simpa using h)]
            exact ⟨_, rfl⟩
          · exact absurd h (by simp)

/-- One call. -/
theorem addObjectPropertyH_wellFormed {o : PropertyStore} {strs : List (List UInt8)}
    {arrs : List (List Stored)} (h : WellFormed o strs arrs) {c : Call}
    (hshape : c.d.shaped = true) (hmeets : c.Meets o) :
    ∃ o' rc strs' arrs', addObjectPropertyH o c.id c.d c.refName = some (o', rc) ∧
      WellFormed o' strs' arrs' := by
  obtain ⟨hmisstores, hroom⟩ := hmeets
  unfold Call.misstores at hmisstores
  cases hlocated : c.located o with
  | none =>
    rw [hlocated] at hmisstores hroom
    obtain ⟨hprints, hstrs, harrs, hsection⟩ := hroom
    obtain ⟨hdr', p, strs', arrs', hnew, hstores⟩ := newProperty_stores h.contents hshape
      (fun hstate => by simpa [hstate] using hmisstores) hprints hstrs harrs
    obtain ⟨prps, hpush, hitems⟩ := push_some hsection 8 p
    refine ⟨_, _, strs', arrs', addObjectPropertyH_new (located_none hlocated) hnew hpush,
      hstores.contents, fun q hq => ?_⟩
    simp only [hitems] at hq
    rcases List.mem_append.mp hq with hq | hq
    · exact (h.stored q hq).mono hstores.strings hstores.arrays
    · rw [List.mem_singleton.mp hq]
      exact hstores.stored
  | some p =>
    rw [hlocated] at hmisstores hroom
    obtain ⟨i, hlocate, hi⟩ := located_some hlocated
    by_cases hrefuses : p.refuses o.hdr c.d = true
    · obtain ⟨rc, herror⟩ := storeReplace_refuses hrefuses
      -- a refused value leaves the object as it is
      refine ⟨o, rc, strs, arrs, ?_, h⟩
      unfold addObjectPropertyH
      simp only [hlocate, hi, herror]
    · have hrefuses := Bool.eq_false_iff.mpr hrefuses
      obtain ⟨hprints, hstrs, harrs⟩ := hroom hrefuses
      obtain ⟨hdr', data, strs', arrs', hreplace, hstores⟩ := storeReplace_stores h.contents
        (h.stored p (List.mem_of_getElem? hi)) hshape hrefuses
        (by simpa [hrefuses] using hmisstores) hprints hstrs harrs
      refine ⟨_, _, strs', arrs', addObjectPropertyH_stored hlocate hi hreplace,
        hstores.contents, fun q hq => ?_⟩
      rcases List.mem_or_eq_of_mem_set hq with hq | rfl
      · exact (h.stored q hq).mono hstores.strings hstores.arrays
      · exact hstores.stored

/-- The object after some calls. -/
def runCalls : PropertyStore → List Call → Option PropertyStore
  | o, [] => some o
  | o, c :: cs => (addObjectPropertyH o c.id c.d c.refName).bind fun r => runCalls r.1 cs

/-- Every call of a run meets the condition in the state it finds. -/
def AllMeet : PropertyStore → List Call → Prop
  | _, [] => True
  | o, c :: cs => c.Meets o ∧
    ∀ r, r ∈ addObjectPropertyH o c.id c.d c.refName → AllMeet r.1 cs

instance AllMeet.decidable : (o : PropertyStore) → (calls : List Call) → Decidable (AllMeet o calls)
  | _, [] => inferInstanceAs (Decidable True)
  | o, c :: cs =>
    have : DecidablePred fun r : PropertyStore × Int => AllMeet r.1 cs :=
      fun r => AllMeet.decidable r.1 cs
    inferInstanceAs (Decidable (c.Meets o ∧
      ∀ r, r ∈ addObjectPropertyH o c.id c.d c.refName → AllMeet r.1 cs))

theorem runCalls_wellFormed {o : PropertyStore} {strs : List (List UInt8)}
    {arrs : List (List Stored)} (h : WellFormed o strs arrs) {calls : List Call}
    (hshape : ∀ c ∈ calls, c.d.shaped = true) (hmeets : AllMeet o calls) {pre : List Call}
    (hpre : pre <+: calls) :
    ∃ o' strs' arrs', runCalls o pre = some o' ∧ WellFormed o' strs' arrs' := by
  induction calls generalizing o strs arrs pre with
  | nil =>
    rw [List.prefix_nil.mp hpre]
    exact ⟨o, strs, arrs, rfl, h⟩
  | cons c calls ih =>
    cases pre with
    | nil => exact ⟨o, strs, arrs, rfl, h⟩
    | cons c' pre =>
      obtain ⟨rfl, htail⟩ := List.cons_prefix_cons.mp hpre
      obtain ⟨hmeets, hrest⟩ := hmeets
      obtain ⟨o₁, rc, strs₁, arrs₁, hstep, h₁⟩ := addObjectPropertyH_wellFormed h
        (hshape c' (by simp)) hmeets
      obtain ⟨o', strs', arrs', hrun, h'⟩ := ih h₁
        (fun c hc => hshape c (List.mem_cons_of_mem _ hc)) (hrest _ hstep) htail
      refine ⟨o', strs', arrs', ?_, h'⟩
      unfold runCalls
      rw [hstep]
      exact hrun

/-! ## New objects -/

/-- The properties of a new class, instance, object path or argument list. -/
inductive NewObject : PropertyStore → Prop where
  | cls {cn pa : Option CStr} {cls : ClClass} (h : newClassH cn pa = some cls) :
    NewObject cls.store
  | inst {ns cn : Option CStr} {inst : ClInstance} (h : newInstanceH ns cn = some inst) :
    NewObject inst.store
  | objectPath {ns cn : Option CStr} {op : ClObjectPath} (h : newObjectPathH ns cn = some op) :
    NewObject op.store
  | args : NewObject newArgsH.store

/-- A new object has its names in the string buffer and no properties. -/
theorem NewObject.wellFormed {o : PropertyStore} (h : NewObject o) :
    ∃ strs, WellFormed o strs [] := by
  -- two names, each of which may be missing
  have hnames : ∀ {type s₁ s₂ hdr₁ hdr₂ id₁ id₂},
      addClStringOrNone (.new type) s₁ = some (hdr₁, id₁) →
      addClStringOrNone hdr₁ s₂ = some (hdr₂, id₂) → ∃ strs, Contents hdr₂ strs [] := by
    intro type s₁ s₂ hdr₁ hdr₂ id₁ id₂ hadd₁ hadd₂
    obtain ⟨strs₁, h₁⟩ := addClStringOrNone_made (contents_new type) hadd₁
    exact addClStringOrNone_made h₁ hadd₂
  cases h with
  | cls hnew =>
    unfold newClassH at hnew
    simp only [Option.bind_eq_bind, Option.bind_eq_some_iff] at hnew
    obtain ⟨⟨hdr₁, id₁⟩, hadd₁, ⟨hdr₂, id₂⟩, hadd₂, heq⟩ := hnew
    obtain ⟨strs, hcontents⟩ := hnames hadd₁ hadd₂
    rw [← Option.some.inj heq]
    exact ⟨strs, hcontents, fun p hp => absurd hp (by simp [ClClass.store, ClSection.clear])⟩
  | inst hnew =>
    unfold newInstanceH at hnew
    simp only [Option.bind_eq_bind, Option.bind_eq_some_iff] at hnew
    obtain ⟨⟨hdr₁, id₁⟩, hadd₁, ⟨hdr₂, id₂⟩, hadd₂, heq⟩ := hnew
    obtain ⟨strs, hcontents⟩ := hnames hadd₁ hadd₂
    rw [← Option.some.inj heq]
    exact ⟨strs, hcontents, fun p hp => absurd hp (by simp [ClInstance.store, ClSection.clear])⟩
  | objectPath hnew =>
    unfold newObjectPathH at hnew
    simp only [Option.bind_eq_bind, Option.bind_eq_some_iff] at hnew
    obtain ⟨⟨hdr₁, id₁⟩, hadd₁, ⟨hdr₂, id₂⟩, hadd₂, heq⟩ := hnew
    obtain ⟨strs, hcontents⟩ := hnames hadd₁ hadd₂
    rw [← Option.some.inj heq]
    exact ⟨strs, hcontents, fun p hp => absurd hp (by simp [ClObjectPath.store, ClSection.clear])⟩
  | args =>
    exact ⟨[], contents_new .args,
      fun p hp => absurd hp (by simp [newArgsH, ClArgs.store, ClSection.clear])⟩

/-- In every run of calls that store what they are given, all properties have ids after
every call, and no call fails. -/
theorem runCalls_hasId {o : PropertyStore} (hnew : NewObject o) {calls : List Call}
    (hshape : ∀ c ∈ calls, c.d.shaped = true) (hmeets : AllMeet o calls) {pre : List Call}
    (hpre : pre <+: calls) :
    ∃ o', runCalls o pre = some o' ∧ ∀ p ∈ o'.properties.items, HasId o'.hdr p.data := by
  obtain ⟨strs, hwell⟩ := hnew.wellFormed
  obtain ⟨o', strs', arrs', hrun, hwell'⟩ := runCalls_wellFormed hwell hshape hmeets hpre
  exact ⟨o', hrun, fun p hp => hwell'.hasId hp⟩

/-- A text that is set twice, a null in between, and an array, on an object path. -/
theorem runCalls_hasId_sample :
    let calls : List Call :=
      [⟨lit "Name", ⟨CMPIBase.chars.simple, 0, .text (lit "a")⟩, none⟩,
       ⟨lit "name", ⟨CMPIBase.chars.simple, nullValue, .word 0⟩, none⟩,
       ⟨lit "Keys", ⟨CMPIBase.string.arrayOf, 0,
          .array ⟨.string, [⟨0, .text (lit "k")⟩, ⟨nullValue, .word 0⟩]⟩⟩, none⟩,
       ⟨lit "NAME", ⟨CMPIBase.chars.simple, 0, .text (lit "bc")⟩, none⟩]
    ∃ op o', newObjectPathH (some (lit "root")) (some (lit "C")) = some op ∧
      runCalls op.store calls = some o' ∧ ∀ p ∈ o'.properties.items, HasId o'.hdr p.data := by
  intro calls
  have hmeets : ((newObjectPathH (some (lit "root")) (some (lit "C"))).map fun op =>
      decide (AllMeet op.store calls)) = some true := by
    decide
  obtain ⟨op, hop, hall⟩ := Option.map_eq_some_iff.mp hmeets
  obtain ⟨o', hrun, hids⟩ := runCalls_hasId (.objectPath hop) (by decide)
    (of_decide_eq_true hall) List.prefix_rfl
  exact ⟨op, o', hop, hrun, hids⟩

/-- A number takes a text as it comes: afterwards the value is a pointer. -/
theorem runCalls_keeps_pointer :
    ∃ inst o', newInstanceH (some (lit "root")) (some (lit "C")) = some inst ∧
      runCalls inst.store
          [⟨lit "Size", ⟨CMPIBase.uint32.simple, 0, .word 7⟩, none⟩,
           ⟨lit "Size", ⟨CMPIBase.chars.simple, 0, .text (lit "seven")⟩, none⟩] = some o' ∧
      CMPIData.shaped ⟨CMPIBase.uint32.simple, 0, .word 7⟩ = true ∧
      CMPIData.shaped ⟨CMPIBase.chars.simple, 0, .text (lit "seven")⟩ = true ∧
      ∃ p ∈ o'.properties.items, p.data = ⟨CMPIBase.chars.simple, 0, .ptr⟩ ∧
        ¬ HasId o'.hdr p.data := by
  have hrun : ((newInstanceH (some (lit "root")) (some (lit "C"))).bind fun inst =>
      (runCalls inst.store
        [⟨lit "Size", ⟨CMPIBase.uint32.simple, 0, .word 7⟩, none⟩,
         ⟨lit "Size", ⟨CMPIBase.chars.simple, 0, .text (lit "seven")⟩, none⟩]).map fun o' =>
        o'.properties.items.map ClProperty.data) =
      some [⟨CMPIBase.chars.simple, 0, .ptr⟩] := by
    decide
  obtain ⟨inst, hinst, hrest⟩ := Option.bind_eq_some_iff.mp hrun
  obtain ⟨o', ho', hitems⟩ := Option.map_eq_some_iff.mp hrest
  obtain ⟨p, hp, hdata⟩ : ∃ p ∈ o'.properties.items, p.data = ⟨CMPIBase.chars.simple, 0, .ptr⟩ :=
    List.mem_map.mp (by rw [hitems]; simp)
  refine ⟨inst, o', hinst, ho', by decide, by decide, p, hp, hdata, fun hid => ?_⟩
  rw [hdata] at hid
  obtain ⟨id, -, hptr, -⟩ := hid.string rfl rfl
  exact absurd hptr (by simp)

end Sfcb.Object
