import Mathlib.Data.List.Perm.Subperm
import Sfcb.Object.Room
import Sfcb.Object.SetterContract

/-!
# The property filter

`setPropertyFilter` makes a new instance with the filter in place, sets the properties that
are listed, one after the other, and lets the two instances change places.

The properties come through as they are read (`SetCall.again_got`): a NULL is set as NULL
of its type, everything else as the value that was read. What can be lost is room. The new
instance begins with the buffers of a new one, and these are doubled to less than the
buffers of an instance that was copied and has grown since: `filters_iff`.

Mirroring notes:
- The instance that was filtered gets the contents of the new one, and the new one those of
  the old, to be released. The old contents are left out, and so is the status, which is
  always `CMPI_RC_OK`.
- A property is read before its name is looked up. One that cannot be read has the outcome
  `none`, also where it is not listed.
-/

namespace Sfcb.Object

open Sfcb.Lib Sfcb.Lib.IndexedBuf

/-! ## Filtering -/

/-- `CMPI_keyValue`. -/
def keyValue : Nat := 2 * 2 ^ 8

/-- `__ift_internal_getPropertyAt`, with the name of the property. -/
def internalGetPropertyAt (inst : ClInstance) (i : Nat) : Option (CStr × CMPIData) := do
  let p ← inst.properties.items[i]?
  let name ← getClString inst.hdr p.id
  let rv ← getPropertyAt inst i
  return (name, rv)

/-- The body of the loop of `__ift_setPropertyFilter`. -/
def copyListed (inst : ClInstance) (propertyList keys : Option (List CStr))
    (iNew : NativeInstance) (j : Nat) : Option NativeInstance := do
  let (name, data) ← internalGetPropertyAt inst j
  if containedList propertyList name || containedList keys name then
    -- a bit of the state other than `CMPI_keyValue`
    let value := if data.state ≠ 0 ∧ data.state ≠ keyValue then none else some data.value
    (setProperty iNew name value data.type).map (·.1)
  else some iNew

/-- `__ift_setPropertyFilter`. -/
def setPropertyFilter (i : NativeInstance) (propertyList keys : Option (List CStr)) :
    Option NativeInstance :=
  if propertyList = none then some i
  else do
    let cop ← newObjectPathH (getClString i.hdl.hdr i.hdl.nameSpace)
      (getClString i.hdl.hdr i.hdl.className)
    let iNew ← newInstance (getClString cop.hdr cop.nameSpace) (getClString cop.hdr cop.className)
    (List.range (getPropertyCount i)).foldlM (copyListed i.hdl propertyList keys)
      { iNew with filtered := true, propertyList, keyList := keys }

/-! ## What a filter is for -/

/-- A property as it is read, and whether it is flagged as filtered. -/
structure PropertyShown where
  name : CStr
  data : CMPIData
  filtered : Bool
  deriving DecidableEq, Repr

/-- The properties of an instance are these, in this order. -/
structure Shows (inst : ClInstance) (props : List PropertyShown) : Prop where
  count : inst.properties.items.length = props.length
  property : ∀ {j : Nat} {x : PropertyShown}, props[j]? = some x →
    internalGetPropertyAt inst j = some (x.name, x.data)
  filtered : ∀ {j : Nat} {x : PropertyShown} {p : ClProperty}, props[j]? = some x →
    inst.properties.items[j]? = some p → x.filtered = decide (p.flags &&& filteredFlag ≠ 0)

instance (inst : ClInstance) (props : List PropertyShown) : Decidable (Shows inst props) :=
  decidable_of_iff (inst.properties.items.length = props.length ∧
      ∀ j (h : j < props.length),
        internalGetPropertyAt inst j = some (props[j].name, props[j].data) ∧
        ∀ p ∈ inst.properties.items[j]?, props[j].filtered = decide (p.flags &&& filteredFlag ≠ 0))
    ⟨fun h => ⟨h.1, fun {j x} hx => by
        obtain ⟨hlt, rfl⟩ := List.getElem?_eq_some_iff.mp hx
        exact (h.2 j hlt).1, fun {j x p} hx hp => by
        obtain ⟨hlt, rfl⟩ := List.getElem?_eq_some_iff.mp hx
        exact (h.2 j hlt).2 p hp⟩,
      fun h => ⟨h.count, fun j hlt => ⟨h.property (List.getElem?_eq_getElem hlt),
        fun p hp => h.filtered (List.getElem?_eq_getElem hlt) hp⟩⟩⟩

/-- The name is in the list, ignoring case. -/
def inList (list : List CStr) (name : CStr) : Bool := list.any fun entry => fold entry = fold name

/-- The name is in one of the lists. -/
def listed (propertyList : List CStr) (keys : Option (List CStr)) (name : CStr) : Bool :=
  inList propertyList name || inList (keys.getD []) name

/-- The properties that are left, flagged where only a key has the name. -/
def kept (propertyList : List CStr) (keys : Option (List CStr)) (props : List PropertyShown) :
    List PropertyShown :=
  (props.filter fun x => listed propertyList keys x.name).map fun x =>
    { x with filtered := !inList propertyList x.name }

/-- A number, a boolean, a string or an array of these, or NULL, as it is read after it was
set. -/
def PropertyShown.Plain (x : PropertyShown) : Prop :=
  ∃ c : SetCall, c.proper = true ∧ c.name = x.name ∧ c.got = x.data

/-- An instance with plain properties, each with a name of its own. -/
structure PlainInstance (i : NativeInstance) (props : List PropertyShown) : Prop where
  shows : Shows i.hdl props
  plain : ∀ x ∈ props, x.Plain
  names : (props.map fun x => fold x.name).Nodup

/-- The instance is left with its listed properties, and takes no others from then on. -/
def Filters (i : NativeInstance) (props : List PropertyShown) (propertyList : List CStr)
    (keys : Option (List CStr)) : Prop :=
  ∃ i', setPropertyFilter i (some propertyList) keys = some i' ∧
    Shows i'.hdl (kept propertyList keys props) ∧
    ∀ c : SetCall, 0 ∉ c.name → listed propertyList keys c.name = false →
      setProperty i' c.name c.value c.type = some (i', 0)

/-- The strings of a property: its name, and those of its value. -/
def PropertyShown.strings (x : PropertyShown) : List CStr :=
  x.name :: if x.data.state ≠ 0 then [] else
    match x.data.value with
    | .text s => [s]
    | .array a => a.texts
    | _ => []

/-- The cells of its array: a head, and the elements. -/
def PropertyShown.cells (x : PropertyShown) : Nat :=
  if x.data.state ≠ 0 then 0 else
    match x.data.value with
    | .array a => a.data.length + 1
    | _ => 0

/-- The strings the instance is left with: its own names, and those of its properties. -/
def stringsLeft (i : NativeInstance) (props : List PropertyShown) : List CStr :=
  (getClString i.hdl.hdr i.hdl.nameSpace).toList ++
    (getClString i.hdl.hdr i.hdl.className).toList ++ props.flatMap PropertyShown.strings

/-! ## Lists -/

/-- For C strings the two comparisons are the same. -/
theorem containedList_eq {list : List CStr} (hlist : ∀ e ∈ list, 0 ∉ e) {name : CStr}
    (hname : 0 ∉ name) : containedList (some list) name = inList list name := by
  unfold containedList inList
  refine Bool.eq_iff_iff.mpr ?_
  simp only [Option.getD_some, List.any_eq_true, beq_iff_eq, decide_eq_true_eq]
  constructor
  · intro ⟨e, he, heq⟩
    exact ⟨e, he, (strcasecmp_eq_zero_iff (hlist e he) hname).mp heq⟩
  · intro ⟨e, he, heq⟩
    exact ⟨e, he, (strcasecmp_eq_zero_iff (hlist e he) hname).mpr heq⟩

/-! ## Setting what was read -/

/-- The call that sets a property again. -/
def SetCall.again (x : PropertyShown) : SetCall :=
  ⟨x.name, if x.data.state ≠ 0 ∧ x.data.state ≠ keyValue then none else some x.data.value,
    x.data.type⟩

theorem got_got (item : ArrayItem) : item.got.got = item.got := by
  unfold ArrayItem.got
  split <;> rfl

theorem got_text (item : ArrayItem) : item.got.text = item.text := by
  unfold ArrayItem.got
  split
  · next h =>
    obtain ⟨state, value⟩ := item
    obtain rfl : state = nullValue := h
    exact (text_null (.word 0)).trans (text_null value).symm
  · rfl

theorem got_proper {type : CMPIBase} {item : ArrayItem} (h : item.proper type = true) :
    item.got.proper type = true := by
  unfold ArrayItem.got
  split
  · rfl
  · exact h

/-- The type a property is read with: that of the call, a string for a `CMPI_chars`. -/
def SetCall.readType (c : SetCall) : CMPIType :=
  if c.type = CMPIBase.chars.simple then CMPIBase.string.simple else c.type

theorem SetCall.readType_eq {c : SetCall} :
    (if c.readType = CMPIBase.chars.simple then CMPIBase.string.simple else c.readType) =
        c.readType ∧
      c.readType.enca = c.type.enca ∧ c.readType.base.isPlain = c.type.base.isPlain := by
  unfold SetCall.readType
  by_cases hchars : c.type = CMPIBase.chars.simple
  · rw [if_pos hchars, hchars]
    exact ⟨rfl, rfl, rfl⟩
  · rw [if_neg hchars, if_neg hchars]
    exact ⟨rfl, rfl, rfl⟩

theorem SetCall.got_of_isNull {c : SetCall} (h : c.isNull = true)
    (hptr : c.value = some .nullPtr → c.type.enca = true) :
    c.got = ⟨c.readType, nullValue, if c.readType.enca then .nullPtr else .word 0⟩ := by
  rw [SetCall.readType_eq.2.1]
  unfold SetCall.got
  rcases SetCall.isNull_cases h with hvalue | hvalue
  · rw [hvalue]
    rfl
  · rw [if_pos (hptr hvalue), hvalue]
    rfl

/-- Setting what was read gives what was read. -/
theorem SetCall.again_got {x : PropertyShown} (h : x.Plain) :
    (SetCall.again x).proper = true ∧ (SetCall.again x).got = x.data := by
  obtain ⟨name, data, filtered⟩ := x
  obtain ⟨c, hproper, hname, hgot⟩ := h
  obtain rfl : c.name = name := hname
  obtain rfl : c.got = data := hgot
  obtain ⟨hzero, hplain⟩ := SetCall.proper_plain hproper
  obtain ⟨hread, henca, hbase⟩ := c.readType_eq
  have hvalued : ∀ {v : Value}, c.value = some v → v ≠ .nullPtr →
      SetCall.again ⟨c.name, c.got, filtered⟩ = ⟨c.name, some v.got, c.readType⟩ := by
    intro v hv hne
    unfold SetCall.again SetCall.got
    rw [hv]
    cases v <;> first | rfl | exact absurd rfl hne
  have hnull : nullValue ≠ 0 ∧ nullValue ≠ keyValue := by decide
  cases SetCall.proper_kind hproper with
  | null hisnull hptr =>
    have hagain : SetCall.again ⟨c.name, c.got, filtered⟩ = ⟨c.name, none, c.readType⟩ := by
      unfold SetCall.again
      rw [SetCall.got_of_isNull hisnull hptr]
      exact congrArg (SetCall.mk c.name · c.readType) (if_pos hnull)
    rw [hagain]
    refine ⟨?_, ?_⟩
    · unfold SetCall.proper
      simp [hzero, hbase, hplain]
    · rw [SetCall.got_of_isNull hisnull hptr]
      unfold SetCall.got
      rw [hread]
  | word base n w htype hvalue hbits hlt =>
    have hsame : SetCall.mk c.name (some (Value.word n).got) c.readType = c := by
      unfold SetCall.readType
      rw [htype, if_neg (simple_ne_of_bits hbits rfl), ← htype]
      exact congrArg (SetCall.mk c.name · c.type) hvalue.symm
    rw [hvalued hvalue (by simp), hsame]
    exact ⟨hproper, rfl⟩
  | text s htype hvalue hs =>
    have hreads : c.readType = CMPIBase.string.simple := by
      unfold SetCall.storedType at htype
      unfold SetCall.readType
      by_cases hstring : c.type = CMPIBase.string.simple
      · rw [hstring]
        rfl
      · rw [if_neg hstring] at htype
        rw [if_pos htype]
    rw [hvalued hvalue (by simp)]
    refine ⟨?_, ?_⟩
    · unfold SetCall.proper
      rw [hreads]
      exact Bool.and_eq_true_iff.mpr
        ⟨by simpa using ⟨hzero, rfl⟩, by simpa [Value.got] using ⟨⟨rfl, rfl⟩, hs⟩⟩
    · unfold SetCall.got
      rw [hread, hvalue]
      rfl
  | array base a htype hvalue ha =>
    obtain ⟨hitemtype, hitems⟩ := Bool.and_eq_true_iff.mp ha
    have hreads : c.readType = c.type := by
      unfold SetCall.readType
      rw [htype]
      exact if_neg fun heq => Bool.noConfusion (CMPIType.mk.inj heq).2
    rw [hvalued hvalue (by simp)]
    refine ⟨?_, ?_⟩
    · unfold SetCall.proper at hproper ⊢
      simp only [hvalue, hreads, Value.got, Bool.and_eq_true] at hproper ⊢
      refine ⟨hproper.1, hproper.2.1, ?_⟩
      refine Bool.and_eq_true_iff.mpr ⟨hitemtype, List.all_eq_true.mpr fun item hitem => ?_⟩
      obtain ⟨item', hmem, rfl⟩ := List.mem_map.mp hitem
      exact got_proper (List.all_eq_true.mp hitems item' hmem)
    · unfold SetCall.got
      rw [hread, hvalue]
      simp only [Value.got, List.map_map]
      rw [show ArrayItem.got ∘ ArrayItem.got = ArrayItem.got from funext got_got]
      rfl

/-- What it takes to set it again. -/
theorem SetCall.again_records {x : PropertyShown} (h : x.Plain) :
    (SetCall.again x).strRecords = textRecords x.strings ∧
      (SetCall.again x).arrRecords.flatten.length = x.cells ∧
      (SetCall.again x).arrRecords.length ≤ 1 := by
  obtain ⟨hproper, hgot⟩ := SetCall.again_got h
  have hname : (SetCall.again x).name = x.name := rfl
  unfold SetCall.strRecords SetCall.arrRecords PropertyShown.strings PropertyShown.cells
  rw [hname]
  generalize SetCall.again x = c at hproper hgot
  unfold SetCall.got at hgot
  cases SetCall.proper_kind hproper with
  | null hnull hptr =>
    have hstate : x.data.state ≠ 0 := by
      rcases SetCall.isNull_cases hnull with hvalue | hvalue
      · rw [hvalue] at hgot
        rw [← hgot]
        exact (show nullValue ≠ 0 by decide)
      · rw [hvalue] at hgot
        rw [← hgot]
        exact (show nullValue ≠ 0 by decide)
    rw [SetCall.setData_null hnull hptr, if_pos hstate, if_pos hstate]
    simp [CMPIData.records, CMPIData.arrayRecords, isNull_nullValue, textRecords]
  | word base n w htype hvalue hbits hlt =>
    rw [hvalue] at hgot
    rw [hvalue, htype, setData_word hbits hlt, ← hgot]
    simp [CMPIData.records, CMPIData.arrayRecords, not_isNull_zero, textRecords, Value.got]
  | text s htype hvalue hs =>
    rw [SetCall.setData_text htype hvalue]
    rw [hvalue] at hgot
    rw [← hgot]
    simp [CMPIData.records, CMPIData.arrayRecords, not_isNull_zero, textRecords, Value.got]
  | array base a htype hvalue ha =>
    rw [hvalue, htype, setData_array]
    rw [hvalue] at hgot
    rw [← hgot]
    unfold CMPIData.records CMPIData.arrayRecords
    simp only [if_neg not_isNull_zero, Value.got]
    refine ⟨?_, ?_, by simp⟩
    · rw [NativeArray.records_eq ha]
      unfold NativeArray.texts
      rw [List.filterMap_map, show ArrayItem.text ∘ ArrayItem.got = ArrayItem.text from
        funext got_text]
      rfl
    · simp [NativeArray.arrayRecord, length_cellsOf]

/-- The filter takes the name. -/
def inLists (propertyList keys : Option (List CStr)) (name : CStr) : Bool :=
  containedList propertyList name || containedList keys name

/-- The loop sets the listed properties, one after the other. -/
theorem foldlM_copyListed {inst : ClInstance} {propertyList keys : Option (List CStr)}
    {xs : List PropertyShown} {n : Nat} {iNew : NativeInstance}
    (hshows : ∀ k x, xs[k]? = some x → internalGetPropertyAt inst (n + k) = some (x.name, x.data)) :
    (List.range' n xs.length).foldlM (copyListed inst propertyList keys) iNew =
      runSets iNew ((xs.filter (inLists propertyList keys ·.name)).map SetCall.again) := by
  induction xs generalizing n iNew with
  | nil => rfl
  | cons x xs ih =>
    have hfirst : internalGetPropertyAt inst n = some (x.name, x.data) := hshows 0 x rfl
    have hrest : ∀ k y, xs[k]? = some y →
        internalGetPropertyAt inst (n + 1 + k) = some (y.name, y.data) := by
      intro k y hy
      rw [Nat.add_assoc, Nat.add_comm 1 k]
      exact hshows (k + 1) y (by simpa using hy)
    have hstep : copyListed inst propertyList keys iNew n =
        if inLists propertyList keys x.name then
          (setProperty iNew (SetCall.again x).name (SetCall.again x).value
            (SetCall.again x).type).map (·.1)
        else some iNew := by
      unfold copyListed
      rw [hfirst]
      rfl
    rw [List.length_cons, List.range'_succ, List.foldlM_cons, hstep]
    by_cases htaken : inLists propertyList keys x.name = true
    · rw [if_pos htaken, List.filter_cons_of_pos (by exact htaken), List.map_cons, runSets]
      cases setProperty iNew (SetCall.again x).name (SetCall.again x).value
        (SetCall.again x).type with
      | none => rfl
      | some r => exact ih hrest
    · rw [if_neg htaken, List.filter_cons_of_neg (by exact htaken)]
      exact ih hrest

/-! ## The new instance -/

/-- A new instance with the filter, and the properties that were set in it. -/
structure Filtering (propertyList : List CStr) (keys : Option (List CStr)) (i : NativeInstance)
    (g : Owned) (m : List Entry) : Prop where
  filter : i.filtered = true ∧ i.propertyList = some propertyList ∧ i.keyList = keys
  represents : Represents { i with filtered := false } g m
  flags : i.hdl.properties.items.map (·.flags) =
    m.map fun e => if containedList (some propertyList) e.name then 0 else filteredFlag
  capacity : SectionOk i.hdl.properties
  distinct : (names m).Nodup

section Copying

variable {propertyList : List CStr} {keys : Option (List CStr)} {i : NativeInstance} {g : Owned}
  {m : List Entry} {c : SetCall} {ss : List (List UInt8)} {as : List (List Stored)}

/-- A property that the instance does not have. -/
theorem setProperty_new (htakes : i.Takes c.name)
    (hlocate : locateProperty i.hdl.hdr i.hdl.properties.items c.name = none) {hdr' : ObjectHdr}
    {p : ClProperty} {prps : ClSection ClProperty}
    (hnew : newProperty i.hdl.hdr c.name (setData c.value c.type) none = some (hdr', p))
    (hpush : i.hdl.properties.push 8 p = some prps) :
    setProperty i c.name c.value c.type = some ({ i with hdl := { i.hdl with
      hdr := hdr'
      properties := { prps with items := i.hdl.properties.items ++
        [{ p with flags := if i.flags c.name then p.flags ||| filteredFlag else p.flags }] } } },
      0) := by
  have hitems := push_items hpush
  have hlength : prps.items.length = i.hdl.properties.items.length + 1 := by
    rw [hitems, List.length_append, List.length_singleton]
  have hp : prps.items[i.hdl.properties.items.length]? = some p := by
    rw [hitems]
    exact List.getElem?_concat_length
  rw [setProperty_takes htakes, addObjectPropertyH_new hlocate hnew hpush, Option.bind_some,
    if_neg (show ¬ ((prps.items.length : Nat) : Int) < 0 by omega)]
  split
  · rw [hlength, @clInstanceFilterFlagProperty_eq { i.hdl with hdr := hdr', properties := prps }
      _ _ hp]
    simp only [Option.map_some, hitems]
    rw [List.set_append_right _ _ (Nat.le_refl _), Nat.sub_self]
    rfl
  · rw [← hitems]
    rfl

/-- Each property has a string for its name. -/
theorem Represents.length_le (h : Represents i g m) (hdistinct : (names m).Nodup) :
    m.length ≤ g.strs.length := by
  have hsub : names m ⊆ g.strs.map fun x => fold x.2 := by
    intro name hname
    obtain ⟨e, he, rfl⟩ := List.mem_map.mp hname
    obtain ⟨k, hk⟩ := List.getElem?_of_mem he
    obtain ⟨hlt, -⟩ := List.getElem?_eq_some_iff.mp hk
    obtain ⟨n, -, hn⟩ := (h.property (List.getElem?_eq_getElem (h.length.symm ▸ hlt)) hk).name
    exact List.mem_map.mpr ⟨_, List.mem_of_getElem? hn, rfl⟩
  simpa [names] using (List.Nodup.subperm hdistinct hsub).length_le

theorem newProperty_flags {hdr hdr' : ObjectHdr} {id : CStr} {d : CMPIData} {p : ClProperty}
    (h : newProperty hdr id d none = some (hdr', p)) : p.flags = 0 := by
  unfold newProperty at h
  obtain ⟨_, -, h₁⟩ := Option.bind_eq_some_iff.mp h
  obtain ⟨_, -, h₂⟩ := Option.bind_eq_some_iff.mp h₁
  obtain ⟨_, -, h₃⟩ := Option.bind_eq_some_iff.mp h₂
  cases h₃
  rfl

theorem Filtering.locate_none (h : Filtering propertyList keys i g m) (hname : 0 ∉ c.name)
    (hnew : fold c.name ∉ names m) :
    locateProperty i.hdl.hdr i.hdl.properties.items c.name = none := by
  refine (h.represents.locate_eq hname).trans (List.findIdx?_eq_none_iff.mpr fun e he => ?_)
  exact decide_eq_false fun heq => hnew (List.mem_map.mpr ⟨e, he, heq.symm⟩)

theorem Filtering.takes (h : Filtering propertyList keys i g m) {name : CStr}
    (htaken : inLists (some propertyList) keys name = true) : i.Takes name := by
  obtain ⟨-, hlist, hkeys⟩ := h.filter
  unfold NativeInstance.Takes
  rw [hlist, hkeys]
  exact Or.inr (Or.inr (by simpa [inLists] using htaken))

theorem Filtering.flags_eq (h : Filtering propertyList keys i g m) {name : CStr}
    (htaken : inLists (some propertyList) keys name = true) :
    i.flags name = !containedList (some propertyList) name := by
  obtain ⟨hfiltered, hlist, hkeys⟩ := h.filter
  unfold NativeInstance.flags
  rw [hfiltered, hlist, hkeys]
  unfold inLists at htaken
  cases hin : containedList (some propertyList) name with
  | true => rfl
  | false =>
    rw [hin, Bool.false_or] at htaken
    rw [htaken]
    rfl

/-- What was set left room: there was room for both. -/
theorem Filtering.room_of_set (h : Filtering propertyList keys i g m) (hproper : c.proper = true)
    (htaken : inLists (some propertyList) keys c.name = true) (hnew : fold c.name ∉ names m)
    {r : NativeInstance × Int} (hset : setProperty i c.name c.value c.type = some r)
    (hroom : r.1.hdl.hdr.HasRoom ss as) :
    i.hdl.hdr.HasRoom (c.strRecords ++ ss) (c.arrRecords ++ as) := by
  have hlocate := h.locate_none (SetCall.proper_plain hproper).1 hnew
  have hadd := hset
  rw [setProperty_takes (h.takes htaken)] at hadd
  obtain ⟨⟨o, rc⟩, hadd, -⟩ := Option.bind_eq_some_iff.mp hadd
  obtain ⟨hdr', p, prps, -, hprop, hpush, -⟩ | ⟨k, p, hsome, -⟩ := addObjectPropertyH_cases hadd
  · rw [setProperty_new (h.takes htaken) hlocate hprop hpush] at hset
    cases hset
    exact (newProperty_hasRoom h.represents.of.contents hproper).mp ⟨_, hprop, hroom⟩
  · exact absurd (hlocate.symm.trans hsome) (by simp)

/-- With room for it, and for what comes behind it, a property is set. -/
theorem Filtering.set (h : Filtering propertyList keys i g m) (hproper : c.proper = true)
    (htaken : inLists (some propertyList) keys c.name = true) (hnew : fold c.name ∉ names m)
    (hroom : i.hdl.hdr.HasRoom (c.strRecords ++ ss) (c.arrRecords ++ as)) :
    ∃ i' g', setProperty i c.name c.value c.type = some (i', 0) ∧
      Filtering propertyList keys i' g' (m ++ [⟨c.name, c⟩]) ∧ i'.hdl.hdr.HasRoom ss as := by
  have hlocate := h.locate_none (SetCall.proper_plain hproper).1 hnew
  have hcontents := h.represents.of.contents
  obtain ⟨⟨hdr', p⟩, hprop, hrest⟩ := (newProperty_hasRoom hcontents hproper).mpr hroom
  have hflags := newProperty_flags hprop
  -- each property has a name, so there are no more of them than strings
  have hfew : i.hdl.properties.items.length ≤ 2 ^ 14 := by
    have hused := hroom.strings.used_le (by simp [SetCall.strRecords])
    rw [hcontents.strings.used_eq, Owned.length_strRecords] at hused
    have hlength : i.hdl.properties.items.length = m.length := h.represents.length
    have := h.represents.length_le h.distinct
    omega
  obtain ⟨prps, hpush, hitems⟩ := push_some (h.capacity.room hfew) 8 p
  have hown := (newProperty_hasRoom hcontents hproper).mp ⟨_, hprop, ObjectHdr.HasRoom.nil _⟩
  rw [List.append_nil, List.append_nil] at hown
  obtain ⟨hdr'', p'', g', hprop', hof, hkeeps, hok⟩ :=
    newProperty_ok h.represents.of hproper m.length hown.strings hown.arrays
  obtain ⟨rfl, rfl⟩ := Prod.mk.inj (Option.some.inj (hprop.symm.trans hprop'))
  refine ⟨_, g', setProperty_new (h.takes htaken) hlocate hprop hpush, ⟨h.filter, ?_, ?_, ?_, ?_⟩,
    hrest⟩
  · have hok' : PropertyOk g' m.length
        { p with flags := if i.flags c.name then p.flags ||| filteredFlag else p.flags }
        ⟨c.name, c⟩ := ⟨hok.name, hok.quals, hok.data⟩
    exact h.represents.append hproper rfl hof hkeeps hok' rfl
  · rw [List.map_append, List.map_append, ← h.flags, hflags, h.flags_eq htaken]
    cases hin : containedList (some propertyList) c.name <;> simp [hin]
  · have hcapacity := h.capacity.push hpush
    refine ⟨fun hnot => ?_, fun hthere => ?_⟩
    · exact absurd (hitems.symm.trans (hcapacity.new hnot)) (by simp)
    · simpa [hitems] using hcapacity.grown hthere
  · rw [show names (m ++ [⟨c.name, c⟩]) = names m ++ [fold c.name] from List.map_append]
    refine List.nodup_append.mpr ⟨h.distinct, by simp, fun k hk k' hk' heq => hnew ?_⟩
    rw [List.mem_singleton.mp hk'] at heq
    exact heq ▸ hk

theorem distinct_cons {cs : List SetCall}
    (h : (names m ++ (c :: cs).map fun c => fold c.name).Nodup) :
    fold c.name ∉ names m ∧
      (names (m ++ [⟨c.name, c⟩]) ++ cs.map fun c => fold c.name).Nodup := by
  refine ⟨fun hmem => ?_, ?_⟩
  · exact (List.nodup_append.mp h).2.2 _ hmem _ List.mem_cons_self rfl
  · rw [show names (m ++ [⟨c.name, c⟩]) = names m ++ [fold c.name] from List.map_append,
      List.append_assoc]
    exact h

/-- All calls take effect where there is room for all of them. -/
theorem Filtering.run {calls : List SetCall} (h : Filtering propertyList keys i g m)
    (hproper : ∀ c ∈ calls, c.proper = true)
    (htaken : ∀ c ∈ calls, inLists (some propertyList) keys c.name = true)
    (hdistinct : (names m ++ calls.map fun c => fold c.name).Nodup)
    (hroom : i.hdl.hdr.HasRoom (calls.flatMap SetCall.strRecords)
      (calls.flatMap SetCall.arrRecords)) :
    ∃ i' g', runSets i calls = some i' ∧
      Filtering propertyList keys i' g' (m ++ calls.map fun c => ⟨c.name, c⟩) := by
  induction calls generalizing i g m with
  | nil => exact ⟨i, g, rfl, by rwa [List.map_nil, List.append_nil]⟩
  | cons c cs ih =>
    obtain ⟨hnew, hrest⟩ := distinct_cons hdistinct
    obtain ⟨i₁, g₁, hset, h₁, hroom₁⟩ := h.set (hproper c List.mem_cons_self)
      (htaken c List.mem_cons_self) hnew hroom
    obtain ⟨i', g', hrun, h'⟩ := ih h₁ (fun d hd => hproper d (List.mem_cons_of_mem _ hd))
      (fun d hd => htaken d (List.mem_cons_of_mem _ hd)) hrest hroom₁
    refine ⟨i', g', ?_, by rwa [List.append_assoc] at h'⟩
    unfold runSets
    rw [hset]
    exact hrun

/-- A run that comes to its end had the room. -/
theorem Filtering.room_of_run {calls : List SetCall} (h : Filtering propertyList keys i g m)
    (hproper : ∀ c ∈ calls, c.proper = true)
    (htaken : ∀ c ∈ calls, inLists (some propertyList) keys c.name = true)
    (hdistinct : (names m ++ calls.map fun c => fold c.name).Nodup) {i' : NativeInstance}
    (hrun : runSets i calls = some i') :
    i.hdl.hdr.HasRoom (calls.flatMap SetCall.strRecords) (calls.flatMap SetCall.arrRecords) := by
  induction calls generalizing i g m with
  | nil => exact ObjectHdr.HasRoom.nil _
  | cons c cs ih =>
    obtain ⟨hnew, hrest⟩ := distinct_cons hdistinct
    have hfirst := hproper c List.mem_cons_self
    have hin := htaken c List.mem_cons_self
    unfold runSets at hrun
    obtain ⟨r, hset, hrun⟩ := Option.bind_eq_some_iff.mp hrun
    -- the first call had room for itself, and is one of those that take effect
    have hown := h.room_of_set hfirst hin hnew hset (ObjectHdr.HasRoom.nil _)
    obtain ⟨i₁, g₁, hset', h₁, -⟩ := h.set hfirst hin hnew hown
    obtain rfl : r = (i₁, 0) := Option.some.inj (hset.symm.trans hset')
    have hroom := ih h₁ (fun d hd => hproper d (List.mem_cons_of_mem _ hd))
      (fun d hd => htaken d (List.mem_cons_of_mem _ hd)) hrest hrun
    exact h.room_of_set hfirst hin hnew hset hroom

/-- A property is read as it was set. -/
theorem Represents.read (h : Represents { i with filtered := false } g m) {j : Nat} {e : Entry}
    (he : m[j]? = some e) : internalGetPropertyAt i.hdl j = some (e.name, e.last.got) := by
  obtain ⟨hlt, -⟩ := List.getElem?_eq_some_iff.mp he
  obtain ⟨p, hp⟩ : ∃ p, i.hdl.properties.items[j]? = some p :=
    ⟨_, List.getElem?_eq_getElem (h.length.symm ▸ hlt)⟩
  have hok := h.property hp he
  obtain ⟨k, hid, hk⟩ := hok.name
  have hname : getClString i.hdl.hdr p.id = some e.name := by
    rw [hid]
    exact h.of.getClString_eq hk
  have hread : getPropertyAt i.hdl j = some e.last.got :=
    getPropertyAt_eq h.of hp (h.entry e (List.mem_of_getElem? he)).1 hok.data
  unfold internalGetPropertyAt
  simp only [hp, hname, hread, Option.bind_eq_bind, Option.bind_some]
  rfl

/-- An instance that stands for a map is one with plain properties. -/
theorem Represents.plain (h : Represents { i with filtered := false } g m)
    (hdistinct : (names m).Nodup) : ∃ props, PlainInstance i props ∧
      props.map (fun x => (x.name, x.data)) = m.map fun e => (e.name, e.last.got) := by
  have hlength : i.hdl.properties.items.length = m.length := h.length
  let props := m.mapIdx fun j e => PropertyShown.mk e.name e.last.got
    ((i.hdl.properties.items[j]?).any fun p => decide (p.flags &&& filteredFlag ≠ 0))
  have hprops : ∀ {j : Nat} {x : PropertyShown}, props[j]? = some x →
      ∃ e : Entry, m[j]? = some e ∧ x.name = e.name ∧ x.data = e.last.got ∧ x.filtered =
        (i.hdl.properties.items[j]?).any fun p => decide (p.flags &&& filteredFlag ≠ 0) := by
    intro j x hx
    obtain ⟨e, he, rfl⟩ := Option.map_eq_some_iff.mp (List.getElem?_mapIdx ▸ hx)
    exact ⟨e, he, rfl, rfl, rfl⟩
  have hshown : ∀ {β : Type} (f : CStr × CMPIData → β),
      props.map (fun x => f (x.name, x.data)) = m.map fun e => f (e.name, e.last.got) := by
    intro β f
    refine List.ext_getElem? fun j => ?_
    rw [List.getElem?_map, List.getElem?_map, List.getElem?_mapIdx, Option.map_map]
    rfl
  refine ⟨props, ⟨⟨?_, fun {j x} hx => ?_, fun {j x p} hx hp => ?_⟩, fun x hx => ?_, ?_⟩,
    hshown id⟩
  · rw [hlength, List.length_mapIdx]
  · obtain ⟨e, he, hname, hdata, -⟩ := hprops hx
    rw [hname, hdata]
    exact h.read he
  · obtain ⟨e, -, -, -, hfiltered⟩ := hprops hx
    rw [hfiltered, hp]
    rfl
  · obtain ⟨j, hj⟩ := List.getElem?_of_mem hx
    obtain ⟨e, he, hname, hdata, -⟩ := hprops hj
    have hentry := h.entry e (List.mem_of_getElem? he)
    refine ⟨⟨e.name, e.last.value, e.last.type⟩, ?_, hname.symm, hdata.symm⟩
    obtain ⟨hproper, hvalue⟩ := Bool.and_eq_true_iff.mp hentry.1
    obtain ⟨-, hplain⟩ := Bool.and_eq_true_iff.mp hproper
    exact Bool.and_eq_true_iff.mpr ⟨by simpa using ⟨hentry.2, hplain⟩, hvalue⟩
  · rw [hshown fun x => fold x.1]
    exact hdistinct

/-- The properties of the new instance are those that were set. -/
theorem Filtering.shows (h : Filtering propertyList keys i g m) :
    Shows i.hdl (m.map fun e =>
      ⟨e.name, e.last.got, !containedList (some propertyList) e.name⟩) := by
  refine ⟨by rw [List.length_map]; exact h.represents.length, fun {j x} hx => ?_,
    fun {j x p} hx hp => ?_⟩
  · rw [List.getElem?_map] at hx
    obtain ⟨e, he, rfl⟩ := Option.map_eq_some_iff.mp hx
    exact h.represents.read he
  · rw [List.getElem?_map] at hx
    obtain ⟨e, he, rfl⟩ := Option.map_eq_some_iff.mp hx
    have hflags := congrArg (·[j]?) h.flags
    simp only [List.getElem?_map, hp, he, Option.map_some, Option.some.injEq] at hflags
    rw [hflags]
    cases containedList (some propertyList) e.name <;> rfl

/-- A name that is in neither list is not taken. -/
theorem Filtering.ignores (h : Filtering propertyList keys i g m)
    (hnot : inLists (some propertyList) keys c.name = false) :
    setProperty i c.name c.value c.type = some (i, 0) := by
  obtain ⟨hfiltered, hlist, hkeys⟩ := h.filter
  unfold inLists at hnot
  obtain ⟨hnot₁, hnot₂⟩ := Bool.or_eq_false_iff.mp hnot
  refine if_neg fun htakes => ?_
  rw [hfiltered, hlist, hkeys, hnot₁, hnot₂] at htakes
  exact absurd htakes (by simp)

end Copying

/-! ## The names of the instance -/

section Names

variable {ns cn : Option CStr} {ss : List (List UInt8)} {as : List (List Stored)}

/-- The two names, in a new object of any kind. -/
theorem addNames_hasRoom {type : HdrType} :
    (∃ r ∈ addClStringOrNone (.new type) ns, ∃ r' ∈ addClStringOrNone r.1 cn, r'.1.HasRoom ss as) ↔
      (ObjectHdr.new type).HasRoom (textRecords (ns.toList ++ cn.toList) ++ ss) as := by
  have hempty := contents_new type
  unfold textRecords
  rw [List.map_append, List.append_assoc]
  refine Iff.trans ?_ (addClStringOrNone_hasRoom hempty)
  constructor
  · intro ⟨r, hr, hrest⟩
    obtain ⟨strs, hcontents⟩ := addClStringOrNone_made hempty hr
    exact ⟨r, hr, (addClStringOrNone_hasRoom hcontents).mp hrest⟩
  · intro ⟨r, hr, hroom⟩
    obtain ⟨strs, hcontents⟩ := addClStringOrNone_made hempty hr
    exact ⟨r, hr, (addClStringOrNone_hasRoom hcontents).mpr hroom⟩

theorem newObjectPathH_hasRoom :
    (∃ op ∈ newObjectPathH ns cn, op.hdr.HasRoom ss as) ↔
      (ObjectHdr.new .objectPath).HasRoom (textRecords (ns.toList ++ cn.toList) ++ ss) as := by
  rw [← addNames_hasRoom]
  unfold newObjectPathH
  simp only [Option.bind_eq_bind, exists_mem_bind, Option.pure_def, Option.mem_some_iff,
    exists_eq_left']

theorem newInstance_hasRoom :
    (∃ i ∈ newInstance ns cn, i.hdl.hdr.HasRoom ss as) ↔
      (ObjectHdr.new .inst).HasRoom (textRecords (ns.toList ++ cn.toList) ++ ss) as := by
  rw [← addNames_hasRoom]
  unfold newInstance newInstanceH
  simp only [Option.bind_eq_bind, exists_mem_bind, exists_mem_map, Option.pure_def,
    Option.mem_some_iff, exists_eq_left']

/-- A name that may be missing has this id. -/
def NameAt (hdr : ObjectHdr) (id : Nat) (s : Option CStr) : Prop :=
  s = none ∧ id = 0 ∨ ∃ t, s = some t ∧ HasText hdr id t

theorem NameAt.getClString_eq {hdr : ObjectHdr} {id : Nat} {s : Option CStr}
    (h : NameAt hdr id s) : getClString hdr id = s := by
  obtain ⟨rfl, rfl⟩ | ⟨t, rfl, htext⟩ := h
  · unfold getClString getClObject
    cases hdr.strBuf <;> rfl
  · exact htext.getClString

theorem addClStringOrNone_nameAt {hdr hdr' : ObjectHdr} {id : Nat} {s : Option CStr}
    (hs : ∀ t ∈ s, 0 ∉ t) (h : addClStringOrNone hdr s = some (hdr', id)) :
    NameAt hdr' id s ∧ KeepsTexts none hdr hdr' := by
  cases s with
  | none =>
    cases h
    exact ⟨Or.inl ⟨rfl, rfl⟩, KeepsTexts.refl _⟩
  | some t => exact ⟨Or.inr ⟨t, rfl, addClString_hasText h (hs t rfl)⟩, (addClStringN_spec h).1⟩

/-- The names of a path are those it was made of. -/
theorem newObjectPathH_names (hns : ∀ s ∈ ns, 0 ∉ s) (hcn : ∀ s ∈ cn, 0 ∉ s) {op : ClObjectPath}
    (h : newObjectPathH ns cn = some op) :
    getClString op.hdr op.nameSpace = ns ∧ getClString op.hdr op.className = cn := by
  unfold newObjectPathH at h
  obtain ⟨⟨hdr₁, id₁⟩, hadd₁, h⟩ := Option.bind_eq_some_iff.mp h
  obtain ⟨⟨hdr₂, id₂⟩, hadd₂, h⟩ := Option.bind_eq_some_iff.mp h
  cases h
  obtain ⟨hname₁, -⟩ := addClStringOrNone_nameAt hns hadd₁
  obtain ⟨hname₂, hkeeps⟩ := addClStringOrNone_nameAt hcn hadd₂
  refine ⟨NameAt.getClString_eq (hname₁.imp id fun ⟨t, ht, htext⟩ => ⟨t, ht, ?_⟩),
    hname₂.getClString_eq⟩
  exact hkeeps.texts _ t (by simp) htext

/-- What is read as a string is one. -/
theorem not_mem_getClString (hdr : ObjectHdr) (id : Nat) : ∀ s ∈ getClString hdr id, 0 ∉ s := by
  intro s hs hzero
  obtain ⟨bytes, -, rfl⟩ := Option.map_eq_some_iff.mp hs
  exact absurd (List.all_eq_true.mp List.all_takeWhile 0 hzero) (by simp)

/-- A new instance with the filter has no properties yet. -/
theorem newInstance_filtering {i : NativeInstance} {g : Owned} {propertyList : List CStr}
    {keys : Option (List CStr)} (hnew : newInstance ns cn = some i) (h : Represents i g []) :
    Filtering propertyList keys
      { i with filtered := true, propertyList := some propertyList, keyList := keys } g [] := by
  obtain ⟨inst, hinst, rfl⟩ := Option.map_eq_some_iff.mp hnew
  unfold newInstanceH at hinst
  obtain ⟨_, -, hinst⟩ := Option.bind_eq_some_iff.mp hinst
  obtain ⟨_, -, hinst⟩ := Option.bind_eq_some_iff.mp hinst
  cases hinst
  exact ⟨⟨rfl, rfl, rfl⟩, ⟨rfl, h.of, h.length, h.property, h.entry⟩, rfl,
    ⟨fun _ => rfl, fun hthere => absurd hthere (by simp [ClSection.clear])⟩, List.nodup_nil⟩

end Names

/-! ## The filter -/

section Filter

variable {i : NativeInstance} {props : List PropertyShown} {propertyList : List CStr}
  {keys : Option (List CStr)}

/-- The calls that set the listed properties again. -/
def callsAgain (propertyList : List CStr) (keys : Option (List CStr))
    (props : List PropertyShown) : List SetCall :=
  (props.filter (inLists (some propertyList) keys ·.name)).map SetCall.again

/-- The filter is the calls, made to a new instance that has it. -/
theorem setPropertyFilter_eq (h : Shows i.hdl props) :
    setPropertyFilter i (some propertyList) keys =
      (newObjectPathH (getClString i.hdl.hdr i.hdl.nameSpace)
        (getClString i.hdl.hdr i.hdl.className)).bind fun cop =>
      (newInstance (getClString cop.hdr cop.nameSpace)
        (getClString cop.hdr cop.className)).bind fun iNew =>
      runSets { iNew with filtered := true, propertyList := some propertyList, keyList := keys }
        (callsAgain propertyList keys props) := by
  unfold setPropertyFilter
  rw [if_neg (by simp)]
  simp only [Option.bind_eq_bind]
  refine Option.bind_congr fun cop _ => Option.bind_congr fun iNew _ => ?_
  unfold getPropertyCount
  rw [h.count, List.range_eq_range']
  exact foldlM_copyListed fun k x hx => by rw [Nat.zero_add]; exact h.property hx

theorem callsAgain_spec (h : PlainInstance i props) :
    (∀ c ∈ callsAgain propertyList keys props, c.proper = true) ∧
      (∀ c ∈ callsAgain propertyList keys props,
        inLists (some propertyList) keys c.name = true) ∧
      ((callsAgain propertyList keys props).map fun c => fold c.name).Nodup := by
  have hmem : ∀ c ∈ callsAgain propertyList keys props,
      ∃ x ∈ props, inLists (some propertyList) keys x.name = true ∧ SetCall.again x = c := by
    intro c hc
    obtain ⟨x, hx, rfl⟩ := List.mem_map.mp hc
    obtain ⟨hx, hlisted⟩ := List.mem_filter.mp hx
    exact ⟨x, hx, hlisted, rfl⟩
  refine ⟨fun c hc => ?_, fun c hc => ?_, ?_⟩
  · obtain ⟨x, hx, -, rfl⟩ := hmem c hc
    exact (SetCall.again_got (h.plain x hx)).1
  · obtain ⟨x, -, hlisted, rfl⟩ := hmem c hc
    exact hlisted
  · unfold callsAgain
    rw [List.map_map]
    exact h.names.sublist (List.filter_sublist.map _)

/-- The records of the calls. -/
theorem callsAgain_records (h : PlainInstance i props) :
    (callsAgain propertyList keys props).flatMap SetCall.strRecords = textRecords
      ((props.filter (inLists (some propertyList) keys ·.name)).flatMap
        PropertyShown.strings) ∧
    ((callsAgain propertyList keys props).flatMap SetCall.arrRecords).flatten.length =
      ((props.filter (inLists (some propertyList) keys ·.name)).map PropertyShown.cells).sum ∧
    ((callsAgain propertyList keys props).flatMap SetCall.arrRecords).length ≤
      ((props.filter (inLists (some propertyList) keys ·.name)).flatMap
        PropertyShown.strings).length := by
  unfold callsAgain
  have hplain : ∀ x ∈ props.filter (inLists (some propertyList) keys ·.name), x.Plain :=
    fun x hx => h.plain x (List.mem_filter.mp hx).1
  generalize props.filter (inLists (some propertyList) keys ·.name) = xs at hplain
  induction xs with
  | nil => exact ⟨rfl, rfl, Nat.le_refl _⟩
  | cons x xs ih =>
    obtain ⟨hstrs, hcells, hfew⟩ := ih fun y hy => hplain y (List.mem_cons_of_mem _ hy)
    obtain ⟨hstrs₁, hcells₁, hfew₁⟩ := SetCall.again_records (hplain x List.mem_cons_self)
    have hname : 0 < x.strings.length := Nat.succ_pos _
    simp only [List.map_cons, List.flatMap_cons, List.flatten_append, List.length_append,
      List.sum_cons]
    refine ⟨?_, ?_, ?_⟩
    · rw [hstrs, hstrs₁]
      exact (List.map_append ..).symm
    · rw [hcells, hcells₁]
    · omega

/-- The listed properties fit into a new instance. -/
structure FitsAgain (i : NativeInstance) (props : List PropertyShown) : Prop where
  count : (stringsLeft i props).length ≤ 2 ^ 14 + 1
  bytes : stringBytes (stringsLeft i props) < 2 ^ 30
  cells : (props.map PropertyShown.cells).sum < 2 ^ 30

instance (i : NativeInstance) (props : List PropertyShown) : Decidable (FitsAgain i props) :=
  decidable_of_iff (_ ∧ _ ∧ _) ⟨fun h => ⟨h.1, h.2.1, h.2.2⟩, fun h => ⟨h.count, h.bytes, h.cells⟩⟩

/-- There is room in new buffers for all records. -/
theorem hasRoom_iff (h : PlainInstance i props) (type : HdrType) :
    (ObjectHdr.new type).HasRoom
        (textRecords ((getClString i.hdl.hdr i.hdl.nameSpace).toList ++
          (getClString i.hdl.hdr i.hdl.className).toList) ++
          (callsAgain propertyList keys props).flatMap SetCall.strRecords)
        ((callsAgain propertyList keys props).flatMap SetCall.arrRecords) ↔
      FitsAgain i (props.filter (inLists (some propertyList) keys ·.name)) := by
  obtain ⟨hstrs, hcells, hfew⟩ := @callsAgain_records i props propertyList keys h
  have hall : ∀ xs ys : List CStr, textRecords xs ++ textRecords ys = textRecords (xs ++ ys) :=
    fun xs ys => (List.map_append ..).symm
  rw [hstrs, hall]
  show ObjectHdr.HasRoom _ (textRecords (stringsLeft i _)) _ ↔ _
  constructor
  · intro hroom
    obtain ⟨hcount, hbytes⟩ := roomFor_none_iff.mp hroom.strings
    obtain ⟨-, hfew'⟩ := roomFor_none_iff.mp hroom.arrays
    unfold textRecords at hcount
    rw [List.length_map] at hcount
    rw [length_records] at hbytes
    exact ⟨hcount, hbytes, hcells ▸ hfew'⟩
  · intro hfits
    refine ⟨roomFor_none_iff.mpr ⟨?_, ?_⟩, roomFor_none_iff.mpr ⟨?_, hcells.symm ▸ hfits.cells⟩⟩
    · unfold textRecords
      rw [List.length_map]
      exact hfits.count
    · rw [length_records]
      exact hfits.bytes
    · have hcount := hfits.count
      unfold stringsLeft at hcount
      rw [List.length_append] at hcount
      omega

/-- The properties are set again where they fit. -/
theorem setPropertyFilter_of_fits (h : PlainInstance i props)
    (hfits : FitsAgain i (props.filter (inLists (some propertyList) keys ·.name))) :
    ∃ i' g', setPropertyFilter i (some propertyList) keys = some i' ∧
      Filtering propertyList keys i' g'
        ((callsAgain propertyList keys props).map fun c => ⟨c.name, c⟩) := by
  obtain ⟨hproper, htaken, hdistinct⟩ := @callsAgain_spec i props propertyList keys h
  obtain ⟨cop, hcop, -⟩ := newObjectPathH_hasRoom.mpr ((hasRoom_iff h .objectPath).mpr hfits)
  obtain ⟨new, hnew, hroom⟩ := newInstance_hasRoom.mpr ((hasRoom_iff h .inst).mpr hfits)
  obtain ⟨hns, hcn⟩ := newObjectPathH_names (not_mem_getClString _ _) (not_mem_getClString _ _) hcop
  obtain ⟨g, hempty⟩ :=
    newInstance_represents (not_mem_getClString _ _) (not_mem_getClString _ _) hnew
  have hstart := @newInstance_filtering _ _ new g propertyList keys hnew hempty
  obtain ⟨i', g', hrun, hfiltering⟩ := hstart.run hproper htaken hdistinct hroom
  refine ⟨i', g', ?_, hfiltering⟩
  rw [setPropertyFilter_eq h.shows, Option.mem_def.mp hcop, Option.bind_some, hns, hcn,
    Option.mem_def.mp hnew, Option.bind_some]
  exact hrun

/-- They fit where they were set again. -/
theorem fits_of_setPropertyFilter (h : PlainInstance i props) {i' : NativeInstance}
    (hfilter : setPropertyFilter i (some propertyList) keys = some i') :
    FitsAgain i (props.filter (inLists (some propertyList) keys ·.name)) := by
  obtain ⟨hproper, htaken, hdistinct⟩ := @callsAgain_spec i props propertyList keys h
  rw [setPropertyFilter_eq h.shows] at hfilter
  obtain ⟨cop, hcop, hfilter⟩ := Option.bind_eq_some_iff.mp hfilter
  obtain ⟨new, hnew, hrun⟩ := Option.bind_eq_some_iff.mp hfilter
  obtain ⟨hns, hcn⟩ := newObjectPathH_names (not_mem_getClString _ _) (not_mem_getClString _ _) hcop
  rw [hns, hcn] at hnew
  obtain ⟨g, hempty⟩ :=
    newInstance_represents (not_mem_getClString _ _) (not_mem_getClString _ _) hnew
  have hstart := @newInstance_filtering _ _ new g propertyList keys hnew hempty
  have hroom := hstart.room_of_run hproper htaken hdistinct hrun
  exact (hasRoom_iff h .inst).mp (newInstance_hasRoom.mp ⟨new, hnew, hroom⟩)

/-- A filtered instance has plain properties again. -/
theorem setPropertyFilter_plain (h : PlainInstance i props) {i' : NativeInstance}
    (hfilter : setPropertyFilter i (some propertyList) keys = some i') :
    ∃ props', PlainInstance i' props' := by
  obtain ⟨i₁, g, hfilter', hfiltering⟩ :=
    setPropertyFilter_of_fits h (fits_of_setPropertyFilter h hfilter)
  obtain rfl := Option.some.inj (hfilter.symm.trans hfilter')
  obtain ⟨props', hplain, -⟩ := hfiltering.represents.plain hfiltering.distinct
  exact ⟨props', hplain⟩

/-- So has every instance that was made by setting plain data. -/
theorem runSets_plain {ns cn : Option CStr} (hns : ∀ s ∈ ns, 0 ∉ s) (hcn : ∀ s ∈ cn, 0 ∉ s)
    (hnew : newInstance ns cn = some i) {calls : List SetCall}
    (hproper : ∀ c ∈ calls, c.proper = true) (hmeets : AllSetsMeet i calls) {i' : NativeInstance}
    (hrun : runSets i calls = some i') : ∃ props', PlainInstance i' props' := by
  obtain ⟨g, hempty⟩ := newInstance_represents hns hcn hnew
  obtain ⟨i₁, g₁, hrun', hrep, -⟩ := runSets_represents hempty hproper hmeets List.prefix_rfl
  obtain rfl := Option.some.inj (hrun.symm.trans hrun')
  have hrep' : Represents { i' with filtered := false } g₁ (entriesOf calls) :=
    ⟨rfl, hrep.of, hrep.length, hrep.property, hrep.entry⟩
  obtain ⟨props', hplain, -⟩ := hrep'.plain (names_entriesOf calls).1
  exact ⟨props', hplain⟩

/-- The lists are compared as they should be. -/
theorem inLists_eq (hlist : ∀ e ∈ propertyList, 0 ∉ e) (hkeys : ∀ e ∈ keys.getD [], 0 ∉ e)
    {name : CStr} (hname : 0 ∉ name) :
    inLists (some propertyList) keys name = listed propertyList keys name := by
  unfold inLists listed
  rw [containedList_eq hlist hname, ← containedList_eq hkeys hname]
  rfl

theorem PropertyShown.Plain.name {x : PropertyShown} (h : x.Plain) : 0 ∉ x.name := by
  obtain ⟨c, hproper, hname, -⟩ := h
  exact hname ▸ (SetCall.proper_plain hproper).1

theorem filter_listed (h : PlainInstance i props) (hlist : ∀ e ∈ propertyList, 0 ∉ e)
    (hkeys : ∀ e ∈ keys.getD [], 0 ∉ e) :
    props.filter (inLists (some propertyList) keys ·.name) =
      props.filter (listed propertyList keys ·.name) :=
  List.filter_congr fun x hx => inLists_eq hlist hkeys (h.plain x hx).name

/-- What the rounds leave is read as the properties that are to be left. -/
theorem Filtering.shows_kept {i' : NativeInstance} {g' : Owned} (h : PlainInstance i props)
    (hlist : ∀ e ∈ propertyList, 0 ∉ e) (hkeys : ∀ e ∈ keys.getD [], 0 ∉ e)
    (hfiltering : Filtering propertyList keys i' g'
      ((callsAgain propertyList keys props).map fun c => ⟨c.name, c⟩)) :
    Shows i'.hdl (kept propertyList keys props) := by
  have hshows := hfiltering.shows
  unfold callsAgain at hshows
  rw [filter_listed h hlist hkeys, List.map_map, List.map_map] at hshows
  unfold kept
  refine Eq.mp (congrArg (Shows i'.hdl) (List.map_congr_left fun x hx => ?_)) hshows
  have hplain := h.plain x (List.mem_filter.mp hx).1
  show PropertyShown.mk x.name (SetCall.again x).got
    (!containedList (some propertyList) x.name) = _
  rw [(SetCall.again_got hplain).2, containedList_eq hlist hplain.name]

/-- An instance that has been filtered shows the properties that are to be left. -/
theorem setPropertyFilter_shows (h : PlainInstance i props) (hlist : ∀ e ∈ propertyList, 0 ∉ e)
    (hkeys : ∀ e ∈ keys.getD [], 0 ∉ e) {i' : NativeInstance}
    (hfilter : setPropertyFilter i (some propertyList) keys = some i') :
    Shows i'.hdl (kept propertyList keys props) := by
  obtain ⟨i₁, g, hfilter', hfiltering⟩ :=
    setPropertyFilter_of_fits h (fits_of_setPropertyFilter h hfilter)
  obtain rfl := Option.some.inj (hfilter.symm.trans hfilter')
  exact hfiltering.shows_kept h hlist hkeys

/-- The filter leaves the listed properties, and no others, if and only if they fit into a
new instance. -/
theorem filters_iff (h : PlainInstance i props) (hlist : ∀ e ∈ propertyList, 0 ∉ e)
    (hkeys : ∀ e ∈ keys.getD [], 0 ∉ e) :
    Filters i props propertyList keys ↔
      FitsAgain i (props.filter (listed propertyList keys ·.name)) := by
  rw [← filter_listed h hlist hkeys]
  constructor
  · intro ⟨i', hfilter, _, _⟩
    exact fits_of_setPropertyFilter h hfilter
  · intro hfits
    obtain ⟨i', g', hfilter, hfiltering⟩ := setPropertyFilter_of_fits h hfits
    refine ⟨i', hfilter, hfiltering.shows_kept h hlist hkeys, fun c hname hnot => ?_⟩
    exact hfiltering.ignores ((inLists_eq hlist hkeys hname).trans hnot)

end Filter

/-- One property that is listed, one that is only a key, one that is not, and a NULL. -/
theorem filters_iff_sample :
    let calls : List SetCall :=
      [⟨lit "Name", some (.text (lit "a")), CMPIBase.string.simple⟩,
        ⟨lit "Tags", some (.array ⟨.string, [⟨0, .text (lit "x")⟩, ⟨nullValue, .word 0⟩]⟩),
          CMPIBase.string.arrayOf⟩,
        ⟨lit "Size", some (.word 7), CMPIBase.uint32.simple⟩,
        ⟨lit "Id", none, CMPIBase.uint16.simple⟩]
    let props : List PropertyShown := calls.map fun c => ⟨c.name, c.got, false⟩
    ∃ i i', newInstance (some (lit "root")) (some (lit "C")) = some i ∧
      runSets i calls = some i' ∧ PlainInstance i' props ∧
      Filters i' props [lit "tags", lit "NAME"] (some [lit "id", lit "name"]) := by
  intro calls props
  have hshows : ((newInstance (some (lit "root")) (some (lit "C"))).bind fun i =>
      (runSets i calls).map fun i' => decide (Shows i'.hdl props ∧ FitsAgain i'
        (props.filter (listed [lit "tags", lit "NAME"] (some [lit "id", lit "name"]) ·.name)))) =
        some true := by
    decide
  obtain ⟨i, hi, hrest⟩ := Option.bind_eq_some_iff.mp hshows
  obtain ⟨i', hrun, hall⟩ := Option.map_eq_some_iff.mp hrest
  obtain ⟨hshows, hfits⟩ := of_decide_eq_true hall
  have hplain : PlainInstance i' props := by
    refine ⟨hshows, fun x hx => ?_, by decide⟩
    obtain ⟨c, hc, rfl⟩ := List.mem_map.mp hx
    exact ⟨c, (show ∀ c ∈ calls, c.proper = true by decide) c hc, rfl, rfl⟩
  exact ⟨i, i', hi, hrun, hplain, (filters_iff hplain (by decide) (by decide)).mpr hfits⟩

/-! ## More than a new instance takes -/

/-- `__ift_clone`: the copy has no more room than its contents need. -/
def clone (i : NativeInstance) : NativeInstance :=
  { i with hdl := { i.hdl with
    hdr := i.hdl.hdr.packed
    qualifiers := packQualifiers i.hdl.qualifiers
    properties := packSection ClProperty.packed i.hdl.properties } }

/-- A copy of a new instance of `root:C`. -/
def emptyCopy : NativeInstance where
  hdl := {
    hdr := { ObjectHdr.new .inst with
      strBuf := some
        { index := [0, 5], iMax := 2, iMalloced := false, iAlloc := 2
          cells := lit "root" ++ [0] ++ (lit "C" ++ [0]), bMax := 7 } }
    quals := 0, parents := 0, className := 2, nameSpace := 1, qualifiers := .clear
    properties := .clear }
  filtered := false
  propertyList := none
  keyList := none

/-- Its strings when there are more of them: the index was doubled, and the seven bytes. -/
def moreStrings (index : List Nat) (rest : List UInt8) (bMax : Nat) : ObjectHdr :=
  { ObjectHdr.new .inst with
    strBuf := some
      { index := [0, 5] ++ index, iMax := 4, iMalloced := true, iAlloc := 8
        cells := lit "root" ++ [0] ++ (lit "C" ++ [0]) ++ rest, bMax } }

/-- A property with the name and the text behind those. -/
def textProperty : ClProperty :=
  { data := ⟨CMPIBase.chars.simple, 0, .num 4⟩, id := 3, refName := 0, flags := 0, quals := 0,
    originId := 0, qualifiers := .clear }

/-- The copy with that property. -/
def withText (text : CStr) : NativeInstance :=
  { emptyCopy with hdl := { emptyCopy.hdl with
    hdr := moreStrings [7, 9] (lit "p" ++ [0] ++ (text ++ [0])) (7 * 2 ^ 28)
    properties := ⟨[textProperty], 8, true⟩ } }

/-- The property as it is read. -/
def textShown (text : CStr) : PropertyShown :=
  ⟨lit "p", ⟨CMPIBase.string.simple, 0, .text text⟩, false⟩

section Large

variable {text : CStr}

theorem withText_read (hzero : 0 ∉ text) :
    internalGetPropertyAt (withText text).hdl 0 = some (lit "p", (textShown text).data) := by
  have hname : getClString (withText text).hdl.hdr 3 = some (lit "p") := rfl
  have htext : getClString (withText text).hdl.hdr 4 = some text := by
    have hobject : getClObject (withText text).hdl.hdr 4 = some (text ++ [0] ++ []) := by
      rw [List.append_nil]
      rfl
    unfold getClString
    rw [hobject, Option.map_some, takeWhile_text hzero]
  have hread : getPropertyAt (withText text).hdl 0 = some (textShown text).data := by
    have htext' : readText (withText text).hdl.hdr (.num 4) = some (.text text) := by
      show (getClString (withText text).hdl.hdr 4).map Value.text = _
      rw [htext]
      rfl
    exact (getPropertyAt_text rfl rfl).trans (congrArg (Option.map _) htext')
  have hp : (withText text).hdl.properties.items[0]? = some textProperty := rfl
  unfold internalGetPropertyAt
  simp only [hp, show textProperty.id = 3 from rfl, hname, hread, Option.bind_eq_bind,
    Option.bind_some]
  rfl

theorem withText_plain (hzero : 0 ∉ text) : PlainInstance (withText text) [textShown text] := by
  refine ⟨⟨rfl, fun {j x} hx => ?_, fun {j x p} hx hp => ?_⟩, fun x hx => ?_, by simp⟩
  · cases j with
    | zero =>
      cases hx
      exact withText_read hzero
    | succ j => exact absurd hx (by simp)
  · cases j with
    | zero =>
      cases hx
      cases hp
      rfl
    | succ j => exact absurd hx (by simp)
  · rw [List.mem_singleton.mp hx]
    refine ⟨⟨lit "p", some (.text text), CMPIBase.string.simple⟩, ?_, rfl, rfl⟩
    unfold SetCall.proper
    refine Bool.and_eq_true_iff.mpr ⟨rfl, by simpa using ⟨⟨rfl, rfl⟩, hzero⟩⟩

/-- A gigabyte finds room behind the seven bytes. -/
theorem addClString_large (hlength : text.length = 2 ^ 30) :
    addClString (moreStrings [7] (lit "p" ++ [0]) 14) text =
      some (moreStrings [7, 9] (lit "p" ++ [0] ++ (text ++ [0])) (7 * 2 ^ 28), 4) := by
  obtain ⟨b, hb, hensure, hmax, hneed⟩ :
      ∃ b, (moreStrings [7] (lit "p" ++ [0]) 14).strBuf = some b ∧ b.ensureIndex = b ∧
        b.bMax = 14 ∧ b.cells.length = 9 := ⟨_, rfl, rfl, rfl, rfl⟩
  have hcells : b.ensureCells (text ++ [0]).length = some { b with bMax := 7 * 2 ^ 28 } := by
    have hgrow : growTo (2 ^ 30 + 10) 14 = 7 * 2 ^ 28 := by decide
    unfold ensureCells
    rw [List.length_append, hlength, hneed, hmax, List.length_singleton,
      show 9 + (2 ^ 30 + 1) = 2 ^ 30 + 10 from rfl, if_pos (by decide)]
    simp only [hgrow]
    exact if_pos (by decide)
  unfold addClString addClStringN
  rw [hb]
  show (b.push (text ++ [0])).map _ = _
  unfold push
  rw [hensure, hcells]
  cases hb
  rfl

theorem withText_set (hlength : text.length = 2 ^ 30) :
    setProperty emptyCopy (lit "p") (some (.text text)) CMPIBase.string.simple =
      some (withText text, 0) := by
  have hdata : setData (some (.text text)) CMPIBase.string.simple =
      ⟨CMPIBase.chars.simple, 0, .text text⟩ := rfl
  have hname : addClString emptyCopy.hdl.hdr (lit "p") =
      some (moreStrings [7] (lit "p" ++ [0]) 14, 3) := by
    decide
  have hstore : storeNew (moreStrings [7] (lit "p" ++ [0]) 14)
      ⟨CMPIBase.chars.simple, 0, .text text⟩ =
        some ((withText text).hdl.hdr, ⟨CMPIBase.chars.simple, 0, .num 4⟩) := by
    rw [storeNew_text (by decide) rfl rfl, addClString_large hlength]
    rfl
  have hnew : newProperty emptyCopy.hdl.hdr (lit "p") ⟨CMPIBase.chars.simple, 0, .text text⟩ none =
      some ((withText text).hdl.hdr, textProperty) := by
    rw [newProperty_eq hname (show addClStringOrNone _ none = some (_, 0) from rfl) hstore,
      if_neg fun hinst => absurd hinst.2
        (show CMPIBase.chars.simple ≠ CMPIBase.inst.simple by decide)]
    rfl
  have hadd : addObjectPropertyH emptyCopy.hdl.store (lit "p")
      ⟨CMPIBase.chars.simple, 0, .text text⟩ none =
        some (⟨(withText text).hdl.hdr, ⟨[textProperty], 8, true⟩⟩, ((1 : Nat) : Int)) :=
    addObjectPropertyH_new rfl hnew rfl
  rw [← hdata] at hadd
  exact @setProperty_eq emptyCopy rfl ⟨lit "p", some (.text text), CMPIBase.string.simple⟩ _ _ hadd

/-- A new instance does not take it. -/
theorem withText_not_fits (hlength : text.length = 2 ^ 30) :
    ¬ FitsAgain (withText text) [textShown text] := by
  intro hfits
  have hbytes := hfits.bytes
  unfold stringsLeft stringBytes at hbytes
  simp only [List.flatMap_cons, List.flatMap_nil, List.append_nil, List.map_append,
    List.sum_append] at hbytes
  have hstrings : ((textShown text).strings.map (·.length + 1)).sum = 2 + (text.length + 1) := rfl
  omega

theorem withText_not_filters (hzero : 0 ∉ text) (hlength : text.length = 2 ^ 30) :
    ¬ Filters (withText text) [textShown text] [lit "p"] (some []) := by
  intro ⟨i', hfilter, _⟩
  have hfits := fits_of_setPropertyFilter (withText_plain hzero) hfilter
  have hkept : [textShown text].filter (inLists (some [lit "p"]) (some []) ·.name) =
      [textShown text] := rfl
  rw [hkept] at hfits
  exact withText_not_fits hlength hfits

end Large

/-- A copy of a new instance takes a text of `2 ^ 30` bytes, a new instance does not. -/
theorem not_filters : ∃ i₀ i props,
    (newInstance (some (lit "root")) (some (lit "C"))).map clone = some i₀ ∧
    setProperty i₀ (lit "p") (some (.text (List.replicate (2 ^ 30) 97))) CMPIBase.string.simple =
      some (i, 0) ∧
    PlainInstance i props ∧ ¬ Filters i props [lit "p"] (some []) := by
  have hzero : 0 ∉ List.replicate (2 ^ 30) (97 : UInt8) := by
    rw [List.mem_replicate]
    exact fun h => absurd h.2 (by decide)
  have hlength : (List.replicate (2 ^ 30) (97 : UInt8)).length = 2 ^ 30 := List.length_replicate
  generalize List.replicate (2 ^ 30) (97 : UInt8) = text at hzero hlength ⊢
  exact ⟨emptyCopy, withText text, [textShown text], by decide, withText_set hlength,
    withText_plain hzero, withText_not_filters hzero hlength⟩

end Sfcb.Object
