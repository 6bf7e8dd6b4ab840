import Sfcb.Object.IdDiscipline
import Sfcb.Object.Instance

/-!
# Plain data in an object

Numbers, booleans, strings and arrays of these: what a call of `setProperty` stores and
what is read from it.

The strings of an instance have owners (`Owned`): names and the elements of arrays are
never replaced, a text belongs to one property. Replacing what one property owns leaves
everything else (`Keeps`). `storeNew_stores` and `storeReplace_stores` are what setting
does, `getPropertyAt_eq` what reading gives.
-/

namespace Sfcb.Object

open Sfcb.Lib Sfcb.Lib.IndexedBuf

/-! ## Calls -/

/-- The arguments of `setProperty`. -/
structure SetCall where
  name : CStr
  value : Option Value
  type : CMPIType
  deriving DecidableEq, Repr

/-- The types of plain data. -/
def CMPIBase.isPlain (base : CMPIBase) : Bool :=
  base.bits.isSome || base = .string || base = .chars

/-- An element as the functions of an array leave it. -/
def ArrayItem.proper (type : CMPIBase) (item : ArrayItem) : Bool :=
  item.state = nullValue ||
    item.state = 0 &&
      match item.value, type.bits with
      | .word n, some w => decide (n < 2 ^ w)
      | .text s, none => decide (0 ∉ s)
      | _, _ => false

/-- An array of plain data; texts are strings there. -/
def NativeArray.proper (a : NativeArray) : Bool :=
  (a.type.bits.isSome || a.type = .string) && a.data.all (ArrayItem.proper a.type)

theorem ArrayItem.proper_cases {type : CMPIBase} {item : ArrayItem}
    (h : item.proper type = true) :
    item.state = nullValue ∨
    (∃ n w, item = ⟨0, .word n⟩ ∧ type.bits = some w ∧ n < 2 ^ w) ∨
    ∃ s, item = ⟨0, .text s⟩ ∧ type.bits = none ∧ 0 ∉ s := by
  unfold ArrayItem.proper at h
  by_cases hnull : item.state = nullValue
  · exact Or.inl hnull
  · obtain ⟨state, value⟩ := item
    rw [decide_eq_false hnull, Bool.false_or] at h
    obtain ⟨hstate, hvalue⟩ := Bool.and_eq_true_iff.mp h
    obtain rfl : state = 0 := of_decide_eq_true hstate
    cases value with
    | blob bytes => exact absurd hvalue (by simp)
    | word n =>
      cases hbits : type.bits with
      | none => simp [hbits] at hvalue
      | some w => exact Or.inr (Or.inl ⟨n, w, rfl, rfl, by simpa [hbits] using hvalue⟩)
    | text s =>
      cases hbits : type.bits with
      | some w => simp [hbits] at hvalue
      | none => exact Or.inr (Or.inr ⟨s, rfl, rfl, by simpa [hbits] using hvalue⟩)

/-- The value is of the type, which is one of plain data; it may be null. -/
def SetCall.proper (c : SetCall) : Bool :=
  decide (0 ∉ c.name) && c.type.base.isPlain &&
    match c.value with
    | none => true
    | some .nullPtr => c.type.array || c.type.base.bits.isNone
    | some (.word n) =>
      match c.type.base.bits with
      | some w => !c.type.array && decide (n < 2 ^ w)
      | none => false
    | some (.text s) => !c.type.array && c.type.base.bits.isNone && decide (0 ∉ s)
    | some (.array a) =>
      c.type.array && a.type = (if c.type.base = .chars then .string else c.type.base) && a.proper
    | some (.blob _) => false

/-- The property is set to NULL. -/
def SetCall.isNull (c : SetCall) : Bool := c.value = none || c.value = some .nullPtr

/-- The type a property is stored with. -/
def SetCall.storedType (c : SetCall) : CMPIType :=
  if c.type = CMPIBase.string.simple then CMPIBase.chars.simple else c.type

/-- The call of `addObjectPropertyH` behind it. -/
def SetCall.call (c : SetCall) : Call := ⟨c.name, setData c.value c.type, none⟩

/-- A value that is not NULL finds the storage of its type. -/
def SetCall.fits (c : SetCall) : Option ClProperty → Bool
  | none => true
  | some p => c.isNull ||
    ((p.data.type.array = c.type.array) &&
      decide (p.data.type = CMPIBase.chars.simple ↔ c.storedType = CMPIBase.chars.simple))

/-- The condition on a call. -/
structure SetCall.Meets (i : NativeInstance) (c : SetCall) : Prop where
  fits : c.fits (c.call.located i.hdl.store) = true
  room : c.call.HasRoomIn i.hdl.store (c.call.located i.hdl.store)

instance (i : NativeInstance) (c : SetCall) : Decidable (c.Meets i) :=
  decidable_of_iff (c.fits (c.call.located i.hdl.store) = true ∧
      c.call.HasRoomIn i.hdl.store (c.call.located i.hdl.store))
    ⟨fun h => ⟨h.1, h.2⟩, fun h => ⟨h.fits, h.room⟩⟩

/-! ## What should be read -/

/-- An element as it is read. -/
def ArrayItem.got (item : ArrayItem) : ArrayItem := if item.state = nullValue then nullItem else item

/-- A value as it is read. -/
def Value.got : Value → Value
  | .array a => .array ⟨a.type, a.data.map ArrayItem.got⟩
  | v => v

/-- What reading a property gives after a call: the type (a `CMPI_chars` is a string), and
NULL or the value. -/
def SetCall.got (c : SetCall) : CMPIData :=
  let type := if c.type = CMPIBase.chars.simple then CMPIBase.string.simple else c.type
  match c.value with
  | none => ⟨type, nullValue, if c.type.enca then .nullPtr else .word 0⟩
  | some .nullPtr => ⟨type, nullValue, .nullPtr⟩
  | some v => ⟨type, 0, v.got⟩

/-! ## The kinds of calls -/

/-- A number is none of the types that have no size. -/
theorem simple_ne_of_bits {base other : CMPIBase} {w : Nat} (hbits : base.bits = some w)
    (hother : other.bits = none) : base.simple ≠ other.simple := by
  intro heq
  obtain rfl : base = other := (CMPIType.mk.inj heq).1
  exact absurd (hbits.symm.trans hother) (by simp)

/-- A type of plain data that is no array is a number, or stored as a text. -/
theorem isPlain_cases {base : CMPIBase} (h : base.isPlain = true) :
    (∃ w, base.bits = some w) ∨ base = .string ∨ base = .chars := by
  unfold CMPIBase.isPlain at h
  simp only [Bool.or_eq_true, Option.isSome_iff_exists, decide_eq_true_eq] at h
  exact or_assoc.mp h

/-- What a proper call sets. -/
inductive SetCall.Kind (c : SetCall) : Prop where
  | null (h : c.isNull = true) (hptr : c.value = some .nullPtr → c.type.enca = true)
  | word (base : CMPIBase) (n w : Nat) (htype : c.type = base.simple)
    (hvalue : c.value = some (.word n)) (hbits : base.bits = some w) (hlt : n < 2 ^ w)
  | text (s : CStr) (htype : c.storedType = CMPIBase.chars.simple)
    (hvalue : c.value = some (.text s)) (hs : 0 ∉ s)
  | array (base : CMPIBase) (a : NativeArray) (htype : c.type = base.arrayOf)
    (hvalue : c.value = some (.array a)) (ha : a.proper = true)

theorem SetCall.proper_plain {c : SetCall} (h : c.proper = true) :
    0 ∉ c.name ∧ c.type.base.isPlain = true := by
  unfold SetCall.proper at h
  obtain ⟨h, -⟩ := Bool.and_eq_true_iff.mp h
  obtain ⟨hname, hplain⟩ := Bool.and_eq_true_iff.mp h
  exact ⟨of_decide_eq_true hname, hplain⟩

/-- The type is an array, a text or a number. -/
theorem SetCall.type_cases {c : SetCall} (h : c.proper = true) :
    c.type.array = true ∧ c.storedType = c.type ∨
    c.storedType = CMPIBase.chars.simple ∧ c.type.enca = true ∧
      (if c.type = CMPIBase.chars.simple then CMPIBase.string.simple else c.type) =
        CMPIBase.string.simple ∨
    ∃ base w, c.type = CMPIBase.simple base ∧ base.bits = some w ∧ c.storedType = c.type := by
  obtain ⟨-, hplain⟩ := SetCall.proper_plain h
  unfold SetCall.storedType
  obtain ⟨name, value, base, array⟩ := c
  cases array with
  | true => exact Or.inl ⟨rfl, if_neg (by simp [CMPIBase.simple])⟩
  | false =>
    rcases isPlain_cases hplain with ⟨w, hbits⟩ | hbase | hbase
    · exact Or.inr (Or.inr ⟨base, w, rfl, hbits, if_neg (simple_ne_of_bits hbits rfl)⟩)
    · obtain rfl : base = .string := hbase
      exact Or.inr (Or.inl ⟨rfl, rfl, rfl⟩)
    · obtain rfl : base = .chars := hbase
      exact Or.inr (Or.inl ⟨rfl, rfl, rfl⟩)

theorem SetCall.proper_kind {c : SetCall} (h : c.proper = true) : c.Kind := by
  have htypes := SetCall.type_cases h
  unfold SetCall.proper at h
  obtain ⟨h, hvalue⟩ := Bool.and_eq_true_iff.mp h
  obtain ⟨-, hplain⟩ := Bool.and_eq_true_iff.mp h
  cases hv : c.value with
  | none => exact .null (by simp [SetCall.isNull, hv]) (by simp [hv])
  | some v =>
    rw [hv] at hvalue
    cases v with
    | nullPtr =>
      refine .null (by simp [SetCall.isNull, hv]) fun _ => ?_
      rcases htypes with ⟨harray, -⟩ | ⟨-, henca, -⟩ | ⟨base, w, htype, hbits, -⟩
      · simp [CMPIType.enca, harray]
      · exact henca
      · simp [htype, CMPIBase.simple, hbits] at hvalue
    | blob bytes => exact absurd hvalue (by simp)
    | word n =>
      cases hbits : c.type.base.bits with
      | none => simp [hbits] at hvalue
      | some w =>
        simp only [hbits, Bool.and_eq_true, Bool.not_eq_true', decide_eq_true_eq] at hvalue
        refine .word c.type.base n w ?_ hv hbits hvalue.2
        obtain ⟨name, value, base, array⟩ := c
        obtain rfl : array = false := hvalue.1
        rfl
    | text s =>
      simp only [Bool.and_eq_true, Bool.not_eq_true', decide_eq_true_eq,
        Option.isNone_iff_eq_none] at hvalue
      obtain ⟨⟨harray, hbits⟩, hs⟩ := hvalue
      rcases htypes with ⟨harray', -⟩ | ⟨hchars, -⟩ | ⟨base, w, htype, hbits', -⟩
      · exact absurd (harray.symm.trans harray') (by simp)
      · exact .text s hchars hv hs
      · rw [htype] at hbits
        exact absurd (hbits.symm.trans hbits') (by simp)
    | array a =>
      simp only [Bool.and_eq_true, decide_eq_true_eq] at hvalue
      obtain ⟨⟨harray, -⟩, ha⟩ := hvalue
      refine .array c.type.base a ?_ hv ha
      obtain ⟨name, value, base, array⟩ := c
      obtain rfl : array = true := harray
      rfl

/-! ## The data of a call -/

theorem SetCall.isNull_cases {c : SetCall} (h : c.isNull = true) :
    c.value = none ∨ c.value = some .nullPtr := by
  simpa [SetCall.isNull] using h

theorem SetCall.not_isNull {c : SetCall} {v : Value} (hv : c.value = some v)
    (hne : v ≠ .nullPtr) : c.isNull = false := by
  simp [SetCall.isNull, hv, hne]

theorem SetCall.setData_null {c : SetCall} (h : c.isNull = true)
    (hptr : c.value = some .nullPtr → c.type.enca = true) :
    setData c.value c.type = ⟨c.storedType, nullValue, .word 0⟩ := by
  rcases SetCall.isNull_cases h with hv | hv
  · rw [hv]
    rfl
  · have henca := hptr hv
    rw [hv]
    unfold setData
    simp only [setAlignedValue, ite_self]
    exact if_pos ⟨henca, by simp⟩

theorem setData_word {base : CMPIBase} {n w : Nat} (hbits : base.bits = some w)
    (hlt : n < 2 ^ w) : setData (some (.word n)) base.simple = ⟨base.simple, 0, .word n⟩ := by
  have henca : ¬ base.simple.enca = true := by
    cases base <;> first | decide | exact absurd hbits (by simp [CMPIBase.bits])
  have haligned : setAlignedValue base.simple (.word n) = .word n := by
    unfold setAlignedValue
    simp only [CMPIBase.simple, hbits, Nat.mod_eq_of_lt hlt]
  unfold setData
  simp only [simple_ne_of_bits hbits (show CMPIBase.string.bits = none from rfl),
    simple_ne_of_bits hbits (show CMPIBase.chars.bits = none from rfl), or_self, if_false, haligned]
  exact if_neg fun h => henca h.1

theorem setData_type {c : SetCall} : (setData c.value c.type).type = c.storedType := by
  unfold setData
  cases c.value with
  | none => rfl
  | some v => exact (apply_ite CMPIData.type _ _ _).trans (ite_self _)

theorem SetCall.setData_text {c : SetCall} {s : CStr}
    (htype : c.storedType = CMPIBase.chars.simple) (hvalue : c.value = some (.text s)) :
    setData c.value c.type = ⟨CMPIBase.chars.simple, 0, .text s⟩ := by
  have htext : c.type = CMPIBase.chars.simple ∨ c.type = CMPIBase.string.simple := by
    unfold SetCall.storedType at htype
    split at htype
    · next h => exact Or.inr h
    · exact Or.inl htype
  rw [hvalue]
  unfold setData
  simp only [if_pos htext]
  rw [if_neg (by simp)]
  exact congrArg (CMPIData.mk · 0 (.text s)) htype

theorem setData_array (base : CMPIBase) (a : NativeArray) :
    setData (some (.array a)) base.arrayOf = ⟨base.arrayOf, 0, .array a⟩ := by
  unfold setData
  simp only [setAlignedValue, ite_self]
  rw [if_neg (by simp), if_neg (by simp [CMPIBase.arrayOf, CMPIBase.simple])]

/-! ## Owners -/

/-- Whose a string is. -/
inductive Owner where
  /-- a name or the element of an array, which is never replaced -/
  | fixed
  /-- the text of a property -/
  | property (i : Nat)
  deriving DecidableEq

/-- The strings and arrays with their owners. The strings of an array come behind the
first so many. -/
structure Owned where
  strs : List (Owner × CStr)
  arrs : List (Nat × NativeArray × Nat)

/-- The strings of the elements. -/
def ArrayItem.text (item : ArrayItem) : Option CStr :=
  if Object.isNull item.state then none
  else
    match item.value with
    | .text s => some s
    | _ => none

def NativeArray.texts (a : NativeArray) : List CStr := a.data.filterMap ArrayItem.text

theorem isNull_nullValue : Object.isNull nullValue = true := by decide

theorem not_isNull_zero : ¬ Object.isNull 0 = true := by decide

theorem record_null (value : ElemValue) : ArrayItem.record ⟨nullValue, value⟩ = none :=
  if_pos isNull_nullValue

theorem record_word (n : Nat) : ArrayItem.record ⟨0, .word n⟩ = none := if_neg not_isNull_zero

theorem record_text (s : CStr) : ArrayItem.record ⟨0, .text s⟩ = some (s ++ [0]) :=
  if_neg not_isNull_zero

theorem text_null (value : ElemValue) : ArrayItem.text ⟨nullValue, value⟩ = none :=
  if_pos isNull_nullValue

theorem text_word (n : Nat) : ArrayItem.text ⟨0, .word n⟩ = none := if_neg not_isNull_zero

theorem text_text (s : CStr) : ArrayItem.text ⟨0, .text s⟩ = some s := if_neg not_isNull_zero

/-- The strings as they are in the buffer. -/
def Owned.strRecords (g : Owned) : List (List UInt8) := g.strs.map fun x => x.2 ++ [0]

def Owned.arrRecords (g : Owned) : List (List Stored) :=
  g.arrs.map fun x => x.2.1.arrayRecord x.2.2

/-- The buffers of a header, with their owners. -/
structure Owned.Of (g : Owned) (hdr : ObjectHdr) : Prop where
  contents : Contents hdr g.strRecords g.arrRecords
  texts : ∀ x ∈ g.strs, 0 ∉ x.2
  elems : ∀ x ∈ g.arrs, x.2.1.texts.map (Owner.fixed, ·) <+: g.strs.drop x.2.2
  proper : ∀ x ∈ g.arrs, x.2.1.proper = true

/-- Everything stays that is not owned by property `i`. -/
structure Keeps (i : Nat) (g g' : Owned) : Prop where
  strs : ∀ {k : Nat} {o : Owner} {s : CStr}, g.strs[k]? = some (o, s) → o ≠ .property i →
    g'.strs[k]? = some (o, s)
  arrs : ∀ {k : Nat} {j : Nat} {a : NativeArray} {n : Nat}, g.arrs[k]? = some (j, a, n) → j ≠ i →
    g'.arrs[k]? = some (j, a, n)

/-- What property `i` has stored is what was set. -/
structure DataOk (g : Owned) (i : Nat) (data : Stored) (c : SetCall) : Prop where
  type : data.type = c.storedType
  state : data.state = if c.isNull then nullValue else 0
  null : c.isNull = true → data.value = .num 0
  word : ∀ {n : Nat}, c.value = some (.word n) → data.value = .num n
  text : ∀ {s : CStr}, c.value = some (.text s) →
    ∃ k, data.value = .num (k + 1) ∧ g.strs[k]? = some (.property i, s)
  array : ∀ {a : NativeArray}, c.value = some (.array a) →
    ∃ k n, data.value = .num (k + 1) ∧ g.arrs[k]? = some (i, a, n)

theorem Keeps.refl (i : Nat) (g : Owned) : Keeps i g g := ⟨fun h _ => h, fun h _ => h⟩

theorem Keeps.trans {i : Nat} {g g' g'' : Owned} (h : Keeps i g g') (h' : Keeps i g' g'') :
    Keeps i g g'' :=
  ⟨fun hk ho => h'.strs (h.strs hk ho) ho, fun hk hj => h'.arrs (h.arrs hk hj) hj⟩

/-- More strings and arrays leave all as it is. -/
theorem Keeps.append (i : Nat) (g : Owned) (xs : List (Owner × CStr))
    (ys : List (Nat × NativeArray × Nat)) : Keeps i g ⟨g.strs ++ xs, g.arrs ++ ys⟩ := by
  refine ⟨fun {k o s} hk _ => ?_, fun {k j a n} hk _ => ?_⟩
  · obtain ⟨hlt, -⟩ := List.getElem?_eq_some_iff.mp hk
    show (g.strs ++ xs)[k]? = _
    rw [List.getElem?_append_left hlt]
    exact hk
  · obtain ⟨hlt, -⟩ := List.getElem?_eq_some_iff.mp hk
    show (g.arrs ++ ys)[k]? = _
    rw [List.getElem?_append_left hlt]
    exact hk

/-- The other properties have what they had. -/
theorem DataOk.keeps {g g' : Owned} {i j : Nat} {data : Stored} {c : SetCall}
    (h : DataOk g j data c) (hkeeps : Keeps i g g') (hne : j ≠ i) : DataOk g' j data c := by
  refine ⟨h.type, h.state, h.null, h.word, fun hs => ?_, fun ha => ?_⟩
  · obtain ⟨k, hvalue, hk⟩ := h.text hs
    exact ⟨k, hvalue, hkeeps.strs hk (by simpa using hne)⟩
  · obtain ⟨k, n, hvalue, hk⟩ := h.array ha
    exact ⟨k, n, hvalue, hkeeps.arrs hk hne⟩

/-! ## Reading -/

section Reading

variable {g : Owned} {hdr : ObjectHdr}

/-- The id of a string gives the string. -/
theorem Owned.Of.getClString_eq (h : g.Of hdr) {k : Nat} {o : Owner} {s : CStr}
    (hk : g.strs[k]? = some (o, s)) : getClString hdr (k + 1) = some s := by
  have hrecord : g.strRecords[k]? = some (s ++ [0]) := by
    unfold Owned.strRecords
    rw [List.getElem?_map, hk]
    rfl
  obtain ⟨bytes, hget, hpre⟩ := h.contents.getClObject_eq hrecord
  have hs : 0 ∉ s := h.texts (o, s) (List.mem_of_getElem? hk)
  obtain ⟨rest, rfl⟩ := hpre
  unfold getClString
  rw [hget, Option.map_some, List.append_assoc, List.takeWhile_append_of_pos]
  · simp
  · intro c hc
    simpa using ne_of_mem_of_not_mem hc hs

theorem Owned.Of.readText_eq (h : g.Of hdr) {k : Nat} {o : Owner} {s : CStr}
    (hk : g.strs[k]? = some (o, s)) : readText hdr (.num (k + 1)) = some (.text s) := by
  show (getClString hdr (k + 1)).map Value.text = _
  rw [h.getClString_eq hk]
  rfl

theorem Owned.Of.readElemText_eq (h : g.Of hdr) {k : Nat} {o : Owner} {s : CStr}
    (hk : g.strs[k]? = some (o, s)) : readElemText hdr (.num (k + 1)) = some (.text s) := by
  show (getClString hdr (k + 1)).map ElemValue.text = _
  rw [h.getClString_eq hk]
  rfl

theorem makeItem_word {type : CMPIBase} {n w : Nat} (hbits : type.bits = some w)
    (hlt : n < 2 ^ w) : makeItem hdr type ⟨type.simple, 0, .num n⟩ = some ⟨0, .word n⟩ := by
  have hne : ∀ other : CMPIBase, other.bits = none → type.simple ≠ other.simple :=
    fun _ => simple_ne_of_bits hbits
  unfold makeItem
  rw [if_neg (show ¬ 0 = nullValue by decide), if_neg (hne .string rfl), if_neg (hne .ref rfl),
    if_neg (hne .inst rfl), if_neg (hne .dateTime rfl), if_pos rfl]
  simp only [hbits, Option.getD_some, Nat.mod_eq_of_lt hlt]

theorem makeItem_text (h : g.Of hdr) {k : Nat} {o : Owner} {s : CStr}
    (hk : g.strs[k]? = some (o, s)) :
    makeItem hdr .string ⟨CMPIBase.string.simple, 0, .num (k + 1)⟩ = some ⟨0, .text s⟩ := by
  unfold makeItem
  simp only [h.readElemText_eq hk]
  rfl

theorem makeItems_cons {type : CMPIBase} {cell : Stored} {item : ArrayItem} {m : Nat}
    {cells : List Stored} {items : List ArrayItem} (hitem : makeItem hdr type cell = some item)
    (hitems : makeItems hdr type m cells = some items) :
    makeItems hdr type (m + 1) (cell :: cells) = some (item :: items) := by
  unfold makeItems
  rw [hitem]
  simp only [hitems, Option.map_some]

/-- The elements of an array are read as they were; their strings are where the cells
say. -/
theorem makeItems_cellsOf (h : g.Of hdr) {type : CMPIBase}
    (htype : type.bits.isSome ∨ type = .string) {items : List ArrayItem}
    (hproper : ∀ item ∈ items, item.proper type = true) {n : Nat}
    (htexts : (items.filterMap ArrayItem.text).map (Owner.fixed, ·) <+: g.strs.drop n)
    (rest : List Stored) :
    makeItems hdr type items.length (cellsOf type n items ++ rest) =
      some (items.map ArrayItem.got) := by
  induction items generalizing n with
  | nil => rfl
  | cons item items ih =>
    have hitem := hproper item (by simp)
    have hproper' : ∀ item ∈ items, item.proper type = true :=
      fun i hi => hproper i (List.mem_cons_of_mem _ hi)
    rcases ArrayItem.proper_cases hitem with hnull | ⟨m, w, rfl, hbits, hlt⟩ | ⟨s, rfl, hbits, -⟩
    · obtain ⟨state, value⟩ := item
      obtain rfl : state = nullValue := hnull
      rw [List.filterMap_cons_none (text_null value)] at htexts
      rw [cellsOf_cons_none (record_null value)]
      refine makeItems_cons ?_ (ih hproper' htexts)
      unfold makeItem
      rw [if_pos rfl]
      rfl
    · rw [List.filterMap_cons_none (text_word m)] at htexts
      rw [cellsOf_cons_none (record_word m)]
      exact makeItems_cons (makeItem_word hbits hlt) (ih hproper' htexts)
    · obtain rfl : type = .string := by simpa [hbits] using htype
      rw [List.filterMap_cons_some (text_text s), List.map_cons] at htexts
      rw [cellsOf_cons_some (record_text s)]
      -- the next string of the array is the next one of the object
      obtain ⟨tail, htail⟩ := htexts
      have hhead : g.strs[n]? = some (.fixed, s) := by
        rw [← List.head?_drop, ← htail]
        rfl
      refine makeItems_cons (makeItem_text h hhead) (ih hproper' ⟨tail, ?_⟩)
      rw [← List.tail_drop, ← htail]
      rfl

theorem nativeMakeCMPIArray_cons {type : CMPIType} {state m : Nat} {cells : List Stored}
    {base : CMPIBase} (hbase : (if type.base = .chars then .string else type.base) = base) :
    nativeMakeCMPIArray hdr (⟨type, state, .num m⟩ :: cells) =
      (makeItems hdr base m cells).map (⟨base, ·⟩) := by
  subst hbase
  rfl

/-- A stored array is read as it was. -/
theorem Owned.Of.nativeMakeCMPIArray_eq (h : g.Of hdr) {k j n : Nat} {a : NativeArray}
    (hk : g.arrs[k]? = some (j, a, n)) :
    (getClArray hdr (k + 1)).bind (nativeMakeCMPIArray hdr) =
      some ⟨a.type, a.data.map ArrayItem.got⟩ := by
  have hmem := List.mem_of_getElem? hk
  have hrecord : g.arrRecords[k]? = some (a.arrayRecord n) := by
    unfold Owned.arrRecords
    rw [List.getElem?_map, hk]
    rfl
  obtain ⟨cells, hget, rest, rfl⟩ := h.contents.getClArray_eq hrecord
  obtain ⟨htype, hitems⟩ := Bool.and_eq_true_iff.mp (h.proper _ hmem)
  have htype : a.type.bits.isSome ∨ a.type = .string := by simpa using htype
  have hread := makeItems_cellsOf h htype (List.all_eq_true.mp hitems) (h.elems _ hmem) rest
  -- the head says `chars` for an array of strings, and is read as strings again
  have hbase : (if (arrayHead a).type.base = .chars then CMPIBase.string
      else (arrayHead a).type.base) = a.type := by
    show (if (if a.type = .string then CMPIBase.chars else a.type) = .chars then _ else
      (if a.type = .string then CMPIBase.chars else a.type)) = a.type
    by_cases hstring : a.type = .string
    · simp [hstring]
    · have hchars : a.type ≠ .chars := by
        intro hchars
        rw [hchars] at htype
        simp [CMPIBase.bits] at htype
      simp [hstring, hchars]
  rw [hget, Option.bind_some]
  exact (nativeMakeCMPIArray_cons hbase).trans (congrArg _ hread)

/-! A property is read by the type it is stored with. -/

section ByType

variable {inst : ClInstance} {i : Nat} {p : ClProperty}

theorem getPropertyAt_text (hp : inst.properties.items[i]? = some p)
    (htype : p.data.type = CMPIBase.chars.simple) :
    getPropertyAt inst i =
      (readText inst.hdr p.data.value).map (⟨CMPIBase.string.simple, p.data.state, ·⟩) := by
  unfold getPropertyAt
  simp only [hp]
  rw [if_pos htype]

theorem getPropertyAt_number (hp : inst.properties.items[i]? = some p) {base : CMPIBase}
    {w n : Nat} (htype : p.data.type = base.simple) (hbits : base.bits = some w)
    (hvalue : p.data.value = .num n) :
    getPropertyAt inst i = some ⟨base.simple, p.data.state, .word n⟩ := by
  have hne : ∀ other : CMPIBase, other.bits = none → base.simple ≠ other.simple :=
    fun _ => simple_ne_of_bits hbits
  unfold getPropertyAt
  simp only [hp, htype]
  rw [if_neg (hne .chars rfl), if_neg (hne .string rfl),
    if_neg (not_or.mpr ⟨hne .dateTime rfl, hne .ref rfl⟩), if_neg (by simp [CMPIBase.simple]),
    if_neg (hne .inst rfl)]
  simp only [hvalue]

theorem getPropertyAt_array (hp : inst.properties.items[i]? = some p)
    (htype : p.data.type.array = true) {v : Option Value}
    (hvalue : (p.data.value = .num 0 ∧ v = some .nullPtr) ∨
      ∃ k, p.data.value = .num (k + 1) ∧
        v = ((getClArray inst.hdr (k + 1)).bind (nativeMakeCMPIArray inst.hdr)).map .array) :
    getPropertyAt inst i = v.map (⟨p.data.type, p.data.state, ·⟩) := by
  have hne : ∀ base : CMPIBase, p.data.type ≠ base.simple := by
    intro base heq
    rw [heq] at htype
    exact absurd htype (by simp [CMPIBase.simple])
  unfold getPropertyAt
  simp only [hp]
  rw [if_neg (hne .chars), if_neg (hne .string), if_neg (not_or.mpr ⟨hne .dateTime, hne .ref⟩),
    if_pos htype]
  rcases hvalue with ⟨hzero, rfl⟩ | ⟨k, hk, rfl⟩
  · rw [hzero]
    rfl
  · rw [hk, Option.map_map]
    rfl

end ByType

/-- A property that was set to NULL is read as NULL. -/
theorem getPropertyAt_null {inst : ClInstance} {i : Nat} {p : ClProperty}
    (hp : inst.properties.items[i]? = some p) {c : SetCall} (hproper : c.proper = true)
    (hdata : DataOk g i p.data c) (hnull : c.isNull = true)
    (hptr : c.value = some .nullPtr → c.type.enca = true) :
    getPropertyAt inst i = some c.got := by
  have hvalue := hdata.null hnull
  have hstate := hdata.state
  have htype := hdata.type
  rw [hnull, if_pos rfl] at hstate
  -- both ways to say NULL are read the same
  have hgot : c.got = ⟨if c.type = CMPIBase.chars.simple then CMPIBase.string.simple else c.type,
      nullValue, if c.type.enca then .nullPtr else .word 0⟩ := by
    unfold SetCall.got
    rcases SetCall.isNull_cases hnull with hv | hv
    · simp only [hv]
    · simp only [hv, hptr hv, if_true]
  rw [hgot]
  rcases SetCall.type_cases hproper with ⟨harray, hstored⟩ | ⟨hchars, henca, hstring⟩ |
    ⟨base, w, hbase, hbits, hstored⟩
  · have hne : c.type ≠ CMPIBase.chars.simple := by
      intro heq
      rw [heq] at harray
      exact absurd harray (by decide)
    rw [hstored] at htype
    rw [getPropertyAt_array hp (by rw [htype]; exact harray) (Or.inl ⟨hvalue, rfl⟩), htype, hstate,
      if_neg hne, if_pos (by simp [CMPIType.enca, harray])]
    rfl
  · rw [getPropertyAt_text hp (htype.trans hchars), hvalue, hstate, hstring, henca, if_pos rfl]
    rfl
  · have henca : ¬ c.type.enca = true := by
      rw [hbase]
      cases base <;> first | decide | exact absurd hbits (by simp [CMPIBase.bits])
    rw [hstored, hbase] at htype
    rw [getPropertyAt_number hp htype hbits hvalue, hstate, if_neg henca, hbase,
      if_neg (simple_ne_of_bits hbits rfl)]

/-- What was set is read. -/
theorem getPropertyAt_eq {inst : ClInstance} (h : g.Of inst.hdr) {i : Nat} {p : ClProperty}
    (hp : inst.properties.items[i]? = some p) {c : SetCall} (hproper : c.proper = true)
    (hdata : DataOk g i p.data c) : getPropertyAt inst i = some c.got := by
  have htype := hdata.type
  have hstate := hdata.state
  cases SetCall.proper_kind hproper with
  | null hnull hptr => exact getPropertyAt_null hp hproper hdata hnull hptr
  | word base n w hbase hvalue hbits hlt =>
    have hne := simple_ne_of_bits hbits (show CMPIBase.string.bits = none from rfl)
    unfold SetCall.storedType at htype
    rw [hbase, if_neg hne] at htype
    rw [getPropertyAt_number hp htype hbits (hdata.word hvalue), hstate,
      SetCall.not_isNull hvalue (by simp)]
    unfold SetCall.got
    simp only [hvalue]
    rw [hbase, if_neg (simple_ne_of_bits hbits rfl)]
    rfl
  | text s hchars hvalue hs =>
    obtain ⟨k, hnum, hk⟩ := hdata.text hvalue
    rw [getPropertyAt_text hp (htype.trans hchars), hnum, h.readText_eq hk, hstate,
      SetCall.not_isNull hvalue (by simp)]
    unfold SetCall.got
    simp only [hvalue]
    -- of the types that are stored as chars a proper call has one only
    rcases SetCall.type_cases hproper with ⟨harray, hstored⟩ | ⟨-, -, hstring⟩ |
      ⟨base, w, hbase, hbits, hstored⟩
    · rw [hstored] at hchars
      rw [hchars] at harray
      exact absurd harray (by decide)
    · rw [hstring]
      rfl
    · rw [hstored, hbase] at hchars
      exact absurd hchars (simple_ne_of_bits hbits rfl)
  | array base a hbase hvalue ha =>
    obtain ⟨k, n, hnum, hk⟩ := hdata.array hvalue
    have hne : ∀ other : CMPIBase, base.arrayOf ≠ other.simple := by
      intro other heq
      exact Bool.noConfusion (CMPIType.mk.inj heq).2
    unfold SetCall.storedType at htype
    rw [hbase, if_neg (hne .string)] at htype
    rw [getPropertyAt_array hp (by rw [htype]; rfl) (Or.inr ⟨k, hnum, rfl⟩),
      h.nativeMakeCMPIArray_eq hk, htype, hstate, SetCall.not_isNull hvalue (by simp)]
    unfold SetCall.got
    simp only [hvalue]
    rw [hbase, if_neg (hne .chars)]
    rfl

end Reading

/-! ## Writing -/

section Writing

variable {g : Owned} {hdr : ObjectHdr} {i : Nat}

theorem Owned.length_strRecords : g.strRecords.length = g.strs.length := List.length_map _

theorem Owned.length_arrRecords : g.arrRecords.length = g.arrs.length := List.length_map _

/-- All strings are texts, so moving them leaves them as they are. -/
theorem Owned.Of.cut_strRecords (h : g.Of hdr) :
    g.strRecords.map (cut strLength) = g.strRecords := by
  unfold Owned.strRecords
  rw [List.map_map]
  exact List.map_congr_left fun x hx => cut_text (h.texts x hx)

theorem Owned.cut_arrRecords : g.arrRecords.map (cut arrayLength) = g.arrRecords := by
  unfold Owned.arrRecords
  rw [List.map_map]
  exact List.map_congr_left fun x _ => cut_array (length_cellsOf ..)

/-- The strings of an array stay when strings are appended. -/
theorem elems_append {strs : List (Owner × CStr)} {n : Nat} {xs : List (Owner × CStr)}
    (h : xs <+: strs.drop n) (more : List (Owner × CStr)) : xs <+: (strs ++ more).drop n := by
  rw [List.drop_append]
  exact h.trans (List.prefix_append ..)

/-- The strings of an array stay when the text of a property is replaced. -/
theorem elems_set {strs : List (Owner × CStr)} {n k : Nat} {xs : List CStr}
    (h : xs.map (Owner.fixed, ·) <+: strs.drop n) {t : CStr}
    (hk : strs[k]? = some (.property i, t)) (x : Owner × CStr) :
    xs.map (Owner.fixed, ·) <+: (strs.set k x).drop n := by
  rw [List.prefix_iff_getElem?] at h ⊢
  intro j hj
  have hold := h j hj
  rw [List.getElem?_drop] at hold ⊢
  have hne : k ≠ n + j := by
    rintro rfl
    rw [hk, List.getElem_map] at hold
    exact absurd (Prod.mk.inj (Option.some.inj hold)).1 (by simp)
  rw [List.getElem?_set_ne hne]
  exact hold

/-- A string is added for an owner. -/
theorem Owned.Of.addClString_owned (h : g.Of hdr) {s : CStr} (hs : 0 ∉ s) (o : Owner)
    {rest : List (List UInt8)} (hroom : RoomFor hdr.strBuf ((s ++ [0]) :: rest)) :
    ∃ b, addClString hdr s = some ({ hdr with strBuf := some b }, g.strs.length + 1) ∧
      (Owned.mk (g.strs ++ [(o, s)]) g.arrs).Of { hdr with strBuf := some b } ∧
      RoomFor (some b) rest := by
  obtain ⟨b, hadd, hcontents, hrest⟩ := addClString_contents h.contents hroom
  rw [Owned.length_strRecords] at hadd
  refine ⟨b, hadd, ⟨?_, ?_, ?_, h.proper⟩, hrest⟩
  · unfold Owned.strRecords
    rw [List.map_append]
    exact hcontents
  · intro x hx
    rcases List.mem_append.mp hx with hx | hx
    · exact h.texts x hx
    · rw [List.mem_singleton.mp hx]
      exact hs
  · exact fun x hx => elems_append (h.elems x hx) _

/-- The text of a property is replaced. -/
theorem Owned.Of.replaceClString_owned (h : g.Of hdr) {s t : CStr} (hs : 0 ∉ s) {k : Nat}
    (hk : g.strs[k]? = some (.property i, t)) (hroom : RoomFor hdr.strBuf [s ++ [0]]) :
    ∃ b, replaceClString hdr (k + 1) s = some { hdr with strBuf := some b } ∧
      (Owned.mk (g.strs.set k (.property i, s)) g.arrs).Of { hdr with strBuf := some b } := by
  obtain ⟨hlt, -⟩ := List.getElem?_eq_some_iff.mp hk
  obtain ⟨b, hreplace, hcontents⟩ := replaceClStringN_contents h.contents (delimited_text s)
    (Nat.succ_pos k) (by rw [Owned.length_strRecords]; exact hlt) hroom
  rw [h.cut_strRecords, Nat.succ_sub_one] at hcontents
  refine ⟨b, hreplace, ⟨?_, ?_, fun x hx => elems_set (h.elems x hx) hk _, h.proper⟩⟩
  · unfold Owned.strRecords at hcontents ⊢
    rw [List.map_set]
    exact hcontents
  · intro x hx
    rcases List.mem_or_eq_of_mem_set hx with hx | rfl
    · exact h.texts x hx
    · exact hs

theorem ArrayItem.proper_shaped {type : CMPIBase} (htype : type.bits.isSome ∨ type = .string)
    {item : ArrayItem} (h : item.proper type = true) : item.shaped type = true := by
  rcases ArrayItem.proper_cases h with hnull | ⟨n, w, rfl, hbits, -⟩ | ⟨s, rfl, hbits, -⟩
  · unfold ArrayItem.shaped
    rw [hnull, isNull_nullValue]
    rfl
  · have hplain : (!type.isText && decide (type ≠ .inst)) = true := by
      cases type <;> first | rfl | exact absurd hbits (by simp [CMPIBase.bits])
    unfold ArrayItem.shaped
    rw [hplain, Bool.or_true]
  · obtain rfl : type = .string := by simpa [hbits] using htype
    unfold ArrayItem.shaped
    exact Bool.or_true _

theorem ArrayItem.record_eq {type : CMPIBase} {item : ArrayItem} (h : item.proper type = true) :
    item.record = item.text.map (· ++ [0]) := by
  rcases ArrayItem.proper_cases h with hnull | ⟨n, w, rfl, -⟩ | ⟨s, rfl, -⟩
  · obtain ⟨state, value⟩ := item
    obtain rfl : state = nullValue := hnull
    rw [record_null, text_null]
    rfl
  · rw [record_word, text_word]
    rfl
  · rw [record_text, text_text]
    rfl

/-- The strings of an array in the buffer are its texts. -/
theorem NativeArray.records_eq {a : NativeArray} (h : a.proper = true) :
    a.records = a.texts.map (· ++ [0]) := by
  obtain ⟨-, hitems⟩ := Bool.and_eq_true_iff.mp h
  have hitems := List.all_eq_true.mp hitems
  unfold NativeArray.records NativeArray.texts
  generalize a.data = items at hitems
  induction items with
  | nil => rfl
  | cons item items ih =>
    have hrecord := ArrayItem.record_eq (hitems item (by simp))
    have hrest := ih fun i hi => hitems i (List.mem_cons_of_mem _ hi)
    cases htext : item.text with
    | none =>
      rw [htext] at hrecord
      rw [List.filterMap_cons_none hrecord, List.filterMap_cons_none htext, hrest]
    | some s =>
      rw [htext] at hrecord
      rw [List.filterMap_cons_some hrecord, List.filterMap_cons_some htext, hrest]
      rfl

theorem NativeArray.texts_proper {a : NativeArray} (h : a.proper = true) :
    ∀ s ∈ a.texts, 0 ∉ s := by
  obtain ⟨-, hitems⟩ := Bool.and_eq_true_iff.mp h
  intro s hs
  obtain ⟨item, hmem, htext⟩ := List.mem_filterMap.mp hs
  rcases ArrayItem.proper_cases (List.all_eq_true.mp hitems item hmem) with
    hnull | ⟨n, w, rfl, -⟩ | ⟨t, rfl, -, ht⟩
  · obtain ⟨state, value⟩ := item
    obtain rfl : state = nullValue := hnull
    rw [text_null] at htext
    exact absurd htext (by simp)
  · rw [text_word] at htext
    exact absurd htext (by simp)
  · rw [text_text] at htext
    rw [← Option.some.inj htext]
    exact ht

theorem ArrayItem.shaped_of_proper {a : NativeArray} (h : a.proper = true) :
    ∀ item ∈ a.data, item.shaped a.type = true := by
  obtain ⟨htype, hitems⟩ := Bool.and_eq_true_iff.mp h
  exact fun item hitem => ArrayItem.proper_shaped (by simpa using htype)
    (List.all_eq_true.mp hitems item hitem)

/-- There are no paths in it. -/
theorem NativeArray.prints_of_proper {a : NativeArray} (h : a.proper = true) : a.prints = true := by
  obtain ⟨htype, -⟩ := Bool.and_eq_true_iff.mp h
  refine List.all_eq_true.mpr fun item _ => prints_of_ne_ref (fun href => ?_) item
  rw [href] at htype
  exact Bool.noConfusion htype

/-- The strings of a new array are behind the others; the arrays are the old ones and this
one. -/
theorem Owned.Of.withArray (h : g.Of hdr) {a : NativeArray} (ha : a.proper = true)
    {hdr' : ObjectHdr} {arrs : List (Nat × NativeArray × Nat)}
    (hcontents : Contents hdr' (g.strRecords ++ a.records)
      (Owned.mk g.strs arrs).arrRecords)
    (harrs : ∀ x ∈ arrs, x ∈ g.arrs ∨ ∃ i, x = (i, a, g.strs.length)) :
    (Owned.mk (g.strs ++ a.texts.map (Owner.fixed, ·)) arrs).Of hdr' := by
  refine ⟨?_, ?_, ?_, ?_⟩
  · rw [NativeArray.records_eq ha] at hcontents
    unfold Owned.strRecords at hcontents ⊢
    rw [List.map_append, List.map_map]
    exact hcontents
  · intro x hx
    rcases List.mem_append.mp hx with hx | hx
    · exact h.texts x hx
    · obtain ⟨s, hs, rfl⟩ := List.mem_map.mp hx
      exact NativeArray.texts_proper ha s hs
  · intro x hx
    rcases harrs x hx with hx | ⟨i, rfl⟩
    · exact elems_append (h.elems x hx) _
    · exact prefix_drop_left g.strs _
  · intro x hx
    rcases harrs x hx with hx | ⟨i, rfl⟩
    · exact h.proper x hx
    · exact ha

/-- An array is added for a property. -/
theorem Owned.Of.addClArray_owned (h : g.Of hdr) {a : NativeArray} (ha : a.proper = true)
    (i : Nat) (hstrs : RoomFor hdr.strBuf a.records)
    (harrs : RoomFor hdr.arrayBuf [a.arrayRecord 0]) :
    ∃ b b', addClArray hdr a = some ({ hdr with strBuf := b, arrayBuf := some b' }, g.arrs.length + 1) ∧
      (Owned.mk (g.strs ++ a.texts.map (Owner.fixed, ·)) (g.arrs ++ [(i, a, g.strs.length)])).Of
        { hdr with strBuf := b, arrayBuf := some b' } := by
  obtain ⟨b, b', hadd, hcontents⟩ := addClArray_contents h.contents (ArrayItem.shaped_of_proper ha)
    (NativeArray.prints_of_proper ha) hstrs (harrs.congr (by simp [NativeArray.arrayRecord, length_cellsOf]))
  rw [Owned.length_arrRecords] at hadd
  rw [Owned.length_strRecords] at hcontents
  refine ⟨b, b', hadd, h.withArray ha ?_ fun x hx => ?_⟩
  · unfold Owned.arrRecords
    rw [List.map_append]
    exact hcontents
  · rcases List.mem_append.mp hx with hx | hx
    · exact Or.inl hx
    · exact Or.inr ⟨i, List.mem_singleton.mp hx⟩

/-- The array of a property is replaced. -/
theorem Owned.Of.replaceClArray_owned (h : g.Of hdr) {a a₀ : NativeArray} (ha : a.proper = true)
    {k n₀ : Nat} (hk : g.arrs[k]? = some (i, a₀, n₀)) (hstrs : RoomFor hdr.strBuf a.records)
    (harrs : RoomFor hdr.arrayBuf [a.arrayRecord 0]) :
    ∃ b b', replaceClArray hdr (k + 1) a = some { hdr with strBuf := b, arrayBuf := some b' } ∧
      (Owned.mk (g.strs ++ a.texts.map (Owner.fixed, ·)) (g.arrs.set k (i, a, g.strs.length))).Of
        { hdr with strBuf := b, arrayBuf := some b' } := by
  obtain ⟨hlt, -⟩ := List.getElem?_eq_some_iff.mp hk
  obtain ⟨b, b', hreplace, hcontents⟩ := replaceClArray_contents h.contents
    (ArrayItem.shaped_of_proper ha) (NativeArray.prints_of_proper ha) (Nat.succ_pos k)
    (by rw [Owned.length_arrRecords]; exact hlt) hstrs
    (harrs.congr (by simp [NativeArray.arrayRecord, length_cellsOf]))
  rw [Owned.length_strRecords, Owned.cut_arrRecords, Nat.succ_sub_one] at hcontents
  refine ⟨b, b', hreplace, h.withArray ha ?_ fun x hx => ?_⟩
  · unfold Owned.arrRecords at hcontents ⊢
    rw [List.map_set]
    exact hcontents
  · rcases List.mem_or_eq_of_mem_set hx with hx | hx
    · exact Or.inl hx
    · exact Or.inr ⟨i, hx⟩

end Writing

/-! ## Storing what was set -/

section Storing

variable {g : Owned} {hdr : ObjectHdr} {i : Nat} {c : SetCall}

theorem dataOk_null (h : c.isNull = true) : DataOk g i ⟨c.storedType, nullValue, .num 0⟩ c := by
  have hvalue : ∀ {v : Value}, v ≠ .nullPtr → c.value ≠ some v := by
    intro v hne hv
    exact absurd (h.symm.trans (SetCall.not_isNull hv hne)) (by simp)
  refine ⟨rfl, by rw [h]; rfl, fun _ => rfl, fun hv => ?_, fun hv => ?_, fun hv => ?_⟩
  · exact absurd hv (hvalue (by simp))
  · exact absurd hv (hvalue (by simp))
  · exact absurd hv (hvalue (by simp))

theorem dataOk_word {n : Nat} (hvalue : c.value = some (.word n)) :
    DataOk g i ⟨c.storedType, 0, .num n⟩ c := by
  have hnull := SetCall.not_isNull hvalue (by simp)
  refine ⟨rfl, by rw [hnull]; rfl, fun h => ?_, fun hv => ?_, fun hv => ?_, fun hv => ?_⟩
  · exact absurd (hnull.symm.trans h) (by simp)
  · cases hvalue.symm.trans hv
    rfl
  · cases hvalue.symm.trans hv
  · cases hvalue.symm.trans hv

theorem dataOk_text {s : CStr} (hvalue : c.value = some (.text s)) {k : Nat}
    (hk : g.strs[k]? = some (.property i, s)) :
    DataOk g i ⟨c.storedType, 0, .num (k + 1)⟩ c := by
  have hnull := SetCall.not_isNull hvalue (by simp)
  refine ⟨rfl, by rw [hnull]; rfl, fun h => ?_, fun hv => ?_, fun hv => ?_, fun hv => ?_⟩
  · exact absurd (hnull.symm.trans h) (by simp)
  · cases hvalue.symm.trans hv
  · cases hvalue.symm.trans hv
    exact ⟨k, rfl, hk⟩
  · cases hvalue.symm.trans hv

theorem dataOk_array {a : NativeArray} (hvalue : c.value = some (.array a)) {k n : Nat}
    (hk : g.arrs[k]? = some (i, a, n)) : DataOk g i ⟨c.storedType, 0, .num (k + 1)⟩ c := by
  have hnull := SetCall.not_isNull hvalue (by simp)
  refine ⟨rfl, by rw [hnull]; rfl, fun h => ?_, fun hv => ?_, fun hv => ?_, fun hv => ?_⟩
  · exact absurd (hnull.symm.trans h) (by simp)
  · cases hvalue.symm.trans hv
  · cases hvalue.symm.trans hv
  · cases hvalue.symm.trans hv
    exact ⟨k, n, rfl, hk⟩

/-- The text of the property may be replaced, -/
theorem Keeps.setText {k : Nat} {t : CStr} (hk : g.strs[k]? = some (.property i, t)) (s : CStr) :
    Keeps i g ⟨g.strs.set k (.property i, s), g.arrs⟩ := by
  refine ⟨fun {j o u} hj ho => ?_, fun h _ => h⟩
  have hne : k ≠ j := by
    rintro rfl
    rw [hk] at hj
    exact ho (Prod.mk.inj (Option.some.inj hj)).1.symm
  show (g.strs.set k _)[j]? = _
  rw [List.getElem?_set_ne hne]
  exact hj

/-- and its array. -/
theorem Keeps.setArray {k n : Nat} {a : NativeArray} (hk : g.arrs[k]? = some (i, a, n))
    (x : NativeArray × Nat) : Keeps i g ⟨g.strs, g.arrs.set k (i, x)⟩ := by
  refine ⟨fun h _ => h, fun {j l b m} hj hl => ?_⟩
  have hne : k ≠ j := by
    rintro rfl
    rw [hk] at hj
    exact hl (Prod.mk.inj (Option.some.inj hj)).1.symm
  show (g.arrs.set k _)[j]? = _
  rw [List.getElem?_set_ne hne]
  exact hj

/-- A value was stored for property `i`; the others have what they had. -/
structure StoresFor (i : Nat) (g : Owned) (c : SetCall) (hdr' : ObjectHdr) (data : Stored)
    (g' : Owned) : Prop where
  of : g'.Of hdr'
  keeps : Keeps i g g'
  data : DataOk g' i data c

/-- A text that is added. -/
theorem Owned.Of.text_stores (h : g.Of hdr) (i : Nat) {s : CStr}
    (hvalue : c.value = some (.text s)) (hs : 0 ∉ s) (hroom : RoomFor hdr.strBuf [s ++ [0]]) :
    ∃ hdr' id g', addClString hdr s = some (hdr', id) ∧
      StoresFor i g c hdr' ⟨c.storedType, 0, .num id⟩ g' := by
  obtain ⟨b, hadd, hof, -⟩ := h.addClString_owned hs (.property i) hroom
  refine ⟨_, _, _, hadd, hof, ?_, dataOk_text hvalue ?_⟩
  · have := Keeps.append i g [(.property i, s)] []
    rwa [List.append_nil] at this
  · exact List.getElem?_concat_length

/-- An array that is added. -/
theorem Owned.Of.array_stores (h : g.Of hdr) (i : Nat) {a : NativeArray}
    (hvalue : c.value = some (.array a)) (ha : a.proper = true)
    (hstrs : RoomFor hdr.strBuf a.records) (harrs : RoomFor hdr.arrayBuf [a.arrayRecord 0]) :
    ∃ hdr' id g', addClArray hdr a = some (hdr', id) ∧
      StoresFor i g c hdr' ⟨c.storedType, 0, .num id⟩ g' := by
  obtain ⟨b, b', hadd, hof⟩ := h.addClArray_owned ha i hstrs harrs
  exact ⟨_, _, _, hadd, hof, Keeps.append .., dataOk_array hvalue List.getElem?_concat_length⟩

theorem storedType_simple {base : CMPIBase} {w : Nat} (htype : c.type = base.simple)
    (hbits : base.bits = some w) : c.storedType = base.simple := by
  unfold SetCall.storedType
  rw [htype, if_neg (simple_ne_of_bits hbits rfl)]

theorem storedType_array {base : CMPIBase} (htype : c.type = base.arrayOf) :
    c.storedType = base.arrayOf := by
  unfold SetCall.storedType
  rw [htype, if_neg (fun heq => Bool.noConfusion (CMPIType.mk.inj heq).2)]

theorem bits_not_text {base : CMPIBase} {w : Nat} (hbits : base.bits = some w) :
    base.isText = false ∧ base ≠ .inst := by
  cases base <;> first | exact ⟨rfl, by decide⟩ | exact absurd hbits (by simp [CMPIBase.bits])

/-- A new property. -/
theorem Owned.Of.storeNew_stores (h : g.Of hdr) (i : Nat) (hproper : c.proper = true)
    (hstrs : RoomFor hdr.strBuf (setData c.value c.type).records)
    (harrs : RoomFor hdr.arrayBuf (setData c.value c.type).arrayRecords) :
    ∃ hdr' data g', storeNew hdr (setData c.value c.type) = some (hdr', data) ∧
      StoresFor i g c hdr' data g' := by
  cases SetCall.proper_kind hproper with
  | null hnull hptr =>
    rw [SetCall.setData_null hnull hptr]
    exact ⟨hdr, _, g, storeNew_null isNull_nullValue, h, Keeps.refl i g, dataOk_null hnull⟩
  | word base n w htype hvalue hbits hlt =>
    obtain ⟨htext, hinst⟩ := bits_not_text hbits
    rw [hvalue, htype, setData_word hbits hlt, storeNew_word htext hinst]
    have hdata := dataOk_word (g := g) (i := i) hvalue
    rw [storedType_simple htype hbits] at hdata
    exact ⟨hdr, _, g, rfl, h, Keeps.refl i g, hdata⟩
  | text s htype hvalue hs =>
    rw [SetCall.setData_text htype hvalue] at hstrs ⊢
    unfold CMPIData.records at hstrs
    rw [if_neg not_isNull_zero] at hstrs
    obtain ⟨hdr', id, g', hadd, hstores⟩ := h.text_stores i hvalue hs hstrs
    rw [htype] at hstores
    exact ⟨hdr', _, g', by rw [storeNew_text (by decide) rfl rfl, hadd]; rfl, hstores⟩
  | array base a htype hvalue ha =>
    rw [hvalue, htype, setData_array] at hstrs harrs ⊢
    unfold CMPIData.records at hstrs
    unfold CMPIData.arrayRecords at harrs
    rw [if_neg not_isNull_zero] at hstrs harrs
    obtain ⟨hdr', id, g', hadd, hstores⟩ := h.array_stores i hvalue ha hstrs harrs
    rw [storedType_array htype] at hstores
    exact ⟨hdr', _, g', by rw [storeNew_array (by decide), hadd]; rfl, hstores⟩

/-- A property that is stored as a text has one of its own, or none. -/
theorem DataOk.text_ref {data : Stored} (h : DataOk g i data c) (hproper : c.proper = true)
    (htype : data.type = CMPIBase.chars.simple) :
    data.value = .num 0 ∨
      ∃ k t, data.value = .num (k + 1) ∧ g.strs[k]? = some (.property i, t) := by
  have hstored := h.type.symm.trans htype
  cases SetCall.proper_kind hproper with
  | null hnull _ => exact Or.inl (h.null hnull)
  | word base n w htype hvalue hbits hlt =>
    rw [storedType_simple htype hbits] at hstored
    exact absurd hstored (simple_ne_of_bits hbits rfl)
  | text s htype hvalue hs =>
    obtain ⟨k, hnum, hk⟩ := h.text hvalue
    exact Or.inr ⟨k, s, hnum, hk⟩
  | array base a htype hvalue ha =>
    rw [storedType_array htype] at hstored
    exact Bool.noConfusion (CMPIType.mk.inj hstored).2

/-- A property that is stored as an array has one of its own, or none. -/
theorem DataOk.array_ref {data : Stored} (h : DataOk g i data c) (hproper : c.proper = true)
    (htype : data.type.array = true) :
    data.value = .num 0 ∨
      ∃ k a n, data.value = .num (k + 1) ∧ g.arrs[k]? = some (i, a, n) := by
  have hstored := h.type
  cases SetCall.proper_kind hproper with
  | null hnull _ => exact Or.inl (h.null hnull)
  | word base n w hbase hvalue hbits hlt =>
    rw [hstored, storedType_simple hbase hbits] at htype
    exact Bool.noConfusion htype
  | text s hchars hvalue hs =>
    rw [hstored, hchars] at htype
    exact Bool.noConfusion htype
  | array base a hbase hvalue ha =>
    obtain ⟨k, n, hnum, hk⟩ := h.array hvalue
    exact Or.inr ⟨k, a, n, hnum, hk⟩

/-- What the storage of a property says about the value it fits. -/
theorem fits_cases {data : Stored} {old : SetCall} (hold : DataOk g i data old)
    (holdProper : old.proper = true) (hproper : c.proper = true)
    (hfits : data.type.array = c.type.array ∧
      (data.type = CMPIBase.chars.simple ↔ c.storedType = CMPIBase.chars.simple)) :
    (data.type.array = true ∧ c.storedType.array = true) ∨
    (data.type = CMPIBase.chars.simple ∧ c.storedType = CMPIBase.chars.simple) ∨
    (∃ base w, data.type = CMPIBase.simple base ∧ base.bits = some w) := by
  obtain ⟨harray, hchars⟩ := hfits
  rcases SetCall.type_cases holdProper with ⟨harray', hold'⟩ | ⟨hchars', -⟩ |
    ⟨base, w, hbase, hbits, hold'⟩
  · have hdata : data.type.array = true := by rw [hold.type, hold']; exact harray'
    rcases SetCall.type_cases hproper with ⟨hc, hc'⟩ | ⟨hc, -⟩ | ⟨base, w, hc, -⟩
    · exact Or.inl ⟨hdata, by rw [hc']; exact hc⟩
    · exact Or.inr (Or.inl ⟨hchars.mpr hc, hc⟩)
    · rw [hdata, hc] at harray
      exact Bool.noConfusion harray
  · have hdata := hold.type.trans hchars'
    exact Or.inr (Or.inl ⟨hdata, hchars.mp hdata⟩)
  · exact Or.inr (Or.inr ⟨base, w, hold.type.trans (hold'.trans hbase), hbits⟩)

/-- A value that fits is not refused. -/
theorem fits_refuses {p : ClProperty} {old : SetCall} (hold : DataOk g i p.data old)
    (holdProper : old.proper = true) (hquals : p.quals = 0) (hproper : c.proper = true)
    (hfits : c.fits (some p) = true) (hdr : ObjectHdr) :
    p.refuses hdr (setData c.value c.type) = false := by
  have hfits : c.isNull = true ∨ p.data.type.array = c.type.array ∧
      (p.data.type = CMPIBase.chars.simple ↔ c.storedType = CMPIBase.chars.simple) := by
    simpa [SetCall.fits] using hfits
  unfold ClProperty.refuses
  rcases hfits with hnull | hfits
  · have hdata : Object.isNull (setData c.value c.type).state = true := by
      cases SetCall.proper_kind hproper with
      | null hnull hptr =>
        rw [SetCall.setData_null hnull hptr]
        exact isNull_nullValue
      | word base n w htype hvalue hbits hlt =>
        exact absurd (hnull.symm.trans (SetCall.not_isNull hvalue (by simp))) (by simp)
      | text s htype hvalue hs =>
        exact absurd (hnull.symm.trans (SetCall.not_isNull hvalue (by simp))) (by simp)
      | array base a htype hvalue ha =>
        exact absurd (hnull.symm.trans (SetCall.not_isNull hvalue (by simp))) (by simp)
    rw [hdata]
    rfl
  · simp only [setData_type]
    -- stored and given are both arrays, both texts or both numbers
    rcases fits_cases hold holdProper hproper hfits with ⟨hdata, hc⟩ | ⟨hdata, hc⟩ |
      ⟨base, w, hdata, hbits⟩
    · have hne : ∀ base : CMPIBase, p.data.type ≠ base.simple := by
        intro base heq
        rw [heq] at hdata
        exact Bool.noConfusion hdata
      rw [if_neg (hne .chars), if_neg (hne .dateTime), if_neg (hne .ref), if_pos hdata, hc]
      simp
    · rw [if_pos hdata, hc, hquals]
      simp
    · have hne : ∀ other : CMPIBase, other.bits = none → p.data.type ≠ other.simple := by
        rw [hdata]
        exact fun _ => simple_ne_of_bits hbits
      rw [if_neg (hne .chars rfl), if_neg (hne .dateTime rfl), if_neg (hne .ref rfl),
        if_neg (by rw [hdata]; simp [CMPIBase.simple]), if_neg (fun h => hne .inst rfl h.2)]
      simp

/-- A property that is there, and was set by `old`. -/
theorem Owned.Of.storeReplace_stores (h : g.Of hdr) {p : ClProperty} {old : SetCall}
    (hold : DataOk g i p.data old) (holdProper : old.proper = true) (hquals : p.quals = 0)
    (hproper : c.proper = true) (hfits : c.fits (some p) = true)
    (hstrs : RoomFor hdr.strBuf (setData c.value c.type).records)
    (harrs : RoomFor hdr.arrayBuf (setData c.value c.type).arrayRecords) :
    ∃ hdr' data g', storeReplace hdr p (setData c.value c.type) = some (.stored hdr' data) ∧
      StoresFor i g c hdr' data g' := by
  have hfits : c.isNull = true ∨ p.data.type.array = c.type.array ∧
      (p.data.type = CMPIBase.chars.simple ↔ c.storedType = CMPIBase.chars.simple) := by
    simpa [SetCall.fits] using hfits
  cases SetCall.proper_kind hproper with
  | null hnull hptr =>
    rw [SetCall.setData_null hnull hptr]
    exact ⟨hdr, _, g, storeReplace_null isNull_nullValue, h, Keeps.refl i g, dataOk_null hnull⟩
  | word base n w htype hvalue hbits hlt =>
    have hfits := hfits.resolve_left (by rw [SetCall.not_isNull hvalue (by simp)]; simp)
    have hstored := storedType_simple htype hbits
    -- the property is a number as well
    obtain ⟨base', w', hbase', hbits'⟩ : ∃ base' w', p.data.type = CMPIBase.simple base' ∧
        base'.bits = some w' := by
      rcases fits_cases hold holdProper hproper hfits with ⟨-, hc⟩ | ⟨-, hc⟩ | hnumber
      · rw [hstored] at hc
        exact Bool.noConfusion hc
      · rw [hstored] at hc
        exact absurd hc (simple_ne_of_bits hbits rfl)
      · exact hnumber
    obtain ⟨htext, hinst⟩ := bits_not_text hbits'
    have hdata := dataOk_word (g := g) (i := i) hvalue
    rw [hstored] at hdata
    rw [hvalue, htype, setData_word hbits hlt,
      storeReplace_word (by rw [hbase']; rfl) (by rw [hbase']; exact htext)
        (by rw [hbase']; exact hinst)]
    exact ⟨hdr, _, g, rfl, h, Keeps.refl i g, hdata⟩
  | text s htype hvalue hs =>
    obtain ⟨-, hchars⟩ := hfits.resolve_left (by rw [SetCall.not_isNull hvalue (by simp)]; simp)
    have hod := hchars.mpr htype
    rw [SetCall.setData_text htype hvalue] at hstrs ⊢
    unfold CMPIData.records at hstrs
    rw [if_neg not_isNull_zero] at hstrs
    rw [storeReplace_text (by decide) rfl (by decide) hod (fun _ => hquals)]
    rcases hold.text_ref holdProper hod with hzero | ⟨k, t, hnum, hk⟩
    · obtain ⟨hdr', id, g', hadd, hstores⟩ := h.text_stores i hvalue hs hstrs
      rw [htype] at hstores
      exact ⟨hdr', _, g', by rw [replaceText_add hzero rfl, hadd]; rfl, hstores⟩
    · obtain ⟨b, hreplace, hof⟩ := h.replaceClString_owned hs hk hstrs
      obtain ⟨hlt, -⟩ := List.getElem?_eq_some_iff.mp hk
      have hdata := dataOk_text (g := ⟨g.strs.set k (.property i, s), g.arrs⟩) (i := i) hvalue
        (List.getElem?_set_self hlt)
      rw [htype] at hdata
      exact ⟨_, _, _, by rw [replaceText_replace hnum (Nat.succ_ne_zero k) rfl, hreplace]; rfl, hof,
        Keeps.setText hk s, hdata⟩
  | array base a htype hvalue ha =>
    obtain ⟨harray, -⟩ := hfits.resolve_left (by rw [SetCall.not_isNull hvalue (by simp)]; simp)
    rw [htype] at harray
    rw [hvalue, htype, setData_array] at hstrs harrs ⊢
    unfold CMPIData.records at hstrs
    unfold CMPIData.arrayRecords at harrs
    rw [if_neg not_isNull_zero] at hstrs harrs
    rcases hold.array_ref holdProper harray with hzero | ⟨k, a₀, n₀, hnum, hk⟩
    · obtain ⟨hdr', id, g', hadd, hstores⟩ := h.array_stores i hvalue ha hstrs harrs
      rw [storedType_array htype] at hstores
      exact ⟨hdr', _, g', by rw [storeReplace_array_add (by decide) harray hzero, hadd]; rfl,
        hstores⟩
    · obtain ⟨b, b', hreplace, hof⟩ := h.replaceClArray_owned ha hk hstrs harrs
      obtain ⟨hlt, -⟩ := List.getElem?_eq_some_iff.mp hk
      have hdata := dataOk_array (g := ⟨g.strs ++ a.texts.map (Owner.fixed, ·),
        g.arrs.set k (i, a, g.strs.length)⟩) (i := i) hvalue (List.getElem?_set_self hlt)
      rw [storedType_array htype] at hdata
      have happend := Keeps.append i ⟨g.strs, g.arrs.set k (i, a, g.strs.length)⟩
        (a.texts.map (Owner.fixed, ·)) []
      rw [List.append_nil] at happend
      exact ⟨_, _, _, by
        rw [storeReplace_array_replace (by decide) harray hnum (Nat.succ_ne_zero k), hreplace]
        rfl, hof, (Keeps.setArray hk _).trans happend, hdata⟩

end Storing

end Sfcb.Object
