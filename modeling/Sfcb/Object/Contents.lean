import Sfcb.Object.ObjectImpl

/-!
# What the buffers of an object contain

`Contents hdr strs arrs` is the meaning of the two buffers: the strings and the arrays, in
the order of their ids. Every operation on the buffers has one lemma here that says what
it does to the contents; all invariants of objects are kept by these lemmas alone.
-/

namespace Sfcb.Object

open Sfcb.Lib Sfcb.Lib.IndexedBuf

/-! ## Records that end where they say -/

theorem strLength_le {x : List UInt8} (h : 0 ∈ x) : strLength x ≤ x.length := by
  unfold strLength
  induction x with
  | nil => exact absurd h (by simp)
  | cons c x ih =>
    by_cases hc : c = 0
    · simp [hc]
    · have h' : 0 ∈ x := by
        rcases List.mem_cons.mp h with h | h
        · exact absurd h.symm hc
        · exact h
      have := ih h'
      rw [List.takeWhile_cons, if_pos (by simpa using hc), List.length_cons, List.length_cons]
      omega

theorem strLength_append {x : List UInt8} (h : 0 ∈ x) (rest : List UInt8) :
    strLength (x ++ rest) = strLength x := by
  unfold strLength
  induction x with
  | nil => exact absurd h (by simp)
  | cons c x ih =>
    by_cases hc : c = 0
    · simp [hc]
    · have h' : 0 ∈ x := by
        rcases List.mem_cons.mp h with h | h
        · exact absurd h.symm hc
        · exact h
      have := ih h'
      rw [List.cons_append, List.takeWhile_cons, List.takeWhile_cons,
        if_pos (by simpa using hc), if_pos (by simpa using hc), List.length_cons,
        List.length_cons]
      omega

/-- Bytes with a zero end there. -/
theorem delimited_of_mem {x : List UInt8} (h : 0 ∈ x) : Delimited strLength x :=
  ⟨strLength_le h, strLength_append h⟩

theorem delimited_text (s : CStr) : Delimited strLength (s ++ [0]) :=
  delimited_of_mem (by simp)

/-- Bytes that end have a zero. -/
theorem mem_of_strLength_le {x : List UInt8} (h : strLength x ≤ x.length) : 0 ∈ x := by
  unfold strLength at h
  induction x with
  | nil => exact absurd h (by simp)
  | cons c x ih =>
    by_cases hc : c = 0
    · simp [hc]
    · rw [List.takeWhile_cons, if_pos (by simpa using hc), List.length_cons,
        List.length_cons] at h
      exact List.mem_cons_of_mem _ (ih (by omega))

/-- A text up to its end. -/
theorem cut_text {s : CStr} (h : 0 ∉ s) : cut strLength (s ++ [0]) = s ++ [0] := by
  have hwhile : (s ++ [0]).takeWhile (· ≠ 0) = s := by
    rw [List.takeWhile_append_of_pos (by
      intro c hc
      simpa using ne_of_mem_of_not_mem hc h)]
    simp
  unfold cut strLength
  rw [hwhile, List.take_of_length_le (by simp)]

theorem cut_delimited_str {x : List UInt8} (h : Delimited strLength x) :
    Delimited strLength (cut strLength x) := by
  have hmem := mem_of_strLength_le h.le
  refine delimited_of_mem ?_
  unfold cut strLength
  clear h
  induction x with
  | nil => exact absurd hmem (by simp)
  | cons c x ih =>
    by_cases hc : c = 0
    · simp [hc]
    · have h' : 0 ∈ x := by
        rcases List.mem_cons.mp hmem with h | h
        · exact absurd h.symm hc
        · exact h
      rw [List.takeWhile_cons, if_pos (by simpa using hc), List.length_cons,
        List.take_succ_cons]
      exact List.mem_cons_of_mem _ (ih h')

/-- The record of an array: the head has the number of the cells. -/
theorem arrayLength_head (a : NativeArray) (cells : List Stored) :
    arrayLength (arrayHead a :: cells) = a.data.length + 1 := rfl

theorem delimited_array {a : NativeArray} {cells : List Stored}
    (h : cells.length = a.data.length) : Delimited arrayLength (arrayHead a :: cells) :=
  ⟨Nat.le_of_eq (by rw [arrayLength_head, List.length_cons, h]), fun _ => rfl⟩

theorem cut_array {a : NativeArray} {cells : List Stored} (h : cells.length = a.data.length) :
    cut arrayLength (arrayHead a :: cells) = arrayHead a :: cells := by
  unfold cut
  rw [arrayLength_head, List.take_of_length_le (Nat.le_of_eq (by rw [List.length_cons, h]))]

theorem cut_delimited_array {x : List Stored} (h : Delimited arrayLength x) :
    Delimited arrayLength (cut arrayLength x) := by
  cases x with
  | nil => exact absurd h.le (by show ¬ 1 ≤ 0; omega)
  | cons head cells =>
    have hpos : ∃ n, arrayLength (head :: cells) = n + 1 := by
      unfold arrayLength
      split
      · exact ⟨_, rfl⟩
      · exact ⟨0, rfl⟩
    obtain ⟨n, hn⟩ := hpos
    -- the head alone decides the length
    have hhead : ∀ rest : List Stored, arrayLength (head :: rest) = n + 1 := by
      intro rest
      rw [← hn]
      unfold arrayLength
      obtain ⟨_, _, _ | _⟩ := head <;> rfl
    have hle := h.le
    unfold cut
    rw [hn] at hle ⊢
    rw [List.take_succ_cons]
    rw [List.length_cons] at hle
    refine ⟨?_, fun rest => ?_⟩
    · rw [hhead, List.length_cons, List.length_take]
      omega
    · rw [List.cons_append, hhead, hhead]

/-! ## Contents -/

/-- The strings and the arrays of an object. -/
structure Contents (hdr : ObjectHdr) (strs : List (List UInt8)) (arrs : List (List Stored)) :
    Prop where
  strings : Contains strLength hdr.strBuf strs
  arrays : Contains arrayLength hdr.arrayBuf arrs

/-- A new object has none. -/
theorem contents_new (type : HdrType) : Contents (.new type) [] [] := ⟨rfl, rfl⟩

/-- The id of a string leads to it. -/
theorem Contents.getClObject_eq {hdr : ObjectHdr} {strs : List (List UInt8)}
    {arrs : List (List Stored)} (h : Contents hdr strs arrs) {i : Nat} {x : List UInt8}
    (hi : strs[i]? = some x) :
    ∃ bytes, getClObject hdr (i + 1) = some bytes ∧ x <+: bytes :=
  h.strings.entry_eq hi

/-- The id of an array leads to it. -/
theorem Contents.getClArray_eq {hdr : ObjectHdr} {strs : List (List UInt8)}
    {arrs : List (List Stored)} (h : Contents hdr strs arrs) {i : Nat} {x : List Stored}
    (hi : arrs[i]? = some x) :
    ∃ cells, getClArray hdr (i + 1) = some cells ∧ x <+: cells :=
  h.arrays.entry_eq hi

section Operations

variable {hdr : ObjectHdr} {strs : List (List UInt8)} {arrs : List (List Stored)}

/-- A string is put behind the others. -/
theorem addClStringN_contents (h : Contents hdr strs arrs) {bytes : List UInt8}
    (hdel : Delimited strLength bytes) {rest : List (List UInt8)}
    (hroom : RoomFor hdr.strBuf (bytes :: rest)) :
    ∃ b, addClStringN hdr bytes = some ({ hdr with strBuf := some b }, strs.length + 1) ∧
      Contents { hdr with strBuf := some b } (strs ++ [bytes]) arrs ∧
      RoomFor (some b) rest := by
  obtain ⟨b, hadd, hcontains, hrest⟩ := add_contains (k := 8) (by omega) h.strings hdel hroom
  refine ⟨b, ?_, ⟨hcontains, h.arrays⟩, hrest⟩
  unfold addClStringN
  rw [show (256 : Nat) = 2 ^ 8 from rfl, hadd]
  rfl

theorem addClString_contents (h : Contents hdr strs arrs) {s : CStr}
    {rest : List (List UInt8)} (hroom : RoomFor hdr.strBuf ((s ++ [0]) :: rest)) :
    ∃ b, addClString hdr s = some ({ hdr with strBuf := some b }, strs.length + 1) ∧
      Contents { hdr with strBuf := some b } (strs ++ [s ++ [0]]) arrs ∧
      RoomFor (some b) rest :=
  addClStringN_contents h (delimited_text s) hroom

/-- A string that may be missing. -/
theorem addClStringOrNone_contents (h : Contents hdr strs arrs) {s : Option CStr}
    {rest : List (List UInt8)}
    (hroom : RoomFor hdr.strBuf (s.toList.map (· ++ [0]) ++ rest)) :
    ∃ b id, addClStringOrNone hdr s = some ({ hdr with strBuf := b }, id) ∧
      Contents { hdr with strBuf := b } (strs ++ s.toList.map (· ++ [0])) arrs ∧
      RoomFor b rest := by
  cases s with
  | none => exact ⟨hdr.strBuf, 0, rfl, by simpa using h, hroom⟩
  | some s =>
    obtain ⟨b, hadd, hcontents, hrest⟩ := addClString_contents h hroom
    exact ⟨some b, _, hadd, hcontents, hrest⟩

/-- A string that was added is there. -/
theorem addClStringOrNone_made (h : Contents hdr strs arrs) {s : Option CStr}
    {hdr' : ObjectHdr} {id : Nat} (hadd : addClStringOrNone hdr s = some (hdr', id)) :
    ∃ strs', Contents hdr' strs' arrs := by
  have hroom : RoomFor hdr.strBuf (s.toList.map (· ++ [0]) ++ []) := by
    cases s with
    | none => exact fun h => absurd rfl h
    | some s =>
      unfold addClStringOrNone addClString addClStringN at hadd
      obtain ⟨r, hr, -⟩ := Option.map_eq_some_iff.mp hadd
      exact add_room (k := 8) h.strings hr
  obtain ⟨b, id', hadd', hcontents, -⟩ := addClStringOrNone_contents h hroom
  obtain ⟨rfl, -⟩ := Prod.mk.inj (Option.some.inj (hadd.symm.trans hadd'))
  exact ⟨_, hcontents⟩

/-- A string takes the place of another one. -/
theorem replaceClStringN_contents (h : Contents hdr strs arrs) {bytes : List UInt8}
    (hdel : Delimited strLength bytes) {id : Nat} (hpos : 0 < id) (hle : id ≤ strs.length)
    (hroom : RoomFor hdr.strBuf [bytes]) :
    ∃ b, replaceClStringN hdr id bytes = some { hdr with strBuf := some b } ∧
      Contents { hdr with strBuf := some b }
        ((strs.map (cut strLength)).set (id - 1) bytes) arrs := by
  have hstrings := h.strings
  unfold replaceClStringN
  cases hbuf : hdr.strBuf with
  | none =>
    rw [hbuf] at hstrings
    rw [show strs = [] from hstrings, List.length_nil] at hle
    omega
  | some b =>
    rw [hbuf] at hstrings hroom
    obtain ⟨b', hreplace, hcontains⟩ := replace_contains (fun _ => cut_delimited_str) hstrings
      hdel hpos hle hroom
    refine ⟨b', ?_, ⟨hcontains, h.arrays⟩⟩
    simp only [hreplace, Option.map_some]

end Operations

/-! ## Arrays -/

/-- The types whose values are stored as the text they print. -/
def CMPIBase.isText : CMPIBase → Bool
  | .chars | .string | .dateTime | .ref => true
  | _ => false

/-- An element that is not null has what the type of its array says. -/
def ArrayItem.shaped (type : CMPIBase) (item : ArrayItem) : Bool :=
  isNull item.state ||
    match item.value with
    | .text _ => type.isText
    | .blob bytes => type = .inst && decide (0 ∈ bytes)
    | .word _ => !type.isText && type ≠ .inst

/-- An element that is a path prints it in fewer than 4096 characters. -/
def ArrayItem.prints (type : CMPIBase) (item : ArrayItem) : Bool :=
  isNull item.state ||
    match item.value with
    | .text s => type.prints s
    | _ => true

/-- Each path of the array prints in fewer than 4096 characters. -/
def NativeArray.prints (a : NativeArray) : Bool := a.data.all (·.prints a.type)

/-- What the string buffer gets for an element. -/
def ArrayItem.record (item : ArrayItem) : Option (List UInt8) :=
  if isNull item.state then none
  else
    match item.value with
    | .text s => some (s ++ [0])
    | .blob bytes => some bytes
    | .word _ => none

/-- The type that is stored with an element. -/
def elemType (type : CMPIBase) : CMPIBase := if type = .chars then .string else type

/-- What the string buffer gets for an array. -/
def NativeArray.records (a : NativeArray) : List (List UInt8) :=
  a.data.filterMap ArrayItem.record

/-- The cells of an array whose strings come behind the first `n`. -/
def cellsOf (type : CMPIBase) : (n : Nat) → List ArrayItem → List Stored
  | _, [] => []
  | n, item :: items =>
    match item.record with
    | none => ⟨type.simple, item.state, item.value.raw⟩ :: cellsOf type n items
    | some _ => ⟨(elemType type).simple, item.state, .num (n + 1)⟩ :: cellsOf type (n + 1) items

theorem cellsOf_cons_none {type : CMPIBase} {n : Nat} {item : ArrayItem} {items : List ArrayItem}
    (h : item.record = none) :
    cellsOf type n (item :: items) =
      ⟨type.simple, item.state, item.value.raw⟩ :: cellsOf type n items := by
  rw [cellsOf, h]

theorem cellsOf_cons_some {type : CMPIBase} {n : Nat} {item : ArrayItem} {items : List ArrayItem}
    {bytes : List UInt8} (h : item.record = some bytes) :
    cellsOf type n (item :: items) =
      ⟨(elemType type).simple, item.state, .num (n + 1)⟩ :: cellsOf type (n + 1) items := by
  rw [cellsOf, h]

theorem length_cellsOf (type : CMPIBase) (n : Nat) (items : List ArrayItem) :
    (cellsOf type n items).length = items.length := by
  induction items generalizing n with
  | nil => rfl
  | cons item items ih =>
    unfold cellsOf
    split <;> rw [List.length_cons, List.length_cons, ih]

section Items

variable {hdr : ObjectHdr} {strs : List (List UInt8)} {arrs : List (List Stored)}

theorem addText_of_prints {type : CMPIBase} {s : CStr} (h : type.prints s = true) :
    addText hdr type s = addClString hdr s := if_pos h

theorem prints_of_ne_ref {type : CMPIBase} (h : type ≠ .ref) (item : ArrayItem) :
    item.prints type = true := by
  unfold ArrayItem.prints CMPIBase.prints
  cases isNull item.state with
  | true => rfl
  | false =>
    cases item.value with
    | text s => exact decide_eq_true fun htype => absurd htype h
    | _ => rfl

theorem prints_of_text {type : CMPIBase} {item : ArrayItem} {s : CStr}
    (h : item.prints type = true) (hstate : isNull item.state = false)
    (hvalue : item.value = .text s) : type.prints s = true := by
  rw [ArrayItem.prints, hstate, hvalue] at h
  exact h

/-- An element that has no string is stored as it is. -/
theorem storeItem_none {type : CMPIBase} {item : ArrayItem} (hshape : item.shaped type = true)
    (hrecord : item.record = none) :
    storeItem hdr type item = some (hdr, ⟨type.simple, item.state, item.value.raw⟩) := by
  unfold storeItem
  by_cases hnull : isNull item.state = true
  · exact if_pos hnull
  rw [if_neg hnull]
  unfold ArrayItem.record at hrecord
  unfold ArrayItem.shaped at hshape
  rw [if_neg hnull] at hrecord
  rw [Bool.eq_false_iff.mpr hnull, Bool.false_or] at hshape
  cases hvalue : item.value with
  | text s =>
    rw [hvalue] at hrecord
    exact absurd hrecord (by simp)
  | blob bytes =>
    rw [hvalue] at hrecord
    exact absurd hrecord (by simp)
  | word n =>
    rw [hvalue] at hshape
    cases type <;> first | rfl | exact Bool.noConfusion hshape

/-- An element with a string: the string is added. -/
theorem storeItem_some (hdr : ObjectHdr) {type : CMPIBase} {item : ArrayItem}
    (hshape : item.shaped type = true) (hprints : item.prints type = true) {bytes : List UInt8}
    (hrecord : item.record = some bytes) :
    Delimited strLength bytes ∧
      storeItem hdr type item = (addClStringN hdr bytes).map fun r =>
        (r.1, ⟨(elemType type).simple, item.state, .num r.2⟩) := by
  unfold ArrayItem.record at hrecord
  unfold storeItem
  unfold ArrayItem.shaped at hshape
  by_cases hnull : isNull item.state = true
  · rw [if_pos hnull] at hrecord
    exact absurd hrecord (by simp)
  rw [if_neg hnull] at hrecord ⊢
  rw [Bool.eq_false_iff.mpr hnull, Bool.false_or] at hshape
  cases hvalue : item.value with
  | text s =>
    have hfits := prints_of_text hprints (Bool.eq_false_iff.mpr hnull) hvalue
    rw [hvalue] at hrecord hshape
    obtain rfl := Option.some.inj hrecord
    refine ⟨delimited_text s, ?_⟩
    cases type with
    | ref => simp only [addText_of_prints hfits]; rfl
    | _ => first | rfl | exact Bool.noConfusion hshape
  | blob b =>
    rw [hvalue] at hrecord hshape
    obtain rfl := Option.some.inj hrecord
    simp only [Bool.and_eq_true, decide_eq_true_eq] at hshape
    obtain ⟨rfl, hmem⟩ := hshape
    exact ⟨delimited_of_mem hmem, rfl⟩
  | word n =>
    rw [hvalue] at hrecord
    exact absurd hrecord (by simp)

/-- The elements of an array are stored one after the other. -/
theorem storeItems_contents (h : Contents hdr strs arrs) {type : CMPIBase}
    {items : List ArrayItem} (hshape : ∀ item ∈ items, item.shaped type = true)
    (hprints : ∀ item ∈ items, item.prints type = true) (rest : List (List UInt8))
    (hroom : RoomFor hdr.strBuf (items.filterMap ArrayItem.record ++ rest)) :
    ∃ b, storeItems type hdr items = some ({ hdr with strBuf := b }, cellsOf type strs.length items) ∧
      Contents { hdr with strBuf := b } (strs ++ items.filterMap ArrayItem.record) arrs ∧
      RoomFor b rest := by
  induction items generalizing hdr strs with
  | nil =>
    refine ⟨hdr.strBuf, rfl, ?_, hroom⟩
    rw [List.filterMap_nil, List.append_nil]
    exact h
  | cons item items ih =>
    have hhead := hshape item (by simp)
    have htail : ∀ item ∈ items, item.shaped type = true :=
      fun i hi => hshape i (List.mem_cons_of_mem _ hi)
    have hprints' : ∀ item ∈ items, item.prints type = true :=
      fun i hi => hprints i (List.mem_cons_of_mem _ hi)
    unfold storeItems cellsOf
    cases hrecord : item.record with
    | none =>
      rw [List.filterMap_cons_none hrecord] at hroom ⊢
      obtain ⟨b, hstore, hcontents, hrest⟩ := ih h htail hprints' hroom
      refine ⟨b, ?_, hcontents, hrest⟩
      rw [storeItem_none hhead hrecord]
      simp only [hstore, Option.map_some]
    | some bytes =>
      rw [List.filterMap_cons_some hrecord] at hroom ⊢
      obtain ⟨hdel, hitem⟩ := storeItem_some hdr hhead (hprints item (by simp)) hrecord
      -- the string goes behind those there are, and the cell has its id
      obtain ⟨b₁, hadd, hcontents₁, hroom₁⟩ := addClStringN_contents h hdel hroom
      obtain ⟨b, hstore, hcontents, hrest⟩ := ih hcontents₁ htail hprints' hroom₁
      rw [List.length_append, List.length_singleton] at hstore
      rw [List.append_assoc, List.singleton_append] at hcontents
      refine ⟨b, ?_, hcontents, hrest⟩
      rw [hitem, hadd]
      simp only [Option.map_some, hstore]

/-- The record of an array whose strings come behind the first `n`. -/
def NativeArray.arrayRecord (a : NativeArray) (n : Nat) : List Stored :=
  arrayHead a :: cellsOf a.type n a.data

theorem delimited_arrayRecord (a : NativeArray) (n : Nat) :
    Delimited arrayLength (a.arrayRecord n) := delimited_array (length_cellsOf ..)

/-- An array is put behind the others. -/
theorem addClArray_contents (h : Contents hdr strs arrs) {a : NativeArray}
    (hshape : ∀ item ∈ a.data, item.shaped a.type = true) (hprints : a.prints = true)
    (hstrs : RoomFor hdr.strBuf a.records)
    (harrs : RoomFor hdr.arrayBuf [a.arrayRecord strs.length]) :
    ∃ b b', addClArray hdr a = some ({ hdr with strBuf := b, arrayBuf := some b' }, arrs.length + 1) ∧
      Contents { hdr with strBuf := b, arrayBuf := some b' } (strs ++ a.records)
        (arrs ++ [a.arrayRecord strs.length]) := by
  obtain ⟨b, hstore, hcontents, -⟩ := storeItems_contents h hshape (List.all_eq_true.mp hprints) []
    (by rw [List.append_nil]; exact hstrs)
  obtain ⟨b', hadd, hcontains, -⟩ := add_contains (k := 4) (by omega) h.arrays
    (delimited_arrayRecord a strs.length) harrs
  refine ⟨b, b', ?_, ⟨hcontents.strings, hcontains⟩⟩
  unfold addClArray
  rw [hstore]
  unfold NativeArray.arrayRecord at hadd
  rw [show (2 : Nat) ^ 4 = 16 from rfl] at hadd
  simp only [hadd, Option.map_some]

/-- An array takes the place of another one; the strings of the old one stay. -/
theorem replaceClArray_contents (h : Contents hdr strs arrs) {a : NativeArray}
    (hshape : ∀ item ∈ a.data, item.shaped a.type = true) (hprints : a.prints = true) {id : Nat}
    (hpos : 0 < id) (hle : id ≤ arrs.length) (hstrs : RoomFor hdr.strBuf a.records)
    (harrs : RoomFor hdr.arrayBuf [a.arrayRecord strs.length]) :
    ∃ b b', replaceClArray hdr id a = some { hdr with strBuf := b, arrayBuf := some b' } ∧
      Contents { hdr with strBuf := b, arrayBuf := some b' } (strs ++ a.records)
        ((arrs.map (cut arrayLength)).set (id - 1) (a.arrayRecord strs.length)) := by
  obtain ⟨b, hstore, hcontents, -⟩ := storeItems_contents h hshape (List.all_eq_true.mp hprints) []
    (by rw [List.append_nil]; exact hstrs)
  have harrays := h.arrays
  unfold replaceClArray
  rw [hstore]
  simp only
  cases hbuf : hdr.arrayBuf with
  | none =>
    rw [hbuf] at harrays
    rw [show arrs = [] from harrays, List.length_nil] at hle
    omega
  | some old =>
    rw [hbuf] at harrays harrs
    obtain ⟨b', hreplace, hcontains⟩ := replace_contains (fun _ => cut_delimited_array) harrays
      (delimited_arrayRecord a strs.length) hpos hle harrs
    refine ⟨b, b', ?_, ⟨hcontents.strings, hcontains⟩⟩
    unfold NativeArray.arrayRecord at hreplace
    simp only [hreplace, Option.map_some]

end Items

/-! ## Values of properties -/

/-- The type a text is stored with in a new property. -/
def newTextType (base : CMPIBase) : CMPIBase := if base = .string then .chars else base

section Values

variable {hdr : ObjectHdr} {strs : List (List UInt8)} {arrs : List (List Stored)} {state : Nat}

theorem storeNew_null {d : CMPIData} (h : isNull d.state = true) :
    storeNew hdr d = some (hdr, d.raw) := if_pos h

theorem storeNew_addText (hstate : isNull state = false) {base : CMPIBase}
    (hbase : base.isText = true) (s : CStr) :
    storeNew hdr ⟨base.simple, state, .text s⟩ = (addText hdr base s).map fun r =>
      (r.1, ⟨(newTextType base).simple, state, .num r.2⟩) := by
  unfold storeNew
  simp only [hstate]
  cases base <;> first | rfl | exact Bool.noConfusion hbase

theorem storeNew_text (hstate : isNull state = false) {base : CMPIBase}
    (hbase : base.isText = true) {s : CStr} (hprints : base.prints s = true) :
    storeNew hdr ⟨base.simple, state, .text s⟩ = (addClString hdr s).map fun r =>
      (r.1, ⟨(newTextType base).simple, state, .num r.2⟩) := by
  rw [storeNew_addText hstate hbase, addText_of_prints hprints]

theorem storeNew_blob (hstate : isNull state = false) (bytes : List UInt8) :
    storeNew hdr ⟨CMPIBase.inst.simple, state, .blob bytes⟩ =
      (addClStringN { hdr with containsEmbeddedObject := true } bytes).map fun r =>
        (r.1, ⟨CMPIBase.inst.simple, state, .num r.2⟩) := by
  unfold storeNew
  simp only [hstate]
  rfl

theorem storeNew_array (hstate : isNull state = false) (base : CMPIBase) (a : NativeArray) :
    storeNew hdr ⟨base.arrayOf, state, .array a⟩ = (addClArray hdr a).map fun r =>
      (r.1, ⟨base.arrayOf, state, .num r.2⟩) := by
  unfold storeNew
  simp only [hstate]
  cases base <;> rfl

theorem storeNew_word {base : CMPIBase} (hbase : base.isText = false) (hinst : base ≠ .inst)
    (n : Nat) :
    storeNew hdr ⟨base.simple, state, .word n⟩ = some (hdr, ⟨base.simple, state, .num n⟩) := by
  unfold storeNew
  by_cases hstate : isNull state = true
  · exact if_pos hstate
  · simp only [hstate]
    cases base <;> first | rfl | exact Bool.noConfusion hbase | exact absurd rfl hinst

end Values

section Replacing

variable {hdr : ObjectHdr} {strs : List (List UInt8)} {arrs : List (List Stored)}
  {p : ClProperty} {state : Nat}

theorem storeReplace_null {d : CMPIData} (h : isNull d.state = true) :
    storeReplace hdr p d = some (.stored hdr d.raw) := if_pos h

/-- A text is replaced only by one of the same type. -/
theorem storeReplace_text (hstate : isNull state = false) {base : CMPIBase}
    (hbase : base.isText = true) (hstring : base ≠ .string) (hod : p.data.type = base.simple)
    (hquals : base = .chars → p.quals = 0) (s : CStr) :
    storeReplace hdr p ⟨base.simple, state, .text s⟩ =
      replaceText hdr p.data ⟨base.simple, state, .text s⟩ := by
  unfold storeReplace
  simp only [hstate, hod]
  cases base with
  | chars =>
    simp only [hquals rfl]
    rfl
  | dateTime => rfl
  | ref => rfl
  | string => exact absurd rfl hstring
  | _ => exact Bool.noConfusion hbase

theorem replaceText_add {type : CMPIType} (hvalue : p.data.value = .num 0) {s : CStr}
    (hprints : type.base.prints s = true) :
    replaceText hdr p.data ⟨type, state, .text s⟩ = (addClString hdr s).map fun r =>
      .stored r.1 ⟨type, state, .num r.2⟩ := by
  unfold replaceText
  rw [hvalue]
  simp only [addText_of_prints hprints]

theorem replaceText_replace {type : CMPIType} {id : Nat} (hvalue : p.data.value = .num id)
    (hid : id ≠ 0) {s : CStr} (hprints : type.base.prints s = true) :
    replaceText hdr p.data ⟨type, state, .text s⟩ = (replaceClString hdr id s).map fun hdr =>
      .stored hdr ⟨type, state, .num id⟩ := by
  unfold replaceText
  rw [hvalue]
  cases id with
  | zero => exact absurd rfl hid
  | succ id => simp only [hprints, if_true]

/-- What an array is set with goes behind the others, -/
theorem storeReplace_array_add (hstate : isNull state = false) (hod : p.data.type.array = true)
    (hvalue : p.data.value = .num 0) (base : CMPIBase) (a : NativeArray) :
    storeReplace hdr p ⟨base.arrayOf, state, .array a⟩ = (addClArray hdr a).map fun r =>
      .stored r.1 ⟨base.arrayOf, state, .num r.2⟩ := by
  unfold storeReplace
  obtain ⟨⟨⟨odBase, odArray⟩, odState, odValue⟩, _⟩ := p
  obtain rfl : odArray = true := hod
  obtain rfl : odValue = .num 0 := hvalue
  simp only [hstate]
  cases odBase <;> rfl

/-- or takes the place of the old one. -/
theorem storeReplace_array_replace (hstate : isNull state = false)
    (hod : p.data.type.array = true) {id : Nat} (hvalue : p.data.value = .num id)
    (hid : id ≠ 0) (base : CMPIBase) (a : NativeArray) :
    storeReplace hdr p ⟨base.arrayOf, state, .array a⟩ = (replaceClArray hdr id a).map fun hdr =>
      .stored hdr ⟨base.arrayOf, state, .num id⟩ := by
  unfold storeReplace
  obtain ⟨⟨⟨odBase, odArray⟩, odState, odValue⟩, _⟩ := p
  obtain rfl : odArray = true := hod
  obtain rfl : odValue = .num id := hvalue
  simp only [hstate]
  cases id with
  | zero => exact absurd rfl hid
  | succ id => cases odBase <;> rfl

/-- A number takes the place of a number. -/
theorem storeReplace_word (hod : p.data.type.array = false) (htext : p.data.type.base.isText = false)
    (hinst : p.data.type.base ≠ .inst) (type : CMPIType) (n : Nat) :
    storeReplace hdr p ⟨type, state, .word n⟩ = some (.stored hdr ⟨type, state, .num n⟩) := by
  unfold storeReplace
  by_cases hstate : isNull state = true
  · exact if_pos hstate
  · obtain ⟨⟨⟨odBase, odArray⟩, odState, odValue⟩, _⟩ := p
    obtain rfl : odArray = false := hod
    simp only [hstate]
    cases odBase <;>
      first
      | exact absurd rfl hinst
      | exact Bool.noConfusion htext
      | simp [CMPIBase.simple, CMPIData.raw, Value.raw]

end Replacing

/-! ## New properties -/

/-- A section takes an item while its capacity has not wrapped. -/
theorem push_some {α : Type} {s : ClSection α} (h : s.there = false ∨ s.max ≠ 0) (iSize : Nat)
    (item : α) : ∃ s', s.push iSize item = some s' ∧ s'.items = s.items ++ [item] := by
  unfold ClSection.push
  by_cases hthere : s.there = false
  · exact ⟨_, if_pos hthere, rfl⟩
  · have hmax := h.resolve_left hthere
    rw [if_neg hthere, if_neg hmax]
    split
    · exact ⟨_, rfl, rfl⟩
    · exact ⟨_, rfl, rfl⟩

theorem push_items {α : Type} {s s' : ClSection α} {iSize : Nat} {item : α}
    (h : s.push iSize item = some s') : s'.items = s.items ++ [item] := by
  unfold ClSection.push at h
  split at h
  · cases h
    rfl
  split at h
  · split at h
    · exact absurd h (by simp)
    · cases h
      rfl
  · cases h
    rfl

/-- A new property is its name, the class it refers to, and its value. -/
theorem newProperty_eq {hdr hdr₁ hdr₂ hdr₃ : ObjectHdr} {id : CStr} {refName : Option CStr}
    {name ref : Nat} {d : CMPIData} {data : Stored}
    (hname : addClString hdr id = some (hdr₁, name))
    (href : addClStringOrNone hdr₁ refName = some (hdr₂, ref))
    (hstore : storeNew hdr₂ d = some (hdr₃, data)) :
    newProperty hdr id d refName = some (hdr₃,
      { data, id := name, refName := ref, flags := 0,
        quals := if isNull d.state = false ∧ d.type = CMPIBase.inst.simple then qEmbeddedObject else 0,
        originId := 0, qualifiers := .clear }) := by
  unfold newProperty
  simp only [hname, href, hstore, Option.bind_eq_bind, Option.bind_some]
  rfl

/-- A property whose name is new. -/
theorem addObjectPropertyH_new {o : PropertyStore} {id : CStr} {d : CMPIData}
    {refName : Option CStr} {hdr : ObjectHdr} {p : ClProperty} {prps : ClSection ClProperty}
    (hlocate : locateProperty o.hdr o.properties.items id = none)
    (hnew : newProperty o.hdr id d refName = some (hdr, p))
    (hpush : o.properties.push 8 p = some prps) :
    addObjectPropertyH o id d refName =
      some (PropertyStore.mk hdr prps, (prps.items.length : Int)) := by
  unfold addObjectPropertyH
  simp only [hlocate, hnew, hpush, Option.map_some]

/-- A property that is there and takes the value. -/
theorem addObjectPropertyH_stored {o : PropertyStore} {id : CStr} {d : CMPIData}
    {refName : Option CStr} {i : Nat} {p : ClProperty} {hdr : ObjectHdr} {data : Stored}
    (hlocate : locateProperty o.hdr o.properties.items id = some i)
    (hp : o.properties.items[i]? = some p)
    (hreplace : storeReplace o.hdr p d = some (.stored hdr data)) :
    addObjectPropertyH o id d refName =
      some (PropertyStore.mk hdr
        { o.properties with items := o.properties.items.set i { p with data } },
        ((i + 1 : Nat) : Int)) := by
  unfold addObjectPropertyH
  simp only [hlocate, hp, hreplace]
  rfl

/-- What `addObjectPropertyH` does: a property is appended, or an error leaves everything, or
there is new data in its place. -/
theorem addObjectPropertyH_cases {o o' : PropertyStore} {id : CStr} {d : CMPIData}
    {refName : Option CStr} {rc : Int} (h : addObjectPropertyH o id d refName = some (o', rc)) :
    (∃ hdr p prps, locateProperty o.hdr o.properties.items id = none ∧
      newProperty o.hdr id d refName = some (hdr, p) ∧ o.properties.push 8 p = some prps ∧
      o' = ⟨hdr, prps⟩ ∧ rc = (prps.items.length : Int)) ∨
    ∃ k p, locateProperty o.hdr o.properties.items id = some k ∧
      o.properties.items[k]? = some p ∧
      ((storeReplace o.hdr p d = some (.error rc) ∧ o' = o) ∨
        ∃ hdr data, storeReplace o.hdr p d = some (.stored hdr data) ∧
          o' = ⟨hdr, { o.properties with items := o.properties.items.set k { p with data } }⟩ ∧
          rc = ((k + 1 : Nat) : Int)) := by
  unfold addObjectPropertyH at h
  cases hlocate : locateProperty o.hdr o.properties.items id with
  | none =>
    simp only [hlocate] at h
    split at h
    · exact absurd h (by simp)
    · next hdr p hnew =>
      obtain ⟨prps, hpush, heq⟩ := Option.map_eq_some_iff.mp h
      cases heq
      exact Or.inl ⟨hdr, p, prps, rfl, hnew, hpush, rfl, rfl⟩
  | some k =>
    simp only [hlocate] at h
    split at h
    · exact absurd h (by simp)
    · next p hp =>
      refine Or.inr ⟨k, p, rfl, hp, ?_⟩
      split at h
      · exact absurd h (by simp)
      · next hreplace =>
        cases h
        exact Or.inl ⟨hreplace, rfl⟩
      · next hdr data hreplace =>
        cases h
        exact Or.inr ⟨hdr, data, hreplace, rfl, rfl⟩

end Sfcb.Object
