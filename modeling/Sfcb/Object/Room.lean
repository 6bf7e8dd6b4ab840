import Sfcb.Object.FlatArrays
import Sfcb.Object.PropertyMap

/-!
# Room for properties

How much room new properties of plain data need, all of them together. Each operation
succeeds and leaves room for what comes behind it if and only if there was room for its
records and for that (`HasRoom`), so the conditions of a run add up.

`newProperty_hasRoom` is one property. A section has room as long as the strings have: each
of its elements has a name (`SectionOk`).
-/

namespace Sfcb.Object

open Sfcb.Lib Sfcb.Lib.IndexedBuf

/-- There is room for more strings and more arrays. -/
structure ObjectHdr.HasRoom (hdr : ObjectHdr) (strs : List (List UInt8))
    (arrs : List (List Stored)) : Prop where
  strings : RoomFor hdr.strBuf strs
  arrays : RoomFor hdr.arrayBuf arrs

theorem ObjectHdr.HasRoom.nil (hdr : ObjectHdr) : hdr.HasRoom [] [] :=
  ⟨fun h => absurd rfl h, fun h => absurd rfl h⟩

/-- The strings of a new property: its name, and those of its value. -/
def SetCall.strRecords (c : SetCall) : List (List UInt8) :=
  (c.name ++ [0]) :: (setData c.value c.type).records

/-- Its arrays. -/
def SetCall.arrRecords (c : SetCall) : List (List Stored) :=
  (setData c.value c.type).arrayRecords

theorem exists_mem_map {α β : Type} {o : Option α} {f : α → β} {p : β → Prop} :
    (∃ r ∈ o.map f, p r) ↔ ∃ r ∈ o, p (f r) := by
  cases o <;> simp

theorem exists_mem_bind {α β : Type} {o : Option α} {f : α → Option β} {p : β → Prop} :
    (∃ r ∈ o.bind f, p r) ↔ ∃ a ∈ o, ∃ r ∈ f a, p r := by
  cases o <;> simp

section Operations

variable {hdr : ObjectHdr} {strs ss : List (List UInt8)} {arrs as : List (List Stored)}

theorem addClStringN_hasRoom (h : Contents hdr strs arrs) {bytes : List UInt8}
    (hdel : Delimited strLength bytes) :
    (∃ r ∈ addClStringN hdr bytes, r.1.HasRoom ss as) ↔ hdr.HasRoom (bytes :: ss) as := by
  have hadds := @add_roomFor_iff _ strLength 8 (by omega) hdr.strBuf strs ss bytes h.strings hdel
  constructor
  · intro ⟨r, hr, hroom⟩
    obtain ⟨r', hadd, rfl⟩ := Option.map_eq_some_iff.mp hr
    exact ⟨hadds.mp ⟨r', hadd, hroom.strings⟩, hroom.arrays⟩
  · intro hroom
    obtain ⟨r', hadd, hrest⟩ := hadds.mpr hroom.strings
    exact ⟨_, Option.map_eq_some_iff.mpr ⟨r', hadd, rfl⟩, hrest, hroom.arrays⟩

theorem addClString_hasRoom (h : Contents hdr strs arrs) {s : CStr} :
    (∃ r ∈ addClString hdr s, r.1.HasRoom ss as) ↔ hdr.HasRoom ((s ++ [0]) :: ss) as :=
  addClStringN_hasRoom h (delimited_text s)

/-- A string that was added is behind the others. -/
theorem addClStringN_made (h : Contents hdr strs arrs) {bytes : List UInt8}
    (hdel : Delimited strLength bytes) {r : ObjectHdr × Nat} (hadd : r ∈ addClStringN hdr bytes) :
    Contents r.1 (strs ++ [bytes]) arrs := by
  obtain ⟨r', hr', -⟩ := Option.map_eq_some_iff.mp hadd
  obtain ⟨b, hadd', hcontents, -⟩ := addClStringN_contents h hdel
    (add_room (k := 8) h.strings hr')
  rw [Option.some.inj ((Option.mem_def.mp hadd).symm.trans hadd')]
  exact hcontents

theorem addClStringOrNone_hasRoom (h : Contents hdr strs arrs) {s : Option CStr} :
    (∃ r ∈ addClStringOrNone hdr s, r.1.HasRoom ss as) ↔
      hdr.HasRoom (textRecords s.toList ++ ss) as := by
  cases s with
  | none =>
    refine ⟨fun ⟨r, hr, hroom⟩ => ?_, fun hroom => ⟨_, rfl, hroom⟩⟩
    cases hr
    exact hroom
  | some s => exact addClString_hasRoom h

theorem storeItems_cons {type : CMPIBase} {item : ArrayItem} {items : List ArrayItem} :
    storeItems type hdr (item :: items) = (storeItem hdr type item).bind fun r =>
      (storeItems type r.1 items).map fun r' => (r'.1, r.2 :: r'.2) := by
  rw [storeItems]
  cases storeItem hdr type item <;> rfl

/-- The elements of an array, one after the other. -/
theorem storeItems_hasRoom (h : Contents hdr strs arrs) {type : CMPIBase}
    {items : List ArrayItem} (hshape : ∀ item ∈ items, item.shaped type = true)
    (hprints : ∀ item ∈ items, item.prints type = true) :
    (∃ r ∈ storeItems type hdr items, r.1.HasRoom ss as) ↔
      hdr.HasRoom (items.filterMap ArrayItem.record ++ ss) as := by
  induction items generalizing hdr strs with
  | nil =>
    refine ⟨fun ⟨r, hr, hroom⟩ => ?_, fun hroom => ⟨_, rfl, hroom⟩⟩
    cases hr
    exact hroom
  | cons item items ih =>
    have hhead := hshape item List.mem_cons_self
    have htail : ∀ x ∈ items, x.shaped type = true :=
      fun x hx => hshape x (List.mem_cons_of_mem _ hx)
    have hprints' : ∀ x ∈ items, x.prints type = true :=
      fun x hx => hprints x (List.mem_cons_of_mem _ hx)
    rw [storeItems_cons, exists_mem_bind]
    simp only [exists_mem_map]
    cases hrecord : item.record with
    | none =>
      rw [storeItem_none hhead hrecord, List.filterMap_cons_none hrecord, ← ih h htail hprints']
      simp only [Option.mem_def, Option.some.injEq, exists_eq_left']
    | some bytes =>
      obtain ⟨hdel, hstore⟩ := storeItem_some hdr hhead (hprints item List.mem_cons_self) hrecord
      rw [hstore, List.filterMap_cons_some hrecord, List.cons_append, ← addClStringN_hasRoom h hdel,
        exists_mem_map]
      constructor
      · intro ⟨r, hadd, hrest⟩
        exact ⟨r, hadd, (ih (addClStringN_made h hdel hadd) htail hprints').mp hrest⟩
      · intro ⟨r, hadd, hroom⟩
        exact ⟨r, hadd, (ih (addClStringN_made h hdel hadd) htail hprints').mpr hroom⟩

/-- An array: its strings, and its cells. -/
theorem addClArray_hasRoom (h : Contents hdr strs arrs) {a : NativeArray}
    (hshape : ∀ item ∈ a.data, item.shaped a.type = true) (hprints : a.prints = true) :
    (∃ r ∈ addClArray hdr a, r.1.HasRoom ss as) ↔
      hdr.HasRoom (a.records ++ ss) (a.arrayRecord 0 :: as) := by
  refine Iff.trans ?_ (storeItems_hasRoom h hshape (List.all_eq_true.mp hprints))
  -- the cells are added to the arrays that are there
  have hcells : ∀ r ∈ storeItems a.type hdr a.data,
      (∃ r' ∈ IndexedBuf.add 16 r.1.arrayBuf (arrayHead a :: r.2), RoomFor (some r'.1) as) ↔
        RoomFor r.1.arrayBuf (a.arrayRecord 0 :: as) := by
    intro r hr
    obtain ⟨hsame, hlength⟩ := storeItems_arrayBuf hr
    have hlen : ((arrayHead a :: r.2) :: as).map List.length =
        (a.arrayRecord 0 :: as).map List.length := by
      simp [NativeArray.arrayRecord, length_cellsOf, hlength]
    refine (@add_roomFor_iff _ arrayLength 4 (by omega) _ arrs as _ (hsame ▸ h.arrays)
      (delimited_array hlength)).trans ?_
    exact ⟨fun h => h.congr hlen, fun h => h.congr hlen.symm⟩
  unfold addClArray
  constructor
  · intro h
    obtain ⟨r, hr, hroom⟩ := h
    cases hitems : storeItems a.type hdr a.data with
    | none =>
      rw [hitems] at hr
      exact absurd hr (by simp)
    | some r₁ =>
      rw [hitems] at hr
      obtain ⟨r', hadd, rfl⟩ := Option.map_eq_some_iff.mp hr
      exact ⟨r₁, rfl, hroom.strings, (hcells r₁ hitems).mp ⟨r', hadd, hroom.arrays⟩⟩
  · intro h
    obtain ⟨r₁, hitems, hroom⟩ := h
    obtain ⟨r', hadd, hrest⟩ := (hcells r₁ hitems).mpr hroom.arrays
    refine ⟨({ r₁.1 with arrayBuf := some r'.1 }, r'.2), ?_, hroom.strings, hrest⟩
    rw [Option.mem_def.mp hitems]
    exact Option.map_eq_some_iff.mpr ⟨r', hadd, rfl⟩

/-- The value of a new property. -/
theorem storeNew_hasRoom (h : Contents hdr strs arrs) {c : SetCall} (hproper : c.proper = true) :
    (∃ r ∈ storeNew hdr (setData c.value c.type), r.1.HasRoom ss as) ↔
      hdr.HasRoom ((setData c.value c.type).records ++ ss) (c.arrRecords ++ as) := by
  unfold SetCall.arrRecords CMPIData.records CMPIData.arrayRecords
  cases SetCall.proper_kind hproper with
  | null hnull hptr =>
    rw [SetCall.setData_null hnull hptr,
      storeNew_null (d := ⟨c.storedType, nullValue, .word 0⟩) isNull_nullValue]
    simp [isNull_nullValue]
  | word base n w htype hvalue hbits hlt =>
    obtain ⟨htext, hinst⟩ := bits_not_text hbits
    rw [hvalue, htype, setData_word hbits hlt, storeNew_word htext hinst]
    simp [not_isNull_zero]
  | text s htype hvalue hs =>
    rw [SetCall.setData_text htype hvalue, storeNew_text (by decide) rfl rfl, exists_mem_map,
      if_neg not_isNull_zero, if_neg not_isNull_zero]
    exact addClString_hasRoom h
  | array base a htype hvalue ha =>
    rw [hvalue, htype, setData_array, storeNew_array (by decide), exists_mem_map,
      if_neg not_isNull_zero, if_neg not_isNull_zero]
    exact addClArray_hasRoom h (ArrayItem.shaped_of_proper ha) (NativeArray.prints_of_proper ha)

/-- A new property. -/
theorem newProperty_hasRoom (h : Contents hdr strs arrs) {c : SetCall}
    (hproper : c.proper = true) :
    (∃ r ∈ newProperty hdr c.name (setData c.value c.type) none, r.1.HasRoom ss as) ↔
      hdr.HasRoom (c.strRecords ++ ss) (c.arrRecords ++ as) := by
  refine Iff.trans ?_ (addClString_hasRoom h)
  unfold newProperty
  simp only [Option.bind_eq_bind, exists_mem_bind]
  constructor
  · intro ⟨r₁, hname, r₂, href, r₃, hdata, r, hr, hroom⟩
    cases hr
    cases href
    have h₁ := addClStringN_made h (delimited_text c.name) hname
    exact ⟨r₁, hname, (storeNew_hasRoom h₁ hproper).mp ⟨r₃, hdata, hroom⟩⟩
  · intro ⟨r₁, hname, hroom⟩
    have h₁ := addClStringN_made h (delimited_text c.name) hname
    obtain ⟨r₃, hdata, hroom⟩ := (storeNew_hasRoom h₁ hproper).mpr hroom
    exact ⟨r₁, hname, (r₁.1, 0), rfl, r₃, hdata, _, rfl, hroom⟩

end Operations

/-! ## Sections -/

/-- The capacities a section of properties goes through. -/
structure SectionOk {α : Type} (s : ClSection α) : Prop where
  new : s.there = false → s.items = []
  grown : s.there = true → (∃ k ≤ 11, s.max = 8 * 2 ^ k) ∧ s.items.length ≤ s.max ∨
    s.max = 0 ∧ 2 ^ 14 < s.items.length

section Sections

variable {α : Type} {s s' : ClSection α} {item : α}

theorem SectionOk.room (h : SectionOk s) (hfew : s.items.length ≤ 2 ^ 14) :
    s.there = false ∨ s.max ≠ 0 := by
  cases hthere : s.there with
  | false => exact Or.inl rfl
  | true =>
    refine Or.inr fun hzero => ?_
    obtain ⟨⟨k, -, hmax⟩, -⟩ | ⟨-, hmany⟩ := h.grown hthere
    · have := Nat.two_pow_pos k
      omega
    · omega

theorem SectionOk.push (h : SectionOk s) (hpush : s.push 8 item = some s') : SectionOk s' := by
  unfold ClSection.push at hpush
  split at hpush
  · next hthere =>
    cases hpush
    refine ⟨fun hnot => absurd hnot (by simp), fun _ => Or.inl ⟨⟨0, by omega, rfl⟩, ?_⟩⟩
    rw [h.new hthere]
    simp
  next hthere =>
  have hgrown := h.grown (by simpa using hthere)
  split at hpush
  · next hfull =>
    split at hpush
    · exact absurd hpush (by simp)
    · next hmax =>
      cases hpush
      refine ⟨fun hnot => absurd hnot (by simp), fun _ => ?_⟩
      obtain ⟨⟨k, hk, hcap⟩, hle⟩ := hgrown.resolve_right fun hzero => hmax hzero.1
      simp only [List.length_append, List.length_singleton]
      -- eight, doubled eleven times, is the last capacity that can be doubled
      rcases Nat.lt_or_ge k 11 with hlt | hge
      · have hpow : 2 ^ k ≤ 2 ^ 10 := Nat.pow_le_pow_right (by omega) (by omega)
        have hmod : s.max * 2 % 2 ^ 15 = 8 * 2 ^ (k + 1) := by
          rw [Nat.mod_eq_of_lt (by omega), hcap, Nat.pow_succ]
          omega
        refine Or.inl ⟨⟨k + 1, hlt, hmod⟩, ?_⟩
        rw [hmod, Nat.pow_succ]
        omega
      · obtain rfl : k = 11 := by omega
        exact Or.inr ⟨by omega, by omega⟩
  · next hfits =>
    cases hpush
    refine ⟨fun hnot => absurd hnot hthere, fun _ => ?_⟩
    simp only [List.length_append, List.length_singleton]
    obtain ⟨hcap, hle⟩ | ⟨hzero, -⟩ := hgrown
    · exact Or.inl ⟨hcap, by omega⟩
    · omega

end Sections

end Sfcb.Object
