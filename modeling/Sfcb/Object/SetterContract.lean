import Sfcb.Object.FlatArrays
import Sfcb.Object.PropertyMap
import Sfcb.Object.UniqueNames

/-!
# What `setProperty` returns

An error should say that the value was not stored, and then nothing should have changed.
`setProperty_contract` is what the code keeps of that: an active filter takes some names
only, and what it does not take is ignored without an error.

Mirroring notes:
- `CMPI_RC_ERR_TYPE_MISMATCH` for an embedded instance is returned as it is, and
  `__ift_setProperty` takes it for a place. The contract is about the other calls
  (`SetCall.Regular`); those that store a pointer as it came are left out too.
- Where an error meets a name that is in the key list only, the flag goes to a place in
  front of the first property. That is the outcome `none`.
-/

namespace Sfcb.Object

open Sfcb.Lib Sfcb.Lib.IndexedBuf

/-! ## Stored values -/

/-- These bytes, by the id of a string. -/
def IsAt (hdr : ObjectHdr) (bytes : List UInt8) (w : Word) : Prop :=
  ∃ id, w = .num id ∧ ReadsAs hdr id bytes

/-- These elements, by the id of an array. -/
def IsArrayAt (hdr : ObjectHdr) (a : NativeArray) (w : Word) : Prop :=
  ∃ id cells, w = .num id ∧ getClArray hdr id = some (arrayHead a :: cells) ∧
    cells.length = a.data.length ∧ ∀ (i : Nat) (item : ArrayItem), a.data[i]? = some item →
      ∃ cell : Stored, cells[i]? = some cell ∧ HoldsItem hdr a.type item cell

/-- The value field of a property is that value. -/
def IsValue (hdr : ObjectHdr) : Value → Word → Prop
  | .word n, w => w = .num n
  | .nullPtr, w => w = .num 0
  | .text s, w => IsAt hdr (s ++ [0]) w
  | .blob bytes, w => IsAt hdr bytes w
  | .array a, w => IsArrayAt hdr a w

/-- A property has the data. -/
structure HasData (hdr : ObjectHdr) (d : CMPIData) (data : Stored) : Prop where
  type : data.type = d.type
  state : data.state = d.state
  value : isNull d.state = false → IsValue hdr d.value data.value

section Storing

variable {hdr hdr' : ObjectHdr}

theorem addClStringN_isAt {bytes : List UInt8} {id : Nat}
    (h : addClStringN hdr bytes = some (hdr', id)) : IsAt hdr' bytes (.num id) :=
  ⟨id, rfl, bytes, (addClStringN_spec h).2.1, List.prefix_rfl⟩

theorem replaceClStringN_isAt {bytes : List UInt8} {id : Nat}
    (h : replaceClStringN hdr id bytes = some hdr') : IsAt hdr' bytes (.num id) := by
  unfold replaceClStringN at h
  cases hb : hdr.strBuf with
  | none =>
    rw [hb] at h
    exact absurd h (by simp)
  | some b =>
    rw [hb] at h
    obtain ⟨b', hreplace, rfl⟩ := Option.map_eq_some_iff.mp h
    exact ⟨id, rfl, bytes, replace_entry_self hreplace, List.prefix_rfl⟩

/-- The strings of the elements are read as before when the array itself is stored. -/
theorem isArrayAt_of {a : NativeArray} {cells : List Stored} {b : IndexedBuf Stored} {id : Nat}
    (hshape : ∀ item ∈ a.data, item.shaped a.type = true)
    (hitems : storeItems a.type hdr a.data = some (hdr', cells))
    (hentry : b.entry id = some (arrayHead a :: cells)) :
    IsArrayAt { hdr' with arrayBuf := some b } a (.num id) := by
  obtain ⟨hlength, -, hholds⟩ := storeItems_spec hshape hitems
  refine ⟨id, cells, rfl, hentry, hlength, fun i item hi => ?_⟩
  obtain ⟨cell, hcell, hholds⟩ := hholds i item hi
  exact ⟨cell, hcell, hholds⟩

theorem addClArray_isArrayAt {a : NativeArray} {id : Nat}
    (hshape : ∀ item ∈ a.data, item.shaped a.type = true)
    (h : addClArray hdr a = some (hdr', id)) : IsArrayAt hdr' a (.num id) := by
  unfold addClArray at h
  split at h
  · exact absurd h (by simp)
  · next hdr₁ cells hitems =>
    obtain ⟨⟨b, id'⟩, hadd, heq⟩ := Option.map_eq_some_iff.mp h
    cases heq
    exact isArrayAt_of hshape hitems (add_entry_self hadd)

theorem replaceClArray_isArrayAt {a : NativeArray} {id : Nat}
    (hshape : ∀ item ∈ a.data, item.shaped a.type = true)
    (h : replaceClArray hdr id a = some hdr') : IsArrayAt hdr' a (.num id) := by
  unfold replaceClArray at h
  split at h
  · exact absurd h (by simp)
  · next hdr₁ cells hitems =>
    split at h
    · exact absurd h (by simp)
    · obtain ⟨b, hreplace, rfl⟩ := Option.map_eq_some_iff.mp h
      exact isArrayAt_of hshape hitems (replace_entry_self hreplace)

/-- A null value, or a number. -/
theorem hasData_raw {d : CMPIData} (hvalue : isNull d.state = false → ∃ n, d.value = .word n) :
    HasData hdr d d.raw := by
  refine ⟨rfl, rfl, fun hstate => ?_⟩
  obtain ⟨n, hn⟩ := hvalue hstate
  show IsValue hdr d.value d.value.raw
  rw [hn]
  rfl

/-- A new property has its value. -/
theorem storeNew_hasData {d : CMPIData} {data : Stored} (hshape : d.shaped = true)
    (htype : d.type ≠ CMPIBase.string.simple) (hptr : isNull d.state = false → d.value ≠ .nullPtr)
    (h : storeNew hdr d = some (hdr', data)) : HasData hdr' d data := by
  by_cases hnull : isNull d.state = true
  · rw [storeNew_null hnull] at h
    cases h
    exact hasData_raw fun hstate => absurd (hnull.symm.trans hstate) (by simp)
  have hstate := Bool.eq_false_iff.mpr hnull
  rcases shaped_cases hshape hstate with hv | ⟨base, n, hd, hbase, hinst⟩ | ⟨base, s, hd, hbase⟩ |
    ⟨bytes, hd, -⟩ | ⟨base, a, hd, hitems⟩
  · exact absurd hv (hptr hstate)
  · rw [hd, storeNew_word hbase hinst] at h
    cases h
    rw [hd]
    exact ⟨rfl, rfl, fun _ => rfl⟩
  · rw [hd, storeNew_addText hstate hbase] at h
    obtain ⟨⟨hdr₁, id⟩, hadd, heq⟩ := Option.map_eq_some_iff.mp (map_addText h)
    cases heq
    rw [hd] at htype ⊢
    have hsame : newTextType base = base := if_neg fun heq => htype (by rw [heq])
    exact ⟨congrArg CMPIBase.simple hsame, rfl, fun _ => addClStringN_isAt hadd⟩
  · rw [hd, storeNew_blob hstate] at h
    obtain ⟨⟨hdr₁, id⟩, hadd, heq⟩ := Option.map_eq_some_iff.mp h
    cases heq
    rw [hd]
    exact ⟨rfl, rfl, fun _ => addClStringN_isAt hadd⟩
  · rw [hd, storeNew_array hstate] at h
    obtain ⟨⟨hdr₁, id⟩, hadd, heq⟩ := Option.map_eq_some_iff.mp h
    cases heq
    rw [hd]
    exact ⟨rfl, rfl, fun _ => addClArray_isArrayAt hitems hadd⟩

/-- A text that is set again. -/
theorem replaceText_hasData {type : CMPIType} {od : Stored} {state : Nat} {s : CStr}
    {data : Stored} (h : replaceText hdr od ⟨type, state, .text s⟩ = some (.stored hdr' data)) :
    HasData hdr' ⟨type, state, .text s⟩ data := by
  obtain ⟨odType, odState, value⟩ := od
  cases value with
  | ptr => exact absurd h (by simp [replaceText])
  | num id =>
    cases id with
    | zero =>
      obtain ⟨⟨hdr₁, id⟩, hadd, heq⟩ := Option.map_eq_some_iff.mp (map_addText h)
      cases heq
      exact ⟨rfl, rfl, fun _ => addClStringN_isAt hadd⟩
    | succ id =>
      unfold replaceText at h
      simp only at h
      split at h
      case isFalse => exact absurd h (by simp)
      obtain ⟨hdr₁, hreplace, heq⟩ := Option.map_eq_some_iff.mp h
      cases heq
      exact ⟨rfl, rfl, fun _ => replaceClStringN_isAt hreplace⟩

theorem storeReplace_array_ptr {p : ClProperty} {state : Nat} (hstate : isNull state = false)
    (hod : p.data.type.array = true) (hvalue : p.data.value = .ptr) (base : CMPIBase)
    (a : NativeArray) : storeReplace hdr p ⟨base.arrayOf, state, .array a⟩ = none := by
  unfold storeReplace
  obtain ⟨⟨⟨odBase, odArray⟩, odState, odValue⟩, _⟩ := p
  obtain rfl : odArray = true := hod
  obtain rfl : odValue = .ptr := hvalue
  simp only [hstate]
  cases odBase <;> rfl

/-- A property that was there has its new value, unless that was refused. -/
theorem storeReplace_hasData {p : ClProperty} {d : CMPIData} {data : Stored}
    (hshape : d.shaped = true) (hmisstores : p.misstores hdr d = false)
    (h : storeReplace hdr p d = some (.stored hdr' data)) : HasData hdr' d data := by
  by_cases hnull : isNull d.state = true
  · rw [storeReplace_null hnull] at h
    cases h
    exact hasData_raw fun hstate => absurd (hnull.symm.trans hstate) (by simp)
  have hstate := Bool.eq_false_iff.mpr hnull
  have hptr : d.value ≠ .nullPtr := by
    intro hv
    unfold ClProperty.misstores at hmisstores
    rw [hstate, hv] at hmisstores
    exact absurd hmisstores (by simp)
  have hrefuses : p.refuses hdr d = false := by
    refine Bool.eq_false_iff.mpr fun hrefuses => ?_
    obtain ⟨rc, herror⟩ := storeReplace_refuses hrefuses
    exact absurd (herror.symm.trans h) (by simp)
  rcases kept_cases hstate hrefuses hmisstores with
    ⟨base, hbase, hstring, hquals, hod, hdtype⟩ | ⟨hod, hdtype⟩ | ⟨hhdr, hod, hvalue, hdtype⟩ |
      ⟨hstr, harr, hraw⟩
  · obtain ⟨s, hd⟩ := shaped_text hshape hstate hptr hbase hdtype
    rw [hd, storeReplace_text hstate hbase hstring hod hquals] at h
    rw [hd]
    exact replaceText_hasData h
  · obtain ⟨base, a, hd, hitems⟩ := shaped_array hshape hstate hptr hdtype
    rw [hd] at h ⊢
    cases hod' : p.data.value with
    | ptr =>
      rw [storeReplace_array_ptr hstate hod hod'] at h
      exact absurd h (by simp)
    | num id =>
      by_cases hid : id = 0
      · rw [storeReplace_array_add hstate hod (by rw [hod', hid])] at h
        obtain ⟨⟨hdr₁, id⟩, hadd, heq⟩ := Option.map_eq_some_iff.mp h
        cases heq
        exact ⟨rfl, rfl, fun _ => addClArray_isArrayAt hitems hadd⟩
      · rw [storeReplace_array_replace hstate hod hod' hid] at h
        obtain ⟨hdr₁, hreplace, heq⟩ := Option.map_eq_some_iff.mp h
        cases heq
        exact ⟨rfl, rfl, fun _ => replaceClArray_isArrayAt hitems hreplace⟩
  · obtain ⟨bytes, hd, -⟩ := shaped_inst hshape hstate hptr hdtype
    rw [hd, storeReplace_blob hhdr hstate hod hvalue] at h
    obtain ⟨⟨hdr₁, id⟩, hadd, heq⟩ := Option.map_eq_some_iff.mp h
    cases heq
    rw [hd]
    exact ⟨rfl, rfl, fun _ => addClStringN_isAt hadd⟩
  · rw [hraw] at h
    cases h
    refine hasData_raw fun _ => ?_
    rcases shaped_cases hshape hstate with hv | ⟨base, n, hd, -⟩ | ⟨base, s, hd, hbase⟩ |
      ⟨bytes, hd, -⟩ | ⟨base, a, hd, -⟩
    · exact absurd hv hptr
    · exact ⟨n, by rw [hd]⟩
    · rw [hd] at hstr
      exact absurd ((inStrings_text hbase).symm.trans hstr) (by simp)
    · rw [hd] at hstr
      exact Bool.noConfusion hstr
    · rw [hd] at harr
      exact Bool.noConfusion harr

end Storing

theorem replaceText_ne_error {hdr : ObjectHdr} {od : Stored} {d : CMPIData} {rc : Int} :
    replaceText hdr od d ≠ some (.error rc) := by
  intro h
  unfold replaceText at h
  split at h
  · obtain ⟨x, -, heq⟩ := Option.map_eq_some_iff.mp h
    cases heq
  · split at h
    · obtain ⟨x, -, heq⟩ := Option.map_eq_some_iff.mp h
      cases heq
    · cases h
  · cases h

/-- What is refused is refused for its type. -/
theorem storeReplace_error {hdr : ObjectHdr} {p : ClProperty} {d : CMPIData} {rc : Int}
    (h : storeReplace hdr p d = some (.error rc)) :
    p.refuses hdr d = true ∧ (rc = -typeMismatch ∨ p.data.type = CMPIBase.inst.simple) := by
  unfold storeReplace at h
  simp only at h
  split at h
  · cases h
  next hnull =>
  unfold ClProperty.refuses
  simp only [Bool.eq_false_iff.mpr hnull, Bool.not_false, Bool.true_and]
  split at h
  · next hod =>
    rw [if_pos hod]
    split at h
    · next hquals =>
      cases h
      exact ⟨by simp [hquals], Or.inl rfl⟩
    split at h
    · next hchars =>
      split at h
      · next hstring =>
        cases h
        exact ⟨by simp [hchars, hstring], Or.inl rfl⟩
      · split at h
        · obtain ⟨x, -, heq⟩ := Option.map_eq_some_iff.mp h
          cases heq
        · cases h
    · exact absurd h replaceText_ne_error
  next hod =>
  rw [if_neg hod]
  split at h
  · next hod =>
    rw [if_pos hod]
    split at h
    · next hdate =>
      cases h
      exact ⟨by simpa using hdate, Or.inl rfl⟩
    · exact absurd h replaceText_ne_error
  next hod =>
  rw [if_neg hod]
  split at h
  · next hod =>
    rw [if_pos hod]
    split at h
    · next href =>
      cases h
      exact ⟨by simpa using href, Or.inl rfl⟩
    · exact absurd h replaceText_ne_error
  next hod =>
  rw [if_neg hod]
  split at h
  · next hod =>
    rw [if_pos hod]
    split at h
    · next harray =>
      cases h
      exact ⟨by simpa using harray, Or.inl rfl⟩
    · split at h
      · obtain ⟨x, -, heq⟩ := Option.map_eq_some_iff.mp h
        cases heq
      · obtain ⟨x, -, heq⟩ := Option.map_eq_some_iff.mp h
        cases heq
      · cases h
  next hod =>
  rw [if_neg hod]
  split at h
  · next hod =>
    rw [if_pos hod]
    split at h
    · next hinst =>
      exact ⟨by simpa using hinst, Or.inr hod.2⟩
    · split at h
      · obtain ⟨x, -, heq⟩ := Option.map_eq_some_iff.mp h
        cases heq
      · obtain ⟨x, -, heq⟩ := Option.map_eq_some_iff.mp h
        cases heq
      · cases h
  · cases h

/-! ## Objects whose names can be read -/

/-- Every property has a name, and no value is a string that is a name. -/
structure Legible (o : PropertyStore) : Prop where
  named : ∀ p ∈ o.properties.items, ∃ s, HasText o.hdr p.id s
  apart : ∀ p ∈ o.properties.items, p.data.type.inStrings = true → ∀ k, p.data.value = .num k →
    k = 0 ∨ k ≤ used o.hdr.strBuf ∧ ∀ q ∈ o.properties.items, q.id ≠ k

section Naming

variable {o o' : PropertyStore} {id : CStr} {d : CMPIData} {rc : Int}

/-- A new property: its name is the next string, its value is behind that. -/
theorem newProperty_spec {hdr hdr' : ObjectHdr} {p : ClProperty}
    (h : newProperty hdr id d none = some (hdr', p)) :
    ∃ hdr₁, addClString hdr id = some (hdr₁, p.id) ∧ storeNew hdr₁ d = some (hdr', p.data) := by
  unfold newProperty at h
  obtain ⟨⟨hdr₁, n⟩, hname, h₁⟩ := Option.bind_eq_some_iff.mp h
  obtain ⟨⟨hdr₂, ref⟩, href, h₂⟩ := Option.bind_eq_some_iff.mp h₁
  obtain ⟨⟨hdr₃, data⟩, hdata, h₃⟩ := Option.bind_eq_some_iff.mp h₂
  cases h₃
  cases href
  exact ⟨hdr₁, hname, hdata⟩

theorem locateProperty_ids (hdr : ObjectHdr) (items : List ClProperty) (name : CStr) :
    locateProperty hdr items name = (items.map (·.id)).findIdx? (isNamed hdr name) :=
  locateProperty_eq (⟨items, 0, false⟩ : ClSection ClProperty)

/-- Names are found where they were as long as their texts stay. -/
theorem locateProperty_keeps {hdr hdr' : ObjectHdr} {but : Option Nat}
    (hkeeps : KeepsTexts but hdr hdr') {items items' : List ClProperty}
    (hids : items'.map (·.id) = items.map (·.id)) (hnamed : ∀ p ∈ items, ∃ s, HasText hdr p.id s)
    (hbut : ∀ p ∈ items, but ≠ some p.id) (name : CStr) :
    locateProperty hdr' items' name = locateProperty hdr items name := by
  have hmap : (items.map (·.id)).map (isNamed hdr' name) =
      (items.map (·.id)).map (isNamed hdr name) := by
    refine List.map_congr_left fun id hid => ?_
    obtain ⟨p, hp, rfl⟩ := List.mem_map.mp hid
    obtain ⟨s, hs⟩ := hnamed p hp
    have hs' := hkeeps.texts p.id s (hbut p hp) hs
    rw [Bool.eq_iff_iff, isNamed_iff hs, isNamed_iff hs']
  rw [locateProperty_ids, locateProperty_ids, hids]
  generalize items.map (·.id) = ids at hmap ⊢
  have hfind := congrArg (List.findIdx? id) hmap
  rw [List.findIdx?_map, List.findIdx?_map] at hfind
  exact hfind

/-- No value is written over a name. -/
theorem Legible.overwrites_ne (h : Legible o) {p : ClProperty} (hp : p ∈ o.properties.items) :
    ∀ q ∈ o.properties.items, p.overwrites o.hdr d ≠ some q.id := by
  intro q hq hover
  obtain ⟨htype, hvalue, hne⟩ := overwrites_some hover
  obtain hzero | ⟨-, hapart⟩ := h.apart p hp (inStrings_of_overwritten htype) q.id hvalue
  · exact hne hzero
  · exact hapart q hq rfl

theorem map_id_set {items : List ClProperty} {k : Nat} {p : ClProperty} {data : Stored}
    (hp : items[k]? = some p) : (items.set k { p with data }).map (·.id) = items.map (·.id) :=
  map_set_same hp rfl

/-- After a call without an error the property of that name has the data. -/
theorem addObjectPropertyH_hasData (h : Legible o) (hid : 0 ∉ id) (hshape : d.shaped = true)
    (htype : d.type ≠ CMPIBase.string.simple) (hstores : (Call.mk id d none).misstores o = false)
    (hadd : addObjectPropertyH o id d none = some (o', rc)) :
    (o' = o ∧ ∃ p, (Call.mk id d none).located o = some p ∧ p.refuses o.hdr d = true ∧
      (rc = -typeMismatch ∨ p.data.type = CMPIBase.inst.simple)) ∨
    ∃ k p, rc = ((k + 1 : Nat) : Int) ∧ locateProperty o'.hdr o'.properties.items id = some k ∧
      o'.properties.items[k]? = some p ∧ HasData o'.hdr d p.data := by
  unfold Call.misstores at hstores
  obtain ⟨hdr, p, prps, hlocate, hnew, hpush, rfl, rfl⟩ | ⟨k, p, hlocate, hp, hreplace⟩ :=
    addObjectPropertyH_cases hadd
  · have hitems := push_items hpush
    have hlocated : (Call.mk id d none).located o = none := by
      unfold Call.located
      rw [hlocate]
      rfl
    rw [hlocated] at hstores
    obtain ⟨hdr₁, hname, hdata⟩ := newProperty_spec hnew
    have hkeeps := storeNew_keeps hdata
    have hall := (addClString_keeps hname).trans hkeeps
    refine Or.inr ⟨o.properties.items.length, p, ?_, ?_, ?_, ?_⟩
    · rw [hitems, List.length_append]
      rfl
    · have hold := locateProperty_keeps hall rfl h.named (fun p _ => by simp) id
      have hnamed : p.isNamed hdr id = true := by
        have hs := hkeeps.texts _ _ (by simp) (addClString_hasText hname hid)
        unfold ClProperty.isNamed
        rw [hs.getClString]
        exact beq_iff_eq.mpr ((strcasecmp_eq_zero_iff hid hid).mpr rfl)
      show locateProperty hdr prps.items id = _
      rw [hlocate] at hold
      unfold locateProperty at hold ⊢
      rw [hitems, List.findIdx?_append, hold, List.findIdx?_cons, if_pos hnamed, Option.none_or,
        Option.map_some, Nat.zero_add]
    · rw [hitems]
      exact List.getElem?_concat_length
    · refine storeNew_hasData hshape htype (fun hstate hv => ?_) hdata
      rw [hstate, hv] at hstores
      exact absurd hstores (by simp)
  · have hlocated : (Call.mk id d none).located o = some p := by
      unfold Call.located
      rw [hlocate]
      exact hp
    rw [hlocated] at hstores
    obtain ⟨herror, rfl⟩ | ⟨hdr, data, hstored, rfl, rfl⟩ := hreplace
    · exact Or.inl ⟨rfl, p, hlocated, storeReplace_error herror⟩
    · have hmem := List.mem_of_getElem? hp
      obtain ⟨hlt, -⟩ := List.getElem?_eq_some_iff.mp hp
      have hrefuses : p.refuses o.hdr d = false := by
        refine Bool.eq_false_iff.mpr fun hrefuses => ?_
        obtain ⟨rc, herror⟩ := storeReplace_refuses hrefuses
        exact absurd (herror.symm.trans hstored) (by simp)
      replace hstores : (!p.refuses o.hdr d && p.misstores o.hdr d) = false := hstores
      rw [hrefuses, Bool.not_false, Bool.true_and] at hstores
      refine Or.inr ⟨k, { p with data }, rfl, ?_, ?_, storeReplace_hasData hshape hstores hstored⟩
      · exact (locateProperty_keeps (storeReplace_keeps hstored) (map_id_set hp) h.named
          (h.overwrites_ne hmem) id).trans hlocate
      · exact List.getElem?_set_self hlt

/-- Names stay legible, whatever is set. -/
theorem Legible.add (h : Legible o) (hid : 0 ∉ id) (hshape : d.shaped = true)
    (hadd : addObjectPropertyH o id d none = some (o', rc)) : Legible o' := by
  obtain ⟨hdr, p, prps, -, hnew, hpush, rfl, -⟩ | ⟨k, p, -, hp, ⟨-, rfl⟩ | ⟨hdr, data, hstored, rfl, -⟩⟩ :=
    addObjectPropertyH_cases hadd
  · have hitems := push_items hpush
    obtain ⟨hdr₁, hname, hdata⟩ := newProperty_spec hnew
    have hkeeps := storeNew_keeps hdata
    have hall := (addClString_keeps hname).trans hkeeps
    obtain ⟨-, -, hnext, hused⟩ := addClStringN_spec hname
    refine ⟨fun q hq => ?_, fun q hq htype n hvalue => ?_⟩
    · rw [show (_ : List ClProperty) = _ from hitems] at hq
      obtain hq | hq := List.mem_append.mp hq
      · obtain ⟨s, hs⟩ := h.named q hq
        exact ⟨s, hall.texts _ s (by simp) hs⟩
      · rw [List.mem_singleton.mp hq]
        exact ⟨id, hkeeps.texts _ _ (by simp) (addClString_hasText hname hid)⟩
    · rw [show (_ : List ClProperty) = _ from hitems] at hq ⊢
      have hbound : ∀ q ∈ o.properties.items, q.id ≤ used o.hdr.strBuf := by
        intro q hq
        obtain ⟨s, hs⟩ := h.named q hq
        exact hs.id_le.2
      obtain hq | hq := List.mem_append.mp hq
      · refine (h.apart q hq htype n hvalue).imp_right fun hapart => ?_
        refine ⟨Nat.le_trans hapart.1 hall.used, fun q' hq' => ?_⟩
        obtain hq' | hq' := List.mem_append.mp hq'
        · exact hapart.2 q' hq'
        · rw [List.mem_singleton.mp hq']
          omega
      · rw [List.mem_singleton.mp hq] at htype hvalue
        -- the value is behind the name, and the name behind all other strings
        refine (storeNew_apart hshape hdata htype hvalue).imp_right fun hapart => ?_
        refine ⟨hapart.2, fun q' hq' => ?_⟩
        obtain hq' | hq' := List.mem_append.mp hq'
        · have := hbound q' hq'
          omega
        · rw [List.mem_singleton.mp hq']
          omega
  · exact h
  · have hmem := List.mem_of_getElem? hp
    have hkeeps := storeReplace_keeps hstored
    have hnamed : ∀ q ∈ o.properties.items, ∃ s, HasText hdr q.id s := by
      intro q hq
      obtain ⟨s, hs⟩ := h.named q hq
      exact ⟨s, hkeeps.texts _ s (h.overwrites_ne hmem q hq) hs⟩
    have hids : ∀ n, (∀ q ∈ o.properties.items, q.id ≠ n) →
        ∀ q ∈ o.properties.items.set k { p with data }, q.id ≠ n := by
      intro n hne q hq
      obtain hq | rfl := List.mem_or_eq_of_mem_set hq
      · exact hne q hq
      · exact hne p hmem
    refine ⟨fun q hq => ?_, fun q hq htype n hvalue => ?_⟩
    · obtain hq | rfl := List.mem_or_eq_of_mem_set hq
      · exact hnamed q hq
      · exact hnamed p hmem
    · have hold : ∀ q ∈ o.properties.items, q.data.type.inStrings = true → q.data.value = .num n →
          n = 0 ∨ n ≤ used hdr.strBuf ∧ ∀ q ∈ o.properties.items.set k { p with data }, q.id ≠ n :=
        fun q hq htype hvalue => (h.apart q hq htype n hvalue).imp_right fun hapart =>
          ⟨Nat.le_trans hapart.1 hkeeps.used, hids n hapart.2⟩
      obtain hq | rfl := List.mem_or_eq_of_mem_set hq
      · exact hold q hq htype hvalue
      · obtain hzero | ⟨hptype, hpvalue⟩ | ⟨hlt, hle⟩ := storeReplace_apart hshape hstored htype hvalue
        · exact Or.inl hzero
        · exact hold p hmem hptype hpvalue
        · refine Or.inr ⟨hle, hids n fun q hq heq => ?_⟩
          obtain ⟨s, hs⟩ := h.named q hq
          have := hs.id_le.2
          omega

theorem Legible.flag (h : Legible o) {k flags : Nat} {p : ClProperty}
    (hp : o.properties.items[k]? = some p) :
    Legible ⟨o.hdr, { o.properties with items := o.properties.items.set k { p with flags } }⟩ := by
  have hmem := List.mem_of_getElem? hp
  have hsame : ∀ q ∈ o.properties.items.set k { p with flags },
      ∃ q' ∈ o.properties.items, q.id = q'.id ∧ q.data = q'.data := by
    intro q hq
    obtain hq | rfl := List.mem_or_eq_of_mem_set hq
    · exact ⟨q, hq, rfl, rfl⟩
    · exact ⟨p, hmem, rfl, rfl⟩
  refine ⟨fun q hq => ?_, fun q hq htype n hvalue => ?_⟩
  · obtain ⟨q', hq', hid, -⟩ := hsame q hq
    rw [hid]
    exact h.named q' hq'
  · obtain ⟨q', hq', -, hdata⟩ := hsame q hq
    rw [hdata] at htype hvalue
    refine (h.apart q' hq' htype n hvalue).imp_right fun hapart => ⟨hapart.1, fun r hr => ?_⟩
    obtain ⟨r', hr', hid, -⟩ := hsame r hr
    rw [hid]
    exact hapart.2 r' hr'

end Naming

/-! ## Calls -/

/-- The value is of the type, or NULL. -/
def SetCall.typed (c : SetCall) : Bool :=
  match c.value with
  | none => true
  | some .nullPtr => c.type.enca
  | some (.word n) => !c.type.array && !c.type.inStrings && (n ≠ 0 || !c.type.enca) &&
      decide (n < 2 ^ c.type.base.bits.getD 64)
  | some (.text _) => !c.type.array && c.type.base.isText
  | some (.blob bytes) => c.type = CMPIBase.inst.simple && decide (0 ∈ bytes)
  | some (.array a) => c.type.array && a.data.all (ArrayItem.shaped a.type)

/-- The property of that name has the value, or is NULL. -/
def SetCall.IsSet (c : SetCall) (i : NativeInstance) : Prop :=
  ∃ k p, locateProperty i.hdl.hdr i.hdl.properties.items c.name = some k ∧
    i.hdl.properties.items[k]? = some p ∧ p.data.type = c.storedType ∧
    p.data.state = (if c.isNull then nullValue else 0) ∧
    (c.isNull = false → ∀ v, c.value = some v → IsValue i.hdl.hdr v p.data.value)

/-- The filter of the instance, if there is one, takes the name. -/
def NativeInstance.Takes (i : NativeInstance) (name : CStr) : Prop :=
  i.filtered = false ∨ i.propertyList = none ∨ containedList i.propertyList name = true ∨
    containedList i.keyList name = true

instance (i : NativeInstance) (name : CStr) : Decidable (i.Takes name) :=
  inferInstanceAs (Decidable (_ ∨ _ ∨ _ ∨ _))

/-- It takes the name for the keys only. -/
def NativeInstance.flags (i : NativeInstance) (name : CStr) : Bool :=
  i.filtered && !containedList i.propertyList name && containedList i.keyList name

/-- A value is not refused for the embedded instance that is there, and not stored as it came
where it needs an id. -/
structure SetCall.Regular (i : NativeInstance) (c : SetCall) : Prop where
  stores : c.call.misstores i.hdl.store = false
  embedded : ∀ p, c.call.located i.hdl.store = some p → p.data.type = CMPIBase.inst.simple →
    p.refuses i.hdl.hdr c.call.d = false

section Calling

variable {i i' : NativeInstance} {c : SetCall} {rc : Int}

/-- A value of the type is not cut, and is null where the call says so. -/
theorem setAlignedValue_typed {v : Value} (h : c.typed = true) (hv : c.value = some v) :
    setAlignedValue c.type v = v ∧
      ((c.type.enca = true ∧ (v = .nullPtr ∨ v = .word 0)) ↔ v = .nullPtr) := by
  unfold SetCall.typed at h
  rw [hv] at h
  cases v with
  | nullPtr => exact ⟨rfl, iff_of_true ⟨h, Or.inl rfl⟩ rfl⟩
  | word n =>
    simp only [Bool.and_eq_true, Bool.not_eq_true', decide_eq_true_eq, Bool.or_eq_true] at h
    obtain ⟨⟨⟨harray, -⟩, hzero⟩, hlt⟩ := h
    refine ⟨?_, iff_of_false (fun hnull => ?_) (by simp)⟩
    · unfold setAlignedValue
      rw [harray]
      cases hbits : c.type.base.bits with
      | none =>
        rw [hbits] at hlt
        exact congrArg Value.word (Nat.mod_eq_of_lt hlt)
      | some w =>
        rw [hbits] at hlt
        exact congrArg Value.word (Nat.mod_eq_of_lt hlt)
    · obtain ⟨henca, hv | hv⟩ := hnull
      · exact absurd hv (by simp)
      · obtain hne | hne := hzero
        · exact hne (Value.word.inj hv)
        · exact absurd (henca.symm.trans hne) (by simp)
  | text s => exact ⟨rfl, by simp⟩
  | blob bytes => exact ⟨rfl, by simp⟩
  | array a => exact ⟨rfl, by simp⟩

/-- What is given to `addObjectPropertyH`. -/
theorem setData_typed (h : c.typed = true) :
    (setData c.value c.type = ⟨c.storedType, nullValue, .word 0⟩ ∧ c.isNull = true) ∨
      ∃ v, c.value = some v ∧ c.isNull = false ∧ setData c.value c.type = ⟨c.storedType, 0, v⟩ := by
  cases hv : c.value with
  | none => exact Or.inl ⟨rfl, by simp [SetCall.isNull, hv]⟩
  | some v =>
    obtain ⟨hsame, hnull⟩ := setAlignedValue_typed h hv
    unfold setData
    simp only [hsame, ite_self]
    by_cases hptr : v = .nullPtr
    · rw [if_pos (hnull.mpr hptr)]
      exact Or.inl ⟨rfl, by simp [SetCall.isNull, hv, hptr]⟩
    · rw [if_neg fun hboth => hptr (hnull.mp hboth)]
      exact Or.inr ⟨v, rfl, by simp [SetCall.isNull, hv, hptr], rfl⟩

theorem storedType_ne_string : c.storedType ≠ CMPIBase.string.simple := by
  unfold SetCall.storedType
  split
  · decide
  · assumption

/-- A value of the type has the shape of the type it is stored with. -/
theorem setData_shaped (h : c.typed = true) : (setData c.value c.type).shaped = true := by
  obtain ⟨hdata, -⟩ | ⟨v, hv, hnull, hdata⟩ := setData_typed h
  · rw [hdata]
    unfold CMPIData.shaped
    rw [if_pos isNull_nullValue]
    exact decide_eq_true rfl
  rw [hdata]
  unfold CMPIData.shaped
  rw [if_neg not_isNull_zero]
  -- `string` and `chars` have the same shape
  have hsame : c.storedType = c.type ∨
      c.type = CMPIBase.string.simple ∧ c.storedType = CMPIBase.chars.simple := by
    unfold SetCall.storedType
    by_cases hstring : c.type = CMPIBase.string.simple
    · exact Or.inr ⟨hstring, if_pos hstring⟩
    · exact Or.inl (if_neg hstring)
  unfold SetCall.typed at h
  rw [hv] at h
  cases v with
  | nullPtr => exact absurd hnull (by simp [SetCall.isNull, hv])
  | word n =>
    simp only [Bool.and_eq_true, Bool.not_eq_true'] at h
    obtain ⟨⟨⟨harray, hstr⟩, -⟩, -⟩ := h
    obtain hsame | ⟨hstring, -⟩ := hsame
    · simp [hsame, harray, hstr]
    · rw [hstring] at hstr
      exact absurd hstr (by decide)
  | text s =>
    obtain hsame | ⟨-, hstored⟩ := hsame
    · rw [hsame]
      exact h
    · rw [hstored]
      rfl
  | blob bytes =>
    obtain hsame | ⟨hstring, -⟩ := hsame
    · rw [hsame]
      exact h
    · rw [hstring] at h
      exact absurd (Bool.and_eq_true_iff.mp h).1 (by decide)
  | array a =>
    obtain hsame | ⟨hstring, -⟩ := hsame
    · rw [hsame]
      exact h
    · rw [hstring] at h
      exact absurd (Bool.and_eq_true_iff.mp h).1 (by decide)

theorem SetCall.isSet_of (htyped : c.typed = true) {k : Nat} {p : ClProperty}
    (hlocate : locateProperty i.hdl.hdr i.hdl.properties.items c.name = some k)
    (hp : i.hdl.properties.items[k]? = some p)
    (hdata : HasData i.hdl.hdr (setData c.value c.type) p.data) : c.IsSet i := by
  obtain ⟨heq, hnull⟩ | ⟨v, hv, hnull, heq⟩ := setData_typed htyped
  · rw [heq] at hdata
    refine ⟨k, p, hlocate, hp, hdata.type, ?_, fun h => absurd (hnull.symm.trans h) (by simp)⟩
    rw [hnull]
    exact hdata.state
  · rw [heq] at hdata
    refine ⟨k, p, hlocate, hp, hdata.type, ?_, fun _ v' hv' => ?_⟩
    · rw [hnull]
      exact hdata.state
    · rw [← Option.some.inj (hv.symm.trans hv')]
      exact hdata.value (Bool.eq_false_iff.mpr not_isNull_zero)

/-- What `setProperty` makes of the return code. -/
theorem setProperty_takes (htakes : i.Takes c.name) :
    setProperty i c.name c.value c.type =
      (addObjectPropertyH i.hdl.store c.name (setData c.value c.type) none).bind fun r =>
        (if i.flags c.name then clInstanceFilterFlagProperty
            { i.hdl with hdr := r.1.hdr, properties := r.1.properties } (r.2 - 1)
          else some { i.hdl with hdr := r.1.hdr, properties := r.1.properties }).map fun inst =>
            ({ i with hdl := inst }, if r.2 < 0 then -r.2 else 0) := by
  unfold NativeInstance.Takes at htakes
  unfold setProperty clInstanceAddProperty
  rw [if_pos htakes]
  cases addObjectPropertyH i.hdl.store c.name (setData c.value c.type) none with
  | none => rfl
  | some r =>
    unfold NativeInstance.flags
    simp only [Option.map_some, Option.bind_eq_bind, Option.bind_some]
    split
    · cases clInstanceFilterFlagProperty _ _ <;> rfl
    · rfl

/-- The flag of the property that was set. -/
theorem clInstanceFilterFlagProperty_eq {inst : ClInstance} {k : Nat} {p : ClProperty}
    (hp : inst.properties.items[k]? = some p) :
    clInstanceFilterFlagProperty inst (((k + 1 : Nat) : Int) - 1) =
      some { inst with properties := { inst.properties with
        items := inst.properties.items.set k { p with flags := p.flags ||| filteredFlag } } } := by
  have hk : ((k + 1 : Nat) : Int) - 1 = (k : Int) := by omega
  unfold clInstanceFilterFlagProperty
  rw [hk, if_neg (by omega), Int.toNat_natCast, hp]

/-- A call without an error, and one with an error. -/
theorem setProperty_returns (h : Legible i.hdl.store) (hname : 0 ∉ c.name)
    (htyped : c.typed = true) (htakes : i.Takes c.name) (hregular : c.Regular i)
    {o : PropertyStore}
    (hadd : addObjectPropertyH i.hdl.store c.name (setData c.value c.type) none = some (o, rc)) :
    (∃ p, c.call.located i.hdl.store = some p ∧ p.refuses i.hdl.hdr c.call.d = true ∧
      setProperty i c.name c.value c.type =
        if i.flags c.name then none else some (i, typeMismatch)) ∨
    ∃ i', setProperty i c.name c.value c.type = some (i', 0) ∧ c.IsSet i' := by
  rw [setProperty_takes htakes, hadd, Option.bind_some]
  obtain ⟨rfl, p, hlocated, hrefuses, hrc⟩ | ⟨k, p, rfl, hlocate, hp, hdata⟩ :=
    addObjectPropertyH_hasData h hname (setData_shaped htyped)
      (by rw [setData_type]; exact storedType_ne_string) hregular.stores hadd
  · obtain rfl : rc = -typeMismatch := hrc.resolve_right fun hinst =>
      absurd (hrefuses.symm.trans (hregular.embedded p hlocated hinst)) (by simp)
    refine Or.inl ⟨p, hlocated, hrefuses, ?_⟩
    cases i.flags c.name <;> rfl
  · refine Or.inr ?_
    rw [if_neg (show ¬ ((k + 1 : Nat) : Int) < 0 by omega)]
    split
    · rw [clInstanceFilterFlagProperty_eq hp]
      obtain ⟨hlt, -⟩ := List.getElem?_eq_some_iff.mp hp
      refine ⟨_, rfl, SetCall.isSet_of htyped ?_ (List.getElem?_set_self hlt) hdata⟩
      show locateProperty o.hdr (o.properties.items.set k { p with flags := _ }) c.name = some k
      rw [← hlocate, locateProperty_ids, locateProperty_ids]
      exact congrArg _ (map_set_same (f := ClProperty.id) hp rfl)
    · exact ⟨_, rfl, SetCall.isSet_of htyped hlocate hp hdata⟩

/-- A name that the filter does not take is ignored, without an error. For the others, where
no embedded instance refuses a value and no pointer is kept: the call returns if there is
room, it returns an error if and only if the value was not stored, and after an error the
instance is as it was. -/
theorem setProperty_contract (h : Legible i.hdl.store) (hname : 0 ∉ c.name)
    (htyped : c.typed = true) :
    (¬ i.Takes c.name → setProperty i c.name c.value c.type = some (i, 0)) ∧
    (i.Takes c.name → c.Regular i →
      ((∃ strs arrs, WellFormed i.hdl.store strs arrs) →
        c.call.HasRoomIn i.hdl.store (c.call.located i.hdl.store) →
        (i.flags c.name = true → ∀ p, c.call.located i.hdl.store = some p →
          p.refuses i.hdl.hdr c.call.d = false) →
        ∃ i' rc, setProperty i c.name c.value c.type = some (i', rc)) ∧
      ∀ i' rc, setProperty i c.name c.value c.type = some (i', rc) →
        (rc = 0 → c.IsSet i') ∧ (rc ≠ 0 → i' = i) ∧ (¬ c.IsSet i → (rc ≠ 0 ↔ ¬ c.IsSet i'))) := by
  refine ⟨fun hnot => if_neg hnot, fun htakes hregular => ⟨fun hwell hroom hflags => ?_, ?_⟩⟩
  · obtain ⟨strs, arrs, hwell⟩ := hwell
    obtain ⟨o, rc, -, -, hadd, -⟩ := @addObjectPropertyH_wellFormed i.hdl.store strs arrs hwell
      c.call (setData_shaped htyped) ⟨hregular.stores, hroom⟩
    obtain ⟨p, hlocated, hrefuses, heq⟩ | ⟨i', heq, -⟩ :=
      setProperty_returns h hname htyped htakes hregular hadd
    · refine ⟨i, typeMismatch, heq.trans (if_neg fun hflagged => ?_)⟩
      exact absurd (hrefuses.symm.trans (hflags hflagged p hlocated)) (by simp)
    · exact ⟨i', 0, heq⟩
  · intro i' rc hset
    have hadd := hset
    rw [setProperty_takes htakes] at hadd
    obtain ⟨⟨o, rc'⟩, hadd, -⟩ := Option.bind_eq_some_iff.mp hadd
    have hcontract : (rc = 0 ∧ c.IsSet i') ∨ (rc ≠ 0 ∧ i' = i) := by
      obtain ⟨p, -, -, heq⟩ | ⟨i'', heq, hisset⟩ :=
        setProperty_returns h hname htyped htakes hregular hadd
      · rw [heq] at hset
        split at hset
        · exact absurd hset (by simp)
        · cases hset
          exact Or.inr ⟨by decide, rfl⟩
      · cases heq.symm.trans hset
        exact Or.inl ⟨rfl, hisset⟩
    obtain ⟨hok, hisset⟩ | ⟨herror, rfl⟩ := hcontract
    · exact ⟨fun _ => hisset, fun hne => absurd hok hne,
        fun _ => iff_of_false (fun hne => hne hok) (fun hnot => hnot hisset)⟩
    · exact ⟨fun hok => absurd hok herror, fun _ => rfl, fun hnot => iff_of_true herror hnot⟩

/-! ## Runs -/

theorem setProperty_legible (h : Legible i.hdl.store) (hname : 0 ∉ c.name)
    (htyped : c.typed = true) (hset : setProperty i c.name c.value c.type = some (i', rc)) :
    Legible i'.hdl.store := by
  by_cases htakes : i.Takes c.name
  · rw [setProperty_takes htakes] at hset
    obtain ⟨⟨o, rc'⟩, hadd, hset⟩ := Option.bind_eq_some_iff.mp hset
    have ho := h.add hname (setData_shaped htyped) hadd
    obtain ⟨inst, hinst, heq⟩ := Option.map_eq_some_iff.mp hset
    cases heq
    split at hinst
    · -- a flag is not what is looked at
      unfold clInstanceFilterFlagProperty at hinst
      split at hinst
      · exact absurd hinst (by simp)
      split at hinst
      · exact absurd hinst (by simp)
      · next p hp =>
        cases hinst
        exact ho.flag hp
    · cases hinst
      exact ho
  · cases (if_neg htakes : setProperty i c.name c.value c.type = _).symm.trans hset
    exact h

theorem newInstance_legible {ns cn : Option CStr} (h : newInstance ns cn = some i) :
    Legible i.hdl.store := by
  have hnone : i.hdl.properties.items = [] := by
    obtain ⟨inst, hinst, rfl⟩ := Option.map_eq_some_iff.mp h
    unfold newInstanceH at hinst
    simp only [Option.bind_eq_bind, Option.bind_eq_some_iff] at hinst
    obtain ⟨⟨hdr₁, id₁⟩, -, ⟨hdr₂, id₂⟩, -, heq⟩ := hinst
    rw [← Option.some.inj heq]
    rfl
  have hstore : i.hdl.store.properties.items = [] := hnone
  refine ⟨fun p hp => ?_, fun p hp => ?_⟩ <;>
  · rw [hstore] at hp
    exact absurd hp List.not_mem_nil

/-- An instance that was made by setting properties is legible, with errors or without. -/
theorem runSets_legible {calls : List SetCall} (h : Legible i.hdl.store)
    (hcalls : ∀ c ∈ calls, 0 ∉ c.name ∧ c.typed = true) (hrun : runSets i calls = some i') :
    Legible i'.hdl.store := by
  induction calls generalizing i with
  | nil =>
    cases hrun
    exact h
  | cons c calls ih =>
    obtain ⟨⟨i₁, rc⟩, hset, hrest⟩ := Option.bind_eq_some_iff.mp hrun
    obtain ⟨hname, htyped⟩ := hcalls c List.mem_cons_self
    exact ih (setProperty_legible h hname htyped hset)
      (fun c hc => hcalls c (List.mem_cons_of_mem _ hc)) hrest

end Calling

/-- An instance with a text. -/
def namedInstance : Option NativeInstance :=
  (newInstance (some (lit "root")) (some (lit "C"))).bind fun i =>
    runSets i [⟨lit "Name", some (.text (lit "a")), CMPIBase.string.simple⟩]

/-- A number in its place is an error, and changes nothing. -/
theorem setProperty_contract_mismatch : ∃ i, namedInstance = some i ∧
    setProperty i (lit "Name") (some (.word 7)) CMPIBase.uint32.simple = some (i, typeMismatch) := by
  let c : SetCall := ⟨lit "Name", some (.word 7), CMPIBase.uint32.simple⟩
  obtain ⟨i, hi, hrc, hstores, hembedded⟩ : ∃ i, namedInstance = some i ∧
      (setProperty i c.name c.value c.type).map Prod.snd = some typeMismatch ∧
      c.call.misstores i.hdl.store = false ∧
      (c.call.located i.hdl.store).all (fun p => p.data.type ≠ CMPIBase.inst.simple) = true := by
    obtain ⟨i, hi⟩ := Option.isSome_iff_exists.mp (show namedInstance.isSome = true by decide)
    have hall : namedInstance.all (fun i =>
        (setProperty i c.name c.value c.type).map Prod.snd = some typeMismatch ∧
        c.call.misstores i.hdl.store = false ∧
        (c.call.located i.hdl.store).all (fun p => p.data.type ≠ CMPIBase.inst.simple) = true) =
      true := by decide
    rw [hi] at hall
    exact ⟨i, hi, of_decide_eq_true hall⟩
  obtain ⟨i₀, hnew, hrun⟩ := Option.bind_eq_some_iff.mp hi
  have hlegible : Legible i.hdl.store := runSets_legible (newInstance_legible hnew) (by decide) hrun
  obtain ⟨⟨i', rc⟩, hset, hsnd⟩ := Option.map_eq_some_iff.mp hrc
  obtain rfl : rc = typeMismatch := hsnd
  have htakes : i.Takes c.name := by
    have hall : namedInstance.all (fun i => i.Takes c.name) = true := by decide
    rw [hi] at hall
    exact of_decide_eq_true hall
  have hregular : c.Regular i := by
    refine ⟨hstores, fun p hp htype => ?_⟩
    rw [hp] at hembedded
    exact absurd htype (of_decide_eq_true hembedded)
  obtain ⟨-, hcontract⟩ := setProperty_contract hlegible (c := c) (by decide) (by decide)
  obtain ⟨-, hreturns⟩ := hcontract htakes hregular
  obtain ⟨-, hsame, -⟩ := hreturns i' typeMismatch hset
  obtain rfl := hsame (by decide)
  exact ⟨i', hi, hset⟩

/-- A name that is not in the list is ignored without an error. -/
theorem not_setProperty_contract : ∃ i, newInstance (some (lit "root")) (some (lit "C")) = some i ∧
    let i := { i with filtered := true, propertyList := some [lit "Name"] }
    let c : SetCall := ⟨lit "Size", some (.word 7), CMPIBase.uint32.simple⟩
    c.typed = true ∧ setProperty i c.name c.value c.type = some (i, 0) ∧ ¬ c.IsSet i := by
  have hall : (newInstance (some (lit "root")) (some (lit "C"))).all (fun i =>
      setProperty { i with filtered := true, propertyList := some [lit "Name"] } (lit "Size")
          (some (.word 7)) CMPIBase.uint32.simple =
        some ({ i with filtered := true, propertyList := some [lit "Name"] }, 0) ∧
      locateProperty i.hdl.hdr i.hdl.properties.items (lit "Size") = none) = true := by decide
  obtain ⟨i, hi⟩ := Option.isSome_iff_exists.mp
    (show (newInstance (some (lit "root")) (some (lit "C"))).isSome = true by decide)
  rw [hi] at hall
  obtain ⟨hset, hlocate⟩ := of_decide_eq_true hall
  refine ⟨i, hi, by decide, hset, ?_⟩
  intro ⟨k, p, hk, _⟩
  exact absurd (hlocate.symm.trans hk) (by simp)

end Sfcb.Object
