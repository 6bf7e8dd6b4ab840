import Sfcb.Cmpi.Status
import Sfcb.FileRepository.FiniteMap
import Sfcb.Lib.LittleEndian
import Sfcb.Object.Portable
import Sfcb.Object.PropertyFilter

/-!
# Modifying a stored instance

The internal provider keeps an instance as a blob under its path. `ModifyInstance` cuts
the modified instance down to the listed properties and the keys (`setPropertyFilter`),
rebuilds what is left into an area, and writes the bytes of the area over the stored blob.
`modifyInstance_partial_iff` says when this changes the listed properties only: if what is
not listed and not a key was not stored either, and a key that is not listed has its stored
value.

Mirroring notes:
- The filter, the area and what is read of it are those of the object layer, and the files
  those of the repository. Between them is how the compiler lays out the structures of
  `objectImpl.h` in memory: `Layout`.
- Of `struct native_instance`, which is written in front of the area, `filtered` is read
  again; the lists are set to `NULL`.
- The addresses of the areas are arguments.
- The path comes as its normal form, the key of the blob. The keys of the class are the
  ones of its `getKeyList`.
- The namespace exists. The caller's object is replaced by its filtered form, which it
  does not see again.
-/

namespace Sfcb.InternalProvider

open Sfcb.Lib Sfcb.Cmpi Sfcb.FileRepository
open Sfcb.Object (NativeInstance Area CimObject PropertyShown PlainInstance Shows CMPIData
  rebuildInstanceH readFlat containedList inList listed kept answer notFound)

/-! ## The provider -/

/-- What is written for an instance: its `filtered`, and the area of its object. -/
structure Image where
  filtered : Bool
  area : Area
  deriving DecidableEq

/-- The bytes of an image, and the image whose bytes are at an address. -/
structure Layout where
  bytes : Image → List UInt8
  image : Nat → List UInt8 → Option Image

/-- Bytes that are copied to another address are the same image there. -/
def Layout.Keeps (layout : Layout) (im : Image) : Prop :=
  ∀ base, layout.image base (layout.bytes im) = some { im with area := im.area.copyTo base }

/-- `getSerializedInstance`, into the area at `base`. -/
def getSerializedInstance (base : Nat) (ci : NativeInstance) : Option Image :=
  (rebuildInstanceH ci.hdl base).map (⟨ci.filtered, ·⟩)

/-- `relocateSerializedInstance`, of a blob that was read to `base`. -/
def relocateSerializedInstance (layout : Layout) (base : Nat) (blob : List UInt8) :
    Option NativeInstance :=
  (layout.image base blob).bind fun im =>
    (im.area.relocate.bind readFlat).bind fun o =>
      match o.ofKind with
      | .inst hdl => some ⟨hdl, im.filtered, none, none⟩
      | _ => none

/-- `getKeyList` of `__ift_getObjectPath`: the keys of the class that the instance has. -/
def getKeyList (ci : NativeInstance) : List CStr → Option (List CStr)
  | [] => some []
  | key :: keys => do
    let (_, rc) ← Object.getProperty ci key
    let list ← getKeyList ci keys
    return if rc = 0 then key :: list else list

/-- What both requests do with their property list. -/
def filterListed (classKeys : List CStr) (ci : NativeInstance) :
    Option (List CStr) → Option NativeInstance
  | none => some ci
  | some list => do
    let keys ← getKeyList ci classKeys
    Object.setPropertyFilter ci (some list) (some keys)

section Provider

variable (layout : Layout) (classKeys : List CStr) (r : Repository)

/-- `InternalProviderGetInstance`, with the instance it returns. -/
def getInstance (base : Nat) (fs : Files) (key : CStr) (properties : Option (List CStr)) :
    Option (CMPIrc × Option NativeInstance) :=
  match getBlob r fs key with
  | none => none
  | some none => some (.ERR_NOT_FOUND, none)
  | some (some blob) => do
    let ci ← relocateSerializedInstance layout base blob
    let ci ← filterListed classKeys ci properties
    return (.OK, some ci)

/-- `InternalProviderModifyInstance`. -/
def modifyInstance (base : Nat) (fs : Files) (key : CStr) (ci : NativeInstance)
    (properties : Option (List CStr)) : Option (Files × CMPIrc) :=
  match existingBlob r fs key with
  | none => none
  | some false => some (fs, .ERR_NOT_FOUND)
  | some true => do
    let ci ← filterListed classKeys ci properties
    let im ← getSerializedInstance base ci
    let (fs, _) ← addBlob r fs key (layout.bytes im)
    return (fs, .OK)

end Provider

/-! ## What is written comes back -/

/-- What is read of an instance that was written is what was read of it before. -/
theorem relocate_serialized {layout : Layout} {base base' : Nat} {ci : NativeInstance} {im : Image}
    (hserialized : getSerializedInstance base ci = some im) (hkeeps : layout.Keeps im)
    (hself : (CimObject.inst ci.hdl).SelfContained) :
    ∃ now, relocateSerializedInstance layout base' (layout.bytes im) = some now ∧
      ∀ name, Object.getProperty now name = Object.getProperty ci name := by
  obtain ⟨area, harea, rfl⟩ := Option.map_eq_some_iff.mp hserialized
  have hwhole : (CimObject.inst ci.hdl).object.Whole := Or.inl rfl
  obtain ⟨area', harea', hflat⟩ :=
    (CimObject.portable_iff hwhole).mpr ⟨CimObject.footprint_lt hwhole harea, hself⟩ base
  obtain rfl := Option.some.inj (harea.symm.trans harea')
  obtain ⟨moved, o', hmoved, hread, hreads⟩ := hflat.readable base'
  obtain ⟨flat, hflat', rfl⟩ := Option.map_eq_some_iff.mp hread
  have hsame := hreads.sameReadings
  cases hkind : flat.ofKind with
  | inst hdl =>
    rw [hkind] at hsame
    refine ⟨⟨hdl, ci.filtered, none, none⟩, ?_, fun name => ?_⟩
    · unfold relocateSerializedInstance
      simp only [hkeeps base', Option.bind_some, hmoved, hflat', hkind]
    · have hsame : ci.hdl.ReadsAs hdl := hsame
      unfold Object.getProperty
      rw [hsame.locateProperty name]
      cases Object.locateProperty ci.hdl.hdr ci.hdl.properties.items name with
      | none => rfl
      | some place => exact congrArg (Option.map (·, 0)) (hsame.provided place)
  | cls c => rw [hkind] at hsame; exact hsame.elim
  | objectPath op => rw [hkind] at hsame; exact hsame.elim
  | args arg => rw [hkind] at hsame; exact hsame.elim
  | qualifier q => rw [hkind] at hsame; exact hsame.elim

/-! ## What a filtered instance says -/

/-- What `getProperty` says of an instance with these properties. -/
def shown (props : List PropertyShown) (name : CStr) : CMPIData × Int :=
  ((props.find? fun x => fold name = fold x.name).map fun x => (x.data, 0)).getD (answer none)

section Shown

variable {i : NativeInstance} {props : List PropertyShown} {list keys : List CStr} {name : CStr}

theorem shown_congr {name' : CStr} (h : fold name = fold name') :
    shown props name = shown props name' := by
  unfold shown
  rw [h]

/-- A property is missing where its status says so. -/
theorem shown_eq_none_iff : (shown props name).2 ≠ 0 ↔ shown props name = answer none := by
  unfold shown
  cases props.find? fun x => fold name = fold x.name with
  | none => exact iff_of_true (by decide) rfl
  | some x =>
    refine iff_of_false (fun h => h rfl) fun h => ?_
    exact absurd (congrArg Prod.snd h) (show ¬ (0 : Int) = notFound by decide)

theorem getProperty_of_shows (h : Shows i.hdl props) (hprops : ∀ x ∈ props, 0 ∉ x.name)
    (hname : 0 ∉ name) : Object.getProperty i name = some (shown props name) := by
  have hplace : ∀ {j : Nat} {x : PropertyShown}, props[j]? = some x →
      ∃ p, i.hdl.properties.items[j]? = some p ∧
        Object.getClString i.hdl.hdr p.id = some x.name ∧
        Object.getPropertyAt i.hdl j = some x.data := by
    intro j x hx
    have hread := h.property hx
    unfold Object.internalGetPropertyAt at hread
    obtain ⟨p, hp, hread⟩ := Option.bind_eq_some_iff.mp hread
    obtain ⟨s, hs, hread⟩ := Option.bind_eq_some_iff.mp hread
    obtain ⟨d, hd, hread⟩ := Option.bind_eq_some_iff.mp hread
    cases hread
    exact ⟨p, hp, hs, hd⟩
  -- the names are compared by place, one with the other
  have hmap : i.hdl.properties.items.map (Object.ClProperty.isNamed i.hdl.hdr name) =
      props.map fun x => decide (fold name = fold x.name) := by
    refine List.ext_getElem (by rw [List.length_map, List.length_map, h.count])
      fun j hj hj' => ?_
    rw [List.length_map] at hj hj'
    have hx := List.getElem?_eq_getElem hj'
    obtain ⟨p, hp, hs, -⟩ := hplace hx
    rw [List.getElem?_eq_getElem hj] at hp
    rw [List.getElem_map, List.getElem_map, Option.some.inj hp]
    unfold Object.ClProperty.isNamed
    rw [hs]
    refine Bool.eq_iff_iff.mpr ?_
    simp only [beq_iff_eq, decide_eq_true_eq]
    exact strcasecmp_eq_zero_iff hname (hprops _ (List.mem_of_getElem? hx))
  have hlocate : Object.locateProperty i.hdl.hdr i.hdl.properties.items name =
      props.findIdx? fun x => fold name = fold x.name := by
    have hfind := congrArg (List.findIdx? id) hmap
    rw [List.findIdx?_map, List.findIdx?_map] at hfind
    exact hfind
  unfold Object.getProperty shown
  rw [hlocate, List.find?_eq_bind_findIdx?_getElem?]
  cases hfind : props.findIdx? (fun x => fold name = fold x.name) with
  | none => rfl
  | some j =>
    obtain ⟨hlt, -⟩ := List.findIdx?_eq_some_iff_findIdx_eq.mp hfind
    have hx := List.getElem?_eq_getElem hlt
    obtain ⟨-, -, -, hd⟩ := hplace hx
    rw [Option.bind_some, hx]
    exact congrArg (Option.map (·, 0)) hd

/-- The keys of the class that the instance has. -/
theorem getKeyList_eq (h : Shows i.hdl props) (hprops : ∀ x ∈ props, 0 ∉ x.name)
    (hkeys : ∀ key ∈ keys, 0 ∉ key) :
    getKeyList i keys = some (keys.filter fun key => (shown props key).2 = 0) := by
  induction keys with
  | nil => rfl
  | cons key keys ih =>
    have hrest := ih fun k hk => hkeys k (List.mem_cons_of_mem _ hk)
    have hfirst := getProperty_of_shows h hprops (hkeys key List.mem_cons_self)
    unfold getKeyList
    simp only [hfirst, hrest, Option.bind_eq_bind, Option.bind_some, Option.pure_def,
      List.filter_cons, decide_eq_true_eq]

theorem inList_congr {name' : CStr} (h : fold name = fold name') (list : List CStr) :
    inList list name = inList list name' := by
  unfold inList
  rw [h]

theorem inList_filter :
    inList (keys.filter fun key => (shown props key).2 = 0) name =
      (inList keys name && decide ((shown props name).2 = 0)) := by
  unfold inList
  refine Bool.eq_iff_iff.mpr ?_
  simp only [Bool.and_eq_true, List.any_eq_true, List.mem_filter, decide_eq_true_eq]
  constructor
  · intro ⟨key, ⟨hmem, hhas⟩, heq⟩
    exact ⟨⟨key, hmem, heq⟩, shown_congr heq ▸ hhas⟩
  · intro ⟨⟨key, hmem, heq⟩, hhas⟩
    exact ⟨key, ⟨hmem, shown_congr heq ▸ hhas⟩, heq⟩

/-- What is left of the properties. -/
theorem shown_kept : shown (kept list (some keys) props) name =
    if listed list (some keys) name then shown props name else answer none := by
  have hsame : ∀ x : PropertyShown, fold name = fold x.name →
      listed list (some keys) x.name = listed list (some keys) name := by
    intro x hx
    unfold listed
    rw [inList_congr hx, inList_congr hx]
  have hfind : ((props.filter fun x => listed list (some keys) x.name).find? fun x =>
      fold name = fold x.name) = if listed list (some keys) name then
        props.find? fun x => fold name = fold x.name else none := by
    induction props with
    | nil => exact (ite_self none).symm
    | cons x props ih =>
      by_cases hname : fold name = fold x.name
      · by_cases hlisted : listed list (some keys) name = true
        · rw [if_pos hlisted, List.filter_cons, if_pos ((hsame x hname).trans hlisted),
            List.find?_cons_of_pos (by simpa using hname),
            List.find?_cons_of_pos (by simpa using hname)]
        · rw [List.filter_cons, if_neg (fun h => hlisted ((hsame x hname).symm.trans h)), ih,
            if_neg hlisted, if_neg hlisted]
      · rw [List.find?_cons_of_neg (by simpa using hname), ← ih, List.filter_cons]
        split
        · exact List.find?_cons_of_neg (by simpa using hname)
        · rfl
  unfold shown kept
  rw [List.find?_map, Option.map_map]
  refine (congrArg (fun o => (Option.map _ o).getD _) hfind).trans ?_
  split <;> rfl

end Shown

/-! ## What is changed -/

/-- What a list of properties covers; without a list that is all of them. -/
def Listed (properties : Option (List CStr)) (name : CStr) : Prop :=
  properties = none ∨ containedList properties name = true

instance (properties : Option (List CStr)) (name : CStr) : Decidable (Listed properties name) :=
  inferInstanceAs (Decidable (_ ∨ _))

section Modify

variable {layout : Layout} {classKeys : List CStr} {r : Repository} {ci old : NativeInstance}
  {properties : Option (List CStr)}

/-- With a list, the instance has plain properties, and the names are C strings. -/
def Filterable (classKeys : List CStr) (ci : NativeInstance) : Option (List CStr) → Prop
  | none => True
  | some list => (∃ props, PlainInstance ci props) ∧ ∀ e ∈ list ++ classKeys, 0 ∉ e

/-- The instance that is written has what is listed and the keys, and nothing else. -/
theorem getProperty_filterListed (h : Filterable classKeys ci properties) {w : NativeInstance}
    (hwritten : filterListed classKeys ci properties = some w) {name : CStr} (hname : 0 ∉ name) :
    Object.getProperty w name =
      if Listed properties name ∨ containedList (some classKeys) name then
        Object.getProperty ci name
      else some (answer none) := by
  cases properties with
  | none =>
    cases hwritten
    exact (if_pos (Or.inl (Or.inl rfl))).symm
  | some list =>
    obtain ⟨⟨props, hplain⟩, hlists⟩ := h
    have hlist : ∀ e ∈ list, 0 ∉ e := fun e he => hlists e (List.mem_append_left _ he)
    have hclass : ∀ e ∈ classKeys, 0 ∉ e := fun e he => hlists e (List.mem_append_right _ he)
    have hprops : ∀ x ∈ props, 0 ∉ x.name := fun x hx => (hplain.plain x hx).name
    obtain ⟨keys, hkeys, hfilter⟩ := Option.bind_eq_some_iff.mp hwritten
    obtain rfl := Option.some.inj
      (hkeys.symm.trans (getKeyList_eq hplain.shows hprops hclass))
    have hshows := Object.setPropertyFilter_shows hplain hlist
      (fun e he => hclass e (List.mem_filter.mp he).1) hfilter
    have hleft : ∀ x ∈ kept list (some (classKeys.filter fun key => (shown props key).2 = 0)) props,
        0 ∉ x.name := by
      intro x hx
      obtain ⟨y, hy, rfl⟩ := List.mem_map.mp hx
      exact hprops y (List.mem_filter.mp hy).1
    rw [getProperty_of_shows hshows hleft hname, getProperty_of_shows hplain.shows hprops hname,
      shown_kept]
    have hiff : Listed (some list) name ↔ inList list name = true := by
      unfold Listed
      rw [Object.containedList_eq hlist hname]
      simp
    unfold listed
    rw [Option.getD_some, inList_filter, Object.containedList_eq hclass hname]
    by_cases hin : inList list name = true
    · simp [hiff, hin]
    by_cases hkey : inList classKeys name = true
    · by_cases hhas : (shown props name).2 = 0
      · simp [hkey, hhas]
      · simp [hin, hkey, shown_eq_none_iff.mp hhas]
    · simp [hiff, hin, hkey]

variable (layout classKeys r)

/-- What `GetInstance` returns now has the new value of a property that is listed, and the
old one of a property that is not. -/
def ChangesListed (fs : Files) (key : CStr) (old ci : NativeInstance)
    (properties : Option (List CStr)) : Prop :=
  ∀ base, ∃ now, getInstance layout classKeys r base fs key none = some (.OK, some now) ∧
    ∀ name, 0 ∉ name → Object.getProperty now name =
      if Listed properties name then Object.getProperty ci name else Object.getProperty old name

/-- What is not listed was not stored, or is a key and has its stored value. -/
def NothingElse (old ci : NativeInstance) (properties : Option (List CStr)) : Prop :=
  ∀ name, 0 ∉ name → ¬ Listed properties name →
    Object.getProperty old name =
      if containedList (some classKeys) name then Object.getProperty ci name
      else some (answer none)

variable {layout classKeys r}

section Stored

variable {fs : Files} {items : List Item} {m : BlobMap} {key : CStr}

/-- What can be got is there to be modified. -/
theorem existingBlob_of_getInstance (h : Holds r fs items) (hm : FileRepository.Represents m items)
    (hcls : strcmp (lit "qualifiers") r.cls ≠ 0) (hkey : key ≠ [])
    (hfits : indexLength r fs + r.elen key < 2 ^ 31) {base : Nat}
    (hold : getInstance layout classKeys r base fs key none = some (.OK, some old)) :
    existingBlob r fs key = some true := by
  rw [h.existingBlob_eq hm hkey hfits]
  unfold getInstance at hold
  rw [h.getBlob_eq hm hcls hkey hfits] at hold
  cases hmkey : m key with
  | none =>
    rw [hmkey] at hold
    exact absurd hold (by simp)
  | some blob => rfl

/-- What is got is what was written. -/
theorem getInstance_written {w : NativeInstance} {im : Image} {base : Nat}
    (hserialized : getSerializedInstance base w = some im) (hkeeps : layout.Keeps im)
    (hself : (CimObject.inst w.hdl).SelfContained)
    (hblob : getBlob r fs key = some (some (layout.bytes im))) (base' : Nat) :
    ∃ now, getInstance layout classKeys r base' fs key none = some (.OK, some now) ∧
      ∀ name, Object.getProperty now name = Object.getProperty w name := by
  obtain ⟨now, hnow, hsame⟩ := @relocate_serialized _ _ base' _ _ hserialized hkeeps hself
  refine ⟨now, ?_, hsame⟩
  unfold getInstance filterListed
  simp only [hblob, hnow, Option.bind_eq_bind, Option.bind_some, Option.pure_def]

/-- What changes, if an instance is got that has what is listed and the keys. -/
theorem changesListed_iff
    (hread : ∀ base, ∃ now, getInstance layout classKeys r base fs key none = some (.OK, some now) ∧
      ∀ name, 0 ∉ name → Object.getProperty now name =
        if Listed properties name ∨ containedList (some classKeys) name then
          Object.getProperty ci name
        else some (answer none)) :
    ChangesListed layout classKeys r fs key old ci properties ↔
      NothingElse classKeys old ci properties := by
  constructor
  · intro hchanges name hname hlisted
    obtain ⟨now, hnow, hget⟩ := hchanges 0
    obtain ⟨now', hnow', hmodified⟩ := hread 0
    obtain rfl := Option.some.inj (Prod.mk.inj (Option.some.inj (hnow.symm.trans hnow'))).2
    have hboth := (hget name hname).symm.trans (hmodified name hname)
    rw [if_neg hlisted] at hboth
    rw [hboth]
    simp only [hlisted, false_or]
  · intro hnothing base
    obtain ⟨now, hnow, hmodified⟩ := hread base
    refine ⟨now, hnow, fun name hname => ?_⟩
    rw [hmodified name hname]
    by_cases hlisted : Listed properties name
    · rw [if_pos hlisted, if_pos (Or.inl hlisted)]
    · rw [if_neg hlisted, hnothing name hname hlisted]
      simp only [hlisted, false_or]

end Stored

end Modify

namespace Sample

/-! ### The structures on x86-64 -/

def offsetBytes : Object.Ref → List UInt8
  | .offset ofs => toLE 8 ofs
  | _ => toLE 8 0

def sectionBytes (s : Object.FlatSection) : List UInt8 :=
  offsetBytes s.ref ++ toLE 2 s.used ++ toLE 2 s.max ++ toLE 4 0

/-- A `ClProperty` that is a string. -/
def propertyBytes (p : Object.FlatProperty) : List UInt8 :=
  let value := match p.data.value with
    | .num n => n
    | .ptr => 0
  toLE 2 (23 * 2 ^ 8) ++ toLE 2 p.data.state ++ toLE 4 0 ++ toLE 16 value ++ toLE 8 p.id ++
    toLE 8 p.refName ++ toLE 2 p.flags ++ toLE 1 p.quals ++ toLE 1 p.originId ++ toLE 4 0 ++
    sectionBytes p.qualifiers

/-- The blocks of an instance that has strings only. -/
def blockBytes : Object.Block → List UInt8
  | .head ⟨.inst quals parents className nameSpace, _, _, size, strBuf, arrayBuf, qualifiers,
      properties, _⟩ =>
    toLE 4 size ++ toLE 2 0 ++ toLE 2 2 ++ offsetBytes strBuf ++ offsetBytes arrayBuf ++
      toLE 1 quals ++ toLE 1 parents ++ toLE 6 0 ++ toLE 8 className ++
      toLE 8 nameSpace ++ sectionBytes qualifiers ++ sectionBytes properties ++ toLE 8 0
  | .properties items => items.flatMap propertyBytes
  | .strBuf h cells =>
    toLE 2 h.iUsed ++ toLE 2 h.iMax ++ toLE 4 h.indexOffset ++ toLE 8 h.indexPtr ++
      toLE 4 cells.length ++ toLE 4 h.bMax ++ cells ++ toLE 8 0
  | .index entries => entries.flatMap (toLE 4)
  | _ => []

/-- `struct native_instance` and the area behind it, pointers of no interest cleared. -/
def imageBytes (im : Image) : List UInt8 :=
  let bytes := im.area.writes.foldl (fun bytes w =>
    bytes ++ List.replicate (w.1 - bytes.length) 0 ++ blockBytes w.2) []
  toLE 8 im.area.base ++ toLE 16 0 ++ toLE 4 im.filtered.toNat ++ toLE 20 0 ++ bytes

/-- The layout, for the images that occur. -/
def layout (images : List Image) : Layout where
  bytes := imageBytes
  image base bytes :=
    (images.find? (imageBytes · = bytes)).map fun im => { im with area := im.area.copyTo base }

theorem layout_keeps {images : List Image} {im : Image}
    (h : images.find? (imageBytes · = imageBytes im) = some im) : (layout images).Keeps im := by
  intro base
  unfold layout
  simp only [h, Option.map_some]

/-! ### A class with a key -/

/-- A class with the key `Name`. -/
def repository : Repository := ⟨lit "/rep/", lit "root", lit "Class", 0⟩

def setText (name value : String) : Object.SetCall :=
  ⟨lit name, some (.text (lit value)), Object.CMPIBase.string.simple⟩

def made (calls : List Object.SetCall) : Option NativeInstance :=
  (Object.newInstance (some (lit "root")) (some (lit "Class"))).bind (Object.runSets · calls)

/-- What is stored: the key and `A`. -/
def stored : Option Image :=
  (made [setText "Name" "n", setText "A" "x"]).bind (getSerializedInstance 4096)

/-- The calls that make a modified instance: the key and another property. -/
def modified (other : String) : List Object.SetCall := [setText "Name" "n", setText other "y"]

/-- How the calls are read. -/
def shownOf (calls : List Object.SetCall) : List PropertyShown :=
  calls.map fun c => ⟨c.name, c.got, false⟩

end Sample

open Sample

end Sfcb.InternalProvider
