import Sfcb.Object.IdDiscipline
import Sfcb.Object.Texts

/-!
# Names in the sections of a class

Before something is added to a section of a class, a loop looks for its name there
(`locateQualifier`, `ClClassLocateMethod`, `ClObjectLocateProperty`, `locateParameter`).
Three of the loops do their work: no section gets a name twice. The fourth compares
`i > prms->used` and never looks, so that a method gets a parameter as often as it is
added.

`UniqueNames` is the invariant, over all sections of a class at once (`ClClass.sections`).
One step makes every section of what was there (`ComesOf`), and so a run in which no
parameter is repeated keeps it (`reached_uniqueNames`).

The second half of the condition, that no value is written over a name, is about values
that are null and have a number nevertheless: with values that are what they say it holds
by itself (`shaped_overwritesName`).
-/

namespace Sfcb.Object

open Sfcb.Lib

/-! ## Sections -/

/-- The names of a section of qualifiers, by their ids. -/
def qualifierIds (s : ClSection ClQualifier) : List Nat := s.items.map (·.id)

def ClProperty.sections (p : ClProperty) : List (List Nat) := [qualifierIds p.qualifiers]

def ClParameter.sections (p : ClParameter) : List (List Nat) := [qualifierIds p.qualifiers]

def parameterIds (s : ClSection ClParameter) : List Nat := s.items.map (·.id)

def ClMethod.sections (m : ClMethod) : List (List Nat) :=
  qualifierIds m.qualifiers :: parameterIds m.parameters ::
    m.parameters.items.flatMap ClParameter.sections

def propertyIds (s : ClSection ClProperty) : List Nat := s.items.map (·.id)

def methodIds (s : ClSection ClMethod) : List Nat := s.items.map (·.id)

/-- The sections of a class and of what is in them. -/
def ClClass.sections (cls : ClClass) : List (List Nat) :=
  qualifierIds cls.qualifiers :: propertyIds cls.properties :: methodIds cls.methods ::
    (cls.properties.items.flatMap ClProperty.sections ++
      cls.methods.items.flatMap ClMethod.sections)

/-- The names of a section can be read, and no two are the same but for their case. -/
structure Distinct (hdr : ObjectHdr) (ids : List Nat) : Prop where
  named : ∀ id ∈ ids, ∃ s, HasText hdr id s
  distinct : ids.Pairwise fun a b =>
    ∀ s t, HasText hdr a s → HasText hdr b t → strcasecmp s t ≠ 0

/-- The names within each section are pairwise different. -/
def UniqueNames (cls : ClClass) : Prop := ∀ ids ∈ cls.sections, Distinct cls.hdr ids

/-! ## Operations -/

/-- The name that is added. -/
def ClassOp.name : ClassOp → CStr
  | .grandParent gp => gp
  | .qualifier id _ | .property id _ _ | .propertyQualifier _ id _ | .method id _
  | .methodQualifier _ id _ | .parameter _ id _ | .parameterQualifier _ _ id _ => id

/-- The section it is added to. -/
def ClassOp.target (cls : ClClass) : ClassOp → Option (List Nat)
  | .grandParent _ => none
  | .qualifier _ _ => some (qualifierIds cls.qualifiers)
  | .property _ _ _ => some (propertyIds cls.properties)
  | .propertyQualifier i _ _ => (cls.properties.items[i]?).map (qualifierIds ·.qualifiers)
  | .method _ _ => some (methodIds cls.methods)
  | .methodQualifier i _ _ => (cls.methods.items[i]?).map (qualifierIds ·.qualifiers)
  | .parameter i _ _ => (cls.methods.items[i]?).map (parameterIds ·.parameters)
  | .parameterQualifier i j _ _ =>
    (cls.methods.items[i]?).bind fun m =>
      (m.parameters.items[j]?).map (qualifierIds ·.qualifiers)

/-- The id is the one of that name. -/
def isNamed (hdr : ObjectHdr) (name : CStr) (id : Nat) : Bool :=
  (getClString hdr id).any fun s => strcasecmp name s == 0

/-- The section an operation adds to has the name already. -/
def ClassOp.repeats (cls : ClClass) (op : ClassOp) : Bool :=
  (op.target cls).any (·.any (isNamed cls.hdr op.name))

/-- A parameter is added under a name the method has. -/
def ClassOp.repeatsParameter (cls : ClClass) : ClassOp → Bool
  | .parameter i id cp => (ClassOp.parameter i id cp).repeats cls
  | _ => false

/-- The string that the value of a property is written over. -/
def ClassOp.overwrites (cls : ClClass) : ClassOp → Option Nat
  | .property id d _ =>
    ((locateProperty cls.hdr cls.properties.items id).bind (cls.properties.items[·]?)).bind
      (ClProperty.overwrites cls.hdr · d)
  | _ => none

/-- That string is a name. -/
def ClassOp.overwritesName (cls : ClClass) (op : ClassOp) : Bool :=
  (op.overwrites cls).any fun k => cls.sections.flatten.contains k

/-- The condition on a step. -/
structure ClassOp.Meets (cls : ClClass) (op : ClassOp) : Prop where
  parameter : op.repeatsParameter cls = false
  value : op.overwritesName cls = false

instance ClassOp.decidableMeets (cls : ClClass) (op : ClassOp) : Decidable (op.Meets cls) :=
  decidable_of_iff (op.repeatsParameter cls = false ∧ op.overwritesName cls = false)
    ⟨fun h => ⟨h.1, h.2⟩, fun h => ⟨h.parameter, h.value⟩⟩

/-- The classes that are built by steps that meet the condition; names are C strings. -/
inductive Reached : ClClass → Prop
  | new {cn pa : Option CStr} {cls : ClClass} (h : newClassH cn pa = some cls) : Reached cls
  | step {cls cls' : ClClass} {op : ClassOp} (h : Reached cls) (hname : 0 ∉ op.name)
      (hmeets : op.Meets cls) (hstep : cls.apply op = some cls') : Reached cls'

/-! ## Names that are looked for -/

section Locating

variable {hdr hdr' : ObjectHdr} {name : CStr}

theorem isNamed_iff {id : Nat} {s : CStr} (h : HasText hdr id s) :
    isNamed hdr name id = true ↔ strcasecmp name s = 0 := by
  unfold isNamed
  rw [h.getClString]
  simp

theorem locateQualifier_eq (qlfs : ClSection ClQualifier) :
    locateQualifier hdr qlfs.items name = (qualifierIds qlfs).findIdx? (isNamed hdr name) := by
  unfold locateQualifier qualifierIds
  rw [List.findIdx?_map]
  congr 1
  funext q
  unfold isNamed
  simp only [Function.comp]
  cases getClString hdr q.id <;> rfl

theorem locateMethod_eq (mths : ClSection ClMethod) :
    clClassLocateMethod hdr mths.items name = (methodIds mths).findIdx? (isNamed hdr name) := by
  unfold clClassLocateMethod methodIds
  rw [List.findIdx?_map]
  congr 1
  funext m
  unfold isNamed
  simp only [Function.comp]
  cases getClString hdr m.id <;> rfl

theorem locateProperty_eq (prps : ClSection ClProperty) :
    locateProperty hdr prps.items name = (propertyIds prps).findIdx? (isNamed hdr name) := by
  unfold locateProperty propertyIds
  rw [List.findIdx?_map]
  congr 1
  funext p
  unfold ClProperty.isNamed isNamed
  simp only [Function.comp]
  cases getClString hdr p.id <;> rfl

/-- A name that was not found is not there. -/
theorem ne_of_not_located {ids : List Nat} (h : ids.findIdx? (isNamed hdr name) = none) :
    ∀ id ∈ ids, ∀ s, HasText hdr id s → strcasecmp name s ≠ 0 := by
  intro id hid s hs hzero
  have hnot := List.findIdx?_eq_none_iff.mp h id hid
  rw [(isNamed_iff hs).mpr hzero] at hnot
  exact absurd hnot (by simp)

theorem not_located_of_any {ids : List Nat} (h : ids.any (isNamed hdr name) = true) :
    ∃ i, ids.findIdx? (isNamed hdr name) = some i := by
  cases hfind : ids.findIdx? (isNamed hdr name) with
  | some i => exact ⟨i, rfl⟩
  | none =>
    obtain ⟨id, hid, hnamed⟩ := List.any_eq_true.mp h
    have hnot := List.findIdx?_eq_none_iff.mp hfind id hid
    rw [hnamed] at hnot
    exact absurd hnot (by simp)

end Locating

/-! ## Sections after a step -/

/-- A section comes of the ones there were: it is new, or it is one of them, or a name that
was not in it was added, as the next string. -/
inductive ComesOf (hdr hdr' : ObjectHdr) (secs : List (List Nat)) : List Nat → Prop
  | new : ComesOf hdr hdr' secs []
  | old {ids : List Nat} (h : ids ∈ secs) : ComesOf hdr hdr' secs ids
  | grown {ids : List Nat} {n : Nat} {name : CStr} (h : ids ∈ secs) (hname : HasText hdr' n name)
      (hnext : n = IndexedBuf.used hdr.strBuf + 1)
      (hfresh : ∀ id ∈ ids, ∀ s, HasText hdr id s → strcasecmp name s ≠ 0) :
      ComesOf hdr hdr' secs (ids ++ [n])

section Steps

variable {hdr hdr' : ObjectHdr} {but : Option Nat} {secs : List (List Nat)}

theorem Distinct.keeps (hkeeps : KeepsTexts but hdr hdr') {ids : List Nat}
    (hbut : ∀ id ∈ ids, but ≠ some id) (h : Distinct hdr ids) : Distinct hdr' ids := by
  refine ⟨fun id hid => ?_, ?_⟩
  · obtain ⟨s, hs⟩ := h.named id hid
    exact ⟨s, hkeeps.texts id s (hbut id hid) hs⟩
  · refine h.distinct.imp_of_mem fun {a b} ha hb hab s t hs ht => ?_
    obtain ⟨s', hs'⟩ := h.named a ha
    obtain ⟨t', ht'⟩ := h.named b hb
    rw [hs.unique (hkeeps.texts a s' (hbut a ha) hs'), ht.unique (hkeeps.texts b t' (hbut b hb) ht')]
    exact hab s' t' hs' ht'

/-- A new name at the end of a section. -/
theorem Distinct.snoc {ids : List Nat} (h : Distinct hdr ids) {n : Nat} {name : CStr}
    (hname : HasText hdr n name)
    (hfresh : ∀ id ∈ ids, ∀ s, HasText hdr id s → strcasecmp name s ≠ 0) :
    Distinct hdr (ids ++ [n]) := by
  refine ⟨fun id hid => ?_, ?_⟩
  · rcases List.mem_append.mp hid with hid | hid
    · exact h.named id hid
    · rw [List.mem_singleton.mp hid]
      exact ⟨name, hname⟩
  · refine List.pairwise_append.mpr ⟨h.distinct, List.pairwise_singleton _ _, ?_⟩
    intro a ha b hb s t hs ht hzero
    rw [List.mem_singleton.mp hb] at ht
    rw [ht.unique hname] at hzero
    have hswap := strcmp_swap (s.map toLower) (name.map toLower)
    exact hfresh a ha s hs (hswap.trans (by
      rw [show strcmp (s.map toLower) (name.map toLower) = 0 from hzero]
      rfl))

/-- What comes of sections with different names has different names. -/
theorem ComesOf.distinct (h : ∀ ids ∈ secs, Distinct hdr ids)
    (hkeeps : KeepsTexts but hdr hdr') (hbut : ∀ ids ∈ secs, ∀ id ∈ ids, but ≠ some id)
    {ids : List Nat} (hids : ComesOf hdr hdr' secs ids) : Distinct hdr' ids := by
  cases hids with
  | new => exact ⟨fun id hid => absurd hid List.not_mem_nil, List.Pairwise.nil⟩
  | old hold => exact (h ids hold).keeps hkeeps (hbut ids hold)
  | grown hold hname _ hfresh =>
    refine ((h _ hold).keeps hkeeps (hbut _ hold)).snoc hname fun id hid s hs => ?_
    obtain ⟨s', hs'⟩ := (h _ hold).named id hid
    rw [hs.unique (hkeeps.texts id s' (hbut _ hold id hid) hs')]
    exact hfresh id hid s' hs'

/-- An item of a section was written. -/
theorem comesOf_set {α : Type} {items : List α} {f : α → List (List Nat)} {i : Nat} {a : α}
    (h : ∀ ids ∈ items.flatMap f, ComesOf hdr hdr' secs ids)
    (ha : ∀ ids ∈ f a, ComesOf hdr hdr' secs ids) :
    ∀ ids ∈ (items.set i a).flatMap f, ComesOf hdr hdr' secs ids := by
  intro ids hmem
  obtain ⟨x, hx, hids⟩ := List.mem_flatMap.mp hmem
  rcases List.mem_or_eq_of_mem_set hx with hold | rfl
  · exact h ids (List.mem_flatMap.mpr ⟨x, hold, hids⟩)
  · exact ha ids hids

/-- An item was added. -/
theorem comesOf_snoc {α : Type} {items : List α} {f : α → List (List Nat)} {a : α}
    (h : ∀ ids ∈ items.flatMap f, ComesOf hdr hdr' secs ids)
    (ha : ∀ ids ∈ f a, ComesOf hdr hdr' secs ids) :
    ∀ ids ∈ (items ++ [a]).flatMap f, ComesOf hdr hdr' secs ids := by
  intro ids hmem
  obtain ⟨x, hx, hids⟩ := List.mem_flatMap.mp hmem
  rcases List.mem_append.mp hx with hold | hnew
  · exact h ids (List.mem_flatMap.mpr ⟨x, hold, hids⟩)
  · rw [List.mem_singleton.mp hnew] at hids
    exact ha ids hids

end Steps

/-! ## The sections of a class, one kind at a time -/

section Class

variable {cls : ClClass}

/-- All sections come of those of `cls` if they do kind by kind. -/
theorem comesOf_sections {hdr : ObjectHdr} {cls' : ClClass}
    (hqualifiers : ComesOf cls.hdr hdr cls.sections (qualifierIds cls'.qualifiers))
    (hproperties : ComesOf cls.hdr hdr cls.sections (propertyIds cls'.properties))
    (hmethods : ComesOf cls.hdr hdr cls.sections (methodIds cls'.methods))
    (hinner : ∀ ids ∈ cls'.properties.items.flatMap ClProperty.sections,
      ComesOf cls.hdr hdr cls.sections ids)
    (hinner' : ∀ ids ∈ cls'.methods.items.flatMap ClMethod.sections,
      ComesOf cls.hdr hdr cls.sections ids) :
    ∀ ids ∈ cls'.sections, ComesOf cls.hdr hdr cls.sections ids := by
  intro ids hids
  unfold ClClass.sections at hids
  rcases List.mem_cons.mp hids with rfl | hids
  · exact hqualifiers
  rcases List.mem_cons.mp hids with rfl | hids
  · exact hproperties
  rcases List.mem_cons.mp hids with rfl | hids
  · exact hmethods
  rcases List.mem_append.mp hids with hids | hids
  · exact hinner ids hids
  · exact hinner' ids hids

theorem mem_sections_qualifiers (cls : ClClass) :
    qualifierIds cls.qualifiers ∈ cls.sections := by
  simp [ClClass.sections]

theorem mem_sections_properties (cls : ClClass) :
    propertyIds cls.properties ∈ cls.sections := by
  simp [ClClass.sections]

theorem mem_sections_methods (cls : ClClass) : methodIds cls.methods ∈ cls.sections := by
  simp [ClClass.sections]

theorem mem_sections_property {ids : List Nat}
    (h : ids ∈ cls.properties.items.flatMap ClProperty.sections) : ids ∈ cls.sections := by
  simp [ClClass.sections, h]

theorem mem_sections_method {ids : List Nat}
    (h : ids ∈ cls.methods.items.flatMap ClMethod.sections) : ids ∈ cls.sections := by
  simp [ClClass.sections, h]

end Class

/-! ## Steps -/

section Steps

variable {cls cls' : ClClass}

/-- What one step does: the texts stay but for one, and every section comes of one that
was there. -/
structure StepsTo (but : Option Nat) (cls cls' : ClClass) : Prop where
  keeps : KeepsTexts but cls.hdr cls'.hdr
  sections : ∀ ids ∈ cls'.sections, ComesOf cls.hdr cls'.hdr cls.sections ids

theorem comesOf_property (cls : ClClass) {hdr : ObjectHdr} :
    ∀ ids ∈ cls.properties.items.flatMap ClProperty.sections,
      ComesOf cls.hdr hdr cls.sections ids :=
  fun _ h => .old (mem_sections_property h)

theorem comesOf_method (cls : ClClass) {hdr : ObjectHdr} :
    ∀ ids ∈ cls.methods.items.flatMap ClMethod.sections, ComesOf cls.hdr hdr cls.sections ids :=
  fun _ h => .old (mem_sections_method h)

/-- A section of the ids of the items is the same when an item keeps its id. -/
theorem map_set_same {α β : Type} {items : List α} {f : α → β} {i : Nat} {a a' : α}
    (h : items[i]? = some a) (hf : f a' = f a) : (items.set i a').map f = items.map f := by
  obtain ⟨hi, rfl⟩ := List.getElem?_eq_some_iff.mp h
  rw [List.map_set, hf, ← @List.getElem_map _ _ f items i (by simpa using hi),
    List.set_getElem_self]

theorem storeQualifier_keeps {hdr hdr' : ObjectHdr} {d : CMPIData} {data : Stored}
    (h : storeQualifier hdr d = some (hdr', data)) : KeepsTexts none hdr hdr' := by
  unfold storeQualifier at h
  split at h
  · cases h
    exact KeepsTexts.refl _
  split at h
  · split at h
    · obtain ⟨x, hx, heq⟩ := Option.map_eq_some_iff.mp h
      cases heq
      exact addClString_keeps hx
    · exact absurd h (by simp)
  split at h
  · split at h
    · obtain ⟨x, hx, heq⟩ := Option.map_eq_some_iff.mp h
      cases heq
      exact addClArray_keeps hx
    · exact absurd h (by simp)
  · cases h
    exact KeepsTexts.refl _

/-- A qualifier is added to a section that does not have it. -/
theorem addClQualifier_spec {hdr hdr' : ObjectHdr} {qlfs qlfs' : ClSection ClQualifier}
    {id : CStr} {d : CMPIData} (hid : 0 ∉ id)
    (h : addClQualifier hdr qlfs id d = some (hdr', qlfs')) :
    KeepsTexts none hdr hdr' ∧ ∀ secs, qualifierIds qlfs ∈ secs →
      ComesOf hdr hdr' secs (qualifierIds qlfs') := by
  unfold addClQualifier at h
  cases hlocate : locateQualifier hdr qlfs.items id with
  | some i =>
    rw [hlocate] at h
    cases h
    exact ⟨KeepsTexts.refl _, fun secs hsecs => .old hsecs⟩
  | none =>
    rw [hlocate] at h
    obtain ⟨⟨hdr₁, n⟩, hname, h₁⟩ := Option.bind_eq_some_iff.mp h
    obtain ⟨⟨hdr₂, data⟩, hdata, h₂⟩ := Option.bind_eq_some_iff.mp h₁
    obtain ⟨qlfs₁, hpush, h₃⟩ := Option.bind_eq_some_iff.mp h₂
    cases h₃
    have hkeeps := storeQualifier_keeps hdata
    refine ⟨(addClString_keeps hname).trans hkeeps, fun secs hsecs => ?_⟩
    unfold qualifierIds
    rw [push_items hpush, List.map_append]
    rw [locateQualifier_eq] at hlocate
    exact .grown hsecs (hkeeps.texts n id (by simp) (addClString_hasText hname hid))
      (addClStringN_spec hname).2.2.1 (ne_of_not_located hlocate)

theorem addQualifierSpecial_spec {qlfs qlfs' : ClSection ClQualifier} {id : CStr} {d : CMPIData}
    (hid : 0 ∉ id) (h : clClassAddQualifierSpecial cls qlfs id d = some (cls', qlfs')) :
    ∃ quals hdr, cls' = { cls with hdr, quals } ∧ KeepsTexts none cls.hdr hdr ∧
      ∀ secs, qualifierIds qlfs ∈ secs → ComesOf cls.hdr hdr secs (qualifierIds qlfs') := by
  unfold clClassAddQualifierSpecial at h
  split at h
  · cases h
    exact ⟨_, cls.hdr, rfl, KeepsTexts.refl _, fun secs hsecs => .old hsecs⟩
  split at h
  · cases h
    exact ⟨_, cls.hdr, rfl, KeepsTexts.refl _, fun secs hsecs => .old hsecs⟩
  split at h
  · cases h
    exact ⟨_, cls.hdr, rfl, KeepsTexts.refl _, fun secs hsecs => .old hsecs⟩
  · obtain ⟨⟨hdr, qlfs₁⟩, hadd, heq⟩ := Option.map_eq_some_iff.mp h
    cases heq
    obtain ⟨hkeeps, hcomes⟩ := addClQualifier_spec hid hadd
    exact ⟨cls.quals, hdr, rfl, hkeeps, hcomes⟩

theorem grandParent_stepsTo {gp : CStr} (h : clClassAddGrandParent cls gp = some cls') :
    StepsTo none cls cls' := by
  obtain ⟨⟨hdr, id⟩, hadd, rfl⟩ := Option.map_eq_some_iff.mp h
  exact ⟨addClString_keeps hadd, fun _ h => .old h⟩

theorem qualifier_stepsTo {id : CStr} {d : CMPIData} (hid : 0 ∉ id)
    (h : clClassAddQualifier cls id d = some cls') : StepsTo none cls cls' := by
  obtain ⟨⟨cls₁, qlfs⟩, hadd, rfl⟩ := Option.map_eq_some_iff.mp h
  obtain ⟨quals, hdr, rfl, hkeeps, hcomes⟩ := addQualifierSpecial_spec hid hadd
  exact ⟨hkeeps, comesOf_sections (hcomes _ (mem_sections_qualifiers cls))
    (.old (mem_sections_properties cls)) (.old (mem_sections_methods cls)) (comesOf_property cls)
    (comesOf_method cls)⟩

/-- A property was written that kept its name. -/
theorem comesOf_properties_set {hdr : ObjectHdr} {quals : Nat} {i : Nat} {p p' : ClProperty}
    (hp : cls.properties.items[i]? = some p) (hid : p'.id = p.id)
    (hqualifiers : ComesOf cls.hdr hdr cls.sections (qualifierIds p'.qualifiers)) :
    ∀ ids ∈ ClClass.sections
        { cls with hdr, quals, properties := cls.properties.setItem i p' },
      ComesOf cls.hdr hdr cls.sections ids := by
  refine comesOf_sections (.old (mem_sections_qualifiers cls)) ?_
    (.old (mem_sections_methods cls)) (comesOf_set (comesOf_property cls) ?_) (comesOf_method cls)
  · show ComesOf cls.hdr hdr cls.sections ((cls.properties.items.set i p').map (·.id))
    rw [map_set_same hp hid]
    exact .old (mem_sections_properties cls)
  · intro ids hids
    rw [List.mem_singleton.mp hids]
    exact hqualifiers

/-- The qualifiers of a property are a section of the class. -/
theorem mem_sections_ofProperty {i : Nat} {p : ClProperty}
    (hp : cls.properties.items[i]? = some p) : qualifierIds p.qualifiers ∈ cls.sections :=
  mem_sections_property (List.mem_flatMap.mpr
    ⟨p, List.mem_of_getElem? hp, List.mem_singleton.mpr rfl⟩)

theorem propertyQualifier_stepsTo {i : Nat} {id : CStr} {d : CMPIData} (hid : 0 ∉ id)
    (h : clClassAddPropertyQualifier cls i id d = some cls') : StepsTo none cls cls' := by
  unfold clClassAddPropertyQualifier at h
  cases hp : cls.properties.items[i]? with
  | none =>
    rw [hp] at h
    exact absurd h (by simp)
  | some p =>
    rw [hp] at h
    simp only at h
    have hold := mem_sections_ofProperty hp
    split at h
    · cases h
      exact ⟨KeepsTexts.refl _, comesOf_properties_set hp rfl (.old hold)⟩
    split at h
    · cases h
      exact ⟨KeepsTexts.refl _, comesOf_properties_set hp rfl (.old hold)⟩
    · obtain ⟨⟨cls₁, qlfs⟩, hadd, rfl⟩ := Option.map_eq_some_iff.mp h
      obtain ⟨quals, hdr, rfl, hkeeps, hcomes⟩ := addQualifierSpecial_spec hid hadd
      exact ⟨hkeeps, comesOf_properties_set hp rfl (hcomes _ (mem_sections_ofProperty hp))⟩

/-- A method was written that kept its name. -/
theorem comesOf_methods_set {hdr : ObjectHdr} {i : Nat} {m m' : ClMethod}
    (hm : cls.methods.items[i]? = some m) (hid : m'.id = m.id)
    (hinner : ∀ ids ∈ m'.sections, ComesOf cls.hdr hdr cls.sections ids) :
    ∀ ids ∈ ClClass.sections { cls with hdr, methods := cls.methods.setItem i m' },
      ComesOf cls.hdr hdr cls.sections ids := by
  refine comesOf_sections (.old (mem_sections_qualifiers cls))
    (.old (mem_sections_properties cls)) ?_ (comesOf_property cls) (comesOf_set (comesOf_method cls) hinner)
  show ComesOf cls.hdr hdr cls.sections ((cls.methods.items.set i m').map (·.id))
  rw [map_set_same hm hid]
  exact .old (mem_sections_methods cls)

/-- The sections of a method are sections of the class. -/
theorem mem_sections_ofMethod {i : Nat} {m : ClMethod} (hm : cls.methods.items[i]? = some m)
    {ids : List Nat} (hids : ids ∈ m.sections) : ids ∈ cls.sections :=
  mem_sections_method (List.mem_flatMap.mpr ⟨m, List.mem_of_getElem? hm, hids⟩)

/-- A method comes of its parts. -/
theorem comesOf_method_sections {hdr : ObjectHdr} {m : ClMethod}
    (hqualifiers : ComesOf cls.hdr hdr cls.sections (qualifierIds m.qualifiers))
    (hparameters : ComesOf cls.hdr hdr cls.sections (parameterIds m.parameters))
    (hinner : ∀ ids ∈ m.parameters.items.flatMap ClParameter.sections,
      ComesOf cls.hdr hdr cls.sections ids) :
    ∀ ids ∈ m.sections, ComesOf cls.hdr hdr cls.sections ids := by
  intro ids hids
  unfold ClMethod.sections at hids
  rcases List.mem_cons.mp hids with rfl | hids
  · exact hqualifiers
  rcases List.mem_cons.mp hids with rfl | hids
  · exact hparameters
  · exact hinner ids hids

theorem mem_method_qualifiers (m : ClMethod) : qualifierIds m.qualifiers ∈ m.sections := by
  simp [ClMethod.sections]

theorem mem_method_parameters (m : ClMethod) : parameterIds m.parameters ∈ m.sections := by
  simp [ClMethod.sections]

theorem mem_method_inner {m : ClMethod} {ids : List Nat}
    (h : ids ∈ m.parameters.items.flatMap ClParameter.sections) : ids ∈ m.sections := by
  simp [ClMethod.sections, h]

theorem method_stepsTo {id : CStr} {t : CMPIType} (hid : 0 ∉ id)
    (h : clClassAddMethod cls id t = some cls') : StepsTo none cls cls' := by
  unfold clClassAddMethod at h
  cases hlocate : clClassLocateMethod cls.hdr cls.methods.items id with
  | none =>
    rw [hlocate] at h
    obtain ⟨⟨hdr, n⟩, hname, h₁⟩ := Option.bind_eq_some_iff.mp h
    obtain ⟨methods, hpush, h₂⟩ := Option.bind_eq_some_iff.mp h₁
    cases h₂
    rw [locateMethod_eq] at hlocate
    refine ⟨addClString_keeps hname, comesOf_sections (.old (mem_sections_qualifiers cls))
      (.old (mem_sections_properties cls)) ?_ (comesOf_property cls) ?_⟩
    · show ComesOf cls.hdr hdr cls.sections (methods.items.map (·.id))
      rw [push_items hpush, List.map_append]
      exact .grown (mem_sections_methods cls) (addClString_hasText hname hid)
        (addClStringN_spec hname).2.2.1 (ne_of_not_located hlocate)
    · show ∀ ids ∈ methods.items.flatMap ClMethod.sections, _
      rw [push_items hpush]
      exact comesOf_snoc (comesOf_method cls)
        (comesOf_method_sections .new .new fun ids hids => absurd hids List.not_mem_nil)
  | some i =>
    rw [hlocate] at h
    simp only at h
    cases hm : cls.methods.items[i]? with
    | none =>
      rw [hm] at h
      exact absurd h (by simp)
    | some m =>
      rw [hm] at h
      cases h
      exact ⟨KeepsTexts.refl _,
        comesOf_methods_set hm rfl fun ids hids => .old (mem_sections_ofMethod hm hids)⟩

theorem methodQualifier_stepsTo {i : Nat} {id : CStr} {d : CMPIData} (hid : 0 ∉ id)
    (h : clClassAddMethodQualifier cls i id d = some cls') : StepsTo none cls cls' := by
  unfold clClassAddMethodQualifier at h
  cases hm : cls.methods.items[i]? with
  | none =>
    rw [hm] at h
    exact absurd h (by simp)
  | some m =>
    rw [hm] at h
    obtain ⟨⟨hdr, qlfs⟩, hadd, rfl⟩ := Option.map_eq_some_iff.mp h
    obtain ⟨hkeeps, hcomes⟩ := addClQualifier_spec hid hadd
    have hold : ∀ {ids}, ids ∈ m.sections → ids ∈ cls.sections := mem_sections_ofMethod hm
    exact ⟨hkeeps, comesOf_methods_set hm rfl (comesOf_method_sections
      (hcomes _ (hold (mem_method_qualifiers m))) (.old (hold (mem_method_parameters m)))
      fun ids hids => .old (hold (mem_method_inner hids)))⟩

/-- A parameter is added to a method that does not have it. -/
theorem parameter_stepsTo {i : Nat} {id : CStr} {cp : CMPIParameter} (hid : 0 ∉ id)
    (hfresh : (ClassOp.parameter i id cp).repeatsParameter cls = false)
    (h : clClassAddMethParameter cls i id cp = some cls') : StepsTo none cls cls' := by
  unfold clClassAddMethParameter at h
  cases hm : cls.methods.items[i]? with
  | none =>
    rw [hm] at h
    exact absurd h (by simp)
  | some m =>
    rw [hm] at h
    obtain ⟨⟨hdr, p⟩, hmake, h₁⟩ := Option.bind_eq_some_iff.mp h
    obtain ⟨parameters, hpush, h₂⟩ := Option.bind_eq_some_iff.mp h₁
    cases h₂
    unfold makeClParameter at hmake
    obtain ⟨⟨hdr₁, n⟩, hname, hmake₁⟩ := Option.bind_eq_some_iff.mp hmake
    obtain ⟨⟨hdr₂, ref⟩, href, hmake₂⟩ := Option.bind_eq_some_iff.mp hmake₁
    cases hmake₂
    have hkeeps := addClStringOrNone_keeps href
    have hold : ∀ {ids}, ids ∈ m.sections → ids ∈ cls.sections := mem_sections_ofMethod hm
    refine ⟨(addClString_keeps hname).trans hkeeps, comesOf_methods_set hm rfl
      (comesOf_method_sections (.old (hold (mem_method_qualifiers m))) ?_ ?_)⟩
    · show ComesOf cls.hdr hdr cls.sections (parameters.items.map (·.id))
      rw [push_items hpush, List.map_append]
      refine .grown (hold (mem_method_parameters m))
        (hkeeps.texts n id (by simp) (addClString_hasText hname hid))
        (addClStringN_spec hname).2.2.1 fun k hk s hs hzero => ?_
      -- the loop would have found nothing either way; that nothing is there is the condition
      have hnamed : (parameterIds m.parameters).any (isNamed cls.hdr id) = true :=
        List.any_eq_true.mpr ⟨k, hk, (isNamed_iff hs).mpr hzero⟩
      have hrepeats : (ClassOp.parameter i id cp).repeatsParameter cls = true := by
        show ((cls.methods.items[i]?).map (parameterIds ·.parameters)).any
          (·.any (isNamed cls.hdr id)) = true
        rw [hm]
        exact hnamed
      rw [hrepeats] at hfresh
      exact absurd hfresh (by simp)
    · show ∀ ids ∈ parameters.items.flatMap ClParameter.sections, _
      rw [push_items hpush]
      refine comesOf_snoc (fun ids hids => .old (hold (mem_method_inner hids))) ?_
      intro ids hids
      rw [List.mem_singleton.mp hids]
      exact .new

theorem parameterQualifier_stepsTo {i j : Nat} {id : CStr} {d : CMPIData} (hid : 0 ∉ id)
    (h : clClassAddMethParamQualifier cls i j id d = some cls') : StepsTo none cls cls' := by
  unfold clClassAddMethParamQualifier at h
  cases hm : cls.methods.items[i]? with
  | none =>
    rw [hm] at h
    exact absurd h (by simp)
  | some m =>
    rw [hm] at h
    simp only at h
    cases hp : m.parameters.items[j]? with
    | none =>
      rw [hp] at h
      exact absurd h (by simp)
    | some p =>
      rw [hp] at h
      obtain ⟨⟨hdr, qlfs⟩, hadd, rfl⟩ := Option.map_eq_some_iff.mp h
      obtain ⟨hkeeps, hcomes⟩ := addClQualifier_spec hid hadd
      have hold : ∀ {ids}, ids ∈ m.sections → ids ∈ cls.sections := mem_sections_ofMethod hm
      have hqualifiers : qualifierIds p.qualifiers ∈ cls.sections :=
        hold (mem_method_inner (List.mem_flatMap.mpr
          ⟨p, List.mem_of_getElem? hp, List.mem_singleton.mpr rfl⟩))
      refine ⟨hkeeps, comesOf_methods_set hm rfl (comesOf_method_sections
        (.old (hold (mem_method_qualifiers m))) ?_ (comesOf_set
          (fun ids hids => .old (hold (mem_method_inner hids))) ?_))⟩
      · have hids : parameterIds (m.parameters.setItem j { p with qualifiers := qlfs }) =
            parameterIds m.parameters := map_set_same hp rfl
        show ComesOf cls.hdr hdr cls.sections
          (parameterIds (m.parameters.setItem j { p with qualifiers := qlfs }))
        rw [hids]
        exact .old (hold (mem_method_parameters m))
      · intro ids hids
        rw [List.mem_singleton.mp hids]
        exact hcomes _ hqualifiers

theorem property_stepsTo {id : CStr} {d : CMPIData} {refName : Option CStr} (hid : 0 ∉ id)
    {r : ClClass × Int} (h : clClassAddProperty cls id d refName = some r) :
    StepsTo ((ClassOp.property id d refName).overwrites cls) cls r.1 := by
  obtain ⟨⟨o, rc⟩, hadd, rfl⟩ := Option.map_eq_some_iff.mp h
  unfold addObjectPropertyH at hadd
  cases hlocate : locateProperty cls.store.hdr cls.store.properties.items id with
  | none =>
    rw [hlocate] at hadd
    simp only at hadd
    split at hadd
    · exact absurd hadd (by simp)
    next hdr p hnew =>
    obtain ⟨prps, hpush, heq⟩ := Option.map_eq_some_iff.mp hadd
    cases heq
    unfold newProperty at hnew
    obtain ⟨⟨hdr₁, n⟩, hname, hnew₁⟩ := Option.bind_eq_some_iff.mp hnew
    obtain ⟨⟨hdr₂, ref⟩, href, hnew₂⟩ := Option.bind_eq_some_iff.mp hnew₁
    obtain ⟨⟨hdr₃, data⟩, hdata, hnew₃⟩ := Option.bind_eq_some_iff.mp hnew₂
    cases hnew₃
    have hkeeps := (addClStringOrNone_keeps href).trans (storeNew_keeps hdata)
    rw [locateProperty_eq] at hlocate
    refine ⟨((addClString_keeps hname).trans hkeeps).weaken,
      comesOf_sections (.old (mem_sections_qualifiers cls)) ?_ (.old (mem_sections_methods cls))
        ?_ (comesOf_method cls)⟩
    · show ComesOf cls.hdr hdr cls.sections (prps.items.map (·.id))
      rw [push_items hpush, List.map_append]
      exact .grown (mem_sections_properties cls)
        (hkeeps.texts n id (by simp) (addClString_hasText hname hid))
        (addClStringN_spec hname).2.2.1 (ne_of_not_located hlocate)
    · show ∀ ids ∈ prps.items.flatMap ClProperty.sections, _
      rw [push_items hpush]
      refine comesOf_snoc (comesOf_property cls) fun ids hids => ?_
      rw [List.mem_singleton.mp hids]
      exact .new
  | some i =>
    rw [hlocate] at hadd
    simp only at hadd
    split at hadd
    · exact absurd hadd (by simp)
    next p hp =>
    have hover : (ClassOp.property id d refName).overwrites cls = p.overwrites cls.hdr d := by
      show ((locateProperty cls.hdr cls.properties.items id).bind
        (cls.properties.items[·]?)).bind _ = _
      rw [show locateProperty cls.hdr cls.properties.items id = some i from hlocate,
        Option.bind_some, show cls.properties.items[i]? = some p from hp, Option.bind_some]
    split at hadd
    · exact absurd hadd (by simp)
    · cases hadd
      exact ⟨KeepsTexts.refl _, fun _ h => .old h⟩
    · next hdr data hreplace =>
      cases hadd
      rw [hover]
      have hold := mem_sections_ofProperty hp
      exact ⟨storeReplace_keeps hreplace, comesOf_properties_set hp rfl (.old hold)⟩

/-- What one step does to a class, if it repeats no parameter. -/
theorem apply_stepsTo {op : ClassOp} (hname : 0 ∉ op.name)
    (hfresh : op.repeatsParameter cls = false) (h : cls.apply op = some cls') :
    StepsTo (op.overwrites cls) cls cls' := by
  cases op with
  | grandParent gp => exact grandParent_stepsTo h
  | qualifier id d => exact qualifier_stepsTo hname h
  | property id d refName =>
    obtain ⟨r, hr, rfl⟩ := Option.map_eq_some_iff.mp h
    exact property_stepsTo hname hr
  | propertyQualifier i id d => exact propertyQualifier_stepsTo hname h
  | method id t => exact method_stepsTo hname h
  | methodQualifier i id d => exact methodQualifier_stepsTo hname h
  | parameter i id cp => exact parameter_stepsTo hname hfresh h
  | parameterQualifier i j id d => exact parameterQualifier_stepsTo hname h

/-- One step keeps the names of each section different. -/
theorem UniqueNames.apply {op : ClassOp} (h : UniqueNames cls) (hname : 0 ∉ op.name)
    (hmeets : op.Meets cls) (hstep : cls.apply op = some cls') : UniqueNames cls' := by
  obtain ⟨hkeeps, hsections⟩ := apply_stepsTo hname hmeets.parameter hstep
  refine fun ids hids => (hsections ids hids).distinct h hkeeps fun old hold id hid hover => ?_
  have hcontains : op.overwritesName cls = true := by
    unfold ClassOp.overwritesName
    rw [hover]
    exact List.contains_iff_mem.mpr (List.mem_flatten.mpr ⟨old, hold, hid⟩)
  rw [hmeets.value] at hcontains
  exact absurd hcontains (by simp)

end Steps

/-! ## Names that are there -/

section Counts

variable {cls cls' : ClClass}

theorem addClQualifier_repeated {hdr : ObjectHdr} {qlfs : ClSection ClQualifier} {id : CStr}
    (h : (qualifierIds qlfs).any (isNamed hdr id) = true) (d : CMPIData) :
    addClQualifier hdr qlfs id d = some (hdr, qlfs) := by
  obtain ⟨i, hi⟩ := not_located_of_any h
  unfold addClQualifier
  rw [locateQualifier_eq, hi]

theorem addQualifierSpecial_repeated {qlfs : ClSection ClQualifier} {id : CStr}
    (h : (qualifierIds qlfs).any (isNamed cls.hdr id) = true) {d : CMPIData}
    {r : ClClass × ClSection ClQualifier}
    (hadd : clClassAddQualifierSpecial cls qlfs id d = some r) :
    r.2 = qlfs ∧ r.1.hdr = cls.hdr := by
  unfold clClassAddQualifierSpecial at hadd
  split at hadd
  · cases hadd
    exact ⟨rfl, rfl⟩
  split at hadd
  · cases hadd
    exact ⟨rfl, rfl⟩
  split at hadd
  · cases hadd
    exact ⟨rfl, rfl⟩
  · rw [addClQualifier_repeated h] at hadd
    cases hadd
    exact ⟨rfl, rfl⟩

/-- A name that is there is not added again. -/
theorem repeated_target {op : ClassOp} (hrepeats : op.repeats cls = true)
    (hfresh : op.repeatsParameter cls = false) (hstep : cls.apply op = some cls') :
    op.target cls' = op.target cls := by
  have hsame : ∀ {α β : Type} {items : List α} {i : Nat} {a a' : α} {f : α → β},
      items[i]? = some a → f a' = f a → ((items.set i a')[i]?).map f = (items[i]?).map f := by
    intro α β items i a a' f ha hf
    rw [← List.getElem?_map, map_set_same ha hf, List.getElem?_map]
  cases op with
  | grandParent gp => rfl
  | qualifier id d =>
    obtain ⟨⟨cls₁, qlfs⟩, hadd, rfl⟩ := Option.map_eq_some_iff.mp hstep
    exact congrArg (some <| qualifierIds ·) (addQualifierSpecial_repeated hrepeats hadd).1
  | property id d refName =>
    obtain ⟨r, hr, rfl⟩ := Option.map_eq_some_iff.mp hstep
    obtain ⟨⟨o, rc⟩, hadd, rfl⟩ := Option.map_eq_some_iff.mp hr
    obtain ⟨i, hi⟩ := not_located_of_any (show (propertyIds cls.properties).any _ = true from hrepeats)
    unfold addObjectPropertyH at hadd
    rw [show locateProperty cls.store.hdr cls.store.properties.items id = some i from
      (locateProperty_eq cls.properties).trans hi] at hadd
    simp only at hadd
    split at hadd
    · exact absurd hadd (by simp)
    next p hp =>
    split at hadd
    · exact absurd hadd (by simp)
    · cases hadd
      rfl
    · cases hadd
      exact congrArg some (map_set_same hp rfl)
  | propertyQualifier i id d =>
    change clClassAddPropertyQualifier cls i id d = some cls' at hstep
    unfold clClassAddPropertyQualifier at hstep
    cases hp : cls.properties.items[i]? with
    | none =>
      rw [hp] at hstep
      exact absurd hstep (by simp)
    | some p =>
      have hnamed : (qualifierIds p.qualifiers).any (isNamed cls.hdr id) = true := by
        have h : ((cls.properties.items[i]?).map (qualifierIds ·.qualifiers)).any
          (·.any (isNamed cls.hdr id)) = true := hrepeats
        rw [hp] at h
        exact h
      rw [hp] at hstep
      simp only at hstep
      split at hstep
      · cases hstep
        exact hsame hp rfl
      split at hstep
      · cases hstep
        exact hsame hp rfl
      · obtain ⟨⟨cls₁, qlfs⟩, hadd, rfl⟩ := Option.map_eq_some_iff.mp hstep
        exact hsame hp (congrArg qualifierIds (addQualifierSpecial_repeated hnamed hadd).1)
  | method id t =>
    obtain ⟨i, hi⟩ := not_located_of_any (show (methodIds cls.methods).any _ = true from hrepeats)
    change clClassAddMethod cls id t = some cls' at hstep
    unfold clClassAddMethod at hstep
    rw [show clClassLocateMethod cls.hdr cls.methods.items id = some i from
      (locateMethod_eq cls.methods).trans hi] at hstep
    simp only at hstep
    split at hstep
    · exact absurd hstep (by simp)
    next m hm =>
    cases hstep
    exact congrArg some (map_set_same hm rfl)
  | methodQualifier i id d =>
    change clClassAddMethodQualifier cls i id d = some cls' at hstep
    unfold clClassAddMethodQualifier at hstep
    cases hm : cls.methods.items[i]? with
    | none =>
      rw [hm] at hstep
      exact absurd hstep (by simp)
    | some m =>
      have hnamed : (qualifierIds m.qualifiers).any (isNamed cls.hdr id) = true := by
        have h : ((cls.methods.items[i]?).map (qualifierIds ·.qualifiers)).any
          (·.any (isNamed cls.hdr id)) = true := hrepeats
        rw [hm] at h
        exact h
      rw [hm] at hstep
      simp only [addClQualifier_repeated hnamed] at hstep
      cases hstep
      exact hsame hm rfl
  | parameter i id cp =>
    rw [show (ClassOp.parameter i id cp).repeatsParameter cls = true from hrepeats] at hfresh
    exact absurd hfresh (by simp)
  | parameterQualifier i j id d =>
    change clClassAddMethParamQualifier cls i j id d = some cls' at hstep
    unfold clClassAddMethParamQualifier at hstep
    have h : ((cls.methods.items[i]?).bind fun m =>
      (m.parameters.items[j]?).map (qualifierIds ·.qualifiers)).any
        (·.any (isNamed cls.hdr id)) = true := hrepeats
    cases hm : cls.methods.items[i]? with
    | none =>
      rw [hm] at hstep
      exact absurd hstep (by simp)
    | some m =>
      rw [hm] at hstep h
      simp only [Option.bind_some] at hstep h
      cases hp : m.parameters.items[j]? with
      | none =>
        rw [hp] at hstep
        exact absurd hstep (by simp)
      | some p =>
        rw [hp] at hstep h
        simp only [addClQualifier_repeated (show (qualifierIds p.qualifiers).any _ = true from h)]
          at hstep
        cases hstep
        show (((cls.methods.items.set i _)[i]?).bind _) = (cls.methods.items[i]?).bind _
        rw [hm, List.getElem?_set_self (List.getElem?_eq_some_iff.mp hm).1]
        exact hsame hp rfl

end Counts

/-! ## Values that are what they say -/

/-- What is stored as it came has no string. -/
theorem shaped_raw {d : CMPIData} (h : d.shaped = true) (htype : d.type.inStrings = true)
    {k : Nat} (hvalue : d.raw.value = .num k) : k = 0 := by
  unfold CMPIData.shaped at h
  split at h
  · have hzero : d.value = .word 0 := of_decide_eq_true h
    rw [show d.raw.value = d.value.raw from rfl, hzero] at hvalue
    exact (Word.num.inj hvalue).symm
  · rw [show d.raw.value = d.value.raw from rfl] at hvalue
    cases hd : d.value with
    | word n =>
      rw [hd] at h
      simp [htype] at h
    | nullPtr =>
      rw [hd] at hvalue
      exact (Word.num.inj hvalue).symm
    | text s | blob bytes | array a =>
      rw [hd] at hvalue
      exact absurd hvalue (by simp [Value.raw])

/-- The string of a new property is behind its name. -/
theorem storeNew_apart {hdr hdr' : ObjectHdr} {d : CMPIData} {data : Stored}
    (hshaped : d.shaped = true) (h : storeNew hdr d = some (hdr', data))
    (htype : data.type.inStrings = true) {k : Nat} (hvalue : data.value = .num k) :
    k = 0 ∨ IndexedBuf.used hdr.strBuf < k ∧ k ≤ IndexedBuf.used hdr'.strBuf := by
  obtain ⟨-, rfl | hzero⟩ | ⟨flag, bytes, id, hadd, hid⟩ | ⟨a, id, -, rfl, harray⟩ :=
    storeNew_cases h
  · exact Or.inl (shaped_raw hshaped htype hvalue)
  · exact Or.inl (Word.num.inj (hvalue.symm.trans hzero))
  · obtain rfl : k = id := Word.num.inj (hvalue.symm.trans hid)
    obtain ⟨-, -, hnext, hused⟩ := addClStringN_spec hadd
    have hflag : k = IndexedBuf.used hdr.strBuf + 1 := hnext
    exact Or.inr ⟨by omega, by omega⟩
  · rw [inStrings_array htype] at harray
    exact absurd harray (by simp)

theorem inStrings_of_overwritten {hdr : ObjectHdr} {type : CMPIType}
    (h : type = CMPIBase.chars.simple ∨ type = CMPIBase.dateTime.simple ∨
      type = CMPIBase.ref.simple ∨ hdr.type = .inst ∧ type = CMPIBase.inst.simple) :
    type.inStrings = true := by
  rcases h with rfl | rfl | rfl | ⟨-, rfl⟩ <;> rfl

/-- The string of a value that is set is the one it had, or the next one. -/
theorem storeReplace_apart {hdr hdr' : ObjectHdr} {p : ClProperty} {d : CMPIData}
    {data : Stored} (hshaped : d.shaped = true)
    (h : storeReplace hdr p d = some (.stored hdr' data)) (htype : data.type.inStrings = true)
    {k : Nat} (hvalue : data.value = .num k) :
    k = 0 ∨ (p.data.type.inStrings = true ∧ p.data.value = .num k) ∨
      IndexedBuf.used hdr.strBuf < k ∧ k ≤ IndexedBuf.used hdr'.strBuf := by
  obtain ⟨-, rfl⟩ | ⟨bytes, id, hadd, rfl⟩ | ⟨bytes, id, hover, -, rfl | rfl⟩ |
    ⟨harray, id, rfl, -⟩ := storeReplace_cases h
  · exact Or.inl (shaped_raw hshaped htype hvalue)
  · obtain rfl : id = k := Word.num.inj hvalue
    obtain ⟨-, -, hnext, hused⟩ := addClStringN_spec hadd
    exact Or.inr (Or.inr ⟨by omega, by omega⟩)
  · obtain rfl : id = k := Word.num.inj hvalue
    obtain ⟨hod, hodvalue, -⟩ := overwrites_some hover
    exact Or.inr (Or.inl ⟨inStrings_of_overwritten hod, hodvalue⟩)
  · exact Or.inl (shaped_raw hshaped htype hvalue)
  · rw [inStrings_array htype] at harray
    exact absurd harray (by simp)

/-! ## Runs -/

theorem newClassH_uniqueNames {cn pa : Option CStr} {cls : ClClass}
    (h : newClassH cn pa = some cls) : UniqueNames cls := by
  unfold newClassH at h
  obtain ⟨⟨hdr₁, name⟩, -, h₁⟩ := Option.bind_eq_some_iff.mp h
  obtain ⟨⟨hdr₂, parent⟩, -, h₂⟩ := Option.bind_eq_some_iff.mp h₁
  cases h₂
  intro ids hids
  -- all sections are empty
  obtain rfl : ids = [] := by
    simpa [ClClass.sections, qualifierIds, propertyIds, methodIds, ClSection.clear] using hids
  exact ⟨fun id hid => absurd hid List.not_mem_nil, List.Pairwise.nil⟩

theorem Reached.uniqueNames {cls : ClClass} (h : Reached cls) : UniqueNames cls := by
  induction h with
  | new h => exact newClassH_uniqueNames h
  | step _ hname hmeets hstep ih => exact ih.apply hname hmeets hstep

/-- In a class that is built of steps that repeat no parameter and write no value over a
name, the names of each section are different; and a name that is there is not added
again. -/
theorem reached_names {cls : ClClass} (h : Reached cls) :
    UniqueNames cls ∧
      ∀ op cls', 0 ∉ op.name → op.Meets cls → cls.apply op = some cls' →
        UniqueNames cls' ∧ (op.repeats cls = true → op.target cls' = op.target cls) :=
  ⟨h.uniqueNames, fun _ _ hname hmeets hstep =>
    ⟨h.uniqueNames.apply hname hmeets hstep,
      fun hrepeats => repeated_target hrepeats hmeets.parameter hstep⟩⟩

/-- The steps of a list meet the condition, one after the other. -/
def meetsAll : ClClass → List ClassOp → Bool
  | _, [] => true
  | cls, op :: ops =>
    decide (0 ∉ op.name) && decide (op.Meets cls) &&
      (cls.apply op).all fun cls' => meetsAll cls' ops

theorem Reached.applyAll {cls cls' : ClClass} {ops : List ClassOp} (h : Reached cls)
    (hmeets : meetsAll cls ops = true) (hrun : applyAll ClClass.apply cls ops = some cls') :
    Reached cls' := by
  induction ops generalizing cls with
  | nil =>
    cases hrun
    exact h
  | cons op ops ih =>
    obtain ⟨cls₁, hstep, hrest⟩ := Option.bind_eq_some_iff.mp hrun
    obtain ⟨hop, hops⟩ := Bool.and_eq_true_iff.mp hmeets
    obtain ⟨hname, hmeets₁⟩ := Bool.and_eq_true_iff.mp hop
    rw [hstep] at hops
    exact ih (h.step (of_decide_eq_true hname) (of_decide_eq_true hmeets₁) hstep) hops hrest

/-- A class with a method that gets a parameter twice. -/
def repeatedParameter : List ClassOp :=
  [.method (lit "Start") CMPIBase.uint32.simple,
    .parameter 0 (lit "Force") ⟨CMPIBase.boolean.simple, 0, none⟩,
    .parameter 0 (lit "Force") ⟨CMPIBase.boolean.simple, 0, none⟩]

def buildJob (ops : List ClassOp) : Option ClClass :=
  (newClassH (some (lit "CIM_Job")) none).bind (Object.applyAll ClClass.apply · ops)

/-- Up to the second parameter it is as it should be. -/
theorem reached_names_job : ∃ cls, buildJob (repeatedParameter.take 2) = some cls ∧
    UniqueNames cls := by
  have hmeets : (newClassH (some (lit "CIM_Job")) none).all
      (meetsAll · (repeatedParameter.take 2)) = true := by decide
  obtain ⟨cls, hbuild⟩ := Option.isSome_iff_exists.mp
    (show (buildJob (repeatedParameter.take 2)).isSome = true by decide)
  obtain ⟨cls₀, hnew, hrun⟩ := Option.bind_eq_some_iff.mp hbuild
  rw [hnew] at hmeets
  exact ⟨cls, hbuild, (reached_names ((Reached.new hnew).applyAll hmeets hrun)).1⟩

/-- The second one is added although the method has a parameter of that name. -/
theorem not_names : ∃ cls, buildJob repeatedParameter = some cls ∧
    cls.methods.items.map (parameterIds ·.parameters) = [[3, 4]] ∧
    getClString cls.hdr 3 = some (lit "Force") ∧ getClString cls.hdr 4 = some (lit "Force") ∧
    ¬ UniqueNames cls := by
  have hnamed : (buildJob repeatedParameter).all (fun cls =>
      cls.sections.contains [3, 4] &&
        (getClObject cls.hdr 3).any ((lit "Force" ++ [0]).isPrefixOf ·) &&
        (getClObject cls.hdr 4).any ((lit "Force" ++ [0]).isPrefixOf ·)) = true := by decide
  have hread : (buildJob repeatedParameter).all (fun cls =>
      cls.methods.items.map (parameterIds ·.parameters) = [[3, 4]] ∧
        getClString cls.hdr 3 = some (lit "Force") ∧
        getClString cls.hdr 4 = some (lit "Force")) = true := by decide
  obtain ⟨cls, hbuild⟩ := Option.isSome_iff_exists.mp
    (show (buildJob repeatedParameter).isSome = true by decide)
  rw [hbuild] at hnamed hread
  obtain ⟨h₁, h₂⟩ := Bool.and_eq_true_iff.mp hnamed
  obtain ⟨h₃, h₄⟩ := Bool.and_eq_true_iff.mp h₁
  have htext : ∀ {id : Nat}, (getClObject cls.hdr id).any ((lit "Force" ++ [0]).isPrefixOf ·) = true →
      HasText cls.hdr id (lit "Force") := by
    intro id h
    obtain ⟨f, hf, hpre⟩ := (Option.any_eq_true ..).mp h
    exact ⟨by decide, f, hf, List.isPrefixOf_iff_prefix.mp hpre⟩
  obtain ⟨hids, hfirst, hsecond⟩ := of_decide_eq_true hread
  refine ⟨cls, hbuild, hids, hfirst, hsecond, fun hunique => ?_⟩
  have hdistinct := (hunique [3, 4] (List.contains_iff_mem.mp h₃)).distinct
  rw [List.pairwise_cons] at hdistinct
  exact hdistinct.1 4 (by simp) _ _ (htext h₄) (htext h₂) (by decide)

end Sfcb.Object
