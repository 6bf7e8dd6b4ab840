import Sfcb.Object.Building
import Sfcb.Object.Contents

/-!
# Releasing a class

`ClClassFreeClass` gives back what was allocated while a class was built: the sections, the
buffers and the class itself. `Allocation` names these pieces of memory by what they are for, and
the functions here list those that `free` is called with, in order.

`freeProperties` goes over the properties. `freeMethods` and `freeParameters` take the count
of the first element's own section for their loops and stay at that element, so that the
sections of the others are lost and those of the first are freed again and again.
`releasedOnce_iff` says for which classes everything is freed exactly once.

Mirroring notes:
- While a class is built, a section is separate memory as soon as it is there.
- `HDR_Rebuild` is set by every allocation.
- Without methods the loop bounds are read from the class itself, taken for a method. The
  bits there that say what is malloced are clear, and nothing is freed.
- A section that was freed is read as it was.
-/

namespace Sfcb.Object

open Sfcb.Lib

/-- What is allocated for a class. -/
inductive Allocation where
  | cls | strIndex | strBuf | arrayIndex | arrayBuf | qualifiers | properties | methods
  | propertyQualifiers (i : Nat)
  | methodQualifiers (i : Nat)
  | parameters (i : Nat)
  | parameterQualifiers (i j : Nat)
  deriving DecidableEq, Repr

/-- What of it there is. -/
def ClClass.Allocated (cls : ClClass) : Allocation → Prop
  | .cls => True
  | .strIndex => ∃ buf, cls.hdr.strBuf = some buf ∧ buf.iMalloced = true
  | .strBuf => ∃ buf, cls.hdr.strBuf = some buf
  | .arrayIndex => ∃ buf, cls.hdr.arrayBuf = some buf ∧ buf.iMalloced = true
  | .arrayBuf => ∃ buf, cls.hdr.arrayBuf = some buf
  | .qualifiers => cls.qualifiers.there = true
  | .properties => cls.properties.there = true
  | .methods => cls.methods.there = true
  | .propertyQualifiers i => ∃ p, cls.properties.items[i]? = some p ∧ p.qualifiers.there = true
  | .methodQualifiers i => ∃ m, cls.methods.items[i]? = some m ∧ m.qualifiers.there = true
  | .parameters i => ∃ m, cls.methods.items[i]? = some m ∧ m.parameters.there = true
  | .parameterQualifiers i j => ∃ m p, cls.methods.items[i]? = some m ∧
      m.parameters.items[j]? = some p ∧ p.qualifiers.there = true

/-! ## The code -/

/-- `if (isMallocedSection(s)) free(s->sectionPtr);` -/
def ClSection.free {α : Type} (s : ClSection α) (b : Allocation) : List Allocation :=
  if s.there then [b] else []

/-- `freeQualifiers`. -/
def freeQualifiers (s : ClSection ClQualifier) (b : Allocation) : List Allocation := s.free b

/-- `freeParameters` for the method at place `i`. -/
def freeParameters (i : Nat) (s : ClSection ClParameter) : List Allocation :=
  (match s.items.head? with
    | none => []
    | some p => (List.range p.qualifiers.items.length).flatMap fun _ =>
        freeQualifiers p.qualifiers (.parameterQualifiers i 0)) ++
    s.free (.parameters i)

/-- `freeMethods`. -/
def freeMethods (s : ClSection ClMethod) : List Allocation :=
  (match s.items.head? with
    | none => []
    | some m =>
      ((List.range m.qualifiers.items.length).flatMap fun _ =>
        freeQualifiers m.qualifiers (.methodQualifiers 0)) ++
      (List.range m.parameters.items.length).flatMap fun _ => freeParameters 0 m.parameters) ++
    s.free .methods

/-- `freeProperties`. -/
def freeProperties (s : ClSection ClProperty) : List Allocation :=
  (s.items.zipIdx.flatMap fun p => freeQualifiers p.1.qualifiers (.propertyQualifiers p.2)) ++
    s.free .properties

/-- `freeStringBuf`. -/
def freeStringBuf (hdr : ObjectHdr) : List Allocation :=
  match hdr.strBuf with
  | none => []
  | some buf => (if buf.iMalloced then [.strIndex] else []) ++ [.strBuf]

/-- `freeArrayBuf`. -/
def freeArrayBuf (hdr : ObjectHdr) : List Allocation :=
  match hdr.arrayBuf with
  | none => []
  | some buf => (if buf.iMalloced then [.arrayIndex] else []) ++ [.arrayBuf]

/-- `HDR_Rebuild`. -/
def ClClass.rebuild (cls : ClClass) : Bool :=
  cls.hdr.strBuf.isSome || cls.hdr.arrayBuf.isSome || cls.qualifiers.there ||
    cls.properties.there || cls.methods.there

/-- `ClClassFreeClass`. -/
def clClassFreeClass (cls : ClClass) : List Allocation :=
  (if cls.rebuild then
    freeQualifiers cls.qualifiers .qualifiers ++ freeProperties cls.properties ++
      freeMethods cls.methods ++ freeStringBuf cls.hdr ++ freeArrayBuf cls.hdr
  else []) ++ [.cls]

/-- Everything is freed, and nothing twice. -/
def ReleasedOnce (cls : ClClass) : Prop :=
  ∀ b, cls.Allocated b → (clClassFreeClass cls).count b = 1

/-- Only the first method has qualifiers or parameters, at most one of each, and its
parameter has at most one qualifier. -/
structure Releasable (cls : ClClass) : Prop where
  others : ∀ (i : Nat) (m : ClMethod), i ≠ 0 → cls.methods.items[i]? = some m →
    m.qualifiers.items = [] ∧ m.parameters.items = []
  first : ∀ m, cls.methods.items.head? = some m →
    m.qualifiers.items.length ≤ 1 ∧ m.parameters.items.length ≤ 1 ∧
      ∀ p ∈ m.parameters.items, p.qualifiers.items.length ≤ 1

/-! ## How often something is freed -/

section Counting

variable {b b' : Allocation}

@[simp] theorem count_free {α : Type} (s : ClSection α) :
    (s.free b').count b = if s.there = true ∧ b' = b then 1 else 0 := by
  unfold ClSection.free
  cases s.there <;> simp [List.count_cons]

@[simp] theorem count_freeQualifiers (s : ClSection ClQualifier) :
    (freeQualifiers s b').count b = if s.there = true ∧ b' = b then 1 else 0 := count_free s

@[simp] theorem count_flatMap_range (n : Nat) (l : List Allocation) :
    ((List.range n).flatMap fun _ => l).count b = n * l.count b := by
  induction n with
  | zero => simp
  | succ n ih =>
    rw [List.range_succ, List.flatMap_append, List.count_append, ih, Nat.add_mul]
    simp

theorem count_freeProperties_ne (s : ClSection ClProperty) (h : ∀ i, b ≠ .propertyQualifiers i) :
    (freeProperties s).count b = if s.there = true ∧ .properties = b then 1 else 0 := by
  unfold freeProperties
  rw [List.count_append, count_free, List.count_eq_zero_of_not_mem, Nat.zero_add]
  intro hmem
  obtain ⟨⟨p, i⟩, -, hb⟩ := List.mem_flatMap.mp hmem
  unfold freeQualifiers ClSection.free at hb
  split at hb
  · exact h i (List.mem_singleton.mp hb)
  · exact absurd hb List.not_mem_nil

/-- The qualifiers of a property are freed when they are there. -/
theorem count_propertyQualifiers (items : List ClProperty) (n i : Nat) :
    ((items.zipIdx n).flatMap fun p =>
        freeQualifiers p.1.qualifiers (.propertyQualifiers p.2)).count (.propertyQualifiers (n + i)) =
      if (items[i]?).any (fun p => p.qualifiers.there) then 1 else 0 := by
  induction items generalizing n i with
  | nil => rfl
  | cons p items ih =>
    rw [List.zipIdx_cons, List.flatMap_cons, List.count_append, count_freeQualifiers]
    cases i with
    | zero =>
      have hrest : ((items.zipIdx (n + 1)).flatMap fun p =>
          freeQualifiers p.1.qualifiers (.propertyQualifiers p.2)).count
            (.propertyQualifiers (n + 0)) = 0 := by
        refine List.count_eq_zero_of_not_mem fun hmem => ?_
        obtain ⟨⟨q, j⟩, hq, hb⟩ := List.mem_flatMap.mp hmem
        have hj := (List.mem_zipIdx hq).1
        unfold freeQualifiers ClSection.free at hb
        split at hb
        · have := Allocation.propertyQualifiers.inj (List.mem_singleton.mp hb)
          omega
        · exact absurd hb List.not_mem_nil
      rw [hrest]
      simp
    | succ i =>
      rw [if_neg (by simp), Nat.zero_add, show n + (i + 1) = n + 1 + i by omega, ih]
      simp

theorem count_freeProperties (s : ClSection ClProperty) (i : Nat) :
    (freeProperties s).count (.propertyQualifiers i) =
      if (s.items[i]?).any (fun p => p.qualifiers.there) then 1 else 0 := by
  unfold freeProperties
  have h := count_propertyQualifiers s.items 0 i
  rw [Nat.zero_add] at h
  rw [List.count_append, h, count_free]
  simp

theorem count_freeParameters (i : Nat) (s : ClSection ClParameter) :
    (freeParameters i s).count b =
      (s.items.head?.elim 0 fun p => p.qualifiers.items.length *
        if p.qualifiers.there = true ∧ .parameterQualifiers i 0 = b then 1 else 0) +
      if s.there = true ∧ .parameters i = b then 1 else 0 := by
  unfold freeParameters
  rw [List.count_append, count_free]
  cases s.items.head? with
  | none => rfl
  | some p =>
    show List.count b (List.flatMap _ _) + _ = _
    rw [count_flatMap_range, count_freeQualifiers]
    rfl

theorem count_freeMethods (s : ClSection ClMethod) :
    (freeMethods s).count b =
      (s.items.head?.elim 0 fun m =>
        (m.qualifiers.items.length *
          if m.qualifiers.there = true ∧ .methodQualifiers 0 = b then 1 else 0) +
        m.parameters.items.length * (freeParameters 0 m.parameters).count b) +
      if s.there = true ∧ .methods = b then 1 else 0 := by
  unfold freeMethods
  rw [List.count_append, count_free]
  cases s.items.head? with
  | none => rfl
  | some m =>
    show List.count b (List.flatMap _ _ ++ List.flatMap _ _) + _ = _
    rw [List.count_append, count_flatMap_range, count_flatMap_range, count_freeQualifiers]
    rfl

theorem count_freeStringBuf (hdr : ObjectHdr) :
    (freeStringBuf hdr).count b = hdr.strBuf.elim 0 fun buf =>
      (if buf.iMalloced = true ∧ .strIndex = b then 1 else 0) + if .strBuf = b then 1 else 0 := by
  unfold freeStringBuf
  cases hdr.strBuf with
  | none => rfl
  | some buf => cases hmalloced : buf.iMalloced <;> simp [hmalloced, List.count_cons, Nat.add_comm]

theorem count_freeArrayBuf (hdr : ObjectHdr) :
    (freeArrayBuf hdr).count b = hdr.arrayBuf.elim 0 fun buf =>
      (if buf.iMalloced = true ∧ .arrayIndex = b then 1 else 0) + if .arrayBuf = b then 1 else 0 := by
  unfold freeArrayBuf
  cases hdr.arrayBuf with
  | none => rfl
  | some buf => cases hmalloced : buf.iMalloced <;> simp [hmalloced, List.count_cons, Nat.add_comm]

end Counting

/-! ## Sections of a class that is built -/

/-- A section is there as soon as it has an item. -/
def ClSection.Tidy {α : Type} (s : ClSection α) : Prop := s.there = true ↔ s.items ≠ []

/-- So are those that are looked at. -/
structure Tidy (cls : ClClass) : Prop where
  properties : cls.properties.Tidy
  methods : cls.methods.Tidy
  method : ∀ m ∈ cls.methods.items, m.qualifiers.Tidy ∧ m.parameters.Tidy ∧
    ∀ p ∈ m.parameters.items, p.qualifiers.Tidy

section Building

variable {cls cls' : ClClass}

theorem tidy_clear {α : Type} : (ClSection.clear : ClSection α).Tidy :=
  ⟨fun h => absurd h (by simp [ClSection.clear]), fun h => absurd rfl h⟩

theorem tidy_push {α : Type} {s s' : ClSection α} {iSize : Nat} {item : α}
    (h : s.push iSize item = some s') : s'.Tidy := by
  unfold ClSection.push at h
  split at h
  · cases h
    exact iff_of_true rfl (by simp)
  next hthere =>
  split at h
  · split at h
    · exact absurd h (by simp)
    · cases h
      exact iff_of_true rfl (by simp)
  · cases h
    exact iff_of_true (by simpa using hthere) (by simp)

theorem ClSection.Tidy.setItem {α : Type} {s : ClSection α} (h : s.Tidy) (i : Nat) (item : α) :
    (s.setItem i item).Tidy := by
  unfold ClSection.Tidy ClSection.setItem
  rw [show s.items.set i item ≠ [] ↔ s.items ≠ [] by simp]
  exact h

theorem addClQualifier_tidy {hdr : ObjectHdr} {qlfs : ClSection ClQualifier} {id : CStr}
    {d : CMPIData} {r : ObjectHdr × ClSection ClQualifier} (hqlfs : qlfs.Tidy)
    (h : addClQualifier hdr qlfs id d = some r) : r.2.Tidy := by
  unfold addClQualifier at h
  split at h
  · cases h
    exact hqlfs
  · simp only [Option.bind_eq_bind, Option.bind_eq_some_iff] at h
    obtain ⟨⟨hdr₁, name⟩, -, ⟨hdr₂, data⟩, -, qlfs', hpush, heq⟩ := h
    rw [← Option.some.inj heq]
    exact tidy_push hpush

/-- The qualifiers of a class, and of its properties, are not looked at. -/
theorem addQualifierSpecial_frame {qlfs : ClSection ClQualifier} {id : CStr} {d : CMPIData}
    {r : ClClass × ClSection ClQualifier}
    (h : clClassAddQualifierSpecial cls qlfs id d = some r) :
    r.1.properties = cls.properties ∧ r.1.methods = cls.methods := by
  unfold clClassAddQualifierSpecial at h
  split at h
  · cases h
    exact ⟨rfl, rfl⟩
  split at h
  · cases h
    exact ⟨rfl, rfl⟩
  split at h
  · cases h
    exact ⟨rfl, rfl⟩
  · obtain ⟨r', -, heq⟩ := Option.map_eq_some_iff.mp h
    cases heq
    exact ⟨rfl, rfl⟩

theorem Tidy.of_methods (h : Tidy cls) (hproperties : cls'.properties.Tidy)
    (hmethods : cls'.methods = cls.methods) : Tidy cls' :=
  ⟨hproperties, hmethods ▸ h.methods, hmethods ▸ h.method⟩

/-- A method that is written. -/
theorem Tidy.setMethod (h : Tidy cls) {i : Nat} {m : ClMethod}
    (hproperties : cls'.properties = cls.properties)
    (hmethods : cls'.methods = cls.methods.setItem i m)
    (hm : m.qualifiers.Tidy ∧ m.parameters.Tidy ∧ ∀ p ∈ m.parameters.items, p.qualifiers.Tidy) :
    Tidy cls' := by
  refine ⟨hproperties ▸ h.properties, hmethods ▸ h.methods.setItem i m, fun m' hm' => ?_⟩
  rw [hmethods] at hm'
  obtain hm' | rfl := List.mem_or_eq_of_mem_set hm'
  · exact h.method m' hm'
  · exact hm

theorem tidy_property (h : Tidy cls) {id : CStr} {d : CMPIData} {refName : Option CStr}
    {r : ClClass × Int} (hadd : clClassAddProperty cls id d refName = some r) : Tidy r.1 := by
  obtain ⟨⟨o, rc⟩, hstep, rfl⟩ := Option.map_eq_some_iff.mp hadd
  refine h.of_methods ?_ rfl
  show o.properties.Tidy
  obtain ⟨hdr, p, prps, -, -, hpush, rfl, -⟩ | ⟨k, p, -, -, ⟨-, rfl⟩ | ⟨hdr, data, -, rfl, -⟩⟩ :=
    addObjectPropertyH_cases hstep
  · exact tidy_push hpush
  · exact h.properties
  · exact h.properties.setItem k { p with data }

/-- Every step keeps the sections tidy. -/
theorem Tidy.apply (h : Tidy cls) {op : ClassOp} (hstep : cls.apply op = some cls') :
    Tidy cls' := by
  cases op with
  | grandParent gp =>
    obtain ⟨r, -, rfl⟩ := Option.map_eq_some_iff.mp hstep
    exact h.of_methods h.properties rfl
  | qualifier id d =>
    obtain ⟨r, hr, rfl⟩ := Option.map_eq_some_iff.mp hstep
    obtain ⟨hproperties, hmethods⟩ := addQualifierSpecial_frame hr
    exact h.of_methods (hproperties ▸ h.properties) hmethods
  | property id d refName =>
    obtain ⟨r, hr, rfl⟩ := Option.map_eq_some_iff.mp hstep
    exact tidy_property h hr
  | propertyQualifier i id d =>
    replace hstep : clClassAddPropertyQualifier cls i id d = some cls' := hstep
    unfold clClassAddPropertyQualifier at hstep
    split at hstep
    · exact absurd hstep (by simp)
    split at hstep
    · cases hstep
      exact h.of_methods (h.properties.setItem ..) rfl
    split at hstep
    · cases hstep
      exact h.of_methods (h.properties.setItem ..) rfl
    · obtain ⟨r, hr, rfl⟩ := Option.map_eq_some_iff.mp hstep
      exact h.of_methods (h.properties.setItem ..) (addQualifierSpecial_frame hr).2
  | method id t =>
    replace hstep : clClassAddMethod cls id t = some cls' := hstep
    unfold clClassAddMethod at hstep
    split at hstep
    · simp only [Option.bind_eq_bind, Option.bind_eq_some_iff] at hstep
      obtain ⟨⟨hdr, name⟩, -, methods, hpush, heq⟩ := hstep
      rw [← Option.some.inj heq]
      refine ⟨h.properties, tidy_push hpush, fun m hm => ?_⟩
      rw [show (_ : List ClMethod) = _ from push_items hpush] at hm
      obtain hm | hm := List.mem_append.mp hm
      · exact h.method m hm
      · rw [List.mem_singleton.mp hm]
        exact ⟨tidy_clear, tidy_clear, fun p hp => absurd hp List.not_mem_nil⟩
    · split at hstep
      · exact absurd hstep (by simp)
      · next m hm =>
        cases hstep
        exact h.setMethod rfl rfl (h.method m (List.mem_of_getElem? hm))
  | methodQualifier i id d =>
    replace hstep : clClassAddMethodQualifier cls i id d = some cls' := hstep
    unfold clClassAddMethodQualifier at hstep
    split at hstep
    · exact absurd hstep (by simp)
    · next m hm =>
      obtain ⟨r, hr, rfl⟩ := Option.map_eq_some_iff.mp hstep
      obtain ⟨hqualifiers, hparameters⟩ := h.method m (List.mem_of_getElem? hm)
      exact h.setMethod rfl rfl ⟨addClQualifier_tidy hqualifiers hr, hparameters⟩
  | parameter i id cp =>
    replace hstep : clClassAddMethParameter cls i id cp = some cls' := hstep
    unfold clClassAddMethParameter at hstep
    split at hstep
    · exact absurd hstep (by simp)
    · next m hm =>
      simp only [Option.bind_eq_bind, Option.bind_eq_some_iff] at hstep
      obtain ⟨⟨hdr, p⟩, hp, parameters, hpush, heq⟩ := hstep
      rw [← Option.some.inj heq]
      obtain ⟨hqualifiers, -, hall⟩ := h.method m (List.mem_of_getElem? hm)
      refine h.setMethod rfl rfl ⟨hqualifiers, tidy_push hpush, fun q hq => ?_⟩
      rw [show (_ : List ClParameter) = _ from push_items hpush] at hq
      obtain hq | hq := List.mem_append.mp hq
      · exact hall q hq
      · rw [List.mem_singleton.mp hq]
        unfold makeClParameter at hp
        simp only [Option.bind_eq_bind, Option.bind_eq_some_iff] at hp
        obtain ⟨⟨hdr₁, name⟩, -, ⟨hdr₂, ref⟩, -, heq⟩ := hp
        rw [← congrArg Prod.snd (Option.some.inj heq)]
        exact tidy_clear
  | parameterQualifier i j id d =>
    replace hstep : clClassAddMethParamQualifier cls i j id d = some cls' := hstep
    unfold clClassAddMethParamQualifier at hstep
    split at hstep
    · exact absurd hstep (by simp)
    next m hm =>
    split at hstep
    · exact absurd hstep (by simp)
    · next p hp =>
      obtain ⟨r, hr, rfl⟩ := Option.map_eq_some_iff.mp hstep
      obtain ⟨hqualifiers, hparameters, hall⟩ := h.method m (List.mem_of_getElem? hm)
      refine h.setMethod rfl rfl ⟨hqualifiers, hparameters.setItem .., fun q hq => ?_⟩
      obtain hq | rfl := List.mem_or_eq_of_mem_set hq
      · exact hall q hq
      · exact addClQualifier_tidy (hall p (List.mem_of_getElem? hp)) hr

theorem newClassH_tidy {cn pa : Option CStr} (h : newClassH cn pa = some cls) : Tidy cls := by
  unfold newClassH at h
  simp only [Option.bind_eq_bind, Option.bind_eq_some_iff] at h
  obtain ⟨⟨hdr₁, name⟩, -, ⟨hdr₂, parent⟩, -, heq⟩ := h
  rw [← Option.some.inj heq]
  exact ⟨tidy_clear, tidy_clear, fun m hm => absurd hm List.not_mem_nil⟩

theorem applyAll_tidy (h : Tidy cls) {ops : List ClassOp}
    (hrun : applyAll ClClass.apply cls ops = some cls') : Tidy cls' := by
  induction ops generalizing cls with
  | nil =>
    cases hrun
    exact h
  | cons op ops ih =>
    obtain ⟨cls₁, hstep, hrest⟩ := Option.bind_eq_some_iff.mp hrun
    exact ih (h.apply hstep) hrest

end Building

/-! ## What is freed once -/

section Releasing

variable {cls : ClClass}

theorem ClSection.Tidy.items_nil {α : Type} {s : ClSection α} (h : s.Tidy)
    (hthere : s.there = false) : s.items = [] := by
  cases hitems : s.items with
  | nil => rfl
  | cons a as => exact absurd (hthere.symm.trans (h.mpr (by simp [hitems]))) (by simp)

/-- Without `HDR_Rebuild` there is nothing to free. -/
theorem clClassFreeClass_eq (h : Tidy cls) :
    clClassFreeClass cls = freeQualifiers cls.qualifiers .qualifiers ++
      freeProperties cls.properties ++ freeMethods cls.methods ++ freeStringBuf cls.hdr ++
      freeArrayBuf cls.hdr ++ [.cls] := by
  unfold clClassFreeClass
  by_cases hrebuild : cls.rebuild = true
  · rw [if_pos hrebuild]
  · rw [if_neg hrebuild]
    unfold ClClass.rebuild at hrebuild
    simp only [Bool.or_eq_true, not_or, Bool.not_eq_true, Option.isSome_eq_false_iff,
      Option.isNone_iff_eq_none] at hrebuild
    obtain ⟨⟨⟨⟨hstr, harr⟩, hqualifiers⟩, hproperties⟩, hmethods⟩ := hrebuild
    unfold freeQualifiers freeProperties freeMethods freeStringBuf freeArrayBuf ClSection.free
    rw [hstr, harr, hqualifiers, hproperties, hmethods, h.properties.items_nil hproperties,
      h.methods.items_nil hmethods]
    rfl

/-- How often each piece is freed. -/
theorem count_freeClass (h : Tidy cls) (b : Allocation) :
    (clClassFreeClass cls).count b =
      (if cls.qualifiers.there = true ∧ .qualifiers = b then 1 else 0) +
      (freeProperties cls.properties).count b + (freeMethods cls.methods).count b +
      (freeStringBuf cls.hdr).count b + (freeArrayBuf cls.hdr).count b +
      if .cls = b then 1 else 0 := by
  rw [clClassFreeClass_eq h]
  simp only [List.count_append, count_freeQualifiers, List.count_singleton, beq_iff_eq]

/-- Methods apart, everything is freed once. -/
theorem count_apart (h : Tidy cls) {b : Allocation} (hb : cls.Allocated b)
    (hmethods : ∀ i j, b ≠ .methodQualifiers i ∧ b ≠ .parameters i ∧ b ≠ .parameterQualifiers i j) :
    (clClassFreeClass cls).count b = 1 := by
  have hzero : ∀ m : ClMethod, (m.qualifiers.items.length *
        if m.qualifiers.there = true ∧ .methodQualifiers 0 = b then 1 else 0) +
      m.parameters.items.length * (freeParameters 0 m.parameters).count b = 0 := by
    intro m
    rw [if_neg fun heq => (hmethods 0 0).1 heq.2.symm, count_freeParameters,
      if_neg fun heq => (hmethods 0 0).2.1 heq.2.symm]
    cases m.parameters.items.head? with
    | none => simp
    | some p => simp [(hmethods 0 0).2.2.symm]
  have hfreed : (freeMethods cls.methods).count b =
      if cls.methods.there = true ∧ .methods = b then 1 else 0 := by
    rw [count_freeMethods]
    cases cls.methods.items.head? with
    | none => exact Nat.zero_add _
    | some m =>
      rw [Option.elim_some, hzero m, Nat.zero_add]
  rw [count_freeClass h, hfreed, count_freeStringBuf, count_freeArrayBuf]
  cases b with
  | propertyQualifiers i =>
    obtain ⟨p, hp, hthere⟩ := hb
    rw [count_freeProperties, hp]
    cases cls.hdr.strBuf <;> cases cls.hdr.arrayBuf <;> simp [hthere]
  | methodQualifiers i => exact absurd rfl (hmethods i 0).1
  | parameters i => exact absurd rfl (hmethods i 0).2.1
  | parameterQualifiers i j => exact absurd rfl (hmethods i j).2.2
  | strIndex =>
    obtain ⟨buf, hbuf, hmalloced⟩ := hb
    rw [count_freeProperties_ne _ (by simp), hbuf]
    cases cls.hdr.arrayBuf <;> simp [hmalloced]
  | strBuf =>
    obtain ⟨buf, hbuf⟩ := hb
    rw [count_freeProperties_ne _ (by simp), hbuf]
    cases cls.hdr.arrayBuf <;> simp
  | arrayIndex =>
    obtain ⟨buf, hbuf, hmalloced⟩ := hb
    rw [count_freeProperties_ne _ (by simp), hbuf]
    cases cls.hdr.strBuf <;> simp [hmalloced]
  | arrayBuf =>
    obtain ⟨buf, hbuf⟩ := hb
    rw [count_freeProperties_ne _ (by simp), hbuf]
    cases cls.hdr.strBuf <;> simp
  | cls =>
    rw [count_freeProperties_ne _ (by simp)]
    cases cls.hdr.strBuf <;> cases cls.hdr.arrayBuf <;> simp
  | qualifiers | properties | methods =>
    rw [count_freeProperties_ne _ (by simp)]
    have hthere := hb
    unfold ClClass.Allocated at hthere
    cases cls.hdr.strBuf <;> cases cls.hdr.arrayBuf <;> simp [hthere]

theorem count_methodQualifiers (h : Tidy cls) (i : Nat) :
    (clClassFreeClass cls).count (.methodQualifiers i) =
      cls.methods.items.head?.elim 0 fun m => m.qualifiers.items.length *
        if m.qualifiers.there = true ∧ 0 = i then 1 else 0 := by
  rw [count_freeClass h, count_freeStringBuf, count_freeArrayBuf, count_freeMethods,
    count_freeProperties_ne _ (by simp)]
  simp only [count_freeParameters]
  cases cls.methods.items.head? with
  | none => cases cls.hdr.strBuf <;> cases cls.hdr.arrayBuf <;> simp
  | some m =>
    simp only [Option.elim_some]
    cases m.parameters.items.head? <;> cases cls.hdr.strBuf <;> cases cls.hdr.arrayBuf <;>
      simp

theorem count_parameters (h : Tidy cls) (i : Nat) :
    (clClassFreeClass cls).count (.parameters i) =
      cls.methods.items.head?.elim 0 fun m => m.parameters.items.length *
        if m.parameters.there = true ∧ 0 = i then 1 else 0 := by
  rw [count_freeClass h, count_freeStringBuf, count_freeArrayBuf, count_freeMethods,
    count_freeProperties_ne _ (by simp)]
  simp only [count_freeParameters]
  cases cls.methods.items.head? with
  | none => cases cls.hdr.strBuf <;> cases cls.hdr.arrayBuf <;> simp
  | some m =>
    simp only [Option.elim_some]
    cases m.parameters.items.head? <;> cases cls.hdr.strBuf <;> cases cls.hdr.arrayBuf <;>
      simp

theorem count_parameterQualifiers (h : Tidy cls) (i j : Nat) :
    (clClassFreeClass cls).count (.parameterQualifiers i j) =
      cls.methods.items.head?.elim 0 fun m => m.parameters.items.length *
        m.parameters.items.head?.elim 0 fun p => p.qualifiers.items.length *
          if p.qualifiers.there = true ∧ 0 = i ∧ 0 = j then 1 else 0 := by
  rw [count_freeClass h, count_freeStringBuf, count_freeArrayBuf, count_freeMethods,
    count_freeProperties_ne _ (by simp)]
  simp only [count_freeParameters]
  cases cls.methods.items.head? with
  | none => cases cls.hdr.strBuf <;> cases cls.hdr.arrayBuf <;> simp
  | some m =>
    simp only [Option.elim_some]
    cases m.parameters.items.head? <;> cases cls.hdr.strBuf <;> cases cls.hdr.arrayBuf <;>
      simp

/-- A loop that frees a section as often as it has items. -/
theorem length_le_one {α : Type} {s : ClSection α} (h : s.Tidy)
    (hcount : s.there = true → s.items.length = 1) : s.items.length ≤ 1 := by
  by_cases hthere : s.there = true
  · exact Nat.le_of_eq (hcount hthere)
  · rw [h.items_nil (Bool.eq_false_iff.mpr hthere)]
    exact Nat.zero_le _

theorem length_eq_one {α : Type} {s : ClSection α} (h : s.Tidy) (hthere : s.there = true)
    (hle : s.items.length ≤ 1) : s.items.length = 1 :=
  Nat.le_antisymm hle (List.length_pos_iff.mpr (h.mp hthere))

/-- A section that is there is not empty, so one without items is not there. -/
theorem nil_of_not_there {α : Type} {s : ClSection α} (h : s.Tidy) (hnot : ¬ s.there = true) :
    s.items = [] := h.items_nil (Bool.eq_false_iff.mpr hnot)

theorem releasable_of_once (h : Tidy cls) (hreleased : ReleasedOnce cls) : Releasable cls := by
  refine ⟨fun i m hi hm => ?_, fun m hm => ?_⟩
  · obtain ⟨hqualifiers, hparameters, -⟩ := h.method m (List.mem_of_getElem? hm)
    refine ⟨nil_of_not_there hqualifiers fun hthere => ?_,
      nil_of_not_there hparameters fun hthere => ?_⟩
    · have hone := hreleased (.methodQualifiers i) ⟨m, hm, hthere⟩
      rw [count_methodQualifiers h] at hone
      cases hhead : cls.methods.items.head? <;> simp [hhead, Ne.symm hi] at hone
    · have hone := hreleased (.parameters i) ⟨m, hm, hthere⟩
      rw [count_parameters h] at hone
      cases hhead : cls.methods.items.head? <;> simp [hhead, Ne.symm hi] at hone
  · have hm₀ : cls.methods.items[0]? = some m := by rw [← List.head?_eq_getElem?, hm]
    obtain ⟨hqualifiers, hparameters, hinner⟩ := h.method m (List.mem_of_getElem? hm₀)
    have hlength : m.parameters.items.length ≤ 1 := by
      refine length_le_one hparameters fun hthere => ?_
      have hone := hreleased (.parameters 0) ⟨m, hm₀, hthere⟩
      rw [count_parameters h, hm] at hone
      simpa [hthere] using hone
    refine ⟨length_le_one hqualifiers fun hthere => ?_, hlength, fun p hp => ?_⟩
    · have hone := hreleased (.methodQualifiers 0) ⟨m, hm₀, hthere⟩
      rw [count_methodQualifiers h, hm] at hone
      simpa [hthere] using hone
    · have hitems : m.parameters.items = [p] := by
        obtain ⟨q, hq⟩ := List.length_eq_one_iff.mp
          (Nat.le_antisymm hlength (List.length_pos_of_mem hp))
        rw [hq] at hp ⊢
        rw [List.mem_singleton.mp hp]
      refine length_le_one (hinner p hp) fun hthere => ?_
      have hone := hreleased (.parameterQualifiers 0 0) ⟨m, p, hm₀, by rw [hitems]; rfl, hthere⟩
      rw [count_parameterQualifiers h, hm, Option.elim_some, hitems] at hone
      simpa [hthere] using hone

theorem once_of_releasable (h : Tidy cls) (hreleasable : Releasable cls) : ReleasedOnce cls := by
  intro b hb
  cases b with
  | methodQualifiers i =>
    obtain ⟨m, hm, hthere⟩ := hb
    obtain ⟨hqualifiers, -, -⟩ := h.method m (List.mem_of_getElem? hm)
    by_cases hi : i = 0
    · subst hi
      rw [← List.head?_eq_getElem?] at hm
      rw [count_methodQualifiers h, hm, Option.elim_some, if_pos ⟨hthere, rfl⟩, Nat.mul_one]
      exact length_eq_one hqualifiers hthere (hreleasable.first m hm).1
    · exact absurd (hreleasable.others i m hi hm).1 (hqualifiers.mp hthere)
  | parameters i =>
    obtain ⟨m, hm, hthere⟩ := hb
    obtain ⟨-, hparameters, -⟩ := h.method m (List.mem_of_getElem? hm)
    by_cases hi : i = 0
    · subst hi
      rw [← List.head?_eq_getElem?] at hm
      rw [count_parameters h, hm, Option.elim_some, if_pos ⟨hthere, rfl⟩, Nat.mul_one]
      exact length_eq_one hparameters hthere (hreleasable.first m hm).2.1
    · exact absurd (hreleasable.others i m hi hm).2 (hparameters.mp hthere)
  | parameterQualifiers i j =>
    obtain ⟨m, p, hm, hp, hthere⟩ := hb
    have hmem := List.mem_of_getElem? hp
    obtain ⟨-, -, hinner⟩ := h.method m (List.mem_of_getElem? hm)
    by_cases hi : i = 0
    · subst hi
      rw [← List.head?_eq_getElem?] at hm
      obtain ⟨-, hlength, hall⟩ := hreleasable.first m hm
      obtain ⟨q, hitems⟩ := List.length_eq_one_iff.mp
        (Nat.le_antisymm hlength (List.length_pos_of_mem hmem))
      rw [hitems] at hp hmem
      obtain rfl := List.mem_singleton.mp hmem
      obtain rfl : j = 0 := by
        have := (List.getElem?_eq_some_iff.mp hp).1
        simpa using this
      have hone := length_eq_one (hinner p (by rw [hitems]; exact List.mem_singleton_self _))
        hthere (hall p (by rw [hitems]; exact List.mem_singleton_self _))
      rw [count_parameterQualifiers h, hm, Option.elim_some, hitems]
      simp [hthere, hone]
    · have hnil := (hreleasable.others i m hi hm).2
      rw [hnil] at hmem
      exact absurd hmem List.not_mem_nil
  | cls | strIndex | strBuf | arrayIndex | arrayBuf | qualifiers | properties | methods
  | propertyQualifiers i => exact count_apart h hb (by simp)

end Releasing

/-- Of a class that was built, everything is freed exactly once if and only if only the first
method has qualifiers or parameters, one of each at most, and one qualifier of the parameter. -/
theorem releasedOnce_iff {cn pa : Option CStr} {ops : List ClassOp} {cls₀ cls : ClClass}
    (hnew : newClassH cn pa = some cls₀) (hbuilt : applyAll ClClass.apply cls₀ ops = some cls) :
    ReleasedOnce cls ↔ Releasable cls := by
  have h := applyAll_tidy (newClassH_tidy hnew) hbuilt
  exact ⟨releasable_of_once h, once_of_releasable h⟩

/-- What a class is built of: a property with a qualifier, and methods with parameters. -/
def someClass (methods : List ClassOp) : Option ClClass :=
  (newClassH (some (lit "CIM_Job")) none).bind fun cls =>
    applyAll ClClass.apply cls (
      [.property (lit "Name") ⟨CMPIBase.chars.simple, nullValue, .word 0⟩ none,
        .propertyQualifier 0 (lit "Write") ⟨CMPIBase.boolean.simple, 0, .word 1⟩,
        .method (lit "Start") CMPIBase.uint32.simple] ++ methods)

/-- One parameter is given back as it should be. -/
theorem releasedOnce_iff_parameter :
    ∃ cls, someClass [.parameter 0 (lit "Force") ⟨CMPIBase.boolean.simple, 0, none⟩] = some cls ∧
      ReleasedOnce cls := by
  have hall : (someClass [.parameter 0 (lit "Force") ⟨CMPIBase.boolean.simple, 0, none⟩]).any
      (fun cls => cls.methods.items.length = 1 ∧ cls.methods.items.all fun m =>
        m.qualifiers.items.length ≤ 1 ∧ m.parameters.items.length ≤ 1 ∧
          m.parameters.items.all fun p => p.qualifiers.items.length ≤ 1) = true := by decide
  obtain ⟨cls, hcls, hshape⟩ := (Option.any_eq_true ..).mp hall
  obtain ⟨hlength, hmethods⟩ := of_decide_eq_true hshape
  obtain ⟨cls₀, hnew, hbuilt⟩ := Option.bind_eq_some_iff.mp hcls
  refine ⟨cls, hcls, (releasedOnce_iff hnew hbuilt).mpr ⟨fun i m hi hm => ?_, fun m hm => ?_⟩⟩
  · have hlt := (List.getElem?_eq_some_iff.mp hm).1
    omega
  · obtain ⟨hqualifiers, hparameters, hinner⟩ := of_decide_eq_true
      (List.all_eq_true.mp hmethods m (List.mem_of_mem_head? hm))
    exact ⟨hqualifiers, hparameters, fun p hp =>
      of_decide_eq_true (List.all_eq_true.mp hinner p hp)⟩

/-- Of two parameters the section is freed twice, and the parameter of a second method is
never freed. -/
theorem not_releasedOnce : ∃ cls,
    someClass [.parameter 0 (lit "Force") ⟨CMPIBase.boolean.simple, 0, none⟩,
      .parameter 0 (lit "Delay") ⟨CMPIBase.uint32.simple, 0, none⟩,
      .method (lit "Stop") CMPIBase.uint32.simple,
      .parameter 1 (lit "Force") ⟨CMPIBase.boolean.simple, 0, none⟩] = some cls ∧
    cls.Allocated (.parameters 0) ∧ (clClassFreeClass cls).count (.parameters 0) = 2 ∧
    cls.Allocated (.parameters 1) ∧ (clClassFreeClass cls).count (.parameters 1) = 0 ∧
    ¬ ReleasedOnce cls := by
  have hall : (someClass [.parameter 0 (lit "Force") ⟨CMPIBase.boolean.simple, 0, none⟩,
      .parameter 0 (lit "Delay") ⟨CMPIBase.uint32.simple, 0, none⟩,
      .method (lit "Stop") CMPIBase.uint32.simple,
      .parameter 1 (lit "Force") ⟨CMPIBase.boolean.simple, 0, none⟩]).any (fun cls =>
        cls.methods.items.map (fun m => m.parameters.there) = [true, true] ∧
        (clClassFreeClass cls).count (.parameters 0) = 2 ∧
        (clClassFreeClass cls).count (.parameters 1) = 0) = true := by decide
  obtain ⟨cls, hcls, hshape⟩ := (Option.any_eq_true ..).mp hall
  obtain ⟨hthere, hzero, hone⟩ := of_decide_eq_true hshape
  have hallocated : ∀ i, (cls.methods.items.map fun m => m.parameters.there)[i]? = some true →
      cls.Allocated (.parameters i) := by
    intro i hi
    rw [List.getElem?_map] at hi
    exact Option.map_eq_some_iff.mp hi
  have hfirst := hallocated 0 (by rw [hthere]; rfl)
  refine ⟨cls, hcls, hfirst, hzero, hallocated 1 (by rw [hthere]; rfl), hone, fun hreleased => ?_⟩
  exact absurd (hzero.symm.trans (hreleased _ hfirst)) (by decide)

end Sfcb.Object
