import Sfcb.ClassProvider.MergedMethods

/-!
# The merged class

`mergeParents` copies the superclass to a new class and then the class behind it. `Merged` is what
this should come to: every property and every method of the two once, those of the class as it
declares them and the others as the superclass has them. `mergeParents` comes to that for the
classes that are `Mergeable`, where there is room for the result.

What stands in the way:
- A bit of a property is not copied. The new property has it if an embedded instance is stored.
- A qualifier that is there is not given a new value.
- A string is stored over another as a pointer.
- The name of a referenced class is freed, and references and arrays are not taken for what they
  are.
- A method takes its qualifiers and parameters by a place of the target.
- `locateParameter` finds nothing, so that parameters are put behind those that are inherited.
-/

namespace Sfcb.ClassMerge

open Sfcb.Lib
open Sfcb.Object (CMPIBase)

structure Class.WellFormed (cl : Class) : Prop where
  properties : PropertiesWellFormed cl.properties
  methods : MethodsWellFormed cl.methods

/-- `m` is the class that declares what `c` does and inherits from `p`. -/
structure Merged (p c m : Class) : Prop where
  properties : PropertiesMerged p.properties c.properties m.properties
  methods : MethodsMerged p.methods c.methods m.methods

/-- The classes for which the code does what it should. -/
structure Mergeable (p c : Class) : Prop where
  properties : PropertiesMergeable p.properties c.properties
  methods : MethodsMergeable p.methods c.methods

section Classes

variable {cl ccl p c m : Class} {pn : CStr}

theorem each_properties_methods (h : ccl.WellFormed) (cl : Class) :
    (Class.each Class.cpyProperty cl ccl.properties).bind
        (fun cl => Class.each (Class.cpyMethod ccl.methods) cl ccl.methods) =
      (cpyProperties cl.properties ccl.properties).bind fun ps =>
        (cpyMethods ccl.methods cl.methods ccl.methods).map fun ms =>
          { cl with properties := ps, methods := ms } := by
  rw [each_cpyProperty h.properties.ordinary]
  cases cpyProperties cl.properties ccl.properties with
  | none => rfl
  | some ps => exact each_cpyMethod ccl.methods _ ccl.methods

/-- A class is copied as its properties and its methods are. -/
theorem cpyClass_eq (h : ccl.WellFormed) (cl : Class) : ∃ quals qualifiers,
    cpyClass cl ccl = (cpyProperties cl.properties ccl.properties).bind fun ps =>
      (cpyMethods ccl.methods cl.methods ccl.methods).map fun ms =>
        ⟨cl.name, cl.parent, quals, qualifiers, ps, ms⟩ :=
  ⟨_, _, each_properties_methods h _⟩

theorem cpyClass_eq_some (h : ccl.WellFormed) (hm : cpyClass cl ccl = some m) :
    cpyProperties cl.properties ccl.properties = some m.properties ∧
      cpyMethods ccl.methods cl.methods ccl.methods = some m.methods := by
  obtain ⟨quals, qualifiers, heq⟩ := cpyClass_eq h cl
  rw [heq] at hm
  obtain ⟨ps, hps, hm⟩ := Option.bind_eq_some_iff.mp hm
  obtain ⟨ms, hms, rfl⟩ := Option.map_eq_some_iff.mp hm
  exact ⟨hps, hms⟩

theorem exists_cpyClass (h : ccl.WellFormed) {ps : List Property} {ms : List Method}
    (hps : cpyProperties cl.properties ccl.properties = some ps)
    (hms : cpyMethods ccl.methods cl.methods ccl.methods = some ms) :
    ∃ m, cpyClass cl ccl = some m ∧ m.properties = ps ∧ m.methods = ms := by
  obtain ⟨quals, qualifiers, heq⟩ := cpyClass_eq h cl
  rw [heq, hps, hms]
  exact ⟨_, rfl, rfl, rfl⟩

theorem mergeParents_eq_some (h : mergeParents p c pn = some m) : Roomy p c pn ∧
    (cpyClass (clClassNew c.name pn) p).bind (cpyClass · c) = some m := by
  unfold mergeParents at h
  split at h
  · next hroom => exact ⟨hroom, h⟩
  · cases h

/-- What is merged is well-formed, whether it is merged as it should be or not. -/
theorem mergeParents_wellFormed (hp : p.WellFormed) (hc : c.WellFormed)
    (h : mergeParents p c pn = some m) : m.WellFormed := by
  obtain ⟨-, h⟩ := mergeParents_eq_some h
  obtain ⟨m₁, hm₁, hm⟩ := Option.bind_eq_some_iff.mp h
  obtain ⟨hps₁, hms₁⟩ := cpyClass_eq_some hp hm₁
  obtain ⟨hps, hms⟩ := cpyClass_eq_some hc hm
  have hproperties : PropertiesWellFormed [] := ⟨by simp, by simp, by simp⟩
  have hmethods : MethodsWellFormed [] := ⟨by simp, by simp, by simp⟩
  constructor
  · exact wellFormed_cpyProperties
      (wellFormed_cpyProperties hproperties hp.properties.ordinary hps₁) hc.properties.ordinary hps
  · exact wellFormed_cpyMethods (wellFormed_cpyMethods hmethods hms₁) hms

/-- A base class whose method has no parameters yet. -/
def exampleBase : Class :=
  { name := lit "CIM_Base"
    parent := none
    quals := ⟨false, false, false⟩
    qualifiers := []
    properties :=
      [⟨lit "Count", .number .uint32 rfl 1, none, false, false,
        [⟨lit "Description", ⟨CMPIBase.chars.simple, 0, .text (lit "a count")⟩⟩]⟩,
       ⟨lit "Caption", .text (lit "base"), none, false, false, []⟩]
    methods := [⟨lit "Reset", CMPIBase.uint32.simple, [], []⟩] }

/-- It is redeclared, in another spelling. -/
def exampleDerived : Class :=
  { name := lit "CIM_Derived"
    parent := some (lit "CIM_Base")
    quals := ⟨false, false, false⟩
    qualifiers := []
    properties :=
      [⟨lit "COUNT", .number .uint32 rfl 2, none, false, false, []⟩,
       ⟨lit "State", .null CMPIBase.uint16.simple, none, false, false, []⟩]
    methods :=
      [⟨lit "reset", CMPIBase.uint16.simple, [],
        [⟨lit "Force", ⟨CMPIBase.boolean.simple, 0, none⟩, []⟩]⟩,
       ⟨lit "Start", CMPIBase.uint32.simple, [], []⟩] }

theorem exampleBase_wellFormed : exampleBase.WellFormed where
  properties := ⟨by decide, by decide, by decide⟩
  methods := ⟨by decide, by decide, by decide⟩

theorem exampleDerived_wellFormed : exampleDerived.WellFormed where
  properties := ⟨by decide, by decide, by decide⟩
  methods := ⟨by decide, by decide, by decide⟩

/-- A base class with a key. -/
def keyedBase : Class :=
  { name := lit "CIM_Base"
    parent := none
    quals := ⟨false, false, false⟩
    qualifiers := []
    properties := [⟨lit "InstanceID", .null CMPIBase.chars.simple, none, true, false, []⟩]
    methods := [] }

/-- A class that only adds a property. -/
def keyedDerived : Class :=
  { name := lit "CIM_Derived"
    parent := some (lit "CIM_Base")
    quals := ⟨false, false, false⟩
    qualifiers := []
    properties := [⟨lit "State", .null CMPIBase.uint16.simple, none, false, false, []⟩]
    methods := [] }

end Classes

end Sfcb.ClassMerge
