import Sfcb.Object.ObjectImpl

/-!
# The kinds of objects

Classes, instances, object paths and argument lists (`objectImpl.h`), how they are made
and how a property is added to each of them. A `ClString` is the id of a string, zero
for none. What is cleared and never read is left out.
-/

namespace Sfcb.Object

open Sfcb.Lib

/-- `ClParameter` with its `CMPIParameter`; `refName` has the id of a string. -/
structure ClParameter where
  id : Nat
  type : CMPIType
  arraySize : Nat
  refName : Nat
  quals : Nat
  qualifiers : ClSection ClQualifier
  deriving DecidableEq, Repr

/-- `ClMethod`. -/
structure ClMethod where
  id : Nat
  type : CMPIType
  flags : Nat
  quals : Nat
  originId : Nat
  qualifiers : ClSection ClQualifier
  parameters : ClSection ClParameter
  deriving DecidableEq, Repr

/-- `ClClass`. -/
structure ClClass where
  hdr : ObjectHdr
  quals : Nat
  parents : Nat
  name : Nat
  parent : Nat
  qualifiers : ClSection ClQualifier
  properties : ClSection ClProperty
  methods : ClSection ClMethod
  deriving DecidableEq, Repr

/-- `ClInstance`. -/
structure ClInstance where
  hdr : ObjectHdr
  quals : Nat
  parents : Nat
  className : Nat
  nameSpace : Nat
  qualifiers : ClSection ClQualifier
  properties : ClSection ClProperty
  deriving DecidableEq, Repr

/-- `ClObjectPath`. -/
structure ClObjectPath where
  hdr : ObjectHdr
  hostName : Nat
  nameSpace : Nat
  className : Nat
  properties : ClSection ClProperty
  deriving DecidableEq, Repr

/-- `ClArgs`. -/
structure ClArgs where
  hdr : ObjectHdr
  properties : ClSection ClProperty
  deriving DecidableEq, Repr

/-! ## New objects -/

/-- `newClassH`. -/
def newClassH (cn pa : Option CStr) : Option ClClass := do
  let (hdr, name) ← addClStringOrNone (.new .cls) cn
  let (hdr, parent) ← addClStringOrNone hdr pa
  return { hdr, quals := 0, parents := if pa.isSome then 1 else 0, name, parent,
           qualifiers := .clear, properties := .clear, methods := .clear }

/-- `newInstanceH`. -/
def newInstanceH (ns cn : Option CStr) : Option ClInstance := do
  let (hdr, nameSpace) ← addClStringOrNone (.new .inst) ns
  let (hdr, className) ← addClStringOrNone hdr cn
  return { hdr, quals := 0, parents := 0, className, nameSpace, qualifiers := .clear,
           properties := .clear }

/-- `newObjectPathH`. -/
def newObjectPathH (ns cn : Option CStr) : Option ClObjectPath := do
  let (hdr, nameSpace) ← addClStringOrNone (.new .objectPath) ns
  let (hdr, className) ← addClStringOrNone hdr cn
  return { hdr, hostName := 0, nameSpace, className, properties := .clear }

/-- `newArgsH`. -/
def newArgsH : ClArgs := { hdr := .new .args, properties := .clear }

/-! ## The properties of an object -/

def ClClass.store (cls : ClClass) : PropertyStore := ⟨cls.hdr, cls.properties⟩

def ClInstance.store (inst : ClInstance) : PropertyStore := ⟨inst.hdr, inst.properties⟩

def ClObjectPath.store (op : ClObjectPath) : PropertyStore := ⟨op.hdr, op.properties⟩

def ClArgs.store (arg : ClArgs) : PropertyStore := ⟨arg.hdr, arg.properties⟩

/-- `ClClassAddProperty`. -/
def clClassAddProperty (cls : ClClass) (id : CStr) (d : CMPIData) (refName : Option CStr) :
    Option (ClClass × Int) :=
  (addObjectPropertyH cls.store id d refName).map fun r =>
    ({ cls with hdr := r.1.hdr, properties := r.1.properties }, r.2)

/-- `ClInstanceAddProperty`. -/
def clInstanceAddProperty (inst : ClInstance) (id : CStr) (d : CMPIData) :
    Option (ClInstance × Int) :=
  (addObjectPropertyH inst.store id d none).map fun r =>
    ({ inst with hdr := r.1.hdr, properties := r.1.properties }, r.2)

/-- `ClObjectPathAddKey`. -/
def clObjectPathAddKey (op : ClObjectPath) (id : CStr) (d : CMPIData) :
    Option (ClObjectPath × Int) :=
  (addObjectPropertyH op.store id d none).map fun r =>
    ({ op with hdr := r.1.hdr, properties := r.1.properties }, r.2)

/-- `ClArgsAddArg`. -/
def clArgsAddArg (arg : ClArgs) (id : CStr) (d : CMPIData) : Option (ClArgs × Int) :=
  (addObjectPropertyH arg.store id d none).map fun r =>
    ({ arg with hdr := r.1.hdr, properties := r.1.properties }, r.2)

end Sfcb.Object
