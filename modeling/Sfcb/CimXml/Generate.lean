import Sfcb.CimXml.Escape

/-!
# The XML of instances

`cimXmlGen.c` writes instances, references and the values in them. Everything is appended to a
buffer; here a function returns what it appends.

Mirroring notes:
- The outcome `none` is the end of the process: `abort`, a null pointer that is followed, or a
  text that `XMLEscape` has no memory for.
- A real number is what `%.7e` or `%.16e` prints for it, a date its text.
- A value whose state is not good is `null`, with its type. References and instances have the
  null pointer for that. Keys have values: `keyBinding2xml` does not look at the state.
- `instanceName2xml` is part of `refValue2xml`, and the tags of `DATA2XML` are `propertyTags`.
- `gethostname` is what the system says. It is asked when a path has no host.
- The string buffer counts with `int`, and its size doubles: texts are below 2 ^ 30 bytes here.
- Classes and declarations of qualifiers are left out.
-/

namespace Sfcb.CimXml.Generate

open Sfcb.Lib

/-! ## Values -/

inductive Width where
  | b8 | b16 | b32 | b64
deriving DecidableEq, Repr

/-- The types that are no references or instances. -/
inductive SimpleType where
  | boolean
  | char16
  | uint (width : Width)
  | sint (width : Width)
  | real32
  | real64
  | string
  | dateTime
deriving DecidableEq, Repr

/-- The types, but for arrays of them. -/
inductive CMPIType where
  | simple (type : SimpleType)
  | ref
  | inst
deriving DecidableEq, Repr

/-- The qualifiers of an instance that its header has a bit for. -/
structure Quals where
  abstract : Bool
  association : Bool
  indication : Bool
  key : Bool
  embeddedObject : Bool
deriving DecidableEq, Repr

mutual

/-- `CMPIData`. -/
inductive Value where
  | null (type : SimpleType)
  | boolean (b : Bool)
  | char16 (c : UInt16)
  | uint (width : Width) (n : Nat)
  | sint (width : Width) (n : Int)
  | real32 (chars : CStr)
  | real64 (chars : CStr)
  | string (chars : Option CStr)
  | dateTime (chars : Option CStr)
  | ref (path : Option ObjectPath)
  | inst (ci : Option Instance)
  /-- The elements of an array may be null. -/
  | array (type : CMPIType) (good : Bool) (elms : List (Option Value))

inductive ObjectPath where
  | mk (hostname nameSpace : Option CStr) (className : CStr) (keys : List (CStr × Value))

/-- A property has a name, a flag that says that it was filtered out, and data. -/
inductive Instance where
  | mk (className : CStr) (quals : Quals) (properties : List (CStr × Bool × Value))

end

/-- The type of a value that is no array. -/
def Value.type : Value → CMPIType
  | .null type => .simple type
  | .boolean _ => .simple .boolean
  | .char16 _ => .simple .char16
  | .uint width _ => .simple (.uint width)
  | .sint width _ => .simple (.sint width)
  | .real32 _ => .simple .real32
  | .real64 _ => .simple .real64
  | .string _ => .simple .string
  | .dateTime _ => .simple .dateTime
  | .ref _ => .ref
  | .inst _ => .inst
  | .array type _ _ => type

def dataType : CMPIType → CStr
  | .simple .boolean => lit "boolean"
  | .simple .char16 => lit "char16"
  | .simple (.uint .b8) => lit "uint8"
  | .simple (.uint .b16) => lit "uint16"
  | .simple (.uint .b32) => lit "uint32"
  | .simple (.uint .b64) => lit "uint64"
  | .simple (.sint .b8) => lit "sint8"
  | .simple (.sint .b16) => lit "sint16"
  | .simple (.sint .b32) => lit "sint32"
  | .simple (.sint .b64) => lit "sint64"
  | .simple .real32 => lit "real32"
  | .simple .real64 => lit "real64"
  | .simple .string => lit "string"
  | .simple .dateTime => lit "datetime"
  | .ref => lit "*"
  | .inst => lit "%"

/-- The switch has no case for the other types, nor for arrays. -/
def keyType (data : Value) : Option CStr :=
  match data with
  | .array .. => none
  | data =>
    match data.type with
    | .simple .string | .simple .dateTime => some (lit "string")
    | .simple (.uint _) | .simple (.sint _) => some (lit "numeric")
    | .simple .boolean => some (lit "boolean")
    | .ref => some (lit "*")
    | _ => none

/-! ## Paths -/

/-- `x && *x`. -/
def present (s : Option CStr) : Option CStr := s.filter (· ≠ [])

/-- The pieces between the slashes: the loop with `strchr`. -/
def nameSpaces : CStr → List CStr
  | [] => [[]]
  | c :: ns =>
    if c = 47 then [] :: nameSpaces ns
    else
      match nameSpaces ns with
      | [] => [[c]]
      | n :: rest => (c :: n) :: rest

def lnsPath2xml (nameSpace : Option CStr) : CStr :=
  match present nameSpace with
  | none => []
  | some ns =>
    lit "<LOCALNAMESPACEPATH>\n" ++
      (nameSpaces ns).flatMap (fun n => lit "<NAMESPACE NAME=\"" ++ n ++ lit "\"/>\n") ++
      lit "</LOCALNAMESPACEPATH>\n"

def nsPath2xml (gethostname hostname nameSpace : Option CStr) : CStr :=
  lit "<NAMESPACEPATH>\n" ++ lit "<HOST>" ++
    (present hostname).getD (gethostname.getD (lit "localhost")) ++ lit "</HOST>\n" ++
    lnsPath2xml nameSpace ++ lit "</NAMESPACEPATH>\n"

/-- What `refValue2xml` has around the name of an instance. -/
def around (gethostname hostname nameSpace : Option CStr) (name : CStr) : CStr :=
  match present nameSpace with
  | none => name
  | some _ =>
    match present hostname with
    | some _ =>
      lit "<INSTANCEPATH>\n" ++ nsPath2xml gethostname hostname nameSpace ++ name ++
        lit "</INSTANCEPATH>\n"
    | none =>
      lit "<LOCALINSTANCEPATH>\n" ++ lnsPath2xml nameSpace ++ name ++ lit "</LOCALINSTANCEPATH>\n"

/-! ## Values, references and instances -/

/-- What `value2xml` prints for a value, and `none` for a type that it aborts at. -/
def Value.chars : Value → Option CStr
  | .boolean b => some (if b then lit "TRUE" else lit "FALSE")
  | .char16 c => some [c.toUInt8]
  | .uint _ n => some (printInt n)
  | .sint _ n => some (printInt n)
  | .real32 chars | .real64 chars => some chars
  | .string none => some []
  | .string (some s) => XMLEscape s
  | .dateTime chars => some (chars.getD [])
  | .null _ | .ref _ | .inst _ | .array .. => none

/-- The tags of a value, if they are asked for. -/
def inValue (wv : Bool) (chars : CStr) : CStr :=
  if wv then lit "<VALUE>" ++ chars ++ lit "</VALUE>\n" else chars

/-- The tags of a property. -/
def propertyTags : Value → CStr × CStr
  | .array .. => (lit "<PROPERTY.ARRAY NAME=\"", lit "</PROPERTY.ARRAY>\n")
  | .ref _ => (lit "<PROPERTY.REFERENCE NAME=\"", lit "</PROPERTY.REFERENCE>\n")
  | _ => (lit "<PROPERTY NAME=\"", lit "</PROPERTY>\n")

/-- How `data2xml` goes on behind a name, with the type of an array. -/
def arrayType : CMPIType → CStr
  | .ref => lit "reference"
  | .inst => lit "string\" EmbeddedObject=\"object"
  | type => dataType type

/-- The tags around the elements of an array. -/
def arrayTags : CMPIType → CStr × CStr
  | .ref => (lit "<VALUE.REFARRAY>\n", lit "</VALUE.REFARRAY>\n")
  | _ => (lit "<VALUE.ARRAY>\n", lit "</VALUE.ARRAY>\n")

/-- The attribute for the type of a property or of a parameter. -/
def typeAttr (param : Bool) : CStr := if param then lit "\" PARAMTYPE=\"" else lit "\" TYPE=\""

def boolQualifier (name : CStr) : CStr :=
  lit "<QUALIFIER NAME=\"" ++ name ++ lit "\" TYPE=\"boolean\">\n" ++ lit "<VALUE>TRUE</VALUE>\n" ++
    lit "</QUALIFIER>\n"

def quals2xml (quals : Quals) : CStr :=
  (if quals.abstract then boolQualifier (lit "Abstract") else []) ++
    (if quals.association then boolQualifier (lit "Association") else []) ++
    (if quals.indication then boolQualifier (lit "Indication") else []) ++
    (if quals.key then boolQualifier (lit "Key") else []) ++
    (if quals.embeddedObject then boolQualifier (lit "EmbeddedObject") else [])

section

variable (gethostname : Option CStr)

mutual

def value2xml (d : Value) (wv : Bool) : Option CStr :=
  match d with
  | .array .. => some (lit "**[]**")
  | .inst (some ci) =>
    (instance2xml ci false).map fun chars => inValue wv (lit "<![CDATA[" ++ chars ++ lit "]]>")
  | d => d.chars.map (inValue wv)
termination_by (sizeOf d, 0)

def refValue2xml (ci : Option ObjectPath) : Option CStr :=
  match ci with
  | none => some (lit "<VALUE.REFERENCE>\n" ++ lit "</VALUE.REFERENCE>\n")
  | some ⟨hostname, nameSpace, className, keys⟩ =>
    (keyBinding2xml keys).map fun bindings =>
      lit "<VALUE.REFERENCE>\n" ++
        around gethostname hostname nameSpace
          (lit "<INSTANCENAME CLASSNAME=\"" ++ className ++ lit "\">\n" ++ bindings ++
            lit "</INSTANCENAME>\n") ++
        lit "</VALUE.REFERENCE>\n"
termination_by (sizeOf ci, 0)

def keyBinding2xml (keys : List (CStr × Value)) : Option CStr :=
  match keys with
  | [] => some []
  | (name, .ref (some path)) :: keys =>
    (refValue2xml (some path)).bind fun value =>
      (keyBinding2xml keys).map fun rest =>
        lit "<KEYBINDING NAME=\"" ++ name ++ lit "\">\n" ++ value ++ lit "</KEYBINDING>\n" ++ rest
  | (name, data) :: keys =>
    (keyType data).bind fun type =>
      (value2xml data false).bind fun value =>
        (keyBinding2xml keys).map fun rest =>
          lit "<KEYBINDING NAME=\"" ++ name ++ lit "\">\n" ++
            (lit "<KEYVALUE VALUETYPE=\"" ++ type ++ lit "\">" ++ value ++ lit "</KEYVALUE>\n") ++
            lit "</KEYBINDING>\n" ++ rest
termination_by (sizeOf keys, 0)

/-- The loop of `data2xml` over an array. -/
def elements2xml (elms : List (Option Value)) : Option CStr :=
  match elms with
  | [] => some []
  | none :: elms => elements2xml elms
  | some (.ref path) :: elms =>
    (refValue2xml path).bind fun value => (elements2xml elms).map fun rest => value ++ rest
  | some d :: elms =>
    (value2xml d true).bind fun value => (elements2xml elms).map fun rest => value ++ rest
termination_by (sizeOf elms, 0)

/-- `data2xml` with a name, the tags of the data, and whether it is a parameter. -/
def data2xml (data : Value) (name : CStr) (tags : CStr × CStr) (param : Bool) : Option CStr :=
  match data with
  | .array type good elms =>
    (if good then (elements2xml elms).map fun es => (arrayTags type).1 ++ es ++ (arrayTags type).2
      else some []).map fun es =>
        tags.1 ++ name ++ typeAttr param ++ arrayType type ++ lit "\">\n" ++ es ++ tags.2
  | .ref none =>
    some (tags.1 ++ name ++ (if param then lit "\" PARAMTYPE=\"reference" else []) ++ lit "\">\n" ++
      tags.2)
  | .ref (some path) =>
    (refValue2xml (some path)).map fun value =>
      tags.1 ++ name ++ (if param then lit "\" PARAMTYPE=\"reference" else []) ++ lit "\">\n" ++
        value ++ tags.2
  | .inst none =>
    some (tags.1 ++ name ++ lit "\" EmbeddedObject=\"object" ++ typeAttr param ++
      lit "string\">\n" ++ tags.2)
  | .inst (some ci) =>
    (instance2xml ci false).map fun chars =>
      tags.1 ++ name ++ lit "\" EmbeddedObject=\"object" ++ typeAttr param ++ lit "string\">\n" ++
        (lit "<VALUE>" ++ (lit "<![CDATA[" ++ chars ++ lit "]]>") ++ lit "</VALUE>\n") ++ tags.2
  | .null type =>
    some (tags.1 ++ name ++ typeAttr param ++ dataType (.simple type) ++ lit "\">\n" ++ tags.2)
  | d =>
    (value2xml d true).map fun value =>
      tags.1 ++ name ++ typeAttr param ++ dataType d.type ++ lit "\">\n" ++ value ++ tags.2
termination_by (sizeOf data, 1)

/-- The loop of `instance2xml`. -/
def properties2xml (ps : List (CStr × Bool × Value)) : Option CStr :=
  match ps with
  | [] => some []
  | (_, true, _) :: ps => properties2xml ps
  | (name, false, data) :: ps =>
    (data2xml data name (propertyTags data) false).bind fun value =>
      (properties2xml ps).map fun rest => value ++ rest
termination_by (sizeOf ps, 0)

/-- `instance2xml`, with the flag for qualifiers. -/
def instance2xml (ci : Instance) (includeQualifiers : Bool) : Option CStr :=
  match ci with
  | ⟨className, quals, properties⟩ =>
    (properties2xml properties).map fun ps =>
      lit "<INSTANCE CLASSNAME=\"" ++ className ++ lit "\">\n" ++
        ((if includeQualifiers then quals2xml quals else []) ++ ps) ++ lit "</INSTANCE>\n"
termination_by (sizeOf ci, 0)

end

end

end Sfcb.CimXml.Generate
