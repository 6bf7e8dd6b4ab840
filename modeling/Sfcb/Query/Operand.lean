import Sfcb.Lib.CString

/-!
# Query operands and how they compare

`queryOperation.c` gives each operand of a WHERE clause a function table whose
`compare` entry returns a C `int`; the relational predicates only look at its
sign. This file embeds the operand kinds the parser can create (and the ones
`propCompare` creates on the fly) with their `compare` functions, and `match_re`,
the matcher behind `LIKE`.

Mirroring notes:
- A `CMPIValue` is a C union. It is kept as its 64 bits, so that a member read
  under another member's type (`charsCompare` reads `.chars` before it looks at
  the type) is the same bits here.
- What the bits mean as an address is the runtime's: `QLRuntime` says which C
  string or instance an address leads to. Reading a literal as a property name,
  which C leaves undefined, is `QLRuntime.wild`, an arbitrary outcome.
- Floating-point subtraction enters `doubleCompare` only through the sign of the
  difference, so only that sign is a parameter.
-/

namespace Sfcb.Query

open Sfcb.Lib

/-- The union's 64 bits. -/
abbrev CMPIValue := BitVec 64

/-- `enum qlOpd`, in the order of the source. -/
inductive QLOpd where
  | Invalid | NotFound | Null | Integer | UInteger | Double | Boolean | Chars | Char
  | PropertyName | Name | Inst | Ref | DateTime
  deriving DecidableEq, Repr

/-- The numeric value `(int)type` of an `enum qlOpd` constant. -/
def QLOpd.code : QLOpd → Int
  | .Invalid => 0 | .NotFound => 1 | .Null => 2 | .Integer => 3 | .UInteger => 4
  | .Double => 5 | .Boolean => 6 | .Chars => 7 | .Char => 8 | .PropertyName => 9
  | .Name => 10 | .Inst => 11 | .Ref => 12 | .DateTime => 13

/-- One link of a property name `a.b.c`. The class scope and the index are
collected by the parser and read by no evaluation function. -/
structure QLPropertyNameData where
  className : Option CStr
  propName : CStr
  index : Int
  deriving DecidableEq, Repr

/-- An operand, by its function table. `type` is kept where `propCompare`
overwrites it after construction. -/
inductive QLOperand where
  | int (type : QLOpd) (integerVal : CMPIValue)
  | double (doubleVal : CMPIValue)
  | boolean (booleanVal : BitVec 8)
  | chars (type : QLOpd) (charsVal : Option CStr)
  | name (charsVal : CStr)
  | prop (propertyName : List QLPropertyNameData)
  | inst (inst : CMPIValue)
  deriving DecidableEq, Repr

/-- `op->type`. -/
def QLOperand.type : QLOperand → QLOpd
  | .int t _ => t
  | .double _ => .Double
  | .boolean _ => .Boolean
  | .chars t _ => t
  | .name _ => .Name
  | .prop _ => .PropertyName
  | .inst _ => .Char

/-- `struct qlPropertySource`: where a property's value and type come from. -/
structure QLPropertySource where
  data : CMPIValue
  sns : CStr
  getValue : CMPIValue → CStr → CMPIValue × QLOpd

/-- The parts of the running process that operands reach through pointers. -/
structure QLRuntime where
  /-- the C string at an address, `none` for `NULL` -/
  charsAt : CMPIValue → Option CStr
  /-- the bits of the operand's union when it does not hold a number -/
  bits : QLOperand → CMPIValue
  /-- what `getPropValue` yields for an operand that is no property name -/
  wild : QLOperand → CMPIValue × QLOpd
  /-- `instGetClassName` -/
  instGetClassName : CMPIValue → CStr
  /-- `isChild(ns, parent, child)` -/
  isChild : CStr → CStr → CStr → Bool
  instanceCompare : CMPIValue → CMPIValue → Int
  /-- the sign of the difference of two doubles given by their bits -/
  doubleSign : CMPIValue → CMPIValue → Int
  /-- the sign of the difference of an integer and a double, which no code asks for -/
  mixedSign : Int → CMPIValue → Int

variable (rt : QLRuntime) (src : QLPropertySource)

/-- The loop of `getPropValue`. A link that is no instance stops the walk, but
the property is then fetched once more under the same name, which restores the
type `QL_Invalid` had replaced. -/
def getPropParts (op : QLOperand) : List QLPropertyNameData → CMPIValue → CMPIValue × QLOpd
  | [], _ => rt.wild op
  | [pd], data => src.getValue data pd.propName
  | pd :: pds, data =>
    let v := src.getValue data pd.propName
    if v.2 = .Inst then getPropParts op pds v.1 else src.getValue data pd.propName

/-- `getPropValue`. -/
def getPropValue (self : QLOperand) : CMPIValue × QLOpd :=
  match self with
  | .prop parts => getPropParts rt src self parts src.data
  | _ => rt.wild self

/-- The union of an operand read as 64 bits. -/
def QLOperand.union (op : QLOperand) : CMPIValue :=
  match op with
  | .int _ v => v
  | .double v => v
  | .inst v => v
  | .boolean b => b.setWidth 64
  | _ => rt.bits op

/-- `op->charsVal`. -/
def QLOperand.charsOf (op : QLOperand) : Option CStr :=
  match op with
  | .chars _ s => s
  | .name s => some s
  | _ => rt.charsAt (op.union rt)

/-- The right-hand value a `compare` function works on: `op`'s own union, or
the property it names. -/
def rightValue (op : QLOperand) : CMPIValue × QLOpd :=
  if op.type = .PropertyName then getPropValue rt src op else (op.union rt, op.type)

/-- `intCompare`: a 64-bit difference returned as an `int`. -/
def intCompare (sov : CMPIValue) (op : QLOperand) : Int :=
  let ov := rightValue rt src op
  if ov.2 = .Integer ∨ ov.2 = .UInteger then ((sov - ov.1).setWidth 32).toInt
  else -(2 + ov.2.code)

/-- `doubleCompare`. The property's value is fetched for its type only: `ov` is
overwritten by the operand's own union. -/
def doubleCompare (sov : CMPIValue) (op : QLOperand) : Int :=
  if (rightValue rt src op).2 = .Double then rt.doubleSign sov (op.union rt) else -2

/-- `booleanCompare`. -/
def booleanCompare (sov : BitVec 8) (op : QLOperand) : Int :=
  let ov := rightValue rt src op
  if ov.2 = .Boolean then
    (if sov ≠ 0 then 1 else 0) - (if ov.1.setWidth 8 ≠ 0 then 1 else 0)
  else -(2 + ov.2.code)

/-- `charsCompare`. The `NULL` tests come before the type test. -/
def charsCompare (sov : Option CStr) (op : QLOperand) : Int :=
  let ov := if op.type = .PropertyName then
      let v := getPropValue rt src op
      (rt.charsAt v.1, v.2)
    else (op.charsOf rt, op.type)
  match sov, ov.1 with
  | none, none => 0
  | none, some _ => -1
  | some _, none => 1
  | some s, some t => if ov.2 = .Chars then strcmp s t else -2

/-- `instCompare`. -/
def instCompare (inst : CMPIValue) (op : QLOperand) : Int :=
  let sov := rt.instGetClassName inst
  let ov := if op.type = .PropertyName then getPropValue rt src op else (0, op.type)
  if ov.2 = .Name then
    match op.charsOf rt with
    | some cn => if strcasecmp sov cn = 0 then 0 else if rt.isChild src.sns cn sov then 0 else 1
    | none => -2
  else if ov.2 = .Inst then rt.instanceCompare inst ov.1
  else -2

/-- The `compare` entry of every function table but that of property names. -/
def compareValue (self op : QLOperand) : Int :=
  match self with
  | .int _ v => intCompare rt src v op
  | .double v => doubleCompare rt src v op
  | .boolean b => booleanCompare rt src b op
  | .chars _ s => charsCompare rt src s op
  | .inst v => instCompare rt src v op
  | .name _ => -2
  | .prop _ => -2

/-- The operand `propCompare` builds for a property value of the given type. -/
def propOperand (v : CMPIValue) : QLOpd → Option QLOperand
  | .Integer => some (.int .Integer v)
  | .UInteger => some (.int .UInteger v)
  | .Double => some (.double v)
  | .Boolean => some (.boolean (v.setWidth 8))
  | .Chars => some (.chars .Chars (rt.charsAt v))
  | .Char => some (.chars .Char (rt.charsAt v))
  | .Inst => some (.inst v)
  | _ => none

/-- `propCompare`. -/
def propCompare (self op : QLOperand) : Int :=
  let v := getPropValue rt src self
  match propOperand rt v.1 v.2 with
  | some nop => compareValue rt src nop op
  | none =>
    if v.2 = .Null ∧ op.type = .PropertyName ∧ (getPropValue rt src op).2 = .Null then 0 else -2

/-- `self->ft->compare(self, op, src)`. -/
def compare (self op : QLOperand) : Int :=
  match self with
  | .prop _ => propCompare rt src self op
  | _ => compareValue rt src self op

/-- The byte `%`. -/
def percent : UInt8 := 37

/-- `match_re`. For the one-byte pattern `%` the terminator is written in front
of the buffer (`str_to_match[re_len-2]`), which leaves the copy `""` as it is. -/
def match_re (str re : CStr) : Bool :=
  if re = [] ∨ str = [] then false
  else if re.head? = some percent then
    if re.getLast? = some percent then
      (strstr str (re.tail.take (re.length - 2))).isSome
    else
      match strstr str re.tail with
      | some tmp => strcmp tmp re.tail == 0
      | none => false
  else if re.getLast? = some percent then
    strncmp str re.dropLast re.dropLast.length == 0
  else strcmp str re == 0

end Sfcb.Query
