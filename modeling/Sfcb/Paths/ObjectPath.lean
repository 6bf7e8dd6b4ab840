import Sfcb.Lib.RealText

/-!
# Object paths

`objectpath.c`. A path names an instance: by a namespace, a class, and keys with a value
each. The value of a key is a string, a boolean, a character, an integer, or another path.

Mirroring notes:
- An integer is its value. The types with fewer than 64 bits are printed as those with 64.
- A `real32` or `real64` is its bits.
- A time is the text that `CMGetStringFormat` gives, and counts as the string that is written.
- A null has a zero in the place of a value, and that is what is written. A null time or
  reference is left out: a null pointer is read through.
- A reference is stored as a text. What is here is the path that `getKeyAt` makes of it.
- `hostname` is asked for, but nothing is done with it.
-/

namespace Sfcb.Paths

open Sfcb.Lib

/-- `isalnum` in the C locale. -/
def isalnum (c : UInt8) : Bool := isDigit c || (65 ≤ c && c ≤ 90) || (97 ≤ c && c ≤ 122)

/-- The name of a class or of a key: letters, digits and underscores. -/
def IsName (s : CStr) : Prop := s ≠ [] ∧ ∀ c ∈ s, isalnum c = true ∨ c = 95

theorem notMem_of_isName {s : CStr} (h : IsName s) {c : UInt8} (hc : isalnum c = false)
    (hne : c ≠ 95) : c ∉ s := by
  intro hmem
  rcases h.2 c hmem with halnum | rfl
  · rw [hc] at halnum
    exact absurd halnum (by simp)
  · exact hne rfl

/-- The groups of types. A time is a string. -/
inductive Kind where
  | string | boolean | char16 | integer | real | ref
  deriving Repr, DecidableEq

/-- `CMPIData` of a key. -/
inductive Value where
  | string (s : CStr)
  | dateTime (s : CStr)
  | boolean (b : Bool)
  | char16 (c : UInt16)
  | uint (n : UInt64)
  | sint (n : Int64)
  | real32 (bits : UInt32)
  | real64 (bits : UInt64)
  | null (kind : Kind) (h : kind ≠ .ref)
  | ref (nameSpace : Option CStr) (className : CStr) (keys : List (CStr × Value))

/-- `CMPIObjectPath`. -/
structure Cop where
  nameSpace : Option CStr
  className : CStr
  keys : List (CStr × Value)

/-- A path with proper names. `addKey` looks for a key without the case of its name, so there
are no two of one name. -/
structure ObjectPath extends Cop where
  names : ∀ k ∈ keys, IsName k.1
  distinct : (keys.map fun k => fold k.1).Nodup

def Value.kind : Value → Kind
  | .string _ | .dateTime _ => .string
  | .boolean _ => .boolean
  | .char16 _ => .char16
  | .uint _ | .sint _ => .integer
  | .real32 _ | .real64 _ => .real
  | .null kind _ => kind
  | .ref .. => .ref

def Value.isNull : Value → Bool
  | .null .. => true
  | _ => false

/-- A string, a boolean, an integer or a reference. -/
def Value.IsCommon : Value → Prop
  | .string _ | .boolean _ | .uint _ | .sint _ | .ref .. => True
  | .dateTime _ | .char16 _ | .real32 _ | .real64 _ | .null .. => False

/-- `sfcb_value2Chars` for what is no reference. It has no text for a `char16`. -/
def Value.simpleChars : Value → CStr
  | .string s | .dateTime s => lit "\"" ++ s ++ lit "\""
  | .boolean b => if b then lit "true" else lit "false"
  | .uint n => printInt n.toNat
  | .sint n => printInt n.toInt
  | .real32 bits => printReal .single bits.toNat
  | .real64 bits => printReal .double bits.toNat
  | .null .boolean _ => lit "false"
  | .null .integer _ | .null .real _ => lit "0"
  | .null .string _ | .null .char16 _ | .null .ref _ | .char16 _ | .ref .. => []

/-! ## What a value is -/

/-- The value itself. An integer does not depend on its type. -/
inductive Meaning where
  | string (s : CStr)
  | boolean (b : Bool)
  | char16 (c : UInt16)
  | integer (n : Int)
  | real32 (bits : UInt32)
  | real64 (bits : UInt64)
  | null (kind : Kind)
  | ref (nameSpace : Option CStr) (className : CStr) (keys : List (CStr × Meaning))

mutual

def Value.meaning : Value → Meaning
  | .string s | .dateTime s => .string s
  | .boolean b => .boolean b
  | .char16 c => .char16 c
  | .uint n => .integer n.toNat
  | .sint n => .integer n.toInt
  | .real32 bits => .real32 bits
  | .real64 bits => .real64 bits
  | .null kind _ => .null kind
  | .ref nameSpace className keys => .ref nameSpace className (meanings keys)

/-- The names and values of keys. -/
def meanings : List (CStr × Value) → List (CStr × Meaning)
  | [] => []
  | (name, v) :: keys => (name, v.meaning) :: meanings keys

end

theorem meanings_eq_map (keys : List (CStr × Value)) :
    meanings keys = keys.map fun k => (k.1, k.2.meaning) := by
  induction keys with
  | nil => rfl
  | cons k keys ih =>
    rw [meanings, ih]
    rfl

end Sfcb.Paths
