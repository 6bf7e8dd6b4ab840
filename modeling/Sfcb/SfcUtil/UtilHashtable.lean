import Sfcb.Lib.CString
import Sfcb.SfcUtil.TableRuns

/-!
# The tables of the broker

`newHashTable` of `utilHashtable.c` makes a table for keys that are strings, with or without
regard to case, for keys that are `CMPIString`s, or for bare pointers. A table without regard
to case compares with `strcasecmp`, which looks at lower case letters, and hashes upper case
ones; `hashFunction_congr` says that the two never disagree.

`get_calls` says what such a table then has under a key: what the calls for its class have
left there, whatever the other calls have done.
-/

namespace Sfcb.SfcUtil

open Sfcb.Lib

/-- An object that is passed by its address, and the string that is read through it: a
`char *`, or what the `hdl` of a `CMPI_String` points to. -/
structure Object where
  address : UInt64
  text : CStr
  terminated : 0 ∉ text
deriving DecidableEq

/-- `toupper` in the C locale. -/
def toUpper (b : UInt8) : UInt8 := if 97 ≤ b ∧ b ≤ 122 then b - 32 else b

/-- `charHashFunction`. -/
def charHashFunction (key : CStr) : UInt64 :=
  key.foldl (fun hashValue b => hashValue * 37 + b.toUInt64) 0

/-- `charIcHashFunction`. -/
def charIcHashFunction (key : CStr) : UInt64 :=
  key.foldl (fun hashValue b => hashValue * 37 + (toUpper b).toUInt64) 0

/-- `pointerHashFunction`. -/
def pointerHashFunction (pointer : UInt64) : UInt64 := pointer >>> 4

/-- `pointercmp` and `ptrCmpFunction`. -/
def pointercmp (pointer1 pointer2 : UInt64) : Int := if pointer1 = pointer2 then 0 else 1

/-- The options of `newHashTable`. -/
structure Options where
  charKey : Bool
  ignoreKeyCase : Bool
  CMPIStringKey : Bool
  charValue : Bool
  ignoreValueCase : Bool
  managedKey : Bool
  managedValue : Bool
  CMPIStyleValue : Bool

namespace Options

variable (opt : Options)

/-- The comparison of keys. The last case is the one that `HashTableCreate` has set. -/
def keycmp (key1 key2 : Object) : Int :=
  if opt.charKey || opt.CMPIStringKey then
    if opt.ignoreKeyCase then strcasecmp key1.text key2.text else strcmp key1.text key2.text
  else pointercmp key1.address key2.address

def hashFunction (key : Object) : UInt64 :=
  if opt.charKey || opt.CMPIStringKey then
    if opt.ignoreKeyCase then charIcHashFunction key.text else charHashFunction key.text
  else pointerHashFunction key.address

def valuecmp (value1 value2 : Object) : Int :=
  if opt.charValue then
    if opt.ignoreValueCase then strcasecmp value1.text value2.text
    else strcmp value1.text value2.text
  else pointercmp value1.address value2.address

/-- A `CMPIString` is not released with `free`. -/
def keyRelease : Bool := opt.managedKey && !opt.CMPIStringKey

def valueRelease : Bool := opt.managedValue && !opt.CMPIStyleValue

end Options

/-- `newHashTable`. -/
def newHashTable (buckets : Nat) (opt : Options) : HashTable Object Object :=
  hashTableCreate buckets opt.keycmp opt.valuecmp opt.hashFunction opt.keyRelease opt.valueRelease

/-- What a table can tell keys apart by. -/
inductive KeyClass where
  | text (text : CStr)
  | address (address : UInt64)
deriving DecidableEq

/-- The class of a key. -/
def Options.cls (opt : Options) (key : Object) : KeyClass :=
  if opt.charKey || opt.CMPIStringKey then
    if opt.ignoreKeyCase then .text (fold key.text) else .text key.text
  else .address key.address

def Options.keying (opt : Options) : Keying Object Object KeyClass :=
  ⟨opt.cls, opt.valuecmp, opt.keyRelease, opt.valueRelease⟩

/-- The upper case of a letter does not depend on its case. -/
theorem toUpper_toLower (b : UInt8) : toUpper (toLower b) = toUpper b := by
  unfold toLower
  split
  · rename_i hupper
    have hlow : 65 ≤ b.toNat := UInt8.le_iff_toNat_le.mp hupper.1
    have hhigh : b.toNat ≤ 90 := UInt8.le_iff_toNat_le.mp hupper.2
    have hlower : (b + 32).toNat = b.toNat + 32 := by
      rw [UInt8.toNat_add, show (32 : UInt8).toNat = 32 from rfl]
      omega
    have hin : 97 ≤ b + 32 ∧ b + 32 ≤ 122 := by
      rw [UInt8.le_iff_toNat_le, UInt8.le_iff_toNat_le, hlower]
      exact ⟨Nat.add_le_add_right hlow 32, Nat.add_le_add_right hhigh 32⟩
    have hout : ¬(97 ≤ b ∧ b ≤ 122) := by
      intro hmid
      have : 97 ≤ b.toNat := UInt8.le_iff_toNat_le.mp hmid.1
      omega
    unfold toUpper
    rw [if_pos hin, if_neg hout, UInt8.add_sub_cancel]
  · rfl

/-- Strings that differ in case only have one hash value. -/
theorem charIcHashFunction_congr {s t : CStr} (h : fold s = fold t) :
    charIcHashFunction s = charIcHashFunction t := by
  have hfold : ∀ u : CStr, charIcHashFunction u = charIcHashFunction (fold u) := by
    intro u
    unfold charIcHashFunction fold
    rw [List.foldl_map]
    simp only [toUpper_toLower]
  rw [hfold s, h, ← hfold t]

theorem keycmp_eq_zero_iff (opt : Options) (k l : Object) :
    opt.keycmp k l = 0 ↔ opt.cls k = opt.cls l := by
  unfold Options.keycmp Options.cls
  split
  · split
    · rw [strcasecmp_eq_zero_iff k.terminated l.terminated, KeyClass.text.injEq]
    · rw [strcmp_eq_zero_iff_of_notMem k.terminated l.terminated, KeyClass.text.injEq]
  · unfold pointercmp
    rw [KeyClass.address.injEq]
    split <;> simp [*]

theorem hashFunction_congr (opt : Options) (k l : Object) (h : opt.cls k = opt.cls l) :
    opt.hashFunction k = opt.hashFunction l := by
  unfold Options.cls at h
  unfold Options.hashFunction
  split at h
  · rename_i htext
    rw [if_pos htext, if_pos htext]
    split at h
    · rename_i hcase
      rw [if_pos hcase, if_pos hcase]
      exact charIcHashFunction_congr (KeyClass.text.inj h)
    · rename_i hcase
      rw [if_neg hcase, if_neg hcase]
      exact congrArg charHashFunction (KeyClass.text.inj h)
  · rename_i htext
    rw [if_neg htext, if_neg htext]
    exact congrArg pointerHashFunction (KeyClass.address.inj h)

theorem newHashTable_refines (opt : Options) {n : Nat} (hn : 0 < n) :
    Refines opt.keying (newHashTable n opt) ∅ :=
  Refines.hashTableCreate opt.keying hn (keycmp_eq_zero_iff opt) (hashFunction_congr opt)

/-! ## The value of a key -/

/-- What a call makes of the value of a class. A put for a class without a value needs room for
a pair. -/
def valueAfter (opt : Options) (i : KeyClass) (value : Option Object) :
    Call Object Object → Option Object
  | .put pairRoom _ k v =>
    if opt.cls k = i then if value.isSome || pairRoom then some v else none else value
  | .remove _ k => if opt.cls k = i then none else value
  | .removeAll _ => none
  | _ => value

section Values

variable {opt : Options} {m : PairMap Object Object KeyClass} {i : KeyClass}

/-- A call for another class leaves the value of a class alone. -/
theorem lookup_call (c : Call Object Object) :
    ((PairMap.call opt.keying m c).1.lookup i).map (·.value) =
      valueAfter opt i ((m.lookup i).map (·.value)) c := by
  cases c with
  | put pairRoom arrayRoom k v =>
    by_cases hi : opt.keying.cls k = i
    · subst hi
      have hcls : opt.cls k = opt.keying.cls k := rfl
      cases hm : m.lookup (opt.keying.cls k) with
      | some pair => simp [PairMap.call, valueAfter, hcls, hm]
      | none => cases pairRoom <;> simp [PairMap.call, valueAfter, hcls, hm]
    · have hother : (m.insert (opt.keying.cls k) ⟨k, v⟩).lookup i = m.lookup i :=
        AList.lookup_insert_ne (Ne.symm hi)
      have hcls : ¬opt.cls k = i := hi
      cases hm : m.lookup (opt.keying.cls k) with
      | some pair => simp only [PairMap.call, valueAfter, hm, hother, if_neg hcls]
      | none => cases pairRoom <;> simp [PairMap.call, valueAfter, hm, hother, hcls]
  | remove arrayRoom k =>
    by_cases hi : opt.keying.cls k = i
    · subst hi
      have hcls : opt.cls k = opt.keying.cls k := rfl
      cases hm : m.lookup (opt.keying.cls k) <;> simp [PairMap.call, valueAfter, hcls, hm]
    · have hother : (m.erase (opt.keying.cls k)).lookup i = m.lookup i :=
        AList.lookup_erase_ne (Ne.symm hi)
      have hcls : ¬opt.cls k = i := hi
      cases hm : m.lookup (opt.keying.cls k) with
      | some pair => simp only [PairMap.call, valueAfter, hm, hother, if_neg hcls]
      | none => simp only [PairMap.call, valueAfter, hm, if_neg hcls]
  | _ => rfl

theorem lookup_calls (cs : List (Call Object Object)) :
    ((PairMap.calls opt.keying m cs).1.lookup i).map (·.value) =
      cs.foldl (valueAfter opt i) ((m.lookup i).map (·.value)) := by
  induction cs generalizing m with
  | nil => rfl
  | cons c cs ih => rw [List.foldl_cons, ← lookup_call]; exact ih

end Values

/-- After any calls, a key has the value that the calls for its class have left there. -/
theorem get_calls (opt : Options) {n : Nat} (hn : 0 < n) (cs : List (Call Object Object))
    (k : Object) :
    ((newHashTable n opt).calls cs).1.hashTableGet k =
      cs.foldl (valueAfter opt (opt.cls k)) none := by
  have h := ((newHashTable_refines opt hn).calls cs).1
  rw [h.hashTableGet k]
  exact lookup_calls cs

/-- The table of the class register: `charKey` and `ignoreKeyCase`. -/
def charIcOptions : Options := ⟨true, true, false, false, false, false, false, false⟩

/-- A class that is put as "A" is found as "a". -/
theorem get_calls_charIc :
    ((newHashTable 61 charIcOptions).calls [.put true true ⟨8, [65], by decide⟩ ⟨16, [1], by decide⟩,
        .put true true ⟨24, [66], by decide⟩ ⟨32, [2], by decide⟩]).1.hashTableGet
      ⟨40, [97], by decide⟩ = some ⟨16, [1], by decide⟩ :=
  get_calls charIcOptions (by decide) _ ⟨40, [97], by decide⟩

end Sfcb.SfcUtil
