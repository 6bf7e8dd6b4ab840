import Sfcb.Paths.ReadWeight

/-!
# The keys of a path that is read

What `op->ft->addKey` does with the keys that `getObjectPath` finds: strings, numbers, and
references, which are printed and stored as texts. `addKey_eqs` bounds the `=` in what is stored;
a text in a reference has fewer than the text it was read from.

Mirroring notes:
- Of the string buffer there is what decides whether a string finds room: the strings, the bytes,
  and whether the capacity of the index, in fifteen bits, has been doubled to nothing.
- A value that takes the place of a number is not copied: the pointer of the caller is then where
  the id of a string should be (`stale`).
- The outcome `none` is memory that is written behind its end, or an id that is a pointer.
-/

namespace Sfcb.Paths.ScanSafety

open Sfcb.Lib

/-! ## The string buffer -/

/-- `ClStrBuf`. -/
structure StringBuffer where
  strings : Nat
  bytes : Nat
  full : Bool
  deriving DecidableEq, Repr

def StringBuffer.new : StringBuffer := ⟨0, 0, false⟩

/-- `addClString`. The capacity of the index is doubled at `2 ^ 14` strings for the last time. -/
def StringBuffer.add (b : StringBuffer) (s : CStr) : Option StringBuffer :=
  if b.full = false ∧ b.bytes + (s.length + 1) < 2 ^ 30 then
    some ⟨b.strings + 1, b.bytes + (s.length + 1), decide (b.strings = 2 ^ 14)⟩
  else none

/-- `replaceClString`: the old string is taken out, the new one added at the end. -/
def StringBuffer.replace (b : StringBuffer) (old s : CStr) : Option StringBuffer :=
  (StringBuffer.add { b with bytes := b.bytes - (old.length + 1) } s).map fun b =>
    { b with strings := b.strings - 1 }

/-! ## Keys -/

/-- The value of a key. `null` is a reference that could not be read. -/
inductive KeyValue where
  | chars (s : CStr)
  | sint64 (n : Int)
  | uint64 (n : Int)
  | ref (text : CStr)
  | null
  | stale (isRef : Bool)
  deriving DecidableEq, Repr

/-- A path as it is read. -/
structure Path where
  nameSpace : Option CStr
  className : CStr
  keys : List (CStr × KeyValue)
  strings : StringBuffer
  deriving DecidableEq, Repr

/-- `newObjectPathH`. -/
def newObjectPath (nameSpace : Option CStr) (className : CStr) : Option Path :=
  (match nameSpace with
    | none => some StringBuffer.new
    | some ns => StringBuffer.new.add ns).bind fun b =>
    (b.add className).map fun b => ⟨nameSpace, className, [], b⟩

/-- A path fits where it is printed, into a `char[4096]`. -/
def fits (text : CStr) : Bool := text.length < 4096

/-- The value of a new key. -/
def storeNew (b : StringBuffer) (d : KeyValue) : Option (StringBuffer × KeyValue) :=
  match d with
  | .chars s => (b.add s).map (·, d)
  | .ref text => if fits text then (b.add text).map (·, d) else none
  | _ => some (b, d)

/-- The value of a key that is there: `od` is what it has. -/
def storeReplace (b : StringBuffer) (od d : KeyValue) : Option (StringBuffer × KeyValue) :=
  match od, d with
  | _, .null => some (b, .null)
  | .chars old, .chars s => (b.replace old s).map (·, d)
  | .stale false, .chars _ => none
  | .ref old, .ref text => if fits text then (b.replace old text).map (·, d) else none
  | .null, .ref text => if fits text then (b.add text).map (·, d) else none
  | .stale true, .ref _ => none
  -- `CMPI_RC_ERR_TYPE_MISMATCH`, which nobody looks at
  | .chars _, _ | .ref _, _ | .null, _ | .stale _, _ => some (b, od)
  | _, .chars _ => some (b, .stale false)
  | _, .ref _ => some (b, .stale true)
  | _, _ => some (b, d)

def Path.locate (op : Path) (name : CStr) : Option (Nat × CStr × KeyValue) :=
  (op.keys.findIdx? fun k => strcasecmp name k.1 = 0).bind fun i => (op.keys[i]?).map (i, ·)

/-- A reference with that name is printed, and not refused or copied as it is. -/
def Path.prints (op : Path) (name : CStr) : Bool :=
  match op.locate name with
  | some (_, _, .chars _) | some (_, _, .sint64 _) | some (_, _, .uint64 _)
  | some (_, _, .stale false) => false
  | _ => true

/-- `op->ft->addKey`. -/
def Path.addKey (op : Path) (name : CStr) (d : KeyValue) : Option Path :=
  match op.locate name with
  | none =>
    if op.keys.length ≤ 2 ^ 14 then
      ((op.strings.add name).bind (storeNew · d)).map fun r =>
        { op with keys := op.keys ++ [(name, r.2)], strings := r.1 }
    else none
  | some (i, name', od) =>
    (storeReplace op.strings od d).map fun r =>
      { op with keys := op.keys.set i (name', r.2), strings := r.1 }

/-! ## The `=` in a path -/

def eqs (s : CStr) : Nat := s.count 61

@[simp]
theorem eqs_nil : eqs [] = 0 := rfl

theorem eqs_cons (c : UInt8) (s : CStr) : eqs (c :: s) = eqs s + if c = 61 then 1 else 0 := by
  simp [eqs, List.count_cons]

theorem eqs_append (s t : CStr) : eqs (s ++ t) = eqs s + eqs t := List.count_append

/-- How many `=` a value is printed with, at most. -/
def KeyValue.eqs : KeyValue → Nat
  | .chars s | .ref s => ScanSafety.eqs s
  | .sint64 _ | .uint64 _ | .null | .stale _ => 0

def keysEqs : List (CStr × KeyValue) → Nat
  | [] => 0
  | (name, v) :: keys => eqs name + 1 + v.eqs + keysEqs keys

def Path.eqs (op : Path) : Nat :=
  ScanSafety.eqs (nsChars op.nameSpace) + ScanSafety.eqs op.className + keysEqs op.keys

theorem keysEqs_append (ks ks' : List (CStr × KeyValue)) :
    keysEqs (ks ++ ks') = keysEqs ks + keysEqs ks' := by
  induction ks with
  | nil => exact (Nat.zero_add _).symm
  | cons k ks ih =>
    rw [List.cons_append, keysEqs, keysEqs, ih]
    omega

theorem keysEqs_set {ks : List (CStr × KeyValue)} {i : Nat} {name : CStr} {od v : KeyValue}
    {n : Nat} (hi : ks[i]? = some (name, od)) (hv : v.eqs ≤ od.eqs + n) :
    keysEqs (ks.set i (name, v)) ≤ keysEqs ks + n := by
  induction ks generalizing i with
  | nil => exact absurd hi (by simp)
  | cons k ks ih =>
    cases i with
    | zero =>
      obtain rfl : k = (name, od) := Option.some.inj hi
      rw [List.set_cons_zero, keysEqs, keysEqs]
      omega
    | succ i =>
      have := ih (i := i) hi
      rw [List.set_cons_succ, keysEqs, keysEqs]
      omega

theorem storeNew_eqs {b : StringBuffer} {d : KeyValue} {r : StringBuffer × KeyValue}
    (h : storeNew b d = some r) : r.2 = d := by
  unfold storeNew at h
  split at h
  · obtain ⟨_, -, rfl⟩ := Option.map_eq_some_iff.mp h
    rfl
  · split at h
    · obtain ⟨_, -, rfl⟩ := Option.map_eq_some_iff.mp h
      rfl
    · cases h
  · cases h
    rfl

/-- What is there then has no more than what was there and what has been given. -/
theorem storeReplace_eqs {b : StringBuffer} {od d : KeyValue} {r : StringBuffer × KeyValue}
    (h : storeReplace b od d = some r) : r.2.eqs ≤ od.eqs + d.eqs := by
  have hmap : ∀ {o : Option StringBuffer} {v : KeyValue}, o.map (·, v) = some r → r.2 = v := by
    intro o v h
    obtain ⟨_, -, rfl⟩ := Option.map_eq_some_iff.mp h
    rfl
  unfold storeReplace at h
  split at h
  · cases h
    exact Nat.zero_le _
  · rw [hmap h]
    exact Nat.le_add_left _ _
  · cases h
  · split at h
    · rw [hmap h]
      exact Nat.le_add_left _ _
    · cases h
  · split at h
    · rw [hmap h]
      exact Nat.le_add_left _ _
    · cases h
  · cases h
  all_goals
    cases h
    first
      | exact Nat.le_add_right _ _
      | exact Nat.le_add_left _ _

theorem Path.addKey_eqs {op op' : Path} {name : CStr} {d : KeyValue}
    (h : op.addKey name d = some op') : op'.eqs ≤ op.eqs + (ScanSafety.eqs name + 1 + d.eqs) := by
  unfold Path.addKey at h
  split at h
  · split at h
    · obtain ⟨r, hr, rfl⟩ := Option.map_eq_some_iff.mp h
      obtain ⟨b, -, hnew⟩ := Option.bind_eq_some_iff.mp hr
      simp only [Path.eqs, keysEqs_append, keysEqs, storeNew_eqs hnew]
      omega
    · cases h
  · next i name' od hlocate =>
    obtain ⟨i', -, hi⟩ := Option.bind_eq_some_iff.mp hlocate
    obtain ⟨k, hk, heq⟩ := Option.map_eq_some_iff.mp hi
    cases heq
    obtain ⟨r, hr, rfl⟩ := Option.map_eq_some_iff.mp h
    have := keysEqs_set hk (storeReplace_eqs hr)
    simp only [Path.eqs]
    omega

/-- A text that is stored has fewer `=` than the path. -/
theorem eqs_ref_lt {ks : List (CStr × KeyValue)} {name text : CStr}
    (h : (name, KeyValue.ref text) ∈ ks) : eqs text < keysEqs ks := by
  induction ks with
  | nil => cases h
  | cons k ks ih =>
    rw [keysEqs]
    cases h with
    | head => exact Nat.lt_of_lt_of_le (by simp only [KeyValue.eqs]; omega) (Nat.le_add_right _ _)
    | tail _ h =>
      have := ih h
      omega

end Sfcb.Paths.ScanSafety
