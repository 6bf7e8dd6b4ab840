import Mathlib.Algebra.Group.Int.Defs
import Sfcb.Cmpi.Status
import Sfcb.Object.Instance

/-!
# Dynamic arrays

`array.c`. An array has `size` elements in an area of `max`. One that was made without elements
is dynamic: an element can be put behind its last one. `sfcb_native_array_increase_size` adds
null elements to any array, and is how `returnData` makes room in the array of a result.

`Contents` is what such an array is for, a list of elements some of which are null.
`contents_of_runs` says that every run of the operations has the contents it should have, as
long as each step meets a condition on the state before it (`Meets`): an array without elements
gets no more than the eight its area has, as `max` is then set to 8 whatever is needed; `max`
does not reach 2 ^ 31, as `__make_NULL` counts in `int`; and an element that is appended has a
value and the type of the array, as it is stored and read as one that has.

Mirroring notes:
- `none` is a write or a read outside of the area, or a loop that does not end.
- `V` are the values of a `CMPIValue`. One that was stored is kept with the type it was stored
  with. A value of `none` is one that nobody has given: zeros, or what was in the memory.
- `localClientMode`, which only counts references, is left out, and so is the release of values
  that are replaced: an element set to itself in an array that is not tracked is released before
  it is copied.
-/

namespace Sfcb.Cmpi.DynamicArray

open Sfcb.Lib
open Sfcb.Object (CMPIBase CMPIType)

variable {V : Type}

/-! ## The code -/

/-- What is done with values elsewhere. -/
structure Values (V : Type) where
  /-- `sfcb_native_new_CMPIString`. -/
  newString : V → V
  /-- `val->chars==NULL`. -/
  nil : V → Bool
  /-- `sfcb_native_clone_CMPIValue`. -/
  clone : CMPIType → V → Except CMPIrc V

/-- A `CMPIValueState`. `junk` is what was in the memory. -/
inductive ItemState where
  | junk | good | null | bad
  deriving DecidableEq, Repr

structure Item (V : Type) where
  state : ItemState
  value : Option (CMPIType × V)

structure NativeArray (V : Type) where
  size : UInt32
  max : UInt32
  dynamic : Bool
  /-- `mem_state` is not `MEM_NOT_TRACKED`. -/
  tracked : Bool
  type : CMPIType
  data : List (Item V)

/-- `CMPI_null`. -/
abbrev nullType : CMPIType := CMPIBase.null.simple

abbrev stringType : CMPIType := CMPIBase.string.simple

abbrev charsType : CMPIType := CMPIBase.chars.simple

/-- A `CMPICount` as an `int`. -/
def toInt (n : UInt32) : Int := if n.toNat < 2 ^ 31 then n.toNat else n.toNat - 2 ^ 32

/-- `__make_NULL`. An `int` is never greater than the last one. -/
def makeNull (data : List (Item V)) (first last : Int) : Option (List (Item V)) :=
  if last < first then some data
  else if 0 ≤ first ∧ last < data.length ∧ last ≠ 2 ^ 31 - 1 then
    some (data.mapIdx fun i item =>
      if first ≤ i ∧ (i : Int) ≤ last then { item with state := .null } else item)
  else none

/-- `__new_empty_array`. -/
def newEmptyArray (tracked : Bool) (size : UInt32) (type : CMPIType) : Option (NativeArray V) := do
  let type := type.base.simple
  let max := if size = 0 then 8 else size
  let data ← makeNull (List.replicate max.toNat ⟨.junk, none⟩) 0 (toInt (max - 1))
  some ⟨size, max, size = 0, tracked, if type = charsType then stringType else type, data⟩

/-- `while ((a->size+increment)>a->max) a->max*=2`. After 32 rounds `max` is and stays zero. -/
def doubleMax (need : UInt32) : Nat → UInt32 → Option UInt32
  | 0, _ => none
  | fuel + 1, max => if max < need then doubleMax need fuel (max * 2) else some max

/-- `sfcb_native_array_increase_size`. -/
def increaseSize (a : NativeArray V) (increment : UInt32) : Option (NativeArray V) := do
  let size := a.size + increment
  if a.max < size then
    let max ← if a.size = 0 then some 8 else doubleMax size 33 a.max
    let data := resize a.data max.toNat ⟨.junk, none⟩
    let data ← writeAt data a.size.toNat (List.replicate increment.toNat ⟨.good, none⟩)
    let data ← makeNull data (toInt a.size) (toInt (max - 1))
    some { a with size, max, data }
  else some { a with size }

/-- What `setElementAt` makes of its arguments. -/
def convert (vals : Values V) (arrayType : CMPIType) (val : Option V) (type : CMPIType) :
    Option V × CMPIType :=
  let arg := if type = charsType ∧ arrayType = stringType then
      match val with
      | some v => (some (vals.newString v), stringType)
      | none => (none, nullType)
    else (val, type)
  (arg.1, if arg.2.enca = true ∧ arg.1.all vals.nil = true then nullType else arg.2)

/-- The element as `setElementAt` stores it, with the status. -/
def store (vals : Values V) (copied : Bool) (val : Option V) (type : CMPIType) (item : Item V) :
    CMPIrc × Item V :=
  if copied then
    match val with
    | none => (.OK, ⟨.good, none⟩)
    | some v =>
      match vals.clone type v with
      | .ok v => (.OK, ⟨.good, some (type, v)⟩)
      | .error rc => (rc, ⟨item.state, none⟩)
  else
    -- `sfcb_setAlignedValue` leaves the target as it is when there is no source.
    (.OK, ⟨.good, match val with
      | none => item.value
      | some v => some (type, v)⟩)

/-- Makes an element null, if it is not. -/
def makeNullAt (data : List (Item V)) (index : UInt32) : Option (List (Item V)) := do
  let item ← data[index.toNat]?
  if item.state = .null then some data else makeNull data (toInt index) (toInt index)

/-- `setElementAt`, where an array that has to grow has grown. -/
def setElement (vals : Values V) (a : NativeArray V) (index : UInt32) (val : Option V)
    (type : CMPIType) (opt : Bool) : Option (CMPIrc × NativeArray V) := do
  if index < a.size then
    let arg := convert vals a.type val type
    if opt = true ∨ arg.2 = a.type then
      let data ← makeNullAt a.data index
      let item ← data[index.toNat]?
      let stored := store vals (!opt && !a.tracked) arg.1 arg.2 item
      some (stored.1, { a with data := data.set index.toNat stored.2 })
    else if arg.2 = nullType then
      let data ← makeNullAt a.data index
      some (.OK, { a with data })
    else some (.ERR_FAILED, a)
  else some (.ERR_FAILED, a)

/-- A dynamic array grows where an element is put behind its last one. -/
def NativeArray.grown (a : NativeArray V) (index : UInt32) : Option (NativeArray V) :=
  if a.dynamic = true ∧ index = a.size then increaseSize a 1 else some a

def setElementAt (vals : Values V) (a : NativeArray V) (index : UInt32) (val : Option V)
    (type : CMPIType) (opt : Bool) : Option (CMPIrc × NativeArray V) := do
  let a ← a.grown index
  setElement vals a index val type opt

/-- The type of an array when `sfcb_simpleArrayAdd` has looked at it. -/
def NativeArray.typeFor (a : NativeArray V) (type : CMPIType) : CMPIType :=
  if a.size = 0 then (if type = charsType then stringType else type) else a.type

/-- `sfcb_simpleArrayAdd`. -/
def simpleArrayAdd (vals : Values V) (a : NativeArray V) (val : Option V) (type : CMPIType) :
    Option (CMPIrc × NativeArray V) :=
  if a.dynamic then setElementAt vals { a with type := a.typeFor type } a.size val type true
  else some (.ERR_FAILED, a)

/-- `__aft_getElementAt`: the type, the state and the value. -/
def getElementAt (a : NativeArray V) (index : UInt32) : Option (CMPIType × Item V) :=
  if index < a.size then (a.data[index.toNat]?).map fun item => (a.type, item)
  else some (a.type, ⟨.bad, none⟩)

/-! ### Runs -/

inductive ArrayOp (V : Type) where
  | setElementAt (index : UInt32) (val : Option V) (type : CMPIType)
  | simpleArrayAdd (val : Option V) (type : CMPIType)
  | increaseSize (increment : UInt32)

def step (vals : Values V) (a : NativeArray V) : ArrayOp V → Option (NativeArray V)
  | .setElementAt index val type => (setElementAt vals a index val type false).map Prod.snd
  | .simpleArrayAdd val type => (simpleArrayAdd vals a val type).map Prod.snd
  | .increaseSize increment => increaseSize a increment

def run (vals : Values V) (a : NativeArray V) (ops : List (ArrayOp V)) : Option (NativeArray V) :=
  ops.foldlM (step vals) a

/-- `struct native_result`, as far as `returnData` goes. -/
structure NativeResult (V : Type) where
  current : UInt32
  array : Option (NativeArray V)

/-- The array that `returnData` puts the value into. -/
def NativeResult.next (r : NativeResult V) (type : CMPIType) : Option (NativeArray V) :=
  match r.array with
  | none => if r.current = 0 then newEmptyArray true 1 type else none
  | some a => increaseSize a 1

def returnData (vals : Values V) (r : NativeResult V) (call : Option V × CMPIType) :
    Option (NativeResult V) := do
  let a ← r.next call.2
  let a ← setElementAt vals a r.current call.1 call.2 false
  some ⟨r.current + 1, some a.2⟩

/-- The calls of `returnData` for a new result. -/
def returned (vals : Values V) (calls : List (Option V × CMPIType)) : Option (NativeResult V) :=
  calls.foldlM (returnData vals) ⟨0, none⟩

/-! ## What an array is for -/

/-- Elements of one type, some of which are null. -/
structure Contents (V : Type) where
  type : CMPIType
  dynamic : Bool
  elements : List (Option V)

def Contents.new (size : Nat) (type : CMPIType) : Contents V :=
  ⟨if type.base = .chars then stringType else type.base.simple, size = 0,
    List.replicate size none⟩

/-- `n` elements more, all of them null. -/
def Contents.grow (c : Contents V) (n : Nat) : Contents V :=
  { c with elements := c.elements ++ List.replicate n none }

def Contents.set (c : Contents V) (i : Nat) (x : Option V) : Contents V :=
  { c with elements := c.elements.set i x }

/-- What an element is set to: a value, or null. `none` if its type is not that of the array. -/
def Contents.taken (vals : Values V) (copied : Bool) (c : Contents V) (val : Option V)
    (type : CMPIType) : Option (Option V) :=
  let arg := convert vals c.type val type
  if arg.2 = c.type then
    some (arg.1.bind fun v => if copied then (vals.clone arg.2 v).toOption else some v)
  else if arg.2 = nullType then some none
  else none

/-- An element is set, if it is there. -/
def Contents.put (vals : Values V) (copied : Bool) (c : Contents V) (index : Nat)
    (val : Option V) (type : CMPIType) : Contents V :=
  match c.taken vals copied val type with
  | some x => c.set index x
  | none => c

def Contents.step (vals : Values V) (copied : Bool) (c : Contents V) : ArrayOp V → Contents V
  | .increaseSize n => c.grow n.toNat
  | .setElementAt index val type =>
    (if c.dynamic = true ∧ index.toNat = c.elements.length then c.grow 1 else c).put vals copied
      index.toNat val type
  | .simpleArrayAdd val type =>
    if c.dynamic then
      let type' := if c.elements = [] then (if type = charsType then stringType else type)
        else c.type
      { c with
        type := type'
        elements := c.elements ++ [(convert vals type' val type).1] }
    else c

/-- What the calls of `returnData` have put into an array of this type: null where the value was
null, or was refused. -/
def Contents.ofCalls (vals : Values V) (type : CMPIType) (calls : List (Option V × CMPIType)) :
    Contents V :=
  let c : Contents V := Contents.new 1 type
  { c with elements := calls.map fun call => (c.taken vals false call.1 call.2).join }

/-- What is read: the state of the element and, where there is one, its value. -/
def ReadsAs (item : Item V) (type : CMPIType) : Option (Option V) → Prop
  | none => item.state = .bad
  | some none => item.state = .null
  | some (some v) => item.state = .good ∧ item.value = some (type, v)

/-- The array has its elements in its area, and they read as these. -/
structure Holds (a : NativeArray V) (c : Contents V) : Prop where
  size_le : a.size ≤ a.max
  allocated : a.data.length = a.max.toNat
  size : a.size.toNat = c.elements.length
  dynamic : a.dynamic = c.dynamic
  reads : ∀ index, ∃ item, getElementAt a index = some (c.type, item) ∧
    ReadsAs item c.type c.elements[index.toNat]?

/-! ## Conditions on a step -/

/-- There is room for so many elements more, or there is when `max` has been doubled often
enough. -/
def NativeArray.Fits (a : NativeArray V) (n : Nat) : Prop :=
  a.size.toNat + n ≤ a.max.toNat ∨
    (a.size ≠ 0 ∧ ∃ k, a.size.toNat + n ≤ a.max.toNat * 2 ^ k ∧ a.max.toNat * 2 ^ k < 2 ^ 31)

/-- A value of the type of the array is given. -/
def Given (vals : Values V) (arrayType : CMPIType) (val : Option V) (type : CMPIType) : Prop :=
  (convert vals arrayType val type).2 = arrayType → (convert vals arrayType val type).1.isSome

/-- The condition on a step. -/
def NativeArray.Meets (vals : Values V) (a : NativeArray V) : ArrayOp V → Prop
  | .increaseSize n => a.Fits n.toNat
  | .setElementAt index val type =>
    (a.dynamic = true ∧ index = a.size → a.Fits 1) ∧ Given vals a.type val type
  | .simpleArrayAdd val type => a.dynamic = true →
    a.Fits 1 ∧ (convert vals (a.typeFor type) val type).2 = a.typeFor type ∧
      Given vals (a.typeFor type) val type

/-- Every step of the run meets it. -/
def MeetsAll (vals : Values V) (a : NativeArray V) : List (ArrayOp V) → Prop
  | [] => True
  | op :: ops => a.Meets vals op ∧ ∀ a', step vals a op = some a' → MeetsAll vals a' ops

/-- The same for calls of `returnData`. -/
def MeetsCalls (vals : Values V) (r : NativeResult V) : List (Option V × CMPIType) → Prop
  | [] => True
  | call :: calls =>
    (∀ a, r.array = some a → a.Fits 1) ∧
      (∀ a, r.next call.2 = some a → Given vals a.type call.1 call.2) ∧
      ∀ r', returnData vals r call = some r' → MeetsCalls vals r' calls

/-! ## The parts -/

section Parts

variable {data data' : List (Item V)} {a : NativeArray V} {c : Contents V}

theorem toInt_eq {n : UInt32} (h : n.toNat < 2 ^ 31) : toInt n = n.toNat := if_pos h

theorem toInt_pred {max : UInt32} (hpos : 0 < max.toNat) (hsmall : max.toNat < 2 ^ 31) :
    toInt (max - 1) = ((max.toNat - 1 : Nat) : Int) := by
  have hone : (1 : UInt32) ≤ max := UInt32.le_iff_toNat_le.mpr hpos
  have hsub : (max - 1).toNat = max.toNat - 1 := UInt32.toNat_sub_of_le _ _ hone
  rw [toInt_eq (by omega), hsub]

/-- What is made null, and what is not. -/
theorem makeNull_eq (data : List (Item V)) {first last : Nat} (hfirst : first ≤ last)
    (hlast : last < data.length) (hsmall : data.length < 2 ^ 31) :
    makeNull data first last = some (data.mapIdx fun i item =>
      if first ≤ i ∧ i ≤ last then { item with state := .null } else item) := by
  unfold makeNull
  rw [if_neg (by omega), if_pos (by omega)]
  simp only [Int.ofNat_le]

theorem doubleMax_spec (need : UInt32) (k : Nat) :
    ∀ (fuel : Nat) (max : UInt32), k < fuel → 0 < max.toNat → need.toNat ≤ max.toNat * 2 ^ k →
      max.toNat * 2 ^ k < 2 ^ 31 →
      ∃ max', doubleMax need fuel max = some max' ∧ need ≤ max' ∧ max'.toNat < 2 ^ 31 := by
  induction k with
  | zero =>
    intro fuel max hfuel hpos hneed hsmall
    obtain ⟨fuel, rfl⟩ := Nat.exists_eq_add_of_lt hfuel
    rw [pow_zero, Nat.mul_one] at hneed hsmall
    refine ⟨max, ?_, UInt32.le_iff_toNat_le.mpr hneed, hsmall⟩
    rw [Nat.zero_add, doubleMax, if_neg (by rw [UInt32.lt_iff_toNat_lt]; omega)]
  | succ k ih =>
    intro fuel max hfuel hpos hneed hsmall
    obtain ⟨fuel, rfl⟩ : ∃ n, fuel = n + 1 := ⟨fuel - 1, by omega⟩
    have hle : max.toNat * 2 ≤ max.toNat * 2 ^ (k + 1) := by
      refine Nat.mul_le_mul_left _ ?_
      rw [pow_succ]
      have := Nat.one_le_two_pow (n := k)
      omega
    rw [doubleMax]
    split
    · have htwo : (max * 2).toNat = max.toNat * 2 := by
        rw [UInt32.toNat_mul]
        exact Nat.mod_eq_of_lt (by simp; omega)
      have hpow : (max * 2).toNat * 2 ^ k = max.toNat * 2 ^ (k + 1) := by
        rw [htwo, Nat.mul_assoc, ← Nat.pow_succ']
      exact ih fuel (max * 2) (by omega) (by omega) (by omega) (by omega)
    · next hdone =>
      exact ⟨max, rfl, UInt32.not_lt.mp hdone, by omega⟩

/-- The element at an index, null where there is none. -/
def Contents.at (c : Contents V) (i : Nat) : Option V := (c.elements[i]?).join

/-- `Holds`, for the area as a whole: what is not used yet is null. -/
structure Sound (a : NativeArray V) (c : Contents V) : Prop where
  size_le : a.size.toNat ≤ a.max.toNat
  allocated : a.data.length = a.max.toNat
  pos : 0 < a.max.toNat
  small : a.max.toNat < 2 ^ 31
  size : a.size.toNat = c.elements.length
  dynamic : a.dynamic = c.dynamic
  type : a.type = c.type
  items : ∀ i item, a.data[i]? = some item → ReadsAs item c.type (some (c.at i))

theorem Sound.holds (h : Sound a c) : Holds a c := by
  refine ⟨UInt32.le_iff_toNat_le.mpr h.size_le, h.allocated, h.size, h.dynamic, fun index => ?_⟩
  unfold getElementAt
  split
  · next hlt =>
    have hin : index.toNat < a.data.length := by
      have := UInt32.lt_iff_toNat_lt.mp hlt
      have := h.allocated
      have := h.size_le
      omega
    have hin' : index.toNat < c.elements.length := by
      have := UInt32.lt_iff_toNat_lt.mp hlt
      have := h.size
      omega
    refine ⟨a.data[index.toNat], ?_, ?_⟩
    · rw [List.getElem?_eq_getElem hin, Option.map_some, h.type]
    · have hitem := h.items _ _ (List.getElem?_eq_getElem hin)
      rw [Contents.at, List.getElem?_eq_getElem hin', Option.join_some] at hitem
      rwa [List.getElem?_eq_getElem hin']
  · next hge =>
    refine ⟨⟨.bad, none⟩, by rw [h.type], ?_⟩
    have hout : c.elements.length ≤ index.toNat := by
      rw [UInt32.lt_iff_toNat_lt] at hge
      have := h.size
      omega
    rw [List.getElem?_eq_none hout]
    rfl

theorem at_grow (c : Contents V) (n i : Nat) : (c.grow n).at i = c.at i := by
  unfold Contents.at Contents.grow
  dsimp only
  by_cases h : i < c.elements.length
  · rw [List.getElem?_append_left h]
  · rw [List.getElem?_append_right (by omega), List.getElem?_replicate,
      List.getElem?_eq_none (by omega)]
    split <;> rfl

theorem reads_null {item : Item V} {type : CMPIType} (h : item.state = .null) :
    ReadsAs item type (some none) := h

theorem Contents.at_of_le {i : Nat} (h : c.elements.length ≤ i) : c.at i = none := by
  rw [Contents.at, List.getElem?_eq_none h]
  rfl

/-- An area that is made longer has its first elements, and null ones behind them. -/
theorem longer_area (data : List (Item V)) (size n : Nat) {max : UInt32}
    (hsize : size ≤ data.length) (hroom : size + n ≤ max.toNat) (hn : 0 < n) (hsmall : max.toNat < 2 ^ 31) :
    ∃ zeroed data', writeAt (resize data max.toNat ⟨.junk, none⟩) size
        (List.replicate n ⟨.good, none⟩) = some zeroed ∧
      makeNull zeroed size (toInt (max - 1)) = some data' ∧ data'.length = max.toNat ∧
      ∀ i item, data'[i]? = some item →
        (i < size ∧ data[i]? = some item) ∨ (size ≤ i ∧ item.state = .null) := by
  obtain ⟨zeroed, hzeroed, hlength, htake⟩ := writeAt_spec
    (resize data max.toNat ⟨.junk, none⟩) size (List.replicate n ⟨.good, none⟩)
    (by rw [List.length_replicate, length_resize]; exact hroom)
  rw [length_resize] at hlength
  have hfront : zeroed.take size = data.take size := by
    have hcut := congrArg (List.take size) htake
    have hlen : ((resize data max.toNat ⟨.junk, none⟩).take size).length = size := by
      rw [List.length_take, length_resize]
      omega
    rw [List.take_take, Nat.min_eq_left (Nat.le_add_right ..), List.take_left' hlen] at hcut
    rw [hcut]
    exact take_resize _ hsize (by omega)
  refine ⟨zeroed, _, hzeroed,
    by rw [toInt_pred (by omega) hsmall]; exact makeNull_eq _ (by omega) (by omega) (by omega),
    by rw [List.length_mapIdx, hlength], fun i item hitem => ?_⟩
  rw [List.getElem?_mapIdx] at hitem
  obtain ⟨old, hold, rfl⟩ := Option.map_eq_some_iff.mp hitem
  have hi : i < zeroed.length := (List.getElem?_eq_some_iff.mp hold).1
  by_cases hnew : size ≤ i
  · rw [if_pos ⟨hnew, by omega⟩]
    exact .inr ⟨hnew, rfl⟩
  · rw [if_neg fun hcond => hnew hcond.1]
    refine .inl ⟨by omega, ?_⟩
    have hget := congrArg (fun l => l[i]?) hfront
    rwa [List.getElem?_take_of_lt (by omega), List.getElem?_take_of_lt (by omega), hold,
      eq_comm] at hget

/-- Growing adds null elements and nothing else. -/
theorem increaseSize_spec (h : Sound a c) {n : UInt32} (hfits : a.Fits n.toNat) :
    ∃ a', increaseSize a n = some a' ∧ Sound a' (c.grow n.toNat) ∧ a'.tracked = a.tracked := by
  have hlen : (c.grow n.toNat).elements.length = a.size.toNat + n.toNat := by
    rw [Contents.grow, List.length_append, List.length_replicate, h.size]
  have hadd : a.size.toNat + n.toNat < 2 ^ 31 → (a.size + n).toNat = a.size.toNat + n.toNat := by
    intro hlt
    rw [UInt32.toNat_add]
    exact Nat.mod_eq_of_lt (by omega)
  have hsmall := h.small
  have hle := h.size_le
  unfold increaseSize
  by_cases hroom : a.size.toNat + n.toNat ≤ a.max.toNat
  · have hsize := hadd (by omega)
    rw [if_neg (by rw [UInt32.lt_iff_toNat_lt]; omega)]
    refine ⟨_, rfl, ⟨?_, h.allocated, h.pos, h.small, ?_, h.dynamic, h.type, ?_⟩, rfl⟩
    · dsimp only
      omega
    · rw [hlen]
      exact hsize
    · intro i item hitem
      rw [at_grow]
      exact h.items i item hitem
  · obtain ⟨hne, k, hneed, hk⟩ := hfits.resolve_left hroom
    have hsize := hadd (by omega)
    have hfuel : k < 33 := by
      refine Nat.lt_of_not_le fun hge => ?_
      have hpow : 2 ^ 33 ≤ 2 ^ k := Nat.pow_le_pow_right (by decide) hge
      have := Nat.le_mul_of_pos_left (2 ^ k) h.pos
      omega
    obtain ⟨max, hmax, hneed', hmaxlt⟩ := doubleMax_spec (a.size + n) k 33 a.max
      hfuel h.pos (by omega) hk
    have hneed' := UInt32.le_iff_toNat_le.mp hneed'
    obtain ⟨zeroed, data', hzeroed, hnull, hlength, hitems⟩ := longer_area a.data
      a.size.toNat n.toNat (by rw [h.allocated]; exact hle)
      (by omega) (by omega) hmaxlt
    rw [if_pos (by rw [UInt32.lt_iff_toNat_lt]; omega), if_neg hne, hmax]
    simp only [Option.bind_eq_bind, Option.bind_some, hzeroed, toInt_eq (n := a.size) (by omega),
      hnull]
    refine ⟨_, rfl, ⟨?_, hlength, ?_, hmaxlt, ?_, h.dynamic, h.type, ?_⟩, rfl⟩
    · dsimp only
      omega
    · dsimp only
      omega
    · rw [hlen]
      exact hsize
    · intro i item hitem
      rw [at_grow]
      obtain ⟨-, hold⟩ | ⟨hnew, hstate⟩ := hitems i item hitem
      · exact h.items i item hold
      · rw [Contents.at_of_le (by rw [← h.size]; exact hnew)]
        exact reads_null hstate

/-- An element is made null, and no other. -/
theorem makeNullAt_spec (data : List (Item V)) (index : UInt32) (hin : index.toNat < data.length)
    (hsmall : data.length < 2 ^ 31) :
    ∃ data' item, makeNullAt data index = some data' ∧ data'.length = data.length ∧
      data'[index.toNat]? = some item ∧ item.state = .null ∧
      ∀ i, i ≠ index.toNat → data'[i]? = data[i]? := by
  unfold makeNullAt
  rw [List.getElem?_eq_getElem hin, Option.bind_eq_bind, Option.bind_some]
  split
  · next hnull => exact ⟨data, _, rfl, rfl, List.getElem?_eq_getElem hin, hnull, fun _ _ => rfl⟩
  · rw [toInt_eq (by omega), makeNull_eq data (Nat.le_refl _) hin hsmall]
    refine ⟨_, { data[index.toNat] with state := .null }, rfl, List.length_mapIdx, ?_, rfl,
      fun i hi => ?_⟩
    · rw [List.getElem?_mapIdx, List.getElem?_eq_getElem hin, Option.map_some,
        if_pos ⟨Nat.le_refl _, Nat.le_refl _⟩]
    · rw [List.getElem?_mapIdx]
      cases hget : data[i]? with
      | none => rfl
      | some item => rw [Option.map_some, if_neg (by omega)]

theorem at_set {i j : Nat} (x : Option V) (hj : j < c.elements.length) :
    (c.set j x).at i = if i = j then x else c.at i := by
  unfold Contents.at Contents.set
  rw [List.getElem?_set]
  by_cases h : j = i
  · rw [if_pos h, if_pos hj, if_pos h.symm]
    rfl
  · rw [if_neg h, if_neg (Ne.symm h)]

/-- An element is replaced by one that reads as the other. -/
theorem Sound.set (h : Sound a c) {j : Nat} {item : Item V} {x : Option V}
    (hj : j < c.elements.length) (hlength : data'.length = a.data.length)
    (hother : ∀ i, i ≠ j → data'[i]? = a.data[i]?)
    (hself : data'[j]? = some item) (hitem : ReadsAs item c.type (some x)) :
    Sound { a with data := data' } (c.set j x) := by
  refine ⟨h.size_le, hlength.trans h.allocated, h.pos, h.small, ?_, h.dynamic, h.type,
    fun i item' hitem' => ?_⟩
  · rw [Contents.set, List.length_set]
    exact h.size
  · rw [at_set x hj]
    split
    · next hij =>
      subst hij
      obtain rfl := Option.some.inj (hself.symm.trans hitem')
      exact hitem
    · next hij =>
      rw [hother i hij] at hitem'
      exact h.items i item' hitem'

end Parts

/-! ## The operations -/

section Operations

variable {vals : Values V} {a : NativeArray V} {c : Contents V} {index : UInt32} {val : Option V}
  {type : CMPIType}

theorem store_reads {copied : Bool} {v : V} {item : Item V} (hnull : item.state = .null) :
    ReadsAs (store vals copied (some v) type item).2 type
      (some (if copied then (vals.clone type v).toOption else some v)) := by
  cases copied with
  | false => exact ⟨rfl, rfl⟩
  | true =>
    simp only [store, if_true]
    cases vals.clone type v with
    | ok v' => exact ⟨rfl, rfl⟩
    | error rc => exact reads_null hnull

/-- A value of the type of the array is stored. -/
theorem setElement_stored (h : Sound a c) (hin : index.toNat < c.elements.length) (opt : Bool)
    {v : V} (hval : (convert vals a.type val type).1 = some v)
    (htype : (convert vals a.type val type).2 = a.type) :
    ∃ r, setElement vals a index val type opt = some r ∧ r.2.tracked = a.tracked ∧
      Sound r.2 (c.set index.toNat
        (if !opt && !a.tracked then (vals.clone a.type v).toOption else some v)) := by
  have hsize := h.size
  have hle := h.size_le
  have hsmall := h.small
  have hallocated := h.allocated
  obtain ⟨data', item, hnull, hlength, hitem, hstate, hother⟩ := makeNullAt_spec a.data index
    (by omega) (by omega)
  have hlt : index < a.size := UInt32.lt_iff_toNat_lt.mpr (by omega)
  let stored := store vals (!opt && !a.tracked) (some v) a.type item
  have hreads : ReadsAs stored.2 c.type
      (some (if !opt && !a.tracked then (vals.clone a.type v).toOption else some v)) := by
    rw [← h.type]
    exact store_reads hstate
  have hset : Sound { a with data := data'.set index.toNat stored.2 } _ := h.set hin
    (by rw [List.length_set, hlength])
    (fun i hi => by rw [List.getElem?_set_ne (Ne.symm hi), hother i hi])
    (List.getElem?_set_self (by omega)) hreads
  refine ⟨(stored.1, { a with data := data'.set index.toNat stored.2 }), ?_, rfl, hset⟩
  simp only [setElement, if_pos hlt, htype, or_true, if_true, hval, hnull, hitem,
    Option.bind_eq_bind, Option.bind_some]
  rfl

/-- An element that is there is set, with its copy if the array has its own values. -/
theorem setElement_spec (h : Sound a c) (hin : index.toNat < c.elements.length)
    (hgiven : Given vals a.type val type) :
    ∃ r, setElement vals a index val type false = some r ∧ r.2.tracked = a.tracked ∧
      Sound r.2 (c.put vals (!a.tracked) index.toNat val type) := by
  have hsize := h.size
  have hle := h.size_le
  have hsmall := h.small
  have hallocated := h.allocated
  have hlt : index < a.size := UInt32.lt_iff_toNat_lt.mpr (by omega)
  unfold Contents.put Contents.taken
  rw [← h.type]
  by_cases htype : (convert vals a.type val type).2 = a.type
  · obtain ⟨v, hv⟩ := Option.isSome_iff_exists.mp (hgiven htype)
    obtain ⟨r, hr, htracked, hsound⟩ := setElement_stored h hin false hv htype
    rw [if_pos htype, hv, htype]
    exact ⟨r, hr, htracked, hsound⟩
  · rw [if_neg htype]
    have hopt : ¬ (false = true ∨ (convert vals a.type val type).2 = a.type) := by simp [htype]
    by_cases hnulltype : (convert vals a.type val type).2 = nullType
    · obtain ⟨data', item, hnull, hlength, hitem, hstate, hother⟩ := makeNullAt_spec
        a.data index (by omega) (by omega)
      rw [if_pos hnulltype]
      refine ⟨(.OK, { a with data := data' }), ?_, rfl,
        h.set hin hlength hother hitem (reads_null hstate)⟩
      simp only [setElement, if_pos hlt, if_neg hopt, if_pos hnulltype, hnull,
        Option.bind_eq_bind, Option.bind_some]
    · rw [if_neg hnulltype]
      refine ⟨(.ERR_FAILED, a), ?_, rfl, h⟩
      simp only [setElement, if_pos hlt, if_neg hopt, if_neg hnulltype]

/-- Nothing is set behind the end. -/
theorem setElement_outside (h : Sound a c) (hout : c.elements.length ≤ index.toNat) (opt : Bool) :
    setElement vals a index val type opt = some (.ERR_FAILED, a) := by
  have hge : ¬ index < a.size := by
    rw [UInt32.lt_iff_toNat_lt, h.size]
    omega
  simp only [setElement, if_neg hge]

theorem put_outside (copied : Bool) {i : Nat} (hout : c.elements.length ≤ i) :
    c.put vals copied i val type = c := by
  unfold Contents.put
  split
  · rw [Contents.set, List.set_eq_of_length_le hout]
  · rfl

theorem grown_spec (h : Sound a c) (index : UInt32)
    (hfits : a.dynamic = true ∧ index = a.size → a.Fits 1) :
    ∃ a', a.grown index = some a' ∧ a'.tracked = a.tracked ∧ a'.type = a.type ∧
      Sound a' (if c.dynamic = true ∧ index.toNat = c.elements.length then c.grow 1 else c) := by
  have hiff : (a.dynamic = true ∧ index = a.size) ↔
      (c.dynamic = true ∧ index.toNat = c.elements.length) := by
    rw [h.dynamic, ← h.size, UInt32.toNat_inj]
  unfold NativeArray.grown
  by_cases hgrow : a.dynamic = true ∧ index = a.size
  · obtain ⟨a', heq, hsound, htracked⟩ := increaseSize_spec h (n := 1) (hfits hgrow)
    rw [if_pos hgrow, if_pos (hiff.mp hgrow)]
    exact ⟨a', heq, htracked, hsound.type.trans h.type.symm, hsound⟩
  · rw [if_neg hgrow, if_neg fun hgrow' => hgrow (hiff.mpr hgrow')]
    exact ⟨a, rfl, rfl, rfl, h⟩

theorem setElementAt_spec (h : Sound a c)
    (hfits : a.dynamic = true ∧ index = a.size → a.Fits 1)
    (hgiven : Given vals a.type val type) :
    ∃ r, setElementAt vals a index val type false = some r ∧ r.2.tracked = a.tracked ∧
      Sound r.2 (c.step vals (!a.tracked) (.setElementAt index val type)) := by
  obtain ⟨a', hgrow, htracked, htype, hsound⟩ := grown_spec h index hfits
  unfold setElementAt
  dsimp only [Contents.step]
  rw [hgrow, Option.bind_eq_bind, Option.bind_some, ← htracked]
  generalize (if c.dynamic = true ∧ index.toNat = c.elements.length then c.grow 1 else c) = c'
    at hsound ⊢
  by_cases hin : index.toNat < c'.elements.length
  · exact setElement_spec hsound hin (htype ▸ hgiven)
  · refine ⟨_, setElement_outside hsound (by omega) false, rfl, ?_⟩
    rw [put_outside _ (by omega)]
    exact hsound

/-- Without elements an array may be of any type. -/
theorem Sound.retype (h : Sound a c) {t : CMPIType} (ht : c.elements = [] ∨ t = c.type) :
    Sound { a with type := t } { c with type := t } := by
  refine ⟨h.size_le, h.allocated, h.pos, h.small, h.size, h.dynamic, rfl, fun i item hitem => ?_⟩
  have hold := h.items i item hitem
  obtain hempty | rfl := ht
  · have hnone : c.at i = none := Contents.at_of_le (by rw [hempty]; exact Nat.zero_le i)
    have hnone' : ({ c with type := t } : Contents V).at i = none := hnone
    rw [hnone] at hold
    rw [hnone']
    exact hold
  · exact hold

theorem simpleArrayAdd_spec (h : Sound a c)
    (hmeets : a.Meets vals (.simpleArrayAdd val type)) :
    ∃ r, simpleArrayAdd vals a val type = some r ∧ r.2.tracked = a.tracked ∧
      Sound r.2 (c.step vals (!a.tracked) (.simpleArrayAdd val type)) := by
  unfold simpleArrayAdd
  dsimp only [Contents.step]
  by_cases hdynamic : a.dynamic = true
  · obtain ⟨hfits, htype, hgiven⟩ := hmeets hdynamic
    obtain ⟨v, hv⟩ := Option.isSome_iff_exists.mp (hgiven htype)
    have htypeFor : a.typeFor type =
        if c.elements = [] then (if type = charsType then stringType else type) else c.type := by
      have hempty : a.size = 0 ↔ c.elements = [] := by
        rw [← UInt32.toNat_inj, UInt32.toNat_zero, h.size, List.length_eq_zero_iff]
      simp only [NativeArray.typeFor, hempty, h.type]
    have hretype : c.elements = [] ∨ a.typeFor type = c.type := by
      rw [htypeFor]
      by_cases hempty : c.elements = []
      · exact .inl hempty
      · exact .inr (if_neg hempty)
    obtain ⟨a', hgrow, htracked, htype', hsound⟩ :=
      grown_spec (h.retype hretype) a.size (fun _ => hfits)
    have hgrowing : c.dynamic = true := h.dynamic.symm.trans hdynamic
    dsimp only at hgrow htracked htype' hsound
    rw [if_pos ⟨hgrowing, h.size⟩] at hsound
    rw [if_pos hdynamic, if_pos hgrowing]
    obtain ⟨r, hr, htracked', hset⟩ := setElement_stored
      hsound (by simp [Contents.grow, h.size] : a.size.toNat < _) true
      (by rw [htype']; exact hv) (by rw [htype']; exact htype)
    refine ⟨r, ?_, htracked'.trans htracked, ?_⟩
    · unfold setElementAt
      rw [hgrow]
      exact hr
    · rw [← htypeFor, hv]
      have hself : (Contents.grow { c with type := a.typeFor type } 1).set a.size.toNat (some v) =
          { c with type := a.typeFor type, elements := c.elements ++ [some v] } := by
        simp [Contents.set, Contents.grow, h.size]
      rw [Bool.not_true, Bool.false_and, if_neg Bool.false_ne_true, hself] at hset
      exact hset
  · have hfixed : c.dynamic ≠ true := h.dynamic ▸ hdynamic
    rw [if_neg hdynamic, if_neg hfixed]
    exact ⟨_, rfl, rfl, h⟩

/-! ### From the start -/

theorem newEmptyArray_spec (tracked : Bool) {size : UInt32} (type : CMPIType)
    (hsize : size.toNat < 2 ^ 31) :
    ∃ a : NativeArray V, newEmptyArray tracked size type = some a ∧ a.tracked = tracked ∧
      Sound a (Contents.new size.toNat type) := by
  have hmax : ∃ max, (if size = 0 then 8 else size) = max ∧ size.toNat ≤ max.toNat ∧
      0 < max.toNat ∧ max.toNat < 2 ^ 31 := by
    by_cases hzero : size = 0
    · exact ⟨8, if_pos hzero, by rw [hzero]; decide, by decide, by decide⟩
    · have : size.toNat ≠ 0 := fun h => hzero (UInt32.toNat_inj.mp h)
      exact ⟨size, if_neg hzero, Nat.le_refl _, by omega, hsize⟩
  obtain ⟨max, hmax, hle, hpos, hsmall⟩ := hmax
  have hnull := makeNull_eq (List.replicate max.toNat (⟨.junk, none⟩ : Item V))
    (Nat.zero_le (max.toNat - 1)) (by rw [List.length_replicate]; omega)
    (by rw [List.length_replicate]; exact hsmall)
  rw [← toInt_pred hpos hsmall, Int.natCast_zero] at hnull
  have htype : (if type.base.simple = charsType then stringType else type.base.simple) =
      (Contents.new size.toNat type : Contents V).type := by
    simp [Contents.new, charsType, CMPIBase.simple]
  unfold newEmptyArray
  rw [hmax]
  dsimp only
  rw [hnull, Option.bind_eq_bind, Option.bind_some]
  refine ⟨_, rfl, rfl, ⟨hle, ?_, hpos, hsmall, ?_, ?_, htype, fun i item hitem => ?_⟩⟩
  · rw [List.length_mapIdx, List.length_replicate]
  · rw [Contents.new, List.length_replicate]
  · simp [Contents.new, ← UInt32.toNat_inj]
  · have hat : (Contents.new size.toNat type : Contents V).at i = none := by
      rw [Contents.at, Contents.new, List.getElem?_replicate]
      split <;> rfl
    dsimp only at hitem
    rw [List.getElem?_mapIdx, List.getElem?_replicate] at hitem
    obtain ⟨old, hold, rfl⟩ := Option.map_eq_some_iff.mp hitem
    have hi : i < max.toNat := (Option.ite_none_right_eq_some.mp hold).1
    rw [hat, if_pos (by omega)]
    exact reads_null rfl

theorem step_spec (h : Sound a c) {op : ArrayOp V} (hmeets : a.Meets vals op) :
    ∃ a', step vals a op = some a' ∧ a'.tracked = a.tracked ∧
      Sound a' (c.step vals (!a.tracked) op) := by
  cases op with
  | setElementAt index val type =>
    obtain ⟨r, hr, htracked, hsound⟩ := setElementAt_spec h hmeets.1 hmeets.2
    exact ⟨r.2, by rw [step, hr]; rfl, htracked, hsound⟩
  | simpleArrayAdd val type =>
    obtain ⟨r, hr, htracked, hsound⟩ := simpleArrayAdd_spec h hmeets
    exact ⟨r.2, by rw [step, hr]; rfl, htracked, hsound⟩
  | increaseSize n =>
    obtain ⟨a', heq, hsound, htracked⟩ := increaseSize_spec h hmeets
    exact ⟨a', heq, htracked, hsound⟩

theorem run_spec {ops : List (ArrayOp V)} (h : Sound a c) (hmeets : MeetsAll vals a ops) :
    ∃ a', run vals a ops = some a' ∧ Sound a' (ops.foldl (Contents.step vals (!a.tracked)) c) := by
  induction ops generalizing a c with
  | nil => exact ⟨a, rfl, h⟩
  | cons op ops ih =>
    obtain ⟨a₁, hstep, htracked, hsound⟩ := step_spec h hmeets.1
    obtain ⟨a', hrun, hsound'⟩ := ih hsound (hmeets.2 a₁ hstep)
    refine ⟨a', ?_, ?_⟩
    · unfold run at hrun ⊢
      rw [List.foldlM_cons, hstep]
      exact hrun
    · rw [List.foldl_cons, ← htracked]
      rwa [htracked] at hsound' ⊢

/-! ### The array of a result -/

/-- A result after these calls. -/
def Returned (vals : Values V) (r : NativeResult V) (done : List (Option V × CMPIType)) : Prop :=
  r.current.toNat = done.length ∧
    match done with
    | [] => r.array = none
    | first :: _ => ∃ a, r.array = some a ∧ a.tracked = true ∧
      Sound a (Contents.ofCalls vals first.2 done)

/-- An element is added by growing the array and setting the last element. -/
theorem grow_put : (c.grow 1).put vals false c.elements.length val type =
    { c with elements := c.elements ++ [(c.taken vals false val type).join] } := by
  have htaken : (c.grow 1).taken vals false val type = c.taken vals false val type := rfl
  unfold Contents.put
  rw [htaken]
  cases c.taken vals false val type with
  | none => rfl
  | some x => simp [Contents.set, Contents.grow]

/-- A call that has made room, with the contents that were there before. -/
theorem returnData_spec {r : NativeResult V} {call : Option V × CMPIType}
    (hnext : r.next call.2 = some a) (htracked : a.tracked = true) (hfixed : c.dynamic = false)
    (hsound : Sound a (c.grow 1)) (hcurrent : r.current.toNat = c.elements.length)
    (hgiven : Given vals a.type call.1 call.2) :
    ∃ a', returnData vals r call = some ⟨r.current + 1, some a'⟩ ∧ a'.tracked = true ∧
      Sound a' { c with elements := c.elements ++ [(c.taken vals false call.1 call.2).join] } := by
  have hfixed' : a.dynamic = false := hsound.dynamic.trans hfixed
  have hin : r.current.toNat < (c.grow 1).elements.length := by
    rw [hcurrent, Contents.grow, List.length_append]
    exact Nat.lt_succ_self _
  obtain ⟨r', hset, htracked', hsound'⟩ := setElement_spec hsound hin hgiven
  refine ⟨r'.2, ?_, htracked'.trans htracked, ?_⟩
  · simp only [returnData, setElementAt, NativeArray.grown, hnext, hfixed', hset, Bool.false_eq_true,
      false_and, if_false, Option.bind_eq_bind, Option.bind_some]
  · rw [htracked, hcurrent, Bool.not_true, grow_put] at hsound'
    exact hsound'

theorem ofCalls_append (type : CMPIType) (done : List (Option V × CMPIType))
    (call : Option V × CMPIType) :
    { Contents.ofCalls vals type done with
      elements := (Contents.ofCalls vals type done).elements ++
        [((Contents.ofCalls vals type done).taken vals false call.1 call.2).join] } =
      Contents.ofCalls vals type (done ++ [call]) := by
  simp only [Contents.ofCalls, List.map_append]
  rfl

theorem Returned.step {r : NativeResult V} {done : List (Option V × CMPIType)}
    {call : Option V × CMPIType} (h : Returned vals r done)
    (hfits : ∀ a, r.array = some a → a.Fits 1)
    (hgiven : ∀ a, r.next call.2 = some a → Given vals a.type call.1 call.2) :
    ∃ r', returnData vals r call = some r' ∧ Returned vals r' (done ++ [call]) := by
  obtain ⟨hcurrent, harray⟩ := h
  cases done with
  | nil =>
    have hzero : r.current = 0 := UInt32.toNat_inj.mp hcurrent
    obtain ⟨a, hnew, htracked, hsound⟩ := newEmptyArray_spec (V := V) true (call.2)
      (by decide : (1 : UInt32).toNat < 2 ^ 31)
    have hnext : r.next call.2 = some a := by
      simp only [NativeResult.next, show r.array = none from harray, hzero, if_true, hnew]
    obtain ⟨a', hreturn, htracked', hsound'⟩ := returnData_spec
      (c := Contents.ofCalls vals call.2 []) hnext htracked rfl hsound hcurrent (hgiven a hnext)
    rw [ofCalls_append] at hsound'
    refine ⟨_, hreturn, ?_, a', rfl, htracked', hsound'⟩
    rw [hzero]
    rfl
  | cons first rest =>
    obtain ⟨a, ha, htracked, hsound⟩ := harray
    obtain ⟨a₁, hgrow, hsound₁, htracked₁⟩ := increaseSize_spec hsound (n := 1) (hfits a ha)
    have hnext : r.next call.2 = some a₁ := by
      simp only [NativeResult.next, ha, hgrow]
    have hlength : r.current.toNat =
        (Contents.ofCalls vals first.2 (first :: rest)).elements.length := by
      rw [hcurrent, Contents.ofCalls, List.length_map]
    obtain ⟨a', hreturn, htracked', hsound'⟩ := returnData_spec hnext (htracked₁.trans htracked)
      rfl hsound₁ hlength (hgiven a₁ hnext)
    rw [ofCalls_append] at hsound'
    refine ⟨_, hreturn, ?_, a', rfl, htracked', hsound'⟩
    have hsize := hsound'.size
    have hle := hsound'.size_le
    have hsmall := hsound'.small
    rw [Contents.ofCalls, List.length_map, List.length_append, List.length_singleton] at hsize
    rw [UInt32.toNat_add, hcurrent, List.length_append, List.length_singleton,
      show (1 : UInt32).toNat = 1 from rfl]
    exact Nat.mod_eq_of_lt (by omega)

theorem Returned.calls {r : NativeResult V} {done calls : List (Option V × CMPIType)}
    (h : Returned vals r done) (hmeets : MeetsCalls vals r calls) :
    ∃ r', calls.foldlM (returnData vals) r = some r' ∧ Returned vals r' (done ++ calls) := by
  induction calls generalizing r done with
  | nil => exact ⟨r, rfl, by rwa [List.append_nil]⟩
  | cons call calls ih =>
    obtain ⟨r₁, hreturn, hr₁⟩ := h.step hmeets.1 hmeets.2.1
    obtain ⟨r', hcalls, hr'⟩ := ih hr₁ (hmeets.2.2 r₁ hreturn)
    refine ⟨r', ?_, ?_⟩
    · rw [List.foldlM_cons, hreturn]
      exact hcalls
    · rwa [List.append_assoc] at hr'

end Operations

/-- Arrays and results have the contents that they should have. -/
theorem contents_of_runs (vals : Values V) :
    (∀ (tracked : Bool) (size : UInt32) (type : CMPIType) (ops : List (ArrayOp V)),
      size.toNat < 2 ^ 31 → (∀ a, newEmptyArray tracked size type = some a → MeetsAll vals a ops) →
      ∃ a, (newEmptyArray tracked size type).bind (run vals · ops) = some a ∧
        Holds a (ops.foldl (Contents.step vals (!tracked)) (Contents.new size.toNat type))) ∧
    (∀ calls, MeetsCalls vals ⟨0, none⟩ calls →
      ∃ r, returned vals calls = some r ∧
        ∀ first ∈ calls.head?, ∃ a, r.array = some a ∧
          Holds a (Contents.ofCalls vals first.2 calls)) := by
  constructor
  · intro tracked size type ops hsize hmeets
    obtain ⟨a, hnew, htracked, hsound⟩ := newEmptyArray_spec (V := V) tracked type hsize
    obtain ⟨a', hrun, hsound'⟩ := run_spec hsound (hmeets a hnew)
    rw [htracked] at hsound'
    exact ⟨a', by rw [hnew, Option.bind_some, hrun], hsound'.holds⟩
  · intro calls hmeets
    have hnone : Returned vals ⟨0, none⟩ [] := ⟨rfl, rfl⟩
    obtain ⟨r, hcalls, -, harray⟩ := hnone.calls hmeets
    refine ⟨r, hcalls, fun first hfirst => ?_⟩
    rw [List.nil_append] at harray
    cases calls with
    | nil => cases hfirst
    | cons call calls =>
      obtain rfl := Option.some.inj hfirst
      obtain ⟨a, ha, -, hsound⟩ := harray
      exact ⟨a, ha, hsound.holds⟩

/-- An element is appended to a new array, and two null ones behind it. -/
theorem contents_of_append : ∃ a : NativeArray Nat,
    (newEmptyArray true 0 CMPIBase.uint32.simple).bind
        (run ⟨id, (· == 0), fun _ v => .ok v⟩ ·
          [.simpleArrayAdd (some 5) CMPIBase.uint32.simple, .increaseSize 2]) = some a ∧
      Holds a ⟨CMPIBase.uint32.simple, true, [some 5, none, none]⟩ := by
  refine (contents_of_runs ⟨id, (· == 0), fun _ v => .ok v⟩).1 true 0 CMPIBase.uint32.simple
    [.simpleArrayAdd (some 5) CMPIBase.uint32.simple, .increaseSize 2] (by decide)
    fun a hnew => ?_
  cases hnew
  refine ⟨fun _ => ⟨.inl (by decide), rfl, fun _ => rfl⟩, fun a' hstep => ?_⟩
  cases hstep
  exact ⟨.inl (by decide), fun _ _ => trivial⟩

/-- Nine elements do not fit into the area of eight that an empty array is given. -/
theorem not_contents_of_growth : ¬ ∃ a : NativeArray Nat,
    (newEmptyArray true 0 CMPIBase.uint32.simple).bind
        (run ⟨id, (· == 0), fun _ v => .ok v⟩ · [.increaseSize 9]) = some a ∧
      Holds a ⟨CMPIBase.uint32.simple, true, List.replicate 9 none⟩ := by
  rintro ⟨a, hrun, -⟩
  cases hrun

end Sfcb.Cmpi.DynamicArray
