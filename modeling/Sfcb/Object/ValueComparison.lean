import Mathlib.Data.List.Forall2
import Mathlib.Data.List.Perm.Subperm
import Sfcb.Object.PropertyMap

/-!
# Comparing values and instances

`sfcb_comp_CMPIValue` and `instanceCompare`. What the comparison sees of two values is
`LooksEqual` (`comp_eq_zero_iff`, `instanceCompare_eq_zero_iff`): the low 32 bits of a number,
whether the whole union is zero, and of arrays all elements but the last one, since the loop
takes the index after the one it has counted down to. `comparison_iff` compares it with
equality.

Mirroring notes:
- A value is what the union leads to. It is taken for a `NULL` pointer where all its bits are
  zero, a number too.
- A `CMPIString` whose characters are `NULL` is a null pointer here: both come from a null
  property, and `extended_strcmp` treats the characters as the first lines treat the pointers.
- Reading a pointer as a number, or a number as a pointer to characters, has the outcome
  `none`.
- The index -1 is the largest `CMPICount`, of which no array has an element.
- The types that are none of plain data have their own comparisons: `Others`.
-/

namespace Sfcb.Object

open Sfcb.Lib

/-! ## The code -/

/-- The comparisons of reals, instances, references and times. -/
abbrev Others := CMPIBase → Value → Value → Int

/-- `val->array == NULL`. -/
def Value.isNULL : Value → Bool
  | .nullPtr => true
  | .word n => n == 0
  | _ => false

/-- `val->Long`. -/
def Value.number : Value → Option Nat
  | .word n => some n
  | _ => none

/-- `val->string->ft->getCharPtr(val->string)`. -/
def Value.charPtr : Value → Option (Option CStr)
  | .text s => some (some s)
  | .nullPtr => some none
  | .word 0 => some none
  | _ => none

/-- A member of an array, as a union of its own. -/
def ElemValue.value : ElemValue → Value
  | .word n => .word n
  | .text s => .text s
  | .blob bytes => .blob bytes

/-- `extended_strcmp`. -/
def extendedStrcmp : Option CStr → Option CStr → Int
  | none, none => 0
  | none, some _ => -1
  | some _, none => 1
  | some s, some t => strcmp s t

/-- The difference of two members of `w` bits, as an `int`. -/
def difference (w : Nat) (v v' : Value) : Option Int :=
  v.number.bind fun m => v'.number.map fun n =>
    ((m : Int).bmod (2 ^ w) - (n : Int).bmod (2 ^ w)).bmod (2 ^ 32)

/-- The tests for `NULL` in front. -/
def nullFirst (v v' : Value) (rest : Option Int) : Option Int :=
  if v.isNULL && v'.isNULL then some 0
  else if v.isNULL then some (-1)
  else if v'.isNULL then some 1
  else rest

/-- The `switch`. -/
def compSwitch (others : Others) (v v' : Value) (base : CMPIBase) : Option Int :=
  match base with
  | .boolean | .uint8 | .sint8 => difference 8 v v'
  | .char16 | .uint16 | .sint16 => difference 16 v v'
  | .uint32 | .sint32 => difference 32 v v'
  | .uint64 | .sint64 => difference 64 v v'
  | .real32 | .real64 | .inst | .ref | .dateTime => some (others base v v')
  | .string => v.charPtr.bind fun s => v'.charPtr.map fun t => extendedStrcmp s t
  | _ => some 0

/-- `getElementAt(array, index).value`. -/
def elementAt (a : NativeArray) (index : Int) : Value :=
  if index < 0 then .word 0
  else
    match a.data[index.toNat]? with
    | some item => item.value.value
    | none => .word 0

/-- The loop `while(c--)`, of which the body has `c` counted down. -/
def compElements (others : Others) (a b : NativeArray) (base : CMPIBase) : Nat → Option Int
  | 0 => some 0
  | c + 1 =>
    let val1 := elementAt a ((c : Int) - 1)
    let val2 := elementAt b ((c : Int) - 1)
    (nullFirst val1 val2 (compSwitch others val1 val2 base)).bind fun r =>
      if r ≠ 0 then some 1 else compElements others a b base c

/-- `sfcb_comp_CMPIValue`. -/
def sfcbCompCMPIValue (others : Others) (v v' : Value) (type : CMPIType) : Option Int :=
  nullFirst v v' <|
    if type.array then
      match v, v' with
      | .array a, .array b =>
        if a.data.length ≠ b.data.length then some 1
        else compElements others a b type.base a.data.length
      | _, _ => none
    else compSwitch others v v' type.base

/-! ## What is seen of two values -/

/-- Integers, booleans and strings. -/
def CMPIBase.compared : CMPIBase → Bool
  | .boolean | .uint8 | .uint16 | .uint32 | .uint64 | .sint8 | .sint16 | .sint32 | .sint64
  | .string => true
  | _ => false

/-- Two numbers agree in the low bits and are both zero as a whole or neither; two strings are
both there with the same characters, or neither. -/
def LooksEqual (base : CMPIBase) (v v' : Value) : Prop :=
  match base.bits with
  | some w => ∃ m n, v.number = some m ∧ v'.number = some n ∧ (m = 0 ↔ n = 0) ∧
      m % 2 ^ min w 32 = n % 2 ^ min w 32
  | none => ∃ s, v.charPtr = some s ∧ v'.charPtr = some s

/-- The numbers are equal, or the strings. -/
def SameValue (base : CMPIBase) (v v' : Value) : Prop :=
  match base.bits with
  | some w => ∃ m n, v.number = some m ∧ v'.number = some n ∧ m % 2 ^ w = n % 2 ^ w
  | none => ∃ s, v.charPtr = some s ∧ v'.charPtr = some s

/-- No C string has a zero in it. -/
def Value.Ended (v : Value) : Prop := ∀ s, v = .text s → 0 ∉ s

theorem CMPIBase.compared_cases {base : CMPIBase} (h : base.compared = true) :
    (∃ w, (w = 8 ∨ w = 16 ∨ w = 32 ∨ w = 64) ∧ base.bits = some w ∧
      ∀ others v v', compSwitch others v v' base = difference w v v') ∨
    base = .string := by
  cases base <;> simp_all [CMPIBase.compared, CMPIBase.bits, compSwitch]

/-- The difference is zero where the low bits agree. -/
theorem difference_eq_zero_iff {w m n : Nat} (hw : w = 8 ∨ w = 16 ∨ w = 32 ∨ w = 64) :
    difference w (.word m) (.word n) = some 0 ↔ m % 2 ^ min w 32 = n % 2 ^ min w 32 := by
  show some _ = some _ ↔ _
  rw [Option.some.injEq, ← Int.dvd_iff_bmod_eq_zero]
  -- two's complement does not change a number modulo its width
  have hm := @Int.bmod_emod m (2 ^ w)
  have hn := @Int.bmod_emod n (2 ^ w)
  have hle := fun k : Nat => @Int.le_bmod k (2 ^ w) (Nat.two_pow_pos w)
  have hlt := fun k : Nat => @Int.bmod_lt k (2 ^ w) (Nat.two_pow_pos w)
  have hmle := hle m
  have hnle := hle n
  have hmlt := hlt m
  have hnlt := hlt n
  generalize (m : Int).bmod (2 ^ w) = a at hm hmle hmlt ⊢
  generalize (n : Int).bmod (2 ^ w) = b at hn hnle hnlt ⊢
  obtain rfl | rfl | rfl | rfl := hw <;> simp at hm hn hmle hnle hmlt hnlt ⊢ <;> omega

theorem nullFirst_eq_zero_iff {v v' : Value} {rest : Option Int} :
    nullFirst v v' rest = some 0 ↔
      v.isNULL = true ∧ v'.isNULL = true ∨ v.isNULL = false ∧ v'.isNULL = false ∧ rest = some 0 := by
  unfold nullFirst
  cases v.isNULL <;> cases v'.isNULL <;> simp

theorem extendedStrcmp_eq_zero_iff {s t : Option CStr} (hs : ∀ c ∈ s, 0 ∉ c) (ht : ∀ c ∈ t, 0 ∉ c) :
    extendedStrcmp s t = 0 ↔ s = t := by
  cases s with
  | none => cases t <;> simp [extendedStrcmp]
  | some c =>
    cases t with
    | none => simp [extendedStrcmp]
    | some d =>
      rw [Option.some.injEq]
      exact strcmp_eq_zero_iff_of_notMem (hs c rfl) (ht d rfl)

theorem Value.charPtr_ended {v : Value} (h : v.Ended) {s : Option CStr} (hs : v.charPtr = some s) :
    ∀ c ∈ s, 0 ∉ c := by
  intro c hc
  cases v with
  | text t =>
    obtain rfl : some t = s := Option.some.inj hs
    obtain rfl : t = c := Option.some.inj hc
    exact h t rfl
  | nullPtr =>
    obtain rfl : none = s := Option.some.inj hs
    exact absurd hc (by simp)
  | word n =>
    cases n with
    | zero =>
      obtain rfl : none = s := Option.some.inj hs
      exact absurd hc (by simp)
    | succ n => exact absurd hs (by simp [Value.charPtr])
  | blob bytes => exact absurd hs (by simp [Value.charPtr])
  | array a => exact absurd hs (by simp [Value.charPtr])

/-- A `NULL` has no characters, and nothing else has none. -/
theorem Value.isNULL_iff_charPtr {v : Value} : v.isNULL = true ↔ v.charPtr = some none := by
  cases v with
  | word n => cases n <;> simp [Value.isNULL, Value.charPtr]
  | _ => simp [Value.isNULL, Value.charPtr]

theorem Value.isNULL_eq_false {v : Value} {s : CStr} (h : v.charPtr = some (some s)) :
    v.isNULL = false := by
  rw [← Bool.not_eq_true, Value.isNULL_iff_charPtr, h]
  simp

section Simple

variable {base : CMPIBase} {v v' : Value} {others : Others}

/-- Two values that are no arrays. They may be anything that a null element is left with. -/
theorem compSwitch_eq_zero_iff (hbase : base.compared = true)
    (hv : base.bits ≠ none → v ≠ .nullPtr) (hv' : base.bits ≠ none → v' ≠ .nullPtr)
    (hended : v.Ended) (hended' : v'.Ended) :
    nullFirst v v' (compSwitch others v v' base) = some 0 ↔ LooksEqual base v v' := by
  rw [nullFirst_eq_zero_iff]
  unfold LooksEqual
  obtain ⟨w, hw, hbits, hswitch⟩ | rfl := CMPIBase.compared_cases hbase
  · rw [hswitch, hbits]
    replace hv := hv (by simp [hbits])
    replace hv' := hv' (by simp [hbits])
    cases v with
    | word m =>
      cases v' with
      | word n =>
        simp only [difference_eq_zero_iff hw, Value.isNULL, Value.number, Option.some.injEq,
          beq_iff_eq, beq_eq_false_iff_ne]
        constructor
        · rintro (⟨rfl, rfl⟩ | ⟨hm, hn, h⟩)
          · exact ⟨0, 0, rfl, rfl, Iff.rfl, rfl⟩
          · exact ⟨m, n, rfl, rfl, by simp [hm, hn], h⟩
        · rintro ⟨_, _, rfl, rfl, hzero, h⟩
          by_cases hm : m = 0
          · exact Or.inl ⟨hm, hzero.mp hm⟩
          · exact Or.inr ⟨hm, fun hn => hm (hzero.mpr hn), h⟩
      | _ => simp_all [difference, Value.number, Value.isNULL]
    | _ => simp_all [difference, Value.number, Value.isNULL]
  · show _ ∨ _ ∧ _ ∧ (v.charPtr.bind fun s => v'.charPtr.map fun t => extendedStrcmp s t) = some 0 ↔
      ∃ s, v.charPtr = some s ∧ v'.charPtr = some s
    constructor
    · rintro (⟨h, h'⟩ | ⟨-, -, h⟩)
      · exact ⟨none, Value.isNULL_iff_charPtr.mp h, Value.isNULL_iff_charPtr.mp h'⟩
      · obtain ⟨s, hs, h⟩ := Option.bind_eq_some_iff.mp h
        obtain ⟨t, ht, h⟩ := Option.map_eq_some_iff.mp h
        have heq := (extendedStrcmp_eq_zero_iff (Value.charPtr_ended hended hs)
          (Value.charPtr_ended hended' ht)).mp h
        exact ⟨s, hs, heq ▸ ht⟩
    · intro ⟨s, hs, hs'⟩
      cases s with
      | none => exact Or.inl ⟨Value.isNULL_iff_charPtr.mpr hs, Value.isNULL_iff_charPtr.mpr hs'⟩
      | some c =>
        refine Or.inr ⟨Value.isNULL_eq_false hs, Value.isNULL_eq_false hs', ?_⟩
        rw [hs, hs']
        exact congrArg some (strcmp_self c)

end Simple

/-! ## Arrays -/

section Arrays

variable {base : CMPIBase} {a b : NativeArray} {others : Others}

theorem elementAt_eq {i : Nat} (hi : i < a.data.length) :
    elementAt a i = a.data[i].value.value := by
  unfold elementAt
  rw [if_neg (by omega), Int.toNat_natCast, List.getElem?_eq_getElem hi]

/-- An element that is asked for is no null pointer, wherever it is. -/
theorem elementAt_ne_nullPtr (a : NativeArray) (i : Int) : elementAt a i ≠ .nullPtr := by
  unfold elementAt
  split
  · simp
  · split
    · next item _ => cases h : item.value <;> simp [ElemValue.value]
    · simp

/-- The texts of an array are C strings. -/
def NativeArray.Ended (a : NativeArray) : Prop := ∀ item ∈ a.data, item.value.value.Ended

theorem NativeArray.Ended.elementAt (h : a.Ended) (i : Int) : (elementAt a i).Ended := by
  unfold Object.elementAt
  intro s hs
  split at hs
  · exact absurd hs (by simp)
  · split at hs
    · next item hitem => exact h item (List.mem_of_getElem? hitem) s hs
    · exact absurd hs (by simp)

/-- The loop compares the elements in front of the last one. The last round asks for the
element -1 of both. -/
theorem compElements_eq_zero_iff (hbase : base.compared = true) (ha : a.Ended) (hb : b.Ended)
    (c : Nat) : compElements others a b base c = some 0 ↔
      ∀ i : Nat, i + 1 < c → LooksEqual base (elementAt a i) (elementAt b i) := by
  induction c with
  | zero => simp [compElements]
  | succ c ih =>
    have hround := @compSwitch_eq_zero_iff base (elementAt a ((c : Int) - 1))
      (elementAt b ((c : Int) - 1)) others hbase (fun _ => elementAt_ne_nullPtr a _)
      (fun _ => elementAt_ne_nullPtr b _) (ha.elementAt _) (hb.elementAt _)
    have hstep : compElements others a b base (c + 1) = some 0 ↔
        LooksEqual base (elementAt a ((c : Int) - 1)) (elementAt b ((c : Int) - 1)) ∧
          compElements others a b base c = some 0 := by
      rw [← hround]
      simp only [compElements]
      cases nullFirst (elementAt a ((c : Int) - 1)) (elementAt b ((c : Int) - 1)) _ with
      | none => simp
      | some r =>
        by_cases hr : r = 0
        · simp [hr]
        · simp [hr]
    rw [hstep, ih]
    cases c with
    | zero =>
      have hout : ∀ a : NativeArray, elementAt a (((0 : Nat) : Int) - 1) = .word 0 := fun a => rfl
      rw [hout, hout, ← @compSwitch_eq_zero_iff base (.word 0) (.word 0) others hbase (by simp)
        (by simp) (by simp [Value.Ended]) (by simp [Value.Ended])]
      simp [nullFirst, Value.isNULL]
    | succ c =>
      rw [show ((c + 1 : Nat) : Int) - 1 = (c : Int) by omega]
      constructor
      · intro ⟨hlast, h⟩ i hi
        by_cases hic : i = c
        · exact hic ▸ hlast
        · exact h i (by omega)
      · intro h
        exact ⟨h c (by omega), fun i hi => h i (by omega)⟩

/-- All elements but the last look equal. -/
def FrontLooksEqual (base : CMPIBase) (a b : NativeArray) : Prop :=
  List.Forall₂ (fun x y => LooksEqual base x.value.value y.value.value) a.data.dropLast
    b.data.dropLast

theorem frontLooksEqual_iff (h : a.data.length = b.data.length) :
    FrontLooksEqual base a b ↔
      ∀ i : Nat, i + 1 < a.data.length → LooksEqual base (elementAt a i) (elementAt b i) := by
  unfold FrontLooksEqual
  rw [List.forall₂_iff_get]
  simp only [List.length_dropLast, List.get_eq_getElem, List.getElem_dropLast, h, true_and]
  constructor
  · intro hall i hi
    rw [elementAt_eq (by omega), elementAt_eq (by omega)]
    exact hall i (by omega) (by omega)
  · intro hall i hi _
    have := hall i (by omega)
    rwa [elementAt_eq (by omega), elementAt_eq (by omega)] at this

/-- Two elements are both null, or both are not and their values are the same. -/
def SameItem (base : CMPIBase) (x y : ArrayItem) : Prop :=
  isNull x.state = isNull y.state ∧
    (isNull x.state = false → SameValue base x.value.value y.value.value)

def SameElements (base : CMPIBase) (a b : NativeArray) : Prop :=
  List.Forall₂ (SameItem base) a.data b.data

end Arrays

/-! ## Values -/

/-- A number or a string. -/
def Value.Of (base : CMPIBase) (v : Value) : Prop :=
  if base.bits.isSome then v.number ≠ none else v.charPtr ≠ none

/-- What a null element is left with may be anything. -/
structure NativeArray.Of (base : CMPIBase) (a : NativeArray) : Prop where
  ended : a.Ended
  item : ∀ x ∈ a.data, isNull x.state = false → x.value.value.Of base

/-- A value of a type: an array, or none, or a number or a string. -/
structure Value.OfType (type : CMPIType) (v : Value) : Prop where
  compared : type.base.compared = true
  ended : v.Ended
  simple : type.array = false → v.Of type.base
  array : type.array = true → v.isNULL = true ∨ ∃ a, v = .array a ∧ a.Of type.base

/-- What the comparison sees. -/
def SeenEqual (type : CMPIType) (v v' : Value) : Prop :=
  if type.array then
    v.isNULL = true ∧ v'.isNULL = true ∨
      ∃ a b, v = .array a ∧ v' = .array b ∧ a.data.length = b.data.length ∧
        FrontLooksEqual type.base a b
  else LooksEqual type.base v v'

/-- The values are equal. -/
def EqualValues (type : CMPIType) (v v' : Value) : Prop :=
  if type.array then
    v.isNULL = true ∧ v'.isNULL = true ∨
      ∃ a b, v = .array a ∧ v' = .array b ∧ SameElements type.base a b
  else SameValue type.base v v'

/-- Different numbers with the same low 32 bits, neither of them zero; or arrays of one size
that look equal up to the last element and are not. -/
def Overlooked (type : CMPIType) (v v' : Value) : Prop :=
  if type.array then
    ∃ a b, v = .array a ∧ v' = .array b ∧ a.data.length = b.data.length ∧
      FrontLooksEqual type.base a b ∧ ¬ SameElements type.base a b
  else
    ∃ w m n, type.base.bits = some w ∧ v.number = some m ∧ v'.number = some n ∧
      (m = 0 ↔ n = 0) ∧ m % 2 ^ min w 32 = n % 2 ^ min w 32 ∧ m % 2 ^ w ≠ n % 2 ^ w

/-- Equal numbers, of which one fills its union with zeros and the other does not; or equal
arrays with such elements, or with null elements that were left with something else. -/
def Spurious (type : CMPIType) (v v' : Value) : Prop :=
  if type.array then
    ∃ a b, v = .array a ∧ v' = .array b ∧ SameElements type.base a b ∧
      ¬ FrontLooksEqual type.base a b
  else
    ∃ w m n, type.base.bits = some w ∧ v.number = some m ∧ v'.number = some n ∧
      m % 2 ^ w = n % 2 ^ w ∧ ¬ (m = 0 ↔ n = 0)

section Values

variable {type : CMPIType} {v v' : Value}

theorem isNULL_array (a : NativeArray) : (Value.array a).isNULL = false := rfl

theorem ne_array_of_isNULL (h : v.isNULL = true) (a : NativeArray) : v ≠ .array a := by
  intro heq
  rw [heq, isNULL_array] at h
  exact absurd h (by simp)

theorem Value.OfType.ne_nullPtr (h : v.OfType type) (harray : type.array = false) :
    type.base.bits ≠ none → v ≠ .nullPtr := by
  intro hbits hnull
  have hof := h.simple harray
  unfold Value.Of at hof
  rw [if_pos (Option.isSome_iff_ne_none.mpr hbits), hnull] at hof
  exact hof rfl

theorem comp_eq_zero_iff (others : Others) (hv : v.OfType type) (hv' : v'.OfType type) :
    sfcbCompCMPIValue others v v' type = some 0 ↔ SeenEqual type v v' := by
  unfold sfcbCompCMPIValue SeenEqual
  cases harray : type.array with
  | false =>
    exact compSwitch_eq_zero_iff hv.compared (hv.ne_nullPtr harray) (hv'.ne_nullPtr harray) hv.ended
      hv'.ended
  | true =>
    rw [nullFirst_eq_zero_iff]
    obtain hnull | ⟨a, rfl, ha⟩ := hv.array harray <;>
      obtain hnull' | ⟨b, rfl, hb⟩ := hv'.array harray
    · simp [hnull, hnull']
    · simp [hnull, isNULL_array, ne_array_of_isNULL hnull]
    · simp [hnull', isNULL_array, ne_array_of_isNULL hnull']
    · simp only [isNULL_array, Bool.false_eq_true, false_and, false_or, true_and, if_true,
        Value.array.injEq]
      constructor
      · intro h
        by_cases hlen : a.data.length = b.data.length
        · rw [if_neg (by simpa using hlen),
            compElements_eq_zero_iff hv.compared ha.ended hb.ended] at h
          exact ⟨a, b, rfl, rfl, hlen, (frontLooksEqual_iff hlen).mpr h⟩
        · rw [if_pos (by simpa using hlen)] at h
          exact absurd h (by simp)
      · rintro ⟨_, _, rfl, rfl, hlen, h⟩
        rw [if_neg (by simpa using hlen), compElements_eq_zero_iff hv.compared ha.ended hb.ended]
        exact (frontLooksEqual_iff hlen).mp h

/-- The comparison says whether two values are equal, up to the two kinds of mistakes. -/
theorem seenEqual_iff (hv : v.OfType type) (hv' : v'.OfType type) :
    (SeenEqual type v v' ↔ EqualValues type v v') ↔
      ¬ Overlooked type v v' ∧ ¬ Spurious type v v' := by
  unfold SeenEqual EqualValues Overlooked Spurious
  cases harray : type.array with
  | true =>
    obtain hnull | ⟨a, rfl, ha⟩ := hv.array harray <;>
      obtain hnull' | ⟨b, rfl, hb⟩ := hv'.array harray
    · simp [hnull, hnull', ne_array_of_isNULL]
    · simp [isNULL_array, ne_array_of_isNULL hnull]
    · simp [isNULL_array, ne_array_of_isNULL hnull']
    · have hlength : SameElements type.base a b → a.data.length = b.data.length :=
        List.Forall₂.length_eq
      simp only [isNULL_array, Bool.false_eq_true, false_and, false_or, if_true,
        Value.array.injEq, exists_and_left, exists_eq_left']
      tauto
  | false =>
    have hof := hv.simple harray
    have hof' := hv'.simple harray
    unfold LooksEqual SameValue
    unfold Value.Of at hof hof'
    cases hbits : type.base.bits with
    | none => simp
    | some w =>
      rw [hbits, Option.isSome_some, if_pos rfl] at hof hof'
      obtain ⟨m, hm⟩ := Option.ne_none_iff_exists'.mp hof
      obtain ⟨n, hn⟩ := Option.ne_none_iff_exists'.mp hof'
      -- equal numbers have equal low bits
      have hlow : m % 2 ^ w = n % 2 ^ w → m % 2 ^ min w 32 = n % 2 ^ min w 32 := by
        intro h
        have hdvd : 2 ^ min w 32 ∣ 2 ^ w := Nat.pow_dvd_pow 2 (Nat.min_le_left w 32)
        rw [← Nat.mod_mod_of_dvd m hdvd, h, Nat.mod_mod_of_dvd n hdvd]
      simp only [hm, hn, Option.some.injEq, Bool.false_eq_true, if_false, exists_and_left,
        exists_eq_left']
      tauto

end Values

/-! ## Instances -/

/-- The functions of an instance that the comparison calls. -/
structure InstanceFT where
  getPropertyCount : Nat
  /-- the data and the name -/
  getPropertyAt : Nat → Option (CMPIData × CStr)
  /-- the data and the status -/
  getProperty : CStr → Option (CMPIData × Int)

/-- The loop, with `n` properties left from `i` on. -/
def compProperties (others : Others) (inst1 inst2 : InstanceFT) : Nat → Nat → Option Int
  | 0, _ => some 0
  | n + 1, i =>
    (inst1.getPropertyAt i).bind fun (d1, propName) =>
      (inst2.getProperty propName).bind fun (d2, rc) =>
        if rc ≠ 0 ∨ d1.type ≠ d2.type then some 1
        else
          (sfcbCompCMPIValue others d1.value d2.value d1.type).bind fun r =>
            if r ≠ 0 then some 1 else compProperties others inst1 inst2 n (i + 1)

def instanceCompare (others : Others) : Option InstanceFT → Option InstanceFT → Option Int
  | none, none => some 0
  | none, some _ => some (-1)
  | some _, none => some 1
  | some inst1, some inst2 =>
    let c := inst1.getPropertyCount
    if c ≠ inst2.getPropertyCount then some 1 else compProperties others inst1 inst2 c 0

/-- A property, as it is read. -/
structure Property where
  name : CStr
  data : CMPIData
  deriving DecidableEq, Repr

/-- The properties of an instance: numbers, strings and arrays, each with a name of its own. -/
structure Properties where
  list : List Property
  nodup : (list.map fun p => fold p.name).Nodup
  ended : ∀ p ∈ list, 0 ∉ p.name
  typed : ∀ p ∈ list, p.data.value.OfType p.data.type

/-- `getProperty` of a list of properties. -/
def found (list : List Property) (name : CStr) : CMPIData × Int :=
  match list.find? fun p => fold name = fold p.name with
  | some p => (p.data, 0)
  | none => (⟨CMPIBase.null.simple, notFoundState, .word 0⟩, notFound)

/-- An instance has these properties. -/
structure InstanceFT.Gives (inst : InstanceFT) (ps : Properties) : Prop where
  count : inst.getPropertyCount = ps.list.length
  at_index : ∀ i : Nat, ∀ p, ps.list[i]? = some p → inst.getPropertyAt i = some (p.data, p.name)
  by_name : ∀ name, 0 ∉ name → inst.getProperty name = some (found ps.list name)

/-- The same names, and related data under each of them. -/
structure Matched (R : CMPIData → CMPIData → Prop) (ps qs : Properties) : Prop where
  names : ∀ k, k ∈ ps.list.map (fold ·.name) ↔ k ∈ qs.list.map (fold ·.name)
  data : ∀ p ∈ ps.list, ∀ q ∈ qs.list, fold p.name = fold q.name → R p.data q.data

/-- The same type, and values that look equal. -/
def SeenData (d d' : CMPIData) : Prop := d.type = d'.type ∧ SeenEqual d.type d.value d'.value

/-- The same type, and both null or both with the same value. -/
def SameData (d d' : CMPIData) : Prop :=
  d.type = d'.type ∧ isNull d.state = isNull d'.state ∧
    (isNull d.state = false → EqualValues d.type d.value d'.value)

section Instances

variable {inst1 inst2 : InstanceFT} {ps qs : Properties} {others : Others}

theorem found_eq {list : List Property} (hnodup : (list.map fun p => fold p.name).Nodup)
    {name : CStr} {q : Property} (hq : q ∈ list) (hname : fold name = fold q.name) :
    found list name = (q.data, 0) := by
  have hfind : list.find? (fun p => fold name = fold p.name) = some q := by
    induction list with
    | nil => exact absurd hq List.not_mem_nil
    | cons p list ih =>
      rw [List.map_cons, List.nodup_cons] at hnodup
      by_cases hp : fold name = fold p.name
      · rw [List.find?_cons_of_pos (by simpa using hp)]
        obtain rfl | hq := List.mem_cons.mp hq
        · rfl
        · exact absurd (List.mem_map.mpr ⟨q, hq, hname.symm.trans hp⟩) hnodup.1
      · rw [List.find?_cons_of_neg (by simpa using hp)]
        obtain rfl | hq := List.mem_cons.mp hq
        · exact absurd hname hp
        · exact ih hnodup.2 hq
  unfold found
  rw [hfind]

theorem found_none {list : List Property} {name : CStr}
    (h : ∀ q ∈ list, fold name ≠ fold q.name) :
    found list name = (⟨CMPIBase.null.simple, notFoundState, .word 0⟩, notFound) := by
  have hfind : list.find? (fun p => fold name = fold p.name) = none :=
    List.find?_eq_none.mpr fun q hq => by simpa using h q hq
  unfold found
  rw [hfind]

/-- One property after the other is looked for in the other instance. -/
theorem compProperties_eq_zero_iff (h1 : inst1.Gives ps) (h2 : inst2.Gives qs) (n i : Nat)
    (hn : i + n = ps.list.length) :
    compProperties others inst1 inst2 n i = some 0 ↔
      ∀ p ∈ ps.list.drop i, ∃ q ∈ qs.list, fold p.name = fold q.name ∧ SeenData p.data q.data := by
  induction n generalizing i with
  | zero =>
    have hnil : ps.list.drop i = [] := List.drop_eq_nil_of_le (by omega)
    simp [compProperties, hnil]
  | succ n ih =>
    have hi : i < ps.list.length := by omega
    have hp := List.getElem_mem hi
    generalize hpe : ps.list[i] = p at hp
    rw [List.drop_eq_getElem_cons hi, hpe, List.forall_mem_cons, ← ih (i + 1) (by omega)]
    rw [compProperties, h1.at_index i p (hpe ▸ List.getElem?_eq_getElem hi), Option.bind_some]
    dsimp only
    rw [h2.by_name _ (ps.ended p hp), Option.bind_some]
    by_cases hq : ∃ q ∈ qs.list, fold p.name = fold q.name
    · obtain ⟨q, hq, hname⟩ := hq
      have honly : (∃ q' ∈ qs.list, fold p.name = fold q'.name ∧ SeenData p.data q'.data) ↔
          SeenData p.data q.data := by
        constructor
        · intro ⟨q', hq', hname', hseen⟩
          have := (found_eq qs.nodup hq' hname').symm.trans (found_eq qs.nodup hq hname)
          rwa [(Prod.mk.inj this).1] at hseen
        · exact fun hseen => ⟨q, hq, hname, hseen⟩
      rw [honly, found_eq qs.nodup hq hname]
      unfold SeenData
      by_cases htype : p.data.type = q.data.type
      · have hcomp := comp_eq_zero_iff others (ps.typed p hp) (htype ▸ qs.typed q hq)
        simp only [htype, ne_eq, not_true_eq_false, or_false, if_false, true_and] at hcomp ⊢
        rw [← hcomp]
        cases sfcbCompCMPIValue others p.data.value q.data.value q.data.type with
        | none => simp
        | some r =>
          by_cases hr : r = 0
          · simp [hr]
          · simp [hr]
      · simp [htype]
    · rw [found_none fun q hmem hname => hq ⟨q, hmem, hname⟩]
      simp only [notFound]
      constructor
      · intro h
        exact absurd h (by simp)
      · intro ⟨⟨q, hmem, hname, _⟩, _⟩
        exact absurd ⟨q, hmem, hname⟩ hq

/-- The comparison finds the same properties that look equal. -/
theorem instanceCompare_eq_zero_iff (h1 : inst1.Gives ps) (h2 : inst2.Gives qs) :
    instanceCompare others (some inst1) (some inst2) = some 0 ↔ Matched SeenData ps qs := by
  have hloop := @compProperties_eq_zero_iff inst1 inst2 ps qs others h1 h2 ps.list.length 0
    (Nat.zero_add _)
  rw [List.drop_zero] at hloop
  have hdef : instanceCompare others (some inst1) (some inst2) =
      if inst1.getPropertyCount ≠ inst2.getPropertyCount then some 1
      else compProperties others inst1 inst2 inst1.getPropertyCount 0 := rfl
  rw [hdef, h1.count, h2.count]
  constructor
  · intro h
    split at h
    · exact absurd h (by simp)
    · next hlen =>
      have hall := hloop.mp h
      -- as many names, none twice: then all of the one are all of the other
      have hsub : ps.list.map (fold ·.name) ⊆ qs.list.map (fold ·.name) := by
        intro k hk
        obtain ⟨p, hp, rfl⟩ := List.mem_map.mp hk
        obtain ⟨q, hq, hname, -⟩ := hall p hp
        exact List.mem_map.mpr ⟨q, hq, hname.symm⟩
      have hperm := (List.subperm_of_subset ps.nodup hsub).perm_of_length_le (by simp; omega)
      refine ⟨fun k => hperm.mem_iff, fun p hp q hq hname => ?_⟩
      obtain ⟨q', hq', hname', hseen⟩ := hall p hp
      have := (found_eq qs.nodup hq' hname').symm.trans (found_eq qs.nodup hq hname)
      rwa [(Prod.mk.inj this).1] at hseen
  · intro h
    have hperm := (List.perm_ext_iff_of_nodup ps.nodup qs.nodup).mpr h.names
    have hlen : ps.list.length = qs.list.length := by simpa using hperm.length_eq
    rw [if_neg (by simpa using hlen)]
    refine hloop.mpr fun p hp => ?_
    obtain ⟨q, hq, hname⟩ := List.mem_map.mp ((h.names _).mp (List.mem_map.mpr ⟨p, hp, rfl⟩))
    exact ⟨q, hq, hname.symm, h.data p hp q hq hname.symm⟩

/-- The instances look the same, and some property is different. -/
def OverlookedInstance (ps qs : Properties) : Prop :=
  Matched SeenData ps qs ∧
    ∃ p ∈ ps.list, ∃ q ∈ qs.list, fold p.name = fold q.name ∧ ¬ SameData p.data q.data

/-- The instances are the same, and some property looks different. -/
def SpuriousInstance (ps qs : Properties) : Prop :=
  Matched SameData ps qs ∧
    ∃ p ∈ ps.list, ∃ q ∈ qs.list, fold p.name = fold q.name ∧ ¬ SeenData p.data q.data

theorem matched_iff (ps qs : Properties) :
    (Matched SeenData ps qs ↔ Matched SameData ps qs) ↔
      ¬ OverlookedInstance ps qs ∧ ¬ SpuriousInstance ps qs := by
  unfold OverlookedInstance SpuriousInstance
  constructor
  · intro h
    refine ⟨fun ⟨hseen, p, hp, q, hq, hname, hnot⟩ => ?_, fun ⟨hsame, p, hp, q, hq, hname, hnot⟩ => ?_⟩
    · exact hnot ((h.mp hseen).data p hp q hq hname)
    · exact hnot ((h.mpr hsame).data p hp q hq hname)
  · intro ⟨hover, hspur⟩
    constructor
    · intro hseen
      refine ⟨hseen.names, fun p hp q hq hname => ?_⟩
      by_contra hnot
      exact hover ⟨hseen, p, hp, q, hq, hname, hnot⟩
    · intro hsame
      refine ⟨hsame.names, fun p hp q hq hname => ?_⟩
      by_contra hnot
      exact hspur ⟨hsame, p, hp, q, hq, hname, hnot⟩

end Instances

/-- The comparison of values says whether they are equal, and the one of instances whether they
have the same properties with equal values, where nothing is overlooked, and nothing looks
different that is not. -/
theorem comparison_iff (others : Others) :
    (∀ type v v', Value.OfType type v → Value.OfType type v' →
      ((sfcbCompCMPIValue others v v' type = some 0 ↔ EqualValues type v v') ↔
        ¬ Overlooked type v v' ∧ ¬ Spurious type v v')) ∧
    ∀ inst1 inst2 ps qs, InstanceFT.Gives inst1 ps → InstanceFT.Gives inst2 qs →
      ((instanceCompare others (some inst1) (some inst2) = some 0 ↔ Matched SameData ps qs) ↔
        ¬ OverlookedInstance ps qs ∧ ¬ SpuriousInstance ps qs) := by
  constructor
  · intro type v v' hv hv'
    rw [comp_eq_zero_iff others hv hv']
    exact seenEqual_iff hv hv'
  · intro inst1 inst2 ps qs h1 h2
    rw [instanceCompare_eq_zero_iff h1 h2]
    exact matched_iff ps qs

/-- Two different numbers of 32 bits. -/
theorem comparison_iff_uint32 :
    sfcbCompCMPIValue (fun _ _ _ => 0) (.word 7) (.word 4294967295) CMPIBase.uint32.simple =
      some 0 ↔ EqualValues CMPIBase.uint32.simple (.word 7) (.word 4294967295) := by
  have htyped : ∀ n, Value.OfType CMPIBase.uint32.simple (.word n) := fun n =>
    ⟨rfl, fun s h => absurd h (by simp), fun _ h => absurd h (by simp [Value.number]),
      fun h => absurd h (by decide)⟩
  refine ((comparison_iff fun _ _ _ => 0).1 _ _ _ (htyped 7) (htyped _)).mpr ⟨?_, ?_⟩
  · rintro ⟨w, m, n, hw, hm, hn, -, hlow, -⟩
    obtain rfl : 32 = w := Option.some.inj hw
    obtain rfl : 7 = m := Option.some.inj hm
    obtain rfl : 4294967295 = n := Option.some.inj hn
    exact absurd hlow (by decide)
  · rintro ⟨w, m, n, hw, hm, hn, hsame, -⟩
    obtain rfl : 32 = w := Option.some.inj hw
    obtain rfl : 7 = m := Option.some.inj hm
    obtain rfl : 4294967295 = n := Option.some.inj hn
    exact absurd hsame (by decide)

/-- The functions of an instance with these properties. -/
def InstanceFT.ofList (list : List Property) : InstanceFT where
  getPropertyCount := list.length
  getPropertyAt i := (list[i]?).map fun p => (p.data, p.name)
  getProperty name := some (found list name)

/-- The arrays `{1, 2}` and `{1, 3}`, the `uint64` values 1 and 2^32+1, and an instance in which
`P` is NULL and one in which it is 0 are found to be equal. -/
theorem not_comparison :
    sfcbCompCMPIValue (fun _ _ _ => 0) (.array ⟨.uint8, [⟨0, .word 1⟩, ⟨0, .word 2⟩]⟩)
        (.array ⟨.uint8, [⟨0, .word 1⟩, ⟨0, .word 3⟩]⟩) CMPIBase.uint8.arrayOf = some 0 ∧
      sfcbCompCMPIValue (fun _ _ _ => 0) (.word 1) (.word 4294967297) CMPIBase.uint64.simple =
        some 0 ∧
      instanceCompare (fun _ _ _ => 0)
          (some (.ofList [⟨lit "P", ⟨CMPIBase.uint32.simple, nullValue, .word 0⟩⟩]))
          (some (.ofList [⟨lit "P", ⟨CMPIBase.uint32.simple, 0, .word 0⟩⟩])) = some 0 := by
  decide

end Sfcb.Object
