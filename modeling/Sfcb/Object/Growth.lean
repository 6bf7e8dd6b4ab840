import Mathlib.Algebra.Ring.Nat
import Sfcb.Object.Texts

/-!
# Growth

How many strings and how many elements of a section an object can take
(`addClStringN`, `ensureClSpace`). Both capacities are doubled when they are reached, and
both are kept in the low fifteen bits of a field whose highest bit says that the memory is
on the heap. Sixteen thousand and something is as far as that goes: then the capacity is
zero, the next doubling asks for nothing, and `realloc` gives the memory back.

The bytes of the strings are counted by an `int`, which is doubled as well.

Mirroring notes:
- `ClSectionArea` has the memory of a section; `ClSection` in the model of the objects has
  the elements only (`append_refines`).
- What new memory holds before it is written is `junk`. `memcpy` of a section that is not
  on the heap copies what is behind it, too.
-/

namespace Sfcb.Object

open Sfcb.Lib Sfcb.Lib.IndexedBuf

/-! ## Strings -/

/-- One `addClString` after the other, with what they return. -/
def addClStrings : ObjectHdr → List CStr → Option (ObjectHdr × List Nat)
  | hdr, [] => some (hdr, [])
  | hdr, s :: strs =>
    match addClString hdr s with
    | none => none
    | some (hdr, id) => (addClStrings hdr strs).map fun r => (r.1, id :: r.2)

/-- The strings get the next ids, one after the other, and all of them can be read, as can
those that were there. -/
def AddsAll (hdr : ObjectHdr) (strs : List CStr) : Prop :=
  ∃ hdr', addClStrings hdr strs =
      some (hdr', List.range' (used hdr.strBuf + 1) strs.length) ∧
    (∀ i s, strs[i]? = some s → getClString hdr' (used hdr.strBuf + 1 + i) = some s) ∧
    ∀ id s, HasText hdr id s → HasText hdr' id s

/-- There is room for a record of `l` bytes. -/
def RoomForNext (b : Option (IndexedBuf UInt8)) (l : Nat) : Prop :=
  match b with
  | none => l < growTo l 256 ∧ growTo l 256 < 2 ^ 31
  | some b => b.Takes b.cells.length l

/-- Each of the records finds room, when those before it are added. -/
def Fits : Option (IndexedBuf UInt8) → List (List UInt8) → Prop
  | _, [] => True
  | b, record :: records =>
    RoomForNext b record.length ∧
      ∀ b' id, IndexedBuf.add 256 b record = some (b', id) → Fits (some b') records

/-- What the string buffer gets for strings. -/
def textRecords (strs : List CStr) : List (List UInt8) := strs.map (· ++ [0])

section Strings

variable {hdr : ObjectHdr} {strs : List CStr}

theorem add_isSome_iff {b : Option (IndexedBuf UInt8)} {record : List UInt8} :
    (IndexedBuf.add 256 b record).isSome = true ↔ RoomForNext b record.length := by
  cases b with
  | none =>
    show ((create 256 record).map _).isSome = true ↔ _
    rw [Option.isSome_map]
    unfold create RoomForNext
    simp only
    split
    · next h => exact ⟨fun _ => h, fun _ => rfl⟩
    · next h => exact ⟨fun hs => absurd hs (by simp), fun hr => absurd hr h⟩
  | some b => exact push_isSome_iff

/-- The first record finds room, and then the others. -/
theorem fits_cons_iff {record : List UInt8} {records : List (List UInt8)} :
    Fits hdr.strBuf (record :: records) ↔
      ∃ hdr' id, addClStringN hdr record = some (hdr', id) ∧ Fits hdr'.strBuf records := by
  show RoomForNext hdr.strBuf record.length ∧ _ ↔ _
  rw [← add_isSome_iff]
  constructor
  · intro ⟨hroom, hfits⟩
    obtain ⟨⟨b', id⟩, hadd⟩ := Option.isSome_iff_exists.mp hroom
    refine ⟨{ hdr with strBuf := some b' }, id, ?_, hfits b' id hadd⟩
    unfold addClStringN
    rw [hadd]
    rfl
  · intro ⟨hdr', id, hadd, hfits⟩
    obtain ⟨⟨b', id'⟩, hadd', heq⟩ := Option.map_eq_some_iff.mp hadd
    obtain ⟨rfl, rfl⟩ := Prod.mk.inj heq
    refine ⟨by rw [hadd']; rfl, fun b₁ id₁ hadd₁ => ?_⟩
    obtain ⟨rfl, -⟩ := Prod.mk.inj (Option.some.inj (hadd₁.symm.trans hadd'))
    exact hfits

/-- What is added gets the next ids and stays. -/
theorem addClStrings_spec (hstrs : ∀ s ∈ strs, 0 ∉ s) {hdr' : ObjectHdr} {ids : List Nat}
    (h : addClStrings hdr strs = some (hdr', ids)) :
    ids = List.range' (used hdr.strBuf + 1) strs.length ∧
      (∀ i s, strs[i]? = some s → HasText hdr' (used hdr.strBuf + 1 + i) s) ∧
      KeepsTexts none hdr hdr' := by
  induction strs generalizing hdr ids with
  | nil =>
    cases h
    exact ⟨rfl, fun i s h => absurd h (by simp), KeepsTexts.refl _⟩
  | cons s strs ih =>
    unfold addClStrings at h
    split at h
    · exact absurd h (by simp)
    next hdr₁ id hadd =>
    obtain ⟨⟨hdr₂, ids₂⟩, hrest, heq⟩ := Option.map_eq_some_iff.mp h
    cases heq
    obtain ⟨hkeeps, -, hid, hused⟩ := addClStringN_spec hadd
    have htext := addClString_hasText hadd (hstrs s List.mem_cons_self)
    obtain ⟨hids, htexts, hkeeps'⟩ := ih (fun t ht => hstrs t (List.mem_cons_of_mem _ ht)) hrest
    rw [hused] at hids htexts
    refine ⟨?_, fun i t ht => ?_, hkeeps.trans hkeeps'⟩
    · rw [hids, List.length_cons, List.range'_succ, hid]
    · cases i with
      | zero =>
        obtain rfl : s = t := by simpa using ht
        rw [Nat.add_zero, ← hid]
        exact hkeeps'.texts id s (by simp) htext
      | succ i =>
        rw [show used hdr.strBuf + 1 + (i + 1) = id + 1 + i by omega]
        exact htexts i t (by simpa using ht)

theorem addClStrings_isSome_iff :
    (addClStrings hdr strs).isSome = true ↔ Fits hdr.strBuf (textRecords strs) := by
  induction strs generalizing hdr with
  | nil => exact ⟨fun _ => trivial, fun _ => rfl⟩
  | cons s strs ih =>
    refine Iff.trans ?_ fits_cons_iff.symm
    unfold addClStrings
    constructor
    · intro h
      split at h
      · exact absurd h (by simp)
      next hdr₁ id hadd =>
      rw [Option.isSome_map] at h
      exact ⟨hdr₁, id, hadd, ih.mp h⟩
    · intro ⟨hdr₁, id, hadd, hfits⟩
      rw [show addClString hdr s = some (hdr₁, id) from hadd]
      simp only [Option.isSome_map]
      exact ih.mpr hfits

/-- All strings are added as they should be if and only if each finds room. -/
theorem addsAll_iff (hstrs : ∀ s ∈ strs, 0 ∉ s) :
    AddsAll hdr strs ↔ Fits hdr.strBuf (textRecords strs) := by
  rw [← addClStrings_isSome_iff]
  constructor
  · intro ⟨hdr', hadds, _⟩
    rw [hadds]
    rfl
  · intro h
    obtain ⟨⟨hdr', ids⟩, hadds⟩ := Option.isSome_iff_exists.mp h
    obtain ⟨rfl, htexts, hkeeps⟩ := addClStrings_spec hstrs hadds
    exact ⟨hdr', hadds, fun i s hs => (htexts i s hs).getClString,
      fun id s hs => hkeeps.texts id s (by simp) hs⟩

/-- The bytes that strings take. -/
def stringBytes (strs : List CStr) : Nat := (strs.map (·.length + 1)).sum

theorem length_records : (textRecords strs).flatten.length = stringBytes strs := by
  unfold textRecords stringBytes
  rw [List.length_flatten, List.map_map]
  congr 1
  exact List.map_congr_left fun s _ => by simp

/-- In a buffer that grew from a new one, records find room while there is an index for them
and the bytes are few enough. -/
theorem fits_iff_roomFor {b : Option (IndexedBuf UInt8)} {old records : List (List UInt8)}
    (h : Contains strLength b old) (hdel : ∀ x ∈ records, Delimited strLength x) :
    Fits b records ↔ RoomFor b records := by
  induction records generalizing b old with
  | nil => exact ⟨fun _ hne => absurd rfl hne, fun _ => trivial⟩
  | cons record records ih =>
    have hfirst := hdel record List.mem_cons_self
    have hrest : ∀ x ∈ records, Delimited strLength x :=
      fun x hx => hdel x (List.mem_cons_of_mem _ hx)
    constructor
    · intro ⟨hroom, hfits⟩
      rw [← add_isSome_iff] at hroom
      obtain ⟨⟨b', id⟩, hadd⟩ := Option.isSome_iff_exists.mp hroom
      have hone : RoomFor b [record] := @add_room _ _ _ _ _ 8 h _ hadd
      obtain ⟨b₁, hadd₁, hcontains, -⟩ := add_contains (show 8 ≤ 30 by decide) h hfirst hone
      obtain ⟨rfl, -⟩ := Prod.mk.inj (Option.some.inj (hadd.symm.trans hadd₁))
      exact roomFor_cons hone hadd ((ih hcontains hrest).mp (hfits b' id hadd))
    · intro hroom
      obtain ⟨b', hadd, hcontains, hmore⟩ := add_contains (show 8 ≤ 30 by decide) h hfirst hroom
      have hadd : IndexedBuf.add 256 b record = some (b', old.length + 1) := hadd
      refine ⟨add_isSome_iff.mp (by rw [hadd]; rfl), fun b₁ id₁ hadd₁ => ?_⟩
      obtain ⟨rfl, -⟩ := Prod.mk.inj (Option.some.inj (hadd₁.symm.trans hadd))
      exact (ih hcontains hrest).mpr hmore

/-- An object that has no strings yet takes `2 ^ 14 + 1` of them, of less than `2 ^ 30`
bytes. -/
theorem fits_none_iff : Fits none (textRecords strs) ↔
    strs.length ≤ 2 ^ 14 + 1 ∧ stringBytes strs < 2 ^ 30 := by
  have hdel : ∀ x ∈ textRecords strs, Delimited strLength x := by
    intro x hx
    obtain ⟨s, -, rfl⟩ := List.mem_map.mp hx
    exact delimited_text s
  rw [fits_iff_roomFor (show Contains strLength none [] from rfl) hdel, roomFor_none_iff,
    length_records, show (textRecords strs).length = strs.length from List.length_map _]

end Strings

/-! ## Sections -/

/-- A `ClSection` with its memory, element by element. -/
structure ClSectionArea (α : Type) where
  cells : List α
  used : Nat
  /-- `GetMax(sct->max)` -/
  max : Nat
  malloced : Bool
  /-- `sectionOffset` is not zero -/
  there : Bool
  deriving DecidableEq, Repr

section Sections

variable {α : Type}

namespace ClSectionArea

/-- `clearClSection`. -/
def clear : ClSectionArea α := ⟨[], 0, 0, false, false⟩

/-- The elements of the section. -/
def elements (s : ClSectionArea α) : List α := s.cells.take s.used

/-- `ensureClSpace`. -/
def ensureClSpace (s : ClSectionArea α) (iSize : Nat) (junk : α) : ClSectionArea α :=
  if s.there = false then
    { s with cells := resize s.cells iSize junk, max := iSize, malloced := true, there := true }
  else if s.used ≥ s.max then
    -- `max` is an `unsigned short`; the memory gets all its bits, `GetMax` leaves out one
    let max := s.max * 2 % 2 ^ 16
    { s with cells := resize s.cells max junk, max := max % 2 ^ 15, malloced := true }
  else s

/-- The new element, and `used++`; `none` if it is written behind the memory. -/
def append (s : ClSectionArea α) (iSize : Nat) (junk item : α) : Option (ClSectionArea α) :=
  let s := s.ensureClSpace iSize junk
  (writeAt s.cells s.used [item]).map fun cells =>
    { s with cells, used := (s.used + 1) % 2 ^ 16 }

/-- One element after the other. -/
def appendAll (iSize : Nat) (junk : α) : ClSectionArea α → List α → Option (ClSectionArea α)
  | s, [] => some s
  | s, item :: items => (s.append iSize junk item).bind (appendAll iSize junk · items)

/-- What a section always is: it has memory for its elements and for as many as it says. -/
structure Ok (s : ClSectionArea α) : Prop where
  used : s.used ≤ s.cells.length
  max : s.there = true → s.max ≤ s.cells.length
  bits : s.max < 2 ^ 15
  empty : s.there = false → s.used = 0

theorem clear_ok : (clear : ClSectionArea α).Ok :=
  ⟨Nat.le_refl _, fun h => absurd h (by simp [clear]), Nat.two_pow_pos 15, fun _ => rfl⟩

/-- Appending keeps all elements. -/
def AppendsAll (iSize : Nat) (junk : α) (s : ClSectionArea α) (items : List α) : Prop :=
  ∃ s', appendAll iSize junk s items = some s' ∧ s'.elements = s.elements ++ items

end ClSectionArea

/-- The capacity `ensureClSpace` leaves. -/
def capacityAfter (iSize : Nat) (there : Bool) (used max : Nat) : Nat :=
  if there = false then iSize else if used ≥ max then max * 2 % 2 ^ 15 else max

/-- `n` more elements find room, one after the other. -/
def SectionFits (iSize : Nat) : (there : Bool) → (used max n : Nat) → Prop
  | _, _, _, 0 => True
  | there, used, max, n + 1 =>
    (there = true → used < max * 2) ∧
      SectionFits iSize true (used + 1) (capacityAfter iSize there used max) n

namespace ClSectionArea

variable {s : ClSectionArea α} {iSize : Nat} {junk item : α}

theorem ensureClSpace_used : (s.ensureClSpace iSize junk).used = s.used := by
  unfold ensureClSpace
  split
  · rfl
  · split <;> rfl

theorem ensureClSpace_there : (s.ensureClSpace iSize junk).there = true := by
  unfold ensureClSpace
  split
  · rfl
  · next h => split <;> simpa using h

theorem ensureClSpace_max (h : s.Ok) :
    (s.ensureClSpace iSize junk).max = capacityAfter iSize s.there s.used s.max := by
  have hbits := h.bits
  unfold ensureClSpace capacityAfter
  split
  · rfl
  · split
    · show s.max * 2 % 2 ^ 16 % 2 ^ 15 = _
      omega
    · rfl

/-- The memory there is afterwards. -/
theorem ensureClSpace_length (h : s.Ok) : (s.ensureClSpace iSize junk).cells.length =
    if s.there = false then iSize else if s.used ≥ s.max then s.max * 2 else s.cells.length := by
  have hbits := h.bits
  unfold ensureClSpace
  split
  · exact length_resize ..
  · split
    · show (resize s.cells (s.max * 2 % 2 ^ 16) junk).length = _
      rw [length_resize]
      omega
    · rfl

/-- The elements are kept where they fit into the new memory. -/
theorem ensureClSpace_elements (h : s.Ok) (hroom : s.there = true → s.used < s.max * 2) :
    (s.ensureClSpace iSize junk).elements = s.elements := by
  have hbits := h.bits
  unfold elements
  rw [ensureClSpace_used]
  unfold ensureClSpace
  split
  · next hthere => rw [h.empty hthere, List.take_zero, List.take_zero]
  · next hthere =>
    have hlt := hroom (by simpa using hthere)
    split
    · show (resize s.cells (s.max * 2 % 2 ^ 16) junk).take s.used = _
      exact take_resize junk h.used (by omega)
    · rfl

/-- There is room for one more. -/
theorem room_iff (h : s.Ok) (hsize : 0 < iSize) :
    s.used < (s.ensureClSpace iSize junk).cells.length ↔
      (s.there = true → s.used < s.max * 2) := by
  rw [ensureClSpace_length h]
  cases hthere : s.there with
  | false =>
    have hempty := h.empty hthere
    simp [hempty, hsize]
  | true =>
    have hmax := h.max hthere
    simp only [reduceCtorEq, if_false, forall_const]
    split <;> omega

/-- What appending one element does. -/
theorem append_spec (h : s.Ok) (hsize : 0 < iSize) (hbits : iSize < 2 ^ 15)
    (hroom : s.there = true → s.used < s.max * 2) :
    ∃ s', s.append iSize junk item = some s' ∧ s'.Ok ∧ s'.there = true ∧
      s'.used = s.used + 1 ∧ s'.max = capacityAfter iSize s.there s.used s.max ∧
      s'.elements = s.elements ++ [item] := by
  have hlt := (@room_iff _ s iSize junk h hsize).mpr hroom
  have hmax := @ensureClSpace_max _ s iSize junk h
  have hlength := @ensureClSpace_length _ s iSize junk h
  have helements := @ensureClSpace_elements _ s iSize junk h hroom
  have hused := @ensureClSpace_used _ s iSize junk
  have hthere := @ensureClSpace_there _ s iSize junk
  -- `used` does not wrap
  have hsmall : s.used + 1 < 2 ^ 16 := by
    have := h.bits
    cases hold : s.there with
    | false =>
      rw [h.empty hold]
      decide
    | true =>
      have := hroom hold
      omega
  have hcap : s.max < 2 ^ 15 → capacityAfter iSize s.there s.used s.max ≤
      (s.ensureClSpace iSize junk).cells.length ∧
      capacityAfter iSize s.there s.used s.max < 2 ^ 15 := by
    intro hs
    rw [hlength]
    unfold capacityAfter
    cases hold : s.there with
    | false => exact ⟨Nat.le_refl _, hbits⟩
    | true =>
      have := h.max hold
      simp only [reduceCtorEq, if_false]
      split <;> omega
  obtain ⟨hle, hlow⟩ := hcap h.bits
  unfold append
  generalize s.ensureClSpace iSize junk = s₁ at *
  obtain ⟨cells, hwrite, hcells, htake⟩ := writeAt_spec s₁.cells s₁.used [item]
    (by rw [List.length_singleton]; omega)
  rw [List.length_singleton] at htake
  have hwrap : (s₁.used + 1) % 2 ^ 16 = s.used + 1 := by
    rw [hused]
    omega
  refine ⟨{ s₁ with cells, used := (s₁.used + 1) % 2 ^ 16 }, ?_, ⟨?_, fun _ => ?_, ?_, ?_⟩, hthere,
    hwrap, hmax, ?_⟩
  · simp only [hwrite, Option.map_some]
  · show (s₁.used + 1) % 2 ^ 16 ≤ cells.length
    omega
  · show s₁.max ≤ cells.length
    omega
  · show s₁.max < 2 ^ 15
    omega
  · intro hnot
    rw [show s₁.there = false from hnot] at hthere
    exact absurd hthere (by simp)
  · show cells.take ((s₁.used + 1) % 2 ^ 16) = s.elements ++ [item]
    rw [hwrap, ← hused, htake, ← helements]
    rfl

/-- Appending one element needs room. -/
theorem append_isSome (h : s.Ok) (hsize : 0 < iSize) {s' : ClSectionArea α}
    (happend : s.append iSize junk item = some s') : s.there = true → s.used < s.max * 2 := by
  refine (@room_iff _ s iSize junk h hsize).mp ?_
  unfold append at happend
  obtain ⟨cells, hwrite, -⟩ := Option.map_eq_some_iff.mp happend
  unfold writeAt at hwrite
  split at hwrite
  · next hle =>
    rw [ensureClSpace_used, List.length_singleton] at hle
    omega
  · exact absurd hwrite (by simp)

/-- All elements are kept if and only if each finds room. -/
theorem appendsAll_iff (h : s.Ok) (hsize : 0 < iSize) (hbits : iSize < 2 ^ 15) {items : List α} :
    AppendsAll iSize junk s items ↔ SectionFits iSize s.there s.used s.max items.length := by
  induction items generalizing s with
  | nil => exact ⟨fun _ => trivial, fun _ => ⟨s, rfl, (List.append_nil _).symm⟩⟩
  | cons item items ih =>
    constructor
    · intro ⟨s', hall, helements⟩
      obtain ⟨s₁, happend, hrest⟩ := Option.bind_eq_some_iff.mp hall
      have hroom := append_isSome h hsize happend
      obtain ⟨s₂, happend₂, hok, hthere, hused, hmax, helements₂⟩ :=
        @append_spec _ s iSize junk item h hsize hbits hroom
      obtain rfl := Option.some.inj (happend.symm.trans happend₂)
      refine ⟨hroom, ?_⟩
      rw [← hthere, ← hused, ← hmax]
      refine (ih hok).mp ⟨s', hrest, ?_⟩
      rw [helements, helements₂, List.append_assoc]
      rfl
    · intro ⟨hroom, hfits⟩
      obtain ⟨s₁, happend, hok, hthere, hused, hmax, helements₁⟩ :=
        @append_spec _ s iSize junk item h hsize hbits hroom
      rw [← hthere, ← hused, ← hmax] at hfits
      obtain ⟨s', hrest, helements⟩ := (ih hok).mpr hfits
      refine ⟨s', Option.bind_eq_some_iff.mpr ⟨s₁, happend, hrest⟩, ?_⟩
      rw [helements, helements₁, List.append_assoc]
      rfl

end ClSectionArea

/-- A capacity that is a power of two is doubled up to `2 ^ 15`, which is nothing. -/
theorem sectionFits_pow {iSize used j n : Nat} (hj : j ≤ 14) (hused : used ≤ 2 ^ j) :
    SectionFits iSize true used (2 ^ j) n ↔ used + n ≤ 2 ^ 14 + 1 := by
  have hpow : 2 ^ j ≤ 2 ^ 14 := Nat.pow_le_pow_right (by decide) hj
  have hpos := Nat.two_pow_pos j
  induction n generalizing used j with
  | zero => exact ⟨fun _ => by omega, fun _ => trivial⟩
  | succ n ih =>
    unfold SectionFits capacityAfter
    simp only [reduceCtorEq, if_false, forall_const]
    split
    · next hfull =>
      by_cases hlast : j = 14
      · -- the capacity is gone: one more element, and no other
        subst hlast
        rw [show 2 ^ 14 * 2 % 2 ^ 15 = 0 by decide]
        cases n with
        | zero => exact ⟨fun _ => by omega, fun _ => ⟨by omega, trivial⟩⟩
        | succ n =>
          unfold SectionFits
          exact ⟨fun h => absurd (h.2.1 rfl) (by omega), fun h => by omega⟩
      · have hnext : 2 ^ (j + 1) ≤ 2 ^ 14 := Nat.pow_le_pow_right (by decide) (by omega)
        have hdouble : 2 ^ (j + 1) = 2 ^ j * 2 := Nat.pow_succ ..
        have hrest := @ih (used + 1) (j + 1) (by omega) (by omega) hnext (by omega)
        rw [Nat.mod_eq_of_lt (by omega), ← hdouble]
        refine (and_congr_right fun _ => hrest).trans ?_
        omega
    · have hrest := @ih (used + 1) j hj (by omega) hpow hpos
      refine (and_congr_right fun _ => hrest).trans ?_
      omega

/-- A new section takes `2 ^ 14 + 1` elements. -/
theorem sectionFits_new {k n : Nat} (hk : k ≤ 14) :
    SectionFits (2 ^ k) false 0 0 n ↔ n ≤ 2 ^ 14 + 1 := by
  cases n with
  | zero => exact ⟨fun _ => by omega, fun _ => trivial⟩
  | succ n =>
    have hpos := Nat.two_pow_pos k
    unfold SectionFits capacityAfter
    rw [if_pos rfl, sectionFits_pow hk (by omega)]
    exact ⟨fun h => by omega, fun h => ⟨fun hf => absurd hf (by simp), by omega⟩⟩

/-- So much can be appended to it. -/
theorem appendsAll_clear_iff {k : Nat} (hk : k ≤ 14) {junk : α} {items : List α} :
    ClSectionArea.AppendsAll (2 ^ k) junk .clear items ↔ items.length ≤ 2 ^ 14 + 1 :=
  (ClSectionArea.appendsAll_iff ClSectionArea.clear_ok (Nat.two_pow_pos k)
    (Nat.pow_lt_pow_right (by decide) (by omega))).trans (sectionFits_new hk)

/-! ## The two models of a section -/

/-- The section that has these elements; its capacity grew from a power of two. -/
structure SectionRefines (s : ClSection α) (a : ClSectionArea α) : Prop where
  ok : a.Ok
  items : s.items = a.elements
  length : s.items.length = a.used
  max : s.max = a.max
  there : s.there = a.there
  capacity : a.there = true → a.max = 0 ∧ 2 ^ 14 < a.used ∨ ∃ j ≤ 14, a.max = 2 ^ j ∧ a.used ≤ 2 ^ j

theorem clear_refines : SectionRefines (ClSection.clear : ClSection α) ClSectionArea.clear :=
  ⟨ClSectionArea.clear_ok, rfl, rfl, rfl, rfl, fun h => absurd h (by simp [ClSectionArea.clear])⟩

/-- Appending to the elements is what appending to the memory is. -/
theorem append_refines {s : ClSection α} {a : ClSectionArea α} (h : SectionRefines s a) {k : Nat}
    (hk : k ≤ 14) (junk item : α) :
    (s.push (2 ^ k) item = none ∧ a.append (2 ^ k) junk item = none) ∨
      ∃ s' a', s.push (2 ^ k) item = some s' ∧ a.append (2 ^ k) junk item = some a' ∧
        SectionRefines s' a' := by
  have hpos := Nat.two_pow_pos k
  have hlow : 2 ^ k < 2 ^ 15 := Nat.pow_lt_pow_right (by decide) (by omega)
  have hroom : (a.there = true → a.used < a.max * 2) → ∃ a', a.append (2 ^ k) junk item = some a' ∧
      a'.Ok ∧ a'.there = true ∧ a'.used = a.used + 1 ∧
      a'.max = capacityAfter (2 ^ k) a.there a.used a.max ∧ a'.elements = a.elements ++ [item] :=
    ClSectionArea.append_spec h.ok hpos hlow
  have hitems : (s.items ++ [item]).length = a.used + 1 := by
    rw [List.length_append, List.length_singleton, h.length]
  unfold ClSection.push
  rw [h.there, h.length, h.max, h.items]
  cases hthere : a.there with
  | false =>
    obtain ⟨a', happend, hok, hthere', hused, hmax, helements⟩ :=
      hroom fun hf => absurd (hthere.symm.trans hf) (by simp)
    rw [hthere] at hmax
    refine Or.inr ⟨_, a', if_pos rfl, happend, hok, helements.symm, ?_, hmax.symm, hthere'.symm, ?_⟩
    · rw [hused, ← hitems, h.items]
    · intro _
      rw [h.ok.empty hthere] at hused
      exact Or.inr ⟨k, hk, hmax, by omega⟩
  | true =>
    rw [if_neg (by simp)]
    obtain ⟨hzero, hmany⟩ | ⟨j, hj, hmax, hle⟩ := h.capacity hthere
    · -- the capacity wrapped: neither finds room
      refine Or.inl ⟨?_, ?_⟩
      · rw [if_pos (by omega), if_pos hzero]
      · cases happend : a.append (2 ^ k) junk item with
        | none => rfl
        | some a' =>
          have := ClSectionArea.append_isSome h.ok hpos happend hthere
          omega
    · have hcap := Nat.two_pow_pos j
      have hpow : 2 ^ j ≤ 2 ^ 14 := Nat.pow_le_pow_right (by decide) hj
      obtain ⟨a', happend, hok, hthere', hused, hmax', helements⟩ := hroom fun _ => by omega
      rw [hthere] at hmax'
      unfold capacityAfter at hmax'
      rw [if_neg (by simp)] at hmax'
      by_cases hfull : a.used ≥ a.max
      · rw [if_pos hfull, if_neg (by omega)]
        rw [if_pos hfull] at hmax'
        refine Or.inr ⟨_, a', rfl, happend, hok, helements.symm, ?_, hmax'.symm, hthere'.symm, ?_⟩
        · rw [hused, ← hitems, h.items]
        · intro _
          rw [hmax, ← Nat.pow_succ] at hmax'
          by_cases hlast : j = 14
          · subst hlast
            exact Or.inl ⟨by omega, by omega⟩
          · have hnext : 2 ^ (j + 1) ≤ 2 ^ 14 := Nat.pow_le_pow_right (by decide) (by omega)
            rw [Nat.mod_eq_of_lt (by omega)] at hmax'
            exact Or.inr ⟨j + 1, by omega, hmax', by omega⟩
      · rw [if_neg hfull]
        rw [if_neg hfull] at hmax'
        refine Or.inr ⟨_, a', rfl, happend, hok, helements.symm, ?_, ?_, hthere'.symm, ?_⟩
        · rw [hused, ← hitems, h.items]
        · exact hmax'.symm
        · intro _
          exact Or.inr ⟨j, hj, hmax'.trans hmax, by omega⟩

end Sections

/-! ## Growth -/

/-- How far strings and sections grow, from nothing and from any state. Sections begin with
four elements or with eight. -/
theorem growth_iff (type : HdrType) (hdr : ObjectHdr) {strs : List CStr}
    (hstrs : ∀ s ∈ strs, 0 ∉ s) {α : Type} {iSize : Nat} (hsize : iSize = 4 ∨ iSize = 8) (junk : α)
    {s : ClSectionArea α} (hok : s.Ok) (items : List α) :
    (AddsAll (.new type) strs ↔ strs.length ≤ 2 ^ 14 + 1 ∧ stringBytes strs < 2 ^ 30) ∧
    (AddsAll hdr strs ↔ Fits hdr.strBuf (textRecords strs)) ∧
    (ClSectionArea.AppendsAll iSize junk .clear items ↔ items.length ≤ 2 ^ 14 + 1) ∧
    (s.AppendsAll iSize junk items ↔ SectionFits iSize s.there s.used s.max items.length) := by
  have hstart : (∃ k ≤ 14, iSize = 2 ^ k) ∧ 0 < iSize ∧ iSize < 2 ^ 15 := by
    rcases hsize with rfl | rfl
    · exact ⟨⟨2, by decide, rfl⟩, by decide, by decide⟩
    · exact ⟨⟨3, by decide, rfl⟩, by decide, by decide⟩
  obtain ⟨⟨k, hk, hpow⟩, hpos, hlow⟩ := hstart
  refine ⟨(addsAll_iff hstrs).trans fits_none_iff, addsAll_iff hstrs, ?_,
    ClSectionArea.appendsAll_iff hok hpos hlow⟩
  rw [hpow]
  exact appendsAll_clear_iff hk

/-- The buffers and the section grow several times. -/
theorem growth_iff_one : AddsAll (.new .inst) (List.replicate 1000 (lit "CIM_Job")) ∧
    ClSectionArea.AppendsAll 8 0 .clear (List.range 1000) := by
  have h := @growth_iff .inst (.new .inst) (List.replicate 1000 (lit "CIM_Job"))
    (fun s hs => by rw [(List.mem_replicate.mp hs).2]; decide) Nat 8 (Or.inr rfl) 0 .clear
    ClSectionArea.clear_ok (List.range 1000)
  refine ⟨h.1.mpr ⟨?_, ?_⟩, h.2.2.1.mpr ?_⟩
  · rw [List.length_replicate]
    decide
  · unfold stringBytes
    rw [List.map_replicate, List.sum_replicate_nat]
    decide
  · rw [List.length_range]
    decide

/-- The string after the last one there is room for is lost, and so is the element. -/
theorem not_growth : ¬ AddsAll (.new .inst) (List.replicate (2 ^ 14 + 2) []) ∧
    ¬ ClSectionArea.AppendsAll 8 0 .clear (List.replicate (2 ^ 14 + 2) 7) := by
  refine ⟨fun h => ?_, fun h => ?_⟩
  · have hfits := (addsAll_iff fun s hs => by rw [(List.mem_replicate.mp hs).2]; simp).mp h
    have hcount := (fits_none_iff.mp hfits).1
    rw [List.length_replicate] at hcount
    omega
  · have hcount := (@appendsAll_clear_iff Nat 3 (by decide) 0 _).mp h
    rw [List.length_replicate] at hcount
    omega

end Sfcb.Object
