import Sfcb.Object.Packed
import Sfcb.Object.Rebuild

/-!
# What is copied can be read

Copying a section writes as many bytes as its size says, block behind block, and whoever
holds the blocks reads the section from them (`Copies`). This is shown once for the loop
over the items and once for a section, for whatever copies the inside of an item; the
qualifiers, properties, parameters and methods follow one from the other.

A section that was read has the items it had, and a capacity that is just theirs
(`packSection` in `Packed.lean`).
-/

namespace Sfcb.Object

open Sfcb.Lib Sfcb.Lib.Blocks

/-! ## Alignment -/

theorem le_align (x : Nat) {y : Nat} (hy : 0 < y) : x ≤ align x y := by
  unfold align
  split
  · omega
  · have h := Nat.lt_div_mul_add hy (a := x - 1)
    rw [Nat.add_mul]
    omega

theorem align_of_dvd {x y : Nat} (hy : 0 < y) (h : y ∣ x) : align x y = x := by
  obtain ⟨k, rfl⟩ := h
  unfold align
  split
  · omega
  · next hne =>
    have hk : 0 < k := Nat.pos_of_ne_zero (by rintro rfl; simp at hne)
    have hdiv : (y * k - 1) / y = k - 1 := by
      rw [Nat.div_eq_iff hy]
      obtain ⟨j, rfl⟩ : ∃ j, k = j + 1 := ⟨k - 1, by omega⟩
      have : y * (j + 1) = y * j + y := Nat.mul_succ y j
      have : (j + 1 - 1) * y = y * j := by rw [Nat.add_sub_cancel, Nat.mul_comm]
      omega
    rw [hdiv, Nat.sub_add_cancel hk, Nat.mul_comm]

theorem dvd_align (x y : Nat) : y ∣ align x y := by
  unfold align
  split
  · exact Nat.dvd_zero y
  · exact Nat.dvd_mul_left y _

theorem clAlign_pos : 0 < clAlign := by decide

/-! ## Blocks that are held -/

/-- The blocks are in the area. -/
def Area.Holds (a : Area) (writes : List (Nat × Block)) : Prop :=
  ∀ x ∈ writes, a.load x.1 = some x.2

theorem Area.Holds.left {a : Area} {xs ys : List (Nat × Block)} (h : a.Holds (xs ++ ys)) :
    a.Holds xs := fun x hx => h x (List.mem_append_left ys hx)

theorem Area.Holds.right {a : Area} {xs ys : List (Nat × Block)} (h : a.Holds (xs ++ ys)) :
    a.Holds ys := fun x hx => h x (List.mem_append_right xs hx)

theorem Area.Holds.head {a : Area} {x : Nat × Block} {xs : List (Nat × Block)}
    (h : a.Holds (x :: xs)) : a.load x.1 = some x.2 := h x List.mem_cons_self

theorem Area.Holds.tail {a : Area} {x : Nat × Block} {xs : List (Nat × Block)}
    (h : a.Holds (x :: xs)) : a.Holds xs := fun y hy => h y (List.mem_cons_of_mem x hy)

/-- Relocating an object leaves the block as it is. -/
def Block.Plain (b : Block) : Prop :=
  ∀ base, b.relocateStrings base = b ∧ b.relocateArrays base = b

/-- Copying took `length` bytes from `ofs` on, and `value` can be read from them. -/
structure Copies {τ α : Type} (r : Copied τ) (ofs length : Nat) (read : Area → τ → Option α)
    (value : α) : Prop where
  length_eq : r.length = length
  packed : Packed Block.size ofs (ofs + length) r.writes
  plain : ∀ x ∈ r.writes, x.2.Plain
  reads : ∀ a : Area, a.Holds r.writes → read a r.target = some value

/-- What points at the blocks is put into an item. -/
theorem Copies.wrap {τ τ' α α' : Type} {r : Copied τ} {ofs length : Nat}
    {read : Area → τ → Option α} {value : α} (h : Copies r ofs length read value) {target : τ'}
    {read' : Area → τ' → Option α'} {value' : α'}
    (hread : ∀ a, read a r.target = some value → read' a target = some value') :
    Copies ⟨r.writes, target, r.length⟩ ofs length read' value' :=
  ⟨h.length_eq, h.packed, h.plain, fun a ha => hread a (h.reads a ha)⟩

section Generic

variable {α β : Type} {inner : Nat → α → Copied β} {size : α → Nat}
  {read : Area → β → Option α} {pack : α → α}

/-- The loop over the items. -/
theorem copyItems_copies (h : ∀ ofs x, Copies (inner ofs x) ofs (size x) read (pack x))
    (ofs : Nat) (xs : List α) :
    Copies (copyItems inner ofs xs) ofs (xs.map size).sum (fun a => readItems (read a))
      (xs.map pack) := by
  induction xs generalizing ofs with
  | nil =>
    exact ⟨rfl, Nat.le_refl _, fun x hx => absurd hx List.not_mem_nil, fun _ _ => rfl⟩
  | cons x xs ih =>
    have hx := h ofs x
    have hxs := ih (ofs + (inner ofs x).length)
    rw [hx.length_eq] at hxs
    unfold copyItems
    simp only [hx.length_eq]
    refine ⟨?_, ?_, ?_, ?_⟩
    · rw [hxs.length_eq, List.map_cons, List.sum_cons]
    · rw [List.map_cons, List.sum_cons, ← Nat.add_assoc]
      exact hx.packed.append hxs.packed
    · intro y hy
      rcases List.mem_append.mp hy with hy | hy
      · exact hx.plain y hy
      · exact hxs.plain y hy
    · intro a ha
      have hrest : readItems (read a) _ = some (xs.map pack) := hxs.reads a ha.right
      rw [readItems, hx.reads a ha.left, Option.bind_some, hrest]
      rfl

/-- Every item is copied. -/
theorem length_copyItems (inner : Nat → α → Copied β) (ofs : Nat) (xs : List α) :
    (copyItems inner ofs xs).target.length = xs.length := by
  induction xs generalizing ofs with
  | nil => rfl
  | cons x xs ih => exact congrArg (· + 1) (ih _)

/-- A section of items. -/
theorem copySection_copies {n : Nat} (hn : 0 < n) {block : List β → Block}
    {items : Block → Option (List β)} (hsize : ∀ xs, (block xs).size = xs.length * n)
    (hplain : ∀ xs, (block xs).Plain) (hitems : ∀ xs, items (block xs) = some xs)
    (h : ∀ ofs x, Copies (inner ofs x) ofs (size x) read (pack x)) (ofs : Nat)
    (fs : ClSection α) :
    Copies (copySection n block inner ofs fs) ofs (sizeSection n size fs)
      (fun a => readSection items (read a) a) (packSection pack fs) := by
  unfold copySection sizeSection packSection
  by_cases hempty : fs.items.length = 0
  · -- no block at all, and nothing to point at
    have hl : fs.items.length * n = 0 := by rw [hempty, Nat.zero_mul]
    have hsum : fs.items.length * n + (fs.items.map size).sum = 0 := by
      rw [hl, List.length_eq_zero_iff.mp hempty]
      rfl
    simp only [if_pos hl, if_pos hempty, hsum]
    exact ⟨rfl, Nat.le_refl _, fun x hx => absurd hx List.not_mem_nil, fun a _ => if_pos hempty⟩
  · have hl : fs.items.length * n ≠ 0 := Nat.mul_ne_zero hempty (by omega)
    have hcopies := copyItems_copies h (ofs + fs.items.length * n) fs.items
    have hall := length_copyItems inner (ofs + fs.items.length * n) fs.items
    simp only [if_neg hl, if_neg hempty]
    refine ⟨?_, ?_, ?_, ?_⟩
    · rw [hcopies.length_eq]
    · refine ⟨Nat.le_refl _, ?_, ?_⟩
      · rw [hsize, hall]
        omega
      · rw [hsize, hall]
        refine hcopies.packed.mono (Nat.le_refl _) ?_
        have := le_align (fs.items.length * n + (fs.items.map size).sum) clAlign_pos
        omega
    · intro x hx
      rcases List.mem_cons.mp hx with rfl | hx
      · exact hplain _
      · exact hcopies.plain x hx
    · intro a ha
      have hblock := ha.head
      have hread : readItems (read a) _ = some (fs.items.map pack) := hcopies.reads a ha.tail
      simp only at hblock
      unfold readSection
      rw [if_neg hempty]
      simp only [hblock, Option.bind_some, hitems, hall, if_true, hread, Option.map_some]

/-- An inner section. -/
theorem copyUsed_copies {copy : Nat → ClSection α → Copied FlatSection}
    {sizeOf : ClSection α → Nat} {items : Block → Option (List β)}
    (h : ∀ ofs s, Copies (copy ofs s) ofs (sizeOf s) (fun a => readSection items (read a) a)
      (packSection pack s)) (ofs : Nat) (s : ClSection α) :
    Copies (copyUsed copy ofs s) ofs (sizeUsed sizeOf s)
      (fun a => readSection items (read a) a) (packSection pack s) := by
  unfold copyUsed sizeUsed
  split
  · next hempty =>
    unfold packSection
    rw [if_pos hempty]
    exact ⟨rfl, Nat.le_refl _, fun x hx => absurd hx List.not_mem_nil, fun a _ => if_pos hempty⟩
  · exact h ofs s

end Generic

/-! ## The sections of an object -/

theorem copyQualifiers_copies (ofs : Nat) (s : ClSection ClQualifier) :
    Copies (copyQualifiers ofs s) ofs (sizeQualifiers s) readQualifiers (packQualifiers s) := by
  have hsize : sizeQualifiers s = sizeSection sizeofClQualifier (fun _ => 0) s := by
    simp [sizeQualifiers, sizeSection]
  have hinner : ∀ (ofs : Nat) (q : ClQualifier),
      Copies ⟨[], q, 0⟩ ofs 0 (fun _ => some) q := fun _ _ =>
    ⟨rfl, Nat.le_refl _, fun x hx => absurd hx List.not_mem_nil, fun _ _ => rfl⟩
  rw [hsize]
  exact copySection_copies (by decide) (fun _ => rfl) (fun _ _ => ⟨rfl, rfl⟩) (fun _ => rfl)
    hinner ofs s

/-- The qualifiers inside of an item. -/
theorem copyUsedQualifiers_copies (ofs : Nat) (s : ClSection ClQualifier) :
    Copies (copyUsed copyQualifiers ofs s) ofs (sizeUsed sizeQualifiers s) readQualifiers
      (packQualifiers s) := by
  have h : ∀ ofs s, Copies (copyQualifiers ofs s) ofs (sizeQualifiers s)
      (fun a => readSection Block.qualifiers? some a) (packSection (fun q => q) s) :=
    copyQualifiers_copies
  exact copyUsed_copies h ofs s

theorem copyProperty_copies (ofs : Nat) (p : ClProperty) :
    Copies (copyProperty ofs p) ofs (sizeUsed sizeQualifiers p.qualifiers) readProperty
      p.packed :=
  (copyUsedQualifiers_copies ofs p.qualifiers).wrap fun _ h => congrArg (Option.map _) h

theorem copyProperties_copies (ofs : Nat) (s : ClSection ClProperty) :
    Copies (copyProperties ofs s) ofs (sizeProperties s)
      (fun a => readSection Block.properties? (readProperty a) a)
      (packSection ClProperty.packed s) :=
  copySection_copies (by decide) (fun _ => rfl) (fun _ _ => ⟨rfl, rfl⟩) (fun _ => rfl)
    copyProperty_copies ofs s

theorem copyParameter_copies (ofs : Nat) (p : ClParameter) :
    Copies (copyParameter ofs p) ofs (sizeUsed sizeQualifiers p.qualifiers) readParameter
      p.packed :=
  (copyUsedQualifiers_copies ofs p.qualifiers).wrap fun _ h => congrArg (Option.map _) h

theorem copyParameters_copies (ofs : Nat) (s : ClSection ClParameter) :
    Copies (copyParameters ofs s) ofs (sizeParameters s)
      (fun a => readSection Block.parameters? (readParameter a) a)
      (packSection ClParameter.packed s) :=
  copySection_copies (by decide) (fun _ => rfl) (fun _ _ => ⟨rfl, rfl⟩) (fun _ => rfl)
    copyParameter_copies ofs s

theorem copyMethod_copies (ofs : Nat) (m : ClMethod) :
    Copies (copyMethod ofs m) ofs
      (sizeUsed sizeQualifiers m.qualifiers + sizeUsed sizeParameters m.parameters) readMethod
      m.packed := by
  have hq := copyUsedQualifiers_copies ofs m.qualifiers
  have hp := copyUsed_copies copyParameters_copies
    (ofs + (copyUsed copyQualifiers ofs m.qualifiers).length) m.parameters
  unfold copyMethod
  simp only [hq.length_eq] at hp ⊢
  refine ⟨by rw [hp.length_eq], ?_, ?_, ?_⟩
  · rw [← Nat.add_assoc]
    exact hq.packed.append hp.packed
  · intro x hx
    rcases List.mem_append.mp hx with hx | hx
    · exact hq.plain x hx
    · exact hp.plain x hx
  · intro a ha
    have hqualifiers := hq.reads a ha.left
    have hparameters := hp.reads a ha.right
    show (readQualifiers a _).bind _ = _
    rw [hqualifiers]
    exact congrArg (Option.map _) hparameters

theorem copyMethods_copies (ofs : Nat) (s : ClSection ClMethod) :
    Copies (copyMethods ofs s) ofs (sizeMethods s)
      (fun a => readSection Block.methods? (readMethod a) a) (packSection ClMethod.packed s) :=
  copySection_copies (by decide) (fun _ => rfl) (fun _ _ => ⟨rfl, rfl⟩) (fun _ => rfl)
    copyMethod_copies ofs s

end Sfcb.Object
