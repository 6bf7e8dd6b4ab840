import Mathlib.Algebra.BigOperators.Ring.List
import Sfcb.Object.FlatCopy
import Sfcb.Object.PathKeys

/-!
# Objects in one area

An object that was built in any way is rebuilt into an area that is as large as the size
function says: every block lies inside, no two overlap, and when the area was copied to
any address and relocated, everything that can be read of the object is read from there
(`CimObject.Portable`). The one thing in the way is the `int` that has the size:
`build_portable_iff` says that this holds exactly where the object needs less than two
gigabytes.

What is needed is counted from the object (`CimObject.footprint`). A path has no array
among its keys; its array buffer would not be copied.
-/

namespace Sfcb.Object

open Sfcb.Lib Sfcb.Lib.Blocks

/-! ## Buffers -/

section Buffers

variable {α : Type} {base ofs l : Nat} {block : FlatBuf → List α → Block} {b : IndexedBuf α}

/-- The header of a buffer that was copied for an object at `base`. -/
def bufHead (base ofs l : Nat) (b : IndexedBuf α) : FlatBuf :=
  ⟨b.index.length, b.index.length % 2 ^ 15, ofs + l, base + (ofs + l), b.cells.length⟩

theorem bufHead_relocate (base' : Nat) :
    (bufHead base ofs l b).relocate base' = bufHead base' ofs l b := by
  simp [FlatBuf.relocate, bufHead]

/-- Where the blocks of a buffer lie. -/
theorem copyBuf_packed (hsize : (block (bufHead base ofs l b) b.cells).size ≤ l)
    (hpos : 0 < (block (bufHead base ofs l b) b.cells).size) :
    Packed Block.size ofs (ofs + align (l + b.index.length * sizeofIndex) clAlign)
      (copyBuf base ofs l block b).writes := by
  have hle := le_align (l + b.index.length * sizeofIndex) clAlign_pos
  unfold copyBuf
  refine ⟨Nat.le_refl _, hpos, ?_⟩
  show Packed _ (ofs + (block (bufHead base ofs l b) b.cells).size) _ _
  split
  · show _ ≤ _
    omega
  · next hne =>
    refine ⟨by omega, Nat.pos_of_ne_zero hne, ?_⟩
    show ofs + l + b.index.length * sizeofIndex ≤ _
    omega

theorem mem_copyBuf_head :
    (ofs, block (bufHead base ofs l b) b.cells) ∈ (copyBuf base ofs l block b).writes :=
  List.mem_cons_self

theorem mem_copyBuf_index (h : b.index.length ≠ 0) :
    (ofs + l, Block.index b.index) ∈ (copyBuf base ofs l block b).writes := by
  have hne : ¬ b.index.length * sizeofIndex = 0 := Nat.mul_ne_zero h (by decide)
  unfold copyBuf
  simp only [if_neg hne]
  exact List.mem_cons_of_mem _ List.mem_cons_self

/-- A buffer whose header has the address of the area can be read. -/
theorem readBuf_eq {a : Area} (hbase : a.base = base)
    (hindex : b.index.length ≠ 0 → a.load (ofs + l) = some (.index b.index)) :
    readBuf a (bufHead base ofs l b) b.cells = some (packBuf b) := by
  have hread : readIndex a (bufHead base ofs l b) = some b.index := by
    unfold readIndex
    show (if b.index.length = 0 then _ else _) = _
    split
    · next hempty => rw [List.length_eq_zero_iff.mp hempty]
    · next hne =>
      have hderef : a.deref (bufHead base ofs l b).indexPtr = some (.index b.index) := by
        unfold Area.deref
        show (if base + (ofs + l) < a.base then _ else a.load (base + (ofs + l) - a.base)) = _
        rw [hbase, if_neg (by omega), Nat.add_sub_cancel_left]
        exact hindex hne
      rw [hderef]
  unfold readBuf
  rw [hread]
  rfl

end Buffers

/-! ## Relocation -/

/-- What relocating does: buffers get the address of their index, all else stays. -/
structure Relocated (h : FlatHead) (a a' : Area) : Prop where
  base : a'.base = a.base
  packed : ∀ {start stop : Nat}, Packed Block.size start stop a.writes →
    Packed Block.size start stop a'.writes
  plain : ∀ x ∈ a.writes, x.2.Plain → x ∈ a'.writes
  strBuf : ∀ ofs f cells, h.strBuf = .offset ofs → (ofs, .strBuf f cells) ∈ a.writes →
    (ofs, .strBuf (f.relocate a.base) cells) ∈ a'.writes
  arrayBuf : ∀ ofs f cells, h.arrayBuf = .offset ofs → (ofs, .arrayBuf f cells) ∈ a.writes →
    (ofs, .arrayBuf (f.relocate a.base) cells) ∈ a'.writes

theorem size_relocateStrings (base : Nat) (b : Block) : (b.relocateStrings base).size = b.size := by
  cases b <;> rfl

theorem size_relocateArrays (base : Nat) (b : Block) : (b.relocateArrays base).size = b.size := by
  cases b <;> rfl

/-- One of the two buffers. -/
theorem relocateBuf_spec {f : Block → Block} (hsize : ∀ b, (f b).size = b.size) {r : Ref}
    (hr : r ≠ .heap) (a : Area) :
    ∃ a', a.relocateBuf f r = some a' ∧ a'.base = a.base ∧
      (∀ {start stop : Nat}, Packed Block.size start stop a.writes →
        Packed Block.size start stop a'.writes) ∧
      (∀ x ∈ a.writes, f x.2 = x.2 → x ∈ a'.writes) ∧
      ∀ ofs b, r = .offset ofs → (ofs, b) ∈ a.writes → (ofs, f b) ∈ a'.writes := by
  cases r with
  | null =>
    exact ⟨a, rfl, rfl, id, fun _ hx _ => hx, fun _ _ h => by cases h⟩
  | heap => exact absurd rfl hr
  | offset o =>
    refine ⟨_, rfl, rfl, fun h => h.update hsize, fun x hx hfix => mem_update_of_fixed hx hfix, ?_⟩
    intro ofs b hofs hmem
    cases hofs
    exact mem_update_self hmem

theorem relocate_spec {a : Area} {h : FlatHead} (hhead : a.head = some h) (hs : h.strBuf ≠ .heap)
    (ha : h.arrayBuf ≠ .heap) : ∃ a', a.relocate = some a' ∧ Relocated h a a' := by
  obtain ⟨a₁, heq₁, hbase₁, hpacked₁, hfix₁, hset₁⟩ :=
    relocateBuf_spec (size_relocateStrings a.base) hs a
  obtain ⟨a₂, heq₂, hbase₂, hpacked₂, hfix₂, hset₂⟩ :=
    relocateBuf_spec (size_relocateArrays a₁.base) ha a₁
  refine ⟨a₂, ?_, hbase₂.trans hbase₁, fun hp => hpacked₂ (hpacked₁ hp), ?_, ?_, ?_⟩
  · unfold Area.relocate
    rw [hhead]
    show (a.relocateBuf _ h.strBuf).bind _ = _
    rw [heq₁]
    exact heq₂
  · intro x hx hplain
    exact hfix₂ x (hfix₁ x hx (hplain _).1) (hplain _).2
  · intro ofs f cells hofs hmem
    exact hfix₂ _ (hset₁ ofs _ hofs hmem) rfl
  · intro ofs f cells hofs hmem
    have hmem₁ := hset₂ ofs _ hofs (hfix₁ _ hmem rfl)
    rw [hbase₁] at hmem₁
    exact hmem₁

/-- Blocks of a relocated area can be loaded. -/
theorem Relocated.load_eq {h : FlatHead} {a a' : Area} (hrel : Relocated h a a') {stop : Nat}
    (hpacked : Packed Block.size 0 stop a.writes) {ofs : Nat} {b : Block}
    (hmem : (ofs, b) ∈ a'.writes) : a'.load ofs = some b :=
  (hrel.packed hpacked).load_eq hmem

section CopiedBuffers

variable {h : FlatHead} {a a' : Area} {stop base ofs : Nat}

theorem copyStringBuf_packed (base ofs : Nat) (hdr : ObjectHdr) :
    (copyStringBuf base ofs hdr.strBuf).length = sizeStringBuf hdr ∧
      Packed Block.size ofs (ofs + sizeStringBuf hdr) (copyStringBuf base ofs hdr.strBuf).writes := by
  unfold copyStringBuf sizeStringBuf
  cases hdr.strBuf with
  | none => exact ⟨rfl, Nat.le_refl _⟩
  | some b =>
    -- the header is a multiple of four, so it does not matter what is aligned
    have hl : sizeofClStrBuf + align b.cells.length 4 = align (sizeofClStrBuf + b.cells.length) 4 := by
      unfold align sizeofClStrBuf
      rw [if_neg (show ¬ 32 + b.cells.length = 0 by omega)]
      split <;> omega
    dsimp only
    rw [hl]
    exact ⟨rfl, copyBuf_packed (le_align _ (by decide)) (Nat.lt_add_right _ (by decide))⟩

theorem copyArrayBuf_packed (base ofs : Nat) (hdr : ObjectHdr) :
    (copyArrayBuf base ofs hdr.arrayBuf).length = sizeArrayBuf hdr ∧
      Packed Block.size ofs (ofs + sizeArrayBuf hdr) (copyArrayBuf base ofs hdr.arrayBuf).writes := by
  unfold copyArrayBuf sizeArrayBuf
  cases hdr.arrayBuf with
  | none => exact ⟨rfl, Nat.le_refl _⟩
  | some b => exact ⟨rfl, copyBuf_packed (Nat.le_refl _) (Nat.lt_add_right _ (by decide))⟩

/-- The string buffer of a relocated area. -/
theorem readStrBuf_eq (hrel : Relocated h a a') (hpacked : Packed Block.size 0 stop a.writes)
    {b : Option (IndexedBuf UInt8)} (htarget : h.strBuf = (copyStringBuf base ofs b).target)
    (hin : ∀ x ∈ (copyStringBuf base ofs b).writes, x ∈ a.writes) :
    readStrBuf a' h.strBuf = some (b.map packBuf) := by
  cases b with
  | none =>
    rw [htarget]
    rfl
  | some b =>
    have hofs : h.strBuf = .offset ofs := htarget
    have hhead := hrel.strBuf ofs _ _ hofs (hin _ mem_copyBuf_head)
    rw [bufHead_relocate] at hhead
    have hbuf := readBuf_eq hrel.base fun hne => hrel.load_eq hpacked
      (hrel.plain _ (hin _ (mem_copyBuf_index hne)) fun _ => ⟨rfl, rfl⟩)
    rw [hofs, readStrBuf, hrel.load_eq hpacked hhead]
    exact congrArg (Option.map some) hbuf

/-- The array buffer of a relocated area. -/
theorem readArrayBuf_eq (hrel : Relocated h a a') (hpacked : Packed Block.size 0 stop a.writes)
    {b : Option (IndexedBuf Stored)} (htarget : h.arrayBuf = (copyArrayBuf base ofs b).target)
    (hin : ∀ x ∈ (copyArrayBuf base ofs b).writes, x ∈ a.writes) :
    readArrayBuf a' h.arrayBuf = some (b.map packBuf) := by
  cases b with
  | none =>
    rw [htarget]
    rfl
  | some b =>
    have hofs : h.arrayBuf = .offset ofs := htarget
    have hhead := hrel.arrayBuf ofs _ _ hofs (hin _ mem_copyBuf_head)
    rw [bufHead_relocate] at hhead
    have hbuf := readBuf_eq hrel.base fun hne => hrel.load_eq hpacked
      (hrel.plain _ (hin _ (mem_copyBuf_index hne)) fun _ => ⟨rfl, rfl⟩)
    rw [hofs, readArrayBuf, hrel.load_eq hpacked hhead]
    exact congrArg (Option.map some) hbuf

end CopiedBuffers

/-! ## Whole objects -/

def ClObject.packed (o : ClObject) : ClObject :=
  { o with
    hdr := o.hdr.packed
    qualifiers := packQualifiers o.qualifiers
    properties := packSection ClProperty.packed o.properties
    methods := packSection ClMethod.packed o.methods }

/-- The bytes from the start of the object to the end of its last block. -/
def ClObject.extent (o : ClObject) : Nat :=
  o.fixed.sizeof + sizeQualifiers o.qualifiers + sizeProperties o.properties +
    sizeMethods o.methods + sizeStringBuf o.hdr +
    if o.fixed.copiesArrays then sizeArrayBuf o.hdr else 0

/-- Nothing of the object is left out of its area. -/
def ClObject.Whole (o : ClObject) : Prop := o.fixed.copiesArrays = true ∨ o.hdr.arrayBuf = none

theorem copyArrays_spec {o : ClObject} (hwhole : o.Whole) (base ofs : Nat) :
    o.copyArrays base ofs = copyArrayBuf base ofs o.hdr.arrayBuf ∧
      sizeArrayBuf o.hdr = if o.fixed.copiesArrays then sizeArrayBuf o.hdr else 0 := by
  unfold ClObject.copyArrays
  rcases hwhole with hcopies | hnone
  · rw [if_pos hcopies, if_pos hcopies]
    exact ⟨rfl, rfl⟩
  · have hsize : sizeArrayBuf o.hdr = 0 := by
      unfold sizeArrayBuf
      rw [hnone]
    rw [hnone, hsize, ite_self]
    exact ⟨ite_self _, rfl⟩

theorem copyStringBuf_target (base ofs : Nat) (b : Option (IndexedBuf UInt8)) :
    (copyStringBuf base ofs b).target ≠ .heap := by
  cases b <;> exact Ref.noConfusion

theorem copyArrayBuf_target (base ofs : Nat) (b : Option (IndexedBuf Stored)) :
    (copyArrayBuf base ofs b).target ≠ .heap := by
  cases b <;> exact Ref.noConfusion

theorem Fixed.sizeof_pos (fixed : Fixed) : 0 < fixed.sizeof := by
  cases fixed <;> exact Nat.zero_lt_succ _

theorem head_eq {a : Area} {h : FlatHead} (hload : a.load 0 = some (.head h)) :
    a.head = some h := by
  unfold Area.head
  rw [hload]

/-- An object is read part by part. -/
theorem readFlat_eq {a : Area} {h : FlatHead} (hhead : a.head = some h)
    {qualifiers : ClSection ClQualifier} (hq : readQualifiers a h.qualifiers = some qualifiers)
    {properties : ClSection ClProperty}
    (hp : readSection Block.properties? (readProperty a) a h.properties = some properties)
    {methods : ClSection ClMethod}
    (hm : readSection Block.methods? (readMethod a) a h.methods = some methods)
    {strBuf : Option (IndexedBuf UInt8)} (hs : readStrBuf a h.strBuf = some strBuf)
    {arrayBuf : Option (IndexedBuf Stored)} (ha : readArrayBuf a h.arrayBuf = some arrayBuf) :
    readFlat a = some ⟨h.fixed, ⟨h.type, strBuf, arrayBuf, h.containsEmbeddedObject⟩, qualifiers,
      properties, methods⟩ := by
  unfold readFlat
  rw [hhead, Option.bind_eq_bind, Option.bind_some, hq, Option.bind_eq_bind, Option.bind_some, hp,
    Option.bind_eq_bind, Option.bind_some, hm, Option.bind_eq_bind, Option.bind_some, hs,
    Option.bind_eq_bind, Option.bind_some, ha, Option.bind_eq_bind, Option.bind_some]
  rfl

section Rebuilt

variable (o : ClObject) (base : Nat)

def ClObject.ofsProperties : Nat := o.fixed.sizeof + sizeQualifiers o.qualifiers

def ClObject.ofsMethods : Nat := o.ofsProperties + sizeProperties o.properties

def ClObject.ofsStrings : Nat := o.ofsMethods + sizeMethods o.methods

def ClObject.ofsArrays : Nat := o.ofsStrings + sizeStringBuf o.hdr

/-- The blocks behind the fixed part. -/
def ClObject.parts : List (Nat × Block) :=
  (copyQualifiers o.fixed.sizeof o.qualifiers).writes ++
    ((copyProperties o.ofsProperties o.properties).writes ++
      ((copyMethods o.ofsMethods o.methods).writes ++
        ((copyStringBuf base o.ofsStrings o.hdr.strBuf).writes ++
          (copyArrayBuf base o.ofsArrays o.hdr.arrayBuf).writes)))

/-- The fixed part, with the places of all others. -/
def ClObject.flatHead (sz : Nat) : FlatHead where
  fixed := o.fixed
  type := o.hdr.type
  containsEmbeddedObject := o.hdr.containsEmbeddedObject
  size := align sz clAlign
  strBuf := (copyStringBuf base o.ofsStrings o.hdr.strBuf).target
  arrayBuf := (copyArrayBuf base o.ofsArrays o.hdr.arrayBuf).target
  qualifiers := (copyQualifiers o.fixed.sizeof o.qualifiers).target
  properties := (copyProperties o.ofsProperties o.properties).target
  methods := (copyMethods o.ofsMethods o.methods).target

variable {o base}

/-- What is copied takes the place its size says, so the next part starts behind it. -/
theorem rebuildH_eq (hwhole : o.Whole) {sz : Nat} (hsz : sz < 2 ^ 31) :
    rebuildH sz o base = some ⟨base, (0, .head (o.flatHead base sz)) :: o.parts base⟩ := by
  have hq := (copyQualifiers_copies o.fixed.sizeof o.qualifiers).length_eq
  have hp := (copyProperties_copies o.ofsProperties o.properties).length_eq
  have hm := (copyMethods_copies o.ofsMethods o.methods).length_eq
  have hs := (copyStringBuf_packed base o.ofsStrings o.hdr).1
  unfold rebuildH
  rw [if_neg (by omega)]
  simp only [hq, (copyArrays_spec hwhole base _).1]
  rw [show (copyProperties (o.fixed.sizeof + sizeQualifiers o.qualifiers) o.properties).length = _
    from hp]
  rw [show (copyMethods (o.fixed.sizeof + sizeQualifiers o.qualifiers + sizeProperties o.properties)
    o.methods).length = _ from hm]
  rw [show (copyStringBuf base (o.fixed.sizeof + sizeQualifiers o.qualifiers +
    sizeProperties o.properties + sizeMethods o.methods) o.hdr.strBuf).length = _ from hs]
  rfl

/-- The parts lie one behind the other. -/
theorem parts_packed (hwhole : o.Whole) :
    Packed Block.size o.fixed.sizeof o.extent (o.parts base) := by
  have hq := (copyQualifiers_copies o.fixed.sizeof o.qualifiers).packed
  have hp := (copyProperties_copies o.ofsProperties o.properties).packed
  have hm := (copyMethods_copies o.ofsMethods o.methods).packed
  have hs := (copyStringBuf_packed base o.ofsStrings o.hdr).2
  have ha := (copyArrayBuf_packed base o.ofsArrays o.hdr).2
  unfold ClObject.extent
  rw [← (copyArrays_spec hwhole base 0).2]
  exact hq.append (hp.append (hm.append (hs.append ha)))

theorem rebuilt_packed (hwhole : o.Whole) {sz : Nat} (hextent : o.extent ≤ sz) :
    Packed Block.size 0 sz ((0, .head (o.flatHead base sz)) :: o.parts base) :=
  ⟨Nat.le_refl _, o.fixed.sizeof_pos,
    (parts_packed hwhole).mono (Nat.le_of_eq (Nat.zero_add _)) hextent⟩

/-- The object is found again where the area was copied to. -/
theorem rebuilt_reads {sz : Nat} {writes : List (Nat × Block)}
    (hwrites : writes = (0, .head (o.flatHead base sz)) :: o.parts base)
    (hpacked : Packed Block.size 0 sz writes) (base' : Nat) :
    ∃ moved, (Area.mk base' writes).relocate = some moved ∧ readFlat moved = some o.packed := by
  have hmem : (0, Block.head (o.flatHead base sz)) ∈ writes := by
    rw [hwrites]
    exact List.mem_cons_self
  have hparts : ∀ x ∈ o.parts base, x ∈ writes := by
    intro x hx
    rw [hwrites]
    exact List.mem_cons_of_mem _ hx
  have hhead : (Area.mk base' writes).head = some (o.flatHead base sz) :=
    head_eq (hpacked.load_eq hmem)
  obtain ⟨moved, hmoved, hrel⟩ :=
    relocate_spec hhead (copyStringBuf_target base _ _) (copyArrayBuf_target base _ _)
  -- relocating changes the two buffers only, so all other blocks are as they were written
  have hload : ∀ x ∈ writes, x.2.Plain → moved.load x.1 = some x.2 :=
    fun x hx hplain => hrel.load_eq hpacked (hrel.plain x hx hplain)
  have hhead' : moved.head = some (o.flatHead base sz) :=
    head_eq (hload (0, .head _) hmem fun _ => ⟨rfl, rfl⟩)
  have hq := copyQualifiers_copies o.fixed.sizeof o.qualifiers
  have hp := copyProperties_copies o.ofsProperties o.properties
  have hm := copyMethods_copies o.ofsMethods o.methods
  refine ⟨moved, hmoved, readFlat_eq hhead' (hq.reads moved ?_) (hp.reads moved ?_)
    (hm.reads moved ?_) (readStrBuf_eq hrel hpacked rfl ?_) (readArrayBuf_eq hrel hpacked rfl ?_)⟩
  · intro x hx
    exact hload x (hparts x (by simp [ClObject.parts, hx])) (hq.plain x hx)
  · intro x hx
    exact hload x (hparts x (by simp [ClObject.parts, hx])) (hp.plain x hx)
  · intro x hx
    exact hload x (hparts x (by simp [ClObject.parts, hx])) (hm.plain x hx)
  · intro x hx
    exact hparts x (by simp [ClObject.parts, hx])
  · intro x hx
    exact hparts x (by simp [ClObject.parts, hx])

end Rebuilt

/-! ## Sizes, counted -/

/-- Sections of items that are multiples of the alignment need no padding. -/
theorem sizeSection_eq {α : Type} {n : Nat} (hn : clAlign ∣ n) {inner : α → Nat}
    (hinner : ∀ x, clAlign ∣ inner x) (s : ClSection α) :
    sizeSection n inner s = s.items.length * n + (s.items.map inner).sum := by
  refine align_of_dvd clAlign_pos (Nat.dvd_add (Nat.dvd_mul_left_of_dvd hn _) ?_)
  exact List.dvd_sum fun y hy => by
    obtain ⟨x, -, rfl⟩ := List.mem_map.mp hy
    exact hinner x

theorem sizeQualifiers_eq (s : ClSection ClQualifier) :
    sizeQualifiers s = sizeofClQualifier * s.items.length := by
  rw [Nat.mul_comm]
  exact align_of_dvd clAlign_pos (Nat.dvd_mul_left_of_dvd (by decide) _)

theorem sizeUsed_qualifiers (s : ClSection ClQualifier) :
    sizeUsed sizeQualifiers s = sizeofClQualifier * s.items.length := by
  unfold sizeUsed
  split
  · next h => rw [h, Nat.mul_zero]
  · exact sizeQualifiers_eq s

/-- Items with qualifiers. -/
theorem sizeQualified_eq {α : Type} {n : Nat} (hn : clAlign ∣ n)
    (qualifiers : α → ClSection ClQualifier) (s : ClSection α) :
    sizeSection n (fun x => sizeUsed sizeQualifiers (qualifiers x)) s = n * s.items.length +
      sizeofClQualifier * (s.items.map fun x => (qualifiers x).items.length).sum := by
  simp only [sizeUsed_qualifiers]
  rw [sizeSection_eq hn (fun x => Nat.dvd_mul_right_of_dvd (by decide) _), Nat.mul_comm,
    List.sum_map_mul_left]

theorem sizeProperties_eq (s : ClSection ClProperty) :
    sizeProperties s = sizeofClProperty * s.items.length +
      sizeofClQualifier * (s.items.map fun p => p.qualifiers.items.length).sum :=
  sizeQualified_eq (by decide) _ s

theorem sizeParameters_eq (s : ClSection ClParameter) :
    sizeUsed sizeParameters s = sizeofClParameter * s.items.length +
      sizeofClQualifier * (s.items.map fun p => p.qualifiers.items.length).sum := by
  unfold sizeUsed
  split
  · next h => rw [List.length_eq_zero_iff.mp h]; rfl
  · exact sizeQualified_eq (by decide) _ s

/-- The qualifiers of a method and of its parameters. -/
def ClMethod.qualifierCount (m : ClMethod) : Nat :=
  m.qualifiers.items.length + (m.parameters.items.map fun p => p.qualifiers.items.length).sum

theorem sizeMethods_eq (s : ClSection ClMethod) :
    sizeMethods s = sizeofClMethod * s.items.length +
      sizeofClQualifier * (s.items.map ClMethod.qualifierCount).sum +
      sizeofClParameter * (s.items.map fun m => m.parameters.items.length).sum := by
  have hinner : ∀ m : ClMethod,
      sizeUsed sizeQualifiers m.qualifiers + sizeUsed sizeParameters m.parameters =
        sizeofClQualifier * m.qualifierCount + sizeofClParameter * m.parameters.items.length := by
    intro m
    rw [sizeUsed_qualifiers, sizeParameters_eq, ClMethod.qualifierCount, Nat.mul_add]
    omega
  unfold sizeMethods
  simp only [hinner]
  rw [sizeSection_eq (by decide) fun m => Nat.dvd_add (Nat.dvd_mul_right_of_dvd (by decide) _)
    (Nat.dvd_mul_right_of_dvd (by decide) _), List.sum_map_add, List.sum_map_mul_left,
    List.sum_map_mul_left, Nat.mul_comm, Nat.add_assoc]

/-- The qualifiers of an object, its items and their items. -/
def ClObject.qualifierCount (o : ClObject) : Nat :=
  o.qualifiers.items.length + (o.properties.items.map fun p => p.qualifiers.items.length).sum +
    (o.methods.items.map ClMethod.qualifierCount).sum

/-- The parameters of all methods. -/
def ClObject.parameterCount (o : ClObject) : Nat :=
  (o.methods.items.map fun m => m.parameters.items.length).sum

/-- What a buffer takes: its header, its cells and its index, in whole words. -/
def bufBytes {α : Type} (head cell : Nat) : Option (IndexedBuf α) → Nat
  | none => 0
  | some b => (head + (cell * b.cells.length + 3) / 4 * 4 + 4 * b.index.length + 7) / 8 * 8

theorem le_bufBytes {α : Type} (head cell : Nat) (b : IndexedBuf α) :
    cell * b.cells.length ≤ bufBytes head cell (some b) := by
  show _ ≤ (head + (cell * b.cells.length + 3) / 4 * 4 + 4 * b.index.length + 7) / 8 * 8
  omega

/-- The bytes an object needs, counted from what it has. -/
def ClObject.footprint (o : ClObject) : Nat :=
  o.fixed.sizeof + sizeofClQualifier * o.qualifierCount +
    sizeofClProperty * o.properties.items.length + sizeofClMethod * o.methods.items.length +
    sizeofClParameter * o.parameterCount + bufBytes sizeofClStrBuf 1 o.hdr.strBuf +
    bufBytes sizeofClArrayBuf sizeofCMPIData o.hdr.arrayBuf

theorem align_four (x : Nat) : align x 4 = (x + 3) / 4 * 4 := by
  unfold align
  split <;> omega

theorem align_eight (x : Nat) : align x clAlign = (x + 7) / 8 * 8 := by
  unfold align clAlign
  split <;> omega

theorem sizeStringBuf_eq (hdr : ObjectHdr) :
    sizeStringBuf hdr = bufBytes sizeofClStrBuf 1 hdr.strBuf := by
  unfold sizeStringBuf bufBytes
  cases hdr.strBuf with
  | none => rfl
  | some b =>
    simp only [align_four, align_eight, sizeofClStrBuf, sizeofIndex]
    omega

theorem sizeArrayBuf_eq (hdr : ObjectHdr) :
    sizeArrayBuf hdr = bufBytes sizeofClArrayBuf sizeofCMPIData hdr.arrayBuf := by
  unfold sizeArrayBuf bufBytes
  cases hdr.arrayBuf with
  | none => rfl
  | some b =>
    simp only [align_eight, sizeofClArrayBuf, sizeofCMPIData, sizeofIndex]
    omega

/-- The extent of an object is what it needs. -/
theorem extent_eq {o : ClObject} (hwhole : o.Whole) : o.extent = o.footprint := by
  unfold ClObject.extent
  rw [← (copyArrays_spec hwhole 0 0).2, sizeQualifiers_eq, sizeProperties_eq, sizeMethods_eq,
    sizeStringBuf_eq, sizeArrayBuf_eq]
  unfold ClObject.footprint ClObject.qualifierCount ClObject.parameterCount
  rw [Nat.mul_add, Nat.mul_add]
  omega

/-- It is in whole words. -/
theorem dvd_extent (o : ClObject) : clAlign ∣ o.extent := by
  have hfixed : clAlign ∣ o.fixed.sizeof := by
    cases o.fixed <;> simp only [Fixed.sizeof] <;> decide
  have hstrings : clAlign ∣ sizeStringBuf o.hdr := by
    unfold sizeStringBuf
    cases o.hdr.strBuf with
    | none => exact Nat.dvd_zero _
    | some b => exact dvd_align ..
  have harrays : clAlign ∣ sizeArrayBuf o.hdr := by
    unfold sizeArrayBuf
    cases o.hdr.arrayBuf with
    | none => exact Nat.dvd_zero _
    | some b => exact dvd_align ..
  have hif : clAlign ∣ if o.fixed.copiesArrays then sizeArrayBuf o.hdr else 0 := by
    split
    · exact harrays
    · exact Nat.dvd_zero _
  exact Nat.dvd_add (Nat.dvd_add (Nat.dvd_add (Nat.dvd_add (Nat.dvd_add hfixed (dvd_align ..))
    (dvd_align ..)) (dvd_align ..)) hstrings) hif

/-! ## Objects of all kinds -/

def CimObject.object : CimObject → ClObject
  | .cls c => c.object
  | .inst i => i.object
  | .objectPath op => op.object
  | .args arg => arg.object
  | .qualifier q => q.object

/-- `ClSizeClass` and its siblings. -/
def CimObject.size : CimObject → Nat
  | .cls c => sizeClassH c
  | .inst i => sizeInstanceH i
  | .objectPath op => sizeObjectPathH op
  | .args arg => sizeArgsH arg
  | .qualifier q => sizeQualifierDeclarationH q

/-- `ClClassRebuildClass` and its siblings. -/
def CimObject.rebuild : CimObject → Nat → Option Area
  | .cls c => rebuildClassH c
  | .inst i => rebuildInstanceH i
  | .objectPath op => rebuildObjectPathH op
  | .args arg => rebuildArgsH arg
  | .qualifier q => rebuildQualifierH q

theorem CimObject.rebuild_eq (o : CimObject) : o.rebuild = rebuildH o.size o.object := by
  cases o <;> rfl

theorem CimObject.size_eq (o : CimObject) : o.size = o.object.extent := by
  rw [← align_of_dvd clAlign_pos (dvd_extent o.object)]
  cases o <;> rfl

theorem CimObject.ofKind_packed (o : CimObject) : o.object.packed.ofKind = o.packed := by
  cases o <;> rfl

/-- What is promised of the area an object was rebuilt into. -/
structure CimObject.FlatIn (o : CimObject) (area : Area) : Prop where
  /-- no more is written than the size says -/
  bytes : (area.writes.map fun x => x.2.size).sum ≤ o.size
  /-- all of it lies inside -/
  inside : ∀ x ∈ area.writes, x.1 + x.2.size ≤ o.size
  /-- no two sections overlap -/
  apart : area.writes.Pairwise fun x y => Blocks.apart x.1 x.2.size y.1 y.2.size
  /-- at any other address all readings are the same -/
  readable : ∀ base, ∃ moved o', (area.copyTo base).relocate = some moved ∧
    (readFlat moved).map ClObject.ofKind = some o' ∧ o.ReadsAs o'

/-- The object can be rebuilt anywhere, and does what is promised there. -/
def CimObject.Portable (o : CimObject) : Prop :=
  ∀ base, ∃ area, o.rebuild base = some area ∧ o.FlatIn area

/-- The bytes an object needs. -/
def CimObject.footprint (o : CimObject) : Nat := o.object.footprint

theorem CimObject.footprint_lt {o : CimObject} (hwhole : o.object.Whole) {base : Nat} {area : Area}
    (h : o.rebuild base = some area) : o.footprint < 2 ^ 31 := by
  have hsize : o.size = o.footprint := o.size_eq.trans (extent_eq hwhole)
  rw [o.rebuild_eq, rebuildH] at h
  by_contra hlarge
  rw [if_pos (by omega)] at h
  exact absurd h (by simp)

/-- Only a size that is no `int` keeps an object from being rebuilt, and only a pointer in it
from being the same elsewhere. -/
theorem CimObject.portable_iff {o : CimObject} (hwhole : o.object.Whole) :
    o.Portable ↔ o.footprint < 2 ^ 31 ∧ o.SelfContained := by
  have hsize : o.size = o.footprint := o.size_eq.trans (extent_eq hwhole)
  constructor
  · intro h
    obtain ⟨area, harea, hflat⟩ := h 0
    obtain ⟨moved, o', -, -, hreads⟩ := hflat.readable 0
    exact ⟨CimObject.footprint_lt hwhole harea, hreads.selfContained⟩
  · intro ⟨hsmall, hself⟩ base
    have hpacked : Packed Block.size 0 o.size
        ((0, .head (o.object.flatHead base o.size)) :: o.object.parts base) :=
      rebuilt_packed hwhole (Nat.le_of_eq o.size_eq.symm)
    refine ⟨_, by rw [o.rebuild_eq]; exact rebuildH_eq hwhole (by omega), ?_, ?_, ?_, ?_⟩
    · have hsum := hpacked.sum_le
      rwa [Nat.zero_add] at hsum
    · exact fun x hx => (hpacked.inside x hx).2
    · exact hpacked.pairwise
    · intro base'
      obtain ⟨moved, hmoved, hread⟩ := rebuilt_reads rfl hpacked base'
      refine ⟨moved, o.packed, hmoved, ?_, o.reads_packed, hself⟩
      rw [hread, Option.map_some, o.ofKind_packed]

/-! ## Objects that were built -/

/-- All of an object that was built is copied. -/
theorem build_whole {r : Recipe} (hkeys : r.NonArrayKeys) {o : CimObject}
    (h : r.build = some o) : o.object.Whole := by
  cases o with
  | objectPath op => exact Or.inr (build_noArrays hkeys h)
  | cls | inst | args | qualifier => exact Or.inl rfl

/-- An object that was built in any way is rebuilt as promised exactly where it needs less
than two gigabytes and has no pointer in it. -/
theorem build_portable_iff {r : Recipe} (hkeys : r.NonArrayKeys) {o : CimObject}
    (h : r.build = some o) : o.Portable ↔ o.footprint < 2 ^ 31 ∧ o.SelfContained :=
  CimObject.portable_iff (build_whole hkeys h)

/-- A text. -/
def textData (s : String) : CMPIData := ⟨CMPIBase.string.simple, 0, .text (lit s)⟩

/-- A class with something at every level. -/
def sampleRecipe : Recipe :=
  .cls (some (lit "Disk")) (some (lit "Device"))
    [.grandParent (lit "Element"),
     .qualifier (lit "Description") (textData "a disk"),
     .property (lit "Sizes")
       ⟨CMPIBase.uint8.arrayOf, 0, .array ⟨.uint8, [⟨0, .word 1⟩, ⟨0, .word 2⟩]⟩⟩ none,
     .propertyQualifier 0 (lit "Unit") (textData "GB"),
     .method (lit "Spin") CMPIBase.uint32.simple,
     .methodQualifier 0 (lit "Since") (textData "2"),
     .parameter 0 (lit "Rate") ⟨CMPIBase.uint16.simple, 0, none⟩,
     .parameterQualifier 0 0 (lit "In") ⟨CMPIBase.boolean.simple, 0, .word 1⟩]

theorem build_portable_sample : ∃ o, sampleRecipe.build = some o ∧ o.Portable := by
  have hsize : sampleRecipe.build.map (fun o => (o.footprint, decide o.SelfContained)) =
      some (672, true) := by
    decide
  obtain ⟨o, ho, hresult⟩ := Option.map_eq_some_iff.mp hsize
  obtain ⟨hfootprint, hself⟩ := Prod.mk.inj hresult
  have hkeys : sampleRecipe.NonArrayKeys := trivial
  exact ⟨o, ho, (build_portable_iff hkeys ho).mpr
    ⟨by rw [hfootprint]; decide, of_decide_eq_true hself⟩⟩

/-- A qualifier is kept as a pointer where it comes with one and is no text and no array. -/
theorem storeQualifier_ptr_iff {hdr hdr' : ObjectHdr} {d : CMPIData} {data : Stored}
    (h : storeQualifier hdr d = some (hdr', data)) :
    data.value = .ptr ↔ d.value.raw = .ptr ∧ (isNull d.state = true ∨
      d.type ≠ CMPIBase.chars.simple ∧ d.type ≠ CMPIBase.string.simple ∧ d.type.array = false) := by
  unfold storeQualifier at h
  split at h
  · next hnull =>
    cases h
    exact ⟨fun h => ⟨h, Or.inl hnull⟩, fun h => h.1⟩
  next hnull =>
  split at h
  · next htext =>
    split at h
    · obtain ⟨x, -, heq⟩ := Option.map_eq_some_iff.mp h
      cases heq
      exact iff_of_false (by simp) (by grind)
    · exact absurd h (by simp)
  next htext =>
  split at h
  · next harray =>
    split at h
    · obtain ⟨x, -, heq⟩ := Option.map_eq_some_iff.mp h
      cases heq
      exact iff_of_false (by simp) (by grind)
    · exact absurd h (by simp)
  · cases h
    exact ⟨fun h => ⟨h, by grind⟩, fun h => h.1⟩

/-- A class whose qualifier is a date. -/
def datedRecipe : Recipe :=
  .cls (some (lit "Disk")) none
    [.qualifier (lit "Released")
      ⟨CMPIBase.dateTime.simple, 0, .text (lit "20240101000000.000000+000")⟩]

/-- The date stays with whoever added it. -/
theorem datedRecipe_not_portable : ∃ o, datedRecipe.build = some o ∧ ¬ o.Portable := by
  have hself : datedRecipe.build.map (fun o => decide o.SelfContained) = some false := by decide
  obtain ⟨o, ho, hnot⟩ := Option.map_eq_some_iff.mp hself
  have hkeys : datedRecipe.NonArrayKeys := trivial
  exact ⟨o, ho, fun h => of_decide_eq_false hnot
    ((CimObject.portable_iff (build_whole hkeys ho)).mp h).2⟩

/-- An array that is too large. -/
def hugeArray (n : Nat) : NativeArray := ⟨.uint8, List.replicate n ⟨0, .word 1⟩⟩

/-- The arguments of a method with that array. -/
def hugeRecipe (n : Nat) : Recipe :=
  .args [(lit "a", ⟨CMPIBase.uint8.arrayOf, 0, .array (hugeArray n)⟩)]

/-- The array is taken up, and it takes its place. -/
theorem hugeRecipe_build {n : Nat} (hn : n + 1 < 2 ^ 30) :
    ∃ o, (hugeRecipe n).build = some o ∧ sizeofCMPIData * n ≤ o.footprint := by
  have hitem : ∀ item ∈ (hugeArray n).data, item = ⟨0, .word 1⟩ :=
    fun item h => List.eq_of_mem_replicate h
  -- the array has no strings, only cells
  have hrecords : (hugeArray n).records = [] := by
    refine List.filterMap_eq_nil_iff.mpr fun item h => ?_
    rw [hitem item h]
    rfl
  have hlength : ((hugeArray n).arrayRecord 1).length = n + 1 := by
    unfold NativeArray.arrayRecord
    rw [List.length_cons, length_cellsOf]
    exact congrArg (· + 1) List.length_replicate
  have hroom : IndexedBuf.RoomFor none [lit "a" ++ [0]] := by decide
  obtain ⟨b, hname, hcontents, -⟩ := addClString_contents (contents_new .args) hroom
  obtain ⟨b₁, b₂, harray, hcontents'⟩ := addClArray_contents hcontents (a := hugeArray n)
    (fun item h => by rw [hitem item h]; rfl)
    (List.all_eq_true.mpr fun item _ => prints_of_ne_ref CMPIBase.noConfusion item)
    (by rw [hrecords]; exact fun h => absurd rfl h)
    (fun _ => ⟨by rw [List.length_singleton]; omega, by
      rw [List.flatten_singleton]; exact hlength ▸ hn⟩)
  have hstore : storeNew { ObjectHdr.new .args with strBuf := some b }
      ⟨CMPIBase.uint8.arrayOf, 0, .array (hugeArray n)⟩ = _ := storeNew_array rfl _ _
  rw [harray, Option.map_some] at hstore
  obtain ⟨prps, hpush, -⟩ := push_some (s := ClSection.clear) (Or.inl rfl) 8 _
  have hnew := newProperty_eq hname (show addClStringOrNone _ none = some (_, 0) from rfl) hstore
  have hadd := addObjectPropertyH_new (o := newArgsH.store) rfl hnew hpush
  refine ⟨.args ⟨⟨.args, b₁, some b₂, false⟩, prps⟩, ?_, ?_⟩
  · show Option.map _ (Option.bind (Option.map _ (clArgsAddArg newArgsH _ _)) _) = _
    unfold clArgsAddArg
    rw [hadd]
    rfl
  · have htotal := hcontents'.arrays.2.1.total
    rw [List.nil_append, List.flatten_singleton] at htotal
    have hcells : n + 1 ≤ b₂.cells.length := hlength ▸ htotal
    calc sizeofCMPIData * n ≤ sizeofCMPIData * b₂.cells.length := Nat.mul_le_mul_left _ (by omega)
      _ ≤ bufBytes sizeofClArrayBuf sizeofCMPIData (some b₂) := le_bufBytes ..
      _ ≤ _ := Nat.le_add_left ..

/-- A hundred million elements need more than two gigabytes, and the size is no `int`. -/
theorem hugeRecipe_not_portable :
    ∃ o, (hugeRecipe (10 ^ 8)).build = some o ∧ ¬ o.Portable := by
  obtain ⟨o, ho, hlarge⟩ := hugeRecipe_build (n := 10 ^ 8) (by decide)
  refine ⟨o, ho, fun h => ?_⟩
  have hsmall := ((CimObject.portable_iff (build_whole (r := hugeRecipe (10 ^ 8)) trivial ho)).mp h).1
  unfold sizeofCMPIData at hlarge
  omega

end Sfcb.Object
