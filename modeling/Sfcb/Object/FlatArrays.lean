import Sfcb.Object.Growth
import Sfcb.Object.Packed
import Sfcb.Object.Rebuild
import Sfcb.Object.ReplaceFrame

/-!
# Adding arrays to flat objects

An object that was rebuilt or relocated has its array buffer inside of the object, with no
room behind the arrays. `addClArray` then takes new memory for it and copies the buffer
there: `memcpy(.., buf, buf->bMax + sizeof(ClArrayBuf))`, where `bMax` is a number of cells
and not of bytes. Of each twenty-four bytes of the arrays one is copied, and the rest of
the new buffer is what `malloc` left there.

`addsArray_iff` says when an array is added as it should be: there is room for it, and the
buffer is on the heap or has at most one cell, which is an array without elements.

Mirroring notes:
- `ClArrayBuf` is the buffer with `HDR_ArrayBufferMalloced`; the header gives the string
  buffer. On the heap it is what `addClArray` is in the model of the objects
  (`addClArrayTo_malloced`).
- `junk` is what new memory holds. A field of a cell that is not copied with all its bytes
  is junk, too.
-/

namespace Sfcb.Object

open Sfcb.Lib Sfcb.Lib.IndexedBuf

/-! ## The buffer -/

/-- An array buffer, and whether it is on the heap. -/
structure ClArrayBuf where
  buf : IndexedBuf Stored
  malloced : Bool
  deriving DecidableEq, Repr

/-- The array buffer of a rebuilt or relocated object. -/
def ClArrayBuf.flat (b : IndexedBuf Stored) : ClArrayBuf := ⟨packBuf b, false⟩

/-- `offsetof(ClArrayBuf, buf)`. -/
def offsetofBuf : Nat := sizeofClArrayBuf - sizeofCMPIData

/-- A cell of which `n` bytes are copied: type and state are two bytes each, the value is
the eight bytes from the eighth on. -/
def copyCell (n : Nat) (src junk : Stored) : Stored :=
  ⟨if 2 ≤ n then src.type else junk.type, if 4 ≤ n then src.state else junk.state,
    if 16 ≤ n then src.value else junk.value⟩

/-- `memcpy` of `n` bytes of cells. -/
def memcpyCells (n : Nat) (src : List Stored) (junk : Nat → Stored) : List Stored :=
  src.mapIdx fun i s => copyCell (n - i * sizeofCMPIData) s (junk i)

/-- Room for `l` more cells and one more array. -/
def growArrayBuf (arr : Option ClArrayBuf) (l : Nat) (junk : Nat → Stored) :
    Option ClArrayBuf :=
  match arr with
  | none =>
    let nmax := growTo l 16
    if l < nmax ∧ nmax < 2 ^ 31 then
      some ⟨{ index := [], iMax := 16, iMalloced := true, iAlloc := 32, cells := [], bMax := nmax },
        true⟩
    else none
  | some b =>
    (b.buf.ensureIndex.ensureCells l).map fun buf =>
      if b.buf.cells.length + l ≥ b.buf.bMax then
        if b.malloced then ⟨buf, true⟩
        else
          -- `bMax` counts cells
          let n := b.buf.bMax + sizeofClArrayBuf - offsetofBuf
          ⟨{ buf with cells := memcpyCells n buf.cells junk }, true⟩
      else ⟨buf, b.malloced⟩

/-- `addClArray`. -/
def addClArrayTo (hdr : ObjectHdr) (arr : Option ClArrayBuf) (a : NativeArray)
    (junk : Nat → Stored) : Option (ObjectHdr × ClArrayBuf × Nat) :=
  match growArrayBuf arr (a.data.length + 1) junk with
  | none => none
  | some b =>
    match storeItems a.type hdr a.data with
    | none => none
    | some (hdr, cells) =>
      if b.buf.index.length < b.buf.iAlloc then
        let buf := { b.buf with
          index := b.buf.index ++ [b.buf.cells.length]
          cells := b.buf.cells ++ (arrayHead a :: cells) }
        some (hdr, ⟨buf, b.malloced⟩, b.buf.index.length + 1)
      else none

theorem storeItem_arrayBuf {type : CMPIBase} {hdr hdr' : ObjectHdr} {item : ArrayItem}
    {cell : Stored} (h : storeItem hdr type item = some (hdr', cell)) :
    hdr'.arrayBuf = hdr.arrayBuf := by
  have hadded : ∀ {bytes : List UInt8} {f : ObjectHdr × Nat → ObjectHdr × Stored},
      (∀ x, (f x).1 = x.1) → (addClStringN hdr bytes).map f = some (hdr', cell) →
      hdr'.arrayBuf = hdr.arrayBuf := by
    intro bytes f hf hmap
    obtain ⟨x, hx, heq⟩ := Option.map_eq_some_iff.mp hmap
    have hhdr : x.1 = hdr' := (hf x).symm.trans (congrArg Prod.fst heq)
    rw [← hhdr]
    exact addClStringN_arrayBuf hx
  unfold storeItem at h
  simp only at h
  split at h
  · cases h
    rfl
  split at h
  case h_5 =>
    split at h
    · exact hadded (fun _ => rfl) h
    · exact absurd h (by simp)
  case h_6 =>
    cases h
    rfl
  all_goals
    split at h
    · exact hadded (fun _ => rfl) (map_addText h)
    · exact absurd h (by simp)

/-- The strings of the elements are added to another buffer. -/
theorem storeItems_arrayBuf {type : CMPIBase} {hdr hdr' : ObjectHdr} {items : List ArrayItem}
    {cells : List Stored} (h : storeItems type hdr items = some (hdr', cells)) :
    hdr'.arrayBuf = hdr.arrayBuf ∧ cells.length = items.length := by
  induction items generalizing hdr cells with
  | nil =>
    cases h
    exact ⟨rfl, rfl⟩
  | cons item items ih =>
    unfold storeItems at h
    split at h
    · exact absurd h (by simp)
    next hdr₁ cell hitem =>
    obtain ⟨⟨hdr₂, cells'⟩, hrest, heq⟩ := Option.map_eq_some_iff.mp h
    cases heq
    obtain ⟨hsame, hlength⟩ := ih hrest
    exact ⟨hsame.trans (storeItem_arrayBuf hitem), congrArg (· + 1) hlength⟩

/-- On the heap it is `addClArray` on the whole object. -/
theorem addClArrayTo_malloced (hdr : ObjectHdr) (a : NativeArray) (junk : Nat → Stored) :
    addClArrayTo hdr (hdr.arrayBuf.map (⟨·, true⟩)) a junk =
      (addClArray hdr a).bind fun r => r.1.arrayBuf.map fun b =>
        ({ r.1 with arrayBuf := hdr.arrayBuf }, ⟨b, true⟩, r.2) := by
  unfold addClArrayTo addClArray
  cases hitems : storeItems a.type hdr a.data with
  | none =>
    simp only [Option.bind_none]
    split <;> rfl
  | some r =>
    obtain ⟨hdr', cells⟩ := r
    obtain ⟨hsame, hlength⟩ := storeItems_arrayBuf hitems
    have hl : (arrayHead a :: cells).length = a.data.length + 1 := by
      rw [List.length_cons, hlength]
    have hset : ({ hdr' with arrayBuf := hdr.arrayBuf } : ObjectHdr) = hdr' := by
      rw [← hsame]
    simp only [hsame]
    cases hbuf : hdr.arrayBuf with
    | none =>
      unfold IndexedBuf.add growArrayBuf create
      simp only [hl, Option.map_none]
      rw [hbuf] at hset
      by_cases hroom : a.data.length + 1 < growTo (a.data.length + 1) 16 ∧
          growTo (a.data.length + 1) 16 < 2 ^ 31
      · simp only [if_pos hroom, Option.map_some, Option.bind_some, hset]
        rfl
      · simp only [if_neg hroom, Option.map_none, Option.bind_none]
    | some b =>
      unfold IndexedBuf.add growArrayBuf push
      simp only [hl, Option.map_some]
      rw [hbuf] at hset
      cases hensure : b.ensureIndex.ensureCells (a.data.length + 1) with
      | none => rfl
      | some b' =>
        simp only [Option.map_some, if_true, ite_self]
        by_cases hroom : b'.index.length < b'.iAlloc
        · simp only [if_pos hroom, Option.map_some, Option.bind_some, hset]
        · simp only [if_neg hroom, Option.map_none, Option.bind_none]

/-! ## What is asked for -/

/-- The array with that id begins with these cells. -/
def ClArrayBuf.HasRecord (b : ClArrayBuf) (id : Nat) (x : List Stored) : Prop :=
  ∃ f, b.buf.entry id = some f ∧ x <+: f

/-- The cell has the element: its value, or the id of its string. -/
def HoldsItem (hdr : ObjectHdr) (type : CMPIBase) (item : ArrayItem) (cell : Stored) : Prop :=
  match item.record with
  | none => cell = ⟨type.simple, item.state, item.value.raw⟩
  | some bytes =>
    ∃ id, cell = ⟨(elemType type).simple, item.state, .num id⟩ ∧ ReadsAs hdr id bytes

/-- The array with that id has the type, the size and the elements of `a`. -/
def HoldsArray (hdr : ObjectHdr) (b : ClArrayBuf) (id : Nat) (a : NativeArray) : Prop :=
  ∃ cells : List Stored, b.HasRecord id (arrayHead a :: cells) ∧ cells.length = a.data.length ∧
    ∀ (i : Nat) (item : ArrayItem), a.data[i]? = some item →
      ∃ cell : Stored, cells[i]? = some cell ∧
      HoldsItem hdr a.type item cell

/-- The array is added: the earlier ones stay, cell by cell and with the strings their cells
refer to, and the new one can be read, whatever was in the memory. -/
def AddsArray (hdr : ObjectHdr) (arr : Option ClArrayBuf) (records : List (List Stored))
    (a : NativeArray) : Prop :=
  ∀ junk, ∃ hdr' b id, addClArrayTo hdr arr a junk = some (hdr', b, id) ∧
    (∀ (j : Nat) x, records[j]? = some x → b.HasRecord (j + 1) x) ∧
    (∀ k bytes, bytes ≠ [] → ReadsAs hdr k bytes → ReadsAs hdr' k bytes) ∧
    HoldsArray hdr' b id a

/-! ## The condition -/

/-- There is room for `l` more cells and one more array. -/
def ArrayRoom (arr : Option ClArrayBuf) (l : Nat) : Prop :=
  match arr with
  | none => l < growTo l 16 ∧ growTo l 16 < 2 ^ 31
  | some b => b.buf.Takes b.buf.cells.length l

/-- The buffer takes new memory for `l` more cells, and copies only a part of the old one. -/
def ClArrayBuf.Recopies (b : ClArrayBuf) (l : Nat) : Prop :=
  b.malloced = false ∧ b.buf.bMax ≤ b.buf.cells.length + l

instance (b : ClArrayBuf) (l : Nat) : Decidable (b.Recopies l) :=
  inferInstanceAs (Decidable (_ ∧ _))

/-- The cells from `o` on that an array of `m` cells has are copied up to their values. -/
def ClArrayBuf.Copied (b : ClArrayBuf) (o m : Nat) : Prop :=
  (o + m) * sizeofCMPIData ≤ b.buf.bMax + 32

/-- No cell is not of an array. -/
def Filled (b : IndexedBuf Stored) (records : List (List Stored)) : Prop :=
  ∀ c < b.cells.length, ∃ (j : Nat) (x : List Stored) (o : Nat),
    records[j]? = some x ∧ b.index[j]? = some o ∧ o ≤ c ∧ c < o + x.length

/-- A buffer inside of its object has no more room than the arrays need. -/
structure IsFlat (b : IndexedBuf Stored) (records : List (List Stored)) : Prop where
  full : b.bMax = b.cells.length
  filled : Filled b records

/-- The arrays of an object. -/
def HoldsArrays (arr : Option ClArrayBuf) (records : List (List Stored)) : Prop :=
  match arr with
  | none => records = []
  | some b => b.buf.Holds records ∧ (b.malloced = false → IsFlat b.buf records)

/-- The buffer is on the heap, or has no elements. -/
def ComesThrough (arr : Option ClArrayBuf) : Prop :=
  ∀ b ∈ arr, b.malloced = true ∨ b.buf.cells.length ≤ 1

/-! ## Flat buffers -/

section Flat

variable {b : IndexedBuf Stored} {records : List (List Stored)}

/-- What is rebuilt or relocated is the arrays of the object before. -/
theorem flat_holds (hholds : b.Holds records) (hfilled : Filled b records) :
    HoldsArrays (some (.flat b)) records :=
  ⟨⟨hholds.pointAt, hholds.total⟩, fun _ => ⟨rfl, hfilled⟩⟩

end Flat

/-! ## Strings of the elements -/

section Items

variable {hdr hdr' : ObjectHdr} {type : CMPIBase} {items : List ArrayItem}

/-- Only a path that has been printed is stored. -/
theorem prints_of_storeItem {item : ArrayItem} {r : ObjectHdr × Stored}
    (h : storeItem hdr type item = some r) : item.prints type = true := by
  unfold ArrayItem.prints
  cases hstate : isNull item.state with
  | true => rfl
  | false =>
    cases hvalue : item.value with
    | word n => rfl
    | blob bytes => rfl
    | text s =>
      unfold storeItem addText at h
      simp only [hstate, hvalue] at h
      cases type with
      | ref =>
        obtain ⟨x, hx, -⟩ := Option.map_eq_some_iff.mp h
        by_cases hprints : CMPIBase.prints .ref s = true
        · exact hprints
        · rw [if_neg hprints] at hx
          exact absurd hx (by simp)
      | _ => rfl

/-- What is stored of the elements can be read, and nothing that could be read is lost. -/
theorem storeItems_spec (hshape : ∀ item ∈ items, item.shaped type = true)
    {cells : List Stored} (h : storeItems type hdr items = some (hdr', cells)) :
    cells.length = items.length ∧
      (∀ k bytes, bytes ≠ [] → ReadsAs hdr k bytes → ReadsAs hdr' k bytes) ∧
      ∀ (i : Nat) item, items[i]? = some item →
        ∃ cell : Stored, cells[i]? = some cell ∧ HoldsItem hdr' type item cell := by
  induction items generalizing hdr cells with
  | nil =>
    cases h
    exact ⟨rfl, fun _ _ _ h => h, fun i item hi => absurd hi (by simp)⟩
  | cons item items ih =>
    have hhead := hshape item List.mem_cons_self
    have htail : ∀ x ∈ items, x.shaped type = true :=
      fun x hx => hshape x (List.mem_cons_of_mem _ hx)
    unfold storeItems at h
    cases hitem : storeItem hdr type item with
    | none =>
      rw [hitem] at h
      exact absurd h (by simp)
    | some r =>
      obtain ⟨hdr₁, cell⟩ := r
      rw [hitem] at h
      obtain ⟨⟨hdr₂, cells'⟩, hrest, heq⟩ := Option.map_eq_some_iff.mp h
      cases heq
      obtain ⟨hlength, hkeeps, hholds⟩ := ih htail hrest
      have hfirst : (∀ k bytes, bytes ≠ [] → ReadsAs hdr k bytes → ReadsAs hdr₁ k bytes) ∧
          HoldsItem hdr₂ type item cell := by
        unfold HoldsItem
        cases hrecord : item.record with
        | none =>
          rw [storeItem_none hhead hrecord] at hitem
          cases hitem
          exact ⟨fun _ _ _ h => h, rfl⟩
        | some bytes =>
          obtain ⟨hdel, hstore⟩ := storeItem_some hdr hhead (prints_of_storeItem hitem) hrecord
          rw [hstore] at hitem
          obtain ⟨⟨hdr₃, id⟩, hadd, heq⟩ := Option.map_eq_some_iff.mp hitem
          cases heq
          have hne : bytes ≠ [] := List.ne_nil_of_mem (mem_of_strLength_le hdel.le)
          refine ⟨fun k x hx hread => addClStringN_readsAs hadd hx hread, id, rfl, ?_⟩
          exact hkeeps id bytes hne ⟨bytes, (addClStringN_spec hadd).2.1, List.prefix_rfl⟩
      refine ⟨by rw [List.length_cons, List.length_cons, hlength], ?_, fun i x hx => ?_⟩
      · exact fun k bytes hne hread => hkeeps k bytes hne (hfirst.1 k bytes hne hread)
      · cases i with
        | zero =>
          obtain rfl : item = x := by simpa using hx
          exact ⟨cell, rfl, hfirst.2⟩
        | succ i => exact hholds i x (by simpa using hx)

theorem storeItems_isSome_iff (hshape : ∀ item ∈ items, item.shaped type = true) :
    (storeItems type hdr items).isSome = true ↔
      items.all (·.prints type) = true ∧ Fits hdr.strBuf (items.filterMap ArrayItem.record) := by
  induction items generalizing hdr with
  | nil => exact ⟨fun _ => ⟨rfl, trivial⟩, fun _ => rfl⟩
  | cons item items ih =>
    have hhead := hshape item List.mem_cons_self
    have htail : ∀ x ∈ items, x.shaped type = true :=
      fun x hx => hshape x (List.mem_cons_of_mem _ hx)
    rw [List.all_cons, Bool.and_eq_true, and_assoc]
    unfold storeItems
    by_cases hprints : item.prints type = true
    case neg =>
      refine iff_of_false (fun h => ?_) (fun h => hprints h.1)
      cases hitem : storeItem hdr type item with
      | none =>
        rw [hitem] at h
        exact absurd h (by simp)
      | some r => exact hprints (prints_of_storeItem hitem)
    rw [and_iff_right hprints]
    cases hrecord : item.record with
    | none =>
      rw [storeItem_none hhead hrecord, List.filterMap_cons_none hrecord]
      simp only [Option.isSome_map]
      exact ih htail
    | some bytes =>
      obtain ⟨-, hstore⟩ := storeItem_some hdr hhead hprints hrecord
      rw [hstore, List.filterMap_cons_some hrecord, fits_cons_iff]
      constructor
      · intro h
        cases hadd : addClStringN hdr bytes with
        | none =>
          rw [hadd] at h
          exact absurd h (by simp)
        | some r =>
          rw [hadd] at h
          simp only [Option.map_some, Option.isSome_map] at h
          obtain ⟨hall, hfits⟩ := (ih htail).mp h
          exact ⟨hall, r.1, r.2, rfl, hfits⟩
      · rintro ⟨hall, hdr₁, id, hadd, hfits⟩
        rw [hadd]
        simp only [Option.map_some, Option.isSome_map]
        exact (ih htail).mpr ⟨hall, hfits⟩

end Items

/-! ## Growing -/

section Growing

variable {b b' : ClArrayBuf} {l : Nat} {junk : Nat → Stored}

/-- The cells after there was room made for `l` more. -/
def ClArrayBuf.cellsAfter (b : ClArrayBuf) (l : Nat) (junk : Nat → Stored) : List Stored :=
  if b.Recopies l then
    memcpyCells (b.buf.bMax + sizeofClArrayBuf - offsetofBuf) b.buf.cells junk
  else b.buf.cells

theorem growArrayBuf_eq_some (h : growArrayBuf (some b) l junk = some b') :
    b'.buf.index = b.buf.index ∧ b'.buf.iAlloc = b.buf.ensureIndex.iAlloc ∧
      b'.buf.cells = b.cellsAfter l junk := by
  obtain ⟨buf, hensure, rfl⟩ := Option.map_eq_some_iff.mp h
  obtain ⟨hindex, hcells, halloc⟩ := ensure_eq_some hensure
  unfold ClArrayBuf.cellsAfter
  simp only
  by_cases hge : b.buf.cells.length + l ≥ b.buf.bMax
  · rw [if_pos hge]
    by_cases hm : b.malloced = true
    · have hnot : ¬ b.Recopies l := fun h => absurd (hm.symm.trans h.1) (by simp)
      rw [if_pos hm, if_neg hnot]
      exact ⟨hindex, halloc, hcells⟩
    · have hrecopies : b.Recopies l := ⟨Bool.eq_false_iff.mpr hm, hge⟩
      rw [if_neg hm, if_pos hrecopies]
      exact ⟨hindex, halloc, by rw [hcells]⟩
  · have hnot : ¬ b.Recopies l := fun h => hge h.2
    rw [if_neg hge, if_neg hnot]
    exact ⟨hindex, halloc, hcells⟩

theorem growArrayBuf_isSome_iff : (growArrayBuf (some b) l junk).isSome = true ↔
    (b.buf.bMax ≤ b.buf.cells.length + l →
      b.buf.cells.length + l < growTo (b.buf.cells.length + l) b.buf.bMax ∧
        growTo (b.buf.cells.length + l) b.buf.bMax < 2 ^ 31) := by
  unfold growArrayBuf
  simp only [Option.isSome_map]
  exact ensure_isSome_iff

theorem length_cellsAfter : (b.cellsAfter l junk).length = b.buf.cells.length := by
  unfold ClArrayBuf.cellsAfter memcpyCells
  split
  · rw [List.length_mapIdx]
  · rfl

end Growing

/-! ## Arrays that come through -/

section Copying

variable {b : ClArrayBuf} {records : List (List Stored)} {l : Nat}

/-- A cell whose value is copied is copied. -/
theorem copyCell_of_le {n : Nat} (h : 16 ≤ n) (src junk : Stored) : copyCell n src junk = src := by
  unfold copyCell
  rw [if_pos (by omega), if_pos (by omega), if_pos h]

/-- The number of bytes that reach the cells. -/
theorem copiedBytes (n : Nat) : n + sizeofClArrayBuf - offsetofBuf = n + sizeofCMPIData := by
  show n + 48 - 24 = n + 24
  omega

/-- A word that is another one. -/
def otherWord : Word → Word
  | .num _ => .ptr
  | .ptr => .num 0

theorem otherWord_ne (w : Word) : otherWord w ≠ w := by
  cases w <;> simp [otherWord]

/-- An array is unchanged for all junk if and only if it lies in what is copied. -/
theorem cellsAfter_iff (hrecopies : b.Recopies l) {o : Nat} {x : List Stored} (hx : x ≠ [])
    (hpre : x <+: b.buf.cells.drop o) :
    (∀ junk, x <+: (b.cellsAfter l junk).drop o) ↔ b.Copied o x.length := by
  have hsrc : ∀ {i : Nat} (hi : i < x.length), b.buf.cells[o + i]? = some x[i] := by
    intro i hi
    rw [← List.getElem?_drop]
    exact List.prefix_iff_getElem?.mp hpre i hi
  have hcell : ∀ junk {i : Nat} (hi : i < x.length), ((b.cellsAfter l junk).drop o)[i]? =
      some (copyCell (b.buf.bMax + sizeofCMPIData - (o + i) * sizeofCMPIData) x[i]
        (junk (o + i))) := by
    intro junk i hi
    unfold ClArrayBuf.cellsAfter memcpyCells
    rw [if_pos hrecopies, copiedBytes, List.getElem?_drop, List.getElem?_mapIdx, hsrc hi]
    rfl
  have hsize : sizeofCMPIData = 24 := rfl
  unfold ClArrayBuf.Copied
  simp only [hsize] at hcell ⊢
  constructor
  · intro h
    -- the last cell shows it, with junk that is something else
    have hpos := List.length_pos_iff.mpr hx
    have hlast : x.length - 1 < x.length := by omega
    have hafter := List.prefix_iff_getElem?.mp
      (h fun _ => ⟨x[x.length - 1].type, x[x.length - 1].state, otherWord x[x.length - 1].value⟩)
      (x.length - 1) hlast
    rw [hcell _ hlast] at hafter
    have hvalue := congrArg Stored.value (Option.some.inj hafter)
    unfold copyCell at hvalue
    simp only at hvalue
    split at hvalue
    · omega
    · exact absurd hvalue (otherWord_ne _)
  · intro hcopied junk
    refine List.prefix_iff_getElem?.mpr fun i hi => ?_
    rw [hcell junk hi, copyCell_of_le (by omega)]

/-- Arrays in the object come through for all junk if and only if there are no elements. -/
theorem flat_iff (hmalloced : b.malloced = false) (hflat : IsFlat b.buf records)
    (hpoint : PointAt b.buf.cells b.buf.index records) :
    (∀ junk (j : Nat) x o, records[j]? = some x → b.buf.index[j]? = some o →
      x <+: (b.cellsAfter l junk).drop o) ↔ b.buf.cells.length ≤ 1 := by
  have hrecopies : b.Recopies l := ⟨hmalloced, by rw [hflat.full]; exact Nat.le_add_right _ _⟩
  have hsize : sizeofCMPIData = 24 := rfl
  have hle : ∀ {x : List Stored} {o : Nat}, x <+: b.buf.cells.drop o → x ≠ [] →
      o + x.length ≤ b.buf.cells.length := by
    intro x o hpre hx
    have hlength := hpre.length_le
    have hpos := List.length_pos_iff.mpr hx
    rw [List.length_drop] at hlength
    omega
  constructor
  · intro h
    by_cases hempty : b.buf.cells.length = 0
    · omega
    -- the array that has the last cell
    obtain ⟨j, x, o, hx, ho, hfrom, hto⟩ := hflat.filled (b.buf.cells.length - 1) (by omega)
    have hne : x ≠ [] := List.ne_nil_of_length_pos (by omega)
    obtain ⟨o', ho', hpre⟩ := hpoint.get hx
    obtain rfl : o' = o := Option.some.inj (ho'.symm.trans ho)
    have hcopied := (cellsAfter_iff hrecopies hne hpre).mp fun junk => h junk j x o' hx ho
    have hbound := hle hpre hne
    unfold ClArrayBuf.Copied at hcopied
    rw [hflat.full, hsize] at hcopied
    omega
  · intro h junk j x o hx ho
    by_cases hne : x = []
    · rw [hne]
      exact List.nil_prefix
    obtain ⟨o', ho', hpre⟩ := hpoint.get hx
    obtain rfl : o' = o := Option.some.inj (ho'.symm.trans ho)
    refine (cellsAfter_iff hrecopies hne hpre).mpr ?_ junk
    have hbound := hle hpre hne
    unfold ClArrayBuf.Copied
    rw [hflat.full, hsize]
    omega

/-- The arrays come through if and only if they are on the heap or have no elements. -/
theorem kept_iff (hholds : HoldsArrays (some b) records) :
    (∀ junk (j : Nat) x o, records[j]? = some x → b.buf.index[j]? = some o →
      x <+: (b.cellsAfter l junk).drop o) ↔ ComesThrough (some b) := by
  have hcomes : ComesThrough (some b) ↔ b.malloced = true ∨ b.buf.cells.length ≤ 1 :=
    ⟨fun h => h b rfl, fun h b' hb => by
      obtain rfl : b = b' := Option.some.inj hb
      exact h⟩
  rw [hcomes]
  cases hm : b.malloced with
  | true =>
    refine ⟨fun _ => .inl rfl, fun _ junk j x o hx ho => ?_⟩
    obtain ⟨o', ho', hpre⟩ := hholds.1.pointAt.get hx
    obtain rfl : o' = o := Option.some.inj (ho'.symm.trans ho)
    unfold ClArrayBuf.cellsAfter
    rw [if_neg fun h => absurd (hm.symm.trans h.1) (by simp)]
    exact hpre
  | false =>
    rw [flat_iff hm (hholds.2 hm) hholds.1.pointAt]
    simp

end Copying

/-! ## Adding an array -/

section Adding

variable {hdr hdr' : ObjectHdr} {arr : Option ClArrayBuf} {b : ClArrayBuf} {a : NativeArray}
  {records : List (List Stored)} {junk : Nat → Stored} {id : Nat}

/-- Where the new array is, and what is before it. -/
theorem addClArrayTo_eq_some (h : addClArrayTo hdr arr a junk = some (hdr', b, id)) :
    ∃ cells, storeItems a.type hdr a.data = some (hdr', cells) ∧
      (arr = none → b.buf.index = [0] ∧ b.buf.cells = arrayHead a :: cells ∧ id = 1) ∧
      ∀ b₀, arr = some b₀ → b.buf.index = b₀.buf.index ++ [b₀.buf.cells.length] ∧
        b.buf.cells = b₀.cellsAfter (a.data.length + 1) junk ++ arrayHead a :: cells ∧
        id = b₀.buf.index.length + 1 := by
  unfold addClArrayTo at h
  split at h
  · exact absurd h (by simp)
  next b₁ hgrow =>
  split at h
  · exact absurd h (by simp)
  next hdr₁ cells hitems =>
  split at h
  case isFalse => exact absurd h (by simp)
  cases h
  refine ⟨cells, hitems, fun hnone => ?_, fun b₀ hsome => ?_⟩
  · rw [hnone] at hgrow
    unfold growArrayBuf at hgrow
    simp only at hgrow
    split at hgrow
    · cases hgrow
      exact ⟨rfl, rfl, rfl⟩
    · exact absurd hgrow (by simp)
  · rw [hsome] at hgrow
    obtain ⟨hindex, -, hcells⟩ := growArrayBuf_eq_some hgrow
    have hlength : b₁.buf.cells.length = b₀.buf.cells.length := by rw [hcells, length_cellsAfter]
    simp only [hlength]
    rw [hindex, hcells]
    exact ⟨rfl, rfl, rfl⟩

theorem addClArrayTo_isSome_iff (hshape : ∀ item ∈ a.data, item.shaped a.type = true) :
    (addClArrayTo hdr arr a junk).isSome = true ↔
      (a.prints = true ∧ Fits hdr.strBuf a.records) ∧ ArrayRoom arr (a.data.length + 1) := by
  rw [show a.prints = true ∧ Fits hdr.strBuf a.records ↔ _ from
    (storeItems_isSome_iff hshape).symm]
  unfold addClArrayTo
  cases arr with
  | none =>
    unfold growArrayBuf ArrayRoom
    simp only
    split
    · next hgrow =>
      split at hgrow
      · exact absurd hgrow (by simp)
      · next hroom => exact ⟨fun h => absurd h (by simp), fun h => absurd h.2 hroom⟩
    · next hgrow =>
      split at hgrow
      case isFalse => exact absurd hgrow (by simp)
      next hroom =>
      cases hgrow
      cases storeItems a.type hdr a.data with
      | none => exact ⟨fun h => absurd h (by simp), fun h => absurd h.1 (by simp)⟩
      | some r => exact ⟨fun _ => ⟨rfl, hroom⟩, fun _ => rfl⟩
  | some b₀ =>
    have hsome := @growArrayBuf_isSome_iff b₀ (a.data.length + 1) junk
    cases hgrow : growArrayBuf (some b₀) (a.data.length + 1) junk with
    | none =>
      rw [hgrow] at hsome
      simp only [Option.isSome_none, Bool.false_eq_true, false_iff] at hsome ⊢
      exact fun h => hsome h.2.cells
    | some b₁ =>
      rw [hgrow] at hsome
      have hcells := hsome.mp rfl
      obtain ⟨hindex, halloc, -⟩ := growArrayBuf_eq_some hgrow
      cases hitems : storeItems a.type hdr a.data with
      | none => simp
      | some r =>
        simp only [Option.isSome_some, true_and]
        rw [hindex, halloc]
        constructor
        · intro h
          split at h
          · next hlt => exact ⟨hlt, hcells⟩
          · exact absurd h (by simp)
        · intro h
          rw [if_pos h.index]
          rfl

/-- What is found of the earlier arrays. -/
theorem hasRecord_iff {b₀ : ClArrayBuf} {cells : List Stored} {l j : Nat} {x : List Stored}
    (hpoint : PointAt b₀.buf.cells b₀.buf.index records) (hx : records[j]? = some x)
    (hindex : b.buf.index = b₀.buf.index ++ [b₀.buf.cells.length])
    (hcells : b.buf.cells = b₀.cellsAfter l junk ++ cells) :
    b.HasRecord (j + 1) x ↔
      ∀ o, b₀.buf.index[j]? = some o → x <+: (b₀.cellsAfter l junk).drop o := by
  obtain ⟨o, ho, hpre⟩ := hpoint.get hx
  have hentry : b.buf.index[j]? = some o := by
    rw [hindex, List.getElem?_append_left (List.getElem?_eq_some_iff.mp ho).1, ho]
  have hlength := hpre.length_le
  rw [List.length_drop] at hlength
  have hdrop : b.buf.cells.drop o = (b₀.cellsAfter l junk).drop o ++
      cells.drop (o - b₀.buf.cells.length) := by
    rw [hcells, List.drop_append, length_cellsAfter]
  have hwithin : x <+: (b₀.cellsAfter l junk).drop o ++ cells.drop (o - b₀.buf.cells.length) ↔
      x <+: (b₀.cellsAfter l junk).drop o := by
    refine ⟨fun h => List.prefix_of_prefix_length_le h (List.prefix_append _ _) ?_,
      fun h => h.trans (List.prefix_append _ _)⟩
    rw [List.length_drop, length_cellsAfter]
    exact hlength
  constructor
  · intro ⟨f, hf, hxf⟩ o' ho'
    obtain rfl : o' = o := Option.some.inj (ho'.symm.trans ho)
    obtain ⟨-, o'', ho'', rfl⟩ := entry_eq_some.mp hf
    obtain rfl : o'' = o' := Option.some.inj (ho''.symm.trans hentry)
    rw [hdrop] at hxf
    exact hwithin.mp hxf
  · intro h
    exact ⟨_, entry_eq_some.mpr ⟨by omega, o, hentry, rfl⟩, by
      rw [hdrop]
      exact hwithin.mpr (h o ho)⟩

/-- The new array can be read. -/
theorem holdsArray_new (hshape : ∀ item ∈ a.data, item.shaped a.type = true)
    (h : addClArrayTo hdr arr a junk = some (hdr', b, id)) :
    (∀ k bytes, bytes ≠ [] → ReadsAs hdr k bytes → ReadsAs hdr' k bytes) ∧
      HoldsArray hdr' b id a := by
  obtain ⟨cells, hitems, hnone, hsome⟩ := addClArrayTo_eq_some h
  obtain ⟨hlength, hkeeps, hholds⟩ := storeItems_spec hshape hitems
  refine ⟨hkeeps, cells, ?_, hlength, hholds⟩
  cases arr with
  | none =>
    obtain ⟨hindex, hcells, rfl⟩ := hnone rfl
    exact ⟨_, entry_eq_some.mpr ⟨by omega, 0, by rw [hindex]; rfl, rfl⟩, by
      rw [hcells]
      exact List.prefix_rfl⟩
  | some b₀ =>
    obtain ⟨hindex, hcells, rfl⟩ := hsome b₀ rfl
    refine ⟨_, entry_eq_some.mpr ⟨by omega, b₀.buf.cells.length, ?_, rfl⟩, ?_⟩
    · rw [hindex, Nat.add_sub_cancel, List.getElem?_concat_length]
    · refine ⟨[], ?_⟩
      rw [hcells, ← @length_cellsAfter b₀ (a.data.length + 1) junk, List.drop_left,
        List.append_nil]

/-- An array is added as it should be if and only if its paths print in fewer than 4096
characters, there is room for it and its strings, and the arrays before it are on the heap or
none of them has elements. -/
theorem addsArray_iff (hholds : HoldsArrays arr records)
    (hshape : ∀ item ∈ a.data, item.shaped a.type = true) :
    AddsArray hdr arr records a ↔ a.prints = true ∧ Fits hdr.strBuf a.records ∧
      ArrayRoom arr (a.data.length + 1) ∧ ComesThrough arr := by
  constructor
  · intro h
    obtain ⟨hdr₁, b₁, id₁, hadd₁, -⟩ := h fun _ => ⟨CMPIBase.null.simple, 0, .num 0⟩
    obtain ⟨⟨hprints, hfits⟩, hroom⟩ :=
      (addClArrayTo_isSome_iff hshape).mp (by rw [hadd₁]; rfl)
    refine ⟨hprints, hfits, hroom, ?_⟩
    cases arr with
    | none => exact fun b hb => absurd hb (by simp)
    | some b₀ =>
      refine (@kept_iff _ _ (a.data.length + 1) hholds).mp fun junk j x o hx ho => ?_
      obtain ⟨hdr', b, id, hadd, hkeeps, -⟩ := h junk
      obtain ⟨cells, -, -, hsome⟩ := addClArrayTo_eq_some hadd
      obtain ⟨hindex, hcells, -⟩ := hsome b₀ rfl
      exact (hasRecord_iff hholds.1.pointAt hx hindex hcells).mp (hkeeps j x hx) o ho
  · intro ⟨hprints, hfits, hroom, hcomes⟩ junk
    obtain ⟨⟨hdr', b, id⟩, hadd⟩ := Option.isSome_iff_exists.mp
      ((@addClArrayTo_isSome_iff _ _ _ junk hshape).mpr ⟨⟨hprints, hfits⟩, hroom⟩)
    refine ⟨hdr', b, id, hadd, fun j x hx => ?_, holdsArray_new hshape hadd⟩
    cases arr with
    | none =>
      rw [show records = [] from hholds] at hx
      exact absurd hx (by simp)
    | some b₀ =>
      obtain ⟨cells, -, -, hsome⟩ := addClArrayTo_eq_some hadd
      obtain ⟨hindex, hcells, -⟩ := hsome b₀ rfl
      exact (hasRecord_iff hholds.1.pointAt hx hindex hcells).mpr fun o ho =>
        (kept_iff hholds).mpr hcomes junk j x o hx ho

end Adding

/-- An array of one number, as it is stored. -/
def oneNumber (n : Nat) : List Stored :=
  [⟨CMPIBase.uint32.arrayOf, 0, .num 1⟩, ⟨CMPIBase.uint32.simple, 0, .num n⟩]

/-- The buffer of an object with one such array. -/
def oneArrayBuf : IndexedBuf Stored :=
  { index := [0], iMax := 16, iMalloced := true, iAlloc := 32, cells := oneNumber 7, bMax := 16 }

def oneArray (malloced : Bool) : ClArrayBuf :=
  if malloced then ⟨oneArrayBuf, true⟩ else .flat oneArrayBuf

theorem holdsArrays_oneArray (malloced : Bool) :
    HoldsArrays (some (oneArray malloced)) [oneNumber 7] := by
  have hholds : oneArrayBuf.Holds [oneNumber 7] :=
    ⟨⟨⟨Nat.zero_le _, List.prefix_rfl⟩, trivial⟩, Nat.le_refl _⟩
  cases malloced with
  | true => exact ⟨hholds, fun h => absurd h (by simp [oneArray])⟩
  | false =>
    refine flat_holds hholds fun c hc => ⟨0, oneNumber 7, 0, rfl, rfl, Nat.zero_le c, ?_⟩
    rw [Nat.zero_add]
    exact hc

theorem addsArray_iff_oneArray :
    AddsArray (.new .inst) (some (oneArray true)) [oneNumber 7] ⟨.uint32, [⟨0, .word 8⟩]⟩ :=
  (addsArray_iff (holdsArrays_oneArray true) (by decide)).mpr
    ⟨rfl, trivial, ⟨by decide, by decide⟩, fun b hb => Or.inl (by
      rw [← Option.some.inj hb]
      rfl)⟩

/-- The element of the array of a rebuilt object is lost when another array is added. -/
theorem not_addsArray : HoldsArrays (some (oneArray false)) [oneNumber 7] ∧
    ¬ AddsArray (.new .inst) (some (oneArray false)) [oneNumber 7]
      ⟨.uint32, [⟨0, .word 8⟩]⟩ := by
  refine ⟨holdsArrays_oneArray false, fun h => ?_⟩
  obtain ⟨hdr', b, id, hadd, hkeeps, -⟩ := h fun _ => ⟨CMPIBase.uint32.simple, 0, .num 0⟩
  obtain ⟨cells, -, -, hsome⟩ := addClArrayTo_eq_some hadd
  obtain ⟨hindex, hcells, -⟩ := hsome _ rfl
  have hpre := (hasRecord_iff (holdsArrays_oneArray false).1.pointAt rfl hindex hcells).mp
    (hkeeps 0 _ rfl) 0 rfl
  exact absurd hpre (by decide)

end Sfcb.Object
