import Mathlib.Algebra.Ring.Nat
import Sfcb.FileRepository.Store

/-!
# The file repository is a finite map

`Holds r fs items` ties the two files of a class to a list of entries: the data file
is the blobs one behind the other, the index file has their records in the same order,
each with the offset at which the blob is. Every operation keeps it
(`addBlob_holds`, `deleteBlob_holds`), with the list changed as a map would be, and
reading is reading the list. `repository_follows` puts this together for whole runs.

There are two conditions beyond what the functions are meant for. The size of the
index has to fit an `int`. And a class must not be called `idx` or `inst` when a blob
is replaced or deleted while another is kept: those are the names of the temporary
files of `rebuild`, which then removes what it wrote.
-/

namespace Sfcb.FileRepository

open Sfcb.Lib

/-! ## What the files hold -/

/-- The data file of the entries. -/
def blobs (items : List Item) : List UInt8 := items.flatMap Item.blob

/-- The index file of the entries, the first blob being at `ofs`. -/
def texts : (ofs : Nat) → List Item → CStr
  | _, [] => []
  | ofs, it :: items => it.text ofs ++ texts (ofs + it.blob.length) items

/-- Each record is in order and has room for its offset. -/
def Placed : (ofs : Nat) → List Item → Prop
  | _, [] => True
  | ofs, it :: items =>
    it.Ok ∧ ofs < 2 ^ 31 ∧ (numeral 10 ofs).length ≤ it.width ∧
      Placed (ofs + it.blob.length) items

/-- A file that is there only if it has something in it. -/
def fileOf (bytes : List UInt8) : Option (List UInt8) := if bytes = [] then none else some bytes

/-- The files of the class hold the entries. -/
structure Holds (r : Repository) (fs : Files) (items : List Item) : Prop where
  data : fs r.fnd = fileOf (blobs items)
  index : fs r.fnx = fileOf (texts 0 items)
  placed : Placed 0 items
  nodup : (items.map Item.id).Nodup
  small : (blobs items).length < 2 ^ 31

@[simp] theorem blobs_nil : blobs [] = [] := rfl

@[simp] theorem blobs_cons (it : Item) (items : List Item) :
    blobs (it :: items) = it.blob ++ blobs items := List.flatMap_cons

@[simp] theorem blobs_append (as bs : List Item) : blobs (as ++ bs) = blobs as ++ blobs bs :=
  List.flatMap_append

theorem texts_append (as bs : List Item) (ofs : Nat) :
    texts ofs (as ++ bs) = texts ofs as ++ texts (ofs + (blobs as).length) bs := by
  induction as generalizing ofs with
  | nil => rfl
  | cons a as ih =>
    show a.text ofs ++ texts (ofs + a.blob.length) (as ++ bs) = _
    rw [ih, blobs_cons, List.length_append, ← Nat.add_assoc, ← List.append_assoc]
    rfl

theorem placed_append (as bs : List Item) (ofs : Nat) :
    Placed ofs (as ++ bs) ↔ Placed ofs as ∧ Placed (ofs + (blobs as).length) bs := by
  induction as generalizing ofs with
  | nil => simp [Placed]
  | cons a as ih =>
    simp only [List.cons_append, Placed, ih, blobs_cons, List.length_append, ← Nat.add_assoc,
      and_assoc]

/-- Records have room for lower offsets. -/
theorem Placed.mono {items : List Item} {ofs ofs' : Nat} (h : Placed ofs items)
    (hle : ofs' ≤ ofs) : Placed ofs' items := by
  induction items generalizing ofs ofs' with
  | nil => exact trivial
  | cons it items ih =>
    obtain ⟨hok, hofs, hwidth, hrest⟩ := h
    have hfewer := length_numeral_mono (show 2 ≤ 10 by omega) hle
    exact ⟨hok, by omega, by omega, ih hrest (by omega)⟩

theorem Item.size_pos (it : Item) : 0 < it.size := by
  unfold Item.size
  omega

/-- No record is empty. -/
theorem length_le_length_texts {items : List Item} {ofs : Nat} (h : Placed ofs items) :
    items.length ≤ (texts ofs items).length := by
  induction items generalizing ofs with
  | nil => exact Nat.le_refl _
  | cons it items ih =>
    obtain ⟨hok, -, hwidth, hrest⟩ := h
    have hpos := it.size_pos
    have := ih hrest
    show items.length + 1 ≤ (it.text ofs ++ _).length
    rw [List.length_append, Item.length_text hok hwidth]
    omega

/-- The index is as long as its records. -/
theorem length_texts {items : List Item} {ofs : Nat} (h : Placed ofs items) :
    (texts ofs items).length = (items.map Item.size).sum := by
  induction items generalizing ofs with
  | nil => rfl
  | cons it items ih =>
    obtain ⟨hok, -, hwidth, hrest⟩ := h
    show (it.text ofs ++ texts (ofs + it.blob.length) items).length = _
    rw [List.length_append, Item.length_text hok hwidth, ih hrest, List.map_cons, List.sum_cons]

theorem texts_eq_nil_iff {items : List Item} {ofs : Nat} (h : Placed ofs items) :
    texts ofs items = [] ↔ items = [] := by
  have := length_le_length_texts h
  constructor
  · intro hnil
    rw [hnil] at this
    exact List.length_eq_zero_iff.mp (by simpa using this)
  · rintro rfl
    rfl

theorem blobs_eq_nil_iff {items : List Item} {ofs : Nat} (h : Placed ofs items) :
    blobs items = [] ↔ items = [] := by
  cases items with
  | nil => simp
  | cons it items => simp [h.1.blob]

/-! ## Finding a record -/

/-- The index after reading the record of `it`. -/
def BlobIndex.at (bi : BlobIndex) (it : Item) (ofs : Nat) : BlobIndex :=
  { bi with pos := bi.next, len := it.size, blen := it.blob.length, bofs := ofs,
            next := bi.next + it.size }

/-- The comparison takes `key` for `id`. -/
def SameKey (ignorecase : Bool) (key id : CStr) : Prop :=
  if ignorecase then fold key = fold id else key = id

instance (ignorecase : Bool) (key id : CStr) : Decidable (SameKey ignorecase key id) :=
  inferInstanceAs (Decidable (if ignorecase then _ else _))

theorem sameKey_refl (ignorecase : Bool) (key : CStr) : SameKey ignorecase key key := by
  cases ignorecase <;> exact rfl

theorem SameKey.length_eq {ignorecase : Bool} {key id : CStr} (h : SameKey ignorecase key id) :
    key.length = id.length := by
  cases ignorecase with
  | false => exact congrArg List.length h
  | true =>
    have hlen := congrArg List.length (show fold key = fold id from h)
    rwa [fold, fold, List.length_map, List.length_map] at hlen

/-- The comparison is one of strings of the same length. -/
theorem differs_iff {kbptr key id : CStr} (hkb : kbptr.take id.length = id)
    (hlen : key.length = id.length) (ignorecase : Bool) :
    differs kbptr key ignorecase ↔ ¬ SameKey ignorecase key id := by
  cases ignorecase with
  | false =>
    show strcmp (kbptr.take key.length) (key.take key.length) ≠ 0 ↔ ¬ key = id
    rw [hlen, hkb, ← hlen, List.take_length, ne_eq, strcmp_eq_zero_iff hlen.symm]
    exact not_congr eq_comm
  | true =>
    show strcmp (fold (kbptr.take key.length)) (fold (key.take key.length)) ≠ 0 ↔
      ¬ fold key = fold id
    rw [hlen, hkb, ← hlen, List.take_length, ne_eq,
      strcmp_eq_zero_iff (by rw [fold, fold, List.length_map, List.length_map, hlen])]
    exact not_congr eq_comm

/-- Reading a record: it is found if there is no key to look for, or if it has that key. -/
theorem getIndexRecordCase_text {bi : BlobIndex} {it : Item} {ofs : Nat} {front rest : CStr}
    (hindex : bi.index = front ++ (it.text ofs ++ rest)) (hnext : bi.next = front.length)
    (hok : it.Ok) (hofs : ofs < 2 ^ 31) (hwidth : (numeral 10 ofs).length ≤ it.width)
    (key : CStr) (ignorecase : Bool) :
    getIndexRecordCase bi key ignorecase
      = if key = [] ∨ SameKey ignorecase key it.id then .found (bi.at it ofs) it.id
        else .mismatch (bi.at it ofs) := by
  have hlen := Item.length_text hok hwidth
  have hpos := it.size_pos
  obtain ⟨kbptr, hparse, hkb⟩ := parseRecord_text hok hofs rest
  have hlt : ¬ (bi.next ≥ bi.index.length) := by
    rw [hindex, hnext, List.length_append, List.length_append, hlen]
    omega
  have hdrop : bi.index.drop bi.next = it.text ofs ++ rest := by
    rw [hindex, hnext, List.drop_left]
  unfold getIndexRecordCase
  rw [if_neg hlt, hdrop, hparse]
  show (if 0 < key.length ∧ (key.length ≠ it.id.length ∨ differs kbptr key ignorecase) then
    RecordResult.mismatch (bi.at it ofs) else .found (bi.at it ofs) (kbptr.take it.id.length)) = _
  rw [hkb]
  have hiff : 0 < key.length ∧ (key.length ≠ it.id.length ∨ differs kbptr key ignorecase)
      ↔ ¬ (key = [] ∨ SameKey ignorecase key it.id) := by
    rw [List.length_pos_iff, not_or]
    refine and_congr_right fun _ => ?_
    by_cases hkl : key.length = it.id.length
    · rw [differs_iff hkb hkl]
      exact or_iff_right (fun h => h hkl)
    · exact iff_of_true (Or.inl hkl) (fun h => hkl h.length_eq)
  by_cases hfound : key = [] ∨ SameKey ignorecase key it.id
  · rw [if_neg (fun h => hiff.mp h hfound), if_pos hfound]
  · rw [if_pos (hiff.mpr hfound), if_neg hfound]

/-- A round of the search that meets the record of `it`. -/
theorem locateLoop_text {bi : BlobIndex} {it : Item} {ofs fuel : Nat} {front rest : CStr}
    (hindex : bi.index = front ++ (it.text ofs ++ rest)) (hnext : bi.next = front.length)
    (hok : it.Ok) (hofs : ofs < 2 ^ 31) (hwidth : (numeral 10 ofs).length ≤ it.width)
    {key : CStr} (hkey : key ≠ []) (ignorecase : Bool) :
    locateLoop key ignorecase (fuel + 1) bi
      = if SameKey ignorecase key it.id then some (bi.at it ofs)
        else locateLoop key ignorecase fuel (bi.at it ofs) := by
  have hpos := it.size_pos
  have hlt : bi.next < bi.index.length := by
    rw [hindex, hnext, List.length_append, List.length_append, Item.length_text hok hwidth]
    omega
  unfold locateLoop
  rw [if_pos hlt, getIndexRecordCase_text hindex hnext hok hofs hwidth]
  by_cases heq : SameKey ignorecase key it.id
  · rw [if_pos (Or.inr heq), if_pos heq]
  · rw [if_neg (not_or.mpr ⟨hkey, heq⟩), if_neg heq]
    cases fuel with
    | zero => rfl
    | succ fuel => rfl

/-- Behind the record of `it` the index goes on with the other records. -/
theorem BlobIndex.at_index {bi : BlobIndex} {it : Item} {ofs : Nat} {front : CStr}
    {items : List Item} (hindex : bi.index = front ++ texts ofs (it :: items))
    (hnext : bi.next = front.length) (hok : it.Ok)
    (hwidth : (numeral 10 ofs).length ≤ it.width) :
    (bi.at it ofs).index = (front ++ it.text ofs) ++ texts (ofs + it.blob.length) items ∧
      (bi.at it ofs).next = (front ++ it.text ofs).length := by
  constructor
  · show bi.index = _
    rw [hindex, List.append_assoc]
    rfl
  · show bi.next + it.size = _
    rw [List.length_append, Item.length_text hok hwidth, hnext]

/-- A key that is not there is not found. -/
theorem locateLoop_absent {key : CStr} (hkey : key ≠ []) {ignorecase : Bool} {items : List Item} :
    ∀ {bi : BlobIndex} {front : CStr} {ofs fuel : Nat},
      bi.index = front ++ texts ofs items → bi.next = front.length → Placed ofs items →
      (∀ it ∈ items, ¬ SameKey ignorecase key it.id) → items.length < fuel →
      locateLoop key ignorecase fuel bi = none := by
  induction items with
  | nil =>
    intro bi front ofs fuel hindex hnext _ _ hfuel
    obtain ⟨fuel, rfl⟩ : ∃ k, fuel = k + 1 := ⟨fuel - 1, by omega⟩
    have hend : ¬ bi.next < bi.index.length := by
      rw [hindex, hnext, List.length_append]
      show ¬ front.length < front.length + 0
      omega
    unfold locateLoop
    rw [if_neg hend]
  | cons it items ih =>
    intro bi front ofs fuel hindex hnext hplaced hmem hfuel
    obtain ⟨hok, hofs, hwidth, hrest⟩ := hplaced
    obtain ⟨fuel, rfl⟩ : ∃ k, fuel = k + 1 := ⟨fuel - 1, by omega⟩
    obtain ⟨hindex', hnext'⟩ := BlobIndex.at_index hindex hnext hok hwidth
    rw [locateLoop_text hindex hnext hok hofs hwidth hkey, if_neg (hmem it List.mem_cons_self)]
    exact ih hindex' hnext' hrest (fun it h => hmem it (List.mem_cons_of_mem _ h))
      (by simpa using hfuel)

/-- The first record with the key is found. -/
theorem locateLoop_found {key : CStr} (hkey : key ≠ []) {ignorecase : Bool} {it : Item}
    (hit : SameKey ignorecase key it.id) {bs as : List Item} :
    ∀ {bi : BlobIndex} {front : CStr} {ofs fuel : Nat},
      bi.index = front ++ texts ofs (as ++ it :: bs) → bi.next = front.length →
      Placed ofs (as ++ it :: bs) → (∀ a ∈ as, ¬ SameKey ignorecase key a.id) →
      as.length < fuel →
      locateLoop key ignorecase fuel bi
        = some ({ bi with next := (front ++ texts ofs as).length }.at it
            (ofs + (blobs as).length)) := by
  induction as with
  | nil =>
    intro bi front ofs fuel hindex hnext hplaced _ hfuel
    obtain ⟨hok, hofs, hwidth, -⟩ := hplaced
    obtain ⟨fuel, rfl⟩ : ∃ k, fuel = k + 1 := ⟨fuel - 1, by omega⟩
    rw [locateLoop_text hindex hnext hok hofs hwidth hkey, if_pos hit]
    show some (bi.at it ofs) = some ({ bi with next := (front ++ []).length }.at it (ofs + 0))
    rw [Nat.add_zero, List.append_nil, ← hnext]
  | cons a as ih =>
    intro bi front ofs fuel hindex hnext hplaced hmem hfuel
    obtain ⟨hok, hofs, hwidth, hrest⟩ := hplaced
    obtain ⟨fuel, rfl⟩ : ∃ k, fuel = k + 1 := ⟨fuel - 1, by omega⟩
    obtain ⟨hindex', hnext'⟩ := BlobIndex.at_index hindex hnext hok hwidth
    have hloop := ih hindex' hnext' hrest (fun b h => hmem b (List.mem_cons_of_mem _ h))
      (show as.length < fuel by simpa using hfuel)
    have hbefore : ofs + a.blob.length + (blobs as).length = ofs + (blobs (a :: as)).length := by
      rw [blobs_cons, List.length_append, Nat.add_assoc]
    have hfront : front ++ a.text ofs ++ texts (ofs + a.blob.length) as
        = front ++ texts ofs (a :: as) := List.append_assoc ..
    rw [hbefore, hfront] at hloop
    rw [locateLoop_text hindex hnext hok hofs hwidth hkey, if_neg (hmem a List.mem_cons_self),
      hloop]
    rfl

/-! ## Rewriting the files -/

private theorem adjustLoop_round {index index' : CStr} {dp l adj fuel : Nat} {r r' : Option Nat}
    (hlt : dp < index.length) (h : adjustRecord index dp adj r = some (index', (l : Int), r')) :
    adjustLoop adj (fuel + 1) index dp r = adjustLoop adj fuel index' (dp + l) r' := by
  rw [adjustLoop, if_pos hlt, h]
  show adjustLoop adj fuel index' ((dp : Int) + l).toNat r' = _
  rw [show ((dp : Int) + l).toNat = dp + l by omega]

/-- Records whose blobs all move down by `adj`. -/
theorem adjustLoop_texts {adj : Nat} {items : List Item} :
    ∀ {pre : CStr} {ofs fuel : Nat} {r : Option Nat}, Placed ofs items → adj ≤ ofs →
      items.length < fuel →
      adjustLoop adj fuel (pre ++ texts ofs items) pre.length r
        = some (pre ++ texts (ofs - adj) items) := by
  induction items with
  | nil =>
    intro pre ofs fuel r _ _ hfuel
    obtain ⟨fuel, rfl⟩ : ∃ k, fuel = k + 1 := ⟨fuel - 1, by omega⟩
    show adjustLoop adj (fuel + 1) (pre ++ []) pre.length r = some (pre ++ [])
    rw [List.append_nil, adjustLoop, if_neg (Nat.lt_irrefl _)]
  | cons it items ih =>
    intro pre ofs fuel r hplaced hadj hfuel
    obtain ⟨hok, hofs, hwidth, hrest⟩ := hplaced
    obtain ⟨fuel, rfl⟩ : ∃ k, fuel = k + 1 := ⟨fuel - 1, by omega⟩
    have hpos := it.size_pos
    -- one round lowers the offset of one record inside its width
    obtain ⟨new, r', hround, hlen, hnew⟩ := adjustRecord_text hok hofs hwidth pre
      (texts (ofs + it.blob.length) items) adj r
    have hlt : pre.length < (pre ++ (it.text ofs ++ texts (ofs + it.blob.length) items)).length := by
      rw [List.length_append, List.length_append, Item.length_text hok hwidth]
      omega
    rw [hnew hadj] at hround hlen
    have hloop : adjustLoop adj fuel
        ((pre ++ it.text (ofs - adj)) ++ texts (ofs + it.blob.length) items)
        (pre ++ it.text (ofs - adj)).length r' = _ :=
      ih hrest (by omega) (show items.length < fuel by simpa using hfuel)
    rw [List.length_append, hlen, List.append_assoc, List.append_assoc] at hloop
    show adjustLoop adj (fuel + 1) (pre ++ (it.text ofs ++ _)) pre.length r
      = some (pre ++ (it.text (ofs - adj) ++ texts (ofs - adj + it.blob.length) items))
    rw [adjustLoop_round hlt hround, hloop,
      show ofs + it.blob.length - adj = ofs - adj + it.blob.length by omega]

/-- `adjust` from the record of a blob that goes away: its own record gets some other
text of the same length, the blobs behind move into its place. -/
theorem adjust_texts {it : Item} {items : List Item} {ofs : Nat}
    (hplaced : Placed ofs (it :: items)) (front : CStr) :
    ∃ new, adjust (front ++ texts ofs (it :: items)) front.length it.blob.length
        = some (front ++ (new ++ texts ofs items)) ∧ new.length = it.size := by
  have hlength := length_le_length_texts hplaced
  obtain ⟨hok, hofs, hwidth, hrest⟩ := hplaced
  have hpos := it.size_pos
  have htext := Item.length_text hok hwidth
  obtain ⟨new, r', hround, hlen, -⟩ := adjustRecord_text hok hofs hwidth front
    (texts (ofs + it.blob.length) items) it.blob.length none
  have hlt : front.length
      < (front ++ (it.text ofs ++ texts (ofs + it.blob.length) items)).length := by
    rw [List.length_append, List.length_append, htext]
    omega
  refine ⟨new, ?_, hlen⟩
  have hfuel : items.length < (front ++ texts ofs (it :: items)).length := by
    rw [List.length_append]
    rw [List.length_cons] at hlength
    omega
  have hfront : (front ++ new).length = front.length + it.size := by rw [List.length_append, hlen]
  have hloop : adjustLoop it.blob.length (front ++ texts ofs (it :: items)).length
      ((front ++ new) ++ texts (ofs + it.blob.length) items) (front ++ new).length r' = _ :=
    adjustLoop_texts hrest (Nat.le_add_left it.blob.length ofs) hfuel
  rw [hfront, List.append_assoc, List.append_assoc, Nat.add_sub_cancel] at hloop
  unfold adjust
  rw [← hloop]
  exact adjustLoop_round hlt hround

/-- The data file has the name of a temporary file of `rebuild`. -/
def Repository.Clashes (r : Repository) : Prop :=
  r.cls.map toLower = lit "idx" ∨ r.cls.map toLower = lit "inst"

instance (r : Repository) : Decidable r.Clashes := inferInstanceAs (Decidable (_ ∨ _))

namespace Repository

variable (r : Repository)

theorem xn_ne_dn : r.xn ≠ r.dn := by
  intro h
  have := List.append_cancel_left h
  exact absurd this (by decide)

theorem fnd_ne_fnx : r.fnd ≠ r.fnx := by
  intro h
  have hlen := congrArg List.length h
  unfold fnx at hlen
  rw [List.length_append, show (lit ".idx").length = 4 from rfl] at hlen
  omega

theorem fnx_ne_xn : r.fnx ≠ r.xn := by
  intro h
  have hlen := congrArg List.length h
  unfold fnx fnd xn at hlen
  simp only [List.length_append, show (lit ".idx").length = 4 from rfl,
    show (lit "idx").length = 3 from rfl] at hlen
  omega

theorem fnx_ne_dn : r.fnx ≠ r.dn := by
  intro h
  unfold fnx fnd dn at h
  rw [List.append_assoc] at h
  have h := List.append_cancel_left h
  have hlen := congrArg List.length h
  rw [List.length_append, show (lit ".idx").length = 4 from rfl,
    show (lit "inst").length = 4 from rfl] at hlen
  rw [List.length_eq_zero_iff.mp (show (r.cls.map toLower).length = 0 by omega)] at h
  exact absurd h (by decide)

variable {r}

theorem fnd_ne_xn (h : ¬ r.Clashes) : r.fnd ≠ r.xn :=
  fun he => h (Or.inl (List.append_cancel_left he))

theorem fnd_ne_dn (h : ¬ r.Clashes) : r.fnd ≠ r.dn :=
  fun he => h (Or.inr (List.append_cancel_left he))

end Repository

/-- The temporary files after the data is written. -/
theorem rebuildData_spec {r : Repository} (hclash : ¬ r.Clashes) {fs : Files} {bi : BlobIndex}
    {data : List UInt8} (hdata : fs r.fnd = some data) (hdlen : bi.dlen = data.length)
    (hle : bi.bofs + bi.blen ≤ data.length) (blob : List UInt8) :
    rebuildData r fs bi blob r.dn
        = some (data.take bi.bofs ++ data.drop (bi.bofs + bi.blen) ++ blob) ∧
      rebuildData r fs bi blob r.xn = some [] := by
  have hxd := r.xn_ne_dn
  have hfx := Repository.fnd_ne_xn hclash
  have hfd := Repository.fnd_ne_dn hclash
  let fs₀ := (fs.create r.xn).create r.dn
  let fs₁ := if bi.bofs ≠ 0 then copy r fs₀ r.dn r.fnd bi.bofs 0 else fs₀
  let len := bi.dlen - (bi.bofs + bi.blen)
  let fs₂ := if len ≠ 0 then copy r fs₁ r.dn r.fnd len (bi.bofs + bi.blen) else fs₁
  -- the old data file is there to read from all the time
  have hold₀ : fs₀ r.fnd = some data := by
    show ((fs.put r.xn _).put r.dn _) r.fnd = _
    rw [Files.put_of_ne _ hfd, Files.put_of_ne _ hfx, hdata]
  have hold₁ : fs₁ r.fnd = some data := by
    rw [← hold₀]
    exact Files.ite_append_of_ne fs₀ hfd _ _
  have hread : ∀ {f : Files} {ofs n : Nat}, f r.fnd = some data → ofs + n ≤ data.length →
      f.read r.fnd ofs n r.junk = (data.drop ofs).take n := by
    intro f ofs n hf hn
    have hc : f.content r.fnd = data := by rw [Files.content, hf, Option.getD_some]
    rw [Files.read_of_le (by rw [hc]; exact hn), hc]
  have hdn₀ : fs₀ r.dn = some [] := Files.put_self _ _ _
  have hdn₁ : fs₁ r.dn = some (data.take bi.bofs) := by
    refine (Files.ite_append_self hdn₀ ?_).trans ?_
    · intro hzero
      rw [hread hold₀ (by omega), Decidable.not_not.mp hzero, List.take_zero]
    · rw [hread hold₀ (by omega), List.drop_zero, List.nil_append]
  have hdn₂ : fs₂ r.dn = some (data.take bi.bofs ++ data.drop (bi.bofs + bi.blen)) := by
    refine (Files.ite_append_self hdn₁ ?_).trans ?_
    · intro hzero
      rw [hread hold₁ (by omega), Decidable.not_not.mp hzero, List.take_zero]
    · have hall : (data.drop (bi.bofs + bi.blen)).take len = data.drop (bi.bofs + bi.blen) :=
        List.take_of_length_le (by rw [List.length_drop]; omega)
      rw [hread hold₁ (by omega), hall]
  have hxn₂ : fs₂ r.xn = some [] := by
    refine (Files.ite_append_of_ne fs₁ hxd _ _).trans ((Files.ite_append_of_ne fs₀ hxd _ _).trans ?_)
    show ((fs.put r.xn _).put r.dn _) r.xn = _
    rw [Files.put_of_ne _ hxd, Files.put_self]
  constructor
  · exact Files.ite_append_self hdn₂ (fun h => Decidable.not_not.mp h)
  · exact (Files.ite_append_of_ne fs₂ hxd _ _).trans hxn₂

/-- A temporary file gets its name, or goes if it is empty. -/
theorem rename_or_remove {fs : Files} {tmp name : CStr} {file : List UInt8}
    (htmp : fs tmp = some file) (hname : fs name = none) (hne : name ≠ tmp) :
    (if file.length ≠ 0 then fs.rename tmp name else fs.remove tmp) name = fileOf file ∧
      ∀ other, other ≠ tmp → other ≠ name →
        (if file.length ≠ 0 then fs.rename tmp name else fs.remove tmp) other = fs other := by
  unfold fileOf
  by_cases hnil : file = []
  · rw [if_neg (by simp [hnil]), if_pos hnil]
    refine ⟨?_, fun other h _ => Files.put_of_ne _ h _⟩
    show fs.put tmp none name = none
    rw [Files.put_of_ne _ hne, hname]
  · rw [if_pos (by simp [hnil]), if_neg hnil, Files.rename_eq htmp]
    refine ⟨Files.put_self _ _ _, fun other h h' => ?_⟩
    rw [Files.put_of_ne _ h', Files.put_of_ne _ h]

/-- The temporary files take the place of the old ones. -/
theorem rebuildNames_spec {r : Repository} (hclash : ¬ r.Clashes) {fs : Files}
    {data index : List UInt8} (hdn : fs r.dn = some data) (hxn : fs r.xn = some index) :
    rebuildNames r fs data.length index.length r.fnd = fileOf data ∧
      rebuildNames r fs data.length index.length r.fnx = fileOf index := by
  have hxd := r.xn_ne_dn
  have hfx := Repository.fnd_ne_xn hclash
  have hfd := Repository.fnd_ne_dn hclash
  have hix := r.fnx_ne_xn
  have hid := r.fnx_ne_dn
  have hfi := r.fnd_ne_fnx
  let fs₀ := (fs.remove r.fnd).remove r.fnx
  have hother : ∀ n, n ≠ r.fnd → n ≠ r.fnx → fs₀ n = fs n := by
    intro n h h'
    show (fs.put r.fnd none).put r.fnx none n = _
    rw [Files.put_of_ne _ h', Files.put_of_ne _ h]
  have hfnd : fs₀ r.fnd = none := by
    show (fs.put r.fnd none).put r.fnx none r.fnd = _
    rw [Files.put_of_ne _ hfi, Files.put_self]
  have hfnx : fs₀ r.fnx = none := Files.put_self _ _ _
  obtain ⟨hdata, hkeep⟩ := rename_or_remove
    ((hother r.dn hfd.symm hid.symm).trans hdn) hfnd hfd
  let fs₁ := if data.length ≠ 0 then fs₀.rename r.dn r.fnd else fs₀.remove r.dn
  have hxn₁ : fs₁ r.xn = some index :=
    (hkeep r.xn hxd hfx.symm).trans ((hother r.xn hfx.symm hix.symm).trans hxn)
  have hfnx₁ : fs₁ r.fnx = none := (hkeep r.fnx hid hfi.symm).trans hfnx
  obtain ⟨hindex, hkeep'⟩ := rename_or_remove hxn₁ hfnx₁ hix
  exact ⟨(hkeep' r.fnd hfx hfi).trans hdata, hindex⟩

/-- `rebuild` computes sizes and pieces of the index from the places of the current
record. -/
theorem rebuild_eq {r : Repository} {fs : Files} {bi : BlobIndex} {front new rest : CStr}
    {blob : List UInt8} (hle : bi.bofs + bi.blen ≤ bi.dlen)
    (hbound : bi.pos + bi.len ≤ bi.index.length) (hpos : bi.pos = front.length)
    (hlen : bi.len = new.length)
    (hadjust : adjust bi.index bi.pos bi.blen = some (front ++ (new ++ rest))) :
    rebuild r fs bi blob
      = some (rebuildNames r
          (let fs := if front.length ≠ 0 then (rebuildData r fs bi blob).append r.xn front
            else rebuildData r fs bi blob
          if rest.length ≠ 0 then fs.append r.xn rest else fs)
          (bi.dlen - bi.blen + blob.length) (front ++ rest).length) := by
  have hofs : (front ++ (new ++ rest)).length - (bi.pos + bi.len) = rest.length := by
    rw [hpos, hlen, List.length_append, List.length_append]
    omega
  have hdrop : (front ++ (new ++ rest)).drop (bi.pos + bi.len) = rest := by
    rw [hpos, hlen, ← List.append_assoc, List.drop_left' (by rw [List.length_append])]
  have htake : (front ++ (new ++ rest)).take bi.pos = front := by
    rw [hpos, List.take_left]
  have hdt : bi.bofs + (bi.dlen - (bi.bofs + bi.blen)) + blob.length
      = bi.dlen - bi.blen + blob.length := by omega
  unfold rebuild
  rw [if_neg (by omega), hadjust]
  simp only [hofs, hdrop, htake, hdt]
  rw [hpos, List.length_append]

/-- `rebuild`, when the two files get along with the temporary ones: the bytes and the
record of the current blob are left out, the new blob is put at the end. -/
theorem rebuild_spec {r : Repository} (hclash : ¬ r.Clashes) {fs : Files} {bi : BlobIndex}
    {data front new rest : List UInt8} (blob : List UInt8) (hdata : fs r.fnd = some data)
    (hdlen : bi.dlen = data.length) (hle : bi.bofs + bi.blen ≤ data.length)
    (hbound : bi.pos + bi.len ≤ bi.index.length) (hpos : bi.pos = front.length)
    (hlen : bi.len = new.length)
    (hadjust : adjust bi.index bi.pos bi.blen = some (front ++ (new ++ rest))) :
    ∃ fs', rebuild r fs bi blob = some fs' ∧
      fs' r.fnd = fileOf (data.take bi.bofs ++ data.drop (bi.bofs + bi.blen) ++ blob) ∧
      fs' r.fnx = fileOf (front ++ rest) := by
  have hxd := r.xn_ne_dn
  obtain ⟨hdn, hxn⟩ := rebuildData_spec hclash hdata hdlen hle blob
  have hempty : ∀ ys : CStr, ¬ ys.length ≠ 0 → ys = [] :=
    fun ys h => List.length_eq_zero_iff.mp (Decidable.not_not.mp h)
  have hxn₁ := Files.ite_append_self hxn (hempty front)
  have hxn₂ := Files.ite_append_self hxn₁ (hempty rest)
  have hdn₁ := (Files.ite_append_of_ne (rebuildData r fs bi blob) hxd.symm (front.length ≠ 0)
    front).trans hdn
  have hdn₂ := (Files.ite_append_of_ne _ hxd.symm (rest.length ≠ 0) rest).trans hdn₁
  have hdt : bi.dlen - bi.blen + blob.length
      = (data.take bi.bofs ++ data.drop (bi.bofs + bi.blen) ++ blob).length := by
    simp only [List.length_append, List.length_take, List.length_drop]
    omega
  refine ⟨_, rebuild_eq (by omega) hbound hpos hlen hadjust, ?_⟩
  rw [hdt]
  exact rebuildNames_spec hclash hdn₂ hxn₂

/-- `rebuild` when nothing is left: both files go, whatever they are called. -/
theorem rebuild_last {r : Repository} {fs : Files} {bi : BlobIndex} {new : CStr}
    (hbofs : bi.bofs = 0) (hblen : bi.blen = bi.dlen)
    (hbound : bi.pos + bi.len ≤ bi.index.length) (hpos : bi.pos = 0) (hlen : bi.len = new.length)
    (hadjust : adjust bi.index bi.pos bi.blen = some new) :
    ∃ fs', rebuild r fs bi [] = some fs' ∧ fs' r.fnd = none ∧ fs' r.fnx = none := by
  have hadjust' : adjust bi.index bi.pos bi.blen = some (([] : CStr) ++ (new ++ [])) := by
    rw [hadjust, List.append_nil, List.nil_append]
  have hstays : ∀ (f : Files) (m n : CStr), f m = none → f.remove n m = none := by
    intro f m n h
    unfold Files.remove Files.put
    split
    · rfl
    · exact h
  have hpos' : bi.pos = ([] : CStr).length := hpos
  refine ⟨_, rebuild_eq (by omega) hbound hpos' hlen hadjust', ?_⟩
  rw [hblen, Nat.sub_self]
  constructor
  · exact hstays _ _ _ (hstays _ _ _ (hstays _ _ _ (Files.put_self _ _ _)))
  · exact hstays _ _ _ (hstays _ _ _ (Files.put_self _ _ _))

/-- A stored blob leaves, and `news` come behind the others. -/
theorem rebuild_holds {r : Repository} {fs : Files} {as bs : List Item} {it : Item}
    (news : List Item) (bi : BlobIndex) (hplaced : Placed 0 (as ++ it :: (bs ++ news)))
    (hdata : fs r.fnd = some (blobs (as ++ it :: bs)))
    (hindex : bi.index = texts 0 (as ++ it :: (bs ++ news)))
    (hpos : bi.pos = (texts 0 as).length) (hlen : bi.len = it.size)
    (hblen : bi.blen = it.blob.length) (hbofs : bi.bofs = (blobs as).length)
    (hdlen : bi.dlen = (blobs (as ++ it :: bs)).length)
    (hclash : r.Clashes → as ++ (bs ++ news) = []) :
    ∃ fs', rebuild r fs bi (blobs news) = some fs' ∧
      fs' r.fnd = fileOf (blobs (as ++ (bs ++ news))) ∧
      fs' r.fnx = fileOf (texts 0 (as ++ (bs ++ news))) := by
  obtain ⟨-, hrest⟩ := (placed_append as (it :: (bs ++ news)) 0).mp hplaced
  rw [Nat.zero_add] at hrest
  have hindex' : bi.index = texts 0 as ++ texts (blobs as).length (it :: (bs ++ news)) := by
    rw [hindex, texts_append, Nat.zero_add]
  -- the records behind the one left out are moved to the front, with smaller offsets
  obtain ⟨new, hadjust, hnew⟩ := adjust_texts hrest (texts 0 as)
  rw [← hindex', ← hpos, ← hblen] at hadjust
  have hbound : bi.pos + bi.len ≤ bi.index.length := by
    obtain ⟨hok, -, hwidth, -⟩ := hrest
    rw [hindex', hpos, hlen, List.length_append]
    show _ ≤ _ + (it.text (blobs as).length ++ _).length
    rw [List.length_append, Item.length_text hok hwidth]
    omega
  by_cases hc : r.Clashes
  · -- nothing stays, so that nothing is renamed
    obtain ⟨rfl, hbn⟩ := List.append_eq_nil_iff.mp (hclash hc)
    obtain ⟨rfl, rfl⟩ := List.append_eq_nil_iff.mp hbn
    have hdlen' : bi.blen = bi.dlen := by rw [hblen, hdlen]; simp
    have hadjust' : adjust bi.index bi.pos bi.blen = some new := by
      rw [hadjust]
      show some ([] ++ (new ++ [])) = _
      simp
    exact rebuild_last hbofs hdlen' hbound hpos (hlen.trans hnew.symm) hadjust'
  · have hle : bi.bofs + bi.blen ≤ (blobs (as ++ it :: bs)).length := by
      rw [hbofs, hblen, blobs_append, blobs_cons, List.length_append, List.length_append]
      omega
    obtain ⟨fs', hrun, hfnd, hfnx⟩ := rebuild_spec hc (blobs news) hdata hdlen hle hbound
      hpos (hlen.trans hnew.symm) hadjust
    refine ⟨fs', hrun, ?_, ?_⟩
    · have htake : (blobs (as ++ it :: bs)).take bi.bofs = blobs as := by
        rw [hbofs, blobs_append, List.take_left]
      have hdrop : (blobs (as ++ it :: bs)).drop (bi.bofs + bi.blen) = blobs bs := by
        rw [hbofs, hblen, blobs_append, blobs_cons, ← List.append_assoc,
          List.drop_left' (List.length_append ..)]
      rw [hfnd, htake, hdrop, List.append_assoc, blobs_append, blobs_append]
    · rw [hfnx, texts_append as, Nat.zero_add]

/-! ## The operations on what is held -/

section Operations

variable {r : Repository} {fs : Files} {items : List Item}

/-- The size of the index file. -/
def indexLength (r : Repository) (fs : Files) : Nat := (fs.content r.fnx).length

theorem fileOf_of_ne_nil {bytes : List UInt8} (h : bytes ≠ []) : fileOf bytes = some bytes :=
  if_neg h

theorem Holds.fnd_of_ne_nil (h : Holds r fs items) (hne : items ≠ []) :
    fs r.fnd = some (blobs items) := by
  rw [h.data, fileOf_of_ne_nil (fun hnil => hne ((blobs_eq_nil_iff h.placed).mp hnil))]

theorem Holds.fnx_of_ne_nil (h : Holds r fs items) (hne : items ≠ []) :
    fs r.fnx = some (texts 0 items) := by
  rw [h.index, fileOf_of_ne_nil (fun hnil => hne ((texts_eq_nil_iff h.placed).mp hnil))]

theorem Holds.content_fnd (h : Holds r fs items) : fs.content r.fnd = blobs items := by
  rw [Files.content, h.data, fileOf]
  split
  · next hnil => rw [hnil, Option.getD_none]
  · rfl

theorem Holds.indexLength_eq (h : Holds r fs items) :
    indexLength r fs = (texts 0 items).length := by
  rw [indexLength, Files.content, h.index, fileOf]
  split
  · next hnil => rw [hnil, Option.getD_none]
  · rfl

/-- `getIndex` of a class without entries. -/
theorem Holds.getIndex_nil (h : Holds r fs []) (elen : Nat) :
    getIndex r fs elen false = some (fs, none) := by
  have hnone : fs r.fnx = none := h.index
  unfold getIndex
  rw [hnone]
  rfl

/-- `getIndex` reads the index of a class that has entries. -/
theorem Holds.getIndex_eq (h : Holds r fs items) (hne : items ≠ []) {elen : Nat}
    (hpos : 0 < elen) (hfits : indexLength r fs + elen < 2 ^ 31) (mki : Bool) :
    getIndex r fs elen mki = some (fs, some (BlobIndex.new (texts 0 items) elen)) := by
  rw [h.indexLength_eq] at hfits
  unfold getIndex
  rw [h.fnx_of_ne_nil hne]
  exact if_pos ⟨hpos, hfits⟩

theorem elen_pos (r : Repository) (id : CStr) : 0 < r.elen id := Nat.succ_pos _

/-- The search of the whole index for a key that is not there. -/
theorem indxLocateCase_absent (hplaced : Placed 0 items) {key : CStr} (hkey : key ≠ [])
    {ignorecase : Bool} (hmem : ∀ it ∈ items, ¬ SameKey ignorecase key it.id) (elen : Nat) :
    indxLocateCase (BlobIndex.new (texts 0 items) elen) key ignorecase = none := by
  have hfuel : items.length < (texts 0 items).length + 1 :=
    Nat.lt_succ_of_le (length_le_length_texts hplaced)
  have hindex : (BlobIndex.new (texts 0 items) elen).index = [] ++ texts 0 items := rfl
  exact locateLoop_absent hkey hindex rfl hplaced hmem hfuel

theorem indxLocate_absent (hplaced : Placed 0 items) {id : CStr} (hid : id ≠ [])
    (hmem : id ∉ items.map Item.id) (elen : Nat) :
    indxLocate (BlobIndex.new (texts 0 items) elen) id = none := by
  refine indxLocateCase_absent hplaced hid (fun it hit hsame => hmem ?_) elen
  rw [show id = it.id from hsame]
  exact List.mem_map_of_mem hit

/-- A new index that is at the record of `it`, with `as` in front. -/
def BlobIndex.located (index : CStr) (elen : Nat) (as : List Item) (it : Item) : BlobIndex :=
  { BlobIndex.new index elen with next := (texts 0 as).length }.at it (blobs as).length

/-- The search of the whole index for a key that is there. -/
theorem indxLocateCase_found {as bs : List Item} {it : Item}
    (hplaced : Placed 0 (as ++ it :: bs)) {key : CStr} {ignorecase : Bool}
    (hit : SameKey ignorecase key it.id) (hmem : ∀ a ∈ as, ¬ SameKey ignorecase key a.id)
    (elen : Nat) :
    indxLocateCase (BlobIndex.new (texts 0 (as ++ it :: bs)) elen) key ignorecase
      = some (BlobIndex.located (texts 0 (as ++ it :: bs)) elen as it) := by
  have hfuel : as.length < (texts 0 (as ++ it :: bs)).length + 1 := by
    have := length_le_length_texts hplaced
    rw [List.length_append] at this
    omega
  have hindex : (BlobIndex.new (texts 0 (as ++ it :: bs)) elen).index
      = [] ++ texts 0 (as ++ it :: bs) := rfl
  have hid := ((placed_append as (it :: bs) 0).mp hplaced).2.1.id.nonempty
  have hkey : key ≠ [] := by
    rintro rfl
    exact hid (List.length_eq_zero_iff.mp hit.length_eq.symm)
  have hloop := locateLoop_found hkey hit hindex rfl hplaced hmem hfuel
  rw [Nat.zero_add, List.nil_append] at hloop
  exact hloop

theorem indxLocate_found {as bs : List Item} {it : Item} (hplaced : Placed 0 (as ++ it :: bs))
    (hmem : it.id ∉ as.map Item.id) (elen : Nat) :
    indxLocate (BlobIndex.new (texts 0 (as ++ it :: bs)) elen) it.id
      = some (BlobIndex.located (texts 0 (as ++ it :: bs)) elen as it) := by
  refine indxLocateCase_found hplaced (sameKey_refl false _) (fun a ha hsame => hmem ?_) elen
  rw [show it.id = a.id from hsame]
  exact List.mem_map_of_mem ha

/-- The entries without the one of `id`. -/
def without (id : CStr) (items : List Item) : List Item := items.filter (fun it => it.id != id)

theorem without_of_not_mem {id : CStr} (h : id ∉ items.map Item.id) : without id items = items := by
  refine List.filter_eq_self.mpr fun it hit => ?_
  rw [bne_iff_ne]
  rintro rfl
  exact h (List.mem_map_of_mem hit)

/-- A key that is there splits the entries at the one it belongs to. -/
theorem split_of_mem {id : CStr} (hnodup : (items.map Item.id).Nodup)
    (h : id ∈ items.map Item.id) :
    ∃ as it bs, items = as ++ it :: bs ∧ it.id = id ∧ id ∉ as.map Item.id ∧
      without id items = as ++ bs := by
  obtain ⟨it, hit, rfl⟩ := List.mem_map.mp h
  obtain ⟨as, bs, rfl⟩ := List.append_of_mem hit
  rw [List.map_append, List.map_cons, List.nodup_append] at hnodup
  obtain ⟨-, hbs, hdisjoint⟩ := hnodup
  have has : it.id ∉ as.map Item.id := fun ha => hdisjoint _ ha _ (by simp) rfl
  have hbs' : it.id ∉ bs.map Item.id := (List.nodup_cons.mp hbs).1
  refine ⟨as, it, bs, rfl, rfl, has, ?_⟩
  unfold without
  rw [List.filter_append, List.filter_cons_of_neg (by simp)]
  exact congrArg₂ (· ++ ·) (without_of_not_mem has) (without_of_not_mem hbs')

theorem nodup_without (hnodup : (items.map Item.id).Nodup) (id : CStr) :
    ((without id items).map Item.id).Nodup :=
  hnodup.sublist (List.filter_sublist.map _)

theorem not_mem_without (id : CStr) (items : List Item) :
    id ∉ (without id items).map Item.id := by
  intro h
  obtain ⟨it, hit, rfl⟩ := List.mem_map.mp h
  have := (List.mem_filter.mp hit).2
  simp at this

/-- What is behind a blob that leaves has room in its place. -/
theorem Placed.remove {as rest : List Item} {it : Item} (h : Placed 0 (as ++ it :: rest)) :
    Placed 0 (as ++ rest) := by
  obtain ⟨has, -, -, -, hrest⟩ := (placed_append as (it :: rest) 0).mp h
  exact (placed_append as rest 0).mpr ⟨has, hrest.mono (Nat.le_add_right _ _)⟩

/-- `deleteBlob` takes the entry out. -/
theorem deleteBlob_holds (h : Holds r fs items) {id : CStr} (hid : id ≠ [])
    (hfits : indexLength r fs + r.elen id < 2 ^ 31)
    (hclash : r.Clashes → id ∈ items.map Item.id → without id items = []) :
    ∃ fs' rc, deleteBlob r fs id = some (fs', rc) ∧ Holds r fs' (without id items) := by
  have hplaced := h.placed
  by_cases hnil : items = []
  · subst hnil
    refine ⟨fs, 1, ?_, h⟩
    unfold deleteBlob
    rw [h.getIndex_nil]
  have hget := h.getIndex_eq hnil (elen_pos r id) hfits false
  by_cases hmem : id ∈ items.map Item.id
  · obtain ⟨as, it, bs, rfl, rfl, has, hwithout⟩ := split_of_mem h.nodup hmem
    have hnodup := nodup_without h.nodup it.id
    rw [hwithout] at hnodup hclash ⊢
    have hfile := h.fnd_of_ne_nil hnil
    let bi := { BlobIndex.located (texts 0 (as ++ it :: bs)) (r.elen it.id) as it with
      dlen := (blobs (as ++ it :: bs)).length }
    -- nothing is added, so that the files are rebuilt without `it`
    obtain ⟨fs', hrun, hfnd, hfnx⟩ := rebuild_holds [] bi (by rwa [List.append_nil]) hfile
      (by rw [List.append_nil]; rfl) rfl rfl rfl rfl rfl
      (fun hc => by rw [List.append_nil, hclash hc hmem])
    rw [List.append_nil] at hfnd hfnx
    refine ⟨fs', 0, ?_, ⟨hfnd, hfnx, hplaced.remove, hnodup, ?_⟩⟩
    · unfold deleteBlob
      rw [hget]
      simp only [indxLocate_found hplaced has, hfile]
      show (rebuild r fs bi (blobs [])).map (·, (0 : Int)) = _
      rw [hrun]
      rfl
    · have := h.small
      simp only [blobs_append, blobs_cons, List.length_append] at this ⊢
      omega
  · rw [without_of_not_mem hmem]
    refine ⟨fs, 1, ?_, h⟩
    unfold deleteBlob
    rw [hget]
    simp only [indxLocate_absent hplaced hid hmem]

/-- The entry a new blob gets, behind the others. -/
def newItem (items : List Item) (id : CStr) (blob : List UInt8) : Item :=
  ⟨id, blob, (numeral 10 (blobs items).length).length⟩

/-- The record of a new entry fits into what is allocated for it. -/
theorem newItem_size (r : Repository) {id : CStr} {blob : List UInt8}
    (hsmall : (blobs items).length < 2 ^ 31) (hok : (newItem items id blob).Ok) :
    (newItem items id blob).size < r.elen id := by
  have hten : ∀ {n}, n < 2 ^ 31 → (numeral 10 n).length ≤ 9 + 1 :=
    fun h => length_numeral_le_of_lt (by omega) 9 (by omega)
  have hofs := hten hsmall
  have hblob := hten hok.small
  have hlt := hok.size
  have hid : id.length < 10 ^ (2 + 1) := by
    unfold Item.size newItem at hlt
    simp only at hlt
    omega
  have hdigits := length_numeral_le_of_lt (by omega) 2 hid
  unfold Item.size newItem at *
  unfold Repository.elen
  simp only at *
  omega

/-- The record `addBlob` prints for it. -/
theorem indexRecord_newItem {id : CStr} {blob : List UInt8} (hok : (newItem items id blob).Ok) :
    indexRecord id blob.length (blobs items).length
      = (newItem items id blob).text (blobs items).length := by
  have hwidth : (newItem items id blob).width = (numeral 10 (blobs items).length).length := rfl
  have hrecord := indexRecord_eq hok hwidth
  exact hrecord

theorem indexRecord_lt_elen (r : Repository) {id : CStr} {blob : List UInt8}
    (hsmall : (blobs items).length < 2 ^ 31) (hok : (newItem items id blob).Ok) :
    ¬ r.elen id ≤ (indexRecord id blob.length (blobs items).length).length := by
  rw [indexRecord_newItem hok, Item.length_text hok (Nat.le_refl _)]
  exact Nat.not_le.mpr (newItem_size r hsmall hok)

/-- The index with the new record behind it. -/
theorem texts_newItem {id : CStr} {blob : List UInt8} (hok : (newItem items id blob).Ok) :
    texts 0 (items ++ [newItem items id blob])
      = texts 0 items ++ indexRecord id blob.length (blobs items).length := by
  rw [texts_append, Nat.zero_add, indexRecord_newItem hok]
  show _ ++ ((newItem items id blob).text _ ++ []) = _
  rw [List.append_nil]

theorem placed_newItem (hplaced : Placed 0 items) (hsmall : (blobs items).length < 2 ^ 31)
    {id : CStr} {blob : List UInt8} (hok : (newItem items id blob).Ok) :
    Placed 0 (items ++ [newItem items id blob]) := by
  refine (placed_append items _ 0).mpr ⟨hplaced, ?_⟩
  rw [Nat.zero_add]
  exact ⟨hok, hsmall, Nat.le_refl _, trivial⟩

/-- A new entry behind entries without that key. -/
theorem nodup_newItem (hnodup : (items.map Item.id).Nodup) (id : CStr) (blob : List UInt8) :
    ((without id items ++ [newItem items id blob]).map Item.id).Nodup := by
  rw [List.map_append, List.nodup_append]
  refine ⟨nodup_without hnodup id, by simp, ?_⟩
  intro a ha b hb hab
  have hb : b = id := List.mem_singleton.mp hb
  subst hb hab
  exact not_mem_without _ _ ha

/-- `addBlob` to a class without entries: both files are new. -/
theorem addBlob_first (h : Holds r fs []) {id : CStr} {blob : List UInt8}
    (hok : (newItem [] id blob).Ok) (hfits : indexLength r fs + r.elen id < 2 ^ 31) :
    ∃ fs', addBlob r fs id blob = some (fs', 0) ∧ Holds r fs' [newItem [] id blob] := by
  have hfi := r.fnd_ne_fnx
  have hzero : (blobs []).length = 0 := rfl
  have hroom := indexRecord_lt_elen r h.small hok
  have htexts := texts_newItem hok
  rw [hzero] at hroom htexts
  have hnone : fs r.fnx = none := h.index
  have hplaced := placed_newItem h.placed h.small hok
  rw [List.nil_append] at htexts hplaced
  have hblobs : blobs [newItem [] id blob] = blob := List.append_nil _
  let fs₁ := ((fs.create r.fnx).create r.fnd).append r.fnd blob
  have hfnd₁ : fs₁ r.fnd = some blob := by
    show Files.put _ r.fnd (some ((((fs.create r.fnx).put r.fnd _) r.fnd).getD [] ++ blob)) r.fnd = _
    rw [Files.put_self, Files.put_self]
    rfl
  have hfnx₁ : fs₁.content r.fnx = [] := by
    show ((((fs.put r.fnx (some [])).put r.fnd _).put r.fnd _) r.fnx).getD [] = _
    rw [Files.put_of_ne _ hfi.symm, Files.put_of_ne _ hfi.symm, Files.put_self]
    rfl
  refine ⟨fs₁.overwrite r.fnx (indexRecord id blob.length 0), ?_, ?_⟩
  · unfold addBlob getIndex
    rw [hnone]
    simp only [Bool.true_eq_false, if_false, if_pos (show r.elen id < 2 ^ 31 by omega)]
    have hempty : (BlobIndex.new [] (r.elen id)).index.length = 0 := rfl
    rw [if_pos hempty, if_neg hroom]
  · refine ⟨?_, ?_, hplaced, List.pairwise_singleton .., ?_⟩
    · show fs₁.put r.fnx _ r.fnd = _
      have hblob : blob ≠ [] := hok.blob
      rw [Files.put_of_ne _ hfi, hfnd₁, hblobs, fileOf_of_ne_nil hblob]
    · show fs₁.put r.fnx _ r.fnx = _
      have hne : texts 0 [newItem [] id blob] ≠ [] :=
        fun hnil => absurd ((texts_eq_nil_iff hplaced).mp hnil) (by simp)
      have hnone' : texts 0 [] = [] := rfl
      rw [Files.put_self, hfnx₁, List.drop_nil, List.append_nil, fileOf_of_ne_nil hne, htexts,
        hnone', List.nil_append]
    · rw [hblobs]
      exact hok.small

/-- `addBlob` of a new key appends to both files. -/
theorem addBlob_append (h : Holds r fs items) (hnil : items ≠ []) {id : CStr}
    {blob : List UInt8} (hmem : id ∉ items.map Item.id) (hok : (newItem items id blob).Ok)
    (hfits : indexLength r fs + r.elen id < 2 ^ 31)
    (hsmall : (blobs (items ++ [newItem items id blob])).length < 2 ^ 31) :
    ∃ fs', addBlob r fs id blob = some (fs', 0) ∧
      Holds r fs' (items ++ [newItem items id blob]) := by
  have hfi := r.fnd_ne_fnx
  have hid : id ≠ [] := hok.id.nonempty
  have hroom := indexRecord_lt_elen r h.small hok
  have hplaced := placed_newItem h.placed h.small hok
  have hne : items ++ [newItem items id blob] ≠ [] := by simp
  have hblobs : blobs (items ++ [newItem items id blob]) = blobs items ++ blob := by
    rw [blobs_append]
    exact congrArg _ (List.append_nil _)
  have hindexne : (BlobIndex.new (texts 0 items) (r.elen id)).index.length ≠ 0 := fun h0 =>
    hnil ((texts_eq_nil_iff h.placed).mp (List.length_eq_zero_iff.mp h0))
  have hget := h.getIndex_eq hnil (elen_pos r id) hfits true
  let fs₁ := fs.append r.fnd blob
  -- appending to the data file leaves the index file alone
  have hfnx₁ : fs₁.content r.fnx = texts 0 items := by
    show ((fs.put r.fnd _) r.fnx).getD [] = _
    rw [Files.put_of_ne _ hfi.symm, h.fnx_of_ne_nil hnil, Option.getD_some]
  refine ⟨fs₁.overwrite r.fnx
    (texts 0 items ++ indexRecord id blob.length (blobs items).length), ?_, ?_⟩
  · unfold addBlob
    rw [hget]
    simp only [if_neg hindexne, indxLocate_absent h.placed hid hmem, h.content_fnd,
      if_neg hroom]
    rfl
  · refine ⟨?_, ?_, hplaced, ?_, hsmall⟩
    · show (fs.put r.fnd (some (fs.content r.fnd ++ blob))).put r.fnx _ r.fnd = _
      have hblobsne : blobs (items ++ [newItem items id blob]) ≠ [] :=
        fun h0 => hne ((blobs_eq_nil_iff hplaced).mp h0)
      rw [Files.put_of_ne _ hfi, Files.put_self, h.content_fnd, fileOf_of_ne_nil hblobsne, hblobs]
    · have htextsne : texts 0 (items ++ [newItem items id blob]) ≠ [] :=
        fun h0 => hne ((texts_eq_nil_iff hplaced).mp h0)
      show fs₁.put r.fnx _ r.fnx = _
      rw [Files.put_self, hfnx₁, fileOf_of_ne_nil htextsne, texts_newItem hok,
        List.drop_of_length_le (by rw [List.length_append]; omega), List.append_nil]
    · have hnodup := nodup_newItem h.nodup id blob
      rwa [without_of_not_mem hmem] at hnodup

/-- `addBlob` of a key that is there takes the old entry out. -/
theorem addBlob_replace (h : Holds r fs items) {id : CStr} {blob : List UInt8}
    (hmem : id ∈ items.map Item.id) (hok : (newItem items id blob).Ok)
    (hfits : indexLength r fs + r.elen id < 2 ^ 31)
    (hsmall : (blobs (without id items ++ [newItem items id blob])).length < 2 ^ 31)
    (hclash : ¬ r.Clashes) :
    ∃ fs', addBlob r fs id blob = some (fs', 0) ∧
      Holds r fs' (without id items ++ [newItem items id blob]) := by
  have hroom := indexRecord_lt_elen r h.small hok
  have hnodup := nodup_newItem h.nodup id blob
  have hplacedNew := placed_newItem h.placed h.small hok
  have htexts := texts_newItem hok
  have hnil : items ≠ [] := by
    rintro rfl
    simp at hmem
  have hindexne : (BlobIndex.new (texts 0 items) (r.elen id)).index.length ≠ 0 := fun h0 =>
    hnil ((texts_eq_nil_iff h.placed).mp (List.length_eq_zero_iff.mp h0))
  have hget := h.getIndex_eq hnil (elen_pos r id) hfits true
  have hfile := h.fnd_of_ne_nil hnil
  -- the new record is put behind the index before the old one is taken out
  generalize hnew : newItem items id blob = new at *
  have hblob : blobs [new] = blob := by
    rw [← hnew]
    exact List.append_nil _
  obtain ⟨as, it, bs, rfl, rfl, has, hwithout⟩ := split_of_mem h.nodup hmem
  have hassoc : as ++ it :: bs ++ [new] = as ++ it :: (bs ++ [new]) := by
    rw [List.append_assoc, List.cons_append]
  rw [hwithout, List.append_assoc] at hnodup hsmall ⊢
  rw [hassoc] at hplacedNew htexts
  let bi := { BlobIndex.located (texts 0 (as ++ it :: bs)) (r.elen it.id) as it with
    index := texts 0 (as ++ it :: bs)
      ++ indexRecord it.id blob.length (blobs (as ++ it :: bs)).length
    dlen := (blobs (as ++ it :: bs)).length }
  obtain ⟨fs', hrun, hfnd, hfnx⟩ := rebuild_holds [new] bi hplacedNew hfile htexts.symm
    rfl rfl rfl rfl rfl (fun hc => absurd hc hclash)
  rw [hblob] at hrun
  refine ⟨fs', ?_, ⟨hfnd, hfnx, hplacedNew.remove, hnodup, hsmall⟩⟩
  unfold addBlob
  rw [hget]
  simp only [if_neg hindexne, indxLocate_found h.placed has, hfile, if_neg hroom]
  show (rebuild r fs bi blob).map (·, (0 : Int)) = _
  rw [hrun]
  rfl

/-- `addBlob` puts the new entry behind the others and takes out an old one. -/
theorem addBlob_holds (h : Holds r fs items) {id : CStr} {blob : List UInt8}
    (hok : (newItem items id blob).Ok) (hfits : indexLength r fs + r.elen id < 2 ^ 31)
    (hsmall : (blobs (without id items ++ [newItem items id blob])).length < 2 ^ 31)
    (hclash : r.Clashes → id ∉ items.map Item.id) :
    ∃ fs', addBlob r fs id blob = some (fs', 0) ∧
      Holds r fs' (without id items ++ [newItem items id blob]) := by
  by_cases hmem : id ∈ items.map Item.id
  · exact addBlob_replace h hmem hok hfits hsmall (fun hc => hclash hc hmem)
  · rw [without_of_not_mem hmem] at hsmall ⊢
    by_cases hnil : items = []
    · subst hnil
      exact addBlob_first h hok hfits
    · exact addBlob_append h hnil hmem hok hfits hsmall

end Operations

end Sfcb.FileRepository
