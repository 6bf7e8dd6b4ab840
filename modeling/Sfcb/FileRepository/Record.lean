import Sfcb.Lib.Numeral

/-!
# Index records

The index of a class is a text of records, one for each blob:

    length  keyLength key blobLength blobOffset CR LF

with the numbers in decimal. The length counts the whole record; it is printed over
the blanks a record starts with, which is why it has room for three digits. When a
blob in front goes away the offset is printed again inside the width of the old
digits, right-justified.

`parseRecord_text` reads a record back, `adjustRecord_text` says what rewriting the
offset does to it.
-/

namespace Sfcb.FileRepository

open Sfcb.Lib

/-! ## Writing and reading a record -/

/-- What `addBlob` prints first: `"    %zd %s %d %lu\r\n"`. Its length is `es`. -/
def recordBody (id : CStr) (len ofs : Nat) : CStr :=
  lit "    " ++ numeral 10 id.length ++ lit " " ++ id ++ lit " " ++ numeral 10 len ++ lit " "
    ++ numeral 10 ofs ++ lit "\r\n"

/-- The record: `"%d"` with `es` over the start of it, then a blank for the terminator of
the latter. -/
def indexRecord (id : CStr) (len ofs : Nat) : CStr :=
  let idxe := recordBody id len ofs
  let front := numeral 10 idxe.length
  front ++ 32 :: idxe.drop (front.length + 1)

/-- `delims`. -/
def isDelim (b : UInt8) : Bool := b == 32 || b == 9

/-- Trims blanks, then reads the digits of a number; `none` if there are none, or if
the number is below `least`. -/
def nextNumber (least : Int) (tokenptr : CStr) : Option (Nat × CStr) :=
  let tokenptr := tokenptr.drop (strspn tokenptr isDelim)
  let slen := strspn tokenptr isDigit
  if slen = 0 then none
  else if atoi tokenptr < least then none
  else some ((atoi tokenptr).toNat, tokenptr.drop slen)

/-- What a record says: its length, the key, and where the blob is. -/
structure IndexRecord where
  elen : Nat
  ekl : Nat
  /-- `kbptr` with the text behind it -/
  kbptr : CStr
  blen : Nat
  bofs : Nat
  deriving DecidableEq, Repr

/-- The reading part of `getIndexRecordCase`; `none` is its `-1`. -/
def parseRecord (tokenptr : CStr) : Option IndexRecord := do
  let (elen, tokenptr) ← nextNumber 1 tokenptr
  let (ekl, tokenptr) ← nextNumber 1 tokenptr
  -- the key is taken by its length, whatever it is made of
  let kbptr := tokenptr.drop (strspn tokenptr isDelim)
  let (blen, tokenptr) ← nextNumber 1 (kbptr.drop ekl)
  let (bofs, _) ← nextNumber 0 tokenptr
  return { elen, ekl, kbptr, blen, bofs }

/-- The loop of `adjust` that walks back to a blank, keeping the last `'\r'` it met;
`none` if it leaves the text. -/
def scanBack (index : CStr) : (p : Nat) → (r : Option Nat) → Option (Nat × Option Nat)
  | 0, r => if index.getD 0 0 = 32 then some (0, r) else none
  | p + 1, r =>
    if index.getD (p + 1) 0 = 32 then some (p + 1, r)
    else scanBack index p (if index.getD (p + 1) 0 = 13 then some (p + 1) else r)

/-- One round of `adjust`: the record at `dp` gets its offset lowered by `adj`. Gives
the text, the length of the record, and `r` for the next round. -/
def adjustRecord (index : CStr) (dp adj : Nat) (r : Option Nat) :
    Option (CStr × Int × Option Nat) :=
  let l := atoi (index.drop dp)
  if dp + l < 2 then none
  else
    match scanBack index (dp + l - 2).toNat r with
    | some (blank, some cr) =>
      let p := blank + 1
      if cr < p then none
      else
        let o := atoi (index.drop p) - adj
        -- `str` is blank up to `r - p`, then comes the number; what is copied starts `sl` in
        let str := List.replicate (cr - p) 32 ++ printInt o
        let sl := (printInt o).length
        some (index.take p ++ ((str.drop sl).take (cr - p) ++ index.drop cr), l, some cr)
    | _ => none

/-! ## The shape of a record -/

/-- An entry of the index: a key, the blob that belongs to it, and the room that was
made for the digits of the offset. -/
structure Item where
  id : CStr
  blob : List UInt8
  width : Nat
  deriving DecidableEq, Repr

/-- `n` at the right end of `width` places. -/
def rightJustified (width n : Nat) : CStr :=
  List.replicate (width - (numeral 10 n).length) 32 ++ numeral 10 n

/-- The bytes of the record. -/
def Item.size (it : Item) : Nat :=
  4 + (numeral 10 it.id.length).length + 1 + it.id.length + 1
    + (numeral 10 it.blob.length).length + 1 + it.width + 2

/-- The record up to the length of the blob. -/
def Item.front (it : Item) : CStr :=
  numeral 10 it.size ++ (List.replicate (4 - (numeral 10 it.size).length) 32
    ++ (numeral 10 it.id.length ++ 32 :: (it.id ++ 32 :: numeral 10 it.blob.length)))

/-- The record for a blob at `ofs`. -/
def Item.text (it : Item) (ofs : Nat) : CStr :=
  it.front ++ 32 :: (rightJustified it.width ofs ++ [13, 10])

/-- The keys the index is made for. -/
structure ValidId (id : CStr) : Prop where
  nonempty : id ≠ []
  noNul : 0 ∉ id
  noDelim : ∀ b ∈ id.head?, isDelim b = false

instance : (id : CStr) → Decidable (ValidId id)
  | [] => isFalse fun h => h.nonempty rfl
  | b :: bs =>
    decidable_of_iff (0 ∉ b :: bs ∧ isDelim b = false)
      ⟨fun h => ⟨List.cons_ne_nil b bs, h.1, fun _ hc => Option.some.inj hc ▸ h.2⟩,
        fun h => ⟨h.noNul, h.noDelim b rfl⟩⟩

/-- What holds of every entry. -/
structure Item.Ok (it : Item) : Prop where
  id : ValidId it.id
  blob : it.blob ≠ []
  small : it.blob.length < 2 ^ 31
  size : it.size < 1000

theorem length_rightJustified {width n : Nat} (h : (numeral 10 n).length ≤ width) :
    (rightJustified width n).length = width := by
  unfold rightJustified
  rw [List.length_append, List.length_replicate]
  omega

theorem Item.length_front {it : Item} (hok : it.Ok) :
    it.front.length + it.width + 3 = it.size := by
  have hsize := length_numeral_le_of_lt (by omega) 2 (show it.size < 10 ^ (2 + 1) from hok.size)
  unfold Item.front
  simp only [List.length_append, List.length_replicate, List.length_cons]
  unfold Item.size at hsize ⊢
  omega

theorem Item.length_text {it : Item} {ofs : Nat} (hok : it.Ok)
    (h : (numeral 10 ofs).length ≤ it.width) : (it.text ofs).length = it.size := by
  rw [← Item.length_front hok]
  unfold Item.text
  simp only [List.length_append, List.length_cons, List.length_nil, length_rightJustified h]
  omega

theorem recordBody_eq (id : CStr) (len ofs : Nat) :
    recordBody id len ofs = List.replicate 4 32 ++ (numeral 10 id.length ++ 32 :: (id
      ++ 32 :: (numeral 10 len ++ 32 :: (numeral 10 ofs ++ [13, 10])))) := by
  have hblank : lit " " = [32] := rfl
  have hblanks : lit "    " = List.replicate 4 32 := rfl
  have hend : lit "\r\n" = [13, 10] := rfl
  unfold recordBody
  simp only [hblank, hblanks, hend, List.append_assoc, List.cons_append, List.nil_append]

/-- `es` is the size of a record that has exactly the room its offset needs. -/
theorem length_recordBody (it : Item) {ofs : Nat} (hwidth : it.width = (numeral 10 ofs).length) :
    (recordBody it.id it.blob.length ofs).length = it.size := by
  unfold Item.size
  simp only [recordBody_eq, List.length_append, List.length_replicate, List.length_cons,
    List.length_nil, hwidth]
  omega

/-- What `addBlob` prints is such a record. -/
theorem indexRecord_eq {it : Item} {ofs : Nat} (hok : it.Ok)
    (hwidth : it.width = (numeral 10 ofs).length) :
    indexRecord it.id it.blob.length ofs = it.text ofs := by
  have hsize := length_numeral_le_of_lt (by omega) 2 (show it.size < 10 ^ (2 + 1) from hok.size)
  unfold indexRecord
  simp only [length_recordBody it hwidth]
  rw [recordBody_eq, List.drop_append_of_le_length (by rw [List.length_replicate]; omega),
    List.drop_replicate]
  have hpad : 4 - (numeral 10 it.size).length = 4 - ((numeral 10 it.size).length + 1) + 1 := by
    omega
  unfold Item.text Item.front rightJustified
  rw [hpad, hwidth, Nat.sub_self, List.replicate_succ]
  simp only [List.append_assoc, List.cons_append, List.replicate_zero, List.nil_append]

/-! ## Reading a record back -/

theorem isDelim_of_isDigit {b : UInt8} (h : isDigit b = true) : isDelim b = false := by
  simp [isDigit, UInt8.le_iff_toNat_le] at h
  simp [isDelim, ← UInt8.toNat_inj]
  omega

private theorem strspn_delims {k : Nat} {rest : CStr}
    (hrest : ∀ b ∈ rest.head?, isDelim b = false) :
    strspn (List.replicate k 32 ++ rest) isDelim = k := by
  rw [strspn_append _ hrest, List.length_replicate]
  intro b hb
  rw [List.eq_of_mem_replicate hb]
  rfl

/-- A number behind blanks is read, up to the text behind it. -/
theorem nextNumber_numeral {n : Nat} (hn : n < 2 ^ 31) {least : Int} (hleast : least ≤ n)
    (k : Nat) {rest : CStr} (hrest : EndsNumber rest) :
    nextNumber least (List.replicate k 32 ++ (numeral 10 n ++ rest)) = some (n, rest) := by
  obtain ⟨d, ds, hcons, hd⟩ := numeral_eq_cons n
  have hhead : ∀ b ∈ (numeral 10 n ++ rest).head?, isDelim b = false := by
    intro b hb
    rw [hcons, List.cons_append, List.head?_cons, Option.mem_some_iff] at hb
    rw [← hb, isDelim_of_isDigit hd]
  have hpos : (numeral 10 n).length ≠ 0 := by rw [hcons]; simp
  unfold nextNumber
  simp only [strspn_delims hhead]
  rw [List.drop_left' (List.length_replicate ..), strspn_numeral hrest, if_neg hpos,
    atoi_numeral hn hrest, if_neg (by omega), List.drop_left, Int.toNat_natCast]

/-- A record is read for what it is, whatever comes behind it. -/
theorem parseRecord_text {it : Item} {ofs : Nat} (hok : it.Ok) (hofs : ofs < 2 ^ 31)
    (rest : CStr) :
    ∃ kbptr, parseRecord (it.text ofs ++ rest)
        = some { elen := it.size, ekl := it.id.length, kbptr,
                 blen := it.blob.length, bofs := ofs } ∧
      kbptr.take it.id.length = it.id := by
  have hdigits := length_numeral_le_of_lt (by omega) 2 (show it.size < 10 ^ (2 + 1) from hok.size)
  have hsize : it.size < 2 ^ 31 := by have := hok.size; omega
  have hkey : it.id.length < 2 ^ 31 := by unfold Item.size at hsize; omega
  have hidpos : 0 < it.id.length := List.length_pos_iff.mpr hok.id.nonempty
  have hblobpos : 0 < it.blob.length := List.length_pos_iff.mpr hok.blob
  have hsizepos : 0 < it.size := by unfold Item.size; omega
  -- what is left to read behind each of the numbers
  let afterOfs : CStr := 13 :: 10 :: rest
  let afterBlob : CStr :=
    List.replicate (it.width - (numeral 10 ofs).length + 1) 32 ++ (numeral 10 ofs ++ afterOfs)
  let kbptr : CStr := it.id ++ (List.replicate 1 32 ++ (numeral 10 it.blob.length ++ afterBlob))
  let afterSize : CStr := List.replicate (3 - (numeral 10 it.size).length + 1) 32
    ++ (numeral 10 it.id.length ++ (List.replicate 1 32 ++ kbptr))
  have htext : it.text ofs ++ rest
      = List.replicate 0 32 ++ (numeral 10 it.size ++ afterSize) := by
    have hblanks : 4 - (numeral 10 it.size).length = 3 - (numeral 10 it.size).length + 1 := by
      omega
    simp [afterSize, kbptr, afterBlob, afterOfs, Item.text, Item.front, rightJustified,
      List.replicate_succ, hblanks]
  have hkb : ∀ b ∈ kbptr.head?, isDelim b = false := by
    intro b hb
    apply hok.id.noDelim b
    obtain ⟨c, cs, hid⟩ := List.exists_cons_of_ne_nil hok.id.nonempty
    rw [show kbptr = it.id ++ _ from rfl, hid] at hb
    rw [hid]
    exact hb
  have h1 : nextNumber 1 (it.text ofs ++ rest) = some (it.size, afterSize) := by
    rw [htext]
    exact nextNumber_numeral hsize (by omega) _ (endsNumber_cons rfl _)
  have h2 : nextNumber 1 afterSize = some (it.id.length, List.replicate 1 32 ++ kbptr) :=
    nextNumber_numeral hkey (by omega) _ (endsNumber_cons rfl _)
  have h3 : nextNumber 1 (kbptr.drop it.id.length) = some (it.blob.length, afterBlob) := by
    rw [List.drop_left]
    exact nextNumber_numeral hok.small (by omega) 1 (endsNumber_cons rfl _)
  have h4 : nextNumber 0 afterBlob = some (ofs, afterOfs) :=
    nextNumber_numeral hofs (by omega) _ (endsNumber_cons rfl _)
  refine ⟨kbptr, ?_, List.take_left ..⟩
  unfold parseRecord
  simp only [h1, Option.bind_eq_bind, Option.bind_some, h2, strspn_delims hkb]
  rw [List.drop_left' (List.length_replicate ..), h3]
  simp only [Option.bind_some, h4]
  rfl

/-! ## Moving a blob -/

/-- The walk back over bytes that are neither a blank nor a carriage return. -/
private theorem scanBack_walk {a ds rest : CStr} (hds : ∀ b ∈ ds, b ≠ 32 ∧ b ≠ 13)
    (r : Option Nat) (k : Nat) (hk : k ≤ ds.length) :
    scanBack (a ++ 32 :: (ds ++ rest)) (a.length + k) r = some (a.length, r) := by
  induction k with
  | zero =>
    have hblank : (a ++ 32 :: (ds ++ rest)).getD a.length 0 = 32 := by
      simp [List.getD_eq_getElem?_getD]
    rw [Nat.add_zero]
    cases hn : a.length with
    | zero => rw [scanBack, ← hn, if_pos hblank]
    | succ n => rw [scanBack, ← hn, if_pos hblank]
  | succ k ih =>
    have hget : (a ++ 32 :: (ds ++ rest)).getD (a.length + k + 1) 0 = ds.get ⟨k, hk⟩ := by
      rw [List.getD_eq_getElem?_getD, List.getElem?_append_right (by omega),
        show a.length + k + 1 - a.length = k + 1 by omega, List.getElem?_cons_succ,
        List.getElem?_append_left hk, List.getElem?_eq_getElem hk]
      rfl
    obtain ⟨hblank, hcr⟩ := hds _ (List.get_mem ds ⟨k, hk⟩)
    rw [← Nat.add_assoc, scanBack, hget, if_neg hblank, if_neg hcr]
    exact ih (by omega)

/-- From the carriage return behind a number the walk ends at the blank in front. -/
theorem scanBack_numeral (a rest : CStr) (n : Nat) (r : Option Nat) :
    scanBack (a ++ 32 :: (numeral 10 n ++ 13 :: rest)) (a.length + (numeral 10 n).length + 1) r
      = some (a.length, some (a.length + (numeral 10 n).length + 1)) := by
  have hds : ∀ b ∈ numeral 10 n, b ≠ 32 ∧ b ≠ 13 := by
    intro b hb
    have hdigit := isDigit_of_mem_numeral hb
    constructor <;> (rintro rfl; exact absurd hdigit (by decide))
  have hget : (a ++ 32 :: (numeral 10 n ++ 13 :: rest)).getD (a.length + (numeral 10 n).length + 1) 0
      = 13 := by
    rw [List.getD_eq_getElem?_getD, List.getElem?_append_right (by omega),
      show a.length + (numeral 10 n).length + 1 - a.length = (numeral 10 n).length + 1 by omega,
      List.getElem?_cons_succ, List.getElem?_append_right (Nat.le_refl _), Nat.sub_self]
    rfl
  rw [scanBack, hget, if_neg (by decide), if_pos rfl]
  exact scanBack_walk hds _ _ (Nat.le_refl _)

private theorem cons_replicate_append (k : Nat) (ys : CStr) :
    32 :: (List.replicate k 32 ++ ys) = List.replicate k 32 ++ 32 :: ys := by
  rw [← List.cons_append, ← List.replicate_succ, List.replicate_succ', List.append_assoc]
  rfl

/-- A record is a text up to the blank in front of the digits of its offset, and these. -/
theorem Item.text_eq (it : Item) (ofs : Nat) :
    it.text ofs = (it.front ++ List.replicate (it.width - (numeral 10 ofs).length) 32)
      ++ 32 :: (numeral 10 ofs ++ [13, 10]) := by
  unfold Item.text rightJustified
  rw [List.append_assoc, List.append_assoc, cons_replicate_append]

/-- The length in front of a record. -/
theorem Item.atoi_text {it : Item} (hok : it.Ok) (ofs : Nat) (rest : CStr) :
    atoi (it.text ofs ++ rest) = it.size := by
  have hdigits := length_numeral_le_of_lt (by omega) 2 (show it.size < 10 ^ (2 + 1) from hok.size)
  have hsize : it.size < 2 ^ 31 := by have := hok.size; omega
  have hblanks : 4 - (numeral 10 it.size).length = 3 - (numeral 10 it.size).length + 1 := by omega
  unfold Item.text Item.front
  rw [List.append_assoc, List.append_assoc, hblanks, List.replicate_succ]
  exact atoi_numeral hsize (endsNumber_cons rfl _)

/-- What `adjust` puts over the digits of `ofs`. -/
def adjustedField (ofs adj : Nat) : CStr :=
  let o : Int := ofs - adj
  ((List.replicate (numeral 10 ofs).length 32 ++ printInt o).drop (printInt o).length).take
    (numeral 10 ofs).length

theorem length_adjustedField (ofs adj : Nat) :
    (adjustedField ofs adj).length = (numeral 10 ofs).length := by
  unfold adjustedField
  simp only [List.length_take, List.length_drop, List.length_append, List.length_replicate]
  omega

/-- An offset that stays an offset is printed as one. -/
theorem adjustedField_of_le {ofs adj : Nat} (h : adj ≤ ofs) :
    adjustedField ofs adj = rightJustified (numeral 10 ofs).length (ofs - adj) := by
  have hfewer := length_numeral_mono (show 2 ≤ 10 by omega) (Nat.sub_le ofs adj)
  have ho : (ofs : Int) - adj = ((ofs - adj : Nat) : Int) := by omega
  unfold adjustedField rightJustified
  simp only [ho, printInt_natCast]
  rw [List.drop_append_of_le_length (by rw [List.length_replicate]; exact hfewer),
    List.drop_replicate, List.take_of_length_le]
  rw [List.length_append, List.length_replicate]
  omega

/-- A round of `adjust` whose record ends in a number replaces that number. -/
theorem adjustRecord_eq {a rest : CStr} {dp l ofs : Nat} (hofs : ofs < 2 ^ 31)
    (hl : atoi ((a ++ 32 :: (numeral 10 ofs ++ 13 :: rest)).drop dp) = l)
    (hend : dp + l = a.length + (numeral 10 ofs).length + 3) (adj : Nat) (r : Option Nat) :
    adjustRecord (a ++ 32 :: (numeral 10 ofs ++ 13 :: rest)) dp adj r
      = some (a ++ 32 :: (adjustedField ofs adj ++ 13 :: rest), (l : Int),
          some (a.length + (numeral 10 ofs).length + 1)) := by
  have hp : ((dp : Int) + l - 2).toNat = a.length + (numeral 10 ofs).length + 1 := by omega
  have hindex : a ++ 32 :: (numeral 10 ofs ++ 13 :: rest)
      = (a ++ [32]) ++ (numeral 10 ofs ++ 13 :: rest) := by simp
  have hcr : a ++ 32 :: (numeral 10 ofs ++ 13 :: rest)
      = ((a ++ [32]) ++ numeral 10 ofs) ++ 13 :: rest := by simp
  have htake : (a ++ 32 :: (numeral 10 ofs ++ 13 :: rest)).take (a.length + 1) = a ++ [32] := by
    rw [hindex, List.take_left' (by simp)]
  have hdrop : (a ++ 32 :: (numeral 10 ofs ++ 13 :: rest)).drop (a.length + 1)
      = numeral 10 ofs ++ 13 :: rest := by
    rw [hindex, List.drop_left' (by simp)]
  have hdropCr : (a ++ 32 :: (numeral 10 ofs ++ 13 :: rest)).drop
      (a.length + (numeral 10 ofs).length + 1) = 13 :: rest := by
    rw [hcr, List.drop_left' (by simp only [List.length_append, List.length_singleton]; omega)]
  have hwidth : a.length + (numeral 10 ofs).length + 1 - (a.length + 1)
      = (numeral 10 ofs).length := by omega
  unfold adjustRecord
  simp only [hl, hp, scanBack_numeral]
  rw [if_neg (by omega), if_neg (by omega), htake, hdrop, hdropCr, hwidth,
    atoi_numeral hofs (endsNumber_cons rfl _)]
  show some (a ++ [32] ++ (adjustedField ofs adj ++ 13 :: rest), (l : Int), _) = _
  rw [List.append_assoc, List.singleton_append]

/-- `adjust` on a record keeps its length; if the offset is not too small, the record
is now the one for the lower offset. -/
theorem adjustRecord_text {it : Item} {ofs : Nat} (hok : it.Ok) (hofs : ofs < 2 ^ 31)
    (hwidth : (numeral 10 ofs).length ≤ it.width) (pre rest : CStr) (adj : Nat)
    (r : Option Nat) :
    ∃ new r', adjustRecord (pre ++ (it.text ofs ++ rest)) pre.length adj r
        = some (pre ++ (new ++ rest), (it.size : Int), r') ∧
      new.length = it.size ∧ (adj ≤ ofs → new = it.text (ofs - adj)) := by
  have hfront := Item.length_front hok
  -- everything in front of the blank before the digits
  let blanks : CStr := List.replicate (it.width - (numeral 10 ofs).length) 32
  have hindex : pre ++ (it.text ofs ++ rest)
      = (pre ++ (it.front ++ blanks)) ++ 32 :: (numeral 10 ofs ++ 13 :: (10 :: rest)) := by
    rw [Item.text_eq]
    simp [blanks]
  have hl : atoi ((pre ++ (it.text ofs ++ rest)).drop pre.length) = it.size := by
    rw [List.drop_left]
    exact Item.atoi_text hok ofs rest
  rw [hindex] at hl ⊢
  have hstep := adjustRecord_eq hofs hl
    (by simp only [List.length_append, blanks, List.length_replicate]; omega) adj r
  have hnew : (pre ++ (it.front ++ blanks)) ++ 32 :: (adjustedField ofs adj ++ 13 :: (10 :: rest))
      = pre ++ ((it.front ++ (blanks ++ 32 :: (adjustedField ofs adj ++ [13, 10]))) ++ rest) := by
    simp
  rw [hnew] at hstep
  refine ⟨_, _, hstep, ?_, ?_⟩
  · simp only [List.length_append, blanks, List.length_replicate, List.length_cons,
      List.length_nil, length_adjustedField]
    omega
  · intro hadj
    have hfewer := length_numeral_mono (show 2 ≤ 10 by omega) (Nat.sub_le ofs adj)
    rw [adjustedField_of_le hadj, Item.text_eq]
    unfold rightJustified
    -- the blanks of the old field and those that take the place of digits
    have hblanks : it.width - (numeral 10 (ofs - adj)).length
        = (it.width - (numeral 10 ofs).length)
          + ((numeral 10 ofs).length - (numeral 10 (ofs - adj)).length) := by omega
    rw [hblanks, ← List.replicate_append_replicate]
    simp only [List.append_assoc, blanks, cons_replicate_append]

end Sfcb.FileRepository
