import Sfcb.FileRepository.Record
import Sfcb.Lib.Files

/-!
# The file repository

The static instances of a class are kept in two files of its namespace's directory:
the data file has the blobs one behind the other, the index file a record for each
(`Record.lean`). Adding appends to both. Replacing and deleting rewrite both under
temporary names and rename them: the blob's bytes and its record are left out, and
the offsets behind are lowered.

Mirroring notes:
- Files are what their names stand for. `fopen` for writing succeeds; for reading it
  fails if there is no such file.
- `dSize` is the length of the text in `index`; `aSize` is what is allocated. Both are
  `int`s: a size from `2 ^ 31` on is the outcome `none`, as is a write outside
  `idxe` or leaving the text of the index.
- An `id` is a C string, `strlen` its length; `len` is the length of the blob.
- Messages and the freeing of a `BlobIndex` are left out.
-/

namespace Sfcb.FileRepository

open Sfcb.Lib

/-! ## Names and the index -/

/-- What the functions are called for: a namespace and a class, under the directory
of `getRepDir`. New memory holds `junk`. -/
structure Repository where
  repDir : CStr
  ns : CStr
  cls : CStr
  junk : UInt8

namespace Repository

/-- `bi->dir`. -/
def dir (r : Repository) : CStr := r.repDir ++ (r.ns ++ lit "/").map toLower

/-- `bi->fnd`: the data file. -/
def fnd (r : Repository) : CStr := r.dir ++ r.cls.map toLower

/-- `bi->fnx`: the index file. -/
def fnx (r : Repository) : CStr := r.fnd ++ lit ".idx"

/-- The temporary index of `rebuild`. -/
def xn (r : Repository) : CStr := r.dir ++ lit "idx"

/-- The temporary data file of `rebuild`. -/
def dn (r : Repository) : CStr := r.dir ++ lit "inst"

/-- `keyl + 64`, the room a call for `id` makes for a record. -/
def elen (r : Repository) (id : CStr) : Nat :=
  r.ns.length + r.cls.length + id.length + (lit "repository").length + 64

end Repository

/-- `BlobIndex` without its file names and handles. -/
structure BlobIndex where
  index : CStr
  aSize : Nat
  pos : Nat
  len : Nat
  blen : Nat
  bofs : Nat
  next : Nat
  dlen : Nat
  deriving DecidableEq, Repr

/-- A `BlobIndex` as `calloc` and `getIndex` leave it. -/
def BlobIndex.new (index : CStr) (elen : Nat) : BlobIndex :=
  { index, aSize := index.length + elen, pos := 0, len := 0, blen := 0, bofs := 0, next := 0,
    dlen := 0 }

/-- `getIndex`: no `BlobIndex` is its `0`. -/
def getIndex (r : Repository) (fs : Files) (elen : Nat) (mki : Bool) :
    Option (Files × Option BlobIndex) :=
  match fs r.fnx with
  | none =>
    if mki = false then some (fs, none)
    else if elen < 2 ^ 31 then some (fs.create r.fnx, some (BlobIndex.new [] elen))
    else none
  | some text =>
    -- there is a terminator behind the text
    if 0 < elen ∧ text.length + elen < 2 ^ 31 then some (fs, some (BlobIndex.new text elen))
    else none

/-- The outcomes of `getIndexRecordCase`: `-1`, `0` and `1`. -/
inductive RecordResult where
  | failure
  | found (bi : BlobIndex) (keyb : CStr)
  | mismatch (bi : BlobIndex)
  deriving DecidableEq, Repr

/-- The key comparison of `getIndexRecordCase`. -/
def differs (kbptr key : CStr) (ignorecase : Bool) : Prop :=
  (if ignorecase then strncasecmp kbptr key key.length else strncmp kbptr key key.length) ≠ 0

instance (kbptr key : CStr) (ignorecase : Bool) : Decidable (differs kbptr key ignorecase) :=
  inferInstanceAs (Decidable (_ ≠ _))

/-- `getIndexRecordCase`; an empty key is none. -/
def getIndexRecordCase (bi : BlobIndex) (key : CStr) (ignorecase : Bool) : RecordResult :=
  if bi.next ≥ bi.index.length then .failure
  else
    match parseRecord (bi.index.drop bi.next) with
    | none => .failure
    | some rec =>
      let bi := { bi with pos := bi.next, len := rec.elen, blen := rec.blen, bofs := rec.bofs,
                          next := bi.next + rec.elen }
      if 0 < key.length ∧ (key.length ≠ rec.ekl ∨ differs rec.kbptr key ignorecase) then
        .mismatch bi
      else .found bi (rec.kbptr.take rec.ekl)

/-- `getIndexRecord`. -/
def getIndexRecord (bi : BlobIndex) (key : CStr) : RecordResult := getIndexRecordCase bi key false

/-- The loop of `indxLocateCase`. -/
def locateLoop (key : CStr) (ignorecase : Bool) : (fuel : Nat) → BlobIndex → Option BlobIndex
  | 0, _ => none
  | fuel + 1, bi =>
    if bi.next < bi.index.length then
      match getIndexRecordCase bi key ignorecase with
      | .failure => none
      | .found bi _ => some bi
      | .mismatch bi => locateLoop key ignorecase fuel bi
    else none

/-- `indxLocateCase`: every round gets at least a byte further. -/
def indxLocateCase (bi : BlobIndex) (key : CStr) (ignorecase : Bool) : Option BlobIndex :=
  locateLoop key ignorecase (bi.index.length + 1) { bi with next := 0 }

/-- `indxLocate`. -/
def indxLocate (bi : BlobIndex) (key : CStr) : Option BlobIndex := indxLocateCase bi key false

/-! ## Reading -/

/-- The blob of the current record. -/
def readBlob (r : Repository) (fs : Files) (bi : BlobIndex) : List UInt8 :=
  fs.read r.fnd bi.bofs bi.blen r.junk

/-- A record that an enumeration gives out: the `BlobIndex` at it, key and blob. -/
structure Visit where
  bi : BlobIndex
  keyb : CStr
  blob : List UInt8

/-- `getFirst`; `none` is the null pointer. -/
def getFirst (r : Repository) (fs : Files) (bi : BlobIndex) : Option Visit :=
  match getIndexRecord { bi with next := 0 } [] with
  | .found bi keyb => if (fs r.fnd).isSome then some ⟨bi, keyb, readBlob r fs bi⟩ else none
  | _ => none

/-- `getNext`. -/
def getNext (r : Repository) (fs : Files) (bi : BlobIndex) : Option Visit :=
  match getIndexRecord bi [] with
  | .found bi keyb => some ⟨bi, keyb, readBlob r fs bi⟩
  | _ => none

/-- `for (blob = getFirst(bi,...); blob; blob = getNext(bi,...))` behind its first call;
`none` if it does not stop within `fuel` rounds. -/
def visits (r : Repository) (fs : Files) : (fuel : Nat) → Option Visit → Option (List Visit)
  | _, none => some []
  | 0, some _ => none
  | fuel + 1, some v => (visits r fs fuel (getNext r fs v.bi)).map (v :: ·)

/-- An enumeration by a caller that asks `getIndex` for `elen` bytes of room. -/
def enumerate (r : Repository) (fs : Files) (elen : Nat) : Option (List Visit) :=
  match getIndex r fs elen false with
  | none => none
  | some (_, none) => some []
  | some (fs, some bi) => visits r fs bi.index.length (getFirst r fs bi)

/-- `getBlob`: `some none` is the null pointer; `none` is also `exit(5)`. -/
def getBlob (r : Repository) (fs : Files) (id : CStr) : Option (Option (List UInt8)) :=
  match getIndex r fs (r.elen id) false with
  | none => none
  | some (_, none) => some none
  | some (fs, some bi) =>
    match indxLocateCase bi id (strcmp (lit "qualifiers") r.cls == 0) with
    | none => some none
    | some bi => if (fs r.fnd).isSome then some (some (readBlob r fs bi)) else none

/-- `existingBlob`. -/
def existingBlob (r : Repository) (fs : Files) (id : CStr) : Option Bool :=
  match getIndex r fs (r.elen id) false with
  | none => none
  | some (_, none) => some false
  | some (_, some bi) => some (indxLocate bi id).isSome

/-! ## Writing -/

/-- The loop of `adjust`, from `dp` on. -/
def adjustLoop (adj : Nat) : (fuel : Nat) → (index : CStr) → (dp : Nat) → (r : Option Nat) →
    Option CStr
  | 0, _, _, _ => none
  | fuel + 1, index, dp, r =>
    if dp < index.length then
      match adjustRecord index dp adj r with
      | none => none
      | some (index, l, r) => adjustLoop adj fuel index (dp + l).toNat r
    else some index

/-- `adjust`. -/
def adjust (index : CStr) (pos adj : Nat) : Option CStr :=
  adjustLoop adj (index.length + 1) index pos none

/-- `copy`: `len` bytes at `ofs` of one file to the end of another. -/
def copy (r : Repository) (fs : Files) (o i : CStr) (len ofs : Nat) : Files :=
  fs.append o (fs.read i ofs len r.junk)

/-- The data part of `rebuild`, with both temporary files new. -/
def rebuildData (r : Repository) (fs : Files) (bi : BlobIndex) (blob : List UInt8) : Files :=
  let fs := (fs.create r.xn).create r.dn
  let fs := if bi.bofs ≠ 0 then copy r fs r.dn r.fnd bi.bofs 0 else fs
  let len := bi.dlen - (bi.bofs + bi.blen)
  let fs := if len ≠ 0 then copy r fs r.dn r.fnd len (bi.bofs + bi.blen) else fs
  if blob ≠ [] then fs.append r.dn blob else fs

/-- The last part of `rebuild`: the files get their names, or go if they are empty. -/
def rebuildNames (r : Repository) (fs : Files) (dt xt : Nat) : Files :=
  let fs := (fs.remove r.fnd).remove r.fnx
  let fs := if dt ≠ 0 then fs.rename r.dn r.fnd else fs.remove r.dn
  if xt ≠ 0 then fs.rename r.xn r.fnx else fs.remove r.xn

/-- `rebuild`. A record that points outside the data makes the length of a copy
negative. -/
def rebuild (r : Repository) (fs : Files) (bi : BlobIndex) (blob : List UInt8) : Option Files :=
  if bi.dlen < bi.bofs + bi.blen ∨ bi.index.length < bi.pos + bi.len then none
  else
    match adjust bi.index bi.pos bi.blen with
    | none => none
    | some index =>
      let fs := rebuildData r fs bi blob
      let dt := bi.bofs + (bi.dlen - (bi.bofs + bi.blen)) + blob.length
      let ofs := bi.pos + bi.len
      let fs := if bi.pos ≠ 0 then fs.append r.xn (index.take bi.pos) else fs
      let len := index.length - ofs
      let fs := if len ≠ 0 then fs.append r.xn (index.drop ofs) else fs
      some (rebuildNames r fs dt (bi.pos + len))

/-- `addBlob`, with its return code. -/
def addBlob (r : Repository) (fs : Files) (id : CStr) (blob : List UInt8) :
    Option (Files × Int) :=
  match getIndex r fs (r.elen id) true with
  | none => none
  | some (fs, none) => some (fs, 1)
  | some (fs, some bi) =>
    -- the first blob of the class
    if bi.index.length = 0 then
      let idxe := indexRecord id blob.length 0
      if r.elen id ≤ idxe.length then none
      else some (((fs.create r.fnd).append r.fnd blob).overwrite r.fnx idxe, 0)
    else
      match indxLocate bi id with
      -- the new record is appended, and both files are rebuilt without the old one
      | some bi =>
        match fs r.fnd with
        | none => some (fs, -1)
        | some data =>
          let idxe := indexRecord id blob.length data.length
          if r.elen id ≤ idxe.length then none
          else
            (rebuild r fs { bi with index := bi.index ++ idxe, dlen := data.length } blob).map
              (·, 0)
      | none =>
        let idxe := indexRecord id blob.length (fs.content r.fnd).length
        if r.elen id ≤ idxe.length then none
        else some ((fs.append r.fnd blob).overwrite r.fnx (bi.index ++ idxe), 0)

/-- `deleteBlob`, with its return code. -/
def deleteBlob (r : Repository) (fs : Files) (id : CStr) : Option (Files × Int) :=
  match getIndex r fs (r.elen id) false with
  | none => none
  | some (fs, none) => some (fs, 1)
  | some (fs, some bi) =>
    match indxLocate bi id with
    | none => some (fs, 1)
    | some bi =>
      match fs r.fnd with
      | none => some (fs, -1)
      | some data => (rebuild r fs { bi with dlen := data.length } []).map (·, 0)

end Sfcb.FileRepository
