import Sfcb.Lib.CString

/-!
# Files by name

A directory tree as seen through `<stdio.h>`: what a name stands for, if it stands
for a file. Streams are not buffered here, a write is in the file at once; creating
a file that is there empties it, as mode `w` does.
-/

namespace Sfcb.Lib

/-- The files there are. -/
abbrev Files := CStr → Option (List UInt8)

namespace Files

/-- Makes `name` stand for `file`. -/
def put (fs : Files) (name : CStr) (file : Option (List UInt8)) : Files :=
  fun other => if other = name then file else fs other

/-- The bytes of a file, none if it is not there. -/
def content (fs : Files) (name : CStr) : List UInt8 := (fs name).getD []

/-- `fopen` with mode `w`. -/
def create (fs : Files) (name : CStr) : Files := fs.put name (some [])

/-- `fwrite` behind what is in the file. -/
def append (fs : Files) (name : CStr) (bytes : List UInt8) : Files :=
  fs.put name (some (fs.content name ++ bytes))

/-- `fwrite` from the start of the file. -/
def overwrite (fs : Files) (name : CStr) (bytes : List UInt8) : Files :=
  fs.put name (some (bytes ++ (fs.content name).drop bytes.length))

/-- `remove`. -/
def remove (fs : Files) (name : CStr) : Files := fs.put name none

/-- `rename`, which does nothing if there is no such file. -/
def rename (fs : Files) (old new : CStr) : Files :=
  match fs old with
  | none => fs
  | some file => (fs.put old none).put new (some file)

/-- `len` bytes from `ofs` on by `fread` into new memory: bytes that are not in the
file stay what they were. -/
def read (fs : Files) (name : CStr) (ofs len : Nat) (junk : UInt8) : List UInt8 :=
  let got := ((fs.content name).drop ofs).take len
  got ++ List.replicate (len - got.length) junk

@[simp] theorem put_self (fs : Files) (name : CStr) (file : Option (List UInt8)) :
    fs.put name file name = file := if_pos rfl

theorem put_of_ne (fs : Files) {name other : CStr} (h : other ≠ name)
    (file : Option (List UInt8)) : fs.put name file other = fs other := if_neg h

theorem rename_eq {fs : Files} {old : CStr} {file : List UInt8} (h : fs old = some file)
    (new : CStr) : fs.rename old new = (fs.put old none).put new (some file) := by
  rw [rename, h]

theorem rename_old (fs : Files) {old new : CStr} (h : old ≠ new) : fs.rename old new old = none := by
  cases hold : fs old with
  | none => rw [rename, hold]; exact hold
  | some file => rw [rename_eq hold, put_of_ne _ h, put_self]

theorem rename_of_ne (fs : Files) {old new other : CStr} (h : other ≠ old) (h' : other ≠ new) :
    fs.rename old new other = fs other := by
  cases hold : fs old with
  | none => rw [rename, hold]
  | some file => rw [rename_eq hold, put_of_ne _ h', put_of_ne _ h]

/-- A write that may be left out when there is nothing to write. -/
theorem ite_append_self {fs : Files} {name : CStr} {file : List UInt8}
    (h : fs name = some file) {p : Prop} [Decidable p] {bytes : List UInt8}
    (hp : ¬ p → bytes = []) :
    (if p then fs.append name bytes else fs) name = some (file ++ bytes) := by
  split
  · show fs.put name (some (fs.content name ++ bytes)) name = _
    rw [put_self, content, h, Option.getD_some]
  · next hno => rw [hp hno, List.append_nil, h]

theorem ite_append_of_ne (fs : Files) {name other : CStr} (h : other ≠ name) (p : Prop)
    [Decidable p] (bytes : List UInt8) :
    (if p then fs.append name bytes else fs) other = fs other := by
  split
  · exact put_of_ne _ h _
  · rfl

/-- Reading inside a file gives its bytes. -/
theorem read_of_le {fs : Files} {name : CStr} {ofs len : Nat}
    (h : ofs + len ≤ (fs.content name).length) (junk : UInt8) :
    fs.read name ofs len junk = ((fs.content name).drop ofs).take len := by
  have hlen : (((fs.content name).drop ofs).take len).length = len := by
    rw [List.length_take, List.length_drop]
    omega
  show _ ++ List.replicate (len - (((fs.content name).drop ofs).take len).length) junk = _
  rw [hlen, Nat.sub_self, List.replicate_zero, List.append_nil]

end Files

end Sfcb.Lib
