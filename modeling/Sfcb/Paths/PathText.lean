import Sfcb.Paths.ObjectPath

/-!
# The text of a path

`sfcb_pathToChars` prints a path, `getObjectPath` reads one. A reference in a path is stored
as such a text, and is read again each time it is asked for.

`getObjectPath` looks ahead at every key (`refLookAhead`): what looks like `k=cn.l=` is taken
for a reference, up to the next comma behind which it looks so again, or up to the end.

Mirroring notes:
- `pieces` is the loop of `getObjectPath`: what it gives to `addKey`, with `ref`.
- The outcome `none` is a null pointer or something that is not defined: a negative length in
  `strnDup`, a key without `=`, a number that a `long` cannot hold, a text that does not fit
  into the 4096 bytes of `toString`, a string in the place of a number. It is also `none`
  here when a reference cannot be read, which leaves a key that is null.
- `fuel` is how deep references can be nested.
- Paths have fewer than 2 ^ 31 bytes, as the length for `strnDup` is an `int`.
-/

namespace Sfcb.Paths

open Sfcb.Lib

/-! ## Printing -/

/-- Texts with commas between them. -/
def commas : List CStr → CStr
  | [] => []
  | t :: ts => t ++ ts.flatMap fun t => 44 :: t

/-- A namespace with its colon, unless it is null or empty. -/
def nsChars : Option CStr → CStr
  | some (c :: ns) => c :: ns ++ lit ":"
  | _ => []

/-- A path with the texts of its keys. -/
def pathChars (nameSpace : Option CStr) (className : CStr) (texts : List CStr) : CStr :=
  nsChars nameSpace ++ className ++ if texts = [] then [] else 46 :: commas texts

mutual

/-- `sfcb_value2Chars`. -/
def Value.chars : Value → CStr
  | .ref nameSpace className keys => pathChars nameSpace className (keyChars keys)
  | .string s => (Value.string s).simpleChars
  | .dateTime s => (Value.dateTime s).simpleChars
  | .boolean b => (Value.boolean b).simpleChars
  | .char16 c => (Value.char16 c).simpleChars
  | .uint n => (Value.uint n).simpleChars
  | .sint n => (Value.sint n).simpleChars
  | .real32 bits => (Value.real32 bits).simpleChars
  | .real64 bits => (Value.real64 bits).simpleChars
  | .null kind h => (Value.null kind h).simpleChars

/-- The texts of keys. -/
def keyChars : List (CStr × Value) → List CStr
  | [] => []
  | (name, v) :: keys => (name ++ 61 :: v.chars) :: keyChars keys

end

def Cop.chars (cop : Cop) : CStr := pathChars cop.nameSpace cop.className (keyChars cop.keys)

mutual

/-- A reference is printed into the 4096 bytes of `toString` first. -/
def Value.fits : Value → Bool
  | .ref nameSpace className keys =>
    keysFit keys && (pathChars nameSpace className (keyChars keys)).length < 4096
  | _ => true

def keysFit : List (CStr × Value) → Bool
  | [] => true
  | (_, v) :: keys => v.fits && keysFit keys

end

/-- `sfcb_pathToChars`. -/
def sfcb_pathToChars (cop : Cop) : Option CStr :=
  if keysFit cop.keys then some cop.chars else none

/-! ## Reading -/

/-- What is in front of the first byte that is looked for, that byte, and what is behind. -/
def cutAt (found : UInt8 → Bool) : CStr → Option (CStr × UInt8 × CStr)
  | [] => none
  | c :: s => if found c then some ([], c, s)
    else (cutAt found s).map fun cut => (c :: cut.1, cut.2)

/-- The states of `refLookAhead`, in order. -/
inductive LookState where
  | start | lhs | rhs | word | refStart | refKey | refValue
  deriving Repr, DecidableEq

/-- `refLookAhead`: where the reference ends. A call at a comma stays in `start` there. -/
def refLookAhead : LookState → Nat → CStr → Option Nat
  | .refKey, i, [] | .refValue, i, [] => some i
  | _, _, [] => none
  | .start, i, c :: u => refLookAhead (if isalnum c then .lhs else .start) (i + 1) u
  | .lhs, i, c :: u => refLookAhead (if c = 61 then .rhs else .lhs) (i + 1) u
  | .rhs, i, c :: u => if isalnum c then refLookAhead .word (i + 1) u else none
  | .word, i, c :: u =>
    if c = 44 then none else refLookAhead (if c = 46 then .refStart else .word) (i + 1) u
  | .refStart, i, c :: u => if isalnum c then refLookAhead .refKey (i + 1) u else none
  | .refKey, i, c :: u =>
    if c = 61 then if u = [] then some i else refLookAhead .refValue (i + 1) u
    else refLookAhead .refKey (i + 1) u
  | .refValue, i, c :: u =>
    if c = 44 ∧ (refLookAhead .start 1 u).isSome then some i
    else refLookAhead .refValue (i + 1) u

/-- The loop of `getObjectPath`. -/
def pieces : Nat → CStr → Option (List (Bool × CStr))
  | 0, _ => none
  | fuel + 1, u =>
    match refLookAhead .start 0 u with
    | some n => match u.drop n with
      | [] => some [(true, u)]
      | _ :: rest => (pieces fuel rest).map fun ps => (true, u.take n) :: ps
    | none => match cutAt (fun c => c = 44 || c = 34) u with
      | none => some (if u = [] then [] else [(false, u)])
      | some (front, c, rest) =>
        if c = 34 then
          if front.getLast? = some 61 then
            (cutAt (fun c => c = 34) rest).bind fun cut =>
              let t := front ++ 34 :: (cut.1 ++ [34])
              match cut.2.2 with
              | [] => some [(false, t)]
              | c :: rest =>
                if c = 44 then (pieces fuel rest).map fun ps => (false, t) :: ps else none
          else none
        else (pieces fuel rest).map fun ps => (false, front) :: ps

/-- `atol`. -/
def atol (s : CStr) : Option Int :=
  let n : Int := match s.dropWhile isSpace with
    | 45 :: ds => -(scanDigits 10 0 ds).1
    | 43 :: ds => (scanDigits 10 0 ds).1
    | ds => (scanDigits 10 0 ds).1
  if -2 ^ 63 ≤ n ∧ n < 2 ^ 63 then some n else none

/-- The path that a reference key has: it is stored as a text. -/
def stored (read : CStr → Option Cop) (keyOp : Cop) : Option Cop :=
  (sfcb_pathToChars keyOp).bind fun text => if text.length < 4096 then read text else none

/-- `addKey` up to the call of `op->ft->addKey`, if there is one. -/
def readKey (read : CStr → Option Cop) (ref : Bool) (kd : CStr) :
    Option (Option (CStr × Value)) :=
  (cutAt (fun c => c = 61) kd).bind fun cut =>
    if ref then
      (read cut.2.2).bind fun keyOp => (stored read keyOp).map fun op =>
        some (cut.1, .ref op.nameSpace op.className op.keys)
    else match cut.2.2 with
      | [] => some none
      | c :: val =>
        if c = 34 then some (some (cut.1, .string val.dropLast))
        else if c = 45 ∨ c = 43 then
          (atol (c :: val)).map fun n => some (cut.1, .sint (Int64.ofInt n))
        else if isDigit c then
          (atol (c :: val)).map fun n => some (cut.1, .uint (UInt64.ofNat n.toNat))
        else some none

/-- The values for a key that is there already, with the types of the old and the new one. -/
def replaceValue (od d : Value) : Option Value :=
  match od.kind, d.kind with
  | .string, .string | .ref, .ref => some d
  | .string, _ | .ref, _ => some od
  | _, .string | _, .ref => none
  | _, _ => some d

/-- `op->ft->addKey`. -/
def addKey (keys : List (CStr × Value)) (name : CStr) (d : Value) :
    Option (List (CStr × Value)) :=
  match keys with
  | [] => some [(name, d)]
  | k :: keys =>
    if strcasecmp name k.1 = 0 then (replaceValue k.2 d).map fun v => (k.1, v) :: keys
    else (addKey keys name d).map fun keys => k :: keys

/-- A piece that the loop gives to `addKey`. -/
def addPiece (read : CStr → Option Cop) (keys : List (CStr × Value)) (piece : Bool × CStr) :
    Option (List (CStr × Value)) :=
  (readKey read piece.1 piece.2).bind fun k =>
    match k with
    | none => some keys
    | some k => addKey keys k.1 k.2

/-- The namespace, the class and the rest behind the dot. -/
def header (path : CStr) : Option (Option CStr × CStr × CStr) :=
  match cutAt (fun c => c = 46) path, cutAt (fun c => c = 58) path with
  | none, none => some (none, path, [])
  | none, some (ns, _, cn) => some (some ns, cn, [])
  | some (front, _, rest), none => some (none, front, rest)
  | some (front, _, rest), some (ns, _, _) =>
    if ns.length < front.length then some (some ns, front.drop (ns.length + 1), rest) else none

/-- `getObjectPath`. -/
def getObjectPath : Nat → CStr → Option Cop
  | 0, _ => none
  | fuel + 1, path =>
    (header path).bind fun head =>
      (pieces (head.2.2.length + 1) head.2.2).bind fun ps =>
        (ps.foldlM (addPiece (getObjectPath fuel)) []).map fun keys =>
          ⟨head.1, head.2.1, keys⟩

end Sfcb.Paths
