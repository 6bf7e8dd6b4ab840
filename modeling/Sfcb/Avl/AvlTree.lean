import Sfcb.Lib.Numeral
import Sfcb.Lib.SearchTree

/-!
# The AVL tree

`avltree.c`. An operation goes down from the root and remembers the nodes it passed on an
explicit stack, with the side it took at each in `pathInfo`; then it goes back up and
adjusts balances until the height of a subtree is what it was.

Mirroring notes:
- The nodes do not share anything, so a tree is a value. What the stack and `pathInfo` hold
  up to `tos` is the way to the current subtree, the last step first; `tos` is its length.
- `stack` and `pathInfo` have `AVL_STACK_SIZE` elements. The outcome `none` is a write
  behind them, or a null pointer that is followed.
- `insertAvl` also reads what the stack holds above `tos`: the child `q` that was passed
  before `p`, which is the root of the current subtree, and the side that was taken at it.
- `NULL` for an item is `none`. `n` is an `int`.
-/

namespace Sfcb.Avl

open Sfcb.Lib

variable {α : Type}

/-- `AVL_STACK_SIZE`. -/
def AVL_STACK_SIZE : Nat := 1000

structure AvlTree (α : Type) where
  root : SearchTree α
  n : Int
  deriving Repr, DecidableEq

def newAvlTree : AvlTree α := ⟨.nil, 0⟩

/-! ## Rotations

Both appear in `insertAvl`, `deleteAvl` and `deleteMinAvl`. The subtree on the side `heavy`
of `p` is two levels higher than `light`; its root is `q`. -/

/-- `q` takes the place of `p`. -/
def rotateSingle (heavy : Side) (light : SearchTree α) (p : α) (pBalance qBalance : Int) :
    SearchTree α → Option (SearchTree α)
  | .nil => none
  | .node ql q qr _ => match heavy with
    | .right => some (.node (.node light p ql pBalance) q qr qBalance)
    | .left => some (.node ql q (.node qr p light pBalance) qBalance)

/-- The inner child `r` of `q` takes the place of `p`. -/
def rotateDouble (heavy : Side) (light : SearchTree α) (p : α) :
    SearchTree α → Option (SearchTree α)
  | .nil => none
  | .node ql q qr _ => match heavy with
    | .right => match ql with
      | .nil => none
      | .node rl r rr rBalance =>
        let pBalance := if rBalance = 1 then -1 else 0
        let qBalance := if rBalance = -1 then 1 else 0
        some (.node (.node light p rl pBalance) r (.node rr q qr qBalance) 0)
    | .left => match qr with
      | .nil => none
      | .node rl r rr rBalance =>
        let pBalance := if rBalance = -1 then 1 else 0
        let qBalance := if rBalance = 1 then -1 else 0
        some (.node (.node ql q rl qBalance) r (.node rr p light pBalance) 0)

/-! ## Inserting -/

/-- Where the way down of `insertAvl` ends. -/
inductive Descent (α : Type) where
  | present (item : α)
  | attach (path : List (Step α))
  deriving Repr, DecidableEq

/-- The first loop of `insertAvl`. -/
def insertDescend (compar : α → α → Int) (item : α) (path : List (Step α)) :
    SearchTree α → Option (Descent α)
  | .nil => some (.attach path)
  | .node l x r b =>
    if AVL_STACK_SIZE ≤ path.length then none
    else if compar item x < 0 then insertDescend compar item (⟨x, b, .left, r⟩ :: path) l
    else if compar item x > 0 then insertDescend compar item (⟨x, b, .right, l⟩ :: path) r
    else some (.present x)

/-- The second loop: `t` has grown by one level. `below` is what `pathInfo` has for the
nodes under the one that comes next. -/
def insertLoop : List (Step α) → SearchTree α → List Side → Option (SearchTree α)
  | [], t, _ => some t
  | s :: path, t, below =>
    if s.balance = 0 then insertLoop path (s.fill s.side.sign t) (s.side :: below)
    else if s.balance + s.side.sign = 0 then some (plug path (s.fill 0 t))
    else match below with
      | [] => none
      | d :: _ =>
        let rotated :=
          if s.side = d then rotateSingle s.side s.other s.item 0 0 t
          else rotateDouble s.side s.other s.item t
        rotated.map (plug path)

/-- `insertAvl`. -/
def insertAvl (compar : α → α → Int) (this : AvlTree α) (item : α) :
    Option (AvlTree α × Option α) :=
  match insertDescend compar item [] this.root with
  | none => none
  | some (.present x) => some (this, some x)
  | some (.attach path) =>
    (insertLoop path (.node .nil item .nil 0) []).map fun root =>
      (⟨root, cInt (this.n + 1)⟩, none)

/-! ## Finding -/

/-- `findAvl`. -/
def findAvl (compar : α → α → Int) (item : α) : SearchTree α → Option α
  | .nil => none
  | .node l x r _ =>
    if compar item x < 0 then findAvl compar item l
    else if compar item x > 0 then findAvl compar item r
    else some x

/-- `findMinAvl`. -/
def findMinAvl : SearchTree α → Option α
  | .nil => none
  | .node .nil x _ _ => some x
  | .node (.node l y r b) _ _ _ => findMinAvl (.node l y r b)

/-! ## Deleting -/

/-- What is found of an item: the way to its node, and the node. -/
structure Found (α : Type) where
  path : List (Step α)
  left : SearchTree α
  item : α
  right : SearchTree α
  balance : Int
  deriving Repr, DecidableEq

/-- The first loop of `deleteAvl`. -/
def deleteDescend (compar : α → α → Int) (item : α) (path : List (Step α)) :
    SearchTree α → Option (Option (Found α))
  | .nil => some none
  | .node l x r b =>
    if compar item x < 0 then
      if AVL_STACK_SIZE ≤ path.length then none
      else deleteDescend compar item (⟨x, b, .left, r⟩ :: path) l
    else if compar item x > 0 then
      if AVL_STACK_SIZE ≤ path.length then none
      else deleteDescend compar item (⟨x, b, .right, l⟩ :: path) r
    else some (some ⟨path, l, x, r, b⟩)

/-- The leftmost node, with the way to it. It is pushed as well, on top of `tos` steps that
were there before, and popped. -/
def descendMin (tos : Nat) (steps : List (Step α)) :
    SearchTree α → Option (List (Step α) × α × SearchTree α)
  | .nil => none
  | .node l x r b =>
    if AVL_STACK_SIZE ≤ tos + steps.length then none
    else match l with
      | .nil => some (steps, x, r)
      | .node ll y lr lb => descendMin tos (⟨x, b, .left, r⟩ :: steps) (.node ll y lr lb)

/-- The node that was found is taken out: by its only subtree, or by the leftmost node `m`
of its right subtree, which takes its place. The result is the way to the subtree that is
smaller now, and that subtree. -/
def takeOut (f : Found α) : Option (List (Step α) × SearchTree α) :=
  match f.left, f.right with
  | .nil, right => some (f.path, right)
  | left, .nil => some (f.path, left)
  | left, right =>
    if AVL_STACK_SIZE ≤ f.path.length then none
    else (descendMin (f.path.length + 1) [] right).map fun m =>
      (m.1 ++ ⟨m.2.1, f.balance, .right, left⟩ :: f.path, m.2.2)

/-- The last loop of `deleteAvl`: `t` has shrunk by one level. That of `deleteMinAvl` is the
same for a way that always goes to the left. -/
def deleteLoop : List (Step α) → SearchTree α → Option (SearchTree α)
  | [], t => some t
  | s :: path, t =>
    if s.balance = 0 then some (plug path (s.fill (s.balance - s.side.sign) t))
    else if s.balance - s.side.sign = 0 then deleteLoop path (s.fill 0 t)
    else match s.other with
      | .nil => none
      | .node _ _ _ qBalance =>
        if s.side.sign ≠ qBalance then
          if qBalance = 0 then
            let pBalance := if s.balance - s.side.sign > 0 then 1 else -1
            (rotateSingle s.side.opposite t s.item pBalance (-pBalance) s.other).map (plug path)
          else (rotateSingle s.side.opposite t s.item 0 0 s.other).bind (deleteLoop path)
        else (rotateDouble s.side.opposite t s.item s.other).bind (deleteLoop path)

/-- `deleteAvl`. -/
def deleteAvl (compar : α → α → Int) (this : AvlTree α) (item : α) :
    Option (AvlTree α × Option α) :=
  match deleteDescend compar item [] this.root with
  | none => none
  | some none => some (this, none)
  | some (some f) =>
    (takeOut f).bind fun out =>
      (deleteLoop out.1 out.2).map fun root => (⟨root, cInt (this.n - 1)⟩, some f.item)

/-- `deleteMinAvl`. -/
def deleteMinAvl (this : AvlTree α) : Option (AvlTree α × Option α) :=
  match this.root with
  | .nil => some (this, none)
  | root =>
    (descendMin 0 [] root).bind fun m =>
      (deleteLoop m.1 m.2.2).map fun root => (⟨root, cInt (this.n - 1)⟩, some m.2.1)

/-- The operations of a tree. -/
inductive Op (α : Type) where
  | insert (item : α)
  | find (item : α)
  | findMin
  | delete (item : α)
  | deleteMin
  deriving Repr, DecidableEq

def step (compar : α → α → Int) (this : AvlTree α) : Op α → Option (AvlTree α × Option α)
  | .insert item => insertAvl compar this item
  | .find item => some (this, findAvl compar item this.root)
  | .findMin => some (this, findMinAvl this.root)
  | .delete item => deleteAvl compar this item
  | .deleteMin => deleteMinAvl this

end Sfcb.Avl
