import Sfcb.Lib.NormalForm
import Sfcb.Query.Operand

/-!
# The operation tree: evaluation and the two normal forms

`queryOperation.c` represents a WHERE clause as a tree of operations, each with a
function table. This file embeds the tree (`QLPredicate` for the leaves that hold
operands, `QLOperation` for the nodes above them), its `evaluate` entries, the
`eliminateNots` pass, and the `getPredicateDisjunction` /
`getPredicateConjunction` methods that providers are shown.

The main results are `disjunction_eq_evaluate` and `conjunction_eq_evaluate`: on a
tree of AND, OR and predicate nodes whose connectives are not inverted, either
form has the value of direct evaluation. The induction is over the tree; the two
cases where a form is multiplied out are the distributive laws of
`Lib.NormalForm`, after `crossLoop_eq` has turned the array-filling loops into
`cross`.

Mirroring notes: every `evaluate` entry returns `0` or `1`, so the result is a
`Bool`. `newAndOperation` and `newOrOperation` are only called by the grammar,
always with two operands, so the `rhon == NULL` branches have no counterpart.
-/

namespace Sfcb.Query

open Sfcb.Lib

/-- The operators of predicate nodes. -/
inductive QLOp where
  | LT | GT | LE | GE | EQ | NE | ISA | LIKE | NOT_LIKE | IS_NULL | IS_NOT_NULL
  deriving DecidableEq, Repr

/-- A predicate node: operands and the `flag.invert` bit. -/
structure QLPredicate where
  opr : QLOp
  lhod : QLOperand
  rhod : Option QLOperand
  invert : Bool
  deriving DecidableEq, Repr

/-- The nodes above the predicates; `bin` is the `QL_bin` wrapper. -/
inductive QLOperation where
  | and (lhon rhon : QLOperation) (invert : Bool)
  | or (lhon rhon : QLOperation) (invert : Bool)
  | not (lhon : QLOperation) (invert : Bool)
  | bin (lhon : QLPredicate) (invert : Bool)
  deriving DecidableEq, Repr

/-! ## Evaluation -/

section Evaluate

variable (rt : QLRuntime) (src : QLPropertySource)

/-- `lhod->ft->compare(lhod, rhod, source)`; a predicate that compares always
has a right operand. -/
def QLPredicate.cmp (p : QLPredicate) : Int :=
  match p.rhod with
  | some r => compare rt src p.lhod r
  | none => 0

/-- The right side of a `LIKE` test: the string it is read as, and its type. -/
def likeRight (r : QLOperand) : Option CStr × QLOpd :=
  match r with
  | .prop _ => (rt.charsAt (getPropValue rt src r).1, (getPropValue rt src r).2)
  | _ => (r.charsOf rt, r.type)

/-- What both `LIKE` entries match: the left operand is taken as a property name
whatever it is, and its type is not looked at. -/
def QLPredicate.likeMatch (p : QLPredicate) : Option Bool :=
  match p.rhod with
  | none => none
  | some r =>
    match rt.charsAt (getPropValue rt src p.lhod).1, likeRight rt src r with
    | some s, (some t, .Chars) => some (match_re s t)
    | _, _ => none

/-- `op->ft->evaluate` of a predicate node. Only the comparisons look at
`invert`; `isNullEvaluate` and `isNotNullEvaluate` are constants. -/
def QLPredicate.evaluate (p : QLPredicate) : Bool :=
  match p.opr with
  | .LT => if p.invert then decide (p.cmp rt src ≥ 0) else decide (p.cmp rt src < 0)
  | .GT => if p.invert then decide (p.cmp rt src ≤ 0) else decide (p.cmp rt src > 0)
  | .LE => if p.invert then decide (p.cmp rt src > 0) else decide (p.cmp rt src ≤ 0)
  | .GE => if p.invert then decide (p.cmp rt src < 0) else decide (p.cmp rt src ≥ 0)
  | .EQ => if p.invert then decide (p.cmp rt src ≠ 0) else decide (p.cmp rt src = 0)
  | .NE => if p.invert then decide (p.cmp rt src = 0) else decide (p.cmp rt src ≠ 0)
  | .ISA => if p.invert then decide (p.cmp rt src ≠ 0) else decide (p.cmp rt src = 0)
  | .LIKE => (p.likeMatch rt src).getD false
  | .NOT_LIKE => ((p.likeMatch rt src).map (!·)).getD false
  | .IS_NULL => true
  | .IS_NOT_NULL => false

/-- `op->ft->evaluate` of the other nodes. `_notEvaluate` returns its operand's
value as it is. -/
def QLOperation.evaluate : QLOperation → Bool
  | .and l r invert =>
    if invert then l.evaluate || r.evaluate else l.evaluate && r.evaluate
  | .or l r invert =>
    if invert then l.evaluate && r.evaluate else l.evaluate || r.evaluate
  | .not l _ => l.evaluate
  | .bin p _ => p.evaluate rt src

end Evaluate

/-- `relEliminateNots` on a predicate node, which has no child nodes. -/
def QLPredicate.eliminateNots (p : QLPredicate) (invert : Bool) : QLPredicate :=
  { p with invert := invert }

/-- `relEliminateNots`. The call for the right child passes the left child, so a
right child is never reached. -/
def QLOperation.eliminateNots : QLOperation → Bool → QLOperation
  | .and l r _, inv => .and (l.eliminateNots inv) r inv
  | .or l r _, inv => .or (l.eliminateNots inv) r inv
  | .not l _, inv => .not (l.eliminateNots inv) inv
  | .bin p _, inv => .bin (p.eliminateNots inv) inv

/-! ## The normal forms -/

/-- `appendArray`: grow `t` by one and store, for each element of `f`. -/
def appendArray {α : Type} (t f : List α) : List α := f.foldl (fun t d => t ++ [d]) t

theorem appendArray_eq {α : Type} (t f : List α) : appendArray t f = t ++ f := by
  unfold appendArray
  induction f generalizing t with
  | nil => simp
  | cons d f ih => rw [List.foldl_cons, ih]; simp

/-- The double loop shared by `andGetPredicateDisjunction` and
`orGetPredicateConjunction`: `rd` is allocated with `count(lc) * count(rc)` null
elements, and `rdn` runs through it. -/
def crossLoop {α : Type} (lc rc : List (List α)) : List (List α) :=
  (lc.foldl (fun st lci =>
      rc.foldl (fun st rcii => fillStep st (appendArray (appendArray [] lci) rcii)) st)
    (List.replicate (lc.length * rc.length) [], 0)).1

/-- The loops compute the pairwise concatenation. -/
theorem crossLoop_eq {α : Type} (lc rc : List (List α)) : crossLoop lc rc = cross lc rc := by
  have hinner : ∀ (lci : List α) (st : List (List α) × Nat),
      rc.foldl (fun st rcii => fillStep st (appendArray (appendArray [] lci) rcii)) st
        = (rc.map (lci ++ ·)).foldl fillStep st := by
    intro lci st
    rw [List.foldl_map]
    simp only [appendArray_eq, List.nil_append]
  have hall : ∀ (st : List (List α) × Nat),
      lc.foldl (fun st lci => (rc.map (lci ++ ·)).foldl fillStep st) st
        = (cross lc rc).foldl fillStep st := by
    intro st
    rw [cross, List.foldl_flatMap]
  unfold crossLoop
  simp only [hinner]
  rw [hall]
  exact foldl_fillStep_replicate _ _ _ (length_cross lc rc).symm

/-- `getPredicateDisjunction`. A listed predicate is the `QL_bin` node itself. -/
def QLOperation.getPredicateDisjunction : QLOperation → List (List QLOperation)
  | .and l r _ => crossLoop l.getPredicateDisjunction r.getPredicateDisjunction
  | .or l r _ => appendArray l.getPredicateDisjunction r.getPredicateDisjunction
  | .not l _ => l.getPredicateDisjunction
  | .bin p invert => [[.bin p invert]]

/-- `getPredicateConjunction`. -/
def QLOperation.getPredicateConjunction : QLOperation → List (List QLOperation)
  | .and l r _ => appendArray l.getPredicateConjunction r.getPredicateConjunction
  | .or l r _ => crossLoop l.getPredicateConjunction r.getPredicateConjunction
  | .not l _ => l.getPredicateConjunction
  | .bin p invert => [[.bin p invert]]

/-- A predicate node of the tree. -/
def QLOperation.IsPredicateOf (q : QLOperation) : QLOperation → Prop
  | .and l r _ => q.IsPredicateOf l ∨ q.IsPredicateOf r
  | .or l r _ => q.IsPredicateOf l ∨ q.IsPredicateOf r
  | .not l _ => q.IsPredicateOf l
  | .bin p invert => q = .bin p invert

/-- What a disjunctive form lists are predicates of the tree. -/
theorem isPredicateOf_disjunction (q : QLOperation) (op : QLOperation) :
    ∀ c ∈ op.getPredicateDisjunction, q ∈ c → q.IsPredicateOf op := by
  induction op with
  | and l r invert ihl ihr =>
    intro c hc hq
    rw [QLOperation.getPredicateDisjunction, crossLoop_eq] at hc
    obtain ⟨x, hx, hq⟩ | ⟨y, hy, hq⟩ := mem_of_mem_cross hc hq
    · exact .inl (ihl x hx hq)
    · exact .inr (ihr y hy hq)
  | or l r invert ihl ihr =>
    intro c hc hq
    rw [QLOperation.getPredicateDisjunction, appendArray_eq] at hc
    exact (List.mem_append.mp hc).imp (fun hc => ihl c hc hq) fun hc => ihr c hc hq
  | not l invert ih => exact ih
  | bin p invert =>
    intro c hc hq
    rw [List.mem_singleton.mp hc] at hq
    exact List.mem_singleton.mp hq

/-- So are those of a conjunctive form. -/
theorem isPredicateOf_conjunction (q : QLOperation) (op : QLOperation) :
    ∀ c ∈ op.getPredicateConjunction, q ∈ c → q.IsPredicateOf op := by
  induction op with
  | and l r invert ihl ihr =>
    intro c hc hq
    rw [QLOperation.getPredicateConjunction, appendArray_eq] at hc
    exact (List.mem_append.mp hc).imp (fun hc => ihl c hc hq) fun hc => ihr c hc hq
  | or l r invert ihl ihr =>
    intro c hc hq
    rw [QLOperation.getPredicateConjunction, crossLoop_eq] at hc
    obtain ⟨x, hx, hq⟩ | ⟨y, hy, hq⟩ := mem_of_mem_cross hc hq
    · exact .inl (ihl x hx hq)
    · exact .inr (ihr y hy hq)
  | not l invert ih => exact ih
  | bin p invert =>
    intro c hc hq
    rw [List.mem_singleton.mp hc] at hq
    exact List.mem_singleton.mp hq

/-- Only AND, OR and predicate nodes. -/
def QLOperation.noNot : QLOperation → Bool
  | .and l r _ => l.noNot && r.noNot
  | .or l r _ => l.noNot && r.noNot
  | .not _ _ => false
  | .bin _ _ => true

/-- The connectives carry no `invert` flag: it is only ever set on predicates. -/
def QLOperation.upright : QLOperation → Bool
  | .and l r invert => !invert && l.upright && r.upright
  | .or l r invert => !invert && l.upright && r.upright
  | .not l invert => !invert && l.upright
  | .bin _ invert => !invert

/-- The disjunctive form has the value of the tree. -/
theorem disjunction_eq_evaluate (rt : QLRuntime) (src : QLPropertySource) :
    ∀ (op : QLOperation), op.noNot = true → op.upright = true →
      holdsDisj (QLOperation.evaluate rt src) op.getPredicateDisjunction = op.evaluate rt src := by
  intro op
  induction op with
  | and l r invert ihl ihr =>
    intro hn hu
    simp only [QLOperation.noNot, Bool.and_eq_true] at hn
    simp only [QLOperation.upright, Bool.and_eq_true, Bool.not_eq_true'] at hu
    obtain ⟨⟨hinv, hul⟩, hur⟩ := hu
    rw [QLOperation.getPredicateDisjunction, crossLoop_eq, holdsDisj_cross,
      ihl hn.1 hul, ihr hn.2 hur]
    simp [QLOperation.evaluate, hinv]
  | or l r invert ihl ihr =>
    intro hn hu
    simp only [QLOperation.noNot, Bool.and_eq_true] at hn
    simp only [QLOperation.upright, Bool.and_eq_true, Bool.not_eq_true'] at hu
    obtain ⟨⟨hinv, hul⟩, hur⟩ := hu
    rw [QLOperation.getPredicateDisjunction, appendArray_eq, holdsDisj_append,
      ihl hn.1 hul, ihr hn.2 hur]
    simp [QLOperation.evaluate, hinv]
  | not l invert ih => intro hn _; simp [QLOperation.noNot] at hn
  | bin p invert =>
    intro _ _
    simp [QLOperation.getPredicateDisjunction, holdsDisj]

/-- The conjunctive form has the value of the tree. -/
theorem conjunction_eq_evaluate (rt : QLRuntime) (src : QLPropertySource) :
    ∀ (op : QLOperation), op.noNot = true → op.upright = true →
      holdsConj (QLOperation.evaluate rt src) op.getPredicateConjunction = op.evaluate rt src := by
  intro op
  induction op with
  | and l r invert ihl ihr =>
    intro hn hu
    simp only [QLOperation.noNot, Bool.and_eq_true] at hn
    simp only [QLOperation.upright, Bool.and_eq_true, Bool.not_eq_true'] at hu
    obtain ⟨⟨hinv, hul⟩, hur⟩ := hu
    rw [QLOperation.getPredicateConjunction, appendArray_eq, holdsConj_append,
      ihl hn.1 hul, ihr hn.2 hur]
    simp [QLOperation.evaluate, hinv]
  | or l r invert ihl ihr =>
    intro hn hu
    simp only [QLOperation.noNot, Bool.and_eq_true] at hn
    simp only [QLOperation.upright, Bool.and_eq_true, Bool.not_eq_true'] at hu
    obtain ⟨⟨hinv, hul⟩, hur⟩ := hu
    rw [QLOperation.getPredicateConjunction, crossLoop_eq, holdsConj_cross,
      ihl hn.1 hul, ihr hn.2 hur]
    simp [QLOperation.evaluate, hinv]
  | not l invert ih => intro hn _; simp [QLOperation.noNot] at hn
  | bin p invert =>
    intro _ _
    simp [QLOperation.getPredicateConjunction, holdsConj]

end Sfcb.Query
