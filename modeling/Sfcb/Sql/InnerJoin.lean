import Mathlib.Algebra.Ring.Nat
import Sfcb.Sql.SearchCondition
import Sfcb.Sql.SetOperations

/-!
# Joins

`calculateSSel` translates the conditions of a join to column numbers, and `crossproduct`
goes through all pairs of a row of `setA` and a row of `setB` (`traversecross`).

The comparison of the joined columns is commented out: a condition never sets `cmp`, so
every pair is taken (`pairCmp_eq`), in every kind of join. `ul` gets the address of one local
array for every condition. So with several conditions one column is left out and there is
room for fewer.

`givesJoin_iff`: for which relations an inner join comes out right.

Mirroring notes:
- No field of a row is `NULL` and there is no ORDER BY, as in the other modules.
- The block of the array `si` has ended when it is used. It is taken to hold what was
  written last.
- `newRow` has room for a number of fields. A write behind them is `none`, as is a read
  outside of a row. Fields that are not written do not occur: as many columns are left out
  at most as `ul` has entries.
- Rows in the trees are values, since none is changed.
- What is deleted from `pi` is about the columns of the result, not its rows.
-/

namespace Sfcb.Sql

open Sfcb.Lib
open Sfcb.Avl

inductive JoinType where
  | INNER | LEFT | RIGHT | FULL
  deriving Repr, DecidableEq

/-- `int si[3]`: the numbers of two columns, `none` for `-1`, and the link. -/
structure JoinIndex where
  left : Option Nat
  right : Option Nat
  link : Code
  deriving Repr, DecidableEq

/-- `getColumnNr`; `none` is `-1`. -/
def getColumnNr (name : CStr) (ul : List Column) : Option Nat :=
  ul.findIdx? fun col => strcasecmp col.colName name = 0

/-! ## A pair of rows -/

section Pair

variable {v w : Nat}

/-- A field is read. -/
def Row.field (r : Row w) (column : Option Nat) : Option Text := column.bind fun j => r.row[j]?

variable (type : JoinType) (ul : List JoinIndex) (r1 : Row v) (r2 : Row w)

/-- The `switch` over `type`. Nothing is compared in an inner join. -/
def cmp_t (si : JoinIndex) : Option Int :=
  match type with
  | .INNER => some (-1)
  | .LEFT => (r1.field si.left).map fun field => strcmp field.1 (lit "NULL")
  | .RIGHT => (r2.field si.left).bind fun _ =>
    (r2.field si.right).map fun field => strcmp field.1 (lit "NULL")
  | .FULL => (r1.field si.left).bind fun field =>
    if strcmp field.1 (lit "NULL") ≠ 0 then
      (r2.field si.right).map fun field => strcmp field.1 (lit "NULL")
    else some 0

/-- What a condition makes of `cmp`. -/
def cmpStep (cmp : Int) (si : JoinIndex) : Option Int :=
  (cmp_t type r1 r2 si).bind fun cmp_t =>
    if cmp_t ≠ 0 then (r1.field si.left).bind fun _ => (r2.field si.right).map fun _ => cmp
    else some (match si.link with
      | .UNDEF | .OR => 0
      | .AND => if cmp = 1 ∧ cmp_t = 1 then 1 else 0
      | _ => cmp)

/-- `cmp` after all conditions. -/
def pairCmp : Option Int := ul.foldlM (cmpStep type r1 r2) 0

/-- The fields of `r1`, then those of `r2` that are not ignored. -/
def joinTexts : List Text :=
  r1.row ++ (r2.row.zipIdx.filter fun field => ul.all fun si => si.right ≠ some field.2).map
    Prod.fst

/-- `newRow`, and the loops that fill it. -/
def joinRow (size : Nat) : Option (Row size) :=
  if h : (joinTexts ul r1 r2).length = size then some ⟨joinTexts ul r1 r2, 1, h⟩ else none

end Pair

/-! ## All pairs -/

section Cross

variable {α σ : Type}

def pushChild : SearchTree α → List (SearchTree α) → List (SearchTree α)
  | .nil, stack => stack
  | .node l x r b, stack => .node l x r b :: stack

theorem items_pushChild (t : SearchTree α) (stack : List (SearchTree α)) :
    ((pushChild t stack).map fun t => t.toList.length).sum =
      t.toList.length + (stack.map fun t => t.toList.length).sum := by
  cases t with
  | nil => exact (Nat.zero_add _).symm
  | node l x r b => rfl

/-- The loop over `t->stack`: a node, then what is on the right of it, then what is on the
left. -/
def stackWalk (visit : σ → α → Option σ) : List (SearchTree α) → σ → Option σ
  | [], s => some s
  | .nil :: _, _ => none
  | .node l x r _ :: rest, s =>
    let stack := pushChild r (pushChild l rest)
    if AVL_STACK_SIZE < stack.length then none
    else (visit s x).bind fun s => stackWalk visit stack s
termination_by stack => (stack.map fun t => t.toList.length).sum
decreasing_by
  rw [items_pushChild, items_pushChild, List.map_cons, List.sum_cons, SearchTree.toList,
    List.length_append, List.length_cons]
  omega

variable {v w : Nat} (type : JoinType) (ul : List JoinIndex)

/-- A pair of rows in `traversecross`. -/
def visitPair (r1 : Row v) (res : AvlTree (Row (v + w - ul.length))) (r2 : Row w) :
    Option (AvlTree (Row (v + w - ul.length))) :=
  (pairCmp type ul r1 r2).bind fun cmp =>
    if cmp = 0 then
      (joinRow ul r1 r2 (v + w - ul.length)).bind fun rn =>
        (insertAvl item_cmp res rn).map Prod.fst
    else some res

def traversecross (t : AvlTree (Row w)) :
    SearchTree (Row v) → AvlTree (Row (v + w - ul.length)) →
      Option (AvlTree (Row (v + w - ul.length)))
  | .nil, res => some res
  | .node left r1 right _, res =>
    (traversecross t left res).bind fun res =>
      (stackWalk (visitPair type ul r1) (pushChild t.root []) res).bind (traversecross t right)

def crossproduct (setA : AvlTree (Row v)) (setB : AvlTree (Row w)) :
    Option (AvlTree (Row (v + w - ul.length))) :=
  traversecross type ul setB setA.root newAvlTree

end Cross

/-! ## The conditions -/

/-- A `Sigma` with `colB`, which is `NULL` in a condition that is not one of the join. -/
structure JoinSigma extends Sigma where
  colB : Option Column
  deriving Repr, DecidableEq

/-- What the array holds for each of the conditions. -/
def joinIndices (colsA colsB : List Column) (wheres : List JoinSigma) : List JoinIndex :=
  wheres.filterMap fun sigma => sigma.colB.map fun colB =>
    ⟨getColumnNr sigma.colA.colName colsA, getColumnNr colB.colName colsB, sigma.link⟩

/-- `ul`: as many times the address of the array. -/
def joinList (indices : List JoinIndex) : List JoinIndex :=
  match indices.getLast? with
  | none => []
  | some si => List.replicate indices.length si

/-- The rows of a subselect, with its columns. -/
structure Relation (w : Nat) where
  col : List Column
  tree : AvlTree (Row w)
  width : col.length = w
  stored : Stores item_cmp tree tree.root.toList

/-- The rows, in order. -/
def Relation.rows {w : Nat} (A : Relation w) : List (Row w) := A.tree.root.toList

/-- `calculateSSel`, from where `setA` and `setB` are calculated. -/
def calculateSSel {v w : Nat} (type : JoinType) (A : Relation v) (B : Relation w)
    (wheres : List JoinSigma) :
    Option (AvlTree (Row (v + w - (joinList (joinIndices A.col B.col wheres)).length))) :=
  crossproduct type (joinList (joinIndices A.col B.col wheres)) A.tree B.tree

/-! ## The walk -/

section Walk

variable {α σ : Type} (visit : σ → α → Option σ)

/-- The order of the loop. -/
def preorder : SearchTree α → List α
  | .nil => []
  | .node l x r _ => x :: (preorder r ++ preorder l)

theorem preorder_perm (t : SearchTree α) : (preorder t).Perm t.toList := by
  induction t with
  | nil => exact List.Perm.nil
  | node l x r b ihl ihr =>
    rw [preorder, SearchTree.toList]
    exact ((List.perm_append_comm.trans (ihl.append ihr)).cons x).trans List.perm_middle.symm

theorem length_pushChild_le (t : SearchTree α) (stack : List (SearchTree α)) :
    (pushChild t stack).length ≤ stack.length + min 1 t.height := by
  cases t with
  | nil => exact Nat.le_refl _
  | node l x r b =>
    rw [pushChild, List.length_cons, SearchTree.height]
    omega

/-- The loop does what is left of the stack after the tree on top of it. -/
theorem stackWalk_pushChild (t : SearchTree α) (stack : List (SearchTree α)) (s : σ)
    (hroom : stack.length + t.height ≤ AVL_STACK_SIZE) :
    stackWalk visit (pushChild t stack) s =
      ((preorder t).foldlM visit s).bind (stackWalk visit stack) := by
  induction t generalizing stack s with
  | nil => rfl
  | node l x r b ihl ihr =>
    rw [SearchTree.height] at hroom
    have hl := length_pushChild_le l stack
    have hr := length_pushChild_le r (pushChild l stack)
    rw [pushChild, stackWalk, preorder, List.foldlM_cons, if_neg (by omega)]
    show Option.bind _ _ = Option.bind (Option.bind _ _) _
    rw [Option.bind_assoc]
    congr 1
    funext s'
    rw [ihr (pushChild l stack) s' (by omega), List.foldlM_append]
    show _ = Option.bind (Option.bind _ _) _
    rw [Option.bind_assoc]
    congr 1
    funext s''
    exact ihl stack s'' (by omega)

end Walk

section Adds

variable {w : Nat}

/-- The tree has a row with these texts. -/
def Contains (t : AvlTree (Row w)) (x : List Text) : Prop := ∃ r ∈ t.root.toList, r.row = x

/-- What a part of the walk does to the tree: it puts the rows `P` in, which takes at most
`k` insertions. -/
def Adds (run : AvlTree (Row w) → Option (AvlTree (Row w))) (k : Nat)
    (P : List Text → Prop) : Prop :=
  ∀ t, Stores item_cmp t t.root.toList → t.root.toList.length + k ≤ 2 ^ 64 →
    ∃ t', run t = some t' ∧ Stores item_cmp t' t'.root.toList ∧
      t'.root.toList.length ≤ t.root.toList.length + k ∧
      ∀ x, Contains t' x ↔ Contains t x ∨ P x

theorem stores_self {t : AvlTree (Row w)} {s : List (Row w)} (h : Stores item_cmp t s) :
    Stores item_cmp t t.root.toList :=
  ⟨h.search, h.balanced, List.Perm.refl _, by rw [h.items.length_eq, h.count]⟩

theorem adds_insertAvl (rn : Row w) :
    Adds (fun t => (insertAvl item_cmp t rn).map Prod.fst) 1 fun x => rn.row = x := by
  intro t ht hroom
  obtain ⟨t', hrun, ht'⟩ := step_some totalOrder_item_cmp ht (by omega) (.insert rn)
  have hrun : insertAvl item_cmp t rn = some (t', _) := hrun
  have hmem : ∀ r, r ∈ t'.root.toList ↔ _ := fun r => ht'.items.mem_iff
  have hlen := ht'.items.length_eq
  refine ⟨t', by simp only [hrun, Option.map_some], stores_self ht', ?_, fun x => ?_⟩
  · rw [hlen]
    simp only [apply]
    split
    · exact Nat.le_add_right _ _
    · exact Nat.le_refl _
  · unfold Contains
    simp only [hmem, apply]
    split
    · next y heq =>
      -- the row is there already
      have hy := List.mem_of_find?_eq_some heq
      have hrow : rn.row = y.row :=
        (item_cmp_eq_zero_iff rn y).mp (by simpa using List.find?_some heq)
      refine ⟨Or.inl, fun h => h.elim id fun hx => ⟨y, hy, hrow.symm.trans hx⟩⟩
    · simp [or_comm]

/-- A loop over parts. -/
theorem Adds.foldlM {β : Type} {visit : AvlTree (Row w) → β → Option (AvlTree (Row w))}
    {k : Nat} {P : β → List Text → Prop} {ys : List β}
    (h : ∀ y ∈ ys, Adds (fun t => visit t y) k (P y)) :
    Adds (fun t => ys.foldlM visit t) (ys.length * k) fun x => ∃ y ∈ ys, P y x := by
  induction ys with
  | nil => exact fun t ht _ => ⟨t, rfl, ht, Nat.le_add_right _ _, by simp⟩
  | cons y ys ih =>
    intro t ht hroom
    rw [List.length_cons, Nat.succ_mul] at hroom
    obtain ⟨t', hrun, ht', hlen, hrows⟩ := h y List.mem_cons_self t ht (by omega)
    obtain ⟨t'', hrun', ht'', hlen', hrows'⟩ :=
      ih (fun z hz => h z (List.mem_cons_of_mem _ hz)) t' ht' (by omega)
    refine ⟨t'', ?_, ht'', by rw [List.length_cons, Nat.succ_mul]; omega, fun x => ?_⟩
    · show (y :: ys).foldlM visit t = _
      rw [List.foldlM_cons]
      exact (congrArg (Option.bind · _) hrun).trans hrun'
    · rw [hrows', hrows, or_assoc]
      simp

end Adds

/-! ## All pairs are taken -/

section Pairs

variable {v w : Nat} {ul : List JoinIndex}

theorem foldlM_cmpStep_INNER {r1 : Row v} {r2 : Row w} (cmp : Int)
    (hin : ∀ si ∈ ul, (r1.field si.left).isSome ∧ (r2.field si.right).isSome) :
    ul.foldlM (cmpStep .INNER r1 r2) cmp = some cmp := by
  induction ul with
  | nil => rfl
  | cons si ul ih =>
    obtain ⟨hleft, hright⟩ := hin si List.mem_cons_self
    obtain ⟨s, hs⟩ := Option.isSome_iff_exists.mp hleft
    obtain ⟨s', hs'⟩ := Option.isSome_iff_exists.mp hright
    have hstep : cmpStep .INNER r1 r2 cmp si = some cmp := by
      simp [cmpStep, cmp_t, hs, hs']
    rw [List.foldlM_cons, hstep]
    exact ih fun si' hmem => hin si' (List.mem_cons_of_mem _ hmem)

/-- The conditions do not matter. -/
theorem pairCmp_eq {r1 : Row v} {r2 : Row w}
    (hin : ∀ si ∈ ul, (r1.field si.left).isSome ∧ (r2.field si.right).isSome) :
    pairCmp .INNER ul r1 r2 = some 0 :=
  foldlM_cmpStep_INNER 0 hin

theorem visitPair_eq {r1 : Row v} {r2 : Row w} {res : AvlTree (Row (v + w - ul.length))}
    (hin : ∀ si ∈ ul, (r1.field si.left).isSome ∧ (r2.field si.right).isSome) :
    visitPair .INNER ul r1 res r2 =
      (joinRow ul r1 r2 (v + w - ul.length)).bind fun rn =>
        (insertAvl item_cmp res rn).map Prod.fst := by
  rw [visitPair, pairCmp_eq hin]
  rfl

theorem traversecross_eq_foldlM (type : JoinType) (t : AvlTree (Row w))
    (node : SearchTree (Row v)) (res : AvlTree (Row (v + w - ul.length))) :
    traversecross type ul t node res = node.toList.foldlM
      (fun res r1 => stackWalk (visitPair type ul r1) (pushChild t.root []) res) res := by
  induction node generalizing res with
  | nil => rfl
  | node left r1 right b ihl ihr =>
    rw [traversecross, SearchTree.toList, List.foldlM_append, ihl]
    show Option.bind _ _ = Option.bind _ _
    congr 1
    funext res'
    rw [List.foldlM_cons]
    show Option.bind _ _ = Option.bind _ _
    congr 1
    funext res''
    exact ihr res''

variable {setA : AvlTree (Row v)} {setB : AvlTree (Row w)}
  (hin : ∀ r1 ∈ setA.root.toList, ∀ r2 ∈ setB.root.toList, ∀ si ∈ ul,
    (r1.field si.left).isSome ∧ (r2.field si.right).isSome)
include hin

/-- Where a row comes out of every pair, these are the rows of the result. -/
theorem crossproduct_spec (hB : Stores item_cmp setB setB.root.toList)
    (hsize : ∀ r1 ∈ setA.root.toList, ∀ r2 ∈ setB.root.toList,
      (joinTexts ul r1 r2).length = v + w - ul.length)
    (hroom : setA.root.toList.length * setB.root.toList.length < 2 ^ 64) :
    ∃ res, crossproduct .INNER ul setA setB = some res ∧
      ∀ x, Contains res x ↔
        ∃ r1 ∈ setA.root.toList, ∃ r2 ∈ setB.root.toList, joinTexts ul r1 r2 = x := by
  have hvisit : ∀ r1 ∈ setA.root.toList, ∀ r2 ∈ preorder setB.root,
      Adds (fun res => visitPair .INNER ul r1 res r2) 1 fun x => joinTexts ul r1 r2 = x := by
    intro r1 h1 r2 h2
    have h2 := (preorder_perm setB.root).mem_iff.mp h2
    have hrow : joinRow ul r1 r2 (v + w - ul.length) =
        some ⟨joinTexts ul r1 r2, 1, hsize r1 h1 r2 h2⟩ := dif_pos (hsize r1 h1 r2 h2)
    simp only [visitPair_eq (hin r1 h1 r2 h2), hrow, Option.bind_some]
    exact adds_insertAvl _
  have hloop : ∀ r1 ∈ setA.root.toList,
      Adds (fun res => stackWalk (visitPair .INNER ul r1) (pushChild setB.root []) res)
        setB.root.toList.length fun x => ∃ r2 ∈ setB.root.toList, joinTexts ul r1 r2 = x := by
    intro r1 h1
    have hlen : setB.root.toList.length < 2 ^ 64 :=
      Nat.lt_of_le_of_lt (Nat.le_mul_of_pos_left _ (List.length_pos_of_mem h1)) hroom
    have hheight := hB.height_lt hlen
    have hfold := Adds.foldlM (hvisit r1 h1)
    rw [Nat.mul_one, (preorder_perm setB.root).length_eq] at hfold
    simp only [(preorder_perm setB.root).mem_iff] at hfold
    have hwalk : ∀ res, stackWalk (visitPair .INNER ul r1) (pushChild setB.root []) res =
        (preorder setB.root).foldlM (visitPair .INNER ul r1) res := by
      intro res
      have hend : stackWalk (visitPair (w := w) .INNER ul r1) [] = some :=
        funext fun res => by rw [stackWalk]
      rw [stackWalk_pushChild _ _ _ _ (by rw [AVL_STACK_SIZE, List.length_nil]; omega), hend]
      exact Option.bind_fun_some _
    simp only [hwalk]
    exact hfold
  obtain ⟨res, hrun, -, -, hrows⟩ :=
    Adds.foldlM hloop newAvlTree stores_newAvlTree (by
      rw [show newAvlTree.root.toList.length = 0 from rfl]
      omega)
  refine ⟨res, (traversecross_eq_foldlM ..).trans hrun, fun x => (hrows x).trans ?_⟩
  rw [or_iff_right]
  rintro ⟨r, hr, -⟩
  exact absurd hr List.not_mem_nil

/-- Where no row comes out of any pair, and there are pairs, there is no result. -/
theorem crossproduct_eq_none
    (hsize : ∀ r1 ∈ setA.root.toList, ∀ r2 ∈ setB.root.toList,
      (joinTexts ul r1 r2).length ≠ v + w - ul.length)
    (hA : setA.root.toList ≠ []) (hne : setB.root.toList ≠ []) :
    crossproduct .INNER ul setA setB = none := by
  obtain ⟨r1, rest, hrows⟩ := List.exists_cons_of_ne_nil hA
  have h1 : r1 ∈ setA.root.toList := by rw [hrows]; exact List.mem_cons_self
  refine (traversecross_eq_foldlM ..).trans ?_
  rw [hrows, List.foldlM_cons]
  cases hroot : setB.root with
  | nil => exact absurd (by rw [hroot]; rfl) hne
  | node l r2 r b =>
    have h2 : r2 ∈ setB.root.toList := by
      rw [hroot, SearchTree.toList]
      exact List.mem_append_right _ List.mem_cons_self
    have hnone : joinRow ul r1 r2 (v + w - ul.length) = none := dif_neg (hsize r1 h1 r2 h2)
    rw [pushChild, stackWalk, visitPair_eq (hin r1 h1 r2 h2), hnone]
    split <;> rfl

end Pairs

/-! ## Equality conditions -/

section Conditions

variable {v w : Nat} {A : Relation v} {B : Relation w}

/-- An equality of a column of `A` and a column of `B`; AND links it to the others. -/
structure JoinCondition (A : Relation v) (B : Relation w) where
  sigma : JoinSigma
  colB : Column
  left : Nat
  right : Nat
  hasColB : sigma.colB = some colB
  isEquality : sigma.op = .EQ
  isAnd : sigma.link = .UNDEF ∨ sigma.link = .AND
  leftNr : getColumnNr sigma.colA.colName A.col = some left
  rightNr : getColumnNr colB.colName B.col = some right

/-- The rows agree on all joined columns. -/
def Agree (conds : List (JoinCondition A B)) (a : Row v) (b : Row w) : Prop :=
  ∀ c ∈ conds, a.row[c.left]? = b.row[c.right]?

instance (conds : List (JoinCondition A B)) (a : Row v) (b : Row w) :
    Decidable (Agree conds a b) :=
  inferInstanceAs (Decidable (∀ c ∈ conds, _))

/-- The columns of a row that are not joined. -/
def otherColumns (conds : List (JoinCondition A B)) (b : Row w) : List Text :=
  (b.row.zipIdx.filter fun field => conds.all fun c => c.right ≠ field.2).map Prod.fst

/-- The rows of the result are those of the pairs that agree. -/
def GivesJoin (conds : List (JoinCondition A B)) : Prop :=
  ∃ res, calculateSSel .INNER A B (conds.map (·.sigma)) = some res ∧
    ∀ x, Contains res x ↔
      ∃ a ∈ A.rows, ∃ b ∈ B.rows, Agree conds a b ∧ a.row ++ otherColumns conds b = x

/-- There is a single condition, and for every pair another right row that agrees and has the
same other columns. Or there are no pairs. -/
def Covered (conds : List (JoinCondition A B)) : Prop :=
  A.rows = [] ∨ B.rows = [] ∨ conds.length = 1 ∧ ∀ a ∈ A.rows, ∀ b ∈ B.rows,
    ∃ b' ∈ B.rows, Agree conds a b' ∧ otherColumns conds b' = otherColumns conds b

namespace JoinCondition

variable (c : JoinCondition A B)

def index : JoinIndex := ⟨some c.left, some c.right, c.sigma.link⟩

theorem left_lt : c.left < v := by
  obtain ⟨hlt, -⟩ := List.findIdx?_eq_some_iff_getElem.mp c.leftNr
  rwa [A.width] at hlt

theorem right_lt : c.right < w := by
  obtain ⟨hlt, -⟩ := List.findIdx?_eq_some_iff_getElem.mp c.rightNr
  rwa [B.width] at hlt

theorem field_left (a : Row v) : (a.field c.index.left).isSome := by
  show (a.row[c.left]?).isSome
  rw [List.getElem?_eq_getElem (by rw [a.size]; exact c.left_lt)]
  rfl

theorem field_right (b : Row w) : (b.field c.index.right).isSome := by
  show (b.row[c.right]?).isSome
  rw [List.getElem?_eq_getElem (by rw [b.size]; exact c.right_lt)]
  rfl

end JoinCondition

theorem joinIndices_map (conds : List (JoinCondition A B)) :
    joinIndices A.col B.col (conds.map (·.sigma)) = conds.map (·.index) := by
  induction conds with
  | nil => rfl
  | cons c conds ih =>
    rw [joinIndices] at ih ⊢
    rw [List.map_cons, List.filterMap_cons, c.hasColB, ih]
    show JoinIndex.mk (getColumnNr _ _) (getColumnNr _ _) _ :: _ = _
    rw [c.leftNr, c.rightNr]
    rfl

theorem joinList_concat (front : List (JoinCondition A B)) (last : JoinCondition A B) :
    joinList (joinIndices A.col B.col ((front ++ [last]).map (·.sigma))) =
      List.replicate (front.length + 1) last.index := by
  rw [joinIndices_map, joinList, List.map_append, List.map_singleton, List.getLast?_concat]
  simp

theorem length_filter_zipIdx {α : Type} (l : List α) {j : Nat} (hj : j < l.length) :
    (l.zipIdx.filter fun p => p.2 != j).length = l.length - 1 := by
  have hmap := List.filter_map (f := Prod.snd) (p := (· != j)) (l := l.zipIdx)
  have hnodup : (List.range' 0 l.length).Nodup := List.nodup_range'
  rw [List.zipIdx_map_snd, ← hnodup.erase_eq_filter] at hmap
  have hlen := congrArg List.length hmap
  rw [List.length_map, List.length_erase_of_mem (by rw [List.mem_range'_1]; omega),
    List.length_range'] at hlen
  exact hlen.symm

/-- One column of the right row is left out, whatever the number of conditions. -/
theorem length_joinTexts_replicate (n : Nat) (c : JoinCondition A B) (a : Row v) (b : Row w) :
    (joinTexts (List.replicate (n + 1) c.index) a b).length = v + (w - 1) := by
  have hj : c.right < b.row.length := by
    rw [b.size]
    exact c.right_lt
  have hfilter := length_filter_zipIdx b.row hj
  have hpred : ∀ field : Text × Nat,
      (List.replicate (n + 1) c.index).all (fun si => si.right ≠ some field.2) =
        (field.2 != c.right) := by
    intro field
    rw [List.all_replicate, if_neg (Nat.succ_ne_zero n)]
    simp [JoinCondition.index, bne, eq_comm]
    rfl
  rw [joinTexts, List.length_append, List.length_map, a.size]
  simp only [hpred, hfilter, b.size]

theorem joinTexts_single (c : JoinCondition A B) (a : Row v) (b : Row w) :
    joinTexts (List.replicate 1 c.index) a b = a.row ++ otherColumns [c] b := by
  simp [joinTexts, otherColumns, JoinCondition.index]

/-- There are not more columns to join than there are. -/
theorem length_le_of_nodup {conds : List (JoinCondition A B)}
    (hnodup : (conds.map (·.right)).Nodup) : conds.length ≤ w := by
  have hsub : conds.map (·.right) ⊆ List.range w := by
    intro j hj
    obtain ⟨c, -, rfl⟩ := List.mem_map.mp hj
    exact List.mem_range.mpr c.right_lt
  have hle := (List.subperm_of_subset hnodup hsub).length_le
  rwa [List.length_map, List.length_range] at hle

/-- The rows, where there is one condition or no pair. -/
theorem calculateSSel_spec (front : List (JoinCondition A B)) (last : JoinCondition A B)
    (hsingle : A.rows = [] ∨ B.rows = [] ∨ front = [])
    (hroom : A.rows.length * B.rows.length < 2 ^ 64) :
    ∃ res, calculateSSel .INNER A B ((front ++ [last]).map (·.sigma)) = some res ∧
      ∀ x, Contains res x ↔
        ∃ a ∈ A.rows, ∃ b ∈ B.rows, a.row ++ otherColumns (front ++ [last]) b = x := by
  have hlist := joinList_concat front last
  have hin : ∀ a ∈ A.rows, ∀ b ∈ B.rows, ∀ si ∈ List.replicate (front.length + 1) last.index,
      (a.field si.left).isSome ∧ (b.field si.right).isSome := by
    intro a _ b _ si hsi
    obtain rfl := List.eq_of_mem_replicate hsi
    exact ⟨last.field_left a, last.field_right b⟩
  have hfront : ∀ a ∈ A.rows, ∀ b ∈ B.rows, front = [] := by
    intro a ha b hb
    rcases hsingle with hnil | hnil | hnil
    · exact absurd (hnil ▸ ha) List.not_mem_nil
    · exact absurd (hnil ▸ hb) List.not_mem_nil
    · exact hnil
  have hsize : ∀ a ∈ A.rows, ∀ b ∈ B.rows,
      (joinTexts (List.replicate (front.length + 1) last.index) a b).length =
        v + w - (List.replicate (front.length + 1) last.index).length := by
    intro a ha b hb
    have hlt := last.right_lt
    rw [length_joinTexts_replicate, List.length_replicate, hfront a ha b hb, List.length_nil]
    omega
  obtain ⟨res, hrun, hrows⟩ := crossproduct_spec hin B.stored hsize hroom
  unfold calculateSSel
  rw [hlist]
  refine ⟨res, hrun, fun x => (hrows x).trans ?_⟩
  constructor
  · rintro ⟨a, ha, b, hb, rfl⟩
    obtain rfl := hfront a ha b hb
    exact ⟨a, ha, b, hb, (joinTexts_single last a b).symm⟩
  · rintro ⟨a, ha, b, hb, rfl⟩
    obtain rfl := hfront a ha b hb
    exact ⟨a, ha, b, hb, joinTexts_single last a b⟩

/-- Several conditions and a pair: the first row that is made does not fit. -/
theorem calculateSSel_eq_none {front : List (JoinCondition A B)} {last : JoinCondition A B}
    (hnodup : ((front ++ [last]).map (·.right)).Nodup) (hfront : front ≠ [])
    (hA : A.rows ≠ []) (hB : B.rows ≠ []) :
    calculateSSel .INNER A B ((front ++ [last]).map (·.sigma)) = none := by
  have hlist := joinList_concat front last
  have hpos := List.length_pos_of_ne_nil hfront
  have hle := length_le_of_nodup hnodup
  rw [List.length_append, List.length_singleton] at hle
  unfold calculateSSel
  rw [hlist]
  refine crossproduct_eq_none ?_ ?_ hA hB
  · intro a _ b _ si hsi
    obtain rfl := List.eq_of_mem_replicate hsi
    exact ⟨last.field_left a, last.field_right b⟩
  · intro a _ b _
    rw [length_joinTexts_replicate, List.length_replicate]
    omega

/-- An inner join comes out right where every pair is covered by one that agrees. Each of the
pairs gets a row, and there is not more memory than `2 ^ 64`. -/
theorem givesJoin_iff (A : Relation v) (B : Relation w) (conds : List (JoinCondition A B))
    (hne : conds ≠ []) (hnodup : (conds.map (·.right)).Nodup)
    (hroom : A.rows.length * B.rows.length < 2 ^ 64) : GivesJoin conds ↔ Covered conds := by
  obtain ⟨front, last, rfl⟩ : ∃ front last, conds = front ++ [last] :=
    ⟨_, _, (List.dropLast_append_getLast hne).symm⟩
  constructor
  · rintro ⟨res, hrun, hrows⟩
    by_cases hA : A.rows = []
    · exact .inl hA
    by_cases hB : B.rows = []
    · exact .inr (.inl hB)
    by_cases hfront : front = []
    · subst hfront
      refine .inr (.inr ⟨rfl, fun a ha b hb => ?_⟩)
      obtain ⟨res', hrun', hrows'⟩ := calculateSSel_spec [] last (.inr (.inr rfl)) hroom
      obtain rfl := Option.some.inj (hrun.symm.trans hrun')
      obtain ⟨a', ha', b', hb', hagree, heq⟩ :=
        (hrows _).mp ((hrows' _).mpr ⟨a, ha, b, hb, rfl⟩)
      obtain ⟨hrow, hother⟩ := List.append_inj heq (a'.size.trans a.size.symm)
      refine ⟨b', hb', fun c hc => ?_, hother⟩
      rw [← hrow]
      exact hagree c hc
    · exact absurd hrun (by rw [calculateSSel_eq_none hnodup hfront hA hB]; exact nofun)
  · intro hcovered
    have hsingle : A.rows = [] ∨ B.rows = [] ∨ front = [] := by
      refine hcovered.imp_right (Or.imp_right fun h => ?_)
      have hlen := h.1
      rw [List.length_append, List.length_singleton] at hlen
      exact List.eq_nil_of_length_eq_zero (by omega)
    obtain ⟨res, hrun, hrows⟩ := calculateSSel_spec front last hsingle hroom
    refine ⟨res, hrun, fun x => (hrows x).trans ?_⟩
    constructor
    · rintro ⟨a, ha, b, hb, rfl⟩
      rcases hcovered with hnil | hnil | ⟨-, hpartner⟩
      · exact absurd (hnil ▸ ha) List.not_mem_nil
      · exact absurd (hnil ▸ hb) List.not_mem_nil
      · obtain ⟨b', hb', hagree, hother⟩ := hpartner a ha b hb
        exact ⟨a, ha, b', hb', hagree, by rw [hother]⟩
    · rintro ⟨a, ha, b, hb, -, rfl⟩
      exact ⟨a, ha, b, hb, rfl⟩

end Conditions

section Sample

/-- A relation of one row. -/
def oneRow {w : Nat} (col : List Column) (width : col.length = w) (r : Row w) : Relation w :=
  ⟨col, ⟨.node .nil r .nil 0, 1⟩, width, by simp [SearchTree.IsSearch, SearchTree.toList],
    by simp [SearchTree.Balanced, SearchTree.height], List.Perm.refl _,
    ((cInt_eq_iff 1).mpr (by decide)).symm⟩

def systemColumns : List Column :=
  [⟨lit "A", lit "Name", .string⟩, ⟨lit "A", lit "System", .string⟩]

def stateColumns : List Column :=
  [⟨lit "B", lit "System", .string⟩, ⟨lit "B", lit "State", .string⟩]

/-- The row of table `A` with this `System`. -/
def systems (system : Text) : Relation 2 :=
  oneRow systemColumns rfl ⟨[⟨lit "a", zero_notMem_a⟩, system], 1, rfl⟩

/-- The row of table `B` with this `System`. -/
def states (system : Text) : Relation 2 :=
  oneRow stateColumns rfl ⟨[system, ⟨lit "on", by decide⟩], 1, rfl⟩

/-- `A.System = B.System`. -/
def systemCondition (system system' : Text) :
    JoinCondition (systems system) (states system') where
  sigma := ⟨⟨.UNDEF, .EQ, ⟨lit "A", lit "System", .string⟩, none, none⟩,
    some ⟨lit "B", lit "System", .string⟩⟩
  colB := ⟨lit "B", lit "System", .string⟩
  left := 1
  right := 0
  hasColB := rfl
  isEquality := rfl
  isAnd := .inl rfl
  leftNr := show getColumnNr (lit "System") systemColumns = some 1 by decide
  rightNr := show getColumnNr (lit "System") stateColumns = some 0 by decide

/-- One row on either side, with the same `System`. -/
theorem givesJoin_same :
    GivesJoin [systemCondition ⟨lit "x", by decide⟩ ⟨lit "x", by decide⟩] :=
  (givesJoin_iff _ _ _ (List.cons_ne_nil _ _) (by decide) (by decide)).mpr
    (.inr (.inr ⟨rfl, by decide⟩))

/-- One row on either side, with different `System`: they are joined. -/
theorem not_givesJoin :
    ¬GivesJoin [systemCondition ⟨lit "x", by decide⟩ ⟨lit "y", by decide⟩] := by
  rintro ⟨res, hrun, hrows⟩
  obtain ⟨res', hrun', hrows'⟩ := calculateSSel_spec []
    (systemCondition ⟨lit "x", by decide⟩ ⟨lit "y", by decide⟩) (.inr (.inr rfl)) (by decide)
  obtain rfl := Option.some.inj (hrun.symm.trans hrun')
  obtain ⟨a, ha, b, hb, hagree, -⟩ := (hrows _).mp
    ((hrows' _).mpr ⟨_, List.mem_cons_self, _, List.mem_cons_self, rfl⟩)
  obtain rfl := List.mem_singleton.mp ha
  obtain rfl := List.mem_singleton.mp hb
  exact absurd (hagree _ List.mem_cons_self) (by decide)

end Sample

end Sfcb.Sql
