import Sfcb.Sql.SetOperations

/-!
# The tree of full selects

`addNodeStm` builds the tree of a statement while it is parsed: one call for every part of
the statement, on a stack of nodes (`cnode`) and the node that was completed last
(`lasttos`). `parse` are the calls for a chain `S₀ op₁ S₁ … opₙ Sₙ`.

`parse_denotes`: each further operation takes the second operand of `lasttos` as its first one
and becomes the second operand itself. So the tree is nested to the right.

Mirroring notes:
- A `FullSelect` is at a place of `heap`, where `newFullSelect` puts it. `setA` and `typeA`
  are one field, so are `setB` and `typeB`.
- Of a `SubSelect` there is its number and the types of its columns, of a `Selection` what
  `calculateFSel` looks at.
- Statements other than SELECT are left out. The outcome `none` is a null pointer that is
  followed.
-/

namespace Sfcb.Sql

/-- `UNDEF`. -/
def UNDEF : Int := -1

/-- What `addNodeStm` returns. -/
def OK : Nat := 1
def CCOUNTERR : Nat := 2000
def CDEFERR : Nat := 3000

structure SubSelect where
  number : Nat
  pi : List Nat
  deriving Repr, DecidableEq

structure Selection where
  orderBy : Option (List Nat)
  fetchFirst : Int
  deriving Repr, DecidableEq

/-- `setA` or `setB` with its type. -/
inductive Operand where
  | undef
  | sub (sbs : SubSelect)
  | ful (fs : Nat)
  deriving Repr, DecidableEq

/-- `type` of a `FullSelect`; `zero` is what `calloc` leaves. -/
inductive SelectType where
  | zero
  | empty
  | operation (type : SetOperation)
  deriving Repr, DecidableEq

structure FullSelect where
  setA : Operand
  setB : Operand
  type : SelectType
  pi : Option (List Nat)
  sigma : Option Selection
  deriving Repr, DecidableEq

def newFullSelect : FullSelect := ⟨.undef, .undef, .zero, none, none⟩

inductive StatementType where
  | UNDEF | SELECT
  deriving Repr, DecidableEq

structure SqlStatement where
  type : StatementType
  stmt : Option Nat
  cnode : List Nat
  lasttos : Option Nat
  lastFs : Option Nat
  heap : List FullSelect
  deriving Repr, DecidableEq

def newSqlStatement : SqlStatement := ⟨.UNDEF, none, [], none, none, []⟩

/-- The parts of a statement, with `value`. -/
inductive Node where
  | INITFUL (value : Nat)
  | FUL (value : Nat)
  | SUB (value : SubSelect)
  | EMPTY
  | operation (type : SetOperation)
  | SIGMA (value : Selection)
  deriving Repr, DecidableEq

/-! ## `addNodeStm` -/

namespace SqlStatement

variable (this : SqlStatement)

/-- Writes to a node. -/
def update (fs : Nat) (f : FullSelect → FullSelect) : Option SqlStatement :=
  (this.heap[fs]?).map fun node => { this with heap := this.heap.set fs (f node) }

/-- `fs` at the beginning of `addNodeStm`. -/
def current (isSub : Bool) : Option Nat :=
  if isSub ∧ this.lastFs ≠ none then this.lasttos else this.cnode.getLast?.or this.lasttos

/-- The columns of a subselect are those of `fsroot`, or become them. -/
def checkColumns (sbs : SubSelect) : Option (SqlStatement × Nat) :=
  (this.cnode.head?.or this.lasttos).bind fun fsroot => (this.heap[fsroot]?).bind fun root =>
    match root.pi with
    | none => (this.update fsroot fun root => { root with pi := some sbs.pi }).map fun s => (s, OK)
    | some pi =>
      if sbs.pi.length = pi.length then
        match (sbs.pi.zip pi).findIdx? fun c => c.1 ≠ c.2 with
        | some i => some (this, CDEFERR + i + 1)
        | none => some (this, OK)
      else some (this, CCOUNTERR)

/-- The case `SUB`. -/
def addSub (fs : Option Nat) (sbs : SubSelect) : Option (SqlStatement × Nat) :=
  (this.checkColumns sbs).bind fun checked =>
    if checked.2 ≠ OK then some checked
    else fs.bind fun fs => (checked.1.heap[fs]?).bind fun node =>
      if node.setA = .undef then
        (checked.1.update fs fun node => { node with setA := .sub sbs }).map fun s => (s, OK)
      else if node.setB = .undef then
        (checked.1.update fs fun node => { node with setB := .sub sbs }).map fun s =>
          ({ s with lasttos := some fs, cnode := s.cnode.dropLast }, OK)
      else some (checked.1, OK)

/-- A new node takes over `setB` of `lasttos`, and is `setB` then. -/
def insertBelow (type : SetOperation) : Option SqlStatement :=
  this.lasttos.bind fun tos => (this.heap[tos]?).bind fun node =>
    let nfs := { newFullSelect with setA := node.setB, type := .operation type }
    (this.update tos fun node => { node with setB := .ful this.heap.length }).map fun s =>
      { s with heap := s.heap ++ [nfs], lasttos := some this.heap.length }

/-- `addNodeStm`. -/
def addNodeStm : Node → Option (SqlStatement × Nat)
  | .INITFUL value =>
    match this.type with
    | .UNDEF =>
      some ({ this with type := .SELECT, stmt := some value, cnode := this.cnode ++ [value] }, OK)
    | _ => some (this, OK)
  | .FUL value =>
    (this.current false).bind fun fs => (this.heap[fs]?).bind fun node =>
      (if node.type ≠ .empty then
        this.update fs fun node =>
          if node.setA = .undef then { node with setA := .ful value }
          else { node with setB := .ful value }
      else some this).map fun s => ({ s with cnode := s.cnode ++ [value] }, OK)
  | .SUB value => this.addSub (this.current true) value
  | .EMPTY =>
    (this.current false).bind fun fs =>
      (this.update fs fun node => { node with type := .empty }).map fun s =>
        ({ s with lasttos := some fs, cnode := s.cnode.dropLast }, OK)
  | .operation type =>
    (this.current false).bind fun fs => (this.heap[fs]?).bind fun node =>
      if type ≠ .INTERSECTALL ∧ node.setB ≠ .undef then
        (this.insertBelow type).map fun s => (s, OK)
      else
        (this.update fs fun node => { node with type := .operation type }).map fun s => (s, OK)
  | .SIGMA value =>
    let this := { this with lastFs := none }
    match this.cnode.getLast?.filter fun fs =>
        (this.heap[fs]?).any fun node => node.setB ≠ .undef with
    | some fs =>
      (this.update fs fun node => { node with sigma := some value }).map fun s =>
        ({ s with lasttos := some fs, cnode := s.cnode.dropLast }, OK)
    | none =>
      this.lasttos.bind fun tos =>
        (this.update tos fun node => { node with sigma := some value }).map fun s => (s, OK)

/-- The parser goes on with `OK` only. -/
def addNode (node : Node) : Option SqlStatement :=
  (this.addNodeStm node).bind fun out => if out.2 = OK then some out.1 else none

end SqlStatement

/-! ## The parser -/

/-- `fullSelectOperation`: the operations of a chain and their second operands, the `i`-th
subselect first. -/
def fullSelectOperation (cols : List Nat) : Nat → List SetOperation → SqlStatement →
    Option SqlStatement
  | _, [], stm => some stm
  | i, op :: ops, stm =>
    (stm.addNode (.operation op)).bind fun stm =>
      (stm.addNode (.SUB ⟨i, cols⟩)).bind (fullSelectOperation cols (i + 1) ops)

/-- `fullSelect` for a chain of subselects, all with the columns `cols`. -/
def parse (cols : List Nat) (ops : List SetOperation) : Option SqlStatement :=
  let stm := { newSqlStatement with heap := [newFullSelect] }
  (stm.addNode (.INITFUL 0)).bind fun stm => (stm.addNode (.SUB ⟨0, cols⟩)).bind fun stm =>
    (if ops = [] then stm.addNode .EMPTY else fullSelectOperation cols 1 ops stm).bind fun stm =>
      stm.addNode (.SIGMA ⟨none, UNDEF⟩)

/-! ## What a tree denotes -/

inductive SetExpr where
  | sub (number : Nat)
  | combine (type : SetOperation) (a b : SetExpr)
  deriving Repr, DecidableEq

/-- The subselects from left to right. -/
def SetExpr.subs : SetExpr → List Nat
  | .sub number => [number]
  | .combine _ a b => a.subs ++ b.subs

/-- How often a row is in the result, when the `i`-th subselect has it `m i` times. -/
def SetExpr.count (m : Nat → Nat) : SetExpr → Nat
  | .sub number => m number
  | .combine type a b => type.sql (a.count m) (b.count m)

/-- What `calculateFSel` combines. With ORDER BY or FETCH FIRST a node denotes nothing. -/
def denote (heap : List FullSelect) : Nat → Operand → Option SetExpr
  | _, .undef => none
  | _, .sub sbs => some (.sub sbs.number)
  | 0, .ful _ => none
  | fuel + 1, .ful fs =>
    (heap[fs]?).bind fun node =>
      if node.sigma.any fun sigma => sigma.orderBy ≠ none ∨ sigma.fetchFirst ≠ UNDEF then none
      else match node.type with
        | .zero => none
        | .empty => denote heap fuel node.setA
        | .operation type =>
          (denote heap fuel node.setA).bind fun a =>
            (denote heap fuel node.setB).map fun b => .combine type a b

/-- `S_i op (S_{i+1} op …)`. -/
def rightNested : Nat → List SetOperation → SetExpr
  | i, [] => .sub i
  | i, op :: ops => .combine op (.sub i) (rightNested (i + 1) ops)

/-- `(a op S_i) op S_{i+1} …`. -/
def leftNested (a : SetExpr) : Nat → List SetOperation → SetExpr
  | _, [] => a
  | i, op :: ops => leftNested (.combine op a (.sub i)) (i + 1) ops

/-! ## What the parser builds -/

/-- A node with another one below it. -/
def innerNode (cols : List Nat) (i : Nat) (op : SetOperation) : FullSelect :=
  ⟨.sub ⟨i, cols⟩, .ful (i + 1), .operation op, some cols, none⟩

/-- The last node. -/
def lastNode (cols : List Nat) (i : Nat) (op : SetOperation) (sigma : Option Selection) : FullSelect :=
  ⟨.sub ⟨i, cols⟩, .sub ⟨i + 1, cols⟩, .operation op, some cols, sigma⟩

def innerNodes (cols : List Nat) : Nat → List SetOperation → List FullSelect
  | _, [] => []
  | i, op :: ops => innerNode cols i op :: innerNodes cols (i + 1) ops

@[simp] theorem length_innerNodes (cols : List Nat) (i : Nat) (ops : List SetOperation) :
    (innerNodes cols i ops).length = ops.length := by
  induction ops generalizing i with
  | nil => rfl
  | cons op ops ih => rw [innerNodes, List.length_cons, ih, List.length_cons]

theorem innerNodes_concat (cols : List Nat) (i : Nat) (ops : List SetOperation)
    (op : SetOperation) : innerNodes cols i (ops ++ [op]) =
      innerNodes cols i ops ++ [innerNode cols (i + ops.length) op] := by
  induction ops generalizing i with
  | nil => rfl
  | cons op' ops ih =>
    rw [List.cons_append, innerNodes, ih, innerNodes, List.cons_append, List.length_cons,
      Nat.add_assoc, Nat.add_comm 1]

/-- The statement after the operations `ops ++ [op]` and their operands. -/
def parsed (cols : List Nat) (ops : List SetOperation) (op : SetOperation) : SqlStatement :=
  ⟨.SELECT, some 0, [], some ops.length, none,
    innerNodes cols 0 ops ++ [lastNode cols ops.length op none]⟩

/-- The node at the end of the heap is changed. -/
theorem update_last {this : SqlStatement} {front : List FullSelect} {node : FullSelect}
    (hheap : this.heap = front ++ [node]) (f : FullSelect → FullSelect) :
    this.update front.length f = some { this with heap := front ++ [f node] } := by
  simp [SqlStatement.update, hheap]

/-- Columns do not differ from themselves. -/
theorem findIdx?_zip_self (cols : List Nat) :
    ((cols.zip cols).findIdx? fun c => !decide (c.1 = c.2)) = none := by
  induction cols with
  | nil => rfl
  | cons col cols ih =>
    rw [List.zip_cons_cons, List.findIdx?_cons, ih]
    simp

/-- The statement after the first subselect. -/
def begun (cols : List Nat) : SqlStatement :=
  ⟨.SELECT, some 0, [0], none, none, [⟨.sub ⟨0, cols⟩, .undef, .zero, some cols, none⟩]⟩

theorem parse_eq_begun (cols : List Nat) (ops : List SetOperation) :
    parse cols ops =
      (if ops = [] then (begun cols).addNode .EMPTY
        else fullSelectOperation cols 1 ops (begun cols)).bind fun stm =>
          stm.addNode (.SIGMA ⟨none, UNDEF⟩) := rfl

/-- The first operation fills the node that is there. -/
theorem fullSelectOperation_begun (cols : List Nat) (op : SetOperation)
    (ops : List SetOperation) :
    fullSelectOperation cols 1 (op :: ops) (begun cols) =
      fullSelectOperation cols 2 ops (parsed cols [] op) := by
  have hcols := findIdx?_zip_self cols
  have hsub : ((begun cols).addNode (.operation op)).bind
      (fun stm => stm.addNode (.SUB ⟨1, cols⟩)) = some (parsed cols [] op) := by
    simp [SqlStatement.addNode, SqlStatement.addNodeStm, SqlStatement.current, SqlStatement.addSub,
      SqlStatement.checkColumns, SqlStatement.update, begun, OK, hcols, parsed, lastNode,
      innerNodes]
  show Option.bind _ (fun stm => Option.bind _ _) = _
  rw [← Option.bind_assoc, hsub]
  rfl

/-- The same where the last operation has no second operand yet. -/
def opened (cols : List Nat) (ops : List SetOperation) (op : SetOperation) : SqlStatement :=
  ⟨.SELECT, some 0, [], some ops.length, none,
    innerNodes cols 0 ops ++
      [⟨.sub ⟨ops.length, cols⟩, .undef, .operation op, none, none⟩]⟩

/-- A further operation goes below the last one. -/
theorem insertBelow_parsed (cols : List Nat) (ops : List SetOperation) (op op' : SetOperation) :
    (parsed cols ops op).insertBelow op' = some (opened cols (ops ++ [op]) op') := by
  have hlast : (parsed cols ops op).heap[ops.length]? = some (lastNode cols ops.length op none) := by
    simp [parsed]
  have hupdate := @update_last (parsed cols ops op) (innerNodes cols 0 ops)
    (lastNode cols ops.length op none) rfl
  rw [length_innerNodes] at hupdate
  show Option.bind ((parsed cols ops op).heap[ops.length]?) _ = _
  rw [hlast]
  show Option.map _ ((parsed cols ops op).update ops.length _) = _
  rw [hupdate]
  simp [opened, innerNodes_concat, parsed, innerNode, lastNode, newFullSelect]

theorem addNode_operation_parsed (cols : List Nat) (ops : List SetOperation)
    (op op' : SetOperation) (hop : op' ≠ .INTERSECTALL) :
    (parsed cols ops op).addNode (.operation op') = some (opened cols (ops ++ [op]) op') := by
  have hlast : (parsed cols ops op).heap[ops.length]? = some (lastNode cols ops.length op none) := by
    simp [parsed]
  have hcurrent : (parsed cols ops op).current false = some ops.length := rfl
  rw [SqlStatement.addNode, SqlStatement.addNodeStm, hcurrent, Option.bind_some, hlast,
    Option.bind_some, if_pos ⟨hop, Operand.noConfusion⟩, insertBelow_parsed]
  rfl

/-- The second operand completes the node. -/
theorem addNode_SUB_opened (cols : List Nat) (ops : List SetOperation) (op : SetOperation) :
    (opened cols ops op).addNode (.SUB ⟨ops.length + 1, cols⟩) = some (parsed cols ops op) := by
  simp [SqlStatement.addNode, SqlStatement.addNodeStm, SqlStatement.current, SqlStatement.addSub,
    SqlStatement.checkColumns, SqlStatement.update, OK, opened, parsed, lastNode]

/-- The loop, from a statement with at least one operation. -/
theorem fullSelectOperation_parsed (cols : List Nat) (ops done : List SetOperation)
    (op : SetOperation) (hops : ∀ o ∈ ops, o ≠ .INTERSECTALL) :
    ∃ front last, done ++ op :: ops = front ++ [last] ∧
      fullSelectOperation cols (done.length + 2) ops (parsed cols done op) =
        some (parsed cols front last) := by
  induction ops generalizing done op with
  | nil => exact ⟨done, op, rfl, rfl⟩
  | cons op' ops ih =>
    have hsub := addNode_SUB_opened cols (done ++ [op]) op'
    rw [List.length_append, List.length_singleton] at hsub
    obtain ⟨front, last, hsplit, hrun⟩ :=
      ih (done ++ [op]) op' fun o ho => hops o (List.mem_cons_of_mem _ ho)
    refine ⟨front, last, by rw [← hsplit, List.append_assoc, List.singleton_append], ?_⟩
    rw [List.length_append, List.length_singleton] at hrun
    rw [fullSelectOperation, addNode_operation_parsed cols done op op' (hops op' List.mem_cons_self),
      Option.bind_some, hsub, Option.bind_some]
    exact hrun

/-- What `SIGMA` leaves, without ORDER BY and FETCH FIRST. -/
def noSigma : Option Selection := some ⟨none, UNDEF⟩

theorem addNode_SIGMA_parsed (cols : List Nat) (ops : List SetOperation) (op : SetOperation) :
    (parsed cols ops op).addNode (.SIGMA ⟨none, UNDEF⟩) =
      some { parsed cols ops op with
        heap := innerNodes cols 0 ops ++ [lastNode cols ops.length op noSigma] } := by
  simp [SqlStatement.addNode, SqlStatement.addNodeStm, SqlStatement.update, OK, parsed, lastNode,
    noSigma]

/-- The nodes for the operations `front ++ [last]`. -/
theorem parse_concat (cols : List Nat) (front : List SetOperation) (last : SetOperation)
    (hops : ∀ o ∈ front ++ [last], o ≠ .INTERSECTALL) :
    parse cols (front ++ [last]) = some { parsed cols front last with
      heap := innerNodes cols 0 front ++ [lastNode cols front.length last noSigma] } := by
  obtain ⟨op, ops, hchain⟩ : ∃ op ops, front ++ [last] = op :: ops :=
    List.exists_cons_of_ne_nil (List.concat_ne_nil last front)
  obtain ⟨front', last', hsplit, hrun⟩ := fullSelectOperation_parsed cols ops [] op
    fun o ho => hops o (hchain ▸ List.mem_cons_of_mem _ ho)
  obtain ⟨rfl, hlast⟩ := List.append_inj' (hchain.trans hsplit) rfl
  obtain rfl : last = last' := List.singleton_inj.mp hlast
  rw [parse_eq_begun, if_neg (List.concat_ne_nil last front), hchain, fullSelectOperation_begun]
  exact (congrArg (Option.bind · _) hrun).trans (addNode_SIGMA_parsed cols front last)

theorem parse_nil (cols : List Nat) :
    parse cols [] = some ⟨.SELECT, some 0, [], some 0, none,
      [⟨.sub ⟨0, cols⟩, .undef, .empty, some cols, noSigma⟩]⟩ := rfl

/-! ## What the tree denotes -/

theorem denote_innerNode {cols : List Nat} {heap : List FullSelect} {fs : Nat}
    {op : SetOperation} (hnode : heap[fs]? = some (innerNode cols fs op)) (fuel : Nat) :
    denote heap (fuel + 1) (.ful fs) =
      (denote heap fuel (.ful (fs + 1))).map (.combine op (.sub fs)) := by
  rw [denote, hnode]
  simp [innerNode, denote]

theorem denote_lastNode {cols : List Nat} {heap : List FullSelect} {fs : Nat}
    {op : SetOperation} (hnode : heap[fs]? = some (lastNode cols fs op noSigma)) (fuel : Nat) :
    denote heap (fuel + 1) (.ful fs) = some (.combine op (.sub fs) (.sub (fs + 1))) := by
  rw [denote, hnode]
  simp [lastNode, noSigma, denote]

/-- The nodes below `above`. -/
theorem denote_nodes (cols : List Nat) (above : List FullSelect) (front : List SetOperation)
    (last : SetOperation) :
    denote (above ++ (innerNodes cols above.length front ++
        [lastNode cols (above.length + front.length) last noSigma]))
      (front.length + 1) (.ful above.length) =
        some (rightNested above.length (front ++ [last])) := by
  induction front generalizing above with
  | nil => exact @denote_lastNode cols _ _ last (by simp [innerNodes]) 0
  | cons op front ih =>
    have hbelow := ih (above ++ [innerNode cols above.length op])
    rw [List.length_append, List.length_singleton, List.append_assoc, List.singleton_append,
      Nat.add_assoc above.length 1, Nat.add_comm 1] at hbelow
    rw [innerNodes, List.cons_append, List.length_cons, List.cons_append, rightNested,
      @denote_innerNode cols _ _ op (by simp), hbelow]
    rfl

/-- The full select of a chain is nested to the right. -/
theorem parse_denotes (cols : List Nat) (ops : List SetOperation)
    (hops : ∀ o ∈ ops, o ≠ .INTERSECTALL) :
    ∃ stm, parse cols ops = some stm ∧ stm.stmt = some 0 ∧
      denote stm.heap stm.heap.length (.ful 0) = some (rightNested 0 ops) := by
  rcases List.eq_nil_or_concat ops with rfl | ⟨front, last, hchain⟩
  · exact ⟨_, parse_nil cols, rfl, rfl⟩
  · rw [List.concat_eq_append] at hchain
    subst hchain
    refine ⟨_, parse_concat cols front last hops, rfl, ?_⟩
    have hnodes := denote_nodes cols [] front last
    rw [List.nil_append, List.length_nil, Nat.zero_add] at hnodes
    show denote _ (List.length (_ ++ _)) _ = _
    rw [List.length_append, length_innerNodes]
    exact hnodes

end Sfcb.Sql
