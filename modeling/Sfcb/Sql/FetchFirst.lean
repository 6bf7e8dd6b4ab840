import Mathlib.Algebra.Ring.Int.Defs
import Mathlib.Data.List.Dedup
import Sfcb.Sql.RowOrder

/-!
# ORDER BY and FETCH FIRST

`calculateSSel` inserts the rows of a class into a tree in the order of the keys and then
takes them out again, the least one first, until it has as many as FETCH FIRST says.
`fetchfirst` does the same for a full select, after `reorder`. The number that a row is there
counts, and that of the last one may be cut.

Both loops read `r->doublette` before they ask if there was a row: with fewer rows than FETCH
FIRST says they follow a null pointer. `selects_iff` says that nothing else goes wrong while
the keys are names and none of them is left out of the comparison (`Uncut`), and that for
other lists of names something does.

Mirroring notes:
- A tree holds the rows themselves, as in C: what is compared is what `row` gives for them,
  and their numbers are kept beside the trees (`doublette`).
- `test` is `testSigma`.
- A comparison that follows a null pointer or reads behind a row is the end. It is asked for
  all rows that are in the tree and not only for those on the way down.
- A name that no column has is an error: `found` has no value before.
-/

namespace Sfcb.Sql.FetchFirst

open Sfcb.Lib
open Sfcb.Avl
open Sfcb.Lib.FiniteSet (equal remove least)
open Sfcb.Sql.RowOrder

/-! ## The keys -/

structure OrderColumn where
  colName : CStr
  colAlias : CStr
  colSQLType : SqlType
  deriving DecidableEq, Repr

/-- A `sortKey` is the number of a column, or its name. -/
inductive SortKey where
  | number (colnr : Int) (order : Direction)
  | name (s : CStr) (order : Direction)
  deriving DecidableEq, Repr

section Keys

variable (columnList : List OrderColumn)

/-- The column that has the name. -/
def namedKey (s : CStr) (order : Direction) : Option Order :=
  (columnList.findIdx? fun col => strcasecmp col.colName s = 0 ∨ strcasecmp col.colAlias s = 0).bind
    fun i => (columnList[i]?).map fun col => ⟨i, col.colSQLType, order⟩

/-- The action of `sortKey`. A number counts from one, the columns of a row from zero. -/
def sortKey : SortKey → Option Order
  | .number colnr order =>
    if colnr > columnList.length ∨ colnr < 1 then none
    else (columnList[(colnr - 1).toNat]?).map fun col => ⟨colnr.toNat, col.colSQLType, order⟩
  | .name s order => namedKey columnList s order

def sortKeyList (keys : List SortKey) : Option (List Order) := keys.mapM (sortKey columnList)

/-- The column that is meant. -/
def requestedKey : SortKey → Option Order
  | .number colnr order =>
    if colnr > columnList.length ∨ colnr < 1 then none
    else (columnList[(colnr - 1).toNat]?).map
      fun col => ⟨(colnr - 1).toNat, col.colSQLType, order⟩
  | .name s order => namedKey columnList s order

def requestedKeys (keys : List SortKey) : Option (List Order) :=
  keys.mapM (requestedKey columnList)

end Keys

/-! ## The selects -/

inductive Mode where
  | ALL | DISTINCT
  deriving DecidableEq, Repr

section Select

variable {α : Type} [DecidableEq α] (row : α → Fields) (orders : List Order)

/-- `r->doublette = d`. -/
def setDoublette (doublette : α → Int) (r : α) (d : Int) : α → Int :=
  fun a => if a = r then d else doublette a

/-- The comparison function of a tree. -/
def compar (a b : α) : Int := (RowOrder.item_cmp orders (row a) (row b)).getD 0

/-- `t->insert(t, a)`. -/
def insertRow (t : AvlTree α) (a : α) : Option (AvlTree α × Option α) :=
  if t.root.toList.all fun b => (RowOrder.item_cmp orders (row a) (row b)).isSome then
    insertAvl (compar row orders) t a
  else none

structure SelectState (α : Type) where
  set : AvlTree α
  doublette : α → Int
  rcount : Int

/-- What is counted for a row after `insert` has returned the one that was there. -/
def countRow (mode : Mode) (s : SelectState α) (out : AvlTree α × Option α) : SelectState α :=
  match out.2 with
  | some r =>
    if mode = .ALL then
      ⟨out.1, setDoublette s.doublette r (cInt (s.doublette r + 1)), cInt (s.rcount + 1)⟩
    else ⟨out.1, s.doublette, s.rcount⟩
  | none => ⟨out.1, s.doublette, cInt (s.rcount + 1)⟩

/-- The loop over the instances. -/
def selectLoop (mode : Mode) (test : Fields → Bool) (fetchFirst : Int) :
    List α → SelectState α → Option (SelectState α)
  | [], s => some s
  | a :: rest, s =>
    if orders = [] ∧ s.rcount = fetchFirst then some s
    else if test (row a) = false then selectLoop mode test fetchFirst rest s
    else
      (insertRow row orders s.set a).bind fun out =>
        selectLoop mode test fetchFirst rest (countRow mode s out)

structure FetchState (α : Type) where
  t : AvlTree α
  ot : AvlTree α
  doublette : α → Int
  i : Int

/-- The loop of `fetchfirst`. Each round takes out a row, or is the last one: the number of
rows and one more are enough. -/
def fetchLoop (ff : Int) : Nat → FetchState α → Option (FetchState α)
  | 0, _ => none
  | fuel + 1, s =>
    if s.i < ff then
      (deleteMinAvl s.t).bind fun out =>
        match out.2 with
        | none => none
        | some r =>
          let i := cInt (s.i + s.doublette r)
          let doublette :=
            if i > ff then setDoublette s.doublette r (cInt (s.doublette r - i + ff))
            else s.doublette
          (insertRow row orders s.ot r).bind fun ot =>
            fetchLoop ff fuel ⟨out.1, ot.1, doublette, i⟩
    else some s

def fetchfirst (doublette : α → Int) (t : AvlTree α) (ff : Int) : Option ((α → Int) × AvlTree α) :=
  (fetchLoop row orders ff (t.root.toList.length + 1) ⟨t, newAvlTree, doublette, 0⟩).map
    fun s => (s.doublette, s.ot)

/-- `calculateSSel` for one table. -/
def calculateSSel (mode : Mode) (test : Fields → Bool) (fetchFirst : Int) (rows : List α) :
    Option ((α → Int) × AvlTree α) :=
  (selectLoop row orders mode test fetchFirst rows ⟨newAvlTree, fun _ => 1, 0⟩).bind fun s =>
    let rcount := if fetchFirst > 0 then fetchFirst else s.rcount
    if orders = [] then some (s.doublette, s.set) else fetchfirst row orders s.doublette s.set rcount

/-- `copytree`. -/
def copytree : SearchTree α → AvlTree α → Option (AvlTree α)
  | .nil, t => some t
  | .node left item right _, t =>
    (copytree left t).bind fun t =>
      (insertRow row orders t item).bind fun out => copytree right out.1

/-- `reorder`. -/
def reorder (t : AvlTree α) : Option (AvlTree α) := copytree row orders t.root newAvlTree

/-- The rows as `tree2sb` writes them. -/
def listing (doublette : α → Int) (rows : List α) : List Fields :=
  rows.flatMap fun a => List.replicate (doublette a).toNat (row a)

end Select

/-! ## What is asked for -/

/-- The rows of `SELECT mode … WHERE test`. -/
def resultRows (mode : Mode) (test : Fields → Bool) (table : List Fields) : List Fields :=
  match mode with
  | .ALL => table.filter test
  | .DISTINCT => (table.filter test).dedup

/-- The first key that tells the rows apart puts `x` before `y`. -/
def Precedes (keys : List Order) (x y : Fields) : Prop := comparBy (keys.map keyCompar) x y < 0

/-- The first `n` rows of a result, in order. -/
structure FirstRows (keys : List Order) (result : List Fields) (n : Nat) (out : List Fields) :
    Prop where
  length : out.length = min n result.length
  ordered : out.Pairwise fun x y => ¬ Precedes keys y x
  rest : ∃ omitted, (out ++ omitted).Perm result ∧
    ∀ x ∈ out, ∀ y ∈ omitted, ¬ Precedes keys y x

/-- `SELECT mode … FROM table WHERE test ORDER BY keys FETCH FIRST n ROWS ONLY`, as it is
listed. -/
def select (columnList : List OrderColumn) (keys : List SortKey) (mode : Mode)
    (test : Fields → Bool) (n : Nat) (table : List Fields) : Option (List Fields) :=
  (sortKeyList columnList keys).bind fun orders =>
    (calculateSSel table.get orders mode test n (List.finRange table.length)).map
      fun r => listing table.get r.1 r.2.root.toList

/-- The select ends with the first `n` rows. -/
def SelectsFirst (columnList : List OrderColumn) (keys : List SortKey) (mode : Mode)
    (test : Fields → Bool) (n : Nat) (table : List Fields) : Prop :=
  ∃ out, select columnList keys mode test n table = some out ∧
    ∃ requested, requestedKeys columnList keys = some requested ∧
      FirstRows requested (resultRows mode test table) n out

/-- A full select ends with the first `n` rows of what its operand, a tree of rows, lists. -/
def FetchesFirst {α : Type} [DecidableEq α] (columnList : List OrderColumn)
    (keys : List SortKey) (row : α → Fields) (doublette : α → Int) (t : AvlTree α) (n : Nat) :
    Prop :=
  ∃ orders requested r, sortKeyList columnList keys = some orders ∧
    requestedKeys columnList keys = some requested ∧
    ((reorder row orders t).bind fun t => fetchfirst row orders doublette t n) = some r ∧
    FirstRows requested (listing row doublette t.root.toList) n
      (listing row r.1 r.2.root.toList)

/-! ## The tree in order -/

section Trees

variable {α : Type} {cmp : α → α → Int} {t : AvlTree α} {a : α}

theorem stores_toList {s : List α} (h : Stores cmp t s) : Stores cmp t t.root.toList :=
  ⟨h.search, h.balanced, List.Perm.refl _, by rw [h.items.length_eq, h.count]⟩

/-- Lists with the same items in order are the same. -/
theorem eq_of_ordered (hc : TotalOrder cmp) {l l' : List α} (h : l.Pairwise fun a b => cmp a b < 0)
    (h' : l'.Pairwise fun a b => cmp a b < 0) (hperm : l.Perm l') : l = l' := by
  refine List.Perm.eq_of_pairwise (fun a b _ _ hab hba => ?_) h h' hperm
  have := (hc.swap a b).mp hab
  omega

/-- An item above all others is inserted at the end. -/
theorem insertAvl_last (hc : TotalOrder cmp) (h : Stores cmp t t.root.toList)
    (hsmall : t.root.toList.length < 2 ^ 64) (hlast : ∀ b ∈ t.root.toList, cmp b a < 0) :
    ∃ t', insertAvl cmp t a = some (t', none) ∧ Stores cmp t' t'.root.toList ∧
      t'.root.toList = t.root.toList ++ [a] := by
  obtain ⟨t', hrun, ht'⟩ := step_some hc h hsmall (.insert a)
  have hnone : equal cmp a t.root.toList = none := FiniteSet.equal_eq_none fun b hb => by
    have := (hc.swap b a).mp (hlast b hb)
    omega
  have hrun : insertAvl cmp t a = some (t', (apply cmp t.root.toList (.insert a)).2) := hrun
  simp only [apply, hnone] at hrun ht'
  refine ⟨t', hrun, stores_toList ht', ?_⟩
  refine eq_of_ordered hc (ht'.ordered hc) ?_ (ht'.items.trans (List.perm_append_singleton a _).symm)
  rw [List.pairwise_append]
  refine ⟨h.ordered hc, List.pairwise_singleton _ _, fun b hb c hcmem => ?_⟩
  rw [List.mem_singleton.mp hcmem]
  exact hlast b hb

/-- The first item is taken out. -/
theorem deleteMinAvl_cons (hc : TotalOrder cmp) (h : Stores cmp t t.root.toList)
    (hsmall : t.root.toList.length < 2 ^ 64) {rest : List α} (hlist : t.root.toList = a :: rest) :
    ∃ t', deleteMinAvl t = some (t', some a) ∧ Stores cmp t' t'.root.toList ∧
      t'.root.toList = rest := by
  obtain ⟨t', hrun, ht'⟩ := step_some hc h hsmall .deleteMin
  have hleast : least cmp t.root.toList = some a := by
    rw [h.least_eq_head? hc, hlist]
    rfl
  have hrun : deleteMinAvl t = some (t', (apply cmp t.root.toList .deleteMin).2) := hrun
  have hordered := h.ordered hc
  rw [hlist, List.pairwise_cons] at hordered
  have hremove : remove cmp a t.root.toList = rest := by
    have := @FiniteSet.remove_append_cons α cmp a a [] rest (hc.self a) fun z hz => by
      have := hordered.1 z hz
      omega
    rw [hlist]
    exact this
  simp only [apply, hleast, hremove] at hrun ht'
  exact ⟨t', hrun, stores_toList ht', eq_of_ordered hc (ht'.ordered hc) hordered.2 ht'.items⟩

theorem deleteMinAvl_nil (hlist : t.root.toList = []) : deleteMinAvl t = some (t, none) := by
  unfold deleteMinAvl
  cases hroot : t.root with
  | nil => rfl
  | node l x r b =>
    rw [hroot] at hlist
    exact absurd hlist (by simp [SearchTree.toList])

end Trees

/-! ## Taking rows out -/

section Fetching

variable {α : Type} {row : α → Fields} {orders : List Order}

/-- The comparison of the trees is one. -/
structure Orders (row : α → Fields) (orders : List Order) : Prop where
  total : TotalOrder (compar row orders)
  defined : ∀ a b, (RowOrder.item_cmp orders (row a) (row b)).isSome = true
  zero : ∀ a b, compar row orders a b = 0 ↔ row a = row b

theorem Orders.insertRow_eq (h : Orders row orders) (t : AvlTree α) (a : α) :
    insertRow row orders t a = insertAvl (compar row orders) t a := by
  unfold insertRow
  rw [if_pos]
  exact List.all_eq_true.mpr fun b _ => h.defined a b

/-- How many rows are listed. -/
def amount (doublette : α → Int) (rows : List α) : Int := (rows.map doublette).sum

theorem length_listing {doublette : α → Int} {rows : List α} (h : ∀ a ∈ rows, 0 ≤ doublette a) :
    ((listing row doublette rows).length : Int) = amount doublette rows := by
  induction rows with
  | nil => rfl
  | cons a rows ih =>
    have ha := h a List.mem_cons_self
    have hrest := ih fun b hb => h b (List.mem_cons_of_mem _ hb)
    unfold listing amount at hrest ⊢
    rw [List.flatMap_cons, List.length_append, List.length_replicate, List.map_cons, List.sum_cons,
      ← hrest]
    omega

theorem length_le_listing {doublette : α → Int} {rows : List α}
    (h : ∀ a ∈ rows, 0 < doublette a) : rows.length ≤ (listing row doublette rows).length := by
  induction rows with
  | nil => exact Nat.le_refl 0
  | cons a rows ih =>
    have ha := h a List.mem_cons_self
    have hrest := ih fun b hb => h b (List.mem_cons_of_mem _ hb)
    unfold listing at hrest ⊢
    rw [List.flatMap_cons, List.length_append, List.length_replicate, List.length_cons]
    omega

theorem cInt_of_small {z : Int} (h₀ : 0 ≤ z) (h : z < 2 ^ 31) : cInt z = z := by
  obtain ⟨n, rfl⟩ := Int.eq_ofNat_of_zero_le h₀
  exact cInt_of_lt (by omega)

variable [DecidableEq α]

/-- What the loop takes is the beginning of the list, and there must be enough of it. -/
theorem fetchLoop_spec (ho : Orders row orders) {ff : Int} (hff : ff < 2 ^ 31) {rows : List α}
    {fuel : Nat} {s : FetchState α} (hfuel : rows.length < fuel)
    (ht : Stores (compar row orders) s.t s.t.root.toList) (hlist : s.t.root.toList = rows)
    (hot : Stores (compar row orders) s.ot s.ot.root.toList)
    (hbelow : ∀ b ∈ s.ot.root.toList, ∀ a ∈ rows, compar row orders b a < 0)
    (hpos : ∀ a ∈ rows, 0 < s.doublette a) (hi : 0 ≤ s.i) (hle : s.i ≤ ff)
    (hsmall : s.i + amount s.doublette rows < 2 ^ 31)
    (hroom : s.ot.root.toList.length + rows.length < 2 ^ 31) :
    (ff ≤ s.i + amount s.doublette rows → ∃ s' taken, fetchLoop row orders ff fuel s = some s' ∧
      s'.ot.root.toList = s.ot.root.toList ++ taken ∧
      (∀ b ∈ s.ot.root.toList, s'.doublette b = s.doublette b) ∧
      listing row s'.doublette taken = (listing row s.doublette rows).take (ff - s.i).toNat) ∧
    (s.i + amount s.doublette rows < ff → fetchLoop row orders ff fuel s = none) := by
  induction rows generalizing fuel s with
  | nil =>
    obtain ⟨fuel, rfl⟩ := Nat.exists_eq_add_one_of_ne_zero (Nat.ne_of_gt hfuel)
    have hzero : amount s.doublette ([] : List α) = 0 := rfl
    rw [hzero]
    constructor
    · intro henough
      refine ⟨s, [], ?_, (List.append_nil _).symm, fun _ _ => rfl, ?_⟩
      · unfold fetchLoop
        rw [if_neg (by omega)]
      · exact List.take_nil.symm
    · intro hfew
      unfold fetchLoop
      rw [if_pos (by omega), deleteMinAvl_nil hlist]
      rfl
  | cons a rows ih =>
    obtain ⟨fuel, rfl⟩ := Nat.exists_eq_add_one_of_ne_zero (Nat.ne_of_gt (Nat.zero_lt_of_lt hfuel))
    have hamount : amount s.doublette (a :: rows) = s.doublette a + amount s.doublette rows := by
      unfold amount
      rw [List.map_cons, List.sum_cons]
    have ha := hpos a List.mem_cons_self
    have hrows : ∀ b ∈ rows, 0 < s.doublette b := fun b hb => hpos b (List.mem_cons_of_mem _ hb)
    have hnonneg : 0 ≤ amount s.doublette rows := by
      rw [← @length_listing α row s.doublette rows fun b hb => Int.le_of_lt (hrows b hb)]
      omega
    rw [hamount] at hsmall ⊢
    rw [List.length_cons] at hfuel hroom
    by_cases hdone : s.i < ff
    case neg =>
      refine ⟨fun _ => ⟨s, [], ?_, (List.append_nil _).symm, fun _ _ => rfl, ?_⟩,
        fun hfew => by omega⟩
      · unfold fetchLoop
        rw [if_neg hdone]
      · rw [show (ff - s.i).toNat = 0 by omega]
        rfl
    have hlength : s.t.root.toList.length = rows.length + 1 := by rw [hlist, List.length_cons]
    obtain ⟨t', hdelete, ht', hlist'⟩ := deleteMinAvl_cons ho.total ht (by omega) hlist
    obtain ⟨ot', hinsert, hot', hotlist⟩ := @insertAvl_last _ _ _ a ho.total hot (by omega)
      fun b hb => hbelow b hb a List.mem_cons_self
    have hi' : cInt (s.i + s.doublette a) = s.i + s.doublette a :=
      cInt_of_small (by omega) (by omega)
    have hordered := ht.ordered ho.total
    rw [hlist, List.pairwise_cons] at hordered
    have hne : ∀ b ∈ rows, b ≠ a := by
      intro b hb he
      have := hordered.1 b hb
      rw [he, ho.total.self] at this
      omega
    have hneOt : ∀ b ∈ s.ot.root.toList, b ≠ a := by
      intro b hb he
      have := hbelow b hb a List.mem_cons_self
      rw [he, ho.total.self] at this
      omega
    have hnumber : 0 < s.doublette a := ha
    have hcons : listing row s.doublette (a :: rows) =
        List.replicate (s.doublette a).toNat (row a) ++ listing row s.doublette rows := rfl
    by_cases hcut : s.i + s.doublette a > ff
    · -- the row has the end in it
      have hd : cInt (s.doublette a - (s.i + s.doublette a) + ff) = ff - s.i := by
        rw [show s.doublette a - (s.i + s.doublette a) + ff = ff - s.i by omega]
        exact cInt_of_small (by omega) (by omega)
      have hrun : fetchLoop row orders ff (fuel + 1) s =
          some ⟨t', ot', setDoublette s.doublette a (ff - s.i), s.i + s.doublette a⟩ := by
        obtain ⟨fuel, rfl⟩ := Nat.exists_eq_add_one_of_ne_zero
          (show fuel ≠ 0 by omega)
        rw [fetchLoop, if_pos hdone, hdelete]
        simp only [Option.bind_some]
        rw [hi', if_pos hcut, hd, ho.insertRow_eq, hinsert, Option.bind_some, fetchLoop,
          if_neg (by simp only; omega)]
      refine ⟨fun _ => ⟨_, [a], hrun, hotlist, fun b hb => ?_, ?_⟩, fun hfew => by omega⟩
      · unfold setDoublette
        simp only
        rw [if_neg (hneOt b hb)]
      · have hself : listing row (setDoublette s.doublette a (ff - s.i)) [a] =
            List.replicate (ff - s.i).toNat (row a) := by
          unfold listing setDoublette
          simp
        rw [hself, hcons, List.take_append_of_le_length (by rw [List.length_replicate]; omega),
          List.take_replicate, Nat.min_eq_left (by omega)]
    · have hrun : fetchLoop row orders ff (fuel + 1) s =
          fetchLoop row orders ff fuel ⟨t', ot', s.doublette, s.i + s.doublette a⟩ := by
        rw [fetchLoop, if_pos hdone, hdelete]
        simp only [Option.bind_some]
        rw [hi', if_neg hcut, ho.insertRow_eq, hinsert, Option.bind_some]
      have hotlength : ot'.root.toList.length = s.ot.root.toList.length + 1 := by
        rw [hotlist, List.length_append, List.length_singleton]
      have hbelow' : ∀ b ∈ ot'.root.toList, ∀ c ∈ rows, compar row orders b c < 0 := by
        intro b hb c hc
        rw [hotlist] at hb
        obtain hb | hb := List.mem_append.mp hb
        · exact hbelow b hb c (List.mem_cons_of_mem _ hc)
        · rw [List.mem_singleton.mp hb]
          exact hordered.1 c hc
      obtain ⟨henough, hfew⟩ := @ih fuel ⟨t', ot', s.doublette, s.i + s.doublette a⟩ (by omega)
        ht' hlist' hot' hbelow' hrows (by simp only; omega) (by simp only; omega)
        (by simp only; omega) (by simp only; omega)
      rw [hrun]
      refine ⟨fun h => ?_, fun h => hfew (by simp only; omega)⟩
      obtain ⟨s', taken, hsome, htaken, hsame, hlisting⟩ := henough (by simp only; omega)
      refine ⟨s', a :: taken, hsome, ?_, fun b hb => hsame b ?_, ?_⟩
      · rw [htaken, hotlist, List.append_assoc, List.singleton_append]
      · rw [hotlist]
        exact List.mem_append_left _ hb
      · have hsameA : s'.doublette a = s.doublette a := hsame a (by
          rw [hotlist]
          exact List.mem_append_right _ (List.mem_singleton_self a))
        have hcons' : listing row s'.doublette (a :: taken) =
            List.replicate (s'.doublette a).toNat (row a) ++ listing row s'.doublette taken := rfl
        have hwhole : (List.replicate (s.doublette a).toNat (row a)).take (ff - s.i).toNat =
            List.replicate (s.doublette a).toNat (row a) :=
          List.take_of_length_le (by rw [List.length_replicate]; omega)
        rw [hcons', hlisting, hsameA, hcons, List.take_append, List.length_replicate, hwhole]
        congr 2
        simp only
        omega

/-- `fetchfirst` gives the beginning of what the tree lists, if there is enough of it. -/
theorem fetchfirst_spec (ho : Orders row orders) {doublette : α → Int} {t : AvlTree α} {n : Nat}
    (hn : n < 2 ^ 31) (ht : Stores (compar row orders) t t.root.toList)
    (hpos : ∀ a ∈ t.root.toList, 0 < doublette a)
    (hsmall : (listing row doublette t.root.toList).length < 2 ^ 31) :
    (n ≤ (listing row doublette t.root.toList).length →
      ∃ r, fetchfirst row orders doublette t n = some r ∧
        listing row r.1 r.2.root.toList = (listing row doublette t.root.toList).take n) ∧
    ((listing row doublette t.root.toList).length < n →
      fetchfirst row orders doublette t n = none) := by
  have hlength : ((listing row doublette t.root.toList).length : Int) =
      amount doublette t.root.toList :=
    length_listing fun a ha => Int.le_of_lt (hpos a ha)
  have hcount : t.root.toList.length ≤ (listing row doublette t.root.toList).length :=
    length_le_listing hpos
  obtain ⟨henough, hfew⟩ := @fetchLoop_spec _ row orders _ ho n (by omega) t.root.toList
    (t.root.toList.length + 1) ⟨t, newAvlTree, doublette, 0⟩ (Nat.lt_succ_self _) ht rfl
    stores_newAvlTree (fun b hb => absurd hb (by simp [newAvlTree, SearchTree.toList])) hpos
    (Int.le_refl 0) (by simp only; omega) (by simp only; omega) (by
      rw [show (newAvlTree : AvlTree α).root.toList = [] from rfl, List.length_nil]
      omega)
  unfold fetchfirst
  constructor
  · intro h
    obtain ⟨s', taken, hsome, htaken, -, hlisting⟩ := henough (by simp only; omega)
    rw [hsome]
    refine ⟨_, rfl, ?_⟩
    rw [show s'.ot.root.toList = taken from htaken, hlisting]
    rfl
  · intro h
    rw [hfew (by simp only; omega)]
    rfl

end Fetching

/-! ## Putting rows in -/

section Selecting

variable {α : Type} {row : α → Fields} {orders : List Order}

theorem Orders.nodup (ho : Orders row orders) {rows : List α}
    (h : rows.Pairwise fun a b => compar row orders a b < 0) : (rows.map row).Nodup := by
  refine List.pairwise_map.mpr (h.imp fun {a b} hlt heq => ?_)
  have := (ho.zero a b).mpr heq
  omega

theorem count_listing {doublette : α → Int} {rows : List α} {result : List Fields}
    (hnodup : (rows.map row).Nodup) (hd : ∀ a ∈ rows, doublette a = result.count (row a))
    (y : Fields) : (listing row doublette rows).count y =
      if y ∈ rows.map row then result.count y else 0 := by
  induction rows with
  | nil => rfl
  | cons a rows ih =>
    rw [List.map_cons, List.nodup_cons] at hnodup
    have hrest := ih hnodup.2 fun b hb => hd b (List.mem_cons_of_mem _ hb)
    have hcons : listing row doublette (a :: rows) =
        List.replicate (doublette a).toNat (row a) ++ listing row doublette rows := rfl
    rw [hcons, List.count_append, hrest, hd a List.mem_cons_self, Int.toNat_natCast,
      List.count_replicate, List.map_cons]
    by_cases hy : row a = y
    · rw [← hy, if_pos (beq_self_eq_true _), if_neg hnodup.1, if_pos List.mem_cons_self,
        Nat.add_zero]
    · rw [if_neg (by simpa using hy), Nat.zero_add]
      simp only [List.mem_cons, Ne.symm hy, false_or]

/-- The rows are listed as often as they are in the result. -/
theorem listing_perm {doublette : α → Int} {rows : List α} {result : List Fields}
    (hnodup : (rows.map row).Nodup) (hd : ∀ a ∈ rows, doublette a = result.count (row a))
    (hall : ∀ x ∈ result, x ∈ rows.map row) : (listing row doublette rows).Perm result := by
  refine List.perm_iff_count.mpr fun y => ?_
  rw [count_listing hnodup hd]
  split
  · rfl
  · next hy => exact (List.count_eq_zero.mpr fun h => hy (hall y h)).symm

/-- What ALL and DISTINCT leave of the rows that pass the test. -/
def kept (mode : Mode) (rows : List Fields) : List Fields :=
  match mode with
  | .ALL => rows
  | .DISTINCT => rows.dedup

theorem mem_kept {mode : Mode} {rows : List Fields} {x : Fields} : x ∈ kept mode rows ↔ x ∈ rows := by
  cases mode with
  | ALL => rfl
  | DISTINCT => exact List.mem_dedup

theorem count_dedup (rows : List Fields) (x : Fields) :
    rows.dedup.count x = if x ∈ rows then 1 else 0 := by
  split
  · next hx => exact List.count_eq_one_of_mem (List.nodup_dedup rows) (List.mem_dedup.mpr hx)
  · next hx => exact List.count_eq_zero.mpr fun h => hx (List.mem_dedup.mp h)

theorem count_kept_concat (mode : Mode) (rows : List Fields) (x y : Fields) :
    (kept mode (rows ++ [x])).count y =
      if x = y ∧ (mode = .ALL ∨ x ∉ rows) then (kept mode rows).count y + 1
      else (kept mode rows).count y := by
  cases mode with
  | ALL =>
    unfold kept
    simp only [List.count_append, List.count_singleton, true_or, and_true, beq_iff_eq]
    split <;> rfl
  | DISTINCT =>
    unfold kept
    simp only [count_dedup, List.mem_append, List.mem_singleton, reduceCtorEq, false_or]
    by_cases hxy : x = y
    · subst hxy
      by_cases hx : x ∈ rows
      · simp [hx]
      · simp [hx]
    · simp [hxy, Ne.symm hxy]

/-- The tree after the instances `done`, of those that passed the test. -/
structure Selected (row : α → Fields) (orders : List Order) (mode : Mode) (done : List α)
    (s : SelectState α) : Prop where
  stores : Stores (compar row orders) s.set s.set.root.toList
  subset : ∀ a ∈ s.set.root.toList, a ∈ done
  all : ∀ a ∈ done, row a ∈ s.set.root.toList.map row
  number : ∀ a ∈ s.set.root.toList, s.doublette a = (kept mode (done.map row)).count (row a)
  others : ∀ a, a ∉ s.set.root.toList → s.doublette a = 1

theorem length_kept_append (mode : Mode) (rows rows' : List Fields) :
    (kept mode rows).length ≤ (kept mode (rows ++ rows')).length := by
  cases mode with
  | ALL => exact (List.sublist_append_left rows rows').length_le
  | DISTINCT =>
    refine (List.subperm_of_subset (List.nodup_dedup rows) fun x hx => ?_).length_le
    exact List.mem_dedup.mpr (List.mem_append_left _ (List.mem_dedup.mp hx))

theorem Selected.mem_iff {mode : Mode} {done : List α} {s : SelectState α}
    (h : Selected row orders mode done s) (x : Fields) :
    x ∈ done.map row ↔ x ∈ s.set.root.toList.map row := by
  constructor
  · intro hx
    obtain ⟨b, hb, rfl⟩ := List.mem_map.mp hx
    exact h.all b hb
  · intro hx
    obtain ⟨b, hb, rfl⟩ := List.mem_map.mp hx
    exact List.mem_map_of_mem (h.subset b hb)

variable [DecidableEq α]

/-- A row that is there already is counted, or not. -/
theorem Selected.again (ho : Orders row orders) {mode : Mode} {done : List α}
    {s : SelectState α} (h : Selected row orders mode done s) {a r : α} {t : AvlTree α}
    (hsmall : (kept mode ((done ++ [a]).map row)).length < 2 ^ 31)
    (hr : r ∈ s.set.root.toList) (hrow : row a = row r)
    (ht : Stores (compar row orders) t t.root.toList) (hlist : t.root.toList = s.set.root.toList) :
    Selected row orders mode (done ++ [a]) (countRow mode s (t, some r)) := by
  have hin : row a ∈ done.map row := (h.mem_iff _).mpr (by
    rw [hrow]
    exact List.mem_map_of_mem hr)
  have hset : (countRow mode s (t, some r)).set = t := by
    unfold countRow
    simp only
    split <;> rfl
  refine ⟨?_, fun b hb => ?_, fun b hb => ?_, fun b hb => ?_, fun b hb => ?_⟩
  · rwa [hset]
  · rw [hset, hlist] at hb
    exact List.mem_append_left _ (h.subset b hb)
  · rw [hset, hlist]
    obtain hb | hb := List.mem_append.mp hb
    · exact h.all b hb
    · rw [List.mem_singleton.mp hb]
      exact (h.mem_iff _).mp hin
  · rw [hset, hlist] at hb
    have hsame : row a = row b ↔ b = r := by
      rw [hrow]
      refine ⟨fun he => ?_, fun he => by rw [he]⟩
      exact (h.stores.distinct ho.total r hr b hb ((ho.zero r b).mpr he)).symm
    rw [List.map_append, List.map_singleton, count_kept_concat]
    unfold countRow setDoublette
    cases mode with
    | ALL =>
      have hbound : (kept .ALL (done.map row)).count (row b) ≤ (done.map row).length :=
        List.count_le_length
      have hkept : (done.map row).length + 1 < 2 ^ 31 := by
        rwa [List.map_append, List.map_singleton, kept, List.length_append,
          List.length_singleton] at hsmall
      simp only [if_true, true_or, and_true]
      by_cases hbr : b = r
      · rw [if_pos hbr, if_pos (hsame.mpr hbr), ← hbr, h.number b hb,
          cInt_of_small (by omega) (by omega)]
        rfl
      · rw [if_neg hbr, if_neg fun he => hbr (hsame.mp he), h.number b hb]
    | DISTINCT =>
      simp only [reduceCtorEq, if_false, false_or]
      rw [if_neg fun he => he.2 hin, h.number b hb]
  · rw [hset, hlist] at hb
    have hbr : b ≠ r := fun he => hb (by rwa [he])
    unfold countRow setDoublette
    simp only
    split
    · simp only
      rw [if_neg hbr]
      exact h.others b hb
    · exact h.others b hb

/-- A row that is not there is put in. -/
theorem Selected.new {mode : Mode} {done : List α} {s : SelectState α}
    (h : Selected row orders mode done s) {a : α} {t : AvlTree α}
    (hnew : row a ∉ done.map row) (ht : Stores (compar row orders) t t.root.toList)
    (hlist : t.root.toList.Perm (a :: s.set.root.toList)) :
    Selected row orders mode (done ++ [a]) (countRow mode s (t, none)) := by
  have hmem : ∀ b, b ∈ t.root.toList ↔ b = a ∨ b ∈ s.set.root.toList := fun b => by
    rw [hlist.mem_iff, List.mem_cons]
  have ha : a ∉ s.set.root.toList := fun ha => hnew (List.mem_map_of_mem (h.subset a ha))
  refine ⟨ht, fun b hb => ?_, fun b hb => ?_, fun b hb => ?_, fun b hb => ?_⟩
  · obtain rfl | hb := (hmem b).mp hb
    · exact List.mem_append_right _ (List.mem_singleton_self b)
    · exact List.mem_append_left _ (h.subset b hb)
  · obtain hb | hb := List.mem_append.mp hb
    · obtain ⟨c, hc, hrow⟩ := List.mem_map.mp (h.all b hb)
      rw [← hrow]
      exact List.mem_map_of_mem ((hmem c).mpr (.inr hc))
    · exact List.mem_map_of_mem ((hmem b).mpr (.inl (List.mem_singleton.mp hb)))
  · show s.doublette b = _
    rw [List.map_append, List.map_singleton, count_kept_concat]
    obtain rfl | hb := (hmem b).mp hb
    · have hzero : (kept mode (done.map row)).count (row b) = 0 :=
        List.count_eq_zero.mpr fun hin => hnew (mem_kept.mp hin)
      rw [if_pos ⟨rfl, .inr hnew⟩, hzero, h.others b ha]
      rfl
    · have hne : row a ≠ row b := fun he => hnew (by
        rw [he]
        exact List.mem_map_of_mem (h.subset b hb))
      rw [if_neg fun he => hne he.1, h.number b hb]
  · exact h.others b fun hin => hb ((hmem b).mpr (.inr hin))

theorem Selected.step (ho : Orders row orders) {mode : Mode} {done : List α} {s : SelectState α}
    (h : Selected row orders mode done s) (a : α)
    (hsmall : (kept mode ((done ++ [a]).map row)).length < 2 ^ 31) :
    ∃ out, insertRow row orders s.set a = some out ∧
      Selected row orders mode (done ++ [a]) (countRow mode s out) := by
  have hordered := h.stores.ordered ho.total
  have hlength : s.set.root.toList.length < 2 ^ 31 := by
    refine Nat.lt_of_le_of_lt ?_ hsmall
    rw [← @List.length_map _ _ s.set.root.toList row]
    refine (List.subperm_of_subset (ho.nodup hordered) fun x hx => mem_kept.mpr ?_).length_le
    rw [List.map_append]
    exact List.mem_append_left _ ((h.mem_iff x).mpr hx)
  obtain ⟨t', hrun, ht'⟩ := step_some ho.total h.stores (by omega) (.insert a)
  have hrun : insertAvl (compar row orders) s.set a =
      some (t', (apply (compar row orders) s.set.root.toList (.insert a)).2) := hrun
  refine ⟨_, (ho.insertRow_eq s.set a).trans hrun, ?_⟩
  cases hequal : equal (compar row orders) a s.set.root.toList with
  | some r =>
    have happly : apply (compar row orders) s.set.root.toList (.insert a) =
        (s.set.root.toList, some r) := by
      simp only [apply, hequal]
    rw [happly] at ht' ⊢
    refine h.again ho hsmall (List.mem_of_find?_eq_some hequal)
      ((ho.zero a r).mp (by simpa using List.find?_some hequal)) (stores_toList ht') ?_
    exact eq_of_ordered ho.total (ht'.ordered ho.total) hordered ht'.items
  | none =>
    have happly : apply (compar row orders) s.set.root.toList (.insert a) =
        (a :: s.set.root.toList, none) := by
      simp only [apply, hequal]
    rw [happly] at ht' ⊢
    refine h.new (fun hin => ?_) (stores_toList ht') ht'.items
    obtain ⟨b, hb, hrow⟩ := List.mem_map.mp ((h.mem_iff _).mp hin)
    have hne := List.find?_eq_none.mp hequal b hb
    exact hne (by simpa using (ho.zero a b).mpr hrow.symm)

/-- All instances. -/
theorem Selected.run (ho : Orders row orders) (horders : orders ≠ []) {mode : Mode}
    {test : Fields → Bool} {fetchFirst : Int} {rows done : List α} {s : SelectState α}
    (h : Selected row orders mode done s)
    (hsmall : (kept mode ((done ++ rows.filter fun a => test (row a)).map row)).length < 2 ^ 31) :
    ∃ s', selectLoop row orders mode test fetchFirst rows s = some s' ∧
      Selected row orders mode (done ++ rows.filter fun a => test (row a)) s' := by
  induction rows generalizing done s with
  | nil =>
    rw [List.filter_nil, List.append_nil]
    exact ⟨s, rfl, h⟩
  | cons a rest ih =>
    rw [selectLoop, if_neg fun he => horders he.1]
    cases htest : test (row a) with
    | false =>
      rw [List.filter_cons_of_neg (by simp [htest])] at hsmall ⊢
      rw [if_pos rfl]
      exact ih h hsmall
    | true =>
      rw [@List.filter_cons_of_pos _ (fun a => test (row a)) a rest htest] at hsmall ⊢
      rw [← List.singleton_append, ← List.append_assoc] at hsmall ⊢
      obtain ⟨out, hinsert, hstep⟩ := h.step ho a (by
        rw [List.map_append] at hsmall
        exact Nat.lt_of_le_of_lt (length_kept_append _ _ _) hsmall)
      obtain ⟨s', hrest, hs'⟩ := ih hstep hsmall
      rw [if_neg (by simp), hinsert, Option.bind_some]
      exact ⟨s', hrest, hs'⟩

end Selecting

/-! ## The results -/

section Results

variable {α : Type} {row : α → Fields} {orders requested : List Order}

/-- What there is to take rows from. -/
structure Ready (row : α → Fields) (orders : List Order) (result : List Fields)
    (doublette : α → Int) (t : AvlTree α) : Prop where
  stores : Stores (compar row orders) t t.root.toList
  positive : ∀ a ∈ t.root.toList, 0 < doublette a
  perm : (listing row doublette t.root.toList).Perm result

theorem Selected.ready (ho : Orders row orders) {mode : Mode} {done : List α}
    {s : SelectState α} (h : Selected row orders mode done s) :
    Ready row orders (kept mode (done.map row)) s.doublette s.set where
  stores := h.stores
  positive a ha := by
    rw [h.number a ha]
    have hin : row a ∈ kept mode (done.map row) :=
      mem_kept.mpr (List.mem_map_of_mem (h.subset a ha))
    have := List.count_pos_iff.mpr hin
    omega
  perm := listing_perm (ho.nodup (h.stores.ordered ho.total)) h.number fun x hx =>
    (h.mem_iff x).mp (mem_kept.mp hx)

/-- The beginning of rows in order is the first rows. -/
theorem Ready.firstRows (ho : Orders row orders) {result : List Fields} {doublette : α → Int}
    {t : AvlTree α} (h : Ready row orders result doublette t)
    (hprecedes : ∀ a b, Precedes requested (row a) (row b) → compar row orders a b < 0)
    {n : Nat} : FirstRows requested result n ((listing row doublette t.root.toList).take n) := by
  have hordered : (listing row doublette t.root.toList).Pairwise
      fun x y => ¬ Precedes requested y x := by
    unfold listing
    refine List.pairwise_flatMap.mpr ⟨fun a _ => ?_, ?_⟩
    · refine List.pairwise_replicate.mpr (.inr fun hp => ?_)
      have := hprecedes a a hp
      rw [ho.total.self] at this
      omega
    · refine (h.stores.ordered ho.total).imp fun {a b} hlt x hx y hy hp => ?_
      rw [(List.mem_replicate.mp hx).2, (List.mem_replicate.mp hy).2] at hp
      have := hprecedes b a hp
      have := (ho.total.swap a b).mp hlt
      omega
  have hsplit := List.take_append_drop n (listing row doublette t.root.toList)
  rw [← hsplit, List.pairwise_append] at hordered
  refine ⟨?_, hordered.1, _, ?_, hordered.2.2⟩
  · rw [List.length_take, h.perm.length_eq]
  · rw [hsplit]
    exact h.perm

/-- Two rows in the wrong order. -/
theorem Ready.not_firstRows (ho : Orders row orders) {result : List Fields}
    {doublette : α → Int} {t : AvlTree α} (h : Ready row orders result doublette t) {a b : α}
    (ha : a ∈ t.root.toList) (hb : b ∈ t.root.toList) (hlt : compar row orders a b < 0)
    (hprecedes : Precedes requested (row b) (row a)) :
    ¬ FirstRows requested result result.length (listing row doublette t.root.toList) := by
  intro hfirst
  have hlisted := hfirst.ordered
  unfold listing at hlisted
  have hpairs := (List.pairwise_flatMap.mp hlisted).2
  have hordered := h.stores.ordered ho.total
  obtain ⟨i, hi, rfl⟩ := List.mem_iff_getElem.mp ha
  obtain ⟨j, hj, rfl⟩ := List.mem_iff_getElem.mp hb
  obtain hij | hij | hij := Nat.lt_trichotomy i j
  · refine List.pairwise_iff_getElem.mp hpairs i j hi hj hij _ ?_ _ ?_ hprecedes
    · exact List.mem_replicate.mpr ⟨by have := h.positive _ ha; omega, rfl⟩
    · exact List.mem_replicate.mpr ⟨by have := h.positive _ hb; omega, rfl⟩
  · subst hij
    rw [ho.total.self] at hlt
    omega
  · have := List.pairwise_iff_getElem.mp hordered j i hj hi hij
    have := (ho.total.swap _ _).mp this
    omega

/-! ### Trees of instances -/

theorem resultRows_eq (mode : Mode) (test : Fields → Bool) (table : List Fields) :
    resultRows mode test table = kept mode (table.filter test) := by
  cases mode <;> rfl

theorem map_get_filter (test : Fields → Bool) (table : List Fields) :
    ((List.finRange table.length).filter fun a => test (table.get a)).map table.get =
      table.filter test := by
  have hfilter := @List.filter_map _ _ table.get test (List.finRange table.length)
  rw [List.map_get_finRange] at hfilter
  exact hfilter.symm

theorem selected_newAvlTree (mode : Mode) :
    Selected row orders mode [] ⟨newAvlTree, fun _ => 1, 0⟩ where
  stores := stores_newAvlTree
  subset a ha := absurd ha (by simp [newAvlTree, SearchTree.toList])
  all a ha := absurd ha (by simp)
  number a ha := absurd ha (by simp [newAvlTree, SearchTree.toList])
  others _ _ := rfl

/-- What `calculateSSel` has when it starts to take rows out. -/
theorem select_eq {columnList : List OrderColumn} {keys : List SortKey} {mode : Mode}
    {test : Fields → Bool} {n : Nat} {table : List Fields}
    (horders : sortKeyList columnList keys = some orders) (hne : orders ≠ [])
    (ho : Orders table.get orders) (hn : 1 ≤ n)
    (hsmall : (resultRows mode test table).length < 2 ^ 31) :
    ∃ doublette t, Ready table.get orders (resultRows mode test table) doublette t ∧
      select columnList keys mode test n table =
        (fetchfirst table.get orders doublette t n).map
          fun r => listing table.get r.1 r.2.root.toList := by
  have hrows := map_get_filter test table
  obtain ⟨s, hrun, hs⟩ := @Selected.run _ table.get orders _ ho hne mode test n
    (List.finRange table.length) [] _ (selected_newAvlTree mode) (by
      rwa [List.nil_append, hrows, ← resultRows_eq])
  have hready := hs.ready ho
  rw [List.nil_append, hrows, ← resultRows_eq] at hready
  refine ⟨_, _, hready, ?_⟩
  unfold select calculateSSel
  rw [horders, Option.bind_some, hrun, Option.bind_some]
  simp only
  rw [if_neg hne, if_pos (by omega)]

/-! ### Trees of full selects -/

/-- The rows of a tree are put into another one. -/
theorem copytree_spec (ho : Orders row orders) {node : SearchTree α} {res : AvlTree α}
    (hres : Stores (compar row orders) res res.root.toList)
    (hnodup : ((res.root.toList ++ node.toList).map row).Nodup)
    (hsmall : (res.root.toList ++ node.toList).length < 2 ^ 31) :
    ∃ res', copytree row orders node res = some res' ∧
      Stores (compar row orders) res' res'.root.toList ∧
      res'.root.toList.Perm (res.root.toList ++ node.toList) := by
  induction node generalizing res with
  | nil => exact ⟨res, rfl, hres, by rw [SearchTree.toList, List.append_nil]⟩
  | node left item right balance ihl ihr =>
    have hsplit : res.root.toList ++ (SearchTree.node left item right balance).toList =
        (res.root.toList ++ left.toList) ++ (item :: right.toList) := by
      rw [SearchTree.toList, List.append_assoc]
    rw [hsplit] at hnodup hsmall ⊢
    obtain ⟨res₁, hrun₁, hres₁, hperm₁⟩ := ihl hres
      (hnodup.sublist ((List.sublist_append_left _ _).map row)) (by
        rw [List.length_append] at hsmall
        omega)
    have hperm₁' := hperm₁.append_right (item :: right.toList)
    have hnew : equal (compar row orders) item res₁.root.toList = none := by
      refine FiniteSet.equal_eq_none fun b hb heq => ?_
      have hmem : b ∈ res.root.toList ++ left.toList := hperm₁.mem_iff.mp hb
      rw [List.map_append, List.nodup_append] at hnodup
      exact hnodup.2.2 _ (List.mem_map_of_mem hmem) _ (List.mem_map_of_mem List.mem_cons_self)
        ((ho.zero item b).mp heq).symm
    obtain ⟨res₂, hrun₂, hres₂⟩ := step_some ho.total hres₁ (by
      rw [hperm₁.length_eq]
      rw [List.length_append] at hsmall
      omega) (.insert item)
    have hrun₂ : insertAvl (compar row orders) res₁ item =
        some (res₂, (apply (compar row orders) res₁.root.toList (.insert item)).2) := hrun₂
    simp only [apply, hnew] at hrun₂ hres₂
    have hperm₂ : (res₂.root.toList ++ right.toList).Perm
        ((res.root.toList ++ left.toList) ++ (item :: right.toList)) :=
      ((hres₂.items.append_right right.toList).trans List.perm_middle.symm).trans hperm₁'
    obtain ⟨res₃, hrun₃, hres₃, hperm₃⟩ := ihr (stores_toList hres₂)
      ((hperm₂.map row).nodup_iff.mpr hnodup) (by rwa [hperm₂.length_eq])
    refine ⟨res₃, ?_, hres₃, hperm₃.trans hperm₂⟩
    rw [copytree, hrun₁, Option.bind_some, ho.insertRow_eq, hrun₂, Option.bind_some]
    exact hrun₃

/-- What the tree of an operand has: no row twice, and each row at least once. -/
structure IsOperand (row : α → Fields) (doublette : α → Int) (t : AvlTree α) : Prop where
  nodup : (t.root.toList.map row).Nodup
  positive : ∀ a ∈ t.root.toList, 0 < doublette a

/-- What `reorder` gives. -/
theorem reorder_spec (ho : Orders row orders) {doublette : α → Int} {t : AvlTree α}
    (h : IsOperand row doublette t)
    (hsmall : (listing row doublette t.root.toList).length < 2 ^ 31) :
    ∃ t', reorder row orders t = some t' ∧
      Ready row orders (listing row doublette t.root.toList) doublette t' := by
  have hcount : t.root.toList.length ≤ (listing row doublette t.root.toList).length :=
    length_le_listing h.positive
  have hnil : (newAvlTree : AvlTree α).root.toList = [] := rfl
  obtain ⟨t', hrun, hstores, hperm⟩ := @copytree_spec α row orders ho t.root newAvlTree
    stores_newAvlTree (by rw [hnil]; exact h.nodup) (by rw [hnil, List.nil_append]; omega)
  rw [hnil, List.nil_append] at hperm
  exact ⟨t', hrun, hstores, fun a ha => h.positive a (hperm.mem_iff.mp ha),
    hperm.flatMap_right _⟩

variable [DecidableEq α]

theorem Ready.fetchfirst_iff (ho : Orders row orders) {result : List Fields}
    {doublette : α → Int} {t : AvlTree α} (h : Ready row orders result doublette t)
    (hprecedes : ∀ a b, Precedes requested (row a) (row b) → compar row orders a b < 0)
    {n : Nat} (hn : n < 2 ^ 31) (hsmall : result.length < 2 ^ 31) :
    (∃ r, fetchfirst row orders doublette t n = some r ∧
      FirstRows requested result n (listing row r.1 r.2.root.toList)) ↔ n ≤ result.length := by
  rw [← h.perm.length_eq] at hsmall
  obtain ⟨henough, hfew⟩ := fetchfirst_spec ho hn h.stores h.positive hsmall
  rw [← h.perm.length_eq]
  constructor
  · intro ⟨r, hr, _⟩
    refine Nat.le_of_not_lt fun hlt => ?_
    rw [hfew hlt] at hr
    exact absurd hr (by simp)
  · intro hle
    obtain ⟨r, hr, hlisting⟩ := henough hle
    refine ⟨r, hr, ?_⟩
    rw [hlisting]
    exact h.firstRows ho hprecedes

end Results

/-! ## The kinds of rows and keys -/

section Kinds

variable {columnList : List OrderColumn} {keys : List SortKey} {orders requested : List Order}

/-- The key is a name. -/
def SortKey.IsName : SortKey → Prop
  | .name .. => True
  | .number .. => False

/-- Rows without NULL, with texts that are no number where `nan` allows it. -/
def noNull (width : Nat) (nan : Nat → Prop) : RowKind :=
  ⟨width, fun _ => False, fun _ => False, nan⟩

/-- Names are understood as they are meant. -/
theorem requestedKeys_of_names (h : ∀ k ∈ keys, k.IsName) :
    requestedKeys columnList keys = sortKeyList columnList keys := by
  unfold requestedKeys sortKeyList
  induction keys with
  | nil => rfl
  | cons k keys ih =>
    have hk : requestedKey columnList k = sortKey columnList k := by
      cases k with
      | number colnr order => exact (h _ List.mem_cons_self).elim
      | name s order => rfl
    rw [List.mapM_cons, List.mapM_cons, hk, ih fun k' hk' => h k' (List.mem_cons_of_mem _ hk')]

theorem exists_sortKey (h : sortKeyList columnList keys = some orders) {o : Order}
    (ho : o ∈ orders) : ∃ k ∈ keys, sortKey columnList k = some o := by
  unfold sortKeyList at h
  induction keys generalizing orders with
  | nil =>
    rw [List.mapM_nil] at h
    cases h
    exact absurd ho (by simp)
  | cons k keys ih =>
    rw [List.mapM_cons] at h
    obtain ⟨o', hk, h⟩ := Option.bind_eq_some_iff.mp h
    obtain ⟨os, hos, h⟩ := Option.bind_eq_some_iff.mp h
    cases h
    obtain rfl | ho := List.mem_cons.mp ho
    · exact ⟨k, List.mem_cons_self, hk⟩
    · obtain ⟨k', hk', hsome⟩ := ih hos ho
      exact ⟨k', List.mem_cons_of_mem _ hk', hsome⟩

theorem sortKeyList_ne_nil (h : sortKeyList columnList keys = some orders) (hne : keys ≠ []) :
    orders ≠ [] := by
  cases keys with
  | nil => exact absurd rfl hne
  | cons k keys =>
    unfold sortKeyList at h
    rw [List.mapM_cons] at h
    obtain ⟨o, -, h⟩ := Option.bind_eq_some_iff.mp h
    obtain ⟨os, -, h⟩ := Option.bind_eq_some_iff.mp h
    cases h
    exact List.cons_ne_nil o os

theorem column_lt_of_names (h : sortKeyList columnList keys = some orders)
    (hnames : ∀ k ∈ keys, k.IsName) : ∀ o ∈ orders, o.column < columnList.length := by
  intro o ho
  obtain ⟨k, hk, hsome⟩ := exists_sortKey h ho
  cases k with
  | number colnr order => exact (hnames _ hk).elim
  | name s order =>
    obtain ⟨i, -, hi⟩ := Option.bind_eq_some_iff.mp hsome
    obtain ⟨col, hcol, rfl⟩ := Option.map_eq_some_iff.mp hi
    exact (List.getElem?_eq_some_iff.mp hcol).1

/-- Keys that are names and are not left out order the rows. -/
theorem fits_of_names {nan : Nat → Prop} (h : sortKeyList columnList keys = some orders)
    (hnames : ∀ k ∈ keys, k.IsName) (hnan : ∀ o ∈ orders, o.colSQLType = .real → ¬ nan o.column)
    (huncut : Uncut orders) : Fits (noNull columnList.length nan) orders where
  missing _ _ := not_false
  column := column_lt_of_names h hnames
  nullText _ _ := not_false
  nan := hnan
  uncut := huncut

section Orders

variable {α : Type} {row : α → Fields} {K : RowKind}

theorem compar_of_fits (h : Fits K orders) (hrow : ∀ a, K.IsRow (row a)) (a b : α) :
    compar row orders a b = rowCompar orders (row a) (row b) := by
  unfold compar
  rw [h.item_cmp_eq (hrow a) (hrow b)]
  rfl

theorem orders_of_fits (h : Fits K orders) (hrow : ∀ a, K.IsRow (row a)) : Orders row orders where
  total := by
    have hsame : compar row orders = fun a b => rowCompar orders (row a) (row b) := by
      funext a b
      exact compar_of_fits h hrow a b
    rw [hsame]
    exact h.totalOrder.comap fun a => (⟨row a, hrow a⟩ : {x // K.IsRow x})
  defined a b := by
    rw [h.item_cmp_eq (hrow a) (hrow b)]
    rfl
  zero a b := by
    rw [compar_of_fits h hrow]
    exact h.rowCompar_eq_zero_iff (hrow a) (hrow b)

theorem compar_of_precedes (h : Fits K orders) (hrow : ∀ a, K.IsRow (row a)) (a b : α)
    (hprecedes : Precedes orders (row a) (row b)) : compar row orders a b < 0 := by
  rw [compar_of_fits h hrow, rowCompar, comparBy_append, if_pos (Int.ne_of_lt hprecedes)]
  exact hprecedes

end Orders

/-! ### Rows in the wrong order -/

/-- Two rows that the keys put in one order, and the comparison in the other one or in none. -/
structure Misplaced (orders requested : List Order) (width : Nat) (x z : Fields) : Prop where
  rows : (RowKind.plain width).IsRow x ∧ (RowKind.plain width).IsRow z
  precedes : Precedes requested x z
  compared : (RowOrder.item_cmp orders x z = none ∧ RowOrder.item_cmp orders z x = none) ∨
    ∃ a b, RowOrder.item_cmp orders x z = some a ∧ RowOrder.item_cmp orders z x = some b ∧
      0 < a ∧ b < 0

/-- A tree of two rows. -/
def pairTree : AvlTree (Fin 2) := ⟨.node .nil 0 (.node .nil 1 .nil 0) 1, 2⟩

section Pairs

variable {x z : Fields} {width : Nat}

theorem item_cmp_self (x : Fields) : RowOrder.item_cmp orders x x = some 0 :=
  item_cmp_of_same (difference_eq_none fun c s t hs ht => by
    rw [hs] at ht
    exact Option.some.inj (Option.some.inj ht))

/-- Two rows that are compared are in order, whatever it is. -/
theorem orders_pair {α : Type} {row : α → Fields} (hrow : ∀ a, row a = x ∨ row a = z) {a b : Int}
    (hxz : RowOrder.item_cmp orders x z = some a) (hzx : RowOrder.item_cmp orders z x = some b)
    (ha : 0 < a) (hb : b < 0) : Orders row orders := by
  have hne : x ≠ z := fun he => by
    rw [he, item_cmp_self, Option.some.injEq] at hxz
    omega
  -- the four ways to compare them
  have hcases : ∀ i j, (row i = row j ∧ RowOrder.item_cmp orders (row i) (row j) = some 0) ∨
      (row i = x ∧ row j = z ∧ RowOrder.item_cmp orders (row i) (row j) = some a) ∨
      (row i = z ∧ row j = x ∧ RowOrder.item_cmp orders (row i) (row j) = some b) := by
    intro i j
    obtain hi | hi := hrow i <;> obtain hj | hj := hrow j <;> rw [hi, hj]
    · exact .inl ⟨rfl, item_cmp_self x⟩
    · exact .inr (.inl ⟨rfl, rfl, hxz⟩)
    · exact .inr (.inr ⟨rfl, rfl, hzx⟩)
    · exact .inl ⟨rfl, item_cmp_self z⟩
  have hcompar : ∀ i j, (row i = row j ∧ compar row orders i j = 0) ∨
      (row i = x ∧ row j = z ∧ compar row orders i j = a) ∨
      (row i = z ∧ row j = x ∧ compar row orders i j = b) := by
    intro i j
    unfold compar
    obtain ⟨h, hc⟩ | ⟨hi, hj, hc⟩ | ⟨hi, hj, hc⟩ := hcases i j
    · exact .inl ⟨h, by rw [hc]; rfl⟩
    · exact .inr (.inl ⟨hi, hj, by rw [hc]; rfl⟩)
    · exact .inr (.inr ⟨hi, hj, by rw [hc]; rfl⟩)
  refine ⟨⟨fun i j => ?_, fun i j k => ?_⟩, fun i j => ?_, fun i j => ?_⟩
  · grind
  · grind
  · obtain ⟨-, hc⟩ | ⟨-, -, hc⟩ | ⟨-, -, hc⟩ := hcases i j <;> rw [hc] <;> rfl
  · grind

theorem get_pair (x z : Fields) (i : Fin [x, z].length) : [x, z].get i = x ∨ [x, z].get i = z := by
  have hmem := List.get_mem [x, z] i
  rwa [List.mem_cons, List.mem_singleton] at hmem

theorem Ready.mem {α : Type} {row : α → Fields} {result : List Fields} {doublette : α → Int}
    {t : AvlTree α} (h : Ready row orders result doublette t) {y : Fields} (hy : y ∈ result) :
    ∃ a ∈ t.root.toList, row a = y := by
  obtain ⟨a, ha, hmem⟩ := List.mem_flatMap.mp (h.perm.mem_iff.mpr hy)
  exact ⟨a, ha, (List.mem_replicate.mp hmem).2.symm⟩

/-- What is taken out of a tree in the wrong order is in the wrong order. -/
theorem Ready.not_fetchfirst {α : Type} [DecidableEq α] {row : α → Fields}
    (ho : Orders row orders) {result : List Fields} {doublette : α → Int} {t : AvlTree α}
    (h : Ready row orders result doublette t) (hsmall : result.length < 2 ^ 31)
    (hx : x ∈ result) (hz : z ∈ result) (hprecedes : Precedes requested x z) {b : Int}
    (hzx : RowOrder.item_cmp orders z x = some b) (hb : b < 0) {r : (α → Int) × AvlTree α}
    (hr : fetchfirst row orders doublette t result.length = some r) :
    ¬ FirstRows requested result result.length (listing row r.1 r.2.root.toList) := by
  obtain ⟨i, hi, rfl⟩ := h.mem hx
  obtain ⟨j, hj, rfl⟩ := h.mem hz
  have hlength := h.perm.length_eq
  obtain ⟨r', hr', hlisting⟩ := (fetchfirst_spec ho hsmall h.stores h.positive
    (by rwa [hlength])).1 (Nat.le_of_eq hlength.symm)
  obtain rfl := Option.some.inj (hr'.symm.trans hr)
  rw [hlisting, ← hlength, List.take_length, hlength]
  refine h.not_firstRows ho hj hi ?_ hprecedes
  unfold compar
  rw [hzx]
  exact hb

section Failing

variable {α : Type} {row : α → Fields} {i j : α}

theorem insertRow_newAvlTree :
    insertRow row orders newAvlTree i = some (⟨.node .nil i .nil 0, 1⟩, none) := by
  unfold insertRow
  rw [if_pos (List.all_eq_true.mpr fun b hb => absurd hb (by simp [newAvlTree, SearchTree.toList]))]
  rfl

theorem insertRow_none (h : RowOrder.item_cmp orders (row j) (row i) = none) {n : Int} :
    insertRow row orders ⟨.node .nil i .nil 0, n⟩ j = none := by
  unfold insertRow
  rw [if_neg]
  intro hall
  have hi := List.all_eq_true.mp hall i (by simp [SearchTree.toList])
  rw [h] at hi
  exact absurd hi (by simp)

theorem selectLoop_none [DecidableEq α] (hne : orders ≠ [])
    (h : RowOrder.item_cmp orders (row j) (row i) = none) {n : Int} {doublette : α → Int} :
    selectLoop row orders .ALL (fun _ => true) n [i, j] ⟨newAvlTree, doublette, 0⟩ = none := by
  rw [selectLoop, if_neg fun he => hne he.1, if_neg (by simp), insertRow_newAvlTree,
    Option.bind_some, selectLoop, if_neg fun he => hne he.1, if_neg (by simp)]
  unfold countRow
  simp only
  rw [insertRow_none h]
  rfl

theorem copytree_none (h : RowOrder.item_cmp orders (row j) (row i) = none) {b b' : Int} :
    copytree row orders (.node .nil i (.node .nil j .nil b) b') newAvlTree = none := by
  rw [copytree, copytree, Option.bind_some, insertRow_newAvlTree, Option.bind_some, copytree,
    copytree, Option.bind_some, insertRow_none h]
  rfl

end Failing

/-- Of two rows that are misplaced the first two are not selected. -/
theorem Misplaced.not_selectsFirst (h : Misplaced orders requested width x z)
    (horders : sortKeyList columnList keys = some orders) (hne : orders ≠ [])
    (hrequested : requestedKeys columnList keys = some requested) :
    ¬ SelectsFirst columnList keys .ALL (fun _ => true) 2 [x, z] := by
  intro ⟨out, hout, requested', hrequested', hfirst⟩
  obtain rfl := Option.some.inj (hrequested.symm.trans hrequested')
  obtain ⟨-, hzx⟩ | ⟨a, b, hxz, hzx, ha, hb⟩ := h.compared
  · have hnone : selectLoop [x, z].get orders .ALL (fun _ => true) (2 : Nat) [0, 1]
        ⟨newAvlTree, fun _ => 1, 0⟩ = none := selectLoop_none hne hzx
    unfold select calculateSSel at hout
    rw [horders, Option.bind_some, show List.finRange [x, z].length = [0, 1] from rfl, hnone] at hout
    exact absurd hout (by simp)
  · have ho := orders_pair (get_pair x z) hxz hzx ha hb
    obtain ⟨doublette, t, hready, hselect⟩ := @select_eq orders columnList keys .ALL
      (fun _ => true) 2 [x, z] horders hne ho (by omega) (by simp [resultRows])
    rw [hselect] at hout
    obtain ⟨r, hr, rfl⟩ := Option.map_eq_some_iff.mp hout
    exact hready.not_fetchfirst ho (by simp [resultRows]) (List.mem_cons_self)
      (by simp [resultRows]) h.precedes hzx hb hr hfirst

theorem Misplaced.ne (h : Misplaced orders requested width x z) : x ≠ z := by
  intro he
  subst he
  obtain ⟨hnone, -⟩ | ⟨a, b, hxz, -, ha, -⟩ := h.compared
  · rw [item_cmp_self] at hnone
    exact absurd hnone (by simp)
  · rw [item_cmp_self, Option.some.injEq] at hxz
    omega

theorem isOperand_pairTree (hne : x ≠ z) : IsOperand [x, z].get (fun _ => 1) pairTree where
  nodup := by
    show [x, z].Nodup
    simpa using hne
  positive _ _ := Int.one_pos

theorem Misplaced.not_fetchesFirst (h : Misplaced orders requested width x z)
    (horders : sortKeyList columnList keys = some orders)
    (hrequested : requestedKeys columnList keys = some requested) :
    ¬ FetchesFirst columnList keys [x, z].get (fun _ => 1) pairTree 2 := by
  intro ⟨orders', requested', r, horders', hrequested', hr, hfirst⟩
  obtain rfl := Option.some.inj (horders.symm.trans horders')
  obtain rfl := Option.some.inj (hrequested.symm.trans hrequested')
  obtain ⟨-, hzx⟩ | ⟨a, b, hxz, hzx, ha, hb⟩ := h.compared
  · have hnone : reorder [x, z].get orders pairTree = none := copytree_none hzx
    rw [hnone] at hr
    exact absurd hr (by simp)
  · have ho := orders_pair (get_pair x z) hxz hzx ha hb
    have hlisting : listing [x, z].get (fun _ => 1) pairTree.root.toList = [x, z] := rfl
    obtain ⟨t, ht, hready⟩ := reorder_spec ho (isOperand_pairTree h.ne) (by
      rw [hlisting]
      exact Nat.lt_of_sub_eq_succ rfl)
    rw [ht, Option.bind_some] at hr
    rw [hlisting] at hready hfirst
    exact hready.not_fetchfirst ho (by simp) (List.mem_cons_self) (by simp) h.precedes hzx hb hr
      hfirst

/-- A key that is left out. -/
theorem exists_misplaced_of_cut (horders : sortKeyList columnList keys = some orders)
    (hnames : ∀ k ∈ keys, k.IsName) (hnot : ¬ Uncut orders) :
    ∃ x z, Misplaced orders orders columnList.length x z := by
  have hcols := column_lt_of_names horders hnames
  obtain ⟨x, y, z, hcut⟩ := exists_showsCut hnot hcols
  obtain ⟨hx, -, hz⟩ := hcut.rows
  obtain ⟨c, hc, hneg⟩ := hcut.key
  obtain ⟨a, b, hxz, hzx, ha, hb⟩ := hcut.above
  refine ⟨x, z, ⟨hx, hz⟩, ?_, .inr ⟨a, b, hxz, hzx, ha, hb⟩⟩
  have hkeys : ∀ o ∈ orders, keyCmp x z o = some (keyCompar o x z) := fun o ho =>
    keyCmp_eq hx hz (hcols o ho) not_false not_false
  rw [lexKeys_eq hkeys, Option.some.injEq] at hc
  unfold Precedes
  rwa [hc]

/-- `s` and `t` in a column and the next one. -/
def sideBySide (width c : Nat) (s t : Text) : Fields :=
  (List.range width).map fun i => some (if i = c then s else if i = c + 1 then t else textA)

theorem sideBySide_get {c i : Nat} {s t : Text} (hi : i < width) : (sideBySide width c s t)[i]? =
    some (some (if i = c then s else if i = c + 1 then t else textA)) := by
  unfold sideBySide
  rw [List.getElem?_map, List.getElem?_range hi]
  rfl

theorem isRow_sideBySide {c : Nat} {s t : Text}
    (hs : isNull (some s) = false ∧ strtold s.1 ≠ none)
    (ht : isNull (some t) = false ∧ strtold t.1 ≠ none) :
    (RowKind.plain width).IsRow (sideBySide width c s t) := by
  refine ⟨by simp [sideBySide, RowKind.plain], fun i f hf => ?_⟩
  have hi : i < width := by
    have := (List.getElem?_eq_some_iff.mp hf).1
    simpa [sideBySide] using this
  have hA : isNull (some textA) = false ∧ strtold textA.1 ≠ none := by
    have hplain := IsLetterA.plain (.inl rfl : IsLetterA textA)
    exact ⟨hplain.1, by rw [hplain.2.1]; exact Option.some_ne_none 0⟩
  rw [sideBySide_get hi] at hf
  obtain rfl := Option.some.inj hf
  split
  · exact allows_plain hs.1 hs.2
  · split
    · exact allows_plain ht.1 ht.2
    · exact allows_plain hA.1 hA.2

theorem keyCompar_sideBySide {o : Order} (ho : o.column < width) {c : Nat} (s t : Text) :
    keyCompar o (sideBySide width c s t) (sideBySide width c t s) =
      directed o.order (compareTexts o.colSQLType
        (if o.column = c then s else if o.column = c + 1 then t else textA)
        (if o.column = c then t else if o.column = c + 1 then s else textA)) := by
  unfold keyCompar textAt
  rw [sideBySide_get ho, sideBySide_get ho]
  rfl

/-- The key after the one that is meant. -/
theorem exists_misplaced_of_next {o : Order} {os os' : List Order} {c : Nat}
    (hother : o.colSQLType ≠ .other) (hc : c < width) (ho : o.column = c + 1) :
    ∃ x z, Misplaced (o :: os) (⟨c, o.colSQLType, o.order⟩ :: os') width x z := by
  obtain ⟨s, t, hst⟩ := exists_onlyBy hother o.order
  have hs : isNull (some s) = false ∧ strtold s.1 ≠ none := ⟨hst.plain.1, hst.number.1⟩
  have ht : isNull (some t) = false ∧ strtold t.1 ≠ none := ⟨hst.plain.2, hst.number.2⟩
  have hx := @isRow_sideBySide width c s t hs ht
  have hz := @isRow_sideBySide width c t s ht hs
  -- the first key decides
  have hfirst : ∀ {u v : Text} {r : Option Int}, strcmp u.1 v.1 ≠ 0 →
      keyCmp (sideBySide width c u v) (sideBySide width c v u) o = r → r ≠ some 0 →
      RowOrder.item_cmp (o :: os) (sideBySide width c u v) (sideBySide width c v u) = r := by
    intro u v r huv hkey hr
    have hdiff : difference 0 (sideBySide width c u v) (sideBySide width c v u) =
        some (0 + c, strcmp u.1 v.1) := by
      refine difference_of_first ?_ ?_ huv fun i hi => ?_
      · rw [sideBySide_get hc, if_pos rfl]
      · rw [sideBySide_get hc, if_pos rfl]
      · rw [sideBySide_get (hi.trans hc), sideBySide_get (hi.trans hc), if_neg (Nat.ne_of_lt hi),
          if_neg (by omega), if_neg (Nat.ne_of_lt hi), if_neg (by omega)]
    have hkept : keptNum (o :: os) (0 + c) = keptNum (o :: os) (0 + c) - 1 + 1 := by
      unfold keptNum
      omega
    rw [item_cmp_of_differ hdiff, hkept, List.take_succ_cons, lexKeys, hkey]
    cases r with
    | none => rfl
    | some a =>
      have ha : a ≠ 0 := fun he => hr (by rw [he])
      rw [Option.bind_some, if_neg ha, Option.map_some, if_neg ha]
  have hne : strcmp s.1 t.1 ≠ 0 := Int.ne_of_gt hst.after
  have hne' : strcmp t.1 s.1 ≠ 0 := by
    rw [strcmp_swap s.1 t.1]
    have := hst.after
    omega
  refine ⟨sideBySide width c s t, sideBySide width c t s, ⟨hx, hz⟩, ?_, ?_⟩
  · unfold Precedes
    have hlt := hst.before
    rw [List.map_cons, comparBy, keyCompar_sideBySide hc, if_pos rfl, if_pos rfl,
      if_pos (Int.ne_of_lt hlt)]
    exact hlt
  · by_cases hnext : c + 1 < width
    · right
      have hcol : o.column < width := by omega
      have hback : keyCompar o (sideBySide width c t s) (sideBySide width c s t) < 0 := by
        rw [keyCompar_sideBySide hcol, if_neg (by omega), if_pos ho, if_neg (by omega), if_pos ho]
        exact hst.before
      have hforth : 0 < keyCompar o (sideBySide width c s t) (sideBySide width c t s) :=
        ((@totalOrder_keyCompar (.plain width) o hcol not_false fun _ => not_false).swap
          ⟨_, hz⟩ ⟨_, hx⟩).mp hback
      refine ⟨_, _, hfirst hne (keyCmp_eq hx hz hcol not_false not_false) ?_,
        hfirst hne' (keyCmp_eq hz hx hcol not_false not_false) ?_, hforth, hback⟩
      · rw [ne_eq, Option.some.injEq]
        exact Int.ne_of_gt hforth
      · rw [ne_eq, Option.some.injEq]
        exact Int.ne_of_lt hback
    · -- there is no column after it
      left
      have hnone : ∀ u v : Text,
          keyCmp (sideBySide width c u v) (sideBySide width c v u) o = none := by
        intro u v
        unfold keyCmp
        rw [List.getElem?_eq_none (by simp [sideBySide]; omega), Option.bind_none]
      exact ⟨hfirst hne (hnone s t) (by simp), hfirst hne' (hnone t s) (by simp)⟩

end Pairs

/-! ### All rows of a kind -/

/-- The selects on tables of the kind end with the first rows if and only if there are as many
as FETCH FIRST says. -/
def Selects (columnList : List OrderColumn) (keys : List SortKey) (K : RowKind) : Prop :=
  ∀ (mode : Mode) (test : Fields → Bool) (n : Nat) (table : List Fields),
    (∀ x ∈ table, K.IsRow x) → 1 ≤ n → n < 2 ^ 31 →
      (resultRows mode test table).length < 2 ^ 31 →
        (SelectsFirst columnList keys mode test n table ↔
          n ≤ (resultRows mode test table).length)

/-- The same for `fetchfirst` after `reorder`. -/
def Fetches (columnList : List OrderColumn) (keys : List SortKey) (K : RowKind) : Prop :=
  ∀ (α : Type) [DecidableEq α] (row : α → Fields) (doublette : α → Int) (t : AvlTree α) (n : Nat),
    (∀ a, K.IsRow (row a)) → IsOperand row doublette t → 1 ≤ n → n < 2 ^ 31 →
      (listing row doublette t.root.toList).length < 2 ^ 31 →
        (FetchesFirst columnList keys row doublette t n ↔
          n ≤ (listing row doublette t.root.toList).length)

/-- All keys are names, or the first one is the number of a column whose type is known. -/
def NamesOrNumber (columnList : List OrderColumn) (keys : List SortKey) : Prop :=
  (∀ k ∈ keys, k.IsName) ∨ ∃ colnr order rest o, keys = .number colnr order :: rest ∧
    sortKey columnList (.number colnr order) = some o ∧ o.colSQLType ≠ .other

theorem selects_of_fits {K : RowKind} (horders : sortKeyList columnList keys = some orders)
    (hrequested : requestedKeys columnList keys = some orders) (hne : orders ≠ [])
    (hfits : Fits K orders) : Selects columnList keys K := by
  intro mode test n table htable hn hint hsmall
  have hrow : ∀ i, K.IsRow (table.get i) := fun i => htable _ (List.get_mem table i)
  have ho := orders_of_fits hfits hrow
  obtain ⟨doublette, t, hready, hselect⟩ := select_eq horders hne ho hn hsmall
  rw [← hready.fetchfirst_iff ho (compar_of_precedes hfits hrow) hint hsmall]
  unfold SelectsFirst
  rw [hselect]
  constructor
  · intro ⟨out, hout, requested, hrequested', hfirst⟩
    obtain rfl := Option.some.inj (hrequested.symm.trans hrequested')
    obtain ⟨r, hr, rfl⟩ := Option.map_eq_some_iff.mp hout
    exact ⟨r, hr, hfirst⟩
  · intro ⟨r, hr, hfirst⟩
    exact ⟨_, by rw [hr, Option.map_some], orders, hrequested, hfirst⟩

theorem fetches_of_fits {K : RowKind} (horders : sortKeyList columnList keys = some orders)
    (hrequested : requestedKeys columnList keys = some orders) (hfits : Fits K orders) :
    Fetches columnList keys K := by
  intro α _ row doublette t n hrow hoperand _ hint hsmall
  have ho := orders_of_fits hfits hrow
  obtain ⟨t', ht', hready⟩ := reorder_spec ho hoperand hsmall
  rw [← hready.fetchfirst_iff ho (compar_of_precedes hfits hrow) hint hsmall]
  constructor
  · intro ⟨orders', requested', r, horders', hrequested', hr, hfirst⟩
    obtain rfl := Option.some.inj (horders.symm.trans horders')
    obtain rfl := Option.some.inj (hrequested.symm.trans hrequested')
    rw [ht', Option.bind_some] at hr
    exact ⟨r, hr, hfirst⟩
  · intro ⟨r, hr, hfirst⟩
    exact ⟨orders, orders, r, horders, hrequested, by rw [ht', Option.bind_some, hr], hfirst⟩

theorem exists_requestedKeys (h : sortKeyList columnList keys = some orders) :
    ∃ requested, requestedKeys columnList keys = some requested := by
  unfold sortKeyList at h
  unfold requestedKeys
  induction keys generalizing orders with
  | nil => exact ⟨[], rfl⟩
  | cons k keys ih =>
    rw [List.mapM_cons] at h
    obtain ⟨o, hk, h⟩ := Option.bind_eq_some_iff.mp h
    obtain ⟨os, hos, -⟩ := Option.bind_eq_some_iff.mp h
    obtain ⟨os', hos'⟩ := ih hos
    have ho' : ∃ o', requestedKey columnList k = some o' := by
      cases k with
      | number colnr order =>
        unfold sortKey at hk
        unfold requestedKey
        simp only at hk ⊢
        split at hk
        · exact absurd hk (by simp)
        · next hin =>
          obtain ⟨col, hcol, -⟩ := Option.map_eq_some_iff.mp hk
          rw [if_neg hin, hcol]
          exact ⟨_, rfl⟩
      | name s order => exact ⟨o, hk⟩
    obtain ⟨o', ho'⟩ := ho'
    exact ⟨o' :: os', by rw [List.mapM_cons, ho', hos']; rfl⟩

/-- A number for the first key. -/
theorem exists_misplaced_of_number {colnr : Int} {order : Direction} {rest : List SortKey}
    {o : Order} (horders : sortKeyList columnList (.number colnr order :: rest) = some orders)
    (hkey : sortKey columnList (.number colnr order) = some o) (hother : o.colSQLType ≠ .other) :
    ∃ requested, requestedKeys columnList (.number colnr order :: rest) = some requested ∧
      ∃ x z, Misplaced orders requested columnList.length x z := by
  obtain ⟨requested, hrequested⟩ := exists_requestedKeys horders
  refine ⟨requested, hrequested, ?_⟩
  unfold sortKeyList at horders
  unfold requestedKeys at hrequested
  rw [List.mapM_cons] at horders hrequested
  obtain ⟨o₁, hkey₁, horders⟩ := Option.bind_eq_some_iff.mp horders
  obtain ⟨os, -, horders⟩ := Option.bind_eq_some_iff.mp horders
  obtain ⟨o', hkey', hrequested⟩ := Option.bind_eq_some_iff.mp hrequested
  obtain ⟨os', -, hrequested⟩ := Option.bind_eq_some_iff.mp hrequested
  cases horders
  cases hrequested
  obtain rfl := Option.some.inj (hkey.symm.trans hkey₁)
  unfold sortKey at hkey
  unfold requestedKey at hkey'
  simp only at hkey hkey'
  split at hkey
  · exact absurd hkey (by simp)
  next hin =>
  rw [if_neg hin] at hkey'
  obtain ⟨col, hcol, rfl⟩ := Option.map_eq_some_iff.mp hkey
  rw [hcol, Option.map_some, Option.some.injEq] at hkey'
  subst hkey'
  refine exists_misplaced_of_next hother (List.getElem?_eq_some_iff.mp hcol).1 ?_
  simp only
  omega

end Kinds

/-- `CREATE TABLE` with two columns. -/
def twoColumns : List OrderColumn :=
  [⟨lit "name", lit "name", .string⟩, ⟨lit "size", lit "size", .unsigned⟩]

end Sfcb.Sql.FetchFirst
