import Sfcb.Avl.FiniteSet

/-!
# Rows in a result tree

`sqlStatement.c`. The rows of a relation are the items of an AVL tree that is ordered by
`item_cmp`. The tree keeps a row once; how often it is in the relation is its `doublette`,
which operations change in place.

Mirroring notes:
- A tree holds the addresses of its rows and `Heap` is what stands there.
- No field is `NULL` and there is no ORDER BY: `item_cmp` is then its first loop.
- All rows have `w` columns. `doublette` is an `int`.
-/

namespace Sfcb.Sql

open Sfcb.Lib
open Sfcb.Avl
open Sfcb.Lib.FiniteSet (equal remove Distinct)

/-- A string in a field of a row. -/
abbrev Text := {s : CStr // 0 ∉ s}

theorem zero_notMem_nil : 0 ∉ ([] : CStr) := List.not_mem_nil

theorem zero_notMem_a : 0 ∉ lit "a" := by decide

/-- The address of a row. -/
abbrev Addr := {a : UInt64 // a ≠ 0}

structure Row (w : Nat) where
  row : List Text
  doublette : Int
  size : row.length = w

abbrev Heap (w : Nat) := Addr → Row w

variable {w : Nat}

/-- `item_cmp`: the first column that differs decides. -/
def item_cmp (r1 r2 : Row w) : Int := lexCompar (fun s t : Text => strcmp s.1 t.1) r1.row r2.row

namespace Heap

variable (rows : Heap w)

/-- The comparison function of a tree gets addresses. -/
def compar (a b : Addr) : Int := item_cmp (rows a) (rows b)

/-- `r->doublette = d`. -/
def setDoublette (a : Addr) (d : Int) : Heap w := fun b =>
  if b = a then { rows b with doublette := d } else rows b

end Heap

/-! ## The order -/

theorem totalOrder_strcmp : TotalOrder fun s t : Text => strcmp s.1 t.1 where
  swap s t := by
    rw [strcmp_swap s.1 t.1]
    omega
  trans s t u := strcmp_trans s.2 t.2

theorem totalOrder_item_cmp : TotalOrder (item_cmp (w := w)) where
  swap r1 r2 := lexCompar_swap totalOrder_strcmp r1.row r2.row
  trans r1 r2 r3 := lexCompar_trans totalOrder_strcmp (r1.size.trans r2.size.symm)
    (r2.size.trans r3.size.symm)

/-- Rows that compare equal have the same texts. -/
theorem item_cmp_eq_zero_iff (r1 r2 : Row w) : item_cmp r1 r2 = 0 ↔ r1.row = r2.row := by
  refine lexCompar_eq_zero_iff totalOrder_strcmp (fun s t h => ?_) (r1.size.trans r2.size.symm)
  exact Subtype.ext ((strcmp_eq_zero_iff_of_notMem s.2 t.2).mp h)

theorem Heap.totalOrder_compar (rows : Heap w) : TotalOrder rows.compar :=
  ⟨fun a b => totalOrder_item_cmp.swap (rows a) (rows b),
    fun a b c => totalOrder_item_cmp.trans (rows a) (rows b) (rows c)⟩

/-! ## Changing a number -/

/-- Nothing but numbers was written. -/
def SameTexts (rows rows' : Heap w) : Prop := ∀ a, (rows' a).row = (rows a).row

theorem SameTexts.refl (rows : Heap w) : SameTexts rows rows := fun _ => rfl

theorem SameTexts.trans {rows rows' rows'' : Heap w} (h : SameTexts rows rows')
    (h' : SameTexts rows' rows'') : SameTexts rows rows'' :=
  fun a => (h' a).trans (h a)

theorem SameTexts.compar_eq {rows rows' : Heap w} (h : SameTexts rows rows') :
    rows'.compar = rows.compar := by
  funext a b
  show lexCompar _ (rows' a).row (rows' b).row = lexCompar _ (rows a).row (rows b).row
  rw [h a, h b]

section SetDoublette

variable (rows : Heap w) (a : Addr) (d : Int)

theorem Heap.sameTexts_setDoublette : SameTexts rows (rows.setDoublette a d) := by
  intro b
  unfold Heap.setDoublette
  split <;> rfl

@[simp] theorem Heap.doublette_setDoublette_self : (rows.setDoublette a d a).doublette = d := by
  simp [Heap.setDoublette]

theorem Heap.setDoublette_of_ne {b : Addr} (h : b ≠ a) : rows.setDoublette a d b = rows b :=
  if_neg h

end SetDoublette

/-! ## Looking for a row -/

/-- Where a tree has the row with these texts. -/
def find (rows : Heap w) (t : AvlTree Addr) (x : List Text) : Option Addr :=
  t.root.toList.find? fun a => (rows a).row = x

/-- How often a tree has a row. -/
def multiplicity (rows : Heap w) (t : AvlTree Addr) (x : List Text) : Int :=
  ((find rows t x).map fun a => (rows a).doublette).getD 0

/-- The tree is one that the operations of the AVL tree have made. -/
def Stored (rows : Heap w) (t : AvlTree Addr) : Prop := Stores rows.compar t t.root.toList

theorem stored_newAvlTree (rows : Heap w) : Stored rows newAvlTree := stores_newAvlTree

theorem stored_of_stores {rows : Heap w} {t : AvlTree Addr} {s : List Addr}
    (h : Stores rows.compar t s) : Stored rows t :=
  ⟨h.search, h.balanced, List.Perm.refl _, by rw [h.items.length_eq, h.count]⟩

theorem Stored.of_sameTexts {rows rows' : Heap w} {t : AvlTree Addr} (h : Stored rows t)
    (hsame : SameTexts rows rows') : Stored rows' t := by
  unfold Stored
  rw [hsame.compar_eq]
  exact h

theorem find_of_sameTexts {rows rows' : Heap w} (hsame : SameTexts rows rows')
    (t : AvlTree Addr) (x : List Text) : find rows' t x = find rows t x := by
  unfold find
  simp only [hsame _]

theorem row_of_find {rows : Heap w} {t : AvlTree Addr} {x : List Text} {a : Addr}
    (h : find rows t x = some a) : (rows a).row = x := by
  simpa using List.find?_some h

/-- What compares equal is what has the same texts. -/
theorem equal_eq_find? (rows : Heap w) (s : List Addr) (a : Addr) :
    equal rows.compar a s = s.find? fun b => (rows b).row = (rows a).row := by
  unfold equal Heap.compar
  congr 1
  funext b
  rw [decide_eq_decide, item_cmp_eq_zero_iff, eq_comm]

/-- There are not that many addresses. -/
theorem length_lt_of_nodup {s : List Addr} (h : s.Nodup) : s.length < 2 ^ 64 := by
  have hnodup : (s.map fun a => a.1.toNat).Nodup :=
    List.Pairwise.map (fun a : Addr => a.1.toNat)
      (fun a b hne heq => hne (Subtype.ext (UInt64.toNat_inj.mp heq))) h
  have hsub : (s.map fun a => a.1.toNat) ⊆ List.range' 1 (2 ^ 64 - 1) := by
    intro k hk
    obtain ⟨a, -, rfl⟩ := List.mem_map.mp hk
    have hlt := a.1.toNat_lt
    have hpos : a.1.toNat ≠ 0 := fun hzero => a.2 (UInt64.toNat_inj.mp hzero)
    rw [List.mem_range'_1]
    omega
  have hle := (List.subperm_of_subset hnodup hsub).length_le
  rw [List.length_map, List.length_range'] at hle
  omega

theorem Stored.length_lt {rows : Heap w} {t : AvlTree Addr} (h : Stored rows t) :
    t.root.toList.length < 2 ^ 64 := by
  refine length_lt_of_nodup ((h.ordered rows.totalOrder_compar).imp ?_)
  intro a b hlt heq
  rw [heq, rows.totalOrder_compar.self] at hlt
  omega

/-- Rows are found in the tree as in any list of its items. -/
theorem find_eq_find? {rows : Heap w} {t : AvlTree Addr} {s : List Addr}
    (h : Stores rows.compar t s) (x : List Text) :
    find rows t x = s.find? fun a => (rows a).row = x := by
  have hd := h.distinct rows.totalOrder_compar
  unfold find
  cases hfind : s.find? fun a => (rows a).row = x with
  | none =>
    rw [List.find?_eq_none] at hfind ⊢
    exact fun a ha => hfind a (h.items.mem_iff.mp ha)
  | some a =>
    have ha := List.mem_of_find?_eq_some hfind
    have hrow : (rows a).row = x := by simpa using List.find?_some hfind
    refine FiniteSet.find?_eq_some_of_unique (h.items.mem_iff.mpr ha) (by simpa using hrow) ?_
    intro b hb hrow'
    have hrow' : (rows b).row = x := by simpa using hrow'
    exact hd b (h.items.mem_iff.mp hb) a ha
      ((item_cmp_eq_zero_iff _ _).mpr (hrow'.trans hrow.symm))

section Step

variable {rows : Heap w} {t : AvlTree Addr} (h : Stored rows t)
include h

/-- A row is inserted where there is none with its texts. -/
theorem Stored.insert_spec (a : Addr) :
    ∃ t', insertAvl rows.compar t a = some (t', find rows t (rows a).row) ∧ Stored rows t' ∧
      ∀ x, find rows t' x =
        if x = (rows a).row then (find rows t x).or (some a) else find rows t x := by
  obtain ⟨t', hrun, ht'⟩ := step_some rows.totalOrder_compar h h.length_lt (.insert a)
  have hequal := equal_eq_find? rows t.root.toList a
  have hresult : (apply rows.compar t.root.toList (.insert a)).2 = find rows t (rows a).row := by
    unfold find
    rw [← hequal]
    simp only [apply]
    split
    · next heq => rw [heq]
    · next heq => rw [heq]
  refine ⟨t', by rw [← hresult]; exact hrun, stored_of_stores ht', fun x => ?_⟩
  rw [find_eq_find? ht' x]
  simp only [apply, hequal]
  by_cases hx : x = (rows a).row
  · rw [if_pos hx, hx]
    unfold find
    split
    · next heq => rw [heq, Option.some_or]
    · next heq => simp [heq]
  · rw [if_neg hx]
    unfold find
    split
    · rfl
    · simp [show ¬ (rows a).row = x from fun he => hx he.symm]

/-- A row is deleted by its texts. -/
theorem Stored.delete_spec (a : Addr) :
    ∃ t', deleteAvl rows.compar t a = some (t', find rows t (rows a).row) ∧ Stored rows t' ∧
      ∀ x, find rows t' x = if x = (rows a).row then none else find rows t x := by
  obtain ⟨t', hrun, ht'⟩ := step_some rows.totalOrder_compar h h.length_lt (.delete a)
  have hresult : (apply rows.compar t.root.toList (.delete a)).2 = find rows t (rows a).row :=
    equal_eq_find? rows t.root.toList a
  refine ⟨t', by rw [← hresult]; exact hrun, stored_of_stores ht', fun x => ?_⟩
  rw [find_eq_find? ht' x]
  show (remove rows.compar a t.root.toList).find? _ = _
  have hkeep : ∀ b, rows.compar a b ≠ 0 ↔ (rows b).row ≠ (rows a).row := fun b => by
    rw [Ne, Heap.compar, item_cmp_eq_zero_iff, eq_comm]
  unfold remove find
  rw [List.find?_filter]
  by_cases hx : x = (rows a).row
  · rw [if_pos hx, List.find?_eq_none]
    intro b _ hb
    simp only [decide_eq_true_eq, hkeep] at hb
    exact hb.1 (hb.2.trans hx)
  · rw [if_neg hx]
    congr 1
    funext b
    by_cases hb : (rows b).row = x
    · simp [hb, hkeep, hx]
    · simp [hb]

end Step

end Sfcb.Sql
