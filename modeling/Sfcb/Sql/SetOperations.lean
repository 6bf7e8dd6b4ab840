import Sfcb.Sql.Rows

/-!
# UNION, EXCEPT and INTERSECT

`uniontree`, `excepttree` and `intersecttree` go through the rows of the second operand in
order and look each one up in the tree of the first. A visit concerns the row with the texts
of the visited one and no other (`Visits`), so a walk does to every row what its own visit
does (`walk_spec`).

`setOperation_iff`: which rows come out right. INTERSECT and INTERSECT ALL always do. UNION
and EXCEPT leave the number of a row as it is, UNION ALL adds up in an `int`, and EXCEPT ALL
puts back the row of the wrong operand, with the number it had there.

Mirroring notes:
- `calculateFSel` is embedded from where both operands are trees, for a full select without
  ORDER BY and FETCH FIRST.
- The three functions recurse in the same way; what differs is what a node does.
-/

namespace Sfcb.Sql

open Sfcb.Lib
open Sfcb.Avl

variable {w : Nat}

inductive SetOperation where
  | UNION | UNIONALL | EXCEPT | EXCEPTALL | INTERSECT | INTERSECTALL
  deriving Repr, DecidableEq

/-- What SQL says about a row that the operands have `m1` and `m2` times. -/
def SetOperation.sql : SetOperation → Nat → Nat → Nat
  | .UNION, m1, m2 => if 0 < m1 ∨ 0 < m2 then 1 else 0
  | .UNIONALL, m1, m2 => m1 + m2
  | .EXCEPT, m1, m2 => if 0 < m1 ∧ m2 = 0 then 1 else 0
  | .EXCEPTALL, m1, m2 => m1 - m2
  | .INTERSECT, m1, m2 => if 0 < m1 ∧ 0 < m2 then 1 else 0
  | .INTERSECTALL, m1, m2 => min m1 m2

/-! ## The walks -/

/-- Left subtree, item, right subtree. -/
def walk {σ : Type} (visit : σ → Addr → Option σ) : SearchTree Addr → σ → Option σ
  | .nil, s => some s
  | .node l x r _, s => (walk visit l s).bind fun s => (visit s x).bind (walk visit r)

/-- The rows and the tree `t1`. -/
structure Trees (w : Nat) where
  rows : Heap w
  t1 : AvlTree Addr

/-- `intersecttree` also has the tree it builds. -/
structure TreesAndRes (w : Nat) extends Trees w where
  res : AvlTree Addr

/-- A node in `uniontree`. -/
def unionItem (type : SetOperation) (s : Trees w) (item : Addr) : Option (Trees w) :=
  (insertAvl s.rows.compar s.t1 item).map fun out =>
    match out.2 with
    | none => ⟨s.rows, out.1⟩
    | some r2 =>
      if type = .UNIONALL then
        ⟨s.rows.setDoublette r2 (cInt ((s.rows r2).doublette + (s.rows item).doublette)), out.1⟩
      else ⟨s.rows, out.1⟩

/-- A node in `excepttree`. It is `node->item` that is inserted again, not `r2`. -/
def exceptItem (type : SetOperation) (s : Trees w) (item : Addr) : Option (Trees w) :=
  (deleteAvl s.rows.compar s.t1 item).bind fun out =>
    match out.2 with
    | none => some ⟨s.rows, out.1⟩
    | some r2 =>
      if type = .EXCEPTALL then
        let rows :=
          s.rows.setDoublette r2 (cInt ((s.rows r2).doublette - (s.rows item).doublette))
        if (rows r2).doublette > 0 then
          (insertAvl rows.compar out.1 item).map fun again => ⟨rows, again.1⟩
        else some ⟨rows, out.1⟩
      else some ⟨s.rows, out.1⟩

/-- A node in `intersecttree`. -/
def intersectItem (type : SetOperation) (s : TreesAndRes w) (item : Addr) :
    Option (TreesAndRes w) :=
  (deleteAvl s.rows.compar s.t1 item).bind fun out =>
    match out.2 with
    | none => some ⟨⟨s.rows, out.1⟩, s.res⟩
    | some r2 =>
      (insertAvl s.rows.compar s.res r2).map fun res =>
        let doublette :=
          if type = .INTERSECTALL then min (s.rows item).doublette (s.rows r2).doublette else 1
        ⟨⟨s.rows.setDoublette r2 doublette, out.1⟩, res.1⟩

/-- `uniontree`. -/
def uniontree (type : SetOperation) : SearchTree Addr → Trees w → Option (Trees w) :=
  walk (unionItem type)

/-- `excepttree`. -/
def excepttree (type : SetOperation) : SearchTree Addr → Trees w → Option (Trees w) :=
  walk (exceptItem type)

/-- `intersecttree`. -/
def intersecttree (type : SetOperation) : SearchTree Addr → TreesAndRes w →
    Option (TreesAndRes w) :=
  walk (intersectItem type)

/-- How `calculateFSel` combines the trees `t1` and `t2`: the rows, and the tree that it
returns. -/
def combine (type : SetOperation) (rows : Heap w) (t1 t2 : AvlTree Addr) :
    Option (Heap w × AvlTree Addr) :=
  match type with
  | .UNION | .UNIONALL =>
    (uniontree type t2.root ⟨rows, t1⟩).map fun s => (s.rows, s.t1)
  | .EXCEPT | .EXCEPTALL =>
    (excepttree type t2.root ⟨rows, t1⟩).map fun s => (s.rows, s.t1)
  | .INTERSECT | .INTERSECTALL =>
    (intersecttree type t2.root ⟨⟨rows, t1⟩, newAvlTree⟩).map fun s => (s.rows, s.res)

/-! ## What a walk does -/

/-- The number of a row that is there. -/
def stock (rows : Heap w) (t : AvlTree Addr) (x : List Text) : Option Int :=
  (find rows t x).map fun a => (rows a).doublette

theorem walk_eq_foldlM {σ : Type} (visit : σ → Addr → Option σ) (t : SearchTree Addr) (s : σ) :
    walk visit t s = t.toList.foldlM visit s := by
  induction t generalizing s with
  | nil => rfl
  | node l x r b ihl ihr =>
    rw [walk, SearchTree.toList, List.foldlM_append, ihl]
    show Option.bind _ _ = Option.bind _ _
    congr 1
    funext s'
    rw [List.foldlM_cons]
    show Option.bind _ _ = Option.bind _ _
    congr 1
    funext s''
    exact ihr s''

section Walk

variable {σ β : Type} (rowsOf : σ → Heap w) (Inv : σ → Prop) (count : σ → List Text → β)
  (effect : Int → β → β)

/-- A visit keeps `Inv`, and all it changes is about rows with the texts of the visited one:
what is counted for them, and their numbers. -/
def Visits (visit : σ → Addr → Option σ) : Prop :=
  ∀ s a, Inv s → ∃ s', visit s a = some s' ∧ Inv s' ∧ SameTexts (rowsOf s) (rowsOf s') ∧
    (∀ b, (rowsOf s b).row ≠ (rowsOf s a).row → rowsOf s' b = rowsOf s b) ∧
    ∀ x, count s' x =
      if x = (rowsOf s a).row then effect (rowsOf s a).doublette (count s x) else count s x

variable {rowsOf Inv count effect} {visit : σ → Addr → Option σ}

/-- Items with different texts are visited one after the other. -/
theorem foldlM_spec (hvisits : Visits rowsOf Inv count effect visit) {l : List Addr} {s : σ}
    (hs : Inv s) (hl : l.Pairwise fun a b => (rowsOf s a).row ≠ (rowsOf s b).row) :
    ∃ s', l.foldlM visit s = some s' ∧ Inv s' ∧ SameTexts (rowsOf s) (rowsOf s') ∧
      ∀ x, count s' x = match l.find? fun a => (rowsOf s a).row = x with
        | some a => effect (rowsOf s a).doublette (count s x)
        | none => count s x := by
  induction l generalizing s with
  | nil => exact ⟨s, rfl, hs, SameTexts.refl _, fun _ => rfl⟩
  | cons a l ih =>
    obtain ⟨ha, hl⟩ := List.pairwise_cons.mp hl
    obtain ⟨s₁, hrun, hs₁, hsame, hframe, hcount⟩ := hvisits s a hs
    obtain ⟨s', hrun', hs', hsame', hcount'⟩ := ih hs₁ (hl.imp fun {b c} hne => by
      rw [hsame b, hsame c]
      exact hne)
    refine ⟨s', by rw [List.foldlM_cons, hrun]; exact hrun', hs', hsame.trans hsame', fun x => ?_⟩
    rw [hcount' x, hcount x, List.find?_cons]
    simp only [hsame _]
    by_cases hx : x = (rowsOf s a).row
    · -- no later item has these texts
      have hnone : l.find? (fun b => (rowsOf s b).row = x) = none := by
        rw [List.find?_eq_none]
        intro b hb
        simpa [hx] using (ha b hb).symm
      simp only [hnone, if_pos hx, decide_eq_true hx.symm]
    · rw [if_neg hx, decide_eq_false fun he => hx he.symm]
      cases hfind : l.find? fun b => (rowsOf s b).row = x with
      | none => rfl
      | some b =>
        have hrow : (rowsOf s b).row = x := by simpa using List.find?_some hfind
        simp only [hframe b (fun he => hx (hrow.symm.trans he))]

/-- Every row has had its own visit, or none. -/
theorem walk_spec (hvisits : Visits rowsOf Inv count effect visit) {t : AvlTree Addr} {s : σ}
    (hs : Inv s) (ht : Stored (rowsOf s) t) :
    ∃ s', walk visit t.root s = some s' ∧ Inv s' ∧ SameTexts (rowsOf s) (rowsOf s') ∧
      ∀ x, count s' x =
        (stock (rowsOf s) t x).elim (count s x) fun m2 => effect m2 (count s x) := by
  have hpairwise : t.root.toList.Pairwise fun a b => (rowsOf s a).row ≠ (rowsOf s b).row := by
    refine (ht.ordered (rowsOf s).totalOrder_compar).imp fun {a b} hlt heq => ?_
    have hzero := (item_cmp_eq_zero_iff (rowsOf s a) (rowsOf s b)).mpr heq
    rw [Heap.compar, hzero] at hlt
    omega
  obtain ⟨s', hrun, hs', hsame, hcount⟩ := foldlM_spec hvisits hs hpairwise
  refine ⟨s', by rw [walk_eq_foldlM, hrun], hs', hsame, fun x => ?_⟩
  rw [hcount x]
  unfold stock find
  cases t.root.toList.find? fun a => (rowsOf s a).row = x <;> rfl

end Walk

/-! ## What a visit does -/

theorem stock_setDoublette (rows : Heap w) (t : AvlTree Addr) (r : Addr) (d : Int)
    (x : List Text) :
    stock (rows.setDoublette r d) t x = if find rows t x = some r then some d else stock rows t x := by
  unfold stock
  rw [find_of_sameTexts (rows.sameTexts_setDoublette r d)]
  cases find rows t x with
  | none => simp
  | some b =>
    by_cases hb : b = r
    · simp [hb]
    · simp [hb, rows.setDoublette_of_ne r d hb]

/-- A row whose texts are not those of `r` keeps its number. -/
theorem setDoublette_frame {rows : Heap w} {r b : Addr} {x : List Text} (hr : (rows r).row = x)
    (hb : (rows b).row ≠ x) (d : Int) : rows.setDoublette r d b = rows b :=
  rows.setDoublette_of_ne r d fun h => hb (h ▸ hr)

/-- `uniontree` on the row that was found, or not. -/
def unionEffect (type : SetOperation) (m2 : Int) : Option Int → Option Int
  | none => some m2
  | some m1 => some (if type = .UNIONALL then cInt (m1 + m2) else m1)

theorem unionItem_visits (type : SetOperation) :
    Visits (w := w) (fun s : Trees w => s.rows) (fun s => Stored s.rows s.t1)
      (fun s => stock s.rows s.t1) (unionEffect type) (unionItem type) := by
  intro s a hs
  obtain ⟨t', hrun, ht', hfind⟩ := hs.insert_spec a
  unfold unionItem
  rw [hrun, Option.map_some]
  cases hfound : find s.rows s.t1 (s.rows a).row with
  | none =>
    refine ⟨_, rfl, ht', SameTexts.refl _, fun _ _ => rfl, fun x => ?_⟩
    show stock s.rows t' x = _
    unfold stock
    rw [hfind x]
    by_cases hx : x = (s.rows a).row
    · simp [hx, hfound, unionEffect]
    · simp [hx]
  | some r2 =>
    have hrow : (s.rows r2).row = (s.rows a).row := row_of_find hfound
    have hsame : ∀ x, find s.rows t' x = find s.rows s.t1 x := fun x => by
      rw [hfind x]
      split
      · next hx => rw [hx, hfound, Option.some_or]
      · rfl
    have hstock : ∀ x, stock s.rows t' x = stock s.rows s.t1 x := fun x => by
      unfold stock
      rw [hsame x]
    have hnow : stock s.rows s.t1 (s.rows a).row = some (s.rows r2).doublette := by
      simp [stock, hfound]
    by_cases htype : type = .UNIONALL
    · dsimp only
      rw [if_pos htype]
      refine ⟨_, rfl, ht'.of_sameTexts (s.rows.sameTexts_setDoublette r2 _),
        s.rows.sameTexts_setDoublette r2 _, fun b hb => setDoublette_frame hrow hb _, fun x => ?_⟩
      show stock (s.rows.setDoublette r2 _) t' x = _
      rw [stock_setDoublette, hsame x, hstock x]
      by_cases hx : x = (s.rows a).row
      · rw [if_pos hx, hx, if_pos hfound, hnow, unionEffect, if_pos htype]
      · rw [if_neg hx, if_neg fun h => hx ((row_of_find h).symm.trans hrow)]
    · dsimp only
      rw [if_neg htype]
      refine ⟨_, rfl, ht', SameTexts.refl _, fun _ _ => rfl, fun x => ?_⟩
      show stock s.rows t' x = _
      rw [hstock x]
      by_cases hx : x = (s.rows a).row
      · rw [if_pos hx, hx, hnow, unionEffect, if_neg htype]
      · rw [if_neg hx]

/-- `excepttree` on the row that was found, or not. -/
def exceptEffect (type : SetOperation) (m2 : Int) : Option Int → Option Int
  | none => none
  | some m1 => if type = .EXCEPTALL ∧ cInt (m1 - m2) > 0 then some m2 else none

theorem exceptItem_visits (type : SetOperation) :
    Visits (w := w) (fun s : Trees w => s.rows) (fun s => Stored s.rows s.t1)
      (fun s => stock s.rows s.t1) (exceptEffect type) (exceptItem type) := by
  intro s a hs
  obtain ⟨t', hrun, ht', hfind⟩ := hs.delete_spec a
  unfold exceptItem
  rw [hrun, Option.bind_some]
  have hstock : ∀ x, stock s.rows t' x =
      if x = (s.rows a).row then none else stock s.rows s.t1 x := fun x => by
    unfold stock
    rw [hfind x]
    split <;> rfl
  cases hfound : find s.rows s.t1 (s.rows a).row with
  | none =>
    refine ⟨_, rfl, ht', SameTexts.refl _, fun _ _ => rfl, fun x => ?_⟩
    show stock s.rows t' x = _
    rw [hstock x]
    by_cases hx : x = (s.rows a).row
    · simp [hx, stock, hfound, exceptEffect]
    · rw [if_neg hx, if_neg hx]
  | some r2 =>
    have hrow : (s.rows r2).row = (s.rows a).row := row_of_find hfound
    have hnow : stock s.rows s.t1 (s.rows a).row = some (s.rows r2).doublette := by
      simp [stock, hfound]
    dsimp only
    by_cases htype : type = .EXCEPTALL
    · rw [if_pos htype, Heap.doublette_setDoublette_self]
      have hsame := s.rows.sameTexts_setDoublette r2
        (cInt ((s.rows r2).doublette - (s.rows a).doublette))
      have hframe : ∀ b, (s.rows b).row ≠ (s.rows a).row → _ := fun b hb =>
        setDoublette_frame hrow hb (cInt ((s.rows r2).doublette - (s.rows a).doublette))
      by_cases hleft : cInt ((s.rows r2).doublette - (s.rows a).doublette) > 0
      · rw [if_pos hleft]
        obtain ⟨t'', hrun', ht'', hfind'⟩ := (ht'.of_sameTexts hsame).insert_spec a
        rw [hrun', Option.map_some]
        refine ⟨_, rfl, ht'', hsame, hframe, fun x => ?_⟩
        show stock (s.rows.setDoublette r2 _) t'' x = _
        -- the row that is deleted and the one that is inserted are two
        have hne : a ≠ r2 := fun h => by
          rw [h, Int.sub_self] at hleft
          exact absurd hleft (by decide)
        unfold stock
        rw [hfind' x, hsame a, find_of_sameTexts hsame t' x, hfind x]
        by_cases hx : x = (s.rows a).row
        · rw [if_pos hx, if_pos hx, if_pos hx, hx, Option.none_or, hfound, Option.map_some,
            Option.map_some, s.rows.setDoublette_of_ne r2 _ hne, exceptEffect,
            if_pos ⟨htype, hleft⟩]
        · rw [if_neg hx, if_neg hx, if_neg hx]
          cases hb : find s.rows s.t1 x with
          | none => rfl
          | some b =>
            have hrow' : (s.rows b).row = x := row_of_find hb
            rw [Option.map_some, Option.map_some, hframe b fun he => hx (hrow'.symm.trans he)]
      · rw [if_neg hleft]
        refine ⟨_, rfl, ht'.of_sameTexts hsame, hsame, hframe, fun x => ?_⟩
        show stock (s.rows.setDoublette r2 _) t' x = _
        rw [stock_setDoublette, hfind x, hstock x]
        by_cases hx : x = (s.rows a).row
        · rw [if_pos hx, if_pos hx, if_pos hx, if_neg (by simp), hx, hnow, exceptEffect,
            if_neg fun h => hleft h.2]
        · rw [if_neg hx, if_neg hx, if_neg hx, if_neg fun h => hx ((row_of_find h).symm.trans hrow)]
    · rw [if_neg htype]
      refine ⟨_, rfl, ht', SameTexts.refl _, fun _ _ => rfl, fun x => ?_⟩
      show stock s.rows t' x = _
      rw [hstock x]
      by_cases hx : x = (s.rows a).row
      · rw [if_pos hx, if_pos hx, hx, hnow, exceptEffect, if_neg fun h => htype h.1]
      · rw [if_neg hx, if_neg hx]

/-- Both trees of `intersecttree` are in order, and no row is in both. -/
structure Parted (s : TreesAndRes w) : Prop where
  t1 : Stored s.rows s.t1
  res : Stored s.rows s.res
  apart : ∀ x, find s.rows s.t1 x ≠ none → find s.rows s.res x = none

/-- `intersecttree` on the row that was found, or not: what `t1` and `res` have of it. -/
def intersectEffect (type : SetOperation) (m2 : Int) :
    Option Int × Option Int → Option Int × Option Int
  | (none, kept) => (none, kept)
  | (some m1, _) => (none, some (if type = .INTERSECTALL then min m2 m1 else 1))

theorem intersectItem_visits (type : SetOperation) :
    Visits (w := w) (fun s : TreesAndRes w => s.rows) Parted
      (fun s x => (stock s.rows s.t1 x, stock s.rows s.res x)) (intersectEffect type)
      (intersectItem type) := by
  intro s a hs
  obtain ⟨t', hrun, ht', hfind⟩ := hs.t1.delete_spec a
  unfold intersectItem
  rw [hrun, Option.bind_some]
  have hstock : ∀ x, stock s.rows t' x =
      if x = (s.rows a).row then none else stock s.rows s.t1 x := fun x => by
    unfold stock
    rw [hfind x]
    split <;> rfl
  cases hfound : find s.rows s.t1 (s.rows a).row with
  | none =>
    refine ⟨_, rfl, ⟨ht', hs.res, fun x hx => hs.apart x fun h => hx ?_⟩, SameTexts.refl _,
      fun _ _ => rfl, fun x => ?_⟩
    · show find s.rows t' x = none
      rw [hfind x, h]
      split <;> rfl
    · show (stock s.rows t' x, stock s.rows s.res x) = _
      rw [hstock x]
      by_cases hx : x = (s.rows a).row
      · simp [hx, stock, hfound, intersectEffect]
      · rw [if_neg hx, if_neg hx]
  | some r2 =>
    have hrow : (s.rows r2).row = (s.rows a).row := row_of_find hfound
    have hnow : stock s.rows s.t1 (s.rows a).row = some (s.rows r2).doublette := by
      simp [stock, hfound]
    have hnew : find s.rows s.res (s.rows a).row = none :=
      hs.apart _ (by rw [hfound]; simp)
    dsimp only
    obtain ⟨d, hd⟩ : ∃ d, d = if type = .INTERSECTALL then
      min (s.rows a).doublette (s.rows r2).doublette else 1 := ⟨_, rfl⟩
    rw [← hd]
    obtain ⟨res, hrun', hres, hfind'⟩ := hs.res.insert_spec r2
    rw [hrun', Option.map_some]
    have hsame := s.rows.sameTexts_setDoublette r2 d
    have hkept : ∀ x, find s.rows res x =
        if x = (s.rows a).row then some r2 else find s.rows s.res x := fun x => by
      rw [hfind' x, hrow]
      split
      · next hx => rw [hx, hnew, Option.none_or]
      · rfl
    refine ⟨_, rfl, ⟨ht'.of_sameTexts hsame, hres.of_sameTexts hsame, fun x hx => ?_⟩, hsame,
      fun b hb => setDoublette_frame hrow hb d, fun x => ?_⟩
    · -- what is still in `t1` was not visited
      have hx : find (s.rows.setDoublette r2 d) t' x ≠ none := hx
      show find (s.rows.setDoublette r2 d) res x = none
      rw [find_of_sameTexts hsame, hfind x] at hx
      rw [find_of_sameTexts hsame, hkept x]
      by_cases hxa : x = (s.rows a).row
      · rw [if_pos hxa] at hx
        exact absurd rfl hx
      · rw [if_neg hxa] at hx ⊢
        exact hs.apart x hx
    · show (stock (s.rows.setDoublette r2 d) t' x, stock (s.rows.setDoublette r2 d) res x) = _
      rw [stock_setDoublette, stock_setDoublette, hfind x, hstock x, hkept x]
      by_cases hx : x = (s.rows a).row
      · rw [if_pos hx, if_pos hx, if_pos hx, if_pos hx, if_neg (by simp), if_pos rfl, hx, hnow, hd]
        rfl
      · have hother : ∀ {t : AvlTree Addr}, find s.rows t x ≠ some r2 := fun h =>
          hx ((row_of_find h).symm.trans hrow)
        rw [if_neg hx, if_neg hx, if_neg hx, if_neg hx, if_neg hother, if_neg hother]
        unfold stock
        rw [hkept x, if_neg hx]

/-! ## Which rows come out right -/

/-- What `calculateFSel` makes of a row of which the operands have `m1` and `m2`. -/
def SetOperation.outcome (type : SetOperation) (m1 m2 : Option Int) : Option Int :=
  match type with
  | .UNION | .UNIONALL => m2.elim m1 fun m2 => unionEffect type m2 m1
  | .EXCEPT | .EXCEPTALL => m2.elim m1 fun m2 => exceptEffect type m2 m1
  | .INTERSECT | .INTERSECTALL => m2.elim none fun m2 => (intersectEffect type m2 (m1, none)).2

section Combine

variable {rows : Heap w} {t1 t2 : AvlTree Addr} (h1 : Stored rows t1) (h2 : Stored rows t2)
  (type : SetOperation)
include h1 h2

theorem uniontree_spec : ∃ s', uniontree type t2.root ⟨rows, t1⟩ = some s' ∧
    Stored s'.rows s'.t1 ∧ ∀ x, stock s'.rows s'.t1 x =
      (stock rows t2 x).elim (stock rows t1 x) fun m2 => unionEffect type m2 (stock rows t1 x) := by
  obtain ⟨s', hrun, hs', -, hcount⟩ := walk_spec (unionItem_visits type) (s := ⟨rows, t1⟩) h1 h2
  exact ⟨s', hrun, hs', hcount⟩

theorem excepttree_spec : ∃ s', excepttree type t2.root ⟨rows, t1⟩ = some s' ∧
    Stored s'.rows s'.t1 ∧ ∀ x, stock s'.rows s'.t1 x =
      (stock rows t2 x).elim (stock rows t1 x) fun m2 => exceptEffect type m2 (stock rows t1 x) := by
  obtain ⟨s', hrun, hs', -, hcount⟩ := walk_spec (exceptItem_visits type) (s := ⟨rows, t1⟩) h1 h2
  exact ⟨s', hrun, hs', hcount⟩

theorem intersecttree_spec : ∃ s',
    intersecttree type t2.root ⟨⟨rows, t1⟩, newAvlTree⟩ = some s' ∧ Stored s'.rows s'.res ∧
      ∀ x, stock s'.rows s'.res x =
        (stock rows t2 x).elim none fun m2 => (intersectEffect type m2 (stock rows t1 x, none)).2 := by
  have hinv : Parted (⟨⟨rows, t1⟩, newAvlTree⟩ : TreesAndRes w) :=
    ⟨h1, stored_newAvlTree rows, fun _ _ => rfl⟩
  obtain ⟨s', hrun, hs', -, hcount⟩ := walk_spec (intersectItem_visits type) hinv h2
  refine ⟨s', hrun, hs'.res, fun x => ?_⟩
  have hcount := congrArg Prod.snd (hcount x)
  rw [show stock s'.rows s'.res x = _ from hcount]
  cases stock rows t2 x <;> rfl

/-- The number of every row of the result. -/
theorem combine_spec : ∃ out, combine type rows t1 t2 = some out ∧ Stored out.1 out.2 ∧
    ∀ x, stock out.1 out.2 x = type.outcome (stock rows t1 x) (stock rows t2 x) := by
  cases type with
  | UNION | UNIONALL =>
    obtain ⟨s', hrun, hs', hcount⟩ := uniontree_spec h1 h2 _
    exact ⟨_, by rw [combine, hrun, Option.map_some], hs', hcount⟩
  | EXCEPT | EXCEPTALL =>
    obtain ⟨s', hrun, hs', hcount⟩ := excepttree_spec h1 h2 _
    exact ⟨_, by rw [combine, hrun, Option.map_some], hs', hcount⟩
  | INTERSECT | INTERSECTALL =>
    obtain ⟨s', hrun, hs', hcount⟩ := intersecttree_spec h1 h2 _
    exact ⟨_, by rw [combine, hrun, Option.map_some], hs', hcount⟩

end Combine

/-- Every row of the tree has a number that is an `int`. -/
structure ResultTree (rows : Heap w) (t : AvlTree Addr) : Prop where
  stored : Stored rows t
  number : ∀ a ∈ t.root.toList, 1 ≤ (rows a).doublette ∧ (rows a).doublette < 2 ^ 31

theorem ResultTree.stock_bounds {rows : Heap w} {t : AvlTree Addr} (h : ResultTree rows t)
    (x : List Text) : ∀ m ∈ stock rows t x, 1 ≤ m ∧ m < 2 ^ 31 := by
  intro m hm
  obtain ⟨a, ha, rfl⟩ := Option.map_eq_some_iff.mp hm
  exact h.number a (List.mem_of_find?_eq_some ha)

/-- The result is a tree again, and has every row as often as SQL says. -/
def GivesSql (type : SetOperation) (rows : Heap w) (t1 t2 : AvlTree Addr) : Prop :=
  ∃ out, combine type rows t1 t2 = some out ∧ Stored out.1 out.2 ∧
    ∀ x, multiplicity out.1 out.2 x =
      type.sql (multiplicity rows t1 x).toNat (multiplicity rows t2 x).toNat

/-- The numbers of a row that come out right. -/
def SetOperation.Right : SetOperation → Nat → Nat → Prop
  | .UNION, m1, m2 => m1 = 1 ∨ m1 = 0 ∧ m2 ≤ 1
  | .UNIONALL, m1, m2 => m1 + m2 < 2 ^ 31
  | .EXCEPT, m1, m2 => m1 ≤ 1 ∨ 0 < m2
  | .EXCEPTALL, m1, m2 => m2 = 0 ∨ m1 ≤ m2 ∨ m1 = 2 * m2
  | .INTERSECT, _, _ | .INTERSECTALL, _, _ => True

/-- Between two numbers of rows there is no overflow. -/
theorem cInt_sub {n1 n2 : Nat} (h1 : n1 < 2 ^ 31) (h2 : n2 < 2 ^ 31) :
    cInt ((n1 : Int) - n2) = n1 - n2 := by
  rw [cInt, Int.bmod_eq_of_le (by omega) (by omega)]

/-- A row that both operands have. -/
theorem SetOperation.outcome_some_eq_sql_iff (type : SetOperation) {n1 n2 : Nat}
    (h1 : 1 ≤ n1 ∧ n1 < 2 ^ 31) (h2 : 1 ≤ n2 ∧ n2 < 2 ^ 31) :
    ((type.outcome (some (n1 : Int)) (some (n2 : Int))).getD 0 = type.sql n1 n2) ↔
      type.Right n1 n2 := by
  cases type with
  | UNION =>
    show ((n1 : Nat) : Int) = (if 0 < n1 ∨ 0 < n2 then 1 else 0 : Nat) ↔ n1 = 1 ∨ n1 = 0 ∧ n2 ≤ 1
    rw [if_pos (Or.inl (Nat.lt_of_succ_le h1.1))]
    omega
  | UNIONALL =>
    have hout : outcome .UNIONALL (some (n1 : Int)) (some (n2 : Int)) = some (cInt (n1 + n2)) := by
      simp only [outcome, Option.elim_some, unionEffect, if_true]
    rw [hout, Option.getD_some, sql, Right, ← Int.natCast_add]
    exact cInt_eq_iff (n1 + n2)
  | EXCEPT =>
    simp only [outcome, Option.elim_some, exceptEffect, reduceCtorEq, false_and, if_false,
      Option.getD_none, sql, Right]
    rw [if_neg (by omega)]
    omega
  | EXCEPTALL =>
    simp only [outcome, Option.elim_some, exceptEffect, true_and, cInt_sub h1.2 h2.2, sql, Right]
    by_cases hlt : n2 < n1
    · rw [if_pos (by omega), Option.getD_some]
      omega
    · rw [if_neg (by omega), Option.getD_none]
      omega
  | INTERSECT =>
    show (1 : Int) = (if 0 < n1 ∧ 0 < n2 then 1 else 0 : Nat) ↔ True
    rw [if_pos ⟨h1.1, h2.1⟩, iff_true]
    rfl
  | INTERSECTALL =>
    show min (n2 : Int) n1 = (min n1 n2 : Nat) ↔ True
    rw [iff_true, Int.min_comm]
    omega

/-- A row that at most one operand has. -/
theorem SetOperation.outcome_none_eq_sql_iff (type : SetOperation) {n : Nat}
    (h : 1 ≤ n ∧ n < 2 ^ 31) :
    (((type.outcome (some (n : Int)) none).getD 0 = type.sql n 0) ↔ type.Right n 0) ∧
    (((type.outcome none (some (n : Int))).getD 0 = type.sql 0 n) ↔ type.Right 0 n) ∧
    (((type.outcome none none).getD 0 = type.sql 0 0) ↔ type.Right 0 0) := by
  have hpos : 0 < n := h.1
  cases type with
  | UNION =>
    simp only [outcome, Option.elim_some, Option.elim_none, unionEffect, Option.getD_some,
      Option.getD_none, sql, Right, hpos, true_or, or_true, if_true]
    simp
    omega
  | UNIONALL =>
    simp only [outcome, Option.elim_some, Option.elim_none, unionEffect, Option.getD_some,
      Option.getD_none, sql, Right]
    omega
  | EXCEPT =>
    simp only [outcome, Option.elim_some, Option.elim_none, exceptEffect, Option.getD_some,
      Option.getD_none, sql, Right, hpos]
    simp
    omega
  | EXCEPTALL =>
    simp only [outcome, Option.elim_some, Option.elim_none, exceptEffect, Option.getD_some,
      Option.getD_none, sql, Right]
    simp
  | INTERSECT =>
    simp [outcome, intersectEffect, sql, Right]
  | INTERSECTALL =>
    simp [outcome, intersectEffect, sql, Right]

theorem SetOperation.outcome_eq_sql_iff (type : SetOperation) {m1 m2 : Option Int}
    (h1 : ∀ m ∈ m1, 1 ≤ m ∧ m < 2 ^ 31) (h2 : ∀ m ∈ m2, 1 ≤ m ∧ m < 2 ^ 31) :
    ((type.outcome m1 m2).getD 0 = type.sql (m1.getD 0).toNat (m2.getD 0).toNat) ↔
      type.Right (m1.getD 0).toNat (m2.getD 0).toNat := by
  have hnat : ∀ {m : Int}, 1 ≤ m ∧ m < 2 ^ 31 → ∃ n : Nat, (1 ≤ n ∧ n < 2 ^ 31) ∧ m = n :=
    fun {m} hm => ⟨m.toNat, by omega, by omega⟩
  cases m1 with
  | none =>
    cases m2 with
    | none => exact (type.outcome_none_eq_sql_iff (n := 1) (by decide)).2.2
    | some m2 =>
      obtain ⟨n2, hn2, rfl⟩ := hnat (h2 m2 rfl)
      exact (type.outcome_none_eq_sql_iff hn2).2.1
  | some m1 =>
    obtain ⟨n1, hn1, rfl⟩ := hnat (h1 m1 rfl)
    cases m2 with
    | none => exact (type.outcome_none_eq_sql_iff hn1).1
    | some m2 =>
      obtain ⟨n2, hn2, rfl⟩ := hnat (h2 m2 rfl)
      exact type.outcome_some_eq_sql_iff hn1 hn2

/-- The rows that are right, one by one. -/
theorem combine_row_iff (type : SetOperation) {rows : Heap w} {t1 t2 : AvlTree Addr}
    (h1 : ResultTree rows t1) (h2 : ResultTree rows t2) :
    ∃ out, combine type rows t1 t2 = some out ∧ Stored out.1 out.2 ∧ ∀ x,
      multiplicity out.1 out.2 x =
          type.sql (multiplicity rows t1 x).toNat (multiplicity rows t2 x).toNat ↔
        type.Right (multiplicity rows t1 x).toNat (multiplicity rows t2 x).toNat := by
  obtain ⟨out, hrun, hstored, hstock⟩ := combine_spec h1.stored h2.stored type
  refine ⟨out, hrun, hstored, fun x => ?_⟩
  show (stock out.1 out.2 x).getD 0 = _ ↔ _
  rw [hstock x]
  exact type.outcome_eq_sql_iff (h1.stock_bounds x) (h2.stock_bounds x)

/-- Which operands get what SQL says. -/
theorem setOperation_iff (type : SetOperation) {rows : Heap w} {t1 t2 : AvlTree Addr}
    (h1 : ResultTree rows t1) (h2 : ResultTree rows t2) :
    GivesSql type rows t1 t2 ↔ ∀ x,
      type.Right (multiplicity rows t1 x).toNat (multiplicity rows t2 x).toNat := by
  obtain ⟨out, hrun, hstored, hrow⟩ := combine_row_iff type h1 h2
  constructor
  · rintro ⟨out', hrun', -, hsql⟩ x
    obtain rfl : out = out' := Option.some.inj (hrun.symm.trans hrun')
    exact (hrow x).mp (hsql x)
  · intro hright
    exact ⟨out, hrun, hstored, fun x => (hrow x).mpr (hright x)⟩

/-! ### One row -/

/-- A tree with one row. -/
def single (a : Addr) : AvlTree Addr := ⟨.node .nil a .nil 0, 1⟩

theorem resultTree_single {rows : Heap w} {a : Addr}
    (h : 1 ≤ (rows a).doublette ∧ (rows a).doublette < 2 ^ 31) : ResultTree rows (single a) := by
  have hcount : (1 : Int) = cInt (1 : Nat) := ((cInt_eq_iff 1).mpr (by omega)).symm
  refine ⟨⟨?_, ?_, List.Perm.refl _, hcount⟩, fun b hb => ?_⟩
  · simp [single, SearchTree.IsSearch, SearchTree.toList]
  · simp [single, SearchTree.Balanced, SearchTree.height]
  · obtain rfl : b = a := by simpa [single, SearchTree.toList] using hb
    exact h

/-- The same row everywhere, three times at address 1. -/
def sampleRows : Heap 1 := fun a => ⟨[⟨lit "a", zero_notMem_a⟩], if a.1 = 1 then 3 else 1, rfl⟩

theorem multiplicity_sampleRows (a : Addr) :
    multiplicity sampleRows (single a) [⟨lit "a", zero_notMem_a⟩] = if a.1 = 1 then 3 else 1 := rfl

theorem resultTree_sampleRows (a : Addr) : ResultTree sampleRows (single a) := by
  refine resultTree_single ?_
  unfold sampleRows
  split <;> simp

theorem setOperation_iff_intersect :
    GivesSql .INTERSECTALL sampleRows (single ⟨1, by decide⟩) (single ⟨2, by decide⟩) :=
  (setOperation_iff .INTERSECTALL (resultTree_sampleRows _) (resultTree_sampleRows _)).mpr
    fun _ => trivial

/-- The row stays three times in a UNION; EXCEPT ALL leaves it once and not twice. -/
theorem not_givesSql :
    ¬ GivesSql .UNION sampleRows (single ⟨1, by decide⟩) (single ⟨2, by decide⟩) ∧
    ¬ GivesSql .EXCEPTALL sampleRows (single ⟨1, by decide⟩) (single ⟨2, by decide⟩) := by
  have hwrong : ∀ type : SetOperation, ¬ type.Right 3 1 →
      ¬ GivesSql type sampleRows (single ⟨1, by decide⟩) (single ⟨2, by decide⟩) := by
    rintro type hright ⟨out', hrun', -, hsql⟩
    obtain ⟨out, hrun, -, hrow⟩ := combine_row_iff type (resultTree_sampleRows ⟨1, by decide⟩)
      (resultTree_sampleRows ⟨2, by decide⟩)
    obtain rfl : out = out' := Option.some.inj (hrun.symm.trans hrun')
    have hrow := (hrow _).mp (hsql [⟨lit "a", zero_notMem_a⟩])
    rw [multiplicity_sampleRows, multiplicity_sampleRows] at hrow
    exact hright hrow
  refine ⟨hwrong _ fun h => ?_, hwrong _ fun h => ?_⟩
  · simp [SetOperation.Right] at h
  · simp [SetOperation.Right] at h

end Sfcb.Sql
