import Sfcb.Sql.FullSelect

/-!
# Chained set operations

SQL evaluates `S₀ op₁ S₁ … opₙ Sₙ` from left to right, and `addNodeStm` nests it to the
right. Whether that is a difference depends on the operations alone.

`leftToRight_iff`: it is none for one operation, for a chain of UNION ALL, and where UNION
is the first and the last operation and only UNION and UNION ALL are between them. Such a
chain has every row once, however it is nested.

The other chains are told apart by a row that is in at most two of the subselects, or twice
in all of them.
-/

namespace Sfcb.Sql

namespace SetExpr

variable (m : Nat → Nat)

@[simp] theorem count_sub (i : Nat) : (sub i).count m = m i := rfl

@[simp] theorem count_combine (op : SetOperation) (a b : SetExpr) :
    (combine op a b).count m = op.sql (a.count m) (b.count m) := rfl

end SetExpr

@[simp] theorem count_rightNested_cons (m : Nat → Nat) (i : Nat) (op : SetOperation)
    (ops : List SetOperation) : (rightNested i (op :: ops)).count m =
      op.sql (m i) ((rightNested (i + 1) ops).count m) := rfl

theorem leftNested_concat (a : SetExpr) (i : Nat) (ops : List SetOperation)
    (op : SetOperation) :
    leftNested a i (ops ++ [op]) = .combine op (leftNested a i ops) (.sub (i + ops.length)) := by
  induction ops generalizing a i with
  | nil => rfl
  | cons op' ops ih =>
    rw [List.cons_append, leftNested, ih, leftNested, List.length_cons, Nat.add_assoc,
      Nat.add_comm 1]

/-- Every subselect, once and in order. -/
theorem subs_rightNested (i : Nat) (ops : List SetOperation) :
    (rightNested i ops).subs = List.range' i (ops.length + 1) := by
  induction ops generalizing i with
  | nil => rfl
  | cons op ops ih => rw [rightNested, SetExpr.subs, ih, List.length_cons, List.range'_succ]; rfl

/-! ## Set operations of a chain -/

namespace SetOperation

/-- UNION and EXCEPT, with or without ALL. -/
def IsChained (op : SetOperation) : Prop := op ≠ .INTERSECT ∧ op ≠ .INTERSECTALL

/-- UNION, with or without ALL. -/
def IsUnion (op : SetOperation) : Prop := op = .UNION ∨ op = .UNIONALL

instance : DecidablePred IsChained := fun _ => inferInstanceAs (Decidable (_ ∧ _))

instance : DecidablePred IsUnion := fun _ => inferInstanceAs (Decidable (_ ∨ _))

/-- No operation makes up a row. -/
theorem sql_zero_zero (op : SetOperation) : op.sql 0 0 = 0 := by
  cases op <;> rfl

/-- The second operand does not add to a row that is not in it. -/
theorem sql_zero_right_le_one (op : SetOperation) {n : Nat} (hn : n ≤ 1) : op.sql n 0 ≤ 1 := by
  cases op with
  | UNION | EXCEPT =>
    show (if _ then 1 else 0) ≤ 1
    split <;> omega
  | UNIONALL | EXCEPTALL => exact hn
  | INTERSECT =>
    show (if 0 < n ∧ 0 < 0 then 1 else 0) ≤ 1
    split <;> omega
  | INTERSECTALL =>
    show min n 0 ≤ 1
    omega

theorem sql_one_zero {op : SetOperation} (hop : op.IsChained) : op.sql 1 0 = 1 := by
  cases op with
  | INTERSECT => exact absurd rfl hop.1
  | INTERSECTALL => exact absurd rfl hop.2
  | _ => rfl

/-- EXCEPT has no row that is not in the first operand. -/
theorem sql_zero_left {op : SetOperation} (hop : op.IsChained) (hunion : ¬op.IsUnion) (n : Nat) :
    op.sql 0 n = 0 := by
  cases op with
  | UNION => exact absurd (.inl rfl) hunion
  | UNIONALL => exact absurd (.inr rfl) hunion
  | EXCEPT => rfl
  | EXCEPTALL => exact Nat.zero_sub n
  | INTERSECT => exact absurd rfl hop.1
  | INTERSECTALL => exact absurd rfl hop.2

theorem sql_one_one {op : SetOperation} (hop : op.IsChained) (hunion : ¬op.IsUnion) :
    op.sql 1 1 = 0 := by
  cases op with
  | UNION => exact absurd (.inl rfl) hunion
  | UNIONALL => exact absurd (.inr rfl) hunion
  | EXCEPT | EXCEPTALL => rfl
  | INTERSECT => exact absurd rfl hop.1
  | INTERSECTALL => exact absurd rfl hop.2

theorem IsUnion.sql_pos_iff {op : SetOperation} (hop : op.IsUnion) (n k : Nat) :
    0 < op.sql n k ↔ 0 < n ∨ 0 < k := by
  rcases hop with rfl | rfl
  · show 0 < (if _ then 1 else 0) ↔ _
    split <;> omega
  · show 0 < n + k ↔ _
    omega

theorem sql_UNION_le_one (n k : Nat) : SetOperation.UNION.sql n k ≤ 1 := by
  show (if _ then 1 else 0) ≤ 1
  split <;> omega

end SetOperation

open SetOperation

/-! ## Chains that are the same either way -/

/-- A chain of UNION ALL adds up. -/
theorem count_unionAll (m : Nat → Nat) (a : SetExpr) (i : Nat) (op : SetOperation)
    (ops : List SetOperation) (hops : ∀ o ∈ op :: ops, o = .UNIONALL) :
    (leftNested a i (op :: ops)).count m = a.count m + (rightNested i ops).count m := by
  induction ops generalizing a i op with
  | nil =>
    obtain rfl := hops op List.mem_cons_self
    rfl
  | cons op' ops ih =>
    obtain rfl := hops op List.mem_cons_self
    rw [leftNested, ih _ _ _ fun o ho => hops o (List.mem_cons_of_mem _ ho)]
    obtain rfl := hops op' (List.mem_cons_of_mem _ List.mem_cons_self)
    show (a.count m + m i) + _ = a.count m + (m i + _)
    exact Nat.add_assoc _ _ _

/-- A chain of UNION and UNION ALL has the rows of all its subselects. -/
theorem count_pos_iff (m : Nat → Nat) (a : SetExpr) (i : Nat) (op : SetOperation)
    (ops : List SetOperation) (hops : ∀ o ∈ op :: ops, o.IsUnion) :
    0 < (leftNested a i (op :: ops)).count m ↔
      0 < a.count m ∨ 0 < (rightNested i ops).count m := by
  induction ops generalizing a i op with
  | nil => exact (hops op List.mem_cons_self).sql_pos_iff _ _
  | cons op' ops ih =>
    have hop' := hops op' (List.mem_cons_of_mem _ List.mem_cons_self)
    rw [leftNested, ih _ _ _ fun o ho => hops o (List.mem_cons_of_mem _ ho),
      SetExpr.count_combine, (hops op List.mem_cons_self).sql_pos_iff, SetExpr.count_sub,
      count_rightNested_cons, hop'.sql_pos_iff, or_assoc]

/-- The same, where the chain starts and ends with UNION. -/
theorem count_unions (m : Nat → Nat) (ops : List SetOperation) (hops : ∀ o ∈ ops, o.IsUnion)
    (hhead : ops.head? = some .UNION) (hlast : ops.getLast? = some .UNION) :
    (rightNested 0 ops).count m = (leftNested (.sub 0) 1 ops).count m := by
  obtain ⟨ops', rfl⟩ := List.head?_eq_some_iff.mp hhead
  have hright : (rightNested 0 (.UNION :: ops')).count m ≤ 1 := sql_UNION_le_one _ _
  have hleft : (leftNested (.sub 0) 1 (.UNION :: ops')).count m ≤ 1 := by
    obtain ⟨front, hsplit⟩ := List.getLast?_eq_some_iff.mp hlast
    rw [hsplit, leftNested_concat]
    exact sql_UNION_le_one _ _
  have hpos : 0 < (rightNested 0 (.UNION :: ops')).count m ↔
      0 < (leftNested (.sub 0) 1 (.UNION :: ops')).count m :=
    (IsUnion.sql_pos_iff (.inl rfl) _ _).trans (count_pos_iff m (.sub 0) 1 .UNION ops' hops).symm
  omega

/-! ## Rows that tell the others apart -/

/-- Where no subselect has the row, no nesting has it. -/
theorem count_rightNested_of_zero {m : Nat → Nat} {i : Nat} {ops : List SetOperation}
    (hm : ∀ j, i ≤ j → m j = 0) : (rightNested i ops).count m = 0 := by
  induction ops generalizing i with
  | nil => exact hm i (Nat.le_refl i)
  | cons op ops ih =>
    rw [count_rightNested_cons, hm i (Nat.le_refl i), ih fun j hj => hm j (by omega),
      sql_zero_zero]

/-- A row that is once in the first operand and in no other. -/
theorem count_leftNested_of_one {m : Nat → Nat} {a : SetExpr} {i : Nat}
    {ops : List SetOperation} (hops : ∀ o ∈ ops, o.IsChained) (ha : a.count m = 1)
    (hm : ∀ j, i ≤ j → j < i + ops.length → m j = 0) : (leftNested a i ops).count m = 1 := by
  induction ops generalizing a i with
  | nil => exact ha
  | cons op ops ih =>
    rw [List.length_cons] at hm
    refine ih (fun o ho => hops o (List.mem_cons_of_mem _ ho)) ?_
      fun j hj hlt => hm j (by omega) (by omega)
    rw [SetExpr.count_combine, ha, SetExpr.count_sub, hm i (by omega) (by omega),
      sql_one_zero (hops op List.mem_cons_self)]

/-- From left to right, a UNION leaves a row once. -/
theorem count_leftNested_le_one {m : Nat → Nat} {a : SetExpr} {i : Nat}
    {ops : List SetOperation} (h : a.count m ≤ 1 ∨ .UNION ∈ ops)
    (hm : ∀ j, i ≤ j → m j = 0) : (leftNested a i ops).count m ≤ 1 := by
  induction ops generalizing a i with
  | nil => exact h.resolve_right List.not_mem_nil
  | cons op ops ih =>
    refine ih ?_ fun j hj => hm j (by omega)
    rw [SetExpr.count_combine, SetExpr.count_sub, hm i (Nat.le_refl i)]
    rcases h with ha | hmem
    · exact .inl (sql_zero_right_le_one op ha)
    · rcases List.mem_cons.mp hmem with rfl | hmem
      · exact .inl (sql_UNION_le_one _ _)
      · exact .inr hmem

/-- A row that only the last subselect has, and an EXCEPT before it: nested to the right, it
is taken away from nothing. -/
theorem count_rightNested_except {m : Nat → Nat} {i : Nat} {ops : List SetOperation}
    {op : SetOperation} (hm : ∀ j, i ≤ j → j < i + ops.length → m j = 0) (hmem : op ∈ ops)
    (hop : op.IsChained) (hunion : ¬op.IsUnion) : (rightNested i ops).count m = 0 := by
  induction ops generalizing i with
  | nil => exact absurd hmem List.not_mem_nil
  | cons op' ops ih =>
    rw [List.length_cons] at hm
    rw [count_rightNested_cons, hm i (by omega) (by omega)]
    rcases List.mem_cons.mp hmem with rfl | hmem
    · exact sql_zero_left hop hunion _
    · rw [ih (fun j hj hlt => hm j (by omega) (by omega)) hmem, sql_zero_zero]

/-! ## Which chains are the same either way -/

/-- Nested to either side, every row is in the result as often. -/
def SameCounts (ops : List SetOperation) : Prop :=
  ∀ m, (rightNested 0 ops).count m = (leftNested (.sub 0) 1 ops).count m

/-- What decides about a chain. -/
def Regroups (ops : List SetOperation) : Prop :=
  ops.length ≤ 1 ∨ (∀ op ∈ ops, op = .UNIONALL) ∨
    (∀ op ∈ ops, op.IsUnion) ∧ ops.head? = some .UNION ∧ ops.getLast? = some .UNION

instance : DecidablePred Regroups := fun _ => inferInstanceAs (Decidable (_ ∨ _ ∨ _))

/-- The row of the first and the last subselect. -/
theorem SameCounts.isUnion_last {front : List SetOperation} {last : SetOperation}
    (h : SameCounts (front ++ [last])) (hops : ∀ op ∈ front ++ [last], op.IsChained)
    (hfront : front ≠ []) : last.IsUnion := by
  refine Decidable.byContradiction fun hunion => ?_
  have hchained := hops last (List.mem_append_right _ List.mem_cons_self)
  let m : Nat → Nat := fun j => if j = 0 ∨ j = 1 + front.length then 1 else 0
  have hm : ∀ j, 1 ≤ j → j < 1 + front.length → m j = 0 := fun j hj hlt => if_neg (by omega)
  have hleft : (leftNested (.sub 0) 1 (front ++ [last])).count m = 0 := by
    rw [leftNested_concat, SetExpr.count_combine,
      count_leftNested_of_one (fun o ho => hops o (List.mem_append_left _ ho)) rfl hm,
      SetExpr.count_sub, show m (1 + front.length) = 1 from if_pos (.inr rfl),
      sql_one_one hchained hunion]
  have hright : (rightNested 0 (front ++ [last])).count m = 1 := by
    obtain ⟨op, front', rfl⟩ := List.exists_cons_of_ne_nil hfront
    rw [List.cons_append, count_rightNested_cons, show m 0 = 1 from if_pos (.inl rfl),
      count_rightNested_except ?_ (List.mem_append_right _ List.mem_cons_self) hchained hunion,
      sql_one_zero (hops op List.mem_cons_self)]
    intro j hj hlt
    rw [List.length_append, List.length_singleton] at hlt
    exact hm j hj (by rw [List.length_cons]; omega)
  have heq := h m
  omega

/-- The row of the last subselect. -/
theorem SameCounts.isUnion {front : List SetOperation} {last op : SetOperation}
    (h : SameCounts (front ++ [last])) (hops : ∀ op ∈ front ++ [last], op.IsChained)
    (hlast : last.IsUnion) (hmem : op ∈ front ++ [last]) : op.IsUnion := by
  refine Decidable.byContradiction fun hunion => ?_
  let m : Nat → Nat := fun j => if j = 1 + front.length then 1 else 0
  have hm : ∀ j, j < 1 + front.length → m j = 0 := fun j hlt => if_neg (by omega)
  have hright : (rightNested 0 (front ++ [last])).count m = 0 := by
    refine count_rightNested_except (fun j _ hlt => hm j ?_) hmem (hops op hmem) hunion
    rw [List.length_append, List.length_singleton] at hlt
    omega
  have hleft : 0 < (leftNested (.sub 0) 1 (front ++ [last])).count m := by
    rw [leftNested_concat, SetExpr.count_combine, hlast.sql_pos_iff]
    refine .inr ?_
    rw [SetExpr.count_sub, show m (1 + front.length) = 1 from if_pos rfl]
    exact Nat.one_pos
  have heq := h m
  omega

/-- A row that the first subselect has twice. -/
theorem SameCounts.unionAll {ops : List SetOperation} (h : SameCounts (.UNIONALL :: ops)) :
    .UNION ∉ ops := by
  intro hmem
  let m : Nat → Nat := fun j => if j = 0 then 2 else 0
  have hm : ∀ j, 1 ≤ j → m j = 0 := fun j hj => if_neg (by omega)
  have hright : (rightNested 0 (.UNIONALL :: ops)).count m = 2 := by
    rw [count_rightNested_cons, count_rightNested_of_zero hm]
    rfl
  have hleft : (leftNested (.sub 0) 1 (.UNIONALL :: ops)).count m ≤ 1 :=
    count_leftNested_le_one (.inr (List.mem_cons_of_mem _ hmem)) hm
  have heq := h m
  omega

/-- A row that every subselect has twice. -/
theorem SameCounts.last_ne {ops front : List SetOperation} {last : SetOperation}
    (h : SameCounts ops) (hhead : ops.head? = some .UNION) (hlast : ops = front ++ [last]) :
    last ≠ .UNIONALL := by
  rintro rfl
  obtain ⟨ops', hops'⟩ := List.head?_eq_some_iff.mp hhead
  have hright : (rightNested 0 ops).count (fun _ => 2) ≤ 1 := by
    rw [hops']
    exact sql_UNION_le_one _ _
  have hleft : 2 ≤ (leftNested (.sub 0) 1 ops).count fun _ => 2 := by
    rw [hlast, leftNested_concat]
    exact Nat.le_add_left _ _
  have heq := h fun _ => 2
  omega

theorem regroups_of_sameCounts {ops : List SetOperation} (hops : ∀ op ∈ ops, op.IsChained)
    (h : SameCounts ops) : Regroups ops := by
  rcases List.eq_nil_or_concat ops with rfl | ⟨front, last, hsplit⟩
  · exact .inl (Nat.zero_le _)
  rw [List.concat_eq_append] at hsplit
  by_cases hfront : front = []
  · subst hfront
    exact .inl (by rw [hsplit]; exact Nat.le_refl _)
  have hunion : ∀ op ∈ ops, op.IsUnion := by
    subst hsplit
    have hlast := h.isUnion_last hops hfront
    exact fun op hmem => h.isUnion hops hlast hmem
  cases ops with
  | nil => exact .inl (Nat.zero_le _)
  | cons op ops =>
    rcases hunion op List.mem_cons_self with rfl | rfl
    · have hlast : last.IsUnion := hunion last (by rw [hsplit]; simp)
      have hne := h.last_ne rfl hsplit
      refine .inr (.inr ⟨hunion, rfl, ?_⟩)
      rw [hsplit, List.getLast?_concat, hlast.resolve_right hne]
    · refine .inr (.inl fun o ho => ?_)
      rcases List.mem_cons.mp ho with rfl | ho
      · rfl
      · refine (hunion o (List.mem_cons_of_mem _ ho)).resolve_left ?_
        rintro rfl
        exact h.unionAll ho

theorem sameCounts_of_regroups {ops : List SetOperation} (h : Regroups ops) :
    SameCounts ops := by
  intro m
  rcases h with hlen | hall | ⟨hunion, hhead, hlast⟩
  · match ops, hlen with
    | [], _ => rfl
    | [op], _ => rfl
  · cases ops with
    | nil => rfl
    | cons op ops =>
      rw [count_unionAll m _ _ op ops hall]
      obtain rfl := hall op List.mem_cons_self
      rfl
  · exact count_unions m ops hunion hhead hlast

/-! ## The tree of a chain -/

/-- The tree that is built for a chain is what SQL evaluates, and has every subselect once. -/
def LeftToRight (cols : List Nat) (ops : List SetOperation) : Prop :=
  ∃ stm root e, parse cols ops = some stm ∧ stm.stmt = some root ∧
    denote stm.heap stm.heap.length (.ful root) = some e ∧
    e.subs = List.range (ops.length + 1) ∧
    ∀ m, e.count m = (leftNested (.sub 0) 1 ops).count m

/-- The tree of a chain is evaluated as SQL has it exactly where grouping the chain from the right
gives the same rows. -/
theorem leftToRight_iff (cols : List Nat) (ops : List SetOperation)
    (hops : ∀ op ∈ ops, op.IsChained) : LeftToRight cols ops ↔ Regroups ops := by
  obtain ⟨stm, hparse, hroot, hdenote⟩ := parse_denotes cols ops fun op hmem => (hops op hmem).2
  constructor
  · rintro ⟨stm', root, e, hparse', hroot', hdenote', -, hcount⟩
    obtain rfl : stm = stm' := Option.some.inj (hparse.symm.trans hparse')
    obtain rfl : 0 = root := Option.some.inj (hroot.symm.trans hroot')
    obtain rfl : rightNested 0 ops = e := Option.some.inj (hdenote.symm.trans hdenote')
    exact regroups_of_sameCounts hops hcount
  · intro h
    refine ⟨stm, 0, rightNested 0 ops, hparse, hroot, hdenote, ?_, sameCounts_of_regroups h⟩
    rw [subs_rightNested, List.range_eq_range']

/-- UNION, UNION ALL, UNION. -/
theorem leftToRight_unions : LeftToRight [1, 2] [.UNION, .UNIONALL, .UNION] :=
  (leftToRight_iff [1, 2] [.UNION, .UNIONALL, .UNION] (by decide)).mpr (by decide)

/-- `S₀ EXCEPT S₁ EXCEPT S₂` becomes `S₀ EXCEPT (S₁ EXCEPT S₂)`: a row of all three is in it. -/
theorem not_leftToRight : ¬LeftToRight [1] [.EXCEPT, .EXCEPT] := by
  rintro ⟨stm, root, e, hparse, hroot, hdenote, -, hcount⟩
  have heq := hcount fun _ => 1
  obtain rfl := Option.some.inj hparse
  obtain rfl := Option.some.inj hroot
  obtain rfl := Option.some.inj hdenote
  exact absurd heq (by decide)

end Sfcb.Sql
