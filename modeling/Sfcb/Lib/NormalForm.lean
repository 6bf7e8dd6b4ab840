/-!
# Disjunctive and conjunctive forms as lists of lists

A disjunctive form is a list of conjunctions, a conjunctive form a list of
clauses, both over arbitrary atoms `α` with a valuation `v : α → Bool`. Two
operations build every such form: appending two lists and concatenating their
members pairwise (`cross`). The four lemmas say what each does to the value; the
pairwise ones are the two distributive laws.

`fill` is the write loop such forms are built with when the result array was
allocated in advance: `k` writes at the positions `0, 1, …`.
-/

namespace Sfcb.Lib

variable {α β : Type}

/-- Some member has all its atoms true. -/
def holdsDisj (v : α → Bool) (ds : List (List α)) : Bool := ds.any fun c => c.all v

/-- Every member has some atom true. -/
def holdsConj (v : α → Bool) (cs : List (List α)) : Bool := cs.all fun d => d.any v

/-- All concatenations of a member of `xs` with a member of `ys`, the members of
`xs` varying slowest. -/
def cross (xs ys : List (List α)) : List (List α) := xs.flatMap fun x => ys.map (x ++ ·)

theorem holdsDisj_append (v : α → Bool) (xs ys : List (List α)) :
    holdsDisj v (xs ++ ys) = (holdsDisj v xs || holdsDisj v ys) := by
  simp [holdsDisj]

theorem holdsConj_append (v : α → Bool) (xs ys : List (List α)) :
    holdsConj v (xs ++ ys) = (holdsConj v xs && holdsConj v ys) := by
  simp [holdsConj]

/-- Conjunction distributes over the disjunctive form. -/
theorem holdsDisj_cross (v : α → Bool) (xs ys : List (List α)) :
    holdsDisj v (cross xs ys) = (holdsDisj v xs && holdsDisj v ys) := by
  have hrow : ∀ x : List α,
      (ys.map (x ++ ·)).any (fun c => c.all v) = (x.all v && holdsDisj v ys) := by
    intro x
    induction ys with
    | nil => simp [holdsDisj]
    | cons y ys ih =>
      simp only [List.map_cons, List.any_cons, ih, List.all_append, holdsDisj]
      cases x.all v <;> rfl
  induction xs with
  | nil => simp [holdsDisj, cross]
  | cons x xs ih =>
    have ih' : (cross xs ys).any (fun c => c.all v) = (holdsDisj v xs && holdsDisj v ys) := ih
    show (ys.map (x ++ ·) ++ cross xs ys).any (fun c => c.all v) = _
    rw [List.any_append, hrow x, ih']
    show _ = ((x.all v || holdsDisj v xs) && holdsDisj v ys)
    cases x.all v <;> cases holdsDisj v xs <;> cases holdsDisj v ys <;> rfl

/-- Disjunction distributes over the conjunctive form. -/
theorem holdsConj_cross (v : α → Bool) (xs ys : List (List α)) :
    holdsConj v (cross xs ys) = (holdsConj v xs || holdsConj v ys) := by
  have hrow : ∀ x : List α,
      (ys.map (x ++ ·)).all (fun d => d.any v) = (x.any v || holdsConj v ys) := by
    intro x
    induction ys with
    | nil => simp [holdsConj]
    | cons y ys ih =>
      simp only [List.map_cons, List.all_cons, ih, List.any_append, holdsConj]
      cases x.any v <;> rfl
  induction xs with
  | nil => simp [holdsConj, cross]
  | cons x xs ih =>
    have ih' : (cross xs ys).all (fun d => d.any v) = (holdsConj v xs || holdsConj v ys) := ih
    show (ys.map (x ++ ·) ++ cross xs ys).all (fun d => d.any v) = _
    rw [List.all_append, hrow x, ih']
    show _ = ((x.any v && holdsConj v xs) || holdsConj v ys)
    cases x.any v <;> cases holdsConj v xs <;> cases holdsConj v ys <;> rfl

/-- The atoms of a concatenation are atoms of the two members. -/
theorem mem_of_mem_cross {xs ys : List (List α)} {c : List α} {a : α} (hc : c ∈ cross xs ys)
    (ha : a ∈ c) : (∃ x ∈ xs, a ∈ x) ∨ ∃ y ∈ ys, a ∈ y := by
  obtain ⟨x, hx, hc⟩ := List.mem_flatMap.mp hc
  obtain ⟨y, hy, rfl⟩ := List.mem_map.mp hc
  exact (List.mem_append.mp ha).imp (⟨x, hx, ·⟩) (⟨y, hy, ·⟩)

/-- One write of the fill loop: store at the running index and advance it. -/
def fillStep (st : List β × Nat) (x : β) : List β × Nat := (st.1.set st.2 x, st.2 + 1)

/-- Writing a list of values at consecutive positions replaces just that
stretch of the array. -/
theorem foldl_fillStep (vs : List β) :
    ∀ (done todo : List β), vs.length ≤ todo.length →
      vs.foldl fillStep (done ++ todo, done.length)
        = (done ++ vs ++ todo.drop vs.length, done.length + vs.length) := by
  induction vs with
  | nil => intro done todo _; simp
  | cons x vs ih =>
    intro done todo hlen
    cases todo with
    | nil => simp at hlen
    | cons t todo =>
      have hset : (done ++ t :: todo).set done.length x = (done ++ [x]) ++ todo := by
        rw [List.set_append_right _ _ (Nat.le_refl _)]
        simp
      have hih := ih (done ++ [x]) todo (by simpa using hlen)
      rw [List.foldl_cons]
      show vs.foldl fillStep ((done ++ t :: todo).set done.length x, done.length + 1) = _
      rw [hset]
      rw [List.length_append, List.length_singleton] at hih
      rw [hih]
      simp only [List.append_assoc, List.cons_append, List.nil_append, List.length_cons,
        List.drop_succ_cons, Prod.mk.injEq, true_and]
      omega

/-- Filling an array of exactly the right length yields the values. -/
theorem foldl_fillStep_replicate (vs : List β) (x : β) (n : Nat) (hn : n = vs.length) :
    (vs.foldl fillStep (List.replicate n x, 0)).1 = vs := by
  have h := foldl_fillStep vs [] (List.replicate n x) (by simp [hn])
  simp only [List.nil_append, List.length_nil] at h
  rw [h]
  simp [hn]

theorem length_cross (xs ys : List (List α)) : (cross xs ys).length = xs.length * ys.length := by
  induction xs with
  | nil => simp [cross]
  | cons x xs ih =>
    show (ys.map (x ++ ·) ++ cross xs ys).length = _
    rw [List.length_append, List.length_map, ih, List.length_cons, Nat.succ_mul]
    omega

end Sfcb.Lib
