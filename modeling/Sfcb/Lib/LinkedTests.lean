import Sfcb.Lib.NormalForm

/-!
# Tests linked by AND and OR

A chain of tests `t₀ l₁ t₁ … lₙ tₙ` without parentheses. `tightAnd` is its value when AND
binds tighter than OR, `leftToRight` when all links bind alike. They agree where no AND
stands behind an OR (`leftToRight_eq_tightAnd`).
-/

namespace Sfcb.Lib

inductive Link where
  | and | or
  deriving Repr, DecidableEq

def Link.other : Link → Link
  | .and => .or
  | .or => .and

def Link.join : Link → Bool → Bool → Bool
  | .and, a, b => a && b
  | .or, a, b => a || b

/-- The groups that AND holds together: the chain cut at every OR. -/
def groups (cur : List Bool) : List (Link × Bool) → List (List Bool)
  | [] => [cur]
  | (.and, t) :: rest => groups (cur ++ [t]) rest
  | (.or, t) :: rest => cur :: groups [t] rest

def tightAnd (first : Bool) (rest : List (Link × Bool)) : Bool :=
  holdsDisj id (groups [first] rest)

def leftToRight (first : Bool) (rest : List (Link × Bool)) : Bool :=
  rest.foldl (fun res e => e.1.join res e.2) first

/-- One more test: whether a group that is complete holds, and whether the last one does. -/
def advance (s : Bool × Bool) (e : Link × Bool) : Bool × Bool :=
  match e.1 with
  | .and => (s.1, s.2 && e.2)
  | .or => (s.1 || s.2, e.2)

theorem holdsDisj_groups (done : Bool) (cur : List Bool) (rest : List (Link × Bool)) :
    (done || holdsDisj id (groups cur rest)) =
      ((rest.foldl advance (done, cur.all id)).1 || (rest.foldl advance (done, cur.all id)).2) := by
  induction rest generalizing done cur with
  | nil => simp [groups, holdsDisj]
  | cons e rest ih =>
    obtain ⟨l, t⟩ := e
    cases l with
    | and =>
      rw [groups, ih, List.foldl_cons, advance]
      simp
    | or =>
      have ih := ih (done || cur.all id) [t]
      rw [List.foldl_cons, groups]
      simpa [holdsDisj, advance, Bool.or_assoc] using ih

theorem tightAnd_eq (first : Bool) (rest : List (Link × Bool)) :
    tightAnd first rest =
      ((rest.foldl advance (false, first)).1 || (rest.foldl advance (false, first)).2) := by
  have h := holdsDisj_groups false [first] rest
  simpa [tightAnd] using h

/-- No AND stands behind an OR. -/
def AndsFirst (links : List Link) : Prop := links.Pairwise fun a b => b = .and → a = .and

instance (links : List Link) : Decidable (AndsFirst links) :=
  inferInstanceAs (Decidable (links.Pairwise _))

theorem leftToRight_eq_of_andsFirst {done cur : Bool} {rest : List (Link × Bool)}
    (h : AndsFirst (rest.map Prod.fst)) (hdone : done = true → ∀ e ∈ rest, e.1 = .or) :
    leftToRight (done || cur) rest =
      ((rest.foldl advance (done, cur)).1 || (rest.foldl advance (done, cur)).2) := by
  induction rest generalizing done cur with
  | nil => rfl
  | cons e rest ih =>
    obtain ⟨l, t⟩ := e
    obtain ⟨hfirst, hrest⟩ := List.pairwise_cons.mp h
    cases l with
    | and =>
      have hnone : done = false := by
        cases done with
        | false => rfl
        | true => exact absurd (hdone rfl _ List.mem_cons_self) (by simp)
      have ih := @ih false (cur && t) hrest (fun hf => absurd hf (by simp))
      rw [hnone]
      simpa [leftToRight, advance, Link.join] using ih
    | or =>
      -- only OR is left
      have hor : ∀ e ∈ rest, e.1 = .or := by
        intro e he
        cases hl : e.1 with
        | or => rfl
        | and => exact absurd (hfirst e.1 (List.mem_map_of_mem he) hl) (by simp)
      have ih := @ih (done || cur) t hrest (fun _ => hor)
      simpa [leftToRight, advance, Link.join] using ih

theorem leftToRight_eq_tightAnd {first : Bool} {rest : List (Link × Bool)}
    (h : AndsFirst (rest.map Prod.fst)) : leftToRight first rest = tightAnd first rest := by
  rw [tightAnd_eq, ← leftToRight_eq_of_andsFirst h (fun hf => absurd hf (by simp))]
  rfl

/-! ## One more test at the end -/

section Concat

variable (first : Bool) (rest : List (Link × Bool)) (e : Link × Bool)

theorem leftToRight_concat :
    leftToRight first (rest ++ [e]) = e.1.join (leftToRight first rest) e.2 := by
  simp [leftToRight]

theorem tightAnd_concat : tightAnd first (rest ++ [e]) =
    ((advance (rest.foldl advance (false, first)) e).1 ||
      (advance (rest.foldl advance (false, first)) e).2) := by
  rw [tightAnd_eq, List.foldl_append]
  rfl

end Concat

/-- Where nothing holds, nothing comes of it. -/
theorem foldl_advance_false {rest : List (Link × Bool)} (h : ∀ e ∈ rest, e.2 = false) :
    rest.foldl advance (false, false) = (false, false) := by
  induction rest with
  | nil => rfl
  | cons e rest ih =>
    obtain ⟨he, hrest⟩ := List.forall_mem_cons.mp h
    obtain ⟨l, t⟩ := e
    obtain rfl : t = false := he
    cases l <;> exact ih hrest

theorem leftToRight_false {rest : List (Link × Bool)} (h : ∀ e ∈ rest, e.2 = false) :
    leftToRight false rest = false := by
  induction rest with
  | nil => rfl
  | cons e rest ih =>
    obtain ⟨he, hrest⟩ := List.forall_mem_cons.mp h
    obtain ⟨l, t⟩ := e
    obtain rfl : t = false := he
    cases l <;> exact ih hrest

/-- Where everything holds, the last group does, and one before it if there is an OR. -/
theorem foldl_advance_true {rest : List (Link × Bool)} (h : ∀ e ∈ rest, e.2 = true) (done : Bool) :
    rest.foldl advance (done, true) = (done || rest.any fun e => e.1 = .or, true) := by
  induction rest generalizing done with
  | nil => simp
  | cons e rest ih =>
    obtain ⟨he, hrest⟩ := List.forall_mem_cons.mp h
    obtain ⟨l, t⟩ := e
    obtain rfl : t = true := he
    cases l with
    | and => simpa [advance] using ih hrest done
    | or => simpa [advance] using ih hrest true

end Sfcb.Lib
