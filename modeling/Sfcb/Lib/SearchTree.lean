import Mathlib.Algebra.Group.Nat.Defs
import Mathlib.Data.List.Basic
import Mathlib.Data.List.Pairwise

/-!
# Trees with a stored balance, and the way to a place in them

A node stores its balance, the height of its right subtree less that of its left one.
`Balanced` says that what is stored is right and that the heights differ by one at most;
such a tree of `n` items is at most `2 * log₂ (n + 1) + 1` high (`Balanced.pow_le_size`).

An algorithm that goes down a tree and comes back up keeps the way as a list of steps, the
last one first: each has the node that was passed, the side that was taken and the subtree
on the other side. `plug` puts a subtree at the end of the way. What a tree means is the
list of its items in order (`toList`); whether a subtree can be exchanged at the end of the
way without disturbing the balances depends only on its height (`Fits`).
-/

namespace Sfcb.Lib

inductive SearchTree (α : Type) where
  | nil
  | node (left : SearchTree α) (item : α) (right : SearchTree α) (balance : Int)
  deriving Repr, DecidableEq

/-- The side taken at a node. -/
inductive Side where
  | left
  | right
  deriving Repr, DecidableEq

/-- What the balance of a node changes by when the subtree on this side grows. -/
def Side.sign : Side → Int
  | .left => -1
  | .right => 1

def Side.opposite : Side → Side
  | .left => .right
  | .right => .left

theorem Side.eq_opposite {d e : Side} (h : d ≠ e) : e = d.opposite := by
  cases d <;> cases e <;> first | rfl | exact absurd rfl h

@[simp] theorem Side.sign_opposite (d : Side) : d.opposite.sign = -d.sign := by
  cases d <;> rfl

theorem Side.sign_cases (d : Side) : d.sign = 1 ∨ d.sign = -1 := by
  cases d
  · exact Or.inr rfl
  · exact Or.inl rfl

namespace SearchTree

variable {α : Type} {t u : SearchTree α}

def height : SearchTree α → Nat
  | nil => 0
  | node l _ r _ => max l.height r.height + 1

def toList : SearchTree α → List α
  | nil => []
  | node l x r _ => l.toList ++ x :: r.toList

/-- The stored balances are right and small. -/
def Balanced : SearchTree α → Prop
  | nil => True
  | node l _ r b => l.Balanced ∧ r.Balanced ∧ b = (r.height : Int) - l.height ∧ -1 ≤ b ∧ b ≤ 1

/-- Everything on the left of a node is in front of it, everything on the right behind. -/
def IsSearch (lt : α → α → Prop) : SearchTree α → Prop
  | nil => True
  | node l x r _ =>
    l.IsSearch lt ∧ r.IsSearch lt ∧ (∀ y ∈ l.toList, lt y x) ∧ ∀ y ∈ r.toList, lt x y

/-- For a transitive order a search tree is one whose items are in order. -/
theorem isSearch_iff {lt : α → α → Prop} (htrans : ∀ a b c, lt a b → lt b c → lt a c)
    (t : SearchTree α) : t.IsSearch lt ↔ t.toList.Pairwise lt := by
  induction t with
  | nil => simp [IsSearch, toList]
  | node l x r b ihl ihr =>
    rw [IsSearch, ihl, ihr, toList, List.pairwise_append, List.pairwise_cons]
    constructor
    · rintro ⟨hl, hr, hlx, hxr⟩
      refine ⟨hl, ⟨hxr, hr⟩, fun y hy z hz => ?_⟩
      rcases List.mem_cons.mp hz with rfl | hz
      · exact hlx y hy
      · exact htrans y x z (hlx y hy) (hxr z hz)
    · rintro ⟨hl, ⟨hxr, hr⟩, hall⟩
      exact ⟨hl, hr, fun y hy => hall y hy x List.mem_cons_self, hxr⟩

/-- A balanced tree is not much higher than it has to be. -/
theorem Balanced.pow_le_size {t : SearchTree α} (h : t.Balanced) :
    2 ^ (t.height / 2) ≤ t.toList.length + 1 := by
  induction t with
  | nil => simp [height, toList]
  | node l x r b ihl ihr =>
    obtain ⟨hl, hr, hb, hlow, hhigh⟩ := h
    have hl' := ihl hl
    have hr' := ihr hr
    have hhalf : (max l.height r.height + 1) / 2 ≤ min l.height r.height / 2 + 1 := by omega
    have hmin : 2 ^ (min l.height r.height / 2) ≤ 2 ^ (l.height / 2) ∧
        2 ^ (min l.height r.height / 2) ≤ 2 ^ (r.height / 2) :=
      ⟨Nat.pow_le_pow_right (by omega) (by omega), Nat.pow_le_pow_right (by omega) (by omega)⟩
    have hpow : 2 ^ ((max l.height r.height + 1) / 2) ≤ 2 * 2 ^ (min l.height r.height / 2) := by
      rw [← Nat.pow_succ']
      exact Nat.pow_le_pow_right (by omega) hhalf
    simp only [height, toList, List.length_append, List.length_cons]
    omega

end SearchTree

/-! ## The way to a subtree -/

/-- A node that was passed, with the subtree on the other side. -/
structure Step (α : Type) where
  item : α
  balance : Int
  side : Side
  other : SearchTree α
  deriving Repr, DecidableEq

section Way

variable {α : Type} {t u : SearchTree α} {path : List (Step α)} {s : Step α}

/-- The node with another balance and another subtree on the side that was taken. -/
def Step.fill (s : Step α) (balance : Int) (t : SearchTree α) : SearchTree α :=
  match s.side with
  | .left => .node t s.item s.other balance
  | .right => .node s.other s.item t balance

/-- The whole tree, with a subtree at the end of the way. -/
def plug : List (Step α) → SearchTree α → SearchTree α
  | [], t => t
  | s :: path, t => plug path (s.fill s.balance t)

/-- The items in front of what is at the end of the way. -/
def before : List (Step α) → List α
  | [] => []
  | s :: path => before path ++ match s.side with
    | .left => []
    | .right => s.other.toList ++ [s.item]

/-- The items behind it. -/
def after : List (Step α) → List α
  | [] => []
  | s :: path => (match s.side with
    | .left => s.item :: s.other.toList
    | .right => []) ++ after path

theorem toList_plug (path : List (Step α)) (t : SearchTree α) :
    (plug path t).toList = before path ++ t.toList ++ after path := by
  induction path generalizing t with
  | nil => simp [plug, before, after]
  | cons s path ih =>
    rw [plug, ih]
    cases hside : s.side <;> simp [Step.fill, before, after, hside, SearchTree.toList]

theorem toList_plug_congr (path : List (Step α)) (h : t.toList = u.toList) :
    (plug path t).toList = (plug path u).toList := by
  rw [toList_plug, toList_plug, h]

theorem height_fill (s : Step α) (b : Int) (t : SearchTree α) :
    (s.fill b t).height = max t.height s.other.height + 1 := by
  cases hside : s.side with
  | left => simp [Step.fill, hside, SearchTree.height]
  | right => simp [Step.fill, hside, SearchTree.height, Nat.max_comm]

theorem fill_eq_node (s : Step α) (b : Int) (t : SearchTree α) :
    ∃ l x r, s.fill b t = .node l x r b := by
  cases hside : s.side with
  | left => exact ⟨t, s.item, s.other, by simp [Step.fill, hside]⟩
  | right => exact ⟨s.other, s.item, t, by simp [Step.fill, hside]⟩

theorem toList_fill_congr (s : Step α) (b b' : Int) (h : t.toList = u.toList) :
    (s.fill b t).toList = (s.fill b' u).toList := by
  cases hside : s.side <;> simp [Step.fill, hside, SearchTree.toList, h]

/-- The way is no longer than the tree is high. -/
theorem length_add_height_le (path : List (Step α)) (t : SearchTree α) :
    path.length + t.height ≤ (plug path t).height := by
  induction path generalizing t with
  | nil => simp [plug]
  | cons s path ih =>
    have := ih (s.fill s.balance t)
    rw [height_fill] at this
    rw [plug, List.length_cons]
    omega

/-- The balances on the way are right for a subtree of height `h` at its end. -/
def Fits : List (Step α) → Nat → Prop
  | [], _ => True
  | s :: path, h =>
    s.other.Balanced ∧ s.balance = s.side.sign * ((h : Int) - s.other.height) ∧
      -1 ≤ s.balance ∧ s.balance ≤ 1 ∧ Fits path (max h s.other.height + 1)

theorem balanced_fill_iff (s : Step α) (b : Int) (t : SearchTree α) :
    (s.fill b t).Balanced ↔ t.Balanced ∧ s.other.Balanced ∧
      b = s.side.sign * ((t.height : Int) - s.other.height) ∧ -1 ≤ b ∧ b ≤ 1 := by
  cases hside : s.side with
  | left =>
    have hsign : Side.left.sign * ((t.height : Int) - s.other.height) =
        (s.other.height : Int) - t.height := by
      simp only [Side.sign]
      omega
    simp only [Step.fill, hside, SearchTree.Balanced, hsign]
  | right =>
    have hsign : Side.right.sign * ((t.height : Int) - s.other.height) =
        (t.height : Int) - s.other.height := by
      simp only [Side.sign]
      omega
    simp only [Step.fill, hside, SearchTree.Balanced, hsign]
    exact and_left_comm

theorem balanced_plug_iff (path : List (Step α)) (t : SearchTree α) :
    (plug path t).Balanced ↔ t.Balanced ∧ Fits path t.height := by
  induction path generalizing t with
  | nil => simp [plug, Fits]
  | cons s path ih =>
    rw [plug, ih, balanced_fill_iff, height_fill, Fits]
    constructor
    · intro ⟨⟨ht, hother, hb, hlow, hhigh⟩, hpath⟩
      exact ⟨ht, hother, hb, hlow, hhigh, hpath⟩
    · intro ⟨ht, hother, hb, hlow, hhigh, hpath⟩
      exact ⟨⟨ht, hother, hb, hlow, hhigh⟩, hpath⟩

/-- A step stands at one of three heights. -/
theorem Fits.cases {h : Nat} (hfits : Fits (s :: path) h) :
    (s.balance = 0 ∧ h = s.other.height) ∨
      (s.balance = s.side.sign ∧ h = s.other.height + 1) ∨
      (s.balance = -s.side.sign ∧ h + 1 = s.other.height) := by
  obtain ⟨-, hb, hlow, hhigh, -⟩ := hfits
  rcases s.side.sign_cases with hs | hs <;> rw [hs] at hb ⊢ <;> omega

theorem balanced_fill {b : Int} (ht : t.Balanced) (hother : s.other.Balanced)
    (h : (b = 0 ∧ t.height = s.other.height) ∨ (b = s.side.sign ∧ t.height = s.other.height + 1) ∨
      (b = -s.side.sign ∧ t.height + 1 = s.other.height)) : (s.fill b t).Balanced := by
  refine (balanced_fill_iff s b t).mpr ⟨ht, hother, ?_⟩
  rcases s.side.sign_cases with hs | hs <;> rw [hs] at h ⊢ <;> omega

end Way

end Sfcb.Lib
