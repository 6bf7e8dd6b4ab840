import Mathlib.Logic.Relation

/-!
# Forests by their parents

A forest is given by the parent of each node, if it has one, and a rank that a parent has less
of than its child. The nodes above a node are in one line (`Descends.linear`). A walk down from
a node that goes on only below good nodes comes to those nodes of the tree that have good nodes
only between (`through_iff`).
-/

namespace Sfcb.Lib

open Relation

variable {κ : Type}

structure Forest (κ : Type) where
  parent : κ → Option κ
  rank : κ → Nat
  rank_lt : ∀ k p, parent k = some p → rank p < rank k

namespace Forest

variable {f : Forest κ} {good : κ → Prop} {a b c : κ}

/-- `b` is `a` or below it. -/
def Descends (f : Forest κ) : κ → κ → Prop := ReflTransGen fun a b => f.parent b = some a

/-- The same with good nodes on the way, the last one left out. -/
def Through (f : Forest κ) (good : κ → Prop) : κ → κ → Prop :=
  ReflTransGen fun a b => f.parent b = some a ∧ good a

theorem Descends.rank_le (h : f.Descends a b) : f.rank a ≤ f.rank b := by
  induction h with
  | refl => exact Nat.le_refl _
  | tail _ hparent ih => exact Nat.le_trans ih (Nat.le_of_lt (f.rank_lt _ _ hparent))

theorem Descends.antisymm (h : f.Descends a b) (h' : f.Descends b a) : a = b := by
  cases h with
  | refl => rfl
  | tail hc hparent =>
    have hlt := f.rank_lt _ _ hparent
    have hle := Descends.rank_le hc
    have hle' := h'.rank_le
    omega

/-- Below a node is what it is itself, or what is above its parent. -/
theorem Descends.cases_parent (h : f.Descends a b) :
    a = b ∨ ∃ p, f.parent b = some p ∧ f.Descends a p := by
  cases h with
  | refl => exact .inl rfl
  | tail hc hparent => exact .inr ⟨_, hparent, hc⟩

theorem Descends.linear (h : f.Descends a c) (h' : f.Descends b c) :
    f.Descends a b ∨ f.Descends b a := by
  induction h with
  | refl => exact .inr h'
  | tail hc hparent ih =>
    obtain rfl | ⟨p, hp, hbp⟩ := h'.cases_parent
    · exact .inl (hc.tail hparent)
    · rw [hparent] at hp
      cases hp
      exact ih hbp

theorem Through.descends (h : f.Through good a b) : f.Descends a b :=
  ReflTransGen.mono (fun _ _ hstep => hstep.1) _ _ h

/-- A walk that goes on below good nodes only comes to the nodes with good nodes above them. -/
theorem through_iff : f.Through good a b ↔
    f.Descends a b ∧ ∀ c, f.Descends a c → f.Descends c b → c ≠ b → good c := by
  constructor
  · intro h
    refine ⟨h.descends, ?_⟩
    induction h with
    | refl =>
      intro c hac hca hne
      exact absurd (hca.antisymm hac) hne
    | @tail x y hx hstep ih =>
      intro c hac hcb hne
      obtain rfl | ⟨p, hp, hcp⟩ := hcb.cases_parent
      · exact absurd rfl hne
      · rw [hstep.1] at hp
        cases hp
        by_cases hcx : c = x
        · exact hcx ▸ hstep.2
        · exact ih c hac hcp hcx
  · rintro ⟨h, hgood⟩
    induction h with
    | refl => exact .refl
    | @tail x y hx hparent ih =>
      have hxy : f.Descends x y := .single hparent
      have hne : x ≠ y := by
        rintro rfl
        exact Nat.lt_irrefl _ (f.rank_lt _ _ hparent)
      refine .tail (ih ?_) ⟨hparent, hgood x hx hxy hne⟩
      intro c hac hcx hcne
      refine hgood c hac (hcx.trans hxy) ?_
      rintro rfl
      exact hcne (hcx.antisymm hxy)

end Forest

end Sfcb.Lib
