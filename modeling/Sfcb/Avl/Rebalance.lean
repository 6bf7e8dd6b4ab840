import Sfcb.Avl.AvlTree

/-!
# Going back up

Both loops that go back up are about a way that was right for a subtree of another height
than the one now at its end. `insertLoop_spec` and `deleteLoop_spec` say that they end with
a balanced tree that has the same items in the same order. What a rotation does is said
once for both sides (`rotateSingle_spec`, `rotateDouble_spec`).
-/

namespace Sfcb.Avl

open Sfcb.Lib

variable {α : Type} {t u light : SearchTree α} {heavy : Side} {p : α}

/-- A node as seen from its other subtree. -/
theorem fill_opposite (s : Step α) (b b' : Int) (t : SearchTree α) :
    s.fill b t = (Step.mk s.item b' s.side.opposite t).fill b s.other := by
  cases hside : s.side <;> simp [Step.fill, hside, Side.opposite]

/-! ## Rotations -/

/-- The outer subtree of `q` is the higher one, or both are as high. -/
theorem rotateSingle_spec {ql qr : SearchTree α} {q : α} {b pBalance qBalance : Int} (b' : Int)
    (hlight : light.Balanced) (ht : (SearchTree.node ql q qr b).Balanced)
    (hheight : (SearchTree.node ql q qr b).height = light.height + 2)
    (hb : (b = heavy.sign ∧ pBalance = 0 ∧ qBalance = 0) ∨
      (b = 0 ∧ pBalance = heavy.sign ∧ qBalance = -heavy.sign)) :
    ∃ u, rotateSingle heavy light p pBalance qBalance (.node ql q qr b) = some u ∧
      u.Balanced ∧ (u.height : Int) = light.height + 3 - b * heavy.sign ∧
      u.toList = ((Step.mk p b' heavy light).fill b' (.node ql q qr b)).toList := by
  obtain ⟨hql, hqr, hbal, -, -⟩ := ht
  simp only [SearchTree.height] at hheight
  cases heavy with
  | right =>
    refine ⟨_, rfl, ⟨⟨hlight, hql, ?_, ?_, ?_⟩, hqr, ?_, ?_, ?_⟩, ?_,
      by simp [Step.fill, SearchTree.toList]⟩
    all_goals
      simp only [Side.sign, SearchTree.height] at *
      omega
  | left =>
    refine ⟨_, rfl, ⟨hql, ⟨hqr, hlight, ?_, ?_, ?_⟩, ?_, ?_, ?_⟩, ?_,
      by simp [Step.fill, SearchTree.toList]⟩
    all_goals
      simp only [Side.sign, SearchTree.height] at *
      omega

/-- The inner subtree of `q` is the higher one. -/
theorem rotateDouble_spec {ql qr : SearchTree α} {q : α} {b : Int} (b' : Int)
    (hlight : light.Balanced) (ht : (SearchTree.node ql q qr b).Balanced)
    (hheight : (SearchTree.node ql q qr b).height = light.height + 2) (hb : b = -heavy.sign) :
    ∃ u, rotateDouble heavy light p (.node ql q qr b) = some u ∧ u.Balanced ∧
      u.height = light.height + 2 ∧
      u.toList = ((Step.mk p b' heavy light).fill b' (.node ql q qr b)).toList := by
  obtain ⟨hql, hqr, hbal, -, -⟩ := ht
  simp only [SearchTree.height] at hheight
  cases heavy with
  | right =>
    cases ql with
    | nil =>
      simp only [Side.sign, SearchTree.height] at *
      omega
    | node rl r rr c =>
      obtain ⟨hrl, hrr, hc, hlow, hhigh⟩ := hql
      refine ⟨_, rfl, ⟨⟨hlight, hrl, ?_, ?_, ?_⟩, ⟨hrr, hqr, ?_, ?_, ?_⟩, ?_, ?_, ?_⟩, ?_,
        by simp [Step.fill, SearchTree.toList]⟩
      -- the balances of the two lower nodes depend on that of `r`
      all_goals
        simp only [Side.sign, SearchTree.height] at *
        omega
  | left =>
    cases qr with
    | nil =>
      simp only [Side.sign, SearchTree.height] at *
      omega
    | node rl r rr c =>
      obtain ⟨hrl, hrr, hc, hlow, hhigh⟩ := hqr
      refine ⟨_, rfl, ⟨⟨hql, hrl, ?_, ?_, ?_⟩, ⟨hrr, hlight, ?_, ?_, ?_⟩, ?_, ?_, ?_⟩, ?_,
        by simp [Step.fill, SearchTree.toList]⟩
      -- the balances of the two lower nodes depend on that of `r`
      all_goals
        simp only [Side.sign, SearchTree.height] at *
        omega

/-! ## After an insertion -/

variable {path : List (Step α)} {h : Nat} {below : List Side}

/-- A subtree that has grown from the height `h` by one level: it is the new node, or it
grew on the side that was taken at its root. -/
structure Grown (t : SearchTree α) (h : Nat) (below : List Side) : Prop where
  balanced : t.Balanced
  height : t.height = h + 1
  root : (h = 0 ∧ below = []) ∨ ∃ d rest l x r, below = d :: rest ∧ t = .node l x r d.sign

theorem insertLoop_spec (hpath : Fits path h) (ht : Grown t h below) :
    ∃ root, insertLoop path t below = some root ∧ root.Balanced ∧
      root.toList = (plug path t).toList := by
  induction path generalizing t h below with
  | nil => exact ⟨t, rfl, ht.balanced, rfl⟩
  | cons s path ih =>
    have hcases := hpath.cases
    obtain ⟨hother, -, -, -, hpath⟩ := hpath
    have hheight := ht.height
    have hsign : s.side.sign ≠ 0 := by rcases s.side.sign_cases with hs | hs <;> omega
    unfold insertLoop
    rcases hcases with ⟨hb, hh⟩ | ⟨hb, hh⟩ | ⟨hb, hh⟩
    · -- both sides were as high, so the whole subtree has grown
      rw [if_pos hb]
      have hgrown : Grown (s.fill s.side.sign t) (max h s.other.height + 1) (s.side :: below) := by
        refine ⟨balanced_fill ht.balanced hother (Or.inr (Or.inl ⟨rfl, by omega⟩)), ?_, Or.inr ?_⟩
        · rw [height_fill]
          omega
        · obtain ⟨l, x, r, hnode⟩ := fill_eq_node s s.side.sign t
          exact ⟨_, _, l, x, r, rfl, hnode⟩
      obtain ⟨root, hrun, hbal, hlist⟩ := ih hpath hgrown
      exact ⟨root, hrun, hbal, hlist.trans (toList_plug_congr path (toList_fill_congr s _ _ rfl))⟩
    · -- the higher side has grown: a rotation makes the subtree as high as it was
      rw [if_neg (by omega), if_neg (by omega)]
      rcases ht.root with ⟨hnew, -⟩ | ⟨d, rest, l, x, r, rfl, rfl⟩
      · omega
      · obtain ⟨u, hrot, hbal, hu, hlist⟩ : ∃ u,
            (if s.side = d then rotateSingle s.side s.other s.item 0 0 (.node l x r d.sign)
              else rotateDouble s.side s.other s.item (.node l x r d.sign)) = some u ∧
            u.Balanced ∧ u.height = max h s.other.height + 1 ∧
            u.toList = (s.fill s.balance (.node l x r d.sign)).toList := by
          by_cases hside : s.side = d
          · rw [if_pos hside]
            obtain ⟨u, hrot, hbal, hu, hlist⟩ := rotateSingle_spec (p := s.item) s.balance hother
              ht.balanced (by omega) (Or.inl ⟨congrArg Side.sign hside.symm, rfl, rfl⟩)
            refine ⟨u, hrot, hbal, ?_, hlist⟩
            rw [hside] at hu
            rcases d.sign_cases with hs | hs <;> rw [hs] at hu <;> omega
          · rw [if_neg hside]
            obtain ⟨u, hrot, hbal, hu, hlist⟩ := rotateDouble_spec (p := s.item) s.balance hother
              ht.balanced (by omega)
              (show d.sign = -s.side.sign by rw [Side.eq_opposite hside, Side.sign_opposite])
            exact ⟨u, hrot, hbal, by omega, hlist⟩
        refine ⟨plug path u, ?_, ?_, ?_⟩
        · simp only [hrot, Option.map_some]
        · exact (balanced_plug_iff ..).mpr ⟨hbal, hu ▸ hpath⟩
        · exact toList_plug_congr path hlist
    · -- the lower side has grown, and the height is what it was
      rw [if_neg (by omega), if_pos (by omega)]
      have hfill : (s.fill 0 t).height = max h s.other.height + 1 := by
        rw [height_fill]
        omega
      refine ⟨_, rfl, (balanced_plug_iff ..).mpr ⟨?_, hfill ▸ hpath⟩, ?_⟩
      · exact balanced_fill ht.balanced hother (Or.inl ⟨rfl, by omega⟩)
      · exact toList_plug_congr path (toList_fill_congr s _ _ rfl)

/-! ## After a deletion -/

theorem deleteLoop_spec (hpath : Fits path (h + 1)) (ht : t.Balanced) (hheight : t.height = h) :
    ∃ root, deleteLoop path t = some root ∧ root.Balanced ∧
      root.toList = (plug path t).toList := by
  induction path generalizing t h with
  | nil => exact ⟨t, rfl, ht, rfl⟩
  | cons s path ih =>
    have hcases := hpath.cases
    obtain ⟨hother, -, -, -, hpath⟩ := hpath
    have hsign : s.side.sign = 1 ∨ s.side.sign = -1 := s.side.sign_cases
    unfold deleteLoop
    rcases hcases with ⟨hb, hh⟩ | ⟨hb, hh⟩ | ⟨hb, hh⟩
    · -- both sides were as high, so the height is what it was
      rw [if_pos hb]
      have hfill :
          (s.fill (s.balance - s.side.sign) t).height = max (h + 1) s.other.height + 1 := by
        rw [height_fill]
        omega
      refine ⟨_, rfl, (balanced_plug_iff ..).mpr ⟨?_, hfill ▸ hpath⟩, ?_⟩
      · exact balanced_fill ht hother (Or.inr (Or.inr ⟨by omega, by omega⟩))
      · exact toList_plug_congr path (toList_fill_congr s _ _ rfl)
    · -- the higher side has shrunk, and the whole subtree with it
      rw [if_neg (by omega), if_pos (by omega)]
      have hfill : (s.fill 0 t).height = s.other.height + 1 := by
        rw [height_fill]
        omega
      have hpath' : Fits path (s.other.height + 1 + 1) := by
        rwa [show max (h + 1) s.other.height = s.other.height + 1 by omega] at hpath
      obtain ⟨root, hrun, hbal, hlist⟩ := ih hpath'
        (balanced_fill ht hother (Or.inl ⟨rfl, by omega⟩)) hfill
      exact ⟨root, hrun, hbal, hlist.trans (toList_plug_congr path (toList_fill_congr s _ _ rfl))⟩
    · -- the lower side has shrunk: a rotation, after which the height may be what it was
      rw [if_neg (by omega), if_neg (by omega)]
      have hfill := fill_opposite s s.balance s.balance t
      cases hq : s.other with
      | nil =>
        rw [hq, SearchTree.height] at hh
        omega
      | node ql q qr b =>
        rw [hq] at hother hh hfill hpath
        obtain ⟨-, -, -, hlow, hhigh⟩ := id hother
        have hmax : max (h + 1) (SearchTree.node ql q qr b).height = h + 2 := by omega
        rw [hmax] at hpath
        dsimp only
        by_cases hflat : b = 0
        · -- `q` was even, and the subtree is as high as before
          obtain ⟨u, hrot, hbal, hu, hlist⟩ := rotateSingle_spec (p := s.item) s.balance ht hother
            (by omega) (Or.inr ⟨hflat, rfl, rfl⟩)
          have hpb : (if s.balance - s.side.sign > 0 then 1 else -1) = s.side.opposite.sign := by
            rw [Side.sign_opposite]
            split <;> omega
          rw [if_pos (by omega), if_pos hflat, hpb, hrot, Option.map_some]
          rw [hflat] at hu
          refine ⟨_, rfl, (balanced_plug_iff ..).mpr ⟨hbal, ?_⟩, ?_⟩
          · rwa [show u.height = h + 2 + 1 by omega]
          · exact toList_plug_congr path (hlist.trans (by rw [hfill]))
        · -- the subtree has become lower, whichever way it is rotated
          have hgo : ∀ {u : SearchTree α}, u.Balanced → u.height = h + 2 →
              u.toList = (s.fill s.balance t).toList →
              ∃ root, deleteLoop path u = some root ∧ root.Balanced ∧
                root.toList = (plug path (s.fill s.balance t)).toList := by
            intro u hbal hu hlist
            obtain ⟨root, hrun, hroot, hlist'⟩ := ih hpath hbal hu
            exact ⟨root, hrun, hroot, hlist'.trans (toList_plug_congr path hlist)⟩
          by_cases hsingle : s.side.sign ≠ b
          · have hbs : b = s.side.opposite.sign := by
              rw [Side.sign_opposite]
              omega
            obtain ⟨u, hrot, hbal, hu, hlist⟩ := rotateSingle_spec (p := s.item) s.balance ht hother
              (by omega) (Or.inl ⟨hbs, rfl, rfl⟩)
            rw [if_pos hsingle, if_neg hflat, hrot, Option.bind_some]
            refine hgo hbal ?_ (hlist.trans (by rw [hfill]))
            rw [← hbs] at hu
            have : b * b = 1 := by rcases hsign with hs | hs <;> (rw [hbs]; simp [hs])
            omega
          · obtain ⟨u, hrot, hbal, hu, hlist⟩ := rotateDouble_spec (p := s.item) s.balance ht hother
              (by omega) (show b = -s.side.opposite.sign by rw [Side.sign_opposite]; omega)
            rw [if_neg hsingle, hrot, Option.bind_some]
            exact hgo hbal (by omega) (hlist.trans (by rw [hfill]))

end Sfcb.Avl
