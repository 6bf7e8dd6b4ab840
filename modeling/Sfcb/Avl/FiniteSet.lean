import Sfcb.Avl.Rebalance
import Sfcb.Lib.Comparison

/-!
# The tree is a finite set

An abstract set is a list of items in any order, and `apply` is what each operation does to
it. The tree stores the set in order (`Stores`); every operation keeps that and answers as
the set does (`step_spec`). The stack is long enough as long as the tree has fewer than
2^64 items: it is then at most 129 levels high.

The number of items `n` is an `int`. It is right until 2^31 items are stored.
-/

namespace Sfcb.Avl

open Sfcb.Lib
open Sfcb.Lib.FiniteSet (equal least remove Distinct)

variable {α : Type} {compar : α → α → Int} {item : α} {t l r : SearchTree α} {path : List (Step α)}

/-! ## Going down -/

/-- The items that were passed on the way are below `item` or above it. -/
structure Parts (compar : α → α → Int) (item : α) (path : List (Step α)) : Prop where
  below : ∀ y ∈ before path, compar y item < 0
  above : ∀ y ∈ after path, compar item y < 0

theorem Parts.nil : Parts compar item [] :=
  ⟨fun _ hy => absurd hy List.not_mem_nil, fun _ hy => absurd hy List.not_mem_nil⟩

section Order

variable (hc : TotalOrder compar)
include hc

theorem Parts.ne {y : α} (hparts : Parts compar item path) (hy : y ∈ before path ++ after path) :
    compar item y ≠ 0 := by
  rcases List.mem_append.mp hy with hy | hy
  · have := (hc.swap y item).mp (hparts.below y hy)
    omega
  · have := hparts.above y hy
    omega

theorem Parts.left {x : α} {b : Int} (hparts : Parts compar item path)
    (hs : (SearchTree.node l x r b).IsSearch fun a b => compar a b < 0) (hx : compar item x < 0) :
    Parts compar item (⟨x, b, .left, r⟩ :: path) := by
  obtain ⟨-, -, -, hr⟩ := hs
  refine ⟨by simpa [before] using hparts.below, fun y hy => ?_⟩
  simp only [after, List.cons_append, List.mem_cons, List.mem_append] at hy
  rcases hy with rfl | hy | hy
  · exact hx
  · exact hc.lt_trans hx (hr y hy)
  · exact hparts.above y hy

theorem Parts.right {x : α} {b : Int} (hparts : Parts compar item path)
    (hs : (SearchTree.node l x r b).IsSearch fun a b => compar a b < 0) (hx : compar item x > 0) :
    Parts compar item (⟨x, b, .right, l⟩ :: path) := by
  obtain ⟨-, -, hl, -⟩ := hs
  have hx : compar x item < 0 := (hc.swap x item).mpr hx
  refine ⟨fun y hy => ?_, by simpa [after] using hparts.above⟩
  simp only [before, List.mem_append, List.mem_singleton] at hy
  rcases hy with hy | hy | rfl
  · exact hparts.below y hy
  · exact hc.lt_trans (hl y hy) hx
  · exact hx

theorem insertDescend_spec (item : α) (hs : t.IsSearch fun a b => compar a b < 0)
    (hparts : Parts compar item path) (hroom : path.length + t.height ≤ AVL_STACK_SIZE) :
    (∃ y ∈ t.toList, compar item y = 0 ∧ insertDescend compar item path t = some (.present y)) ∨
      ∃ path', insertDescend compar item path t = some (.attach path') ∧
        plug path' .nil = plug path t ∧ Parts compar item path' := by
  induction t generalizing path with
  | nil => exact Or.inr ⟨path, rfl, rfl, hparts⟩
  | node l x r b ihl ihr =>
    simp only [SearchTree.height] at hroom
    unfold insertDescend
    rw [if_neg (by omega)]
    by_cases hlt : compar item x < 0
    · rw [if_pos hlt]
      rcases ihl hs.1 (hparts.left hc hs hlt) (by simp only [List.length_cons]; omega) with
        ⟨y, hy, hxy, hrun⟩ | ⟨path', hrun, hplug, hparts'⟩
      · exact Or.inl ⟨y, by simp [SearchTree.toList, hy], hxy, hrun⟩
      · exact Or.inr ⟨path', hrun, hplug, hparts'⟩
    · rw [if_neg hlt]
      by_cases hgt : compar item x > 0
      · rw [if_pos hgt]
        rcases ihr hs.2.1 (hparts.right hc hs hgt) (by simp only [List.length_cons]; omega) with
          ⟨y, hy, hxy, hrun⟩ | ⟨path', hrun, hplug, hparts'⟩
        · exact Or.inl ⟨y, by simp [SearchTree.toList, hy], hxy, hrun⟩
        · exact Or.inr ⟨path', hrun, hplug, hparts'⟩
      · rw [if_neg hgt]
        exact Or.inl ⟨x, by simp [SearchTree.toList], by omega, rfl⟩

theorem deleteDescend_spec (item : α) (hs : t.IsSearch fun a b => compar a b < 0)
    (hparts : Parts compar item path) (hroom : path.length + t.height ≤ AVL_STACK_SIZE) :
    (∃ f, deleteDescend compar item path t = some (some f) ∧ compar item f.item = 0 ∧
        plug f.path (.node f.left f.item f.right f.balance) = plug path t) ∨
      (deleteDescend compar item path t = some none ∧
        ∀ y ∈ (plug path t).toList, compar item y ≠ 0) := by
  induction t generalizing path with
  | nil =>
    refine Or.inr ⟨rfl, fun y hy => hparts.ne hc ?_⟩
    simpa [toList_plug, SearchTree.toList] using hy
  | node l x r b ihl ihr =>
    simp only [SearchTree.height] at hroom
    unfold deleteDescend
    by_cases hlt : compar item x < 0
    · rw [if_pos hlt, if_neg (by omega)]
      exact ihl hs.1 (hparts.left hc hs hlt) (by simp only [List.length_cons]; omega)
    · rw [if_neg hlt]
      by_cases hgt : compar item x > 0
      · rw [if_pos hgt, if_neg (by omega)]
        exact ihr hs.2.1 (hparts.right hc hs hgt) (by simp only [List.length_cons]; omega)
      · rw [if_neg hgt]
        exact Or.inl ⟨_, rfl, show compar item x = 0 by omega, rfl⟩

theorem findAvl_spec (item : α) (hs : t.IsSearch fun a b => compar a b < 0)
    (hparts : Parts compar item path) :
    (∃ y ∈ t.toList, compar item y = 0 ∧ findAvl compar item t = some y) ∨
      (findAvl compar item t = none ∧ ∀ y ∈ (plug path t).toList, compar item y ≠ 0) := by
  induction t generalizing path with
  | nil =>
    refine Or.inr ⟨rfl, fun y hy => hparts.ne hc ?_⟩
    simpa [toList_plug, SearchTree.toList] using hy
  | node l x r b ihl ihr =>
    unfold findAvl
    by_cases hlt : compar item x < 0
    · rw [if_pos hlt]
      rcases ihl hs.1 (hparts.left hc hs hlt) with ⟨y, hy, hxy, hrun⟩ | hnone
      · exact Or.inl ⟨y, by simp [SearchTree.toList, hy], hxy, hrun⟩
      · exact Or.inr hnone
    · rw [if_neg hlt]
      by_cases hgt : compar item x > 0
      · rw [if_pos hgt]
        rcases ihr hs.2.1 (hparts.right hc hs hgt) with ⟨y, hy, hxy, hrun⟩ | hnone
        · exact Or.inl ⟨y, by simp [SearchTree.toList, hy], hxy, hrun⟩
        · exact Or.inr hnone
      · rw [if_neg hgt]
        exact Or.inl ⟨x, by simp [SearchTree.toList], by omega, rfl⟩

end Order

theorem findMinAvl_eq_head? (t : SearchTree α) : findMinAvl t = t.toList.head? := by
  fun_induction findMinAvl t with
  | case1 => rfl
  | case2 x r b => simp [SearchTree.toList]
  | case3 l y r b x r' b' ih =>
    rw [ih]
    conv_rhs => rw [SearchTree.toList]
    simp [SearchTree.toList]

/-- The way to the leftmost node has nothing in front of it. -/
theorem descendMin_spec (tos : Nat) (steps : List (Step α)) (ht : t ≠ .nil)
    (hbefore : before steps = []) (hroom : tos + steps.length + t.height ≤ AVL_STACK_SIZE) :
    ∃ steps' m mr c, descendMin tos steps t = some (steps', m, mr) ∧
      plug steps' (.node .nil m mr c) = plug steps t ∧ before steps' = [] := by
  fun_induction descendMin tos steps t with
  | case1 steps => exact absurd rfl ht
  | case2 steps l x r b hfull =>
    simp only [SearchTree.height] at hroom
    omega
  | case3 steps x r b hfull => exact ⟨steps, x, r, b, rfl, rfl, hbefore⟩
  | case4 steps x r b ll y lr lb hfull ih =>
    obtain ⟨steps', m, mr, c, hrun, hplug, hbefore'⟩ :=
      ih (by simp) (by simpa [before] using hbefore)
      (by simp only [SearchTree.height, List.length_cons] at hroom ⊢; omega)
    exact ⟨steps', m, mr, c, hrun, hplug, hbefore'⟩

theorem plug_append (steps path : List (Step α)) (t : SearchTree α) :
    plug (steps ++ path) t = plug path (plug steps t) := by
  induction steps generalizing t with
  | nil => rfl
  | cons s steps ih => exact ih (s.fill s.balance t)

/-- What is left is one level lower at the end of its way. -/
theorem takeOut_spec {f : Found α}
    (hbal : (plug f.path (.node f.left f.item f.right f.balance)).Balanced)
    (hroom : f.path.length + (SearchTree.node f.left f.item f.right f.balance).height ≤
      AVL_STACK_SIZE) :
    ∃ path' t', takeOut f = some (path', t') ∧ t'.Balanced ∧ Fits path' (t'.height + 1) ∧
      (plug path' t').toList =
        (before f.path ++ f.left.toList) ++ (f.right.toList ++ after f.path) := by
  obtain ⟨path, left, item, right, balance⟩ := f
  obtain ⟨⟨hleft, hright, hb, hlow, hhigh⟩, hfits⟩ := (balanced_plug_iff ..).mp hbal
  simp only [SearchTree.height] at hfits hroom
  cases left with
  | nil =>
    refine ⟨path, right, rfl, hright, by simpa [SearchTree.height] using hfits, ?_⟩
    simp [toList_plug, SearchTree.toList]
  | node ll lx lr lb =>
    cases right with
    | nil =>
      refine ⟨path, .node ll lx lr lb, rfl, hleft, by simpa [SearchTree.height] using hfits, ?_⟩
      simp [toList_plug, SearchTree.toList]
    | node rl rx rr rb =>
      -- the leftmost node on the right takes the place of the one that goes
      obtain ⟨steps, m, mr, c, hrun, hplug, hbefore⟩ := descendMin_spec (path.length + 1) []
        (t := .node rl rx rr rb) (by simp) rfl
        (by simp only [SearchTree.height, List.length_nil] at hroom ⊢; omega)
      simp only [plug] at hplug
      have hwhole : (plug (steps ++ ⟨m, balance, .right, .node ll lx lr lb⟩ :: path)
          (.node .nil m mr c)).Balanced := by
        rw [plug_append, hplug, plug]
        exact (balanced_plug_iff ..).mpr ⟨⟨hleft, hright, hb, hlow, hhigh⟩, hfits⟩
      obtain ⟨⟨-, hmr, -⟩, hfits'⟩ := (balanced_plug_iff ..).mp hwhole
      refine ⟨_, mr, ?_, hmr, by simpa [SearchTree.height] using hfits', ?_⟩
      · dsimp only [takeOut]
        rw [if_neg (by simp only [SearchTree.height] at hroom; omega)]
        simp only [hrun, Option.map_some]
      · have hlist : (SearchTree.node rl rx rr rb).toList = m :: (mr.toList ++ after steps) := by
          rw [← hplug, toList_plug, hbefore]
          simp [SearchTree.toList]
        simp only [toList_plug, plug_append, plug, Step.fill, hlist]
        rw [SearchTree.toList, toList_plug, hbefore]
        simp

/-! ## The operations -/

/-- What an operation does to a set, and what it returns. -/
def apply (compar : α → α → Int) (s : List α) : Op α → List α × Option α
  | .insert x => match equal compar x s with
    | some y => (s, some y)
    | none => (x :: s, none)
  | .find x => (s, equal compar x s)
  | .findMin => (s, least compar s)
  | .delete x => (remove compar x s, equal compar x s)
  | .deleteMin => match least compar s with
    | some y => (remove compar y s, some y)
    | none => (s, none)

/-- The tree holds the items of `s` in order. Of the number of items it has only what an
`int` can hold. -/
structure Stores (compar : α → α → Int) (this : AvlTree α) (s : List α) : Prop where
  search : this.root.IsSearch fun a b => compar a b < 0
  balanced : this.root.Balanced
  items : this.root.toList.Perm s
  count : this.n = cInt s.length

theorem Stores.height_lt {this : AvlTree α} {s : List α} (h : Stores compar this s)
    (hsmall : s.length < 2 ^ 64) : this.root.height < 130 := by
  have hpow := h.balanced.pow_le_size
  rw [h.items.length_eq] at hpow
  have hlog : 2 ^ (this.root.height / 2) < 2 ^ 65 := by omega
  have := (Nat.pow_lt_pow_iff_right (by omega)).mp hlog
  omega

theorem isSearch_iff_ordered (hc : TotalOrder compar) (t : SearchTree α) :
    (t.IsSearch fun a b => compar a b < 0) ↔ t.toList.Pairwise fun a b => compar a b < 0 := by
  apply SearchTree.isSearch_iff
  intro a b c hab hbc
  exact hc.lt_trans hab hbc

theorem cInt_cInt_add (k m : Int) : cInt (cInt k + m) = cInt (k + m) :=
  Int.bmod_add_bmod ..

section Step

variable {this : AvlTree α} {s : List α} (hc : TotalOrder compar) (h : Stores compar this s)
include hc h

theorem Stores.ordered : this.root.toList.Pairwise fun a b => compar a b < 0 :=
  (isSearch_iff_ordered hc _).mp h.search

theorem Stores.distinct : Distinct compar s := by
  have hd := FiniteSet.distinct_of_ordered hc (h.ordered hc)
  exact fun a ha b hb => hd a (h.items.mem_iff.mpr ha) b (h.items.mem_iff.mpr hb)

theorem Stores.equal_of_mem {y : α} (hy : y ∈ this.root.toList) (heq : compar item y = 0) :
    equal compar item s = some y :=
  FiniteSet.equal_eq_some hc (h.distinct hc) (h.items.mem_iff.mp hy) heq

omit hc in
theorem Stores.equal_of_forall (hne : ∀ y ∈ this.root.toList, compar item y ≠ 0) :
    equal compar item s = none :=
  FiniteSet.equal_eq_none fun y hy => hne y (h.items.mem_iff.mpr hy)

/-- The first item in order is the least. -/
theorem Stores.least_eq_head? : least compar s = this.root.toList.head? := by
  have hordered := h.ordered hc
  cases hlist : this.root.toList with
  | nil =>
    have hs : s = [] := List.nil_perm.mp (hlist ▸ h.items)
    rw [hs]
    rfl
  | cons m rest =>
    rw [hlist, List.pairwise_cons] at hordered
    have hm : m ∈ s := h.items.mem_iff.mp (by simp [hlist])
    refine FiniteSet.least_eq_some hc (h.distinct hc) hm fun z hz => ?_
    rcases List.mem_cons.mp (hlist ▸ h.items.mem_iff.mpr hz) with rfl | hz
    · exact Int.le_of_eq (hc.self z)
    · exact Int.le_of_lt (hordered.1 z hz)

theorem insertAvl_spec (item : α) (hroom : this.root.height ≤ AVL_STACK_SIZE) :
    ∃ this', insertAvl compar this item = some (this', (apply compar s (.insert item)).2) ∧
      Stores compar this' (apply compar s (.insert item)).1 := by
  unfold insertAvl
  rcases insertDescend_spec hc item h.search Parts.nil (by simpa using hroom) with
    ⟨y, hy, heq, hrun⟩ | ⟨path, hrun, hplug, hparts⟩
  · have hequal := h.equal_of_mem hc hy heq
    simp only [hrun, apply, hequal]
    exact ⟨this, rfl, h⟩
  · -- the new node stands where the item belongs
    simp only [plug] at hplug
    have hlist : this.root.toList = before path ++ after path := by
      rw [← hplug, toList_plug]
      simp [SearchTree.toList]
    have hequal := h.equal_of_forall fun y hy => hparts.ne hc (hlist ▸ hy)
    obtain ⟨-, hfits⟩ := (balanced_plug_iff path .nil).mp (hplug ▸ h.balanced)
    have hgrown : Grown (.node .nil item .nil 0) 0 [] :=
      ⟨by simp [SearchTree.Balanced, SearchTree.height], rfl, Or.inl ⟨rfl, rfl⟩⟩
    obtain ⟨root, hloop, hbal, hroot⟩ := insertLoop_spec hfits hgrown
    have hroot : root.toList = before path ++ item :: after path := by
      rw [hroot, toList_plug]
      simp [SearchTree.toList]
    simp only [hrun, apply, hequal, hloop, Option.map_some]
    refine ⟨_, rfl, ?_, hbal, ?_, ?_⟩
    · refine (isSearch_iff_ordered hc _).mpr ?_
      have hordered := h.ordered hc
      rw [hlist, List.pairwise_append] at hordered
      obtain ⟨hbefore, hafter, hcross⟩ := hordered
      rw [hroot, List.pairwise_append, List.pairwise_cons]
      refine ⟨hbefore, ⟨hparts.above, hafter⟩, fun y hy z hz => ?_⟩
      rcases List.mem_cons.mp hz with rfl | hz
      · exact hparts.below y hy
      · exact hcross y hy z hz
    · rw [hroot]
      exact List.perm_middle.trans (List.Perm.cons _ (hlist ▸ h.items))
    · rw [h.count, cInt_cInt_add]
      simp

/-- A node is taken out of the list, and nothing else changes. -/
theorem Stores.without {u v : List α} {y : α} {root : SearchTree α}
    (hlist : this.root.toList = u ++ y :: v) (heq : compar item y = 0)
    (hroot : root.toList = u ++ v)
    (hbal : root.Balanced) :
    Stores compar ⟨root, cInt (this.n - 1)⟩ (remove compar item s) := by
  have hordered := h.ordered hc
  have hsub : (u ++ v).Sublist (u ++ y :: v) :=
    List.Sublist.append_left (List.sublist_cons_self ..) u
  have hne : ∀ z ∈ u ++ v, compar item z ≠ 0 := by
    intro z hz hiz
    have hzy : compar z y = 0 := by
      have hzi := hc.eq_symm hiz
      have hyi := hc.eq_symm heq
      exact hc.eq_of_le_of_le (hc.trans z item y (by omega) (by omega))
        (hc.trans y item z (by omega) (by omega))
    rw [hlist, List.pairwise_append, List.pairwise_cons] at hordered
    obtain ⟨-, ⟨hv, -⟩, hcross⟩ := hordered
    rcases List.mem_append.mp hz with hz | hz
    · have := hcross z hz y List.mem_cons_self
      omega
    · have := (hc.swap y z).mp (hv z hz)
      omega
  have hremove := FiniteSet.remove_append_cons heq hne
  have hperm : (u ++ v).Perm (remove compar item s) := by
    rw [← hremove, ← hlist]
    exact FiniteSet.perm_remove item h.items
  refine ⟨?_, hbal, hroot ▸ hperm, ?_⟩
  · refine (isSearch_iff_ordered hc _).mpr ?_
    rw [hroot]
    exact (hlist ▸ hordered).sublist hsub
  · have hlen : s.length = (u ++ v).length + 1 := by
      rw [← h.items.length_eq, hlist]
      simp
      omega
    have hpred : ((((u ++ v).length + 1 : Nat) : Int) + -1) = ((u ++ v).length : Int) := by omega
    rw [h.count, ← hperm.length_eq, hlen, Int.sub_eq_add_neg, cInt_cInt_add, hpred]

theorem deleteAvl_spec (item : α) (hroom : this.root.height ≤ AVL_STACK_SIZE) :
    ∃ this', deleteAvl compar this item = some (this', (apply compar s (.delete item)).2) ∧
      Stores compar this' (apply compar s (.delete item)).1 := by
  unfold deleteAvl
  rcases deleteDescend_spec hc item h.search Parts.nil (by simpa using hroom) with
    ⟨f, hrun, heq, hplug⟩ | ⟨hrun, hne⟩
  · simp only [plug] at hplug
    have hlist : this.root.toList =
        (before f.path ++ f.left.toList) ++ f.item :: (f.right.toList ++ after f.path) := by
      rw [← hplug, toList_plug]
      simp [SearchTree.toList]
    have hlen := length_add_height_le f.path (.node f.left f.item f.right f.balance)
    rw [hplug] at hlen
    obtain ⟨path, t, hout, ht, hfits, hrest⟩ := takeOut_spec (hplug ▸ h.balanced)
      (Nat.le_trans hlen hroom)
    obtain ⟨root, hloop, hbal, hroot⟩ := deleteLoop_spec hfits ht rfl
    have hequal := h.equal_of_mem hc (y := f.item) (by simp [hlist]) heq
    simp only [hrun, hout, hloop, apply, hequal, Option.bind_some, Option.map_some]
    exact ⟨_, rfl, h.without hc hlist heq (hroot.trans hrest) hbal⟩
  · have hequal := h.equal_of_forall hne
    have hremove : remove compar item s = s :=
      FiniteSet.remove_eq_self fun y hy => hne y (h.items.mem_iff.mpr hy)
    simp only [hrun, apply, hequal, hremove]
    exact ⟨this, rfl, h⟩

theorem deleteMinAvl_spec (hroom : this.root.height ≤ AVL_STACK_SIZE) :
    ∃ this', deleteMinAvl this = some (this', (apply compar s .deleteMin).2) ∧
      Stores compar this' (apply compar s .deleteMin).1 := by
  have hleast := h.least_eq_head? hc
  unfold deleteMinAvl
  cases hnode : this.root with
  | nil =>
    simp only [hnode, SearchTree.toList, List.head?_nil] at hleast
    simp only [apply, hleast]
    exact ⟨this, rfl, h⟩
  | node l x r b =>
    obtain ⟨steps, m, mr, c, hrun, hplug, hbefore⟩ := descendMin_spec 0 []
      (t := .node l x r b) (by simp) rfl (by simpa [hnode] using hroom)
    simp only [plug] at hplug
    have hlist : this.root.toList = [] ++ m :: (mr.toList ++ after steps) := by
      rw [hnode, ← hplug, toList_plug, hbefore]
      simp [SearchTree.toList]
    obtain ⟨⟨-, hmr, -⟩, hfits⟩ := (balanced_plug_iff ..).mp (hplug ▸ hnode ▸ h.balanced)
    obtain ⟨root, hloop, hbal, hroot⟩ := deleteLoop_spec (h := mr.height)
      (by simpa [SearchTree.height] using hfits) hmr rfl
    have hroot : root.toList = [] ++ (mr.toList ++ after steps) := by
      rw [hroot, toList_plug, hbefore]
      simp
    rw [hlist] at hleast
    simp only [hrun, hloop, apply, hleast, List.nil_append, List.head?_cons, Option.bind_some,
      Option.map_some]
    exact ⟨_, rfl, h.without hc hlist (hc.self m) hroot hbal⟩

/-- Every operation does to the tree what it does to the set. -/
theorem step_spec (op : Op α) (hroom : this.root.height ≤ AVL_STACK_SIZE) :
    ∃ this', step compar this op = some (this', (apply compar s op).2) ∧
      Stores compar this' (apply compar s op).1 := by
  cases op with
  | insert item => exact insertAvl_spec hc h item hroom
  | find item =>
    refine ⟨this, ?_, h⟩
    rcases findAvl_spec hc item h.search Parts.nil with ⟨y, hy, heq, hrun⟩ | ⟨hrun, hne⟩
    · simp only [step, apply, hrun, h.equal_of_mem hc hy heq]
    · simp only [step, apply, hrun, h.equal_of_forall hne]
  | findMin =>
    refine ⟨this, ?_, h⟩
    simp only [step, apply, findMinAvl_eq_head?, h.least_eq_head? hc]
  | delete item => exact deleteAvl_spec hc h item hroom
  | deleteMin => exact deleteMinAvl_spec hc h hroom

end Step

/-! ## Runs -/

/-- A run from a tree that stands for the set `s`: `Good` holds wherever it gets, every
operation answers as the set does, and the stack is never too short for fewer than 2^64
items. -/
def Follows (compar : α → α → Int) (Good : AvlTree α → List α → Prop) :
    AvlTree α → List α → List (Op α) → Prop
  | this, s, [] => Good this s
  | this, s, op :: ops =>
    Good this s ∧ (s.length < 2 ^ 64 → step compar this op ≠ none) ∧
      ∀ this' result, step compar this op = some (this', result) →
        result = (apply compar s op).2 ∧
          Follows compar Good this' (apply compar s op).1 ops

/-- Nowhere in the run does the set have `bound` items or more. -/
def StaysBelow (compar : α → α → Int) (bound : Nat) : List α → List (Op α) → Prop
  | s, [] => s.length < bound
  | s, op :: ops => s.length < bound ∧ StaysBelow compar bound (apply compar s op).1 ops

/-- A search tree with the items of `s` whose balances are right, and the number of them. -/
structure Sound (compar : α → α → Int) (this : AvlTree α) (s : List α) : Prop where
  search : this.root.IsSearch fun a b => compar a b < 0
  balanced : this.root.Balanced
  items : this.root.toList.Perm s
  count : this.n = s.length

theorem cInt_eq_iff (k : Nat) : cInt k = k ↔ k < 2 ^ 31 := by
  unfold cInt
  rw [Int.bmod_def]
  split <;> omega

theorem Stores.sound_iff {this : AvlTree α} {s : List α} (h : Stores compar this s) :
    Sound compar this s ↔ s.length < 2 ^ 31 := by
  rw [← cInt_eq_iff, ← h.count]
  exact ⟨fun hs => hs.count, fun hn => ⟨h.search, h.balanced, h.items, hn⟩⟩

theorem stores_newAvlTree : Stores compar newAvlTree [] :=
  ⟨trivial, trivial, List.Perm.refl _, ((cInt_eq_iff 0).mpr (by omega)).symm⟩

section Run

variable {this : AvlTree α} {s : List α} (hc : TotalOrder compar) (h : Stores compar this s)
include hc h

theorem step_some (hsmall : s.length < 2 ^ 64) (op : Op α) :
    ∃ this', step compar this op = some (this', (apply compar s op).2) ∧
      Stores compar this' (apply compar s op).1 := by
  have hheight := h.height_lt hsmall
  exact step_spec hc h op (by rw [AVL_STACK_SIZE]; omega)

/-- A run through sets that are small enough meets everything that small sets meet. -/
theorem follows_of_staysBelow {Good : AvlTree α → List α → Prop} {bound : Nat}
    (hbound : bound ≤ 2 ^ 64)
    (hgood : ∀ this s, Stores compar this s → s.length < bound → Good this s)
    {ops : List (Op α)} (hsmall : StaysBelow compar bound s ops) :
    Follows compar Good this s ops := by
  induction ops generalizing this s with
  | nil => exact hgood this s h hsmall
  | cons op ops ih =>
    obtain ⟨hlen, hsmall⟩ := hsmall
    obtain ⟨this₁, hstep, h₁⟩ := step_some hc h (by omega) op
    refine ⟨hgood this s h hlen, fun _ => by simp [hstep], fun this' result hrun => ?_⟩
    obtain ⟨rfl, rfl⟩ : this₁ = this' ∧ (apply compar s op).2 = result := by
      simpa [hstep] using hrun
    exact ⟨rfl, ih h₁ hsmall⟩

theorem staysBelow_of_follows_sound {ops : List (Op α)}
    (hrun : Follows compar (Sound compar) this s ops) : StaysBelow compar (2 ^ 31) s ops := by
  induction ops generalizing this s with
  | nil => exact h.sound_iff.mp hrun
  | cons op ops ih =>
    obtain ⟨hsound, -, hnext⟩ := hrun
    have hlen := h.sound_iff.mp hsound
    obtain ⟨this', hstep, h'⟩ := step_some hc h (by omega) op
    exact ⟨hlen, ih h' (hnext this' _ hstep).2⟩

end Run

/-- Up to 2^64 items everything but the number is right; the number is right as long as it
is one of an `int`. -/
theorem avlTree_follows_iff (hc : TotalOrder compar) (ops : List (Op α)) :
    (StaysBelow compar (2 ^ 64) [] ops →
      Follows compar (Stores compar) newAvlTree [] ops) ∧
    (Follows compar (Sound compar) newAvlTree [] ops ↔ StaysBelow compar (2 ^ 31) [] ops) := by
  refine ⟨fun hsmall => ?_, fun hrun => ?_, fun hsmall => ?_⟩
  · exact follows_of_staysBelow hc stores_newAvlTree (by omega) (fun _ _ h _ => h) hsmall
  · exact staysBelow_of_follows_sound hc stores_newAvlTree hrun
  · exact follows_of_staysBelow hc stores_newAvlTree (by omega)
      (fun _ _ h hlen => h.sound_iff.mpr hlen) hsmall

/-- Numbers compared by their difference. -/
theorem totalOrder_sub : TotalOrder fun a b : Int => a - b :=
  ⟨fun a b => by omega, fun a b c => by omega⟩

/-- Six numbers, so that the tree turns, and three of them taken out again. -/
theorem avlTree_follows_insert :
    Follows (fun a b : Int => a - b) (Sound fun a b : Int => a - b) newAvlTree []
      [.insert 1, .insert 2, .insert 3, .insert 4, .insert 6, .insert 5, .delete 2, .find 4,
        .deleteMin, .delete 4] :=
  (avlTree_follows_iff totalOrder_sub _).2.mpr
    ⟨by decide, by decide, by decide, by decide, by decide, by decide, by decide, by decide,
      by decide, by decide, by unfold StaysBelow; decide⟩

/-- Inserting one number after the other. -/
theorem StaysBelow.length_add_lt {bound m : Nat} {j : Nat} {s : List Int}
    (hs : ∀ y ∈ s, y < j)
    (h : StaysBelow (fun a b : Int => a - b) bound s
      ((List.range' j m).map fun k : Nat => .insert (k : Int))) : s.length + m < bound := by
  induction m generalizing j s with
  | zero => exact h
  | succ m ih =>
    rw [List.range'_succ, List.map_cons] at h
    have hequal : equal (fun a b : Int => a - b) (j : Int) s = none :=
      FiniteSet.equal_eq_none fun y hy => by
        have := hs y hy
        omega
    have hrest := h.2
    simp only [apply, hequal] at hrest
    have := ih (j := j + 1) (s := (j : Int) :: s) (fun y hy => ?_) hrest
    · rw [List.length_cons] at this
      omega
    · rcases List.mem_cons.mp hy with rfl | hy
      · omega
      · have := hs y hy
        omega

/-- With 2^31 items `n` has become negative. -/
theorem not_follows_range :
    ¬ Follows (fun a b : Int => a - b) (Sound fun a b : Int => a - b) newAvlTree []
      ((List.range' 0 (2 ^ 31)).map fun k : Nat => .insert (k : Int)) := by
  intro hrun
  have hsmall := staysBelow_of_follows_sound totalOrder_sub stores_newAvlTree hrun
  have hlen := hsmall.length_add_lt (fun y hy => absurd hy List.not_mem_nil)
  rw [List.length_nil] at hlen
  omega

end Sfcb.Avl
