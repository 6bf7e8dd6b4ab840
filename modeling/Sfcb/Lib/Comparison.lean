import Mathlib.Order.Lattice
import Mathlib.Data.List.Perm.Basic
import Mathlib.Data.List.Pairwise
import Mathlib.Order.Basic

/-!
# Finite sets under a comparison function

A comparison function answers with a number below, equal to or above zero. It need not tell
different items apart: two items are the same for a set when they compare equal. A finite
set is a list in any order of which no two items compare equal (`Distinct`); everything
here is about the items and not about their order, so a set may be stored in another one.
-/

namespace Sfcb.Lib

variable {α : Type}

/-- The comparison is that of a total order. -/
structure TotalOrder (compar : α → α → Int) : Prop where
  swap : ∀ a b, compar a b < 0 ↔ 0 < compar b a
  trans : ∀ a b c, compar a b ≤ 0 → compar b c ≤ 0 → compar a c ≤ 0

namespace TotalOrder

variable {compar : α → α → Int} (hc : TotalOrder compar) {a b c : α}
include hc

theorem self (a : α) : compar a a = 0 := by
  have := hc.swap a a
  omega

theorem eq_symm (h : compar a b = 0) : compar b a = 0 := by
  have := hc.swap a b
  have := hc.swap b a
  omega

theorem eq_of_le_of_le (hab : compar a b ≤ 0) (hba : compar b a ≤ 0) : compar a b = 0 := by
  have := hc.swap a b
  omega

theorem lt_of_le_of_lt (hab : compar a b ≤ 0) (hbc : compar b c < 0) : compar a c < 0 := by
  by_contra hac
  have hca : compar c a ≤ 0 := by
    have := hc.swap a c
    omega
  have hcb := hc.trans c a b hca hab
  have := (hc.swap b c).mp hbc
  omega

theorem lt_of_lt_of_le (hab : compar a b < 0) (hbc : compar b c ≤ 0) : compar a c < 0 := by
  by_contra hac
  have hca : compar c a ≤ 0 := by
    have := hc.swap a c
    omega
  have hba := hc.trans b c a hbc hca
  have := (hc.swap a b).mp hab
  omega

theorem lt_trans (hab : compar a b < 0) (hbc : compar b c < 0) : compar a c < 0 :=
  hc.lt_of_le_of_lt (by omega) hbc

/-- The order of what `f` gives. -/
theorem comap {β : Type} (f : β → α) : TotalOrder fun a b => compar (f a) (f b) :=
  ⟨fun a b => hc.swap (f a) (f b), fun a b c => hc.trans (f a) (f b) (f c)⟩

/-- The other way round. -/
theorem neg : TotalOrder fun a b => compar a b * -1 where
  swap a b := by
    have := hc.swap b a
    omega
  trans a b c hab hbc := by
    have hba := hc.swap a b
    have hcb := hc.swap b c
    have hca := hc.swap a c
    have := hc.trans c b a (by omega) (by omega)
    omega

end TotalOrder

/-! ## One comparison after the other -/

/-- The first comparison that is not zero decides. -/
def comparBy : List (α → α → Int) → α → α → Int
  | [], _, _ => 0
  | c :: cs, a, b => if c a b ≠ 0 then c a b else comparBy cs a b

theorem comparBy_eq_zero_iff {cs : List (α → α → Int)} {a b : α} :
    comparBy cs a b = 0 ↔ ∀ c ∈ cs, c a b = 0 := by
  induction cs with
  | nil => simp [comparBy]
  | cons c cs ih =>
    unfold comparBy
    by_cases h : c a b = 0
    · rw [if_neg (not_not.mpr h), ih]
      simp [h]
    · rw [if_pos h]
      simp [h]

theorem comparBy_append {cs ds : List (α → α → Int)} {a b : α} :
    comparBy (cs ++ ds) a b = if comparBy cs a b ≠ 0 then comparBy cs a b else comparBy ds a b := by
  induction cs with
  | nil => simp [comparBy]
  | cons c cs ih =>
    rw [List.cons_append, comparBy, comparBy]
    by_cases h : c a b = 0
    · rw [if_neg (not_not.mpr h), if_neg (not_not.mpr h), ih]
    · simp [h]

theorem totalOrder_comparBy {cs : List (α → α → Int)} (h : ∀ c ∈ cs, TotalOrder c) :
    TotalOrder (comparBy cs) := by
  induction cs with
  | nil => exact ⟨fun a b => by simp [comparBy], fun a b c _ _ => Int.le_refl 0⟩
  | cons c cs ih =>
    have hc := h c List.mem_cons_self
    have hcs := ih fun d hd => h d (List.mem_cons_of_mem _ hd)
    constructor
    · intro x y
      have hxy := hc.swap x y
      have hyx := hc.swap y x
      unfold comparBy
      by_cases hzero : c x y = 0
      · rw [if_neg (not_not.mpr hzero), if_neg (not_not.mpr (hc.eq_symm hzero)), hcs.swap]
      · rw [if_pos hzero, if_pos fun h => hzero (hc.eq_symm h), hxy]
    · intro x y z
      have hxy := hc.swap x y
      have hyz := hc.swap y z
      unfold comparBy
      intro h₁ h₂
      split at h₁
      · have hlt : c x y < 0 := by omega
        have hle : c y z ≤ 0 := by split at h₂ <;> omega
        have := hc.lt_of_lt_of_le hlt hle
        rw [if_pos (by omega)]
        omega
      next hzero =>
      have hzero : c x y = 0 := not_not.mp hzero
      split at h₂
      · have := hc.lt_of_le_of_lt (Int.le_of_eq hzero) (show c y z < 0 by omega)
        rw [if_pos (by omega)]
        omega
      next hzero' =>
      have hzero' : c y z = 0 := not_not.mp hzero'
      have hzx := hc.trans z y x (Int.le_of_eq (hc.eq_symm hzero'))
        (Int.le_of_eq (hc.eq_symm hzero))
      have hxz := hc.trans x y z (Int.le_of_eq hzero) (Int.le_of_eq hzero')
      rw [if_neg (not_not.mpr (hc.eq_of_le_of_le hxz hzx))]
      exact hcs.trans x y z h₁ h₂

theorem comparBy_comap {β : Type} (f : β → α) (cs : List (α → α → Int)) (a b : β) :
    comparBy (cs.map fun c a b => c (f a) (f b)) a b = comparBy cs (f a) (f b) := by
  induction cs with
  | nil => rfl
  | cons c cs ih =>
    rw [List.map_cons, comparBy, comparBy, ih]

/-- The comparison of values of a linear order. -/
def threeWay {β : Type} [LinearOrder β] (a b : β) : Int :=
  if a = b then 0 else if a < b then -1 else 1

theorem totalOrder_threeWay {β : Type} [LinearOrder β] : TotalOrder (@threeWay β _) where
  swap a b := by
    unfold threeWay
    obtain h | h | h := lt_trichotomy a b
    · simp [h, h.ne, h.ne', h.not_gt]
    · simp [h]
    · simp [h, h.ne, h.ne', h.not_gt]
  trans a b c := by
    have hle : ∀ x y : β, threeWay x y ≤ 0 ↔ x ≤ y := by
      intro x y
      unfold threeWay
      obtain h | h | h := lt_trichotomy x y
      · simp [h, h.ne, h.le]
      · simp [h]
      · simp [h.ne', h.not_gt, h.not_ge]
    rw [hle, hle, hle]
    exact le_trans

/-! ## Lists item by item -/

/-- Two lists as their first items that differ. -/
def lexCompar (compar : α → α → Int) : List α → List α → Int
  | a :: as, b :: bs => if compar a b ≠ 0 then compar a b else lexCompar compar as bs
  | _, _ => 0

section Lex

variable {compar : α → α → Int} (hc : TotalOrder compar)
include hc

theorem lexCompar_swap (as bs : List α) :
    lexCompar compar as bs < 0 ↔ 0 < lexCompar compar bs as := by
  induction as generalizing bs with
  | nil => cases bs <;> simp [lexCompar]
  | cons a as ih =>
    cases bs with
    | nil => simp [lexCompar]
    | cons b bs =>
      unfold lexCompar
      by_cases hab : compar a b = 0
      · rw [if_neg (not_not.mpr hab), if_neg (not_not.mpr (hc.eq_symm hab)), ih bs]
      · rw [if_pos hab, if_pos fun hba => hab (hc.eq_symm hba), hc.swap]

theorem lexCompar_trans {as bs cs : List α} (hab : as.length = bs.length)
    (hbc : bs.length = cs.length) (h₁ : lexCompar compar as bs ≤ 0)
    (h₂ : lexCompar compar bs cs ≤ 0) : lexCompar compar as cs ≤ 0 := by
  induction as generalizing bs cs with
  | nil => simp [lexCompar]
  | cons a as ih =>
    obtain ⟨b, bs, rfl⟩ := List.exists_cons_of_length_eq_add_one hab.symm
    obtain ⟨c, cs, rfl⟩ := List.exists_cons_of_length_eq_add_one hbc.symm
    unfold lexCompar at h₁ h₂ ⊢
    by_cases hzero : compar a b = 0
    · rw [if_neg (not_not.mpr hzero)] at h₁
      have hba := hc.eq_symm hzero
      by_cases hzero' : compar b c = 0
      · rw [if_neg (not_not.mpr hzero')] at h₂
        have hcb := hc.eq_symm hzero'
        have hac : compar a c = 0 := hc.eq_of_le_of_le (hc.trans a b c (by omega) (by omega))
          (hc.trans c b a (by omega) (by omega))
        rw [if_neg (not_not.mpr hac)]
        exact ih (by simpa using hab) (by simpa using hbc) h₁ h₂
      · rw [if_pos hzero'] at h₂
        have hlt : compar b c < 0 := by omega
        have hac : compar a c < 0 := hc.lt_of_le_of_lt (Int.le_of_eq hzero) hlt
        rw [if_pos (by omega)]
        omega
    · rw [if_pos hzero] at h₁
      have hbc : compar b c ≤ 0 := by
        by_cases hzero' : compar b c = 0
        · exact Int.le_of_eq hzero'
        · rw [if_pos hzero'] at h₂
          exact h₂
      have hac : compar a c < 0 := hc.lt_of_lt_of_le (by omega) hbc
      rw [if_pos (by omega)]
      omega

theorem lexCompar_eq_zero_iff (heq : ∀ a b, compar a b = 0 → a = b) {as bs : List α}
    (hlen : as.length = bs.length) : lexCompar compar as bs = 0 ↔ as = bs := by
  induction as generalizing bs with
  | nil => simp [lexCompar, List.length_eq_zero_iff.mp hlen.symm]
  | cons a as ih =>
    obtain ⟨b, bs, rfl⟩ := List.exists_cons_of_length_eq_add_one hlen.symm
    unfold lexCompar
    by_cases hzero : compar a b = 0
    · rw [if_neg (not_not.mpr hzero), ih (by simpa using hlen), heq a b hzero]
      simp
    · rw [if_pos hzero]
      refine ⟨fun h => absurd h hzero, fun h => ?_⟩
      rw [(List.cons.inj h).1] at hzero
      exact absurd (hc.self b) hzero

end Lex

namespace FiniteSet

variable (compar : α → α → Int) {s s' : List α} {x y : α}

/-- Items that compare equal are the same item. -/
def Distinct (s : List α) : Prop :=
  ∀ a ∈ s, ∀ b ∈ s, compar a b = 0 → a = b

/-- The item that compares equal to `x`. -/
def equal (x : α) (s : List α) : Option α :=
  s.find? fun y => compar x y = 0

/-- The item that no other one is below. -/
def least (s : List α) : Option α :=
  s.find? fun y => s.all fun z => compar y z ≤ 0

/-- The set without the item that compares equal to `x`. -/
def remove (x : α) (s : List α) : List α :=
  s.filter fun y => compar x y ≠ 0

variable {compar}

/-- What is searched for is found, in whatever order, when there is only one of it. -/
theorem find?_eq_some_of_unique {p : α → Bool} (hy : y ∈ s) (hp : p y = true)
    (hunique : ∀ z ∈ s, p z = true → z = y) : s.find? p = some y := by
  cases hfind : s.find? p with
  | none => exact absurd hp (List.find?_eq_none.mp hfind y hy)
  | some z => rw [hunique z (List.mem_of_find?_eq_some hfind) (List.find?_some hfind)]

theorem equal_eq_none (h : ∀ y ∈ s, compar x y ≠ 0) : equal compar x s = none :=
  List.find?_eq_none.mpr fun y hy => by simpa using h y hy

/-- Where only one item compares equal, it is the one that goes. -/
theorem remove_append_cons {u v : List α} (hy : compar x y = 0)
    (hother : ∀ z ∈ u ++ v, compar x z ≠ 0) : remove compar x (u ++ y :: v) = u ++ v := by
  have hkeep : (u ++ v).filter (fun y => compar x y ≠ 0) = u ++ v :=
    List.filter_eq_self.mpr fun z hz => by simpa using hother z hz
  simpa [remove, hy] using hkeep

theorem remove_eq_self (h : ∀ y ∈ s, compar x y ≠ 0) : remove compar x s = s :=
  List.filter_eq_self.mpr fun y hy => by simpa using h y hy

theorem perm_remove (x : α) (hp : s.Perm s') : (remove compar x s).Perm (remove compar x s') :=
  hp.filter _

section Ordered

variable (hc : TotalOrder compar)
include hc

theorem distinct_of_ordered (h : s.Pairwise fun a b => compar a b < 0) : Distinct compar s := by
  have hforward : s.Pairwise fun a b => compar a b = 0 → a = b :=
    h.imp fun hab heq => by omega
  have hbackward : s.Pairwise (flip fun a b => compar a b = 0 → a = b) :=
    h.imp fun {a b} hab (heq : compar b a = 0) => by
      have := (hc.swap a b).mp hab
      omega
  exact fun a ha b hb =>
    hforward.forall_of_forall_of_flip (fun a _ _ => rfl) hbackward ha hb

theorem equal_eq_some (hs : Distinct compar s) (hy : y ∈ s) (hxy : compar x y = 0) :
    equal compar x s = some y := by
  refine find?_eq_some_of_unique hy (by simpa using hxy) fun z hz hxz => ?_
  have hxz : compar x z = 0 := by simpa using hxz
  have hyx := hc.eq_symm hxy
  have hzx := hc.eq_symm hxz
  have hyz := hc.trans y x z (by omega) (by omega)
  have hzy := hc.trans z x y (by omega) (by omega)
  exact hs z hz y hy (hc.eq_of_le_of_le hzy hyz)

theorem least_eq_some (hs : Distinct compar s) (hy : y ∈ s) (hmin : ∀ z ∈ s, compar y z ≤ 0) :
    least compar s = some y := by
  refine find?_eq_some_of_unique hy (by simpa using hmin) fun z hz hzmin => ?_
  have hzmin : ∀ w ∈ s, compar z w ≤ 0 := by simpa using hzmin
  exact hs z hz y hy (hc.eq_of_le_of_le (hzmin y hy) (hmin z hz))

end Ordered

end FiniteSet

end Sfcb.Lib
