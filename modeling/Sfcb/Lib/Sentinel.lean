import Mathlib.Logic.Function.Basic
import Sfcb.Lib.Ring

/-!
# Doubly linked lists between two sentinels

A list that is not a circle runs from a node in front of it to a node behind it. Both are
always there, so a node has two neighbours wherever it is, and no end needs a case of its own.

`Stretch.remove`, `Stretch.insert_front` and `Stretch.insert_back` are the changes: two pointers
are set around the place, and two more in a new node. `Stretch.retarget` is what they rest on:
a stretch is given another node to end at.
-/

namespace Sfcb.Lib

variable {α : Type} {next prev next' prev' : α → α} {a b c d e : α} {xs ys : List α}

/-- The node that follows on the one in front of a list. -/
def firstOf (xs : List α) (b : α) : α := xs.head?.getD b

/-- The node that comes before the one behind a list. -/
def lastOf (a : α) (xs : List α) : α := xs.getLast?.getD a

@[simp] theorem firstOf_nil (b : α) : firstOf [] b = b := rfl

@[simp] theorem firstOf_cons (c b : α) (xs : List α) : firstOf (c :: xs) b = c := rfl

@[simp] theorem lastOf_nil (a : α) : lastOf a [] = a := rfl

@[simp] theorem lastOf_concat (a c : α) (xs : List α) : lastOf a (xs ++ [c]) = c := by
  simp [lastOf]

theorem lastOf_cons (a c : α) (xs : List α) : lastOf a (c :: xs) = lastOf c xs := by
  cases xs with
  | nil => rfl
  | cons d xs => simp [lastOf, List.getLast?_cons]

theorem firstOf_mem (xs : List α) (b : α) : firstOf xs b ∈ xs ++ [b] := by
  cases xs with
  | nil => exact List.mem_cons_self
  | cons c xs => exact List.mem_cons_self

theorem lastOf_mem (a : α) (xs : List α) : lastOf a xs ∈ a :: xs := by
  induction xs generalizing a with
  | nil => exact List.mem_cons_self
  | cons c xs ih =>
    rw [lastOf_cons]
    exact List.mem_cons_of_mem _ (ih c)

theorem Stretch.next_first (h : Stretch next prev a xs b) : next a = firstOf xs b := by
  cases xs with
  | nil => exact h.1
  | cons c xs => exact h.1.1

theorem Stretch.prev_last (h : Stretch next prev a xs b) : prev b = lastOf a xs := by
  induction xs generalizing a with
  | nil => exact h.2
  | cons c xs ih =>
    rw [lastOf_cons]
    exact ih h.2

/-- The neighbours of a node. -/
theorem Stretch.neighbours (h : Stretch next prev a (xs ++ c :: ys) b) :
    prev c = lastOf a xs ∧ next c = firstOf ys b := by
  obtain ⟨hfront, hback⟩ := Stretch.append.mp h
  exact ⟨hfront.prev_last, hback.next_first⟩

/-- A stretch that ends at another node: the pointer of its last node is set, and that of the
new end. -/
theorem Stretch.retarget (h : Stretch next prev a xs c) (hnodup : (a :: xs).Nodup)
    (hnext : ∀ x ∈ a :: xs, x ≠ prev c → next' x = next x) (hend : next' (prev c) = d)
    (hprev : ∀ x ∈ xs, prev' x = prev x) (hback : prev' d = prev c) :
    Stretch next' prev' a xs d := by
  induction xs generalizing a with
  | nil =>
    obtain ⟨_, hc⟩ := h
    rw [hc] at hend hback
    exact ⟨hend, hback⟩
  | cons f xs ih =>
    obtain ⟨⟨hf, hf'⟩, hrest⟩ := h
    have ha : a ≠ prev c := by
      intro heq
      rw [hrest.prev_last] at heq
      exact (List.nodup_cons.mp hnodup).1 (heq ▸ lastOf_mem f xs)
    refine ⟨⟨?_, ?_⟩, ?_⟩
    · rw [hnext a List.mem_cons_self ha, hf]
    · rw [hprev f List.mem_cons_self, hf']
    · refine ih hrest (List.nodup_cons.mp hnodup).2 ?_ ?_
      · intro x hx
        exact hnext x (List.mem_cons_of_mem _ hx)
      · intro x hx
        exact hprev x (List.mem_cons_of_mem _ hx)

variable [DecidableEq α]

/-- A node is taken out, and its neighbours are linked to each other. -/
theorem Stretch.remove (h : Stretch next prev a (xs ++ c :: ys) b)
    (hnodup : (a :: (xs ++ c :: ys ++ [b])).Nodup) :
    Stretch (Function.update next (prev c) (next c)) (Function.update prev (next c) (prev c)) a
      (xs ++ ys) b := by
  obtain ⟨hfront, hback⟩ := Stretch.append.mp h
  have hperm : (a :: (xs ++ c :: ys ++ [b])).Perm ((a :: xs) ++ c :: (ys ++ [b])) := by simp
  rw [hperm.nodup_iff, List.nodup_append] at hnodup
  obtain ⟨hleft, hright, hdisjoint⟩ := hnodup
  have hnext : ∀ x ∈ a :: xs, x ≠ prev c → Function.update next (prev c) (next c) x = next x :=
    fun x _ hx => Function.update_of_ne hx _ _
  have hfirst : next c ∈ ys ++ [b] := hback.next_first ▸ firstOf_mem ys b
  have hlast : prev c ∈ a :: xs := hfront.prev_last ▸ lastOf_mem a xs
  have hprev : ∀ x ∈ xs, Function.update prev (next c) (prev c) x = prev x := by
    intro x hx
    apply Function.update_of_ne
    intro heq
    exact hdisjoint x (.tail _ hx) (next c) (.tail _ hfirst) heq
  have hjoined : Stretch (Function.update next (prev c) (next c))
      (Function.update prev (next c) (prev c)) a xs (next c) :=
    hfront.retarget hleft hnext (Function.update_self ..) hprev (Function.update_self ..)
  cases ys with
  | nil =>
    rw [hback.1] at hjoined
    rw [List.append_nil, hback.1]
    exact hjoined
  | cons d ys =>
    obtain ⟨⟨hd, _⟩, hrest⟩ := hback
    rw [hd] at hjoined hprev ⊢
    refine Stretch.append.mpr ⟨hjoined, hrest.congr ?_ ?_⟩
    · intro x hx
      apply Function.update_of_ne
      intro heq
      have hx : x ∈ c :: (d :: ys ++ [b]) :=
        List.mem_cons_of_mem _ (List.mem_append_left [b] hx)
      exact hdisjoint (prev c) hlast x hx heq.symm
    · intro x hx
      apply Function.update_of_ne
      intro heq
      have hd : d ∉ ys ++ [b] := (List.nodup_cons.mp (List.nodup_cons.mp hright).2).1
      exact hd (heq ▸ hx)

/-- A new node comes right behind the front. -/
theorem Stretch.insert_front (h : Stretch next prev a xs b) (hnodup : (a :: (xs ++ [b])).Nodup)
    (he : e ∉ a :: (xs ++ [b])) :
    Stretch (Function.update (Function.update next e (next a)) a e)
      (Function.update (Function.update prev e a) (next a) e) a (e :: xs) b := by
  have hfirst : next a ∈ xs ++ [b] := h.next_first ▸ firstOf_mem xs b
  have hea : e ≠ a := fun heq => he (heq ▸ List.mem_cons_self)
  have hef : e ≠ next a := fun heq => he (heq ▸ List.mem_cons_of_mem _ hfirst)
  refine ⟨⟨Function.update_self .., ?_⟩, ?_⟩
  · rw [Function.update_of_ne hef, Function.update_self]
  · cases xs with
    | nil =>
      rw [h.1]
      refine ⟨?_, Function.update_self ..⟩
      rw [Function.update_of_ne hea, Function.update_self]
    | cons c xs =>
      obtain ⟨⟨hc, _⟩, hrest⟩ := h
      rw [hc] at hef ⊢
      refine ⟨⟨?_, Function.update_self ..⟩, hrest.congr ?_ ?_⟩
      · rw [Function.update_of_ne hea, Function.update_self]
      · intro x hx
        have hxa : x ≠ a := by
          intro heq
          exact (List.nodup_cons.mp hnodup).1 (heq ▸ List.mem_append_left [b] hx)
        have hxe : x ≠ e := by
          intro heq
          exact he (heq ▸ List.mem_cons_of_mem _ (List.mem_append_left [b] hx))
        rw [Function.update_of_ne hxa, Function.update_of_ne hxe]
      · intro x hx
        have hxc : x ≠ c := by
          intro heq
          exact (List.nodup_cons.mp (List.nodup_cons.mp hnodup).2).1 (heq ▸ hx)
        have hxe : x ≠ e := by
          intro heq
          exact he (heq ▸ List.mem_cons_of_mem _ (List.mem_cons_of_mem _ hx))
        rw [Function.update_of_ne hxc, Function.update_of_ne hxe]

/-- A new node comes right before the end. -/
theorem Stretch.insert_back (h : Stretch next prev a xs b) (hnodup : (a :: (xs ++ [b])).Nodup)
    (he : e ∉ a :: (xs ++ [b])) :
    Stretch (Function.update (Function.update next e b) (prev b) e)
      (Function.update (Function.update prev e (prev b)) b e) a (xs ++ [e]) b := by
  have hlast : prev b ∈ a :: xs := h.prev_last ▸ lastOf_mem a xs
  have hmem : ∀ x ∈ a :: xs, x ∈ a :: (xs ++ [b]) := by
    intro x hx
    exact List.mem_append_left [b] hx
  have hel : e ≠ prev b := fun heq => he (heq ▸ hmem _ hlast)
  have heb : e ≠ b := by
    intro heq
    exact he (heq ▸ List.mem_cons_of_mem _ (List.mem_append_right _ List.mem_cons_self))
  have hfront : (a :: xs).Nodup := by
    rw [← List.cons_append] at hnodup
    exact (List.nodup_append.mp hnodup).1
  have hb : ∀ x ∈ xs, x ≠ b := by
    intro x hx heq
    have := (List.nodup_append.mp (List.nodup_cons.mp hnodup).2).2.2 x hx b List.mem_cons_self
    exact this heq
  refine Stretch.append.mpr ⟨h.retarget hfront ?_ (Function.update_self ..) ?_ ?_, ?_,
    Function.update_self ..⟩
  · intro x hx hxl
    have hxe : x ≠ e := fun heq => he (heq ▸ hmem x hx)
    rw [Function.update_of_ne hxl, Function.update_of_ne hxe]
  · intro x hx
    have hxe : x ≠ e := fun heq => he (heq ▸ hmem x (List.mem_cons_of_mem _ hx))
    rw [Function.update_of_ne (hb x hx), Function.update_of_ne hxe]
  · rw [Function.update_of_ne heb, Function.update_self]
  · rw [Function.update_of_ne hel, Function.update_self]

end Sfcb.Lib
