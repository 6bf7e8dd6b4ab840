import Mathlib.Data.List.Nodup

/-!
# Lists whose elements have keys

A list is read by the keys of its elements, and the first element with a key counts. `place` is
where an element with a key stands, or would be appended. `writeBy` writes an element in the
place of its key, or appends it.
-/

namespace Sfcb.Lib

variable {α κ : Type} [DecidableEq κ]

/-- The first element with a key. -/
def lookupBy (key : α → κ) (l : List α) (k : κ) : Option α := l.find? fun a => key a = k

/-- The place of the first element with a key, or the one behind the list. -/
def place (key : α → κ) (l : List α) (k : κ) : Nat := (l.map key).idxOf k

/-- An element is written in the place of its key, or as a new one. -/
def writeBy (key : α → κ) (l : List α) (a : α) : List α :=
  match lookupBy key l (key a) with
  | none => l ++ [a]
  | some _ => l.set (place key l (key a)) a

section Lookup

variable {key : α → κ} {l : List α} {a b : α} {k : κ}

@[simp] theorem lookupBy_nil : lookupBy key [] k = none := rfl

theorem lookupBy_cons (a : α) (l : List α) (k : κ) :
    lookupBy key (a :: l) k = if key a = k then some a else lookupBy key l k := by
  unfold lookupBy
  rw [List.find?_cons]
  by_cases h : key a = k <;> simp [h]

theorem lookupBy_append (l l' : List α) (k : κ) :
    lookupBy key (l ++ l') k = (lookupBy key l k).or (lookupBy key l' k) := List.find?_append

theorem lookupBy_eq_none_iff : lookupBy key l k = none ↔ k ∉ l.map key := by
  unfold lookupBy
  rw [List.find?_eq_none]
  simp

theorem mem_of_lookupBy (h : lookupBy key l k = some a) : a ∈ l ∧ key a = k :=
  ⟨List.mem_of_find?_eq_some h, by simpa using List.find?_some h⟩

theorem lookupBy_of_mem (hl : (l.map key).Nodup) (ha : a ∈ l) :
    lookupBy key l (key a) = some a := by
  induction l with
  | nil => cases ha
  | cons b l ih =>
    rw [List.map_cons, List.nodup_cons] at hl
    rw [lookupBy_cons]
    rcases List.mem_cons.mp ha with rfl | ha
    · rw [if_pos rfl]
    · have hne : key b ≠ key a := by
        intro heq
        exact hl.1 (heq ▸ List.mem_map_of_mem ha)
      rw [if_neg hne]
      exact ih hl.2 ha

theorem lookupBy_map {f : α → α} (hf : ∀ a, key (f a) = key a) (l : List α) (k : κ) :
    lookupBy key (l.map f) k = (lookupBy key l k).map f := by
  induction l with
  | nil => rfl
  | cons a l ih =>
    rw [List.map_cons, lookupBy_cons, lookupBy_cons, hf, ih]
    split <;> rfl

theorem place_map {f : α → α} (hf : ∀ a, key (f a) = key a) (l : List α) (k : κ) :
    place key (l.map f) k = place key l k := by
  have hkeys : (l.map f).map key = l.map key := by
    rw [List.map_map]
    exact List.map_congr_left fun a _ => hf a
  rw [place, hkeys]
  rfl

theorem place_cons (a : α) (l : List α) (k : κ) :
    place key (a :: l) k = if key a = k then 0 else place key l k + 1 := by
  by_cases h : key a = k <;> simp [place, h]

theorem getElem?_place (key : α → κ) (l : List α) (k : κ) :
    l[place key l k]? = lookupBy key l k := by
  induction l with
  | nil => rfl
  | cons a l ih =>
    rw [lookupBy_cons, place_cons]
    split
    · rfl
    · exact ih

theorem place_eq_length (h : lookupBy key l k = none) : place key l k = l.length := by
  rw [place, List.idxOf_eq_length (lookupBy_eq_none_iff.mp h), List.length_map]

theorem place_congr {l l' : List α} (h : l.map key = l'.map key) (k : κ) :
    place key l k = place key l' k := by
  rw [place, h]
  rfl

theorem place_append_of_some (h : lookupBy key l k = some a) (l' : List α) :
    place key (l ++ l') k = place key l k := by
  obtain ⟨ha, hk⟩ := mem_of_lookupBy h
  rw [place, List.map_append, List.idxOf_append_of_mem (hk ▸ List.mem_map_of_mem ha)]
  rfl

/-- An element with a new key stands behind the list. -/
theorem place_append_cons_of_none (h : lookupBy key l k = none) (ha : key a = k) (l' : List α) :
    place key (l ++ a :: l') k = l.length := by
  rw [place, List.map_append, List.idxOf_append, if_neg (lookupBy_eq_none_iff.mp h)]
  simp [ha]

/-- An element written in the place of its key. -/
theorem lookupBy_set (h : lookupBy key l k = some b) (ha : key a = k) (k' : κ) :
    lookupBy key (l.set (place key l k) a) k' = if k' = k then some a else lookupBy key l k' := by
  induction l with
  | nil => cases h
  | cons c l ih =>
    rw [lookupBy_cons] at h
    by_cases hc : key c = k
    · rw [place_cons, if_pos hc, List.set_cons_zero, lookupBy_cons, lookupBy_cons, ha, hc]
      by_cases hk : k = k'
      · simp [hk]
      · simp [hk, Ne.symm hk]
    · rw [if_neg hc] at h
      rw [place_cons, if_neg hc, List.set_cons_succ, lookupBy_cons, lookupBy_cons, ih h]
      by_cases hk : key c = k'
      · have hne : k' ≠ k := fun heq => hc (hk.trans heq)
        simp [hk, hne]
      · simp [hk]

theorem set_place_self (h : lookupBy key l k = some a) : l.set (place key l k) a = l := by
  obtain ⟨hlt, hget⟩ := List.getElem?_eq_some_iff.mp ((getElem?_place key l k).trans h)
  have hset : l.set (place key l k) l[place key l k] = l := List.set_getElem_self hlt
  rwa [hget] at hset

theorem keys_set (h : lookupBy key l k = some b) (ha : key a = k) :
    (l.set (place key l k) a).map key = l.map key := by
  have hb := (mem_of_lookupBy h).2
  obtain ⟨hlt, hget⟩ := List.getElem?_eq_some_iff.mp ((getElem?_place key l k).trans h)
  rw [List.map_set, ha]
  refine List.ext_getElem? fun i => ?_
  rw [List.getElem?_set]
  split
  · next heq =>
    subst heq
    rw [List.length_map, if_pos hlt, List.getElem?_map, getElem?_place, h, Option.map_some, hb]
  · rfl

theorem lookupBy_writeBy (l : List α) (a : α) (k : κ) :
    lookupBy key (writeBy key l a) k = if k = key a then some a else lookupBy key l k := by
  unfold writeBy
  split
  · next hnone =>
    rw [lookupBy_append, lookupBy_cons, lookupBy_nil]
    by_cases hk : k = key a
    · subst hk
      simp [hnone]
    · simp [hk, Ne.symm hk]
  · next b hsome => exact lookupBy_set hsome rfl k

theorem keys_writeBy (l : List α) (a : α) :
    (writeBy key l a).map key =
      if (lookupBy key l (key a)).isSome then l.map key else l.map key ++ [key a] := by
  unfold writeBy
  split
  · next hnone => simp [hnone]
  · next b hsome =>
    rw [keys_set hsome rfl, hsome]
    rfl

theorem nodup_writeBy (h : (l.map key).Nodup) (a : α) : ((writeBy key l a).map key).Nodup := by
  rw [keys_writeBy]
  split
  · exact h
  · next hnone =>
    rw [Option.not_isSome_iff_eq_none, lookupBy_eq_none_iff] at hnone
    exact List.nodup_append.mpr ⟨h, List.nodup_singleton _, fun x hx y hy heq =>
      hnone (List.mem_singleton.mp hy ▸ heq ▸ hx)⟩

theorem mem_writeBy (h : b ∈ writeBy key l a) : b ∈ l ∨ b = a := by
  unfold writeBy at h
  split at h
  · rw [List.mem_append, List.mem_singleton] at h
    exact h
  · exact List.mem_or_eq_of_mem_set h

end Lookup

end Sfcb.Lib
