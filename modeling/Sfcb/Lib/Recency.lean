import Mathlib.Data.List.Nodup
import Mathlib.Data.List.Induction

/-!
# Least recently used

A list with the latest use in front is all that a cache has to keep: `recent` is that list for
some uses, each key once. A cache for `n` keys has its first `n`, and can go on from these alone
(`take_touch`). `foldl_touch` says how far a key can get to the back: no further than there are
other keys used behind it.
-/

namespace Sfcb.Lib

variable {κ : Type} [DecidableEq κ] {k : κ} {xs ks : List κ}

/-- A key is used. -/
def touch (xs : List κ) (k : κ) : List κ := k :: xs.erase k

/-- The keys that have been used, the latest first. -/
def recent (ks : List κ) : List κ := ks.foldl touch []

theorem nodup_touch (h : xs.Nodup) (k : κ) : (touch xs k).Nodup :=
  List.nodup_cons.mpr ⟨h.not_mem_erase, h.erase k⟩

theorem touch_of_notMem (h : k ∉ xs) : touch xs k = k :: xs := by
  rw [touch, List.erase_of_not_mem h]

theorem take_erase (k : κ) (xs : List κ) (n : Nat) :
    ((xs.take (n + 1)).erase k).take n = (xs.erase k).take n := by
  induction xs generalizing n with
  | nil => rfl
  | cons x xs ih =>
    rw [List.take_succ_cons]
    by_cases hx : x = k
    · rw [hx, List.erase_cons_head, List.erase_cons_head, List.take_take, Nat.min_self]
    · have hx' : ¬(x == k) = true := by simpa using hx
      rw [List.erase_cons_tail hx', List.erase_cons_tail hx']
      cases n with
      | zero => rfl
      | succ n => rw [List.take_succ_cons, List.take_succ_cons, ih]

/-- What is further back than the first keys does not matter to them. -/
theorem take_touch (xs : List κ) (k : κ) (n : Nat) :
    (touch (xs.take n) k).take n = (touch xs k).take n := by
  cases n with
  | zero => rfl
  | succ n => rw [touch, touch, List.take_succ_cons, List.take_succ_cons, take_erase]

theorem mem_touch {x : κ} : x ∈ touch xs k ↔ x = k ∨ x ∈ xs := by
  rw [touch, List.mem_cons]
  by_cases hx : x = k
  · simp [hx]
  · simp [hx, List.mem_erase_of_ne hx]

theorem recent_append_singleton (ks : List κ) (k : κ) : recent (ks ++ [k]) = touch (recent ks) k := by
  rw [recent, List.foldl_append]
  rfl

theorem nodup_recent (ks : List κ) : (recent ks).Nodup := by
  induction ks using List.reverseRecOn with
  | nil => exact List.nodup_nil
  | append_singleton ks k ih =>
    rw [recent_append_singleton]
    exact nodup_touch ih k

theorem mem_recent {x : κ} : x ∈ recent ks ↔ x ∈ ks := by
  induction ks using List.reverseRecOn with
  | nil => exact Iff.rfl
  | append_singleton ks k ih =>
    rw [recent_append_singleton, mem_touch, ih, List.mem_append, List.mem_singleton, or_comm]

/-- Later uses come in front of the keys that are not among them. -/
theorem foldl_touch (h : xs.Nodup) (ks : List κ) :
    ks.foldl touch xs = recent ks ++ xs.filter fun x => x ∉ ks := by
  induction ks using List.reverseRecOn with
  | nil => simp [recent]
  | append_singleton ks k ih =>
    rw [List.foldl_append, ih, recent_append_singleton]
    show touch _ k = touch _ k ++ _
    have hrest : (xs.filter fun x => x ∉ ks).erase k = xs.filter fun x => x ∉ ks ++ [k] := by
      rw [(h.filter _).erase_eq_filter, List.filter_filter]
      apply List.filter_congr
      intro x _
      rw [Bool.eq_iff_iff]
      simp [and_comm, not_or]
    by_cases hk : k ∈ recent ks
    · have hold : k ∉ xs.filter fun x => x ∉ ks := by
        rw [mem_recent] at hk
        simp [hk]
      rw [touch, touch, List.erase_append_left _ hk, ← hrest, List.erase_of_not_mem hold]
      rfl
    · rw [touch, touch, List.erase_append_right _ hk, hrest, List.erase_of_not_mem hk]
      rfl

/-- A key is among the first ones as long as fewer others have been used since. -/
theorem mem_take_recent {n : Nat} (ks later : List κ) (hn : (recent later).length < n) :
    k ∈ (recent (ks ++ k :: later)).take n := by
  have hsplit : recent (ks ++ k :: later) = later.foldl touch (touch (recent ks) k) := by
    rw [recent, List.foldl_append]
    rfl
  rw [hsplit, foldl_touch (nodup_touch (nodup_recent ks) k)]
  by_cases hk : k ∈ later
  · apply List.mem_of_mem_take (i := (recent later).length)
    rw [List.take_take, Nat.min_eq_left (by omega), List.take_left]
    exact mem_recent.mpr hk
  · rw [touch, List.filter_cons_of_pos (by simpa using hk), List.take_append]
    apply List.mem_append_right
    obtain ⟨m, hm⟩ := Nat.exists_eq_add_of_lt hn
    rw [show n - (recent later).length = m + 1 by omega, List.take_succ_cons]
    exact List.mem_cons_self

end Sfcb.Lib
