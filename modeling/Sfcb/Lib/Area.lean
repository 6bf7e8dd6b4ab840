/-!
# Memory areas

An allocated area is the list of its cells, so its size is the list's length. A
write that does not lie inside the area fails; `resize` is `realloc`, whose new
cells hold whatever was there (`junk`). `doubleUntil` is the usual growth loop.
-/

namespace Sfcb.Lib

section Area

variable {α : Type}

/-- Stores `xs` from `pos` on; `none` if that is not inside the area. -/
def writeAt (area : List α) (pos : Nat) (xs : List α) : Option (List α) :=
  if pos + xs.length ≤ area.length then
    some (area.take pos ++ (xs ++ area.drop (pos + xs.length)))
  else none

/-- `realloc` to `n` cells. -/
def resize (area : List α) (n : Nat) (junk : α) : List α :=
  area.take n ++ List.replicate (n - area.length) junk

/-- A write inside the area puts the cells in place and leaves those in front. -/
theorem writeAt_spec (area : List α) (pos : Nat) (xs : List α)
    (h : pos + xs.length ≤ area.length) :
    ∃ area', writeAt area pos xs = some area' ∧ area'.length = area.length ∧
      area'.take (pos + xs.length) = area.take pos ++ xs := by
  have hpos : (area.take pos).length = pos := by
    rw [List.length_take]
    omega
  refine ⟨_, if_pos h, ?_, ?_⟩
  · simp only [List.length_append, List.length_take, List.length_drop]
    omega
  · have hfront : (area.take pos ++ (xs ++ area.drop (pos + xs.length))).take (pos + xs.length)
        = (area.take pos ++ xs ++ area.drop (pos + xs.length)).take
          (area.take pos ++ xs).length := by
      rw [List.length_append, hpos, List.append_assoc]
    rw [hfront, List.take_left]

@[simp] theorem length_resize (area : List α) (n : Nat) (junk : α) :
    (resize area n junk).length = n := by
  simp only [resize, List.length_append, List.length_take, List.length_replicate]
  omega

/-- What fits into the new area is kept. -/
theorem take_resize {area : List α} {k n : Nat} (junk : α) (hk : k ≤ area.length) (hn : k ≤ n) :
    (resize area n junk).take k = area.take k := by
  rw [resize, List.take_append_of_le_length (by rw [List.length_take]; omega), List.take_take]
  congr 1
  omega

end Area

/-- `while (need >= size) size *= 2`, at most `fuel` times. -/
def doubleUntil (need : Nat) : (fuel size : Nat) → Nat
  | 0, size => size
  | fuel + 1, size => if need ≥ size then doubleUntil need fuel (size * 2) else size

/-- The loop run to its end: a size that is not zero passes `need` in `need` rounds. -/
def growTo (need size : Nat) : Nat := doubleUntil need (need + 1) size

theorem doubleUntil_spec (need : Nat) :
    ∀ fuel size, 0 < size → need < size + fuel →
      need < doubleUntil need fuel size ∧ size ≤ doubleUntil need fuel size := by
  intro fuel
  induction fuel with
  | zero => intro size _ h; exact ⟨h, Nat.le_refl _⟩
  | succ fuel ih =>
    intro size hpos h
    simp only [doubleUntil]
    split
    · have hih := ih (size * 2) (by omega) (by omega)
      exact ⟨hih.1, by omega⟩
    · exact ⟨by omega, Nat.le_refl _⟩

theorem growTo_spec (need size : Nat) (h : 0 < size) :
    need < growTo need size ∧ size ≤ growTo need size :=
  doubleUntil_spec need (need + 1) size h (by omega)

end Sfcb.Lib
