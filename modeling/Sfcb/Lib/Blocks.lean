import Mathlib.Algebra.Ring.Nat
import Mathlib.Data.List.Basic

/-!
# Blocks in an area

Blocks are written into an area of memory. What was written is kept in order, each block
with the offset it starts at. A block can be loaded where it starts, as long as nothing
that was written later lies over it (`load`).

`Packed start stop writes` says that the blocks lie one behind the other between two
offsets. Then every block is inside, no two overlap, and all of them can be loaded
(`Packed.load_eq`). Both ends can be moved apart (`Packed.mono`), and what is written
behind is appended (`Packed.append`).
-/

namespace Sfcb.Lib.Blocks

variable {β : Type}

/-- Two stretches of memory have no byte in common. -/
def apart (o n o' n' : Nat) : Prop := o + n ≤ o' ∨ o' + n' ≤ o

instance (o n o' n' : Nat) : Decidable (apart o n o' n') := inferInstanceAs (Decidable (_ ∨ _))

/-- The block that starts there. -/
def load (size : β → Nat) : List (Nat × β) → (ofs : Nat) → Option β
  | [], _ => none
  | (o, b) :: later, ofs =>
    if o = ofs then
      -- what lies over it later destroys it
      if ∀ x ∈ later, apart o (size b) x.1 (size x.2) then some b else none
    else load size later ofs

/-- A change in place. -/
def update (f : β → β) (ofs : Nat) (writes : List (Nat × β)) : List (Nat × β) :=
  writes.map fun x => if x.1 = ofs then (x.1, f x.2) else x

/-- The blocks lie one behind the other, and none is empty. -/
def Packed (size : β → Nat) : (start stop : Nat) → List (Nat × β) → Prop
  | start, stop, [] => start ≤ stop
  | start, stop, (o, b) :: writes => start ≤ o ∧ 0 < size b ∧ Packed size (o + size b) stop writes

namespace Packed

variable {size : β → Nat} {start mid stop ofs : Nat} {b : β} {writes writes' : List (Nat × β)}

theorem le (h : Packed size start stop writes) : start ≤ stop := by
  induction writes generalizing start with
  | nil => exact h
  | cons x writes ih =>
    obtain ⟨hle, hpos, hrest⟩ := h
    have := ih hrest
    omega

theorem mono {start' stop' : Nat} (h : Packed size start stop writes) (hstart : start' ≤ start)
    (hstop : stop ≤ stop') : Packed size start' stop' writes := by
  induction writes generalizing start start' with
  | nil => exact Nat.le_trans (Nat.le_trans hstart h) hstop
  | cons x writes ih =>
    obtain ⟨hle, hpos, hrest⟩ := h
    exact ⟨Nat.le_trans hstart hle, hpos, ih hrest (Nat.le_refl _)⟩

/-- What is written behind. -/
theorem append (h : Packed size start mid writes) (h' : Packed size mid stop writes') :
    Packed size start stop (writes ++ writes') := by
  induction writes generalizing start with
  | nil => exact h'.mono h (Nat.le_refl _)
  | cons x writes ih =>
    obtain ⟨hle, hpos, hrest⟩ := h
    exact ⟨hle, hpos, ih hrest⟩

theorem single (hpos : 0 < size b) : Packed size ofs (ofs + size b) [(ofs, b)] :=
  ⟨Nat.le_refl _, hpos, Nat.le_refl _⟩

/-- All blocks are inside. -/
theorem inside (h : Packed size start stop writes) :
    ∀ x ∈ writes, start ≤ x.1 ∧ x.1 + size x.2 ≤ stop := by
  induction writes generalizing start with
  | nil => exact fun x hx => absurd hx List.not_mem_nil
  | cons y writes ih =>
    obtain ⟨hle, hpos, hrest⟩ := h
    intro x hx
    rcases List.mem_cons.mp hx with rfl | hx
    · exact ⟨hle, hrest.le⟩
    · obtain ⟨hlow, hhigh⟩ := ih hrest x hx
      exact ⟨by omega, hhigh⟩

/-- No two blocks overlap. -/
theorem pairwise (h : Packed size start stop writes) :
    writes.Pairwise fun x y => apart x.1 (size x.2) y.1 (size y.2) := by
  induction writes generalizing start with
  | nil => exact List.Pairwise.nil
  | cons x writes ih =>
    obtain ⟨-, -, hrest⟩ := h
    exact List.pairwise_cons.mpr ⟨fun y hy => Or.inl (hrest.inside y hy).1, ih hrest⟩

/-- The blocks together are not larger than the stretch they lie in. -/
theorem sum_le (h : Packed size start stop writes) :
    start + (writes.map fun x => size x.2).sum ≤ stop := by
  induction writes generalizing start with
  | nil => exact h
  | cons x writes ih =>
    obtain ⟨hle, -, hrest⟩ := h
    have := ih hrest
    rw [List.map_cons, List.sum_cons]
    omega

/-- Every block can be loaded. -/
theorem load_eq (h : Packed size start stop writes) (hmem : (ofs, b) ∈ writes) :
    load size writes ofs = some b := by
  induction writes generalizing start with
  | nil => exact absurd hmem List.not_mem_nil
  | cons x writes ih =>
    obtain ⟨o, c⟩ := x
    have hpairs := List.pairwise_cons.mp h.pairwise
    obtain ⟨-, hpos, hrest⟩ := h
    unfold load
    rcases List.mem_cons.mp hmem with heq | hmem
    · obtain ⟨rfl, rfl⟩ := Prod.mk.inj heq
      rw [if_pos rfl, if_pos hpairs.1]
    · -- it starts behind the first block, so it is another one
      have hlow : o + size c ≤ ofs := (hrest.inside _ hmem).1
      rw [if_neg (by omega)]
      exact ih hrest hmem

/-- Changes in place that keep the size. -/
theorem update {f : β → β} (hsize : ∀ b, size (f b) = size b)
    (h : Packed size start stop writes) : Packed size start stop (update f ofs writes) := by
  induction writes generalizing start with
  | nil => exact h
  | cons x writes ih =>
    obtain ⟨hle, hpos, hrest⟩ := h
    unfold Blocks.update
    rw [List.map_cons]
    split
    · exact ⟨hle, by rwa [hsize], by rw [hsize]; exact ih hrest⟩
    · exact ⟨hle, hpos, ih hrest⟩

end Packed

/-- Where a block was written, no other one can be loaded. -/
theorem load_unique {size : β → Nat} {ofs : Nat} {b c : β} {writes : List (Nat × β)}
    (hpos : ∀ x ∈ writes, 0 < size x.2) (hmem : (ofs, b) ∈ writes)
    (h : load size writes ofs = some c) : c = b := by
  induction writes with
  | nil => exact absurd hmem List.not_mem_nil
  | cons x writes ih =>
    obtain ⟨o, d⟩ := x
    have hd : 0 < size d := hpos _ List.mem_cons_self
    have hb : 0 < size b := hpos _ hmem
    unfold load at h
    rcases List.mem_cons.mp hmem with heq | hmem
    · obtain ⟨rfl, rfl⟩ := Prod.mk.inj heq
      rw [if_pos rfl] at h
      exact (Option.some.inj (Option.ite_none_right_eq_some.mp h).2).symm
    · split at h
      · next heq =>
        -- both start there, so the later one lies over the first
        have hapart : apart o (size d) ofs (size b) :=
          (Option.ite_none_right_eq_some.mp h).1 _ hmem
        unfold apart at hapart
        omega
      · exact ih (fun y hy => hpos y (List.mem_cons_of_mem _ hy)) hmem h

/-- The block that is changed. -/
theorem mem_update_self {f : β → β} {ofs : Nat} {b : β} {writes : List (Nat × β)}
    (h : (ofs, b) ∈ writes) : (ofs, f b) ∈ update f ofs writes :=
  List.mem_map.mpr ⟨(ofs, b), h, if_pos rfl⟩

/-- A block that the change does not concern. -/
theorem mem_update_of_fixed {f : β → β} {ofs : Nat} {x : Nat × β} {writes : List (Nat × β)}
    (h : x ∈ writes) (hfix : f x.2 = x.2) : x ∈ update f ofs writes := by
  refine List.mem_map.mpr ⟨x, h, ?_⟩
  split
  · rw [hfix]
  · rfl

end Sfcb.Lib.Blocks
