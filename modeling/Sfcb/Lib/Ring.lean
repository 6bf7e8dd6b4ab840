import Sfcb.Lib.CString

/-!
# Circular doubly linked lists

A doubly linked list in a memory is a pair of functions, `next` and `prev`, on the
addresses of its nodes. `Stretch next prev a l b` says that from `a` the nodes of `l`
follow, in this order, up to `b`, with both pointers right at every step; a ring is a
stretch from a node around to itself.

The lemmas are the ones a program that keeps such a list needs: a ring may be entered
at any of its nodes (`Ring.rotate`), taking a node out or putting one in leaves a ring
(`Ring.remove`, `Ring.insert`), and following `next` from any node reaches exactly the
nodes of the ring (`Ring.reaches_iff`).
-/

namespace Sfcb.Lib

variable {α : Type} {next prev next' prev' : α → α}

/-- From `a` over the nodes of `l` to `b`. -/
def Stretch (next prev : α → α) : α → List α → α → Prop
  | a, [], b => next a = b ∧ prev b = a
  | a, c :: l, b => (next a = c ∧ prev c = a) ∧ Stretch next prev c l b

theorem Stretch.append {a b c : α} {l m : List α} :
    Stretch next prev a (l ++ c :: m) b ↔
      Stretch next prev a l c ∧ Stretch next prev c m b := by
  induction l generalizing a with
  | nil => exact Iff.rfl
  | cons d l ih =>
    rw [List.cons_append, Stretch, Stretch, ih]
    exact and_assoc.symm

/-- A stretch stays where the memory changes elsewhere: `next` matters at the nodes it
leaves, `prev` at the nodes it comes to. -/
theorem Stretch.congr {a b : α} {l : List α} (h : Stretch next prev a l b)
    (hnext : ∀ x ∈ a :: l, next' x = next x) (hprev : ∀ x ∈ l ++ [b], prev' x = prev x) :
    Stretch next' prev' a l b := by
  induction l generalizing a with
  | nil =>
    obtain ⟨h1, h2⟩ := h
    exact ⟨by rw [hnext a List.mem_cons_self, h1], by rw [hprev b List.mem_cons_self, h2]⟩
  | cons c l ih =>
    obtain ⟨⟨h1, h2⟩, hrest⟩ := h
    refine ⟨⟨?_, ?_⟩, ih hrest ?_ ?_⟩
    · rw [hnext a List.mem_cons_self, h1]
    · rw [hprev c List.mem_cons_self, h2]
    · exact fun x hx => hnext x (List.mem_cons_of_mem _ hx)
    · exact fun x hx => hprev x (List.mem_cons_of_mem _ hx)

/-- Where `next` leads from a node of a stretch. -/
theorem Stretch.next_mem {a b x : α} {l : List α} (h : Stretch next prev a l b)
    (hx : x ∈ a :: l) : next x ∈ l ++ [b] := by
  induction l generalizing a with
  | nil =>
    rw [List.mem_singleton.mp hx, h.1]
    exact List.mem_cons_self
  | cons c l ih =>
    rcases List.mem_cons.mp hx with rfl | hx
    · rw [h.1.1]
      exact List.mem_cons_self
    · exact List.mem_cons_of_mem _ (ih h.2 hx)

/-- `next` and `prev` undo each other inside of a stretch. -/
theorem Stretch.prev_next {a b x : α} {l : List α} (h : Stretch next prev a l b)
    (hx : x ∈ a :: l) : prev (next x) = x := by
  induction l generalizing a with
  | nil => rw [List.mem_singleton.mp hx, h.1, h.2]
  | cons c l ih =>
    rcases List.mem_cons.mp hx with rfl | hx
    · rw [h.1.1, h.1.2]
    · exact ih h.2 hx

theorem Stretch.next_prev {a b x : α} {l : List α} (h : Stretch next prev a l b)
    (hx : x ∈ l ++ [b]) : next (prev x) = x := by
  induction l generalizing a with
  | nil => rw [List.mem_singleton.mp hx, h.2, h.1]
  | cons c l ih =>
    rcases List.mem_cons.mp hx with rfl | hx
    · rw [h.1.2, h.1.1]
    · exact ih h.2 hx

/-- The address `b` is reached from `a` by following `next`. -/
inductive Reaches (next : α → α) (a : α) : α → Prop where
  | here : Reaches next a a
  | step {b : α} : Reaches next a b → Reaches next a (next b)

theorem Reaches.trans {a b c : α} (hab : Reaches next a b) (hbc : Reaches next b c) :
    Reaches next a c := by
  induction hbc with
  | here => exact hab
  | step _ ih => exact ih.step

theorem Stretch.reaches {a b x : α} {l : List α} (h : Stretch next prev a l b)
    (hx : x ∈ a :: l) : Reaches next a x := by
  induction l generalizing a with
  | nil =>
    rw [List.mem_singleton.mp hx]
    exact .here
  | cons c l ih =>
    rcases List.mem_cons.mp hx with rfl | hx
    · exact .here
    · have hc : Reaches next a c := by
        rw [← h.1.1]
        exact Reaches.here.step
      exact hc.trans (ih h.2 hx)

/-- The nodes of a list, each once, in a circle. -/
structure Ring (next prev : α → α) (a : α) (l : List α) : Prop where
  nodup : (a :: l).Nodup
  stretch : Stretch next prev a l a

/-- A ring may be entered at any of its nodes. -/
theorem Ring.rotate {a b : α} {l m : List α} (h : Ring next prev a (l ++ b :: m)) :
    Ring next prev b (m ++ a :: l) := by
  refine ⟨?_, Stretch.append.mpr (Stretch.append.mp h.stretch).symm⟩
  have hperm : (b :: (m ++ a :: l)).Perm (a :: (l ++ b :: m)) :=
    @List.perm_append_comm _ (b :: m) (a :: l)
  exact hperm.nodup_iff.mpr h.nodup

/-- A ring entered at one of its nodes has the same nodes. -/
theorem Ring.enter {a b : α} {l : List α} (h : Ring next prev a l) (hb : b ∈ a :: l) :
    ∃ m, Ring next prev b m ∧ (b :: m).Perm (a :: l) := by
  rcases List.mem_cons.mp hb with rfl | hb
  · exact ⟨l, h, List.Perm.refl _⟩
  · obtain ⟨l₁, l₂, rfl⟩ := List.append_of_mem hb
    exact ⟨l₂ ++ a :: l₁, h.rotate, @List.perm_append_comm _ (b :: l₂) (a :: l₁)⟩

/-- From a node of a ring, `next` reaches the nodes of the ring and no others. -/
theorem Ring.reaches_iff {a x : α} {l : List α} (h : Ring next prev a l) :
    Reaches next a x ↔ x ∈ a :: l := by
  constructor
  · intro hx
    induction hx with
    | here => exact List.mem_cons_self
    | step _ ih =>
      have := h.stretch.next_mem ih
      rw [List.mem_append, List.mem_singleton] at this
      rcases this with hmem | rfl
      · exact List.mem_cons_of_mem _ hmem
      · exact List.mem_cons_self
  · exact h.stretch.reaches

/-- A ring of one node. -/
theorem Ring.single {a : α} (hnext : next a = a) (hprev : prev a = a) : Ring next prev a [] :=
  ⟨by simp, hnext, hprev⟩

theorem Ring.next_eq_self_iff {a : α} {l : List α} (h : Ring next prev a l) :
    next a = a ↔ l = [] := by
  cases l with
  | nil => exact iff_of_true h.stretch.1 rfl
  | cons c l =>
    rw [h.stretch.1.1]
    have : a ≠ c := fun he => (List.nodup_cons.mp h.nodup).1 (by simp [he])
    simp [Ne.symm this]

/-- Taking the node `c` out: its two neighbours are linked to each other. -/
theorem Ring.remove {c d : α} {m : List α} (h : Ring next prev c (d :: m))
    (hnext : ∀ x, x ≠ prev c → next' x = next x) (hnext' : next' (prev c) = next c)
    (hprev : ∀ x, x ≠ next c → prev' x = prev x) (hprev' : prev' (next c) = prev c) :
    Ring next' prev' d m := by
  have hnodup : (d :: m).Nodup := (List.nodup_cons.mp h.nodup).2
  obtain ⟨⟨hcd, -⟩, hrest⟩ := h.stretch
  refine ⟨hnodup, ?_⟩
  -- split off the last node, which is the one before `c`
  rcases m.eq_nil_or_concat with rfl | ⟨m', z, rfl⟩
  · obtain ⟨-, hcp⟩ := hrest
    rw [hcp, hcd] at hnext'
    rw [hcd, hcp] at hprev'
    exact ⟨hnext', hprev'⟩
  · rw [List.concat_eq_append] at hrest hnodup ⊢
    obtain ⟨hmid, -, hcz⟩ := Stretch.append.mp hrest
    rw [hcz, hcd] at hnext'
    rw [hcd, hcz] at hprev'
    refine Stretch.append.mpr ⟨hmid.congr ?_ ?_, hnext', hprev'⟩
    · intro x hx
      refine hnext x fun he => ?_
      rw [hcz] at he
      rw [← List.cons_append, List.nodup_append] at hnodup
      exact hnodup.2.2 x hx z List.mem_cons_self he
    · intro x hx
      refine hprev x fun he => ?_
      rw [hcd] at he
      exact (List.nodup_cons.mp hnodup).1 (he ▸ hx)

/-- Putting a new node `e` in behind `t`: the ring can be entered at `e`, and `t` is
its last node then. -/
theorem Ring.insert {t e : α} {l : List α} (h : Ring next prev t l) (he : e ∉ t :: l)
    (hnext : ∀ x, x ≠ t → x ≠ e → next' x = next x) (hnt : next' t = e) (hne : next' e = next t)
    (hprev : ∀ x, x ≠ next t → x ≠ e → prev' x = prev x) (hpt : prev' (next t) = e)
    (hpe : prev' e = t) : Ring next' prev' e (l ++ [t]) := by
  have hperm : (e :: (l ++ [t])).Perm (e :: t :: l) :=
    (@List.perm_append_comm _ l [t]).cons e
  refine ⟨hperm.nodup_iff.mpr (List.nodup_cons.mpr ⟨he, h.nodup⟩), ?_⟩
  have het : e ≠ t := fun h => he (List.mem_cons.mpr (Or.inl h))
  cases l with
  | nil =>
    rw [h.stretch.1] at hne hpt
    exact ⟨⟨hne, hpt⟩, hnt, hpe⟩
  -- the stretch behind `t` is as it was, except where it starts
  | cons d m =>
    obtain ⟨⟨htd, -⟩, hrest⟩ := h.stretch
    rw [htd] at hne hpt
    obtain ⟨htl, hdm⟩ := List.nodup_cons.mp h.nodup
    refine ⟨⟨hne, hpt⟩, Stretch.append.mpr ⟨hrest.congr ?_ ?_, hnt, hpe⟩⟩
    · intro x hx
      refine hnext x ?_ ?_
      · exact fun h => htl (h ▸ hx)
      · exact fun h => he (List.mem_cons_of_mem _ (h ▸ hx))
    · intro x hx
      rw [List.mem_append, List.mem_singleton] at hx
      refine hprev x (fun hxd => ?_) (fun hxe => ?_)
      · rw [htd] at hxd
        rcases hx with hx | rfl
        · exact (List.nodup_cons.mp hdm).1 (hxd ▸ hx)
        · exact htl (List.mem_cons.mpr (Or.inl hxd))
      · rcases hx with hx | rfl
        · exact he (List.mem_cons_of_mem _ (List.mem_cons_of_mem _ (hxe ▸ hx)))
        · exact het hxe.symm

end Sfcb.Lib
