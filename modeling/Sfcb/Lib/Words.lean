import Mathlib.Data.List.TakeWhile

/-!
# The words of a text

What is left of a text where it is cut at every separator, without the empty pieces. A text is
its separators in front, the first word, and what starts with a separator again
(`words_eq_cons_iff`).
-/

namespace Sfcb.Lib

variable {α : Type} {sep : α → Bool} {c : α} {s t w : List α} {ws : List (List α)}

/-- The words between separators. -/
def words (sep : α → Bool) (s : List α) : List (List α) :=
  (s.splitOnP sep).filter fun w => !w.isEmpty

theorem words_nil : words sep [] = [] := by
  simp [words]

/-- Everything else follows from this. -/
theorem words_append_cons (hc : sep c = true) :
    words sep (s ++ c :: t) = words sep s ++ words sep t := by
  unfold words
  rw [List.splitOnP_append_cons s t hc, List.filter_append]

theorem words_cons (hc : sep c = true) : words sep (c :: t) = words sep t := by
  have h := words_append_cons (s := []) (t := t) hc
  rwa [words_nil, List.nil_append, List.nil_append] at h

theorem words_append (hs : ∀ b ∈ s, sep b = true) : words sep (s ++ t) = words sep t := by
  induction s with
  | nil => rfl
  | cons b s ih =>
    rw [List.cons_append, words_cons (hs b List.mem_cons_self)]
    exact ih fun b' hb' => hs b' (List.mem_cons_of_mem b hb')

theorem words_eq_nil (hs : ∀ b ∈ s, sep b = true) : words sep s = [] := by
  have h := words_append (t := []) hs
  rwa [List.append_nil, words_nil] at h

theorem words_singleton (hne : w ≠ []) (hw : ∀ b ∈ w, sep b = false) : words sep w = [w] := by
  unfold words
  rw [List.splitOnP_eq_singleton hw]
  simp [hne]

/-- A word, if it is the first, is followed by the others. -/
theorem words_word_cons (hne : w ≠ []) (hw : ∀ b ∈ w, sep b = false) (hc : sep c = true) :
    words sep (w ++ c :: t) = w :: words sep t := by
  rw [words_append_cons hc, words_singleton hne hw]
  rfl

/-- What starts with a separator, if with anything. -/
def StartsWithSep (sep : α → Bool) (t : List α) : Prop := ∀ b ∈ t.head?, sep b = true

theorem words_word_append (hne : w ≠ []) (hw : ∀ b ∈ w, sep b = false)
    (ht : StartsWithSep sep t) : words sep (w ++ t) = w :: words sep t := by
  cases t with
  | nil => rw [List.append_nil, words_singleton hne hw, words_nil]
  | cons c t =>
    have hc : sep c = true := ht c rfl
    rw [words_word_cons hne hw hc, words_cons hc]

/-- The pieces of a text: separators, a word, and the rest. -/
theorem exists_pieces (sep : α → Bool) (s : List α) :
    ∃ pre w t, s = pre ++ (w ++ t) ∧ (∀ b ∈ pre, sep b = true) ∧ (∀ b ∈ w, sep b = false) ∧
      StartsWithSep sep t ∧ (w = [] → t = []) := by
  have hcut := List.takeWhile_append_dropWhile (p := sep) (l := s)
  have hword := List.takeWhile_append_dropWhile (p := fun b => !sep b) (l := s.dropWhile sep)
  refine ⟨_, _, _, by rw [hword, hcut], fun b hb => List.mem_takeWhile_imp hb, fun b hb => ?_, ?_,
    fun hnil => ?_⟩
  · simpa using List.mem_takeWhile_imp hb
  · intro b hb
    have := List.head?_dropWhile_not (fun b => !sep b) (s.dropWhile sep)
    rw [hb] at this
    simpa using this
  · cases hrest : s.dropWhile sep with
    | nil => rfl
    | cons b rest =>
      have hb : sep b = false := by
        have := List.head?_dropWhile_not sep s
        rw [hrest] at this
        simpa using this
      rw [hrest] at hnil
      simp [hb] at hnil

theorem words_eq_cons_iff :
    words sep s = w :: ws ↔ ∃ pre t, s = pre ++ (w ++ t) ∧ (∀ b ∈ pre, sep b = true) ∧ w ≠ [] ∧
      (∀ b ∈ w, sep b = false) ∧ StartsWithSep sep t ∧ words sep t = ws := by
  constructor
  · intro h
    obtain ⟨pre, w', t, rfl, hpre, hw, ht, hnil⟩ := exists_pieces sep s
    rw [words_append hpre] at h
    by_cases hne : w' = []
    · rw [hnil hne, hne, List.append_nil, words_nil] at h
      cases h
    · rw [words_word_append hne hw ht] at h
      cases h
      exact ⟨pre, t, rfl, hpre, hne, hw, ht, rfl⟩
  · rintro ⟨pre, t, rfl, hpre, hne, hw, ht, rfl⟩
    rw [words_append hpre, words_word_append hne hw ht]

theorem words_eq_nil_iff : words sep s = [] ↔ ∀ b ∈ s, sep b = true := by
  refine ⟨fun h => ?_, words_eq_nil⟩
  obtain ⟨pre, w, t, rfl, hpre, hw, ht, hnil⟩ := exists_pieces sep s
  by_cases hne : w = []
  · rw [hnil hne, hne, List.append_nil, List.append_nil]
    exact hpre
  · rw [words_append hpre, words_word_append hne hw ht] at h
    cases h

/-- What is in front of the first occurrence, and behind it, are told from the whole. -/
theorem append_cons_unique {s' t' : List α} (hs : c ∉ s) (hs' : c ∉ s')
    (heq : s ++ c :: t = s' ++ c :: t') : s = s' ∧ t = t' := by
  induction s generalizing s' with
  | nil =>
    cases s' with
    | nil => exact ⟨rfl, (List.cons.inj heq).2⟩
    | cons b s' => exact absurd ((List.cons.inj heq).1 ▸ List.mem_cons_self) hs'
  | cons b s ih =>
    cases s' with
    | nil => exact absurd ((List.cons.inj heq).1 ▸ List.mem_cons_self) hs
    | cons b' s' =>
      obtain ⟨rfl, htail⟩ := List.cons.inj heq
      obtain ⟨rfl, rfl⟩ := ih (fun h => hs (List.mem_cons_of_mem _ h))
        (fun h => hs' (List.mem_cons_of_mem _ h)) htail
      exact ⟨rfl, rfl⟩

end Sfcb.Lib
