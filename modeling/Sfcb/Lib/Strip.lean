import Mathlib.Data.List.DropRight

/-!
# Both ends of a list

`strip p` takes away what satisfies `p` at both ends. `strip_eq_strip_iff` says when two
predicates take away the same: when what is left after taking away what both agree on begins
and ends with something that neither takes.
-/

namespace Sfcb.Lib

variable {α : Type} {c p q : α → Bool} {s : List α}

def strip (p : α → Bool) (s : List α) : List α := (s.dropWhile p).rdropWhile p

theorem strip_nil : strip p [] = [] := by simp [strip]

/-- What is taken away at the front can be taken away in two steps. -/
theorem dropWhile_dropWhile (h : ∀ b, c b = true → p b = true) :
    (s.dropWhile c).dropWhile p = s.dropWhile p := by
  induction s with
  | nil => rfl
  | cons b s ih =>
    by_cases hc : c b = true
    · rw [List.dropWhile_cons_of_pos hc, ih, List.dropWhile_cons_of_pos (h b hc)]
    · rw [List.dropWhile_cons_of_neg hc]

theorem rdropWhile_rdropWhile (h : ∀ b, c b = true → p b = true) :
    (s.rdropWhile c).rdropWhile p = s.rdropWhile p := by
  unfold List.rdropWhile
  rw [List.reverse_reverse, dropWhile_dropWhile h]

/-- What is in front of something that is kept is kept. -/
theorem rdropWhile_cons {b : α} (h : ¬ (c b = true ∧ ∀ a ∈ s, c a = true)) :
    (b :: s).rdropWhile c = b :: s.rdropWhile c := by
  unfold List.rdropWhile
  rw [List.reverse_cons, List.dropWhile_append]
  split
  · next hempty =>
    have hnil := List.isEmpty_iff.mp hempty
    have hall : ∀ a ∈ s, c a = true := fun a ha =>
      List.dropWhile_eq_nil_iff.mp hnil a (List.mem_reverse.mpr ha)
    rw [List.dropWhile_cons_of_neg fun hb => h ⟨hb, hall⟩, hnil]
    rfl
  · rw [List.reverse_append]
    rfl

/-- What is kept at the front stays when something is taken away at the back. -/
theorem dropWhile_rdropWhile (h : ∀ b, c b = true → p b = true) :
    (s.rdropWhile c).dropWhile p = (s.dropWhile p).rdropWhile c := by
  induction s with
  | nil => simp
  | cons b s ih =>
    by_cases hp : p b = true
    · rw [List.dropWhile_cons_of_pos hp, ← ih]
      by_cases hall : c b = true ∧ ∀ a ∈ s, c a = true
      · have hcons : (b :: s).rdropWhile c = [] := List.rdropWhile_eq_nil_iff.mpr fun a ha => by
          obtain rfl | ha := List.mem_cons.mp ha
          · exact hall.1
          · exact hall.2 a ha
        rw [hcons, List.rdropWhile_eq_nil_iff.mpr hall.2]
      · rw [rdropWhile_cons hall, List.dropWhile_cons_of_pos hp]
    · rw [List.dropWhile_cons_of_neg hp, rdropWhile_cons fun hall => hp (h b hall.1),
        List.dropWhile_cons_of_neg hp]

theorem strip_strip (h : ∀ b, c b = true → p b = true) : strip p (strip c s) = strip p s := by
  unfold strip
  rw [dropWhile_rdropWhile h, dropWhile_dropWhile h, rdropWhile_rdropWhile h]

/-- What is left begins with something that is kept. -/
theorem head?_strip {b : α} (h : b ∈ (strip p s).head?) : ¬ p b = true := by
  obtain ⟨t, ht⟩ : strip p s <+: s.dropWhile p := List.rdropWhile_prefix p _
  have hhead : b ∈ (s.dropWhile p).head? := by
    rw [← ht, List.head?_append, Option.mem_def.mp h]
    rfl
  have hnot := List.head?_dropWhile_not p s
  rw [Option.mem_def.mp hhead] at hnot
  simp only at hnot
  rw [hnot]
  exact Bool.false_ne_true

/-- What is left ends with something that is kept. -/
theorem getLast?_strip {b : α} (h : b ∈ (strip p s).getLast?) : ¬ p b = true := by
  obtain ⟨hne, rfl⟩ := List.mem_getLast?_eq_getLast h
  exact List.rdropWhile_last_not p _ hne

/-- A begin that is kept is the begin of what is left. -/
theorem head?_strip_of_neg {b : α} (h : b ∈ s.head?) (hp : ¬ p b = true) :
    b ∈ (strip p s).head? := by
  obtain ⟨rest, rfl⟩ := List.head?_eq_some_iff.mp h
  unfold strip
  rw [List.dropWhile_cons_of_neg hp, rdropWhile_cons fun hall => hp hall.1]
  rfl

/-- An end that is kept is the end of what is left. -/
theorem getLast?_strip_of_neg {b : α} (h : b ∈ s.getLast?) (hp : ¬ p b = true) :
    b ∈ (strip p s).getLast? := by
  obtain ⟨front, rfl⟩ := List.getLast?_eq_some_iff.mp h
  unfold strip
  rw [← dropWhile_rdropWhile fun _ h => h, List.rdropWhile_concat_neg _ _ _ hp, List.dropWhile_append]
  split
  · rw [List.dropWhile_cons_of_neg hp]
    rfl
  · rw [List.getLast?_concat]
    rfl

/-- Nothing is taken away between an end and a begin that are kept. -/
theorem strip_of_ends (hhead : ∀ b ∈ s.head?, ¬ p b = true)
    (hlast : ∀ b ∈ s.getLast?, ¬ p b = true) : strip p s = s := by
  cases s with
  | nil => exact strip_nil
  | cons b s =>
    unfold strip
    rw [List.dropWhile_cons_of_neg (hhead b rfl)]
    exact List.rdropWhile_eq_self_iff.mpr fun hne => hlast _ (List.getLast?_eq_getLast_of_ne_nil hne)

/-- Two predicates take away the same if and only if neither takes away from what is left of
the part that both agree on. -/
theorem strip_eq_strip_iff (hp : ∀ b, c b = true → p b = true) (hq : ∀ b, c b = true → q b = true)
    (hpq : ∀ b, p b = true → q b = true → c b = true) : strip p s = strip q s ↔
      (∀ b ∈ (strip c s).head?, ¬ p b = true ∧ ¬ q b = true) ∧
        ∀ b ∈ (strip c s).getLast?, ¬ p b = true ∧ ¬ q b = true := by
  rw [← strip_strip hp, ← @strip_strip _ _ q s hq]
  constructor
  · intro heq
    refine ⟨fun b hb => ?_, fun b hb => ?_⟩
    · have hc := head?_strip hb
      by_cases h : p b = true
      · have hqb : ¬ q b = true := fun hqb => hc (hpq b h hqb)
        have hin := head?_strip_of_neg hb hqb
        rw [← heq] at hin
        exact absurd h (head?_strip hin)
      · have hin := head?_strip_of_neg hb h
        rw [heq] at hin
        exact ⟨h, head?_strip hin⟩
    · have hc := getLast?_strip hb
      by_cases h : p b = true
      · have hqb : ¬ q b = true := fun hqb => hc (hpq b h hqb)
        have hin := getLast?_strip_of_neg hb hqb
        rw [← heq] at hin
        exact absurd h (getLast?_strip hin)
      · have hin := getLast?_strip_of_neg hb h
        rw [heq] at hin
        exact ⟨h, getLast?_strip hin⟩
  · intro ⟨hhead, hlast⟩
    rw [strip_of_ends (fun b hb => (hhead b hb).1) fun b hb => (hlast b hb).1,
      strip_of_ends (fun b hb => (hhead b hb).2) fun b hb => (hlast b hb).2]

end Sfcb.Lib
