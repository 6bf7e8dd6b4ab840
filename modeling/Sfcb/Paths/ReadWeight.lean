import Mathlib.Algebra.Ring.Nat
import Mathlib.Data.List.Forall2
import Sfcb.Paths.PathText

/-!
# Reading does not add to a text

The pieces that the loop of `getObjectPath` cuts do not weigh more than the text, and as much
only where they are all of it (`parts_of_pieces`). A byte weighs two, and a sign three, since a
sign without digits is read as a zero.
-/

namespace Sfcb.Paths

open Sfcb.Lib

/-! ## Cutting -/

section Cut

variable {found : UInt8 → Bool} {s a r : CStr} {c : UInt8}

theorem cutAt_eq_none_iff : cutAt found s = none ↔ ∀ b ∈ s, found b = false := by
  induction s with
  | nil => simp [cutAt]
  | cons b s ih =>
    rw [cutAt]
    by_cases hb : found b = true
    · simp [hb]
    · simp [hb, ih]

theorem cutAt_eq_some_iff :
    cutAt found s = some (a, c, r) ↔
      s = a ++ c :: r ∧ found c = true ∧ ∀ b ∈ a, found b = false := by
  induction s generalizing a with
  | nil => simp [cutAt]
  | cons b s ih =>
    rw [cutAt]
    by_cases hb : found b = true
    · rw [if_pos hb]
      constructor
      · rintro ⟨⟩
        exact ⟨rfl, hb, fun _ h => absurd h List.not_mem_nil⟩
      · rintro ⟨heq, hc, ha⟩
        cases a with
        | nil =>
          obtain ⟨rfl, rfl⟩ := List.cons.inj heq
          rfl
        | cons x a =>
          obtain ⟨rfl, -⟩ := List.cons.inj heq
          exact absurd hb (by simp [ha b List.mem_cons_self])
    · rw [if_neg hb, Option.map_eq_some_iff]
      constructor
      · rintro ⟨cut, hcut, heq⟩
        obtain ⟨rfl, hrest⟩ := Prod.mk.inj heq
        obtain ⟨rfl, hc, ha⟩ := ih.mp (hcut.trans (congrArg some (Prod.ext rfl hrest)))
        refine ⟨rfl, hc, fun x hx => ?_⟩
        rcases List.mem_cons.mp hx with rfl | hx
        · simpa using hb
        · exact ha x hx
      · rintro ⟨heq, hc, ha⟩
        cases a with
        | nil =>
          obtain ⟨rfl, -⟩ := List.cons.inj heq
          exact absurd hc hb
        | cons x a =>
          obtain ⟨rfl, rfl⟩ := List.cons.inj heq
          exact ⟨(a, c, r), ih.mpr ⟨rfl, hc, fun x hx => ha x (List.mem_cons_of_mem _ hx)⟩, rfl⟩

theorem cutAt_append (hc : found c = true) (ha : ∀ b ∈ a, found b = false) :
    cutAt found (a ++ c :: r) = some (a, c, r) :=
  cutAt_eq_some_iff.mpr ⟨rfl, hc, ha⟩

end Cut

/-! ## The weight of a text -/

/-- The length, where a sign is one and a half bytes. -/
def weight (s : CStr) : Nat := (s.map fun c => if c = 45 ∨ c = 43 then 3 else 2).sum

@[simp] theorem weight_nil : weight [] = 0 := rfl

theorem weight_cons (c : UInt8) (s : CStr) :
    weight (c :: s) = (if c = 45 ∨ c = 43 then 3 else 2) + weight s := by
  rw [weight, List.map_cons, List.sum_cons, weight]

theorem weight_append (s t : CStr) : weight (s ++ t) = weight s + weight t := by
  rw [weight, List.map_append, List.sum_append, weight, weight]

theorem two_le_weight_cons (c : UInt8) (s : CStr) : 2 + weight s ≤ weight (c :: s) := by
  rw [weight_cons]
  split <;> omega

theorem two_le_weight {s : CStr} (h : s ≠ []) : 2 ≤ weight s := by
  obtain ⟨c, s, rfl⟩ := List.exists_cons_of_ne_nil h
  have := two_le_weight_cons c s
  omega

/-- The text itself, or a lighter one. -/
def Within (s t : CStr) : Prop := s = t ∨ weight s < weight t

theorem Within.refl (s : CStr) : Within s s := .inl rfl

theorem Within.of_lt {s t : CStr} (h : weight s < weight t) : Within s t := .inr h

theorem Within.le {s t : CStr} (h : Within s t) : weight s ≤ weight t := by
  rcases h with rfl | h
  · exact Nat.le_refl _
  · exact Nat.le_of_lt h

theorem Within.eq_of_le {s t : CStr} (h : Within s t) (hle : weight t ≤ weight s) : s = t :=
  h.resolve_right (by omega)

theorem Within.trans {s t u : CStr} (h : Within s t) (h' : Within t u) : Within s u := by
  rcases h with rfl | h
  · exact h'
  · exact .of_lt (Nat.lt_of_lt_of_le h h'.le)

theorem Within.append {s s' t t' : CStr} (h : Within s s') (h' : Within t t') :
    Within (s ++ t) (s' ++ t') := by
  rcases h with rfl | h
  · rcases h' with rfl | h'
    · exact .refl _
    · refine .of_lt ?_
      rw [weight_append, weight_append]
      omega
  · have := h'.le
    refine .of_lt ?_
    rw [weight_append, weight_append]
    omega

/-- The weight of texts with something behind each. -/
def weights (ts : List CStr) : Nat := (ts.map fun t => weight t + 2).sum

@[simp] theorem weights_nil : weights [] = 0 := rfl

theorem weights_cons (t : CStr) (ts : List CStr) :
    weights (t :: ts) = weight t + 2 + weights ts := by
  rw [weights, List.map_cons, List.sum_cons, weights]

theorem weights_append (ts ts' : List CStr) :
    weights (ts ++ ts') = weights ts + weights ts' := by
  rw [weights, List.map_append, List.sum_append, weights, weights]

theorem commas_cons_cons (t t' : CStr) (ts : List CStr) :
    commas (t :: t' :: ts) = t ++ 44 :: commas (t' :: ts) := by
  simp [commas]

theorem weight_commas (t : CStr) (ts : List CStr) :
    weight (commas (t :: ts)) + 2 = weights (t :: ts) := by
  induction ts generalizing t with
  | nil => rw [weights_cons, weights_nil, commas, List.flatMap_nil, List.append_nil]
  | cons t' ts ih =>
    rw [commas_cons_cons, weights_cons, weight_append, weight_cons, if_neg (by decide), ← ih]
    omega

/-! ## The pieces of the loop -/

/-- A reference ends at the end of the text, at a comma, or at a last `=`. -/
theorem refLookAhead_eq_some {state : LookState} {i n : Nat} {u : CStr}
    (h : refLookAhead state i u = some n) :
    ∃ a r, u = a ++ r ∧ n = i + a.length ∧ (r = [] ∨ (∃ r', r = 44 :: r') ∨ r = [61]) := by
  induction u generalizing state i with
  | nil =>
    refine ⟨[], [], rfl, ?_, .inl rfl⟩
    cases state <;> simp_all [refLookAhead]
  | cons c u ih =>
    have hnext : ∀ state', refLookAhead state' (i + 1) u = some n →
        ∃ a r, c :: u = a ++ r ∧ n = i + a.length ∧ (r = [] ∨ (∃ r', r = 44 :: r') ∨ r = [61]) := by
      intro state' h'
      obtain ⟨a, r, rfl, rfl, hr⟩ := ih h'
      exact ⟨c :: a, r, rfl, by rw [List.length_cons]; omega, hr⟩
    cases state with
    | start => exact hnext _ h
    | lhs => exact hnext _ h
    | rhs | refStart =>
      rw [refLookAhead] at h
      split at h
      · exact hnext _ h
      · exact absurd h (by simp)
    | word =>
      rw [refLookAhead] at h
      split at h
      · exact absurd h (by simp)
      · exact hnext _ h
    | refKey =>
      rw [refLookAhead] at h
      split at h
      · next hc =>
        split at h
        · next hu => exact ⟨[], c :: u, rfl, by simpa using h.symm, .inr (.inr (by rw [hc, hu]))⟩
        · exact hnext _ h
      · exact hnext _ h
    | refValue =>
      rw [refLookAhead] at h
      split at h
      · next hc => exact ⟨[], c :: u, rfl, by simpa using h.symm, .inr (.inl ⟨u, by rw [hc.1]⟩)⟩
      · exact hnext _ h

/-- The texts of the pieces. -/
def texts (ps : List (Bool × CStr)) : List CStr := ps.map (·.2)

@[simp] theorem texts_nil : texts [] = [] := rfl

@[simp] theorem texts_cons (p : Bool × CStr) (ps : List (Bool × CStr)) :
    texts (p :: ps) = p.2 :: texts ps := rfl

/-- The look-ahead is right at each piece: it finds the end of a reference, and nothing
elsewhere. -/
def Seen : List (Bool × CStr) → Prop
  | [] => True
  | p :: ps =>
    refLookAhead .start 0 (commas (p.2 :: texts ps)) = (if p.1 then some p.2.length else none) ∧
      Seen ps

/-- A piece that is no reference has no quote, or just the two of a string at its end. -/
def Quoted (p : Bool × CStr) : Prop :=
  p.1 = false → 34 ∉ p.2 ∨
    ∃ front s, p.2 = front ++ 61 :: 34 :: (s ++ [34]) ∧ 34 ∉ front ∧ 34 ∉ s

/-- Pieces do not weigh more than the text, and as much only if they are all of it. -/
structure Parts (u : CStr) (ps : List (Bool × CStr)) : Prop where
  le : weights (texts ps) ≤ weight u + 2
  whole : weights (texts ps) = weight u + 2 → commas (texts ps) = u ∧ Seen ps
  quoted : ∀ p ∈ ps, Quoted p

theorem parts_nil : Parts [] [] :=
  ⟨by simp [weights], by simp [weights], fun _ h => absurd h List.not_mem_nil⟩

theorem parts_single {p : Bool × CStr} (hquoted : Quoted p)
    (hseen : refLookAhead .start 0 p.2 = if p.1 then some p.2.length else none) :
    Parts p.2 [p] := by
  refine ⟨by simp [weights], fun _ => ⟨by simp [commas], by simpa [Seen, commas] using hseen⟩, ?_⟩
  intro q hq
  rw [List.mem_singleton.mp hq]
  exact hquoted

theorem parts_cons {p : Bool × CStr} {rest : CStr} {ps : List (Bool × CStr)}
    (hquoted : Quoted p) (h : Parts rest ps)
    (hseen : refLookAhead .start 0 (p.2 ++ 44 :: rest) = if p.1 then some p.2.length else none) :
    Parts (p.2 ++ 44 :: rest) (p :: ps) := by
  have hweight : weight (p.2 ++ 44 :: rest) = weight p.2 + (2 + weight rest) := by
    rw [weight_append, weight_cons, if_neg (by decide)]
  refine ⟨?_, fun heq => ?_, fun q hq => ?_⟩
  · rw [texts_cons, weights_cons, hweight]
    have := h.le
    omega
  · rw [texts_cons, weights_cons, hweight] at heq
    obtain ⟨hcommas, hps⟩ := h.whole (by omega)
    have hall : commas (p.2 :: texts ps) = p.2 ++ 44 :: rest := by
      cases ps with
      | nil => exact absurd heq (by simp)
      | cons q ps => rw [← hcommas, texts_cons, commas_cons_cons]
    exact ⟨hall, by rw [hall]; exact hseen, hps⟩
  · rcases List.mem_cons.mp hq with rfl | hq
    · exact hquoted
    · exact h.quoted q hq

theorem pieces_nil {fuel : Nat} {ps : List (Bool × CStr)} (h : pieces fuel [] = some ps) :
    ps = [] := by
  cases fuel with
  | zero => exact absurd h (by simp [pieces])
  | succ fuel => simpa [pieces, refLookAhead, cutAt] using h.symm

/-- A `=` at the end of a reference is lost. -/
theorem parts_lost (a : CStr) : Parts (a ++ [61]) [(true, a)] := by
  have hweight : weight (a ++ [61]) = weight a + 2 := by
    rw [weight_append]
    rfl
  have hweights : weights (texts [(true, a)]) = weight a + 2 := rfl
  refine ⟨?_, fun heq => ?_, fun q hq => ?_⟩
  · rw [hweights, hweight]
    omega
  · rw [hweights, hweight] at heq
    omega
  · rw [List.mem_singleton.mp hq]
    exact fun h => absurd h (by simp)

theorem quoted_string {front s : CStr} (hfront : 34 ∉ front ++ [61]) (hs : 34 ∉ s) :
    Quoted (false, front ++ [61] ++ 34 :: (s ++ [34])) := by
  intro _
  refine .inr ⟨front, s, ?_, fun hmem => hfront (List.mem_append_left _ hmem), hs⟩
  rw [List.append_assoc]
  rfl

theorem parts_of_pieces {fuel : Nat} {u : CStr} {ps : List (Bool × CStr)}
    (h : pieces fuel u = some ps) : Parts u ps := by
  induction fuel generalizing u ps with
  | zero => exact absurd h (by simp [pieces])
  | succ fuel ih =>
    rw [pieces] at h
    cases hn : refLookAhead .start 0 u with
    | some n =>
      rw [hn] at h
      simp only at h
      obtain ⟨a, r, rfl, hlen, hr⟩ := refLookAhead_eq_some hn
      rw [Nat.zero_add] at hlen
      subst hlen
      rw [List.drop_left, List.take_left] at h
      have hquoted : ∀ t, Quoted (true, t) := fun t h => absurd h (by simp)
      rcases hr with rfl | ⟨r, rfl⟩ | rfl
      · obtain rfl := Option.some.inj h
        refine parts_single (hquoted _) ?_
        rw [if_pos rfl, hn]
        simp
      · obtain ⟨ps', hps', rfl⟩ := Option.map_eq_some_iff.mp h
        exact parts_cons (hquoted _) (ih hps') (by rw [if_pos rfl]; exact hn)
      · obtain ⟨ps', hps', rfl⟩ := Option.map_eq_some_iff.mp h
        obtain rfl := pieces_nil hps'
        exact parts_lost a
    | none =>
      rw [hn] at h
      simp only at h
      cases hcut : cutAt (fun c => c = 44 || c = 34) u with
      | none =>
        rw [hcut] at h
        have hquote : 34 ∉ u := fun hmem => absurd (cutAt_eq_none_iff.mp hcut 34 hmem) (by decide)
        simp only [Option.some.injEq] at h
        by_cases hu : u = []
        · rw [if_pos hu] at h
          rw [hu, ← h]
          exact parts_nil
        · rw [if_neg hu] at h
          rw [← h]
          exact parts_single (p := (false, u)) (fun _ => .inl hquote) hn
      | some cut =>
        obtain ⟨front, c, rest⟩ := cut
        rw [hcut] at h
        obtain ⟨rfl, hc, hfront⟩ := cutAt_eq_some_iff.mp hcut
        have hquote : 34 ∉ front := fun hmem => absurd (hfront 34 hmem) (by decide)
        simp only at h
        by_cases hc34 : c = 34
        · subst hc34
          rw [if_pos rfl] at h
          by_cases hlast : front.getLast? = some 61
          · rw [if_pos hlast] at h
            obtain ⟨⟨s, c, tail⟩, hcut', hrun⟩ := Option.bind_eq_some_iff.mp h
            obtain ⟨rfl, hc, hs⟩ := cutAt_eq_some_iff.mp hcut'
            obtain rfl : c = 34 := by simpa using hc
            obtain ⟨front, rfl⟩ := List.getLast?_eq_some_iff.mp hlast
            have hs34 : 34 ∉ s := fun hmem => absurd (hs 34 hmem) (by decide)
            have hquoted := quoted_string hquote hs34
            have hsplit : front ++ [61] ++ 34 :: (s ++ 34 :: tail) =
                front ++ [61] ++ 34 :: (s ++ [34]) ++ tail := by simp
            rw [hsplit] at hn ⊢
            simp only at hrun
            cases tail with
            | nil =>
              obtain rfl := Option.some.inj hrun
              rw [List.append_nil] at hn ⊢
              exact parts_single hquoted hn
            | cons c tail =>
              simp only at hrun
              by_cases hc : c = 44
              · subst hc
                rw [if_pos rfl] at hrun
                obtain ⟨ps', hps', rfl⟩ := Option.map_eq_some_iff.mp hrun
                exact parts_cons hquoted (ih hps') hn
              · rw [if_neg hc] at hrun
                exact absurd hrun (by simp)
          · rw [if_neg hlast] at h
            exact absurd h (by simp)
        · have hc44 : c = 44 := by simpa [hc34] using hc
          rw [if_neg hc34] at h
          subst hc44
          obtain ⟨ps', hps', rfl⟩ := Option.map_eq_some_iff.mp h
          exact parts_cons (p := (false, front)) (fun _ => .inl hquote) (ih hps') hn

end Sfcb.Paths
