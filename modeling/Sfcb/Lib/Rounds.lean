import Mathlib.Logic.Relation

/-!
# Loops that may fail

A computation that may fail is safe if the error that it fails with, if any, is one that is
allowed. A loop makes rounds that go on, come to a result, or fail, and has fuel for some of
them.

`rounds_safe_iff` is the rule: a loop that gets shorter with every round is safe exactly if
every round that it gets to is, and then the fuel has sufficed.
-/

namespace Sfcb.Lib.Rounds

variable {ε σ ρ α β : Type} {allowed : ε → Prop}

/-- There is a result, or an error that is allowed. -/
def Safe (allowed : ε → Prop) (r : Except ε α) : Prop := ∀ e, r = .error e → allowed e

theorem safe_ok (a : α) : Safe allowed (.ok a) := by
  rintro e ⟨⟩

theorem safe_error_iff (e : ε) : Safe allowed (.error e : Except ε α) ↔ allowed e :=
  ⟨fun h => h e rfl, by rintro h _ ⟨⟩; exact h⟩

/-- One computation after the other. -/
theorem safe_bind_iff {r : Except ε α} {f : α → Except ε β} :
    Safe allowed (r.bind f) ↔ Safe allowed r ∧ ∀ a, r = .ok a → Safe allowed (f a) := by
  cases r with
  | error e =>
    show Safe allowed (.error e) ↔ _
    rw [safe_error_iff, safe_error_iff]
    exact ⟨fun h => ⟨h, by simp⟩, fun h => h.1⟩
  | ok a =>
    show Safe allowed (f a) ↔ _
    exact ⟨fun h => ⟨safe_ok a, by rintro _ ⟨⟩; exact h⟩, fun h => h.2 a rfl⟩

theorem safe_map_iff {r : Except ε α} {f : α → β} :
    Safe allowed (r.map f) ↔ Safe allowed r := by
  cases r with
  | error e => exact (safe_error_iff e).trans (safe_error_iff e).symm
  | ok a => exact iff_of_true (safe_ok _) (safe_ok _)

theorem bind_eq_ok {r : Except ε α} {f : α → Except ε β} {b : β} :
    r.bind f = .ok b ↔ ∃ a, r = .ok a ∧ f a = .ok b := by
  cases r with
  | error e => exact iff_of_false (fun h => by cases h) fun ⟨a, h, _⟩ => by cases h
  | ok a => exact ⟨fun h => ⟨a, rfl, h⟩, fun ⟨_, ha, h⟩ => Except.ok.inj ha ▸ h⟩

theorem map_eq_ok {r : Except ε α} {f : α → β} {b : β} :
    r.map f = .ok b ↔ ∃ a, r = .ok a ∧ f a = b := by
  cases r with
  | error e => exact iff_of_false (fun h => by cases h) fun ⟨a, h, _⟩ => by cases h
  | ok a =>
    exact ⟨fun h => ⟨a, rfl, Except.ok.inj h⟩, fun ⟨_, ha, h⟩ => congrArg _ (Except.ok.inj ha ▸ h)⟩

/-- The loop. A round goes on with a state, or ends it with a result. -/
def rounds (out : ε) (step : σ → Except ε (σ ⊕ ρ)) : Nat → σ → Except ε ρ
  | 0, _ => .error out
  | n + 1, s => (step s).bind fun
    | .inl s' => rounds out step n s'
    | .inr r => .ok r

/-- What is reached from a state. -/
abbrev Reaches (step : σ → Except ε (σ ⊕ ρ)) : σ → σ → Prop :=
  Relation.ReflTransGen fun s s' => step s = .ok (.inl s')

/-- What every round preserves. -/
theorem reaches_inv {step : σ → Except ε (σ ⊕ ρ)} {P : σ → Prop}
    (hstep : ∀ {s s'}, P s → step s = .ok (.inl s') → P s') {s s' : σ}
    (hreach : Reaches step s s') (h : P s) : P s' := by
  induction hreach with
  | refl => exact h
  | tail _ hone ih => exact hstep ih hone

section Rounds

variable {out : ε} {step : σ → Except ε (σ ⊕ ρ)} {n : Nat} {s : σ}

/-- A result is that of a round that is reached. -/
theorem rounds_eq_ok {r : ρ} (h : rounds out step n s = .ok r) :
    ∃ s', Reaches step s s' ∧ step s' = .ok (.inr r) := by
  induction n generalizing s with
  | zero => cases h
  | succ n ih =>
    unfold rounds at h
    cases hs : step s with
    | error e =>
      rw [hs] at h
      cases h
    | ok next =>
      rw [hs] at h
      cases next with
      | inl s' =>
        obtain ⟨s'', hreach, hr⟩ := ih h
        exact ⟨s'', .head hs hreach, hr⟩
      | inr r' =>
        cases h
        exact ⟨s, .refl, hs⟩

/-- A loop is safe exactly if every round that is reached is. -/
theorem rounds_safe_iff (m : σ → Nat)
    (hless : ∀ s₁, Reaches step s s₁ → ∀ s₂, step s₁ = .ok (.inl s₂) → m s₂ < m s₁)
    (hn : m s < n) :
    Safe allowed (rounds out step n s) ↔ ∀ s', Reaches step s s' → Safe allowed (step s') := by
  induction n generalizing s with
  | zero => omega
  | succ n ih =>
    unfold rounds
    rw [safe_bind_iff]
    constructor
    · rintro ⟨hone, hrest⟩ s' hreach
      cases hreach using Relation.ReflTransGen.head_induction_on with
      | refl => exact hone
      | head hs htail =>
        have hshort := hless _ .refl _ hs
        exact (ih (fun s₁ hreach => hless s₁ (.head hs hreach)) (by omega)).mp (hrest _ hs) s' htail
    · intro hall
      refine ⟨hall s .refl, fun next hs => ?_⟩
      cases next with
      | inl s' =>
        have hshort := hless _ .refl _ hs
        exact (ih (fun s₁ hreach => hless s₁ (.head hs hreach)) (by omega)).mpr
          fun s'' hreach => hall s'' (.head hs hreach)
      | inr r => exact safe_ok r

end Rounds

end Sfcb.Lib.Rounds
