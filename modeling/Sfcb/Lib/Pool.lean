import Mathlib.Data.List.AList

/-!
# Named objects with use counts

A `Table` has at most one value for each key. `Table.count` is the number of its values
with some property, and the lemmas say how it changes when an entry comes or goes.

A `Pool` is a table from names to addresses together with the memory behind it. Its
objects count how often they are used from elsewhere; `Pool.Counted` says that every
count is right, whatever the uses are, and that no object has two names. Each operation
keeps it, as long as the uses change with the counts.
-/

namespace Sfcb.Lib

/-- At most one value for each key. -/
abbrev Table (κ β : Type) : Type := AList fun _ : κ => β

namespace Table

variable {κ β : Type} [DecidableEq κ] {t : Table κ β} {k l : κ} {v w : β} {p : β → Bool}

/-- The number of values that satisfy `p`. -/
def count (p : β → Bool) (t : Table κ β) : Nat := t.entries.countP fun e => p e.2

/-- An entry is split off the list of entries by its key. -/
theorem entries_split (h : t.lookup k = some v) :
    ∃ xs ys, t.entries = xs ++ ⟨k, v⟩ :: ys ∧ (t.erase k).entries = xs ++ ys := by
  have hmem : k ∈ t.entries.keys := by
    rw [← AList.keys, ← AList.mem_keys, ← AList.lookup_isSome, h]
    rfl
  obtain ⟨w, xs, ys, hxs, hentries, herase⟩ := List.exists_of_kerase hmem
  have hw : w = v := by
    have hlookup : t.lookup k = some w := by
      rw [AList.lookup, hentries, List.dlookup_append, List.dlookup_eq_none.mpr hxs]
      simp
    rw [h] at hlookup
    exact (Option.some.inj hlookup).symm
  subst hw
  exact ⟨xs, ys, hentries, herase⟩

theorem count_insert (h : k ∉ t) (p : β → Bool) (v : β) :
    count p (t.insert k v) = count p t + if p v then 1 else 0 := by
  rw [count, AList.entries_insert_of_notMem h, List.countP_cons, count]

theorem count_erase (h : t.lookup k = some v) (p : β → Bool) :
    count p (t.erase k) + (if p v then 1 else 0) = count p t := by
  obtain ⟨xs, ys, hentries, herase⟩ := entries_split h
  rw [count, count, hentries, herase, List.countP_append, List.countP_append, List.countP_cons]
  exact Nat.add_assoc _ _ _

theorem count_pos (h : t.lookup k = some v) (hv : p v = true) : 0 < count p t := by
  have := count_erase h p
  rw [if_pos hv] at this
  omega

/-- Nothing is counted exactly when no entry satisfies `p`. -/
theorem count_eq_zero_iff :
    count p t = 0 ↔ ∀ k v, t.lookup k = some v → p v = false := by
  constructor
  · intro hzero k v h
    apply Bool.eq_false_iff.mpr
    intro hv
    have := count_pos h hv
    omega
  · intro hall
    apply List.countP_eq_zero.mpr
    intro e he
    have hlookup : t.lookup e.1 = some e.2 := AList.mem_lookup_iff.mpr he
    simp [hall e.1 e.2 hlookup]

/-- An entry that comes and goes leaves the table as it was. -/
theorem erase_insert (h : k ∉ t) (v : β) : (t.insert k v).erase k = t := by
  apply AList.ext
  show ((t.insert k v).entries).kerase k = t.entries
  rw [AList.entries_insert_of_notMem h]
  exact List.kerase_cons_eq rfl

/-- A value is counted beside those of the other keys. -/
theorem count_insert_erase (k : κ) (v : β) (p : β → Bool) :
    count p (t.insert k v) = count p (t.erase k) + if p v then 1 else 0 := by
  have hentries : (t.insert k v).entries = ⟨k, v⟩ :: (t.erase k).entries := AList.entries_insert
  rw [count, hentries, List.countP_cons, count]

/-- A new value with the same property counts as the old one did. -/
theorem count_replaced (h : t.lookup k = some v) (hvw : p v = p w) :
    count p (t.insert k w) = count p t := by
  rw [count_insert_erase, ← count_erase h p, hvw]

/-- A new value is counted if the one that it replaces was not. -/
theorem count_insert_of_not (h : ∀ w, t.lookup k = some w → p w = false) (v : β) :
    count p (t.insert k v) = count p t + if p v then 1 else 0 := by
  cases hk : t.lookup k with
  | none => exact count_insert (AList.lookup_eq_none.mp hk) p v
  | some w =>
    have herase := count_erase hk p
    rw [h w hk] at herase
    rw [count_insert_erase, ← herase]
    rfl

end Table

/-- A table of names, and the memory its addresses point to. -/
structure Pool (κ ρ : Type) where
  table : Table κ Nat
  mem : Nat → Option ρ

namespace Pool

variable {κ ρ : Type}

/-- Nothing is named and nothing is allocated. -/
def empty : Pool κ ρ := ⟨∅, fun _ => none⟩

/-- The object at an address changes. -/
def store (p : Pool κ ρ) (a : Nat) (x : ρ) : Pool κ ρ :=
  { p with mem := fun b => if b = a then some x else p.mem b }

section Store

variable {p : Pool κ ρ} {a b : Nat} {x y : ρ}

@[simp] theorem mem_store_self : (p.store a x).mem a = some x := by simp [store]

theorem mem_store_of_ne (h : b ≠ a) : (p.store a x).mem b = p.mem b := by simp [store, h]

/-- What is stored back leaves the memory as it was. -/
theorem store_store_of_mem (h : p.mem a = some x) : (p.store a y).store a x = p := by
  obtain ⟨table, mem⟩ := p
  simp only [store, mk.injEq, true_and]
  funext b
  by_cases hb : b = a
  · rw [if_pos hb, hb]
    exact h.symm
  · rw [if_neg hb, if_neg hb]

end Store

variable [DecidableEq κ]

/-- The address under a name. -/
def get (p : Pool κ ρ) (k : κ) : Option Nat := p.table.lookup k

/-- A new object, at the address it was given, under a name. -/
def add (p : Pool κ ρ) (k : κ) (a : Nat) (x : ρ) : Pool κ ρ :=
  ⟨p.table.insert k a, fun b => if b = a then some x else p.mem b⟩

/-- The name goes and the object is freed. -/
def remove (p : Pool κ ρ) (k : κ) (a : Nat) : Pool κ ρ :=
  ⟨p.table.erase k, fun b => if b = a then none else p.mem b⟩

variable {p : Pool κ ρ} {k l : κ} {a b : Nat} {x y : ρ} {count : ρ → Int} {uses uses' : Nat → Nat}

@[simp] theorem get_add_self : (p.add k a x).get k = some a := AList.lookup_insert p.table

theorem get_add_of_ne (h : l ≠ k) : (p.add k a x).get l = p.get l := AList.lookup_insert_ne h

@[simp] theorem mem_add_self : (p.add k a x).mem a = some x := by simp [add]

theorem mem_add_of_ne (h : b ≠ a) : (p.add k a x).mem b = p.mem b := by simp [add, h]

@[simp] theorem get_remove_self : (p.remove k a).get k = none := AList.lookup_erase k p.table

theorem get_remove_of_ne (h : l ≠ k) : (p.remove k a).get l = p.get l := AList.lookup_erase_ne h

theorem mem_remove_of_ne (h : b ≠ a) : (p.remove k a).mem b = p.mem b := by simp [remove, h]

/-- Every named object is there and counts its uses, and has one name only. -/
structure Counted (count : ρ → Int) (uses : Nat → Nat) (p : Pool κ ρ) : Prop where
  counts : ∀ k a, p.get k = some a → ∃ x, p.mem a = some x ∧ count x = uses a
  names : ∀ k l a, p.get k = some a → p.get l = some a → k = l

theorem Counted.empty : Counted count uses (empty : Pool κ ρ) := by
  refine ⟨fun _ _ h => ?_, fun _ _ _ h => ?_⟩ <;> cases h

/-- A new object is not used yet, and its address had no name. -/
theorem Counted.add (h : Counted count uses p) (ha : p.mem a = none)
    (hx : count x = uses a) : Counted count uses (p.add k a x) := by
  have hfree : ∀ l, p.get l ≠ some a := by
    intro l hl
    obtain ⟨y, hy, -⟩ := h.counts l a hl
    rw [ha] at hy
    cases hy
  -- the name of any object is the new one, or one that was there before
  have hcases : ∀ {l b}, (p.add k a x).get l = some b → l = k ∧ b = a ∨ b ≠ a ∧ p.get l = some b := by
    intro l b hl
    by_cases hlk : l = k
    · subst hlk
      rw [get_add_self] at hl
      exact Or.inl ⟨rfl, (Option.some.inj hl).symm⟩
    · rw [get_add_of_ne hlk] at hl
      exact Or.inr ⟨fun hba => hfree l (hba ▸ hl), hl⟩
  refine ⟨fun l b hl => ?_, fun l m b hl hm => ?_⟩
  · rcases hcases hl with ⟨-, rfl⟩ | ⟨hba, hold⟩
    · exact ⟨x, mem_add_self, hx⟩
    · rw [mem_add_of_ne hba]
      exact h.counts l b hold
  · rcases hcases hl with ⟨rfl, rfl⟩ | ⟨hba, hold⟩
    · rcases hcases hm with ⟨rfl, -⟩ | ⟨hne, -⟩
      · rfl
      · exact absurd rfl hne
    · rcases hcases hm with ⟨-, hba'⟩ | ⟨-, hold'⟩
      · exact absurd hba' hba
      · exact h.names l m b hold hold'

/-- The other names keep their objects. -/
theorem Counted.remove (h : Counted count uses p) (hk : p.get k = some a) :
    Counted count uses (p.remove k a) := by
  have hcases : ∀ {l b}, (p.remove k a).get l = some b → b ≠ a ∧ p.get l = some b := by
    intro l b hl
    by_cases hlk : l = k
    · subst hlk
      rw [get_remove_self] at hl
      cases hl
    · rw [get_remove_of_ne hlk] at hl
      exact ⟨fun hba => hlk (h.names l k a (hba ▸ hl) hk), hl⟩
  refine ⟨fun l b hl => ?_, fun l m b hl hm => ?_⟩
  · obtain ⟨hba, hold⟩ := hcases hl
    rw [mem_remove_of_ne hba]
    exact h.counts l b hold
  · exact h.names l m b (hcases hl).2 (hcases hm).2

/-- One object changes its count, and its uses change in the same way. -/
theorem Counted.store (h : Counted count uses p) (hx : p.mem a = some x)
    (hothers : ∀ b, b ≠ a → uses' b = uses b)
    (hcount : count x = uses a → count y = uses' a) : Counted count uses' (p.store a y) := by
  refine ⟨fun l b hl => ?_, h.names⟩
  obtain ⟨z, hz, hcz⟩ := h.counts l b hl
  by_cases hba : b = a
  · subst hba
    rw [hx] at hz
    cases hz
    exact ⟨y, mem_store_self, hcount hcz⟩
  · exact ⟨z, (mem_store_of_ne hba).trans hz, by rw [hothers b hba]; exact hcz⟩

/-- The uses may be counted in another way. -/
theorem Counted.congr (h : Counted count uses p) (huses : ∀ a, uses' a = uses a) :
    Counted count uses' p := by
  rw [funext huses]
  exact h

/-- The address of a new object has no name. -/
theorem Counted.unnamed (h : Counted count uses p) (ha : p.mem a = none) (k : κ) :
    p.get k ≠ some a := by
  intro hk
  obtain ⟨x, hx, -⟩ := h.counts k a hk
  rw [ha] at hx
  cases hx

end Pool

end Sfcb.Lib
