import Mathlib.Data.List.AList
import Mathlib.Data.List.Perm.Basic

/-!
# Entries that are kept in buckets

A table of buckets is a list of chains, and every entry has a home: the chain that it is
found in. `Homed` says that each is there. A search then looks at one chain and finds what a
search of all of them would find, an entry that is added or taken away changes one chain,
and the entries can be moved to another number of buckets.

Entries with distinct keys hold the same as a table from keys to entries. `Holds` does not
depend on the order in which the chains give them, so it outlives a move.
-/

namespace Sfcb.Lib.Buckets

variable {ε ι : Type}

section Chains

variable {p : ε → Bool} {c xs ys : List ε} {e x : ε}

/-- A walk along a chain to the first entry that satisfies `p`: what it has passed, the
entry, and what comes after it. -/
def locate (p : ε → Bool) : List ε → Option (List ε × ε × List ε)
  | [] => none
  | e :: c => if p e then some ([], e, c) else (locate p c).map fun r => (e :: r.1, r.2)

theorem locate_eq_none (h : locate p c = none) : ∀ e ∈ c, p e = false := by
  induction c with
  | nil =>
    intro e he
    cases he
  | cons x c ih =>
    rw [locate] at h
    split at h
    · cases h
    · rename_i hx
      intro e he
      cases he with
      | head => exact Bool.eq_false_iff.mpr hx
      | tail _ he => exact ih (Option.map_eq_none_iff.mp h) e he

theorem locate_eq_some (h : locate p c = some (xs, e, ys)) :
    c = xs ++ e :: ys ∧ p e = true := by
  induction c generalizing xs with
  | nil => cases h
  | cons x c ih =>
    rw [locate] at h
    split at h
    · rename_i hx
      cases h
      exact ⟨rfl, hx⟩
    · obtain ⟨⟨zs, y, ws⟩, hr, heq⟩ := Option.map_eq_some_iff.mp h
      cases heq
      obtain ⟨hc, he⟩ := ih hr
      exact ⟨congrArg (x :: ·) hc, he⟩

end Chains

section Arrays

variable {b : List (List ε)} {home : ε → Nat} {i : Nat} {e : ε}

/-- The chain at an index. -/
abbrev bucket (b : List (List ε)) (i : Nat) : List ε := b.getD i []

/-- One chain and all the others. -/
theorem flatten_modify (hi : i < b.length) :
    ∃ rest, ∀ f, (b.modify i f).flatten.Perm (f (bucket b i) ++ rest) := by
  refine ⟨(b.take i).flatten ++ (b.drop (i + 1)).flatten, fun f => ?_⟩
  have hbucket : bucket b i = b[i] := by simp [bucket, hi]
  rw [List.modify_eq_take_cons_drop hi, hbucket, List.flatten_append, List.flatten_cons]
  exact List.perm_append_comm_assoc _ _ _

theorem flatten_split (hi : i < b.length) :
    ∃ rest, b.flatten.Perm (bucket b i ++ rest) ∧
      ∀ f, (b.modify i f).flatten.Perm (f (bucket b i) ++ rest) := by
  obtain ⟨rest, hrest⟩ := flatten_modify hi
  have hid := hrest id
  rw [List.modify_id] at hid
  exact ⟨rest, hid, hrest⟩

/-- Every entry is in the chain that it is looked for in. -/
def Homed (home : ε → Nat) (b : List (List ε)) : Prop := ∀ i, ∀ e ∈ bucket b i, home e = i

theorem Homed.modify (h : Homed home b) {f : List ε → List ε}
    (hf : ∀ e ∈ f (bucket b i), home e = i) : Homed home (b.modify i f) := by
  intro j e he
  by_cases hj : j = i
  · subst hj
    apply hf
    by_cases hlt : j < b.length
    · simpa [bucket, hlt] using he
    · simp [bucket, Nat.le_of_not_lt hlt] at he
  · refine h j e ?_
    simpa [bucket, List.getElem?_modify, Ne.symm hj] using he

/-- No other chain has an entry that would be looked for here. -/
theorem Homed.mem_bucket (h : Homed home b) (he : e ∈ b.flatten) : e ∈ bucket b (home e) := by
  obtain ⟨c, hc, hec⟩ := List.mem_flatten.mp he
  obtain ⟨i, hi, rfl⟩ := List.mem_iff_getElem.mp hc
  have hbucket : bucket b i = b[i] := by simp [bucket, hi]
  rw [← hbucket] at hec
  rw [h i e hec]
  exact hec

theorem homed_replicate (home : ε → Nat) (n : Nat) : Homed home (List.replicate n []) := by
  intro i e he
  by_cases hi : i < n <;> simp [bucket, hi] at he

/-- An entry is put in front of its chain. -/
def push (home : ε → Nat) (b : List (List ε)) (e : ε) : List (List ε) :=
  b.modify (home e) (e :: ·)

@[simp] theorem length_push : (push home b e).length = b.length :=
  List.length_modify _ _ _

theorem Homed.push (h : Homed home b) (e : ε) : Homed home (push home b e) := by
  apply h.modify
  intro x hx
  cases hx with
  | head => rfl
  | tail _ hx => exact h _ x hx

theorem push_perm (he : home e < b.length) : (push home b e).flatten.Perm (e :: b.flatten) := by
  obtain ⟨rest, hb, hf⟩ := flatten_split he
  exact (hf _).trans (hb.symm.cons e)

/-- The entries are put one after another. -/
def pushAll (home : ε → Nat) (b : List (List ε)) (es : List ε) : List (List ε) :=
  es.foldl (push home) b

@[simp] theorem length_pushAll (es : List ε) : (pushAll home b es).length = b.length := by
  induction es generalizing b with
  | nil => rfl
  | cons e es ih => exact ih.trans length_push

theorem Homed.pushAll (h : Homed home b) (es : List ε) : Homed home (pushAll home b es) := by
  induction es generalizing b with
  | nil => exact h
  | cons e es ih => exact ih (h.push e)

theorem pushAll_perm {es : List ε} (hes : ∀ e ∈ es, home e < b.length) :
    (pushAll home b es).flatten.Perm (es ++ b.flatten) := by
  induction es generalizing b with
  | nil => exact .rfl
  | cons e es ih =>
    have hrest : ∀ x ∈ es, home x < (push home b e).length := by
      intro x hx
      rw [length_push]
      exact hes x (.tail _ hx)
    refine (ih hrest).trans ?_
    exact ((push_perm (hes e (.head _))).append_left es).trans List.perm_middle

end Arrays

section Keys

variable {cls : ε → ι} {es rest : List ε} {e x : ε} {i : ι}
  {m : AList fun _ : ι => ε}

/-- An entry under its key. -/
abbrev tagged (cls : ε → ι) (e : ε) : Sigma fun _ : ι => ε := ⟨cls e, e⟩

/-- The entries are those of the table, in some order. -/
def Holds (cls : ε → ι) (es : List ε) (m : AList fun _ : ι => ε) : Prop :=
  (es.map (tagged cls)).Perm m.entries

theorem holds_nil (cls : ε → ι) : Holds cls [] ∅ := .rfl

theorem Holds.perm (h : Holds cls es m) (hp : es.Perm rest) : Holds cls rest m :=
  (hp.symm.map _).trans h

theorem Holds.length (h : Holds cls es m) : es.length = m.entries.length := by
  rw [← List.length_map (tagged cls)]
  exact h.length_eq

theorem Holds.nodupKeys (h : Holds cls es m) : (es.map (tagged cls)).NodupKeys :=
  (List.perm_nodupKeys h).mpr m.nodupKeys

variable [DecidableEq ι]

/-- An entry is under its key in the table. -/
theorem Holds.lookup (h : Holds cls es m) (he : e ∈ es) : m.lookup (cls e) = some e := by
  apply AList.mem_lookup_iff.mpr
  exact h.mem_iff.mp (List.mem_map_of_mem he)

theorem Holds.mem (h : Holds cls es m) (hm : m.lookup i = some e) : e ∈ es ∧ cls e = i := by
  have hentry : (⟨i, e⟩ : Sigma fun _ : ι => ε) ∈ m.entries := AList.mem_lookup_iff.mp hm
  obtain ⟨x, hx, heq⟩ := List.mem_map.mp (h.mem_iff.mpr hentry)
  cases heq
  exact ⟨hx, rfl⟩

theorem Holds.lookup_eq_none (h : Holds cls es m) (hes : ∀ e ∈ es, cls e ≠ i) :
    m.lookup i = none := by
  cases hm : m.lookup i with
  | none => rfl
  | some e =>
    obtain ⟨he, hi⟩ := h.mem hm
    exact absurd hi (hes e he)

/-- One entry goes. -/
theorem Holds.erase (h : Holds cls es m) (hes : es.Perm (e :: rest)) :
    Holds cls rest (m.erase (cls e)) := by
  have hp : ((e :: rest).map (tagged cls)).Perm m.entries := h.perm hes
  have hnd : ((e :: rest).map (tagged cls)).NodupKeys := (h.perm hes).nodupKeys
  have hgone := List.Perm.kerase (a := cls e) hnd hp
  rw [List.map_cons, List.kerase_cons_eq (s := tagged cls e) rfl] at hgone
  exact hgone

/-- A new entry comes. -/
theorem Holds.insert (h : Holds cls es m) (hi : m.lookup (cls e) = none) :
    Holds cls (e :: es) (m.insert (cls e) e) := by
  unfold Holds
  rw [AList.entries_insert_of_notMem (AList.lookup_eq_none.mp hi)]
  exact h.cons _

/-- One entry takes the place of another with its key. -/
theorem Holds.replace (h : Holds cls es m) (hes : es.Perm (x :: rest)) (hx : cls x = cls e) :
    Holds cls (e :: rest) (m.insert (cls e) e) := by
  have hrest := h.erase hes
  rw [hx] at hrest
  unfold Holds
  rw [AList.entries_insert]
  exact hrest.cons _

end Keys

end Sfcb.Lib.Buckets
