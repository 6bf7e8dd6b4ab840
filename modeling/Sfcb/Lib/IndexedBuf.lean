import Mathlib.Algebra.Group.Nat.Defs
import Sfcb.Lib.Area

/-!
# Buffers with an index

Records of cells lie one behind the other in a buffer; an index says where each of them
starts, and a record is known by its place in the index, counted from one. Index and
buffer grow by doubling. The capacity of the index is kept in fifteen bits, so that
doubling it can wrap; what is really there is `iAlloc`.

Replacing a record moves all others to the front and writes the new one behind them. A
record has to tell its own length for that (`SelfDelimiting`).

`Holds b records` is the meaning of a buffer. `add_holds` and `replace_holds` are what
the two operations do to it; `Sized` carries the capacities along.
-/

namespace Sfcb.Lib

/-- The cells in use and the index to them. -/
structure IndexedBuf (α : Type) where
  /-- where the records start; its length is `iUsed` -/
  index : List Nat
  /-- the capacity of the index, as far as fifteen bits hold it -/
  iMax : Nat
  iMalloced : Bool
  /-- the entries of the index there is memory for -/
  iAlloc : Nat
  /-- the cells in use; their number is `bUsed` -/
  cells : List α
  bMax : Nat
  deriving DecidableEq, Repr

namespace IndexedBuf

variable {α : Type}

/-! ## Operations -/

/-- The cells from the start of a record on; there is no record `0`. -/
def entry (b : IndexedBuf α) (id : Nat) : Option (List α) :=
  if id = 0 then none else (b.index[id - 1]?).map b.cells.drop

/-- A new buffer of at least `size` cells with one record. -/
def create (size : Nat) (record : List α) : Option (IndexedBuf α) :=
  let nmax := growTo record.length size
  if record.length < nmax ∧ nmax < 2 ^ 31 then
    some { index := [0], iMax := 16, iMalloced := true, iAlloc := 32, cells := record, bMax := nmax }
  else none

/-- Room for one more entry of the index. Memory is asked for in `long`s, twice the size
of an entry. -/
def ensureIndex (b : IndexedBuf α) : IndexedBuf α :=
  if b.index.length ≥ b.iMax then
    if b.iMalloced = true ∨ 0 < b.iMax then
      { b with iMax := (b.iMax * 2) % 2 ^ 15, iMalloced := true, iAlloc := b.iMax * 2 * 2 }
    else { b with iMax := 16, iMalloced := true, iAlloc := 32 }
  else b

/-- Room for `l` more cells; `none` if the new size does not fit an `int`. -/
def ensureCells (b : IndexedBuf α) (l : Nat) : Option (IndexedBuf α) :=
  if b.cells.length + l ≥ b.bMax then
    let nmax := growTo (b.cells.length + l) b.bMax
    if b.cells.length + l < nmax ∧ nmax < 2 ^ 31 then some { b with bMax := nmax } else none
  else some b

/-- Appends a record and gives its place in the index. `none` if an entry would be
written behind the index. -/
def push (b : IndexedBuf α) (record : List α) : Option (IndexedBuf α × Nat) :=
  match b.ensureIndex.ensureCells record.length with
  | none => none
  | some b =>
    if b.index.length < b.iAlloc then
      some ({ b with index := b.index ++ [b.cells.length], cells := b.cells ++ record },
        b.index.length + 1)
    else none

/-- Appends to a buffer that may not be there yet. -/
def add (size : Nat) (b : Option (IndexedBuf α)) (record : List α) :
    Option (IndexedBuf α × Nat) :=
  match b with
  | none => (create size record).map (·, 1)
  | some b => b.push record

section Replace

variable (lengthAt : List α → Nat) (cells : List α)

/-- Copies the records an index points at behind `ts`. -/
def moveAll : List Nat → (ts : List α) → List Nat × List α
  | [], ts => ([], ts)
  | o :: os, ts =>
    let f := cells.drop o
    let moved := moveAll os (ts ++ f.take (lengthAt f))
    (ts.length :: moved.1, moved.2)

/-- The same without the entry at `skip`, which stays as it is. -/
def moveExcept : (skip : Nat) → List Nat → (ts : List α) → List Nat × List α
  | _, [], ts => ([], ts)
  | 0, o :: os, ts =>
    let moved := moveAll lengthAt cells os ts
    (o :: moved.1, moved.2)
  | skip + 1, o :: os, ts =>
    let f := cells.drop o
    let moved := moveExcept skip os (ts ++ f.take (lengthAt f))
    (ts.length :: moved.1, moved.2)

end Replace

/-- Replaces record `id`: the others are moved together, the new one is added, and its
entry takes the place of the old one. -/
def replace (lengthAt : List α → Nat) (b : IndexedBuf α) (id : Nat) (record : List α) :
    Option (IndexedBuf α) :=
  if id = 0 ∨ b.index.length < id then none
  else
    let moved := moveExcept lengthAt b.cells (id - 1) b.index []
    if b.cells.length < moved.2.length then none
    else
      match push { b with index := moved.1, cells := moved.2 } record with
      | none => none
      | some (b, _) =>
        some { b with index := b.index.dropLast.set (id - 1) (b.index.getLastD 0) }

/-! ## Capacities -/

/-- The capacities a buffer goes through when it grows from a new one. -/
structure Sized (b : IndexedBuf α) : Prop where
  malloced : b.iMalloced = true
  /-- the capacity of the index has wrapped to nothing, or it is a doubled sixteen -/
  index : b.iMax = 0 ∧ 2 ^ 14 ≤ b.index.length ∨
    (∃ k ≤ 10, b.iMax = 16 * 2 ^ k) ∧ b.index.length ≤ b.iMax ∧ b.iMax ≤ b.iAlloc
  cells : ∃ k ≤ 30, b.bMax = 2 ^ k

/-- There is room for one more entry and `l` more cells. -/
structure Room (b : IndexedBuf α) (l : Nat) : Prop where
  index : b.iMax ≠ 0
  cells : b.cells.length + l < 2 ^ 30

/-- A power of two grows to one that is not larger than needed. -/
theorem growTo_pow {need k : Nat} (hneed : need < 2 ^ 30) (hk : k ≤ 30) :
    ∃ j ≤ 30, growTo need (2 ^ k) = 2 ^ j := by
  have hloop : ∀ fuel k, k ≤ 30 → ∃ j ≤ 30, doubleUntil need fuel (2 ^ k) = 2 ^ j := by
    intro fuel
    induction fuel with
    | zero => exact fun k hk => ⟨k, hk, rfl⟩
    | succ fuel ih =>
      intro k hk
      unfold doubleUntil
      split
      · next hge =>
        have hlt : k < 30 := by
          rcases Nat.lt_or_ge k 30 with h | h
          · exact h
          · have := Nat.pow_le_pow_right (show 0 < 2 by omega) h
            omega
        rw [← Nat.pow_succ]
        exact ih (k + 1) hlt
      · exact ⟨k, hk, rfl⟩
  exact hloop (need + 1) k hk

theorem growTo_fits {need k : Nat} (hneed : need < 2 ^ 30) (hk : k ≤ 30) :
    (∃ j ≤ 30, growTo need (2 ^ k) = 2 ^ j) ∧ need < growTo need (2 ^ k) ∧
      growTo need (2 ^ k) < 2 ^ 31 := by
  obtain ⟨j, hj, hgrow⟩ := growTo_pow hneed hk
  refine ⟨⟨j, hj, hgrow⟩, (growTo_spec need (2 ^ k) (Nat.pos_of_ne_zero (by simp))).1, ?_⟩
  rw [hgrow]
  have := Nat.pow_le_pow_right (show 0 < 2 by omega) hj
  omega

/-- A new buffer. -/
theorem create_sized {k : Nat} (hk : k ≤ 30) {record : List α} (h : record.length < 2 ^ 30) :
    ∃ b, create (2 ^ k) record = some b ∧ b.Sized ∧ b.index = [0] ∧ b.cells = record ∧
      b.iMax = 16 := by
  obtain ⟨hpow, hlt, hint⟩ := growTo_fits h hk
  refine ⟨_, if_pos ⟨hlt, hint⟩, ⟨rfl, Or.inr ⟨⟨0, by omega, rfl⟩, ?_, ?_⟩, hpow⟩, rfl, rfl, rfl⟩
  · show 1 ≤ 16
    omega
  · show 16 ≤ 32
    omega

/-- Growing the index leaves room for the next entry. -/
theorem ensureIndex_sized {b : IndexedBuf α} (h : b.Sized) (hroom : b.iMax ≠ 0) :
    b.ensureIndex.index = b.index ∧ b.ensureIndex.cells = b.cells ∧
      b.ensureIndex.bMax = b.bMax ∧ b.ensureIndex.iMalloced = true ∧
      b.index.length < b.ensureIndex.iAlloc ∧
      (b.ensureIndex.iMax = 0 ∧ 2 ^ 14 ≤ b.index.length ∨
        (∃ k ≤ 10, b.ensureIndex.iMax = 16 * 2 ^ k) ∧ b.index.length + 1 ≤ b.ensureIndex.iMax ∧
          b.ensureIndex.iMax ≤ b.ensureIndex.iAlloc) := by
  obtain ⟨hzero, -⟩ | ⟨⟨k, hk, hmax⟩, hle, halloc⟩ := h.index
  · exact absurd hzero hroom
  unfold ensureIndex
  by_cases hfull : b.index.length ≥ b.iMax
  · rw [if_pos hfull, if_pos (Or.inl h.malloced)]
    refine ⟨rfl, rfl, rfl, rfl, ?_, ?_⟩
    · show b.index.length < b.iMax * 2 * 2
      omega
    -- sixteen, doubled ten times, is the last capacity that can be doubled
    rcases Nat.lt_or_ge k 10 with hlt | hge
    · have hpow : 2 ^ k ≤ 2 ^ 9 := Nat.pow_le_pow_right (by omega) (by omega)
      have hmod : b.iMax * 2 % 2 ^ 15 = 16 * 2 ^ (k + 1) := by
        rw [Nat.mod_eq_of_lt (by omega), hmax, Nat.pow_succ]
        omega
      refine Or.inr ⟨⟨k + 1, hlt, hmod⟩, ?_, ?_⟩
      · show _ ≤ b.iMax * 2 % 2 ^ 15
        rw [hmod, Nat.pow_succ]
        omega
      · show b.iMax * 2 % 2 ^ 15 ≤ b.iMax * 2 * 2
        rw [hmod, Nat.pow_succ]
        omega
    · obtain rfl : k = 10 := by omega
      refine Or.inl ⟨?_, by omega⟩
      show b.iMax * 2 % 2 ^ 15 = 0
      omega
  · rw [if_neg hfull]
    exact ⟨rfl, rfl, rfl, h.malloced, by omega, Or.inr ⟨⟨k, hk, hmax⟩, by omega, halloc⟩⟩

theorem ensureCells_sized {b : IndexedBuf α} {l k : Nat} (hk : k ≤ 30) (hpow : b.bMax = 2 ^ k)
    (hroom : b.cells.length + l < 2 ^ 30) :
    ∃ m, (∃ j ≤ 30, m = 2 ^ j) ∧ b.ensureCells l = some { b with bMax := m } := by
  obtain ⟨hgrown, hlt, hint⟩ := growTo_fits hroom hk
  unfold ensureCells
  rw [hpow]
  split
  · exact ⟨_, hgrown, if_pos (And.intro hlt hint)⟩
  · exact ⟨b.bMax, ⟨k, hk, hpow⟩, rfl⟩

/-- Growing the cells changes nothing else. -/
theorem ensureCells_some {b b' : IndexedBuf α} {l : Nat} (h : b.ensureCells l = some b') :
    b' = { b with bMax := b'.bMax } := by
  unfold ensureCells at h
  simp only at h
  split at h
  · split at h
    · rw [← Option.some.inj h]
    · exact absurd h (by simp)
  · rw [← Option.some.inj h]

/-- Where there is room a record is appended. -/
theorem push_sized {b : IndexedBuf α} (h : b.Sized) {record : List α}
    (hroom : b.Room record.length) :
    ∃ b', b.push record = some (b', b.index.length + 1) ∧ b'.Sized ∧
      b'.index = b.index ++ [b.cells.length] ∧ b'.cells = b.cells ++ record ∧
      (b'.iMax = 0 → 2 ^ 14 ≤ b.index.length) := by
  obtain ⟨hindex, hcells, hbMax, hmalloced, halloc, hcap⟩ := ensureIndex_sized h hroom.index
  obtain ⟨k, hk, hpow⟩ := h.cells
  obtain ⟨m, hm, hensure⟩ := ensureCells_sized hk (hbMax.trans hpow)
    (show b.ensureIndex.cells.length + record.length < 2 ^ 30 by rw [hcells]; exact hroom.cells)
  refine ⟨{ b.ensureIndex with
      index := b.index ++ [b.cells.length], cells := b.cells ++ record, bMax := m }, ?_,
    ⟨hmalloced, ?_, hm⟩, rfl, rfl, ?_⟩
  · unfold push
    rw [hensure]
    show (if b.ensureIndex.index.length < b.ensureIndex.iAlloc then _ else none) = _
    rw [hindex, if_pos halloc, hcells]
  · show _ ∧ 2 ^ 14 ≤ (b.index ++ [b.cells.length]).length ∨ _
    rw [List.length_append, List.length_singleton]
    exact hcap.imp (fun h => ⟨h.1, by omega⟩) id
  · intro hzero
    rcases hcap with ⟨-, hfull⟩ | ⟨⟨k, -, hmax⟩, -⟩
    · exact hfull
    · have := Nat.pos_of_ne_zero (show 2 ^ k ≠ 0 by simp)
      have hzero' : b.ensureIndex.iMax = 0 := hzero
      omega

/-- Without room in the index nothing can be added: the index is given back. -/
theorem push_full {b : IndexedBuf α} (hmalloced : b.iMalloced = true) (hfull : b.iMax = 0)
    (record : List α) : b.push record = none := by
  have halloc : b.ensureIndex.iAlloc = 0 := by
    unfold ensureIndex
    rw [hfull, if_pos (Nat.zero_le _), if_pos (Or.inl hmalloced)]
  unfold push
  split
  · rfl
  · next b' hb' =>
    have halloc' : b'.iAlloc = b.ensureIndex.iAlloc := by rw [ensureCells_some hb']
    rw [halloc', halloc, if_neg (by omega)]

/-- What grew by doubling and fits an `int` had room for less than half of it. -/
theorem lt_of_growTo {need k : Nat} (hlt : need < growTo need (2 ^ k))
    (hint : growTo need (2 ^ k) < 2 ^ 31) : need < 2 ^ 30 := by
  have hloop : ∀ fuel k, ∃ j, doubleUntil need fuel (2 ^ k) = 2 ^ j := by
    intro fuel
    induction fuel with
    | zero => exact fun k => ⟨k, rfl⟩
    | succ fuel ih =>
      intro k
      unfold doubleUntil
      split
      · rw [← Nat.pow_succ]
        exact ih (k + 1)
      · exact ⟨k, rfl⟩
  obtain ⟨j, hj⟩ := hloop (need + 1) k
  have hgrow : growTo need (2 ^ k) = 2 ^ j := hj
  rw [hgrow] at hlt hint
  have hle : j ≤ 30 := by
    have := (Nat.pow_lt_pow_iff_right (show 1 < 2 by omega)).mp hint
    omega
  have := Nat.pow_le_pow_right (show 0 < 2 by omega) hle
  omega

/-- A record is appended only where there is room. -/
theorem push_room {b : IndexedBuf α} (h : b.Sized) {record : List α}
    {r : IndexedBuf α × Nat} (hpush : b.push record = some r) : b.Room record.length := by
  have hmax : b.iMax ≠ 0 := by
    intro hzero
    rw [push_full h.malloced hzero] at hpush
    exact absurd hpush (by simp)
  refine ⟨hmax, ?_⟩
  obtain ⟨-, hcells, hbMax, -⟩ := ensureIndex_sized h hmax
  obtain ⟨k, hk, hpow⟩ := h.cells
  unfold push at hpush
  split at hpush
  · exact absurd hpush (by simp)
  · next b' hensure =>
    unfold ensureCells at hensure
    simp only [hcells, hbMax, hpow] at hensure
    split at hensure
    · split at hensure
      · next hfits => exact lt_of_growTo hfits.1 hfits.2
      · exact absurd hensure (by simp)
    · next hlt =>
      have := Nat.pow_le_pow_right (show 0 < 2 by omega) hk
      omega

/-! ## Records -/

/-- The entries of an index are where the records are. -/
def PointAt (cells : List α) : List Nat → List (List α) → Prop
  | [], [] => True
  | o :: os, x :: xs => (o ≤ cells.length ∧ x <+: cells.drop o) ∧ PointAt cells os xs
  | _, _ => False

/-- The records of a buffer. They do not overlap: they fit into it one by one. -/
structure Holds (b : IndexedBuf α) (records : List (List α)) : Prop where
  pointAt : PointAt b.cells b.index records
  total : records.flatten.length ≤ b.cells.length

theorem PointAt.length_eq {cells : List α} {os : List Nat} {xs : List (List α)}
    (h : PointAt cells os xs) : os.length = xs.length := by
  induction os generalizing xs with
  | nil =>
    cases xs with
    | nil => rfl
    | cons x xs => exact absurd h id
  | cons o os ih =>
    cases xs with
    | nil => exact absurd h id
    | cons x xs => rw [List.length_cons, List.length_cons, ih h.2]

/-- Records stay where they are when cells are appended. -/
theorem PointAt.append {cells : List α} {os : List Nat} {xs : List (List α)}
    (h : PointAt cells os xs) (more : List α) : PointAt (cells ++ more) os xs := by
  induction os generalizing xs with
  | nil =>
    cases xs with
    | nil => exact trivial
    | cons x xs => exact absurd h id
  | cons o os ih =>
    cases xs with
    | nil => exact absurd h id
    | cons x xs =>
      obtain ⟨⟨hle, hpre⟩, hrest⟩ := h
      refine ⟨⟨by rw [List.length_append]; omega, ?_⟩, ih hrest⟩
      rw [List.drop_append_of_le_length hle]
      exact hpre.trans (List.prefix_append ..)

/-- What is appended stands where the cells before it end. -/
theorem prefix_drop_left (cells record : List α) :
    record <+: (cells ++ record).drop cells.length :=
  ⟨[], by rw [List.append_nil, List.drop_left]⟩

/-- A record that is appended, with its entry. -/
theorem PointAt.snoc {cells : List α} {os : List Nat} {xs : List (List α)}
    (h : PointAt cells os xs) (record : List α) :
    PointAt (cells ++ record) (os ++ [cells.length]) (xs ++ [record]) := by
  induction os generalizing xs with
  | nil =>
    cases xs with
    | nil =>
      exact ⟨⟨by rw [List.length_append]; omega, prefix_drop_left cells record⟩, trivial⟩
    | cons x xs => exact absurd h id
  | cons o os ih =>
    cases xs with
    | nil => exact absurd h id
    | cons x xs =>
      obtain ⟨hhead, hrest⟩ := h
      have hone : PointAt cells [o] [x] := ⟨hhead, trivial⟩
      exact ⟨(hone.append record).1, ih hrest⟩

/-- A record is found at its entry. -/
theorem PointAt.get {cells : List α} {os : List Nat} {xs : List (List α)}
    (h : PointAt cells os xs) {i : Nat} {x : List α} (hi : xs[i]? = some x) :
    ∃ o, os[i]? = some o ∧ x <+: cells.drop o := by
  induction os generalizing xs i with
  | nil =>
    cases xs with
    | nil => exact absurd hi (by simp)
    | cons y ys => exact absurd h id
  | cons o os ih =>
    cases xs with
    | nil => exact absurd h id
    | cons y ys =>
      cases i with
      | zero =>
        obtain rfl : y = x := by simpa using hi
        exact ⟨o, rfl, h.1.2⟩
      | succ i =>
        rw [List.getElem?_cons_succ] at hi ⊢
        exact ih h.2 hi

theorem push_holds {b b' : IndexedBuf α} {records : List (List α)} (h : Holds b records)
    {record : List α} (hindex : b'.index = b.index ++ [b.cells.length])
    (hcells : b'.cells = b.cells ++ record) : Holds b' (records ++ [record]) := by
  constructor
  · rw [hindex, hcells]
    exact h.pointAt.snoc record
  · have := h.total
    rw [hcells, List.flatten_append, List.flatten_singleton, List.length_append,
      List.length_append]
    omega

section Moving

variable (lengthAt : List α → Nat)

/-- A record shows an end of its own, whatever comes behind it. -/
structure Delimited (record : List α) : Prop where
  le : lengthAt record ≤ record.length
  append : ∀ rest, lengthAt (record ++ rest) = lengthAt record

/-- A record up to that end. -/
def cut (record : List α) : List α := record.take (lengthAt record)

variable {lengthAt}

theorem Delimited.take_eq {record : List α} (h : Delimited lengthAt record) {cells : List α}
    (hpre : record <+: cells) : cells.take (lengthAt cells) = cut lengthAt record := by
  obtain ⟨rest, rfl⟩ := hpre
  rw [h.append, List.take_append_of_le_length h.le]
  rfl

theorem length_cut_le (record : List α) : (cut lengthAt record).length ≤ record.length := by
  unfold cut
  rw [List.length_take]
  omega

/-- Every record is copied up to its end. -/
theorem moveAll_spec {cells : List α} {os : List Nat} {xs : List (List α)} (ts : List α)
    (h : PointAt cells os xs) (hdel : ∀ x ∈ xs, Delimited lengthAt x) :
    (moveAll lengthAt cells os ts).2 = ts ++ (xs.map (cut lengthAt)).flatten ∧
      PointAt (moveAll lengthAt cells os ts).2 (moveAll lengthAt cells os ts).1
        (xs.map (cut lengthAt)) := by
  induction os generalizing xs ts with
  | nil =>
    cases xs with
    | nil => exact ⟨(List.append_nil ts).symm, trivial⟩
    | cons x xs => exact absurd h id
  | cons o os ih =>
    cases xs with
    | nil => exact absurd h id
    | cons x xs =>
      obtain ⟨⟨-, hpre⟩, hrest⟩ := h
      have hcut := (hdel x (by simp)).take_eq hpre
      obtain ⟨hcells, hpoint⟩ := ih (ts ++ cut lengthAt x) hrest
        (fun y hy => hdel y (List.mem_cons_of_mem _ hy))
      unfold moveAll
      simp only [hcut]
      refine ⟨?_, ⟨?_, ?_⟩, hpoint⟩
      · rw [hcells, List.map_cons, List.flatten_cons, List.append_assoc]
      · rw [hcells, List.append_assoc, List.length_append]
        omega
      · rw [hcells, List.append_assoc, List.drop_left]
        exact List.prefix_append ..

/-- Every record but one is copied, and there is a place for a new one. -/
theorem moveExcept_spec {cells : List α} {os : List Nat} {xs : List (List α)} {skip : Nat}
    (ts : List α) (h : PointAt cells os xs) (hdel : ∀ x ∈ xs, Delimited lengthAt x)
    (hskip : skip < xs.length) :
    (moveExcept lengthAt cells skip os ts).2
        = ts ++ ((xs.map (cut lengthAt)).eraseIdx skip).flatten ∧
      (moveExcept lengthAt cells skip os ts).1.length = os.length ∧
      ∀ record, PointAt ((moveExcept lengthAt cells skip os ts).2 ++ record)
        ((moveExcept lengthAt cells skip os ts).1.set skip
          (moveExcept lengthAt cells skip os ts).2.length)
        ((xs.map (cut lengthAt)).set skip record) := by
  induction os generalizing xs ts skip with
  | nil =>
    cases xs with
    | nil => exact absurd hskip (by simp)
    | cons x xs => exact absurd h id
  | cons o os ih =>
    cases xs with
    | nil => exact absurd h id
    | cons x xs =>
      obtain ⟨⟨-, hpre⟩, hrest⟩ := h
      have hdel' : ∀ y ∈ xs, Delimited lengthAt y := fun y hy => hdel y (List.mem_cons_of_mem _ hy)
      cases skip with
      | zero =>
        -- from here on nothing is left out; the entry of the record is set when it is written
        obtain ⟨hcells, hpoint⟩ := moveAll_spec ts hrest hdel'
        unfold moveExcept
        refine ⟨hcells, ?_, fun record => ⟨⟨?_, ?_⟩, hpoint.append record⟩⟩
        · have := hpoint.length_eq
          rw [List.length_map] at this
          rw [List.length_cons, List.length_cons, this, hrest.length_eq]
        · rw [List.length_append]
          omega
        · exact prefix_drop_left _ record
      | succ skip =>
        have hcut := (hdel x (by simp)).take_eq hpre
        obtain ⟨hcells, hlen, hpoint⟩ := ih (ts ++ cut lengthAt x) hrest hdel'
          (by simpa using hskip)
        unfold moveExcept
        simp only [hcut]
        refine ⟨?_, by rw [List.length_cons, List.length_cons, hlen], fun record => ?_⟩
        · rw [hcells, List.append_assoc]
          rfl
        · refine ⟨⟨?_, ?_⟩, hpoint record⟩
          · rw [hcells, List.append_assoc, List.append_assoc, List.length_append]
            omega
          · rw [hcells, List.append_assoc, List.append_assoc, List.drop_left]
            exact List.prefix_append ..

theorem length_flatten_set {xs : List (List α)} {i : Nat} (hi : i < xs.length)
    (record : List α) :
    (xs.set i record).flatten.length = (xs.eraseIdx i).flatten.length + record.length := by
  induction xs generalizing i with
  | nil => exact absurd hi (by simp)
  | cons x xs ih =>
    cases i with
    | zero =>
      show (record ++ xs.flatten).length = xs.flatten.length + _
      rw [List.length_append]
      omega
    | succ i =>
      show (x ++ (xs.set i record).flatten).length = (x ++ (xs.eraseIdx i).flatten).length + _
      rw [List.length_append, List.length_append, ih (by simpa using hi)]
      omega

theorem length_flatten_eraseIdx_cut (xs : List (List α)) (i : Nat) :
    ((xs.map (cut lengthAt)).eraseIdx i).flatten.length ≤ xs.flatten.length := by
  induction xs generalizing i with
  | nil => simp
  | cons x xs ih =>
    have hcut : (cut lengthAt x).length ≤ x.length := length_cut_le x
    have hall : (xs.map (cut lengthAt)).flatten.length ≤ xs.flatten.length := by
      have := ih xs.length
      rwa [List.eraseIdx_of_length_le (Nat.le_of_eq (List.length_map _))] at this
    rw [List.map_cons, List.flatten_cons, List.length_append]
    cases i with
    | zero =>
      show (xs.map (cut lengthAt)).flatten.length ≤ _
      omega
    | succ i =>
      have := ih i
      show (cut lengthAt x ++ ((xs.map (cut lengthAt)).eraseIdx i).flatten).length ≤ _
      rw [List.length_append]
      omega

/-- Replacing a record leaves the others as they are, up to their ends. -/
theorem replace_spec {b : IndexedBuf α} (hsized : b.Sized) {records : List (List α)}
    (h : Holds b records) (hdel : ∀ x ∈ records, Delimited lengthAt x) {id : Nat}
    (hpos : 0 < id) (hle : id ≤ records.length) {record : List α} (hroom : b.Room record.length) :
    ∃ b', b.replace lengthAt id record = some b' ∧ b'.Sized ∧
      b'.index.length = b.index.length ∧
      Holds b' ((records.map (cut lengthAt)).set (id - 1) record) := by
  have hskip : id - 1 < records.length := by omega
  have hlength := h.pointAt.length_eq
  obtain ⟨hcells, hlen, hpoint⟩ := moveExcept_spec [] h.pointAt hdel hskip
  rw [List.nil_append] at hcells
  -- moving never runs into what is still to be moved
  have hfew : (moveExcept lengthAt b.cells (id - 1) b.index []).2.length ≤ b.cells.length := by
    rw [hcells]
    exact Nat.le_trans (length_flatten_eraseIdx_cut records (id - 1)) h.total
  generalize hmoved : moveExcept lengthAt b.cells (id - 1) b.index [] = moved at *
  have hsized' : ({ b with index := moved.1, cells := moved.2 } : IndexedBuf α).Sized :=
    ⟨hsized.malloced, by simpa only [hlen] using hsized.index, hsized.cells⟩
  have hroom' : ({ b with index := moved.1, cells := moved.2 } : IndexedBuf α).Room
      record.length :=
    ⟨hroom.index, by have := hroom.cells; show moved.2.length + _ < _; omega⟩
  obtain ⟨b₁, hpush, hsized₁, hindex₁, hcells₁, hzero₁⟩ := push_sized hsized' hroom'
  simp only at hindex₁ hcells₁ hzero₁
  -- the new record is pushed as the last one and then takes the entry of the old one
  have hlast : b₁.index.dropLast.set (id - 1) (b₁.index.getLastD 0)
      = moved.1.set (id - 1) moved.2.length := by
    rw [hindex₁]
    simp
  refine ⟨{ b₁ with index := moved.1.set (id - 1) moved.2.length }, ?_,
    ⟨hsized₁.malloced, ?_, hsized₁.cells⟩, ?_, ⟨?_, ?_⟩⟩
  · unfold replace
    rw [if_neg (by omega)]
    simp only [hmoved, if_neg (Nat.not_lt.mpr hfew), hpush, hlast]
  · -- there is one entry less than after adding
    rw [List.length_set]
    rcases hsized₁.index with ⟨hz, -⟩ | ⟨hk, hle₁, halloc⟩
    · exact Or.inl ⟨hz, hzero₁ hz⟩
    · rw [hindex₁, List.length_append, List.length_singleton] at hle₁
      exact Or.inr ⟨hk, by show moved.1.length ≤ b₁.iMax; omega, halloc⟩
  · show (moved.1.set (id - 1) moved.2.length).length = _
    rw [List.length_set, hlen]
  · show PointAt b₁.cells (moved.1.set (id - 1) moved.2.length) _
    rw [hcells₁]
    exact hpoint record
  · show _ ≤ b₁.cells.length
    have hmoved₂ : moved.2.length = _ := congrArg List.length hcells
    rw [hcells₁, length_flatten_set (by rwa [List.length_map]), List.length_append]
    omega

end Moving

/-! ## Buffers that may not be there -/

section Optional

variable {lengthAt : List α → Nat}

/-- What a buffer holds, if there is one. -/
def Contains (lengthAt : List α → Nat) (b : Option (IndexedBuf α)) (records : List (List α)) :
    Prop :=
  match b with
  | none => records = []
  | some b => b.Sized ∧ b.Holds records ∧ ∀ x ∈ records, Delimited lengthAt x

/-- There is room for these records, one after the other: the index can be doubled until
it has `2 ^ 14` entries, and once more. -/
def RoomFor (b : Option (IndexedBuf α)) (records : List (List α)) : Prop :=
  records ≠ [] →
    match b with
    | none => records.length ≤ 2 ^ 14 + 1 ∧ records.flatten.length < 2 ^ 30
    | some b =>
      b.iMax ≠ 0 ∧ b.index.length + records.length ≤ 2 ^ 14 + 1 ∧
        b.cells.length + records.flatten.length < 2 ^ 30

instance (b : Option (IndexedBuf α)) (records : List (List α)) : Decidable (RoomFor b records) :=
  match b with
  | none => inferInstanceAs (Decidable (¬ records = [] → _ ∧ _))
  | some _ => inferInstanceAs (Decidable (¬ records = [] → _ ∧ _ ∧ _))

/-- The next record is appended, and there is still room for the others. -/
theorem add_contains {b : Option (IndexedBuf α)} {records rest : List (List α)}
    {record : List α} {k : Nat} (hk : k ≤ 30) (h : Contains lengthAt b records)
    (hdel : Delimited lengthAt record) (hroom : RoomFor b (record :: rest)) :
    ∃ b', add (2 ^ k) b record = some (b', records.length + 1) ∧
      Contains lengthAt (some b') (records ++ [record]) ∧ RoomFor (some b') rest := by
  have hroom := hroom (by simp)
  cases b with
  | none =>
    have hrecords : records = [] := h
    subst hrecords
    obtain ⟨hcount, hcells⟩ := hroom
    rw [List.flatten_cons, List.length_append] at hcells
    obtain ⟨b', hcreate, hsized, hindex, hcells', hmax⟩ := create_sized hk
      (show record.length < 2 ^ 30 by omega)
    refine ⟨b', ?_, ⟨hsized, ⟨?_, ?_⟩, by simpa using hdel⟩, ?_⟩
    · unfold add
      rw [hcreate]
      rfl
    · rw [hindex, hcells']
      exact ⟨⟨Nat.zero_le _, List.prefix_rfl⟩, trivial⟩
    · rw [hcells']
      simp
    · intro _
      rw [List.length_cons] at hcount
      refine ⟨by rw [hmax]; omega, ?_, by rw [hcells']; omega⟩
      rw [hindex, List.length_singleton]
      omega
  | some b =>
    obtain ⟨hsized, hholds, hdels⟩ := h
    obtain ⟨hmax, hcount, hcells⟩ := hroom
    rw [List.flatten_cons, List.length_append] at hcells
    rw [List.length_cons] at hcount
    -- the capacity wraps at the earliest behind the last record there is room for
    obtain ⟨b', hpush, hsized', hindex, hcells', hzero⟩ := push_sized hsized
      (show b.Room record.length from ⟨hmax, by omega⟩)
    refine ⟨b', ?_, ⟨hsized', push_holds hholds hindex hcells', ?_⟩, ?_⟩
    · show b.push record = _
      rw [hpush, hholds.pointAt.length_eq]
    · intro x hx
      rcases List.mem_append.mp hx with hx | hx
      · exact hdels x hx
      · rw [List.mem_singleton.mp hx]
        exact hdel
    · intro hrest
      have hpos := List.length_pos_iff.mpr hrest
      refine ⟨fun hz => ?_, ?_, ?_⟩
      · have := hzero hz
        omega
      · rw [hindex, List.length_append, List.length_singleton]
        omega
      · rw [hcells', List.length_append]
        omega

/-- Adding a record shows that there was room for it. -/
theorem add_room {b : Option (IndexedBuf α)} {records : List (List α)} {record : List α}
    {k : Nat} (h : Contains lengthAt b records) {r : IndexedBuf α × Nat}
    (hadd : add (2 ^ k) b record = some r) : RoomFor b [record] := by
  intro _
  cases b with
  | none =>
    refine ⟨by rw [List.length_singleton]; omega, ?_⟩
    rw [List.flatten_singleton]
    unfold add create at hadd
    simp only at hadd
    split at hadd
    · next hfits => exact lt_of_growTo hfits.1 hfits.2
    · exact absurd hadd (by simp)
  | some b =>
    obtain ⟨hmax, hcells⟩ := push_room h.1 hadd
    refine ⟨hmax, ?_, by rw [List.flatten_singleton]; exact hcells⟩
    obtain ⟨hzero, -⟩ | ⟨⟨j, hj, hcap⟩, hle, -⟩ := h.1.index
    · exact absurd hzero hmax
    · have := Nat.pow_le_pow_right (show 0 < 2 by omega) hj
      rw [List.length_singleton]
      omega

/-- A record is replaced; the others stay, up to their ends. -/
theorem replace_contains {b : IndexedBuf α} {records : List (List α)} {record : List α}
    (hcut : ∀ x : List α, Delimited lengthAt x → Delimited lengthAt (cut lengthAt x))
    (h : Contains lengthAt (some b) records) (hdel : Delimited lengthAt record) {id : Nat}
    (hpos : 0 < id) (hle : id ≤ records.length) (hroom : RoomFor (some b) [record]) :
    ∃ b', b.replace lengthAt id record = some b' ∧
      Contains lengthAt (some b') ((records.map (cut lengthAt)).set (id - 1) record) := by
  obtain ⟨hsized, hholds, hdels⟩ := h
  obtain ⟨hmax, -, hcells⟩ := hroom (by simp)
  rw [List.flatten_singleton] at hcells
  obtain ⟨b', hreplace, hsized', -, hholds'⟩ := replace_spec hsized hholds hdels hpos hle
    (show b.Room record.length from ⟨hmax, hcells⟩)
  refine ⟨b', hreplace, hsized', hholds', fun x hx => ?_⟩
  rcases List.mem_or_eq_of_mem_set hx with hx | rfl
  · obtain ⟨y, hy, rfl⟩ := List.mem_map.mp hx
    exact hcut y (hdels y hy)
  · exact hdel

/-- The number of records of a buffer, if there is one. -/
def used (b : Option (IndexedBuf α)) : Nat := (b.map (·.index.length)).getD 0

theorem Contains.used_eq {b : Option (IndexedBuf α)} {records : List (List α)}
    (h : Contains lengthAt b records) : used b = records.length := by
  cases b with
  | none =>
    rw [show records = [] from h]
    rfl
  | some b => exact h.2.1.pointAt.length_eq

theorem Contains.delimited {b : Option (IndexedBuf α)} {records : List (List α)}
    (h : Contains lengthAt b records) : ∀ x ∈ records, Delimited lengthAt x := by
  cases b with
  | none =>
    intro x hx
    rw [show records = [] from h] at hx
    exact absurd hx (by simp)
  | some b => exact h.2.2

/-- A record is found by its number. -/
theorem Contains.entry_eq {b : Option (IndexedBuf α)} {records : List (List α)}
    (h : Contains lengthAt b records) {i : Nat} {record : List α}
    (hi : records[i]? = some record) :
    ∃ cells, b.bind (·.entry (i + 1)) = some cells ∧ record <+: cells := by
  cases b with
  | none =>
    rw [show records = [] from h] at hi
    exact absurd hi (by simp)
  | some b =>
    obtain ⟨o, ho, hpre⟩ := h.2.1.pointAt.get hi
    refine ⟨b.cells.drop o, ?_, hpre⟩
    show b.entry (i + 1) = _
    unfold entry
    rw [if_neg (by omega), Nat.add_sub_cancel, ho]
    rfl

/-- Room is a matter of lengths only. -/
theorem RoomFor.congr {b : Option (IndexedBuf α)} {xs ys : List (List α)}
    (h : RoomFor b xs) (hlen : xs.map List.length = ys.map List.length) : RoomFor b ys := by
  have hcount : xs.length = ys.length := by
    simpa using congrArg List.length hlen
  have hflat : xs.flatten.length = ys.flatten.length := by
    rw [List.length_flatten, List.length_flatten, hlen]
  intro hne
  have hne' : xs ≠ [] := by
    rintro rfl
    exact hne (List.eq_nil_of_length_eq_zero hcount.symm)
  have h := h hne'
  rwa [hcount, hflat] at h

end Optional

end IndexedBuf

end Sfcb.Lib
