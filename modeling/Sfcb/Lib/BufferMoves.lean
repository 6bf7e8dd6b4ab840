import Mathlib.Data.List.InsertIdx
import Sfcb.Lib.IndexedBuf

/-!
# What is at an entry

Where the entries of a buffer lead after a record was appended (`push_entry`) and after one
was replaced (`replace_entry`), whatever the records are made of.

A record that is moved is copied up to the length it shows at its entry (`copied`). What
comes behind it is what was moved after it, and then the new record.
-/

namespace Sfcb.Lib

namespace IndexedBuf

variable {α : Type}

/-! ## Appending -/

theorem ensureIndex_index (b : IndexedBuf α) :
    b.ensureIndex.index = b.index ∧ b.ensureIndex.cells = b.cells := by
  unfold ensureIndex
  split
  · split <;> exact ⟨rfl, rfl⟩
  · exact ⟨rfl, rfl⟩

/-- What is appended, when it is. -/
theorem push_eq_some {b b' : IndexedBuf α} {record : List α} {id : Nat}
    (h : b.push record = some (b', id)) :
    b'.index = b.index ++ [b.cells.length] ∧ b'.cells = b.cells ++ record ∧
      id = b.index.length + 1 := by
  obtain ⟨hindex, hcells⟩ := ensureIndex_index b
  unfold push at h
  cases hensure : b.ensureIndex.ensureCells record.length with
  | none =>
    rw [hensure] at h
    exact absurd h (by simp)
  | some b₁ =>
    rw [hensure] at h
    simp only at h
    have hsame := ensureCells_some hensure
    split at h
    · obtain ⟨rfl, rfl⟩ := Prod.mk.inj (Option.some.inj h)
      rw [hsame, ← hindex, ← hcells]
      exact ⟨rfl, rfl, rfl⟩
    · exact absurd h (by simp)

theorem add_lengths {size : Nat} {b : Option (IndexedBuf α)} {b' : IndexedBuf α}
    {record : List α} {id : Nat} (h : add size b record = some (b', id)) :
    b'.index.length = used b + 1 ∧
      b'.cells.length = ((b.map (·.cells.length)).getD 0) + record.length := by
  cases b with
  | none =>
    obtain ⟨b₁, hcreate, heq⟩ := Option.map_eq_some_iff.mp h
    obtain ⟨rfl, -⟩ := Prod.mk.inj heq
    unfold create at hcreate
    simp only at hcreate
    split at hcreate
    · rw [← Option.some.inj hcreate]
      exact ⟨rfl, (Nat.zero_add _).symm⟩
    · exact absurd hcreate (by simp)
  | some b =>
    obtain ⟨hindex, hcells, -⟩ := push_eq_some h
    refine ⟨?_, ?_⟩
    · rw [hindex, List.length_append]
      rfl
    · rw [hcells, List.length_append]
      rfl

/-- Room for the first, and then for the others. -/
theorem roomFor_cons {size : Nat} {b : Option (IndexedBuf α)} {b' : IndexedBuf α}
    {record : List α} {rest : List (List α)} {id : Nat} (hfirst : RoomFor b [record])
    (h : add size b record = some (b', id)) (hrest : RoomFor (some b') rest) :
    RoomFor b (record :: rest) := by
  by_cases hnil : rest = []
  · rw [hnil]
    exact hfirst
  intro _
  have hfirst := hfirst (by simp)
  obtain ⟨-, hcount, hbytes⟩ := hrest hnil
  obtain ⟨hindex, hcells⟩ := add_lengths h
  rw [hindex] at hcount
  rw [hcells] at hbytes
  cases b with
  | none =>
    have hused : used (none : Option (IndexedBuf α)) = 0 := rfl
    simp only [hused, Option.map_none, Option.getD_none] at hcount hbytes
    rw [List.flatten_cons, List.length_append, List.length_cons]
    exact ⟨by omega, by omega⟩
  | some b =>
    have hused : used (some b) = b.index.length := rfl
    simp only [hused, Option.map_some, Option.getD_some] at hcount hbytes
    rw [List.flatten_cons, List.length_append, List.length_cons]
    exact ⟨hfirst.1, by omega, by omega⟩

/-- Where there is room for one more, there are not too many yet. -/
theorem RoomFor.used_le {b : Option (IndexedBuf α)} {records : List (List α)}
    (h : RoomFor b records) (hne : records ≠ []) : used b ≤ 2 ^ 14 := by
  have hpos := List.length_pos_iff.mpr hne
  cases b with
  | none => exact Nat.zero_le _
  | some b =>
    obtain ⟨-, hcount, -⟩ := h hne
    show b.index.length ≤ 2 ^ 14
    omega

/-- The room of a buffer that is not there yet. -/
theorem roomFor_none_iff {records : List (List α)} : RoomFor none records ↔
    records.length ≤ 2 ^ 14 + 1 ∧ records.flatten.length < 2 ^ 30 := by
  refine ⟨fun h => ?_, fun h _ => h⟩
  by_cases hnil : records = []
  · rw [hnil]
    exact ⟨Nat.zero_le _, by simp⟩
  · exact h hnil

/-- A record is added and leaves room for others if and only if there is room for all. -/
theorem add_roomFor_iff {lengthAt : List α → Nat} {k : Nat} (hk : k ≤ 30)
    {b : Option (IndexedBuf α)} {records rest : List (List α)} {record : List α}
    (h : Contains lengthAt b records) (hdel : Delimited lengthAt record) :
    (∃ r ∈ add (2 ^ k) b record, RoomFor (some r.1) rest) ↔ RoomFor b (record :: rest) := by
  constructor
  · intro ⟨⟨b', id⟩, hadd, hrest⟩
    exact roomFor_cons (add_room h hadd) hadd hrest
  · intro hroom
    obtain ⟨b', hadd, -, hrest⟩ := add_contains hk h hdel hroom
    exact ⟨_, hadd, hrest⟩

theorem entry_eq_some {b : IndexedBuf α} {id : Nat} {f : List α} :
    b.entry id = some f ↔ id ≠ 0 ∧ ∃ o, b.index[id - 1]? = some o ∧ b.cells.drop o = f := by
  unfold entry
  by_cases hid : id = 0
  · simp [hid]
  · rw [if_neg hid, Option.map_eq_some_iff]
    exact ⟨fun h => ⟨hid, h⟩, fun h => h.2⟩

/-- The other entries have more behind them. -/
theorem push_entry {b b' : IndexedBuf α} {record f : List α} {id j : Nat}
    (h : b.push record = some (b', id)) (hf : b.entry j = some f) (hne : f ≠ []) :
    b'.entry j = some (f ++ record) := by
  obtain ⟨hindex, hcells, -⟩ := push_eq_some h
  obtain ⟨hj, o, ho, rfl⟩ := entry_eq_some.mp hf
  have hlt : o < b.cells.length := Nat.lt_of_not_le fun hle => hne (List.drop_of_length_le hle)
  refine entry_eq_some.mpr ⟨hj, o, ?_, ?_⟩
  · rw [hindex, List.getElem?_append_left (List.getElem?_eq_some_iff.mp ho).1, ho]
  · rw [hcells, List.drop_append_of_le_length (Nat.le_of_lt hlt)]

/-- The new entry has the record. -/
theorem push_entry_self {b b' : IndexedBuf α} {record : List α} {id : Nat}
    (h : b.push record = some (b', id)) : b'.entry id = some record := by
  obtain ⟨hindex, hcells, rfl⟩ := push_eq_some h
  refine entry_eq_some.mpr ⟨by omega, b.cells.length, ?_, ?_⟩
  · rw [hindex, Nat.add_sub_cancel, List.getElem?_concat_length]
  · rw [hcells, List.drop_left]

/-- The same for the first record. -/
theorem add_entry_self {k id : Nat} {ob : Option (IndexedBuf α)} {record : List α}
    {b : IndexedBuf α} (h : IndexedBuf.add k ob record = some (b, id)) :
    b.entry id = some record := by
  unfold IndexedBuf.add at h
  cases ob with
  | none =>
    obtain ⟨b', hcreate, heq⟩ := Option.map_eq_some_iff.mp h
    cases heq
    unfold create at hcreate
    simp only at hcreate
    split at hcreate
    · obtain rfl := Option.some.inj hcreate
      rfl
    · exact absurd hcreate (by simp)
  | some b' => exact push_entry_self h

theorem push_length {b b' : IndexedBuf α} {record : List α} {id : Nat}
    (h : b.push record = some (b', id)) : b'.index.length = b.index.length + 1 := by
  rw [(push_eq_some h).1, List.length_append, List.length_singleton]

/-! ## Moving -/

section Moving

variable (lengthAt : List α → Nat)

/-- What is copied of the record at `o`. -/
def copied (cells : List α) (o : Nat) : List α :=
  (cells.drop o).take (lengthAt (cells.drop o))

variable {lengthAt} {cells : List α}

theorem moveAll_cells (os : List Nat) (ts : List α) :
    (moveAll lengthAt cells os ts).2 = ts ++ (os.map (copied lengthAt cells)).flatten := by
  induction os generalizing ts with
  | nil => simp [moveAll]
  | cons o os ih =>
    unfold moveAll
    simp only
    rw [ih, List.map_cons, List.flatten_cons, List.append_assoc]
    rfl

theorem length_moveAll (os : List Nat) (ts : List α) :
    (moveAll lengthAt cells os ts).1.length = os.length := by
  induction os generalizing ts with
  | nil => rfl
  | cons o os ih =>
    unfold moveAll
    simp only [List.length_cons, ih]

/-- An entry has its record, and the ones that were moved behind it. -/
theorem moveAll_get {os : List Nat} (ts : List α) {i : Nat} (hi : i < os.length) :
    ∃ o', (moveAll lengthAt cells os ts).1[i]? = some o' ∧
      o' ≤ (moveAll lengthAt cells os ts).2.length ∧
      (moveAll lengthAt cells os ts).2.drop o' =
        ((os.drop i).map (copied lengthAt cells)).flatten := by
  induction os generalizing ts i with
  | nil => exact absurd hi (by simp)
  | cons o os ih =>
    have hcells := @moveAll_cells α lengthAt cells (o :: os) ts
    cases i with
    | zero =>
      refine ⟨ts.length, rfl, ?_, ?_⟩
      · rw [hcells, List.length_append]
        omega
      · rw [hcells, List.drop_left, List.drop_zero]
    | succ i => exact ih (ts ++ copied lengthAt cells o) (by simpa using hi)

theorem moveExcept_cells (skip : Nat) (os : List Nat) (ts : List α) :
    (moveExcept lengthAt cells skip os ts).2 =
      ts ++ ((os.eraseIdx skip).map (copied lengthAt cells)).flatten := by
  induction os generalizing skip ts with
  | nil => simp [moveExcept]
  | cons o os ih =>
    cases skip with
    | zero => exact moveAll_cells os ts
    | succ skip =>
      unfold moveExcept
      simp only
      rw [ih, List.eraseIdx_cons_succ, List.map_cons, List.flatten_cons, List.append_assoc]
      rfl

theorem length_moveExcept (skip : Nat) (os : List Nat) (ts : List α) :
    (moveExcept lengthAt cells skip os ts).1.length = os.length := by
  induction os generalizing skip ts with
  | nil =>
    unfold moveExcept
    rfl
  | cons o os ih =>
    cases skip with
    | zero =>
      unfold moveExcept
      simp only [List.length_cons, length_moveAll]
    | succ skip =>
      unfold moveExcept
      simp only [List.length_cons, ih]

/-- The place an entry has among those that are moved. -/
def movedPlace (skip i : Nat) : Nat := if i < skip then i else i - 1

theorem moveExcept_get {os : List Nat} (ts : List α) {skip i : Nat} (hi : i < os.length)
    (hne : i ≠ skip) :
    ∃ o', (moveExcept lengthAt cells skip os ts).1[i]? = some o' ∧
      o' ≤ (moveExcept lengthAt cells skip os ts).2.length ∧
      (moveExcept lengthAt cells skip os ts).2.drop o' =
        (((os.eraseIdx skip).drop (movedPlace skip i)).map (copied lengthAt cells)).flatten := by
  induction os generalizing ts skip i with
  | nil => exact absurd hi (by simp)
  | cons o os ih =>
    have hcells := @moveExcept_cells α lengthAt cells skip (o :: os) ts
    cases skip with
    | zero =>
      obtain ⟨i, rfl⟩ : ∃ k, i = k + 1 := ⟨i - 1, by omega⟩
      exact moveAll_get ts (by simpa using hi)
    | succ skip =>
      cases i with
      | zero =>
        refine ⟨ts.length, rfl, ?_, ?_⟩
        · rw [hcells, List.length_append]
          omega
        · rw [hcells, List.drop_left]
          rfl
      | succ i =>
        have hplace : movedPlace (skip + 1) (i + 1) = movedPlace skip i + 1 := by
          unfold movedPlace
          by_cases hlt : i < skip
          · rw [if_pos (by omega), if_pos hlt]
          · rw [if_neg (by omega), if_neg hlt]
            omega
        rw [hplace]
        exact ih (ts ++ copied lengthAt cells o) (by simpa using hi) (by omega)

theorem eraseIdx_get {β : Type} {os : List β} {skip i : Nat} (hne : i ≠ skip) :
    (os.eraseIdx skip)[movedPlace skip i]? = os[i]? := by
  unfold movedPlace
  by_cases hlt : i < skip
  · rw [if_pos hlt, List.getElem?_eraseIdx_of_lt hlt]
  · rw [if_neg hlt, List.getElem?_eraseIdx_of_ge (by omega), Nat.sub_add_cancel (by omega)]

/-! ## Replacing -/

variable {b b' : IndexedBuf α} {record : List α} {id : Nat}

/-- What is there after a record was replaced, when it was. -/
theorem replace_eq_some (h : b.replace lengthAt id record = some b') :
    id ≠ 0 ∧ id ≤ b.index.length ∧
      (moveExcept lengthAt b.cells (id - 1) b.index []).2.length ≤ b.cells.length ∧
      b'.cells = (moveExcept lengthAt b.cells (id - 1) b.index []).2 ++ record ∧
      b'.index = (moveExcept lengthAt b.cells (id - 1) b.index []).1.set (id - 1)
        (moveExcept lengthAt b.cells (id - 1) b.index []).2.length := by
  unfold replace at h
  split at h
  · exact absurd h (by simp)
  · next hid =>
    simp only at h
    split at h
    · exact absurd h (by simp)
    · next hfew =>
      split at h
      · exact absurd h (by simp)
      · next b₁ id₁ hpush =>
        obtain ⟨hindex, hcells, -⟩ := push_eq_some hpush
        rw [← Option.some.inj h]
        refine ⟨by omega, by omega, by omega, hcells, ?_⟩
        rw [hindex]
        simp

/-- The new record is at its entry. -/
theorem replace_entry_self (h : b.replace lengthAt id record = some b') :
    b'.entry id = some record := by
  obtain ⟨hid, hle, -, hcells, hindex⟩ := replace_eq_some h
  refine entry_eq_some.mpr ⟨hid, _, ?_, by rw [hcells, List.drop_left]⟩
  rw [hindex, List.getElem?_set_self]
  rw [length_moveExcept]
  omega

/-- Another entry has its record as it was copied, those that were copied after it, and the
new one. -/
theorem replace_entry (h : b.replace lengthAt id record = some b') {j : Nat} (hne : j ≠ id)
    (hpos : j ≠ 0) (hle : j ≤ b.index.length) :
    b'.entry j = some ((((b.index.eraseIdx (id - 1)).drop (movedPlace (id - 1) (j - 1))).map
      (copied lengthAt b.cells)).flatten ++ record) := by
  obtain ⟨hid, -, -, hcells, hindex⟩ := replace_eq_some h
  obtain ⟨o, hget, hin, hdrop⟩ := @moveExcept_get α lengthAt b.cells b.index [] (id - 1) (j - 1)
    (by omega) (by omega)
  refine entry_eq_some.mpr ⟨hpos, o, ?_, ?_⟩
  · rw [hindex, List.getElem?_set_ne (by omega), hget]
  · rw [hcells, List.drop_append_of_le_length hin, hdrop]

theorem replace_length (h : b.replace lengthAt id record = some b') :
    b'.index.length = b.index.length := by
  rw [(replace_eq_some h).2.2.2.2, List.length_set, length_moveExcept]

/-- What was copied of a record is still there. -/
theorem replace_prefix (h : b.replace lengthAt id record = some b') {j : Nat} (hne : j ≠ id)
    {f : List α} (hf : b.entry j = some f) :
    ∃ f', b'.entry j = some f' ∧ f.take (lengthAt f) <+: f' := by
  obtain ⟨hj, o, ho, rfl⟩ := entry_eq_some.mp hf
  have hlt := (List.getElem?_eq_some_iff.mp ho).1
  have hid := (replace_eq_some h).1
  refine ⟨_, replace_entry h hne hj (by omega), ?_⟩
  obtain ⟨hin, hget⟩ := List.getElem?_eq_some_iff.mp
    ((eraseIdx_get (show j - 1 ≠ id - 1 by omega)).trans ho)
  rw [List.drop_eq_getElem_cons hin, hget, List.map_cons, List.flatten_cons, List.append_assoc]
  exact List.prefix_append ..

/-! ## Records that are moved -/

variable {records : List (List α)}

/-- Delimited records are copied up to their ends. -/
theorem PointAt.map_copied {os : List Nat} {xs : List (List α)} (h : PointAt cells os xs)
    (hdel : ∀ x ∈ xs, Delimited lengthAt x) :
    os.map (copied lengthAt cells) = xs.map (cut lengthAt) := by
  induction os generalizing xs with
  | nil =>
    cases xs with
    | nil => rfl
    | cons x xs => exact absurd h id
  | cons o os ih =>
    cases xs with
    | nil => exact absurd h id
    | cons x xs =>
      obtain ⟨⟨-, hpre⟩, hrest⟩ := h
      rw [List.map_cons, List.map_cons, ih hrest fun y hy => hdel y (List.mem_cons_of_mem _ hy)]
      exact congrArg (· :: _) ((hdel x List.mem_cons_self).take_eq hpre)

/-- What comes behind record `i` when the others are moved together. -/
def movedBehind (lengthAt : List α → Nat) (records : List (List α)) (skip i : Nat) : List α :=
  (((records.map (cut lengthAt)).eraseIdx skip).drop (movedPlace skip i + 1)).flatten

/-- Both begin with the record up to its end. -/
theorem prefix_cut_iff {x rest : List α} :
    x <+: cut lengthAt x ++ rest ↔ x.drop (lengthAt x) <+: rest := by
  unfold cut
  conv => lhs; arg 1; rw [← List.take_append_drop (lengthAt x) x]
  exact List.prefix_append_right_inj _

/-- A record that is moved reads back if what it has behind its end comes behind it again. -/
theorem replace_keeps_iff (h : b.replace lengthAt id record = some b') (hholds : b.Holds records)
    (hdel : ∀ x ∈ records, Delimited lengthAt x) {j : Nat} (hne : j + 1 ≠ id) {x : List α}
    (hx : records[j]? = some x) :
    (∃ f, b'.entry (j + 1) = some f ∧ x <+: f) ↔
      x.drop (lengthAt x) <+: movedBehind lengthAt records (id - 1) j ++ record := by
  have hlen := hholds.pointAt.length_eq
  have hlt := (List.getElem?_eq_some_iff.mp hx).1
  have hid := (replace_eq_some h).1
  have hentry := replace_entry h hne (by omega) (show j + 1 ≤ b.index.length by omega)
  rw [Nat.add_sub_cancel, List.map_drop, ← List.eraseIdx_map,
    hholds.pointAt.map_copied hdel] at hentry
  have hplace : ((records.map (cut lengthAt)).eraseIdx (id - 1))[movedPlace (id - 1) j]? =
      some (cut lengthAt x) := by
    rw [eraseIdx_get (by omega), List.getElem?_map, hx]
    rfl
  obtain ⟨hin, hget⟩ := List.getElem?_eq_some_iff.mp hplace
  rw [List.drop_eq_getElem_cons hin, hget, List.flatten_cons, List.append_assoc] at hentry
  constructor
  · intro ⟨f, hf, hpre⟩
    rw [← Option.some.inj (hentry.symm.trans hf)] at hpre
    exact prefix_cut_iff.mp hpre
  · intro hpre
    exact ⟨_, hentry, prefix_cut_iff.mpr hpre⟩

/-! ## Room -/

/-- There is memory for one more entry of the index, and for `l` cells behind `n`. -/
structure Takes (b : IndexedBuf α) (n l : Nat) : Prop where
  index : b.index.length < b.ensureIndex.iAlloc
  cells : b.bMax ≤ n + l → n + l < growTo (n + l) b.bMax ∧ growTo (n + l) b.bMax < 2 ^ 31

instance (b : IndexedBuf α) (n l : Nat) : Decidable (b.Takes n l) :=
  decidable_of_iff (b.index.length < b.ensureIndex.iAlloc ∧
    (b.bMax ≤ n + l → n + l < growTo (n + l) b.bMax ∧ growTo (n + l) b.bMax < 2 ^ 31))
    ⟨fun h => ⟨h.1, h.2⟩, fun h => ⟨h.index, h.cells⟩⟩

theorem ensureIndex_bMax (b : IndexedBuf α) : b.ensureIndex.bMax = b.bMax := by
  unfold ensureIndex
  split
  · split <;> rfl
  · rfl

/-- Growing leaves what is in the buffer. -/
theorem ensure_eq_some {l : Nat} (h : b.ensureIndex.ensureCells l = some b') :
    b'.index = b.index ∧ b'.cells = b.cells ∧ b'.iAlloc = b.ensureIndex.iAlloc := by
  obtain ⟨hindex, hcells⟩ := ensureIndex_index b
  have hsame := ensureCells_some h
  exact ⟨by rw [hsame, ← hindex], by rw [hsame, ← hcells], by rw [hsame]⟩

theorem ensure_isSome_iff {l : Nat} : (b.ensureIndex.ensureCells l).isSome = true ↔
    (b.bMax ≤ b.cells.length + l → b.cells.length + l < growTo (b.cells.length + l) b.bMax ∧
      growTo (b.cells.length + l) b.bMax < 2 ^ 31) := by
  unfold ensureCells
  rw [(ensureIndex_index b).2, ensureIndex_bMax]
  simp only
  split
  · next hge =>
    split
    · next hfits => exact ⟨fun _ _ => hfits, fun _ => rfl⟩
    · next hfits => exact ⟨fun h => absurd h (by simp), fun h => absurd (h hge) hfits⟩
  · next hlt => exact ⟨fun _ h => absurd h hlt, fun _ => rfl⟩

/-- A record is appended where there is room for it. -/
theorem push_isSome_iff : (b.push record).isSome = true ↔ b.Takes b.cells.length record.length := by
  unfold push
  constructor
  · intro h
    split at h
    · exact absurd h (by simp)
    next b₁ hensure =>
    obtain ⟨hindex, -, halloc⟩ := ensure_eq_some hensure
    split at h
    · next hlt =>
      exact ⟨by rw [← halloc, ← hindex]; exact hlt,
        ensure_isSome_iff.mp (by rw [hensure]; rfl)⟩
    · exact absurd h (by simp)
  · intro h
    obtain ⟨b₁, hensure⟩ := Option.isSome_iff_exists.mp (ensure_isSome_iff.mpr h.cells)
    obtain ⟨hindex, -, halloc⟩ := ensure_eq_some hensure
    have hlt : b₁.index.length < b₁.iAlloc := by
      rw [halloc, hindex]
      exact h.index
    simp only [hensure, if_pos hlt, Option.isSome_some]

/-- The index of a buffer is as long after its records were moved. -/
theorem takes_moved {index : List Nat} {cells' : List α} {n l : Nat}
    (h : index.length = b.index.length) :
    Takes { b with index, cells := cells' } n l ↔ b.Takes n l := by
  have halloc : ({ b with index, cells := cells' } : IndexedBuf α).ensureIndex.iAlloc =
      b.ensureIndex.iAlloc := by
    unfold ensureIndex
    simp only [h]
    split
    · split <;> rfl
    · rfl
  constructor
  · intro ht
    refine ⟨?_, ht.cells⟩
    have := ht.index
    rw [halloc] at this
    exact h ▸ this
  · intro ht
    refine ⟨?_, ht.cells⟩
    rw [halloc]
    exact h ▸ ht.index

/-- A record can be replaced where there is room for the new one behind the others. -/
theorem replace_isSome_iff (hholds : b.Holds records)
    (hdel : ∀ x ∈ records, Delimited lengthAt x) (hid : id ≠ 0) (hle : id ≤ records.length) :
    (b.replace lengthAt id record).isSome = true ↔
      b.Takes ((records.map (cut lengthAt)).eraseIdx (id - 1)).flatten.length record.length := by
  have hmoved : (moveExcept lengthAt b.cells (id - 1) b.index []).2 =
      ((records.map (cut lengthAt)).eraseIdx (id - 1)).flatten := by
    rw [moveExcept_cells, List.nil_append, ← List.eraseIdx_map, hholds.pointAt.map_copied hdel]
  have hfew := Nat.le_trans (@length_flatten_eraseIdx_cut α lengthAt records (id - 1)) hholds.total
  have hlen := hholds.pointAt.length_eq
  unfold replace
  rw [if_neg (by omega)]
  simp only
  rw [if_neg (by rw [hmoved]; omega), ← @takes_moved α b
    (moveExcept lengthAt b.cells (id - 1) b.index []).1
    (moveExcept lengthAt b.cells (id - 1) b.index []).2 _ _ (length_moveExcept ..),
    ← hmoved]
  refine Iff.trans ?_ push_isSome_iff
  split
  · next hnone => rw [hnone]; simp
  · next hsome => rw [hsome]; simp

end Moving

end IndexedBuf

end Sfcb.Lib
