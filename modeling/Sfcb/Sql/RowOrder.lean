import Mathlib.Data.Int.Order.Basic
import Mathlib.Data.Nat.Find
import Sfcb.Sql.Rows
import Sfcb.Sql.SearchCondition

/-!
# The order of rows

`item_cmp` is what the trees of rows are ordered by: rows that do not differ where both have
a field are equal; else the keys of ORDER BY decide by `row_cmp`, and where these leave it
open the first field that differs.

`compares_iff` says for which rows and keys that is a total order. Fields must not be
missing. In the columns of the keys there must be no text for NULL, and none for NaN where
the column is a real, because `row_cmp` answers the same whichever way round. The keys must
name columns. And the counter of the first loop goes on counting in the loop over the keys:
rows that differ first in column `d` are compared by `d` keys less than there are, but by
one at least, and what is left out must not matter (`Uncut`).

Mirroring notes:
- A null pointer that is followed and a field behind the row are `none`.
- The last loop stops at the same fields as the first one: both are `difference`.
- The parser makes no empty list of keys: `[]` is no ORDER BY.
-/

namespace Sfcb.Sql.RowOrder

open Sfcb.Lib

/-! ## Comparing fields -/

/-- The groups of `type & ~CMPI_ARRAY` that `row_cmp` distinguishes. -/
inductive SqlType where
  | string | signed | unsigned | real | other
  deriving DecidableEq, Repr

structure Order where
  column : Nat
  colSQLType : SqlType
  order : Direction
  deriving DecidableEq, Repr

/-- The fields of a row. -/
abbrev Fields := List (Option Text)

/-- A text for NULL, or no text. -/
def isNull (f : Option Text) : Bool := isNullText (f.map (·.1))

/-- Two texts by their type. NaN is not equal to anything and not below it. -/
def compareTexts (type : SqlType) (s t : Text) : Int :=
  match type with
  | .string => strcasecmp s.1 t.1
  | .signed => threeWay (strtoll s.1) (strtoll t.1)
  | .unsigned => threeWay (strtoull s.1) (strtoull t.1)
  | .real =>
    match strtold s.1, strtold t.1 with
    | some a, some b => threeWay a b
    | _, _ => 1
  | .other => 0

/-- `res *= -1` for descending keys. -/
def directed (order : Direction) (res : Int) : Int := if order = .DSC then res * -1 else res

/-- `row_cmp`. The `-1` for a NULL on the left is overwritten where the type is known. -/
def row_cmp (r1 r2 : Option Text) (type : SqlType) (order : Direction) : Option Int :=
  let res : Option Int :=
    if isNull r2 then some 1
    else if type = .other then some (if isNull r1 then -1 else 0)
    else match r1, r2 with
      | some s, some t => some (compareTexts type s t)
      | _, _ => none
  res.map (directed order)

/-! ## Comparing rows -/

/-- The first column where both rows have a field and these differ, and how. -/
def difference : Nat → Fields → Fields → Option (Nat × Int)
  | i, some s :: r1, some t :: r2 =>
    if strcmp s.1 t.1 ≠ 0 then some (i, strcmp s.1 t.1) else difference (i + 1) r1 r2
  | i, _ :: r1, _ :: r2 => difference (i + 1) r1 r2
  | _, _, _ => none

section Keys

variable (r1 r2 : Fields)

/-- One key of ORDER BY. -/
def keyCmp (o : Order) : Option Int :=
  (r1[o.column]?).bind fun f1 => (r2[o.column]?).bind fun f2 =>
    row_cmp f1 f2 o.colSQLType o.order

/-- The loop over the keys, of which there are `m`. -/
def orderLoop (m : Nat) : Nat → List Order → Option Int
  | _, [] => none
  | i, o :: os =>
    (keyCmp r1 r2 o).bind fun res =>
      if res = 0 ∧ i + 1 < m then orderLoop m (i + 1) os else some res

end Keys

def item_cmp (orderBy : List Order) (r1 r2 : Fields) : Option Int :=
  match difference 0 r1 r2 with
  | none => some 0
  | some (i, res) =>
    let byKeys := if orderBy = [] then some res else orderLoop r1 r2 orderBy.length i orderBy
    byKeys.map fun byKey => if byKey = 0 then res else byKey

/-! ## What is asked for -/

/-- Rows of one width, and the columns whose fields may be missing, a text for NULL, or a text
that is no number. -/
structure RowKind where
  width : Nat
  missing : Nat → Prop
  nullText : Nat → Prop
  nan : Nat → Prop

/-- What a column may have. -/
structure RowKind.Allows (K : RowKind) (c : Nat) (f : Option Text) : Prop where
  missing : f = none → K.missing c
  nullText : ∀ s, f = some s → isNull (some s) = true → K.nullText c
  nan : ∀ s : Text, f = some s → strtold s.1 = none → K.nan c

def RowKind.IsRow (K : RowKind) (x : Fields) : Prop :=
  x.length = K.width ∧ ∀ (c : Nat) f, x[c]? = some f → K.Allows c f

/-- The comparison of a strict total order on rows. -/
structure Compares (K : RowKind) (keys : List Order) : Prop where
  returns : ∀ x y, K.IsRow x → K.IsRow y → ∃ a, item_cmp keys x y = some a
  zero : ∀ x y, K.IsRow x → K.IsRow y → (item_cmp keys x y = some 0 ↔ x = y)
  swap : ∀ x y a b, K.IsRow x → K.IsRow y → item_cmp keys x y = some a →
    item_cmp keys y x = some b → (a < 0 ↔ 0 < b)
  trans : ∀ x y z a b c, K.IsRow x → K.IsRow y → K.IsRow z → item_cmp keys x y = some a →
    item_cmp keys y z = some b → item_cmp keys x z = some c → a < 0 → b < 0 → c < 0

/-- How many keys compare rows that differ first in column `d`. -/
def keptNum (keys : List Order) (d : Nat) : Nat := max 1 (keys.length - d)

/-- Equal fields for the first key are equal for the second one. -/
def Order.Covers (o o' : Order) : Prop :=
  o.column = o'.column ∧ (o.colSQLType = .string ∨ o.colSQLType = o'.colSQLType)

instance (o o' : Order) : Decidable (o.Covers o') := inferInstanceAs (Decidable (_ ∧ _))

/-- A key that is left out although rows may differ in its column has a type without an
order, or a key that is not left out covers it. -/
def Uncut (keys : List Order) : Prop :=
  ∀ (k : Nat) o, keys[k]? = some o → keptNum keys o.column ≤ k →
    o.colSQLType = .other ∨ ∃ j o', j < keptNum keys o.column ∧ keys[j]? = some o' ∧ o'.Covers o

/-- The rows and keys for which all is well. -/
structure Fits (K : RowKind) (keys : List Order) : Prop where
  missing : ∀ c < K.width, ¬ K.missing c
  column : ∀ o ∈ keys, o.column < K.width
  nullText : ∀ o ∈ keys, ¬ K.nullText o.column
  nan : ∀ o ∈ keys, o.colSQLType = .real → ¬ K.nan o.column
  uncut : Uncut keys

/-! ## The loops -/

section Loops

variable {x y : Fields} {keys : List Order}

/-- One key after the other. -/
def lexKeys (x y : Fields) : List Order → Option Int
  | [] => some 0
  | o :: os => (keyCmp x y o).bind fun res => if res = 0 then lexKeys x y os else some res

/-- The loop compares by the first keys. -/
theorem orderLoop_eq {m i : Nat} (hne : keys ≠ []) (hm : m ≤ i + keys.length) :
    orderLoop x y m i keys = lexKeys x y (keys.take (max 1 (m - i))) := by
  induction keys generalizing i with
  | nil => exact absurd rfl hne
  | cons o os ih =>
    rw [show max 1 (m - i) = max 1 (m - i) - 1 + 1 by omega, List.take_succ_cons]
    unfold orderLoop lexKeys
    congr 1
    funext res
    by_cases hres : res = 0
    · by_cases hmore : i + 1 < m
      · rw [List.length_cons] at hm
        have hos : os ≠ [] := List.ne_nil_of_length_pos (by omega)
        rw [if_pos ⟨hres, hmore⟩, if_pos hres, ih hos (by omega)]
        congr 2
        omega
      · rw [if_neg fun h => hmore h.2, if_pos hres, show max 1 (m - i) - 1 = 0 by omega,
          List.take_zero, lexKeys, hres]
    · rw [if_neg fun h => hres h.1, if_neg hres]

theorem item_cmp_of_same (h : difference 0 x y = none) : item_cmp keys x y = some 0 := by
  unfold item_cmp
  rw [h]

/-- Rows that differ are compared by the keys that are not left out. -/
theorem item_cmp_of_differ {d : Nat} {v : Int} (h : difference 0 x y = some (d, v)) :
    item_cmp keys x y = (lexKeys x y (keys.take (keptNum keys d))).map
      fun byKey => if byKey = 0 then v else byKey := by
  unfold item_cmp
  rw [h]
  by_cases hnil : keys = []
  · simp [hnil, lexKeys]
  · simp only [if_neg hnil]
    rw [orderLoop_eq hnil (Nat.le_add_left _ _)]
    rfl

/-- The first key that does not leave it open. -/
theorem lexKeys_of_first {k : Nat} {o : Order} {r : Option Int} (hk : keys[k]? = some o)
    (hbefore : ∀ j < k, ∀ o', keys[j]? = some o' → keyCmp x y o' = some 0)
    (ho : keyCmp x y o = r) (hr : r ≠ some 0) : lexKeys x y keys = r := by
  induction keys generalizing k with
  | nil => exact absurd hk (by simp)
  | cons o' os ih =>
    unfold lexKeys
    cases k with
    | zero =>
      obtain rfl : o' = o := by simpa using hk
      rw [ho]
      cases r with
      | none => rfl
      | some v =>
        rw [Option.bind_some, if_neg fun h => hr (by rw [h])]
    | succ k =>
      rw [hbefore 0 (by omega) o' rfl, Option.bind_some, if_pos rfl]
      exact ih (by simpa using hk) fun j hj o'' ho'' =>
        hbefore (j + 1) (by omega) o'' (by simpa using ho'')

theorem lexKeys_tie (h : ∀ o ∈ keys, keyCmp x y o = some 0) : lexKeys x y keys = some 0 := by
  induction keys with
  | nil => rfl
  | cons o os ih =>
    rw [lexKeys, h o List.mem_cons_self, Option.bind_some, if_pos rfl]
    exact ih fun o' ho' => h o' (List.mem_cons_of_mem _ ho')

/-- Rows that are equal where both have a field. -/
theorem difference_eq_none {i : Nat} (h : ∀ (c : Nat) (s t : Text), x[c]? = some (some s) →
    y[c]? = some (some t) → s = t) : difference i x y = none := by
  induction x generalizing y i with
  | nil => unfold difference; rfl
  | cons f x ih =>
    cases y with
    | nil => cases f <;> rfl
    | cons g y =>
      have hrest : difference (i + 1) x y = none := ih fun c s t hs ht =>
        h (c + 1) s t (by simpa using hs) (by simpa using ht)
      cases f with
      | none => exact hrest
      | some s =>
        cases g with
        | none => exact hrest
        | some t =>
          obtain rfl := h 0 s t rfl rfl
          unfold difference
          rw [if_neg (not_not.mpr (strcmp_self s.1))]
          exact hrest

/-- The first column that differs. -/
theorem difference_of_first {i d : Nat} {s t : Text} (hx : x[d]? = some (some s))
    (hy : y[d]? = some (some t)) (hne : strcmp s.1 t.1 ≠ 0)
    (hsame : ∀ c < d, x[c]? = y[c]?) : difference i x y = some (i + d, strcmp s.1 t.1) := by
  induction d generalizing i x y with
  | zero =>
    cases x with
    | nil => exact absurd hx (by simp)
    | cons f x =>
      cases y with
      | nil => exact absurd hy (by simp)
      | cons g y =>
        obtain rfl : f = some s := by simpa using hx
        obtain rfl : g = some t := by simpa using hy
        unfold difference
        rw [if_pos hne]
        rfl
  | succ d ih =>
    cases x with
    | nil => exact absurd hx (by simp)
    | cons f x =>
      cases y with
      | nil => exact absurd hy (by simp)
      | cons g y =>
        obtain rfl : f = g := by simpa using hsame 0 (by omega)
        have hrest : difference (i + 1) x y = some (i + 1 + d, strcmp s.1 t.1) :=
          ih (by simpa using hx) (by simpa using hy) fun c hc => by
            simpa using hsame (c + 1) (by omega)
        rw [show i + (d + 1) = i + 1 + d by omega]
        cases f with
        | none => exact hrest
        | some u =>
          unfold difference
          rw [if_neg (not_not.mpr (strcmp_self u.1))]
          exact hrest

end Loops

/-! ## Rows that fit -/

section Fitting

variable {K : RowKind} {keys : List Order} {x y : Fields} {o : Order} {c : Nat}

/-- The text of a field. -/
def textAt (x : Fields) (c : Nat) : Text := ((x[c]?).join).getD ⟨[], zero_notMem_nil⟩

/-- A key, where both rows have texts in its column. -/
def keyCompar (o : Order) (x y : Fields) : Int :=
  directed o.order (compareTexts o.colSQLType (textAt x o.column) (textAt y o.column))

theorem field_eq_textAt (hx : K.IsRow x) (hc : c < K.width) (hmissing : ¬ K.missing c) :
    x[c]? = some (some (textAt x c)) := by
  have hlt : c < x.length := by rw [hx.1]; exact hc
  obtain ⟨f, hf⟩ : ∃ f, x[c]? = some f := ⟨x[c], List.getElem?_eq_getElem hlt⟩
  cases f with
  | none => exact absurd ((hx.2 c none hf).missing rfl) hmissing
  | some s =>
    unfold textAt
    rw [hf]
    rfl

theorem row_cmp_texts {s t : Text} (hs : isNull (some s) = false) (ht : isNull (some t) = false)
    (type : SqlType) (order : Direction) :
    row_cmp (some s) (some t) type order = some (directed order (compareTexts type s t)) := by
  unfold row_cmp
  simp only [hs, ht]
  by_cases hother : type = .other
  · simp [hother, compareTexts]
  · simp [hother]

/-- Without NULL a key compares the texts. -/
theorem keyCmp_eq (hx : K.IsRow x) (hy : K.IsRow y) (hc : o.column < K.width)
    (hmissing : ¬ K.missing o.column) (hnull : ¬ K.nullText o.column) :
    keyCmp x y o = some (keyCompar o x y) := by
  have hfx := field_eq_textAt hx hc hmissing
  have hfy := field_eq_textAt hy hc hmissing
  have hnot : ∀ z : Fields, K.IsRow z → z[o.column]? = some (some (textAt z o.column)) →
      isNull (some (textAt z o.column)) = false := fun z hz hfz =>
    Bool.eq_false_iff.mpr fun h => hnull ((hz.2 _ _ hfz).nullText _ rfl h)
  unfold keyCmp keyCompar
  rw [hfx, hfy]
  exact row_cmp_texts (hnot x hx hfx) (hnot y hy hfy) o.colSQLType o.order

theorem totalOrder_strcasecmp : TotalOrder fun s t : Text => strcasecmp s.1 t.1 := by
  have hfold : ∀ s : Text, 0 ∉ fold s.1 := by
    intro s hmem
    obtain ⟨b, hb, hzero⟩ := List.mem_map.mp hmem
    exact toLower_ne_zero (fun h => s.2 (by rwa [h] at hb)) hzero
  exact totalOrder_strcmp.comap fun s => (⟨fold s.1, hfold s⟩ : Text)

theorem TotalOrder.directed {α : Type} {compar : α → α → Int} (h : TotalOrder compar)
    (order : Direction) : TotalOrder fun a b => directed order (compar a b) := by
  cases order with
  | ASC => exact h
  | DSC => exact h.neg

/-- A key orders the rows. -/
theorem totalOrder_keyCompar (hc : o.column < K.width) (hmissing : ¬ K.missing o.column)
    (hnan : o.colSQLType = .real → ¬ K.nan o.column) :
    TotalOrder fun x y : {x // K.IsRow x} => keyCompar o x.1 y.1 := by
  unfold keyCompar
  refine TotalOrder.directed ?_ o.order
  cases htype : o.colSQLType with
  | string => exact totalOrder_strcasecmp.comap fun x : {x // K.IsRow x} => textAt x.1 o.column
  | signed =>
    exact totalOrder_threeWay.comap fun x : {x // K.IsRow x} => strtoll (textAt x.1 o.column).1
  | unsigned =>
    exact totalOrder_threeWay.comap fun x : {x // K.IsRow x} => strtoull (textAt x.1 o.column).1
  | real =>
    have hnumber : ∀ x : {x // K.IsRow x}, ∃ a, strtold (textAt x.1 o.column).1 = some a := by
      intro x
      refine Option.ne_none_iff_exists'.mp fun hnone => hnan htype ?_
      exact (x.2.2 _ _ (field_eq_textAt x.2 hc hmissing)).nan _ rfl hnone
    choose value hvalue using hnumber
    have heq : ∀ x y : {x // K.IsRow x}, compareTexts .real (textAt x.1 o.column)
        (textAt y.1 o.column) = threeWay (value x) (value y) := by
      intro x y
      unfold compareTexts
      simp only [hvalue x, hvalue y]
    simp only [heq]
    exact totalOrder_threeWay.comap value
  | other => exact ⟨fun x y => by simp [compareTexts], fun x y z _ _ => Int.le_refl 0⟩

/-- The texts of the rows, one by one. -/
def textsCompar (x y : Fields) : Int :=
  lexCompar (fun s t : Text => strcmp s.1 t.1) (x.map (·.getD ⟨[], zero_notMem_nil⟩))
    (y.map (·.getD ⟨[], zero_notMem_nil⟩))

/-- Rows without missing fields: the first column that differs. -/
theorem difference_spec {i : Nat} (hlength : x.length = y.length) (hx : none ∉ x)
    (hy : none ∉ y) : (difference i x y = none ∧ x = y) ∨
      ∃ d, difference i x y = some (i + d, textsCompar x y) ∧ textsCompar x y ≠ 0 ∧
        ∀ c < d, x[c]? = y[c]? := by
  induction x generalizing y i with
  | nil =>
    obtain rfl : y = [] := List.length_eq_zero_iff.mp hlength.symm
    exact .inl ⟨rfl, rfl⟩
  | cons f x ih =>
    obtain ⟨g, y, rfl⟩ := List.exists_cons_of_length_eq_add_one hlength.symm
    cases f with
    | none => exact absurd List.mem_cons_self hx
    | some s =>
    cases g with
    | none => exact absurd List.mem_cons_self hy
    | some t =>
    unfold difference textsCompar
    simp only [List.map_cons, Option.getD_some, lexCompar]
    by_cases hst : strcmp s.1 t.1 = 0
    · obtain rfl : s = t := Subtype.ext ((strcmp_eq_zero_iff_of_notMem s.2 t.2).mp hst)
      rw [if_neg (not_not.mpr hst), if_neg (not_not.mpr hst)]
      obtain ⟨hnone, rfl⟩ | ⟨d, hsome, hne, hsame⟩ := @ih y (i + 1) (by simpa using hlength)
        (fun h => hx (List.mem_cons_of_mem _ h)) fun h => hy (List.mem_cons_of_mem _ h)
      · exact .inl ⟨hnone, rfl⟩
      · refine .inr ⟨d + 1, by rw [hsome, Nat.add_assoc, Nat.add_comm 1 d]; rfl, hne, ?_⟩
        intro c hc
        cases c with
        | zero => rfl
        | succ c => simpa using hsame c (by omega)
    · rw [if_pos hst, if_pos hst]
      exact .inr ⟨0, rfl, hst, fun c hc => absurd hc (Nat.not_lt_zero c)⟩

/-- Texts that differ only in their case are equal for all types. -/
theorem compareTexts_of_fold {type : SqlType} {s t : Text} (h : fold s.1 = fold t.1)
    (hs : type = .real → strtold s.1 ≠ none) : compareTexts type s t = 0 := by
  unfold compareTexts
  cases type with
  | string => exact (strcasecmp_eq_zero_iff s.2 t.2).mpr h
  | signed =>
    rw [← strtoll_fold s.1, h, strtoll_fold]
    exact totalOrder_threeWay.self _
  | unsigned =>
    rw [← strtoull_fold s.1, h, strtoull_fold]
    exact totalOrder_threeWay.self _
  | real =>
    obtain ⟨a, ha⟩ := Option.ne_none_iff_exists'.mp (hs rfl)
    rw [← strtold_fold t.1, ← h, strtold_fold, ha]
    exact totalOrder_threeWay.self a
  | other => rfl

@[simp] theorem directed_eq_zero {order : Direction} {a : Int} : directed order a = 0 ↔ a = 0 := by
  unfold directed
  split <;> omega

theorem directed_one_ne (order : Direction) : directed order 1 ≠ 0 := by
  rw [ne_eq, directed_eq_zero]
  exact Int.one_ne_zero

/-- What a covering key leaves open the other one leaves open. -/
theorem Order.Covers.keyCompar_eq {o' : Order} (h : o'.Covers o)
    (hreal : o.colSQLType = .real → strtold (textAt x o.column).1 ≠ none)
    (hzero : keyCompar o' x y = 0) : keyCompar o x y = 0 := by
  unfold keyCompar at hzero ⊢
  rw [directed_eq_zero, h.1] at hzero
  rw [directed_eq_zero]
  obtain htype | htype := h.2
  · rw [htype] at hzero
    exact compareTexts_of_fold ((strcasecmp_eq_zero_iff (textAt x o.column).2
      (textAt y o.column).2).mp hzero) hreal
  · rwa [htype] at hzero

theorem lexKeys_eq (h : ∀ o ∈ keys, keyCmp x y o = some (keyCompar o x y)) :
    lexKeys x y keys = some (comparBy (keys.map keyCompar) x y) := by
  induction keys with
  | nil => rfl
  | cons o os ih =>
    rw [lexKeys, h o List.mem_cons_self, List.map_cons, comparBy,
      ih fun o ho => h o (List.mem_cons_of_mem _ ho), Option.bind_some]
    by_cases hzero : keyCompar o x y = 0
    · rw [if_pos hzero, if_neg (not_not.mpr hzero)]
    · rw [if_neg hzero, if_pos hzero]

/-- The order of rows: by the keys, and then by the texts. -/
def rowCompar (keys : List Order) : Fields → Fields → Int :=
  comparBy (keys.map keyCompar ++ [textsCompar])

theorem textAt_of_same (h : x[c]? = y[c]?) : textAt x c = textAt y c := by
  unfold textAt
  rw [h]

/-- Keys that are left out do not matter. -/
theorem Fits.kept (h : Fits K keys) (hx : K.IsRow x) {d : Nat}
    (hsame : ∀ c < d, x[c]? = y[c]?)
    (hzero : ∀ o ∈ keys.take (keptNum keys d), keyCompar o x y = 0) :
    ∀ o ∈ keys, keyCompar o x y = 0 := by
  intro o ho
  have hreal : o.colSQLType = .real → strtold (textAt x o.column).1 ≠ none := fun hr hnone =>
    h.nan o ho hr ((hx.2 _ _ (field_eq_textAt hx (h.column o ho)
      (h.missing _ (h.column o ho)))).nan _ rfl hnone)
  obtain ⟨k, hk⟩ := List.mem_iff_getElem?.mp ho
  by_cases hkept : k < keptNum keys d
  · exact hzero o (List.mem_iff_getElem?.mpr ⟨k, by rw [List.getElem?_take_of_lt hkept, hk]⟩)
  by_cases hbefore : o.column < d
  · unfold keyCompar
    rw [directed_eq_zero, ← textAt_of_same (hsame _ hbefore)]
    exact compareTexts_of_fold rfl hreal
  have hle : keptNum keys o.column ≤ keptNum keys d := by
    unfold keptNum
    omega
  obtain hother | ⟨j, o', hj, ho', hcovers⟩ := h.uncut k o hk (by omega)
  · unfold keyCompar
    rw [hother]
    exact directed_eq_zero.mpr rfl
  · refine hcovers.keyCompar_eq hreal (hzero o' (List.mem_iff_getElem?.mpr ⟨j, ?_⟩))
    rw [List.getElem?_take_of_lt (by omega), ho']

theorem Fits.none_notMem (h : Fits K keys) (hx : K.IsRow x) : none ∉ x := by
  intro hmem
  obtain ⟨c, hc⟩ := List.mem_iff_getElem?.mp hmem
  have hlt := (List.getElem?_eq_some_iff.mp hc).1
  exact h.missing c (by rw [← hx.1]; exact hlt) ((hx.2 c none hc).missing rfl)

/-- `item_cmp` is the order of the rows. -/
theorem Fits.item_cmp_eq (h : Fits K keys) (hx : K.IsRow x) (hy : K.IsRow y) :
    item_cmp keys x y = some (rowCompar keys x y) := by
  have hkeys : ∀ os : List Order, (∀ o ∈ os, o ∈ keys) →
      ∀ o ∈ os, keyCmp x y o = some (keyCompar o x y) := fun os hos o ho =>
    keyCmp_eq hx hy (h.column o (hos o ho)) (h.missing _ (h.column o (hos o ho)))
      (h.nullText o (hos o ho))
  have hfull : rowCompar keys x y = if comparBy (keys.map keyCompar) x y ≠ 0 then
      comparBy (keys.map keyCompar) x y else textsCompar x y := by
    unfold rowCompar
    rw [comparBy_append]
    simp only [comparBy, ne_eq, ite_not]
    congr 1
    split
    · next hz => exact hz.symm
    · rfl
  obtain ⟨hdiff, rfl⟩ | ⟨d, hdiff, hne, hsame⟩ :=
    @difference_spec x y 0 (hx.1.trans hy.1.symm) (h.none_notMem hx)
      (h.none_notMem hy)
  · have hkeyzero : comparBy (keys.map keyCompar) x x = 0 := by
      refine comparBy_eq_zero_iff.mpr fun c hc => ?_
      obtain ⟨o, ho, rfl⟩ := List.mem_map.mp hc
      exact (totalOrder_keyCompar (h.column o ho) (h.missing _ (h.column o ho))
        (h.nan o ho)).self ⟨x, hx⟩
    rw [item_cmp_of_same hdiff, hfull, hkeyzero, if_neg (by simp)]
    refine congrArg some (Eq.symm ((lexCompar_eq_zero_iff totalOrder_strcmp ?_ rfl).mpr rfl))
    exact fun s t hst => Subtype.ext ((strcmp_eq_zero_iff_of_notMem s.2 t.2).mp hst)
  · rw [Nat.zero_add] at hdiff
    rw [item_cmp_of_differ hdiff, lexKeys_eq (hkeys _ fun o ho => List.mem_of_mem_take ho),
      Option.map_some, hfull]
    congr 1
    have hsplit : comparBy (keys.map keyCompar) x y =
        if comparBy ((keys.take (keptNum keys d)).map keyCompar) x y ≠ 0 then
          comparBy ((keys.take (keptNum keys d)).map keyCompar) x y
        else comparBy ((keys.drop (keptNum keys d)).map keyCompar) x y := by
      rw [← comparBy_append, ← List.map_append, List.take_append_drop]
    by_cases hzero : comparBy ((keys.take (keptNum keys d)).map keyCompar) x y = 0
    · have hall : comparBy (keys.map keyCompar) x y = 0 := by
        refine comparBy_eq_zero_iff.mpr fun c hc => ?_
        obtain ⟨o, ho, rfl⟩ := List.mem_map.mp hc
        exact h.kept hx hsame (fun o ho => comparBy_eq_zero_iff.mp hzero _
          (List.mem_map_of_mem ho)) o ho
      rw [if_pos hzero, hall, if_neg (by simp)]
    · rw [hsplit, if_pos hzero, if_neg hzero, if_pos hzero]

theorem totalOrder_textsCompar :
    TotalOrder fun x y : {x // K.IsRow x} => textsCompar x.1 y.1 where
  swap x y := lexCompar_swap totalOrder_strcmp _ _
  trans x y z := by
    have hlength : ∀ x : {x // K.IsRow x},
        (x.1.map (·.getD (⟨[], zero_notMem_nil⟩ : Text))).length = K.width :=
      fun x => (List.length_map _).trans x.2.1
    exact lexCompar_trans totalOrder_strcmp ((hlength x).trans (hlength y).symm)
      ((hlength y).trans (hlength z).symm)

theorem Fits.totalOrder (h : Fits K keys) :
    TotalOrder fun x y : {x // K.IsRow x} => rowCompar keys x.1 y.1 := by
  have heq : (fun x y : {x // K.IsRow x} => rowCompar keys x.1 y.1) =
      comparBy ((keys.map keyCompar ++ [textsCompar]).map fun c x y => c x.1 y.1) := by
    funext x y
    exact (comparBy_comap (fun x : {x // K.IsRow x} => x.1) _ x y).symm
  rw [heq]
  refine totalOrder_comparBy fun c hc => ?_
  obtain ⟨c, hmem, rfl⟩ := List.mem_map.mp hc
  obtain hkey | hlast := List.mem_append.mp hmem
  · obtain ⟨o, ho, rfl⟩ := List.mem_map.mp hkey
    exact totalOrder_keyCompar (h.column o ho) (h.missing _ (h.column o ho)) (h.nan o ho)
  · obtain rfl := List.mem_singleton.mp hlast
    exact totalOrder_textsCompar

/-- Only equal rows compare equal. -/
theorem Fits.rowCompar_eq_zero_iff (h : Fits K keys) (hx : K.IsRow x) (hy : K.IsRow y) :
    rowCompar keys x y = 0 ↔ x = y := by
  constructor
  · intro hzero
    have htexts : textsCompar x y = 0 :=
      comparBy_eq_zero_iff.mp hzero _ (List.mem_append_right _ (List.mem_singleton_self _))
    obtain ⟨-, heq⟩ | ⟨d, -, hne, -⟩ := @difference_spec x y 0 (hx.1.trans hy.1.symm)
      (h.none_notMem hx) (h.none_notMem hy)
    · exact heq
    · exact absurd htexts hne
  · rintro rfl
    exact h.totalOrder.self ⟨x, hx⟩

/-- Where the rows and keys fit, the laws hold. -/
theorem Fits.compares (h : Fits K keys) : Compares K keys where
  returns x y hx hy := ⟨_, h.item_cmp_eq hx hy⟩
  zero x y hx hy := by
    rw [h.item_cmp_eq hx hy, Option.some.injEq]
    exact h.rowCompar_eq_zero_iff hx hy
  swap x y a b hx hy ha hb := by
    obtain rfl := Option.some.inj ((h.item_cmp_eq hx hy).symm.trans ha)
    obtain rfl := Option.some.inj ((h.item_cmp_eq hy hx).symm.trans hb)
    exact h.totalOrder.swap ⟨x, hx⟩ ⟨y, hy⟩
  trans x y z a b c hx hy hz ha hb hc hlt₁ hlt₂ := by
    obtain rfl := Option.some.inj ((h.item_cmp_eq hx hy).symm.trans ha)
    obtain rfl := Option.some.inj ((h.item_cmp_eq hy hz).symm.trans hb)
    obtain rfl := Option.some.inj ((h.item_cmp_eq hx hz).symm.trans hc)
    exact @TotalOrder.lt_trans _ _ h.totalOrder ⟨x, hx⟩ ⟨y, hy⟩ ⟨z, hz⟩ hlt₁ hlt₂

end Fitting

/-! ## The other models -/

/-- The types of the columns in conditions. -/
def SqlType.ofColType : ColType → SqlType
  | .string => .string
  | .signed => .signed
  | .unsigned => .unsigned

theorem row_cmp_eq (r1 r2 : Option Text) (type : ColType) (order : Direction) :
    row_cmp r1 r2 (.ofColType type) order =
      Sql.row_cmp (r1.map (·.1)) (r2.map (·.1)) type order := by
  cases type <;> cases r1 <;> cases r2 <;> rfl

/-- Rows without missing fields and ORDER BY. -/
theorem item_cmp_rows {w : Nat} (r1 r2 : Row w) :
    item_cmp [] (r1.row.map some) (r2.row.map some) = some (Sql.item_cmp r1 r2) := by
  have htexts : textsCompar (r1.row.map some) (r2.row.map some) = Sql.item_cmp r1 r2 := by
    unfold textsCompar
    rw [List.map_map, List.map_map]
    exact congrArg₂ (lexCompar _) (List.map_id _) (List.map_id _)
  have hnone : ∀ r : Row w, none ∉ r.row.map some := by simp
  obtain ⟨hdiff, heq⟩ | ⟨d, hdiff, -, -⟩ := @difference_spec (r1.row.map some) (r2.row.map some) 0
    (by rw [List.length_map, List.length_map, r1.size, r2.size]) (hnone r1) (hnone r2)
  · have hrow : r1.row = r2.row := (List.map_injective_iff.mpr fun _ _ h => Option.some.inj h) heq
    rw [item_cmp_of_same hdiff, (item_cmp_eq_zero_iff r1 r2).mpr hrow]
  · rw [item_cmp_of_differ hdiff, htexts, List.take_nil]
    rfl

/-! ## Rows that do not fit -/

section Samples

variable {K : RowKind} {keys : List Order}

def textA : Text := ⟨lit "A", by decide⟩

def texta : Text := ⟨lit "a", zero_notMem_a⟩

/-- `A` in all columns, but for column `a` and the first one. -/
def sample (w a : Nat) (f : Option Text) (first : Text) : Fields :=
  (List.range w).map fun c => if c = a then f else if c = 0 then some first else some textA

theorem sample_get {w a c : Nat} {f : Option Text} {p : Text} (hc : c < w) :
    (sample w a f p)[c]? = some (if c = a then f else if c = 0 then some p else some textA) := by
  unfold sample
  rw [List.getElem?_map, List.getElem?_range hc]
  rfl

/-- A letter in either case. -/
def IsLetterA (p : Text) : Prop := p = textA ∨ p = texta

theorem IsLetterA.plain {p : Text} (h : IsLetterA p) :
    isNull (some p) = false ∧ strtold p.1 = some 0 ∧ fold p.1 = lit "a" := by
  obtain rfl | rfl := h <;> decide +kernel

theorem IsLetterA.tie {p q : Text} (hp : IsLetterA p) (hq : IsLetterA q) (type : SqlType)
    (order : Direction) : row_cmp (some p) (some q) type order = some 0 := by
  have hzero : compareTexts type p q = 0 := by
    refine compareTexts_of_fold (hp.plain.2.2.trans hq.plain.2.2.symm) fun _ => ?_
    rw [hp.plain.2.1]
    exact Option.some_ne_none 0
  rw [row_cmp_texts hp.plain.1 hq.plain.1, hzero]
  exact congrArg some (directed_eq_zero.mpr rfl)

theorem isRow_sample {a : Nat} {f : Option Text} {p : Text} (hp : IsLetterA p)
    (hf : a < K.width → K.Allows a f) : K.IsRow (sample K.width a f p) := by
  have hplain : ∀ {q : Text} (c : Nat), IsLetterA q → K.Allows c (some q) := by
    intro q c hq
    refine ⟨fun h => absurd h (by simp), fun s hs hnull => ?_, fun s hs hnan => ?_⟩
    · obtain rfl := Option.some.inj hs
      rw [hq.plain.1] at hnull
      exact absurd hnull (by simp)
    · obtain rfl := Option.some.inj hs
      rw [hq.plain.2.1] at hnan
      exact absurd hnan (by simp)
  refine ⟨by simp [sample], fun c g hg => ?_⟩
  have hc : c < K.width := by
    have := (List.getElem?_eq_some_iff.mp hg).1
    simpa [sample] using this
  rw [sample_get hc] at hg
  obtain rfl := Option.some.inj hg
  by_cases hca : c = a
  · rw [if_pos hca, hca]
    exact hf (by rw [← hca]; exact hc)
  · rw [if_neg hca]
    split
    · exact hplain c hp
    · exact hplain c (.inl rfl)

/-- Keys on other columns leave samples open. -/
theorem keyCmp_sample {w a : Nat} {f g : Option Text} {p q : Text} (hp : IsLetterA p)
    (hq : IsLetterA q) {o : Order} (ho : o.column < w) :
    keyCmp (sample w a f p) (sample w a g q) o =
      if o.column = a then row_cmp f g o.colSQLType o.order else some 0 := by
  unfold keyCmp
  rw [sample_get ho, sample_get ho, Option.bind_some, Option.bind_some]
  by_cases hoa : o.column = a
  · rw [if_pos hoa, if_pos hoa, if_pos hoa]
  · rw [if_neg hoa, if_neg hoa, if_neg hoa]
    split
    · exact hp.tie hq _ _
    · exact IsLetterA.tie (.inl rfl) (.inl rfl) _ _

/-- Samples with different first letters, or which differ in the first column, differ there. -/
theorem difference_sample_first {w a : Nat} {s t p q : Text} (hw : 0 < w)
    (hst : strcmp s.1 t.1 ≠ 0) (hpq : strcmp p.1 q.1 ≠ 0) :
    ∃ v ≠ 0, difference 0 (sample w a (some s) p) (sample w a (some t) q) = some (0, v) := by
  by_cases ha : 0 = a
  · refine ⟨_, hst, difference_of_first ?_ ?_ hst fun c hc => absurd hc (Nat.not_lt_zero c)⟩
    · rw [sample_get hw, if_pos ha]
    · rw [sample_get hw, if_pos ha]
  · refine ⟨_, hpq, difference_of_first ?_ ?_ hpq fun c hc => absurd hc (Nat.not_lt_zero c)⟩
    · rw [sample_get hw, if_neg ha, if_pos rfl]
    · rw [sample_get hw, if_neg ha, if_pos rfl]

theorem strcmp_letters : strcmp textA.1 texta.1 < 0 ∧ strcmp texta.1 textA.1 ≠ 0 := by
  decide

/-- A key that answers the same whichever way round is no order. -/
theorem not_compares_of_sameSign {k : Nat} {o : Order} {s t : Text} {v : Int}
    (hk : keys[k]? = some o) (hcols : ∀ o' ∈ keys, o'.column < K.width)
    (hs : K.Allows o.column (some s)) (ht : K.Allows o.column (some t))
    (hne : strcmp s.1 t.1 ≠ 0) (hv : v ≠ 0)
    (hst : row_cmp (some s) (some t) o.colSQLType o.order = some v)
    (hts : row_cmp (some t) (some s) o.colSQLType o.order = some v)
    (htie : ∀ j < k, ∀ o', keys[j]? = some o' → o'.column = o.column →
      row_cmp (some s) (some t) o'.colSQLType o'.order = some 0 ∧
      row_cmp (some t) (some s) o'.colSQLType o'.order = some 0) : ¬ Compares K keys := by
  intro h
  have hwidth : 0 < K.width := Nat.zero_lt_of_lt (hcols o (List.mem_of_getElem? hk))
  have hall : keys.take (keptNum keys 0) = keys :=
    List.take_of_length_le (by unfold keptNum; omega)
  have hanswer : ∀ {s t p q : Text}, IsLetterA p → IsLetterA q → strcmp s.1 t.1 ≠ 0 →
      strcmp p.1 q.1 ≠ 0 → row_cmp (some s) (some t) o.colSQLType o.order = some v →
      (∀ j < k, ∀ o', keys[j]? = some o' → o'.column = o.column →
        row_cmp (some s) (some t) o'.colSQLType o'.order = some 0) →
      item_cmp keys (sample K.width o.column (some s) p) (sample K.width o.column (some t) q) =
        some v := by
    intro s t p q hp hq hne hpq hrow hbefore
    obtain ⟨u, -, hdiff⟩ := @difference_sample_first _ o.column s t p q hwidth hne hpq
    have hfirst := @lexKeys_of_first (sample K.width o.column (some s) p)
      (sample K.width o.column (some t) q) keys k o (some v) hk ?_ ?_ (by simpa using hv)
    · rw [item_cmp_of_differ hdiff, hall, hfirst, Option.map_some, if_neg hv]
    · intro j hj o' ho'
      rw [keyCmp_sample hp hq (hcols o' (List.mem_of_getElem? ho'))]
      split
      · next hcol => exact hbefore j hj o' ho' hcol
      · rfl
    · rw [keyCmp_sample hp hq (hcols o (List.mem_of_getElem? hk)), if_pos rfl, hrow]
  have hne' : strcmp t.1 s.1 ≠ 0 := by
    rw [strcmp_swap s.1 t.1]
    omega
  have hxy := hanswer (.inl rfl) (.inr rfl) hne (Int.ne_of_lt strcmp_letters.1) hst
    fun j hj o' ho' hcol => (htie j hj o' ho' hcol).1
  have hyx := hanswer (.inr rfl) (.inl rfl) hne' strcmp_letters.2 hts
    fun j hj o' ho' hcol => (htie j hj o' ho' hcol).2
  have := h.swap _ _ v v (isRow_sample (.inl rfl) fun _ => hs)
    (isRow_sample (.inr rfl) fun _ => ht) hxy hyx
  omega

theorem allows_plain {c : Nat} {s : Text} (hnull : isNull (some s) = false)
    (hnan : strtold s.1 ≠ none) : K.Allows c (some s) := by
  refine ⟨fun h => absurd h (by simp), fun t ht h => ?_, fun t ht h => ?_⟩
  · obtain rfl := Option.some.inj ht
    rw [hnull] at h
    exact absurd h (by simp)
  · obtain rfl := Option.some.inj ht
    exact absurd h hnan

theorem Compares.missing (h : Compares K keys) {c : Nat} (hc : c < K.width) : ¬ K.missing c := by
  intro hmissing
  have hx := @isRow_sample K c (some textA) textA (.inl rfl)
    fun _ => allows_plain (by decide) (by decide +kernel)
  have hy := @isRow_sample K c none textA (.inl rfl)
    fun _ => ⟨fun _ => hmissing, fun s hs => absurd hs (by simp), fun s hs => absurd hs (by simp)⟩
  have hsame : difference 0 (sample K.width c (some textA) textA)
      (sample K.width c none textA) = none := by
    refine difference_eq_none fun a s t hs ht => ?_
    have ha : a < K.width := by
      have := (List.getElem?_eq_some_iff.mp hs).1
      simpa [sample] using this
    rw [sample_get ha] at hs ht
    by_cases hac : a = c
    · rw [if_pos hac] at ht
      exact absurd ht (by simp)
    · rw [if_neg hac] at hs ht
      exact Option.some.inj (Option.some.inj (hs.symm.trans ht))
  have heq := (h.zero _ _ hx hy).mp (item_cmp_of_same hsame)
  have hfield := congrArg (·[c]?) heq
  simp only [sample_get hc, if_true] at hfield
  exact absurd hfield (by simp)

/-- The first place where something holds. -/
theorem exists_first {P : Nat → Prop} (h : ∃ k, P k) : ∃ k, P k ∧ ∀ j < k, ¬ P j := by
  classical
  exact ⟨Nat.find h, Nat.find_spec h, fun j hj => Nat.find_min h hj⟩

/-- A column that is not there is read behind the row. -/
theorem Compares.column (h : Compares K keys) (hwidth : 0 < K.width) :
    ∀ o ∈ keys, o.column < K.width := by
  by_contra hnot
  have hbad : ∃ k : Nat, ∃ o : Order, keys[k]? = some o ∧ K.width ≤ o.column := by
    simp only [not_forall, not_lt] at hnot
    obtain ⟨o, ho, hle⟩ := hnot
    obtain ⟨k, hk⟩ := List.mem_iff_getElem?.mp ho
    exact ⟨k, o, hk, hle⟩
  obtain ⟨k, ⟨o, hk, hle⟩, hfirst⟩ := exists_first hbad
  have hx := @isRow_sample K K.width (some textA) textA (.inl rfl)
    fun hlt => absurd hlt (Nat.lt_irrefl _)
  have hy := @isRow_sample K K.width (some textA) texta (.inr rfl)
    fun hlt => absurd hlt (Nat.lt_irrefl _)
  have hdiff := @difference_of_first (sample K.width K.width (some textA) textA)
    (sample K.width K.width (some textA) texta) 0 0 textA texta
    (by rw [sample_get hwidth, if_neg (Nat.ne_of_lt hwidth), if_pos rfl])
    (by rw [sample_get hwidth, if_neg (Nat.ne_of_lt hwidth), if_pos rfl])
    (Int.ne_of_lt strcmp_letters.1) fun c hc => absurd hc (Nat.not_lt_zero c)
  have hall : keys.take (keptNum keys 0) = keys :=
    List.take_of_length_le (by unfold keptNum; omega)
  have hbehind : keyCmp (sample K.width K.width (some textA) textA)
      (sample K.width K.width (some textA) texta) o = none := by
    unfold keyCmp
    rw [List.getElem?_eq_none (by rw [hx.1]; exact hle)]
    rfl
  have hnone := lexKeys_of_first hk ?_ hbehind (by simp)
  · obtain ⟨a, ha⟩ := h.returns _ _ hx hy
    rw [item_cmp_of_differ hdiff, hall, hnone] at ha
    exact absurd ha (by simp)
  · intro j hj o' ho'
    have hlt : o'.column < K.width := Nat.lt_of_not_le fun hle => hfirst j hj ⟨o', ho', hle⟩
    rw [keyCmp_sample (.inl rfl) (.inr rfl) hlt, if_neg (Nat.ne_of_lt hlt)]

def textNULL : Text := ⟨lit "NULL", by decide⟩

def textnull : Text := ⟨lit "null", by decide⟩

/-- Two texts for NULL: each is above the other one. -/
theorem Compares.nullText (h : Compares K keys) (hcols : ∀ o ∈ keys, o.column < K.width) :
    ∀ o ∈ keys, ¬ K.nullText o.column := by
  intro o₀ ho₀ hallowed
  obtain ⟨k₀, hk₀⟩ := List.mem_iff_getElem?.mp ho₀
  obtain ⟨k, ⟨o, hk, hcol⟩, hfirst⟩ := @exists_first (fun k => ∃ o : Order,
    keys[k]? = some o ∧ o.column = o₀.column) ⟨k₀, o₀, hk₀, rfl⟩
  have hallows : ∀ s : Text, strtold s.1 = some 0 → K.Allows o.column (some s) := fun s hs =>
    ⟨fun h => absurd h (by simp), fun _ _ _ => by rw [hcol]; exact hallowed, fun t ht hnan => by
      obtain rfl := Option.some.inj ht
      rw [hs] at hnan
      exact absurd hnan (by simp)⟩
  refine not_compares_of_sameSign hk hcols (hallows textNULL (by decide +kernel))
    (hallows textnull (by decide +kernel)) (by decide) (directed_one_ne o.order) ?_ ?_ ?_ h
  · unfold row_cmp
    rw [if_pos (by decide)]
    rfl
  · unfold row_cmp
    rw [if_pos (by decide)]
    rfl
  · exact fun j hj o' ho' hcol' => absurd ⟨o', ho', hcol'.trans hcol⟩ (hfirst j hj)

def textnan : Text := ⟨lit "nan", by decide⟩

def textNAN : Text := ⟨lit "NAN", by decide⟩

/-- Two texts for NaN: each is above the other one. -/
theorem Compares.nan (h : Compares K keys) (hcols : ∀ o ∈ keys, o.column < K.width) :
    ∀ o ∈ keys, o.colSQLType = .real → ¬ K.nan o.column := by
  intro o₀ ho₀ hreal₀ hallowed
  obtain ⟨k₀, hk₀⟩ := List.mem_iff_getElem?.mp ho₀
  obtain ⟨k, ⟨o, hk, hcol, hreal⟩, hfirst⟩ := @exists_first (fun k => ∃ o : Order,
    keys[k]? = some o ∧ o.column = o₀.column ∧ o.colSQLType = .real) ⟨k₀, o₀, hk₀, rfl, hreal₀⟩
  have hallows : ∀ s : Text, isNull (some s) = false → K.Allows o.column (some s) := fun s hs =>
    ⟨fun h => absurd h (by simp), fun t ht hnull => by
      obtain rfl := Option.some.inj ht
      rw [hs] at hnull
      exact absurd hnull (by simp), fun _ _ _ => by rw [hcol]; exact hallowed⟩
  have hnull : isNull (some textnan) = false ∧ isNull (some textNAN) = false := by decide
  refine not_compares_of_sameSign hk hcols (hallows textnan hnull.1) (hallows textNAN hnull.2)
    (by decide) (directed_one_ne o.order) ?_ ?_ ?_ h
  · rw [row_cmp_texts hnull.1 hnull.2, hreal]
    exact congrArg (some <| directed o.order ·) (by decide +kernel)
  · rw [row_cmp_texts hnull.2 hnull.1, hreal]
    exact congrArg (some <| directed o.order ·) (by decide +kernel)
  · intro j hj o' ho' hcol'
    have hnot : o'.colSQLType ≠ .real := fun hr =>
      hfirst j hj ⟨o', ho', hcol'.trans hcol, hr⟩
    rw [row_cmp_texts hnull.1 hnull.2, row_cmp_texts hnull.2 hnull.1,
      compareTexts_of_fold (by decide) fun hr => absurd hr hnot,
      compareTexts_of_fold (by decide) fun hr => absurd hr hnot]
    exact ⟨congrArg some (directed_eq_zero.mpr rfl), congrArg some (directed_eq_zero.mpr rfl)⟩

/-- What is asked of two texts that only one type tells apart, and in another order than
`strcmp` does. -/
structure OnlyBy (type : SqlType) (order : Direction) (s t : Text) : Prop where
  plain : isNull (some s) = false ∧ isNull (some t) = false
  number : strtold s.1 ≠ none ∧ strtold t.1 ≠ none
  after : 0 < strcmp s.1 t.1
  before : directed order (compareTexts type s t) < 0
  tie : ∀ type', type' ≠ .string → type' ≠ type → compareTexts type' s t = 0
  tieBack : ∀ type', type' ≠ .string → type' ≠ type → compareTexts type' t s = 0

/-- The types but strings and one more give no order to two texts. -/
def TieBut (type : SqlType) (s t : Text) : Prop :=
  (.signed ≠ type → compareTexts .signed s t = 0) ∧
    (.unsigned ≠ type → compareTexts .unsigned s t = 0) ∧
    (.real ≠ type → compareTexts .real s t = 0)

instance (type : SqlType) (s t : Text) : Decidable (TieBut type s t) :=
  inferInstanceAs (Decidable (_ ∧ _))

theorem tieBut_iff {type : SqlType} {s t : Text} : TieBut type s t ↔
    ∀ type', type' ≠ .string → type' ≠ type → compareTexts type' s t = 0 := by
  constructor
  · intro ⟨hs, hu, hr⟩ type' hstring hne
    cases type' with
    | string => exact absurd rfl hstring
    | signed => exact hs hne
    | unsigned => exact hu hne
    | real => exact hr hne
    | other => rfl
  · exact fun h => ⟨h .signed (by decide), h .unsigned (by decide), h .real (by decide)⟩

instance (type : SqlType) (order : Direction) (s t : Text) : Decidable (OnlyBy type order s t) :=
  decidable_of_iff ((isNull (some s) = false ∧ isNull (some t) = false) ∧
    (strtold s.1 ≠ none ∧ strtold t.1 ≠ none) ∧ 0 < strcmp s.1 t.1 ∧
    directed order (compareTexts type s t) < 0 ∧ TieBut type s t ∧ TieBut type t s)
    ⟨fun ⟨h₁, h₂, h₃, h₄, h₅, h₆⟩ => ⟨h₁, h₂, h₃, h₄, tieBut_iff.mp h₅, tieBut_iff.mp h₆⟩,
    fun ⟨h₁, h₂, h₃, h₄, h₅, h₆⟩ => ⟨h₁, h₂, h₃, h₄, tieBut_iff.mpr h₅, tieBut_iff.mpr h₆⟩⟩

theorem exists_onlyBy {type : SqlType} (htype : type ≠ .other) (order : Direction) :
    ∃ s t, OnlyBy type order s t := by
  have htext : ∀ s t : String, 0 ∉ lit s → 0 ∉ lit t → (∀ hs ht,
      OnlyBy type order ⟨lit s, hs⟩ ⟨lit t, ht⟩) → ∃ s t, OnlyBy type order s t :=
    fun s t hs ht h => ⟨_, _, h hs ht⟩
  cases type with
  | string =>
    cases order with
    | ASC => exact htext "a" "B" (by decide) (by decide) (by decide +kernel)
    | DSC => exact htext "B" "A" (by decide) (by decide) (by decide +kernel)
  | signed =>
    -- the same modulo `2 ^ 64`, and nearly zero
    cases order with
    | ASC =>
      exact htext "-5e-99999" " 18446744073709551611e-99999" (by decide) (by decide)
        (by decide +kernel)
    | DSC =>
      exact htext "18446744073709551611e-99999" "-5e-99999" (by decide) (by decide)
        (by decide +kernel)
  | unsigned =>
    -- both are above all signed numbers, and are rounded to the same real
    cases order with
    | ASC =>
      exact htext "9223372036854775807.99999999999999999999999" " 9223372036854775808"
        (by decide) (by decide) (by decide +kernel)
    | DSC =>
      exact htext "9223372036854775808" "9223372036854775807.99999999999999999999999"
        (by decide) (by decide) (by decide +kernel)
  | real =>
    cases order with
    | ASC => exact htext "1.5" "1.2e1" (by decide) (by decide) (by decide +kernel)
    | DSC => exact htext "1.5" "1.2" (by decide) (by decide) (by decide +kernel)
  | other => exact absurd rfl htype

/-- Rows with texts and numbers only. -/
def RowKind.plain (w : Nat) : RowKind := ⟨w, fun _ => False, fun _ => False, fun _ => False⟩

theorem isRow_of_plain {x : Fields} (h : (RowKind.plain K.width).IsRow x) : K.IsRow x :=
  ⟨h.1, fun c f hf => ⟨fun hnone => ((h.2 c f hf).missing hnone).elim,
    fun s hs hnull => ((h.2 c f hf).nullText s hs hnull).elim,
    fun s hs hnan => ((h.2 c f hf).nan s hs hnan).elim⟩⟩

/-- Three rows that show that a key is left out. -/
structure ShowsCut (keys : List Order) (w : Nat) (x y z : Fields) : Prop where
  rows : (RowKind.plain w).IsRow x ∧ (RowKind.plain w).IsRow y ∧ (RowKind.plain w).IsRow z
  /-- the key puts `x` before `z` … -/
  key : ∃ a, lexKeys x z keys = some a ∧ a < 0
  /-- … but `item_cmp` puts it behind … -/
  above : ∃ a b, item_cmp keys x z = some a ∧ item_cmp keys z x = some b ∧ 0 < a ∧ b < 0
  /-- … although there is one between them -/
  below : ∃ a b, item_cmp keys x y = some a ∧ item_cmp keys y z = some b ∧ a < 0 ∧ b < 0

/-- The first key that is left out has no others on its column that matter. -/
theorem exists_leftOut (hnot : ¬ Uncut keys) : ∃ (k : Nat) (o : Order), keys[k]? = some o ∧
    keptNum keys o.column ≤ k ∧ o.colSQLType ≠ .other ∧
    ∀ j < k, ∀ o', keys[j]? = some o' → ¬ o'.Covers o := by
  have hbad : ∃ k : Nat, ∃ o : Order, keys[k]? = some o ∧ keptNum keys o.column ≤ k ∧
      o.colSQLType ≠ .other ∧ ∀ j o', j < keptNum keys o.column → keys[j]? = some o' →
        ¬ o'.Covers o := by
    unfold Uncut at hnot
    push Not at hnot
    obtain ⟨k, o, hk, hkept, hother, hcovers⟩ := hnot
    exact ⟨k, o, hk, hkept, hother, fun j o' hj ho' => hcovers j o' hj ho'⟩
  obtain ⟨k, ⟨o, hk, hkept, hother, hcovers⟩, hfirst⟩ := exists_first hbad
  refine ⟨k, o, hk, hkept, hother, fun j hj o' ho' hcov => ?_⟩
  by_cases hin : j < keptNum keys o.column
  · exact hcovers j o' hin ho' hcov
  refine hfirst j hj ⟨o', ho', by rw [hcov.1]; omega, ?_, ?_⟩
  · obtain htype | htype := hcov.2
    · rw [htype]
      decide
    · rwa [htype]
  · intro i o'' hi ho'' hcov'
    rw [hcov.1] at hi
    refine hcovers i o'' hi ho'' ⟨hcov'.1.trans hcov.1, ?_⟩
    obtain htype | htype := hcov'.2
    · exact .inl htype
    · rw [htype]
      exact hcov.2

/-- A key that is left out: two rows in the order of their texts, and a third one that the
key puts between them. -/
theorem exists_showsCut (hnot : ¬ Uncut keys) {w : Nat} (hcols : ∀ o ∈ keys, o.column < w) :
    ∃ x y z, ShowsCut keys w x y z := by
  obtain ⟨k, o, hk, hkept, hother, hnever⟩ := exists_leftOut hnot
  obtain ⟨s, t, hst⟩ := exists_onlyBy hother o.order
  have hwidth := hcols o (List.mem_of_getElem? hk)
  have hm : k < keys.length := (List.getElem?_eq_some_iff.mp hk).1
  have hcol : 0 ≠ o.column := by
    unfold keptNum at hkept
    omega
  have hswap : strcmp t.1 s.1 < 0 := by
    have := hst.after
    rw [strcmp_swap s.1 t.1]
    omega
  -- the keys before it
  have htie : ∀ j < k, ∀ o', keys[j]? = some o' → ∀ {f g : Text}, (f = s ∧ g = t) ∨
      (f = t ∧ g = s) → ∀ {p q : Text}, IsLetterA p → IsLetterA q →
      keyCmp (sample w o.column (some f) p) (sample w o.column (some g) q) o' = some 0 := by
    intro j hj o' ho' f g hfg p q hp hq
    rw [keyCmp_sample hp hq (hcols o' (List.mem_of_getElem? ho'))]
    split
    · next hsame =>
      have hnot := hnever j hj o' ho'
      have htype : o'.colSQLType ≠ .string ∧ o'.colSQLType ≠ o.colSQLType :=
        ⟨fun htype => hnot ⟨hsame, .inl htype⟩, fun htype => hnot ⟨hsame, .inr htype⟩⟩
      obtain ⟨rfl, rfl⟩ | ⟨rfl, rfl⟩ := hfg
      · rw [row_cmp_texts hst.plain.1 hst.plain.2, hst.tie _ htype.1 htype.2]
        exact congrArg some (directed_eq_zero.mpr rfl)
      · rw [row_cmp_texts hst.plain.2 hst.plain.1, hst.tieBack _ htype.1 htype.2]
        exact congrArg some (directed_eq_zero.mpr rfl)
    · rfl
  have hrow : ∀ {f : Text} {p : Text}, IsLetterA p → (f = s ∨ f = t) →
      (RowKind.plain w).IsRow (sample w o.column (some f) p) := by
    intro f p hp hf
    refine @isRow_sample (.plain w) o.column (some f) p hp fun _ => ?_
    obtain rfl | rfl := hf
    · exact allows_plain hst.plain.1 hst.number.1
    · exact allows_plain hst.plain.2 hst.number.2
  have hall : keys.take (keptNum keys 0) = keys :=
    List.take_of_length_le (by unfold keptNum; omega)
  have hdiff : ∀ f g : Text, ∀ {p q : Text}, strcmp p.1 q.1 ≠ 0 →
      difference 0 (sample w o.column (some f) p) (sample w o.column (some g) q) =
        some (0, strcmp p.1 q.1) := by
    intro f g p q hpq
    refine difference_of_first ?_ ?_ hpq fun c hc => absurd hc (Nat.not_lt_zero c)
    · rw [sample_get (by omega), if_neg hcol, if_pos rfl]
    · rw [sample_get (by omega), if_neg hcol, if_pos rfl]
  have hkey : ∀ {p q : Text}, IsLetterA p → IsLetterA q →
      lexKeys (sample w o.column (some s) p) (sample w o.column (some t) q) keys =
        some (directed o.order (compareTexts o.colSQLType s t)) := by
    intro p q hp hq
    refine lexKeys_of_first hk (fun j hj o' ho' => htie j hj o' ho' (.inl ⟨rfl, rfl⟩) hp hq) ?_ ?_
    · rw [keyCmp_sample hp hq hwidth, if_pos rfl, row_cmp_texts hst.plain.1 hst.plain.2]
    · have := Int.ne_of_lt hst.before
      rwa [ne_eq, Option.some.injEq]
  -- no key decides where it is left out
  have hcut : ∀ {f g : Text}, (f = s ∧ g = t) ∨ (f = t ∧ g = s) → strcmp f.1 g.1 ≠ 0 →
      item_cmp keys (sample w o.column (some f) texta) (sample w o.column (some g) texta) =
        some (strcmp f.1 g.1) := by
    intro f g hfg hne
    have hd : difference 0 (sample w o.column (some f) texta)
        (sample w o.column (some g) texta) = some (0 + o.column, strcmp f.1 g.1) := by
      refine difference_of_first ?_ ?_ hne fun c hc => ?_
      · rw [sample_get hwidth, if_pos rfl]
      · rw [sample_get hwidth, if_pos rfl]
      · have hne : c ≠ o.column := Nat.ne_of_lt hc
        rw [sample_get (hc.trans hwidth), sample_get (hc.trans hwidth), if_neg hne, if_neg hne]
    rw [Nat.zero_add] at hd
    rw [item_cmp_of_differ hd, lexKeys_tie]
    · rfl
    intro o' ho'
    obtain ⟨j, hj⟩ := List.mem_iff_getElem?.mp ho'
    have hlt : j < keptNum keys o.column := by
      have := (List.getElem?_eq_some_iff.mp hj).1
      rw [List.length_take] at this
      omega
    rw [List.getElem?_take_of_lt hlt] at hj
    exact htie j (by omega) o' hj hfg (.inr rfl) (.inr rfl)
  refine ⟨sample w o.column (some s) texta, sample w o.column (some t) textA,
    sample w o.column (some t) texta, ?_, ?_, ?_, ?_⟩
  · exact ⟨hrow (.inr rfl) (.inl rfl), hrow (.inl rfl) (.inr rfl), hrow (.inr rfl) (.inr rfl)⟩
  · exact ⟨_, hkey (.inr rfl) (.inr rfl), hst.before⟩
  · exact ⟨_, _, hcut (.inl ⟨rfl, rfl⟩) (Int.ne_of_gt hst.after),
      hcut (.inr ⟨rfl, rfl⟩) (Int.ne_of_lt hswap), hst.after, hswap⟩
  · refine ⟨directed o.order (compareTexts o.colSQLType s t), strcmp textA.1 texta.1, ?_, ?_,
      hst.before, strcmp_letters.1⟩
    · rw [item_cmp_of_differ (hdiff s t strcmp_letters.2), hall, hkey (.inr rfl) (.inl rfl),
        Option.map_some, if_neg (Int.ne_of_lt hst.before)]
    · rw [item_cmp_of_differ (hdiff t t (Int.ne_of_lt strcmp_letters.1)), lexKeys_tie]
      · rfl
      intro o' ho'
      rw [keyCmp_sample (.inl rfl) (.inr rfl) (hcols o' (List.mem_of_mem_take ho'))]
      split
      · rw [row_cmp_texts hst.plain.2 hst.plain.2,
          compareTexts_of_fold rfl fun _ => hst.number.2]
        exact congrArg some (directed_eq_zero.mpr rfl)
      · rfl

theorem Compares.uncut (h : Compares K keys) (hcols : ∀ o ∈ keys, o.column < K.width) :
    Uncut keys := by
  by_contra hnot
  obtain ⟨x, y, z, hcut⟩ := exists_showsCut hnot hcols
  obtain ⟨hx, hy, hz⟩ := hcut.rows
  obtain ⟨a, b, hxz, -, ha, -⟩ := hcut.above
  obtain ⟨c, d, hxy, hyz, hc, hd⟩ := hcut.below
  have := h.trans x y z c d a (isRow_of_plain hx) (isRow_of_plain hy) (isRow_of_plain hz)
    hxy hyz hxz hc hd
  omega

end Samples

/-- `item_cmp` is the comparison of a strict total order if and only if there are no columns,
or the rows and keys fit. -/
theorem compares_iff (K : RowKind) (keys : List Order) :
    Compares K keys ↔ K.width = 0 ∨ Fits K keys := by
  constructor
  · intro h
    by_cases hzero : K.width = 0
    · exact .inl hzero
    have hcols := h.column (Nat.pos_of_ne_zero hzero)
    exact .inr ⟨fun c hc => h.missing hc, hcols, h.nullText hcols, h.nan hcols, h.uncut hcols⟩
  · rintro (hzero | hfits)
    · have hnil : ∀ x, K.IsRow x → x = [] := fun x hx =>
        List.length_eq_zero_iff.mp (hx.1.trans hzero)
      have hcmp : ∀ x y, K.IsRow x → K.IsRow y → item_cmp keys x y = some 0 := by
        intro x y hx hy
        rw [hnil x hx, hnil y hy]
        exact item_cmp_of_same rfl
      refine ⟨fun x y hx hy => ⟨0, hcmp x y hx hy⟩, fun x y hx hy => ?_,
        fun x y a b hx hy ha hb => ?_, fun x y z a b c hx hy _ ha _ _ hlt => ?_⟩
      · exact ⟨fun _ => (hnil x hx).trans (hnil y hy).symm, fun _ => hcmp x y hx hy⟩
      · obtain rfl := Option.some.inj ((hcmp x y hx hy).symm.trans ha)
        obtain rfl := Option.some.inj ((hcmp y x hy hx).symm.trans hb)
        rfl
      · obtain rfl := Option.some.inj ((hcmp x y hx hy).symm.trans ha)
        exact absurd hlt (Int.lt_irrefl 0)
    · exact hfits.compares

/-- A field that is missing is equal to any other. -/
theorem not_compares : ¬ Compares ⟨1, fun _ => True, fun _ => True, fun _ => True⟩ [] := by
  intro h
  have hx : ∀ f, RowKind.IsRow ⟨1, fun _ => True, fun _ => True, fun _ => True⟩ [f] := fun f =>
    ⟨rfl, fun c g _ => ⟨fun _ => trivial, fun _ _ _ => trivial, fun _ _ _ => trivial⟩⟩
  have heq := (h.zero [none] [some textA] (hx none) (hx _)).mp rfl
  exact absurd heq (by decide)

end Sfcb.Sql.RowOrder
