import Mathlib.Data.List.Infix
import Sfcb.Lib.CString

/-!
# The name lists of a statement

A statement has a list of the properties that are selected and one of the classes in FROM,
each a table of pointers with a null pointer behind the last name. `ensureCharsListSpace`
makes room when a table is nearly full, but takes an empty table instead of a larger copy, so
that the names that were there are lost: `nameLists_iff`.

Mirroring notes:
- `qsAlloc` clears what it allocates: a new table is all null pointers.
- The outcome `none` is an access behind a table. There is none.
- `*max-1<=nxt` is true for an empty table; so it is with natural numbers.
-/

namespace Sfcb.Query.NameLists

open Sfcb.Lib

/-- `spNames`, `spMax` and `spNext`, or `fClasses`, `fcMax` and `fcNext`. -/
structure CharsList where
  list : List (Option CStr)
  max : Nat
  next : Nat
  deriving DecidableEq, Repr

structure QLStatement where
  allProps : Bool
  fClasses : CharsList
  spNames : CharsList
  deriving DecidableEq, Repr

/-- `qsAlloc` of a table with `fcm` entries. -/
def newCharsList (fcm : Nat) : CharsList := ⟨List.replicate fcm none, fcm, 0⟩

def newQLStatement (fcm : Nat) : QLStatement := ⟨false, newCharsList fcm, newCharsList fcm⟩

def ensureCharsListSpace (l : CharsList) : CharsList :=
  if l.max - 1 ≤ l.next then { l with list := List.replicate (l.max * 2) none, max := l.max * 2 }
  else l

/-- What both functions do with their list. -/
def append (l : CharsList) (name : CStr) : Option CharsList :=
  let l := ensureCharsListSpace l
  if l.next + 1 < l.list.length then
    some { l with list := (l.list.set l.next (some name)).set (l.next + 1) none, next := l.next + 1 }
  else none

def qsSetAllProperties (st : QLStatement) (all : Bool) : QLStatement := { st with allProps := all }

def qsAppendSelectPropertyName (st : QLStatement) (pn : CStr) : Option QLStatement :=
  (append st.spNames pn).map fun l => { st with spNames := l }

/-- The alias is not kept. -/
def qsAddFromClass (st : QLStatement) (cn : CStr) (_ca : Option CStr) : Option QLStatement :=
  (append st.fClasses cn).map fun l => { st with fClasses := l }

/-- What the actions of the parser call. -/
inductive Call where
  | setAllProperties (all : Bool)
  | appendSelectPropertyName (pn : CStr)
  | addFromClass (cn : CStr) (ca : Option CStr)
  deriving DecidableEq, Repr

def call (st : QLStatement) : Call → Option QLStatement
  | .setAllProperties all => some (qsSetAllProperties st all)
  | .appendSelectPropertyName pn => qsAppendSelectPropertyName st pn
  | .addFromClass cn ca => qsAddFromClass st cn ca

def parse (st : QLStatement) : List Call → Option QLStatement
  | [] => some st
  | c :: cs => (call st c).bind fun st => parse st cs

/-! ## What is added -/

/-- The selected properties. -/
def selected : List Call → List CStr
  | [] => []
  | .appendSelectPropertyName pn :: cs => pn :: selected cs
  | _ :: cs => selected cs

/-- The classes in FROM. -/
def classes : List Call → List CStr
  | [] => []
  | .addFromClass cn _ :: cs => cn :: classes cs
  | _ :: cs => classes cs

/-- The table holds the names in order and a null pointer behind them. -/
def CharsList.Lists (l : CharsList) (names : List CStr) : Prop :=
  names.map some ++ [none] <+: l.list

instance (l : CharsList) (names : List CStr) : Decidable (l.Lists names) :=
  inferInstanceAs (Decidable (_ <+: _))

/-! ## One list -/

section OneList

variable {fcm : Nat} {l : CharsList} {names : List CStr}

/-- The table after `names` have been added. -/
structure Added (fcm : Nat) (l : CharsList) (names : List CStr) : Prop where
  length : l.list.length = l.max
  next : l.next = names.length
  room : l.next < l.max
  /-- as long as the first table is large enough everything is there … -/
  whole : names.length < fcm → l.max = fcm ∧ l.Lists names
  /-- … and afterwards the table begins with a null pointer -/
  lost : fcm ≤ names.length → l.list[0]? = some none

theorem added_newCharsList (hfcm : 2 ≤ fcm) : Added fcm (newCharsList fcm) [] where
  length := List.length_replicate
  next := rfl
  room := by
    show 0 < fcm
    omega
  whole _ := by
    refine ⟨rfl, ?_⟩
    obtain ⟨k, rfl⟩ : ∃ k, fcm = k + 1 := ⟨fcm - 1, by omega⟩
    exact ⟨List.replicate k none, rfl⟩
  lost h := absurd h (by simp; omega)

/-- A name is added at the end while there is room for it and a null pointer. -/
theorem Added.append_room (h : Added fcm l names) (hfcm : 2 ≤ fcm) (hroom : l.next + 1 < l.max)
    (name : CStr) : ∃ l', append l name = some l' ∧ Added fcm l' (names ++ [name]) := by
  have hensure : ensureCharsListSpace l = l := by
    unfold ensureCharsListSpace
    rw [if_neg (by omega)]
  have hnext := h.next
  refine ⟨{ l with list := (l.list.set l.next (some name)).set (l.next + 1) none
                   next := l.next + 1 }, ?_, ?_⟩
  · unfold append
    rw [hensure]
    exact if_pos (by rw [h.length]; exact hroom)
  refine ⟨by simp [h.length], by simp [hnext], hroom, fun hlt => ?_, fun hle => ?_⟩
  · rw [List.length_append, List.length_singleton] at hlt
    obtain ⟨hmax, rest, hrest⟩ := h.whole (by omega)
    refine ⟨hmax, ?_⟩
    have hlength := congrArg List.length hrest
    rw [List.length_append, List.length_append, List.length_map, List.length_singleton,
      h.length] at hlength
    obtain ⟨x, rest, rfl⟩ := List.exists_cons_of_length_pos (show 0 < rest.length by omega)
    refine ⟨rest, ?_⟩
    have hfirst : l.list.set l.next (some name) =
        names.map some ++ some name :: x :: rest := by
      rw [← hrest, hnext, List.append_assoc, List.set_append_right _ _ (by simp)]
      simp
    simp only
    rw [hfirst, hnext, List.set_append_right _ _ (by simp)]
    simp
  · rw [List.length_append, List.length_singleton] at hle
    have hfull : fcm ≤ names.length := by
      by_contra hnot
      have := (h.whole (by omega)).1
      omega
    simp only
    rw [List.getElem?_set_ne (by omega), List.getElem?_set_ne (by omega)]
    exact h.lost hfull

/-- When there is no room the new table begins with a null pointer. -/
theorem Added.append_grow (h : Added fcm l names) (hfcm : 2 ≤ fcm) (hfull : l.max ≤ l.next + 1)
    (name : CStr) : ∃ l', append l name = some l' ∧ Added fcm l' (names ++ [name]) := by
  have hnext := h.next
  have hroom := h.room
  have hensure : ensureCharsListSpace l =
      { l with list := List.replicate (l.max * 2) none, max := l.max * 2 } := by
    unfold ensureCharsListSpace
    rw [if_pos (by omega)]
  have hmany : fcm ≤ names.length + 1 := by
    by_contra hnot
    have := (h.whole (by omega)).1
    omega
  refine ⟨⟨((List.replicate (l.max * 2) none).set l.next (some name)).set (l.next + 1) none,
    l.max * 2, l.next + 1⟩, ?_, ?_⟩
  · unfold append
    rw [hensure]
    exact if_pos (by simp only [List.length_replicate]; omega)
  refine ⟨by simp, by simp [hnext], by simp only; omega, fun hlt => ?_, fun _ => ?_⟩
  · rw [List.length_append, List.length_singleton] at hlt
    omega
  · simp only
    rw [List.getElem?_set_ne (by omega), List.getElem?_set_ne (by omega), List.getElem?_replicate,
      if_pos (by omega)]

theorem Added.append (h : Added fcm l names) (hfcm : 2 ≤ fcm) (name : CStr) :
    ∃ l', append l name = some l' ∧ Added fcm l' (names ++ [name]) := by
  by_cases hroom : l.next + 1 < l.max
  · exact h.append_room hfcm hroom name
  · exact h.append_grow hfcm (by omega) name

/-- A list is whole if and only if it never had to grow. -/
theorem Added.lists_iff (h : Added fcm l names) (hfcm : 2 ≤ fcm) :
    l.Lists names ↔ names.length < fcm := by
  constructor
  · intro hlists
    by_contra hnot
    have hzero := h.lost (by omega)
    obtain ⟨name, names, rfl⟩ := List.exists_cons_of_length_pos (show 0 < names.length by omega)
    obtain ⟨rest, hrest⟩ := hlists
    rw [← hrest] at hzero
    exact absurd hzero (by simp)
  · exact fun hlt => (h.whole hlt).2

end OneList

/-! ## The statement -/

/-- Both lists after the calls. -/
theorem parse_spec {fcm : Nat} (hfcm : 2 ≤ fcm) (cs : List Call) {st : QLStatement}
    {props froms : List CStr} (hprops : Added fcm st.spNames props)
    (hfroms : Added fcm st.fClasses froms) : ∃ st', parse st cs = some st' ∧
      Added fcm st'.spNames (props ++ selected cs) ∧
      Added fcm st'.fClasses (froms ++ classes cs) := by
  induction cs generalizing st props froms with
  | nil => exact ⟨st, rfl, by rwa [selected, List.append_nil], by rwa [classes, List.append_nil]⟩
  | cons c cs ih =>
    cases c with
    | setAllProperties all => exact ih hprops hfroms
    | appendSelectPropertyName pn =>
      obtain ⟨l', hrun, hl'⟩ := hprops.append hfcm pn
      obtain ⟨st', hparse, hsp, hfc⟩ := @ih { st with spNames := l' } _ _ hl' hfroms
      refine ⟨st', ?_, ?_, hfc⟩
      · rw [parse, call, qsAppendSelectPropertyName, hrun]
        exact hparse
      · rwa [selected, List.append_cons]
    | addFromClass cn ca =>
      obtain ⟨l', hrun, hl'⟩ := hfroms.append hfcm cn
      obtain ⟨st', hparse, hsp, hfc⟩ := @ih { st with fClasses := l' } _ _ hprops hl'
      refine ⟨st', ?_, hsp, ?_⟩
      · rw [parse, call, qsAddFromClass, hrun]
        exact hparse
      · rwa [classes, List.append_cons]

/-- `parseQuery` begins with tables of eight. A list holds all names in order, with a null pointer
behind them, if and only if there are at most seven. -/
theorem nameLists_iff (cs : List Call) : ∃ st, parse (newQLStatement 8) cs = some st ∧
    (st.spNames.Lists (selected cs) ↔ (selected cs).length < 8) ∧
    (st.fClasses.Lists (classes cs) ↔ (classes cs).length < 8) := by
  have hfcm : 2 ≤ 8 := by omega
  obtain ⟨st, hrun, hsp, hfc⟩ :=
    @parse_spec 8 hfcm cs (newQLStatement 8) [] [] (added_newCharsList hfcm)
      (added_newCharsList hfcm)
  exact ⟨st, hrun, hsp.lists_iff hfcm, hfc.lists_iff hfcm⟩

/-- `SELECT a,a,a,a,a,a,a,a`: the list begins with a null pointer. -/
theorem not_nameLists : ¬ ∃ st, parse (newQLStatement 8)
    (List.replicate 8 (.appendSelectPropertyName (lit "a"))) = some st ∧
      st.spNames.Lists (List.replicate 8 (lit "a")) := by
  intro ⟨st, hrun, hlists⟩
  have hparse : (parse (newQLStatement 8)
      (List.replicate 8 (.appendSelectPropertyName (lit "a")))).map (·.spNames.list[0]?) =
        some (some none) := by decide
  rw [hrun, Option.map_some, Option.some.injEq] at hparse
  obtain ⟨rest, hrest⟩ := hlists
  rw [← hrest] at hparse
  exact absurd hparse (by simp [List.replicate])

end Sfcb.Query.NameLists
