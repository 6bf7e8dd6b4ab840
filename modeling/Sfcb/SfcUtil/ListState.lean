import Mathlib.Algebra.Group.Nat.Defs
import Mathlib.Data.List.Nodup
import Mathlib.Data.List.Perm.Subperm
import Mathlib.Data.List.TakeWhile
import Sfcb.Lib.Sentinel
import Sfcb.SfcUtil.GenericList

/-!
# What a generic list is for

A `ListState` is a list with a cursor: the elements in their order, where the cursor is, and
the neighbours that the element which was last removed under the cursor had. Its operations
look at the list only. `Represents` says that the pointers of a generic list are those of such
a state; each operation keeps it, gives the same result, and touches a freed element exactly
if the cursor has to go over one.

The cursor gets there in two ways: its own element is taken away by `clear`, or an element next
to it goes while it is on the deleted one.
-/

namespace Sfcb.SfcUtil

open Sfcb.Lib

variable {α : Type}

/-- A list with a cursor. Every element has a name, and no name is used again. -/
structure ListState (α : Type) where
  items : List (Nat × α)
  current : Addr
  deletedPrevious : Addr
  deletedNext : Addr
  fresh : Nat

/-- The address of an element. -/
def node (e : Nat × α) : Addr := .element e.1

namespace ListState

/-- A new list. -/
def empty (α : Type) : ListState α := ⟨[], .preElement, .preElement, .postElement, 0⟩

variable (s : ListState α)

def nodes : List Addr := s.items.map node

/-- The header is always there, an element as long as it is in the list. -/
def alive : Addr → Bool
  | .element n => s.items.any fun e => e.1 = n
  | _ => true

/-- What an element points to. -/
def pointerAt : Addr → Option (Option α)
  | .element n => (s.items.find? fun e => e.1 = n).map fun e => some e.2
  | _ => some none

/-- The elements in front of one of them, and those behind it. -/
def inFront (a : Addr) : List Addr := s.nodes.takeWhile (· ≠ a)

def behind (a : Addr) : List Addr := (s.nodes.dropWhile (· ≠ a)).tail

/-- What follows on an element, if it is there. -/
def after : Addr → Option Addr
  | .preElement => some (firstOf s.nodes .postElement)
  | .postElement => some .postElement
  | .deletedElement => some s.deletedNext
  | .element n =>
    if s.alive (.element n) then some (firstOf (s.behind (.element n)) .postElement) else none

def before : Addr → Option Addr
  | .preElement => some .preElement
  | .postElement => some (lastOf .preElement s.nodes)
  | .deletedElement => some s.deletedPrevious
  | .element n =>
    if s.alive (.element n) then some (lastOf .preElement (s.inFront (.element n))) else none

/-- The cursor goes to an element that is there. -/
def moveTo (a : Addr) : Option (ListState α × Option α) :=
  (s.pointerAt a).map fun pointer => ({ s with current := a }, pointer)

def add (s : ListState α) (items : List (Nat × α)) : ListState α :=
  { s with items := items, fresh := s.fresh + 1 }

/-- An element is taken out. If it is the current one, the cursor keeps its place. -/
def remove (e : Nat × α) : ListState α :=
  { s with
    items := s.items.filter fun f => node f ≠ node e
    current := if s.current = node e then .deletedElement else s.current
    deletedPrevious :=
      if s.current = node e then lastOf .preElement (s.inFront (node e)) else s.deletedPrevious
    deletedNext :=
      if s.current = node e then firstOf (s.behind (node e)) .postElement else s.deletedNext }

/-- The first element goes, and the cursor comes in front of the list if it was there. -/
def removeFirst : Option (ListState α × Option α) :=
  match s.items with
  | [] => some (s, none)
  | e :: items =>
    some ({ s with
      items := items
      current := if s.current = node e then .preElement else s.current }, some e.2)

/-- The last element goes, and the cursor comes behind the list if it was there. -/
def removeLast : Option (ListState α × Option α) :=
  match s.items.getLast? with
  | none => some (s, none)
  | some e =>
    some ({ s with
      items := s.items.dropLast
      current := if s.current = node e then .postElement else s.current }, some e.2)

/-- The last element that points to an object goes. -/
def removeThis [DecidableEq α] (pointer : Option α) : Option (ListState α × Option α) :=
  match s.items.reverse.find? fun e => some e.2 = pointer with
  | some e => some (s.remove e, pointer)
  | none => some (s, none)

/-- The element under the cursor goes, unless the cursor is on the header. -/
def removeCurrent : Option (ListState α × Option α) :=
  match s.current with
  | .element n => (s.items.find? fun e => e.1 = n).map fun e => (s.remove e, some e.2)
  | _ => some (s, none)

end ListState

/-- The pointers of the list are those of the state. -/
structure Represents (l : GenericListInfo α) (s : ListState α) : Prop where
  stretch : Stretch l.next l.previous .preElement s.nodes .postElement
  first : l.previous .preElement = .preElement
  last : l.next .postElement = .postElement
  deletedPrevious : l.previous .deletedElement = s.deletedPrevious
  deletedNext : l.next .deletedElement = s.deletedNext
  pointers : ∀ e ∈ s.items, l.pointer (node e) = some e.2
  header : ∀ a, (∀ n, a ≠ .element n) → l.pointer a = none
  nodup : s.nodes.Nodup
  bound : ∀ e ∈ s.items, e.1 < s.fresh
  allocated : ∀ a, l.allocated a = s.alive a
  current : l.current = s.current
  size : l.numOfElements = UInt32.ofNat s.items.length
  fresh : l.fresh = s.fresh

namespace ListState

variable {s : ListState α} {e f : Nat × α} {xs ys : List (Nat × α)}

theorem node_inj : node e = node f ↔ e.1 = f.1 := by
  unfold node
  rw [Addr.element.injEq]

theorem nodes_eq (h : s.items = xs ++ e :: ys) :
    s.nodes = xs.map node ++ node e :: ys.map node := by
  unfold nodes
  rw [h, List.map_append, List.map_cons]

/-- An element among the others. -/
theorem other_ne (hnodup : s.nodes.Nodup) (h : s.items = xs ++ e :: ys) :
    ∀ f ∈ xs ++ ys, node f ≠ node e := by
  intro f hf heq
  rw [nodes_eq h, List.nodup_middle, ← List.map_append] at hnodup
  exact (List.nodup_cons.mp hnodup).1 (heq ▸ List.mem_map_of_mem hf)

theorem inFront_eq (hnodup : s.nodes.Nodup) (h : s.items = xs ++ e :: ys) :
    s.inFront (node e) = xs.map node := by
  have hxs : ∀ a ∈ xs.map (node : Nat × α → Addr), decide (a ≠ node e) = true := by
    intro a ha
    obtain ⟨f, hf, rfl⟩ := List.mem_map.mp ha
    exact decide_eq_true (other_ne hnodup h f (List.mem_append_left _ hf))
  unfold inFront
  rw [nodes_eq h, List.takeWhile_append_of_pos hxs, List.takeWhile_cons_of_neg (by simp),
    List.append_nil]

theorem behind_eq (hnodup : s.nodes.Nodup) (h : s.items = xs ++ e :: ys) :
    s.behind (node e) = ys.map node := by
  have hxs : ∀ a ∈ xs.map (node : Nat × α → Addr), decide (a ≠ node e) = true := by
    intro a ha
    obtain ⟨f, hf, rfl⟩ := List.mem_map.mp ha
    exact decide_eq_true (other_ne hnodup h f (List.mem_append_left _ hf))
  unfold behind
  rw [nodes_eq h, List.dropWhile_append_of_pos hxs, List.dropWhile_cons_of_neg (by simp)]
  rfl

theorem filter_eq (hnodup : s.nodes.Nodup) (h : s.items = xs ++ e :: ys) :
    (s.items.filter fun f => node f ≠ node e) = xs ++ ys := by
  rw [h, List.filter_append, List.filter_cons_of_neg (by simp), ← List.filter_append]
  apply List.filter_eq_self.mpr
  intro f hf
  exact decide_eq_true (other_ne hnodup h f hf)

/-- An element that is there has a place. -/
theorem alive_element {n : Nat} (h : s.alive (.element n) = true) :
    ∃ e xs ys, s.items = xs ++ e :: ys ∧ n = e.1 := by
  obtain ⟨e, he, hn⟩ := List.any_eq_true.mp h
  obtain ⟨xs, ys, hsplit⟩ := List.append_of_mem he
  exact ⟨e, xs, ys, hsplit, (of_decide_eq_true hn).symm⟩

theorem alive_node (h : e ∈ s.items) : s.alive (node e) = true :=
  List.any_eq_true.mpr ⟨e, h, decide_eq_true rfl⟩

theorem after_eq (hnodup : s.nodes.Nodup) (h : s.items = xs ++ e :: ys) :
    s.after (node e) = some (firstOf (ys.map node) .postElement) := by
  rw [← behind_eq hnodup h]
  exact if_pos (alive_node (h ▸ List.mem_append_right _ List.mem_cons_self))

theorem before_eq (hnodup : s.nodes.Nodup) (h : s.items = xs ++ e :: ys) :
    s.before (node e) = some (lastOf .preElement (xs.map node)) := by
  rw [← inFront_eq hnodup h]
  exact if_pos (alive_node (h ▸ List.mem_append_right _ List.mem_cons_self))

theorem mem_nodes_ne {a b : Addr} (ha : a ∈ s.nodes) (hb : ∀ n, b ≠ .element n) : a ≠ b := by
  obtain ⟨f, _, rfl⟩ := List.mem_map.mp ha
  exact fun heq => hb f.1 heq.symm

/-- The neighbours in a list are its elements, or the sentinel on that side. -/
theorem ne_lastOf {a b : Addr} (ha : ∀ n, a ≠ .element n) (hab : a ≠ b) (xs : List (Nat × α)) :
    a ≠ lastOf b (xs.map node) := by
  intro heq
  cases List.mem_cons.mp (heq ▸ lastOf_mem b (xs.map node)) with
  | inl h => exact hab h
  | inr h =>
    obtain ⟨f, _, hf⟩ := List.mem_map.mp h
    exact ha f.1 hf.symm

theorem ne_firstOf {a b : Addr} (ha : ∀ n, a ≠ .element n) (hab : a ≠ b) (xs : List (Nat × α)) :
    a ≠ firstOf (xs.map node) b := by
  intro heq
  cases List.mem_append.mp (heq ▸ firstOf_mem (xs.map node) b) with
  | inl h =>
    obtain ⟨f, _, hf⟩ := List.mem_map.mp h
    exact ha f.1 hf.symm
  | inr h => exact hab (List.mem_singleton.mp h)

theorem chain_nodup (hnodup : s.nodes.Nodup) :
    (Addr.preElement :: (s.nodes ++ [.postElement])).Nodup := by
  rw [List.nodup_cons, List.nodup_append]
  refine ⟨?_, hnodup, List.nodup_singleton _, ?_⟩
  · intro hmem
    cases List.mem_append.mp hmem with
    | inl hmem => exact mem_nodes_ne hmem (fun n h => by cases h) rfl
    | inr hmem => cases List.mem_singleton.mp hmem
  · intro a ha b hb
    rw [List.mem_singleton.mp hb]
    exact mem_nodes_ne ha fun n h => by cases h

end ListState

namespace Represents

variable {l : GenericListInfo α} {s : ListState α} {e : Nat × α} {xs ys : List (Nat × α)}

/-! ## Reading -/

theorem getPointer (h : Represents l s) (a : Addr) : l.getPointer a = s.pointerAt a := by
  unfold GenericListInfo.getPointer
  rw [h.allocated]
  cases a with
  | element n =>
    have hpointer : s.pointerAt (.element n) =
      (s.items.find? fun e => e.1 = n).map fun e => some e.2 := rfl
    rw [hpointer]
    cases hfind : s.items.find? fun e => e.1 = n with
    | none =>
      have hdead : s.alive (.element n) = false := by
        rw [ListState.alive, List.any_eq_false]
        intro e he
        exact List.find?_eq_none.mp hfind e he
      rw [hdead]
      rfl
    | some e =>
      have he : e ∈ s.items := List.mem_of_find?_eq_some hfind
      have hn := List.find?_some hfind
      rw [decide_eq_true_eq] at hn
      subst hn
      rw [show s.alive (.element e.1) = true from ListState.alive_node he, if_pos rfl]
      exact congrArg some (h.pointers e he)
  | _ => exact congrArg some (h.header _ fun n heq => by cases heq)

theorem read_node (h : Represents l s) (he : e ∈ s.items) :
    l.getPointer (node e) = some (some e.2) := by
  have halive : l.allocated (node e) = true := (h.allocated _).trans (ListState.alive_node he)
  unfold GenericListInfo.getPointer
  rw [if_pos halive, h.pointers e he]

/-- The neighbours of an element in its place. -/
theorem neighbours (h : Represents l s) (hs : s.items = xs ++ e :: ys) :
    l.previous (node e) = lastOf .preElement (xs.map node) ∧
      l.next (node e) = firstOf (ys.map node) .postElement := by
  have hstretch := h.stretch
  rw [ListState.nodes_eq hs] at hstretch
  exact hstretch.neighbours

theorem getNext (h : Represents l s) (a : Addr) : l.getNext a = s.after a := by
  unfold GenericListInfo.getNext
  rw [h.allocated]
  cases a with
  | preElement => exact congrArg some h.stretch.next_first
  | postElement => exact congrArg some h.last
  | deletedElement => exact congrArg some h.deletedNext
  | element n =>
    by_cases halive : s.alive (.element n) = true
    · obtain ⟨e, xs, ys, hs, rfl⟩ := ListState.alive_element halive
      rw [if_pos halive]
      exact (congrArg some (h.neighbours hs).2).trans (ListState.after_eq h.nodup hs).symm
    · rw [if_neg halive]
      exact (if_neg halive).symm

theorem getPrevious (h : Represents l s) (a : Addr) : l.getPrevious a = s.before a := by
  unfold GenericListInfo.getPrevious
  rw [h.allocated]
  cases a with
  | preElement => exact congrArg some h.first
  | postElement => exact congrArg some h.stretch.prev_last
  | deletedElement => exact congrArg some h.deletedPrevious
  | element n =>
    by_cases halive : s.alive (.element n) = true
    · obtain ⟨e, xs, ys, hs, rfl⟩ := ListState.alive_element halive
      rw [if_pos halive]
      exact (congrArg some (h.neighbours hs).1).trans (ListState.before_eq h.nodup hs).symm
    · rw [if_neg halive]
      exact (if_neg halive).symm

/-! ## Moving -/

theorem cursor (h : Represents l s) (a : Addr) :
    Represents { l with current := a } { s with current := a } :=
  { h with current := rfl }

/-- The list and the state come to the same: both fail, or both have the result and the list
represents the state. -/
def Same {β : Type} (r : Option (GenericListInfo α × β)) (q : Option (ListState α × β)) : Prop :=
  match r, q with
  | none, none => True
  | some (l, x), some (s, y) => Represents l s ∧ x = y
  | _, _ => False

theorem same_some {β : Type} {r : Option (GenericListInfo α × β)} {l' : GenericListInfo α}
    {s' : ListState α} {x : β} (hr : r = some (l', x)) (h : Represents l' s') :
    Same r (some (s', x)) := by
  subst hr
  exact ⟨h, rfl⟩

theorem moveTo (h : Represents l s) (a : Addr) : Same (l.moveTo a) (s.moveTo a) := by
  unfold GenericListInfo.moveTo ListState.moveTo
  rw [h.getPointer]
  cases s.pointerAt a with
  | none => trivial
  | some pointer => exact ⟨h.cursor a, rfl⟩

theorem nextInList (h : Represents l s) :
    Same l.nextInList ((s.after s.current).bind s.moveTo) := by
  unfold GenericListInfo.nextInList
  rw [h.getNext, h.current]
  cases s.after s.current with
  | none => trivial
  | some a => exact h.moveTo a

theorem previousInList (h : Represents l s) :
    Same l.previousInList ((s.before s.current).bind s.moveTo) := by
  unfold GenericListInfo.previousInList
  rw [h.getPrevious, h.current]
  cases s.before s.current with
  | none => trivial
  | some a => exact h.moveTo a

/-- The first element is reached through the one behind it. -/
theorem firstInList (h : Represents l s) :
    Same l.firstInList (s.moveTo (firstOf s.nodes .preElement)) := by
  unfold GenericListInfo.firstInList
  rw [h.getNext, h.stretch.next_first]
  cases hitems : s.items with
  | nil =>
    have hnodes : s.nodes = [] := congrArg (List.map node) hitems
    rw [hnodes]
    show Same ((l.getPrevious .postElement).bind l.moveTo) _
    rw [h.getPrevious, ListState.before, hnodes]
    exact h.moveTo .preElement
  | cons e ys =>
    have hnodes : s.nodes = node e :: ys.map node := congrArg (List.map node) hitems
    have hback : l.getPrevious (firstOf (ys.map node) .postElement) = some (node e) := by
      cases ys with
      | nil =>
        rw [h.getPrevious]
        show some (lastOf _ s.nodes) = _
        rw [hnodes]
        rfl
      | cons f ys =>
        rw [h.getPrevious]
        have hsplit : s.items = [e] ++ f :: ys := hitems
        exact ListState.before_eq h.nodup hsplit
    have hsplit : s.items = [] ++ e :: ys := hitems
    have hafter := ListState.after_eq h.nodup hsplit
    rw [hnodes, firstOf_cons, firstOf_cons, hafter]
    show Same ((l.getPrevious (firstOf (ys.map node) .postElement)).bind l.moveTo) _
    rw [hback]
    exact h.moveTo (node e)

/-- The last element is reached through the one in front of it. -/
theorem lastInList (h : Represents l s) :
    Same l.lastInList (s.moveTo (lastOf .postElement s.nodes)) := by
  unfold GenericListInfo.lastInList
  rw [h.getPrevious, h.stretch.prev_last]
  obtain hitems | ⟨xs, e, hitems⟩ := s.items.eq_nil_or_concat
  · have hnodes : s.nodes = [] := congrArg (List.map node) hitems
    rw [hnodes]
    show Same ((l.getNext .preElement).bind l.moveTo) _
    rw [h.getNext, ListState.after, hnodes]
    exact h.moveTo .postElement
  · rw [List.concat_eq_append] at hitems
    have hnodes : s.nodes = xs.map node ++ [node e] := ListState.nodes_eq hitems
    have hnext : l.getNext (lastOf .preElement (xs.map node)) = some (node e) := by
      rw [h.getNext]
      obtain rfl | ⟨ys, f, rfl⟩ := xs.eq_nil_or_concat
      · show some (firstOf s.nodes _) = _
        rw [hnodes]
        rfl
      · rw [List.concat_eq_append] at hitems ⊢
        rw [List.map_append, List.map_singleton, lastOf_concat]
        rw [List.append_assoc] at hitems
        exact ListState.after_eq h.nodup hitems
    rw [hnodes, lastOf_concat, lastOf_concat, ListState.before_eq h.nodup hitems]
    show Same ((l.getNext (lastOf .preElement (xs.map node))).bind l.moveTo) _
    rw [hnext]
    exact h.moveTo (node e)

/-! ## Adding -/

section Adding

variable {x : α}

theorem fresh_notMem (h : Represents l s) :
    Addr.element s.fresh ∉ Addr.preElement :: (s.nodes ++ [.postElement]) := by
  intro hmem
  cases hmem with
  | tail _ hmem =>
    cases List.mem_append.mp hmem with
    | inl hmem =>
      obtain ⟨e, he, heq⟩ := List.mem_map.mp hmem
      have hn : e.1 = s.fresh := Addr.element.inj heq
      exact absurd (h.bound e he) (by omega)
    | inr hmem => cases List.mem_singleton.mp hmem

/-- A new element has been linked in. -/
theorem added (h : Represents l s) {items : List (Nat × α)} {next previous : Addr → Addr}
    (hitems : items.Perm ((s.fresh, x) :: s.items))
    (hstretch : Stretch next previous .preElement (items.map node) .postElement)
    (hfirst : previous .preElement = .preElement) (hlast : next .postElement = .postElement)
    (hprevious : previous .deletedElement = l.previous .deletedElement)
    (hnext : next .deletedElement = l.next .deletedElement) :
    Represents
      { l with
        pointer := Function.update l.pointer (.element l.fresh) (some x)
        previous := previous
        next := next
        allocated := Function.update l.allocated (.element l.fresh) true
        fresh := l.fresh + 1
        numOfElements := l.numOfElements + 1 }
      (s.add items) where
  stretch := hstretch
  first := hfirst
  last := hlast
  deletedPrevious := hprevious.trans h.deletedPrevious
  deletedNext := hnext.trans h.deletedNext
  pointers := by
    intro e he
    rw [h.fresh]
    cases hitems.mem_iff.mp he with
    | head => exact Function.update_self ..
    | tail _ he =>
      have hne : node e ≠ .element s.fresh := by
        intro heq
        have := Addr.element.inj heq
        exact absurd (h.bound e he) (by omega)
      exact (Function.update_of_ne hne ..).trans (h.pointers e he)
  header := by
    intro a ha
    exact (Function.update_of_ne (ha l.fresh) ..).trans (h.header a ha)
  nodup := by
    have hnodes : (s.add items).nodes.Perm (.element s.fresh :: s.nodes) := hitems.map node
    rw [hnodes.nodup_iff, List.nodup_cons]
    refine ⟨fun hmem => h.fresh_notMem ?_, h.nodup⟩
    exact List.mem_cons_of_mem _ (List.mem_append_left _ hmem)
  bound := by
    intro e he
    cases hitems.mem_iff.mp he with
    | head => exact Nat.lt_succ_self _
    | tail _ he => exact Nat.lt_succ_of_lt (h.bound e he)
  allocated := by
    intro a
    rw [h.fresh]
    by_cases ha : a = .element s.fresh
    · subst ha
      have halive : (s.add items).alive (.element s.fresh) = true :=
        hitems.any_eq.trans (by rw [List.any_cons, decide_eq_true rfl, Bool.true_or])
      exact (Function.update_self ..).trans halive.symm
    · refine ((Function.update_of_ne ha ..).trans (h.allocated a)).trans ?_
      cases a with
      | element n =>
        have hn : ¬s.fresh = n := fun heq => ha (congrArg Addr.element heq.symm)
        have halive : (s.add items).alive (.element n) =
          (decide (s.fresh = n) || s.alive (.element n)) := hitems.any_eq
        rw [halive, decide_eq_false hn, Bool.false_or]
      | _ => rfl
  current := h.current
  size := by
    show l.numOfElements + 1 = UInt32.ofNat items.length
    rw [h.size, hitems.length_eq, List.length_cons, UInt32.ofNat_add]
    rfl
  fresh := congrArg (· + 1) h.fresh

theorem header_allocated (h : Represents l s) {a : Addr} (ha : ∀ n, a ≠ .element n) :
    l.allocated a = true := by
  rw [h.allocated]
  cases a with
  | element n => exact absurd rfl (ha n)
  | _ => rfl

/-- Every element of the chain is allocated. -/
theorem chain_allocated (h : Represents l s) {a : Addr}
    (ha : a ∈ Addr.preElement :: (s.nodes ++ [.postElement])) : l.allocated a = true := by
  cases ha with
  | head => exact h.header_allocated fun n heq => by cases heq
  | tail _ ha =>
    cases List.mem_append.mp ha with
    | inl ha =>
      obtain ⟨e, he, rfl⟩ := List.mem_map.mp ha
      rw [h.allocated]
      exact ListState.alive_node he
    | inr ha =>
      rw [List.mem_singleton.mp ha]
      exact h.header_allocated fun n heq => by cases heq

/-- An element of the header is not where a new one is, or where it is linked. -/
theorem update_header {β : Type} {f : Addr → β} {a b : Addr} {u v : β} {n : Nat}
    (ha : ∀ n, a ≠ .element n) (hb : a ≠ b) :
    Function.update (Function.update f (.element n) u) b v a = f a := by
  rw [Function.update_of_ne hb, Function.update_of_ne (ha n)]

theorem addToEnd_eq (hlive : l.allocated (l.previous .postElement) = true)
    (hpost : l.allocated .postElement = true) (hne : l.previous .postElement ≠ .element l.fresh)
    (x : α) :
    l.addToEnd (some x) = some { l with
      pointer := Function.update l.pointer (.element l.fresh) (some x)
      previous := Function.update
        (Function.update l.previous (.element l.fresh) (l.previous .postElement)) .postElement
        (.element l.fresh)
      next := Function.update (Function.update l.next (.element l.fresh) .postElement)
        (l.previous .postElement) (.element l.fresh)
      allocated := Function.update l.allocated (.element l.fresh) true
      fresh := l.fresh + 1
      numOfElements := l.numOfElements + 1 } := by
  simp [GenericListInfo.addToEnd, GenericListInfo.newElement, GenericListInfo.setNext,
    GenericListInfo.setPrevious, Function.update_of_ne, hne, hlive, hpost]

theorem addToEnd (h : Represents l s) (x : α) :
    ∃ l', l.addToEnd (some x) = some l' ∧ Represents l' (s.add (s.items ++ [(s.fresh, x)])) := by
  have hfresh : Addr.element l.fresh ∉ Addr.preElement :: (s.nodes ++ [.postElement]) :=
    h.fresh ▸ h.fresh_notMem
  have hlast : l.previous .postElement ∈ Addr.preElement :: (s.nodes ++ [.postElement]) := by
    rw [h.stretch.prev_last]
    exact List.mem_append_left [_] (lastOf_mem .preElement s.nodes)
  have hne : l.previous .postElement ≠ .element l.fresh := fun heq => hfresh (heq ▸ hlast)
  have hpost := h.header_allocated (a := .postElement) fun n heq => by cases heq
  have hnew := h.stretch.insert_back (ListState.chain_nodup h.nodup) hfresh
  refine ⟨_, addToEnd_eq (h.chain_allocated hlast) hpost hne x, h.added List.perm_append_comm
    ?_ ?_ ?_ ?_ ?_⟩
  · rw [List.map_append, List.map_singleton, node, ← h.fresh]
    exact hnew
  · exact (update_header (fun n heq => by cases heq) fun heq => by cases heq).trans h.first
  · refine (update_header (fun n heq => by cases heq) ?_).trans h.last
    exact h.stretch.prev_last ▸ ListState.ne_lastOf (by simp) (by simp) s.items
  · exact update_header (fun n heq => by cases heq) fun heq => by cases heq
  · refine update_header (fun n heq => by cases heq) ?_
    exact h.stretch.prev_last ▸ ListState.ne_lastOf (by simp) (by simp) s.items

theorem addToBeginning_eq (hlive : l.allocated (l.next .preElement) = true)
    (hpre : l.allocated .preElement = true) (hne : l.next .preElement ≠ .element l.fresh) (x : α) :
    l.addToBeginning (some x) = some { l with
      pointer := Function.update l.pointer (.element l.fresh) (some x)
      previous := Function.update (Function.update l.previous (.element l.fresh) .preElement)
        (l.next .preElement) (.element l.fresh)
      next := Function.update (Function.update l.next (.element l.fresh) (l.next .preElement))
        .preElement (.element l.fresh)
      allocated := Function.update l.allocated (.element l.fresh) true
      fresh := l.fresh + 1
      numOfElements := l.numOfElements + 1 } := by
  simp [GenericListInfo.addToBeginning, GenericListInfo.newElement, GenericListInfo.setNext,
    GenericListInfo.setPrevious, Function.update_of_ne, hne, hlive, hpre]

theorem addToBeginning (h : Represents l s) (x : α) :
    ∃ l', l.addToBeginning (some x) = some l' ∧ Represents l' (s.add ((s.fresh, x) :: s.items)) := by
  have hfresh : Addr.element l.fresh ∉ Addr.preElement :: (s.nodes ++ [.postElement]) :=
    h.fresh ▸ h.fresh_notMem
  have hfirst : l.next .preElement ∈ Addr.preElement :: (s.nodes ++ [.postElement]) := by
    rw [h.stretch.next_first]
    exact List.mem_cons_of_mem _ (firstOf_mem s.nodes .postElement)
  have hne : l.next .preElement ≠ .element l.fresh := fun heq => hfresh (heq ▸ hfirst)
  have hpre := h.header_allocated (a := .preElement) fun n heq => by cases heq
  have hnew := h.stretch.insert_front (ListState.chain_nodup h.nodup) hfresh
  refine ⟨_, addToBeginning_eq (h.chain_allocated hfirst) hpre hne x, h.added .rfl ?_ ?_ ?_ ?_ ?_⟩
  · rw [List.map_cons, node, ← h.fresh]
    exact hnew
  · refine (update_header (fun n heq => by cases heq) ?_).trans h.first
    exact h.stretch.next_first ▸ ListState.ne_firstOf (by simp) (by simp) s.items
  · exact (update_header (fun n heq => by cases heq) fun heq => by cases heq).trans h.last
  · refine update_header (fun n heq => by cases heq) ?_
    exact h.stretch.next_first ▸ ListState.ne_firstOf (by simp) (by simp) s.items
  · exact update_header (fun n heq => by cases heq) fun heq => by cases heq

end Adding

/-! ## Removing -/

section Removing

/-- There are no more elements than addresses that have been given out. -/
theorem length_le (h : Represents l s) : s.items.length ≤ l.fresh := by
  have hnodup : (s.items.map (·.1)).Nodup := by
    refine List.Nodup.of_map Addr.element ?_
    rw [List.map_map]
    exact h.nodup
  have hsub : s.items.map (·.1) ⊆ List.range l.fresh := by
    intro n hn
    obtain ⟨e, he, rfl⟩ := List.mem_map.mp hn
    rw [h.fresh]
    exact List.mem_range.mpr (h.bound e he)
  have hlength := (List.subperm_of_subset hnodup hsub).length_le
  rwa [List.length_map, List.length_range] at hlength

/-- An element is unlinked and freed. -/
theorem unlinked (h : Represents l s) (hs : s.items = xs ++ e :: ys) :
    Represents
      { l with
        next := Function.update l.next (l.previous (node e)) (l.next (node e))
        previous := Function.update l.previous (l.next (node e)) (l.previous (node e))
        allocated := Function.update l.allocated (node e) false
        numOfElements := l.numOfElements - 1 }
      { s with items := xs ++ ys } where
  stretch := by
    have hstretch := h.stretch
    have hnodup := ListState.chain_nodup h.nodup
    rw [ListState.nodes_eq hs] at hstretch hnodup
    show Stretch _ _ _ ((xs ++ ys).map node) _
    rw [List.map_append]
    exact hstretch.remove hnodup
  first := by
    refine (Function.update_of_ne ?_ ..).trans h.first
    exact (h.neighbours hs).2 ▸ ListState.ne_firstOf (by simp) (by simp) ys
  last := by
    refine (Function.update_of_ne ?_ ..).trans h.last
    exact (h.neighbours hs).1 ▸ ListState.ne_lastOf (by simp) (by simp) xs
  deletedPrevious := by
    refine (Function.update_of_ne ?_ ..).trans h.deletedPrevious
    exact (h.neighbours hs).2 ▸ ListState.ne_firstOf (by simp) (by simp) ys
  deletedNext := by
    refine (Function.update_of_ne ?_ ..).trans h.deletedNext
    exact (h.neighbours hs).1 ▸ ListState.ne_lastOf (by simp) (by simp) xs
  pointers := by
    intro f hf
    exact h.pointers f (hs ▸ (List.perm_middle.mem_iff.mpr (List.mem_cons_of_mem e hf)))
  header := h.header
  nodup := by
    have hnodup := h.nodup
    rw [ListState.nodes_eq hs, List.nodup_middle, ← List.map_append] at hnodup
    exact (List.nodup_cons.mp hnodup).2
  bound := by
    intro f hf
    exact h.bound f (hs ▸ (List.perm_middle.mem_iff.mpr (List.mem_cons_of_mem e hf)))
  allocated := by
    intro a
    have hothers := ListState.other_ne h.nodup hs
    by_cases ha : a = node e
    · subst ha
      refine (Function.update_self ..).trans (Eq.symm ?_)
      apply List.any_eq_false.mpr
      intro f hf heq
      exact hothers f hf (ListState.node_inj.mpr (of_decide_eq_true heq))
    · refine ((Function.update_of_ne ha ..).trans (h.allocated a)).trans ?_
      cases a with
      | element n =>
        have halive : s.alive (.element n) = (decide (e.1 = n) || (xs ++ ys).any fun f => f.1 = n) := by
          rw [ListState.alive, hs]
          exact List.perm_middle.any_eq
        rw [halive, decide_eq_false (fun heq => ha (congrArg Addr.element heq.symm)), Bool.false_or]
        rfl
      | _ => rfl
  current := h.current
  size := by
    have hsize := h.size
    rw [hs, List.perm_middle.length_eq, List.length_cons, UInt32.ofNat_add] at hsize
    show l.numOfElements - 1 = UInt32.ofNat (xs ++ ys).length
    rw [hsize]
    exact UInt32.add_sub_cancel ..
  fresh := h.fresh

/-- The deleted element stands in for the current one. -/
theorem standIn (h : Represents l s) (hs : s.items = xs ++ e :: ys) :
    Represents (l.standIn (node e))
      { s with
        current := .deletedElement
        deletedPrevious := lastOf .preElement (xs.map node)
        deletedNext := firstOf (ys.map node) .postElement } where
  stretch := by
    refine h.stretch.congr ?_ ?_
    · intro a ha
      apply Function.update_of_ne
      intro heq
      cases List.mem_cons.mp (heq ▸ ha) with
      | inl hpre => cases hpre
      | inr hmem => exact ListState.mem_nodes_ne hmem (by simp) rfl
    · intro a ha
      apply Function.update_of_ne
      intro heq
      cases List.mem_append.mp (heq ▸ ha) with
      | inl hmem => exact ListState.mem_nodes_ne hmem (by simp) rfl
      | inr hpost => cases List.mem_singleton.mp hpost
  first := by simp [GenericListInfo.standIn, h.first]
  last := by simp [GenericListInfo.standIn, h.last]
  deletedPrevious := by simp [GenericListInfo.standIn, (h.neighbours hs).1]
  deletedNext := by simp [GenericListInfo.standIn, (h.neighbours hs).2]
  pointers := h.pointers
  header := h.header
  nodup := h.nodup
  bound := h.bound
  allocated := h.allocated
  current := rfl
  size := h.size
  fresh := h.fresh

/-- The neighbours of an element are allocated, and are not the element itself. -/
theorem around (h : Represents l s) (hs : s.items = xs ++ e :: ys) :
    (l.allocated (l.previous (node e)) = true ∧ node e ≠ l.previous (node e)) ∧
      l.allocated (l.next (node e)) = true ∧ node e ≠ l.next (node e) := by
  have hnodup := ListState.chain_nodup h.nodup
  rw [ListState.nodes_eq hs, List.append_assoc, List.cons_append, ← List.cons_append,
    List.nodup_middle, List.nodup_cons] at hnodup
  have hnotin := hnodup.1
  obtain ⟨hp, hn⟩ := h.neighbours hs
  have hpmem := List.mem_append_left (ys.map node ++ [.postElement])
    (lastOf_mem .preElement (xs.map node))
  have hnmem := List.mem_append_right (.preElement :: xs.map node)
    (firstOf_mem (ys.map (node : Nat × α → Addr)) .postElement)
  have hchain : ∀ a ∈ Addr.preElement :: xs.map node ++ (ys.map node ++ [.postElement]),
      l.allocated a = true := by
    intro a ha
    apply h.chain_allocated
    rw [ListState.nodes_eq hs, List.append_assoc, List.cons_append, ← List.cons_append]
    exact List.perm_middle.mem_iff.mpr (List.mem_cons_of_mem _ ha)
  rw [hp, hn]
  exact ⟨⟨hchain _ hpmem, fun heq => hnotin (heq ▸ hpmem)⟩, hchain _ hnmem,
    fun heq => hnotin (heq ▸ hnmem)⟩

/-- What is left is what is left of the list, and the cursor where it was or on the deleted
element. -/
theorem removed (h : Represents l s) (hs : s.items = xs ++ e :: ys) :
    let t := if node e = l.current then l.standIn (node e) else l
    ∃ u, Represents t u ∧ u.items = s.items ∧ { u with items := xs ++ ys } = s.remove e := by
  intro t
  have hfilter := ListState.filter_eq h.nodup hs
  by_cases hcurrent : node e = l.current
  · have ht : t = l.standIn (node e) := if_pos hcurrent
    have hc : s.current = node e := h.current.symm.trans hcurrent.symm
    rw [ht]
    refine ⟨_, h.standIn hs, rfl, ?_⟩
    simp only [ListState.remove, hfilter, hc, if_true, ListState.inFront_eq h.nodup hs,
      ListState.behind_eq h.nodup hs]
  · have ht : t = l := if_neg hcurrent
    have hc : ¬s.current = node e := fun heq => hcurrent (heq.symm.trans h.current.symm)
    rw [ht]
    refine ⟨s, h, rfl, ?_⟩
    simp only [ListState.remove, hfilter, hc, if_false]

end Removing

section RemovingCalls

/-- `remove_current`: the element under the cursor, unless that is part of the header. -/
theorem removeCurrent (h : Represents l s) : Same l.removeCurrent s.removeCurrent := by
  have hpointer := h.getPointer l.current
  rw [h.current] at hpointer
  cases hcurrent : s.current with
  | element n =>
    have hspec : s.removeCurrent =
        (s.items.find? fun e => e.1 = n).map fun e => (s.remove e, some e.2) := by
      unfold ListState.removeCurrent
      rw [hcurrent]
    have hat : s.pointerAt (.element n) =
      (s.items.find? fun e => e.1 = n).map fun e => some e.2 := rfl
    rw [hcurrent, hat] at hpointer
    rw [hspec]
    cases hfind : s.items.find? fun e => e.1 = n with
    | none =>
      rw [hfind] at hpointer
      have hrun : l.removeCurrent = none := by
        simp [GenericListInfo.removeCurrent, h.current, hcurrent, hpointer]
      rw [hrun]
      trivial
    | some e =>
      obtain ⟨xs, ys, hs⟩ := List.append_of_mem (List.mem_of_find?_eq_some hfind)
      have hn := List.find?_some hfind
      rw [decide_eq_true_eq] at hn
      subst hn
      rw [hfind] at hpointer
      obtain ⟨u, ht, hitems, hremove⟩ := h.removed hs
      have hnode : l.current = node e := h.current.trans hcurrent
      rw [if_pos hnode.symm] at ht
      obtain ⟨⟨hp, _⟩, hn, hna⟩ := ht.around (hitems.trans hs)
      have hafter := ht.unlinked (hitems.trans hs)
      rw [hremove] at hafter
      have hread : l.getPointer (node e) = some (some e.2) := hpointer
      refine same_some ?_ hafter
      simp [GenericListInfo.removeCurrent, hnode, hread, GenericListInfo.setNext,
        GenericListInfo.setPrevious, GenericListInfo.freeElement, hp, hn,
        Function.update_of_ne hna]
  | _ =>
    have hspec : s.removeCurrent = some (s, none) := by
      unfold ListState.removeCurrent
      rw [hcurrent]
    have hrun : l.removeCurrent = some (l, none) := by
      rw [hcurrent] at hpointer
      simp [GenericListInfo.removeCurrent, h.current, hcurrent, hpointer, ListState.pointerAt]
    rw [hspec]
    exact same_some hrun h

/-- The element that the search from the end comes to. -/
theorem searchBack_eq [DecidableEq α] (h : Represents l s) (p : Option α) (n : Nat)
    (hs : s.items = xs ++ ys) (hn : xs.length < n) :
    l.searchBack p n (lastOf .preElement (xs.map node)) =
      some (((xs.reverse.find? fun e => some e.2 = p).map node).getD .preElement) := by
  induction n generalizing xs ys with
  | zero => omega
  | succ n ih =>
    obtain rfl | ⟨zs, e, rfl⟩ := xs.eq_nil_or_concat
    · rfl
    · rw [List.concat_eq_append] at hs hn ⊢
      rw [List.append_assoc] at hs
      have hread := h.read_node (hs ▸ List.mem_append_right zs List.mem_cons_self)
      rw [List.map_append, List.map_singleton, lastOf_concat, List.reverse_append]
      unfold GenericListInfo.searchBack
      rw [if_neg (by simp [node]), hread, (h.neighbours hs).1]
      by_cases hp : some e.2 = p
      · simp [hp]
      · have hrest := ih hs (by simpa using hn)
        simpa [hp] using hrest

/-- `remove_from_list`: the last element with the pointer. -/
theorem removeFromList [DecidableEq α] (h : Represents l s) (p : Option α) :
    Same (l.removeFromList p) (s.removeThis p) := by
  have hsearch := h.searchBack_eq p (l.fresh + 1) (List.append_nil _).symm
    (Nat.lt_succ_of_le h.length_le)
  have hlast : l.previous .postElement = lastOf .preElement (s.items.map node) :=
    h.stretch.prev_last
  unfold ListState.removeThis
  cases hfind : s.items.reverse.find? fun e => some e.2 = p with
  | none =>
    rw [hfind] at hsearch
    refine same_some ?_ h
    simp [GenericListInfo.removeFromList, hlast, hsearch]
  | some e =>
    rw [hfind] at hsearch
    obtain ⟨xs, ys, hs⟩ := List.append_of_mem (List.mem_reverse.mp (List.mem_of_find?_eq_some hfind))
    obtain ⟨u, ht, hitems, hremove⟩ := h.removed hs
    obtain ⟨⟨hp, hpa⟩, hn, _⟩ := ht.around (hitems.trans hs)
    have hafter := ht.unlinked (hitems.trans hs)
    rw [hremove] at hafter
    refine same_some ?_ hafter
    have hpre : node e ≠ .preElement := by simp [node]
    simp only [GenericListInfo.removeFromList, hlast, hsearch]
    simp [hpre, GenericListInfo.setNext,
      GenericListInfo.setPrevious, GenericListInfo.freeElement, hp, hn, Function.update_of_ne hpa]

/-- The count is right as long as it has not wrapped. -/
theorem size_eq_zero_iff (h : Represents l s) (hsmall : s.items.length < 2 ^ 32) :
    l.numOfElements = 0 ↔ s.items = [] := by
  rw [h.size, ← UInt32.toNat_inj, UInt32.toNat_ofNat_of_lt' hsmall, ← List.length_eq_zero_iff]
  rfl

/-- The first element is unlinked and freed. -/
theorem cutFirst (h : Represents l s) (hs : s.items = e :: ys) :
    ∃ l', ((l.getPointer (node e)).bind fun pointer =>
        (l.setNext .preElement (l.next (node e))).bind fun l =>
          (l.setPrevious (l.next (node e)) .preElement).bind fun l =>
            some (l.freeElement (node e), pointer)) = some (l', some e.2) ∧
      Represents l' { s with items := ys } := by
  have hsplit : s.items = [] ++ e :: ys := hs
  obtain ⟨_, hn, _⟩ := h.around hsplit
  have hprev : l.previous (node e) = .preElement := (h.neighbours hsplit).1
  have hread := h.read_node (e := e) (hs ▸ List.mem_cons_self)
  have hpre := h.header_allocated (a := .preElement) fun n heq => by cases heq
  have hafter := h.unlinked hsplit
  rw [hprev] at hafter
  refine ⟨_, ?_, hafter⟩
  simp [hread, GenericListInfo.setNext, GenericListInfo.setPrevious, hpre, hn,
    Function.update_of_ne (show node e ≠ .preElement by simp [node]), GenericListInfo.freeElement]

/-- The last element is. -/
theorem cutLast (h : Represents l s) (hs : s.items = xs ++ [e]) :
    ∃ l', ((l.getPointer (node e)).bind fun pointer =>
        (l.setPrevious .postElement (l.previous (node e))).bind fun l =>
          (l.setNext (l.previous (node e)) .postElement).bind fun l =>
            some (l.freeElement (node e), pointer)) = some (l', some e.2) ∧
      Represents l' { s with items := xs } := by
  obtain ⟨⟨hp, _⟩, _⟩ := h.around hs
  have hnext : l.next (node e) = .postElement := (h.neighbours hs).2
  have hread := h.read_node (e := e) (hs ▸ List.mem_append_right _ List.mem_cons_self)
  have hpost := h.header_allocated (a := .postElement) fun n heq => by cases heq
  have hafter := h.unlinked hs
  rw [hnext, List.append_nil] at hafter
  refine ⟨_, ?_, hafter⟩
  simp [hread, GenericListInfo.setNext, GenericListInfo.setPrevious, hpost, hp,
    Function.update_of_ne (show node e ≠ .postElement by simp [node]),
    GenericListInfo.freeElement]

/-- The cursor leaves an element for one of the header. -/
theorem cursor_off (h : Represents l s) (e : Nat × α) (a : Addr) :
    Represents (if node e = l.current then { l with current := a } else l)
      { s with current := if s.current = node e then a else s.current } := by
  by_cases hc : s.current = node e
  · rw [if_pos hc, if_pos (h.current.trans hc).symm]
    exact h.cursor a
  · rw [if_neg hc, if_neg fun heq => hc (heq.trans h.current).symm]
    exact h

/-- `remove_from_beginning`. -/
theorem removeFromBeginning (h : Represents l s) (hsmall : s.items.length < 2 ^ 32) :
    Same l.removeFromBeginning s.removeFirst := by
  unfold ListState.removeFirst
  cases hs : s.items with
  | nil =>
    refine same_some ?_ h
    exact if_pos ((h.size_eq_zero_iff hsmall).mpr hs)
  | cons e ys =>
    have hsize : l.numOfElements ≠ 0 := by
      intro hzero
      rw [h.size_eq_zero_iff hsmall, hs] at hzero
      cases hzero
    have hnext : l.next .preElement = node e := by
      have hsplit : s.items = [] ++ e :: ys := hs
      rw [h.stretch.next_first, ListState.nodes_eq hsplit]
      rfl
    obtain ⟨l', hrun, hafter⟩ := (h.cursor_off e .preElement).cutFirst hs
    refine same_some ?_ hafter
    unfold GenericListInfo.removeFromBeginning
    rw [if_neg hsize, hnext]
    exact hrun

/-- `remove_from_end`. -/
theorem removeFromEnd (h : Represents l s) (hsmall : s.items.length < 2 ^ 32) :
    Same l.removeFromEnd s.removeLast := by
  unfold ListState.removeLast
  obtain hs | ⟨xs, e, hs⟩ := s.items.eq_nil_or_concat
  · rw [hs]
    refine same_some ?_ h
    exact if_pos ((h.size_eq_zero_iff hsmall).mpr hs)
  · rw [List.concat_eq_append] at hs
    have hsize : l.numOfElements ≠ 0 := by
      intro hzero
      rw [h.size_eq_zero_iff hsmall, hs] at hzero
      exact List.append_ne_nil_of_right_ne_nil xs (List.cons_ne_nil e []) hzero
    have hprev : l.previous .postElement = node e := by
      rw [h.stretch.prev_last, ListState.nodes_eq hs]
      exact lastOf_concat ..
    obtain ⟨l', hrun, hafter⟩ := (h.cursor_off e .postElement).cutLast hs
    rw [hs, List.getLast?_concat, List.dropLast_concat]
    refine same_some ?_ hafter
    unfold GenericListInfo.removeFromEnd
    rw [if_neg hsize, hprev]
    exact hrun

/-- The loop of `remove_all` frees the elements from one of them on. -/
theorem freeFrom_eq {ns : List Addr} {a : Addr} {n : Nat}
    (hstretch : Stretch l.next l.previous a ns .postElement) (hnodup : ns.Nodup)
    (hpost : .postElement ∉ ns) (hlive : ∀ b ∈ ns ++ [.postElement], l.allocated b = true)
    (hn : ns.length < n) :
    GenericListInfo.freeFrom n l (firstOf ns .postElement) =
      some { l with allocated := fun b => if b ∈ ns then false else l.allocated b } := by
  induction n generalizing l ns a with
  | zero => omega
  | succ n ih =>
    cases ns with
    | nil => simp [GenericListInfo.freeFrom]
    | cons c ns =>
      obtain ⟨_, hrest⟩ := hstretch
      have hc : c ≠ .postElement := fun heq => hpost (heq ▸ List.mem_cons_self)
      have hnext : l.getNext c = some (firstOf ns .postElement) := by
        rw [GenericListInfo.getNext, if_pos (hlive c List.mem_cons_self), hrest.next_first]
      have hback : l.getPrevious (firstOf ns .postElement) = some c := by
        rw [GenericListInfo.getPrevious,
          if_pos (hlive _ (List.mem_cons_of_mem c (firstOf_mem ns .postElement)))]
        cases ns with
        | nil => rw [firstOf_nil, hrest.2]
        | cons d ns => rw [firstOf_cons, hrest.1.2]
      have hcns : c ∉ ns := (List.nodup_cons.mp hnodup).1
      have hothers : ∀ b ∈ ns ++ [.postElement],
          Function.update l.allocated c false b = true := by
        intro b hb
        have hbc : b ≠ c := by
          intro heq
          cases List.mem_append.mp (heq ▸ hb) with
          | inl hmem => exact hcns hmem
          | inr hmem => exact hc (List.mem_singleton.mp hmem)
        rw [Function.update_of_ne hbc]
        exact hlive b (List.mem_cons_of_mem c hb)
      have hgo := ih (l := { l with allocated := Function.update l.allocated c false }) hrest
        (List.nodup_cons.mp hnodup).2 (fun hmem => hpost (List.mem_cons_of_mem c hmem)) hothers
        (by simpa using hn)
      rw [firstOf_cons]
      unfold GenericListInfo.freeFrom
      rw [if_neg hc, hnext]
      simp only [Option.bind_eq_bind, Option.bind_some, hback, hgo, Option.some.injEq,
        GenericListInfo.mk.injEq, true_and, and_true]
      funext b
      by_cases hbc : b = c
      · subst hbc
        simp
      · simp [hbc]

/-- The sentinels are linked to each other, and no element is left. -/
theorem emptied (h : Represents l s) :
    Represents
      { l with
        allocated := fun b => if b ∈ s.nodes then false else l.allocated b
        next := Function.update l.next .preElement .postElement
        previous := Function.update l.previous .postElement .preElement
        numOfElements := 0 }
      { s with items := [] } where
  stretch := by simp [ListState.nodes, Stretch]
  first := by simp [h.first]
  last := by simp [h.last]
  deletedPrevious := by simp [h.deletedPrevious]
  deletedNext := by simp [h.deletedNext]
  pointers := fun e he => by cases he
  header := h.header
  nodup := List.nodup_nil
  bound := fun e he => by cases he
  allocated := by
    intro a
    dsimp only
    rw [h.allocated]
    cases a with
    | element n =>
      have hnone : ({ s with items := [] } : ListState α).alive (.element n) = false := rfl
      rw [hnone]
      split
      · rfl
      · rename_i hmem
        apply Bool.eq_false_iff.mpr
        intro halive
        obtain ⟨e, xs, ys, hs, rfl⟩ := ListState.alive_element halive
        exact hmem (ListState.nodes_eq hs ▸ List.mem_append_right _ List.mem_cons_self)
    | _ => exact if_neg fun hmem => ListState.mem_nodes_ne hmem (by simp) rfl
  current := h.current
  size := rfl
  fresh := h.fresh

/-- `remove_all`. The cursor stays where it was. -/
theorem removeAll (h : Represents l s) :
    ∃ l', l.removeAll = some l' ∧ Represents l' { s with items := [] } := by
  have hpost : .postElement ∉ s.nodes := fun hmem => ListState.mem_nodes_ne hmem (by simp) rfl
  have hlive : ∀ b ∈ s.nodes ++ [.postElement], l.allocated b = true := by
    intro b hb
    exact h.chain_allocated (List.mem_cons_of_mem _ hb)
  have hfree := freeFrom_eq h.stretch h.nodup hpost hlive (n := l.fresh + 1)
    (by rw [ListState.nodes, List.length_map]; exact Nat.lt_succ_of_le h.length_le)
  refine ⟨_, ?_, h.emptied⟩
  unfold GenericListInfo.removeAll
  rw [h.stretch.next_first, hfree]
  rfl

end RemovingCalls

/-! ## Searching -/

/-- The element that the search from the beginning comes to. -/
theorem search_eq [DecidableEq α] (h : Represents l s) (p : Option α) (n : Nat)
    (hs : s.items = xs ++ ys) (hn : ys.length < n) :
    l.search p n (firstOf (ys.map node) .postElement) =
      some (((ys.find? fun e => some e.2 = p).map node).getD .postElement) := by
  induction n generalizing xs ys with
  | zero => omega
  | succ n ih =>
    cases ys with
    | nil => rfl
    | cons e ys =>
      have hread := h.read_node (e := e) (hs ▸ List.mem_append_right _ List.mem_cons_self)
      unfold GenericListInfo.search
      rw [List.map_cons, firstOf_cons, if_neg (by simp [node]), hread, (h.neighbours hs).2]
      by_cases hp : some e.2 = p
      · simp [hp]
      · have hnext : s.items = (xs ++ [e]) ++ ys := by simpa using hs
        have hrest := ih hnext (by simpa using hn)
        simpa [hp] using hrest

/-- `is_in_list`. -/
theorem isInList [DecidableEq α] (h : Represents l s) (p : Option α) :
    l.isInList p = some (s.items.any fun e => some e.2 = p) := by
  have hitems : s.items = [] ++ s.items := rfl
  have hsearch := h.search_eq p (l.fresh + 1) hitems (Nat.lt_succ_of_le h.length_le)
  have hfirst : l.next .preElement = firstOf (s.items.map node) .postElement := h.stretch.next_first
  unfold GenericListInfo.isInList
  rw [hfirst, hsearch]
  cases hfind : s.items.find? fun e => some e.2 = p with
  | none =>
    have hno : (s.items.any fun e => some e.2 = p) = false :=
      List.any_eq_false.mpr fun e he => List.find?_eq_none.mp hfind e he
    rw [hno]
    rfl
  | some e =>
    have hp := List.find?_some hfind
    have hyes : (s.items.any fun e => some e.2 = p) = true :=
      List.any_eq_true.mpr ⟨e, List.mem_of_find?_eq_some hfind, hp⟩
    rw [hyes]
    rfl

theorem initializeList (α : Type) : Represents (SfcUtil.initializeList α) (.empty α) where
  stretch := ⟨rfl, rfl⟩
  first := rfl
  last := rfl
  deletedPrevious := rfl
  deletedNext := rfl
  pointers := fun e he => by cases he
  header := fun _ _ => rfl
  nodup := List.nodup_nil
  bound := fun e he => by cases he
  allocated := fun a => by cases a <;> rfl
  current := rfl
  size := rfl
  fresh := rfl

end Represents

end Sfcb.SfcUtil
