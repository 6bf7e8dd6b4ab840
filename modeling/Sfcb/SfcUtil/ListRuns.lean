import Sfcb.Lib.Cursor
import Sfcb.Lib.Numeral
import Sfcb.SfcUtil.ListState

/-!
# Programs with lists

Any calls of a list's functions give what they give on a `ListState`, a list that is looked at
as a whole, up to and including the call that would touch a freed element (`answers_eq`). The
number of elements is an `unsigned int` that is returned as an `int`, so there are fewer than
`2 ^ 31` calls.

Two uses are worked out. A caller's loop that takes some elements out on its way sees every
element once, in order, and leaves the others (`Represents.sweep`, and for a list that any calls
have made, `sweep_eq`). Programs that only walk, over any
number of lists, are the cursor programs of the library (`walkSteps_eq`): where the walks over
the class register are modelled with cursors, this is what their lists do.
-/

namespace Sfcb.SfcUtil

open Sfcb.Lib

variable {α : Type}

/-! ## Calls -/

/-- A call of one of the `UtilList` functions. -/
inductive ListCall (α : Type) where
  | append (elm : Option α)
  | prepend (elm : Option α)
  | getFirst
  | getLast
  | getNext
  | getPrevious
  | getCurrent
  | removeFirst
  | removeLast
  | removeCurrent
  | removeThis (elm : Option α)
  | clear
  | size
  | isEmpty
  | contains (elm : Option α)

/-- What a call returns. -/
inductive ListAnswer (α : Type) where
  | done
  | pointer (elm : Option α)
  | size (size : Int)
  | flag (flag : Bool)
deriving DecidableEq, Repr

/-- The answers up to the end of the calls, or to a fault. -/
def answers {σ β γ : Type} (call : σ → γ → Option (σ × β)) : σ → List γ → List (Option β)
  | _, [] => []
  | s, c :: cs =>
    match call s c with
    | none => [none]
    | some (s, a) => some a :: answers call s cs

/-- After some calls, unless one of them is a fault. -/
def afterCalls {σ β γ : Type} (call : σ → γ → Option (σ × β)) : σ → List γ → Option σ
  | s, [] => some s
  | s, c :: cs => (call s c).bind fun r => afterCalls call r.1 cs

variable [DecidableEq α]

/-- A call of the list. -/
def GenericListInfo.call (l : GenericListInfo α) :
    ListCall α → Option (GenericListInfo α × ListAnswer α)
  | .append elm => (l.addToEnd elm).map fun l => (l, .done)
  | .prepend elm => (l.addToBeginning elm).map fun l => (l, .done)
  | .getFirst => l.firstInList.map fun r => (r.1, .pointer r.2)
  | .getLast => l.lastInList.map fun r => (r.1, .pointer r.2)
  | .getNext => l.nextInList.map fun r => (r.1, .pointer r.2)
  | .getPrevious => l.previousInList.map fun r => (r.1, .pointer r.2)
  | .getCurrent => l.currentInList.map fun r => (r.1, .pointer r.2)
  | .removeFirst => l.removeFromBeginning.map fun r => (r.1, .pointer r.2)
  | .removeLast => l.removeFromEnd.map fun r => (r.1, .pointer r.2)
  | .removeCurrent => l.removeCurrent.map fun r => (r.1, .pointer r.2)
  | .removeThis elm => (l.removeFromList elm).map fun r => (r.1, .pointer r.2)
  | .clear => l.removeAll.map fun l => (l, .done)
  | .size => some (l, .size (cInt l.numOfElements.toNat))
  | .isEmpty => some (l, .flag (l.numOfElements == 0))
  | .contains elm => (l.isInList elm).map fun b => (l, .flag b)

/-- A call of the list with a cursor. -/
def ListState.call (s : ListState α) : ListCall α → Option (ListState α × ListAnswer α)
  | .append none => some (s, .done)
  | .append (some x) => some (s.add (s.items ++ [(s.fresh, x)]), .done)
  | .prepend none => some (s, .done)
  | .prepend (some x) => some (s.add ((s.fresh, x) :: s.items), .done)
  | .getFirst => (s.moveTo (firstOf s.nodes .preElement)).map fun r => (r.1, .pointer r.2)
  | .getLast => (s.moveTo (lastOf .postElement s.nodes)).map fun r => (r.1, .pointer r.2)
  | .getNext => ((s.after s.current).bind s.moveTo).map fun r => (r.1, .pointer r.2)
  | .getPrevious => ((s.before s.current).bind s.moveTo).map fun r => (r.1, .pointer r.2)
  | .getCurrent => (s.moveTo s.current).map fun r => (r.1, .pointer r.2)
  | .removeFirst => s.removeFirst.map fun r => (r.1, .pointer r.2)
  | .removeLast => s.removeLast.map fun r => (r.1, .pointer r.2)
  | .removeCurrent => s.removeCurrent.map fun r => (r.1, .pointer r.2)
  | .removeThis elm => (s.removeThis elm).map fun r => (r.1, .pointer r.2)
  | .clear => some ({ s with items := [] }, .done)
  | .size => some (s, .size s.items.length)
  | .isEmpty => some (s, .flag s.items.isEmpty)
  | .contains elm => some (s, .flag (s.items.any fun e => some e.2 = elm))

section Runs

variable {l : GenericListInfo α} {s : ListState α}

omit [DecidableEq α] in
theorem Represents.map_same {β γ : Type} {r : Option (GenericListInfo α × β)}
    {q : Option (ListState α × β)} (h : Represents.Same r q) (f : β → γ) :
    Represents.Same (r.map fun x => (x.1, f x.2)) (q.map fun x => (x.1, f x.2)) := by
  cases r with
  | none =>
    cases q with
    | none => trivial
    | some q => exact h
  | some r =>
    cases q with
    | none => exact h
    | some q => exact ⟨h.1, congrArg f h.2⟩

omit [DecidableEq α] in
theorem Represents.of_same {β : Type} {r : Option (GenericListInfo α × β)} {s' : ListState α}
    {x : β} (h : Represents.Same r (some (s', x))) : ∃ l', r = some (l', x) ∧ Represents l' s' := by
  cases r with
  | none => exact h.elim
  | some r => exact ⟨r.1, congrArg some (Prod.ext rfl h.2), h.1⟩

/-- A call adds at most one element. -/
theorem ListState.call_length {s' : ListState α} {c : ListCall α} {a : ListAnswer α}
    (h : s.call c = some (s', a)) : s'.items.length ≤ s.items.length + 1 := by
  have hremove : ∀ e, (s.remove e).items.length ≤ s.items.length + 1 :=
    fun e => Nat.le_succ_of_le (List.length_filter_le ..)
  have hmove : ∀ {b : Addr} {r}, s.moveTo b = some r → r.1.items.length ≤ s.items.length + 1 := by
    intro b r hr
    obtain ⟨_, -, rfl⟩ := Option.map_eq_some_iff.mp hr
    exact Nat.le_succ _
  cases c with
  | append elm | prepend elm =>
    cases elm with
    | none =>
      cases h
      exact Nat.le_succ _
    | some x =>
      cases h
      simp [ListState.add]
  | getFirst | getLast | getCurrent =>
    obtain ⟨r, hr, heq⟩ := Option.map_eq_some_iff.mp h
    cases heq
    exact hmove hr
  | getNext | getPrevious =>
    obtain ⟨r, hr, heq⟩ := Option.map_eq_some_iff.mp h
    obtain ⟨b, -, hr⟩ := Option.bind_eq_some_iff.mp hr
    cases heq
    exact hmove hr
  | removeFirst =>
    obtain ⟨r, hr, heq⟩ := Option.map_eq_some_iff.mp h
    cases heq
    unfold ListState.removeFirst at hr
    split at hr
    · cases hr
      exact Nat.le_succ _
    · next hs =>
      cases hr
      simp [hs]
      omega
  | removeLast =>
    obtain ⟨r, hr, heq⟩ := Option.map_eq_some_iff.mp h
    cases heq
    unfold ListState.removeLast at hr
    split at hr
    · cases hr
      exact Nat.le_succ _
    · cases hr
      simp
      omega
  | removeCurrent =>
    obtain ⟨r, hr, heq⟩ := Option.map_eq_some_iff.mp h
    cases heq
    unfold ListState.removeCurrent at hr
    split at hr
    · obtain ⟨e, -, rfl⟩ := Option.map_eq_some_iff.mp hr
      exact hremove e
    · cases hr
      exact Nat.le_succ _
  | removeThis elm =>
    obtain ⟨r, hr, heq⟩ := Option.map_eq_some_iff.mp h
    cases heq
    unfold ListState.removeThis at hr
    split at hr
    · next e _ =>
      cases hr
      exact hremove e
    · cases hr
      exact Nat.le_succ _
  | clear =>
    cases h
    exact Nat.zero_le _
  | size | isEmpty | contains elm =>
    cases h
    exact Nat.le_succ _

/-- A call is answered in the same way while an `int` holds the number of elements. -/
theorem Represents.call (h : Represents l s) (hsmall : s.items.length < 2 ^ 31) (c : ListCall α) :
    Represents.Same (l.call c) (s.call c) := by
  cases c with
  | append elm =>
    cases elm with
    | none => exact ⟨h, rfl⟩
    | some x =>
      obtain ⟨l', hadd, h'⟩ := h.addToEnd x
      exact same_some (by rw [GenericListInfo.call, hadd]; rfl) h'
  | prepend elm =>
    cases elm with
    | none => exact ⟨h, rfl⟩
    | some x =>
      obtain ⟨l', hadd, h'⟩ := h.addToBeginning x
      exact same_some (by rw [GenericListInfo.call, hadd]; rfl) h'
  | getFirst => exact map_same h.firstInList ListAnswer.pointer
  | getLast => exact map_same h.lastInList ListAnswer.pointer
  | getNext => exact map_same h.nextInList ListAnswer.pointer
  | getPrevious => exact map_same h.previousInList ListAnswer.pointer
  | getCurrent =>
    have hcurrent := h.moveTo l.current
    rw [h.current] at hcurrent
    refine map_same ?_ ListAnswer.pointer
    unfold GenericListInfo.currentInList
    rw [h.current]
    exact hcurrent
  | removeFirst => exact map_same (h.removeFromBeginning (by omega)) ListAnswer.pointer
  | removeLast => exact map_same (h.removeFromEnd (by omega)) ListAnswer.pointer
  | removeCurrent => exact map_same h.removeCurrent ListAnswer.pointer
  | removeThis elm => exact map_same (h.removeFromList elm) ListAnswer.pointer
  | clear =>
    obtain ⟨l', hclear, h'⟩ := h.removeAll
    exact same_some (by rw [GenericListInfo.call, hclear]; rfl) h'
  | size =>
    refine ⟨h, congrArg ListAnswer.size ?_⟩
    rw [h.size, UInt32.toNat_ofNat_of_lt' (Nat.lt_trans hsmall (by decide))]
    exact cInt_of_lt hsmall
  | isEmpty =>
    refine ⟨h, congrArg ListAnswer.flag ?_⟩
    rw [Bool.eq_iff_iff, beq_iff_eq, List.isEmpty_iff]
    exact h.size_eq_zero_iff (by omega)
  | contains elm => exact same_some (by rw [GenericListInfo.call, h.isInList elm]; rfl) h

theorem Represents.answers (h : Represents l s) (cs : List (ListCall α))
    (hsmall : s.items.length + cs.length < 2 ^ 31) :
    SfcUtil.answers GenericListInfo.call l cs = SfcUtil.answers ListState.call s cs := by
  induction cs generalizing l s with
  | nil => rfl
  | cons c cs ih =>
    rw [List.length_cons] at hsmall
    have hcall := h.call (by omega) c
    unfold SfcUtil.answers
    cases hl : l.call c with
    | none =>
      cases hs : s.call c with
      | none => rfl
      | some q =>
        rw [hl, hs] at hcall
        exact hcall.elim
    | some r =>
      cases hs : s.call c with
      | none =>
        rw [hl, hs] at hcall
        exact hcall.elim
      | some q =>
        rw [hl, hs] at hcall
        have hlength := ListState.call_length hs
        show some r.2 :: _ = some q.2 :: _
        rw [hcall.2, ih hcall.1 (by omega)]

theorem Represents.afterCalls {l' : GenericListInfo α} (h : Represents l s)
    (cs : List (ListCall α)) (hsmall : s.items.length + cs.length < 2 ^ 31)
    (hl : SfcUtil.afterCalls GenericListInfo.call l cs = some l') :
    ∃ s', SfcUtil.afterCalls ListState.call s cs = some s' ∧ Represents l' s' ∧
      s'.items.length ≤ s.items.length + cs.length := by
  induction cs generalizing l s with
  | nil =>
    cases hl
    exact ⟨s, rfl, h, Nat.le_refl _⟩
  | cons c cs ih =>
    rw [List.length_cons] at hsmall ⊢
    have hcall := h.call (by omega) c
    rw [SfcUtil.afterCalls, Option.bind_eq_some_iff] at hl
    obtain ⟨r, hr, hrest⟩ := hl
    cases hs : s.call c with
    | none =>
      rw [hr, hs] at hcall
      exact hcall.elim
    | some q =>
      rw [hr, hs] at hcall
      have hlength := ListState.call_length hs
      obtain ⟨s', hrun, h', hle⟩ := ih hcall.1 (by omega) hrest
      refine ⟨s', ?_, h', by omega⟩
      rw [SfcUtil.afterCalls, hs, Option.bind_some]
      exact hrun

/-- From a new list on, fewer than `2 ^ 31` calls are answered as the list with a cursor answers
them, and touch a freed element at the same call or never. -/
theorem answers_eq (cs : List (ListCall α)) (hsmall : cs.length < 2 ^ 31) :
    answers GenericListInfo.call (initializeList α) cs =
      answers ListState.call (ListState.empty α) cs :=
  (Represents.initializeList α).answers cs (by
    rw [ListState.empty, List.length_nil, Nat.zero_add]
    exact hsmall)

/-- The element under the cursor is taken out, and then the list is cleared: there is nothing
behind the cursor any more. -/
theorem answers_eq_cleared :
    answers GenericListInfo.call (initializeList Nat)
        [.append (some 5), .prepend (some 7), .getFirst, .removeCurrent, .size, .clear, .getNext,
          .size] =
      answers ListState.call (ListState.empty Nat)
        [.append (some 5), .prepend (some 7), .getFirst, .removeCurrent, .size, .clear, .getNext,
          .size] :=
  answers_eq _ (by decide)

end Runs

/-! ## Loops that take elements out -/

section Sweep

variable {σ : Type}

/-- What a caller does with an element: it goes on with a state, has the element taken out or
not, and leaves the loop or not. -/
structure Visited (σ : Type) where
  state : σ
  remove : Bool
  stop : Bool

omit [DecidableEq α]

/-- The loop `for (x = getFirst; x; x = getNext)`, with `removeCurrent` in its body, from an
element on. It is left after so many rounds at the latest. -/
def sweepFrom (visit : σ → α → Visited σ) :
    Nat → GenericListInfo α × Option α → σ → Option (GenericListInfo α × σ)
  | _, (l, none), a => some (l, a)
  | 0, (_, some _), _ => none
  | left + 1, (l, some x), a =>
    let r := visit a x
    (if r.remove then l.removeCurrent.map (·.1) else some l).bind fun l =>
      if r.stop then some (l, r.state)
      else l.nextInList.bind fun next => sweepFrom visit left next r.state

/-- The loop. -/
def sweep (visit : σ → α → Visited σ) (l : GenericListInfo α) (a : σ) :
    Option (GenericListInfo α × σ) :=
  l.firstInList.bind fun first => sweepFrom visit l.fresh first a

/-- The state after the visits of some elements, and those that are left. -/
def sweepItems (visit : σ → α → Visited σ) : σ → List (Nat × α) → σ × List (Nat × α)
  | a, [] => (a, [])
  | a, e :: items =>
    let r := visit a e.2
    let rest := if r.stop then (r.state, items) else sweepItems visit r.state items
    (rest.1, if r.remove then rest.2 else e :: rest.2)

variable {visit : σ → α → Visited σ} {l : GenericListInfo α} {s : ListState α}
  {done rest : List (Nat × α)} {e : Nat × α}

theorem Represents.pointerAt_node (h : Represents l s) (he : e ∈ s.items) :
    s.pointerAt (node e) = some (some e.2) := by
  rw [← h.getPointer, h.read_node he]

/-- The cursor goes to the first of the elements that are left, or behind the list. -/
theorem Represents.moveTo_rest (h : Represents l s) (hs : s.items = done ++ rest) :
    s.moveTo (firstOf (rest.map node) .postElement) =
      some ({ s with current := firstOf (rest.map node) .postElement }, rest.head?.map (·.2)) := by
  unfold ListState.moveTo
  cases rest with
  | nil => rfl
  | cons e rest =>
    rw [List.map_cons, firstOf_cons,
      h.pointerAt_node (hs ▸ List.mem_append_right _ List.mem_cons_self)]
    rfl

theorem Represents.nextInList_rest (h : Represents l s) (hs : s.items = done ++ rest)
    (hafter : s.after s.current = some (firstOf (rest.map node) .postElement)) :
    ∃ l', l.nextInList = some (l', rest.head?.map (·.2)) ∧
      Represents l' { s with current := firstOf (rest.map node) .postElement } := by
  have hnext := h.nextInList
  rw [hafter, Option.bind_some, h.moveTo_rest hs] at hnext
  exact Represents.of_same hnext

/-- The element under the cursor is taken out, and the next one can still be reached. -/
theorem Represents.removeCurrent_rest (h : Represents l s) (hs : s.items = done ++ e :: rest)
    (hc : s.current = node e) :
    ∃ l', (l.removeCurrent.map (·.1)) = some l' ∧ ∃ t, Represents l' t ∧
      t.items = done ++ rest ∧
      t.after t.current = some (firstOf (rest.map node) .postElement) := by
  have hfind : (s.items.find? fun f => f.1 = e.1) = some e := by
    rw [hs, List.find?_append, List.find?_eq_none.mpr, List.find?_cons_of_pos (by simp)]
    · rfl
    · intro f hf heq
      have hother := ListState.other_ne h.nodup hs f (List.mem_append_left _ hf)
      exact hother (ListState.node_inj.mpr (of_decide_eq_true heq))
  have hspec : s.removeCurrent = some (s.remove e, some e.2) := by
    unfold ListState.removeCurrent
    rw [hc, node]
    dsimp only
    rw [hfind]
    rfl
  have hremove := h.removeCurrent
  rw [hspec] at hremove
  obtain ⟨l', hrun, h'⟩ := Represents.of_same hremove
  refine ⟨l', by rw [hrun]; rfl, _, h', ListState.filter_eq h.nodup hs, ?_⟩
  simp [ListState.remove, hc, ListState.after, ListState.behind_eq h.nodup hs]

/-- What the loop does from an element on. -/
theorem sweepFrom_eq (h : Represents l s) (n : Nat) (a : σ) (hs : s.items = done ++ rest)
    (hc : ∀ e ys, rest = e :: ys → s.current = node e) (hn : rest.length ≤ n) :
    ∃ l' t, sweepFrom visit n (l, rest.head?.map (·.2)) a =
        some (l', (sweepItems visit a rest).1) ∧
      Represents l' t ∧ t.items = done ++ (sweepItems visit a rest).2 := by
  induction rest generalizing l s done n a with
  | nil => exact ⟨l, s, by cases n <;> rfl, h, hs⟩
  | cons e rest ih =>
    cases n with
    | zero => exact absurd hn (Nat.not_succ_le_zero _)
    | succ n =>
      have hcurrent := hc e rest rfl
      -- the body of the loop leaves a list where the next element can be reached
      obtain ⟨l₁, t, hbody, ht, hitems, hafter⟩ :
          ∃ l₁ t, (if (visit a e.2).remove then l.removeCurrent.map (·.1) else some l) = some l₁ ∧
            Represents l₁ t ∧
            t.items = (if (visit a e.2).remove then done else done ++ [e]) ++ rest ∧
            t.after t.current = some (firstOf (rest.map node) .postElement) := by
        cases (visit a e.2).remove with
        | true =>
          obtain ⟨l₁, hrun, t, ht⟩ := h.removeCurrent_rest hs hcurrent
          exact ⟨l₁, t, hrun, ht⟩
        | false =>
          refine ⟨l, s, rfl, h, by simp [hs], ?_⟩
          rw [hcurrent]
          exact ListState.after_eq h.nodup hs
      cases hstop : (visit a e.2).stop with
      | true =>
        refine ⟨l₁, t, ?_, ht, ?_⟩
        · show Option.bind (ite _ _ _) _ = _
          rw [hbody]
          simp [sweepItems, hstop]
        · rw [hitems]
          cases hremove : (visit a e.2).remove <;> simp [sweepItems, hstop, hremove]
      | false =>
        obtain ⟨l₂, hnext, h₂⟩ := ht.nextInList_rest hitems hafter
        obtain ⟨l', u, hgo, hu, huitems⟩ := ih h₂ n (visit a e.2).state hitems
          (fun f ys heq => by rw [heq]; rfl) (Nat.le_of_succ_le_succ hn)
        refine ⟨l', u, ?_, hu, ?_⟩
        · show Option.bind (ite _ _ _) _ = _
          rw [hbody]
          simp [sweepItems, hstop, hnext, hgo]
        · rw [huitems]
          cases hremove : (visit a e.2).remove <;> simp [sweepItems, hstop, hremove]

/-- A caller's loop visits the elements in their order, each once, and leaves those that it has
not taken out. -/
theorem Represents.sweep (h : Represents l s) (visit : σ → α → Visited σ) (a : σ) :
    ∃ l' t, SfcUtil.sweep visit l a = some (l', (sweepItems visit a s.items).1) ∧
      Represents l' t ∧ t.items = (sweepItems visit a s.items).2 := by
  have hfirst := h.firstInList
  have hmove : s.moveTo (firstOf s.nodes .preElement) =
      some ({ s with current := firstOf s.nodes .preElement }, s.items.head?.map (·.2)) := by
    unfold ListState.moveTo ListState.nodes
    cases hs : s.items with
    | nil => rfl
    | cons e items =>
      rw [List.map_cons, firstOf_cons, h.pointerAt_node (hs ▸ List.mem_cons_self)]
      rfl
  rw [hmove] at hfirst
  obtain ⟨l₁, hl, h₁⟩ := Represents.of_same hfirst
  have hcurrent : ∀ e ys, s.items = e :: ys → firstOf s.nodes .preElement = node e := by
    intro e ys heq
    rw [ListState.nodes, heq]
    rfl
  have hitems : s.items = [] ++ s.items := rfl
  obtain ⟨l', t, hgo, ht, hleft⟩ :=
    sweepFrom_eq h₁ l.fresh a hitems hcurrent h.length_le
  refine ⟨l', t, ?_, ht, hleft⟩
  unfold SfcUtil.sweep
  rw [hl]
  exact hgo

theorem length_sweepItems_le (visit : σ → α → Visited σ) (a : σ) (items : List (Nat × α)) :
    (sweepItems visit a items).2.length ≤ items.length := by
  induction items generalizing a with
  | nil => exact Nat.le_refl _
  | cons e items ih =>
    have hrest := ih (visit a e.2).state
    unfold sweepItems
    dsimp only
    split <;> split <;> simp only [List.length_cons] <;> omega

variable [DecidableEq α] in
/-- On a list that any calls have made, a caller's loop visits the elements that the list with a
cursor has then, in their order and each once. Calls after it are answered from the elements
that it has not taken out. These are fewer than `2 ^ 31` calls together. -/
theorem sweep_eq (cs : List (ListCall α)) (hsmall : cs.length < 2 ^ 31)
    (hl : afterCalls GenericListInfo.call (initializeList α) cs = some l)
    (visit : σ → α → Visited σ) (a : σ) :
    ∃ s, afterCalls ListState.call (ListState.empty α) cs = some s ∧
      ∃ l' t, sweep visit l a = some (l', (sweepItems visit a s.items).1) ∧
        t.items = (sweepItems visit a s.items).2 ∧
        ∀ cs', cs.length + cs'.length < 2 ^ 31 →
          answers GenericListInfo.call l' cs' = answers ListState.call t cs' := by
  have hnew : (ListState.empty α).items.length = 0 := rfl
  obtain ⟨s, hs, h, hle⟩ := (Represents.initializeList α).afterCalls cs (by omega) hl
  obtain ⟨l', t, hsweep, ht, hitems⟩ := h.sweep visit a
  refine ⟨s, hs, l', t, hsweep, hitems, fun cs' hcs' => ht.answers cs' ?_⟩
  have hleft : t.items.length ≤ s.items.length := hitems ▸ length_sweepItems_le ..
  omega

/-- Three numbers are added up, and the 6 is taken out. -/
theorem sweep_eq_three :
    ∃ l l' t, afterCalls GenericListInfo.call (initializeList Nat)
        [.append (some 6), .append (some 7), .prepend (some 5)] = some l ∧
      sweep (fun a x => ⟨a + x, x == 6, false⟩) l 0 = some (l', 18) ∧
        t.items = [(2, 5), (1, 7)] ∧
        ∀ cs, 3 + cs.length < 2 ^ 31 →
          answers GenericListInfo.call l' cs = answers ListState.call t cs := by
  have hl := (Option.some_get (show (afterCalls GenericListInfo.call (initializeList Nat)
    [.append (some 6), .append (some 7), .prepend (some 5)]).isSome from rfl)).symm
  obtain ⟨s, hs, l', t, hsweep, hitems, hanswers⟩ :=
    sweep_eq _ (by decide) hl (fun a x => ⟨a + x, x == 6, false⟩) 0
  cases hs
  exact ⟨_, l', t, hl, hsweep, hitems, hanswers⟩

/-! ### Bodies that may fail -/

/-- A visit with a body that may run into the null pointer. The body says how the state goes on
and whether the element is taken out. -/
def visitOrFault (body : σ → α → Option (σ × Bool)) (r : Option σ) (x : α) :
    Visited (Option σ) :=
  match r.bind fun a => body a x with
  | some (a, remove) => ⟨some a, remove, false⟩
  | none => ⟨none, false, true⟩

/-- The loop with such a body. -/
def sweepOrFault (body : σ → α → Option (σ × Bool)) (l : GenericListInfo α) (a : σ) :
    Option (GenericListInfo α × σ) :=
  (sweep (visitOrFault body) l (some a)).bind fun r => r.2.map fun a => (r.1, a)

/-- The state after the bodies for some elements, and those that are left. -/
def bodies (body : σ → α → Option (σ × Bool)) : σ → List α → Option (σ × List α)
  | a, [] => some (a, [])
  | a, x :: xs =>
    (body a x).bind fun r =>
      (bodies body r.1 xs).map fun rest => (rest.1, if r.2 then rest.2 else x :: rest.2)

variable {body : σ → α → Option (σ × Bool)} {a b : σ} {left : List α}

theorem visitOrFault_none {x : α} (h : body a x = none) :
    visitOrFault body (some a) x = ⟨none, false, true⟩ := by
  rw [visitOrFault, Option.bind_some, h]

theorem visitOrFault_some {x : α} {r : σ × Bool} (h : body a x = some r) :
    visitOrFault body (some a) x = ⟨some r.1, r.2, false⟩ := by
  rw [visitOrFault, Option.bind_some, h]

theorem sweepItems_eq_bodies (items : List (Nat × α)) (a : σ) :
    (sweepItems (visitOrFault body) (some a) items).1.map (fun b =>
        (b, (sweepItems (visitOrFault body) (some a) items).2.map (·.2))) =
      bodies body a (items.map (·.2)) := by
  induction items generalizing a with
  | nil => rfl
  | cons e items ih =>
    simp only [List.map_cons, bodies, sweepItems]
    cases hbody : body a e.2 with
    | none =>
      rw [visitOrFault_none hbody]
      rfl
    | some r =>
      rw [visitOrFault_some hbody, Option.bind_some, ← ih r.1]
      cases hremove : r.2 <;> simp [Function.comp_def]

/-- A loop whose bodies come to their end leaves what they have not taken out. -/
theorem sweepOrFault_some (h : Represents l s)
    (hbodies : bodies body a (s.items.map (·.2)) = some (b, left)) :
    ∃ l' t, sweepOrFault body l a = some (l', b) ∧ Represents l' t ∧ t.items.map (·.2) = left := by
  obtain ⟨l', t, hsweep, ht, hitems⟩ := h.sweep (visitOrFault body) (some a)
  have hall := @sweepItems_eq_bodies α σ body s.items a
  rw [hbodies, ← hitems, Option.map_eq_some_iff] at hall
  obtain ⟨b', hstate, heq⟩ := hall
  cases heq
  refine ⟨l', t, ?_, ht, rfl⟩
  rw [sweepOrFault, hsweep, Option.bind_some, hstate]
  rfl

/-- A loop with a body that runs into the null pointer does not come to its end. -/
theorem sweepOrFault_none (h : Represents l s)
    (hbodies : bodies body a (s.items.map (·.2)) = none) : sweepOrFault body l a = none := by
  obtain ⟨l', t, hsweep, -, -⟩ := h.sweep (visitOrFault body) (some a)
  have hall := @sweepItems_eq_bodies α σ body s.items a
  rw [hbodies, Option.map_eq_none_iff] at hall
  rw [sweepOrFault, hsweep, Option.bind_some, hall]
  rfl

/-- Bodies that only take elements out. -/
theorem bodies_filter {p : α → Bool} {xs : List α} (h : ∀ x ∈ xs, body a x = some (a, !p x)) :
    bodies body a xs = some (a, xs.filter p) := by
  induction xs with
  | nil => rfl
  | cons x xs ih =>
    have hrest := ih fun y hy => h y (List.mem_cons_of_mem _ hy)
    rw [bodies, h x List.mem_cons_self, Option.bind_some, hrest]
    cases hp : p x <;> simp [hp]

/-- Bodies that only go on with the state, or fail. -/
theorem bodies_foldlM {f : σ → α → Option σ} {xs : List α}
    (h : ∀ a, ∀ x ∈ xs, body a x = (f a x).map fun b => (b, false)) (a : σ) :
    bodies body a xs = (xs.foldlM f a).map fun b => (b, xs) := by
  induction xs generalizing a with
  | nil => rfl
  | cons x xs ih =>
    rw [bodies, h a x List.mem_cons_self, List.foldlM_cons]
    cases f a x with
    | none => rfl
    | some b =>
      rw [Option.map_some, Option.bind_some, ih fun b y hy => h b y (List.mem_cons_of_mem _ hy)]
      simp [Function.comp_def]

end Sweep

/-! ## Programs that walk -/

section Walk

variable {κ σ : Type} [DecidableEq κ]

omit [DecidableEq α]

/-- A call on one of the lists. -/
def cursorCall (ls : κ → GenericListInfo α) : CursorCall κ → Option (GenericListInfo α × Option α)
  | .first k => (ls k).firstInList
  | .next k => (ls k).nextInList

/-- A call of a program, and what the program makes of the answer. -/
def walkStep (P : CursorProgram κ α σ) (a : (κ → GenericListInfo α) × σ) :
    Option ((κ → GenericListInfo α) × σ) :=
  match P.call a.2 with
  | none => some a
  | some c =>
    (cursorCall a.1 c).map fun r => (Function.update a.1 c.list r.1, P.resume a.2 r.2)

/-- A program, after `n` calls. -/
def walkSteps (P : CursorProgram κ α σ) (a : (κ → GenericListInfo α) × σ) :
    Nat → Option ((κ → GenericListInfo α) × σ)
  | 0 => some a
  | n + 1 => (walkStep P a).bind fun a => walkSteps P a n

/-- The list has these elements, and its cursor is at this position of them. -/
def AtPosition (l : GenericListInfo α) (xs : List α) (i : Nat) : Prop :=
  ∃ s, Represents l s ∧ s.items.map (·.2) = xs ∧
    (Addr.preElement :: (s.nodes ++ [.postElement]))[i]? = some s.current

variable {l : GenericListInfo α} {xs : List α} {i : Nat}

/-- The first element, as `CursorCall.move` has it. -/
theorem AtPosition.first (h : AtPosition l xs i) :
    ∃ l', l.firstInList = some (l', elementAt xs (if xs.isEmpty then 0 else 1)) ∧
      AtPosition l' xs (if xs.isEmpty then 0 else 1) := by
  obtain ⟨s, hl, hxs, _⟩ := h
  have hfirst := hl.firstInList
  cases hs : s.items with
  | nil =>
    obtain rfl : xs = [] := by rw [← hxs, hs]; rfl
    have hnodes : s.nodes = [] := congrArg (List.map node) hs
    have hmove : s.moveTo (firstOf s.nodes .preElement) =
        some ({ s with current := .preElement }, none) := by rw [hnodes]; rfl
    rw [hmove] at hfirst
    obtain ⟨l', hrun, h'⟩ := Represents.of_same hfirst
    exact ⟨l', hrun, _, h', hxs, rfl⟩
  | cons e items =>
    obtain rfl : xs = e.2 :: items.map (·.2) := by rw [← hxs, hs]; rfl
    have hnodes : s.nodes = node e :: items.map node := congrArg (List.map node) hs
    have hmove : s.moveTo (firstOf s.nodes .preElement) =
        some ({ s with current := node e }, some e.2) := by
      rw [hnodes, firstOf_cons, ListState.moveTo, hl.pointerAt_node (hs ▸ List.mem_cons_self)]
      rfl
    rw [hmove] at hfirst
    obtain ⟨l', hrun, h'⟩ := Represents.of_same hfirst
    refine ⟨l', hrun, _, h', hxs, ?_⟩
    show (Addr.preElement :: (s.nodes ++ [_]))[1]? = _
    rw [hnodes]
    rfl

/-- The next element. Behind the list, the cursor stays. -/
theorem AtPosition.next (h : AtPosition l xs i) :
    ∃ l', l.nextInList = some (l', elementAt xs (min (i + 1) (xs.length + 1))) ∧
      AtPosition l' xs (min (i + 1) (xs.length + 1)) := by
  obtain ⟨s, hl, rfl, hi⟩ := h
  have hlength : s.items.length = (s.items.map (·.2)).length := (List.length_map _).symm
  have hnodes : s.nodes.length = s.items.length := List.length_map _
  have hle : i ≤ s.items.length + 1 := by
    have := (List.getElem?_eq_some_iff.mp hi).1
    rw [List.length_cons, List.length_append, hnodes, List.length_singleton] at this
    omega
  -- in front of the elements from `i` on, or behind all of them
  have hafter : s.after s.current = some (firstOf ((s.items.drop i).map node) .postElement) := by
    cases i with
    | zero =>
      rw [List.getElem?_cons_zero, Option.some.injEq] at hi
      rw [← hi]
      rfl
    | succ i =>
      rw [List.getElem?_cons_succ] at hi
      by_cases hlt : i < s.items.length
      · rw [List.getElem?_append_left (by omega), ListState.nodes, List.getElem?_map,
          List.getElem?_eq_getElem hlt] at hi
        rw [← Option.some.inj hi]
        have hsplit : s.items = s.items.take i ++ s.items[i] :: s.items.drop (i + 1) := by
          rw [← List.drop_eq_getElem_cons hlt, List.take_append_drop]
        exact ListState.after_eq hl.nodup hsplit
      · have heq : i = s.nodes.length := by omega
        rw [heq, List.getElem?_concat_length, Option.some.injEq] at hi
        rw [← hi, List.drop_of_length_le (by omega)]
        rfl
  obtain ⟨l', hrun, h'⟩ :=
    hl.nextInList_rest (List.take_append_drop i s.items).symm hafter
  have hmin : min (i + 1) ((s.items.map (·.2)).length + 1) = min i s.items.length + 1 := by
    rw [← hlength]
    omega
  rw [hmin]
  refine ⟨l', ?_, _, h', rfl, ?_⟩
  · rw [hrun, elementAt, List.head?_drop, List.getElem?_map]
    by_cases hlt : i < s.items.length
    · rw [Nat.min_eq_left (by omega)]
    · rw [Nat.min_eq_right (by omega), List.getElem?_eq_none (by omega),
        List.getElem?_eq_none (by omega)]
  · rw [List.getElem?_cons_succ]
    show (s.nodes ++ [.postElement])[min i s.items.length]? = some (firstOf _ _)
    by_cases hlt : i < s.items.length
    · rw [Nat.min_eq_left (by omega), List.getElem?_append_left (by omega),
        List.drop_eq_getElem_cons hlt, List.map_cons, firstOf_cons, ListState.nodes,
        List.getElem?_map, List.getElem?_eq_getElem hlt]
      rfl
    · rw [Nat.min_eq_right (by omega), ← hnodes, List.getElem?_concat_length,
        List.drop_of_length_le (by omega)]
      rfl

/-- The pointer lists have the cursors of the program, at every call. -/
theorem walkSteps_eq (P : CursorProgram κ α σ) (lists : κ → List α) {ls : κ → GenericListInfo α}
    {cursors : κ → Nat} (h : ∀ k, AtPosition (ls k) (lists k) (cursors k)) (a : σ) (n : Nat) :
    ∃ ls', walkSteps P (ls, a) n = some (ls', (P.alone lists cursors a n).2) ∧
      ∀ k, AtPosition (ls' k) (lists k) ((P.alone lists cursors a n).1 k) := by
  induction n generalizing ls cursors a with
  | zero => exact ⟨ls, rfl, h⟩
  | succ n ih =>
    have halone : P.alone lists cursors a (n + 1) =
        P.alone lists (P.step lists (cursors, a)).1 (P.step lists (cursors, a)).2 n := rfl
    rw [halone]
    cases hcall : P.call a with
    | none =>
      have hstep : P.step lists (cursors, a) = (cursors, a) := by simp [CursorProgram.step, hcall]
      have hwalk : walkStep P (ls, a) = some (ls, a) := by simp [walkStep, hcall]
      obtain ⟨ls', hgo, h'⟩ := ih h a
      rw [walkSteps, hwalk, hstep]
      exact ⟨ls', hgo, h'⟩
    | some c =>
      obtain ⟨l', hrun, hl'⟩ : ∃ l', cursorCall ls c =
            some (l', elementAt (lists c.list) (c.move lists cursors)) ∧
          AtPosition l' (lists c.list) (c.move lists cursors) := by
        cases c with
        | first k => exact (h k).first
        | next k => exact (h k).next
      have hwalk : walkStep P (ls, a) = some (Function.update ls c.list l',
          P.resume a (elementAt (lists c.list) (c.move lists cursors))) := by
        simp [walkStep, hcall, hrun]
      have hstep : P.step lists (cursors, a) = (Function.update cursors c.list (c.move lists cursors),
          P.resume a (elementAt (lists c.list) (c.move lists cursors))) := by
        simp [CursorProgram.step, hcall]
      have hnext : ∀ k, AtPosition (Function.update ls c.list l' k) (lists k)
          (Function.update cursors c.list (c.move lists cursors) k) := by
        intro k
        by_cases hk : k = c.list
        · subst hk
          rw [Function.update_self, Function.update_self]
          exact hl'
        · rw [Function.update_of_ne hk, Function.update_of_ne hk]
          exact h k
      obtain ⟨ls', hgo, h'⟩ := ih hnext (P.resume a (elementAt (lists c.list) (c.move lists cursors)))
      rw [walkSteps, hwalk, hstep]
      exact ⟨ls', hgo, h'⟩

/-- A program that goes through two lists by turns, and adds up what it gets. -/
theorem walkSteps_eq_last :
    let P : CursorProgram Bool Nat (Bool × Nat) :=
      ⟨fun a => some (.next a.1), fun a x => (!a.1, a.2 + x.getD 0)⟩
    let lists : Bool → List Nat := fun k => if k then [5, 6] else [70]
    ∃ ls, (∀ k, AtPosition (ls k) (lists k) 0) ∧
      ∃ ls', walkSteps P (ls, (true, 0)) 5 = some (ls', (false, 81)) := by
  intro P lists
  obtain ⟨_, _, h₁⟩ := (Represents.initializeList Nat).addToEnd 5
  obtain ⟨l, _, h⟩ := h₁.addToEnd 6
  obtain ⟨l', _, h'⟩ := (Represents.initializeList Nat).addToEnd 70
  have hls : ∀ k : Bool, AtPosition ((fun k => if k then l else l') k) (lists k) ((fun _ => 0) k) := by
    intro k
    cases k
    · exact ⟨_, h', rfl, rfl⟩
    · exact ⟨_, h, rfl, rfl⟩
  obtain ⟨ls', hgo, _⟩ := walkSteps_eq P lists hls (true, 0) 5
  exact ⟨_, hls, ls', hgo⟩

end Walk

end Sfcb.SfcUtil
