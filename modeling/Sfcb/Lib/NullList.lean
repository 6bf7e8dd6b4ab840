import Sfcb.Lib.Sentinel
import Mathlib.Data.List.Nodup
import Mathlib.Data.List.Induction

/-!
# Doubly linked lists that end in null pointers

A list without sentinels has its two ends in variables of their own, and a null pointer in the
node at either end. `Links` is the pointers of such a list. Its two ends count as places, so it
is a stretch from the one to the other, and the changes are those of `Sentinel.lean`: a null
pointer that is set sets the variable of an end.
-/

namespace Sfcb.Lib

variable {ρ : Type}

/-- The pointers of a list: those of the nodes, and the two ends. -/
structure Links (ρ : Type) where
  next : ρ → Option ρ
  prev : ρ → Option ρ
  first : Option ρ
  last : Option ρ

/-- A node, or one of the ends. -/
inductive Place (ρ : Type) where
  | front
  | node (r : ρ)
  | back
deriving DecidableEq

namespace Links

/-- A list without nodes. -/
def empty (ρ : Type) : Links ρ := ⟨fun _ => none, fun _ => none, none, none⟩

variable (m : Links ρ)

/-- What follows on a place. -/
def nextPlace : Place ρ → Place ρ
  | .front => m.first.elim .back .node
  | .node r => (m.next r).elim .back .node
  | .back => .back

/-- What is before a place. -/
def prevPlace : Place ρ → Place ρ
  | .front => .front
  | .node r => (m.prev r).elim .front .node
  | .back => m.last.elim .front .node

/-- The nodes of the list, in their order. -/
structure Lists (xs : List ρ) : Prop where
  nodup : xs.Nodup
  stretch : Stretch m.nextPlace m.prevPlace .front (xs.map .node) .back

section Changes

variable [DecidableEq ρ] (i : ρ)

/-- A node is put in front. -/
def enqTop : Links ρ :=
  let m' := match m.first with
    | some f => { m with prev := Function.update m.prev f (some i) }
    | none => { m with last := some i }
  { m' with
    prev := Function.update m'.prev i none
    next := Function.update m'.next i m.first
    first := some i }

/-- A node is taken out. Its own pointers stay. -/
def deq : Links ρ :=
  let m' := match m.next i with
    | some n => { m with prev := Function.update m.prev n (m.prev i) }
    | none => { m with last := m.prev i }
  match m'.prev i with
  | some p => { m' with next := Function.update m'.next p (m'.next i) }
  | none => { m' with first := m'.next i }

end Changes

variable {m} {xs ys : List ρ} {i : ρ}

theorem lists_empty : (empty ρ).Lists [] := ⟨List.nodup_nil, rfl, rfl⟩

theorem Lists.first_eq (h : m.Lists xs) : m.first = xs.head? := by
  have hfirst := h.stretch.next_first
  cases xs with
  | nil =>
    cases hm : m.first with
    | none => rfl
    | some f => simp [nextPlace, hm] at hfirst
  | cons x xs =>
    cases hm : m.first with
    | none => simp [nextPlace, hm] at hfirst
    | some f =>
      simp only [nextPlace, hm, Option.elim_some, List.map_cons, firstOf_cons,
        Place.node.injEq] at hfirst
      rw [hfirst]
      rfl

theorem Lists.last_eq (h : m.Lists xs) : m.last = xs.getLast? := by
  have hlast := h.stretch.prev_last
  cases xs using List.reverseRecOn with
  | nil =>
    cases hm : m.last with
    | none => rfl
    | some f => simp [prevPlace, hm] at hlast
  | append_singleton xs x =>
    cases hm : m.last with
    | none => simp [prevPlace, hm] at hlast
    | some f =>
      simp only [prevPlace, hm, Option.elim_some, List.map_append, List.map_singleton,
        lastOf_concat, Place.node.injEq] at hlast
      rw [hlast, List.getLast?_concat]

theorem Lists.places (h : m.Lists xs) :
    (Place.front :: (xs.map Place.node ++ [.back])).Nodup := by
  rw [List.nodup_cons]
  constructor
  · simp
  · rw [List.nodup_append]
    refine ⟨?_, by simp, by simp⟩
    exact List.Nodup.map (fun a b hab => Place.node.inj hab) h.nodup

variable [DecidableEq ρ]

theorem nextPlace_enqTop (m : Links ρ) (i : ρ) : (m.enqTop i).nextPlace =
    Function.update (Function.update m.nextPlace (.node i) (m.nextPlace .front)) .front
      (.node i) := by
  funext p
  cases p with
  | front => simp [enqTop, nextPlace]
  | back => simp [nextPlace]
  | node r =>
    by_cases hr : r = i
    · subst hr
      simp [enqTop, nextPlace]
    · cases hf : m.first <;> simp [enqTop, nextPlace, hr, hf]

theorem prevPlace_enqTop (hi : m.first ≠ some i) : (m.enqTop i).prevPlace =
    Function.update (Function.update m.prevPlace (.node i) .front) (m.nextPlace .front)
      (.node i) := by
  cases hf : m.first with
  | none =>
    have hback : m.nextPlace .front = .back := by simp [nextPlace, hf]
    rw [hback]
    funext p
    cases p with
    | front => simp [prevPlace]
    | back => simp [enqTop, prevPlace, hf]
    | node r =>
      by_cases hr : r = i
      · subst hr
        simp [enqTop, prevPlace, hf]
      · simp [enqTop, prevPlace, hf, hr]
  | some f =>
    have hfi : f ≠ i := fun heq => hi (by rw [hf, heq])
    have hnode : m.nextPlace .front = .node f := by simp [nextPlace, hf]
    rw [hnode]
    funext p
    cases p with
    | front => simp [prevPlace]
    | back => simp [enqTop, prevPlace, hf]
    | node r =>
      by_cases hr : r = i
      · subst hr
        simp [enqTop, prevPlace, hf, Ne.symm hfi]
      · by_cases hrf : r = f
        · subst hrf
          simp [enqTop, prevPlace, hf, hr]
        · simp [enqTop, prevPlace, hf, hr, hrf]

/-- A new node comes in front of the others. -/
theorem Lists.enqTop (h : m.Lists xs) (hi : i ∉ xs) : (m.enqTop i).Lists (i :: xs) := by
  have hfirst : m.first ≠ some i := by
    rw [h.first_eq]
    intro heq
    exact hi (List.mem_of_mem_head? heq)
  have hnew : Place.node i ∉ Place.front :: (xs.map Place.node ++ [.back]) := by simp [hi]
  refine ⟨List.nodup_cons.mpr ⟨hi, h.nodup⟩, ?_⟩
  rw [nextPlace_enqTop, prevPlace_enqTop hfirst]
  exact h.stretch.insert_front h.places hnew

theorem nextPlace_deq (hi : m.next i ≠ some i) : (m.deq i).nextPlace =
    Function.update m.nextPlace (m.prevPlace (.node i)) (m.nextPlace (.node i)) := by
  cases hp : m.prev i with
  | none =>
    have hfront : m.prevPlace (.node i) = .front := by simp [prevPlace, hp]
    rw [hfront]
    funext p
    cases hn : m.next i with
    | none => cases p <;> simp [deq, nextPlace, hp, hn]
    | some n =>
      have hni : i ≠ n := fun heq => hi (by rw [hn, heq])
      cases p <;> simp [deq, nextPlace, hp, hn, hni]
  | some q =>
    have hnode : m.prevPlace (.node i) = .node q := by simp [prevPlace, hp]
    rw [hnode]
    funext p
    cases hn : m.next i with
    | none =>
      cases p with
      | node r => by_cases hr : r = q <;> simp [deq, nextPlace, hp, hn, hr]
      | _ => simp [deq, nextPlace, hp, hn]
    | some n =>
      have hni : i ≠ n := fun heq => hi (by rw [hn, heq])
      cases p with
      | node r => by_cases hr : r = q <;> simp [deq, nextPlace, hp, hn, hni, hr]
      | _ => simp [deq, nextPlace, hp, hn, hni]

theorem prevPlace_deq (hi : m.next i ≠ some i) : (m.deq i).prevPlace =
    Function.update m.prevPlace (m.nextPlace (.node i)) (m.prevPlace (.node i)) := by
  cases hn : m.next i with
  | none =>
    have hback : m.nextPlace (.node i) = .back := by simp [nextPlace, hn]
    rw [hback]
    funext p
    cases hp : m.prev i <;> cases p <;> simp [deq, prevPlace, hp, hn]
  | some n =>
    have hnode : m.nextPlace (.node i) = .node n := by simp [nextPlace, hn]
    rw [hnode]
    funext p
    have hni : i ≠ n := fun heq => hi (by rw [hn, heq])
    cases hp : m.prev i with
    | none =>
      cases p with
      | node r => by_cases hr : r = n <;> simp [deq, prevPlace, hp, hn, hr, hni]
      | _ => simp [deq, prevPlace, hp, hn, hni]
    | some q =>
      cases p with
      | node r => by_cases hr : r = n <;> simp [deq, prevPlace, hp, hn, hr, hni]
      | _ => simp [deq, prevPlace, hp, hn, hni]

/-- A node is taken out from between the others. -/
theorem Lists.deq (h : m.Lists (xs ++ i :: ys)) : (m.deq i).Lists (xs ++ ys) := by
  have hplaces := h.places
  have hstretch := h.stretch
  rw [List.map_append, List.map_cons] at hplaces hstretch
  have hself : m.next i ≠ some i := by
    intro heq
    have hnext := hstretch.neighbours.2
    have hloop : m.nextPlace (.node i) = .node i := by simp [nextPlace, heq]
    have hmem := firstOf_mem (ys.map Place.node) .back
    rw [← hnext, hloop] at hmem
    have hi : i ∈ ys := by simpa using hmem
    exact (List.nodup_cons.mp (List.nodup_append.mp h.nodup).2.1).1 hi
  refine ⟨?_, ?_⟩
  · exact h.nodup.sublist (List.Sublist.append_left (List.sublist_cons_self i ys) xs)
  · rw [nextPlace_deq hself, prevPlace_deq hself, List.map_append]
    exact hstretch.remove hplaces

end Links

end Sfcb.Lib
