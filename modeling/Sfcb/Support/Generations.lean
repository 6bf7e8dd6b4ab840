import Mathlib.Data.List.Induction
import Mathlib.Data.List.Nodup
import Mathlib.Data.List.ReduceOption
import Sfcb.Support.HeapControl

/-!
# Every tracked object is released once

An object's id is its place in the table that was current when it was tracked. `Sorted`
says so of all tables of a thread at once, the current one first, and what has become of
every object that was ever tracked. The calls keep it as long as an object is released
explicitly only while the table it stands in is the current one: the id of an object of
another generation is the place of some other object, or of none.
-/

namespace Sfcb.Support

open Sfcb.Lib

/-- The cause, if the event is a release of the object. -/
def Event.releaseOf (obj : Nat) : Event → Option Cause
  | .released o cause => if o = obj then some cause else none
  | .tracked _ _ => none

/-- The releases of an object. -/
def releases (obj : Nat) (log : List Event) : List Cause :=
  log.filterMap (Event.releaseOf obj)

/-- What releases the objects that a generation leaves behind. -/
def Cause.ofGeneration : Option Nat → Cause
  | none => .flush
  | some hc => .releaseHeap hc

/-- The objects in the slots of a table. -/
def HeapControl.entries (hc : HeapControl) : List Nat := hc.memEncObjs.reduceOption

/-- The tables that `markHeap` has put aside, with the generations they belong to. -/
def olderTables : List (Nat × HeapControl) → List (Option Nat × HeapControl)
  | [] => []
  | (_, hc) :: saved => (saved.head?.map Prod.fst, hc) :: olderTables saved

/-- All tables of a thread, the current one first. -/
def Thread.tables (t : Thread) : List (Option Nat × HeapControl) :=
  (t.generation, t.hc) :: olderTables t.saved

/-! ## The condition -/

/-- What the callers see to: a step is about a live object, and closes a generation that is
open. -/
def Proper (t : Thread) : Op → Prop
  | .memAddEncObj _ => True
  | .memLinkEncObj obj => t.memState obj = some MEM_NOT_TRACKED
  | .release obj => t.memState obj ≠ none
  | .markHeap => True
  | .releaseHeap => t.saved ≠ []

/-- A tracked object is released while the table it stands in is the current one, and ids
stay in the range of an `int`. -/
def OwnGeneration (t : Thread) : Op → Prop
  | .memAddEncObj tracked => tracked → t.hc.memEncObjs.length + 1 < 2 ^ 31
  | .memLinkEncObj _ => t.hc.memEncObjs.length + 1 < 2 ^ 31
  | .release obj => t.memState obj = some MEM_NOT_TRACKED ∨ some obj ∈ t.hc.memEncObjs
  | .markHeap => True
  | .releaseHeap => True

/-- `P` holds in front of every step of a run. -/
def Along (P : Thread → Op → Prop) : Thread → List Op → Prop
  | _, [] => True
  | t, op :: ops => P t op ∧ (step t op).elim True fun r => Along P r.1 ops

instance (t : Thread) : DecidablePred (Proper t)
  | .memAddEncObj _ => isTrue trivial
  | .memLinkEncObj obj => inferInstanceAs (Decidable (t.memState obj = some MEM_NOT_TRACKED))
  | .release obj => inferInstanceAs (Decidable (t.memState obj ≠ none))
  | .markHeap => isTrue trivial
  | .releaseHeap => inferInstanceAs (Decidable (t.saved ≠ []))

instance (t : Thread) : DecidablePred (OwnGeneration t)
  | .memAddEncObj tracked =>
    inferInstanceAs (Decidable (tracked → t.hc.memEncObjs.length + 1 < 2 ^ 31))
  | .memLinkEncObj _ => inferInstanceAs (Decidable (t.hc.memEncObjs.length + 1 < 2 ^ 31))
  | .release obj => inferInstanceAs
      (Decidable (t.memState obj = some MEM_NOT_TRACKED ∨ some obj ∈ t.hc.memEncObjs))
  | .markHeap => isTrue trivial
  | .releaseHeap => isTrue trivial

instance decidableAlong (P : Thread → Op → Prop) [∀ t, DecidablePred (P t)] :
    ∀ t ops, Decidable (Along P t ops)
  | _, [] => isTrue trivial
  | t, op :: ops =>
    have : Decidable ((step t op).elim True fun r => Along P r.1 ops) :=
      match step t op with
      | none => isTrue trivial
      | some r => decidableAlong P r.1 ops
    inferInstanceAs (Decidable (P t op ∧ (step t op).elim True fun r => Along P r.1 ops))

/-! ## The invariant -/

/-- What has become of an object that was tracked in the generation `g`. -/
def Fate (tables : List (Option Nat × HeapControl)) (memState : Nat → Option Int)
    (log : List Event) (ops : List Op) (obj : Nat) (g : Option Nat) : Prop :=
  (∃ hc, (g, hc) ∈ tables ∧ obj ∈ hc.entries) ∨
    (memState obj = none ∧
      releases obj log = [if .release obj ∈ ops then .explicit else Cause.ofGeneration g])

structure Sorted (tables : List (Option Nat × HeapControl)) (memState : Nat → Option Int)
    (created : Nat) (log : List Event) (ops : List Op) : Prop where
  /-- the id of an object is its place -/
  slots : ∀ g hc (i : Nat) obj, (g, hc) ∈ tables → hc.memEncObjs[i]? = some (some obj) →
    memState obj = some ((i : Int) + 1)
  room : ∀ g hc, (g, hc) ∈ tables →
    hc.memEncObjs.length < hc.memEncSize ∧ hc.memEncObjs.length < 2 ^ 31
  once : (tables.flatMap fun g => g.2.entries).Nodup
  live : ∀ obj, memState obj ≠ none → obj < created ∧ releases obj log = [] ∧ .release obj ∉ ops
  fresh : ∀ obj, created ≤ obj → releases obj log = [] ∧ .release obj ∉ ops ∧
    ∀ g, .tracked obj g ∉ log
  fate : ∀ obj g, .tracked obj g ∈ log → Fate tables memState log ops obj g

@[simp] theorem releases_append (obj : Nat) (log log' : List Event) :
    releases obj (log ++ log') = releases obj log ++ releases obj log' :=
  List.filterMap_append

theorem mem_entries_iff {hc : HeapControl} {obj : Nat} :
    obj ∈ hc.entries ↔ ∃ i : Nat, hc.memEncObjs[i]? = some (some obj) := by
  rw [HeapControl.entries, List.reduceOption_mem_iff, List.mem_iff_getElem?]

theorem sorted_newThread : Sorted newThread.tables newThread.memState 0 [] [] where
  slots := by
    intro g hc i obj htable hslot
    obtain ⟨-, rfl⟩ : g = newThread.generation ∧ hc = newHeapControl := by
      simpa [Thread.tables, olderTables, newThread] using htable
    simp [newHeapControl] at hslot
  room := by simp [Thread.tables, newThread, newHeapControl, olderTables, MT_SIZE_STEP]
  once := by simp [Thread.tables, newThread, newHeapControl, olderTables, HeapControl.entries]
  live := by simp [newThread]
  fresh := by simp [releases]
  fate := by simp

section Invariant

variable {tables : List (Option Nat × HeapControl)} {memState : Nat → Option Int}
  {created : Nat} {log : List Event} {ops : List Op} {g : Option Nat} {hc : HeapControl} {obj : Nat}

/-- An object that is in no table can be told by its id. -/
theorem Sorted.not_mem (h : Sorted tables memState created log ops)
    (hobj : memState obj = some MEM_NOT_TRACKED ∨ memState obj = none) :
    obj ∉ tables.flatMap fun g => g.2.entries := by
  intro hmem
  obtain ⟨⟨g, hc⟩, htable, hentry⟩ := List.mem_flatMap.mp hmem
  obtain ⟨i, hi⟩ := mem_entries_iff.mp hentry
  have hstate := h.slots g hc i obj htable hi
  rcases hobj with hobj | hobj
  · rw [hobj, MEM_NOT_TRACKED, Option.some.injEq] at hstate
    omega
  · rw [hobj] at hstate
    exact absurd hstate (by simp)

/-- An object keeps its fate where its table stays and its releases do not change. -/
theorem Fate.mono {tables' : List (Option Nat × HeapControl)} {memState' : Nat → Option Int}
    {log' : List Event} {ops' : List Op} (h : Fate tables memState log ops obj g)
    (htables : ∀ hc, (g, hc) ∈ tables → obj ∈ hc.entries →
      ∃ hc', (g, hc') ∈ tables' ∧ obj ∈ hc'.entries)
    (hstate : memState obj = none → memState' obj = none)
    (hlog : releases obj log' = releases obj log)
    (hops : .release obj ∈ ops' ↔ .release obj ∈ ops) : Fate tables' memState' log' ops' obj g := by
  rcases h with ⟨hc, htable, hentry⟩ | ⟨hnone, hrel⟩
  · exact Or.inl (htables hc htable hentry)
  · refine Or.inr ⟨hstate hnone, ?_⟩
    rw [hlog, hrel]
    simp only [hops]

/-- An object with another fate is another object. -/
theorem Sorted.mem_of_live (h : Sorted tables memState created log ops)
    (htracked : .tracked obj g ∈ log) (hlive : memState obj ≠ none) :
    ∃ hc, (g, hc) ∈ tables ∧ obj ∈ hc.entries := by
  rcases h.fate obj g htracked with hin | ⟨hnone, -⟩
  · exact hin
  · exact absurd hnone hlive

/-- The current table, or an older one. -/
theorem table_cases {g' : Option Nat} {hc' : HeapControl} (h : (g', hc') ∈ (g, hc) :: tables) :
    (g' = g ∧ hc' = hc) ∨ (g', hc') ∈ tables := by
  simpa using h

/-! ## Tracking -/

theorem entries_enter (hc : HeapControl) (obj : Nat) :
    (hc.enter obj).entries = hc.entries ++ [obj] := by
  simp [HeapControl.enter, HeapControl.entries, List.reduceOption_append]

/-- The last slot is the new one. -/
theorem slot_enter_cases {i o : Nat} (h : (hc.enter obj).memEncObjs[i]? = some (some o)) :
    hc.memEncObjs[i]? = some (some o) ∨ (i = hc.memEncObjs.length ∧ o = obj) := by
  rw [HeapControl.enter, List.getElem?_append] at h
  split at h
  · exact Or.inl h
  · obtain ⟨hi, rfl⟩ : i - hc.memEncObjs.length = 0 ∧ obj = o := by
      simpa [List.getElem?_singleton] using h
    exact Or.inr ⟨by omega, rfl⟩

/-- An untracked object enters the current table. -/
theorem Sorted.enter (h : Sorted ((g, hc) :: tables) memState created log ops)
    (hobj : memState obj = some MEM_NOT_TRACKED) (hroom : hc.memEncObjs.length + 1 < 2 ^ 31) :
    Sorted ((g, hc.enter obj) :: tables)
      (Function.update memState obj (some (cInt (hc.memEncObjs.length + 1 : Nat)))) created
      (log ++ [.tracked obj g]) ops := by
  have hnew := h.not_mem (Or.inl hobj)
  have hlive := h.live obj (by simp [hobj])
  have hother : ∀ {g' hc' o}, (g', hc') ∈ (g, hc) :: tables → o ∈ hc'.entries → o ≠ obj := by
    intro g' hc' o htable hentry heq
    exact hnew (List.mem_flatMap.mpr ⟨_, htable, heq ▸ hentry⟩)
  refine ⟨?_, ?_, ?_, ?_, ?_, ?_⟩
  · intro g' hc' i o htable hslot
    rcases table_cases htable with ⟨rfl, rfl⟩ | htable
    · rcases slot_enter_cases hslot with hslot | ⟨rfl, rfl⟩
      · have hne := hother List.mem_cons_self (mem_entries_iff.mpr ⟨i, hslot⟩)
        rw [Function.update_of_ne hne]
        exact h.slots _ hc i o List.mem_cons_self hslot
      · rw [Function.update_self, cInt_of_lt hroom]
        rfl
    · have hne := hother (List.mem_cons_of_mem _ htable) (mem_entries_iff.mpr ⟨i, hslot⟩)
      rw [Function.update_of_ne hne]
      exact h.slots g' hc' i o (List.mem_cons_of_mem _ htable) hslot
  · intro g' hc' htable
    rcases table_cases htable with ⟨rfl, rfl⟩ | htable
    · have hr := (h.room _ hc List.mem_cons_self).1
      simp only [HeapControl.enter, MT_SIZE_STEP, List.length_append, List.length_singleton]
      split <;> omega
    · exact h.room g' hc' (List.mem_cons_of_mem _ htable)
  · have honce := h.once
    rw [List.flatMap_cons] at honce hnew ⊢
    rw [entries_enter, List.append_assoc, List.singleton_append]
    exact List.nodup_middle.mpr (List.nodup_cons.mpr ⟨hnew, honce⟩)
  · intro o ho
    by_cases heq : o = obj
    · subst heq
      exact ⟨hlive.1, by simpa [releases, Event.releaseOf] using hlive.2.1, hlive.2.2⟩
    · rw [Function.update_of_ne heq] at ho
      simpa [releases, Event.releaseOf] using h.live o ho
  · intro o ho
    have hne : o ≠ obj := by
      have := hlive.1
      omega
    simpa [releases, Event.releaseOf, hne] using h.fresh o ho
  · intro o g' htracked
    rcases List.mem_append.mp htracked with hold | hnew'
    · refine (h.fate o g' hold).mono ?_ ?_ (by simp [releases, Event.releaseOf]) Iff.rfl
      · intro hc' htable hentry
        rcases table_cases htable with ⟨rfl, rfl⟩ | htable
        · exact ⟨_, List.mem_cons_self, by simp [entries_enter, hentry]⟩
        · exact ⟨hc', List.mem_cons_of_mem _ htable, hentry⟩
      · intro hnone
        have hne : o ≠ obj := by
          rintro rfl
          rw [hobj] at hnone
          exact absurd hnone (by simp)
        rw [Function.update_of_ne hne]
        exact hnone
    · obtain ⟨rfl, rfl⟩ : o = obj ∧ g' = g := by simpa using hnew'
      exact Or.inl ⟨_, List.mem_cons_self, by simp [entries_enter]⟩

/-! ## Releasing -/

/-- An object goes: the log has its release, and it stands in no table any more. -/
theorem Sorted.gone {tables' : List (Option Nat × HeapControl)}
    (h : Sorted tables memState created log ops) (hobj : memState obj ≠ none)
    (hslots : ∀ g hc (i : Nat) o, (g, hc) ∈ tables' → hc.memEncObjs[i]? = some (some o) →
      memState o = some ((i : Int) + 1))
    (hroom : ∀ g hc, (g, hc) ∈ tables' →
      hc.memEncObjs.length < hc.memEncSize ∧ hc.memEncObjs.length < 2 ^ 31)
    (honce : (tables'.flatMap fun g => g.2.entries).Nodup)
    (hnot : obj ∉ tables'.flatMap fun g => g.2.entries)
    (hkeep : ∀ g hc o, o ≠ obj → (g, hc) ∈ tables → o ∈ hc.entries →
      ∃ hc', (g, hc') ∈ tables' ∧ o ∈ hc'.entries) :
    Sorted tables' (Function.update memState obj none) created (log ++ [.released obj .explicit])
      (ops ++ [.release obj]) := by
  have hlive := h.live obj hobj
  refine ⟨?_, hroom, honce, ?_, ?_, ?_⟩
  · intro g hc i o htable hslot
    have hne : o ≠ obj := by
      rintro rfl
      exact hnot (List.mem_flatMap.mpr ⟨_, htable, mem_entries_iff.mpr ⟨i, hslot⟩⟩)
    rw [Function.update_of_ne hne]
    exact hslots g hc i o htable hslot
  · intro o ho
    have hne : o ≠ obj := by
      rintro rfl
      exact ho (Function.update_self ..)
    rw [Function.update_of_ne hne] at ho
    simpa [releases, Event.releaseOf, hne, hne.symm] using h.live o ho
  · intro o ho
    have hne : o ≠ obj := by
      have := hlive.1
      omega
    simpa [releases, Event.releaseOf, hne, hne.symm] using h.fresh o ho
  · intro o g htracked
    have hold : .tracked o g ∈ log := by simpa using htracked
    by_cases heq : o = obj
    · subst heq
      refine Or.inr ⟨Function.update_self .., ?_⟩
      rw [releases_append, hlive.2.1]
      simp [releases, Event.releaseOf]
    · refine (h.fate o g hold).mono (fun hc => hkeep g hc o heq) ?_ ?_ ?_
      · intro hnone
        rw [Function.update_of_ne heq]
        exact hnone
      · simp [releases, Event.releaseOf, Ne.symm heq]
      · simp [heq]

theorem Sorted.gone_untracked (h : Sorted tables memState created log ops)
    (hobj : memState obj = some MEM_NOT_TRACKED) :
    Sorted tables (Function.update memState obj none) created (log ++ [.released obj .explicit])
      (ops ++ [.release obj]) :=
  h.gone (by simp [hobj]) h.slots h.room h.once (h.not_mem (Or.inl hobj))
    fun _ hc _ _ htable hentry => ⟨hc, htable, hentry⟩

/-- The slot of a tracked object becomes free. -/
theorem Sorted.gone_tracked {i : Nat} (h : Sorted ((g, hc) :: tables) memState created log ops)
    (hslot : hc.memEncObjs[i]? = some (some obj)) :
    Sorted ((g, ⟨hc.memEncObjs.set i none, hc.memEncSize⟩) :: tables)
      (Function.update memState obj none) created (log ++ [.released obj .explicit])
      (ops ++ [.release obj]) := by
  have hstate := h.slots g hc i obj List.mem_cons_self hslot
  obtain ⟨hi, hget⟩ := List.getElem?_eq_some_iff.mp hslot
  obtain ⟨l₁, l₂, hlist, hlen, hset⟩ : ∃ l₁ l₂,
      hc.memEncObjs = l₁ ++ hc.memEncObjs[i] :: l₂ ∧ l₁.length = i ∧
        hc.memEncObjs.set i none = l₁ ++ none :: l₂ := List.exists_of_set hi
  rw [hget] at hlist
  have hentries : hc.entries = l₁.reduceOption ++ obj :: l₂.reduceOption := by
    simp [HeapControl.entries, hlist, List.reduceOption_append]
  have hentries' : (HeapControl.mk (hc.memEncObjs.set i none) hc.memEncSize).entries =
      l₁.reduceOption ++ l₂.reduceOption := by
    simp [HeapControl.entries, hset, List.reduceOption_append]
  have honce := h.once
  rw [List.flatMap_cons, hentries, List.append_assoc, List.cons_append, List.nodup_middle,
    List.nodup_cons, ← List.append_assoc] at honce
  refine h.gone (by simp [hstate]) ?_ ?_ ?_ ?_ ?_
  · intro g' hc' j o htable hj
    rcases table_cases htable with ⟨rfl, rfl⟩ | htable
    · rw [List.getElem?_set] at hj
      split at hj
      · simp at hj
      · exact h.slots g' hc j o List.mem_cons_self hj
    · exact h.slots g' hc' j o (List.mem_cons_of_mem _ htable) hj
  · intro g' hc' htable
    rcases table_cases htable with ⟨rfl, rfl⟩ | htable
    · simpa using h.room g' hc List.mem_cons_self
    · exact h.room g' hc' (List.mem_cons_of_mem _ htable)
  · rw [List.flatMap_cons, hentries']
    exact honce.2
  · rw [List.flatMap_cons, hentries']
    exact honce.1
  · intro g' hc' o hne htable hentry
    rcases table_cases htable with ⟨rfl, rfl⟩ | htable
    · refine ⟨_, List.mem_cons_self, ?_⟩
      rw [hentries] at hentry
      rw [hentries']
      simpa [hne] using hentry
    · exact ⟨hc', List.mem_cons_of_mem _ htable, hentry⟩

/-! ## Closing a generation -/

theorem releases_map_released (obj : Nat) (cause : Cause) {l : List Nat} (hl : l.Nodup) :
    releases obj (l.map fun o => .released o cause) = if obj ∈ l then [cause] else [] := by
  induction l with
  | nil => rfl
  | cons o l ih =>
    obtain ⟨ho, hl⟩ := List.nodup_cons.mp hl
    have hrec := ih hl
    rw [releases] at hrec ⊢
    rw [List.map_cons, List.filterMap_cons, hrec]
    by_cases heq : o = obj
    · subst heq
      simp [Event.releaseOf, ho]
    · simp [Event.releaseOf, heq, Ne.symm heq]

/-- The objects that are left in the current table go with it. -/
theorem Sorted.flushed (h : Sorted ((g, hc) :: tables) memState created log ops) :
    Sorted tables (fun o => if o ∈ hc.entries then none else memState o) created
      (log ++ hc.entries.reverse.map fun o => .released o (Cause.ofGeneration g)) ops := by
  have honce := h.once
  rw [List.flatMap_cons, List.nodup_append] at honce
  obtain ⟨hcur, hrest, hdisjoint⟩ := honce
  have hreleases : ∀ o, releases o
      (log ++ hc.entries.reverse.map fun o => .released o (Cause.ofGeneration g)) =
      releases o log ++ if o ∈ hc.entries then [Cause.ofGeneration g] else [] := by
    intro o
    rw [releases_append, releases_map_released o _ (List.nodup_reverse.mpr hcur)]
    simp only [List.mem_reverse]
  have hmem : ∀ {o : Nat}, o ∈ hc.entries → memState o ≠ none := by
    intro o ho
    obtain ⟨i, hi⟩ := mem_entries_iff.mp ho
    rw [h.slots g hc i o List.mem_cons_self hi]
    exact Option.some_ne_none _
  refine ⟨?_, ?_, hrest, ?_, ?_, ?_⟩
  · intro g' hc' i o htable hslot
    have hnot : o ∉ hc.entries := by
      intro ho
      have hin : o ∈ tables.flatMap fun g => g.2.entries :=
        List.mem_flatMap.mpr ⟨_, htable, mem_entries_iff.mpr ⟨i, hslot⟩⟩
      exact hdisjoint o ho o hin rfl
    rw [if_neg hnot]
    exact h.slots g' hc' i o (List.mem_cons_of_mem _ htable) hslot
  · intro g' hc' htable
    exact h.room g' hc' (List.mem_cons_of_mem _ htable)
  · intro o ho
    split at ho
    · exact absurd rfl ho
    · next hnot =>
      rw [hreleases, if_neg hnot, List.append_nil]
      exact h.live o ho
  · intro o ho
    have hnot : o ∉ hc.entries := by
      intro hin
      have := (h.live o (hmem hin)).1
      omega
    obtain ⟨hrel, hops, htracked⟩ := h.fresh o ho
    rw [hreleases, if_neg hnot, hrel]
    exact ⟨rfl, hops, fun g' => by simpa using htracked g'⟩
  · intro o g' htracked
    have hold : .tracked o g' ∈ log := by simpa using htracked
    by_cases ho : o ∈ hc.entries
    · -- the object was tracked in the generation that ends
      obtain ⟨hc', htable, hentry⟩ := h.mem_of_live hold (hmem ho)
      obtain ⟨-, hnone, hops⟩ := h.live o (hmem ho)
      rcases table_cases htable with ⟨rfl, -⟩ | htable
      · refine Or.inr ⟨if_pos ho, ?_⟩
        rw [hreleases, hnone, if_pos ho, if_neg hops]
        rfl
      · exact absurd rfl (hdisjoint o ho o (List.mem_flatMap.mpr ⟨_, htable, hentry⟩))
    · refine (h.fate o g' hold).mono ?_ ?_ (by rw [hreleases, if_neg ho, List.append_nil]) Iff.rfl
      · intro hc' htable hentry
        rcases table_cases htable with ⟨-, rfl⟩ | htable
        · exact absurd hentry ho
        · exact ⟨hc', htable, hentry⟩
      · intro hnone
        rw [if_neg ho]
        exact hnone

end Invariant

theorem memUnlinkEncObj_place {t : Thread} {i : Nat} (hi : i < t.hc.memEncSize) :
    memUnlinkEncObj t ((i : Int) + 1) = some (t.setSlots (t.hc.memEncObjs.set i none)) := by
  have hreal : (i : Int) + 1 ≠ MEM_RELEASED ∧ (i : Int) + 1 ≠ MEM_NOT_TRACKED := by
    rw [MEM_RELEASED, MEM_NOT_TRACKED]
    omega
  have hin : 0 ≤ (i : Int) + 1 - 1 ∧ (i : Int) + 1 - 1 < t.hc.memEncSize := by omega
  have hidx : ((i : Int) + 1 - 1).toNat = i := by omega
  rw [memUnlinkEncObj, if_pos hreal, if_pos hin, hidx]

theorem release_place {t : Thread} {i obj : Nat} (cause : Cause)
    (hobj : t.memState obj = some ((i : Int) + 1)) (hi : i < t.hc.memEncSize) :
    release t obj cause =
      some ((t.setSlots (t.hc.memEncObjs.set i none)).setState
        (Function.update t.memState obj none), [.released obj cause]) := by
  have hreal : (i : Int) + 1 ≠ 0 ∧ (i : Int) + 1 ≠ MEM_RELEASED := by
    rw [MEM_RELEASED]
    omega
  simp only [release, hobj]
  rw [if_pos hreal, memUnlinkEncObj_place hi]
  rfl

theorem release_untracked {t : Thread} {obj : Nat} (cause : Cause)
    (hobj : t.memState obj = some MEM_NOT_TRACKED) :
    release t obj cause =
      some (t.setState (Function.update t.memState obj none), [.released obj cause]) := by
  simp [release, hobj, memUnlinkEncObj, MEM_NOT_TRACKED, MEM_RELEASED]

/-- The loop takes the slots from the last one down. -/
theorem flushMt_spec (cause : Cause) (l : List (Option Nat)) :
    ∀ t : Thread, t.hc.memEncObjs = l →
      (∀ (i : Nat) o, l[i]? = some (some o) → t.memState o = some ((i : Int) + 1)) →
      l.reduceOption.Nodup → l.length ≤ t.hc.memEncSize →
      flushMt cause l.length t = some
        ((t.setSlots []).setState fun o => if o ∈ l.reduceOption then none else t.memState o,
          l.reduceOption.reverse.map fun o => .released o cause) := by
  induction l using List.reverseRecOn with
  | nil =>
    intro t ht hslots hnodup hlen
    have hsame : t.setSlots [] = t := by rw [Thread.setSlots, ← ht]
    rw [hsame]
    rfl
  | append_singleton l slot ih =>
    intro t ht hslots hnodup hlen
    rw [List.length_append, List.length_singleton] at hlen ⊢
    have hslots' : ∀ (i : Nat) o, l[i]? = some (some o) → t.memState o = some ((i : Int) + 1) := by
      intro i o hi
      refine hslots i o ?_
      rw [List.getElem?_append_left (List.getElem?_eq_some_iff.mp hi).1]
      exact hi
    unfold flushMt
    simp only [ht, List.getElem?_concat_length, List.take_left, Option.join_some]
    cases slot with
    | none =>
      rw [List.reduceOption_append, List.reduceOption_singleton, Option.toList_none,
        List.append_nil] at hnodup ⊢
      exact ih (t.setSlots l) rfl hslots' hnodup (Nat.le_of_succ_le hlen)
    | some obj =>
      have hobj : t.memState obj = some ((l.length : Int) + 1) := hslots l.length obj (by simp)
      rw [List.reduceOption_append, List.reduceOption_singleton, Option.toList_some] at hnodup ⊢
      obtain ⟨hnodup, -, hnot⟩ := List.nodup_append.mp hnodup
      have hrel := release_place (t := t.setSlots l) cause hobj (Nat.lt_of_succ_le hlen)
      rw [show ((t.setSlots l).hc.memEncObjs.set l.length none) = l from
        List.set_eq_of_length_le (Nat.le_refl _)] at hrel
      have hrec := ih (((t.setSlots l).setSlots l).setState
        (Function.update (t.setSlots l).memState obj none)) rfl ?_ hnodup
        (Nat.le_of_succ_le hlen)
      · have hstate : (fun o => if o ∈ l.reduceOption then none
            else Function.update (t.setSlots l).memState obj none o) =
            fun o => if o ∈ l.reduceOption ++ [obj] then none else t.memState o := by
          funext o
          by_cases heq : o = obj
          · simp [heq]
          · simp [heq, Thread.setSlots]
        simp only [hrel, Option.bind_some, hrec, Option.map_some, List.reverse_append,
          List.reverse_singleton, List.singleton_append, List.map_cons, ← hstate]
        rfl
      · intro i o hi
        have hne : o ≠ obj := by
          intro heq
          have hin : o ∈ l.reduceOption :=
            List.reduceOption_mem_iff.mpr (List.mem_iff_getElem?.mpr ⟨i, hi⟩)
          exact hnot o hin obj (by simp) heq
        simp only [Thread.setState, Function.update_of_ne hne]
        exact hslots' i o hi

/-! ## Runs -/

/-- `Sorted` of the tables and objects of a thread. -/
abbrev Thread.Sorted (t : Thread) (log : List Event) (ops : List Op) : Prop :=
  Support.Sorted t.tables t.memState t.created log ops

section Step

variable {t : Thread} {log : List Event} {ops : List Op}

theorem Thread.Sorted.flush (h : t.Sorted log ops) :
    ∃ t' events, flush (Cause.ofGeneration t.generation) t = some (t', events) ∧
      Support.Sorted (olderTables t.saved) t'.memState t'.created (log ++ events) ops := by
  have hslots := fun i o => h.slots t.generation t.hc i o List.mem_cons_self
  have honce := h.once
  rw [Thread.tables, List.flatMap_cons, List.nodup_append] at honce
  have hroom := (h.room t.generation t.hc List.mem_cons_self).1
  exact ⟨_, _, flushMt_spec _ t.hc.memEncObjs t rfl hslots honce.1 (Nat.le_of_lt hroom),
    Sorted.flushed h⟩

theorem Sorted.ops_append {tables : List (Option Nat × HeapControl)} {memState : Nat → Option Int}
    {created : Nat} {op : Op} (h : Support.Sorted tables memState created log ops)
    (hop : ∀ obj, op ≠ .release obj) : Support.Sorted tables memState created log (ops ++ [op]) := by
  have hiff : ∀ obj, .release obj ∈ ops ++ [op] ↔ .release obj ∈ ops := by
    intro obj
    simp [Ne.symm (hop obj)]
  refine ⟨h.slots, h.room, h.once, ?_, ?_, ?_⟩
  · intro obj hobj
    simpa only [hiff] using h.live obj hobj
  · intro obj hobj
    simpa only [hiff] using h.fresh obj hobj
  · intro obj g htracked
    exact (h.fate obj g htracked).mono (fun hc htable hentry => ⟨hc, htable, hentry⟩) id rfl
      (hiff obj)

theorem Thread.Sorted.track {obj : Nat} (h : t.Sorted log ops)
    (hobj : t.memState obj = some MEM_NOT_TRACKED) (hroom : t.hc.memEncObjs.length + 1 < 2 ^ 31) :
    ∃ t' events, track t obj = some (t', events) ∧ t'.Sorted (log ++ events) ops := by
  have hfree := (h.room t.generation t.hc List.mem_cons_self).1
  rw [Support.track, if_neg (by omega)]
  exact ⟨_, _, rfl, Sorted.enter h hobj hroom⟩

/-- A new object, not tracked yet. -/
theorem Thread.Sorted.create (h : t.Sorted log ops) :
    Thread.Sorted { t with
      memState := Function.update t.memState t.created (some MEM_NOT_TRACKED)
      created := t.created + 1 } log ops := by
  have hnone : t.memState t.created = none := by
    by_contra hlive
    have := (h.live t.created hlive).1
    omega
  have hfresh := h.fresh t.created (Nat.le_refl _)
  refine ⟨?_, h.room, h.once, ?_, ?_, ?_⟩
  · intro g hc i obj htable hslot
    have hstate := h.slots g hc i obj htable hslot
    have hne : obj ≠ t.created := by
      rintro rfl
      rw [hnone] at hstate
      exact absurd hstate (by simp)
    dsimp only
    rw [Function.update_of_ne hne]
    exact hstate
  · intro obj hobj
    by_cases heq : obj = t.created
    · subst heq
      exact ⟨Nat.lt_succ_self _, hfresh.1, hfresh.2.1⟩
    · dsimp only at hobj
      rw [Function.update_of_ne heq] at hobj
      obtain ⟨hlt, hrest⟩ := h.live obj hobj
      exact ⟨Nat.lt_succ_of_lt hlt, hrest⟩
  · intro obj hobj
    exact h.fresh obj (Nat.le_of_succ_le hobj)
  · intro obj g htracked
    refine (h.fate obj g htracked).mono (fun hc htable hentry => ⟨hc, htable, hentry⟩) ?_ rfl
      Iff.rfl
    intro hobj
    have hne : obj ≠ t.created := by
      rintro rfl
      exact hfresh.2.2 g htracked
    dsimp only
    rw [Function.update_of_ne hne]
    exact hobj

theorem Thread.Sorted.mark (h : t.Sorted log ops) : (markHeap t).Sorted log ops := by
  have hempty : newHeapControl.entries = [] := rfl
  refine ⟨?_, ?_, ?_, h.live, h.fresh, ?_⟩
  · intro g hc i obj htable hslot
    rcases List.mem_cons.mp htable with heq | htable
    · obtain ⟨-, rfl⟩ : g = (markHeap t).generation ∧ hc = newHeapControl := by
        simpa [markHeap] using heq
      simp [newHeapControl] at hslot
    · exact h.slots g hc i obj htable hslot
  · intro g hc htable
    rcases List.mem_cons.mp htable with heq | htable
    · obtain ⟨-, rfl⟩ : g = (markHeap t).generation ∧ hc = newHeapControl := by
        simpa [markHeap] using heq
      simp [newHeapControl, MT_SIZE_STEP]
    · exact h.room g hc htable
  · exact h.once
  · intro obj g htracked
    refine (h.fate obj g htracked).mono ?_ id rfl Iff.rfl
    intro hc htable hentry
    exact ⟨hc, List.mem_cons_of_mem _ htable, hentry⟩

theorem Thread.Sorted.close (h : t.Sorted log ops) (hopen : t.saved ≠ []) :
    ∃ t' events, releaseHeap t = some (t', events) ∧ t'.Sorted (log ++ events) ops := by
  obtain ⟨t', events, hflush, h'⟩ := h.flush
  cases hsaved : t.saved with
  | nil => exact absurd hsaved hopen
  | cons last saved =>
    obtain ⟨p, hc⟩ := last
    rw [Thread.generation, hsaved] at hflush
    rw [hsaved] at h'
    simp only [List.head?_cons, Option.map_some, Cause.ofGeneration] at hflush
    simp only [releaseHeap, hsaved, hflush, Option.map_some]
    exact ⟨_, _, rfl, h'⟩

/-- Every step keeps the tables in order. -/
theorem Thread.Sorted.step {op : Op} (h : t.Sorted log ops) (hproper : Proper t op)
    (hown : OwnGeneration t op) :
    ∃ t' events, step t op = some (t', events) ∧ t'.Sorted (log ++ events) (ops ++ [op]) := by
  cases op with
  | memAddEncObj tracked =>
    cases tracked with
    | false =>
      refine ⟨_, [], rfl, ?_⟩
      rw [List.append_nil]
      exact h.create.ops_append (by simp)
    | true =>
      obtain ⟨t', events, hrun, h'⟩ := h.create.track (Function.update_self ..) (hown rfl)
      exact ⟨t', events, hrun, h'.ops_append (by simp)⟩
  | memLinkEncObj obj =>
    obtain ⟨t', events, hrun, h'⟩ := h.track hproper hown
    exact ⟨t', events, hrun, h'.ops_append (by simp)⟩
  | release obj =>
    rcases hown with huntracked | hmem
    · exact ⟨_, _, release_untracked _ huntracked, Sorted.gone_untracked h huntracked⟩
    · obtain ⟨i, hi⟩ := List.mem_iff_getElem?.mp hmem
      have hstate := h.slots t.generation t.hc i obj List.mem_cons_self hi
      have hlt := (List.getElem?_eq_some_iff.mp hi).1
      have hroom := (h.room t.generation t.hc List.mem_cons_self).1
      exact ⟨_, _, release_place _ hstate (by omega), Sorted.gone_tracked h hi⟩
  | markHeap =>
    refine ⟨_, [], rfl, ?_⟩
    rw [List.append_nil]
    exact h.mark.ops_append (by simp)
  | releaseHeap =>
    obtain ⟨t', events, hrun, h'⟩ := h.close hproper
    exact ⟨t', events, hrun, h'.ops_append (by simp)⟩

theorem Thread.Sorted.run (done : List Op) (h : t.Sorted log done)
    (hproper : Along Proper t ops) (hown : Along OwnGeneration t ops) :
    ∃ t' events, runOps t ops = some (t', events) ∧ t'.Sorted (log ++ events) (done ++ ops) := by
  induction ops generalizing t log done with
  | nil => exact ⟨t, [], rfl, by simpa using h⟩
  | cons op ops ih =>
    obtain ⟨t₁, events₁, hstep, h₁⟩ := h.step hproper.1 hown.1
    simp only [Along, hstep, Option.elim_some] at hproper hown
    obtain ⟨t₂, events₂, hrun, h₂⟩ := ih (done ++ [op]) h₁ hproper.2 hown.2
    refine ⟨t₂, events₁ ++ events₂, ?_, by simpa using h₂⟩
    simp only [runOps, hstep, Option.bind_some, hrun, Option.map_some]

end Step

/-- The run goes through, and when all generations are closed the final flush leaves every
object that was tracked with one release: its explicit one, or else that of its generation. -/
def ReleasedOnce (ops : List Op) : Prop :=
  ∃ t log, runOps newThread ops = some (t, log) ∧
    (t.saved = [] → ∃ t' rest, flush .flush t = some (t', rest) ∧
      ∀ obj g, .tracked obj g ∈ log →
        releases obj (log ++ rest) =
          [if .release obj ∈ ops then .explicit else Cause.ofGeneration g])

/-- A run that releases tracked objects only in their own generation goes through, and every object
it tracks is released once. -/
theorem runOps_releasedOnce (ops : List Op) (hproper : Along Proper newThread ops)
    (hown : Along OwnGeneration newThread ops) : ReleasedOnce ops := by
  obtain ⟨t, log, hrun, h⟩ := Thread.Sorted.run [] sorted_newThread hproper hown
  refine ⟨t, log, hrun, fun hsaved => ?_⟩
  obtain ⟨t', rest, hflush, h'⟩ := h.flush
  have hgen : Cause.ofGeneration t.generation = .flush := by
    simp [Thread.generation, hsaved, Cause.ofGeneration]
  rw [hgen] at hflush
  refine ⟨t', rest, hflush, fun obj g htracked => ?_⟩
  rw [hsaved] at h'
  rcases h'.fate obj g (by simp [htracked]) with ⟨hc, htable, -⟩ | ⟨-, hrel⟩
  · exact absurd htable List.not_mem_nil
  · simpa using hrel

/-- One object is released in its own generation, one is left to it. -/
theorem runOps_releasedOnce_nested :
    ReleasedOnce [.memAddEncObj true, .markHeap, .memAddEncObj true, .memAddEncObj true,
      .release 2, .releaseHeap] :=
  runOps_releasedOnce _ (by decide) (by decide)

/-- The first object is released while the table of the second one is current: the slot of
the second becomes free, and the first is released again by the final flush. -/
theorem not_releasedOnce_outer :
    Along Proper newThread [.memAddEncObj true, .markHeap, .memAddEncObj true, .release 0,
      .releaseHeap] ∧
    ¬ ReleasedOnce [.memAddEncObj true, .markHeap, .memAddEncObj true, .release 0,
      .releaseHeap] := by
  refine ⟨by decide, fun h => ?_⟩
  obtain ⟨t, log, hrun, hclosed⟩ := h
  have hsaved : (runOps newThread [.memAddEncObj true, .markHeap, .memAddEncObj true, .release 0,
      .releaseHeap]).map (fun r => r.1.saved) = some [] := by decide
  have hflush : (runOps newThread [.memAddEncObj true, .markHeap, .memAddEncObj true, .release 0,
      .releaseHeap]).bind (fun r => (flush .flush r.1).map fun r => r.2) = none := by decide
  rw [hrun] at hsaved hflush
  obtain ⟨t', rest, hrun', -⟩ := hclosed (by simpa using hsaved)
  simp [hrun'] at hflush

end Sfcb.Support
