import Sfcb.InteropProvider.UseCounts

/-!
# Indications in flight

A provider that has a filter active raises indications with the filter's id, which is the
address of the `Filter` record, and the message comes back to the interop provider as a
`_deliver` call. It may do so late: subscriptions and filters can be deleted in between,
and another filter may have been given the address.

The system is the interop provider with all its operations, the providers, which may drop
a filter at any time, and the messages in flight. `runActs_delivered` says what is needed
so that a delivery always finds the filter it was raised for.

Mirroring notes:
- A request to activate a filter makes it active. A provider that did not take it, that
  was told to deactivate it, or that ended, drops it by a step of its own (`drop`).
- A message carries the id and, for the statements only, which filter it stood for.
-/

namespace Sfcb.InteropProvider

open Sfcb.Lib Sfcb.Cmpi

/-- The interop provider and the messages on their way to it. -/
structure World where
  tables : State
  inFlight : List FilterId

/-- A step of the system. -/
inductive Act where
  | op (op : Op)
  | drop (m : FilterId)
  | raise (m : FilterId)
  | deliver (m : FilterId)

/-- One step; `none` where there is no such step. -/
def act (w : World) : Act → Option World
  | .op op => (step w.tables op).map fun r => { w with tables := r.1 }
  | .drop m => some { w with tables := { w.tables with active := w.tables.active.erase m } }
  | .raise m =>
    if m ∈ w.tables.active then some { w with inFlight := m :: w.inFlight } else none
  | .deliver m =>
    if m ∈ w.inFlight then
      (deliver w.tables m.addr).map fun _ => { w with inFlight := w.inFlight.erase m }
    else none

/-- A sequence of steps. -/
def runActs : World → List Act → Option World
  | w, [] => some w
  | w, a :: acts => (act w a).bind fun w' => runActs w' acts

/-- What is asked of a delivery: the id is that of a registered filter, and every
subscription whose handler is invoked is one of the very filter the message was raised
for. -/
structure Denotes (s : State) (m : FilterId) : Prop where
  registered : s.HasFilter m.addr
  invoked : ∃ calls, deliver s m.addr = some calls ∧
    ∀ call ∈ calls, ∃ f, s.filterHt.mem call.2.fi = some f ∧ f.serial = m.serial

/-- Every delivery of a run finds its filter. -/
def AllDelivered : World → List Act → Prop
  | _, [] => True
  | w, a :: acts =>
    (∀ m, a = .deliver m → m ∈ w.inFlight → Denotes w.tables m) ∧
      ∀ w', act w a = some w' → AllDelivered w' acts

/-- What a step must meet: a filter is deleted only when no message for it is in flight
and no provider has it active. -/
def MeetsAct (w : World) : Act → Prop
  | .op (.deleteInstance env cop) =>
    ∀ fi, DeletesFilter w.tables env cop fi →
      (∀ m ∈ w.inFlight, m.addr ≠ fi) ∧ ∀ m ∈ w.tables.active, m.addr ≠ fi
  | _ => True

/-- Every step of a run meets the condition. -/
def AllMeetAct : World → List Act → Prop
  | _, [] => True
  | w, a :: acts => MeetsAct w a ∧ ∀ w', act w a = some w' → AllMeetAct w' acts

/-! ## The invariant -/

/-- The filter is registered, and still the one it was. -/
def Known (s : State) (m : FilterId) : Prop :=
  ∃ key f, getFilter s key = some m.addr ∧ s.filterHt.mem m.addr = some f ∧ f.serial = m.serial

/-- The tables are consistent, and every id that is out there is known. -/
structure Sound (w : World) : Prop where
  tables : Consistent w.tables
  active : ∀ m ∈ w.tables.active, Known w.tables m
  inFlight : ∀ m ∈ w.inFlight, Known w.tables m

/-- A process that has just started, with nothing in flight. -/
def World.boot (repository : Repository) : World := ⟨.boot repository, []⟩

theorem boot_sound (repository : Repository) : Sound (.boot repository) :=
  ⟨boot_consistent repository, fun _ h => absurd h List.not_mem_nil,
    fun _ h => absurd h List.not_mem_nil⟩

section Step

variable {s s' : State} {m : FilterId}

/-- Storing a record of the same filter keeps what is known. -/
theorem mem_store_serial {p : Pool Key Filter} {a b : Addr} {f g x : Filter}
    (hx : p.mem a = some x) (hg : g.serial = x.serial) (hf : p.mem b = some f) :
    ∃ f', (p.store a g).mem b = some f' ∧ f'.serial = f.serial := by
  by_cases hba : b = a
  · subst hba
    rw [hx] at hf
    cases hf
    exact ⟨g, Pool.mem_store_self, hg⟩
  · exact ⟨f, (Pool.mem_store_of_ne hba).trans hf, rfl⟩

/-- A change leaves every registered filter what it is. -/
theorem Known.change (h : Known s m) (hchange : Change s s') : Known s' m := by
  obtain ⟨key, f, hkey, hf, hserial⟩ := h
  have hkey' := hchange.getFilter hkey
  suffices hmem : ∃ f', s'.filterHt.mem m.addr = some f' ∧ f'.serial = f.serial by
    obtain ⟨f', hf', hsame⟩ := hmem
    exact ⟨key, f', hkey', hf', hsame.trans hserial⟩
  cases hchange with
  | @addFilter malloc _ _ _ _ _ _ _ hfree =>
    have hne : m.addr ≠ malloc := by
      intro he
      rw [he, hfree] at hf
      cases hf
    exact ⟨f, (Pool.mem_add_of_ne hne).trans hf, rfl⟩
  | addSubscription _ _ _ hx _ => exact mem_store_serial hx rfl hf
  | removeSubscription _ hx _ => exact mem_store_serial hx rfl hf
  | addHandler | replaceInstance | activate | store => exact ⟨f, hf, rfl⟩

/-- An id that becomes active is one of a registered filter. -/
theorem Change.active (hchange : Change s s') (hm : m ∈ s'.active) :
    m ∈ s.active ∨ Known s m := by
  cases hchange with
  | @activate fi f hfi hf =>
    rcases List.mem_cons.mp hm with rfl | hold
    · obtain ⟨key, hkey⟩ := hfi
      exact Or.inr ⟨key, f, hkey, hf, rfl⟩
    · exact Or.inl hold
  | addFilter | addHandler | addSubscription | removeSubscription | replaceInstance | store =>
    exact Or.inl hm

theorem Known.changes (h : Known s m) (hchanges : Changes s s') : Known s' m := by
  induction hchanges with
  | refl => exact h
  | tail _ hlast ih => exact ih.change hlast

theorem Changes.active (hchanges : Changes s s') (hactive : ∀ m ∈ s.active, Known s m) :
    ∀ m ∈ s'.active, Known s' m := by
  induction hchanges with
  | refl => exact hactive
  | tail _ hlast ih =>
    intro m hm
    rcases hlast.active hm with hold | hknown
    · exact (ih m hold).change hlast
    · exact hknown.change hlast

/-- A filter other than the one that is removed is still known. -/
theorem Known.removeFilter {key : Key} {fi : Addr} (h : Known s m)
    (hkey : getFilter s key = some fi) (hne : m.addr ≠ fi) : Known (removeFilter s fi key) m := by
  obtain ⟨key', f, hkey', hf, hserial⟩ := h
  have hother : key' ≠ key := by
    rintro rfl
    rw [hkey] at hkey'
    exact hne (Option.some.inj hkey').symm
  exact ⟨key', f, (Pool.get_remove_of_ne hother).trans hkey', (Pool.mem_remove_of_ne hne).trans hf,
    hserial⟩

/-- An operation of the interop provider. -/
theorem Sound.op {w : World} {op : Op} {r : State × CMPIStatus} (h : Sound w)
    (hmeets : MeetsAct w (.op op)) (hstep : step w.tables op = some r) :
    Sound { w with tables := r.1 } := by
  have htables := h.tables.step hstep
  rcases step_cases hstep with hchanges | ⟨env, cop, fi, rfl, hdel, hs'⟩ | ⟨key, ha, hd, -, -, -, hs'⟩
  · exact ⟨htables, hchanges.active h.active, fun m hm => (h.inFlight m hm).changes hchanges⟩
  · -- nobody has the id of the filter that goes
    obtain ⟨hflight, hactive⟩ := hmeets fi hdel
    have hkept : ∀ m, Known w.tables m → m.addr ≠ fi → Known r.1 m := by
      intro m hknown hne
      rw [hs']
      exact (hknown.removeFilter hdel.registered hne).changes unstoreFilter_changes
    refine ⟨htables, fun m hm => ?_, fun m hm => hkept m (h.inFlight m hm) (hflight m hm)⟩
    have hm : m ∈ w.tables.active := by
      dsimp only at hm
      rw [hs', unstoreFilter] at hm
      split at hm <;> exact hm
    exact hkept m (h.active m hm) (hactive m hm)
  · rw [hs'] at htables ⊢
    exact ⟨htables, h.active, h.inFlight⟩

/-- One step under the condition. -/
theorem Sound.act {w w' : World} {a : Act} (h : Sound w) (hmeets : MeetsAct w a)
    (hact : act w a = some w') : Sound w' := by
  cases a with
  | op op =>
    rw [InteropProvider.act, Option.map_eq_some_iff] at hact
    obtain ⟨r, hr, rfl⟩ := hact
    exact h.op hmeets hr
  | drop m =>
    cases hact
    -- the tables stay, and there is one to keep in mind less
    exact ⟨⟨h.tables.filters, h.tables.handlers, h.tables.fi, h.tables.ha⟩,
      fun m' hm' => h.active m' (List.mem_of_mem_erase hm'), h.inFlight⟩
  | raise m =>
    rw [InteropProvider.act] at hact
    split at hact
    · next hm =>
      cases hact
      refine ⟨h.tables, h.active, fun m' hm' => ?_⟩
      rcases List.mem_cons.mp hm' with rfl | hold
      · exact h.active m' hm
      · exact h.inFlight m' hold
    · cases hact
  | deliver m =>
    rw [InteropProvider.act] at hact
    split at hact
    · rw [Option.map_eq_some_iff] at hact
      obtain ⟨-, -, rfl⟩ := hact
      exact ⟨h.tables, h.active, fun m' hm' => h.inFlight m' (List.mem_of_mem_erase hm')⟩
    · cases hact

/-- A known id is delivered to the handlers of its own filter's subscriptions. -/
theorem Consistent.denotes (h : Consistent s) (hknown : Known s m) : Denotes s m := by
  obtain ⟨key, f, hkey, hf, hserial⟩ := hknown
  refine ⟨⟨key, hkey⟩, ?_⟩
  have hentry : ∀ su ∈ (s.subscriptionHt.entries.map (·.2)).filter (fun su => su.fi = m.addr),
      su.fi = m.addr ∧ ∃ hd, s.handlerHt.mem su.ha = some hd := by
    intro su hsu
    obtain ⟨hmem, hfi⟩ := List.mem_filter.mp hsu
    obtain ⟨e, he, rfl⟩ := List.mem_map.mp hmem
    obtain ⟨hkey', hha⟩ := h.ha e.1 e.2 (AList.mem_lookup_iff.mpr he)
    obtain ⟨hd, hhd, -⟩ := h.handlers.counts hkey' e.2.ha hha
    exact ⟨of_decide_eq_true hfi, hd, hhd⟩
  -- every handler is there, so the loop runs to its end
  have hloop : ∀ l : List Subscription,
      (∀ su ∈ l, su.fi = m.addr ∧ ∃ hd, s.handlerHt.mem su.ha = some hd) →
      ∃ calls, l.mapM (fun su => (s.handlerHt.mem su.ha).map fun hd => (hd.hop, su)) = some calls ∧
        ∀ call ∈ calls, call.2.fi = m.addr := by
    intro l
    induction l with
    | nil => exact fun _ => ⟨[], rfl, fun _ hcall => absurd hcall List.not_mem_nil⟩
    | cons su l ih =>
      intro hall
      obtain ⟨hfi, hd, hhd⟩ := hall su List.mem_cons_self
      obtain ⟨calls, hcalls, hown⟩ := ih fun su' hsu' => hall su' (List.mem_cons_of_mem su hsu')
      refine ⟨(hd.hop, su) :: calls, by simp [List.mapM_cons, hhd, hcalls], fun call hcall => ?_⟩
      rcases List.mem_cons.mp hcall with rfl | hold
      · exact hfi
      · exact hown call hold
  obtain ⟨calls, hcalls, hown⟩ := hloop _ hentry
  refine ⟨calls, by rw [deliver, hf]; exact hcalls, fun call hcall => ⟨f, ?_, hserial⟩⟩
  rw [hown call hcall]
  exact hf

end Step

/-- In every run whose filter deletions meet the condition, every delivery finds the
filter it was raised for, and goes to handlers of that filter's subscriptions only. -/
theorem runActs_delivered {repository : Repository} {acts : List Act}
    (hmeets : AllMeetAct (.boot repository) acts) : AllDelivered (.boot repository) acts := by
  -- the induction is on the steps, from any world with the invariant
  have hinv : ∀ {w : World}, Sound w → AllMeetAct w acts → AllDelivered w acts := by
    clear hmeets
    induction acts with
    | nil => exact fun _ _ => trivial
    | cons a acts ih =>
      intro w h hmeets
      refine ⟨?_, fun w' hact => ih (h.act hmeets.1 hact) (hmeets.2 w' hact)⟩
      rintro m rfl hm
      exact h.tables.denotes (h.inFlight m hm)
  exact hinv (boot_sound repository) hmeets

/-- A filter with a subscription, and an indication for it. -/
def raisedActs : List Act :=
  [.op (.addHandler handlerPath 1 handlerPath),
    .op (.createInstance goodEnv filterPath sampleInstance),
    .op (.createInstance goodEnv subscriptionPath sampleInstance), .raise ⟨1, 0⟩]

theorem raisedActs_delivered :
    (runActs (.boot ⟨∅, ∅⟩) (raisedActs ++ [.deliver ⟨1, 0⟩])).isSome = true ∧
      AllDelivered (.boot ⟨∅, ∅⟩) (raisedActs ++ [.deliver ⟨1, 0⟩]) :=
  ⟨by decide, runActs_delivered ⟨trivial, fun _ _ => ⟨trivial, fun _ _ => ⟨trivial, fun _ _ =>
    ⟨trivial, fun _ _ => ⟨trivial, fun _ _ => trivial⟩⟩⟩⟩⟩⟩

/-- The subscription and the filter are deleted before the indication arrives. -/
def overtakenActs : List Act :=
  raisedActs ++ [.op (.deleteInstance goodEnv subscriptionPath), .drop ⟨1, 0⟩,
    .op (.deleteInstance goodEnv filterPath)]

/-- Another filter, with a subscription of its own, gets the address. -/
def reusedActs : List Act :=
  overtakenActs ++ [.op (.createInstance goodEnv (samplePath "CIM_IndicationFilter" "g") sampleInstance),
    .op (.createInstance goodEnv subscriptionPath
      { sampleInstance with filter := .value (samplePath "CIM_IndicationFilter" "g") })]

/-- In the first run the id points to a filter that was freed; in the second the
indication goes to the handler of another filter's subscription. -/
theorem overtakenActs_not_delivered :
    (∃ w, runActs (.boot ⟨∅, ∅⟩) overtakenActs = some w ∧ ⟨1, 0⟩ ∈ w.inFlight ∧
      w.tables.filterHt.mem 1 = none ∧ ¬ Denotes w.tables ⟨1, 0⟩) ∧
    ∃ w f call, runActs (.boot ⟨∅, ∅⟩) reusedActs = some w ∧ ⟨1, 0⟩ ∈ w.inFlight ∧
      deliver w.tables 1 = some [call] ∧ w.tables.filterHt.mem call.2.fi = some f ∧
      f.serial = 1 ∧ ¬ Denotes w.tables ⟨1, 0⟩ := by
  constructor
  · -- the record is gone: there is nothing to read
    have hrun : (runActs (.boot ⟨∅, ∅⟩) overtakenActs).map
        (fun w => (w.inFlight, w.tables.filterHt.mem 1)) = some ([⟨1, 0⟩], none) := by decide
    obtain ⟨w, hw, heq⟩ := Option.map_eq_some_iff.mp hrun
    obtain ⟨hflight, hmem⟩ := Prod.mk.inj heq
    refine ⟨w, hw, by rw [hflight]; exact List.mem_singleton_self _, hmem, fun h => ?_⟩
    obtain ⟨calls, hcalls, -⟩ := h.invoked
    rw [deliver, hmem] at hcalls
    cases hcalls
  · -- another filter is found there, and its handler is called
    have hrun : ((runActs (.boot ⟨∅, ∅⟩) reusedActs).bind fun w =>
        (deliver w.tables 1).map fun calls =>
          (w.inFlight, calls.map fun call =>
            (w.tables.filterHt.mem call.2.fi).map Filter.serial)) = some ([⟨1, 0⟩], [some 1]) := by
      decide
    obtain ⟨w, hw, hdeliver⟩ := Option.bind_eq_some_iff.mp hrun
    obtain ⟨calls, hcalls, heq⟩ := Option.map_eq_some_iff.mp hdeliver
    obtain ⟨hflight, hserials⟩ := Prod.mk.inj heq
    obtain ⟨call, rfl⟩ := List.length_eq_one_iff.mp (by simpa using congrArg List.length hserials)
    rw [List.map_singleton, List.singleton_inj, Option.map_eq_some_iff] at hserials
    obtain ⟨f, hf, hserial⟩ := hserials
    refine ⟨w, f, call, hw, by rw [hflight]; exact List.mem_singleton_self _, hcalls, hf, hserial,
      fun h => ?_⟩
    obtain ⟨calls', hcalls', hown⟩ := h.invoked
    rw [hcalls] at hcalls'
    cases hcalls'
    obtain ⟨f', hf', hserial'⟩ := hown call (List.mem_singleton_self _)
    rw [hf] at hf'
    cases hf'
    rw [hserial] at hserial'
    cases hserial'

end Sfcb.InteropProvider
