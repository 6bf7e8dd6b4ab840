import Mathlib.Logic.Relation
import Sfcb.InteropProvider.Operations

/-!
# What an operation can do to the tables

Every operation is a sequence of a few changes: something is added, a subscription goes,
an instance is replaced, a provider is told of a filter, or the repository changes
(`Change`). Only `DeleteInstance` takes a filter away, and only `_removeHandler` a handler,
and both do nothing else. `step_cases` says so, for every outcome of the requests and
upcalls; what holds over whole runs is proved from it.
-/

namespace Sfcb.InteropProvider

open Sfcb.Lib Sfcb.Cmpi

/-- The filter at an address is registered. -/
def State.HasFilter (s : State) (fi : Addr) : Prop := ∃ key, getFilter s key = some fi

/-- The handler at an address is registered. -/
def State.HasHandler (s : State) (ha : Addr) : Prop := ∃ key, getHandler s key = some ha

/-- The changes that take neither a filter nor a handler away. -/
inductive Change (s : State) : State → Prop where
  | addFilter {malloc : Addr} {ci : Instance} {key : Key} {qs : QLStatement}
      {query lang sns : CStr} (hkey : s.filterHt.get key = none)
      (hfree : s.filterHt.mem malloc = none) :
      Change s { s with
        filterHt := s.filterHt.add key malloc ⟨ci, qs, 0, query, lang, sns, s.serial⟩
        serial := s.serial + 1 }
  | addHandler {malloc : Addr} {op : ObjectPath}
      (hkey : s.handlerHt.get (normalizeObjectPathCharsDup op) = none)
      (hfree : s.handlerHt.mem malloc = none) :
      Change s { s with
        handlerHt := s.handlerHt.add (normalizeObjectPathCharsDup op) malloc ⟨op, 0⟩ }
  | addSubscription {ci : Instance} {key : Key} {fi ha : Addr} {f : Filter} {h : Handler}
      (hkey : s.subscriptionHt.lookup key = none) (hfi : s.HasFilter fi) (hha : s.HasHandler ha)
      (hf : s.filterHt.mem fi = some f) (hh : s.handlerHt.mem ha = some h) :
      Change s { s with
        filterHt := s.filterHt.store fi { f with useCount := f.useCount + 1 }
        handlerHt := s.handlerHt.store ha { h with useCount := h.useCount + 1 }
        subscriptionHt := s.subscriptionHt.insert key ⟨ci, fi, ha⟩ }
  | removeSubscription {key : Key} {su : Subscription} {f : Filter} {h : Handler}
      (hkey : s.subscriptionHt.lookup key = some su)
      (hf : s.filterHt.mem su.fi = some f) (hh : s.handlerHt.mem su.ha = some h) :
      Change s { s with
        filterHt := s.filterHt.store su.fi { f with useCount := f.useCount + -1 }
        handlerHt := s.handlerHt.store su.ha { h with useCount := h.useCount + -1 }
        subscriptionHt := s.subscriptionHt.erase key }
  | replaceInstance {key : Key} {su : Subscription} {ci : Instance}
      (hkey : s.subscriptionHt.lookup key = some su) :
      Change s { s with subscriptionHt := s.subscriptionHt.insert key { su with sci := ci } }
  | activate {fi : Addr} {f : Filter} (hfi : s.HasFilter fi) (hf : s.filterHt.mem fi = some f) :
      Change s { s with active := ⟨fi, f.serial⟩ :: s.active }
  | store (repository : Repository) : Change s { s with repository := repository }

/-- Any number of changes. -/
abbrev Changes : State → State → Prop := Relation.ReflTransGen Change

theorem Change.changes {s s' : State} (h : Change s s') : Changes s s' := .single h

/-- A registered filter stays under its key. -/
theorem Change.getFilter {s s' : State} {key : Key} {fi : Addr} (h : Change s s')
    (hkey : getFilter s key = some fi) : getFilter s' key = some fi := by
  cases h with
  | @addFilter _ _ new _ _ _ _ hnew =>
    have hne : key ≠ new := by
      rintro rfl
      rw [InteropProvider.getFilter, hnew] at hkey
      cases hkey
    exact (Pool.get_add_of_ne hne).trans hkey
  | _ => exact hkey

/-- A registered handler stays under its key. -/
theorem Change.getHandler {s s' : State} {key : Key} {ha : Addr} (h : Change s s')
    (hkey : getHandler s key = some ha) : getHandler s' key = some ha := by
  cases h with
  | @addHandler _ op hnew =>
    have hne : key ≠ normalizeObjectPathCharsDup op := by
      rintro rfl
      rw [InteropProvider.getHandler, hnew] at hkey
      cases hkey
    exact (Pool.get_add_of_ne hne).trans hkey
  | _ => exact hkey

theorem Changes.getFilter {s s' : State} {key : Key} {fi : Addr} (h : Changes s s')
    (hkey : getFilter s key = some fi) : getFilter s' key = some fi := by
  induction h with
  | refl => exact hkey
  | tail _ hlast ih => exact hlast.getFilter ih

theorem Changes.getHandler {s s' : State} {key : Key} {ha : Addr} (h : Changes s s')
    (hkey : getHandler s key = some ha) : getHandler s' key = some ha := by
  induction h with
  | refl => exact hkey
  | tail _ hlast ih => exact hlast.getHandler ih

section Functions

variable {s s' : State} {env : Env} {ci : Instance} {cop : ObjectPath} {key : Key}

theorem addFilterUse_eq {fi : Addr} {n : Int} (h : addFilterUse s fi n = some s') :
    ∃ f, s.filterHt.mem fi = some f ∧
      s' = { s with filterHt := s.filterHt.store fi { f with useCount := f.useCount + n } } := by
  obtain ⟨f, hf, h⟩ := Option.bind_eq_some_iff.mp h
  obtain ⟨count, hcount, rfl⟩ := Option.map_eq_some_iff.mp h
  obtain ⟨-, rfl⟩ := addInt_eq_some.mp hcount
  exact ⟨f, hf, rfl⟩

theorem addHandlerUse_eq {ha : Addr} {n : Int} (h : addHandlerUse s ha n = some s') :
    ∃ hd, s.handlerHt.mem ha = some hd ∧
      s' = { s with handlerHt := s.handlerHt.store ha { hd with useCount := hd.useCount + n } } := by
  obtain ⟨hd, hh, h⟩ := Option.bind_eq_some_iff.mp h
  obtain ⟨count, hcount, rfl⟩ := Option.map_eq_some_iff.mp h
  obtain ⟨-, rfl⟩ := addInt_eq_some.mp hcount
  exact ⟨hd, hh, rfl⟩

theorem addFilter_changes {malloc : Addr} {qs : QLStatement} {query lang sns : CStr}
    (h : addFilter s malloc ci key qs query lang sns = some s') : Changes s s' := by
  unfold addFilter at h
  split at h
  · cases h
    exact .refl
  · next hkey =>
    split at h
    · cases h
    · next hfree =>
      cases h
      exact (Change.addFilter (by simpa using hkey) (by simpa using hfree)).changes

theorem addHandler_changes {malloc : Addr} {op : ObjectPath}
    (h : addHandler s malloc op = some s') : Changes s s' := by
  unfold addHandler at h
  dsimp only at h
  split at h
  · cases h
    exact .refl
  · next hkey =>
    split at h
    · cases h
    · next hfree =>
      cases h
      exact (Change.addHandler (by simpa using hkey) (by simpa using hfree)).changes

/-- What `addSubscription` does under a new key. -/
theorem addSubscription_eq {fi ha : Addr} {r : State × Option Subscription}
    (hkey : s.subscriptionHt.lookup key = none)
    (h : addSubscription s ci key fi ha = some r) :
    ∃ f hd, s.filterHt.mem fi = some f ∧ s.handlerHt.mem ha = some hd ∧
      r.2 = some ⟨ci, fi, ha⟩ ∧
      r.1 = { s with
        filterHt := s.filterHt.store fi { f with useCount := f.useCount + 1 }
        handlerHt := s.handlerHt.store ha { hd with useCount := hd.useCount + 1 }
        subscriptionHt := s.subscriptionHt.insert key ⟨ci, fi, ha⟩ } := by
  rw [addSubscription, hkey, if_neg (by simp), Option.bind_eq_some_iff] at h
  obtain ⟨s₁, hfilter, h⟩ := h
  obtain ⟨f, hf, rfl⟩ := addFilterUse_eq hfilter
  rw [Option.map_eq_some_iff] at h
  obtain ⟨s₂, hhandler, rfl⟩ := h
  obtain ⟨hd, hh, rfl⟩ := addHandlerUse_eq hhandler
  exact ⟨f, hd, hf, hh, rfl, rfl⟩

/-- What `removeSubscription` does to a subscription it is given. -/
theorem removeSubscription_eq {su : Subscription}
    (h : removeSubscription s (some su) key = some s') :
    ∃ f hd, s.filterHt.mem su.fi = some f ∧ s.handlerHt.mem su.ha = some hd ∧
      s' = { s with
        filterHt := s.filterHt.store su.fi { f with useCount := f.useCount + -1 }
        handlerHt := s.handlerHt.store su.ha { hd with useCount := hd.useCount + -1 }
        subscriptionHt := s.subscriptionHt.erase key } := by
  rw [removeSubscription, Option.bind_eq_some_iff] at h
  obtain ⟨s₁, hfilter, h⟩ := h
  obtain ⟨f, hf, rfl⟩ := addFilterUse_eq hfilter
  obtain ⟨hd, hh, rfl⟩ := addHandlerUse_eq h
  exact ⟨f, hd, hf, hh, rfl⟩

theorem removeSubscription_changes {su : Subscription}
    (hkey : s.subscriptionHt.lookup key = some su)
    (h : removeSubscription s (some su) key = some s') : Changes s s' := by
  obtain ⟨f, hd, hf, hh, rfl⟩ := removeSubscription_eq h
  exact (Change.removeSubscription hkey hf hh).changes

/-- `fowardSubscription` leaves the tables alone; its status is `forwarded`. -/
theorem fowardSubscription_eq {fi : Addr} {optype : OpType} {r : State × CMPIStatus}
    (h : fowardSubscription s env fi optype = some r) :
    ∃ f, s.filterHt.mem fi = some f ∧ r.2 = forwarded env f optype ∧
      (r.1 = s ∨ r.1 = { s with active := ⟨fi, f.serial⟩ :: s.active }) := by
  rw [fowardSubscription, Option.map_eq_some_iff] at h
  obtain ⟨f, hf, rfl⟩ := h
  refine ⟨f, hf, rfl, ?_⟩
  dsimp only
  split
  · exact Or.inr rfl
  · exact Or.inl rfl

theorem fowardSubscription_changes {fi : Addr} {optype : OpType} {r : State × CMPIStatus}
    (hfi : s.HasFilter fi) (h : fowardSubscription s env fi optype = some r) :
    Changes s r.1 := by
  obtain ⟨f, hf, -, hs | hs⟩ := fowardSubscription_eq h
  · rw [hs]
  · rw [hs]
    exact (Change.activate hfi hf).changes

theorem findFilter_registered {fi : Addr} (h : findFilter s ci = some fi) : s.HasFilter fi := by
  rw [findFilter, Option.bind_eq_some_iff] at h
  obtain ⟨op, -, h⟩ := h
  exact ⟨_, h⟩

theorem findHandler_registered {ha : Addr} (h : findHandler s ci = some ha) :
    s.HasHandler ha := by
  rw [findHandler, Option.bind_eq_some_iff] at h
  obtain ⟨op, -, h⟩ := h
  exact ⟨_, h⟩

theorem enableSubscription_changes {fi : Addr} {r : State × CMPIStatus × Instance}
    (hfi : s.HasFilter fi) (h : enableSubscription s env ci fi = some r) : Changes s r.1 := by
  unfold enableSubscription at h
  split at h
  · split at h
    · rw [Option.map_eq_some_iff] at h
      obtain ⟨r', hr', rfl⟩ := h
      exact fowardSubscription_changes hfi hr'
    · cases h
      exact .refl
  · rw [Option.map_eq_some_iff] at h
    obtain ⟨r', hr', rfl⟩ := h
    exact fowardSubscription_changes hfi hr'

/-- The subscription is added, the filter is activated, and the subscription is taken
back if that failed. -/
theorem processSubscription_changes {r : State × CMPIStatus × Instance}
    (h : processSubscription s env ci cop = some r) : Changes s r.1 := by
  unfold processSubscription at h
  dsimp only at h
  split at h
  · cases h
    exact .refl
  · next hkey =>
    have hkey : s.subscriptionHt.lookup (normalizeObjectPathCharsDup cop) = none := by
      simpa [getSubscription] using hkey
    split at h
    · cases h
      exact .refl
    · next fi hfind =>
      split at h
      · cases h
        exact .refl
      · next ha hfind' =>
        have hfi := findFilter_registered hfind
        rw [Option.bind_eq_some_iff] at h
        obtain ⟨added, hadded, h⟩ := h
        obtain ⟨f, hd, hf, hh, hsu, hadded⟩ := addSubscription_eq hkey hadded
        have hfirst : Changes s added.1 := by
          rw [hadded]
          exact (Change.addSubscription hkey hfi (findHandler_registered hfind') hf hh).changes
        have hfi' : added.1.HasFilter fi := by
          rw [hadded]
          exact hfi
        rw [Option.bind_eq_some_iff] at h
        obtain ⟨act, hact, h⟩ := h
        -- registered and forwarded; what follows is the rollback or the enabling
        have hsecond := hfirst.trans (fowardSubscription_changes hfi' hact)
        obtain ⟨f', hf', -, hacts⟩ := fowardSubscription_eq hact
        split at h
        · -- the subscription is still the one just added
          rw [Option.map_eq_some_iff] at h
          obtain ⟨s', hs', rfl⟩ := h
          rw [hsu] at hs'
          refine hsecond.trans (removeSubscription_changes ?_ hs')
          rcases hacts with hacts | hacts <;> rw [hacts, hadded] <;> exact AList.lookup_insert _
        · have hfi'' : act.1.HasFilter fi := by
            rcases hacts with hacts | hacts <;> rw [hacts] <;> exact hfi'
          exact hsecond.trans (enableSubscription_changes hfi'' h)

theorem createFilter_changes {r : State × CMPIStatus × Instance × ObjectPath}
    (h : createFilter s env cop ci = some r) : Changes s r.1 := by
  unfold createFilter at h
  dsimp only at h
  -- every exit but the last leaves the state alone
  split at h
  · cases h
    exact .refl
  split at h
  · cases h
    exact .refl
  split at h
  · cases h
    exact .refl
  split at h
  · split at h
    · cases h
      exact .refl
    split at h
    · cases h
      exact .refl
    rw [Option.bind_eq_some_iff] at h
    obtain ⟨sns, -, h⟩ := h
    split at h
    · cases h
      exact .refl
    rw [Option.map_eq_some_iff] at h
    obtain ⟨s', hs', rfl⟩ := h
    exact addFilter_changes hs'
  · cases h
    exact .refl

theorem storeSubscription_changes : Changes s (storeSubscription s env key ci) := by
  unfold storeSubscription
  split
  · exact (Change.store _).changes
  · exact .refl

theorem storeFilter_changes : Changes s (storeFilter s env key ci) := by
  unfold storeFilter
  split
  · exact (Change.store _).changes
  · exact .refl

theorem createInstance_changes {r : State × CMPIStatus}
    (h : createInstance s env cop ci = some r) : Changes s r.1 := by
  unfold createInstance at h
  split at h
  · cases h
    exact .refl
  split at h
  · rw [Option.map_eq_some_iff] at h
    obtain ⟨r', hr', rfl⟩ := h
    have := processSubscription_changes hr'
    split
    · exact this.trans storeSubscription_changes
    · exact this
  · rw [Option.map_eq_some_iff] at h
    obtain ⟨r', hr', rfl⟩ := h
    have := createFilter_changes hr'
    split
    · exact this.trans storeFilter_changes
    · exact this
  · cases h
    exact .refl

theorem switchIndications_changes {optype : OpType}
    (h : switchIndications s env ci optype = some s') :
    Changes s s' ∧ s'.subscriptionHt = s.subscriptionHt := by
  rw [switchIndications, Option.bind_eq_some_iff] at h
  obtain ⟨op, -, h⟩ := h
  rw [Option.bind_eq_some_iff] at h
  obtain ⟨fi, hfi, h⟩ := h
  rw [Option.map_eq_some_iff] at h
  obtain ⟨r, hr, rfl⟩ := h
  refine ⟨fowardSubscription_changes ⟨_, hfi⟩ hr, ?_⟩
  obtain ⟨f, -, -, hs | hs⟩ := fowardSubscription_eq hr <;> rw [hs]

theorem restoreSubscription_changes : Changes s (restoreSubscription s env key ci) := by
  unfold restoreSubscription
  split
  · exact (Change.store _).changes
  · exact .refl

theorem modifyInstance_changes {r : State × CMPIStatus}
    (h : modifyInstance s env cop ci = some r) : Changes s r.1 := by
  unfold modifyInstance at h
  split at h
  · dsimp only at h
    split at h
    · cases h
      exact .refl
    · next su hsu =>
      rw [Option.map_eq_some_iff] at h
      obtain ⟨s₁, hs₁, rfl⟩ := h
      have hswitched : Changes s s₁ ∧ s₁.subscriptionHt = s.subscriptionHt := by
        split at hs₁
        · exact switchIndications_changes hs₁
        · cases hs₁
          exact ⟨.refl, rfl⟩
      have hkey : s₁.subscriptionHt.lookup (normalizeObjectPathCharsDup cop) = some su := by
        rw [hswitched.2]
        exact hsu
      have hreplaced := hswitched.1.trans (@Change.replaceInstance s₁ _ su ci hkey).changes
      split
      · exact hreplaced.trans restoreSubscription_changes
      · exact hreplaced
  · cases h
    exact .refl

theorem unstoreSubscription_changes : Changes s (unstoreSubscription s env key) := by
  unfold unstoreSubscription
  split
  · exact (Change.store _).changes
  · exact .refl

/-- `DeleteInstance` takes a filter away, or does nothing to filters and handlers. -/
theorem deleteInstance_cases {r : State × CMPIStatus} (h : deleteInstance s env cop = some r) :
    Changes s r.1 ∨
    ∃ fi f, kindOf env cop.nameSpace cop.className = .filter ∧
      getFilter s (normalizeObjectPathCharsDup cop) = some fi ∧
      s.filterHt.mem fi = some f ∧ f.useCount = 0 ∧
      r = (unstoreFilter (removeFilter s fi (normalizeObjectPathCharsDup cop)) env
        (normalizeObjectPathCharsDup cop), env.upcall) := by
  unfold deleteInstance at h
  dsimp only at h
  split at h
  · left
    split at h
    · cases h
      exact .refl
    · next su hsu =>
      rw [Option.bind_eq_some_iff] at h
      obtain ⟨f, -, h⟩ := h
      rw [Option.bind_eq_some_iff] at h
      obtain ⟨_, -, h⟩ := h
      rw [Option.map_eq_some_iff] at h
      obtain ⟨s', hs', rfl⟩ := h
      exact (removeSubscription_changes hsu hs').trans unstoreSubscription_changes
  · next hkind =>
    split at h
    · left
      cases h
      exact .refl
    · next fi hfi =>
      rw [Option.map_eq_some_iff] at h
      obtain ⟨f, hf, rfl⟩ := h
      split
      · exact Or.inl .refl
      · next huse => exact Or.inr ⟨fi, f, hkind, hfi, hf, by simpa using huse, rfl⟩
  · left
    cases h
    exact .refl

/-- Each round of a loop is a number of changes, so the loop is. -/
theorem initAll_changes {round : State → Item → Option State}
    (hround : ∀ {s i s'}, round s i = some s' → Changes s s') {items : List Item}
    (h : initAll round s items = some s') : Changes s s' := by
  induction items generalizing s with
  | nil =>
    cases h
    exact .refl
  | cons i items ih =>
    rw [initAll, Option.bind_eq_some_iff] at h
    obtain ⟨s₁, hs₁, h⟩ := h
    exact (hround hs₁).trans (ih h)

theorem initFilter_changes {i : Item} (h : initFilter s i = some s') : Changes s s' := by
  rw [initFilter, Option.bind_eq_some_iff] at h
  obtain ⟨query, -, h⟩ := h
  rw [Option.bind_eq_some_iff] at h
  obtain ⟨lng, -, h⟩ := h
  rw [Option.bind_eq_some_iff] at h
  obtain ⟨sns, -, h⟩ := h
  exact addFilter_changes h

theorem initSubscription_changes {i : Item} (h : initSubscription s i = some s') :
    Changes s s' := by
  rw [initSubscription, Option.map_eq_some_iff] at h
  obtain ⟨r, hr, rfl⟩ := h
  exact processSubscription_changes hr

theorem initInterOp_changes {fs hs subs : List Item} (h : initInterOp s fs hs subs = some s') :
    Changes s s' := by
  rw [initInterOp, Option.bind_eq_some_iff] at h
  obtain ⟨s₁, hs₁, h⟩ := h
  rw [Option.bind_eq_some_iff] at h
  obtain ⟨s₂, hs₂, h⟩ := h
  exact ((initAll_changes initFilter_changes hs₁).trans
    (initAll_changes addHandler_changes hs₂)).trans (initAll_changes initSubscription_changes h)

/-- `_removeHandler` takes a handler away, or does nothing. -/
theorem removeHandlerMethod_cases {op : ObjectPath} {r : State × CMPIStatus}
    (h : removeHandlerMethod s op = some r) :
    r.1 = s ∨
    ∃ ha hd, getHandler s (normalizeObjectPathCharsDup op) = some ha ∧
      s.handlerHt.mem ha = some hd ∧ hd.useCount = 0 ∧
      r.1 = removeHandler s ha (normalizeObjectPathCharsDup op) := by
  unfold removeHandlerMethod at h
  dsimp only at h
  split at h
  · cases h
    exact Or.inl rfl
  · next ha hha =>
    rw [Option.map_eq_some_iff] at h
    obtain ⟨hd, hhd, rfl⟩ := h
    split
    · exact Or.inl rfl
    · next huse => exact Or.inr ⟨ha, hd, hha, hhd, by simpa using huse, rfl⟩

/-- A method does nothing, or what its body does. -/
theorem invokeMethod_cases {ref : ObjectPath} {body : Option (State × CMPIStatus)}
    {r : State × CMPIStatus} (h : invokeMethod s ref body = some r) :
    r = (s, notInterOp) ∨ body = some r := by
  unfold invokeMethod at h
  split at h
  · cases h
    exact Or.inl rfl
  · exact Or.inr h

end Functions

/-- The request takes away the filter at `fi`, which nothing uses. -/
structure DeletesFilter (s : State) (env : Env) (cop : ObjectPath) (fi : Addr) : Prop where
  kind : kindOf env cop.nameSpace cop.className = .filter
  registered : getFilter s (normalizeObjectPathCharsDup cop) = some fi
  unused : ∃ f, s.filterHt.mem fi = some f ∧ f.useCount = 0

/-- Everything an operation can do to the tables. -/
theorem step_cases {s : State} {op : Op} {r : State × CMPIStatus} (h : step s op = some r) :
    Changes s r.1 ∨
    (∃ env cop fi, op = .deleteInstance env cop ∧ DeletesFilter s env cop fi ∧
      r.1 = unstoreFilter (removeFilter s fi (normalizeObjectPathCharsDup cop)) env
        (normalizeObjectPathCharsDup cop)) ∨
    ∃ key ha hd, getHandler s key = some ha ∧ s.handlerHt.mem ha = some hd ∧ hd.useCount = 0 ∧
      r.1 = removeHandler s ha key := by
  cases op with
  | createInstance env cop ci => exact Or.inl (createInstance_changes h)
  | modifyInstance env cop ci => exact Or.inl (modifyInstance_changes h)
  | deleteInstance env cop =>
    rcases deleteInstance_cases h with hchanges | ⟨fi, f, hkind, hfi, hf, huse, rfl⟩
    · exact Or.inl hchanges
    · exact Or.inr (Or.inl ⟨env, cop, fi, rfl, ⟨hkind, hfi, f, hf, huse⟩, rfl⟩)
  | addHandler ref malloc op =>
    left
    rcases invokeMethod_cases h with rfl | hbody
    · exact .refl
    · rw [Option.map_eq_some_iff] at hbody
      obtain ⟨s', hs', rfl⟩ := hbody
      exact addHandler_changes hs'
  | removeHandler ref op =>
    rcases invokeMethod_cases h with rfl | hbody
    · exact Or.inl .refl
    · rcases removeHandlerMethod_cases hbody with hsame | ⟨ha, hd, hha, hhd, huse, hs'⟩
      · rw [hsame]
        exact Or.inl .refl
      · exact Or.inr (Or.inr ⟨_, ha, hd, hha, hhd, huse, hs'⟩)
  | startup ref fs hs subs =>
    left
    rcases invokeMethod_cases h with rfl | hbody
    · exact .refl
    · rw [Option.map_eq_some_iff] at hbody
      obtain ⟨s', hs', rfl⟩ := hbody
      exact initInterOp_changes hs'

end Sfcb.InteropProvider
