import Sfcb.InteropProvider.Changes

/-!
# The use counts of filters and handlers

A filter and a handler count the subscriptions that point to them, and are only removed
when there are none. The counts are changed where a subscription comes or goes, and the
removals are decided elsewhere, so both have to agree over whole runs: `runOps_refCounted`
says that they do, for any sequence of operations with any outcomes, from the start of the
process on, as long as the counts are `int`s: a filter or a handler with `2 ^ 31 - 1`
subscriptions takes no other one (`addSubscription_isSome_iff`).
-/

namespace Sfcb.InteropProvider

open Sfcb.Lib Sfcb.Cmpi

/-- The number of registered subscriptions of a filter. -/
def filterUses (s : State) (fi : Addr) : Nat :=
  Table.count (fun su : Subscription => decide (su.fi = fi)) s.subscriptionHt

/-- The number of registered subscriptions with a handler. -/
def handlerUses (s : State) (ha : Addr) : Nat :=
  Table.count (fun su : Subscription => decide (su.ha = ha)) s.subscriptionHt

/-- What is asked of the tables: the counts are right, and what a registered subscription
points to is registered. -/
structure RefCounted (s : State) : Prop where
  filters : ∀ key fi, getFilter s key = some fi →
    ∃ f, s.filterHt.mem fi = some f ∧ f.useCount = filterUses s fi
  handlers : ∀ key ha, getHandler s key = some ha →
    ∃ h, s.handlerHt.mem ha = some h ∧ h.useCount = handlerUses s ha
  subscriptions : ∀ key su, getSubscription s key = some su →
    s.HasFilter su.fi ∧ s.HasHandler su.ha

/-- A filter or handler that an operation takes away is used by no subscription. -/
structure RemovesUnused (s s' : State) : Prop where
  filters : ∀ key fi, getFilter s key = some fi → getFilter s' key ≠ some fi →
    ∀ key' su, getSubscription s key' = some su → su.fi ≠ fi
  handlers : ∀ key ha, getHandler s key = some ha → getHandler s' key ≠ some ha →
    ∀ key' su, getSubscription s key' = some su → su.ha ≠ ha

/-! ## The invariant -/

/-- The counts of both pools are right, and nothing points outside them. -/
structure Consistent (s : State) : Prop where
  filters : s.filterHt.Counted Filter.useCount (filterUses s)
  handlers : s.handlerHt.Counted Handler.useCount (handlerUses s)
  fi : ∀ key su, getSubscription s key = some su → s.HasFilter su.fi
  ha : ∀ key su, getSubscription s key = some su → s.HasHandler su.ha

theorem Consistent.refCounted {s : State} (h : Consistent s) : RefCounted s :=
  ⟨h.filters.counts, h.handlers.counts, fun key su hsu => ⟨h.fi key su hsu, h.ha key su hsu⟩⟩

theorem boot_consistent (repository : Repository) : Consistent (.boot repository) := by
  refine ⟨.empty, .empty, fun _ _ h => ?_, fun _ _ h => ?_⟩ <;> cases h

section Change

variable {s s' : State}

/-- An address that is free is used by nobody. -/
theorem Consistent.filterUses_free {a : Addr} (h : Consistent s) (ha : s.filterHt.mem a = none) :
    filterUses s a = 0 := by
  apply Table.count_eq_zero_iff.mpr
  intro key su hsu
  obtain ⟨key', hkey'⟩ := h.fi key su hsu
  apply decide_eq_false
  rintro rfl
  exact h.filters.unnamed ha key' hkey'

theorem Consistent.handlerUses_free {a : Addr} (h : Consistent s)
    (ha : s.handlerHt.mem a = none) : handlerUses s a = 0 := by
  apply Table.count_eq_zero_iff.mpr
  intro key su hsu
  obtain ⟨key', hkey'⟩ := h.ha key su hsu
  apply decide_eq_false
  rintro rfl
  exact h.handlers.unnamed ha key' hkey'

/-- The subscriptions of the new table are the old ones and the new one. -/
theorem insert_cases {t : Table Key Subscription} {key key' : Key} {su su' : Subscription}
    (h : (t.insert key su).lookup key' = some su') : su' = su ∨ t.lookup key' = some su' := by
  by_cases hkey : key' = key
  · rw [hkey, AList.lookup_insert] at h
    exact Or.inl (Option.some.inj h).symm
  · rw [AList.lookup_insert_ne hkey] at h
    exact Or.inr h

/-- The subscriptions that are left were there before. -/
theorem erase_cases {t : Table Key Subscription} {key key' : Key} {su : Subscription}
    (h : (t.erase key).lookup key' = some su) : t.lookup key' = some su := by
  by_cases hkey : key' = key
  · rw [hkey, AList.lookup_erase] at h
    cases h
  · rw [AList.lookup_erase_ne hkey] at h
    exact h

/-- The counts change where the subscriptions do, and only there. -/
theorem Consistent.change (h : Consistent s) (hchange : Change s s') : Consistent s' := by
  -- what is registered stays so, whatever the change is
  have hfi : ∀ {su : Subscription}, s.HasFilter su.fi → s'.HasFilter su.fi :=
    fun ⟨key, hkey⟩ => ⟨key, hchange.getFilter hkey⟩
  have hha : ∀ {su : Subscription}, s.HasHandler su.ha → s'.HasHandler su.ha :=
    fun ⟨key, hkey⟩ => ⟨key, hchange.getHandler hkey⟩
  cases hchange with
  | addFilter hkey hfree =>
    refine ⟨h.filters.add hfree ?_, h.handlers, fun key su hsu => hfi (h.fi key su hsu), h.ha⟩
    rw [h.filterUses_free hfree]
    rfl
  | addHandler hkey hfree =>
    refine ⟨h.filters, h.handlers.add hfree ?_, h.fi, fun key su hsu => hha (h.ha key su hsu)⟩
    rw [h.handlerUses_free hfree]
    rfl
  | @addSubscription ci key fi ha f hd hkey hregfi hregha hf hh =>
    have hnew : key ∉ s.subscriptionHt := AList.lookup_eq_none.mp hkey
    refine ⟨h.filters.store hf (fun b hb => ?_) (fun hcount => ?_),
      h.handlers.store hh (fun b hb => ?_) (fun hcount => ?_), fun key' su hsu => ?_,
      fun key' su hsu => ?_⟩
    · rw [filterUses, Table.count_insert hnew, if_neg (by simpa using fun he => hb he.symm)]
      rfl
    · rw [filterUses, Table.count_insert hnew, if_pos (by simp)]
      dsimp only
      rw [hcount]
      rfl
    · rw [handlerUses, Table.count_insert hnew, if_neg (by simpa using fun he => hb he.symm)]
      rfl
    · rw [handlerUses, Table.count_insert hnew, if_pos (by simp)]
      dsimp only
      rw [hcount]
      rfl
    · rcases insert_cases hsu with rfl | hold
      · exact hregfi
      · exact h.fi key' su hold
    · rcases insert_cases hsu with rfl | hold
      · exact hregha
      · exact h.ha key' su hold
  | @removeSubscription key su f hd hkey hf hh =>
    have hfilters := fun b => Table.count_erase hkey fun su : Subscription => decide (su.fi = b)
    have hhandlers := fun b => Table.count_erase hkey fun su : Subscription => decide (su.ha = b)
    refine ⟨h.filters.store hf (fun b hb => ?_) (fun hcount => ?_),
      h.handlers.store hh (fun b hb => ?_) (fun hcount => ?_),
      fun key' su' hsu => h.fi key' su' (erase_cases hsu),
      fun key' su' hsu => h.ha key' su' (erase_cases hsu)⟩
    · have := hfilters b
      rw [if_neg (by simpa using fun he => hb he.symm)] at this
      exact this
    · have := hfilters su.fi
      rw [if_pos (by simp)] at this
      simp only [filterUses] at hcount ⊢
      omega
    · have := hhandlers b
      rw [if_neg (by simpa using fun he => hb he.symm)] at this
      exact this
    · have := hhandlers su.ha
      rw [if_pos (by simp)] at this
      simp only [handlerUses] at hcount ⊢
      omega
  | @replaceInstance key su ci hkey =>
    refine ⟨h.filters.congr fun b => Table.count_replaced hkey rfl,
      h.handlers.congr fun b => Table.count_replaced hkey rfl, fun key' su' hsu => ?_,
      fun key' su' hsu => ?_⟩
    · rcases insert_cases hsu with rfl | hold
      · exact h.fi key su hkey
      · exact h.fi key' su' hold
    · rcases insert_cases hsu with rfl | hold
      · exact h.ha key su hkey
      · exact h.ha key' su' hold
  | activate | store => exact ⟨h.filters, h.handlers, h.fi, h.ha⟩

theorem Consistent.changes (h : Consistent s) (hchanges : Changes s s') : Consistent s' := by
  induction hchanges with
  | refl => exact h
  | tail _ hlast ih => exact ih.change hlast

/-- A filter whose count is zero has no subscription. -/
theorem Consistent.filter_unused {key : Key} {fi : Addr} {f : Filter} (h : Consistent s)
    (hkey : getFilter s key = some fi) (hf : s.filterHt.mem fi = some f) (huse : f.useCount = 0)
    {key' : Key} {su : Subscription} (hsu : getSubscription s key' = some su) : su.fi ≠ fi := by
  obtain ⟨f', hf', hcount⟩ := h.filters.counts key fi hkey
  rw [hf] at hf'
  cases hf'
  rw [huse] at hcount
  have hzero : filterUses s fi = 0 := (Int.ofNat_inj.mp hcount).symm
  exact of_decide_eq_false (Table.count_eq_zero_iff.mp hzero key' su hsu)

theorem Consistent.handler_unused {key : Key} {ha : Addr} {hd : Handler} (h : Consistent s)
    (hkey : getHandler s key = some ha) (hh : s.handlerHt.mem ha = some hd)
    (huse : hd.useCount = 0) {key' : Key} {su : Subscription}
    (hsu : getSubscription s key' = some su) : su.ha ≠ ha := by
  obtain ⟨hd', hh', hcount⟩ := h.handlers.counts key ha hkey
  rw [hh] at hh'
  cases hh'
  rw [huse] at hcount
  have hzero : handlerUses s ha = 0 := (Int.ofNat_inj.mp hcount).symm
  exact of_decide_eq_false (Table.count_eq_zero_iff.mp hzero key' su hsu)

/-- The tables without a filter that nothing uses. -/
theorem Consistent.removeFilter {key : Key} {fi : Addr} {f : Filter} (h : Consistent s)
    (hkey : getFilter s key = some fi) (hf : s.filterHt.mem fi = some f)
    (huse : f.useCount = 0) : Consistent (removeFilter s fi key) := by
  refine ⟨h.filters.remove hkey, h.handlers, fun key' su hsu => ?_, h.ha⟩
  obtain ⟨name, hname⟩ := h.fi key' su hsu
  have hne : name ≠ key := by
    rintro rfl
    rw [hkey] at hname
    exact h.filter_unused hkey hf huse hsu (Option.some.inj hname).symm
  exact ⟨name, (Pool.get_remove_of_ne hne).trans hname⟩

/-- The tables without a handler that nothing uses. -/
theorem Consistent.removeHandler {key : Key} {ha : Addr} {hd : Handler} (h : Consistent s)
    (hkey : getHandler s key = some ha) (hh : s.handlerHt.mem ha = some hd)
    (huse : hd.useCount = 0) : Consistent (removeHandler s ha key) := by
  refine ⟨h.filters, h.handlers.remove hkey, h.fi, fun key' su hsu => ?_⟩
  obtain ⟨name, hname⟩ := h.ha key' su hsu
  have hne : name ≠ key := by
    rintro rfl
    rw [hkey] at hname
    exact h.handler_unused hkey hh huse hsu (Option.some.inj hname).symm
  exact ⟨name, (Pool.get_remove_of_ne hne).trans hname⟩

theorem unstoreFilter_changes {env : Env} {key : Key} : Changes s (unstoreFilter s env key) := by
  unfold unstoreFilter
  split
  · exact (Change.store _).changes
  · exact .refl

/-- One operation keeps the tables consistent. -/
theorem Consistent.step {op : Op} {r : State × CMPIStatus} (h : Consistent s)
    (hstep : step s op = some r) : Consistent r.1 := by
  rcases step_cases hstep with hchanges | ⟨env, cop, fi, -, hdel, hs'⟩ |
    ⟨key, ha, hd, hkey, hh, huse, hs'⟩
  · exact h.changes hchanges
  · obtain ⟨f, hf, huse⟩ := hdel.unused
    rw [hs']
    exact (h.removeFilter hdel.registered hf huse).changes unstoreFilter_changes
  · rw [hs']
    exact h.removeHandler hkey hh huse

/-- A key whose filter is gone is the one that was removed. -/
theorem removeFilter_getFilter {key key' : Key} {fi : Addr} (hne : key' ≠ key) :
    getFilter (removeFilter s fi key) key' = getFilter s key' := Pool.get_remove_of_ne hne

/-- One operation takes away only what nothing uses. -/
theorem Consistent.removesUnused {op : Op} {r : State × CMPIStatus} (h : Consistent s)
    (hstep : InteropProvider.step s op = some r) : RemovesUnused s r.1 := by
  rcases step_cases hstep with hchanges | ⟨env, cop, fi, -, hdel, hs'⟩ |
    ⟨key, ha, hd, hkey, hh, huse, hs'⟩
  · exact ⟨fun _ _ hkey hgone => absurd (hchanges.getFilter hkey) hgone,
      fun _ _ hkey hgone => absurd (hchanges.getHandler hkey) hgone⟩
  · obtain ⟨f, hf, huse⟩ := hdel.unused
    rw [hs']
    refine ⟨fun key' fi' hkey' hgone key'' su hsu => ?_, fun key' ha hkey' hgone => ?_⟩
    · by_cases hsame : key' = normalizeObjectPathCharsDup cop
      · rw [hsame, hdel.registered] at hkey'
        cases hkey'
        exact h.filter_unused hdel.registered hf huse hsu
      · exact absurd (unstoreFilter_changes.getFilter
          ((removeFilter_getFilter hsame).trans hkey')) hgone
    · have hkept : getHandler (InteropProvider.removeFilter s fi (normalizeObjectPathCharsDup cop))
          key' = some ha := hkey'
      exact absurd (unstoreFilter_changes.getHandler hkept) hgone
  · rw [hs']
    refine ⟨fun key' fi hkey' hgone => absurd hkey' hgone, fun key' ha' hkey' hgone key'' su hsu => ?_⟩
    by_cases hsame : key' = key
    · rw [hsame, hkey] at hkey'
      cases hkey'
      exact h.handler_unused hkey hh huse hsu
    · exact absurd ((Pool.get_remove_of_ne hsame).trans hkey') hgone

end Change

theorem Consistent.runOps {s s' : State} {ops : List Op} (h : Consistent s)
    (hrun : runOps s ops = some s') : Consistent s' := by
  induction ops generalizing s with
  | nil =>
    cases hrun
    exact h
  | cons op ops ih =>
    rw [InteropProvider.runOps, Option.bind_eq_some_iff] at hrun
    obtain ⟨r, hr, hrun⟩ := hrun
    exact ih (h.step hr) hrun

/-- There is room for one more use in both counts, or the next state is not there. -/
theorem addSubscription_isSome_iff {s : State} {ci : Instance} {key : Key} {fi ha : Addr}
    (h : Consistent s) (hkey : getSubscription s key = none) (hfi : s.HasFilter fi)
    (hha : s.HasHandler ha) :
    (addSubscription s ci key fi ha).isSome = true ↔
      filterUses s fi < 2 ^ 31 - 1 ∧ handlerUses s ha < 2 ^ 31 - 1 := by
  obtain ⟨name, hname⟩ := hfi
  obtain ⟨f, hf, hcount⟩ := h.filters.counts name fi hname
  obtain ⟨name', hname'⟩ := hha
  obtain ⟨hd, hh, hcount'⟩ := h.handlers.counts name' ha hname'
  have hadd : ∀ n : Nat, (addInt n 1).isSome = true ↔ n < 2 ^ 31 - 1 := by
    intro n
    unfold addInt
    split
    · exact iff_of_true rfl (by omega)
    · exact iff_of_false (by simp) (by omega)
  have hnew : (s.subscriptionHt.lookup key).isSome = false := by
    rw [← getSubscription, hkey, Option.isSome_none]
  rw [addSubscription, if_neg (by simp [hnew]), ← hadd, ← hadd, ← hcount, ← hcount']
  simp only [addFilterUse, hf, Option.bind_some]
  cases addInt f.useCount 1 with
  | none => simp
  | some n => simp [addHandlerUse, hh]

/-- After any sequence of operations with any outcomes the counts are right and what a
subscription points to is registered, the next operation, whichever it is, takes away only
what no subscription uses, and a new subscription is counted exactly if neither count is the
last `int`. -/
theorem runOps_refCounted {repository : Repository} {ops : List Op} {s : State}
    (hrun : runOps (.boot repository) ops = some s) :
    RefCounted s ∧ (∀ op r, step s op = some r → RemovesUnused s r.1) ∧
    ∀ ci key fi ha, getSubscription s key = none → s.HasFilter fi → s.HasHandler ha →
      ((addSubscription s ci key fi ha).isSome = true ↔
        filterUses s fi < 2 ^ 31 - 1 ∧ handlerUses s ha < 2 ^ 31 - 1) := by
  have h := (boot_consistent repository).runOps hrun
  exact ⟨h.refCounted, fun op r hstep => h.removesUnused hstep,
    fun ci key fi ha hkey hfi hha => addSubscription_isSome_iff h hkey hfi hha⟩

/-- A handler, a filter and a subscription come; the filter cannot go then. -/
def sampleOps : List Op :=
  [.addHandler handlerPath 1 handlerPath, .createInstance goodEnv filterPath sampleInstance,
    .createInstance goodEnv subscriptionPath sampleInstance, .deleteInstance goodEnv filterPath]

theorem sampleOps_refCounted :
    ∃ s, runOps (.boot ⟨∅, ∅⟩) sampleOps = some s ∧ filterUses s 1 = 1 ∧ RefCounted s := by
  have huses : (runOps (.boot ⟨∅, ∅⟩) sampleOps).map (filterUses · 1) = some 1 := by decide
  obtain ⟨s, hs, huse⟩ := Option.map_eq_some_iff.mp huses
  exact ⟨s, hs, huse, (runOps_refCounted hs).1⟩

/-! ## The last count -/

/-- The path of the `n`-th subscription. -/
def countedPath (n : Nat) : ObjectPath :=
  ⟨lit "root/interop", lit "CIM_IndicationSubscription", [(lit "Name", List.replicate n 97)]⟩

/-- One more subscription of the filter, with the handler. -/
def subscribe (n : Nat) : Op := .createInstance goodEnv (countedPath n) sampleInstance

theorem countedPath_injective {m n : Nat}
    (h : normalizeObjectPathCharsDup (countedPath m) = normalizeObjectPathCharsDup (countedPath n)) :
    m = n := by
  have hkey : ∀ k, normalizeObjectPathCharsDup (countedPath k) =
      fold (lit "Name") ++ lit "=" ++ List.replicate k 97 := by
    intro k
    simp [normalizeObjectPathCharsDup, countedPath, keyText]
  rw [hkey, hkey] at h
  simpa using congrArg List.length h

/-- A filter and a handler with `n` subscriptions. -/
structure Subscribed (n : Nat) (s : State) : Prop where
  filter : getFilter s (normalizeObjectPathCharsDup filterPath) = some 1
  handler : getHandler s (normalizeObjectPathCharsDup handlerPath) = some 1
  query : ∃ f, s.filterHt.mem 1 = some f ∧ f.useCount = n ∧ f.sns = lit "root/cimv2" ∧
    f.qs.fClasses = [lit "CIM_InstCreation"]
  uses : ∃ hd, s.handlerHt.mem 1 = some hd ∧ hd.useCount = n
  later : ∀ m, n ≤ m → s.subscriptionHt.lookup (normalizeObjectPathCharsDup (countedPath m)) = none
  count : filterUses s 1 = n

section Subscribed

variable {n : Nat} {s : State}

/-- What is registered, and how often it is used, does not depend on the rest. -/
theorem Subscribed.congr (h : Subscribed n s) (active : List FilterId) (repository : Repository) :
    Subscribed n { s with active, repository } :=
  ⟨h.filter, h.handler, h.query, h.uses, h.later, h.count⟩

/-- The request to register one more. -/
theorem Subscribed.subscribe_eq (h : Subscribed n s) :
    step s (subscribe n) =
      ((addSubscription s sampleInstance (normalizeObjectPathCharsDup (countedPath n)) 1 1).bind
        fun added => (fowardSubscription added.1 goodEnv 1 .activateFilter).bind fun act =>
          if act.2.rc ≠ .OK then
            (removeSubscription act.1 added.2 (normalizeObjectPathCharsDup (countedPath n))).map
              fun s => (s, act.2, sampleInstance)
          else enableSubscription act.1 goodEnv sampleInstance 1).map fun r =>
        if r.2.1.rc = .OK then
          (storeSubscription r.1 goodEnv (normalizeObjectPathCharsDup (countedPath n)) r.2.2,
            goodEnv.upcall)
        else (r.1, r.2.1) := by
  have hfind : findFilter s sampleInstance = some 1 := h.filter
  have hfind' : findHandler s sampleInstance = some 1 := h.handler
  have hprocess : step s (subscribe n) =
      (processSubscription s goodEnv sampleInstance (countedPath n)).map fun r =>
        if r.2.1.rc = .OK then
          (storeSubscription r.1 goodEnv (normalizeObjectPathCharsDup (countedPath n)) r.2.2,
            goodEnv.upcall)
        else (r.1, r.2.1) := rfl
  rw [hprocess, processSubscription, getSubscription]
  simp only [h.later n (Nat.le_refl n), hfind, hfind']
  rfl

/-- It is counted in both places, -/
theorem Subscribed.added (h : Subscribed n s) (hsmall : n + 1 < 2 ^ 31) :
    ∃ s' su, addSubscription s sampleInstance (normalizeObjectPathCharsDup (countedPath n)) 1 1 =
      some (s', some su) ∧ Subscribed (n + 1) s' := by
  obtain ⟨f, hf, hcount, hsns, hqs⟩ := h.query
  obtain ⟨hd, hh, hcount'⟩ := h.uses
  have hkey := h.later n (Nat.le_refl n)
  have hnew := AList.lookup_eq_none.mp hkey
  have hone : addInt n 1 = some ((n + 1 : Nat) : Int) := addInt_eq_some.mpr ⟨by omega, by omega⟩
  rw [addSubscription, hkey, if_neg (by simp)]
  simp only [addFilterUse, addHandlerUse, hf, hh, hcount, hcount', hone, Option.bind_some,
    Option.map_some]
  refine ⟨_, _, rfl, h.filter, h.handler, ⟨_, Pool.mem_store_self, rfl, hsns, hqs⟩,
    ⟨_, Pool.mem_store_self, rfl⟩, fun m hm => ?_, ?_⟩
  · refine (AList.lookup_insert_ne fun heq => ?_).trans (h.later m (by omega))
    have := countedPath_injective heq
    omega
  · have hcount : filterUses s 1 = n := h.count
    rw [filterUses, Table.count_insert hnew, if_pos (by simp)]
    exact congrArg (· + 1) hcount

/-- or there is no count for it. -/
theorem Subscribed.full (h : Subscribed n s) (hlarge : 2 ^ 31 ≤ n + 1) :
    addSubscription s sampleInstance (normalizeObjectPathCharsDup (countedPath n)) 1 1 = none := by
  obtain ⟨f, hf, hcount, -⟩ := h.query
  rw [addSubscription, h.later n (Nat.le_refl n), if_neg (by simp)]
  have hone : addInt n 1 = none := if_neg (by omega)
  simp only [addFilterUse, hf, hcount, hone, Option.bind_some, Option.map_none, Option.bind_none]

/-- A request to the provider of the filter succeeds and leaves the tables alone. -/
theorem Subscribed.forward (h : Subscribed n s) (optype : OpType) :
    ∃ active, fowardSubscription s goodEnv 1 optype = some ({ s with active }, .ok) := by
  obtain ⟨f, hf, -, hsns, hqs⟩ := h.query
  have hok : forwarded goodEnv f optype = .ok := by
    rw [forwarded, hsns, hqs]
    cases optype <;> rfl
  unfold fowardSubscription
  rw [hf, Option.map_some, hok]
  exact ⟨_, rfl⟩

theorem Subscribed.step (h : Subscribed n s) (hsmall : n + 1 < 2 ^ 31) :
    ∃ r, InteropProvider.step s (subscribe n) = some r ∧ Subscribed (n + 1) r.1 := by
  obtain ⟨s₁, su, hadd, h₁⟩ := h.added hsmall
  obtain ⟨active, hact⟩ := h₁.forward .activateFilter
  have h₂ := h₁.congr active s₁.repository
  obtain ⟨active', henable⟩ := h₂.forward .enableIndications
  rw [h.subscribe_eq, hadd, Option.bind_some, hact, Option.bind_some, if_neg fun hne => hne rfl,
    enableSubscription]
  simp only [sampleInstance, if_true, henable, Option.map_some]
  exact ⟨_, rfl, h₂.congr active' _⟩

end Subscribed

/-- A handler, a filter, and `n` subscriptions. -/
def manyOps (n : Nat) : List Op :=
  [.addHandler handlerPath 1 handlerPath, .createInstance goodEnv filterPath sampleInstance] ++
    (List.range n).map subscribe

theorem runOps_append (s : State) (ops ops' : List Op) :
    runOps s (ops ++ ops') = (runOps s ops).bind fun s => runOps s ops' := by
  induction ops generalizing s with
  | nil => rfl
  | cons op ops ih =>
    rw [List.cons_append, runOps, runOps]
    cases InteropProvider.step s op with
    | none => rfl
    | some r => exact ih r.1

theorem manyOps_subscribed {n : Nat} (h : n < 2 ^ 31) :
    ∃ s, runOps (.boot ⟨∅, ∅⟩) (manyOps n) = some s ∧ Subscribed n s := by
  induction n with
  | zero =>
    have hrun : (runOps (.boot ⟨∅, ∅⟩) (manyOps 0)).map (fun s =>
        (getFilter s (normalizeObjectPathCharsDup filterPath),
          getHandler s (normalizeObjectPathCharsDup handlerPath),
          (s.filterHt.mem 1).map fun f => (f.useCount, f.sns, f.qs.fClasses),
          (s.handlerHt.mem 1).map (·.useCount), s.subscriptionHt.entries.length)) =
        some (some 1, some 1, some (0, lit "root/cimv2", [lit "CIM_InstCreation"]), some 0, 0) := rfl
    obtain ⟨s, hs, heq⟩ := Option.map_eq_some_iff.mp hrun
    simp only [Prod.mk.injEq, Option.map_eq_some_iff, List.length_eq_zero_iff] at heq
    obtain ⟨hfilter, hhandler, ⟨f, hf, hcount, hsns, hqs⟩, ⟨hd, hh, hcount'⟩, hnone⟩ := heq
    refine ⟨s, hs, hfilter, hhandler, ⟨f, hf, hcount, hsns, hqs⟩, ⟨hd, hh, hcount'⟩,
      fun m _ => ?_, ?_⟩
    · rw [AList.lookup, hnone]
      rfl
    · rw [filterUses, Table.count, hnone]
      rfl
  | succ n ih =>
    obtain ⟨s, hs, hsub⟩ := ih (by omega)
    obtain ⟨r, hr, hnext⟩ := hsub.step h
    refine ⟨r.1, ?_, hnext⟩
    rw [manyOps, List.range_succ, List.map_append, ← List.append_assoc, runOps_append]
    rw [manyOps] at hs
    rw [hs]
    simp [runOps, hr]

/-- A filter with `2 ^ 31 - 1` subscriptions cannot count another one. -/
theorem not_runOps_refCounted :
    ∃ s, runOps (.boot ⟨∅, ∅⟩) (manyOps (2 ^ 31 - 1)) = some s ∧ filterUses s 1 = 2 ^ 31 - 1 ∧
      ¬ (∃ r, step s (subscribe (2 ^ 31 - 1)) = some r ∧ RefCounted r.1) := by
  obtain ⟨s, hs, h⟩ := manyOps_subscribed (n := 2 ^ 31 - 1) (by decide)
  refine ⟨s, hs, h.count, fun ⟨r, hr, _⟩ => ?_⟩
  rw [h.subscribe_eq, h.full (by decide)] at hr
  cases hr

end Sfcb.InteropProvider
