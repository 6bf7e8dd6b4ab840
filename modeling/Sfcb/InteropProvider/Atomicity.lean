import Sfcb.InteropProvider.Changes

/-!
# Whole requests or none

A request to create, modify or delete should leave tables and repository alone when it
returns an error, and in agreement when it returns OK. The code changes its tables first
and asks the internal provider afterwards, and it takes a change back in one place only:
when a filter cannot be activated for a new subscription. `step_atomic_iff` says exactly
which requests meet this, and `runOps_atomic` that in a run of such requests, from a
startup that finds what is stored, all of them do.
-/

namespace Sfcb.InteropProvider

open Sfcb.Lib Sfcb.Cmpi

/-- The three tables and the repository are as before. -/
structure Unchanged (s s' : State) : Prop where
  filters : s'.filterHt = s.filterHt
  handlers : s'.handlerHt = s.handlerHt
  subscriptions : ∀ key, getSubscription s' key = getSubscription s key
  repository : s'.repository = s.repository

/-- The tables and the repository have the same filters and subscriptions. -/
structure Agree (s : State) : Prop where
  filters : ∀ key, key ∈ s.filterHt.table ↔ key ∈ s.repository.filters
  subscriptions : ∀ key, key ∈ s.subscriptionHt ↔ key ∈ s.repository.subscriptions

/-- What is asked of a request that returns. -/
structure Atomic (s : State) (r : State × CMPIStatus) : Prop where
  error : r.2.rc ≠ .OK → Unchanged s r.1
  ok : r.2.rc = .OK → Agree r.1

/-- The requests this is asked of. -/
def Op.isRequest : Op → Bool
  | .createInstance .. | .modifyInstance .. | .deleteInstance .. => true
  | _ => false

/-- Every request of a run is atomic. -/
def AllAtomic : State → List Op → Prop
  | _, [] => True
  | s, op :: ops => ∀ r, step s op = some r → (op.isRequest = true → Atomic s r) ∧ AllAtomic r.1 ops

/-! ## The condition -/

/-- A new subscription that is registered: its filter `f` and its handler are found, and
the filter is activated. -/
structure Registers (s : State) (env : Env) (cop : ObjectPath) (ci : Instance) (f : Filter) :
    Prop where
  new : getSubscription s (normalizeObjectPathCharsDup cop) = none
  filter : ∃ fi, findFilter s ci = some fi ∧ s.filterHt.mem fi = some f
  handler : ∃ ha, findHandler s ci = some ha
  activated : (forwarded env f .activateFilter).rc = .OK

/-- The subscription is to be enabled, by its state or for want of one. -/
def wantsEnabled (ci : Instance) : Bool :=
  match ci.subscriptionState with
  | .value v => v = 2
  | _ => true

/-- A new filter that is registered: it passes all the checks. -/
structure AcceptsFilter (s : State) (env : Env) (cop : ObjectPath) (ci : Instance) : Prop where
  creationClassName : ci.creationClassName.get ≠ none
  systemCreationClassName : ci.systemCreationClassName.get ≠ none
  individual : ¬ (ci.individualSubscriptionSupported.rc = .OK ∧
    ci.individualSubscriptionSupported.get ≠ some true)
  new : getFilter s (normalizeObjectPathCharsDup (fillIn env ci cop).2) = none
  query : ∃ lang query sns, ci.queryLanguage.get = some lang ∧ ci.query.get = some query ∧
    (fillIn env ci cop).1.sourceNamespace.get = some sns ∧
    ¬ (strcasecmp (trimLanguage lang) (lit "wql") ≠ 0 ∧
      strcasecmp (trimLanguage lang) (lit "cql") ≠ 0 ∧
      strcasecmp (trimLanguage lang) (lit "cim:cql") ≠ 0) ∧
    (env.parseQuery query (trimLanguage lang) sns).2 = 0

/-- Once a subscription is registered it can be enabled and stored, and once a filter is
registered it has a `SystemName` property and can be stored. -/
structure MeetsCreate (s : State) (env : Env) (cop : ObjectPath) (ci : Instance) : Prop where
  subscription : kindOf env cop.nameSpace cop.className = .subscription →
    ∀ f, Registers s env cop ci f →
      (wantsEnabled ci = true → (forwarded env f .enableIndications).rc = .OK) ∧
        env.upcall.rc = .OK
  filter : kindOf env cop.nameSpace cop.className = .filter → AcceptsFilter s env cop ci →
    ci.systemName ≠ .absent ∧ env.upcall.rc = .OK

/-- The new instance has a `SubscriptionState` property and can be stored, or it is the
old one. -/
def MeetsModify (s : State) (env : Env) (cop : ObjectPath) (ci : Instance) : Prop :=
  kindOf env (lit "root/interop") cop.className = .subscription →
    ∀ su, getSubscription s (normalizeObjectPathCharsDup cop) = some su →
      (ci.subscriptionState ≠ .absent ∧ env.upcall.rc = .OK) ∨ su.sci = ci

/-- What is taken out of the tables can be deleted from the repository. -/
structure MeetsDelete (s : State) (env : Env) (cop : ObjectPath) : Prop where
  subscription : kindOf env cop.nameSpace cop.className = .subscription →
    ∀ su, getSubscription s (normalizeObjectPathCharsDup cop) = some su → env.upcall.rc = .OK
  filter : ∀ fi, DeletesFilter s env cop fi → env.upcall.rc = .OK

/-- Every stored subscription that is not there yet is registered when its turn comes. -/
def AllRegister : State → List Item → Prop
  | _, [] => True
  | s, i :: items =>
    ((∃ su, getSubscription s i.key = some su) ∨ ∃ f, Registers s i.env i.cop i.ci f) ∧
      ∀ s', initSubscription s i = some s' → AllRegister s' items

/-- The enumerations of a startup come up with what is stored, and the subscriptions can
be registered. -/
structure MeetsStartup (s : State) (ref : ObjectPath) (fs hs subs : List Item) : Prop where
  interOp : interOpNameSpace ref = true
  filters : ∀ key, key ∈ s.repository.filters ↔ ∃ i ∈ fs, i.key = key
  subscriptions : ∀ key, key ∈ s.repository.subscriptions ↔ ∃ i ∈ subs, i.key = key
  register : ∀ s₁ s₂, initAll initFilter s fs = some s₁ → initAll initHandler s₁ hs = some s₂ →
    AllRegister s₂ subs

/-- What an operation must meet. -/
def Meets (s : State) : Op → Prop
  | .createInstance env cop ci => interOpNameSpace cop = true → MeetsCreate s env cop ci
  | .modifyInstance env cop ci => MeetsModify s env cop ci
  | .deleteInstance env cop => MeetsDelete s env cop
  | .startup ref fs hs subs => MeetsStartup s ref fs hs subs
  | _ => True

/-- Every operation of a run meets its condition. -/
def AllMeet : State → List Op → Prop
  | _, [] => True
  | s, op :: ops => Meets s op ∧ ∀ r, step s op = some r → AllMeet r.1 ops

/-! ## What the functions do, by what they return -/

theorem Unchanged.refl (s : State) : Unchanged s s := ⟨rfl, rfl, fun _ => rfl, rfl⟩

/-- A subscription table that answers the same has the same keys. -/
theorem Unchanged.mem_subscriptionHt {s s' : State} (h : Unchanged s s') (key : Key) :
    key ∈ s'.subscriptionHt ↔ key ∈ s.subscriptionHt := by
  rw [← AList.lookup_isSome, ← AList.lookup_isSome]
  exact iff_of_eq (congrArg (fun o : Option Subscription => o.isSome = true)
    (h.subscriptions key))

theorem Unchanged.agree {s s' : State} (h : Unchanged s s') (hagree : Agree s) : Agree s' := by
  refine ⟨fun key => ?_, fun key => ?_⟩
  · rw [h.filters, h.repository]
    exact hagree.filters key
  · rw [h.mem_subscriptionHt, h.repository]
    exact hagree.subscriptions key

/-- A refused request is atomic. -/
theorem atomic_refused {s : State} {st : CMPIStatus} (h : st.rc ≠ .OK) : Atomic s (s, st) :=
  ⟨fun _ => .refl s, fun hok => absurd hok h⟩

/-- A request that returns an error and changed something is not atomic. -/
theorem not_atomic_of_changed {s : State} {r : State × CMPIStatus} (herr : r.2.rc ≠ .OK)
    (hchanged : ¬ Unchanged s r.1) : ¬ Atomic s r := fun h => hchanged (h.error herr)

section Functions

variable {s s' : State} {env : Env} {ci : Instance} {cop : ObjectPath}

/-- A subscription that comes and goes leaves everything as it was. -/
theorem rollback_unchanged {key : Key} {fi ha : Addr} {f : Filter} {hd : Handler}
    {active : List FilterId} (hkey : s.subscriptionHt.lookup key = none)
    (hf : s.filterHt.mem fi = some f) (hh : s.handlerHt.mem ha = some hd)
    (h : removeSubscription { s with
        filterHt := s.filterHt.store fi { f with useCount := f.useCount + 1 }
        handlerHt := s.handlerHt.store ha { hd with useCount := hd.useCount + 1 }
        subscriptionHt := s.subscriptionHt.insert key ⟨ci, fi, ha⟩
        active := active } (some ⟨ci, fi, ha⟩) key = some s') : Unchanged s s' := by
  obtain ⟨f', hd', hf', hh', rfl⟩ := removeSubscription_eq h
  rw [Pool.mem_store_self] at hf' hh'
  cases hf'
  cases hh'
  refine ⟨?_, ?_, fun key' => ?_, rfl⟩
  · have hback : f.useCount + 1 + -1 = f.useCount := by omega
    simp only [hback]
    exact Pool.store_store_of_mem hf
  · have hback : hd.useCount + 1 + -1 = hd.useCount := by omega
    simp only [hback]
    exact Pool.store_store_of_mem hh
  · simp only [getSubscription]
    rw [Table.erase_insert (AList.lookup_eq_none.mp hkey)]

/-- What registering a subscription leaves. -/
structure Added (s : State) (cop : ObjectPath) (s' : State) : Prop where
  filters : s'.filterHt.table = s.filterHt.table
  subscriptions : ∃ su, s'.subscriptionHt =
    s.subscriptionHt.insert (normalizeObjectPathCharsDup cop) su
  repository : s'.repository = s.repository

theorem enableSubscription_added {fi : Addr} {f : Filter} {r : State × CMPIStatus × Instance}
    (hadded : Added s cop s') (hf : s'.filterHt.mem fi = some f)
    (h : enableSubscription s' env ci fi = some r) :
    Added s cop r.1 ∧
      r.2.1 = if wantsEnabled ci then forwarded env f .enableIndications else .ok := by
  have hforward : ∀ {r'}, fowardSubscription s' env fi .enableIndications = some r' →
      Added s cop r'.1 ∧ r'.2 = forwarded env f .enableIndications := by
    intro r' hr'
    obtain ⟨f', hf', hst, hs | hs⟩ := fowardSubscription_eq hr'
    · rw [hf] at hf'
      cases hf'
      rw [hs]
      exact ⟨hadded, hst⟩
    · rw [hf] at hf'
      cases hf'
      rw [hs]
      exact ⟨⟨hadded.filters, hadded.subscriptions, hadded.repository⟩, hst⟩
  unfold enableSubscription at h
  unfold wantsEnabled
  cases hstate : ci.subscriptionState with
  | value v =>
    rw [hstate] at h
    dsimp only at h ⊢
    by_cases hv : v = 2
    · rw [if_pos hv, Option.map_eq_some_iff] at h
      obtain ⟨r', hr', rfl⟩ := h
      simpa [hv] using hforward hr'
    · rw [if_neg hv] at h
      cases h
      simpa [hv] using hadded
  -- without a state the subscription is enabled as well
  | absent | null =>
    rw [hstate, Option.map_eq_some_iff] at h
    obtain ⟨r', hr', rfl⟩ := h
    exact hforward hr'

/-- `processSubscription` refuses and changes nothing, or the subscription is registered
and its status is that of enabling it. -/
theorem processSubscription_cases {r : State × CMPIStatus × Instance}
    (h : processSubscription s env ci cop = some r) :
    (Unchanged s r.1 ∧ r.2.1.rc ≠ .OK ∧ ∀ f, ¬ Registers s env cop ci f) ∨
    ∃ f, Registers s env cop ci f ∧ Added s cop r.1 ∧
      r.2.1 = if wantsEnabled ci then forwarded env f .enableIndications else .ok := by
  unfold processSubscription at h
  dsimp only at h
  split at h
  · next hkey =>
    cases h
    refine Or.inl ⟨.refl s, Nat.succ_ne_zero _, fun f hreg => ?_⟩
    rw [hreg.new] at hkey
    cases hkey
  · next hkey =>
    have hkey : getSubscription s (normalizeObjectPathCharsDup cop) = none := by
      simpa using hkey
    split at h
    · next hnone =>
      cases h
      refine Or.inl ⟨.refl s, Nat.succ_ne_zero _, fun f hreg => ?_⟩
      obtain ⟨fi, hfi, -⟩ := hreg.filter
      rw [hnone] at hfi
      cases hfi
    · next fi hfi =>
      split at h
      · next hnone =>
        cases h
        refine Or.inl ⟨.refl s, Nat.succ_ne_zero _, fun f hreg => ?_⟩
        obtain ⟨ha, hha⟩ := hreg.handler
        rw [hnone] at hha
        cases hha
      · next ha hha =>
        rw [Option.bind_eq_some_iff] at h
        obtain ⟨added, hadded, h⟩ := h
        obtain ⟨f, hd, hf, hh, hsu, hadded⟩ := addSubscription_eq hkey hadded
        rw [Option.bind_eq_some_iff] at h
        obtain ⟨act, hact, h⟩ := h
        obtain ⟨f', hf', hst, hacts⟩ := fowardSubscription_eq hact
        -- the filter that is activated is `f`, with one more use
        rw [hadded] at hf'
        have hf' : some { f with useCount := f.useCount + 1 } = some f' := by
          rw [← hf']
          exact Pool.mem_store_self.symm
        cases hf'
        have hst : act.2 = forwarded env f .activateFilter := hst
        split at h
        · next herr =>
          rw [Option.map_eq_some_iff] at h
          obtain ⟨s', hs', rfl⟩ := h
          refine Or.inl ⟨?_, herr, fun f₁ hreg => ?_⟩
          · rw [hsu] at hs'
            rcases hacts with hacts | hacts <;> rw [hacts, hadded] at hs' <;>
              exact rollback_unchanged hkey hf hh hs'
          · obtain ⟨fi₁, hfi₁, hf₁⟩ := hreg.filter
            rw [hfi] at hfi₁
            cases hfi₁
            rw [hf] at hf₁
            cases hf₁
            rw [hst] at herr
            exact herr hreg.activated
        · next hok =>
          rw [Decidable.not_not] at hok
          refine Or.inr ⟨f, ⟨hkey, ⟨fi, hfi, hf⟩, ⟨ha, hha⟩, hst ▸ hok⟩, ?_⟩
          have hact' : Added s cop act.1 ∧
              act.1.filterHt.mem fi = some { f with useCount := f.useCount + 1 } := by
            rcases hacts with hacts | hacts <;> rw [hacts, hadded] <;>
              exact ⟨⟨rfl, ⟨_, rfl⟩, rfl⟩, Pool.mem_store_self⟩
          have henabled := enableSubscription_added hact'.1 hact'.2 h
          exact henabled

/-- `createFilter` refuses and changes nothing, or the filter is registered and the status
is that of reading `SystemName`. -/
theorem createFilter_cases {r : State × CMPIStatus × Instance × ObjectPath}
    (h : createFilter s env cop ci = some r) :
    (r.1 = s ∧ r.2.1.rc ≠ .OK ∧ ¬ AcceptsFilter s env cop ci) ∨
    (AcceptsFilter s env cop ci ∧ r.2.1 = ⟨ci.systemName.rc, none⟩ ∧
      r.2.2.2 = (fillIn env ci cop).2 ∧ r.1.subscriptionHt = s.subscriptionHt ∧
      r.1.repository = s.repository ∧
      ∃ a, r.1.filterHt.table =
        s.filterHt.table.insert (normalizeObjectPathCharsDup (fillIn env ci cop).2) a) := by
  unfold createFilter at h
  dsimp only at h
  split at h
  · next hno =>
    cases h
    exact Or.inl ⟨rfl, Nat.succ_ne_zero _, fun hacc => hacc.creationClassName hno⟩
  next hccn =>
  split at h
  · next hno =>
    cases h
    exact Or.inl ⟨rfl, Nat.succ_ne_zero _, fun hacc => hacc.systemCreationClassName hno⟩
  next hsccn =>
  split at h
  · next hno =>
    cases h
    exact Or.inl ⟨rfl, Nat.succ_ne_zero _, fun hacc => hacc.individual hno⟩
  next hiss =>
  split at h
  · next lang query hlang hquery =>
    -- the three strings of an accepted filter are the ones read here
    have hstrings : ∀ {P : CStr → CStr → CStr → Prop},
        (∃ l q n, ci.queryLanguage.get = some l ∧ ci.query.get = some q ∧
          (fillIn env ci cop).1.sourceNamespace.get = some n ∧ P l q n) →
        ∃ n, (fillIn env ci cop).1.sourceNamespace.get = some n ∧ P lang query n := by
      rintro P ⟨l, q, n, hl, hq, hn, hP⟩
      rw [hlang] at hl
      cases hl
      rw [hquery] at hq
      cases hq
      exact ⟨n, hn, hP⟩
    split at h
    · next hno =>
      cases h
      refine Or.inl ⟨rfl, Nat.succ_ne_zero _, fun hacc => ?_⟩
      obtain ⟨-, -, hlng, -⟩ := hstrings hacc.query
      exact hlng hno
    next hlng =>
    split at h
    · next hno =>
      cases h
      refine Or.inl ⟨rfl, Nat.succ_ne_zero _, fun hacc => ?_⟩
      rw [hacc.new] at hno
      cases hno
    next hnew =>
    rw [Option.bind_eq_some_iff] at h
    obtain ⟨sns, hsns, h⟩ := h
    split at h
    · next hno =>
      cases h
      refine Or.inl ⟨rfl, Nat.succ_ne_zero _, fun hacc => ?_⟩
      obtain ⟨n, hn, -, hparse⟩ := hstrings hacc.query
      rw [hsns] at hn
      cases hn
      exact hno hparse
    next hparse =>
    rw [Option.map_eq_some_iff] at h
    obtain ⟨s', hs', rfl⟩ := h
    have hnew : s.filterHt.get (normalizeObjectPathCharsDup (fillIn env ci cop).2) = none := by
      simpa [getFilter] using hnew
    refine Or.inr ⟨⟨hccn, hsccn, hiss, hnew,
      ⟨lang, query, sns, hlang, hquery, hsns, hlng, Decidable.not_not.mp hparse⟩⟩, rfl, rfl, ?_⟩
    rw [addFilter, if_neg (by simp [hnew])] at hs'
    split at hs'
    · cases hs'
    · cases hs'
      exact ⟨rfl, rfl, _, rfl⟩
  · next hno =>
    cases h
    refine Or.inl ⟨rfl, Nat.succ_ne_zero _, fun hacc => ?_⟩
    obtain ⟨l, q, n, hl, hq, -⟩ := hacc.query
    exact hno l q hl hq

end Functions

/-! ## Which requests are atomic -/

section Requests

variable {s : State} {env : Env} {ci : Instance} {cop : ObjectPath} {r : State × CMPIStatus}

theorem mem_insert_iff {β γ : Type} {t : Table Key β} {u : Table Key γ} {k : Key} {v : β} {w : γ}
    (h : ∀ key, key ∈ t ↔ key ∈ u) (key : Key) : key ∈ t.insert k v ↔ key ∈ u.insert k w := by
  rw [AList.mem_insert, AList.mem_insert, h]

theorem mem_erase_iff {β γ : Type} {t : Table Key β} {u : Table Key γ} {k : Key}
    (h : ∀ key, key ∈ t ↔ key ∈ u) (key : Key) : key ∈ t.erase k ↔ key ∈ u.erase k := by
  rw [AList.mem_erase, AList.mem_erase, h]

/-- A registered subscription was not there before. -/
theorem Added.changed {s' : State} (h : Added s cop s')
    (hnew : getSubscription s (normalizeObjectPathCharsDup cop) = none) : ¬ Unchanged s s' := by
  intro hsame
  obtain ⟨su, hsu⟩ := h.subscriptions
  have := hsame.subscriptions (normalizeObjectPathCharsDup cop)
  rw [hnew, getSubscription, hsu, AList.lookup_insert] at this
  cases this

/-- Creating a subscription. -/
theorem createSubscription_atomic_iff (hagree : Agree s) (hns : interOpNameSpace cop = true)
    (hkind : kindOf env cop.nameSpace cop.className = .subscription)
    (h : createInstance s env cop ci = some r) :
    Atomic s r ↔ ∀ f, Registers s env cop ci f →
      (wantsEnabled ci = true → (forwarded env f .enableIndications).rc = .OK) ∧
        env.upcall.rc = .OK := by
  rw [createInstance, hns, hkind] at h
  simp only [Bool.not_true, Bool.false_eq_true, ↓reduceIte, Option.map_eq_some_iff] at h
  obtain ⟨r', hr', rfl⟩ := h
  rcases processSubscription_cases hr' with ⟨hsame, herr, hnot⟩ | ⟨f, hreg, hadded, hst⟩
  · rw [if_neg herr]
    exact iff_of_true ⟨fun _ => hsame, fun hok => absurd hok herr⟩
      fun f hreg => absurd hreg (hnot f)
  · -- the condition speaks of every such filter, but there is only one
    have hunique : ∀ f', Registers s env cop ci f' → f' = f := by
      intro f' hreg'
      obtain ⟨fi, hfi, hf⟩ := hreg.filter
      obtain ⟨fi', hfi', hf'⟩ := hreg'.filter
      rw [hfi] at hfi'
      cases hfi'
      rw [hf] at hf'
      exact (Option.some.inj hf').symm
    have hall : (∀ f', Registers s env cop ci f' →
        (wantsEnabled ci = true → (forwarded env f' .enableIndications).rc = .OK) ∧
          env.upcall.rc = .OK) ↔
        r'.2.1.rc = .OK ∧ env.upcall.rc = .OK := by
      rw [hst]
      constructor
      · intro hall
        obtain ⟨henable, hup⟩ := hall f hreg
        refine ⟨?_, hup⟩
        split
        · next hwants => exact henable hwants
        · rfl
      · rintro ⟨henable, hup⟩ f' hreg'
        rw [hunique f' hreg']
        refine ⟨fun hwants => ?_, hup⟩
        rw [if_pos hwants] at henable
        exact henable
    rw [hall]
    by_cases hok : r'.2.1.rc = .OK
    · rw [if_pos hok]
      by_cases hup : env.upcall.rc = .OK
      · refine iff_of_true ⟨fun herr => absurd hup herr, fun _ => ?_⟩ ⟨hok, hup⟩
        obtain ⟨su, hsu⟩ := hadded.subscriptions
        rw [storeSubscription, if_pos hup]
        refine ⟨fun key => ?_, fun key => ?_⟩
        · dsimp only
          rw [hadded.filters, hadded.repository]
          exact hagree.filters key
        · dsimp only
          rw [hsu, hadded.repository]
          exact mem_insert_iff hagree.subscriptions key
      · -- registered but not stored: nothing takes it out of the table again
        refine iff_of_false (not_atomic_of_changed hup ?_) fun hboth => hup hboth.2
        rw [storeSubscription, if_neg hup]
        exact hadded.changed hreg.new
    · rw [if_neg hok]
      exact iff_of_false (not_atomic_of_changed hok (hadded.changed hreg.new))
        fun hboth => hok hboth.1

/-- Creating a filter. -/
theorem createFilter_atomic_iff (hagree : Agree s) (hns : interOpNameSpace cop = true)
    (hkind : kindOf env cop.nameSpace cop.className = .filter)
    (h : createInstance s env cop ci = some r) :
    Atomic s r ↔ (AcceptsFilter s env cop ci → ci.systemName ≠ .absent ∧ env.upcall.rc = .OK) := by
  rw [createInstance, hns, hkind] at h
  simp only [Bool.not_true, Bool.false_eq_true, ↓reduceIte, Option.map_eq_some_iff] at h
  obtain ⟨r', hr', rfl⟩ := h
  rcases createFilter_cases hr' with ⟨hsame, herr, hnot⟩ | ⟨hacc, hst, hcop, hsubs, hrepo, a, hadded⟩
  · rw [if_neg herr, hsame]
    exact iff_of_true (atomic_refused herr) fun hacc => absurd hacc hnot
  · have hchanged : ¬ Unchanged s r'.1 := by
      intro hsame
      have hthere : normalizeObjectPathCharsDup (fillIn env ci cop).2 ∈ r'.1.filterHt.table := by
        rw [hadded, AList.mem_insert]
        exact Or.inl rfl
      rw [hsame.filters] at hthere
      exact AList.lookup_eq_none.mp hacc.new hthere
    -- the status is what the lookup of the optional property left
    have hrc : r'.2.1.rc = .OK ↔ ci.systemName ≠ .absent := by
      rw [hst]
      cases ci.systemName <;> simp [Property.rc]
    have hall : (AcceptsFilter s env cop ci → ci.systemName ≠ .absent ∧ env.upcall.rc = .OK) ↔
        r'.2.1.rc = .OK ∧ env.upcall.rc = .OK := by
      rw [hrc]
      exact ⟨fun himp => himp hacc, fun hboth _ => hboth⟩
    rw [hall]
    by_cases hok : r'.2.1.rc = .OK
    · rw [if_pos hok]
      by_cases hup : env.upcall.rc = .OK
      · refine iff_of_true ⟨fun herr => absurd hup herr, fun _ => ?_⟩ ⟨hok, hup⟩
        rw [storeFilter, if_pos hup, hcop]
        refine ⟨fun key => ?_, fun key => ?_⟩
        · dsimp only
          rw [hadded, hrepo]
          exact mem_insert_iff hagree.filters key
        · dsimp only
          rw [hsubs, hrepo]
          exact hagree.subscriptions key
      · -- the filter is in the table and not stored
        refine iff_of_false (not_atomic_of_changed hup ?_) fun hboth => hup hboth.2
        rw [storeFilter, if_neg hup]
        exact hchanged
    · rw [if_neg hok]
      exact iff_of_false (not_atomic_of_changed hok hchanged) fun hboth => hok hboth.1

/-- Switching leaves tables and repository alone. -/
theorem switchIndications_unchanged {s' : State} {optype : OpType}
    (h : switchIndications s env ci optype = some s') :
    s'.filterHt = s.filterHt ∧ s'.handlerHt = s.handlerHt ∧
      s'.subscriptionHt = s.subscriptionHt ∧ s'.repository = s.repository := by
  rw [switchIndications, Option.bind_eq_some_iff] at h
  obtain ⟨op, -, h⟩ := h
  rw [Option.bind_eq_some_iff] at h
  obtain ⟨fi, -, h⟩ := h
  rw [Option.map_eq_some_iff] at h
  obtain ⟨r, hr, rfl⟩ := h
  obtain ⟨f, -, -, hs | hs⟩ := fowardSubscription_eq hr <;> rw [hs] <;> exact ⟨rfl, rfl, rfl, rfl⟩

/-- Replacing the instance of a subscription changes nothing only if it is the same. -/
theorem unchanged_replaced_iff {s' : State} {su : Subscription}
    (hsu : getSubscription s (normalizeObjectPathCharsDup cop) = some su)
    (hfilters : s'.filterHt = s.filterHt) (hhandlers : s'.handlerHt = s.handlerHt)
    (hsubs : s'.subscriptionHt =
      s.subscriptionHt.insert (normalizeObjectPathCharsDup cop) { su with sci := ci })
    (hrepo : s'.repository = s.repository) : Unchanged s s' ↔ su.sci = ci := by
  constructor
  · intro hsame
    have := hsame.subscriptions (normalizeObjectPathCharsDup cop)
    rw [hsu, getSubscription, hsubs, AList.lookup_insert] at this
    exact (congrArg Subscription.sci (Option.some.inj this)).symm
  · rintro rfl
    refine ⟨hfilters, hhandlers, fun key => ?_, hrepo⟩
    rw [getSubscription, hsubs]
    by_cases hkey : key = normalizeObjectPathCharsDup cop
    · rw [hkey, AList.lookup_insert, hsu]
    · rw [AList.lookup_insert_ne hkey, getSubscription]

/-- Modifying a subscription. -/
theorem modifyInstance_atomic_iff (hagree : Agree s)
    (h : modifyInstance s env cop ci = some r) : Atomic s r ↔ MeetsModify s env cop ci := by
  unfold MeetsModify
  by_cases hkind : kindOf env (lit "root/interop") cop.className = .subscription
  · rw [modifyInstance, hkind] at h
    dsimp only at h
    cases hsu : getSubscription s (normalizeObjectPathCharsDup cop) with
    | none =>
      rw [hsu] at h
      cases h
      exact iff_of_true (atomic_refused (Nat.succ_ne_zero _)) fun _ _ hno => by cases hno
    | some su =>
      rw [hsu] at h
      dsimp only at h
      rw [Option.map_eq_some_iff] at h
      obtain ⟨s₁, hs₁, rfl⟩ := h
      have hswitched : s₁.filterHt = s.filterHt ∧ s₁.handlerHt = s.handlerHt ∧
          s₁.subscriptionHt = s.subscriptionHt ∧ s₁.repository = s.repository := by
        split at hs₁
        · exact switchIndications_unchanged hs₁
        · cases hs₁
          exact ⟨rfl, rfl, rfl, rfl⟩
      obtain ⟨hfilters, hhandlers, hsubs, hrepo⟩ := hswitched
      have hall : (kindOf env (lit "root/interop") cop.className = .subscription →
          ∀ su', some su = some su' →
            (ci.subscriptionState ≠ .absent ∧ env.upcall.rc = .OK) ∨ su'.sci = ci) ↔
          (ci.subscriptionState ≠ .absent ∧ env.upcall.rc = .OK) ∨ su.sci = ci := by
        constructor
        · exact fun himp => himp hkind su rfl
        · rintro hor _ _ ⟨⟩
          exact hor
      rw [hall]
      have hrc : ci.subscriptionState.rc = .OK ↔ ci.subscriptionState ≠ .absent := by
        cases ci.subscriptionState <;> simp [Property.rc]
      -- what is left when nothing is stored
      have hfailed : ∀ st : CMPIStatus, st.rc ≠ .OK →
          (Atomic s ({ s₁ with
            subscriptionHt :=
              s₁.subscriptionHt.insert (normalizeObjectPathCharsDup cop) { su with sci := ci } },
            st) ↔ su.sci = ci) := by
        intro st herr
        have hsame : Unchanged s { s₁ with
            subscriptionHt :=
              s₁.subscriptionHt.insert (normalizeObjectPathCharsDup cop) { su with sci := ci } } ↔
            su.sci = ci :=
          unchanged_replaced_iff hsu hfilters hhandlers (by dsimp only; rw [hsubs]) hrepo
        rw [← hsame]
        exact ⟨fun hat => hat.error herr, fun hun => ⟨fun _ => hun, fun hok => absurd hok herr⟩⟩
      by_cases hok : ci.subscriptionState.rc = .OK
      · rw [if_pos hok]
        by_cases hup : env.upcall.rc = .OK
        · refine iff_of_true ⟨fun herr => absurd hup herr, fun _ => ?_⟩
            (Or.inl ⟨hrc.mp hok, hup⟩)
          rw [restoreSubscription, if_pos hup]
          refine ⟨fun key => ?_, fun key => ?_⟩
          · dsimp only
            rw [hfilters, hrepo]
            exact hagree.filters key
          · -- the subscription was in both, so it still is
            have hthere : normalizeObjectPathCharsDup cop ∈ s.subscriptionHt := by
              rw [← AList.lookup_isSome]
              exact Option.isSome_of_mem hsu
            dsimp only
            rw [hsubs, hrepo, AList.mem_replace, AList.mem_insert, ← hagree.subscriptions]
            exact or_iff_right_of_imp fun hkey => hkey ▸ hthere
        · rw [restoreSubscription, if_neg hup, hfailed env.upcall hup]
          exact ⟨Or.inr, fun hor => hor.resolve_left fun hboth => hup hboth.2⟩
      · rw [if_neg hok, hfailed _ hok]
        exact ⟨Or.inr, fun hor => hor.resolve_left fun hboth => hok (hrc.mpr hboth.1)⟩
  · have hr : r = (s, classNotSupported) := by
      unfold modifyInstance at h
      split at h
      · next hsub => exact absurd hsub hkind
      · cases h
        rfl
    rw [hr]
    exact iff_of_true (atomic_refused (Nat.succ_ne_zero _)) fun hsub => absurd hsub hkind

/-- Deleting a subscription. -/
theorem deleteSubscription_atomic_iff (hagree : Agree s)
    (hkind : kindOf env cop.nameSpace cop.className = .subscription)
    (h : deleteInstance s env cop = some r) :
    Atomic s r ↔
      ∀ su, getSubscription s (normalizeObjectPathCharsDup cop) = some su → env.upcall.rc = .OK := by
  rw [deleteInstance, hkind] at h
  dsimp only at h
  split at h
  · next hnone =>
    cases h
    refine iff_of_true (atomic_refused (Nat.succ_ne_zero _)) fun su hsu => ?_
    rw [hnone] at hsu
    cases hsu
  · next su hsu =>
    rw [Option.bind_eq_some_iff] at h
    obtain ⟨f, -, h⟩ := h
    rw [Option.bind_eq_some_iff] at h
    obtain ⟨_, -, h⟩ := h
    rw [Option.map_eq_some_iff] at h
    obtain ⟨s', hs', rfl⟩ := h
    obtain ⟨f', hd', -, -, rfl⟩ := removeSubscription_eq hs'
    by_cases hup : env.upcall.rc = .OK
    · refine iff_of_true ⟨fun herr => absurd hup herr, fun _ => ?_⟩ fun _ _ => hup
      rw [unstoreSubscription, if_pos hup]
      exact ⟨hagree.filters, mem_erase_iff hagree.subscriptions⟩
    · -- the repository has kept what the tables have given up
      refine iff_of_false (not_atomic_of_changed hup ?_) fun hall => hup (hall su hsu)
      rw [unstoreSubscription, if_neg hup]
      intro hsame
      have := hsame.subscriptions (normalizeObjectPathCharsDup cop)
      rw [hsu, getSubscription, AList.lookup_erase] at this
      cases this

/-- Deleting a filter. -/
theorem deleteFilter_atomic_iff (hagree : Agree s)
    (hkind : kindOf env cop.nameSpace cop.className = .filter)
    (h : deleteInstance s env cop = some r) :
    Atomic s r ↔ ∀ fi, DeletesFilter s env cop fi → env.upcall.rc = .OK := by
  rw [deleteInstance, hkind] at h
  dsimp only at h
  split at h
  · next hnone =>
    cases h
    refine iff_of_true (atomic_refused (Nat.succ_ne_zero _)) fun fi hdel => ?_
    have := hdel.registered
    rw [hnone] at this
    cases this
  · next fi hfi =>
    rw [Option.map_eq_some_iff] at h
    obtain ⟨f, hf, rfl⟩ := h
    split
    · next huse =>
      -- a filter in use is not deleted, so the condition asks nothing
      refine iff_of_true (atomic_refused (Nat.succ_ne_zero _)) fun fi' hdel => ?_
      have hsame := hdel.registered
      rw [hfi] at hsame
      cases hsame
      obtain ⟨f', hf', hzero⟩ := hdel.unused
      rw [hf] at hf'
      cases hf'
      exact absurd hzero huse
    · next huse =>
      have hdel : DeletesFilter s env cop fi := ⟨hkind, hfi, f, hf, Decidable.not_not.mp huse⟩
      by_cases hup : env.upcall.rc = .OK
      · refine iff_of_true ⟨fun herr => absurd hup herr, fun _ => ?_⟩ fun _ _ => hup
        rw [unstoreFilter, if_pos hup]
        exact ⟨mem_erase_iff hagree.filters, hagree.subscriptions⟩
      · refine iff_of_false (not_atomic_of_changed hup ?_) fun hall => hup (hall fi hdel)
        rw [unstoreFilter, if_neg hup]
        intro hsame
        have hgone : getFilter (removeFilter s fi (normalizeObjectPathCharsDup cop))
            (normalizeObjectPathCharsDup cop) = none := Pool.get_remove_self
        rw [getFilter, hsame.filters] at hgone
        rw [getFilter, hgone] at hfi
        cases hfi

/-- Deleting an instance: which of the conditions matters is down to its kind. -/
theorem deleteInstance_atomic_iff (hagree : Agree s)
    (h : deleteInstance s env cop = some r) : Atomic s r ↔ MeetsDelete s env cop := by
  cases hkind : kindOf env cop.nameSpace cop.className with
  | subscription =>
    rw [deleteSubscription_atomic_iff hagree hkind h]
    refine ⟨fun hall => ⟨fun _ => hall, fun fi hdel => ?_⟩, fun hmeets => hmeets.subscription hkind⟩
    exact absurd (hkind.symm.trans hdel.kind) (by decide)
  | filter =>
    rw [deleteFilter_atomic_iff hagree hkind h]
    refine ⟨fun hall => ⟨fun hsub => ?_, hall⟩, fun hmeets => hmeets.filter⟩
    exact absurd (hkind.symm.trans hsub) (by decide)
  | other =>
    rw [deleteInstance, hkind] at h
    cases h
    refine iff_of_true (atomic_refused (Nat.succ_ne_zero _)) ⟨fun hsub => ?_, fun fi hdel => ?_⟩
    · exact absurd (hkind.symm.trans hsub) (by decide)
    · exact absurd (hkind.symm.trans hdel.kind) (by decide)

/-- From tables that agree with the repository, a request is atomic exactly under its
condition. -/
theorem step_atomic_iff {op : Op} (hagree : Agree s) (hreq : op.isRequest = true)
    (h : step s op = some r) : Atomic s r ↔ Meets s op := by
  cases op with
  | createInstance env cop ci =>
    by_cases hns : interOpNameSpace cop = true
    · have himp : Meets s (.createInstance env cop ci) ↔ MeetsCreate s env cop ci :=
        ⟨fun himp => himp hns, fun hmeets _ => hmeets⟩
      rw [himp]
      cases hkind : kindOf env cop.nameSpace cop.className with
      | subscription =>
        rw [createSubscription_atomic_iff hagree hns hkind h]
        refine ⟨fun hall => ⟨fun _ => hall, fun hno => ?_⟩, fun hmeets => hmeets.subscription hkind⟩
        rw [hkind] at hno
        cases hno
      | filter =>
        rw [createFilter_atomic_iff hagree hns hkind h]
        refine ⟨fun hacc => ⟨fun hno => ?_, fun _ => hacc⟩, fun hmeets => hmeets.filter hkind⟩
        rw [hkind] at hno
        cases hno
      | other =>
        rw [step, createInstance, hns, hkind] at h
        cases h
        refine iff_of_true (atomic_refused (Nat.succ_ne_zero _)) ⟨fun hno => ?_, fun hno => ?_⟩ <;>
          rw [hkind] at hno <;> cases hno
    · rw [step, createInstance, Bool.eq_false_iff.mpr hns] at h
      cases h
      exact iff_of_true (atomic_refused (Nat.succ_ne_zero _)) fun hyes => absurd hyes hns
  | modifyInstance env cop ci => exact modifyInstance_atomic_iff hagree h
  | deleteInstance env cop => exact deleteInstance_atomic_iff hagree h
  | addHandler | removeHandler | startup => cases hreq

end Requests

/-! ## Startup -/

section Startup

variable {s s' : State} {i : Item}

/-- The filters of the table are those it had and the enumerated one. -/
theorem initFilter_spec (h : initFilter s i = some s') :
    (∀ key, key ∈ s'.filterHt.table ↔ i.key = key ∨ key ∈ s.filterHt.table) ∧
      s'.subscriptionHt = s.subscriptionHt ∧ s'.repository = s.repository := by
  rw [initFilter, Option.bind_eq_some_iff] at h
  obtain ⟨query, -, h⟩ := h
  rw [Option.bind_eq_some_iff] at h
  obtain ⟨lng, -, h⟩ := h
  rw [Option.bind_eq_some_iff] at h
  obtain ⟨sns, -, h⟩ := h
  unfold addFilter at h
  split at h
  · next hthere =>
    cases h
    have hmem : i.key ∈ s.filterHt.table := AList.lookup_isSome.mp hthere
    exact ⟨fun key => (or_iff_right_of_imp fun hkey => hkey ▸ hmem).symm, rfl, rfl⟩
  · split at h
    · cases h
    · cases h
      refine ⟨fun key => ?_, rfl, rfl⟩
      exact (AList.mem_insert _).trans (or_congr_left eq_comm)

theorem initFilters_spec {items : List Item} (h : initAll initFilter s items = some s') :
    (∀ key, key ∈ s'.filterHt.table ↔ (∃ i ∈ items, i.key = key) ∨ key ∈ s.filterHt.table) ∧
      s'.subscriptionHt = s.subscriptionHt ∧ s'.repository = s.repository := by
  induction items generalizing s with
  | nil =>
    cases h
    simp
  | cons i items ih =>
    rw [initAll, Option.bind_eq_some_iff] at h
    obtain ⟨s₁, hs₁, h⟩ := h
    obtain ⟨hkeys, hsubs, hrepo⟩ := initFilter_spec hs₁
    obtain ⟨hkeys', hsubs', hrepo'⟩ := ih h
    refine ⟨fun key => ?_, hsubs'.trans hsubs, hrepo'.trans hrepo⟩
    rw [hkeys', hkeys, List.exists_mem_cons_iff, or_assoc, or_left_comm]

/-- Handlers do not matter to the filters and subscriptions. -/
theorem addHandler_spec {malloc : Addr} {op : ObjectPath} (h : addHandler s malloc op = some s') :
    s'.filterHt = s.filterHt ∧ s'.subscriptionHt = s.subscriptionHt ∧
      s'.repository = s.repository := by
  unfold addHandler at h
  dsimp only at h
  split at h
  · cases h
    exact ⟨rfl, rfl, rfl⟩
  · split at h
    · cases h
    · cases h
      exact ⟨rfl, rfl, rfl⟩

theorem initHandlers_spec {items : List Item} (h : initAll initHandler s items = some s') :
    s'.filterHt = s.filterHt ∧ s'.subscriptionHt = s.subscriptionHt ∧
      s'.repository = s.repository := by
  induction items generalizing s with
  | nil =>
    cases h
    exact ⟨rfl, rfl, rfl⟩
  | cons i items ih =>
    rw [initAll, Option.bind_eq_some_iff] at h
    obtain ⟨s₁, hs₁, h⟩ := h
    have hsame := addHandler_spec hs₁
    obtain ⟨hfilters, hsubs, hrepo⟩ := ih h
    exact ⟨hfilters.trans hsame.1, hsubs.trans hsame.2.1, hrepo.trans hsame.2.2⟩

/-- The subscriptions of the table are those it had and the enumerated one, if that is
there or is registered. -/
theorem initSubscription_spec
    (hreg : (∃ su, getSubscription s i.key = some su) ∨ ∃ f, Registers s i.env i.cop i.ci f)
    (h : initSubscription s i = some s') :
    s'.filterHt.table = s.filterHt.table ∧
      (∀ key, key ∈ s'.subscriptionHt ↔ i.key = key ∨ key ∈ s.subscriptionHt) ∧
      s'.repository = s.repository := by
  rw [initSubscription, Option.map_eq_some_iff] at h
  obtain ⟨r, hr, rfl⟩ := h
  rcases processSubscription_cases hr with ⟨hsame, -, hnot⟩ | ⟨f, -, hadded, -⟩
  · -- nothing is registered, so the subscription must have been there
    obtain ⟨su, hsu⟩ := hreg.resolve_right (not_exists.mpr hnot)
    have hmem : i.key ∈ s.subscriptionHt := AList.lookup_isSome.mp (Option.isSome_of_mem hsu)
    refine ⟨by rw [hsame.filters], fun key => ?_, hsame.repository⟩
    rw [hsame.mem_subscriptionHt]
    exact (or_iff_right_of_imp fun he => he ▸ hmem).symm
  · obtain ⟨su, hsu⟩ := hadded.subscriptions
    refine ⟨hadded.filters, fun key => ?_, hadded.repository⟩
    rw [hsu]
    exact (AList.mem_insert _).trans (or_congr_left eq_comm)

theorem initSubscriptions_spec {items : List Item} (hreg : AllRegister s items)
    (h : initAll initSubscription s items = some s') :
    s'.filterHt.table = s.filterHt.table ∧
      (∀ key, key ∈ s'.subscriptionHt ↔ (∃ i ∈ items, i.key = key) ∨ key ∈ s.subscriptionHt) ∧
      s'.repository = s.repository := by
  induction items generalizing s with
  | nil =>
    cases h
    simp
  | cons i items ih =>
    rw [initAll, Option.bind_eq_some_iff] at h
    obtain ⟨s₁, hs₁, h⟩ := h
    obtain ⟨hfilters, hkeys, hrepo⟩ := initSubscription_spec hreg.1 hs₁
    obtain ⟨hfilters', hkeys', hrepo'⟩ := ih (hreg.2 s₁ hs₁) h
    refine ⟨hfilters'.trans hfilters, fun key => ?_, hrepo'.trans hrepo⟩
    rw [hkeys', hkeys, List.exists_mem_cons_iff, or_assoc, or_left_comm]

/-- The tables have nothing that is not stored. -/
structure Within (s : State) : Prop where
  filters : ∀ key, key ∈ s.filterHt.table → key ∈ s.repository.filters
  subscriptions : ∀ key, key ∈ s.subscriptionHt → key ∈ s.repository.subscriptions

theorem boot_within (repository : Repository) : Within (.boot repository) :=
  ⟨fun _ h => absurd h (AList.notMem_empty _), fun _ h => absurd h (AList.notMem_empty _)⟩

theorem Agree.within (h : Agree s) : Within s :=
  ⟨fun key => (h.filters key).mp, fun key => (h.subscriptions key).mp⟩

/-- A startup that meets its condition brings the tables into agreement. -/
theorem startup_agree {ref : ObjectPath} {fs hs subs : List Item} {r : State × CMPIStatus}
    (hwithin : Within s) (hmeets : MeetsStartup s ref fs hs subs)
    (h : step s (.startup ref fs hs subs) = some r) : Agree r.1 := by
  rw [step, invokeMethod, hmeets.interOp, Bool.not_true, if_neg Bool.false_ne_true,
    Option.map_eq_some_iff] at h
  obtain ⟨s₃, h, rfl⟩ := h
  rw [initInterOp, Option.bind_eq_some_iff] at h
  obtain ⟨s₁, hs₁, h⟩ := h
  rw [Option.bind_eq_some_iff] at h
  obtain ⟨s₂, hs₂, h⟩ := h
  obtain ⟨hkeys, hsubs₁, hrepo₁⟩ := initFilters_spec hs₁
  obtain ⟨hfilters₂, hsubs₂, hrepo₂⟩ := initHandlers_spec hs₂
  obtain ⟨hfilters₃, hkeys', hrepo₃⟩ := initSubscriptions_spec (hmeets.register s₁ s₂ hs₁ hs₂) h
  have hrepo : s₃.repository = s.repository := hrepo₃.trans (hrepo₂.trans hrepo₁)
  refine ⟨fun key => ?_, fun key => ?_⟩
  · dsimp only
    rw [hfilters₃, hfilters₂, hkeys, hrepo, ← hmeets.filters]
    exact or_iff_left_of_imp (hwithin.filters key)
  · dsimp only
    rw [hkeys', hsubs₂, hsubs₁, hrepo, ← hmeets.subscriptions]
    exact or_iff_left_of_imp (hwithin.subscriptions key)

end Startup

/-! ## Whole runs -/

/-- An operation that meets its condition keeps tables and repository in agreement. -/
theorem Agree.step {s : State} {op : Op} {r : State × CMPIStatus} (h : Agree s)
    (hmeets : Meets s op) (hstep : step s op = some r) : Agree r.1 := by
  -- an error leaves everything as it was, and OK comes with agreement
  have hrequest : op.isRequest = true → Agree r.1 := by
    intro hreq
    have hatomic := (step_atomic_iff h hreq hstep).mpr hmeets
    by_cases hok : r.2.rc = .OK
    · exact hatomic.ok hok
    · exact (hatomic.error hok).agree h
  cases op with
  | createInstance | modifyInstance | deleteInstance => exact hrequest rfl
  | addHandler ref malloc op =>
    rcases invokeMethod_cases hstep with rfl | hbody
    · exact h
    · rw [Option.map_eq_some_iff] at hbody
      obtain ⟨s', hs', rfl⟩ := hbody
      obtain ⟨hfilters, hsubs, hrepo⟩ := addHandler_spec hs'
      refine ⟨fun key => ?_, fun key => ?_⟩
      · rw [hfilters, hrepo]
        exact h.filters key
      · rw [hsubs, hrepo]
        exact h.subscriptions key
  | removeHandler ref op =>
    rcases invokeMethod_cases hstep with rfl | hbody
    · exact h
    · rcases removeHandlerMethod_cases hbody with hsame | ⟨ha, hd, -, -, -, hs'⟩
      · rw [hsame]
        exact h
      · rw [hs']
        exact ⟨h.filters, h.subscriptions⟩
  | startup ref fs hs subs => exact startup_agree h.within hmeets hstep

theorem allAtomic_of_agree {ops : List Op} {s : State} (h : Agree s) (hmeets : AllMeet s ops) :
    AllAtomic s ops := by
  induction ops generalizing s with
  | nil => trivial
  | cons op ops ih =>
    intro r hstep
    exact ⟨fun hreq => (step_atomic_iff h hreq hstep).mpr hmeets.1,
      ih (h.step hmeets.1 hstep) (hmeets.2 r hstep)⟩

/-- In every run that starts up with what is stored and whose operations meet their
conditions, every request is atomic. -/
theorem runOps_atomic {repository : Repository} {ref : ObjectPath} {fs hs subs : List Item}
    {ops : List Op} (hmeets : AllMeet (.boot repository) (.startup ref fs hs subs :: ops)) :
    AllAtomic (.boot repository) (.startup ref fs hs subs :: ops) := by
  intro r hstep
  refine ⟨fun hreq => absurd hreq Bool.false_ne_true, ?_⟩
  exact allAtomic_of_agree (startup_agree (boot_within repository) hmeets.1 hstep)
    (hmeets.2 r hstep)

/-- Nothing is stored yet. -/
def emptyStartup : Op := .startup handlerPath [] [] []

/-- A filter is created and deleted again. -/
def filterOps : List Op :=
  [.createInstance goodEnv filterPath sampleInstance, .deleteInstance goodEnv filterPath]

theorem filterOps_atomic :
    (runOps (.boot ⟨∅, ∅⟩) (emptyStartup :: filterOps)).isSome = true ∧
      AllAtomic (.boot ⟨∅, ∅⟩) (emptyStartup :: filterOps) := by
  refine ⟨by decide, runOps_atomic ⟨⟨by decide, ?_, ?_, ?_⟩, ?_⟩⟩
  · exact fun key => iff_of_false (AList.notMem_empty key) (by simp)
  · exact fun key => iff_of_false (AList.notMem_empty key) (by simp)
  · exact fun _ _ _ _ => trivial
  · intro r _
    refine ⟨fun _ => ⟨fun hkind => ?_, fun _ _ => ⟨by decide, rfl⟩⟩, fun r _ => ?_⟩
    · exact absurd hkind (by decide)
    · exact ⟨⟨fun _ _ _ => rfl, fun _ _ => rfl⟩, fun _ _ => trivial⟩

/-- The internal provider cannot store anything. -/
def failingEnv : Env := { goodEnv with upcall := ⟨.ERR_FAILED, none⟩ }

/-- A handler and a filter for a subscription. -/
def preparingOps : List Op :=
  [emptyStartup, .addHandler handlerPath 1 handlerPath,
    .createInstance goodEnv filterPath sampleInstance]

/-- The request returns the error of the upcall, and the subscription stays registered. -/
theorem createSubscription_not_atomic :
    ∃ s r, runOps (.boot ⟨∅, ∅⟩) preparingOps = some s ∧
      step s (.createInstance failingEnv subscriptionPath sampleInstance) = some r ∧
      r.2.rc = .ERR_FAILED ∧
      (getSubscription s (normalizeObjectPathCharsDup subscriptionPath)).isSome = false ∧
      (getSubscription r.1 (normalizeObjectPathCharsDup subscriptionPath)).isSome = true ∧
      ¬ Atomic s r := by
  have hrun : ((runOps (.boot ⟨∅, ∅⟩) preparingOps).bind fun s =>
      (step s (.createInstance failingEnv subscriptionPath sampleInstance)).map fun r =>
        (r.2.rc, (getSubscription s (normalizeObjectPathCharsDup subscriptionPath)).isSome,
          (getSubscription r.1 (normalizeObjectPathCharsDup subscriptionPath)).isSome)) =
      some (CMPIrc.ERR_FAILED, false, true) := by decide
  obtain ⟨s, hs, hstep⟩ := Option.bind_eq_some_iff.mp hrun
  obtain ⟨r, hr, heq⟩ := Option.map_eq_some_iff.mp hstep
  obtain ⟨hrc, hbefore, hafter⟩ := Prod.mk.inj heq |>.imp id Prod.mk.inj
  refine ⟨s, r, hs, hr, hrc, hbefore, hafter, fun hatomic => ?_⟩
  have hsame := (hatomic.error (by rw [hrc]; decide)).subscriptions
    (normalizeObjectPathCharsDup subscriptionPath)
  rw [hsame, hbefore] at hafter
  cases hafter

end Sfcb.InteropProvider
