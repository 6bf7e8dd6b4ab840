import Sfcb.Lib.NullList
import Sfcb.Lib.Recency

/-!
# The class cache

The class provider for compressed repositories keeps a record for every class in memory, and
the classes themselves in the file. `getClass` reads a class when it is asked for, and keeps at
most `cacheLimit` of them: the records of these are in a list, the latest one first, and
`pruneCache` releases classes from its end.

`cache_transparent`: any requests are answered as from the file, and the classes that are kept
are the latest ones. `stays_cached`: a class that has been given out is not released before
`cacheLimit` others have been asked for.

Mirroring notes:
- The table of the records is set up once; it is a function here. So is what `gzread` and
  `relocate` make of a record's place in the file.
- A null pointer that is followed is the outcome `none`.
- `cachedCount` is an `int`; it is at most one more than the limit.
-/

namespace Sfcb.ClassProviderGz

open Sfcb.Lib

variable {ρ γ : Type}

/-- What does not change: the records under their names, and the classes in the file. -/
structure ClassRegister (ρ γ : Type) where
  ht : CStr → Option ρ
  read : ρ → γ

/-- `ClassBase`: the list of the cached records, their number, and `cachedCls` of each record. -/
structure ClassBase (ρ γ : Type) where
  cached : Links ρ
  cachedCls : ρ → Option γ
  cachedCount : Nat

/-- As `calloc` leaves it. -/
def newClassBase (ρ γ : Type) : ClassBase ρ γ := ⟨.empty ρ, fun _ => none, 0⟩

variable [DecidableEq ρ]

/-- Some rounds of the loop of `pruneCache`. -/
def pruneRounds : Nat → ClassBase ρ γ → Option (ClassBase ρ γ)
  | 0, cb => some cb
  | n + 1, cb =>
    match cb.cached.last with
    | none => none
    | some crec =>
      pruneRounds n
        { cached := cb.cached.deq crec
          cachedCls := Function.update cb.cachedCls crec none
          cachedCount := cb.cachedCount - 1 }

/-- `pruneCache`: every round of `while (cachedCount > cacheLimit)` lowers the count by one. -/
def pruneCache (cacheLimit : Nat) (cb : ClassBase ρ γ) : Option (ClassBase ρ γ) :=
  pruneRounds (cb.cachedCount - cacheLimit) cb

/-- The branch of `getClass` that reads the class. -/
def readClass (cr : ClassRegister ρ γ) (cacheLimit : Nat) (cb : ClassBase ρ γ) (crec : ρ) :
    Option (ClassBase ρ γ) :=
  let cb := { cb with
    cachedCls := Function.update cb.cachedCls crec (some (cr.read crec))
    cachedCount := cb.cachedCount + 1 }
  let pruned := if cb.cachedCount ≥ cacheLimit then pruneCache cacheLimit cb else some cb
  pruned.map fun cb => { cb with cached := cb.cached.enqTop crec }

/-- The branch for a class that is cached. -/
def useClass (cb : ClassBase ρ γ) (crec : ρ) : ClassBase ρ γ :=
  if cb.cached.first ≠ some crec then { cb with cached := (cb.cached.deq crec).enqTop crec }
  else cb

/-- `getClass`, with the class. -/
def getClass (cr : ClassRegister ρ γ) (cacheLimit : Nat) (cb : ClassBase ρ γ) (clsName : CStr) :
    Option (ClassBase ρ γ × Option γ) :=
  match cr.ht clsName with
  | none => some (cb, none)
  | some crec =>
    let cb := if (cb.cachedCls crec).isNone then readClass cr cacheLimit cb crec
      else some (useClass cb crec)
    cb.map fun cb => (cb, cb.cachedCls crec)

/-- Some requests, with their answers. -/
def getClasses (cr : ClassRegister ρ γ) (cacheLimit : Nat) :
    ClassBase ρ γ → List CStr → Option (ClassBase ρ γ × List (Option γ))
  | cb, [] => some (cb, [])
  | cb, name :: names =>
    (getClass cr cacheLimit cb name).bind fun r =>
      (getClasses cr cacheLimit r.1 names).map fun rest => (rest.1, r.2 :: rest.2)

/-! ## What the cache has -/

/-- The records of the list have their classes, and no others do. -/
structure Caches (cr : ClassRegister ρ γ) (cb : ClassBase ρ γ) (xs : List ρ) : Prop where
  list : cb.cached.Lists xs
  cls : ∀ r, cb.cachedCls r = if r ∈ xs then some (cr.read r) else none
  count : cb.cachedCount = xs.length

variable {cr : ClassRegister ρ γ} {cb : ClassBase ρ γ} {cacheLimit : Nat} {xs ys : List ρ} {crec : ρ}

theorem caches_new (cr : ClassRegister ρ γ) : Caches cr (newClassBase ρ γ) [] :=
  ⟨Links.lists_empty, fun _ => rfl, rfl⟩

/-- A class that is cached comes to the front. -/
theorem Caches.useClass (h : Caches cr cb xs) (hmem : crec ∈ xs) :
    Caches cr (useClass cb crec) (touch xs crec) := by
  have hperm : ∀ r, r ∈ touch xs crec ↔ r ∈ xs := by
    intro r
    rw [mem_touch, or_iff_right_iff_imp]
    intro hr
    rw [hr]
    exact hmem
  have hcls : ∀ r, cb.cachedCls r = if r ∈ touch xs crec then some (cr.read r) else none := by
    intro r
    rw [h.cls r]
    simp only [hperm]
  have hlength : cb.cachedCount = (touch xs crec).length := by
    have hpos := List.length_pos_of_mem hmem
    rw [h.count, touch, List.length_cons, List.length_erase_of_mem hmem]
    omega
  unfold ClassProviderGz.useClass
  by_cases hfirst : cb.cached.first = some crec
  · rw [if_neg (by simpa using hfirst)]
    rw [h.list.first_eq] at hfirst
    obtain ⟨ys, rfl⟩ := List.head?_eq_some_iff.mp hfirst
    refine ⟨?_, hcls, hlength⟩
    rw [touch, List.erase_cons_head]
    exact h.list
  · rw [if_pos hfirst]
    obtain ⟨as, bs, rfl⟩ := List.append_of_mem hmem
    have hnodup := h.list.nodup
    have has : crec ∉ as := fun hin =>
      (List.nodup_append.mp hnodup).2.2 crec hin crec List.mem_cons_self rfl
    have herase : (as ++ crec :: bs).erase crec = as ++ bs := by
      rw [List.erase_append_right _ has, List.erase_cons_head]
    refine ⟨?_, hcls, hlength⟩
    rw [touch, herase]
    apply h.list.deq.enqTop
    rw [← herase]
    exact hnodup.not_mem_erase

/-- With room, nothing is released. -/
theorem readClass_room (h : cb.cachedCount < cacheLimit) : readClass cr cacheLimit cb crec =
    some { cached := cb.cached.enqTop crec
           cachedCls := Function.update cb.cachedCls crec (some (cr.read crec))
           cachedCount := cb.cachedCount + 1 } := by
  have hrounds : cb.cachedCount + 1 - cacheLimit = 0 := by omega
  unfold readClass pruneCache
  simp only [hrounds, pruneRounds, ite_self, Option.map_some]

/-- When the cache is full, the class at the end is. -/
theorem readClass_full {l : ρ} (h : cb.cachedCount = cacheLimit) (hlast : cb.cached.last = some l) :
    readClass cr cacheLimit cb crec =
      some { cached := (cb.cached.deq l).enqTop crec
             cachedCls := Function.update
               (Function.update cb.cachedCls crec (some (cr.read crec))) l none
             cachedCount := cb.cachedCount } := by
  have hrounds : cb.cachedCount + 1 - cacheLimit = 1 := by omega
  have hmany : cb.cachedCount + 1 ≥ cacheLimit := by omega
  unfold readClass pruneCache
  simp only [hrounds, if_pos hmany, pruneRounds, hlast, Option.map_some, Nat.add_sub_cancel]

/-- The class is read, and perhaps the last one released. -/
theorem Caches.readClass (h : Caches cr cb xs) (hnew : crec ∉ xs) (hroom : xs.length ≤ cacheLimit)
    (hlimit : 0 < cacheLimit) :
    ∃ cb', readClass cr cacheLimit cb crec = some cb' ∧
      Caches cr cb' ((touch xs crec).take cacheLimit) := by
  have hcls : ∀ r, Function.update cb.cachedCls crec (some (cr.read crec)) r =
      if r = crec ∨ r ∈ xs then some (cr.read r) else none := by
    intro r
    by_cases hr : r = crec
    · simp [hr]
    · rw [Function.update_of_ne hr, h.cls r]
      simp [hr]
  rw [touch_of_notMem hnew]
  by_cases hfull : xs.length = cacheLimit
  · cases xs using List.reverseRecOn with
    | nil =>
      rw [← hfull] at hlimit
      exact absurd hlimit (Nat.lt_irrefl _)
    | append_singleton ys l =>
      have hlast : cb.cached.last = some l := by rw [h.list.last_eq, List.getLast?_concat]
      have hdeq : (cb.cached.deq l).Lists ys := by
        have hlists := h.list.deq
        rwa [List.append_nil] at hlists
      have hl : l ∉ ys := fun hin =>
        (List.nodup_append.mp h.list.nodup).2.2 l hin l List.mem_cons_self rfl
      have hcrec : crec ∉ ys := fun hin => hnew (List.mem_append_left _ hin)
      have hne : crec ≠ l := fun heq => hnew (heq ▸ List.mem_append_right _ List.mem_cons_self)
      have htake : (crec :: (ys ++ [l])).take cacheLimit = crec :: ys := by
        rw [← hfull, List.length_append, List.length_singleton, List.take_succ_cons,
          List.take_left]
      refine ⟨_, readClass_full (h.count.trans hfull) hlast, ?_⟩
      rw [htake]
      refine ⟨hdeq.enqTop hcrec, ?_, ?_⟩
      · intro r
        by_cases hr : r = l
        · simp [hr, Ne.symm hne, hl]
        · simp only [Function.update_of_ne hr, hcls r]
          simp [hr]
      · simp [h.count]
  · have hlt : xs.length < cacheLimit := Nat.lt_of_le_of_ne hroom hfull
    have htake : (crec :: xs).take cacheLimit = crec :: xs := List.take_of_length_le hlt
    refine ⟨_, readClass_room (h.count ▸ hlt), ?_⟩
    rw [htake]
    refine ⟨h.list.enqTop hnew, ?_, ?_⟩
    · intro r
      simp only [hcls r, List.mem_cons]
    · simp [h.count]

/-- One request. -/
theorem Caches.getClass (h : Caches cr cb xs) (hroom : xs.length ≤ cacheLimit)
    (hlimit : 0 < cacheLimit) (name : CStr) :
    ∃ cb', getClass cr cacheLimit cb name = some (cb', (cr.ht name).map cr.read) ∧
      Caches cr cb' (((cr.ht name).elim xs (touch xs)).take cacheLimit) := by
  unfold ClassProviderGz.getClass
  cases hfind : cr.ht name with
  | none =>
    refine ⟨cb, rfl, ?_⟩
    rw [Option.elim_none, List.take_of_length_le hroom]
    exact h
  | some crec =>
    by_cases hmem : crec ∈ xs
    · have hused := h.useClass hmem
      have hlength : (touch xs crec).length ≤ cacheLimit := by
        have hpos := List.length_pos_of_mem hmem
        rw [touch, List.length_cons, List.length_erase_of_mem hmem]
        omega
      refine ⟨ClassProviderGz.useClass cb crec, ?_, ?_⟩
      · simp [h.cls, hused.cls, hmem, mem_touch]
      · rw [Option.elim_some, List.take_of_length_le hlength]
        exact hused
    · obtain ⟨cb', hread, hcaches⟩ := h.readClass hmem hroom hlimit
      refine ⟨cb', ?_, hcaches⟩
      have hin : crec ∈ (touch xs crec).take cacheLimit := by
        obtain ⟨n, rfl⟩ := Nat.exists_eq_succ_of_ne_zero (Nat.pos_iff_ne_zero.mp hlimit)
        exact List.mem_cons_self
      simp [h.cls, hmem, hread, hcaches.cls, hin]

/-! ## Runs -/

/-- The records that some requests find. -/
def foundBy (cr : ClassRegister ρ γ) (names : List CStr) : List ρ := names.filterMap cr.ht

omit [DecidableEq ρ] in
theorem foundBy_append (names names' : List CStr) :
    foundBy cr (names ++ names') = foundBy cr names ++ foundBy cr names' :=
  List.filterMap_append

theorem getClasses_append (names names' : List CStr) :
    getClasses cr cacheLimit cb (names ++ names') =
      (getClasses cr cacheLimit cb names).bind fun r =>
        (getClasses cr cacheLimit r.1 names').map fun s => (s.1, r.2 ++ s.2) := by
  induction names generalizing cb with
  | nil => simp [getClasses]
  | cons name names ih =>
    rw [List.cons_append, getClasses, getClasses]
    cases getClass cr cacheLimit cb name with
    | none => rfl
    | some r =>
      simp only [Option.bind_some, ih, Option.bind_map, Option.map_bind]
      congr 1
      funext s
      simp [Option.map_map, Function.comp_def]

/-- The answers to some requests, and what they leave in the cache. -/
theorem getClasses_eq (cr : ClassRegister ρ γ) (hlimit : 0 < cacheLimit) (names : List CStr) :
    ∃ cb, getClasses cr cacheLimit (newClassBase ρ γ) names =
        some (cb, names.map fun name => (cr.ht name).map cr.read) ∧
      Caches cr cb ((recent (foundBy cr names)).take cacheLimit) := by
  induction names using List.reverseRecOn with
  | nil =>
    refine ⟨newClassBase ρ γ, rfl, ?_⟩
    rw [show recent (foundBy cr []) = [] from rfl, List.take_nil]
    exact caches_new cr
  | append_singleton names name ih =>
    obtain ⟨cb, hrun, hcaches⟩ := ih
    obtain ⟨cb', hget, hnext⟩ := hcaches.getClass (List.length_take_le _ _) hlimit name
    refine ⟨cb', ?_, ?_⟩
    · rw [getClasses_append, hrun, Option.bind_some, getClasses, hget]
      simp [getClasses]
    · rw [foundBy_append]
      cases hfind : cr.ht name with
      | none =>
        have hnone : foundBy cr [name] = [] := by simp [foundBy, hfind]
        rw [hnone, List.append_nil]
        rw [hfind, Option.elim_none, List.take_take, Nat.min_self] at hnext
        exact hnext
      | some crec =>
        have hone : foundBy cr [name] = [crec] := by simp [foundBy, hfind]
        rw [hone, recent_append_singleton, ← take_touch]
        rw [hfind] at hnext
        exact hnext

/-- Any requests are answered with the class in the file, if there is one, and no null pointer
is followed. The classes that are kept are the ones asked for latest, at most `cacheLimit` of
them, with the latest in front of the list. -/
theorem cache_transparent (cr : ClassRegister ρ γ) (hlimit : 0 < cacheLimit) (names : List CStr) :
    ∃ cb, getClasses cr cacheLimit (newClassBase ρ γ) names =
        some (cb, names.map fun name => (cr.ht name).map cr.read) ∧
      cb.cachedCount = min cacheLimit (recent (foundBy cr names)).length ∧
      cb.cached.Lists ((recent (foundBy cr names)).take cacheLimit) ∧
      ∀ r c, cb.cachedCls r = some c ↔
        r ∈ (recent (foundBy cr names)).take cacheLimit ∧ c = cr.read r := by
  obtain ⟨cb, hrun, hcaches⟩ := getClasses_eq cr hlimit names
  refine ⟨cb, hrun, ?_, hcaches.list, ?_⟩
  · rw [hcaches.count, List.length_take]
  · intro r c
    rw [hcaches.cls]
    by_cases hr : r ∈ (recent (foundBy cr names)).take cacheLimit
    · simp [hr, eq_comm]
    · simp [hr]

/-- A class that has been given out is still there as long as fewer than `cacheLimit` classes
have been asked for since. -/
theorem stays_cached (cr : ClassRegister ρ γ) (names later : List CStr) {name : CStr} {crec : ρ}
    (hname : cr.ht name = some crec) (hlater : (recent (foundBy cr later)).length < cacheLimit) :
    ∃ cb answers, getClasses cr cacheLimit (newClassBase ρ γ) (names ++ name :: later) =
      some (cb, answers) ∧ cb.cachedCls crec = some (cr.read crec) := by
  obtain ⟨cb, hrun, hcaches⟩ := getClasses_eq cr (Nat.zero_lt_of_lt hlater)
    (names ++ name :: later)
  refine ⟨cb, _, hrun, ?_⟩
  have hfound : foundBy cr (names ++ name :: later) =
      foundBy cr names ++ crec :: foundBy cr later := by
    rw [foundBy_append]
    simp [foundBy, hname]
  rw [hfound] at hcaches
  rw [hcaches.cls, if_pos (mem_take_recent _ _ hlater)]

/-! ## Two classes in a cache for one -/

/-- The classes are named by their first byte, and their records by its number. -/
def letters : ClassRegister Nat Nat where
  ht name := name.head?.map UInt8.toNat
  read crec := 10 * crec

theorem cache_transparent_letters :
    ∃ cb, getClasses letters 1 (newClassBase Nat Nat) [[65], [66], [65], []] =
        some (cb, [some 650, some 660, some 650, none]) ∧
      cb.cachedCount = 1 ∧ cb.cached.Lists [65] ∧
      ∀ r c, cb.cachedCls r = some c ↔ r ∈ [65] ∧ c = 10 * r :=
  cache_transparent letters Nat.one_pos [[65], [66], [65], []]

theorem stays_cached_letters :
    ∃ cb answers, getClasses letters 2 (newClassBase Nat Nat) [[65], [66], [66]] =
      some (cb, answers) ∧ cb.cachedCls 65 = some 650 :=
  stays_cached letters [] [[66], [66]] rfl (by decide)

end Sfcb.ClassProviderGz
