import Sfcb.ProviderMgr.Nearest

/-!
# What the caches change

No key of a cache has the namespace in it. `lookupProvider` remembers the entry that served
a namespace and later starts behind the entries that come before it; `getMethodProvider`
remembers what a class inherits in one namespace and answers with it in all others.
`getAssocProvider` remembers the head of a chain and always finds what it would have found.

`Filed` is what the caches of a manager hold. From it follows for each request alone when
the answer is the one without caches, and with that for a whole run.
-/

namespace Sfcb.ProviderMgr

open Sfcb.Lib

inductive Request where
  | lookupProvider (type : LookupType) (className nameSpace : CStr)
  | getAssocProvider (className nameSpace : CStr)
  | getMethodProvider (className nameSpace : CStr)
  deriving Repr, DecidableEq

def serve (m : Manager) (h : ClassHierarchy) (c : Caches) : Request → Caches × Option Nat
  | .lookupProvider type className nameSpace => lookupProvider m h c type className nameSpace
  | .getAssocProvider className nameSpace => getAssocProvider m h c className nameSpace
  | .getMethodProvider className nameSpace => getMethodProvider m h c className nameSpace

/-- Every answer of a run is the one that empty caches give. -/
def Transparent (m : Manager) (h : ClassHierarchy) : Caches → List Request → Prop
  | _, [] => True
  | c, q :: qs =>
    (serve m h c q).2 = (serve m h emptyCaches q).2 ∧ Transparent m h (serve m h c q).1 qs

/-! ## The condition -/

/-- `getProvider` has a method provider for the class. -/
def hasMethods (r : ProviderRegister) (cls : CStr) : Bool :=
  !(getProvider r cls METHOD_PROVIDER).isEmpty

/-- The nearest class on the way with a method provider is the one that the provider is
registered for; or there is none, and it is the default provider. -/
def Inherits (m : Manager) (way : List CStr × Bool) (info : ProviderInfo) : Prop :=
  match way.1.find? (hasMethods m.register) with
  | some cls => fold cls = fold info.className
  | none => way.2 ∧ m.defaultProvider = some info.id

/-- What the caches have for the class is right for this request as well. -/
def Current (m : Manager) (h : ClassHierarchy) (c : Caches) : Request → Prop
  | .lookupProvider type className nameSpace =>
    ∀ before, m.register.chain className = before ++ (c.provHt type).at (fold className) →
      (∃ info ∈ (c.provHt type).at (fold className), nameSpaceOk m.register info nameSpace) →
      ∀ info ∈ before, ¬ nameSpaceOk m.register info nameSpace
  | .getAssocProvider _ _ => True
  | .getMethodProvider className nameSpace =>
    ∀ info rest, c.methodProviderHt.at (fold className) = info :: rest →
      Inherits m (h.way nameSpace className) info

/-- The condition in front of every request. -/
def StaysCurrent (m : Manager) (h : ClassHierarchy) : Caches → List Request → Prop
  | _, [] => True
  | c, q :: qs => Current m h c q ∧ StaysCurrent m h (serve m h c q).1 qs

/-! ## What the caches hold -/

/-- The head of the chain under a key has a type. -/
def Headed (r : ProviderRegister) (key : CStr) (type : Nat) : Prop :=
  ∃ info ∈ (r.ht.at key).head?, info.supports type

structure Filed (m : Manager) (c : Caches) : Prop where
  /-- the end of a chain -/
  typed : ∀ type key, (c.provHt type).at key = [] ∨
    (Headed m.register key type.bit ∧ (c.provHt type).at key <:+ m.register.ht.at key)
  /-- a whole chain -/
  assoc : ∀ key, c.assocProviderHt.at key = [] ∨
    (Headed m.register key ASSOCIATION_PROVIDER ∧
      c.assocProviderHt.at key = m.register.ht.at key)
  /-- the whole chain of the class or of a superclass -/
  method : ∀ key info rest, c.methodProviderHt.at key = info :: rest →
    info :: rest = m.register.ht.at (fold info.className) ∧
      ∀ cls, fold cls = key → interopClass cls = false

theorem filed_emptyCaches (m : Manager) : Filed m emptyCaches :=
  ⟨fun _ _ => Or.inl rfl, fun _ => Or.inl rfl, fun _ _ _ h => by cases h⟩

section Lemmas

variable {m : Manager} {h : ClassHierarchy} {c : Caches} {nameSpace className : CStr}

theorem searchUp_found {select : CStr → List ProviderInfo} {cls start : CStr} {info : ProviderInfo}
    {rest : List ProviderInfo} (hfound : searchUp h nameSpace select start = .found cls info rest) :
    select cls = info :: rest := by
  fun_induction searchUp h nameSpace select start with
  | case1 start info' rest' hselect =>
    cases hfound
    exact hselect
  | case2 => cases hfound
  | case3 => cases hfound
  | case4 start hselect p hsuper ih => exact ih hfound

theorem getProvider_eq_cons {r : ProviderRegister} {cls : CStr} {type : Nat} {info : ProviderInfo}
    {rest : List ProviderInfo} (hget : getProvider r cls type = info :: rest) :
    r.chain cls = info :: rest ∧ info.supports type := by
  unfold getProvider at hget
  split at hget
  · cases hget
  · next head tail hchain =>
    split at hget
    · next hsupports =>
      cases hget
      exact ⟨hchain, hsupports⟩
    · cases hget

theorem getProvider_of_headed {r : ProviderRegister} {cls : CStr} {type : Nat}
    (hhead : Headed r (fold cls) type) : getProvider r cls type = r.chain cls := by
  obtain ⟨info, hinfo, hsupports⟩ := hhead
  have hinfo : (r.chain cls).head? = some info := hinfo
  unfold getProvider
  cases hchain : r.chain cls with
  | nil => rfl
  | cons head tail =>
    obtain rfl : head = info := by simpa [hchain] using hinfo
    simp [hsupports]

theorem searchUp_of_select {select : CStr → List ProviderInfo} {start : CStr} {info : ProviderInfo}
    {rest : List ProviderInfo} (hselect : select start = info :: rest) :
    searchUp h nameSpace select start = .found start info rest := by
  rw [searchUp.eq_def, hselect]

theorem searchUp_of_noClass {select : CStr → List ProviderInfo} {start : CStr}
    (hselect : select start = []) (hsuper : h.superClass nameSpace (fold start) = none) :
    searchUp h nameSpace select start = .noClass := by
  rw [searchUp.eq_def, hselect]
  dsimp only
  split <;> simp_all

theorem searchUp_of_root {select : CStr → List ProviderInfo} {start : CStr}
    (hselect : select start = []) (hsuper : h.superClass nameSpace (fold start) = some none) :
    searchUp h nameSpace select start = .root := by
  rw [searchUp.eq_def, hselect]
  dsimp only
  split <;> simp_all

theorem searchUp_of_superClass {select : CStr → List ProviderInfo} {start p : CStr}
    (hselect : select start = []) (hsuper : h.superClass nameSpace (fold start) = some (some p)) :
    searchUp h nameSpace select start = searchUp h nameSpace select p := by
  rw [searchUp.eq_def, hselect]
  dsimp only
  split <;> simp_all

/-! ## `lookupProvider` -/

theorem lookupProvider_of_hit {type : LookupType} {info : ProviderInfo}
    (hhit : ((c.provHt type).at (fold className)).find?
      (fun i => nameSpaceOk m.register i nameSpace) = some info) :
    lookupProvider m h c type className nameSpace = (c, some info.id) := by
  rw [← head?_firstServing] at hhit
  obtain ⟨rest, hrest⟩ := List.head?_eq_some_iff.mp hhit
  simp only [lookupProvider, hrest]

theorem lookupProvider_of_miss {type : LookupType}
    (hmiss : ((c.provHt type).at (fold className)).find?
      (fun i => nameSpaceOk m.register i nameSpace) = none) :
    (lookupProvider m h c type className nameSpace).2 =
      m.answer (searchUp h nameSpace (selected m.register type nameSpace) className) := by
  rw [← head?_firstServing, List.head?_eq_none_iff] at hmiss
  simp only [lookupProvider, hmiss]
  change _ = m.answer (searchUp h nameSpace
    (fun cls => firstServing m.register nameSpace (getProvider m.register cls type.bit)) className)
  cases searchUp h nameSpace
    (fun cls => firstServing m.register nameSpace (getProvider m.register cls type.bit))
    className <;> rfl

theorem lookupProvider_transparent_iff {last : Nat} (hkeyed : m.register.ht.Keyed last)
    (hfiled : Filed m c) (type : LookupType) (className nameSpace : CStr) :
    (lookupProvider m h c type className nameSpace).2 =
        (lookupProvider m h emptyCaches type className nameSpace).2 ↔
      Current m h c (.lookupProvider type className nameSpace) := by
  rw [lookupProvider_of_miss (c := emptyCaches) rfl]
  cases hhit : ((c.provHt type).at (fold className)).find?
      (fun i => nameSpaceOk m.register i nameSpace) with
  | none =>
    rw [lookupProvider_of_miss hhit]
    refine ⟨fun _ before _ hserves => ?_, fun _ => rfl⟩
    obtain ⟨info, hinfo, hok⟩ := hserves
    exact absurd hok (List.find?_eq_none.mp hhit info hinfo)
  | some x =>
    have hx := List.mem_of_find?_eq_some hhit
    have hxok : nameSpaceOk m.register x nameSpace := by simpa using List.find?_some hhit
    obtain hnil | ⟨hheaded, before, hchain⟩ := hfiled.typed type (fold className)
    · rw [hnil] at hx
      exact absurd hx List.not_mem_nil
    · have hchain : before ++ (c.provHt type).at (fold className) = m.register.chain className :=
        hchain
      -- without a cache the search takes the first entry of the whole chain
      obtain ⟨y, hy⟩ : ∃ y, (m.register.chain className).find?
          (fun i => nameSpaceOk m.register i nameSpace) = some y := by
        refine Option.isSome_iff_exists.mp (List.find?_isSome.mpr ⟨x, ?_, hxok⟩)
        rw [← hchain]
        exact List.mem_append_right _ hx
      have hfresh : ∃ rest, selected m.register type nameSpace className = y :: rest := by
        refine List.head?_eq_some_iff.mp ?_
        rw [selected, head?_firstServing, getProvider_of_headed hheaded, hy]
      obtain ⟨rest, hfresh⟩ := hfresh
      rw [lookupProvider_of_hit hhit, searchUp_of_select hfresh, Manager.answer, Option.some.injEq]
      have hnodup :
          ((before ++ (c.provHt type).at (fold className)).map ProviderInfo.id).Nodup := by
        rw [hchain]
        exact hkeyed.nodup (fold className)
      rw [List.map_append, List.nodup_append] at hnodup
      rw [← hchain, List.find?_append] at hy
      constructor
      · intro hid before' hchain' _ info hinfo hok
        obtain rfl : before' = before := List.append_cancel_right (hchain'.symm.trans hchain.symm)
        obtain ⟨z, hz⟩ :
            ∃ z, before'.find? (fun i => nameSpaceOk m.register i nameSpace) = some z :=
          Option.isSome_iff_exists.mp (List.find?_isSome.mpr ⟨info, hinfo, hok⟩)
        rw [hz, Option.some_or, Option.some.injEq] at hy
        subst hy
        exact hnodup.2.2 z.id (List.mem_map_of_mem (List.mem_of_find?_eq_some hz)) x.id
          (List.mem_map_of_mem hx) hid.symm
      · intro hcurrent
        have hnone : before.find? (fun i => nameSpaceOk m.register i nameSpace) = none :=
          List.find?_eq_none.mpr fun info hinfo =>
            hcurrent before hchain.symm ⟨x, hx, hxok⟩ info hinfo
        rw [hnone, Option.none_or, hhit, Option.some.injEq] at hy
        rw [hy]

theorem at_putIfAbsent (ht : ProviderTable) (cls key : CStr) (chain : List ProviderInfo) :
    (putIfAbsent ht cls chain).at key = ht.at key ∨
      (key = fold cls ∧ (putIfAbsent ht cls chain).at key = chain) := by
  unfold putIfAbsent
  split
  · rw [at_insert]
    split
    · next hkey => exact Or.inr ⟨hkey, rfl⟩
    · exact Or.inl rfl
  · exact Or.inl rfl

theorem headed_of_suffix {r : ProviderRegister} {cls : CStr} {type : Nat} {info : ProviderInfo}
    {rest : List ProviderInfo} (hsuffix : info :: rest <:+ getProvider r cls type) :
    Headed r (fold cls) type ∧ info :: rest <:+ r.ht.at (fold cls) := by
  cases hget : getProvider r cls type with
  | nil =>
    rw [hget] at hsuffix
    exact absurd (List.suffix_nil.mp hsuffix) (by simp)
  | cons head tail =>
    obtain ⟨hchain, hsupports⟩ := getProvider_eq_cons hget
    have hchain : r.ht.at (fold cls) = head :: tail := hchain
    rw [hget] at hsuffix
    exact ⟨⟨head, by simp [hchain], hsupports⟩, by rw [hchain]; exact hsuffix⟩

theorem filed_lookupProvider (hfiled : Filed m c) (type : LookupType)
    (className nameSpace : CStr) :
    Filed m (lookupProvider m h c type className nameSpace).1 := by
  unfold lookupProvider
  dsimp only
  split
  · exact hfiled
  · split
    · next cls info rest hfound =>
      have hselect := searchUp_found hfound
      refine ⟨?_, hfiled.assoc, hfiled.method⟩
      intro type' key
      by_cases htype : type' = type
      · subst htype
        dsimp only
        rw [Function.update_self]
        rcases at_putIfAbsent (c.provHt type') cls key (info :: rest) with heq | ⟨rfl, heq⟩
        · rw [heq]
          exact hfiled.typed type' key
        · rw [heq]
          have hsuffix : info :: rest <:+ getProvider m.register cls type'.bit := by
            rw [← hselect]
            exact List.dropWhile_suffix _
          exact Or.inr (headed_of_suffix hsuffix)
      · dsimp only
        rw [Function.update_of_ne htype]
        exact hfiled.typed type' key
    · exact hfiled
    · exact hfiled

/-! ## `getAssocProvider` -/

/-- What `getAssocProvider` looks for at a class. -/
def assocSelected (r : ProviderRegister) (nameSpace cls : CStr) : List ProviderInfo :=
  firstServing r nameSpace (getProvider r cls ASSOCIATION_PROVIDER)

/-- The answer of the loop does not depend on the cache. -/
theorem assocSearch_snd (m : Manager) (h : ClassHierarchy) (nameSpace : CStr) (ht : ProviderTable)
    (cls : CStr) :
    (assocSearch m h nameSpace ht cls).2 =
      m.answer (searchUp h nameSpace (assocSelected m.register nameSpace) cls) := by
  fun_induction assocSearch m h nameSpace ht cls with
  | case1 ht cls chain ht' info rest hserving =>
    have hselect : assocSelected m.register nameSpace cls = info :: rest := hserving
    rw [searchUp_of_select hselect, Manager.answer]
  | case2 ht cls chain ht' hserving hsuper =>
    have hselect : assocSelected m.register nameSpace cls = [] := hserving
    rw [searchUp_of_noClass hselect hsuper, Manager.answer]
  | case3 ht cls chain ht' hserving hsuper =>
    have hselect : assocSelected m.register nameSpace cls = [] := hserving
    rw [searchUp_of_root hselect hsuper, Manager.answer]
  | case4 ht cls chain ht' hserving p hsuper ih =>
    have hselect : assocSelected m.register nameSpace cls = [] := hserving
    rw [searchUp_of_superClass hselect hsuper, ih]

/-- A cache of whole chains. -/
def ChainsOnly (m : Manager) (ht : ProviderTable) : Prop :=
  ∀ key, ht.at key = [] ∨
    (Headed m.register key ASSOCIATION_PROVIDER ∧ ht.at key = m.register.ht.at key)

theorem chainsOnly_cacheHead {ht : ProviderTable} (hht : ChainsOnly m ht) (cls : CStr) :
    ChainsOnly m (cacheHead ht cls (getProvider m.register cls ASSOCIATION_PROVIDER)) := by
  cases hget : getProvider m.register cls ASSOCIATION_PROVIDER with
  | nil => exact hht
  | cons info rest =>
    have hsuffix : info :: rest <:+ getProvider m.register cls ASSOCIATION_PROVIDER :=
      hget ▸ List.suffix_refl _
    obtain ⟨hheaded, -⟩ := headed_of_suffix hsuffix
    obtain ⟨hchain, -⟩ := getProvider_eq_cons hget
    intro key
    rw [cacheHead]
    rcases at_putIfAbsent ht cls key (info :: rest) with heq | ⟨rfl, heq⟩
    · rw [heq]
      exact hht key
    · exact Or.inr ⟨hheaded, heq.trans hchain.symm⟩

theorem chainsOnly_assocSearch {ht : ProviderTable} (hht : ChainsOnly m ht) (cls : CStr) :
    ChainsOnly m (assocSearch m h nameSpace ht cls).1 := by
  fun_induction assocSearch m h nameSpace ht cls with
  | case1 ht cls chain ht' info rest hserving => exact chainsOnly_cacheHead hht cls
  | case2 ht cls chain ht' hserving hsuper => exact chainsOnly_cacheHead hht cls
  | case3 ht cls chain ht' hserving hsuper => exact chainsOnly_cacheHead hht cls
  | case4 ht cls chain ht' hserving p hsuper ih => exact ih (chainsOnly_cacheHead hht cls)

theorem getAssocProvider_transparent (hfiled : Filed m c) (className nameSpace : CStr) :
    (getAssocProvider m h c className nameSpace).2 =
      (getAssocProvider m h emptyCaches className nameSpace).2 := by
  have hempty : (getAssocProvider m h emptyCaches className nameSpace).2 =
      m.answer (searchUp h nameSpace (assocSelected m.register nameSpace) className) :=
    assocSearch_snd ..
  rw [hempty]
  unfold getAssocProvider
  split
  · next info rest hhit =>
    rcases hfiled.assoc (fold className) with hnil | ⟨hheaded, hchain⟩
    · rw [hnil] at hhit
      cases hhit
    · have hselect : assocSelected m.register nameSpace className = info :: rest := by
        rw [assocSelected, getProvider_of_headed hheaded, ← hhit, hchain]
        rfl
      rw [searchUp_of_select hselect, Manager.answer]
  · exact assocSearch_snd ..

theorem filed_getAssocProvider (hfiled : Filed m c) (className nameSpace : CStr) :
    Filed m (getAssocProvider m h c className nameSpace).1 := by
  unfold getAssocProvider
  split
  · exact hfiled
  · exact ⟨hfiled.typed, chainsOnly_assocSearch hfiled.assoc className, hfiled.method⟩

/-! ## `getMethodProvider` -/

/-- What `getMethodProvider` looks for at a class. -/
def methodSelected (r : ProviderRegister) (cls : CStr) : List ProviderInfo :=
  getProvider r cls METHOD_PROVIDER

theorem firstOn_of_find? {r : ProviderRegister} {root : Bool} {way : List CStr} {cls : CStr}
    (hfind : way.find? (hasMethods r) = some cls) :
    ∃ info rest, methodSelected r cls = info :: rest ∧
      firstOn (methodSelected r) root way = .found cls info rest := by
  induction way with
  | nil => cases hfind
  | cons d way ih =>
    cases hselect : methodSelected r d with
    | nil =>
      have hno : ¬ hasMethods r d = true := by simpa [hasMethods, methodSelected] using hselect
      rw [List.find?_cons_of_neg hno] at hfind
      obtain ⟨info, rest, hcls, hfirst⟩ := ih hfind
      exact ⟨info, rest, hcls, by simp only [firstOn, hselect, hfirst]⟩
    | cons info rest =>
      have hyes : hasMethods r d = true := by
        rw [methodSelected] at hselect
        simp [hasMethods, hselect]
      rw [List.find?_cons_of_pos hyes, Option.some.injEq] at hfind
      subst hfind
      exact ⟨info, rest, hselect, by simp only [firstOn, hselect]⟩

theorem firstOn_of_find?_none {r : ProviderRegister} {root : Bool} {way : List CStr}
    (hfind : way.find? (hasMethods r) = none) :
    firstOn (methodSelected r) root way = if root then .root else .noClass := by
  induction way with
  | nil => rfl
  | cons d way ih =>
    have hno := List.find?_eq_none.mp hfind d List.mem_cons_self
    have hselect : methodSelected r d = [] := by simpa [hasMethods, methodSelected] using hno
    rw [List.find?_cons_of_neg hno] at hfind
    simp only [firstOn, hselect, ih hfind]

theorem interopClass_congr {cls cls' : CStr} (h : fold cls = fold cls') :
    interopClass cls = interopClass cls' := by
  have hmap : cls.map toLower = cls'.map toLower := h
  simp only [interopClass, strcasecmp, hmap]

theorem getMethodProvider_emptyCaches (hinterop : interopClass className = false) :
    (getMethodProvider m h emptyCaches className nameSpace).2 =
      m.answer (searchUp h nameSpace (methodSelected m.register) className) := by
  have hmiss : emptyCaches.methodProviderHt.at (fold className) = [] := rfl
  simp only [getMethodProvider, hmiss, hinterop]
  change _ = m.answer (searchUp h nameSpace
    (fun cls => getProvider m.register cls METHOD_PROVIDER) className)
  cases searchUp h nameSpace (fun cls => getProvider m.register cls METHOD_PROVIDER)
    className <;> rfl

theorem getMethodProvider_of_miss (hmiss : c.methodProviderHt.at (fold className) = []) :
    (getMethodProvider m h c className nameSpace).2 =
      (getMethodProvider m h emptyCaches className nameSpace).2 := by
  have hempty : emptyCaches.methodProviderHt.at (fold className) = [] := rfl
  simp only [getMethodProvider, hmiss, hempty]
  split
  · rfl
  · cases searchUp h nameSpace (fun cls => getProvider m.register cls METHOD_PROVIDER)
      className <;> rfl

theorem getMethodProvider_transparent_iff {last : Nat} (hkeyed : m.register.ht.Keyed last)
    (hfiled : Filed m c) (className nameSpace : CStr) :
    (getMethodProvider m h c className nameSpace).2 =
        (getMethodProvider m h emptyCaches className nameSpace).2 ↔
      Current m h c (.getMethodProvider className nameSpace) := by
  cases hhit : c.methodProviderHt.at (fold className) with
  | nil =>
    refine ⟨fun _ info rest hcached => ?_, fun _ => getMethodProvider_of_miss hhit⟩
    rw [hhit] at hcached
    cases hcached
  | cons info rest =>
    obtain ⟨hchain, hinterop⟩ := hfiled.method (fold className) info rest hhit
    have hinfo : info ∈ m.register.ht.at (fold info.className) := hchain ▸ List.mem_cons_self
    have hserved : (getMethodProvider m h c className nameSpace).2 = some info.id := by
      simp only [getMethodProvider, hhit]
    rw [hserved, getMethodProvider_emptyCaches (hinterop className rfl)]
    have hcurrent : Current m h c (.getMethodProvider className nameSpace) ↔
        Inherits m (h.way nameSpace className) info := by
      refine ⟨fun hall => hall info rest hhit, fun hone info' rest' hhit' => ?_⟩
      rw [hhit] at hhit'
      cases hhit'
      exact hone
    rw [hcurrent, searchUp_eq_firstOn, Inherits]
    cases hfind : (h.way nameSpace className).1.find? (hasMethods m.register) with
    | some cls =>
      obtain ⟨x, rest', hselect, hfirst⟩ := firstOn_of_find? hfind
      have hx : m.register.ht.at (fold cls) = x :: rest' := (getProvider_eq_cons hselect).1
      rw [hfirst, Manager.answer, Option.some.injEq]
      constructor
      · intro hid
        exact (hkeyed.apart _ _ info hinfo x (hx ▸ List.mem_cons_self) hid).symm
      · intro hfold
        rw [hfold, ← hchain] at hx
        rw [(List.cons.inj hx).1]
    | none =>
      rw [firstOn_of_find?_none hfind]
      cases (h.way nameSpace className).2 with
      | false => simp [Manager.answer]
      | true => simp [Manager.answer, eq_comm]

theorem filed_getMethodProvider {last : Nat} (hkeyed : m.register.ht.Keyed last)
    (hfiled : Filed m c) (className nameSpace : CStr) :
    Filed m (getMethodProvider m h c className nameSpace).1 := by
  unfold getMethodProvider
  split
  · exact hfiled
  · split
    · exact hfiled
    · next hinterop =>
      split
      · next cls info rest hfound =>
        refine ⟨hfiled.typed, hfiled.assoc, ?_⟩
        intro key info' rest' hat
        obtain ⟨hchain, -⟩ := getProvider_eq_cons (searchUp_found hfound)
        dsimp only at hat
        rw [at_insert] at hat
        split at hat
        · next hkey =>
          cases hat
          have hclass : fold info.className = fold cls :=
            hkeyed.className (fold cls) info (by
              rw [ProviderRegister.chain] at hchain
              rw [hchain]
              exact List.mem_cons_self)
          refine ⟨by rw [hclass]; exact hchain.symm, fun cls' hcls' => ?_⟩
          rw [interopClass_congr (hcls'.trans hkey)]
          simpa using hinterop
        · exact hfiled.method key info' rest' hat
      · exact hfiled
      · exact hfiled

end Lemmas

/-! ## Runs -/

section Run

variable {m : Manager} {h : ClassHierarchy} {c : Caches} {last : Nat}
  (hkeyed : m.register.ht.Keyed last)
include hkeyed

theorem serve_transparent_iff (hfiled : Filed m c) (q : Request) :
    (serve m h c q).2 = (serve m h emptyCaches q).2 ↔ Current m h c q := by
  cases q with
  | lookupProvider type className nameSpace =>
    exact lookupProvider_transparent_iff hkeyed hfiled type className nameSpace
  | getAssocProvider className nameSpace =>
    exact iff_of_true (getAssocProvider_transparent hfiled className nameSpace) trivial
  | getMethodProvider className nameSpace =>
    exact getMethodProvider_transparent_iff hkeyed hfiled className nameSpace

theorem filed_serve (hfiled : Filed m c) (q : Request) : Filed m (serve m h c q).1 := by
  cases q with
  | lookupProvider type className nameSpace => exact filed_lookupProvider hfiled type _ _
  | getAssocProvider className nameSpace => exact filed_getAssocProvider hfiled _ _
  | getMethodProvider className nameSpace => exact filed_getMethodProvider hkeyed hfiled _ _

theorem transparent_iff_staysCurrent (hfiled : Filed m c) (qs : List Request) :
    Transparent m h c qs ↔ StaysCurrent m h c qs := by
  induction qs generalizing c with
  | nil => exact Iff.rfl
  | cons q qs ih =>
    rw [Transparent, StaysCurrent, serve_transparent_iff hkeyed hfiled q,
      ih (filed_serve hkeyed hfiled q)]

end Run

/-- The answers of a run of requests are those of empty caches exactly when what is in the
caches stays right for what is asked. -/
theorem lookups_transparent_iff {exFlags : Bool} {infos : List ProviderInfo} {m : Manager}
    (hload : newProviderRegister exFlags infos = .ok m.register) (h : ClassHierarchy)
    (qs : List Request) :
    Transparent m h emptyCaches qs ↔ StaysCurrent m h emptyCaches qs := by
  obtain ⟨last, hkeyed⟩ := keyed_newProviderRegister hload
  exact transparent_iff_staysCurrent hkeyed (filed_emptyCaches m) qs

/-- Every kind of look-up, each of them twice. -/
theorem lookups_transparent_iff_methods :
    let qs : List Request :=
      [.lookupProvider .INSTANCE_PROVIDER (lit "A") (lit "root/cimv2"),
        .getMethodProvider (lit "A") (lit "root/cimv2"),
        .getAssocProvider (lit "A") (lit "root/cimv2"),
        .getMethodProvider (lit "a") (lit "root/cimv2"),
        .lookupProvider .INSTANCE_PROVIDER (lit "a") (lit "root/cimv2"),
        .getAssocProvider (lit "A") (lit "root/cimv2")]
    newProviderRegister false entriesOfA = .ok registerOfA ∧
    (Transparent ⟨registerOfA, false⟩ rootClasses emptyCaches qs ↔
      StaysCurrent ⟨registerOfA, false⟩ rootClasses emptyCaches qs) :=
  ⟨rfl, lookups_transparent_iff newProviderRegister_entriesOfA rootClasses _⟩

/-- Two providers for the class `A`; the second one serves another namespace as well. -/
def entriesOfTwo : List ProviderInfo :=
  [⟨lit "$ClassProvider$", 32, some (lit "ClassProvider"), some (lit "*", []), 0⟩,
    ⟨lit "A", 1, some (lit "P1"), some (lit "root/a", []), 0⟩,
    ⟨lit "A", 1, some (lit "P2"), some (lit "root/a", [lit "root/c"]), 0⟩]

def registerOfTwo : ProviderRegister :=
  match newProviderRegister false entriesOfTwo with
  | .ok r => r
  | .error _ => emptyRegister

/-- After a request in `root/c` the second provider is taken in `root/a`. -/
theorem not_transparent_other_namespace :
    newProviderRegister false entriesOfTwo = .ok registerOfTwo ∧
    ¬ Transparent ⟨registerOfTwo, false⟩ rootClasses emptyCaches
      [.lookupProvider .INSTANCE_PROVIDER (lit "A") (lit "root/c"),
        .lookupProvider .INSTANCE_PROVIDER (lit "A") (lit "root/a")] := by
  refine ⟨rfl, fun hrun => ?_⟩
  obtain ⟨-, hanswer, -⟩ := hrun
  obtain ⟨p2, hc, hid2, hok2⟩ : ∃ p2,
      selected registerOfTwo .INSTANCE_PROVIDER (lit "root/c") (lit "A") = [p2] ∧ p2.id = 3 ∧
        nameSpaceOk registerOfTwo p2 (lit "root/a") := ⟨_, rfl, rfl, by decide⟩
  obtain ⟨p1, rest, ha, hid1⟩ : ∃ p1 rest,
      selected registerOfTwo .INSTANCE_PROVIDER (lit "root/a") (lit "A") = p1 :: rest ∧
        p1.id = 2 := ⟨_, _, rfl, rfl⟩
  have hsearch : searchUp rootClasses (lit "root/c") (fun cls => firstServing registerOfTwo
      (lit "root/c") (getProvider registerOfTwo cls LookupType.INSTANCE_PROVIDER.bit)) (lit "A") =
      .found (lit "A") p2 [] := searchUp_of_select hc
  have hmiss : firstServing registerOfTwo (lit "root/c")
      ((emptyCaches.provHt .INSTANCE_PROVIDER).at (fold (lit "A"))) = [] := rfl
  have hcached : ((serve ⟨registerOfTwo, false⟩ rootClasses emptyCaches
      (.lookupProvider .INSTANCE_PROVIDER (lit "A") (lit "root/c"))).1.provHt
        .INSTANCE_PROVIDER).at (fold (lit "A")) = [p2] := by
    simp only [serve, lookupProvider, hmiss, hsearch, Function.update_self]
    rfl
  have hfind : (((serve ⟨registerOfTwo, false⟩ rootClasses emptyCaches
      (.lookupProvider .INSTANCE_PROVIDER (lit "A") (lit "root/c"))).1.provHt
        .INSTANCE_PROVIDER).at (fold (lit "A"))).find?
      (fun i => nameSpaceOk registerOfTwo i (lit "root/a")) = some p2 := by
    rw [hcached]
    simp [hok2]
  have hserved : (serve ⟨registerOfTwo, false⟩ rootClasses
      (serve ⟨registerOfTwo, false⟩ rootClasses emptyCaches
        (.lookupProvider .INSTANCE_PROVIDER (lit "A") (lit "root/c"))).1
      (.lookupProvider .INSTANCE_PROVIDER (lit "A") (lit "root/a"))).2 = some p2.id :=
    congrArg Prod.snd (lookupProvider_of_hit hfind)
  have hfresh : (serve ⟨registerOfTwo, false⟩ rootClasses emptyCaches
      (.lookupProvider .INSTANCE_PROVIDER (lit "A") (lit "root/a"))).2 = some p1.id := by
    refine (lookupProvider_of_miss rfl).trans ?_
    rw [searchUp_of_select ha, Manager.answer]
  rw [hserved, hfresh, hid1, hid2] at hanswer
  simp at hanswer

end Sfcb.ProviderMgr
