import Mathlib.Data.List.TakeWhile
import Sfcb.Lib.Forest
import Sfcb.ProviderMgr.CacheTransparency

/-!
# Looking up the providers of a class and its subclasses

`addProviders` and `lookupProviders` of `providerMgr.c`. The list is to have what
`lookupProvider` finds for a class and for all classes below it, and the indication providers
that stand in the chains behind.

`addProviders` returns before it asks for the children of a class without a provider; a
provider that does not serve the namespace, as the default provider may be, is not added; and a
chain is left behind the first entry that is no indication provider. `lookupProviders_iff` says
when the list is the right one in spite of these.

Mirroring notes:
- `_getConstClassChildren` is the list of the children of a class. That a class lookup reports
  an error is that the class hierarchy does not have the class.
- A pointer to a provider is its `id`, and what is behind it is what the register has behind it.
- `provHt` has one table for the lists of instance providers, and for the other types it gives
  the table of the single providers. The key of a list has a `|` in it, which no class name has,
  so the lists are in tables of their own here.
-/

namespace Sfcb.ProviderMgr

open Sfcb.Lib

/-- `INDICATION_PROVIDER`. -/
def INDICATION_PROVIDER : Nat := 4

/-- The classes of each namespace with their children. -/
structure ClassTree extends ClassHierarchy where
  /-- by namespace and folded class name -/
  children : CStr → CStr → List CStr
  children_iff : ∀ ns k l, (∃ child ∈ children ns k, fold child = l) ↔
    ∃ p, superClass ns l = some (some p) ∧ fold p = k
  /-- the tree is finite -/
  height : CStr → CStr → Nat
  lower : ∀ ns k, ∀ child ∈ children ns k, height ns (fold child) < height ns k

/-- The part of a chain from the entry with an id on. -/
def startingAt (id : Nat) (chain : List ProviderInfo) : Option (List ProviderInfo) :=
  match chain.dropWhile fun info => info.id ≠ id with
  | [] => none
  | info :: rest => some (info :: rest)

/-- What a pointer to a provider leads to along `nextInRegister`. -/
def ProviderRegister.chainFrom (r : ProviderRegister) (id : Nat) : List ProviderInfo :=
  (r.ht.entries.findSome? fun e => startingAt id e.2).getD []

/-- A lookup in the class hierarchy reports an error. -/
def lookupFails (m : Manager) (h : ClassHierarchy) (c : Caches) (type : LookupType)
    (className nameSpace : CStr) : Bool :=
  (firstServing m.register nameSpace ((c.provHt type).at (fold className))).isEmpty &&
    searchUp h nameSpace
      (fun cls => firstServing m.register nameSpace (getProvider m.register cls type.bit))
      className = .noClass

/-- The loop along a chain. -/
def addChain (r : ProviderRegister) (nameSpace : CStr) (list : List Nat) :
    List ProviderInfo → List Nat
  | [] => list
  | ip :: next =>
    let list := if nameSpaceOk r ip nameSpace ∧ ip.id ∉ list then ip.id :: list else list
    if ip.supports INDICATION_PROVIDER then addChain r nameSpace list next else list

/-- The caches and the list as they are filled, and whether an error has been reported. -/
structure Adding where
  caches : Caches
  list : List Nat
  failed : Bool

/-- `addProviders`. -/
def addProviders (m : Manager) (t : ClassTree) (type : LookupType) (nameSpace className : CStr)
    (s : Adding) : Adding :=
  let failed := lookupFails m t.toClassHierarchy s.caches type className nameSpace
  match lookupProvider m t.toClassHierarchy s.caches type className nameSpace with
  | (caches, none) => ⟨caches, s.list, failed⟩
  | (caches, some ip) =>
    let s : Adding := ⟨caches, addChain m.register nameSpace s.list (m.register.chainFrom ip), false⟩
    (t.children nameSpace (fold className)).attach.foldl
      (fun s child => if s.failed then s else addProviders m t type nameSpace child.1 s) s
termination_by t.height nameSpace (fold className)
decreasing_by exact t.lower nameSpace _ child.1 child.2

/-- The lists that `lookupProviders` has built. -/
abbrev ProviderLists := LookupType → Table CStr (List Nat)

/-- `lookupProviders`: the caches, the lists, and the list for the class, `NULL` on an error. -/
def lookupProviders (m : Manager) (t : ClassTree) (c : Caches) (lists : ProviderLists)
    (type : LookupType) (className nameSpace : CStr) :
    Caches × ProviderLists × Option (List Nat) :=
  let id := fold (nameSpace ++ lit "|" ++ className)
  match (lists type).lookup id with
  | some list => (c, lists, some list)
  | none =>
    let s := addProviders m t type nameSpace className ⟨c, [], false⟩
    if s.failed then (s.caches, lists, none)
    else (s.caches, Function.update lists type ((lists type).insert id s.list), some s.list)

/-! ## What the list is to have -/

/-- The forest of the classes of a namespace, by folded name. -/
def ClassHierarchy.forest (h : ClassHierarchy) (nameSpace : CStr) : Forest CStr where
  parent k := match h.superClass nameSpace k with
    | some (some p) => some (fold p)
    | _ => none
  rank := h.depth nameSpace
  rank_lt k p hp := by
    split at hp
    · next q hq =>
      cases hp
      exact h.descends nameSpace k q hq
    · cases hp

/-- `d` is the class or below it. -/
def ClassTree.InTree (t : ClassTree) (nameSpace cls d : CStr) : Prop :=
  (t.forest nameSpace).Descends (fold cls) (fold d)

/-- What `lookupProvider` returns. -/
def provider (m : Manager) (h : ClassHierarchy) (c : Caches) (type : LookupType)
    (nameSpace className : CStr) : Option Nat :=
  (lookupProvider m h c type className nameSpace).2

/-- A later entry of the chain of an indication provider, valid in the namespace. -/
def LaterInChain (r : ProviderRegister) (nameSpace : CStr) (ip id : Nat) : Prop :=
  ∃ head rest, r.chainFrom ip = head :: rest ∧ head.supports INDICATION_PROVIDER ∧
    ∃ info ∈ rest, nameSpaceOk r info nameSpace ∧ info.id = id

/-- A provider that belongs into the list. -/
def Belongs (m : Manager) (t : ClassTree) (c : Caches) (type : LookupType) (nameSpace cls : CStr)
    (id : Nat) : Prop :=
  ∃ d ip, t.InTree nameSpace cls d ∧
    provider m t.toClassHierarchy c type nameSpace d = some ip ∧
    (id = ip ∨ LaterInChain m.register nameSpace ip id)

/-- An entry that is reached from a provider with indication providers only before it, valid in
the namespace. -/
def Joined (r : ProviderRegister) (nameSpace : CStr) (ip id : Nat) : Prop :=
  ∃ before info after, r.chainFrom ip = before ++ info :: after ∧
    (∀ x ∈ before, x.supports INDICATION_PROVIDER) ∧ nameSpaceOk r info nameSpace ∧ info.id = id

/-! ## What is behind a pointer -/

section From

variable {r : ProviderRegister} {id last : Nat} {info : ProviderInfo}
  {chain rest : List ProviderInfo}

theorem startingAt_eq_some : startingAt id chain = some (info :: rest) →
    info.id = id ∧ ∃ before, chain = before ++ info :: rest := by
  unfold startingAt
  intro h
  split at h
  · cases h
  · next info' rest' hdrop =>
    cases h
    have hhead := List.head?_dropWhile_not (fun info : ProviderInfo => decide (info.id ≠ id)) chain
    rw [hdrop] at hhead
    refine ⟨by simpa using hhead, chain.takeWhile fun info => info.id ≠ id, ?_⟩
    rw [← hdrop, List.takeWhile_append_dropWhile]

theorem startingAt_of_mem (hinfo : info ∈ chain) :
    ∃ info' rest, startingAt info.id chain = some (info' :: rest) := by
  unfold startingAt
  split
  · next hdrop =>
    have := List.dropWhile_eq_nil_iff.mp hdrop info hinfo
    simp at this
  · exact ⟨_, _, rfl⟩

theorem chainFrom_eq_cons (hfrom : r.chainFrom id = info :: rest) :
    info.id = id ∧ ∃ key before, r.ht.at key = before ++ info :: rest := by
  unfold ProviderRegister.chainFrom at hfrom
  cases hfind : r.ht.entries.findSome? fun e => startingAt id e.2 with
  | none => simp [hfind] at hfrom
  | some l =>
    obtain rfl : l = info :: rest := by simpa [hfind] using hfrom
    obtain ⟨⟨key, chain⟩, hmem, hstart⟩ := List.exists_of_findSome?_eq_some hfind
    obtain ⟨hid, before, hchain⟩ := startingAt_eq_some hstart
    refine ⟨hid, key, before, ?_⟩
    have hlookup : r.ht.lookup key = some chain := AList.mem_lookup_iff.mpr hmem
    rw [ProviderTable.at, hlookup, Option.getD_some]
    exact hchain

theorem chainFrom_one_chain (r : ProviderRegister) (id : Nat) :
    ∃ key, ∀ x ∈ r.chainFrom id, x ∈ r.ht.at key := by
  cases hfrom : r.chainFrom id with
  | nil => exact ⟨[], by simp⟩
  | cons info rest =>
    obtain ⟨-, key, before, hat⟩ := chainFrom_eq_cons hfrom
    exact ⟨key, fun x hx => hat ▸ List.mem_append_right before hx⟩

theorem chainFrom_head (hne : r.chainFrom id ≠ []) : ∃ head ∈ r.chainFrom id, head.id = id := by
  obtain ⟨head, rest, hfrom⟩ := List.exists_cons_of_ne_nil hne
  exact ⟨head, hfrom ▸ List.mem_cons_self, (chainFrom_eq_cons hfrom).1⟩

theorem chainFrom_ne_nil {key : CStr} (hinfo : info ∈ r.ht.at key) : r.chainFrom info.id ≠ [] := by
  unfold ProviderTable.at at hinfo
  cases hlookup : r.ht.lookup key with
  | none => simp [hlookup] at hinfo
  | some chain =>
    have hmem : ⟨key, chain⟩ ∈ r.ht.entries := AList.mem_lookup_iff.mp hlookup
    obtain ⟨info', rest, hstart⟩ := startingAt_of_mem (by simpa [hlookup] using hinfo)
    unfold ProviderRegister.chainFrom
    cases hfind : r.ht.entries.findSome? fun e => startingAt info.id e.2 with
    | none =>
      have := List.findSome?_eq_none_iff.mp hfind _ hmem
      rw [hstart] at this
      cases this
    | some l =>
      obtain ⟨e, -, he⟩ := List.exists_of_findSome?_eq_some hfind
      intro hnil
      obtain rfl : l = [] := by simpa using hnil
      unfold startingAt at he
      split at he <;> cases he

/-- Every entry of the register is found by its id. -/
theorem chainFrom_eq_of_mem {key : CStr} (hkeyed : r.ht.Keyed last) (hinfo : info ∈ r.ht.at key) :
    ∃ rest, r.chainFrom info.id = info :: rest := by
  obtain ⟨head, rest, hfrom⟩ := List.exists_cons_of_ne_nil (chainFrom_ne_nil hinfo)
  obtain ⟨hid, key', before, hat⟩ := chainFrom_eq_cons hfrom
  have hhead : head ∈ r.ht.at key' := by simp [hat]
  have hkey := hkeyed.apart _ _ head hhead info hinfo hid
  subst hkey
  obtain rfl : head = info := List.inj_on_of_nodup_map (hkeyed.nodup key') hhead hinfo hid
  exact ⟨rest, hfrom⟩

end From

/-! ## The loop along a chain -/

section Chain

variable {r : ProviderRegister} {nameSpace : CStr} {list : List Nat} {chain : List ProviderInfo}

theorem mem_addChain_iff (id : Nat) : id ∈ addChain r nameSpace list chain ↔
    id ∈ list ∨ ∃ before info after, chain = before ++ info :: after ∧
      (∀ x ∈ before, x.supports INDICATION_PROVIDER) ∧ nameSpaceOk r info nameSpace ∧
      info.id = id := by
  induction chain generalizing list with
  | nil => simp [addChain]
  | cons ip next ih =>
    have hfirst : (id ∈ if nameSpaceOk r ip nameSpace ∧ ip.id ∉ list then ip.id :: list else list) ↔
        id ∈ list ∨ (nameSpaceOk r ip nameSpace ∧ ip.id = id) := by
      split
      · next h => simp [h.1, eq_comm, or_comm]
      · next h =>
        refine ⟨.inl, fun hor => hor.elim (fun hmem => hmem) ?_⟩
        rintro ⟨hok, rfl⟩
        by_contra hnot
        exact h ⟨hok, hnot⟩
    have hsplit : (∃ before info after, ip :: next = before ++ info :: after ∧
        (∀ x ∈ before, x.supports INDICATION_PROVIDER) ∧ nameSpaceOk r info nameSpace ∧
        info.id = id) ↔
        (nameSpaceOk r ip nameSpace ∧ ip.id = id) ∨ (ip.supports INDICATION_PROVIDER ∧
          ∃ before info after, next = before ++ info :: after ∧
            (∀ x ∈ before, x.supports INDICATION_PROVIDER) ∧ nameSpaceOk r info nameSpace ∧
            info.id = id) := by
      constructor
      · rintro ⟨before, info, after, heq, hbefore, hrest⟩
        cases before with
        | nil =>
          cases heq
          exact .inl hrest
        | cons x before =>
          cases heq
          exact .inr ⟨hbefore ip List.mem_cons_self, before, info, after, rfl,
            fun y hy => hbefore y (List.mem_cons_of_mem _ hy), hrest⟩
      · rintro (hrest | ⟨hip, before, info, after, rfl, hbefore, hrest⟩)
        · exact ⟨[], ip, next, rfl, by simp, hrest⟩
        · refine ⟨ip :: before, info, after, rfl, ?_, hrest⟩
          intro x hx
          rcases List.mem_cons.mp hx with rfl | hx
          · exact hip
          · exact hbefore x hx
    rw [hsplit, addChain]
    by_cases hip : ip.supports INDICATION_PROVIDER
    · rw [if_pos hip, ih, hfirst, or_assoc]
      simp only [hip, true_and]
    · rw [if_neg hip, hfirst]
      simp [hip]

theorem nodup_addChain (h : list.Nodup) : (addChain r nameSpace list chain).Nodup := by
  induction chain generalizing list with
  | nil => exact h
  | cons ip next ih =>
    have hfirst : (if nameSpaceOk r ip nameSpace ∧ ip.id ∉ list then ip.id :: list
        else list).Nodup := by
      split
      · next hnew => exact List.nodup_cons.mpr ⟨hnew.2, h⟩
      · exact h
    rw [addChain]
    split
    · exact ih hfirst
    · exact hfirst

end Chain

/-! ## The answers of a lookup -/

section Provider

variable {m : Manager} {h : ClassHierarchy} {c : Caches} {type : LookupType} {nameSpace : CStr}

theorem provider_eq (m : Manager) (h : ClassHierarchy) (c : Caches) (type : LookupType)
    (nameSpace d : CStr) :
    provider m h c type nameSpace d =
      match ((c.provHt type).at (fold d)).find? fun i => nameSpaceOk m.register i nameSpace with
      | some info => some info.id
      | none => m.answer (searchUp h nameSpace (selected m.register type nameSpace) d) := by
  unfold provider
  cases hhit : ((c.provHt type).at (fold d)).find? fun i => nameSpaceOk m.register i nameSpace with
  | some info => rw [lookupProvider_of_hit hhit]
  | none => rw [lookupProvider_of_miss hhit]

theorem selected_congr {r : ProviderRegister} {d d' : CStr} (heq : fold d = fold d') :
    selected r type nameSpace d = selected r type nameSpace d' := by
  simp only [selected, getProvider, ProviderRegister.chain, heq]

/-- Names are compared without case. -/
theorem provider_congr {d d' : CStr} (heq : fold d = fold d') :
    provider m h c type nameSpace d = provider m h c type nameSpace d' := by
  have hselected := @selected_congr type nameSpace m.register d d' heq
  have hsearch : m.answer (searchUp h nameSpace (selected m.register type nameSpace) d) =
      m.answer (searchUp h nameSpace (selected m.register type nameSpace) d') := by
    cases hselect : selected m.register type nameSpace d with
    | cons info rest =>
      have hselect' := hselected.symm.trans hselect
      rw [searchUp_of_select hselect, searchUp_of_select hselect']
      rfl
    | nil =>
      have hselect' := hselected.symm.trans hselect
      cases hsuper : h.superClass nameSpace (fold d) with
      | none =>
        have hsuper' : h.superClass nameSpace (fold d') = none := heq ▸ hsuper
        rw [searchUp_of_noClass hselect hsuper, searchUp_of_noClass hselect' hsuper']
      | some parent =>
        cases parent with
        | none =>
          have hsuper' : h.superClass nameSpace (fold d') = some none := heq ▸ hsuper
          rw [searchUp_of_root hselect hsuper, searchUp_of_root hselect' hsuper']
        | some p =>
          have hsuper' : h.superClass nameSpace (fold d') = some (some p) := heq ▸ hsuper
          rw [searchUp_of_superClass hselect hsuper, searchUp_of_superClass hselect' hsuper']
  rw [provider_eq, provider_eq, heq, hsearch]

theorem serves_of_selected {r : ProviderRegister} {cls : CStr} {info : ProviderInfo}
    {rest : List ProviderInfo} (hselect : selected r type nameSpace cls = info :: rest) :
    nameSpaceOk r info nameSpace := by
  obtain ⟨-, hserves⟩ := selected_eq_cons hselect
  simpa using List.find?_some hserves

/-- What a lookup puts into a cache is what it would find in the register. -/
theorem provider_lookupProvider (className d : CStr) :
    provider m h (lookupProvider m h c type className nameSpace).1 type nameSpace d =
      provider m h c type nameSpace d := by
  unfold lookupProvider
  dsimp only
  split
  · rfl
  · split
    · next cls info rest hfound =>
      have hselect : selected m.register type nameSpace cls = info :: rest := searchUp_found hfound
      by_cases habsent : ((c.provHt type).lookup (fold cls)).isNone
      · rw [provider_eq _ _ c, provider_eq]
        dsimp only
        rw [Function.update_self, putIfAbsent, if_pos habsent, at_insert]
        by_cases hkey : fold d = fold cls
        · have hold : (c.provHt type).at (fold d) = [] := by
            rw [hkey, ProviderTable.at, Option.isNone_iff_eq_none.mp habsent]
            rfl
          have hok := serves_of_selected hselect
          rw [if_pos hkey, hold, List.find?_cons_of_pos (by simpa using hok), List.find?_nil,
            searchUp_of_select ((selected_congr hkey).trans hselect)]
          rfl
        · rw [if_neg hkey]
      · rw [putIfAbsent, if_neg habsent, Function.update_eq_self]
    · rfl
    · rfl

theorem parent_forest {k p : CStr} : (h.forest nameSpace).parent k = some p ↔
    ∃ q, h.superClass nameSpace k = some (some q) ∧ fold q = p := by
  show (match h.superClass nameSpace k with
    | some (some p) => some (fold p)
    | _ => none) = some p ↔ _
  split
  · next q hq => simp [hq]
  · next hother =>
    simp only [reduceCtorEq, false_iff, not_exists, not_and]
    intro q hq
    exact absurd hq (hother q)

theorem searchUp_descends {select : CStr → List ProviderInfo} {start cls : CStr}
    {info : ProviderInfo} {rest : List ProviderInfo}
    (hfound : searchUp h nameSpace select start = .found cls info rest) :
    (h.forest nameSpace).Descends (fold cls) (fold start) := by
  fun_induction searchUp h nameSpace select start with
  | case1 start info' rest' hselect =>
    cases hfound
    exact .refl
  | case2 => cases hfound
  | case3 => cases hfound
  | case4 start hselect p hsuper ih => exact .tail (ih hfound) (parent_forest.mpr ⟨p, hsuper, rfl⟩)

/-- A class from which a search would not come back empty is not passed. -/
theorem searchUp_finds {start cls : CStr}
    (hdescends : (h.forest nameSpace).Descends (fold cls) (fold start))
    (hselect : selected m.register type nameSpace cls ≠ []) :
    ∃ c info rest, searchUp h nameSpace (selected m.register type nameSpace) start =
      .found c info rest := by
  fun_induction searchUp h nameSpace (selected m.register type nameSpace) start with
  | case1 start info rest hstart => exact ⟨_, _, _, rfl⟩
  | case2 start hstart hsuper =>
    obtain heq | ⟨p, hp, -⟩ := hdescends.cases_parent
    · exact absurd ((selected_congr heq).trans hstart) hselect
    · obtain ⟨q, hq, -⟩ := parent_forest.mp hp
      rw [hsuper] at hq
      cases hq
  | case3 start hstart hsuper =>
    obtain heq | ⟨p, hp, -⟩ := hdescends.cases_parent
    · exact absurd ((selected_congr heq).trans hstart) hselect
    · obtain ⟨q, hq, -⟩ := parent_forest.mp hp
      rw [hsuper] at hq
      cases hq
  | case4 start hstart p hsuper ih =>
    obtain heq | ⟨p', hp, habove⟩ := hdescends.cases_parent
    · exact absurd ((selected_congr heq).trans hstart) hselect
    · obtain ⟨q, hq, rfl⟩ := parent_forest.mp hp
      rw [hsuper] at hq
      cases hq
      exact ih habove

/-- Below a class with a provider every class has one. -/
theorem provider_ne_none {d cls : CStr}
    (hdescends : (h.forest nameSpace).Descends (fold cls) (fold d))
    (hselect : selected m.register type nameSpace cls ≠ []) :
    provider m h c type nameSpace d ≠ none := by
  rw [provider_eq]
  split
  · simp
  · obtain ⟨c', info, rest, hfound⟩ := searchUp_finds hdescends hselect
    rw [hfound]
    simp [Manager.answer]

/-- Where the default provider is not used, an answer is an entry of the class or of one above
it. -/
theorem provider_cases (hfiled : Filed m c) {d : CStr} {id : Nat}
    (hid : provider m h c type nameSpace d = some id) (hdefault : m.defaultProvider = none) :
    ∃ cls, (h.forest nameSpace).Descends (fold cls) (fold d) ∧
      selected m.register type nameSpace cls ≠ [] ∧ ∃ info ∈ m.register.chain cls, info.id = id := by
  rw [provider_eq] at hid
  split at hid
  · next info hhit =>
    cases hid
    have hinfo := List.mem_of_find?_eq_some hhit
    have hok : nameSpaceOk m.register info nameSpace := by simpa using List.find?_some hhit
    obtain hnil | ⟨hheaded, hsuffix⟩ := hfiled.typed type (fold d)
    · rw [hnil] at hinfo
      cases hinfo
    · have hmem : info ∈ m.register.chain d := hsuffix.subset hinfo
      refine ⟨d, .refl, ?_, info, hmem, rfl⟩
      intro hnil
      rw [selected, getProvider_of_headed hheaded] at hnil
      have := List.dropWhile_eq_nil_iff.mp hnil info hmem
      simp [hok] at this
  · cases hsearch : searchUp h nameSpace (selected m.register type nameSpace) d with
    | noClass => simp [hsearch, Manager.answer] at hid
    | root => simp [hsearch, Manager.answer, hdefault] at hid
    | found cls info rest =>
      have hselect := searchUp_found hsearch
      obtain ⟨-, hserves⟩ := selected_eq_cons hselect
      have hinfo : info.id = id := by simpa [hsearch, Manager.answer] using hid
      exact ⟨cls, searchUp_descends hsearch, by simp [hselect], info,
        List.mem_of_find?_eq_some hserves, hinfo⟩

/-- Where a lookup brings nothing and no error, there is no default provider. -/
theorem defaultProvider_of_none {d : CStr} (hnone : provider m h c type nameSpace d = none)
    (hok : lookupFails m h c type d nameSpace = false) : m.defaultProvider = none := by
  rw [provider_eq] at hnone
  split at hnone
  · cases hnone
  · next hmiss =>
    rw [← head?_firstServing, List.head?_eq_none_iff] at hmiss
    unfold lookupFails at hok
    rw [hmiss, List.isEmpty_nil, Bool.true_and, decide_eq_false_iff_not] at hok
    change ¬ searchUp h nameSpace (selected m.register type nameSpace) d = .noClass at hok
    cases hsearch : searchUp h nameSpace (selected m.register type nameSpace) d with
    | noClass => exact absurd hsearch hok
    | root => simpa [hsearch, Manager.answer] using hnone
    | found cls info rest => simp [hsearch, Manager.answer] at hnone

end Provider

/-! ## What is added -/

section Adding

variable {m : Manager} {t : ClassTree} {c : Caches} {type : LookupType} {nameSpace : CStr}
  {s s' : Adding}

theorem addProviders_eq (m : Manager) (t : ClassTree) (type : LookupType)
    (nameSpace className : CStr) (s : Adding) :
    addProviders m t type nameSpace className s =
      let found := lookupProvider m t.toClassHierarchy s.caches type className nameSpace
      match found.2 with
      | none => ⟨found.1, s.list,
          lookupFails m t.toClassHierarchy s.caches type className nameSpace⟩
      | some ip => (t.children nameSpace (fold className)).foldl
          (fun s child => if s.failed then s else addProviders m t type nameSpace child s)
          ⟨found.1, addChain m.register nameSpace s.list (m.register.chainFrom ip), false⟩ := by
  rw [addProviders]
  dsimp only
  obtain ⟨caches, ip⟩ := lookupProvider m t.toClassHierarchy s.caches type className nameSpace
  cases ip with
  | none => rfl
  | some ip =>
    exact List.foldl_attach (f := fun s child =>
      if s.failed then s else addProviders m t type nameSpace child s)

/-- `addProviders` goes on below a class with a provider only. -/
def Visited (m : Manager) (t : ClassTree) (c : Caches) (type : LookupType) (nameSpace : CStr)
    (k l : CStr) : Prop :=
  (t.forest nameSpace).Through
    (fun a => provider m t.toClassHierarchy c type nameSpace a ≠ none) k l

/-- A provider from the chains of the classes that `visited` holds for. -/
def Collected (m : Manager) (t : ClassTree) (c : Caches) (type : LookupType) (nameSpace : CStr)
    (visited : CStr → Prop) (id : Nat) : Prop :=
  ∃ l ip, visited l ∧ provider m t.toClassHierarchy c type nameSpace l = some ip ∧
    Joined m.register nameSpace ip id

/-- What a run over some classes does to the list: the lookups stay what they were, and the
list has what is in the chains. -/
structure Adds (m : Manager) (t : ClassTree) (c : Caches) (type : LookupType) (nameSpace : CStr)
    (visited : CStr → Prop) (s s' : Adding) : Prop where
  same : ∀ d, provider m t.toClassHierarchy s'.caches type nameSpace d =
    provider m t.toClassHierarchy c type nameSpace d
  nodup : s.list.Nodup → s'.list.Nodup
  mem : ∀ id, id ∈ s'.list ↔ id ∈ s.list ∨ Collected m t c type nameSpace visited id
  noDefault : ∀ l, visited l → provider m t.toClassHierarchy c type nameSpace l = none →
    m.defaultProvider = none

/-- The classes below a class are visited from its children. -/
theorem visited_iff (k l : CStr) : Visited m t c type nameSpace k l ↔
    k = l ∨ (provider m t.toClassHierarchy c type nameSpace k ≠ none ∧
      ∃ child ∈ t.children nameSpace k, Visited m t c type nameSpace (fold child) l) := by
  unfold Visited Forest.Through
  rw [Relation.ReflTransGen.cases_head_iff]
  refine or_congr_right ?_
  constructor
  · rintro ⟨b, ⟨hparent, hgood⟩, hrest⟩
    obtain ⟨child, hchild, rfl⟩ := (t.children_iff nameSpace k b).mpr (parent_forest.mp hparent)
    exact ⟨hgood, child, hchild, hrest⟩
  · rintro ⟨hgood, child, hchild, hrest⟩
    have hparent := parent_forest.mpr ((t.children_iff nameSpace k _).mp ⟨child, hchild, rfl⟩)
    exact ⟨fold child, ⟨hparent, hgood⟩, hrest⟩

theorem foldl_failed (children : List CStr) (hfailed : s.failed = true) :
    children.foldl (fun s child => if s.failed then s else addProviders m t type nameSpace child s)
      s = s := by
  induction children generalizing s with
  | nil => rfl
  | cons child children ih =>
    rw [List.foldl_cons, if_pos hfailed]
    exact ih hfailed

/-- The loop over the children. -/
theorem adds_foldl {children : List CStr}
    (hchildren : ∀ child ∈ children, ∀ s : Adding,
      (∀ d, provider m t.toClassHierarchy s.caches type nameSpace d =
        provider m t.toClassHierarchy c type nameSpace d) →
      (addProviders m t type nameSpace child s).failed = false →
      Adds m t c type nameSpace (Visited m t c type nameSpace (fold child)) s
        (addProviders m t type nameSpace child s))
    (hsame : ∀ d, provider m t.toClassHierarchy s.caches type nameSpace d =
      provider m t.toClassHierarchy c type nameSpace d)
    (hs : s.failed = false)
    (hok : (children.foldl (fun s child =>
      if s.failed then s else addProviders m t type nameSpace child s) s).failed = false) :
    Adds m t c type nameSpace
      (fun l => ∃ child ∈ children, Visited m t c type nameSpace (fold child) l) s
      (children.foldl (fun s child =>
        if s.failed then s else addProviders m t type nameSpace child s) s) := by
  induction children generalizing s with
  | nil => exact ⟨hsame, fun h => h, by simp [Collected], by simp⟩
  | cons child children ih =>
    have hnot : ¬ s.failed = true := by simp [hs]
    rw [List.foldl_cons, if_neg hnot] at hok ⊢
    cases hfailed : (addProviders m t type nameSpace child s).failed with
    | true =>
      rw [foldl_failed children hfailed, hfailed] at hok
      cases hok
    | false =>
      have hfirst := hchildren child List.mem_cons_self s hsame hfailed
      have hrest := ih (fun child hchild => hchildren child (List.mem_cons_of_mem _ hchild))
        hfirst.same hfailed hok
      refine ⟨hrest.same, fun h => hrest.nodup (hfirst.nodup h), ?_, ?_⟩
      · intro id
        rw [hrest.mem, hfirst.mem, or_assoc]
        simp only [Collected, List.exists_mem_cons_iff, or_and_right, exists_or]
      · rintro l ⟨child', hchild', hl⟩
        rcases List.mem_cons.mp hchild' with rfl | hchild'
        · exact hfirst.noDefault l hl
        · exact hrest.noDefault l ⟨child', hchild', hl⟩

/-- What `addProviders` adds for a class: what is in the chains of the visited classes. -/
theorem adds_addProviders (className : CStr)
    (hsame : ∀ d, provider m t.toClassHierarchy s.caches type nameSpace d =
      provider m t.toClassHierarchy c type nameSpace d)
    (hok : (addProviders m t type nameSpace className s).failed = false) :
    Adds m t c type nameSpace (Visited m t c type nameSpace (fold className)) s
      (addProviders m t type nameSpace className s) := by
  induction hheight : t.height nameSpace (fold className) using Nat.strong_induction_on
    generalizing className s with
  | _ n ih =>
    have hstable : ∀ d, provider m t.toClassHierarchy
        (lookupProvider m t.toClassHierarchy s.caches type className nameSpace).1 type nameSpace d =
          provider m t.toClassHierarchy c type nameSpace d :=
      fun d => (provider_lookupProvider className d).trans (hsame d)
    have hprovider : (lookupProvider m t.toClassHierarchy s.caches type className nameSpace).2 =
        provider m t.toClassHierarchy c type nameSpace (fold className) :=
      (hsame className).trans (provider_congr (fold_fold className).symm)
    rw [addProviders_eq] at hok ⊢
    dsimp only at hok ⊢
    rw [hprovider] at hok ⊢
    cases hfound : provider m t.toClassHierarchy c type nameSpace (fold className) with
    | none =>
      rw [hfound] at hok
      dsimp only at hok ⊢
      have hvisited : ∀ l, Visited m t c type nameSpace (fold className) l ↔
          fold className = l := by
        intro l
        rw [visited_iff]
        simp [hfound]
      refine ⟨hstable, fun h => h, ?_, ?_⟩
      · intro id
        simp only [Collected, hvisited, iff_self_or]
        rintro ⟨l, ip, rfl, hip, -⟩
        rw [hfound] at hip
        cases hip
      · intro l _ _
        exact defaultProvider_of_none (hprovider.trans hfound) hok
    | some ip =>
      rw [hfound] at hok
      dsimp only at hok ⊢
      have hrest := adds_foldl (fun child hchild s hs hfine =>
        ih _ (hheight ▸ t.lower nameSpace _ child hchild) child hs hfine rfl) hstable rfl hok
      have hvisited : ∀ l, Visited m t c type nameSpace (fold className) l ↔
          fold className = l ∨ ∃ child ∈ t.children nameSpace (fold className),
            Visited m t c type nameSpace (fold child) l := by
        intro l
        rw [visited_iff]
        simp [hfound]
      refine ⟨hrest.same, fun h => hrest.nodup (nodup_addChain h), ?_, ?_⟩
      · intro id
        rw [hrest.mem, mem_addChain_iff, or_assoc]
        simp only [Collected, hvisited, or_and_right, exists_or, exists_eq_left', exists_and_left,
          hfound, Option.some.injEq]
        rfl
      · intro l hl hnone
        rcases (hvisited l).mp hl with rfl | hl
        · rw [hfound] at hnone
          cases hnone
        · exact hrest.noDefault l hl hnone

end Adding

/-! ## The list -/

section List

variable {m : Manager} {t : ClassTree} {c : Caches} {lists : ProviderLists} {type : LookupType}
  {cls nameSpace : CStr} {list : List Nat}

/-- Below a class without a provider there is none. -/
def NoneBelow (m : Manager) (t : ClassTree) (c : Caches) (type : LookupType)
    (nameSpace cls : CStr) : Prop :=
  ∀ a, t.InTree nameSpace cls a → provider m t.toClassHierarchy c type nameSpace a = none →
    ∀ d, t.InTree nameSpace a d → provider m t.toClassHierarchy c type nameSpace d = none

/-- Every provider of a class is valid in the namespace, as the default provider may not be. -/
def AllValid (m : Manager) (t : ClassTree) (c : Caches) (type : LookupType)
    (nameSpace cls : CStr) : Prop :=
  ∀ d, t.InTree nameSpace cls d →
    ∀ ip, provider m t.toClassHierarchy c type nameSpace d = some ip →
      ∃ info rest, m.register.chainFrom ip = info :: rest ∧ nameSpaceOk m.register info nameSpace

/-- Between the provider of a class and a later valid entry of its chain there are indication
providers only, or it is so for another class. -/
def ChainsJoined (m : Manager) (t : ClassTree) (c : Caches) (type : LookupType)
    (nameSpace cls : CStr) : Prop :=
  ∀ d, t.InTree nameSpace cls d →
    ∀ ip, provider m t.toClassHierarchy c type nameSpace d = some ip →
      ∀ id, LaterInChain m.register nameSpace ip id →
        ∃ d' ip', t.InTree nameSpace cls d' ∧
          provider m t.toClassHierarchy c type nameSpace d' = some ip' ∧
          Joined m.register nameSpace ip' id

/-- Without an error a list is built. -/
theorem lookupProviders_built
    (hnew : (lists type).lookup (fold (nameSpace ++ lit "|" ++ cls)) = none)
    (hfine : (addProviders m t type nameSpace cls ⟨c, [], false⟩).failed = false) :
    (lookupProviders m t c lists type cls nameSpace).2.2 =
      some (addProviders m t type nameSpace cls ⟨c, [], false⟩).list := by
  simp [lookupProviders, hnew, hfine]

/-- A list that is built has what has been collected, and nothing twice. -/
theorem collected_of_lookupProviders
    (hnew : (lists type).lookup (fold (nameSpace ++ lit "|" ++ cls)) = none)
    (hbuilt : (lookupProviders m t c lists type cls nameSpace).2.2 = some list) :
    list.Nodup ∧ (∀ id, id ∈ list ↔
      Collected m t c type nameSpace (Visited m t c type nameSpace (fold cls)) id) ∧
    ∀ l, Visited m t c type nameSpace (fold cls) l →
      provider m t.toClassHierarchy c type nameSpace l = none → m.defaultProvider = none := by
  simp only [lookupProviders, hnew] at hbuilt
  split at hbuilt
  · cases hbuilt
  · next hfine =>
    cases hbuilt
    have hadds := @adds_addProviders m t c type nameSpace ⟨c, [], false⟩ cls (fun d => rfl)
      (by simpa using hfine)
    exact ⟨hadds.nodup List.nodup_nil, fun id => by simp [hadds.mem id], hadds.noDefault⟩

theorem fold_of_descends {k l : CStr} (h : (t.forest nameSpace).Descends (fold k) l) :
    fold l = l := by
  obtain rfl | ⟨p, hparent, -⟩ := h.cases_parent
  · exact fold_fold k
  · obtain ⟨child, -, rfl⟩ := (t.children_iff nameSpace p l).mpr (parent_forest.mp hparent)
    exact fold_fold child

/-- What has been collected belongs into the list. -/
theorem belongs_of_collected {id : Nat}
    (h : Collected m t c type nameSpace (Visited m t c type nameSpace (fold cls)) id) :
    Belongs m t c type nameSpace cls id := by
  obtain ⟨l, ip, hvisited, hip, before, info, after, hfrom, hbefore, hok, rfl⟩ := h
  have hdescends := hvisited.descends
  refine ⟨l, ip, ?_, hip, ?_⟩
  · rw [ClassTree.InTree, fold_of_descends hdescends]
    exact hdescends
  · cases before with
    | nil => exact .inl (chainFrom_eq_cons hfrom).1
    | cons head before =>
      exact .inr ⟨head, before ++ info :: after, hfrom, hbefore head List.mem_cons_self, info,
        by simp, hok, rfl⟩

/-- Where no class without a provider stands above one with a provider, all classes with one
are visited. -/
theorem visited_of_noneBelow (hnone : NoneBelow m t c type nameSpace cls) {d : CStr} {ip : Nat}
    (hd : t.InTree nameSpace cls d)
    (hip : provider m t.toClassHierarchy c type nameSpace d = some ip) :
    Visited m t c type nameSpace (fold cls) (fold d) := by
  refine Forest.through_iff.mpr ⟨hd, ?_⟩
  intro a ha had _ hnot
  have hfold := fold_of_descends ha
  have hbelow := hnone a (by rw [ClassTree.InTree, hfold]; exact ha) hnot d
    (by rw [ClassTree.InTree, hfold]; exact had)
  rw [hip] at hbelow
  cases hbelow

/-- With a default provider all classes have a provider, so all of them are visited. -/
theorem visited_of_defaultProvider
    (hnoDefault : ∀ l, Visited m t c type nameSpace (fold cls) l →
      provider m t.toClassHierarchy c type nameSpace l = none → m.defaultProvider = none)
    (hdefault : m.defaultProvider ≠ none) {l : CStr}
    (hl : (t.forest nameSpace).Descends (fold cls) l) :
    Visited m t c type nameSpace (fold cls) l := by
  unfold Forest.Descends at hl
  induction hl with
  | refl => exact .refl
  | tail hk hparent ih => exact .tail ih ⟨hparent, fun hnone => hdefault (hnoDefault _ ih hnone)⟩

/-- Two providers of which one is in the chain of the other are found at one class. -/
theorem noneBelow_of_collected {last : Nat} (hkeyed : m.register.ht.Keyed last)
    (hfiled : Filed m c)
    (hnoDefault : ∀ l, Visited m t c type nameSpace (fold cls) l →
      provider m t.toClassHierarchy c type nameSpace l = none → m.defaultProvider = none)
    (hall : ∀ id, Belongs m t c type nameSpace cls id →
      Collected m t c type nameSpace (Visited m t c type nameSpace (fold cls)) id) :
    NoneBelow m t c type nameSpace cls := by
  intro a ha hnone d hd
  have hdefault : m.defaultProvider = none := by
    by_contra hdefault
    have hvisited := visited_of_defaultProvider hnoDefault hdefault ha
    exact hdefault (hnoDefault _ hvisited ((provider_congr (fold_fold a)).trans hnone))
  cases hip : provider m t.toClassHierarchy c type nameSpace d with
  | none => rfl
  | some ip =>
    exfalso
    obtain ⟨l, ip', hvisited, hip', before, info, after, hfrom, -, -, hinfo⟩ :=
      hall ip ⟨d, ip, ha.trans hd, hip, .inl rfl⟩
    have hl := fold_of_descends hvisited.descends
    -- the class where the provider of `d` is registered is the one where that of `l` is
    obtain ⟨k, hkd, hselect, x, hx, rfl⟩ := provider_cases hfiled hip hdefault
    obtain ⟨k', hkl, -, y, hy, hyid⟩ := provider_cases hfiled hip' hdefault
    have hkk : fold k = fold k' := by
      obtain ⟨key, hchain⟩ := chainFrom_one_chain m.register ip'
      obtain ⟨head, hhead, hid⟩ := chainFrom_head (by rw [hfrom]; simp : m.register.chainFrom ip' ≠ [])
      have hinfoAt := hchain info (by rw [hfrom]; simp)
      have hkey := hkeyed.apart _ _ x hx info hinfoAt hinfo.symm
      exact hkey.trans <| hkeyed.apart _ _ head (hchain head hhead) y hy (hid.trans hyid.symm)
    rw [← hkk, hl] at hkl
    -- `a` is above that class, so it is above `l`
    have hak : (t.forest nameSpace).Descends (fold a) (fold k) := by
      rcases hkd.linear hd with hka | hak
      · exact absurd hnone (provider_ne_none hka hselect)
      · exact hak
    have hal := hak.trans hkl
    have hne : fold a ≠ l := by
      rintro rfl
      rw [provider_congr (fold_fold a), hnone] at hip'
      cases hip'
    exact (Forest.through_iff.mp hvisited).2 (fold a) ha hal hne
      ((provider_congr (fold_fold a)).trans hnone)

/-- Classes without superclasses, as a tree. -/
def rootTree : ClassTree where
  toClassHierarchy := rootClasses
  children := fun _ _ => []
  children_iff := by simp [rootClasses]
  height := fun _ _ => 0
  lower := by simp

/-- A class `A` with a subclass `B`. -/
def treeOfAB : ClassTree where
  superClass := fun _ k => some (if k = lit "b" then some (lit "A") else none)
  depth := fun _ k => if k = lit "b" then 1 else 0
  descends := by
    intro ns k p hp
    split at hp <;> cases hp
    next hk =>
      rw [if_pos hk]
      decide
  children := fun _ k => if k = lit "a" then [lit "B"] else []
  children_iff := by
    have hA : fold (lit "A") = lit "a" := by decide
    have hB : fold (lit "B") = lit "b" := by decide
    intro ns k l
    by_cases hk : k = lit "a" <;> by_cases hl : l = lit "b" <;>
      simp [hk, hl, hA, hB, eq_comm]
  height := fun _ k => if k = lit "a" then 1 else 0
  lower := by
    intro ns k child hchild
    split at hchild
    · next hk =>
      cases List.mem_singleton.mp hchild
      rw [if_pos hk]
      decide
    · cases hchild

/-- A provider for the class `B` only. -/
def entriesOfB : List ProviderInfo :=
  [⟨lit "$ClassProvider$", 32, some (lit "ClassProvider"), some (lit "*", []), 0⟩,
    ⟨lit "B", 1, some (lit "P"), some (lit "root/cimv2", []), 0⟩]

def registerOfB : ProviderRegister :=
  match newProviderRegister false entriesOfB with
  | .ok r => r
  | .error _ => emptyRegister

end List

end Sfcb.ProviderMgr
