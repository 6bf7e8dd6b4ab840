import Sfcb.Lib.CString
import Sfcb.Lib.Pool

/-!
# The provider register

`providerRegister.c`: the entries of the registration file in a hash table by class name.
Entries for one class form a chain, `nextInRegister`. The first entry of a class stays the
head of its chain and a later one is put right behind it; one with the provider name of the
head is not an entry of its own but gives its first namespace to the head.

Mirroring notes:
- The entries of the file are given; `RegistrationFile` reads them. A namespace statement has
  at least one value.
- The hash table ignores the case of its keys, so it is a table of folded names.
- A provider is known by its `id`, which is its number in the file. A pointer to a provider
  is its `id`, except that a pointer into a chain is what is left of the chain from there.
- `forceNotFound` is static and has the `id` zero.
- `exFlags` has the bit that starts the interop provider.
- Left out: the fields of `ProviderInfo` that are not about the class, the provider, its types
  and its namespaces; messages.
-/

namespace Sfcb.ProviderMgr

open Sfcb.Lib

structure ProviderInfo where
  className : CStr
  type : Nat
  /-- `NULL` without such a statement -/
  providerName : Option CStr
  /-- `NULL`, or the first namespace and the others -/
  ns : Option (CStr × List CStr)
  id : Nat
  deriving Repr, DecidableEq

def ProviderInfo.namespaces (info : ProviderInfo) : List CStr :=
  match info.ns with
  | none => []
  | some (first, rest) => first :: rest

/-- The texts of an entry have no zero in them. -/
def ProviderInfo.Text (info : ProviderInfo) : Prop :=
  0 ∉ info.className ∧ (∀ p ∈ info.providerName, 0 ∉ p) ∧ ∀ n ∈ info.namespaces, 0 ∉ n

/-- Why the broker does not come up. -/
inductive LoadFailure where
  | unrecognizedStatement
  | invalidStatement
  | unknownUser
  | invalidUnload
  | invalidType
  /-- conflicting registration types for a class and a provider -/
  | conflictingTypes
  /-- a pointer that is `NULL` is followed -/
  | nullPointer
  | noClassProvider
  deriving Repr, DecidableEq

abbrev ProviderTable := Table CStr (List ProviderInfo)

/-- `addProviderToHT`. -/
def addProviderToHT (info : ProviderInfo) (ht : ProviderTable) :
    Except LoadFailure ProviderTable :=
  match ht.lookup (fold info.className) with
  | none | some [] => .ok (ht.insert (fold info.className) [info])
  | some (head :: chain) =>
    match head.providerName, info.providerName with
    | some master, some providerName =>
      if strcmp master providerName = 0 then
        if head.type ≠ info.type then .error .conflictingTypes
        else match head.ns, info.ns with
          | some (first, rest), some (new, _) =>
            if (first :: rest).any fun n => strcmp n new = 0 then .ok ht
            else .ok (ht.insert (fold info.className)
              ({ head with ns := some (first, rest ++ [new]) } :: chain))
          | _, _ => .error .nullPointer
      else .ok (ht.insert (fold info.className) (head :: info :: chain))
    | _, _ => .error .nullPointer

/-- The id of `forceNotFound`. -/
def forceNoProvInfoPtr : Nat := 0

/-- The pointers to the special providers, and that the interop provider has been found but is
not to be started. -/
structure Specials where
  classProvInfoPtr : Option Nat
  defaultProvInfoPtr : Option Nat
  interOpProvInfoPtr : Option Nat
  qualiProvInfoPtr : Option Nat
  interopFound : Bool
  deriving Repr, DecidableEq

/-- What `newProviderRegister` does with an entry when the next one starts: the pointers to
the providers of sfcb itself are set one after the other. -/
def noteSpecial (exFlags : Bool) (info : ProviderInfo) (s : Specials) : Specials :=
  if s.classProvInfoPtr = none then
    if strcmp info.className (lit "$ClassProvider$") = 0 then
      { s with classProvInfoPtr := some info.id } else s
  else if s.defaultProvInfoPtr = none then
    if strcmp info.className (lit "$DefaultProvider$") = 0 then
      { s with defaultProvInfoPtr := some info.id } else s
  else if s.interOpProvInfoPtr = none then
    if strcmp info.className (lit "$InterOpProvider$") = 0 then
      if exFlags then { s with interOpProvInfoPtr := some info.id }
      else { s with interopFound := true }
    else s
  else if s.qualiProvInfoPtr = none then
    if strcmp info.className (lit "$QualifierProvider$") = 0 then
      { s with qualiProvInfoPtr := some info.id } else s
  else s

structure ProviderRegister extends Specials where
  ht : ProviderTable

def emptyRegister : ProviderRegister := ⟨⟨none, none, none, none, false⟩, ∅⟩

def addEntry (info : ProviderInfo) (r : ProviderRegister) : Except LoadFailure ProviderRegister :=
  (addProviderToHT info r.ht).map fun ht => { r with ht := ht }

/-- The loop over the entries; `id` numbers them. The last one is added behind the loop. -/
def readEntries (exFlags : Bool) (id : Nat) (r : ProviderRegister) :
    List ProviderInfo → Except LoadFailure ProviderRegister
  | [] => .ok r
  | [info] => addEntry { info with id := id + 1 } r
  | info :: next :: infos =>
    let info := { info with id := id + 1 }
    match addEntry info { r with toSpecials := noteSpecial exFlags info r.toSpecials } with
    | .error e => .error e
    | .ok r => readEntries exFlags (id + 1) r (next :: infos)

/-- What is behind the loop: without the class provider the broker terminates, and for the
interop provider there is always an entry. -/
def ProviderRegister.complete (r : ProviderRegister) : Except LoadFailure ProviderRegister :=
  if r.classProvInfoPtr = none then .error .noClassProvider
  else if r.interOpProvInfoPtr = none then
    .ok { r with interOpProvInfoPtr := some forceNoProvInfoPtr }
  else .ok r

/-- `newProviderRegister`. -/
def newProviderRegister (exFlags : Bool) (infos : List ProviderInfo) :
    Except LoadFailure ProviderRegister :=
  match readEntries exFlags 0 emptyRegister infos with
  | .error e => .error e
  | .ok r => r.complete

/-! ## What a register looks like -/

/-- The entries under a key, the head first. -/
def ProviderTable.at (ht : ProviderTable) (key : CStr) : List ProviderInfo :=
  (ht.lookup key).getD []

/-- The entries of a class. -/
def ProviderRegister.chain (r : ProviderRegister) (cls : CStr) : List ProviderInfo :=
  r.ht.at (fold cls)

/-- Entries stand in the chain of their class, and every entry has an id of its own. -/
structure ProviderTable.Keyed (ht : ProviderTable) (last : Nat) : Prop where
  className : ∀ k, ∀ info ∈ ht.at k, fold info.className = k
  bound : ∀ k, ∀ info ∈ ht.at k, info.id ≤ last
  nodup : ∀ k, ((ht.at k).map ProviderInfo.id).Nodup
  apart : ∀ k l, ∀ info ∈ ht.at k, ∀ info' ∈ ht.at l, info.id = info'.id → k = l

section Keyed

variable {ht : ProviderTable} {last : Nat} {key : CStr} {chain : List ProviderInfo}

theorem at_insert (ht : ProviderTable) (key l : CStr) (chain : List ProviderInfo) :
    ProviderTable.at (ht.insert key chain) l = if l = key then chain else ht.at l := by
  unfold ProviderTable.at
  by_cases hl : l = key
  · subst hl
    rw [AList.lookup_insert, if_pos rfl]
    rfl
  · rw [AList.lookup_insert_ne hl, if_neg hl]

theorem ProviderTable.Keyed.mono (h : ht.Keyed last) : ht.Keyed (last + 1) :=
  ⟨h.className, fun k info hinfo => Nat.le_succ_of_le (h.bound k info hinfo), h.nodup, h.apart⟩

/-- A chain may be exchanged for one with the same ids and that of a new entry. -/
theorem ProviderTable.Keyed.insert (h : ht.Keyed last)
    (hclass : ∀ info ∈ chain, fold info.className = key)
    (hids : ∀ info ∈ chain, (∃ old ∈ ht.at key, old.id = info.id) ∨ info.id = last + 1)
    (hnodup : (chain.map ProviderInfo.id).Nodup) :
    ProviderTable.Keyed (ht.insert key chain) (last + 1) := by
  have hother : ∀ l, ∀ info ∈ chain, ∀ info' ∈ ht.at l, info.id = info'.id → key = l := by
    intro l info hinfo info' hinfo' hid
    rcases hids info hinfo with ⟨old, hold, heq⟩ | hnew
    · exact h.apart key l old hold info' hinfo' (heq.trans hid)
    · have := h.bound l info' hinfo'
      omega
  refine ⟨?_, ?_, ?_, ?_⟩
  · intro k info hinfo
    rw [at_insert] at hinfo
    split at hinfo
    · next hk => rw [hk, hclass info hinfo]
    · exact h.className k info hinfo
  · intro k info hinfo
    rw [at_insert] at hinfo
    split at hinfo
    · rcases hids info hinfo with ⟨old, hold, heq⟩ | hnew
      · have := h.bound key old hold
        omega
      · omega
    · exact Nat.le_succ_of_le (h.bound k info hinfo)
  · intro k
    rw [at_insert]
    split
    · exact hnodup
    · exact h.nodup k
  · intro k l info hinfo info' hinfo' hid
    rw [at_insert] at hinfo hinfo'
    split at hinfo
    · next hk =>
      split at hinfo'
      · next hl => rw [hk, hl]
      · rw [hk]
        exact hother l info hinfo info' hinfo' hid
    · split at hinfo'
      · next hl =>
        rw [hl]
        exact (hother k info' hinfo' info hinfo hid.symm).symm
      · exact h.apart k l info hinfo info' hinfo' hid

/-- The first entry of a class. -/
theorem ProviderTable.Keyed.insert_single {info : ProviderInfo} (h : ht.Keyed last)
    (hid : info.id = last + 1) :
    ProviderTable.Keyed (ht.insert (fold info.className) [info]) (last + 1) := by
  refine h.insert ?_ ?_ (by simp)
  · intro i hi
    rw [List.mem_singleton.mp hi]
  · intro i hi
    rw [List.mem_singleton.mp hi]
    exact Or.inr hid

/-- The head of a chain is changed, but not its class and its id. -/
theorem ProviderTable.Keyed.insert_head {head head' : ProviderInfo} (h : ht.Keyed last)
    (hat : ht.at key = head :: chain) (hclass : head'.className = head.className)
    (hid : head'.id = head.id) : ProviderTable.Keyed (ht.insert key (head' :: chain)) (last + 1) := by
  have hclassName := h.className key
  have hnodup := h.nodup key
  rw [hat] at hclassName hnodup
  refine h.insert ?_ ?_ (by simpa [hid] using hnodup)
  · intro i hi
    rcases List.mem_cons.mp hi with rfl | hi
    · rw [hclass]
      exact hclassName head List.mem_cons_self
    · exact hclassName i (List.mem_cons_of_mem _ hi)
  · intro i hi
    rw [hat]
    rcases List.mem_cons.mp hi with rfl | hi
    · exact Or.inl ⟨head, List.mem_cons_self, hid.symm⟩
    · exact Or.inl ⟨i, List.mem_cons_of_mem _ hi, rfl⟩

/-- An entry is put right behind the head. -/
theorem ProviderTable.Keyed.insert_second {head info : ProviderInfo} (h : ht.Keyed last)
    (hat : ht.at (fold info.className) = head :: chain) (hid : info.id = last + 1) :
    ProviderTable.Keyed (ht.insert (fold info.className) (head :: info :: chain)) (last + 1) := by
  have hclassName := h.className (fold info.className)
  have hbound := h.bound (fold info.className)
  have hnodup := h.nodup (fold info.className)
  rw [hat] at hclassName hbound hnodup
  have hfresh : ∀ i ∈ head :: chain, i.id ≠ info.id := by
    intro i hi
    have := hbound i hi
    omega
  have hcases : ∀ i ∈ head :: info :: chain, i ∈ head :: chain ∨ i = info := by
    intro i hi
    simp only [List.mem_cons] at hi ⊢
    tauto
  refine h.insert ?_ ?_ ?_
  · intro i hi
    rcases hcases i hi with hi | rfl
    · exact hclassName i hi
    · rfl
  · intro i hi
    rw [hat]
    rcases hcases i hi with hi | rfl
    · exact Or.inl ⟨i, hi, rfl⟩
    · exact Or.inr hid
  · rw [List.map_cons, List.nodup_cons] at hnodup ⊢
    rw [List.map_cons, List.nodup_cons, List.mem_cons, not_or]
    refine ⟨⟨hfresh head List.mem_cons_self, hnodup.1⟩, ?_, hnodup.2⟩
    intro hmem
    obtain ⟨i, hi, heq⟩ := List.mem_map.mp hmem
    exact hfresh i (List.mem_cons_of_mem _ hi) heq

theorem keyed_addProviderToHT {info : ProviderInfo} {ht' : ProviderTable} (h : ht.Keyed last)
    (hid : info.id = last + 1) (hadd : addProviderToHT info ht = .ok ht') :
    ht'.Keyed (last + 1) := by
  unfold addProviderToHT at hadd
  cases hlookup : ht.lookup (fold info.className) with
  | none =>
    simp only [hlookup, Except.ok.injEq] at hadd
    exact hadd ▸ h.insert_single hid
  | some chain =>
    cases chain with
    | nil =>
      simp only [hlookup, Except.ok.injEq] at hadd
      exact hadd ▸ h.insert_single hid
    | cons head chain =>
      have hat : ht.at (fold info.className) = head :: chain := by
        simp [ProviderTable.at, hlookup]
      simp only [hlookup] at hadd
      split at hadd
      · split at hadd
        · -- the provider of the head again
          split at hadd
          · cases hadd
          · split at hadd
            · split at hadd
              · cases hadd
                exact h.mono
              · cases hadd
                exact h.insert_head hat rfl rfl
            · cases hadd
        · -- another provider, right behind the head
          cases hadd
          exact h.insert_second hat hid
      · cases hadd

theorem keyed_readEntries {exFlags : Bool} {infos : List ProviderInfo} {r r' : ProviderRegister}
    (h : r.ht.Keyed last) (hread : readEntries exFlags last r infos = .ok r') :
    ∃ last', r'.ht.Keyed last' := by
  induction infos generalizing r last with
  | nil =>
    cases hread
    exact ⟨last, h⟩
  | cons info infos ih =>
    have hadd : ∀ {s s' : ProviderRegister}, s.ht = r.ht →
        addEntry { info with id := last + 1 } s = .ok s' → s'.ht.Keyed (last + 1) := by
      intro s s' hs hok
      unfold addEntry at hok
      cases hht : addProviderToHT { info with id := last + 1 } s.ht with
      | error e =>
        rw [hht] at hok
        cases hok
      | ok ht =>
        rw [hht] at hok
        cases hok
        exact keyed_addProviderToHT h rfl (hs ▸ hht)
    cases infos with
    | nil => exact ⟨last + 1, hadd rfl hread⟩
    | cons next infos =>
      unfold readEntries at hread
      dsimp only at hread
      split at hread
      · cases hread
      · next s hs =>
        refine ih (hadd ?_ hs) hread
        rfl

end Keyed

/-- However the file looks, entries stand in the chains of their classes. -/
theorem keyed_newProviderRegister {exFlags : Bool} {infos : List ProviderInfo}
    {r : ProviderRegister} (hload : newProviderRegister exFlags infos = .ok r) :
    ∃ last, r.ht.Keyed last := by
  have hempty : emptyRegister.ht.Keyed 0 := by
    refine ⟨?_, ?_, ?_, ?_⟩ <;> simp [emptyRegister, ProviderTable.at]
  unfold newProviderRegister at hload
  split at hload
  · cases hload
  · next s hs =>
    obtain ⟨last, hkeyed⟩ := keyed_readEntries hempty hs
    refine ⟨last, ?_⟩
    unfold ProviderRegister.complete at hload
    split_ifs at hload <;> cases hload <;> exact hkeyed

end Sfcb.ProviderMgr
