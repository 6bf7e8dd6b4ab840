import Mathlib.Data.Set.Basic
import Sfcb.ProviderMgr.RegistrationFile

/-!
# What a registration file registers

A section declares that a provider serves a class in some namespaces. `addProviderToHT` compares
a section with the first one of its class only. If the provider is another one, the section goes
into the chain as it is; if it is the same one, the head of the chain gets the first namespace of
the section, and the others are lost.

So the table has what the file declares exactly if every namespace that a section lists again
for the provider of the first one is a namespace of the first one, or comes first somewhere
(`registered_eq_declared_iff`).
-/

namespace Sfcb.ProviderMgr.Registration

open Sfcb.Lib

/-- The class, without case, the provider and the namespace of what is in the chains. -/
def registered (ht : ProviderTable) : Set (CStr × Option CStr × CStr) :=
  { t | ∃ info ∈ ht.at t.1, info.providerName = t.2.1 ∧ t.2.2 ∈ info.namespaces }

/-- The same for what the sections say. -/
def declared (infos : List ProviderInfo) : Set (CStr × Option CStr × CStr) :=
  { t | ∃ info ∈ infos, fold info.className = t.1 ∧ info.providerName = t.2.1 ∧
    t.2.2 ∈ info.namespaces }

/-- The first section of a class. -/
def firstOf (infos : List ProviderInfo) (key : CStr) : Option ProviderInfo :=
  infos.find? fun info => fold info.className = key

/-- What becomes of the namespaces of a section behind the first one of its class. -/
def stored (first info : ProviderInfo) : List CStr :=
  if info.providerName = first.providerName then first.namespaces ++ info.namespaces.take 1
  else info.namespaces

/-- A namespace that is given to the head of a chain, or is there already. -/
def Kept (infos : List ProviderInfo) (first : ProviderInfo) (n : CStr) : Prop :=
  n ∈ first.namespaces ∨ ∃ info ∈ infos, fold info.className = fold first.className ∧
    info.providerName = first.providerName ∧ info.namespaces.head? = some n

instance (infos : List ProviderInfo) (first : ProviderInfo) (n : CStr) : Decidable (Kept infos first n) :=
  inferInstanceAs (Decidable (_ ∨ _))

section Table

variable {ht ht' : ProviderTable} {info : ProviderInfo} {infos done : List ProviderInfo} {key : CStr}

/-- What an entry does to the table. -/
theorem addProviderToHT_cases (hadd : addProviderToHT info ht = .ok ht') :
    (ht.at (fold info.className) = [] ∧ ht' = ht.insert (fold info.className) [info]) ∨
    ∃ head chain master providerName, ht.at (fold info.className) = head :: chain ∧
      head.providerName = some master ∧ info.providerName = some providerName ∧
      ((strcmp master providerName = 0 ∧ ∃ first rest new others,
          head.ns = some (first, rest) ∧ info.ns = some (new, others) ∧
          (((∃ n ∈ first :: rest, strcmp n new = 0) ∧ ht' = ht) ∨
            ((¬ ∃ n ∈ first :: rest, strcmp n new = 0) ∧
              ht' = ht.insert (fold info.className)
                ({ head with ns := some (first, rest ++ [new]) } :: chain)))) ∨
        (strcmp master providerName ≠ 0 ∧
          ht' = ht.insert (fold info.className) (head :: info :: chain))) := by
  unfold addProviderToHT at hadd
  unfold ProviderTable.at
  cases hlookup : ht.lookup (fold info.className) with
  | none =>
    simp only [hlookup, Except.ok.injEq] at hadd
    exact .inl ⟨rfl, hadd.symm⟩
  | some chain =>
    cases chain with
    | nil =>
      simp only [hlookup, Except.ok.injEq] at hadd
      exact .inl ⟨rfl, hadd.symm⟩
    | cons head chain =>
      simp only [hlookup] at hadd
      split at hadd
      · next master providerName hmaster hprovider =>
        refine .inr ⟨head, chain, master, providerName, rfl, hmaster, hprovider, ?_⟩
        split at hadd
        · next hsame =>
          split at hadd
          · cases hadd
          · split at hadd
            · next first rest new others hhead hinfo =>
              refine .inl ⟨hsame, first, rest, new, others, hhead, hinfo, ?_⟩
              split at hadd
              · next hany =>
                cases hadd
                exact .inl ⟨by simpa using hany, rfl⟩
              · next hany =>
                cases hadd
                exact .inr ⟨by simpa using hany, rfl⟩
            · cases hadd
        · next hother =>
          cases hadd
          exact .inr ⟨hother, rfl⟩
      · cases hadd

/-- The table holds the sections that have been read: the heads of the chains are about the
providers of the first ones, and of each section there is what is stored of it. -/
structure Holds (done : List ProviderInfo) (ht : ProviderTable) : Prop where
  empty : ∀ key, firstOf done key = none → ht.at key = []
  head : ∀ key first, firstOf done key = some first →
    ∃ head chain, ht.at key = head :: chain ∧ head.providerName = first.providerName
  triples : ∀ key first, firstOf done key = some first → ∀ p n,
    (∃ info ∈ ht.at key, info.providerName = p ∧ n ∈ info.namespaces) ↔
      ∃ info ∈ done, fold info.className = key ∧ info.providerName = p ∧ n ∈ stored first info

theorem holds_nil : Holds [] ∅ := by
  refine ⟨fun key _ => rfl, ?_, ?_⟩ <;> intro key first h <;> cases h

theorem firstOf_append (done : List ProviderInfo) (info : ProviderInfo) (key : CStr) :
    firstOf (done ++ [info]) key =
      (firstOf done key).or (if fold info.className = key then some info else none) := by
  unfold firstOf
  rw [List.find?_append, List.find?_singleton]
  by_cases h : fold info.className = key <;> simp [h]

theorem firstOf_mem {first : ProviderInfo} (hfirst : firstOf done key = some first) :
    first ∈ done ∧ fold first.className = key :=
  ⟨List.mem_of_find?_eq_some hfirst, by simpa using List.find?_some hfirst⟩

/-- The namespaces of the first section are stored with it. -/
theorem mem_stored_self (info : ProviderInfo) (n : CStr) :
    n ∈ stored info info ↔ n ∈ info.namespaces := by
  unfold stored
  rw [if_pos rfl, List.mem_append]
  exact ⟨fun h => h.elim id List.mem_of_mem_take, .inl⟩

theorem mem_stored_of_ne {first : ProviderInfo} (hne : info.providerName ≠ first.providerName)
    (n : CStr) : n ∈ stored first info ↔ n ∈ info.namespaces := by
  unfold stored
  rw [if_neg hne]

theorem mem_stored_of_eq {first : ProviderInfo} (heq : info.providerName = first.providerName)
    (n : CStr) : n ∈ stored first info ↔
      n ∈ first.namespaces ∨ info.namespaces.head? = some n := by
  unfold stored
  rw [if_pos heq, List.mem_append]
  cases info.namespaces with
  | nil => simp
  | cons m ns => simp [eq_comm]

/-- A table in which only the chain of one class has changed. -/
theorem Holds.extend (h : Holds done ht) {first : ProviderInfo}
    (hfirst : firstOf (done ++ [info]) (fold info.className) = some first)
    (hother : ∀ key, key ≠ fold info.className → ht'.at key = ht.at key)
    (hhead : ∃ head chain, ht'.at (fold info.className) = head :: chain ∧
      head.providerName = first.providerName)
    (htriples : ∀ p n,
      (∃ i ∈ ht'.at (fold info.className), i.providerName = p ∧ n ∈ i.namespaces) ↔
        (∃ i ∈ done, fold i.className = fold info.className ∧ i.providerName = p ∧
          n ∈ stored first i) ∨ (info.providerName = p ∧ n ∈ stored first info)) :
    Holds (done ++ [info]) ht' := by
  have hsame : ∀ key, key ≠ fold info.className →
      firstOf (done ++ [info]) key = firstOf done key := by
    intro key hkey
    rw [firstOf_append, if_neg hkey.symm, Option.or_none]
  refine ⟨?_, ?_, ?_⟩
  · intro key hnone
    by_cases hkey : key = fold info.className
    · rw [hkey, hfirst] at hnone
      cases hnone
    · rw [hother key hkey]
      exact h.empty key (hsame key hkey ▸ hnone)
  · intro key f hf
    by_cases hkey : key = fold info.className
    · rw [hkey, hfirst] at hf
      cases hf
      exact hkey ▸ hhead
    · rw [hother key hkey]
      exact h.head key f (hsame key hkey ▸ hf)
  · intro key f hf p n
    by_cases hkey : key = fold info.className
    · rw [hkey, hfirst] at hf
      cases hf
      rw [hkey, htriples p n]
      constructor
      · rintro (⟨i, hi, hrest⟩ | hrest)
        · exact ⟨i, List.mem_append_left _ hi, hrest⟩
        · exact ⟨info, by simp, rfl, hrest⟩
      · rintro ⟨i, hi, hclass, hrest⟩
        rcases List.mem_append.mp hi with hi | hi
        · exact .inl ⟨i, hi, hclass, hrest⟩
        · cases List.mem_singleton.mp hi
          exact .inr hrest
    · rw [hother key hkey, h.triples key f (hsame key hkey ▸ hf) p n]
      constructor
      · rintro ⟨i, hi, hrest⟩
        exact ⟨i, List.mem_append_left _ hi, hrest⟩
      · rintro ⟨i, hi, hclass, hrest⟩
        rcases List.mem_append.mp hi with hi | hi
        · exact ⟨i, hi, hclass, hrest⟩
        · cases List.mem_singleton.mp hi
          exact absurd hclass.symm hkey

/-- What is in a chain has been read somewhere. -/
theorem Holds.text (h : Holds done ht) (htext : ∀ i ∈ done, i.Text) {first : ProviderInfo}
    (hfirst : firstOf done key = some first) {i : ProviderInfo} (hi : i ∈ ht.at key) {n : CStr}
    (hn : n ∈ i.namespaces) : 0 ∉ n := by
  obtain ⟨i', hi', -, -, hstored⟩ :=
    (h.triples key first hfirst i.providerName n).mp ⟨i, hi, rfl, hn⟩
  by_cases heq : i'.providerName = first.providerName
  · rcases (mem_stored_of_eq heq n).mp hstored with hn | hn
    · exact (htext first (firstOf_mem hfirst).1).2.2 n hn
    · exact (htext i' hi').2.2 n (List.mem_of_head? hn)
  · exact (htext i' hi').2.2 n ((mem_stored_of_ne heq n).mp hstored)

/-- An entry whose provider is that of the head: the chain has what it had, and the first
namespace of the entry with the head. -/
theorem Holds.merged (h : Holds done ht) {first : ProviderInfo}
    (hfirst : firstOf done (fold info.className) = some first)
    (heq : info.providerName = first.providerName) {new : CStr}
    (hnew : info.namespaces.head? = some new)
    (hother : ∀ key, key ≠ fold info.className → ht'.at key = ht.at key)
    (hhead : ∃ head chain, ht'.at (fold info.className) = head :: chain ∧
      head.providerName = first.providerName)
    (htriples : ∀ p n,
      (∃ i ∈ ht'.at (fold info.className), i.providerName = p ∧ n ∈ i.namespaces) ↔
        (∃ i ∈ ht.at (fold info.className), i.providerName = p ∧ n ∈ i.namespaces) ∨
          (info.providerName = p ∧ n = new)) :
    Holds (done ++ [info]) ht' := by
  refine h.extend (by rw [firstOf_append, hfirst]; rfl) hother hhead ?_
  intro p n
  rw [htriples p n, h.triples _ first hfirst p n, mem_stored_of_eq heq n, hnew,
    Option.some.injEq, @eq_comm _ new n]
  obtain ⟨hmem, hclass⟩ := firstOf_mem hfirst
  constructor
  · rintro (hold | ⟨hp, hn⟩)
    · exact .inl hold
    · exact .inr ⟨hp, .inr hn⟩
  · rintro (hold | ⟨hp, hn | hn⟩)
    · exact .inl hold
    · exact .inl ⟨first, hmem, hclass, heq ▸ hp, (mem_stored_self first n).mpr hn⟩
    · exact .inr ⟨hp, hn⟩

theorem holds_addProviderToHT (h : Holds done ht) (htext : ∀ i ∈ done ++ [info], i.Text)
    (hadd : addProviderToHT info ht = .ok ht') : Holds (done ++ [info]) ht' := by
  have hdone : ∀ i ∈ done, i.Text := fun i hi => htext i (List.mem_append_left _ hi)
  have hinfo : info.Text := htext info (by simp)
  have hinsert : ∀ chain key, key ≠ fold info.className →
      ProviderTable.at (ht.insert (fold info.className) chain) key = ht.at key := by
    intro chain key hkey
    rw [at_insert, if_neg hkey]
  have hself : ∀ chain, ProviderTable.at (ht.insert (fold info.className) chain)
      (fold info.className) = chain := by
    intro chain
    rw [at_insert, if_pos rfl]
  obtain ⟨hnil, rfl⟩ | ⟨head, chain, master, providerName, hat, hmaster, hprovider, hcase⟩ :=
    addProviderToHT_cases hadd
  · -- the first entry of its class
    have hnone : firstOf done (fold info.className) = none := by
      cases hfirst : firstOf done (fold info.className) with
      | none => rfl
      | some first =>
        obtain ⟨head, chain, hat, -⟩ := h.head _ first hfirst
        rw [hnil] at hat
        cases hat
    have hfirst : firstOf (done ++ [info]) (fold info.className) = some info := by
      rw [firstOf_append, hnone, if_pos rfl]
      rfl
    refine h.extend hfirst (hinsert [info]) ⟨info, [], hself [info], rfl⟩ ?_
    intro p n
    rw [hself, mem_stored_self]
    constructor
    · rintro ⟨i, hi, hrest⟩
      cases List.mem_singleton.mp hi
      exact .inr hrest
    · rintro (⟨i, hi, hclass, -⟩ | hrest)
      · have := List.find?_eq_none.mp hnone i hi
        simp [hclass] at this
      · exact ⟨info, List.mem_singleton_self info, hrest⟩
  · obtain ⟨first, hfirst⟩ : ∃ first, firstOf done (fold info.className) = some first := by
      cases hfirst : firstOf done (fold info.className) with
      | none =>
        rw [h.empty _ hfirst] at hat
        cases hat
      | some first => exact ⟨first, rfl⟩
    have hheadProvider : head.providerName = first.providerName := by
      obtain ⟨head', chain', hat', hprovider'⟩ := h.head _ first hfirst
      rw [hat] at hat'
      cases hat'
      exact hprovider'
    have hmasterText : 0 ∉ master := by
      refine (hdone first (firstOf_mem hfirst).1).2.1 master ?_
      rw [← hheadProvider, hmaster]
      rfl
    have hcmp : strcmp master providerName = 0 ↔ info.providerName = first.providerName := by
      rw [strcmp_eq_zero_iff_of_notMem hmasterText (hinfo.2.1 providerName hprovider),
        ← hheadProvider, hmaster, hprovider, Option.some.injEq]
      exact eq_comm
    obtain ⟨hsame, first', rest, new, others, hns, hinfons, hcase⟩ | ⟨hne, rfl⟩ := hcase
    · have heq := hcmp.mp hsame
      have hnew : info.namespaces.head? = some new := by simp [ProviderInfo.namespaces, hinfons]
      obtain ⟨⟨n, hn, hzero⟩, rfl⟩ | ⟨-, rfl⟩ := hcase
      · -- the head has the namespace already
        have hmem : n ∈ head.namespaces := by simpa [ProviderInfo.namespaces, hns] using hn
        have hnText : 0 ∉ n := h.text hdone hfirst (hat ▸ List.mem_cons_self) hmem
        have hnewText : 0 ∉ new := hinfo.2.2 new (List.mem_of_head? hnew)
        have hnn : n = new := (strcmp_eq_zero_iff_of_notMem hnText hnewText).mp hzero
        refine h.merged hfirst heq hnew (fun _ _ => rfl) ⟨head, chain, hat, hheadProvider⟩ ?_
        intro p m
        refine ⟨.inl, fun hor => hor.elim id ?_⟩
        rintro ⟨hp, rfl⟩
        exact ⟨head, hat ▸ List.mem_cons_self, by rw [hheadProvider, ← heq, hp], hnn ▸ hmem⟩
      · refine h.merged hfirst heq hnew (hinsert _) ⟨_, chain, hself _, hheadProvider⟩ ?_
        intro p m
        have hhead : ProviderInfo.namespaces { head with ns := some (first', rest ++ [new]) } =
            head.namespaces ++ [new] := by
          simp [ProviderInfo.namespaces, hns]
        have hp : info.providerName = p ↔ head.providerName = p := by rw [heq, hheadProvider]
        rw [hself, hat]
        simp only [List.exists_mem_cons_iff, hhead, List.mem_append, List.mem_singleton, hp]
        rw [and_or_left]
        exact or_right_comm
    · -- another provider than that of the first entry
      have hdiffers : info.providerName ≠ first.providerName := fun heq => hne (hcmp.mpr heq)
      refine h.extend (by rw [firstOf_append, hfirst]; rfl) (hinsert _)
        ⟨head, info :: chain, hself _, hheadProvider⟩ ?_
      intro p n
      rw [hself, ← h.triples _ first hfirst p n, hat, mem_stored_of_ne hdiffers]
      simp only [List.exists_mem_cons_iff]
      exact or_left_comm.trans or_comm

theorem holds_foldlM (h : Holds done ht) (htext : ∀ i ∈ done ++ infos, i.Text)
    (hread : infos.foldlM (fun ht info => addProviderToHT info ht) ht = .ok ht') :
    Holds (done ++ infos) ht' := by
  induction infos generalizing done ht with
  | nil =>
    cases hread
    rwa [List.append_nil]
  | cons info infos ih =>
    rw [List.append_cons] at htext ⊢
    rw [List.foldlM_cons] at hread
    cases hadd : addProviderToHT info ht with
    | error e =>
      rw [hadd] at hread
      cases hread
    | ok next =>
      rw [hadd] at hread
      have hnext := holds_addProviderToHT h (fun i hi => htext i (List.mem_append_left _ hi)) hadd
      exact ih hnext htext hread

/-! ## Files -/

theorem setField_text {knownUser : CStr → Bool} {key val : CStr} {vals : List CStr}
    {info info' : ProviderInfo} (hinfo : info.Text) (hval : 0 ∉ val) (hvals : ∀ v ∈ vals, 0 ∉ v)
    (hset : setField knownUser key val vals info = .ok info') : info'.Text := by
  obtain ⟨hclass, hprovider, hns⟩ := hinfo
  unfold setField at hset
  split_ifs at hset
  all_goals try (cases hset; exact ⟨hclass, hprovider, hns⟩)
  · cases hset
    exact ⟨hclass, by simpa using hval, hns⟩
  · split at hset <;> cases hset
    exact ⟨hclass, hprovider, hns⟩
  · cases hset
    refine ⟨hclass, hprovider, ?_⟩
    intro n hn
    rcases List.mem_cons.mp hn with rfl | hn
    · exact hval
    · exact hvals n hn

theorem text_sectionsFrom {knownUser : CStr → Bool} {file : List Stmt} {started : Option ProviderInfo}
    {id : Nat} (hstarted : ∀ info ∈ started, info.Text) (htext : ∀ stmt ∈ file, stmt.Text) :
    ∀ info ∈ sectionsFrom knownUser started id file, info.Text := by
  induction file generalizing started id with
  | nil => simpa [sectionsFrom] using hstarted
  | cons stmt file ih =>
    have hrest := fun stmt hstmt => htext stmt (List.mem_cons_of_mem _ hstmt)
    have hstmt := htext stmt List.mem_cons_self
    cases stmt with
    | invalid => exact ih hstarted hrest
    | comment => exact ih hstarted hrest
    | header name =>
      intro info hinfo
      rcases List.mem_append.mp hinfo with hinfo | hinfo
      · exact hstarted info (by simpa using hinfo)
      · refine ih ?_ hrest info hinfo
        rintro _ ⟨⟩
        exact ⟨hstmt, by simp [newEntry], by simp [newEntry, ProviderInfo.namespaces]⟩
    | keyValue key val vals =>
      refine ih ?_ hrest
      rintro _ hset
      obtain ⟨info, hinfo, rfl⟩ := Option.map_eq_some_iff.mp hset
      have hold := hstarted info hinfo
      cases hok : setField knownUser key val vals info with
      | error e => exact hold
      | ok info' => exact setField_text hold hstmt.2.1 hstmt.2.2 hok

/-- What the table of an accepted file holds. -/
theorem holds_newProviderRegister {exFlags : Bool} {knownUser : CStr → Bool} {file : List Stmt}
    {specials : Specials} (htext : ∀ stmt ∈ file, stmt.Text)
    (hload : newProviderRegister exFlags knownUser file = .ok ⟨specials, ht⟩) :
    Holds (sections knownUser file) ht := by
  have hentries : ∀ info ∈ sections knownUser file, info.Text :=
    text_sectionsFrom (by simp) htext
  unfold newProviderRegister at hload
  cases hread : readFile exFlags knownUser start file with
  | error e => simp [hread] at hload
  | ok l =>
    have hht : l.ht = ht := by
      simp only [hread, ProviderRegister.complete] at hload
      split_ifs at hload <;> cases hload <;> rfl
    have hfold := (readFile_sections hread).1
    rw [hht] at hfold
    exact holds_foldlM holds_nil hentries hfold

/-- The register has what the file declares exactly if every namespace of a section with the
class and the provider of an earlier first one is among those that are kept. -/
theorem registered_eq_declared_iff {exFlags : Bool} {knownUser : CStr → Bool} {file : List Stmt}
    {specials : Specials} (htext : ∀ stmt ∈ file, stmt.Text)
    (hload : newProviderRegister exFlags knownUser file = .ok ⟨specials, ht⟩) :
    registered ht = declared (sections knownUser file) ↔
      ∀ info ∈ sections knownUser file,
        ∀ first ∈ firstOf (sections knownUser file) (fold info.className),
        info.providerName = first.providerName →
        ∀ n ∈ info.namespaces, Kept (sections knownUser file) first n := by
  have hholds := holds_newProviderRegister htext hload
  generalize sections knownUser file = infos at hholds ⊢
  have hstored : ∀ (first i : ProviderInfo), firstOf infos (fold i.className) = some first → ∀ n,
      i ∈ infos → n ∈ stored first i →
        (fold i.className, i.providerName, n) ∈ declared infos := by
    intro first i hfirst n hi hn
    by_cases heq : i.providerName = first.providerName
    · obtain ⟨hmem, hclass⟩ := firstOf_mem hfirst
      rcases (mem_stored_of_eq heq n).mp hn with hn | hn
      · exact ⟨first, hmem, hclass, heq.symm, hn⟩
      · exact ⟨i, hi, rfl, rfl, List.mem_of_head? hn⟩
    · exact ⟨i, hi, rfl, rfl, (mem_stored_of_ne heq n).mp hn⟩
  have hkept : ∀ (first i : ProviderInfo), firstOf infos (fold i.className) = some first →
      i.providerName = first.providerName → ∀ n,
        (fold i.className, i.providerName, n) ∈ registered ht ↔ Kept infos first n := by
    intro first i hfirst heq n
    obtain ⟨hmem, hclass⟩ := firstOf_mem hfirst
    show (∃ j ∈ ht.at (fold i.className), j.providerName = i.providerName ∧ n ∈ j.namespaces) ↔ _
    rw [hholds.triples _ first hfirst]
    constructor
    · rintro ⟨j, hj, hjclass, hjprovider, hn⟩
      have hjfirst : j.providerName = first.providerName := hjprovider.trans heq
      exact ((mem_stored_of_eq hjfirst n).mp hn).imp id
        fun hn => ⟨j, hj, hjclass.trans hclass.symm, hjfirst, hn⟩
    · rintro (hn | ⟨j, hj, hjclass, hjfirst, hn⟩)
      · exact ⟨first, hmem, hclass, heq.symm, (mem_stored_self first n).mpr hn⟩
      · exact ⟨j, hj, hjclass.trans hclass, hjfirst.trans heq.symm,
          (mem_stored_of_eq hjfirst n).mpr (.inr hn)⟩
  have hfirst : ∀ i ∈ infos, ∃ first, firstOf infos (fold i.className) = some first := by
    intro i hi
    exact Option.isSome_iff_exists.mp (List.find?_isSome.mpr ⟨i, hi, by simp⟩)
  constructor
  · intro heq i hi first hf hprovider n hn
    rw [← hkept first i hf hprovider n, heq]
    exact ⟨i, hi, rfl, rfl, hn⟩
  · intro hall
    ext ⟨key, p, n⟩
    constructor
    · intro hreg
      -- only what has been read is in a chain
      obtain ⟨j, hj, hjprovider, hjn⟩ := hreg
      cases hf : firstOf infos key with
      | none =>
        rw [hholds.empty key hf] at hj
        cases hj
      | some first =>
        obtain ⟨i, hi, rfl, hp, hn⟩ :=
          (hholds.triples key first hf p n).mp ⟨j, hj, hjprovider, hjn⟩
        have hdeclared := hstored first i hf n hi hn
        rwa [hp] at hdeclared
    · rintro ⟨i, hi, rfl, rfl, hn⟩
      obtain ⟨first, hf⟩ := hfirst i hi
      by_cases heq : i.providerName = first.providerName
      · exact (hkept first i hf heq n).mpr (hall i hi first hf heq n hn)
      · exact (hholds.triples _ first hf i.providerName n).mpr
          ⟨i, hi, rfl, rfl, (mem_stored_of_ne heq n).mpr hn⟩

/-- A section with a provider and its namespaces. -/
def sectionOf (cls provider n : CStr) (ns : List CStr) : List Stmt :=
  [.header cls, .keyValue (lit "provider") provider [], .keyValue (lit "namespace") n ns]

def classSection : List Stmt :=
  sectionOf (lit "$ClassProvider$") (lit "ClassProvider") (lit "*") []

theorem registered_eq_declared_iff_repeated :
    ∃ ht specials, newProviderRegister true (fun _ => true)
        (classSection ++ sectionOf (lit "CIM_Foo") (lit "Foo") (lit "root/cimv2") [lit "root/a"] ++
          sectionOf (lit "cim_foo") (lit "Foo") (lit "root/b") []) = .ok ⟨specials, ht⟩ ∧
      registered ht = declared (sections (fun _ => true)
        (classSection ++ sectionOf (lit "CIM_Foo") (lit "Foo") (lit "root/cimv2") [lit "root/a"] ++
          sectionOf (lit "cim_foo") (lit "Foo") (lit "root/b") [])) := by
  obtain ⟨ht, specials, hload⟩ : ∃ ht specials, newProviderRegister true (fun _ => true)
      (classSection ++ sectionOf (lit "CIM_Foo") (lit "Foo") (lit "root/cimv2") [lit "root/a"] ++
        sectionOf (lit "cim_foo") (lit "Foo") (lit "root/b") []) = .ok ⟨specials, ht⟩ :=
    ⟨_, _, rfl⟩
  exact ⟨ht, specials, hload, (registered_eq_declared_iff (by decide) hload).mpr (by decide)⟩

/-- The second of three name spaces is lost. -/
theorem not_registered_eq_declared :
    ¬ ∀ (exFlags : Bool) (knownUser : CStr → Bool) (file : List Stmt) (ht : ProviderTable)
      (specials : Specials), (∀ stmt ∈ file, stmt.Text) →
      newProviderRegister exFlags knownUser file = .ok ⟨specials, ht⟩ →
      registered ht = declared (sections knownUser file) := by
  intro hall
  obtain ⟨ht, specials, hload, hlost⟩ : ∃ ht specials, newProviderRegister true (fun _ => true)
      (classSection ++ sectionOf (lit "CIM_Foo") (lit "Foo") (lit "root/cimv2") [] ++
        sectionOf (lit "CIM_Foo") (lit "Foo") (lit "root/a") [lit "root/b"]) = .ok ⟨specials, ht⟩ ∧
      ∀ info ∈ ht.at (lit "cim_foo"), lit "root/b" ∉ info.namespaces :=
    ⟨_, _, rfl, by decide⟩
  have heq := hall true (fun _ => true) _ ht specials (by decide) hload
  have hdeclared : (lit "cim_foo", some (lit "Foo"), lit "root/b") ∈ registered ht := by
    rw [heq]
    exact ⟨⟨lit "CIM_Foo", 0, some (lit "Foo"), some (lit "root/a", [lit "root/b"]), 3⟩, by decide⟩
  obtain ⟨info, hinfo, -, hn⟩ := hdeclared
  exact hlost info hinfo hn

end Table

/-! ## The register of the lookups -/

/-- Entries numbered one after the other. -/
def Numbered : Nat → List ProviderInfo → Prop
  | _, [] => True
  | id, info :: infos => info.id = id + 1 ∧ Numbered (id + 1) infos

section Register

variable {ht : ProviderTable} {infos : List ProviderInfo} {exFlags : Bool}
  {knownUser : CStr → Bool} {r : ProviderRegister}

theorem readEntries_eq {id : Nat} (hnumbered : Numbered id infos)
    (hread : infos.foldlM (fun ht info => addProviderToHT info ht) r.ht = .ok ht) :
    readEntries exFlags id r infos =
      .ok ⟨infos.dropLast.foldl (fun s info => noteSpecial exFlags info s) r.toSpecials, ht⟩ := by
  induction infos generalizing id r with
  | nil =>
    cases hread
    rfl
  | cons info infos ih =>
    obtain ⟨hid, hnumbered⟩ := hnumbered
    have hself : { info with id := id + 1 } = info := by rw [← hid]
    rw [List.foldlM_cons] at hread
    cases hadd : addProviderToHT info r.ht with
    | error e =>
      rw [hadd] at hread
      cases hread
    | ok next =>
      rw [hadd] at hread
      cases infos with
      | nil =>
        cases hread
        simp only [readEntries, hself, addEntry, hadd]
        rfl
      | cons second infos =>
        have hrest := @ih ⟨noteSpecial exFlags info r.toSpecials, next⟩ (id + 1) hnumbered hread
        simp only [readEntries, hself, addEntry, hadd]
        exact hrest

theorem numbered_sectionsFrom (file : List Stmt) :
    (∀ id, Numbered id (sectionsFrom knownUser none id file)) ∧
      ∀ info id, info.id = id + 1 → Numbered id (sectionsFrom knownUser (some info) (id + 1) file) := by
  induction file with
  | nil => exact ⟨fun id => trivial, fun info id hid => ⟨hid, trivial⟩⟩
  | cons stmt file ih =>
    obtain ⟨hnone, hsome⟩ := ih
    cases stmt with
    | invalid => exact ⟨hnone, hsome⟩
    | comment => exact ⟨hnone, hsome⟩
    | header name =>
      exact ⟨fun id => hsome _ id rfl, fun info id hid => ⟨hid, hsome _ (id + 1) rfl⟩⟩
    | keyValue key val vals =>
      refine ⟨hnone, fun info id hid => hsome _ id ?_⟩
      show ((setField knownUser key val vals info).toOption.getD info).id = id + 1
      cases hset : setField knownUser key val vals info with
      | error e => exact hid
      | ok info' => exact (setField_className hset).2.trans hid

/-- A file that is accepted is loaded like the list of its sections. -/
theorem newProviderRegister_sections {file : List Stmt}
    (hload : newProviderRegister exFlags knownUser file = .ok r) :
    ProviderMgr.newProviderRegister exFlags (sections knownUser file) = .ok r := by
  unfold newProviderRegister at hload
  cases hread : readFile exFlags knownUser start file with
  | error e => simp [hread] at hload
  | ok l =>
    simp only [hread] at hload
    obtain ⟨htable, hspecials⟩ := readFile_sections hread
    have hentries : readEntries exFlags 0 emptyRegister (sections knownUser file) =
        .ok ⟨_, l.ht⟩ := readEntries_eq ((numbered_sectionsFrom file).1 0) htable
    unfold ProviderMgr.newProviderRegister
    rw [hentries, ← hload, hspecials]
    rfl

end Register

end Sfcb.ProviderMgr.Registration
