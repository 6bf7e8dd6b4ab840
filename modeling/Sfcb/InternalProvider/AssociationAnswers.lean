import Sfcb.InternalProvider.Associations

/-!
# What an association request returns

`references_eq`: the instances of the association classes, in the order of the enumeration,
that have a reference whose normalized path is that of the object, under the role if one is
given.

`associators_eq`: what these instances reference beside the object, each normalized path once,
with the instance that was got for it last. A normalized path has the keys only, so objects of
two classes with the same keys are taken for one.
-/

namespace Sfcb.InternalProvider

open Sfcb.Lib Sfcb.Cmpi Sfcb.Paths Sfcb.FileRepository Sfcb.SfcUtil

variable {ι σ κ : Type}

/-! ## The enumeration -/

/-- Loops over lists that are got one after the other are a loop over all of them. -/
theorem foldlM_flatten (f : κ → Option (List ι)) (g : σ → ι → Option σ) (ks : List κ) (a : σ) :
    ks.foldlM (fun a k => (f k).bind fun xs => xs.foldlM g a) a =
      (ks.mapM f).bind fun xss => xss.flatten.foldlM g a := by
  induction ks generalizing a with
  | nil => rfl
  | cons k ks ih =>
    rw [List.foldlM_cons, List.mapM_cons]
    cases hf : f k with
    | none => rfl
    | some xs =>
      cases hrest : ks.mapM f with
      | none => simp [ih, hrest]
      | some xss => simp [ih, hrest]

namespace Cimom

variable (c : Cimom ι) (q : AssocRequest)

/-- The instances of a class and of its children, as they are enumerated. -/
def instancesOf (nss cns : CStr) (properties : Option (List CStr)) : Option (List ι) :=
  let bnss := c.repositoryNs nss
  ((cns :: c.getallchildren bnss cns).mapM (c.classInstances bnss)).map fun cis =>
    cis.flatten.map (c.cutDown properties)

theorem enumInstances_eq (nss cns : CStr) (properties : Option (List CStr))
    (retFnc : σ → ι → Option σ) (rslt : σ) :
    c.enumInstances nss cns properties retFnc rslt =
      (c.instancesOf nss cns properties).bind fun cis => cis.foldlM retFnc rslt := by
  unfold enumInstances instancesOf
  rw [foldlM_flatten, Option.bind_map]
  congr 1
  funext cis
  rw [Function.comp_apply, List.foldlM_map]

/-- The classes that are enumerated. -/
def assocNames : List CStr :=
  match q.assocClass with
  | some assocClass => [assocClass]
  | none => (c.getassocs q.ns).filterMap id

/-- The instances in the list that `getRefs` begins with. -/
def collected : Option (List ι) :=
  ((c.assocNames q).mapM fun name => c.instancesOf q.ns name q.propertyList).map List.flatten

variable {c q} {l : GenericListInfo ι} {s : ListState ι} {cis : List ι}

/-- Appending to a list. -/
theorem return2lst_all (h : SfcUtil.Represents l s) (cis : List ι) :
    ∃ l' t, cis.foldlM return2lst l = some l' ∧ SfcUtil.Represents l' t ∧
      t.items.map (·.2) = s.items.map (·.2) ++ cis := by
  induction cis generalizing l s with
  | nil => exact ⟨l, s, rfl, h, (List.append_nil _).symm⟩
  | cons ci cis ih =>
    obtain ⟨l₁, hadd, h₁⟩ := h.addToEnd ci
    obtain ⟨l', t, hrest, ht, hitems⟩ := ih h₁
    refine ⟨l', t, ?_, ht, ?_⟩
    · rw [List.foldlM_cons, return2lst, hadd]
      exact hrest
    · rw [hitems]
      simp [ListState.add]

/-- The classes are enumerated into one list, with or without names in between that are null. -/
theorem collectRefs_eq_foldlM : c.collectRefs q =
    (c.assocNames q).foldlM (fun refs name =>
      c.enumInstances q.ns name q.propertyList return2lst refs) (initializeList ι) := by
  unfold collectRefs assocNames
  cases q.assocClass with
  | some assocClass =>
    simp [List.foldlM_cons]
  | none =>
    generalize initializeList ι = refs
    induction c.getassocs q.ns generalizing refs with
    | nil => rfl
    | cons name names ih =>
      cases name with
      | none => exact ih refs
      | some name =>
        simp only [List.foldlM_cons, List.filterMap_cons, id_eq]
        congr 1
        funext refs
        exact ih refs

theorem collectRefs_eq (h : c.collected q = some cis) :
    ∃ l s, c.collectRefs q = some l ∧ SfcUtil.Represents l s ∧ s.items.map (·.2) = cis := by
  have hempty := SfcUtil.Represents.initializeList ι
  obtain ⟨l, t, hall, ht, hitems⟩ := return2lst_all hempty cis
  refine ⟨l, t, ?_, ht, hitems⟩
  have hcollect : c.collectRefs q =
      (c.collected q).bind fun cis => cis.foldlM return2lst (initializeList ι) := by
    rw [collectRefs_eq_foldlM, collected, Option.bind_map]
    simp only [enumInstances_eq]
    rw [foldlM_flatten]
    rfl
  rw [hcollect, h]
  exact hall

/-! ## References -/

variable (c q)

/-- No reference of the instance is the null pointer. -/
def Readable (ci : ι) : Prop := ∀ p ∈ c.properties ci, p.2 ≠ .ref none

/-- The data is a reference with a normalized path. -/
def refersTo (pn : NormalPath) : PropertyData → Bool
  | .ref (some op) => normalizeObjectPathStrBuf op = pn
  | _ => false

/-- The instance references the object, under the role if there is one. -/
def refers (ci : ι) : Bool :=
  let pn := normalizeObjectPathStrBuf q.cop
  match q.role with
  | some role => (c.getProperty ci role).any (refersTo pn)
  | none => (c.properties ci).any fun p => refersTo pn p.2

variable {c q} {ci : ι}

theorem Readable.getProperty (h : c.Readable ci) {name : CStr} {data : PropertyData}
    (hdata : c.getProperty ci name = some data) : data ≠ .ref none := by
  obtain ⟨p, hp, rfl⟩ := Option.map_eq_some_iff.mp hdata
  exact h p (List.mem_of_find?_eq_some hp)

theorem matched_eq {pn : NormalPath} {ps : List (CStr × PropertyData)}
    (h : ∀ p ∈ ps, p.2 ≠ .ref none) : matched pn ps = some (ps.any fun p => refersTo pn p.2) := by
  induction ps with
  | nil => rfl
  | cons p ps ih =>
    have hrest := ih fun p hp => h p (List.mem_cons_of_mem _ hp)
    obtain ⟨name, data⟩ := p
    cases data with
    | other =>
      rw [matched, hrest]
      rfl
    | ref op =>
      cases op with
      | none => exact absurd rfl (h _ List.mem_cons_self)
      | some op =>
        rw [matched, objectPathEquals, Option.map_some, Option.bind_some, hrest]
        by_cases heq : normalizeObjectPathStrBuf op = pn
        · simp [refersTo, heq]
        · simp [refersTo, heq]

theorem stays_eq (h : c.Readable ci) : c.stays q ci = some (c.refers q ci) := by
  unfold stays refers
  cases q.role with
  | none => exact matched_eq h
  | some role =>
    simp only
    cases hdata : c.getProperty ci role with
    | none => rfl
    | some data =>
      have hne := h.getProperty hdata
      cases data with
      | other => rfl
      | ref op =>
        cases op with
        | none => exact absurd rfl hne
        | some op => rfl

/-- The instances that do not reference the object are taken out of the list. -/
theorem narrowed (h : SfcUtil.Represents l s)
    (hread : ∀ ci ∈ s.items.map (·.2), c.Readable ci) :
    ∃ l' t, sweepOrFault (fun _ ci => (c.stays q ci).map fun stays => ((), !stays)) l () =
        some (l', ()) ∧
      SfcUtil.Represents l' t ∧
      t.items.map (·.2) = (s.items.map (·.2)).filter (c.refers q) := by
  apply sweepOrFault_some h
  apply bodies_filter
  intro ci hci
  rw [stays_eq (hread ci hci)]
  rfl

variable [DecidableEq ι]

/-- What the request looks at is known and can be read. -/
structure Serves (c : Cimom ι) (q : AssocRequest) (cis : List ι) : Prop where
  known : ∀ ac, q.assocClass = some ac → (c.assocForName q.ns ac q.role q.resultRole).isSome
  collected : c.collected q = some cis
  readable : ∀ ci ∈ cis, c.Readable ci

omit [DecidableEq ι] in
theorem Serves.not_unknown (h : Serves c q cis) :
    (q.assocClass.any fun ac => (c.assocForName q.ns ac q.role q.resultRole).isNone) = false := by
  cases hclass : q.assocClass with
  | none => rfl
  | some ac =>
    have hknown := h.known ac hclass
    simp only [Option.any_some]
    rw [Option.isNone_eq_false_iff]
    exact hknown

/-- `getRefs` gets as far as to the references. -/
theorem Serves.getRefs_eq (h : Serves c q cis) (f : AssociatorFunction) :
    ∃ l l' t, SfcUtil.Represents l' t ∧ t.items.map (·.2) = cis.filter (c.refers q) ∧
      sweepOrFault (fun _ ci => (c.stays q ci).map fun stays => ((), !stays)) l () =
        some (l', ()) ∧
      c.getRefs q f = c.returnRefs q f l := by
  obtain ⟨l, s, hl, hs, hitems⟩ := collectRefs_eq h.collected
  obtain ⟨l', t, hsweep, ht, hleft⟩ := narrowed hs (hitems.symm ▸ h.readable)
  refine ⟨l, l', t, ht, ?_, hsweep, ?_⟩
  · rw [hleft, hitems]
  · rw [getRefs, h.not_unknown, hl]
    rfl

omit [DecidableEq ι] in
theorem foldlM_some (f : σ → ι → σ) (cis : List ι) (s : σ) :
    cis.foldlM (fun s ci => some (f s ci)) s = some (cis.foldl f s) := by
  induction cis generalizing s with
  | nil => rfl
  | cons ci cis ih => exact ih (f s ci)

omit [DecidableEq ι] in
theorem foldl_append_returned (name : Bool) (cis : List ι) (rslt : List (Returned ι)) :
    cis.foldl (fun rslt ci => rslt ++ [c.returned name ci]) rslt =
      rslt ++ cis.map (c.returned name) := by
  induction cis generalizing rslt with
  | nil => exact (List.append_nil rslt).symm
  | cons ci cis ih =>
    rw [List.foldl_cons, ih, List.map_cons, List.append_assoc, List.singleton_append]

/-- `References` and `ReferenceNames` return the instances that reference the object, in the
order of the enumeration. -/
theorem references_eq (h : Serves c q cis) (name : Bool) :
    c.getRefs q (if name then .REF_NAME else .REF) =
      some ((cis.filter (c.refers q)).map (c.returned name), .OK) := by
  obtain ⟨l, l', t, ht, hitems, hsweep, hrefs⟩ :=
    h.getRefs_eq (if name then .REF_NAME else .REF)
  have hbodies := @bodies_foldlM ι (List (Returned ι))
    (fun rslt ci => some (rslt ++ [c.returned name ci], false))
    (fun rslt ci => some (rslt ++ [c.returned name ci])) (cis.filter (c.refers q))
    (fun _ _ _ => rfl) []
  rw [foldlM_some, foldl_append_returned, List.nil_append, ← hitems] at hbodies
  obtain ⟨l₂, t₂, hreturn, _, _⟩ := sweepOrFault_some ht hbodies
  rw [hrefs, returnRefs, hsweep, ← hitems]
  cases name with
  | false => simp [hreturn]
  | true => simp [hreturn]

/-! ## Associators -/

section Asked

variable (c q)

omit [DecidableEq ι]

/-- A reference of a property, in the namespace of the object. -/
def namespaced (data : PropertyData) : Option Cop :=
  match data with
  | .ref (some ref) => some (withNameSpace q.ns ref)
  | _ => none

/-- The references of an instance that can lead to an associator. -/
def candidates (ci : ι) : List Cop :=
  match q.resultRole with
  | some resultRole =>
    match c.getProperty ci resultRole with
    | some (.ref (some ref)) => [ref]
    | _ => []
  | none => (c.properties ci).filterMap fun p => namespaced q p.2

/-- A reference to another object, of the result class. -/
def isAssociated (ref : Cop) : Bool :=
  decide (normalizeObjectPathStrBuf ref ≠ normalizeObjectPathStrBuf q.cop) && c.isResult q ref

/-- What is got for some references: normalized path, instance and status. -/
def answersFor (refs : List Cop) : List (NormalPath × Option ι × CMPIrc) :=
  (refs.filter (c.isAssociated q)).map fun ref =>
    (normalizeObjectPathStrBuf ref, c.getInstance ref q.propertyList)

def asked (ci : ι) : List (NormalPath × Option ι × CMPIrc) := c.answersFor q (c.candidates q ci)

/-- What is put for the instances. -/
def found (cis : List ι) : List (NormalPath × ι) :=
  (cis.flatMap (c.asked q)).filterMap fun a => a.2.1.map (a.1, ·)

/-- Nothing is put where nothing has been got. With a result role that is not looked at, and the
assertion stops the provider. -/
def stopped (as : List (NormalPath × Option ι × CMPIrc)) : Bool :=
  q.resultRole.isSome && as.any fun a => a.2.1.isNone

/-- The status of the last one that was asked for. -/
def lastStatus (cis : List ι) : CMPIrc :=
  ((cis.flatMap (c.asked q)).getLast?.map (·.2.2)).getD .OK

end Asked

/-- One is asked for. -/
def enter (q : AssocRequest) (s : Assocs ι) (a : NormalPath × Option ι × CMPIrc) :
    Option (Assocs ι) :=
  if q.resultRole.isSome || a.2.1.isSome then putAssoc s a.1 a.2.1 a.2.2 else some (s.1, a.2.2)

omit [DecidableEq ι] in
theorem isAssociated_iff {ref : Cop} : c.isAssociated q ref = true ↔
    normalizeObjectPathStrBuf ref ≠ normalizeObjectPathStrBuf q.cop ∧ c.isResult q ref = true := by
  simp [isAssociated]

omit [DecidableEq ι] in
theorem answersFor_cons (ref : Cop) (refs : List Cop) :
    c.answersFor q (ref :: refs) = c.answersFor q [ref] ++ c.answersFor q refs := by
  unfold answersFor
  rw [← List.map_append, ← List.filter_append, List.singleton_append]

omit [DecidableEq ι] in
theorem answersFor_self {ref : Cop} : c.answersFor q [ref] =
    if normalizeObjectPathStrBuf ref ≠ normalizeObjectPathStrBuf q.cop ∧ c.isResult q ref = true
    then [(normalizeObjectPathStrBuf ref, c.getInstance ref q.propertyList)] else [] := by
  unfold answersFor
  by_cases h : c.isAssociated q ref = true
  · rw [List.filter_cons_of_pos h, if_pos (isAssociated_iff.mp h)]
    rfl
  · rw [List.filter_cons_of_neg h, if_neg fun hand => h (isAssociated_iff.mpr hand)]
    rfl

theorem associateRole_eq (h : c.Readable ci) {resultRole : CStr}
    (hrole : q.resultRole = some resultRole) (s : Assocs ι) :
    c.associateRole q resultRole s ci = (c.asked q ci).foldlM (enter q) s := by
  unfold associateRole asked candidates
  simp only [hrole]
  cases hdata : c.getProperty ci resultRole with
  | none => rfl
  | some data =>
    have hne := h.getProperty hdata
    cases data with
    | other => rfl
    | ref op =>
      cases op with
      | none => exact absurd rfl hne
      | some ref =>
        simp only [answersFor_self]
        split
        · simp [enter, hrole]
        · rfl

/-- A property without a result role. -/
theorem associateProperty_eq (hrole : q.resultRole = none) {data : PropertyData}
    (hne : data ≠ .ref none) (s : Assocs ι) :
    c.associateProperty q s data =
      (c.answersFor q (namespaced q data).toList).foldlM (enter q) s := by
  cases data with
  | other => rfl
  | ref op =>
    cases op with
    | none => exact absurd rfl hne
    | some ref =>
      simp only [associateProperty, namespaced, Option.toList_some, answersFor_self]
      split
      · cases hgot : (c.getInstance (withNameSpace q.ns ref) q.propertyList).1 with
        | none => simp [enter, hrole, hgot]
        | some aci => simp [enter, hrole, hgot]
      · rfl

theorem associate_eq (h : c.Readable ci) (s : Assocs ι) :
    c.associate q s ci = (c.asked q ci).foldlM (enter q) s := by
  unfold associate
  cases hrole : q.resultRole with
  | some resultRole => exact associateRole_eq h hrole s
  | none =>
    have hps : ∀ p ∈ c.properties ci, p.2 ≠ .ref none := h
    simp only [asked, candidates, hrole]
    generalize c.properties ci = ps at hps
    induction ps generalizing s with
    | nil => rfl
    | cons p ps ih =>
      have hrest := fun s => ih s fun p hp => hps p (List.mem_cons_of_mem _ hp)
      rw [List.foldlM_cons, associateProperty_eq hrole (hps p List.mem_cons_self),
        List.filterMap_cons]
      cases namespaced q p.2 with
      | none => exact hrest s
      | some ref =>
        rw [answersFor_cons, List.foldlM_append]
        congr 1
        funext s
        exact hrest s

/-- What the table takes, and the status. -/
theorem foldlM_enter (as : List (NormalPath × Option ι × CMPIrc)) (s : Assocs ι) :
    as.foldlM (enter q) s = if stopped q as then none else
      some ((as.filterMap fun a => a.2.1.map (a.1, ·)).foldl
          (fun t p => (t.hashTablePut true true p.1 p.2).1) s.1,
        (as.getLast?.map (·.2.2)).getD s.2) := by
  induction as using List.reverseRecOn with
  | nil => simp [stopped]
  | append_singleton as a ih =>
    obtain ⟨an, aci, rc⟩ := a
    have hstopped : stopped q (as ++ [(an, aci, rc)]) =
        (stopped q as || (q.resultRole.isSome && aci.isNone)) := by
      simp [stopped, Bool.and_or_distrib_left]
    rw [List.foldlM_append, ih, hstopped]
    cases stopped q as with
    | true => rfl
    | false =>
      cases aci with
      | some aci => simp [enter, putAssoc]
      | none => cases hrole : q.resultRole <;> simp [enter, putAssoc, hrole]

/-- How the table of associators tells keys apart. -/
def assocKeying (ι : Type) [DecidableEq ι] : Keying NormalPath ι NormalPath :=
  ⟨id, fun v w => if v = w then 0 else 1, false, false⟩

theorem strcmp_normalPath (k l : NormalPath) : strcmp k.chars l.chars = 0 ↔ k = l := by
  rw [strcmp_eq_zero_iff_of_notMem k.terminated l.terminated]
  constructor
  · intro heq
    cases k
    cases l
    cases heq
    rfl
  · intro heq
    rw [heq]

theorem newAssocs_refines : Refines (assocKeying ι) newAssocs ∅ :=
  Refines.hashTableCreate (assocKeying ι) (by decide) strcmp_normalPath
    fun k l hkl => congrArg (fun k : NormalPath => charHashFunction k.chars) hkl

omit [DecidableEq ι] in
theorem foldlM_flatMap (f : ι → List κ) (g : σ → κ → Option σ) (cis : List ι) (s : σ) :
    cis.foldlM (fun s ci => (f ci).foldlM g s) s = (cis.flatMap f).foldlM g s := by
  induction cis generalizing s with
  | nil => rfl
  | cons ci cis ih =>
    rw [List.foldlM_cons, List.flatMap_cons, List.foldlM_append]
    congr 1
    funext s
    exact ih s

/-- The loop over the references. -/
theorem associated (h : SfcUtil.Represents l s) (hread : ∀ ci ∈ s.items.map (·.2), c.Readable ci)
    (assocs : Assocs ι) :
    (sweepOrFault (fun s ci => (c.associate q s ci).map fun s => (s, false)) l assocs).map (·.2) =
      ((s.items.map (·.2)).flatMap (c.asked q)).foldlM (enter q) assocs := by
  have hbodies := @bodies_foldlM ι (Assocs ι)
    (fun s ci => (c.associate q s ci).map fun s => (s, false))
    (fun s ci => (c.asked q ci).foldlM (enter q) s) (s.items.map (·.2))
    (fun s ci hci => by rw [associate_eq (hread ci hci)]) assocs
  rw [foldlM_flatMap] at hbodies
  cases hgo : ((s.items.map (·.2)).flatMap (c.asked q)).foldlM (enter q) assocs with
  | none =>
    rw [hgo] at hbodies
    rw [sweepOrFault_none h hbodies]
    rfl
  | some r =>
    rw [hgo] at hbodies
    obtain ⟨l', _, hsweep, _⟩ := sweepOrFault_some h hbodies
    rw [hsweep]
    rfl

/-- The entry of a normalized path: the instance that was put last. -/
def lastFound (ps : List (NormalPath × ι)) (an : NormalPath) : Option ι :=
  (ps.reverse.find? fun p => p.1 = an).map (·.2)

/-- The table of associators has the last entry of each normalized path. -/
theorem table_entries (ps : List (NormalPath × ι)) :
    ∃ pairs : List (KeyValuePair NormalPath ι),
      (ps.foldl (fun t p => (t.hashTablePut true true p.1 p.2).1) newAssocs).walk
        ((ps.foldl (fun t p => (t.hashTablePut true true p.1 p.2).1) newAssocs).numOfElements + 1)
        (ps.foldl (fun t p => (t.hashTablePut true true p.1 p.2).1) newAssocs).hashTableGetFirst =
          pairs ∧
      (pairs.map (·.key)).Nodup ∧
      ∀ pair, pair ∈ pairs ↔ lastFound ps pair.key = some pair.value := by
  obtain ⟨m, hm, hlookup⟩ := newAssocs_refines.puts ps
  refine ⟨_, hm.walk_first, ?_, ?_⟩
  · have hnodup := hm.holds.nodupKeys
    rw [List.NodupKeys, List.keys, List.map_map] at hnodup
    exact hnodup
  · intro pair
    have hlast : m.lookup pair.key =
        (lastFound ps pair.key).map fun aci => ⟨pair.key, aci⟩ := by
      rw [hlookup, Refines.lastPut, lastFound, Option.map_map]
      cases hfind : ps.reverse.find? fun p => p.1 = pair.key with
      | none =>
        rw [Option.map_none]
        exact congrArg _ hfind
      | some p =>
        have hkey : p.1 = pair.key := by simpa using List.find?_some hfind
        refine (congrArg _ hfind).trans ?_
        rw [Option.map_some, Option.map_some, Function.comp_apply, hkey]
    constructor
    · intro hmem
      have hfound := hm.holds.lookup hmem
      rw [show (assocKeying ι).cls pair.key = pair.key from rfl, hlast,
        Option.map_eq_some_iff] at hfound
      obtain ⟨aci, haci, heq⟩ := hfound
      rw [haci, ← heq]
    · intro hfound
      rw [hfound] at hlast
      exact (hm.holds.mem hlast).1

/-- `Associators` and `AssociatorNames` return what is referenced beside the object: each
normalized path once, in the order of the table, with what was got for it last. With a result
role, a path with nothing there stops the provider. -/
theorem associators_eq (h : Serves c q cis) (name : Bool) :
    ∃ entries : List (NormalPath × ι),
      (entries.map (·.1)).Nodup ∧
      (∀ e, e ∈ entries ↔ lastFound (c.found q (cis.filter (c.refers q))) e.1 = some e.2) ∧
      c.getRefs q (if name then .ASSOC_NAME else .ASSOC) =
        if stopped q ((cis.filter (c.refers q)).flatMap (c.asked q)) then none
        else some (entries.map fun e => c.returned name e.2,
          c.lastStatus q (cis.filter (c.refers q))) := by
  obtain ⟨l, l', t, ht, hitems, hsweep, hrefs⟩ :=
    h.getRefs_eq (if name then .ASSOC_NAME else .ASSOC)
  have hread : ∀ ci ∈ t.items.map (·.2), c.Readable ci := by
    intro ci hci
    rw [hitems] at hci
    exact h.readable ci (List.mem_of_mem_filter hci)
  have hassoc := associated ht hread (q := q) ((newAssocs, .OK) : Assocs ι)
  rw [foldlM_enter, hitems] at hassoc
  obtain ⟨pairs, hwalk, hnodup, hmem⟩ := table_entries (c.found q (cis.filter (c.refers q)))
  refine ⟨pairs.map fun p => (p.key, p.value), ?_, ?_, ?_⟩
  · rw [List.map_map]
    exact hnodup
  · intro e
    rw [List.mem_map]
    constructor
    · rintro ⟨pair, hpair, rfl⟩
      exact (hmem pair).mp hpair
    · intro hlast
      exact ⟨⟨e.1, e.2⟩, (hmem ⟨e.1, e.2⟩).mpr hlast, rfl⟩
  · have hrun : c.returnRefs q (if name then .ASSOC_NAME else .ASSOC) l =
        ((sweepOrFault (fun s ci => (c.associate q s ci).map fun s => (s, false)) l'
          ((newAssocs, .OK) : Assocs ι)).map (·.2)).map (c.returnAssocs name) := by
      cases hgo : sweepOrFault (fun s ci => (c.associate q s ci).map fun s => (s, false)) l'
        ((newAssocs, .OK) : Assocs ι) with
      | none => cases name <;> simp [returnRefs, hsweep, hgo]
      | some r => cases name <;> simp [returnRefs, hsweep, hgo]
    rw [hrefs, hrun, hassoc]
    split
    · rfl
    · rw [Option.map_some, returnAssocs, List.map_map]
      exact congrArg (fun pairs => some (pairs.map fun pair => c.returned name pair.value, _)) hwalk

/-! ## A pair of objects -/

/-- An object with one key. -/
def keyed (className : CStr) (key : CStr) : Cop := ⟨some (lit "n"), className, [(lit "k", .string key)]⟩

/-- The repository has one instance of `A`, the blob `[1]`. It references an `X` and a `Y`. -/
def sample : Cimom Nat where
  properties ci := if ci = 1 then
    [(lit "left", .ref (some (keyed (lit "X") (lit "x")))),
      (lit "right", .ref (some (keyed (lit "Y") (lit "y"))))] else []
  objectPath ci := keyed (lit "A") (if ci = 1 then lit "a" else lit "b")
  setPropertyFilter ci _ _ := ci
  getConstClass _ _ := some ⟨true, [lit "left", lit "right"]⟩
  getallchildren _ _ := []
  getassocs _ := [some (lit "A")]
  classPathIsA _ _ := true
  getInstance ref _ := (if ref.className = lit "Y" then some 7 else some 8, .OK)
  interopNs := lit "root/interop"
  pg_interopNs := lit "root/PG_InterOp"
  repository ns cn := ⟨lit "/", ns, cn, 0⟩
  files := ((addBlob ⟨lit "/", lit "n", lit "A", 0⟩ (fun _ => none) (lit "a") [1]).map (·.1)).getD
    fun _ => none
  relocated blob := (blob.headD 0).toNat

/-- What is associated with the `X`. -/
def sampleRequest : AssocRequest where
  cop := keyed (lit "X") (lit "x")
  ns := lit "n"
  assocClass := some (lit "A")
  resultClass := none
  role := none
  resultRole := none
  propertyList := none

theorem serves_sample : Serves sample sampleRequest [1] where
  known ac hac := by
    cases hac
    decide
  collected := by decide +kernel
  readable ci hci := by
    rw [List.mem_singleton.mp hci]
    intro p hp
    simp [sample] at hp
    obtain rfl | rfl := hp <;> simp

theorem references_eq_sample :
    sample.getRefs sampleRequest .REF = some ([.instance 1], .OK) := by
  have hrefers : [1].filter (sample.refers sampleRequest) = [1] := by decide +kernel
  have hrefs := references_eq serves_sample false
  rw [hrefers] at hrefs
  exact hrefs

theorem associators_eq_sample :
    ∃ entries : List (NormalPath × Nat),
      (normalizeObjectPathStrBuf (keyed (lit "Y") (lit "y")), 7) ∈ entries ∧
      sample.getRefs sampleRequest .ASSOC =
        some (entries.map fun e => sample.returned false e.2, .OK) := by
  obtain ⟨entries, _, hmem, hassocs⟩ := associators_eq serves_sample false
  have hstatus : sample.lastStatus sampleRequest ([1].filter (sample.refers sampleRequest)) =
      .OK := by decide +kernel
  rw [hstatus] at hassocs
  exact ⟨entries, (hmem _).mpr (by decide +kernel), hassocs⟩

end Cimom

end Sfcb.InternalProvider
