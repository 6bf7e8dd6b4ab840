import Sfcb.ClassProvider.ClassRegister

/-!
# The schema file and the register

The register and its schema file change together: a created class is appended to the file, a
deleted one is filtered out of it. `Mirrors` says that every name stands for the last of its
records, which is what loading the file again gives.

The loader does not see every record. The first one is skipped, version record or not, and so
are dummies. `Plain` says which files are held as they are.
-/

namespace Sfcb.ClassProvider

open Sfcb.Lib
open Sfcb.Cmpi (CMPIrc)

variable {γ : Type} {cs : List (Class γ)} {c : Class γ} {k : CStr}

/-! ## The last record of a name -/

/-- The last class under a key. -/
def lastNamed (cs : List (Class γ)) (k : CStr) : Option (Class γ) :=
  cs.reverse.find? fun c => fold c.name = k

theorem lastNamed_append (cs ds : List (Class γ)) (k : CStr) :
    lastNamed (cs ++ ds) k = (lastNamed ds k).or (lastNamed cs k) := by
  rw [lastNamed, List.reverse_append, List.find?_append]
  rfl

theorem lastNamed_singleton (c : Class γ) (k : CStr) :
    lastNamed [c] k = if fold c.name = k then some c else none := by
  simp [lastNamed, List.find?_singleton]

theorem lastNamed_eq_some (h : lastNamed cs k = some c) : c ∈ cs ∧ fold c.name = k := by
  refine ⟨List.mem_reverse.mp (List.mem_of_find?_eq_some h), ?_⟩
  simpa using List.find?_some h

theorem exists_lastNamed (h : c ∈ cs) : ∃ d, lastNamed cs (fold c.name) = some d := by
  refine Option.isSome_iff_exists.mp ?_
  rw [lastNamed, List.find?_isSome]
  exact ⟨c, List.mem_reverse.mpr h, by simp⟩

/-- Without the classes of one name the others stay what they are. -/
theorem lastNamed_filter (cs : List (Class γ)) (l k : CStr) :
    lastNamed (cs.filter fun c => l ≠ fold c.name) k =
      if k = l then none else lastNamed cs k := by
  rw [lastNamed, ← List.filter_reverse, List.find?_filter]
  by_cases hk : k = l
  · subst hk
    rw [if_pos rfl, List.find?_eq_none]
    intro c _
    simp only [ne_eq, decide_not, Bool.not_eq_true', decide_eq_false_iff_not, decide_eq_true_eq,
      not_and]
    exact fun hne heq => hne heq.symm
  · rw [if_neg hk, lastNamed]
    congr 1
    funext c
    by_cases hc : fold c.name = k
    · have hne : l ≠ fold c.name := fun heq => hk (hc.symm.trans heq.symm)
      simp [hc, hc ▸ hne]
    · simp [hc]

theorem lookup_foldl_enter (cs : List (Class γ)) (cr : ClassRegister γ) (k : CStr) :
    (cs.foldl ClassRegister.enter cr).ht.lookup k = (lastNamed cs k).or (cr.ht.lookup k) := by
  induction cs generalizing cr with
  | nil => rfl
  | cons c cs ih =>
    have hcons : c :: cs = [c] ++ cs := rfl
    rw [List.foldl_cons, ih, hcons, lastNamed_append, lastNamed_singleton, Option.or_assoc]
    congr 1
    by_cases hk : k = fold c.name
    · subst hk
      simp [ClassRegister.enter]
    · simp [ClassRegister.enter, AList.lookup_insert_ne hk, Ne.symm hk]

theorem lookup_loadedRegister (file : SchemaFile γ) (k : CStr) :
    (loadedRegister file).ht.lookup k = lastNamed (loadedClasses file) k := by
  have hload := lookup_foldl_enter (loadedClasses file) ⟨∅, ∅, some file, 0, 0, []⟩ k
  rw [AList.lookup_empty, Option.or_none] at hload
  exact hload

/-! ## What a register holds of its file -/

/-- The register holds exactly the class records of the file. -/
def Holds (cr : ClassRegister γ) (file : SchemaFile γ) : Prop :=
  ∀ c, getClass cr c.name = some c ↔ .cls c ∈ file.records

/-- A file in which no class record is lost. -/
structure Plain (file : SchemaFile γ) : Prop where
  /-- A class record in the first place comes again. -/
  notFirst : ∀ c, .cls c ∈ file.records → .cls c ∈ file.records.tail
  notDummy : ∀ c, .cls c ∈ file.records → isDummy c.name = false
  unique : ∀ c d, .cls c ∈ file.records → .cls d ∈ file.records → fold c.name = fold d.name → c = d

theorem mem_classesOf {records : List (Record γ)} : c ∈ classesOf records ↔ .cls c ∈ records := by
  rw [classesOf, List.mem_filterMap]
  constructor
  · rintro ⟨r, hr, hc⟩
    cases r with
    | cls d =>
      cases hc
      exact hr
    | version id level => cases hc
    | foreign => cases hc
  · intro hc
    exact ⟨.cls c, hc, rfl⟩

theorem classesOf_filter (cn : CStr) (records : List (Record γ)) :
    classesOf (records.filter (keepRecord cn)) =
      (classesOf records).filter fun c => fold cn ≠ fold c.name := by
  induction records with
  | nil => rfl
  | cons r records ih =>
    cases r with
    | version id level => exact ih
    | foreign => exact ih
    | cls c =>
      unfold classesOf at ih ⊢
      by_cases hc : fold cn = fold c.name
      · simpa [List.filter_cons, keepRecord, Record.class?, hc] using ih
      · simpa [List.filter_cons, keepRecord, Record.class?, hc] using ih

theorem mem_loadedClasses {file : SchemaFile γ} :
    c ∈ loadedClasses file ↔ .cls c ∈ file.records.tail ∧ isDummy c.name = false := by
  rw [loadedClasses, List.mem_filter, mem_classesOf, Bool.not_eq_true']

theorem holds_loadedRegister_iff (file : SchemaFile γ) :
    Holds (loadedRegister file) file ↔ Plain file := by
  have hget : ∀ c : Class γ, getClass (loadedRegister file) c.name = some c ↔
      lastNamed (loadedClasses file) (fold c.name) = some c := by
    intro c
    rw [getClass, lookup_loadedRegister]
  constructor
  · intro h
    have hlast : ∀ c, .cls c ∈ file.records →
        lastNamed (loadedClasses file) (fold c.name) = some c :=
      fun c hc => (hget c).mp ((h c).mpr hc)
    have hloaded : ∀ c, .cls c ∈ file.records →
        .cls c ∈ file.records.tail ∧ isDummy c.name = false :=
      fun c hc => mem_loadedClasses.mp (lastNamed_eq_some (hlast c hc)).1
    refine ⟨fun c hc => (hloaded c hc).1, fun c hc => (hloaded c hc).2, ?_⟩
    intro c d hc hd heq
    have hboth := (hlast c hc).symm.trans (heq ▸ hlast d hd)
    exact Option.some.inj hboth
  · intro h c
    rw [hget]
    constructor
    · intro hlast
      exact List.mem_of_mem_tail (mem_loadedClasses.mp (lastNamed_eq_some hlast).1).1
    · intro hc
      have hmem : c ∈ loadedClasses file := mem_loadedClasses.mpr ⟨h.notFirst c hc, h.notDummy c hc⟩
      obtain ⟨d, hd⟩ := exists_lastNamed hmem
      obtain ⟨hdmem, hname⟩ := lastNamed_eq_some hd
      have heq : d = c := h.unique d c
        (List.mem_of_mem_tail (mem_loadedClasses.mp hdmem).1) hc hname
      rw [hd, heq]

/-! ## Runs -/

/-- What the file would be loaded as now. -/
def Reloads (cr : ClassRegister γ) : Prop :=
  ∃ file cr', cr.file = some file ∧ newClassRegister file = some cr' ∧
    ∀ cn, getClass cr' cn = getClass cr cn

/-- The register is what its file gives, and the record that is skipped is no class. -/
structure Mirrors (cr : ClassRegister γ) (file : SchemaFile γ) : Prop where
  isFile : cr.file = some file
  accepted : Accepted file
  notFirst : ∀ c, file.records.head? ≠ some (.cls c)
  lookup : ∀ k, cr.ht.lookup k = lastNamed (loadedClasses file) k

/-- A creation is written where it is read again: behind another record, on a boundary of
records, under a name that is not skipped. -/
def Sound (cr : ClassRegister γ) : Request γ → Prop
  | .create cc => isDummy cc.name = false ∧
    ∃ records, cr.file = some ⟨records, .none⟩ ∧ records ≠ []
  | .delete _ => True

def SoundRun (merge : γ → γ → γ) (cr : ClassRegister γ) : List (Request γ) → Prop
  | [] => True
  | q :: qs => Sound cr q ∧ SoundRun merge (serve merge cr q).1 qs

section Steps

variable {cr : ClassRegister γ} {file : SchemaFile γ} {mc : Class γ}

theorem Mirrors.reloads (h : Mirrors cr file) : Reloads cr := by
  refine ⟨file, loadedRegister file, h.isFile, newClassRegister_iff.mpr ⟨h.accepted, rfl⟩, ?_⟩
  intro cn
  rw [getClass, getClass, lookup_loadedRegister, h.lookup]

theorem file_foldl_enter (cs : List (Class γ)) (cr : ClassRegister γ) :
    (cs.foldl ClassRegister.enter cr).file = cr.file := by
  induction cs generalizing cr with
  | nil => rfl
  | cons c cs ih => exact ih (cr.enter c)

theorem file_loadedRegister (file : SchemaFile γ) : (loadedRegister file).file = some file :=
  file_foldl_enter (loadedClasses file) _

theorem mirrors_loadedRegister (h : Accepted file)
    (hfirst : ∀ c, file.records.head? ≠ some (.cls c)) : Mirrors (loadedRegister file) file :=
  ⟨file_loadedRegister file, h, hfirst, lookup_loadedRegister file⟩

theorem Mirrors.with {records : List (Record γ)} (h : Mirrors cr ⟨records, .none⟩)
    (hne : records ≠ []) (hdummy : isDummy mc.name = false) :
    Mirrors (cr.with mc) ⟨records ++ [.cls mc], .none⟩ := by
  obtain ⟨r, rest, rfl⟩ := List.exists_cons_of_ne_nil hne
  refine ⟨?_, ⟨by simp, h.accepted.leads, ?_⟩, h.notFirst, ?_⟩
  · have hfile : (cr.with mc).file = appendClass cr.file mc := rfl
    rw [hfile, h.isFile]
    rfl
  · intro s hs
    rw [List.cons_append, List.tail_cons, List.mem_append, List.mem_singleton] at hs
    rcases hs with hs | rfl
    · exact h.accepted.classes s hs
    · exact ⟨mc, rfl⟩
  · intro k
    have hloaded : loadedClasses ⟨r :: rest ++ [.cls mc], .none⟩ =
        loadedClasses ⟨r :: rest, .none⟩ ++ [mc] := by
      simp [loadedClasses, classesOf, Record.class?, hdummy]
    have hht : (cr.with mc).ht = cr.ht.insert (fold mc.name) mc := rfl
    rw [hloaded, lastNamed_append, lastNamed_singleton, hht]
    by_cases hk : k = fold mc.name
    · subst hk
      simp
    · rw [AList.lookup_insert_ne hk, h.lookup]
      simp [Ne.symm hk]

theorem Mirrors.without (h : Mirrors cr file) (cn : CStr) (pn : Option CStr) :
    Mirrors (deleteSection cr cn pn) ⟨file.records.filter (keepRecord cn), .none⟩ := by
  -- the record that is skipped is no class, and stays
  have hhead : (file.records.filter (keepRecord cn)).head? = file.records.head? ∧
      (file.records.filter (keepRecord cn)).tail = file.records.tail.filter (keepRecord cn) := by
    cases hrecords : file.records with
    | nil => exact ⟨rfl, rfl⟩
    | cons r rest =>
      have hkeep : keepRecord cn r = true := by
        cases r with
        | cls c => exact absurd (by rw [hrecords]; rfl) (h.notFirst c)
        | version id level => rfl
        | foreign => rfl
      rw [List.filter_cons_of_pos hkeep]
      exact ⟨rfl, rfl⟩
  have hloaded : loadedClasses ⟨file.records.filter (keepRecord cn), .none⟩ =
      (loadedClasses file).filter fun c => fold cn ≠ fold c.name := by
    unfold loadedClasses
    rw [hhead.2, classesOf_filter, List.filter_filter, List.filter_filter]
    simp only [Bool.and_comm]
  refine ⟨?_, ⟨by simp, ?_, ?_⟩, ?_, ?_⟩
  · cases pn <;> simp [deleteSection, removeClass, h.isFile]
  · rw [hhead.1]
    exact h.accepted.leads
  · intro r hr
    rw [hhead.2] at hr
    exact h.accepted.classes r (List.mem_of_mem_filter hr)
  · rw [hhead.1]
    exact h.notFirst
  · intro k
    rw [ht_deleteSection, hloaded, lastNamed_filter]
    by_cases hk : k = fold cn
    · subst hk
      simp
    · rw [AList.lookup_erase_ne hk, h.lookup, if_neg hk]

theorem Mirrors.serve {q : Request γ} (h : Mirrors cr file) (hsound : Sound cr q)
    (merge : γ → γ → γ) : ∃ file', Mirrors (serve merge cr q).1 file' := by
  rcases serve_cases merge cr q with hrun | ⟨cc, mc, rfl, -, -, hmc, hrun⟩ |
    ⟨cn, cl, rfl, -, -, hrun⟩
  · rw [hrun]
    exact ⟨file, h⟩
  · obtain ⟨hdummy, records, hfile, hne⟩ := hsound
    obtain rfl : file = ⟨records, .none⟩ := Option.some.inj (h.isFile.symm.trans hfile)
    rw [hrun]
    exact ⟨_, h.with hne (hmc.name ▸ hdummy)⟩
  · rw [hrun]
    exact ⟨_, h.without cn cl.superClass⟩

theorem Mirrors.run {merge : γ → γ → γ} {qs : List (Request γ)} (h : Mirrors cr file)
    (hsound : SoundRun merge cr qs) : ∃ file', Mirrors (run merge cr qs) file' := by
  induction qs generalizing cr file with
  | nil => exact ⟨file, h⟩
  | cons q qs ih =>
    obtain ⟨file', h'⟩ := h.serve hsound.1 merge
    exact ih h' hsound.2

end Steps

/-- Which files are held as they are, and in which runs the file stays what the register is. -/
theorem schema_roundTrip (merge : γ → γ → γ) {file : SchemaFile γ} {cr : ClassRegister γ}
    (hload : newClassRegister file = some cr) :
    (Holds cr file ↔ Plain file) ∧
      ((∀ c, file.records.head? ≠ some (.cls c)) →
        ∀ qs, SoundRun merge cr qs → Reloads (run merge cr qs)) := by
  obtain ⟨haccepted, rfl⟩ := newClassRegister_iff.mp hload
  refine ⟨holds_loadedRegister_iff file, fun hfirst qs hsound => ?_⟩
  obtain ⟨file', h⟩ := (mirrors_loadedRegister haccepted hfirst).run hsound
  exact h.reloads

theorem schema_roundTrip_derived : ∃ cr,
    newClassRegister (.ofClasses [⟨lit "A", none, false, ()⟩]) = some cr ∧
      (Holds cr (.ofClasses [⟨lit "A", none, false, ()⟩]) ↔
        Plain (.ofClasses [⟨lit "A", none, false, ()⟩])) ∧
      Reloads (run (fun _ c => c) cr
        [.create ⟨lit "B", some (lit "A"), false, ()⟩, .delete (lit "B")]) := by
  obtain ⟨cr, hload⟩ : ∃ cr,
      newClassRegister (.ofClasses [⟨lit "A", none, false, ()⟩]) = some cr := ⟨_, rfl⟩
  have hsound : SoundRun (fun _ c => c) cr
      [.create ⟨lit "B", some (lit "A"), false, ()⟩, .delete (lit "B")] := by
    cases hload
    exact ⟨⟨by decide, _, rfl, by simp⟩, trivial, trivial⟩
  obtain ⟨hholds, hruns⟩ := schema_roundTrip (fun _ c => c) hload
  exact ⟨cr, hload, hholds, hruns (fun c hc => by cases hc) _ hsound⟩

/-- Without a version record the first class is lost. -/
theorem not_holds_first : ∃ cr : ClassRegister Unit,
    newClassRegister ⟨[.cls ⟨lit "A", none, false, ()⟩], .none⟩ = some cr ∧
      ¬ Holds cr ⟨[.cls ⟨lit "A", none, false, ()⟩], .none⟩ := by
  refine ⟨_, rfl, fun hholds => ?_⟩
  have hget := (hholds ⟨lit "A", none, false, ()⟩).mpr (by simp)
  cases hget

end Sfcb.ClassProvider
