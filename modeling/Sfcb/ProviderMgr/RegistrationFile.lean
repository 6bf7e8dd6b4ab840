import Mathlib.Data.List.Perm.Subperm
import Sfcb.ProviderMgr.ProviderRegister

/-!
# Reading the registration file

The loop of `newProviderRegister` over the lines of the file. A section starts with the name of
its class, and each statement behind it sets a field of the entry that is being filled. The
entry is completed when the next section starts: it is compared with the markers of the special
providers and put into the table. What is behind the loop puts the last one into the table, and
that is all it does with it.

The markers are asked for one after the other, each only when those before it are there
(`matched`). So a special section is recognised if those before it in that order have been
seen before it (`recognises_iff`).

Mirroring notes:
- A statement is what `cntlParseStmt` makes of a line, with what the calls of `cntlGetVal` for
  it return. The first of these calls returns a value, if only an empty one.
- Left out: the user that the broker gives to all providers; messages.
-/

namespace Sfcb.ProviderMgr.Registration

open Sfcb.Lib

/-! ## The longest way into an order -/

section Matched

variable {α : Type} [DecidableEq α] {order noted : List α}

/-- How far an order is gone into by a list whose elements are looked at one after the
other. -/
def matched : List α → List α → List α
  | [], _ => []
  | _ :: _, [] => []
  | o :: order, n :: noted =>
    if n = o then o :: matched order noted else matched (o :: order) noted

@[simp]
theorem matched_nil (order : List α) : matched order [] = [] := by
  cases order <;> rfl

theorem matched_prefix (order noted : List α) : matched order noted <+: order := by
  fun_induction matched order noted with
  | case1 noted => exact List.nil_prefix
  | case2 o order => exact List.nil_prefix
  | case3 order n noted ih => exact List.prefix_cons_inj n |>.mpr ih
  | case4 o order n noted hne ih => exact ih

theorem matched_sublist (order noted : List α) : (matched order noted).Sublist noted := by
  fun_induction matched order noted with
  | case1 noted => exact List.nil_sublist _
  | case2 o order => exact List.nil_sublist _
  | case3 order n noted ih => exact ih.cons_cons n
  | case4 o order n noted hne ih => exact ih.cons n

theorem matched_self (h : noted <+: order) : matched order noted = noted := by
  induction noted generalizing order with
  | nil => cases order <;> rfl
  | cons n noted ih =>
    obtain ⟨rest, rfl⟩ := h
    simp only [List.cons_append, matched, if_true]
    rw [ih (List.prefix_append noted rest)]

/-- Without doubles everything is gone through only by a list that is the start of the
order. -/
theorem matched_complete_iff (hnodup : noted.Nodup) :
    (∀ a ∈ noted, a ∈ matched order noted) ↔ noted <+: order := by
  constructor
  · intro hall
    have hlen : noted.length ≤ (matched order noted).length :=
      (List.subperm_of_subset hnodup hall).length_le
    have heq := (matched_sublist order noted).eq_of_length_le hlen
    exact heq ▸ matched_prefix order noted
  · intro hprefix a ha
    exact (matched_self hprefix).symm ▸ ha

end Matched

/-! ## The statements of a file -/

/-- A line of the file, as `cntlParseStmt` tells it. -/
inductive Stmt where
  | invalid
  /-- the head of a section -/
  | header (id : CStr)
  /-- a key, its first value and the others -/
  | keyValue (id val : CStr) (vals : List CStr)
  | comment
  deriving Repr, DecidableEq

def typeBit (t : CStr) : Option Nat :=
  if strcmp t (lit "instance") = 0 then some 1
  else if strcmp t (lit "association") = 0 then some 2
  else if strcmp t (lit "method") = 0 then some 8
  else if strcmp t (lit "indication") = 0 then some 4
  else if strcmp t (lit "class") = 0 then some 32
  else if strcmp t (lit "property") = 0 then some 16
  else if strcmp t (lit "qualifier") = 0 then some 64
  else none

/-- The case of a key and its values. `knownUser` is what `getpwnam` knows. -/
def setField (knownUser : CStr → Bool) (id val : CStr) (vals : List CStr) (info : ProviderInfo) :
    Except LoadFailure ProviderInfo :=
  if strcmp id (lit "provider") = 0 then .ok { info with providerName := some val }
  else if strcmp id (lit "location") = 0 then .ok info
  else if strcmp id (lit "parameters") = 0 then .ok info
  else if strcmp id (lit "user") = 0 then
    if knownUser val then .ok info else .error .unknownUser
  else if strcmp id (lit "group") = 0 then .ok info
  else if strcmp id (lit "unload") = 0 then
    if (val :: vals).all fun u => strcmp u (lit "never") = 0 then .ok info
    else .error .invalidUnload
  else if strcmp id (lit "type") = 0 then
    match (val :: vals).mapM typeBit with
    | some bits => .ok { info with type := bits.foldl (· ||| ·) 0 }
    | none => .error .invalidType
  else if strcmp id (lit "namespace") = 0 then .ok { info with ns := some (val, vals) }
  else .error .invalidStatement

/-! ## The loop -/

/-- The variables of the loop; `info` is the section that is being read. -/
structure Loading where
  info : Option ProviderInfo
  id : Nat
  ht : ProviderTable
  specials : Specials

def start : Loading := ⟨none, 0, ∅, ⟨none, none, none, none, false⟩⟩

/-- The entry of a section that starts. -/
def newEntry (className : CStr) (id : Nat) : ProviderInfo := ⟨className, 0, none, none, id⟩

/-- One line. -/
def readStmt (exFlags : Bool) (knownUser : CStr → Bool) (l : Loading) :
    Stmt → Except LoadFailure Loading
  | .invalid => .error .unrecognizedStatement
  | .comment => .ok l
  | .header id =>
    let next := { l with info := some (newEntry id (l.id + 1)), id := l.id + 1 }
    match l.info with
    | none => .ok next
    | some info =>
      match addProviderToHT info l.ht with
      | .error e => .error e
      | .ok ht => .ok { next with ht := ht, specials := noteSpecial exFlags info l.specials }
  | .keyValue id val vals =>
    match l.info with
    | none => .error .nullPointer
    | some info =>
      match setField knownUser id val vals info with
      | .error e => .error e
      | .ok info => .ok { l with info := some info }

/-- The loop over the file, and the last section behind it. -/
def readFile (exFlags : Bool) (knownUser : CStr → Bool) (l : Loading) :
    List Stmt → Except LoadFailure Loading
  | [] =>
    match l.info with
    | none => .ok l
    | some info =>
      match addProviderToHT info l.ht with
      | .error e => .error e
      | .ok ht => .ok { l with ht := ht }
  | stmt :: file =>
    match readStmt exFlags knownUser l stmt with
    | .error e => .error e
    | .ok l => readFile exFlags knownUser l file

/-- `newProviderRegister`. -/
def newProviderRegister (exFlags : Bool) (knownUser : CStr → Bool) (file : List Stmt) :
    Except LoadFailure ProviderRegister :=
  match readFile exFlags knownUser start file with
  | .error e => .error e
  | .ok l => ProviderRegister.complete ⟨l.specials, l.ht⟩

/-! ## The sections of a file -/

/-- The names of the sections. -/
def sectionNames (file : List Stmt) : List CStr :=
  file.filterMap fun
    | .header id => some id
    | _ => none

/-- The sections with what their statements set; `info` is the one that has been started. -/
def sectionsFrom (knownUser : CStr → Bool) (info : Option ProviderInfo) (id : Nat) :
    List Stmt → List ProviderInfo
  | [] => info.toList
  | .header name :: file =>
    info.toList ++ sectionsFrom knownUser (some (newEntry name (id + 1))) (id + 1) file
  | .keyValue key val vals :: file =>
    let set := fun info => (setField knownUser key val vals info).toOption.getD info
    sectionsFrom knownUser (info.map set) id file
  | .invalid :: file => sectionsFrom knownUser info id file
  | .comment :: file => sectionsFrom knownUser info id file

/-- The sections of a file. -/
def sections (knownUser : CStr → Bool) (file : List Stmt) : List ProviderInfo :=
  sectionsFrom knownUser none 0 file

section Sections

variable {exFlags : Bool} {knownUser : CStr → Bool} {l l' : Loading} {file : List Stmt}

theorem setField_className {id val : CStr} {vals : List CStr} {info info' : ProviderInfo}
    (hset : setField knownUser id val vals info = .ok info') :
    info'.className = info.className ∧ info'.id = info.id := by
  unfold setField at hset
  split_ifs at hset
  all_goals first
    | (cases hset; exact ⟨rfl, rfl⟩)
    | (split at hset <;> cases hset; exact ⟨rfl, rfl⟩)

theorem map_className_sectionsFrom (info : Option ProviderInfo) (id : Nat) (file : List Stmt) :
    (sectionsFrom knownUser info id file).map ProviderInfo.className =
      (info.map ProviderInfo.className).toList ++ sectionNames file := by
  induction file generalizing info id with
  | nil => cases info <;> rfl
  | cons stmt file ih =>
    cases stmt with
    | invalid => exact ih info id
    | comment => exact ih info id
    | header name =>
      have hnext := ih (some (newEntry name (id + 1))) (id + 1)
      cases info <;> simpa [sectionsFrom, sectionNames, newEntry] using hnext
    | keyValue key val vals =>
      have hset : ∀ info : ProviderInfo,
          ((setField knownUser key val vals info).toOption.getD info).className =
            info.className := by
        intro info
        cases hok : setField knownUser key val vals info with
        | error e => rfl
        | ok info' => exact (setField_className hok).1
      have hnext := ih (info.map fun info =>
        (setField knownUser key val vals info).toOption.getD info) id
      cases info with
      | none => exact hnext
      | some info => simpa [sectionsFrom, sectionNames, hset] using hnext

theorem sectionsFrom_some_ne_nil (info : ProviderInfo) (id : Nat) (file : List Stmt) :
    sectionsFrom knownUser (some info) id file ≠ [] := by
  intro hnil
  have h := @map_className_sectionsFrom knownUser (some info) id file
  rw [hnil] at h
  simp at h

/-- The loop in terms of the sections: all of them go into the table, and all but the last one
are compared with the markers. -/
theorem readFile_sections (hread : readFile exFlags knownUser l file = .ok l') :
    (sectionsFrom knownUser l.info l.id file).foldlM
        (fun ht info => addProviderToHT info ht) l.ht = .ok l'.ht ∧
      l'.specials = (sectionsFrom knownUser l.info l.id file).dropLast.foldl
        (fun s info => noteSpecial exFlags info s) l.specials := by
  induction file generalizing l with
  | nil =>
    unfold readFile at hread
    cases hinfo : l.info with
    | none =>
      simp only [hinfo, Except.ok.injEq] at hread
      subst hread
      exact ⟨rfl, rfl⟩
    | some info =>
      simp only [hinfo] at hread
      cases hadd : addProviderToHT info l.ht with
      | error e => simp [hadd] at hread
      | ok ht =>
        simp only [hadd, Except.ok.injEq] at hread
        subst hread
        refine ⟨?_, rfl⟩
        simp only [sectionsFrom, Option.toList_some, List.foldlM_cons, hadd, List.foldlM_nil]
        rfl
  | cons stmt file ih =>
    unfold readFile at hread
    cases hstmt : readStmt exFlags knownUser l stmt with
    | error e => simp [hstmt] at hread
    | ok next =>
      simp only [hstmt] at hread
      obtain ⟨htable, hspecials⟩ := ih hread
      cases stmt with
      | invalid => cases hstmt
      | comment =>
        cases hstmt
        exact ⟨htable, hspecials⟩
      | keyValue key val vals =>
        unfold readStmt at hstmt
        cases hinfo : l.info with
        | none => simp [hinfo] at hstmt
        | some info =>
          simp only [hinfo] at hstmt
          cases hset : setField knownUser key val vals info with
          | error e => simp [hset] at hstmt
          | ok info' =>
            simp only [hset, Except.ok.injEq] at hstmt
            subst hstmt
            have hsections : sectionsFrom knownUser (some info) l.id
                (.keyValue key val vals :: file) =
                sectionsFrom knownUser (some info') l.id file := by
              simp [sectionsFrom, hset, Except.toOption]
            rw [hsections]
            exact ⟨htable, hspecials⟩
      | header name =>
        unfold readStmt at hstmt
        cases hinfo : l.info with
        | none =>
          simp only [hinfo, Except.ok.injEq] at hstmt
          subst hstmt
          exact ⟨htable, hspecials⟩
        | some info =>
          simp only [hinfo] at hstmt
          cases hadd : addProviderToHT info l.ht with
          | error e => simp [hadd] at hstmt
          | ok ht =>
            simp only [hadd, Except.ok.injEq] at hstmt
            subst hstmt
            have hne := @sectionsFrom_some_ne_nil knownUser
              (newEntry name (l.id + 1)) (l.id + 1) file
            simp only [sectionsFrom, Option.toList_some, List.singleton_append]
            constructor
            · rw [List.foldlM_cons, hadd]
              exact htable
            · rw [List.dropLast_cons_of_ne_nil hne, List.foldl_cons]
              exact hspecials

end Sections

/-! ## The special providers -/

inductive Special where
  | classProvider | defaultProvider | interOpProvider | qualifierProvider
  deriving Repr, DecidableEq

def Special.marker : Special → CStr
  | .classProvider => lit "$ClassProvider$"
  | .defaultProvider => lit "$DefaultProvider$"
  | .interOpProvider => lit "$InterOpProvider$"
  | .qualifierProvider => lit "$QualifierProvider$"

/-- The special provider that a section is about. -/
def Special.ofName (name : CStr) : Option Special :=
  [Special.classProvider, .defaultProvider, .interOpProvider, .qualifierProvider].find?
    fun sp => name = sp.marker

/-- The special sections, in the order of the file. -/
def specialSections (file : List Stmt) : List Special :=
  (sectionNames file).filterMap Special.ofName

/-- What has been recognised; an interop provider also if it is not to be started. -/
def recognises (s : Specials) : Special → Bool
  | .classProvider => s.classProvInfoPtr.isSome
  | .defaultProvider => s.defaultProvInfoPtr.isSome
  | .interOpProvider => s.interOpProvInfoPtr.isSome || s.interopFound
  | .qualifierProvider => s.qualiProvInfoPtr.isSome

/-- The order in which the special sections are asked for. Without the bit for the interop
provider its pointer stays `NULL`, and nothing behind it is asked for. -/
def askedOrder (exFlags : Bool) : List Special :=
  if exFlags then [.classProvider, .defaultProvider, .interOpProvider, .qualifierProvider]
  else [.classProvider, .defaultProvider, .interOpProvider]

/-- The texts of a line have no zero in them. -/
def Stmt.Text : Stmt → Prop
  | .header id => 0 ∉ id
  | .keyValue id val vals => 0 ∉ id ∧ 0 ∉ val ∧ ∀ v ∈ vals, 0 ∉ v
  | _ => True

instance : DecidablePred Stmt.Text
  | .header id => inferInstanceAs (Decidable (0 ∉ id))
  | .keyValue id val vals => inferInstanceAs (Decidable (0 ∉ id ∧ 0 ∉ val ∧ ∀ v ∈ vals, 0 ∉ v))
  | .invalid => .isTrue trivial
  | .comment => .isTrue trivial

section Recognition

variable {exFlags : Bool} {knownUser : CStr → Bool} {info : ProviderInfo} {s : Specials}
  {rest : List Special} {file : List Stmt} {l : Loading}

theorem zero_notMem_marker (sp : Special) : 0 ∉ sp.marker := by
  cases sp <;> decide

theorem ofName_marker (sp : Special) : Special.ofName sp.marker = some sp := by
  cases sp <;> decide

theorem ofName_eq_some_iff {name : CStr} {sp : Special} :
    Special.ofName name = some sp ↔ name = sp.marker := by
  constructor
  · intro h
    simpa using List.find?_some h
  · rintro rfl
    exact ofName_marker sp

theorem strcmp_marker_iff {name : CStr} (hname : 0 ∉ name) (sp : Special) :
    strcmp name sp.marker = 0 ↔ Special.ofName name = some sp := by
  rw [strcmp_eq_zero_iff_of_notMem hname (zero_notMem_marker sp), ofName_eq_some_iff]

/-- How the pointers look while `rest` is still to be asked for. -/
inductive Asks (exFlags : Bool) : Specials → List Special → Prop
  | atClass : Asks exFlags ⟨none, none, none, none, false⟩ (askedOrder exFlags)
  | atDefault (c : Nat) : Asks exFlags ⟨some c, none, none, none, false⟩ (askedOrder exFlags).tail
  | atInterOp (c d : Nat) :
    Asks exFlags ⟨some c, some d, none, none, false⟩ (askedOrder exFlags).tail.tail
  | notStarted (c d : Nat) (h : exFlags = false) :
    Asks exFlags ⟨some c, some d, none, none, true⟩ []
  | atQualifier (c d i : Nat) (h : exFlags = true) :
    Asks exFlags ⟨some c, some d, some i, none, false⟩ [.qualifierProvider]
  | done (c d i q : Nat) (h : exFlags = true) :
    Asks exFlags ⟨some c, some d, some i, some q, false⟩ []

/-- Only the marker that is asked for next changes something. -/
theorem asks_noteSpecial (hasks : Asks exFlags s rest) (hname : 0 ∉ info.className) :
    (∃ sp rest', rest = sp :: rest' ∧ Special.ofName info.className = some sp ∧
      Asks exFlags (noteSpecial exFlags info s) rest' ∧
      ∀ other, recognises (noteSpecial exFlags info s) other =
        (recognises s other || decide (other = sp))) ∨
    ((∀ sp rest', rest = sp :: rest' → Special.ofName info.className ≠ some sp) ∧
      noteSpecial exFlags info s = s) := by
  have hclass : strcmp info.className (lit "$ClassProvider$") = 0 ↔ _ :=
    strcmp_marker_iff hname .classProvider
  have hdefault : strcmp info.className (lit "$DefaultProvider$") = 0 ↔ _ :=
    strcmp_marker_iff hname .defaultProvider
  have hinterOp : strcmp info.className (lit "$InterOpProvider$") = 0 ↔ _ :=
    strcmp_marker_iff hname .interOpProvider
  have hquali : strcmp info.className (lit "$QualifierProvider$") = 0 ↔ _ :=
    strcmp_marker_iff hname .qualifierProvider
  cases hasks with
  | atClass =>
    by_cases h : Special.ofName info.className = some .classProvider
    · have hnote : noteSpecial exFlags info ⟨none, none, none, none, false⟩ =
          ⟨some info.id, none, none, none, false⟩ := by
        simp [noteSpecial, hclass.mpr h]
      refine .inl ⟨.classProvider, (askedOrder exFlags).tail, by cases exFlags <;> rfl, h, ?_, ?_⟩
      · rw [hnote]
        exact .atDefault info.id
      · intro other
        rw [hnote]
        cases other <;> rfl
    · refine .inr ⟨?_, by simp [noteSpecial, hclass, h]⟩
      intro sp rest' heq
      cases exFlags <;> cases heq <;> exact h
  | atDefault c =>
    by_cases h : Special.ofName info.className = some .defaultProvider
    · have hnote : noteSpecial exFlags info ⟨some c, none, none, none, false⟩ =
          ⟨some c, some info.id, none, none, false⟩ := by
        simp [noteSpecial, hdefault.mpr h]
      refine .inl ⟨.defaultProvider, (askedOrder exFlags).tail.tail, by cases exFlags <;> rfl, h,
        ?_, ?_⟩
      · rw [hnote]
        exact .atInterOp c info.id
      · intro other
        rw [hnote]
        cases other <;> rfl
    · refine .inr ⟨?_, by simp [noteSpecial, hdefault, h]⟩
      intro sp rest' heq
      cases exFlags <;> cases heq <;> exact h
  | atInterOp c d =>
    by_cases h : Special.ofName info.className = some .interOpProvider
    · cases exFlags with
      | true =>
        have hnote : noteSpecial true info ⟨some c, some d, none, none, false⟩ =
            ⟨some c, some d, some info.id, none, false⟩ := by
          simp [noteSpecial, hinterOp.mpr h]
        refine .inl ⟨.interOpProvider, [.qualifierProvider], rfl, h, ?_, ?_⟩
        · rw [hnote]
          exact .atQualifier c d info.id rfl
        · intro other
          rw [hnote]
          cases other <;> rfl
      | false =>
        have hnote : noteSpecial false info ⟨some c, some d, none, none, false⟩ =
            ⟨some c, some d, none, none, true⟩ := by
          simp [noteSpecial, hinterOp.mpr h]
        refine .inl ⟨.interOpProvider, [], rfl, h, ?_, ?_⟩
        · rw [hnote]
          exact .notStarted c d rfl
        · intro other
          rw [hnote]
          cases other <;> rfl
    · refine .inr ⟨?_, by simp [noteSpecial, hinterOp, h]⟩
      intro sp rest' heq
      cases exFlags <;> cases heq <;> exact h
  | notStarted c d hflags =>
    -- the marker is asked for again and again, and changes nothing
    subst hflags
    refine .inr ⟨fun sp rest' heq => (List.cons_ne_nil sp rest' heq.symm).elim, ?_⟩
    simp [noteSpecial]
  | atQualifier c d i hflags =>
    by_cases h : Special.ofName info.className = some .qualifierProvider
    · have hnote : noteSpecial exFlags info ⟨some c, some d, some i, none, false⟩ =
          ⟨some c, some d, some i, some info.id, false⟩ := by
        simp [noteSpecial, hquali.mpr h]
      refine .inl ⟨.qualifierProvider, [], rfl, h, ?_, ?_⟩
      · rw [hnote]
        exact .done c d i info.id hflags
      · intro other
        rw [hnote]
        cases other <;> rfl
    · refine .inr ⟨?_, by simp [noteSpecial, hquali, h]⟩
      intro sp rest' heq
      cases heq
      exact h
  | done c d i q hflags =>
    refine .inr ⟨fun sp rest' heq => (List.cons_ne_nil sp rest' heq.symm).elim, ?_⟩
    simp [noteSpecial]

/-- Along the sections the markers are gone through in their order. -/
theorem recognises_foldl {infos : List ProviderInfo} (hasks : Asks exFlags s rest)
    (hnames : ∀ info ∈ infos, 0 ∉ info.className) (sp : Special) :
    recognises (infos.foldl (fun s info => noteSpecial exFlags info s) s) sp =
      (recognises s sp ||
        decide (sp ∈ matched rest ((infos.map ProviderInfo.className).filterMap Special.ofName))) := by
  induction infos generalizing s rest with
  | nil => simp
  | cons info infos ih =>
    have hname := hnames info List.mem_cons_self
    have hnames' := fun i hi => hnames i (List.mem_cons_of_mem info hi)
    rw [List.foldl_cons, List.map_cons]
    obtain ⟨first, rest', rfl, hfirst, hasks', hrecognises⟩ | ⟨hother, hsame⟩ :=
      asks_noteSpecial hasks hname
    · rw [ih hasks' hnames', hrecognises, List.filterMap_cons_some hfirst]
      simp only [matched, if_true, List.mem_cons, Bool.decide_or, Bool.or_assoc]
    · rw [hsame, ih hasks hnames']
      cases hof : Special.ofName info.className with
      | none => rw [List.filterMap_cons_none hof]
      | some found =>
        rw [List.filterMap_cons_some hof]
        cases rest with
        | nil => simp [matched]
        | cons first rest' =>
          have hne : found ≠ first := by
            rintro rfl
            exact hother found rest' rfl hof
          simp [matched, hne]

/-- The sections that have been compared with the markers when the file has been read. -/
theorem recognises_readFile (htext : ∀ stmt ∈ file, stmt.Text)
    (hread : readFile exFlags knownUser start file = .ok l) (sp : Special) :
    recognises l.specials sp = true ↔
      sp ∈ matched (askedOrder exFlags) ((sectionNames file).dropLast.filterMap Special.ofName) := by
  have hnames : (sectionsFrom knownUser none 0 file).map ProviderInfo.className = sectionNames file :=
    map_className_sectionsFrom none 0 file
  have hzero : ∀ info ∈ (sectionsFrom knownUser none 0 file).dropLast, 0 ∉ info.className := by
    intro info hinfo
    have hmem : info.className ∈ sectionNames file :=
      hnames ▸ List.mem_map_of_mem ((List.dropLast_sublist _).subset hinfo)
    obtain ⟨stmt, hstmt, hid⟩ := List.mem_filterMap.mp hmem
    cases stmt with
    | header id =>
      cases hid
      exact htext _ hstmt
    | invalid => cases hid
    | comment => cases hid
    | keyValue key val vals => cases hid
  have hstart : Asks exFlags start.specials (askedOrder exFlags) := .atClass
  have hrun := recognises_foldl hstart hzero sp
  rw [List.map_dropLast, hnames] at hrun
  have hnone : recognises start.specials sp = false := by cases sp <;> rfl
  have hspecials : l.specials = _ := (readFile_sections hread).2
  rw [hspecials]
  show recognises (List.foldl _ start.specials (sectionsFrom knownUser none 0 file).dropLast) sp
    = true ↔ _
  rw [hrun, hnone, Bool.false_or, decide_eq_true_iff]

/-- Of the special sections, none of them there twice, all are recognised exactly if they stand
in the order they are asked for and the file does not end with one of them. -/
theorem recognises_iff (htext : ∀ stmt ∈ file, stmt.Text)
    (hread : readFile exFlags knownUser start file = .ok l) (honce : (specialSections file).Nodup) :
    (∀ sp, recognises l.specials sp = true ↔ sp ∈ specialSections file) ↔
      specialSections file <+: askedOrder exFlags ∧
        ∀ name, (sectionNames file).getLast? = some name → Special.ofName name = none := by
  have hrec := fun sp => recognises_readFile htext hread sp
  unfold specialSections at honce ⊢
  generalize sectionNames file = names at hrec honce ⊢
  obtain rfl | ⟨earlier, last, rfl⟩ := List.eq_nil_or_concat' names
  · simpa using hrec
  · rw [List.dropLast_concat] at hrec
    simp only [List.getLast?_concat, Option.some.injEq, forall_eq', List.filterMap_append,
      List.filterMap_cons, List.filterMap_nil] at honce ⊢
    cases hlast : Special.ofName last with
    | none =>
      simp only [hlast, List.append_nil, and_true] at honce ⊢
      have hsub := matched_sublist (askedOrder exFlags) (earlier.filterMap Special.ofName)
      rw [← matched_complete_iff honce]
      constructor
      · intro hall sp hsp
        exact (hrec sp).mp ((hall sp).mpr hsp)
      · intro hall sp
        exact ⟨fun h => hsub.subset ((hrec sp).mp h), fun h => (hrec sp).mpr (hall sp h)⟩
    | some sp =>
      simp only [hlast, reduceCtorEq, and_false, iff_false] at honce ⊢
      intro hall
      -- the last section is not compared with any marker
      have hmem := (hrec sp).mp ((hall sp).mpr (by simp))
      have hearlier := (matched_sublist _ _).subset hmem
      exact (List.disjoint_of_nodup_append honce) hearlier (by simp)

/-- A file with some sections, each with its provider. -/
def fileOf (names : List CStr) : List Stmt :=
  names.flatMap fun name => [.header name, .keyValue (lit "provider") name []]

theorem recognises_iff_inOrder :
    ∃ l, readFile true (fun _ => true) start
        (fileOf [lit "$ClassProvider$", lit "$DefaultProvider$", lit "CIM_Foo"]) = .ok l ∧
      ∀ sp, recognises l.specials sp = true ↔ sp ∈ specialSections
        (fileOf [lit "$ClassProvider$", lit "$DefaultProvider$", lit "CIM_Foo"]) := by
  obtain ⟨l, hread⟩ : ∃ l, readFile true (fun _ => true) start
      (fileOf [lit "$ClassProvider$", lit "$DefaultProvider$", lit "CIM_Foo"]) = .ok l := ⟨_, rfl⟩
  refine ⟨l, hread, (recognises_iff (by decide) hread (by decide)).mpr ⟨by decide, ?_⟩⟩
  intro name hname
  cases hname
  decide

/-- The default provider stands in front of the class provider, and is not noticed. -/
theorem not_recognises :
    ¬ ∀ (exFlags : Bool) (knownUser : CStr → Bool) (file : List Stmt) (l : Loading),
      (∀ stmt ∈ file, stmt.Text) → readFile exFlags knownUser start file = .ok l →
      (specialSections file).Nodup →
      ∀ sp, recognises l.specials sp = true ↔ sp ∈ specialSections file := by
  intro hall
  obtain ⟨l, hread, hdefault⟩ : ∃ l, readFile true (fun _ => true) start
      (fileOf [lit "$DefaultProvider$", lit "$ClassProvider$", lit "CIM_Foo"]) = .ok l ∧
      recognises l.specials .defaultProvider = false := ⟨_, rfl, rfl⟩
  have h := hall true (fun _ => true) _ l (by decide) hread (by decide) .defaultProvider
  rw [hdefault] at h
  exact absurd h (by decide)

end Recognition

end Sfcb.ProviderMgr.Registration
