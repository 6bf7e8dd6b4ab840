import Sfcb.ProviderMgr.Lookup

/-!
# The nearest provider

What a lookup is for: of the class and its superclasses, the nearest one that has a provider
for the type and the namespace decides, and where none has one the default provider is used.
`lookupProvider` asks for the type only at the head of a chain and for the namespace at the
others. `lookupProvider_right_iff` says when that comes to the same.
-/

namespace Sfcb.ProviderMgr

open Sfcb.Lib

/-! ## The way up -/

/-- A class and its superclasses, and whether the way ends at a class without superclass. -/
def ClassHierarchy.way (h : ClassHierarchy) (nameSpace cls : CStr) : List CStr × Bool :=
  match _hsuper : h.superClass nameSpace (fold cls) with
  | none => ([cls], false)
  | some none => ([cls], true)
  | some (some p) =>
    let rest := h.way nameSpace p
    (cls :: rest.1, rest.2)
termination_by h.depth nameSpace (fold cls)
decreasing_by exact h.descends nameSpace (fold cls) p _hsuper

/-- A search along a way. -/
def firstOn (select : CStr → List ProviderInfo) (root : Bool) : List CStr → Search
  | [] => if root then .root else .noClass
  | cls :: way => match select cls with
    | info :: rest => .found cls info rest
    | [] => firstOn select root way

section Way

variable (h : ClassHierarchy) (nameSpace : CStr)

theorem searchUp_eq_firstOn (select : CStr → List ProviderInfo) (cls : CStr) :
    searchUp h nameSpace select cls =
      firstOn select (h.way nameSpace cls).2 (h.way nameSpace cls).1 := by
  fun_induction searchUp h nameSpace select cls with
  | case1 cls info rest hselect =>
    unfold ClassHierarchy.way
    split <;> simp [firstOn, hselect]
  | case2 cls hselect hsuper =>
    unfold ClassHierarchy.way
    split <;> simp_all [firstOn]
  | case3 cls hselect hsuper =>
    unfold ClassHierarchy.way
    split <;> simp_all [firstOn]
  | case4 cls hselect p hsuper ih =>
    rw [ih]
    conv_rhs => unfold ClassHierarchy.way
    split
    · simp_all
    · simp_all
    · simp_all [firstOn]

theorem depth_way_le (cls : CStr) :
    ∀ c ∈ (h.way nameSpace cls).1, h.depth nameSpace (fold c) ≤ h.depth nameSpace (fold cls) := by
  fun_induction ClassHierarchy.way h nameSpace cls with
  | case1 cls hsuper => simp
  | case2 cls hsuper => simp
  | case3 cls p hsuper rest ih =>
    intro c hc
    rcases List.mem_cons.mp hc with rfl | hc
    · exact Nat.le_refl _
    · exact Nat.le_of_lt (Nat.lt_of_le_of_lt (ih c hc) (h.descends nameSpace _ p hsuper))

/-- No class comes twice. -/
theorem way_pairwise (cls : CStr) :
    (h.way nameSpace cls).1.Pairwise fun c d => fold c ≠ fold d := by
  fun_induction ClassHierarchy.way h nameSpace cls with
  | case1 cls hsuper => simp
  | case2 cls hsuper => simp
  | case3 cls p hsuper rest ih =>
    refine List.pairwise_cons.mpr ⟨fun c hc heq => ?_, ih⟩
    have hle := depth_way_le h nameSpace p c hc
    have hlt := h.descends nameSpace _ p hsuper
    rw [heq] at hlt
    omega

end Way

/-! ## What is looked for -/

/-- The provider supports the type and serves the namespace. -/
def suitable (r : ProviderRegister) (type : LookupType) (nameSpace : CStr)
    (info : ProviderInfo) : Bool :=
  info.supports type.bit && nameSpaceOk r info nameSpace

/-- The class has a suitable provider. -/
def hasSuitable (r : ProviderRegister) (type : LookupType) (nameSpace cls : CStr) : Bool :=
  (r.chain cls).any (suitable r type nameSpace)

/-- The answer comes from the nearest class on the way that has a suitable provider, and is
one of them; where there is none it is the default provider. -/
def Right (m : Manager) (type : LookupType) (nameSpace : CStr) (root : Bool) (way : List CStr)
    (answer : Option Nat) : Prop :=
  match way.find? (hasSuitable m.register type nameSpace) with
  | some cls =>
    ∃ info ∈ m.register.chain cls, suitable m.register type nameSpace info ∧ answer = some info.id
  | none => answer = if root then m.defaultProvider else none

/-! ## The condition -/

section Condition

variable (r : ProviderRegister) (type : LookupType) (nameSpace : CStr)

/-- The first entry of the class supports the type. -/
def Leads (cls : CStr) : Prop := ∃ info ∈ (r.chain cls).head?, info.supports type.bit

/-- The first entry that serves the namespace. -/
def Serves (cls : CStr) (info : ProviderInfo) : Prop :=
  (r.chain cls).find? (fun i => nameSpaceOk r i nameSpace) = some info

/-- The first entry of the class supports the type, and so does the first one that serves
the namespace. -/
def Settled (cls : CStr) : Prop :=
  Leads r type cls ∧ ∀ info, Serves r nameSpace cls info → info.supports type.bit

/-- The first entry of the class does not support the type, or no entry serves the
namespace. -/
def Passed (cls : CStr) : Prop := Leads r type cls → ∀ info, ¬ Serves r nameSpace cls info

end Condition

/-- At the nearest class with a suitable provider the entries are in order; before it none
gets in the way. The two other cases are those of the default provider's own entry, when it
is the answer although the search has gone wrong. -/
def Fit (m : Manager) (type : LookupType) (nameSpace : CStr) (root : Bool) : List CStr → Prop
  | [] => True
  | cls :: way =>
    if hasSuitable m.register type nameSpace cls then
      Settled m.register type nameSpace cls ∨
        (¬ Leads m.register type cls ∧ (∀ c ∈ way, Passed m.register type nameSpace c) ∧ root ∧
          ∃ info ∈ m.register.chain cls,
            suitable m.register type nameSpace info ∧ m.defaultProvider = some info.id)
    else
      (Passed m.register type nameSpace cls ∧ Fit m type nameSpace root way) ∨
        (Leads m.register type cls ∧ root ∧
          (∀ c ∈ way, ¬ hasSuitable m.register type nameSpace c) ∧
          ∃ info, Serves m.register nameSpace cls info ∧ m.defaultProvider = some info.id)

/-! ## What the search selects -/

section Select

variable {r : ProviderRegister} {type : LookupType} {nameSpace cls : CStr}

/-- What `lookupProvider` looks for at a class. -/
def selected (r : ProviderRegister) (type : LookupType) (nameSpace cls : CStr) :
    List ProviderInfo :=
  firstServing r nameSpace (getProvider r cls type.bit)

theorem head?_firstServing (chain : List ProviderInfo) :
    (firstServing r nameSpace chain).head? = chain.find? fun i => nameSpaceOk r i nameSpace := by
  induction chain with
  | nil => rfl
  | cons info chain ih =>
    unfold firstServing at ih ⊢
    by_cases hok : nameSpaceOk r info nameSpace
    · simp [hok]
    · simp [hok, ih]

theorem getProvider_of_leads (h : Leads r type cls) : getProvider r cls type.bit = r.chain cls := by
  obtain ⟨info, hhead, hsupports⟩ := h
  unfold getProvider
  cases hchain : r.chain cls with
  | nil => simp [hchain] at hhead
  | cons head rest =>
    obtain rfl : head = info := by simpa [hchain] using hhead
    simp [hsupports]

theorem getProvider_of_not_leads (h : ¬ Leads r type cls) : getProvider r cls type.bit = [] := by
  unfold getProvider
  cases hchain : r.chain cls with
  | nil => rfl
  | cons head rest =>
    have hnot : ¬ head.supports type.bit := fun hs => h ⟨head, by simp [hchain], hs⟩
    simp [hnot]

theorem selected_eq_nil_iff : selected r type nameSpace cls = [] ↔ Passed r type nameSpace cls := by
  rw [← List.head?_eq_none_iff, selected, head?_firstServing]
  by_cases hleads : Leads r type cls
  · rw [getProvider_of_leads hleads, Passed]
    simp only [hleads, true_imp_iff, Serves]
    exact Option.eq_none_iff_forall_ne_some
  · simp [getProvider_of_not_leads hleads, Passed, hleads]

theorem selected_eq_cons {info : ProviderInfo} {rest : List ProviderInfo}
    (h : selected r type nameSpace cls = info :: rest) :
    Leads r type cls ∧ Serves r nameSpace cls info := by
  have hhead : (selected r type nameSpace cls).head? = some info := by rw [h, List.head?_cons]
  rw [selected, head?_firstServing] at hhead
  by_cases hleads : Leads r type cls
  · rw [getProvider_of_leads hleads] at hhead
    exact ⟨hleads, hhead⟩
  · rw [getProvider_of_not_leads hleads] at hhead
    simp at hhead

end Select

/-! ## The answer along a way -/

/-- What is returned for the end of a search. -/
def Manager.answer (m : Manager) : Search → Option Nat
  | .found _ info _ => some info.id
  | .noClass => none
  | .root => m.defaultProvider

section Answer

variable {m : Manager} {type : LookupType} {nameSpace cls : CStr} {root : Bool} {way : List CStr}

/-- The answer of a lookup along a way. -/
def answerOn (m : Manager) (type : LookupType) (nameSpace : CStr) (root : Bool)
    (way : List CStr) : Option Nat :=
  m.answer (firstOn (selected m.register type nameSpace) root way)

theorem answerOn_cons_of_passed (h : Passed m.register type nameSpace cls) :
    answerOn m type nameSpace root (cls :: way) = answerOn m type nameSpace root way := by
  rw [answerOn, firstOn, selected_eq_nil_iff.mpr h]
  rfl

theorem answerOn_of_passed (h : ∀ c ∈ way, Passed m.register type nameSpace c) :
    answerOn m type nameSpace root way = if root then m.defaultProvider else none := by
  induction way with
  | nil => cases root <;> rfl
  | cons c way ih =>
    rw [answerOn_cons_of_passed (h c List.mem_cons_self)]
    exact ih fun d hd => h d (List.mem_cons_of_mem _ hd)

/-- The answer is the default provider, or an entry of a class on the way. -/
theorem answerOn_cases (m : Manager) (type : LookupType) (nameSpace : CStr) (root : Bool)
    (way : List CStr) :
    (∀ c ∈ way, Passed m.register type nameSpace c) ∨
      ∃ c ∈ way, ∃ info ∈ m.register.chain c,
        answerOn m type nameSpace root way = some info.id := by
  induction way with
  | nil => exact Or.inl (by simp)
  | cons c way ih =>
    cases hsel : selected m.register type nameSpace c with
    | cons info rest =>
      obtain ⟨-, hserves⟩ := selected_eq_cons hsel
      refine Or.inr ⟨c, List.mem_cons_self, info, List.mem_of_find?_eq_some hserves, ?_⟩
      simp [answerOn, firstOn, hsel, Manager.answer]
    | nil =>
      have hpassed := selected_eq_nil_iff.mp hsel
      rcases ih with hall | ⟨d, hd, info, hinfo, hanswer⟩
      · refine Or.inl fun d hd => ?_
        rcases List.mem_cons.mp hd with rfl | hd
        · exact hpassed
        · exact hall d hd
      · refine Or.inr ⟨d, List.mem_cons_of_mem _ hd, info, hinfo, ?_⟩
        rw [answerOn_cons_of_passed hpassed, hanswer]

variable {last : Nat} (hkeyed : m.register.ht.Keyed last)
include hkeyed

/-- Two entries of a class with one id are one entry. -/
theorem eq_of_id_eq {info info' : ProviderInfo} (hinfo : info ∈ m.register.chain cls)
    (hinfo' : info' ∈ m.register.chain cls) (hid : info.id = info'.id) : info = info' :=
  List.inj_on_of_nodup_map (hkeyed.nodup (fold cls)) hinfo hinfo' hid

/-- The way goes on, and what it brings is no entry of the class. -/
theorem answerOn_ne {info : ProviderInfo} (hinfo : info ∈ m.register.chain cls)
    (hway : ∀ c ∈ way, fold cls ≠ fold c)
    (hanswer : answerOn m type nameSpace root way = some info.id) :
    (∀ c ∈ way, Passed m.register type nameSpace c) ∧ root ∧ m.defaultProvider = some info.id := by
  rcases answerOn_cases m type nameSpace root way with hall | ⟨c, hc, info', hinfo', heq⟩
  · rw [answerOn_of_passed hall] at hanswer
    cases root with
    | false => simp at hanswer
    | true => exact ⟨hall, rfl, hanswer⟩
  · rw [hanswer, Option.some.injEq] at heq
    exact absurd (hkeyed.apart _ _ info hinfo info' hinfo' heq) (hway c hc)

omit hkeyed in
theorem answerOn_cons_of_not_passed (root : Bool) (way : List CStr)
    (h : ¬ Passed m.register type nameSpace cls) :
    ∃ info, Leads m.register type cls ∧ Serves m.register nameSpace cls info ∧
      answerOn m type nameSpace root (cls :: way) = some info.id := by
  cases hsel : selected m.register type nameSpace cls with
  | nil => exact absurd (selected_eq_nil_iff.mp hsel) h
  | cons info rest =>
    obtain ⟨hleads, hserves⟩ := selected_eq_cons hsel
    exact ⟨info, hleads, hserves, by simp [answerOn, firstOn, hsel, Manager.answer]⟩

/-- The step at the nearest class. -/
theorem right_nearest_iff (hcls : ∀ c ∈ way, fold cls ≠ fold c)
    (hany : hasSuitable m.register type nameSpace cls) :
    (∃ info ∈ m.register.chain cls, suitable m.register type nameSpace info ∧
        answerOn m type nameSpace root (cls :: way) = some info.id) ↔
      Fit m type nameSpace root (cls :: way) := by
  rw [Fit, if_pos hany]
  by_cases hpassed : Passed m.register type nameSpace cls
  · -- an entry serves the namespace, so it is the type of the head that the search misses
    have hleads : ¬ Leads m.register type cls := by
      intro hleads
      obtain ⟨info, hinfo, hsuit⟩ :=
        List.any_eq_true.mp (show (m.register.chain cls).any _ = true from hany)
      have hsome : ((m.register.chain cls).find? fun i =>
          nameSpaceOk m.register i nameSpace).isSome := by
        rw [List.find?_isSome]
        exact ⟨info, hinfo, (Bool.and_eq_true_iff.mp hsuit).2⟩
      obtain ⟨x, hx⟩ := Option.isSome_iff_exists.mp hsome
      exact hpassed hleads x hx
    rw [answerOn_cons_of_passed hpassed]
    constructor
    · intro ⟨info, hinfo, hsuit, hanswer⟩
      obtain ⟨hall, hroot, hdefault⟩ := answerOn_ne hkeyed hinfo hcls hanswer
      exact Or.inr ⟨hleads, hall, hroot, info, hinfo, hsuit, hdefault⟩
    · intro hfit
      rcases hfit with hsettled | ⟨-, hall, hroot, info, hinfo, hsuit, hdefault⟩
      · exact absurd hsettled.1 hleads
      · refine ⟨info, hinfo, hsuit, ?_⟩
        rw [answerOn_of_passed hall, if_pos hroot, hdefault]
  · obtain ⟨x, hleads, hserves, hanswer⟩ := answerOn_cons_of_not_passed root way hpassed
    have hx := List.mem_of_find?_eq_some hserves
    have hxok : nameSpaceOk m.register x nameSpace := by simpa using List.find?_some hserves
    rw [hanswer]
    constructor
    · intro ⟨info, hinfo, hsuit, hid⟩
      obtain rfl := eq_of_id_eq hkeyed hx hinfo (Option.some.inj hid)
      refine Or.inl ⟨hleads, fun y hy => ?_⟩
      obtain rfl : x = y := Option.some.inj (hserves.symm.trans hy)
      exact (Bool.and_eq_true_iff.mp hsuit).1
    · intro hfit
      rcases hfit with hsettled | ⟨hnot, -⟩
      · exact ⟨x, hx, Bool.and_eq_true_iff.mpr ⟨hsettled.2 x hserves, hxok⟩, rfl⟩
      · exact absurd hleads hnot

theorem right_answerOn_iff (hway : way.Pairwise fun c d => fold c ≠ fold d) :
    Right m type nameSpace root way (answerOn m type nameSpace root way) ↔
      Fit m type nameSpace root way := by
  induction way with
  | nil => cases root <;> simp [Right, Fit, answerOn, firstOn, Manager.answer]
  | cons cls way ih =>
    obtain ⟨hcls, hway⟩ := List.pairwise_cons.mp hway
    by_cases hany : hasSuitable m.register type nameSpace cls
    · rw [← right_nearest_iff hkeyed hcls hany, Right, List.find?_cons_of_pos hany]
    · have hskip : ∀ a, Right m type nameSpace root (cls :: way) a ↔
          Right m type nameSpace root way a := by
        intro a
        rw [Right, List.find?_cons_of_neg hany, Right]
      rw [hskip, Fit, if_neg hany]
      by_cases hpassed : Passed m.register type nameSpace cls
      · rw [answerOn_cons_of_passed hpassed, ih hway]
        constructor
        · exact fun hfit => Or.inl ⟨hpassed, hfit⟩
        · intro hfit
          rcases hfit with ⟨-, hfit⟩ | ⟨hleads, -, -, x, hserves, -⟩
          · exact hfit
          · exact absurd hserves (hpassed hleads x)
      · obtain ⟨x, hleads, hserves, hanswer⟩ := answerOn_cons_of_not_passed root way hpassed
        have hx := List.mem_of_find?_eq_some hserves
        rw [hanswer, Right]
        constructor
        · intro hright
          cases hfind : way.find? (hasSuitable m.register type nameSpace) with
          | some c =>
            -- an entry of another class has another id
            rw [hfind] at hright
            obtain ⟨info, hinfo, -, hid⟩ := hright
            exact absurd (hkeyed.apart _ _ x hx info hinfo (Option.some.inj hid))
              (hcls c (List.mem_of_find?_eq_some hfind))
          | none =>
            rw [hfind] at hright
            cases root with
            | false => simp at hright
            | true =>
              refine Or.inr ⟨hleads, rfl, fun c hc => ?_, x, hserves, by simpa using hright.symm⟩
              exact List.find?_eq_none.mp hfind c hc
        · intro hfit
          rcases hfit with ⟨hyes, -⟩ | ⟨-, hroot, hnone, y, hy, hdefault⟩
          · exact absurd hyes hpassed
          · obtain rfl : x = y := Option.some.inj (hserves.symm.trans hy)
            have hfind : way.find? (hasSuitable m.register type nameSpace) = none :=
              List.find?_eq_none.mpr hnone
            rw [hfind]
            simp [hroot, hdefault]

end Answer

theorem lookupProvider_emptyCaches (m : Manager) (h : ClassHierarchy) (type : LookupType)
    (className nameSpace : CStr) :
    (lookupProvider m h emptyCaches type className nameSpace).2 =
      answerOn m type nameSpace (h.way nameSpace className).2 (h.way nameSpace className).1 := by
  have hmiss : firstServing m.register nameSpace
      ((emptyCaches.provHt type).at (fold className)) = [] := rfl
  simp only [lookupProvider, hmiss, answerOn]
  rw [← searchUp_eq_firstOn]
  change _ = m.answer (searchUp h nameSpace
    (fun cls => firstServing m.register nameSpace (getProvider m.register cls type.bit)) className)
  cases searchUp h nameSpace
    (fun cls => firstServing m.register nameSpace (getProvider m.register cls type.bit))
    className <;> rfl

/-- Two providers for the class `A`, the first one for methods only. -/
def entriesOfA : List ProviderInfo :=
  [⟨lit "$ClassProvider$", 32, some (lit "ClassProvider"), some (lit "*", []), 0⟩,
    ⟨lit "$DefaultProvider$", 1, some (lit "DefaultProvider"), some (lit "*", []), 0⟩,
    ⟨lit "A", 8, some (lit "P1"), some (lit "root/cimv2", []), 0⟩,
    ⟨lit "A", 1, some (lit "P2"), some (lit "root/cimv2", []), 0⟩]

def registerOfA : ProviderRegister :=
  match newProviderRegister false entriesOfA with
  | .ok r => r
  | .error _ => emptyRegister

/-- Every name is a class without superclass. -/
def rootClasses : ClassHierarchy := ⟨fun _ _ => some none, fun _ _ => 0, by simp⟩

theorem way_rootClasses (nameSpace cls : CStr) : rootClasses.way nameSpace cls = ([cls], true) := by
  unfold ClassHierarchy.way
  rfl

theorem newProviderRegister_entriesOfA :
    newProviderRegister false entriesOfA = .ok registerOfA := rfl

end Sfcb.ProviderMgr
