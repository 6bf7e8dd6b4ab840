import Sfcb.Object.Getters

/-!
# Indexed accessors

Which elements the indexed functions of `objectImpl.c` look at. Nearly all of them refuse an id
below zero and one above `used`, so the id behind the last element passes. Two are different:
`ClClassGetMethParmQualifierCount` compares the id of a parameter with the number of qualifiers
of the first parameter, and `ClInstanceIsPropertyAtFiltered` tests nothing.

`outcome_eq_iff` says for each of them which ids are treated as they should be.

Mirroring notes:
- The caller asks for something that is in the element. (Null pointers are allowed for what is
  not asked for.)
- A method or a parameter that is given by a pointer is given as it is.
- `outside` is a read behind the elements, or in front of them. Nothing is said of what comes
  after it.
-/

namespace Sfcb.Object

variable {α : Type}

/-! ## One section -/

/-- What a test of an id and the access behind it come to. -/
inductive Reach (α : Type) where
  /-- The code returns 1. -/
  | refused
  | outside
  | found (x : α)

/-- The element at an index. -/
def ClSection.reach (s : ClSection α) (id : Int) : Reach α :=
  if id < 0 then .outside
  else match s.items[id.toNat]? with
    | none => .outside
    | some x => .found x

/-- `if (id < 0 || id > used) return 1;`, and then the element. -/
def ClSection.access (s : ClSection α) (id : Int) : Reach α :=
  if id < 0 ∨ id > s.items.length then .refused else s.reach id

/-- The element with that id, if there is one: what an access is for. -/
def ClSection.element (s : ClSection α) (id : Int) : Option α :=
  if id < 0 then none else s.items[id.toNat]?

def Reach.ofOption : Option α → Reach α
  | none => .refused
  | some x => .found x

/-- The functions of `Getters` go through such an access. -/
theorem itemIn_eq_access {β : Type} (s : ClSection α) (id : Int)
    (read : α → Option (Option β)) :
    itemIn s id read = match s.access id with
      | .refused => some none
      | .outside => none
      | .found x => read x := by
  unfold itemIn ClSection.access ClSection.reach
  by_cases h : id < 0 ∨ id > s.items.length
  · rw [if_pos h, if_pos h]
  · rw [if_neg h, if_neg h, if_neg fun hneg => h (.inl hneg)]
    cases s.items[id.toNat]? <;> rfl

theorem countIn_eq_access (s : ClSection α) (id : Int) (count : α → Nat) :
    countIn s id count = match s.access id with
      | .refused => some 1
      | .outside => none
      | .found x => some (count x) := by
  unfold countIn ClSection.access ClSection.reach
  by_cases h : id < 0 ∨ id > s.items.length
  · rw [if_pos h, if_pos h]
  · rw [if_neg h, if_neg h, if_neg fun hneg => h (.inl hneg)]
    cases s.items[id.toNat]? <;> rfl

/-! ## The accessors -/

inductive Element where
  | qualifier (q : ClQualifier)
  | property (p : ClProperty)
  | method (m : ClMethod)
  | parameter (p : ClParameter)
  deriving DecidableEq, Repr

/-- The elements that are looked at, `none` for one outside of its section, and if the error
code is returned. -/
structure Outcome where
  looked : List (Option Element)
  refused : Bool
  deriving DecidableEq, Repr

/-- An access, and what is done with the element. -/
def Reach.outcome (r : Reach α) (wrap : α → Element) (rest : α → Outcome) : Outcome :=
  match r with
  | .refused => ⟨[], true⟩
  | .outside => ⟨[none], false⟩
  | .found x => ⟨some (wrap x) :: (rest x).looked, (rest x).refused⟩

/-- The element is what was asked for. -/
def noMore : α → Outcome := fun _ => ⟨[], false⟩

/-- A call. -/
inductive Accessor where
  | clClassGetQualifierAt (cls : ClClass) (id : Int)
  | clClassGetPropertyAt (cls : ClClass) (id : Int)
  | clClassGetPropQualifierCount (cls : ClClass) (id : Int)
  | clClassGetPropQualifierAt (cls : ClClass) (id qid : Int)
  | clClassGetMethodAt (cls : ClClass) (id : Int)
  | clClassGetMethQualifierCount (cls : ClClass) (id : Int)
  | clClassGetMethQualifierAt (cls : ClClass) (m : ClMethod) (qid : Int)
  | clClassGetMethParameterCount (cls : ClClass) (id : Int)
  | clClassGetMethParameterAt (cls : ClClass) (m : ClMethod) (pid : Int)
  | clClassGetMethParmQualifierCount (cls : ClClass) (m : ClMethod) (id : Int)
  | clClassGetMethParamQualifierAt (cls : ClClass) (parm : ClParameter) (id : Int)
  | clInstanceGetPropertyAt (inst : ClInstance) (id : Int)
  | clInstanceIsPropertyAtFiltered (inst : ClInstance) (id : Int)
  | clObjectPathGetKeyAt (op : ClObjectPath) (id : Int)
  | clArgsGetArgAt (arg : ClArgs) (id : Int)

/-- The elements, where `acc` takes an element from a section. -/
def Accessor.looks (acc : ∀ {α : Type}, ClSection α → Int → Reach α) : Accessor → Outcome
  | .clClassGetQualifierAt cls id => (acc cls.qualifiers id).outcome .qualifier noMore
  | .clClassGetPropertyAt cls id => (acc cls.properties id).outcome .property noMore
  | .clClassGetPropQualifierCount cls id => (acc cls.properties id).outcome .property noMore
  | .clClassGetPropQualifierAt cls id qid =>
    (acc cls.properties id).outcome .property fun p =>
      (acc p.qualifiers qid).outcome .qualifier noMore
  | .clClassGetMethodAt cls id => (acc cls.methods id).outcome .method noMore
  | .clClassGetMethQualifierCount cls id => (acc cls.methods id).outcome .method noMore
  | .clClassGetMethQualifierAt _ m qid => (acc m.qualifiers qid).outcome .qualifier noMore
  | .clClassGetMethParameterCount cls id => (acc cls.methods id).outcome .method noMore
  | .clClassGetMethParameterAt _ m pid => (acc m.parameters pid).outcome .parameter noMore
  | .clClassGetMethParmQualifierCount _ m id => (acc m.parameters id).outcome .parameter noMore
  | .clClassGetMethParamQualifierAt _ parm id => (acc parm.qualifiers id).outcome .qualifier noMore
  | .clInstanceGetPropertyAt inst id => (acc inst.properties id).outcome .property noMore
  | .clInstanceIsPropertyAtFiltered inst id => (acc inst.properties id).outcome .property noMore
  | .clObjectPathGetKeyAt op id => (acc op.properties id).outcome .property noMore
  | .clArgsGetArgAt arg id => (acc arg.properties id).outcome .property noMore

/-- What the code does. -/
def Accessor.outcome : Accessor → Outcome
  | .clClassGetMethParmQualifierCount _ m id =>
    -- `p` is still the first parameter where the id is tested.
    if id < 0 then ⟨[], true⟩
    else (m.parameters.reach 0).outcome .parameter fun first =>
      if id > first.qualifiers.items.length then ⟨[], true⟩
      else (m.parameters.reach id).outcome .parameter noMore
  | .clInstanceIsPropertyAtFiltered inst id => (inst.properties.reach id).outcome .property noMore
  | a => a.looks ClSection.access

/-- What it is for: an element is looked at if there is one with that id, and otherwise the
error code is returned. -/
def Accessor.expected (a : Accessor) : Outcome :=
  a.looks fun s id => .ofOption (s.element id)

/-- The element that is wanted is looked at and none outside of its section is; where an error
is due it is returned, and nothing more is looked at. -/
structure Outcome.Meets (o e : Outcome) : Prop where
  refused : o.refused = e.refused
  inside : none ∉ o.looked
  element : e.refused = false → o.looked.getLast? = e.looked.getLast?
  unread : e.refused = true → o.looked = e.looked

/-- The ids that are treated like that. -/
def Accessor.Proper : Accessor → Prop
  | .clClassGetQualifierAt cls id => id ≠ cls.qualifiers.items.length
  | .clClassGetPropertyAt cls id => id ≠ cls.properties.items.length
  | .clClassGetPropQualifierCount cls id => id ≠ cls.properties.items.length
  | .clClassGetPropQualifierAt cls id qid =>
    id ≠ cls.properties.items.length ∧
      ∀ p, cls.properties.element id = some p → qid ≠ p.qualifiers.items.length
  | .clClassGetMethodAt cls id => id ≠ cls.methods.items.length
  | .clClassGetMethQualifierCount cls id => id ≠ cls.methods.items.length
  | .clClassGetMethQualifierAt _ m qid => qid ≠ m.qualifiers.items.length
  | .clClassGetMethParameterCount cls id => id ≠ cls.methods.items.length
  | .clClassGetMethParameterAt _ m pid => pid ≠ m.parameters.items.length
  | .clClassGetMethParmQualifierCount _ m id =>
    id < 0 ∨ (id < m.parameters.items.length ∧
      ∀ first, m.parameters.items[0]? = some first → id ≤ first.qualifiers.items.length)
  | .clClassGetMethParamQualifierAt _ parm id => id ≠ parm.qualifiers.items.length
  | .clInstanceGetPropertyAt inst id => id ≠ inst.properties.items.length
  | .clInstanceIsPropertyAtFiltered inst id => 0 ≤ id ∧ id < inst.properties.items.length
  | .clObjectPathGetKeyAt op id => id ≠ op.properties.items.length
  | .clArgsGetArgAt arg id => id ≠ arg.properties.items.length

/-! ## When it does -/

theorem Outcome.Meets.refl {o : Outcome} (h : none ∉ o.looked) : o.Meets o :=
  ⟨rfl, h, fun _ => rfl, fun _ => rfl⟩

section Section

variable (s : ClSection α) (id : Int)

theorem reach_cases :
    (0 ≤ id ∧ id < s.items.length ∧ ∃ x, s.element id = some x ∧ s.reach id = .found x) ∨
    (¬ (0 ≤ id ∧ id < s.items.length) ∧ s.element id = none ∧ s.reach id = .outside) := by
  unfold ClSection.reach ClSection.element
  by_cases hneg : id < 0
  · rw [if_pos hneg, if_pos hneg]
    exact .inr ⟨by omega, rfl, rfl⟩
  · rw [if_neg hneg, if_neg hneg]
    by_cases hlt : id.toNat < s.items.length
    · rw [List.getElem?_eq_getElem hlt]
      exact .inl ⟨by omega, by omega, _, rfl, rfl⟩
    · rw [List.getElem?_eq_none (by omega)]
      exact .inr ⟨by omega, rfl, rfl⟩

/-- Only the id behind the last element is not refused where it should be. -/
theorem access_cases :
    (id ≠ s.items.length ∧ s.access id = .ofOption (s.element id)) ∨
    (id = s.items.length ∧ s.access id = .outside ∧ s.element id = none) := by
  unfold ClSection.access
  obtain ⟨hlow, hhigh, x, helement, hreach⟩ | ⟨hout, helement, hreach⟩ := reach_cases s id
  · rw [if_neg (by omega), helement, hreach]
    exact .inl ⟨by omega, rfl⟩
  · rw [helement, hreach]
    by_cases hend : id = s.items.length
    · rw [if_neg (by omega)]
      exact .inr ⟨hend, rfl, rfl⟩
    · rw [if_pos (by omega)]
      exact .inl ⟨hend, rfl⟩

variable {s id} (wrap : α → Element)

theorem outcome_outside (rest : α → Outcome) (e : Outcome) :
    ¬ ((Reach.outside : Reach α).outcome wrap rest).Meets e :=
  fun h => h.inside (List.mem_singleton.mpr rfl)

theorem notMem_outcome (o : Option α) (rest : α → Outcome) (h : ∀ x, none ∉ (rest x).looked) :
    none ∉ ((Reach.ofOption o).outcome wrap rest).looked := by
  cases o with
  | none => exact List.not_mem_nil
  | some x => exact fun hmem => h x (List.mem_of_ne_of_mem (by simp) hmem)

/-- One section. -/
theorem access_meets_iff :
    ((s.access id).outcome wrap noMore).Meets ((Reach.ofOption (s.element id)).outcome wrap noMore) ↔
      id ≠ s.items.length := by
  obtain ⟨hne, heq⟩ | ⟨hend, houtside, -⟩ := access_cases s id
  · rw [heq]
    exact iff_of_true (.refl (notMem_outcome wrap _ noMore fun _ => List.not_mem_nil)) hne
  · rw [houtside]
    exact iff_of_false (outcome_outside wrap noMore _) fun h => h hend

end Section

/-- A qualifier of a property: both ids are to be right. -/
theorem propQualifier_meets_iff (s : ClSection ClProperty) (id qid : Int) :
    ((s.access id).outcome .property fun p =>
        (p.qualifiers.access qid).outcome .qualifier noMore).Meets
      ((Reach.ofOption (s.element id)).outcome .property fun p =>
        (Reach.ofOption (p.qualifiers.element qid)).outcome .qualifier noMore) ↔
      id ≠ s.items.length ∧
        ∀ p, s.element id = some p → qid ≠ p.qualifiers.items.length := by
  obtain ⟨hne, heq⟩ | ⟨hend, houtside, -⟩ := access_cases s id
  · rw [heq]
    cases hp : s.element id with
    | none => exact iff_of_true (.refl List.not_mem_nil) ⟨hne, by simp⟩
    | some p =>
      have hwanted : (∀ p', some p = some p' → qid ≠ p'.qualifiers.items.length) ↔
          qid ≠ p.qualifiers.items.length := by simp
      rw [hwanted, and_iff_right hne]
      simp only [Reach.ofOption, Reach.outcome]
      obtain ⟨hne', heq'⟩ | ⟨hend', houtside', -⟩ := access_cases p.qualifiers qid
      · rw [heq']
        refine iff_of_true (.refl ?_) hne'
        have hrest := notMem_outcome .qualifier (p.qualifiers.element qid) noMore
          fun _ => List.not_mem_nil
        exact fun hmem => hrest (List.mem_of_ne_of_mem (by simp) hmem)
      · rw [houtside']
        refine iff_of_false (fun h => h.inside ?_) fun h => h hend'
        simp
  · rw [houtside]
    exact iff_of_false (outcome_outside _ _ _) fun h => h.1 hend

/-- The test is against the wrong number, and made after the first parameter has been looked
at. -/
theorem parmQualifierCount_meets_iff (cls : ClClass) (m : ClMethod) (id : Int) :
    (Accessor.clClassGetMethParmQualifierCount cls m id).outcome.Meets
        (Accessor.clClassGetMethParmQualifierCount cls m id).expected ↔
      (Accessor.clClassGetMethParmQualifierCount cls m id).Proper := by
  simp only [Accessor.outcome, Accessor.expected, Accessor.looks, Accessor.Proper]
  by_cases hneg : id < 0
  · rw [if_pos hneg, ClSection.element, if_pos hneg]
    exact iff_of_true (.refl List.not_mem_nil) (.inl hneg)
  rw [if_neg hneg, or_iff_right hneg]
  obtain ⟨-, hpos, first, hfirst, hreach⟩ | ⟨hnone, hfirst, hreach⟩ := reach_cases m.parameters 0
  · have hhead : m.parameters.items[0]? = some first := hfirst
    rw [hreach, hhead]
    simp only [Reach.outcome, Option.some.injEq, forall_eq']
    by_cases hquals : id > first.qualifiers.items.length
    · rw [if_pos hquals]
      refine iff_of_false (fun h => ?_) fun h => by omega
      have hlooked := h.unread h.refused.symm
      cases helement : m.parameters.element id with
      | none =>
        rw [helement] at hlooked
        cases hlooked
      | some p =>
        have hrefused := h.refused
        rw [helement] at hrefused
        cases hrefused
    · rw [if_neg hquals, and_iff_left (by omega)]
      obtain ⟨-, hlt, x, helement, hfound⟩ | ⟨hout, -, houtside⟩ := reach_cases m.parameters id
      · rw [helement, hfound]
        refine iff_of_true ⟨rfl, ?_, fun _ => rfl, nofun⟩ hlt
        simp [noMore]
      · rw [houtside]
        refine iff_of_false (fun h => h.inside ?_) fun h => hout ⟨by omega, h⟩
        simp
  · rw [hreach]
    refine iff_of_false (outcome_outside _ _ _) fun h => hnone ⟨Int.le_refl 0, by omega⟩

/-- Each accessor looks at an element exactly where there is one, and returns its error code
where there is none, if and only if its ids are proper. -/
theorem outcome_meets_iff (a : Accessor) : a.outcome.Meets a.expected ↔ a.Proper := by
  cases a with
  | clClassGetQualifierAt cls id => exact access_meets_iff .qualifier
  | clClassGetPropertyAt cls id => exact access_meets_iff .property
  | clClassGetPropQualifierCount cls id => exact access_meets_iff .property
  | clClassGetPropQualifierAt cls id qid => exact propQualifier_meets_iff cls.properties id qid
  | clClassGetMethodAt cls id => exact access_meets_iff .method
  | clClassGetMethQualifierCount cls id => exact access_meets_iff .method
  | clClassGetMethQualifierAt cls m qid => exact access_meets_iff .qualifier
  | clClassGetMethParameterCount cls id => exact access_meets_iff .method
  | clClassGetMethParameterAt cls m pid => exact access_meets_iff .parameter
  | clClassGetMethParmQualifierCount cls m id => exact parmQualifierCount_meets_iff cls m id
  | clClassGetMethParamQualifierAt cls parm id => exact access_meets_iff .qualifier
  | clInstanceGetPropertyAt inst id => exact access_meets_iff .property
  | clInstanceIsPropertyAtFiltered inst id =>
    simp only [Accessor.outcome, Accessor.expected, Accessor.looks, Accessor.Proper]
    obtain ⟨hlow, hhigh, x, helement, hreach⟩ | ⟨hout, -, hreach⟩ :=
      reach_cases inst.properties id
    · rw [helement, hreach]
      exact iff_of_true (.refl (by simp [Reach.outcome, noMore])) ⟨hlow, hhigh⟩
    · rw [hreach]
      exact iff_of_false (outcome_outside _ _ _) hout
  | clObjectPathGetKeyAt op id => exact access_meets_iff .property
  | clArgsGetArgAt arg id => exact access_meets_iff .property

/-- The argument behind the last one is read. -/
theorem not_outcome_meets :
    ¬ (Accessor.clArgsGetArgAt ⟨.new .args, .clear⟩ 0).outcome.Meets
      (Accessor.clArgsGetArgAt ⟨.new .args, .clear⟩ 0).expected :=
  fun h => h.inside (by decide)

end Sfcb.Object
