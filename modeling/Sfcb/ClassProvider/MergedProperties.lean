import Sfcb.ClassProvider.CopiedProperties

/-!
# The properties of a merged class

For which superclass and class the properties are merged as they should be: all of them once,
those of the class as it declares them and the others as they are inherited. `PropertiesMerged`
says what is asked for, and `PropertiesMergeable` which properties `mergeParents` does it for.
-/

namespace Sfcb.ClassMerge

open Sfcb.Lib
open Sfcb.Object (CMPIType CMPIBase)

/-! ## Merged properties -/

/-- The qualifiers of the class, and of those of the superclass what it does not have. -/
def QualifiersMerged (old new merged : List Qualifier) : Prop :=
  ∀ k, (lookupBy Qualifier.key merged k).map Qualifier.data =
    ((lookupBy Qualifier.key new k).or (lookupBy Qualifier.key old k)).map Qualifier.data

/-- A property as the class declares it. `old` is the property that is inherited. -/
structure PropertyDeclared (old : Option Property) (q m : Property) : Prop where
  data : m.data = q.data
  refName : m.refName = q.refName
  key : m.key = (q.key || old.any Property.key)
  embeddedObject : m.embeddedObject = (q.embeddedObject || old.any Property.embeddedObject)
  qualifiers : QualifiersMerged (old.elim [] Property.qualifiers) q.qualifiers m.qualifiers

/-- `ms` is what a class has that declares `cs` and inherits `ps`. -/
structure PropertiesMerged (ps cs ms : List Property) : Prop where
  nodup : (ms.map Property.id).Nodup
  inherited : ∀ n, lookupBy Property.id cs n = none →
    lookupBy Property.id ms n = lookupBy Property.id ps n
  declared : ∀ q ∈ cs, ∃ m, lookupBy Property.id ms q.id = some m ∧
    PropertyDeclared (lookupBy Property.id ps q.id) q m

/-! ## Properties that can be merged -/

/-- The superclass and the class do not give one qualifier different values. -/
def QualifiersAgree (old new : List Qualifier) : Prop :=
  ∀ a ∈ old, ∀ b ∈ new, a.key = b.key → a.data = b.data

/-- Apart from `old`, `s` has the qualifiers of `new`. -/
def SameApart (old s new : List Qualifier) : Prop :=
  ∀ k, lookupBy Qualifier.key old k = none →
    (lookupBy Qualifier.key s k).map Qualifier.data =
      (lookupBy Qualifier.key new k).map Qualifier.data

def Default.isCopied : Default → Bool
  | .ref _ | .array _ _ | .lost _ => false
  | _ => true

def Default.isText : Default → Bool
  | .text _ => true
  | _ => false

def Default.isDate : Default → Bool
  | .date _ => true
  | _ => false

/-- A type whose values are stored as they come. -/
def plainType (t : CMPIType) : Bool :=
  t ≠ CMPIBase.chars.simple ∧ t ≠ CMPIBase.dateTime.simple ∧ t ≠ CMPIBase.ref.simple ∧
    t.array = false

/-- The default `d` can be stored where `od` is. -/
def Default.replacedBy (od d : Default) : Bool :=
  match d with
  | .null _ => true
  | .number _ _ _ => plainType od.type
  | .date _ => od.type = CMPIBase.dateTime.simple
  | _ => false

/-- `cpyClass` makes a property like this one. -/
structure Property.Copied (p : Property) : Prop where
  refName : p.refName = none
  data : p.data.isCopied = true
  key : p.key = false
  embeddedObject : p.embeddedObject = p.data.isInst

/-- The property `a` becomes what `q` declares. -/
structure Redeclared (a q : Property) : Prop where
  refName : q.refName = none
  data : a.data.replacedBy q.data = true
  key : q.key = false ∧ a.key = false
  embeddedObject : (q.embeddedObject || a.embeddedObject) = a.data.isInst
  qualifiers : QualifiersAgree a.qualifiers q.qualifiers

/-- A text is redeclared with a text, or a date with a date. -/
def stringReplaced (ps : List Property) (q : Property) : Bool :=
  (lookupBy Property.id ps q.id).any fun a =>
    a.data.isText && q.data.isText || a.data.isDate && q.data.isDate

/-- The instance that `q` adds is not cut by `r` behind it. -/
def Undisturbed (ps : List Property) (q r : Property) : Prop :=
  lookupBy Property.id ps q.id = none → q.data.isInst = true → stringReplaced ps r = false

/-- The properties for which the class is merged as it should be. -/
structure PropertiesMergeable (ps cs : List Property) : Prop where
  copied : ∀ a ∈ ps, a.refName = none ∧ a.data.isCopied = true
  inherited : ∀ a ∈ ps, lookupBy Property.id cs a.id = none → a.Copied ∧
    (a.data.isInst = true → ∀ q ∈ cs, stringReplaced ps q = false)
  new : ∀ q ∈ cs, lookupBy Property.id ps q.id = none → q.Copied
  later : cs.Pairwise (Undisturbed ps)
  redeclared : ∀ a ∈ ps, ∀ q ∈ cs, a.id = q.id → Redeclared a q

instance (old new : List Qualifier) : Decidable (QualifiersAgree old new) :=
  inferInstanceAs (Decidable (∀ a ∈ old, ∀ b ∈ new, a.key = b.key → a.data = b.data))

instance (p : Property) : Decidable p.Copied :=
  decidable_of_iff (p.refName = none ∧ p.data.isCopied = true ∧ p.key = false ∧
      p.embeddedObject = p.data.isInst)
    ⟨fun h => ⟨h.1, h.2.1, h.2.2.1, h.2.2.2⟩, fun h => ⟨h.1, h.2, h.3, h.4⟩⟩

instance (a q : Property) : Decidable (Redeclared a q) :=
  decidable_of_iff (q.refName = none ∧ a.data.replacedBy q.data = true ∧
      (q.key = false ∧ a.key = false) ∧ (q.embeddedObject || a.embeddedObject) = a.data.isInst ∧
      QualifiersAgree a.qualifiers q.qualifiers)
    ⟨fun h => ⟨h.1, h.2.1, h.2.2.1, h.2.2.2.1, h.2.2.2.2⟩, fun h => ⟨h.1, h.2, h.3, h.4, h.5⟩⟩

instance (ps : List Property) (q r : Property) : Decidable (Undisturbed ps q r) :=
  inferInstanceAs (Decidable (lookupBy Property.id ps q.id = none → q.data.isInst = true →
    stringReplaced ps r = false))

instance (ps cs : List Property) : Decidable (PropertiesMergeable ps cs) :=
  decidable_of_iff
    ((∀ a ∈ ps, a.refName = none ∧ a.data.isCopied = true) ∧
      (∀ a ∈ ps, lookupBy Property.id cs a.id = none → a.Copied ∧
        (a.data.isInst = true → ∀ q ∈ cs, stringReplaced ps q = false)) ∧
      (∀ q ∈ cs, lookupBy Property.id ps q.id = none → q.Copied) ∧
      cs.Pairwise (Undisturbed ps) ∧
      ∀ a ∈ ps, ∀ q ∈ cs, a.id = q.id → Redeclared a q)
    ⟨fun h => ⟨h.1, h.2.1, h.2.2.1, h.2.2.2.1, h.2.2.2.2⟩, fun h => ⟨h.1, h.2, h.3, h.4, h.5⟩⟩

/-- The names of properties and qualifiers differ, and no qualifier is one of those that are
bits. -/
structure PropertiesWellFormed (ps : List Property) : Prop where
  nodup : (ps.map Property.id).Nodup
  qualifiers : ∀ p ∈ ps, (p.qualifiers.map Qualifier.key).Nodup
  ordinary : ∀ p ∈ ps, ∀ q ∈ p.qualifiers, q.isOrdinary = true

section Merged

variable {ps cs ms : List Property} {a p q m : Property} {old new s : List Qualifier}

theorem qualifiersMerged_addQualifiers (hold : (old.map Qualifier.key).Nodup)
    (hnew : (new.map Qualifier.key).Nodup) :
    QualifiersMerged old new (addQualifiers old s) ↔
      QualifiersAgree old new ∧ SameApart old s new := by
  constructor
  · intro h
    constructor
    · intro a ha b hb hkey
      have hk := h a.key
      have hb' := lookupBy_of_mem hnew hb
      rw [← hkey] at hb'
      rw [lookupBy_addQualifiers, lookupBy_of_mem hold ha, hb'] at hk
      simpa using hk
    · intro k hk
      have hmerged := h k
      rw [lookupBy_addQualifiers, hk] at hmerged
      simpa using hmerged
  · intro h k
    obtain ⟨hagree, hsame⟩ := h
    rw [lookupBy_addQualifiers]
    cases ha : lookupBy Qualifier.key old k with
    | none => simpa using hsame k ha
    | some a =>
      cases hb : lookupBy Qualifier.key new k with
      | none => rfl
      | some b =>
        obtain ⟨hamem, hakey⟩ := mem_of_lookupBy ha
        obtain ⟨hbmem, hbkey⟩ := mem_of_lookupBy hb
        have hdata := hagree a hamem b hbmem (hakey.trans hbkey.symm)
        simp [hdata]

theorem sameApart_self (old new : List Qualifier) : SameApart old new new := fun _ _ => rfl

/-- What `cpyClass` makes of a property that is new to the class. -/
def Property.inherited (p : Property) : Property :=
  { p with refName := none, key := false, embeddedObject := p.data.isInst }

theorem stored_eq (d : Default) : d.stored = if d.isCopied then some d else none := by
  cases d <;> rfl

theorem declare_none (hp : (p.qualifiers.map Qualifier.key).Nodup) :
    declare none p =
      if p.refName = none ∧ p.data.isCopied = true then some p.inherited else none := by
  unfold declare
  rw [addQualifiers_nil hp, stored_eq]
  cases hrefName : p.refName with
  | some r => simp
  | none =>
    cases hdata : p.data.isCopied with
    | false => simp
    | true => simp [Property.inherited]

theorem inherited_eq_self_iff : p.inherited = p ↔
    p.refName = none ∧ p.key = false ∧ p.embeddedObject = p.data.isInst := by
  unfold Property.inherited
  constructor
  · intro h
    rw [← h]
    simp
  · intro ⟨hrefName, hkey, hembedded⟩
    rw [← hrefName, ← hkey, ← hembedded]

end Merged

section Stored

variable {od d x : Default} {quals b : Bool}

theorem plainType_number {base : CMPIBase} (h : isNumber base = true) :
    plainType base.simple = true := by
  revert h
  cases base <;> decide

/-- The ways in which a default is stored over another. -/
theorem storeReplace_stored (h : storeReplace od quals d = some (.stored x b)) :
    (∃ t, d = .null t ∧ x = d ∧ b = false) ∨
    (∃ s s', d = .text s ∧ od = .text s' ∧ x = d.assigned ∧ b = true) ∨
    (∃ s s', d = .date s ∧ od = .date s' ∧ x = d ∧ b = true) ∨
    (∃ s t, d = .date s ∧ od = .null t ∧ t = CMPIBase.dateTime.simple ∧ x = d ∧ b = false) ∨
    ((∀ t, d ≠ .lost t) ∧ plainType od.type = true ∧ x = d.assigned ∧ b = false) := by
  unfold storeReplace at h
  split at h
  · next type =>
    cases h
    exact .inl ⟨type, rfl, rfl, rfl⟩
  · cases h
  · next hnull hlost =>
    split at h
    · next hchars =>
      split at h
      · cases h
      · split at h
        · next s s' _ _ _ _ =>
          cases h
          exact .inr (.inl ⟨_, _, rfl, rfl, rfl, rfl⟩)
        · cases h
        · cases h
    · next hchars =>
      split at h
      · next hdate =>
        split at h
        · cases h
          exact .inr (.inr (.inl ⟨_, _, rfl, rfl, rfl, rfl⟩))
        · cases h
          exact .inr (.inr (.inr (.inl ⟨_, _, rfl, rfl, hdate, rfl, rfl⟩)))
        · cases h
        · cases h
      · next hdate =>
        split at h
        · split at h <;> cases h
        · next href =>
          split at h
          · split at h <;> cases h
          · next harray =>
            cases h
            refine .inr (.inr (.inr (.inr ⟨hlost, ?_, rfl, rfl⟩)))
            simp [plainType, hchars, hdate, href, harray]

theorem assigned_not_isInst (d : Default) : d.assigned.isInst = false := by
  cases d <;> rfl

theorem replaced_of_stored (h : storeReplace od quals d = some (.stored x b)) :
    b = (od.isText && d.isText || od.isDate && d.isDate) := by
  obtain ⟨t, rfl, -, rfl⟩ | ⟨s, s', rfl, rfl, -, rfl⟩ | ⟨s, s', rfl, rfl, -, rfl⟩ |
    ⟨s, t, rfl, rfl, -, -, rfl⟩ | ⟨-, hplain, -, rfl⟩ := storeReplace_stored h
  · simp [Default.isText, Default.isDate]
  · rfl
  · rfl
  · rfl
  · cases od with
    | text s => cases hplain
    | date s => cases hplain
    | _ => rfl

theorem not_isInst_of_stored (h : storeReplace od quals d = some (.stored x b)) :
    x.isInst = false := by
  obtain ⟨t, rfl, rfl, -⟩ | ⟨s, s', -, -, rfl, -⟩ | ⟨s, s', rfl, -, rfl, -⟩ |
    ⟨s, t, rfl, -, -, rfl, -⟩ | ⟨-, -, rfl, -⟩ := storeReplace_stored h
  · rfl
  · exact assigned_not_isInst d
  · rfl
  · rfl
  · exact assigned_not_isInst d
theorem replacedBy_of_stored (h : storeReplace od quals d = some (.stored d b)) :
    od.replacedBy d = true := by
  obtain ⟨t, rfl, -, -⟩ | ⟨s, s', rfl, -, hx, -⟩ | ⟨s, s', rfl, rfl, -, -⟩ |
    ⟨s, t, rfl, rfl, rfl, -, -⟩ | ⟨hlost, hplain, hx, -⟩ := storeReplace_stored h
  · rfl
  · cases hx
  · rfl
  · rfl
  · cases d with
    | null t => rfl
    | number base hnumber n => exact hplain
    | lost t => exact absurd rfl (hlost t)
    | _ => cases hx

theorem stored_of_replacedBy (quals : Bool) (hod : od.isCopied = true)
    (h : od.replacedBy d = true) :
    ∃ b, storeReplace od quals d = some (.stored d b) := by
  cases d with
  | null t => exact ⟨false, rfl⟩
  | number base hnumber n =>
    have hplain : plainType od.type = true := h
    simp only [plainType, decide_eq_true_eq] at hplain
    obtain ⟨hchars, hdate, href, harray⟩ := hplain
    exact ⟨false, by simp [storeReplace, hchars, hdate, href, harray, Default.assigned]⟩
  | date s =>
    have htype : od.type = CMPIBase.dateTime.simple := by simpa [Default.replacedBy] using h
    cases od with
    | null t =>
      cases htype
      exact ⟨false, rfl⟩
    | date s' => exact ⟨true, rfl⟩
    | number base hnumber n =>
      have hplain := plainType_number hnumber
      rw [show base.simple = CMPIBase.dateTime.simple from htype] at hplain
      cases hplain
    | lost t => cases hod
    | _ => cases htype
  | _ => cases h

/-- A text is stored over a text, and a date over a date. -/
theorem stored_of_strings (h : (od.isText && d.isText || od.isDate && d.isDate) = true) :
    ∃ x b, storeReplace od od.isInst d = some (.stored x b) := by
  cases od with
  | text s =>
    cases d with
    | text s' => exact ⟨_, _, rfl⟩
    | _ => cases h
  | date s =>
    cases d with
    | date s' => exact ⟨_, _, rfl⟩
    | _ => cases h
  | _ => cases h

/-- A default does not mismatch itself. -/
theorem storeReplace_self (h : od.isCopied = true) :
    storeReplace od od.isInst od ≠ some .typeMismatch := by
  cases od with
  | number base hnumber n =>
    have hplain := plainType_number hnumber
    simp only [plainType, decide_eq_true_eq] at hplain
    obtain ⟨hchars, hdate, href, harray⟩ := hplain
    simp [storeReplace, Default.type, hchars, hdate, href, harray]
  | ref s => cases h
  | array base a => cases h
  | lost t => cases h
  | _ =>
    intro hmismatch
    cases hmismatch

end Stored

section Declared

variable {ps cs ms : List Property} {a p q m : Property}

/-- What is redeclared is no instance any more. -/
theorem not_isInst_of_declare (h : declare (some a) q = some m) : m.data.isInst = false := by
  obtain ⟨-, ⟨hmismatch, rfl⟩ | ⟨data, b, hstored, rfl⟩⟩ := declare_some_cases h
  · exact not_isInst_of_typeMismatch hmismatch
  · exact not_isInst_of_stored hstored

theorem replaces_inherited (a q : Property) :
    replaces (some a.inherited) q =
      (a.data.isText && q.data.isText || a.data.isDate && q.data.isDate) := by
  have hstored : (a.data.isText && q.data.isText || a.data.isDate && q.data.isDate) = true →
      ∃ x b, storeReplace a.data (false || a.data.isInst) q.data = some (.stored x b) :=
    stored_of_strings
  unfold replaces
  dsimp only [Property.inherited]
  cases hreplace : storeReplace a.data (false || a.data.isInst) q.data with
  | none =>
    rw [eq_comm, Bool.eq_false_iff]
    intro hstrings
    obtain ⟨x, b, hx⟩ := hstored hstrings
    cases hreplace.symm.trans hx
  | some r =>
    cases r with
    | typeMismatch =>
      rw [eq_comm, Bool.eq_false_iff]
      intro hstrings
      obtain ⟨x, b, hx⟩ := hstored hstrings
      cases hreplace.symm.trans hx
    | stored data replaced => exact replaced_of_stored hreplace

theorem declare_inherited_iff (ha : a.data.isCopied = true)
    (hquals : (a.qualifiers.map Qualifier.key).Nodup)
    (hq : (q.qualifiers.map Qualifier.key).Nodup) :
    (∃ m, declare (some a.inherited) q = some m ∧ PropertyDeclared (some a) q m) ↔
      Redeclared a q := by
  have hagree : QualifiersMerged a.qualifiers q.qualifiers
      (addQualifiers a.qualifiers q.qualifiers) ↔ QualifiersAgree a.qualifiers q.qualifiers := by
    rw [qualifiersMerged_addQualifiers hquals hq, and_iff_left (sameApart_self _ _)]
  constructor
  · intro ⟨m, hm, hdeclared⟩
    obtain ⟨hrefName, ⟨hmismatch, rfl⟩ | ⟨data, b, hstored, rfl⟩⟩ := declare_some_cases hm
    · have hdata : a.data = q.data := hdeclared.data
      rw [← hdata] at hmismatch
      exact absurd hmismatch (storeReplace_self ha)
    · have hdata : data = q.data := hdeclared.data
      have hkey : false = (q.key || a.key) := hdeclared.key
      rw [hdata] at hstored
      exact {
        refName := hrefName
        data := replacedBy_of_stored hstored
        key := by simpa using hkey.symm
        embeddedObject := hdeclared.embeddedObject.symm
        qualifiers := hagree.mp hdeclared.qualifiers }
  · intro h
    obtain ⟨b, hstored⟩ := stored_of_replacedBy a.data.isInst ha h.data
    refine ⟨{ a.inherited with
      data := q.data, qualifiers := addQualifiers a.qualifiers q.qualifiers }, ?_, ?_⟩
    · simp [declare, h.refName, Property.inherited, hstored]
    · exact {
        data := rfl
        refName := h.refName.symm
        key := by simp [Property.inherited, h.key]
        embeddedObject := h.embeddedObject.symm
        qualifiers := hagree.mpr h.qualifiers }

theorem cutIf_data_eq_iff (p : Property) (b : Bool) :
    (p.cutIf b).data = p.data ↔ (p.data.isInst = true → b = false) := by
  cases b with
  | false => simp [Property.cutIf]
  | true =>
    unfold Property.cutIf Property.cut
    cases hinst : p.data.isInst with
    | false => simp
    | true =>
      simp only [if_true]
      constructor
      · intro hlost
        rw [← hlost] at hinst
        cases hinst
      · intro hfalse
        cases hfalse trivial

/-- Only the default is cut. -/
theorem cutIf_eq (p : Property) (b : Bool) : p.cutIf b = { p with data := (p.cutIf b).data } := by
  unfold Property.cutIf Property.cut
  split
  · split <;> rfl
  · rfl

theorem cutIf_inherited_eq_iff (hrefName : a.refName = none) (hdata : a.data.isCopied = true)
    (b : Bool) :
    a.inherited.cutIf b = a ↔ a.Copied ∧ (a.data.isInst = true → b = false) := by
  have hcut := cutIf_data_eq_iff a.inherited b
  constructor
  · intro h
    rw [cutIf_eq] at h
    have hkept : (a.inherited.cutIf b).data = a.data := by
      have hfields := congrArg Property.data h
      exact hfields
    refine ⟨⟨hrefName, hdata, ?_, ?_⟩, hcut.mp hkept⟩
    · exact (congrArg Property.key h).symm
    · exact (congrArg Property.embeddedObject h).symm
  · intro ⟨hcopied, hinst⟩
    rw [cutIf_eq, hcut.mpr hinst]
    exact inherited_eq_self_iff.mpr ⟨hrefName, hcopied.key, hcopied.embeddedObject⟩

/-- A property that is new to the class. -/
theorem declare_none_iff (hq : (q.qualifiers.map Qualifier.key).Nodup) (b : Bool) :
    (∃ m, (declare none q).map (Property.cutIf b) = some m ∧ PropertyDeclared none q m) ↔
      q.Copied ∧ (q.data.isInst = true → b = false) := by
  have hcut := cutIf_data_eq_iff q.inherited b
  rw [declare_none hq]
  split
  · next hstored =>
    constructor
    · intro hexists
      obtain ⟨m, hm, hdeclared⟩ := hexists
      cases hm
      rw [cutIf_eq] at hdeclared
      refine ⟨⟨hstored.1, hstored.2, ?_, ?_⟩, hcut.mp hdeclared.data⟩
      · have hkey : false = (q.key || false) := hdeclared.key
        simpa using hkey.symm
      · have hembedded : q.data.isInst = (q.embeddedObject || false) := hdeclared.embeddedObject
        simpa using hembedded.symm
    · intro h
      obtain ⟨hcopied, hinst⟩ := h
      refine ⟨_, rfl, ?_⟩
      rw [cutIf_eq, hcut.mpr hinst,
        inherited_eq_self_iff.mpr ⟨hstored.1, hcopied.key, hcopied.embeddedObject⟩]
      exact {
        data := rfl
        refName := rfl
        key := by simp
        embeddedObject := by simp
        qualifiers := fun k => by simp }
  · next hnot =>
    constructor
    · intro hexists
      obtain ⟨m, hm, -⟩ := hexists
      cases hm
    · intro h
      exact absurd ⟨h.1.refName, h.1.data⟩ hnot

end Declared

/-! ## The superclass and then the class -/

section Stages

variable {ps p₁ cs ms : List Property} {a q : Property} {n : CStr}

theorem replacesIn_nil (p : Property) : replacesIn [] p = false := rfl

/-- The superclass is copied to an empty class. -/
theorem lookupBy_cpyProperties_nil (hps : PropertiesWellFormed ps)
    (h : cpyProperties [] ps = some p₁) (n : CStr) :
    lookupBy Property.id p₁ n = (lookupBy Property.id ps n).map Property.inherited := by
  cases ha : lookupBy Property.id ps n with
  | none => rw [lookupBy_cpyProperties_of_not_mem hps.nodup h (lookupBy_eq_none_iff.mp ha)]; rfl
  | some a =>
    obtain ⟨hmem, rfl⟩ := mem_of_lookupBy ha
    have hsome := (cpyProperties_isSome hps.nodup).mp (by rw [h]; rfl) a hmem
    obtain ⟨l, r, rfl⟩ := List.append_of_mem hmem
    rw [lookupBy_cpyProperties_append hps.nodup h]
    have hany : r.any (replacesIn []) = false := by simp [replacesIn_nil]
    rw [lookupBy_nil, declare_none (hps.qualifiers a hmem)] at hsome
    rw [hany, lookupBy_nil, declare_none (hps.qualifiers a hmem)]
    split
    · rfl
    · next hnot => rw [if_neg hnot] at hsome; cases hsome

theorem cpyProperties_nil_isSome (hps : PropertiesWellFormed ps) :
    (cpyProperties [] ps).isSome ↔ ∀ a ∈ ps, a.refName = none ∧ a.data.isCopied = true := by
  rw [cpyProperties_isSome hps.nodup]
  refine forall₂_congr fun a ha => ?_
  rw [lookupBy_nil, declare_none (hps.qualifiers a ha)]
  split
  · next hstored => simp [hstored]
  · next hnot => simp [hnot]

theorem replacesIn_cpyProperties_nil (hps : PropertiesWellFormed ps)
    (h : cpyProperties [] ps = some p₁) (q : Property) :
    replacesIn p₁ q = stringReplaced ps q := by
  rw [replacesIn, lookupBy_cpyProperties_nil hps h, stringReplaced]
  cases lookupBy Property.id ps q.id with
  | none => rfl
  | some a => exact replaces_inherited a q

/-- The properties of the superclass that the class does not declare. -/
theorem inherited_iff (hps : PropertiesWellFormed ps) (hcs : PropertiesWellFormed cs)
    (hcopied : ∀ a ∈ ps, a.refName = none ∧ a.data.isCopied = true)
    (h₁ : cpyProperties [] ps = some p₁) (h₂ : cpyProperties p₁ cs = some ms) :
    (∀ n, lookupBy Property.id cs n = none →
        lookupBy Property.id ms n = lookupBy Property.id ps n) ↔
      ∀ a ∈ ps, lookupBy Property.id cs a.id = none → a.Copied ∧
        (a.data.isInst = true → ∀ q ∈ cs, stringReplaced ps q = false) := by
  have hany : cs.any (replacesIn p₁) = false ↔ ∀ q ∈ cs, stringReplaced ps q = false := by
    simp [replacesIn_cpyProperties_nil hps h₁]
  have hlookup : ∀ n, lookupBy Property.id cs n = none → lookupBy Property.id ms n =
      ((lookupBy Property.id ps n).map Property.inherited).map
        (Property.cutIf (cs.any (replacesIn p₁))) := by
    intro n hn
    rw [lookupBy_cpyProperties_of_not_mem hcs.nodup h₂ (lookupBy_eq_none_iff.mp hn),
      lookupBy_cpyProperties_nil hps h₁]
  constructor
  · intro h a ha hnone
    have hread := h a.id hnone
    rw [hlookup a.id hnone, lookupBy_of_mem hps.nodup ha, Option.map_some, Option.map_some,
      Option.some.injEq, cutIf_inherited_eq_iff (hcopied a ha).1 (hcopied a ha).2, hany] at hread
    exact hread
  · intro h n hnone
    rw [hlookup n hnone]
    cases ha : lookupBy Property.id ps n with
    | none => rfl
    | some a =>
      obtain ⟨hmem, rfl⟩ := mem_of_lookupBy ha
      rw [Option.map_some, Option.map_some, Option.some.injEq,
        cutIf_inherited_eq_iff (hcopied a hmem).1 (hcopied a hmem).2, hany]
      exact h a hmem hnone

/-- A property that the class declares; `r` are those behind it. -/
theorem declared_iff {l r : List Property} (hps : PropertiesWellFormed ps)
    (hcs : PropertiesWellFormed (l ++ q :: r))
    (hcopied : ∀ a ∈ ps, a.refName = none ∧ a.data.isCopied = true)
    (h₁ : cpyProperties [] ps = some p₁) (h₂ : cpyProperties p₁ (l ++ q :: r) = some ms) :
    (∃ m, lookupBy Property.id ms q.id = some m ∧
        PropertyDeclared (lookupBy Property.id ps q.id) q m) ↔
      (lookupBy Property.id ps q.id = none → q.Copied ∧
        (q.data.isInst = true → ∀ s ∈ r, stringReplaced ps s = false)) ∧
      ∀ a ∈ ps, a.id = q.id → Redeclared a q := by
  have hany : r.any (replacesIn p₁) = false ↔ ∀ s ∈ r, stringReplaced ps s = false := by
    simp [replacesIn_cpyProperties_nil hps h₁]
  have hq : (q.qualifiers.map Qualifier.key).Nodup := hcs.qualifiers q (by simp)
  rw [lookupBy_cpyProperties_append hcs.nodup h₂, lookupBy_cpyProperties_nil hps h₁]
  cases ha : lookupBy Property.id ps q.id with
  | none =>
    have hnone : ∀ a ∈ ps, a.id ≠ q.id := by
      intro a ha' heq
      exact lookupBy_eq_none_iff.mp ha (heq ▸ List.mem_map_of_mem ha')
    rw [Option.map_none, declare_none_iff hq, hany]
    constructor
    · intro h
      exact ⟨fun _ => h, fun a ha' heq => absurd heq (hnone a ha')⟩
    · intro h
      exact h.1 rfl
  | some a =>
    obtain ⟨hmem, hid⟩ := mem_of_lookupBy ha
    have hcut : (declare (some a.inherited) q).map (Property.cutIf (r.any (replacesIn p₁))) =
        declare (some a.inherited) q := by
      cases hm : declare (some a.inherited) q with
      | none => rfl
      | some m =>
        have hinst := not_isInst_of_declare hm
        rw [Option.map_some, cutIf_eq, (cutIf_data_eq_iff m _).mpr (by simp [hinst])]
    have hunique : ∀ b ∈ ps, b.id = q.id → b = a := by
      intro b hb heq
      have hlookup := lookupBy_of_mem hps.nodup hb
      rw [heq, ha] at hlookup
      exact (Option.some.inj hlookup).symm
    rw [Option.map_some, hcut, declare_inherited_iff (hcopied a hmem).2 (hps.qualifiers a hmem) hq]
    constructor
    · intro h
      constructor
      · intro hnone
        cases hnone
      · intro b hb heq
        rw [hunique b hb heq]
        exact h
    · intro h
      exact h.2 a hmem hid

theorem pairwise_iff_append {α : Type} {R : α → α → Prop} {l : List α} :
    l.Pairwise R ↔ ∀ l₁ a l₂, l = l₁ ++ a :: l₂ → ∀ b ∈ l₂, R a b := by
  constructor
  · intro h l₁ a l₂ heq b hb
    subst heq
    rw [List.pairwise_append, List.pairwise_cons] at h
    exact h.2.1.1 b hb
  · intro h
    induction l with
    | nil => exact List.Pairwise.nil
    | cons a l ih =>
      refine List.Pairwise.cons (h [] a l rfl) (ih ?_)
      intro l₁ b l₂ heq
      exact h (a :: l₁) b l₂ (by rw [heq]; rfl)

/-- The class can be copied behind the superclass. -/
theorem PropertiesMergeable.isSome (h : PropertiesMergeable ps cs) (hps : PropertiesWellFormed ps)
    (hcs : PropertiesWellFormed cs) (h₁ : cpyProperties [] ps = some p₁) :
    (cpyProperties p₁ cs).isSome := by
  rw [cpyProperties_isSome hcs.nodup]
  intro q hq
  rw [lookupBy_cpyProperties_nil hps h₁]
  cases ha : lookupBy Property.id ps q.id with
  | none =>
    have hcopied := h.new q hq ha
    simp [declare_none (hcs.qualifiers q hq), hcopied.refName, hcopied.data]
  | some a =>
    obtain ⟨hmem, hid⟩ := mem_of_lookupBy ha
    obtain ⟨m, hm, -⟩ := (declare_inherited_iff (h.copied a hmem).2 (hps.qualifiers a hmem)
      (hcs.qualifiers q hq)).mpr (h.redeclared a hmem q hq hid)
    simp [hm]

/-- For which properties `mergeParents` does what it should. -/
theorem propertiesMerged_iff (hps : PropertiesWellFormed ps) (hcs : PropertiesWellFormed cs) :
    (∃ p₁ ms, cpyProperties [] ps = some p₁ ∧ cpyProperties p₁ cs = some ms ∧
        PropertiesMerged ps cs ms) ↔ PropertiesMergeable ps cs := by
  constructor
  · intro ⟨p₁, ms, h₁, h₂, hmerged⟩
    have hcopied := (cpyProperties_nil_isSome hps).mp (by rw [h₁]; rfl)
    have hdeclared : ∀ l q r, cs = l ++ q :: r →
        (lookupBy Property.id ps q.id = none → q.Copied ∧
          (q.data.isInst = true → ∀ s ∈ r, stringReplaced ps s = false)) ∧
        ∀ a ∈ ps, a.id = q.id → Redeclared a q := by
      intro l q r heq
      subst heq
      have hq : q ∈ l ++ q :: r := by simp
      exact (declared_iff hps hcs hcopied h₁ h₂).mp (hmerged.declared q hq)
    exact {
      copied := hcopied
      inherited := (inherited_iff hps hcs hcopied h₁ h₂).mp hmerged.inherited
      new := by
        intro q hq hnone
        obtain ⟨l, r, heq⟩ := List.append_of_mem hq
        exact ((hdeclared l q r heq).1 hnone).1
      later := by
        refine pairwise_iff_append.mpr ?_
        intro l q r heq s hs hnone hinst
        exact ((hdeclared l q r heq).1 hnone).2 hinst s hs
      redeclared := by
        intro a ha q hq hid
        obtain ⟨l, r, heq⟩ := List.append_of_mem hq
        exact (hdeclared l q r heq).2 a ha hid }
  · intro h
    obtain ⟨p₁, h₁⟩ := Option.isSome_iff_exists.mp
      ((cpyProperties_nil_isSome hps).mpr h.copied)
    obtain ⟨ms, h₂⟩ := Option.isSome_iff_exists.mp (h.isSome hps hcs h₁)
    refine ⟨p₁, ms, h₁, h₂, ?_, ?_, ?_⟩
    · exact nodup_cpyProperties h₂ (nodup_cpyProperties h₁ (by simp))
    · exact (inherited_iff hps hcs h.copied h₁ h₂).mpr h.inherited
    · intro q hq
      obtain ⟨l, r, rfl⟩ := List.append_of_mem hq
      refine (declared_iff hps hcs h.copied h₁ h₂).mpr ⟨?_, ?_⟩
      · intro hnone
        exact ⟨h.new q hq hnone, fun hinst s hs =>
          pairwise_iff_append.mp h.later l q r rfl s hs hnone hinst⟩
      · intro a ha hid
        exact h.redeclared a ha q hq hid

/-- The qualifiers of a property that is declared. -/
theorem qualifiers_of_declare {old : Option Property} {p q : Property}
    (h : declare old p = some q) :
    q.qualifiers = addQualifiers (old.elim [] Property.qualifiers) p.qualifiers ∨
      q.qualifiers = old.elim [] Property.qualifiers := by
  cases old with
  | none =>
    obtain ⟨data, rfl⟩ := declare_none_eq h
    exact .inl rfl
  | some old =>
    obtain ⟨-, ⟨-, rfl⟩ | ⟨data, b, -, rfl⟩⟩ := declare_some_cases h
    · exact .inr rfl
    · exact .inl rfl

theorem wellFormed_writeProperty (hps : PropertiesWellFormed ps) {p : Property}
    (hp : ∀ q ∈ p.qualifiers, q.isOrdinary = true)
    (h : declare (lookupBy Property.id ps p.id) p = some q) (b : Bool) :
    PropertiesWellFormed (writeProperty ps b q) := by
  have hmem : ∀ r ∈ writeProperty ps b q,
      (∃ a ∈ ps, r.qualifiers = a.qualifiers) ∨ r = q := by
    intro r hr
    rcases mem_writeBy hr with hr | rfl
    · obtain ⟨a, ha, rfl⟩ := List.mem_map.mp hr
      rw [cutIf_eq]
      exact .inl ⟨a, ha, rfl⟩
    · exact .inr rfl
  have hold : ((lookupBy Property.id ps p.id).elim [] Property.qualifiers |>.map
      Qualifier.key).Nodup ∧ ∀ k ∈ (lookupBy Property.id ps p.id).elim [] Property.qualifiers,
        k.isOrdinary = true := by
    cases hlookup : lookupBy Property.id ps p.id with
    | none => exact ⟨List.nodup_nil, by simp⟩
    | some a =>
      have ha := (mem_of_lookupBy hlookup).1
      exact ⟨hps.qualifiers a ha, hps.ordinary a ha⟩
  refine ⟨nodup_writeProperty hps.nodup b q, ?_, ?_⟩
  · intro r hr
    rcases hmem r hr with ⟨a, ha, heq⟩ | rfl
    · rw [heq]
      exact hps.qualifiers a ha
    · rcases qualifiers_of_declare h with heq | heq
      · rw [heq]
        exact nodup_addQualifiers hold.1 _
      · rw [heq]
        exact hold.1
  · intro r hr k hk
    rcases hmem r hr with ⟨a, ha, heq⟩ | rfl
    · exact hps.ordinary a ha k (heq ▸ hk)
    · rcases qualifiers_of_declare h with heq | heq
      · rw [heq] at hk
        rcases mem_addQualifiers hk with hk | hk
        · exact hold.2 k hk
        · exact hp k hk
      · exact hold.2 k (heq ▸ hk)

theorem wellFormed_cpyProperties (hps : PropertiesWellFormed ps)
    (hcs : ∀ p ∈ cs, ∀ q ∈ p.qualifiers, q.isOrdinary = true)
    (h : cpyProperties ps cs = some ms) : PropertiesWellFormed ms := by
  induction cs generalizing ps with
  | nil =>
    cases h
    exact hps
  | cons p cs ih =>
    rw [List.forall_mem_cons] at hcs
    obtain ⟨q, hq, hrest⟩ := Option.bind_eq_some_iff.mp h
    exact ih (wellFormed_writeProperty hps hcs.1 hq _) hcs.2 hrest

end Stages

end Sfcb.ClassMerge
