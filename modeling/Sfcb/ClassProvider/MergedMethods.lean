import Sfcb.ClassProvider.MergedProperties

/-!
# The methods of a merged class

`cpyClass` gives a method its name and its type, and takes the qualifiers and the parameters from
the source by the place that the method got in the target. The superclass is copied to an empty
class, where the two places are the same. The class is copied behind the superclass, where they
are not.

`MethodsMerged` says what is asked for, and `MethodsMergeable` which methods `mergeParents` does
it for.
-/

namespace Sfcb.ClassMerge

open Sfcb.Lib

/-! ## One method -/

/-- What `q` becomes in the target, given the place that it gets. -/
def copiedMethod (source ms : List Method) (i : Nat) (q : Method) : Option Method :=
  source[i]?.bind (cpyInto (addedMethod (lookupBy Method.id ms q.id) q))

/-- The methods of `cs` are copied to `ms`. -/
def cpyMethods (source : List Method) : List Method → List Method → Option (List Method)
  | ms, [] => some ms
  | ms, q :: cs =>
    (copiedMethod source ms (place Method.id ms q.id) q).bind fun m =>
      cpyMethods source (writeBy Method.id ms m) cs

section Copied

variable {source ms ms' cs : List Method} {q m : Method} {n : CStr} {i : Nat}

theorem cpyInto_id {newMeth meth : Method} (h : cpyInto newMeth meth = some m) :
    m.id = newMeth.id := by
  obtain ⟨parameters, -, rfl⟩ := Option.map_eq_some_iff.mp h
  rfl

theorem addedMethod_id {old : Option Method} (hold : ∀ o, old = some o → o.id = q.id) :
    (addedMethod old q).id = q.id := by
  cases old with
  | none => rfl
  | some o => exact hold o rfl

theorem copiedMethod_id (h : copiedMethod source ms i q = some m) : m.id = q.id := by
  obtain ⟨meth, -, hmeth⟩ := Option.bind_eq_some_iff.mp h
  rw [cpyInto_id hmeth]
  exact addedMethod_id fun o ho => (mem_of_lookupBy ho).2

theorem cpyMethod_eq (source : List Method) (cl : Class) (q : Method) :
    cl.cpyMethod source q =
      (copiedMethod source cl.methods (place Method.id cl.methods q.id) q).map fun m =>
        { cl with methods := writeBy Method.id cl.methods m } := by
  unfold Class.cpyMethod
  cases hmeth : source[place Method.id cl.methods q.id]? with
  | none => simp [copiedMethod, hmeth]
  | some meth =>
    have hcopied : copiedMethod source cl.methods (place Method.id cl.methods q.id) q =
        cpyInto (addedMethod (lookupBy Method.id cl.methods q.id) q) meth := by
      simp [copiedMethod, hmeth]
    rw [hcopied]
    dsimp only
    cases hm : cpyInto (addedMethod (lookupBy Method.id cl.methods q.id) q) meth with
    | none => rfl
    | some m =>
      have hid : m.id = q.id := copiedMethod_id (hcopied.trans hm)
      rw [Option.map_some, Option.map_some, writeBy, hid]
      cases lookupBy Method.id cl.methods q.id <;> rfl

/-- The class is copied to method by method. -/
theorem each_cpyMethod (source : List Method) (cl : Class) (cs : List Method) :
    Class.each (Class.cpyMethod source) cl cs =
      (cpyMethods source cl.methods cs).map fun ms => { cl with methods := ms } := by
  induction cs generalizing cl with
  | nil => rfl
  | cons q cs ih =>
    rw [Class.each, cpyMethod_eq, cpyMethods]
    cases copiedMethod source cl.methods (place Method.id cl.methods q.id) q with
    | none => rfl
    | some m => exact ih _

end Copied

/-! ## Many methods -/

/-- The methods in their places, once `cs` is copied to `ms`: first those of `ms`, then the new
ones. -/
def places (ms cs : List Method) : List Method :=
  ms ++ cs.filter fun q => (lookupBy Method.id ms q.id).isNone

section Run

variable {source ms ms' cs : List Method} {q m : Method} {n : CStr}

/-- A place does not change by what is copied before. -/
theorem places_writeBy (hq : q.id ∉ cs.map Method.id) (hm : m.id = q.id) :
    (places (writeBy Method.id ms m) cs).map Method.id = (places ms (q :: cs)).map Method.id := by
  have hfilter : (cs.filter fun r => (lookupBy Method.id (writeBy Method.id ms m) r.id).isNone) =
      cs.filter fun r => (lookupBy Method.id ms r.id).isNone := by
    refine List.filter_congr fun r hr => ?_
    have hne : r.id ≠ m.id := fun heq => hq (hm ▸ heq ▸ List.mem_map_of_mem hr)
    rw [lookupBy_writeBy, if_neg hne]
  rw [places, hfilter, List.map_append, keys_writeBy, hm, places, List.filter_cons]
  cases lookupBy Method.id ms q.id with
  | none => simp
  | some old => simp

theorem place_places_head (ms : List Method) (q : Method) (cs : List Method) :
    place Method.id (places ms (q :: cs)) q.id = place Method.id ms q.id := by
  unfold places
  cases hold : lookupBy Method.id ms q.id with
  | none =>
    rw [List.filter_cons, hold, place_eq_length hold]
    exact place_append_cons_of_none hold rfl _
  | some old => exact place_append_of_some hold _

/-- What a later method is copied as does not depend on what came before. -/
theorem copiedMethod_later (hq : q.id ∉ cs.map Method.id) (hm : m.id = q.id) (i : Nat) :
    ∀ r ∈ cs, copiedMethod source (writeBy Method.id ms m) i r = copiedMethod source ms i r := by
  intro r hr
  have hne : r.id ≠ m.id := fun heq => hq (hm ▸ heq ▸ List.mem_map_of_mem hr)
  rw [copiedMethod, lookupBy_writeBy, if_neg hne]
  rfl

theorem cpyMethods_isSome (hcs : (cs.map Method.id).Nodup) :
    (cpyMethods source ms cs).isSome ↔
      ∀ q ∈ cs, (copiedMethod source ms (place Method.id (places ms cs) q.id) q).isSome := by
  induction cs generalizing ms with
  | nil => simp [cpyMethods]
  | cons q cs ih =>
    rw [List.map_cons, List.nodup_cons] at hcs
    rw [cpyMethods, List.forall_mem_cons, place_places_head]
    cases hm : copiedMethod source ms (place Method.id ms q.id) q with
    | none => simp
    | some m =>
      have hid := copiedMethod_id hm
      rw [Option.bind_some, ih hcs.2]
      simp only [Option.isSome_some, true_and]
      refine forall₂_congr fun r hr => ?_
      rw [copiedMethod_later hcs.1 hid _ r hr, place_congr (places_writeBy hcs.1 hid)]

theorem keys_cpyMethods (hcs : (cs.map Method.id).Nodup)
    (h : cpyMethods source ms cs = some ms') :
    ms'.map Method.id = (places ms cs).map Method.id := by
  induction cs generalizing ms with
  | nil =>
    cases h
    simp [places]
  | cons q cs ih =>
    rw [List.map_cons, List.nodup_cons] at hcs
    obtain ⟨m, hm, hrest⟩ := Option.bind_eq_some_iff.mp h
    rw [ih hcs.2 hrest, places_writeBy hcs.1 (copiedMethod_id hm)]

theorem nodup_cpyMethods (h : cpyMethods source ms cs = some ms')
    (hms : (ms.map Method.id).Nodup) : (ms'.map Method.id).Nodup := by
  induction cs generalizing ms with
  | nil =>
    cases h
    exact hms
  | cons q cs ih =>
    obtain ⟨m, -, hrest⟩ := Option.bind_eq_some_iff.mp h
    exact ih hrest (nodup_writeBy hms m)

theorem lookupBy_cpyMethods_of_not_mem (h : cpyMethods source ms cs = some ms')
    (hn : n ∉ cs.map Method.id) : lookupBy Method.id ms' n = lookupBy Method.id ms n := by
  induction cs generalizing ms with
  | nil =>
    cases h
    rfl
  | cons q cs ih =>
    rw [List.map_cons, List.mem_cons, not_or] at hn
    obtain ⟨m, hm, hrest⟩ := Option.bind_eq_some_iff.mp h
    rw [ih hrest hn.2, lookupBy_writeBy, if_neg (copiedMethod_id hm ▸ hn.1)]

theorem lookupBy_cpyMethods_of_mem (hcs : (cs.map Method.id).Nodup)
    (h : cpyMethods source ms cs = some ms') (hq : q ∈ cs) :
    lookupBy Method.id ms' q.id =
      copiedMethod source ms (place Method.id (places ms cs) q.id) q := by
  induction cs generalizing ms with
  | nil => cases hq
  | cons a cs ih =>
    rw [List.map_cons, List.nodup_cons] at hcs
    obtain ⟨m, hm, hrest⟩ := Option.bind_eq_some_iff.mp h
    have hid := copiedMethod_id hm
    rcases List.mem_cons.mp hq with rfl | hq
    · rw [lookupBy_cpyMethods_of_not_mem hrest hcs.1, lookupBy_writeBy, if_pos hid.symm,
        place_places_head, hm]
    · rw [ih hcs.2 hrest hq, copiedMethod_later hcs.1 hid _ q hq,
        place_congr (places_writeBy hcs.1 hid)]

end Run

/-! ## Parameters -/

section Parameters

variable {source target ps : List Parameter}

/-- The parameters are copied to a method without any. -/
theorem cpyParameters_append
    (hquals : ∀ p ∈ ps, (p.qualifiers.map Qualifier.key).Nodup)
    (h : source = target ++ ps) : cpyParameters source target ps = some source := by
  induction ps generalizing target with
  | nil => simp [cpyParameters, h]
  | cons p ps ih =>
    have hp : source[target.length]? = some p := by simp [h]
    rw [List.forall_mem_cons] at hquals
    rw [cpyParameters, hp]
    dsimp only
    rw [addQualifiers_nil hquals.1]
    exact ih hquals.2 (by simp [h])

/-- Behind other parameters the places are not those of the source. -/
theorem cpyParameters_eq_none (hps : ps ≠ [])
    (h : source.length < target.length + ps.length) : cpyParameters source target ps = none := by
  induction ps generalizing target with
  | nil => exact absurd rfl hps
  | cons p ps ih =>
    rw [cpyParameters]
    cases hp : source[target.length]? with
    | none => rfl
    | some parm =>
      have hlt := (List.getElem?_eq_some_iff.mp hp).1
      rw [List.length_cons] at h
      refine ih ?_ ?_
      · intro hnil
        rw [hnil, List.length_nil] at h
        omega
      · rw [List.length_append, List.length_singleton]
        omega

theorem cpyParameters_eq (hquals : ∀ p ∈ source, (p.qualifiers.map Qualifier.key).Nodup) :
    cpyParameters source target source =
      if source = [] then some target else if target = [] then some source else none := by
  split
  · next hnil =>
    rw [hnil]
    rfl
  · next hsource =>
    split
    · next hnil =>
      rw [hnil]
      exact cpyParameters_append hquals (by simp)
    · next htarget =>
      have hlength := List.length_pos_of_ne_nil htarget
      exact cpyParameters_eq_none hsource (by omega)

end Parameters

/-! ## Merged methods -/

/-- A method as the class declares it. `old` is the method that is inherited. -/
structure MethodDeclared (old : Option Method) (q m : Method) : Prop where
  type : m.type = q.type
  qualifiers : QualifiersMerged (old.elim [] Method.qualifiers) q.qualifiers m.qualifiers
  parameters : m.parameters = q.parameters

/-- `ms` is what a class has that declares `cs` and inherits `ps`. -/
structure MethodsMerged (ps cs ms : List Method) : Prop where
  nodup : (ms.map Method.id).Nodup
  inherited : ∀ n, lookupBy Method.id cs n = none →
    lookupBy Method.id ms n = lookupBy Method.id ps n
  declared : ∀ q ∈ cs, ∃ m, lookupBy Method.id ms q.id = some m ∧
    MethodDeclared (lookupBy Method.id ps q.id) q m

/-- The method `s` of the class, copied over `old`, is what `q` declares. -/
structure MethodCopied (old : Option Method) (s q : Method) : Prop where
  agree : QualifiersAgree (old.elim [] Method.qualifiers) q.qualifiers
  qualifiers : SameApart (old.elim [] Method.qualifiers) s.qualifiers q.qualifiers
  parameters : s.parameters = [] ∧ old.elim [] Method.parameters = q.parameters ∨
    old.elim [] Method.parameters = [] ∧ s.parameters = q.parameters

/-- The methods for which the class is merged as it should be. -/
def MethodsMergeable (ps cs : List Method) : Prop :=
  ∀ q ∈ cs, ∃ s, cs[place Method.id (places ps cs) q.id]? = some s ∧
    MethodCopied (lookupBy Method.id ps q.id) s q

/-- The names that the two have are enough to look at. -/
theorem sameApart_iff (old s new : List Qualifier) : SameApart old s new ↔
    ∀ a ∈ s ++ new, lookupBy Qualifier.key old a.key = none →
      (lookupBy Qualifier.key s a.key).map Qualifier.data =
        (lookupBy Qualifier.key new a.key).map Qualifier.data := by
  constructor
  · intro h a _
    exact h a.key
  · intro h k hold
    cases hs : lookupBy Qualifier.key s k with
    | some a =>
      obtain ⟨hmem, rfl⟩ := mem_of_lookupBy hs
      rw [← hs]
      exact h a (List.mem_append_left _ hmem) hold
    | none =>
      cases hnew : lookupBy Qualifier.key new k with
      | none => rfl
      | some a =>
        obtain ⟨hmem, rfl⟩ := mem_of_lookupBy hnew
        rw [← hs, ← hnew]
        exact h a (List.mem_append_right _ hmem) hold

instance (old s new : List Qualifier) : Decidable (SameApart old s new) :=
  decidable_of_iff _ (sameApart_iff old s new).symm

instance (old : Option Method) (s q : Method) : Decidable (MethodCopied old s q) :=
  decidable_of_iff (QualifiersAgree (old.elim [] Method.qualifiers) q.qualifiers ∧
      SameApart (old.elim [] Method.qualifiers) s.qualifiers q.qualifiers ∧
      (s.parameters = [] ∧ old.elim [] Method.parameters = q.parameters ∨
        old.elim [] Method.parameters = [] ∧ s.parameters = q.parameters))
    ⟨fun h => ⟨h.1, h.2.1, h.2.2⟩, fun h => ⟨h.1, h.2, h.3⟩⟩

instance (ps cs : List Method) : Decidable (MethodsMergeable ps cs) :=
  inferInstanceAs (Decidable (∀ q ∈ cs, ∃ s ∈ cs[place Method.id (places ps cs) q.id]?,
    MethodCopied (lookupBy Method.id ps q.id) s q))

/-- The names of methods and qualifiers differ. -/
structure MethodsWellFormed (ms : List Method) : Prop where
  nodup : (ms.map Method.id).Nodup
  qualifiers : ∀ m ∈ ms, (m.qualifiers.map Qualifier.key).Nodup
  parameters : ∀ m ∈ ms, ∀ p ∈ m.parameters, (p.qualifiers.map Qualifier.key).Nodup

section Merged

variable {ps m₁ cs ms : List Method} {s q m : Method} {old : Option Method}

theorem addedMethod_eq (old : Option Method) (q : Method) :
    (addedMethod old q).type = q.type ∧
      (addedMethod old q).qualifiers = old.elim [] Method.qualifiers ∧
      (addedMethod old q).parameters = old.elim [] Method.parameters := by
  cases old with
  | none => exact ⟨rfl, rfl, rfl⟩
  | some old => exact ⟨rfl, rfl, rfl⟩

theorem cpyInto_iff (hold : ∀ o, old = some o → (o.qualifiers.map Qualifier.key).Nodup)
    (hq : (q.qualifiers.map Qualifier.key).Nodup)
    (hs : ∀ p ∈ s.parameters, (p.qualifiers.map Qualifier.key).Nodup) :
    (∃ m, cpyInto (addedMethod old q) s = some m ∧ MethodDeclared old q m) ↔
      MethodCopied old s q := by
  obtain ⟨htype, hqualifiers, hparameters⟩ := addedMethod_eq old q
  have hquals : ((old.elim [] Method.qualifiers).map Qualifier.key).Nodup := by
    cases old with
    | none => exact List.nodup_nil
    | some o => exact hold o rfl
  have hmerged := qualifiersMerged_addQualifiers hquals hq (s := s.qualifiers)
  unfold cpyInto
  rw [cpyParameters_eq hs, hparameters, hqualifiers]
  constructor
  · intro ⟨m, hm, hdeclared⟩
    obtain ⟨parameters, hparams, rfl⟩ := Option.map_eq_some_iff.mp hm
    obtain ⟨hagree, hsame⟩ := hmerged.mp hdeclared.qualifiers
    have hdeclaredParams : parameters = q.parameters := hdeclared.parameters
    refine ⟨hagree, hsame, ?_⟩
    split at hparams
    · next hnil => exact .inl ⟨hnil, (Option.some.inj hparams).trans hdeclaredParams⟩
    · split at hparams
      · next hnil => exact .inr ⟨hnil, (Option.some.inj hparams).trans hdeclaredParams⟩
      · cases hparams
  · intro h
    have hparams : (if s.parameters = [] then some (old.elim [] Method.parameters)
        else if old.elim [] Method.parameters = [] then some s.parameters else none) =
        some q.parameters := by
      obtain ⟨hnil, heq⟩ | ⟨hnil, heq⟩ := h.parameters
      · rw [if_pos hnil, heq]
      · rw [if_pos hnil, heq, hnil]
        split
        · next hq' => rw [hq']
        · rfl
    rw [hparams]
    refine ⟨_, rfl, htype, ?_, rfl⟩
    exact hmerged.mpr ⟨h.agree, h.qualifiers⟩

/-- A method of the superclass is copied to an empty class as it is. -/
theorem cpyInto_new (hq : (q.qualifiers.map Qualifier.key).Nodup)
    (hparams : ∀ p ∈ q.parameters, (p.qualifiers.map Qualifier.key).Nodup) :
    cpyInto (addedMethod none q) q = some q := by
  have hcopied : cpyParameters q.parameters (addedMethod none q).parameters q.parameters =
      some q.parameters := cpyParameters_append hparams rfl
  rw [cpyInto, hcopied, Option.map_some]
  simp [addedMethod, addQualifiers_nil hq]

theorem places_nil (ps : List Method) : places [] ps = ps := by simp [places]

theorem copiedMethod_new (h : MethodsWellFormed ps) (hq : q ∈ ps) :
    copiedMethod ps [] (place Method.id (places [] ps) q.id) q = some q := by
  rw [copiedMethod, places_nil, getElem?_place, lookupBy_of_mem h.nodup hq]
  exact cpyInto_new (h.qualifiers q hq) (h.parameters q hq)

/-- The superclass is copied to an empty class. -/
theorem cpyMethods_nil (h : MethodsWellFormed ps) :
    ∃ m₁, cpyMethods ps [] ps = some m₁ ∧ m₁.map Method.id = ps.map Method.id ∧
      ∀ n, lookupBy Method.id m₁ n = lookupBy Method.id ps n := by
  have hsome : (cpyMethods ps [] ps).isSome := by
    rw [cpyMethods_isSome h.nodup]
    intro q hq
    rw [copiedMethod_new h hq]
    rfl
  obtain ⟨m₁, h₁⟩ := Option.isSome_iff_exists.mp hsome
  refine ⟨m₁, h₁, ?_, ?_⟩
  · rw [keys_cpyMethods h.nodup h₁, places_nil]
  · intro n
    cases hq : lookupBy Method.id ps n with
    | none => exact lookupBy_cpyMethods_of_not_mem h₁ (lookupBy_eq_none_iff.mp hq)
    | some q =>
      obtain ⟨hmem, rfl⟩ := mem_of_lookupBy hq
      rw [lookupBy_cpyMethods_of_mem h.nodup h₁ hmem, copiedMethod_new h hmem]

/-- The class is copied behind the superclass. -/
theorem copiedMethod_behind (hkeys : m₁.map Method.id = ps.map Method.id)
    (hlookup : ∀ n, lookupBy Method.id m₁ n = lookupBy Method.id ps n) (q : Method) :
    copiedMethod cs m₁ (place Method.id (places m₁ cs) q.id) q =
      cs[place Method.id (places ps cs) q.id]?.bind
        (cpyInto (addedMethod (lookupBy Method.id ps q.id) q)) := by
  have hplaces : (places m₁ cs).map Method.id = (places ps cs).map Method.id := by
    simp only [places, List.map_append, hkeys, hlookup]
  rw [copiedMethod, place_congr hplaces, hlookup]

theorem declaredMethod_iff (hps : MethodsWellFormed ps) (hcs : MethodsWellFormed cs) (hq : q ∈ cs) :
    (∃ m, cs[place Method.id (places ps cs) q.id]?.bind
          (cpyInto (addedMethod (lookupBy Method.id ps q.id) q)) = some m ∧
        MethodDeclared (lookupBy Method.id ps q.id) q m) ↔
      ∃ s, cs[place Method.id (places ps cs) q.id]? = some s ∧
        MethodCopied (lookupBy Method.id ps q.id) s q := by
  cases hs : cs[place Method.id (places ps cs) q.id]? with
  | none => simp
  | some s =>
    have hmem : s ∈ cs := List.mem_of_getElem? hs
    rw [Option.bind_some, cpyInto_iff (fun o ho => hps.qualifiers o (mem_of_lookupBy ho).1)
      (hcs.qualifiers q hq) (hcs.parameters s hmem)]
    simp

/-- For which methods `mergeParents` does what it should. -/
theorem methodsMerged_iff (hps : MethodsWellFormed ps) (hcs : MethodsWellFormed cs) :
    (∃ m₁ ms, cpyMethods ps [] ps = some m₁ ∧ cpyMethods cs m₁ cs = some ms ∧
        MethodsMerged ps cs ms) ↔ MethodsMergeable ps cs := by
  obtain ⟨m₁, h₁, hkeys, hlookup⟩ := cpyMethods_nil hps
  constructor
  · intro ⟨m₁', ms, h₁', h₂, hmerged⟩ q hq
    cases h₁.symm.trans h₁'
    obtain ⟨m, hm, hdeclared⟩ := hmerged.declared q hq
    rw [lookupBy_cpyMethods_of_mem hcs.nodup h₂ hq, copiedMethod_behind hkeys hlookup] at hm
    exact (declaredMethod_iff hps hcs hq).mp ⟨m, hm, hdeclared⟩
  · intro h
    have hsome : (cpyMethods cs m₁ cs).isSome := by
      rw [cpyMethods_isSome hcs.nodup]
      intro q hq
      obtain ⟨m, hm, -⟩ := (declaredMethod_iff hps hcs hq).mpr (h q hq)
      rw [copiedMethod_behind hkeys hlookup, hm]
      rfl
    obtain ⟨ms, h₂⟩ := Option.isSome_iff_exists.mp hsome
    refine ⟨m₁, ms, h₁, h₂, ?_, ?_, ?_⟩
    · exact nodup_cpyMethods h₂ (hkeys ▸ hps.nodup)
    · intro n hn
      rw [lookupBy_cpyMethods_of_not_mem h₂ (lookupBy_eq_none_iff.mp hn), hlookup]
    · intro q hq
      rw [lookupBy_cpyMethods_of_mem hcs.nodup h₂ hq, copiedMethod_behind hkeys hlookup]
      exact (declaredMethod_iff hps hcs hq).mpr (h q hq)

theorem nodup_cpyParameters {source target rest params : List Parameter}
    (htarget : ∀ p ∈ target, (p.qualifiers.map Qualifier.key).Nodup)
    (h : cpyParameters source target rest = some params) :
    ∀ p ∈ params, (p.qualifiers.map Qualifier.key).Nodup := by
  induction rest generalizing target with
  | nil =>
    cases h
    exact htarget
  | cons p rest ih =>
    rw [cpyParameters] at h
    split at h
    · cases h
    · next parm _ =>
      refine ih ?_ h
      intro r hr
      rw [List.mem_append, List.mem_singleton] at hr
      rcases hr with hr | rfl
      · exact htarget r hr
      · exact nodup_addQualifiers (by simp) _

theorem wellFormed_copiedMethod {source : List Method} (hms : MethodsWellFormed ms) {i : Nat}
    (h : copiedMethod source ms i q = some m) :
    (m.qualifiers.map Qualifier.key).Nodup ∧
      ∀ p ∈ m.parameters, (p.qualifiers.map Qualifier.key).Nodup := by
  obtain ⟨meth, -, hmeth⟩ := Option.bind_eq_some_iff.mp h
  obtain ⟨parameters, hparams, rfl⟩ := Option.map_eq_some_iff.mp hmeth
  obtain ⟨-, hqualifiers, hparameters⟩ := addedMethod_eq (lookupBy Method.id ms q.id) q
  rw [hparameters] at hparams
  dsimp only
  rw [hqualifiers]
  cases hold : lookupBy Method.id ms q.id with
  | none =>
    rw [hold] at hparams
    exact ⟨nodup_addQualifiers (by simp) _, nodup_cpyParameters (by simp) hparams⟩
  | some old =>
    have hmem := (mem_of_lookupBy hold).1
    rw [hold] at hparams
    exact ⟨nodup_addQualifiers (hms.qualifiers old hmem) _,
      nodup_cpyParameters (hms.parameters old hmem) hparams⟩

theorem wellFormed_cpyMethods {source : List Method} (hms : MethodsWellFormed ms)
    (h : cpyMethods source ms cs = some m₁) : MethodsWellFormed m₁ := by
  induction cs generalizing ms with
  | nil =>
    cases h
    exact hms
  | cons q cs ih =>
    obtain ⟨m, hm, hrest⟩ := Option.bind_eq_some_iff.mp h
    obtain ⟨hquals, hparams⟩ := wellFormed_copiedMethod hms hm
    refine ih ⟨nodup_writeBy hms.nodup m, ?_, ?_⟩ hrest
    · intro r hr
      rcases mem_writeBy hr with hr | rfl
      · exact hms.qualifiers r hr
      · exact hquals
    · intro r hr
      rcases mem_writeBy hr with hr | rfl
      · exact hms.parameters r hr
      · exact hparams

end Merged

end Sfcb.ClassMerge
