import Sfcb.ClassProvider.MergeParents

/-!
# Copied properties

What `cpyClass` makes of the properties of a class, property by property. `declare` is one
property of the target after a property of the source has been copied. A copy may also do harm
to the embedded instances among the others (`Property.cut`), so that the order of the properties
counts.
-/

namespace Sfcb.ClassMerge

open Sfcb.Lib

/-! ## Qualifiers -/

section Qualifiers

variable {qlfs new : List Qualifier} {q : Qualifier} {k : CStr}

theorem lookupBy_addClQualifier (qlfs : List Qualifier) (q : Qualifier) (k : CStr) :
    lookupBy Qualifier.key (addClQualifier qlfs q) k =
      (lookupBy Qualifier.key qlfs k).or (if q.key = k then some q else none) := by
  unfold addClQualifier
  split
  · next hsome =>
    by_cases hk : q.key = k
    · subst hk
      obtain ⟨a, ha⟩ := Option.isSome_iff_exists.mp hsome
      rw [ha]
      rfl
    · rw [if_neg hk, Option.or_none]
  · rw [lookupBy_append, lookupBy_cons, lookupBy_nil]

/-- A qualifier that is there goes before one that is added. -/
theorem lookupBy_addQualifiers (qlfs new : List Qualifier) (k : CStr) :
    lookupBy Qualifier.key (addQualifiers qlfs new) k =
      (lookupBy Qualifier.key qlfs k).or (lookupBy Qualifier.key new k) := by
  induction new generalizing qlfs with
  | nil => simp [addQualifiers]
  | cons q new ih =>
    have hstep := ih (addClQualifier qlfs q)
    rw [addQualifiers, List.foldl_cons]
    rw [addQualifiers] at hstep
    rw [hstep, lookupBy_addClQualifier, Option.or_assoc, lookupBy_cons]
    congr 1
    split <;> rfl

theorem addQualifiers_append (h : ((qlfs ++ new).map Qualifier.key).Nodup) :
    addQualifiers qlfs new = qlfs ++ new := by
  induction new generalizing qlfs with
  | nil => simp [addQualifiers]
  | cons q new ih =>
    have hnew : lookupBy Qualifier.key qlfs q.key = none := by
      rw [lookupBy_eq_none_iff]
      rw [List.map_append, List.nodup_append] at h
      exact fun hmem => h.2.2 _ hmem _ (by simp) rfl
    have hadd : addClQualifier qlfs q = qlfs ++ [q] := by simp [addClQualifier, hnew]
    rw [addQualifiers, List.foldl_cons, hadd]
    have happend : qlfs ++ q :: new = qlfs ++ [q] ++ new := by simp
    rw [happend] at h ⊢
    exact ih h

/-- Qualifiers of different names are copied as they are. -/
theorem addQualifiers_nil (h : (new.map Qualifier.key).Nodup) : addQualifiers [] new = new :=
  addQualifiers_append (by simpa using h)

theorem nodup_addQualifiers (h : (qlfs.map Qualifier.key).Nodup) (new : List Qualifier) :
    ((addQualifiers qlfs new).map Qualifier.key).Nodup := by
  induction new generalizing qlfs with
  | nil => exact h
  | cons q new ih =>
    refine ih ?_
    unfold addClQualifier
    split
    · exact h
    · next hnone =>
      rw [Option.not_isSome_iff_eq_none, lookupBy_eq_none_iff] at hnone
      rw [List.map_append, List.nodup_append]
      refine ⟨h, List.nodup_singleton _, ?_⟩
      intro a ha b hb heq
      rw [List.map_singleton, List.mem_singleton] at hb
      exact hnone (hb ▸ heq ▸ ha)

theorem mem_addQualifiers (h : q ∈ addQualifiers qlfs new) : q ∈ qlfs ∨ q ∈ new := by
  induction new generalizing qlfs with
  | nil => exact .inl h
  | cons a new ih =>
    have hadd : q ∈ addClQualifier qlfs a → q ∈ qlfs ∨ q = a := by
      intro hq
      unfold addClQualifier at hq
      split at hq
      · exact .inl hq
      · rw [List.mem_append, List.mem_singleton] at hq
        exact hq
    rcases ih h with hq | hq
    · rcases hadd hq with hq | rfl
      · exact .inl hq
      · exact .inr List.mem_cons_self
    · exact .inr (List.mem_cons_of_mem a hq)

/-- A qualifier that is kept as one: its name is none of those that are bits. -/
def Qualifier.isOrdinary (q : Qualifier) : Bool :=
  q.key ≠ fold (lit "key") ∧ q.key ≠ fold (lit "embeddedobject") ∧
    q.key ≠ fold (lit "Abstract") ∧ q.key ≠ fold (lit "Association") ∧
    q.key ≠ fold (lit "Indication")

theorem foldl_ordinary (h : ∀ q ∈ new, q.isOrdinary = true) (quals : Quals) (p : Property) :
    new.foldl clClassAddPropertyQualifierSpecial (quals, p) =
      (quals, { p with qualifiers := addQualifiers p.qualifiers new }) := by
  induction new generalizing p with
  | nil => rfl
  | cons q new ih =>
    have hq : q.isOrdinary = true := h q List.mem_cons_self
    simp only [Qualifier.isOrdinary, decide_eq_true_eq] at hq
    obtain ⟨hkey, hembedded, habstract, hassociation, hindication⟩ := hq
    have hstep : clClassAddPropertyQualifierSpecial (quals, p) q =
        (quals, { p with qualifiers := addClQualifier p.qualifiers q }) := by
      simp [clClassAddPropertyQualifierSpecial, clClassAddQualifierSpecial, hkey, hembedded,
        habstract, hassociation, hindication]
    rw [List.foldl_cons, hstep, ih fun r hr => h r (List.mem_cons_of_mem q hr)]
    rfl

end Qualifiers

/-! ## One property -/

/-- A property of the target after `p` has been copied; `old` is what was there. -/
def declare (old : Option Property) (p : Property) : Option Property :=
  if p.refName.isSome then none
  else match old with
    | none => p.data.stored.map fun data =>
        ⟨p.name, data, none, false, data.isInst, addQualifiers [] p.qualifiers⟩
    | some old =>
      match storeReplace old.data (old.key || old.embeddedObject) p.data with
      | none => none
      | some .typeMismatch => if p.qualifiers = [] then some old else none
      | some (.stored data _) =>
        some { old with data, qualifiers := addQualifiers old.qualifiers p.qualifiers }

/-- Copying `p` replaces a string. -/
def replaces (old : Option Property) (p : Property) : Bool :=
  match old with
  | none => false
  | some old =>
    match storeReplace old.data (old.key || old.embeddedObject) p.data with
    | some (.stored _ replaced) => replaced
    | _ => false

/-- A property after a string may have been replaced. -/
def Property.cutIf (replaced : Bool) (p : Property) : Property := if replaced then p.cut else p

/-- A property is written, in its place or as a new one. -/
def writeProperty (ps : List Property) (replaced : Bool) (q : Property) : List Property :=
  writeBy Property.id (ps.map (Property.cutIf replaced)) q

def Class.write (cl : Class) (replaced : Bool) (q : Property) : Class :=
  { cl with properties := writeProperty cl.properties replaced q }

/-- The properties of `cs` are copied to `ps`. -/
def cpyProperties (ps : List Property) : List Property → Option (List Property)
  | [] => some ps
  | p :: cs =>
    (declare (lookupBy Property.id ps p.id) p).bind fun q =>
      cpyProperties (writeProperty ps (replaces (lookupBy Property.id ps p.id) p) q) cs

theorem cut_id (p : Property) : p.cut.id = p.id := by
  unfold Property.cut
  split <;> rfl

theorem cutIf_id (b : Bool) (p : Property) : (p.cutIf b).id = p.id := by
  cases b with
  | false => rfl
  | true => exact cut_id p

theorem map_cutIf_false (ps : List Property) : ps.map (Property.cutIf false) = ps := List.map_id ps

theorem writeProperty_new {ps : List Property} {q : Property}
    (h : lookupBy Property.id ps q.id = none) : writeProperty ps false q = ps ++ [q] := by
  rw [writeProperty, map_cutIf_false, writeBy, h]

theorem writeProperty_old {ps : List Property} {q old : Property}
    (h : lookupBy Property.id ps q.id = some old) (b : Bool) :
    writeProperty ps b q =
      (if b then ps.map Property.cut else ps).set (place Property.id ps q.id) q := by
  rw [writeProperty, writeBy, lookupBy_map (cutIf_id b), h, place_map (cutIf_id b)]
  cases b with
  | false => rw [map_cutIf_false]; rfl
  | true => rfl

theorem declare_none_eq {p q : Property} (h : declare none p = some q) :
    ∃ data, q = ⟨p.name, data, none, false, data.isInst, addQualifiers [] p.qualifiers⟩ := by
  unfold declare at h
  split at h
  · cases h
  · obtain ⟨data, -, rfl⟩ := Option.map_eq_some_iff.mp h
    exact ⟨data, rfl⟩

/-- The ways in which a property is redeclared. -/
theorem declare_some_cases {a q m : Property} (h : declare (some a) q = some m) :
    q.refName = none ∧
    ((storeReplace a.data (a.key || a.embeddedObject) q.data = some .typeMismatch ∧ m = a) ∨
      ∃ data b, storeReplace a.data (a.key || a.embeddedObject) q.data = some (.stored data b) ∧
        m = { a with data, qualifiers := addQualifiers a.qualifiers q.qualifiers }) := by
  unfold declare at h
  split at h
  · cases h
  · next hrefName =>
    refine ⟨by simpa using hrefName, ?_⟩
    dsimp only at h
    split at h
    · cases h
    · next hmismatch =>
      split at h
      · cases h
        exact .inl ⟨hmismatch, rfl⟩
      · cases h
    · next data b hstored =>
      cases h
      exact .inr ⟨data, b, hstored, rfl⟩

theorem declare_id {old : Option Property} {p q : Property} (h : declare old p = some q)
    (hold : ∀ o, old = some o → o.id = p.id) : q.id = p.id := by
  cases old with
  | none =>
    obtain ⟨data, rfl⟩ := declare_none_eq h
    rfl
  | some o =>
    obtain ⟨-, ⟨-, rfl⟩ | ⟨data, b, -, rfl⟩⟩ := declare_some_cases h
    · exact hold q rfl
    · exact hold o rfl

theorem cpyProperty_eq {p : Property} (hordinary : ∀ q ∈ p.qualifiers, q.isOrdinary = true)
    (cl : Class) : cl.cpyProperty p =
      (declare (lookupBy Property.id cl.properties p.id) p).map
        (cl.write (replaces (lookupBy Property.id cl.properties p.id) p)) := by
  unfold Class.cpyProperty declare replaces
  split
  · rfl
  · cases hold : lookupBy Property.id cl.properties p.id with
    | none =>
      cases hdata : p.data.stored with
      | none => rfl
      | some data =>
        have hid : lookupBy Property.id cl.properties (Property.id ⟨p.name, data, none, false,
            data.isInst, addQualifiers [] p.qualifiers⟩) = none := hold
        simp [foldl_ordinary hordinary, Class.write, writeProperty_new hid]
    | some old =>
      have hid : old.id = p.id := (mem_of_lookupBy hold).2
      dsimp only
      cases hreplace : storeReplace old.data (old.key || old.embeddedObject) p.data with
      | none => rfl
      | some r =>
        cases r with
        | typeMismatch =>
          have hwrite : writeProperty cl.properties false old = cl.properties := by
            rw [← hid] at hold
            exact (writeProperty_old hold false).trans (set_place_self hold)
          dsimp only
          split
          · simp [Class.write, hwrite]
          · rfl
        | stored data replaced =>
          have hplace : Property.id { old with
            data, qualifiers := addQualifiers old.qualifiers p.qualifiers } = p.id := hid
          rw [← hplace] at hold
          simp [foldl_ordinary hordinary, Class.write, writeProperty_old hold, hplace]

/-- The class is copied to property by property. -/
theorem each_cpyProperty {cs : List Property}
    (hordinary : ∀ p ∈ cs, ∀ q ∈ p.qualifiers, q.isOrdinary = true) (cl : Class) :
    Class.each Class.cpyProperty cl cs =
      (cpyProperties cl.properties cs).map fun ps => { cl with properties := ps } := by
  induction cs generalizing cl with
  | nil => rfl
  | cons p cs ih =>
    rw [Class.each, cpyProperty_eq (hordinary p List.mem_cons_self), cpyProperties]
    cases declare (lookupBy Property.id cl.properties p.id) p with
    | none => rfl
    | some q => exact ih (fun r hr => hordinary r (List.mem_cons_of_mem p hr)) _

/-! ## Cut instances -/

theorem cut_cut (p : Property) : p.cut.cut = p.cut := by
  unfold Property.cut
  split
  · rfl
  · simp

theorem map_cutIf (old : Option Property) (a b : Bool) :
    (old.map (Property.cutIf a)).map (Property.cutIf b) = old.map (Property.cutIf (a || b)) := by
  cases old with
  | none => rfl
  | some p =>
    cases a with
    | false => rfl
    | true =>
      cases b with
      | false => rfl
      | true =>
        simp [Property.cutIf, cut_cut]

theorem storeReplace_cut (p : Property) (quals : Bool) (d : Default) :
    storeReplace p.cut.data quals d = storeReplace p.data quals d := by
  unfold Property.cut
  split
  · next h =>
    cases hdata : p.data with
    | inst bytes => cases d <;> rfl
    | _ => simp [hdata, Default.isInst] at h
  · rfl

theorem not_isInst_of_typeMismatch {od d : Default} {quals : Bool}
    (h : storeReplace od quals d = some .typeMismatch) : od.isInst = false := by
  cases od with
  | inst bytes => cases d <;> cases h
  | _ => rfl

theorem cut_of_not_isInst {p : Property} (h : p.data.isInst = false) : p.cut = p := by
  simp [Property.cut, h]

theorem cut_bits (p : Property) :
    (p.cut.key || p.cut.embeddedObject) = (p.key || p.embeddedObject) := by
  unfold Property.cut
  split <;> rfl

theorem declare_cut (old p : Property) : declare (some old.cut) p = declare (some old) p := by
  unfold declare
  split
  · rfl
  · dsimp only
    rw [cut_bits, storeReplace_cut]
    cases hreplace : storeReplace old.data (old.key || old.embeddedObject) p.data with
    | none => rfl
    | some r =>
      cases r with
      | typeMismatch => rw [cut_of_not_isInst (not_isInst_of_typeMismatch hreplace)]
      | stored data replaced =>
        dsimp only
        unfold Property.cut
        split <;> rfl

theorem replaces_cut (old p : Property) : replaces (some old.cut) p = replaces (some old) p := by
  unfold replaces
  dsimp only
  rw [cut_bits, storeReplace_cut]

theorem declare_cutIf (old : Option Property) (b : Bool) (p : Property) :
    declare (old.map (Property.cutIf b)) p = declare old p := by
  cases old with
  | none => rfl
  | some old =>
    cases b with
    | false => rfl
    | true => exact declare_cut old p

theorem replaces_cutIf (old : Option Property) (b : Bool) (p : Property) :
    replaces (old.map (Property.cutIf b)) p = replaces old p := by
  cases old with
  | none => rfl
  | some old =>
    cases b with
    | false => rfl
    | true => exact replaces_cut old p

/-! ## Many properties -/

/-- Copying `p` to a class with the properties `ps` replaces a string. -/
def replacesIn (ps : List Property) (p : Property) : Bool :=
  replaces (lookupBy Property.id ps p.id) p

section Run

variable {ps ps' cs : List Property} {p q : Property} {n : CStr} {b : Bool}

theorem lookupBy_writeProperty (ps : List Property) (b : Bool) (q : Property) (n : CStr) :
    lookupBy Property.id (writeProperty ps b q) n =
      if n = q.id then some q else (lookupBy Property.id ps n).map (Property.cutIf b) := by
  rw [writeProperty, lookupBy_writeBy, lookupBy_map (cutIf_id b)]

theorem nodup_writeProperty (h : (ps.map Property.id).Nodup) (b : Bool) (q : Property) :
    ((writeProperty ps b q).map Property.id).Nodup := by
  refine nodup_writeBy ?_ q
  rw [List.map_map]
  have hkeys : ps.map (Property.id ∘ Property.cutIf b) = ps.map Property.id :=
    List.map_congr_left fun a _ => cutIf_id b a
  rw [hkeys]
  exact h

/-- What is read after `p` has been copied. -/
theorem lookupBy_declared (h : declare (lookupBy Property.id ps p.id) p = some q) (n : CStr) :
    lookupBy Property.id (writeProperty ps (replacesIn ps p) q) n =
      if n = p.id then some q
      else (lookupBy Property.id ps n).map (Property.cutIf (replacesIn ps p)) := by
  have hid : q.id = p.id := declare_id h fun o ho => (mem_of_lookupBy ho).2
  rw [lookupBy_writeProperty, hid]

theorem lookupBy_declared_of_ne (h : declare (lookupBy Property.id ps p.id) p = some q)
    (hn : n ≠ p.id) :
    lookupBy Property.id (writeProperty ps (replacesIn ps p) q) n =
      (lookupBy Property.id ps n).map (Property.cutIf (replacesIn ps p)) := by
  rw [lookupBy_declared h, if_neg hn]

/-- Neither what a later property is declared as nor whether it replaces a string depends on
what came before. -/
theorem declared_later (h : declare (lookupBy Property.id ps p.id) p = some q)
    (hcs : p.id ∉ cs.map Property.id) : ∀ r ∈ cs,
      declare (lookupBy Property.id (writeProperty ps (replacesIn ps p) q) r.id) r =
          declare (lookupBy Property.id ps r.id) r ∧
        replacesIn (writeProperty ps (replacesIn ps p) q) r = replacesIn ps r := by
  intro r hr
  have hne : r.id ≠ p.id := fun heq => hcs (heq ▸ List.mem_map_of_mem hr)
  have hlookup := lookupBy_declared_of_ne h hne
  constructor
  · rw [hlookup, declare_cutIf]
  · rw [replacesIn, hlookup, replaces_cutIf]
    rfl

theorem any_replacesIn_later (h : declare (lookupBy Property.id ps p.id) p = some q)
    (hcs : p.id ∉ cs.map Property.id) :
    cs.any (replacesIn (writeProperty ps (replacesIn ps p) q)) = cs.any (replacesIn ps) := by
  rw [Bool.eq_iff_iff, List.any_eq_true, List.any_eq_true]
  refine exists_congr fun r => and_congr_right fun hr => ?_
  rw [(declared_later h hcs r hr).2]

theorem cpyProperties_isSome (hcs : (cs.map Property.id).Nodup) :
    (cpyProperties ps cs).isSome ↔
      ∀ p ∈ cs, (declare (lookupBy Property.id ps p.id) p).isSome := by
  induction cs generalizing ps with
  | nil => simp [cpyProperties]
  | cons p cs ih =>
    rw [List.map_cons, List.nodup_cons] at hcs
    rw [cpyProperties, List.forall_mem_cons]
    cases hq : declare (lookupBy Property.id ps p.id) p with
    | none => simp
    | some q =>
      rw [Option.bind_some]
      refine (ih hcs.2).trans ?_
      simp only [Option.isSome_some, true_and]
      refine forall₂_congr fun r hr => ?_
      have hlater := (declared_later hq hcs.1 r hr).1
      rw [replacesIn] at hlater
      rw [hlater]

theorem nodup_cpyProperties (h : cpyProperties ps cs = some ps')
    (hps : (ps.map Property.id).Nodup) : (ps'.map Property.id).Nodup := by
  induction cs generalizing ps with
  | nil =>
    cases h
    exact hps
  | cons p cs ih =>
    obtain ⟨q, -, hrest⟩ := Option.bind_eq_some_iff.mp h
    exact ih hrest (nodup_writeProperty hps _ q)

/-- A property that is not copied is left as it was, or cut. -/
theorem lookupBy_cpyProperties_of_not_mem (hcs : (cs.map Property.id).Nodup)
    (h : cpyProperties ps cs = some ps') (hn : n ∉ cs.map Property.id) :
    lookupBy Property.id ps' n =
      (lookupBy Property.id ps n).map (Property.cutIf (cs.any (replacesIn ps))) := by
  induction cs generalizing ps with
  | nil =>
    cases h
    cases lookupBy Property.id ps' n <;> rfl
  | cons p cs ih =>
    rw [List.map_cons, List.nodup_cons] at hcs
    rw [List.map_cons, List.mem_cons, not_or] at hn
    obtain ⟨q, hq, hrest⟩ := Option.bind_eq_some_iff.mp h
    rw [ih hcs.2 hrest hn.2, ← replacesIn, any_replacesIn_later hq hcs.1,
      lookupBy_declared_of_ne hq hn.1, map_cutIf, List.any_cons]

/-- A property that is copied is what it is declared as, or that is cut by what comes later. -/
theorem lookupBy_cpyProperties_append {l r : List Property}
    (hcs : ((l ++ p :: r).map Property.id).Nodup)
    (h : cpyProperties ps (l ++ p :: r) = some ps') :
    lookupBy Property.id ps' p.id =
      (declare (lookupBy Property.id ps p.id) p).map
        (Property.cutIf (r.any (replacesIn ps))) := by
  induction l generalizing ps with
  | nil =>
    rw [List.nil_append, List.map_cons, List.nodup_cons] at hcs
    obtain ⟨q, hq, hrest⟩ := Option.bind_eq_some_iff.mp h
    rw [lookupBy_cpyProperties_of_not_mem hcs.2 hrest hcs.1, ← replacesIn,
      any_replacesIn_later hq hcs.1, lookupBy_declared hq, if_pos rfl, hq]
  | cons a l ih =>
    rw [List.cons_append, List.map_cons, List.nodup_cons] at hcs
    obtain ⟨q, hq, hrest⟩ := Option.bind_eq_some_iff.mp h
    have hp : p ∈ l ++ p :: r := by simp
    have hr : a.id ∉ r.map Property.id := by
      intro hmem
      exact hcs.1 (by simp [hmem])
    rw [ih hcs.2 hrest, ← replacesIn, any_replacesIn_later hq hr,
      (declared_later hq hcs.1 p hp).1]

end Run

end Sfcb.ClassMerge
