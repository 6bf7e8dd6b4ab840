import Sfcb.FileRepository.FiniteMap
import Sfcb.Cmpi.Status

/-!
# The qualifier declarations of a namespace

The qualifier provider keeps the declarations as blobs of a class called `qualifiers`,
under their names. `getBlob` looks a name up in any case there; the test for a name, the
deletion and the addition take it as it is spelled. `declarations_follow_iff` says what
comes of that: requests behave like those to a map whose keys have no case exactly as
long as each spells its name as it is spelled in the store.

Mirroring notes:
- A declaration is its name and the bytes `getSerializedQualifier` writes for it.
- The requests are for one namespace, and it exists: `testNameSpace` has passed.
- Outcomes `none` are those of the repository.
-/

namespace Sfcb.QualifierProvider

open Sfcb.Lib Sfcb.Cmpi Sfcb.FileRepository

/-! ## The provider -/

/-- `qualrep`. -/
def qualrep : CStr := lit "qualifiers"

/-- `CMPIQualifierDecl`. -/
structure QualifierDecl where
  name : CStr
  serialized : List UInt8
  deriving DecidableEq, Repr

/-- `QualifierProviderGetQualifier`, with the declaration it returns. -/
def getQualifier (r : Repository) (fs : Files) (qns : CStr) :
    Option (CMPIrc × Option (List UInt8)) :=
  match getBlob r fs qns with
  | none => none
  | some none => some (.ERR_NOT_FOUND, none)
  | some (some blob) => some (.OK, some blob)

/-- `QualifierProviderSetQualifier`. -/
def setQualifier (r : Repository) (fs : Files) (qual : QualifierDecl) : Option (Files × CMPIrc) :=
  match existingBlob r fs qual.name with
  | none => none
  | some existing =>
    -- first delete it
    match if existing then (deleteBlob r fs qual.name).map Prod.fst else some fs with
    | none => none
    | some fs =>
      (addBlob r fs qual.name qual.serialized).map fun p =>
        (p.1, if p.2 ≠ 0 then .ERR_FAILED else .OK)

/-- `QualifierProviderDeleteQualifier`. -/
def deleteQualifier (r : Repository) (fs : Files) (qns : CStr) : Option (Files × CMPIrc) :=
  match existingBlob r fs qns with
  | none => none
  | some false => some (fs, .ERR_NOT_FOUND)
  | some true => (deleteBlob r fs qns).map fun p => (p.1, .OK)

/-- The requests that write. -/
inductive Request where
  | set (qual : QualifierDecl)
  | delete (qns : CStr)
  deriving DecidableEq, Repr

/-- The name a request is about. -/
def Request.name : Request → CStr
  | .set qual => qual.name
  | .delete qns => qns

/-- The files and the code a request leaves. -/
def serve (r : Repository) (fs : Files) : Request → Option (Files × CMPIrc)
  | .set qual => setQualifier r fs qual
  | .delete qns => deleteQualifier r fs qns

/-! ## The map -/

/-- The declarations by name, in lower case. -/
abbrev DeclMap := CStr → Option (List UInt8)

/-- The map after a request. -/
def DeclMap.apply (q : DeclMap) : Request → DeclMap
  | .set qual => fun k => if k = fold qual.name then some qual.serialized else q k
  | .delete qns => fun k => if k = fold qns then none else q k

/-- What `GetQualifier` is to return. -/
def DeclMap.answer (q : DeclMap) (qns : CStr) : CMPIrc × Option (List UInt8) :=
  match q (fold qns) with
  | none => (.ERR_NOT_FOUND, none)
  | some decl => (.OK, some decl)

/-- The files read as the map. The conditions on lengths keep the size of the index in
the range of an `int`. -/
structure Reads (r : Repository) (fs : Files) (q : DeclMap) : Prop where
  get : ∀ qns, qns ≠ [] → indexLength r fs + r.elen qns < 2 ^ 31 →
    getQualifier r fs qns = some (q.answer qns)
  /-- a name is there once, in whatever case -/
  single : ∀ elen, 0 < elen → indexLength r fs + elen < 2 ^ 31 →
    ∃ vs, enumerate r fs elen = some vs ∧ (vs.map fun v => fold v.keyb).Nodup

/-- Every step of a run meets `p`. -/
def RequestsMeet (r : Repository) (p : Files → Request → Prop) : Files → List Request → Prop
  | _, [] => True
  | fs, req :: reqs =>
    p fs req ∧
      match serve r fs req with
      | none => True
      | some (fs', _) => RequestsMeet r p fs' reqs

/-- A run goes through, and the files read as the map in every state of it. -/
def Follows (r : Repository) : Files → DeclMap → List Request → Prop
  | fs, q, [] => Reads r fs q
  | fs, q, req :: reqs =>
    Reads r fs q ∧
      ∃ fs' rc, serve r fs req = some (fs', rc) ∧ Follows r fs' (q.apply req) reqs

/-- Names and declarations as clients send them, in sizes the repository is made for. -/
def Request.InDomain (r : Repository) (fs : Files) (req : Request) : Prop :=
  ValidId req.name ∧ indexLength r fs + r.elen req.name < 2 ^ 31 ∧
    match req with
    | .set qual =>
      qual.serialized ≠ [] ∧
        (recordBody qual.name qual.serialized.length (fs.content r.fnd).length).length < 1000 ∧
        (fs.content r.fnd).length + qual.serialized.length < 2 ^ 31
    | .delete _ => True

/-- Where the name is stored, it is stored in this spelling. -/
def Request.SpelledAsStored (r : Repository) (fs : Files) (req : Request) : Prop :=
  ∀ stored, existingBlob r fs stored = some true → fold stored = fold req.name →
    stored = req.name

instance (r : Repository) (fs : Files) : (req : Request) → Decidable (req.InDomain r fs)
  | .set _ => inferInstanceAs (Decidable (_ ∧ _ ∧ _ ∧ _ ∧ _))
  | .delete _ => inferInstanceAs (Decidable (_ ∧ _ ∧ True))

instance decidableRequestsMeet (r : Repository) (p : Files → Request → Prop)
    [∀ fs req, Decidable (p fs req)] : ∀ fs reqs, Decidable (RequestsMeet r p fs reqs)
  | _, [] => isTrue trivial
  | fs, req :: reqs =>
    have : Decidable (match serve r fs req with
        | none => True
        | some (fs', _) => RequestsMeet r p fs' reqs) :=
      match serve r fs req with
      | none => isTrue trivial
      | some (fs', _) => decidableRequestsMeet r p fs' reqs
    inferInstanceAs (Decidable (p fs req ∧ _))

/-! ## Steps -/

/-- The files hold the declarations of the map, each name once. -/
structure Keeps (r : Repository) (fs : Files) (items : List Item) (q : DeclMap) : Prop where
  holds : Holds r fs items
  single : (items.map fun it => fold it.id).Nodup
  decls : ∀ k decl, q k = some decl ↔ ∃ it ∈ items, fold it.id = k ∧ it.blob = decl

section Steps

variable {r : Repository} {fs : Files} {items : List Item} {q : DeclMap}

/-- `GetQualifier` finds a name in any case. -/
theorem Keeps.get (h : Keeps r fs items q) (hcls : r.cls = qualrep) {qns : CStr}
    (hqns : qns ≠ []) (hfits : indexLength r fs + r.elen qns < 2 ^ 31) :
    getQualifier r fs qns = some (q.answer qns) := by
  have hcase : r.ignorecase = true := by
    show (strcmp (lit "qualifiers") r.cls == 0) = true
    rw [hcls]
    rfl
  have hsame : ∀ it : Item, SameKey r.ignorecase qns it.id ↔ fold qns = fold it.id := by
    intro it
    rw [hcase]
    exact Iff.rfl
  unfold getQualifier DeclMap.answer
  cases hq : q (fold qns) with
  | none =>
    rw [h.holds.getBlob_absent hqns hfits]
    intro it hit hname
    have hstored := (h.decls (fold qns) it.blob).mpr ⟨it, hit, ((hsame it).mp hname).symm, rfl⟩
    rw [hq] at hstored
    exact absurd hstored (by simp)
  | some decl =>
    obtain ⟨it, hit, hname, rfl⟩ := (h.decls _ _).mp hq
    obtain ⟨as, bs, rfl⟩ := List.append_of_mem hit
    have hsingle := h.single
    rw [List.map_append, List.map_cons, List.nodup_append] at hsingle
    rw [h.holds.getBlob_found hfits ((hsame it).mpr hname.symm)]
    intro a ha hother
    refine hsingle.2.2 _ (List.mem_map_of_mem ha) _ List.mem_cons_self ?_
    rw [hname, ← (hsame a).mp hother]

theorem Keeps.reads (h : Keeps r fs items q) (hcls : r.cls = qualrep) : Reads r fs q := by
  refine ⟨fun qns hqns hfits => h.get hcls hqns hfits, fun elen hpos hfits => ?_⟩
  obtain ⟨vs, hvs, hpairs, -⟩ := h.holds.enumerate_eq hpos hfits
  refine ⟨vs, hvs, ?_⟩
  have hkeys := congrArg (List.map fold) (map_keyb_eq hpairs)
  rw [List.map_map, List.map_map] at hkeys
  rw [show (vs.map fun v => fold v.keyb) = vs.map (fold ∘ Visit.keyb) from rfl, hkeys]
  exact h.single

/-- A request that spells its name as it is stored: the entries with that name are those
with that spelling. -/
theorem mem_iff_of_spelled (h : Holds r fs items) {req : Request} (hreq : req.InDomain r fs)
    (hspelled : req.SpelledAsStored r fs) {it : Item} (hit : it ∈ items) :
    fold it.id = fold req.name ↔ it.id = req.name := by
  constructor
  · intro hname
    refine hspelled it.id ?_ hname
    have hlen : it.id.length = req.name.length := by
      have := congrArg List.length hname
      rwa [fold, fold, List.length_map, List.length_map] at this
    have hid : it.id ≠ [] := by
      intro hnil
      rw [hnil] at hlen
      exact hreq.1.nonempty (List.length_eq_zero_iff.mp hlen.symm)
    have helen : r.elen it.id = r.elen req.name := by
      unfold Repository.elen
      rw [hlen]
    rw [h.existingBlob_mem hid (by rw [helen]; exact hreq.2.1),
      decide_eq_true (List.mem_map_of_mem hit)]
  · intro hname
    rw [hname]

/-- The entries without a name are the map without it. -/
theorem Keeps.decls_without (h : Keeps r fs items q) {qns : CStr}
    (hname : ∀ it ∈ items, fold it.id = fold qns ↔ it.id = qns) (k : CStr) (decl : List UInt8) :
    (if k = fold qns then none else q k) = some decl ↔
      ∃ it ∈ without qns items, fold it.id = k ∧ it.blob = decl := by
  constructor
  · intro hk
    split at hk
    · exact absurd hk (by simp)
    · next hne =>
      obtain ⟨it, hit, rfl, rfl⟩ := (h.decls k decl).mp hk
      have hother : it.id ≠ qns := fun heq => hne ((hname it hit).mpr heq)
      exact ⟨it, List.mem_filter.mpr ⟨hit, bne_iff_ne.mpr hother⟩, rfl, rfl⟩
  · rintro ⟨it, hit, rfl, rfl⟩
    obtain ⟨hit, hother⟩ := List.mem_filter.mp hit
    rw [if_neg (fun heq => bne_iff_ne.mp hother ((hname it hit).mp heq))]
    exact (h.decls _ _).mpr ⟨it, hit, rfl, rfl⟩

theorem Keeps.delete (h : Keeps r fs items q) {qns : CStr}
    (hname : ∀ it ∈ items, fold it.id = fold qns ↔ it.id = qns) {fs' : Files}
    (hholds : Holds r fs' (without qns items)) :
    Keeps r fs' (without qns items) (q.apply (.delete qns)) :=
  ⟨hholds, h.single.sublist (List.filter_sublist.map _), h.decls_without hname⟩

theorem Keeps.set (h : Keeps r fs items q) {qual : QualifierDecl}
    (hname : ∀ it ∈ items, fold it.id = fold qual.name ↔ it.id = qual.name) {fs' : Files}
    {new : Item} (hid : new.id = qual.name) (hblob : new.blob = qual.serialized)
    (hholds : Holds r fs' (without qual.name items ++ [new])) :
    Keeps r fs' (without qual.name items ++ [new]) (q.apply (.set qual)) := by
  have hdecls := h.decls_without hname
  refine ⟨hholds, ?_, fun k decl => ?_⟩
  · rw [List.map_append, List.nodup_append]
    refine ⟨h.single.sublist (List.filter_sublist.map _), by simp, ?_⟩
    intro a ha b hb hab
    obtain ⟨it, hit, rfl⟩ := List.mem_map.mp ha
    obtain ⟨hit, hother⟩ := List.mem_filter.mp hit
    rw [List.map_singleton, List.mem_singleton, hid] at hb
    rw [hb] at hab
    exact bne_iff_ne.mp hother ((hname it hit).mp hab)
  · show (if k = fold qual.name then some qual.serialized else q k) = some decl ↔ _
    by_cases hk : k = fold qual.name
    · subst hk
      rw [if_pos rfl, Option.some.injEq]
      constructor
      · rintro rfl
        exact ⟨new, by simp, by rw [hid], hblob⟩
      · rintro ⟨it, hit, hfold, rfl⟩
        rcases List.mem_append.mp hit with hit | hit
        · obtain ⟨hit, hother⟩ := List.mem_filter.mp hit
          exact absurd ((hname it hit).mp hfold) (bne_iff_ne.mp hother)
        · rw [List.mem_singleton.mp hit, hblob]
    · have hkey := hdecls k decl
      rw [if_neg hk] at hkey ⊢
      rw [hkey]
      constructor
      · rintro ⟨it, hit, heq⟩
        exact ⟨it, List.mem_append_left _ hit, heq⟩
      · rintro ⟨it, hit, hfold, hdecl⟩
        rcases List.mem_append.mp hit with hit | hit
        · exact ⟨it, hit, hfold, hdecl⟩
        · rw [List.mem_singleton.mp hit, hid] at hfold
          exact absurd hfold.symm hk

theorem not_clashes (hcls : r.cls = qualrep) : ¬ r.Clashes := by
  unfold Repository.Clashes
  rw [hcls]
  decide

/-- Without an entry the files are not longer. -/
theorem Holds.length_without (h : Holds r fs items) {fs' : Files} {id : CStr}
    (h' : Holds r fs' (without id items)) :
    indexLength r fs' ≤ indexLength r fs ∧
      (blobs (without id items)).length ≤ (blobs items).length := by
  rw [h.indexLength_eq, h'.indexLength_eq, length_texts h.placed, length_texts h'.placed]
  by_cases hmem : id ∈ items.map Item.id
  · obtain ⟨as, it, bs, rfl, rfl, -, hwithout⟩ := split_of_mem h.nodup hmem
    rw [hwithout]
    simp only [List.map_append, List.map_cons, List.sum_append, List.sum_cons, blobs_append,
      blobs_cons, List.length_append]
    omega
  · rw [without_of_not_mem hmem]
    exact ⟨Nat.le_refl _, Nat.le_refl _⟩

/-- What `deleteBlob` or nothing leaves when a name is to be set. -/
theorem clear_holds (h : Holds r fs items) (hcls : r.cls = qualrep) {qns : CStr}
    (hqns : qns ≠ []) (hfits : indexLength r fs + r.elen qns < 2 ^ 31) :
    ∃ fs', (if decide (qns ∈ items.map Item.id) then (deleteBlob r fs qns).map Prod.fst
        else some fs) = some fs' ∧ Holds r fs' (without qns items) := by
  by_cases hmem : qns ∈ items.map Item.id
  · obtain ⟨fs', rc, hrun, hholds⟩ := deleteBlob_holds h hqns hfits
      (fun hclash => absurd hclash (not_clashes hcls))
    refine ⟨fs', ?_, hholds⟩
    rw [if_pos (decide_eq_true hmem), hrun]
    rfl
  · refine ⟨fs, if_neg (by simpa using hmem), ?_⟩
    rw [without_of_not_mem hmem]
    exact h

/-- Setting a name: the entry with this spelling goes, and the new one is added. -/
theorem setQualifier_holds (h : Holds r fs items) (hcls : r.cls = qualrep) {qual : QualifierDecl}
    (hreq : (Request.set qual).InDomain r fs) :
    ∃ fs' new, setQualifier r fs qual = some (fs', .OK) ∧ new.id = qual.name ∧
      new.blob = qual.serialized ∧ new.size < r.elen qual.name ∧
      Holds r fs' (without qual.name items ++ [new]) := by
  obtain ⟨(hid : ValidId qual.name), (hfits : indexLength r fs + r.elen qual.name < 2 ^ 31),
    hblob, hsize, hsmall⟩ := hreq
  obtain ⟨fs₁, hclear, h₁⟩ := clear_holds h hcls hid.nonempty hfits
  obtain ⟨hindex, hdata⟩ := Holds.length_without h h₁
  rw [h.content_fnd] at hsize hsmall
  let new := newItem (without qual.name items) qual.name qual.serialized
  -- the offset of the new blob has no more digits than the old end of the data
  have hok : new.Ok := by
    refine ⟨hid, hblob, show qual.serialized.length < 2 ^ 31 by omega, ?_⟩
    have hsizes : new.size ≤ (newItem items qual.name qual.serialized).size := by
      have := length_numeral_mono (show 2 ≤ 10 by omega) hdata
      unfold Item.size
      show _ + (numeral 10 (blobs (without qual.name items)).length).length + 2
        ≤ _ + (numeral 10 (blobs items).length).length + 2
      exact Nat.add_le_add_right (Nat.add_le_add_left this _) _
    rw [← length_recordBody (newItem items qual.name qual.serialized) rfl] at hsizes
    exact Nat.lt_of_le_of_lt hsizes hsize
  have hwithout : without qual.name (without qual.name items) = without qual.name items :=
    without_of_not_mem (not_mem_without _ _)
  obtain ⟨fs', hrun, hholds⟩ := addBlob_holds h₁ hok
    (Nat.lt_of_le_of_lt (Nat.add_le_add_right hindex _) hfits)
    (by
      rw [hwithout, blobs_append, List.length_append, blobs_cons, blobs_nil, List.append_nil]
      show _ + qual.serialized.length < _
      omega)
    (fun hclash => absurd hclash (not_clashes hcls))
  rw [hwithout] at hholds
  refine ⟨fs', new, ?_, rfl, rfl, newItem_size r (Nat.lt_of_le_of_lt hdata h.small) hok, hholds⟩
  unfold setQualifier
  rw [h.existingBlob_mem hid.nonempty hfits]
  simp only [hclear, hrun]
  rfl

/-- Deleting a name: the entry with this spelling goes, if there is one. -/
theorem deleteQualifier_holds (h : Holds r fs items) (hcls : r.cls = qualrep) {qns : CStr}
    (hqns : qns ≠ []) (hfits : indexLength r fs + r.elen qns < 2 ^ 31) :
    ∃ fs' rc, deleteQualifier r fs qns = some (fs', rc) ∧ Holds r fs' (without qns items) := by
  have hexisting := h.existingBlob_mem hqns hfits
  unfold deleteQualifier
  by_cases hmem : qns ∈ items.map Item.id
  · obtain ⟨fs', rc, hrun, hholds⟩ := deleteBlob_holds h hqns hfits
      (fun hclash => absurd hclash (not_clashes hcls))
    refine ⟨fs', .OK, ?_, hholds⟩
    simp only [hexisting, decide_eq_true hmem, hrun, Option.map_some]
  · refine ⟨fs, .ERR_NOT_FOUND, ?_, ?_⟩
    · simp only [hexisting, decide_eq_false hmem]
    · rw [without_of_not_mem hmem]
      exact h

/-- A request that spells its name as it is stored does to the files what it says. -/
theorem serve_keeps (h : Keeps r fs items q) (hcls : r.cls = qualrep) {req : Request}
    (hreq : req.InDomain r fs) (hspelled : req.SpelledAsStored r fs) :
    ∃ fs' rc items', serve r fs req = some (fs', rc) ∧ Keeps r fs' items' (q.apply req) := by
  have hname : ∀ it ∈ items, fold it.id = fold req.name ↔ it.id = req.name :=
    fun it hit => mem_iff_of_spelled h.holds hreq hspelled hit
  cases req with
  | set qual =>
    obtain ⟨fs', new, hrun, hid, hblob, -, hholds⟩ := setQualifier_holds h.holds hcls hreq
    exact ⟨fs', .OK, _, hrun, h.set hname hid hblob hholds⟩
  | delete qns =>
    obtain ⟨fs', rc, hrun, hholds⟩ := deleteQualifier_holds h.holds hcls hreq.1.nonempty hreq.2.1
    exact ⟨fs', rc, _, hrun, h.delete hname hholds⟩

/-- A request that spells a name differently meets only the other spelling. -/
theorem Keeps.stored_of_misspelled (h : Keeps r fs items q) {req : Request}
    (hreq : req.InDomain r fs) (hspelled : ¬ req.SpelledAsStored r fs) :
    ∃ stored, stored ∈ items.map Item.id ∧ fold stored = fold req.name ∧
      req.name ∉ items.map Item.id := by
  unfold Request.SpelledAsStored at hspelled
  simp only [Classical.not_forall] at hspelled
  obtain ⟨stored, hexisting, hname, hne⟩ := hspelled
  have hlen : stored.length = req.name.length := by
    have := congrArg List.length hname
    rwa [fold, fold, List.length_map, List.length_map] at this
  have hid : stored ≠ [] := by
    rintro rfl
    exact hreq.1.nonempty (List.length_eq_zero_iff.mp hlen.symm)
  have helen : r.elen stored = r.elen req.name := by
    unfold Repository.elen
    rw [hlen]
  rw [h.holds.existingBlob_mem hid (by rw [helen]; exact hreq.2.1)] at hexisting
  have hthere := of_decide_eq_true (Option.some.inj hexisting)
  refine ⟨stored, hthere, hname, fun hmem => hne ?_⟩
  obtain ⟨a, ha, rfl⟩ := List.mem_map.mp hthere
  obtain ⟨b, hb, heq⟩ := List.mem_map.mp hmem
  rw [← heq] at hname ⊢
  -- entries with one folded name are one entry
  have hsingle := List.pairwise_map.mp h.single
  have hone : ∀ {x y : Item}, x ∈ items → y ∈ items → fold x.id = fold y.id → x = y := by
    intro x y hx hy
    have hforth : items.Pairwise fun x y => fold x.id = fold y.id → x = y :=
      hsingle.imp fun hne heq => absurd heq hne
    have hback : items.Pairwise (flip fun x y => fold x.id = fold y.id → x = y) :=
      hsingle.imp fun hne (heq : fold _ = fold _) => absurd heq.symm hne
    exact List.Pairwise.forall_of_forall_of_flip (fun _ _ _ => rfl) hforth hback hx hy
  rw [hone ha hb hname]

/-- After a request that spells a stored name differently the files do not read as the
map: it is not deleted, or it is there twice. -/
theorem not_reads_of_misspelled (h : Keeps r fs items q) (hcls : r.cls = qualrep)
    {req : Request} (hreq : req.InDomain r fs) (hspelled : ¬ req.SpelledAsStored r fs)
    {fs' : Files} {rc : CMPIrc} (hserve : serve r fs req = some (fs', rc)) :
    ¬ Reads r fs' (q.apply req) := by
  obtain ⟨stored, hthere, hname, hother⟩ := h.stored_of_misspelled hreq hspelled
  obtain ⟨other, hmem, rfl⟩ := List.mem_map.mp hthere
  cases req with
  | set qual =>
    obtain ⟨fs₁, new, hrun, hid, -, hsize, hholds⟩ := setQualifier_holds h.holds hcls hreq
    obtain ⟨rfl, -⟩ := Prod.mk.inj (Option.some.inj (hrun.symm.trans hserve))
    rw [show without qual.name items = items from without_of_not_mem hother] at hholds
    have hfits : indexLength r fs + r.elen qual.name < 2 ^ 31 := hreq.2.1
    have hlen : indexLength r fs₁ = indexLength r fs + new.size := by
      rw [hholds.indexLength_eq, h.holds.indexLength_eq, length_texts hholds.placed,
        length_texts h.holds.placed, List.map_append, List.sum_append, List.map_singleton,
        List.sum_singleton]
    intro hreads
    obtain ⟨vs, hvs, hnodup⟩ := hreads.single 1 Nat.one_pos (by omega)
    obtain ⟨vs', hvs', hpairs, -⟩ := hholds.enumerate_eq Nat.one_pos (by omega)
    obtain rfl := Option.some.inj (hvs.symm.trans hvs')
    -- the enumeration gives out both spellings
    have hkeys := congrArg (List.map fold) (map_keyb_eq hpairs)
    rw [List.map_map, show vs.map (fold ∘ Visit.keyb) = vs.map (fun v => fold v.keyb) from rfl]
      at hkeys
    rw [hkeys, List.map_append, List.map_append, List.nodup_append] at hnodup
    refine hnodup.2.2 _ (List.mem_map_of_mem hthere) (fold new.id) (by simp) ?_
    rw [hname, hid]
    rfl
  | delete qns =>
    have hfits : indexLength r fs + r.elen qns < 2 ^ 31 := hreq.2.1
    have hqns : qns ≠ [] := hreq.1.nonempty
    have hother : qns ∉ items.map Item.id := hother
    have hrun : serve r fs (.delete qns) = some (fs, .ERR_NOT_FOUND) := by
      unfold serve deleteQualifier
      simp only [h.holds.existingBlob_mem hqns hfits, decide_eq_false hother]
    obtain ⟨rfl, -⟩ := Prod.mk.inj (Option.some.inj (hrun.symm.trans hserve))
    intro hreads
    have hget := (h.get hcls hqns hfits).symm.trans (hreads.get qns hqns hfits)
    have hbefore : q (fold qns) = some other.blob :=
      (h.decls _ _).mpr ⟨other, hmem, hname, rfl⟩
    have hafter : q.apply (.delete qns) (fold qns) = none := if_pos rfl
    unfold DeclMap.answer at hget
    rw [hbefore, hafter] at hget
    exact absurd hget (by simp)

/-- A run from files that hold the declarations of a map. -/
theorem run_follows_iff (hcls : r.cls = qualrep) {reqs : List Request} :
    ∀ {fs : Files} {items : List Item} {q : DeclMap}, Keeps r fs items q →
      RequestsMeet r (fun fs req => req.InDomain r fs) fs reqs →
      (Follows r fs q reqs ↔ RequestsMeet r (fun fs req => req.SpelledAsStored r fs) fs reqs) := by
  induction reqs with
  | nil => exact fun h _ => iff_of_true (h.reads hcls) trivial
  | cons req reqs ih =>
    intro fs items q h hdomain
    obtain ⟨hreq, hrest⟩ := hdomain
    constructor
    · rintro ⟨-, fs', rc, hserve, hfollows⟩
      have hreads : Reads r fs' (q.apply req) := by
        cases reqs with
        | nil => exact hfollows
        | cons req' reqs => exact hfollows.1
      have hspelled : req.SpelledAsStored r fs := Classical.byContradiction fun hnot =>
        not_reads_of_misspelled h hcls hreq hnot hserve hreads
      obtain ⟨fs₁, rc₁, items', hserve', h'⟩ := serve_keeps h hcls hreq hspelled
      obtain ⟨rfl, rfl⟩ := Prod.mk.inj (Option.some.inj (hserve.symm.trans hserve'))
      refine ⟨hspelled, ?_⟩
      rw [hserve] at hrest ⊢
      exact (ih h' hrest).mp hfollows
    · rintro ⟨hspelled, hothers⟩
      obtain ⟨fs', rc, items', hserve, h'⟩ := serve_keeps h hcls hreq hspelled
      rw [hserve] at hrest hothers
      exact ⟨h.reads hcls, fs', rc, hserve, (ih h' hrest).mpr hothers⟩

end Steps

/-- For every sequence of requests from a namespace without declarations, the files read
as the map whose names have no case, exactly if each request spells its name as it is
stored at that time. -/
theorem declarations_follow_iff (r : Repository) (hcls : r.cls = qualrep) (fs : Files)
    (reqs : List Request) (hempty : fs r.fnd = none ∧ fs r.fnx = none)
    (hdomain : RequestsMeet r (fun fs req => req.InDomain r fs) fs reqs) :
    Follows r fs (fun _ => none) reqs ↔
      RequestsMeet r (fun fs req => req.SpelledAsStored r fs) fs reqs := by
  have hholds : Holds r fs [] :=
    ⟨hempty.1, hempty.2, trivial, List.nodup_nil, by rw [blobs_nil]; decide⟩
  exact run_follows_iff hcls ⟨hholds, List.nodup_nil, by simp⟩ hdomain

/-- `Key` is set, set again and deleted, and `Other` is set between. -/
theorem declarations_follow_iff_sample :
    let r : Repository := ⟨lit "/rep/", lit "root", qualrep, 0⟩
    let reqs : List Request := [.set ⟨lit "Key", lit "one"⟩, .set ⟨lit "Other", lit "two"⟩,
      .set ⟨lit "Key", lit "three"⟩, .delete (lit "Key")]
    Follows r (fun _ => none) (fun _ => none) reqs ↔
      RequestsMeet r (fun fs req => req.SpelledAsStored r fs) (fun _ => none) reqs :=
  declarations_follow_iff _ rfl _ _ ⟨rfl, rfl⟩ (by decide)

/-- `Key` is set and `KEY` deleted: the deletion finds nothing, and `GetQualifier` still
finds the declaration, in any case. -/
theorem not_declarations_follow :
    let r : Repository := ⟨lit "/rep/", lit "root", qualrep, 0⟩
    let reqs : List Request := [.set ⟨lit "Key", lit "one"⟩, .delete (lit "KEY")]
    RequestsMeet r (fun fs req => req.InDomain r fs) (fun _ => none) reqs ∧
      ¬ Follows r (fun _ => none) (fun _ => none) reqs := by
  intro r reqs
  refine ⟨by decide, ?_⟩
  rintro ⟨-, fs₁, rc₁, hset, -, fs₂, rc₂, hdelete, hlast⟩
  have hrun : ((serve r (fun _ => none) (.set ⟨lit "Key", lit "one"⟩)).bind fun p =>
      (serve r p.1 (.delete (lit "KEY"))).map fun p =>
        (decide (indexLength r p.1 + r.elen (lit "key") < 2 ^ 31),
          getQualifier r p.1 (lit "key"))) = some (true, some (.OK, some (lit "one"))) := by decide
  rw [hset, Option.bind_some, hdelete, Option.map_some] at hrun
  obtain ⟨hfits, hget⟩ := Prod.mk.inj (Option.some.inj hrun)
  have hanswer := hlast.get (lit "key") (by decide) (of_decide_eq_true hfits)
  rw [hget] at hanswer
  exact absurd hanswer (by decide)

end Sfcb.QualifierProvider
