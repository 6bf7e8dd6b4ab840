import Sfcb.FileRepository.FiniteMap

/-!
# One class beside another

All classes of a namespace share a directory, and their files are named after them:
`class` and `class.idx`. Two classes never share one of these names. What they do share
are the temporary files `idx` and `inst` of `rebuild`, which are names that a class may
have too. `isolated_iff` says exactly when an operation on one class can be seen from
another: it rewrites the files of its class, and the other class, of the same namespace,
is called `idx` or `inst` and has something to read.

Mirroring notes:
- A class name is a CIM identifier: a letter, an underscore or a byte of a multibyte
  character first, then also digits. Nothing is asked of the namespace.
- Directories are not modelled, `fopen` for writing succeeds.
-/

namespace Sfcb.FileRepository

open Sfcb.Lib

/-! ## Names -/

/-- What an identifier may begin with. -/
def isNameStart (b : UInt8) : Bool :=
  (65 ≤ b && b ≤ 90) || (97 ≤ b && b ≤ 122) || b == 95 || 128 ≤ b

/-- What it may have behind. -/
def isNameByte (b : UInt8) : Bool := isNameStart b || (48 ≤ b && b ≤ 57)

/-- A class name that CIM allows. -/
def LegalName (name : CStr) : Prop :=
  (∃ b ∈ name.head?, isNameStart b = true) ∧ ∀ b ∈ name, isNameByte b = true

instance (name : CStr) : Decidable (LegalName name) := inferInstanceAs (Decidable (_ ∧ _))

/-- Another pair of namespace and class under the same directory. -/
def Repository.Other (s r : Repository) : Prop :=
  s.repDir = r.repDir ∧ (fold s.ns ≠ fold r.ns ∨ fold s.cls ≠ fold r.cls)

instance (s r : Repository) : Decidable (s.Other r) := inferInstanceAs (Decidable (_ ∧ _))

theorem toLower_eq_of_not_letter {b c : UInt8} (hc : c < 97) (h : toLower b = c) : b = c := by
  unfold toLower at h
  split at h
  · next hupper =>
    have hle : b.toNat ≤ 90 := UInt8.le_iff_toNat_le.mp hupper.2
    have hge : 65 ≤ b.toNat := UInt8.le_iff_toNat_le.mp hupper.1
    have hlt : c.toNat < 97 := UInt8.lt_iff_toNat_lt.mp hc
    have hsum : (b + 32).toNat = c.toNat := by rw [h]
    rw [UInt8.toNat_add, show (32 : UInt8).toNat = 32 from rfl] at hsum
    omega
  · exact h

/-- Slashes and dots do not occur in the name of a file of a class. -/
theorem LegalName.not_mem_fold {name : CStr} (h : LegalName name) {c : UInt8} (hc : c < 97)
    (hbad : isNameByte c = false) : c ∉ fold name := by
  intro hmem
  obtain ⟨b, hb, heq⟩ := List.mem_map.mp hmem
  have hok := h.2 b hb
  rw [toLower_eq_of_not_letter hc heq, hbad] at hok
  exact absurd hok (by simp)

/-- A path falls apart at its last separator. -/
theorem append_sep_inj {α : Type} {sep : α} {a b x y : List α} (hx : sep ∉ x) (hy : sep ∉ y)
    (h : a ++ sep :: x = b ++ sep :: y) : a = b ∧ x = y := by
  rcases List.append_eq_append_iff.mp h with ⟨c, hc, hrest⟩ | ⟨c, hc, hrest⟩
  · cases c with
    | nil => exact ⟨by simpa using hc.symm, (List.cons.inj hrest).2⟩
    | cons d c =>
      rw [(List.cons.inj hrest).2] at hx
      exact absurd (List.mem_append_right c List.mem_cons_self) hx
  · cases c with
    | nil => exact ⟨by simpa using hc, (List.cons.inj hrest).2.symm⟩
    | cons d c =>
      rw [(List.cons.inj hrest).2] at hy
      exact absurd (List.mem_append_right c List.mem_cons_self) hy

namespace Repository

variable {r s : Repository}

theorem dir_eq (r : Repository) : r.dir = (r.repDir ++ fold r.ns) ++ [47] := by
  show r.repDir ++ (r.ns ++ [47]).map toLower = _
  rw [List.map_append, ← List.append_assoc]
  rfl

/-- Two files are the same only in one namespace and under one name. -/
theorem dir_append_inj {x y : CStr} (hx : 47 ∉ x) (hy : 47 ∉ y) (h : s.dir ++ x = r.dir ++ y) :
    s.dir = r.dir ∧ x = y := by
  have hsep : ∀ (q : Repository) (z : CStr), q.dir ++ z = (q.repDir ++ fold q.ns) ++ 47 :: z := by
    intro q z
    rw [dir_eq, List.append_assoc, List.singleton_append]
  rw [hsep, hsep] at h
  obtain ⟨hdir, hname⟩ := append_sep_inj hx hy h
  exact ⟨by rw [dir_eq, dir_eq, hdir], hname⟩

theorem fnx_eq (r : Repository) : r.fnx = r.dir ++ (fold r.cls ++ lit ".idx") := by
  show r.dir ++ fold r.cls ++ lit ".idx" = _
  rw [List.append_assoc]

/-- Names of one class's files beside those of another, by their last parts. -/
theorem Other.fold_cls_ne (h : s.Other r) (hdir : s.dir = r.dir) : fold s.cls ≠ fold r.cls := by
  have hns : fold s.ns = fold r.ns := by
    rw [dir_eq, dir_eq, h.1] at hdir
    exact List.append_cancel_left (List.append_cancel_right hdir)
  exact h.2.resolve_left (fun hne => hne hns)

variable (hs : LegalName s.cls) (hr : LegalName r.cls)

include hs in
theorem not_mem_fnx_part : 47 ∉ fold s.cls ++ lit ".idx" := by
  rw [List.mem_append, not_or]
  exact ⟨hs.not_mem_fold (by decide) (by decide), by decide⟩

include hs hr in
theorem fnd_ne_fnd (h : s.Other r) : s.fnd ≠ r.fnd := by
  intro heq
  obtain ⟨hdir, hname⟩ := dir_append_inj (hs.not_mem_fold (by decide) (by decide))
    (hr.not_mem_fold (by decide) (by decide)) heq
  exact h.fold_cls_ne hdir hname

include hs hr in
theorem fnx_ne_fnx (h : s.Other r) : s.fnx ≠ r.fnx := by
  intro heq
  rw [fnx_eq, fnx_eq] at heq
  obtain ⟨hdir, hname⟩ := dir_append_inj (not_mem_fnx_part hs) (not_mem_fnx_part hr) heq
  exact h.fold_cls_ne hdir (List.append_cancel_right hname)

include hs in
/-- The name of an index has a dot in it. -/
theorem fnx_ne_of_no_dot {x : CStr} (hslash : 47 ∉ x) (hdot : 46 ∉ x) : s.fnx ≠ r.dir ++ x := by
  intro heq
  rw [fnx_eq] at heq
  obtain ⟨-, hname⟩ := dir_append_inj (not_mem_fnx_part hs) hslash heq
  rw [← hname] at hdot
  exact hdot (List.mem_append_right _ (by decide))

end Repository

/-! ## What an operation leaves alone -/

section Frames

variable {r : Repository} {fs : Files}

/-- Only the two temporary files are written. -/
theorem rebuildData_of_ne (bi : BlobIndex) (blob : List UInt8) {n : CStr} (hx : n ≠ r.xn)
    (hd : n ≠ r.dn) : rebuildData r fs bi blob n = fs n := by
  unfold rebuildData
  refine (Files.ite_append_of_ne _ hd _ _).trans ?_
  refine (Files.ite_append_of_ne _ hd _ _).trans ?_
  refine (Files.ite_append_of_ne _ hd _ _).trans ?_
  show ((fs.put r.xn _).put r.dn _) n = _
  rw [Files.put_of_ne _ hd, Files.put_of_ne _ hx]

theorem rebuildNames_of_ne (dt xt : Nat) {n : CStr} (hfnd : n ≠ r.fnd) (hfnx : n ≠ r.fnx)
    (hx : n ≠ r.xn) (hd : n ≠ r.dn) : rebuildNames r fs dt xt n = fs n := by
  have hgone : ((fs.remove r.fnd).remove r.fnx) n = fs n := by
    show ((fs.put r.fnd none).put r.fnx none) n = _
    rw [Files.put_of_ne _ hfnx, Files.put_of_ne _ hfnd]
  have hmove : ∀ (f : Files) {tmp name : CStr} (t : Nat), n ≠ tmp → n ≠ name →
      (if t ≠ 0 then f.rename tmp name else f.remove tmp) n = f n := by
    intro f tmp name t htmp hname
    split
    · exact Files.rename_of_ne f htmp hname
    · exact Files.put_of_ne f htmp none
  exact (hmove _ xt hx hfnx).trans ((hmove _ dt hd hfnd).trans hgone)

/-- The temporary files are gone afterwards, unless they are the files of the class. -/
theorem rebuildNames_temporary (dt xt : Nat) {n : CStr} (hfnd : n ≠ r.fnd)
    (htmp : n = r.xn ∨ n = r.dn) : rebuildNames r fs dt xt n = none := by
  have hmoved : ∀ (f : Files) {name : CStr} (t : Nat), n ≠ name →
      (if t ≠ 0 then f.rename n name else f.remove n) n = none := by
    intro f name t hname
    split
    · exact Files.rename_old f hname
    · exact Files.put_self f n none
  rcases htmp with rfl | rfl
  · exact hmoved _ xt r.fnx_ne_xn.symm
  · have hx : ∀ f : Files,
        (if xt ≠ 0 then f.rename r.xn r.fnx else f.remove r.xn) r.dn = f r.dn := by
      intro f
      split
      · exact Files.rename_of_ne f r.xn_ne_dn.symm r.fnx_ne_dn.symm
      · exact Files.put_of_ne f r.xn_ne_dn.symm none
    exact (hx _).trans (hmoved _ dt hfnd)

/-- What a name stands for after `rebuild`. -/
theorem rebuild_other {bi : BlobIndex} {blob : List UInt8} {fs' : Files}
    (h : rebuild r fs bi blob = some fs') {n : CStr} (hfnd : n ≠ r.fnd) (hfnx : n ≠ r.fnx) :
    fs' n = if n = r.xn ∨ n = r.dn then none else fs n := by
  unfold rebuild at h
  split at h
  · exact absurd h (by simp)
  split at h
  · exact absurd h (by simp)
  rw [← Option.some.inj h]
  by_cases htmp : n = r.xn ∨ n = r.dn
  · rw [if_pos htmp]
    exact rebuildNames_temporary _ _ hfnd htmp
  · rw [if_neg htmp]
    obtain ⟨hx, hd⟩ := not_or.mp htmp
    refine (rebuildNames_of_ne _ _ hfnd hfnx hx hd).trans ?_
    refine (Files.ite_append_of_ne _ hx _ _).trans ?_
    refine (Files.ite_append_of_ne _ hx _ _).trans ?_
    exact rebuildData_of_ne bi blob hx hd

/-- The operation meets a blob it has to take out of the files. -/
def Op.Rewrites (r : Repository) (fs : Files) (op : Op) : Prop :=
  existingBlob r fs op.id = some true ∧ (fs r.fnd).isSome = true

instance (r : Repository) (fs : Files) (op : Op) : Decidable (op.Rewrites r fs) :=
  inferInstanceAs (Decidable (_ ∧ _))

/-- The three ways `getIndex` returns. -/
theorem getIndex_cases {elen : Nat} {mki : Bool} {fs₁ : Files} {b : Option BlobIndex}
    (h : getIndex r fs elen mki = some (fs₁, b)) :
    (fs r.fnx = none ∧ mki = false ∧ fs = fs₁ ∧ b = none) ∨
      (fs r.fnx = none ∧ mki = true ∧ fs₁ = fs.create r.fnx ∧ b = some (BlobIndex.new [] elen)) ∨
      (∃ text, fs r.fnx = some text ∧ fs = fs₁ ∧ b = some (BlobIndex.new text elen) ∧
        getIndex r fs elen false = some (fs, some (BlobIndex.new text elen))) := by
  unfold getIndex at h
  cases hfnx : fs r.fnx with
  | none =>
    simp only [hfnx] at h
    cases mki with
    | false =>
      rw [if_pos rfl] at h
      obtain ⟨rfl, rfl⟩ := Prod.mk.inj (Option.some.inj h)
      exact Or.inl ⟨rfl, rfl, rfl, rfl⟩
    | true =>
      rw [if_neg (by simp)] at h
      split at h
      · obtain ⟨rfl, rfl⟩ := Prod.mk.inj (Option.some.inj h)
        exact Or.inr (Or.inl ⟨rfl, rfl, rfl, rfl⟩)
      · exact absurd h (by simp)
  | some text =>
    simp only [hfnx] at h
    split at h
    · next hfits =>
      obtain ⟨rfl, rfl⟩ := Prod.mk.inj (Option.some.inj h)
      refine Or.inr (Or.inr ⟨text, rfl, rfl, rfl, ?_⟩)
      unfold getIndex
      simp only [hfnx, if_pos hfits]
    · exact absurd h (by simp)

theorem rewrites_of_located {op : Op} {text : CStr} {bi : BlobIndex}
    (hindex : getIndex r fs (r.elen op.id) false
      = some (fs, some (BlobIndex.new text (r.elen op.id))))
    (hlocate : indxLocate (BlobIndex.new text (r.elen op.id)) op.id = some bi)
    (hfnd : (fs r.fnd).isSome = true) : op.Rewrites r fs := by
  refine ⟨?_, hfnd⟩
  unfold existingBlob
  simp only [hindex, hlocate, Option.isSome_some]

theorem not_rewrites_of_absent {op : Op} {text : CStr}
    (hindex : getIndex r fs (r.elen op.id) false
      = some (fs, some (BlobIndex.new text (r.elen op.id))))
    (hlocate : indxLocate (BlobIndex.new text (r.elen op.id)) op.id = none) :
    ¬ op.Rewrites r fs := by
  rintro ⟨hexists, -⟩
  unfold existingBlob at hexists
  simp [hindex, hlocate] at hexists

theorem not_rewrites_of_no_index {op : Op} (hfnx : fs r.fnx = none) : ¬ op.Rewrites r fs := by
  rintro ⟨hexists, -⟩
  unfold existingBlob getIndex at hexists
  simp [hfnx] at hexists

theorem not_rewrites_of_no_data {op : Op} (hfnd : fs r.fnd = none) : ¬ op.Rewrites r fs := by
  rintro ⟨-, hthere⟩
  rw [hfnd] at hthere
  exact absurd hthere (by simp)

/-- What `addBlob` touches: it rewrites the files, or only the two of its class change. -/
theorem step_add_cases {id : CStr} {blob : List UInt8} {fs' : Files}
    (h : step r fs (.add id blob) = some fs') :
    ((Op.add id blob).Rewrites r fs ∧ ∃ bi blob, rebuild r fs bi blob = some fs') ∨
      (¬ (Op.add id blob).Rewrites r fs ∧ ∀ n, n ≠ r.fnd → n ≠ r.fnx → fs' n = fs n) := by
  obtain ⟨⟨fs₁, rc⟩, hadd, rfl⟩ := Option.map_eq_some_iff.mp h
  unfold addBlob at hadd
  split at hadd
  · exact absurd hadd (by simp)
  · next fs₀ hindex =>
    rcases getIndex_cases hindex with ⟨-, hmki, -⟩ | ⟨-, -, -, hb⟩ | ⟨text, -, -, hb, -⟩
    · exact absurd hmki (by simp)
    · exact absurd hb (by simp)
    · exact absurd hb (by simp)
  · next fs₀ bi hindex =>
    rcases getIndex_cases hindex with ⟨-, hmki, -⟩ | ⟨hfnx, -, rfl, hb⟩ | ⟨text, hfnx, rfl, hb, hread⟩
    · exact absurd hmki (by simp)
    · -- a class without an index gets its first blob
      cases hb
      rw [if_pos (by rfl)] at hadd
      dsimp only at hadd
      split at hadd
      · exact absurd hadd (by simp)
      obtain ⟨rfl, -⟩ := Prod.mk.inj (Option.some.inj hadd)
      refine Or.inr ⟨not_rewrites_of_no_index hfnx, fun n hfnd hfnx => ?_⟩
      show ((((fs.put r.fnx _).put r.fnd _).put r.fnd _).put r.fnx _) n = _
      rw [Files.put_of_ne _ hfnx, Files.put_of_ne _ hfnd, Files.put_of_ne _ hfnd,
        Files.put_of_ne _ hfnx]
    · cases hb
      split at hadd
      · next hempty =>
        dsimp only at hadd
        split at hadd
        · exact absurd hadd (by simp)
        obtain ⟨rfl, -⟩ := Prod.mk.inj (Option.some.inj hadd)
        have hnil : text = [] := List.length_eq_zero_iff.mp hempty
        subst hnil
        refine Or.inr ⟨not_rewrites_of_absent hread rfl, fun n hfnd hfnx => ?_⟩
        show (((fs.put r.fnd _).put r.fnd _).put r.fnx _) n = _
        rw [Files.put_of_ne _ hfnx, Files.put_of_ne _ hfnd, Files.put_of_ne _ hfnd]
      · split at hadd
        · next bi hlocate =>
          split at hadd
          · next hfnd =>
            obtain ⟨rfl, -⟩ := Prod.mk.inj (Option.some.inj hadd)
            exact Or.inr ⟨not_rewrites_of_no_data hfnd, fun n _ _ => rfl⟩
          · next data hfnd =>
            dsimp only at hadd
            split at hadd
            · exact absurd hadd (by simp)
            obtain ⟨fs₂, hrebuild, heq⟩ := Option.map_eq_some_iff.mp hadd
            obtain ⟨rfl, -⟩ := Prod.mk.inj heq
            exact Or.inl ⟨rewrites_of_located hread hlocate (by rw [hfnd]; rfl), _, _, hrebuild⟩
        · next hlocate =>
          dsimp only at hadd
          split at hadd
          · exact absurd hadd (by simp)
          obtain ⟨rfl, -⟩ := Prod.mk.inj (Option.some.inj hadd)
          refine Or.inr ⟨not_rewrites_of_absent hread hlocate, fun n hfnd hfnx => ?_⟩
          show ((fs.put r.fnd _).put r.fnx _) n = _
          rw [Files.put_of_ne _ hfnx, Files.put_of_ne _ hfnd]

theorem step_delete_cases {id : CStr} {fs' : Files} (h : step r fs (.delete id) = some fs') :
    ((Op.delete id).Rewrites r fs ∧ ∃ bi blob, rebuild r fs bi blob = some fs') ∨
      (¬ (Op.delete id).Rewrites r fs ∧ ∀ n, n ≠ r.fnd → n ≠ r.fnx → fs' n = fs n) := by
  obtain ⟨⟨fs₁, rc⟩, hdelete, rfl⟩ := Option.map_eq_some_iff.mp h
  unfold deleteBlob at hdelete
  split at hdelete
  · exact absurd hdelete (by simp)
  · next fs₀ hindex =>
    obtain ⟨rfl, -⟩ := Prod.mk.inj (Option.some.inj hdelete)
    rcases getIndex_cases hindex with ⟨hfnx, -, rfl, -⟩ | ⟨-, hmki, -⟩ | ⟨text, -, -, hb, -⟩
    · exact Or.inr ⟨not_rewrites_of_no_index hfnx, fun n _ _ => rfl⟩
    · exact absurd hmki (by simp)
    · exact absurd hb (by simp)
  · next fs₀ bi hindex =>
    rcases getIndex_cases hindex with ⟨-, -, -, hb⟩ | ⟨-, hmki, -⟩ | ⟨text, hfnx, rfl, hb, hread⟩
    · exact absurd hb (by simp)
    · exact absurd hmki (by simp)
    · cases hb
      split at hdelete
      · next hlocate =>
        obtain ⟨rfl, -⟩ := Prod.mk.inj (Option.some.inj hdelete)
        exact Or.inr ⟨not_rewrites_of_absent hread hlocate, fun n _ _ => rfl⟩
      · next bi hlocate =>
        split at hdelete
        · next hfnd =>
          obtain ⟨rfl, -⟩ := Prod.mk.inj (Option.some.inj hdelete)
          exact Or.inr ⟨not_rewrites_of_no_data hfnd, fun n _ _ => rfl⟩
        · next data hfnd =>
          obtain ⟨fs₂, hrebuild, heq⟩ := Option.map_eq_some_iff.mp hdelete
          obtain ⟨rfl, -⟩ := Prod.mk.inj heq
          exact Or.inl ⟨rewrites_of_located hread hlocate (by rw [hfnd]; rfl), _, _, hrebuild⟩

/-- What another name stands for after an operation. -/
theorem step_other {op : Op} {fs' : Files} (h : step r fs op = some fs') {n : CStr}
    (hfnd : n ≠ r.fnd) (hfnx : n ≠ r.fnx) :
    fs' n = if op.Rewrites r fs ∧ (n = r.xn ∨ n = r.dn) then none else fs n := by
  have hcases : (op.Rewrites r fs ∧ ∃ bi blob, rebuild r fs bi blob = some fs') ∨
      (¬ op.Rewrites r fs ∧ ∀ n, n ≠ r.fnd → n ≠ r.fnx → fs' n = fs n) := by
    cases op with
    | add id blob => exact step_add_cases h
    | delete id => exact step_delete_cases h
  rcases hcases with ⟨hrewrites, bi, blob, hrebuild⟩ | ⟨hrewrites, hkeep⟩
  · rw [rebuild_other hrebuild hfnd hfnx]
    by_cases htmp : n = r.xn ∨ n = r.dn
    · rw [if_pos htmp, if_pos ⟨hrewrites, htmp⟩]
    · rw [if_neg htmp, if_neg (fun hboth => htmp hboth.2)]
  · rw [if_neg (fun hboth => hrewrites hboth.1), hkeep n hfnd hfnx]

end Frames

/-! ## What another class sees -/

/-- Reading gives the same as before. -/
structure Unchanged (s : Repository) (fs fs' : Files) : Prop where
  get : ∀ id, getBlob s fs' id = getBlob s fs id
  existing : ∀ id, existingBlob s fs' id = existingBlob s fs id
  enumerates : ∀ elen, enumerate s fs' elen = enumerate s fs elen

/-- An enumeration has a first record to give out. -/
def Repository.HasEntry (s : Repository) (fs : Files) : Prop :=
  ∃ elen bi, getIndex s fs elen false = some (fs, some bi) ∧ (getFirst s fs bi).isSome = true

section Reading

variable {s : Repository} {fs fs' : Files}

/-- The index is read, or there is none of use; the files stay. -/
theorem getIndex_read (hfnx : fs' s.fnx = fs s.fnx) (elen : Nat) :
    (getIndex s fs elen false = none ∧ getIndex s fs' elen false = none) ∨
      ∃ b, getIndex s fs elen false = some (fs, b) ∧ getIndex s fs' elen false = some (fs', b) := by
  unfold getIndex
  rw [hfnx]
  cases fs s.fnx with
  | none => exact Or.inr ⟨none, rfl, rfl⟩
  | some text =>
    dsimp only
    split
    · exact Or.inr ⟨_, rfl, rfl⟩
    · exact Or.inl ⟨rfl, rfl⟩

theorem existingBlob_congr (hfnx : fs' s.fnx = fs s.fnx) (id : CStr) :
    existingBlob s fs' id = existingBlob s fs id := by
  unfold existingBlob
  rcases getIndex_read hfnx (s.elen id) with ⟨h, h'⟩ | ⟨b, h, h'⟩
  · rw [h, h']
  · rw [h, h']
    cases b with
    | none => rfl
    | some bi => rfl

/-- Files that are the same read the same. -/
theorem Unchanged.of_files (hfnd : fs' s.fnd = fs s.fnd) (hfnx : fs' s.fnx = fs s.fnx) :
    Unchanged s fs fs' := by
  have hread : ∀ bi, readBlob s fs' bi = readBlob s fs bi := by
    intro bi
    show Files.read fs' s.fnd _ _ _ = Files.read fs s.fnd _ _ _
    unfold Files.read Files.content
    rw [hfnd]
  have hnext : ∀ bi, getNext s fs' bi = getNext s fs bi := by
    intro bi
    unfold getNext
    simp only [hread]
  have hvisits : ∀ fuel v, visits s fs' fuel v = visits s fs fuel v := by
    intro fuel
    induction fuel with
    | zero => intro v; cases v <;> rfl
    | succ fuel ih =>
      intro v
      cases v with
      | none => rfl
      | some v => rw [visits, visits, hnext, ih]
  refine ⟨fun id => ?_, existingBlob_congr hfnx, fun elen => ?_⟩
  · unfold getBlob
    rcases getIndex_read hfnx (s.elen id) with ⟨h, h'⟩ | ⟨b, h, h'⟩
    · rw [h, h']
    · rw [h, h']
      cases b with
      | none => rfl
      | some bi => simp only [hread, hfnd]
  · unfold enumerate
    rcases getIndex_read hfnx elen with ⟨h, h'⟩ | ⟨b, h, h'⟩
    · rw [h, h']
    · rw [h, h']
      cases b with
      | none => rfl
      | some bi =>
        show visits s fs' _ (getFirst s fs' bi) = visits s fs _ (getFirst s fs bi)
        rw [hvisits]
        unfold getFirst
        simp only [hread, hfnd]

/-- Where a record is located there is a first one. -/
theorem getFirst_of_located {bi found : BlobIndex} {key : CStr} {ignorecase : Bool}
    (h : indxLocateCase bi key ignorecase = some found) (hfnd : (fs s.fnd).isSome = true) :
    (getFirst s fs bi).isSome = true := by
  unfold indxLocateCase at h
  rw [locateLoop] at h
  split at h
  · next hlt =>
    unfold getFirst getIndexRecord
    unfold getIndexRecordCase at h ⊢
    rw [if_neg (Nat.not_le.mpr hlt)] at h ⊢
    dsimp only at h ⊢
    cases hparse : parseRecord (bi.index.drop 0) with
    | none =>
      rw [hparse] at h
      exact absurd h (by simp)
    | some rec => simp [hfnd]
  · exact absurd h (by simp)

/-- Without its data file a class reads as before if there was nothing to read. -/
theorem unchanged_iff_of_gone (hfnd : fs' s.fnd = none) (hfnx : fs' s.fnx = fs s.fnx) :
    Unchanged s fs fs' ↔ ¬ s.HasEntry fs := by
  have hfirst : ∀ bi, getFirst s fs' bi = none := by
    intro bi
    unfold getFirst
    rw [hfnd]
    split <;> rfl
  have hend : ∀ fuel, visits s fs' fuel none = some [] := fun fuel => by cases fuel <;> rfl
  constructor
  · rintro hsame ⟨elen, bi, hindex, hsome⟩
    have hnow : enumerate s fs' elen = some [] := by
      unfold enumerate
      rcases getIndex_read hfnx elen with ⟨h, -⟩ | ⟨b, h, h'⟩
      · rw [hindex] at h
        exact absurd h (by simp)
      · rw [h']
        cases b with
        | none => rfl
        | some bi =>
          show visits s fs' _ (getFirst s fs' bi) = _
          rw [hfirst, hend]
    obtain ⟨v, hv⟩ := Option.isSome_iff_exists.mp hsome
    have hbefore : enumerate s fs elen ≠ some [] := by
      unfold enumerate
      rw [hindex]
      show visits s fs bi.index.length (getFirst s fs bi) ≠ _
      rw [hv]
      cases bi.index.length with
      | zero => exact fun h => absurd h (by simp [visits])
      | succ fuel => exact fun h => absurd h (by simp [visits])
    exact hbefore ((hsame.enumerates elen).symm.trans hnow)
  · intro hnone
    refine ⟨fun id => ?_, existingBlob_congr hfnx, fun elen => ?_⟩
    · unfold getBlob
      rcases getIndex_read hfnx (s.elen id) with ⟨h, h'⟩ | ⟨b, h, h'⟩
      · rw [h, h']
      · rw [h, h']
        cases b with
        | none => rfl
        | some bi =>
          dsimp only
          split
          · rfl
          · next found hlocate =>
            rw [hfnd, if_neg (by simp), if_neg]
            intro hthere
            exact hnone ⟨_, bi, h, getFirst_of_located hlocate hthere⟩
    · unfold enumerate
      rcases getIndex_read hfnx elen with ⟨h, h'⟩ | ⟨b, h, h'⟩
      · rw [h, h']
      · rw [h, h']
        cases b with
        | none => rfl
        | some bi =>
          have hbefore : getFirst s fs bi = none := by
            cases hfirst : getFirst s fs bi with
            | none => rfl
            | some v => exact absurd ⟨elen, bi, h, by rw [hfirst]; rfl⟩ hnone
          show visits s fs' _ (getFirst s fs' bi) = visits s fs _ (getFirst s fs bi)
          rw [hfirst, hbefore, hend]
          cases bi.index.length <;> rfl

end Reading

/-! ## Isolation -/

/-- An operation on one class is seen from another exactly if it rewrites its files, the
other class has the name of a temporary file in the same directory, and there was
something to read in it. -/
theorem isolated_iff (r s : Repository) (hr : LegalName r.cls) (hs : LegalName s.cls)
    (hother : s.Other r) (fs fs' : Files) (op : Op) (hstep : step r fs op = some fs') :
    Unchanged s fs fs' ↔
      ¬ (op.Rewrites r fs ∧ s.dir = r.dir ∧ s.Clashes ∧ s.HasEntry fs) := by
  have hname := hr.not_mem_fold (c := 47) (by decide) (by decide)
  have hdot := hr.not_mem_fold (c := 46) (by decide) (by decide)
  have hfnx : fs' s.fnx = fs s.fnx := by
    rw [step_other hstep (Repository.fnx_ne_of_no_dot hs hname hdot)
      (Repository.fnx_ne_fnx hs hr hother), if_neg]
    rintro ⟨-, hx | hd⟩
    · exact Repository.fnx_ne_of_no_dot hs (by decide) (by decide) hx
    · exact Repository.fnx_ne_of_no_dot hs (by decide) (by decide) hd
  have hne : s.fnd ≠ r.fnx := by
    intro heq
    rw [Repository.fnx_eq] at heq
    obtain ⟨-, hpart⟩ := Repository.dir_append_inj
      (hs.not_mem_fold (by decide) (by decide)) (Repository.not_mem_fnx_part hr) heq
    have hmem : (46 : UInt8) ∈ fold s.cls := by
      rw [show fold s.cls = fold r.cls ++ lit ".idx" from hpart]
      exact List.mem_append_right _ (by decide)
    exact hs.not_mem_fold (by decide) (by decide) hmem
  have hfnd := step_other hstep (Repository.fnd_ne_fnd hs hr hother) hne
  -- the temporary names are the ones that `Clashes` lists
  have htmp : (s.fnd = r.xn ∨ s.fnd = r.dn) ↔ s.dir = r.dir ∧ s.Clashes := by
    have hslash : (47 : UInt8) ∉ fold s.cls := hs.not_mem_fold (by decide) (by decide)
    have hone : ∀ {x : CStr}, 47 ∉ x → (s.fnd = r.dir ++ x ↔ s.dir = r.dir ∧ fold s.cls = x) := by
      intro x hx
      constructor
      · exact Repository.dir_append_inj hslash hx
      · rintro ⟨hdir, rfl⟩
        rw [← hdir]
        rfl
    rw [show r.xn = r.dir ++ lit "idx" from rfl, show r.dn = r.dir ++ lit "inst" from rfl,
      hone (by decide), hone (by decide), ← and_or_left]
    rfl
  simp only [htmp] at hfnd
  by_cases hhit : op.Rewrites r fs ∧ s.dir = r.dir ∧ s.Clashes
  · rw [if_pos hhit] at hfnd
    rw [unchanged_iff_of_gone hfnd hfnx]
    simp [hhit]
  · rw [if_neg hhit] at hfnd
    refine ⟨fun _ hall => hhit ⟨hall.1, hall.2.1, hall.2.2.1⟩, fun _ => ?_⟩
    exact Unchanged.of_files hfnd hfnx

set_option maxRecDepth 4000 in
/-- The first blob of a class, beside a class called `Inst`. -/
theorem isolated_iff_first :
    let r : Repository := ⟨lit "/rep/", lit "root", lit "Class", 0⟩
    let s : Repository := ⟨lit "/rep/", lit "root", lit "Inst", 0⟩
    let op : Op := .add (lit "b") (lit "two")
    ∃ fs', step r (fun _ => none) op = some fs' ∧
      (Unchanged s (fun _ => none) fs' ↔
        ¬ (op.Rewrites r (fun _ => none) ∧ s.dir = r.dir ∧ s.Clashes ∧
          s.HasEntry (fun _ => none))) := by
  intro r s op
  have hstep : (step r (fun _ => none) op).isSome = true := by decide
  obtain ⟨fs', hstep⟩ := Option.isSome_iff_exists.mp hstep
  exact ⟨fs', hstep, isolated_iff r s (by decide) (by decide) (by decide) _ _ _ hstep⟩

set_option maxRecDepth 4000 in
/-- Replacing a blob of `Class` takes the data file of `Inst` away: reading what is stored
there then ends the process. -/
theorem not_isolated :
    let r : Repository := ⟨lit "/rep/", lit "root", lit "Class", 0⟩
    let s : Repository := ⟨lit "/rep/", lit "root", lit "Inst", 0⟩
    LegalName r.cls ∧ LegalName s.cls ∧ s.Other r ∧
      ∃ fs₁ fs₂ fs₃, step s (fun _ => none) (.add (lit "a") (lit "one")) = some fs₁ ∧
        step r fs₁ (.add (lit "b") (lit "two")) = some fs₂ ∧
        step r fs₂ (.add (lit "b") (lit "three")) = some fs₃ ∧
        getBlob s fs₂ (lit "a") = some (some (lit "one")) ∧ ¬ Unchanged s fs₂ fs₃ := by
  intro r s
  refine ⟨by decide, by decide, by decide, ?_⟩
  have hrun : ((step s (fun _ => none) (.add (lit "a") (lit "one"))).bind fun fs₁ =>
      (step r fs₁ (.add (lit "b") (lit "two"))).bind fun fs₂ =>
        (step r fs₂ (.add (lit "b") (lit "three"))).map fun fs₃ =>
          (getBlob s fs₂ (lit "a"), getBlob s fs₃ (lit "a")))
      = some (some (some (lit "one")), none) := by decide
  obtain ⟨fs₁, hstep₁, hrun⟩ := Option.bind_eq_some_iff.mp hrun
  obtain ⟨fs₂, hstep₂, hrun⟩ := Option.bind_eq_some_iff.mp hrun
  obtain ⟨fs₃, hstep₃, hboth⟩ := Option.map_eq_some_iff.mp hrun
  obtain ⟨hbefore, hafter⟩ := Prod.mk.inj hboth
  refine ⟨fs₁, fs₂, fs₃, hstep₁, hstep₂, hstep₃, hbefore, fun hsame => ?_⟩
  have heq := hsame.get (lit "a")
  rw [hbefore, hafter] at heq
  exact absurd heq (by simp)

end Sfcb.FileRepository
