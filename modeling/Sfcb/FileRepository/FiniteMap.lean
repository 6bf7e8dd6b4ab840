import Sfcb.FileRepository.Refinement

/-!
# The repository as a finite map

What the two files of a class are for: `BlobMap` is the map from ids to blobs that a
sequence of operations describes. `repository_follows` runs the code beside it: after
every step reading any id gives what the map has for it, an enumeration gives out the
map in the order of the index and then stops, and the ranges in the index lie one behind
the other in both files.

`repository_loses` is what happens to a class called `inst`.
-/

namespace Sfcb.FileRepository

open Sfcb.Lib

/-! ## The map -/

/-- The operations that write. -/
inductive Op where
  | add (id : CStr) (blob : List UInt8)
  | delete (id : CStr)
  deriving DecidableEq, Repr

/-- The id an operation is about. -/
def Op.id : Op → CStr
  | .add id _ => id
  | .delete id => id

/-- The blobs by id. -/
abbrev BlobMap := CStr → Option (List UInt8)

/-- The map after an operation. -/
def BlobMap.apply (m : BlobMap) : Op → BlobMap
  | .add id blob => fun k => if k = id then some blob else m k
  | .delete id => fun k => if k = id then none else m k

/-- An operation on the files. -/
def step (r : Repository) (fs : Files) : Op → Option Files
  | .add id blob => (addBlob r fs id blob).map Prod.fst
  | .delete id => (deleteBlob r fs id).map Prod.fst

/-- Ranges, each a start and a length, that lie one behind the other from `start` to
`stop`. -/
def Consecutive (start : Nat) : List (Nat × Nat) → (stop : Nat) → Prop
  | [], stop => start = stop
  | (ofs, len) :: ranges, stop => ofs = start ∧ Consecutive (start + len) ranges stop

/-- The files read as the map. The conditions on lengths keep the size of the index in
the range of an `int`. -/
structure Refines (r : Repository) (fs : Files) (m : BlobMap) : Prop where
  get : ∀ id, id ≠ [] → indexLength r fs + r.elen id < 2 ^ 31 → getBlob r fs id = some (m id)
  existing : ∀ id, id ≠ [] → indexLength r fs + r.elen id < 2 ^ 31 →
    existingBlob r fs id = some (m id).isSome
  /-- an enumeration stops; it gives out every pair once, in the order of the index, and
  the blobs it reads are the data file -/
  enumerates : ∀ elen, 0 < elen → indexLength r fs + elen < 2 ^ 31 →
    ∃ vs, enumerate r fs elen = some vs ∧ (vs.map Visit.keyb).Nodup ∧
      (∀ id blob, m id = some blob ↔ ∃ v ∈ vs, v.keyb = id ∧ v.blob = blob) ∧
      Consecutive 0 (vs.map fun v => (v.bi.pos, v.bi.len)) (indexLength r fs) ∧
      Consecutive 0 (vs.map fun v => (v.bi.bofs, v.bi.blen)) (fs.content r.fnd).length

/-- The entries are those of the map. -/
def Represents (m : BlobMap) (items : List Item) : Prop :=
  ∀ id blob, m id = some blob ↔ ∃ it ∈ items, it.id = id ∧ it.blob = blob

section Reading

variable {r : Repository} {fs : Files} {items : List Item} {m : BlobMap}

theorem Represents.of_not_mem (h : Represents m items) {id : CStr}
    (hmem : id ∉ items.map Item.id) : m id = none := by
  cases hm : m id with
  | none => rfl
  | some blob =>
    obtain ⟨it, hit, rfl, -⟩ := (h id blob).mp hm
    exact absurd (List.mem_map_of_mem hit) hmem

theorem Represents.of_mem (h : Represents m items) {it : Item} (hit : it ∈ items) :
    m it.id = some it.blob := (h it.id it.blob).mpr ⟨it, hit, rfl, rfl⟩

/-- Reading at the place of an entry gives its blob. -/
theorem readBlob_eq {as bs : List Item} {it : Item}
    (hdata : fs.content r.fnd = blobs (as ++ it :: bs)) {bi : BlobIndex}
    (hbofs : bi.bofs = (blobs as).length) (hblen : bi.blen = it.blob.length) :
    readBlob r fs bi = it.blob := by
  have hle : bi.bofs + bi.blen ≤ (fs.content r.fnd).length := by
    rw [hdata, hbofs, hblen, blobs_append, blobs_cons, List.length_append, List.length_append]
    omega
  unfold readBlob
  rw [Files.read_of_le hle, hdata, hbofs, hblen, blobs_append, List.drop_left, blobs_cons,
    List.take_left]

/-- Whether `getBlob` ignores the case of letters. -/
abbrev Repository.ignorecase (r : Repository) : Bool := strcmp (lit "qualifiers") r.cls == 0

/-- `getBlob` of a key that is not there. -/
theorem Holds.getBlob_absent (h : Holds r fs items) {key : CStr} (hkey : key ≠ [])
    (hfits : indexLength r fs + r.elen key < 2 ^ 31)
    (hmem : ∀ it ∈ items, ¬ SameKey r.ignorecase key it.id) : getBlob r fs key = some none := by
  unfold getBlob
  by_cases hnil : items = []
  · subst hnil
    rw [h.getIndex_nil]
  · rw [h.getIndex_eq hnil (elen_pos r key) hfits]
    simp only [indxLocateCase_absent h.placed hkey hmem]

/-- `getBlob` reads the first entry with the key. -/
theorem Holds.getBlob_found {as bs : List Item} {it : Item} (h : Holds r fs (as ++ it :: bs))
    {key : CStr} (hfits : indexLength r fs + r.elen key < 2 ^ 31)
    (hit : SameKey r.ignorecase key it.id) (hmem : ∀ a ∈ as, ¬ SameKey r.ignorecase key a.id) :
    getBlob r fs key = some (some it.blob) := by
  have hnil : as ++ it :: bs ≠ [] := by simp
  have hthere : (fs r.fnd).isSome = true := by rw [h.fnd_of_ne_nil hnil, Option.isSome_some]
  unfold getBlob
  rw [h.getIndex_eq hnil (elen_pos r key) hfits]
  simp only [indxLocateCase_found h.placed hit hmem, hthere, if_true]
  rw [readBlob_eq h.content_fnd rfl rfl]

/-- `getBlob` reads the map. -/
theorem Holds.getBlob_eq (h : Holds r fs items) (hm : Represents m items)
    (hcls : strcmp (lit "qualifiers") r.cls ≠ 0) {id : CStr} (hid : id ≠ [])
    (hfits : indexLength r fs + r.elen id < 2 ^ 31) : getBlob r fs id = some (m id) := by
  have hcase : r.ignorecase = false := beq_false_of_ne hcls
  by_cases hmem : id ∈ items.map Item.id
  · obtain ⟨as, it, bs, rfl, rfl, has, -⟩ := split_of_mem h.nodup hmem
    rw [hm.of_mem (by simp)]
    refine h.getBlob_found hfits (sameKey_refl _ _) fun a ha hsame => has ?_
    rw [hcase] at hsame
    rw [show it.id = a.id from hsame]
    exact List.mem_map_of_mem ha
  · rw [hm.of_not_mem hmem]
    refine h.getBlob_absent hid hfits fun it hit hsame => hmem ?_
    rw [hcase] at hsame
    rw [show id = it.id from hsame]
    exact List.mem_map_of_mem hit

/-- `existingBlob` tests for the key as it is spelled. -/
theorem Holds.existingBlob_mem (h : Holds r fs items) {id : CStr} (hid : id ≠ [])
    (hfits : indexLength r fs + r.elen id < 2 ^ 31) :
    existingBlob r fs id = some (decide (id ∈ items.map Item.id)) := by
  unfold existingBlob
  by_cases hnil : items = []
  · subst hnil
    rw [h.getIndex_nil]
    rfl
  rw [h.getIndex_eq hnil (elen_pos r id) hfits]
  show some (indxLocate _ id).isSome = _
  by_cases hmem : id ∈ items.map Item.id
  · rw [decide_eq_true hmem]
    obtain ⟨as, it, bs, rfl, rfl, has, -⟩ := split_of_mem h.nodup hmem
    rw [indxLocate_found h.placed has]
    rfl
  · rw [decide_eq_false hmem, indxLocate_absent h.placed hid hmem]
    rfl

/-- `existingBlob` tests the map. -/
theorem Holds.existingBlob_eq (h : Holds r fs items) (hm : Represents m items) {id : CStr}
    (hid : id ≠ []) (hfits : indexLength r fs + r.elen id < 2 ^ 31) :
    existingBlob r fs id = some (m id).isSome := by
  rw [h.existingBlob_mem hid hfits]
  by_cases hmem : id ∈ items.map Item.id
  · obtain ⟨it, hit, rfl⟩ := List.mem_map.mp hmem
    rw [decide_eq_true hmem, hm.of_mem hit]
    rfl
  · rw [decide_eq_false hmem, hm.of_not_mem hmem]
    rfl

/-- The enumeration from the record of the first of `items` on. -/
theorem visits_texts {items : List Item} :
    ∀ (as : List Item) (bi : BlobIndex) (front : CStr) {fuel : Nat},
      bi.index = front ++ texts (blobs as).length items → bi.next = front.length →
      Placed (blobs as).length items → fs.content r.fnd = blobs (as ++ items) →
      items.length ≤ fuel →
      ∃ vs, visits r fs fuel (getNext r fs bi) = some vs ∧
        vs.map (fun v => (v.keyb, v.blob)) = items.map (fun it => (it.id, it.blob)) ∧
        Consecutive front.length (vs.map fun v => (v.bi.pos, v.bi.len)) bi.index.length ∧
        Consecutive (blobs as).length (vs.map fun v => (v.bi.bofs, v.bi.blen))
          (blobs (as ++ items)).length := by
  induction items with
  | nil =>
    intro as bi front fuel hindex hnext _ _ _
    have hlength : bi.index.length = front.length := by
      rw [hindex]
      show (front ++ []).length = _
      rw [List.append_nil]
    have hend : getNext r fs bi = none := by
      unfold getNext getIndexRecord getIndexRecordCase
      rw [if_pos (by omega)]
    refine ⟨[], by rw [hend]; cases fuel <;> rfl, rfl, hlength.symm, ?_⟩
    show (blobs as).length = _
    rw [List.append_nil]
  | cons it items ih =>
    intro as bi front fuel hindex hnext hplaced hdata hfuel
    obtain ⟨hok, hofs, hwidth, hrest⟩ := hplaced
    obtain ⟨fuel, rfl⟩ : ∃ k, fuel = k + 1 := ⟨fuel - 1, by
      rw [List.length_cons] at hfuel
      omega⟩
    -- behind the record of `it` the rest of the index is as this one was
    obtain ⟨hindex', hnext'⟩ := BlobIndex.at_index hindex hnext hok hwidth
    have hbefore : (blobs (as ++ [it])).length = (blobs as).length + it.blob.length := by
      rw [blobs_append, List.length_append, blobs_cons, blobs_nil, List.append_nil]
    have happend : as ++ it :: items = (as ++ [it]) ++ items := by
      rw [List.append_assoc, List.singleton_append]
    have hread : readBlob r fs (bi.at it (blobs as).length) = it.blob :=
      readBlob_eq hdata rfl rfl
    have hget : getNext r fs bi
        = some ⟨bi.at it (blobs as).length, it.id, it.blob⟩ := by
      unfold getNext getIndexRecord
      rw [getIndexRecordCase_text hindex hnext hok hofs hwidth, if_pos (Or.inl rfl)]
      simp only [hread]
    rw [← hbefore] at hindex' hrest
    rw [happend] at hdata
    obtain ⟨vs, hvs, hpairs, hindexes, hranges⟩ := ih _ _ _ hindex' hnext' hrest hdata
      (show items.length ≤ fuel by simpa using hfuel)
    refine ⟨⟨bi.at it (blobs as).length, it.id, it.blob⟩ :: vs, ?_, ?_, ?_, ?_⟩
    · rw [hget, visits, hvs]
      rfl
    · rw [List.map_cons, List.map_cons, hpairs]
    · rw [List.length_append, Item.length_text hok hwidth] at hindexes
      exact ⟨hnext, hindexes⟩
    · rw [hbefore, ← happend] at hranges
      exact ⟨rfl, hranges⟩

/-- An enumeration gives out the entries in their order and stops. -/
theorem Holds.enumerate_eq (h : Holds r fs items) {elen : Nat} (hpos : 0 < elen)
    (hfits : indexLength r fs + elen < 2 ^ 31) :
    ∃ vs, enumerate r fs elen = some vs ∧
      vs.map (fun v => (v.keyb, v.blob)) = items.map (fun it => (it.id, it.blob)) ∧
      Consecutive 0 (vs.map fun v => (v.bi.pos, v.bi.len)) (indexLength r fs) ∧
      Consecutive 0 (vs.map fun v => (v.bi.bofs, v.bi.blen)) (fs.content r.fnd).length := by
  have hdata := h.content_fnd
  by_cases hnil : items = []
  · subst hnil
    refine ⟨[], ?_, rfl, h.indexLength_eq.symm, by rw [hdata]; rfl⟩
    unfold enumerate
    rw [h.getIndex_nil]
  have hplaced := h.placed
  let bi := BlobIndex.new (texts 0 items) elen
  obtain ⟨vs, hvs, hpairs, hindexes, hranges⟩ :=
    visits_texts [] bi [] rfl rfl hplaced hdata (length_le_length_texts hplaced)
  refine ⟨vs, ?_, hpairs, ?_, ?_⟩
  · have hthere : (fs r.fnd).isSome = true := by rw [h.fnd_of_ne_nil hnil, Option.isSome_some]
    -- `getFirst` differs from `getNext` only in that it opens the data file
    have hfirst : getFirst r fs bi = getNext r fs bi := by
      unfold getFirst getNext
      rw [hthere]
      rfl
    unfold enumerate
    rw [h.getIndex_eq hnil hpos hfits]
    show visits r fs (texts 0 items).length (getFirst r fs bi) = _
    rw [hfirst, hvs]
  · rw [h.indexLength_eq]
    exact hindexes
  · rw [hdata]
    exact hranges

/-- The keys an enumeration gives out are those of the entries. -/
theorem map_keyb_eq {vs : List Visit}
    (hpairs : vs.map (fun v => (v.keyb, v.blob)) = items.map (fun it => (it.id, it.blob))) :
    vs.map Visit.keyb = items.map Item.id := by
  have hkeys := congrArg (List.map Prod.fst) hpairs
  rwa [List.map_map, List.map_map] at hkeys

/-- The files that hold the entries of a map read as the map. -/
theorem Holds.refines (h : Holds r fs items) (hm : Represents m items)
    (hcls : strcmp (lit "qualifiers") r.cls ≠ 0) : Refines r fs m := by
  refine ⟨fun id hid hfits => h.getBlob_eq hm hcls hid hfits,
    fun id hid hfits => h.existingBlob_eq hm hid hfits, fun elen hpos hfits => ?_⟩
  obtain ⟨vs, hvs, hpairs, hindexes, hranges⟩ := h.enumerate_eq hpos hfits
  refine ⟨vs, hvs, by rw [map_keyb_eq hpairs]; exact h.nodup, ?_, hindexes, hranges⟩
  intro id blob
  have hpair : (id, blob) ∈ vs.map (fun v => (v.keyb, v.blob))
      ↔ (id, blob) ∈ items.map (fun it => (it.id, it.blob)) := by rw [hpairs]
  simp only [List.mem_map, Prod.mk.injEq] at hpair
  rw [hm id blob]
  exact hpair.symm

end Reading

/-! ## Steps and runs -/

/-- The operations the repository is made for, where it has the files and the map. -/
def Op.InDomain (r : Repository) (fs : Files) (m : BlobMap) : Op → Prop
  | .add id blob =>
    ValidId id ∧ blob ≠ [] ∧
      (recordBody id blob.length (fs.content r.fnd).length).length < 1000 ∧
      (fs.content r.fnd).length - ((m id).getD []).length + blob.length < 2 ^ 31
  | .delete id => ValidId id

/-- The operation does not meet one of the two defects: the index has a size that fits
an `int`, and if the data file is called like a temporary file, it is not rewritten
unless it goes. -/
def Op.Safe (r : Repository) (fs : Files) (m : BlobMap) (op : Op) : Prop :=
  indexLength r fs + r.elen op.id < 2 ^ 31 ∧
    (r.Clashes → (m op.id).isSome →
      op = .delete op.id ∧ (fs.content r.fnd).length = ((m op.id).getD []).length)

instance (r : Repository) (fs : Files) (m : BlobMap) : (op : Op) → Decidable (op.InDomain r fs m)
  | .add _ _ => inferInstanceAs (Decidable (_ ∧ _ ∧ _ ∧ _))
  | .delete id => inferInstanceAs (Decidable (ValidId id))

instance (r : Repository) (fs : Files) (m : BlobMap) (op : Op) : Decidable (op.Safe r fs m) :=
  inferInstanceAs (Decidable (_ ∧ (_ → _ → _)))

/-- Every step of a run meets `p`. -/
def RunMeets (r : Repository) (p : Files → BlobMap → Op → Prop) :
    Files → BlobMap → List Op → Prop
  | _, _, [] => True
  | fs, m, op :: ops =>
    p fs m op ∧
      match step r fs op with
      | none => True
      | some fs' => RunMeets r p fs' (m.apply op) ops

instance decidableRunMeets (r : Repository) (p : Files → BlobMap → Op → Prop)
    [∀ fs m op, Decidable (p fs m op)] :
    ∀ fs m ops, Decidable (RunMeets r p fs m ops)
  | _, _, [] => isTrue trivial
  | fs, m, op :: ops =>
    have : Decidable (match step r fs op with
        | none => True
        | some fs' => RunMeets r p fs' (m.apply op) ops) :=
      match step r fs op with
      | none => isTrue trivial
      | some fs' => decidableRunMeets r p fs' (m.apply op) ops
    inferInstanceAs (Decidable (p fs m op ∧ _))

/-- A run goes through, and the files read as the map in every state of it. A step
leaves the blobs of other ids alone. -/
def Follows (r : Repository) : Files → BlobMap → List Op → Prop
  | fs, m, [] => Refines r fs m
  | fs, m, op :: ops =>
    Refines r fs m ∧
      ∃ fs', step r fs op = some fs' ∧
        (∀ id, id ≠ [] → id ≠ op.id → indexLength r fs + r.elen id < 2 ^ 31 →
          indexLength r fs' + r.elen id < 2 ^ 31 → getBlob r fs' id = getBlob r fs id) ∧
        Follows r fs' (m.apply op) ops

section Steps

variable {r : Repository} {fs : Files} {items : List Item} {m : BlobMap}

theorem BlobMap.apply_of_ne (m : BlobMap) {op : Op} {id : CStr} (h : id ≠ op.id) :
    m.apply op id = m id := by
  cases op with
  | add id' blob => exact if_neg h
  | delete id' => exact if_neg h

theorem Represents.delete (h : Represents m items) (id : CStr) :
    Represents (m.apply (.delete id)) (without id items) := by
  intro k blob
  show (if k = id then none else m k) = some blob ↔ _
  constructor
  · intro hk
    split at hk
    · exact absurd hk (by simp)
    · next hne =>
      obtain ⟨it, hit, rfl, rfl⟩ := (h k blob).mp hk
      exact ⟨it, List.mem_filter.mpr ⟨hit, bne_iff_ne.mpr hne⟩, rfl, rfl⟩
  · rintro ⟨it, hit, rfl, rfl⟩
    obtain ⟨hit, hne⟩ := List.mem_filter.mp hit
    rw [if_neg (bne_iff_ne.mp hne)]
    exact h.of_mem hit

theorem Represents.add (h : Represents m items) (new : Item) :
    Represents (m.apply (.add new.id new.blob)) (without new.id items ++ [new]) := by
  have hdel := h.delete new.id
  intro k blob
  show (if k = new.id then some new.blob else m k) = some blob ↔ _
  have hother : k ≠ new.id → m.apply (.delete new.id) k = m k := fun hne => if_neg hne
  by_cases hk : k = new.id
  · subst hk
    rw [if_pos rfl, Option.some.injEq]
    constructor
    · intro hblob
      exact ⟨new, by simp, rfl, hblob⟩
    · rintro ⟨it, hit, hid, rfl⟩
      rcases List.mem_append.mp hit with hit | hit
      · have hkey := List.mem_map_of_mem (f := Item.id) hit
        rw [hid] at hkey
        exact absurd hkey (not_mem_without new.id items)
      · rw [List.mem_singleton.mp hit]
  · rw [if_neg hk, ← hother hk, hdel k blob]
    constructor
    · rintro ⟨it, hit, heq⟩
      exact ⟨it, List.mem_append_left _ hit, heq⟩
    · rintro ⟨it, hit, hid, hblob⟩
      rcases List.mem_append.mp hit with hit | hit
      · exact ⟨it, hit, hid, hblob⟩
      · exact absurd (by rw [← hid, List.mem_singleton.mp hit]) hk

/-- A stored blob is part of the data: the other blobs make up the rest. -/
theorem length_blobs_without (hnodup : (items.map Item.id).Nodup) (hm : Represents m items)
    (id : CStr) :
    (blobs items).length = (blobs (without id items)).length + ((m id).getD []).length := by
  by_cases hmem : id ∈ items.map Item.id
  · obtain ⟨as, it, bs, rfl, rfl, -, hwithout⟩ := split_of_mem hnodup hmem
    rw [hwithout, hm.of_mem (show it ∈ as ++ it :: bs by simp), Option.getD_some]
    simp only [blobs_append, blobs_cons, List.length_append]
    omega
  · rw [without_of_not_mem hmem, hm.of_not_mem hmem]
    rfl

/-- A deleted blob that was all of the data was the only one. -/
theorem without_eq_nil (h : Holds r fs items) (hm : Represents m items) {id : CStr}
    (hmem : id ∈ items.map Item.id)
    (hall : (fs.content r.fnd).length = ((m id).getD []).length) : without id items = [] := by
  have hlength := length_blobs_without h.nodup hm id
  rw [h.content_fnd] at hall
  have hempty : blobs (without id items) = [] := List.length_eq_zero_iff.mp (by omega)
  obtain ⟨as, it, bs, rfl, rfl, -, hwithout⟩ := split_of_mem h.nodup hmem
  rw [hwithout] at hempty ⊢
  exact (blobs_eq_nil_iff h.placed.remove).mp hempty

/-- A step keeps the files in line with the map. -/
theorem step_holds (h : Holds r fs items) (hm : Represents m items) {op : Op}
    (hdomain : op.InDomain r fs m) (hsafe : op.Safe r fs m) :
    ∃ fs' items', step r fs op = some fs' ∧ Holds r fs' items' ∧
      Represents (m.apply op) items' := by
  obtain ⟨hfits, hclash⟩ := hsafe
  have hstored : ∀ {id : CStr}, id ∈ items.map Item.id → (m id).isSome := by
    intro id hmem
    obtain ⟨it, hit, rfl⟩ := List.mem_map.mp hmem
    rw [hm.of_mem hit, Option.isSome_some]
  cases op with
  | add id blob =>
    obtain ⟨hid, hblob, hsize, hsmall⟩ := hdomain
    rw [h.content_fnd] at hsize hsmall
    -- without the old blob of this id the data file is shorter by it
    have hlength := length_blobs_without h.nodup hm id
    have hsize' := length_recordBody (newItem items id blob) rfl
    have hok : (newItem items id blob).Ok :=
      ⟨hid, hblob, show blob.length < 2 ^ 31 by omega, by rw [← hsize']; exact hsize⟩
    have hsmall' : (blobs (without id items ++ [newItem items id blob])).length < 2 ^ 31 := by
      rw [blobs_append, List.length_append, blobs_cons, blobs_nil, List.append_nil]
      show _ + blob.length < _
      omega
    obtain ⟨fs', hrun, hholds⟩ := addBlob_holds h hok hfits hsmall'
      (fun hc hmem => absurd (hclash hc (hstored hmem)).1 (by simp))
    refine ⟨fs', _, ?_, hholds, hm.add (newItem items id blob)⟩
    show (addBlob r fs id blob).map Prod.fst = _
    rw [hrun]
    rfl
  | delete id =>
    have hid : ValidId id := hdomain
    obtain ⟨fs', rc, hrun, hholds⟩ := deleteBlob_holds h hid.nonempty hfits
      (fun hc hmem => without_eq_nil h hm hmem (hclash hc (hstored hmem)).2)
    refine ⟨fs', _, ?_, hholds, hm.delete id⟩
    show (deleteBlob r fs id).map Prod.fst = _
    rw [hrun]
    rfl

/-- A run from files that hold the entries of a map. -/
theorem run_follows (hcls : strcmp (lit "qualifiers") r.cls ≠ 0) {ops : List Op} :
    ∀ {fs : Files} {items : List Item} {m : BlobMap}, Holds r fs items → Represents m items →
      RunMeets r (Op.InDomain r) fs m ops → RunMeets r (Op.Safe r) fs m ops →
      Follows r fs m ops := by
  induction ops with
  | nil => exact fun h hm _ _ => h.refines hm hcls
  | cons op ops ih =>
    intro fs items m h hm hdomain hsafe
    obtain ⟨hdomain, hdomains⟩ := hdomain
    obtain ⟨hsafe, hsafes⟩ := hsafe
    obtain ⟨fs', items', hstep, h', hm'⟩ := step_holds h hm hdomain hsafe
    rw [hstep] at hdomains hsafes
    refine ⟨h.refines hm hcls, fs', hstep, ?_, ih h' hm' hdomains hsafes⟩
    intro id hid hne hfits hfits'
    rw [h'.getBlob_eq hm' hcls hid hfits', h.getBlob_eq hm hcls hid hfits, m.apply_of_ne hne]

end Steps

/-- For every sequence of additions and deletions from a store without files, the files
of the class read as the finite map. -/
theorem repository_follows (r : Repository) (fs : Files) (ops : List Op)
    (hcls : strcmp (lit "qualifiers") r.cls ≠ 0)
    (hempty : fs r.fnd = none ∧ fs r.fnx = none)
    (hdomain : RunMeets r (Op.InDomain r) fs (fun _ => none) ops)
    (hsafe : RunMeets r (Op.Safe r) fs (fun _ => none) ops) :
    Follows r fs (fun _ => none) ops := by
  have hholds : Holds r fs [] :=
    ⟨hempty.1, hempty.2, trivial, List.nodup_nil, by rw [blobs_nil]; decide⟩
  have hrep : Represents (fun _ => none) [] := by
    intro id blob
    simp
  exact run_follows hcls hholds hrep hdomain hsafe

/-- A class with a blob that is replaced and one that is deleted. -/
theorem repository_follows_sample :
    Follows ⟨lit "/rep/", lit "root", lit "Class", 0⟩ (fun _ => none) (fun _ => none)
      [.add (lit "a") (lit "one"), .add (lit "b") (lit "two"), .add (lit "a") (lit "three"),
        .delete (lit "b")] :=
  repository_follows _ _ _ (by decide) ⟨rfl, rfl⟩ (by decide) (by decide)

/-- In a class called `Inst` a blob that is replaced is lost with all the others: the
data file is the temporary file, and `rebuild` removes it before it is renamed. Reading
the blob then ends the process. -/
theorem repository_loses :
    let r : Repository := ⟨lit "/rep/", lit "root", lit "Inst", 0⟩
    let ops : List Op := [.add (lit "a") (lit "one"), .add (lit "a") (lit "two")]
    strcmp (lit "qualifiers") r.cls ≠ 0 ∧
      RunMeets r (Op.InDomain r) (fun _ => none) (fun _ => none) ops ∧
      ¬ Follows r (fun _ => none) (fun _ => none) ops := by
  refine ⟨by decide, by decide, ?_⟩
  rintro ⟨-, fs₁, hstep₁, -, -, fs₂, hstep₂, -, hlast⟩
  have hlost : ((step ⟨lit "/rep/", lit "root", lit "Inst", 0⟩ (fun _ => none)
        (.add (lit "a") (lit "one"))).bind fun fs =>
      (step ⟨lit "/rep/", lit "root", lit "Inst", 0⟩ fs (.add (lit "a") (lit "two"))).map fun fs =>
        (decide (indexLength ⟨lit "/rep/", lit "root", lit "Inst", 0⟩ fs < 1000),
          getBlob ⟨lit "/rep/", lit "root", lit "Inst", 0⟩ fs (lit "a"))) = some (true, none) := by
    decide
  rw [hstep₁, Option.bind_some, hstep₂, Option.map_some] at hlost
  obtain ⟨hsmall, hnone⟩ := Prod.mk.inj (Option.some.inj hlost)
  have hfits : (Repository.mk (lit "/rep/") (lit "root") (lit "Inst") 0).elen (lit "a") < 1000 := by
    decide
  have hget := hlast.get (lit "a") (by decide) (by have := of_decide_eq_true hsmall; omega)
  rw [hnone] at hget
  exact absurd hget (by simp)

end Sfcb.FileRepository
