import Sfcb.Object.Building
import Sfcb.Object.Contents

/-!
# Paths without arrays

The array buffer of an object path is not copied when the path is rebuilt. It is never
made where no key is an array (`build_noArrays`).
-/

namespace Sfcb.Object

open Sfcb.Lib

/-- No key of a path is an array, and it has none. -/
structure NoArrays (o : PropertyStore) : Prop where
  buffer : o.hdr.arrayBuf = none
  types : ∀ p ∈ o.properties.items, p.data.type.array = false

section Arrays

variable {hdr : ObjectHdr}

theorem addClStringN_arrayBuf {bytes : List UInt8} {r : ObjectHdr × Nat}
    (h : addClStringN hdr bytes = some r) : r.1.arrayBuf = hdr.arrayBuf := by
  obtain ⟨x, -, rfl⟩ := Option.map_eq_some_iff.mp h
  rfl

theorem addClStringOrNone_arrayBuf {s : Option CStr} {r : ObjectHdr × Nat}
    (h : addClStringOrNone hdr s = some r) : r.1.arrayBuf = hdr.arrayBuf := by
  cases s with
  | none =>
    cases h
    rfl
  | some s => exact addClStringN_arrayBuf h

theorem replaceClStringN_arrayBuf {id : Nat} {bytes : List UInt8} {hdr' : ObjectHdr}
    (h : replaceClStringN hdr id bytes = some hdr') : hdr'.arrayBuf = hdr.arrayBuf := by
  unfold replaceClStringN at h
  split at h
  · exact absurd h (by simp)
  · obtain ⟨b, -, rfl⟩ := Option.map_eq_some_iff.mp h
    rfl

/-- A value that is no array leaves the array buffer alone. -/
theorem storeNew_noArrays {d : CMPIData} (hd : d.type.array = false) {r : ObjectHdr × Stored}
    (h : storeNew hdr d = some r) : r.1.arrayBuf = hdr.arrayBuf ∧ r.2.type.array = false := by
  have hstring : ∀ (hdr₀ : ObjectHdr) {bytes : List UInt8}
      {f : ObjectHdr × Nat → ObjectHdr × Stored},
      hdr₀.arrayBuf = hdr.arrayBuf → (∀ x, (f x).1 = x.1 ∧ (f x).2.type.array = false) →
      (addClStringN hdr₀ bytes).map f = some r →
      r.1.arrayBuf = hdr.arrayBuf ∧ r.2.type.array = false := by
    intro hdr₀ bytes f hhdr hf hmap
    obtain ⟨x, hx, rfl⟩ := Option.map_eq_some_iff.mp hmap
    rw [(hf x).1, addClStringN_arrayBuf hx]
    exact ⟨hhdr, (hf x).2⟩
  unfold storeNew at h
  simp only at h
  split at h
  · cases h
    exact ⟨rfl, hd⟩
  split at h
  · split at h
    · exact hstring hdr rfl (fun _ => ⟨rfl, rfl⟩) (map_addText h)
    · exact absurd h (by simp)
  split at h
  · split at h
    · cases h
      exact ⟨rfl, rfl⟩
    · split at h
      · exact hstring hdr rfl (fun _ => ⟨rfl, rfl⟩) (map_addText h)
      · exact absurd h (by simp)
  split at h
  · split at h
    · exact hstring hdr rfl (fun _ => ⟨rfl, rfl⟩) (map_addText h)
    · exact absurd h (by simp)
  split at h
  · split at h
    · exact hstring hdr rfl (fun _ => ⟨rfl, rfl⟩) (map_addText h)
    · exact absurd h (by simp)
  rw [if_neg (by rw [hd]; exact Bool.false_ne_true)] at h
  split at h
  · split at h
    · exact hstring { hdr with containsEmbeddedObject := true } rfl (fun _ => ⟨rfl, hd⟩) h
    · exact absurd h (by simp)
  · cases h
    exact ⟨rfl, hd⟩

theorem replaceText_noArrays {od : Stored} {d : CMPIData} (hd : d.type.array = false)
    {hdr' : ObjectHdr} {data : Stored} (h : replaceText hdr od d = some (.stored hdr' data)) :
    hdr'.arrayBuf = hdr.arrayBuf ∧ data.type.array = false := by
  unfold replaceText replaceClString at h
  split at h
  · obtain ⟨x, hx, heq⟩ := Option.map_eq_some_iff.mp (map_addText h)
    cases heq
    exact ⟨addClStringN_arrayBuf hx, hd⟩
  · split at h
    · obtain ⟨x, hx, heq⟩ := Option.map_eq_some_iff.mp h
      cases heq
      exact ⟨replaceClStringN_arrayBuf hx, hd⟩
    · exact absurd h (by simp)
  · exact absurd h (by simp)

/-- Neither does one that replaces a value that is no array. -/
theorem storeReplace_noArrays {p : ClProperty} {d : CMPIData} (hp : p.data.type.array = false)
    (hd : d.type.array = false) {hdr' : ObjectHdr} {data : Stored}
    (h : storeReplace hdr p d = some (.stored hdr' data)) :
    hdr'.arrayBuf = hdr.arrayBuf ∧ data.type.array = false := by
  unfold storeReplace at h
  simp only at h
  split at h
  · cases h
    exact ⟨rfl, hd⟩
  split at h
  · split at h
    · exact absurd h (by simp)
    split at h
    · split at h
      · exact absurd h (by simp)
      split at h
      · obtain ⟨x, hx, heq⟩ := Option.map_eq_some_iff.mp h
        cases heq
        exact ⟨replaceClStringN_arrayBuf hx, hd⟩
      · exact absurd h (by simp)
    · exact replaceText_noArrays hd h
  split at h
  · split at h
    · exact absurd h (by simp)
    · exact replaceText_noArrays hd h
  split at h
  · split at h
    · exact absurd h (by simp)
    · exact replaceText_noArrays hd h
  -- the branch of the arrays is not taken
  rw [if_neg (by rw [hp]; exact Bool.false_ne_true)] at h
  split at h
  · split at h
    · exact absurd h (by simp)
    split at h
    · obtain ⟨x, hx, heq⟩ := Option.map_eq_some_iff.mp h
      cases heq
      exact ⟨addClStringN_arrayBuf hx, hd⟩
    · obtain ⟨x, hx, heq⟩ := Option.map_eq_some_iff.mp h
      cases heq
      exact ⟨replaceClStringN_arrayBuf hx, hd⟩
    · exact absurd h (by simp)
  · cases h
    exact ⟨rfl, hd⟩

theorem newProperty_noArrays {id : CStr} {d : CMPIData} (hd : d.type.array = false)
    {refName : Option CStr} {r : ObjectHdr × ClProperty}
    (h : newProperty hdr id d refName = some r) :
    r.1.arrayBuf = hdr.arrayBuf ∧ r.2.data.type.array = false := by
  unfold newProperty at h
  obtain ⟨⟨hdr₁, name⟩, hname, h⟩ := Option.bind_eq_some_iff.mp h
  obtain ⟨⟨hdr₂, ref⟩, href, h⟩ := Option.bind_eq_some_iff.mp h
  obtain ⟨⟨hdr₃, data⟩, hdata, h⟩ := Option.bind_eq_some_iff.mp h
  cases h
  obtain ⟨hbuf, htype⟩ := storeNew_noArrays hd hdata
  exact ⟨hbuf.trans ((addClStringOrNone_arrayBuf href).trans (addClStringN_arrayBuf hname)), htype⟩

end Arrays

/-- Adding a key that is no array. -/
theorem NoArrays.addObjectPropertyH {o : PropertyStore} (ho : NoArrays o) {id : CStr}
    {d : CMPIData} (hd : d.type.array = false) {refName : Option CStr} {r : PropertyStore × Int}
    (h : addObjectPropertyH o id d refName = some r) : NoArrays r.1 := by
  unfold Object.addObjectPropertyH at h
  split at h
  · split at h
    · exact absurd h (by simp)
    · next hnew =>
      obtain ⟨prps, hpush, rfl⟩ := Option.map_eq_some_iff.mp h
      obtain ⟨hbuf, htype⟩ := newProperty_noArrays hd hnew
      refine ⟨hbuf.trans ho.buffer, fun q hq => ?_⟩
      rw [push_items hpush] at hq
      rcases List.mem_append.mp hq with hq | hq
      · exact ho.types q hq
      · rw [List.mem_singleton.mp hq]
        exact htype
  · split at h
    · exact absurd h (by simp)
    · next i p hp =>
      have hold := ho.types p (List.mem_of_getElem? hp)
      split at h
      · exact absurd h (by simp)
      · cases h
        exact ho
      · next hreplace =>
        obtain ⟨hbuf, htype⟩ := storeReplace_noArrays hold hd hreplace
        cases h
        refine ⟨hbuf.trans ho.buffer, fun q hq => ?_⟩
        rcases List.mem_or_eq_of_mem_set hq with hq | rfl
        · exact ho.types q hq
        · exact htype

/-- The operation adds no array. -/
def PathOp.isPlain : PathOp → Bool
  | .key _ d => !d.type.array
  | _ => true

/-- A string of the path itself. -/
theorem setPathString_arrayBuf {hdr : ObjectHdr} {id : Nat} {s : Option CStr}
    {r : ObjectHdr × Nat} (h : setPathString hdr id s = some r) :
    r.1.arrayBuf = hdr.arrayBuf := by
  unfold setPathString at h
  split at h
  · split at h
    · exact absurd h (by simp)
    · obtain ⟨hdr', hreplace, rfl⟩ := Option.map_eq_some_iff.mp h
      exact replaceClStringN_arrayBuf hreplace
  · exact addClStringOrNone_arrayBuf h

theorem NoArrays.apply {op op' : ClObjectPath} (ho : NoArrays op.store) {x : PathOp}
    (hx : x.isPlain = true) (h : op.apply x = some op') : NoArrays op'.store := by
  cases x with
  | key id d =>
    obtain ⟨r, hr, rfl⟩ := Option.map_eq_some_iff.mp h
    obtain ⟨r', hadd, rfl⟩ := Option.map_eq_some_iff.mp hr
    exact ho.addObjectPropertyH (by simpa [PathOp.isPlain] using hx) hadd
  | hostName hn | nameSpace hn | className hn =>
    obtain ⟨r, hr, rfl⟩ := Option.map_eq_some_iff.mp h
    exact ⟨(setPathString_arrayBuf hr).trans ho.buffer, ho.types⟩

theorem NoArrays.applyAll {ops : List PathOp} (hops : ∀ x ∈ ops, x.isPlain = true)
    {op op' : ClObjectPath} (ho : NoArrays op.store)
    (h : applyAll ClObjectPath.apply op ops = some op') : NoArrays op'.store := by
  induction ops generalizing op with
  | nil =>
    cases h
    exact ho
  | cons x ops ih =>
    obtain ⟨op₁, hstep, hrest⟩ := Option.bind_eq_some_iff.mp h
    exact ih (fun y hy => hops y (List.mem_cons_of_mem _ hy))
      (ho.apply (hops x List.mem_cons_self) hstep) hrest

theorem newObjectPathH_noArrays {ns cn : Option CStr} {op : ClObjectPath}
    (h : newObjectPathH ns cn = some op) : NoArrays op.store := by
  unfold newObjectPathH at h
  obtain ⟨⟨hdr₁, nameSpace⟩, hns, h⟩ := Option.bind_eq_some_iff.mp h
  obtain ⟨⟨hdr₂, className⟩, hcn, h⟩ := Option.bind_eq_some_iff.mp h
  cases h
  exact ⟨(addClStringOrNone_arrayBuf hcn).trans (addClStringOrNone_arrayBuf hns),
    fun p hp => absurd hp List.not_mem_nil⟩

/-- A recipe whose keys are no arrays. -/
def Recipe.NonArrayKeys : Recipe → Prop
  | .objectPath _ _ ops => ∀ x ∈ ops, x.isPlain = true
  | _ => True

/-- A path that is built of such keys has no array buffer. -/
theorem build_noArrays {r : Recipe} (hkeys : r.NonArrayKeys) {op : ClObjectPath}
    (h : r.build = some (.objectPath op)) : op.hdr.arrayBuf = none := by
  cases r with
  | objectPath ns cn ops =>
    obtain ⟨op', hbuild, heq⟩ := Option.map_eq_some_iff.mp h
    cases heq
    obtain ⟨op₀, hnew, hops⟩ := Option.bind_eq_some_iff.mp hbuild
    exact (NoArrays.applyAll hkeys (newObjectPathH_noArrays hnew) hops).buffer
  | cls | inst | args | qualifier =>
    obtain ⟨x, -, heq⟩ := Option.map_eq_some_iff.mp h
    cases heq

end Sfcb.Object
