import Sfcb.Object.Texts

/-!
# Replacing a string

`replaceClStringN` moves the other strings together, each up to its first zero, and puts
the new one behind them. A serialized instance has zeros before its end: what is behind
the first one is not copied, and the instance reads back only if the same bytes happen to
come there again (`replaces_iff`). Strings alone are safe (`replaces_of_texts`).
-/

namespace Sfcb.Object

open Sfcb.Lib Sfcb.Lib.IndexedBuf

/-- Entry `id` becomes `bytes`, and every other entry stays. -/
def Replaces (hdr : ObjectHdr) (records : List (List UInt8)) (id : Nat) (bytes : List UInt8) :
    Prop :=
  ∃ hdr', replaceClStringN hdr id bytes = some hdr' ∧ ReadsAs hdr' id bytes ∧
    ∀ j x, j + 1 ≠ id → records[j]? = some x → ReadsAs hdr' (j + 1) x

/-- What is behind the first zero of a record; nothing for a string. -/
def behindZero (x : List UInt8) : List UInt8 := x.drop (strLength x)

/-- What the other records come to when they are moved together. -/
def movedStrings (records : List (List UInt8)) (id : Nat) : List UInt8 :=
  ((records.map (cut strLength)).eraseIdx (id - 1)).flatten

/-- What comes behind the record of entry `j + 1` then, the new record included. -/
def comesBehind (records : List (List UInt8)) (id j : Nat) (bytes : List UInt8) : List UInt8 :=
  movedBehind strLength records (id - 1) j ++ bytes

section Replacing

variable {hdr : ObjectHdr} {b : IndexedBuf UInt8} {records : List (List UInt8)} {id : Nat}
  {bytes : List UInt8}

theorem replaceClStringN_eq (hb : hdr.strBuf = some b) {hdr' : ObjectHdr} :
    replaceClStringN hdr id bytes = some hdr' ↔
      ∃ b', b.replace strLength id bytes = some b' ∧ hdr' = { hdr with strBuf := some b' } := by
  unfold replaceClStringN
  rw [hb, Option.map_eq_some_iff]
  exact exists_congr fun b' => and_congr_right fun _ => eq_comm

/-- In a buffer of records that each have a zero, an entry is replaced and the others stay
if and only if there is room, and what is behind the first zero of each of the others comes
behind it again. -/
theorem replaces_iff (hb : hdr.strBuf = some b) (hholds : b.Holds records)
    (hzero : ∀ x ∈ records, 0 ∈ x) (hid : id ≠ 0) (hle : id ≤ records.length) :
    Replaces hdr records id bytes ↔
      b.Takes (movedStrings records id).length bytes.length ∧
      ∀ j x, j + 1 ≠ id → records[j]? = some x →
        behindZero x <+: comesBehind records id j bytes := by
  have hdel : ∀ x ∈ records, Delimited strLength x := fun x hx => delimited_of_mem (hzero x hx)
  have hreads : ∀ {b' : IndexedBuf UInt8}, b.replace strLength id bytes = some b' →
      ∀ j x, j + 1 ≠ id → records[j]? = some x →
        (ReadsAs { hdr with strBuf := some b' } (j + 1) x ↔
          behindZero x <+: comesBehind records id j bytes) :=
    fun hreplace j x hne hx => replace_keeps_iff hreplace hholds hdel hne hx
  constructor
  · intro ⟨hdr', hreplace, _, hothers⟩
    obtain ⟨b', hb', rfl⟩ := (replaceClStringN_eq hb).mp hreplace
    refine ⟨(replace_isSome_iff hholds hdel hid hle).mp (by rw [hb']; rfl), ?_⟩
    exact fun j x hne hx => (hreads hb' j x hne hx).mp (hothers j x hne hx)
  · intro ⟨htakes, hothers⟩
    obtain ⟨b', hb'⟩ := Option.isSome_iff_exists.mp
      ((replace_isSome_iff hholds hdel hid hle).mpr htakes)
    refine ⟨_, (replaceClStringN_eq hb).mpr ⟨b', hb', rfl⟩, ?_, ?_⟩
    · exact ⟨bytes, replace_entry_self hb', List.prefix_rfl⟩
    · exact fun j x hne hx => (hreads hb' j x hne hx).mpr (hothers j x hne hx)

end Replacing

/-! ## An instance and a string -/

/-- A buffer with the strings `a` and `b`. -/
def twoStrings : IndexedBuf UInt8 :=
  { index := [0, 2], iMax := 16, iMalloced := true, iAlloc := 32, cells := [97, 0, 98, 0]
    bMax := 256 }

/-- The first of two strings is replaced by `c`. -/
theorem replaces_iff_twoStrings :
    Replaces { ObjectHdr.new .inst with strBuf := some twoStrings } [[97, 0], [98, 0]] 1
      [99, 0] := by
  have hholds : twoStrings.Holds [[97, 0], [98, 0]] :=
    ⟨⟨⟨by decide, by decide⟩, ⟨by decide, by decide⟩, trivial⟩, by decide⟩
  refine (replaces_iff rfl hholds (by decide) (by decide) (by decide)).mpr
    ⟨by decide, fun j x hne hx => ?_⟩
  obtain ⟨hlt, rfl⟩ := List.getElem?_eq_some_iff.mp hx
  obtain rfl : j = 1 := by
    simp only [List.length_cons, List.length_nil] at hlt
    omega
  exact List.nil_prefix

/-- The bytes of an instance, which begin with its size. -/
def instanceBytes : List UInt8 := [176, 0, 0, 0, 0, 0, 0, 0, 73]

/-- An object with an instance and the string `a`. -/
def instanceAndString : Option ObjectHdr := do
  let (hdr, _) ← addClStringN (.new .inst) instanceBytes
  let (hdr, _) ← addClString hdr [97]
  return hdr

/-- When the string is replaced by `b` the instance loses what is behind its first zero. -/
theorem not_replaces : ∃ hdr hdr', instanceAndString = some hdr ∧
    ReadsAs hdr 1 instanceBytes ∧ ReadsAs hdr 2 [97, 0] ∧
    replaceClString hdr 2 [98] = some hdr' ∧ getClObject hdr' 1 = some [176, 0, 98, 0] ∧
    ¬ Replaces hdr [instanceBytes, [97, 0]] 2 [98, 0] := by
  obtain ⟨hdr, hbuild⟩ := Option.isSome_iff_exists.mp
    (show instanceAndString.isSome = true by decide)
  have hread : instanceAndString.all (fun hdr =>
      getClObject hdr 1 = some (instanceBytes ++ [97, 0]) ∧ getClObject hdr 2 = some [97, 0]) =
        true := by decide
  have hreplaced : instanceAndString.all (fun hdr => (replaceClString hdr 2 [98]).any fun hdr' =>
      getClObject hdr' 1 = some [176, 0, 98, 0]) = true := by decide
  rw [hbuild] at hread hreplaced
  obtain ⟨hfirst, hsecond⟩ := of_decide_eq_true hread
  obtain ⟨hdr', hreplace, hafter⟩ := (Option.any_eq_true ..).mp hreplaced
  refine ⟨hdr, hdr', hbuild, ⟨_, hfirst, List.prefix_append ..⟩, ⟨_, hsecond, List.prefix_rfl⟩,
    hreplace, of_decide_eq_true hafter, fun ⟨hdr'', hreplace', _, hothers⟩ => ?_⟩
  obtain rfl : hdr' = hdr'' := Option.some.inj (hreplace.symm.trans hreplace')
  obtain ⟨f, hf, hpre⟩ := hothers 0 instanceBytes (by decide) rfl
  rw [← Option.some.inj ((of_decide_eq_true hafter).symm.trans hf)] at hpre
  exact absurd hpre (by decide)

end Sfcb.Object
