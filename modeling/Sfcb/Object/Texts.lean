import Sfcb.Lib.BufferMoves
import Sfcb.Object.PathKeys

/-!
# Texts that stay

`HasText hdr id s` says that the string with that id reads back as `s`. What is added to
an object leaves every such text as it is, and so does setting a property, but for the one
string that is written over (`KeepsTexts`).

`storeNew_cases` and `storeReplace_cases` say once what the branches of `addObjectPropertyH`
do to the buffers; nothing below unfolds them.
-/

namespace Sfcb.Object

open Sfcb.Lib Sfcb.Lib.IndexedBuf

/-! ## Texts -/

/-- The entry has these bytes, for their full length. -/
def ReadsAs (hdr : ObjectHdr) (id : Nat) (bytes : List UInt8) : Prop :=
  ∃ f, getClObject hdr id = some f ∧ bytes <+: f

/-- The string `id` is `s`, with its end in the buffer. -/
def HasText (hdr : ObjectHdr) (id : Nat) (s : CStr) : Prop := 0 ∉ s ∧ ReadsAs hdr id (s ++ [0])

theorem takeWhile_text {s rest : CStr} (hs : 0 ∉ s) :
    (s ++ [0] ++ rest).takeWhile (· ≠ 0) = s := by
  rw [List.append_assoc, List.takeWhile_append_of_pos fun c hc => by
    simpa using ne_of_mem_of_not_mem hc hs]
  simp

/-- It is what `ClObjectGetClString` gives. -/
theorem HasText.getClString {hdr : ObjectHdr} {id : Nat} {s : CStr} (h : HasText hdr id s) :
    getClString hdr id = some s := by
  obtain ⟨hs, f, hf, rest, rfl⟩ := h
  unfold Object.getClString
  rw [hf, Option.map_some, takeWhile_text hs]

theorem HasText.unique {hdr : ObjectHdr} {id : Nat} {s t : CStr} (hs : HasText hdr id s)
    (ht : HasText hdr id t) : s = t :=
  Option.some.inj (hs.getClString.symm.trans ht.getClString)

theorem HasText.id_le {hdr : ObjectHdr} {id : Nat} {s : CStr} (h : HasText hdr id s) :
    id ≠ 0 ∧ id ≤ used hdr.strBuf := by
  obtain ⟨-, f, hf, -⟩ := h
  obtain ⟨b, hb, hentry⟩ := Option.bind_eq_some_iff.mp hf
  obtain ⟨hid, o, ho, -⟩ := entry_eq_some.mp hentry
  have hlt := (List.getElem?_eq_some_iff.mp ho).1
  refine ⟨hid, ?_⟩
  rw [hb]
  show id ≤ b.index.length
  omega

/-! ## What leaves them alone -/

/-- Texts stay, except for the one of `but`, and no string is lost. -/
structure KeepsTexts (but : Option Nat) (hdr hdr' : ObjectHdr) : Prop where
  texts : ∀ id s, but ≠ some id → HasText hdr id s → HasText hdr' id s
  used : IndexedBuf.used hdr.strBuf ≤ IndexedBuf.used hdr'.strBuf

theorem KeepsTexts.refl {but : Option Nat} (hdr : ObjectHdr) : KeepsTexts but hdr hdr :=
  ⟨fun _ _ _ h => h, Nat.le_refl _⟩

theorem KeepsTexts.trans {but : Option Nat} {hdr₁ hdr₂ hdr₃ : ObjectHdr} (h : KeepsTexts but hdr₁ hdr₂)
    (h' : KeepsTexts but hdr₂ hdr₃) : KeepsTexts but hdr₁ hdr₃ :=
  ⟨fun id s hid hs => h'.texts id s hid (h.texts id s hid hs), Nat.le_trans h.used h'.used⟩

theorem KeepsTexts.weaken {but : Option Nat} {hdr hdr' : ObjectHdr} (h : KeepsTexts none hdr hdr') :
    KeepsTexts but hdr hdr' :=
  ⟨fun id s _ hs => h.texts id s (by simp) hs, h.used⟩

/-- Only the string buffer matters. -/
theorem KeepsTexts.of_strBuf {but : Option Nat} {hdr hdr' : ObjectHdr} (h : hdr'.strBuf = hdr.strBuf) :
    KeepsTexts but hdr hdr' := by
  refine ⟨fun id s _ ⟨hs, f, hf, hpre⟩ => ⟨hs, f, ?_, hpre⟩, Nat.le_of_eq (by rw [h])⟩
  unfold getClObject at hf ⊢
  rw [h]
  exact hf

section Buffers

variable {hdr hdr' : ObjectHdr}

/-- What can be read before a string is added can be read then. -/
theorem addClStringN_readsAs {bytes : List UInt8} {id : Nat}
    (h : addClStringN hdr bytes = some (hdr', id)) {k : Nat} {x : List UInt8} (hx : x ≠ [])
    (hread : ReadsAs hdr k x) : ReadsAs hdr' k x := by
  obtain ⟨f, hf, hpre⟩ := hread
  obtain ⟨b, hb, hentry⟩ := Option.bind_eq_some_iff.mp hf
  obtain ⟨⟨b', id'⟩, hadd, heq⟩ := Option.map_eq_some_iff.mp h
  obtain ⟨rfl, rfl⟩ := Prod.mk.inj heq
  rw [hb] at hadd
  refine ⟨f ++ bytes, push_entry hadd hentry fun hnil => ?_, hpre.trans (List.prefix_append ..)⟩
  rw [hnil] at hpre
  exact hx (List.prefix_nil.mp hpre)

/-- The new string is behind all others. -/
theorem addClStringN_spec {bytes : List UInt8} {id : Nat}
    (h : addClStringN hdr bytes = some (hdr', id)) :
    KeepsTexts none hdr hdr' ∧ getClObject hdr' id = some bytes ∧ id = used hdr.strBuf + 1 ∧
      used hdr'.strBuf = id := by
  have hreads : ∀ k s, none ≠ some k → HasText hdr k s → HasText hdr' k s :=
    fun k s _ hs => ⟨hs.1, addClStringN_readsAs h (by simp) hs.2⟩
  obtain ⟨⟨b', id'⟩, hadd, heq⟩ := Option.map_eq_some_iff.mp h
  obtain ⟨rfl, rfl⟩ := Prod.mk.inj heq
  unfold IndexedBuf.add at hadd
  cases hb : hdr.strBuf with
  | none =>
    rw [hb] at hadd
    obtain ⟨b, hcreate, heq⟩ := Option.map_eq_some_iff.mp hadd
    obtain ⟨rfl, rfl⟩ := Prod.mk.inj heq
    unfold create at hcreate
    simp only at hcreate
    split at hcreate
    · obtain rfl := Option.some.inj hcreate
      refine ⟨⟨hreads, ?_⟩, rfl, rfl, rfl⟩
      rw [hb]
      exact Nat.zero_le _
    · exact absurd hcreate (by simp)
  | some b =>
    rw [hb] at hadd
    have hlength := push_length hadd
    obtain ⟨-, -, hid⟩ := push_eq_some hadd
    refine ⟨⟨hreads, ?_⟩, push_entry_self hadd, hid, hlength.trans hid.symm⟩
    rw [hb]
    show b.index.length ≤ b'.index.length
    omega

theorem addClString_keeps {s : CStr} {id : Nat} (h : addClString hdr s = some (hdr', id)) :
    KeepsTexts none hdr hdr' :=
  (addClStringN_spec h).1

theorem addClString_hasText {s : CStr} {id : Nat} (h : addClString hdr s = some (hdr', id))
    (hs : 0 ∉ s) : HasText hdr' id s :=
  ⟨hs, s ++ [0], (addClStringN_spec h).2.1, List.prefix_rfl⟩

theorem addClStringOrNone_keeps {s : Option CStr} {id : Nat}
    (h : addClStringOrNone hdr s = some (hdr', id)) : KeepsTexts none hdr hdr' := by
  cases s with
  | none =>
    cases h
    exact KeepsTexts.refl _
  | some s => exact addClString_keeps h

/-- What is moved keeps its text. -/
theorem replaceClStringN_keeps {bytes : List UInt8} {id : Nat}
    (h : replaceClStringN hdr id bytes = some hdr') : KeepsTexts (some id) hdr hdr' := by
  unfold replaceClStringN at h
  cases hb : hdr.strBuf with
  | none =>
    rw [hb] at h
    exact absurd h (by simp)
  | some b =>
    rw [hb] at h
    obtain ⟨b', hreplace, rfl⟩ := Option.map_eq_some_iff.mp h
    refine ⟨fun j s hj ⟨hs, f, hf, hpre⟩ => ?_, ?_⟩
    · unfold getClObject at hf
      rw [hb] at hf
      obtain ⟨f', hf', hcopy⟩ := replace_prefix hreplace (fun he => hj (by rw [he])) hf
      obtain ⟨rest, rfl⟩ := hpre
      -- up to its end the text is the same, whatever was behind it
      have htake : (s ++ [0] ++ rest).take (strLength (s ++ [0] ++ rest)) = s ++ [0] := by
        unfold strLength
        rw [takeWhile_text hs, List.take_append_of_le_length (by simp),
          List.take_of_length_le (by simp)]
      rw [htake] at hcopy
      exact ⟨hs, f', hf', hcopy⟩
    · rw [hb]
      exact Nat.le_of_eq (replace_length hreplace).symm

theorem storeItem_keeps {type : CMPIBase} {item : ArrayItem} {cell : Stored}
    (h : storeItem hdr type item = some (hdr', cell)) : KeepsTexts none hdr hdr' := by
  have hadded : ∀ {bytes : List UInt8} {f : ObjectHdr × Nat → ObjectHdr × Stored},
      (∀ x, (f x).1 = x.1) → (addClStringN hdr bytes).map f = some (hdr', cell) →
      KeepsTexts none hdr hdr' := by
    intro bytes f hf hmap
    obtain ⟨x, hx, heq⟩ := Option.map_eq_some_iff.mp hmap
    have hhdr : x.1 = hdr' := (hf x).symm.trans (congrArg Prod.fst heq)
    rw [← hhdr]
    exact (addClStringN_spec hx).1
  unfold storeItem at h
  simp only at h
  split at h
  · cases h
    exact KeepsTexts.refl _
  split at h
  case h_5 =>
    split at h
    · exact hadded (fun _ => rfl) h
    · exact absurd h (by simp)
  case h_6 =>
    cases h
    exact KeepsTexts.refl _
  all_goals
    split at h
    · exact hadded (fun _ => rfl) (map_addText h)
    · exact absurd h (by simp)

theorem storeItems_keeps {type : CMPIBase} {items : List ArrayItem} {cells : List Stored}
    (h : storeItems type hdr items = some (hdr', cells)) : KeepsTexts none hdr hdr' := by
  induction items generalizing hdr cells with
  | nil =>
    cases h
    exact KeepsTexts.refl _
  | cons item items ih =>
    unfold storeItems at h
    split at h
    · exact absurd h (by simp)
    · next hdr₁ cell hitem =>
      obtain ⟨⟨hdr₂, cells'⟩, hrest, heq⟩ := Option.map_eq_some_iff.mp h
      cases heq
      exact (storeItem_keeps hitem).trans (ih hrest)

theorem addClArray_keeps {a : NativeArray} {id : Nat} (h : addClArray hdr a = some (hdr', id)) :
    KeepsTexts none hdr hdr' := by
  unfold addClArray at h
  split at h
  · exact absurd h (by simp)
  · next hdr₁ cells hitems =>
    obtain ⟨r, -, heq⟩ := Option.map_eq_some_iff.mp h
    cases heq
    exact (storeItems_keeps hitems).trans (KeepsTexts.of_strBuf rfl)

theorem replaceClArray_keeps {a : NativeArray} {id : Nat}
    (h : replaceClArray hdr id a = some hdr') : KeepsTexts none hdr hdr' := by
  unfold replaceClArray at h
  split at h
  · exact absurd h (by simp)
  · next hdr₁ cells hitems =>
    split at h
    · exact absurd h (by simp)
    · obtain ⟨b, -, rfl⟩ := Option.map_eq_some_iff.mp h
      exact (storeItems_keeps hitems).trans (KeepsTexts.of_strBuf rfl)

end Buffers

/-! ## Storing a value -/

section Values

variable {hdr hdr' : ObjectHdr} {d : CMPIData} {data : Stored}

/-- What a new property does to the buffers. -/
theorem storeNew_cases (h : storeNew hdr d = some (hdr', data)) :
    (hdr' = hdr ∧ (data = d.raw ∨ data.value = .num 0)) ∨
    (∃ flag bytes id, addClStringN { hdr with containsEmbeddedObject := flag } bytes =
      some (hdr', id) ∧ data.value = .num id) ∨
    ∃ a id, addClArray hdr a = some (hdr', id) ∧ data = ⟨d.type, d.state, .num id⟩ ∧
      d.type.array = true := by
  have hstring : ∀ {flag : Bool} {bytes : List UInt8} {f : ObjectHdr × Nat → ObjectHdr × Stored},
      (∀ x, (f x).1 = x.1 ∧ (f x).2.value = .num x.2) →
      (addClStringN { hdr with containsEmbeddedObject := flag } bytes).map f =
        some (hdr', data) →
      ∃ flag bytes id, addClStringN { hdr with containsEmbeddedObject := flag } bytes =
        some (hdr', id) ∧ data.value = .num id := by
    intro flag bytes f hf hmap
    obtain ⟨x, hx, heq⟩ := Option.map_eq_some_iff.mp hmap
    have hhdr : x.1 = hdr' := (hf x).1.symm.trans (congrArg Prod.fst heq)
    refine ⟨flag, bytes, x.2, ?_, ?_⟩
    · rw [hx, ← hhdr]
    · rw [← (hf x).2, heq]
  unfold storeNew at h
  simp only at h
  split at h
  · cases h
    exact Or.inl ⟨rfl, Or.inl rfl⟩
  split at h
  · split at h
    · exact Or.inr (Or.inl (hstring (fun _ => ⟨rfl, rfl⟩) (map_addText h)))
    · exact absurd h (by simp)
  split at h
  · split at h
    · cases h
      exact Or.inl ⟨rfl, Or.inr rfl⟩
    · split at h
      · exact Or.inr (Or.inl (hstring (fun _ => ⟨rfl, rfl⟩) (map_addText h)))
      · exact absurd h (by simp)
  split at h
  · split at h
    · exact Or.inr (Or.inl (hstring (fun _ => ⟨rfl, rfl⟩) (map_addText h)))
    · exact absurd h (by simp)
  split at h
  · split at h
    · exact Or.inr (Or.inl (hstring (fun _ => ⟨rfl, rfl⟩) (map_addText h)))
    · exact absurd h (by simp)
  split at h
  · next harray =>
    split at h
    · next a _ =>
      obtain ⟨x, hx, heq⟩ := Option.map_eq_some_iff.mp h
      cases heq
      exact Or.inr (Or.inr ⟨a, x.2, hx, rfl, harray⟩)
    · exact absurd h (by simp)
  split at h
  · split at h
    · exact Or.inr (Or.inl (hstring (fun _ => ⟨rfl, rfl⟩) h))
    · exact absurd h (by simp)
  · cases h
    exact Or.inl ⟨rfl, Or.inl rfl⟩

theorem storeNew_keeps (h : storeNew hdr d = some (hdr', data)) : KeepsTexts none hdr hdr' := by
  obtain ⟨rfl, -⟩ | ⟨flag, bytes, id, hadd, -⟩ | ⟨a, id, hadd, -⟩ := storeNew_cases h
  · exact KeepsTexts.refl _
  · have hflag : KeepsTexts none hdr { hdr with containsEmbeddedObject := flag } := KeepsTexts.of_strBuf rfl
    exact hflag.trans (addClStringN_spec hadd).1
  · exact addClArray_keeps hadd

/-- The string that is written over when a property that is there is set. -/
def ClProperty.overwrites (hdr : ObjectHdr) (p : ClProperty) (d : CMPIData) : Option Nat :=
  let od := p.data
  if isNull d.state then none
  else if od.type = CMPIBase.chars.simple ∨ od.type = CMPIBase.dateTime.simple ∨
      od.type = CMPIBase.ref.simple ∨ hdr.type = .inst ∧ od.type = CMPIBase.inst.simple then
    match od.value with
    | .num 0 => none
    | .num id => some id
    | .ptr => none
  else none

theorem overwrites_eq {p : ClProperty} {id : Nat} (hnull : ¬ isNull d.state = true)
    (htype : p.data.type = CMPIBase.chars.simple ∨ p.data.type = CMPIBase.dateTime.simple ∨
      p.data.type = CMPIBase.ref.simple ∨ hdr.type = .inst ∧ p.data.type = CMPIBase.inst.simple)
    (hvalue : p.data.value = .num id) (hid : id ≠ 0) : p.overwrites hdr d = some id := by
  unfold ClProperty.overwrites
  simp only
  rw [if_neg hnull, if_pos htype, hvalue]
  split
  · next h => exact absurd (Word.num.inj h) hid
  · next h => rw [Word.num.inj h]
  · next h => exact absurd h (by simp)

/-- What is written over is the string of the property. -/
theorem overwrites_some {p : ClProperty} {id : Nat} (h : p.overwrites hdr d = some id) :
    (p.data.type = CMPIBase.chars.simple ∨ p.data.type = CMPIBase.dateTime.simple ∨
      p.data.type = CMPIBase.ref.simple ∨ hdr.type = .inst ∧ p.data.type = CMPIBase.inst.simple) ∧
      p.data.value = .num id ∧ id ≠ 0 := by
  unfold ClProperty.overwrites at h
  simp only at h
  split at h
  · exact absurd h (by simp)
  split at h
  · next htype =>
    refine ⟨htype, ?_⟩
    split at h
    · exact absurd h (by simp)
    · next hne hvalue =>
      obtain rfl := Option.some.inj h
      exact ⟨hvalue, hne⟩
    · exact absurd h (by simp)
  · exact absurd h (by simp)

theorem replaceClStringN_id {bytes : List UInt8} {id : Nat}
    (h : replaceClStringN hdr id bytes = some hdr') : id ≠ 0 := by
  unfold replaceClStringN at h
  split at h
  · exact absurd h (by simp)
  · obtain ⟨b', hreplace, -⟩ := Option.map_eq_some_iff.mp h
    exact (replace_eq_some hreplace).1

/-- A text that is set again is added, or written over the old one. -/
theorem replaceText_cases {od : Stored} (h : replaceText hdr od d = some (.stored hdr' data)) :
    (∃ bytes id, addClStringN hdr bytes = some (hdr', id) ∧
      data = ⟨d.type, d.state, .num id⟩) ∨
    ∃ bytes id, od.value = .num id ∧ replaceClStringN hdr id bytes = some hdr' ∧
      data = ⟨d.type, d.state, .num id⟩ := by
  unfold replaceText replaceClString at h
  split at h
  · obtain ⟨x, hx, heq⟩ := Option.map_eq_some_iff.mp (map_addText h)
    cases heq
    exact Or.inl ⟨_, x.2, hx, rfl⟩
  · next hvalue =>
    split at h
    · obtain ⟨x, hx, heq⟩ := Option.map_eq_some_iff.mp h
      cases heq
      exact Or.inr ⟨_, _, hvalue, hx, rfl⟩
    · exact absurd h (by simp)
  · exact absurd h (by simp)

/-- What setting a property that is there does to the buffers. -/
theorem storeReplace_cases {p : ClProperty}
    (h : storeReplace hdr p d = some (.stored hdr' data)) :
    (hdr' = hdr ∧ data = d.raw) ∨
    (∃ bytes id, addClStringN hdr bytes = some (hdr', id) ∧
      data = ⟨d.type, d.state, .num id⟩) ∨
    (∃ bytes id, p.overwrites hdr d = some id ∧ replaceClStringN hdr id bytes = some hdr' ∧
      (data = ⟨d.type, d.state, .num id⟩ ∨ data = d.raw)) ∨
    (d.type.array = true ∧ ∃ id, data = ⟨d.type, d.state, .num id⟩ ∧
      KeepsTexts none hdr hdr') := by
  have htext : ∀ (hnull : ¬ isNull d.state = true)
      (_ : p.data.type = CMPIBase.chars.simple ∨ p.data.type = CMPIBase.dateTime.simple ∨
        p.data.type = CMPIBase.ref.simple ∨
        hdr.type = .inst ∧ p.data.type = CMPIBase.inst.simple),
      replaceText hdr p.data d = some (.stored hdr' data) →
      (∃ bytes id, addClStringN hdr bytes = some (hdr', id) ∧
        data = ⟨d.type, d.state, .num id⟩) ∨
      ∃ bytes id, p.overwrites hdr d = some id ∧ replaceClStringN hdr id bytes = some hdr' ∧
        (data = ⟨d.type, d.state, .num id⟩ ∨ data = d.raw) := by
    intro hnull htype hreplace
    obtain hadd | ⟨bytes, id, hvalue, hover, hdata⟩ := replaceText_cases hreplace
    · exact Or.inl hadd
    · exact Or.inr ⟨bytes, id, overwrites_eq hnull htype hvalue (replaceClStringN_id hover),
        hover, Or.inl hdata⟩
  unfold storeReplace at h
  simp only at h
  split at h
  · cases h
    exact Or.inl ⟨rfl, rfl⟩
  next hnull =>
  split at h
  · next hod =>
    split at h
    · exact absurd h (by simp)
    split at h
    · split at h
      · exact absurd h (by simp)
      split at h
      · next id hvalue =>
        obtain ⟨x, hx, heq⟩ := Option.map_eq_some_iff.mp h
        cases heq
        exact Or.inr (Or.inr (Or.inl ⟨_, id, overwrites_eq hnull (Or.inl hod) hvalue
          (replaceClStringN_id hx), hx, Or.inr rfl⟩))
      · exact absurd h (by simp)
    · exact Or.inr ((htext hnull (Or.inl hod) h).imp id Or.inl)
  split at h
  · next hod =>
    split at h
    · exact absurd h (by simp)
    · exact Or.inr ((htext hnull (Or.inr (Or.inl hod)) h).imp id Or.inl)
  split at h
  · next hod =>
    split at h
    · exact absurd h (by simp)
    · exact Or.inr ((htext hnull (Or.inr (Or.inr (Or.inl hod))) h).imp id Or.inl)
  split at h
  · split at h
    · exact absurd h (by simp)
    next harray =>
    have harray : d.type.array = true := by simpa using harray
    split at h
    · obtain ⟨x, hx, heq⟩ := Option.map_eq_some_iff.mp h
      cases heq
      exact Or.inr (Or.inr (Or.inr ⟨harray, _, rfl, addClArray_keeps hx⟩))
    · obtain ⟨x, hx, heq⟩ := Option.map_eq_some_iff.mp h
      cases heq
      exact Or.inr (Or.inr (Or.inr ⟨harray, _, rfl, replaceClArray_keeps hx⟩))
    · exact absurd h (by simp)
  split at h
  · next hod =>
    split at h
    · exact absurd h (by simp)
    split at h
    · obtain ⟨x, hx, heq⟩ := Option.map_eq_some_iff.mp h
      cases heq
      exact Or.inr (Or.inl ⟨_, _, hx, rfl⟩)
    · next hvalue =>
      obtain ⟨x, hx, heq⟩ := Option.map_eq_some_iff.mp h
      cases heq
      exact Or.inr (Or.inr (Or.inl ⟨_, _, overwrites_eq hnull (Or.inr (Or.inr (Or.inr hod)))
        hvalue (replaceClStringN_id hx), hx, Or.inr rfl⟩))
    · exact absurd h (by simp)
  · cases h
    exact Or.inl ⟨rfl, rfl⟩

theorem storeReplace_keeps {p : ClProperty}
    (h : storeReplace hdr p d = some (.stored hdr' data)) :
    KeepsTexts (p.overwrites hdr d) hdr hdr' := by
  obtain ⟨rfl, -⟩ | ⟨bytes, id, hadd, -⟩ | ⟨bytes, id, hover, hreplace, -⟩ | ⟨-, id, -, hkeeps⟩ :=
    storeReplace_cases h
  · exact KeepsTexts.refl _
  · exact (addClStringN_spec hadd).1.weaken
  · rw [hover]
    exact replaceClStringN_keeps hreplace
  · exact hkeeps.weaken

end Values

end Sfcb.Object
