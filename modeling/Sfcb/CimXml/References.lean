import Mathlib.Data.FinEnum
import Mathlib.Data.List.Find
import Sfcb.CimXml.UnescapeBounds

/-!
# Character references

What unescaping a text is to do: a reference to a code point from 1 to 0x10FFFF, decimal or
hexadecimal, becomes the UTF-8 of the code point, the five names become what they stand for,
and everything else stays (`unescaped`).

`xmlUnescape` writes one byte for every reference. It gives up if the semicolon is more than
ten bytes behind the `&`, and it leaves it to `sscanf` what a number is, which also takes a
sign, white space in front, anything behind, and the end of the string. `unescape_eq_iff` says
at which `&` none of this matters.

Mirroring notes:
- The marker of a hexadecimal reference may be `x` or `X`, as in the code.
- What is behind a text in the buffer matters only if the text ends with `&`.
-/

namespace Sfcb.CimXml

open Sfcb.Lib

/-! ## What is meant -/

/-- The UTF-8 encoding of a code point. -/
def utf8 (cp : Nat) : CStr :=
  if cp < 0x80 then [UInt8.ofNat cp]
  else if cp < 0x800 then [UInt8.ofNat (0xC0 + cp / 0x40), UInt8.ofNat (0x80 + cp % 0x40)]
  else if cp < 0x10000 then
    [UInt8.ofNat (0xE0 + cp / 0x1000), UInt8.ofNat (0x80 + cp / 0x40 % 0x40),
      UInt8.ofNat (0x80 + cp % 0x40)]
  else
    [UInt8.ofNat (0xF0 + cp / 0x40000), UInt8.ofNat (0x80 + cp / 0x1000 % 0x40),
      UInt8.ofNat (0x80 + cp / 0x40 % 0x40), UInt8.ofNat (0x80 + cp % 0x40)]

/-- The base and the digits of what stands between `&#` and `;`. -/
def baseAndDigits : CStr → Nat × CStr
  | [] => (10, [])
  | b :: digits => if b = 120 ∨ b = 88 then (16, digits) else (10, b :: digits)

/-- The code point that is referred to. -/
def codePoint (e : CStr) : Option Nat :=
  let (base, digits) := baseAndDigits e
  let cp := (scanDigits base 0 digits).1
  if digits ≠ [] ∧ (∀ b ∈ digits, (digitVal base b).isSome) ∧ 1 ≤ cp ∧ cp ≤ 0x10FFFF then some cp
  else none

/-- A reference behind a `&`: its code point, and the text behind it. -/
def reference : CStr → Option (Nat × CStr)
  | 35 :: s =>
    match s.dropWhile (· ≠ 59) with
    | 59 :: rest => (codePoint (s.takeWhile (· ≠ 59))).map (·, rest)
    | _ => none
  | _ => none

/-- One of the five names behind a `&`. -/
def named (s : CStr) : Option (UInt8 × CStr) :=
  (xmlEscapeTab.find? fun e => e.escaped.tail.isPrefixOf s).map
    fun e => (e.unescaped, s.drop e.escaped.tail.length)

theorem reference_eq_some {s rest : CStr} {cp : Nat} (h : reference s = some (cp, rest)) :
    ∃ e, s = 35 :: e ++ 59 :: rest ∧ 59 ∉ e ∧ codePoint e = some cp := by
  unfold reference at h
  split at h
  · next s =>
    split at h
    · next rest' hrest =>
      obtain ⟨cp', hcp, heq⟩ := Option.map_eq_some_iff.mp h
      cases heq
      refine ⟨s.takeWhile (· ≠ 59), ?_, ?_, hcp⟩
      · rw [List.cons_append, ← hrest, List.takeWhile_append_dropWhile]
      · intro hmem
        simpa using (List.all_eq_true.mp List.all_takeWhile) 59 hmem
    · cases h
  · cases h

theorem length_reference {s rest : CStr} {cp : Nat} (h : reference s = some (cp, rest)) :
    rest.length < s.length := by
  obtain ⟨e, rfl, -, -⟩ := reference_eq_some h
  simp only [List.cons_append, List.length_cons, List.length_append]
  omega

theorem length_named {s rest : CStr} {c : UInt8} (h : named s = some (c, rest)) :
    rest.length ≤ s.length := by
  obtain ⟨e, -, heq⟩ := Option.map_eq_some_iff.mp h
  cases heq
  rw [List.length_drop]
  omega

/-- What a text is to become. -/
def unescaped : CStr → CStr
  | [] => []
  | b :: s =>
    if b = 38 then
      match _href : reference s with
      | some (cp, rest) => utf8 cp ++ unescaped rest
      | none =>
        match _hname : named s with
        | some (c, rest) => c :: unescaped rest
        | none => 38 :: unescaped s
    else b :: unescaped s
termination_by s => s.length
decreasing_by
  · have := length_reference _href
    simp only [List.length_cons]
    omega
  · have := length_named _hname
    simp only [List.length_cons]
    omega
  · simp
  · simp

section Meant

variable {e w s rest : CStr} {cp : Nat}

theorem reference_append (he : 59 ∉ e) :
    reference (35 :: e ++ 59 :: rest) = (codePoint e).map (·, rest) := by
  have hbefore : ∀ b ∈ e, decide (b ≠ 59) = true :=
    fun b hb => decide_eq_true fun heq : b = 59 => he (heq ▸ hb)
  have htake : (e ++ 59 :: rest).takeWhile (· ≠ 59) = e := by
    rw [List.takeWhile_append_of_pos hbefore, List.takeWhile_cons_of_neg (by simp), List.append_nil]
  have hdrop : (e ++ 59 :: rest).dropWhile (· ≠ 59) = 59 :: rest := by
    rw [List.dropWhile_append_of_pos hbefore, List.dropWhile_cons_of_neg (by simp)]
  unfold reference
  simp only [List.cons_append, hdrop, htake]

/-- No name begins with `#`. -/
theorem named_hash (s : CStr) : named (35 :: s) = none := by
  have htable : ∀ e ∈ xmlEscapeTab, e.escaped.tail ≠ [] ∧ e.escaped.tail.head? ≠ some 35 := by
    decide
  unfold named
  rw [Option.map_eq_none_iff, List.find?_eq_none]
  intro e he
  obtain ⟨hne, hhead⟩ := htable e he
  obtain ⟨b, t, htail⟩ := List.exists_cons_of_ne_nil hne
  rw [htail] at hhead ⊢
  have hb : b ≠ 35 := fun heq => hhead (congrArg some heq)
  simp [hb]

theorem unescaped_cons {b : UInt8} (hb : b ≠ 38) : unescaped (b :: s) = b :: unescaped s := by
  rw [unescaped, if_neg hb]

theorem unescaped_append (hw : 38 ∉ w) : unescaped (w ++ s) = w ++ unescaped s := by
  induction w with
  | nil => rfl
  | cons b w ih =>
    have hb : b ≠ 38 := fun heq => hw (heq ▸ List.mem_cons_self)
    rw [List.cons_append, unescaped_cons hb, ih fun h => hw (List.mem_cons_of_mem _ h),
      List.cons_append]

theorem unescaped_reference (h : reference s = some (cp, rest)) :
    unescaped (38 :: s) = utf8 cp ++ unescaped rest := by
  rw [unescaped, if_pos rfl]
  split
  · next cp' rest' h' =>
    rw [h] at h'
    cases h'
    rfl
  · next h' =>
    rw [h] at h'
    cases h'

theorem unescaped_named {c : UInt8} (h : reference s = none) (hname : named s = some (c, rest)) :
    unescaped (38 :: s) = c :: unescaped rest := by
  rw [unescaped, if_pos rfl]
  split
  · next h' =>
    rw [h] at h'
    cases h'
  · split
    · next h' =>
      rw [hname] at h'
      cases h'
      rfl
    · next h' =>
      rw [hname] at h'
      cases h'

theorem unescaped_other (h : reference s = none) (hname : named s = none) :
    unescaped (38 :: s) = 38 :: unescaped s := by
  rw [unescaped, if_pos rfl]
  split
  · next h' =>
    rw [h] at h'
    cases h'
  · split
    · next h' =>
      rw [hname] at h'
      cases h'
    · rfl

theorem length_utf8 (cp : Nat) : 1 ≤ (utf8 cp).length ∧ (utf8 cp).length ≤ 4 := by
  unfold utf8
  split_ifs <;> simp

theorem length_utf8_eq_one_iff (cp : Nat) : (utf8 cp).length = 1 ↔ cp < 128 := by
  unfold utf8
  split_ifs with h1 h2 h3
  · simp [h1]
  · simp
    omega
  · simp
    omega
  · simp
    omega

end Meant

/-! ## What the code does -/

section Code

variable {behind : Option CStr} {s w rest : CStr}

/-- A call leaves a byte, and not more behind it than there was. -/
theorem length_xmlUnescape {out : CStr} (h : xmlUnescape behind (38 :: s) = some out) :
    ∃ c s', out = c :: s' ∧ s'.length ≤ s.length := by
  have hsame : some (38 :: s) = some out → ∃ c s', out = c :: s' ∧ s'.length ≤ s.length := by
    intro heq
    exact ⟨38, s, (Option.some.inj heq).symm, Nat.le_refl _⟩
  have hless : ∀ {b : UInt8} {k : Nat}, 1 ≤ k → some (b :: (38 :: s).drop k) = some out →
      ∃ c s', out = c :: s' ∧ s'.length ≤ s.length := by
    intro b k hk heq
    refine ⟨b, (38 :: s).drop k, (Option.some.inj heq).symm, ?_⟩
    rw [List.length_drop, List.length_cons]
    omega
  obtain ⟨rest, -, h⟩ := Option.bind_eq_some_iff.mp h
  split at h
  · exact hsame h
  next i hi =>
    dsimp only at h
    by_cases hany : (strchr rest 38).any (· < i) = true
    · rw [if_pos hany] at h
      exact hsame h
    rw [if_neg hany] at h
    by_cases hlong : i + 2 > 10
    · rw [if_pos hlong] at h
      exact hsame h
    rw [if_neg hlong] at h
    by_cases hhash : (38 :: s)[1]? = some 35
    · rw [if_pos hhash] at h
      split at h
      · exact hsame h
      · exact hless (by omega) h
      · exact hless (by omega) h
    rw [if_neg hhash] at h
    split at h
    · cases h
    split at h
    · next e hfind =>
      have htable : ∀ e ∈ xmlEscapeTab, 1 ≤ e.len := by decide
      exact hless (htable e (List.mem_of_find?_eq_some hfind)) h
    · exact hsame h

/-- More rounds than bytes make no difference. -/
theorem unescapeLoop_eq {fuel fuel' : Nat} (h : s.length ≤ fuel) (h' : s.length ≤ fuel') :
    unescapeLoop behind fuel s = unescapeLoop behind fuel' s := by
  induction fuel generalizing fuel' s with
  | zero =>
    obtain rfl : s = [] := List.length_eq_zero_iff.mp (Nat.le_zero.mp h)
    cases fuel' <;> rfl
  | succ fuel ih =>
    cases s with
    | nil => cases fuel' <;> rfl
    | cons b s =>
      obtain ⟨fuel', rfl⟩ : ∃ k, fuel' = k + 1 := ⟨fuel' - 1, by simp at h'; omega⟩
      have hs : s.length ≤ fuel := Nat.le_of_succ_le_succ h
      have hs' : s.length ≤ fuel' := Nat.le_of_succ_le_succ h'
      rw [unescapeLoop, unescapeLoop]
      split
      · next hb =>
        subst hb
        cases hone : xmlUnescape behind (38 :: s) with
        | none => rfl
        | some out =>
          obtain ⟨c, s', rfl, hle⟩ := length_xmlUnescape hone
          simp only [Option.bind_some]
          rw [ih (hle.trans hs) (hle.trans hs')]
      · rw [ih hs hs']

theorem unescape_cons {b : UInt8} (hb : b ≠ 38) :
    unescape behind (b :: s) = (unescape behind s).map (b :: ·) := by
  unfold unescape
  rw [List.length_cons, unescapeLoop, if_neg hb]

theorem unescape_amp {c : UInt8} {s' : CStr} (h : xmlUnescape behind (38 :: s) = some (c :: s')) :
    unescape behind (38 :: s) = (unescape behind s').map (c :: ·) := by
  obtain ⟨c', s'', heq, hle⟩ := length_xmlUnescape h
  cases heq
  unfold unescape
  rw [List.length_cons, unescapeLoop, if_pos rfl, h, Option.bind_some]
  dsimp only
  rw [unescapeLoop_eq hle (Nat.le_refl _)]

theorem unescape_amp_none (h : xmlUnescape behind (38 :: s) = none) :
    unescape behind (38 :: s) = none := by
  unfold unescape
  rw [List.length_cons, unescapeLoop, if_pos rfl, h]
  rfl

end Code

/-! ## One call -/

section Calls

variable {behind : Option CStr} {c : UInt8} {w rest : CStr}

/-- The semicolon is found at the end of what has none. -/
theorem strchr_semicolon (hw : 59 ∉ w) : strchr (w ++ 59 :: rest) 59 = some w.length := by
  have hhead : strchr (59 :: rest) 59 = some 0 := by
    unfold strchr
    rw [List.findIdx?_cons, if_pos (by decide)]
  rw [strchr_append hw, hhead, Option.map_some, Nat.zero_add]

theorem exists_of_strchr {u : CStr} {i : Nat} (hi : strchr u 59 = some i) :
    ∃ w rest, u = w ++ 59 :: rest ∧ 59 ∉ w ∧ w.length = i := by
  by_cases hmem : 59 ∈ u
  · obtain ⟨w, rest, rfl, hw⟩ := List.eq_append_cons_of_mem hmem
    rw [strchr_semicolon hw] at hi
    exact ⟨w, rest, rfl, hw, Option.some.inj hi⟩
  · have hnone : strchr u 59 = none := by
      unfold strchr
      rw [List.findIdx?_eq_none_iff]
      intro b hb
      have hne : b ≠ 59 := fun heq => hmem (heq ▸ hb)
      simpa using hne
    rw [hnone] at hi
    cases hi

/-- Whether there is a `&` before the semicolon. -/
theorem strchr_amp_iff :
    (strchr (w ++ 59 :: rest) 38).any (· < w.length) = true ↔ 38 ∈ w := by
  by_cases hmem : 38 ∈ w
  · refine iff_of_true ?_ hmem
    obtain ⟨front, back, rfl, hfront⟩ := List.eq_append_cons_of_mem hmem
    have hhead : strchr (38 :: (back ++ 59 :: rest)) 38 = some 0 := by
      unfold strchr
      rw [List.findIdx?_cons, if_pos (by decide)]
    rw [List.append_assoc, List.cons_append, strchr_append hfront, hhead]
    simp
  · refine iff_of_false ?_ hmem
    rw [strchr_append hmem, Option.any_map]
    cases strchr (59 :: rest) 38 with
    | none => simp
    | some j => simp

/-- Nothing that could be an entity. -/
theorem xmlUnescape_plain {u : CStr}
    (h : ∀ w rest, u = w ++ 59 :: rest → 59 ∉ w → 38 ∉ w → 8 < w.length) :
    xmlUnescape behind (38 :: c :: u) = some (38 :: c :: u) := by
  have hdrop : (38 :: c :: u).drop 2 = u := rfl
  unfold xmlUnescape
  rw [if_neg (by simp), Option.bind_some, hdrop]
  cases hi : strchr u 59 with
  | none => rfl
  | some i =>
    obtain ⟨w, rest, rfl, hw, rfl⟩ := exists_of_strchr hi
    dsimp only
    by_cases hany : (strchr (w ++ 59 :: rest) 38).any (· < w.length) = true
    · rw [if_pos hany]
    · have hlong := h w rest rfl hw fun hamp => hany (strchr_amp_iff.mpr hamp)
      rw [if_neg hany, if_pos (by omega)]

/-- A reference that is short enough. -/
theorem xmlUnescape_number (hw : 59 ∉ w) (hamp : 38 ∉ w) (hshort : w.length ≤ 8) :
    xmlUnescape behind (38 :: 35 :: (w ++ 59 :: rest)) =
      match scanReference w with
      | .failed => some (38 :: 35 :: (w ++ 59 :: rest))
      | .eof => some (0 :: rest)
      | .value n => some (UInt8.ofInt n :: rest) := by
  have hdrop : (38 :: 35 :: (w ++ 59 :: rest)).drop 2 = w ++ 59 :: rest := rfl
  have htake : (w ++ 59 :: rest).take (w.length + 2 - 2) = w := List.take_left' rfl
  have hrest : (38 :: 35 :: (w ++ 59 :: rest)).drop (w.length + 3) = rest := by
    have hassoc : 38 :: 35 :: (w ++ 59 :: rest) = (38 :: 35 :: w ++ [59]) ++ rest := by simp
    rw [hassoc]
    exact List.drop_left' (by simp)
  have hany : ¬ (strchr (w ++ 59 :: rest) 38).any (· < w.length) = true :=
    fun h => hamp (strchr_amp_iff.mp h)
  have hhash : (38 :: 35 :: (w ++ 59 :: rest))[1]? = some 35 := rfl
  unfold xmlUnescape
  rw [if_neg (by simp), Option.bind_some, hdrop, strchr_semicolon hw]
  dsimp only
  rw [if_neg hany, if_neg (by omega), if_pos hhash, htake, hrest]
  rfl

/-- A name is copied with a semicolon too many. -/
theorem xmlUnescape_over (hw : 59 ∉ w) (hamp : 38 ∉ w) (hc : c ≠ 35) (hlen : w.length = 8) :
    xmlUnescape behind (38 :: c :: (w ++ 59 :: rest)) = none := by
  have hdrop : (38 :: c :: (w ++ 59 :: rest)).drop 2 = w ++ 59 :: rest := rfl
  have hany : ¬ (strchr (w ++ 59 :: rest) 38).any (· < w.length) = true :=
    fun h => hamp (strchr_amp_iff.mp h)
  have hhash : ¬ (38 :: c :: (w ++ 59 :: rest))[1]? = some 35 := fun h => hc (Option.some.inj h)
  unfold xmlUnescape
  rw [if_neg (by simp), Option.bind_some, hdrop, strchr_semicolon hw]
  dsimp only
  rw [if_neg hany, if_neg (by omega), if_neg hhash, if_pos (by omega)]

/-- The table is searched for the name that stands there. -/
theorem xmlEscapeTab_find_eq (hw : 59 ∉ w) :
    xmlEscapeTab.find? (fun e => strncmp (38 :: c :: (w ++ [59])) e.escaped e.len = 0) =
      xmlEscapeTab.find? fun e => e.escaped.tail.isPrefixOf (c :: (w ++ 59 :: rest)) := by
  have htable : ∀ e ∈ xmlEscapeTab, 0 ∉ e.escaped ∧ e.escaped.length = e.len ∧
      e.escaped = 38 :: (e.escaped.tail.dropLast ++ [59]) ∧ e.escaped.tail.dropLast ≠ [] ∧
      59 ∉ e.escaped.tail.dropLast := by decide
  refine List.find?_congr fun e he => ?_
  obtain ⟨hzero, hlen, heq, hne, hsemi⟩ := htable e he
  have hcmp := @strncmp_eq_zero_iff_begins (38 :: c :: (w ++ [59])) e.escaped hzero
  rw [hlen] at hcmp
  rw [Bool.eq_iff_iff, decide_eq_true_iff, hcmp, List.isPrefixOf_iff_prefix]
  generalize e.escaped.tail.dropLast = name at heq hne hsemi
  rw [heq, List.tail_cons, List.cons_prefix_cons, and_iff_right rfl]
  obtain ⟨b, name, rfl⟩ := List.exists_cons_of_ne_nil hne
  constructor
  · rintro ⟨t, ht⟩
    refine ⟨t ++ rest, ?_⟩
    rw [← List.append_assoc, ht]
    simp
  · rintro ⟨t, ht⟩
    obtain ⟨rfl, hrest⟩ := List.cons.inj ht
    change name ++ [59] ++ t = w ++ 59 :: rest at hrest
    rw [List.append_assoc, List.singleton_append] at hrest
    obtain ⟨rfl, -⟩ := append_cons_unique (fun h => hsemi (List.mem_cons_of_mem _ h)) hw hrest
    exact List.prefix_refl _

theorem xmlUnescape_named (hw : 59 ∉ w) (hamp : 38 ∉ w) (hc : c ≠ 35) (hlen : w.length < 8) :
    xmlUnescape behind (38 :: c :: (w ++ 59 :: rest)) =
      some (((named (c :: (w ++ 59 :: rest))).map fun r => r.1 :: r.2).getD
        (38 :: c :: (w ++ 59 :: rest))) := by
  have hdrop : (38 :: c :: (w ++ 59 :: rest)).drop 2 = w ++ 59 :: rest := rfl
  have hany : ¬ (strchr (w ++ 59 :: rest) 38).any (· < w.length) = true :=
    fun h => hamp (strchr_amp_iff.mp h)
  have hhash : ¬ (38 :: c :: (w ++ 59 :: rest))[1]? = some 35 := fun h => hc (Option.some.inj h)
  have htake : (38 :: c :: (w ++ 59 :: rest)).take (w.length + 2 + 1) = 38 :: c :: (w ++ [59]) := by
    have hassoc : 38 :: c :: (w ++ 59 :: rest) = (38 :: c :: (w ++ [59])) ++ rest := by simp
    rw [hassoc]
    exact List.take_left' (by simp)
  have htable : ∀ e ∈ xmlEscapeTab, e.len = e.escaped.tail.length + 1 := by decide
  unfold xmlUnescape named
  rw [if_neg (by simp), Option.bind_some, hdrop, strchr_semicolon hw]
  dsimp only
  rw [if_neg hany, if_neg (by omega), if_neg hhash, if_neg (by omega), htake,
    @xmlEscapeTab_find_eq c w rest hw]
  cases hfind : xmlEscapeTab.find? fun e => e.escaped.tail.isPrefixOf (c :: (w ++ 59 :: rest)) with
  | none => rfl
  | some e =>
    dsimp only
    rw [htable e (List.mem_of_find?_eq_some hfind), List.drop_succ_cons]
    rfl

/-- A name has its semicolon, and none before it. -/
theorem named_eq_some {u s' : CStr} {b : UInt8} (h : named (c :: u) = some (b, s')) :
    ∃ w rest, u = w ++ 59 :: rest ∧ 59 ∉ w ∧ 38 ∉ w ∧ w.length < 8 := by
  have htable : ∀ e ∈ xmlEscapeTab, e.escaped.tail = e.escaped.tail.take 1 ++
      ((e.escaped.tail.drop 1).dropLast ++ [59]) ∧ (e.escaped.tail.take 1).length = 1 ∧
      59 ∉ (e.escaped.tail.drop 1).dropLast ∧ 38 ∉ (e.escaped.tail.drop 1).dropLast ∧
      (e.escaped.tail.drop 1).dropLast.length < 8 := by decide
  obtain ⟨e, hfind, -⟩ := Option.map_eq_some_iff.mp h
  obtain ⟨heq, hone, hsemi, hamp, hlen⟩ := htable e (List.mem_of_find?_eq_some hfind)
  have hbegin : e.escaped.tail <+: c :: u := by simpa using List.find?_some hfind
  rw [heq] at hbegin
  obtain ⟨a, ha⟩ := List.length_eq_one_iff.mp hone
  rw [ha, List.singleton_append, List.cons_prefix_cons] at hbegin
  obtain ⟨-, rest, rfl⟩ := hbegin
  exact ⟨_, rest, by rw [List.append_assoc, List.singleton_append], hsemi, hamp, hlen⟩

end Calls

/-! ## Where the two agree -/

/-- What is behind a text that ends with `&` is not taken for an entity. -/
def EndsWell (behind : Option CStr) : Prop :=
  ∃ rest, behind = some rest ∧
    ∀ w tail, rest = w ++ 59 :: tail → 59 ∉ w → 38 ∉ w → w.length ≠ 8

/-- What stands between `&#` and `;`: a reference to one byte in at most eight characters, or
nothing that is read as a number, or too long to be read. -/
def Plain (e : CStr) : Prop :=
  match codePoint e with
  | some cp => cp < 128 ∧ e.length ≤ 8
  | none => 8 < e.length ∨ scanReference e = .failed

/-- What may follow a `&`. -/
structure Proper (behind : Option CStr) (s : CStr) : Prop where
  ends : s = [] → EndsWell behind
  fits : ∀ c w rest, s = c :: (w ++ 59 :: rest) → c ≠ 35 → 59 ∉ w → 38 ∉ w → w.length ≠ 8
  number : ∀ e rest, s = 35 :: (e ++ 59 :: rest) → 59 ∉ e → 38 ∉ e → Plain e

section Agree

variable {behind : Option CStr} {c : UInt8} {e w s rest : CStr} {cp : Nat}

theorem digitVal_bounds {base : Nat} {b : UInt8} (hbase : base ≤ 16)
    (h : (digitVal base b).isSome = true) :
    isSpace b = false ∧ b ≠ 45 ∧ b ≠ 43 ∧ b ≠ 120 ∧ b ≠ 88 ∧ b ≠ 38 := by
  have hrank : digitRank b < 16 := by
    unfold digitVal at h
    split at h
    · next hlt => omega
    · cases h
  have hcases : 48 ≤ b.toNat ∧ b.toNat ≤ 57 ∨ 97 ≤ b.toNat ∧ b.toNat ≤ 102 ∨
      65 ≤ b.toNat ∧ b.toNat ≤ 70 := by
    unfold digitRank at hrank
    split_ifs at hrank with h1 h2 h3
    · exact .inl h1
    · exact .inr (.inl h2)
    · exact .inr (.inr h3)
    · omega
  have hne : ∀ x : UInt8, (x.toNat < 48 ∨ 102 < x.toNat ∨ 70 < x.toNat ∧ x.toNat < 97) → b ≠ x := by
    rintro x hx rfl
    omega
  refine ⟨?_, hne 45 (by decide), hne 43 (by decide), hne 120 (by decide), hne 88 (by decide),
    hne 38 (by decide)⟩
  unfold isSpace
  simp only [Bool.or_eq_false_iff, beq_eq_false_iff_ne, Bool.and_eq_false_imp, decide_eq_true_eq,
    decide_eq_false_iff_not, UInt8.le_iff_toNat_le]
  exact ⟨hne 32 (by decide), fun _ h13 => by
    have : (13 : UInt8).toNat = 13 := rfl
    omega⟩

/-- Digits alone are read as their number. -/
theorem sscanf_digits {base : Nat} {digits : CStr} (hbase : base ≤ 16) (hne : digits ≠ [])
    (hall : ∀ b ∈ digits, (digitVal base b).isSome = true) :
    sscanf base digits = .value (scanDigits base 0 digits).1 := by
  obtain ⟨b, t, rfl⟩ := List.exists_cons_of_ne_nil hne
  obtain ⟨hspace, hminus, hplus, -, -, -⟩ := digitVal_bounds hbase (hall b List.mem_cons_self)
  have hsign : ¬ (b = 45 ∨ b = 43) := by simp [hminus, hplus]
  have hmark : ¬ ((b :: t).take 2 = lit "0x" ∨ (b :: t).take 2 = lit "0X") := by
    have hx : ∀ x ∈ t, x ≠ 120 ∧ x ≠ 88 := by
      intro x hx
      obtain ⟨-, -, -, hx, hX, -⟩ := digitVal_bounds hbase (hall x (List.mem_cons_of_mem _ hx))
      exact ⟨hx, hX⟩
    have hlower : lit "0x" = [48, 120] := by decide
    have hupper : lit "0X" = [48, 88] := by decide
    rw [hlower, hupper]
    cases t with
    | nil => simp
    | cons x t =>
      have := hx x List.mem_cons_self
      simp [this.1, this.2]
  have hdrop : (b :: t).dropWhile isSpace = b :: t := by
    rw [List.dropWhile_cons_of_neg (by simp [hspace])]
  have hdigit : ¬ ((b :: t).head?.bind (digitVal base)).isNone = true := by
    have := hall b List.mem_cons_self
    rw [Option.isNone_iff_eq_none, List.head?_cons, Option.bind_some]
    intro hnone
    rw [hnone] at this
    cases this
  unfold sscanf
  simp only [hdrop, if_neg hsign, if_neg fun h : base = 16 ∧ _ => hmark h.2,
    if_neg fun h : _ ∧ _ => hdigit h.2, if_neg hminus]

theorem ofInt_natCast (n : Nat) : UInt8.ofInt (n : Int) = UInt8.ofNat n := by
  unfold UInt8.ofInt
  refine UInt8.toNat_inj.mp ?_
  simp only [UInt8.toNat_ofNat']
  omega

/-- A reference is read as its code point. -/
theorem scanReference_codePoint (h : codePoint e = some cp) :
    scanReference e = .value cp ∧ 38 ∉ e ∧ 1 ≤ cp := by
  have hof : ∀ {base : Nat} {digits : CStr}, base ≤ 16 → (if digits ≠ [] ∧
      (∀ b ∈ digits, (digitVal base b).isSome = true) ∧ 1 ≤ (scanDigits base 0 digits).1 ∧
      (scanDigits base 0 digits).1 ≤ 0x10FFFF then some (scanDigits base 0 digits).1 else none) =
        some cp → sscanf base digits = .value cp ∧ 38 ∉ digits ∧ 1 ≤ cp := by
    intro base digits hbase h
    split at h
    · next hcond =>
      obtain ⟨hne, hall, hpos, -⟩ := hcond
      obtain rfl : (scanDigits base 0 digits).1 = cp := Option.some.inj h
      refine ⟨sscanf_digits hbase hne hall, fun hmem => ?_, hpos⟩
      obtain ⟨-, -, -, -, -, hamp⟩ := digitVal_bounds hbase (hall 38 hmem)
      exact hamp rfl
    · cases h
  unfold codePoint at h
  unfold scanReference
  cases e with
  | nil => exact hof (by decide) h
  | cons b digits =>
    by_cases hb : b = 120 ∨ b = 88
    · have hhead : (b :: digits).head? = some 120 ∨ (b :: digits).head? = some 88 :=
        hb.imp (congrArg some) (congrArg some)
      rw [baseAndDigits, if_pos hb] at h
      rw [if_pos hhead]
      obtain ⟨hscan, hmem, hpos⟩ := hof (by decide) h
      refine ⟨hscan, ?_, hpos⟩
      rw [List.mem_cons, not_or]
      refine ⟨?_, hmem⟩
      rintro rfl
      revert hb
      decide
    · have hhead : ¬ ((b :: digits).head? = some 120 ∨ (b :: digits).head? = some 88) :=
        fun h => hb (h.imp Option.some.inj Option.some.inj)
      rw [baseAndDigits, if_neg hb] at h
      rw [if_neg hhead]
      exact hof (by decide) h

/-- A name has no `#` in front, and no reference is without one. -/
theorem reference_ne (hc : c ≠ 35) : reference (c :: s) = none := by
  unfold reference
  split
  · next heq => exact absurd (List.cons.inj heq).1 hc
  · rfl

/-- A `&` at the end stays, if the search for a semicolon does no harm. -/
theorem xmlUnescape_end : xmlUnescape behind [38] = some [38] ↔ EndsWell behind := by
  unfold xmlUnescape EndsWell
  rw [if_pos (by simp)]
  cases behind with
  | none => simp
  | some rest =>
    simp only [Option.bind_some, Option.some.injEq, exists_eq_left']
    cases hi : strchr rest 59 with
    | none =>
      refine iff_of_true rfl fun w tail heq hw => ?_
      rw [heq, strchr_semicolon hw] at hi
      cases hi
    | some i =>
      obtain ⟨w, tail, rfl, hw, rfl⟩ := exists_of_strchr hi
      have honly : (∀ w' tail', w ++ 59 :: tail = w' ++ 59 :: tail' → 59 ∉ w' → 38 ∉ w' →
          w'.length ≠ 8) ↔ (38 ∉ w → w.length ≠ 8) := by
        constructor
        · exact fun h hamp => h w tail rfl hw hamp
        · intro h w' tail' heq hw' hamp
          obtain ⟨rfl, -⟩ := append_cons_unique hw hw' heq
          exact h hamp
      rw [honly]
      dsimp only
      by_cases hany : (strchr (w ++ 59 :: tail) 38).any (· < w.length) = true
      · rw [if_pos hany]
        exact iff_of_true rfl fun hamp => absurd (strchr_amp_iff.mp hany) hamp
      have hamp : 38 ∉ w := fun h => hany (strchr_amp_iff.mpr h)
      have hhash : ¬ ([38] : CStr)[1]? = some 35 := by simp
      rw [if_neg hany, imp_iff_right hamp]
      by_cases hlong : w.length + 2 > 10
      · rw [if_pos hlong]
        exact iff_of_true rfl (by omega)
      rw [if_neg hlong, if_neg hhash]
      by_cases hover : w.length + 2 + 1 > 10
      · rw [if_pos hover]
        exact iff_of_false (by simp) (by omega)
      · have htake : ([38] : CStr).take (w.length + 2 + 1) = [38] := by simp
        have hnone : xmlEscapeTab.find? (fun e => strncmp [38] e.escaped e.len = 0) = none := by
          decide
        rw [if_neg hover, htake, hnone]
        exact iff_of_true rfl (by omega)

theorem proper_number_iff (he : 59 ∉ e) (hamp : 38 ∉ e) :
    Proper behind (35 :: (e ++ 59 :: rest)) ↔ Plain e := by
  constructor
  · exact fun h => h.number e rest rfl he hamp
  · intro h
    refine ⟨by simp, fun c w tail heq hc => ?_, fun e' tail heq he' _ => ?_⟩
    · exact absurd (List.cons.inj heq).1.symm hc
    · obtain ⟨rfl, -⟩ := append_cons_unique he he' (List.cons.inj heq).2
      exact h

theorem proper_name_iff (hw : 59 ∉ w) (hamp : 38 ∉ w) (hc : c ≠ 35) :
    Proper behind (c :: (w ++ 59 :: rest)) ↔ w.length ≠ 8 := by
  constructor
  · exact fun h => h.fits c w rest rfl hc hw hamp
  · intro h
    refine ⟨by simp, fun c' w' tail heq _ hw' _ => ?_, fun e tail heq => ?_⟩
    · obtain ⟨rfl, -⟩ := append_cons_unique hw hw' (List.cons.inj heq).2
      exact h
    · exact absurd (List.cons.inj heq).1 hc

/-- Of the last `&` nothing is made. -/
theorem agree_end : unescape behind [38] = some (unescaped [38]) ↔ Proper behind [] := by
  have hmeant : unescaped [38] = [38] := by
    rw [unescaped_other rfl (by decide), unescaped]
  have hproper : Proper behind [] ↔ EndsWell behind :=
    ⟨fun h => h.ends rfl, fun h => ⟨fun _ => h, by simp, by simp⟩⟩
  rw [hmeant, hproper, ← xmlUnescape_end]
  cases hone : xmlUnescape behind [38] with
  | none => simp [unescape_amp_none hone]
  | some out =>
    obtain ⟨c, s', rfl, hle⟩ := length_xmlUnescape hone
    obtain rfl : s' = [] := List.length_eq_zero_iff.mp (Nat.le_zero.mp hle)
    rw [unescape_amp hone]
    rfl

section Rest

variable (hrest : ∀ t, t <:+ s → unescape behind t = some (unescaped t))

include hrest

/-- A `&` that the code leaves alone. -/
theorem unescape_same (h : xmlUnescape behind (38 :: s) = some (38 :: s)) :
    unescape behind (38 :: s) = some (38 :: unescaped s) := by
  rw [unescape_amp h, hrest s (List.suffix_refl s), Option.map_some]

/-- One byte for what is between the `&` and the rest. -/
theorem unescape_replaced (h : xmlUnescape behind (38 :: s) = some (c :: rest))
    (hsuffix : rest <:+ s) : unescape behind (38 :: s) = some (c :: unescaped rest) := by
  rw [unescape_amp h, hrest rest hsuffix, Option.map_some]

end Rest

/-- The text of a reference that has not been replaced. -/
theorem unescaped_kept (hamp : 38 ∉ e) :
    unescaped (35 :: (e ++ 59 :: rest)) = 35 :: (e ++ 59 :: unescaped rest) := by
  rw [unescaped_cons (by decide), unescaped_append hamp, unescaped_cons (by decide)]

/-- Nothing that could be an entity: a reference is not seen if it is too long. -/
theorem agree_plain {u : CStr}
    (hrest : ∀ t, t <:+ c :: u → unescape behind t = some (unescaped t))
    (hno : ∀ w rest, u = w ++ 59 :: rest → 59 ∉ w → 38 ∉ w → 8 < w.length) :
    unescape behind (38 :: c :: u) = some (unescaped (38 :: c :: u)) ↔ Proper behind (c :: u) := by
  rw [unescape_same hrest (xmlUnescape_plain hno), Option.some.injEq]
  have hname : named (c :: u) = none := by
    cases hname : named (c :: u) with
    | none => rfl
    | some r =>
      obtain ⟨w, rest, rfl, hw, hamp, hlt⟩ := named_eq_some hname
      have := hno w rest rfl hw hamp
      omega
  cases href : reference (c :: u) with
  | none =>
    rw [unescaped_other href hname]
    refine iff_of_true rfl ⟨by simp, ?_, ?_⟩
    · intro c' w rest heq _ hw hamp
      have := hno w rest (List.cons.inj heq).2 hw hamp
      omega
    · intro e rest heq he hamp
      obtain ⟨rfl, rfl⟩ := List.cons.inj heq
      have hnone : codePoint e = none := by
        have happend := @reference_append e rest he
        rw [List.cons_append, href] at happend
        exact Option.map_eq_none_iff.mp happend.symm
      unfold Plain
      rw [hnone]
      exact .inl (hno e rest rfl he hamp)
  | some r =>
    obtain ⟨cp, rest⟩ := r
    rw [unescaped_reference href]
    obtain ⟨e, heq, he, hcp⟩ := reference_eq_some href
    rw [List.cons_append] at heq
    obtain ⟨rfl, rfl⟩ := List.cons.inj heq
    obtain ⟨-, hamp, -⟩ := scanReference_codePoint hcp
    have hlong := hno e rest rfl he hamp
    rw [proper_number_iff he hamp]
    refine iff_of_false (fun hsame => ?_) fun hplain => ?_
    · have hlength := congrArg List.length hsame
      have := (length_utf8 cp).2
      rw [unescaped_kept hamp] at hlength
      simp only [List.length_cons, List.length_append] at hlength
      omega
    · unfold Plain at hplain
      rw [hcp] at hplain
      omega

/-- A reference that is seen. -/
theorem agree_number
    (hrest : ∀ t, t <:+ 35 :: (w ++ 59 :: rest) → unescape behind t = some (unescaped t))
    (hw : 59 ∉ w) (hamp : 38 ∉ w) (hshort : w.length ≤ 8) :
    unescape behind (38 :: 35 :: (w ++ 59 :: rest)) =
      some (unescaped (38 :: 35 :: (w ++ 59 :: rest))) ↔ Proper behind (35 :: (w ++ 59 :: rest)) := by
  have hone := @xmlUnescape_number behind w rest hw hamp hshort
  have hsuffix : rest <:+ 35 :: (w ++ 59 :: rest) :=
    ⟨35 :: w ++ [59], by simp⟩
  have href := @reference_append w rest hw
  rw [List.cons_append] at href
  rw [proper_number_iff hw hamp]
  unfold Plain
  cases hcp : codePoint w with
  | some cp =>
    rw [hcp, Option.map_some] at href
    obtain ⟨hscan, -, -⟩ := scanReference_codePoint hcp
    rw [hscan] at hone
    rw [unescape_replaced hrest hone hsuffix, unescaped_reference href, Option.some.injEq,
      ← List.singleton_append, List.append_cancel_right_eq]
    constructor
    · intro heq
      have hlength := congrArg List.length heq
      exact ⟨(length_utf8_eq_one_iff cp).mp hlength.symm, hshort⟩
    · rintro ⟨hlt, -⟩
      unfold utf8
      rw [if_pos hlt, ofInt_natCast]
  | none =>
    rw [hcp, Option.map_none] at href
    have hmeant : unescaped (38 :: 35 :: (w ++ 59 :: rest)) =
        38 :: 35 :: (w ++ 59 :: unescaped rest) := by
      rw [unescaped_other href (named_hash _), unescaped_kept hamp]
    have hshorter : ∀ {c : UInt8}, xmlUnescape behind (38 :: 35 :: (w ++ 59 :: rest)) =
        some (c :: rest) → ¬ unescape behind (38 :: 35 :: (w ++ 59 :: rest)) =
          some (unescaped (38 :: 35 :: (w ++ 59 :: rest))) := by
      intro c h heq
      rw [unescape_replaced hrest h hsuffix, hmeant, Option.some.injEq] at heq
      have hlength := congrArg List.length heq
      simp only [List.length_cons, List.length_append] at hlength
      omega
    cases hscan : scanReference w with
    | failed =>
      rw [hscan] at hone
      refine iff_of_true ?_ (.inr rfl)
      rw [unescape_same hrest hone, hmeant, unescaped_kept hamp]
    | eof =>
      rw [hscan] at hone
      refine iff_of_false (hshorter hone) ?_
      rintro (h | h)
      · omega
      · cases h
    | value n =>
      rw [hscan] at hone
      refine iff_of_false (hshorter hone) ?_
      rintro (h | h)
      · omega
      · cases h

/-- What may be a name. -/
theorem agree_name
    (hrest : ∀ t, t <:+ c :: (w ++ 59 :: rest) → unescape behind t = some (unescaped t))
    (hw : 59 ∉ w) (hamp : 38 ∉ w) (hc : c ≠ 35) (hshort : w.length ≤ 8) :
    unescape behind (38 :: c :: (w ++ 59 :: rest)) =
      some (unescaped (38 :: c :: (w ++ 59 :: rest))) ↔ Proper behind (c :: (w ++ 59 :: rest)) := by
  rw [proper_name_iff hw hamp hc]
  by_cases hlen : w.length = 8
  · rw [unescape_amp_none (xmlUnescape_over hw hamp hc hlen)]
    exact iff_of_false (by simp) fun h => h hlen
  · refine iff_of_true ?_ hlen
    have hone := @xmlUnescape_named behind c w rest hw hamp hc (by omega)
    have href : reference (c :: (w ++ 59 :: rest)) = none := reference_ne hc
    cases hname : named (c :: (w ++ 59 :: rest)) with
    | none =>
      rw [hname] at hone
      rw [unescape_same hrest hone, unescaped_other href hname]
    | some r =>
      obtain ⟨b, rest'⟩ := r
      rw [hname] at hone
      have hsuffix : rest' <:+ c :: (w ++ 59 :: rest) := by
        obtain ⟨e, -, heq⟩ := Option.map_eq_some_iff.mp hname
        cases heq
        exact List.drop_suffix _ _
      rw [unescape_replaced hrest hone hsuffix, unescaped_named href hname]

/-- A `&` and what comes behind it: as meant exactly if that is proper, where the rest is as
meant in any case. -/
theorem agree_amp (hrest : ∀ t, t <:+ s → unescape behind t = some (unescaped t)) :
    unescape behind (38 :: s) = some (unescaped (38 :: s)) ↔ Proper behind s := by
  cases s with
  | nil => exact agree_end
  | cons c u =>
    by_cases hentity : ∃ w rest, u = w ++ 59 :: rest ∧ 59 ∉ w ∧ 38 ∉ w ∧ w.length ≤ 8
    · obtain ⟨w, rest, rfl, hw, hamp, hshort⟩ := hentity
      by_cases hc : c = 35
      · subst hc
        exact agree_number hrest hw hamp hshort
      · exact agree_name hrest hw hamp hc hshort
    · refine agree_plain hrest fun w rest heq hw hamp => ?_
      by_contra hle
      exact hentity ⟨w, rest, heq, hw, hamp, by omega⟩

/-- Unescaping makes of a text, and of every text that it ends with, what it is to become
exactly if what follows is proper at every `&`. Errors in two places could make up for each
other, so the ends are in the statement. -/
theorem unescape_eq_iff (behind : Option CStr) (text : CStr) :
    (∀ s, s <:+ text → unescape behind s = some (unescaped s)) ↔
      ∀ s, 38 :: s <:+ text → Proper behind s := by
  induction text with
  | nil =>
    refine iff_of_true (fun s hs => ?_) fun s hs => absurd (List.suffix_nil.mp hs) (by simp)
    rw [List.suffix_nil.mp hs, unescaped]
    rfl
  | cons b text ih =>
    have hends : ∀ {P : CStr → Prop}, (∀ s, s <:+ b :: text → P s) ↔
        P (b :: text) ∧ ∀ s, s <:+ text → P s := by
      intro P
      simp only [List.suffix_cons_iff]
      exact ⟨fun h => ⟨h _ (.inl rfl), fun s hs => h s (.inr hs)⟩,
        fun h s hs => hs.elim (fun heq => heq ▸ h.1) (h.2 s)⟩
    rw [hends]
    by_cases hb : b = 38
    · subst hb
      have hamps : (∀ s, 38 :: s <:+ 38 :: text → Proper behind s) ↔
          Proper behind text ∧ ∀ s, 38 :: s <:+ text → Proper behind s := by
        simp only [List.suffix_cons_iff, List.cons.injEq, true_and]
        exact ⟨fun h => ⟨h _ (.inl rfl), fun s hs => h s (.inr hs)⟩,
          fun h s hs => hs.elim (fun heq => heq ▸ h.1) (h.2 s)⟩
      rw [hamps, ← ih]
      exact and_congr_left fun hrest => agree_amp hrest
    · have hamps : (∀ s, 38 :: s <:+ b :: text → Proper behind s) ↔
          ∀ s, 38 :: s <:+ text → Proper behind s := by
        refine forall_congr' fun s => ?_
        rw [List.suffix_cons_iff, or_iff_right fun heq => hb (List.cons.inj heq).1.symm]
      rw [hamps, ← ih]
      refine and_iff_right_of_imp fun hrest => ?_
      rw [unescape_cons hb, hrest text (List.suffix_refl _), unescaped_cons hb]
      rfl

/-- The letter é. -/
theorem not_unescape_eq : ¬ ∀ s, s <:+ lit "&#233;" → unescape (some []) s = some (unescaped s) := by
  intro h
  have hcode : unescape (some []) (lit "&#233;") = some [0xE9] := by decide
  have htext : lit "&#233;" = 38 :: lit "#233;" := by decide
  have href : reference (lit "#233;") = some (233, []) := by decide +kernel
  have hutf8 : utf8 233 = [0xC3, 0xA9] := by decide
  have hboth := h (lit "&#233;") (List.suffix_refl _)
  rw [hcode, htext, unescaped_reference href, hutf8, unescaped] at hboth
  exact absurd hboth (by decide)

end Agree

end Sfcb.CimXml
