import Sfcb.InteropProvider.Tables
import Sfcb.Paths.ObjectPath

/-!
# Normalized keys

`normalizeObjectPathCharsDup` writes the keys of a path in the order of their names. The text
is the key of an instance in the repository, and of the entries in the tables of the interop
provider. Strings are put in quotes, but a quote in a string is written as it is.

`separates_iff`: for which types of keys, with quotes in strings or without, and with nulls or
without, paths with the same text have the same keys.

Mirroring notes:
- `CMGetNameSpace` always gives a string object, so the namespace of the outer path is not
  used. The string in the object can be null.
- `qsort` is applied to names that are pairwise different.
-/

namespace Sfcb.Paths

open Sfcb.Lib

/-- The keys in the order of their names, as they are written. -/
def joinSorted (ids : List (CStr × CStr)) : CStr :=
  (lit ",").intercalate ((ids.insertionSort fun k l => strcasecmp k.1 l.1 ≤ 0).map
    fun k => k.1 ++ lit "=" ++ k.2)

mutual

/-- What `normalizeObjectPathStrBuf` appends for a value. -/
def Value.normalText : Value → CStr
  | .ref nameSpace className keys =>
    (nameSpace.elim [] fun ns => ns ++ lit ":") ++ fold className ++ lit "." ++
      joinSorted (normalTexts keys)
  | .string s => (Value.string s).simpleChars
  | .dateTime s => (Value.dateTime s).simpleChars
  | .boolean b => (Value.boolean b).simpleChars
  | .char16 c => (Value.char16 c).simpleChars
  | .uint n => (Value.uint n).simpleChars
  | .sint n => (Value.sint n).simpleChars
  | .real32 bits => (Value.real32 bits).simpleChars
  | .real64 bits => (Value.real64 bits).simpleChars
  | .null kind h => (Value.null kind h).simpleChars

/-- The names in lower case, with the texts of the values. -/
def normalTexts : List (CStr × Value) → List (CStr × CStr)
  | [] => []
  | (name, v) :: keys => (fold name, v.normalText) :: normalTexts keys

end

/-- `normalizeObjectPathCharsDup`. -/
def normalizeObjectPathCharsDup (cop : Cop) : CStr := joinSorted (normalTexts cop.keys)

theorem normalTexts_eq_map (keys : List (CStr × Value)) :
    normalTexts keys = keys.map fun k => (fold k.1, k.2.normalText) := by
  induction keys with
  | nil => rfl
  | cons k keys ih =>
    rw [normalTexts, ih]
    rfl

theorem normalText_of_ne_ref {v : Value} (h : v.kind ≠ .ref) : v.normalText = v.simpleChars := by
  cases v with
  | ref => exact absurd rfl h
  | _ => rfl

/-! ## The keys of the tables -/

theorem toLower_toLower (b : UInt8) : toLower (toLower b) = toLower b := by
  unfold toLower
  split
  · next h =>
    rw [if_neg]
    simp only [UInt8.le_iff_toNat_le, UInt8.toNat_add, UInt8.reduceToNat] at h ⊢
    omega
  · rfl

@[simp] theorem fold_fold (s : CStr) : fold (fold s) = fold s := by
  simp [fold, toLower_toLower]

@[simp] theorem strcasecmp_fold (s t : CStr) : strcasecmp (fold s) (fold t) = strcasecmp s t := by
  show strcmp (fold (fold s)) (fold (fold t)) = _
  rw [fold_fold, fold_fold]
  rfl

/-- The interop provider has the texts of the values. -/
theorem normalizeObjectPathCharsDup_eq (cop : Cop) (nameSpace : CStr) :
    InteropProvider.normalizeObjectPathCharsDup
        ⟨nameSpace, cop.className, cop.keys.map fun k => (k.1, k.2.normalText)⟩ =
      normalizeObjectPathCharsDup cop := by
  have hsort := List.map_insertionSort (fun k l : CStr × CStr => strcasecmp k.1 l.1 ≤ 0)
    (fun k l : CStr × CStr => strcasecmp k.1 l.1 ≤ 0) (fun k => (fold k.1, k.2))
    (cop.keys.map fun k => (k.1, k.2.normalText)) fun k _ l _ => by rw [strcasecmp_fold]
  have hcomp : (fun k : CStr × CStr => (fold k.1, k.2)) ∘
      (fun k : CStr × Value => (k.1, k.2.normalText)) =
        fun k => (fold k.1, k.2.normalText) := rfl
  rw [List.map_map, hcomp, ← normalTexts_eq_map] at hsort
  unfold InteropProvider.normalizeObjectPathCharsDup normalizeObjectPathCharsDup joinSorted
  rw [← hsort, List.map_map]
  rfl

/-! ## Cutting a text -/

/-- The text goes on with `c`, if at all. -/
def GoesOn (c : UInt8) (rest : CStr) : Prop := ∀ b ∈ rest.head?, b = c

theorem goesOn_nil (c : UInt8) : GoesOn c [] := fun _ h => absurd h (by simp)

theorem goesOn_cons (c : UInt8) (rest : CStr) : GoesOn c (c :: rest) := by
  intro b hb
  rw [List.head?_cons, Option.mem_some_iff] at hb
  exact hb.symm

/-- Where `c` is the end, the parts in front of it are the same. -/
theorem append_inj_of_goesOn {c : UInt8} {a b r r' : CStr} (ha : c ∉ a) (hb : c ∉ b)
    (hr : GoesOn c r) (hr' : GoesOn c r') (h : a ++ r = b ++ r') : a = b ∧ r = r' := by
  induction a generalizing b with
  | nil =>
    cases b with
    | nil => exact ⟨rfl, h⟩
    | cons y b =>
      rw [List.nil_append] at h
      have hy : y = c := hr y (by rw [h]; rfl)
      exact absurd (hy ▸ List.mem_cons_self) hb
  | cons x a ih =>
    cases b with
    | nil =>
      rw [List.nil_append] at h
      have hx : x = c := hr' x (by rw [← h]; rfl)
      exact absurd (hx ▸ List.mem_cons_self) ha
    | cons y b =>
      obtain ⟨rfl, htail⟩ := List.cons.inj h
      obtain ⟨rfl, hrest⟩ := ih (fun hc => ha (List.mem_cons_of_mem _ hc))
        (fun hc => hb (List.mem_cons_of_mem _ hc)) htail
      exact ⟨rfl, hrest⟩

/-- Where `c` is the start of the rest and not in it again. -/
theorem append_inj_of_last {c : UInt8} {a b r r' : CStr} (hr : c ∉ r) (hr' : c ∉ r')
    (h : a ++ c :: r = b ++ c :: r') : a = b ∧ r = r' := by
  have hrev := congrArg List.reverse h
  simp only [List.reverse_append, List.reverse_cons, List.append_assoc] at hrev
  obtain ⟨hrest, htail⟩ := append_inj_of_goesOn (fun hc => hr (List.mem_reverse.mp hc))
    (fun hc => hr' (List.mem_reverse.mp hc)) (goesOn_cons c _) (goesOn_cons c _) hrev
  exact ⟨List.reverse_injective (List.cons.inj htail).2, List.reverse_injective hrest⟩

/-! ## The text of a value -/

theorem numeral_injective {m n : Nat} (h : numeral 10 m = numeral 10 n) : m = n := by
  have hscan := congrArg (fun s => (scanDigits 10 0 s).1) h
  simpa only [scanDigits_numeral_self] using hscan

theorem printInt_injective {m n : Int} (h : printInt m = printInt n) : m = n := by
  have hdigit : ∀ k : Nat, (numeral 10 k).head? ≠ some 45 := by
    intro k hk
    exact absurd (isDigit_of_mem_numeral (List.mem_of_mem_head? hk)) (by decide)
  unfold printInt at h
  split at h <;> split at h
  · have := numeral_injective (List.cons.inj h).2
    omega
  · exact absurd (by rw [← h]; rfl) (hdigit n.natAbs)
  · exact absurd (by rw [h]; rfl) (hdigit m.natAbs)
  · have := numeral_injective h
    omega

/-- The bytes of a number are digits and the sign. -/
theorem mem_printInt {n : Int} {b : UInt8} (h : b ∈ printInt n) : isDigit b = true ∨ b = 45 := by
  unfold printInt at h
  split at h
  · rcases List.mem_cons.mp h with rfl | h
    · exact .inr rfl
    · exact .inl (isDigit_of_mem_numeral h)
  · exact .inl (isDigit_of_mem_numeral h)

/-- A string, a boolean or an integer: the others are not written so that they can be read. -/
def Kind.IsPrinted (kind : Kind) : Prop := kind ≠ .ref ∧ kind ≠ .char16 ∧ kind ≠ .real

instance : DecidablePred Kind.IsPrinted := fun _ => inferInstanceAs (Decidable (_ ∧ _ ∧ _))

/-- A value that is printed, and no null that looks like a value. -/
structure Value.IsPrinted (v : Value) : Prop where
  kind : v.kind.IsPrinted
  null : v.isNull = true → v.kind = .string

/-- What a value that is no string looks like. -/
theorem printed_cases {v : Value} (h : v.IsPrinted) (hs : v.kind ≠ .string) :
    (∃ b : Bool, v.meaning = .boolean b ∧
      v.simpleChars = if b then lit "true" else lit "false") ∨
    ∃ n : Int, v.meaning = .integer n ∧ v.simpleChars = printInt n := by
  cases v with
  | string | dateTime => exact absurd rfl hs
  | boolean b => exact .inl ⟨b, rfl, rfl⟩
  | char16 => exact absurd rfl h.kind.2.1
  | uint n => exact .inr ⟨n.toNat, rfl, rfl⟩
  | sint n => exact .inr ⟨n.toInt, rfl, rfl⟩
  | real32 | real64 => exact absurd rfl h.kind.2.2
  | null => exact absurd (h.null rfl) hs
  | ref => exact absurd rfl h.kind.1

/-- A string is in quotes, or it is a null and nothing is written. -/
theorem string_cases {v : Value} (hs : v.kind = .string) :
    (∃ s, v.meaning = .string s ∧ v.simpleChars = 34 :: (s ++ [34])) ∨
      v.meaning = .null .string ∧ v.simpleChars = [] := by
  cases v with
  | string s | dateTime s => exact .inl ⟨s, rfl, rfl⟩
  | null kind h =>
    obtain rfl : kind = .string := hs
    exact .inr ⟨rfl, rfl⟩
  | _ => exact absurd hs nofun

theorem printInt_ne_nil (n : Int) : printInt n ≠ [] := by
  unfold printInt
  split
  · exact List.cons_ne_nil _ _
  · exact numeral_ne_nil (by decide) _

/-- There is no quote and no comma in it. -/
theorem notMem_simpleChars {v : Value} (h : v.IsPrinted) (hs : v.kind ≠ .string) :
    34 ∉ v.simpleChars ∧ 44 ∉ v.simpleChars := by
  rcases printed_cases h hs with ⟨b, -, hb⟩ | ⟨n, -, hn⟩
  · rw [hb]
    cases b <;> decide
  · rw [hn]
    constructor <;> intro h <;> rcases mem_printInt h with h | h <;> exact absurd h (by decide)

theorem simpleChars_ne_nil {v : Value} (h : v.IsPrinted) (hs : v.kind ≠ .string) :
    v.simpleChars ≠ [] := by
  rcases printed_cases h hs with ⟨b, -, hb⟩ | ⟨n, -, hn⟩
  · rw [hb]
    cases b <;> decide
  · rw [hn]
    exact printInt_ne_nil n

/-- What is printed says what the value is. -/
theorem meaning_of_simpleChars {v v' : Value} (h : v.IsPrinted) (h' : v'.IsPrinted)
    (hs : v.kind ≠ .string) (hs' : v'.kind ≠ .string) (heq : v.simpleChars = v'.simpleChars) :
    v.meaning = v'.meaning := by
  have hbool : ∀ (b : Bool) (n : Int),
      (if b then lit "true" else lit "false") ≠ printInt n := by
    intro b n hbn
    have hmem : (101 : UInt8) ∈ printInt n := by
      rw [← hbn]
      cases b <;> decide
    rcases mem_printInt hmem with h | h <;> exact absurd h (by decide)
  rcases printed_cases h hs with ⟨b, hm, hb⟩ | ⟨n, hm, hn⟩ <;>
    rcases printed_cases h' hs' with ⟨b', hm', hb'⟩ | ⟨n', hm', hn'⟩
  · rw [hb, hb'] at heq
    have hbb : b = b' := by
      cases b <;> cases b' <;> first | rfl | exact absurd heq (by decide)
    rw [hm, hm', hbb]
  · exact absurd (hb.symm.trans (heq.trans hn')) (hbool b n')
  · exact absurd (hb'.symm.trans (heq.symm.trans hn)) (hbool b' n)
  · rw [hm, hm', printInt_injective (hn.symm.trans (heq.trans hn'))]

mutual

/-- No string in the value has a quote. -/
def Value.QuoteFree : Value → Prop
  | .string s | .dateTime s => 34 ∉ s
  | .ref _ _ keys => quoteFree keys
  | .boolean _ | .char16 _ | .uint _ | .sint _ | .real32 _ | .real64 _ | .null .. => True

def quoteFree : List (CStr × Value) → Prop
  | [] => True
  | (_, v) :: keys => v.QuoteFree ∧ quoteFree keys

end

theorem quoteFree_iff (keys : List (CStr × Value)) :
    quoteFree keys ↔ ∀ k ∈ keys, k.2.QuoteFree := by
  induction keys with
  | nil => exact ⟨fun _ _ h => absurd h List.not_mem_nil, fun _ => trivial⟩
  | cons k keys ih => rw [quoteFree, ih, List.forall_mem_cons]

theorem notMem_of_quoteFree {v : Value} {s : CStr} (h : v.QuoteFree) (hm : v.meaning = .string s) :
    34 ∉ s := by
  cases v with
  | string t | dateTime t => exact Meaning.string.inj hm ▸ h
  | _ => exact absurd hm nofun

theorem simpleChars_string (s r : CStr) :
    (Value.string s).simpleChars ++ r = 34 :: (s ++ 34 :: r) := by
  show [34] ++ s ++ [34] ++ r = _
  simp

/-- The first byte of what is no string is neither a quote nor a comma. -/
theorem simpleChars_append_cons {v : Value} (h : v.IsPrinted) (hs : v.kind ≠ .string) (r : CStr) :
    ∃ b t, v.simpleChars ++ r = b :: t ∧ b ≠ 34 ∧ b ≠ 44 := by
  obtain ⟨b, t, hcons⟩ := List.exists_cons_of_ne_nil (simpleChars_ne_nil h hs)
  have hmem := notMem_simpleChars h hs
  rw [hcons] at hmem ⊢
  refine ⟨b, t ++ r, rfl, ?_, ?_⟩ <;> rintro rfl
  · exact hmem.1 List.mem_cons_self
  · exact hmem.2 List.mem_cons_self

/-- A string and something else are told apart by the first byte. -/
theorem kind_string_iff {v v' : Value} {r r' : CStr} (h : v.IsPrinted) (h' : v'.IsPrinted)
    (hr : GoesOn 44 r) (hr' : GoesOn 44 r') (heq : v.simpleChars ++ r = v'.simpleChars ++ r') :
    v.kind = .string ↔ v'.kind = .string := by
  have hfirst : ∀ {v v' : Value} {r r' : CStr}, v'.IsPrinted → GoesOn 44 r →
      v.simpleChars ++ r = v'.simpleChars ++ r' → v.kind = .string → v'.kind = .string := by
    intro v v' r r' h' hr heq hs
    refine Decidable.byContradiction fun hs' => ?_
    obtain ⟨b, t, hcons, hquote, hcomma⟩ := simpleChars_append_cons h' hs' r'
    rcases string_cases hs with ⟨s, -, hchars⟩ | ⟨-, hchars⟩
    · rw [hchars, hcons, List.cons_append] at heq
      exact hquote (List.cons.inj heq).1.symm
    · rw [hchars, hcons, List.nil_append] at heq
      exact hcomma (hr b (by rw [heq]; rfl))
  exact ⟨hfirst h' hr heq, hfirst h hr' heq.symm⟩

/-- A value can be cut off the text: a comma ends it, or a quote; or it ends with the last
quote. -/
theorem simpleChars_append_inj {v v' : Value} {r r' : CStr} (h : v.IsPrinted)
    (h' : v'.IsPrinted) (hr : GoesOn 44 r) (hr' : GoesOn 44 r')
    (hq : v.kind = .string → v.QuoteFree ∧ v'.QuoteFree ∨ 34 ∉ r ∧ 34 ∉ r')
    (heq : v.simpleChars ++ r = v'.simpleChars ++ r') : v.meaning = v'.meaning ∧ r = r' := by
  have hkind := kind_string_iff h h' hr hr' heq
  have hnull : ∀ {s r t : CStr}, GoesOn 44 t → ¬(34 :: (s ++ [34]) ++ r = t) := by
    rintro s r _ ht rfl
    exact absurd (ht 34 rfl) (by decide)
  by_cases hs : v.kind = .string
  · have hs' := hkind.mp hs
    rcases string_cases hs with ⟨s, hm, hchars⟩ | ⟨hm, hchars⟩ <;>
      rcases string_cases hs' with ⟨s', hm', hchars'⟩ | ⟨hm', hchars'⟩ <;>
      rw [hchars, hchars'] at heq
    · have hquoted : s ++ 34 :: r = s' ++ 34 :: r' := by
        simpa using heq
      have hcut : s = s' ∧ r = r' := by
        rcases hq hs with ⟨hfree, hfree'⟩ | ⟨hlast, hlast'⟩
        · obtain ⟨hss, hrr⟩ := append_inj_of_goesOn (notMem_of_quoteFree hfree hm)
            (notMem_of_quoteFree hfree' hm') (goesOn_cons 34 r) (goesOn_cons 34 r') hquoted
          exact ⟨hss, (List.cons.inj hrr).2⟩
        · exact append_inj_of_last hlast hlast' hquoted
      exact ⟨by rw [hm, hm', hcut.1], hcut.2⟩
    · exact absurd heq (hnull hr')
    · exact absurd heq.symm (hnull hr)
    · exact ⟨by rw [hm, hm'], heq⟩
  · have hs' := fun hstring => hs (hkind.mpr hstring)
    obtain ⟨hchars, hrest⟩ := append_inj_of_goesOn (notMem_simpleChars h hs).2
      (notMem_simpleChars h' hs').2 hr hr' heq
    exact ⟨meaning_of_simpleChars h h' hs hs' hchars, hrest⟩

/-! ## The text of all keys -/

/-- The keys of a text, each with a comma in front. -/
def keyTexts (keys : List (CStr × Value)) : CStr :=
  keys.flatMap fun k => 44 :: (k.1 ++ 61 :: k.2.simpleChars)

theorem keyTexts_cons (k : CStr × Value) (keys : List (CStr × Value)) :
    keyTexts (k :: keys) = 44 :: (k.1 ++ 61 :: (k.2.simpleChars ++ keyTexts keys)) := by
  show 44 :: (k.1 ++ 61 :: k.2.simpleChars) ++ keyTexts keys = _
  simp

theorem goesOn_keyTexts (keys : List (CStr × Value)) : GoesOn 44 (keyTexts keys) := by
  cases keys with
  | nil => exact goesOn_nil 44
  | cons k keys =>
    rw [keyTexts_cons]
    exact goesOn_cons 44 _

/-- The number of strings. -/
def strings (keys : List (CStr × Value)) : Nat := keys.countP fun k => k.2.kind = .string

/-- Proper names, and values that are printed. -/
def ArePrinted (keys : List (CStr × Value)) : Prop :=
  ∀ k ∈ keys, IsName k.1 ∧ k.2.IsPrinted

/-- Only strings bring quotes. -/
theorem notMem_keyTexts {keys : List (CStr × Value)} (h : ArePrinted keys)
    (hs : strings keys = 0) : 34 ∉ keyTexts keys := by
  intro hmem
  obtain ⟨k, hk, hmem⟩ := List.mem_flatMap.mp hmem
  have hkind : k.2.kind ≠ .string := by simpa using List.countP_eq_zero.mp hs k hk
  have hname := notMem_of_isName (h k hk).1 (c := 34) (by decide) (by decide)
  have hvalue := (notMem_simpleChars (h k hk).2 hkind).1
  simp [hname, hvalue] at hmem

/-- The text of the keys says which they are. -/
theorem keys_eq_of_keyTexts {keys keys' : List (CStr × Value)} (h : ArePrinted keys)
    (h' : ArePrinted keys')
    (hq : (∀ k ∈ keys, k.2.QuoteFree) ∧ (∀ k ∈ keys', k.2.QuoteFree) ∨
      strings keys ≤ 1 ∧ strings keys' ≤ 1)
    (heq : keyTexts keys = keyTexts keys') :
    (keys.map fun k => (k.1, k.2.meaning)) = keys'.map fun k => (k.1, k.2.meaning) := by
  induction keys generalizing keys' with
  | nil =>
    cases keys' with
    | nil => rfl
    | cons k' keys' => rw [keyTexts_cons] at heq; exact absurd heq nofun
  | cons k keys ih =>
    cases keys' with
    | nil => rw [keyTexts_cons] at heq; exact absurd heq nofun
    | cons k' keys' =>
      rw [keyTexts_cons, keyTexts_cons] at heq
      obtain ⟨hname, hvalue⟩ := h k List.mem_cons_self
      obtain ⟨hname', hvalue'⟩ := h' k' List.mem_cons_self
      have hrest : ArePrinted keys := fun k hk => h k (List.mem_cons_of_mem _ hk)
      have hrest' : ArePrinted keys' := fun k hk => h' k (List.mem_cons_of_mem _ hk)
      obtain ⟨hn, hv⟩ := append_inj_of_goesOn
        (notMem_of_isName hname (by decide) (by decide))
        (notMem_of_isName hname' (by decide) (by decide))
        (goesOn_cons 61 _) (goesOn_cons 61 _) (List.cons.inj heq).2
      have hv := (List.cons.inj hv).2
      have hkind := kind_string_iff hvalue hvalue' (goesOn_keyTexts keys) (goesOn_keyTexts keys') hv
      have hcut : k.2.meaning = k'.2.meaning ∧ keyTexts keys = keyTexts keys' := by
        refine simpleChars_append_inj hvalue hvalue' (goesOn_keyTexts keys)
          (goesOn_keyTexts keys') (fun hs => ?_) hv
        rcases hq with ⟨hfree, hfree'⟩ | ⟨hone, hone'⟩
        · exact .inl ⟨hfree k List.mem_cons_self, hfree' k' List.mem_cons_self⟩
        · rw [strings, List.countP_cons_of_pos (by simpa using hs)] at hone
          rw [strings, List.countP_cons_of_pos (by simpa using hkind.mp hs)] at hone'
          exact .inr ⟨notMem_keyTexts hrest (by unfold strings; omega),
            notMem_keyTexts hrest' (by unfold strings; omega)⟩
      rw [List.map_cons, List.map_cons, hn, hcut.1, ih hrest hrest' ?_ hcut.2]
      rcases hq with ⟨hfree, hfree'⟩ | ⟨hone, hone'⟩
      · exact .inl ⟨fun k hk => hfree k (List.mem_cons_of_mem _ hk),
          fun k hk => hfree' k (List.mem_cons_of_mem _ hk)⟩
      · rw [strings, List.countP_cons] at hone hone'
        exact .inr ⟨by unfold strings; omega, by unfold strings; omega⟩

/-! ## The same keys -/

mutual

/-- A value where neither the case of names nor the order of keys matters. -/
def Meaning.normal : Meaning → Meaning
  | .ref nameSpace className keys =>
    .ref nameSpace (fold className)
      ((normalMeanings keys).insertionSort fun k l => strcasecmp k.1 l.1 ≤ 0)
  | .string s => .string s
  | .boolean b => .boolean b
  | .char16 c => .char16 c
  | .integer n => .integer n
  | .real32 bits => .real32 bits
  | .real64 bits => .real64 bits
  | .null kind => .null kind

def normalMeanings : List (CStr × Meaning) → List (CStr × Meaning)
  | [] => []
  | (name, m) :: keys => (fold name, m.normal) :: normalMeanings keys

end

/-- The name of a key without its case, and its value. -/
def keyMeaning (k : CStr × Value) : CStr × Meaning := (fold k.1, k.2.meaning.normal)

/-- The paths have the same set of keys with the same values. -/
def SameKeys (p q : Cop) : Prop := (p.keys.map keyMeaning).Perm (q.keys.map keyMeaning)

/-- The keys in the order in which they are written. -/
def sortedKeys (keys : List (CStr × Value)) : List (CStr × Value) :=
  (keys.map fun k => (fold k.1, k.2)).insertionSort fun k l => strcasecmp k.1 l.1 ≤ 0

theorem joinSorted_normalTexts (keys : List (CStr × Value)) :
    joinSorted (normalTexts keys) = (lit ",").intercalate ((sortedKeys keys).map fun k =>
      k.1 ++ lit "=" ++ k.2.normalText) := by
  have hsort := List.map_insertionSort (fun k l : CStr × Value => strcasecmp k.1 l.1 ≤ 0)
    (fun k l : CStr × CStr => strcasecmp k.1 l.1 ≤ 0) (fun k => (k.1, k.2.normalText))
    (keys.map fun k => (fold k.1, k.2)) fun k _ l _ => Iff.rfl
  have hcomp : (fun k : CStr × Value => (k.1, k.2.normalText)) ∘
      (fun k : CStr × Value => (fold k.1, k.2)) = fun k => (fold k.1, k.2.normalText) := rfl
  rw [List.map_map, hcomp, ← normalTexts_eq_map] at hsort
  rw [joinSorted, ← hsort, List.map_map]
  rfl

theorem intercalate_cons (x : CStr) (xs : List CStr) :
    (lit ",").intercalate (x :: xs) = x ++ xs.flatMap fun y => 44 :: y := by
  induction xs generalizing x with
  | nil => simp [List.intercalate]
  | cons y xs ih =>
    have hstep : (lit ",").intercalate (x :: y :: xs) =
        x ++ lit "," ++ (lit ",").intercalate (y :: xs) := by
      simp [List.intercalate]
    rw [hstep, ih, List.flatMap_cons, List.append_assoc]
    rfl

theorem sortedKeys_perm (keys : List (CStr × Value)) :
    (sortedKeys keys).Perm (keys.map fun k => (fold k.1, k.2)) :=
  List.perm_insertionSort _ _

theorem toLower_isName {c : UInt8} (h : isalnum c = true ∨ c = 95) :
    isalnum (toLower c) = true ∨ toLower c = 95 := by
  by_cases hup : 65 ≤ c ∧ c ≤ 90
  · rw [toLower, if_pos hup]
    refine .inl ?_
    simp only [isalnum, isDigit, Bool.or_eq_true, Bool.and_eq_true, decide_eq_true_eq,
      UInt8.le_iff_toNat_le, UInt8.toNat_add, UInt8.reduceToNat] at hup ⊢
    omega
  · rwa [toLower, if_neg hup]

theorem isName_fold {s : CStr} (h : IsName s) : IsName (fold s) := by
  refine ⟨fun hnil => h.1 (List.map_eq_nil_iff.mp hnil), fun c hc => ?_⟩
  obtain ⟨b, hb, rfl⟩ := List.mem_map.mp hc
  exact toLower_isName (h.2 b hb)

theorem arePrinted_sortedKeys {keys : List (CStr × Value)} (h : ArePrinted keys) :
    ArePrinted (sortedKeys keys) := by
  intro k hk
  obtain ⟨k', hk', rfl⟩ := List.mem_map.mp ((sortedKeys_perm keys).mem_iff.mp hk)
  exact ⟨isName_fold (h k' hk').1, (h k' hk').2⟩

/-- The text with a comma in front, for keys that are printed. -/
theorem comma_joinSorted {keys : List (CStr × Value)} (h : ArePrinted keys) (hne : keys ≠ []) :
    44 :: joinSorted (normalTexts keys) = keyTexts (sortedKeys keys) := by
  have htexts : ((sortedKeys keys).map fun k => k.1 ++ lit "=" ++ k.2.normalText) =
      (sortedKeys keys).map fun k => k.1 ++ 61 :: k.2.simpleChars := by
    refine List.map_congr_left fun k hk => ?_
    rw [normalText_of_ne_ref (arePrinted_sortedKeys h k hk).2.kind.1, List.append_assoc]
    rfl
  rw [joinSorted_normalTexts, htexts]
  cases hsorted : sortedKeys keys with
  | nil =>
    have hlen := (sortedKeys_perm keys).length_eq
    rw [hsorted, List.length_map] at hlen
    exact absurd (List.length_eq_zero_iff.mp hlen.symm) hne
  | cons k rest =>
    rw [List.map_cons, intercalate_cons, keyTexts, List.flatMap_cons, List.flatMap_map]
    rfl

theorem joinSorted_nil : joinSorted (normalTexts []) = [] := rfl

theorem joinSorted_ne_nil {keys : List (CStr × Value)} (h : ArePrinted keys) (hne : keys ≠ []) :
    joinSorted (normalTexts keys) ≠ [] := by
  intro hnil
  have hcomma := comma_joinSorted h hne
  rw [hnil] at hcomma
  cases hsorted : sortedKeys keys with
  | nil => rw [hsorted] at hcomma; exact absurd hcomma nofun
  | cons k rest =>
    rw [hsorted, keyTexts_cons] at hcomma
    exact absurd (List.cons.inj hcomma).2.symm (by simp)

/-- Equal texts are equal with the commas in front. -/
theorem keyTexts_eq_of_joinSorted {keys keys' : List (CStr × Value)} (h : ArePrinted keys)
    (h' : ArePrinted keys') (heq : joinSorted (normalTexts keys) = joinSorted (normalTexts keys')) :
    keyTexts (sortedKeys keys) = keyTexts (sortedKeys keys') := by
  by_cases hne : keys = []
  · by_cases hne' : keys' = []
    · rw [hne, hne']
    · rw [hne, joinSorted_nil] at heq
      exact absurd heq.symm (joinSorted_ne_nil h' hne')
  · by_cases hne' : keys' = []
    · rw [hne', joinSorted_nil] at heq
      exact absurd heq (joinSorted_ne_nil h hne)
    · rw [← comma_joinSorted h hne, ← comma_joinSorted h' hne', heq]

theorem map_keyMeaning_perm (keys : List (CStr × Value)) :
    (keys.map keyMeaning).Perm
      (((sortedKeys keys).map fun k => (k.1, k.2.meaning)).map fun k => (k.1, k.2.normal)) := by
  have hperm := ((sortedKeys_perm keys).map fun k => (k.1, k.2.meaning.normal)).symm
  rw [List.map_map] at hperm ⊢
  exact hperm

theorem strings_sortedKeys (keys : List (CStr × Value)) :
    strings (sortedKeys keys) = strings keys := by
  unfold strings
  rw [(sortedKeys_perm keys).countP_eq, List.countP_map]
  rfl

/-- Paths with one text have the same keys, as far as the text can be cut. -/
theorem sameKeys_of_normalized {p q : Cop} (h : ArePrinted p.keys) (h' : ArePrinted q.keys)
    (hq : quoteFree p.keys ∧ quoteFree q.keys ∨ strings p.keys ≤ 1 ∧ strings q.keys ≤ 1)
    (heq : normalizeObjectPathCharsDup p = normalizeObjectPathCharsDup q) : SameKeys p q := by
  have hfree : ∀ {keys : List (CStr × Value)}, quoteFree keys →
      ∀ k ∈ sortedKeys keys, k.2.QuoteFree := by
    intro keys hkeys k hk
    obtain ⟨k', hk', rfl⟩ := List.mem_map.mp ((sortedKeys_perm keys).mem_iff.mp hk)
    exact (quoteFree_iff keys).mp hkeys k' hk'
  have hkeys := keys_eq_of_keyTexts (arePrinted_sortedKeys h) (arePrinted_sortedKeys h')
    (hq.imp (fun hf => ⟨hfree hf.1, hfree hf.2⟩) fun hs => by
      rwa [strings_sortedKeys, strings_sortedKeys])
    (keyTexts_eq_of_joinSorted h h' heq)
  have hq' := map_keyMeaning_perm q.keys
  rw [← hkeys] at hq'
  exact (map_keyMeaning_perm p.keys).trans hq'.symm

/-! ## Paths that are mixed up -/

/-- The path with other values. -/
def ObjectPath.withValues (p : ObjectPath) (f : CStr → Kind → Value) : ObjectPath where
  nameSpace := p.nameSpace
  className := p.className
  keys := p.keys.map fun k => (k.1, f k.1 k.2.kind)
  names k hk := by
    obtain ⟨k', hk', rfl⟩ := List.mem_map.mp hk
    exact p.names k' hk'
  distinct := by
    rw [List.map_map]
    exact p.distinct

/-- The names of the keys with their types. -/
def Cop.schema (p : Cop) : List (CStr × Kind) := p.keys.map fun k => (fold k.1, k.2.kind)

theorem schema_withValues (p : ObjectPath) {f : CStr → Kind → Value}
    (hf : ∀ name kind, (f name kind).kind = kind) : (p.withValues f).schema = p.schema := by
  show (p.keys.map _).map _ = p.keys.map _
  rw [List.map_map]
  refine List.map_congr_left fun k _ => ?_
  show (fold k.1, (f k.1 k.2.kind).kind) = _
  rw [hf]

/-- A value of each type, without a quote. -/
def blank : Kind → Value
  | .string => .string []
  | .boolean => .boolean false
  | .char16 => .char16 65
  | .integer => .uint 0
  | .real => .real64 0
  | .ref => .ref none (lit "c") []

theorem kind_blank (kind : Kind) : (blank kind).kind = kind := by
  cases kind <;> rfl

theorem isNull_blank (kind : Kind) : (blank kind).isNull = false := by
  cases kind <;> rfl

theorem quoteFree_blank (kind : Kind) : (blank kind).QuoteFree := by
  cases kind <;> simp [blank, Value.QuoteFree, quoteFree]

/-- A null that is no string is written like another value. -/
theorem normalText_null {kind : Kind} (h : kind ≠ .ref) (hs : kind ≠ .string) :
    (Value.null kind h).normalText = (blank kind).normalText := by
  cases kind with
  | string => exact absurd rfl hs
  | ref => exact absurd rfl h
  | boolean | char16 | integer | real => revert h; decide

theorem meaning_blank_ne_null (kind kind' : Kind) :
    (blank kind).meaning.normal ≠ .null kind' := by
  cases kind <;> simp [blank, Value.meaning, Meaning.normal]

theorem quoteFree_withValues (p : ObjectPath) {f : CStr → Kind → Value}
    (hf : ∀ name kind, (f name kind).QuoteFree) : quoteFree (p.withValues f).keys := by
  refine (quoteFree_iff _).mpr fun k hk => ?_
  obtain ⟨k', -, rfl⟩ := List.mem_map.mp hk
  exact hf k'.1 k'.2.kind

/-- Paths with different values for a key do not have the same keys. -/
theorem not_sameKeys_withValues (p : ObjectPath) {f g : CStr → Kind → Value}
    {k : CStr × Value} (hk : k ∈ p.keys)
    (hne : (f k.1 k.2.kind).meaning.normal ≠ (g k.1 k.2.kind).meaning.normal) :
    ¬SameKeys (p.withValues f).toCop (p.withValues g).toCop := by
  intro hsame
  have hmem : (fold k.1, (f k.1 k.2.kind).meaning.normal) ∈
      (p.withValues g).keys.map keyMeaning := by
    refine hsame.mem_iff.mp ?_
    exact List.mem_map_of_mem (List.mem_map_of_mem hk)
  obtain ⟨k', hk', heq⟩ := List.mem_map.mp hmem
  obtain ⟨k'', hk'', rfl⟩ := List.mem_map.mp hk'
  obtain ⟨hname, hvalue⟩ := Prod.mk.inj heq
  obtain rfl : k'' = k := List.inj_on_of_nodup_map p.distinct hk'' hk hname
  exact hne hvalue.symm

theorem normalized_withValues (p : ObjectPath) {f g : CStr → Kind → Value}
    (hfg : ∀ name kind, (f name kind).normalText = (g name kind).normalText) :
    normalizeObjectPathCharsDup (p.withValues f).toCop =
      normalizeObjectPathCharsDup (p.withValues g).toCop := by
  have htexts : ∀ f : CStr → Kind → Value, normalTexts (p.withValues f).keys =
      p.keys.map fun k => (fold k.1, (f k.1 k.2.kind).normalText) := by
    intro f
    rw [normalTexts_eq_map]
    exact List.map_map
  unfold normalizeObjectPathCharsDup
  rw [htexts, htexts]
  simp only [hfg]

/-- Of one type there are two values that are told apart but not in the text. -/
theorem exists_same_text {kind : Kind} (h : ¬kind.IsPrinted) :
    ∃ v v' : Value, v.kind = kind ∧ v'.kind = kind ∧ v.QuoteFree ∧ v'.QuoteFree ∧
      v.isNull = false ∧ v'.isNull = false ∧
      v.normalText = v'.normalText ∧ v.meaning.normal ≠ v'.meaning.normal := by
  cases kind with
  | ref =>
    -- `c.s=c.a=1,z=2`: the key `z` belongs to the inner path or to the outer one
    refine ⟨.ref none (lit "c") [(lit "z", .uint 2), (lit "s", .ref none (lit "c")
        [(lit "a", .uint 1)])],
      .ref none (lit "c") [(lit "s", .ref none (lit "c")
        [(lit "a", .uint 1), (lit "z", .uint 2)])], rfl, rfl, ?_, ?_, rfl, rfl, ?_, ?_⟩
    · simp [Value.QuoteFree, quoteFree]
    · simp [Value.QuoteFree, quoteFree]
    · decide
    · intro heq
      have hlen := congrArg List.length (Meaning.ref.inj heq).2.2
      rw [List.length_insertionSort, List.length_insertionSort] at hlen
      exact absurd hlen (show 2 ≠ 1 by decide)
  | char16 =>
    refine ⟨.char16 65, .char16 66, rfl, rfl, trivial, trivial, rfl, rfl, rfl, ?_⟩
    simp [Value.meaning, Meaning.normal]
  | real =>
    -- the first number behind one
    refine ⟨.real64 0x3FF0000000000000, .real64 0x3FF0000000000001, rfl, rfl, trivial, trivial,
      rfl, rfl, ?_, ?_⟩
    · decide
    · simp [Value.meaning, Meaning.normal]
  | string | boolean | integer => exact absurd ⟨nofun, nofun, nofun⟩ h

/-- Two of the keys are strings. -/
theorem exists_two_strings {keys : List (CStr × Value)} (h : 2 ≤ strings keys) :
    ∃ pre x mid y post, keys = pre ++ x :: (mid ++ y :: post) ∧ x.2.kind = .string ∧
      y.2.kind = .string := by
  have hone : ∀ {keys : List (CStr × Value)}, 1 ≤ strings keys →
      ∃ mid y post, keys = mid ++ y :: post ∧ y.2.kind = .string := by
    intro keys hpos
    obtain ⟨y, hy, hkind⟩ := List.countP_pos_iff.mp hpos
    obtain ⟨mid, post, rfl⟩ := List.append_of_mem hy
    exact ⟨mid, y, post, rfl, by simpa using hkind⟩
  induction keys with
  | nil => exact absurd h (by decide)
  | cons k keys ih =>
    by_cases hk : k.2.kind = .string
    · rw [strings, List.countP_cons_of_pos (by simpa using hk)] at h
      obtain ⟨mid, y, post, rfl, hy⟩ := @hone keys (by unfold strings; omega)
      exact ⟨[], k, mid, y, post, rfl, hk, hy⟩
    · rw [strings, List.countP_cons_of_neg (by simpa using hk)] at h
      obtain ⟨pre, x, mid, y, post, rfl, hx, hy⟩ := ih h
      exact ⟨k :: pre, x, mid, y, post, rfl, hx, hy⟩

/-- The values for a path where the first of two strings, or the second, has the text of the
keys between them in it. -/
def twoStrings (x y s t : CStr) (name : CStr) (kind : Kind) : Value :=
  if kind = .string then
    if fold name = x then .string s else if fold name = y then .string t else .string []
  else blank kind

theorem isNull_twoStrings (x y s t name : CStr) (kind : Kind) :
    (twoStrings x y s t name kind).isNull = false := by
  unfold twoStrings
  split
  · split
    · rfl
    · split <;> rfl
  · exact isNull_blank kind

theorem kind_twoStrings (x y s t name : CStr) (kind : Kind) :
    (twoStrings x y s t name kind).kind = kind := by
  unfold twoStrings
  split
  · next h =>
    rw [h]
    split
    · rfl
    · split <;> rfl
  · exact kind_blank kind

theorem sortedKeys_withValues (p : ObjectPath) {f : CStr → Kind → Value}
    (hf : ∀ name kind, f (fold name) kind = f name kind) :
    sortedKeys (p.withValues f).keys =
      (sortedKeys p.keys).map fun k => (k.1, f k.1 k.2.kind) := by
  have hsort := List.map_insertionSort (fun k l : CStr × Value => strcasecmp k.1 l.1 ≤ 0)
    (fun k l : CStr × Value => strcasecmp k.1 l.1 ≤ 0) (fun k => (k.1, f k.1 k.2.kind))
    (p.keys.map fun k => (fold k.1, k.2)) fun k _ l _ => Iff.rfl
  show List.insertionSort _ ((p.keys.map fun k => (k.1, f k.1 k.2.kind)).map _) = _
  rw [sortedKeys, hsort, List.map_map, List.map_map]
  congr 1
  refine List.map_congr_left fun k _ => ?_
  show (fold k.1, f k.1 k.2.kind) = (fold k.1, f (fold k.1) k.2.kind)
  rw [hf]

theorem twoStrings_fold (x y s t name : CStr) (kind : Kind) :
    twoStrings x y s t (fold name) kind = twoStrings x y s t name kind := by
  rw [twoStrings, fold_fold]
  rfl

section TwoStrings

variable {pre mid post : List (CStr × Value)} {x y : CStr × Value}

/-- A list of keys with the values of `twoStrings`. -/
def withStrings (x y : CStr × Value) (s t : CStr) (keys : List (CStr × Value)) :
    List (CStr × Value) :=
  keys.map fun k => (k.1, twoStrings x.1 y.1 s t k.1 k.2.kind)

/-- The other keys do not have the two strings. -/
theorem withStrings_of_ne {keys : List (CStr × Value)} (hfold : ∀ k ∈ keys, fold k.1 = k.1)
    (hx : ∀ k ∈ keys, k.1 ≠ x.1) (hy : ∀ k ∈ keys, k.1 ≠ y.1) (s t : CStr) :
    withStrings x y s t keys = withStrings x y [] [] keys := by
  refine List.map_congr_left fun k hk => ?_
  unfold twoStrings
  rw [hfold k hk, if_neg (hx k hk), if_neg (hy k hk), if_neg (hx k hk), if_neg (hy k hk)]

theorem keyTexts_append (keys keys' : List (CStr × Value)) :
    keyTexts (keys ++ keys') = keyTexts keys ++ keyTexts keys' :=
  List.flatMap_append

/-- The text with the two strings in it. -/
theorem keyTexts_withStrings (hx : x.2.kind = .string) (hy : y.2.kind = .string)
    (hnames : ((pre ++ x :: (mid ++ y :: post)).map Prod.fst).Nodup)
    (hfold : ∀ k ∈ pre ++ x :: (mid ++ y :: post), fold k.1 = k.1) (s t : CStr) :
    keyTexts (withStrings x y s t (pre ++ x :: (mid ++ y :: post))) =
      keyTexts (withStrings x y [] [] pre) ++ 44 :: (x.1 ++ 61 :: 34 :: (s ++ 34 ::
        (keyTexts (withStrings x y [] [] mid) ++ 44 :: (y.1 ++ 61 :: 34 :: (t ++ 34 ::
          keyTexts (withStrings x y [] [] post)))))) := by
  have hxnot : x.1 ∉ pre.map Prod.fst ++ (mid ++ y :: post).map Prod.fst := by
    rw [List.map_append, List.map_cons] at hnames
    exact (List.nodup_cons.mp (List.nodup_middle.mp hnames)).1
  have hynot : y.1 ∉ (pre ++ x :: mid).map Prod.fst ++ post.map Prod.fst := by
    rw [← List.cons_append, ← List.append_assoc, List.map_append, List.map_cons] at hnames
    exact (List.nodup_cons.mp (List.nodup_middle.mp hnames)).1
  have hne : ∀ k, k ∈ pre ∨ k ∈ mid ∨ k ∈ post → k.1 ≠ x.1 ∧ k.1 ≠ y.1 := by
    intro k hk
    constructor
    · intro heq
      refine hxnot (heq ▸ ?_)
      rw [← List.map_append]
      refine List.mem_map_of_mem ?_
      rcases hk with hk | hk | hk <;> simp [hk]
    · intro heq
      refine hynot (heq ▸ ?_)
      rw [← List.map_append]
      refine List.mem_map_of_mem ?_
      rcases hk with hk | hk | hk <;> simp [hk]
  have hxy : y.1 ≠ x.1 := by
    intro heq
    exact hynot (by rw [heq]; simp)
  have hother : ∀ keys : List (CStr × Value), (∀ k ∈ keys, k ∈ pre ∨ k ∈ mid ∨ k ∈ post) →
      withStrings x y s t keys = withStrings x y [] [] keys := by
    intro keys hkeys
    refine withStrings_of_ne (fun k hk => hfold k ?_) (fun k hk => (hne k (hkeys k hk)).1)
      (fun k hk => (hne k (hkeys k hk)).2) s t
    rcases hkeys k hk with hk | hk | hk <;> simp [hk]
  have hxs : twoStrings x.1 y.1 s t x.1 x.2.kind = .string s := by
    rw [twoStrings, if_pos hx, hfold x (by simp), if_pos rfl]
  have hyt : twoStrings x.1 y.1 s t y.1 y.2.kind = .string t := by
    rw [twoStrings, if_pos hy, hfold y (by simp), if_neg hxy, if_pos rfl]
  have hpre := hother pre fun k hk => .inl hk
  have hmid := hother mid fun k hk => .inr (.inl hk)
  have hpost := hother post fun k hk => .inr (.inr hk)
  unfold withStrings at hpre hmid hpost ⊢
  rw [List.map_append, List.map_cons, List.map_append, List.map_cons, hxs, hyt, hpre, hmid, hpost,
    keyTexts_append, keyTexts_cons, keyTexts_append, keyTexts_cons, simpleChars_string,
    simpleChars_string]

/-- Where the first string ends is not in the text. -/
theorem keyTexts_swap (hx : x.2.kind = .string) (hy : y.2.kind = .string)
    (hnames : ((pre ++ x :: (mid ++ y :: post)).map Prod.fst).Nodup)
    (hfold : ∀ k ∈ pre ++ x :: (mid ++ y :: post), fold k.1 = k.1) :
    ∃ s, s ≠ [] ∧ keyTexts (withStrings x y s [] (pre ++ x :: (mid ++ y :: post))) =
      keyTexts (withStrings x y [] s (pre ++ x :: (mid ++ y :: post))) := by
  refine ⟨34 :: (keyTexts (withStrings x y [] [] mid) ++ 44 :: (y.1 ++ [61, 34])),
    List.cons_ne_nil _ _, ?_⟩
  rw [keyTexts_withStrings hx hy hnames hfold, keyTexts_withStrings hx hy hnames hfold]
  simp

end TwoStrings

/-- With two strings among its keys, a path is mixed up with another one of the same types. -/
theorem exists_mixed_up {p : ObjectPath} (hprinted : ∀ k ∈ p.keys, k.2.kind.IsPrinted)
    (htwo : 2 ≤ strings p.keys) :
    ∃ f g : CStr → Kind → Value, (∀ name kind, (f name kind).kind = kind) ∧
      (∀ name kind, (g name kind).kind = kind) ∧
      (∀ name kind, (f name kind).isNull = false) ∧ (∀ name kind, (g name kind).isNull = false) ∧
      normalizeObjectPathCharsDup (p.withValues f).toCop =
        normalizeObjectPathCharsDup (p.withValues g).toCop ∧
      ¬SameKeys (p.withValues f).toCop (p.withValues g).toCop := by
  rw [← strings_sortedKeys] at htwo
  obtain ⟨pre, x, mid, y, post, hsplit, hx, hy⟩ := exists_two_strings htwo
  have hperm := sortedKeys_perm p.keys
  have hnames : ((sortedKeys p.keys).map Prod.fst).Nodup := by
    refine (hperm.map Prod.fst).nodup_iff.mpr ?_
    rw [List.map_map]
    exact p.distinct
  have hfold : ∀ k ∈ sortedKeys p.keys, fold k.1 = k.1 := by
    intro k hk
    obtain ⟨k', -, rfl⟩ := List.mem_map.mp (hperm.mem_iff.mp hk)
    exact fold_fold k'.1
  have hxmem : x ∈ sortedKeys p.keys := by rw [hsplit]; simp
  obtain ⟨k, hk, rfl⟩ := List.mem_map.mp (hperm.mem_iff.mp hxmem)
  obtain ⟨s, hs, hswap⟩ := keyTexts_swap hx hy (hsplit ▸ hnames) (hsplit ▸ hfold)
  refine ⟨twoStrings (fold k.1) y.1 s [], twoStrings (fold k.1) y.1 [] s,
    kind_twoStrings _ _ _ _, kind_twoStrings _ _ _ _, isNull_twoStrings _ _ _ _,
    isNull_twoStrings _ _ _ _, ?_, not_sameKeys_withValues p hk ?_⟩
  · have htext : ∀ s t : CStr, 44 :: normalizeObjectPathCharsDup
        (p.withValues (twoStrings (fold k.1) y.1 s t)).toCop =
          keyTexts (withStrings (fold k.1, k.2) y s t (sortedKeys p.keys)) := by
      intro s t
      refine (comma_joinSorted (fun k' hk' => ?_) ?_).trans ?_
      · obtain ⟨k'', hk'', rfl⟩ := List.mem_map.mp hk'
        exact ⟨p.names k'' hk'', (kind_twoStrings _ _ _ _ _ _).symm ▸ hprinted k'' hk'',
          fun hnull => absurd hnull (by simp [isNull_twoStrings])⟩
      · exact List.map_eq_nil_iff.not.mpr (List.ne_nil_of_mem hk)
      · rw [sortedKeys_withValues p (twoStrings_fold _ _ _ _)]
        rfl
    have heq := (htext s []).trans ((hsplit ▸ hswap).trans (htext [] s).symm)
    exact (List.cons.inj heq).2
  · have hf : ∀ s t : CStr, twoStrings (fold k.1) y.1 s t k.1 k.2.kind = .string s := by
      intro s t
      rw [twoStrings, if_pos hx, if_pos rfl]
    rw [hf, hf]
    intro heq
    exact hs (Meaning.string.inj heq)

/-! ## Which types of keys are told apart -/

/-- No key is null. -/
def NullFree (keys : List (CStr × Value)) : Prop := ∀ k ∈ keys, k.2.isNull = false

/-- Paths of one class with keys of such types, where strings have quotes or have not, and keys
are null or are not: when they have the same text, they have the same keys. -/
def Separates (S : List (CStr × Kind) → Prop) (quotes nulls : Bool) : Prop :=
  ∀ p q : ObjectPath, fold p.className = fold q.className →
    S p.schema → S q.schema → quotes = true ∨ quoteFree p.keys ∧ quoteFree q.keys →
      nulls = true ∨ NullFree p.keys ∧ NullFree q.keys →
        normalizeObjectPathCharsDup p.toCop = normalizeObjectPathCharsDup q.toCop →
          SameKeys p.toCop q.toCop

/-- No key is a reference, a character or a real, where strings can have quotes, at most one key
is a string, and where keys can be null, all are strings. -/
structure Separable (schema : List (CStr × Kind)) (quotes nulls : Bool) : Prop where
  printed : ∀ k ∈ schema, k.2.IsPrinted
  quotes : quotes = true → (schema.countP fun k => k.2 = .string) ≤ 1
  nulls : nulls = true → ∀ k ∈ schema, k.2 = .string

theorem strings_eq (p : ObjectPath) :
    (p.schema.countP fun k => k.2 = .string) = strings p.keys := by
  rw [Cop.schema, List.countP_map]
  rfl

theorem nullFree_withValues (p : ObjectPath) {f : CStr → Kind → Value}
    (hf : ∀ name kind, (f name kind).isNull = false) : NullFree (p.withValues f).keys := by
  intro k hk
  obtain ⟨k', -, rfl⟩ := List.mem_map.mp hk
  exact hf k'.1 k'.2.kind

/-- One value for all keys of its type. -/
def onlyValue (v : Value) (_ : CStr) (kind : Kind) : Value :=
  if kind = v.kind then v else blank kind

theorem onlyValue_self (v : Value) (name : CStr) : onlyValue v name v.kind = v := if_pos rfl

theorem kind_onlyValue (v : Value) (name : CStr) (kind : Kind) :
    (onlyValue v name kind).kind = kind := by
  unfold onlyValue
  split
  · next h => exact h.symm
  · exact kind_blank kind

theorem quoteFree_onlyValue {v : Value} (h : v.QuoteFree) (name : CStr) (kind : Kind) :
    (onlyValue v name kind).QuoteFree := by
  unfold onlyValue
  split
  · exact h
  · exact quoteFree_blank kind

theorem isNull_onlyValue {v : Value} (h : v.isNull = false) (name : CStr) (kind : Kind) :
    (onlyValue v name kind).isNull = false := by
  unfold onlyValue
  split
  · exact h
  · exact isNull_blank kind

/-- Two values of one type with one text are two paths with one text. -/
theorem not_separates {S : List (CStr × Kind) → Prop} {quotes nulls : Bool} {p : ObjectPath}
    (hp : S p.schema) {k : CStr × Value} (hk : k ∈ p.keys) {v v' : Value} (hv : v.kind = k.2.kind)
    (hv' : v'.kind = k.2.kind) (hfree : v.QuoteFree) (hfree' : v'.QuoteFree)
    (hnull : nulls = true ∨ v.isNull = false ∧ v'.isNull = false)
    (htext : v.normalText = v'.normalText) (hne : v.meaning.normal ≠ v'.meaning.normal) :
    ¬Separates S quotes nulls := by
  intro h
  refine not_sameKeys_withValues p hk ?_
    (h (p.withValues (onlyValue v)) (p.withValues (onlyValue v')) rfl
      (by rwa [schema_withValues p (kind_onlyValue v)])
      (by rwa [schema_withValues p (kind_onlyValue v')])
      (.inr ⟨quoteFree_withValues p (quoteFree_onlyValue hfree),
        quoteFree_withValues p (quoteFree_onlyValue hfree')⟩)
      (hnull.imp_right fun hnull => ⟨nullFree_withValues p (isNull_onlyValue hnull.1),
        nullFree_withValues p (isNull_onlyValue hnull.2)⟩)
      (normalized_withValues p fun name kind => ?_))
  · have hself := onlyValue_self v k.1
    have hself' := onlyValue_self v' k.1
    rw [hv] at hself
    rw [hv'] at hself'
    rwa [hself, hself']
  · unfold onlyValue
    rw [hv, hv']
    split
    · exact htext
    · rfl

end Sfcb.Paths
