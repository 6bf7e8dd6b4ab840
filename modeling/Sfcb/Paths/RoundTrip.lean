import Sfcb.Paths.ReadKeys

/-!
# Reading what was printed

`roundTrip_iff`: for which paths `getObjectPath` gives back what `sfcb_pathToChars` has printed.

One direction reads the text piece by piece. In the other direction the printed result has the
weight of the text, so that every piece has become a key (`whole_of_weight`).
-/

namespace Sfcb.Paths

open Sfcb.Lib

/-! ## The paths -/

/-- The name of a namespace: names with slashes. -/
def IsNameSpace (s : CStr) : Prop := s ≠ [] ∧ ∀ c ∈ s, isalnum c = true ∨ c = 95 ∨ c = 47

/-- At a path and at all the references in it. -/
inductive Everywhere (P : Cop → Prop) : Cop → Prop
  | intro {cop : Cop} : P cop →
      (∀ name ref, (name, Value.ref ref.nameSpace ref.className ref.keys) ∈ cop.keys →
        Everywhere P ref) → Everywhere P cop

/-- The names are names, no two keys have the same one, and the keys are strings, booleans,
integers and references. -/
structure WellNamed (cop : Cop) : Prop where
  nameSpace : ∀ ns, cop.nameSpace = some ns → IsNameSpace ns
  className : IsName cop.className
  names : ∀ k ∈ cop.keys, IsName k.1
  distinct : (cop.keys.map fun k => fold k.1).Nodup
  kinds : ∀ k ∈ cop.keys, k.2.IsCommon

/-- A path with proper names, as the references in it. -/
structure ProperPath extends Cop where
  proper : Everywhere WellNamed toCop

/-- The same path, but for the types of the integers. -/
structure SamePath (q cop : Cop) : Prop where
  nameSpace : q.nameSpace = cop.nameSpace
  className : q.className = cop.className
  keys : meanings q.keys = meanings cop.keys

/-- The text of the path is read as the path. -/
def RoundTrip (cop : Cop) : Prop :=
  ∃ text fuel q, sfcb_pathToChars cop = some text ∧ getObjectPath fuel text = some q ∧
    SamePath q cop

/-! ## The condition -/

/-- A key, as a piece of the text. -/
def piece (k : CStr × Value) : Bool × CStr := (decide (k.2.kind = .ref), keyText k)

/-- The keys of a path can be read, apart from what is in the references. -/
structure KeysReadable (cop : Cop) : Prop where
  noColon : cop.nameSpace = none → ∀ k ∈ cop.keys, 58 ∉ k.2.chars
  strings : ∀ name s, (name, Value.string s) ∈ cop.keys → 34 ∉ s
  booleans : ∀ k ∈ cop.keys, k.2.kind ≠ .boolean
  numbers : ∀ name n, (name, Value.uint n) ∈ cop.keys → n.toNat < 2 ^ 63
  seen : Seen (cop.keys.map piece)
  short : ∀ k ∈ cop.keys, k.2.kind = .ref → k.2.chars.length < 4096

/-- The condition: at the path and at all references. -/
def Readable (cop : Cop) : Prop := Everywhere KeysReadable cop

/-! ## The text depends on the values only -/

mutual

/-- The text of a value, whatever its type. -/
def Meaning.chars : Meaning → CStr
  | .string s => (Value.string s).simpleChars
  | .boolean b => (Value.boolean b).simpleChars
  | .char16 _ => []
  | .integer n => printInt n
  | .real32 bits => (Value.real32 bits).simpleChars
  | .real64 bits => (Value.real64 bits).simpleChars
  | .null .boolean => lit "false"
  | .null .integer | .null .real => lit "0"
  | .null .string | .null .char16 | .null .ref => []
  | .ref nameSpace className keys => pathChars nameSpace className (meaningChars keys)

def meaningChars : List (CStr × Meaning) → List CStr
  | [] => []
  | (name, m) :: keys => (name ++ 61 :: m.chars) :: meaningChars keys

end

mutual

theorem Value.chars_meaning : ∀ v : Value, v.meaning.chars = v.chars
  | .string _ | .dateTime _ | .boolean _ | .char16 _ | .uint _ | .sint _ | .real32 _
  | .real64 _ => rfl
  | .null kind _ => by cases kind <;> rfl
  | .ref nameSpace className keys => by
    rw [Value.meaning, Meaning.chars, Value.chars, keyChars_meanings keys]

theorem keyChars_meanings : ∀ keys : List (CStr × Value), meaningChars (meanings keys) = keyChars keys
  | [] => rfl
  | (name, v) :: keys => by
    rw [meanings, meaningChars, keyChars, Value.chars_meaning v, keyChars_meanings keys]

end

theorem SamePath.chars_eq {q cop : Cop} (h : SamePath q cop) : q.chars = cop.chars := by
  rw [Cop.chars, Cop.chars, ← keyChars_meanings, h.keys, keyChars_meanings, h.nameSpace,
    h.className]

/-! ## The header -/

theorem notMem_of_isNameSpace {s : CStr} (h : IsNameSpace s) {c : UInt8} (hc : isalnum c = false)
    (hne : c ≠ 95) (hne' : c ≠ 47) : c ∉ s := by
  intro hmem
  rcases h.2 c hmem with halnum | rfl | rfl
  · rw [hc] at halnum
    exact absurd halnum (by simp)
  · exact hne rfl
  · exact hne' rfl

theorem mem_commas {ts : List CStr} {c : UInt8} (h : c ∈ commas ts) :
    c = 44 ∨ ∃ t ∈ ts, c ∈ t := by
  cases ts with
  | nil => exact absurd h List.not_mem_nil
  | cons t ts =>
    rcases List.mem_append.mp h with h | h
    · exact .inr ⟨t, List.mem_cons_self, h⟩
    · obtain ⟨t', ht', hc⟩ := List.mem_flatMap.mp h
      rcases List.mem_cons.mp hc with rfl | hc
      · exact .inl rfl
      · exact .inr ⟨t', List.mem_cons_of_mem _ ht', hc⟩

theorem mem_commas_of_mem {ts : List CStr} {t : CStr} {c : UInt8} (ht : t ∈ ts) (h : c ∈ t) :
    c ∈ commas ts := by
  cases ts with
  | nil => exact absurd ht List.not_mem_nil
  | cons t' ts =>
    rcases List.mem_cons.mp ht with rfl | ht
    · exact List.mem_append_left _ h
    · exact List.mem_append_right _ (List.mem_flatMap.mpr ⟨t, ht, List.mem_cons_of_mem _ h⟩)

theorem cutAt_eq_none {s : CStr} {c : UInt8} (h : c ∉ s) :
    cutAt (fun b => decide (b = c)) s = none := by
  refine cutAt_eq_none_iff.mpr fun b hb => ?_
  simp only [decide_eq_false_iff_not]
  rintro rfl
  exact h hb

theorem cutAt_eq_some {a r : CStr} {c : UInt8} (h : c ∉ a) :
    cutAt (fun b => decide (b = c)) (a ++ c :: r) = some (a, c, r) := by
  refine cutAt_append (by simp) fun b hb => ?_
  simp only [decide_eq_false_iff_not]
  rintro rfl
  exact h hb

theorem Cop.chars_nil {cop : Cop} (h : cop.keys = []) :
    cop.chars = nsChars cop.nameSpace ++ cop.className := by
  rw [Cop.chars, h, pathChars, keyChars, if_pos rfl, List.append_nil]

theorem Cop.chars_cons {cop : Cop} (h : cop.keys ≠ []) :
    cop.chars = nsChars cop.nameSpace ++ cop.className ++ 46 :: commas (cop.keys.map keyText) := by
  rw [Cop.chars, keyChars_eq_map, pathChars, if_neg (by simpa using h)]

theorem colon_mem_commas {keys : List (CStr × Value)} (hnames : ∀ k ∈ keys, IsName k.1) :
    58 ∈ commas (keys.map keyText) ↔ ∃ k ∈ keys, 58 ∈ k.2.chars := by
  constructor
  · intro h
    rcases mem_commas h with h | ⟨t, ht, h⟩
    · exact absurd h (by decide)
    · obtain ⟨k, hk, rfl⟩ := List.mem_map.mp ht
      rcases List.mem_append.mp h with h | h
      · exact absurd h (notMem_of_isName (hnames k hk) (by decide) (by decide))
      · exact ⟨k, hk, (List.mem_cons.mp h).resolve_left (by decide)⟩
  · rintro ⟨k, hk, h⟩
    exact mem_commas_of_mem (List.mem_map_of_mem hk)
      (List.mem_append_right _ (List.mem_cons_of_mem _ h))

/-- The header of a printed path is found, if the first colon is in front of the class. -/
theorem header_chars {cop : Cop} (h : WellNamed cop)
    (hcolon : cop.nameSpace = none → ∀ k ∈ cop.keys, 58 ∉ k.2.chars) :
    header cop.chars = some (cop.nameSpace, cop.className, commas (cop.keys.map keyText)) := by
  have hdot : 46 ∉ cop.className := notMem_of_isName h.className (by decide) (by decide)
  have hno : 58 ∉ cop.className := notMem_of_isName h.className (by decide) (by decide)
  cases hns : cop.nameSpace with
  | none =>
    by_cases hkeys : cop.keys = []
    · rw [Cop.chars_nil hkeys, hns, hkeys]
      show header cop.className = _
      unfold header
      rw [cutAt_eq_none hdot, cutAt_eq_none hno]
      rfl
    · have hrest : 58 ∉ cop.className ++ 46 :: commas (cop.keys.map keyText) := by
        intro hmem
        rcases List.mem_append.mp hmem with hmem | hmem
        · exact hno hmem
        · have hmem := (List.mem_cons.mp hmem).resolve_left (by decide)
          obtain ⟨k, hk, hin⟩ := (colon_mem_commas h.names).mp hmem
          exact hcolon hns k hk hin
      rw [Cop.chars_cons hkeys, hns]
      show header (cop.className ++ 46 :: commas (cop.keys.map keyText)) = _
      unfold header
      rw [cutAt_eq_some hdot, cutAt_eq_none hrest]
  | some ns =>
    have hname := h.nameSpace ns hns
    have hnsdot : 46 ∉ ns := notMem_of_isNameSpace hname (by decide) (by decide) (by decide)
    have hnscolon : 58 ∉ ns := notMem_of_isNameSpace hname (by decide) (by decide) (by decide)
    have hchars : nsChars (some ns) = ns ++ [58] := by
      obtain ⟨c, ns, rfl⟩ := List.exists_cons_of_ne_nil hname.1
      rfl
    have hfront : 46 ∉ ns ++ 58 :: cop.className := by
      intro hmem
      rcases List.mem_append.mp hmem with hmem | hmem
      · exact hnsdot hmem
      · exact hdot ((List.mem_cons.mp hmem).resolve_left (by decide))
    by_cases hkeys : cop.keys = []
    · rw [Cop.chars_nil hkeys, hns, hkeys, hchars, List.append_assoc, List.singleton_append]
      unfold header
      rw [cutAt_eq_none hfront, cutAt_eq_some hnscolon]
      rfl
    · rw [Cop.chars_cons hkeys, hns, hchars, List.append_assoc ns, List.singleton_append]
      unfold header
      rw [cutAt_eq_some hfront, List.append_assoc, List.cons_append, cutAt_eq_some hnscolon]
      have hlt : ns.length < (ns ++ 58 :: cop.className).length := by simp
      have hdrop : (ns ++ 58 :: cop.className).drop (ns.length + 1) = cop.className := by
        rw [← List.drop_drop, List.drop_left]
        rfl
      simp only [if_pos hlt, hdrop]

/-- A colon in a key is taken for the end of a namespace, with a class of negative length. -/
theorem header_of_colon {cop : Cop} (h : WellNamed cop) (hns : cop.nameSpace = none)
    {k : CStr × Value} (hk : k ∈ cop.keys) (hcolon : 58 ∈ k.2.chars) :
    header cop.chars = none := by
  have hdot : 46 ∉ cop.className := notMem_of_isName h.className (by decide) (by decide)
  have hno : 58 ∉ cop.className := notMem_of_isName h.className (by decide) (by decide)
  have hkeys : cop.keys ≠ [] := List.ne_nil_of_mem hk
  have hmem := (colon_mem_commas h.names).mpr ⟨k, hk, hcolon⟩
  obtain ⟨a, b, heq, ha⟩ := List.eq_append_cons_of_mem hmem
  have hcut : cutAt (fun c => decide (c = 58)) (cop.className ++ 46 :: commas (cop.keys.map keyText)) =
      some (cop.className ++ 46 :: a, 58, b) := by
    rw [heq, ← List.cons_append, ← List.append_assoc]
    refine cutAt_eq_some fun hmem => ?_
    rcases List.mem_append.mp hmem with hmem | hmem
    · exact hno hmem
    · exact ha ((List.mem_cons.mp hmem).resolve_left (by decide))
  rw [Cop.chars_cons hkeys, hns]
  show header (cop.className ++ 46 :: commas (cop.keys.map keyText)) = none
  unfold header
  rw [cutAt_eq_some hdot, hcut]
  have hlong : ¬ (cop.className ++ 46 :: a).length < cop.className.length := by simp
  simp only [if_neg hlong]

/-! ## What has been read -/

theorem chars_of_meaning {v v' : Value} (h : v.meaning = v'.meaning) : v.chars = v'.chars := by
  rw [← Value.chars_meaning, h, Value.chars_meaning]

/-- The piece is read as a key with this name and this value. -/
def Gives (read : CStr → Option Cop) (p : Bool × CStr) (k : CStr × Value) : Prop :=
  ∃ k', ReadWhole read p k' ∧ k'.1 = k.1 ∧ k'.2.meaning = k.2.meaning

theorem gives_of_readWhole {read : CStr → Option Cop} {ps : List (Bool × CStr)}
    {ks keys : List (CStr × Value)} (h : List.Forall₂ (ReadWhole read) ps ks)
    (hkeys : meanings ks = meanings keys) : List.Forall₂ (Gives read) ps keys := by
  induction h generalizing keys with
  | nil =>
    cases keys with
    | nil => exact .nil
    | cons k keys => exact absurd hkeys (by simp [meanings])
  | cons hone _ ih =>
    cases keys with
    | nil => exact absurd hkeys (by simp [meanings])
    | cons k keys =>
      rw [meanings, meanings] at hkeys
      obtain ⟨hk, hkeys⟩ := List.cons.inj hkeys
      obtain ⟨hname, hmeaning⟩ := Prod.mk.inj hk
      exact .cons ⟨_, hone, hname, hmeaning⟩ (ih hkeys)

/-- What is known of a key that has been read. -/
structure KeyRead (read : CStr → Option Cop) (p : Bool × CStr) (k : CStr × Value) : Prop where
  piece : p = piece k
  boolean : k.2.kind ≠ .boolean
  string : ∀ s, k.2 = .string s → 34 ∉ s
  uint : ∀ n, k.2 = .uint n → n.toNat < 2 ^ 63
  ref : ∀ ref : Cop, k.2 = .ref ref.nameSpace ref.className ref.keys →
    ref.chars.length < 4096 ∧ ∃ q, read ref.chars = some q ∧ SamePath q ref

/-- A reference is stored as it is written. -/
theorem read_of_stored {read : CStr → Option Cop} {val : CStr} {keyOp op : Cop}
    (hread : ∀ t q, read t = some q → Within q.chars t) (hkeyOp : read val = some keyOp)
    (hop : stored read keyOp = some op) (hval : op.chars = val) :
    val.length < 4096 ∧ read val = some op := by
  have heq : val = keyOp.chars :=
    hval ▸ (within_stored hread hop).eq_of_le (hval ▸ (hread _ _ hkeyOp).le)
  obtain ⟨text, htext, hrun⟩ := Option.bind_eq_some_iff.mp hop
  unfold sfcb_pathToChars at htext
  split at htext
  · rw [← Option.some.inj htext, ← heq] at hrun
    split at hrun
    · next hlt => exact ⟨hlt, hrun⟩
    · exact absurd hrun (by simp)
  · exact absurd htext (by simp)

theorem eq_ref_of_meaning {v : Value} {op : Cop}
    (h : (Value.ref op.nameSpace op.className op.keys).meaning = v.meaning) :
    ∃ ref : Cop, v = .ref ref.nameSpace ref.className ref.keys ∧ SamePath op ref := by
  cases v with
  | ref ns cn keys =>
    rw [Value.meaning, Value.meaning] at h
    obtain ⟨hns, hcn, hkeys⟩ := Meaning.ref.inj h
    exact ⟨⟨ns, cn, keys⟩, rfl, hns, hcn, hkeys⟩
  | _ =>
    rw [Value.meaning, Value.meaning] at h
    cases h

theorem eq_string_of_meaning {v : Value} {s : CStr} (h : (Value.string s).meaning = v.meaning) :
    v = .string s ∨ v = .dateTime s := by
  cases v with
  | string s' =>
    rw [Value.meaning, Value.meaning] at h
    exact .inl (by rw [Meaning.string.inj h])
  | dateTime s' =>
    rw [Value.meaning, Value.meaning] at h
    exact .inr (by rw [Meaning.string.inj h])
  | _ =>
    rw [Value.meaning, Value.meaning] at h
    cases h

theorem keyRead_of_ref {read : CStr → Option Cop} {name val : CStr} {v : Value} {keyOp op : Cop}
    (hread : ∀ t q, read t = some q → Within q.chars t) (hkeyOp : read val = some keyOp)
    (hop : stored read keyOp = some op) (hval : op.chars = val)
    (hmeaning : (Value.ref op.nameSpace op.className op.keys).meaning = v.meaning) :
    KeyRead read (true, keyText (name, v)) (name, v) := by
  obtain ⟨ref, rfl, hsame⟩ := eq_ref_of_meaning hmeaning
  obtain ⟨hshort, hrun⟩ := read_of_stored hread hkeyOp hop hval
  refine ⟨rfl, nofun, nofun, nofun, fun ref' href => ?_⟩
  obtain rfl : ref = ref' := by
    obtain ⟨hns, hcn, hkeys⟩ := Value.ref.inj href
    cases ref
    cases ref'
    exact Cop.mk.injEq .. ▸ ⟨hns, hcn, hkeys⟩
  rw [← hsame.chars_eq, hval]
  exact ⟨hshort, op, hrun, hsame⟩

theorem keyRead_of_integer {read : CStr → Option Cop} {name : CStr} {v : Value} {n : Int}
    (h : v.meaning = .integer n) (hhigh : n < 2 ^ 63) :
    KeyRead read (false, keyText (name, v)) (name, v) := by
  cases v with
  | uint m =>
    rw [Value.meaning] at h
    have hn : (m.toNat : Int) = n := Meaning.integer.inj h
    refine ⟨rfl, nofun, nofun, fun m' hm => ?_, nofun⟩
    obtain rfl := Value.uint.inj hm
    omega
  | sint m => exact ⟨rfl, nofun, nofun, nofun, nofun⟩
  | _ =>
    rw [Value.meaning] at h
    cases h

theorem keyRead_of_gives {read : CStr → Option Cop} {p : Bool × CStr} {k : CStr × Value}
    (hread : ∀ t q, read t = some q → Within q.chars t) (hquoted : Quoted p)
    (h : Gives read p k) : KeyRead read p k := by
  obtain ⟨ref, kd⟩ := p
  obtain ⟨name, v⟩ := k
  obtain ⟨⟨name', v'⟩, ⟨hk, htext⟩, hname, hmeaning⟩ := h
  obtain ⟨val, hval, hfrom⟩ := readKey_cases hquoted hk
  simp only at hmeaning hval hfrom htext hname
  subst hname
  have hchars : v'.chars = val := by
    rw [← htext] at hval
    exact (List.cons.inj (List.append_cancel_left hval)).2
  obtain rfl : kd = keyText (name', v) := by
    rw [← htext, keyText, keyText, chars_of_meaning hmeaning]
  cases hfrom with
  | ref hkeyOp hop =>
    rw [Cop.chars_eq] at hchars
    exact keyRead_of_ref hread hkeyOp hop hchars hmeaning
  | string hs =>
    obtain rfl | rfl := eq_string_of_meaning hmeaning
    · exact ⟨rfl, nofun, fun s hs' => Value.string.inj hs' ▸ hs, nofun, nofun⟩
    · exact ⟨rfl, nofun, nofun, nofun, nofun⟩
  | integer hint _ _ hhigh => exact keyRead_of_integer (hmeaning ▸ hint) hhigh

theorem keysRead {read : CStr → Option Cop} {ps : List (Bool × CStr)}
    {keys : List (CStr × Value)} (hread : ∀ t q, read t = some q → Within q.chars t)
    (hquoted : ∀ p ∈ ps, Quoted p) (h : List.Forall₂ (Gives read) ps keys) :
    ps = keys.map piece ∧ ∀ k ∈ keys, KeyRead read (piece k) k := by
  induction h with
  | nil => exact ⟨rfl, fun _ h => absurd h List.not_mem_nil⟩
  | @cons p k ps keys hone _ ih =>
    have hk := keyRead_of_gives hread (hquoted p List.mem_cons_self) hone
    obtain ⟨rfl, hkeys⟩ := ih fun q hq => hquoted q (List.mem_cons_of_mem _ hq)
    obtain rfl := hk.piece
    refine ⟨rfl, fun k' hk' => ?_⟩
    rcases List.mem_cons.mp hk' with rfl | hk'
    · exact hk
    · exact hkeys k' hk'

/-- All keys of the path have been read whole. -/
theorem keysRead_of_run {fuel fuel' : Nat} {cop q : Cop} {ps : List (Bool × CStr)}
    (hps : pieces fuel (commas (cop.keys.map keyText)) = some ps)
    (hrun : ps.foldlM (addPiece (getObjectPath fuel')) [] = some q.keys) (hsame : SamePath q cop)
    (hne : cop.keys ≠ []) :
    Seen (cop.keys.map piece) ∧ ∀ k ∈ cop.keys, KeyRead (getObjectPath fuel') (piece k) k := by
  have hparts := parts_of_pieces hps
  have hread : ∀ t q, getObjectPath fuel' t = some q → Within q.chars t :=
    fun _ _ => within_getObjectPath
  have hgained := addPieces_gained hread hparts.quoted hrun
  have htexts : q.keys.map keyText = cop.keys.map keyText := by
    rw [← keyChars_eq_map, ← keyChars_meanings, hsame.keys, keyChars_meanings, keyChars_eq_map]
  have hweight : weight (commas (cop.keys.map keyText)) + 2 = weights (cop.keys.map keyText) := by
    obtain ⟨k, keys, hkeys⟩ := List.exists_cons_of_ne_nil hne
    rw [hkeys, List.map_cons, weight_commas]
  obtain ⟨-, hseen, hks⟩ := whole_of_weight hparts hgained (by rw [htexts, hweight])
  obtain ⟨rfl, hkeys⟩ := keysRead hread hparts.quoted (gives_of_readWhole hks hsame.keys)
  exact ⟨hseen, hkeys⟩

theorem keysReadable_of_nil {cop : Cop} (h : cop.keys = []) : KeysReadable cop := by
  have hno : ∀ k, k ∉ cop.keys := fun k => by simp [h]
  refine ⟨fun _ k hk => absurd hk (hno k), fun _ _ hk => absurd hk (hno _),
    fun k hk => absurd hk (hno k), fun _ _ hk => absurd hk (hno _), ?_,
    fun k hk => absurd hk (hno k)⟩
  rw [h]
  trivial

theorem readable_of_read {fuel : Nat} {cop q : Cop} (hproper : Everywhere WellNamed cop)
    (h : getObjectPath fuel cop.chars = some q) (hsame : SamePath q cop) : Readable cop := by
  induction fuel generalizing cop q with
  | zero => exact absurd h (by simp [getObjectPath])
  | succ fuel ih =>
    obtain ⟨hnamed, hrefs⟩ := hproper
    obtain ⟨⟨ns, cn, rest⟩, hhead, hrun⟩ := Option.bind_eq_some_iff.mp h
    have hcolon : cop.nameSpace = none → ∀ k ∈ cop.keys, 58 ∉ k.2.chars := by
      intro hns k hk hmem
      rw [header_of_colon hnamed hns hk hmem] at hhead
      exact absurd hhead (by simp)
    rw [header_chars hnamed hcolon] at hhead
    cases hhead
    obtain ⟨ps, hps, hadd⟩ := Option.bind_eq_some_iff.mp hrun
    obtain ⟨keys, hkeys, rfl⟩ := Option.map_eq_some_iff.mp hadd
    by_cases hne : cop.keys = []
    · exact ⟨keysReadable_of_nil hne, fun name ref hk => absurd hk (by simp [hne])⟩
    · obtain ⟨hseen, hread⟩ := keysRead_of_run hps hkeys hsame hne
      refine ⟨⟨hcolon, fun name s hk => (hread _ hk).string s rfl, fun k hk => (hread k hk).boolean,
        fun name n hk => (hread _ hk).uint n rfl, hseen, fun k hk hkind => ?_⟩, ?_⟩
      · obtain ⟨name, v⟩ := k
        cases v with
        | ref ns cn keys => exact ((hread _ hk).ref ⟨ns, cn, keys⟩ rfl).1
        | null kind h => exact absurd hkind h
        | _ => cases hkind
      · intro name ref hk
        obtain ⟨-, q', hq', hsame'⟩ := (hread _ hk).ref ref rfl
        exact ih (hrefs name ref hk) hq' hsame'

/-! ## Cutting what was printed -/

/-- A piece that is no reference has no comma in front of a string. -/
def Plain (p : Bool × CStr) : Prop :=
  p.1 = false → (p.2 ≠ [] ∧ 44 ∉ p.2 ∧ 34 ∉ p.2) ∨
    ∃ front s, p.2 = front ++ 61 :: 34 :: (s ++ [34]) ∧ 44 ∉ front ∧ 34 ∉ front ∧ 34 ∉ s

theorem cutAt_separator {a r : CStr} {c : UInt8} (h44 : 44 ∉ a) (h34 : 34 ∉ a)
    (hc : c = 44 ∨ c = 34) : cutAt (fun b => b = 44 || b = 34) (a ++ c :: r) = some (a, c, r) := by
  refine cutAt_append (by simpa using hc) fun b hb => ?_
  have h1 : b ≠ 44 := fun h => h44 (h ▸ hb)
  have h2 : b ≠ 34 := fun h => h34 (h ▸ hb)
  simp [h1, h2]

/-- Where no reference is seen and a quote comes first, up to the end. -/
theorem pieces_string_last {fuel : Nat} {front s : CStr} (h44 : 44 ∉ front) (h34 : 34 ∉ front)
    (hs : 34 ∉ s) (hseen : refLookAhead .start 0 (front ++ 61 :: 34 :: (s ++ [34])) = none) :
    pieces (fuel + 1) (front ++ 61 :: 34 :: (s ++ [34])) =
      some [(false, front ++ 61 :: 34 :: (s ++ [34]))] := by
  have hsplit : front ++ 61 :: 34 :: (s ++ [34]) = (front ++ [61]) ++ 34 :: (s ++ [34]) := by simp
  have hfront : 44 ∉ front ++ [61] ∧ 34 ∉ front ++ [61] := by simp [h44, h34]
  rw [hsplit] at hseen ⊢
  rw [pieces, hseen, cutAt_separator hfront.1 hfront.2 (.inr rfl)]
  simp only [if_true]
  rw [if_pos (List.getLast?_concat ..), cutAt_eq_some hs]
  simp

/-- The same up to a comma. -/
theorem pieces_string_cons {fuel : Nat} {front s rest : CStr} {ps : List (Bool × CStr)}
    (h44 : 44 ∉ front) (h34 : 34 ∉ front) (hs : 34 ∉ s)
    (hseen : refLookAhead .start 0 (front ++ 61 :: 34 :: (s ++ [34]) ++ 44 :: rest) = none)
    (h : pieces fuel rest = some ps) :
    pieces (fuel + 1) (front ++ 61 :: 34 :: (s ++ [34]) ++ 44 :: rest) =
      some ((false, front ++ 61 :: 34 :: (s ++ [34])) :: ps) := by
  have hsplit : front ++ 61 :: 34 :: (s ++ [34]) ++ 44 :: rest =
      (front ++ [61]) ++ 34 :: (s ++ 34 :: 44 :: rest) := by simp
  have hfront : 44 ∉ front ++ [61] ∧ 34 ∉ front ++ [61] := by simp [h44, h34]
  rw [hsplit] at hseen ⊢
  rw [pieces, hseen, cutAt_separator hfront.1 hfront.2 (.inr rfl)]
  simp only [if_true]
  rw [if_pos (List.getLast?_concat ..), cutAt_eq_some hs]
  simp [h]

theorem pieces_single {fuel : Nat} {p : Bool × CStr} (hplain : Plain p)
    (hseen : refLookAhead .start 0 p.2 = if p.1 then some p.2.length else none) :
    pieces (fuel + 1) p.2 = some [p] := by
  obtain ⟨ref, t⟩ := p
  cases ref with
  | true =>
    rw [pieces, hseen, if_pos rfl]
    simp
  | false =>
    rw [if_neg (by simp)] at hseen
    rcases hplain rfl with ⟨hne, h44, h34⟩ | ⟨front, s, rfl, h44, h34, hs⟩
    · have hcut : cutAt (fun c => c = 44 || c = 34) t = none := by
        refine cutAt_eq_none_iff.mpr fun b hb => ?_
        have h1 : b ≠ 44 := fun h => h44 (h ▸ hb)
        have h2 : b ≠ 34 := fun h => h34 (h ▸ hb)
        simp [h1, h2]
      rw [pieces, hseen, hcut]
      simp [show t ≠ [] from hne]
    · exact pieces_string_last h44 h34 hs hseen

theorem pieces_cons {fuel : Nat} {p : Bool × CStr} {rest : CStr} {ps : List (Bool × CStr)}
    (hplain : Plain p)
    (hseen : refLookAhead .start 0 (p.2 ++ 44 :: rest) = if p.1 then some p.2.length else none)
    (h : pieces fuel rest = some ps) : pieces (fuel + 1) (p.2 ++ 44 :: rest) = some (p :: ps) := by
  obtain ⟨ref, t⟩ := p
  cases ref with
  | true =>
    rw [pieces, hseen, if_pos rfl]
    simp [h]
  | false =>
    rw [if_neg (by simp)] at hseen
    rcases hplain rfl with ⟨hne, h44, h34⟩ | ⟨front, s, rfl, h44, h34, hs⟩
    · rw [pieces, hseen, cutAt_separator h44 h34 (.inl rfl)]
      simp [h]
    · exact pieces_string_cons h44 h34 hs hseen h

/-- The pieces of what was printed are the keys. -/
theorem pieces_commas {fuel : Nat} {ps : List (Bool × CStr)} (hseen : Seen ps)
    (hplain : ∀ p ∈ ps, Plain p) (hfuel : (commas (texts ps)).length < fuel) :
    pieces fuel (commas (texts ps)) = some ps := by
  induction ps generalizing fuel with
  | nil =>
    obtain ⟨fuel, rfl⟩ := Nat.exists_eq_add_of_lt hfuel
    simp [texts, commas, pieces, refLookAhead, cutAt]
  | cons p ps ih =>
    obtain ⟨fuel, rfl⟩ : ∃ k, fuel = k + 1 := ⟨fuel - 1, by omega⟩
    obtain ⟨hhere, hrest⟩ := hseen
    have hp := hplain p List.mem_cons_self
    cases ps with
    | nil =>
      have htext : commas (texts [p]) = p.2 := List.append_nil _
      have hhere' : refLookAhead .start 0 (commas (texts [p])) = _ := hhere
      rw [htext] at hhere' ⊢
      exact pieces_single hp hhere'
    | cons p' ps =>
      rw [texts_cons, commas_cons_cons] at hhere
      rw [texts_cons, texts_cons, commas_cons_cons] at hfuel ⊢
      refine pieces_cons hp hhere (ih hrest (fun q hq => hplain q (List.mem_cons_of_mem _ hq)) ?_)
      rw [List.length_append, List.length_cons] at hfuel
      rw [texts_cons]
      omega

/-! ## Reading one key -/

theorem atol_numeral {n : Nat} (h : n < 2 ^ 63) : atol (numeral 10 n) = some (n : Int) := by
  obtain ⟨d, ds, hdrop, hcons, hminus, hplus⟩ := dropWhile_numeral n
  unfold atol
  rw [hdrop]
  simp only
  split
  · next heq => exact absurd (List.cons.inj heq).1 hminus
  · next heq => exact absurd (List.cons.inj heq).1 hplus
  · rw [hcons, scanDigits_numeral_self]
    exact if_pos ⟨by omega, by omega⟩

theorem atol_neg {n : Nat} (h : n ≤ 2 ^ 63) : atol (45 :: numeral 10 n) = some (-(n : Int)) := by
  unfold atol
  rw [dropWhile_isSpace_cons (.inl rfl)]
  simp only
  rw [scanDigits_numeral_self]
  exact if_pos ⟨by omega, by omega⟩

theorem cutAt_keyText {k : CStr × Value} (h : IsName k.1) :
    cutAt (fun c => decide (c = 61)) (keyText k) = some (k.1, 61, k.2.chars) :=
  cutAt_eq_some (notMem_of_isName h (by decide) (by decide))

/-- A printed integer that a `long` can hold is read. -/
theorem readKey_integer {read : CStr → Option Cop} {k : CStr × Value} {n : Int}
    (hname : IsName k.1) (hn : k.2.meaning = .integer n) (hlow : -2 ^ 63 ≤ n) (hhigh : n < 2 ^ 63) :
    ∃ v, readKey read false (keyText k) = some (some (k.1, v)) ∧ v.meaning = .integer n ∧
      v.fits = true := by
  unfold readKey
  rw [cutAt_keyText hname, chars_of_integer hn]
  simp only [Option.bind_some, Bool.false_eq_true, if_false]
  by_cases hneg : n < 0
  · rw [printInt, if_pos hneg]
    simp only
    rw [if_neg (by decide), if_pos (by decide), atol_neg (by omega)]
    refine ⟨_, rfl, ?_, rfl⟩
    rw [Value.meaning, Int64.toInt_ofInt_of_le (by omega) (by omega)]
    congr 1
    omega
  · rw [printInt, if_neg hneg]
    have hread := atol_numeral (n := n.natAbs) (by omega)
    obtain ⟨d, ds, hcons, hd⟩ := numeral_eq_cons n.natAbs
    rw [hcons] at hread ⊢
    have hquote : d ≠ 34 := by rintro rfl; exact absurd hd (by decide)
    have hsign : ¬ (d = 45 ∨ d = 43) := by rintro (rfl | rfl) <;> exact absurd hd (by decide)
    simp only
    rw [if_neg hquote, if_neg hsign, if_pos hd, hread]
    refine ⟨_, rfl, ?_, rfl⟩
    rw [Value.meaning, Int.toNat_natCast, UInt64.toNat_ofNat', Nat.mod_eq_of_lt (by omega)]
    congr 1
    omega

theorem readKey_string {read : CStr → Option Cop} {name s : CStr} (hname : IsName name) :
    readKey read false (keyText (name, .string s)) = some (some (name, .string s)) := by
  have hchars : (Value.string s).chars = 34 :: (s ++ [34]) := rfl
  unfold readKey
  rw [cutAt_keyText hname, hchars]
  simp

theorem readKey_ref {read : CStr → Option Cop} {name : CStr} {ref q : Cop} (hname : IsName name)
    (hread : read ref.chars = some q) (hsame : SamePath q ref) (hfit : keysFit q.keys = true)
    (hshort : ref.chars.length < 4096) :
    readKey read true (keyText (name, .ref ref.nameSpace ref.className ref.keys)) =
      some (some (name, .ref q.nameSpace q.className q.keys)) := by
  unfold readKey
  rw [cutAt_keyText hname]
  simp only [Option.bind_some, if_true]
  rw [Cop.chars_eq, hread, Option.bind_some]
  unfold stored sfcb_pathToChars
  rw [if_pos hfit, Option.bind_some, hsame.chars_eq, if_pos hshort, hread]
  rfl

/-! ## Reading all keys -/

/-- A name that is not there is put at the end. -/
theorem addKey_of_new {keys : List (CStr × Value)} {name : CStr} {d : Value}
    (h : ∀ k ∈ keys, strcasecmp name k.1 ≠ 0) : addKey keys name d = some (keys ++ [(name, d)]) := by
  induction keys with
  | nil => rfl
  | cons k keys ih =>
    rw [addKey, if_neg (h k List.mem_cons_self), ih fun l hl => h l (List.mem_cons_of_mem _ hl)]
    rfl

/-- The key is read with its name and its value. -/
def ReadsAs (read : CStr → Option Cop) (k : CStr × Value) : Prop :=
  ∃ v, readKey read (piece k).1 (piece k).2 = some (some (k.1, v)) ∧ v.meaning = k.2.meaning ∧
    v.fits = true

theorem strcasecmp_ne_zero {s t : CStr} (hs : IsName s) (ht : IsName t) (h : fold s ≠ fold t) :
    strcasecmp s t ≠ 0 := by
  have hs0 : 0 ∉ s := notMem_of_isName hs (by decide) (by decide)
  have ht0 : 0 ∉ t := notMem_of_isName ht (by decide) (by decide)
  exact fun hzero => h ((strcasecmp_eq_zero_iff hs0 ht0).mp hzero)

theorem meanings_append (keys keys' : List (CStr × Value)) :
    meanings (keys ++ keys') = meanings keys ++ meanings keys' := by
  rw [meanings_eq_map, meanings_eq_map, meanings_eq_map, List.map_append]

theorem keysFit_append (keys keys' : List (CStr × Value)) :
    keysFit (keys ++ keys') = (keysFit keys && keysFit keys') := by
  induction keys with
  | nil => rfl
  | cons k keys ih => rw [List.cons_append, keysFit, keysFit, ih, Bool.and_assoc]

/-- Keys with different names are put behind each other. -/
theorem foldlM_addPiece {read : CStr → Option Cop} {acc keys : List (CStr × Value)}
    (hreads : ∀ k ∈ keys, ReadsAs read k) (hnames : ∀ k ∈ acc ++ keys, IsName k.1)
    (hdistinct : ((acc ++ keys).map fun k => fold k.1).Nodup) (hfit : keysFit acc = true) :
    ∃ res, (keys.map piece).foldlM (addPiece read) acc = some res ∧
      meanings res = meanings acc ++ meanings keys ∧ keysFit res = true := by
  induction keys generalizing acc with
  | nil => exact ⟨acc, rfl, (List.append_nil _).symm, hfit⟩
  | cons k keys ih =>
    obtain ⟨v, hv, hmeaning, hvfit⟩ := hreads k List.mem_cons_self
    have hnew : ∀ l ∈ acc, strcasecmp k.1 l.1 ≠ 0 := by
      intro l hl
      rw [List.map_append, List.nodup_append] at hdistinct
      have hne := hdistinct.2.2 _ (List.mem_map_of_mem hl) _ (List.mem_map_of_mem List.mem_cons_self)
      exact strcasecmp_ne_zero (hnames k (by simp)) (hnames l (List.mem_append_left _ hl)) hne.symm
    have hstep : addPiece read acc (piece k) = some (acc ++ [(k.1, v)]) := by
      rw [addPiece, hv, Option.bind_some]
      exact addKey_of_new hnew
    have hnames' : ∀ l ∈ acc ++ [(k.1, v)] ++ keys, IsName l.1 := by
      intro l hl
      rcases List.mem_append.mp hl with hl | hl
      · rcases List.mem_append.mp hl with hl | hl
        · exact hnames l (List.mem_append_left _ hl)
        · rw [List.mem_singleton.mp hl]
          exact hnames k (by simp)
      · exact hnames l (by simp [hl])
    have hdistinct' : ((acc ++ [(k.1, v)] ++ keys).map fun k => fold k.1).Nodup := by
      simpa using hdistinct
    have hfit' : keysFit (acc ++ [(k.1, v)]) = true := by
      rw [keysFit_append, hfit]
      simp [keysFit, hvfit]
    obtain ⟨res, hres, hsame, hresfit⟩ :=
      ih (fun l hl => hreads l (List.mem_cons_of_mem _ hl)) hnames' hdistinct' hfit'
    refine ⟨res, ?_, ?_, hresfit⟩
    · rw [List.map_cons, List.foldlM_cons, hstep]
      exact hres
    · rw [hsame, meanings_append, List.append_assoc]
      simp only [meanings, List.singleton_append, hmeaning]

/-! ## The round trip -/

theorem plain_piece {cop : Cop} (hnamed : WellNamed cop) (hread : KeysReadable cop)
    {k : CStr × Value} (hk : k ∈ cop.keys) : Plain (piece k) := by
  intro href
  have hname := hnamed.names k hk
  have h44 : 44 ∉ k.1 := notMem_of_isName hname (by decide) (by decide)
  have h34 : 34 ∉ k.1 := notMem_of_isName hname (by decide) (by decide)
  have hint : ∀ n : Int, k.2.chars = printInt n →
      (piece k).2 ≠ [] ∧ 44 ∉ (piece k).2 ∧ 34 ∉ (piece k).2 := by
    intro n hn
    have htext : (piece k).2 = k.1 ++ 61 :: printInt n := by rw [← hn]; rfl
    have hno : ∀ c, isDigit c = false → c ≠ 45 → c ≠ 61 → c ∉ k.1 → c ∉ (piece k).2 := by
      intro c hdigit hminus heq hc hmem
      rw [htext] at hmem
      rcases List.mem_append.mp hmem with hmem | hmem
      · exact hc hmem
      · rcases mem_printInt ((List.mem_cons.mp hmem).resolve_left heq) with h | h
        · rw [hdigit] at h
          exact absurd h (by simp)
        · exact hminus h
    refine ⟨by rw [htext]; simp, ?_, ?_⟩
    · exact hno 44 (by decide) (by decide) (by decide) h44
    · exact hno 34 (by decide) (by decide) (by decide) h34
  obtain ⟨name, v⟩ := k
  cases v with
  | string s => exact .inr ⟨name, s, rfl, h44, h34, hread.strings name s hk⟩
  | boolean b => exact absurd rfl (hread.booleans _ hk)
  | dateTime | char16 | real32 | real64 | null => exact (hnamed.kinds _ hk).elim
  | uint n => exact .inl (hint n.toNat rfl)
  | sint n => exact .inl (hint n.toInt rfl)
  | ref ns cn keys => exact absurd href (by simp [piece, Value.kind])

theorem length_le_commas {ts : List CStr} {t : CStr} (h : t ∈ ts) :
    t.length ≤ (commas ts).length := by
  cases ts with
  | nil => exact absurd h List.not_mem_nil
  | cons t' ts =>
    rw [commas, List.length_append]
    rcases List.mem_cons.mp h with rfl | h
    · omega
    · obtain ⟨front, back, rfl⟩ := List.append_of_mem h
      rw [List.flatMap_append, List.flatMap_cons]
      simp only [List.length_append, List.length_cons]
      omega

/-- The text of a reference is shorter than that of the path. -/
theorem length_ref_lt {cop ref : Cop} {name : CStr}
    (h : (name, Value.ref ref.nameSpace ref.className ref.keys) ∈ cop.keys) :
    ref.chars.length < cop.chars.length := by
  have hne : cop.keys ≠ [] := List.ne_nil_of_mem h
  have hle := length_le_commas (List.mem_map_of_mem (f := keyText) h)
  have htext : (keyText (name, Value.ref ref.nameSpace ref.className ref.keys)).length =
      name.length + (ref.chars.length + 1) := by
    rw [keyText, Cop.chars_eq, List.length_append, List.length_cons]
  rw [Cop.chars_cons hne, List.length_append, List.length_cons]
  omega

/-- Each key is read, if the references are. -/
theorem readsAs_of_readable {read : CStr → Option Cop} {cop : Cop} (hnamed : WellNamed cop)
    (hread : KeysReadable cop)
    (hrefs : ∀ name ref, (name, Value.ref ref.nameSpace ref.className ref.keys) ∈ cop.keys →
      ∃ q, read ref.chars = some q ∧ SamePath q ref ∧ keysFit q.keys = true)
    {k : CStr × Value} (hk : k ∈ cop.keys) : ReadsAs read k := by
  have hname := hnamed.names k hk
  obtain ⟨name, v⟩ := k
  cases v with
  | string s => exact ⟨_, readKey_string hname, rfl, rfl⟩
  | boolean b => exact absurd rfl (hread.booleans _ hk)
  | dateTime | char16 | real32 | real64 | null => exact (hnamed.kinds _ hk).elim
  | uint n =>
    have hlt := hread.numbers name n hk
    exact readKey_integer (k := (name, .uint n)) hname rfl (by omega) (by omega)
  | sint n => exact readKey_integer (k := (name, .sint n)) hname rfl n.le_toInt n.toInt_lt
  | ref ns cn keys =>
    obtain ⟨q, hq, hsame, hfit⟩ := hrefs name ⟨ns, cn, keys⟩ hk
    have hshort : (Cop.mk ns cn keys).chars.length < 4096 := hread.short _ hk rfl
    refine ⟨_, readKey_ref hname hq hsame hfit hshort, ?_, ?_⟩
    · rw [Value.meaning, Value.meaning, hsame.nameSpace, hsame.className, hsame.keys]
    · rw [← hsame.chars_eq] at hshort
      rw [Value.fits, hfit]
      exact decide_eq_true hshort

/-- A path that meets the condition is read back. -/
theorem read_of_readable {fuel : Nat} {cop : Cop} (hproper : Everywhere WellNamed cop)
    (hreadable : Readable cop) (hfuel : cop.chars.length < fuel) :
    ∃ q, getObjectPath fuel cop.chars = some q ∧ SamePath q cop ∧ keysFit q.keys = true := by
  induction fuel generalizing cop with
  | zero => omega
  | succ fuel ih =>
    obtain ⟨hnamed, hrefs⟩ := hproper
    obtain ⟨hread, hreadrefs⟩ := hreadable
    have hreads : ∀ k ∈ cop.keys, ReadsAs (getObjectPath fuel) k := fun k hk =>
      readsAs_of_readable hnamed hread (fun name ref href => by
        have hlt := length_ref_lt href
        exact ih (hrefs name ref href) (hreadrefs name ref href) (by omega)) hk
    obtain ⟨keys, hkeys, hsame, hfit⟩ :=
      @foldlM_addPiece _ [] _ hreads hnamed.names hnamed.distinct rfl
    have htexts : texts (cop.keys.map piece) = cop.keys.map keyText := by
      rw [texts, List.map_map]
      rfl
    have hplain : ∀ p ∈ cop.keys.map piece, Plain p := by
      intro p hp
      obtain ⟨k, hk, rfl⟩ := List.mem_map.mp hp
      exact plain_piece hnamed hread hk
    have hpieces := pieces_commas hread.seen hplain (Nat.lt_succ_self _)
    rw [htexts] at hpieces
    refine ⟨⟨cop.nameSpace, cop.className, keys⟩, ?_, ⟨rfl, rfl, hsame⟩, hfit⟩
    rw [getObjectPath, header_chars hnamed hread.noColon, Option.bind_some, hpieces,
      Option.bind_some, hkeys]
    rfl

theorem keysFit_iff (keys : List (CStr × Value)) :
    keysFit keys = true ↔ ∀ k ∈ keys, k.2.fits = true := by
  induction keys with
  | nil => simp [keysFit]
  | cons k keys ih =>
    rw [keysFit, Bool.and_eq_true, ih]
    simp

theorem fits_of_readable {cop : Cop} (h : Readable cop) : keysFit cop.keys = true := by
  induction h with
  | @intro cop hread _ ih =>
    refine (keysFit_iff _).mpr fun k hk => ?_
    obtain ⟨name, v⟩ := k
    cases v with
    | ref ns cn keys =>
      have hfit := ih name ⟨ns, cn, keys⟩ hk
      have hshort := hread.short _ hk rfl
      rw [Value.fits, hfit]
      exact decide_eq_true hshort
    | _ => rfl

theorem readable_of_roundTrip {cop : Cop} (hproper : Everywhere WellNamed cop)
    (h : RoundTrip cop) : Readable cop := by
  obtain ⟨text, fuel, q, htext, hq, hsame⟩ := h
  unfold sfcb_pathToChars at htext
  split at htext
  · obtain rfl := Option.some.inj htext
    exact readable_of_read hproper hq hsame
  · exact absurd htext (by simp)

/-- For which paths the round trip works. -/
theorem roundTrip_iff (p : ProperPath) : RoundTrip p.toCop ↔ Readable p.toCop := by
  refine ⟨readable_of_roundTrip p.proper, fun h => ?_⟩
  obtain ⟨q, hq, hsame, -⟩ := read_of_readable p.proper h (Nat.lt_succ_self _)
  exact ⟨_, _, q, if_pos (fits_of_readable h), hq, hsame⟩

set_option maxRecDepth 2000 in
/-- `root:CIM_Foo` with a key `a` that is a boolean. -/
def booleanPath : ProperPath where
  nameSpace := some (lit "root")
  className := lit "CIM_Foo"
  keys := [(lit "a", .boolean true)]
  proper := by
    refine ⟨⟨fun ns h => ?_, ⟨by decide, by decide⟩, fun k hk => ?_, by decide, fun k hk => ?_⟩,
      fun name ref h => ?_⟩
    · obtain rfl := Option.some.inj h
      exact ⟨by decide, by decide⟩
    · obtain rfl := List.mem_singleton.mp hk
      exact ⟨by decide, by decide⟩
    · obtain rfl := List.mem_singleton.mp hk
      exact trivial
    · exact absurd (Prod.mk.inj (List.mem_singleton.mp h)).2 nofun

/-- `addKey` has no branch for `true`: the key is lost. -/
theorem not_roundTrip : ¬ ∀ p : ProperPath, RoundTrip p.toCop := by
  intro h
  obtain ⟨hread, -⟩ := readable_of_roundTrip booleanPath.proper (h booleanPath)
  exact hread.booleans _ List.mem_cons_self rfl

end Sfcb.Paths
