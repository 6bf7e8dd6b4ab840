import Mathlib.Data.List.Infix
import Sfcb.Lib.Numeral

/-!
# Escaped text

`XMLEscape` replaces the five characters that XML has names for, but copies CDATA sections as
they are. `xmlUnescape` replaces one entity, and the loop in `getContent` all of them.

`xmlEscape_roundtrip_iff` says that a text without the begin of a CDATA section comes back,
if its length times six is an `int`.

Mirroring notes:
- `buf` is the text from the `&` to the end of the content. `xmlUnescape` reads from `buf + 2`
  on, which is behind the zero at the end if there is nothing after the `&`: `behind` is what
  is there, and `none` the end of the buffer.
- The outcome `none` is a read or write behind a buffer, or a signed overflow.
- `*outlen` is the length of the result.
- What is moved down takes the zero at the end with it, so a text is what it was from some
  place on.
-/

namespace Sfcb.CimXml

open Sfcb.Lib

/-! ## Escaping -/

/-- The five replacements; other bytes stay. -/
def escaped (ch : UInt8) : CStr :=
  if ch = 62 then lit "&gt;"
  else if ch = 60 then lit "&lt;"
  else if ch = 38 then lit "&amp;"
  else if ch = 34 then lit "&quot;"
  else if ch = 39 then lit "&apos;"
  else [ch]

/-- The length of a CDATA section that begins here. -/
def cdata (rep : CStr) : Option Nat :=
  if rep.head? = some 60 ∧ rep[1]? = some 33 ∧ 11 < rep.length ∧
      strncmp rep (lit "<![CDATA[") 9 = 0 then
    (strstr rep (lit "]]>")).map fun e => rep.length - e.length + 3
  else none

/-- The loop. The first argument is how much of a CDATA section is left to be copied. -/
def escapeLoop : Nat → CStr → CStr
  | _, [] => []
  | n + 1, ch :: s => ch :: escapeLoop n s
  | 0, ch :: s =>
    match cdata (ch :: s) with
    | some n => ch :: escapeLoop (n - 1) s
    | none => escaped ch ++ escapeLoop 0 s

/-- `XMLEscape`. The size of the result is computed as an `int`. -/
def XMLEscape (s : CStr) : Option CStr :=
  if s.length * 6 + 1 < 2 ^ 31 then some (escapeLoop 0 s) else none

/-! ## Unescaping -/

structure XmlEscape where
  escaped : CStr
  unescaped : UInt8
  len : Nat
  deriving DecidableEq, Repr

def xmlEscapeTab : List XmlEscape :=
  [⟨lit "&apos;", 39, 6⟩, ⟨lit "&quot;", 34, 6⟩, ⟨lit "&amp;", 38, 5⟩, ⟨lit "&gt;", 62, 4⟩,
    ⟨lit "&lt;", 60, 4⟩]

/-- What `sscanf` makes of one number. -/
inductive Scanned where
  | eof
  | failed
  | value (n : Int)
  deriving DecidableEq, Repr

/-- `sscanf(s, "%d", …)`, or `"%x"` for the base sixteen. -/
def sscanf (base : Nat) (s : CStr) : Scanned :=
  match s.dropWhile isSpace with
  | [] => .eof
  | c :: cs =>
    let unsigned := if c = 45 ∨ c = 43 then cs else c :: cs
    let marked := base = 16 ∧ (unsigned.take 2 = lit "0x" ∨ unsigned.take 2 = lit "0X")
    let digits := if marked then unsigned.drop 2 else unsigned
    -- behind `0x` there may be no digit: the zero has been read
    if ¬ marked ∧ (digits.head?.bind (digitVal base)).isNone then .failed
    else .value (if c = 45 then -((scanDigits base 0 digits).1 : Int)
      else (scanDigits base 0 digits).1)

/-- How far it is to a byte. -/
def strchr (s : CStr) (c : UInt8) : Option Nat := s.findIdx? (· == c)

/-- `xmlUnescape`: the text from `buf` on afterwards. -/
def xmlUnescape (behind : Option CStr) (buf : CStr) : Option CStr :=
  (if buf.length < 2 then behind else some (buf.drop 2)).bind fun rest =>
    match strchr rest 59 with
    | none => some buf
    | some i =>
      let semiloc := i + 2
      if (strchr rest 38).any (· < i) then some buf
      else if semiloc > 10 then some buf
      else if buf[1]? = some 35 then
        let escchar := (buf.drop 2).take (semiloc - 2)
        let unescchar := if escchar.head? = some 120 ∨ escchar.head? = some 88 then
          sscanf 16 (escchar.drop 1) else sscanf 10 escchar
        let diflen := escchar.length + 3
        match unescchar with
        | .failed => some buf
        | .eof => some (0 :: buf.drop diflen)
        | .value n => some (UInt8.ofInt n :: buf.drop diflen)
      else if semiloc + 1 > 10 then none
      else
        let escchar := buf.take (semiloc + 1)
        match xmlEscapeTab.find? fun e => strncmp escchar e.escaped e.len = 0 with
        | some e => some (e.unescaped :: buf.drop e.len)
        | none => some buf

/-- The loop over the content. Each round goes on by a byte at least. -/
def unescapeLoop (behind : Option CStr) : Nat → CStr → Option CStr
  | _, [] => some []
  | 0, _ :: _ => none
  | fuel + 1, b :: s =>
    if b = 38 then
      (xmlUnescape behind (b :: s)).bind fun
        | [] => some []
        | c :: s' => (unescapeLoop behind fuel s').map (c :: ·)
    else (unescapeLoop behind fuel s).map (b :: ·)

def unescape (behind : Option CStr) (content : CStr) : Option CStr :=
  unescapeLoop behind content.length content

/-! ## The round trip -/

section RoundTrip

variable {behind : Option CStr}

/-- Without the begin of a section every byte is escaped by itself. -/
theorem escapeLoop_eq {s : CStr} (h : ¬ lit "<![CDATA[" <:+: s) :
    escapeLoop 0 s = s.flatMap escaped := by
  induction s with
  | nil => rfl
  | cons ch s ih =>
    have hnone : cdata (ch :: s) = none := by
      unfold cdata
      rw [if_neg]
      intro ⟨_, _, hlong, heq⟩
      have hlength : ((ch :: s).take 9).length = ((lit "<![CDATA[").take 9).length := by
        rw [List.length_take, Nat.min_eq_left (by omega)]
        decide
      have hstart := (strcmp_eq_zero_iff hlength).mp heq
      have hmarker : (lit "<![CDATA[").take 9 = lit "<![CDATA[" := by decide
      rw [hmarker] at hstart
      exact h (hstart ▸ List.take_prefix 9 (ch :: s)).isInfix
    rw [escapeLoop, hnone, List.flatMap_cons, ih fun hs => h (hs.trans (List.suffix_cons ch s).isInfix)]

/-- What comes after the front is not found in it. -/
theorem strchr_append {front rest : CStr} {c : UInt8} (h : c ∉ front) :
    strchr (front ++ rest) c = (strchr rest c).map (· + front.length) := by
  unfold strchr
  rw [List.findIdx?_append, List.findIdx?_eq_none_iff.mpr, Option.none_or]
  intro b hb
  have hne : b ≠ c := fun he => h (he ▸ hb)
  simpa using hne

/-- What `xmlUnescape` does with a name, if it is one of the table. -/
theorem xmlUnescape_name {name rest : CStr} {e : XmlEscape} (hsemi : 59 ∉ name)
    (hamp : 38 ∉ name) (hshort : name.length ≤ 6) (hhash : name.head? ≠ some 35)
    (hne : name ≠ []) (hfind : xmlEscapeTab.find? (fun e =>
      strncmp (38 :: name ++ [59]) e.escaped e.len = 0) = some e)
    (hlen : e.len = name.length + 2) :
    xmlUnescape behind (38 :: name ++ 59 :: rest) = some (e.unescaped :: rest) := by
  obtain ⟨c, cs, rfl⟩ := List.exists_cons_of_ne_nil hne
  have hdrop : (38 :: (c :: cs) ++ 59 :: rest).drop 2 = cs ++ 59 :: rest := rfl
  have hsemi' : 59 ∉ cs := fun h => hsemi (List.mem_cons_of_mem _ h)
  have hamp' : 38 ∉ cs ++ [59] := by
    rw [List.mem_append]
    intro h
    obtain h | h := h
    · exact hamp (List.mem_cons_of_mem _ h)
    · exact absurd (List.mem_singleton.mp h) (by decide)
  have hloc : strchr (cs ++ 59 :: rest) 59 = some cs.length := by
    have hhead : strchr (59 :: rest) 59 = some 0 := by
      unfold strchr
      rw [List.findIdx?_cons, if_pos (by decide)]
    rw [strchr_append hsemi', hhead, Option.map_some, Nat.zero_add]
  have hbefore : (strchr (cs ++ 59 :: rest) 38).any (· < cs.length) = false := by
    rw [← List.singleton_append, ← List.append_assoc, strchr_append hamp', Option.any_map]
    cases strchr rest 38 with
    | none => rfl
    | some j =>
      rw [Option.any_some, List.length_append, List.length_singleton]
      exact decide_eq_false (by omega)
  have htake : (38 :: (c :: cs) ++ 59 :: rest).take (cs.length + 2 + 1) = 38 :: (c :: cs) ++ [59] := by
    rw [List.append_cons]
    exact List.take_left' (by simp)
  rw [List.length_cons] at hshort hlen
  unfold xmlUnescape
  rw [if_neg (by simp), Option.bind_some, hdrop]
  simp only [hloc, hbefore]
  rw [if_neg (by simp), if_neg (by omega), if_neg, if_neg (by omega), htake, hfind]
  · simp only [hlen]
    refine congrArg (fun l => some (e.unescaped :: l)) ?_
    rw [List.append_cons]
    exact List.drop_left' (by simp)
  · exact fun h => hhash h

theorem escaped_cases (ch : UInt8) : (escaped ch = [ch] ∧ ch ≠ 38) ∨
    ∃ name e, escaped ch = 38 :: name ++ [59] ∧ e.unescaped = ch ∧ 59 ∉ name ∧ 38 ∉ name ∧
      name.length ≤ 6 ∧ name.head? ≠ some 35 ∧ name ≠ [] ∧
      xmlEscapeTab.find? (fun e => strncmp (38 :: name ++ [59]) e.escaped e.len = 0) = some e ∧
      e.len = name.length + 2 := by
  by_cases hgt : ch = 62
  · subst hgt
    exact .inr ⟨lit "gt", ⟨lit "&gt;", 62, 4⟩, by decide⟩
  by_cases hlt : ch = 60
  · subst hlt
    exact .inr ⟨lit "lt", ⟨lit "&lt;", 60, 4⟩, by decide⟩
  by_cases hamp : ch = 38
  · subst hamp
    exact .inr ⟨lit "amp", ⟨lit "&amp;", 38, 5⟩, by decide⟩
  by_cases hquot : ch = 34
  · subst hquot
    exact .inr ⟨lit "quot", ⟨lit "&quot;", 34, 6⟩, by decide⟩
  by_cases hapos : ch = 39
  · subst hapos
    exact .inr ⟨lit "apos", ⟨lit "&apos;", 39, 6⟩, by decide⟩
  refine .inl ⟨?_, hamp⟩
  unfold escaped
  rw [if_neg hgt, if_neg hlt, if_neg hamp, if_neg hquot, if_neg hapos]

/-- The loop undoes one replacement after the other. -/
theorem unescapeLoop_escaped {s : CStr} {fuel : Nat} (h : (s.flatMap escaped).length ≤ fuel) :
    unescapeLoop behind fuel (s.flatMap escaped) = some s := by
  induction s generalizing fuel with
  | nil => cases fuel <;> rfl
  | cons ch s ih =>
    rw [List.flatMap_cons, List.length_append] at h
    rw [List.flatMap_cons]
    obtain ⟨hsame, hne⟩ | ⟨name, e, hname, hch, hsemi, hamp, hshort, hhash, hnil, hfind, hlen⟩ :=
      escaped_cases ch
    · rw [hsame, List.length_singleton] at h
      obtain ⟨fuel, rfl⟩ := Nat.exists_eq_add_one_of_ne_zero (show fuel ≠ 0 by omega)
      rw [hsame, List.singleton_append, unescapeLoop, if_neg hne, ih (by omega), Option.map_some]
    · have hpos : (escaped ch).length = name.length + 2 := by
        rw [hname]
        simp
      obtain ⟨fuel, rfl⟩ := Nat.exists_eq_add_one_of_ne_zero (show fuel ≠ 0 by omega)
      have hone := @xmlUnescape_name behind name (s.flatMap escaped) e hsemi hamp hshort hhash hnil
        hfind hlen
      rw [hname, List.append_assoc, List.singleton_append, List.cons_append, unescapeLoop,
        if_pos rfl, ← List.cons_append, hone, Option.bind_some]
      simp only
      rw [ih (by omega), Option.map_some, hch]

/-- A text comes back if and only if the size that `XMLEscape` computes is an `int`. -/
theorem xmlEscape_roundtrip_iff (behind : Option CStr) {s : CStr}
    (hmarker : ¬ lit "<![CDATA[" <:+: s) :
    (∃ out, XMLEscape s = some out ∧ unescape behind out = some s) ↔
      s.length * 6 + 1 < 2 ^ 31 := by
  unfold XMLEscape
  constructor
  · intro ⟨out, hout, _⟩
    split at hout
    · next h => exact h
    · exact absurd hout (by simp)
  · intro h
    refine ⟨_, if_pos h, ?_⟩
    rw [escapeLoop_eq hmarker]
    exact unescapeLoop_escaped (Nat.le_refl _)

end RoundTrip

theorem xmlEscape_roundtrip_amp : (∃ out, XMLEscape (lit "a&lt;b") = some out ∧
    unescape none out = some (lit "a&lt;b")) ↔ (lit "a&lt;b").length * 6 + 1 < 2 ^ 31 :=
  xmlEscape_roundtrip_iff none (by decide)

/-- The shortest texts that are too long. -/
theorem not_xmlEscape_roundtrip : ¬ ∃ out, XMLEscape (List.replicate 357913942 97) = some out ∧
    unescape none out = some (List.replicate 357913942 97) := by
  intro ⟨out, hout, _⟩
  unfold XMLEscape at hout
  rw [List.length_replicate, if_neg (by omega)] at hout
  exact absurd hout (by simp)

end Sfcb.CimXml
