import Sfcb.Lib.Numeral
import Sfcb.Lib.Words

/-!
# Lines of the registration and the configuration file

`cntlParseStmt` takes a line apart: it is a comment, starts a section, is a statement with a
key and a value, or is an error. The words of a value are taken out one at a time by
`cntlGetVal`, which keeps its place in `val`.

`parses_iff` says which lines are read within their bounds: what is not blank, a comment or
at the end of its line has to have a byte that ends its name. `yields_words_iff` says for which
values the calls of `cntlGetVal` return the words, and then null: `Separated` is a grammar of
these values.

Mirroring notes:
- A pointer is the bytes from there on, with the zero that ends the line. To read behind that
  zero, or through a null pointer, is `none`.
- A byte that is set to zero ends the string in front of it, and nobody goes back to it: a
  string that is found is what is in front of that byte.
- `char` is signed, so `<= ' '` holds of every byte from 128 on.
-/

namespace Sfcb.Support.ControlLine

open Sfcb.Lib

/-! ## The code -/

abbrev Place := List UInt8

/-- What `cntlSkipws` goes over. -/
def isSkipped (c : UInt8) : Bool := c != 0 && c != 10 && (c ≤ 32 || 128 ≤ c)

def cntlSkipws : Place → Option Place
  | [] => none
  | c :: p => if isSkipped c then cntlSkipws p else some (c :: p)

/-- A byte that `strpbrk` has found, with the bytes in front of it and those behind. -/
structure Found where
  front : CStr
  byte : UInt8
  rest : Place
  deriving DecidableEq, Repr

/-- `strpbrk`, which may return null. -/
def strpbrk (accept : UInt8 → Bool) : Place → Option (Option Found)
  | [] => none
  | c :: p =>
    if c = 0 then some none
    else if accept c then some (some ⟨[], c, p⟩)
    else (strpbrk accept p).map (Option.map fun f => { f with front := c :: f.front })

/-- The string that a pointer points to. -/
def chars (p : Place) : CStr := p.takeWhile (· ≠ 0)

/-- `" \t\n"`. -/
def isBlank (c : UInt8) : Bool := c == 32 || c == 9 || c == 10

/-- What `cntlParseStmt` returns, in the order of its numbers. -/
inductive StmtType where
  | error | header | keyValue | comment
  deriving DecidableEq, Repr

structure CntlVals where
  type : StmtType
  id : CStr
  val : Option Place
  deriving DecidableEq, Repr

def cntlParseStmt (inp : Place) (rv : CntlVals) : Option CntlVals := do
  match ← cntlSkipws inp with
  | [] => none
  | c :: rest =>
    if c = 0 ∨ c = 35 ∨ c = 10 then
      pure { rv with type := .comment }
    else if c = 91 then
      -- What `strpbrk` returns is looked at before it is compared with null.
      match ← strpbrk (fun b => b == 93 || isBlank b) rest with
      | none => none
      | some p =>
        if p.byte = 93 then pure { rv with type := .header, id := p.front }
        else pure { rv with type := .error }
    else
      match ← strpbrk (fun b => b == 58 || isBlank b) (c :: rest) with
      | none => none
      | some p =>
        if p.byte = 58 then do
          let val ← cntlSkipws p.rest
          pure ⟨.keyValue, p.front, some val⟩
        else pure { rv with type := .error }

/-- A call of `cntlGetVal`: what it returns, and what it leaves in `rv`. -/
def cntlGetVal (rv : CntlVals) : Option (Option CStr × CntlVals) :=
  match rv.val with
  | none => some (none, rv)
  | some p => do
    let p ← cntlSkipws p
    match ← strpbrk isBlank p with
    | some f => pure (some f.front, { rv with val := if f.byte ≠ 10 then some f.rest else none })
    | none => pure (some (chars p), { rv with val := none })

/-- So many calls, one after the other. -/
def calls : Nat → CntlVals → Option (List (Option CStr) × CntlVals)
  | 0, rv => some ([], rv)
  | n + 1, rv => do
    let (v, rv) ← cntlGetVal rv
    let (vs, rv) ← calls n rv
    pure (v :: vs, rv)

/-- The calls return these values, and then null. -/
def Yields (rv : CntlVals) (vs : List CStr) : Prop :=
  ∃ rv', calls (vs.length + 1) rv = some (vs.map some ++ [none], rv')

/-- The line is read within its bounds, and so is what is left in `val` by any number of
calls. They come to an end. -/
def Parses (line : CStr) (rv : CntlVals) : Prop :=
  ∃ rv', cntlParseStmt (line ++ [0]) rv = some rv' ∧
    (rv'.type = .keyValue → (∃ vs, Yields rv' vs) ∧ ∀ n, ∃ r, calls n rv' = some r)

/-! ## Conditions -/

/-- Where something has to be told from what follows it, a byte that does it is there. -/
def Delimited (line : CStr) : Prop :=
  match line.dropWhile isSkipped with
  | [] => True
  | c :: rest =>
    if c = 91 then ∃ b ∈ rest, b = 93 ∨ isBlank b = true
    else c = 35 ∨ c = 10 ∨ ∃ b ∈ c :: rest, b = 58 ∨ isBlank b = true

/-- White space within a line. -/
def Spaces (pre : CStr) : Prop := ∀ b ∈ pre, isSpace b = true ∧ b ≠ 10

/-- A word that starts with a printing character of ASCII. -/
def PlainWord (w : CStr) : Prop :=
  (∃ c ∈ w.head?, 33 ≤ c.toNat ∧ c.toNat ≤ 127) ∧ ∀ b ∈ w, isSpace b = false

/-- Words, each with a blank or a tab behind it but for the last. Nothing is behind that, or the
end of the line and white space. -/
inductive Separated : CStr → Prop where
  | last {pre w : CStr} : Spaces pre → PlainWord w → Separated (pre ++ w)
  | line {pre w rest : CStr} : Spaces pre → PlainWord w → (∀ b ∈ rest, isSpace b = true) →
      Separated (pre ++ (w ++ 10 :: rest))
  | more {pre w : CStr} {c : UInt8} {rest : CStr} : Spaces pre → PlainWord w → c = 32 ∨ c = 9 →
      Separated rest → Separated (pre ++ (w ++ c :: rest))

/-! ## What is read -/

section Reading

variable {s t w pre front rest : CStr} {c : UInt8} {accept : UInt8 → Bool} {rv rv' : CntlVals}

theorem cntlSkipws_eq (s : CStr) :
    cntlSkipws (s ++ [0]) = some (s.dropWhile isSkipped ++ [0]) := by
  induction s with
  | nil => rfl
  | cons c s ih =>
    rw [List.cons_append, cntlSkipws, List.dropWhile_cons]
    split
    · exact ih
    · rfl

theorem strpbrk_found (hzero : 0 ∉ front) (hfront : ∀ b ∈ front, accept b = false) (hc : c ≠ 0)
    (haccept : accept c = true) :
    strpbrk accept (front ++ c :: rest) = some (some ⟨front, c, rest⟩) := by
  induction front with
  | nil => simp [strpbrk, hc, haccept]
  | cons b front ih =>
    obtain ⟨hb, hzero⟩ := not_or.mp (List.mem_cons.not.mp hzero)
    obtain ⟨hb', hfront⟩ := List.forall_mem_cons.mp hfront
    rw [List.cons_append, strpbrk, if_neg (Ne.symm hb), if_neg (by simp [hb']), ih hzero hfront]
    rfl

theorem strpbrk_null (hzero : 0 ∉ s) (hs : ∀ b ∈ s, accept b = false) :
    strpbrk accept (s ++ [0]) = some none := by
  induction s with
  | nil => rfl
  | cons b s ih =>
    obtain ⟨hb, hzero⟩ := not_or.mp (List.mem_cons.not.mp hzero)
    obtain ⟨hb', hs⟩ := List.forall_mem_cons.mp hs
    rw [List.cons_append, strpbrk, if_neg (Ne.symm hb), if_neg (by simp [hb']), ih hzero hs]
    rfl

/-- The first byte that is accepted, if there is one. -/
theorem exists_found (h : ∃ b ∈ s, accept b = true) :
    ∃ front c rest, s = front ++ c :: rest ∧ accept c = true ∧ ∀ b ∈ front, accept b = false := by
  cases hfind : s.find? accept with
  | none =>
    obtain ⟨b, hb, haccept⟩ := h
    exact absurd haccept (List.find?_eq_none.mp hfind b hb)
  | some c =>
    obtain ⟨hc, front, rest, rfl, hfront⟩ := List.find?_eq_some_iff_append.mp hfind
    exact ⟨front, c, rest, rfl, hc, by simpa using hfront⟩

theorem chars_eq (hzero : 0 ∉ s) : chars (s ++ [0]) = s := by
  unfold chars
  rw [List.takeWhile_append_of_pos, List.takeWhile_cons_of_neg (by decide), List.append_nil]
  intro b hb
  have hne : b ≠ 0 := fun h => hzero (h ▸ hb)
  simpa using hne

/-- What is behind blanks that are gone over: it starts with none. -/
theorem dropWhile_skipped (hpre : ∀ b ∈ pre, isSkipped b = true)
    (ht : ∀ b ∈ t.head?, isSkipped b = false) : (pre ++ t).dropWhile isSkipped = t := by
  rw [List.dropWhile_append_of_pos hpre]
  cases t with
  | nil => rfl
  | cons b t => rw [List.dropWhile_cons, if_neg (by simp [ht b rfl])]

end Reading

/-! ## The lines -/

section Lines

variable {line : CStr} {rv : CntlVals}

/-- What the calls of `cntlGetVal` find. -/
def Inside (rv : CntlVals) : Prop := ∀ p, rv.val = some p → ∃ v, 0 ∉ v ∧ p = v ++ [0]

theorem notMem_dropWhile {s : CStr} (hzero : 0 ∉ s) (skip : UInt8 → Bool) :
    0 ∉ s.dropWhile skip :=
  fun h => hzero (List.dropWhile_sublist skip |>.subset h)

/-- What is told apart by one of these bytes is told apart. -/
theorem strpbrk_cases {s : CStr} (accept : UInt8 → Bool) (hzero : 0 ∉ s) :
    ((∃ b ∈ s, accept b = true) ∧ ∃ front c rest, s = front ++ c :: rest ∧ accept c = true ∧
      strpbrk accept (s ++ [0]) = some (some ⟨front, c, rest ++ [0]⟩)) ∨
    ((¬ ∃ b ∈ s, accept b = true) ∧ strpbrk accept (s ++ [0]) = some none) := by
  by_cases h : ∃ b ∈ s, accept b = true
  · obtain ⟨front, c, rest, rfl, hc, hfront⟩ := exists_found h
    refine .inl ⟨h, front, c, rest, rfl, hc, ?_⟩
    rw [List.append_assoc]
    have hfrontzero : 0 ∉ front := fun hmem => hzero (List.mem_append_left _ hmem)
    have hne : c ≠ 0 := fun heq => hzero (heq ▸ List.mem_append_right _ List.mem_cons_self)
    exact strpbrk_found hfrontzero hfront hne hc
  · exact .inr ⟨h, strpbrk_null hzero fun b hb => by simpa using fun hb' => h ⟨b, hb, hb'⟩⟩

/-- A line is read to its end exactly if everything is delimited. -/
theorem cntlParseStmt_cases (hzero : 0 ∉ line) (rv : CntlVals) :
    (Delimited line ∧ ∃ rv', cntlParseStmt (line ++ [0]) rv = some rv' ∧
      (rv'.type = .keyValue → Inside rv')) ∨
    (¬ Delimited line ∧ cntlParseStmt (line ++ [0]) rv = none) := by
  unfold cntlParseStmt Delimited
  rw [cntlSkipws_eq, Option.bind_eq_bind, Option.bind_some]
  have hskip := notMem_dropWhile hzero isSkipped
  cases hline : line.dropWhile isSkipped with
  | nil => exact .inl ⟨trivial, _, rfl, by simp⟩
  | cons c rest =>
    rw [hline] at hskip
    obtain ⟨hc, hrest⟩ := not_or.mp (List.mem_cons.not.mp hskip)
    rw [List.cons_append]
    dsimp only
    by_cases hcomment : c = 35 ∨ c = 10
    · have hopen : c ≠ 91 := by rintro rfl; simp at hcomment
      rw [if_neg hopen, if_pos (show c = 0 ∨ c = 35 ∨ c = 10 from .inr hcomment)]
      exact .inl ⟨hcomment.imp_right .inl, _, rfl, by simp⟩
    rw [if_neg (show ¬ (c = 0 ∨ c = 35 ∨ c = 10) from not_or.mpr ⟨Ne.symm hc, hcomment⟩)]
    by_cases hopen : c = 91
    · rw [if_pos hopen, if_pos hopen]
      obtain ⟨hacc, front, b, back, rfl, hb, heq⟩ | ⟨hacc, heq⟩ :=
        strpbrk_cases (fun b => b == 93 || isBlank b) hrest
      · refine .inl ⟨by simpa using hacc, ?_⟩
        rw [heq, Option.bind_eq_bind, Option.bind_some]
        dsimp only
        split
        · exact ⟨_, rfl, by simp⟩
        · exact ⟨_, rfl, by simp⟩
      · refine .inr ⟨by simpa using hacc, ?_⟩
        rw [heq]
        rfl
    · rw [if_neg hopen, if_neg hopen]
      rw [← List.cons_append]
      obtain ⟨hacc, front, b, back, hsplit, hb, heq⟩ | ⟨hacc, heq⟩ :=
        strpbrk_cases (fun b => b == 58 || isBlank b) hskip
      · refine .inl ⟨.inr (.inr (by simpa using hacc)), ?_⟩
        rw [heq, Option.bind_eq_bind, Option.bind_some]
        dsimp only
        split
        · rw [cntlSkipws_eq]
          refine ⟨_, rfl, fun _ p hp => ?_⟩
          cases hp
          have hback : 0 ∉ back := fun h => hskip (hsplit ▸ by simp [h])
          exact ⟨_, notMem_dropWhile hback isSkipped, rfl⟩
        · exact ⟨_, rfl, by simp⟩
      · refine .inr ⟨?_, ?_⟩
        · rw [← or_assoc, not_or]
          exact ⟨hcomment, by simpa using hacc⟩
        · rw [heq]
          rfl

end Lines

/-! ## The values -/

/-- What is in front of a blank: it starts with nothing that is gone over. -/
def Piece (w : CStr) : Prop :=
  (∀ b ∈ w.head?, isSkipped b = false) ∧ ∀ b ∈ w, isBlank b = false

/-- What the calls make of a value. -/
inductive Splits : CStr → List CStr → Prop where
  | last {pre w : CStr} : (∀ b ∈ pre, isSkipped b = true) → Piece w → Splits (pre ++ w) [w]
  | line {pre w : CStr} (rest : CStr) : (∀ b ∈ pre, isSkipped b = true) → Piece w →
      Splits (pre ++ (w ++ 10 :: rest)) [w]
  | more {pre w : CStr} {c : UInt8} {rest : CStr} {ws : List CStr} :
      (∀ b ∈ pre, isSkipped b = true) → Piece w → w ≠ [] → c = 32 ∨ c = 9 → Splits rest ws →
      Splits (pre ++ (w ++ c :: rest)) (w :: ws)

section Values

variable {line v pre w rest : CStr} {c : UInt8} {vs ws : List CStr} {rv rv' : CntlVals}

theorem exists_splits (v : CStr) : ∃ ws, Splits v ws := by
  induction hlen : v.length using Nat.strongRecOn generalizing v with
  | ind n ih =>
    have hpre : ∀ b ∈ v.takeWhile isSkipped, isSkipped b = true :=
      fun b hb => List.mem_takeWhile_imp hb
    have hcut := List.takeWhile_append_dropWhile (p := isSkipped) (l := v)
    have hhead : ∀ b ∈ (v.dropWhile isSkipped).head?, isSkipped b = false := by
      intro b hb
      have := List.head?_dropWhile_not isSkipped v
      rw [hb] at this
      simpa using this
    by_cases hblank : ∃ b ∈ v.dropWhile isSkipped, isBlank b = true
    · obtain ⟨w, c, rest, hsplit, hc, hw⟩ := exists_found hblank
      rw [hsplit] at hcut hhead
      have hpiece : Piece w := by
        refine ⟨fun b hb => hhead b ?_, hw⟩
        rw [List.head?_append, Option.mem_def.mp hb]
        rfl
      rw [← hcut]
      by_cases hline : c = 10
      · subst hline
        exact ⟨_, .line rest hpre hpiece⟩
      · have hc : c = 32 ∨ c = 9 := by
          simp only [isBlank, Bool.or_eq_true, beq_iff_eq] at hc
          obtain (hc | hc) | hc := hc
          · exact .inl hc
          · exact .inr hc
          · exact absurd hc hline
        have hne : w ≠ [] := by
          rintro rfl
          obtain rfl | rfl := hc <;> exact absurd (hhead _ rfl) (by decide)
        have hshort : rest.length < n := by
          rw [← hlen, ← hcut]
          simp only [List.length_append, List.length_cons]
          omega
        obtain ⟨ws, hws⟩ := ih _ hshort rest rfl
        exact ⟨_, .more hpre hpiece hne hc hws⟩
    · refine ⟨[v.dropWhile isSkipped], ?_⟩
      have hlast := Splits.last hpre (w := v.dropWhile isSkipped)
        ⟨hhead, fun b hb => by simpa using fun hb' => hblank ⟨b, hb, hb'⟩⟩
      rwa [hcut] at hlast

/-- A word with nothing behind it. -/
theorem cntlGetVal_last (hpre : ∀ b ∈ pre, isSkipped b = true) (hw : Piece w) (hzero : 0 ∉ w)
    (hval : rv.val = some (pre ++ w ++ [0])) :
    cntlGetVal rv = some (some w, { rv with val := none }) := by
  have hnull := strpbrk_null hzero hw.2
  simp only [cntlGetVal, hval, cntlSkipws_eq, dropWhile_skipped hpre hw.1, Option.bind_eq_bind,
    Option.bind_some, hnull, chars_eq hzero, Option.pure_def]

/-- A word with a blank behind it. -/
theorem cntlGetVal_blank (hpre : ∀ b ∈ pre, isSkipped b = true) (hw : Piece w) (hzero : 0 ∉ w)
    (hne : w = [] → c = 10) (hc : isBlank c = true)
    (hval : rv.val = some (pre ++ (w ++ c :: rest) ++ [0])) :
    cntlGetVal rv =
      some (some w, { rv with val := if c ≠ 10 then some (rest ++ [0]) else none }) := by
  have hc0 : c ≠ 0 := by rintro rfl; exact absurd hc (by decide)
  have hhead : ∀ b ∈ (w ++ c :: rest).head?, isSkipped b = false := by
    cases w with
    | nil =>
      intro b hb
      cases hb
      rw [hne rfl]
      decide
    | cons d w =>
      intro b hb
      cases hb
      exact hw.1 _ rfl
  have hskip : cntlSkipws (pre ++ (w ++ c :: rest) ++ [0]) = some (w ++ c :: rest ++ [0]) := by
    rw [cntlSkipws_eq, dropWhile_skipped hpre hhead]
  have hfound : strpbrk isBlank (w ++ c :: rest ++ [0]) = some (some ⟨w, c, rest ++ [0]⟩) := by
    rw [List.append_assoc]
    exact strpbrk_found hzero hw.2 hc0 hc
  simp only [cntlGetVal, hval, hskip, Option.bind_eq_bind, Option.bind_some, hfound,
    Option.pure_def]

theorem yields_value_iff (hget : cntlGetVal rv = some (some w, rv')) :
    Yields rv vs ↔ ∃ ws, vs = w :: ws ∧ Yields rv' ws := by
  have hcalls : ∀ n, calls (n + 1) rv = (calls n rv').map fun r => (some w :: r.1, r.2) := by
    intro n
    simp only [calls, hget, Option.bind_eq_bind, Option.bind_some]
    cases calls n rv' <;> rfl
  constructor
  · rintro ⟨rv'', h⟩
    rw [hcalls] at h
    obtain ⟨r, hr, heq⟩ := Option.map_eq_some_iff.mp h
    cases vs with
    | nil => cases heq
    | cons v vs =>
      rw [List.map_cons, List.cons_append] at heq
      obtain ⟨hhead, rfl⟩ := Prod.mk.inj heq
      obtain ⟨hv, htail⟩ := List.cons.inj hhead
      cases hv
      exact ⟨vs, rfl, r.2, by rw [List.length_cons] at hr; rw [hr, ← htail]⟩
  · rintro ⟨ws, rfl, rv'', h⟩
    refine ⟨rv'', ?_⟩
    rw [List.length_cons, hcalls, h]
    rfl

theorem yields_null_iff (hval : rv.val = none) : Yields rv vs ↔ vs = [] := by
  have hget : cntlGetVal rv = some (none, rv) := by rw [cntlGetVal, hval]
  constructor
  · rintro ⟨rv', h⟩
    rw [calls, hget, Option.bind_eq_bind, Option.bind_some] at h
    dsimp only at h
    rw [Option.bind_eq_bind] at h
    obtain ⟨r, -, heq⟩ := Option.bind_eq_some_iff.mp h
    cases vs with
    | nil => rfl
    | cons v vs => cases heq
  · rintro rfl
    exact ⟨rv, by rw [List.length_nil, calls, hget]; rfl⟩

theorem Splits.yields_iff (hsplits : Splits v ws) (hzero : 0 ∉ v)
    (hval : rv.val = some (v ++ [0])) : Yields rv vs ↔ vs = ws := by
  induction hsplits generalizing rv vs with
  | @last pre w hpre hw =>
    have hget := cntlGetVal_last hpre hw (fun h => hzero (List.mem_append_right _ h)) hval
    rw [yields_value_iff hget]
    simp only [yields_null_iff, exists_eq_right]
  | @line pre w rest hpre hw =>
    have hget := cntlGetVal_blank hpre hw (fun h => hzero (by simp [h])) (fun _ => rfl)
      (by decide) hval
    rw [yields_value_iff hget]
    simp only [ne_eq, not_true_eq_false, if_false, yields_null_iff, exists_eq_right]
  | @more pre w c rest ws hpre hw hne hc hrest ih =>
    have hline : c ≠ 10 := by rintro rfl; simp at hc
    have hblank : isBlank c = true := by obtain rfl | rfl := hc <;> rfl
    have hget := cntlGetVal_blank hpre hw (fun h => hzero (by simp [h]))
      (fun h => absurd h hne) hblank hval
    rw [yields_value_iff hget]
    have hrest : ∀ vs, Yields { rv with val := some (rest ++ [0]) } vs ↔ vs = ws :=
      fun vs => ih (fun h => hzero (by simp [h])) rfl
    simp only [if_pos hline, hrest, exists_eq_right]

/-! ### The bounds of a line -/

/-- A call leaves in `val` what a call finds. -/
theorem Inside.cntlGetVal (h : Inside rv) : ∃ r, cntlGetVal rv = some r ∧ Inside r.2 := by
  cases hval : rv.val with
  | none =>
    refine ⟨(none, rv), by rw [ControlLine.cntlGetVal, hval], h⟩
  | some p =>
    obtain ⟨v, hzero, rfl⟩ := h p hval
    obtain ⟨ws, hws⟩ := exists_splits v
    cases hws with
    | @last pre w hpre hw =>
      have hget := cntlGetVal_last hpre hw (fun h => hzero (List.mem_append_right _ h)) hval
      exact ⟨_, hget, by simp [Inside]⟩
    | @line pre w rest hpre hw =>
      have hget := cntlGetVal_blank hpre hw (fun h => hzero (by simp [h])) (fun _ => rfl)
        (by decide) hval
      exact ⟨_, hget, by simp [Inside]⟩
    | @more pre w c rest ws hpre hw hne hc hrest =>
      have hblank : isBlank c = true := by obtain rfl | rfl := hc <;> rfl
      have hget := cntlGetVal_blank hpre hw (fun h => hzero (by simp [h]))
        (fun h => absurd h hne) hblank hval
      refine ⟨_, hget, fun p hp => ⟨rest, fun h => hzero (by simp [h]), ?_⟩⟩
      obtain ⟨-, hp⟩ := Option.ite_none_right_eq_some.mp hp
      exact (Option.some.inj hp).symm

theorem Inside.calls (h : Inside rv) (n : Nat) : ∃ r, calls n rv = some r := by
  induction n generalizing rv with
  | zero => exact ⟨_, rfl⟩
  | succ n ih =>
    obtain ⟨r, hget, hr⟩ := h.cntlGetVal
    obtain ⟨r', hrest⟩ := ih hr
    refine ⟨(r.1 :: r'.1, r'.2), ?_⟩
    simp only [ControlLine.calls, hget, hrest, Option.bind_eq_bind, Option.bind_some,
      Option.pure_def]

theorem Inside.yields (h : Inside rv) : ∃ vs, Yields rv vs := by
  cases hval : rv.val with
  | none => exact ⟨[], (yields_null_iff hval).mpr rfl⟩
  | some p =>
    obtain ⟨v, hzero, rfl⟩ := h p hval
    obtain ⟨ws, hws⟩ := exists_splits v
    exact ⟨ws, (hws.yields_iff hzero hval).mpr rfl⟩

/-- A line is read within its bounds exactly if what has to be told apart is. -/
theorem parses_iff (line : CStr) (rv : CntlVals) (hzero : 0 ∉ line) :
    Parses line rv ↔ Delimited line := by
  obtain ⟨hline, rv', hparse, hval⟩ | ⟨hline, hparse⟩ := cntlParseStmt_cases hzero rv
  · exact iff_of_true
      ⟨rv', hparse, fun htype => ⟨(hval htype).yields, fun n => (hval htype).calls n⟩⟩ hline
  · refine iff_of_false ?_ hline
    rintro ⟨rv', h, -⟩
    rw [hparse] at h
    cases h

theorem parses_type : Parses (lit "type: class\n") ⟨.error, [], none⟩ :=
  (parses_iff (lit "type: class\n") ⟨.error, [], none⟩ (by decide)).mpr
    (.inr (.inr ⟨58, by decide, .inl rfl⟩))

/-- A last line of one word: `strpbrk` returns null. -/
theorem not_parses : ¬ Parses (lit "type") ⟨.error, [], none⟩ := by
  rintro ⟨rv', h, -⟩
  have hparse : cntlParseStmt (lit "type" ++ [0]) ⟨.error, [], none⟩ = none := by decide
  rw [hparse] at h
  cases h

/-! ### Words -/

theorem isSkipped_iff : isSkipped c = true ↔
    c ≠ 0 ∧ c ≠ 10 ∧ (c.toNat ≤ 32 ∨ 128 ≤ c.toNat) := by
  unfold isSkipped
  rw [Bool.and_eq_true, Bool.and_eq_true, Bool.or_eq_true, decide_eq_true_iff, decide_eq_true_iff,
    UInt8.le_iff_toNat_le, UInt8.le_iff_toNat_le, bne_iff_ne, bne_iff_ne, and_assoc]
  rfl

theorem isSpace_iff : isSpace c = true ↔ c.toNat = 32 ∨ (9 ≤ c.toNat ∧ c.toNat ≤ 13) := by
  unfold isSpace
  rw [Bool.or_eq_true, Bool.and_eq_true, decide_eq_true_iff, decide_eq_true_iff,
    UInt8.le_iff_toNat_le, UInt8.le_iff_toNat_le, beq_iff_eq, ← UInt8.toNat_inj]
  rfl

theorem isBlank_iff : isBlank c = true ↔ c = 32 ∨ c = 9 ∨ c = 10 := by
  unfold isBlank
  rw [Bool.or_eq_true, Bool.or_eq_true, beq_iff_eq, beq_iff_eq, beq_iff_eq, or_assoc]

theorem isSpace_of_isBlank (hc : isBlank c = true) : isSpace c = true := by
  obtain rfl | rfl | rfl := isBlank_iff.mp hc <;> rfl

theorem Spaces.skipped (hpre : Spaces pre) : ∀ b ∈ pre, isSkipped b = true := by
  intro b hb
  obtain ⟨hspace, hline⟩ := hpre b hb
  have := isSpace_iff.mp hspace
  refine isSkipped_iff.mpr ⟨?_, hline, .inl (by omega)⟩
  rintro rfl
  simp at this

theorem PlainWord.ne_nil (hw : PlainWord w) : w ≠ [] := by
  rintro rfl
  obtain ⟨c, ⟨⟩, -⟩ := hw.1

theorem PlainWord.piece (hw : PlainWord w) : Piece w := by
  obtain ⟨⟨c, hhead, hlow, hhigh⟩, hspace⟩ := hw
  refine ⟨fun b hb => ?_, fun b hb => ?_⟩
  · obtain rfl : c = b := Option.some.inj (hhead.symm.trans hb)
    rw [← Bool.not_eq_true, isSkipped_iff]
    omega
  · rw [← Bool.not_eq_true]
    exact fun hblank => absurd (isSpace_of_isBlank hblank) (by simp [hspace b hb])

/-- The words are what the calls make of such a value. -/
theorem Separated.splits (h : Separated v) : Splits v (words isSpace v) := by
  induction h with
  | @last pre w hpre hw =>
    rw [words_append fun b hb => (hpre b hb).1, words_singleton hw.ne_nil hw.2]
    exact .last hpre.skipped hw.piece
  | @line pre w rest hpre hw hrest =>
    rw [words_append fun b hb => (hpre b hb).1, words_word_cons hw.ne_nil hw.2 (by decide),
      words_eq_nil hrest]
    exact .line rest hpre.skipped hw.piece
  | @more pre w c rest hpre hw hc hrest ih =>
    have hspace : isSpace c = true := by obtain rfl | rfl := hc <;> rfl
    rw [words_append fun b hb => (hpre b hb).1, words_word_cons hw.ne_nil hw.2 hspace]
    exact .more hpre.skipped hw.piece hw.ne_nil hc ih

/-- Where the first word is what the first call finds, nothing else was gone over. -/
theorem first_word {t : CStr} (hpre : ∀ b ∈ pre, isSkipped b = true) (hw : Piece w)
    (hzero : 0 ∉ w) (hwords : words isSpace (pre ++ (w ++ t)) = w :: ws) :
    Spaces pre ∧ PlainWord w ∧ words isSpace t = ws := by
  obtain ⟨pre', t', heq, hpre', hne, hspace, -, hws⟩ := words_eq_cons_iff.mp hwords
  cases w with
  | nil => exact absurd rfl hne
  | cons c w =>
    have hskip : isSkipped c = false := hw.1 c rfl
    have hc : isSpace c = false := hspace c List.mem_cons_self
    have hnot : c ∉ pre := fun hmem => by simp [hpre c hmem] at hskip
    have hnot' : c ∉ pre' := fun hmem => by simp [hpre' c hmem] at hc
    obtain ⟨rfl, htail⟩ := append_cons_unique hnot hnot' heq
    obtain rfl := List.append_cancel_left htail
    refine ⟨fun b hb => ⟨hpre' b hb, (isSkipped_iff.mp (hpre b hb)).2.1⟩,
      ⟨⟨c, rfl, ?_⟩, hspace⟩, hws⟩
    have hc0 : c ≠ 0 := fun h => hzero (h ▸ List.mem_cons_self)
    have hc10 : c ≠ 10 := by rintro rfl; exact absurd hc (by decide)
    rw [← Bool.not_eq_true, isSkipped_iff, not_and, not_and] at hskip
    have := hskip hc0 hc10
    omega

theorem Splits.separated (h : Splits v ws) (hzero : 0 ∉ v) (hwords : words isSpace v = ws) :
    Separated v := by
  induction h with
  | @last pre w hpre hw =>
    have hwords : words isSpace (pre ++ (w ++ [])) = [w] := by rwa [List.append_nil]
    obtain ⟨hspaces, hplain, -⟩ := first_word hpre hw (fun h => hzero (by simp [h])) hwords
    exact .last hspaces hplain
  | @line pre w rest hpre hw =>
    obtain ⟨hspaces, hplain, hrest⟩ := first_word hpre hw (fun h => hzero (by simp [h])) hwords
    rw [words_cons (by decide)] at hrest
    exact .line hspaces hplain (words_eq_nil_iff.mp hrest)
  | @more pre w c rest ws hpre hw hne hc hrest ih =>
    obtain ⟨hspaces, hplain, htail⟩ := first_word hpre hw (fun h => hzero (by simp [h])) hwords
    have hspace : isSpace c = true := by obtain rfl | rfl := hc <;> rfl
    rw [words_cons hspace] at htail
    exact .more hspaces hplain hc (ih (fun h => hzero (by simp [h])) htail)

/-- The calls return the words of a value, and then null, exactly if it is of the grammar. -/
theorem yields_words_iff (rv : CntlVals) (v : CStr) (hzero : 0 ∉ v) :
    Yields { rv with val := some (v ++ [0]) } (words isSpace v) ↔ Separated v := by
  constructor
  · intro h
    obtain ⟨ws, hws⟩ := exists_splits v
    exact hws.separated hzero ((hws.yields_iff hzero rfl).mp h)
  · intro h
    exact (h.splits.yields_iff hzero rfl).mpr rfl

/-- A word, blanks, and a word at the end of the line: `"a  b\n"`. -/
theorem yields_words_two : Yields ⟨.keyValue, [], some [97, 32, 32, 98, 10, 0]⟩
    (words isSpace [97, 32, 32, 98, 10]) :=
  (yields_words_iff ⟨.keyValue, [], none⟩ [97, 32, 32, 98, 10] (by decide)).mpr
    (@Separated.more [] [97] _ _ (by simp [Spaces])
      ⟨⟨97, rfl, by decide⟩, List.forall_mem_singleton.mpr rfl⟩ (.inl rfl)
      (@Separated.line [32] [98] [] (List.forall_mem_singleton.mpr ⟨rfl, by decide⟩)
        ⟨⟨98, rfl, by decide⟩, List.forall_mem_singleton.mpr rfl⟩ (by simp)))

/-- A blank at the end of a line, as in `"a \n"`, is followed by an empty value. -/
theorem not_yields_words :
    ¬ Yields ⟨.keyValue, [], some [97, 32, 10, 0]⟩ (words isSpace [97, 32, 10]) := by
  intro h
  have hwords : words isSpace [97, 32, 10] = [[97]] := by
    show words isSpace ([97] ++ 32 :: [10]) = [[97]]
    rw [words_word_cons (by simp) (List.forall_mem_singleton.mpr rfl) rfl,
      words_eq_nil (List.forall_mem_singleton.mpr rfl)]
  have hsplits : Splits [97, 32, 10] [[97], []] :=
    @Splits.more [] [97] _ _ _ (by simp)
      ⟨by rintro _ ⟨⟩; rfl, List.forall_mem_singleton.mpr rfl⟩ (by simp) (.inl rfl)
      (@Splits.line [] [] [] (by simp) ⟨by simp, by simp⟩)
  have hvals := (hsplits.yields_iff (by decide) rfl).mp h
  rw [hwords] at hvals
  cases hvals

end Values

end Sfcb.Support.ControlLine
