import Mathlib.Data.List.Basic
import Sfcb.Lib.CString

/-!
# Markup

A reader for the part of XML that programs write: elements with attributes in double quotes,
character data with the five named references, and CDATA sections. It is a machine that takes
one byte after the other, so what it makes of a text is what it makes of the pieces in turn, and
`Reads` and its rules follow the way in which a text was put together.

What it takes is well formed: an end tag has the name of the element that is open, no attribute
stands twice in a tag, and bytes that may not stand in a document are refused. It refuses more
than XML does: declarations and comments, single quotes, references by number and in values of
attributes, and a `>` that could be left as it is.
-/

namespace Sfcb.Lib.Markup

open Sfcb.Lib

/-! ## Contents -/

/-- Elements, each with the text in front of it, and the text behind the last one. -/
structure Mixed (ε : Type) where
  items : List (CStr × ε)
  last : CStr

namespace Mixed

variable {ε : Type}

def text (t : CStr) : Mixed ε := ⟨[], t⟩

def item (e : ε) : Mixed ε := ⟨[([], e)], []⟩

/-- One content behind the other. Where they meet, there is one text. -/
def append (c d : Mixed ε) : Mixed ε :=
  match d.items with
  | [] => ⟨c.items, c.last ++ d.last⟩
  | (t, e) :: rest => ⟨c.items ++ (c.last ++ t, e) :: rest, d.last⟩

instance : Append (Mixed ε) := ⟨append⟩

variable (c d e : Mixed ε)

@[simp] theorem append_text (t : CStr) : c ++ text t = ⟨c.items, c.last ++ t⟩ := rfl

theorem append_empty : c ++ text [] = c := by
  rw [append_text, List.append_nil]

theorem empty_append : text [] ++ c = c := by
  obtain ⟨items, last⟩ := c
  cases items <;> rfl

theorem append_assoc : c ++ d ++ e = c ++ (d ++ e) := by
  obtain ⟨ds, dlast⟩ := d
  obtain ⟨es, elast⟩ := e
  show append (append _ _) _ = append _ (append _ _)
  cases es with
  | nil => cases ds <;> simp [append]
  | cons y ys => cases ds <;> simp [append]

/-- Some contents, one behind the other. -/
def concat : List (Mixed ε) → Mixed ε
  | [] => text []
  | c :: cs => c ++ concat cs

theorem text_append_text (s t : CStr) : (text s ++ text t : Mixed ε) = text (s ++ t) := rfl

end Mixed

/-- An element: its name, its attributes with their values, and what is in it. -/
inductive Element where
  | mk (name : CStr) (attrs : List (CStr × CStr)) (content : Mixed Element)

abbrev Content := Mixed Element

open Mixed

/-! ## Bytes -/

/-- What a name may begin with. -/
def nameStart (c : UInt8) : Bool := (65 ≤ c && c ≤ 90) || (97 ≤ c && c ≤ 122) || c = 95 || c = 58

/-- What it may go on with: also digits, `-` and `.`. -/
def nameByte (c : UInt8) : Bool := nameStart c || (48 ≤ c && c ≤ 57) || c = 45 || c = 46

/-- No control characters, but tabs and ends of lines. -/
def textual (c : UInt8) : Bool := 32 ≤ c || c = 9 || c = 10

/-- What stands for itself in character data. -/
def plain (c : UInt8) : Bool := textual c && c ≠ 60 && c ≠ 62 && c ≠ 38

/-- What stands for itself in the value of an attribute. -/
def quoted (c : UInt8) : Bool := 32 ≤ c && c ≠ 34 && c ≠ 60 && c ≠ 62 && c ≠ 38

/-- No brackets, no control characters, and no `>` at the front. -/
def bracketless (b : CStr) : Bool := b.head? ≠ some 62 && b.all fun c => textual c ∧ c ≠ 93

/-- What a reference stands for. -/
def entity (name : CStr) : Option UInt8 :=
  if name = lit "lt" then some 60
  else if name = lit "gt" then some 62
  else if name = lit "amp" then some 38
  else if name = lit "quot" then some 34
  else if name = lit "apos" then some 39
  else none

/-- How a CDATA section begins, behind `<!`. -/
def mark : CStr := lit "[CDATA["

/-! ## The reader -/

/-- An element that is open, and what was read in front of it. -/
structure Frame where
  name : CStr
  attrs : List (CStr × CStr)
  before : Content

/-- What the reader is in, with what it has read of it. -/
inductive Mode where
  | content
  /-- Behind an `&`. -/
  | reference (name : CStr)
  /-- Behind a `<`. -/
  | markup
  | openTag (name : CStr)
  | space (name : CStr) (attrs : List (CStr × CStr))
  | attrName (name : CStr) (attrs : List (CStr × CStr)) (attr : CStr)
  | equals (name : CStr) (attrs : List (CStr × CStr)) (attr : CStr)
  | value (name : CStr) (attrs : List (CStr × CStr)) (attr value : CStr)
  | attrEnd (name : CStr) (attrs : List (CStr × CStr))
  | emptyTag (name : CStr) (attrs : List (CStr × CStr))
  | closeTag (name : CStr)
  /-- Behind `<!` and so many bytes of the mark. -/
  | mark (n : Nat)
  /-- In a CDATA section, behind so many `]` that may be its end. -/
  | cdata (brackets : Nat)
deriving DecidableEq, Repr

structure Reader where
  stack : List Frame
  content : Content
  mode : Mode

namespace Reader

variable (r : Reader)

/-- Some text more. -/
def addText (t : CStr) : Reader := { r with content := r.content ++ text t, mode := .content }

/-- Where a tag may end or an attribute may follow. -/
def tagEnd (name : CStr) (attrs : List (CStr × CStr)) (c : UInt8) : Option Reader :=
  if c = 32 ∨ c = 10 then some { r with mode := .space name attrs }
  else if c = 62 then some ⟨⟨name, attrs, r.content⟩ :: r.stack, text [], .content⟩
  else if c = 47 then some { r with mode := .emptyTag name attrs }
  else none

/-- The end of the element that is open. -/
def close (name : CStr) : Option Reader :=
  match r.stack with
  | [] => none
  | f :: stack =>
    if f.name = name then some ⟨stack, f.before ++ item ⟨name, f.attrs, r.content⟩, .content⟩
    else none

/-- One byte. -/
def feed (c : UInt8) : Option Reader :=
  match r.mode with
  | .content =>
    if c = 60 then some { r with mode := .markup }
    else if c = 38 then some { r with mode := .reference [] }
    else if plain c then some (r.addText [c])
    else none
  | .reference name =>
    if c = 59 then (entity name).map fun b => r.addText [b]
    else some { r with mode := .reference (name ++ [c]) }
  | .markup =>
    if c = 47 then some { r with mode := .closeTag [] }
    else if c = 33 then some { r with mode := .mark 0 }
    else if nameStart c then some { r with mode := .openTag [c] }
    else none
  | .openTag name =>
    if nameByte c then some { r with mode := .openTag (name ++ [c]) } else r.tagEnd name [] c
  | .space name attrs =>
    if nameStart c then some { r with mode := .attrName name attrs [c] } else r.tagEnd name attrs c
  | .attrName name attrs attr =>
    if nameByte c then some { r with mode := .attrName name attrs (attr ++ [c]) }
    else if c = 61 then some { r with mode := .equals name attrs attr }
    else none
  | .equals name attrs attr =>
    if c = 34 then some { r with mode := .value name attrs attr [] } else none
  | .value name attrs attr value =>
    if c = 34 then
      if attr ∈ attrs.map (·.1) then none
      else some { r with mode := .attrEnd name (attrs ++ [(attr, value)]) }
    else if quoted c then some { r with mode := .value name attrs attr (value ++ [c]) }
    else none
  | .attrEnd name attrs => r.tagEnd name attrs c
  | .emptyTag name attrs =>
    if c = 62 then
      some { r with content := r.content ++ item ⟨name, attrs, text []⟩, mode := .content }
    else none
  | .closeTag name =>
    if nameByte c then some { r with mode := .closeTag (name ++ [c]) }
    else if c = 62 then r.close name
    else none
  | .mark n =>
    if Markup.mark[n]? = some c then
      some { r with mode := if n + 1 = Markup.mark.length then .cdata 0 else .mark (n + 1) }
    else none
  | .cdata brackets =>
    if c = 93 then
      if brackets < 2 then some { r with mode := .cdata (brackets + 1) }
      else some { r.addText [93] with mode := .cdata brackets }
    else if c = 62 ∧ brackets = 2 then some { r with mode := .content }
    else if textual c then
      some { r.addText (List.replicate brackets 93 ++ [c]) with mode := .cdata 0 }
    else none

/-- Some bytes. -/
def run (r : Reader) (b : CStr) : Option Reader := b.foldlM feed r

theorem run_append (r : Reader) (a b : CStr) : r.run (a ++ b) = (r.run a).bind fun r => r.run b :=
  List.foldlM_append

theorem run_cons (r : Reader) (c : UInt8) (b : CStr) :
    r.run (c :: b) = (r.feed c).bind fun r => r.run b :=
  List.foldlM_cons

theorem run_singleton (r : Reader) (c : UInt8) : r.run [c] = r.feed c := by
  rw [run_cons]
  cases r.feed c <;> rfl

end Reader

open Reader

/-- A whole text: every element has its end. -/
def read (b : CStr) : Option Content :=
  (run ⟨[], text [], .content⟩ b).bind fun r =>
    if r.mode = .content ∧ r.stack.isEmpty then some r.content else none

/-! ## What is read of a piece -/

/-- Wherever content may stand, this is read as some content more. -/
def Reads (b : CStr) (c : Content) : Prop :=
  ∀ stack before, run ⟨stack, before, .content⟩ b = some ⟨stack, before ++ c, .content⟩

variable {a b z t v n attr : CStr} {c d : Content} {attrs : List (CStr × CStr)}

namespace Reads

theorem read (h : Reads b c) : Markup.read b = some c := by
  unfold Markup.read
  rw [h [] (text []), empty_append]
  rfl

theorem nil : Reads [] (text []) := by
  intro stack before
  rw [append_empty]
  rfl

theorem append (ha : Reads a c) (hb : Reads b d) : Reads (a ++ b) (c ++ d) := by
  intro stack before
  rw [run_append, ha, Option.bind_some, hb, append_assoc]

theorem of_plain (h : ∀ x ∈ t, plain x = true) : Reads t (text t) := by
  induction t with
  | nil => exact nil
  | cons x t ih =>
    intro stack before
    have hx := h x List.mem_cons_self
    have hne : x ≠ 60 ∧ x ≠ 38 := by
      simp only [plain, Bool.and_eq_true, ne_eq, decide_not, Bool.not_eq_true',
        decide_eq_false_iff_not] at hx
      exact ⟨hx.1.1.2, hx.2⟩
    have hfeed : feed ⟨stack, before, .content⟩ x = some ⟨stack, before ++ text [x], .content⟩ := by
      simp only [feed, if_neg hne.1, if_neg hne.2, if_pos hx]
      rfl
    rw [run_cons, hfeed, Option.bind_some, ih fun y hy => h y (List.mem_cons_of_mem _ hy),
      append_assoc, text_append_text]
    rfl

theorem run_reference {stack : List Frame} {before : Content} {name : CStr} (h : 59 ∉ n) :
    run ⟨stack, before, .reference name⟩ n = some ⟨stack, before, .reference (name ++ n)⟩ := by
  induction n generalizing name with
  | nil => rw [List.append_nil]; rfl
  | cons x n ih =>
    rw [List.mem_cons, not_or] at h
    have hfeed : feed ⟨stack, before, .reference name⟩ x =
        some ⟨stack, before, .reference (name ++ [x])⟩ := by
      simp only [feed, if_neg (Ne.symm h.1)]
    rw [run_cons, hfeed, Option.bind_some, ih h.2, List.append_assoc]
    rfl

/-- A reference is read as what it stands for. -/
theorem reference {x : UInt8} (h : entity n = some x) (hsemi : 59 ∉ n) :
    Reads (38 :: (n ++ [59])) (text [x]) := by
  intro stack before
  have hfeed : feed ⟨stack, before, .content⟩ 38 = some ⟨stack, before, .reference []⟩ := rfl
  rw [run_cons, hfeed, Option.bind_some, run_append, run_reference hsemi, Option.bind_some,
    List.nil_append, run_singleton]
  simp only [feed, if_true, h, Option.map_some]
  rfl

end Reads

/-! ## Tags -/

/-- From a content on, this leads to some place in a tag. -/
def Leads (b : CStr) (m : Mode) : Prop :=
  ∀ stack before, run ⟨stack, before, .content⟩ b = some ⟨stack, before, m⟩

/-- A start tag, and some text behind it. -/
def Opens (b n : CStr) (attrs : List (CStr × CStr)) (t : CStr) : Prop :=
  ∀ stack before, run ⟨stack, before, .content⟩ b =
    some ⟨⟨n, attrs, before⟩ :: stack, text t, .content⟩

/-- An end tag, and some text behind it. -/
def Closes (b n t : CStr) : Prop :=
  ∀ stack attrs before c, run ⟨⟨n, attrs, before⟩ :: stack, c, .content⟩ b =
    some ⟨stack, before ++ item ⟨n, attrs, c⟩ ++ text t, .content⟩

/-- An element. -/
theorem Opens.element {s : CStr} (ha : Opens a n attrs s) (hb : Reads b c) (hz : Closes z n t) :
    Reads (a ++ b ++ z) (item ⟨n, attrs, text s ++ c⟩ ++ text t) := by
  intro stack before
  rw [run_append, run_append, ha, Option.bind_some, hb, Option.bind_some, hz, append_assoc]

namespace Leads

variable {m m' : Mode}

theorem run (h : Leads b m)
    (hz : ∀ stack before, Reader.run ⟨stack, before, m⟩ z = some ⟨stack, before, m'⟩) :
    Leads (b ++ z) m' := by
  intro stack before
  rw [run_append, h, Option.bind_some, hz]

/-- The value of an attribute. -/
theorem value (h : Leads b (.value n attrs attr [])) (hv : ∀ x ∈ v, quoted x = true) :
    Leads (b ++ v) (.value n attrs attr v) := by
  have hrun : ∀ w stack before, Reader.run ⟨stack, before, .value n attrs attr w⟩ v =
      some ⟨stack, before, .value n attrs attr (w ++ v)⟩ := by
    clear h
    induction v with
    | nil =>
      intro w stack before
      rw [List.append_nil]
      rfl
    | cons x v ih =>
      intro w stack before
      have hx := hv x List.mem_cons_self
      have hne : x ≠ 34 := by
        intro heq
        rw [heq] at hx
        exact absurd hx (by decide)
      have hfeed : feed ⟨stack, before, .value n attrs attr w⟩ x =
          some ⟨stack, before, .value n attrs attr (w ++ [x])⟩ := by
        simp only [feed, if_neg hne, if_pos hx]
      rw [run_cons, hfeed, Option.bind_some, ih fun y hy => hv y (List.mem_cons_of_mem _ hy),
        List.append_assoc]
      rfl
  exact h.run (hrun [])

theorem opens (h : Leads b m) (hz : ∀ stack before, Reader.run ⟨stack, before, m⟩ z =
      some ⟨⟨n, attrs, before⟩ :: stack, text t, .content⟩) : Opens (b ++ z) n attrs t := by
  intro stack before
  rw [run_append, h, Option.bind_some, hz]

/-- The tag of an element with nothing in it. -/
theorem reads (h : Leads b m) (hz : ∀ stack before, Reader.run ⟨stack, before, m⟩ z =
      some ⟨stack, before ++ c, .content⟩) : Reads (b ++ z) c := by
  intro stack before
  rw [run_append, h, Option.bind_some, hz]

end Leads

/-! ## Sections -/

/-- In a CDATA section, this is read as it is, and does not end the section: what was read and
the brackets that may be the end are the bytes so far. -/
def Raw (b : CStr) : Prop :=
  ∀ stack before k, k ≤ 2 → ∃ c k', k' ≤ 2 ∧
    run ⟨stack, before, .cdata k⟩ b = some ⟨stack, c, .cdata k'⟩ ∧
    c ++ text (List.replicate k' 93) = before ++ text (List.replicate k 93 ++ b)

namespace Raw

theorem nil : Raw [] := by
  intro stack before k hk
  exact ⟨before, k, hk, rfl, by rw [List.append_nil]⟩

theorem append (ha : Raw a) (hb : Raw b) : Raw (a ++ b) := by
  intro stack before k hk
  obtain ⟨c, k', hk', hrun, hc⟩ := ha stack before k hk
  obtain ⟨d, k'', hk'', hrun', hd⟩ := hb stack c k' hk'
  refine ⟨d, k'', hk'', ?_, ?_⟩
  · rw [run_append, hrun, Option.bind_some, hrun']
  · rw [hd, ← text_append_text, ← append_assoc, hc, append_assoc, text_append_text,
      List.append_assoc]

/-- A byte that cannot be the end. -/
theorem byte {x : UInt8} (hx : textual x = true) (hgt : x ≠ 62) : Raw [x] := by
  intro stack before k hk
  rw [run_singleton]
  by_cases hbracket : x = 93
  · subst hbracket
    by_cases hlt : k < 2
    · refine ⟨before, k + 1, hlt, ?_, ?_⟩
      · simp only [feed, if_true, if_pos hlt]
      · rw [List.replicate_succ']
    · obtain rfl : k = 2 := by omega
      refine ⟨before ++ text [93], 2, Nat.le_refl _, ?_, ?_⟩
      · simp only [feed, if_true, if_neg (Nat.lt_irrefl 2)]
        rfl
      · rw [append_assoc]
        rfl
  · refine ⟨before ++ text (List.replicate k 93 ++ [x]), 0, Nat.zero_le _, ?_, ?_⟩
    · simp only [feed, if_neg hbracket, hgt, false_and, if_false, if_pos hx]
      rfl
    · exact append_empty _

theorem of_notMem (h : ∀ x ∈ b, textual x = true) (hgt : 62 ∉ b) : Raw b := by
  induction b with
  | nil => exact nil
  | cons x b ih =>
    rw [List.mem_cons, not_or] at hgt
    have hx := byte (h x List.mem_cons_self) (Ne.symm hgt.1)
    exact hx.append (ih (fun y hy => h y (List.mem_cons_of_mem _ hy)) hgt.2)

/-- Without brackets only a `>` at the front could be the end of a section. -/
theorem of_bracketless (h : bracketless b = true) : Raw b := by
  unfold bracketless at h
  simp only [Bool.and_eq_true, List.all_eq_true, decide_eq_true_eq] at h
  obtain ⟨hhead, hall⟩ := h
  cases b with
  | nil => exact nil
  | cons x b =>
    have hx := hall x List.mem_cons_self
    have hgt : x ≠ 62 := fun heq => hhead (by rw [heq]; rfl)
    have hrest : ∀ stack before, run ⟨stack, before, .cdata 0⟩ b =
        some ⟨stack, before ++ text b, .cdata 0⟩ := by
      have hb : ∀ y ∈ b, textual y = true ∧ y ≠ 93 := fun y hy => hall y (List.mem_cons_of_mem _ hy)
      clear hhead hall hx
      induction b with
      | nil =>
        intro stack before
        rw [append_empty]
        rfl
      | cons y b ih =>
        intro stack before
        have hy := hb y List.mem_cons_self
        have hfeed : feed ⟨stack, before, .cdata 0⟩ y =
            some ⟨stack, before ++ text [y], .cdata 0⟩ := by
          have hend : ¬(y = 62 ∧ (0 : Nat) = 2) := by simp
          simp only [feed, if_neg hy.2, if_neg hend, if_pos hy.1]
          rfl
        rw [run_cons, hfeed, Option.bind_some, ih fun z hz => hb z (List.mem_cons_of_mem _ hz),
          append_assoc, text_append_text]
        rfl
    intro stack before k hk
    refine ⟨before ++ text (List.replicate k 93 ++ [x]) ++ text b, 0, Nat.zero_le _, ?_, ?_⟩
    · have hfeed : feed ⟨stack, before, .cdata k⟩ x =
          some ⟨stack, before ++ text (List.replicate k 93 ++ [x]), .cdata 0⟩ := by
        simp only [feed, if_neg hx.2, hgt, false_and, if_false, if_pos hx.1]
        rfl
      rw [run_cons, hfeed, Option.bind_some, hrest]
    · rw [append_assoc, append_assoc, text_append_text, text_append_text]
      simp

end Raw

/-- A section is read as its text. -/
theorem Reads.cdata (h : Raw b) : Reads (lit "<![CDATA[" ++ b ++ lit "]]>") (text b) := by
  intro stack before
  have hbegin : run ⟨stack, before, .content⟩ (lit "<![CDATA[") =
      some ⟨stack, before, .cdata 0⟩ := rfl
  obtain ⟨c, k, hk, hrun, hc⟩ := h stack before 0 (Nat.zero_le _)
  have hend : run ⟨stack, c, .cdata k⟩ (lit "]]>") =
      some ⟨stack, c ++ text (List.replicate k 93), .content⟩ := by
    obtain rfl | rfl | rfl : k = 0 ∨ k = 1 ∨ k = 2 := by omega
    · rw [show List.replicate 0 (93 : UInt8) = [] from rfl, append_empty]
      rfl
    · rfl
    · -- two brackets of the text, and the two of the end behind them
      show some (⟨stack, c ++ text [93] ++ text [93], .content⟩ : Reader) = _
      rw [append_assoc]
      rfl
  rw [run_append, run_append, hbegin, Option.bind_some, hrun, Option.bind_some, hend, hc]
  rfl

/-! ## Spelling -/

/-- This is read as the content wherever content may stand, and where `r` holds, it may also be
taken into a section. -/
def Spells (r : Prop) (b : CStr) (c : Content) : Prop := Reads b c ∧ (r → Raw b)

/-- A start tag, and some text behind it. -/
structure StartTag (b n : CStr) (attrs : List (CStr × CStr)) (t : CStr) : Prop where
  opens : Opens b n attrs t
  raw : Raw b

/-- An end tag, and some text behind it. -/
structure EndTag (b n t : CStr) : Prop where
  closes : Closes b n t
  raw : Raw b

/-- What leads into the value of an attribute. -/
structure ToValue (b n : CStr) (attrs : List (CStr × CStr)) (attr v : CStr) : Prop where
  leads : Leads b (.value n attrs attr v)
  raw : Raw b

theorem quoted_raw (hv : ∀ x ∈ v, quoted x = true) : Raw v := by
  apply Raw.of_notMem
  · intro x hx
    have hq := hv x hx
    simp only [quoted, textual, Bool.and_eq_true, Bool.or_eq_true] at hq ⊢
    exact .inl (.inl hq.1.1.1.1)
  · intro hin
    exact absurd (hv 62 hin) (by decide)

namespace ToValue

theorem value (h : ToValue b n attrs attr []) (hv : ∀ x ∈ v, quoted x = true) :
    ToValue (b ++ v) n attrs attr v :=
  ⟨h.leads.value hv, h.raw.append (quoted_raw hv)⟩

/-- The tag goes on to the value of another attribute, or into it. -/
theorem next {attrs' : List (CStr × CStr)} {attr' v' : CStr} (h : ToValue b n attrs attr v)
    (hz : ∀ stack before, Reader.run ⟨stack, before, .value n attrs attr v⟩ z =
      some ⟨stack, before, .value n attrs' attr' v'⟩) (hraw : bracketless z = true) :
    ToValue (b ++ z) n attrs' attr' v' :=
  ⟨h.leads.run hz, h.raw.append (.of_bracketless hraw)⟩

theorem startTag {attrs' : List (CStr × CStr)} (h : ToValue b n attrs attr v)
    (hz : ∀ stack before, Reader.run ⟨stack, before, .value n attrs attr v⟩ z =
      some ⟨⟨n, attrs', before⟩ :: stack, text t, .content⟩) (hraw : bracketless z = true) :
    StartTag (b ++ z) n attrs' t :=
  ⟨h.leads.opens hz, h.raw.append (.of_bracketless hraw)⟩

end ToValue

namespace Spells

variable {r : Prop}

theorem nil : Spells r [] (text []) := ⟨Reads.nil, fun _ => Raw.nil⟩

theorem append (ha : Spells r a c) (hb : Spells r b d) : Spells r (a ++ b) (c ++ d) :=
  ⟨ha.1.append hb.1, fun hr => (ha.2 hr).append (hb.2 hr)⟩

theorem flatMap {α : Type} {f : α → CStr} {g : α → Content} {xs : List α}
    (h : ∀ x ∈ xs, Spells r (f x) (g x)) : Spells r (xs.flatMap f) (concat (xs.map g)) := by
  induction xs with
  | nil => exact nil
  | cons x xs ih =>
    rw [List.flatMap_cons]
    exact (h x List.mem_cons_self).append (ih fun y hy => h y (List.mem_cons_of_mem _ hy))

theorem of_plain (h : ∀ x ∈ t, plain x = true) : Spells r t (text t) := by
  refine ⟨Reads.of_plain h, fun _ => ?_⟩
  apply Raw.of_notMem
  · intro x hx
    have hp := h x hx
    simp only [plain, Bool.and_eq_true] at hp
    exact hp.1.1.1
  · intro hin
    exact absurd (h 62 hin) (by decide)

theorem element {s : CStr} (ha : StartTag a n attrs s) (hb : Spells r b c) (hz : EndTag z n t) :
    Spells r (a ++ b ++ z) (item ⟨n, attrs, text s ++ c⟩ ++ text t) :=
  ⟨ha.opens.element hb.1 hz.closes, fun hr => (ha.raw.append (hb.2 hr)).append hz.raw⟩

end Spells

end Sfcb.Lib.Markup
