import Sfcb.CimXml.Generate
import Sfcb.Lib.Markup

/-!
# What a client reads of an instance

The text that `instance2xml` writes is well formed, and read it is `instanceContent`: an element
for the instance with one for each property, the values and keys as they are in the broker
(`instance2xml_reads`). That is so for names without markup and values that XML can have, and
as long as an embedded instance has none embedded itself: a section ends at the first `]]>`.
An embedded instance is the text of its value, so reading that text gives it in turn.
-/

namespace Sfcb.CimXml.Generate

open Sfcb.Lib Sfcb.Lib.Markup Sfcb.Lib.Markup.Mixed

/-! ## The elements -/

/-- An element, and the end of its line. -/
def line (name : CStr) (attrs : List (CStr × CStr)) (c : Content) : Content :=
  item ⟨name, attrs, c⟩ ++ text (lit "\n")

/-- An element with others on lines of their own. -/
def block (name : CStr) (attrs : List (CStr × CStr)) (c : Content) : Content :=
  line name attrs (text (lit "\n") ++ c)

def nameSpaceContent (nameSpace : Option CStr) : Content :=
  match present nameSpace with
  | none => text []
  | some ns =>
    block (lit "LOCALNAMESPACEPATH") []
      (concat ((nameSpaces ns).map fun n => line (lit "NAMESPACE") [(lit "NAME", n)] (text [])))

/-- The host of a path. -/
def hostOf (gethostname hostname : Option CStr) : CStr :=
  (present hostname).getD (gethostname.getD (lit "localhost"))

def nsPathContent (gethostname hostname nameSpace : Option CStr) : Content :=
  block (lit "NAMESPACEPATH") []
    (line (lit "HOST") [] (text (hostOf gethostname hostname)) ++ nameSpaceContent nameSpace)

def aroundContent (gethostname hostname nameSpace : Option CStr) (name : Content) : Content :=
  match present nameSpace with
  | none => name
  | some _ =>
    match present hostname with
    | some _ =>
      block (lit "INSTANCEPATH") [] (nsPathContent gethostname hostname nameSpace ++ name)
    | none => block (lit "LOCALINSTANCEPATH") [] (nameSpaceContent nameSpace ++ name)

section

variable (gethostname : Option CStr)

/-- The text that is read of a value, for a char16 the character of that code. -/
def Value.reading : Value → CStr
  | .char16 c => [UInt8.ofNat c.toNat]
  | .string s => s.getD []
  | .inst (some ci) => (instance2xml gethostname ci false).getD []
  | d => d.chars.getD []

mutual

def referenceContent (ci : Option ObjectPath) : Content :=
  match ci with
  | none => block (lit "VALUE.REFERENCE") [] (text [])
  | some ⟨hostname, nameSpace, className, keys⟩ =>
    block (lit "VALUE.REFERENCE") []
      (aroundContent gethostname hostname nameSpace
        (block (lit "INSTANCENAME") [(lit "CLASSNAME", className)] (keysContent keys)))
termination_by sizeOf ci

def keysContent (keys : List (CStr × Value)) : Content :=
  match keys with
  | [] => text []
  | (name, .ref (some path)) :: keys =>
    block (lit "KEYBINDING") [(lit "NAME", name)] (referenceContent (some path)) ++ keysContent keys
  | (name, data) :: keys =>
    block (lit "KEYBINDING") [(lit "NAME", name)]
      (line (lit "KEYVALUE") [(lit "VALUETYPE", (keyType data).getD [])]
        (text (data.reading gethostname))) ++ keysContent keys
termination_by sizeOf keys

end

/-- An element of an array. -/
def elementContent : Option Value → Content
  | none => text []
  | some (.ref path) => referenceContent gethostname path
  | some d => line (lit "VALUE") [] (text (d.reading gethostname))

/-- The value of a property. -/
def dataContent : Value → Content
  | .array type good elms =>
    if good then
      block (if type = .ref then lit "VALUE.REFARRAY" else lit "VALUE.ARRAY") []
        (concat (elms.map (elementContent gethostname)))
    else text []
  | .ref none | .inst none | .null _ => text []
  | .ref (some path) => referenceContent gethostname (some path)
  | d => line (lit "VALUE") [] (text (d.reading gethostname))

/-- What a tag says of the type. -/
def typeAttrs : Value → List (CStr × CStr)
  | .array .ref _ _ => [(lit "TYPE", lit "reference")]
  | .array .inst _ _ => [(lit "TYPE", lit "string"), (lit "EmbeddedObject", lit "object")]
  | .ref _ => []
  | .inst _ => [(lit "EmbeddedObject", lit "object"), (lit "TYPE", lit "string")]
  | d => [(lit "TYPE", dataType d.type)]

def propertyName : Value → CStr
  | .array .. => lit "PROPERTY.ARRAY"
  | .ref _ => lit "PROPERTY.REFERENCE"
  | _ => lit "PROPERTY"

def propertyContent (p : CStr × Bool × Value) : Content :=
  if p.2.1 then text []
  else
    block (propertyName p.2.2) ((lit "NAME", p.1) :: typeAttrs p.2.2)
      (dataContent gethostname p.2.2)

def qualifierContent (name : CStr) : Content :=
  block (lit "QUALIFIER") [(lit "NAME", name), (lit "TYPE", lit "boolean")]
    (line (lit "VALUE") [] (text (lit "TRUE")))

def qualsContent (quals : Quals) : Content :=
  (if quals.abstract then qualifierContent (lit "Abstract") else text []) ++
    (if quals.association then qualifierContent (lit "Association") else text []) ++
    (if quals.indication then qualifierContent (lit "Indication") else text []) ++
    (if quals.key then qualifierContent (lit "Key") else text []) ++
    (if quals.embeddedObject then qualifierContent (lit "EmbeddedObject") else text [])

def instanceContent (ci : Instance) (includeQualifiers : Bool) : Content :=
  match ci with
  | ⟨className, quals, properties⟩ =>
    block (lit "INSTANCE") [(lit "CLASSNAME", className)]
      ((if includeQualifiers then qualsContent quals else text []) ++
        concat (properties.map (propertyContent gethostname)))

end

/-! ## What can be written -/

/-- A value that XML can have. A char16 is printed with `%c`, as its low byte, so it has to be in
the first 128. -/
def Value.Clean : Value → Prop
  | .boolean _ | .uint .. | .sint .. => True
  | .char16 c => c.toNat < 128 ∧ plain c.toUInt8 = true
  | .real32 chars | .real64 chars => ∀ x ∈ chars, plain x = true
  | .string s =>
    (∀ x ∈ s.getD [], textual x = true) ∧ ¬ lit "<![CDATA[" <:+: s.getD [] ∧
      (s.getD []).length * 6 + 1 < 2 ^ 31
  | .dateTime chars => ∀ x ∈ chars.getD [], plain x = true
  | .null _ | .ref _ | .inst _ | .array .. => False

mutual

/-- A path with names that can stand in attributes. -/
inductive ProperPath : ObjectPath → Prop where
  | mk {hostname nameSpace : Option CStr} {className : CStr} {keys : List (CStr × Value)}
    (hhost : ∀ h ∈ present hostname, ∀ x ∈ h, plain x = true)
    (hspace : ∀ ns ∈ present nameSpace, ∀ x ∈ ns, quoted x = true)
    (hclass : ∀ x ∈ className, quoted x = true)
    (hnames : ∀ k ∈ keys, ∀ x ∈ k.1, quoted x = true)
    (hvalues : ∀ k ∈ keys, ProperKey k.2) : ProperPath ⟨hostname, nameSpace, className, keys⟩

inductive ProperKey : Value → Prop where
  | ref {path : ObjectPath} (h : ProperPath path) : ProperKey (.ref (some path))
  | value {d : Value} (hclean : d.Clean) (hkey : (keyType d).isSome) : ProperKey d

end

/-- An element of an array. `P` is for embedded instances. -/
def ElementProper (P : Instance → Prop) : Value → Prop
  | .ref path => ∀ p ∈ path, ProperPath p
  | .inst (some ci) => P ci
  | d => d.Clean

/-- The data of a property. -/
def DataProper (P : Instance → Prop) : Value → Prop
  | .array _ good elms => good = true → ∀ d, some d ∈ elms → ElementProper P d
  | .ref path => ∀ p ∈ path, ProperPath p
  | .inst inst => ∀ ci ∈ inst, P ci
  | .null _ => True
  | d => d.Clean

def InstanceProper (P : Instance → Prop) : Instance → Prop
  | ⟨className, _, properties⟩ =>
    (∀ x ∈ className, quoted x = true) ∧
      ∀ p ∈ properties, p.2.1 = false → (∀ x ∈ p.1, quoted x = true) ∧ DataProper P p.2.2

/-- An instance with nothing embedded. -/
abbrev PlainInstance (ci : Instance) : Prop := InstanceProper (fun _ => False) ci

/-! ## Tags -/

section Tags

variable {r : Prop} {a b z n attr v : CStr} {c : Content} {attrs : List (CStr × CStr)}

theorem spells_line (ha : StartTag a n attrs []) (hb : Spells r b c) (hz : EndTag z n (lit "\n")) :
    Spells r (a ++ b ++ z) (line n attrs c) := by
  have h := Spells.element ha hb hz
  rw [empty_append] at h
  exact h

theorem spells_block (ha : StartTag a n attrs (lit "\n")) (hb : Spells r b c)
    (hz : EndTag z n (lit "\n")) : Spells r (a ++ b ++ z) (block n attrs c) :=
  Spells.element ha hb hz

/-- A tag without attributes, behind which there may be the end of the line. -/
theorem startTag_bare {t : CStr} (h : Opens a n [] t) (hraw : bracketless a = true) :
    StartTag a n [] t := ⟨h, .of_bracketless hraw⟩

theorem endTag_of (h : Closes a n (lit "\n")) (hraw : bracketless a = true) :
    EndTag a n (lit "\n") := ⟨h, .of_bracketless hraw⟩

theorem toValue_of (h : Leads a (.value n [] attr [])) (hraw : bracketless a = true) :
    ToValue a n [] attr [] := ⟨h, .of_bracketless hraw⟩

/-- A tag with one attribute. -/
theorem startTag_named {t : CStr} (h : ToValue a n [] attr []) (hv : ∀ x ∈ v, quoted x = true)
    (hz : ∀ stack before, Reader.run ⟨stack, before, .value n [] attr v⟩ z =
      some ⟨⟨n, [(attr, v)], before⟩ :: stack, text t, .content⟩) (hraw : bracketless z = true) :
    StartTag (a ++ v ++ z) n [(attr, v)] t :=
  (h.value hv).startTag hz hraw

end Tags

/-! ## Texts -/

section Texts

variable {r : Prop} {s : CStr} {d : Value}

theorem plain_of_isDigit {x : UInt8} (h : isDigit x = true) : plain x = true := by
  simp only [isDigit, Bool.and_eq_true, decide_eq_true_eq] at h
  have hlow : 48 ≤ x.toNat := h.1
  have hhigh : x.toNat ≤ 57 := h.2
  have hne : ∀ y : UInt8, y.toNat < 48 ∨ 57 < y.toNat → x ≠ y := by
    intro y hy heq
    rw [heq] at hlow hhigh
    omega
  have htext : (32 : UInt8) ≤ x := Nat.le_trans (by decide) hlow
  simp [plain, textual, htext, hne 60 (by decide), hne 62 (by decide), hne 38 (by decide)]

theorem plain_printInt (n : Int) : ∀ x ∈ printInt n, plain x = true := by
  intro x hx
  unfold printInt at hx
  split at hx
  · obtain rfl | hx := List.mem_cons.mp hx
    · decide
    · exact plain_of_isDigit (isDigit_of_mem_numeral hx)
  · exact plain_of_isDigit (isDigit_of_mem_numeral hx)

/-- A byte that has been escaped is read as what it was. -/
theorem spells_escaped {x : UInt8} (hx : textual x = true) : Spells r (escaped x) (text [x]) := by
  have hreference : ∀ {n : CStr} {y : UInt8}, entity n = some y → 59 ∉ n →
      bracketless (38 :: (n ++ [59])) = true → Spells r (38 :: (n ++ [59])) (text [y]) :=
    fun h hsemi hraw => ⟨Reads.reference h hsemi, fun _ => Raw.of_bracketless hraw⟩
  unfold escaped
  split
  · next h =>
      subst h
      exact hreference (n := lit "gt") rfl (by decide) (by decide)
  · split
    · next h =>
        subst h
        exact hreference (n := lit "lt") rfl (by decide) (by decide)
    · split
      · next h =>
          subst h
          exact hreference (n := lit "amp") rfl (by decide) (by decide)
      · split
        · next h =>
            subst h
            exact hreference (n := lit "quot") rfl (by decide) (by decide)
        · split
          · next h =>
              subst h
              exact hreference (n := lit "apos") rfl (by decide) (by decide)
          · next hgt hlt hamp _ _ =>
              apply Spells.of_plain
              intro y hy
              rw [List.mem_singleton] at hy
              simp [plain, hy, hx, hgt, hlt, hamp]

theorem concat_map_text (s : CStr) : (concat (s.map fun x => text [x]) : Content) = text s := by
  induction s with
  | nil => rfl
  | cons x s ih =>
    rw [List.map_cons, concat, ih, text_append_text]
    rfl

/-- So is a string. -/
theorem spells_escape (hs : ∀ x ∈ s, textual x = true) (hmark : ¬ lit "<![CDATA[" <:+: s)
    (hlength : s.length * 6 + 1 < 2 ^ 31) : ∃ b, XMLEscape s = some b ∧ Spells r b (text s) := by
  refine ⟨s.flatMap escaped, ?_, ?_⟩
  · rw [XMLEscape, if_pos hlength, escapeLoop_eq hmark]
  · rw [← concat_map_text]
    exact Spells.flatMap fun x hx => spells_escaped (hs x hx)

theorem spells_value (gethostname : Option CStr) (h : d.Clean) :
    ∃ b, d.chars = some b ∧ Spells r b (text (d.reading gethostname)) := by
  cases d with
  | boolean b =>
    refine ⟨_, rfl, Spells.of_plain (List.all_eq_true.mp ?_)⟩
    cases b <;> rfl
  | char16 c =>
    refine ⟨_, rfl, Spells.of_plain ?_⟩
    intro x hx
    rw [List.mem_singleton.mp hx]
    exact h.2
  | uint width n => exact ⟨_, rfl, Spells.of_plain (plain_printInt n)⟩
  | sint width n => exact ⟨_, rfl, Spells.of_plain (plain_printInt n)⟩
  | real32 chars => exact ⟨_, rfl, Spells.of_plain h⟩
  | real64 chars => exact ⟨_, rfl, Spells.of_plain h⟩
  | string s =>
    cases s with
    | none => exact ⟨[], rfl, Spells.nil⟩
    | some s =>
      obtain ⟨htext, hmark, hlength⟩ := h
      exact spells_escape htext hmark hlength
  | dateTime chars => exact ⟨_, rfl, Spells.of_plain h⟩
  | null type => exact h.elim
  | ref path => exact h.elim
  | inst inst => exact h.elim
  | array type good elms => exact h.elim

theorem value2xml_of_clean (gethostname : Option CStr) (h : d.Clean) (wv : Bool) :
    value2xml gethostname d wv = d.chars.map (inValue wv) := by
  cases d with
  | null type => exact h.elim
  | ref path => exact h.elim
  | inst inst => exact h.elim
  | array type good elms => exact h.elim
  | _ => rw [value2xml] <;> simp

end Texts

/-! ## Paths -/

section Paths

variable {r : Prop} {gethostname hostname nameSpace : Option CStr} {b : CStr} {c : Content}

theorem mem_of_mem_nameSpaces {ns n : CStr} {x : UInt8} (hn : n ∈ nameSpaces ns) (hx : x ∈ n) :
    x ∈ ns := by
  induction ns generalizing n with
  | nil =>
    rw [nameSpaces, List.mem_singleton] at hn
    rw [hn] at hx
    exact hx
  | cons y ns ih =>
    rw [nameSpaces] at hn
    split at hn
    · obtain rfl | hn := List.mem_cons.mp hn
      · cases hx
      · exact List.mem_cons_of_mem _ (ih hn hx)
    · split at hn
      · rw [List.mem_singleton] at hn
        rw [hn, List.mem_singleton] at hx
        exact hx ▸ List.mem_cons_self
      · next m rest heq =>
          obtain rfl | hn := List.mem_cons.mp hn
          · obtain rfl | hx := List.mem_cons.mp hx
            · exact List.mem_cons_self
            · exact List.mem_cons_of_mem _ (ih (heq ▸ List.mem_cons_self) hx)
          · exact List.mem_cons_of_mem _ (ih (heq ▸ List.mem_cons_of_mem _ hn) hx)

theorem spells_nameSpace (h : ∀ ns ∈ present nameSpace, ∀ x ∈ ns, quoted x = true) :
    Spells r (lnsPath2xml nameSpace) (nameSpaceContent nameSpace) := by
  unfold lnsPath2xml nameSpaceContent
  cases hns : present nameSpace with
  | none => exact Spells.nil
  | some ns =>
    have hopen : StartTag (lit "<LOCALNAMESPACEPATH>\n") (lit "LOCALNAMESPACEPATH") [] (lit "\n") :=
      startTag_bare (fun _ _ => rfl) (by decide)
    have hclose : EndTag (lit "</LOCALNAMESPACEPATH>\n") (lit "LOCALNAMESPACEPATH") (lit "\n") :=
      endTag_of (fun _ _ _ _ => rfl) (by decide)
    apply spells_block hopen _ hclose
    apply Spells.flatMap
    intro n hn
    have hto : ToValue (lit "<NAMESPACE NAME=\"") (lit "NAMESPACE") [] (lit "NAME") [] :=
      toValue_of (fun _ _ => rfl) (by decide)
    have hvalue := hto.value fun x hx => h ns (hns ▸ rfl) x (mem_of_mem_nameSpaces hn hx)
    have hraw : Raw (lit "\"/>\n") := .of_bracketless (by decide)
    exact ⟨hvalue.leads.reads fun _ _ => rfl, fun _ => hvalue.raw.append hraw⟩

theorem spells_nsPath (hhost : ∀ x ∈ hostOf gethostname hostname, plain x = true)
    (h : ∀ ns ∈ present nameSpace, ∀ x ∈ ns, quoted x = true) :
    Spells r (nsPath2xml gethostname hostname nameSpace)
      (nsPathContent gethostname hostname nameSpace) := by
  have hopen : StartTag (lit "<NAMESPACEPATH>\n") (lit "NAMESPACEPATH") [] (lit "\n") :=
    startTag_bare (fun _ _ => rfl) (by decide)
  have hclose : EndTag (lit "</NAMESPACEPATH>\n") (lit "NAMESPACEPATH") (lit "\n") :=
    endTag_of (fun _ _ _ _ => rfl) (by decide)
  have hbegin : StartTag (lit "<HOST>") (lit "HOST") [] [] :=
    startTag_bare (fun _ _ => rfl) (by decide)
  have hend : EndTag (lit "</HOST>\n") (lit "HOST") (lit "\n") :=
    endTag_of (fun _ _ _ _ => rfl) (by decide)
  have hline := spells_line hbegin (Spells.of_plain (r := r) hhost) hend
  have hall := spells_block hopen (hline.append (spells_nameSpace h)) hclose
  simpa only [nsPath2xml, nsPathContent, hostOf, List.append_assoc] using hall

theorem spells_around (hhost : ∀ h ∈ present hostname, ∀ x ∈ h, plain x = true)
    (hspace : ∀ ns ∈ present nameSpace, ∀ x ∈ ns, quoted x = true) (hb : Spells r b c) :
    Spells r (around gethostname hostname nameSpace b)
      (aroundContent gethostname hostname nameSpace c) := by
  unfold around aroundContent
  cases hns : present nameSpace with
  | none => exact hb
  | some ns =>
    cases hh : present hostname with
    | none =>
      have hopen : StartTag (lit "<LOCALINSTANCEPATH>\n") (lit "LOCALINSTANCEPATH") [] (lit "\n") :=
        startTag_bare (fun _ _ => rfl) (by decide)
      have hclose : EndTag (lit "</LOCALINSTANCEPATH>\n") (lit "LOCALINSTANCEPATH") (lit "\n") :=
        endTag_of (fun _ _ _ _ => rfl) (by decide)
      have hall := spells_block hopen ((spells_nameSpace hspace).append hb) hclose
      simpa only [List.append_assoc] using hall
    | some host =>
      have hopen : StartTag (lit "<INSTANCEPATH>\n") (lit "INSTANCEPATH") [] (lit "\n") :=
        startTag_bare (fun _ _ => rfl) (by decide)
      have hclose : EndTag (lit "</INSTANCEPATH>\n") (lit "INSTANCEPATH") (lit "\n") :=
        endTag_of (fun _ _ _ _ => rfl) (by decide)
      have hplain : ∀ x ∈ hostOf gethostname hostname, plain x = true := by
        rw [hostOf, hh]
        exact hhost host hh
      have hall := spells_block hopen ((spells_nsPath hplain hspace).append hb) hclose
      simpa only [List.append_assoc] using hall

end Paths

/-! ## References -/

section References

variable {r : Prop} {d : Value} (gethostname : Option CStr)

theorem startTag_value : StartTag (lit "<VALUE>") (lit "VALUE") [] [] :=
  startTag_bare (fun _ _ => rfl) (by decide)

theorem endTag_value : EndTag (lit "</VALUE>\n") (lit "VALUE") (lit "\n") :=
  endTag_of (fun _ _ _ _ => rfl) (by decide)

/-- A value between its tags. -/
theorem spells_inValue (h : d.Clean) : ∃ b, value2xml gethostname d true = some b ∧
    Spells r b (line (lit "VALUE") [] (text (d.reading gethostname))) := by
  obtain ⟨b, hchars, hb⟩ := spells_value (r := r) gethostname h
  refine ⟨inValue true b, ?_, spells_line startTag_value hb endTag_value⟩
  rw [value2xml_of_clean gethostname h, hchars, Option.map_some]

theorem quoted_keyType {t : CStr} (h : keyType d = some t) : ∀ x ∈ t, quoted x = true := by
  unfold keyType at h
  split at h
  · cases h
  · split at h
    all_goals
      cases h
      try exact List.all_eq_true.mp rfl

/-- One key. -/
theorem spells_key {name b : CStr} {c : Content} (hname : ∀ x ∈ name, quoted x = true)
    (hb : Spells r b c) :
    Spells r (lit "<KEYBINDING NAME=\"" ++ name ++ lit "\">\n" ++ b ++ lit "</KEYBINDING>\n")
      (block (lit "KEYBINDING") [(lit "NAME", name)] c) := by
  have hto : ToValue (lit "<KEYBINDING NAME=\"") (lit "KEYBINDING") [] (lit "NAME") [] :=
    toValue_of (fun _ _ => rfl) (by decide)
  have hclose : EndTag (lit "</KEYBINDING>\n") (lit "KEYBINDING") (lit "\n") :=
    endTag_of (fun _ _ _ _ => rfl) (by decide)
  exact spells_block (startTag_named hto hname (fun _ _ => rfl) (by decide)) hb hclose

mutual

/-- A reference is read as its path. -/
theorem refValue2xml_spells (ci : Option ObjectPath) (h : ∀ p ∈ ci, ProperPath p) :
    ∃ b, refValue2xml gethostname ci = some b ∧ Spells r b (referenceContent gethostname ci) := by
  have hopen : StartTag (lit "<VALUE.REFERENCE>\n") (lit "VALUE.REFERENCE") [] (lit "\n") :=
    startTag_bare (fun _ _ => rfl) (by decide)
  have hclose : EndTag (lit "</VALUE.REFERENCE>\n") (lit "VALUE.REFERENCE") (lit "\n") :=
    endTag_of (fun _ _ _ _ => rfl) (by decide)
  match ci, h with
  | none, _ =>
    rw [refValue2xml, referenceContent]
    refine ⟨_, rfl, ?_⟩
    have hall := spells_block hopen (Spells.nil (r := r)) hclose
    rwa [List.append_nil] at hall
  | some ⟨hostname, nameSpace, className, keys⟩, h =>
    cases h _ rfl with
    | mk hhost hspace hclass hnames hvalues =>
      obtain ⟨b, hkeys, hb⟩ := keyBinding2xml_spells keys hnames hvalues
      have hto : ToValue (lit "<INSTANCENAME CLASSNAME=\"") (lit "INSTANCENAME") []
          (lit "CLASSNAME") [] := toValue_of (fun _ _ => rfl) (by decide)
      have hend : EndTag (lit "</INSTANCENAME>\n") (lit "INSTANCENAME") (lit "\n") :=
        endTag_of (fun _ _ _ _ => rfl) (by decide)
      have hbegin : StartTag (lit "<INSTANCENAME CLASSNAME=\"" ++ className ++ lit "\">\n")
          (lit "INSTANCENAME") [(lit "CLASSNAME", className)] (lit "\n") :=
        startTag_named hto hclass (fun _ _ => rfl) (by decide)
      have hname := spells_block hbegin hb hend
      rw [refValue2xml, referenceContent, hkeys]
      exact ⟨_, rfl, spells_block hopen (spells_around hhost hspace hname) hclose⟩
termination_by sizeOf ci

/-- So are the keys of a path. -/
theorem keyBinding2xml_spells (keys : List (CStr × Value))
    (hnames : ∀ k ∈ keys, ∀ x ∈ k.1, quoted x = true) (hvalues : ∀ k ∈ keys, ProperKey k.2) :
    ∃ b, keyBinding2xml gethostname keys = some b ∧ Spells r b (keysContent gethostname keys) := by
  match keys, hnames, hvalues with
  | [], _, _ =>
    rw [keyBinding2xml, keysContent]
    exact ⟨[], rfl, Spells.nil⟩
  | (name, data) :: keys, hnames, hvalues =>
    obtain ⟨rest, hrest, hspells⟩ := keyBinding2xml_spells keys
      (fun k hk => hnames k (List.mem_cons_of_mem _ hk))
      (fun k hk => hvalues k (List.mem_cons_of_mem _ hk))
    have hname := hnames _ List.mem_cons_self
    match data, hvalues _ List.mem_cons_self with
    | .ref (some path), .ref hpath =>
      obtain ⟨b, href, hb⟩ := refValue2xml_spells (some path) (fun p hp => by cases hp; exact hpath)
      rw [keyBinding2xml, keysContent, href, hrest]
      exact ⟨_, rfl, (spells_key hname hb).append hspells⟩
    | data, .value hclean hkey =>
      obtain ⟨type, htype⟩ := Option.isSome_iff_exists.mp hkey
      obtain ⟨b, hchars, hb⟩ := spells_value (r := r) gethostname hclean
      have hto : ToValue (lit "<KEYVALUE VALUETYPE=\"") (lit "KEYVALUE") [] (lit "VALUETYPE") [] :=
        toValue_of (fun _ _ => rfl) (by decide)
      have hend : EndTag (lit "</KEYVALUE>\n") (lit "KEYVALUE") (lit "\n") :=
        endTag_of (fun _ _ _ _ => rfl) (by decide)
      have hbegin : StartTag (lit "<KEYVALUE VALUETYPE=\"" ++ type ++ lit "\">")
          (lit "KEYVALUE") [(lit "VALUETYPE", type)] [] :=
        startTag_named hto (quoted_keyType htype) (fun _ _ => rfl) (by decide)
      have hline := spells_line hbegin hb hend
      have hnot : ∀ path, data = .ref (some path) → False := by
        intro path heq
        rw [heq] at hclean
        exact hclean
      rw [keyBinding2xml, keysContent, htype, value2xml_of_clean gethostname hclean, hchars, hrest]
      · exact ⟨_, rfl, (spells_key hname hline).append hspells⟩
      · exact hnot
      · exact hnot
termination_by sizeOf keys

end

end References

/-! ## Properties -/

section Properties

variable {r : Prop} {P : Instance → Prop} {gethostname : Option CStr} {a n name t : CStr}

/-- A tag with a name and a type. -/
theorem startTag_typed (hto : ToValue a n [] (lit "NAME") []) (hname : ∀ x ∈ name, quoted x = true)
    (ht : ∀ x ∈ t, quoted x = true) :
    StartTag (a ++ name ++ lit "\" TYPE=\"" ++ t ++ lit "\">\n") n
      [(lit "NAME", name), (lit "TYPE", t)] (lit "\n") := by
  have htype : ToValue (a ++ name ++ lit "\" TYPE=\"") n [(lit "NAME", name)] (lit "TYPE") [] :=
    (hto.value hname).next (fun _ _ => rfl) (by decide)
  exact (htype.value ht).startTag (fun _ _ => rfl) (by decide)

theorem quoted_dataType (type : CMPIType) : ∀ x ∈ dataType type, quoted x = true := by
  apply List.all_eq_true.mp
  cases type with
  | simple type =>
    cases type with
    | uint width => cases width <;> rfl
    | sint width => cases width <;> rfl
    | _ => rfl
  | _ => rfl

theorem toValue_property (data : Value) :
    ToValue (propertyTags data).1 (propertyName data) [] (lit "NAME") [] := by
  cases data <;> exact toValue_of (fun _ _ => rfl) rfl

theorem endTag_property (data : Value) :
    EndTag (propertyTags data).2 (propertyName data) (lit "\n") := by
  cases data <;> exact endTag_of (fun _ _ _ _ => rfl) rfl

/-- The tag of an array. Of instances it has one more attribute. -/
theorem startTag_array (hto : ToValue a n [] (lit "NAME") []) (hname : ∀ x ∈ name, quoted x = true)
    (type : CMPIType) (good : Bool) (elms : List (Option Value)) :
    StartTag (a ++ name ++ typeAttr false ++ arrayType type ++ lit "\">\n") n
      ((lit "NAME", name) :: typeAttrs (.array type good elms)) (lit "\n") := by
  cases type with
  | simple type => exact startTag_typed hto hname (quoted_dataType (.simple type))
  | ref => exact startTag_typed hto hname (List.all_eq_true.mp rfl)
  | inst =>
    have htype : ToValue (a ++ name ++ lit "\" TYPE=\"") n [(lit "NAME", name)] (lit "TYPE") [] :=
      (hto.value hname).next (fun _ _ => rfl) (by decide)
    have hobject : ToValue
        (a ++ name ++ lit "\" TYPE=\"" ++ lit "string\" EmbeddedObject=\"object") n
        [(lit "NAME", name), (lit "TYPE", lit "string")] (lit "EmbeddedObject") (lit "object") :=
      htype.next (fun _ _ => rfl) (by decide)
    exact hobject.startTag (fun _ _ => rfl) (by decide)

/-- The tag of an embedded instance. -/
theorem startTag_object (hto : ToValue a n [] (lit "NAME") [])
    (hname : ∀ x ∈ name, quoted x = true) :
    StartTag
      (a ++ name ++ lit "\" EmbeddedObject=\"object" ++ typeAttr false ++ lit "string\">\n") n
      [(lit "NAME", name), (lit "EmbeddedObject", lit "object"), (lit "TYPE", lit "string")]
      (lit "\n") := by
  have hobject : ToValue (a ++ name ++ lit "\" EmbeddedObject=\"object") n [(lit "NAME", name)]
      (lit "EmbeddedObject") (lit "object") :=
    (hto.value hname).next (fun _ _ => rfl) (by decide)
  have htype : ToValue (a ++ name ++ lit "\" EmbeddedObject=\"object" ++ typeAttr false) n
      [(lit "NAME", name), (lit "EmbeddedObject", lit "object")] (lit "TYPE") [] :=
    hobject.next (fun _ _ => rfl) (by decide)
  exact htype.startTag (fun _ _ => rfl) (by decide)

/-- A section with the text of an instance: there can be none around it in turn. -/
theorem spells_cdata {ci : Instance}
    (hP : ∀ ci, P ci → ∃ b, instance2xml gethostname ci false = some b ∧ Raw b) (h : P ci) :
    ∃ b, instance2xml gethostname ci false = some b ∧
      Spells (∀ ci, ¬ P ci)
        (lit "<VALUE>" ++ (lit "<![CDATA[" ++ b ++ lit "]]>") ++ lit "</VALUE>\n")
        (line (lit "VALUE") [] (text (Value.reading gethostname (.inst (some ci))))) := by
  obtain ⟨b, hb, hraw⟩ := hP ci h
  have hcdata : Spells (∀ ci, ¬ P ci) (lit "<![CDATA[" ++ b ++ lit "]]>") (text b) :=
    ⟨Reads.cdata hraw, fun hr => absurd h (hr ci)⟩
  refine ⟨b, hb, ?_⟩
  rw [Value.reading, hb]
  exact spells_line startTag_value hcdata endTag_value

/-- One element of an array. -/
theorem element_spells {d : Value}
    (hP : ∀ ci, P ci → ∃ b, instance2xml gethostname ci false = some b ∧ Raw b)
    (h : ElementProper P d) :
    ∃ b, (∀ elms, elements2xml gethostname (some d :: elms) =
        (elements2xml gethostname elms).map fun rest => b ++ rest) ∧
      Spells (∀ ci, ¬ P ci) b (elementContent gethostname (some d)) := by
  cases d with
  | ref path =>
    obtain ⟨b, hb, hspells⟩ := refValue2xml_spells gethostname path h
    refine ⟨b, fun elms => ?_, hspells⟩
    rw [elements2xml, hb, Option.bind_some]
  | inst inst =>
    cases inst with
    | none => exact h.elim
    | some ci =>
      obtain ⟨b, hb, hspells⟩ := spells_cdata hP h
      refine ⟨_, fun elms => ?_, hspells⟩
      rw [elements2xml, value2xml, hb]
      · rfl
      · simp
  | _ =>
    simp only [ElementProper] at h
    obtain ⟨b, hb, hspells⟩ := spells_inValue (r := ∀ ci, ¬ P ci) gethostname h
    refine ⟨b, fun elms => ?_, hspells⟩
    rw [elements2xml, hb, Option.bind_some]
    simp

theorem elements2xml_spells {elms : List (Option Value)}
    (hP : ∀ ci, P ci → ∃ b, instance2xml gethostname ci false = some b ∧ Raw b)
    (h : ∀ d, some d ∈ elms → ElementProper P d) :
    ∃ b, elements2xml gethostname elms = some b ∧
      Spells (∀ ci, ¬ P ci) b (concat (elms.map (elementContent gethostname))) := by
  induction elms with
  | nil =>
    rw [elements2xml]
    exact ⟨[], rfl, Spells.nil⟩
  | cons d elms ih =>
    obtain ⟨rest, hrest, hspells⟩ := ih fun d hd => h d (List.mem_cons_of_mem _ hd)
    cases d with
    | none =>
      rw [elements2xml]
      refine ⟨rest, hrest, ?_⟩
      rw [List.map_cons, concat, elementContent, empty_append]
      exact hspells
    | some d =>
      obtain ⟨b, helements, hb⟩ := element_spells hP (h d List.mem_cons_self)
      rw [helements, hrest]
      exact ⟨_, rfl, hb.append hspells⟩

/-- The data of a property. -/
theorem data2xml_spells {data : Value}
    (hP : ∀ ci, P ci → ∃ b, instance2xml gethostname ci false = some b ∧ Raw b)
    (hname : ∀ x ∈ name, quoted x = true) (h : DataProper P data) :
    ∃ b, data2xml gethostname data name (propertyTags data) false = some b ∧
      Spells (∀ ci, ¬ P ci) b (propertyContent gethostname (name, false, data)) := by
  have hto := toValue_property data
  have hend := endTag_property data
  cases data with
  | array type good elms =>
    have hstart := startTag_array hto hname type good elms
    rw [data2xml]
    cases good with
    | false => exact ⟨_, rfl, spells_block hstart Spells.nil hend⟩
    | true =>
      obtain ⟨b, hb, hspells⟩ := elements2xml_spells hP (h rfl)
      have hopen : StartTag (arrayTags type).1
          (if type = .ref then lit "VALUE.REFARRAY" else lit "VALUE.ARRAY") [] (lit "\n") := by
        cases type <;> exact startTag_bare (fun _ _ => rfl) rfl
      have hclose : EndTag (arrayTags type).2
          (if type = .ref then lit "VALUE.REFARRAY" else lit "VALUE.ARRAY") (lit "\n") := by
        cases type <;> exact endTag_of (fun _ _ _ _ => rfl) rfl
      rw [hb]
      exact ⟨_, rfl, spells_block hstart (spells_block hopen hspells hclose) hend⟩
  | ref path =>
    have hstart : StartTag (lit "<PROPERTY.REFERENCE NAME=\"" ++ name ++ [] ++ lit "\">\n")
        (lit "PROPERTY.REFERENCE") [(lit "NAME", name)] (lit "\n") := by
      rw [List.append_nil]
      exact startTag_named hto hname (fun _ _ => rfl) (by decide)
    cases path with
    | none =>
      have hall := spells_block hstart (Spells.nil (r := ∀ ci, ¬ P ci)) hend
      rw [List.append_nil] at hall
      rw [data2xml]
      exact ⟨_, rfl, hall⟩
    | some path =>
      obtain ⟨b, hb, hspells⟩ := refValue2xml_spells gethostname (some path) h
      rw [data2xml, hb]
      exact ⟨_, rfl, spells_block hstart hspells hend⟩
  | inst inst =>
    have hstart := startTag_object hto hname
    cases inst with
    | none =>
      have hall := spells_block hstart (Spells.nil (r := ∀ ci, ¬ P ci)) hend
      rw [List.append_nil] at hall
      rw [data2xml]
      exact ⟨_, rfl, hall⟩
    | some ci =>
      obtain ⟨b, hb, hspells⟩ := spells_cdata hP (h ci rfl)
      rw [data2xml, hb]
      exact ⟨_, rfl, spells_block hstart hspells hend⟩
  | null type =>
    have hall := spells_block (startTag_typed hto hname (quoted_dataType (.simple type)))
      (Spells.nil (r := ∀ ci, ¬ P ci)) hend
    rw [List.append_nil] at hall
    rw [data2xml]
    exact ⟨_, rfl, hall⟩
  | _ =>
    simp only [DataProper] at h
    obtain ⟨b, hb, hspells⟩ := spells_inValue (r := ∀ ci, ¬ P ci) gethostname h
    rw [data2xml, hb]
    · exact ⟨_, rfl, spells_block (startTag_typed hto hname (quoted_dataType _)) hspells hend⟩
    all_goals simp

theorem properties2xml_spells {ps : List (CStr × Bool × Value)}
    (hP : ∀ ci, P ci → ∃ b, instance2xml gethostname ci false = some b ∧ Raw b)
    (h : ∀ p ∈ ps, p.2.1 = false → (∀ x ∈ p.1, quoted x = true) ∧ DataProper P p.2.2) :
    ∃ b, properties2xml gethostname ps = some b ∧
      Spells (∀ ci, ¬ P ci) b (concat (ps.map (propertyContent gethostname))) := by
  induction ps with
  | nil =>
    rw [properties2xml]
    exact ⟨[], rfl, Spells.nil⟩
  | cons p ps ih =>
    obtain ⟨rest, hrest, hspells⟩ := ih fun p hp => h p (List.mem_cons_of_mem _ hp)
    obtain ⟨name, filtered, data⟩ := p
    cases filtered with
    | true =>
      rw [properties2xml]
      refine ⟨rest, hrest, ?_⟩
      rw [List.map_cons, concat, propertyContent, if_pos rfl, empty_append]
      exact hspells
    | false =>
      obtain ⟨hname, hdata⟩ := h _ List.mem_cons_self rfl
      obtain ⟨b, hb, hproperty⟩ := data2xml_spells hP hname hdata
      rw [properties2xml, hb, hrest]
      exact ⟨_, rfl, hproperty.append hspells⟩

end Properties

/-! ## Instances -/

section Instances

variable {r : Prop} {P : Instance → Prop} {gethostname : Option CStr}

theorem spells_qualifier {name : CStr} (hname : ∀ x ∈ name, quoted x = true) :
    Spells r (boolQualifier name) (qualifierContent name) := by
  have hto : ToValue (lit "<QUALIFIER NAME=\"") (lit "QUALIFIER") [] (lit "NAME") [] :=
    toValue_of (fun _ _ => rfl) (by decide)
  have hopen : StartTag (lit "<QUALIFIER NAME=\"" ++ name ++ lit "\" TYPE=\"boolean\">\n")
      (lit "QUALIFIER") [(lit "NAME", name), (lit "TYPE", lit "boolean")] (lit "\n") :=
    (hto.value hname).startTag (fun _ _ => rfl) (by decide)
  have hclose : EndTag (lit "</QUALIFIER>\n") (lit "QUALIFIER") (lit "\n") :=
    endTag_of (fun _ _ _ _ => rfl) (by decide)
  have htrue : Spells r (lit "TRUE") (text (lit "TRUE")) :=
    Spells.of_plain (List.all_eq_true.mp rfl)
  have hvalue := spells_line startTag_value htrue endTag_value
  have heq : lit "<VALUE>" ++ lit "TRUE" ++ lit "</VALUE>\n" = lit "<VALUE>TRUE</VALUE>\n" := by
    decide
  rw [heq] at hvalue
  exact spells_block hopen hvalue hclose

/-- A part that is only there sometimes. -/
theorem spells_ite {b : CStr} {c : Content} (flag : Bool) (h : Spells r b c) :
    Spells r (if flag then b else []) (if flag then c else text []) := by
  cases flag with
  | false => exact Spells.nil
  | true => exact h

theorem spells_quals (quals : Quals) : Spells r (quals2xml quals) (qualsContent quals) := by
  have h : ∀ {name : CStr} (flag : Bool), name.all quoted = true →
      Spells r (if flag then boolQualifier name else [])
        (if flag then qualifierContent name else text []) :=
    fun flag hname => spells_ite flag (spells_qualifier (List.all_eq_true.mp hname))
  exact ((((h _ rfl).append (h _ rfl)).append (h _ rfl)).append (h _ rfl)).append (h _ rfl)

theorem instance2xml_spells {ci : Instance}
    (hP : ∀ ci, P ci → ∃ b, instance2xml gethostname ci false = some b ∧ Raw b)
    (h : InstanceProper P ci) (includeQualifiers : Bool) :
    ∃ b, instance2xml gethostname ci includeQualifiers = some b ∧
      Spells (∀ ci, ¬ P ci) b (instanceContent gethostname ci includeQualifiers) := by
  obtain ⟨className, quals, properties⟩ := ci
  obtain ⟨hclass, hproperties⟩ := h
  obtain ⟨b, hb, hspells⟩ := properties2xml_spells hP hproperties
  have hto : ToValue (lit "<INSTANCE CLASSNAME=\"") (lit "INSTANCE") [] (lit "CLASSNAME") [] :=
    toValue_of (fun _ _ => rfl) (by decide)
  have hopen : StartTag (lit "<INSTANCE CLASSNAME=\"" ++ className ++ lit "\">\n") (lit "INSTANCE")
      [(lit "CLASSNAME", className)] (lit "\n") :=
    startTag_named hto hclass (fun _ _ => rfl) (by decide)
  have hclose : EndTag (lit "</INSTANCE>\n") (lit "INSTANCE") (lit "\n") :=
    endTag_of (fun _ _ _ _ => rfl) (by decide)
  have hbody := (spells_ite includeQualifiers (spells_quals quals)).append hspells
  rw [instance2xml, hb]
  exact ⟨_, rfl, spells_block hopen hbody hclose⟩

variable (gethostname) in
/-- The text of an instance that embeds nothing can be put into a section. -/
theorem plain_spells {ci : Instance} (h : PlainInstance ci) (includeQualifiers : Bool) :
    ∃ b, instance2xml gethostname ci includeQualifiers = some b ∧
      Spells True b (instanceContent gethostname ci includeQualifiers) := by
  have hP : ∀ ci : Instance, False → ∃ b, instance2xml gethostname ci false = some b ∧ Raw b :=
    fun _ hfalse => hfalse.elim
  obtain ⟨b, hb, hreads, hraw⟩ := instance2xml_spells hP h includeQualifiers
  exact ⟨b, hb, hreads, fun _ => hraw fun _ hfalse => hfalse⟩

/-- A drive with a key that is escaped, a reference with two name spaces, an array with a null in
it, and a part that is embedded. -/
def drive : Instance :=
  ⟨lit "Drive", ⟨false, false, false, true, false⟩,
    [(lit "Name", false, .string (some (lit "a<b & c"))), (lit "Hidden", true, .string none),
      (lit "Size", false, .uint .b64 512),
      (lit "System", false, .ref (some ⟨some (lit "box"), some (lit "root/cimv2"), lit "System",
        [(lit "Id", .sint .b16 (-7)), (lit "Up", .ref (some ⟨none, none, lit "Site", []⟩))]⟩)),
      (lit "Labels", false, .array (.simple .string) true [some (.string (some (lit "x"))), none]),
      (lit "Part", false, .inst (some ⟨lit "Part", ⟨false, false, false, false, false⟩,
        [(lit "Ok", false, .boolean true)]⟩))]⟩

theorem forall_mem_present {s : CStr} {p : UInt8 → Bool} (h : s.all p = true) :
    ∀ t ∈ present (some s), ∀ x ∈ t, p x = true := by
  intro t ht
  cases (Option.filter_eq_some_iff.mp ht).1
  exact List.all_eq_true.mp h

end Instances

end Sfcb.CimXml.Generate
