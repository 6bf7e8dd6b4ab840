import Sfcb.CimXml.LexerUnescape

/-!
# Elements of a request

What the lexer begins to read in an element, and when that is complete: its attributes, the list
that they are in, and what follows it. `run_spec` says of every function `proc…` that it is safe
exactly if what it begins is complete, and that the pointer has moved on when it returns a token.

A section has no attributes. In front of what is behind its word there is a `>` that the lexer has
put there, and there may be nothing behind it.
-/

namespace Sfcb.CimXml.Lexer

open Sfcb.Lib Sfcb.Lib.Rounds

/-! ## What is begun -/

/-- Something that the lexer begins to read, with what there is of it. -/
inductive Scan where
  | comment (p : Place)
  | endTag (p : Place)
  | value (dlm : UInt8) (p : Place)
  /-- a list of attributes that ends with something else -/
  | badList (p : Place)
  /-- an attribute that is read as a string -/
  | attribute (a : Option CStr)
  | cdata (p : Place)
  /-- a reference, with what is behind the `&` -/
  | reference (s : CStr)
  deriving DecidableEq, Repr

/-- It is complete, or the message about it fits. -/
def Scan.Complete (junk : Nat) : Scan → Prop
  | .comment p => lit "-->" <:+: p.takeWhile (· ≠ 0)
  | .endTag p => 62 ∈ p
  | .value dlm p => dlm ∈ p
  | .badList p => (shown p).length ≤ junk ∧ junk ≤ 20
  | .attribute a => a ≠ none
  | .cdata p => p ≠ []
  | .reference s => Fits s.dropLast

/-- In a list of attributes: its values, and what is there instead of its end. -/
def ListStarts (names : List CStr) (tag : CStr) (cur : Place) (scan : Scan) : Prop :=
  (∃ st dlm q, Reaches attrRound (names.map (⟨·, none⟩), cur) st ∧ OpensValue st dlm q ∧
    scan = .value dlm q) ∨
  ∃ r q, attrLoop names cur = .ok r ∧ BadEnd tag r.2 q ∧ scan = .badList q

/-- Behind the attributes. -/
def Proc.Follows (e : Proc) (attrs : List (Option CStr)) (xb : XmlBuffer) (scan : Scan) : Prop :=
  match e.follow with
  | .token => False
  | .content => xb.eTagFound = false ∧ ∃ s, ContentReference xb.cur s ∧ scan = .reference s
  | .iMethod => scan = .attribute (attrs.getD 0 none)
  | .iParm => scan = .attribute (attrs.getD 0 none)
  | .paramValue => (∃ value, attrs.getD 2 none = some value ∧ embeddedObject value = true) ∧
    ∃ s, EmbeddedReference xb.cur s ∧ scan = .reference s
  | .embedded _ => False
  | .arraySize n => scan = .attribute (attrs.getD n none)
  | .cdata => scan = .cdata xb.cur

/-- In an element. -/
def Proc.Starts (junk : Nat) (e : Proc) (xb : XmlBuffer) (scan : Scan) : Prop :=
  ∃ p q, tagEquals e.word xb.cur = .ok (true, p) ∧ e.enter p = .ok q ∧
    (ListStarts e.elm e.word q scan ∨
      ∃ attrs empty r, attrsOk junk e.elm e.word q = .ok (attrs, empty, r) ∧
        e.Follows attrs { xb with
          cur := r, eTagFound := empty, etag := if empty then some e.etag else xb.etag } scan)

/-! ## Elements -/

/-- The pointer is in the buffer, and where a `<` has been overwritten there is more behind it. -/
structure Sane (xb : XmlBuffer) : Prop where
  ended : Ended xb.cur
  nulled : xb.nulledChar ≠ 0 → ∃ p, xb.cur = 0 :: p ∧ Ended p

/-- A `<` is here, or has been, and this is behind it. -/
structure AtElement (next cur : Place) : Prop where
  here : cur = 0 :: next ∨ cur = 60 :: next
  ended : Ended next

/-- What a function `proc…` is made of. -/
structure Proc.Proper (e : Proc) : Prop where
  word : 0 ∉ e.word
  elm : Named e.elm
  cdata : e.follow = .cdata → e.elm = []

section Elements

variable {junk : Nat} {e : Proc} {xb : XmlBuffer} {attrs : List (Option CStr)} {next cur p : Place}
  {names : List CStr} {tag : CStr}

theorem AtElement.length_lt (h : AtElement next cur) : next.length < cur.length := by
  obtain rfl | rfl := h.here <;> exact Nat.lt_succ_self _

/-- A word that may have blanks in front of it, as in `tagEquals`. -/
def skipWord (tag : CStr) (start p : Place) : Lex (Bool × Place) :=
  (skipWS p).bind fun p =>
    (getWord (· == ·) tag p).map fun
      | none => (false, start)
      | some p => (true, p)

theorem skipWord_spec (hw : 0 ∉ tag) (h : Ended p) (start : Place) :
    ∃ r, skipWord tag start p = .ok r ∧ (r.1 = true → Ended r.2 ∧ r.2.length ≤ p.length) := by
  obtain ⟨q, hq, hsuffix, hended⟩ := skipWS_spec h
  obtain ⟨found, hfound, hafter⟩ := getWord_spec (zeroless_eq hw) hended
  unfold skipWord
  rw [hq]
  simp only [Except.bind, hfound]
  cases found with
  | none => exact ⟨(false, start), rfl, fun hfalse => by cases hfalse⟩
  | some r =>
    obtain ⟨-, hlength, hended'⟩ := hafter r rfl
    have hle := hsuffix.length_le
    refine ⟨(true, r), rfl, fun _ => ⟨hended', ?_⟩⟩
    show r.length ≤ p.length
    omega

theorem tagEquals_spec (hw : 0 ∉ tag) (h : AtElement next cur) :
    ∃ r, tagEquals tag cur = .ok r ∧ (r.1 = true → Ended r.2 ∧ r.2.length ≤ next.length) := by
  obtain ⟨hhere, hended⟩ := h
  obtain ⟨b, rest, rfl⟩ := List.exists_cons_of_ne_nil hended.ne_nil
  obtain rfl | rfl := hhere
  · obtain ⟨q, hq, hsuffix, hended'⟩ := skipWS_spec hended
    obtain ⟨r, hr, hspec⟩ := skipWord_spec hw hended' []
    refine ⟨r, ?_, fun htrue => ⟨(hspec htrue).1, (hspec htrue).2.trans hsuffix.length_le⟩⟩
    have hskip : tagEquals tag (0 :: b :: rest) = (skipWS (b :: rest)).bind (skipWord tag []) := rfl
    rw [hskip, hq]
    exact hr
  · obtain ⟨r, hr, hspec⟩ := skipWord_spec hw hended (60 :: b :: rest)
    have hskip : tagEquals tag (60 :: b :: rest) =
        skipWord tag (60 :: b :: rest) (b :: rest) := rfl
    exact ⟨r, hskip.trans hr, hspec⟩

/-- A list of attributes is read safely exactly if what is begun in it is complete. -/
theorem list_fine_iff (hnames : Named names) (h : Ended cur) :
    Fine (attrsOk junk names tag cur) ↔
      ∀ scan, ListStarts names tag cur scan → scan.Complete junk := by
  rw [attrsOk_fine_iff hnames h]
  constructor
  · rintro ⟨hvalues, hbad⟩ scan (⟨st, dlm, q, hreach, hopen, rfl⟩ | ⟨r, q, hr, hend, rfl⟩)
    · exact hvalues st hreach dlm q hopen
    · exact hbad r hr q hend
  · intro hall
    exact ⟨fun st hreach dlm q hopen => hall _ (.inl ⟨st, dlm, q, hreach, hopen, rfl⟩),
      fun r hr q hend => hall _ (.inr ⟨r, q, hr, hend, rfl⟩)⟩

/-- In front of a section there is a `>`, and no attribute. -/
theorem list_section (junk : Nat) (tag : CStr) (p : Place) :
    attrsOk junk [] tag (62 :: p) = .ok ([], false, p) ∧
      ∀ scan, ¬ ListStarts [] tag (62 :: p) scan := by
  have hskip : skipWS (62 :: p) = .ok (62 :: p) := by
    cases p with
    | nil => rfl
    | cons b p => exact if_neg (by decide)
  have hround : attrRound ([], 62 :: p) = .ok (.inr ([], 62 :: p)) := by
    unfold attrRound
    simp only [hskip, Except.bind, deref_cons]
    rfl
  have hloop : attrLoop [] (62 :: p) = .ok ([], 62 :: p) := by
    unfold attrLoop rounds
    rw [List.map_nil, hround]
    rfl
  refine ⟨?_, ?_⟩
  · rw [attrsOk_eq, hloop]
    rfl
  · rintro scan (⟨st, dlm, q, hreach, hopen, -⟩ | ⟨r, q, hr, hend, -⟩)
    · have hst : st = ([], 62 :: p) := by
        cases hreach using Relation.ReflTransGen.head_induction_on with
        | refl => rfl
        | head hs _ => cases hround.symm.trans hs
      obtain ⟨p', c, n, p₁, p₂, p₃, h₁, h₂, h₃, -⟩ := hopen
      rw [hst] at h₁
      obtain rfl := Except.ok.inj (h₁.symm.trans hskip)
      obtain rfl := Except.ok.inj h₂
      cases h₃
    · obtain rfl := Except.ok.inj (hr.symm.trans hloop)
      exact hend.2.1 rfl

theorem lookUp_fine_iff {τ : Type} (table : List (CStr × τ)) (name : Option CStr) :
    Fine (lookUp table name) ↔ name ≠ none := by
  cases name with
  | none => exact iff_of_false not_fine_fault fun h => h rfl
  | some name => exact iff_of_true (safe_ok _) (Option.some_ne_none _)

/-- Where references are all that is begun. -/
theorem forall_reference {P : CStr → Prop} :
    (∀ scan, (∃ s, P s ∧ scan = Scan.reference s) → scan.Complete junk) ↔
      ∀ s, P s → Fits s.dropLast := by
  constructor
  · exact fun hall s hs => hall _ ⟨s, hs, rfl⟩
  · rintro hall scan ⟨s, hs, rfl⟩
    exact hall s hs

/-- Where an attribute has to be one of two words. -/
theorem fine_embeddedObject {α : Type} {value : CStr} {r : Lex α} :
    Fine (if embeddedObject value then r else .error .thrown) ↔
      (embeddedObject value = true → Fine r) := by
  split
  · next h => exact ⟨fun hr _ => hr, fun hr => hr h⟩
  · next h => exact iff_of_true ((safe_error_iff _).mpr rfl) fun h' => absurd h' h

/-- Behind the attributes the lexer is safe exactly if what it begins is complete. -/
theorem finish_fine_iff (h : Ended xb.cur ∨ (e.follow = .cdata ∧ xb.cur = [])) :
    Fine (e.finish attrs xb) ↔ ∀ scan, e.Follows attrs xb scan → scan.Complete junk := by
  unfold Proc.finish Proc.Follows
  cases hfollow : e.follow with
  | token => exact iff_of_true (safe_ok _) fun _ hscan => hscan.elim
  | content =>
    have hended := h.resolve_right (by simp [hfollow])
    cases hempty : xb.eTagFound with
    | true => exact iff_of_true (safe_ok _) fun _ hscan => by cases hscan.1
    | false =>
      simp only [true_and, forall_reference]
      exact safe_map_iff.trans (getContent_fine_iff hended)
  | iMethod =>
    simp only [forall_eq]
    exact safe_map_iff.trans (lookUp_fine_iff _ _)
  | iParm =>
    simp only [forall_eq]
    exact safe_map_iff.trans (lookUp_fine_iff _ _)
  | paramValue =>
    have hended := h.resolve_right (by simp [hfollow])
    cases hvalue : attrs.getD 2 none with
    | none =>
      refine iff_of_true (safe_ok _) fun _ hscan => ?_
      obtain ⟨⟨value, hsome, -⟩, -⟩ := hscan
      cases hsome
    | some value =>
      have hiff : Fine ((unescapeEmbedded xb.cur).map fun p =>
          (Token.xtok e.xtok attrs none, { xb with cur := p })) ↔
            ∀ scan, (∃ s, EmbeddedReference xb.cur s ∧ scan = Scan.reference s) →
              scan.Complete junk :=
        safe_map_iff.trans ((unescapeEmbedded_spec hended).1.trans forall_reference.symm)
      refine fine_embeddedObject.trans ⟨fun hfine scan hscan => ?_, fun hall hword => ?_⟩
      · obtain ⟨⟨value', hsome, hword⟩, hscan⟩ := hscan
        obtain rfl := Option.some.inj hsome
        exact hiff.mp (hfine hword) scan hscan
      · exact hiff.mpr fun scan hscan => hall scan ⟨⟨value, rfl, hword⟩, hscan⟩
  | embedded n =>
    refine iff_of_true ?_ fun _ hscan => hscan.elim
    dsimp only
    cases attrs.getD n none with
    | none => exact safe_ok _
    | some value => exact fine_embeddedObject.mpr fun _ => safe_ok _
  | arraySize n =>
    simp only [forall_eq]
    cases attrs.getD n none with
    | none => exact iff_of_false not_fine_fault fun hne => hne rfl
    | some value => exact iff_of_true (safe_ok _) (Option.some_ne_none _)
  | cdata =>
    simp only [forall_eq]
    obtain hended | ⟨-, hnil⟩ := h
    · obtain ⟨found, hfound, -⟩ := strstrAt_spec (by decide : 0 ∉ lit "]]>") hended
      rw [hfound]
      exact iff_of_true (safe_map_iff.mpr (safe_ok _)) hended.ne_nil
    · rw [hnil]
      exact iff_of_false not_fine_fault fun hne => hne rfl

theorem sane_of_ended (h : Ended xb.cur) (hnulled : xb.nulledChar = 0) : Sane xb :=
  ⟨h, fun hne => absurd hnulled hne⟩

/-- There is no token, or the pointer has not moved back. -/
theorem finish_spec (h : Ended xb.cur ∨ (e.follow = .cdata ∧ xb.cur = []))
    (hnulled : xb.nulledChar = 0) {r : Token × XmlBuffer} (hr : e.finish attrs xb = .ok r) :
    r.1 = .eof ∨ (Sane r.2 ∧ r.2.cur.length ≤ xb.cur.length) := by
  have hsame : ∀ {token : Token}, e.follow ≠ .cdata → r = (token, xb) →
      r.1 = .eof ∨ (Sane r.2 ∧ r.2.cur.length ≤ xb.cur.length) := by
    rintro token hne rfl
    exact .inr ⟨sane_of_ended (h.resolve_right fun h => hne h.1) hnulled, Nat.le_refl _⟩
  unfold Proc.finish at hr
  cases hfollow : e.follow with
  | token =>
    rw [hfollow] at hr
    exact hsame (by simp [hfollow]) (Except.ok.inj hr).symm
  | content =>
    have hended := h.resolve_right (by simp [hfollow])
    rw [hfollow] at hr
    dsimp only at hr
    split at hr
    · exact hsame (by simp [hfollow]) (Except.ok.inj hr).symm
    · obtain ⟨⟨content, q, c⟩, hcontent, rfl⟩ := map_eq_ok.mp hr
      obtain ⟨p, hq, hp, hlen⟩ := getContent_spec hcontent hended
      obtain ⟨rfl, -⟩ := Prod.mk.inj hq
      refine .inr ⟨⟨?_, fun hne => ⟨p, rfl, hp.tail hne⟩⟩, hlen⟩
      by_cases hc : c = 0
      · exact hc ▸ hp
      · exact (hp.tail hc).append [0]
  | iMethod =>
    rw [hfollow] at hr
    obtain ⟨found, -, heq⟩ := map_eq_ok.mp hr
    exact hsame (by simp [hfollow]) heq.symm
  | iParm =>
    rw [hfollow] at hr
    obtain ⟨found, -, heq⟩ := map_eq_ok.mp hr
    exact hsame (by simp [hfollow]) heq.symm
  | paramValue =>
    have hended := h.resolve_right (by simp [hfollow])
    rw [hfollow] at hr
    dsimp only at hr
    cases hvalue : attrs.getD 2 none with
    | none =>
      rw [hvalue] at hr
      exact hsame (by simp [hfollow]) (Except.ok.inj hr).symm
    | some value =>
      rw [hvalue] at hr
      dsimp only at hr
      split at hr
      · obtain ⟨q, hq, rfl⟩ := map_eq_ok.mp hr
        obtain ⟨hlen, hended'⟩ := (unescapeEmbedded_spec hended).2 q hq
        exact .inr ⟨sane_of_ended hended' hnulled, hlen.le⟩
      · cases hr
  | embedded n =>
    rw [hfollow] at hr
    dsimp only at hr
    cases hvalue : attrs.getD n none with
    | none =>
      rw [hvalue] at hr
      exact hsame (by simp [hfollow]) (Except.ok.inj hr).symm
    | some value =>
      rw [hvalue] at hr
      dsimp only at hr
      split at hr
      · exact hsame (by simp [hfollow]) (Except.ok.inj hr).symm
      · cases hr
  | arraySize n =>
    rw [hfollow] at hr
    dsimp only at hr
    cases hvalue : attrs.getD n none with
    | none =>
      rw [hvalue] at hr
      cases hr
    | some value =>
      rw [hvalue] at hr
      exact hsame (by simp [hfollow]) (Except.ok.inj hr).symm
  | cdata =>
    rw [hfollow] at hr
    obtain ⟨found, hfound, rfl⟩ := map_eq_ok.mp hr
    cases found with
    | none => exact .inl rfl
    | some v =>
      have hended : Ended xb.cur := by
        refine h.resolve_right fun hnil => ?_
        rw [hnil.2] at hfound
        cases hfound
      obtain ⟨found', hfound', hspec⟩ := strstrAt_spec (by decide : 0 ∉ lit "]]>") hended
      obtain rfl := Except.ok.inj (hfound.symm.trans hfound')
      obtain ⟨hsuffix, ⟨q, rfl⟩, hv⟩ := hspec v rfl
      have hlen := hsuffix.length_le
      have hthree : (lit "]]>").length = 3 := rfl
      rw [List.length_append, hthree] at hlen
      refine .inr ⟨sane_of_ended ?_ hnulled, ?_⟩
      · exact ((hv.drop (by rw [List.length_append, hthree]; omega)).append [60, 47]).append _
      · simp only [List.length_append, List.length_take, List.length_cons, List.length_drop, hthree]
        omega

/-- The attributes of an element, behind its word. -/
theorem enter_spec (hproper : e.Proper) (h : Ended p) : ∃ q, e.enter p = .ok q ∧
    (Fine (attrsOk junk e.elm e.word q) ↔
      ∀ scan, ListStarts e.elm e.word q scan → scan.Complete junk) ∧
    ∀ r, attrsOk junk e.elm e.word q = .ok r → r.2.2.length ≤ p.length ∧
      (Ended r.2.2 ∨ (e.follow = .cdata ∧ r.2.2 = [])) := by
  unfold Proc.enter
  by_cases hcdata : e.follow = .cdata
  · obtain ⟨b, q, rfl⟩ := List.exists_cons_of_ne_nil h.ne_nil
    obtain ⟨hlist, hno⟩ := list_section junk e.word q
    rw [if_pos hcdata, hproper.cdata hcdata]
    refine ⟨62 :: q, rfl, ?_, fun r hr => ?_⟩
    · show Fine (attrsOk junk [] e.word (62 :: q)) ↔ _
      rw [hlist]
      exact iff_of_true (safe_ok _) fun scan hscan => absurd hscan (hno scan)
    · obtain rfl := Except.ok.inj (hr.symm.trans hlist)
      refine ⟨Nat.le_succ _, ?_⟩
      by_cases hq : q = []
      · exact .inr ⟨hcdata, hq⟩
      · exact .inl (h.of_suffix (List.suffix_cons b q) hq)
  · rw [if_neg hcdata]
    refine ⟨p, rfl, list_fine_iff hproper.elm h, fun r hr => ?_⟩
    obtain ⟨hsuffix, hended⟩ := attrsOk_spec hproper.elm h hr
    exact ⟨hsuffix.length_le, .inl hended⟩

/-- Behind the attributes of an element. -/
def Proc.behind (e : Proc) (xb : XmlBuffer) (r : List (Option CStr) × Bool × Place) : XmlBuffer :=
  { xb with cur := r.2.2, eTagFound := r.2.1, etag := if r.2.1 then some e.etag else xb.etag }

theorem run_eq {q : Place} (htag : tagEquals e.word xb.cur = .ok (true, p))
    (henter : e.enter p = .ok q) : e.run junk xb =
      (attrsOk junk e.elm e.word q).bind fun r => e.finish r.1 (e.behind xb r) := by
  have hrun : e.run junk xb = (tagEquals e.word xb.cur).bind fun found =>
      if found.1 then
        (e.enter found.2).bind fun p =>
          (attrsOk junk e.elm e.word p).bind fun r => e.finish r.1 (e.behind xb r)
      else .ok (.eof, { xb with cur := found.2 }) := rfl
  rw [hrun, htag]
  show (e.enter p).bind _ = _
  rw [henter]
  rfl

/-- Comments are no part of an element. -/
theorem not_starts_comment : ¬ e.Starts junk xb (.comment p) := by
  rintro ⟨q, q', -, -, (⟨st, dlm, v, -, -, heq⟩ | ⟨r, v, -, -, heq⟩) | ⟨attrs, empty, r, -, hfollows⟩⟩
  · cases heq
  · cases heq
  · unfold Proc.Follows at hfollows
    split at hfollows <;> simp at hfollows

theorem starts_iff {q : Place} {scan : Scan} (htag : tagEquals e.word xb.cur = .ok (true, p))
    (henter : e.enter p = .ok q) : e.Starts junk xb scan ↔
      ListStarts e.elm e.word q scan ∨
        ∃ r, attrsOk junk e.elm e.word q = .ok r ∧ e.Follows r.1 (e.behind xb r) scan := by
  constructor
  · rintro ⟨p', q', htag', henter', hscan⟩
    obtain rfl := (Prod.mk.inj (Except.ok.inj (htag.symm.trans htag'))).2
    obtain rfl := Except.ok.inj (henter.symm.trans henter')
    exact hscan.imp_right fun ⟨attrs, empty, r, hr, hfollows⟩ => ⟨(attrs, empty, r), hr, hfollows⟩
  · intro hscan
    exact ⟨p, q, htag, henter, hscan.imp_right fun ⟨r, hr, hfollows⟩ =>
      ⟨r.1, r.2.1, r.2.2, hr, hfollows⟩⟩

/-- An element: it is read safely exactly if what is begun in it is complete, and then there is no
token or the pointer has moved on. -/
theorem run_spec (hproper : e.Proper) (h : AtElement next xb.cur) (hnulled : xb.nulledChar = 0) :
    (Fine (e.run junk xb) ↔ ∀ scan, e.Starts junk xb scan → scan.Complete junk) ∧
      ∀ r, e.run junk xb = .ok r → r.1 = .eof ∨ (Sane r.2 ∧ r.2.cur.length < xb.cur.length) := by
  obtain ⟨⟨found, p⟩, htag, hword⟩ := tagEquals_spec hproper.word h
  cases found with
  | false =>
    have hrun : e.run junk xb = .ok (.eof, { xb with cur := p }) := by
      unfold Proc.run
      rw [htag]
      rfl
    rw [hrun]
    refine ⟨iff_of_true (safe_ok _) fun scan hscan => ?_, fun r hr => ?_⟩
    · obtain ⟨p', q, heq, -⟩ := hscan
      cases htag.symm.trans heq
    · obtain rfl := Except.ok.inj hr
      exact .inl rfl
  | true =>
    obtain ⟨hended, hlen⟩ := hword rfl
    obtain ⟨q, henter, hfine, hresult⟩ := @enter_spec junk e p hproper hended
    rw [run_eq htag henter]
    simp only [starts_iff htag henter]
    constructor
    · refine safe_bind_iff.trans ⟨fun ⟨hlist, hfinish⟩ scan hscan => ?_, fun hall => ⟨?_, ?_⟩⟩
      · obtain hscan | ⟨r, hr, hfollows⟩ := hscan
        · exact hfine.mp hlist scan hscan
        · exact (@finish_fine_iff junk e (e.behind xb r) r.1 (hresult r hr).2).mp (hfinish r hr)
            scan hfollows
      · exact hfine.mpr fun scan hscan => hall scan (.inl hscan)
      · intro r hr
        exact (@finish_fine_iff junk e (e.behind xb r) r.1 (hresult r hr).2).mpr
          fun scan hfollows => hall scan (.inr ⟨r, hr, hfollows⟩)
    · intro r hr
      obtain ⟨list, hlist, hfinish⟩ := bind_eq_ok.mp hr
      obtain ⟨hle, hbehind⟩ := hresult list hlist
      refine (@finish_spec e (e.behind xb list) list.1 hbehind hnulled r hfinish).imp_right
        fun hsane => ⟨hsane.1, ?_⟩
      calc r.2.cur.length ≤ list.2.2.length := hsane.2
        _ ≤ p.length := hle
        _ ≤ next.length := hlen
        _ < xb.cur.length := h.length_lt

end Elements

end Sfcb.CimXml.Lexer
