import Sfcb.CimXml.LexerElements

/-!
# Where the lexer stays in the buffer

`tokens` is what a parser sees of a request: the tokens up to the first that is none, or the
message with which the process ends, and otherwise a fault.

Most of what a request may lack is no fault, as the zero at its end is a byte that nothing
expects. But a comment without `-->` leaves a pointer to nowhere, and an end tag without `>` or a
value without its second delimiter is read beyond the buffer. The message for a bad attribute list
goes into an area of another size, `NAME` and `ARRAYSIZE` are read even if they are not there, and a
section may be the last thing there is. References are looked at in contents and in embedded
objects, as in `unescape_inBounds_iff`.

`tokens_fine_iff` says that this is all: the lexer comes to an end inside the buffer exactly if
whatever it begins to read is complete.
-/

namespace Sfcb.CimXml.Lexer

open Sfcb.Lib Sfcb.Lib.Rounds

/-! ## What is begun -/

/-- Behind a `<`. -/
def TagStarts (junk : Nat) (next : Place) (xb : XmlBuffer) (scan : Scan) : Prop :=
  (∃ t, next.head? = some 47 ∧ findTag next.tail tags = .ok (some t) ∧ scan = .endTag xb.cur) ∨
    (next.head? ≠ some 47 ∧ lit "<!--" <+: xb.cur ∧ scan = .comment xb.cur) ∨
    ∃ t, next.head? ≠ some 47 ∧ ¬ lit "<!--" <+: xb.cur ∧ findTag next tags = .ok (some t) ∧
      t.process.Starts junk xb scan

/-- In a round of `yylex`. -/
def Starts (junk : Nat) (xb : XmlBuffer) (scan : Scan) : Prop :=
  ∃ next xb', nextTag xb = .ok (some next, xb') ∧ xb'.eTagFound = false ∧
    TagStarts junk next xb' scan

/-- In a request: in a round of a call of `yylex`. -/
def Started (junk : Nat) (body : CStr) (scan : Scan) : Prop :=
  ∃ st xb, Reaches (tokenRound junk) ([], newXmlBuffer body) st ∧
    Reaches (yylexRound junk) st.2 xb ∧ Starts junk xb scan

/-! ## Rounds -/

/-- The buffer when a tag has been looked for. -/
structure Next (xb xb' : XmlBuffer) : Prop where
  nulled : xb'.nulledChar = 0
  flag : xb'.eTagFound = xb.eTagFound
  ended : Ended xb'.cur
  length : xb'.cur.length ≤ xb.cur.length

/-- A pointer behind the end of a comment that is not there. -/
structure Lost (xb : XmlBuffer) : Prop where
  cur : xb.cur = []
  nulled : xb.nulledChar = 0

/-- The bytes that are left, and the end tag that is still to come. -/
def size (xb : XmlBuffer) : Nat := 2 * xb.cur.length + xb.eTagFound.toNat

theorem tags_proper : ∀ t ∈ tags, 0 ∉ t.tag ∧ t.process.Proper := by
  have hall : ∀ t ∈ tags, 0 ∉ t.tag ∧ 0 ∉ t.process.word ∧
      (∀ w ∈ t.process.elm, 0 ∉ w ∧ w ≠ []) ∧
      (t.process.follow = .cdata → t.process.elm = []) := by decide +kernel
  intro t ht
  obtain ⟨htag, hword, helm, hcdata⟩ := hall t ht
  exact ⟨htag, hword, helm, hcdata⟩

section Tokens

variable {junk : Nat} {xb xb' : XmlBuffer} {next : Place} {scan : Scan}

theorem nextTag_spec (h : Sane xb) :
    ∃ found xb', nextTag xb = .ok (found, xb') ∧ Next xb xb' ∧
      ∀ next ∈ found, AtElement next xb'.cur := by
  unfold nextTag
  by_cases hnulled : xb.nulledChar = 0
  · obtain ⟨p, hp, hsuffix, hended⟩ := skipWS_spec h.ended
    obtain ⟨b, p, rfl⟩ := List.exists_cons_of_ne_nil hended.ne_nil
    rw [if_neg (not_not_intro hnulled), hp]
    refine ⟨_, _, rfl, ⟨hnulled, rfl, hended, hsuffix.length_le⟩, fun next hnext => ?_⟩
    obtain ⟨hb, heq⟩ := Option.ite_none_right_eq_some.mp hnext
    obtain rfl : p = next := Option.some.inj heq
    subst hb
    exact ⟨.inr rfl, hended.tail (by decide)⟩
  · obtain ⟨p, hp, hended⟩ := h.nulled hnulled
    rw [if_pos hnulled]
    refine ⟨_, _, rfl, ⟨rfl, rfl, h.ended, Nat.le_refl _⟩, fun next hnext => ?_⟩
    rw [hp] at hnext ⊢
    obtain rfl : p = next := Option.some.inj hnext
    exact ⟨.inl rfl, hended⟩

theorem findTag_spec {ts : List Tags} (hts : ∀ t ∈ ts, 0 ∉ t.tag) (h : Ended next) :
    ∃ found, findTag next ts = .ok found ∧ ∀ t ∈ found, t ∈ ts := by
  induction ts with
  | nil => exact ⟨none, rfl, fun t ht => by cases ht⟩
  | cons t ts ih =>
    obtain ⟨htag, hrest⟩ := List.forall_mem_cons.mp hts
    obtain ⟨word, hword, -⟩ := getWord_spec (zeroless_eq htag) h
    unfold findTag
    rw [hword]
    cases word with
    | some p =>
      refine ⟨some t, rfl, fun t' ht' => ?_⟩
      obtain rfl := Option.some.inj ht'
      exact List.mem_cons_self
    | none =>
      obtain ⟨found, hfound, hmem⟩ := ih hrest
      exact ⟨found, hfound, fun t' ht' => List.mem_cons_of_mem _ (hmem t' ht')⟩

/-- What a round does behind a `<`. -/
def yylexTag (junk : Nat) (next : Place) (xb : XmlBuffer) : Lex (XmlBuffer ⊕ (Token × XmlBuffer)) :=
  (deref next).bind fun c =>
    if c = 47 then
      (findTag next.tail tags).bind fun
        | none => .ok (.inr (.eof, xb))
        | some t => (skipTag xb.cur).map fun p => .inr (.etag (some t.etag), { xb with cur := p })
    else
      (begins (· == ·) (lit "<!--") xb.cur).bind fun comment =>
        if comment then
          (strstrAt (lit "-->") xb.cur).map fun found =>
            .inl { xb with cur := (found.map (·.drop 3)).getD [] }
        else
          (findTag next tags).bind fun
            | none => .ok (.inr (.eof, xb))
            | some t => (t.process.run junk xb).map .inr

theorem yylexTag_cases (junk : Nat) (hat : AtElement next xb.cur) (hended : Ended xb.cur) :
    (yylexTag junk next xb = .ok (.inr (.eof, xb)) ∧ ∀ scan, ¬ TagStarts junk next xb scan) ∨
    (∃ etag, yylexTag junk next xb =
        (skipTag xb.cur).map (fun p => .inr (.etag (some etag), { xb with cur := p })) ∧
      ∀ scan, TagStarts junk next xb scan ↔ scan = .endTag xb.cur) ∨
    (yylexTag junk next xb = (strstrAt (lit "-->") xb.cur).map (fun found =>
        .inl { xb with cur := (found.map (·.drop 3)).getD [] }) ∧
      ∀ scan, TagStarts junk next xb scan ↔ scan = .comment xb.cur) ∨
    ∃ t ∈ tags, yylexTag junk next xb = (t.process.run junk xb).map .inr ∧
      ∀ scan, TagStarts junk next xb scan ↔ t.process.Starts junk xb scan := by
  obtain ⟨c, p, rfl⟩ := List.exists_cons_of_ne_nil hat.ended.ne_nil
  have htags : ∀ t ∈ tags, 0 ∉ t.tag := fun t ht => (tags_proper t ht).1
  unfold yylexTag TagStarts
  simp only [deref_cons, Except.bind, List.head?_cons, Option.some.injEq, List.tail_cons]
  by_cases hc : c = 47
  · obtain ⟨found, hfound, -⟩ := findTag_spec htags (hat.ended.tail (by rw [hc]; decide))
    simp only [hc, if_true, hfound]
    cases found with
    | none => exact .inl ⟨rfl, fun scan hscan => by simp at hscan⟩
    | some t => exact .inr (.inl ⟨t.etag, rfl, fun scan => by simp⟩)
  · simp only [hc, if_false, begins_eq (by decide : 0 ∉ lit "<!--") hended]
    by_cases hcomment : lit "<!--" <+: xb.cur
    · exact .inr (.inr (.inl ⟨by simp [hcomment], fun scan => by simp [hc, hcomment]⟩))
    · obtain ⟨found, hfound, hmem⟩ := findTag_spec htags hat.ended
      simp only [hcomment, decide_false, Bool.false_eq_true, if_false, hfound]
      cases found with
      | none => exact .inl ⟨rfl, fun scan hscan => by simp at hscan⟩
      | some t => exact .inr (.inr (.inr ⟨t, hmem t rfl, rfl, fun scan => by simp [hc]⟩))

/-- What is to be said of a round, and of what is begun in it. An open comment is no fault yet. -/
structure RoundSpec (junk : Nat) (xb : XmlBuffer) (r : Lex (XmlBuffer ⊕ (Token × XmlBuffer)))
    (starts : Scan → Prop) : Prop where
  fine : Fine r ↔ ∀ scan, starts scan → (∃ p, scan = .comment p) ∨ scan.Complete junk
  goesOn : ∀ next, r = .ok (.inl next) → next.cur.length < xb.cur.length ∧
    (Sane next ∨ (Lost next ∧ ∃ p, starts (.comment p) ∧ ¬ (Scan.comment p).Complete junk))
  ends : ∀ t, r = .ok (.inr t) → t.1 = .eof ∨ (Sane t.2 ∧ size t.2 < size xb)
  lost : ∀ p, starts (.comment p) → ¬ (Scan.comment p).Complete junk →
    ∃ next, r = .ok (.inl next) ∧ Lost next

theorem size_lt (hcur : xb'.cur.length < xb.cur.length) : size xb' < size xb := by
  unfold size
  have := Bool.toNat_le xb'.eTagFound
  omega

/-- Where nothing is begun. -/
theorem roundSpec_token {r : Token × XmlBuffer} {starts : Scan → Prop}
    (hno : ∀ scan, ¬ starts scan) (hr : r.1 = .eof ∨ (Sane r.2 ∧ size r.2 < size xb)) :
    RoundSpec junk xb (.ok (.inr r)) starts where
  fine := iff_of_true (safe_ok _) fun scan hscan => absurd hscan (hno scan)
  goesOn next hnext := by cases hnext
  ends t ht := by
    obtain rfl := Sum.inr.inj (Except.ok.inj ht)
    exact hr
  lost p hp := absurd hp (hno _)

theorem yylexTag_spec (hat : AtElement next xb.cur) (hended : Ended xb.cur)
    (hnulled : xb.nulledChar = 0) :
    RoundSpec junk xb (yylexTag junk next xb) (TagStarts junk next xb) := by
  obtain ⟨heq, hno⟩ | ⟨etag, heq, hiff⟩ | ⟨heq, hiff⟩ | ⟨t, ht, heq, hiff⟩ :=
    yylexTag_cases junk hat hended
  · rw [heq]
    exact roundSpec_token hno (.inl rfl)
  · obtain ⟨hfine, hresult⟩ := skipTag_spec hended
    rw [heq]
    constructor
    · refine safe_map_iff.trans (hfine.trans ?_)
      simp only [hiff, forall_eq, reduceCtorEq, exists_false, false_or]
      rfl
    · intro next hnext
      obtain ⟨p, -, hp⟩ := map_eq_ok.mp hnext
      cases hp
    · intro r hr
      obtain ⟨p, hp, heq⟩ := map_eq_ok.mp hr
      obtain rfl := Sum.inr.inj heq
      obtain ⟨hended', hlen⟩ := hresult p hp
      exact .inr ⟨sane_of_ended hended' hnulled, size_lt hlen⟩
    · intro p hp
      cases (hiff _).mp hp
  · obtain ⟨found, hfound, hspec⟩ := strstrAt_spec (by decide : 0 ∉ lit "-->") hended
    have hcomplete : (Scan.comment xb.cur).Complete junk ↔ ∃ q, found = some q := by
      refine (strstrAt_some_iff (by decide : 0 ∉ lit "-->") hended).symm.trans ?_
      simp only [hfound, Except.ok.injEq]
    rw [heq, hfound]
    constructor
    · refine iff_of_true (safe_ok _) fun scan hscan => .inl ⟨_, (hiff scan).mp hscan⟩
    · intro next hnext
      obtain rfl := Sum.inl.inj (Except.ok.inj hnext)
      cases found with
      | none =>
        refine ⟨hended.pos, .inr ⟨⟨rfl, hnulled⟩, _, (hiff _).mpr rfl, fun h => ?_⟩⟩
        obtain ⟨q, hq⟩ := hcomplete.mp h
        cases hq
      | some q =>
        obtain ⟨hsuffix, ⟨r, rfl⟩, hq⟩ := hspec q rfl
        have hr := hq.of_append (by decide : 0 ∉ lit "-->")
        have hlen := hsuffix.length_le
        rw [List.length_append] at hlen
        have hthree : (lit "-->").length = 3 := rfl
        exact ⟨show r.length < xb.cur.length by omega, .inl (sane_of_ended hr hnulled)⟩
    · intro r hr
      cases hr
    · intro p hp hopen
      obtain rfl : p = xb.cur := Scan.comment.inj ((hiff _).mp hp)
      cases found with
      | none => exact ⟨_, rfl, rfl, hnulled⟩
      | some q => exact absurd (hcomplete.mpr ⟨q, rfl⟩) hopen
  · obtain ⟨hfine, hresult⟩ := run_spec (tags_proper t ht).2 hat hnulled
    rw [heq]
    constructor
    · refine safe_map_iff.trans (hfine.trans ?_)
      simp only [hiff]
      refine forall₂_congr fun scan hscan => (or_iff_right ?_).symm
      rintro ⟨p, rfl⟩
      exact not_starts_comment hscan
    · intro next hnext
      obtain ⟨r, -, hr⟩ := map_eq_ok.mp hnext
      cases hr
    · intro r hr
      obtain ⟨r', hr', heq⟩ := map_eq_ok.mp hr
      obtain rfl := Sum.inr.inj heq
      exact (hresult r' hr').imp_right fun hsane => ⟨hsane.1, size_lt hsane.2⟩
    · intro p hp
      exact absurd ((hiff _).mp hp) not_starts_comment

/-- Skipping blanks makes nothing longer. -/
theorem RoundSpec.of_next {r : Lex (XmlBuffer ⊕ (Token × XmlBuffer))} {starts : Scan → Prop}
    (hspec : RoundSpec junk xb' r starts) (hnext : Next xb xb') : RoundSpec junk xb r starts := by
  have hle : size xb' ≤ size xb := by
    unfold size
    rw [hnext.flag]
    have := hnext.length
    omega
  exact ⟨hspec.fine, fun next h => (hspec.goesOn next h).imp_left (lt_of_lt_of_le · hnext.length),
    fun t h => (hspec.ends t h).imp_right (And.imp_right (lt_of_lt_of_le · hle)), hspec.lost⟩

theorem yylexRound_spec (junk : Nat) (h : Sane xb) :
    RoundSpec junk xb (yylexRound junk xb) (Starts junk xb) := by
  obtain ⟨found, xb', hnext, hxb, hfound⟩ := nextTag_spec h
  have hstarts : ∀ scan, Starts junk xb scan ↔
      ∃ next, found = some next ∧ xb'.eTagFound = false ∧ TagStarts junk next xb' scan := by
    intro scan
    unfold Starts
    simp only [hnext, Except.ok.injEq, Prod.mk.injEq]
    constructor
    · rintro ⟨next, xb'', ⟨rfl, rfl⟩, hscan⟩
      exact ⟨next, rfl, hscan⟩
    · rintro ⟨next, rfl, hscan⟩
      exact ⟨next, xb', ⟨rfl, rfl⟩, hscan⟩
  cases found with
  | none =>
    have hround : yylexRound junk xb = .ok (.inr (.eof, xb')) := by
      unfold yylexRound
      rw [hnext]
      rfl
    rw [hround]
    refine roundSpec_token (fun scan hscan => ?_) (.inl rfl)
    obtain ⟨next, hnone, -⟩ := (hstarts scan).mp hscan
    cases hnone
  | some next =>
    have hround : yylexRound junk xb =
        if xb'.eTagFound then .ok (.inr (.etag xb'.etag, { xb' with eTagFound := false }))
        else yylexTag junk next xb' := by
      unfold yylexRound
      rw [hnext]
      rfl
    rw [hround]
    cases hflag : xb'.eTagFound with
    | true =>
      refine RoundSpec.of_next (roundSpec_token (fun scan hscan => ?_) (.inr ⟨?_, ?_⟩)) hxb
      · obtain ⟨next, -, hfalse, -⟩ := (hstarts scan).mp hscan
        cases hflag.symm.trans hfalse
      · exact sane_of_ended hxb.ended hxb.nulled
      · unfold size
        rw [hflag]
        exact Nat.lt_succ_self _
    | false =>
      have hsame : Starts junk xb = TagStarts junk next xb' := by
        funext scan
        refine propext ((hstarts scan).trans ?_)
        simp [hflag]
      rw [hsame]
      exact (yylexTag_spec (hfound next rfl) hxb.ended hxb.nulled).of_next hxb

theorem Lost.round (h : Lost xb) : yylexRound junk xb = .error .fault := by
  obtain ⟨cur, flag, etag, c⟩ := xb
  obtain ⟨rfl, rfl⟩ := h
  rfl

theorem Lost.not_starts (h : Lost xb) : ¬ Starts junk xb scan := by
  obtain ⟨cur, flag, etag, c⟩ := xb
  obtain ⟨rfl, rfl⟩ := h
  rintro ⟨next, xb', hnext, -⟩
  cases hnext

/-- Where a call of `yylex` gets. -/
theorem yylexRound_reached (h : Sane xb) (hreach : Reaches (yylexRound junk) xb xb') :
    (Sane xb' ∨ Lost xb') ∧ size xb' ≤ size xb := by
  refine reaches_inv (P := fun s => (Sane s ∨ Lost s) ∧ size s ≤ size xb) ?_ hreach
    ⟨.inl h, Nat.le_refl _⟩
  rintro s s' ⟨hsane | hlost, hle⟩ hstep
  · obtain ⟨hlen, hnext⟩ := (yylexRound_spec junk hsane).goesOn s' hstep
    exact ⟨hnext.imp_right And.left, (size_lt hlen).le.trans hle⟩
  · cases hlost.round.symm.trans hstep

/-- A call of `yylex` is safe exactly if what is begun in its rounds is complete. -/
theorem yylex_fine_iff (h : Sane xb) : Fine (yylex junk xb) ↔
    ∀ xb', Reaches (yylexRound junk) xb xb' → ∀ scan, Starts junk xb' scan → scan.Complete junk := by
  refine (rounds_safe_iff (fun xb : XmlBuffer => xb.cur.length) ?_ (Nat.lt_succ_self _)).trans ?_
  · intro s hreach s' hstep
    obtain hsane | hlost := (yylexRound_reached h hreach).1
    · exact ((yylexRound_spec junk hsane).goesOn s' hstep).1
    · cases hlost.round.symm.trans hstep
  constructor
  · intro hall xb' hreach scan hscan
    obtain hsane | hlost := (yylexRound_reached h hreach).1
    · obtain ⟨p, rfl⟩ | hcomplete := (yylexRound_spec junk hsane).fine.mp (hall xb' hreach) scan hscan
      · -- an open comment is a fault in the next round
        by_contra hopen
        obtain ⟨next, hstep, hlost⟩ := (yylexRound_spec junk hsane).lost p hscan hopen
        have hfine := hall next (hreach.tail hstep)
        rw [hlost.round] at hfine
        exact not_fine_fault hfine
      · exact hcomplete
    · exact absurd hscan hlost.not_starts
  · intro hall xb' hreach
    have hsane : Sane xb' := by
      induction hreach with
      | refl => exact h
      | tail hreach hstep ih =>
        obtain ⟨-, hsane | ⟨-, p, hscan, hopen⟩⟩ := (yylexRound_spec junk ih).goesOn _ hstep
        · exact hsane
        · exact absurd (hall _ hreach _ hscan) hopen
    exact (yylexRound_spec junk hsane).fine.mpr fun scan hscan => .inr (hall xb' hreach scan hscan)

theorem yylex_spec (h : Sane xb) {r : Token × XmlBuffer} (hr : yylex junk xb = .ok r) :
    r.1 = .eof ∨ (Sane r.2 ∧ size r.2 < size xb) := by
  obtain ⟨s, hreach, hlast⟩ := rounds_eq_ok hr
  obtain ⟨hsane | hlost, hle⟩ := yylexRound_reached h hreach
  · exact ((yylexRound_spec junk hsane).ends r hlast).imp_right (And.imp_right (lt_of_lt_of_le · hle))
  · cases hlost.round.symm.trans hlast

/-- A token that is not the last one leaves less. -/
theorem tokenRound_spec {st st' : List Token × XmlBuffer} (h : Sane st.2)
    (hstep : tokenRound junk st = .ok (.inl st')) : Sane st'.2 ∧ size st'.2 < size st.2 := by
  obtain ⟨⟨token, xb⟩, hr, hnext⟩ := map_eq_ok.mp hstep
  dsimp only at hnext
  split at hnext
  · cases hnext
  · next htoken =>
    obtain rfl := Sum.inl.inj hnext
    exact (yylex_spec h hr).resolve_left htoken

theorem sane_newXmlBuffer (body : CStr) : Sane (newXmlBuffer body) :=
  sane_of_ended (Ended.append (show Ended [0] from rfl) _) rfl

/-- For every request: the lexer comes to an end in the buffer, with the tokens up to the first
that is none or with the message that it throws, exactly if whatever it begins to read is complete
and the message about a bad list fits. -/
theorem tokens_fine_iff (junk : Nat) (body : CStr) :
    Fine (tokens junk body) ↔ ∀ scan, Started junk body scan → scan.Complete junk := by
  have hsane : ∀ {st}, Reaches (tokenRound junk) ([], newXmlBuffer body) st → Sane st.2 :=
    fun hreach => reaches_inv (fun h hstep => (tokenRound_spec h hstep).1) hreach
      (sane_newXmlBuffer body)
  refine (rounds_safe_iff (fun st : List Token × XmlBuffer => size st.2) ?_
    (Nat.lt_succ_self _)).trans ?_
  · intro st hreach st' hstep
    exact (tokenRound_spec (hsane hreach) hstep).2
  constructor
  · rintro hall scan ⟨st, xb, hreach, hround, hscan⟩
    exact (yylex_fine_iff (hsane hreach)).mp (safe_map_iff.mp (hall st hreach)) xb hround scan hscan
  · intro hall st hreach
    refine safe_map_iff.mpr ((yylex_fine_iff (hsane hreach)).mpr fun xb hround scan hscan => ?_)
    exact hall scan ⟨st, xb, hreach, hround, hscan⟩

/-- A comment that is never closed. -/
theorem not_tokens_fine : ¬ Fine (tokens 0 (lit "<!-- a")) := by
  have hfault : tokens 0 (lit "<!-- a") = .error .fault := by decide +kernel
  rw [hfault]
  exact not_fine_fault

end Tokens

end Sfcb.CimXml.Lexer
