import Sfcb.CimXml.Lexer

/-!
# What the scanners find

The buffer ends with a zero, and most of the scanners of the lexer stop there at the latest:
they skip blanks, compare words, or look for a string with `strstr`. For each of them there is
one lemma here that says where it gets.

Two look for a single byte and for nothing else: the end of a tag (`skipTag`) and the end of a
value (`closeValue`). They stay in the buffer exactly if the byte is there. `attrsOk_safe_iff`
says what this makes of an attribute list: it is read safely if every value that is opened in
it is closed, and if the message about what is behind it, when it is no end, fits.
-/

namespace Sfcb.CimXml.Lexer

open Sfcb.Lib Sfcb.Lib.Rounds

/-! ## Places -/

/-- A place in the buffer, which ends with a zero. -/
def Ended (p : Place) : Prop := p.getLast? = some 0

instance (p : Place) : Decidable (Ended p) := inferInstanceAs (Decidable (_ = _))

section Places

variable {p q : Place} {b : UInt8}

theorem Ended.ne_nil (h : Ended p) : p ≠ [] := by
  rintro rfl
  cases h

theorem Ended.pos (h : Ended p) : 0 < p.length := List.length_pos_iff.mpr h.ne_nil

/-- A place further on. -/
theorem Ended.of_suffix (h : Ended p) (hsuffix : q <:+ p) (hne : q ≠ []) : Ended q := by
  obtain ⟨front, rfl⟩ := hsuffix
  unfold Ended at h
  rwa [List.getLast?_append_of_ne_nil _ hne] at h

theorem Ended.append (h : Ended p) (front : CStr) : Ended (front ++ p) := by
  unfold Ended
  rw [List.getLast?_append_of_ne_nil _ h.ne_nil]
  exact h

/-- Behind a byte that is not zero there is another one. -/
theorem Ended.tail (h : Ended (b :: p)) (hb : b ≠ 0) : Ended p := by
  cases p with
  | nil => exact absurd (Option.some.inj h) hb
  | cons c p => exact h.of_suffix (List.suffix_cons b _) (List.cons_ne_nil _ _)

/-- And behind bytes that are not zero. -/
theorem Ended.of_append {w : CStr} (h : Ended (w ++ p)) (hw : 0 ∉ w) : Ended p := by
  refine h.of_suffix (List.suffix_append w p) ?_
  rintro rfl
  rw [List.append_nil] at h
  exact hw (List.mem_of_getLast? h)

theorem Ended.drop {n : Nat} (h : Ended p) (hn : n < p.length) : Ended (p.drop n) :=
  h.of_suffix (List.drop_suffix n p) fun hnil => by
    have := congrArg List.length hnil
    rw [List.length_drop, List.length_nil] at this
    omega

theorem deref_cons (b : UInt8) (p : Place) : deref (b :: p) = .ok b := rfl

end Places

/-! ## Blanks and words -/

section Words

variable {p q : Place} {same : UInt8 → UInt8 → Bool} {w : CStr} {c : UInt8}

theorem skipWS_spec (h : Ended p) : ∃ q, skipWS p = .ok q ∧ q <:+ p ∧ Ended q := by
  fun_induction skipWS p with
  | case1 => exact absurd rfl h.ne_nil
  | case2 b => exact ⟨[b], rfl, List.suffix_refl _, h⟩
  | case3 b c p hb ih =>
    obtain ⟨q, hq, hsuffix, hended⟩ :=
      ih (h.of_suffix (List.suffix_cons b _) (List.cons_ne_nil _ _))
    exact ⟨q, hq, hsuffix.trans (List.suffix_cons b _), hended⟩
  | case4 b c p hb => exact ⟨_, rfl, List.suffix_refl _, h⟩

/-- No byte of the word is taken for the zero at the end. -/
def Zeroless (same : UInt8 → UInt8 → Bool) (w : CStr) : Prop := ∀ c ∈ w, same c 0 = false

theorem zeroless_eq (h : 0 ∉ w) : Zeroless (· == ·) w := by
  intro c hc
  have hne : c ≠ 0 := fun heq => h (heq ▸ hc)
  simpa using hne

theorem zeroless_fold (h : 0 ∉ w) : Zeroless sameFold w := by
  intro c hc
  have hne : c ≠ 0 := fun heq => h (heq ▸ hc)
  have hzero : toLower 0 = 0 := by decide
  simp only [sameFold, hzero, beq_eq_false_iff_ne]
  exact toLower_ne_zero hne

/-- A comparison stops at the first difference, and at the zero there is one. -/
theorem begins_spec (hw : Zeroless same w) (h : Ended p) :
    ∃ found, begins same w p = .ok found ∧
      (found = true → w.length < p.length ∧ Ended (p.drop w.length)) := by
  induction w generalizing p with
  | nil => exact ⟨true, rfl, fun _ => ⟨h.pos, h⟩⟩
  | cons c w ih =>
    cases p with
    | nil => exact absurd rfl h.ne_nil
    | cons b p =>
      unfold begins
      split
      · next hsame =>
        have hb : b ≠ 0 := by
          rintro rfl
          rw [hw c List.mem_cons_self] at hsame
          cases hsame
        obtain ⟨found, hfound, hrest⟩ := ih (fun d hd => hw d (List.mem_cons_of_mem _ hd)) (h.tail hb)
        refine ⟨found, hfound, fun htrue => ?_⟩
        obtain ⟨hlen, hended⟩ := hrest htrue
        exact ⟨Nat.succ_lt_succ hlen, hended⟩
      · exact ⟨false, rfl, fun hfalse => by cases hfalse⟩

/-- Where the case matters, it is a prefix that is found. -/
theorem begins_eq (hw : 0 ∉ w) (h : Ended p) :
    begins (· == ·) w p = .ok (decide (w <+: p)) := by
  induction w generalizing p with
  | nil => simp [begins]
  | cons c w ih =>
    obtain ⟨b, p, rfl⟩ := List.exists_cons_of_ne_nil h.ne_nil
    have hc : c ≠ 0 := fun heq => hw (heq ▸ List.mem_cons_self)
    unfold begins
    by_cases heq : c = b
    · subst heq
      rw [if_pos (beq_self_eq_true c), ih (fun hm => hw (List.mem_cons_of_mem _ hm)) (h.tail hc)]
      simp
    · rw [if_neg (by simpa using heq)]
      simp [heq]

/-- What is behind a word that is here. -/
structure After (n : Nat) (p q : Place) : Prop where
  suffix : q <:+ p
  length : q.length + n = p.length
  ended : Ended q

theorem after_drop {n : Nat} (hn : n < p.length) (h : Ended (p.drop n)) : After n p (p.drop n) :=
  ⟨List.drop_suffix n p, by rw [List.length_drop]; omega, h⟩

theorem getChar_eq (c b : UInt8) (p : Place) :
    getChar c (b :: p) = .ok (if b = c then some p else none) := rfl

theorem getChar_spec (hc : c ≠ 0) (h : Ended p) :
    ∃ found, getChar c p = .ok found ∧ ∀ q ∈ found, p = c :: q ∧ Ended q := by
  cases p with
  | nil => exact absurd rfl h.ne_nil
  | cons b p =>
    refine ⟨_, getChar_eq c b p, fun q hq => ?_⟩
    obtain ⟨rfl, heq⟩ := Option.ite_none_right_eq_some.mp hq
    obtain rfl := Option.some.inj heq
    exact ⟨rfl, h.tail hc⟩

theorem getWord_spec (hw : Zeroless same w) (h : Ended p) :
    ∃ found, getWord same w p = .ok found ∧ ∀ q ∈ found, After w.length p q := by
  obtain ⟨found, hfound, hrest⟩ := begins_spec hw h
  unfold getWord
  rw [hfound]
  cases found with
  | false => exact ⟨none, rfl, fun q hq => by cases hq⟩
  | true =>
    obtain ⟨hlen, hended⟩ := hrest rfl
    obtain ⟨c, rest, hcons⟩ := List.exists_cons_of_ne_nil hended.ne_nil
    refine ⟨if isalnum c then none else some (p.drop w.length), ?_, fun q hq => ?_⟩
    · show (deref (p.drop w.length)).map _ = _
      rw [hcons]
      rfl
    · obtain ⟨-, heq⟩ := Option.ite_none_left_eq_some.mp hq
      obtain rfl := Option.some.inj heq
      exact after_drop hlen hended

/-- `strstr` ends at a zero at the latest. -/
theorem strstrAt_spec (hw : 0 ∉ w) (h : Ended p) :
    ∃ found, strstrAt w p = .ok found ∧ ∀ q ∈ found, q <:+ p ∧ w <+: q ∧ Ended q := by
  induction p with
  | nil => exact absurd rfl h.ne_nil
  | cons b p ih =>
    unfold strstrAt
    rw [begins_eq hw h]
    simp only [Except.bind]
    by_cases hpre : w <+: b :: p
    · refine ⟨some (b :: p), by simp [hpre], fun q hq => ?_⟩
      obtain rfl := Option.some.inj hq
      exact ⟨List.suffix_refl _, hpre, h⟩
    · by_cases hb : b = 0
      · exact ⟨none, by rw [decide_eq_false hpre, if_neg Bool.false_ne_true, if_pos hb],
          fun q hq => by cases hq⟩
      · obtain ⟨found, hfound, hrest⟩ := ih (h.tail hb)
        refine ⟨found, by simpa [hpre, hb] using hfound, fun q hq => ?_⟩
        obtain ⟨hsuffix, hprefix, hended⟩ := hrest q hq
        exact ⟨hsuffix.trans (List.suffix_cons b p), hprefix, hended⟩

/-- So it finds what is in the text up to there. -/
theorem strstrAt_some_iff (hw : 0 ∉ w) (h : Ended p) :
    (∃ q, strstrAt w p = .ok (some q)) ↔ w <:+: p.takeWhile (· ≠ 0) := by
  induction p with
  | nil => exact absurd rfl h.ne_nil
  | cons b p ih =>
    unfold strstrAt
    rw [begins_eq hw h]
    simp only [Except.bind]
    by_cases hpre : w <+: b :: p
    · refine iff_of_true ⟨b :: p, by simp [hpre]⟩ ?_
      obtain ⟨q, hq⟩ := hpre
      have hall : ∀ c ∈ w, decide (c ≠ 0) = true :=
        fun c hc => decide_eq_true fun heq => hw (heq ▸ hc)
      rw [← hq, List.takeWhile_append_of_pos hall]
      exact (List.prefix_append _ _).isInfix
    · rw [decide_eq_false hpre, if_neg Bool.false_ne_true]
      by_cases hb : b = 0
      · subst hb
        refine iff_of_false (fun hsome => ?_) fun hin => hpre ?_
        · obtain ⟨q, hq⟩ := hsome
          cases hq
        · obtain rfl : w = [] := List.infix_nil.mp hin
          exact List.nil_prefix
      · rw [if_neg hb, ih (h.tail hb), List.takeWhile_cons_of_pos (by simpa using hb),
          List.infix_cons_iff]
        refine (or_iff_right fun hin => hpre (hin.trans ?_)).symm
        exact List.cons_prefix_cons.mpr ⟨rfl, List.takeWhile_prefix _⟩

/-- `strncpy` ends there as well. -/
theorem readWord_spec (n : Nat) (h : Ended p) : readWord n p = .ok () := by
  induction n generalizing p with
  | zero => rfl
  | succ n ih =>
    cases p with
    | nil => exact absurd rfl h.ne_nil
    | cons b p =>
      unfold readWord
      split
      · rfl
      · next hb => exact ih (h.tail hb)

end Words

/-! ## The end of a tag and of a value -/

section Closed

variable {p : Place} {dlm : UInt8}

theorem skipTag_of_mem (h : Ended p) (hmem : 62 ∈ p) :
    ∃ q, skipTag p = .ok q ∧ q <:+ p ∧ Ended q ∧ q.length < p.length := by
  fun_induction skipTag p with
  | case1 => exact absurd rfl h.ne_nil
  | case2 b p hb ih =>
    obtain ⟨q, hq, hsuffix, hended, hlen⟩ := ih (h.of_suffix (List.suffix_cons b p) hb.2)
      ((List.mem_cons.mp hmem).resolve_left fun heq => hb.1 heq.symm)
    exact ⟨q, hq, hsuffix.trans (List.suffix_cons b p), hended, Nat.lt_succ_of_lt hlen⟩
  | case3 b p hb =>
    have hb62 : b = 62 := by
      by_contra hne
      have hnil : p = [] := by
        by_contra hcons
        exact hb ⟨hne, hcons⟩
      rw [hnil, List.mem_singleton] at hmem
      exact hne hmem.symm
    have hended := h.tail (by rw [hb62]; decide)
    obtain ⟨c, rest, rfl⟩ := List.exists_cons_of_ne_nil hended.ne_nil
    exact ⟨c :: rest, rfl, List.suffix_cons b _, hended, Nat.lt_succ_self _⟩

theorem skipTag_of_notMem (hmem : 62 ∉ p) : skipTag p = .error .fault := by
  fun_induction skipTag p with
  | case1 => rfl
  | case2 b p hb ih => exact ih fun h => hmem (List.mem_cons_of_mem _ h)
  | case3 b p hb =>
    have hnil : p = [] := by
      by_contra hcons
      exact hb ⟨fun heq => hmem (heq ▸ List.mem_cons_self), hcons⟩
    rw [hnil]
    rfl

theorem closeValue_of_mem (hdlm : dlm ≠ 0) (h : Ended p) (hmem : dlm ∈ p) :
    ∃ r, closeValue dlm p = .ok r ∧ r.2 <:+ p ∧ Ended r.2 := by
  induction p with
  | nil => exact absurd rfl h.ne_nil
  | cons b p ih =>
    unfold closeValue
    split
    · next hb => exact ⟨_, rfl, List.suffix_cons b p, h.tail (hb ▸ hdlm)⟩
    · next hb =>
      have hmem' := (List.mem_cons.mp hmem).resolve_left fun heq => hb heq.symm
      obtain ⟨r, hr, hsuffix, hended⟩ :=
        ih (h.of_suffix (List.suffix_cons b p) (List.ne_nil_of_mem hmem')) hmem'
      rw [hr]
      exact ⟨_, rfl, hsuffix.trans (List.suffix_cons b p), hended⟩

theorem closeValue_of_notMem (hmem : dlm ∉ p) : closeValue dlm p = .error .fault := by
  induction p with
  | nil => rfl
  | cons b p ih =>
    unfold closeValue
    rw [if_neg fun heq : b = dlm => hmem (heq ▸ List.mem_cons_self),
      ih fun h => hmem (List.mem_cons_of_mem _ h)]
    rfl

end Closed

/-! ## Values -/

/-- There is a result, or the lexer has thrown. -/
abbrev Fine {α : Type} (r : Lex α) : Prop := Safe (· = Stop.thrown) r

theorem not_fine_fault {α : Type} : ¬ Fine (.error .fault : Lex α) := by
  intro h
  cases h _ rfl

theorem skipTag_spec {p : Place} (h : Ended p) :
    (Fine (skipTag p) ↔ 62 ∈ p) ∧ ∀ q, skipTag p = .ok q → Ended q ∧ q.length < p.length := by
  by_cases hmem : 62 ∈ p
  · obtain ⟨q, hq, -, hended, hlen⟩ := skipTag_of_mem h hmem
    rw [hq]
    refine ⟨iff_of_true (safe_ok _) hmem, fun q' hq' => ?_⟩
    obtain rfl := Except.ok.inj hq'
    exact ⟨hended, hlen⟩
  · rw [skipTag_of_notMem hmem]
    exact ⟨iff_of_false not_fine_fault hmem, fun q hq => by cases hq⟩

/-- A value is opened here, and this is behind its delimiter. -/
def Opens (p : Place) (dlm : UInt8) (q : Place) : Prop :=
  (dlm = 34 ∨ dlm = 39) ∧ skipWS p = .ok (dlm :: q)

section Values

variable {p : Place} {dlm : UInt8}

theorem getQuoted_spec (hdlm : dlm ≠ 0) (h : Ended p) :
    (Fine (getQuoted dlm p) ↔ dlm ∈ p) ∧
      ∀ r, getQuoted dlm p = .ok r → r.2 <:+ p ∧ Ended r.2 := by
  unfold getQuoted
  by_cases hmem : dlm ∈ p
  · obtain ⟨r, hr, hrest⟩ := closeValue_of_mem hdlm h hmem
    rw [hr]
    refine ⟨iff_of_true (safe_ok _) hmem, fun r' hr' => ?_⟩
    obtain rfl := Except.ok.inj hr'
    exact hrest
  · rw [closeValue_of_notMem hmem]
    exact ⟨iff_of_false not_fine_fault hmem, fun r hr => by cases hr⟩

theorem getValue_spec (h : Ended p) :
    (Fine (getValue p) ↔ ∀ dlm q, Opens p dlm q → dlm ∈ q) ∧
      ∀ r, getValue p = .ok r → r.2 <:+ p ∧ Ended r.2 := by
  obtain ⟨q, hq, hsuffix, hended⟩ := skipWS_spec h
  obtain ⟨b, q, rfl⟩ := List.exists_cons_of_ne_nil hended.ne_nil
  have hopens : ∀ dlm q', Opens p dlm q' ↔ (dlm = 34 ∨ dlm = 39) ∧ b = dlm ∧ q = q' := by
    intro dlm q'
    unfold Opens
    rw [hq, Except.ok.injEq, List.cons.injEq]
  have hback : ∀ {r : Option CStr × Place}, r.2 <:+ q ∧ Ended r.2 → r.2 <:+ p ∧ Ended r.2 :=
    fun hr => ⟨(hr.1.trans (List.suffix_cons b q)).trans hsuffix, hr.2⟩
  simp only [hopens]
  unfold getValue
  rw [hq]
  simp only [Except.bind, getChar_eq]
  by_cases h34 : b = 34
  · obtain ⟨hfine, hresult⟩ := getQuoted_spec (by decide : (34 : UInt8) ≠ 0)
      (hended.tail (by rw [h34]; decide))
    rw [if_pos h34]
    refine ⟨hfine.trans ⟨?_, fun hall => hall 34 q ⟨.inl rfl, h34, rfl⟩⟩,
      fun r hr => hback (hresult r hr)⟩
    intro hmem dlm q' hopen
    obtain ⟨-, rfl, rfl⟩ := hopen
    rwa [h34]
  · rw [if_neg h34]
    by_cases h39 : b = 39
    · obtain ⟨hfine, hresult⟩ := getQuoted_spec (by decide : (39 : UInt8) ≠ 0)
        (hended.tail (by rw [h39]; decide))
      simp only [if_pos h39]
      refine ⟨hfine.trans ⟨?_, fun hall => hall 39 q ⟨.inr rfl, h39, rfl⟩⟩,
        fun r hr => hback (hresult r hr)⟩
      intro hmem dlm q' hopen
      obtain ⟨-, rfl, rfl⟩ := hopen
      rwa [h39]
    · simp only [if_neg h39]
      refine ⟨iff_of_true (safe_ok _) ?_, fun r hr => ?_⟩
      · intro dlm q' hopen
        obtain ⟨hdlm, rfl, -⟩ := hopen
        obtain hdlm | hdlm := hdlm
        · exact absurd hdlm h34
        · exact absurd hdlm h39
      · obtain rfl := Except.ok.inj hr
        exact ⟨hsuffix, hended⟩

end Values

/-! ## Attribute lists -/

/-- The names that are looked for. -/
def Named (names : List CStr) : Prop := ∀ w ∈ names, 0 ∉ w ∧ w ≠ []

/-- A round opens a value: there is a name, an equals sign, and the delimiter. -/
def OpensValue (st : List Attr × Place) (dlm : UInt8) (q : Place) : Prop :=
  ∃ p c n p₁ p₂ p₃, skipWS st.2 = .ok p ∧ deref p = .ok c ∧ isalpha c = true ∧
    findAttr p 0 st.1 = .ok (some (n, p₁)) ∧ skipWS p₁ = .ok p₂ ∧
    getChar 61 p₂ = .ok (some p₃) ∧ Opens p₃ dlm q

section Attrs

variable {attrs : List Attr} {st : List Attr × Place} {p : Place}

theorem findAttr_spec (hnames : Named (attrs.map Attr.name)) (h : Ended p) (n : Nat) :
    ∃ found, findAttr p n attrs = .ok found ∧
      ∀ r ∈ found, r.2 <:+ p ∧ Ended r.2 ∧ r.2.length < p.length := by
  induction attrs generalizing n with
  | nil => exact ⟨none, rfl, fun r hr => by cases hr⟩
  | cons a attrs ih =>
    obtain ⟨⟨hzero, hne⟩, hrest⟩ := List.forall_mem_cons.mp hnames
    obtain ⟨found, hfound, hlater⟩ := ih hrest (n + 1)
    unfold findAttr
    split
    · exact ⟨found, hfound, hlater⟩
    · obtain ⟨word, hword, hafter⟩ := getWord_spec (zeroless_fold hzero) h
      rw [hword]
      cases word with
      | none => exact ⟨found, hfound, hlater⟩
      | some q =>
        refine ⟨some (n, q), rfl, fun r hr => ?_⟩
        obtain rfl := Option.some.inj hr
        have hq := hafter q rfl
        have hlen := hq.length
        have hpos := List.length_pos_iff.mpr hne
        refine ⟨hq.suffix, hq.ended, ?_⟩
        show q.length < p.length
        omega

/-- What a round can do: it ends the loop, throws, or reads a value. -/
theorem attrRound_cases (hnames : Named (st.1.map Attr.name)) (h : Ended st.2) :
    (∃ p, attrRound st = .ok (.inr (st.1, p)) ∧ p <:+ st.2 ∧ Ended p ∧
      ∀ dlm q, ¬ OpensValue st dlm q) ∨
    (attrRound st = .error .thrown ∧ ∀ dlm q, ¬ OpensValue st dlm q) ∨
    ∃ n p, attrRound st = (getValue p).map (fun r => .inl (setAttr st.1 n r.1, r.2)) ∧
      p <:+ st.2 ∧ Ended p ∧ p.length < st.2.length ∧
      ∀ dlm q, OpensValue st dlm q ↔ Opens p dlm q := by
  obtain ⟨p, hp, hsuffix, hended⟩ := skipWS_spec h
  obtain ⟨c, p, rfl⟩ := List.exists_cons_of_ne_nil hended.ne_nil
  have hp' : ∀ {p'}, skipWS st.2 = .ok p' → p' = c :: p :=
    fun h' => Except.ok.inj (h'.symm.trans hp)
  unfold attrRound
  rw [hp]
  simp only [Except.bind, deref_cons]
  by_cases halpha : isalpha c = true
  swap
  · refine .inl ⟨c :: p, by rw [if_neg halpha], hsuffix, hended, ?_⟩
    intro dlm q hopen
    obtain ⟨p', c', n, p₁, p₂, p₃, h₁, h₂, h₃, -⟩ := hopen
    obtain rfl := hp' h₁
    obtain rfl := Except.ok.inj h₂
    exact halpha h₃
  rw [if_pos halpha]
  obtain ⟨found, hfound, hname⟩ := findAttr_spec hnames hended 0
  rw [hfound]
  cases found with
  | none =>
    refine .inr (.inl ⟨by simp [readWord_spec 20 hended], ?_⟩)
    intro dlm q hopen
    obtain ⟨p', c', n, p₁, p₂, p₃, h₁, -, -, h₄, -⟩ := hopen
    obtain rfl := hp' h₁
    cases hfound.symm.trans h₄
  | some r =>
    obtain ⟨n, p₁⟩ := r
    obtain ⟨hsuffix₁, hended₁, hlen₁⟩ := hname _ rfl
    obtain ⟨p₂, hp₂, hsuffix₂, hended₂⟩ := skipWS_spec hended₁
    obtain ⟨eq, heq, hbehind⟩ := getChar_spec (by decide : (61 : UInt8) ≠ 0) hended₂
    have hback : ∀ {dlm q}, OpensValue st dlm q → ∃ p₃, eq = some p₃ ∧ Opens p₃ dlm q := by
      intro dlm q hopen
      obtain ⟨p', c', n', p₁', p₂', p₃, h₁, -, -, h₄, h₅, h₆, h₇⟩ := hopen
      obtain rfl := hp' h₁
      obtain ⟨-, rfl⟩ := Prod.mk.inj (Option.some.inj (Except.ok.inj (h₄.symm.trans hfound)))
      obtain rfl := Except.ok.inj (h₅.symm.trans hp₂)
      exact ⟨p₃, Except.ok.inj (heq.symm.trans h₆), h₇⟩
    simp only [hp₂, heq]
    cases eq with
    | none =>
      refine .inr (.inl ⟨rfl, fun dlm q hopen => ?_⟩)
      obtain ⟨p₃, hnone, -⟩ := hback hopen
      cases hnone
    | some p₃ =>
      obtain ⟨rfl, hended₃⟩ := hbehind p₃ rfl
      have hlen₂ := hsuffix₂.length_le
      rw [List.length_cons] at hlen₂
      have hlen := hsuffix.length_le
      refine .inr (.inr ⟨n, p₃, rfl, ?_, hended₃, by omega, fun dlm q => ⟨fun hopen => ?_, ?_⟩⟩)
      · exact (((List.suffix_cons 61 p₃).trans hsuffix₂).trans hsuffix₁).trans hsuffix
      · obtain ⟨p₃', hsome, hopens⟩ := hback hopen
        obtain rfl := Option.some.inj hsome
        exact hopens
      · intro hopens
        exact ⟨_, c, n, p₁, _, p₃, hp, rfl, halpha, hfound, hp₂, heq, hopens⟩

theorem attrRound_fine_iff (hnames : Named (st.1.map Attr.name)) (h : Ended st.2) :
    Fine (attrRound st) ↔ ∀ dlm q, OpensValue st dlm q → dlm ∈ q := by
  obtain ⟨p, heq, -, -, hnot⟩ | ⟨heq, hnot⟩ | ⟨n, p, heq, -, hended, -, hiff⟩ :=
    attrRound_cases hnames h
  · rw [heq]
    exact iff_of_true (safe_ok _) fun dlm q hopen => absurd hopen (hnot dlm q)
  · rw [heq]
    exact iff_of_true ((safe_error_iff _).mpr rfl) fun dlm q hopen => absurd hopen (hnot dlm q)
  · rw [heq]
    refine safe_map_iff.trans ((getValue_spec hended).1.trans ?_)
    simp only [hiff]

theorem setAttr_names (attrs : List Attr) (n : Nat) (value : Option CStr) :
    (setAttr attrs n value).map Attr.name = attrs.map Attr.name := by
  unfold setAttr
  refine List.ext_getElem? fun i => ?_
  rw [List.getElem?_map, List.getElem?_map, List.getElem?_modify]
  cases attrs[i]? with
  | none => rfl
  | some a => by_cases hi : n = i <;> simp [hi]

/-- What holds as long as the attributes of the text `cur` are read. -/
structure AttrInv (names : List CStr) (cur : Place) (st : List Attr × Place) : Prop where
  names : st.1.map Attr.name = names
  suffix : st.2 <:+ cur
  ended : Ended st.2

theorem AttrInv.step {names : List CStr} {cur : Place} {st' : List Attr × Place}
    (hnames : Named names) (h : AttrInv names cur st) (hstep : attrRound st = .ok (.inl st')) :
    AttrInv names cur st' ∧ st'.2.length < st.2.length := by
  obtain ⟨p, heq, -⟩ | ⟨heq, -⟩ | ⟨n, p, heq, hsuffix, hended, hlen, -⟩ :=
    attrRound_cases (h.names ▸ hnames) h.ended
  · rw [heq] at hstep
    cases hstep
  · rw [heq] at hstep
    cases hstep
  · rw [heq] at hstep
    obtain ⟨r, hvalue, hnext⟩ := map_eq_ok.mp hstep
    obtain rfl := Sum.inl.inj hnext
    obtain ⟨hsuffix', hended'⟩ := (getValue_spec hended).2 r hvalue
    refine ⟨⟨(setAttr_names _ _ _).trans h.names, (hsuffix'.trans hsuffix).trans h.suffix,
      hended'⟩, ?_⟩
    have := hsuffix'.length_le
    show r.2.length < _
    omega

theorem AttrInv.last {names : List CStr} {cur : Place} {r : List Attr × Place}
    (hnames : Named names) (h : AttrInv names cur st) (hstep : attrRound st = .ok (.inr r)) :
    r.2 <:+ cur ∧ Ended r.2 := by
  obtain ⟨p, heq, hsuffix, hended, -⟩ | ⟨heq, -⟩ | ⟨n, p, heq, -⟩ :=
    attrRound_cases (h.names ▸ hnames) h.ended
  · rw [heq] at hstep
    obtain rfl := Sum.inr.inj (Except.ok.inj hstep)
    exact ⟨hsuffix.trans h.suffix, hended⟩
  · rw [heq] at hstep
    cases hstep
  · rw [heq] at hstep
    obtain ⟨r, -, hnext⟩ := map_eq_ok.mp hstep
    cases hnext

end Attrs

/-! ## The end of an attribute list -/

/-- The loop over the attributes. -/
def attrLoop (names : List CStr) (cur : Place) : Lex (List Attr × Place) :=
  rounds .outOfFuel attrRound (cur.length + 1) (names.map (⟨·, none⟩), cur)

/-- The list ends with something else, and this is what is shown of it. -/
def BadEnd (tag : CStr) (p q : Place) : Prop :=
  ¬ lit "/>" <+: p ∧ p.head? ≠ some 62 ∧
    ((p = lit "?>" ++ q ∧ tag ≠ lit "?xml") ∨ (¬ lit "?>" <+: p ∧ q = p))

/-- What the message shows of the text. -/
def shown (p : Place) : CStr := (p.take (min 20 (p.length - 1))).takeWhile (· ≠ 0)

section List

variable {names : List CStr} {tag : CStr} {cur p : Place} {junk : Nat}

theorem attrInv_start (names : List CStr) (h : Ended cur) :
    AttrInv names cur (names.map (⟨·, none⟩), cur) := by
  refine ⟨?_, List.suffix_refl _, h⟩
  rw [List.map_map]
  exact List.map_id names

theorem attrInv_reached (hnames : Named names) (h : Ended cur) {st : List Attr × Place}
    (hreach : Reaches attrRound (names.map (⟨·, none⟩), cur) st) : AttrInv names cur st :=
  reaches_inv (fun h hstep => (AttrInv.step hnames h hstep).1) hreach (attrInv_start names h)

/-- The attributes are read exactly if every value that is opened is closed. -/
theorem attrLoop_fine_iff (hnames : Named names) (h : Ended cur) :
    Fine (attrLoop names cur) ↔
      ∀ st, Reaches attrRound (names.map (⟨·, none⟩), cur) st →
        ∀ dlm q, OpensValue st dlm q → dlm ∈ q := by
  refine (rounds_safe_iff (fun st : List Attr × Place => st.2.length) ?_ (Nat.lt_succ_self _)).trans
    (forall₂_congr fun st hreach => ?_)
  · intro st hreach st' hstep
    exact ((attrInv_reached hnames h hreach).step hnames hstep).2
  · have hinv := attrInv_reached hnames h hreach
    exact attrRound_fine_iff (hinv.names ▸ hnames) hinv.ended

theorem attrLoop_spec (hnames : Named names) (h : Ended cur) {r : List Attr × Place}
    (hr : attrLoop names cur = .ok r) : r.2 <:+ cur ∧ Ended r.2 := by
  obtain ⟨st, hreach, hlast⟩ := rounds_eq_ok hr
  exact (attrInv_reached hnames h hreach).last hnames hlast

/-- A string is here, or it is not. -/
theorem getChars_cases {w : CStr} (hw : 0 ∉ w) (h : Ended p) :
    (∃ q, p = w ++ q ∧ Ended q ∧ getChars w p = .ok (some q)) ∨
      (¬ w <+: p ∧ getChars w p = .ok none) := by
  unfold getChars
  rw [begins_eq hw h]
  by_cases hpre : w <+: p
  · obtain ⟨q, rfl⟩ := hpre
    exact .inl ⟨q, rfl, h.of_append hw, by simp [Except.map]⟩
  · exact .inr ⟨hpre, by simp [Except.map, hpre]⟩

theorem getChar_cases {c : UInt8} (hc : c ≠ 0) (h : Ended p) :
    (∃ q, p = c :: q ∧ Ended q ∧ getChar c p = .ok (some q)) ∨
      (p.head? ≠ some c ∧ getChar c p = .ok none) := by
  obtain ⟨b, p, rfl⟩ := List.exists_cons_of_ne_nil h.ne_nil
  rw [getChar_eq]
  by_cases hb : b = c
  · exact .inl ⟨p, by rw [hb], h.tail (hb ▸ hc), by rw [if_pos hb]⟩
  · exact .inr ⟨fun heq => hb (Option.some.inj heq), by rw [if_neg hb]⟩

theorem fine_badAttrs_iff {α : Type} :
    Fine (.error (badAttrs junk p) : Lex α) ↔ (shown p).length ≤ junk ∧ junk ≤ 20 := by
  refine (safe_error_iff _).trans ?_
  show (if (shown p).length ≤ junk ∧ junk ≤ 20 then Stop.thrown else .fault) = .thrown ↔ _
  by_cases hfits : (shown p).length ≤ junk ∧ junk ≤ 20
  · rw [if_pos hfits]
    exact iff_of_true rfl hfits
  · rw [if_neg hfits]
    exact iff_of_false Stop.noConfusion hfits

/-- What `attrsOk` does behind the loop. -/
def closeAttrs (junk : Nat) (tag : CStr) (values : List (Option CStr)) (p : Place) :
    Lex (List (Option CStr) × Bool × Place) :=
  (getChars (lit "/>") p).bind fun
    | some p => .ok (values, true, p)
    | none =>
      (getChar 62 p).bind fun
        | some p => .ok (values, false, p)
        | none =>
          (getChars (lit "?>") p).bind fun
            | some p => if tag = lit "?xml" then .ok (values, true, p) else .error (badAttrs junk p)
            | none => .error (badAttrs junk p)

theorem attrsOk_eq (junk : Nat) (names : List CStr) (tag : CStr) (cur : Place) :
    attrsOk junk names tag cur = (attrLoop names cur).bind fun r =>
      closeAttrs junk tag (r.1.map fun a => a.value.join) r.2 := rfl

/-- The list is closed, or the message is made of what there is instead. -/
theorem closeAttrs_spec (h : Ended p) (values : List (Option CStr)) :
    (Fine (closeAttrs junk tag values p) ↔
      ∀ q, BadEnd tag p q → (shown q).length ≤ junk ∧ junk ≤ 20) ∧
    ∀ r, closeAttrs junk tag values p = .ok r → r.2.2 <:+ p ∧ Ended r.2.2 := by
  have hslash : 0 ∉ lit "/>" := by decide
  have hquestion : 0 ∉ lit "?>" := by decide
  have hclosed : ∀ {q : Place} {empty : Bool}, q <:+ p → Ended q → ∀ r,
      (.ok (values, empty, q) : Lex (List (Option CStr) × Bool × Place)) = .ok r →
        r.2.2 <:+ p ∧ Ended r.2.2 := by
    intro q empty hsuffix hended r hr
    obtain rfl := Except.ok.inj hr
    exact ⟨hsuffix, hended⟩
  unfold closeAttrs
  obtain ⟨q, rfl, hq, hfound⟩ | ⟨hno, hfound⟩ := getChars_cases hslash h
  · rw [hfound]
    exact ⟨iff_of_true (safe_ok _) fun q' hbad => absurd (List.prefix_append _ _) hbad.1,
      hclosed (List.suffix_append _ _) hq⟩
  obtain ⟨q, rfl, hq, hchar⟩ | ⟨hnochar, hchar⟩ := getChar_cases (by decide : (62 : UInt8) ≠ 0) h
  · rw [hfound]
    simp only [Except.bind, hchar]
    exact ⟨iff_of_true (safe_ok _) fun q' hbad => absurd rfl hbad.2.1,
      hclosed (List.suffix_cons _ _) hq⟩
  rw [hfound]
  simp only [Except.bind, hchar]
  obtain ⟨q, rfl, hq, hxml⟩ | ⟨hnoxml, hxml⟩ := getChars_cases hquestion h
  · simp only [hxml]
    by_cases htag : tag = lit "?xml"
    · rw [if_pos htag]
      refine ⟨iff_of_true (safe_ok _) fun q' hbad => ?_, hclosed (List.suffix_append _ _) hq⟩
      obtain ⟨-, -, hbad | hbad⟩ := hbad
      · exact absurd htag hbad.2
      · exact absurd (List.prefix_append _ _) hbad.1
    · rw [if_neg htag]
      refine ⟨fine_badAttrs_iff.trans ⟨fun hfits q' hbad => ?_, fun hall => ?_⟩, fun r hr => by
        cases hr⟩
      · obtain ⟨-, -, hbad | hbad⟩ := hbad
        · obtain rfl := List.append_cancel_left hbad.1
          exact hfits
        · exact absurd (List.prefix_append _ _) hbad.1
      · exact hall q ⟨hno, hnochar, .inl ⟨rfl, htag⟩⟩
  · simp only [hxml]
    refine ⟨fine_badAttrs_iff.trans ⟨fun hfits q' hbad => ?_, fun hall => ?_⟩, fun r hr => by
      cases hr⟩
    · obtain ⟨-, -, hbad | hbad⟩ := hbad
      · exact absurd ⟨q', hbad.1.symm⟩ hnoxml
      · rwa [hbad.2]
    · exact hall p ⟨hno, hnochar, .inr ⟨hnoxml, rfl⟩⟩

/-- An attribute list. -/
theorem attrsOk_fine_iff (hnames : Named names) (h : Ended cur) :
    Fine (attrsOk junk names tag cur) ↔
      (∀ st, Reaches attrRound (names.map (⟨·, none⟩), cur) st →
        ∀ dlm q, OpensValue st dlm q → dlm ∈ q) ∧
      ∀ r, attrLoop names cur = .ok r →
        ∀ q, BadEnd tag r.2 q → (shown q).length ≤ junk ∧ junk ≤ 20 := by
  rw [attrsOk_eq]
  refine safe_bind_iff.trans (and_congr (attrLoop_fine_iff hnames h)
    (forall₂_congr fun r hr => ?_))
  exact (closeAttrs_spec (attrLoop_spec hnames h hr).2 _).1

theorem attrsOk_spec (hnames : Named names) (h : Ended cur)
    {r : List (Option CStr) × Bool × Place} (hr : attrsOk junk names tag cur = .ok r) :
    r.2.2 <:+ cur ∧ Ended r.2.2 := by
  rw [attrsOk_eq] at hr
  obtain ⟨st, hloop, hclose⟩ := bind_eq_ok.mp hr
  obtain ⟨hsuffix, hended⟩ := attrLoop_spec hnames h hloop
  obtain ⟨hsuffix', hended'⟩ := (closeAttrs_spec hended _).2 r hclose
  exact ⟨hsuffix'.trans hsuffix, hended'⟩

end List

end Sfcb.CimXml.Lexer
