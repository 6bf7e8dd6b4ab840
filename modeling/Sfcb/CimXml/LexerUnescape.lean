import Sfcb.CimXml.LexerScans

/-!
# Unescaping in the buffer

The loop that replaces references moves what is behind them, in a text that ends where the
lexer has found the end of a content or of an embedded object. What is searched is not told
where that is: `strchr` goes on to the next zero of the buffer.

A call stays in the buffer and in `escchar` exactly if what follows the `&` fits, up to the end
of the buffer. And what it replaces is in the text all the same: the end is a zero, which no
reference has, or a tag that is longer than references are. So the text only gets shorter, the
buffer keeps its length and its last zero, and `unescapeAll_fine_iff` follows.
-/

namespace Sfcb.CimXml.Lexer

open Sfcb.Lib Sfcb.Lib.Rounds

/-! ## A call -/

section Calls

variable {c : UInt8} {u w rest : CStr} {len : Nat}

/-- Where the text ends does not matter to what is found: nothing is done, or a reference that is
near is replaced. -/
theorem xmlUnescapeAt_cases (c : UInt8) (u : CStr) :
    (∃ log, ∀ len, xmlUnescapeAt (38 :: (c :: u) ++ [0]) len = ⟨log, 38 :: (c :: u) ++ [0], 0⟩) ∨
    ∃ log b d w rest, (∀ len, xmlUnescapeAt (38 :: (c :: u) ++ [0]) len =
        replaceBy log (38 :: (c :: u) ++ [0]) len b d) ∧
      u = w ++ 59 :: rest ∧ 0 ∉ c :: w ∧ w.length ≤ 8 ∧ 3 ≤ d ∧ d ≤ w.length + 3 := by
  have hdrop : (38 :: (c :: u) ++ [0]).drop 2 = u ++ [0] := rfl
  unfold xmlUnescapeAt
  simp only [hdrop]
  cases hi : strchrAt (u ++ [0]) 59 with
  | none => exact .inl ⟨_, fun len => rfl⟩
  | some i =>
    obtain ⟨w, rest, rfl, rfl, hw⟩ := strchrAt_eq_some hi (by decide)
    have hzero : 0 ∉ w := fun h => (hw 0 h).2 rfl
    dsimp only
    by_cases hany : (strchrAt (w ++ 59 :: rest ++ [0]) 38).any (· < w.length) = true
    · exact .inl ⟨_, fun len => by rw [if_pos hany]⟩
    simp only [if_neg hany]
    by_cases hlong : w.length + 2 > 10
    · exact .inl ⟨_, fun len => by rw [if_pos hlong]⟩
    simp only [if_neg hlong]
    by_cases hhash : (38 :: (c :: (w ++ 59 :: rest)) ++ [0])[1]? = some 35
    · obtain rfl : c = 35 := Option.some.inj hhash
      have hcopied : strncpyTaken (w ++ 59 :: rest ++ [0]) w.length = w := by
        rw [List.append_assoc]
        exact strncpyTaken_append hzero
      have hno : (0 : UInt8) ∉ 35 :: w := by
        rw [List.mem_cons]
        exact fun h => h.elim (by decide) hzero
      simp only [if_pos hhash, hcopied]
      cases scanReference w with
      | failed => exact .inl ⟨_, fun len => rfl⟩
      | eof =>
        exact .inr ⟨_, _, _, w, rest, fun len => rfl, rfl, hno, by omega, by omega, by omega⟩
      | value n =>
        exact .inr ⟨_, _, _, w, rest, fun len => rfl, rfl, hno, by omega, by omega, by omega⟩
    simp only [if_neg hhash]
    cases hfind : xmlEscapeTab.find? fun e => strncmp
        (strncpyTaken (38 :: (c :: (w ++ 59 :: rest)) ++ [0]) (w.length + 3)) e.escaped e.len = 0 with
    | none => exact .inl ⟨_, fun len => rfl⟩
    | some e =>
      obtain ⟨-, hle, -⟩ := xmlEscapeTab_le hfind
      have hthree : ∀ e ∈ xmlEscapeTab, 3 ≤ e.len := by decide
      have hc : c ≠ 0 := by
        rintro rfl
        have hamp : strncpyTaken (38 :: (0 :: (w ++ 59 :: rest)) ++ [0]) (w.length + 3) = [38] := rfl
        have hnone : xmlEscapeTab.find? (fun e => strncmp [38] e.escaped e.len = 0) = none := by
          decide
        rw [hamp, hnone] at hfind
        cases hfind
      have hno : 0 ∉ c :: w := by
        rw [List.mem_cons]
        exact fun h => h.elim (fun heq => hc heq.symm) hzero
      exact .inr ⟨_, _, _, w, rest, fun len => rfl, rfl, hno, by omega,
        hthree e (List.mem_of_find?_eq_some hfind), hle⟩

theorem inside_iff {size : Nat} {a : Access} : Inside (size + 1) a = true ↔ a.InRange size := by
  cases a <;> simp [Inside, Access.InRange]

/-- The eleven bytes of a name that does not fit. -/
theorem writeLocal_mem_log (hc : c ≠ 35) (hlen : w.length = 8)
    (hw : ∀ b ∈ w, b ≠ 59 ∧ b ≠ 38 ∧ b ≠ 0) (mem : CStr) (n : Nat)
    (hmem : mem = 38 :: (c :: (w ++ 59 :: rest)) ++ [0]) :
    Access.writeLocal 0 11 ∈ (xmlUnescapeAt mem n).log := by
  have hdrop : mem.drop 2 = w ++ 59 :: (rest ++ [0]) := by
    rw [hmem]
    simp
  have hbyte : ¬ mem[1]? = some 35 := by
    rw [hmem]
    exact fun h => hc (Option.some.inj h)
  have hany : ¬ (strchrAt (w ++ 59 :: (rest ++ [0])) 38).any (· < w.length) = true :=
    fun h => (hw 38 (mem_of_strchrAt h)).2.1 rfl
  unfold xmlUnescapeAt
  simp only [hdrop, strchrAt_append fun b hb => ⟨(hw b hb).1, (hw b hb).2.2⟩, if_neg hany,
    if_neg hbyte]
  rw [if_neg (by omega), hlen]
  split <;> simp [replaceBy]

/-- A call stays in the buffer and in `escchar` exactly if what follows the `&` fits. -/
theorem inside_xmlUnescapeAt_iff (hlen : len ≤ (c :: u).length + 1) :
    (xmlUnescapeAt (38 :: (c :: u) ++ [0]) len).log.all (Inside ((c :: u).length + 2)) = true ↔
      Fits (c :: u) := by
  rw [List.all_eq_true]
  simp only [inside_iff]
  constructor
  · intro hall
    refine ⟨List.cons_ne_nil _ _, ?_⟩
    rintro ⟨c', w, rest, heq, hc, hlen, hw⟩
    have hfault : 0 + 11 ≤ 10 := hall _ (writeLocal_mem_log hc hlen hw _ _ (by rw [heq]; rfl))
    omega
  · intro hfits
    have hfull := ((safe_xmlUnescapeAt c u []).1.mpr hfits).inRange
    obtain ⟨log, hcall⟩ | ⟨log, b, d, w, rest, hcall, -, -, -, hd, -⟩ := xmlUnescapeAt_cases c u
    · rw [hcall] at hfull ⊢
      exact hfull
    · rw [hcall] at hfull ⊢
      intro a ha
      obtain ha | ha := List.mem_append.mp ha
      · exact hfull a (List.mem_append_left _ ha)
      · simp only [List.mem_cons, List.not_mem_nil, or_false] at ha
        obtain rfl | rfl | rfl := ha
        · exact .inr (by omega)
        · by_cases hzero : len + 1 - d = 0
          · exact .inl hzero
          · exact .inr (by omega)
        · exact .inr (by omega)

end Calls

/-! ## The end of the text -/

/-- What is behind the text, before and after references have been replaced in it. -/
structure Walls (pad : Nat → Nat → CStr → CStr) (wall : CStr → Prop) : Prop where
  same : ∀ n mem, pad n 0 mem = mem
  notNil : ¬ wall []
  near : ∀ {s w rest : CStr} {len : Nat}, s = w ++ 59 :: rest → 0 ∉ w → w.length ≤ 9 →
    wall (s.drop len) → w.length < len
  moved : ∀ {log : List Access} {mem : CStr} {len d : Nat} {c : UInt8}, len < mem.length →
    wall (mem.drop len) → 2 ≤ d → d ≤ len →
    wall ((pad (len + 1 - d) (d - 1) (replaceBy log mem len c d).mem).drop (len + 1 - d))
  ends : ∀ {n m : Nat} {mem : CStr}, n + m < mem.length → (pad n m mem).length = mem.length ∧
    (pad n m mem).getLast? = mem.getLast?

/-- A content ends with a zero. -/
def AtZero (p : Place) : Prop := p.head? = some 0

/-- An embedded object ends with a tag, and with blanks in front of it. -/
def AtTag (p : Place) : Prop := ∃ k, List.replicate k 32 ++ lit "</PARAMVALUE" <+: p

section Walls

variable {log : List Access} {mem : CStr} {len d n m : Nat} {c : UInt8}

theorem replaceBy_front (hlen : len < mem.length) (hle : d ≤ len) :
    (c :: (mem.drop d).take (len + 1 - d)).length = len + 2 - d := by
  simp only [List.length_cons, List.length_take, List.length_drop]
  omega

theorem replaceBy_length (hlen : len < mem.length) (hd : 1 ≤ d) (hle : d ≤ len) :
    (replaceBy log mem len c d).mem.length = mem.length := by
  show (c :: (mem.drop d).take (len + 1 - d) ++ mem.drop (len + 2 - d)).length = _
  rw [List.length_append, replaceBy_front hlen hle, List.length_drop]
  omega

/-- What is behind the text stays where it is. -/
theorem replaceBy_drop (hlen : len < mem.length) (hd : 2 ≤ d) (hle : d ≤ len) :
    (replaceBy log mem len c d).mem.drop len = mem.drop len := by
  show (c :: (mem.drop d).take (len + 1 - d) ++ mem.drop (len + 2 - d)).drop len = _
  rw [List.drop_append, replaceBy_front hlen hle, List.drop_drop,
    List.drop_of_length_le (by rw [replaceBy_front hlen hle]; omega), List.nil_append]
  congr 1
  omega

/-- And its first byte has been moved with the text. -/
theorem replaceBy_head (hlen : len < mem.length) (hle : d ≤ len) :
    ((replaceBy log mem len c d).mem.drop (len + 1 - d)).head? = (mem.drop len).head? := by
  obtain ⟨k, rfl⟩ := Nat.exists_eq_add_of_le hle
  show ((c :: (mem.drop d).take (d + k + 1 - d) ++ mem.drop (d + k + 2 - d)).drop
    (d + k + 1 - d)).head? = _
  have hk : d + k + 1 - d = k + 1 := by omega
  rw [List.head?_drop, List.head?_drop, hk, List.getElem?_append_left, List.getElem?_cons_succ,
    List.getElem?_take_of_succ, List.getElem?_drop]
  · rw [← hk, replaceBy_front hlen hle]
    omega

theorem replaceBy_last (hlen : len < mem.length) (hd : 2 ≤ d) (hle : d ≤ len) :
    (replaceBy log mem len c d).mem.getLast? = mem.getLast? := by
  have hdrop := congrArg List.getLast? (@replaceBy_drop log mem len d c hlen hd hle)
  rw [List.getLast?_drop, List.getLast?_drop, replaceBy_length hlen (by omega) hle,
    if_neg (by omega), if_neg (by omega)] at hdrop
  exact hdrop

theorem walls_content : Walls (fun _ _ mem => mem) AtZero where
  same _ _ := rfl
  notNil h := by cases h
  near {s w rest len} hs hzero _ hwall := by
    by_contra hge
    unfold AtZero at hwall
    rw [List.head?_drop, hs] at hwall
    obtain hlt | heq := Nat.lt_or_eq_of_le (Nat.le_of_not_lt hge)
    · rw [List.getElem?_append_left hlt] at hwall
      exact hzero (List.mem_of_getElem? hwall)
    · rw [heq, List.getElem?_append_right (Nat.le_refl _), Nat.sub_self] at hwall
      cases hwall
  moved hlen hwall _ hle := (replaceBy_head hlen hle).trans hwall
  ends _ := ⟨rfl, rfl⟩

theorem walls_embedded : Walls blankOut AtTag where
  same n mem := by simp [blankOut]
  notNil h := by
    obtain ⟨k, hk⟩ := h
    have hlit : lit "</PARAMVALUE" ≠ [] := by decide
    exact hlit (List.append_eq_nil_iff.mp (List.prefix_nil.mp hk)).2
  near {s w rest len} hs _ hlong hwall := by
    by_contra hge
    obtain ⟨k, q, hq⟩ := hwall
    have hlit : (lit "</PARAMVALUE").length = 12 ∧ 59 ∉ lit "</PARAMVALUE" := by decide
    have hbyte : (s.drop len)[w.length - len]? = some 59 := by
      rw [List.getElem?_drop, hs, Nat.add_sub_cancel' (Nat.le_of_not_lt hge)]
      simp
    rw [← hq, List.getElem?_append_left (by simp [hlit.1]; omega)] at hbyte
    obtain hmem | hmem := List.mem_append.mp (List.mem_of_getElem? hbyte)
    · cases (List.eq_of_mem_replicate hmem)
    · exact hlit.2 hmem
  moved {log mem len d c} hlen hwall hd hle := by
    obtain ⟨k, q, hq⟩ := hwall
    have hend : len + 1 - d + (d - 1) = len := by omega
    have hfront : ((replaceBy log mem len c d).mem.take (len + 1 - d)).length = len + 1 - d := by
      rw [List.length_take, replaceBy_length hlen (by omega) hle]
      omega
    have hblank : (blankOut (len + 1 - d) (d - 1) (replaceBy log mem len c d).mem).drop
        (len + 1 - d) = List.replicate (d - 1) 32 ++ mem.drop len := by
      unfold blankOut
      rw [hend, replaceBy_drop hlen hd hle, List.append_assoc]
      exact List.drop_left' hfront
    refine ⟨d - 1 + k, q, ?_⟩
    rw [hblank, ← hq, ← List.replicate_append_replicate, List.append_assoc, List.append_assoc,
      List.append_assoc]
  ends {n m mem} hlen := by
    unfold blankOut
    constructor
    · simp only [List.length_append, List.length_take, List.length_replicate, List.length_drop]
      omega
    · rw [List.getLast?_append_of_ne_nil, List.getLast?_drop, if_neg (by omega)]
      rw [Ne, List.drop_eq_nil_iff]
      omega

end Walls

/-! ## The loop -/

/-- What holds as long as references are replaced. -/
structure Text (wall : CStr → Prop) (total : Nat) (st : CStr × CStr × Nat) : Prop where
  total : st.1.length + st.2.1.length = total
  ended : Ended st.2.1
  wall : wall (st.2.1.drop st.2.2)

/-- A reference is looked for here, and this is behind the `&`. -/
def AtAmp (st : CStr × CStr × Nat) (s : CStr) : Prop := st.2.1 = 38 :: s ∧ 0 < st.2.2

/-- The references that are looked at in a text. -/
def References (pad : Nat → Nat → CStr → CStr) (mem : CStr) (len : Nat) (s : CStr) : Prop :=
  ∃ st, Reaches (unescapeRound pad) ([], mem, len) st ∧ AtAmp st s

section Loop

variable {pad : Nat → Nat → CStr → CStr} {wall : CStr → Prop} {total : Nat}
  {st : CStr × CStr × Nat}

theorem Text.inside (hpad : Walls pad wall) (h : Text wall total st) : st.2.2 < st.2.1.length := by
  by_contra hge
  have hwall := h.wall
  rw [List.drop_of_length_le (Nat.le_of_not_lt hge)] at hwall
  exact hpad.notNil hwall

/-- A call at an `&`, with `len` bytes of the text behind it. -/
theorem unescapeRound_amp {done s : CStr} {len : Nat} {out : Unescaped}
    (hcall : xmlUnescapeAt (38 :: s) (len + 1) = out) :
    unescapeRound pad (done, 38 :: s, len + 1) =
      if out.log.all (Inside (s.length + 1)) ∧ out.removed ≤ len then
        .ok (.inl (done ++ (pad (len + 1 - out.removed) out.removed out.mem).take 1,
          (pad (len + 1 - out.removed) out.removed out.mem).tail, len - out.removed))
      else .error .fault := by
  subst hcall
  unfold unescapeRound
  exact if_pos rfl

/-- The next round begins behind the byte that is there now. -/
theorem Text.next {done mem mem' : CStr} {len n : Nat} (h : Text wall total (done, mem, len))
    (hlong : 1 < mem.length) (hlength : mem'.length = mem.length)
    (hlast : mem'.getLast? = mem.getLast?) (hwall : wall (mem'.drop (n + 1))) :
    Text wall total (done ++ mem'.take 1, mem'.tail, n) := by
  have hne : mem' ≠ [] := List.length_pos_iff.mp (by omega)
  obtain ⟨b, rest, rfl⟩ := List.exists_cons_of_ne_nil hne
  rw [List.length_cons] at hlength
  refine ⟨?_, ?_, hwall⟩
  · have htotal : done.length + mem.length = total := h.total
    show (done ++ [b]).length + rest.length = total
    rw [List.length_append, List.length_singleton]
    omega
  · have hended : Ended (b :: rest) := hlast.trans h.ended
    have hpos : 0 < rest.length := by omega
    exact hended.of_suffix (List.suffix_cons b rest) (List.length_pos_iff.mp hpos)

/-- What a round can do: it ends the loop, looks at a reference that does not fit, or goes on. -/
theorem unescapeRound_cases (hpad : Walls pad wall) (h : Text wall total st) :
    (st.2.2 = 0 ∧ unescapeRound pad st = .ok (.inr (st.1 ++ st.2.1))) ∨
    (∃ s, AtAmp st s ∧ ¬ Fits s.dropLast ∧ unescapeRound pad st = .error .fault) ∨
    ∃ st', unescapeRound pad st = .ok (.inl st') ∧ Text wall total st' ∧ st'.2.2 < st.2.2 ∧
      ∀ s, AtAmp st s → Fits s.dropLast := by
  have hinside := h.inside hpad
  obtain ⟨done, mem, len⟩ := st
  cases len with
  | zero => exact .inl ⟨rfl, rfl⟩
  | succ len =>
  obtain ⟨b, s, rfl⟩ := List.exists_cons_of_ne_nil h.ended.ne_nil
  have hshort : len < s.length := Nat.lt_of_succ_lt_succ hinside
  have hlong : 1 < (b :: s).length := by
    rw [List.length_cons]
    omega
  refine .inr ?_
  by_cases hb : b = 38
  swap
  · exact .inr ⟨(done ++ [b], s, len), if_neg hb, h.next hlong rfl rfl h.wall, Nat.lt_succ_self _,
      fun s' hamp => absurd (List.cons.inj hamp.1).1 hb⟩
  subst hb
  have hlast : s.getLast? = some 0 :=
    h.ended.of_suffix (List.suffix_cons 38 s) (List.length_pos_iff.mp (by omega))
  obtain ⟨t, rfl⟩ : ∃ t, s = t ++ [0] := ⟨_, (List.dropLast_append_getLast? _ hlast).symm⟩
  have hamp : ∀ s', AtAmp (done, 38 :: (t ++ [0]), len + 1) s' → s' = t ++ [0] :=
    fun s' hs' => (List.cons.inj hs'.1).2.symm
  by_cases hfits : Fits t
  swap
  · refine .inl ⟨t ++ [0], ⟨rfl, Nat.succ_pos _⟩, by rwa [List.dropLast_concat],
      (unescapeRound_amp rfl).trans (if_neg ?_)⟩
    rintro ⟨hall, -⟩
    cases t with
    | nil =>
      -- the search begins behind the last zero
      cases List.all_eq_true.mp hall _ (search_mem_log _ _)
    | cons c u =>
      rw [List.length_append, List.length_singleton] at hshort hall
      exact hfits ((inside_xmlUnescapeAt_iff (by omega)).mp hall)
  · obtain ⟨c, u, rfl⟩ := List.exists_cons_of_ne_nil hfits.1
    have hsize : (c :: u ++ [0]).length = (c :: u).length + 1 := List.length_append ..
    have hall : (xmlUnescapeAt (38 :: (c :: u) ++ [0]) (len + 1)).log.all
        (Inside ((c :: u ++ [0]).length + 1)) = true := by
      rw [hsize]
      exact (inside_xmlUnescapeAt_iff (by omega)).mpr hfits
    have hfit : ∀ s', AtAmp (done, 38 :: (c :: u ++ [0]), len + 1) s' → Fits s'.dropLast := by
      intro s' hs'
      rwa [hamp s' hs', List.dropLast_concat]
    obtain ⟨log, hcall⟩ | ⟨log, b, d, w, rest, hcall, rfl, hzero, hnear, hpos, hd⟩ :=
      xmlUnescapeAt_cases c u
    · rw [hcall] at hall
      refine .inr ⟨_, (unescapeRound_amp (hcall (len + 1))).trans (if_pos ⟨hall, Nat.zero_le _⟩),
        ?_, Nat.lt_succ_self _, hfit⟩
      rw [hpad.same]
      exact h.next hlong rfl rfl h.wall
    · -- the end of the text is behind the semicolon
      have hbefore := hpad.near (by simp : c :: (w ++ 59 :: rest) ++ [0] = c :: w ++ 59 :: (rest ++ [0]))
        hzero (Nat.succ_le_succ hnear) h.wall
      rw [List.length_cons] at hbefore
      rw [hcall] at hall
      have hle : d - 1 ≤ len := by omega
      refine .inr ⟨_, (unescapeRound_amp (hcall (len + 1))).trans (if_pos ⟨hall, hle⟩),
        ?_, Nat.lt_succ_of_le (Nat.sub_le _ _), hfit⟩
      have hlen : len + 1 < (38 :: (c :: (w ++ 59 :: rest) ++ [0])).length := hinside
      have hlength : (replaceBy log (38 :: (c :: (w ++ 59 :: rest) ++ [0])) (len + 1) b d).mem.length =
          (38 :: (c :: (w ++ 59 :: rest) ++ [0])).length := replaceBy_length hlen (by omega) (by omega)
      have hmoved := @hpad.moved log _ (len + 1) d b hlen h.wall (by omega) (by omega)
      have hends := @hpad.ends (len + 1 - (d - 1)) (d - 1)
        (replaceBy log (38 :: (c :: (w ++ 59 :: rest) ++ [0])) (len + 1) b d).mem (by omega)
      have hnext : len - (d - 1) + 1 = len + 1 + 1 - d := by omega
      have hend : len + 1 - (d - 1) = len + 1 + 1 - d := by omega
      refine h.next hlong (hends.1.trans hlength)
        (hends.2.trans (replaceBy_last hlen (by omega) (by omega))) ?_
      show wall ((pad (len + 1 - (d - 1)) (d - 1) _).drop (len - (d - 1) + 1))
      rw [hnext, hend]
      exact hmoved

/-- A round is safe exactly if the reference that it looks at fits. -/
theorem unescapeRound_fine_iff (hpad : Walls pad wall) (h : Text wall total st) :
    Fine (unescapeRound pad st) ↔ ∀ s, AtAmp st s → Fits s.dropLast := by
  obtain ⟨hend, heq⟩ | ⟨s, hamp, hfits, heq⟩ | ⟨st', heq, -, -, hfits⟩ := unescapeRound_cases hpad h
  · rw [heq]
    refine iff_of_true (safe_ok _) fun s hamp => ?_
    have := hamp.2
    omega
  · rw [heq]
    exact iff_of_false not_fine_fault fun hall => hfits (hall s hamp)
  · rw [heq]
    exact iff_of_true (safe_ok _) hfits

theorem Text.step (hpad : Walls pad wall) (h : Text wall total st) {st' : CStr × CStr × Nat}
    (hstep : unescapeRound pad st = .ok (.inl st')) : Text wall total st' ∧ st'.2.2 < st.2.2 := by
  obtain ⟨-, heq⟩ | ⟨s, -, -, heq⟩ | ⟨next, heq, htext, hless, -⟩ := unescapeRound_cases hpad h
  · cases heq.symm.trans hstep
  · cases heq.symm.trans hstep
  · obtain rfl := Sum.inl.inj (Except.ok.inj (heq.symm.trans hstep))
    exact ⟨htext, hless⟩

/-- The loop gives back all bytes of the buffer. -/
theorem Text.last (hpad : Walls pad wall) (h : Text wall total st) {r : CStr}
    (hstep : unescapeRound pad st = .ok (.inr r)) : r.length = total ∧ Ended r := by
  obtain ⟨-, heq⟩ | ⟨s, -, -, heq⟩ | ⟨next, heq, -⟩ := unescapeRound_cases hpad h
  · obtain rfl := Sum.inr.inj (Except.ok.inj (heq.symm.trans hstep))
    exact ⟨(List.length_append ..).trans h.total, h.ended.append _⟩
  · cases heq.symm.trans hstep
  · cases heq.symm.trans hstep

variable {mem : CStr} {len : Nat}

theorem text_reached (hpad : Walls pad wall) (h : Ended mem) (hwall : wall (mem.drop len))
    (hreach : Reaches (unescapeRound pad) ([], mem, len) st) : Text wall mem.length st :=
  reaches_inv (fun h hstep => (h.step hpad hstep).1) hreach ⟨Nat.zero_add _, h, hwall⟩

/-- Unescaping is safe exactly if every reference that it gets to fits. -/
theorem unescapeAll_fine_iff (hpad : Walls pad wall) (h : Ended mem) (hwall : wall (mem.drop len)) :
    Fine (unescapeAll pad mem len) ↔ ∀ s, References pad mem len s → Fits s.dropLast := by
  refine (rounds_safe_iff (fun st : CStr × CStr × Nat => st.2.2) ?_ (Nat.lt_succ_self _)).trans
    ⟨fun hall s hs => ?_, fun hall st hreach => ?_⟩
  · intro st hreach st' hstep
    exact ((text_reached hpad h hwall hreach).step hpad hstep).2
  · obtain ⟨st, hreach, hamp⟩ := hs
    exact (unescapeRound_fine_iff hpad (text_reached hpad h hwall hreach)).mp (hall st hreach) s hamp
  · refine (unescapeRound_fine_iff hpad (text_reached hpad h hwall hreach)).mpr fun s hamp => ?_
    exact hall s ⟨st, hreach, hamp⟩

theorem unescapeAll_spec (hpad : Walls pad wall) (h : Ended mem) (hwall : wall (mem.drop len))
    {r : CStr} (hr : unescapeAll pad mem len = .ok r) : r.length = mem.length ∧ Ended r := by
  obtain ⟨st, hreach, hlast⟩ := rounds_eq_ok hr
  exact (text_reached hpad h hwall hreach).last hpad hlast

end Loop

/-! ## Contents and embedded objects -/

/-- A content without the blanks around it, and the buffer from its end on. -/
def stripped (content : CStr) (p : Place) : CStr × Place :=
  let start := content.dropWhile fun b => b ≠ 0 ∧ skipped b
  let kept := start.rdropWhile skipped
  (kept, List.replicate (start.length - kept.length) 0 ++ 0 :: p.tail)

section Contents

variable {cur p : Place}

theorem getContent_unescapes (cur : Place) : getContent cur = (scanContent cur).bind fun r =>
    (unescapeAll (fun _ _ mem => mem) ((stripped r.1 r.2).1 ++ (stripped r.1 r.2).2)
      (stripped r.1 r.2).1.length).map fun mem =>
        (mem.takeWhile (· ≠ 0), 0 :: r.2.tail, r.2.headD 0) := rfl

theorem scanContent_spec (h : Ended cur) :
    ∃ r, scanContent cur = .ok r ∧ r.2 <:+ cur ∧ Ended r.2 := by
  induction cur with
  | nil => exact absurd rfl h.ne_nil
  | cons b p ih =>
    unfold scanContent
    split
    · next hb =>
      obtain ⟨r, hr, hsuffix, hended⟩ := ih (h.of_suffix (List.suffix_cons b p) hb.2)
      rw [hr]
      exact ⟨_, rfl, hsuffix.trans (List.suffix_cons b p), hended⟩
    · exact ⟨_, rfl, List.suffix_refl _, h⟩

/-- The end of the content is a zero, and the buffer still ends with one. -/
theorem stripped_spec (content : CStr) (h : Ended p) :
    AtZero (stripped content p).2 ∧ Ended (stripped content p).2 := by
  constructor
  · unfold stripped AtZero
    dsimp only
    rw [List.head?_append, List.head?_replicate]
    split <;> rfl
  · refine Ended.append ?_ _
    obtain ⟨b, p, rfl⟩ := List.exists_cons_of_ne_nil h.ne_nil
    cases p with
    | nil => rfl
    | cons c p =>
      exact (h.of_suffix (List.suffix_cons b _) (List.cons_ne_nil _ _)).append [0]

/-- The references of a content. -/
def ContentReference (cur : Place) (s : CStr) : Prop :=
  ∃ r, scanContent cur = .ok r ∧ References (fun _ _ mem => mem)
    ((stripped r.1 r.2).1 ++ (stripped r.1 r.2).2) (stripped r.1 r.2).1.length s

theorem getContent_fine_iff (h : Ended cur) :
    Fine (getContent cur) ↔ ∀ s, ContentReference cur s → Fits s.dropLast := by
  obtain ⟨r, hr, -, hended⟩ := scanContent_spec h
  obtain ⟨hzero, hended'⟩ := stripped_spec r.1 hended
  have hwall : AtZero (((stripped r.1 r.2).1 ++ (stripped r.1 r.2).2).drop
      (stripped r.1 r.2).1.length) := by
    rwa [List.drop_left]
  have hunescape := unescapeAll_fine_iff walls_content (hended'.append _) hwall
  rw [getContent_unescapes, hr]
  refine (safe_map_iff.trans hunescape).trans ⟨fun hall s hs => ?_, fun hall s hs => ?_⟩
  · obtain ⟨r', hr', href⟩ := hs
    obtain rfl := Except.ok.inj (hr'.symm.trans hr)
    exact hall s href
  · exact hall s ⟨r, hr, hs⟩

/-- Where the pointer is then: at a zero, and what was there is `nulledChar`. -/
theorem getContent_spec {r : CStr × Place × UInt8} (hr : getContent cur = .ok r) (h : Ended cur) :
    ∃ p, r.2 = (0 :: p, r.2.2) ∧ Ended (r.2.2 :: p) ∧ p.length < cur.length := by
  obtain ⟨⟨content, q⟩, hscan, hsuffix, hended⟩ := scanContent_spec h
  obtain ⟨b, p, rfl⟩ := List.exists_cons_of_ne_nil hended.ne_nil
  rw [getContent_unescapes, hscan] at hr
  refine ⟨p, ?_⟩
  obtain ⟨mem, -, rfl⟩ := map_eq_ok.mp hr
  exact ⟨rfl, hended, hsuffix.length_le⟩

/-- The references of an embedded object. -/
def EmbeddedReference (cur : Place) (s : CStr) : Prop :=
  ∃ fin, strstrAt (lit "</PARAMVALUE") cur = .ok (some fin) ∧
    References blankOut cur (cur.length - fin.length) s

theorem unescapeEmbedded_spec (h : Ended cur) :
    (Fine (unescapeEmbedded cur) ↔ ∀ s, EmbeddedReference cur s → Fits s.dropLast) ∧
      ∀ r, unescapeEmbedded cur = .ok r → r.length = cur.length ∧ Ended r := by
  obtain ⟨found, hfound, hspec⟩ := strstrAt_spec (by decide : 0 ∉ lit "</PARAMVALUE") h
  have href : ∀ s, EmbeddedReference cur s ↔
      ∃ fin, found = some fin ∧ References blankOut cur (cur.length - fin.length) s := by
    intro s
    unfold EmbeddedReference
    rw [hfound]
    simp only [Except.ok.injEq]
  simp only [href]
  unfold unescapeEmbedded
  rw [hfound]
  cases found with
  | none =>
    refine ⟨iff_of_true (safe_ok _) fun s hs => ?_, fun r hr => ?_⟩
    · obtain ⟨fin, hfin, -⟩ := hs
      cases hfin
    · obtain rfl := Except.ok.inj hr
      exact ⟨rfl, h⟩
  | some fin =>
    obtain ⟨hsuffix, hprefix, -⟩ := hspec fin rfl
    have hwall : AtTag (cur.drop (cur.length - fin.length)) := by
      rw [← List.suffix_iff_eq_drop.mp hsuffix]
      exact ⟨0, hprefix⟩
    refine ⟨(unescapeAll_fine_iff walls_embedded h hwall).trans ?_, fun r hr =>
      unescapeAll_spec walls_embedded h hwall hr⟩
    simp only [Option.some.injEq, exists_eq_left']

end Contents

end Sfcb.CimXml.Lexer
