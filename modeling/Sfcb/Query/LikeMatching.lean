import Mathlib.Data.List.Infix
import Sfcb.Query.Operand

/-!
# LIKE

`match_re` copies a pattern into a block of its own, without a `%` in front, and cuts off one
at the end. Here this is done on the block, so that it can be said what is written to it:
`match_re_eq` connects it with the matcher of the evaluation.

`match_re_iff` says which subjects and patterns it decides rightly. The pattern `%` makes it
write in front of the block. A pattern with a `%` in front only is looked for with `strstr`,
which finds the first occurrence and not the one at the end.

Mirroring notes:
- The block has `re_len+1` bytes that may be anything: `junk`.
- The outcome `none` is a write outside of the block.
- Patterns have fewer than 2 ^ 31 bytes, as `re_len` is an `int`.
-/

namespace Sfcb.Query.LikeMatching

open Sfcb.Lib

/-- `strcpy(block, s)`. -/
def strcpy (block s : CStr) : Option CStr :=
  if s.length < block.length then some (s ++ 0 :: block.drop (s.length + 1)) else none

/-- `block[i] = '\0'`. -/
def terminate (block : CStr) (i : Int) : Option CStr :=
  if 0 ≤ i ∧ i < block.length then some (block.set i.toNat 0) else none

/-- The string that a block begins with. -/
def stringOf (block : CStr) : CStr := block.takeWhile (· != 0)

def match_re (junk : Nat → UInt8) (str re : CStr) : Option Bool :=
  if re = [] ∨ str = [] then some false
  else
    let str_to_match : CStr := (List.range (re.length + 1)).map junk
    if re.head? = some percent then
      (strcpy str_to_match re.tail).bind fun str_to_match =>
        if re.getLast? = some percent then
          (terminate str_to_match (re.length - 2)).map fun str_to_match =>
            (strstr str (stringOf str_to_match)).isSome
        else
          some (match strstr str (stringOf str_to_match) with
            | some tmp => strcmp tmp (stringOf str_to_match) == 0
            | none => false)
    else
      (strcpy str_to_match re).bind fun str_to_match =>
        if re.getLast? = some percent then
          (terminate str_to_match (re.length - 1)).map fun str_to_match =>
            strncmp str (stringOf str_to_match) (stringOf str_to_match).length == 0
        else some (strcmp str (stringOf str_to_match) == 0)

/-! ## The block -/

section Block

variable {junk : Nat → UInt8} {s : CStr} {n : Nat}

theorem stringOf_append (hs : 0 ∉ s) (rest : CStr) : stringOf (s ++ 0 :: rest) = s := by
  unfold stringOf
  rw [List.takeWhile_append_of_pos, List.takeWhile_cons_of_neg (by simp), List.append_nil]
  intro b hb
  have hne : b ≠ 0 := fun he => hs (he ▸ hb)
  simpa using hne

/-- The copy fits, and cutting off its end leaves the front. -/
theorem strcpy_spec (h : s.length ≤ n) : ∃ rest,
    strcpy ((List.range (n + 1)).map junk) s = some (s ++ 0 :: rest) := by
  unfold strcpy
  rw [if_pos (by rw [List.length_map, List.length_range]; omega)]
  exact ⟨_, rfl⟩

theorem terminate_spec {b : UInt8} {rest : CStr} {i : Int} (hi : i = s.length) :
    terminate (s ++ b :: rest) i = some (s ++ 0 :: rest) := by
  unfold terminate
  rw [if_pos (by rw [List.length_append, List.length_cons]; omega), hi, Int.toNat_natCast,
    List.set_append_right _ _ (Nat.le_refl _), Nat.sub_self]
  rfl

theorem terminate_neg {i : Int} (hi : i < 0) : terminate s i = none := if_neg (by omega)

end Block

/-- The copy is used for nothing else: where all writes are inside of it, the result is that of
the matcher on strings. -/
theorem match_re_eq (junk : Nat → UInt8) {str re : CStr} (hre : 0 ∉ re) :
    match_re junk str re =
      if re = [percent] ∧ str ≠ [] then none else some (Query.match_re str re) := by
  unfold match_re Query.match_re
  by_cases hnil : re = [] ∨ str = []
  · rw [if_pos hnil, if_pos hnil, if_neg]
    intro hboth
    obtain ⟨hone, hstr⟩ := hboth
    obtain h | h := hnil
    · rw [h] at hone
      exact absurd hone (by simp)
    · exact hstr h
  rw [if_neg hnil, if_neg hnil]
  simp only [not_or] at hnil
  by_cases hhead : re.head? = some percent
  · obtain ⟨t, rfl⟩ := List.head?_eq_some_iff.mp hhead
    have ht : 0 ∉ t := fun h => hre (List.mem_cons_of_mem _ h)
    obtain ⟨rest, hcopy⟩ := @strcpy_spec junk t (percent :: t).length (by simp)
    simp only [hhead, if_true, List.tail_cons, hcopy, Option.bind_some]
    by_cases hlast : (percent :: t).getLast? = some percent
    · rw [if_pos hlast, if_pos hlast]
      obtain rfl | ⟨u, b, rfl⟩ := List.eq_nil_or_concat t
      · rw [terminate_neg (by simp), Option.map_none, if_pos ⟨rfl, hnil.2⟩]
      · have hb : b = percent := by
          rw [List.concat_eq_append, ← List.cons_append, List.getLast?_concat] at hlast
          exact Option.some.inj hlast
        have hu : 0 ∉ u := fun h => ht (by rw [List.concat_eq_append]; exact List.mem_append_left _ h)
        rw [if_neg fun h => absurd h.1 (by simp), List.concat_eq_append, List.append_assoc,
          List.singleton_append, terminate_spec (by simp; omega), Option.map_some,
          stringOf_append hu, List.take_left' (by simp)]
    · have hmore : ¬(percent :: t = [percent] ∧ str ≠ []) := by
        intro hboth
        rw [hboth.1] at hlast
        exact hlast rfl
      rw [if_neg hlast, if_neg hlast, if_neg hmore]
      exact congrArg (fun u => some (match strstr str u with
        | some tmp => strcmp tmp u == 0
        | none => false)) (stringOf_append ht rest)
  · obtain ⟨rest, hcopy⟩ := @strcpy_spec junk re re.length (Nat.le_refl _)
    rw [if_neg hhead, if_neg hhead, if_neg fun h => hhead (by rw [h.1]; rfl)]
    simp only [hcopy, Option.bind_some]
    by_cases hlast : re.getLast? = some percent
    · rw [if_pos hlast, if_pos hlast]
      obtain ⟨u, rfl⟩ := List.getLast?_eq_some_iff.mp hlast
      have hu : 0 ∉ u := fun h => hre (List.mem_append_left _ h)
      rw [List.append_assoc, List.singleton_append, terminate_spec (by simp), Option.map_some,
        stringOf_append hu, List.dropLast_concat]
    · rw [if_neg hlast, if_neg hlast, stringOf_append hre]

/-! ## What is meant -/

/-- A literal with `%` in front, behind, or not. -/
structure Pattern where
  leading : Bool
  literal : CStr
  trailing : Bool
  plain : percent ∉ literal
  ended : 0 ∉ literal

def Pattern.text (p : Pattern) : CStr :=
  (if p.leading then [percent] else []) ++ p.literal ++ (if p.trailing then [percent] else [])

def Pattern.Matches (p : Pattern) (str : CStr) : Prop :=
  if p.leading then if p.trailing then p.literal <:+: str else p.literal <:+ str
  else if p.trailing then p.literal <+: str else str = p.literal

instance (p : Pattern) (str : CStr) : Decidable (p.Matches str) := by
  unfold Pattern.Matches
  infer_instance

theorem strstr_isSuffix {s needle tmp : CStr} (h : strstr s needle = some tmp) : tmp <:+ s := by
  induction s with
  | nil =>
    rw [strstr] at h
    split at h
    · next hnil => exact Option.some.inj h ▸ List.suffix_refl _
    · exact absurd h (by simp)
  | cons c cs ih =>
    rw [strstr] at h
    split at h
    · exact Option.some.inj h ▸ List.suffix_refl _
    · exact (ih h).trans (List.suffix_cons c cs)

/-- The first occurrence is at the end. -/
theorem strstr_eq_self_iff {s needle : CStr} (hne : needle ≠ []) :
    strstr s needle = some needle ↔ needle <:+ s ∧ ¬ needle <:+: s.dropLast := by
  induction s with
  | nil =>
    rw [strstr, if_neg hne]
    simp [hne]
  | cons c cs ih =>
    rw [strstr]
    by_cases hstart : needle <+: c :: cs
    · rw [if_pos (List.isPrefixOf_iff_prefix.mpr hstart), Option.some.injEq]
      constructor
      · rintro rfl
        refine ⟨List.suffix_refl _, fun hin => ?_⟩
        have := hin.length_le
        simp only [List.length_dropLast, List.length_cons] at this
        omega
      · intro h
        have hnot := h.2
        by_contra hdiff
        have hlt : needle.length < (c :: cs).length :=
          Nat.lt_of_le_of_ne hstart.length_le fun he => hdiff (hstart.eq_of_length he).symm
        refine hnot (List.prefix_of_prefix_length_le hstart (List.dropLast_prefix _) ?_).isInfix
        rw [List.length_dropLast]
        omega
    · rw [if_neg fun h => hstart (List.isPrefixOf_iff_prefix.mp h), ih, List.suffix_cons_iff]
      have hself : needle ≠ c :: cs := fun he => hstart (he ▸ List.prefix_refl _)
      cases cs with
      | nil => simp [hne, hself]
      | cons d ds =>
        have hfront : ¬ needle <+: c :: (d :: ds).dropLast := fun h =>
          hstart (h.trans (List.dropLast_prefix (c :: d :: ds)))
        rw [List.dropLast_cons_cons, List.infix_cons_iff]
        simp only [hself, false_or, hfront]

theorem strncmp_length_eq_zero_iff {s p : CStr} (hs : 0 ∉ s) (hp : 0 ∉ p) :
    strncmp s p p.length = 0 ↔ p <+: s := by
  unfold strncmp
  rw [List.take_length, strcmp_eq_zero_iff_of_notMem (fun h => hs (List.mem_of_mem_take h)) hp,
    List.prefix_iff_eq_take, eq_comm]

section Pattern

variable {p : Pattern} {str : CStr}

theorem Pattern.zero_notMem_text (p : Pattern) : 0 ∉ p.text := by
  unfold Pattern.text
  have hpercent : (0 : UInt8) ∉ [percent] := by decide
  simp only [List.mem_append, not_or]
  exact ⟨⟨by split; exacts [hpercent, List.not_mem_nil], p.ended⟩,
    by split; exacts [hpercent, List.not_mem_nil]⟩

/-- What the matcher does with a pattern other than `%`. -/
theorem Pattern.match_re_text (hstr : str ≠ []) (h0 : 0 ∉ str) (hp : p.text ≠ [])
    (hone : p.text ≠ [percent]) :
    Query.match_re str p.text = true ↔
      if p.leading then
        if p.trailing then p.literal <:+: str
        else p.literal <:+ str ∧ ¬ p.literal <:+: str.dropLast
      else if p.trailing then p.literal <+: str else str = p.literal := by
  obtain ⟨leading, literal, trailing, plain, ended⟩ := p
  unfold Query.match_re
  rw [if_neg (by simp [hp, hstr])]
  cases leading <;> cases trailing <;>
    simp only [Pattern.text, if_true, if_false, Bool.false_eq_true, List.nil_append,
      List.append_nil, List.cons_append] at hp hone ⊢
  · -- the literal alone
    rw [if_neg fun h => plain (List.mem_of_head? h),
      if_neg fun h => plain (List.mem_of_getLast? h), beq_iff_eq,
      strcmp_eq_zero_iff_of_notMem h0 ended]
  · -- the literal in front
    have hne : literal ≠ [] := by
      rintro rfl
      exact hone rfl
    rw [if_neg, if_pos (by simp), List.dropLast_concat, beq_iff_eq,
      strncmp_length_eq_zero_iff h0 ended]
    intro h
    rw [List.head?_append_of_ne_nil _ hne] at h
    exact plain (List.mem_of_head? h)
  · -- the literal at the end
    have hne : literal ≠ [] := by
      rintro rfl
      exact hone rfl
    rw [if_pos List.head?_cons, if_neg]
    · rw [List.tail_cons, ← strstr_eq_self_iff hne]
      cases hfind : strstr str literal with
      | none => simp
      | some tmp =>
        have htmp : 0 ∉ tmp := fun h => h0 ((strstr_isSuffix hfind).subset h)
        rw [beq_iff_eq, strcmp_eq_zero_iff_of_notMem htmp ended, Option.some.injEq]
    · intro h
      rw [List.getLast?_cons_of_ne_nil hne] at h
      exact plain (List.mem_of_getLast? h)
  · -- the literal anywhere
    rw [if_pos List.head?_cons, if_pos (by rw [← List.cons_append, List.getLast?_concat]),
      strstr_isSome_iff, List.tail_cons, List.take_left' (by simp)]

/-- The pattern's literal is at the end, and somewhere before it too. -/
def Pattern.OccursBefore (p : Pattern) (str : CStr) : Prop :=
  p.leading = true ∧ p.trailing = false ∧ p.literal <:+ str ∧ p.literal <:+: str.dropLast

/-- The matcher stays inside of its block and says what is meant, except for the pattern `%`,
and for an end that is in the subject before. -/
theorem match_re_iff (junk : Nat → UInt8) (hstr : str ≠ []) (h0 : 0 ∉ str) (hp : p.text ≠ []) :
    match_re junk str p.text = some (decide (p.Matches str)) ↔
      p.text ≠ [percent] ∧ ¬ p.OccursBefore str := by
  rw [match_re_eq junk p.zero_notMem_text]
  by_cases hone : p.text = [percent]
  · rw [if_pos ⟨hone, hstr⟩]
    simp [hone]
  have htext := Pattern.match_re_text hstr h0 hp hone
  rw [if_neg fun h => hone h.1, Option.some.injEq, Bool.eq_iff_iff, decide_eq_true_iff, htext]
  unfold Pattern.Matches Pattern.OccursBefore
  by_cases hleading : p.leading = true
  · by_cases htrailing : p.trailing = true
    · simp [hone, hleading, htrailing]
    · simp only [Bool.not_eq_true] at htrailing
      simp only [hleading, htrailing, if_true, Bool.false_eq_true, if_false, ne_eq, hone,
        not_false_iff, true_and]
      tauto
  · simp [hone, hleading]

end Pattern

/-- `'123456' LIKE '%456'`. -/
theorem match_re_iff_end :
    match_re (fun _ => 7) (lit "123456") (lit "%456") = some true := by
  have h := (@match_re_iff ⟨true, lit "456", false, by decide, by decide⟩ (lit "123456")
    (fun _ => 7) (by decide) (by decide) (by decide)).mpr
    ⟨by decide, fun h => absurd h.2.2.2 (by decide)⟩
  exact h

/-- `'%ab'`. -/
def endsWithAb : Pattern := ⟨true, lit "ab", false, by decide, by decide⟩

/-- `'%'`. -/
def anything : Pattern := ⟨true, [], false, by decide, by decide⟩

/-- `'abab'` ends with `ab`, which the first occurrence does not show; and for `%` a byte in
front of the block is written. -/
theorem not_match_re_spec :
    endsWithAb.Matches (lit "abab") ∧
    match_re (fun _ => 7) (lit "abab") endsWithAb.text = some false ∧
    anything.Matches (lit "a") ∧ match_re (fun _ => 7) (lit "a") anything.text = none := by
  decide

end Sfcb.Query.LikeMatching
