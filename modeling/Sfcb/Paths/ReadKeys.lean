import Sfcb.Paths.NormalizedKeys
import Sfcb.Paths.ReadWeight

/-!
# What is read of a key

A key is printed as the piece that it was read from, or as a lighter text
(`within_readKey`). So it is with all keys, since two keys of one name become one
(`addPieces_gained`), and with the whole path (`within_getObjectPath`).
-/

namespace Sfcb.Paths

open Sfcb.Lib

/-! ## Numbers -/

theorem digitByte_digitRank {b : UInt8} (h : isDigit b = true) :
    digitByte (digitRank b) = b ∧ digitRank b < 10 := by
  simp only [isDigit, Bool.and_eq_true, decide_eq_true_eq, UInt8.le_iff_toNat_le,
    UInt8.reduceToNat] at h
  have hrank : digitRank b = b.toNat - 48 := by rw [digitRank, if_pos h]
  refine ⟨UInt8.toNat_inj.mp ?_, by omega⟩
  rw [hrank, digitByte, if_pos (by omega), UInt8.toNat_ofNat']
  omega

theorem digitVal_of_isDigit {b : UInt8} (h : isDigit b = true) :
    digitVal 10 b = some (digitRank b) := by
  rw [digitVal, if_pos (digitByte_digitRank h).2]

theorem weight_of_isDigit {b : UInt8} (h : isDigit b = true) (s : CStr) :
    weight (b :: s) = 2 + weight s := by
  rw [weight_cons, if_neg]
  rintro (rfl | rfl) <;> exact absurd h (by decide)

/-- One more digit. -/
theorem within_numeral_digit {n : Nat} {t : CStr} {b : UInt8} (h : isDigit b = true)
    (ht : t ≠ []) (hn : Within (numeral 10 n) t) :
    Within (numeral 10 (n * 10 + digitRank b)) (t ++ [b]) := by
  obtain ⟨hbyte, hrank⟩ := digitByte_digitRank h
  have hb : weight [b] = 2 := weight_of_isDigit h []
  rw [numeral_eq (by omega)]
  by_cases hlt : n * 10 + digitRank b < 10
  · -- a zero in front is lost
    have hzero : n = 0 := by omega
    rw [if_pos hlt, hzero, Nat.zero_mul, Nat.zero_add, hbyte]
    refine .of_lt ?_
    have := two_le_weight ht
    rw [weight_append]
    omega
  · rw [if_neg hlt, show (n * 10 + digitRank b) / 10 = n by omega,
      show (n * 10 + digitRank b) % 10 = digitRank b by omega, hbyte]
    exact hn.append (.refl _)

theorem within_scanDigits_aux {n : Nat} {t : CStr} (s : CStr) (ht : t ≠ [])
    (hn : Within (numeral 10 n) t) :
    Within (numeral 10 (scanDigits 10 n s).1) (t ++ s) := by
  induction s generalizing n t with
  | nil => simpa [scanDigits] using hn
  | cons b s ih =>
    rw [scanDigits]
    cases hval : digitVal 10 b with
    | none =>
      have hle := hn.le
      have htwo := two_le_weight_cons b s
      refine .of_lt ?_
      show weight (numeral 10 n) < weight (t ++ b :: s)
      rw [weight_append]
      omega
    | some d =>
      have hb : isDigit b = true := (digitVal_ten b).mp (by rw [hval]; simp)
      obtain rfl : digitRank b = d := Option.some.inj ((digitVal_of_isDigit hb).symm.trans hval)
      have := ih (by simp) (within_numeral_digit hb ht hn)
      rwa [List.append_assoc] at this

/-- What is read of digits is not printed longer. -/
theorem within_scanDigits {b : UInt8} (h : isDigit b = true) (s : CStr) :
    Within (numeral 10 (scanDigits 10 0 (b :: s)).1) (b :: s) := by
  obtain ⟨hbyte, hrank⟩ := digitByte_digitRank h
  rw [scanDigits, digitVal_of_isDigit h]
  have hone : numeral 10 (digitRank b) = [b] := by
    rw [numeral_eq (by omega), if_pos hrank, hbyte]
  refine within_scanDigits_aux s (List.cons_ne_nil b []) ?_
  rw [Nat.zero_mul, Nat.zero_add, hone]
  exact .refl _

/-- Without a digit it is zero. -/
theorem scanDigits_zero_or {s : CStr} :
    (scanDigits 10 0 s).1 = 0 ∨ Within (numeral 10 (scanDigits 10 0 s).1) s := by
  cases s with
  | nil => exact .inl rfl
  | cons b s =>
    by_cases hb : isDigit b = true
    · exact .inr (within_scanDigits hb s)
    · refine .inl ?_
      have hval : digitVal 10 b = none := by
        cases hval : digitVal 10 b with
        | none => rfl
        | some d => exact absurd ((digitVal_ten b).mp (by rw [hval]; simp)) hb
      rw [scanDigits, hval]

theorem dropWhile_isSpace_cons {c : UInt8} (h : c = 45 ∨ c = 43 ∨ isDigit c = true) (s : CStr) :
    (c :: s).dropWhile isSpace = c :: s := by
  rw [List.dropWhile_cons_of_neg]
  rcases h with rfl | rfl | h
  · decide
  · decide
  · simp only [isDigit, Bool.and_eq_true, decide_eq_true_eq, UInt8.le_iff_toNat_le,
      UInt8.reduceToNat] at h
    simp only [isSpace, Bool.or_eq_true, beq_iff_eq, Bool.and_eq_true, decide_eq_true_eq,
      UInt8.le_iff_toNat_le, UInt8.reduceToNat, ← UInt8.toNat_inj]
    omega

/-- A sign is at least as heavy as a zero. -/
theorem within_zero {c : UInt8} (h : c = 45 ∨ c = 43) (s : CStr) : Within (printInt 0) (c :: s) := by
  refine .of_lt ?_
  rw [weight_cons, if_pos h]
  have hzero : weight (printInt 0) = 2 := by decide
  omega

theorem within_printInt_cast {n : Nat} {s : CStr} (h : Within (numeral 10 n) s) :
    Within (printInt n) s := by
  rwa [printInt_natCast]

theorem eq_of_range {k n : Int} (h : (if -2 ^ 63 ≤ k ∧ k < 2 ^ 63 then some k else none) = some n) :
    k = n ∧ -2 ^ 63 ≤ n ∧ n < 2 ^ 63 := by
  split at h
  · next hrange =>
    obtain rfl := Option.some.inj h
    exact ⟨rfl, hrange⟩
  · exact absurd h (by simp)

/-- What `atol` reads is not printed longer. -/
theorem within_atol {c : UInt8} {s : CStr} {n : Int} (hc : c = 45 ∨ c = 43 ∨ isDigit c = true)
    (h : atol (c :: s) = some n) :
    Within (printInt n) (c :: s) ∧ (-2 ^ 63 ≤ n ∧ n < 2 ^ 63) ∧ (isDigit c = true → 0 ≤ n) := by
  unfold atol at h
  rw [dropWhile_isSpace_cons hc] at h
  simp only at h
  split at h
  · next heq =>
    obtain ⟨rfl, rfl⟩ := List.cons.inj heq
    obtain ⟨rfl, hrange⟩ := eq_of_range h
    refine ⟨?_, hrange, fun hdigit => absurd hdigit (by decide)⟩
    rcases scanDigits_zero_or (s := s) with hzero | hwithin
    · rw [hzero]
      exact within_zero (.inl rfl) s
    · by_cases hzero : (scanDigits 10 0 s).1 = 0
      · rw [hzero]
        exact within_zero (.inl rfl) s
      · rw [printInt, if_pos (by omega), Int.natAbs_neg, Int.natAbs_natCast]
        exact Within.append (.refl [45]) hwithin
  · next heq =>
    obtain ⟨rfl, rfl⟩ := List.cons.inj heq
    obtain ⟨rfl, hrange⟩ := eq_of_range h
    refine ⟨?_, hrange, fun _ => Int.natCast_nonneg _⟩
    rcases scanDigits_zero_or (s := s) with hzero | hwithin
    · rw [hzero]
      exact within_zero (.inr rfl) s
    · have hle := hwithin.le
      have htwo := two_le_weight_cons 43 s
      refine within_printInt_cast (.of_lt ?_)
      omega
  · next hminus hplus =>
    obtain ⟨rfl, hrange⟩ := eq_of_range h
    refine ⟨?_, hrange, fun _ => Int.natCast_nonneg _⟩
    have hdigit : isDigit c = true := by
      rcases hc with rfl | rfl | hc
      · exact (hminus s rfl).elim
      · exact (hplus s rfl).elim
      · exact hc
    exact within_printInt_cast (within_scanDigits hdigit s)

/-! ## One key -/

/-- A key as it is printed. -/
def keyText (k : CStr × Value) : CStr := k.1 ++ 61 :: k.2.chars

theorem keyChars_eq_map (keys : List (CStr × Value)) : keyChars keys = keys.map keyText := by
  induction keys with
  | nil => rfl
  | cons k keys ih =>
    rw [keyChars, ih]
    rfl

theorem chars_of_integer {v : Value} {n : Int} (h : v.meaning = .integer n) :
    v.chars = printInt n := by
  cases v <;> rw [Value.meaning] at h <;> cases h <;> rfl

/-- What can be read of the text behind the `=`. -/
inductive ReadFrom (read : CStr → Option Cop) : Bool → CStr → Value → Prop
  | ref {val : CStr} {keyOp op : Cop} : read val = some keyOp → stored read keyOp = some op →
      ReadFrom read true val (.ref op.nameSpace op.className op.keys)
  | string {s : CStr} : 34 ∉ s → ReadFrom read false (34 :: (s ++ [34])) (.string s)
  | integer {val : CStr} {v : Value} {n : Int} : v.meaning = .integer n →
      Within (printInt n) val → -2 ^ 63 ≤ n → n < 2 ^ 63 → ReadFrom read false val v

/-- The string is in the quotes of the piece. -/
theorem quoted_cut {name val : CStr} (hname : 61 ∉ name)
    (h : Quoted (false, name ++ 61 :: 34 :: val)) : ∃ s, val = s ++ [34] ∧ 34 ∉ s := by
  rcases h rfl with hnone | ⟨front, s, heq, hfront, hs⟩
  · exact absurd (List.mem_append_right _ (by simp)) hnone
  · refine ⟨s, ?_, hs⟩
    have hno : 61 ∉ front := by
      intro hmem
      obtain ⟨a, b, rfl, ha⟩ := List.eq_append_cons_of_mem hmem
      rw [List.append_assoc, List.cons_append] at heq
      obtain ⟨-, hrest⟩ := append_inj_of_goesOn hname ha (goesOn_cons 61 _) (goesOn_cons 61 _) heq
      have htail := (List.cons.inj hrest).2
      cases b with
      | nil => exact absurd (List.cons.inj htail).1 (by decide)
      | cons x b =>
        rw [← (List.cons.inj htail).1] at hfront
        exact hfront (by simp)
    obtain ⟨-, hrest⟩ := append_inj_of_goesOn hname hno (goesOn_cons 61 _) (goesOn_cons 61 _) heq
    exact (List.cons.inj (List.cons.inj hrest).2).2

theorem readKey_cases {read : CStr → Option Cop} {ref : Bool} {kd : CStr} {k : CStr × Value}
    (hquoted : Quoted (ref, kd)) (h : readKey read ref kd = some (some k)) :
    ∃ val, kd = k.1 ++ 61 :: val ∧ ReadFrom read ref val k.2 := by
  obtain ⟨⟨name, c, val⟩, hcut, hrun⟩ := Option.bind_eq_some_iff.mp h
  obtain ⟨rfl, hc, hname⟩ := cutAt_eq_some_iff.mp hcut
  obtain rfl : c = 61 := by simpa using hc
  have hno : 61 ∉ name := fun hmem => absurd (hname 61 hmem) (by decide)
  cases ref with
  | true =>
    rw [if_pos rfl] at hrun
    obtain ⟨keyOp, hkeyOp, hstored⟩ := Option.bind_eq_some_iff.mp hrun
    obtain ⟨op, hop, heq⟩ := Option.map_eq_some_iff.mp hstored
    obtain rfl := Option.some.inj heq
    exact ⟨val, rfl, .ref hkeyOp hop⟩
  | false =>
    simp only [Bool.false_eq_true, if_false] at hrun
    cases val with
    | nil => exact absurd hrun (by simp)
    | cons c val =>
      simp only at hrun
      by_cases hquote : c = 34
      · subst hquote
        rw [if_pos rfl] at hrun
        obtain rfl := Option.some.inj (Option.some.inj hrun)
        obtain ⟨s, rfl, hs⟩ := quoted_cut hno hquoted
        refine ⟨_, rfl, ?_⟩
        rw [List.dropLast_concat]
        exact .string hs
      · rw [if_neg hquote] at hrun
        by_cases hsign : c = 45 ∨ c = 43
        · rw [if_pos hsign] at hrun
          obtain ⟨n, hn, heq⟩ := Option.map_eq_some_iff.mp hrun
          obtain rfl := Option.some.inj heq
          obtain ⟨hwithin, ⟨hlow, hhigh⟩, -⟩ :=
            within_atol (hsign.elim .inl fun h => .inr (.inl h)) hn
          refine ⟨_, rfl, .integer ?_ hwithin hlow hhigh⟩
          rw [Value.meaning, Int64.toInt_ofInt_of_le hlow hhigh]
        · rw [if_neg hsign] at hrun
          by_cases hdigit : isDigit c = true
          · rw [if_pos hdigit] at hrun
            obtain ⟨n, hn, heq⟩ := Option.map_eq_some_iff.mp hrun
            obtain rfl := Option.some.inj heq
            obtain ⟨hwithin, ⟨hlow, hhigh⟩, hnonneg⟩ := within_atol (.inr (.inr hdigit)) hn
            refine ⟨_, rfl, .integer (n := n) ?_ hwithin hlow hhigh⟩
            have hpos := hnonneg hdigit
            rw [Value.meaning, UInt64.toNat_ofNat', Nat.mod_eq_of_lt (by omega),
              Int.toNat_of_nonneg hpos]
          · rw [if_neg hdigit] at hrun
            exact absurd hrun (by simp)

theorem Cop.chars_eq (cop : Cop) :
    (Value.ref cop.nameSpace cop.className cop.keys).chars = cop.chars := by
  rw [Value.chars, Cop.chars]

theorem within_stored {read : CStr → Option Cop} (hread : ∀ t q, read t = some q → Within q.chars t)
    {keyOp op : Cop} (h : stored read keyOp = some op) : Within op.chars keyOp.chars := by
  obtain ⟨text, htext, hop⟩ := Option.bind_eq_some_iff.mp h
  unfold sfcb_pathToChars at htext
  split at htext
  · obtain rfl := Option.some.inj htext
    split at hop
    · exact hread _ _ hop
    · exact absurd hop (by simp)
  · exact absurd htext (by simp)

theorem within_readFrom {read : CStr → Option Cop} {ref : Bool} {val : CStr} {v : Value}
    (hread : ∀ t q, read t = some q → Within q.chars t) (h : ReadFrom read ref val v) :
    Within v.chars val := by
  cases h with
  | ref hkeyOp hop =>
    rw [Cop.chars_eq]
    exact (within_stored hread hop).trans (hread _ _ hkeyOp)
  | string _ => exact .refl _
  | integer hmeaning hwithin _ _ =>
    rw [chars_of_integer hmeaning]
    exact hwithin

/-- A key that is read is not printed longer. -/
theorem within_readKey {read : CStr → Option Cop} {p : Bool × CStr} {k : CStr × Value}
    (hread : ∀ t q, read t = some q → Within q.chars t) (hquoted : Quoted p)
    (h : readKey read p.1 p.2 = some (some k)) : Within (keyText k) p.2 := by
  obtain ⟨val, heq, hfrom⟩ := readKey_cases hquoted h
  rw [heq]
  exact (Within.refl k.1).append ((Within.refl [61]).append (within_readFrom hread hfrom))

/-! ## All keys -/

theorem replaceValue_cases {od d v : Value} (h : replaceValue od d = some v) : v = od ∨ v = d := by
  unfold replaceValue at h
  split at h <;> cases h <;> first | exact .inl rfl | exact .inr rfl

theorem weight_keyText (name : CStr) (v : Value) :
    weight (keyText (name, v)) = weight name + 2 + weight v.chars := by
  show weight (name ++ 61 :: v.chars) = _
  rw [weight_append, weight_cons, if_neg (by decide)]
  omega

/-- A key that is there already loses the one or the other value. -/
theorem addKey_cases {keys keys' : List (CStr × Value)} {name : CStr} {d : Value}
    (h : addKey keys name d = some keys') :
    keys' = keys ++ [(name, d)] ∨
      weights (keys'.map keyText) < weights (keys.map keyText) + (weight (keyText (name, d)) + 2) := by
  induction keys generalizing keys' with
  | nil =>
    obtain rfl := Option.some.inj h
    exact .inl rfl
  | cons k keys ih =>
    rw [addKey] at h
    split at h
    · obtain ⟨v, hv, rfl⟩ := Option.map_eq_some_iff.mp h
      refine .inr ?_
      rw [List.map_cons, List.map_cons, weights_cons, weights_cons]
      rcases replaceValue_cases hv with rfl | rfl
      · show weight (keyText k) + 2 + _ < _
        omega
      · have hold : weight (keyText k) = weight k.1 + 2 + weight k.2.chars := weight_keyText k.1 k.2
        rw [weight_keyText k.1, weight_keyText name]
        omega
    · obtain ⟨keys', hkeys, rfl⟩ := Option.map_eq_some_iff.mp h
      rcases ih hkeys with rfl | hlt
      · exact .inl rfl
      · refine .inr ?_
        rw [List.map_cons, List.map_cons, weights_cons, weights_cons]
        omega

/-- The piece is read as the key, with nothing lost. -/
def ReadWhole (read : CStr → Option Cop) (p : Bool × CStr) (k : CStr × Value) : Prop :=
  readKey read p.1 p.2 = some (some k) ∧ keyText k = p.2

/-- The keys after some pieces do not weigh more than the pieces, and as much only if each
piece is a key of its own. -/
structure Gained (read : CStr → Option Cop) (keys : List (CStr × Value))
    (ps : List (Bool × CStr)) (keys' : List (CStr × Value)) : Prop where
  le : weights (keys'.map keyText) ≤ weights (keys.map keyText) + weights (texts ps)
  each : weights (keys'.map keyText) = weights (keys.map keyText) + weights (texts ps) →
    ∃ ks, keys' = keys ++ ks ∧ List.Forall₂ (ReadWhole read) ps ks

theorem addPiece_gained {read : CStr → Option Cop} {keys keys' : List (CStr × Value)}
    {p : Bool × CStr} (hread : ∀ t q, read t = some q → Within q.chars t) (hquoted : Quoted p)
    (h : addPiece read keys p = some keys') : Gained read keys [p] keys' := by
  have hweights : weights (texts [p]) = weight p.2 + 2 := rfl
  obtain ⟨k, hk, hadd⟩ := Option.bind_eq_some_iff.mp h
  cases k with
  | none =>
    obtain rfl := Option.some.inj hadd
    exact ⟨by omega, fun heq => by omega⟩
  | some k =>
    have hwithin := within_readKey hread hquoted hk
    have hle := hwithin.le
    rcases addKey_cases hadd with rfl | hlt
    · have hsum : weights ((keys ++ [(k.1, k.2)]).map keyText) =
          weights (keys.map keyText) + (weight (keyText k) + 2) := by
        rw [List.map_append, weights_append]
        rfl
      refine ⟨by omega, fun heq => ⟨[k], rfl, .cons ⟨hk, ?_⟩ .nil⟩⟩
      exact hwithin.eq_of_le (by omega)
    · have hlt' : weights (keys'.map keyText) <
          weights (keys.map keyText) + (weight (keyText k) + 2) := hlt
      exact ⟨by omega, fun heq => by omega⟩

theorem addPieces_gained {read : CStr → Option Cop} {keys keys' : List (CStr × Value)}
    {ps : List (Bool × CStr)} (hread : ∀ t q, read t = some q → Within q.chars t)
    (hquoted : ∀ p ∈ ps, Quoted p) (h : ps.foldlM (addPiece read) keys = some keys') :
    Gained read keys ps keys' := by
  induction ps generalizing keys with
  | nil =>
    obtain rfl := Option.some.inj h
    exact ⟨Nat.le_refl _, fun _ => ⟨[], (List.append_nil _).symm, .nil⟩⟩
  | cons p ps ih =>
    rw [List.foldlM_cons] at h
    obtain ⟨mid, hmid, hrest⟩ := Option.bind_eq_some_iff.mp h
    have hone := addPiece_gained hread (hquoted p List.mem_cons_self) hmid
    have hmore := ih (fun q hq => hquoted q (List.mem_cons_of_mem _ hq)) hrest
    have hle := hone.le
    have hle' := hmore.le
    have hsum : weights (texts (p :: ps)) = weights (texts [p]) + weights (texts ps) := by
      rw [texts_cons, weights_cons]
      rfl
    refine ⟨by omega, fun heq => ?_⟩
    obtain ⟨ks, rfl, hks⟩ := hone.each (by omega)
    obtain ⟨ks', rfl, hks'⟩ := hmore.each (by omega)
    refine ⟨ks ++ ks', List.append_assoc _ _ _, ?_⟩
    exact List.rel_append hks hks'

/-! ## The whole text -/

theorem within_nsChars (ns : CStr) : Within (nsChars (some ns)) (ns ++ [58]) := by
  cases ns with
  | nil => exact .of_lt (by decide)
  | cons c ns => exact .refl _

/-- The header does not add to the text in front of the keys. -/
theorem header_cases {path rest cn : CStr} {ns : Option CStr}
    (h : header path = some (ns, cn, rest)) :
    (rest = [] ∧ Within (nsChars ns ++ cn) path) ∨
      ∃ front, path = front ++ 46 :: rest ∧ Within (nsChars ns ++ cn) front := by
  unfold header at h
  cases hdot : cutAt (fun c => c = 46) path with
  | none =>
    cases hcolon : cutAt (fun c => c = 58) path with
    | none =>
      rw [hdot, hcolon] at h
      cases h
      exact .inl ⟨rfl, .refl _⟩
    | some cut =>
      rw [hdot, hcolon] at h
      obtain ⟨n, c, cn'⟩ := cut
      cases h
      obtain ⟨rfl, hc, -⟩ := cutAt_eq_some_iff.mp hcolon
      obtain rfl : c = 58 := by simpa using hc
      refine .inl ⟨rfl, ?_⟩
      have := (within_nsChars n).append (.refl cn)
      rwa [List.append_assoc] at this
  | some cut =>
    obtain ⟨front, c, rest'⟩ := cut
    obtain ⟨rfl, hc, -⟩ := cutAt_eq_some_iff.mp hdot
    obtain rfl : c = 46 := by simpa using hc
    cases hcolon : cutAt (fun c => c = 58) (front ++ 46 :: rest') with
    | none =>
      rw [hdot, hcolon] at h
      cases h
      exact .inr ⟨cn, rfl, .refl _⟩
    | some cut =>
      rw [hdot, hcolon] at h
      obtain ⟨n, c, behind⟩ := cut
      obtain ⟨heq, hc, -⟩ := cutAt_eq_some_iff.mp hcolon
      obtain rfl : c = 58 := by simpa using hc
      simp only at h
      split at h
      · next hlt =>
        cases h
        refine .inr ⟨front, rfl, ?_⟩
        have hfront : front = n ++ [58] ++ front.drop (n.length + 1) := by
          have htake := congrArg (List.take (n.length + 1)) heq
          rw [List.take_append_of_le_length (by omega)] at htake
          have hn : (n ++ 58 :: behind).take (n.length + 1) = n ++ [58] := by
            rw [List.take_append, List.take_of_length_le (by omega)]
            simp
          rw [hn] at htake
          rw [← htake, List.take_append_drop]
        have hwithin := (within_nsChars n).append (.refl (front.drop (n.length + 1)))
        rwa [← hfront] at hwithin
      · exact absurd h (by simp)

theorem texts_of_readWhole {read : CStr → Option Cop} {ps : List (Bool × CStr)}
    {ks : List (CStr × Value)} (h : List.Forall₂ (ReadWhole read) ps ks) :
    ks.map keyText = texts ps := by
  induction h with
  | nil => rfl
  | cons hone _ ih => rw [List.map_cons, texts_cons, ih, hone.2]

/-- Keys that weigh as much as the text are all of it. -/
theorem whole_of_weight {read : CStr → Option Cop} {rest : CStr} {ps : List (Bool × CStr)}
    {keys : List (CStr × Value)} (hparts : Parts rest ps) (hgained : Gained read [] ps keys)
    (h : weight rest + 2 ≤ weights (keys.map keyText)) :
    commas (texts ps) = rest ∧ Seen ps ∧ List.Forall₂ (ReadWhole read) ps keys := by
  have hle := hparts.le
  have hle' := hgained.le
  rw [List.map_nil, weights_nil] at hle'
  obtain ⟨ks, rfl, hks⟩ := hgained.each (by rw [List.map_nil, weights_nil]; omega)
  obtain ⟨hcommas, hseen⟩ := hparts.whole (by omega)
  exact ⟨hcommas, hseen, hks⟩

theorem within_commas {read : CStr → Option Cop} {rest : CStr} {ps : List (Bool × CStr)}
    {keys : List (CStr × Value)} (hparts : Parts rest ps) (hgained : Gained read [] ps keys)
    (hne : keys ≠ []) : Within (commas (keys.map keyText)) rest := by
  have hweight : weight (commas (keys.map keyText)) + 2 = weights (keys.map keyText) := by
    obtain ⟨k, keys, rfl⟩ := List.exists_cons_of_ne_nil hne
    rw [List.map_cons, weight_commas]
  by_cases hle : weight rest + 2 ≤ weights (keys.map keyText)
  · obtain ⟨hcommas, -, hks⟩ := whole_of_weight hparts hgained hle
    rw [texts_of_readWhole hks, hcommas]
    exact .refl _
  · exact .of_lt (by omega)

/-- What is read is printed as the text that was read, or as a lighter one. -/
theorem within_getObjectPath {fuel : Nat} {t : CStr} {q : Cop}
    (h : getObjectPath fuel t = some q) : Within q.chars t := by
  induction fuel generalizing t q with
  | zero => exact absurd h (by simp [getObjectPath])
  | succ fuel ih =>
    obtain ⟨⟨ns, cn, rest⟩, hhead, hrun⟩ := Option.bind_eq_some_iff.mp h
    obtain ⟨ps, hps, hadd⟩ := Option.bind_eq_some_iff.mp hrun
    obtain ⟨keys, hkeys, rfl⟩ := Option.map_eq_some_iff.mp hadd
    have hparts := parts_of_pieces hps
    have hgained := addPieces_gained (fun _ _ => ih) hparts.quoted hkeys
    show Within (pathChars ns cn (keyChars keys)) t
    rw [pathChars, keyChars_eq_map]
    rcases header_cases hhead with ⟨rfl, hwithin⟩ | ⟨front, rfl, hwithin⟩
    · obtain rfl := pieces_nil hps
      obtain rfl := Option.some.inj hkeys
      rw [List.map_nil, if_pos rfl, List.append_nil]
      exact hwithin
    · by_cases hne : keys = []
      · have hle := hwithin.le
        have hdot := two_le_weight_cons 46 rest
        rw [hne, List.map_nil, if_pos rfl, List.append_nil]
        refine .of_lt ?_
        rw [weight_append front]
        omega
      · rw [if_neg (by simpa using hne)]
        exact hwithin.append ((Within.refl [46]).append (within_commas hparts hgained hne))

end Sfcb.Paths
