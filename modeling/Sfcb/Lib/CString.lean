/-!
# C strings as byte lists

A NUL-terminated `char *` is modelled by the list of its bytes in front of the
terminator. The functions below are the `<string.h>` calls the broker makes on
such strings, written so that they evaluate; bytes compare as `unsigned char`,
as `strcmp` does.
-/

namespace Sfcb.Lib

/-- The bytes of a C string, without its terminator. -/
abbrev CStr := List UInt8

/-- `strcmp`: the difference at the first byte where the strings differ, the
terminator counting as `0`. -/
def strcmp : CStr → CStr → Int
  | [], [] => 0
  | [], b :: _ => -(b.toNat : Int)
  | a :: _, [] => (a.toNat : Int)
  | a :: as, b :: bs => if a = b then strcmp as bs else (a.toNat : Int) - (b.toNat : Int)

/-- `strncmp`: `strcmp` on at most the first `n` bytes. -/
def strncmp (s t : CStr) (n : Nat) : Int := strcmp (s.take n) (t.take n)

/-- `tolower` on a byte in the C locale. -/
def toLower (b : UInt8) : UInt8 := if 65 ≤ b ∧ b ≤ 90 then b + 32 else b

/-- `strcasecmp`: `strcmp` after folding both sides to lower case. -/
def strcasecmp (s t : CStr) : Int := strcmp (s.map toLower) (t.map toLower)

/-- `strncasecmp`: `strcasecmp` on at most the first `n` bytes. -/
def strncasecmp (s t : CStr) (n : Nat) : Int := strcasecmp (s.take n) (t.take n)

/-- `strstr haystack needle`: the tail of `haystack` that starts at the first
occurrence of `needle`, `none` when there is no occurrence. -/
def strstr : CStr → CStr → Option CStr
  | [], needle => if needle = [] then some [] else none
  | c :: cs, needle => if needle.isPrefixOf (c :: cs) then some (c :: cs) else strstr cs needle

/-- A string that is there is found. -/
theorem strstr_isSome (front needle back : CStr) :
    (strstr (front ++ (needle ++ back)) needle).isSome = true := by
  induction front with
  | nil =>
    rw [List.nil_append]
    cases h : needle ++ back with
    | nil => simp [strstr, (List.append_eq_nil_iff.mp h).1]
    | cons c cs =>
      have hpre : needle.isPrefixOf (c :: cs) = true := by
        rw [← h, List.isPrefixOf_iff_prefix]
        exact List.prefix_append ..
      simp [strstr, hpre]
  | cons c front ih =>
    rw [List.cons_append, strstr]
    split
    · rfl
    · exact ih

/-- `strstr` finds what is there. -/
theorem strstr_isSome_iff {s needle : CStr} : (strstr s needle).isSome = true ↔ needle <:+: s := by
  constructor
  · intro h
    induction s with
    | nil =>
      unfold strstr at h
      split at h
      · next hnil =>
        exact hnil ▸ List.infix_refl _
      · exact absurd h (by simp)
    | cons c cs ih =>
      rw [strstr] at h
      split at h
      · next hpre => exact (List.isPrefixOf_iff_prefix.mp hpre).isInfix
      · exact (ih h).trans (List.suffix_cons c cs).isInfix
  · rintro ⟨front, back, rfl⟩
    rw [List.append_assoc]
    exact strstr_isSome front needle back

/-- `strspn`: how many bytes at the front are all accepted. -/
def strspn (s : CStr) (accept : UInt8 → Bool) : Nat := (s.takeWhile accept).length

/-- The bytes in front of one that is not accepted are counted. -/
theorem strspn_append {accept : UInt8 → Bool} {front rest : CStr}
    (hfront : ∀ b ∈ front, accept b = true) (hrest : ∀ b ∈ rest.head?, accept b = false) :
    strspn (front ++ rest) accept = front.length := by
  unfold strspn
  rw [List.takeWhile_append_of_pos hfront]
  cases rest with
  | nil => simp
  | cons b bs => simp [hrest b rfl]

/-- The other way round the sign is the other one. -/
theorem strcmp_swap (s t : CStr) : strcmp t s = -strcmp s t := by
  induction s generalizing t with
  | nil => cases t <;> simp [strcmp]
  | cons a as ih =>
    cases t with
    | nil => simp [strcmp]
    | cons b bs =>
      unfold strcmp
      by_cases h : a = b
      · rw [if_pos h, if_pos h.symm, ih bs]
      · rw [if_neg h, if_neg (fun he => h he.symm)]
        omega

theorem strcmp_self (s : CStr) : strcmp s s = 0 := by
  have := strcmp_swap s s
  omega

/-- Strings without a zero in them are in order. -/
theorem strcmp_trans {s t u : CStr} (hs : 0 ∉ s) (ht : 0 ∉ t) (hst : strcmp s t ≤ 0)
    (htu : strcmp t u ≤ 0) : strcmp s u ≤ 0 := by
  have hpos : ∀ {b : UInt8} {bs : CStr}, 0 ∉ b :: bs → 0 < b.toNat := by
    intro b bs h
    refine Nat.pos_of_ne_zero fun hzero => h ?_
    have hb : b = 0 := UInt8.toNat_inj.mp hzero
    rw [hb]
    exact List.mem_cons_self
  induction s generalizing t u with
  | nil => cases u <;> simp [strcmp]
  | cons a as ih =>
    cases t with
    | nil =>
      have := hpos hs
      simp only [strcmp] at hst
      omega
    | cons b bs =>
      cases u with
      | nil =>
        have := hpos ht
        simp only [strcmp] at htu
        omega
      | cons c cs =>
        unfold strcmp at hst htu ⊢
        by_cases hab : a = b
        · rw [if_pos hab] at hst
          rw [← hab] at htu
          by_cases hac : a = c
          · rw [if_pos hac] at htu ⊢
            exact ih (fun h => hs (List.mem_cons_of_mem _ h))
              (fun h => ht (List.mem_cons_of_mem _ h)) hst htu
          · rw [if_neg hac] at htu ⊢
            exact htu
        · rw [if_neg hab] at hst
          have hlt : a.toNat ≠ b.toNat := fun he => hab (UInt8.toNat_inj.mp he)
          by_cases hbc : b = c
          · rw [← hbc, if_neg hab]
            exact hst
          · rw [if_neg hbc] at htu
            rw [if_neg fun hac => by rw [hac] at hst hlt; omega]
            omega

/-- `strcmp` tells apart strings of one length. -/
theorem strcmp_eq_zero_iff {s t : CStr} (hlen : s.length = t.length) :
    strcmp s t = 0 ↔ s = t := by
  induction s generalizing t with
  | nil => simp [List.length_eq_zero_iff.mp hlen.symm, strcmp]
  | cons a as ih =>
    cases t with
    | nil => simp at hlen
    | cons b bs =>
      unfold strcmp
      split
      · next h => rw [ih (by simpa using hlen), h]; simp
      · next h =>
        have hne : a.toNat ≠ b.toNat := fun he => h (UInt8.toNat_inj.mp he)
        constructor
        · omega
        · intro he
          exact absurd (List.cons.inj he).1 h

/-- `strcmp` tells apart strings without a zero in them. -/
theorem strcmp_eq_zero_iff_of_notMem {s t : CStr} (hs : 0 ∉ s) (ht : 0 ∉ t) :
    strcmp s t = 0 ↔ s = t := by
  have htoNat : ∀ b : UInt8, b ≠ 0 → b.toNat ≠ 0 := fun b hb h => hb (UInt8.toNat_inj.mp h)
  induction s generalizing t with
  | nil =>
    cases t with
    | nil => simp [strcmp]
    | cons b bs =>
      have := htoNat b (by simpa using fun h => ht (by simp [h]))
      unfold strcmp
      simp only [reduceCtorEq, iff_false]
      omega
  | cons a as ih =>
    cases t with
    | nil =>
      have := htoNat a (by simpa using fun h => hs (by simp [h]))
      unfold strcmp
      simp only [reduceCtorEq, iff_false]
      omega
    | cons b bs =>
      unfold strcmp
      split
      · next h =>
        have hrest : strcmp as bs = 0 ↔ as = bs :=
          ih (fun h => hs (List.mem_cons_of_mem _ h)) (fun h => ht (List.mem_cons_of_mem _ h))
        rw [hrest, h]
        simp
      · next h =>
        have hne : a.toNat ≠ b.toNat := fun he => h (UInt8.toNat_inj.mp he)
        constructor
        · omega
        · intro he
          exact absurd (List.cons.inj he).1 h

/-- A comparison with all of a string says whether the text begins with it. -/
theorem strncmp_eq_zero_iff_begins {s t : CStr} (hzero : 0 ∉ t) :
    strncmp s t t.length = 0 ↔ t <+: s := by
  have htoNat : ∀ b : UInt8, b ≠ 0 → b.toNat ≠ 0 := fun b hb h => hb (UInt8.toNat_inj.mp h)
  unfold strncmp
  rw [List.take_of_length_le (Nat.le_refl t.length)]
  induction t generalizing s with
  | nil => simp [strcmp]
  | cons b t ih =>
    have hb : b ≠ 0 := fun heq => hzero (heq ▸ List.mem_cons_self)
    have ht : 0 ∉ t := fun h => hzero (List.mem_cons_of_mem _ h)
    cases s with
    | nil =>
      have := htoNat b hb
      simp only [List.take_nil, List.prefix_nil, reduceCtorEq, iff_false]
      unfold strcmp
      omega
    | cons a s =>
      rw [List.length_cons, List.take_succ_cons, List.cons_prefix_cons]
      unfold strcmp
      split
      · next heq =>
        rw [heq, and_iff_right rfl]
        exact ih ht
      · next hne =>
        have : a.toNat ≠ b.toNat := fun h => hne (UInt8.toNat_inj.mp h)
        refine iff_of_false (by omega) fun h => hne h.1.symm

/-- A string in lower case: what `strcasecmp` compares. -/
def fold (s : CStr) : CStr := s.map toLower

theorem toLower_cases (b : UInt8) : toLower b = b ∨
    (65 ≤ b.toNat ∧ b.toNat ≤ 90 ∧ (toLower b).toNat = b.toNat + 32) := by
  unfold toLower
  split
  · next hupper =>
    have hlow : 65 ≤ b.toNat := UInt8.le_iff_toNat_le.mp hupper.1
    have hhigh : b.toNat ≤ 90 := UInt8.le_iff_toNat_le.mp hupper.2
    refine .inr ⟨hlow, hhigh, ?_⟩
    rw [UInt8.toNat_add, show (32 : UInt8).toNat = 32 from rfl]
    omega
  · exact .inl rfl

theorem length_fold (s : CStr) : (fold s).length = s.length := List.length_map _

theorem fold_fold (s : CStr) : fold (fold s) = fold s := by
  unfold fold
  rw [List.map_map]
  refine List.map_congr_left fun b _ => ?_
  show toLower (toLower b) = toLower b
  obtain h | ⟨hlow, hhigh, hb⟩ := toLower_cases b
  · rw [h, h]
  · obtain h' | ⟨-, hhigh', -⟩ := toLower_cases (toLower b)
    · exact h'
    · omega

theorem toLower_ne_zero {b : UInt8} (h : b ≠ 0) : toLower b ≠ 0 := by
  unfold toLower
  split
  · next hupper =>
    intro hzero
    have hle : b.toNat ≤ 90 := UInt8.le_iff_toNat_le.mp hupper.2
    have : (b + 32).toNat = 0 := by rw [hzero]; rfl
    rw [UInt8.toNat_add, show (32 : UInt8).toNat = 32 from rfl] at this
    omega
  · exact h

theorem strcasecmp_eq_zero_iff {s t : CStr} (hs : 0 ∉ s) (ht : 0 ∉ t) :
    strcasecmp s t = 0 ↔ fold s = fold t := by
  have hfold : ∀ {u : CStr}, 0 ∉ u → 0 ∉ u.map toLower := by
    intro u hu hmem
    obtain ⟨b, hb, hzero⟩ := List.mem_map.mp hmem
    exact toLower_ne_zero (fun h => hu (h ▸ hb)) hzero
  exact strcmp_eq_zero_iff_of_notMem (hfold hs) (hfold ht)

/-- The bytes of a literal: the texts the source writes in quotes. -/
def lit (s : String) : CStr := s.toUTF8.data.toList

end Sfcb.Lib
