import Sfcb.FileRepository.Refinement

/-!
# Which records are read back

`addBlob` prints the length of a record over the four blanks the record starts with, and one
more blank behind it. A length of four digits takes the first digit of the key length away.
The offset is printed as an `unsigned long` and read as an `int`.

`readsBack_iff`: a record is read back if it has less than 1000 bytes, and its blob starts
below 2^31.
-/

namespace Sfcb.FileRepository

open Sfcb.Lib

/-- Where the record stands in an index, and whatever is around it, it is found with its key,
the blob's length and offset, and the next record starts behind it. -/
def ReadsBack (id : CStr) (len ofs : Nat) : Prop :=
  ∀ (bi : BlobIndex) (front rest key : CStr) (ignorecase : Bool),
    bi.index = front ++ (indexRecord id len ofs ++ rest) → bi.next = front.length →
    (key = [] ∨ SameKey ignorecase key id) →
      ∃ bi', getIndexRecordCase bi key ignorecase = .found bi' id ∧ bi'.blen = len ∧
        bi'.bofs = ofs ∧ bi'.next = bi.next + (indexRecord id len ofs).length

/-- The bytes of a record, when its length is printed over blanks only. -/
def recordSize (id : CStr) (len ofs : Nat) : Nat :=
  id.length + (numeral 10 id.length).length + (numeral 10 len).length +
    (numeral 10 ofs).length + 9

/-! ## Short records -/

theorem readsBack_of_small {id : CStr} {len ofs : Nat} (hid : ValidId id) (hlen : 0 < len)
    (hint : len < 2 ^ 31) (hsize : recordSize id len ofs < 1000) (hofs : ofs < 2 ^ 31) :
    ReadsBack id len ofs := by
  intro bi front rest key ignorecase hindex hnext hkey
  let it : Item := ⟨id, List.replicate len 0, (numeral 10 ofs).length⟩
  have hblob : it.blob.length = len := List.length_replicate
  have hok : it.Ok := by
    refine ⟨hid, ?_, by rw [hblob]; exact hint, ?_⟩
    · intro hnil
      rw [hnil] at hblob
      exact absurd hblob (by simp; omega)
    · unfold Item.size
      rw [hblob]
      unfold recordSize at hsize
      show 4 + (numeral 10 id.length).length + 1 + id.length + 1 + (numeral 10 len).length + 1 +
        (numeral 10 ofs).length + 2 < 1000
      omega
  have hrecord : indexRecord id len ofs = it.text ofs := by
    have h := @indexRecord_eq it ofs hok rfl
    rwa [hblob] at h
  rw [hrecord] at hindex ⊢
  refine ⟨bi.at it ofs, ?_, hblob, rfl, ?_⟩
  · rw [getIndexRecordCase_text hindex hnext hok hofs (Nat.le_refl _), if_pos hkey]
  · rw [Item.length_text hok (Nat.le_refl _)]
    rfl

/-! ## The digits of a number -/

theorem lt_pow_length_numeral (n : Nat) : n < 10 ^ (numeral 10 n).length := by
  induction n using Nat.strongRecOn with
  | ind n ih =>
    rw [numeral_eq (by omega)]
    split
    · next h => simpa using h
    · next h =>
      have hdiv := ih (n / 10) (Nat.div_lt_self (by omega) (by omega))
      rw [List.length_append, List.length_singleton, Nat.pow_succ]
      omega

theorem scanDigits_lt {ds rest : CStr} {acc k : Nat} (hds : ∀ d ∈ ds, isDigit d = true)
    (hrest : EndsNumber rest) (hacc : acc < 10 ^ k) :
    (scanDigits 10 acc (ds ++ rest)).1 < 10 ^ (k + ds.length) := by
  induction ds generalizing acc k with
  | nil =>
    rw [List.nil_append, scanDigits_of_endsNumber hrest]
    exact hacc
  | cons d ds ih =>
    have hd := hds d List.mem_cons_self
    rw [List.cons_append, scanDigits]
    cases hval : digitVal 10 d with
    | none => exact absurd hval ((digitVal_ten d).mpr hd)
    | some v =>
      have hv : v < 10 := by
        unfold digitVal at hval
        split at hval
        · next hlt => exact Option.some.inj hval ▸ hlt
        · exact absurd hval (by simp)
      have hstep : acc * 10 + v < 10 ^ (k + 1) := by
        rw [Nat.pow_succ]
        omega
      have h := ih (fun b hb => hds b (List.mem_cons_of_mem _ hb)) hstep
      rwa [Nat.add_assoc, Nat.add_comm 1] at h

theorem atoi_lt_int (s : CStr) : atoi s < 2 ^ 31 := by
  have hcInt : ∀ n : Int, cInt n < 2 ^ 31 := fun n => Int.bmod_lt (by omega)
  unfold atoi
  split <;> exact hcInt _

/-! ## Long records -/

theorem lt_of_nextNumber {least : Int} {s r : CStr} {n : Nat}
    (h : nextNumber least s = some (n, r)) : n < 2 ^ 31 := by
  unfold nextNumber at h
  simp only at h
  split at h
  · exact absurd h (by simp)
  · split at h
    · exact absurd h (by simp)
    · have hn := (Prod.mk.inj (Option.some.inj h)).1
      have := atoi_lt_int (s.drop (strspn s isDelim))
      omega

/-- The token is where the digits are. -/
theorem nextNumber_eq {least : Int} {ds rest : CStr} (k : Nat) (hne : ds ≠ [])
    (hds : ∀ d ∈ ds, isDigit d = true) (hrest : EndsNumber rest) :
    nextNumber least (List.replicate k 32 ++ (ds ++ rest)) =
      if atoi (ds ++ rest) < least then none else some ((atoi (ds ++ rest)).toNat, rest) := by
  obtain ⟨d, ds, rfl⟩ := List.exists_cons_of_ne_nil hne
  have hdelim : strspn (List.replicate k 32 ++ (d :: ds ++ rest)) isDelim = k := by
    rw [strspn_append, List.length_replicate]
    · intro b hb
      rw [List.eq_of_mem_replicate hb]
      rfl
    · intro b hb
      obtain rfl := Option.some.inj hb
      exact isDelim_of_isDigit (hds _ List.mem_cons_self)
  unfold nextNumber
  simp only [hdelim]
  rw [List.drop_left' List.length_replicate, strspn_append hds hrest, List.drop_left, if_neg]
  simp

/-- Up to three digits do not wrap. -/
theorem atoi_lt_of_digits {ds rest : CStr} (hne : ds ≠ []) (hds : ∀ d ∈ ds, isDigit d = true)
    (hrest : EndsNumber rest) (hlen : ds.length ≤ 3) :
    atoi (ds ++ rest) < 10 ^ ds.length := by
  have hlt := @scanDigits_lt ds rest 0 0 hds hrest (by omega)
  rw [Nat.zero_add] at hlt
  have hpow : 10 ^ ds.length ≤ 10 ^ 3 := Nat.pow_le_pow_right (by omega) hlen
  obtain ⟨d, ds, rfl⟩ := List.exists_cons_of_ne_nil hne
  have hd := hds d List.mem_cons_self
  have hdrop : (d :: ds ++ rest).dropWhile isSpace = d :: ds ++ rest := by
    rw [List.cons_append, List.dropWhile_cons_of_neg]
    simp only [isDigit, Bool.and_eq_true, decide_eq_true_eq, UInt8.le_iff_toNat_le,
      UInt8.reduceToNat] at hd
    simp only [isSpace, Bool.or_eq_true, beq_iff_eq, Bool.and_eq_true, decide_eq_true_eq,
      UInt8.le_iff_toNat_le, UInt8.reduceToNat, ← UInt8.toNat_inj]
    omega
  unfold atoi
  rw [hdrop]
  split
  · next heq =>
    rw [(List.cons.inj heq).1] at hd
    exact absurd hd (by decide)
  · next heq =>
    rw [(List.cons.inj heq).1] at hd
    exact absurd hd (by decide)
  · rw [Nat.min_eq_left (by omega), cInt_of_lt (by omega)]
    exact_mod_cast hlt

theorem length_recordBody_eq (id : CStr) (len ofs : Nat) :
    (recordBody id len ofs).length = recordSize id len ofs := by
  rw [recordBody_eq]
  simp only [List.length_append, List.length_replicate, List.length_cons, List.length_nil]
  unfold recordSize
  omega

theorem length_numeral_le_ten {n : Nat} (h : n < 2 ^ 31) : (numeral 10 n).length ≤ 10 :=
  length_numeral_le_of_lt (by omega) 9 (by omega)

/-- How the numbers of digits are related: at most three digits of the key length are left,
and they say less. -/
theorem digits_of_large {n e k k' : Nat} (hk : k = (numeral 10 e).length)
    (hk' : k' = (numeral 10 n).length) (he : 1000 ≤ e) (hle : n ≤ e) (hnear : e ≤ n + k' + 29) :
    4 ≤ k ∧ k - 3 < k' ∧ k' - (k - 3) ≤ 3 ∧ 10 ^ (k' - (k - 3)) ≤ n := by
  have hn : n < 10 ^ k' := hk' ▸ lt_pow_length_numeral n
  have hlow : ∀ j, n < 10 ^ (j + 1) → k' ≤ j + 1 := fun j h => by
    rw [hk']
    exact length_numeral_le_of_lt (by omega) j h
  have hk4 : 4 ≤ k := by
    refine Nat.le_of_not_lt fun hlt => ?_
    have hpow : 10 ^ k ≤ 10 ^ 3 := Nat.pow_le_pow_right (by omega) (by omega)
    have := lt_pow_length_numeral e
    rw [← hk] at this
    omega
  have hk3 : 3 ≤ k' := by
    refine Nat.le_of_not_lt fun hlt => ?_
    have hpow : 10 ^ k' ≤ 10 ^ 2 := Nat.pow_le_pow_right (by omega) (by omega)
    omega
  have hmono : k' ≤ k := by
    rw [hk, hk']
    exact length_numeral_mono (by omega) hle
  have hnext : k ≤ k' + 1 := by
    have hself : k' < 10 ^ k' := Nat.lt_pow_self (by omega)
    have hthree : 10 ^ 3 ≤ 10 ^ k' := Nat.pow_le_pow_right (by omega) hk3
    have hlt : e < 10 ^ (k' + 1) := by
      rw [Nat.pow_succ]
      omega
    rw [hk]
    exact length_numeral_le_of_lt (by omega) k' hlt
  refine ⟨hk4, by omega, by omega, ?_⟩
  have hbig : 10 ^ (k' - 1) ≤ n := by
    refine Nat.le_of_not_lt fun hlt => ?_
    have := hlow (k' - 2) (by rw [show k' - 2 + 1 = k' - 1 by omega]; omega)
    omega
  exact Nat.le_trans (Nat.pow_le_pow_right (by omega) (by omega)) hbig

/-- Of a record with 1000 bytes or more a shorter key is read. -/
theorem ekl_lt_of_large {id rest : CStr} {len ofs : Nat} {rec : IndexRecord}
    (hint : len < 2 ^ 31) (hofs : ofs < 2 ^ 31) (hsize : 1000 ≤ recordSize id len ofs)
    (h : parseRecord (indexRecord id len ofs ++ rest) = some rec) : rec.ekl < id.length := by
  have hlen10 := length_numeral_le_ten hint
  have hofs10 := length_numeral_le_ten hofs
  obtain ⟨hk4, hdrop, hthree, hpow⟩ := digits_of_large (n := id.length) rfl rfl hsize
    (by unfold recordSize; omega) (by unfold recordSize; omega)
  generalize hes : recordSize id len ofs = e at *
  have hdigits : ∀ n, ∀ d ∈ numeral 10 n, isDigit d = true := fun _ _ => isDigit_of_mem_numeral
  -- what is left of the key length, and what is behind it
  let ds := (numeral 10 id.length).drop ((numeral 10 e).length - 3)
  have hds : ds.length = (numeral 10 id.length).length - ((numeral 10 e).length - 3) :=
    List.length_drop
  obtain ⟨tail, htail⟩ : ∃ tail, indexRecord id len ofs ++ rest =
      List.replicate 0 32 ++ (numeral 10 e ++ 32 :: (ds ++ 32 :: tail)) := by
    unfold indexRecord
    simp only
    rw [length_recordBody_eq, hes, recordBody_eq, List.drop_append, List.drop_of_length_le
      (by rw [List.length_replicate]; omega), List.nil_append, List.length_replicate,
      List.drop_append_of_le_length (by omega),
      show (numeral 10 e).length + 1 - 4 = (numeral 10 e).length - 3 by omega]
    exact ⟨_, by simp [ds]; rfl⟩
  have hdsdigits : ∀ d ∈ ds, isDigit d = true := fun d hd => hdigits _ d (List.mem_of_mem_drop hd)
  have hne : ds ≠ [] := List.ne_nil_of_length_pos (by omega)
  have hblank : EndsNumber (32 :: tail) := endsNumber_cons (by decide) _
  have hatoi := atoi_lt_of_digits hne hdsdigits hblank (by omega)
  have hbelow : (10 : Int) ^ ds.length ≤ id.length := by rw [hds]; exact_mod_cast hpow
  unfold parseRecord at h
  rw [htail, nextNumber_eq 0 (numeral_ne_nil (by omega) e) (hdigits e)
    (endsNumber_cons (by decide) _)] at h
  obtain ⟨⟨elen, s1⟩, h1, hrun⟩ := Option.bind_eq_some_iff.mp h
  split at h1
  · exact absurd h1 (by simp)
  · obtain ⟨-, rfl⟩ := Prod.mk.inj (Option.some.inj h1)
    have hsecond : 32 :: (ds ++ 32 :: tail) = List.replicate 1 32 ++ (ds ++ 32 :: tail) := rfl
    simp only at hrun
    rw [hsecond, nextNumber_eq 1 hne hdsdigits hblank] at hrun
    obtain ⟨⟨ekl, s2⟩, h2, hrun⟩ := Option.bind_eq_some_iff.mp hrun
    split at h2
    · exact absurd h2 (by simp)
    · obtain ⟨hekl, -⟩ := Prod.mk.inj (Option.some.inj h2)
      obtain ⟨⟨blen, s3⟩, -, hrun⟩ := Option.bind_eq_some_iff.mp hrun
      obtain ⟨⟨bofs, s4⟩, -, hrun⟩ := Option.bind_eq_some_iff.mp hrun
      have hrec : rec.ekl = ekl := by rw [← Option.some.inj hrun]
      omega

theorem bofs_lt {s : CStr} {rec : IndexRecord} (h : parseRecord s = some rec) :
    rec.bofs < 2 ^ 31 := by
  unfold parseRecord at h
  obtain ⟨⟨elen, s1⟩, -, hrun⟩ := Option.bind_eq_some_iff.mp h
  obtain ⟨⟨ekl, s2⟩, -, hrun⟩ := Option.bind_eq_some_iff.mp hrun
  obtain ⟨⟨blen, s3⟩, -, hrun⟩ := Option.bind_eq_some_iff.mp hrun
  obtain ⟨⟨bofs, s4⟩, hofs, hrun⟩ := Option.bind_eq_some_iff.mp hrun
  have hrec : rec.bofs = bofs := by rw [← Option.some.inj hrun]
  rw [hrec]
  exact lt_of_nextNumber hofs

/-- What is found is what was parsed. -/
theorem parseRecord_of_found {bi bi' : BlobIndex} {key keyb : CStr} {ignorecase : Bool}
    (h : getIndexRecordCase bi key ignorecase = .found bi' keyb) :
    ∃ rec, parseRecord (bi.index.drop bi.next) = some rec ∧ keyb = rec.kbptr.take rec.ekl ∧
      bi'.bofs = rec.bofs := by
  unfold getIndexRecordCase at h
  split at h
  · cases h
  · split at h
    · cases h
    · next rec hrec =>
      split at h
      · cases h
      · cases h
        exact ⟨rec, hrec, rfl, rfl⟩

theorem small_of_readsBack {id : CStr} {len ofs : Nat} (hint : len < 2 ^ 31)
    (h : ReadsBack id len ofs) : recordSize id len ofs < 1000 ∧ ofs < 2 ^ 31 := by
  obtain ⟨bi', hfound, -, hbofs, -⟩ :=
    h (BlobIndex.new (indexRecord id len ofs) 0) [] [] [] false (List.append_nil _).symm rfl
      (.inl rfl)
  obtain ⟨rec, hrec, hkey, hofs⟩ := parseRecord_of_found hfound
  have hlt : ofs < 2 ^ 31 := by
    rw [← hbofs, hofs]
    exact bofs_lt hrec
  refine ⟨Nat.lt_of_not_le fun hle => ?_, hlt⟩
  have hshort := @ekl_lt_of_large id [] len ofs rec hint hlt hle
    (by rw [List.append_nil]; exact hrec)
  have hlen := congrArg List.length hkey
  rw [List.length_take] at hlen
  omega

/-- Which records are read back. -/
theorem readsBack_iff {id : CStr} {len ofs : Nat} (hid : ValidId id) (hlen : 0 < len)
    (hint : len < 2 ^ 31) :
    ReadsBack id len ofs ↔ recordSize id len ofs < 1000 ∧ ofs < 2 ^ 31 :=
  ⟨small_of_readsBack hint, fun h => readsBack_of_small hid hlen hint h.1 h.2⟩

theorem readsBack_iff_short :
    ReadsBack (lit "a") 1 0 ↔ recordSize (lit "a") 1 0 < 1000 ∧ 0 < 2 ^ 31 :=
  readsBack_iff (by decide) (by decide) (by decide)

/-- A key of 1000 bytes: of its length `1000` the record keeps `000`. -/
theorem not_readsBack :
    ¬ ∀ (id : CStr) (len ofs : Nat), ValidId id → 0 < len → len < 2 ^ 31 → ofs < 2 ^ 31 →
      ReadsBack id len ofs := by
  intro h
  have hid : ValidId (List.replicate 1000 97) := by
    refine ⟨List.ne_nil_of_length_pos (by rw [List.length_replicate]; omega), fun hmem => ?_,
      fun b hb => ?_⟩
    · exact absurd (List.eq_of_mem_replicate hmem) (by decide)
    · rw [List.eq_of_mem_replicate (List.mem_of_mem_head? hb)]
      rfl
  have hsize := (small_of_readsBack (by decide) (h _ 1 0 hid (by decide) (by decide) (by decide))).1
  unfold recordSize at hsize
  rw [List.length_replicate] at hsize
  omega

end Sfcb.FileRepository
