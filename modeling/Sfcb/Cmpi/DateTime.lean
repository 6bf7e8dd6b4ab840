import Sfcb.Cmpi.Status
import Sfcb.Lib.Calendar
import Sfcb.Lib.Padded

/-!
# Texts of points in time and of intervals

`bin2chars` writes a number of microseconds as a text of 25 characters, and `chars2bin` reads
it. An interval is days, hours, minutes, seconds and microseconds side by side. A point in
time is the local date and time with the offset of the zone behind it.

Both ways agree on intervals (`interval_roundtrip`). They do not agree on points in time:
`mktime` takes the date for a local one and so has the offset in its result already, and
`chars2bin` subtracts the one of the text once more. `absolute_roundtrip_iff` says that this
is right in zones without an offset only.

Mirroring notes:
- `str[i] = 0` ends the text that is read before the place `i`; what is read there is `cut`.
- `localtime_r` and `mktime` are those of a zone with a fixed offset and the Gregorian
  calendar. `localtime_r` does not fail for any number of microseconds.
- `none` is a text that does not fit into `str_time`, or a null pointer `rc` that is followed.
- `tmp.tm_gmtoff` is not read by `mktime`.
-/

namespace Sfcb.Cmpi.DateTime

open Sfcb.Lib
open Sfcb.Lib.Calendar

/-! ## The zone -/

/-- A zone with a fixed offset, in minutes to the east. -/
structure Zone where
  offset : Int
  bound : offset.natAbs ≤ 24 * 60 + 59

/-- `timezone`: the seconds to the west. -/
def Zone.timezone (z : Zone) : Int := -(60 * z.offset)

/-- `daylight`. -/
def Zone.daylight (_ : Zone) : Int := 0

structure Tm where
  tm_year : Int
  tm_mon : Int
  tm_mday : Int
  tm_hour : Int
  tm_min : Int
  tm_sec : Int
  tm_isdst : Int
  deriving DecidableEq, Repr

/-- The days before the first of January 1970. -/
def epoch : Int := 719162

def localtime_r (z : Zone) (secs : Int) : Tm :=
  let here := secs - z.timezone
  let day := (here / 86400 + epoch).toNat
  let y := yearOf day
  let inYear := (day - yearStart y).toNat
  let monthDay := splitMonth (monthLengths y) inYear
  ⟨y - 1900, monthDay.1, monthDay.2 + 1, here % 86400 / 3600, here % 3600 / 60, here % 60,
    z.daylight⟩

def mktime (z : Zone) (tm : Tm) : Int :=
  let year := tm.tm_year + 1900 + tm.tm_mon / 12
  let day := yearStart year + monthStart year (tm.tm_mon % 12).toNat + (tm.tm_mday - 1) - epoch
  day * 86400 + tm.tm_hour * 3600 + tm.tm_min * 60 + tm.tm_sec + z.timezone

/-! ## Writing -/

/-- `strftime(…, "%Y%m%d%H%M%S.", …)`. -/
def strftime (tm : Tm) : CStr :=
  printInt (tm.tm_year + 1900) ++ (padded 2 (tm.tm_mon + 1).toNat ++ (padded 2 tm.tm_mday.toNat ++
    (padded 2 tm.tm_hour.toNat ++ (padded 2 tm.tm_min.toNat ++ (padded 2 tm.tm_sec.toNat ++
      lit ".")))))

def bin2chars (z : Zone) (msecs : UInt64) (interval : Bool) : Option CStr :=
  let secs := msecs / 1000000
  let usecs := msecs % 1000000
  if interval then
    let day_limit : UInt64 := 99999999
    let mins := secs / 60
    let seconds := secs % 60
    let hrs := mins / 60
    let mins := mins % 60
    let days := if hrs / 24 > day_limit then day_limit else hrs / 24
    let hrs := hrs % 24
    some (padded 8 days.toNat ++ (padded 2 hrs.toNat ++ (padded 2 mins.toNat ++
      (padded 2 seconds.toNat ++ (lit "." ++ (padded 6 usecs.toNat ++ lit ":000"))))))
  else
    let tm_time := localtime_r z secs.toNat
    let minutes := (if tm_time.tm_isdst ≠ 0 then 60 else 0) - z.timezone.tdiv 60
    let us_utc_time := (padded 6 usecs.toNat ++ signed 3 minutes).take 10
    let str_time := strftime tm_time ++ us_utc_time
    if str_time.length < 26 then some str_time else none

/-! ## Reading -/

/-- The text from `a` on when there is a zero at `b`. -/
def cut (s : CStr) (a b : Nat) : CStr := (s.take b).drop a

def chars2bin (z : Zone) (rc : Bool) (string : CStr) : Option (UInt64 × Option CMPIrc) :=
  let interval := string[21]? = some 58
  let offset : Int :=
    if string[21]? = some 43 ∨ string[21]? = some 45 then cInt (atoi (string.drop 21) * 60) else 0
  let msecs := UInt64.ofNat (strtoull (cut string 15 21))
  let secs := UInt64.ofNat (strtoull (cut string 12 14)) +
    UInt64.ofNat (strtoull (cut string 10 12)) * 60 +
    UInt64.ofNat (strtoull (cut string 8 10)) * 60 * 60
  if interval then
    let secs := secs + UInt64.ofNat (strtoull (cut string 0 8)) * 60 * 60 * 24
    some (msecs + secs * 1000000, none)
  else
    let tmp : Tm := ⟨atoi (cut string 0 4) - 1900, atoi (cut string 4 6) - 1,
      atoi (cut string 6 8), 0, 0, 0, z.daylight⟩
    let status := if mktime z tmp < 0 then some CMPIrc.ERR_INVALID_PARAMETER else none
    if status ≠ none ∧ rc = false then none
    else
      let msecs := msecs + secs * 1000000 + UInt64.ofInt (mktime z tmp) * 1000000
      some (msecs - UInt64.ofInt offset * 1000000, status)

/-! ## The fields -/

/-- The common shape of both texts. -/
def stamp (date : CStr) (hour min sec usecs : Nat) (tail : CStr) : CStr :=
  date ++ (padded 2 hour ++ (padded 2 min ++ (padded 2 sec ++ (lit "." ++
    (padded 6 usecs ++ tail)))))

/-- Fields of the widths they should have. -/
structure Fields (date : CStr) (hour min sec usecs : Nat) (tail : CStr) : Prop where
  date : date.length = 8
  hour : hour < 24
  min : min < 60
  sec : sec < 60
  usecs : usecs < 1000000
  tail : tail.length = 4

section Stamps

variable {date : CStr} {hour min sec usecs : Nat} {tail : CStr}

theorem length_two {n : Nat} (h : n < 100) : (padded 2 n).length = 2 :=
  length_padded (by omega) (by omega)

theorem Fields.length (h : Fields date hour min sec usecs tail) :
    (stamp date hour min sec usecs tail).length = 25 := by
  have h₁ := @length_two hour (by have := h.hour; omega)
  have h₂ := @length_two min (by have := h.min; omega)
  have h₃ := @length_two sec (by have := h.sec; omega)
  have h₄ : (padded 6 usecs).length = 6 := length_padded (by omega) (by have := h.usecs; omega)
  have hdot : (lit ".").length = 1 := by decide
  simp only [stamp, List.length_append, h.date, h₁, h₂, h₃, h₄, hdot, h.tail]

/-- What is between two places. -/
theorem cut_append {front mid rest : CStr} {a b : Nat} (ha : front.length = a)
    (hb : a + mid.length = b) : cut (front ++ (mid ++ rest)) a b = mid := by
  unfold cut
  rw [← List.append_assoc, List.take_left' (by rw [List.length_append]; omega),
    List.drop_left' ha]

/-- What is cut out of a text. -/
theorem Fields.cuts (h : Fields date hour min sec usecs tail) :
    cut (stamp date hour min sec usecs tail) 0 8 = date ∧
      cut (stamp date hour min sec usecs tail) 8 10 = padded 2 hour ∧
      cut (stamp date hour min sec usecs tail) 10 12 = padded 2 min ∧
      cut (stamp date hour min sec usecs tail) 12 14 = padded 2 sec ∧
      cut (stamp date hour min sec usecs tail) 15 21 = padded 6 usecs ∧
      (stamp date hour min sec usecs tail).drop 21 = tail := by
  have hdate := h.date
  have h₁ := @length_two hour (by have := h.hour; omega)
  have h₂ := @length_two min (by have := h.min; omega)
  have h₃ := @length_two sec (by have := h.sec; omega)
  have h₄ : (padded 6 usecs).length = 6 := length_padded (by omega) (by have := h.usecs; omega)
  have hdot : (lit ".").length = 1 := by decide
  unfold stamp
  refine ⟨?_, ?_, ?_, ?_, ?_, ?_⟩
  · exact @cut_append [] date _ 0 8 rfl (by omega)
  · exact cut_append hdate (by omega)
  · rw [← List.append_assoc]
    exact cut_append (by rw [List.length_append]; omega) (by omega)
  · rw [← List.append_assoc, ← List.append_assoc]
    exact cut_append (by simp only [List.length_append]; omega) (by omega)
  · rw [← List.append_assoc, ← List.append_assoc, ← List.append_assoc, ← List.append_assoc]
    exact cut_append (by simp only [List.length_append]; omega) (by omega)
  · simp only [← List.append_assoc]
    exact List.drop_left' (by simp only [List.length_append]; omega)

theorem getElem?_of_drop (s : CStr) (i : Nat) : s[i]? = (s.drop i).head? := by
  rw [List.head?_drop]

theorem strtoull_self (w : Nat) {n : Nat} (h : n < 2 ^ 64) : strtoull (padded w n) = n := by
  have hread := @strtoull_padded w n h [] fun _ hb => absurd hb (by simp)
  rwa [List.append_nil] at hread

/-- The seconds since midnight, as they are read. -/
theorem Fields.secs (h : Fields date hour min sec usecs tail) :
    UInt64.ofNat (strtoull (cut (stamp date hour min sec usecs tail) 12 14)) +
      UInt64.ofNat (strtoull (cut (stamp date hour min sec usecs tail) 10 12)) * 60 +
      UInt64.ofNat (strtoull (cut (stamp date hour min sec usecs tail) 8 10)) * 60 * 60 =
        UInt64.ofNat (sec + min * 60 + hour * 3600) := by
  obtain ⟨-, hhour, hmin, hsec, -, -⟩ := h.cuts
  have := h.hour
  have := h.min
  have := h.sec
  rw [hhour, hmin, hsec, strtoull_self 2 (by omega), strtoull_self 2 (by omega),
    strtoull_self 2 (by omega)]
  refine UInt64.toNat_inj.mp ?_
  simp only [UInt64.toNat_add, UInt64.toNat_mul, UInt64.toNat_ofNat', UInt64.toNat_ofNat, Nat.reducePow, Nat.reduceMod]
  omega

end Stamps

/-! ## Intervals -/

/-- `ddddddddhhmmss.mmmmmm:000`. -/
def IsInterval (s : CStr) : Prop :=
  ∃ days hours mins secs usecs : CStr, s = days ++ (hours ++ (mins ++ (secs ++ (lit "." ++
    (usecs ++ lit ":000"))))) ∧ days.length = 8 ∧ hours.length = 2 ∧ mins.length = 2 ∧
    secs.length = 2 ∧ usecs.length = 6 ∧
    ∀ b ∈ days ++ hours ++ mins ++ secs ++ usecs, isDigit b = true

theorem isInterval_stamp {days hour min sec usecs : Nat}
    (h : Fields (padded 8 days) hour min sec usecs (lit ":000")) :
    IsInterval (stamp (padded 8 days) hour min sec usecs (lit ":000")) := by
  refine ⟨padded 8 days, padded 2 hour, padded 2 min, padded 2 sec, padded 6 usecs, rfl,
    h.date, ?_, ?_, ?_, ?_, fun b hb => ?_⟩
  · exact length_two (by have := h.hour; omega)
  · exact length_two (by have := h.min; omega)
  · exact length_two (by have := h.sec; omega)
  · exact length_padded (by omega) (by have := h.usecs; omega)
  · simp only [List.mem_append] at hb
    obtain (((hb | hb) | hb) | hb) | hb := hb
    all_goals exact isDigit_of_mem_padded hb

theorem chars2bin_interval (z : Zone) (rc : Bool) {days hour min sec usecs : Nat}
    (hdays : days ≤ 99999999) (h : Fields (padded 8 days) hour min sec usecs (lit ":000")) :
    chars2bin z rc (stamp (padded 8 days) hour min sec usecs (lit ":000")) = some
      (UInt64.ofNat (usecs + (sec + min * 60 + hour * 3600 + days * 86400) * 1000000), none) := by
  obtain ⟨hdate, -, -, -, husecs, hdrop⟩ := h.cuts
  have hcolon : (stamp (padded 8 days) hour min sec usecs (lit ":000"))[21]? = some 58 := by
    rw [getElem?_of_drop, hdrop]
    decide
  have := h.hour
  have := h.min
  have := h.sec
  have := h.usecs
  unfold chars2bin
  rw [h.secs, hdate, husecs, strtoull_self 8 (by omega), strtoull_self 6 (by omega)]
  simp only [hcolon, if_true]
  rw [Option.some.injEq, Prod.mk.injEq]
  refine ⟨UInt64.toNat_inj.mp ?_, rfl⟩
  simp only [UInt64.toNat_add, UInt64.toNat_mul, UInt64.toNat_ofNat', UInt64.toNat_ofNat, Nat.reducePow, Nat.reduceMod]
  omega

/-- The fields that `bin2chars` writes for an interval. -/
theorem bin2chars_interval (z : Zone) (msecs : UInt64) : ∃ days hour mins sec usecs : Nat,
    bin2chars z msecs true = some (stamp (padded 8 days) hour mins sec usecs (lit ":000")) ∧
      Fields (padded 8 days) hour mins sec usecs (lit ":000") ∧
      days = min (msecs.toNat / 86400000000) 99999999 ∧
      usecs + (sec + mins * 60 + hour * 3600) * 1000000 = msecs.toNat % 86400000000 := by
  have hlt := msecs.toNat_lt
  have hdays : (if msecs / 1000000 / 60 / 60 / 24 > 99999999 then 99999999
      else msecs / 1000000 / 60 / 60 / 24).toNat = min (msecs.toNat / 86400000000) 99999999 := by
    have hquot : (msecs / 1000000 / 60 / 60 / 24).toNat = msecs.toNat / 86400000000 := by
      simp only [UInt64.toNat_div, UInt64.toNat_ofNat, Nat.reducePow, Nat.reduceMod]
      omega
    split
    · next h =>
      have h := UInt64.lt_iff_toNat_lt.mp h
      rw [hquot] at h
      have : (99999999 : UInt64).toNat = 99999999 := rfl
      exact (Nat.min_eq_right (by omega)).symm
    · next h =>
      rw [gt_iff_lt, UInt64.lt_iff_toNat_lt, hquot] at h
      rw [hquot]
      have : (99999999 : UInt64).toNat = 99999999 := rfl
      exact (Nat.min_eq_left (by omega)).symm
  refine ⟨_, (msecs / 1000000 / 60 / 60 % 24).toNat, (msecs / 1000000 / 60 % 60).toNat,
    (msecs / 1000000 % 60).toNat, (msecs % 1000000).toNat, rfl, ?_, hdays, ?_⟩
  · refine ⟨length_padded (by omega) ?_, ?_, ?_, ?_, ?_, by decide⟩
    · rw [hdays]
      omega
    all_goals
      simp only [UInt64.toNat_mod, UInt64.toNat_ofNat, Nat.reducePow, Nat.reduceMod]
      omega
  · simp only [UInt64.toNat_mod, UInt64.toNat_div, UInt64.toNat_ofNat, Nat.reducePow, Nat.reduceMod]
    omega

/-- The text of an interval has the format, and is read as the interval unless that has too many
days. -/
theorem interval_roundtrip (z : Zone) (msecs : UInt64) (rc : Bool) :
    ∃ str_time, bin2chars z msecs true = some str_time ∧ str_time.length = 25 ∧
      IsInterval str_time ∧
      (msecs.toNat / 86400000000 ≤ 99999999 → chars2bin z rc str_time = some (msecs, none)) := by
  obtain ⟨days, hour, min, sec, usecs, hwrite, hfields, hdays, hrest⟩ := bin2chars_interval z msecs
  have hle : days ≤ 99999999 := by
    rw [hdays]
    exact Nat.min_le_right _ _
  refine ⟨_, hwrite, hfields.length, isInterval_stamp hfields, fun h => ?_⟩
  rw [chars2bin_interval z rc hle hfields, Option.some.injEq, Prod.mk.injEq]
  refine ⟨UInt64.toNat_inj.mp ?_, rfl⟩
  have hlt := msecs.toNat_lt
  rw [Nat.min_eq_left h] at hdays
  rw [UInt64.toNat_ofNat']
  omega

/-! ## Points in time -/

section Absolute

variable {z : Zone} {secs : Int}

/-- What `localtime_r` gives, where the year is not before the first one. -/
structure IsLocal (z : Zone) (secs : Int) (tm : Tm) : Prop where
  mon : 0 ≤ tm.tm_mon ∧ tm.tm_mon < 12
  mday : 0 < tm.tm_mday ∧ tm.tm_mday ≤ 31
  hour : 0 ≤ tm.tm_hour ∧ tm.tm_hour < 24
  min : 0 ≤ tm.tm_min ∧ tm.tm_min < 60
  sec : 0 ≤ tm.tm_sec ∧ tm.tm_sec < 60
  isdst : tm.tm_isdst = 0
  midnight : mktime z ⟨tm.tm_year, tm.tm_mon, tm.tm_mday, 0, 0, 0, tm.tm_isdst⟩ =
    secs - (tm.tm_hour * 3600 + tm.tm_min * 60 + tm.tm_sec)

theorem isLocal_localtime_r (h : 0 ≤ (secs - z.timezone) / 86400 + epoch) :
    IsLocal z secs (localtime_r z secs) := by
  obtain ⟨day, hday⟩ := Int.eq_ofNat_of_zero_le h
  have hnat : ((secs - z.timezone) / 86400 + epoch).toNat = day := by
    rw [hday]
    rfl
  obtain ⟨hfrom, hto⟩ := yearOf_spec day
  rw [yearStart_succ] at hto
  have hin : ((day : Int) - yearStart (yearOf day)).toNat < (monthLengths (yearOf day)).sum := by
    rw [monthLengths_sum]
    by_cases hleap : isLeap (yearOf day) = true
    · rw [if_pos hleap] at hto ⊢
      omega
    · rw [if_neg hleap] at hto ⊢
      omega
  obtain ⟨hmon, hsum, m, hm, hmday⟩ := splitMonth_spec hin
  have hlong : ∀ n ∈ monthLengths (yearOf day), n ≤ 31 := by
    intro n hn
    unfold monthLengths at hn
    simp only [List.mem_cons, List.not_mem_nil, or_false] at hn
    split at hn <;> omega
  have hm31 := hlong m hm
  have htwelve : (monthLengths (yearOf day)).length = 12 := rfl
  unfold localtime_r
  simp only [hnat]
  refine ⟨by simp only; omega, by simp only; omega, by simp only; omega, by simp only; omega,
    by simp only; omega, rfl, ?_⟩
  have hmod : (((splitMonth (monthLengths (yearOf day))
      ((day : Int) - yearStart (yearOf day)).toNat).1 : Int) % 12).toNat =
      (splitMonth (monthLengths (yearOf day)) ((day : Int) - yearStart (yearOf day)).toNat).1 := by
    omega
  have hdiv : yearOf day - 1900 + 1900 + ((splitMonth (monthLengths (yearOf day))
      ((day : Int) - yearStart (yearOf day)).toNat).1 : Int) / 12 = yearOf day := by
    omega
  unfold mktime
  simp only [hmod, hdiv]
  unfold monthStart
  omega

theorem minutes_eq (z : Zone) : 0 - z.timezone.tdiv 60 = z.offset := by
  unfold Zone.timezone
  rw [Int.neg_tdiv, Int.mul_tdiv_cancel_left _ (by omega)]
  omega

/-- What is left of an offset in four bytes. -/
def written (n : Int) : Int :=
  if n.natAbs < 1000 then n else if n < 0 then -(n.natAbs / 10 : Nat) else (n.natAbs / 10 : Nat)

theorem written_spec {n : Int} (h : n.natAbs ≤ 24 * 60 + 59) :
    (written n).natAbs < 1000 ∧ (written n = 0 ↔ n = 0) := by
  unfold written
  split
  · exact ⟨by assumption, Iff.rfl⟩
  · split <;> omega

theorem take_signed {n : Int} (h : n.natAbs ≤ 24 * 60 + 59) :
    (signed 3 n).take 4 = signed 3 (written n) := by
  have hsign : ∀ m : Int, (if m < 0 then lit "-" else lit "+").length = 1 := fun m => by
    split <;> rfl
  by_cases hsmall : n.natAbs < 1000
  · have hlen : (signed 3 n).length = 1 + 3 := by
      rw [signed, List.length_append, hsign, length_padded (by omega) (by omega)]
    rw [written, if_pos hsmall, List.take_of_length_le (by omega)]
  · have hneg : written n < 0 ↔ n < 0 := by
      rw [written, if_neg hsmall]
      split <;> omega
    have habs : (written n).natAbs = n.natAbs / 10 := by
      rw [written, if_neg hsmall]
      split <;> omega
    have hlow : (numeral 10 (n.natAbs / 10)).length = 3 := by
      have hle := length_numeral_le_of_lt (by omega : 2 ≤ 10) 2 (show n.natAbs / 10 < 10 ^ 3 by omega)
      have hge := length_numeral_mono (by omega : 2 ≤ 10) (show 100 ≤ n.natAbs / 10 by omega)
      have hhundred : (numeral 10 100).length = 3 := by decide
      omega
    have hsplit : numeral 10 n.natAbs =
        numeral 10 (n.natAbs / 10) ++ [digitByte (n.natAbs % 10)] := by
      rw [numeral_eq (by omega) n.natAbs, if_neg (by omega)]
    have hpadded : padded 3 n.natAbs = padded 3 (n.natAbs / 10) ++ [digitByte (n.natAbs % 10)] := by
      unfold padded
      rw [hsplit, List.length_append, hlow]
      rfl
    unfold signed
    rw [habs, hpadded, ← List.append_assoc, List.take_left']
    · simp only [hneg]
    · rw [List.length_append, hsign, length_padded (by omega) (by omega)]

/-- The text of a point in time with a year of four digits. -/
theorem bin2chars_absolute {msecs : UInt64} {year : Nat}
    (hyear : (localtime_r z (msecs / 1000000).toNat).tm_year + 1900 = year)
    (hlow : 1000 ≤ year) (hhigh : year ≤ 9999) :
    ∃ mon mday hour min sec usecs : Nat,
      bin2chars z msecs false = some (stamp (numeral 10 year ++ (padded 2 mon ++ padded 2 mday))
        hour min sec usecs (signed 3 (written z.offset))) ∧
      Fields (numeral 10 year ++ (padded 2 mon ++ padded 2 mday)) hour min sec usecs
        (signed 3 (written z.offset)) ∧
      mon < 100 ∧ mday < 100 ∧
      usecs + (mktime z ⟨year - 1900, mon - 1, mday, 0, 0, 0, z.daylight⟩ +
        (sec + min * 60 + hour * 3600 : Nat)) * 1000000 = (msecs.toNat : Int) := by
  have hsecs : (msecs / 1000000).toNat = msecs.toNat / 1000000 := by
    rw [UInt64.toNat_div]
    rfl
  have husecs : (msecs % 1000000).toNat = msecs.toNat % 1000000 := by
    rw [UInt64.toNat_mod]
    rfl
  have hbound := z.bound
  have hlocal := @isLocal_localtime_r z (msecs / 1000000).toNat (by
    unfold Zone.timezone epoch
    omega)
  have hdigits : (numeral 10 year).length = 4 := by
    have hle := length_numeral_le_of_lt (by omega : 2 ≤ 10) 3 (show year < 10 ^ 4 by omega)
    have hge := length_numeral_mono (by omega : 2 ≤ 10) hlow
    have hthousand : (numeral 10 1000).length = 4 := by decide
    omega
  have hwritten := (written_spec hbound).1
  have htail : (signed 3 (written z.offset)).length = 4 := by
    have hsign : (if written z.offset < 0 then lit "-" else lit "+").length = 1 := by
      split <;> rfl
    rw [signed, List.length_append, hsign, length_padded (by omega) (by omega)]
  generalize htm : localtime_r z (msecs / 1000000).toNat = tm at hyear hlocal
  obtain ⟨hmon, hmday, hhour, hmin, hsec, hisdst, hmidnight⟩ := hlocal
  have hfields : Fields
      (numeral 10 year ++ (padded 2 (tm.tm_mon + 1).toNat ++ padded 2 tm.tm_mday.toNat))
      tm.tm_hour.toNat tm.tm_min.toNat tm.tm_sec.toNat (msecs % 1000000).toNat
      (signed 3 (written z.offset)) := by
    refine ⟨?_, by omega, by omega, by omega, by omega, htail⟩
    rw [List.length_append, List.length_append, hdigits, length_two (by omega),
      length_two (by omega)]
  have husec : (padded 6 (msecs % 1000000).toNat).length = 6 :=
    length_padded (by omega) (by omega)
  have htext : strftime tm ++ (padded 6 (msecs % 1000000).toNat ++
      signed 3 ((if tm.tm_isdst ≠ 0 then 60 else 0) - z.timezone.tdiv 60)).take 10 =
        stamp (numeral 10 year ++ (padded 2 (tm.tm_mon + 1).toNat ++ padded 2 tm.tm_mday.toNat))
          tm.tm_hour.toNat tm.tm_min.toNat tm.tm_sec.toNat (msecs % 1000000).toNat
          (signed 3 (written z.offset)) := by
    rw [if_neg (not_not.mpr hisdst), minutes_eq, List.take_append, husec,
      List.take_of_length_le (by omega), take_signed hbound]
    unfold strftime stamp
    rw [hyear, printInt_natCast]
    simp only [List.append_assoc]
  refine ⟨(tm.tm_mon + 1).toNat, tm.tm_mday.toNat, tm.tm_hour.toNat, tm.tm_min.toNat,
    tm.tm_sec.toNat, (msecs % 1000000).toNat, ?_, hfields, by omega, by omega, ?_⟩
  · unfold bin2chars
    simp only [Bool.false_eq_true, if_false]
    rw [htm, htext, if_pos (by rw [hfields.length]; omega)]
  · have hdate : (⟨year - 1900, (tm.tm_mon + 1).toNat - 1, tm.tm_mday.toNat, 0, 0, 0,
        z.daylight⟩ : Tm) = ⟨tm.tm_year, tm.tm_mon, tm.tm_mday, 0, 0, 0, tm.tm_isdst⟩ := by
      rw [Tm.mk.injEq]
      exact ⟨by omega, by omega, by omega, rfl, rfl, rfl, hisdst.symm⟩
    rw [hdate, hmidnight]
    omega

theorem ofNat_eq_ofInt (m : Nat) : UInt64.ofNat m = UInt64.ofInt m := by
  unfold UInt64.ofInt
  refine UInt64.toNat_inj.mp ?_
  simp only [UInt64.toNat_ofNat']
  omega

theorem ofInt_sub' (a b : Int) : UInt64.ofInt a - UInt64.ofInt b = UInt64.ofInt (a - b) := by
  rw [Int.sub_eq_add_neg, UInt64.ofInt_add, UInt64.ofInt_neg, UInt64.sub_eq_add_neg]

theorem ofInt_value (usecs sod : Nat) (t offset : Int) :
    UInt64.ofNat usecs + UInt64.ofNat sod * 1000000 + UInt64.ofInt t * 1000000 -
      UInt64.ofInt offset * 1000000 =
        UInt64.ofInt (usecs + (t + sod) * 1000000 - offset * 1000000) := by
  have hmillion : (1000000 : UInt64) = UInt64.ofInt 1000000 := rfl
  rw [hmillion, ofNat_eq_ofInt, ofNat_eq_ofInt, ← UInt64.ofInt_mul, ← UInt64.ofInt_mul,
    ← UInt64.ofInt_mul, ← UInt64.ofInt_add, ← UInt64.ofInt_add, ofInt_sub']
  refine congrArg UInt64.ofInt ?_
  omega

theorem chars2bin_absolute (rc : Bool) {year mon mday hour min sec usecs : Nat} {n : Int}
    (hn : n.natAbs < 1000) (hyear : 1000 ≤ year ∧ year ≤ 9999) (hmon : mon < 100)
    (hmday : mday < 100) (h : Fields (numeral 10 year ++ (padded 2 mon ++ padded 2 mday)) hour min
      sec usecs (signed 3 n)) {t : Int}
    (ht : mktime z ⟨year - 1900, mon - 1, mday, 0, 0, 0, z.daylight⟩ = t) :
    chars2bin z rc (stamp (numeral 10 year ++ (padded 2 mon ++ padded 2 mday)) hour min sec usecs
      (signed 3 n)) = if t < 0 ∧ rc = false then none else
        some (UInt64.ofInt (usecs + (t + (sec + min * 60 + hour * 3600 : Nat)) * 1000000 -
          n * 60 * 1000000), if t < 0 then some CMPIrc.ERR_INVALID_PARAMETER else none) := by
  obtain ⟨hdate, -, -, -, husecs, hdrop⟩ := h.cuts
  have hsecs := h.secs
  have hsign : (signed 3 n).head? = some 45 ∨ (signed 3 n).head? = some 43 := by
    unfold signed
    split
    · exact .inl rfl
    · exact .inr rfl
  have hend : EndsNumber [] := fun _ hb => absurd hb (by simp)
  have hdigits : (numeral 10 year).length = 4 := by
    have hle := length_numeral_le_of_lt (by omega : 2 ≤ 10) 3 (show year < 10 ^ 4 by omega)
    have hge := length_numeral_mono (by omega : 2 ≤ 10) hyear.1
    have hthousand : (numeral 10 1000).length = 4 := by decide
    omega
  generalize stamp (numeral 10 year ++ (padded 2 mon ++ padded 2 mday)) hour min sec usecs
    (signed 3 n) = text at hdate husecs hdrop hsecs ⊢
  have hcut : ∀ a b, b ≤ 8 →
      cut text a b = cut (numeral 10 year ++ (padded 2 mon ++ padded 2 mday)) a b := by
    intro a b hb
    rw [← hdate]
    unfold cut
    rw [List.drop_zero, List.take_take, Nat.min_eq_left hb]
  have h04 : cut text 0 4 = numeral 10 year ++ [] := by
    rw [hcut 0 4 (by omega), List.append_nil]
    exact @cut_append [] _ _ 0 4 rfl (by omega)
  have h46 : cut text 4 6 = padded 2 mon ++ [] := by
    rw [hcut 4 6 (by omega), List.append_nil]
    exact cut_append hdigits (by rw [length_two hmon])
  have h68 : cut text 6 8 = padded 2 mday ++ [] := by
    have hfront : (numeral 10 year ++ padded 2 mon).length = 6 := by
      rw [List.length_append, hdigits, length_two hmon]
    have hmid := @cut_append _ (padded 2 mday) [] 6 8 hfront (by rw [length_two hmday])
    rwa [List.append_nil, List.append_assoc, ← hcut 6 8 (by omega),
      ← List.append_nil (padded 2 mday)] at hmid
  have hhead : text[21]? = (signed 3 n).head? := by rw [getElem?_of_drop, hdrop]
  have hplus : text[21]? = some 43 ∨ text[21]? = some 45 := by
    rw [hhead]
    exact hsign.symm
  have hnot : ¬ text[21]? = some 58 := by
    obtain hs | hs := hplus <;> rw [hs] <;> decide
  have hoffset : cInt (atoi (text.drop 21) * 60) = n * 60 := by
    rw [hdrop, ← List.append_nil (signed 3 n), atoi_signed 3 (by omega) hend, cInt,
      Int.bmod_eq_of_le (by omega) (by omega)]
  have := h.usecs
  unfold chars2bin
  rw [hsecs, husecs, h04, h46, h68, atoi_numeral (by omega) hend, atoi_padded 2 (by omega) hend,
    atoi_padded 2 (by omega) hend, strtoull_self 6 (by omega), hoffset]
  simp only [hnot, if_false, hplus, if_true, ht]
  rw [ofInt_value]
  by_cases hneg : t < 0
  · cases rc <;> simp [hneg]
  · simp only [hneg, false_and, if_false, ne_eq, not_true_eq_false]

theorem ofInt_sub_eq_iff {x : UInt64} {c : Int} (hc : c.natAbs < 2 ^ 64) :
    UInt64.ofInt ((x.toNat : Int) - c) = x ↔ c = 0 := by
  have hlt := x.toNat_lt
  have hnat : (UInt64.ofInt ((x.toNat : Int) - c)).toNat = (((x.toNat : Int) - c) % 2 ^ 64).toNat := by
    unfold UInt64.ofInt
    rw [UInt64.toNat_ofNat']
    exact Nat.mod_eq_of_lt (by omega)
  rw [← UInt64.toNat_inj, hnat]
  omega

/-- Without an offset no day begins before the epoch. -/
theorem mktime_nonneg {tm : Tm} (hz : z.offset = 0) (hhour : tm.tm_hour = 0) (hmin : tm.tm_min = 0)
    (hsec : tm.tm_sec = 0) {sod : Nat} (hsod : sod < 86400) (h : 0 ≤ mktime z tm + sod) :
    0 ≤ mktime z tm := by
  unfold mktime Zone.timezone at h ⊢
  simp only [hhour, hmin, hsec, hz] at h ⊢
  omega

/-- The text of a point in time is read as that point in time if and only if the zone has no
offset. -/
theorem absolute_roundtrip_iff (z : Zone) (msecs : UInt64) (rc : Bool)
    (hlow : 1000 ≤ (localtime_r z (msecs / 1000000).toNat).tm_year + 1900)
    (hhigh : (localtime_r z (msecs / 1000000).toNat).tm_year + 1900 ≤ 9999) :
    (∃ str_time, bin2chars z msecs false = some str_time ∧
      (chars2bin z rc str_time).map Prod.fst = some msecs) ↔ z.offset = 0 := by
  obtain ⟨year, hyear⟩ := Int.eq_ofNat_of_zero_le (show 0 ≤ _ from Int.le_trans (by omega) hlow)
  rw [hyear] at hlow hhigh
  obtain ⟨mon, mday, hour, min, sec, usecs, hwrite, hfields, hmon, hmday, htime⟩ :=
    bin2chars_absolute hyear (by omega) (by omega)
  have hsmall := (written_spec z.bound).1
  have hzero := (written_spec z.bound).2
  have hread := @chars2bin_absolute z rc _ _ _ _ _ _ _ _ hsmall (by omega) hmon hmday hfields _ rfl
  have hnonneg := @mktime_nonneg z ⟨year - 1900, mon - 1, mday, 0, 0, 0, z.daylight⟩
  rw [htime] at hread
  generalize mktime z ⟨year - 1900, mon - 1, mday, 0, 0, 0, z.daylight⟩ = t at htime hread hnonneg
  have hiff : UInt64.ofInt ((msecs.toNat : Int) - written z.offset * 60 * 1000000) = msecs ↔
      z.offset = 0 := by
    rw [ofInt_sub_eq_iff (by omega), ← hzero]
    omega
  have hsod : sec + min * 60 + hour * 3600 < 86400 := by
    have := hfields.hour
    have := hfields.min
    have := hfields.sec
    omega
  constructor
  · intro ⟨str_time, hstr, hvalue⟩
    obtain rfl := Option.some.inj (hwrite.symm.trans hstr)
    rw [hread] at hvalue
    split at hvalue
    · exact absurd hvalue (by simp)
    · exact hiff.mp (Option.some.inj hvalue)
  · intro hoffset
    have hday := hnonneg hoffset rfl rfl rfl hsod (by have := hfields.usecs; omega)
    refine ⟨_, hwrite, ?_⟩
    rw [hread, if_neg (by omega), Option.map_some, hiff.mpr hoffset]

end Absolute

/-- One hour to the east. -/
def eastern : Zone := ⟨60, by decide⟩

def greenwich : Zone := ⟨0, by decide⟩

theorem absolute_roundtrip_greenwich :
    (∃ str_time, bin2chars greenwich 86400000000 false = some str_time ∧
      (chars2bin greenwich true str_time).map Prod.fst = some 86400000000) ↔
        greenwich.offset = 0 :=
  absolute_roundtrip_iff greenwich 86400000000 true (by decide +kernel) (by decide +kernel)

/-- The day after the epoch, one hour to the east. -/
theorem not_absolute_roundtrip : ¬ ∃ str_time,
    bin2chars eastern 86400000000 false = some str_time ∧
      (chars2bin eastern true str_time).map Prod.fst = some 86400000000 := by
  intro ⟨str_time, hwrite, hread⟩
  have htext : bin2chars eastern 86400000000 false = some (lit "19700102010000.000000+060") := by
    decide +kernel
  obtain rfl := Option.some.inj (htext.symm.trans hwrite)
  have hvalue : (chars2bin eastern true (lit "19700102010000.000000+060")).map Prod.fst =
      some 82800000000 := by
    decide +kernel
  exact absurd (hvalue.symm.trans hread) (by decide)

end Sfcb.Cmpi.DateTime
