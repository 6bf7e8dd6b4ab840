import Sfcb.CimXml.Escape
import Sfcb.Lib.Words

/-!
# What unescaping reads and writes

`xmlUnescape` and its loop in `getContent` once more, this time in the memory that they work
on, with a log of every access. The text is between `buf` and `end`, and the zero that the
lexer has put at `end` belongs to it.

`strchr` starts two bytes behind the `&`, which is behind that zero if the `&` is the last byte.
And a semicolon ten bytes behind the `&` is still looked at: an entity that does not begin with
`&#` is then copied with the semicolon, which makes eleven bytes for the ten of `escchar`.
`unescape_inBounds_iff` says that nothing else goes wrong.

Mirroring notes:
- Memory is the bytes from `buf` on to where the buffer ends; positions are those behind `buf`.
- A log has the accesses of one call, and `end` moves down from call to call.
- Contents have fewer than 2 ^ 31 bytes: how many bytes are moved is an `int` behind a numeric
  reference.
-/

namespace Sfcb.CimXml

open Sfcb.Lib

/-! ## The code with its accesses -/

/-- Some bytes that are read or written, of the content or of `escchar`. -/
inductive Access where
  | read (pos count : Nat)
  | write (pos count : Nat)
  | readLocal (pos count : Nat)
  | writeLocal (pos count : Nat)
  deriving Repr, DecidableEq

/-- How far `strchr` gets before it stops at the byte or at a zero. -/
def strchrSpan (mem : CStr) (c : UInt8) : Nat :=
  (mem.takeWhile fun b => b ≠ c ∧ b ≠ 0).length

/-- `strchr`, as a distance. -/
def strchrAt (mem : CStr) (c : UInt8) : Option Nat :=
  if mem[strchrSpan mem c]? = some c then some (strchrSpan mem c) else none

/-- What `strncpy` copies before it pads with zeros. -/
def strncpyTaken (src : CStr) (n : Nat) : CStr := (src.take n).takeWhile (· ≠ 0)

/-- The number in `escchar`. -/
def scanReference (escchar : CStr) : Scanned :=
  if escchar.head? = some 120 ∨ escchar.head? = some 88 then sscanf 16 (escchar.drop 1)
  else sscanf 10 escchar

/-- What a call does: its accesses, memory afterwards, and how many bytes have been removed. -/
structure Unescaped where
  log : List Access
  mem : CStr
  removed : Nat
  deriving Repr, DecidableEq

/-- The byte goes to the first place, and `memmove` moves what is behind the reference. -/
def replaceBy (log : List Access) (mem : CStr) (len : Nat) (c : UInt8) (diflen : Nat) : Unescaped where
  log := log ++ [.write 0 1, .read diflen (len + 1 - diflen), .write 1 (len + 1 - diflen)]
  mem := c :: (mem.drop diflen).take (len + 1 - diflen) ++ mem.drop (len + 2 - diflen)
  removed := diflen - 1

/-- `xmlUnescape`; `len` is `end - buf`. -/
def xmlUnescapeAt (mem : CStr) (len : Nat) : Unescaped :=
  let rest := mem.drop 2
  let semi := Access.read 2 (strchrSpan rest 59 + 1)
  let amp := Access.read 2 (strchrSpan rest 38 + 1)
  match strchrAt rest 59 with
  | none => ⟨[semi], mem, 0⟩
  | some i =>
    if (strchrAt rest 38).any (· < i) then ⟨[semi, amp], mem, 0⟩
    else if i + 2 > 10 then ⟨[semi, amp], mem, 0⟩
    else if mem[1]? = some 35 then
      let escchar := strncpyTaken rest i
      let log := [semi, amp, .read 1 1, .read 2 i, .writeLocal 0 i,
        .readLocal 0 (escchar.length + 1)]
      match scanReference escchar with
      | .failed => ⟨log, mem, 0⟩
      | .eof => replaceBy log mem len 0 (escchar.length + 3)
      | .value n => replaceBy log mem len (UInt8.ofInt n) (escchar.length + 3)
    else
      let escchar := strncpyTaken mem (i + 3)
      let log := [semi, amp, .read 1 1, .read 0 (min (i + 3) (escchar.length + 1)),
        .writeLocal 0 (i + 3), .readLocal 0 6]
      match xmlEscapeTab.find? fun e => strncmp escchar e.escaped e.len = 0 with
      | some e => replaceBy log mem len e.unescaped e.len
      | none => ⟨log, mem, 0⟩

/-- A call of the loop, with the length of the text that is left. -/
structure Call where
  len : Nat
  log : List Access
  deriving Repr, DecidableEq

/-- The loop of `getContent`: its calls, `none` if the rounds do not suffice. -/
def unescapeCalls : Nat → CStr → Nat → Option (List Call)
  | _, _, 0 => some []
  | 0, _, _ + 1 => none
  | fuel + 1, mem, len + 1 =>
    if mem.head? = some 38 then
      let out := xmlUnescapeAt mem (len + 1)
      (unescapeCalls fuel out.mem.tail (len - out.removed)).map (⟨len + 1, out.log⟩ :: ·)
    else unescapeCalls fuel mem.tail len

/-! ## What is allowed -/

/-- The text with its zero, and the ten bytes of `escchar`. -/
def Access.InRange (len : Nat) : Access → Prop
  | .read pos count => count = 0 ∨ pos + count ≤ len + 1
  | .write pos count => count = 0 ∨ pos + count ≤ len + 1
  | .readLocal pos count => pos + count ≤ 10
  | .writeLocal pos count => pos + count ≤ 10

/-- Nothing is written beyond what has been read. -/
def WritesBehind : Nat → List Access → Prop
  | _, [] => True
  | readTo, .read pos count :: log =>
    WritesBehind (if count = 0 then readTo else max readTo (pos + count)) log
  | readTo, .write pos count :: log => (count = 0 ∨ pos + count ≤ readTo) ∧ WritesBehind readTo log
  | readTo, .readLocal _ _ :: log => WritesBehind readTo log
  | readTo, .writeLocal _ _ :: log => WritesBehind readTo log

/-- A call stays in its text. The loop has read the first byte. -/
structure Call.Safe (call : Call) : Prop where
  inRange : ∀ a ∈ call.log, a.InRange call.len
  writesBehind : WritesBehind 1 call.log

/-- What may follow a `&`: not nothing, and not a semicolon nine bytes on. -/
def Fits (s : CStr) : Prop :=
  s ≠ [] ∧ ¬ ∃ c w rest, s = c :: w ++ 59 :: rest ∧ c ≠ 35 ∧ w.length = 8 ∧
    ∀ b ∈ w, b ≠ 59 ∧ b ≠ 38 ∧ b ≠ 0

/-! ## Lemmas -/

section Strchr

variable {mem s behind : CStr} {c : UInt8} {i : Nat}

/-- A search ends at the zero behind the text at the latest. -/
theorem strchrSpan_le (s behind : CStr) (c : UInt8) :
    strchrSpan (s ++ 0 :: behind) c ≤ s.length := by
  unfold strchrSpan
  induction s with
  | nil => simp
  | cons b s ih =>
    rw [List.cons_append, List.takeWhile_cons]
    split
    · simpa using ih
    · simp

theorem strchrAt_eq_some (hi : strchrAt (s ++ 0 :: behind) c = some i) (hc : c ≠ 0) :
    ∃ w rest, s = w ++ c :: rest ∧ w.length = i ∧ ∀ b ∈ w, b ≠ c ∧ b ≠ 0 := by
  unfold strchrAt at hi
  split at hi
  · next hbyte =>
    obtain rfl : strchrSpan (s ++ 0 :: behind) c = i := by simpa using hi
    clear hi
    unfold strchrSpan at hbyte ⊢
    induction s with
    | nil => simp [hc.symm] at hbyte
    | cons b s ih =>
      rw [List.cons_append, List.takeWhile_cons] at hbyte ⊢
      split at hbyte
      · next hb =>
        rw [if_pos hb]
        obtain ⟨w, rest, rfl, hw, hall⟩ := ih (by simpa using hbyte)
        refine ⟨b :: w, rest, rfl, by simp [hw], ?_⟩
        intro x hx
        rcases List.mem_cons.mp hx with rfl | hx
        · simpa using hb
        · exact hall x hx
      · next hb =>
        rw [if_neg hb]
        obtain rfl : b = c := by simpa using hbyte
        exact ⟨[], s, rfl, rfl, by simp⟩
  · cases hi

theorem strchrAt_append {w rest : CStr} (hw : ∀ b ∈ w, b ≠ c ∧ b ≠ 0) :
    strchrAt (w ++ c :: rest) c = some w.length := by
  have hspan : strchrSpan (w ++ c :: rest) c = w.length := by
    unfold strchrSpan
    rw [List.takeWhile_append_of_pos (by simpa using hw), List.takeWhile_cons_of_neg (by simp),
      List.append_nil]
  unfold strchrAt
  rw [hspan, if_pos (by simp)]

/-- No byte stands before another one if its search does not end there. -/
theorem notMem_of_strchrAt {w rest : CStr} {d : UInt8} (hw : ∀ b ∈ w, b ≠ 0)
    (hnot : ¬ (strchrAt (w ++ c :: rest) d).any (· < w.length) = true) : d ∉ w := by
  intro hd
  obtain ⟨front, back, rfl, hfront⟩ := List.eq_append_cons_of_mem hd
  have hbefore : ∀ b ∈ front, b ≠ d ∧ b ≠ 0 :=
    fun b hb => ⟨fun heq => hfront (heq ▸ hb), hw b (List.mem_append_left _ hb)⟩
  rw [List.append_assoc, List.cons_append, strchrAt_append hbefore] at hnot
  simp at hnot

theorem mem_of_strchrAt {w rest : CStr} {d : UInt8}
    (hany : (strchrAt (w ++ rest) d).any (· < w.length) = true) : d ∈ w := by
  unfold strchrAt at hany
  split at hany
  · next hbyte =>
    have hlt : strchrSpan (w ++ rest) d < w.length := by simpa using hany
    rw [List.getElem?_append_left hlt] at hbyte
    exact List.mem_of_getElem? hbyte
  · cases hany

end Strchr

section Safe

variable {log log' : List Access} {len readTo : Nat}

theorem writesBehind_append (hlog : ∀ a ∈ log, ∀ pos count, a ≠ .write pos count)
    (h : ∀ readTo', readTo ≤ readTo' → WritesBehind readTo' log') :
    WritesBehind readTo (log ++ log') := by
  induction log generalizing readTo with
  | nil => exact h readTo (Nat.le_refl _)
  | cons a log ih =>
    have hrest := fun a ha => hlog a (List.mem_cons_of_mem _ ha)
    cases a with
    | read pos count =>
      refine ih hrest fun readTo' hle => h readTo' (Nat.le_trans ?_ hle)
      split
      · exact Nat.le_refl _
      · exact Nat.le_max_left _ _
    | write pos count => exact absurd rfl (hlog _ List.mem_cons_self pos count)
    | readLocal pos count => exact ih hrest h
    | writeLocal pos count => exact ih hrest h

/-- A log without writes to the content is safe if its accesses are in range. -/
theorem safe_of_reads (hlog : ∀ a ∈ log, ∀ pos count, a ≠ .write pos count)
    (hrange : ∀ a ∈ log, a.InRange len) : Call.Safe ⟨len, log⟩ := by
  refine ⟨hrange, ?_⟩
  show WritesBehind 1 log
  rw [← List.append_nil log]
  exact writesBehind_append hlog fun _ _ => trivial

/-- The move of the rest of the text is safe behind such a log. -/
theorem safe_replaceBy {mem : CStr} {c : UInt8} {diflen : Nat}
    (hlog : ∀ a ∈ log, ∀ pos count, a ≠ .write pos count) (hrange : ∀ a ∈ log, a.InRange len)
    (hpos : 1 ≤ diflen) (hle : diflen ≤ len) :
    Call.Safe ⟨len, (replaceBy log mem len c diflen).log⟩ := by
  constructor
  · intro a ha
    rcases List.mem_append.mp ha with ha | ha
    · exact hrange a ha
    · simp only [List.mem_cons, List.not_mem_nil, or_false] at ha
      obtain rfl | rfl | rfl := ha
      · exact .inr (by omega)
      · exact .inr (by show diflen + (len + 1 - diflen) ≤ len + 1; omega)
      · exact .inr (by show 1 + (len + 1 - diflen) ≤ len + 1; omega)
  · refine writesBehind_append hlog fun readTo' hreadTo => ⟨.inr hreadTo, ?_⟩
    rw [WritesBehind, if_neg (by omega)]
    exact ⟨.inr (Nat.le_trans (by omega) (Nat.le_max_right _ _)), trivial⟩

end Safe

section Replace

variable {text behind : CStr} {c : UInt8} {diflen : Nat} {log : List Access}

/-- What is behind the reference comes next, and a zero behind it. -/
theorem replaceBy_tail (hle : diflen ≤ text.length) : ∃ behind',
    (replaceBy log (text ++ 0 :: behind) text.length c diflen).mem.tail =
      text.drop diflen ++ 0 :: behind' := by
  refine ⟨(text ++ 0 :: behind).drop (text.length + 2 - diflen), ?_⟩
  have hmoved : ((text ++ 0 :: behind).drop diflen).take (text.length + 1 - diflen) =
      text.drop diflen ++ [0] := by
    rw [List.drop_append_of_le_length hle, List.append_cons]
    exact List.take_left' (by simp; omega)
  simp only [replaceBy, List.cons_append, List.tail_cons, hmoved, List.append_assoc,
    List.nil_append]

/-- Where no `&` has been removed, the ones that follow are those that follow in the rest. -/
theorem suffix_drop_iff {s t : CStr} {k : Nat} (hno : 38 ∉ s.take k) :
    38 :: t <:+ s ↔ 38 :: t <:+ s.drop k := by
  constructor
  · rintro ⟨front, rfl⟩
    have hk : k ≤ front.length := by
      by_contra hlt
      refine hno ?_
      rw [List.take_append, List.mem_append]
      refine .inr ?_
      obtain ⟨j, hj⟩ : ∃ j, k - front.length = j + 1 := ⟨k - front.length - 1, by omega⟩
      rw [hj, List.take_succ_cons]
      exact List.mem_cons_self
    rw [List.drop_append_of_le_length hk]
    exact List.suffix_append _ _
  · intro h
    exact h.trans (List.drop_suffix k s)

end Replace

/-! ## A call -/

section Calls

variable {s u w rest behind : CStr} {c : UInt8}

/-- With a semicolon in sight it is the place of this one that matters. -/
theorem fits_cons_iff (hw : ∀ b ∈ w, b ≠ 59 ∧ b ≠ 0) :
    Fits (c :: w ++ 59 :: rest) ↔ ¬ (c ≠ 35 ∧ w.length = 8 ∧ 38 ∉ w) := by
  unfold Fits
  constructor
  · rintro ⟨-, hno⟩ ⟨hc, hlen, hamp⟩
    exact hno ⟨c, w, rest, rfl, hc, hlen,
      fun b hb => ⟨(hw b hb).1, fun heq => hamp (heq ▸ hb), (hw b hb).2⟩⟩
  · intro hno
    refine ⟨by simp, ?_⟩
    rintro ⟨c', w', rest', heq, hc, hlen, hall⟩
    obtain ⟨rfl, htail⟩ := List.cons.inj heq
    obtain ⟨rfl, -⟩ := append_cons_unique (fun h => (hw 59 h).1 rfl) (fun h => (hall 59 h).1 rfl)
      htail
    exact hno ⟨hc, hlen, fun hamp => (hall 38 hamp).2.1 rfl⟩

/-- Without a semicolon in sight there is nothing to copy. -/
theorem fits_of_strchrAt_none (hnone : strchrAt (u ++ 0 :: behind) 59 = none) : Fits (c :: u) := by
  refine ⟨by simp, ?_⟩
  rintro ⟨c', w, rest, heq, -, -, hall⟩
  obtain rfl : u = w ++ 59 :: rest := (List.cons.inj heq).2
  rw [List.append_assoc, List.cons_append,
    strchrAt_append fun b hb => ⟨(hall b hb).1, (hall b hb).2.2⟩] at hnone
  cases hnone

/-- A name of the table that is found is what `escchar` begins with. -/
theorem xmlEscapeTab_find {escchar : CStr} {e : XmlEscape} (hzero : 0 ∉ escchar)
    (hfind : xmlEscapeTab.find? (fun e => strncmp escchar e.escaped e.len = 0) = some e) :
    4 ≤ e.len ∧ escchar.take e.len = e.escaped ∧ e.escaped.length = e.len ∧
      38 ∉ e.escaped.tail := by
  have htable : ∀ e ∈ xmlEscapeTab, 4 ≤ e.len ∧ e.escaped.length = e.len ∧ 0 ∉ e.escaped ∧
      38 ∉ e.escaped.tail := by decide
  obtain ⟨hlong, hlen, hno, hamp⟩ := htable e (List.mem_of_find?_eq_some hfind)
  have hcmp : strncmp escchar e.escaped e.len = 0 := by simpa using List.find?_some hfind
  have htake : e.escaped.take e.len = e.escaped := List.take_of_length_le (by omega)
  unfold strncmp at hcmp
  rw [htake, strcmp_eq_zero_iff_of_notMem (fun h => hzero (List.mem_of_mem_take h)) hno] at hcmp
  exact ⟨hlong, hcmp, hlen, hamp⟩

/-- What is left after a call: the rest of the text, with every `&` that was in it. -/
def Leaves (s : CStr) (out : Unescaped) : Prop :=
  ∃ behind', out.mem.tail = s.drop out.removed ++ 0 :: behind' ∧ out.removed ≤ s.length ∧
    38 ∉ s.take out.removed

theorem leaves_same (behind : CStr) (log : List Access) :
    Leaves s ⟨log, 38 :: s ++ 0 :: behind, 0⟩ :=
  ⟨behind, rfl, Nat.zero_le _, by simp⟩

theorem leaves_replaceBy {log : List Access} {diflen : Nat} (hpos : 1 ≤ diflen)
    (hle : diflen ≤ s.length + 1) (hno : 38 ∉ s.take (diflen - 1)) :
    Leaves s (replaceBy log (38 :: s ++ 0 :: behind) (s.length + 1) c diflen) := by
  obtain ⟨behind', htail⟩ := @replaceBy_tail (38 :: s) behind c diflen log hle
  obtain ⟨k, rfl⟩ : ∃ k, diflen = k + 1 := ⟨diflen - 1, by omega⟩
  exact ⟨behind', htail, Nat.le_of_succ_le_succ hle, hno⟩

/-- The accesses that both ways begin with. -/
theorem inRange_search (c : UInt8) (u behind : CStr) (d : UInt8) :
    (Access.read 2 (strchrSpan (u ++ 0 :: behind) d + 1)).InRange (c :: u).length.succ := by
  have hle := strchrSpan_le u behind d
  refine .inr ?_
  simp only [List.length_cons]
  omega

/-- The bytes of a reference are copied, as none of them is a zero. -/
theorem strncpyTaken_append {tail : CStr} (hzero : 0 ∉ w) : strncpyTaken (w ++ tail) w.length = w := by
  unfold strncpyTaken
  rw [List.take_left' rfl]
  exact List.takeWhile_eq_self_iff.mpr fun b hb =>
    decide_eq_true fun heq : b = 0 => hzero (heq ▸ hb)

theorem safe_number {log : List Access} (hamp : 38 ∉ w)
    (hlog : log = [Access.read 2 (strchrSpan (w ++ 59 :: rest ++ 0 :: behind) 59 + 1),
      .read 2 (strchrSpan (w ++ 59 :: rest ++ 0 :: behind) 38 + 1), .read 1 1, .read 2 w.length,
      .writeLocal 0 w.length, .readLocal 0 (w.length + 1)])
    (hboth : ∀ d, (Access.read 2 (strchrSpan (w ++ 59 :: rest ++ 0 :: behind) d + 1)).InRange
      ((35 :: (w ++ 59 :: rest)).length + 1)) (hlong : w.length ≤ 8) (scanned : Scanned) :
    (fun out : Unescaped => Call.Safe ⟨(35 :: (w ++ 59 :: rest)).length + 1, out.log⟩ ∧
        Leaves (35 :: (w ++ 59 :: rest)) out)
      (match scanned with
        | .failed => ⟨log, 38 :: (35 :: (w ++ 59 :: rest)) ++ 0 :: behind, 0⟩
        | .eof => replaceBy log (38 :: (35 :: (w ++ 59 :: rest)) ++ 0 :: behind)
          ((35 :: (w ++ 59 :: rest)).length + 1) 0 (w.length + 3)
        | .value n => replaceBy log (38 :: (35 :: (w ++ 59 :: rest)) ++ 0 :: behind)
          ((35 :: (w ++ 59 :: rest)).length + 1) (UInt8.ofInt n) (w.length + 3)) := by
  have hreads : ∀ a ∈ log, ∀ pos count, a ≠ .write pos count := by
    rw [hlog]
    simp
  have hrange : ∀ a ∈ log, a.InRange ((35 :: (w ++ 59 :: rest)).length + 1) := by
    rw [hlog]
    simp only [List.mem_cons, List.not_mem_nil, or_false, forall_eq_or_imp, forall_eq]
    refine ⟨hboth 59, hboth 38, .inr ?_, .inr ?_, ?_, ?_⟩
    · simp only [List.length_cons]
      omega
    · simp only [List.length_cons, List.length_append]
      omega
    · show 0 + w.length ≤ 10
      omega
    · show 0 + (w.length + 1) ≤ 10
      omega
  have hle : w.length + 3 ≤ (35 :: (w ++ 59 :: rest)).length + 1 := by
    simp only [List.length_cons, List.length_append]
    omega
  have hno : 38 ∉ (35 :: (w ++ 59 :: rest)).take (w.length + 3 - 1) := by
    have htake : (35 :: (w ++ 59 :: rest)).take (w.length + 3 - 1) = 35 :: w ++ [59] := by
      rw [List.append_cons, ← List.cons_append]
      exact List.take_left' (by simp)
    rw [htake]
    simp [hamp]
  cases scanned with
  | failed => exact ⟨safe_of_reads hreads hrange, leaves_same behind log⟩
  | eof =>
    exact ⟨safe_replaceBy hreads hrange (by omega) hle, leaves_replaceBy (by omega) hle hno⟩
  | value n =>
    exact ⟨safe_replaceBy hreads hrange (by omega) hle, leaves_replaceBy (by omega) hle hno⟩

/-- A name of the table lies before the end of the text. -/
theorem xmlEscapeTab_le {e : XmlEscape} (hfind : xmlEscapeTab.find? (fun e =>
      strncmp (strncpyTaken (38 :: (c :: (w ++ 59 :: rest)) ++ 0 :: behind) (w.length + 3))
        e.escaped e.len = 0) = some e) :
    1 ≤ e.len ∧ e.len ≤ w.length + 3 ∧ 38 ∉ (c :: (w ++ 59 :: rest)).take (e.len - 1) := by
  have hcopied : strncpyTaken (38 :: (c :: (w ++ 59 :: rest)) ++ 0 :: behind) (w.length + 3) <+:
      38 :: (c :: (w ++ 59 :: rest)) ++ 0 :: behind :=
    (List.takeWhile_prefix _).trans (List.take_prefix _ _)
  have hshort : (strncpyTaken (38 :: (c :: (w ++ 59 :: rest)) ++ 0 :: behind)
      (w.length + 3)).length ≤ w.length + 3 :=
    (List.takeWhile_prefix _).length_le.trans (List.length_take_le _ _)
  have hzero : 0 ∉ strncpyTaken (38 :: (c :: (w ++ 59 :: rest)) ++ 0 :: behind) (w.length + 3) := by
    intro h
    simpa using (List.all_eq_true.mp List.all_takeWhile) 0 h
  obtain ⟨hlong, htake, hlen, hamp⟩ := xmlEscapeTab_find hzero hfind
  generalize strncpyTaken (38 :: (c :: (w ++ 59 :: rest)) ++ 0 :: behind) (w.length + 3) = escchar
    at hcopied hshort htake
  have hle : e.len ≤ escchar.length := by
    rw [← hlen, ← htake, List.length_take]
    omega
  refine ⟨by omega, by omega, ?_⟩
  obtain ⟨tail, htail⟩ := hcopied
  have hescaped : e.escaped = 38 :: (c :: (w ++ 59 :: rest)).take (e.len - 1) := by
    rw [← htake, ← @List.take_append_of_le_length _ _ tail _ hle, htail]
    obtain ⟨k, hk⟩ : ∃ k, e.len = k + 1 := ⟨e.len - 1, by omega⟩
    rw [hk, List.cons_append, List.take_succ_cons, Nat.add_sub_cancel,
      List.take_append_of_le_length]
    simp only [List.length_cons, List.length_append]
    omega
  rw [hescaped, List.tail_cons] at hamp
  exact hamp

theorem safe_name {log : List Access}
    (hlog : log = [Access.read 2 (strchrSpan (w ++ 59 :: rest ++ 0 :: behind) 59 + 1),
      .read 2 (strchrSpan (w ++ 59 :: rest ++ 0 :: behind) 38 + 1), .read 1 1,
      .read 0 (min (w.length + 3)
        ((strncpyTaken (38 :: (c :: (w ++ 59 :: rest)) ++ 0 :: behind) (w.length + 3)).length + 1)),
      .writeLocal 0 (w.length + 3), .readLocal 0 6])
    (hboth : ∀ d, (Access.read 2 (strchrSpan (w ++ 59 :: rest ++ 0 :: behind) d + 1)).InRange
      ((c :: (w ++ 59 :: rest)).length + 1)) (hlong : w.length ≤ 8) :
    (fun out : Unescaped =>
        (Call.Safe ⟨(c :: (w ++ 59 :: rest)).length + 1, out.log⟩ ↔ w.length ≠ 8) ∧
        Leaves (c :: (w ++ 59 :: rest)) out)
      (match xmlEscapeTab.find? fun e => strncmp
          (strncpyTaken (38 :: (c :: (w ++ 59 :: rest)) ++ 0 :: behind) (w.length + 3))
          e.escaped e.len = 0 with
        | some e => replaceBy log (38 :: (c :: (w ++ 59 :: rest)) ++ 0 :: behind)
          ((c :: (w ++ 59 :: rest)).length + 1) e.unescaped e.len
        | none => ⟨log, 38 :: (c :: (w ++ 59 :: rest)) ++ 0 :: behind, 0⟩) := by
  have hreads : ∀ a ∈ log, ∀ pos count, a ≠ .write pos count := by
    rw [hlog]
    simp
  have hrange : w.length ≠ 8 → ∀ a ∈ log, a.InRange ((c :: (w ++ 59 :: rest)).length + 1) := by
    intro hne
    rw [hlog]
    simp only [List.mem_cons, List.not_mem_nil, or_false, forall_eq_or_imp, forall_eq]
    refine ⟨hboth 59, hboth 38, .inr ?_, .inr ?_, ?_, ?_⟩
    · simp only [List.length_cons]
      omega
    · simp only [List.length_cons, List.length_append]
      omega
    · show 0 + (w.length + 3) ≤ 10
      omega
    · show 0 + 6 ≤ 10
      omega
  -- eleven bytes do not go into `escchar`
  have hover : ∀ log' : List Access, (∀ a ∈ log, a ∈ log') →
      Call.Safe ⟨(c :: (w ++ 59 :: rest)).length + 1, log'⟩ → w.length ≠ 8 := by
    intro log' hsub hsafe
    have hcopy : Access.writeLocal 0 (w.length + 3) ∈ log := by
      rw [hlog]
      simp
    have hle : 0 + (w.length + 3) ≤ 10 := hsafe.inRange _ (hsub _ hcopy)
    omega
  cases hfind : xmlEscapeTab.find? fun e => strncmp
      (strncpyTaken (38 :: (c :: (w ++ 59 :: rest)) ++ 0 :: behind) (w.length + 3))
      e.escaped e.len = 0 with
  | none =>
    exact ⟨⟨hover log fun a ha => ha, fun hne => safe_of_reads hreads (hrange hne)⟩,
      leaves_same behind log⟩
  | some e =>
    obtain ⟨hpos, hle, hno⟩ := xmlEscapeTab_le hfind
    have hle' : e.len ≤ (c :: (w ++ 59 :: rest)).length + 1 := by
      simp only [List.length_cons, List.length_append]
      omega
    exact ⟨⟨hover _ fun a ha => List.mem_append_left _ ha,
      fun hne => safe_replaceBy hreads (hrange hne) hpos hle'⟩, leaves_replaceBy hpos hle' hno⟩

/-- One call: it is safe exactly if what follows the `&` fits, and leaves the rest of the text. -/
theorem safe_xmlUnescapeAt (c : UInt8) (u behind : CStr) :
    (Call.Safe ⟨(c :: u).length + 1,
        (xmlUnescapeAt (38 :: (c :: u) ++ 0 :: behind) ((c :: u).length + 1)).log⟩ ↔ Fits (c :: u)) ∧
      Leaves (c :: u) (xmlUnescapeAt (38 :: (c :: u) ++ 0 :: behind) ((c :: u).length + 1)) := by
  have hdrop : (38 :: (c :: u) ++ 0 :: behind).drop 2 = u ++ 0 :: behind := rfl
  have hsearch : ∀ d, (Access.read 2 (strchrSpan (u ++ 0 :: behind) d + 1)).InRange
      ((c :: u).length + 1) := fun d => inRange_search c u behind d
  unfold xmlUnescapeAt
  simp only [hdrop]
  cases hi : strchrAt (u ++ 0 :: behind) 59 with
  | none =>
    refine ⟨iff_of_true (safe_of_reads ?_ ?_) (fits_of_strchrAt_none hi), leaves_same behind _⟩
    · simp
    · simpa using hsearch 59
  | some i =>
    obtain ⟨w, rest, rfl, rfl, hw⟩ := strchrAt_eq_some hi (by decide)
    have hzero : 0 ∉ w := fun h => (hw 0 h).2 rfl
    have hfits := @fits_cons_iff w rest c hw
    rw [List.cons_append] at hfits
    dsimp only
    rw [hfits]
    have hboth : ∀ a ∈ [Access.read 2 (strchrSpan (w ++ 59 :: rest ++ 0 :: behind) 59 + 1),
        Access.read 2 (strchrSpan (w ++ 59 :: rest ++ 0 :: behind) 38 + 1)],
        a.InRange ((c :: (w ++ 59 :: rest)).length + 1) := by
      simp only [List.mem_cons, List.not_mem_nil, or_false, forall_eq_or_imp, forall_eq]
      exact ⟨hsearch 59, hsearch 38⟩
    have hassoc : w ++ 59 :: rest ++ 0 :: behind = w ++ 59 :: (rest ++ 0 :: behind) :=
      List.append_assoc ..
    by_cases hany : ((strchrAt (w ++ 59 :: rest ++ 0 :: behind) 38).any (· < w.length)) = true
    · -- another `&` before the semicolon
      rw [if_pos hany]
      rw [hassoc] at hany
      have hmem : 38 ∈ w := mem_of_strchrAt hany
      refine ⟨iff_of_true (safe_of_reads (by simp) hboth) ?_, leaves_same behind _⟩
      exact fun h => h.2.2 hmem
    · rw [if_neg hany]
      rw [hassoc] at hany
      have hamp : 38 ∉ w := notMem_of_strchrAt (fun b hb => (hw b hb).2) hany
      by_cases hlong : w.length + 2 > 10
      · rw [if_pos hlong]
        refine ⟨iff_of_true (safe_of_reads (by simp) hboth) ?_, leaves_same behind _⟩
        rintro ⟨-, height, -⟩
        omega
      · rw [if_neg hlong]
        by_cases hhash : c = 35
        · subst hhash
          have hcopied : strncpyTaken (w ++ 59 :: rest ++ 0 :: behind) w.length = w := by
            rw [hassoc]
            exact strncpyTaken_append hzero
          have hbyte : (38 :: (35 :: (w ++ 59 :: rest)) ++ 0 :: behind)[1]? = some 35 := rfl
          rw [if_pos hbyte, hcopied]
          have hone := safe_number hamp rfl hsearch (by omega) (scanReference w)
          refine ⟨iff_of_true hone.1 ?_, hone.2⟩
          exact fun h => h.1 rfl
        · have hbyte : ¬ (38 :: (c :: (w ++ 59 :: rest)) ++ 0 :: behind)[1]? = some 35 :=
            fun h => hhash (Option.some.inj h)
          rw [if_neg hbyte]
          have hone := safe_name rfl hsearch (by omega)
          refine ⟨hone.1.trans ?_, hone.2⟩
          exact ⟨fun hne h => hne h.2.1, fun h height => h ⟨hhash, height, hamp⟩⟩

end Calls

/-! ## The loop -/

section Loop

variable {text behind : CStr} {fuel : Nat}

/-- Whatever a call does, it looks for the semicolon first. -/
theorem search_mem_log (mem : CStr) (len : Nat) :
    Access.read 2 (strchrSpan (mem.drop 2) 59 + 1) ∈ (xmlUnescapeAt mem len).log := by
  unfold xmlUnescapeAt
  dsimp only
  split
  · exact List.mem_cons_self
  · split_ifs
    · exact List.mem_cons_self
    · exact List.mem_cons_self
    · split <;> simp [replaceBy]
    · split <;> simp [replaceBy]

/-- The loop over a text: its calls stay in range exactly if every `&` has something behind it
that fits. The induction is on the text, and what is behind it changes on the way. -/
theorem unescapeCalls_safe_iff (hfuel : text.length ≤ fuel) :
    (∃ calls, unescapeCalls fuel (text ++ 0 :: behind) text.length = some calls ∧
      ∀ call ∈ calls, call.Safe) ↔ ∀ t, 38 :: t <:+ text → Fits t := by
  induction fuel generalizing text behind with
  | zero =>
    obtain rfl : text = [] := List.length_eq_zero_iff.mp (Nat.le_zero.mp hfuel)
    exact iff_of_true ⟨[], rfl, by simp⟩ fun t ht => absurd (List.suffix_nil.mp ht) (by simp)
  | succ fuel ih =>
    cases text with
    | nil => exact iff_of_true ⟨[], rfl, by simp⟩ fun t ht => absurd (List.suffix_nil.mp ht) (by simp)
    | cons b s =>
      have hs : s.length ≤ fuel := Nat.le_of_succ_le_succ hfuel
      rw [List.length_cons, unescapeCalls]
      by_cases hb : b = 38
      · subst hb
        have hamp : (38 :: s ++ 0 :: behind).head? = some 38 := rfl
        rw [if_pos hamp]
        have hhead : ∀ {P : CStr → Prop}, (∀ t, 38 :: t <:+ 38 :: s → P t) ↔
            P s ∧ ∀ t, 38 :: t <:+ s → P t := by
          intro P
          simp only [List.suffix_cons_iff, List.cons.injEq, true_and]
          exact ⟨fun h => ⟨h s (.inl rfl), fun t ht => h t (.inr ht)⟩,
            fun h t ht => ht.elim (fun heq => heq ▸ h.1) (h.2 t)⟩
        rw [hhead]
        dsimp only
        cases s with
        | nil =>
          -- the search begins behind the zero
          refine iff_of_false ?_ fun h => h.1.1 rfl
          rintro ⟨calls, hcalls, hsafe⟩
          obtain ⟨rest, -, rfl⟩ := Option.map_eq_some_iff.mp hcalls
          have hfirst := (hsafe _ List.mem_cons_self).inRange
          rcases hfirst _ (search_mem_log _ _) with h | h
          · omega
          · simp only [List.length_nil] at h
            omega
        | cons c u =>
          obtain ⟨hsafe, behind', htail, hle, hno⟩ := safe_xmlUnescapeAt c u behind
          have hlen : (c :: u).length - (xmlUnescapeAt (38 :: (c :: u) ++ 0 :: behind)
              ((c :: u).length + 1)).removed = ((c :: u).drop (xmlUnescapeAt
                (38 :: (c :: u) ++ 0 :: behind) ((c :: u).length + 1)).removed).length := by
            rw [List.length_drop]
          rw [htail, hlen, ← hsafe]
          have hrest := @ih ((c :: u).drop (xmlUnescapeAt (38 :: (c :: u) ++ 0 :: behind)
            ((c :: u).length + 1)).removed) behind' (by rw [List.length_drop]; omega)
          have hsuffix : ∀ t, 38 :: t <:+ c :: u ↔ 38 :: t <:+ (c :: u).drop (xmlUnescapeAt
              (38 :: (c :: u) ++ 0 :: behind) ((c :: u).length + 1)).removed :=
            fun t => suffix_drop_iff hno
          simp only [hsuffix]
          rw [← hrest]
          constructor
          · rintro ⟨calls, hcalls, hall⟩
            obtain ⟨rest, hrun, rfl⟩ := Option.map_eq_some_iff.mp hcalls
            exact ⟨hall _ List.mem_cons_self, rest, hrun,
              fun call hcall => hall call (List.mem_cons_of_mem _ hcall)⟩
          · rintro ⟨hfirst, rest, hrun, hall⟩
            refine ⟨_, by rw [hrun]; rfl, ?_⟩
            intro call hcall
            rcases List.mem_cons.mp hcall with rfl | hcall
            · exact hfirst
            · exact hall call hcall
      · have hhead : ¬ (b :: s ++ 0 :: behind).head? = some 38 := fun h => hb (Option.some.inj h)
        rw [if_neg hhead]
        have hsuffix : ∀ t, 38 :: t <:+ b :: s ↔ 38 :: t <:+ s := by
          intro t
          rw [List.suffix_cons_iff]
          exact or_iff_right fun heq => hb (List.cons.inj heq).1.symm
        simp only [hsuffix]
        exact ih hs

/-- Unescaping a content that the lexer has delimited: with a round for each byte the loop comes
to an end, every call inside the text and `escchar` and writing behind what it has read, exactly
if no `&` is the last byte of the content and none stands ten bytes before a semicolon without
being followed by `#`. -/
theorem unescape_inBounds_iff (text behind : CStr) :
    (∃ calls, unescapeCalls text.length (text ++ 0 :: behind) text.length = some calls ∧
      ∀ call ∈ calls, call.Safe) ↔ ∀ t, 38 :: t <:+ text → Fits t :=
  unescapeCalls_safe_iff (Nat.le_refl _)

/-- Eleven bytes are copied into `escchar`. -/
theorem not_unescape_inBounds : ¬ ∃ calls,
    unescapeCalls (lit "&abcdefghi;").length (lit "&abcdefghi;" ++ 0 :: []) (lit "&abcdefghi;").length =
      some calls ∧ ∀ call ∈ calls, call.Safe := by
  intro h
  have htext : lit "&abcdefghi;" = 38 :: lit "abcdefghi;" := by decide
  have hfits := (unescapeCalls_safe_iff (Nat.le_refl _)).mp h (lit "abcdefghi;")
    (by rw [htext])
  have hname : lit "bcdefghi" = [98, 99, 100, 101, 102, 103, 104, 105] := by decide
  exact hfits.2 ⟨97, lit "bcdefghi", [], by decide, by decide, by decide, by rw [hname]; simp⟩

end Loop

/-! ## The text that results -/

section Text

variable {u behind : CStr} {c : UInt8}

/-- In a text without zeros both searches are the same. -/
theorem strchrAt_eq_strchr {d : UInt8} (hzero : 0 ∉ u) (hd : d ≠ 0) :
    strchrAt (u ++ 0 :: behind) d = strchr u d := by
  by_cases hmem : d ∈ u
  · obtain ⟨w, rest, rfl, hw⟩ := List.eq_append_cons_of_mem hmem
    have hbefore : ∀ b ∈ w, b ≠ d ∧ b ≠ 0 := fun b hb =>
      ⟨fun heq => hw (heq ▸ hb), fun heq => hzero (heq ▸ List.mem_append_left _ hb)⟩
    have hfirst : strchr (d :: rest) d = some 0 := by
      unfold strchr
      rw [List.findIdx?_cons, if_pos (by simp)]
    rw [List.append_assoc, List.cons_append, strchrAt_append hbefore, strchr_append hw, hfirst,
      Option.map_some, Nat.zero_add]
  · have hnone : strchr u d = none := by
      unfold strchr
      rw [List.findIdx?_eq_none_iff]
      intro b hb
      have hne : b ≠ d := fun heq => hmem (heq ▸ hb)
      simpa using hne
    rw [hnone]
    cases hi : strchrAt (u ++ 0 :: behind) d with
    | none => rfl
    | some i =>
      obtain ⟨w, rest, rfl, -, -⟩ := strchrAt_eq_some hi hd
      exact absurd (by simp) hmem

theorem replaceBy_mem {text : CStr} {log : List Access} {diflen : Nat} (hle : diflen ≤ text.length) :
    ∃ behind', (replaceBy log (text ++ 0 :: behind) text.length c diflen).mem =
      c :: text.drop diflen ++ 0 :: behind' := by
  obtain ⟨behind', htail⟩ := @replaceBy_tail text behind c diflen log hle
  exact ⟨behind', congrArg (c :: ·) htail⟩

/-- Where a call stays in range and the text has no zero in it, memory has the text that
`xmlUnescape` makes of it, with a zero behind. -/
theorem xmlUnescapeAt_mem (before : Option CStr) (hzero : 0 ∉ c :: u) (hfits : Fits (c :: u)) :
    ∃ out behind', xmlUnescape before (38 :: c :: u) = some out ∧
      (xmlUnescapeAt (38 :: (c :: u) ++ 0 :: behind) ((c :: u).length + 1)).mem =
        out ++ 0 :: behind' := by
  have hu : 0 ∉ u := fun h => hzero (List.mem_cons_of_mem _ h)
  have hdrop : (38 :: (c :: u) ++ 0 :: behind).drop 2 = u ++ 0 :: behind := rfl
  have hrest : (38 :: c :: u).drop 2 = u := rfl
  unfold xmlUnescape xmlUnescapeAt
  rw [if_neg (by simp), Option.bind_some]
  simp only [hdrop, hrest, strchrAt_eq_strchr hu (by decide : (59 : UInt8) ≠ 0),
    strchrAt_eq_strchr hu (by decide : (38 : UInt8) ≠ 0)]
  cases hi : strchr u 59 with
  | none => exact ⟨_, behind, rfl, rfl⟩
  | some i =>
    obtain ⟨w, rest, rfl, rfl, hw⟩ :=
      strchrAt_eq_some ((strchrAt_eq_strchr hu (by decide)).trans hi : strchrAt (u ++ 0 :: behind) 59 = _)
        (by decide)
    have hzero' : 0 ∉ w := fun h => (hw 0 h).2 rfl
    have hbyte : (38 :: (c :: (w ++ 59 :: rest)) ++ 0 :: behind)[1]? =
        (38 :: c :: (w ++ 59 :: rest))[1]? := rfl
    have hcopied : strncpyTaken (w ++ 59 :: rest ++ 0 :: behind) w.length = w := by
      rw [List.append_assoc]
      exact strncpyTaken_append hzero'
    dsimp only
    rw [hbyte, hcopied]
    by_cases hany : (strchr (w ++ 59 :: rest) 38).any (· < w.length) = true
    · rw [if_pos hany, if_pos hany]
      exact ⟨_, behind, rfl, rfl⟩
    rw [if_neg hany, if_neg hany]
    by_cases hlong : w.length + 2 > 10
    · rw [if_pos hlong, if_pos hlong]
      exact ⟨_, behind, rfl, rfl⟩
    rw [if_neg hlong, if_neg hlong]
    by_cases hhash : (38 :: c :: (w ++ 59 :: rest))[1]? = some 35
    · have htake : (w ++ 59 :: rest).take (w.length + 2 - 2) = w := List.take_left' rfl
      have hle : w.length + 3 ≤ (38 :: c :: (w ++ 59 :: rest)).length := by
        simp only [List.length_cons, List.length_append]
        omega
      rw [if_pos hhash, if_pos hhash, htake]
      change ∃ out behind', (match scanReference w with
        | .failed => some (38 :: c :: (w ++ 59 :: rest))
        | .eof => some (0 :: (38 :: c :: (w ++ 59 :: rest)).drop (w.length + 3))
        | .value n => some (UInt8.ofInt n :: (38 :: c :: (w ++ 59 :: rest)).drop (w.length + 3))) =
          some out ∧ _
      cases scanReference w with
      | failed => exact ⟨_, behind, rfl, rfl⟩
      | eof =>
        obtain ⟨behind', hmem⟩ := @replaceBy_mem behind 0 (38 :: c :: (w ++ 59 :: rest)) _ _ hle
        exact ⟨_, behind', rfl, hmem⟩
      | value n =>
        obtain ⟨behind', hmem⟩ :=
          @replaceBy_mem behind (UInt8.ofInt n) (38 :: c :: (w ++ 59 :: rest)) _ _ hle
        exact ⟨_, behind', rfl, hmem⟩
    rw [if_neg hhash, if_neg hhash]
    split_ifs with hover
    · -- too long for `escchar`
      have hamp : 38 ∉ w := by
        rw [← @strchrAt_eq_strchr _ behind 38 hu (by decide), List.append_assoc] at hany
        exact notMem_of_strchrAt (fun b hb => (hw b hb).2) hany
      have hc : c ≠ 35 := fun heq => hhash (congrArg some heq)
      have hno := (fits_cons_iff hw).mp hfits
      exact absurd ⟨hc, by omega, hamp⟩ hno
    · have hcopied' : strncpyTaken (38 :: (c :: (w ++ 59 :: rest)) ++ 0 :: behind) (w.length + 3) =
          (38 :: c :: (w ++ 59 :: rest)).take (w.length + 2 + 1) := by
        have hsplit : 38 :: (c :: (w ++ 59 :: rest)) ++ 0 :: behind =
            (38 :: c :: w ++ [59]) ++ (rest ++ 0 :: behind) := by simp
        have hsplit' : 38 :: c :: (w ++ 59 :: rest) = (38 :: c :: w ++ [59]) ++ rest := by simp
        have hno : 0 ∉ 38 :: c :: w ++ [59] := by
          have hc : (0 : UInt8) ≠ c := fun heq => hzero (heq ▸ List.mem_cons_self)
          simp [hc, hzero']
        have hlen : w.length + 3 = (38 :: c :: w ++ [59]).length := by simp
        rw [hsplit, hlen, strncpyTaken_append hno, hsplit']
        exact (List.take_left' (by simp)).symm
      rw [hcopied']
      cases hfind : xmlEscapeTab.find? fun e => decide (strncmp
          ((38 :: c :: (w ++ 59 :: rest)).take (w.length + 2 + 1)) e.escaped e.len = 0) with
      | none => exact ⟨_, behind, rfl, rfl⟩
      | some e =>
        rw [← hcopied'] at hfind
        obtain ⟨-, hle, -⟩ := xmlEscapeTab_le hfind
        obtain ⟨behind', hmem⟩ := @replaceBy_mem behind e.unescaped
          (38 :: c :: (w ++ 59 :: rest)) _ e.len (by simp; omega)
        exact ⟨_, behind', rfl, hmem⟩

end Text

end Sfcb.CimXml
