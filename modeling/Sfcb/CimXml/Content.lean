import Sfcb.CimXml.Escape
import Sfcb.Lib.Strip

/-!
# The content of an element

`getContent` takes the text up to the next `<`, strips both ends and unescapes the rest. What
it strips is what compares as a `char` to be at most a blank, and a `char` is signed: bytes
from 128 on, of which all characters but the ASCII ones are made, are negative.

`getContent_strips_iff` says that the content comes back without its white space and control
characters where it then begins and ends with a printable ASCII character, or is empty, and
nowhere else.

Mirroring notes:
- `cur` is the text from `xb->cur` to `xb->last`.
- The loop over the end of the content is not told where that begins. It stops there all the
  same: in front of it is the `>` of the tag.
- Behind the end there are zeros where something was stripped, and else what follows the `<`.
-/

namespace Sfcb.CimXml

open Sfcb.Lib

structure XmlBuffer where
  cur : CStr
  nulledChar : UInt8
  eTagFound : Bool
  deriving DecidableEq, Repr

/-- A byte as a `char`. -/
def signedChar (b : UInt8) : Int := if b.toNat < 128 then b.toNat else b.toNat - 256

/-- `*start <= ' '`. -/
def skipped (b : UInt8) : Bool := signedChar b ≤ 32

/-- `getContent`: the text that is returned, and the buffer afterwards. -/
def getContent (xb : XmlBuffer) : Option (Option CStr × XmlBuffer) :=
  if xb.eTagFound then some (none, xb)
  else
    let content := xb.cur.takeWhile (· != 60)
    let after := xb.cur.drop content.length
    let xb := { xb with cur := if after = [] then [] else 0 :: after.tail, nulledChar := after.headD 0 }
    let start := content.dropWhile skipped
    let kept := start.rdropWhile skipped
    let behind :=
      if kept.length < start.length then some [] else if after = [] then none else some after.tail
    (unescape behind kept).map fun out => (some (out.takeWhile (· != 0)), xb)

/-! ## What is stripped -/

/-- ASCII white space and control characters. -/
def blank (b : UInt8) : Bool := b ≤ 32 ∨ b = 127

/-- The blanks that are skipped. -/
def low (b : UInt8) : Bool := b ≤ 32

def printable (b : UInt8) : Bool := 32 < b ∧ b < 127

theorem skipped_iff (b : UInt8) : skipped b = true ↔ b ≤ 32 ∨ 128 ≤ b := by
  unfold skipped signedChar
  rw [decide_eq_true_eq, UInt8.le_iff_toNat_le, UInt8.le_iff_toNat_le]
  have := b.toNat_lt
  have h32 : (32 : UInt8).toNat = 32 := rfl
  have h128 : (128 : UInt8).toNat = 128 := rfl
  rw [h32, h128]
  split <;> omega

theorem blank_iff (b : UInt8) : blank b = true ↔ b ≤ 32 ∨ b = 127 := by
  unfold blank
  rw [decide_eq_true_eq]

/-- Neither the code nor the definition strips it. -/
theorem printable_iff (b : UInt8) :
    printable b = true ↔ ¬ skipped b = true ∧ ¬ blank b = true := by
  rw [skipped_iff, blank_iff]
  unfold printable
  rw [decide_eq_true_eq, UInt8.le_iff_toNat_le, UInt8.le_iff_toNat_le, UInt8.lt_iff_toNat_lt,
    UInt8.lt_iff_toNat_lt, ← UInt8.toNat_inj]
  have h32 : (32 : UInt8).toNat = 32 := rfl
  have h127 : (127 : UInt8).toNat = 127 := rfl
  have h128 : (128 : UInt8).toNat = 128 := rfl
  rw [h32, h127, h128]
  omega

theorem low_of_skipped {b : UInt8} (h : skipped b = true) (h' : blank b = true) :
    low b = true := by
  rw [skipped_iff] at h
  rw [blank_iff] at h'
  unfold low
  rw [decide_eq_true_eq]
  obtain h | h := h
  · exact h
  · obtain h' | rfl := h'
    · exact h'
    · exact absurd h (by decide)

/-! ## The content -/

/-- Without `&` nothing is unescaped. -/
theorem unescape_of_notMem {behind : Option CStr} {content : CStr} (h : 38 ∉ content) :
    unescape behind content = some content := by
  unfold unescape
  induction content with
  | nil => rfl
  | cons b content ih =>
    have hne : b ≠ 38 := fun he => h (he ▸ List.mem_cons_self)
    rw [List.length_cons, unescapeLoop, if_neg hne, ih fun hin => h (List.mem_cons_of_mem _ hin),
      Option.map_some]

theorem strip_subset {p : UInt8 → Bool} {s : CStr} {b : UInt8} (h : b ∈ strip p s) : b ∈ s :=
  (List.dropWhile_suffix p).subset ((List.rdropWhile_prefix p _).subset h)

/-- The content is stripped of what compares to be at most a blank. -/
theorem getContent_eq {content rest : CStr} {nulledChar : UInt8} (hamp : 38 ∉ content)
    (hlt : 60 ∉ content) (hzero : 0 ∉ content) (hrest : ∀ b ∈ rest.head?, b = 60) :
    (getContent ⟨content ++ rest, nulledChar, false⟩).map Prod.fst =
      some (some (strip skipped content)) := by
  have htake : (content ++ rest).takeWhile (· != 60) = content := by
    rw [List.takeWhile_append_of_pos fun b hb => by
      have hne : b ≠ 60 := fun he => hlt (he ▸ hb)
      simpa using hne]
    cases rest with
    | nil => simp
    | cons b rest =>
      rw [hrest b rfl, List.takeWhile_cons_of_neg (by decide), List.append_nil]
  have hkeep : (strip skipped content).takeWhile (· != 0) = strip skipped content := by
    refine List.takeWhile_eq_self_iff.mpr fun b hb => ?_
    have hne : b ≠ 0 := fun he => hzero (he ▸ strip_subset hb)
    simpa using hne
  unfold getContent
  simp only [Bool.false_eq_true, if_false]
  rw [htake, ← strip, unescape_of_notMem fun h => hamp (strip_subset h), Option.map_some,
    Option.map_some, hkeep]

/-- The content comes back without its white space and control characters if and only if it
then begins and ends with printable ASCII characters. -/
theorem getContent_strips_iff {content rest : CStr} (nulledChar : UInt8) (hamp : 38 ∉ content)
    (hlt : 60 ∉ content) (hzero : 0 ∉ content) (hrest : ∀ b ∈ rest.head?, b = 60) :
    (getContent ⟨content ++ rest, nulledChar, false⟩).map Prod.fst =
      some (some (strip blank content)) ↔
        (∀ b ∈ (strip low content).head?, printable b = true) ∧
          ∀ b ∈ (strip low content).getLast?, printable b = true := by
  have hlow : ∀ b, low b = true → skipped b = true ∧ blank b = true := by
    intro b hb
    unfold low at hb
    rw [decide_eq_true_eq] at hb
    exact ⟨(skipped_iff b).mpr (.inl hb), (blank_iff b).mpr (.inl hb)⟩
  rw [getContent_eq hamp hlt hzero hrest, Option.some.injEq, Option.some.injEq,
    strip_eq_strip_iff (fun b hb => (hlow b hb).1) (fun b hb => (hlow b hb).2)
      fun b hb hb' => low_of_skipped hb hb']
  simp only [printable_iff]

theorem getContent_strips_word :
    (getContent ⟨lit " a b\n" ++ lit "</VALUE>", 0, false⟩).map Prod.fst =
      some (some (strip blank (lit " a b\n"))) ↔
        (∀ b ∈ (strip low (lit " a b\n")).head?, printable b = true) ∧
          ∀ b ∈ (strip low (lit " a b\n")).getLast?, printable b = true :=
  getContent_strips_iff 0 (by decide) (by decide) (by decide)
    fun _ hb => (Option.some.inj hb).symm

/-- A word with a letter in front that is not an ASCII one. -/
theorem not_getContent_strips : (getContent ⟨lit "état</VALUE>", 0, false⟩).map Prod.fst ≠
    some (some (strip blank (lit "état"))) := by
  have htext : lit "état</VALUE>" = lit "état" ++ lit "</VALUE>" := by decide
  have hrest : ∀ b ∈ (lit "</VALUE>").head?, b = 60 := fun _ hb => (Option.some.inj hb).symm
  rw [htext, getContent_eq (by decide) (by decide) (by decide) hrest]
  decide

end Sfcb.CimXml
