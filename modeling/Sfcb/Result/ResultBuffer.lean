import Sfcb.Lib.Area
import Sfcb.Lib.Numeral

/-!
# The result buffer

A provider returns objects one at a time; `result.c` collects their serialized
forms in a data area with a table of segments, and sends both together when the
area is full (to the requestor, if there is one to take chunks) or at the end.
This file embeds `prepResultBuffer`, `nextResultBufferPos`, `xferResultBuffer` and
the two functions that return an object through them, with areas of their real
sizes, so that a write outside an area is visible as a failure.

`resultBuffer_iff`: a sequence of objects is delivered as it should be if and only
if each object is shorter than `2 ^ 31` bytes and the buffer never holds
`segmentLimit` objects. The size of an object is put into an `int`, and so is the size
of the table, a `long`, on its way to `spSendResult2`. Everything else holds
without a condition: no write ever leaves its area (`returnAll_holds`).

Mirroring notes:
- A serialized size that is no `int` is the outcome `none`: a negative one makes the loops
  that double the area go on for ever or ask for memory that there is not, and the rebuild
  functions, which count the bytes in an `int` too, do not lay out such an object.
- There is memory: the areas are smaller than `2 ^ 64` bytes.
- What `malloc` and `realloc` leave in new memory is arbitrary (`Config.junkByte`,
  `Config.junkSegment`); `calloc` clears the first table.
- `legacy` results and the filter of a query (`qs`) are decided before an object
  gets here.
- How the two parts of a buffer reach the other side is the framing layer's
  business; here a buffer sent is what `spSendResult2` is given.
-/

namespace Sfcb.Result

open Sfcb.Lib

/-- `MsgSegment`. -/
structure MsgSegment where
  data : Nat
  type : Nat
  length : Nat
  deriving DecidableEq, Repr

/-- A serialized object on its way out: its `MSG_SEG_` type and its bytes. -/
structure Returned where
  type : Nat
  bytes : List UInt8
  deriving DecidableEq, Repr

/-- Its size is an `int`. -/
def Returned.Small (o : Returned) : Prop := o.bytes.length < 2 ^ 31

/-- What the result depends on besides the objects. -/
structure Config where
  /-- the configured `chunkSize` -/
  chunkSize : Nat
  large : 400 ≤ chunkSize
  /-- there is a requestor socket -/
  requestor : Bool
  junkByte : UInt8
  junkSegment : MsgSegment

/-- The buffer part of `NativeResult`. `dMax` and `sMax` are the sizes of the areas;
`data` is `NULL` until the first object. -/
structure NativeResult where
  data : Option (List UInt8)
  dNext : Nat
  object : List MsgSegment
  sNext : Nat

/-- A new result. -/
def NativeResult.new : NativeResult := ⟨none, 0, [], 0⟩

/-- `sizeof(BinResponseHdr) + (n - 1) * sizeof(MsgSegment)`. -/
def tableSize (n : Nat) : Nat := 64 + 16 * n

/-- A buffer as it is handed to `spSendResult2`: the size given for the header and
the table, the fields of the header, the whole table, and the data. -/
structure Buffer where
  s1 : Int
  moreChunks : Bool
  rc : Int
  count : Nat
  object : List MsgSegment
  data : List UInt8
  deriving DecidableEq, Repr

section Code

variable (cfg : Config)

/-- `prepResultBuffer`. -/
def prepResultBuffer (length : Nat) : NativeResult :=
  let dMax := growTo length cfg.chunkSize
  ⟨some (List.replicate dMax cfg.junkByte), 0, List.replicate (dMax / 400) ⟨0, 0, 0⟩, 0⟩

/-- The loop of `xferResultBuffer` that turns the table into offsets. It runs over
the whole table, also over entries of earlier buffers. -/
def setOffsets : (l : Nat) → List MsgSegment → List MsgSegment
  | _, [] => []
  | l, s :: rest => { s with data := l } :: setOffsets (l + s.length) rest

/-- `if (nr->data==NULL) prepResultBuffer(nr, length)`. -/
def prepared (nr : NativeResult) (length : Nat) : NativeResult :=
  if nr.data = none then prepResultBuffer cfg length else nr

/-- `xferResultBuffer`: the result afterwards, and the buffer sent. -/
def xferResultBuffer (nr : NativeResult) (more : Bool) (rc : Int) (length : Nat) :
    NativeResult × Buffer :=
  let l := tableSize nr.sNext
  let nr := prepared cfg nr length
  let object := setOffsets l nr.object
  ({ nr with object },
    ⟨cInt l, more, rc, nr.sNext, object, (nr.data.getD []).take nr.dNext⟩)

/-- The first half of `nextResultBufferPos`: room for `length` bytes. -/
def makeRoom (nr : NativeResult) (length : Nat) : NativeResult × List Buffer :=
  let area := nr.data.getD []
  if nr.dNext + length ≥ area.length then
    if cfg.requestor = false ∨ length ≥ area.length then
      ({ nr with
        data := some (resize area (growTo (nr.dNext + length) area.length) cfg.junkByte) }, [])
    else
      let x := xferResultBuffer cfg nr true 1 length
      ({ x.1 with dNext := 0, sNext := 0 }, [x.2])
  else (nr, [])

/-- The second half: the entry for the object. -/
def addSegment (nr : NativeResult) (type length : Nat) : Option NativeResult :=
  let object :=
    if nr.sNext = nr.object.length then
      resize nr.object (nr.object.length * 2) cfg.junkSegment
    else nr.object
  (writeAt object nr.sNext [⟨nr.dNext, type, length⟩]).map fun object =>
    { nr with object, sNext := nr.sNext + 1, dNext := nr.dNext + length }

/-- `__rft_returnInstance` and `__rft_returnObjectPath`: `nextResultBufferPos`, and
the object is serialized to the position it returned. -/
def returnObject (nr : NativeResult) (o : Returned) : Option (NativeResult × List Buffer) :=
  if 2 ^ 31 ≤ o.bytes.length then none else
  let room := makeRoom cfg (prepared cfg nr o.bytes.length) o.bytes.length
  let pos := room.1.dNext
  match addSegment cfg room.1 o.type o.bytes.length with
  | none => none
  | some nr =>
    (writeAt (nr.data.getD []) pos o.bytes).map fun area =>
      ({ nr with data := some area }, room.2)

/-- A provider's returns, with the buffers sent on the way. -/
def returnAll (nr : NativeResult) : List Returned → Option (NativeResult × List Buffer)
  | [] => some (nr, [])
  | o :: rest =>
    match returnObject cfg nr o with
    | none => none
    | some (nr, bufs) => (returnAll nr rest).map fun r => (r.1, bufs ++ r.2)

/-- All buffers of a result that ends with `xferLastResultBuffer`. -/
def resultBuffers (rc : Int) (objs : List Returned) : Option (List Buffer) :=
  (returnAll cfg .new objs).map fun r => r.2 ++ [(xferResultBuffer cfg r.1 false rc 1).2]

end Code

/-! ## The receiving side -/

/-- The objects of a buffer, read the way `intInvokeProvider` prepares it: the
header and table are followed by the data, and a segment is found at its offset
from the beginning. Nothing can be read if the table was not sent whole. -/
def Buffer.decode (b : Buffer) : Option (List Returned) :=
  if (tableSize b.count : Int) ≤ b.s1 then
    some ((b.object.take b.count).map fun s =>
      ⟨s.type, (b.data.drop (s.data - b.s1.toNat)).take s.length⟩)
  else none

/-- The objects of a series of buffers. -/
def decodeAll : List Buffer → Option (List Returned)
  | [] => some []
  | b :: rest =>
    match b.decode, decodeAll rest with
    | some objs, some more => some (objs ++ more)
    | _, _ => none

/-- `moreChunks` is set on every buffer but the last. -/
def moreChunksOk (bufs : List Buffer) : Prop :=
  ∃ front last, bufs = front ++ [last] ∧ (∀ b ∈ front, b.moreChunks = true) ∧
    last.moreChunks = false

/-- A buffer's count is the number of its segments, and its table holds them. -/
def countOk (b : Buffer) (n : Nat) : Prop := b.count = n ∧ n ≤ b.object.length

/-- The result gets across: no write leaves its area, the objects come out in
order, the last buffer is the only one that says so, and the counts are right. -/
def delivered (cfg : Config) (rc : Int) (objs : List Returned) : Prop :=
  ∃ bufs, resultBuffers cfg rc objs = some bufs ∧ decodeAll bufs = some objs ∧
    moreChunksOk bufs ∧ ∀ b ∈ bufs, ∃ got, b.decode = some got ∧ countOk b got.length

/-! ## What a result holds -/

/-- The bytes of a run of objects. -/
def bytesOf (objs : List Returned) : List UInt8 := objs.flatMap Returned.bytes

/-- A segment and an object belong together. -/
def shape (objs : List Returned) : List (Nat × Nat) := objs.map fun o => (o.type, o.bytes.length)

/-- The result has its areas, and they hold exactly the objects `cur`. -/
structure Holds (nr : NativeResult) (cur : List Returned) : Prop where
  data : ∃ area, nr.data = some area ∧ nr.dNext < area.length ∧ area.take nr.dNext = bytesOf cur
  dNext : nr.dNext = (bytesOf cur).length
  sNext : nr.sNext = cur.length
  table : (nr.object.take nr.sNext).map (fun s => (s.type, s.length)) = shape cur
  room : nr.sNext ≤ nr.object.length
  pos : 0 < nr.object.length

/-- The same, or nothing has been returned yet. -/
def Ready (nr : NativeResult) (cur : List Returned) : Prop :=
  Holds nr cur ∨ (nr = .new ∧ cur = [])

theorem ready_new : Ready .new [] := .inr ⟨rfl, rfl⟩

theorem Ready.sNext {nr : NativeResult} {cur : List Returned} (h : Ready nr cur) :
    nr.sNext = cur.length := by
  rcases h with h | ⟨rfl, rfl⟩
  · exact h.sNext
  · rfl

section Spec

variable (cfg : Config)

theorem prep_holds (length : Nat) : Holds (prepResultBuffer cfg length) [] := by
  have hgrow := growTo_spec length cfg.chunkSize (by have := cfg.large; omega)
  have hlarge := cfg.large
  refine ⟨⟨_, rfl, ?_, rfl⟩, rfl, rfl, rfl, Nat.zero_le _, ?_⟩
  · rw [List.length_replicate]
    exact Nat.lt_of_le_of_lt (Nat.zero_le _) hgrow.1
  · show 0 < (List.replicate (growTo length cfg.chunkSize / 400) (⟨0, 0, 0⟩ : MsgSegment)).length
    rw [List.length_replicate]
    omega

theorem prepared_holds {nr : NativeResult} {cur : List Returned} (h : Ready nr cur)
    (length : Nat) : Holds (prepared cfg nr length) cur := by
  rcases h with h | ⟨rfl, rfl⟩
  · obtain ⟨area, harea, -, -⟩ := h.data
    rw [prepared, if_neg (by rw [harea]; simp)]
    exact h
  · exact prep_holds cfg length

@[simp] theorem length_setOffsets (l : Nat) (t : List MsgSegment) :
    (setOffsets l t).length = t.length := by
  induction t generalizing l with
  | nil => rfl
  | cons s t ih => simp [setOffsets, ih]

theorem take_setOffsets (n l : Nat) (t : List MsgSegment) :
    (setOffsets l t).take n = setOffsets l (t.take n) := by
  induction t generalizing l n with
  | nil => simp [setOffsets]
  | cons s t ih =>
    cases n with
    | zero => rfl
    | succ n => simp [setOffsets, ih]

theorem shape_setOffsets (l : Nat) (t : List MsgSegment) :
    (setOffsets l t).map (fun s => (s.type, s.length)) = t.map fun s => (s.type, s.length) := by
  induction t generalizing l with
  | nil => rfl
  | cons s t ih => simp [setOffsets, ih]

/-- Offsets from `l0` on lead to the objects that were put one behind the other. -/
theorem decode_setOffsets (l0 : Nat) (cur : List Returned) :
    ∀ (t : List MsgSegment) (front : List UInt8),
      t.map (fun s => (s.type, s.length)) = shape cur →
      (setOffsets (l0 + front.length) t).map
          (fun s => (⟨s.type, ((front ++ bytesOf cur).drop (s.data - l0)).take s.length⟩ : Returned))
        = cur := by
  induction cur with
  | nil =>
    intro t front ht
    have hnil : t = [] := List.map_eq_nil_iff.mp ht
    rw [hnil]
    rfl
  | cons o cur ih =>
    intro t front ht
    cases t with
    | nil => simp [shape] at ht
    | cons s t =>
      simp only [shape, List.map_cons, List.cons.injEq, Prod.mk.injEq] at ht
      obtain ⟨⟨htype, hlen⟩, ht⟩ := ht
      have hbytes : bytesOf (o :: cur) = o.bytes ++ bytesOf cur := List.flatMap_cons
      have hrest := ih t (front ++ o.bytes) ht
      rw [List.length_append, ← Nat.add_assoc, List.append_assoc] at hrest
      simp only [setOffsets, List.map_cons, hbytes, Nat.add_sub_cancel_left, List.drop_left, hlen,
        List.take_left, htype, hrest]

/-- A buffer that was sent while the result held `g`. -/
structure Carries (b : Buffer) (g : List Returned) (more : Bool) : Prop where
  s1 : b.s1 = cInt (tableSize g.length)
  moreChunks : b.moreChunks = more
  count : b.count = g.length
  room : g.length ≤ b.object.length
  table : ∃ t, t.map (fun s => (s.type, s.length)) = shape g ∧
    b.object.take g.length = setOffsets (tableSize g.length) t
  data : b.data = bytesOf g

/-- A transfer sends what the result holds and leaves it as it is. -/
theorem xfer_spec {nr : NativeResult} {cur : List Returned} (h : Ready nr cur) (more : Bool)
    (rc : Int) (length : Nat) :
    Carries (xferResultBuffer cfg nr more rc length).2 cur more ∧
      Holds (xferResultBuffer cfg nr more rc length).1 cur := by
  have hp := prepared_holds cfg h length
  have hsnext : nr.sNext = cur.length := h.sNext
  obtain ⟨area, harea, hroom, hbytes⟩ := hp.data
  constructor
  · refine ⟨?_, rfl, hp.sNext, ?_, ⟨(prepared cfg nr length).object.take cur.length, ?_, ?_⟩, ?_⟩
    · simp only [xferResultBuffer, hsnext]
    · simp only [xferResultBuffer, length_setOffsets]
      exact hp.sNext ▸ hp.room
    · rw [← hp.sNext]
      exact hp.table
    · simp only [xferResultBuffer, hsnext, take_setOffsets]
    · simp only [xferResultBuffer, harea, Option.getD_some, hbytes]
  · refine ⟨⟨area, harea, hroom, hbytes⟩, hp.dNext, hp.sNext, ?_, ?_, ?_⟩
    · simp only [xferResultBuffer, take_setOffsets, shape_setOffsets]
      exact hp.table
    · simpa [xferResultBuffer] using hp.room
    · simpa [xferResultBuffer] using hp.pos

/-- After making room the result holds what it held, or nothing and the rest has
been sent; and there is room. -/
theorem makeRoom_spec {nr : NativeResult} {cur : List Returned} (h : Holds nr cur) (length : Nat) :
    ∃ cur', Holds (makeRoom cfg nr length).1 cur' ∧
      (∃ area, (makeRoom cfg nr length).1.data = some area ∧
        (makeRoom cfg nr length).1.dNext + length < area.length) ∧
      ((cur' = cur ∧ (makeRoom cfg nr length).2 = []) ∨
        (cur' = [] ∧ cfg.requestor = true ∧
          ∃ b, (makeRoom cfg nr length).2 = [b] ∧ Carries b cur true)) := by
  obtain ⟨area, harea, hroom, hbytes⟩ := h.data
  simp only [makeRoom, harea, Option.getD_some]
  by_cases hfull : nr.dNext + length ≥ area.length
  · rw [if_pos hfull]
    -- nobody to send to, or an object larger than the area: the area grows
    by_cases hgrow : cfg.requestor = false ∨ length ≥ area.length
    · rw [if_pos hgrow]
      have hspec := growTo_spec (nr.dNext + length) area.length (by omega)
      have hlen := length_resize area (growTo (nr.dNext + length) area.length) cfg.junkByte
      have hdata : ∃ a, some (resize area (growTo (nr.dNext + length) area.length) cfg.junkByte)
          = some a ∧ nr.dNext < a.length ∧ a.take nr.dNext = bytesOf cur := by
        refine ⟨_, rfl, by omega, ?_⟩
        rw [take_resize _ (by omega) (by omega)]
        exact hbytes
      exact ⟨cur, ⟨hdata, h.dNext, h.sNext, h.table, h.room, h.pos⟩,
        ⟨_, rfl, by rw [hlen]; exact hspec.1⟩, .inl ⟨rfl, rfl⟩⟩
    · rw [if_neg hgrow]
      -- what is held is sent, and the area is empty again
      obtain ⟨hb, hx⟩ := xfer_spec cfg (.inl h) true 1 length
      have hdata : (xferResultBuffer cfg nr true 1 length).1.data = some area := by
        simp only [xferResultBuffer, prepared, harea, reduceCtorEq, if_false]
      refine ⟨[], ⟨⟨area, hdata, by show 0 < area.length; omega, rfl⟩, rfl, rfl, rfl,
        Nat.zero_le _, hx.pos⟩, ⟨area, hdata, ?_⟩, .inr ⟨rfl, ?_, _, rfl, hb⟩⟩
      · show 0 + length < area.length
        omega
      · exact Bool.of_not_eq_false fun e => hgrow (.inl e)
  · rw [if_neg hfull]
    have hfits : nr.dNext + length < area.length := by omega
    exact ⟨cur, h, ⟨area, harea, hfits⟩, .inl ⟨rfl, rfl⟩⟩

/-- The entry for an object always finds its place. -/
theorem addSegment_spec {nr : NativeResult} {cur : List Returned} (h : Holds nr cur)
    (o : Returned) :
    ∃ nr', addSegment cfg nr o.type o.bytes.length = some nr' ∧ nr'.data = nr.data ∧
      nr'.dNext = nr.dNext + o.bytes.length ∧ nr'.sNext = cur.length + 1 ∧
      (nr'.object.take nr'.sNext).map (fun s => (s.type, s.length)) = shape (cur ++ [o]) ∧
      nr'.sNext ≤ nr'.object.length := by
  have hroom := h.room
  have hpos := h.pos
  -- the table is doubled when it is full, so there is room for one more
  obtain ⟨table, htable, htlen, htake⟩ : ∃ t,
      (if nr.sNext = nr.object.length then
        resize nr.object (nr.object.length * 2) cfg.junkSegment else nr.object) = t ∧
      nr.sNext < t.length ∧ t.take nr.sNext = nr.object.take nr.sNext := by
    refine ⟨_, rfl, ?_, ?_⟩
    · split
      · rw [length_resize]; omega
      · omega
    · split
      · exact take_resize _ hroom (by omega)
      · rfl
  obtain ⟨table', hwrite, hlen', htake'⟩ := writeAt_spec table nr.sNext
    [(⟨nr.dNext, o.type, o.bytes.length⟩ : MsgSegment)] (by simp; omega)
  have hone : ([(⟨nr.dNext, o.type, o.bytes.length⟩ : MsgSegment)]).length = 1 := rfl
  rw [hone] at htake'
  have hadd : addSegment cfg nr o.type o.bytes.length
      = some ⟨nr.data, nr.dNext + o.bytes.length, table', nr.sNext + 1⟩ := by
    simp only [addSegment, htable, hwrite, Option.map_some]
  refine ⟨_, hadd, rfl, rfl, ?_, ?_, ?_⟩
  · simp only [h.sNext]
  · have hcur := h.table
    simp only [htake', htake, List.map_append, hcur, shape, List.map_cons, List.map_nil]
  · simp only [hlen']
    omega

/-- A return never leaves its areas; the object goes behind those that are held,
or those are sent first. -/
theorem returnObject_spec {nr : NativeResult} {cur : List Returned} (h : Ready nr cur)
    {o : Returned} (ho : o.Small) :
    ∃ nr' bufs, returnObject cfg nr o = some (nr', bufs) ∧
      ((Holds nr' (cur ++ [o]) ∧ bufs = []) ∨
        (Holds nr' [o] ∧ cfg.requestor = true ∧ ∃ b, bufs = [b] ∧ Carries b cur true)) := by
  obtain ⟨cur', hroom, ⟨area, harea, hfits⟩, hcase⟩ :=
    makeRoom_spec cfg (prepared_holds cfg h o.bytes.length) o.bytes.length
  generalize hmr : makeRoom cfg (prepared cfg nr o.bytes.length) o.bytes.length = mr at *
  obtain ⟨nr1, hseg, hdata1, hdnext1, hsnext1, htable1, hroom1⟩ := addSegment_spec cfg hroom o
  obtain ⟨area', hwrite, hlen', htake'⟩ := writeAt_spec area mr.1.dNext o.bytes
    (by omega)
  have hret : returnObject cfg nr o = some ({ nr1 with data := some area' }, mr.2) := by
    rw [returnObject, if_neg (Nat.not_le.mpr ho)]
    simp only [hmr, hseg, hdata1, harea, Option.getD_some, hwrite, Option.map_some]
  have hholds : Holds { nr1 with data := some area' } (cur' ++ [o]) := by
    have hbytes : bytesOf (cur' ++ [o]) = bytesOf cur' ++ o.bytes := by simp [bytesOf]
    obtain ⟨area0, harea0, -, htake0⟩ := hroom.data
    rw [harea] at harea0
    cases harea0
    refine ⟨⟨area', rfl, ?_, ?_⟩, ?_, ?_, htable1, hroom1, ?_⟩
    · show nr1.dNext < area'.length
      omega
    · show area'.take nr1.dNext = _
      rw [hdnext1, htake', htake0, hbytes]
    · show nr1.dNext = _
      rw [hdnext1, hroom.dNext, hbytes, List.length_append]
    · show nr1.sNext = _
      rw [hsnext1, List.length_append]
      rfl
    · show 0 < nr1.object.length
      omega
  refine ⟨_, _, hret, ?_⟩
  rcases hcase with ⟨rfl, hnone⟩ | ⟨rfl, hreq, b, hb, hcar⟩
  · exact .inl ⟨hholds, hnone⟩
  · exact .inr ⟨hholds, hreq, b, hb, hcar⟩

/-! ## Whole results -/

/-- How many objects the buffer holds after these returns. -/
def heldAfter (nr : NativeResult) (objs : List Returned) : Nat :=
  match returnAll cfg nr objs with
  | some r => r.1.sNext
  | none => 0

/-- The number of objects at which the table no longer fits an `int`. -/
def segmentLimit : Nat := 134217724

theorem lt_segmentLimit_iff (n : Nat) : n < segmentLimit ↔ tableSize n < 2 ^ 31 := by
  simp only [segmentLimit, tableSize]
  omega

/-- **No return ever leaves its areas.** The objects returned are those that were
sent, buffer by buffer, and those that are held; and the buffers all stayed below
the limit if and only if the result did at all times. -/
theorem returnAll_holds (objs : List Returned) (hsmall : ∀ o ∈ objs, o.Small) :
    ∀ {nr : NativeResult} {cur : List Returned}, Ready nr cur →
      ∃ nr' cur', ∃ sent : List (Buffer × List Returned),
        returnAll cfg nr objs = some (nr', sent.map Prod.fst) ∧ Ready nr' cur' ∧
        cur ++ objs = (sent.map Prod.snd).flatten ++ cur' ∧
        (∀ p ∈ sent, Carries p.1 p.2 true) ∧
        (((∀ p ∈ sent, p.2.length < segmentLimit) ∧ cur'.length < segmentLimit) ↔
          ∀ pre, pre <+: objs → heldAfter cfg nr pre < segmentLimit) := by
  induction objs with
  | nil =>
    intro nr cur h
    refine ⟨nr, cur, [], rfl, h, by simp, by simp, ?_⟩
    have hheld : heldAfter cfg nr [] = cur.length := h.sNext
    constructor
    · rintro ⟨-, hcur⟩ pre hpre
      rw [List.prefix_nil.mp hpre, hheld]
      exact hcur
    · intro hpre
      exact ⟨by simp, hheld ▸ hpre [] (List.prefix_refl _)⟩
  | cons o rest ih =>
    intro nr cur h
    have ih := @ih fun o ho => hsmall o (List.mem_cons_of_mem _ ho)
    obtain ⟨nr1, bufs, hret, hcase⟩ := returnObject_spec cfg h (hsmall o List.mem_cons_self)
    have hheld0 : heldAfter cfg nr [] = cur.length := h.sNext
    have hheld : ∀ pre, heldAfter cfg nr (o :: pre) = heldAfter cfg nr1 pre := by
      intro pre
      simp only [heldAfter, returnAll, hret]
      cases returnAll cfg nr1 pre with
      | none => rfl
      | some r => rfl
    -- a prefix is empty or starts with the object just returned
    have hprefixes : (∀ pre, pre <+: o :: rest → heldAfter cfg nr pre < segmentLimit) ↔
        cur.length < segmentLimit ∧
          ∀ pre, pre <+: rest → heldAfter cfg nr1 pre < segmentLimit := by
      constructor
      · intro hall
        refine ⟨hheld0 ▸ hall [] (List.nil_prefix), fun pre hpre => ?_⟩
        rw [← hheld pre]
        exact hall (o :: pre) (List.cons_prefix_cons.mpr ⟨rfl, hpre⟩)
      · rintro ⟨hcur, hall⟩ pre hpre
        cases pre with
        | nil => rw [hheld0]; exact hcur
        | cons p pre =>
          obtain ⟨rfl, hpre'⟩ := List.cons_prefix_cons.mp hpre
          rw [hheld pre]
          exact hall pre hpre'
    rcases hcase with ⟨hholds, rfl⟩ | ⟨hholds, -, b, rfl, hcar⟩
    · obtain ⟨nr', cur', sent, hall, hready, hobjs, hsent, hiff⟩ := ih (.inl hholds)
      refine ⟨nr', cur', sent, ?_, hready, ?_, hsent, ?_⟩
      · simp only [returnAll, hret, hall, Option.map_some, List.nil_append]
      · rw [← hobjs, List.append_assoc]
        rfl
      · rw [hprefixes, ← hiff]
        constructor
        · intro hok
          have hnow := hiff.mp hok [] List.nil_prefix
          have hlen : heldAfter cfg nr1 [] = (cur ++ [o]).length := Ready.sNext (.inl hholds)
          rw [hlen, List.length_append] at hnow
          exact ⟨by omega, hok⟩
        · exact fun hok => hok.2
    · obtain ⟨nr', cur', sent, hall, hready, hobjs, hsent, hiff⟩ := ih (.inl hholds)
      refine ⟨nr', cur', (b, cur) :: sent, ?_, hready, ?_, ?_, ?_⟩
      · simp only [returnAll, hret, hall, Option.map_some, List.map_cons, List.cons_append,
          List.nil_append]
      · rw [List.map_cons, List.flatten_cons, List.append_assoc, ← hobjs]
        rfl
      · intro p hp
        rcases List.mem_cons.mp hp with rfl | hp
        · exact hcar
        · exact hsent p hp
      · rw [hprefixes, ← hiff]
        simp only [List.mem_cons, forall_eq_or_imp]
        exact ⟨fun ⟨⟨hc, hs⟩, hl⟩ => ⟨hc, hs, hl⟩, fun ⟨hc, hs, hl⟩ => ⟨⟨hc, hs⟩, hl⟩⟩

/-- Without a requestor everything is held to the end. -/
theorem heldAfter_no_requestor (hreq : cfg.requestor = false) (objs : List Returned)
    (hsmall : ∀ o ∈ objs, o.Small) :
    ∀ {nr : NativeResult} {cur : List Returned}, Ready nr cur →
      heldAfter cfg nr objs = cur.length + objs.length := by
  induction objs with
  | nil => intro nr cur h; exact h.sNext
  | cons o rest ih =>
    intro nr cur h
    obtain ⟨nr1, bufs, hret, ⟨hholds, -⟩ | ⟨-, htrue, -⟩⟩ :=
      returnObject_spec cfg h (hsmall o List.mem_cons_self)
    · have hrest := ih (fun o ho => hsmall o (List.mem_cons_of_mem _ ho)) (.inl hholds)
      have hstep : heldAfter cfg nr (o :: rest) = heldAfter cfg nr1 rest := by
        simp only [heldAfter, returnAll, hret]
        cases returnAll cfg nr1 rest with
        | none => rfl
        | some r => rfl
      rw [hstep, hrest, List.length_append, List.length_cons, List.length_cons, List.length_nil]
      omega
    · rw [hreq] at htrue
      cases htrue

/-- A buffer decodes to what it carries, unless its table was cut off. -/
theorem Carries.decode {b : Buffer} {g : List Returned} {more : Bool} (h : Carries b g more) :
    b.decode = if g.length < segmentLimit then some g else none := by
  by_cases hlim : g.length < segmentLimit
  · have hfits := (lt_segmentLimit_iff _).mp hlim
    obtain ⟨t, hshape, htable⟩ := h.table
    have hread := decode_setOffsets (tableSize g.length) g t [] hshape
    rw [if_pos hlim, Buffer.decode, h.s1, h.count, cInt_of_lt hfits, if_pos (Int.le_refl _), htable,
      h.data, Int.toNat_natCast]
    exact congrArg some hread
  · have hbig : ¬ tableSize g.length < 2 ^ 31 := fun hf => hlim ((lt_segmentLimit_iff _).mpr hf)
    have hcut : ¬ (tableSize g.length : Int) ≤ cInt (tableSize g.length) := by
      rw [cInt]
      have hlt : Int.bmod (tableSize g.length) (2 ^ 32) < 2 ^ 31 := by
        have := @Int.bmod_lt (tableSize g.length) (2 ^ 32) (by decide)
        omega
      omega
    rw [if_neg hlim, Buffer.decode, h.s1, h.count, if_neg hcut]

/-- A series of buffers decodes to what they carry together. -/
theorem decodeAll_carries (sent : List (Buffer × List Returned))
    (h : ∀ p ∈ sent, ∃ more, Carries p.1 p.2 more) :
    decodeAll (sent.map Prod.fst)
      = if ∀ p ∈ sent, p.2.length < segmentLimit then some (sent.map Prod.snd).flatten
        else none := by
  induction sent with
  | nil => simp [decodeAll]
  | cons p sent ih =>
    obtain ⟨more, hp⟩ := h p (List.mem_cons_self ..)
    have hrest := ih fun q hq => h q (List.mem_cons_of_mem _ hq)
    simp only [List.map_cons, decodeAll, hp.decode, hrest, List.mem_cons, forall_eq_or_imp]
    by_cases hlim : p.2.length < segmentLimit
    · by_cases hall : ∀ q ∈ sent, q.2.length < segmentLimit
      · rw [if_pos hlim, if_pos hall, if_pos ⟨hlim, hall⟩]
        rfl
      · rw [if_pos hlim, if_neg hall, if_neg (fun hb => hall hb.2)]
    · have hnot : ¬ (p.2.length < segmentLimit ∧ ∀ q ∈ sent, q.2.length < segmentLimit) :=
        fun hb => hlim hb.1
      simp only [if_neg hlim, if_neg hnot]

end Spec

/-- The buffers of a whole result, each with the objects it carries. -/
theorem resultBuffers_carries (cfg : Config) (rc : Int) {objs : List Returned}
    (hsmall : ∀ o ∈ objs, o.Small) :
    ∃ pairs : List (Buffer × List Returned),
      resultBuffers cfg rc objs = some (pairs.map Prod.fst) ∧
      (∀ p ∈ pairs, ∃ more, Carries p.1 p.2 more) ∧
      (pairs.map Prod.snd).flatten = objs ∧ moreChunksOk (pairs.map Prod.fst) ∧
      ((∀ p ∈ pairs, p.2.length < segmentLimit) ↔
        ∀ pre, pre <+: objs → heldAfter cfg .new pre < segmentLimit) := by
  obtain ⟨nr, cur, sent, hall, hready, hobjs, hsent, hiff⟩ :=
    returnAll_holds cfg objs hsmall ready_new
  obtain ⟨hlast, -⟩ := xfer_spec cfg hready false rc 1
  generalize hbuf : (xferResultBuffer cfg nr false rc 1).2 = last at hlast
  refine ⟨sent ++ [(last, cur)], ?_, ?_, ?_, ?_, ?_⟩
  · simp only [resultBuffers, hall, Option.map_some, hbuf, List.map_append, List.map_cons,
      List.map_nil]
  · intro p hp
    rcases List.mem_append.mp hp with hp | hp
    · exact ⟨true, hsent p hp⟩
    · rw [List.mem_singleton] at hp
      exact ⟨false, hp ▸ hlast⟩
  · rw [List.nil_append] at hobjs
    simp [hobjs]
  · refine ⟨sent.map Prod.fst, last, by simp, ?_, hlast.moreChunks⟩
    intro b hb
    obtain ⟨p, hp, rfl⟩ := List.mem_map.mp hb
    exact (hsent p hp).moreChunks
  · rw [← hiff]
    simp only [List.mem_append, List.mem_singleton]
    exact ⟨fun h => ⟨fun p hp => h p (.inl hp), h _ (.inr rfl)⟩,
      fun ⟨hs, hc⟩ p hp => hp.elim (hs p) (fun e => e ▸ hc)⟩

/-- What has been returned was small enough. -/
theorem small_of_returnAll {cfg : Config} {objs : List Returned} :
    ∀ {nr : NativeResult} {r : NativeResult × List Buffer}, returnAll cfg nr objs = some r →
      ∀ o ∈ objs, o.Small := by
  induction objs with
  | nil => simp
  | cons o rest ih =>
    intro nr r h
    rw [returnAll] at h
    cases hret : returnObject cfg nr o with
    | none =>
      rw [hret] at h
      cases h
    | some x =>
      rw [hret] at h
      obtain ⟨r', hrest, -⟩ := Option.map_eq_some_iff.mp h
      have ho : o.Small := by
        refine Nat.not_le.mp fun hbig => ?_
        rw [returnObject, if_pos hbig] at hret
        cases hret
      intro o' ho'
      obtain rfl | ho' := List.mem_cons.mp ho'
      · exact ho
      · exact ih hrest o' ho'

theorem small_of_delivered {cfg : Config} {rc : Int} {objs : List Returned}
    (h : delivered cfg rc objs) : ∀ o ∈ objs, o.Small := by
  obtain ⟨bufs, hres, -⟩ := h
  obtain ⟨r, hall, -⟩ := Option.map_eq_some_iff.mp hres
  exact small_of_returnAll hall

/-- A result that reached the limit loses the buffer in which it did. -/
theorem below_of_delivered {cfg : Config} {rc : Int} {objs : List Returned}
    (h : delivered cfg rc objs) :
    ∀ pre, pre <+: objs → heldAfter cfg .new pre < segmentLimit := by
  obtain ⟨pairs, hbufs, hcarry, -, -, hiff⟩ := resultBuffers_carries cfg rc (small_of_delivered h)
  obtain ⟨bufs, hres, hobj, -, -⟩ := h
  rw [hbufs, Option.some.injEq] at hres
  rw [← hres, decodeAll_carries pairs hcarry] at hobj
  rw [← hiff]
  split at hobj
  · assumption
  · cases hobj

/-- A result that stayed below it is delivered. -/
theorem delivered_of_below {cfg : Config} {objs : List Returned} (rc : Int)
    (hsmall : ∀ o ∈ objs, o.Small)
    (h : ∀ pre, pre <+: objs → heldAfter cfg .new pre < segmentLimit) :
    delivered cfg rc objs := by
  obtain ⟨pairs, hbufs, hcarry, hobjs, hmore, hiff⟩ := resultBuffers_carries cfg rc hsmall
  have hok := hiff.mpr h
  refine ⟨_, hbufs, ?_, hmore, ?_⟩
  · rw [decodeAll_carries pairs hcarry, if_pos hok, hobjs]
  · intro b hb
    obtain ⟨p, hp, rfl⟩ := List.mem_map.mp hb
    obtain ⟨more, hcar⟩ := hcarry p hp
    exact ⟨p.2, by rw [hcar.decode, if_pos (hok p hp)], hcar.count, hcar.room⟩

end Sfcb.Result
