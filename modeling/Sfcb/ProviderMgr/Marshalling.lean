import Sfcb.Lib.Numeral
import Sfcb.Object.Portable

/-!
# The buffer of a request

`intInvokeProvider` puts the values of a request behind its header, one after the other,
into the one buffer that is sent to the provider (`providerMgr.c`). A first pass adds up
what they need, a second one copies them and sets where each of them is. Strings are padded
to whole words in both. The receiving thread adds the address of the message to every
offset, and the operations relocate the objects they find there (`providerDrv.c`).

A request arrives if its segments lie in order in the buffer and each is decoded to what was
passed, wherever the message is received (`Arrives`). The second pass has every length in an
`int`, as the functions that rebuild objects have their size; `arrives_iff` says that
nothing else is in the way: it is so exactly where the segments and what they are passed in
are shorter than two gigabytes, none is a path with an array among its keys, and the
segments can be counted with an `int`.

Mirroring notes:
- A segment has the data of its type, as the functions `set…MsgSegment` see to it; other
  types end the process.
- The buffer is what was written to it, by offsets (`Piece`), and the segments of its
  header; what else the header has is copied as it is. Writing outside of the buffer has the
  outcome `none`, and so has a `memcpy` of a negative length.
- The structure of an object is followed by the object (`SegType.sizeofNative` bytes behind its
  start), and only its pointers matter, which the receiver sets.
- `l` is a `long`: what is in memory is shorter than it can say.
- A string is read from its segment. Where it does not end there, reading runs into what
  lies behind.
- No operation decodes arguments that are `NULL`; the length tells them apart.
-/

namespace Sfcb.ProviderMgr.Marshalling

open Sfcb.Lib Sfcb.Lib.Blocks Sfcb.Object

/-! ## Segments -/

/-- The types of segments a request can have. -/
inductive SegType where
  | objectPath
  | inst
  | chars
  | constClass
  | args
  | qualifier
  deriving DecidableEq, Repr

/-- The size of the structure in front of an object: `struct native_cop`,
`struct native_instance`, `CMPIConstClass`, `struct native_args`, `CMPIQualifierDecl`. -/
def SegType.sizeofNative : SegType → Nat
  | .objectPath => 24
  | .inst => 48
  | .chars => 0
  | .constClass => 24
  | .args => 24
  | .qualifier => 16

/-- `MsgSegment`. -/
structure MsgSegment (δ : Type) where
  data : δ
  type : SegType
  length : UInt32

/-- What a segment is made for. -/
inductive Value where
  | chars (str : Option {s : CStr // 0 ∉ s})
  | object (o : CimObject)
  /-- arguments that are `NULL` -/
  | noArgs

def segType : CimObject → SegType
  | .cls _ => .constClass
  | .inst _ => .inst
  | .objectPath _ => .objectPath
  | .args _ => .args
  | .qualifier _ => .qualifier

/-- `getObjectPathSerializedSize` and its siblings. -/
def getSerializedSize (o : CimObject) : Nat := o.size + (segType o).sizeofNative

/-- `setCharsMsgSegment`, `setObjectPathMsgSegment` and its siblings. -/
def Value.segment : Value → MsgSegment Value
  | .chars none => ⟨.chars none, .chars, 0⟩
  | .chars (some s) => ⟨.chars (some s), .chars, UInt32.ofNat (s.1.length + 1)⟩
  | .object o => ⟨.object o, segType o, UInt32.ofNat (getSerializedSize o)⟩
  | .noArgs => ⟨.noArgs, .args, 0⟩

/-- A request: the size of its header and what it passes. -/
structure Request where
  bHdrSize : Nat
  values : List Value
  /-- the segments belong to the header -/
  header : 32 + 16 * values.length ≤ bHdrSize

def Request.object (req : Request) : List (MsgSegment Value) := req.values.map Value.segment

/-- What strings are padded to: the size of an `int`, or on some machines of a pointer. -/
structure Word where
  bytes : Nat
  four_or_eight : bytes = 4 ∨ bytes = 8

/-- `PADDED_LEN`. -/
def paddedLen (w : Word) (s : Nat) : Nat :=
  s + if s % w.bytes = 0 then 0 else w.bytes - s % w.bytes

/-! ## The buffer -/

/-- What was written at an offset. -/
inductive Piece where
  | header (size : Nat)
  | chars (bytes : List UInt8)
  | object (front size : Nat) (area : Area)

def Piece.size : Piece → Nat
  | .header size => size
  | .chars bytes => bytes.length
  | .object front size _ => front + size

/-- The buffer, with the segments in its header and the length that is sent. -/
structure Buffer where
  allocated : Nat
  object : List (MsgSegment Int)
  writes : List (Nat × Piece)
  length : Int

/-- What the first pass counts for a segment. -/
def segmentLen (w : Word) (s : MsgSegment Value) : Nat :=
  if s.type = .chars then paddedLen w s.length.toNat else s.length.toNat

/-- The first pass. -/
def lengthPass (w : Word) (size : Nat) (object : List (MsgSegment Value)) : Nat :=
  size + (object.map (segmentLen w)).sum

/-- Writing to a buffer of `room` bytes. -/
def write (room : Nat) (l : Int) (p : Piece) : Option (List (Nat × Piece)) :=
  if p.size = 0 then some []
  else if 0 ≤ l ∧ l + p.size ≤ room then some [(l.toNat, p)] else none

/-- A segment in the buffer, what was written for it, and where the next one comes. -/
structure Placed where
  segment : MsgSegment Int
  writes : List (Nat × Piece)
  next : Int

/-- The second pass at one segment. -/
def copySegment (w : Word) (base room : Nat) (l : Int) (s : MsgSegment Value) : Option Placed :=
  let ol := cInt s.length.toNat
  match s.data with
  | .chars str =>
    if ol < 0 then none
    else
      let bytes := (str.elim [] (·.1 ++ [0])).take ol.toNat
      let length := UInt32.ofNat (paddedLen w ol.toNat)
      (write room l (.chars bytes)).map (⟨⟨l, s.type, length⟩, ·, l + length.toNat⟩)
  | .object o =>
    (o.rebuild (base + l.toNat + s.type.sizeofNative)).bind fun area =>
      (write room l (.object s.type.sizeofNative o.size area)).map
        (⟨⟨l, s.type, s.length⟩, ·, l + ol⟩)
  | .noArgs => some ⟨⟨l, s.type, s.length⟩, [], l + ol⟩

/-- The second pass, with where it ends. -/
def copyPass (w : Word) (base room : Nat) : (l : Int) → List (MsgSegment Value) →
    Option (List (MsgSegment Int) × List (Nat × Piece) × Int)
  | l, [] => some ([], [], l)
  | l, s :: object =>
    (copySegment w base room l s).bind fun placed =>
      (copyPass w base room placed.next object).map fun rest =>
        (placed.segment :: rest.1, placed.writes ++ rest.2.1, rest.2.2)

/-- The buffer that `intInvokeProvider` builds at `base`. -/
def intInvokeProvider (w : Word) (base : Nat) (req : Request) : Option Buffer :=
  -- `i` is an `int`
  if 2 ^ 31 ≤ req.values.length then none
  else
    let allocated := lengthPass w req.bHdrSize req.object + 8
    (copyPass w base allocated req.bHdrSize req.object).map fun passed =>
      ⟨allocated, passed.1, (0, .header req.bHdrSize) :: passed.2.1, passed.2.2⟩

/-! ## The receiver -/

/-- What `processProviderInvocationRequestsThread` does with a segment of a message at
`base`. -/
def receiveSegment (base : Nat) (s : MsgSegment Int) : MsgSegment (Option Int) :=
  { s with data :=
      if s.length ≠ 0 then some (base + s.data)
      else if s.type = .chars then none
      else some s.data }

/-- What is at an address of the message. -/
def Buffer.at (b : Buffer) (base : Nat) (addr : Int) : Option Piece :=
  if addr < base then none
  else (load Piece.size b.writes (addr - base).toNat).bind fun p =>
    if addr - base + p.size ≤ b.length then some p else none

/-- A `char *` of an operation. -/
def Buffer.charsAt (b : Buffer) (base : Nat) : Option Int → Option (Option CStr)
  | none => some none
  | some addr =>
    match b.at base addr with
    | some (.chars bytes) =>
      if 0 ∈ bytes then some (some (bytes.takeWhile (· != 0))) else none
    | _ => none

/-- `relocateSerializedObjectPath` and its siblings, and the object there is then. -/
def Buffer.relocateSerialized (b : Buffer) (base : Nat) (type : SegType) :
    Option Int → Option CimObject
  | none => none
  | some addr =>
    match b.at base addr with
    | some (.object front _ area) =>
      if front = type.sizeofNative then
        ((area.copyTo (addr.toNat + front)).relocate.bind readFlat).map ClObject.ofKind
      else none
    | _ => none

/-- A segment of a message at `base` is decoded to a value. -/
def Buffer.Decodes (b : Buffer) (base : Nat) (s : MsgSegment Int) : Value → Prop
  | .chars str => s.type = .chars ∧
      b.charsAt base (receiveSegment base s).data = some (str.map Subtype.val)
  | .object o => s.type = segType o ∧ ∃ o',
      b.relocateSerialized base s.type (receiveSegment base s).data = some o' ∧ o.ReadsAs o'
  | .noArgs => s.type = .args ∧ s.length = 0

/-- The segments lie behind a header of `size` bytes and in order, inside of what is sent
and of what was allocated. -/
structure Buffer.InOrder (b : Buffer) (size : Nat) : Prop where
  inside : ∀ s ∈ b.object, (size : Int) ≤ s.data ∧ s.data + s.length.toNat ≤ b.length
  inOrder : b.object.Pairwise fun s t => (s.data + s.length.toNat : Int) ≤ t.data
  room : b.length ≤ b.allocated

/-- What is promised of a request whose buffer is built at `base`. -/
def Arrives (w : Word) (base : Nat) (req : Request) : Prop :=
  ∃ b, intInvokeProvider w base req = some b ∧ b.InOrder req.bHdrSize ∧
    ∀ base', List.Forall₂ (b.Decodes base') b.object req.values

/-- What can be sent in a segment. -/
def Value.Fits : Value → Prop
  | .chars none => True
  | .chars (some s) => s.1.length + 1 < 2 ^ 31
  | .object o => o.object.Whole ∧ (segType o).sizeofNative + o.footprint < 2 ^ 31 ∧ o.SelfContained
  | .noArgs => True

/-- What can be sent in one request. -/
def Request.Fits (req : Request) : Prop :=
  req.values.length < 2 ^ 31 ∧ ∀ v ∈ req.values, v.Fits

/-! ## Lengths -/

theorem cInt_neg {n : Nat} (h : 2 ^ 31 ≤ n) (hlt : n < 2 ^ 32) : cInt n < 0 := by
  unfold cInt Int.bmod
  dsimp only
  split <;> omega

section Lengths

variable {w : Word} {n : Nat}

theorem le_paddedLen (w : Word) (n : Nat) : n ≤ paddedLen w n := Nat.le_add_right ..

theorem paddedLen_zero (w : Word) : paddedLen w 0 = 0 := by
  unfold paddedLen
  rw [Nat.zero_mod, if_pos rfl]

theorem paddedLen_lt (w : Word) (hn : n < 2 ^ 31) : paddedLen w n < 2 ^ 32 := by
  have hbytes : w.bytes ≤ 8 := by
    obtain h | h := w.four_or_eight <;> omega
  unfold paddedLen
  split <;> omega

theorem toNat_ofNat (hn : n < 2 ^ 32) : (UInt32.ofNat n).toNat = n := by
  rw [UInt32.toNat_ofNat']
  exact Nat.mod_eq_of_lt hn

/-- A size that is no `int` is refused. -/
theorem size_lt_of_rebuild {o : CimObject} {base : Nat} {area : Area}
    (h : o.rebuild base = some area) : o.size < 2 ^ 31 := by
  rw [o.rebuild_eq, rebuildH] at h
  by_contra hlarge
  rw [if_pos (by omega)] at h
  exact absurd h (by simp)

theorem size_eq_footprint {o : CimObject} (h : o.object.Whole) : o.size = o.footprint :=
  o.size_eq.trans (extent_eq h)

theorem sizeofNative_pos (o : CimObject) : 0 < (segType o).sizeofNative := by
  cases o <;> simp [segType, SegType.sizeofNative]

theorem sizeofNative_le (o : CimObject) : (segType o).sizeofNative ≤ 48 := by
  cases o <;> simp [segType, SegType.sizeofNative]

end Lengths

/-! ## Reading what was written -/

section Reading

variable {b : Buffer} {base stop ofs : Nat} {p : Piece}

/-- A piece that was sent is found at its address. -/
theorem Buffer.at_eq (base : Nat) (hpacked : Packed Piece.size 0 stop b.writes)
    (hmem : (ofs, p) ∈ b.writes) (hlen : (ofs + p.size : Int) ≤ b.length) : b.at base (base + ofs) = some p := by
  unfold Buffer.at
  rw [if_neg (by omega), show (base + ofs - base : Int) = ofs by omega, Int.toNat_natCast,
    hpacked.load_eq hmem, Option.bind_some, if_pos hlen]

/-- Nothing else is found there. -/
theorem Buffer.at_unique (hpos : ∀ x ∈ b.writes, 0 < x.2.size) (hmem : (ofs, p) ∈ b.writes)
    {q : Piece} (h : b.at base (base + ofs) = some q) : q = p := by
  unfold Buffer.at at h
  rw [if_neg (by omega), show (base + ofs - base : Int) = ofs by omega, Int.toNat_natCast] at h
  obtain ⟨q', hload, hq⟩ := Option.bind_eq_some_iff.mp h
  obtain rfl := load_unique hpos hmem hload
  exact (Option.some.inj (Option.ite_none_right_eq_some.mp hq).2).symm

/-- A segment with something in it gets its address. -/
theorem receiveSegment_data {s : MsgSegment Int} (h : s.length ≠ 0) :
    (receiveSegment base s).data = some (base + s.data) := if_pos h

/-- A path whose arrays were left behind is not relocated. -/
theorem relocate_not_whole {o : CimObject} (hwhole : ¬ o.object.Whole) {area : Area}
    (h : o.rebuild base = some area) (base' : Nat) : (area.copyTo base').relocate = none := by
  have hcopies : ¬ o.object.fixed.copiesArrays = true := fun h' => hwhole (.inl h')
  have hheap : bufRef o.object.hdr.arrayBuf = .heap := by
    cases harray : o.object.hdr.arrayBuf with
    | none => exact absurd (.inr harray) hwhole
    | some b => rfl
  have hlt := size_lt_of_rebuild h
  rw [o.rebuild_eq, rebuildH, if_neg (by omega)] at h
  simp only [ClObject.copyArrays, if_neg hcopies, hheap] at h
  obtain rfl := Option.some.inj h
  unfold Area.relocate Area.head Area.load Area.copyTo
  dsimp only
  rw [load, if_pos rfl]
  split
  · rfl
  · next hhead =>
    split at hhead
    · next hload =>
      split at hload
      · obtain rfl := Block.head.inj (Option.some.inj hload)
        obtain rfl := Option.some.inj hhead
        exact Option.bind_fun_none _
      · cases hload
    · cases hhead

end Reading

/-! ## The first direction: what fits arrives -/

/-- A value in its place. -/
structure Placed.Holds (w : Word) (v : Value) (l : Nat) (p : Placed) : Prop where
  data : p.segment.data = l
  length : p.segment.length.toNat = segmentLen w v.segment
  next : p.next = (l + segmentLen w v.segment : Nat)
  packed : Packed Piece.size l (l + segmentLen w v.segment) p.writes
  decodes : ∀ (b : Buffer) (stop base : Nat), (∀ x ∈ p.writes, x ∈ b.writes) →
    Packed Piece.size 0 stop b.writes → ((l + segmentLen w v.segment : Nat) : Int) ≤ b.length →
      b.Decodes base p.segment v

section Fits

variable {w : Word} {base room l : Nat}

theorem write_eq (p : Piece) (hpos : 0 < p.size) (hroom : l + p.size ≤ room) :
    write room l p = some [(l, p)] := by
  unfold write
  rw [if_neg (by omega), if_pos (by omega), Int.toNat_natCast]

theorem ne_zero_of_toNat {n : UInt32} (h : 0 < n.toNat) : n ≠ 0 := by
  intro heq
  rw [heq] at h
  exact absurd h (by decide)

theorem copySegment_none : ∃ p, copySegment w base room l (Value.chars none).segment = some p ∧
    p.Holds w (.chars none) l := by
  have hlen : segmentLen w (Value.chars none).segment = 0 := paddedLen_zero w
  have hzero : cInt (0 : UInt32).toNat = 0 := by decide
  refine ⟨⟨⟨l, .chars, 0⟩, [], l⟩, ?_, ⟨rfl, hlen.symm, by rw [hlen]; rfl, ?_, ?_⟩⟩
  · simp only [copySegment, Value.segment, hzero, Int.toNat_zero, paddedLen_zero, write]
    simp [Piece.size]
  · rw [hlen]
    exact Nat.le_refl l
  · intro b stop base' _ _ _
    exact ⟨rfl, by simp [receiveSegment, Buffer.charsAt]⟩

/-- A string is copied with its zero and padded. -/
theorem copySegment_chars {s : {s : CStr // 0 ∉ s}} (h : s.1.length + 1 < 2 ^ 31)
    (hroom : l + segmentLen w (Value.chars (some s)).segment ≤ room) :
    ∃ p, copySegment w base room l (Value.chars (some s)).segment = some p ∧
      p.Holds w (.chars (some s)) l := by
  have hlength : (Value.chars (some s)).segment.length.toNat = s.1.length + 1 :=
    toNat_ofNat (by omega)
  have hlen : segmentLen w (Value.chars (some s)).segment = paddedLen w (s.1.length + 1) :=
    congrArg (paddedLen w) hlength
  have hle := le_paddedLen w (s.1.length + 1)
  have hpadded : (UInt32.ofNat (paddedLen w (s.1.length + 1))).toNat =
      paddedLen w (s.1.length + 1) := toNat_ofNat (paddedLen_lt w h)
  have hsize : (Piece.chars (s.1 ++ [0])).size = s.1.length + 1 := by simp [Piece.size]
  have hwrite := write_eq (.chars (s.1 ++ [0])) (by omega)
    (by rw [hsize]; omega : l + _ ≤ room)
  refine ⟨⟨⟨l, .chars, UInt32.ofNat (paddedLen w (s.1.length + 1))⟩, [(l, .chars (s.1 ++ [0]))],
    (l + paddedLen w (s.1.length + 1) : Nat)⟩, ?_, ⟨rfl, hpadded.trans hlen.symm, ?_, ?_, ?_⟩⟩
  · have htake : (s.1 ++ [0]).take (s.1.length + 1) = s.1 ++ [0] :=
      List.take_of_length_le (by simp)
    unfold copySegment
    rw [hlength, cInt_of_lt h]
    dsimp only [Value.segment]
    rw [if_neg (by omega), Int.toNat_natCast, Option.elim_some, htake, hwrite, hpadded,
      Option.map_some, Int.natCast_add]
  · rw [hlen]
  · rw [hlen]
    exact (Packed.single (by omega)).mono (Nat.le_refl _) (by omega)
  · intro b stop base' hin hpacked hsent
    rw [hlen] at hsent
    refine ⟨rfl, ?_⟩
    have hne : UInt32.ofNat (paddedLen w (s.1.length + 1)) ≠ 0 :=
      ne_zero_of_toNat (by omega)
    have hat := Buffer.at_eq base' hpacked (hin _ List.mem_cons_self) (by omega)
    rw [receiveSegment_data hne, Buffer.charsAt, hat]
    have hchars : (s.1 ++ [0]).takeWhile (· != 0) = s.1 := by
      rw [List.takeWhile_append_of_pos fun b hb => by
        simp only [bne_iff_ne, ne_eq]
        exact fun hzero => s.2 (hzero ▸ hb)]
      simp
    simp [hchars]

/-- An object is rebuilt behind its structure. -/
theorem copySegment_object {o : CimObject} (hwhole : o.object.Whole)
    (h : (segType o).sizeofNative + o.footprint < 2 ^ 31) (hself : o.SelfContained)
    (hroom : l + segmentLen w (Value.object o).segment ≤ room) :
    ∃ p, copySegment w base room l (Value.object o).segment = some p ∧
      p.Holds w (.object o) l := by
  have hsize := size_eq_footprint hwhole
  have hlength : (Value.object o).segment.length.toNat = (segType o).sizeofNative + o.size := by
    rw [Nat.add_comm]
    exact toNat_ofNat (by unfold getSerializedSize; omega)
  have hlen : segmentLen w (Value.object o).segment = (segType o).sizeofNative + o.size := by
    unfold segmentLen
    rw [if_neg (by cases o <;> exact SegType.noConfusion), hlength]
  obtain ⟨area, harea, hflat⟩ := (CimObject.portable_iff hwhole).mpr ⟨by omega, hself⟩
    (base + l + (segType o).sizeofNative)
  have hpos := sizeofNative_pos o
  have hwrite := write_eq (.object (segType o).sizeofNative o.size area) (Nat.lt_add_right _ hpos)
    (hlen ▸ hroom)
  refine ⟨⟨⟨l, segType o, (Value.object o).segment.length⟩,
    [(l, .object (segType o).sizeofNative o.size area)],
    (l + ((segType o).sizeofNative + o.size) : Nat)⟩, ?_, ⟨rfl, hlength.trans hlen.symm, ?_, ?_, ?_⟩⟩
  · unfold copySegment
    rw [hlength, cInt_of_lt (by omega)]
    dsimp only [Value.segment]
    rw [Int.toNat_natCast, harea, Option.bind_some, hwrite, Option.map_some]
    push_cast
    rfl
  · rw [hlen]
  · rw [hlen]
    exact Packed.single (Nat.lt_add_right _ hpos)
  · intro b stop base' hin hpacked hsent
    rw [hlen] at hsent
    obtain ⟨moved, o', hmoved, hread, hreads⟩ :=
      hflat.readable (base' + l + (segType o).sizeofNative)
    refine ⟨rfl, o', ?_, hreads⟩
    have hne : (Value.object o).segment.length ≠ 0 := ne_zero_of_toNat (by omega)
    have hat := Buffer.at_eq base' hpacked (hin _ List.mem_cons_self)
      (by rw [Piece.size]; omega)
    rw [receiveSegment_data hne, Buffer.relocateSerialized, hat]
    dsimp only
    rw [if_pos rfl, show ((base' : Int) + l).toNat = base' + l by omega, hmoved,
      Option.bind_some, hread]

theorem copySegment_noArgs : ∃ p, copySegment w base room l Value.noArgs.segment = some p ∧
    p.Holds w .noArgs l := by
  have hlen : segmentLen w Value.noArgs.segment = 0 := rfl
  have hzero : cInt (0 : UInt32).toNat = 0 := by decide
  refine ⟨⟨⟨l, .args, 0⟩, [], l⟩, ?_, ⟨rfl, rfl, rfl, Nat.le_refl l, fun _ _ _ _ _ _ => ⟨rfl, rfl⟩⟩⟩
  simp only [copySegment, Value.segment, hzero, Int.add_zero]

theorem copySegment_fits (base : Nat) {v : Value} (h : v.Fits)
    (hroom : l + segmentLen w v.segment ≤ room) :
    ∃ p, copySegment w base room l v.segment = some p ∧ p.Holds w v l := by
  cases v with
  | chars str =>
    cases str with
    | none => exact copySegment_none
    | some s => exact copySegment_chars h hroom
  | object o => exact copySegment_object h.1 h.2.1 h.2.2 hroom
  | noArgs => exact copySegment_noArgs

/-- Segments one behind the other, from `l` to `stop`. -/
def Chain : (l : Int) → List (MsgSegment Int) → (stop : Int) → Prop
  | l, [], stop => l = stop
  | l, s :: object, stop => s.data = l ∧ Chain (l + s.length.toNat) object stop

theorem Chain.inside {object : List (MsgSegment Int)} {l stop : Int} (h : Chain l object stop) :
    l ≤ stop ∧ ∀ s ∈ object, l ≤ s.data ∧ s.data + s.length.toNat ≤ stop := by
  induction object generalizing l with
  | nil => exact ⟨Int.le_of_eq h, fun s hs => absurd hs List.not_mem_nil⟩
  | cons s object ih =>
    obtain ⟨hdata, hrest⟩ := h
    obtain ⟨hle, hall⟩ := ih hrest
    refine ⟨by omega, fun t ht => ?_⟩
    rcases List.mem_cons.mp ht with rfl | ht
    · exact ⟨by omega, by omega⟩
    · have := hall t ht
      exact ⟨by omega, this.2⟩

theorem Chain.pairwise {object : List (MsgSegment Int)} {l stop : Int} (h : Chain l object stop) :
    object.Pairwise fun s t => (s.data + s.length.toNat : Int) ≤ t.data := by
  induction object generalizing l with
  | nil => exact List.Pairwise.nil
  | cons s object ih =>
    obtain ⟨hdata, hrest⟩ := h
    refine List.pairwise_cons.mpr ⟨fun t ht => ?_, ih hrest⟩
    have := (hrest.inside.2 t ht).1
    omega

/-- The second pass puts every value in its place. -/
theorem copyPass_fits (w : Word) (base : Nat) {values : List Value} (h : ∀ v ∈ values, v.Fits)
    {stop : Nat} (hstop : l + ((values.map Value.segment).map (segmentLen w)).sum = stop)
    (hroom : stop ≤ room) :
    ∃ object writes, copyPass w base room l (values.map Value.segment) =
        some (object, writes, (stop : Int)) ∧
      Chain l object stop ∧ Packed Piece.size l stop writes ∧
      ∀ (b : Buffer) (end' base' : Nat), (∀ x ∈ writes, x ∈ b.writes) →
        Packed Piece.size 0 end' b.writes → (stop : Int) ≤ b.length →
          List.Forall₂ (b.Decodes base') object values := by
  induction values generalizing l with
  | nil =>
    subst hstop
    exact ⟨[], [], rfl, rfl, Nat.le_refl _, fun _ _ _ _ _ _ => .nil⟩
  | cons v values ih =>
    rw [List.map_cons, List.map_cons, List.sum_cons] at hstop
    obtain ⟨p, hp, hholds⟩ := copySegment_fits base (h v List.mem_cons_self)
      (by omega : l + segmentLen w v.segment ≤ room)
    obtain ⟨object, writes, heq, hchain, hpacked, hdecodes⟩ :=
      @ih (l + segmentLen w v.segment) (fun u hu => h u (List.mem_cons_of_mem _ hu)) (by omega)
    refine ⟨p.segment :: object, p.writes ++ writes, ?_, ?_, hholds.packed.append hpacked, ?_⟩
    · rw [List.map_cons, copyPass, hp, Option.bind_some, hholds.next, heq, Option.map_some]
    · refine ⟨hholds.data, ?_⟩
      rw [hholds.length]
      rwa [Int.natCast_add] at hchain
    · intro b end' base' hin hall hsent
      have hle := hpacked.le
      refine .cons (hholds.decodes b end' base' (fun x hx => hin x (List.mem_append_left _ hx))
        hall (by omega)) (hdecodes b end' base' (fun x hx => hin x (List.mem_append_right _ hx))
        hall hsent)

theorem arrives_of_fits {req : Request} (h : req.Fits) : Arrives w base req := by
  obtain ⟨object, writes, heq, hchain, hpacked, hdecodes⟩ :=
    copyPass_fits w base h.2 rfl (Nat.le_add_right (lengthPass w req.bHdrSize req.object) 8)
  have hheader := req.header
  have hall : Packed Piece.size 0 (lengthPass w req.bHdrSize req.object)
      ((0, .header req.bHdrSize) :: writes) :=
    ⟨Nat.le_refl _, by show 0 < req.bHdrSize; omega,
      hpacked.mono (Nat.le_of_eq (Nat.zero_add _)) (Nat.le_refl _)⟩
  have hcount := h.1
  refine ⟨⟨lengthPass w req.bHdrSize req.object + 8, object, (0, .header req.bHdrSize) :: writes,
    (lengthPass w req.bHdrSize req.object : Nat)⟩, ?_,
    ⟨hchain.inside.2, hchain.pairwise, Int.ofNat_le.mpr (Nat.le_add_right _ 8)⟩, fun base' => ?_⟩
  · unfold intInvokeProvider
    rw [if_neg (by omega)]
    dsimp only
    rw [show req.object = req.values.map Value.segment from rfl] at heq ⊢
    rw [heq]
    rfl
  · exact hdecodes _ _ base' (fun x hx => List.mem_cons_of_mem _ hx) hall (Int.le_refl _)

end Fits

/-! ## The other direction: what arrives fits -/

section Arrived

variable {w : Word} {base room : Nat} {l : Int}

theorem mem_write {p : Piece} {writes : List (Nat × Piece)} (h : write room l p = some writes) :
    (∀ x ∈ writes, 0 < x.2.size) ∧ (0 < p.size → 0 ≤ l ∧ (l.toNat, p) ∈ writes) := by
  unfold write at h
  split at h
  · next hzero =>
    obtain rfl := Option.some.inj h
    exact ⟨fun x hx => absurd hx List.not_mem_nil, fun hpos => by omega⟩
  · next hne =>
    obtain ⟨hroom, heq⟩ := Option.ite_none_right_eq_some.mp h
    obtain rfl := Option.some.inj heq
    refine ⟨fun x hx => ?_, fun _ => ⟨hroom.1, List.mem_cons_self⟩⟩
    rw [List.mem_singleton.mp hx]
    exact Nat.pos_of_ne_zero hne

/-- What a string does to the buffer. -/
theorem copySegment_chars_cases {s : MsgSegment Value} {str : Option {s : CStr // 0 ∉ s}}
    (hs : s.data = .chars str) {p : Placed} (h : copySegment w base room l s = some p) :
    ∃ n : Nat, cInt s.length.toNat = n ∧
      p.segment = ⟨l, s.type, UInt32.ofNat (paddedLen w n)⟩ ∧
      write room l (.chars ((str.elim [] (·.1 ++ [0])).take n)) = some p.writes := by
  unfold copySegment at h
  rw [hs] at h
  dsimp only at h
  split at h
  · cases h
  · next hpos =>
    obtain ⟨writes, hwrites, rfl⟩ := Option.map_eq_some_iff.mp h
    exact ⟨_, (Int.toNat_of_nonneg (Int.not_lt.mp hpos)).symm, rfl, hwrites⟩

/-- What an object does to the buffer. -/
theorem copySegment_object_cases {s : MsgSegment Value} {o : CimObject} (hs : s.data = .object o)
    {p : Placed} (h : copySegment w base room l s = some p) :
    ∃ area, o.rebuild (base + l.toNat + s.type.sizeofNative) = some area ∧
      p.segment = ⟨l, s.type, s.length⟩ ∧ p.next = l + cInt s.length.toNat ∧
      write room l (.object s.type.sizeofNative o.size area) = some p.writes := by
  unfold copySegment at h
  rw [hs] at h
  obtain ⟨area, harea, hmap⟩ := Option.bind_eq_some_iff.mp h
  obtain ⟨writes, hwrites, rfl⟩ := Option.map_eq_some_iff.mp hmap
  exact ⟨area, harea, rfl, rfl, hwrites⟩

/-- Every segment starts where the second pass is. -/
theorem copySegment_spec {s : MsgSegment Value} {p : Placed}
    (h : copySegment w base room l s = some p) :
    p.segment.data = l ∧ ∀ x ∈ p.writes, 0 < x.2.size := by
  cases hs : s.data with
  | chars str =>
    obtain ⟨n, -, hsegment, hwrite⟩ := copySegment_chars_cases hs h
    exact ⟨by rw [hsegment], (mem_write hwrite).1⟩
  | object o =>
    obtain ⟨area, -, hsegment, -, hwrite⟩ := copySegment_object_cases hs h
    exact ⟨by rw [hsegment], (mem_write hwrite).1⟩
  | noArgs =>
    unfold copySegment at h
    rw [hs] at h
    obtain rfl := Option.some.inj h
    exact ⟨rfl, fun x hx => absurd hx List.not_mem_nil⟩

theorem copyPass_writes {object : List (MsgSegment Value)}
    {r : List (MsgSegment Int) × List (Nat × Piece) × Int}
    (h : copyPass w base room l object = some r) : ∀ x ∈ r.2.1, 0 < x.2.size := by
  induction object generalizing l r with
  | nil =>
    obtain rfl := Option.some.inj h
    exact fun x hx => absurd hx List.not_mem_nil
  | cons s object ih =>
    obtain ⟨p, hp, hrest⟩ := Option.bind_eq_some_iff.mp h
    obtain ⟨r', hr', rfl⟩ := Option.map_eq_some_iff.mp hrest
    intro x hx
    rcases List.mem_append.mp hx with hx | hx
    · exact (copySegment_spec hp).2 x hx
    · exact ih hr' x hx

/-- What ends before all later segments and before the end ends where the second pass goes
on. -/
theorem le_next {object : List (MsgSegment Value)} {x : Int}
    {r : List (MsgSegment Int) × List (Nat × Piece) × Int}
    (h : copyPass w base room l object = some r) (hlater : ∀ s ∈ r.1, x ≤ s.data)
    (hstop : x ≤ r.2.2) : x ≤ l := by
  cases object with
  | nil =>
    obtain rfl := Option.some.inj h
    exact hstop
  | cons s object =>
    obtain ⟨p, hp, hrest⟩ := Option.bind_eq_some_iff.mp h
    obtain ⟨r', -, rfl⟩ := Option.map_eq_some_iff.mp hrest
    exact (copySegment_spec hp).1 ▸ hlater _ List.mem_cons_self

/-- A string that is too long is not copied, is taken for `NULL` or has no end. -/
theorem chars_fits {s : {s : CStr // 0 ∉ s}} {p : Placed} {b : Buffer}
    (h : copySegment w base room l (Value.chars (some s)).segment = some p)
    (hwrites : ∀ x ∈ p.writes, x ∈ b.writes) (hpos : ∀ x ∈ b.writes, 0 < x.2.size)
    (hdecodes : b.Decodes 0 p.segment (.chars (some s))) : s.1.length + 1 < 2 ^ 31 := by
  obtain ⟨n, hn, hsegment, hwrite⟩ := copySegment_chars_cases rfl h
  by_contra hlong
  have hlength : (Value.chars (some s)).segment.length.toNat = (s.1.length + 1) % 2 ^ 32 :=
    UInt32.toNat_ofNat' ..
  rw [hlength] at hn
  have hmod := Nat.mod_lt (s.1.length + 1) (show 0 < 2 ^ 32 by decide)
  have hsmall : (s.1.length + 1) % 2 ^ 32 < 2 ^ 31 := by
    by_contra hlarge
    have := cInt_neg (Nat.not_lt.mp hlarge) hmod
    omega
  rw [cInt_of_lt hsmall] at hn
  have hshort : n ≤ s.1.length := by omega
  have htake : (s.1 ++ [0]).take n = s.1.take n := List.take_append_of_le_length hshort
  rw [Option.elim_some, htake] at hwrite
  obtain ⟨-, hchars⟩ := hdecodes
  rw [hsegment] at hchars
  by_cases hzero : n = 0
  · rw [hzero, paddedLen_zero] at hchars
    simp [receiveSegment, Buffer.charsAt, Value.segment] at hchars
  · have hsize : (Piece.chars (s.1.take n)).size = n := by
      rw [Piece.size, List.length_take, Nat.min_eq_left hshort]
    obtain ⟨hl, hmem⟩ := (mem_write hwrite).2 (by omega)
    have hne : UInt32.ofNat (paddedLen w n) ≠ 0 := ne_zero_of_toNat (by
      rw [toNat_ofNat (paddedLen_lt w (by omega))]
      exact Nat.lt_of_lt_of_le (Nat.pos_of_ne_zero hzero) (le_paddedLen w n))
    rw [receiveSegment_data hne, ← Int.toNat_of_nonneg hl, Buffer.charsAt] at hchars
    split at hchars
    · next bytes hat =>
      obtain rfl := Piece.chars.inj (Buffer.at_unique hpos (hwrites _ hmem) hat)
      have hnot : 0 ∉ s.1.take n := fun hmem' => s.2 (List.mem_of_mem_take hmem')
      rw [if_neg hnot] at hchars
      cases hchars
    · cases hchars

/-- An object that is too large is not rebuilt, or makes the second pass go back. -/
theorem object_fits {o : CimObject} {p : Placed} {b : Buffer}
    (h : copySegment w base room l (Value.object o).segment = some p)
    (hnext : p.segment.data + p.segment.length.toNat ≤ p.next)
    (hwrites : ∀ x ∈ p.writes, x ∈ b.writes) (hpos : ∀ x ∈ b.writes, 0 < x.2.size)
    (hdecodes : b.Decodes 0 p.segment (.object o)) :
    o.object.Whole ∧ (segType o).sizeofNative + o.footprint < 2 ^ 31 ∧ o.SelfContained := by
  obtain ⟨area, harea, hsegment, heq, hwrite⟩ := copySegment_object_cases rfl h
  have hsize := size_lt_of_rebuild harea
  have hfront := sizeofNative_le o
  have hfrontpos := sizeofNative_pos o
  have hlength : (Value.object o).segment.length.toNat = o.size + (segType o).sizeofNative :=
    toNat_ofNat (by unfold getSerializedSize; omega)
  rw [heq, hsegment] at hnext
  dsimp only at hnext
  rw [hlength] at hnext
  have hsmall : o.size + (segType o).sizeofNative < 2 ^ 31 := by
    by_contra hlarge
    have := cInt_neg (Nat.not_lt.mp hlarge) (by omega)
    omega
  have hwhole : o.object.Whole := by
    by_contra hnot
    obtain ⟨-, o', hreloc, -⟩ := hdecodes
    obtain ⟨hl, hmem⟩ := (mem_write hwrite).2 (Nat.lt_add_right _ hfrontpos)
    have hne : (Value.object o).segment.length ≠ 0 := ne_zero_of_toNat (by omega)
    rw [hsegment, receiveSegment_data hne, ← Int.toNat_of_nonneg hl,
      Buffer.relocateSerialized] at hreloc
    split at hreloc
    · next front size area' hat =>
      obtain ⟨-, -, rfl⟩ := Piece.object.inj (Buffer.at_unique hpos (hwrites _ hmem) hat)
      rw [relocate_not_whole hnot harea] at hreloc
      split at hreloc <;> cases hreloc
    · cases hreloc
  obtain ⟨-, o', -, hreads⟩ := hdecodes
  exact ⟨hwhole, by rw [← size_eq_footprint hwhole]; omega, hreads.selfContained⟩

theorem copyPass_fits_of {values : List Value} {b : Buffer}
    {r : List (MsgSegment Int) × List (Nat × Piece) × Int}
    (h : copyPass w base room l (values.map Value.segment) = some r)
    (hend : ∀ s ∈ r.1, s.data + s.length.toNat ≤ r.2.2)
    (horder : r.1.Pairwise fun s t => (s.data + s.length.toNat : Int) ≤ t.data)
    (hwrites : ∀ x ∈ r.2.1, x ∈ b.writes) (hpos : ∀ x ∈ b.writes, 0 < x.2.size)
    (hdecodes : List.Forall₂ (b.Decodes 0) r.1 values) : ∀ v ∈ values, v.Fits := by
  induction values generalizing l r with
  | nil => exact fun v hv => absurd hv List.not_mem_nil
  | cons v values ih =>
    obtain ⟨p, hp, hrest⟩ := Option.bind_eq_some_iff.mp h
    obtain ⟨r', hr', rfl⟩ := Option.map_eq_some_iff.mp hrest
    obtain ⟨hfirst, horder⟩ := List.pairwise_cons.mp horder
    obtain ⟨hv, hdecodes⟩ := List.forall₂_cons.mp hdecodes
    have hnext := le_next hr' hfirst (hend _ List.mem_cons_self)
    have hsub : ∀ x ∈ p.writes, x ∈ b.writes := fun x hx => hwrites x (List.mem_append_left _ hx)
    refine List.forall_mem_cons.mpr ⟨?_, ih hr'
      (fun s hs => hend s (List.mem_cons_of_mem _ hs)) horder
      (fun x hx => hwrites x (List.mem_append_right _ hx)) hdecodes⟩
    cases v with
    | chars str =>
      cases str with
      | none => trivial
      | some s => exact chars_fits hp hsub hpos hv
    | object o => exact object_fits hp hnext hsub hpos hv
    | noArgs => trivial

end Arrived

/-- A request arrives exactly if all of it fits into `int`s, no array is a key and no value is a
pointer. -/
theorem arrives_iff (w : Word) (base : Nat) (req : Request) : Arrives w base req ↔ req.Fits := by
  refine ⟨?_, arrives_of_fits⟩
  intro h
  obtain ⟨b, hb, horder, hdecodes⟩ := h
  unfold intInvokeProvider at hb
  split at hb
  · cases hb
  · next hcount =>
    obtain ⟨r, hr, rfl⟩ := Option.map_eq_some_iff.mp hb
    have hheader := req.header
    have hpos : ∀ x ∈ (0, Piece.header req.bHdrSize) :: r.2.1, 0 < x.2.size :=
      List.forall_mem_cons.mpr ⟨by show 0 < req.bHdrSize; omega, copyPass_writes hr⟩
    exact ⟨by omega, copyPass_fits_of hr (fun s hs => (horder.inside s hs).2) horder.inOrder
      (fun x hx => List.mem_cons_of_mem _ hx) hpos (hdecodes 0)⟩

/-- Arguments with an array of a hundred million elements do not arrive. -/
theorem not_arrives : ∃ o, (hugeRecipe (10 ^ 8)).build = some o ∧
    ¬ Arrives ⟨4, .inl rfl⟩ 0 ⟨48, [.object o], Nat.le_refl _⟩ := by
  obtain ⟨o, ho, hlarge⟩ := hugeRecipe_build (n := 10 ^ 8) (by decide)
  refine ⟨o, ho, fun h => ?_⟩
  have hsmall := (((arrives_iff _ _ _).mp h).2 (.object o) List.mem_cons_self).2.1
  unfold sizeofCMPIData at hlarge
  omega

end Sfcb.ProviderMgr.Marshalling
