import Sfcb.Lib.LittleEndian
import Sfcb.Lib.Numeral

/-!
# Message framing on a stream socket

`msgqueue.c` sends a message as a fixed header, an optional descriptor that
travels with the first byte, and a payload whose length the header tells. This
file embeds `spSendReq`, `spSendResult` and `spSendResult2` with `spSendMsg` under
them, and `spRcvMsg` with `spGetMsg` under it, as a machine that takes one
`recvmsg` at a time.

A run interleaves the two sides arbitrarily. `framing_delivers` is the result: as
long as every `sendmsg` transfers its message whole and no `recvmsg` is
interrupted while a header is incomplete, what has been delivered is at any time
a prefix of what has been sent, and once the receiver has had enough transfers it
is all of it. `spSendMsg` does not look at how much `sendmsg` took, and the loop
around the header starts over at byte zero after an interrupt; the loops around
the payload resume where they were.

Mirroring notes:
- A descriptor is the open file it stands for; the receiver gets a number of its
  own for the same file. Number 0 is taken in every process.
- Both processes run on one host, so the header's memory layout is the same on
  both sides (64-bit, little-endian).
- The `unsigned length` of `spGetMsg` is no narrower than the lengths it gets: the
  senders' `int size` makes a `totalSize` below 2^31, or one above every `long`.
- A socket with nothing in it makes the receiver wait; nobody closes it.
-/

namespace Sfcb.MsgQueue

open Sfcb.Lib

/-! ## The header -/

/-- `SpMessageHdr`. -/
structure SpMessageHdr where
  type : UInt16
  xtra : UInt16
  returnS : UInt32
  totalSize : UInt64
  segments : UInt64
  provId : UInt64
  deriving DecidableEq, Repr

/-- `sizeof(SpMessageHdr)`. -/
def hdrSize : Nat := 32

/-- The header as it lies in memory. -/
def SpMessageHdr.bytes (h : SpMessageHdr) : List UInt8 :=
  toLE 2 h.type.toNat ++ (toLE 2 h.xtra.toNat ++ (toLE 4 h.returnS.toNat ++
    (toLE 8 h.totalSize.toNat ++ (toLE 8 h.segments.toNat ++ toLE 8 h.provId.toNat))))

/-- The header that lies in these bytes. -/
def SpMessageHdr.ofBytes (bs : List UInt8) : SpMessageHdr where
  type := UInt16.ofNat (ofLE (bs.take 2))
  xtra := UInt16.ofNat (ofLE ((bs.drop 2).take 2))
  returnS := UInt32.ofNat (ofLE ((bs.drop 4).take 4))
  totalSize := UInt64.ofNat (ofLE ((bs.drop 8).take 8))
  segments := UInt64.ofNat (ofLE ((bs.drop 16).take 8))
  provId := UInt64.ofNat (ofLE ((bs.drop 24).take 8))

@[simp] theorem length_hdr_bytes (h : SpMessageHdr) : h.bytes.length = hdrSize := by
  simp [SpMessageHdr.bytes, hdrSize]

theorem ofBytes_bytes (h : SpMessageHdr) : SpMessageHdr.ofBytes h.bytes = h := by
  obtain ⟨type, xtra, returnS, totalSize, segments, provId⟩ := h
  have htype := ofLE_toLE (k := 2) type.toNat_lt
  have hxtra := ofLE_toLE (k := 2) xtra.toNat_lt
  have hret := ofLE_toLE (k := 4) returnS.toNat_lt
  have htot := ofLE_toLE (k := 8) totalSize.toNat_lt
  have hseg := ofLE_toLE (k := 8) segments.toNat_lt
  have hprov := ofLE_toLE (k := 8) provId.toNat_lt
  simp [SpMessageHdr.ofBytes, SpMessageHdr.bytes, List.drop_append, List.take_of_length_le,
    List.drop_of_length_le, htype, hxtra, hret, htot, hseg, hprov]

/-! ## The sender -/

/-- A byte in the stream, with the descriptor that travels with it. -/
abbrev Cell := UInt8 × Option Nat

/-- The caller's descriptor: its number, and the open file behind it. -/
structure Fd where
  num : Int
  file : Nat
  deriving DecidableEq, Repr

/-- A call of one of the three sending functions. -/
inductive SendCall where
  | req (fd : Fd) (data : List UInt8) (internal : Bool)
  | result (fd : Fd) (data : List UInt8)
  | result2 (fd : Fd) (d1 d2 : List UInt8)
  deriving DecidableEq, Repr

/-- `*from` as `spSendMsg` gets it, and its open file. Only `spSendReq` turns the
number around, for a requester in the same process. -/
def SendCall.fd : SendCall → Fd
  | .req fd _ internal => if internal then ⟨-fd.num, fd.file⟩ else fd
  | .result fd _ => fd
  | .result2 fd _ _ => fd

/-- The payload, over all entries of the `iovec` behind the header. -/
def SendCall.payload : SendCall → List UInt8
  | .req _ data _ => data
  | .result _ data => data
  | .result2 _ d1 d2 => d1 ++ d2

/-- The header `spSendMsg` fills in. The size passes through an `int`. -/
def SendCall.hdr (c : SendCall) : SpMessageHdr where
  type := 1
  xtra := 0
  returnS := UInt32.ofNat c.fd.num.natAbs
  totalSize := UInt64.ofNat ((cInt c.payload.length) % 2 ^ 64).toNat
  segments := 0
  provId := 0

/-- The descriptor that is passed along. -/
def SendCall.passed (c : SendCall) : Option Nat :=
  if c.fd.num > 0 then some c.fd.file else none

/-- Bytes of one `sendmsg`, the descriptor on the first. -/
def attach (fd : Option Nat) : List UInt8 → List Cell
  | [] => []
  | b :: bs => (b, fd) :: bs.map (·, none)

/-- What `sendmsg` is given. -/
def SendCall.cells (c : SendCall) : List Cell :=
  attach c.passed (c.hdr.bytes ++ c.payload)

/-- How a `sendmsg` goes: everything is taken, or only the first `k` bytes, or it
is interrupted before the first. -/
inductive SendOutcome where
  | full
  | short (k : Nat)
  | eintr
  deriving DecidableEq, Repr

/-- `spSendMsg`: the bytes that get into the stream. A short count is not looked at. -/
def spSendMsg (c : SendCall) : SendOutcome → List Cell
  | .full => c.cells
  | .short k => c.cells.take k
  | .eintr => []

/-! ## The receiver -/

/-- What `*from` is set to. -/
inductive FromS where
  | passed (file : Nat)
  | number (returnS : UInt32)
  deriving DecidableEq, Repr

/-- What `spRcvMsg` returns. -/
inductive RcvResult where
  | data (hdr : SpMessageHdr) (fromS : FromS) (payload : List UInt8)
  | ctl (hdr : SpMessageHdr) (fromS : FromS) (payload : List UInt8)
  /-- `-1` -/
  | error
  | aborted
  deriving DecidableEq, Repr

/-- Where `spRcvMsg` is: in the loop around the header, around the payload, or
around the text of an extended control message. -/
inductive Phase where
  | header (got : List UInt8) (fromfd : Option Nat)
  | payload (hdr : SpMessageHdr) (fromS : FromS) (got : List UInt8)
  | extended (got : List UInt8)
  deriving DecidableEq, Repr

/-- The next call of `spRcvMsg`. -/
def Phase.start : Phase := .header [] none

/-- How a `recvmsg` goes: it is interrupted, or at most `k + 1` bytes come. -/
inductive RecvEvent where
  | eintr
  | xfer (k : Nat)
  deriving DecidableEq, Repr

/-- `spRcvMsg` behind the payload. The `switch` has no case for the extended
control messages, whose text is read all the same. -/
def afterPayload (hdr : SpMessageHdr) (fromS : FromS) (payload : List UInt8) :
    Phase × List RcvResult :=
  if hdr.type = 1 then (.start, [.data hdr fromS payload])
  else if hdr.xtra = 7 then (.extended [], [])
  else if hdr.xtra ∈ [2, 3, 4, 5, 6, 9, 10] then (.start, [.ctl hdr fromS payload])
  else (.start, [.aborted])

/-- `spRcvMsg` behind the header. -/
def afterHeader (maxlen : Nat) (hdr : SpMessageHdr) (fromfd : Option Nat) :
    Phase × List RcvResult :=
  let fromS := match fromfd with
    | some file => FromS.passed file
    | none => .number hdr.returnS
  if hdr.totalSize.toNat > maxlen then (.start, [.error])
  else if hdr.totalSize ≠ 0 then (.payload hdr fromS [], [])
  else afterPayload hdr fromS []

/-- How many bytes a `recvmsg` for `want` bytes gets. -/
def recvCount (k want : Nat) (stream : List Cell) : Nat := min (min (k + 1) want) stream.length

/-- One `recvmsg` of the receiver. An interrupt in the header loop returns to
`spRcvMsg`, which starts over with the buffer; in the other loops the bytes so far
are counted in. The descriptor is only looked for with the first bytes. -/
def receive (maxlen : Nat) (stream : List Cell) (phase : Phase) (ev : RecvEvent) :
    List Cell × Phase × List RcvResult :=
  match ev, phase with
  | .eintr, .header _ _ => (stream, .start, [])
  | .eintr, phase => (stream, phase, [])
  | .xfer k, .header got fromfd =>
    let n := recvCount k (hdrSize - got.length) stream
    let got' := got ++ (stream.take n).map Prod.fst
    let fromfd' := if got = [] then (stream.take n).findSome? Prod.snd else fromfd
    if got'.length < hdrSize then (stream.drop n, .header got' fromfd', [])
    else (stream.drop n, afterHeader maxlen (SpMessageHdr.ofBytes got') fromfd')
  | .xfer k, .payload hdr fromS got =>
    let n := recvCount k (hdr.totalSize.toNat - got.length) stream
    let got' := got ++ (stream.take n).map Prod.fst
    if got'.length < hdr.totalSize.toNat then (stream.drop n, .payload hdr fromS got', [])
    else (stream.drop n, afterPayload hdr fromS got')
  | .xfer k, .extended got =>
    let n := recvCount k (256 - got.length) stream
    let got' := got ++ (stream.take n).map Prod.fst
    if got'.length < 256 then (stream.drop n, .extended got', [])
    else (stream.drop n, .start, [.aborted])

/-! ## The two sides together -/

structure System where
  sent : List SendCall
  stream : List Cell
  phase : Phase
  results : List RcvResult

def System.initial : System := ⟨[], [], .start, []⟩

inductive Action where
  | send (call : SendCall) (outcome : SendOutcome)
  | recv (ev : RecvEvent)
  deriving DecidableEq, Repr

def step (maxlen : Nat) (s : System) : Action → System
  | .send call outcome =>
    { s with sent := s.sent ++ [call], stream := s.stream ++ spSendMsg call outcome }
  | .recv ev =>
    let r := receive maxlen s.stream s.phase ev
    { s with stream := r.1, phase := r.2.1, results := s.results ++ r.2.2 }

def run (maxlen : Nat) (s : System) (acts : List Action) : System :=
  acts.foldl (step maxlen) s

/-- Where the answer to a message should go: the descriptor if one was passed. -/
def SendCall.fromS (c : SendCall) : FromS :=
  if c.fd.num > 0 then .passed c.fd.file else .number c.hdr.returnS

/-- What the receiver of a message should get. -/
def SendCall.expected (c : SendCall) : RcvResult := .data c.hdr c.fromS c.payload

/-! ## The condition on a step -/

/-- A header is incomplete. -/
def Phase.midHeader : Phase → Bool
  | .header got _ => !got.isEmpty
  | _ => false

/-- A message that goes out whole and is not too long, and no interrupt while a
header is incomplete. -/
def stepOk (maxlen : Nat) (s : System) : Action → Prop
  | .send call outcome =>
    outcome = .full ∧ call.payload.length < 2 ^ 31 ∧ call.payload.length ≤ maxlen
  | .recv .eintr => s.phase.midHeader = false
  | .recv (.xfer _) => True

/-- Every step of the run meets the condition. -/
def runOk (maxlen : Nat) : System → List Action → Prop
  | _, [] => True
  | s, a :: acts => stepOk maxlen s a ∧ runOk maxlen (step maxlen s a) acts

/-! ## A message in the stream -/

theorem map_fst_attach (fd : Option Nat) (bs : List UInt8) : (attach fd bs).map Prod.fst = bs := by
  cases bs with
  | nil => rfl
  | cons b bs => simp [attach, Function.comp_def]

/-- Whatever is taken off the front comes with the descriptor. -/
theorem findSome_take_attach (fd : Option Nat) (bs : List UInt8) {n : Nat}
    (hn : 0 < n) (hbs : bs ≠ []) : ((attach fd bs).take n).findSome? Prod.snd = fd := by
  obtain ⟨b, bs, rfl⟩ := List.exists_cons_of_ne_nil hbs
  obtain ⟨n, rfl⟩ : ∃ k, n = k + 1 := ⟨n - 1, by omega⟩
  rw [attach, List.take_succ_cons, List.findSome?_cons]
  cases fd with
  | some file => rfl
  | none =>
    rw [List.findSome?_eq_none_iff]
    intro cell hcell
    obtain ⟨c, -, rfl⟩ := List.mem_map.mp (List.mem_of_mem_take hcell)
    rfl

section Message

variable (c : SendCall)

theorem hdr_bytes_ne_nil : c.hdr.bytes ++ c.payload ≠ [] := by
  intro h
  have := congrArg List.length h
  simp [hdrSize] at this

theorem length_cells : c.cells.length = hdrSize + c.payload.length := by
  have h := congrArg List.length (map_fst_attach c.passed (c.hdr.bytes ++ c.payload))
  simpa [SendCall.cells] using h

/-- Behind the header there are only plain bytes. -/
theorem drop_cells : c.cells.drop hdrSize = c.payload.map (·, none) := by
  obtain ⟨b, bs, hbs⟩ := List.exists_cons_of_ne_nil (hdr_bytes_ne_nil c)
  have hdrop : (c.hdr.bytes ++ c.payload).drop hdrSize = c.payload := by
    rw [← length_hdr_bytes c.hdr, List.drop_left]
  rw [SendCall.cells, hbs, attach]
  rw [hbs] at hdrop
  show (bs.map (·, none)).drop 31 = c.payload.map (·, none)
  rw [← List.map_drop]
  exact congrArg _ hdrop

theorem take_cells_bytes : (c.cells.take hdrSize).map Prod.fst = c.hdr.bytes := by
  rw [List.map_take, SendCall.cells, map_fst_attach, ← length_hdr_bytes c.hdr, List.take_left]

theorem findSome_take_cells {n : Nat} (hn : 0 < n) :
    (c.cells.take n).findSome? Prod.snd = c.passed :=
  findSome_take_attach c.passed _ hn (hdr_bytes_ne_nil c)

/-- The length a message that fits an `int` announces. -/
theorem totalSize_hdr (h : c.payload.length < 2 ^ 31) :
    c.hdr.totalSize.toNat = c.payload.length := by
  have hmod : (cInt c.payload.length % 2 ^ 64).toNat = c.payload.length := by
    rw [cInt_of_lt h]
    omega
  simp only [SendCall.hdr, hmod]
  exact UInt64.toNat_ofNat_of_lt (by simp [UInt64.size]; omega)

end Message

/-! ## The invariant -/

/-- The messages still to be delivered, as they were put into the stream. -/
def wire (rest : List SendCall) : List Cell := rest.flatMap SendCall.cells

/-- How the receiver stands to the messages still to be delivered: it has read so
many bytes of the first, and the stream holds the others. -/
def pending (phase : Phase) (stream : List Cell) (rest : List SendCall) : Prop :=
  match phase with
  | .header got fromfd =>
    ∃ m, m < hdrSize ∧ m ≤ (wire rest).length ∧ got = ((wire rest).take m).map Prod.fst ∧
      stream = (wire rest).drop m ∧
      (m ≠ 0 → fromfd = ((wire rest).take m).findSome? Prod.snd)
  | .payload hdr fromS got =>
    ∃ c rest' m, rest = c :: rest' ∧ m < c.payload.length ∧ hdr = c.hdr ∧
      fromS = c.fromS ∧ got = c.payload.take m ∧ stream = (c.payload.drop m).map (·, none) ++ wire rest'
  | .extended _ => False

/-- What has been delivered and what is pending make up what was sent. -/
def Inv (maxlen : Nat) (s : System) : Prop :=
  ∃ done rest, s.sent = done ++ rest ∧ s.results = done.map SendCall.expected ∧
    (∀ c ∈ rest, c.payload.length < 2 ^ 31 ∧ c.payload.length ≤ maxlen) ∧
    pending s.phase s.stream rest

theorem pending_start (rest : List SendCall) : pending .start (wire rest) rest :=
  ⟨0, by decide, Nat.zero_le _, rfl, rfl, fun h => absurd rfl h⟩

theorem inv_initial (maxlen : Nat) : Inv maxlen System.initial :=
  ⟨[], [], rfl, rfl, by simp, pending_start []⟩

theorem wire_append (rest : List SendCall) (c : SendCall) :
    wire (rest ++ [c]) = wire rest ++ c.cells := by
  simp [wire]

/-- A message sent goes behind the pending ones. -/
theorem pending_send {phase : Phase} {stream : List Cell} {rest : List SendCall}
    (h : pending phase stream rest) (c : SendCall) :
    pending phase (stream ++ c.cells) (rest ++ [c]) := by
  cases phase with
  | header got fromfd =>
    obtain ⟨m, hm, hlen, rfl, rfl, hfd⟩ := h
    have htake : (wire rest ++ c.cells).take m = (wire rest).take m :=
      List.take_append_of_le_length hlen
    refine ⟨m, hm, ?_, ?_, ?_, ?_⟩
    · rw [wire_append, List.length_append]
      omega
    · rw [wire_append, htake]
    · rw [wire_append, List.drop_append_of_le_length hlen]
    · rw [wire_append, htake]
      exact hfd
  | payload hdr fromS got =>
    obtain ⟨d, rest', m, rfl, hm, hhdr, hfrom, hgot, rfl⟩ := h
    exact ⟨d, rest' ++ [c], m, rfl, hm, hhdr, hfrom, hgot, by rw [wire_append, List.append_assoc]⟩
  | extended got => exact h

/-! ## One receive -/

section Receive

variable {maxlen : Nat}

/-- The receiver behind the header of a message that fits. -/
theorem afterHeader_hdr (c : SendCall)
    (hfit : c.payload.length < 2 ^ 31 ∧ c.payload.length ≤ maxlen) :
    afterHeader maxlen c.hdr c.passed
      = if c.payload = [] then (.start, [c.expected])
        else (.payload c.hdr c.fromS [], []) := by
  have htot := totalSize_hdr c hfit.1
  have hshort : ¬ c.hdr.totalSize.toNat > maxlen := by omega
  have hfrom : (match c.passed with
      | some file => FromS.passed file
      | none => .number c.hdr.returnS) = c.fromS := by
    simp only [SendCall.passed, SendCall.fromS]
    by_cases hnum : c.fd.num > 0
    · rw [if_pos hnum, if_pos hnum]
    · rw [if_neg hnum, if_neg hnum]
  have htype : c.hdr.type = 1 := rfl
  have hzero : c.hdr.totalSize ≠ 0 ↔ c.payload ≠ [] := by
    rw [Ne, Ne, ← UInt64.toNat_inj, htot]
    simp
  simp only [afterHeader, if_neg hshort, hfrom]
  by_cases hnil : c.payload = []
  · rw [if_neg (by simpa [hnil] using hzero), if_pos hnil, afterPayload,
      if_pos htype, SendCall.expected, hnil]
  · rw [if_pos (hzero.mpr hnil), if_neg hnil]

/-- A receive somewhere in a header. -/
theorem pending_receive_header {got : List UInt8} {fromfd : Option Nat} {stream : List Cell}
    {rest : List SendCall} (h : pending (.header got fromfd) stream rest)
    (hfit : ∀ c ∈ rest, c.payload.length < 2 ^ 31 ∧ c.payload.length ≤ maxlen) (k : Nat) :
    ∃ done rest', rest = done ++ rest' ∧
      (receive maxlen stream (.header got fromfd) (.xfer k)).2.2 = done.map SendCall.expected ∧
      pending (receive maxlen stream (.header got fromfd) (.xfer k)).2.1
        (receive maxlen stream (.header got fromfd) (.xfer k)).1 rest' := by
  obtain ⟨m, hm, hlen, hgot, hstream, hfd⟩ := h
  have hgotlen : got.length = m := by
    rw [hgot, List.length_map, List.length_take]
    omega
  have hstreamlen : stream.length = (wire rest).length - m := by rw [hstream, List.length_drop]
  generalize hn : recvCount k (hdrSize - got.length) stream = n
  have hnle : m + n ≤ hdrSize ∧ m + n ≤ (wire rest).length := by
    rw [← hn, recvCount, hgotlen, hstreamlen]
    omega
  have hgot' : got ++ (stream.take n).map Prod.fst = ((wire rest).take (m + n)).map Prod.fst := by
    rw [hgot, hstream, ← List.map_append, List.take_add]
  have hlen' : (got ++ (stream.take n).map Prod.fst).length = m + n := by
    rw [hgot', List.length_map, List.length_take]
    omega
  have hdrop : stream.drop n = (wire rest).drop (m + n) := by rw [hstream, List.drop_drop]
  -- the descriptor found with the first bytes is the one found with all of them
  have hfd' : m + n ≠ 0 →
      (if got = [] then (stream.take n).findSome? Prod.snd else fromfd)
        = ((wire rest).take (m + n)).findSome? Prod.snd := by
    intro hne
    by_cases hm0 : m = 0
    · have hnil : got = [] := List.length_eq_zero_iff.mp (by omega)
      rw [if_pos hnil, hstream, hm0, List.drop_zero, Nat.zero_add]
    · have hcons : got ≠ [] := fun e => hm0 (by rw [← hgotlen, e, List.length_nil])
      rw [if_neg hcons, hfd hm0]
      cases rest with
      | nil => simp [wire] at hlen; omega
      | cons c rest =>
        have hcells := length_cells c
        have hsplit : ∀ j, j ≤ hdrSize → (wire (c :: rest)).take j = c.cells.take j := by
          intro j hj
          rw [wire, List.flatMap_cons, List.take_append_of_le_length (by omega)]
        rw [hsplit m (by omega), hsplit (m + n) (by omega), findSome_take_cells c (by omega),
          findSome_take_cells c (by omega)]
  simp only [receive, hn]
  by_cases hdone : m + n < hdrSize
  · rw [if_pos (by rw [hlen']; exact hdone)]
    exact ⟨[], rest, rfl, rfl, m + n, hdone, hnle.2, hgot', hdrop, hfd'⟩
  · have hfull : m + n = hdrSize := by omega
    rw [if_neg (by rw [hlen']; exact hdone), hfd' (by rw [hfull]; decide), hgot', hdrop, hfull]
    cases rest with
    | nil =>
      have hnone : (wire []).length = 0 := rfl
      rw [hfull, hnone] at hnle
      exact absurd hnle.2 (by decide)
    | cons c rest =>
      have hcells := length_cells c
      have hhead : (wire (c :: rest)).take hdrSize = c.cells.take hdrSize := by
        rw [wire, List.flatMap_cons, List.take_append_of_le_length (by omega)]
      have htail : (wire (c :: rest)).drop hdrSize = c.payload.map (·, none) ++ wire rest := by
        rw [wire, List.flatMap_cons, List.drop_append_of_le_length (by omega), drop_cells]
        rfl
      rw [hhead, htail, take_cells_bytes, ofBytes_bytes, findSome_take_cells c (by decide),
        afterHeader_hdr c (hfit c (List.mem_cons_self ..))]
      by_cases hnil : c.payload = []
      · rw [if_pos hnil, hnil]
        exact ⟨[c], rest, rfl, rfl, pending_start rest⟩
      · rw [if_neg hnil]
        exact ⟨[], c :: rest, rfl, rfl, c, rest, 0, rfl, List.length_pos_iff.mpr hnil, rfl, rfl,
          rfl, rfl⟩

/-- A receive somewhere in a payload. -/
theorem pending_receive_payload {hdr : SpMessageHdr} {fromS : FromS} {got : List UInt8}
    {stream : List Cell} {rest : List SendCall} (h : pending (.payload hdr fromS got) stream rest)
    (hfit : ∀ c ∈ rest, c.payload.length < 2 ^ 31 ∧ c.payload.length ≤ maxlen) (k : Nat) :
    ∃ done rest', rest = done ++ rest' ∧
      (receive maxlen stream (.payload hdr fromS got) (.xfer k)).2.2
        = done.map SendCall.expected ∧
      pending (receive maxlen stream (.payload hdr fromS got) (.xfer k)).2.1
        (receive maxlen stream (.payload hdr fromS got) (.xfer k)).1 rest' := by
  obtain ⟨c, rest', m, rfl, hm, rfl, rfl, rfl, rfl⟩ := h
  have htot := totalSize_hdr c (hfit c (List.mem_cons_self ..)).1
  have hgotlen : (c.payload.take m).length = m := by
    rw [List.length_take]
    omega
  generalize hstream : (c.payload.drop m).map (·, none) ++ wire rest' = stream
  have hstreamlen : stream.length = c.payload.length - m + (wire rest').length := by
    rw [← hstream, List.length_append, List.length_map, List.length_drop]
  generalize hn : recvCount k (c.hdr.totalSize.toNat - (c.payload.take m).length) stream = n
  -- a transfer never goes beyond the payload
  have hnle : m + n ≤ c.payload.length := by
    rw [← hn, recvCount, hgotlen, htot]
    omega
  have hplain : ((c.payload.drop m).map fun b => (b, (none : Option Nat))).length
      = c.payload.length - m := by
    rw [List.length_map, List.length_drop]
  have hgot' : c.payload.take m ++ (stream.take n).map Prod.fst = c.payload.take (m + n) := by
    rw [← hstream, List.take_append_of_le_length (by omega), ← List.map_take, List.map_map,
      List.take_add]
    simp [Function.comp_def]
  have hdrop : stream.drop n = (c.payload.drop (m + n)).map (·, none) ++ wire rest' := by
    rw [← hstream, List.drop_append_of_le_length (by omega), ← List.map_drop, List.drop_drop]
  have hlen' : (c.payload.take m ++ (stream.take n).map Prod.fst).length = m + n := by
    rw [hgot', List.length_take]
    omega
  rw [htot] at hn
  simp only [receive, htot, hn, hlen']
  -- either the payload is still incomplete, or the message is delivered
  by_cases hdone : m + n < c.payload.length
  · rw [if_pos hdone]
    exact ⟨[], c :: rest', rfl, rfl, c, rest', m + n, rfl, hdone, rfl, rfl, hgot', hdrop⟩
  · have hfull : m + n = c.payload.length := by omega
    have htype : c.hdr.type = 1 := rfl
    rw [if_neg hdone, hgot', hdrop, hfull, List.take_length, List.drop_length, afterPayload,
      if_pos htype]
    exact ⟨[c], rest', rfl, rfl, pending_start rest'⟩

/-- A receive takes something if there is anything. -/
theorem receive_consumes {phase : Phase} {stream : List Cell} {rest : List SendCall}
    (h : pending phase stream rest) (hfit : ∀ c ∈ rest, c.payload.length < 2 ^ 31)
    (hne : stream ≠ []) (k : Nat) :
    (receive maxlen stream phase (.xfer k)).1.length < stream.length := by
  have hpos : 0 < stream.length := List.length_pos_iff.mpr hne
  have hdrop : ∀ want, 0 < want → (stream.drop (recvCount k want stream)).length < stream.length := by
    intro want hwant
    rw [List.length_drop, recvCount]
    omega
  cases phase with
  | header got fromfd =>
    obtain ⟨m, hm, hlen, rfl, -, -⟩ := h
    have hwant : 0 < hdrSize - (((wire rest).take m).map Prod.fst).length := by
      rw [List.length_map, List.length_take]
      omega
    simp only [receive]
    split <;> exact hdrop _ hwant
  | payload hdr fromS got =>
    obtain ⟨c, rest', m, rfl, hm, rfl, -, rfl, -⟩ := h
    have hwant : 0 < c.hdr.totalSize.toNat - (c.payload.take m).length := by
      rw [totalSize_hdr c (hfit c (List.mem_cons_self ..)), List.length_take]
      omega
    simp only [receive]
    split <;> exact hdrop _ hwant
  | extended got => exact absurd h id

/-- With nothing left in the stream nothing is pending. -/
theorem pending_nil {phase : Phase} {rest : List SendCall} (h : pending phase [] rest) :
    rest = [] := by
  cases phase with
  | header got fromfd =>
    obtain ⟨m, hm, hlen, -, hstream, -⟩ := h
    cases rest with
    | nil => rfl
    | cons c rest =>
      have hcells := length_cells c
      have hzero := congrArg List.length hstream
      rw [List.length_drop, wire, List.flatMap_cons, List.length_append] at hzero
      simp only [List.length_nil] at hzero
      omega
  | payload hdr fromS got =>
    obtain ⟨c, rest', m, -, hm, -, -, -, hstream⟩ := h
    have hzero := congrArg List.length hstream
    rw [List.length_append, List.length_map, List.length_drop] at hzero
    simp only [List.length_nil] at hzero
    omega
  | extended got => exact absurd h id

/-- A receive, interrupted or not. -/
theorem pending_receive {phase : Phase} {stream : List Cell} {rest : List SendCall}
    (h : pending phase stream rest)
    (hfit : ∀ c ∈ rest, c.payload.length < 2 ^ 31 ∧ c.payload.length ≤ maxlen)
    (ev : RecvEvent) (hev : ev = .eintr → phase.midHeader = false) :
    ∃ done rest', rest = done ++ rest' ∧
      (receive maxlen stream phase ev).2.2 = done.map SendCall.expected ∧
      pending (receive maxlen stream phase ev).2.1 (receive maxlen stream phase ev).1 rest' := by
  cases phase with
  | header got fromfd =>
    cases ev with
    | xfer k => exact pending_receive_header h hfit k
    | eintr =>
      obtain ⟨m, hm, hlen, hgot, hstream, -⟩ := h
      have hnil : got = [] := by simpa [Phase.midHeader] using hev rfl
      have hm0 : m = 0 := by
        have := congrArg List.length (hnil.symm.trans hgot)
        simp only [List.length_nil, List.length_map, List.length_take] at this
        omega
      rw [hm0, List.drop_zero] at hstream
      exact ⟨[], rest, rfl, rfl, hstream ▸ pending_start rest⟩
  | payload hdr fromS got =>
    cases ev with
    | xfer k => exact pending_receive_payload h hfit k
    | eintr => exact ⟨[], rest, rfl, rfl, h⟩
  | extended got => exact absurd h id

end Receive

/-! ## Runs -/

section Runs

variable {maxlen : Nat}

theorem step_inv {s : System} {a : Action} (h : Inv maxlen s) (hok : stepOk maxlen s a) :
    Inv maxlen (step maxlen s a) := by
  obtain ⟨done, rest, hsent, hres, hfit, hpend⟩ := h
  cases a with
  | send call outcome =>
    obtain ⟨rfl, hsize, hmax⟩ := hok
    refine ⟨done, rest ++ [call], ?_, hres, ?_, pending_send hpend call⟩
    · simp only [step, hsent, List.append_assoc]
    · intro c hc
      rcases List.mem_append.mp hc with hc | hc
      · exact hfit c hc
      · rw [List.mem_singleton] at hc
        exact hc ▸ ⟨hsize, hmax⟩
  | recv ev =>
    have hev : ev = .eintr → s.phase.midHeader = false := by
      rintro rfl
      exact hok
    obtain ⟨more, rest', rfl, hmore, hpend'⟩ := pending_receive hpend hfit ev hev
    refine ⟨done ++ more, rest', ?_, ?_, ?_, hpend'⟩
    · simp only [step, hsent, List.append_assoc]
    · simp only [step, hres, hmore, List.map_append]
    · intro c hc
      exact hfit c (List.mem_append_right _ hc)

theorem run_inv (acts : List Action) :
    ∀ {s : System}, Inv maxlen s → runOk maxlen s acts → Inv maxlen (run maxlen s acts) := by
  induction acts with
  | nil => intro s h _; exact h
  | cons a acts ih =>
    intro s h hok
    exact ih (step_inv h hok.1) hok.2

/-- How many bytes a schedule of receives is good for, at the least. -/
def transfers (evs : List RecvEvent) : Nat := evs.countP (· != .eintr)

/-- Receiving does not change what was sent, and enough of it empties the stream. -/
theorem run_drains (evs : List RecvEvent) :
    ∀ {s : System}, Inv maxlen s → runOk maxlen s (evs.map .recv) →
      s.stream.length ≤ transfers evs →
      (run maxlen s (evs.map .recv)).stream = [] ∧
        (run maxlen s (evs.map .recv)).sent = s.sent := by
  induction evs with
  | nil =>
    intro s _ _ hcount
    exact ⟨List.length_eq_zero_iff.mp (Nat.le_zero.mp hcount), rfl⟩
  | cons ev evs ih =>
    intro s hinv hok hcount
    have hstep := step_inv hinv hok.1
    obtain ⟨done, rest, -, -, hfit, hpend⟩ := hinv
    -- every transfer takes at least one byte, an interrupt none
    have hless : (step maxlen s (.recv ev)).stream.length ≤ transfers evs := by
      cases ev with
      | eintr =>
        have hsame : (step maxlen s (.recv .eintr)).stream = s.stream := by
          simp only [step]
          cases s.phase <;> rfl
        rw [hsame]
        simpa [transfers] using hcount
      | xfer k =>
        have hcons : transfers (.xfer k :: evs) = transfers evs + 1 := by simp [transfers]
        by_cases hnil : s.stream = []
        · have hstill : (step maxlen s (.recv (.xfer k))).stream = [] := by
            simp only [step, receive, hnil, recvCount, List.length_nil, Nat.min_zero, List.drop_nil]
            cases s.phase with
            | header got fromfd => simp only; split <;> rfl
            | payload hdr fromS got => simp only; split <;> rfl
            | extended got => simp only; split <;> rfl
          rw [hstill]
          exact Nat.zero_le _
        · have hfewer : (receive maxlen s.stream s.phase (.xfer k)).1.length < s.stream.length :=
            receive_consumes hpend (fun c hc => (hfit c hc).1) hnil k
          simp only [step]
          omega
    obtain ⟨hempty, hsent⟩ := ih hstep hok.2 hless
    exact ⟨hempty, hsent⟩

end Runs

/-- **The messages arrive.** In every run whose steps meet the condition, what has
been delivered is a prefix of what was sent, message for message with header,
descriptor and payload; and when the receiver gets as many transfers as there are
bytes under way, interrupted anywhere but in a header, it has delivered all. -/
theorem framing_delivers (maxlen : Nat) (acts : List Action)
    (hok : runOk maxlen System.initial acts) :
    (run maxlen System.initial acts).results
        <+: (run maxlen System.initial acts).sent.map SendCall.expected ∧
      ∀ evs : List RecvEvent,
        runOk maxlen (run maxlen System.initial acts) (evs.map .recv) →
        (run maxlen System.initial acts).stream.length ≤ transfers evs →
        (run maxlen (run maxlen System.initial acts) (evs.map .recv)).results
          = (run maxlen System.initial acts).sent.map SendCall.expected := by
  have hinv := run_inv acts (inv_initial maxlen) hok
  constructor
  · obtain ⟨done, rest, hsent, hres, -, -⟩ := hinv
    rw [hsent, hres, List.map_append]
    exact List.prefix_append ..
  · intro evs hevs hcount
    obtain ⟨hempty, hsent⟩ := run_drains evs hinv hevs hcount
    obtain ⟨done, rest, hsent', hres, -, hpend⟩ := run_inv (evs.map .recv) hinv hevs
    rw [hempty] at hpend
    rw [pending_nil hpend, List.append_nil] at hsent'
    rw [hres, ← hsent, hsent']

instance (maxlen : Nat) (s : System) : (a : Action) → Decidable (stepOk maxlen s a)
  | .send call outcome => inferInstanceAs (Decidable (outcome = .full ∧
      call.payload.length < 2 ^ 31 ∧ call.payload.length ≤ maxlen))
  | .recv .eintr => inferInstanceAs (Decidable (s.phase.midHeader = false))
  | .recv (.xfer _) => inferInstanceAs (Decidable True)

instance (maxlen : Nat) : (s : System) → (acts : List Action) → Decidable (runOk maxlen s acts)
  | _, [] => inferInstanceAs (Decidable True)
  | s, a :: acts =>
    have := instDecidableRunOk maxlen (step maxlen s a) acts
    inferInstanceAs (Decidable (stepOk maxlen s a ∧ runOk maxlen (step maxlen s a) acts))

/-- A result with a descriptor and three bytes, received in pieces with an
interrupt in the payload. -/
theorem framing_delivers_sample :
    let acts : List Action := [.send (.result ⟨5, 42⟩ [1, 2, 3]) .full, .recv (.xfer 9),
      .recv (.xfer 99), .recv (.xfer 0), .recv .eintr, .recv (.xfer 7)]
    (run 100 System.initial acts).results
        <+: (run 100 System.initial acts).sent.map SendCall.expected ∧
      ∀ evs : List RecvEvent, runOk 100 (run 100 System.initial acts) (evs.map .recv) →
        (run 100 System.initial acts).stream.length ≤ transfers evs →
        (run 100 (run 100 System.initial acts) (evs.map .recv)).results
          = (run 100 System.initial acts).sent.map SendCall.expected :=
  framing_delivers 100 [.send (.result ⟨5, 42⟩ [1, 2, 3]) .full, .recv (.xfer 9),
    .recv (.xfer 99), .recv (.xfer 0), .recv .eintr, .recv (.xfer 7)] (by decide)

/-- An interrupt in a header: two messages without payload are sent whole, ten
bytes are received, the receive is interrupted, and the next header is made of the
end of one message and the beginning of the other. -/
theorem framing_mixes :
    ¬ ∀ (maxlen : Nat) (acts : List Action),
      (∀ call outcome, Action.send call outcome ∈ acts → call.payload.length ≤ maxlen) →
      (run maxlen System.initial acts).results
        <+: (run maxlen System.initial acts).sent.map SendCall.expected := by
  intro h
  have hbad := h 100 [.send (.result ⟨0, 0⟩ []) .full, .send (.result ⟨0, 0⟩ []) .full,
    .recv (.xfer 9), .recv .eintr, .recv (.xfer 31)] (by
      intro call outcome hmem
      simp only [List.mem_cons, Action.send.injEq, reduceCtorEq, List.not_mem_nil,
        or_false] at hmem
      rcases hmem with ⟨rfl, -⟩ | ⟨rfl, -⟩ <;> decide)
  have hmixed : (run 100 System.initial [.send (.result ⟨0, 0⟩ []) .full,
      .send (.result ⟨0, 0⟩ []) .full, .recv (.xfer 9), .recv .eintr, .recv (.xfer 31)]).results
        = [.aborted] := by decide
  obtain ⟨rest, hrest⟩ := hbad
  rw [hmixed] at hrest
  cases hrest

end Sfcb.MsgQueue
