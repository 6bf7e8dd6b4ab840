import Sfcb.Lib.Http

/-!
# The chunked response

A request that the client allows to be answered in chunks is served by
`invokeProviders`, which calls the providers one after the other, and by
`intInvokeProvider`, which hands every partial result of a provider to
`writeChunkResponse` as it arrives. `writeChunkResponse` has two modes: in the
first it has written nothing yet, in the second the header is out. This file
embeds the three loops down to the bytes on the connection.

`chunkedResponse_iff` says when the bytes are one well-formed response that
reports an error exactly when a provider returned one. It takes two things: with
more than one provider the first must not fail before it has delivered anything
(the error response is then written whole, and the next provider starts a second
response behind it), and when some provider fails the last one has to (only the
last one's status gets into the trailer).

Mirroring notes:
- The XML text of a partial result is data; the objects behind it do not matter
  here. A `UtilStringBuffer` counts its bytes in an `int`.
- A partial result has `rc` 1 and announces more; the message that ends a
  provider's answer is either the rest of the result or an error. A provider that
  dies sends no last message, and `intInvokeProvider` makes one up.
- The writes of `commWrite` are appended; the modes of a segment only say how its
  memory is freed.
-/

namespace Sfcb.HttpAdapter

open Sfcb.Lib Sfcb.Lib.Http

/-! ## The texts of a response -/

/-- The text of a partial result, as `genEnumResponses` makes it. -/
structure XmlText where
  bytes : CStr
  fits : bytes.length < 2 ^ 31

/-- The parts of the `RequestHdr` that a response repeats. They come out of a
request body, whose length is limited. -/
structure RequestHdr where
  id : Option CStr
  iMethod : Option CStr
  fits : (id.getD []).length + (iMethod.getD []).length < 2 ^ 30

/-- The seven segments of a response; `none` is `NULL`. -/
abbrev RespSegments := List (Option CStr)

/-- The bytes the segments are written as. -/
def RespSegments.text (rs : RespSegments) : CStr := rs.flatMap (·.getD [])

def cimMsg : List CStr := [
  lit "ok",
  lit "A general error occured that is not covered by a more specific error code",
  lit "Access to a CIM resource was not available to the client",
  lit "The target namespace does not exist",
  lit "One or more parameter values passed to the method were invalid",
  lit "The specified Class does not exist",
  lit "The requested object could not be found",
  lit "The requested operation is not supported",
  lit "Operation cannot be carried out on this class since it has subclasses",
  lit "Operation cannot be carried out on this class since it has instances",
  lit "Operation cannot be carried out since the specified superclass does not exist",
  lit "Operation cannot be carried out because an object already exists",
  lit "The specified Property does not exist",
  lit "The value supplied is incompatible with the type",
  lit "The query language is not recognized or supported",
  lit "The query is not valid for the specified query language",
  lit "The extrinsic Method could not be executed",
  lit "The specified extrinsic Method does not exist"]

def iResponseIntro1 : CStr :=
  lit "<?xml version=\"1.0\" encoding=\"utf-8\" ?>\n" ++
  lit "<CIM CIMVERSION=\"2.0\" DTDVERSION=\"2.0\">\n" ++
  lit "<MESSAGE ID=\""

def iResponseIntro2 : CStr :=
  lit "\" PROTOCOLVERSION=\"1.0\">\n" ++
  lit "<SIMPLERSP>\n" ++
  lit "<IMETHODRESPONSE NAME=\""

def iResponseIntro3Error : CStr := lit "\">\n"

def iResponseIntro3 : CStr := lit "\">\n" ++ lit "<IRETURNVALUE>\n"

def iResponseTrailer1Error : CStr :=
  lit "</IMETHODRESPONSE>\n" ++ lit "</SIMPLERSP>\n" ++ lit "</MESSAGE>\n" ++ lit "</CIM>"

def iResponseTrailer1 : CStr :=
  lit "</IRETURNVALUE>\n" ++ lit "</IMETHODRESPONSE>\n" ++ lit "</SIMPLERSP>\n" ++
  lit "</MESSAGE>\n" ++ lit "</CIM>"

/-- `getErrSegment(rc, NULL)`. -/
def getErrSegment (rc : Nat) : CStr :=
  if 0 < rc ∧ rc < 18 then
    lit "<ERROR CODE=\"" ++ printInt (cInt rc) ++ lit "\" DESCRIPTION=\"" ++ cimMsg.getD rc []
      ++ lit "\"/>\n"
  else lit "<ERROR CODE=\"" ++ printInt (cInt rc) ++ lit "\"/>\n"

/-- `getErrTrailer(73, rc, NULL)`. -/
def getErrTrailer (rc : Nat) : CStr :=
  if 0 < rc ∧ rc < 18 then
    lit "CIMStatusCodeDescription: " ++ cimMsg.getD rc [] ++ lit "\r\n"
  else lit "CIMStatusCodeDescription: *Unknown*\r\n"

def iMethodErrResponse (hdr : RequestHdr) (error : CStr) : RespSegments :=
  [some iResponseIntro1, hdr.id, some iResponseIntro2, hdr.iMethod, some iResponseIntro3Error,
    some error, some iResponseTrailer1Error]

def iMethodResponse (hdr : RequestHdr) (sb : CStr) : RespSegments :=
  [some iResponseIntro1, hdr.id, some iResponseIntro2, hdr.iMethod, some iResponseIntro3,
    some sb, some iResponseTrailer1]

def iMethodGetTrailer (sb : CStr) : RespSegments :=
  [some sb, some iResponseTrailer1, none, none, none, none, none]

/-! ## The writer -/

/-- `chunkedMode` 1 and 2. -/
inductive ChunkedMode where
  | first | following
  deriving DecidableEq, Repr

/-- The fields of `BinRequestContext` the writer uses. `closing` stands for
`keepaliveTimeout == 0 || numRequest >= keepaliveMaxRequest`. -/
structure BinRequestContext where
  chunkedMode : ChunkedMode
  pDone : Nat
  pCount : Nat
  rHdr : RequestHdr
  closing : Bool

/-- A message from a provider. -/
structure BinResponseHdr where
  rc : Nat
  moreChunks : Bool
  xml : XmlText

/-- `rs.segments[6].txt=NULL` when there is more to come. -/
def genFirstChunkResponses (ctx : BinRequestContext) (resp : BinResponseHdr) : RespSegments :=
  if resp.moreChunks ∨ ctx.pDone < ctx.pCount then
    (iMethodResponse ctx.rHdr resp.xml.bytes).set 6 none
  else iMethodResponse ctx.rHdr resp.xml.bytes

def genChunkResponses (resp : BinResponseHdr) : RespSegments :=
  [some resp.xml.bytes, none, none, none, none, none, none]

def genLastChunkResponses (resp : BinResponseHdr) : RespSegments :=
  iMethodGetTrailer resp.xml.bytes

def genFirstChunkErrorResponse (ctx : BinRequestContext) (rc : Nat) : RespSegments :=
  iMethodErrResponse ctx.rHdr (getErrSegment rc)

/-- `writeResponse`. -/
def writeResponse (closing : Bool) (rs : RespSegments) : CStr :=
  lit "HTTP/1.1 200 OK\r\n" ++
  lit "Content-Type: application/xml; charset=\"utf-8\"\r\n" ++
  (lit "Content-Length: " ++ printInt (cInt rs.text.length) ++ lit "\r\n") ++
  lit "Cache-Control: no-cache\r\n" ++
  lit "CIMOperation: MethodResponse\r\n" ++
  (if closing then lit "Connection: close\r\n" else []) ++
  lit "\r\n" ++ rs.text

/-- `writeChunkHeaders`. The empty line is left to the first chunk. -/
def writeChunkHeaders (closing : Bool) : CStr :=
  lit "HTTP/1.1 200 OK\r\n" ++
  lit "Content-Type: application/xml; charset=\"utf-8\"\r\n" ++
  lit "Cache-Control: no-cache\r\n" ++
  lit "CIMOperation: MethodResponse\r\n" ++
  lit "Transfer-encoding: chunked\r\n" ++
  lit "Trailer: CIMError, CIMStatusCode, CIMStatusCodeDescription\r\n" ++
  (if closing then lit "Connection: close\r\n" else [])

/-- The segments of one chunk, behind its size unless that is zero. -/
def writeSegments (rs : RespSegments) : CStr :=
  (if rs.text.length % 2 ^ 32 ≠ 0 then
    lit "\r\n" ++ numeral 16 (rs.text.length % 2 ^ 32) ++ lit "\r\n"
  else []) ++ rs.text

/-- The end of the response, once the last message of the last provider is there. -/
def writeTrailers (ctx : BinRequestContext) (rc : Nat) (moreChunks : Bool) : CStr :=
  if moreChunks = false ∧ ctx.pDone ≥ ctx.pCount then
    lit "\r\n0\r\n" ++ (lit "CIMStatusCode: " ++ printInt (cInt (rc - 1 : Nat)) ++ lit "\r\n") ++
    (if rc ≠ 1 then getErrTrailer (rc - 1) else []) ++ lit "\r\n"
  else []

/-- What a call of `writeChunkResponse` leaves behind: the context, the message's
`moreChunks`, and the bytes written. -/
structure Written where
  ctx : BinRequestContext
  moreChunks : Bool
  bytes : CStr

/-- `writeChunkResponse`. -/
def writeChunkResponse (ctx : BinRequestContext) (rh : BinResponseHdr) : Written :=
  match ctx.chunkedMode with
  | .first =>
    if rh.rc ≠ 1 then
      ⟨ctx, rh.moreChunks,
        writeResponse ctx.closing (genFirstChunkErrorResponse ctx (rh.rc - 1))⟩
    else
      ⟨{ ctx with chunkedMode := .following }, rh.moreChunks,
        writeChunkHeaders ctx.closing ++ writeSegments (genFirstChunkResponses ctx rh) ++
          writeTrailers ctx rh.rc rh.moreChunks⟩
  | .following =>
    if rh.rc ≠ 1 then
      ⟨ctx, false, writeTrailers ctx rh.rc false⟩
    else
      ⟨ctx, rh.moreChunks,
        writeSegments
          (if rh.moreChunks ∨ ctx.pDone < ctx.pCount then genChunkResponses rh
            else genLastChunkResponses rh) ++
          writeTrailers ctx rh.rc rh.moreChunks⟩

/-- The failure response made up when nothing is received: `CMPI_RC_ERR_FAILED + 1`. -/
def failureResponse : BinResponseHdr := ⟨2, false, ⟨[], by decide⟩⟩

/-- The loop of `intInvokeProvider` over the messages of one provider. -/
def intInvokeProvider (ctx : BinRequestContext) : List BinResponseHdr → BinRequestContext × CStr
  | [] => ((writeChunkResponse ctx failureResponse).ctx,
      (writeChunkResponse ctx failureResponse).bytes)
  | rh :: rest =>
    let w := writeChunkResponse ctx rh
    if w.moreChunks then
      ((intInvokeProvider w.ctx rest).1, w.bytes ++ (intInvokeProvider w.ctx rest).2)
    else (w.ctx, w.bytes)

/-- The loop of `invokeProviders`. -/
def invokeProviders (ctx : BinRequestContext) : List (List BinResponseHdr) → CStr
  | [] => []
  | msgs :: rest =>
    let r := intInvokeProvider ctx msgs
    r.2 ++ invokeProviders { r.1 with pDone := r.1.pDone + 1 } rest

/-! ## Requests -/

/-- How a provider's answer ends. -/
inductive Ending where
  | ok (xml : XmlText)
  /-- an error status; `CMPIrc` has no negative codes -/
  | error (code : Nat) (pos : 0 < code) (fits : code < 2 ^ 31)
  /-- the provider died -/
  | silent

/-- The answer of a provider: its partial results and its end. -/
structure ProviderRun where
  chunks : List XmlText
  ending : Ending

/-- The status the answer ends with. -/
def Ending.code : Ending → Nat
  | .ok _ => 0
  | .error code _ _ => code
  | .silent => 1

/-- The provider returned an error. -/
def ProviderRun.fails (run : ProviderRun) : Bool := run.ending.code != 0

/-- It did so before it delivered anything. -/
def ProviderRun.failsAtOnce (run : ProviderRun) : Bool := run.chunks.isEmpty && run.fails

/-- The messages of an ending. -/
def Ending.messages : Ending → List BinResponseHdr
  | .ok xml => [⟨1, false, xml⟩]
  | .error code _ _ => [⟨code + 1, false, ⟨[], by decide⟩⟩]
  | .silent => []

/-- The messages a provider sends. -/
def ProviderRun.messages (run : ProviderRun) : List BinResponseHdr :=
  run.chunks.map (⟨1, true, ·⟩) ++ run.ending.messages

/-- A chunked request: there is a first provider, and there may be others. -/
structure ChunkedRequest where
  rHdr : RequestHdr
  closing : Bool
  head : ProviderRun
  others : List ProviderRun

def ChunkedRequest.runs (r : ChunkedRequest) : List ProviderRun := r.head :: r.others

/-- The bytes written for the request. -/
def ChunkedRequest.bytes (r : ChunkedRequest) : CStr :=
  invokeProviders ⟨.first, 1, r.runs.length, r.rHdr, r.closing⟩
    (r.runs.map ProviderRun.messages)

/-- What the client takes for an error: an error element in a whole response, a
status other than zero in the trailers of a chunked one. -/
def reportsError (resp : Response) : Bool :=
  match resp.body with
  | .sized data => (strstr data (lit "<ERROR CODE=")).isSome
  | .chunked _ trailers =>
    match fieldValue trailers (lit "CIMStatusCode") with
    | some v => v != lit "0"
    | none => false

/-- The response is as it should be. -/
def ChunkedRequest.answered (r : ChunkedRequest) : Prop :=
  ∃ resp, isOneResponse r.bytes resp ∧
    (reportsError resp = true ↔ ∃ run ∈ r.runs, run.fails = true)

/-! ## The shape of the bytes -/

/-- A chunk as it is written: the line end in front of it closes what came before. -/
def openChunk (c : CStr) : CStr := crlf ++ numeral 16 c.length ++ crlf ++ c

/-- The written chunks and the next line end are the printed chunks behind one. -/
theorem flatMap_openChunk (cs : List CStr) :
    cs.flatMap openChunk ++ crlf = crlf ++ cs.flatMap printChunk := by
  induction cs with
  | nil => rfl
  | cons c cs ih =>
    rw [List.flatMap_cons, List.append_assoc, ih, List.flatMap_cons]
    simp [openChunk, printChunk]

theorem text_nil_iff_length (rs : RespSegments) : rs.text = [] ↔ rs.text.length = 0 :=
  List.length_eq_zero_iff.symm

/-- The segments of a response are one chunk, or nothing. -/
theorem writeSegments_chunks {rs : RespSegments} (h : rs.text.length < 2 ^ 32) :
    ∃ cs : List CStr, (∀ c ∈ cs, c ≠ []) ∧ writeSegments rs = cs.flatMap openChunk := by
  have hmod : rs.text.length % 2 ^ 32 = rs.text.length := Nat.mod_eq_of_lt h
  by_cases hnil : rs.text = []
  · exact ⟨[], by simp, by simp [writeSegments, hnil]⟩
  · refine ⟨[rs.text], by simpa using hnil, ?_⟩
    have hlen : rs.text.length ≠ 0 := fun e => hnil ((text_nil_iff_length rs).mpr e)
    have hcrlf : lit "\r\n" = crlf := rfl
    simp only [writeSegments, hmod, if_pos hlen, hcrlf, List.flatMap_cons, List.flatMap_nil,
      List.append_nil, openChunk, List.append_assoc]

private theorem text_cons (o : Option CStr) (rs : RespSegments) :
    RespSegments.text (o :: rs) = o.getD [] ++ RespSegments.text rs := List.flatMap_cons

private theorem text_nil : RespSegments.text [] = [] := rfl

private theorem texts_short :
    iResponseIntro1.length ≤ 200 ∧ iResponseIntro2.length ≤ 200 ∧ iResponseIntro3.length ≤ 200 ∧
      iResponseTrailer1.length ≤ 200 ∧ iResponseIntro3Error.length ≤ 200 ∧
      iResponseTrailer1Error.length ≤ 200 := by decide

theorem genFirst_fits (ctx : BinRequestContext) (rh : BinResponseHdr) :
    (genFirstChunkResponses ctx rh).text.length < 2 ^ 32 := by
  have hx := rh.xml.fits
  have hh := ctx.rHdr.fits
  obtain ⟨h1, h2, h3, h4, -, -⟩ := texts_short
  simp only [genFirstChunkResponses, iMethodResponse]
  split <;>
    simp only [List.set_cons_succ, List.set_cons_zero, text_cons, text_nil, Option.getD_some,
      Option.getD_none, List.length_append, List.length_nil] <;> omega

theorem genFollowing_fits (ctx : BinRequestContext) (rh : BinResponseHdr) :
    (if rh.moreChunks ∨ ctx.pDone < ctx.pCount then genChunkResponses rh
      else genLastChunkResponses rh).text.length < 2 ^ 32 := by
  have hx := rh.xml.fits
  obtain ⟨-, -, -, h4, -, -⟩ := texts_short
  split <;>
    simp only [genChunkResponses, genLastChunkResponses, iMethodGetTrailer, text_cons, text_nil,
      Option.getD_some, Option.getD_none, List.length_append, List.length_nil] <;> omega

/-- The end that follows a provider's last message. -/
def closingText (ctx : BinRequestContext) (code : Nat) : CStr :=
  writeTrailers ctx (code + 1) false

/-- One message in the second mode: chunks, and the end if it is due. -/
theorem following_step (ctx : BinRequestContext) (h : ctx.chunkedMode = .following)
    (rh : BinResponseHdr) (hrc : rh.rc = 1) :
    ∃ cs : List CStr, (∀ c ∈ cs, c ≠ []) ∧
      writeChunkResponse ctx rh
        = ⟨ctx, rh.moreChunks, cs.flatMap openChunk ++ writeTrailers ctx 1 rh.moreChunks⟩ := by
  obtain ⟨cs, hne, hcs⟩ := writeSegments_chunks (genFollowing_fits ctx rh)
  refine ⟨cs, hne, ?_⟩
  simp only [writeChunkResponse, h, hrc, ne_eq, not_true_eq_false, if_false, ← hcs]

/-- The last message in the second mode, whichever it is. -/
theorem following_ending (ctx : BinRequestContext) (h : ctx.chunkedMode = .following)
    (e : Ending) :
    ∃ cs : List CStr, (∀ c ∈ cs, c ≠ []) ∧
      intInvokeProvider ctx e.messages = (ctx, cs.flatMap openChunk ++ closingText ctx e.code) := by
  have herr : ∀ code, 0 < code → ∀ xml, writeChunkResponse ctx ⟨code + 1, false, xml⟩
      = ⟨ctx, false, closingText ctx code⟩ := by
    intro code hpos xml
    have hrc : code + 1 ≠ 1 := by omega
    simp only [writeChunkResponse, h, if_pos hrc, closingText]
  cases e with
  | ok xml =>
    obtain ⟨cs, hne, hcs⟩ := following_step ctx h ⟨1, false, xml⟩ rfl
    refine ⟨cs, hne, ?_⟩
    simp only [Ending.messages, intInvokeProvider, hcs, Ending.code, closingText,
      Bool.false_eq_true, if_false]
  | error code hpos hfit =>
    refine ⟨[], by simp, ?_⟩
    simp only [Ending.messages, intInvokeProvider, herr code hpos, Ending.code,
      Bool.false_eq_true, if_false, List.flatMap_nil, List.nil_append]
  | silent =>
    refine ⟨[], by simp, ?_⟩
    simp only [Ending.messages, intInvokeProvider, failureResponse, herr 1 (by decide),
      Ending.code, List.flatMap_nil, List.nil_append]

/-- A provider in the second mode. -/
theorem following_run (ctx : BinRequestContext) (h : ctx.chunkedMode = .following)
    (chunks : List XmlText) (e : Ending) :
    ∃ cs : List CStr, (∀ c ∈ cs, c ≠ []) ∧
      intInvokeProvider ctx (ProviderRun.messages ⟨chunks, e⟩)
        = (ctx, cs.flatMap openChunk ++ closingText ctx e.code) := by
  induction chunks with
  | nil => exact following_ending ctx h e
  | cons xml chunks ih =>
    obtain ⟨cs, hne, hcs⟩ := ih
    obtain ⟨ds, hds, hstep⟩ := following_step ctx h ⟨1, true, xml⟩ rfl
    have hmore : writeTrailers ctx 1 true = [] := by simp [writeTrailers]
    refine ⟨ds ++ cs, List.forall_mem_append.mpr ⟨hds, hne⟩, ?_⟩
    simp only [ProviderRun.messages] at hcs ⊢
    simp only [List.map_cons, List.cons_append, intInvokeProvider, hstep, if_true, hcs, hmore,
      List.append_nil, List.flatMap_append, List.append_assoc]

/-- The first provider, unless it fails at once: the header, then as above. -/
theorem first_run (ctx : BinRequestContext) (h : ctx.chunkedMode = .first)
    (run : ProviderRun) (hrun : run.failsAtOnce = false) :
    ∃ cs : List CStr, (∀ c ∈ cs, c ≠ []) ∧
      intInvokeProvider ctx run.messages
        = ({ ctx with chunkedMode := .following },
          writeChunkHeaders ctx.closing ++ cs.flatMap openChunk ++ closingText ctx run.ending.code) := by
  -- the message that opens the response, and what it leaves for the rest
  have hopen : ∀ (more : Bool) (xml : XmlText), ∃ ds : List CStr, (∀ c ∈ ds, c ≠ []) ∧
      writeChunkResponse ctx ⟨1, more, xml⟩
        = ⟨{ ctx with chunkedMode := .following }, more,
          writeChunkHeaders ctx.closing ++ ds.flatMap openChunk ++ writeTrailers ctx 1 more⟩ := by
    intro more xml
    obtain ⟨ds, hne, hds⟩ := writeSegments_chunks (genFirst_fits ctx ⟨1, more, xml⟩)
    refine ⟨ds, hne, ?_⟩
    simp only [writeChunkResponse, h, ne_eq, not_true_eq_false, if_false, hds]
  obtain ⟨chunks, e⟩ := run
  cases chunks with
  | nil =>
    cases e with
    | ok xml =>
      obtain ⟨ds, hne, hds⟩ := hopen false xml
      refine ⟨ds, hne, ?_⟩
      simp only [ProviderRun.messages, List.map_nil, List.nil_append, Ending.messages,
        intInvokeProvider, hds, Bool.false_eq_true, if_false, Ending.code, closingText]
    | error code hpos hfit =>
      have hne : code ≠ 0 := by omega
      simp [ProviderRun.failsAtOnce, ProviderRun.fails, Ending.code, hne] at hrun
    | silent => simp [ProviderRun.failsAtOnce, ProviderRun.fails, Ending.code] at hrun
  | cons xml chunks =>
    obtain ⟨ds, hne, hds⟩ := hopen true xml
    obtain ⟨cs, hcsne, hcs⟩ := following_run { ctx with chunkedMode := .following } rfl chunks e
    have hmore : writeTrailers ctx 1 true = [] := by simp [writeTrailers]
    refine ⟨ds ++ cs, List.forall_mem_append.mpr ⟨hne, hcsne⟩, ?_⟩
    have hclose : closingText { ctx with chunkedMode := .following } e.code
        = closingText ctx e.code := rfl
    rw [hclose] at hcs
    simp only [ProviderRun.messages] at hcs ⊢
    simp only [List.map_cons, List.cons_append, intInvokeProvider, hds, if_true, hcs, hmore,
      List.append_nil, List.flatMap_append, List.append_assoc]

/-- The first provider when it fails at once: a whole response, and nothing changes. -/
theorem first_failure (ctx : BinRequestContext) (h : ctx.chunkedMode = .first)
    (run : ProviderRun) (hrun : run.failsAtOnce = true) :
    intInvokeProvider ctx run.messages
      = (ctx, writeResponse ctx.closing (genFirstChunkErrorResponse ctx run.ending.code)) := by
  obtain ⟨chunks, e⟩ := run
  simp only [ProviderRun.failsAtOnce, ProviderRun.fails, Bool.and_eq_true, List.isEmpty_iff,
    bne_iff_ne] at hrun
  obtain ⟨rfl, hcode⟩ := hrun
  cases e with
  | ok xml => exact absurd rfl hcode
  | error code hpos hfit =>
    have hrc : code + 1 ≠ 1 := by omega
    simp only [ProviderRun.messages, List.map_nil, List.nil_append, Ending.messages,
      intInvokeProvider, writeChunkResponse, h, if_pos hrc, Bool.false_eq_true, if_false,
      Nat.add_sub_cancel, Ending.code]
  | silent =>
    simp only [ProviderRun.messages, List.map_nil, List.nil_append, Ending.messages,
      intInvokeProvider, failureResponse, writeChunkResponse, h, Ending.code]
    rfl

/-- The end of the whole response. -/
def endText (code : Nat) : CStr :=
  lit "\r\n0\r\n" ++ (lit "CIMStatusCode: " ++ printInt (cInt code) ++ lit "\r\n") ++
    (if code ≠ 0 then getErrTrailer code else []) ++ lit "\r\n"

theorem closingText_last {ctx : BinRequestContext} (h : ctx.pDone ≥ ctx.pCount) (code : Nat) :
    closingText ctx code = endText code := by
  have hne : code + 1 ≠ 1 ↔ code ≠ 0 := by omega
  simp only [closingText, writeTrailers, h, and_self, if_true, Nat.add_sub_cancel, hne, endText]

theorem closingText_early {ctx : BinRequestContext} (h : ctx.pDone < ctx.pCount) (code : Nat) :
    closingText ctx code = [] := by
  have hnot : ¬ ctx.pDone ≥ ctx.pCount := by omega
  simp [closingText, writeTrailers, hnot]

/-- The providers behind the first: chunks, and the status of the last of them. -/
theorem following_providers (run : ProviderRun) (rest : List ProviderRun) :
    ∀ ctx : BinRequestContext, ctx.chunkedMode = .following →
      ctx.pDone + rest.length = ctx.pCount →
      ∃ cs : List CStr, (∀ c ∈ cs, c ≠ []) ∧
        invokeProviders ctx ((run :: rest).map ProviderRun.messages)
          = cs.flatMap openChunk ++ endText ((run :: rest).getLast (by simp)).ending.code := by
  induction rest generalizing run with
  | nil =>
    intro ctx h hcount
    obtain ⟨cs, hne, hcs⟩ := following_run ctx h run.chunks run.ending
    have hdone : ctx.pDone ≥ ctx.pCount := by simp at hcount; omega
    rw [closingText_last hdone] at hcs
    exact ⟨cs, hne, by simp [invokeProviders, hcs]⟩
  | cons next rest ih =>
    intro ctx h hcount
    obtain ⟨cs, hne, hcs⟩ := following_run ctx h run.chunks run.ending
    have hearly : ctx.pDone < ctx.pCount := by simp at hcount; omega
    rw [closingText_early hearly, List.append_nil] at hcs
    obtain ⟨ds, hds, hrest⟩ := ih next { ctx with pDone := ctx.pDone + 1 } h
      (by simp at hcount ⊢; omega)
    refine ⟨cs ++ ds, List.forall_mem_append.mpr ⟨hne, hds⟩, ?_⟩
    rw [List.map_cons, invokeProviders]
    simp only [hcs, hrest, List.flatMap_append, List.append_assoc, List.getLast_cons_cons]

/-! ## What the client reads -/

/-- The status line of either kind of response. -/
def statusOK : CStr := lit "HTTP/1.1 200 OK"

def connectionFields (closing : Bool) : List Field :=
  if closing then [(lit "Connection", lit "close")] else []

/-- The header fields of a whole response. -/
def sizedFields (closing : Bool) (length : CStr) : List Field :=
  [(lit "Content-Type", lit "application/xml; charset=\"utf-8\""), (lit "Content-Length", length),
    (lit "Cache-Control", lit "no-cache"), (lit "CIMOperation", lit "MethodResponse")]
    ++ connectionFields closing

/-- The header fields of a chunked response. -/
def chunkedFields (closing : Bool) : List Field :=
  [(lit "Content-Type", lit "application/xml; charset=\"utf-8\""),
    (lit "Cache-Control", lit "no-cache"), (lit "CIMOperation", lit "MethodResponse"),
    (lit "Transfer-encoding", lit "chunked"),
    (lit "Trailer", lit "CIMError, CIMStatusCode, CIMStatusCodeDescription")]
    ++ connectionFields closing

/-- The description that goes with an error status. -/
def descriptionOf (code : Nat) : CStr :=
  if 0 < code ∧ code < 18 then cimMsg.getD code [] else lit "*Unknown*"

/-- The trailers of a chunked response. -/
def trailerFields (code : Nat) : List Field :=
  (lit "CIMStatusCode", numeral 10 code) ::
    (if code ≠ 0 then [(lit "CIMStatusCodeDescription", descriptionOf code)] else [])

private theorem contentType_eq : lit "Content-Type: application/xml; charset=\"utf-8\"\r\n"
    = printField (lit "Content-Type", lit "application/xml; charset=\"utf-8\"") := rfl

private theorem cacheControl_eq : lit "Cache-Control: no-cache\r\n"
    = printField (lit "Cache-Control", lit "no-cache") := rfl

private theorem cimOperation_eq : lit "CIMOperation: MethodResponse\r\n"
    = printField (lit "CIMOperation", lit "MethodResponse") := rfl

private theorem connection_eq (closing : Bool) :
    (if closing then lit "Connection: close\r\n" else [])
      = (connectionFields closing).flatMap printField := by
  cases closing <;> rfl

theorem writeResponse_eq (closing : Bool) (rs : RespSegments) (h : rs.text.length < 2 ^ 31) :
    writeResponse closing rs
      = printHead statusOK (sizedFields closing (numeral 10 rs.text.length)) ++ rs.text := by
  have hlen : printInt (cInt rs.text.length) = numeral 10 rs.text.length := by
    rw [cInt_of_lt h, printInt_natCast]
  have hcl : lit "Content-Length: " ++ numeral 10 rs.text.length ++ lit "\r\n"
      = printField (lit "Content-Length", numeral 10 rs.text.length) := by
    have hname : lit "Content-Length: " = lit "Content-Length" ++ [58, 32] := rfl
    have hcrlf : lit "\r\n" = crlf := rfl
    simp [printField, hname, hcrlf]
  have hstatus : lit "HTTP/1.1 200 OK\r\n" = statusOK ++ crlf := rfl
  have hend : lit "\r\n" = crlf := rfl
  rw [writeResponse, hlen, hcl, hstatus, hend, contentType_eq, cacheControl_eq, cimOperation_eq,
    connection_eq]
  simp only [printHead, sizedFields, List.flatMap_append, List.flatMap_cons, List.flatMap_nil,
    List.append_assoc, List.nil_append]

theorem writeChunkHeaders_eq (closing : Bool) :
    writeChunkHeaders closing ++ crlf = printHead statusOK (chunkedFields closing) := by
  have hstatus : lit "HTTP/1.1 200 OK\r\n" = statusOK ++ crlf := rfl
  have htenc : lit "Transfer-encoding: chunked\r\n"
      = printField (lit "Transfer-encoding", lit "chunked") := rfl
  have htrls : lit "Trailer: CIMError, CIMStatusCode, CIMStatusCodeDescription\r\n"
      = printField
        (lit "Trailer", lit "CIMError, CIMStatusCode, CIMStatusCodeDescription") := rfl
  rw [writeChunkHeaders, hstatus, contentType_eq, cacheControl_eq, cimOperation_eq, htenc, htrls,
    connection_eq]
  simp only [printHead, chunkedFields, List.flatMap_append, List.flatMap_cons, List.flatMap_nil,
    List.append_assoc, List.nil_append]

theorem getErrTrailer_eq (code : Nat) :
    getErrTrailer code = printField (lit "CIMStatusCodeDescription", descriptionOf code) := by
  have hname : lit "CIMStatusCodeDescription: " = lit "CIMStatusCodeDescription" ++ [58, 32] := rfl
  have hcrlf : lit "\r\n" = crlf := rfl
  simp only [getErrTrailer, descriptionOf]
  split
  · simp [printField, hname, hcrlf]
  · rfl

theorem endText_eq {code : Nat} (h : code < 2 ^ 31) :
    endText code = crlf ++ lit "0" ++ crlf ++ (trailerFields code).flatMap printField ++ crlf := by
  have hname : lit "CIMStatusCode: " = lit "CIMStatusCode" ++ [58, 32] := rfl
  have hcrlf : lit "\r\n" = crlf := rfl
  have hzero : lit "\r\n0\r\n" = crlf ++ lit "0" ++ crlf := rfl
  rw [endText, cInt_of_lt h, printInt_natCast, hname, hcrlf, hzero]
  by_cases hcode : code = 0
  · simp [trailerFields, hcode, printField]
  · simp [trailerFields, hcode, printField, getErrTrailer_eq]

private theorem fieldOk_contentType :
    FieldOk (lit "Content-Type", lit "application/xml; charset=\"utf-8\"") := by decide

private theorem fieldOk_cacheControl : FieldOk (lit "Cache-Control", lit "no-cache") := by decide

private theorem fieldOk_cimOperation :
    FieldOk (lit "CIMOperation", lit "MethodResponse") := by decide

private theorem fieldOk_connection (closing : Bool) : ∀ f ∈ connectionFields closing, FieldOk f := by
  cases closing <;> decide

/-- A printed number is fit for the value of a field. -/
theorem fieldOk_numeral {name : CStr} (n : Nat) (h : FieldOk (name, [])) :
    FieldOk (name, numeral 10 n) := by
  refine ⟨h.name_ne, h.no_colon, ⟨h.no_cr.1, cr_not_mem_numeral 10 (by decide) (by decide) n⟩, ?_⟩
  intro hhead
  have hmem : (32 : UInt8) ∈ numeral 10 n := List.mem_of_mem_head? hhead
  exact mem_numeral (by decide : 2 ≤ 10) (by decide) n hmem rfl

theorem sizedFields_ok (closing : Bool) (n : Nat) :
    ∀ f ∈ sizedFields closing (numeral 10 n), FieldOk f := by
  intro f hf
  simp only [sizedFields, List.mem_append, List.mem_cons, List.not_mem_nil, or_false] at hf
  rcases hf with (rfl | rfl | rfl | rfl) | hf
  · exact fieldOk_contentType
  · exact fieldOk_numeral n (by decide)
  · exact fieldOk_cacheControl
  · exact fieldOk_cimOperation
  · exact fieldOk_connection closing f hf

theorem chunkedFields_ok (closing : Bool) : ∀ f ∈ chunkedFields closing, FieldOk f := by
  intro f hf
  simp only [chunkedFields, List.mem_append, List.mem_cons, List.not_mem_nil, or_false] at hf
  rcases hf with (rfl | rfl | rfl | rfl | rfl) | hf
  · exact fieldOk_contentType
  · exact fieldOk_cacheControl
  · exact fieldOk_cimOperation
  · decide
  · decide
  · exact fieldOk_connection closing f hf

/-- What the messages have in common: they are short texts of one line. -/
theorem cimMsg_texts : ∀ m ∈ lit "*Unknown*" :: [] :: cimMsg,
    13 ∉ m ∧ m.head? ≠ some 32 ∧ m.length ≤ 100 := by decide

/-- The message of a code that has none is empty. -/
theorem cimMsg_getD_mem (code : Nat) : cimMsg.getD code [] ∈ [] :: cimMsg := by
  rw [List.getD_eq_getElem?_getD]
  cases hget : cimMsg[code]? with
  | none => exact List.mem_cons_self
  | some m => exact List.mem_cons_of_mem _ (List.mem_of_getElem? hget)

/-- Every description is fit for a trailer. -/
theorem description_ok (code : Nat) :
    FieldOk (lit "CIMStatusCodeDescription", descriptionOf code) := by
  have hmem : descriptionOf code ∈ lit "*Unknown*" :: [] :: cimMsg := by
    simp only [descriptionOf]
    split
    · exact List.mem_cons_of_mem _ (cimMsg_getD_mem code)
    · exact List.mem_cons_self ..
  obtain ⟨hcr, hblank, -⟩ := cimMsg_texts _ hmem
  have hname : FieldOk (lit "CIMStatusCodeDescription", []) := by decide
  exact ⟨hname.name_ne, hname.no_colon, ⟨hname.no_cr.1, hcr⟩, hblank⟩

theorem trailerFields_ok (code : Nat) : ∀ f ∈ trailerFields code, FieldOk f := by
  intro f hf
  rcases List.mem_cons.mp hf with rfl | hf
  · exact fieldOk_numeral code (by decide)
  · split at hf
    · rw [List.mem_singleton] at hf
      subst hf
      exact description_ok code
    · cases hf

theorem getErrSegment_short {code : Nat} (h : code < 2 ^ 31) :
    (getErrSegment code).length ≤ 300 := by
  have hmsg : (cimMsg.getD code []).length ≤ 100 :=
    (cimMsg_texts _ (List.mem_cons_of_mem _ (cimMsg_getD_mem code))).2.2
  have hnum : (printInt (cInt code)).length ≤ 32 := by
    rw [cInt_of_lt h, printInt_natCast]
    exact length_numeral_le h
  have hlits : (lit "<ERROR CODE=\"").length ≤ 20 ∧ (lit "\" DESCRIPTION=\"").length ≤ 20 ∧
      (lit "\"/>\n").length ≤ 20 := by decide
  simp only [getErrSegment]
  split <;> simp only [List.length_append] <;> omega

/-- The error element says what it is. -/
theorem getErrSegment_eq (code : Nat) : ∃ tail, getErrSegment code = lit "<ERROR CODE=" ++ tail := by
  have hintro : lit "<ERROR CODE=\"" = lit "<ERROR CODE=" ++ [34] := rfl
  simp only [getErrSegment, hintro]
  split <;> simp only [List.append_assoc] <;> exact ⟨_, rfl⟩

/-- The whole error response of a provider that fails at once. -/
theorem parse_errorResponse (ctx : BinRequestContext) {code : Nat} (h : code < 2 ^ 31)
    (rest : CStr) :
    ∃ resp, reportsError resp = true ∧
      parseResponse (writeResponse ctx.closing (genFirstChunkErrorResponse ctx code) ++ rest)
        = some (resp, rest) := by
  have hfits : (genFirstChunkErrorResponse ctx code).text.length < 2 ^ 31 := by
    have hh := ctx.rHdr.fits
    have herr := getErrSegment_short h
    obtain ⟨h1, h2, -, -, h5, h6⟩ := texts_short
    simp only [genFirstChunkErrorResponse, iMethodErrResponse, text_cons, text_nil,
      Option.getD_some, List.length_append, List.length_nil]
    omega
  have hstatus : isStatusLine statusOK = true := by decide
  have hcr : 13 ∉ statusOK := by decide
  have hte : fieldValue (sizedFields ctx.closing
      (numeral 10 (genFirstChunkErrorResponse ctx code).text.length)) (lit "Transfer-Encoding")
        = none := by cases ctx.closing <;> rfl
  have hcl : fieldValue (sizedFields ctx.closing
      (numeral 10 (genFirstChunkErrorResponse ctx code).text.length)) (lit "Content-Length")
        = some (numeral 10 (genFirstChunkErrorResponse ctx code).text.length) := by
    cases ctx.closing <;> rfl
  have hparse := parseResponse_sized hstatus hcr (sizedFields_ok ctx.closing _) hte hcl rest
  rw [writeResponse_eq _ _ hfits]
  refine ⟨_, ?_, hparse⟩
  obtain ⟨tail, htail⟩ := getErrSegment_eq code
  simp only [reportsError, genFirstChunkErrorResponse, iMethodErrResponse, text_cons, text_nil,
    Option.getD_some, htail]
  rw [← List.append_assoc, ← List.append_assoc, ← List.append_assoc, ← List.append_assoc,
    List.append_assoc (lit "<ERROR CODE=")]
  exact strstr_isSome ..

/-- A response in chunks. -/
theorem parse_chunkedResponse (closing : Bool) {cs : List CStr} (hcs : ∀ c ∈ cs, c ≠ [])
    {code : Nat} (h : code < 2 ^ 31) :
    ∃ resp, (reportsError resp = true ↔ code ≠ 0) ∧
      isOneResponse (writeChunkHeaders closing ++ cs.flatMap openChunk ++ endText code) resp := by
  have hstatus : isStatusLine statusOK = true := by decide
  have hcr : 13 ∉ statusOK := by decide
  have hte : fieldValue (chunkedFields closing) (lit "Transfer-Encoding")
      = some (lit "chunked") := by cases closing <;> decide
  have hparse := parseResponse_chunked hstatus hcr (chunkedFields_ok closing) hte hcs
    (trailerFields_ok code) []
  -- an open chunk ends with its data; the line end comes with what follows it
  have hbytes : writeChunkHeaders closing ++ cs.flatMap openChunk ++ endText code
      = printHead statusOK (chunkedFields closing) ++ cs.flatMap printChunk ++ lit "0" ++ crlf
        ++ (trailerFields code).flatMap printField ++ crlf ++ [] := by
    calc writeChunkHeaders closing ++ cs.flatMap openChunk ++ endText code
        = writeChunkHeaders closing ++ (cs.flatMap openChunk ++ crlf) ++ (lit "0" ++ crlf
            ++ (trailerFields code).flatMap printField ++ crlf) := by
          rw [endText_eq h]; simp only [List.append_assoc]
      _ = (writeChunkHeaders closing ++ crlf) ++ cs.flatMap printChunk ++ (lit "0" ++ crlf
            ++ (trailerFields code).flatMap printField ++ crlf) := by
          rw [flatMap_openChunk]; simp only [List.append_assoc]
      _ = _ := by
          rw [writeChunkHeaders_eq]; simp only [List.append_assoc, List.append_nil]
  refine ⟨_, ?_, (congrArg parseResponse hbytes).trans hparse⟩
  have hvalue : fieldValue (trailerFields code) (lit "CIMStatusCode") = some (numeral 10 code) := by
    simp only [fieldValue, trailerFields]
    rw [List.find?_cons_of_pos (by simp)]
    rfl
  simp only [reportsError, hvalue, bne_iff_ne]
  -- two numbers that print the same are the same
  have hzero : lit "0" = numeral 10 0 := rfl
  rw [hzero]
  constructor
  · intro hne hcode
    exact hne (by rw [hcode])
  · intro hne heq
    have h1 := parseNumber_numeral 10 (by decide) (by decide) code
    rw [heq, parseNumber_numeral 10 (by decide) (by decide)] at h1
    exact hne (Option.some.inj h1).symm

/-! ## When the response is as it should be -/

/-- The last provider to be called. -/
def ChunkedRequest.lastRun (r : ChunkedRequest) : ProviderRun := r.runs.getLast (by simp [runs])

/-- One provider; or the first does not fail at once, and if any provider fails
the last one does. -/
def ChunkedRequest.sound (r : ChunkedRequest) : Bool :=
  r.others.isEmpty ||
    (!r.head.failsAtOnce && (r.lastRun.fails || r.runs.all fun run => !run.fails))

theorem Ending.code_lt (e : Ending) : e.code < 2 ^ 31 := by
  cases e with
  | ok xml => exact Nat.two_pow_pos 31
  | error code hpos hfit => exact hfit
  | silent => decide

/-- Whatever a provider answers, the first one to be called leaves bytes. -/
theorem first_bytes_ne_nil (ctx : BinRequestContext) (h : ctx.chunkedMode = .first)
    (run : ProviderRun) (rest : List (List BinResponseHdr)) :
    invokeProviders ctx (run.messages :: rest) ≠ [] := by
  have hstatus : lit "HTTP/1.1 200 OK\r\n" ≠ [] := by decide
  rw [invokeProviders]
  cases hrun : run.failsAtOnce with
  | true =>
    rw [first_failure ctx h run hrun]
    simp [writeResponse, hstatus]
  | false =>
    obtain ⟨cs, -, hcs⟩ := first_run ctx h run hrun
    rw [hcs]
    simp [writeChunkHeaders, hstatus]

/-- The first provider delivers something: one response in chunks, with the
status of the last provider. -/
theorem bytes_chunked (r : ChunkedRequest) (h : r.head.failsAtOnce = false) :
    ∃ cs : List CStr, (∀ c ∈ cs, c ≠ []) ∧
      r.bytes = writeChunkHeaders r.closing ++ cs.flatMap openChunk
        ++ endText r.lastRun.ending.code := by
  obtain ⟨rHdr, closing, head, others⟩ := r
  obtain ⟨cs, hne, hcs⟩ := first_run
    ⟨.first, 1, (head :: others).length, rHdr, closing⟩ rfl head h
  simp only [ChunkedRequest.bytes, ChunkedRequest.runs, ChunkedRequest.lastRun, List.map_cons,
    invokeProviders]
  cases others with
  | nil =>
    rw [closingText_last (by simp)] at hcs
    refine ⟨cs, hne, ?_⟩
    simp only [List.map_nil, hcs, invokeProviders, List.append_nil, List.getLast_singleton]
  | cons next rest =>
    rw [closingText_early (by simp), List.append_nil] at hcs
    obtain ⟨ds, hds, hrest⟩ := following_providers next rest
      ⟨.following, 2, (head :: next :: rest).length, rHdr, closing⟩ rfl (by simp; omega)
    refine ⟨cs ++ ds, List.forall_mem_append.mpr ⟨hne, hds⟩, ?_⟩
    simp only [hcs, List.flatMap_append, List.append_assoc, List.getLast_cons_cons,
      List.append_cancel_left_eq]
    exact hrest

/-- If the first provider delivers something, it is down to the last one. -/
theorem sound_iff {r : ChunkedRequest} (h : r.head.failsAtOnce = false) :
    r.sound = true ↔ (r.lastRun.fails = true ↔ ∃ run ∈ r.runs, run.fails = true) := by
  have hlast : r.lastRun ∈ r.runs := List.getLast_mem _
  have hall : (r.runs.all fun run => !run.fails) = true ↔ ¬ ∃ run ∈ r.runs, run.fails = true := by
    simp only [List.all_eq_true, Bool.not_eq_true', not_exists, not_and, Bool.not_eq_true]
  simp only [ChunkedRequest.sound, h, Bool.not_false, Bool.true_and, Bool.or_eq_true, hall]
  constructor
  · rintro (hone | hfails | hnone)
    · have hnil : r.others = [] := by simpa using hone
      have hrun : r.lastRun = r.head := by simp [ChunkedRequest.lastRun, ChunkedRequest.runs, hnil]
      simp [ChunkedRequest.runs, hnil, hrun]
    · exact ⟨fun hf => ⟨_, hlast, hf⟩, fun _ => hfails⟩
    · exact ⟨fun hf => ⟨_, hlast, hf⟩, fun hex => absurd hex hnone⟩
  · intro hiff
    by_cases hex : ∃ run ∈ r.runs, run.fails = true
    · exact .inr (.inl (hiff.mpr hex))
    · exact .inr (.inr hex)

/-- The first provider fails at once: the error response is all there may be. -/
theorem answered_of_failsAtOnce {r : ChunkedRequest} (hfirst : r.head.failsAtOnce = true) :
    r.answered ↔ r.others = [] := by
  have hfails : r.head.fails = true := by
    simp only [ProviderRun.failsAtOnce, Bool.and_eq_true] at hfirst
    exact hfirst.2
  have hbytes : r.bytes = writeResponse r.closing
      (genFirstChunkErrorResponse ⟨.first, 1, r.runs.length, r.rHdr, r.closing⟩
        r.head.ending.code)
      ++ invokeProviders ⟨.first, 2, r.runs.length, r.rHdr, r.closing⟩
        (r.others.map ProviderRun.messages) := by
    simp only [ChunkedRequest.bytes, ChunkedRequest.runs, List.map_cons, invokeProviders]
    rw [first_failure _ rfl r.head hfirst]
  obtain ⟨resp, herr, hparse⟩ := parse_errorResponse
    ⟨.first, 1, r.runs.length, r.rHdr, r.closing⟩ r.head.ending.code_lt
    (invokeProviders ⟨.first, 2, r.runs.length, r.rHdr, r.closing⟩
      (r.others.map ProviderRun.messages))
  rw [← hbytes] at hparse
  cases hothers : r.others with
  | nil =>
    rw [hothers] at hparse
    simp only [iff_true]
    exact ⟨resp, hparse, fun _ => ⟨r.head, List.mem_cons_self .., hfails⟩, fun _ => herr⟩
  | cons next rest =>
    -- there are bytes behind the response
    have hmore := first_bytes_ne_nil ⟨.first, 2, r.runs.length, r.rHdr, r.closing⟩ rfl next
      (rest.map ProviderRun.messages)
    rw [hothers, List.map_cons] at hparse
    simp only [reduceCtorEq, iff_false]
    rintro ⟨resp', hone, -⟩
    rw [isOneResponse, hparse] at hone
    simp only [Option.some.injEq, Prod.mk.injEq] at hone
    exact hmore hone.2

/-- The first provider delivers something: the response is one, and its status is
the last provider's. -/
theorem answered_of_delivers {r : ChunkedRequest} (hfirst : r.head.failsAtOnce = false) :
    r.answered ↔ (r.lastRun.fails = true ↔ ∃ run ∈ r.runs, run.fails = true) := by
  obtain ⟨cs, hne, hbytes⟩ := bytes_chunked r hfirst
  obtain ⟨resp, herr, hone⟩ := parse_chunkedResponse r.closing hne r.lastRun.ending.code_lt
  rw [← hbytes] at hone
  have hreport : reportsError resp = true ↔ r.lastRun.fails = true := by
    rw [herr, ProviderRun.fails, bne_iff_ne]
  rw [← hreport]
  constructor
  · rintro ⟨resp', hone', hrep⟩
    rw [isOneResponse, hone] at hone'
    simp only [Option.some.injEq, Prod.mk.injEq, and_true] at hone'
    subst hone'
    exact hrep
  · intro hrep
    exact ⟨resp, hone, hrep⟩

/-- **When a chunked request is answered as it should be.** The bytes are exactly
one well-formed response, which reports an error if and only if some provider
returned one, exactly for the sound requests. -/
theorem chunkedResponse_iff (r : ChunkedRequest) : r.answered ↔ r.sound = true := by
  cases hfirst : r.head.failsAtOnce with
  | true =>
    rw [answered_of_failsAtOnce hfirst]
    simp [ChunkedRequest.sound, hfirst]
  | false => rw [answered_of_delivers hfirst, sound_iff hfirst]

/-- Two providers of which the first fails at once: its error response is followed
by the response of the second. -/
theorem chunkedResponse_twice : ¬ ∀ r : ChunkedRequest, r.answered := by
  intro h
  have hbad := (answered_of_failsAtOnce (r := ⟨⟨some (lit "1"), some (lit "EnumerateInstances"),
    by decide⟩, false, ⟨[], .error 1 (by decide) (by decide)⟩,
    [⟨[], .ok ⟨lit "<X/>", by decide⟩⟩]⟩) rfl).mp (h _)
  cases hbad

end Sfcb.HttpAdapter
