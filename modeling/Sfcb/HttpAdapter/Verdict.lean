import Sfcb.HttpAdapter.Authentication
import Sfcb.HttpAdapter.ChunkedResponse

/-!
# One verdict for a request

A client is to read one status line for each request, be it an error or the response. After
some errors `doHttpRequest` goes on reading, with `discardInput` set: a method other than POST,
headers that are too long, a `Host` or `Expect` header it does not like, and credentials that
are refused. The checks of `Host`, `Expect`, the credentials and the missing length ask whether
there was an error before; those of the request line, of a length that is there, and of the
payload do not.

`oneVerdict_iff` says when there is one status line and nothing is passed on behind an error.

Mirroring notes:
- The status lines are those of `genError`, `writeResponse` and `writeChunkHeaders`.
- What `handleCimXmlRequest` answers is data: a response that is returned, or one that
  `invokeProviders` has had written in chunks.
-/

namespace Sfcb.HttpAdapter

open Sfcb.Lib

/-! ## Status lines -/

/-- The status line of an error, or that of a response. -/
inductive StatusLine where
  | error (code : Nat)
  | ok
  deriving DecidableEq, Repr

/-- What comes back from `handleCimXmlRequest`: a response to be written, or one that has been
written already. -/
inductive Answer where
  | whole
  | chunked (r : ChunkedRequest)

/-- The status lines of a call of `writeChunkResponse`: in the first mode it writes a whole
response or the headers. -/
def chunkLines (ctx : BinRequestContext) : List StatusLine :=
  match ctx.chunkedMode with
  | .first => [.ok]
  | .following => []

/-- Those of the messages of one provider. -/
def providerLines (ctx : BinRequestContext) : List BinResponseHdr → List StatusLine
  | [] => chunkLines ctx
  | rh :: rest =>
    let w := writeChunkResponse ctx rh
    chunkLines ctx ++ if w.moreChunks then providerLines w.ctx rest else []

/-- Those of all providers. -/
def invokeLines (ctx : BinRequestContext) : List (List BinResponseHdr) → List StatusLine
  | [] => []
  | msgs :: rest =>
    let r := intInvokeProvider ctx msgs
    providerLines ctx msgs ++ invokeLines { r.1 with pDone := r.1.pDone + 1 } rest

/-- The status lines of an answer. -/
def Answer.lines : Answer → List StatusLine
  | .whole => [.ok]
  | .chunked r =>
    invokeLines ⟨.first, 1, r.runs.length, r.rHdr, r.closing⟩ (r.runs.map ProviderRun.messages)

/-! ## A request -/

/-- The status lines that were written for a request, and what was passed on with those that
had been written by then. -/
structure Outcome where
  lines : List StatusLine
  passed : Option (Context × List StatusLine)
  deriving DecidableEq, Repr

/-- The end of `doHttpRequest`, with the response. -/
def conclude (rq : Request) (answer : Answer) (b : Buffer) (principal : Option CStr) : Outcome :=
  let errors := b.errors.map StatusLine.error
  match b.contentLength with
  | none => ⟨errors ++ (if b.discardInput = 0 then [.error 411] else []), none⟩
  | some len =>
    if !rq.payload then ⟨errors ++ [.error 400], none⟩
    else if b.discardInput ≠ 0 then ⟨errors, none⟩
    else if 0 < len then
      ⟨errors ++ answer.lines, some (⟨principal, b.host, b.trailers, len⟩, errors)⟩
    else ⟨errors ++ [.ok], none⟩

/-- `doHttpRequest`, as far as status lines go. -/
def verdict (cfg : Config) (p : Proc) (rq : Request) (answer : Answer) : Outcome :=
  match readRequest cfg rq with
  | .error errors => ⟨errors.map .error, none⟩
  | .ok b =>
    match checkCertificate cfg p rq.libraries with
    | none => ⟨b.errors.map .error, none⟩
    | some (p, principal) =>
      match checkBasic cfg p rq.libraries b principal with
      | none => ⟨b.errors.map .error, none⟩
      | some (b, principal) => conclude rq answer b principal

/-- One status line at most, and none before a request is passed on. -/
def OneVerdict (out : Outcome) : Prop :=
  out.lines.length ≤ 1 ∧ ∀ ctx before, out.passed = some (ctx, before) → before = []

/-! ## What it depends on -/

/-- The header lines. -/
def Request.headers (rq : Request) : List CStr := rq.lines.tail.takeWhile (· ≠ [])

/-- An error is written before the headers are read. -/
def Request.rejected (rq : Request) : Prop := rq.getHdrs = 1 ∨ rq.getHdrs = 2

/-- There are headers to be read. -/
def Request.arrived (rq : Request) : Prop := rq.getHdrs ≠ 3 ∧ rq.eof = false

/-- The request line is complete. -/
def Request.wellFormed (rq : Request) : Prop := rq.lines.head?.any goodRequestLine = true

/-- A header that is answered with an error, after which reading goes on. -/
def Unwelcome (hdr : CStr) : Prop :=
  (∃ cp, headerValue (lit "Host:") hdr = some cp ∧ (47 ∈ cp ∨ cp.head? = some 46)) ∨
    (headerValue (lit "Expect:") hdr).isSome = true

/-- A length that is not accepted. -/
def RefusedLength (cfg : Config) (cp : CStr) : Prop :=
  cp.head? = some 45 ∨ ∀ clen maxLen, strtoul cp = some clen →
    cfg.httpMaxContentLength = some maxLen → maxLen = 0 ∨ 2 ^ 32 - 1 ≤ clen ∨ maxLen < clen

/-- A header that ends the process. -/
def Fatal (cfg : Config) (hdr : CStr) : Prop :=
  ∃ cp, headerValue (lit "Content-Length:") hdr = some cp ∧ RefusedLength cfg cp

/-- The value of the last header of a name. -/
def lastValue (name : CStr) (hdrs : List CStr) : Option CStr :=
  (hdrs.filterMap (headerValue name)).getLast?

/-- The credentials are asked for, and refused. -/
def BasicFails (cfg : Config) (p : Proc) (rq : Request) : Prop :=
  ∃ p' principal auth user, checkCertificate cfg p rq.libraries = some (p', principal) ∧
    p'.doBa = true ∧ ¬ (cfg.doUdsAuth = true ∧ p'.conn = .unix) ∧
    baValidate rq.libraries ((lastValue (lit "Authorization:") rq.headers).getD []) =
      some (auth, user) ∧ auth ≠ .pass

/-- The credentials are not asked for, or they pass. -/
def BasicPasses (cfg : Config) (p : Proc) (rq : Request) : Prop :=
  ∀ p' principal, checkCertificate cfg p rq.libraries = some (p', principal) → p'.doBa = true →
    ¬ (cfg.doUdsAuth = true ∧ p'.conn = .unix) →
      ∃ user, baValidate rq.libraries ((lastValue (lit "Authorization:") rq.headers).getD []) =
        some (.pass, user)

/-- The request gets as far as its payload. -/
structure Complete (cfg : Config) (p : Proc) (rq : Request) : Prop where
  arrived : rq.arrived
  wellFormed : rq.wellFormed
  notFatal : ∀ hdr ∈ rq.headers, ¬ Fatal cfg hdr
  hasLength : (lastValue (lit "Content-Length:") rq.headers).isSome = true
  hasCertificate : (checkCertificate cfg p rq.libraries).isSome = true

/-- The request is passed on. -/
structure Accepted (cfg : Config) (p : Proc) (rq : Request) : Prop extends Complete cfg p rq where
  payload : rq.payload = true
  notRejected : ¬ rq.rejected
  notUnwelcome : ∀ hdr ∈ rq.headers, ¬ Unwelcome hdr
  basicPasses : BasicPasses cfg p rq
  positive : ∃ clen, (lastValue (lit "Content-Length:") rq.headers).bind strtoul = some clen ∧ 0 < clen

/-- What the code does not look after: behind an error that it has gone on after there is no
request line, length or payload that it does not accept; and if several providers answer in
chunks, the first does not fail before it has delivered anything. -/
structure Consistent (cfg : Config) (p : Proc) (rq : Request) (answer : Answer) : Prop where
  line : rq.arrived → rq.rejected → rq.wellFormed
  length : rq.arrived → rq.wellFormed → ∀ front hdr rest, rq.headers = front ++ hdr :: rest →
    (∀ h ∈ front, ¬ Fatal cfg h) → Fatal cfg hdr → ¬ rq.rejected ∧ ∀ h ∈ front, ¬ Unwelcome h
  payload : Complete cfg p rq → rq.payload = false →
    ¬ rq.rejected ∧ (∀ hdr ∈ rq.headers, ¬ Unwelcome hdr) ∧ ¬ BasicFails cfg p rq
  chunks : Accepted cfg p rq → ∀ r, answer = .chunked r →
    r.others = [] ∨ r.head.failsAtOnce = false

/-! ## The status lines of an answer -/

section Answers

variable {ctx : BinRequestContext} {run : ProviderRun}

theorem chunkedMode_following (h : ctx.chunkedMode = .following) (rh : BinResponseHdr) :
    (writeChunkResponse ctx rh).ctx = ctx := by
  unfold writeChunkResponse
  rw [h]
  dsimp only
  split <;> rfl

/-- In the second mode no status line is written. -/
theorem providerLines_following (h : ctx.chunkedMode = .following) (msgs : List BinResponseHdr) :
    providerLines ctx msgs = [] ∧ (intInvokeProvider ctx msgs).1 = ctx := by
  have hnone : chunkLines ctx = [] := by
    unfold chunkLines
    rw [h]
  induction msgs with
  | nil => exact ⟨hnone, chunkedMode_following h _⟩
  | cons rh rest ih =>
    unfold providerLines intInvokeProvider
    dsimp only
    rw [hnone, chunkedMode_following h rh]
    split
    · exact ih
    · exact ⟨rfl, rfl⟩

theorem invokeLines_following (h : ctx.chunkedMode = .following)
    (runs : List (List BinResponseHdr)) : invokeLines ctx runs = [] := by
  induction runs generalizing ctx with
  | nil => rfl
  | cons msgs rest ih =>
    obtain ⟨hlines, hctx⟩ := providerLines_following h msgs
    rw [invokeLines, hlines]
    exact ih (by rw [hctx]; exact h)

/-- The first provider writes one status line; afterwards the mode is the second, unless it has
failed at once. -/
theorem providerLines_first (h : ctx.chunkedMode = .first) (run : ProviderRun) :
    providerLines ctx run.messages = [.ok] := by
  have hone : chunkLines ctx = [.ok] := by
    unfold chunkLines
    rw [h]
  have hmore : ∀ rh, rh.moreChunks = false → (writeChunkResponse ctx rh).moreChunks = false := by
    intro rh hrh
    unfold writeChunkResponse
    rw [h]
    dsimp only
    split <;> exact hrh
  obtain ⟨chunks, ending⟩ := run
  unfold ProviderRun.messages
  cases chunks with
  | nil =>
    cases ending with
    | ok xml =>
      simp only [List.map_nil, List.nil_append, Ending.messages, providerLines, hone,
        hmore ⟨1, false, xml⟩ rfl, Bool.false_eq_true, if_false, List.append_nil]
    | error code pos fits =>
      simp only [List.map_nil, List.nil_append, Ending.messages, providerLines, hone,
        hmore ⟨code + 1, false, ⟨[], by decide⟩⟩ rfl, Bool.false_eq_true, if_false, List.append_nil]
    | silent => exact hone
  | cons xml chunks =>
    have hfollowing : (writeChunkResponse ctx ⟨1, true, xml⟩).ctx.chunkedMode = .following := by
      unfold writeChunkResponse
      rw [h]
      rfl
    rw [List.map_cons, List.cons_append, providerLines]
    dsimp only
    rw [hone, (providerLines_following hfollowing _).1]
    split <;> rfl

theorem invokeLines_ne_nil (h : ctx.chunkedMode = .first) (run : ProviderRun)
    (rest : List ProviderRun) :
    invokeLines ctx ((run :: rest).map ProviderRun.messages) ≠ [] := by
  rw [List.map_cons, invokeLines, providerLines_first h]
  simp

/-- One status line, unless a second provider starts anew. -/
theorem answer_lines_iff (r : ChunkedRequest) :
    (Answer.chunked r).lines.length ≤ 1 ↔ r.others = [] ∨ r.head.failsAtOnce = false := by
  unfold Answer.lines ChunkedRequest.runs
  dsimp only
  rw [List.map_cons, invokeLines, providerLines_first rfl]
  cases hfails : r.head.failsAtOnce with
  | false =>
    obtain ⟨cs, -, hrun⟩ := first_run ⟨.first, 1, (r.head :: r.others).length, r.rHdr, r.closing⟩ rfl
      r.head hfails
    rw [hrun, invokeLines_following rfl]
    simp
  | true =>
    rw [first_failure _ rfl r.head hfails]
    cases hothers : r.others with
    | nil => simp [invokeLines]
    | cons run rest =>
      refine iff_of_false (fun hle => ?_) (by simp)
      have hpos := List.length_pos_iff.mpr (@invokeLines_ne_nil
        ⟨.first, 1 + 1, (r.head :: run :: rest).length, r.rHdr, r.closing⟩ rfl run rest)
      rw [List.length_append, List.length_singleton] at hle
      exact absurd hle (Nat.not_le.mpr (Nat.lt_add_of_pos_right hpos))

end Answers

/-! ## The headers -/

section Headers

variable {cfg : Config} {b b' : Buffer} {name hdr cp : CStr} {hdrs rest : List CStr}

/-- A header has a name if it begins with it, in upper or lower case. -/
theorem headerValue_isSome_iff (hzero : 0 ∉ fold name) :
    (headerValue name hdr).isSome = true ↔ fold name <+: fold hdr := by
  have hcmp : strncasecmp hdr name name.length = strncmp (fold hdr) (fold name) (fold name).length := by
    unfold strncasecmp strcasecmp strncmp
    rw [length_fold, List.map_take, List.map_take]
    rfl
  rw [← strncmp_eq_zero_iff_begins hzero, ← hcmp]
  unfold headerValue
  split
  · next h => simp [h]
  · next h => simp [h]

/-- A header has one name. -/
theorem headerValue_none {other : CStr} (hvalue : headerValue name hdr = some cp)
    (hname : 0 ∉ fold name ∧ 0 ∉ fold other ∧ ¬ fold name <+: fold other ∧
      ¬ fold other <+: fold name) : headerValue other hdr = none := by
  obtain ⟨hzero, hzero', hno, hno'⟩ := hname
  have hbegins := (headerValue_isSome_iff hzero).mp (by rw [hvalue]; rfl)
  rw [← Option.not_isSome_iff_eq_none]
  intro hsome
  have hbegins' := (headerValue_isSome_iff hzero').mp hsome
  rcases List.prefix_or_prefix_of_prefix hbegins hbegins' with h | h
  · exact hno h
  · exact hno' h

theorem not_unwelcome (hhost : headerValue (lit "Host:") hdr = none)
    (hexpect : headerValue (lit "Expect:") hdr = none) : ¬ Unwelcome hdr := by
  rintro (⟨cp, h, -⟩ | h)
  · rw [hhost] at h
    cases h
  · rw [hexpect] at h
    cases h

theorem lastValue_cons : lastValue name (hdr :: hdrs) =
    (lastValue name hdrs).or (headerValue name hdr) := by
  unfold lastValue
  rw [List.filterMap_cons]
  cases headerValue name hdr with
  | none => simp
  | some cp =>
    rw [List.getLast?_cons]
    cases (List.filterMap (headerValue name) hdrs).getLast? <;> rfl

/-- An error has been written if the input is discarded, and only then. -/
def Buffer.Counted (b : Buffer) : Prop := b.errors.length = if b.discardInput = 0 then 0 else 1

/-- What header lines that are not fatal leave. -/
structure Reads (b : Buffer) (hdrs : List CStr) (b' : Buffer) : Prop where
  authorization : b'.authorization = (lastValue (lit "Authorization:") hdrs).getD b.authorization
  contentLength : b'.contentLength =
    (lastValue (lit "Content-Length:") hdrs).elim b.contentLength strtoul
  discard : b'.discardInput = 0 ↔ b.discardInput = 0 ∧ ∀ hdr ∈ hdrs, ¬ Unwelcome hdr
  counted : b.Counted → b'.Counted

theorem reads_nil (b : Buffer) : Reads b [] b :=
  ⟨rfl, rfl, by simp, id⟩

theorem reads_cons {b'' : Buffer} (hone : Reads b [hdr] b') (hrest : Reads b' hdrs b'') :
    Reads b (hdr :: hdrs) b'' := by
  have hlast : ∀ name, lastValue name [hdr] = headerValue name hdr := by
    intro name
    rw [lastValue_cons]
    rfl
  constructor
  · rw [hrest.authorization, hone.authorization, hlast, lastValue_cons]
    cases lastValue (lit "Authorization:") hdrs <;> rfl
  · rw [hrest.contentLength, hone.contentLength, hlast, lastValue_cons]
    cases lastValue (lit "Content-Length:") hdrs <;> rfl
  · rw [hrest.discard, hone.discard, List.forall_mem_singleton, List.forall_mem_cons, and_assoc]
  · exact fun h => hrest.counted (hone.counted h)

/-- A header that changes nothing of this. -/
theorem reads_other (hauth : headerValue (lit "Authorization:") hdr = none)
    (hlength : headerValue (lit "Content-Length:") hdr = none) (hwelcome : ¬ Unwelcome hdr)
    (hb : b'.authorization = b.authorization ∧ b'.contentLength = b.contentLength ∧
      b'.discardInput = b.discardInput ∧ b'.errors = b.errors) : Reads b [hdr] b' := by
  obtain ⟨h1, h2, h3, h4⟩ := hb
  refine ⟨?_, ?_, ?_, fun h => ?_⟩
  · rw [lastValue_cons, hauth, h1]
    rfl
  · rw [lastValue_cons, hlength, h2]
    rfl
  · rw [h3, List.forall_mem_singleton, and_iff_left hwelcome]
  · unfold Buffer.Counted at h ⊢
    rw [h3, h4, h]

/-- A header that is answered with an error, if it is the first. -/
theorem reads_discard {code : Nat} (hauth : headerValue (lit "Authorization:") hdr = none)
    (hlength : headerValue (lit "Content-Length:") hdr = none) (hunwelcome : Unwelcome hdr)
    (host : Option CStr) : Reads b [hdr] (Buffer.discard { b with host := host } code) := by
  have hfields : (Buffer.discard { b with host := host } code).authorization = b.authorization ∧
      (Buffer.discard { b with host := host } code).contentLength = b.contentLength := by
    unfold Buffer.discard
    split
    · exact ⟨rfl, rfl⟩
    · exact ⟨rfl, rfl⟩
  refine ⟨?_, ?_, ?_, fun h => ?_⟩
  · rw [lastValue_cons, hauth, hfields.1]
    rfl
  · rw [lastValue_cons, hlength, hfields.2]
    rfl
  · rw [List.forall_mem_singleton]
    refine iff_of_false ?_ fun h => h.2 hunwelcome
    unfold Buffer.discard
    dsimp only
    split
    · simp
    · next hne => exact hne
  · unfold Buffer.Counted at h ⊢
    unfold Buffer.discard
    dsimp only
    split
    · next hzero =>
      rw [if_pos hzero] at h
      simp [h]
    · next hne => exact h.trans (if_neg hne)

/-- A length that is accepted is stored, and no other is. -/
theorem contentLength_ok_iff (cp : CStr) :
    (¬ RefusedLength cfg cp → contentLength cfg b cp = .ok { b with contentLength := strtoul cp }) ∧
      (RefusedLength cfg cp → ∃ code, contentLength cfg b cp = .error (b.errors ++ [code])) := by
  unfold contentLength RefusedLength
  by_cases hminus : cp.head? = some 45
  · rw [if_pos hminus]
    exact ⟨fun h => absurd (.inl hminus) h, fun _ => ⟨400, rfl⟩⟩
  rw [if_neg hminus]
  cases hclen : strtoul cp with
  | none => exact ⟨fun h => absurd (.inr (by simp)) h, fun _ => ⟨400, rfl⟩⟩
  | some clen =>
    cases hmax : cfg.httpMaxContentLength with
    | none => exact ⟨fun h => absurd (.inr (by simp)) h, fun _ => ⟨501, rfl⟩⟩
    | some maxLen =>
      simp only [Option.some.injEq, hminus, false_or]
      have honly : (∀ c m, clen = c → maxLen = m → m = 0 ∨ 2 ^ 32 - 1 ≤ c ∨ m < c) ↔
          maxLen = 0 ∨ 2 ^ 32 - 1 ≤ clen ∨ maxLen < clen :=
        ⟨fun h => h clen maxLen rfl rfl, by rintro h _ _ rfl rfl; exact h⟩
      rw [honly]
      by_cases hzero : maxLen = 0
      · rw [if_pos hzero]
        exact ⟨fun h => absurd (.inl hzero) h, fun _ => ⟨501, rfl⟩⟩
      rw [if_neg hzero]
      by_cases hlarge : 2 ^ 32 - 1 ≤ clen ∨ maxLen < clen
      · rw [if_pos hlarge]
        exact ⟨fun h => absurd (.inr hlarge) h, fun _ => ⟨413, rfl⟩⟩
      · rw [if_neg hlarge]
        exact ⟨fun _ => rfl, fun h => absurd h (not_or.mpr ⟨hzero, hlarge⟩)⟩

/-- One header, by what it is. -/
theorem readHeader_ok (hfatal : ¬ Fatal cfg hdr) :
    ∃ b', readHeader cfg b hdr = .ok b' ∧ Reads b [hdr] b' := by
  unfold readHeader
  cases hauth : headerValue (lit "Authorization:") hdr with
  | some cp =>
    refine ⟨_, rfl, ?_, ?_, ?_, fun h => h⟩
    · rw [lastValue_cons, hauth]
      rfl
    · rw [lastValue_cons, headerValue_none hauth (by decide)]
      rfl
    · rw [List.forall_mem_singleton, and_iff_left]
      exact not_unwelcome (headerValue_none hauth (by decide)) (headerValue_none hauth (by decide))
  | none =>
    dsimp only
    cases hlength : headerValue (lit "Content-Length:") hdr with
    | some cp =>
      have haccepted : ¬ RefusedLength cfg cp := fun h => hfatal ⟨cp, hlength, h⟩
      refine ⟨_, (contentLength_ok_iff cp).1 haccepted, ?_, ?_, ?_, fun h => h⟩
      · rw [lastValue_cons, hauth]
        rfl
      · rw [lastValue_cons, hlength]
        rfl
      · rw [List.forall_mem_singleton, and_iff_left]
        exact not_unwelcome (headerValue_none hlength (by decide))
          (headerValue_none hlength (by decide))
    | none =>
      have hkeeps : ∀ {name cp : CStr}, headerValue name hdr = some cp →
          (0 ∉ fold name ∧ 0 ∉ fold (lit "Host:") ∧ ¬ fold name <+: fold (lit "Host:") ∧
            ¬ fold (lit "Host:") <+: fold name) →
          (0 ∉ fold name ∧ 0 ∉ fold (lit "Expect:") ∧ ¬ fold name <+: fold (lit "Expect:") ∧
            ¬ fold (lit "Expect:") <+: fold name) → ¬ Unwelcome hdr :=
        fun hvalue hhost hexpect =>
          not_unwelcome (headerValue_none hvalue hhost) (headerValue_none hvalue hexpect)
      dsimp only
      split
      · next htype =>
        obtain ⟨cp, hcp⟩ := Option.isSome_iff_exists.mp htype
        exact ⟨b, rfl, reads_other hauth hlength (hkeeps hcp (by decide) (by decide))
          ⟨rfl, rfl, rfl, rfl⟩⟩
      cases hhost : headerValue (lit "Host:") hdr with
      | some cp =>
        refine ⟨_, rfl, ?_⟩
        split
        · next hbad => exact reads_discard hauth hlength (.inl ⟨cp, hhost, hbad⟩) _
        · next hgood =>
          refine reads_other hauth hlength ?_ ⟨rfl, rfl, rfl, rfl⟩
          rintro (⟨cp', hcp', hbad⟩ | hexpect)
          · rw [hhost] at hcp'
            cases hcp'
            exact hgood hbad
          · rw [headerValue_none hhost (by decide)] at hexpect
            cases hexpect
      | none =>
        dsimp only
        split
        · next hagent =>
          obtain ⟨cp, hcp⟩ := Option.isSome_iff_exists.mp hagent
          exact ⟨b, rfl, reads_other hauth hlength (hkeeps hcp (by decide) (by decide))
            ⟨rfl, rfl, rfl, rfl⟩⟩
        cases hte : headerValue (lit "TE:") hdr with
        | some cp =>
          refine ⟨_, rfl, reads_other hauth hlength (hkeeps hte (by decide) (by decide)) ?_⟩
          split <;> exact ⟨rfl, rfl, rfl, rfl⟩
        | none =>
          refine ⟨_, rfl, ?_⟩
          split
          · next hexpect => exact reads_discard hauth hlength (.inr hexpect) b.host
          · next hother =>
            refine reads_other hauth hlength (not_unwelcome hhost ?_) ⟨rfl, rfl, rfl, rfl⟩
            exact Option.not_isSome_iff_eq_none.mp hother

/-- A fatal header ends the process with one more error. -/
theorem readHeader_fatal (hfatal : Fatal cfg hdr) :
    ∃ code, readHeader cfg b hdr = .error (b.errors ++ [code]) := by
  obtain ⟨cp, hlength, hrefused⟩ := hfatal
  unfold readHeader
  rw [headerValue_none hlength (by decide), hlength]
  exact (contentLength_ok_iff cp).2 hrefused

/-- The header lines up to the empty one, if none of them is fatal. -/
theorem readHeaders_ok (hfatal : ∀ hdr ∈ hdrs.takeWhile (· ≠ []), ¬ Fatal cfg hdr) :
    ∃ b', readHeaders cfg b hdrs = .ok b' ∧ Reads b (hdrs.takeWhile (· ≠ [])) b' := by
  induction hdrs generalizing b with
  | nil => exact ⟨b, rfl, reads_nil b⟩
  | cons hdr hdrs ih =>
    unfold readHeaders
    by_cases hempty : hdr = []
    · rw [if_pos hempty, List.takeWhile_cons_of_neg (by simp [hempty])]
      exact ⟨b, rfl, reads_nil b⟩
    · rw [List.takeWhile_cons_of_pos (by simp [hempty])] at hfatal ⊢
      rw [List.forall_mem_cons] at hfatal
      obtain ⟨b', hone, hreads⟩ := @readHeader_ok cfg b hdr hfatal.1
      obtain ⟨b'', hrest, hreads'⟩ := @ih b' hfatal.2
      rw [if_neg hempty, hone]
      exact ⟨b'', hrest, reads_cons hreads hreads'⟩

/-- The header lines up to the first fatal one. -/
theorem readHeaders_fatal {front : List CStr}
    (hhdrs : hdrs.takeWhile (· ≠ []) = front ++ hdr :: rest)
    (hfront : ∀ hdr ∈ front, ¬ Fatal cfg hdr) (hfatal : Fatal cfg hdr) :
    ∃ b' code, readHeaders cfg b hdrs = .error (b'.errors ++ [code]) ∧ Reads b front b' := by
  induction hdrs generalizing b front with
  | nil => simp at hhdrs
  | cons h hdrs ih =>
    unfold readHeaders
    by_cases hempty : h = []
    · rw [List.takeWhile_cons_of_neg (by simp [hempty])] at hhdrs
      simp at hhdrs
    · rw [List.takeWhile_cons_of_pos (by simp [hempty])] at hhdrs
      rw [if_neg hempty]
      cases front with
      | nil =>
        obtain ⟨rfl, -⟩ := List.cons.inj hhdrs
        obtain ⟨code, hone⟩ := @readHeader_fatal cfg b h hfatal
        rw [hone]
        exact ⟨b, code, rfl, reads_nil b⟩
      | cons h' front =>
        obtain ⟨rfl, htail⟩ := List.cons.inj hhdrs
        rw [List.forall_mem_cons] at hfront
        obtain ⟨b', hone, hreads⟩ := @readHeader_ok cfg b h hfront.1
        obtain ⟨b'', code, hrest, hreads'⟩ := @ih b' front htail hfront.2
        rw [hone]
        exact ⟨b'', code, hrest, reads_cons hreads hreads'⟩

end Headers

/-! ## The request -/

section Request

variable {cfg : Config} {p : Proc} {rq : Request} {answer : Answer} {b b' : Buffer}

/-- What has been written before the request line. -/
theorem counted_emptyBuffer (rq : Request) : ∃ b : Buffer, b.Counted ∧
    (b.discardInput = 0 ↔ ¬ rq.rejected) ∧ b.authorization = [] ∧ b.contentLength = none ∧
    readRequest cfg rq =
      if rq.getHdrs = 3 then .error [400]
      else if rq.eof then .error b.errors
      else
        match rq.lines with
        | [] => .error (b.errors ++ [400])
        | line :: hdrs =>
          if goodRequestLine line then readHeaders cfg b hdrs else .error (b.errors ++ [400]) := by
  unfold readRequest Request.rejected
  by_cases h1 : rq.getHdrs = 1
  · exact ⟨emptyBuffer 1 [501], rfl, by simp [emptyBuffer, h1], rfl, rfl, by rw [h1]; rfl⟩
  by_cases h2 : rq.getHdrs = 2
  · exact ⟨emptyBuffer 2 [400], rfl, by simp [emptyBuffer, h2], rfl, rfl, by rw [h2]; rfl⟩
  · refine ⟨emptyBuffer 0 [], rfl, by simp [emptyBuffer, h1, h2], rfl, rfl, ?_⟩
    split <;> first | contradiction | rfl

theorem Buffer.Counted.eq_nil_iff (h : b.Counted) : b.errors = [] ↔ b.discardInput = 0 := by
  unfold Buffer.Counted at h
  rw [← List.length_eq_zero_iff, h]
  split
  · next hzero => simp [hzero]
  · next hne => simp [hne]

theorem Buffer.Counted.le_one (h : b.Counted) : b.errors.length ≤ 1 := by
  unfold Buffer.Counted at h
  rw [h]
  split <;> decide

/-- With no more than the errors so far there is one verdict. -/
theorem oneVerdict_errors (h : b.Counted) : OneVerdict ⟨b.errors.map .error, none⟩ := by
  refine ⟨?_, by simp⟩
  rw [List.length_map]
  exact h.le_one

/-- With one more there is one verdict if it is the first. -/
theorem oneVerdict_append (h : b.Counted) (line : StatusLine) :
    OneVerdict ⟨b.errors.map .error ++ [line], none⟩ ↔ b.discardInput = 0 := by
  unfold OneVerdict
  rw [← h.eq_nil_iff, List.length_append, List.length_map, List.length_singleton,
    ← List.length_eq_zero_iff]
  constructor
  · rintro ⟨hle, -⟩
    omega
  · intro hzero
    exact ⟨by omega, by simp⟩

theorem oneVerdict_fatal (h : b.Counted) (code : Nat) :
    OneVerdict ⟨(b.errors ++ [code]).map .error, none⟩ ↔ b.discardInput = 0 := by
  rw [List.map_append]
  exact oneVerdict_append h (.error code)

/-- A request that has no headers to be read. -/
theorem verdict_early (hearly : ¬ (rq.arrived ∧ rq.wellFormed)) :
    OneVerdict (verdict cfg p rq answer) ↔ (rq.arrived → rq.rejected → rq.wellFormed) := by
  obtain ⟨b, hcounted, hdiscard, -, -, hread⟩ := @counted_emptyBuffer cfg rq
  unfold verdict
  rw [hread]
  by_cases hlate : rq.getHdrs = 3
  · rw [if_pos hlate]
    exact iff_of_true ⟨by simp, by simp⟩ fun h => absurd hlate h.1
  rw [if_neg hlate]
  by_cases heof : rq.eof = true
  · rw [if_pos heof]
    refine iff_of_true (oneVerdict_errors hcounted) fun h => ?_
    rw [h.2] at heof
    cases heof
  rw [if_neg heof]
  have harrived : rq.arrived := ⟨hlate, Bool.not_eq_true _ ▸ heof⟩
  have hline : ¬ rq.wellFormed := fun h => hearly ⟨harrived, h⟩
  have hmalformed : (rq.arrived → rq.rejected → rq.wellFormed) ↔ b.discardInput = 0 := by
    rw [hdiscard]
    exact ⟨fun h hrejected => hline (h harrived hrejected), fun h _ hrejected => absurd hrejected h⟩
  rw [hmalformed]
  unfold Request.wellFormed at hline
  cases hlines : rq.lines with
  | nil => exact oneVerdict_fatal hcounted 400
  | cons line hdrs =>
    rw [hlines] at hline
    have hbad : ¬ goodRequestLine line = true := hline
    dsimp only
    rw [if_neg hbad]
    exact oneVerdict_fatal hcounted 400

/-- The headers of a request that has some. -/
theorem readRequest_headers (harrived : rq.arrived) (hline : rq.wellFormed) :
    ∃ b, b.Counted ∧ (b.discardInput = 0 ↔ ¬ rq.rejected) ∧ b.authorization = [] ∧
      b.contentLength = none ∧ readRequest cfg rq = readHeaders cfg b rq.lines.tail := by
  obtain ⟨b, hcounted, hdiscard, hauth, hlength, hread⟩ := @counted_emptyBuffer cfg rq
  refine ⟨b, hcounted, hdiscard, hauth, hlength, ?_⟩
  rw [hread, if_neg harrived.1, if_neg (by simp [harrived.2])]
  unfold Request.wellFormed at hline
  cases hlines : rq.lines with
  | nil =>
    rw [hlines] at hline
    cases hline
  | cons line hdrs =>
    rw [hlines] at hline
    have hgood : goodRequestLine line = true := hline
    dsimp only
    rw [if_pos hgood]
    rfl

/-- A request with a fatal header. -/
theorem verdict_fatal (harrived : rq.arrived) (hline : rq.wellFormed) {front rest : List CStr}
    {hdr : CStr} (hhdrs : rq.headers = front ++ hdr :: rest)
    (hfront : ∀ hdr ∈ front, ¬ Fatal cfg hdr) (hfatal : Fatal cfg hdr) :
    OneVerdict (verdict cfg p rq answer) ↔
      ¬ rq.rejected ∧ ∀ hdr ∈ front, ¬ Unwelcome hdr := by
  obtain ⟨b, hcounted, hdiscard, -, -, hread⟩ := @readRequest_headers cfg rq harrived hline
  obtain ⟨b', code, hheaders, hreads⟩ := readHeaders_fatal (b := b) hhdrs hfront hfatal
  unfold verdict
  rw [hread, hheaders, ← hdiscard, ← hreads.discard]
  exact oneVerdict_fatal (hreads.counted hcounted) code

/-- The headers of any other request. -/
theorem readRequest_ok (harrived : rq.arrived) (hline : rq.wellFormed)
    (hfatal : ∀ hdr ∈ rq.headers, ¬ Fatal cfg hdr) :
    ∃ b, readRequest cfg rq = .ok b ∧ b.Counted ∧
      (b.discardInput = 0 ↔ ¬ rq.rejected ∧ ∀ hdr ∈ rq.headers, ¬ Unwelcome hdr) ∧
      b.authorization = (lastValue (lit "Authorization:") rq.headers).getD [] ∧
      b.contentLength = (lastValue (lit "Content-Length:") rq.headers).bind strtoul := by
  obtain ⟨b, hcounted, hdiscard, hauth, hlength, hread⟩ := @readRequest_headers cfg rq harrived hline
  obtain ⟨b', hheaders, hreads⟩ := @readHeaders_ok cfg b _ hfatal
  refine ⟨b', hread.trans hheaders, hreads.counted hcounted, ?_, ?_, ?_⟩
  · rw [← hdiscard]
    exact hreads.discard
  · rw [← hauth]
    exact hreads.authorization
  · have hcl := hreads.contentLength
    rw [hlength] at hcl
    rw [hcl]
    unfold Request.headers
    cases lastValue (lit "Content-Length:") (rq.lines.tail.takeWhile (· ≠ [])) <;> rfl

/-- An accepted length has been converted. -/
theorem strtoul_isSome {cp : CStr} (h : ¬ RefusedLength cfg cp) : (strtoul cp).isSome = true := by
  cases hclen : strtoul cp with
  | none =>
    refine absurd (.inr fun clen maxLen hclen' => ?_) h
    rw [hclen] at hclen'
    cases hclen'
  | some clen => rfl

/-- The length of a request without fatal headers is there if the header is. -/
theorem length_isSome_iff (hfatal : ∀ hdr ∈ rq.headers, ¬ Fatal cfg hdr) :
    ((lastValue (lit "Content-Length:") rq.headers).bind strtoul).isSome = true ↔
      (lastValue (lit "Content-Length:") rq.headers).isSome = true := by
  cases hlast : lastValue (lit "Content-Length:") rq.headers with
  | none => simp
  | some cp =>
    obtain ⟨hdr, hmem, hvalue⟩ := List.mem_filterMap.mp (List.mem_of_getLast? hlast)
    have haccepted : ¬ RefusedLength cfg cp := fun h => hfatal hdr hmem ⟨cp, hvalue, h⟩
    exact iff_of_true (strtoul_isSome haccepted) rfl

/-- The end of a request with a length: behind an error the payload must not fail. -/
theorem conclude_iff (hcounted : b.Counted) {len : Nat} (hlen : b.contentLength = some len)
    (principal : Option CStr) :
    OneVerdict (conclude rq answer b principal) ↔
      (rq.payload = false → b.discardInput = 0) ∧
        (rq.payload = true → b.discardInput = 0 → 0 < len → answer.lines.length ≤ 1) := by
  unfold conclude
  rw [hlen]
  dsimp only
  cases hpayload : rq.payload with
  | false =>
    rw [if_pos (by rfl), oneVerdict_append hcounted]
    simp
  | true =>
    rw [if_neg (by simp)]
    by_cases hdiscard : b.discardInput = 0
    · have hnil := hcounted.eq_nil_iff.mpr hdiscard
      rw [if_neg (by simpa using hdiscard), hnil]
      by_cases hpos : 0 < len
      · rw [if_pos hpos]
        unfold OneVerdict
        simp [hdiscard, hpos]
      · rw [if_neg hpos]
        unfold OneVerdict
        simp [hdiscard, hpos]
    · rw [if_pos hdiscard]
      exact iff_of_true (oneVerdict_errors hcounted) (by simp [hdiscard])

/-- Without a length there is one verdict. -/
theorem conclude_noLength (hcounted : b.Counted) (hlen : b.contentLength = none)
    (principal : Option CStr) : OneVerdict (conclude rq answer b principal) := by
  unfold conclude
  rw [hlen]
  dsimp only
  split
  · next hdiscard => exact (oneVerdict_append hcounted (.error 411)).mpr hdiscard
  · rw [List.append_nil]
    exact oneVerdict_errors hcounted

/-- Credentials are asked for if nothing has been written yet. -/
theorem checkBasic_eq {libs : Libraries} (principal : Option CStr) :
    checkBasic cfg p libs b principal =
      if b.discardInput = 0 ∧ p.doBa = true ∧ ¬ (cfg.doUdsAuth = true ∧ p.conn = .unix) then
        (baValidate libs b.authorization).map fun r =>
          (if r.1 ≠ .pass then { b with discardInput := 1, errors := b.errors ++ [401] } else b,
            r.2.orElse fun _ => principal)
      else some (b, principal) := by
  have hasked : (!udsAuthorized cfg p b && b.discardInput == 0 && p.doBa) = true ↔
      b.discardInput = 0 ∧ p.doBa = true ∧ ¬ (cfg.doUdsAuth = true ∧ p.conn = .unix) := by
    unfold udsAuthorized
    by_cases hdiscard : b.discardInput = 0
    · cases hdoBa : p.doBa
      · simp
      · cases huds : cfg.doUdsAuth
        · simp [hdiscard]
        · simp [hdiscard]
    · simp [hdiscard]
  unfold checkBasic
  by_cases h : b.discardInput = 0 ∧ p.doBa = true ∧ ¬ (cfg.doUdsAuth = true ∧ p.conn = .unix)
  · rw [if_pos (hasked.mpr h), if_pos h]
    refine congrArg (Option.map · _) (funext fun r => ?_)
    dsimp only
    split <;> rfl
  · rw [if_neg fun h' => h (hasked.mp h'), if_neg h]

section Certificate

variable {p' : Proc} {principal : Option CStr}
  (hcert : checkCertificate cfg p rq.libraries = some (p', principal))

include hcert

theorem basicFails_iff : BasicFails cfg p rq ↔
    (p'.doBa = true ∧ ¬ (cfg.doUdsAuth = true ∧ p'.conn = .unix)) ∧ ∃ auth user,
      baValidate rq.libraries ((lastValue (lit "Authorization:") rq.headers).getD []) =
        some (auth, user) ∧ auth ≠ .pass := by
  constructor
  · rintro ⟨p'', principal', auth, user, hcert', hdoBa, huds, hrest⟩
    rw [hcert] at hcert'
    cases hcert'
    exact ⟨⟨hdoBa, huds⟩, auth, user, hrest⟩
  · rintro ⟨⟨hdoBa, huds⟩, auth, user, hrest⟩
    exact ⟨p', principal, auth, user, hcert, hdoBa, huds, hrest⟩

theorem basicPasses_iff : BasicPasses cfg p rq ↔
    (p'.doBa = true ∧ ¬ (cfg.doUdsAuth = true ∧ p'.conn = .unix) → ∃ user,
      baValidate rq.libraries ((lastValue (lit "Authorization:") rq.headers).getD []) =
        some (.pass, user)) := by
  constructor
  · exact fun h hasked => h p' principal hcert hasked.1 hasked.2
  · intro h p'' principal' hcert' hdoBa huds
    rw [hcert] at hcert'
    cases hcert'
    exact h ⟨hdoBa, huds⟩

/-- A request whose headers have been read and that has a certificate if it needs one. -/
theorem verdict_read (hread : readRequest cfg rq = .ok b) (hcounted : b.Counted)
    (hdiscard : b.discardInput = 0 ↔ ¬ rq.rejected ∧ ∀ hdr ∈ rq.headers, ¬ Unwelcome hdr)
    (hauth : b.authorization = (lastValue (lit "Authorization:") rq.headers).getD [])
    {len : Nat} (hlen : b.contentLength = some len) :
    OneVerdict (verdict cfg p rq answer) ↔
      (rq.payload = false → ¬ rq.rejected ∧ (∀ hdr ∈ rq.headers, ¬ Unwelcome hdr) ∧
        ¬ BasicFails cfg p rq) ∧
      (rq.payload = true → ¬ rq.rejected → (∀ hdr ∈ rq.headers, ¬ Unwelcome hdr) →
        BasicPasses cfg p rq → 0 < len → answer.lines.length ≤ 1) := by
  unfold verdict
  rw [hread]
  dsimp only
  rw [hcert]
  dsimp only
  rw [checkBasic_eq]
  by_cases hzero : b.discardInput = 0
  · obtain ⟨hrejected, hunwelcome⟩ := hdiscard.mp hzero
    -- the credentials have passed, or have not been asked for
    have hpassed : ∀ principal', ¬ BasicFails cfg p rq → BasicPasses cfg p rq →
        (OneVerdict (conclude rq answer b principal') ↔
          (rq.payload = false → ¬ rq.rejected ∧ (∀ hdr ∈ rq.headers, ¬ Unwelcome hdr) ∧
            ¬ BasicFails cfg p rq) ∧
          (rq.payload = true → ¬ rq.rejected → (∀ hdr ∈ rq.headers, ¬ Unwelcome hdr) →
            BasicPasses cfg p rq → 0 < len → answer.lines.length ≤ 1)) := by
      intro principal' hno hpasses
      rw [conclude_iff hcounted hlen]
      constructor
      · rintro ⟨-, hone⟩
        exact ⟨fun _ => ⟨hrejected, hunwelcome, hno⟩, fun hpayload _ _ _ => hone hpayload hzero⟩
      · rintro ⟨-, hone⟩
        exact ⟨fun _ => hzero, fun hpayload _ => hone hpayload hrejected hunwelcome hpasses⟩
    by_cases hasked : p'.doBa = true ∧ ¬ (cfg.doUdsAuth = true ∧ p'.conn = .unix)
    · rw [if_pos ⟨hzero, hasked⟩]
      have hfails := basicFails_iff hcert
      have hpasses := basicPasses_iff hcert
      rw [← hauth] at hfails hpasses
      cases hba : baValidate rq.libraries b.authorization with
      | none =>
        rw [hba] at hfails hpasses
        refine iff_of_true (oneVerdict_errors hcounted) ⟨fun _ => ⟨hrejected, hunwelcome, ?_⟩, ?_⟩
        · intro h
          obtain ⟨-, auth, user, h, -⟩ := hfails.mp h
          cases h
        · intro _ _ _ h
          obtain ⟨user, h⟩ := hpasses.mp h hasked
          cases h
      | some r =>
        obtain ⟨auth, user⟩ := r
        rw [hba] at hfails hpasses
        dsimp only [Option.map_some]
        by_cases hpass : auth = .pass
        · subst hpass
          rw [if_neg fun h => h rfl]
          refine hpassed _ (fun h => ?_) (hpasses.mpr fun _ => ⟨user, rfl⟩)
          obtain ⟨-, auth, user', h, hne⟩ := hfails.mp h
          cases h
          exact hne rfl
        · have hcounted' :
              Buffer.Counted { b with discardInput := 1, errors := b.errors ++ [401] } := by
            unfold Buffer.Counted
            simp [hcounted.eq_nil_iff.mpr hzero]
          have hfailed : BasicFails cfg p rq := hfails.mpr ⟨hasked, auth, user, rfl, hpass⟩
          rw [if_pos hpass, conclude_iff hcounted' hlen]
          constructor
          · rintro ⟨hpayload, -⟩
            refine ⟨fun h => absurd (hpayload h) Nat.one_ne_zero, fun _ _ _ h => ?_⟩
            obtain ⟨user', h⟩ := hpasses.mp h hasked
            cases h
            exact absurd rfl hpass
          · rintro ⟨hpayload, -⟩
            exact ⟨fun h => absurd hfailed (hpayload h).2.2, fun _ h => absurd h Nat.one_ne_zero⟩
    · rw [if_neg fun h => hasked h.2]
      exact hpassed _ (fun h => hasked ((basicFails_iff hcert).mp h).1)
        ((basicPasses_iff hcert).mpr fun h => absurd h hasked)
  · have hdiscarded : ¬ (¬ rq.rejected ∧ ∀ hdr ∈ rq.headers, ¬ Unwelcome hdr) :=
      fun h => hzero (hdiscard.mpr h)
    rw [if_neg fun h => hzero h.1, conclude_iff hcounted hlen]
    constructor
    · rintro ⟨hpayload, -⟩
      exact ⟨fun h => absurd (hpayload h) hzero,
        fun _ hrejected hunwelcome => absurd ⟨hrejected, hunwelcome⟩ hdiscarded⟩
    · rintro ⟨hpayload, -⟩
      refine ⟨fun h => absurd ?_ hdiscarded, fun _ h => absurd h hzero⟩
      exact ⟨(hpayload h).1, (hpayload h).2.1⟩

end Certificate

theorem verdict_noLength {p' : Proc} {principal : Option CStr}
    (hread : readRequest cfg rq = .ok b) (hcounted : b.Counted)
    (hcert : checkCertificate cfg p rq.libraries = some (p', principal))
    (hlen : b.contentLength = none) : OneVerdict (verdict cfg p rq answer) := by
  unfold verdict
  rw [hread]
  dsimp only
  rw [hcert]
  dsimp only
  rw [checkBasic_eq]
  by_cases hasked : b.discardInput = 0 ∧ p'.doBa = true ∧
      ¬ (cfg.doUdsAuth = true ∧ p'.conn = .unix)
  · rw [if_pos hasked]
    cases baValidate rq.libraries b.authorization with
    | none => exact oneVerdict_errors hcounted
    | some r =>
      dsimp only [Option.map_some]
      have hcounted' :
          Buffer.Counted { b with discardInput := 1, errors := b.errors ++ [401] } := by
        unfold Buffer.Counted
        simp [hcounted.eq_nil_iff.mpr hasked.1]
      split
      · exact conclude_noLength hcounted' hlen _
      · exact conclude_noLength hcounted hlen _
  · rw [if_neg hasked]
    exact conclude_noLength hcounted hlen _

/-- The status lines of an answer matter only where it comes in chunks. -/
theorem answer_le_one_iff (answer : Answer) : answer.lines.length ≤ 1 ↔
    ∀ r, answer = .chunked r → r.others = [] ∨ r.head.failsAtOnce = false := by
  cases answer with
  | whole => exact iff_of_true (Nat.le_refl 1) fun r h => by cases h
  | chunked r =>
    rw [answer_lines_iff]
    exact ⟨fun h r' heq => by cases heq; exact h, fun h => h r rfl⟩

/-- A request without a fatal header. -/
theorem oneVerdict_notFatal (harrived : rq.arrived) (hline : rq.wellFormed)
    (hfatal : ∀ hdr ∈ rq.headers, ¬ Fatal cfg hdr) :
    OneVerdict (verdict cfg p rq answer) ↔ Consistent cfg p rq answer := by
  obtain ⟨b, hread, hcounted, hdiscard, hauth, hlength⟩ := readRequest_ok harrived hline hfatal
  have hconsistent : Consistent cfg p rq answer ↔
      (Complete cfg p rq → rq.payload = false →
        ¬ rq.rejected ∧ (∀ hdr ∈ rq.headers, ¬ Unwelcome hdr) ∧ ¬ BasicFails cfg p rq) ∧
      (Accepted cfg p rq → answer.lines.length ≤ 1) := by
    rw [answer_le_one_iff]
    refine ⟨fun h => ⟨h.payload, h.chunks⟩, fun h => ⟨fun _ _ => hline, ?_, h.1, h.2⟩⟩
    intro _ _ front hdr rest hhdrs _ hhdr
    refine absurd hhdr (hfatal hdr ?_)
    rw [hhdrs]
    exact List.mem_append_right _ List.mem_cons_self
  rw [hconsistent]
  have hincomplete : ¬ Complete cfg p rq → OneVerdict (verdict cfg p rq answer) →
      (OneVerdict (verdict cfg p rq answer) ↔ (Complete cfg p rq → rq.payload = false →
        ¬ rq.rejected ∧ (∀ hdr ∈ rq.headers, ¬ Unwelcome hdr) ∧ ¬ BasicFails cfg p rq) ∧
      (Accepted cfg p rq → answer.lines.length ≤ 1)) :=
    fun hno hone => iff_of_true hone ⟨fun h => absurd h hno, fun h => absurd h.toComplete hno⟩
  cases hcert : checkCertificate cfg p rq.libraries with
  | none =>
    refine hincomplete (fun h => ?_) ?_
    · have := h.hasCertificate
      rw [hcert] at this
      cases this
    · unfold verdict
      rw [hread]
      dsimp only
      rw [hcert]
      exact oneVerdict_errors hcounted
  | some r =>
    obtain ⟨p', principal⟩ := r
    cases hlen : b.contentLength with
    | none =>
      refine hincomplete (fun h => ?_) ?_
      · have hsome := (length_isSome_iff hfatal).mpr h.hasLength
        rw [← hlength, hlen] at hsome
        cases hsome
      · exact verdict_noLength hread hcounted hcert hlen
    | some len =>
      have hcomplete : Complete cfg p rq := by
        refine ⟨harrived, hline, hfatal, (length_isSome_iff hfatal).mp ?_, ?_⟩
        · rw [← hlength, hlen]
          rfl
        · rw [hcert]
          rfl
      rw [verdict_read hcert hread hcounted hdiscard hauth hlen]
      refine and_congr ⟨fun h _ => h, fun h => h hcomplete⟩ ⟨fun h haccepted => ?_, fun h => ?_⟩
      · obtain ⟨clen, hclen, hpos⟩ := haccepted.positive
        rw [← hlength, hlen] at hclen
        cases hclen
        exact h haccepted.payload haccepted.notRejected haccepted.notUnwelcome
          haccepted.basicPasses hpos
      · intro hpayload hrejected hunwelcome hpasses hpos
        exact h ⟨hcomplete, hpayload, hrejected, hunwelcome, hpasses, len,
          by rw [← hlength, hlen], hpos⟩

end Request

/-- The first of some elements with a property. -/
theorem exists_first {α : Type} {P : α → Prop} {l : List α} (h : ∃ a ∈ l, P a) :
    ∃ front a rest, l = front ++ a :: rest ∧ (∀ a ∈ front, ¬ P a) ∧ P a := by
  induction l with
  | nil => simp at h
  | cons a l ih =>
    by_cases ha : P a
    · exact ⟨[], a, l, rfl, by simp, ha⟩
    · obtain ⟨b, hmem, hb⟩ := h
      rcases List.mem_cons.mp hmem with rfl | hmem
      · exact absurd hb ha
      · obtain ⟨front, c, rest, rfl, hfront, hc⟩ := ih ⟨b, hmem, hb⟩
        exact ⟨a :: front, c, rest, rfl, List.forall_mem_cons.mpr ⟨ha, hfront⟩, hc⟩

/-- For a request there is one status line, and nothing is passed on behind an error, exactly if
no request line, length or payload fails behind an error after which `doHttpRequest` has gone on,
and the first of several providers that answer in chunks delivers something. -/
theorem oneVerdict_iff (cfg : Config) (p : Proc) (rq : Request) (answer : Answer) :
    OneVerdict (verdict cfg p rq answer) ↔ Consistent cfg p rq answer := by
  by_cases hbegun : rq.arrived ∧ rq.wellFormed
  · obtain ⟨harrived, hline⟩ := hbegun
    by_cases hfatal : ∃ hdr ∈ rq.headers, Fatal cfg hdr
    · obtain ⟨front, hdr, rest, hhdrs, hfront, hhdr⟩ := exists_first hfatal
      have hmem : hdr ∈ rq.headers := by
        rw [hhdrs]
        exact List.mem_append_right _ List.mem_cons_self
      constructor
      · intro hone
        refine ⟨fun _ _ => hline, ?_, fun h => ?_, fun h => ?_⟩
        · intro _ _ front' hdr' rest' hhdrs' hfront' hhdr'
          exact (verdict_fatal harrived hline hhdrs' hfront' hhdr').mp hone
        · exact absurd hhdr (h.notFatal hdr hmem)
        · exact absurd hhdr (h.notFatal hdr hmem)
      · intro hconsistent
        rw [verdict_fatal harrived hline hhdrs hfront hhdr]
        exact hconsistent.length harrived hline front hdr rest hhdrs hfront hhdr
    · have hnone : ∀ hdr ∈ rq.headers, ¬ Fatal cfg hdr := fun hdr hmem h => hfatal ⟨hdr, hmem, h⟩
      exact oneVerdict_notFatal harrived hline hnone
  · rw [verdict_early hbegun]
    constructor
    · intro hline
      refine ⟨hline, fun harrived hwell => absurd ⟨harrived, hwell⟩ hbegun, fun h => ?_, fun h => ?_⟩
      · exact absurd ⟨h.arrived, h.wellFormed⟩ hbegun
      · exact absurd ⟨h.arrived, h.wellFormed⟩ hbegun
    · exact fun h => h.line

/-- A method other than POST, and no path: two errors. -/
def shortRequest : Request := ⟨1, false, [lit "GET", []], true, ⟨none, fun _ => (false, none), id⟩⟩

/-- Both errors are written, where one verdict is asked for. -/
theorem not_oneVerdict : ¬ OneVerdict (verdict ⟨false, .ignore, false, none⟩ start shortRequest .whole) := by
  rintro ⟨hle, -⟩
  have hlines : (verdict ⟨false, .ignore, false, none⟩ start shortRequest .whole).lines =
      [.error 501, .error 400] := by decide
  rw [hlines] at hle
  exact absurd hle (by decide)

/-! ## The errors and what is passed on -/

theorem ok_of_mem_chunkLines {ctx : BinRequestContext} {line : StatusLine}
    (h : line ∈ chunkLines ctx) : line = .ok := by
  unfold chunkLines at h
  split at h
  · exact List.mem_singleton.mp h
  · cases h

theorem ok_of_mem_providerLines {ctx : BinRequestContext} {msgs : List BinResponseHdr}
    {line : StatusLine} (h : line ∈ providerLines ctx msgs) : line = .ok := by
  induction msgs generalizing ctx with
  | nil => exact ok_of_mem_chunkLines h
  | cons rh rest ih =>
    rcases List.mem_append.mp h with h | h
    · exact ok_of_mem_chunkLines h
    · split at h
      · exact ih h
      · cases h

/-- An answer has no error in its status lines. -/
theorem ok_of_mem_lines {answer : Answer} {line : StatusLine} (h : line ∈ answer.lines) :
    line = .ok := by
  have hinvoke : ∀ {runs : List (List BinResponseHdr)} {ctx : BinRequestContext},
      line ∈ invokeLines ctx runs → line = .ok := by
    intro runs
    induction runs with
    | nil => exact fun h => by cases h
    | cons msgs rest ih =>
      intro ctx h
      rcases List.mem_append.mp h with h | h
      · exact ok_of_mem_providerLines h
      · exact ih h
  cases answer with
  | whole => exact List.mem_singleton.mp h
  | chunked r => exact hinvoke h

/-- These are the errors that `doHttpRequest` writes and the context that it passes on, and only
the status lines of the answer come behind them. -/
theorem verdict_served (cfg : Config) (p : Proc) (rq : Request) (answer : Answer) :
    (verdict cfg p rq answer).passed.map (·.1) = (doHttpRequest cfg p rq).ctx ∧
      ∃ rest, (verdict cfg p rq answer).lines =
        (doHttpRequest cfg p rq).errors.map .error ++ rest ∧ ∀ line ∈ rest, line = .ok := by
  have hnone : ∀ lines : List StatusLine, ∃ rest, lines = lines ++ rest ∧ ∀ line ∈ rest, line = .ok :=
    fun lines => ⟨[], (List.append_nil lines).symm, by simp⟩
  unfold verdict doHttpRequest
  cases readRequest cfg rq with
  | error errors => exact ⟨rfl, hnone _⟩
  | ok b =>
    dsimp only
    cases checkCertificate cfg p rq.libraries with
    | none => exact ⟨rfl, hnone _⟩
    | some r =>
      obtain ⟨p', principal⟩ := r
      dsimp only
      cases checkBasic cfg p' rq.libraries b principal with
      | none => exact ⟨rfl, hnone _⟩
      | some r =>
        obtain ⟨b', principal'⟩ := r
        dsimp only
        unfold conclude dispatch
        cases b'.contentLength with
        | none =>
          refine ⟨rfl, [], ?_, by simp⟩
          dsimp only
          rw [List.map_append, List.append_nil]
          split <;> rfl
        | some len =>
          dsimp only
          by_cases hpayload : (!rq.payload) = true
          · rw [if_pos hpayload, if_pos hpayload]
            refine ⟨rfl, [], ?_, by simp⟩
            rw [List.map_append, List.append_nil]
            rfl
          rw [if_neg hpayload, if_neg hpayload]
          by_cases hdiscard : b'.discardInput ≠ 0
          · rw [if_pos hdiscard, if_pos hdiscard]
            exact ⟨rfl, hnone _⟩
          rw [if_neg hdiscard, if_neg hdiscard]
          by_cases hpos : 0 < len
          · rw [if_pos hpos, if_pos hpos]
            exact ⟨rfl, answer.lines, rfl, fun line h => ok_of_mem_lines h⟩
          · rw [if_neg hpos, if_neg hpos]
            exact ⟨rfl, [.ok], rfl, by simp⟩

end Sfcb.HttpAdapter
