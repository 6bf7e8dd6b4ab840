import Sfcb.Lib.Numeral

/-!
# Who a request is from

`doHttpRequest` reads the headers of a request, finds out who it is from, and passes it
to `handleCimXmlRequest` with the principal it found (`httpAdapter.c`). A request can be
authenticated by a client certificate, by its `Authorization` header, or by having come
through the unix socket. Part of what it decides by is static: `doBa` says that basic
authentication is on, and is switched off by a certificate that was accepted; `x509` is
the certificate the last handshake came up with.

A process serves any number of requests, over one connection when the daemon forks and
over any number of them when it does not. `runEvents_authenticated` says when every
request it passes on was authenticated by itself, and under the principal that goes with
it.

Mirroring notes:
- What the authentication libraries answer is data of the request (`Libraries`). The
  exit for certificates sets the principal when it is asked (mode 0); when it is told to
  remember one (mode 1) its answer is not used.
- `getHdrs`, `getPayload` and the lines `getNextHdr` cuts are data of the request too.
  `exit(1)` ends the process, and so does reading through a null pointer.
- `find` in `decode64` gives an arbitrary byte for a character outside the alphabet.
- The error responses are recorded by their status codes.
-/

namespace Sfcb.HttpAdapter

open Sfcb.Lib

/-- A client certificate. -/
abbrev Cert := Nat

/-- `ccVerifyMode`. -/
inductive CCVerify where
  | ignore
  | accept
  | require
  deriving DecidableEq, Repr

/-- What the daemon was started with; `doBasicAuth` is on. -/
structure Config where
  sfcbSSLMode : Bool
  ccVerifyMode : CCVerify
  doUdsAuth : Bool
  /-- `httpMaxContentLength`, if it is configured -/
  httpMaxContentLength : Option Nat
  deriving DecidableEq, Repr

/-- A connection, with the certificate its client was verified by. -/
inductive Connection where
  | http
  | https (cert : Option Cert)
  | unix
  deriving DecidableEq, Repr

/-- The certificate of a connection. -/
def Connection.cert : Connection → Option Cert
  | .https cert => cert
  | _ => none

/-- The static variables of a process, and the connection it serves. -/
structure Proc where
  doBa : Bool
  x509 : Option Cert
  conn : Connection
  deriving DecidableEq, Repr

/-- The answers of the authentication libraries to one request. -/
structure Libraries where
  /-- `_sfcBasicAuthenticate`, if it was found -/
  authenticate : Option (CStr → Option CStr → Int)
  /-- `ccValidate` in mode 0, with the principal it sets -/
  ccValidate : Cert → Bool × Option CStr
  /-- what `find` gives for a character it does not know -/
  stray : UInt8 → UInt8

/-- A request as it is read from the connection. -/
structure Request where
  /-- the result of `getHdrs` -/
  getHdrs : Nat
  /-- `inBuf.size == 0` -/
  eof : Bool
  /-- the request line and the header lines -/
  lines : List CStr
  /-- `getPayload` succeeds -/
  payload : Bool
  libraries : Libraries

/-- The parts of `Buffer` the headers set, with `discardInput` and the status codes of the
errors written so far. -/
structure Buffer where
  authorization : CStr
  contentLength : Option Nat
  host : Option CStr
  trailers : Bool
  discardInput : Nat
  errors : List Nat
  deriving DecidableEq, Repr

/-- What `handleCimXmlRequest` is given. -/
structure Context where
  principal : Option CStr
  host : Option CStr
  teTrailers : Bool
  cimXmlDocLength : Nat
  deriving DecidableEq, Repr

/-- What serving a request leaves: the errors written, the context if the request was
passed on, and the process with what `doHttpRequest` returns, unless it ended. -/
structure Served where
  errors : List Nat
  ctx : Option Context
  proc : Option (Proc × Nat)
  deriving DecidableEq, Repr

/-! ## Basic authentication -/

/-- `cvt`. -/
def cvt : CStr := lit "ABCDEFGHIJKLMNOPQRSTUVWXYZabcdefghijklmnopqrstuvwxyz0123456789+/"

/-- `find(cvt, c)` as a byte; the terminator is behind the last character. -/
def find (stray : UInt8 → UInt8) (c : UInt8) : UInt8 :=
  if c = 0 then 64
  else
    match cvt.idxOf? c with
    | some i => UInt8.ofNat i
    | none => stray c

/-- The loop of `decode64`. -/
def decodeLoop (stray : UInt8 → UInt8) : CStr → CStr
  | [] => []
  | [a] => [find stray a <<< 2 ||| (find stray 0 >>> 4 &&& 3)]
  | [a, b] => [find stray a <<< 2 ||| (find stray b >>> 4 &&& 3)]
  | [a, b, c] =>
    let first := find stray a <<< 2 ||| (find stray b >>> 4 &&& 3)
    if c = 61 then [first]
    else [first, (find stray b <<< 4 &&& (240 : UInt8)) ||| (find stray c >>> 2 &&& 15)]
  | a :: b :: c :: d :: rest =>
    let first := find stray a <<< 2 ||| (find stray b >>> 4 &&& 3)
    if c = 61 then [first]
    else
      let second := (find stray b <<< 4 &&& (240 : UInt8)) ||| (find stray c >>> 2 &&& 15)
      if d = 61 then [first, second]
      else
        first :: second :: ((find stray c <<< 6 &&& (192 : UInt8)) ||| find stray d) ::
          decodeLoop stray rest

/-- `decode64`, read as a C string; `NULL` for the empty text. -/
def decode64 (stray : UInt8 → UInt8) (din : CStr) : Option CStr :=
  if din = [] then none else some ((decodeLoop stray din).takeWhile (· ≠ 0))

/-- The return codes of `baValidate`. -/
inductive Auth where
  | pass
  | fail
  | expired
  deriving DecidableEq, Repr

/-- The code for what `authenticate` returns. -/
def Auth.ofInt (ret : Int) : Auth :=
  if ret = 1 then .pass else if ret = -1 then .expired else .fail

/-- `baValidate`, with the principal it sets; `none` where it reads through a null
pointer. -/
def baValidate (libs : Libraries) (cred : CStr) : Option (Auth × Option CStr) :=
  if strncasecmp cred (lit "basic ") 6 ≠ 0 then some (.fail, none)
  else
    (decode64 libs.stray (cred.drop 6)).map fun auth =>
      let user := auth.takeWhile (· ≠ 58)
      let pw := if (58 : UInt8) ∈ auth then some (auth.drop (user.length + 1)) else none
      match libs.authenticate with
      | none => (.fail, none)
      | some authenticate => (.ofInt (authenticate user pw), some user)

/-! ## The headers -/

/-- `strpbrk` with the blanks that end a word of the request line. -/
def skipWord (s : CStr) : Option CStr :=
  if s.any (· ∈ lit " \t\r\n") then some (s.dropWhile (· ∉ lit " \t\r\n")).tail else none

/-- The request line has a method, a path and a protocol. -/
def goodRequestLine (line : CStr) : Bool :=
  match skipWord line with
  | none => false
  | some path => (skipWord (path.dropWhile (· ∈ lit " \t\r\n"))).isSome

/-- The value of a header line, if the line has this name. -/
def headerValue (name : CStr) (hdr : CStr) : Option CStr :=
  if strncasecmp hdr name name.length = 0 then
    some ((hdr.drop name.length).dropWhile (· ∈ lit " \t"))
  else none

/-- `strtoul` in base 10; `none` for `ERANGE`. -/
def strtoul (s : CStr) : Option Nat :=
  let signed := match s.dropWhile isSpace with
    | 45 :: ds => (true, (scanDigits 10 0 ds).1)
    | 43 :: ds => (false, (scanDigits 10 0 ds).1)
    | ds => (false, (scanDigits 10 0 ds).1)
  if 2 ^ 64 ≤ signed.2 then none
  else some (if signed.1 then (2 ^ 64 - signed.2) % 2 ^ 64 else signed.2)

/-- A `Content-Length` header; the errors written before the process ends. -/
def contentLength (cfg : Config) (b : Buffer) (cp : CStr) : Except (List Nat) Buffer :=
  if cp.head? = some 45 then .error (b.errors ++ [400])
  else
    match strtoul cp with
    | none => .error (b.errors ++ [400])
    | some clen =>
      match cfg.httpMaxContentLength with
      | none => .error (b.errors ++ [501])
      | some maxLen =>
        if maxLen = 0 then .error (b.errors ++ [501])
        else if 2 ^ 32 - 1 ≤ clen ∨ maxLen < clen then .error (b.errors ++ [413])
        else .ok { b with contentLength := some clen }

/-- Input that is discarded from here on, with one error written for it. -/
def Buffer.discard (b : Buffer) (code : Nat) : Buffer :=
  if b.discardInput = 0 then { b with discardInput := 2, errors := b.errors ++ [code] } else b

/-- One header line. -/
def readHeader (cfg : Config) (b : Buffer) (hdr : CStr) : Except (List Nat) Buffer :=
  match headerValue (lit "Authorization:") hdr with
  | some cp => .ok { b with authorization := cp }
  | none =>
    match headerValue (lit "Content-Length:") hdr with
    | some cp => contentLength cfg b cp
    | none =>
      if (headerValue (lit "Content-Type:") hdr).isSome then .ok b
      else
        match headerValue (lit "Host:") hdr with
        | some cp =>
          let b := { b with host := some cp }
          .ok (if 47 ∈ cp ∨ cp.head? = some 46 then b.discard 400 else b)
        | none =>
          if (headerValue (lit "User-Agent:") hdr).isSome then .ok b
          else
            match headerValue (lit "TE:") hdr with
            | some cp =>
              .ok (if strncasecmp cp (lit "trailers") 8 = 0 then { b with trailers := true } else b)
            | none =>
              .ok (if (headerValue (lit "Expect:") hdr).isSome then b.discard 417 else b)

/-- The header lines up to the empty one. -/
def readHeaders (cfg : Config) : Buffer → List CStr → Except (List Nat) Buffer
  | b, [] => .ok b
  | b, hdr :: rest =>
    if hdr = [] then .ok b
    else
      match readHeader cfg b hdr with
      | .error errors => .error errors
      | .ok b => readHeaders cfg b rest

/-- `inBuf` before the headers. -/
def emptyBuffer (discardInput : Nat) (errors : List Nat) : Buffer :=
  ⟨[], none, none, false, discardInput, errors⟩

/-- `doHttpRequest` up to the end of the headers. -/
def readRequest (cfg : Config) (rq : Request) : Except (List Nat) Buffer :=
  let b := match rq.getHdrs with
    | 1 => emptyBuffer 1 [501]
    | 2 => emptyBuffer 2 [400]
    | _ => emptyBuffer 0 []
  if rq.getHdrs = 3 then .error [400]
  else if rq.eof then .error b.errors
  else
    match rq.lines with
    | [] => .error (b.errors ++ [400])
    | line :: hdrs =>
      if goodRequestLine line then readHeaders cfg b hdrs else .error (b.errors ++ [400])

/-! ## The request -/

/-- What the certificate makes of the process and the principal; `none` where the process
ends for want of one. -/
def checkCertificate (cfg : Config) (p : Proc) (libs : Libraries) : Option (Proc × Option CStr) :=
  if p.doBa && cfg.sfcbSSLMode && decide (cfg.ccVerifyMode ≠ .ignore) then
    match p.x509 with
    | some cert =>
      let r := libs.ccValidate cert
      some (if r.1 then { p with doBa := false } else p, r.2)
    | none => if cfg.ccVerifyMode = .require then none else some (p, none)
  else some (p, none)

/-- The peer has passed the permissions of the unix socket. -/
def udsAuthorized (cfg : Config) (p : Proc) (b : Buffer) : Bool :=
  b.discardInput == 0 && cfg.doUdsAuth && p.conn == .unix

/-- The basic authentication of a request; `none` where `baValidate` reads through a null
pointer. -/
def checkBasic (cfg : Config) (p : Proc) (libs : Libraries) (b : Buffer)
    (principal : Option CStr) : Option (Buffer × Option CStr) :=
  if !udsAuthorized cfg p b && b.discardInput == 0 && p.doBa then
    (baValidate libs b.authorization).map fun r =>
      let principal := r.2.orElse fun _ => principal
      if r.1 ≠ .pass then
        ({ b with discardInput := 1, errors := b.errors ++ [401] }, principal)
      else (b, principal)
  else some (b, principal)

/-- The end of `doHttpRequest`. -/
def dispatch (p : Proc) (rq : Request) (b : Buffer) (principal : Option CStr) : Served :=
  match b.contentLength with
  | none => ⟨b.errors ++ (if b.discardInput = 0 then [411] else []), none, none⟩
  | some len =>
    if !rq.payload then ⟨b.errors ++ [400], none, none⟩
    else if b.discardInput ≠ 0 then ⟨b.errors, none, some (p, b.discardInput - 1)⟩
    else if 0 < len then ⟨b.errors, some ⟨principal, b.host, b.trailers, len⟩, some (p, 0)⟩
    else ⟨b.errors, none, some (p, 0)⟩

/-- `doHttpRequest`. -/
def doHttpRequest (cfg : Config) (p : Proc) (rq : Request) : Served :=
  match readRequest cfg rq with
  | .error errors => ⟨errors, none, none⟩
  | .ok b =>
    match checkCertificate cfg p rq.libraries with
    | none => ⟨b.errors, none, none⟩
    | some (p, principal) =>
      match checkBasic cfg p rq.libraries b principal with
      | none => ⟨b.errors, none, none⟩
      | some (b, principal) => dispatch p rq b principal

/-! ## A process -/

/-- A connection is accepted: the handshake of `https` sets `x509` if the client showed a
certificate and `get_cert` is installed; without one it fails if one is required. -/
def accept (cfg : Config) (p : Proc) : Connection → Option Proc
  | .https cert =>
    if !cfg.sfcbSSLMode then none
    else if cfg.ccVerifyMode = .ignore then some { p with conn := .https cert }
    else
      match cert with
      | some c => some { p with x509 := some c, conn := .https (some c) }
      | none =>
        if cfg.ccVerifyMode = .require then none else some { p with conn := .https none }
  | conn => some { p with conn := conn }

/-- A process with basic authentication on, and its first connection to come. -/
def start : Proc := ⟨true, none, .http⟩

/-- What a process goes through. -/
inductive Event where
  | accept (conn : Connection)
  | request (rq : Request)

/-- One event; `none` where the process ends. -/
def event (cfg : Config) (p : Proc) : Event → Option Proc
  | .accept conn => accept cfg p conn
  | .request rq => (doHttpRequest cfg p rq).proc.map (·.1)

/-- A sequence of events. -/
def runEvents (cfg : Config) : Proc → List Event → Option Proc
  | p, [] => some p
  | p, e :: es => (event cfg p e).bind fun p' => runEvents cfg p' es

/-- What is asked of a request that is passed on with a principal: its own
`Authorization` header was accepted for that principal, the certificate of its own
connection was, or it came from an authorized unix peer, which has none. -/
inductive Authenticated (cfg : Config) (conn : Connection) (rq : Request) :
    Option CStr → Prop where
  | basic {hdr cred user : CStr} (hhdr : hdr ∈ rq.lines)
      (hcred : headerValue (lit "Authorization:") hdr = some cred)
      (hpass : baValidate rq.libraries cred = some (.pass, some user)) :
      Authenticated cfg conn rq (some user)
  | certificate {cert : Cert} (hcert : conn.cert = some cert)
      (hvalid : (rq.libraries.ccValidate cert).1 = true) :
      Authenticated cfg conn rq (rq.libraries.ccValidate cert).2
  | peer (huds : cfg.doUdsAuth = true) (hunix : conn = .unix) : Authenticated cfg conn rq none

/-- Every request a process passes on is authenticated. -/
def AllAuthenticated (cfg : Config) : Proc → List Event → Prop
  | _, [] => True
  | p, e :: es =>
    (∀ rq ctx, e = .request rq → (doHttpRequest cfg p rq).ctx = some ctx →
      Authenticated cfg p.conn rq ctx.principal) ∧
    ∀ p', event cfg p e = some p' → AllAuthenticated cfg p' es

/-- What an event must meet. For a request that is not discarded: basic authentication
has not been switched off by an earlier one, and a certificate that is remembered is the
connection's own; or it has been switched off, and the request comes from an authorized
unix peer. -/
def MeetsEvent (cfg : Config) (p : Proc) : Event → Prop
  | .request rq =>
    ∀ b, readRequest cfg rq = .ok b → b.discardInput = 0 →
      (p.doBa = true ∧ ∀ cert, p.x509 = some cert → p.conn.cert = some cert) ∨
      (p.doBa = false ∧ cfg.doUdsAuth = true ∧ p.conn = .unix)
  | .accept _ => True

/-- Every event of a run meets the condition. -/
def AllMeetEvent (cfg : Config) : Proc → List Event → Prop
  | _, [] => True
  | p, e :: es => MeetsEvent cfg p e ∧ ∀ p', event cfg p e = some p' → AllMeetEvent cfg p' es

/-! ## What the phases of a request leave -/

section Phases

variable {cfg : Config} {p p' : Proc} {rq : Request} {b b' : Buffer}

theorem contentLength_authorization {cp : CStr} (h : contentLength cfg b cp = .ok b') :
    b'.authorization = b.authorization := by
  unfold contentLength at h
  split at h
  · cases h
  · split at h
    · cases h
    · split at h
      · cases h
      · split at h
        · cases h
        · split at h
          · cases h
          · cases h
            rfl

theorem discard_authorization (code : Nat) : (b.discard code).authorization = b.authorization := by
  unfold Buffer.discard
  split <;> rfl

/-- A header line sets `authorization` only if it is one. -/
theorem readHeader_authorization {hdr : CStr} (h : readHeader cfg b hdr = .ok b') :
    b'.authorization = b.authorization ∨
      headerValue (lit "Authorization:") hdr = some b'.authorization := by
  unfold readHeader at h
  split at h
  · next cp hcp =>
    cases h
    exact Or.inr hcp
  left
  split at h
  · exact contentLength_authorization h
  split at h
  · cases h
    rfl
  split at h
  · cases h
    split
    · exact discard_authorization 400
    · rfl
  split at h
  · cases h
    rfl
  split at h
  · cases h
    split <;> rfl
  · cases h
    split
    · exact discard_authorization 417
    · rfl

theorem readHeaders_authorization {lines : List CStr} (h : readHeaders cfg b lines = .ok b') :
    b'.authorization = b.authorization ∨
      ∃ hdr ∈ lines, headerValue (lit "Authorization:") hdr = some b'.authorization := by
  induction lines generalizing b with
  | nil =>
    cases h
    exact Or.inl rfl
  | cons hdr lines ih =>
    rw [readHeaders] at h
    split at h
    · cases h
      exact Or.inl rfl
    · split at h
      · cases h
      · next b₁ hb₁ =>
        rcases ih h with hsame | ⟨hdr', hmem, hval⟩
        · rcases readHeader_authorization hb₁ with hsame' | hval
          · exact Or.inl (hsame.trans hsame')
          · exact Or.inr ⟨hdr, List.mem_cons_self, by rw [hsame]; exact hval⟩
        · exact Or.inr ⟨hdr', List.mem_cons_of_mem hdr hmem, hval⟩

/-- The credentials of a request are empty, or come from one of its own header lines. -/
theorem readRequest_authorization (h : readRequest cfg rq = .ok b) :
    b.authorization = [] ∨
      ∃ hdr ∈ rq.lines, headerValue (lit "Authorization:") hdr = some b.authorization := by
  unfold readRequest at h
  dsimp only at h
  split at h
  · cases h
  split at h
  · cases h
  split at h
  · cases h
  · next line hdrs hlines =>
    split at h
    · rcases readHeaders_authorization h with hsame | ⟨hdr, hmem, hval⟩
      · left
        rw [hsame]
        split <;> rfl
      · exact Or.inr ⟨hdr, by rw [hlines]; exact List.mem_cons_of_mem line hmem, hval⟩
    · cases h

/-- A password is only accepted for a user. -/
theorem baValidate_pass {libs : Libraries} {cred : CStr} {principal : Option CStr}
    (h : baValidate libs cred = some (.pass, principal)) :
    cred ≠ [] ∧ ∃ user, principal = some user := by
  unfold baValidate at h
  split at h
  · cases h
  · next hbasic =>
    rw [Option.map_eq_some_iff] at h
    obtain ⟨auth, -, h⟩ := h
    refine ⟨?_, ?_⟩
    · rintro rfl
      exact hbasic (by decide)
    · cases hlib : libs.authenticate with
      | none =>
        rw [hlib] at h
        cases h
      | some authenticate =>
        rw [hlib] at h
        exact ⟨_, (Prod.mk.inj h).2.symm⟩

/-- A request is passed on only if it is not discarded, with the principal found. -/
theorem dispatch_ctx {principal : Option CStr} {ctx : Context}
    (h : (dispatch p rq b principal).ctx = some ctx) :
    b.discardInput = 0 ∧ ctx.principal = principal := by
  unfold dispatch at h
  split at h
  · cases h
  split at h
  · cases h
  split at h
  · cases h
  · next hkept =>
    split at h
    · cases h
      exact ⟨Decidable.not_not.mp hkept, rfl⟩
    · cases h

/-- How a request gets past the basic authentication: as an authorized peer, because it is
off, or by its password. -/
theorem checkBasic_cases {libs : Libraries} {principal principal' : Option CStr}
    (h : checkBasic cfg p libs b principal = some (b', principal')) (hkept : b'.discardInput = 0) :
    b.discardInput = 0 ∧
    ((cfg.doUdsAuth = true ∧ p.conn = .unix ∧ principal' = principal) ∨
      (p.doBa = false ∧ ¬ (cfg.doUdsAuth = true ∧ p.conn = .unix) ∧ principal' = principal) ∨
      ∃ user, baValidate libs b.authorization = some (.pass, some user) ∧
        principal' = some user) := by
  unfold checkBasic at h
  split at h
  · next hcheck =>
    simp only [Bool.and_eq_true, beq_iff_eq] at hcheck
    refine ⟨hcheck.1.2, Or.inr (Or.inr ?_)⟩
    rw [Option.map_eq_some_iff] at h
    obtain ⟨r, hr, h⟩ := h
    split at h
    · cases h
      cases hkept
    · next hpass =>
      obtain ⟨auth, found⟩ := r
      have hauth : auth = .pass := Decidable.not_not.mp hpass
      subst hauth
      obtain ⟨-, user, rfl⟩ := baValidate_pass hr
      exact ⟨user, hr, (Prod.mk.inj h).2.symm⟩
  · next hcheck =>
    cases h
    refine ⟨hkept, ?_⟩
    -- nothing is checked for a unix peer, or because basic authentication is off
    by_cases huds : cfg.doUdsAuth = true ∧ p.conn = .unix
    · exact Or.inl ⟨huds.1, huds.2, rfl⟩
    · refine Or.inr (Or.inl ⟨?_, huds, rfl⟩)
      have hnot : udsAuthorized cfg p b = false := by
        apply Bool.eq_false_iff.mpr
        intro hyes
        simp only [udsAuthorized, Bool.and_eq_true, beq_iff_eq] at hyes
        exact huds ⟨hyes.1.2, hyes.2⟩
      simpa [hnot, hkept] using hcheck

/-- What the certificate changes: nothing, or the principal, and basic authentication is
off if it was accepted. -/
theorem checkCertificate_cases {libs : Libraries} {principal : Option CStr}
    (h : checkCertificate cfg p libs = some (p', principal)) :
    p'.conn = p.conn ∧
    ((p'.doBa = p.doBa ∧ principal = none) ∨
      ∃ cert, p.doBa = true ∧ p.x509 = some cert ∧ principal = (libs.ccValidate cert).2 ∧
        p'.doBa = !(libs.ccValidate cert).1) := by
  unfold checkCertificate at h
  split at h
  · next hcheck =>
    simp only [Bool.and_eq_true] at hcheck
    split at h
    · next cert hcert =>
      cases h
      refine ⟨by split <;> rfl, Or.inr ⟨cert, hcheck.1.1, hcert, rfl, ?_⟩⟩
      cases hvalid : (libs.ccValidate cert).1 with
      | true => rfl
      | false => exact hcheck.1.1
    · split at h
      · cases h
      · cases h
        exact ⟨rfl, Or.inl ⟨rfl, rfl⟩⟩
  · cases h
    exact ⟨rfl, Or.inl ⟨rfl, rfl⟩⟩

/-- One request under the condition. -/
theorem doHttpRequest_authenticated {ctx : Context} (hmeets : MeetsEvent cfg p (.request rq))
    (h : (doHttpRequest cfg p rq).ctx = some ctx) : Authenticated cfg p.conn rq ctx.principal := by
  unfold doHttpRequest at h
  split at h
  · cases h
  next b hb =>
  split at h
  · cases h
  next p' principal hcert =>
  split at h
  · cases h
  next b' principal' hbasic =>
  obtain ⟨hkept, hprincipal⟩ := dispatch_ctx h
  rw [hprincipal]
  obtain ⟨hkept', hpassed⟩ := checkBasic_cases hbasic hkept
  obtain ⟨hconn, hcert⟩ := checkCertificate_cases hcert
  rw [hconn] at hpassed
  rcases hpassed with ⟨huds, hunix, rfl⟩ | ⟨hoff, hpeer, rfl⟩ | ⟨user, hpass, rfl⟩
  · -- a unix peer has no certificate, so none was checked
    rcases hcert with ⟨-, rfl⟩ | ⟨cert, hon, hx509, -, -⟩
    · exact .peer huds hunix
    · rcases hmeets b hb hkept' with ⟨-, hown⟩ | ⟨hoff, -, -⟩
      · have := hown cert hx509
        rw [hunix] at this
        cases this
      · rw [hoff] at hon
        cases hon
  · -- basic authentication was on, so the certificate of the connection was accepted
    rcases hmeets b hb hkept' with ⟨hon, hown⟩ | ⟨-, huds, hunix⟩
    · rcases hcert with ⟨hsame, -⟩ | ⟨cert, -, hx509, rfl, hoff'⟩
      · rw [hsame, hon] at hoff
        cases hoff
      · rw [hoff'] at hoff
        exact .certificate (hown cert hx509) (by simpa using hoff)
    · exact absurd ⟨huds, hunix⟩ hpeer
  · rcases readRequest_authorization hb with hempty | ⟨hdr, hhdr, hval⟩
    · exact absurd hempty (baValidate_pass hpass).1
    · exact .basic hhdr hval hpass

end Phases

/-- In every run of a process whose requests meet the condition, every request that is
passed on is authenticated by its own evidence, under the principal this established. -/
theorem runEvents_authenticated {cfg : Config} {es : List Event}
    (hmeets : AllMeetEvent cfg start es) : AllAuthenticated cfg start es := by
  generalize start = p at hmeets ⊢
  induction es generalizing p with
  | nil => trivial
  | cons e es ih =>
    refine ⟨?_, fun p' hp' => ih p' (hmeets.2 p' hp')⟩
    rintro rq ctx rfl hctx
    exact doHttpRequest_authenticated hmeets.1 hctx

/-- Certificates are looked at, but not required. -/
def sampleConfig : Config := ⟨true, .accept, false, some 1000⟩

/-- One user with a password, and one certificate. -/
def sampleLibraries : Libraries where
  authenticate := some fun user pw => if user = lit "u" ∧ pw = some (lit "p") then 1 else 0
  ccValidate cert := if cert = 7 then (true, some (lit "alice")) else (false, none)
  stray _ := 0

/-- A request without credentials. -/
def bareRequest : Request :=
  ⟨0, false, [lit "POST /cimom HTTP/1.1", lit "Content-Length: 10", []], true, sampleLibraries⟩

/-- A request with a user and a password. -/
def basicRequest : Request :=
  ⟨0, false, [lit "POST /cimom HTTP/1.1", lit "Authorization: Basic dTpw",
    lit "Content-Length: 10", []], true, sampleLibraries⟩

/-- A client without a certificate sends a password, and then one with a certificate sends
none. -/
def sampleEvents : List Event :=
  [.accept .http, .request basicRequest, .accept (.https (some 7)), .request bareRequest]

theorem sampleEvents_authenticated :
    runEvents sampleConfig start sampleEvents = some ⟨false, some 7, .https (some 7)⟩ ∧
      AllAuthenticated sampleConfig start sampleEvents := by
  refine ⟨by decide, runEvents_authenticated ⟨trivial, ?_⟩⟩
  rintro p ⟨⟩
  refine ⟨fun _ _ _ => Or.inl ⟨rfl, fun cert hcert => ?_⟩, fun p hp => ?_⟩
  · cases hcert
  have hp : p = ⟨true, none, .http⟩ := Option.some.inj (hp.symm.trans (by decide))
  subst hp
  refine ⟨trivial, ?_⟩
  rintro p ⟨⟩
  exact ⟨fun _ _ _ => Or.inl ⟨rfl, fun cert hcert => hcert⟩, fun _ _ => trivial⟩

/-- After a certificate was accepted, the next request of the same connection is passed on
without a principal; and so is a request of another connection that shows nothing at
all. -/
theorem bareRequest_not_authenticated :
    (∃ p, runEvents sampleConfig start [.accept (.https (some 7)), .request bareRequest] = some p ∧
      (doHttpRequest sampleConfig p bareRequest).ctx = some ⟨none, none, false, 10⟩ ∧
      ¬ Authenticated sampleConfig p.conn bareRequest none) ∧
    ∃ p, runEvents sampleConfig start
        [.accept (.https (some 7)), .request bareRequest, .accept .http] = some p ∧
      (doHttpRequest sampleConfig p bareRequest).ctx = some ⟨none, none, false, 10⟩ ∧
      ¬ Authenticated sampleConfig p.conn bareRequest none := by
  have hnone : ∀ conn : Connection, conn = .https (some 7) ∨ conn = .http →
      ¬ Authenticated sampleConfig conn bareRequest none := by
    intro conn hconn h
    generalize hprincipal : (none : Option CStr) = principal at h
    cases h with
    | basic => cases hprincipal
    | @certificate cert hcert hvalid =>
      rcases hconn with rfl | rfl
      · cases hcert
        cases hprincipal
      · cases hcert
    | peer huds => cases huds
  refine ⟨⟨⟨false, some 7, .https (some 7)⟩, by decide, by decide, hnone _ (Or.inl rfl)⟩,
    ⟨⟨false, some 7, .http⟩, by decide, by decide, hnone _ (Or.inr rfl)⟩⟩

end Sfcb.HttpAdapter
