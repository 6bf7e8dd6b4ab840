import Sfcb.Cmpi.Status

/-!
# Active filters

A provider process keeps the filters that are active in it on one list,
`activFilters`, and serves four kinds of indication requests: `activateFilter`,
`deactivateFilter`, `enableIndications` and `disableIndications` (`providerDrv.c`).
The list is shared by all providers that live in the process, and an entry is found
by its filter id alone.

`activateFilter_keeps_iff` says when a failed activation leaves the list as it was.
The rest is about whole runs: `run_balanced` says that a provider which was told of a
filter is told of its end once, and when its indications are disabled, as long as the
filters of a process belong to one provider.

Mirroring notes:
- `activFilters` is the list of the entries in the order of their `next` pointers;
  the tail saved in `prev` is a list too, and `NULL` is the empty one.
- What the parser and the provider's functions return is data of a request
  (`Outcomes`), so every combination of outcomes is covered.
- The `PreV1` branches call the same function with one more argument.
- A call into the provider is recorded with the arguments that name what it is about.
-/

namespace Sfcb.ProviderDrv

open Sfcb.Lib Sfcb.Cmpi

/-- `NativeSelectExp`: an entry of `activFilters`. -/
structure NativeSelectExp where
  queryString : CStr
  language : CStr
  sns : CStr
  filterId : UInt64
  deriving DecidableEq, Repr

/-- `IndicationReq`, with the class name of its `objectPath`. -/
structure IndicationReq where
  principal : CStr
  className : CStr
  query : CStr
  language : CStr
  type : CStr
  sns : CStr
  filterId : UInt64
  deriving DecidableEq, Repr

/-- A `ProviderInfo`: its name, and whether its `indicationMI` is set. -/
structure ProviderInfo where
  providerName : CStr
  indicationMI : Bool
  deriving DecidableEq, Repr

/-- A call of a function of an `indicationMI`. -/
inductive MICall where
  | authorizeFilter (se : NativeSelectExp) (type : Option CStr) (path owner : CStr)
  | mustPoll (se : NativeSelectExp) (type : Option CStr) (path : CStr)
  | activateFilter (se : NativeSelectExp) (type : Option CStr) (path : CStr)
  | deActivateFilter (se : NativeSelectExp) (type path : CStr)
  | enableIndications
  | disableIndications
  deriving DecidableEq, Repr

/-- A `BinResponseHdr` without chunks: its code, and the text of its segment. -/
structure BinResponseHdr where
  rc : Nat
  object : Option CStr
  deriving DecidableEq, Repr

/-- The response of an operation that went well. -/
def okResp : BinResponseHdr := ⟨1, none⟩

/-- `errorResp`. -/
def errorResp (rci : CMPIStatus) : BinResponseHdr := ⟨rci.rc + 1, some (rci.msg.getD [])⟩

/-- What the requests change in a provider process. -/
structure Proc where
  activFilters : List NativeSelectExp
  /-- `info->indicationEnabled` -/
  indicationEnabled : ProviderInfo → Bool

/-- What serving a request leaves: the process, the calls made, the response. -/
structure Served where
  proc : Proc
  calls : List (ProviderInfo × MICall)
  resp : BinResponseHdr

/-! ## The four operations -/

/-- The test both list walks make. -/
def IndicationReq.found (req : IndicationReq) (se : NativeSelectExp) : Bool :=
  se.filterId == req.filterId

/-- A filter with this id is on the list. -/
def Proc.isActive (s : Proc) (filterId : UInt64) : Bool :=
  s.activFilters.any fun se => se.filterId == filterId

/-- What the code called by `activateFilter` returns. -/
structure Outcomes where
  /-- `parseQuery`, zero for a query that parses -/
  parseQuery : Int
  authorizeFilter : CMPIStatus
  mustPoll : CMPIStatus
  activateFilter : CMPIStatus
  deriving DecidableEq, Repr

/-- `NewCMPISelectExp`. -/
def newCMPISelectExp (irc : Int) (query lang sns : CStr) :
    Option NativeSelectExp × CMPIStatus :=
  if irc ≠ 0 then (none, ⟨.ERR_INVALID_QUERY, none⟩)
  else (some ⟨query, lang, sns, 0⟩, .ok)

/-- `activateFilter` from the test of `indicationMI` on, with `se`, `type` and `prev`
as they stand there. -/
def authorizeAndActivate (s : Proc) (info : ProviderInfo) (req : IndicationReq)
    (out : Outcomes) (se : NativeSelectExp) (type : Option CStr)
    (prev : List NativeSelectExp) : Served :=
  if !info.indicationMI then
    ⟨s, [], errorResp ⟨.ERR_NOT_SUPPORTED, some (lit "Provider does not support indications")⟩⟩
  else
    let authorize := (info, MICall.authorizeFilter se type req.className req.principal)
    if out.authorizeFilter.rc ≠ .OK then
      ⟨{ s with activFilters := prev }, [authorize], errorResp out.authorizeFilter⟩
    else
      -- the status of `mustPoll` is overwritten by that of `activateFilter`
      let calls := [authorize, (info, .mustPoll se type req.className),
        (info, .activateFilter se type req.className)]
      if out.activateFilter.rc ≠ .OK then
        ⟨{ s with activFilters := prev }, calls, errorResp out.activateFilter⟩
      else ⟨s, calls, okResp⟩

/-- `activateFilter`. -/
def activateFilter (s : Proc) (info : ProviderInfo) (req : IndicationReq) (out : Outcomes) :
    Served :=
  match s.activFilters.find? req.found with
  | some se => authorizeAndActivate s info req out se none []
  | none =>
    match newCMPISelectExp out.parseQuery req.query req.language req.sns with
    | (none, rci) =>
      ⟨s, [], errorResp (if rci.rc ≠ .OK then rci else { rci with rc := .ERR_FAILED })⟩
    | (some se, _) =>
      let se := { se with filterId := req.filterId }
      authorizeAndActivate { s with activFilters := se :: s.activFilters } info req out se
        (some req.type) s.activFilters

/-- Sets `info->indicationEnabled`. -/
def Proc.setEnabled (s : Proc) (info : ProviderInfo) (enabled : Bool) : Proc :=
  { s with indicationEnabled := fun p => if p = info then enabled else s.indicationEnabled p }

/-- `deactivateFilter`; `rci` is what `deActivateFilter` returns. -/
def deactivateFilter (s : Proc) (info : ProviderInfo) (req : IndicationReq) (rci : CMPIStatus) :
    Served :=
  if !info.indicationMI || s.activFilters.isEmpty then ⟨s, [], okResp⟩
  else
    match s.activFilters.find? req.found with
    | none => ⟨s, [], okResp⟩
    | some se =>
      let rest := { s with activFilters := s.activFilters.eraseP req.found }
      let off := (info, MICall.deActivateFilter se [] req.className)
      let resp := if rci.rc = .OK then okResp else errorResp rci
      if rest.activFilters.isEmpty then
        ⟨rest.setEnabled info false, [(info, .disableIndications), off], resp⟩
      else ⟨rest, [off], resp⟩

/-- The refusal of a provider without an `indicationMI`. -/
def noIndicationMI (s : Proc) : Served :=
  ⟨s, [], errorResp ⟨.ERR_NOT_SUPPORTED, some (lit "Provider does not support indications")⟩⟩

/-- `enableIndications`. -/
def enableIndications (s : Proc) (info : ProviderInfo) : Served :=
  if !info.indicationMI then noIndicationMI s
  else if !s.indicationEnabled info then
    ⟨s.setEnabled info true, [(info, .enableIndications)], okResp⟩
  else ⟨s, [], okResp⟩

/-- `disableIndications`. -/
def disableIndications (s : Proc) (info : ProviderInfo) : Served :=
  if !info.indicationMI then noIndicationMI s
  else if s.indicationEnabled info then
    ⟨s.setEnabled info false, [(info, .disableIndications)], okResp⟩
  else ⟨s, [], okResp⟩

/-! ## A failed activation -/

theorem isActive_iff {s : Proc} {filterId : UInt64} :
    s.isActive filterId = true ↔ ∃ se ∈ s.activFilters, se.filterId = filterId := by
  simp [Proc.isActive]

/-- `find?` finds an active filter under its id. -/
theorem find_of_isActive {s : Proc} {req : IndicationReq} (h : s.isActive req.filterId = true) :
    ∃ se ∈ s.activFilters, se.filterId = req.filterId ∧
      s.activFilters.find? req.found = some se := by
  cases hfind : s.activFilters.find? req.found with
  | none =>
    obtain ⟨se, hmem, hid⟩ := isActive_iff.mp h
    have := List.find?_eq_none.mp hfind se hmem
    simp [IndicationReq.found, hid] at this
  | some se =>
    have hfound := List.find?_some hfind
    exact ⟨se, List.mem_of_find?_eq_some hfind, by simpa [IndicationReq.found] using hfound, rfl⟩

theorem find_of_not_isActive {s : Proc} {req : IndicationReq}
    (h : s.isActive req.filterId = false) : s.activFilters.find? req.found = none := by
  apply List.find?_eq_none.mpr
  intro se hmem
  simp only [Proc.isActive, List.any_eq_false] at h
  exact h se hmem

/-- The entry made for a request whose filter is not on the list. -/
def IndicationReq.entry (req : IndicationReq) : NativeSelectExp :=
  ⟨req.query, req.language, req.sns, req.filterId⟩

theorem activateFilter_active {s : Proc} {req : IndicationReq}
    (h : s.isActive req.filterId = true) (info : ProviderInfo) (out : Outcomes) :
    ∃ se ∈ s.activFilters, se.filterId = req.filterId ∧
      activateFilter s info req out = authorizeAndActivate s info req out se none [] := by
  obtain ⟨se, hmem, hid, hfind⟩ := find_of_isActive h
  exact ⟨se, hmem, hid, by rw [activateFilter, hfind]⟩

theorem activateFilter_new {s : Proc} {info : ProviderInfo} {req : IndicationReq}
    {out : Outcomes} (h : s.isActive req.filterId = false) (hparse : out.parseQuery = 0) :
    activateFilter s info req out =
      authorizeAndActivate { s with activFilters := req.entry :: s.activFilters } info req out
        req.entry (some req.type) s.activFilters := by
  rw [activateFilter, find_of_not_isActive h]
  simp [newCMPISelectExp, hparse, IndicationReq.entry]

theorem activateFilter_unparsed {s : Proc} {info : ProviderInfo} {req : IndicationReq}
    {out : Outcomes} (h : s.isActive req.filterId = false) (hparse : out.parseQuery ≠ 0) :
    activateFilter s info req out = ⟨s, [], errorResp ⟨.ERR_INVALID_QUERY, none⟩⟩ := by
  rw [activateFilter, find_of_not_isActive h]
  simp [newCMPISelectExp, hparse]

/-- A response that reports an error. -/
def BinResponseHdr.isError (resp : BinResponseHdr) : Bool := resp.rc != 1

@[simp] theorem okResp_isError : okResp.isError = false := rfl

@[simp] theorem errorResp_isError {rci : CMPIStatus} :
    (errorResp rci).isError = true ↔ rci.rc ≠ .OK := by
  simp [BinResponseHdr.isError, errorResp]

/-- The last part of `activateFilter` puts `prev` back when a call failed, and leaves
the list alone when there was no function to call. -/
theorem authorizeAndActivate_error {s : Proc} {info : ProviderInfo} {req : IndicationReq}
    {out : Outcomes} {se : NativeSelectExp} {type : Option CStr} {prev : List NativeSelectExp}
    (herr : (authorizeAndActivate s info req out se type prev).resp.isError = true) :
    (authorizeAndActivate s info req out se type prev).proc.activFilters =
      if info.indicationMI then prev else s.activFilters := by
  unfold authorizeAndActivate at herr ⊢
  split
  · next hmi => simp [(Bool.not_eq_true' _).mp hmi]
  · next hmi =>
    simp only [Bool.not_eq_true, Bool.not_eq_false'] at hmi
    rw [if_neg (by simp [hmi])] at herr
    split
    · simp
    · next hauth =>
      rw [if_neg hauth] at herr
      split
      · simp
      · next hact =>
        rw [if_neg hact] at herr
        simp at herr

theorem authorizeAndActivate_isError {s : Proc} {info : ProviderInfo} {req : IndicationReq}
    {out : Outcomes} {se : NativeSelectExp} {type : Option CStr} {prev : List NativeSelectExp} :
    (authorizeAndActivate s info req out se type prev).resp.isError = true ↔
      info.indicationMI = false ∨ out.authorizeFilter.rc ≠ .OK ∨ out.activateFilter.rc ≠ .OK := by
  unfold authorizeAndActivate
  by_cases hmi : info.indicationMI <;> by_cases hauth : out.authorizeFilter.rc = .OK <;>
    by_cases hact : out.activateFilter.rc = .OK <;> simp [hmi, hauth, hact]

/-- What must hold of the list, the provider and the calls for a failed activation to
leave the list as it was: a filter that is on the list already may only be refused for
want of an `indicationMI`, a new one only by its query or by the provider. -/
def KeepsOnError (s : Proc) (info : ProviderInfo) (req : IndicationReq) (out : Outcomes) : Prop :=
  if s.isActive req.filterId then
    info.indicationMI = false ∨ (out.authorizeFilter.rc = .OK ∧ out.activateFilter.rc = .OK)
  else info.indicationMI = true ∨ out.parseQuery ≠ 0

/-- A failed activation leaves the filters of the list as they were exactly under
`KeepsOnError`. -/
theorem activateFilter_keeps_iff (s : Proc) (info : ProviderInfo) (req : IndicationReq)
    (out : Outcomes) :
    ((activateFilter s info req out).resp.isError = true →
        ∀ se, se ∈ (activateFilter s info req out).proc.activFilters ↔ se ∈ s.activFilters) ↔
      KeepsOnError s info req out := by
  unfold KeepsOnError
  by_cases hactive : s.isActive req.filterId = true
  · -- the filter is there already: `prev` was never set
    rw [if_pos hactive]
    obtain ⟨se, hmem, -, heq⟩ := activateFilter_active hactive info out
    rw [heq]
    cases hmi : info.indicationMI with
    | false =>
      simp only [true_or, iff_true]
      intro herr
      rw [authorizeAndActivate_error herr]
      simp [hmi]
    | true =>
      simp only [reduceCtorEq, false_or]
      constructor
      · intro hkeeps
        apply Classical.byContradiction
        intro hfail
        have herr : (authorizeAndActivate s info req out se none []).resp.isError = true := by
          rw [authorizeAndActivate_isError]
          exact Or.inr (Decidable.not_and_iff_or_not.mp hfail)
        have hlost := (hkeeps herr se).mpr hmem
        rw [authorizeAndActivate_error herr] at hlost
        simp [hmi] at hlost
      · intro hok herr
        rw [authorizeAndActivate_isError] at herr
        simp [hmi, hok] at herr
  · rw [if_neg hactive]
    rw [Bool.not_eq_true] at hactive
    by_cases hparse : out.parseQuery = 0
    · rw [activateFilter_new hactive hparse]
      cases hmi : info.indicationMI with
      | true =>
        simp only [true_or, iff_true]
        intro herr
        rw [authorizeAndActivate_error herr]
        simp [hmi]
      | false =>
        -- the new entry stays, and it was not there before
        simp only [reduceCtorEq, hparse, ne_eq, not_true_eq_false, or_self, iff_false]
        intro hkeeps
        have herr : (authorizeAndActivate { s with activFilters := req.entry :: s.activFilters }
            info req out req.entry (some req.type) s.activFilters).resp.isError = true :=
          authorizeAndActivate_isError.mpr (Or.inl hmi)
        have hthere := hkeeps herr req.entry
        rw [authorizeAndActivate_error herr] at hthere
        have hmem : req.entry ∈ s.activFilters := hthere.mp (by simp [hmi])
        have := isActive_iff.mpr ⟨req.entry, hmem, rfl⟩
        rw [IndicationReq.entry, hactive] at this
        cases this
    · rw [activateFilter_unparsed hactive hparse]
      simp [hparse]

/-- The provider of the examples. -/
def sampleProvider : ProviderInfo := ⟨lit "IndProvider", true⟩

/-- A request of the examples for the filter with this id. -/
def sampleRequest (filterId : UInt64) : IndicationReq :=
  ⟨lit "root", lit "CIM_InstCreation", lit "SELECT * FROM CIM_InstCreation", lit "WQL",
    lit "CIM_InstCreation", lit "root/cimv2", filterId⟩

/-- Two filters are active, and a second activation of one of them is refused by
`authorizeFilter`: the list is empty afterwards. -/
theorem activateFilter_drops_all :
    let s : Proc := ⟨[(sampleRequest 1).entry, (sampleRequest 2).entry], fun _ => true⟩
    let out : Outcomes := ⟨0, ⟨.ERR_FAILED, none⟩, .ok, .ok⟩
    (activateFilter s sampleProvider (sampleRequest 2) out).resp.isError = true ∧
      (activateFilter s sampleProvider (sampleRequest 2) out).proc.activFilters = [] ∧
      ¬ ((activateFilter s sampleProvider (sampleRequest 2) out).resp.isError = true →
        ∀ se, se ∈ (activateFilter s sampleProvider (sampleRequest 2) out).proc.activFilters ↔
          se ∈ s.activFilters) := by
  refine ⟨by decide, by decide, fun h => ?_⟩
  have := (h (by decide) (sampleRequest 1).entry).mpr (by decide)
  revert this
  decide

/-! ## Runs

A run is a list of requests served one after the other. Its history is the process it
leaves and every call that was made of a provider's functions, oldest first. -/

/-- A request to a provider of the process, with the outcomes of the calls it makes. -/
inductive Request where
  | activate (info : ProviderInfo) (req : IndicationReq) (out : Outcomes)
  | deactivate (info : ProviderInfo) (req : IndicationReq) (rci : CMPIStatus)
  | enable (info : ProviderInfo)
  | disable (info : ProviderInfo)
  deriving DecidableEq, Repr

/-- Serves one request. -/
def serve (s : Proc) : Request → Served
  | .activate info req out => activateFilter s info req out
  | .deactivate info req rci => deactivateFilter s info req rci
  | .enable info => enableIndications s info
  | .disable info => disableIndications s info

/-- A process with the calls made so far. -/
structure History where
  proc : Proc
  calls : List (ProviderInfo × MICall)

/-- A process in which nothing was activated yet. -/
def History.start : History := ⟨⟨[], fun _ => false⟩, []⟩

/-- The history after one more request. -/
def History.next (h : History) (r : Request) : History :=
  ⟨(serve h.proc r).proc, h.calls ++ (serve h.proc r).calls⟩

/-- The history of a run. -/
def runRequests (h : History) (rs : List Request) : History := rs.foldl History.next h

/-- Where a provider stands with a filter: not told of it, told of it, or told of its
end when it did not know it. -/
inductive Standing where
  | idle | told | broken
  deriving DecidableEq, Repr

/-- How a call moves the standing of `info` with the filter `filterId`. -/
def Standing.after (info : ProviderInfo) (filterId : UInt64) (st : Standing)
    (c : ProviderInfo × MICall) : Standing :=
  if c.1 = info then
    match c.2 with
    | .activateFilter se _ _ =>
      if se.filterId = filterId then (if st = .broken then .broken else .told) else st
    | .deActivateFilter se _ _ =>
      if se.filterId = filterId then (if st = .told then .idle else .broken) else st
    | _ => st
  else st

/-- The standing after a list of calls. It is `idle` when every activation, or row of
activations, was answered by exactly one `deActivateFilter`. -/
def standing (calls : List (ProviderInfo × MICall)) (info : ProviderInfo) (filterId : UInt64) :
    Standing :=
  calls.foldl (Standing.after info filterId) .idle

/-- The classes a filter was activated for and not deactivated since, by provider. -/
def openClasses : List (ProviderInfo × UInt64 × CStr) → List Request →
    List (ProviderInfo × UInt64 × CStr)
  | opened, [] => opened
  | opened, .activate info req _ :: rs => openClasses ((info, req.filterId, req.className) :: opened) rs
  | opened, .deactivate info req _ :: rs =>
    openClasses (opened.filter fun e => e != (info, req.filterId, req.className)) rs
  | opened, _ :: rs => openClasses opened rs

/-- The filter was deactivated for all its classes. -/
def Closed (rs : List Request) (filterId : UInt64) : Prop :=
  ∀ e ∈ openClasses [] rs, e.2.1 ≠ filterId

/-- A filter that `info` was told of is still active. -/
def History.Holds (h : History) (info : ProviderInfo) : Prop :=
  ∃ se ∈ h.proc.activFilters, standing h.calls info se.filterId = .told

/-- A deactivation disables the provider's indications exactly when it takes its last
active filter away. -/
def DisablesExactly (h : History) : Request → Prop
  | .deactivate info req rci =>
    (info, MICall.disableIndications) ∈ (serve h.proc (.deactivate info req rci)).calls ↔
      h.Holds info ∧ ¬ (h.next (.deactivate info req rci)).Holds info
  | _ => True

/-- What a request must meet: a deactivation that finds its filter comes to the one
provider that was told of the filter, and where the provider has no other active filter
the list has none either. -/
def Meets (h : History) : Request → Prop
  | .deactivate info req _ =>
    info.indicationMI = true → h.proc.isActive req.filterId = true →
      (∀ p, standing h.calls p req.filterId = .told ↔ p = info) ∧
      (h.proc.activFilters.length = 1 ∨
        ∃ se ∈ h.proc.activFilters, se.filterId ≠ req.filterId ∧
          standing h.calls info se.filterId = .told)
  | _ => True

/-- A run of successful requests. -/
def AllSucceed : History → List Request → Prop
  | _, [] => True
  | h, r :: rs => (serve h.proc r).resp.isError = false ∧ AllSucceed (h.next r) rs

/-- Every request of a run meets the condition. -/
def AllMeet : History → List Request → Prop
  | _, [] => True
  | h, r :: rs => Meets h r ∧ AllMeet (h.next r) rs

/-! ### What a request does

One lemma per operation: the calls it makes, and the list it leaves. -/

/-- A successful activation tells the provider of the filter, which is on the list
afterwards with every filter that was there. -/
theorem activateFilter_ok {s : Proc} {info : ProviderInfo} {req : IndicationReq} {out : Outcomes}
    (hok : (activateFilter s info req out).resp.isError = false) :
    info.indicationMI = true ∧
    (∀ f, s.isActive f = true ∨ f = req.filterId →
      (activateFilter s info req out).proc.isActive f = true) ∧
    ∃ se type, se.filterId = req.filterId ∧ (activateFilter s info req out).calls =
      [(info, .authorizeFilter se type req.className req.principal),
        (info, .mustPoll se type req.className), (info, .activateFilter se type req.className)] := by
  -- the last part of the function, for whatever entry and list it is reached with
  have hlast : ∀ {s' : Proc} {se : NativeSelectExp} {type : Option CStr}
      {prev : List NativeSelectExp},
      (authorizeAndActivate s' info req out se type prev).resp.isError = false →
      info.indicationMI = true ∧ authorizeAndActivate s' info req out se type prev =
        ⟨s', [(info, .authorizeFilter se type req.className req.principal),
          (info, .mustPoll se type req.className),
          (info, .activateFilter se type req.className)], okResp⟩ := by
    intro s' se type prev hok
    have hnot := mt authorizeAndActivate_isError.mpr (Bool.eq_false_iff.mp hok)
    simp only [not_or, Bool.not_eq_false, Decidable.not_not] at hnot
    exact ⟨hnot.1, by simp [authorizeAndActivate, hnot]⟩
  cases hactive : s.isActive req.filterId with
  | true =>
    obtain ⟨se, -, hid, heq⟩ := activateFilter_active hactive info out
    rw [heq] at hok ⊢
    obtain ⟨hmi, hserved⟩ := hlast hok
    rw [hserved]
    refine ⟨hmi, ?_, se, none, hid, rfl⟩
    rintro f (hf | rfl)
    · exact hf
    · exact hactive
  | false =>
    by_cases hparse : out.parseQuery = 0
    · rw [activateFilter_new hactive hparse] at hok ⊢
      obtain ⟨hmi, hserved⟩ := hlast hok
      rw [hserved]
      refine ⟨hmi, ?_, req.entry, some req.type, rfl, rfl⟩
      rintro f (hf | rfl)
      · obtain ⟨se, hmem, hid⟩ := isActive_iff.mp hf
        exact isActive_iff.mpr ⟨se, List.mem_cons_of_mem _ hmem, hid⟩
      · exact isActive_iff.mpr ⟨req.entry, List.mem_cons_self, rfl⟩
    · rw [activateFilter_unparsed hactive hparse] at hok
      simp [BinResponseHdr.isError, errorResp] at hok

/-- A deactivation that has nothing to do. -/
theorem deactivateFilter_nothing {s : Proc} {info : ProviderInfo} {req : IndicationReq}
    (rci : CMPIStatus) (h : info.indicationMI = false ∨ s.isActive req.filterId = false) :
    (deactivateFilter s info req rci).proc = s ∧ (deactivateFilter s info req rci).calls = [] := by
  unfold deactivateFilter
  split
  · exact ⟨rfl, rfl⟩
  · next hguard =>
    rcases h with hmi | hgone
    · simp [hmi] at hguard
    · rw [find_of_not_isActive hgone]
      exact ⟨rfl, rfl⟩

/-- A deactivation that finds its filter takes it off the list and tells the provider,
after disabling its indications if the list is empty now. -/
theorem deactivateFilter_found {s : Proc} {info : ProviderInfo} {req : IndicationReq}
    (rci : CMPIStatus) (hmi : info.indicationMI = true)
    (hactive : s.isActive req.filterId = true) :
    (deactivateFilter s info req rci).proc.activFilters = s.activFilters.eraseP req.found ∧
    ∃ se, se.filterId = req.filterId ∧ (deactivateFilter s info req rci).calls =
      (if (s.activFilters.eraseP req.found).isEmpty then [(info, MICall.disableIndications)]
        else []) ++ [(info, .deActivateFilter se [] req.className)] := by
  obtain ⟨se, hmem, hid, hfind⟩ := find_of_isActive hactive
  have hguard : (!info.indicationMI || s.activFilters.isEmpty) = false := by
    cases hlist : s.activFilters with
    | nil => rw [hlist] at hmem; cases hmem
    | cons => simp [hmi]
  unfold deactivateFilter
  rw [if_neg (by rw [hguard]; exact Bool.false_ne_true), hfind]
  dsimp only
  split
  · exact ⟨rfl, se, hid, by simp⟩
  · exact ⟨rfl, se, hid, by simp⟩

/-- Enabling and disabling tell no provider of a filter. -/
theorem switch_calls {s : Proc} {info : ProviderInfo} {c : ProviderInfo × MICall} :
    (c ∈ (enableIndications s info).calls → c.2 = .enableIndications) ∧
      (c ∈ (disableIndications s info).calls → c.2 = .disableIndications) := by
  unfold enableIndications disableIndications
  constructor
  · split
    · simp [noIndicationMI]
    · split <;> simp +contextual
  · split
    · simp [noIndicationMI]
    · split <;> simp +contextual

theorem switch_activFilters {s : Proc} {info : ProviderInfo} :
    (enableIndications s info).proc.activFilters = s.activFilters ∧
      (disableIndications s info).proc.activFilters = s.activFilters := by
  unfold enableIndications disableIndications
  constructor
  · split
    · rfl
    · split <;> rfl
  · split
    · rfl
    · split <;> rfl

/-! ### Standings along a run -/

theorem standing_append {calls new : List (ProviderInfo × MICall)} {info : ProviderInfo}
    {f : UInt64} :
    standing (calls ++ new) info f =
      new.foldl (Standing.after info f) (standing calls info f) := by
  simp [standing]

/-- Calls that are neither an activation nor a deactivation do not count. -/
theorem standing_append_of_quiet {calls new : List (ProviderInfo × MICall)} {info : ProviderInfo}
    {f : UInt64} (hquiet : ∀ c ∈ new, c.2 = .enableIndications ∨ c.2 = .disableIndications) :
    standing (calls ++ new) info f = standing calls info f := by
  rw [standing_append]
  induction new with
  | nil => rfl
  | cons c new ih =>
    have hhead : Standing.after info f (standing calls info f) c = standing calls info f := by
      rcases hquiet c List.mem_cons_self with h | h <;> simp [Standing.after, h]
    rw [List.foldl_cons, hhead]
    exact ih fun c hc => hquiet c (List.mem_cons_of_mem _ hc)

/-- The standings after an activation. -/
theorem standing_activate {calls : List (ProviderInfo × MICall)} {info p : ProviderInfo}
    {f : UInt64} {se : NativeSelectExp} {type : Option CStr} {path owner : CStr} :
    standing (calls ++ [(info, .authorizeFilter se type path owner), (info, .mustPoll se type path),
        (info, .activateFilter se type path)]) p f =
      if p = info ∧ f = se.filterId then
        (if standing calls p f = .broken then .broken else .told)
      else standing calls p f := by
  rw [standing_append]
  by_cases hp : info = p
  · by_cases hf : se.filterId = f
    · simp [Standing.after, hp, hf]
    · simp [Standing.after, hf, Ne.symm hf]
  · simp [Standing.after, hp, Ne.symm hp]

/-- The standings after a deactivation. -/
theorem standing_deactivate {calls : List (ProviderInfo × MICall)} {info p : ProviderInfo}
    {f : UInt64} {se : NativeSelectExp} {path : CStr} {disable : Bool} :
    standing (calls ++ ((if disable then [(info, MICall.disableIndications)] else []) ++
        [(info, .deActivateFilter se [] path)])) p f =
      if p = info ∧ f = se.filterId then
        (if standing calls p f = .told then .idle else .broken)
      else standing calls p f := by
  have hquiet : ∀ c ∈ (if disable then [(info, MICall.disableIndications)] else []),
      c.2 = MICall.enableIndications ∨ c.2 = MICall.disableIndications := by
    intro c hc
    split at hc
    · rw [List.mem_singleton.mp hc]; exact Or.inr rfl
    · cases hc
  rw [← List.append_assoc, standing_append, standing_append_of_quiet hquiet]
  by_cases hp : info = p
  · by_cases hf : se.filterId = f
    · simp [Standing.after, hp, hf]
    · simp [Standing.after, hf, Ne.symm hf]
  · simp [Standing.after, hp, Ne.symm hp]

/-- The invariant of a run: no provider was told of an end it did not expect, and a
filter that a provider was told of is on the list and open for one of its classes. -/
structure Balanced (h : History) (opened : List (ProviderInfo × UInt64 × CStr)) : Prop where
  sound : ∀ info f, standing h.calls info f ≠ .broken
  listed : ∀ info f, standing h.calls info f = .told → h.proc.isActive f = true
  opened : ∀ info f, standing h.calls info f = .told → ∃ c, (info, f, c) ∈ opened
  able : ∀ info f, standing h.calls info f = .told → info.indicationMI = true

theorem balanced_start : Balanced .start [] := by
  constructor <;> intro info f h <;> cases h

/-- What the deactivation of a filter keeps on the list. -/
theorem isActive_eraseP {s s' : Proc} {req : IndicationReq} {f : UInt64}
    (hlist : s'.activFilters = s.activFilters.eraseP req.found) (hne : f ≠ req.filterId)
    (hf : s.isActive f = true) : s'.isActive f = true := by
  obtain ⟨se, hmem, rfl⟩ := isActive_iff.mp hf
  refine isActive_iff.mpr ⟨se, ?_, rfl⟩
  rw [hlist]
  exact (List.mem_eraseP_of_neg (by simpa [IndicationReq.found] using hne)).mpr hmem

section Step

variable {h : History} {opened : List (ProviderInfo × UInt64 × CStr)} {info : ProviderInfo}
  {req : IndicationReq} {out : Outcomes} {rci : CMPIStatus}

theorem Balanced.activate (hinv : Balanced h opened)
    (hok : (activateFilter h.proc info req out).resp.isError = false) :
    Balanced (h.next (.activate info req out)) ((info, req.filterId, req.className) :: opened) := by
  obtain ⟨hmi, hkept, se, type, hid, hcalls⟩ := activateFilter_ok hok
  have hst : ∀ p f, standing (h.next (.activate info req out)).calls p f =
      if p = info ∧ f = req.filterId then .told else standing h.calls p f := by
    intro p f
    rw [History.next, serve, hcalls, standing_activate, hid, if_neg (hinv.sound p f)]
  -- whoever is told of a filter was told before or is told now
  have htold : ∀ {p f}, standing (h.next (.activate info req out)).calls p f = .told →
      (p = info ∧ f = req.filterId) ∨ standing h.calls p f = .told := by
    intro p f h
    rw [hst] at h
    split at h
    · next hnew => exact Or.inl hnew
    · exact Or.inr h
  refine ⟨?_, ?_, ?_, ?_⟩
  · intro p f
    rw [hst]
    split
    · exact Standing.noConfusion
    · exact hinv.sound p f
  · intro p f h
    rcases htold h with ⟨-, hf⟩ | h
    · exact hkept f (Or.inr hf)
    · exact hkept f (Or.inl (hinv.listed p f h))
  · intro p f h
    rcases htold h with ⟨rfl, rfl⟩ | h
    · exact ⟨req.className, List.mem_cons_self⟩
    · obtain ⟨c, hc⟩ := hinv.opened p f h
      exact ⟨c, List.mem_cons_of_mem _ hc⟩
  · intro p f h
    rcases htold h with ⟨rfl, -⟩ | h
    · exact hmi
    · exact hinv.able p f h

/-- After a deactivation under the condition nobody is told of the filter any more, and
all else is as it was. -/
theorem standing_next_found (hinv : Balanced h opened) (hmi : info.indicationMI = true)
    (hactive : h.proc.isActive req.filterId = true)
    (hown : ∀ p, standing h.calls p req.filterId = .told ↔ p = info) (p : ProviderInfo)
    (f : UInt64) :
    standing (h.next (.deactivate info req rci)).calls p f =
      if f = req.filterId then .idle else standing h.calls p f := by
  obtain ⟨-, se, hid, hcalls⟩ := deactivateFilter_found rci hmi hactive
  rw [History.next, serve, hcalls, standing_deactivate, hid]
  by_cases hf : f = req.filterId
  · rw [hf, if_pos rfl]
    by_cases hp : p = info
    · simp [hp, (hown info).mpr rfl]
    · rw [if_neg (fun h => hp h.1)]
      cases hp' : standing h.calls p req.filterId with
      | idle => rfl
      | told => exact absurd ((hown p).mp hp') hp
      | broken => exact absurd hp' (hinv.sound p _)
  · rw [if_neg (fun h => hf h.2), if_neg hf]

/-- Who is told of a filter after such a deactivation was told of it before, and it is
another filter. -/
theorem told_next_found (hinv : Balanced h opened) (hmi : info.indicationMI = true)
    (hactive : h.proc.isActive req.filterId = true)
    (hown : ∀ p, standing h.calls p req.filterId = .told ↔ p = info) {p : ProviderInfo}
    {f : UInt64} :
    standing (h.next (.deactivate info req rci)).calls p f = .told ↔
      f ≠ req.filterId ∧ standing h.calls p f = .told := by
  rw [standing_next_found hinv hmi hactive hown]
  by_cases hf : f = req.filterId
  · simp [hf]
  · simp [hf]

theorem Balanced.deactivate_found (hinv : Balanced h opened) (hmi : info.indicationMI = true)
    (hactive : h.proc.isActive req.filterId = true)
    (hown : ∀ p, standing h.calls p req.filterId = .told ↔ p = info) :
    Balanced (h.next (.deactivate info req rci))
      (opened.filter fun e => e != (info, req.filterId, req.className)) := by
  have htold := @told_next_found h opened info req rci hinv hmi hactive hown
  refine ⟨?_, ?_, ?_, ?_⟩
  · intro p f
    rw [standing_next_found hinv hmi hactive hown]
    split
    · exact Standing.noConfusion
    · exact hinv.sound p f
  · intro p f h
    obtain ⟨hne, hold⟩ := htold.mp h
    exact isActive_eraseP (deactivateFilter_found rci hmi hactive).1 hne (hinv.listed p f hold)
  · intro p f h
    obtain ⟨hne, hold⟩ := htold.mp h
    obtain ⟨c, hc⟩ := hinv.opened p f hold
    refine ⟨c, List.mem_filter.mpr ⟨hc, ?_⟩⟩
    simp [hne]
  · intro p f h
    exact hinv.able p f (htold.mp h).2

theorem next_nothing
    (h' : info.indicationMI = false ∨ h.proc.isActive req.filterId = false) :
    h.next (.deactivate info req rci) = h := by
  obtain ⟨hproc, hcalls⟩ := deactivateFilter_nothing rci h'
  simp [History.next, serve, hproc, hcalls]

theorem Balanced.deactivate_nothing (hinv : Balanced h opened)
    (h' : info.indicationMI = false ∨ h.proc.isActive req.filterId = false) :
    Balanced (h.next (.deactivate info req rci))
      (opened.filter fun e => e != (info, req.filterId, req.className)) := by
  rw [next_nothing h']
  refine ⟨hinv.sound, hinv.listed, ?_, hinv.able⟩
  intro p f htold
  obtain ⟨c, hc⟩ := hinv.opened p f htold
  refine ⟨c, List.mem_filter.mpr ⟨hc, ?_⟩⟩
  -- this provider cannot have been told of this filter
  rw [bne_iff_ne]
  intro he
  obtain ⟨hp, hf, -⟩ : p = info ∧ f = req.filterId ∧ c = req.className := by simpa using he
  subst hp hf
  rcases h' with hmi | hgone
  · rw [hinv.able _ _ htold] at hmi
    cases hmi
  · rw [hinv.listed _ _ htold] at hgone
    cases hgone

/-- A request that touches no filter keeps the invariant. -/
theorem Balanced.quiet {r : Request} (hinv : Balanced h opened)
    (hcalls : ∀ c ∈ (serve h.proc r).calls, c.2 = .enableIndications ∨ c.2 = .disableIndications)
    (hlist : (serve h.proc r).proc.activFilters = h.proc.activFilters) :
    Balanced (h.next r) opened := by
  have hst : ∀ p f, standing (h.next r).calls p f = standing h.calls p f :=
    fun p f => standing_append_of_quiet hcalls
  have hact : ∀ f, (h.next r).proc.isActive f = h.proc.isActive f := by
    intro f
    simp only [Proc.isActive, History.next, hlist]
  refine ⟨?_, ?_, ?_, ?_⟩
  · intro p f
    rw [hst]
    exact hinv.sound p f
  · intro p f htold
    rw [hst] at htold
    rw [hact]
    exact hinv.listed p f htold
  · intro p f htold
    rw [hst] at htold
    exact hinv.opened p f htold
  · intro p f htold
    rw [hst] at htold
    exact hinv.able p f htold

/-- Whether a deactivation finds something to do. -/
theorem found_or_nothing (s : Proc) (info : ProviderInfo) (f : UInt64) :
    (info.indicationMI = true ∧ s.isActive f = true) ∨
      (info.indicationMI = false ∨ s.isActive f = false) := by
  cases info.indicationMI <;> cases s.isActive f <;> simp

/-- One request keeps the invariant. -/
theorem Balanced.next {r : Request} (hinv : Balanced h opened)
    (hok : (serve h.proc r).resp.isError = false) (hmeets : Meets h r) :
    Balanced (h.next r) (openClasses opened [r]) := by
  cases r with
  | activate info req out => exact hinv.activate hok
  | deactivate info req rci =>
    rcases found_or_nothing h.proc info req.filterId with ⟨hmi, hactive⟩ | hnothing
    · exact hinv.deactivate_found hmi hactive (hmeets hmi hactive).1
    · exact hinv.deactivate_nothing hnothing
  | enable info =>
    exact hinv.quiet (fun c hc => Or.inl (switch_calls.1 hc)) switch_activFilters.1
  | disable info =>
    exact hinv.quiet (fun c hc => Or.inr (switch_calls.2 hc)) switch_activFilters.2

/-- One request that meets the condition disables indications exactly when it should. -/
theorem Balanced.disablesExactly {r : Request} (hinv : Balanced h opened) (hmeets : Meets h r) :
    DisablesExactly h r := by
  cases r with
  | activate | enable | disable => trivial
  | deactivate info req rci =>
    rw [DisablesExactly]
    rcases found_or_nothing h.proc info req.filterId with ⟨hmi, hactive⟩ | hnothing
    · obtain ⟨hown, hlast⟩ := hmeets hmi hactive
      obtain ⟨hlist, se, -, hcalls⟩ := deactivateFilter_found rci hmi hactive
      obtain ⟨se₀, hmem₀, hid₀, -⟩ := find_of_isActive hactive
      have hbefore : h.Holds info := ⟨se₀, hmem₀, by rw [hid₀]; exact (hown info).mpr rfl⟩
      rw [serve, hcalls]
      rcases hlast with hone | ⟨se₁, hmem₁, hne₁, htold₁⟩
      · -- the filter was alone on the list
        have hempty : h.proc.activFilters.eraseP req.found = [] := by
          obtain ⟨x, hx⟩ := List.length_eq_one_iff.mp hone
          rw [hx] at hmem₀ ⊢
          rw [← List.mem_singleton.mp hmem₀]
          simp [IndicationReq.found, hid₀]
        have hafter : ¬ (h.next (.deactivate info req rci)).Holds info := by
          rintro ⟨se, hse, -⟩
          rw [History.next, serve, hlist, hempty] at hse
          cases hse
        simp [hempty, hbefore, hafter]
      · -- another filter of the provider is still there
        have hstays : se₁ ∈ h.proc.activFilters.eraseP req.found :=
          (List.mem_eraseP_of_neg (by simpa [IndicationReq.found] using hne₁)).mpr hmem₁
        have hafter : (h.next (.deactivate info req rci)).Holds info := by
          refine ⟨se₁, ?_, (told_next_found hinv hmi hactive hown).mpr ⟨hne₁, htold₁⟩⟩
          rw [History.next, serve, hlist]
          exact hstays
        have hmore : (h.proc.activFilters.eraseP req.found).isEmpty = false :=
          List.isEmpty_eq_false_iff.mpr (List.ne_nil_of_mem hstays)
        simp [hmore, hafter]
    · rw [next_nothing hnothing, serve, (deactivateFilter_nothing rci hnothing).2]
      simp

end Step

theorem openClasses_cons (opened : List (ProviderInfo × UInt64 × CStr)) (r : Request)
    (rs : List Request) :
    openClasses opened (r :: rs) = openClasses (openClasses opened [r]) rs := by
  cases r <;> rfl

/-- A run keeps the invariant. -/
theorem Balanced.run {h : History} {opened : List (ProviderInfo × UInt64 × CStr)}
    {rs : List Request} (hinv : Balanced h opened) (hok : AllSucceed h rs) (hmeets : AllMeet h rs) :
    Balanced (runRequests h rs) (openClasses opened rs) := by
  induction rs generalizing h opened with
  | nil => exact hinv
  | cons r rs ih =>
    rw [openClasses_cons]
    exact ih (hinv.next hok.1 hmeets.1) hok.2 hmeets.2

/-- The front of a run succeeds and meets the condition, and so does the request that
comes next. -/
theorem allMeet_append {h : History} {pre post : List Request} {r : Request}
    (hok : AllSucceed h (pre ++ r :: post)) (hmeets : AllMeet h (pre ++ r :: post)) :
    AllSucceed h pre ∧ AllMeet h pre ∧ Meets (runRequests h pre) r := by
  induction pre generalizing h with
  | nil => exact ⟨trivial, trivial, hmeets.1⟩
  | cons p pre ih =>
    obtain ⟨h1, h2, h3⟩ := ih hok.2 hmeets.2
    exact ⟨⟨hok.1, h1⟩, ⟨hmeets.1, h2⟩, h3⟩

/-- In a run of successful requests that all meet the condition, a filter that was
deactivated for all its classes has been ended exactly once at every provider that was
told of it, and every deactivation disables a provider's indications exactly when it
takes the last of its active filters away. -/
theorem run_balanced {rs : List Request} (hok : AllSucceed .start rs)
    (hmeets : AllMeet .start rs) :
    (∀ filterId, Closed rs filterId → ∀ info,
      standing (runRequests .start rs).calls info filterId = .idle) ∧
    (∀ pre r post, rs = pre ++ r :: post → DisablesExactly (runRequests .start pre) r) := by
  constructor
  · intro f hclosed info
    have hinv := balanced_start.run hok hmeets
    cases hst : standing (runRequests .start rs).calls info f with
    | idle => rfl
    | told =>
      obtain ⟨c, hc⟩ := hinv.opened info f hst
      exact absurd rfl (hclosed _ hc)
    | broken => exact absurd hst (hinv.sound info f)
  · rintro pre r post rfl
    obtain ⟨hpre, hpreMeets, hr⟩ := allMeet_append hok hmeets
    exact (balanced_start.run hpre hpreMeets).disablesExactly hr

/-- An activation of the examples that succeeds. -/
def sampleActivate (info : ProviderInfo) (filterId : UInt64) : Request :=
  .activate info (sampleRequest filterId) ⟨0, .ok, .ok, .ok⟩

/-- A deactivation of the examples that succeeds. -/
def sampleDeactivate (info : ProviderInfo) (filterId : UInt64) : Request :=
  .deactivate info (sampleRequest filterId) .ok

/-- Two filters of one provider, the first of which goes before the second. -/
def sampleRun : List Request :=
  [sampleActivate sampleProvider 1, sampleActivate sampleProvider 2,
    sampleDeactivate sampleProvider 1, sampleDeactivate sampleProvider 2]

theorem sampleRun_balanced :
    (∀ filterId ∈ [1, 2], Closed sampleRun filterId ∧
      standing (runRequests .start sampleRun).calls sampleProvider filterId = .idle) ∧
    ∀ pre r post, sampleRun = pre ++ r :: post → DisablesExactly (runRequests .start pre) r := by
  have hopen : openClasses [] sampleRun = [] := by decide
  have hclosed : ∀ filterId, Closed sampleRun filterId := fun _ e he => by simp [hopen] at he
  have hok : AllSucceed .start sampleRun := ⟨by decide, by decide, by decide, by decide, trivial⟩
  let h₁ := History.start.next (sampleActivate sampleProvider 1)
  let h₂ := h₁.next (sampleActivate sampleProvider 2)
  let h₃ := h₂.next (sampleDeactivate sampleProvider 1)
  -- what a provider has been told after each request
  have hst₁ : ∀ p f, standing h₁.calls p f = if p = sampleProvider ∧ f = 1 then .told else .idle :=
    fun p f => @standing_activate [] sampleProvider p f (sampleRequest 1).entry _ _ _
  have hst₂ : ∀ p f, standing h₂.calls p f = if p = sampleProvider ∧ f = 2 then
      (if standing h₁.calls p f = .broken then .broken else .told) else standing h₁.calls p f :=
    fun p f => @standing_activate h₁.calls sampleProvider p f (sampleRequest 2).entry _ _ _
  have hst₃ : ∀ p f, standing h₃.calls p f = if p = sampleProvider ∧ f = 1 then
      (if standing h₂.calls p f = .told then .idle else .broken) else standing h₂.calls p f :=
    fun p f => @standing_deactivate h₂.calls sampleProvider p f (sampleRequest 1).entry _ false
  have hmeets : AllMeet .start sampleRun := by
    refine ⟨trivial, trivial, fun _ _ => ⟨fun p => ?_, Or.inr ?_⟩,
      fun _ _ => ⟨fun p => ?_, Or.inl (by decide)⟩, trivial⟩
    · show standing h₂.calls p 1 = .told ↔ _
      rw [hst₂, hst₁]
      by_cases hp : p = sampleProvider <;> simp [hp]
    · exact ⟨(sampleRequest 2).entry, by decide, by decide, by decide⟩
    · show standing h₃.calls p 2 = .told ↔ _
      rw [hst₃, hst₂, hst₁]
      by_cases hp : p = sampleProvider <;> simp [hp]
  obtain ⟨hidle, hdisables⟩ := run_balanced hok hmeets
  exact ⟨fun f _ => ⟨hclosed f, hidle f (hclosed f) sampleProvider⟩, hdisables⟩

/-- A second provider in the same process. -/
def otherProvider : ProviderInfo := ⟨lit "OtherProvider", true⟩

/-- A class served by two providers of one process: the filter is activated and then
deactivated at both. -/
def sharedRun : List Request :=
  [sampleActivate sampleProvider 1, sampleActivate otherProvider 1,
    sampleDeactivate sampleProvider 1, sampleDeactivate otherProvider 1]

/-- The second provider never hears that the filter has ended. -/
theorem sharedRun_unbalanced :
    AllSucceed .start sharedRun ∧ Closed sharedRun 1 ∧
      standing (runRequests .start sharedRun).calls otherProvider 1 = .told ∧
      ¬ ∀ filterId, Closed sharedRun filterId → ∀ info,
        standing (runRequests .start sharedRun).calls info filterId = .idle := by
  have hclosed : Closed sharedRun 1 := by
    unfold Closed
    decide
  refine ⟨⟨by decide, by decide, by decide, by decide, trivial⟩, hclosed, by decide, fun h => ?_⟩
  exact absurd (h 1 hclosed otherProvider) (by decide)

end Sfcb.ProviderDrv
