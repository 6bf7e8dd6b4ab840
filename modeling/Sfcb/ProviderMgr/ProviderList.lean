import Mathlib.Algebra.Group.Nat.Defs
import Mathlib.Algebra.Group.Int.Defs

/-!
# The provider-list protocol

A client asks the provider manager for the providers of a class and gets a series
of control messages back. `lookupProviderList` and `assocProviderList` are the
manager's side, `getProviderContext` is the requester's, and
`closeProviderContext` later walks the addresses collected. The two sides never
agree on an end of the series: each message announces how many are still to come,
and the announcement is made from the length of the list, before it is known
which of the providers can be started.

`listProtocol_iff` says when that works out: a list whose providers all start, or
none of which starts (for the requests that stop at the first failure, the first
of which does not start).

Mirroring notes:
- The outcome of `forkProvider` is data (`ProviderSlot.forkRc`), one outcome for
  every position of the list, so every combination of outcomes is covered.
- A socket is a queue of messages. `spRecvCtlResult` on an empty queue waits: the
  requester holds the sending end of the pair too, so no end of file ever comes.
- A descriptor is named by the socket it stands for; how it travels is the
  framing layer's business.
-/

namespace Sfcb.ProviderMgr

/-- The `MSG_X_` codes of the list protocol. -/
inductive MsgX where
  | NOT_SUPPORTED | PROVIDER | INVALID_CLASS | INVALID_NAMESPACE | PROVIDER_NOT_FOUND
  deriving DecidableEq, Repr

/-- A control message: the fields of its `SpMessageHdr` that are not constant. -/
structure CtlMsg where
  xtra : MsgX
  returnS : Int
  segments : Nat
  provId : Option UInt64
  deriving DecidableEq, Repr

/-- A `ProviderInfo` in a provider list, with what `forkProvider` returns for it. -/
structure ProviderSlot where
  /-- `info->type == FORCE_PROVIDER_NOTFOUND` -/
  forceNotFound : Bool
  /-- `forkProvider(info, req, NULL)`; zero is `CMPI_RC_OK` -/
  forkRc : Int
  /-- `info->providerSockets.send` -/
  send : Int
  /-- `getProvIds(info).ids` -/
  ids : UInt64
  deriving DecidableEq, Repr

/-- The condition under which the manager answers with the provider. -/
def ProviderSlot.loads (s : ProviderSlot) : Bool :=
  !s.forceNotFound && s.forkRc == 0

/-- The answer that hands a provider out. -/
def ProviderSlot.msg (s : ProviderSlot) (count : Nat) : CtlMsg :=
  ⟨.PROVIDER, s.send, count, some s.ids⟩

/-! ## The manager's side -/

/-- The request types served by `lookupProviderList`. -/
inductive ProviderType where
  | INSTANCE | INDICATION
  deriving DecidableEq, Repr

/-- An answer without a provider, sent with `from` set to `dmy`. -/
def plainMsg (code : MsgX) : CtlMsg := ⟨code, 0, 0, none⟩

/-- The loop of `lookupProviderList`: `n` providers left, `count` announced next. -/
def lookupLoop (type : ProviderType) :
    List ProviderSlot → (n count indFound : Nat) → List CtlMsg
  | [], _, _, _ => []
  | s :: rest, n, count, indFound =>
    if s.loads then
      s.msg count ::
        lookupLoop type rest (n - 1) (count - 1)
          (if type = .INDICATION then indFound + 1 else indFound)
    else if type = .INDICATION ∧ (n > 1 ∨ indFound ≠ 0) then
      lookupLoop type rest (n - 1) count indFound
    else [plainMsg .PROVIDER_NOT_FOUND]

/-- `lookupProviderList`. `found` is what `lookupProviders` returned: a list, or
`NULL` with a status. -/
def lookupProviderList (type : ProviderType) (found : Except Nat (List ProviderSlot)) :
    List CtlMsg :=
  match found with
  | .ok providers =>
    if providers.length ≠ 0 then
      lookupLoop type providers providers.length (providers.length - 1) 0
    else [plainMsg .NOT_SUPPORTED]
  | .error rc => [plainMsg (if rc = 3 then .INVALID_NAMESPACE else .INVALID_CLASS)]

/-- The loop of `assocProviderList`. -/
def assocLoop : List ProviderSlot → (count : Nat) → List CtlMsg
  | [], _ => []
  | s :: rest, count =>
    if s.loads then s.msg count :: assocLoop rest (count - 1)
    else [plainMsg .PROVIDER_NOT_FOUND]

/-- `assocProviderList`. An empty list announces `-1`, which is `unsigned long`
on the wire. Without a list the default provider is handed out, or the manager
aborts before it has sent anything. -/
def assocProviderList (sfcbSend : Int) (disableDefaultProvider : Bool)
    (defaultProv : ProviderSlot) (found : Option (List ProviderSlot)) : List CtlMsg :=
  match found with
  | some providers =>
    if providers.length ≥ 1 then assocLoop providers (providers.length - 1)
    else [⟨.PROVIDER_NOT_FOUND, sfcbSend, 2 ^ 64 - 1, none⟩]
  | none =>
    if disableDefaultProvider then
      if defaultProv.forkRc = 0 then [defaultProv.msg 0] else []
    else [⟨.PROVIDER_NOT_FOUND, sfcbSend, 0, none⟩]

/-- One list request, with everything the manager's answer depends on. -/
inductive ListRequest where
  | lookup (type : ProviderType) (found : Except Nat (List ProviderSlot))
  | assoc (sfcbSend : Int) (disableDefaultProvider : Bool) (defaultProv : ProviderSlot)
      (found : Option (List ProviderSlot))

/-- The messages the manager sends for a request. -/
def ListRequest.answer : ListRequest → List CtlMsg
  | .lookup type found => lookupProviderList type found
  | .assoc sfcbSend dis dflt found => assocProviderList sfcbSend dis dflt found

/-! ## The requester's side -/

/-- A `ProvAddr`; `none` is memory that nothing was stored in. -/
structure ProvAddr where
  socket : Option Int
  ids : Option UInt64
  deriving DecidableEq, Repr

/-- What `malloc` returns. -/
def ProvAddr.unset : ProvAddr := ⟨none, none⟩

/-- `spRecvCtlResult` into a `ProvAddr`. Every message stores the socket; only
`MSG_X_PROVIDER` stores the ids and sets the length to the announced count,
which is the (zero) payload length otherwise. -/
def spRecvCtlResult (m : CtlMsg) (a : ProvAddr) : ProvAddr × Nat :=
  match m.xtra with
  | .PROVIDER => (⟨some m.returnS, m.provId⟩, m.segments)
  | _ => (⟨some m.returnS, a.ids⟩, 0)

/-- The fields of `BinRequestContext` the protocol is about. The callers clear it. -/
structure BinRequestContext where
  rc : MsgX
  pCount : Nat
  pAs : List ProvAddr
  deriving DecidableEq, Repr

/-- How a call of `getProviderContext` ends. -/
inductive Outcome where
  /-- it returned, with these messages left in the socket -/
  | returned (ctx : BinRequestContext) (unread : List CtlMsg)
  /-- it waits for a message -/
  | blocked
  /-- it wrote behind the end of `pAs` -/
  | overrun
  deriving DecidableEq, Repr

/-- The loop `for (i = 1; l; i++)` of `getProviderContext`. -/
def receiveLoop (ctx : BinRequestContext) (i l : Nat) : List CtlMsg → Outcome
  | [] => if l = 0 then .returned ctx [] else .blocked
  | m :: queue =>
    if l = 0 then .returned ctx (m :: queue)
    else if i < ctx.pAs.length then
      let got := spRecvCtlResult m (ctx.pAs.getD i .unset)
      receiveLoop { ctx with
        rc := if m.xtra = .PROVIDER then ctx.rc else m.xtra
        pAs := ctx.pAs.set i got.1 } (i + 1) got.2 queue
    else .overrun

/-- `getProviderContext`, from the receipt of the first answer. -/
def getProviderContext : List CtlMsg → Outcome
  | [] => .blocked
  | m :: queue =>
    let got := spRecvCtlResult m .unset
    if m.xtra = .PROVIDER then
      receiveLoop ⟨.PROVIDER, got.2 + 1, got.1 :: List.replicate got.2 .unset⟩ 1 got.2 queue
    else .returned ⟨m.xtra, 0, []⟩ queue

/-- Every address that `closeProviderContext` releases came in a provider message. -/
def BinRequestContext.filled (ctx : BinRequestContext) (sent : List CtlMsg) : Prop :=
  ∀ i < ctx.pCount, ∃ m ∈ sent, m.xtra = .PROVIDER ∧
    ctx.pAs[i]? = some ⟨some m.returnS, m.provId⟩

/-- The protocol works for an answer: the requester returns, has read every
message, and may release every address it counts. -/
def protocolHolds (sent : List CtlMsg) : Prop :=
  ∃ ctx, getProviderContext sent = .returned ctx [] ∧ ctx.filled sent

/-! ## What the manager sends -/

/-- The answers that hand out `ps`, announcing `count`, `count - 1`, … -/
def handOut : List ProviderSlot → (count : Nat) → List CtlMsg
  | [], _ => []
  | s :: rest, count => s.msg count :: handOut rest (count - 1)

/-- Nothing more when every provider of `l` loads, else one not-found message. -/
def stopMsg (l : List ProviderSlot) : List CtlMsg :=
  if l.all ProviderSlot.loads then [] else [plainMsg .PROVIDER_NOT_FOUND]

/-- An association request hands out the providers before the first that fails. -/
theorem assocLoop_eq (l : List ProviderSlot) :
    ∀ count, assocLoop l count = handOut (l.takeWhile ProviderSlot.loads) count ++ stopMsg l := by
  induction l with
  | nil => intro count; rfl
  | cons s rest ih =>
    intro count
    by_cases hs : s.loads = true
    · simp [assocLoop, hs, handOut, stopMsg, ih]
    · simp [assocLoop, hs, handOut, stopMsg]

/-- So does an instance request. -/
theorem lookupLoop_instance (l : List ProviderSlot) :
    ∀ n count indFound, lookupLoop .INSTANCE l n count indFound = assocLoop l count := by
  induction l with
  | nil => intro n count indFound; rfl
  | cons s rest ih =>
    intro n count indFound
    simp only [lookupLoop, assocLoop, reduceCtorEq, false_and, if_false, ih]

/-- An indication request hands out the providers that load, whichever they are,
and only says so when there are none. -/
theorem lookupLoop_indication (l : List ProviderSlot) :
    ∀ count indFound, lookupLoop .INDICATION l l.length count indFound
      = handOut (l.filter ProviderSlot.loads) count ++
        (if l = [] ∨ indFound ≠ 0 ∨ l.any ProviderSlot.loads then []
          else [plainMsg .PROVIDER_NOT_FOUND]) := by
  induction l with
  | nil => intro count indFound; simp [lookupLoop, handOut]
  | cons s rest ih =>
    intro count indFound
    have hn : (s :: rest).length - 1 = rest.length := by simp
    by_cases hs : s.loads = true
    · simp [lookupLoop, hs, handOut, ih]
    · -- the last provider of the list is the one that decides about the message
      cases rest with
      | nil => by_cases hi : indFound = 0 <;> simp [lookupLoop, hs, handOut, hi]
      | cons t rest =>
        have hgt : (s :: t :: rest).length > 1 := by simp
        rw [lookupLoop, if_neg hs, if_pos ⟨rfl, .inl hgt⟩, hn, ih]
        simp [hs]

/-! ## What the requester makes of it -/

/-- The address a provider message fills in. -/
def ProviderSlot.addr (s : ProviderSlot) : ProvAddr := ⟨some s.send, some s.ids⟩

/-- Filling the first free entry. -/
theorem set_front (front : List ProvAddr) (k : Nat) (a : ProvAddr) :
    (front ++ List.replicate (k + 1) ProvAddr.unset).set front.length a
      = (front ++ [a]) ++ List.replicate k ProvAddr.unset := by
  rw [List.set_append_right _ _ (Nat.le_refl _)]
  simp [List.replicate_succ]

/-- Receiving announced providers fills the free entries in order, and what is
still expected is what is still free. -/
theorem receiveLoop_handOut (ps : List ProviderSlot) :
    ∀ (rc : MsgX) (pc l : Nat) (front : List ProvAddr) (tail : List CtlMsg), ps.length ≤ l →
      receiveLoop ⟨rc, pc, front ++ List.replicate l .unset⟩ front.length l
          (handOut ps (l - 1) ++ tail)
        = receiveLoop ⟨rc, pc, (front ++ ps.map ProviderSlot.addr)
            ++ List.replicate (l - ps.length) .unset⟩
          (front.length + ps.length) (l - ps.length) tail := by
  induction ps with
  | nil => intro rc pc l front tail _; simp [handOut]
  | cons s rest ih =>
    intro rc pc l front tail hl
    obtain ⟨k, rfl⟩ : ∃ k, l = k + 1 := ⟨l - 1, by simp at hl; omega⟩
    have hfree : front.length < (front ++ List.replicate (k + 1) ProvAddr.unset).length := by
      simp
    have hstep := ih rc pc k (front ++ [s.addr]) tail (by simpa using hl)
    have hlen : (front ++ [s.addr]).length = front.length + 1 := by simp
    rw [hlen] at hstep
    simp only [handOut, List.cons_append, receiveLoop, Nat.add_sub_cancel]
    rw [if_neg (Nat.succ_ne_zero k), if_pos hfree]
    simp only [ProviderSlot.msg, spRecvCtlResult, if_true]
    rw [set_front]
    have hidx : front.length + (s :: rest).length = front.length + 1 + rest.length := by
      simp; omega
    have hfront : front ++ (s :: rest).map ProviderSlot.addr
        = front ++ [s.addr] ++ rest.map ProviderSlot.addr := by simp
    have hleft : k + 1 - (s :: rest).length = k - rest.length := by simp
    rw [hidx, hfront, hleft]
    exact hstep

/-- The call up to the last provider message. -/
theorem getProviderContext_handOut (s : ProviderSlot) (ps : List ProviderSlot) (count : Nat)
    (tail : List CtlMsg) (h : ps.length ≤ count) :
    getProviderContext (handOut (s :: ps) count ++ tail)
      = receiveLoop ⟨.PROVIDER, count + 1,
          (s :: ps).map ProviderSlot.addr ++ List.replicate (count - ps.length) .unset⟩
        (1 + ps.length) (count - ps.length) tail :=
  receiveLoop_handOut ps .PROVIDER (count + 1) count [s.addr] tail h

theorem mem_handOut {ps : List ProviderSlot} {m : CtlMsg} :
    ∀ {count : Nat}, m ∈ handOut ps count → m.provId ≠ none := by
  induction ps with
  | nil => intro count h; cases h
  | cons s rest ih =>
    intro count h
    rcases List.mem_cons.mp h with rfl | h
    · simp [ProviderSlot.msg]
    · exact ih h

theorem handOut_mem {ps : List ProviderSlot} {s : ProviderSlot} (hs : s ∈ ps) :
    ∀ count, ∃ m ∈ handOut ps count,
      m.xtra = .PROVIDER ∧ m.returnS = s.send ∧ m.provId = some s.ids := by
  induction ps with
  | nil => cases hs
  | cons t rest ih =>
    intro count
    rcases List.mem_cons.mp hs with rfl | hs
    · exact ⟨s.msg count, by simp [handOut], rfl, rfl, rfl⟩
    · obtain ⟨m, hm, h⟩ := ih hs (count - 1)
      exact ⟨m, by simp [handOut, hm], h⟩

/-- A single answer without a provider ends the request. -/
theorem protocolHolds_plain {m : CtlMsg} (h : m.xtra ≠ .PROVIDER) : protocolHolds [m] :=
  ⟨⟨m.xtra, 0, []⟩, by simp [getProviderContext, h], fun _ hi => absurd hi (Nat.not_lt_zero _)⟩

/-- As many providers as announced: everything is read and every entry filled. -/
theorem protocolHolds_all {ps : List ProviderSlot} {count : Nat} (h : ps.length = count + 1) :
    protocolHolds (handOut ps count) := by
  obtain ⟨s, rest, rfl⟩ : ∃ s rest, ps = s :: rest := List.exists_cons_of_length_eq_add_one h
  have hrest : rest.length = count := by simpa using h
  have hget := getProviderContext_handOut s rest count [] (by omega)
  rw [List.append_nil, hrest, Nat.sub_self] at hget
  refine ⟨_, hget, ?_⟩
  intro i hi
  have hi' : i < (s :: rest).length := by rw [h]; exact hi
  obtain ⟨m, hm, hx, hret, hid⟩ := handOut_mem (List.getElem_mem hi') count
  refine ⟨m, hm, hx, ?_⟩
  rw [hret, hid, List.replicate_zero, List.append_nil, List.getElem?_map,
    List.getElem?_eq_getElem hi']
  rfl

/-- Fewer providers than announced and nothing more: the requester waits. -/
theorem not_protocolHolds_short {ps : List ProviderSlot} {count : Nat}
    (hne : ps ≠ []) (h : ps.length < count + 1) : ¬ protocolHolds (handOut ps count) := by
  obtain ⟨s, rest, rfl⟩ := List.exists_cons_of_ne_nil hne
  have hrest : rest.length < count := by simpa using h
  have hget := getProviderContext_handOut s rest count [] (Nat.le_of_lt hrest)
  rintro ⟨ctx, hctx, -⟩
  rw [List.append_nil] at hget
  rw [hget, receiveLoop, if_neg (by omega)] at hctx
  cases hctx

/-- Fewer providers than announced and a not-found message: the entry the message
was received into has no ids, and `closeProviderContext` will use them. -/
theorem not_protocolHolds_cut {ps : List ProviderSlot} {count : Nat}
    (hne : ps ≠ []) (h : ps.length < count + 1) :
    ¬ protocolHolds (handOut ps count ++ [plainMsg .PROVIDER_NOT_FOUND]) := by
  obtain ⟨s, rest, rfl⟩ := List.exists_cons_of_ne_nil hne
  have hrest : rest.length < count := by simpa using h
  obtain ⟨k, hk⟩ : ∃ k, count - rest.length = k + 1 := ⟨count - rest.length - 1, by omega⟩
  have hget := getProviderContext_handOut s rest count [plainMsg .PROVIDER_NOT_FOUND]
    (Nat.le_of_lt hrest)
  rintro ⟨ctx, hctx, hfill⟩
  have hidx : 1 + rest.length = ((s :: rest).map ProviderSlot.addr).length := by simp; omega
  rw [hget, hk, hidx] at hctx
  simp only [receiveLoop, plainMsg, spRecvCtlResult] at hctx
  rw [if_neg (Nat.succ_ne_zero k), if_pos (by simp), set_front] at hctx
  simp only [if_true, Outcome.returned.injEq, and_true] at hctx
  subst hctx
  obtain ⟨m, hm, hx, hent⟩ := hfill (1 + rest.length) (by show _ < count + 1; omega)
  -- the first entry that is missing was never written
  have hunset : ((((s :: rest).map ProviderSlot.addr ++ List.replicate (k + 1) ProvAddr.unset).getD
      ((s :: rest).map ProviderSlot.addr).length .unset)).ids = none := by
    simp [ProvAddr.unset]
  simp only [hunset] at hent
  have hnone : m.provId = none := by
    rw [hidx] at hent
    have hboth : 0 = m.returnS ∧ none = m.provId := by simpa using hent
    exact hboth.2.symm
  rcases List.mem_append.mp hm with hm | hm
  · exact mem_handOut hm hnone
  · rw [List.mem_singleton] at hm
    subst hm
    cases hx

/-! ## When the protocol works -/

/-- The list is handed out whole, or the first provider already fails. -/
def allOrNotFirst : List ProviderSlot → Bool
  | [] => true
  | s :: rest => !s.loads || rest.all ProviderSlot.loads

/-- The list is handed out whole or not at all. -/
def allOrNone (l : List ProviderSlot) : Bool :=
  l.all ProviderSlot.loads || l.all fun s => !s.loads

/-- The condition on a request. -/
def ListRequest.wellServed : ListRequest → Bool
  | .lookup _ (.error _) => true
  | .lookup .INSTANCE (.ok l) => allOrNotFirst l
  | .lookup .INDICATION (.ok l) => allOrNone l
  | .assoc _ _ _ (some l) => allOrNotFirst l
  | .assoc _ dis dflt none => !dis || dflt.forkRc == 0

private theorem takeWhile_of_all {l : List ProviderSlot} (h : l.all ProviderSlot.loads = true) :
    l.takeWhile ProviderSlot.loads = l := by
  induction l with
  | nil => rfl
  | cons s rest ih =>
    simp only [List.all_cons, Bool.and_eq_true] at h
    rw [List.takeWhile_cons_of_pos h.1, ih h.2]

/-- The requests that stop at the first failure. -/
theorem protocolHolds_assocLoop (l : List ProviderSlot) (hne : l ≠ []) :
    protocolHolds (assocLoop l (l.length - 1)) ↔ allOrNotFirst l = true := by
  obtain ⟨s, rest, rfl⟩ := List.exists_cons_of_ne_nil hne
  rw [assocLoop_eq]
  by_cases hs : s.loads = true
  · by_cases hall : rest.all ProviderSlot.loads = true
    · have htake : (s :: rest).takeWhile ProviderSlot.loads = s :: rest :=
        takeWhile_of_all (by rw [List.all_cons, hs, hall]; rfl)
      have hstop : stopMsg (s :: rest) = [] := by simp only [stopMsg, List.all_cons, hs, hall]; rfl
      rw [htake, hstop, List.append_nil]
      simp only [allOrNotFirst, hall, Bool.or_true, iff_true]
      exact protocolHolds_all (by simp)
    · have hstop : stopMsg (s :: rest) = [plainMsg .PROVIDER_NOT_FOUND] := by
        simp [stopMsg, hs, hall]
      have hcut : ((s :: rest).takeWhile ProviderSlot.loads).length
          < (s :: rest).length - 1 + 1 := by
        have hle := (List.takeWhile_prefix ProviderSlot.loads (l := s :: rest)).length_le
        refine Nat.lt_of_le_of_ne (by simpa using hle) ?_
        intro heq
        have hself := (List.takeWhile_prefix ProviderSlot.loads (l := s :: rest)).eq_of_length
          (by simpa using heq)
        have hboth : (s :: rest).all ProviderSlot.loads = true := hself ▸ List.all_takeWhile
        rw [List.all_cons, Bool.and_eq_true] at hboth
        exact hall hboth.2
      rw [hstop]
      simp only [allOrNotFirst, hs, hall, Bool.not_true, Bool.false_or,
        Bool.false_eq_true, iff_false]
      exact not_protocolHolds_cut (by simp [hs]) hcut
  · have htake : (s :: rest).takeWhile ProviderSlot.loads = [] := by simp [hs]
    have hstop : stopMsg (s :: rest) = [plainMsg .PROVIDER_NOT_FOUND] := by simp [stopMsg, hs]
    rw [htake, hstop]
    simp only [allOrNotFirst, Bool.not_eq_true] at hs ⊢
    simp only [hs, Bool.not_false, Bool.true_or, iff_true]
    exact protocolHolds_plain (by simp [plainMsg])

/-- The requests that skip what does not load. -/
theorem protocolHolds_indication (l : List ProviderSlot) (hne : l ≠ []) :
    protocolHolds (lookupLoop .INDICATION l l.length (l.length - 1) 0)
      ↔ allOrNone l = true := by
  have hpos : 0 < l.length := List.length_pos_iff.mpr hne
  rw [lookupLoop_indication]
  by_cases hany : l.any ProviderSlot.loads = true
  · rw [if_pos (.inr (.inr hany)), List.append_nil]
    have hsome : ¬ l.all (fun s => !s.loads) = true := by
      rw [List.any_eq_true] at hany
      obtain ⟨s, hs, hl⟩ := hany
      intro hnone
      have := List.all_eq_true.mp hnone s hs
      simp [hl] at this
    by_cases hall : l.all ProviderSlot.loads = true
    · have hfil : l.filter ProviderSlot.loads = l :=
        List.filter_eq_self.mpr fun s hs => List.all_eq_true.mp hall s hs
      rw [hfil]
      simp only [allOrNone, hall, Bool.true_or, iff_true]
      exact protocolHolds_all (by omega)
    · -- those that do not load are passed over, and their messages are missing
      have hne' : l.filter ProviderSlot.loads ≠ [] := by
        rw [List.any_eq_true] at hany
        obtain ⟨s, hs, hl⟩ := hany
        exact List.ne_nil_of_mem (List.mem_filter.mpr ⟨hs, hl⟩)
      have hlt : (l.filter ProviderSlot.loads).length < l.length - 1 + 1 := by
        have hle := List.length_filter_le ProviderSlot.loads l
        refine Nat.lt_of_le_of_ne (by omega) ?_
        intro heq
        refine hall (List.all_eq_true.mpr ?_)
        exact List.length_filter_eq_length_iff.mp (by omega)
      simp only [allOrNone, hall, hsome, Bool.or_self, Bool.false_eq_true, iff_false]
      exact not_protocolHolds_short hne' hlt
  · -- none loads, so there is the one message that says so
    have hfil : l.filter ProviderSlot.loads = [] := by
      rw [List.filter_eq_nil_iff]
      intro s hs hl
      exact hany (List.any_eq_true.mpr ⟨s, hs, hl⟩)
    have hnone : l.all (fun s => !s.loads) = true := by
      refine List.all_eq_true.mpr fun s hs => ?_
      cases hl : s.loads with
      | false => rfl
      | true => exact absurd (List.any_eq_true.mpr ⟨s, hs, hl⟩) hany
    rw [hfil, if_neg (by simp [hne, hany])]
    simp only [allOrNone, hnone, Bool.or_true, iff_true]
    exact protocolHolds_plain (by simp [plainMsg])

/-- Instance and indication requests. -/
theorem protocolHolds_lookup (type : ProviderType) (found : Except Nat (List ProviderSlot)) :
    protocolHolds (lookupProviderList type found)
      ↔ (ListRequest.lookup type found).wellServed = true := by
  cases found with
  | error rc =>
    simp only [lookupProviderList, ListRequest.wellServed, iff_true]
    exact protocolHolds_plain (by simp only [plainMsg]; split <;> simp)
  | ok l =>
    by_cases hne : l = []
    · subst hne
      have hw : (ListRequest.lookup type (.ok [])).wellServed = true := by cases type <;> rfl
      simp only [hw, iff_true]
      exact protocolHolds_plain (m := plainMsg .NOT_SUPPORTED) (by simp [plainMsg])
    · have hlen : l.length ≠ 0 := by simpa using hne
      simp only [lookupProviderList, if_pos hlen]
      cases type with
      | INSTANCE =>
        rw [lookupLoop_instance]
        exact protocolHolds_assocLoop l hne
      | INDICATION => exact protocolHolds_indication l hne

/-- Association requests. -/
theorem protocolHolds_assoc (sfcbSend : Int) (dis : Bool) (dflt : ProviderSlot)
    (found : Option (List ProviderSlot)) :
    protocolHolds (assocProviderList sfcbSend dis dflt found)
      ↔ (ListRequest.assoc sfcbSend dis dflt found).wellServed = true := by
  cases found with
  | some l =>
    by_cases hne : l = []
    · subst hne
      simp only [ListRequest.wellServed, allOrNotFirst, iff_true]
      exact protocolHolds_plain (m := ⟨.PROVIDER_NOT_FOUND, sfcbSend, _, none⟩) (by simp)
    · have hlen : l.length ≥ 1 := List.length_pos_iff.mpr hne
      simp only [assocProviderList, if_pos hlen]
      exact protocolHolds_assocLoop l hne
  | none =>
    cases dis with
    | false =>
      simp only [ListRequest.wellServed, Bool.not_false, Bool.true_or, iff_true]
      exact protocolHolds_plain (m := ⟨.PROVIDER_NOT_FOUND, sfcbSend, 0, none⟩) (by simp)
    | true =>
      simp only [assocProviderList, if_true, ListRequest.wellServed, Bool.not_true,
        Bool.false_or, beq_iff_eq]
      by_cases hrc : dflt.forkRc = 0
      · rw [if_pos hrc]
        simp only [hrc, iff_true]
        have hone : [dflt].length = 0 + 1 := rfl
        exact protocolHolds_all hone
      · rw [if_neg hrc]
        simp only [hrc, iff_false]
        rintro ⟨ctx, hctx, -⟩
        cases hctx

/-- **When a list request works.** The requester reads exactly what the manager
sends and may release every address it counts if and only if the request is well
served. -/
theorem listProtocol_iff (r : ListRequest) : protocolHolds r.answer ↔ r.wellServed = true := by
  cases r with
  | lookup type found => exact protocolHolds_lookup type found
  | assoc sfcbSend dis dflt found => exact protocolHolds_assoc sfcbSend dis dflt found

/-- Two indication providers of which only the first can be started: one message
is sent, it announces one more, and the requester waits for it. -/
theorem listProtocol_blocks :
    ¬ ∀ r : ListRequest, protocolHolds r.answer := by
  intro h
  obtain ⟨ctx, hctx, -⟩ := h (.lookup .INDICATION (.ok [⟨false, 0, 7, 1⟩, ⟨false, 1, 8, 2⟩]))
  have hwait : getProviderContext (ListRequest.answer
      (.lookup .INDICATION (.ok [⟨false, 0, 7, 1⟩, ⟨false, 1, 8, 2⟩]))) = .blocked := by decide
  rw [hwait] at hctx
  cases hctx

end Sfcb.ProviderMgr
