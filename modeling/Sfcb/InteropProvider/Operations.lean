import Sfcb.InteropProvider.Tables

/-!
# The operations of the interop provider

Creating, modifying and deleting filters and subscriptions, and the methods other parts
of the broker call: `_addHandler`, `_removeHandler`, `_startup` and `_deliver`
(`interopProvider.c`). An operation changes the tables, sends requests to the indication
providers, and asks the internal provider by an upcall to change what is stored.

Mirroring notes:
- What the rest of the broker answers is data of the operation (`Env`), so every
  combination of outcomes is covered. An upcall that reports an error has stored nothing.
- `none` is an operation that reads through a null pointer, one for which `malloc` would
  have to give an address that is in use, or one that takes a use count out of the range
  of an `int`.
- The status variable is carried along as the code carries it: what `getProperty` says of
  an optional property is what the operation goes on with.
- `CMSetProperty` succeeds: it is only called on properties of the class.
-/

namespace Sfcb.InteropProvider

open Sfcb.Lib Sfcb.Cmpi

/-- The operations of an indication provider. -/
inductive OpType where
  | activateFilter
  | deactivateFilter
  | disableIndications
  | enableIndications
  deriving DecidableEq, Repr

/-- What `getProviderContext` and `invokeProviders` come back with: no provider, another
failure, or the codes of the providers' responses. -/
inductive Answer where
  | providerNotFound
  | failed (irc : Int)
  | invoked (rcs : List CMPIrc)
  deriving DecidableEq, Repr

/-- What an operation depends on besides its arguments. -/
structure Env where
  /-- `isChild`, an upcall to the class provider -/
  isChild : (ns parent child : CStr) → Bool
  /-- `parseQuery`, with the parser's code -/
  parseQuery : (query lang sns : CStr) → QLStatement × Int
  /-- the answer to the request for the `i`-th class of the filter's query -/
  answer : OpType → (i : Nat) → Answer
  /-- the status of the upcall to the internal provider -/
  upcall : CMPIStatus
  /-- what the property list of the request leaves of an instance -/
  propertyFilter : Instance → Instance
  /-- `gethostname` -/
  hostName : CStr
  /-- `CMPIPrincipal` of the context -/
  principal : Option CStr
  /-- the address the next `malloc` gives -/
  malloc : Addr

/-- `isa`. -/
def isa (env : Env) (sns child parent : CStr) : Bool :=
  strcasecmp child parent = 0 || env.isChild sns parent child

/-- `interOpNameSpace`. -/
def interOpNameSpace (cop : ObjectPath) : Bool :=
  strcasecmp cop.nameSpace (lit "root/interop") = 0 ||
    strcasecmp cop.nameSpace (lit "root/pg_interop") = 0

/-- The status `interOpNameSpace` sets. -/
def notInterOp : CMPIStatus := ⟨.ERR_FAILED, some (lit "Object must reside in root/interop")⟩

/-! ## Requests to the indication providers -/

/-- `genericSubscriptionRequest`: one good provider makes success. -/
def genericSubscriptionRequest : Answer → CMPIStatus
  | .invoked rcs =>
    match rcs.find? (· ≠ .OK) with
    | none => .ok
    | some rc => if rcs.any (· = .OK) then .ok else ⟨rc, none⟩
  | .providerNotFound => ⟨.ERR_FAILED, some (lit "No eligible indication provider found")⟩
  | .failed irc =>
    ⟨.ERR_FAILED,
      some (lit "Failing to find eligible indication provider. Rc: " ++ lit (toString irc))⟩

/-- The classes `fowardSubscription` sends a request for. -/
def isProcessIndication (env : Env) (sns cn : CStr) : Bool :=
  isa env sns cn (lit "CIM_ProcessIndication") || isa env sns cn (lit "CIM_InstCreation") ||
    isa env sns cn (lit "CIM_InstDeletion") || isa env sns cn (lit "CIM_InstModification")

/-- The number of classes from the `i`-th on that were activated. -/
def countActivated (env : Env) (sns : CStr) (optype : OpType) : (i : Nat) → List CStr → Nat
  | _, [] => 0
  | i, cn :: rest =>
    (if isProcessIndication env sns cn &&
        decide ((genericSubscriptionRequest (env.answer optype i)).rc = .OK) then 1 else 0) +
      countActivated env sns optype (i + 1) rest

/-- The status `fowardSubscription` sets. -/
def forwarded (env : Env) (f : Filter) (optype : OpType) : CMPIStatus :=
  if countActivated env f.sns optype 0 f.qs.fClasses = 0 then
    ⟨.ERR_NOT_SUPPORTED, some (lit
      "No supported indication classes in filter query or no provider found")⟩
  else .ok

/-- `fowardSubscription`. A provider gets the filter's address as its id. -/
def fowardSubscription (s : State) (env : Env) (fi : Addr) (optype : OpType) :
    Option (State × CMPIStatus) :=
  (s.filterHt.mem fi).map fun f =>
    ({ s with active :=
        if optype = .activateFilter && f.qs.fClasses.any (isProcessIndication env f.sns) then
          ⟨fi, f.serial⟩ :: s.active
        else s.active },
      forwarded env f optype)

/-- `switchIndications`; its status is not used. -/
def switchIndications (s : State) (env : Env) (ci : Instance) (optype : OpType) :
    Option State :=
  ci.filter.get.bind fun op =>
    (getFilter s (normalizeObjectPathCharsDup op)).bind fun fi =>
      (fowardSubscription s env fi optype).map (·.1)

/-! ## Subscriptions -/

/-- The filter a subscription names. -/
def findFilter (s : State) (ci : Instance) : Option Addr :=
  ci.filter.get.bind fun op => getFilter s (normalizeObjectPathCharsDup op)

/-- The handler a subscription names. -/
def findHandler (s : State) (ci : Instance) : Option Addr :=
  ci.handler.get.bind fun op => getHandler s (normalizeObjectPathCharsDup op)

/-- The end of `processSubscription`, once the filter is activated. The instance comes
back with the state it was given. -/
def enableSubscription (s : State) (env : Env) (ci : Instance) (fi : Addr) :
    Option (State × CMPIStatus × Instance) :=
  match ci.subscriptionState with
  | .value v =>
    if v = 2 then
      (fowardSubscription s env fi .enableIndications).map fun r => (r.1, r.2, ci)
    else some (s, .ok, ci)
  | _ =>
    (fowardSubscription s env fi .enableIndications).map fun r =>
      (r.1, r.2, { ci with subscriptionState := .value 2 })

/-- `processSubscription`. -/
def processSubscription (s : State) (env : Env) (ci : Instance) (cop : ObjectPath) :
    Option (State × CMPIStatus × Instance) :=
  let skey := normalizeObjectPathCharsDup cop
  if (getSubscription s skey).isSome then some (s, ⟨.ERR_ALREADY_EXISTS, none⟩, ci)
  else
    match findFilter s ci with
    | none => some (s, ⟨.ERR_NOT_FOUND, some (lit "Filter not found")⟩, ci)
    | some fi =>
      match findHandler s ci with
      | none => some (s, ⟨.ERR_NOT_FOUND, some (lit "Handler not found")⟩, ci)
      | some ha =>
        (addSubscription s ci skey fi ha).bind fun added =>
          (fowardSubscription added.1 env fi .activateFilter).bind fun act =>
            if act.2.rc ≠ .OK then
              (removeSubscription act.1 added.2 skey).map fun s => (s, act.2, ci)
            else enableSubscription act.1 env ci fi

/-! ## Filters -/

/-- The query language without blanks, as far as it fits into `lng[16]`. -/
def trimLanguage (lang : CStr) : CStr := (lang.filter fun b => 32 < b && b < 128).take 15

/-- The instance and its path with the properties the provider fills in. -/
def fillIn (env : Env) (ci : Instance) (cop : ObjectPath) : Instance × ObjectPath :=
  let ci := { ci with individualSubscriptionSupported := .value true }
  let ci := match ci.sourceNamespace.get, ci.sourceNamespaces.get with
    | none, none => { ci with sourceNamespace := .value (lit "root/interop") }
    | none, some [] => { ci with sourceNamespace := .null }
    | none, some (ns :: _) => { ci with sourceNamespace := .value ns }
    | some _, _ => ci
  let ci := match ci.sourceNamespaces.get, ci.sourceNamespace.get with
    | none, some ns => { ci with sourceNamespaces := .value [ns] }
    | _, _ => ci
  if ci.systemName.get = none then
    ({ ci with systemName := .value env.hostName }, cop.addKey (lit "SystemName") env.hostName)
  else (ci, cop)

/-- `InteropProviderCreateInstance` on a filter, up to the upcall. The status it goes on
with is that of reading `SystemName`. -/
def createFilter (s : State) (env : Env) (cop : ObjectPath) (ci : Instance) :
    Option (State × CMPIStatus × Instance × ObjectPath) :=
  let failed (rc : CMPIrc) (msg : Option CStr) := some (s, CMPIStatus.mk rc msg, ci, cop)
  if ci.creationClassName.get = none then
    failed .ERR_FAILED (some (lit "CreationClassName property not found"))
  else if ci.systemCreationClassName.get = none then
    failed .ERR_FAILED (some (lit "SystemCreationClassName property not found"))
  else if ci.individualSubscriptionSupported.rc = .OK ∧
      ci.individualSubscriptionSupported.get ≠ some true then
    failed .ERR_NOT_SUPPORTED (some (lit ("IndividualSubscriptionSupported property must be TRUE " ++
      "(FilterCollections not available)")))
  else
    match ci.queryLanguage.get, ci.query.get with
    | some lang, some query =>
      let filled := fillIn env ci cop
      let lng := trimLanguage lang
      if strcasecmp lng (lit "wql") ≠ 0 ∧ strcasecmp lng (lit "cql") ≠ 0 ∧
          strcasecmp lng (lit "cim:cql") ≠ 0 then
        failed .ERR_QUERY_LANGUAGE_NOT_SUPPORTED none
      else
        let key := normalizeObjectPathCharsDup filled.2
        if (getFilter s key).isSome then failed .ERR_ALREADY_EXISTS none
        else
          -- what is read from here on is read without a test
          filled.1.sourceNamespace.get.bind fun sns =>
            let qs := env.parseQuery query lng sns
            if qs.2 ≠ 0 then failed .ERR_INVALID_QUERY (some (lit "Query parse error"))
            else
              (addFilter s env.malloc filled.1 key qs.1 query lng sns).map fun s =>
                (s, ⟨ci.systemName.rc, none⟩, filled.1, filled.2)
    | _, _ => failed .ERR_FAILED (some (lit "Query and/or Language property not found"))

/-! ## The instance interface -/

/-- The class of a path, as the provider tells them apart. -/
inductive Kind where
  | subscription
  | filter
  | other
  deriving DecidableEq, Repr

/-- The tests of `cns` that the operations start with. -/
def kindOf (env : Env) (ns cns : CStr) : Kind :=
  if isa env ns cns (lit "cim_indicationsubscription") then .subscription
  else if isa env ns cns (lit "cim_indicationfilter") then .filter
  else .other

/-- The status for any other class. -/
def classNotSupported : CMPIStatus := ⟨.ERR_NOT_SUPPORTED, some (lit "Class not supported")⟩

/-- The upcall that stores a subscription. -/
def storeSubscription (s : State) (env : Env) (key : Key) (ci : Instance) : State :=
  if env.upcall.rc = .OK then
    { s with repository :=
      { s.repository with subscriptions := s.repository.subscriptions.insert key ci } }
  else s

/-- The upcall that stores a filter. -/
def storeFilter (s : State) (env : Env) (key : Key) (ci : Instance) : State :=
  if env.upcall.rc = .OK then
    { s with repository := { s.repository with filters := s.repository.filters.insert key ci } }
  else s

/-- `InteropProviderCreateInstance`. -/
def createInstance (s : State) (env : Env) (cop : ObjectPath) (ci : Instance) :
    Option (State × CMPIStatus) :=
  if !interOpNameSpace cop then some (s, notInterOp)
  else
    match kindOf env cop.nameSpace cop.className with
    | .subscription =>
      (processSubscription s env ci cop).map fun r =>
        if r.2.1.rc = .OK then
          (storeSubscription r.1 env (normalizeObjectPathCharsDup cop) r.2.2, env.upcall)
        else (r.1, r.2.1)
    | .filter =>
      (createFilter s env cop ci).map fun r =>
        if r.2.1.rc = .OK then
          (storeFilter r.1 env (normalizeObjectPathCharsDup r.2.2.2) r.2.2.1, env.upcall)
        else (r.1, r.2.1)
    | .other => some (s, classNotSupported)

/-- The upcall that stores a modified subscription. -/
def restoreSubscription (s : State) (env : Env) (key : Key) (ci : Instance) : State :=
  if env.upcall.rc = .OK then
    { s with repository := { s.repository with
        subscriptions := s.repository.subscriptions.replace key (env.propertyFilter ci) } }
  else s

/-- The value `CMGetProperty` leaves for a number: zero where there is none. -/
def stateValue (p : Property UInt16) : UInt16 := p.get.getD 0

/-- What a changed `SubscriptionState` asks for. -/
def switchTo (old new : Property UInt16) : Option OpType :=
  match new with
  | .value v =>
    if v = 2 ∧ stateValue old ≠ 2 then some .enableIndications
    else if v = 4 ∧ stateValue old ≠ 4 then some .disableIndications
    else none
  | _ => none

/-- `InteropProviderModifyInstance`. -/
def modifyInstance (s : State) (env : Env) (cop : ObjectPath) (ci : Instance) :
    Option (State × CMPIStatus) :=
  match kindOf env (lit "root/interop") cop.className with
  | .subscription =>
    let key := normalizeObjectPathCharsDup cop
    match getSubscription s key with
    | none => some (s, ⟨.ERR_NOT_FOUND, none⟩)
    | some su =>
      let switched := match switchTo su.sci.subscriptionState ci.subscriptionState with
        | some optype => switchIndications s env ci optype
        | none => some s
      switched.map fun s =>
        let s := { s with subscriptionHt := s.subscriptionHt.insert key { su with sci := ci } }
        if ci.subscriptionState.rc = .OK then (restoreSubscription s env key ci, env.upcall)
        else (s, ⟨ci.subscriptionState.rc, none⟩)
  | _ => some (s, classNotSupported)

/-- The requests `InteropProviderDeleteInstance` sends before it removes the last
subscription of a filter; their answers are not used. -/
def deactivateFilter (env : Env) (f : Filter) : Option Unit :=
  if f.useCount = 1 ∧ f.qs.fClasses ≠ [] ∧ env.principal = none then none else some ()

/-- The upcall that deletes a subscription. -/
def unstoreSubscription (s : State) (env : Env) (key : Key) : State :=
  if env.upcall.rc = .OK then
    { s with repository :=
      { s.repository with subscriptions := s.repository.subscriptions.erase key } }
  else s

/-- The upcall that deletes a filter. -/
def unstoreFilter (s : State) (env : Env) (key : Key) : State :=
  if env.upcall.rc = .OK then
    { s with repository := { s.repository with filters := s.repository.filters.erase key } }
  else s

/-- `InteropProviderDeleteInstance`. -/
def deleteInstance (s : State) (env : Env) (cop : ObjectPath) : Option (State × CMPIStatus) :=
  let key := normalizeObjectPathCharsDup cop
  match kindOf env cop.nameSpace cop.className with
  | .subscription =>
    match getSubscription s key with
    | none => some (s, ⟨.ERR_NOT_FOUND, none⟩)
    | some su =>
      (s.filterHt.mem su.fi).bind fun f =>
        (deactivateFilter env f).bind fun _ =>
          (removeSubscription s (some su) key).map fun s =>
            (unstoreSubscription s env key, env.upcall)
  | .filter =>
    match getFilter s key with
    | none => some (s, ⟨.ERR_NOT_FOUND, none⟩)
    | some fi =>
      (s.filterHt.mem fi).map fun f =>
        if f.useCount ≠ 0 then (s, ⟨.ERR_FAILED, some (lit "Filter in use")⟩)
        else (unstoreFilter (removeFilter s fi key) env key, env.upcall)
  | .other => some (s, classNotSupported)

/-! ## The method interface -/

/-- An instance an enumeration comes up with, and what its processing depends on. -/
structure Item where
  cop : ObjectPath
  ci : Instance
  env : Env

/-- The key of an enumerated instance. -/
def Item.key (i : Item) : Key := normalizeObjectPathCharsDup i.cop

/-- One round of the first loop of `initInterOp`. The query is used however it parses. -/
def initFilter (s : State) (i : Item) : Option State :=
  i.ci.query.get.bind fun query =>
    i.ci.queryLanguage.get.bind fun lng =>
      i.ci.sourceNamespace.get.bind fun sns =>
        addFilter s i.env.malloc i.ci i.key (i.env.parseQuery query lng sns).1 query lng sns

/-- One round of the second loop. -/
def initHandler (s : State) (i : Item) : Option State := addHandler s i.env.malloc i.cop

/-- One round of the third loop; the status is not used. -/
def initSubscription (s : State) (i : Item) : Option State :=
  (processSubscription s i.env i.ci i.cop).map (·.1)

/-- A loop over an enumeration. -/
def initAll (round : State → Item → Option State) : State → List Item → Option State
  | s, [] => some s
  | s, i :: items => (round s i).bind fun s => initAll round s items

/-- `initInterOp`, with what the three enumerations come up with; one that fails has
nothing. -/
def initInterOp (s : State) (filters handlers subscriptions : List Item) : Option State :=
  (initAll initFilter s filters).bind fun s =>
    (initAll initHandler s handlers).bind fun s => initAll initSubscription s subscriptions

/-- `InteropProviderInvokeMethod` with `_removeHandler`. -/
def removeHandlerMethod (s : State) (op : ObjectPath) : Option (State × CMPIStatus) :=
  let key := normalizeObjectPathCharsDup op
  match getHandler s key with
  | none => some (s, ⟨.ERR_NOT_FOUND, some (lit "Handler objectnot found")⟩)
  | some ha =>
    (s.handlerHt.mem ha).map fun h =>
      if h.useCount ≠ 0 then (s, ⟨.ERR_FAILED, some (lit "Handler in use")⟩)
      else (removeHandler s ha key, .ok)

/-- The handlers `_deliver` invokes for a filter id, each with the subscription it is
given. Reading the filter's name goes through the id first. -/
def deliver (s : State) (filterId : Addr) : Option (List (ObjectPath × Subscription)) :=
  (s.filterHt.mem filterId).bind fun _ =>
    ((s.subscriptionHt.entries.map (·.2)).filter fun su => su.fi = filterId).mapM fun su =>
      (s.handlerHt.mem su.ha).map fun h => (h.hop, su)

/-- An operation with its arguments. -/
inductive Op where
  | createInstance (env : Env) (cop : ObjectPath) (ci : Instance)
  | modifyInstance (env : Env) (cop : ObjectPath) (ci : Instance)
  | deleteInstance (env : Env) (cop : ObjectPath)
  | addHandler (ref : ObjectPath) (malloc : Addr) (op : ObjectPath)
  | removeHandler (ref op : ObjectPath)
  | startup (ref : ObjectPath) (filters handlers subscriptions : List Item)

/-- The guard all methods share. -/
def invokeMethod (s : State) (ref : ObjectPath) (body : Option (State × CMPIStatus)) :
    Option (State × CMPIStatus) :=
  if !interOpNameSpace ref then some (s, notInterOp) else body

/-- One operation, with the status it returns. -/
def step (s : State) : Op → Option (State × CMPIStatus)
  | .createInstance env cop ci => createInstance s env cop ci
  | .modifyInstance env cop ci => modifyInstance s env cop ci
  | .deleteInstance env cop => deleteInstance s env cop
  | .addHandler ref malloc op =>
    invokeMethod s ref ((addHandler s malloc op).map fun s => (s, .ok))
  | .removeHandler ref op => invokeMethod s ref (removeHandlerMethod s op)
  | .startup ref fs hs subs =>
    invokeMethod s ref ((initInterOp s fs hs subs).map fun s => (s, .ok))

/-- A sequence of operations. -/
def runOps : State → List Op → Option State
  | s, [] => some s
  | s, op :: ops => (step s op).bind fun r => runOps r.1 ops

/-! ## A broker to run the operations in -/

/-- A broker in which everything goes well. -/
def goodEnv : Env where
  isChild _ _ _ := false
  parseQuery _ _ _ := (⟨[lit "CIM_InstCreation"]⟩, 0)
  answer _ _ := .invoked [.OK]
  upcall := .ok
  propertyFilter ci := ci
  hostName := lit "host"
  principal := some (lit "root")
  malloc := 1

/-- A path with one key. -/
def samplePath (className name : String) : ObjectPath :=
  ⟨lit "root/interop", lit className, [(lit "Name", lit name)]⟩

def filterPath : ObjectPath := samplePath "CIM_IndicationFilter" "f"

def handlerPath : ObjectPath := samplePath "CIM_ListenerDestination" "h"

def subscriptionPath : ObjectPath := samplePath "CIM_IndicationSubscription" "s"

/-- Has what a filter and what a subscription needs. -/
def sampleInstance : Instance where
  filter := .value filterPath
  handler := .value handlerPath
  subscriptionState := .value 2
  creationClassName := .value (lit "CIM_IndicationFilter")
  systemCreationClassName := .value (lit "CIM_ComputerSystem")
  systemName := .value (lit "host")
  name := .value (lit "f")
  query := .value (lit "SELECT * FROM CIM_InstCreation")
  queryLanguage := .value (lit "WQL")
  individualSubscriptionSupported := .value true
  sourceNamespace := .value (lit "root/cimv2")
  sourceNamespaces := .value [lit "root/cimv2"]

end Sfcb.InteropProvider
