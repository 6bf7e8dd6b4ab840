import Mathlib.Algebra.Group.Int.Defs
import Mathlib.Algebra.Group.Nat.Defs
import Mathlib.Data.List.Sort
import Sfcb.Lib.Pool
import Sfcb.Cmpi.Status

/-!
# The tables of the interop provider

The provider keeps the registered filters, handlers and subscriptions in three hash
tables (`interopProvider.c`). A subscription points to its filter and its handler, and
these count how many subscriptions do.

Mirroring notes:
- The keys of the tables are what `normalizeObjectPathCharsDup` makes of a path: its
  keys alone, without the class and the namespace. The value of a key is the text that
  function appends for it, which for a reference has its own path in it.
- `NULL` for a table that was not made yet is the empty table. Filters and handlers are
  pointed to, so they have an address; a subscription is only reached through its table.
- `malloc` gives any address that is not in use, so one that was freed can come back.
  `serial` numbers the filters in the order they were made. No code reads it: it tells
  two filters apart that had one address.
- The repository is what the internal provider stores, as far as filters and
  subscriptions go, under the same keys.
- A use count is an `int`. There is no next state for one that leaves its range.
- An instance has the properties the provider reads. `hci`, which nothing reads, and
  `SubscriptionStartTime`, which is only set, are left out.
-/

namespace Sfcb.InteropProvider

open Sfcb.Lib Sfcb.Cmpi

/-- A key of a table. -/
abbrev Key := CStr

/-- `CMPIObjectPath`. -/
structure ObjectPath where
  nameSpace : CStr
  className : CStr
  keys : List (CStr × CStr)
  deriving DecidableEq, Repr

/-- A key with its name in lower case, as it is written into the normal form. -/
def keyText (k : CStr × CStr) : CStr := fold k.1 ++ lit "=" ++ k.2

/-- `normalizeObjectPathCharsDup`: the keys in the order of their names. -/
def normalizeObjectPathCharsDup (op : ObjectPath) : Key :=
  (lit ",").intercalate
    ((op.keys.insertionSort fun k l => strcasecmp k.1 l.1 ≤ 0).map keyText)

/-- `CMAddKey` with a string: the key gets the value, and is appended if it is new. -/
def ObjectPath.addKey (op : ObjectPath) (name value : CStr) : ObjectPath :=
  let text := lit "\"" ++ value ++ lit "\""
  if op.keys.any fun k => strcasecmp k.1 name = 0 then
    { op with keys := op.keys.map fun k => if strcasecmp k.1 name = 0 then (k.1, text) else k }
  else { op with keys := op.keys ++ [(name, text)] }

/-- A property of an instance. -/
inductive Property (α : Type) where
  | absent
  | null
  | value (v : α)
  deriving DecidableEq, Repr

/-- The status `getProperty` sets. -/
def Property.rc {α : Type} : Property α → CMPIrc
  | .absent => .ERR_NOT_FOUND
  | _ => .OK

/-- The value, unless it is `NULL`. -/
def Property.get {α : Type} : Property α → Option α
  | .value v => some v
  | _ => none

/-- `CMPIInstance`. -/
structure Instance where
  filter : Property ObjectPath
  handler : Property ObjectPath
  subscriptionState : Property UInt16
  creationClassName : Property CStr
  systemCreationClassName : Property CStr
  systemName : Property CStr
  name : Property CStr
  query : Property CStr
  queryLanguage : Property CStr
  individualSubscriptionSupported : Property Bool
  sourceNamespace : Property CStr
  sourceNamespaces : Property (List CStr)
  deriving DecidableEq, Repr

/-- `QLStatement`, with the classes of its FROM clause. -/
structure QLStatement where
  fClasses : List CStr
  deriving DecidableEq, Repr

/-- An address. -/
abbrev Addr := Nat

/-- `Filter`. -/
structure Filter where
  fci : Instance
  qs : QLStatement
  useCount : Int
  query : CStr
  lang : CStr
  sns : CStr
  serial : Nat
  deriving DecidableEq, Repr

/-- `Handler`. -/
structure Handler where
  hop : ObjectPath
  useCount : Int
  deriving DecidableEq, Repr

/-- `Subscription`. -/
structure Subscription where
  sci : Instance
  fi : Addr
  ha : Addr
  deriving DecidableEq, Repr

/-- What the internal provider stores. -/
structure Repository where
  filters : Table Key Instance
  subscriptions : Table Key Instance

/-- A filter as a provider knows it: the id it was given, and which filter that was. -/
structure FilterId where
  addr : Addr
  serial : Nat
  deriving DecidableEq, Repr

/-- The tables, the repository, and what the indication providers were told. -/
structure State where
  filterHt : Pool Key Filter
  handlerHt : Pool Key Handler
  subscriptionHt : Table Key Subscription
  repository : Repository
  /-- the filters that were sent to a provider to be activated, and that it still has -/
  active : List FilterId
  /-- the number of filters made so far -/
  serial : Nat

/-- A process that has just started, with what an earlier one stored. -/
def State.boot (repository : Repository) : State := ⟨.empty, .empty, ∅, repository, [], 0⟩

/-! ## Subscriptions -/

/-- `getSubscription`. -/
def getSubscription (s : State) (key : Key) : Option Subscription := s.subscriptionHt.lookup key

/-- An addition of `int`s. -/
def addInt (a n : Int) : Option Int :=
  if -2 ^ 31 ≤ a + n ∧ a + n < 2 ^ 31 then some (a + n) else none

theorem addInt_eq_some {a n b : Int} :
    addInt a n = some b ↔ (-2 ^ 31 ≤ a + n ∧ a + n < 2 ^ 31) ∧ a + n = b := by
  unfold addInt
  split
  · next h => exact ⟨fun heq => ⟨h, Option.some.inj heq⟩, fun heq => congrArg some heq.2⟩
  · next h => exact ⟨fun heq => absurd heq (by simp), fun heq => absurd heq.1 h⟩

/-- `fi->useCount += n`. -/
def addFilterUse (s : State) (fi : Addr) (n : Int) : Option State :=
  (s.filterHt.mem fi).bind fun f =>
    (addInt f.useCount n).map fun useCount =>
      { s with filterHt := s.filterHt.store fi { f with useCount } }

/-- `ha->useCount += n`. -/
def addHandlerUse (s : State) (ha : Addr) (n : Int) : Option State :=
  (s.handlerHt.mem ha).bind fun h =>
    (addInt h.useCount n).map fun useCount =>
      { s with handlerHt := s.handlerHt.store ha { h with useCount } }

/-- `addSubscription`; the second result is `NULL` for a key that is there already. -/
def addSubscription (s : State) (ci : Instance) (key : Key) (fi ha : Addr) :
    Option (State × Option Subscription) :=
  if (s.subscriptionHt.lookup key).isSome then some (s, none)
  else
    (addFilterUse s fi 1).bind fun s =>
      (addHandlerUse s ha 1).map fun s =>
        ({ s with subscriptionHt := s.subscriptionHt.insert key ⟨ci, fi, ha⟩ },
          some ⟨ci, fi, ha⟩)

/-- `removeSubscription`. -/
def removeSubscription (s : State) (su : Option Subscription) (key : Key) : Option State :=
  let s := { s with subscriptionHt := s.subscriptionHt.erase key }
  match su with
  | none => some s
  | some su => (addFilterUse s su.fi (-1)).bind fun s => addHandlerUse s su.ha (-1)

/-! ## Filters and handlers -/

/-- `getFilter`. -/
def getFilter (s : State) (key : Key) : Option Addr := s.filterHt.get key

/-- `addFilter`, at the address `malloc` gives. -/
def addFilter (s : State) (malloc : Addr) (ci : Instance) (key : Key) (qs : QLStatement)
    (query lang sns : CStr) : Option State :=
  if (s.filterHt.get key).isSome then some s
  else if (s.filterHt.mem malloc).isSome then none
  else
    some { s with
      filterHt := s.filterHt.add key malloc ⟨ci, qs, 0, query, lang, sns, s.serial⟩
      serial := s.serial + 1 }

/-- `removeFilter`. -/
def removeFilter (s : State) (fi : Addr) (key : Key) : State :=
  { s with filterHt := s.filterHt.remove key fi }

/-- `getHandler`. -/
def getHandler (s : State) (key : Key) : Option Addr := s.handlerHt.get key

/-- `addHandler`, at the address `malloc` gives. -/
def addHandler (s : State) (malloc : Addr) (op : ObjectPath) : Option State :=
  let key := normalizeObjectPathCharsDup op
  if (s.handlerHt.get key).isSome then some s
  else if (s.handlerHt.mem malloc).isSome then none
  else some { s with handlerHt := s.handlerHt.add key malloc ⟨op, 0⟩ }

/-- `removeHandler`. -/
def removeHandler (s : State) (ha : Addr) (key : Key) : State :=
  { s with handlerHt := s.handlerHt.remove key ha }

end Sfcb.InteropProvider
