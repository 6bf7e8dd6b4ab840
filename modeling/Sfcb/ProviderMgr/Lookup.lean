import Mathlib.Logic.Function.Basic
import Sfcb.ProviderMgr.ProviderRegister

/-!
# Looking providers up

`lookupProvider`, `getAssocProvider` and `getMethodProvider` of `providerMgr.c`. Each goes
up from a class to its superclasses until the register has a provider, and remembers in a
cache what it found.

Mirroring notes:
- `_getConstClass` asks the class provider for a class of a namespace. A `ClassHierarchy` is
  what it answers: no class, or the name of the superclass, if any. Names of classes are
  compared without case. The relation has no cycle, so every way up comes to an end.
- `provHt` has a table for three types only, and `lookupProvider` is called with these.
- `st` is left out.
-/

namespace Sfcb.ProviderMgr

open Sfcb.Lib

/-- `ASSOCIATION_PROVIDER`. -/
def ASSOCIATION_PROVIDER : Nat := 2

/-- `METHOD_PROVIDER`. -/
def METHOD_PROVIDER : Nat := 8

/-- The types that `lookupProvider` is called with. -/
inductive LookupType where
  | INSTANCE_PROVIDER | PROPERTY_PROVIDER | INDICATION_PROVIDER
  deriving Repr, DecidableEq

def LookupType.bit : LookupType → Nat
  | .INSTANCE_PROVIDER => 1
  | .PROPERTY_PROVIDER => 16
  | .INDICATION_PROVIDER => 4

/-- The classes of each namespace. -/
structure ClassHierarchy where
  /-- by namespace and folded class name: no such class, or its superclass, if any -/
  superClass : CStr → CStr → Option (Option CStr)
  depth : CStr → CStr → Nat
  descends : ∀ ns cls p, superClass ns cls = some (some p) → depth ns (fold p) < depth ns cls

/-- `info->type & type`. -/
def ProviderInfo.supports (info : ProviderInfo) (type : Nat) : Bool := info.type &&& type != 0

/-- `nameSpaceOk`, as far as it is about this name. -/
def nameSpaceListed (r : ProviderRegister) (info : ProviderInfo) (nameSpace : CStr) : Bool :=
  (match info.ns with
    | none => false
    | some (first, rest) =>
      strcasecmp first (lit "*") == 0 ||
        (first :: rest).any fun n => strcasecmp n nameSpace == 0) ||
  r.classProvInfoPtr == some info.id

/-- `nameSpaceOk`. -/
def nameSpaceOk (r : ProviderRegister) (info : ProviderInfo) (nameSpace : CStr) : Bool :=
  nameSpaceListed r info nameSpace ||
    (strcasecmp nameSpace (lit "root/pg_interop") == 0 &&
      nameSpaceListed r info (lit "root/interop"))

/-- `getProvider`: the chain of the class, if its head has the type. -/
def getProvider (r : ProviderRegister) (cls : CStr) (type : Nat) : List ProviderInfo :=
  match r.chain cls with
  | [] => []
  | info :: rest => if info.supports type then info :: rest else []

/-- The loop along `nextInRegister`: the chain from the first entry that serves the
namespace. -/
def firstServing (r : ProviderRegister) (nameSpace : CStr) (chain : List ProviderInfo) :
    List ProviderInfo :=
  chain.dropWhile fun info => !nameSpaceOk r info nameSpace

/-- How a search ends. -/
inductive Search where
  | found (cls : CStr) (info : ProviderInfo) (rest : List ProviderInfo)
  | noClass
  | root
  deriving Repr, DecidableEq

/-- The loop over the class and its superclasses; `select` is what is looked for at each. -/
def searchUp (h : ClassHierarchy) (nameSpace : CStr) (select : CStr → List ProviderInfo)
    (cls : CStr) : Search :=
  match select cls with
  | info :: rest => .found cls info rest
  | [] =>
    match _hsuper : h.superClass nameSpace (fold cls) with
    | none => .noClass
    | some none => .root
    | some (some p) => searchUp h nameSpace select p
termination_by h.depth nameSpace (fold cls)
decreasing_by exact h.descends nameSpace (fold cls) p _hsuper

/-- The caches of the provider manager. -/
structure Caches where
  /-- `instanceProviderHt`, `propertyProviderHt` and `indicationProviderHt` -/
  provHt : LookupType → ProviderTable
  assocProviderHt : ProviderTable
  methodProviderHt : ProviderTable

def emptyCaches : Caches := ⟨fun _ => ∅, ∅, ∅⟩

/-- A register with the switch that keeps the default provider from being used. -/
structure Manager where
  register : ProviderRegister
  disableDefaultProvider : Bool

/-- What is returned at the end of the way. -/
def Manager.defaultProvider (m : Manager) : Option Nat :=
  if m.disableDefaultProvider then none else m.register.defaultProvInfoPtr

/-- `ft->put` if `ft->get` finds nothing. -/
def putIfAbsent (ht : ProviderTable) (cls : CStr) (chain : List ProviderInfo) : ProviderTable :=
  if (ht.lookup (fold cls)).isNone then ht.insert (fold cls) chain else ht

/-- `lookupProvider`. -/
def lookupProvider (m : Manager) (h : ClassHierarchy) (c : Caches) (type : LookupType)
    (className nameSpace : CStr) : Caches × Option Nat :=
  let r := m.register
  match firstServing r nameSpace ((c.provHt type).at (fold className)) with
  | info :: _ => (c, some info.id)
  | [] =>
    match searchUp h nameSpace
        (fun cls => firstServing r nameSpace (getProvider r cls type.bit)) className with
    | .found cls info rest =>
      let ht := putIfAbsent (c.provHt type) cls (info :: rest)
      ({ c with provHt := Function.update c.provHt type ht }, some info.id)
    | .noClass => (c, none)
    | .root => (c, m.defaultProvider)

/-- The head of a chain goes into the cache. -/
def cacheHead (ht : ProviderTable) (cls : CStr) : List ProviderInfo → ProviderTable
  | [] => ht
  | info :: rest => putIfAbsent ht cls (info :: rest)

/-- The loop of `getAssocProvider`: the head goes into the cache whether or not the chain has
a provider for the namespace. -/
def assocSearch (m : Manager) (h : ClassHierarchy) (nameSpace : CStr) (ht : ProviderTable)
    (cls : CStr) : ProviderTable × Option Nat :=
  let chain := getProvider m.register cls ASSOCIATION_PROVIDER
  let ht := cacheHead ht cls chain
  match firstServing m.register nameSpace chain with
  | info :: _ => (ht, some info.id)
  | [] =>
    match _hsuper : h.superClass nameSpace (fold cls) with
    | none => (ht, none)
    | some none => (ht, m.defaultProvider)
    | some (some p) => assocSearch m h nameSpace ht p
termination_by h.depth nameSpace (fold cls)
decreasing_by exact h.descends nameSpace (fold cls) p _hsuper

/-- `getAssocProvider`. -/
def getAssocProvider (m : Manager) (h : ClassHierarchy) (c : Caches)
    (className nameSpace : CStr) : Caches × Option Nat :=
  match firstServing m.register nameSpace (c.assocProviderHt.at (fold className)) with
  | info :: _ => (c, some info.id)
  | [] =>
    let out := assocSearch m h nameSpace c.assocProviderHt className
    ({ c with assocProviderHt := out.1 }, out.2)

/-- `interopClass`. -/
def interopClass (className : CStr) : Bool :=
  strcasecmp className (lit "cim_indicationfilter") == 0 ||
    strcasecmp className (lit "cim_indicationsubscription") == 0

/-- `getMethodProvider`. -/
def getMethodProvider (m : Manager) (h : ClassHierarchy) (c : Caches)
    (className nameSpace : CStr) : Caches × Option Nat :=
  match c.methodProviderHt.at (fold className) with
  | info :: _ => (c, some info.id)
  | [] =>
    if interopClass className then (c, m.register.interOpProvInfoPtr)
    else
      match searchUp h nameSpace (fun cls => getProvider m.register cls METHOD_PROVIDER)
          className with
      | .found _ info rest =>
        ({ c with methodProviderHt := c.methodProviderHt.insert (fold className) (info :: rest) },
          some info.id)
      | .noClass => (c, none)
      | .root =>
        (c, if interopClass className then some forceNoProvInfoPtr else m.defaultProvider)

end Sfcb.ProviderMgr
