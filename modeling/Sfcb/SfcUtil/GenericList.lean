import Mathlib.Logic.Function.Basic

/-!
# The generic list

`genericlist.c`: the lists of the broker, with the functions that `UtilList` gives out. A list
is doubly linked, between an element in front of it and one behind it that are part of its
header. The header also has the cursor of the walks, and an element that takes the place of the
current one when that is removed: it keeps the neighbours that the removed element had.

Mirroring notes:
- The fields of the elements are maps from addresses. An element that `malloc` gives has an
  address that was not in use before, so a freed element stays apart from all later ones.
- The outcome `none` is a read or a write of a freed element.
- What the list holds are addresses of objects; `NULL` is `none`. An operation that is given
  `NULL` writes a message and does nothing.
- `emalloc` ends the process when there is no memory.
- The loops are left after as many rounds as there have been elements.
-/

namespace Sfcb.SfcUtil

/-- Where an element is: in the header, or allocated. -/
inductive Addr where
  | preElement
  | postElement
  | deletedElement
  | element (n : Nat)
deriving DecidableEq, Repr

/-- `Generic_list_info`, with the elements. -/
structure GenericListInfo (α : Type) where
  current : Addr
  pointer : Addr → Option α
  previous : Addr → Addr
  next : Addr → Addr
  allocated : Addr → Bool
  numOfElements : UInt32
  fresh : Nat

/-- `initialize_list`. The neighbours of the deleted element are not set before one is
removed. -/
def initializeList (α : Type) : GenericListInfo α where
  current := .preElement
  pointer := fun _ => none
  previous := fun _ => .preElement
  next := fun _ => .postElement
  allocated
    | .element _ => false
    | _ => true
  numOfElements := 0
  fresh := 0

namespace GenericListInfo

variable {α : Type} (l : GenericListInfo α)

/-! ## Elements -/

/-- The pointer of an element is read. -/
def getPointer (a : Addr) : Option (Option α) := if l.allocated a then some (l.pointer a) else none

def getNext (a : Addr) : Option Addr := if l.allocated a then some (l.next a) else none

def getPrevious (a : Addr) : Option Addr := if l.allocated a then some (l.previous a) else none

def setNext (a b : Addr) : Option (GenericListInfo α) :=
  if l.allocated a then some { l with next := Function.update l.next a b } else none

def setPrevious (a b : Addr) : Option (GenericListInfo α) :=
  if l.allocated a then some { l with previous := Function.update l.previous a b } else none

/-- `NEW(Generic_list_element)`, with its fields. -/
def newElement (previous next : Addr) (pointer : α) : GenericListInfo α :=
  { l with
    pointer := Function.update l.pointer (.element l.fresh) (some pointer)
    previous := Function.update l.previous (.element l.fresh) previous
    next := Function.update l.next (.element l.fresh) next
    allocated := Function.update l.allocated (.element l.fresh) true
    fresh := l.fresh + 1 }

/-- `free`, with the count. -/
def freeElement (a : Addr) : GenericListInfo α :=
  { l with
    allocated := Function.update l.allocated a false
    numOfElements := l.numOfElements - 1 }

/-- The deleted element takes the place of an element, as the current one. -/
def standIn (a : Addr) : GenericListInfo α :=
  { l with
    previous := Function.update l.previous .deletedElement (l.previous a)
    next := Function.update l.next .deletedElement (l.next a)
    current := .deletedElement }

/-! ## Adding -/

/-- `add_to_beginning`. -/
def addToBeginning (pointer : Option α) : Option (GenericListInfo α) :=
  match pointer with
  | none => some l
  | some x => do
    let element := Addr.element l.fresh
    let l := l.newElement .preElement (l.next .preElement) x
    let l ← l.setPrevious (l.next .preElement) element
    let l ← l.setNext .preElement element
    return { l with numOfElements := l.numOfElements + 1 }

/-- `add_to_end`. -/
def addToEnd (pointer : Option α) : Option (GenericListInfo α) :=
  match pointer with
  | none => some l
  | some x => do
    let element := Addr.element l.fresh
    let l := l.newElement (l.previous .postElement) .postElement x
    let l ← l.setNext (l.previous .postElement) element
    let l ← l.setPrevious .postElement element
    return { l with numOfElements := l.numOfElements + 1 }

/-! ## Removing -/

/-- The loop of `remove_from_list`, from the end. -/
def searchBack [DecidableEq α] (pointer : Option α) : Nat → Addr → Option Addr
  | 0, _ => none
  | left + 1, element =>
    if element = .preElement then some element
    else do
      let p ← l.getPointer element
      if p = pointer then return element
      searchBack pointer left (l.previous element)

/-- `remove_from_list`. -/
def removeFromList [DecidableEq α] (pointer : Option α) :
    Option (GenericListInfo α × Option α) := do
  let element ← l.searchBack pointer (l.fresh + 1) (l.previous .postElement)
  if element = .preElement then return (l, none)
  let l := if element = l.current then l.standIn element else l
  let l ← l.setNext (l.previous element) (l.next element)
  let l ← l.setPrevious (l.next element) (l.previous element)
  return (l.freeElement element, pointer)

/-- `remove_from_beginning`. -/
def removeFromBeginning : Option (GenericListInfo α × Option α) :=
  if l.numOfElements = 0 then some (l, none)
  else do
    let element := l.next .preElement
    let l := if element = l.current then { l with current := .preElement } else l
    let pointer ← l.getPointer element
    let l ← l.setNext .preElement (l.next element)
    let l ← l.setPrevious (l.next element) .preElement
    return (l.freeElement element, pointer)

/-- `remove_from_end`. -/
def removeFromEnd : Option (GenericListInfo α × Option α) :=
  if l.numOfElements = 0 then some (l, none)
  else do
    let element := l.previous .postElement
    let l := if element = l.current then { l with current := .postElement } else l
    let pointer ← l.getPointer element
    let l ← l.setPrevious .postElement (l.previous element)
    let l ← l.setNext (l.previous element) .postElement
    return (l.freeElement element, pointer)

/-- `remove_current`. -/
def removeCurrent : Option (GenericListInfo α × Option α) := do
  let element := l.current
  let pointer ← l.getPointer element
  if pointer.isNone then return (l, none)
  let l := l.standIn element
  let l ← l.setPrevious (l.next element) (l.previous element)
  let l ← l.setNext (l.previous element) (l.next element)
  return (l.freeElement element, pointer)

/-- The loop of `remove_all`. Each element is freed through the one behind it. -/
def freeFrom : Nat → GenericListInfo α → Addr → Option (GenericListInfo α)
  | 0, _, _ => none
  | left + 1, l, element =>
    if element = .postElement then some l
    else do
      let element ← l.getNext element
      let before ← l.getPrevious element
      freeFrom left { l with allocated := Function.update l.allocated before false } element

/-- `remove_all`. -/
def removeAll : Option (GenericListInfo α) := do
  let l ← freeFrom (l.fresh + 1) l (l.next .preElement)
  return { l with
    next := Function.update l.next .preElement .postElement
    previous := Function.update l.previous .postElement .preElement
    numOfElements := 0 }

/-! ## Walking -/

/-- The cursor is set, and the pointer that is there is read. -/
def moveTo (a : Addr) : Option (GenericListInfo α × Option α) := do
  let pointer ← l.getPointer a
  return ({ l with current := a }, pointer)

/-- `first_in_list`, after `reset_to_beginning`. -/
def firstInList : Option (GenericListInfo α × Option α) := do
  let second ← l.getNext (l.next .preElement)
  let first ← l.getPrevious second
  l.moveTo first

/-- `last_in_list`. -/
def lastInList : Option (GenericListInfo α × Option α) := do
  let second ← l.getPrevious (l.previous .postElement)
  let last ← l.getNext second
  l.moveTo last

/-- `next_in_list`. -/
def nextInList : Option (GenericListInfo α × Option α) := do
  let a ← l.getNext l.current
  l.moveTo a

/-- `previous_in_list`. -/
def previousInList : Option (GenericListInfo α × Option α) := do
  let a ← l.getPrevious l.current
  l.moveTo a

/-- `current_in_list`. -/
def currentInList : Option (GenericListInfo α × Option α) := l.moveTo l.current

/-- The loop of `is_in_list`. -/
def search [DecidableEq α] (pointer : Option α) : Nat → Addr → Option Addr
  | 0, _ => none
  | left + 1, element =>
    if element = .postElement then some element
    else do
      let p ← l.getPointer element
      if p = pointer then return element
      search pointer left (l.next element)

/-- `is_in_list`. -/
def isInList [DecidableEq α] (pointer : Option α) : Option Bool := do
  let element ← l.search pointer (l.fresh + 1) (l.next .preElement)
  return element ≠ .postElement

end GenericListInfo

end Sfcb.SfcUtil
