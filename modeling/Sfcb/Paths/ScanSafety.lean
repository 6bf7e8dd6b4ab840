import Sfcb.Paths.StoredKeys

/-!
# Reading a path within its text

`getObjectPath` again, with the pointers that it moves in its copy of the text, and with its
`msg` argument. `returns_iff` says for which texts it returns, be it with a path or with null
and a message: `Orderly` is a grammar of these texts and of what they say. It always stops.

A reference is read, printed, and stored as a text, and that is read again when the path with the
reference is printed. `Printed` is what comes out. The `=` in a text say how deep that goes.

Mirroring notes:
- A pointer is a `Place` in the copy. To move it behind the end, to read in front of the copy,
  and to copy a negative number of bytes is a `fault`, as is writing through a null pointer, and
  what `op->ft->addKey` does to its memory.
- Lengths are `int` in the source: texts are shorter than 2 ^ 31 bytes here.
- `atol` saturates, as `strtol` does.
- A reference is read with `msg` null, and may be null. It is read again with a `msg`.
-/

namespace Sfcb.Paths.ScanSafety

open Sfcb.Lib

/-! ## Places -/

/-- Why there is no outcome. -/
inductive Stop where
  | fault | outOfFuel
  deriving DecidableEq, Repr

abbrev Scan := Except Stop

/-- A pointer: what is in front of it in the copy, and from it on. -/
structure Place where
  before : CStr
  after : CStr
  deriving DecidableEq, Repr

/-- `p + 1`. -/
def Place.next (p : Place) : Scan Place :=
  match p.after with
  | [] => .error .fault
  | c :: rest => .ok ⟨p.before ++ [c], rest⟩

/-- `*(p - 1)`. -/
def Place.prev (p : Place) : Scan UInt8 :=
  match p.before.getLast? with
  | none => .error .fault
  | some c => .ok c

/-- `q - p`. -/
def Place.sub (q p : Place) : Int := q.before.length - p.before.length

/-- `strpbrk`, or `strchr`. -/
def Place.find (found : UInt8 → Bool) (p : Place) : Option Place :=
  (cutAt found p.after).map fun cut => ⟨p.before ++ cut.1, cut.2.1 :: cut.2.2⟩

/-- `strnDup`. -/
def strnDup (n : Place) (l : Int) : Scan CStr :=
  if l < 0 then .error .fault else .ok (n.after.take l.toNat)

/-- `refLookAhead`. -/
def lookAhead (u : Place) : Option Place :=
  (refLookAhead .start 0 u.after).map fun n => ⟨u.before ++ u.after.take n, u.after.drop n⟩

/-! ## The code -/

/-- What `getObjectPath` returns: a path, or null, and then what is in `*msg`. -/
inductive Returned where
  | path (op : Path)
  | null (msg : Option CStr)
  deriving DecidableEq, Repr

/-- `if (msg) *msg = text`. -/
def message (msg : Bool) (text : String) : Option CStr := if msg then some (lit text) else none

/-- A call that leaves its memory. -/
def orFault {α : Type} : Option α → Scan α
  | none => .error .fault
  | some a => .ok a

section Printing

variable (read : CStr → Scan Returned)

/-- `getKeyAt` and `sfcb_value2Chars`: a reference is read, and printed by `toString`. -/
def valueChars (print : Path → Scan CStr) : KeyValue → Scan CStr
  | .chars s => .ok (34 :: (s ++ [34]))
  | .sint64 n | .uint64 n => .ok (printInt n)
  | .ref text => do
    match ← read text with
    | .null _ => pure []
    | .path op =>
      let t ← print op
      orFault (if fits t then some t else none)
  | .null => .ok []
  | .stale _ => .error .fault

def keyTexts (print : Path → Scan CStr) : List (CStr × KeyValue) → Scan (List CStr)
  | [] => .ok []
  | (name, v) :: keys => do
    let t ← valueChars read print v
    let ts ← keyTexts print keys
    pure ((name ++ 61 :: t) :: ts)

/-- `sfcb_pathToChars`. -/
def pathToChars : Nat → Path → Scan CStr
  | 0, _ => .error .outOfFuel
  | fuel + 1, op => do
    let ts ← keyTexts read (pathToChars fuel) op.keys
    pure (pathChars op.nameSpace op.className ts)

end Printing

def atol (s : CStr) : Int :=
  let n : Int := match s with
    | 45 :: ds => -(scanDigits 10 0 ds).1
    | 43 :: ds => (scanDigits 10 0 ds).1
    | ds => (scanDigits 10 0 ds).1
  max (-2 ^ 63) (min n (2 ^ 63 - 1))

/-- What a key is added with that is no reference, if it is added. -/
def keyData (val : CStr) : Option KeyValue :=
  match val with
  | [] => none
  | c :: rest =>
    if c = 34 then some (.chars rest.dropLast)
    else if c = 45 ∨ c = 43 then some (.sint64 (atol val))
    else if isDigit c then some (.uint64 (atol val))
    else none

section Adding

variable (read : CStr → Scan Returned) (print : Path → Scan CStr)

/-- The value of a reference: the path is printed where `op->ft->addKey` does so. -/
def refData (op : Path) (name val : CStr) : Scan KeyValue := do
  match ← read val with
  | .null _ => pure .null
  | .path keyOp =>
    if op.prints name then do
      let text ← print keyOp
      pure (.ref text)
    else pure (.ref [])

/-- `addKey`, which writes a zero where the first `=` is. -/
def addKey (op : Path) (kd : CStr) (ref : Bool) : Scan Path :=
  match cutAt (fun c => c = 61) kd with
  | none => .error .fault
  | some (name, _, val) =>
    if ref then do
      let d ← refData read print op name val
      orFault (op.addKey name d)
    else
      match keyData val with
      | none => pure op
      | some d => orFault (op.addKey name d)

end Adding

/-- What a round of the loop finds: the last key, a key and where to go on, or an error. -/
inductive Cut where
  | last (ref : Bool)
  | key (t : CStr) (ref : Bool) (u : Place)
  | refused (msg : Option CStr)
  deriving DecidableEq, Repr

/-- `t = strnDup(u, p - u)`, and `p + 1`. -/
def cutBefore (u p : Place) (ref : Bool) : Scan Cut := do
  let t ← strnDup u (p.sub u)
  let u ← p.next
  pure (.key t ref u)

/-- A round of the loop in `getObjectPath`. -/
def cutKey (msg : Bool) (u : Place) : Scan Cut :=
  match lookAhead u with
  | some un => if un.after = [] then pure (.last true) else cutBefore u un true
  | none =>
    match u.find fun c => c = 44 || c = 34 with
    | none => pure (.last false)
    | some p =>
      if p.after.head? = some 34 then do
        if (← p.prev) ≠ 61 then pure (.refused (message msg "Incorrectly quoted string 1"))
        else
          let p ← p.next
          match p.find fun c => c = 34 with
          | none => pure (.refused (message msg "Unbalanced quoted string"))
          | some p =>
            let p ← p.next
            match p.after with
            | [] => pure (.last false)
            | c :: _ =>
              if c = 44 then cutBefore u p false
              -- this message is written without a look at `msg`
              else if msg then pure (.refused (some (lit "Incorrectly quoted string 2")))
              else .error .fault
      else cutBefore u p false

/-- The loop, and the last key behind it. -/
def keyLoop (read : CStr → Scan Returned) (print : Path → Scan CStr) (msg : Bool) :
    Nat → Place → Path → Scan Returned
  | 0, _, _ => .error .outOfFuel
  | fuel + 1, u, op => do
    match ← cutKey msg u with
    | .refused m => pure (.null m)
    | .last ref =>
      if u.after = [] then pure (.path op)
      else
        let op ← addKey read print op u.after ref
        pure (.path op)
    | .key t ref u =>
      let op ← addKey read print op t ref
      keyLoop read print msg fuel u op

/-- The namespace in front of a colon, and where the class name begins. -/
def nameSpaceOf (u : Place) : Scan (Option CStr × Place) :=
  match u.find fun c => c = 58 with
  | none => pure (none, u)
  | some pp => do
    let nname ← strnDup u (pp.sub u)
    let u ← pp.next
    pure (some nname, u)

/-- `getObjectPath`. -/
def getObjectPath : Nat → Bool → CStr → Scan Returned
  | 0, _, _ => .error .outOfFuel
  | fuel + 1, msg, path => do
    let u : Place := ⟨[], path⟩
    match u.find fun c => c = 46 with
    | none =>
      let (nname, u) ← nameSpaceOf u
      let op ← orFault (newObjectPath nname u.after)
      pure (.path op)
    | some p =>
      let (nname, u) ← nameSpaceOf u
      let cname ← strnDup u (p.sub u)
      let u ← p.next
      let op ← orFault (newObjectPath nname cname)
      keyLoop (getObjectPath fuel false) (pathToChars (getObjectPath fuel true) fuel) msg
        (path.length + 1) u op

/-! ## A round of the loop -/

/-- No comma and no quote. -/
def NoMark (s : CStr) : Prop := ∀ b ∈ s, b ≠ 44 ∧ b ≠ 34

/-- A quote, behind a `=`. -/
structure Opens (u : Place) (front rest : CStr) : Prop where
  text : u.after = front ++ 34 :: rest
  noRef : refLookAhead .start 0 u.after = none
  noMark : NoMark front
  assigned : (u.before ++ front).getLast? = some 61

/-- How a text begins, and what is found there. -/
inductive Cuts (msg : Bool) (u : Place) : Cut → Prop
  | lastRef (h : refLookAhead .start 0 u.after = some u.after.length) : Cuts msg u (.last true)
  | ref (t rest : CStr) (c : UInt8) (hu : u.after = t ++ c :: rest)
      (h : refLookAhead .start 0 u.after = some t.length) :
      Cuts msg u (.key t true ⟨u.before ++ t ++ [c], rest⟩)
  | last (h : refLookAhead .start 0 u.after = none) (hmark : NoMark u.after) :
      Cuts msg u (.last false)
  | plain (t rest : CStr) (hu : u.after = t ++ 44 :: rest)
      (h : refLookAhead .start 0 u.after = none) (hmark : NoMark t) :
      Cuts msg u (.key t false ⟨u.before ++ t ++ [44], rest⟩)
  | unassigned (front rest : CStr) (hu : u.after = front ++ 34 :: rest)
      (h : refLookAhead .start 0 u.after = none) (hmark : NoMark front)
      (hprev : (u.before ++ front).getLast? ≠ some 61) :
      Cuts msg u (.refused (message msg "Incorrectly quoted string 1"))
  | unbalanced (front rest : CStr) (h : Opens u front rest) (hrest : 34 ∉ rest) :
      Cuts msg u (.refused (message msg "Unbalanced quoted string"))
  | lastString (front s : CStr) (h : Opens u front (s ++ [34])) (hs : 34 ∉ s) :
      Cuts msg u (.last false)
  | string (front s rest : CStr) (h : Opens u front (s ++ 34 :: 44 :: rest)) (hs : 34 ∉ s) :
      Cuts msg u (.key (front ++ 34 :: (s ++ [34])) false
        ⟨u.before ++ (front ++ 34 :: (s ++ [34])) ++ [44], rest⟩)
  | trailing (front s rest : CStr) (c : UInt8) (h : Opens u front (s ++ 34 :: c :: rest))
      (hs : 34 ∉ s) (hc : c ≠ 44) (hmsg : msg = true) :
      Cuts msg u (.refused (some (lit "Incorrectly quoted string 2")))

section Round

variable {u : Place} {msg : Bool} {front rest s t : CStr}

theorem find_eq {found : UInt8 → Bool} {c : UInt8} (hu : u.after = t ++ c :: rest)
    (hc : found c = true) (ht : ∀ b ∈ t, found b = false) :
    u.find found = some ⟨u.before ++ t, c :: rest⟩ := by
  unfold Place.find
  rw [hu, cutAt_append hc ht]
  rfl

theorem find_none {found : UInt8 → Bool} (h : ∀ b ∈ u.after, found b = false) :
    u.find found = none := by
  unfold Place.find
  rw [cutAt_eq_none_iff.mpr h]
  rfl

theorem NoMark.found (h : NoMark t) : ∀ b ∈ t, (b = 44 || b = 34) = false := by
  intro b hb
  have := h b hb
  simp [this.1, this.2]

theorem notQuote (h : 34 ∉ s) : ∀ b ∈ s, decide (b = 34) = false := by
  intro b hb
  have hne : b ≠ 34 := fun he => h (he ▸ hb)
  simpa using hne

/-- What is in front of a place in the text is copied. -/
theorem cutBefore_eq {c : UInt8} (hu : u.after = t ++ c :: rest) (ref : Bool) :
    cutBefore u ⟨u.before ++ t, c :: rest⟩ ref =
      .ok (.key t ref ⟨u.before ++ t ++ [c], rest⟩) := by
  have hsub : Place.sub ⟨u.before ++ t, c :: rest⟩ u = t.length := by
    unfold Place.sub
    rw [List.length_append]
    omega
  unfold cutBefore strnDup
  rw [hsub, if_neg (by omega), Int.toNat_natCast, hu, List.take_left]
  rfl

theorem lookAhead_none (h : refLookAhead .start 0 u.after = none) : lookAhead u = none := by
  unfold lookAhead
  rw [h]
  rfl

/-- The code up to the closing quote. -/
theorem Opens.cutKey_eq (h : Opens u front rest) : cutKey msg u =
    match Place.find (fun c => c = 34) ⟨u.before ++ front ++ [34], rest⟩ with
    | none => .ok (.refused (message msg "Unbalanced quoted string"))
    | some p => (p.next).bind fun p =>
      match p.after with
      | [] => .ok (.last false)
      | c :: _ =>
        if c = 44 then cutBefore u p false
        else if msg then .ok (.refused (some (lit "Incorrectly quoted string 2")))
        else .error .fault := by
  unfold cutKey
  rw [lookAhead_none h.noRef, find_eq h.text rfl h.noMark.found]
  have hprev : Place.prev ⟨u.before ++ front, 34 :: rest⟩ = .ok 61 := by
    unfold Place.prev
    rw [h.assigned]
  simp only [List.head?_cons, if_true, hprev]
  rfl

/-- What the grammar says is found. A quote may be the first byte, but never of the copy. -/
theorem Cuts.cutKey_eq {cut : Cut} (h : Cuts msg u cut) (hb : u.before ≠ []) :
    cutKey msg u = .ok cut := by
  cases h with
  | lastRef h =>
    unfold cutKey lookAhead
    rw [h, Option.map_some, List.drop_length]
    rfl
  | ref t rest c hu h =>
    have hlook : lookAhead u = some ⟨u.before ++ t, c :: rest⟩ := by
      unfold lookAhead
      rw [h, Option.map_some, hu, List.take_left, List.drop_left]
    unfold cutKey
    rw [hlook]
    exact cutBefore_eq hu true
  | last h hmark =>
    unfold cutKey
    rw [lookAhead_none h, find_none hmark.found]
    rfl
  | plain t rest hu h hmark =>
    unfold cutKey
    rw [lookAhead_none h, find_eq hu rfl hmark.found]
    exact cutBefore_eq hu false
  | unassigned front rest hu h hmark hprev =>
    obtain ⟨c, hc⟩ : ∃ c, (u.before ++ front).getLast? = some c :=
      ⟨_, List.getLast?_eq_some_getLast (List.append_ne_nil_of_left_ne_nil hb front)⟩
    have hread : Place.prev ⟨u.before ++ front, 34 :: rest⟩ = .ok c := by
      unfold Place.prev
      rw [hc]
    have hne : c ≠ 61 := fun he => hprev (he ▸ hc)
    unfold cutKey
    rw [lookAhead_none h, find_eq hu rfl hmark.found]
    simp only [List.head?_cons, if_true, hread]
    exact if_pos hne
  | unbalanced front rest h hrest =>
    rw [h.cutKey_eq, find_none (notQuote hrest)]
  | lastString front s h hs =>
    rw [h.cutKey_eq, @find_eq ⟨u.before ++ front ++ [34], s ++ [34]⟩ [] s _ 34 rfl rfl (notQuote hs)]
    rfl
  | string front s rest h hs =>
    rw [h.cutKey_eq, @find_eq ⟨u.before ++ front ++ [34], s ++ 34 :: 44 :: rest⟩ (44 :: rest) s _ 34
      rfl rfl (notQuote hs)]
    have hplace : u.before ++ front ++ [34] ++ s ++ [34] =
        u.before ++ (front ++ 34 :: (s ++ [34])) := by simp
    have htext : u.after = (front ++ 34 :: (s ++ [34])) ++ 44 :: rest := by
      rw [h.text]
      simp
    show cutBefore u ⟨u.before ++ front ++ [34] ++ s ++ [34], 44 :: rest⟩ false = _
    rw [hplace, cutBefore_eq htext]
  | trailing front s rest c h hs hc hmsg =>
    rw [h.cutKey_eq, @find_eq ⟨u.before ++ front ++ [34], s ++ 34 :: c :: rest⟩ (c :: rest) s _ 34
      rfl rfl (notQuote hs)]
    show (if c = 44 then _ else _) = _
    rw [if_neg hc, if_pos hmsg]

/-- The grammar covers every text, but for one that would write through a null pointer. -/
theorem cuts_or_fault (msg : Bool) (u : Place) :
    (∃ cut, Cuts msg u cut) ∨ cutKey msg u = .error .fault := by
  cases hlook : refLookAhead .start 0 u.after with
  | some n =>
    obtain ⟨t, r, hu, rfl, -⟩ := refLookAhead_eq_some hlook
    rw [Nat.zero_add] at hlook
    cases r with
    | nil =>
      rw [List.append_nil] at hu
      exact .inl ⟨_, .lastRef (by rw [hlook, hu])⟩
    | cons c rest => exact .inl ⟨_, .ref t rest c hu hlook⟩
  | none =>
    cases hcut : cutAt (fun c => c = 44 || c = 34) u.after with
    | none =>
      have hmark : NoMark u.after := fun b hb => by
        simpa using cutAt_eq_none_iff.mp hcut b hb
      exact .inl ⟨_, .last hlook hmark⟩
    | some cut =>
      obtain ⟨front, c, rest⟩ := cut
      obtain ⟨hu, hc, hfront⟩ := cutAt_eq_some_iff.mp hcut
      have hmark : NoMark front := fun b hb => by simpa using hfront b hb
      rw [Bool.or_eq_true, decide_eq_true_iff, decide_eq_true_iff] at hc
      obtain rfl | rfl := hc
      · exact .inl ⟨_, .plain front rest hu hlook hmark⟩
      by_cases hprev : (u.before ++ front).getLast? = some 61
      · have hopens : Opens u front rest := ⟨hu, hlook, hmark, hprev⟩
        cases hclose : cutAt (fun c => c = 34) rest with
        | none =>
          exact .inl ⟨_, .unbalanced front rest hopens fun hmem =>
            absurd (cutAt_eq_none_iff.mp hclose 34 hmem) (by decide)⟩
        | some cut =>
          obtain ⟨s, c, rest'⟩ := cut
          obtain ⟨rfl, hc, hs⟩ := cutAt_eq_some_iff.mp hclose
          obtain rfl := of_decide_eq_true hc
          have hs : 34 ∉ s := fun hmem => absurd (hs 34 hmem) (by decide)
          cases rest' with
          | nil => exact .inl ⟨_, .lastString front s hopens hs⟩
          | cons c rest' =>
            by_cases hc : c = 44
            · exact .inl ⟨_, .string front s rest' (hc ▸ hopens) hs⟩
            · cases msg with
              | true => exact .inl ⟨_, .trailing front s rest' c hopens hs hc rfl⟩
              | false =>
                refine .inr ?_
                rw [hopens.cutKey_eq, @find_eq ⟨u.before ++ front ++ [34], s ++ 34 :: c :: rest'⟩
                  (c :: rest') s _ 34 rfl rfl (notQuote hs)]
                show (if c = 44 then _ else _) = _
                rw [if_neg hc]
                rfl
      · exact .inl ⟨_, .unassigned front rest hu hlook hmark hprev⟩

end Round

/-! ## The texts that can be read -/

/-- The namespace and the class in the text in front of the dot. -/
inductive Header : CStr → Option CStr → CStr → Prop
  | plain (cn : CStr) (h : 58 ∉ cn) : Header cn none cn
  | qualified (ns cn : CStr) (h : 58 ∉ ns) : Header (ns ++ 58 :: cn) (some ns) cn

mutual

/-- A text without a dot; or keys behind a dot, and then there is no colon that comes only
behind the dot. -/
inductive Orderly : Bool → CStr → Returned → Prop
  | noKeys (msg : Bool) (front : CStr) (ns : Option CStr) (cn : CStr) (op : Path)
      (hdot : 46 ∉ front) (hhead : Header front ns cn) (hnew : newObjectPath ns cn = some op) :
      Orderly msg front (.path op)
  | keys (msg : Bool) (front rest : CStr) (ns : Option CStr) (cn : CStr) (op : Path) (r : Returned)
      (hdot : 46 ∉ front) (hhead : Header front ns cn) (hcolon : ns = none → 58 ∉ rest)
      (hnew : newObjectPath ns cn = some op)
      (hkeys : OrderlyKeys msg ⟨front ++ [46], rest⟩ op r) : Orderly msg (front ++ 46 :: rest) r

/-- Keys up to the end, or up to an error with a message. -/
inductive OrderlyKeys : Bool → Place → Path → Returned → Prop
  | done (msg : Bool) (u : Place) (op : Path) (ref : Bool) (h : Cuts msg u (.last ref))
      (hend : u.after = []) : OrderlyKeys msg u op (.path op)
  | last (msg : Bool) (u : Place) (op op' : Path) (ref : Bool) (h : Cuts msg u (.last ref))
      (hend : u.after ≠ []) (hkey : OrderlyKey ref u.after op op') :
      OrderlyKeys msg u op (.path op')
  | refused (msg : Bool) (u : Place) (op : Path) (m : Option CStr) (h : Cuts msg u (.refused m)) :
      OrderlyKeys msg u op (.null m)
  | key (msg : Bool) (u u' : Place) (t : CStr) (ref : Bool) (op op' : Path) (r : Returned)
      (h : Cuts msg u (.key t ref u')) (hkey : OrderlyKey ref t op op')
      (hrest : OrderlyKeys msg u' op' r) : OrderlyKeys msg u op r

/-- A name, `=`, and a value that the path takes. -/
inductive OrderlyKey : Bool → CStr → Path → Path → Prop
  | skipped (name val : CStr) (op : Path) (hname : 61 ∉ name) (hdata : keyData val = none) :
      OrderlyKey false (name ++ 61 :: val) op op
  | plain (name val : CStr) (d : KeyValue) (op op' : Path) (hname : 61 ∉ name)
      (hdata : keyData val = some d) (hadd : op.addKey name d = some op') :
      OrderlyKey false (name ++ 61 :: val) op op'
  | ref (name val : CStr) (d : KeyValue) (op op' : Path) (hname : 61 ∉ name)
      (hdata : OrderlyRef op name val d) (hadd : op.addKey name d = some op') :
      OrderlyKey true (name ++ 61 :: val) op op'

/-- The value of a reference is read without a place for a message. -/
inductive OrderlyRef : Path → CStr → CStr → KeyValue → Prop
  | unread (op : Path) (name val : CStr) (m : Option CStr) (h : Orderly false val (.null m)) :
      OrderlyRef op name val .null
  | copied (op keyOp : Path) (name val : CStr) (h : Orderly false val (.path keyOp))
      (hprints : op.prints name = false) : OrderlyRef op name val (.ref [])
  | printed (op keyOp : Path) (name val text : CStr) (h : Orderly false val (.path keyOp))
      (hprints : op.prints name = true) (htext : Printed keyOp text) :
      OrderlyRef op name val (.ref text)

/-- The text of a path. -/
inductive Printed : Path → CStr → Prop
  | mk (op : Path) (ts : List CStr) (h : PrintedKeys op.keys ts) :
      Printed op (pathChars op.nameSpace op.className ts)

inductive PrintedKeys : List (CStr × KeyValue) → List CStr → Prop
  | nil : PrintedKeys [] []
  | cons (name t : CStr) (v : KeyValue) (keys : List (CStr × KeyValue)) (ts : List CStr)
      (hvalue : PrintedValue v t) (h : PrintedKeys keys ts) :
      PrintedKeys ((name, v) :: keys) ((name ++ 61 :: t) :: ts)

/-- There is nothing of a reference that could not be read, or cannot be read again. -/
inductive PrintedValue : KeyValue → CStr → Prop
  | chars (s : CStr) : PrintedValue (.chars s) (34 :: (s ++ [34]))
  | sint64 (n : Int) : PrintedValue (.sint64 n) (printInt n)
  | uint64 (n : Int) : PrintedValue (.uint64 n) (printInt n)
  | null : PrintedValue .null []
  | lost (text : CStr) (m : Option CStr) (h : Orderly true text (.null m)) :
      PrintedValue (.ref text) []
  | ref (text t : CStr) (op : Path) (h : Orderly true text (.path op)) (htext : Printed op t)
      (hfits : fits t = true) : PrintedValue (.ref text) t

end

/-! ## How deep it goes -/

theorem eqs_pathChars (ns : Option CStr) (cn : CStr) (ts : List CStr) :
    eqs (pathChars ns cn ts) = eqs (nsChars ns) + eqs cn + (ts.map eqs).sum := by
  have hcommas : ∀ ts : List CStr, eqs (ts.flatMap fun t => 44 :: t) = (ts.map eqs).sum := by
    intro ts
    induction ts with
    | nil => rfl
    | cons t ts ih =>
      rw [List.flatMap_cons, eqs_append, eqs_cons, if_neg (by decide), ih, List.map_cons,
        List.sum_cons, Nat.add_zero]
  unfold pathChars
  rw [eqs_append, eqs_append]
  cases ts with
  | nil => rfl
  | cons t ts =>
    rw [if_neg (by simp), eqs_cons, if_neg (by decide), commas, eqs_append, hcommas, List.map_cons,
      List.sum_cons, Nat.add_zero]

theorem eqs_printInt (n : Int) : eqs (printInt n) = 0 := by
  refine List.count_eq_zero.mpr fun h => ?_
  have hdigit : (61 : UInt8) ∉ numeral 10 n.natAbs :=
    fun h => absurd (isDigit_of_mem_numeral h) (by decide)
  unfold printInt at h
  split at h
  · exact hdigit ((List.mem_cons.mp h).resolve_left (by decide))
  · exact hdigit h

theorem newObjectPath_eqs {ns : Option CStr} {cn : CStr} {op : Path}
    (h : newObjectPath ns cn = some op) : op.eqs = eqs (nsChars ns) + eqs cn := by
  obtain ⟨b, -, h⟩ := Option.bind_eq_some_iff.mp h
  obtain ⟨b', -, rfl⟩ := Option.map_eq_some_iff.mp h
  rfl

theorem Header.eqs_le {front cn : CStr} {ns : Option CStr} (h : Header front ns cn) :
    eqs (nsChars ns) + eqs cn ≤ eqs front := by
  cases h with
  | plain _ h => exact Nat.le_of_eq (Nat.zero_add _)
  | qualified ns cn h =>
    rw [eqs_append, eqs_cons, if_neg (by decide)]
    cases ns with
    | nil => exact Nat.le_of_eq rfl
    | cons c ns =>
      have hns : nsChars (some (c :: ns)) = (c :: ns) ++ [58] := rfl
      rw [hns, eqs_append, eqs_cons 58, if_neg (by decide)]
      exact Nat.le_of_eq rfl

theorem keyData_eqs {val : CStr} {d : KeyValue} (h : keyData val = some d) : d.eqs ≤ eqs val := by
  unfold keyData at h
  split at h
  · cases h
  · next c rest =>
    split at h
    · cases h
      exact Nat.le_trans ((List.dropLast_sublist rest).count_le _)
        (by rw [eqs_cons]; exact Nat.le_add_right _ _)
    · split at h
      · cases h
        exact Nat.zero_le _
      · split at h
        · cases h
          exact Nat.zero_le _
        · cases h

/-- The pieces of a text have no more than the text. -/
theorem Cuts.eqs_le {msg : Bool} {u u' : Place} {t : CStr} {ref : Bool}
    (h : Cuts msg u (.key t ref u')) : eqs t + eqs u'.after ≤ eqs u.after := by
  cases h with
  | ref t rest c hu =>
    rw [hu, eqs_append, eqs_cons, ← Nat.add_assoc]
    exact Nat.le_add_right _ _
  | plain t rest hu =>
    rw [hu, eqs_append, eqs_cons, ← Nat.add_assoc]
    exact Nat.le_add_right _ _
  | string front s rest h =>
    rw [h.text]
    simp only [eqs_append, eqs_cons, eqs_nil]
    omega

theorem eqs_key (name val : CStr) : eqs (name ++ 61 :: val) = eqs name + 1 + eqs val := by
  rw [eqs_append, eqs_cons, if_pos rfl]
  omega

mutual

/-- What a text says has no more `=` than the text. -/
theorem Orderly.eqs_le {msg : Bool} {path : CStr} {r : Returned} :
    Orderly msg path r → ∀ op, r = .path op → op.eqs ≤ eqs path
  | .noKeys _ _ _ _ _ _ hhead hnew, _, heq => by
    cases heq
    rw [newObjectPath_eqs hnew]
    exact hhead.eqs_le
  | .keys _ _ _ _ _ _ _ _ hhead _ hnew hkeys, op', heq => by
    have hrest := hkeys.eqs_le op' heq
    rw [newObjectPath_eqs hnew] at hrest
    have hfront := hhead.eqs_le
    rw [eqs_append, eqs_cons]
    exact Nat.le_trans hrest (by simp only; omega)

theorem OrderlyKeys.eqs_le {msg : Bool} {u : Place} {op : Path} {r : Returned} :
    OrderlyKeys msg u op r → ∀ op', r = .path op' → op'.eqs ≤ op.eqs + eqs u.after
  | .done _ _ _ _ _ _, _, heq => by
    cases heq
    exact Nat.le_add_right _ _
  | .last _ _ _ _ _ _ _ hkey, _, heq => by
    cases heq
    exact hkey.eqs_le
  | .refused _ _ _ _ _, _, heq => by cases heq
  | .key _ _ _ _ _ _ _ _ h hkey hrest, op'', heq => by
    have hpiece := hkey.eqs_le
    have hthen := hrest.eqs_le op'' heq
    have htext := h.eqs_le
    omega

theorem OrderlyKey.eqs_le {ref : Bool} {kd : CStr} {op op' : Path} :
    OrderlyKey ref kd op op' → op'.eqs ≤ op.eqs + eqs kd
  | .skipped _ _ _ _ _ => Nat.le_add_right _ _
  | .plain name val _ _ _ _ hdata hadd => by
    have hadded := Path.addKey_eqs hadd
    have hd := keyData_eqs hdata
    rw [eqs_key]
    omega
  | .ref name val _ _ _ _ hdata hadd => by
    have hadded := Path.addKey_eqs hadd
    have hd := hdata.eqs_le
    rw [eqs_key]
    omega

theorem OrderlyRef.eqs_le {op : Path} {name val : CStr} {d : KeyValue} :
    OrderlyRef op name val d → d.eqs ≤ eqs val
  | .unread _ _ _ _ _ => Nat.zero_le _
  | .copied _ _ _ _ _ _ => Nat.zero_le _
  | .printed _ keyOp _ _ _ h _ htext => Nat.le_trans htext.eqs_le (h.eqs_le keyOp rfl)

theorem Printed.eqs_le {op : Path} {t : CStr} : Printed op t → eqs t ≤ op.eqs
  | .mk op ts h => by
    rw [eqs_pathChars]
    exact Nat.add_le_add_left h.eqs_le _

theorem PrintedKeys.eqs_le {keys : List (CStr × KeyValue)} {ts : List CStr} :
    PrintedKeys keys ts → (ts.map eqs).sum ≤ keysEqs keys
  | .nil => Nat.le_refl _
  | .cons name t v keys ts hvalue h => by
    have hv := hvalue.eqs_le
    have hk := h.eqs_le
    rw [List.map_cons, List.sum_cons, eqs_key, keysEqs]
    omega

theorem PrintedValue.eqs_le {v : KeyValue} {t : CStr} : PrintedValue v t → eqs t ≤ v.eqs
  | .chars s => by
    simp only [eqs_cons, eqs_append, KeyValue.eqs, eqs_nil]
    exact Nat.le_of_eq rfl
  | .sint64 n => Nat.le_of_eq (eqs_printInt n)
  | .uint64 n => Nat.le_of_eq (eqs_printInt n)
  | .null => Nat.le_refl _
  | .lost _ _ _ => Nat.zero_le _
  | .ref _ _ op h htext _ => Nat.le_trans htext.eqs_le (h.eqs_le op rfl)

end

/-- A computation with the one outcome that is in `R`, or with a fault if there is none. -/
def Decides {α : Type} (r : Scan α) (R : α → Prop) : Prop :=
  (∃ a, r = .ok a ∧ ∀ b, R b ↔ b = a) ∨ r = .error .fault ∧ ∀ b, ¬ R b

/-- Null comes with a message, if there is a place for it. -/
def Told (msg : Bool) (r : Returned) : Prop := msg = true → r ≠ .null none

section Deciding

variable {α β : Type} {r : Scan α} {f : α → Scan β} {R R' : α → Prop} {S : α → β → Prop}

theorem Decides.bind (h : Decides r R) (hf : ∀ a, R a → Decides (f a) (S a)) :
    Decides (r.bind f) fun b => ∃ a, R a ∧ S a b := by
  obtain ⟨a, rfl, ha⟩ | ⟨rfl, hno⟩ := h
  · have honly : ∀ b, (∃ a', R a' ∧ S a' b) ↔ S a b := by
      intro b
      constructor
      · rintro ⟨a', ha', hb⟩
        rwa [(ha a').mp ha'] at hb
      · exact fun hb => ⟨a, (ha a).mpr rfl, hb⟩
    obtain ⟨b, hb, hS⟩ | ⟨hfault, hno⟩ := hf a ((ha a).mpr rfl)
    · exact .inl ⟨b, hb, fun b' => (honly b').trans (hS b')⟩
    · exact .inr ⟨hfault, fun b' h => hno b' ((honly b').mp h)⟩
  · exact .inr ⟨rfl, fun b ⟨a, ha, _⟩ => hno a ha⟩

theorem Decides.of_iff (h : Decides r R) (hiff : ∀ a, R a ↔ R' a) : Decides r R' :=
  funext (fun a => propext (hiff a)) ▸ h

theorem Decides.ok (a : α) : Decides (.ok a) fun b => b = a := .inl ⟨a, rfl, fun _ => Iff.rfl⟩

theorem Decides.fault (h : ∀ b, ¬ R b) : Decides (.error .fault) R := .inr ⟨rfl, h⟩

theorem Decides.orFault (o : Option α) : Decides (orFault o) fun b => o = some b := by
  cases o with
  | none => exact .fault fun b => by simp
  | some a => exact (Decides.ok a).of_iff fun b => by rw [Option.some.injEq, eq_comm]

end Deciding

/-! ## What is printed -/

section Printing

variable {read : CStr → Scan Returned}

theorem valueChars_decides {print : Path → Scan CStr} {v : KeyValue}
    (hread : ∀ text, v = .ref text → Decides (read text) (Orderly true text))
    (hprint : ∀ text op, v = .ref text → Orderly true text (.path op) →
      Decides (print op) (Printed op)) :
    Decides (valueChars read print v) (PrintedValue v) := by
  have honly : ∀ {s : CStr}, PrintedValue v s → (∀ t, PrintedValue v t → t = s) →
      Decides (.ok s) (PrintedValue v) := fun hs hother =>
    (Decides.ok _).of_iff fun t => ⟨fun ht => ht ▸ hs, hother t⟩
  cases v with
  | chars s => exact honly (.chars s) fun t h => by cases h; rfl
  | sint64 n => exact honly (.sint64 n) fun t h => by cases h; rfl
  | uint64 n => exact honly (.uint64 n) fun t h => by cases h; rfl
  | null => exact honly .null fun t h => by cases h; rfl
  | stale isRef => exact .fault fun t h => by cases h
  | ref text =>
    let S : Returned → CStr → Prop := fun r t =>
      match r with
      | .null _ => t = []
      | .path op => Printed op t ∧ fits t = true
    refine ((hread text rfl).bind (S := S) fun r hr => ?_).of_iff fun t => ?_
    · cases r with
      | null m => exact .ok []
      | path op =>
        refine ((hprint text op rfl hr).bind fun t _ => Decides.orFault _).of_iff fun t' => ?_
        constructor
        · rintro ⟨t, ht, hfits⟩
          split at hfits
          · next h =>
            cases hfits
            exact ⟨ht, h⟩
          · cases hfits
        · exact fun ⟨ht, hfits⟩ => ⟨t', ht, if_pos hfits⟩
    · constructor
      · rintro ⟨r, hr, ht⟩
        cases r with
        | null m =>
          obtain rfl : t = [] := ht
          exact .lost text m hr
        | path op => exact .ref text t op hr ht.1 ht.2
      · intro h
        cases h with
        | lost _ m h => exact ⟨_, h, rfl⟩
        | ref _ _ op h htext hfits => exact ⟨_, h, htext, hfits⟩

theorem keyTexts_decides {print : Path → Scan CStr} {keys : List (CStr × KeyValue)}
    (hread : ∀ name text, (name, KeyValue.ref text) ∈ keys → Decides (read text) (Orderly true text))
    (hprint : ∀ name text op, (name, KeyValue.ref text) ∈ keys → Orderly true text (.path op) →
      Decides (print op) (Printed op)) :
    Decides (keyTexts read print keys) (PrintedKeys keys) := by
  induction keys with
  | nil =>
    refine (Decides.ok []).of_iff fun ts => ⟨fun h => h ▸ .nil, fun h => ?_⟩
    cases h
    rfl
  | cons k keys ih =>
    obtain ⟨name, v⟩ := k
    have hv : Decides (valueChars read print v) (PrintedValue v) :=
      valueChars_decides (fun text h => hread name text (h ▸ List.mem_cons_self))
        fun text op h => hprint name text op (h ▸ List.mem_cons_self)
    have hkeys := ih (fun name text h => hread name text (List.mem_cons_of_mem _ h))
      fun name text op h => hprint name text op (List.mem_cons_of_mem _ h)
    refine (hv.bind fun t _ => hkeys.bind fun ts _ => Decides.ok _).of_iff fun ts' => ?_
    constructor
    · rintro ⟨t, ht, ts, hts, rfl⟩
      exact .cons name t v keys ts ht hts
    · intro h
      cases h with
      | cons _ t _ _ ts ht hts => exact ⟨t, ht, ts, hts, rfl⟩

/-- The texts in a path have fewer `=`, and so it ends. -/
theorem pathToChars_decides {n : Nat} (hread : ∀ t, eqs t < n → Decides (read t) (Orderly true t))
    (fuel : Nat) (op : Path) (hfuel : op.eqs < fuel) (hn : op.eqs ≤ n) :
    Decides (pathToChars read fuel op) (Printed op) := by
  induction fuel generalizing op with
  | zero => exact absurd hfuel (Nat.not_lt_zero _)
  | succ fuel ih =>
    have htext : ∀ name text, (name, KeyValue.ref text) ∈ op.keys → eqs text < op.eqs :=
      fun name text h => Nat.lt_of_lt_of_le (eqs_ref_lt h) (Nat.le_add_left _ _)
    have hkeys : Decides (keyTexts read (pathToChars read fuel) op.keys) (PrintedKeys op.keys) := by
      refine keyTexts_decides (fun name text h => hread text ?_) fun name text q h hq => ih q ?_ ?_
      all_goals have hlt := htext name text h
      · omega
      · have hle := hq.eqs_le q rfl
        omega
      · have hle := hq.eqs_le q rfl
        omega
    refine (hkeys.bind fun ts _ => Decides.ok _).of_iff fun t => ?_
    constructor
    · rintro ⟨ts, hts, rfl⟩
      exact .mk op ts hts
    · intro h
      cases h with
      | mk _ ts hts => exact ⟨ts, hts, rfl⟩

end Printing

/-! ## What is returned -/

theorem notMem_of_cut {c : UInt8} {a : CStr} (h : ∀ b ∈ a, decide (b = c) = false) : c ∉ a :=
  fun hmem => absurd (h c hmem) (by simp)

theorem cutAt_of_notMem {c : UInt8} {a r : CStr} (h : c ∉ a) :
    cutAt (fun b => b = c) (a ++ c :: r) = some (a, c, r) := by
  refine cutAt_append (by simp) fun b hb => ?_
  have hne : b ≠ c := fun he => h (he ▸ hb)
  simpa using hne

/-- There is one way to cut. -/
theorem cut_unique {c : UInt8} {a a' r r' : CStr} (h : c ∉ a) (h' : c ∉ a')
    (heq : a ++ c :: r = a' ++ c :: r') : a = a' ∧ r = r' := by
  have hcut := cutAt_of_notMem (r := r) h
  rw [heq, cutAt_of_notMem h'] at hcut
  cases hcut
  exact ⟨rfl, rfl⟩

section Keys

variable {read : CStr → Scan Returned} {print : Path → Scan CStr}

theorem refData_decides {op : Path} {name val : CStr}
    (hread : Decides (read val) (Orderly false val))
    (hprint : ∀ q, Orderly false val (.path q) → Decides (print q) (Printed q)) :
    Decides (refData read print op name val) (OrderlyRef op name val) := by
  let S : Returned → KeyValue → Prop := fun r d =>
    match r with
    | .null _ => d = .null
    | .path q => op.prints name = false ∧ d = .ref [] ∨
      op.prints name = true ∧ ∃ text, Printed q text ∧ d = .ref text
  refine (hread.bind (S := S) fun r hr => ?_).of_iff fun d => ?_
  · cases r with
    | null m => exact .ok _
    | path q =>
      cases hp : op.prints name with
      | false => exact (Decides.ok _).of_iff fun d => by simp [S, hp]
      | true =>
        exact ((hprint q hr).bind fun text _ => Decides.ok _).of_iff fun d => by simp [S, hp]
  · constructor
    · rintro ⟨r, hr, hd⟩
      cases r with
      | null m =>
        obtain rfl : d = .null := hd
        exact .unread op name val m hr
      | path q =>
        obtain ⟨hp, rfl⟩ | ⟨hp, text, htext, rfl⟩ := hd
        · exact .copied op q name val hr hp
        · exact .printed op q name val text hr hp htext
    · intro h
      cases h with
      | unread _ _ _ m h => exact ⟨_, h, rfl⟩
      | copied _ q _ _ h hp => exact ⟨_, h, .inl ⟨hp, rfl⟩⟩
      | printed _ q _ _ text h hp htext => exact ⟨_, h, .inr ⟨hp, text, htext, rfl⟩⟩

/-- A key needs a `=`, and a value that can be read and that the path takes. -/
theorem addKey_decides {kd : CStr}
    (hread : ∀ val, eqs val < eqs kd → Decides (read val) (Orderly false val))
    (hprint : ∀ val q, eqs val < eqs kd → Orderly false val (.path q) →
      Decides (print q) (Printed q)) (op : Path) (ref : Bool) :
    Decides (addKey read print op kd ref) (OrderlyKey ref kd op) := by
  unfold addKey
  cases hcut : cutAt (fun c => c = 61) kd with
  | none =>
    refine .fault fun op' h => ?_
    have hno : ∀ name val, 61 ∉ name → kd ≠ name ++ 61 :: val := by
      intro name val hname heq
      rw [heq, cutAt_of_notMem hname] at hcut
      exact absurd hcut (by simp)
    cases h with
    | skipped name val _ hname => exact hno name val hname rfl
    | plain name val _ _ _ hname => exact hno name val hname rfl
    | ref name val _ _ _ hname => exact hno name val hname rfl
  | some cut =>
    obtain ⟨name, c, val⟩ := cut
    obtain ⟨rfl, hc, hname⟩ := cutAt_eq_some_iff.mp hcut
    obtain rfl := of_decide_eq_true hc
    replace hname := notMem_of_cut hname
    have hval : eqs val < eqs (name ++ 61 :: val) := by
      rw [eqs_key]
      omega
    cases ref with
    | false =>
      have hiff : ∀ op', OrderlyKey false (name ++ 61 :: val) op op' ↔
          match keyData val with
          | none => op' = op
          | some d => op.addKey name d = some op' := by
        intro op'
        constructor
        · intro h
          generalize hkd : name ++ 61 :: val = kd at h
          cases h with
          | skipped name' val' _ hname' hdata =>
            obtain ⟨rfl, rfl⟩ := cut_unique hname hname' hkd
            rw [hdata]
          | plain name' val' d _ _ hname' hdata hadd =>
            obtain ⟨rfl, rfl⟩ := cut_unique hname hname' hkd
            rw [hdata]
            exact hadd
        · intro h
          cases hdata : keyData val with
          | none =>
            rw [hdata] at h
            obtain rfl : op' = op := h
            exact .skipped name val op' hname hdata
          | some d =>
            rw [hdata] at h
            exact .plain name val d op op' hname hdata h
      refine Decides.of_iff ?_ fun op' => (hiff op').symm
      simp only [Bool.false_eq_true, if_false]
      cases keyData val with
      | none => exact .ok op
      | some d => exact .orFault _
    | true =>
      refine ((refData_decides (hread val hval) fun q => hprint val q hval).bind
        fun d _ => Decides.orFault _).of_iff fun op' => ?_
      constructor
      · rintro ⟨d, hd, hadd⟩
        exact .ref name val d op op' hname hd hadd
      · intro h
        generalize hkd : name ++ 61 :: val = kd at h
        cases h with
        | ref name' val' d _ _ hname' hdata hadd =>
          obtain ⟨rfl, rfl⟩ := cut_unique hname hname' hkd
          exact ⟨d, hdata, hadd⟩

end Keys

/-- There is one way to begin. -/
theorem Cuts.unique {msg : Bool} {u : Place} {cut cut' : Cut} (h : Cuts msg u cut)
    (h' : Cuts msg u cut') (hb : u.before ≠ []) : cut = cut' :=
  Except.ok.inj ((h.cutKey_eq hb).symm.trans (h'.cutKey_eq hb))

/-- An error comes with a message, if there is a place for it. -/
theorem Cuts.told {msg : Bool} {u : Place} {m : Option CStr} (h : Cuts msg u (.refused m)) :
    Told msg (.null m) := by
  rintro hmsg heq
  obtain rfl : m = none := Returned.null.inj heq
  generalize hcut : Cut.refused none = cut at h
  cases h with
  | unassigned | unbalanced =>
    unfold message at hcut
    rw [if_pos hmsg] at hcut
    exact absurd (Cut.refused.inj hcut) (by simp)
  | trailing => exact absurd (Cut.refused.inj hcut) (by simp)
  | lastRef | ref | last | plain | lastString | string => exact absurd hcut (by simp)

/-- What is behind a key is shorter. -/
theorem Cuts.shorter {msg : Bool} {u u' : Place} {t : CStr} {ref : Bool}
    (h : Cuts msg u (.key t ref u')) :
    u'.after.length < u.after.length ∧ u'.before ≠ [] := by
  cases h with
  | ref t rest c hu =>
    simp [hu]
    omega
  | plain t rest hu =>
    simp [hu]
    omega
  | string front s rest h =>
    simp [h.text]
    omega

section Reading

variable {read : CStr → Scan Returned} {print : Path → Scan CStr} {msg : Bool}

theorem OrderlyKeys.told {u : Place} {op : Path} {r : Returned} :
    OrderlyKeys msg u op r → Told msg r
  | .done .. | .last .. => fun _ => by simp
  | .refused _ _ _ _ h => h.told
  | .key _ _ _ _ _ _ _ _ _ _ hrest => hrest.told

/-- The loop stops, and has an outcome for orderly keys only. -/
theorem keyLoop_decides (fuel : Nat) (u : Place) (op : Path) (hfuel : u.after.length < fuel)
    (hb : u.before ≠ [])
    (hread : ∀ val, eqs val < eqs u.after → Decides (read val) (Orderly false val))
    (hprint : ∀ val q, eqs val < eqs u.after → Orderly false val (.path q) →
      Decides (print q) (Printed q)) :
    Decides (keyLoop read print msg fuel u op) (OrderlyKeys msg u op) := by
  induction fuel generalizing u op with
  | zero => exact absurd hfuel (Nat.not_lt_zero _)
  | succ fuel ih =>
    unfold keyLoop
    obtain ⟨cut, hcut⟩ | hfault := cuts_or_fault msg u
    · have honly : ∀ {cut' : Cut}, Cuts msg u cut' → cut = cut' := fun h => hcut.unique h hb
      rw [hcut.cutKey_eq hb]
      cases cut with
      | refused m =>
        refine (Decides.ok (Returned.null m)).of_iff fun r => ⟨fun h => ?_, fun h => ?_⟩
        · rw [h]
          exact .refused msg u op m hcut
        · cases h with
          | refused _ _ _ m' h => rw [Cut.refused.inj (honly h)]
          | done _ _ _ _ h => exact absurd (honly h) (by simp)
          | last _ _ _ _ _ h => exact absurd (honly h) (by simp)
          | key _ _ _ _ _ _ _ _ h => exact absurd (honly h) (by simp)
      | last ref =>
        show Decides (if u.after = [] then _ else _) _
        by_cases hnil : u.after = []
        · rw [if_pos hnil]
          refine (Decides.ok (Returned.path op)).of_iff fun r => ⟨fun h => ?_, fun h => ?_⟩
          · rw [h]
            exact .done msg u op ref hcut hnil
          · cases h with
            | done => rfl
            | refused _ _ _ m h => exact absurd (honly h) (by simp)
            | last _ _ _ _ _ _ hend => exact absurd hnil hend
            | key _ _ _ _ _ _ _ _ h => exact absurd (honly h) (by simp)
        · rw [if_neg hnil]
          refine ((addKey_decides hread hprint op ref).bind fun op' _ => Decides.ok _).of_iff
            fun r => ⟨?_, fun h => ?_⟩
          · rintro ⟨op', hkey, rfl⟩
            exact .last msg u op op' ref hcut hnil hkey
          · cases h with
            | done _ _ _ _ _ hend => exact absurd hend hnil
            | refused _ _ _ m h => exact absurd (honly h) (by simp)
            | last _ _ _ op' ref' h _ hkey => exact ⟨op', Cut.last.inj (honly h) ▸ hkey, rfl⟩
            | key _ _ _ _ _ _ _ _ h => exact absurd (honly h) (by simp)
      | key t ref u' =>
        obtain ⟨hu', hb'⟩ := hcut.shorter
        have heqs := hcut.eqs_le
        have hkey : Decides (addKey read print op t ref) (OrderlyKey ref t op) :=
          addKey_decides (fun val hval => hread val (by omega))
            (fun val q hval => hprint val q (by omega)) op ref
        refine (hkey.bind fun op' _ => ih u' op' (by omega) hb' (fun val hval => hread val (by omega))
          fun val q hval => hprint val q (by omega)).of_iff fun r => ⟨?_, fun h => ?_⟩
        · rintro ⟨op', hkey, hrest⟩
          exact .key msg u u' t ref op op' r hcut hkey hrest
        · cases h with
          | done _ _ _ _ h => exact absurd (honly h) (by simp)
          | refused _ _ _ m h => exact absurd (honly h) (by simp)
          | last _ _ _ _ _ h => exact absurd (honly h) (by simp)
          | key _ _ u'' t' ref' _ op' _ h hkey hrest =>
            obtain ⟨rfl, rfl, rfl⟩ := Cut.key.inj (honly h)
            exact ⟨op', hkey, hrest⟩
    · rw [hfault]
      refine .fault fun r h => ?_
      have hno : ∀ cut, ¬ Cuts msg u cut := fun cut h =>
        absurd (hfault.symm.trans (h.cutKey_eq hb)) (by simp)
      cases h with
      | done _ _ _ ref h => exact hno _ h
      | last _ _ _ _ ref h => exact hno _ h
      | refused _ _ _ m h => exact hno _ h
      | key _ _ u' t ref _ _ _ h => exact hno _ h

end Reading

theorem nameSpaceOf_none {u : Place} (h : 58 ∉ u.after) : nameSpaceOf u = .ok (none, u) := by
  unfold nameSpaceOf
  rw [find_none]
  · rfl
  · intro b hb
    have hne : b ≠ 58 := fun he => h (he ▸ hb)
    simpa using hne

theorem nameSpaceOf_some {ns rest : CStr} (h : 58 ∉ ns) :
    nameSpaceOf ⟨[], ns ++ 58 :: rest⟩ = .ok (some ns, ⟨ns ++ [58], rest⟩) := by
  have hsub : Place.sub ⟨ns, 58 :: rest⟩ ⟨[], ns ++ 58 :: rest⟩ = ns.length := by
    simp [Place.sub]
  unfold nameSpaceOf Place.find
  rw [cutAt_of_notMem h]
  show (strnDup _ (Place.sub ⟨ns, 58 :: rest⟩ _)).bind _ = _
  unfold strnDup
  rw [hsub, if_neg (by omega), Int.toNat_natCast, List.take_left]
  rfl

/-- The keys are read where the class name has a length. -/
theorem getObjectPath_dot {fuel : Nat} {msg : Bool} {front rest : CStr} (hdot : 46 ∉ front) :
    getObjectPath (fuel + 1) msg (front ++ 46 :: rest) =
      (nameSpaceOf ⟨[], front ++ 46 :: rest⟩).bind fun head =>
        (strnDup head.2 (Place.sub ⟨front, 46 :: rest⟩ head.2)).bind fun cname =>
          (orFault (newObjectPath head.1 cname)).bind fun op =>
            keyLoop (getObjectPath fuel false) (pathToChars (getObjectPath fuel true) fuel) msg
              ((front ++ 46 :: rest).length + 1) ⟨front ++ [46], rest⟩ op := by
  have hfind : Place.find (fun c => c = 46) ⟨[], front ++ 46 :: rest⟩ = some ⟨front, 46 :: rest⟩ := by
    unfold Place.find
    rw [cutAt_of_notMem hdot]
    rfl
  rw [getObjectPath]
  simp only [hfind]
  rfl

theorem Header.unique {front cn cn' : CStr} {ns ns' : Option CStr} (h : Header front ns cn)
    (h' : Header front ns' cn') : ns = ns' ∧ cn = cn' := by
  cases h with
  | plain _ hcn =>
    cases h' with
    | plain => exact ⟨rfl, rfl⟩
    | qualified ns cn => exact absurd (List.mem_append_right _ List.mem_cons_self) hcn
  | qualified ns cn hns =>
    generalize hfront : ns ++ 58 :: cn = front at h'
    cases h' with
    | plain _ hcn =>
      rw [← hfront] at hcn
      exact absurd (List.mem_append_right _ List.mem_cons_self) hcn
    | qualified ns' cn' hns' =>
      obtain ⟨rfl, rfl⟩ := cut_unique hns hns' hfront
      exact ⟨rfl, rfl⟩

section Whole

variable {msg : Bool} {front rest cn : CStr} {ns : Option CStr} {r : Returned}

theorem orderly_noKeys_iff (hdot : 46 ∉ front) (hhead : Header front ns cn) :
    Orderly msg front r ↔ ∃ op, newObjectPath ns cn = some op ∧ r = .path op := by
  constructor
  · intro h
    cases h with
    | noKeys _ _ ns' cn' op _ hhead' hnew =>
      obtain ⟨rfl, rfl⟩ := hhead.unique hhead'
      exact ⟨op, hnew, rfl⟩
    | keys => exact absurd (List.mem_append_right _ List.mem_cons_self) hdot
  · rintro ⟨op, hnew, rfl⟩
    exact .noKeys msg front ns cn op hdot hhead hnew

theorem orderly_keys_iff (hdot : 46 ∉ front) (hhead : Header front ns cn) :
    Orderly msg (front ++ 46 :: rest) r ↔ (ns = none → 58 ∉ rest) ∧
      ∃ op, newObjectPath ns cn = some op ∧ OrderlyKeys msg ⟨front ++ [46], rest⟩ op r := by
  constructor
  · intro h
    generalize hpath : front ++ 46 :: rest = path at h
    cases h with
    | noKeys _ _ _ _ _ hno =>
      rw [← hpath] at hno
      exact absurd (List.mem_append_right _ List.mem_cons_self) hno
    | keys _ front' rest' ns' cn' op _ hdot' hhead' hcolon hnew hkeys =>
      obtain ⟨rfl, rfl⟩ := cut_unique hdot hdot' hpath
      obtain ⟨rfl, rfl⟩ := hhead.unique hhead'
      exact ⟨hcolon, op, hnew, hkeys⟩
  · rintro ⟨hcolon, op, hnew, hkeys⟩
    exact .keys msg front rest ns cn op r hdot hhead hcolon hnew hkeys

end Whole

theorem getObjectPath_decides (fuel : Nat) (msg : Bool) (path : CStr) (h : eqs path < fuel) :
    Decides (getObjectPath fuel msg path) (Orderly msg path) := by
  induction fuel generalizing msg path with
  | zero => exact absurd h (Nat.not_lt_zero _)
  | succ fuel ih =>
    by_cases hdot : 46 ∈ path
    · obtain ⟨front, rest, rfl, hfront⟩ := List.eq_append_cons_of_mem hdot
      rw [eqs_append, eqs_cons, if_neg (by decide)] at h
      have hloop : ∀ op, Decides (keyLoop (getObjectPath fuel false)
          (pathToChars (getObjectPath fuel true) fuel) msg ((front ++ 46 :: rest).length + 1)
          ⟨front ++ [46], rest⟩ op) (OrderlyKeys msg ⟨front ++ [46], rest⟩ op) := by
        intro op
        refine keyLoop_decides _ _ _ (by simp; omega) (by simp) (fun val hval => ?_) ?_
        · simp only at hval
          exact ih false val (by omega)
        · intro val q hval hq
          have hle := hq.eqs_le q rfl
          simp only at hval
          exact pathToChars_decides (fun t ht => ih true t ht) fuel q (by omega) (by omega)
      have hrun : ∀ {ns : Option CStr} {cn : CStr}, Header front ns cn → (ns = none → 58 ∉ rest) →
          Decides ((orFault (newObjectPath ns cn)).bind fun op =>
            keyLoop (getObjectPath fuel false) (pathToChars (getObjectPath fuel true) fuel) msg
              ((front ++ 46 :: rest).length + 1) ⟨front ++ [46], rest⟩ op)
            (Orderly msg (front ++ 46 :: rest)) := by
        intro ns cn hhead hcolon
        refine ((Decides.orFault _).bind fun op _ => hloop op).of_iff fun r => ?_
        rw [orderly_keys_iff hfront hhead]
        exact ⟨fun h => ⟨hcolon, h⟩, fun h => h.2⟩
      rw [getObjectPath_dot hfront]
      by_cases hcolon : 58 ∈ front
      · obtain ⟨ns, cn, rfl, hns⟩ := List.eq_append_cons_of_mem hcolon
        have hsub : Place.sub ⟨ns ++ 58 :: cn, 46 :: rest⟩ ⟨ns ++ [58], cn ++ 46 :: rest⟩ =
            cn.length := by
          unfold Place.sub
          rw [List.length_append, List.length_append, List.length_cons, List.length_singleton]
          omega
        have hhead : nameSpaceOf ⟨[], ns ++ 58 :: cn ++ 46 :: rest⟩ =
            .ok (some ns, ⟨ns ++ [58], cn ++ 46 :: rest⟩) := by
          rw [List.append_assoc, List.cons_append]
          exact nameSpaceOf_some hns
        rw [hhead, Except.bind]
        unfold strnDup
        rw [hsub, if_neg (by omega), Int.toNat_natCast, List.take_left]
        exact hrun (.qualified ns cn hns) fun h => absurd h (by simp)
      · have hplain : Header front none front := .plain front hcolon
        by_cases hrest : 58 ∈ rest
        · -- the colon is behind the dot, and so is then the class name's beginning
          obtain ⟨ns, rest', rfl, hns⟩ := List.eq_append_cons_of_mem hrest
          have hns' : 58 ∉ front ++ 46 :: ns := by
            rw [List.mem_append, List.mem_cons]
            rintro (h | h | h)
            · exact hcolon h
            · exact absurd h (by decide)
            · exact hns h
          have hsub : Place.sub ⟨front, 46 :: (ns ++ 58 :: rest')⟩
              ⟨front ++ 46 :: ns ++ [58], rest'⟩ < 0 := by
            simp [Place.sub]
            omega
          have hhead : nameSpaceOf ⟨[], front ++ 46 :: (ns ++ 58 :: rest')⟩ =
              .ok (some (front ++ 46 :: ns), ⟨front ++ 46 :: ns ++ [58], rest'⟩) := by
            have hpath : front ++ 46 :: (ns ++ 58 :: rest') = front ++ 46 :: ns ++ 58 :: rest' := by
              simp
            rw [hpath]
            exact nameSpaceOf_some hns'
          rw [hhead, Except.bind]
          unfold strnDup
          rw [if_pos hsub]
          exact .fault fun r h => ((orderly_keys_iff hfront hplain).mp h).1 rfl hrest
        · have hnone : 58 ∉ (⟨[], front ++ 46 :: rest⟩ : Place).after := by
            show 58 ∉ front ++ 46 :: rest
            rw [List.mem_append, List.mem_cons]
            rintro (h | h | h)
            · exact hcolon h
            · exact absurd h (by decide)
            · exact hrest h
          have hsub : Place.sub ⟨front, 46 :: rest⟩ ⟨[], front ++ 46 :: rest⟩ = front.length := by
            simp [Place.sub]
          rw [nameSpaceOf_none hnone, Except.bind]
          unfold strnDup
          rw [hsub, if_neg (by omega), Int.toNat_natCast, List.take_left]
          exact hrun hplain fun _ => hrest
    · have hfind : Place.find (fun c => c = 46) ⟨[], path⟩ = none := by
        refine find_none fun b hb => ?_
        have hne : b ≠ 46 := fun he => hdot (he ▸ hb)
        simpa using hne
      have hrun : ∀ {ns : Option CStr} {cn : CStr}, Header path ns cn →
          Decides ((orFault (newObjectPath ns cn)).bind fun op => .ok (.path op))
            (Orderly msg path) := fun hhead =>
        ((Decides.orFault _).bind fun op _ => Decides.ok _).of_iff fun r =>
          (orderly_noKeys_iff hdot hhead).symm
      rw [getObjectPath]
      simp only [hfind]
      by_cases hcolon : 58 ∈ path
      · obtain ⟨ns, cn, rfl, hns⟩ := List.eq_append_cons_of_mem hcolon
        rw [nameSpaceOf_some hns]
        exact hrun (.qualified ns cn hns)
      · rw [nameSpaceOf_none hcolon]
        exact hrun (.plain path hcolon)

theorem Orderly.told {msg : Bool} {path : CStr} {r : Returned} (h : Orderly msg path r) :
    Told msg r := by
  cases h with
  | noKeys => exact fun _ => by simp
  | keys _ _ _ _ _ _ _ _ _ _ _ hkeys => exact hkeys.told

/-- Reading always stops. It returns a path, or null and a message, for the orderly texts, and
leaves its memory for all others. -/
theorem returns_iff (msg : Bool) (path : CStr) :
    getObjectPath (path.length + 1) msg path ≠ .error .outOfFuel ∧
      ((∃ r, getObjectPath (path.length + 1) msg path = .ok r ∧ Told msg r) ↔
        ∃ r, Orderly msg path r) := by
  have hfuel : eqs path < path.length + 1 := Nat.lt_succ_of_le List.count_le_length
  obtain ⟨r, hr, hR⟩ | ⟨hfault, hno⟩ := getObjectPath_decides (path.length + 1) msg path hfuel
  · have horderly := (hR r).mpr rfl
    exact ⟨by simp [hr], iff_of_true ⟨r, hr, horderly.told⟩ ⟨r, horderly⟩⟩
  · refine ⟨by simp [hfault], iff_of_false ?_ fun ⟨r, h⟩ => hno r h⟩
    rintro ⟨r, hr, -⟩
    exact absurd (hfault.symm.trans hr) (by simp)

/-- Without a dot in it, with a key that is a number with one, with a byte behind a string where
there is no place for the message, and with a string that comes behind a number and a string of
the same name. -/
theorem not_returns :
    getObjectPath 4 true (lit "C.k") = .error .fault ∧
      getObjectPath 8 true (lit "C.k=1.5") = .error .fault ∧
      getObjectPath 9 false (lit "C.k=\"a\"b") = .error .fault ∧
      getObjectPath 20 true (lit "C.k=1,K=\"a\",k=\"b\"") = .error .fault := by
  refine ⟨rfl, rfl, rfl, rfl⟩

end Sfcb.Paths.ScanSafety
