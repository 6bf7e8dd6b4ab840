import Mathlib.Algebra.Group.Int.Defs
import Mathlib.Algebra.Group.Nat.Defs
import Mathlib.Data.List.Infix
import Sfcb.Query.Operation

/-!
# From the WHERE clause to the operation tree

The grammar actions of `queryParser.y` for `searchCondition`, `predicate` and
`comparisonTerm`, over derivation trees: `SearchCondition` has one constructor per
rule, so it holds every way the grammar can read a clause, whatever the precedence
declarations choose. `build` runs the actions and fails where one calls `YYERROR`.

What the clause is supposed to mean is `SearchCondition.holds`, a definition of its
own: AND, OR and NOT are the connectives, `IS FALSE` and `IS NOT TRUE` negate the
tested predicate, and the null tests ask whether the operand is `NULL`. A comparison
is about the order of two numbers, two truth values, two strings or two instances, and
does not hold between anything else.

Three mechanisms are meant to carry negation: `_notEvaluate`, the `eliminateNots`
pass, and the `invert` flag of each predicate. Only the flags of the comparisons
work, and a comparison is right as far as `taken` is the order of the operands: the
difference of two integers is cut to an `int`, and values of different kinds have an
order all the same. `evaluate_eq_holds_iff` puts this together: a wrong predicate
reaches the root of the clause or it does not.
-/

namespace Sfcb.Query

open Sfcb.Lib

/-- `QS->lang`. -/
inductive QLLang where
  | none | wql | cql
  deriving DecidableEq, Repr

/-- The rules of `comparisonTerm`. -/
inductive ComparisonTerm where
  | prop (parts : List QLPropertyNameData)
  | integer (n : CMPIValue)
  | double (d : CMPIValue)
  | string (s : CStr)
  | truth (b : Bool)
  deriving DecidableEq, Repr

/-- The operand a `comparisonTerm` action creates. -/
def ComparisonTerm.operand : ComparisonTerm → QLOperand
  | .prop parts => .prop parts
  | .integer n => .int .Integer n
  | .double d => .double d
  | .string s => .chars .Chars (some s)
  | .truth b => .boolean (if b then 1 else 0)

/-- The rules of `comparisonPredicate` and `nullPredicate`. -/
inductive PredicateRule where
  | lt (l r : ComparisonTerm)
  | gt (l r : ComparisonTerm)
  | le (l r : ComparisonTerm)
  | ge (l r : ComparisonTerm)
  | eq (l r : ComparisonTerm)
  | ne (l r : ComparisonTerm)
  | isa (l : ComparisonTerm) (classId : CStr)
  | like (l r : ComparisonTerm)
  | notLike (l r : ComparisonTerm)
  | isNull (l : ComparisonTerm)
  | isNotNull (l : ComparisonTerm)
  deriving DecidableEq, Repr

/-- `newLtOperation` and its siblings: the node starts as `calloc` left it. -/
def newPredicate (opr : QLOp) (lo : QLOperand) (ro : Option QLOperand) : QLPredicate :=
  ⟨opr, lo, ro, false⟩

/-- The actions of `comparisonPredicate` and `nullPredicate`. -/
def PredicateRule.build : PredicateRule → QLPredicate
  | .lt l r => newPredicate .LT l.operand (some r.operand)
  | .gt l r => newPredicate .GT l.operand (some r.operand)
  | .le l r => newPredicate .LE l.operand (some r.operand)
  | .ge l r => newPredicate .GE l.operand (some r.operand)
  | .eq l r => newPredicate .EQ l.operand (some r.operand)
  | .ne l r => newPredicate .NE l.operand (some r.operand)
  | .isa l c => newPredicate .ISA l.operand (some (.name c))
  | .like l r => newPredicate .LIKE l.operand (some r.operand)
  | .notLike l r => newPredicate .NOT_LIKE l.operand (some r.operand)
  | .isNull l => newPredicate .IS_NULL l.operand none
  | .isNotNull l => newPredicate .IS_NOT_NULL l.operand none

/-- The rules of `searchCondition`. -/
inductive SearchCondition where
  | or (a b : SearchCondition)
  | and (a b : SearchCondition)
  | not (a : SearchCondition)
  | paren (a : SearchCondition)
  | predicate (p : PredicateRule)
  | isTruth (p : PredicateRule) (truthValue : Bool)
  | isNotTruth (p : PredicateRule) (truthValue : Bool)
  deriving DecidableEq, Repr

/-- The actions of `searchCondition`; `none` is `YYERROR`. -/
def SearchCondition.build (lang : QLLang) : SearchCondition → Option QLOperation
  | .or a b => do return .or (← a.build lang) (← b.build lang) false
  | .and a b => do return .and (← a.build lang) (← b.build lang) false
  | .not a => do return .not (← a.build lang) false
  | .paren a => a.build lang
  | .predicate p => some (.bin p.build false)
  | .isTruth p t =>
    if lang = .wql then
      some (.bin (if t then p.build else p.build.eliminateNots true) false)
    else none
  | .isNotTruth p t =>
    if lang = .wql then
      some (.bin (if t then p.build.eliminateNots true else p.build) false)
    else none

/-- The trees the actions build, rule by rule. -/
inductive Built : SearchCondition → QLOperation → Prop
  | or {a b l r} : Built a l → Built b r → Built (.or a b) (.or l r false)
  | and {a b l r} : Built a l → Built b r → Built (.and a b) (.and l r false)
  | not {a l} : Built a l → Built (.not a) (.not l false)
  | paren {a op} : Built a op → Built (.paren a) op
  | predicate (p) : Built (.predicate p) (.bin p.build false)
  | isTruth (p t) :
      Built (.isTruth p t) (.bin (if t then p.build else p.build.eliminateNots true) false)
  | isNotTruth (p t) :
      Built (.isNotTruth p t) (.bin (if t then p.build.eliminateNots true else p.build) false)

theorem build_built {lang : QLLang} :
    ∀ (c : SearchCondition) {op : QLOperation}, c.build lang = some op → Built c op := by
  intro c
  induction c with
  | or a b iha ihb =>
    intro op h
    simp only [SearchCondition.build, Option.pure_def, Option.bind_eq_bind,
      Option.bind_eq_some_iff, Option.some.injEq] at h
    obtain ⟨l, hl, r, hr, rfl⟩ := h
    exact .or (iha hl) (ihb hr)
  | and a b iha ihb =>
    intro op h
    simp only [SearchCondition.build, Option.pure_def, Option.bind_eq_bind,
      Option.bind_eq_some_iff, Option.some.injEq] at h
    obtain ⟨l, hl, r, hr, rfl⟩ := h
    exact .and (iha hl) (ihb hr)
  | not a ih =>
    intro op h
    simp only [SearchCondition.build, Option.pure_def, Option.bind_eq_bind,
      Option.bind_eq_some_iff, Option.some.injEq] at h
    obtain ⟨l, hl, rfl⟩ := h
    exact .not (ih hl)
  | paren a ih => intro op h; exact .paren (ih h)
  | predicate p =>
    intro op h
    simp only [SearchCondition.build, Option.some.injEq] at h
    subst h
    exact .predicate p
  | isTruth p t =>
    intro op h
    simp only [SearchCondition.build] at h
    -- only WQL has such a condition
    split at h
    · simp only [Option.some.injEq] at h
      subst h
      exact .isTruth p t
    · simp at h
  | isNotTruth p t =>
    intro op h
    simp only [SearchCondition.build] at h
    split at h
    · simp only [Option.some.injEq] at h
      subst h
      exact .isNotTruth p t
    · simp at h

/-- The grammar never sets `invert` above a predicate. -/
theorem Built.upright {c : SearchCondition} {op : QLOperation} (h : Built c op) :
    op.upright = true := by
  induction h with
  | or _ _ ihl ihr => simp [QLOperation.upright, ihl, ihr]
  | and _ _ ihl ihr => simp [QLOperation.upright, ihl, ihr]
  | not _ ih => simp [QLOperation.upright, ih]
  | paren _ ih => exact ih
  | predicate p => rfl
  | isTruth p t => rfl
  | isNotTruth p t => rfl

/-! ## What a clause means -/

section Meaning

variable (rt : QLRuntime) (src : QLPropertySource)

/-- The operand's value is `NULL`: a property whose type is `QL_Null`, or a string
property that holds no string. A literal never is. -/
def QLOperand.isNull (op : QLOperand) : Bool :=
  match op with
  | .prop _ =>
    let v := getPropValue rt src op
    decide (v.2 = .Null ∨ (v.2 = .Chars ∧ rt.charsAt v.1 = none))
  | _ => false

/-- The operand's value when it is a string. -/
def QLOperand.stringValue (op : QLOperand) : Option CStr :=
  match op with
  | .prop _ =>
    let v := getPropValue rt src op
    if v.2 = .Chars then rt.charsAt v.1 else none
  | .chars _ s => s
  | _ => none

/-- What a pattern says of a string: a `%` in front or behind stands for anything. -/
def likes (s re : CStr) : Bool :=
  let leading := re.head? == some percent
  let literal := if leading then re.tail else re
  if literal.getLast? == some percent then
    if leading then decide (literal.dropLast <:+: s) else decide (literal.dropLast <+: s)
  else if leading then decide (literal <:+ s)
  else s == literal

/-- Whether one string is found to match another, when both are there. -/
def stringsMatch (matcher : CStr → CStr → Bool) (s t : Option CStr) : Option Bool :=
  match s, t with
  | some s, some t => some (matcher s t)
  | _, _ => none

/-- The verdict of `LIKE` (`wanted`) or `NOT LIKE` on a match. A test with an
operand that is no string is not true, whichever it is. -/
def likeVerdict (wanted : Bool) (m : Option Bool) : Bool :=
  m == some wanted

/-- The truth of a `LIKE` (`wanted`) or `NOT LIKE` test on the operands' strings. -/
def likeHolds (wanted : Bool) (l r : ComparisonTerm) : Bool :=
  likeVerdict wanted
    (stringsMatch likes (l.operand.stringValue rt src) (r.operand.stringValue rt src))

/-- A value that has an order with others. -/
inductive Datum where
  | integer (n : Int)
  | real (d : CMPIValue)
  | truth (b : Bool)
  | text (s : CStr)
  | inst (v : CMPIValue)
  deriving DecidableEq, Repr

/-- The value that a property's bits are. -/
def datumOf (v : CMPIValue) : QLOpd → Option Datum
  | .Integer => some (.integer v.toInt)
  | .UInteger => some (.integer v.toNat)
  | .Double => some (.real v)
  | .Boolean => some (.truth (v.setWidth 8 ≠ 0))
  | .Chars => (rt.charsAt v).map .text
  | .Inst => some (.inst v)
  | _ => none

def ComparisonTerm.datum : ComparisonTerm → Option Datum
  | .prop parts =>
    let v := getPropValue rt src (.prop parts)
    datumOf rt v.1 v.2
  | .integer n => some (.integer n.toInt)
  | .double d => some (.real d)
  | .string s => some (.text s)
  | .truth b => some (.truth b)

/-- The order that a difference says. -/
def orderOf (n : Int) : Ordering := if n < 0 then .lt else if n = 0 then .eq else .gt

/-- The order of two values, if there is one. -/
def Datum.order : Datum → Datum → Option Ordering
  | .integer a, .integer b => some (orderOf (a - b))
  | .integer a, .real b => some (orderOf (rt.mixedSign a b))
  | .real a, .integer b => some (orderOf (-rt.mixedSign b a))
  | .real a, .real b => some (orderOf (rt.doubleSign a b))
  | .truth a, .truth b => some (orderOf ((if a then 1 else 0) - (if b then 1 else 0)))
  | .text s, .text t => some (orderOf (strcmp s t))
  | .inst a, .inst b => some (orderOf (rt.instanceCompare a b))
  | _, _ => none

/-- The order of two operands. -/
def order (l r : ComparisonTerm) : Option Ordering :=
  (l.datum rt src).bind fun a => (r.datum rt src).bind fun b => a.order rt b

/-- The property is an instance of the class or of a class below it. -/
def isaHolds (l : ComparisonTerm) (classId : CStr) : Bool :=
  match l.datum rt src with
  | some (.inst v) =>
    decide (strcasecmp (rt.instGetClassName v) classId = 0) ||
      rt.isChild src.sns classId (rt.instGetClassName v)
  | _ => false

/-- The truth of a predicate. -/
def PredicateRule.holds : PredicateRule → Bool
  | .lt l r => (order rt src l r).any (· == .lt)
  | .gt l r => (order rt src l r).any (· == .gt)
  | .le l r => (order rt src l r).any (· != .gt)
  | .ge l r => (order rt src l r).any (· != .lt)
  | .eq l r => (order rt src l r).any (· == .eq)
  | .ne l r => (order rt src l r).any (· != .eq)
  | .isa l c => isaHolds rt src l c
  | .like l r => likeHolds rt src true l r
  | .notLike l r => likeHolds rt src false l r
  | .isNull l => l.operand.isNull rt src
  | .isNotNull l => !l.operand.isNull rt src

/-- The truth of a clause. -/
def SearchCondition.holds : SearchCondition → Bool
  | .or a b => a.holds || b.holds
  | .and a b => a.holds && b.holds
  | .not a => !a.holds
  | .paren a => a.holds
  | .predicate p => p.holds rt src
  | .isTruth p t => p.holds rt src == t
  | .isNotTruth p t => p.holds rt src != t

/-! ## Where the value goes wrong -/

/-- The characters that a comparison finds where it expects a string: whatever the type is,
the bits are an address. -/
def ComparisonTerm.chars (l : ComparisonTerm) : Option CStr :=
  match l with
  | .prop parts => rt.charsAt (getPropValue rt src (.prop parts)).1
  | l => l.operand.charsOf rt

/-- What a comparison takes the order of its operands for. Of the difference of two integers it
sees the low 32 bits, and of a property that is a double on the right not the value. An operand
on the left is less than one of another type, and nothing is equal to nothing. -/
def taken (l r : ComparisonTerm) : Ordering :=
  let v := rightValue rt src l.operand
  let w := rightValue rt src r.operand
  match v.2 with
  | .Integer | .UInteger =>
    if w.2 = .Integer ∨ w.2 = .UInteger then orderOf ((v.1 - w.1).setWidth 32).toInt else .lt
  | .Double => if w.2 = .Double then orderOf (rt.doubleSign v.1 (r.operand.union rt)) else .lt
  | .Boolean =>
    if w.2 = .Boolean then
      orderOf ((if v.1.setWidth 8 ≠ (0 : BitVec 8) then 1 else 0) -
        (if w.1.setWidth 8 ≠ (0 : BitVec 8) then 1 else 0))
    else .lt
  | .Chars | .Char =>
    match l.chars rt src, r.chars rt src with
    | none, none => .eq
    | none, some _ => .lt
    | some _, none => .gt
    | some s, some t => if w.2 = .Chars then orderOf (strcmp s t) else .lt
  | .Inst =>
    if w.2 = .Inst then orderOf (rt.instanceCompare v.1 w.1)
    -- no property has this type
    else if w.2 = .Name then orderOf (instCompare rt src v.1 r.operand)
    else .lt
  | .Null => if r.operand.type = .PropertyName ∧ w.2 = .Null then .eq else .lt
  | _ => .lt

/-- The order that the operands are taken to have and the order that they have come to different
verdicts. -/
def orderStray (accepts : Ordering → Bool) (l r : ComparisonTerm) : Bool :=
  accepts (taken rt src l r) != (order rt src l r).any accepts

/-- The string found where a `LIKE` test reads its left operand: through a
property name whatever the operand is, and whatever the property's type is. -/
def likeLeft (l : ComparisonTerm) : Option CStr :=
  rt.charsAt (getPropValue rt src l.operand).1

/-- What `match_re` says of the string found for the left operand of a `LIKE` test and what
the pattern says of the string that the operand has come to different verdicts. -/
def likeStray (wanted : Bool) (l r : ComparisonTerm) : Bool :=
  likeVerdict wanted (stringsMatch match_re (likeLeft rt src l) (r.operand.stringValue rt src))
    != likeHolds rt src wanted l r

/-- A predicate, negated when `neg`, is given the wrong value. The null tests do
not look at their operand, and neither they nor the `LIKE` tests are negated. -/
def PredicateRule.faulty (neg : Bool) : PredicateRule → Bool
  | .lt l r => orderStray rt src (· == .lt) l r
  | .gt l r => orderStray rt src (· == .gt) l r
  | .le l r => orderStray rt src (· != .gt) l r
  | .ge l r => orderStray rt src (· != .lt) l r
  | .eq l r => orderStray rt src (· == .eq) l r
  | .ne l r => orderStray rt src (· != .eq) l r
  | .isNull l => l.operand.isNull rt src == neg
  | .isNotNull l => l.operand.isNull rt src == neg
  | .like l r => likeStray rt src true l r != neg
  | .notLike l r => likeStray rt src false l r != neg
  | .isa _ _ => false

/-- A clause is given the wrong value: NOT turns right into wrong and wrong into
right, and a wrong operand of AND or OR comes through unless the other operand
decides the connective. -/
def SearchCondition.faulty : SearchCondition → Bool
  | .or a b =>
    if a.faulty then (if b.faulty then a.holds rt src == b.holds rt src else !b.holds rt src)
    else b.faulty && !a.holds rt src
  | .and a b =>
    if a.faulty then (if b.faulty then a.holds rt src == b.holds rt src else b.holds rt src)
    else b.faulty && a.holds rt src
  | .not a => !a.faulty
  | .paren a => a.faulty
  | .predicate p => p.faulty rt src false
  | .isTruth p t => p.faulty rt src (!t)
  | .isNotTruth p t => p.faulty rt src t

/-! ## The value of the tree -/

/-- `-(2 + type)` is what a `compare` function returns for a type that it does not know. -/
theorem unknown_lt (t : QLOpd) : -(2 + t.code) < 0 := by
  cases t <;> decide

section Compare

variable (op : QLOperand) (r : ComparisonTerm) (v : CMPIValue)

theorem orderOf_intCompare : orderOf (intCompare rt src v op) =
    if (rightValue rt src op).2 = .Integer ∨ (rightValue rt src op).2 = .UInteger then
      orderOf ((v - (rightValue rt src op).1).setWidth 32).toInt
    else .lt := by
  unfold intCompare
  dsimp only
  split
  · rfl
  · exact if_pos (unknown_lt _)

theorem orderOf_doubleCompare : orderOf (doubleCompare rt src v op) =
    if (rightValue rt src op).2 = .Double then orderOf (rt.doubleSign v (op.union rt))
    else .lt := by
  unfold doubleCompare
  split <;> rfl

theorem orderOf_booleanCompare (b : BitVec 8) : orderOf (booleanCompare rt src b op) =
    if (rightValue rt src op).2 = .Boolean then
      orderOf ((if b ≠ 0 then 1 else 0) -
        (if (rightValue rt src op).1.setWidth 8 ≠ (0 : BitVec 8) then 1 else 0))
    else .lt := by
  unfold booleanCompare
  dsimp only
  by_cases htype : (rightValue rt src op).2 = .Boolean
  · rw [if_pos htype, if_pos htype]
  · rw [if_neg htype, if_neg htype]
    exact if_pos (unknown_lt _)

theorem orderOf_charsCompare (s : Option CStr) : orderOf (charsCompare rt src s r.operand) =
    match s, r.chars rt src with
    | none, none => .eq
    | none, some _ => .lt
    | some _, none => .gt
    | some s, some t =>
      if (rightValue rt src r.operand).2 = .Chars then orderOf (strcmp s t) else .lt := by
  have hright : (if r.operand.type = .PropertyName then
      (rt.charsAt (getPropValue rt src r.operand).1, (getPropValue rt src r.operand).2)
      else (r.operand.charsOf rt, r.operand.type)) =
        (r.chars rt src, (rightValue rt src r.operand).2) := by
    cases r <;> rfl
  unfold charsCompare
  rw [hright]
  cases s with
  | none => cases r.chars rt src <;> rfl
  | some s =>
    cases r.chars rt src with
    | none => rfl
    | some t =>
      dsimp only
      split <;> rfl

theorem orderOf_instCompare : orderOf (instCompare rt src v r.operand) =
    if (rightValue rt src r.operand).2 = .Inst then
      orderOf (rt.instanceCompare v (rightValue rt src r.operand).1)
    else if (rightValue rt src r.operand).2 = .Name then orderOf (instCompare rt src v r.operand)
    else .lt := by
  by_cases hname : (rightValue rt src r.operand).2 = .Name
  · rw [if_neg (by rw [hname]; decide), if_pos hname]
  rw [if_neg hname]
  unfold instCompare
  cases r with
  | prop parts =>
    have hvalue : rightValue rt src (ComparisonTerm.prop parts).operand =
      getPropValue rt src (.prop parts) := rfl
    rw [hvalue] at hname ⊢
    simp only [ComparisonTerm.operand, QLOperand.type, if_true, if_neg hname]
    split <;> rfl
  | _ => rfl

/-- What `compare` returns has the sign of the order that the operands are taken to have. -/
theorem orderOf_compare (l r : ComparisonTerm) :
    orderOf (compare rt src l.operand r.operand) = taken rt src l r := by
  cases l with
  | prop parts =>
    have hvalue : rightValue rt src (ComparisonTerm.prop parts).operand =
      getPropValue rt src (.prop parts) := rfl
    show orderOf (propCompare rt src (.prop parts) r.operand) = _
    unfold propCompare taken
    rw [hvalue]
    simp only [ComparisonTerm.chars]
    obtain ⟨v, type⟩ := getPropValue rt src (.prop parts)
    cases type with
    | Integer => exact orderOf_intCompare rt src _ v
    | UInteger => exact orderOf_intCompare rt src _ v
    | Double => exact orderOf_doubleCompare rt src _ v
    | Boolean => exact orderOf_booleanCompare rt src _ _
    | Chars => exact orderOf_charsCompare rt src r _
    | Char => exact orderOf_charsCompare rt src r _
    | Inst => exact orderOf_instCompare rt src r v
    | Null =>
      dsimp only [propOperand]
      cases r with
      | prop parts' =>
        have hright : rightValue rt src (ComparisonTerm.prop parts').operand =
          getPropValue rt src (.prop parts') := rfl
        rw [hright]
        simp only [ComparisonTerm.operand, QLOperand.type, true_and]
        split <;> rfl
      | _ => rfl
    | _ => rfl
  | integer n => exact orderOf_intCompare rt src _ n
  | double d => exact orderOf_doubleCompare rt src _ d
  | string s => exact orderOf_charsCompare rt src r _
  | truth b =>
    refine (orderOf_booleanCompare rt src _ _).trans ?_
    cases b <;> rfl

end Compare

/-- `ISA` is right. -/
theorem compare_name_iff (l : ComparisonTerm) (classId : CStr) :
    compare rt src l.operand (.name classId) = 0 ↔ isaHolds rt src l classId = true := by
  have hchars : ∀ s, charsCompare rt src s (.name classId) ≠ 0 := by
    intro s
    cases s with
    | none => exact (by decide : (-1 : Int) ≠ 0)
    | some s => exact (by decide : (-2 : Int) ≠ 0)
  cases l with
  | prop parts =>
    show propCompare rt src (.prop parts) (.name classId) = 0 ↔ _
    unfold propCompare isaHolds
    simp only [ComparisonTerm.datum]
    obtain ⟨v, type⟩ := getPropValue rt src (.prop parts)
    cases type with
    | Inst =>
      show instCompare rt src v (.name classId) = 0 ↔ (decide _ || _) = true
      rw [Bool.or_eq_true, decide_eq_true_eq]
      unfold instCompare
      simp only [QLOperand.type, QLOperand.charsOf, reduceCtorEq, if_false, if_true]
      by_cases hsame : strcasecmp (rt.instGetClassName v) classId = 0
      · rw [if_pos hsame]
        exact iff_of_true rfl (.inl hsame)
      by_cases hchild : rt.isChild src.sns classId (rt.instGetClassName v) = true
      · rw [if_neg hsame, if_pos hchild]
        exact iff_of_true rfl (.inr hchild)
      · rw [if_neg hsame, if_neg hchild]
        exact iff_of_false (by decide) (not_or.mpr ⟨hsame, hchild⟩)
    | Chars =>
      refine iff_of_false (hchars _) ?_
      simp only [datumOf]
      cases rt.charsAt v <;> simp
    | Char => exact iff_of_false (hchars _) (by simp [datumOf])
    | Integer => exact iff_of_false (Int.ne_of_lt (unknown_lt .Name)) (by simp [datumOf])
    | UInteger => exact iff_of_false (Int.ne_of_lt (unknown_lt .Name)) (by simp [datumOf])
    | Boolean => exact iff_of_false (Int.ne_of_lt (unknown_lt .Name)) (by simp [datumOf])
    | _ => exact iff_of_false (by decide : (-2 : Int) ≠ 0) (by simp [datumOf])
  | string s => exact iff_of_false (hchars (some s)) (by simp [isaHolds, ComparisonTerm.datum])
  | double d =>
    exact iff_of_false (by decide : (-2 : Int) ≠ 0) (by simp [isaHolds, ComparisonTerm.datum])
  | _ =>
    exact iff_of_false (Int.ne_of_lt (unknown_lt .Name)) (by simp [isaHolds, ComparisonTerm.datum])

/-- The right side of a `LIKE` test counts when it is a string. -/
theorem likeRight_stringValue (r : ComparisonTerm) :
    (match likeRight rt src r.operand with
      | (some t, .Chars) => some t
      | _ => none) = r.operand.stringValue rt src := by
  cases r with
  | prop parts =>
    show (match likeRight rt src (.prop parts) with
      | (some t, .Chars) => some t
      | _ => none) = (QLOperand.prop parts).stringValue rt src
    simp only [likeRight, QLOperand.stringValue]
    cases rt.charsAt (getPropValue rt src (.prop parts)).1 <;>
      cases (getPropValue rt src (.prop parts)).2 <;> rfl
  | string t => rfl
  | integer n =>
    simp only [ComparisonTerm.operand, likeRight, QLOperand.stringValue, QLOperand.type]
    cases (QLOperand.int .Integer n).charsOf rt <;> rfl
  | double d =>
    simp only [ComparisonTerm.operand, likeRight, QLOperand.stringValue, QLOperand.type]
    cases (QLOperand.double d).charsOf rt <;> rfl
  | truth b =>
    simp only [ComparisonTerm.operand, likeRight, QLOperand.stringValue, QLOperand.type]
    cases (QLOperand.boolean (if b then 1 else 0)).charsOf rt <;> rfl

/-- What the `LIKE` entries match is the string found on the left. -/
theorem likeMatch_eq (opr : QLOp) (neg : Bool) (l r : ComparisonTerm) :
    (⟨opr, l.operand, some r.operand, neg⟩ : QLPredicate).likeMatch rt src
      = stringsMatch match_re (likeLeft rt src l) (r.operand.stringValue rt src) := by
  rw [← likeRight_stringValue]
  simp only [QLPredicate.likeMatch, likeLeft]
  obtain ⟨t, ty⟩ := likeRight rt src r.operand
  cases rt.charsAt (getPropValue rt src l.operand).1 <;> cases t <;> cases ty <;> rfl

/-- `invert` negates a comparison. -/
theorem comparison_value (opr : QLOp) (l r : QLOperand) (neg : Bool)
    (hopr : opr ≠ .LIKE ∧ opr ≠ .NOT_LIKE ∧ opr ≠ .IS_NULL ∧ opr ≠ .IS_NOT_NULL) :
    (⟨opr, l, some r, neg⟩ : QLPredicate).evaluate rt src
      = ((⟨opr, l, some r, false⟩ : QLPredicate).evaluate rt src != neg) := by
  obtain ⟨h1, h2, h3, h4⟩ := hopr
  -- the inverted operator decides the opposite
  have hnot : ∀ (P Q : Prop) [Decidable P] [Decidable Q], (Q ↔ ¬P) →
      decide Q = (decide P != true) := by
    intro P Q _ _ h
    by_cases hP : P
    · simp [h, hP]
    · simp [h, hP]
  cases neg with
  | false => exact (Bool.bne_false _).symm
  | true =>
    simp only [QLPredicate.evaluate, QLPredicate.cmp]
    cases opr with
    | LT => exact hnot _ _ (by omega)
    | GT => exact hnot _ _ (by omega)
    | LE => exact hnot _ _ (by omega)
    | GE => exact hnot _ _ (by omega)
    | EQ => exact hnot _ _ (by omega)
    | NE => exact hnot _ _ (by omega)
    | ISA => exact hnot _ _ (by omega)
    | LIKE => exact absurd rfl h1
    | NOT_LIKE => exact absurd rfl h2
    | IS_NULL => exact absurd rfl h3
    | IS_NOT_NULL => exact absurd rfl h4

/-- The value of a predicate node, negated by the grammar or not. -/
theorem predicate_value (p : PredicateRule) (neg : Bool) :
    (if neg then p.build.eliminateNots true else p.build).evaluate rt src
      = ((p.holds rt src != neg) != p.faulty rt src neg) := by
  have hneg : (if neg then p.build.eliminateNots true else p.build)
      = ⟨p.build.opr, p.build.lhod, p.build.rhod, neg⟩ := by
    cases neg
    · cases p <;> rfl
    · rfl
  have horder : ∀ (opr : QLOp) (accepts : Ordering → Bool) (l r : ComparisonTerm),
      (opr ≠ .LIKE ∧ opr ≠ .NOT_LIKE ∧ opr ≠ .IS_NULL ∧ opr ≠ .IS_NOT_NULL) →
      (⟨opr, l.operand, some r.operand, false⟩ : QLPredicate).evaluate rt src =
        accepts (orderOf (compare rt src l.operand r.operand)) →
      (⟨opr, l.operand, some r.operand, neg⟩ : QLPredicate).evaluate rt src =
        (((order rt src l r).any accepts != neg) != orderStray rt src accepts l r) := by
    intro opr accepts l r hopr hvalue
    rw [comparison_value rt src opr _ _ neg hopr, hvalue, orderOf_compare, orderStray]
    cases neg <;> cases accepts (taken rt src l r) <;> cases (order rt src l r).any accepts <;> rfl
  have hsign : ∀ n : Int, decide (n < 0) = (orderOf n == .lt) ∧ decide (n > 0) = (orderOf n == .gt) ∧
      decide (n ≤ 0) = (orderOf n != .gt) ∧ decide (n ≥ 0) = (orderOf n != .lt) ∧
      decide (n = 0) = (orderOf n == .eq) ∧ decide (n ≠ 0) = (orderOf n != .eq) := by
    intro n
    unfold orderOf
    obtain hlt | rfl | hgt := Int.lt_trichotomy n 0
    · simp [hlt, Int.le_of_lt hlt, Int.ne_of_lt hlt, Int.not_lt.mpr (Int.le_of_lt hlt)]
    · decide
    · simp [hgt, Int.le_of_lt hgt, Int.ne_of_gt hgt, Int.not_lt.mpr (Int.le_of_lt hgt)]
  -- a verdict is the truth, wrong when the two differ; `neg` has no part in it
  have hlike : ∀ v h : Bool, v = ((h != neg) != ((v != h) != neg)) := by cases neg <;> decide
  rw [hneg]
  cases p with
  | lt l r => exact horder .LT _ l r (by decide) (hsign _).1
  | gt l r => exact horder .GT _ l r (by decide) (hsign _).2.1
  | le l r => exact horder .LE _ l r (by decide) (hsign _).2.2.1
  | ge l r => exact horder .GE _ l r (by decide) (hsign _).2.2.2.1
  | eq l r => exact horder .EQ _ l r (by decide) (hsign _).2.2.2.2.1
  | ne l r => exact horder .NE _ l r (by decide) (hsign _).2.2.2.2.2
  | isa l c =>
    refine (comparison_value rt src .ISA _ _ neg (by decide)).trans ?_
    have hvalue : (⟨.ISA, l.operand, some (.name c), false⟩ : QLPredicate).evaluate rt src =
        isaHolds rt src l c := by
      rw [Bool.eq_iff_iff, ← compare_name_iff]
      exact decide_eq_true_iff
    rw [PredicateRule.build, newPredicate, hvalue]
    exact (Bool.bne_false _).symm
  | like l r =>
    have hval : (⟨.LIKE, l.operand, some r.operand, neg⟩ : QLPredicate).evaluate rt src
        = likeVerdict true (stringsMatch match_re (likeLeft rt src l) (r.operand.stringValue rt src)) := by
      simp only [QLPredicate.evaluate, likeMatch_eq, likeVerdict]
      rcases stringsMatch match_re (likeLeft rt src l) (r.operand.stringValue rt src) with _ | _ | _ <;> rfl
    exact hval.trans (hlike _ _)
  | notLike l r =>
    have hval : (⟨.NOT_LIKE, l.operand, some r.operand, neg⟩ : QLPredicate).evaluate rt src
        = likeVerdict false (stringsMatch match_re (likeLeft rt src l) (r.operand.stringValue rt src)) := by
      simp only [QLPredicate.evaluate, likeMatch_eq, likeVerdict]
      rcases stringsMatch match_re (likeLeft rt src l) (r.operand.stringValue rt src) with _ | _ | _ <;> rfl
    exact hval.trans (hlike _ _)
  | isNull l =>
    simp only [PredicateRule.build, newPredicate, QLPredicate.evaluate, PredicateRule.holds,
      PredicateRule.faulty]
    cases l.operand.isNull rt src <;> cases neg <;> rfl
  | isNotNull l =>
    simp only [PredicateRule.build, newPredicate, QLPredicate.evaluate, PredicateRule.holds,
      PredicateRule.faulty]
    cases l.operand.isNull rt src <;> cases neg <;> rfl

/-- The value of a built tree is the clause's truth, flipped where `faulty`. -/
theorem Built.value {c : SearchCondition} {op : QLOperation} (h : Built c op) :
    op.evaluate rt src = (c.holds rt src != c.faulty rt src) := by
  induction h with
  | @or a b l r _ _ ihl ihr =>
    simp only [QLOperation.evaluate, ihl, ihr, SearchCondition.holds, SearchCondition.faulty]
    cases a.holds rt src <;> cases a.faulty rt src <;> cases b.holds rt src <;>
      cases b.faulty rt src <;> rfl
  | @and a b l r _ _ ihl ihr =>
    simp only [QLOperation.evaluate, ihl, ihr, SearchCondition.holds, SearchCondition.faulty]
    cases a.holds rt src <;> cases a.faulty rt src <;> cases b.holds rt src <;>
      cases b.faulty rt src <;> rfl
  | @not a l _ ih =>
    simp only [QLOperation.evaluate, ih, SearchCondition.holds, SearchCondition.faulty]
    cases a.holds rt src <;> cases a.faulty rt src <;> rfl
  | paren _ ih => exact ih
  | predicate p =>
    have hp := predicate_value rt src p false
    simp only [Bool.false_eq_true, if_false, Bool.bne_false] at hp
    exact hp
  | isTruth p t =>
    have hp := predicate_value rt src p (!t)
    simp only [QLOperation.evaluate, SearchCondition.holds, SearchCondition.faulty]
    cases t
    · simpa using hp
    · simpa using hp
  | isNotTruth p t => exact predicate_value rt src p t

end Meaning

/-- A process without strings or instances, and a source in which every property
is the integer `n`. -/
def bareRuntime : QLRuntime where
  charsAt _ := none
  bits _ := 0
  wild _ := (0, .Invalid)
  instGetClassName _ := []
  isChild _ _ _ := false
  instanceCompare _ _ := 0
  doubleSign _ _ := 0
  mixedSign _ _ := 0

@[inherit_doc bareRuntime]
def integerSource (n : BitVec 64) : QLPropertySource where
  data := 0
  sns := []
  getValue _ _ := (n, .Integer)

/-- The property `P` of a clause. -/
def propertyP : ComparisonTerm := .prop [⟨none, lit "P", -1⟩]

end Sfcb.Query
