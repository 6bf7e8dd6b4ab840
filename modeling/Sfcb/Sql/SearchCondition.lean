import Sfcb.Lib.LinkedTests
import Sfcb.Lib.RealText

/-!
# WHERE clauses: from the parser actions to `testSigma`

The actions of `searchCondition` and `optCondition` in `sqlParser.y` turn a clause into a
list of conditions, the last predicate first; `testSigma` goes through it from the back.
`testSigma_eq` is what comes out of it: the tests in the order of the clause, from left to
right, each with the operator and the link that `negateSi` has made.

Mirroring notes:
- Columns are strings or integers. Literals are numbers and strings; the lexer reads an
  integer with `strtol` into an `int` and a number with a point with `strtod`.
- No field of a row is `NULL`, so a row is a list of strings.
- `newSigma` calls `strdup` for both values, also for a null pointer. What that does is not
  defined: `ofNull` says whether it gives a null pointer back. If not it is the end (`none`).
- `cmp` in `testSigma` has no value before it is assigned. What is on the stack instead is
  `junk`, one number for each condition.
- The conditions of a clause over one table all go to the list of its `SubSelect`.
-/

namespace Sfcb.Sql

open Sfcb.Lib

/-- The constants for operators and links. -/
inductive Code where
  | UNDEF | EQ | NE | GT | LT | GE | LE | AND | OR | ISNULL | NOTNULL | BETWEEN | NOTBETWEEN
  deriving Repr, DecidableEq

inductive Direction where
  | ASC | DSC
  deriving Repr, DecidableEq

/-- The groups of types that `row_cmp` distinguishes. -/
inductive ColType where
  | string | signed | unsigned
  deriving Repr, DecidableEq

structure Column where
  tableAlias : CStr
  colName : CStr
  colSQLType : ColType
  deriving Repr, DecidableEq

/-- `coleql`: zero for equal columns. -/
def coleql (colA colB : Column) : Int :=
  if strcasecmp colA.colName colB.colName = 0 ∧
      strcasecmp colA.tableAlias colB.tableAlias = 0 then 0 else 1

/-- `getColNr`; `none` is `-1`. -/
def getColNr (colA : Column) (ul : List Column) : Option Nat :=
  ul.findIdx? fun col => coleql colA col = 0

/-! ## Conditions -/

/-- `colB` is only there in joins. -/
structure Sigma where
  link : Code
  op : Code
  colA : Column
  value : Option CStr
  valueB : Option CStr
  deriving Repr, DecidableEq

def strdup (ofNull : Bool) : Option CStr → Option (Option CStr)
  | some s => some (some s)
  | none => if ofNull then some none else none

def newSigma (ofNull : Bool) (colA : Column) (op : Code) (value valueB : Option CStr) :
    Option Sigma :=
  (strdup ofNull value).bind fun value =>
    (strdup ofNull valueB).map fun valueB => ⟨.UNDEF, op, colA, value, valueB⟩

/-- `negateSi`. The first `switch` is about `link`, also where it means `op`. -/
def negateSi (this : Sigma) : Sigma :=
  match this.link with
  | .ISNULL => { this with link := .NOTNULL }
  | .NOTNULL => { this with link := .ISNULL }
  | .BETWEEN => { this with link := .NOTBETWEEN }
  | .NOTBETWEEN => { this with link := .BETWEEN }
  | link => { this with
      link := match link with
        | .OR => .AND
        | .AND => .OR
        | link => link
      op := match this.op with
        | .EQ => .NE
        | .NE => .NE
        | .GT => .LE
        | .LT => .GE
        | .GE => .GT
        | .LE => .LT
        | op => op }

/-- A field that stands for NULL. -/
def isNullText (r : Option CStr) : Bool :=
  match r with
  | none => true
  | some s => strcasecmp s (lit "NULL") = 0

/-- `row_cmp`. The `-1` for a NULL on the left is overwritten, and a null pointer there is
followed. -/
def row_cmp (r1 r2 : Option CStr) (type : ColType) (order : Direction) : Option Int :=
  let res : Option Int :=
    if isNullText r2 then some 1
    else match r1, r2 with
      | some s, some t => some <| match type with
        | .string => strcasecmp s t
        | .signed =>
          if strtoll s = strtoll t then 0 else if strtoll s < strtoll t then -1 else 1
        | .unsigned =>
          if strtoull s = strtoull t then 0 else if strtoull s < strtoull t then -1 else 1
      | _, _ => none
  res.map fun res => if order = .DSC then res * -1 else res

/-! ## The parser -/

inductive Comparison where
  | EQ | NE | GT | LT | GE | LE
  deriving Repr, DecidableEq

def Comparison.code : Comparison → Code
  | .EQ => .EQ
  | .NE => .NE
  | .GT => .GT
  | .LT => .LT
  | .GE => .GE
  | .LE => .LE

/-- A number as it is written: an integer, or digits with a point, which are `m` times
`10 ^ e`. -/
inductive Number where
  | integer (k : Int)
  | double (minus : Bool) (m : Nat) (e : Int)
  deriving Repr, DecidableEq

inductive Literal where
  | number (q : Number)
  | string (s : CStr)
  deriving Repr, DecidableEq

inductive Predicate where
  | compare (col : Column) (comparison : Comparison) (literal : Literal)
  | between (col : Column) (optNot : Bool) (a b : Number)
  | isNull (col : Column) (optNot : Bool)
  deriving Repr, DecidableEq

/-- A predicate with the NOT in front of it. -/
structure Cond where
  optNot : Bool
  predicate : Predicate
  deriving Repr, DecidableEq

structure Clause where
  first : Cond
  rest : List (Link × Cond)
  deriving Repr, DecidableEq

/-- `number`: `strtol` to an `int` and `%d`, or `strtod` and `%f`. There are 100 bytes for
it. -/
def number : Number → Option CStr
  | .integer k => some (printInt (cInt (max (-2 ^ 63) (min k (2 ^ 63 - 1)))))
  | .double minus m e =>
    let s := printFixed minus (roundDouble (m * 10 ^ e.toNat) (10 ^ (-e).toNat))
    if s.length < 100 then some s else none

/-- `limitedPredicate`. It is `none` for types that do not match, too. -/
def limitedPredicate (ofNull : Bool) : Predicate → Option Sigma
  | .compare col comparison (.number q) =>
    if col.colSQLType = .string then none
    else (number q).bind fun s => newSigma ofNull col comparison.code (some s) none
  | .compare col comparison (.string s) =>
    if col.colSQLType ≠ .string then none
    else newSigma ofNull col comparison.code (some s) none
  | .between col optNot a b =>
    if col.colSQLType = .string then none
    else
      let between := if optNot then .NOTBETWEEN else .BETWEEN
      (number a).bind fun a => (number b).bind fun b =>
        if strtod a < strtod b then newSigma ofNull col between (some a) (some b)
        else newSigma ofNull col between (some b) (some a)
  | .isNull col optNot => newSigma ofNull col (if optNot then .NOTNULL else .ISNULL) none none

def linkCode : Link → Code
  | .and => .AND
  | .or => .OR

/-- `optCondition`: `whereList` after its action. The rest of the clause has been appended
by then. -/
def optCondition (ofNull : Bool) : List (Link × Cond) → Option (List Sigma)
  | [] => some []
  | (link, cond) :: rest =>
    (limitedPredicate ofNull cond.predicate).bind fun sigma =>
      (optCondition ofNull rest).map fun whereList =>
        let sigma := { sigma with link := linkCode link }
        whereList ++ [if cond.optNot then negateSi sigma else sigma]

/-- `searchCondition`. -/
def searchCondition (ofNull : Bool) (clause : Clause) : Option (List Sigma) :=
  (limitedPredicate ofNull clause.first.predicate).bind fun sigma =>
    (optCondition ofNull clause.rest).map fun whereList =>
      whereList ++ [if clause.first.optNot then negateSi sigma else sigma]

/-! ## The test -/

/-- `cmp` in `testSigma`. -/
def cmpOf (pi : List Column) (row : List CStr) (junk : Int) (sigma : Sigma) : Option Int :=
  (getColNr sigma.colA pi).bind fun nr => (row[nr]?).bind fun field =>
    match sigma.op with
    | .ISNULL | .NOTNULL => some (strcasecmp field (lit "NULL"))
    | .BETWEEN | .NOTBETWEEN =>
      match sigma.value, sigma.valueB with
      | some a, some b =>
        some (if strtod field > strtod a ∧ strtod field < strtod b then 0 else junk)
      | _, _ => none
    | _ => row_cmp (some field) sigma.value sigma.colA.colSQLType .ASC

/-- `cmp_op`. -/
def cmp_op (op : Code) (cmp : Int) : Bool :=
  match op with
  | .ISNULL | .BETWEEN | .EQ => cmp = 0
  | .NOTNULL | .NOTBETWEEN | .NE => cmp ≠ 0
  | .GT => cmp > 0
  | .LT => cmp < 0
  | .GE => cmp ≥ 0
  | .LE => cmp ≤ 0
  | _ => false

/-- The loop of `testSigma`, from the `i`-th condition on. `none` for `res` is `UNDEF`. -/
def testLoop (pi : List Column) (row : List CStr) (junk : Nat → Int) :
    Nat → Option Bool → List Sigma → Option (Option Bool)
  | _, res, [] => some res
  | i, res, sigma :: rest =>
    if ¬ (sigma.link = .AND ∧ res = some false) ∧ ¬ (sigma.link = .OR ∧ res = some true) then
      (cmpOf pi row (junk i) sigma).bind fun cmp =>
        let value := cmp_op sigma.op cmp
        let res :=
          if res = none then some value
          else if sigma.link = .UNDEF then some value
          else if sigma.link = .AND then (if res = some true then some value else some false)
          else if sigma.link = .OR then (if res ≠ some true then some value else res)
          else res
        testLoop pi row junk (i + 1) res rest
    else testLoop pi row junk (i + 1) res rest

/-- `testSigma`, and whether `calculateSSel` keeps the row: `UNDEF` is not zero. -/
def testSigma (pi : List Column) (row : List CStr) (junk : Nat → Int) (whereList : List Sigma) :
    Option Bool :=
  if whereList = [] then some true
  else (testLoop pi row junk 0 none whereList.reverse).map fun res => res.getD true

/-! ## What a clause means -/

/-- What a row has in a column. -/
inductive Value where
  | int (n : Int)
  | text (s : CStr)
  deriving Repr, DecidableEq

/-- The field in the row: `%lld` or `%llu`, or the string. -/
def Value.field : Value → CStr
  | .int n => printInt n
  | .text s => s

/-- A value of the column that is not NULL. -/
def Legal (col : Column) : Value → Prop
  | .int n => match col.colSQLType with
    | .string => False
    | .signed => -2 ^ 63 ≤ n ∧ n < 2 ^ 63
    | .unsigned => 0 ≤ n ∧ n < 2 ^ 64
  | .text s => col.colSQLType = .string ∧ isNullText (some s) = false

/-- A number is a fraction. -/
def Number.num : Number → Int
  | .integer k => k
  | .double minus m e => (if minus then -1 else 1) * (m * 10 ^ e.toNat : Nat)

def Number.den : Number → Nat
  | .integer _ => 1
  | .double _ _ e => 10 ^ (-e).toNat

/-- Below, equal to or above zero. Strings are in the order of `strcasecmp`. -/
def Value.compare : Value → Literal → Int
  | .int n, .number q => n * q.den - q.num
  | .text s, .string t => strcasecmp s t
  | _, _ => 0

def Comparison.holds (comparison : Comparison) (order : Int) : Bool :=
  match comparison with
  | .EQ => order = 0
  | .NE => order ≠ 0
  | .GT => order > 0
  | .LT => order < 0
  | .GE => order ≥ 0
  | .LE => order ≤ 0

/-- What SQL says about a row with the values `v`, none of which is NULL. -/
def Predicate.truth (v : Column → Value) : Predicate → Bool
  | .compare col comparison literal => comparison.holds ((v col).compare literal)
  | .between col optNot a b =>
    (decide (0 ≤ (v col).compare (.number a)) && decide ((v col).compare (.number b) ≤ 0)) ^^ optNot
  | .isNull _ optNot => optNot

def Cond.truth (v : Column → Value) (cond : Cond) : Bool := cond.predicate.truth v ^^ cond.optNot

def Clause.truth (v : Column → Value) (clause : Clause) : Bool :=
  tightAnd (clause.first.truth v) (clause.rest.map fun e => (e.1, e.2.truth v))

/-! ## What is tested -/

/-- The smaller one of two numbers. -/
def Number.lower (a b : Number) : Number := if a.num * b.den < b.num * a.den then a else b

def Number.upper (a b : Number) : Number := if a.num * b.den < b.num * a.den then b else a

/-- The sign of `cmp` for a predicate. -/
def Predicate.order (v : Column → Value) (junk : Int) : Predicate → Int
  | .compare col _ literal => (v col).compare literal
  | .between col _ a b =>
    if (v col).compare (.number (a.lower b)) > 0 ∧ (v col).compare (.number (a.upper b)) < 0 then 0
    else junk
  | .isNull col _ => strcasecmp (v col).field (lit "NULL")

def Predicate.code : Predicate → Code
  | .compare _ comparison _ => comparison.code
  | .between _ optNot _ _ => if optNot then .NOTBETWEEN else .BETWEEN
  | .isNull _ optNot => if optNot then .NOTNULL else .ISNULL

/-- The operator that `negateSi` makes. -/
def negateCode : Code → Code
  | .EQ => .NE
  | .NE => .NE
  | .GT => .LE
  | .LT => .GE
  | .GE => .GT
  | .LE => .LT
  | op => op

/-- The test that is made for a predicate, with the operator as it is stored. -/
def Cond.test (v : Column → Value) (junk : Int) (cond : Cond) : Bool :=
  cmp_op (if cond.optNot then negateCode cond.predicate.code else cond.predicate.code)
    (cond.predicate.order v junk)

/-- The link as it is stored. -/
def Cond.link (cond : Cond) (link : Link) : Link := if cond.optNot then link.other else link

/-- The tests of a clause from the `i`-th predicate on. -/
def tests (v : Column → Value) (junk : Nat → Int) : Nat → List (Link × Cond) → List (Link × Bool)
  | _, [] => []
  | i, (link, cond) :: rest =>
    (cond.link link, cond.test v (junk i)) :: tests v junk (i + 1) rest

/-- A number that is whole. -/
def Number.IsWhole (q : Number) (k : Int) : Prop := q.num = k * q.den

instance (q : Number) (k : Int) : Decidable (q.IsWhole k) := inferInstanceAs (Decidable (_ = _))

/-- A literal that arrives as what it is: a whole number that an `int` holds, not negative for
an unsigned column, or a string that is not taken for NULL. -/
def Literal.Fine (type : ColType) : Literal → Prop
  | .number q => match type with
    | .string => False
    | .signed => ∃ k, q.IsWhole k ∧ -2 ^ 31 ≤ k ∧ k < 2 ^ 31
    | .unsigned => ∃ k, q.IsWhole k ∧ 0 ≤ k ∧ k < 2 ^ 31
  | .string s => type = .string ∧ isNullText (some s) = false

/-- A predicate over the table that the parser accepts, with literals that are fine. -/
def Predicate.Fine (pi : List Column) : Predicate → Prop
  | .compare col _ literal => col ∈ pi ∧ literal.Fine col.colSQLType
  | .between col _ a b => col ∈ pi ∧ col.colSQLType ≠ .string ∧
    (∃ k, a.IsWhole k ∧ -2 ^ 31 ≤ k ∧ k < 2 ^ 31) ∧ ∃ k, b.IsWhole k ∧ -2 ^ 31 ≤ k ∧ k < 2 ^ 31
  | .isNull col _ => col ∈ pi

/-- The columns of a table. -/
def Table (pi : List Column) : Prop := pi.Pairwise fun a b => coleql a b ≠ 0

theorem Number.den_pos (q : Number) : (0 : Int) < q.den := by
  refine Int.natCast_pos.mpr ?_
  cases q with
  | integer k => exact Nat.one_pos
  | double minus m e => exact Nat.pow_pos (by omega)

theorem printInt_int {k : Int} (h : -2 ^ 31 ≤ k ∧ k < 2 ^ 31) :
    cInt (max (-2 ^ 63) (min k (2 ^ 63 - 1))) = k := by
  rw [Int.min_eq_left (by omega), Int.max_eq_right (by omega), cInt,
    Int.bmod_eq_of_le (by omega) (by omega)]

/-- A number is never the text of NULL. -/
theorem isNullText_wholeText (minus : Bool) (n : Nat) (fraction : CStr) :
    isNullText (some (wholeText minus n fraction)) = false := by
  have hfirst : ∀ (d : UInt8) (ds : CStr), toLower d ≠ 110 → isNullText (some (d :: ds)) = false := by
    intro d ds hd
    have hne : (toLower d).toNat ≠ 110 := fun h => hd (UInt8.toNat_inj.mp h)
    show decide (strcmp (toLower d :: ds.map toLower) (110 :: _) = 0) = false
    rw [decide_eq_false_iff_not, strcmp, if_neg hd]
    show ¬ ((toLower d).toNat : Int) - 110 = 0
    omega
  cases minus with
  | true => exact hfirst 45 _ (by decide)
  | false =>
    obtain ⟨d, ds, -, hcons, hd, -⟩ := wholeText_cases n fraction
    show isNullText (some (numeral 10 n ++ fraction)) = false
    rw [← hcons]
    refine hfirst d ds fun h => ?_
    simp only [isDigit, Bool.and_eq_true, decide_eq_true_eq, UInt8.le_iff_toNat_le] at hd
    have hle : d.toNat ≤ 57 := hd.2
    unfold toLower at h
    split at h
    · next hupper =>
      have hge : 65 ≤ d.toNat := UInt8.le_iff_toNat_le.mp hupper.1
      omega
    · rw [h] at hle
      exact absurd hle (by decide)

theorem isNullText_printInt (n : Int) : isNullText (some (printInt n)) = false := by
  rw [printInt_eq]
  exact isNullText_wholeText ..

/-- The text reads as this number everywhere. -/
structure Spells (s : CStr) (k : Int) : Prop where
  signed : strtoll s = k
  unsigned : 0 ≤ k → (strtoull s : Int) = k
  double : strtod s = k * doubleOne
  notNull : isNullText (some s) = false

theorem spells_wholeText {minus : Bool} {k : Int} {fraction : CStr}
    (hk : -2 ^ 31 ≤ k ∧ k < 2 ^ 31) (hfraction : fraction = [] ∨ fraction = zeroFraction)
    (hsign : (if minus then -(k.natAbs : Int) else k.natAbs) = k) :
    Spells (wholeText minus k.natAbs fraction) k := by
  have hends : EndsNumber fraction := by
    rcases hfraction with rfl | rfl
    · exact fun _ hb => absurd hb (by simp)
    · exact endsNumber_cons (by decide) _
  refine ⟨?_, fun hpos => ?_, ?_, isNullText_wholeText ..⟩
  · rw [strtoll_wholeText hends minus (by omega), hsign]
  · rw [strtoull_wholeText hends (by omega) fun hminus => ?_]
    · omega
    · rw [hminus, if_pos rfl] at hsign
      omega
  · rw [strtod_whole hends minus hfraction (by omega), hsign]

/-- The text of a whole number. -/
theorem number_spec {q : Number} {k : Int} (hq : q.IsWhole k) (hk : -2 ^ 31 ≤ k ∧ k < 2 ^ 31) :
    ∃ s, number q = some s ∧ Spells s k := by
  cases q with
  | integer n =>
    obtain rfl : n = k := by simpa [Number.IsWhole, Number.num, Number.den] using hq
    refine ⟨_, rfl, ?_⟩
    rw [printInt_int hk, printInt_eq]
    refine spells_wholeText hk (Or.inl rfl) ?_
    by_cases hneg : n < 0
    · rw [decide_eq_true hneg, if_pos rfl]
      omega
    · rw [decide_eq_false hneg, if_neg (by decide)]
      omega
  | double minus m e =>
    -- the digits are a multiple of the power of ten
    have hden : 0 < 10 ^ (-e).toNat := Nat.pow_pos (by omega)
    have hsigned : (if minus then -1 else 1) * ((m * 10 ^ e.toNat : Nat) : Int) =
        k * (10 ^ (-e).toNat : Nat) := hq
    have habs : m * 10 ^ e.toNat = k.natAbs * 10 ^ (-e).toNat := by
      have := congrArg Int.natAbs hsigned
      rw [Int.natAbs_mul, Int.natAbs_mul, Int.natAbs_natCast, Int.natAbs_natCast] at this
      cases minus <;> simpa using this
    have htext : printFixed minus (roundDouble (m * 10 ^ e.toNat) (10 ^ (-e).toNat)) =
        wholeText minus k.natAbs zeroFraction := by
      rw [habs, roundDouble_whole hden (by omega), printFixed_whole minus (by omega)]
    have hshort : (wholeText minus k.natAbs zeroFraction).length < 100 := by
      have hdigits : (numeral 10 k.natAbs).length ≤ 33 := length_numeral_le (by omega)
      have hfraction : zeroFraction.length = 7 := rfl
      unfold wholeText
      rw [List.length_append, List.length_append, hfraction]
      cases minus <;> simp <;> omega
    refine ⟨wholeText minus k.natAbs zeroFraction, ?_, spells_wholeText hk (Or.inr rfl) ?_⟩
    · rw [number, htext]
      exact if_pos hshort
    · rw [habs, Int.natCast_mul, ← Int.mul_assoc] at hsigned
      have hden : ((10 ^ (-e).toNat : Nat) : Int) ≠ 0 := by omega
      have := Int.mul_eq_mul_right_iff hden |>.mp hsigned
      cases minus <;> simpa using this

theorem coleql_self (col : Column) : coleql col col = 0 :=
  if_pos ⟨strcmp_self _, strcmp_self _⟩

theorem coleql_symm {a b : Column} (h : coleql a b = 0) : coleql b a = 0 := by
  unfold coleql at h
  split at h
  · next heq =>
    have hname : strcasecmp b.colName a.colName = 0 := by
      rw [strcasecmp, strcmp_swap, ← strcasecmp, heq.1]
      rfl
    have halias : strcasecmp b.tableAlias a.tableAlias = 0 := by
      rw [strcasecmp, strcmp_swap, ← strcasecmp, heq.2]
      rfl
    exact if_pos ⟨hname, halias⟩
  · exact absurd h (by decide)

/-- A column of the table is found in its place. -/
theorem getColNr_spec {pi : List Column} (hpi : Table pi) {col : Column} (h : col ∈ pi)
    (field : Column → CStr) :
    (getColNr col pi).bind (fun nr => (pi.map field)[nr]?) = some (field col) := by
  unfold getColNr
  induction pi with
  | nil => exact absurd h List.not_mem_nil
  | cons c pi ih =>
    obtain ⟨hc, hpi⟩ := List.pairwise_cons.mp hpi
    rw [List.findIdx?_cons]
    by_cases heq : coleql col c = 0
    · rcases List.mem_cons.mp h with rfl | hmem
      · rw [if_pos (by simpa using heq)]
        rfl
      · exact absurd (coleql_symm heq) (hc col hmem)
    · rcases List.mem_cons.mp h with rfl | hmem
      · exact absurd (coleql_self col) heq
      · rw [if_neg (by simpa using heq), ← ih hpi hmem, Option.bind_map]
        rfl

/-! ### One condition -/

/-- Only the sign is tested. -/
theorem cmp_op_congr {c c' : Int} (h : c.sign = c'.sign) (op : Code) : cmp_op op c = cmp_op op c' := by
  have hneg : c < 0 ↔ c' < 0 := by rw [← Int.sign_eq_neg_one_iff_neg, h, Int.sign_eq_neg_one_iff_neg]
  have hpos : 0 < c ↔ 0 < c' := by rw [← Int.sign_eq_one_iff_pos, h, Int.sign_eq_one_iff_pos]
  have hzero : c = 0 ↔ c' = 0 := by omega
  cases op <;> simp only [cmp_op] <;> grind

/-- What `value` points to. -/
def Literal.text : Literal → Option CStr
  | .number q => Sql.number q
  | .string s => some s

theorem sign_ite (a b : Int) : (if a = b then (0 : Int) else if a < b then -1 else 1).sign =
    (a - b).sign := by
  split
  · next h => rw [h, Int.sub_self]
  · split
    · rw [Int.sign_eq_neg_one_of_neg (by omega : a - b < 0)]; rfl
    · rw [Int.sign_eq_one_of_pos (by omega : 0 < a - b)]; rfl

/-- The difference from a whole number. -/
theorem sign_compare {q : Number} {k : Int} (hq : q.IsWhole k) (n : Int) :
    (n - k).sign = ((Value.int n).compare (.number q)).sign := by
  rw [Value.compare, hq, ← Int.sub_mul, Int.sign_mul, Int.sign_eq_one_of_pos q.den_pos, Int.mul_one]

theorem row_cmp_spec {col : Column} {value : Value} (hvalue : Legal col value) {literal : Literal}
    (hliteral : literal.Fine col.colSQLType) :
    ∃ cmp, row_cmp (some value.field) literal.text col.colSQLType .ASC = some cmp ∧
      cmp.sign = (value.compare literal).sign := by
  cases literal with
  | string t =>
    obtain ⟨htype, hnull⟩ := hliteral
    cases value with
    | int n => simp [Legal, htype] at hvalue
    | text s => exact ⟨strcasecmp s t, by simp [row_cmp, Literal.text, Value.field, hnull, htype], rfl⟩
  | number q =>
    cases value with
    | text s => simp [Literal.Fine, hvalue.1] at hliteral
    | int n =>
      cases htype : col.colSQLType with
      | string => simp [Literal.Fine, htype] at hliteral
      | signed =>
        simp only [Literal.Fine, Legal, htype] at hliteral hvalue
        obtain ⟨k, hq, hk⟩ := hliteral
        obtain ⟨s, hs, hread⟩ := number_spec hq hk
        refine ⟨_, ?_, (sign_ite n k).trans (sign_compare hq n)⟩
        simp only [row_cmp, Literal.text, Value.field, hs, hread.notNull, hread.signed,
          strtoll_printInt hvalue.1 hvalue.2]
        simp
      | unsigned =>
        simp only [Literal.Fine, Legal, htype] at hliteral hvalue
        obtain ⟨k, hq, hk⟩ := hliteral
        obtain ⟨s, hs, hread⟩ := number_spec hq (by omega)
        obtain ⟨n, rfl⟩ := Int.eq_ofNat_of_zero_le hvalue.1
        have hunsigned := hread.unsigned hk.1
        refine ⟨_, ?_, (sign_ite n k).trans (sign_compare hq n)⟩
        simp only [row_cmp, Literal.text, Value.field, hs, hread.notNull,
          strtoull_printInt (n := n) (by omega), ← hunsigned, Int.natCast_inj, Int.ofNat_lt,
          Bool.false_eq_true, if_false, Option.map_some, reduceCtorEq]

/-- The condition that is made of a predicate. -/
def Predicate.sigma (p : Predicate) : Sigma :=
  match p with
  | .compare col _ literal => ⟨.UNDEF, p.code, col, literal.text, none⟩
  | .between col _ a b => ⟨.UNDEF, p.code, col, number (a.lower b), number (a.upper b)⟩
  | .isNull col _ => ⟨.UNDEF, p.code, col, none, none⟩

/-- Only BETWEEN has both values. -/
def Predicate.isBetween : Predicate → Bool
  | .between .. => true
  | _ => false

theorem Number.num_lt_iff {a b : Number} {k l : Int} (ha : a.IsWhole k) (hb : b.IsWhole l) :
    a.num * b.den < b.num * a.den ↔ k < l := by
  rw [ha, hb, Int.mul_assoc, Int.mul_assoc, Int.mul_comm (b.den : Int)]
  exact Int.mul_lt_mul_right (Int.mul_pos a.den_pos b.den_pos)

theorem limitedPredicate_eq {pi : List Column} {p : Predicate} (hp : p.Fine pi) (ofNull : Bool) :
    limitedPredicate ofNull p = if ofNull || p.isBetween then some p.sigma else none := by
  cases p with
  | compare col comparison literal =>
    cases literal with
    | number q =>
      have htype : col.colSQLType ≠ .string := fun htype => by
        have := hp.2
        simp [Literal.Fine, htype] at this
      obtain ⟨k, hq, hk⟩ : ∃ k, q.IsWhole k ∧ -2 ^ 31 ≤ k ∧ k < 2 ^ 31 := by
        have := hp.2
        cases hcol : col.colSQLType with
        | string => exact absurd hcol htype
        | signed => simpa [Literal.Fine, hcol] using this
        | unsigned =>
          obtain ⟨k, hq, hk⟩ : ∃ k, q.IsWhole k ∧ 0 ≤ k ∧ k < 2 ^ 31 := by
            simpa [Literal.Fine, hcol] using this
          exact ⟨k, hq, by omega⟩
      obtain ⟨s, hs, -⟩ := number_spec hq hk
      rw [limitedPredicate, if_neg htype, Predicate.sigma, Literal.text, hs]
      cases ofNull <;> rfl
    | string s =>
      rw [limitedPredicate, if_neg fun h => h hp.2.1]
      cases ofNull <;> rfl
  | between col optNot a b =>
    obtain ⟨-, htype, ⟨k, hka, ha⟩, l, hlb, hb⟩ := hp
    obtain ⟨s, hs, hreads⟩ := number_spec hka ha
    obtain ⟨t, ht, hreadt⟩ := number_spec hlb hb
    have hsome : ∀ op x y, newSigma ofNull col op (some x) (some y) = some ⟨.UNDEF, op, col, some x, some y⟩ :=
      fun _ _ _ => rfl
    have hlt : strtod s < strtod t ↔ a.num * b.den < b.num * a.den := by
      rw [hreads.double, hreadt.double, Int.mul_lt_mul_right (Int.natCast_pos.mpr doubleOne_pos),
        Number.num_lt_iff hka hlb]
    rw [limitedPredicate, if_neg htype, hs, ht, Option.bind_some, Option.bind_some,
      Predicate.isBetween, Bool.or_true, if_pos rfl]
    simp only [hsome, Predicate.sigma, Number.lower, Number.upper]
    by_cases h : a.num * b.den < b.num * a.den
    · rw [if_pos (hlt.mpr h), if_pos h, if_pos h, hs, ht]
      rfl
    · rw [if_neg (mt hlt.mp h), if_neg h, if_neg h, hs, ht]
      rfl
  | isNull col optNot => cases ofNull <;> rfl

/-- The test of a condition is of the right two values, also when its operator has been
negated. -/
theorem cmpOf_spec {pi : List Column} (hpi : Table pi) {v : Column → Value}
    (hv : ∀ col ∈ pi, Legal col (v col)) {p : Predicate} (hp : p.Fine pi) (junk : Int) (link : Code)
    {op : Code} (hop : op = p.code ∨ op = negateCode p.code) :
    ∃ cmp, cmpOf pi (pi.map fun col => (v col).field) junk { p.sigma with link, op } = some cmp ∧
      cmp.sign = (p.order v junk).sign := by
  have hfield : ∀ {col : Column} {f : CStr → Option Int}, col ∈ pi →
      ((getColNr col pi).bind fun nr => ((pi.map fun col => (v col).field)[nr]?).bind f) =
        f (v col).field := by
    intro col f hcol
    rw [← Option.bind_assoc, getColNr_spec hpi hcol fun col => (v col).field, Option.bind_some]
  cases p with
  | compare col comparison literal =>
    obtain ⟨cmp, hcmp, hsign⟩ := row_cmp_spec (hv col hp.1) hp.2
    refine ⟨cmp, ?_, hsign⟩
    rw [cmpOf]
    show ((getColNr col pi).bind fun nr => _) = _
    rw [hfield hp.1, ← hcmp]
    cases comparison <;> rcases hop with rfl | rfl <;> rfl
  | between col optNot a b =>
    obtain ⟨hcol, htype, ha, hb⟩ := hp
    have hvalue := hv col hcol
    cases hval : v col with
    | text s =>
      rw [hval] at hvalue
      exact absurd hvalue.1 htype
    | int n =>
      obtain ⟨k, hlower, hk⟩ : ∃ k, (a.lower b).IsWhole k ∧ -2 ^ 31 ≤ k ∧ k < 2 ^ 31 := by
        unfold Number.lower
        split
        · exact ha
        · exact hb
      obtain ⟨l, hupper, hl⟩ : ∃ k, (a.upper b).IsWhole k ∧ -2 ^ 31 ≤ k ∧ k < 2 ^ 31 := by
        unfold Number.upper
        split
        · exact hb
        · exact ha
      obtain ⟨s, hs, hreads⟩ := number_spec hlower hk
      obtain ⟨t, ht, hreadt⟩ := number_spec hupper hl
      refine ⟨(Predicate.between col optNot a b).order v junk, ?_, rfl⟩
      rw [cmpOf]
      show ((getColNr col pi).bind fun nr => _) = _
      rw [hfield hcol, hval]
      have hcmp : (if strtod (printInt n) > strtod s ∧ strtod (printInt n) < strtod t then 0
            else junk) = (Predicate.between col optNot a b).order v junk := by
        rw [hreads.double, hreadt.double, Predicate.order, hval]
        refine ite_congr (propext (and_congr ?_ ?_)) (fun _ => rfl) fun _ => rfl
        · rw [gt_iff_lt, gt_iff_lt, (strtod_printInt_order n (by omega)).2,
            ← Int.sign_eq_one_iff_pos, ← sign_compare hlower, Int.sign_eq_one_iff_pos]
          omega
        · rw [(strtod_printInt_order n (by omega)).1, ← Int.sign_eq_neg_one_iff_neg,
            ← sign_compare hupper, Int.sign_eq_neg_one_iff_neg]
          omega
      rw [Predicate.sigma, hs, ht, ← hcmp]
      cases optNot <;> rcases hop with rfl | rfl <;> rfl
  | isNull col optNot =>
    have hcol : col ∈ pi := hp
    refine ⟨strcasecmp (v col).field (lit "NULL"), ?_, rfl⟩
    rw [cmpOf]
    show ((getColNr col pi).bind fun nr => _) = _
    rw [hfield hcol]
    cases optNot <;> rcases hop with rfl | rfl <;> rfl

/-! ### The list -/

/-- The condition that is stored for a predicate. -/
def Cond.stored (cond : Cond) (link : Code) : Sigma :=
  { cond.predicate.sigma with
    link
    op := if cond.optNot then negateCode cond.predicate.code else cond.predicate.code }

theorem negate_first (cond : Cond) : (if cond.optNot then negateSi cond.predicate.sigma
    else cond.predicate.sigma) = cond.stored .UNDEF := by
  obtain ⟨optNot, p⟩ := cond
  cases optNot with
  | true =>
    cases p with
    | compare col comparison literal => cases comparison <;> rfl
    | between col optNot a b => cases optNot <;> rfl
    | isNull col optNot => cases optNot <;> rfl
  | false => cases p <;> rfl

theorem negate_rest (link : Link) (cond : Cond) :
    (if cond.optNot then negateSi { cond.predicate.sigma with link := linkCode link }
      else { cond.predicate.sigma with link := linkCode link }) =
        cond.stored (linkCode (cond.link link)) := by
  obtain ⟨optNot, p⟩ := cond
  cases optNot with
  | true =>
    cases p with
    | compare col comparison literal => cases link <;> cases comparison <;> rfl
    | between col optNot a b => cases link <;> cases optNot <;> rfl
    | isNull col optNot => cases link <;> cases optNot <;> rfl
  | false => cases p <;> cases link <;> rfl

/-- `newSigma` comes back. -/
def Cond.builds (ofNull : Bool) (cond : Cond) : Bool := ofNull || cond.predicate.isBetween

def Clause.conds (clause : Clause) : List Cond := clause.first :: clause.rest.map Prod.snd

/-- A clause over the table, see `Predicate.Fine`. -/
def Clause.Fine (pi : List Column) (clause : Clause) : Prop :=
  ∀ cond ∈ clause.conds, cond.predicate.Fine pi

theorem optCondition_eq {pi : List Column} (ofNull : Bool) {rest : List (Link × Cond)}
    (h : ∀ cond ∈ rest.map Prod.snd, cond.predicate.Fine pi) :
    optCondition ofNull rest =
      if (rest.map Prod.snd).all (·.builds ofNull) then
        some (rest.map fun e => e.2.stored (linkCode (e.2.link e.1))).reverse
      else none := by
  induction rest with
  | nil => rfl
  | cons e rest ih =>
    obtain ⟨link, cond⟩ := e
    rw [List.map_cons, List.forall_mem_cons] at h
    rw [optCondition, limitedPredicate_eq h.1, ih h.2, List.map_cons, List.all_cons]
    cases hbuild : cond.builds ofNull with
    | false =>
      rw [show (ofNull || cond.predicate.isBetween) = false from hbuild]
      rfl
    | true =>
      rw [show (ofNull || cond.predicate.isBetween) = true from hbuild, Bool.true_and, if_pos rfl,
        Option.bind_some]
      cases (rest.map Prod.snd).all (·.builds ofNull) with
      | false => rfl
      | true => simp [negate_rest]

/-- The condition list, or the end when `strdup` does not take a null pointer. -/
theorem searchCondition_eq {pi : List Column} (ofNull : Bool) {clause : Clause}
    (h : clause.Fine pi) :
    searchCondition ofNull clause =
      if clause.conds.all (·.builds ofNull) then
        some (clause.first.stored .UNDEF ::
          clause.rest.map fun e => e.2.stored (linkCode (e.2.link e.1))).reverse
      else none := by
  unfold Clause.Fine Clause.conds at h
  rw [List.forall_mem_cons] at h
  rw [searchCondition, limitedPredicate_eq h.1, optCondition_eq ofNull h.2, Clause.conds,
    List.all_cons]
  cases hbuild : clause.first.builds ofNull with
  | false =>
    rw [show (ofNull || clause.first.predicate.isBetween) = false from hbuild]
    rfl
  | true =>
    rw [show (ofNull || clause.first.predicate.isBetween) = true from hbuild, Bool.true_and,
      if_pos rfl, Option.bind_some]
    cases (clause.rest.map Prod.snd).all (·.builds ofNull) with
    | false => rfl
    | true => simp [negate_first]

section Row

variable {pi : List Column} (hpi : Table pi) {v : Column → Value} (hv : ∀ col ∈ pi, Legal col (v col))
  (junk : Nat → Int)
include hpi hv

/-- A stored condition is tested as `Cond.test` says. -/
theorem cmpOf_stored {cond : Cond} (h : cond.predicate.Fine pi) (i : Nat) (link : Code) :
    ∃ cmp, cmpOf pi (pi.map fun col => (v col).field) (junk i) (cond.stored link) = some cmp ∧
      cmp_op (cond.stored link).op cmp = cond.test v (junk i) := by
  have hop : ∀ b : Bool, (if b then negateCode cond.predicate.code else cond.predicate.code) =
      cond.predicate.code ∨ (if b then negateCode cond.predicate.code else cond.predicate.code) =
        negateCode cond.predicate.code := fun b => by cases b <;> simp
  obtain ⟨cmp, hcmp, hsign⟩ := cmpOf_spec hpi hv h (junk i) link (hop cond.optNot)
  exact ⟨cmp, hcmp, cmp_op_congr hsign _⟩

/-- The short cuts make no difference: the loop goes through the tests from left to right. -/
theorem testLoop_eq {rest : List (Link × Cond)}
    (h : ∀ cond ∈ rest.map Prod.snd, cond.predicate.Fine pi) (i : Nat) (res : Bool) :
    testLoop pi (pi.map fun col => (v col).field) junk i (some res)
        (rest.map fun e => e.2.stored (linkCode (e.2.link e.1))) =
      some (some (leftToRight res (tests v junk i rest))) := by
  induction rest generalizing i res with
  | nil => rfl
  | cons e rest ih =>
    obtain ⟨link, cond⟩ := e
    rw [List.map_cons, List.forall_mem_cons] at h
    obtain ⟨cmp, hcmp, hop⟩ := cmpOf_stored hpi hv junk h.1 i (linkCode (cond.link link))
    rw [List.map_cons, testLoop, tests, leftToRight, List.foldl_cons, ← leftToRight]
    dsimp only
    rw [hcmp, Option.bind_some, hop]
    have hlink : (cond.stored (linkCode (cond.link link))).link = linkCode (cond.link link) := rfl
    rw [hlink]
    have hand : linkCode .and = .AND := rfl
    have hor : linkCode .or = .OR := rfl
    cases cond.link link <;> cases res <;> simp [hand, hor, Link.join, ih h.2]

/-- What `testSigma` makes of the list for a clause. -/
theorem testSigma_eq {clause : Clause} (h : clause.Fine pi) :
    testSigma pi (pi.map fun col => (v col).field) junk
        (clause.first.stored .UNDEF ::
          clause.rest.map fun e => e.2.stored (linkCode (e.2.link e.1))).reverse =
      some (leftToRight (clause.first.test v (junk 0)) (tests v junk 1 clause.rest)) := by
  unfold Clause.Fine Clause.conds at h
  rw [List.forall_mem_cons] at h
  obtain ⟨cmp, hcmp, hop⟩ := cmpOf_stored hpi hv junk h.1 0 .UNDEF
  rw [testSigma, if_neg (by simp), List.reverse_reverse, testLoop, if_pos (by simp), hcmp,
    Option.bind_some]
  simp only [hop, if_true]
  rw [testLoop_eq hpi hv junk h.2]
  rfl

end Row

end Sfcb.Sql
