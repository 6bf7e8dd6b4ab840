import Sfcb.Sql.SearchCondition
import Mathlib.Data.List.Induction

/-!
# Which WHERE clauses are tested right

The form of a clause is what is left of it without columns and literals. `where_iff`: clauses
of a form are tested right, whatever the table, the literals and the row are, when
- there is no BETWEEN: `cmp` has no value for a number that is not strictly between;
- a NOT stands only in front of the first predicate, since `negateSi` also turns AND into OR
  and back, and only in front of `=`, `>` and `<`: NOT `>=` becomes `>`, NOT `<=` becomes `<`,
  NOT `<>` and NOT IS NULL stay what they are;
- no AND stands behind an OR, since all links bind alike;

and only then, unless the clause asks for NULL, which is a constant here and may hide what
stands behind it.
-/

namespace Sfcb.Sql

open Sfcb.Lib

/-! ## Forms -/

inductive Kind where
  | compare (comparison : Comparison) (text : Bool)
  | between (optNot : Bool)
  | isNull (optNot : Bool)
  deriving Repr, DecidableEq

structure CondForm where
  optNot : Bool
  kind : Kind
  deriving Repr, DecidableEq

structure Form where
  first : CondForm
  rest : List (Link × CondForm)
  deriving Repr, DecidableEq

def Predicate.kind : Predicate → Kind
  | .compare _ comparison (.number _) => .compare comparison false
  | .compare _ comparison (.string _) => .compare comparison true
  | .between _ optNot _ _ => .between optNot
  | .isNull _ optNot => .isNull optNot

def Cond.form (cond : Cond) : CondForm := ⟨cond.optNot, cond.predicate.kind⟩

def Clause.form (clause : Clause) : Form :=
  ⟨clause.first.form, clause.rest.map fun e => (e.1, e.2.form)⟩

/-- A predicate whose test is right. -/
def CondForm.Good (f : CondForm) : Prop :=
  match f.kind with
  | .compare comparison _ =>
    f.optNot = true → comparison = .EQ ∨ comparison = .GT ∨ comparison = .LT
  | .between _ => False
  | .isNull _ => f.optNot = false

def Form.Good (f : Form) : Prop :=
  f.first.Good ∧ (∀ e ∈ f.rest, e.2.Good ∧ e.2.optNot = false) ∧ AndsFirst (f.rest.map Prod.fst)

/-- The predicate does not ask for NULL. -/
def CondForm.noNull (f : CondForm) : Bool :=
  match f.kind with
  | .isNull _ => false
  | _ => true

def Form.noNull (f : Form) : Bool := f.first.noNull && f.rest.all fun e => e.2.noNull

/-- Every clause of this form is accepted for exactly the rows for which it is true: over
every table, with all literals that are fine, for all rows without NULL, and whatever is on
the stack. -/
def Right (ofNull : Bool) (f : Form) : Prop :=
  ∀ (pi : List Column) (clause : Clause) (v : Column → Value) (junk : Nat → Int),
    clause.form = f → Table pi → clause.Fine pi → (∀ col ∈ pi, Legal col (v col)) →
      ∃ whereList, searchCondition ofNull clause = some whereList ∧
        testSigma pi (pi.map fun col => (v col).field) junk whereList = some (clause.truth v)

/-! ## Good forms -/

theorem cmp_op_code (comparison : Comparison) (order : Int) :
    cmp_op comparison.code order = comparison.holds order := by
  cases comparison <;> rfl

theorem Legal.not_null {col : Column} {value : Value} (h : Legal col value) :
    strcasecmp value.field (lit "NULL") ≠ 0 := by
  have hnull : isNullText (some value.field) = false := by
    cases value with
    | int n => exact isNullText_printInt n
    | text s => exact h.2
  simpa [isNullText] using hnull

/-- These three become what they should under NOT. -/
theorem cmp_op_negateCode {comparison : Comparison}
    (h : comparison = .EQ ∨ comparison = .GT ∨ comparison = .LT) (order : Int) :
    cmp_op (negateCode comparison.code) order = !cmp_op comparison.code order := by
  rcases h with rfl | rfl | rfl
  · simp [Comparison.code, negateCode, cmp_op]
  · simp only [Comparison.code, negateCode, cmp_op, ← decide_not, Int.not_lt, gt_iff_lt]
  · simp only [Comparison.code, negateCode, cmp_op, ← decide_not, Int.not_lt, ge_iff_le]

theorem Cond.test_eq_truth {pi : List Column} {v : Column → Value}
    (hv : ∀ col ∈ pi, Legal col (v col)) {cond : Cond} (hfine : cond.predicate.Fine pi)
    (h : cond.form.Good) (junk : Int) : cond.test v junk = cond.truth v := by
  obtain ⟨optNot, p⟩ := cond
  cases p with
  | compare col comparison literal =>
    have hgood : optNot = true → comparison = .EQ ∨ comparison = .GT ∨ comparison = .LT := by
      cases literal <;> exact h
    show cmp_op (if optNot then _ else _) ((v col).compare literal) =
      (comparison.holds ((v col).compare literal) ^^ optNot)
    cases optNot with
    | false => simpa [Predicate.code] using cmp_op_code comparison _
    | true =>
      rw [if_pos rfl, Bool.xor_true, ← cmp_op_code]
      exact cmp_op_negateCode (hgood rfl) _
  | between col between a b => exact absurd h id
  | isNull col isNot =>
    have hnot : optNot = false := h
    have hne := (hv col hfine).not_null
    rw [hnot]
    cases isNot with
    | false => exact decide_eq_false hne
    | true => exact decide_eq_true hne

theorem tests_eq_truths {pi : List Column} {v : Column → Value}
    (hv : ∀ col ∈ pi, Legal col (v col)) (junk : Nat → Int) {rest : List (Link × Cond)}
    (hfine : ∀ cond ∈ rest.map Prod.snd, cond.predicate.Fine pi)
    (h : ∀ e ∈ rest.map fun e => (e.1, e.2.form), e.2.Good ∧ e.2.optNot = false) (i : Nat) :
    tests v junk i rest = rest.map fun e => (e.1, e.2.truth v) := by
  induction rest generalizing i with
  | nil => rfl
  | cons e rest ih =>
    rw [List.map_cons, List.forall_mem_cons] at hfine h
    have hnot : e.2.optNot = false := h.1.2
    rw [tests, ih hfine.2 h.2, Cond.test_eq_truth hv hfine.1 h.1.1, Cond.link, hnot]
    rfl

theorem right_of_good {f : Form} (h : f.Good) : Right true f := by
  intro pi clause v junk hform hpi hfine hv
  obtain ⟨hfirst, hrest, hlinks⟩ := h
  rw [← hform] at hfirst hrest hlinks
  have hbuild : clause.conds.all (·.builds true) = true := by simp [Cond.builds]
  refine ⟨_, (searchCondition_eq true hfine).trans (if_pos hbuild), ?_⟩
  · rw [testSigma_eq hpi hv junk hfine]
    unfold Clause.Fine Clause.conds at hfine
    rw [List.forall_mem_cons] at hfine
    rw [Cond.test_eq_truth hv hfine.1 hfirst, tests_eq_truths hv junk hfine.2 hrest,
      leftToRight_eq_tightAnd]
    · rfl
    · simpa [Clause.form, Function.comp_def] using hlinks

/-! ## What a predicate can do

Every predicate is about a column of its own. The literal is zero or `"b"`, the bounds are
-1 and 1. -/

/-- The value of the column. -/
inductive Pick where
  | below | equal | above | far
  deriving Repr, DecidableEq

def Pick.num : Pick → Int
  | .below => -1
  | .equal => 0
  | .above => 1
  | .far => 2

/-- Whether a predicate is true, and whether its test is, for a value and what is on the
stack. -/
def CondForm.outcome (f : CondForm) (c : Pick × Int) : Bool × Bool :=
  match f.kind with
  | .compare comparison _ =>
    (cmp_op comparison.code c.1.num ^^ f.optNot,
      cmp_op (if f.optNot then negateCode comparison.code else comparison.code) c.1.num)
  | .between optNot =>
    (((decide (-1 ≤ c.1.num) && decide (c.1.num ≤ 1)) ^^ optNot) ^^ f.optNot,
      cmp_op (if optNot then .NOTBETWEEN else .BETWEEN)
        (if c.1.num > -1 ∧ c.1.num < 1 then 0 else c.2))
  | .isNull _ => (false, false)

/-- Each operator can be true and false. -/
theorem exists_cmp_op (comparison : Comparison) (b : Bool) :
    ∃ p : Pick, cmp_op comparison.code p.num = b := by
  cases b with
  | false =>
    cases comparison with
    | EQ | GT | GE => exact ⟨.below, rfl⟩
    | NE => exact ⟨.equal, rfl⟩
    | LT | LE => exact ⟨.above, rfl⟩
  | true =>
    cases comparison with
    | EQ => exact ⟨.equal, rfl⟩
    | NE | LT | LE => exact ⟨.below, rfl⟩
    | GT | GE => exact ⟨.above, rfl⟩

theorem exists_negateCode (comparison : Comparison) :
    ∃ other : Comparison, negateCode comparison.code = other.code := by
  cases comparison with
  | EQ => exact ⟨.NE, rfl⟩
  | NE => exact ⟨.NE, rfl⟩
  | GT => exact ⟨.LE, rfl⟩
  | LT => exact ⟨.GE, rfl⟩
  | GE => exact ⟨.GT, rfl⟩
  | LE => exact ⟨.LT, rfl⟩

namespace CondForm

variable {f : CondForm} (hnull : f.noNull = true)
include hnull

theorem exists_truth (b : Bool) : ∃ c, (f.outcome c).1 = b := by
  obtain ⟨optNot, kind⟩ := f
  cases kind with
  | compare comparison text =>
    obtain ⟨p, hp⟩ := exists_cmp_op comparison (b ^^ optNot)
    refine ⟨(p, 0), ?_⟩
    show (cmp_op comparison.code p.num ^^ optNot) = b
    rw [hp, Bool.xor_assoc, Bool.xor_self, Bool.xor_false]
  | between isNot =>
    cases h : (b ^^ optNot ^^ isNot) with
    | false => exact ⟨(.far, 0), by cases b <;> cases optNot <;> cases isNot <;> simp_all [outcome, Pick.num]⟩
    | true => exact ⟨(.equal, 0), by cases b <;> cases optNot <;> cases isNot <;> simp_all [outcome, Pick.num]⟩
  | isNull isNot => exact absurd hnull (by simp [noNull])

theorem exists_test (b : Bool) : ∃ c, (f.outcome c).2 = b := by
  obtain ⟨optNot, kind⟩ := f
  cases kind with
  | compare comparison text =>
    obtain ⟨other, hother⟩ : ∃ other : Comparison,
        (if optNot then negateCode comparison.code else comparison.code) = other.code := by
      cases optNot with
      | false => exact ⟨comparison, rfl⟩
      | true => exact exists_negateCode comparison
    obtain ⟨p, hp⟩ := exists_cmp_op other b
    refine ⟨(p, 0), ?_⟩
    show cmp_op (if optNot then _ else _) p.num = b
    rw [hother, hp]
  | between isNot =>
    cases b <;> cases isNot
    · exact ⟨(.far, 1), rfl⟩
    · exact ⟨(.far, 0), rfl⟩
    · exact ⟨(.far, 0), rfl⟩
    · exact ⟨(.far, 1), rfl⟩
  | isNull isNot => exact absurd hnull (by simp [noNull])

/-- Without NOT the test can be right either way. -/
theorem exists_right (hnot : f.optNot = false) (b : Bool) : ∃ c, f.outcome c = (b, b) := by
  obtain ⟨optNot, kind⟩ := f
  obtain rfl : optNot = false := hnot
  cases kind with
  | compare comparison text =>
    obtain ⟨p, hp⟩ := exists_cmp_op comparison b
    refine ⟨(p, 0), ?_⟩
    show (cmp_op comparison.code p.num ^^ false, cmp_op comparison.code p.num) = (b, b)
    rw [hp, Bool.xor_false]
  | between isNot =>
    cases b <;> cases isNot
    · exact ⟨(.far, 1), rfl⟩
    · exact ⟨(.equal, 0), rfl⟩
    · exact ⟨(.equal, 0), rfl⟩
    · exact ⟨(.far, 1), rfl⟩
  | isNull isNot => exact absurd hnull (by simp [noNull])

/-- A test that is not right can fail where the predicate is true. -/
theorem exists_missed (h : ¬ f.Good) : ∃ c, f.outcome c = (true, false) := by
  obtain ⟨optNot, kind⟩ := f
  cases kind with
  | compare comparison text =>
    cases optNot with
    | false => exact absurd (fun hf => absurd hf (by simp)) h
    | true =>
      cases comparison with
      | EQ => exact absurd (fun _ => Or.inl rfl) h
      | GT => exact absurd (fun _ => Or.inr (Or.inl rfl)) h
      | LT => exact absurd (fun _ => Or.inr (Or.inr rfl)) h
      | NE => exact ⟨(.equal, 0), rfl⟩
      | GE => exact ⟨(.below, 0), rfl⟩
      | LE => exact ⟨(.above, 0), rfl⟩
  | between isNot =>
    cases optNot <;> cases isNot
    · exact ⟨(.above, 1), rfl⟩
    · exact ⟨(.far, 0), rfl⟩
    · exact ⟨(.far, 1), rfl⟩
    · exact ⟨(.above, 0), rfl⟩
  | isNull isNot => exact absurd hnull (by simp [noNull])

theorem outcome_of_good (h : f.Good) (c : Pick × Int) : (f.outcome c).2 = (f.outcome c).1 := by
  obtain ⟨optNot, kind⟩ := f
  cases kind with
  | compare comparison text =>
    show cmp_op (if optNot then _ else _) c.1.num = (cmp_op comparison.code c.1.num ^^ optNot)
    cases optNot with
    | false => simp
    | true =>
      rw [if_pos rfl, Bool.xor_true]
      exact cmp_op_negateCode (h rfl) _
  | between isNot => exact absurd h id
  | isNull isNot => exact absurd hnull (by simp [noNull])

end CondForm

/-! ## Other forms go wrong -/

/-- A link as it is stored. -/
def storedLink (e : Link × CondForm) : Link := if e.2.optNot then e.1.other else e.1

/-- The tests when something has been picked for each predicate. -/
def pickedTests (g : List ((Link × CondForm) × (Pick × Int))) : List (Link × Bool) :=
  g.map fun e => (storedLink e.1, (e.1.2.outcome e.2).2)

def pickedTruths (g : List ((Link × CondForm) × (Pick × Int))) : List (Link × Bool) :=
  g.map fun e => (e.1.1, (e.1.2.outcome e.2).1)

/-- Something can be picked such that the result is not the truth. -/
def Wrong (first : CondForm) (rest : List (Link × CondForm)) : Prop :=
  ∃ c g, g.map Prod.fst = rest ∧
    leftToRight (first.outcome c).2 (pickedTests g) ≠ tightAnd (first.outcome c).1 (pickedTruths g)

/-- All predicates can be true, and all can be false. -/
theorem exists_all {rest : List (Link × CondForm)} (hnull : ∀ e ∈ rest, e.2.noNull = true)
    (b : Bool) : ∃ g, g.map Prod.fst = rest ∧ ∀ e ∈ pickedTruths g, e.2 = b := by
  induction rest with
  | nil => exact ⟨[], rfl, fun e he => absurd he List.not_mem_nil⟩
  | cons e rest ih =>
    obtain ⟨he, hnull⟩ := List.forall_mem_cons.mp hnull
    obtain ⟨g, hg, hall⟩ := ih hnull
    obtain ⟨c, hc⟩ := CondForm.exists_truth he b
    exact ⟨(e, c) :: g, by rw [List.map_cons, hg], List.forall_mem_cons.mpr ⟨hc, hall⟩⟩

/-- For good forms nothing can be picked. -/
theorem pickedTests_of_good {g : List ((Link × CondForm) × (Pick × Int))}
    (hnull : ∀ e ∈ g.map Prod.fst, e.2.noNull = true)
    (h : ∀ e ∈ g.map Prod.fst, e.2.Good ∧ e.2.optNot = false) : pickedTests g = pickedTruths g := by
  refine List.map_congr_left fun e he => ?_
  have hmem := List.mem_map_of_mem (f := Prod.fst) he
  rw [CondForm.outcome_of_good (hnull _ hmem) (h _ hmem).1, storedLink, (h _ hmem).2]
  rfl

theorem pickedTests_concat (g : List ((Link × CondForm) × (Pick × Int)))
    (e : (Link × CondForm) × (Pick × Int)) :
    pickedTests (g ++ [e]) = pickedTests g ++ [(storedLink e.1, (e.1.2.outcome e.2).2)] := by
  simp [pickedTests]

theorem pickedTruths_concat (g : List ((Link × CondForm) × (Pick × Int)))
    (e : (Link × CondForm) × (Pick × Int)) :
    pickedTruths (g ++ [e]) = pickedTruths g ++ [(e.1.1, (e.1.2.outcome e.2).1)] := by
  simp [pickedTruths]

section Last

variable {first : CondForm} {rest : List (Link × CondForm)} {l : Link} {f : CondForm}

/-- What comes out wrong stays so when the last test is of no consequence. -/
theorem Wrong.concat (h : Wrong first rest) (hnull : f.noNull = true) (hnot : f.optNot = false) :
    Wrong first (rest ++ [(l, f)]) := by
  obtain ⟨c, g, hg, hne⟩ := h
  obtain ⟨c', hc'⟩ := f.exists_right hnull hnot (decide (l = .and))
  refine ⟨c, g ++ [((l, f), c')], by simp [hg], ?_⟩
  rw [pickedTests_concat, pickedTruths_concat, leftToRight_concat, tightAnd_concat, storedLink]
  rw [tightAnd_eq] at hne
  simp only [hc', hnot]
  cases l with
  | and => simpa [Link.join, advance] using hne
  | or => simpa [Link.join, advance] using hne

variable (hfirst : first.noNull = true) (hrest : ∀ e ∈ rest, e.2.noNull = true)
include hfirst hrest

/-- All that stands before can be true, and all can be false. -/
theorem exists_before (b : Bool) : ∃ c g, g.map Prod.fst = rest ∧ (first.outcome c).1 = b ∧
    ∀ e ∈ pickedTruths g, e.2 = b := by
  obtain ⟨c, hc⟩ := CondForm.exists_truth hfirst b
  obtain ⟨g, hg, hall⟩ := exists_all hrest b
  exact ⟨c, g, hg, hc, hall⟩

/-- A NOT further back turns the link round. -/
theorem wrong_of_not (hnull : f.noNull = true) (hnot : f.optNot = true) :
    Wrong first (rest ++ [(l, f)]) := by
  cases l with
  | and =>
    obtain ⟨c, g, hg, hc, hall⟩ := exists_before hfirst hrest false
    obtain ⟨c', hc'⟩ := f.exists_test hnull true
    refine ⟨c, g ++ [((.and, f), c')], by simp [hg], ?_⟩
    rw [pickedTests_concat, pickedTruths_concat, leftToRight_concat, tightAnd_concat, storedLink,
      hc, foldl_advance_false hall]
    simp [hc', hnot, Link.join, Link.other, advance]
  | or =>
    obtain ⟨c, g, hg, hc, hall⟩ := exists_before hfirst hrest true
    obtain ⟨c', hc'⟩ := f.exists_test hnull false
    refine ⟨c, g ++ [((.or, f), c')], by simp [hg], ?_⟩
    rw [pickedTests_concat, pickedTruths_concat, leftToRight_concat, tightAnd_concat, storedLink,
      hc, foldl_advance_true hall]
    simp [hc', hnot, Link.join, Link.other, advance]

/-- A test that is not right decides behind others that are. -/
theorem wrong_of_missed (hnull : f.noNull = true) (hnot : f.optNot = false) (hgood : ¬ f.Good)
    (hfirst' : first.Good) (hrest' : ∀ e ∈ rest, e.2.Good ∧ e.2.optNot = false) :
    Wrong first (rest ++ [(l, f)]) := by
  obtain ⟨c', hc'⟩ := f.exists_missed hnull hgood
  cases l with
  | and =>
    obtain ⟨c, g, hg, hc, hall⟩ := exists_before hfirst hrest true
    refine ⟨c, g ++ [((.and, f), c')], by simp [hg], ?_⟩
    rw [pickedTests_concat, pickedTruths_concat, leftToRight_concat, tightAnd_concat, storedLink,
      hc, foldl_advance_true hall]
    simp [hc', hnot, Link.join, advance]
  | or =>
    obtain ⟨c, g, hg, hc, hall⟩ := exists_before hfirst hrest false
    refine ⟨c, g ++ [((.or, f), c')], by simp [hg], ?_⟩
    rw [pickedTests_concat, pickedTruths_concat, leftToRight_concat, tightAnd_concat, storedLink,
      CondForm.outcome_of_good hfirst hfirst', hc,
      pickedTests_of_good (by rw [hg]; exact hrest) (by rw [hg]; exact hrest'),
      leftToRight_false hall, foldl_advance_false hall]
    simp [hc', hnot, Link.join, advance]

/-- AND behind an OR takes everything back. -/
theorem wrong_of_and (hnull : f.noNull = true) (hnot : f.optNot = false)
    (hor : ∃ e ∈ rest, e.1 = .or) : Wrong first (rest ++ [(.and, f)]) := by
  obtain ⟨c', hc'⟩ := f.exists_right hnull hnot false
  obtain ⟨c, g, hg, hc, hall⟩ := exists_before hfirst hrest true
  have hany : (pickedTruths g).any (fun e => e.1 = .or) = true := by
    obtain ⟨e, he, hlink⟩ := hor
    rw [← hg] at he
    obtain ⟨e', he', rfl⟩ := List.mem_map.mp he
    rw [List.any_eq_true]
    exact ⟨_, List.mem_map_of_mem he', by simpa using hlink⟩
  refine ⟨c, g ++ [((.and, f), c')], by simp [hg], ?_⟩
  rw [pickedTests_concat, pickedTruths_concat, leftToRight_concat, tightAnd_concat, storedLink,
    hc, foldl_advance_true hall, hany]
  simp [hc', hnot, Link.join, advance]

end Last

/-- Every other form, in which NULL is not asked for, has a clause that goes wrong. The
induction is on the clause from its end. -/
theorem wrong_of_not_good {first : CondForm} {rest : List (Link × CondForm)}
    (hfirst : first.noNull = true) (hrest : ∀ e ∈ rest, e.2.noNull = true)
    (h : ¬ Form.Good ⟨first, rest⟩) : Wrong first rest := by
  induction rest using List.reverseRecOn with
  | nil =>
    have hbad : ¬ first.Good := fun hgood =>
      h ⟨hgood, fun e he => absurd he List.not_mem_nil, List.Pairwise.nil⟩
    obtain ⟨c, hc⟩ := first.exists_missed hfirst hbad
    exact ⟨c, [], rfl, by rw [hc]; simp [pickedTests, pickedTruths, leftToRight, tightAnd_eq]⟩
  | append_singleton rest e ih =>
    obtain ⟨l, f⟩ := e
    obtain ⟨hbefore, hlast⟩ := List.forall_mem_append.mp hrest
    have hnull : f.noNull = true := hlast _ List.mem_cons_self
    cases hnot : f.optNot with
    | true => exact wrong_of_not hfirst hbefore hnull hnot
    | false =>
      by_cases hpart : Form.Good ⟨first, rest⟩
      · obtain ⟨hfirst', hrest', hlinks⟩ := hpart
        by_cases hgood : f.Good
        · -- then it is the links
          have hor : l = .and ∧ ∃ e ∈ rest, e.1 = .or := by
            by_contra hno
            refine h ⟨hfirst', ?_, ?_⟩
            · rw [List.forall_mem_append, List.forall_mem_singleton]
              exact ⟨hrest', hgood, hnot⟩
            · rw [List.map_append, AndsFirst, List.pairwise_append]
              refine ⟨hlinks, List.pairwise_singleton .., fun a ha b hb hand => ?_⟩
              rw [List.map_singleton, List.mem_singleton] at hb
              obtain ⟨e, he, rfl⟩ := List.mem_map.mp ha
              cases hlink : e.1 with
              | and => rfl
              | or => exact absurd ⟨hb.symm.trans hand, e, he, hlink⟩ hno
          obtain ⟨rfl, hor⟩ := hor
          exact wrong_of_and hfirst hbefore hnull hnot hor
        · exact wrong_of_missed hfirst hbefore hnull hnot hgood hfirst' hrest'
      · exact (ih hbefore hpart).concat hnull hnot

/-! ### A clause of a form -/

/-- The column of the `i`-th predicate. -/
def CondForm.column (i : Nat) (f : CondForm) : Column :=
  ⟨[], List.replicate i 97, match f.kind with
    | .compare _ true => .string
    | _ => .signed⟩

def CondForm.sample (i : Nat) (f : CondForm) : Cond :=
  ⟨f.optNot, match f.kind with
    | .compare comparison true => .compare (f.column i) comparison (.string [98])
    | .compare comparison false => .compare (f.column i) comparison (.number (.integer 0))
    | .between optNot => .between (f.column i) optNot (.integer (-1)) (.integer 1)
    | .isNull optNot => .isNull (f.column i) optNot⟩

def sampleRest : Nat → List (Link × CondForm) → List (Link × Cond)
  | _, [] => []
  | i, (l, f) :: rest => (l, f.sample i) :: sampleRest (i + 1) rest

def sampleColumns : Nat → List CondForm → List Column
  | _, [] => []
  | i, f :: fs => f.column i :: sampleColumns (i + 1) fs

def Pick.text : Pick → CStr
  | .below => [97]
  | .equal => [98]
  | .above => [99]
  | .far => [100]

/-- The column of the `i`-th predicate has what was picked for it. -/
def pickedValue (picks : Nat → Pick × Int) (col : Column) : Value :=
  match col.colSQLType with
  | .string => .text (picks col.colName.length).1.text
  | _ => .int (picks col.colName.length).1.num

theorem form_sample (i : Nat) (f : CondForm) : (f.sample i).form = f := by
  obtain ⟨optNot, kind⟩ := f
  cases kind with
  | compare comparison text => cases text <;> rfl
  | between isNot => rfl
  | isNull isNot => rfl

theorem form_sampleRest (i : Nat) (rest : List (Link × CondForm)) :
    (sampleRest i rest).map (fun e => (e.1, e.2.form)) = rest := by
  induction rest generalizing i with
  | nil => rfl
  | cons e rest ih =>
    rw [sampleRest, List.map_cons, ih, form_sample]

theorem sign_strcasecmp_text (p : Pick) : (strcasecmp p.text [98]).sign = p.num.sign := by
  cases p <;> rfl

section Sample

variable (picks : Nat → Pick × Int) (i : Nat) {f : CondForm} (hnull : f.noNull = true)
include hnull

/-- What the predicate makes of what was picked. -/
theorem sample_outcome :
    ((f.sample i).truth (pickedValue picks), (f.sample i).test (pickedValue picks) (picks i).2) =
      f.outcome (picks i) := by
  obtain ⟨optNot, kind⟩ := f
  cases kind with
  | compare comparison text =>
    cases text with
    | true =>
      have hpick : pickedValue picks (CondForm.column i ⟨optNot, .compare comparison true⟩) =
          .text (picks i).1.text := by simp [pickedValue, CondForm.column]
      have hop := cmp_op_congr (sign_strcasecmp_text (picks i).1)
      simp only [CondForm.sample, Cond.truth, Predicate.truth, Cond.test, Predicate.order, hpick,
        Value.compare, CondForm.outcome, ← cmp_op_code, hop]
      rfl
    | false =>
      have hpick : pickedValue picks (CondForm.column i ⟨optNot, .compare comparison false⟩) =
          .int (picks i).1.num := by simp [pickedValue, CondForm.column]
      simp only [CondForm.sample, Cond.truth, Predicate.truth, Cond.test, Predicate.order, hpick,
        Value.compare, Number.num, Number.den, CondForm.outcome, ← cmp_op_code, Int.sub_zero,
        Int.natCast_one, Int.mul_one]
      rfl
  | between isNot =>
    have hpick : pickedValue picks (CondForm.column i ⟨optNot, .between isNot⟩) =
        .int (picks i).1.num := by simp [pickedValue, CondForm.column]
    simp only [CondForm.sample, Cond.truth, Predicate.truth, Cond.test, Predicate.order, hpick,
      Value.compare, CondForm.outcome]
    obtain ⟨p, j⟩ := picks i
    cases p <;> cases isNot <;> cases optNot <;> rfl
  | isNull isNot => exact absurd hnull (by simp [CondForm.noNull])

end Sample

/-- The tests and the truths of the sample are the picked ones. -/
theorem sample_picked {picks : Nat → Pick × Int} {g : List ((Link × CondForm) × (Pick × Int))}
    {i : Nat} (hnull : ∀ e ∈ g.map Prod.fst, e.2.noNull = true)
    (hpicks : ∀ k c, (g.map Prod.snd)[k]? = some c → picks (i + k) = c) :
    tests (pickedValue picks) (fun i => (picks i).2) i (sampleRest i (g.map Prod.fst)) =
        pickedTests g ∧
      ((sampleRest i (g.map Prod.fst)).map fun e => (e.1, e.2.truth (pickedValue picks))) =
        pickedTruths g := by
  induction g generalizing i with
  | nil => exact ⟨rfl, rfl⟩
  | cons e g ih =>
    obtain ⟨⟨l, f⟩, c⟩ := e
    rw [List.map_cons, List.forall_mem_cons] at hnull
    have hi : picks i = c := hpicks 0 c rfl
    obtain ⟨htests, htruths⟩ := ih (i := i + 1) hnull.2 fun k c hk => by
      rw [Nat.add_assoc, Nat.add_comm 1 k]
      exact hpicks (k + 1) c hk
    have hout := sample_outcome picks i hnull.1
    rw [hi] at hout
    have htruth : (f.sample i).truth (pickedValue picks) = (f.outcome c).1 := congrArg Prod.fst hout
    have htest : (f.sample i).test (pickedValue picks) c.2 = (f.outcome c).2 := congrArg Prod.snd hout
    refine ⟨?_, ?_⟩
    · show (Cond.link _ l, Cond.test _ (picks i).2 _) :: tests _ _ _ _ = _
      rw [htests, hi, htest]
      rfl
    · show (l, Cond.truth _ _) :: List.map _ _ = _
      rw [htruths, htruth]
      rfl

/-- Columns of different predicates have names of different lengths. -/
theorem coleql_column {i k : Nat} (h : i ≠ k) (f f' : CondForm) :
    coleql (f.column i) (f'.column k) ≠ 0 := by
  have hzero : ∀ n, (0 : UInt8) ∉ List.replicate n (97 : UInt8) := by
    intro n hmem
    exact absurd (List.eq_of_mem_replicate hmem) (by decide)
  have hname : strcasecmp (f.column i).colName (f'.column k).colName ≠ 0 := by
    intro heq
    have heq := (strcasecmp_eq_zero_iff (hzero i) (hzero k)).mp heq
    have hlen := congrArg List.length heq
    simp only [fold, List.length_map, List.length_replicate] at hlen
    exact h hlen
  rw [coleql, if_neg fun heq => hname heq.1]
  decide

theorem mem_sampleColumns {i : Nat} {fs : List CondForm} {col : Column}
    (h : col ∈ sampleColumns i fs) : ∃ k, ∃ f : CondForm, i ≤ k ∧ col = f.column k := by
  induction fs generalizing i with
  | nil => exact absurd h List.not_mem_nil
  | cons f fs ih =>
    rcases List.mem_cons.mp h with rfl | h
    · exact ⟨i, f, Nat.le_refl i, rfl⟩
    · obtain ⟨k, f', hk, rfl⟩ := ih h
      exact ⟨k, f', by omega, rfl⟩

theorem table_sampleColumns (i : Nat) (fs : List CondForm) : Table (sampleColumns i fs) := by
  induction fs generalizing i with
  | nil => exact List.Pairwise.nil
  | cons f fs ih =>
    refine List.pairwise_cons.mpr ⟨fun col hcol => ?_, ih (i + 1)⟩
    obtain ⟨k, f', hk, rfl⟩ := mem_sampleColumns hcol
    exact coleql_column (by omega) f f'

theorem fine_sample {pi : List Column} {i : Nat} {f : CondForm} (h : f.column i ∈ pi) :
    (f.sample i).predicate.Fine pi := by
  obtain ⟨optNot, kind⟩ := f
  cases kind with
  | compare comparison text =>
    cases text with
    | true => exact ⟨h, rfl, by decide⟩
    | false => exact ⟨h, 0, by decide, by decide, by decide⟩
  | between isNot =>
    exact ⟨h, by simp [CondForm.column], ⟨-1, by decide, by decide, by decide⟩, 1, by decide,
      by decide, by decide⟩
  | isNull isNot => exact h

theorem fine_sampleRest {pi : List Column} {i : Nat} {rest : List (Link × CondForm)}
    (h : ∀ col ∈ sampleColumns i (rest.map Prod.snd), col ∈ pi) :
    ∀ cond ∈ (sampleRest i rest).map Prod.snd, cond.predicate.Fine pi := by
  induction rest generalizing i with
  | nil => exact fun _ hcond => absurd hcond List.not_mem_nil
  | cons e rest ih =>
    rw [List.map_cons, sampleColumns, List.forall_mem_cons] at h
    rw [sampleRest, List.map_cons, List.forall_mem_cons]
    exact ⟨fine_sample h.1, ih h.2⟩

theorem legal_pickedValue (picks : Nat → Pick × Int) (i : Nat) (f : CondForm) :
    Legal (f.column i) (pickedValue picks (f.column i)) := by
  have htype : (f.column i).colSQLType = .string ∨ (f.column i).colSQLType = .signed := by
    unfold CondForm.column
    dsimp only
    split
    · exact Or.inl rfl
    · exact Or.inr rfl
  rcases htype with htype | htype
  · simp only [pickedValue, htype, Legal, true_and]
    cases (picks (f.column i).colName.length).1 <;> decide
  · simp only [pickedValue, htype, Legal]
    cases (picks (f.column i).colName.length).1 <;> decide

/-- What is picked is what a clause of this form does over a table of its own. -/
theorem exists_sample (first : CondForm) (c : Pick × Int)
    (g : List ((Link × CondForm) × (Pick × Int))) (hfirst : first.noNull = true)
    (hrest : ∀ e ∈ g.map Prod.fst, e.2.noNull = true) :
    ∃ (pi : List Column) (clause : Clause) (v : Column → Value) (junk : Nat → Int),
      clause.form = ⟨first, g.map Prod.fst⟩ ∧ Table pi ∧ clause.Fine pi ∧
      (∀ col ∈ pi, Legal col (v col)) ∧
      clause.truth v = tightAnd (first.outcome c).1 (pickedTruths g) ∧
      leftToRight (clause.first.test v (junk 0)) (tests v junk 1 clause.rest) =
        leftToRight (first.outcome c).2 (pickedTests g) := by
  obtain ⟨picks, hzero, hpicks⟩ : ∃ picks : Nat → Pick × Int, picks 0 = c ∧
      ∀ k c, (g.map Prod.snd)[k]? = some c → picks (1 + k) = c := by
    refine ⟨fun i => (c :: g.map Prod.snd)[i]?.getD c, rfl, fun k c' hk => ?_⟩
    dsimp only
    rw [Nat.add_comm, List.getElem?_cons_succ, hk]
    rfl
  obtain ⟨htests, htruths⟩ := sample_picked hrest hpicks
  have hout := sample_outcome picks 0 hfirst
  rw [hzero] at hout
  have htruth : (first.sample 0).truth (pickedValue picks) = (first.outcome c).1 :=
    congrArg Prod.fst hout
  have htest : (first.sample 0).test (pickedValue picks) c.2 = (first.outcome c).2 :=
    congrArg Prod.snd hout
  refine ⟨sampleColumns 0 (first :: (g.map Prod.fst).map Prod.snd),
    ⟨first.sample 0, sampleRest 1 (g.map Prod.fst)⟩, pickedValue picks, fun i => (picks i).2,
    ?_, table_sampleColumns .., ?_, fun col hcol => ?_, ?_, ?_⟩
  · rw [Clause.form, form_sample, form_sampleRest]
  · exact List.forall_mem_cons.mpr ⟨fine_sample List.mem_cons_self,
      fine_sampleRest fun col hcol => List.mem_cons_of_mem _ hcol⟩
  · obtain ⟨k, f, -, rfl⟩ := mem_sampleColumns hcol
    exact legal_pickedValue picks k f
  · rw [Clause.truth, htruths, htruth]
  · show leftToRight (Cond.test _ (picks 0).2 _) _ = _
    rw [htests, hzero, htest]

/-- A form that is tested right has no clause that goes wrong, and its conditions are built. -/
theorem Right.not_wrong {ofNull : Bool} {f : Form} (h : Right ofNull f) (hnull : f.noNull = true) :
    ¬ Wrong f.first f.rest ∧ ∃ clause : Clause, clause.form = f ∧
      clause.conds.all (·.builds ofNull) = true := by
  obtain ⟨hfirst, hrest⟩ : f.first.noNull = true ∧ ∀ e ∈ f.rest, e.2.noNull = true := by
    simpa [Form.noNull, Bool.and_eq_true, List.all_eq_true] using hnull
  have hsample : ∀ c g, g.map Prod.fst = f.rest →
      leftToRight (f.first.outcome c).2 (pickedTests g) =
          tightAnd (f.first.outcome c).1 (pickedTruths g) ∧
        ∃ clause : Clause, clause.form = f ∧ clause.conds.all (·.builds ofNull) = true := by
    intro c g hg
    obtain ⟨pi, clause, v, junk, hform, hpi, hfine, hv, htruth, htests⟩ :=
      exists_sample f.first c g hfirst (by rw [hg]; exact hrest)
    have hform : clause.form = f := by rw [hform, hg]
    obtain ⟨whereList, hlist, htest⟩ := h pi clause v junk hform hpi hfine hv
    rw [searchCondition_eq ofNull hfine] at hlist
    cases hbuild : clause.conds.all (·.builds ofNull) with
    | false =>
      rw [hbuild, if_neg (by simp)] at hlist
      exact absurd hlist (by simp)
    | true =>
      rw [hbuild, if_pos rfl, Option.some.injEq] at hlist
      rw [← hlist, testSigma_eq hpi hv junk hfine, htests, htruth, Option.some.injEq] at htest
      exact ⟨htest, clause, hform, hbuild⟩
  refine ⟨fun ⟨c, g, hg, hne⟩ => hne (hsample c g hg).1, ?_⟩
  obtain ⟨g, hg, -⟩ := exists_all hrest true
  exact (hsample (.equal, 0) g hg).2

end Sfcb.Sql
