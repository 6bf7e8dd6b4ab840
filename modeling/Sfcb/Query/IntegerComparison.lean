import Sfcb.Query.Parser

/-!
# Comparing integers

The comparison of an integer property with a literal, from the value that a provider's
instance holds (`queryGetValue`) to the predicates. The value is widened to 64 bits, the
literal taken from it, and the difference returned as an `int`, of which the predicates use
the sign. `predicates_iff` says for which numbers that sign is right.

Mirroring notes:
- The instance's `getProperty` is a parameter: an address and a name lead to the data or to
  an error. So are the address of a `CMPIString`'s characters and the conversion of a `float`
  to a `double`, which no integer goes through.
- `strtol` reads a literal, and saturates. The cases of `+0` and `-0` are read as `0`.
-/

namespace Sfcb.Query.IntegerComparison

open Sfcb.Lib

/-! ## What a provider's instance holds -/

/-- `CMPIData` without its state, which nothing here looks at. -/
structure CMPIData where
  type : BitVec 16
  value : CMPIValue
  deriving DecidableEq, Repr

def CMPI_boolean : BitVec 16 := 2
def CMPI_char16 : BitVec 16 := 3
def CMPI_real32 : BitVec 16 := 2 <<< 2
def CMPI_real64 : BitVec 16 := 3 <<< 2
def CMPI_UINT : BitVec 16 := 8 <<< 4
def CMPI_uint8 : BitVec 16 := 8 <<< 4
def CMPI_uint16 : BitVec 16 := 9 <<< 4
def CMPI_uint32 : BitVec 16 := 10 <<< 4
def CMPI_uint64 : BitVec 16 := 11 <<< 4
def CMPI_SINT : BitVec 16 := 12 <<< 4
def CMPI_sint8 : BitVec 16 := 12 <<< 4
def CMPI_sint16 : BitVec 16 := 13 <<< 4
def CMPI_sint32 : BitVec 16 := 14 <<< 4
def CMPI_sint64 : BitVec 16 := 15 <<< 4
def CMPI_instance : BitVec 16 := 16 <<< 8
def CMPI_string : BitVec 16 := 22 <<< 8

/-- What reading a value needs besides its bits. -/
structure Conversions where
  /-- `string->hdl` -/
  hdl : CMPIValue → CMPIValue
  /-- a `float` as a `double` -/
  real64 : BitVec 32 → CMPIValue

/-- `queryGetValue`, of what `getProperty` returns. -/
def queryGetValue (conv : Conversions) : Option CMPIData → CMPIValue × QLOpd
  | none => (0, .NotFound)
  | some d =>
    if d.type &&& CMPI_SINT = CMPI_SINT then
      (if d.type = CMPI_sint32 then (d.value.setWidth 32).signExtend 64
        else if d.type = CMPI_sint16 then (d.value.setWidth 16).signExtend 64
        else if d.type = CMPI_sint8 then (d.value.setWidth 8).signExtend 64
        else d.value, .Integer)
    else if d.type &&& CMPI_UINT ≠ 0 then
      (if d.type = CMPI_uint32 then (d.value.setWidth 32).setWidth 64
        else if d.type = CMPI_uint16 then (d.value.setWidth 16).setWidth 64
        else if d.type = CMPI_uint8 then (d.value.setWidth 8).setWidth 64
        else d.value, .UInteger)
    else if d.type = CMPI_string then (conv.hdl d.value, .Chars)
    else if d.type = CMPI_boolean then ((d.value.setWidth 8).setWidth 64, .Boolean)
    else if d.type = CMPI_real64 then (d.value, .Double)
    else if d.type = CMPI_real32 then (conv.real64 (d.value.setWidth 32), .Double)
    else if d.type = CMPI_char16 then ((d.value.setWidth 16).setWidth 64, .Char)
    else if d.type = CMPI_instance then (d.value, .Inst)
    else (0, .Invalid)

/-- The source of a query over a provider's instances. -/
def propertySource (conv : Conversions) (getProperty : CMPIValue → CStr → Option CMPIData)
    (inst : CMPIValue) (sns : CStr) : QLPropertySource :=
  ⟨inst, sns, fun data name => queryGetValue conv (getProperty data name)⟩

/-- The data that a property name leads to, through the instances named in front of it. -/
inductive LeadsTo (getProperty : CMPIValue → CStr → Option CMPIData) (d : CMPIData) :
    CMPIValue → List QLPropertyNameData → Prop where
  | here (inst : CMPIValue) (pd : QLPropertyNameData) (h : getProperty inst pd.propName = some d) :
    LeadsTo getProperty d inst [pd]
  | through (inst part : CMPIValue) (pd next : QLPropertyNameData) (pds : List QLPropertyNameData)
    (h : getProperty inst pd.propName = some ⟨CMPI_instance, part⟩)
    (hnext : LeadsTo getProperty d part (next :: pds)) :
    LeadsTo getProperty d inst (pd :: next :: pds)

/-! ## The integers -/

inductive IntType where
  | uint8 | uint16 | uint32 | uint64 | sint8 | sint16 | sint32 | sint64
  deriving DecidableEq, Repr

def IntType.code : IntType → BitVec 16
  | .uint8 => CMPI_uint8 | .uint16 => CMPI_uint16 | .uint32 => CMPI_uint32
  | .uint64 => CMPI_uint64 | .sint8 => CMPI_sint8 | .sint16 => CMPI_sint16
  | .sint32 => CMPI_sint32 | .sint64 => CMPI_sint64

/-- The number that the union holds as a member of the type. -/
def IntType.number (v : CMPIValue) : IntType → Int
  | .uint8 => (v.setWidth 8).toNat
  | .uint16 => (v.setWidth 16).toNat
  | .uint32 => (v.setWidth 32).toNat
  | .uint64 => v.toNat
  | .sint8 => (v.setWidth 8).toInt
  | .sint16 => (v.setWidth 16).toInt
  | .sint32 => (v.setWidth 32).toInt
  | .sint64 => v.toInt

/-- The operand type that says how it was widened. -/
def IntType.widened : IntType → QLOpd
  | .uint8 | .uint16 | .uint32 | .uint64 => .UInteger
  | .sint8 | .sint16 | .sint32 | .sint64 => .Integer

theorem IntType.widened_eq (ty : IntType) : ty.widened = .Integer ∨ ty.widened = .UInteger := by
  cases ty <;> simp [IntType.widened]

/-- The value of an integer property is the number, as 64 bits. -/
theorem queryGetValue_number (conv : Conversions) (ty : IntType) (v : CMPIValue) :
    queryGetValue conv (some ⟨ty.code, v⟩) = (BitVec.ofInt 64 (ty.number v), ty.widened) := by
  cases ty <;>
    simp [queryGetValue, IntType.code, IntType.number, IntType.widened, CMPI_UINT, CMPI_SINT,
      CMPI_uint8, CMPI_uint16, CMPI_uint32, CMPI_uint64, CMPI_sint8, CMPI_sint16, CMPI_sint32,
      CMPI_sint64, BitVec.signExtend, -BitVec.toNat_setWidth]

theorem queryGetValue_instance (conv : Conversions) (v : CMPIValue) :
    queryGetValue conv (some ⟨CMPI_instance, v⟩) = (v, .Inst) := by
  simp [queryGetValue, CMPI_instance, CMPI_UINT, CMPI_SINT, CMPI_boolean, CMPI_char16, CMPI_real32,
    CMPI_real64, CMPI_string]

theorem getPropValue_of_leadsTo {conv : Conversions}
    {getProperty : CMPIValue → CStr → Option CMPIData} {d : CMPIData} {inst : CMPIValue}
    {parts : List QLPropertyNameData} (rt : QLRuntime) (sns : CStr)
    (h : LeadsTo getProperty d inst parts) :
    getPropValue rt (propertySource conv getProperty inst sns) (.prop parts) =
      queryGetValue conv (some d) := by
  unfold getPropValue
  suffices hall : ∀ op data, LeadsTo getProperty d data parts →
      getPropParts rt (propertySource conv getProperty inst sns) op parts data =
        queryGetValue conv (some d) from hall _ _ h
  clear h
  intro op data hdata
  induction hdata with
  | here data pd h => exact congrArg (queryGetValue conv) h
  | through data part pd next pds h _ ih =>
    have hpart : (propertySource conv getProperty inst sns).getValue data pd.propName =
        (part, .Inst) :=
      (congrArg (queryGetValue conv) h).trans (queryGetValue_instance conv part)
    rw [getPropParts.eq_def]
    simp only [hpart, if_true]
    exact ih

/-- What `strtol` reads for the digits of a number. -/
def strtol (n : Int) : Int := max (-2 ^ 63) (min n (2 ^ 63 - 1))

/-- The operand of a literal. -/
def literalOperand (n : Int) : QLOperand := .int .Integer (BitVec.ofInt 64 (strtol n))

/-! ## The predicates -/

/-- The operators that say how two numbers are related. -/
def relational : List QLOp := [.LT, .GT, .LE, .GE, .EQ, .NE]

def relation (a b : Int) : QLOp → Bool
  | .LT => decide (a < b)
  | .GT => decide (a > b)
  | .LE => decide (a ≤ b)
  | .GE => decide (a ≥ b)
  | .EQ => decide (a = b)
  | .NE => decide (a ≠ b)
  | _ => false

/-- Two operands are compared as two numbers: by the sign, and by all predicates. -/
def ComparesAs (rt : QLRuntime) (src : QLPropertySource) (lhod rhod : QLOperand) (a b : Int) :
    Prop :=
  (compare rt src lhod rhod).sign = (a - b).sign ∧
  ∀ opr ∈ relational, ∀ invert,
    QLPredicate.evaluate rt src ⟨opr, lhod, some rhod, invert⟩ = (relation a b opr != invert)

/-- The low 32 bits of `e`, as an `int`, have the sign of `d`. -/
def KeepsSign (d e : Int) : Prop :=
  if d < 0 then 2 ^ 31 ≤ e % 2 ^ 32
  else if d = 0 then e % 2 ^ 32 = 0
  else 0 < e % 2 ^ 32 ∧ e % 2 ^ 32 < 2 ^ 31

instance (d e : Int) : Decidable (KeepsSign d e) := by
  unfold KeepsSign
  infer_instance

theorem sign_bmod_iff (d e : Int) : (e.bmod (2 ^ 32)).sign = d.sign ↔ KeepsSign d e := by
  unfold KeepsSign
  have hbmod : e.bmod (2 ^ 32) = e % 2 ^ 32 ∧ e % 2 ^ 32 < 2 ^ 31 ∨
      e.bmod (2 ^ 32) = e % 2 ^ 32 - 2 ^ 32 ∧ 2 ^ 31 ≤ e % 2 ^ 32 := by
    rw [Int.bmod_def]
    split <;> omega
  generalize e.bmod (2 ^ 32) = r at hbmod ⊢
  obtain hd | hd | hd := Int.lt_trichotomy d 0
  · rw [if_pos hd, Int.sign_eq_neg_one_of_neg hd, Int.sign_eq_neg_one_iff_neg]
    omega
  · rw [if_neg (by omega), if_pos hd, hd, Int.sign_zero, Int.sign_eq_zero_iff_zero]
    omega
  · rw [if_neg (by omega), if_neg (by omega), Int.sign_eq_one_of_pos hd, Int.sign_eq_one_iff_pos]
    omega

section Compare

variable {rt : QLRuntime} {src : QLPropertySource} {lhod rhod : QLOperand} {a b : Int}

/-- The predicates look at nothing but the sign. -/
theorem evaluate_of_sign (h : (compare rt src lhod rhod).sign = (a - b).sign) {opr : QLOp}
    (hopr : opr ∈ relational) (invert : Bool) :
    QLPredicate.evaluate rt src ⟨opr, lhod, some rhod, invert⟩ = (relation a b opr != invert) := by
  have hcmp : QLPredicate.cmp rt src ⟨opr, lhod, some rhod, invert⟩ = compare rt src lhod rhod :=
    rfl
  generalize compare rt src lhod rhod = c at h hcmp
  have hneg : c < 0 ↔ a < b := by
    rw [← Int.sign_eq_neg_one_iff_neg, h, Int.sign_eq_neg_one_iff_neg]
    omega
  have hzero : c = 0 ↔ a = b := by
    rw [← Int.sign_eq_zero_iff_zero, h, Int.sign_eq_zero_iff_zero, Int.sub_eq_zero]
  have hpos : 0 < c ↔ b < a := by
    rw [← Int.sign_eq_one_iff_pos, h, Int.sign_eq_one_iff_pos, Int.sub_pos]
  unfold QLPredicate.evaluate
  rw [hcmp]
  simp only [relational, List.mem_cons, List.not_mem_nil, or_false] at hopr
  obtain rfl | rfl | rfl | rfl | rfl | rfl := hopr <;> cases invert <;>
    simp only [relation, if_true, if_false, Bool.false_eq_true, Bool.bne_true, Bool.bne_false,
      ← decide_not, decide_eq_decide] <;>
    omega

/-- A 64-bit difference, as an `int`. -/
theorem toInt_narrowed (a b : Int) :
    ((BitVec.ofInt 64 a - BitVec.ofInt 64 b).setWidth 32).toInt = (a - b).bmod (2 ^ 32) := by
  rw [BitVec.toInt_setWidth, BitVec.toNat_sub, BitVec.toNat_ofInt, BitVec.toNat_ofInt,
    Int.bmod_def, Int.bmod_def]
  omega

theorem comparesAs_iff {e : Int} (h : compare rt src lhod rhod = e.bmod (2 ^ 32)) :
    ComparesAs rt src lhod rhod a b ↔ KeepsSign (a - b) e := by
  rw [← sign_bmod_iff, ← h]
  exact ⟨fun hall => hall.1, fun hsign => ⟨hsign, fun _ hopr => evaluate_of_sign hsign hopr⟩⟩

end Compare

section Predicates

variable {conv : Conversions} {getProperty : CMPIValue → CStr → Option CMPIData}
  {inst v : CMPIValue} {ty : IntType} {parts : List QLPropertyNameData}

theorem compare_property (rt : QLRuntime) (sns : CStr)
    (h : LeadsTo getProperty ⟨ty.code, v⟩ inst parts) (n : Int) :
    compare rt (propertySource conv getProperty inst sns) (.prop parts) (literalOperand n) =
      (ty.number v - strtol n).bmod (2 ^ 32) := by
  have hvalue := (getPropValue_of_leadsTo rt sns h).trans (queryGetValue_number conv ty v)
  rw [← toInt_narrowed]
  unfold compare propCompare
  obtain hwidened | hwidened := ty.widened_eq <;>
    simp only [hvalue, hwidened, propOperand, compareValue, intCompare, literalOperand, rightValue,
      QLOperand.type, QLOperand.union, reduceCtorEq, if_false, if_true, true_or]

theorem compare_literal (rt : QLRuntime) (sns : CStr)
    (h : LeadsTo getProperty ⟨ty.code, v⟩ inst parts) (n : Int) :
    compare rt (propertySource conv getProperty inst sns) (literalOperand n) (.prop parts) =
      (strtol n - ty.number v).bmod (2 ^ 32) := by
  have hvalue := (getPropValue_of_leadsTo rt sns h).trans (queryGetValue_number conv ty v)
  rw [← toInt_narrowed]
  unfold compare literalOperand compareValue intCompare rightValue
  simp only [QLOperand.type, if_true, hvalue, ty.widened_eq]

/-- An integer property and a literal are compared as the two numbers, in either order, exactly
where the low 32 bits of the 64-bit difference have the sign. -/
theorem predicates_iff (rt : QLRuntime) (sns : CStr)
    (h : LeadsTo getProperty ⟨ty.code, v⟩ inst parts) (n : Int) :
    (ComparesAs rt (propertySource conv getProperty inst sns) (.prop parts) (literalOperand n)
        (ty.number v) n ↔
      KeepsSign (ty.number v - n) (ty.number v - strtol n)) ∧
    (ComparesAs rt (propertySource conv getProperty inst sns) (literalOperand n) (.prop parts)
        n (ty.number v) ↔
      KeepsSign (n - ty.number v) (strtol n - ty.number v)) :=
  ⟨comparesAs_iff (compare_property rt sns h n), comparesAs_iff (compare_literal rt sns h n)⟩

end Predicates

/-- An instance in which every property is the integer `v`. -/
def integerInstance (ty : IntType) (v : CMPIValue) : QLPropertySource :=
  propertySource ⟨fun _ => 0, fun _ => 0⟩ (fun _ _ => some ⟨ty.code, v⟩) 0 []

/-- An `sint8` that is -5, compared with 7. -/
theorem predicates_iff_sint8 :
    ComparesAs bareRuntime (integerInstance .sint8 0xFB) propertyP.operand (literalOperand 7)
        (-5) 7 ∧
      ComparesAs bareRuntime (integerInstance .sint8 0xFB) (literalOperand 7) propertyP.operand
        7 (-5) := by
  have h := @predicates_iff ⟨fun _ => 0, fun _ => 0⟩ (fun _ _ => some ⟨IntType.sint8.code, 0xFB⟩)
    0 0xFB .sint8 [⟨none, lit "P", -1⟩] bareRuntime [] (.here 0 _ rfl) 7
  exact ⟨h.1.mpr (by decide), h.2.mpr (by decide)⟩

/-- An `sint64` that is 2^32 is found to be equal to 0, and to be less than 2^31. -/
theorem not_predicates :
    QLPredicate.evaluate bareRuntime (integerInstance .sint64 4294967296)
        ⟨.EQ, propertyP.operand, some (literalOperand 0), false⟩ = true ∧
      QLPredicate.evaluate bareRuntime (integerInstance .sint64 4294967296)
        ⟨.LT, propertyP.operand, some (literalOperand 2147483648), false⟩ = true := by
  decide

end Sfcb.Query.IntegerComparison
