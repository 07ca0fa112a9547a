import Mathlib.Algebra.Order.Ring.Abs
import Mathlib.Data.Int.Order.Basic
import Mathlib.Tactic.Linarith
import Mathlib.Tactic.NormNum
import Mathlib.Tactic.Ring

/-!
# Primitives of the integer types

The functions that the prelude exports for the arithmetic of the primitive integer
types, on the machine integers of the host, and when they are exact.
-/

namespace RexLang

/-! ## Machine integers -/

inductive IntType where
  | u8 | u16 | u32 | u64 | i8 | i16 | i32 | i64
deriving DecidableEq

namespace IntType

/-- `stringify!($ty)`. -/
def name : IntType → String
  | u8 => "u8"
  | u16 => "u16"
  | u32 => "u32"
  | u64 => "u64"
  | i8 => "i8"
  | i16 => "i16"
  | i32 => "i32"
  | i64 => "i64"

def bits : IntType → Nat
  | u8 | i8 => 8
  | u16 | i16 => 16
  | u32 | i32 => 32
  | u64 | i64 => 64

def isSigned : IntType → Bool
  | u8 | u16 | u32 | u64 => false
  | i8 | i16 | i32 | i64 => true

/-- `MIN`. -/
def min (typ : IntType) : Int :=
  if typ.isSigned then -2 ^ (typ.bits - 1) else 0

/-- `MAX`. -/
def max (typ : IntType) : Int :=
  if typ.isSigned then 2 ^ (typ.bits - 1) - 1 else 2 ^ typ.bits - 1

/-- The integer is a value of the type. -/
def Holds (typ : IntType) (value : Int) : Prop :=
  typ.min ≤ value ∧ value ≤ typ.max

instance (typ : IntType) (value : Int) : Decidable (typ.Holds value) :=
  inferInstanceAs (Decidable (_ ∧ _))

abbrev Value (typ : IntType) :=
  { value : Int // typ.Holds value }

/-- What a checked operation makes of the exact result. -/
def ofInt (typ : IntType) (value : Int) : Option typ.Value :=
  if holds : typ.Holds value then some ⟨value, holds⟩ else none

theorem holds_wrap (typ : IntType) (value : Int) :
    typ.Holds (typ.min + (value - typ.min) % 2 ^ typ.bits) := by
  have positive : (0 : Int) < 2 ^ typ.bits := by positivity
  have lower := Int.emod_nonneg (value - typ.min) positive.ne'
  have upper := Int.emod_lt_of_pos (value - typ.min) positive
  have range : typ.max - typ.min = 2 ^ typ.bits - 1 := by cases typ <;> decide
  exact ⟨by omega, by omega⟩

/-- `as` from another integer type, and the result of an operation that wraps. -/
def wrap (typ : IntType) (value : Int) : typ.Value :=
  ⟨typ.min + (value - typ.min) % 2 ^ typ.bits, typ.holds_wrap value⟩

/-- `checked_div`. -/
def checkedDiv (typ : IntType) (first second : typ.Value) : Option typ.Value :=
  if second.val = 0 then none else typ.ofInt (first.val.tdiv second.val)

/-- `checked_rem`: there is none where the quotient overflows. -/
def checkedRem (typ : IntType) (first second : typ.Value) : Option typ.Value :=
  (typ.checkedDiv first second).bind fun _ => typ.ofInt (first.val.tmod second.val)

end IntType

/-! ## Results -/

/-- What a primitive does: it returns a value or an evaluation error, or panics. -/
inductive PrimResult (Value : Type) where
  | value (value : Value)
  | error (message : String)
  | panic

namespace PrimResult

/-- An unchecked operation that overflows panics with overflow checks, and wraps without. -/
def unchecked {Value : Type} (overflowChecks : Bool) (exact : Option Value) (wrapped : Value) :
    PrimResult Value :=
  match exact with
  | some result => .value result
  | none => if overflowChecks then .panic else .value wrapped

end PrimResult

def integerOverflow (typ : String) : String :=
  "integer overflow (" ++ typ ++ ")"

def integerUnderflow (typ : String) : String :=
  "integer underflow (" ++ typ ++ ")"

section Primitives

variable (overflowChecks : Bool)

/-- An exact result of `i128` arithmetic. -/
def wideInt (value : Int) : PrimResult Int :=
  .unchecked overflowChecks (if -2 ^ 127 ≤ value ∧ value < 2 ^ 127 then some value else none)
    (-2 ^ 127 + (value + 2 ^ 127) % 2 ^ 128)

/-- `checked_integer_error`; the assertion is checked where overflows are. -/
def checkedIntegerError {Value : Type} (value min max : Int) (typ : String) : PrimResult Value :=
  if value < min then .error (integerUnderflow typ)
  else if overflowChecks ∧ ¬value > max then .panic
  else .error (integerOverflow typ)

/-- `export_checked_unsigned_*!` and `export_checked_signed_*!`, by the exact result and the
error of the unsigned types. -/
def checkedPrimitive (typ : IntType) (exact : Int) (unsignedError : String → String) :
    PrimResult typ.Value :=
  match typ.ofInt exact with
  | some result => .value result
  | none =>
      if typ.isSigned then
        match wideInt overflowChecks exact with
        | .value wide => checkedIntegerError overflowChecks wide typ.min typ.max typ.name
        | .error message => .error message
        | .panic => .panic
      else .error (unsignedError typ.name)

def primAdd (typ : IntType) (first second : typ.Value) : PrimResult typ.Value :=
  checkedPrimitive overflowChecks typ (first.val + second.val) integerOverflow

def primSub (typ : IntType) (first second : typ.Value) : PrimResult typ.Value :=
  checkedPrimitive overflowChecks typ (first.val - second.val) integerUnderflow

def primMul (typ : IntType) (first second : typ.Value) : PrimResult typ.Value :=
  checkedPrimitive overflowChecks typ (first.val * second.val) integerOverflow

def primDiv (typ : IntType) (first second : typ.Value) : PrimResult typ.Value :=
  match typ.checkedDiv first second with
  | some result => .value result
  | none => .error (integerOverflow typ.name)

def primMod (typ : IntType) (first second : typ.Value) : PrimResult typ.Value :=
  match typ.checkedRem first second with
  | some result => .value result
  | none => .error (integerOverflow typ.name)

/-- `-a`, which is not checked. -/
def primNegate (typ : IntType) (operand : typ.Value) : PrimResult typ.Value :=
  .unchecked overflowChecks (typ.ofInt (-operand.val)) (typ.wrap (-operand.val))

/-- `x as $dst`. -/
def primWidenInt (source target : IntType) (operand : source.Value) : PrimResult target.Value :=
  .value (target.wrap operand.val)

end Primitives

/-- The pairs of types of `export_int_widen!`. -/
def intWidenings : List (IntType × IntType) :=
  [(.i8, .i16), (.i8, .i32), (.i8, .i64), (.i16, .i32), (.i16, .i64), (.i32, .i64),
    (.u8, .u16), (.u8, .u32), (.u8, .u64), (.u8, .i16), (.u8, .i32), (.u8, .i64),
    (.u16, .u32), (.u16, .u64), (.u16, .i32), (.u16, .i64), (.u32, .u64), (.u32, .i64)]

/-! ## Calls -/

/-- A primitive that `inject_numeric_ops` exports for integer types, with its operands. -/
inductive PrimitiveCall where
  | add (typ : IntType) (first second : typ.Value)
  | sub (typ : IntType) (first second : typ.Value)
  | mul (typ : IntType) (first second : typ.Value)
  | div (typ : IntType) (first second : typ.Value)
  | mod (typ : IntType) (first second : typ.Value)
  | negate (typ : IntType) (signed : typ.isSigned) (operand : typ.Value)
  | widen (source target : IntType) (exported : (source, target) ∈ intWidenings)
      (operand : source.Value)

namespace PrimitiveCall

def resultType : PrimitiveCall → IntType
  | add typ _ _ | sub typ _ _ | mul typ _ _ | div typ _ _ | mod typ _ _ | negate typ _ _ => typ
  | widen _ target _ _ => target

def run (overflowChecks : Bool) : (call : PrimitiveCall) → PrimResult call.resultType.Value
  | add typ first second => primAdd overflowChecks typ first second
  | sub typ first second => primSub overflowChecks typ first second
  | mul typ first second => primMul overflowChecks typ first second
  | div typ first second => primDiv typ first second
  | mod typ first second => primMod typ first second
  | negate typ _ operand => primNegate overflowChecks typ operand
  | widen source target _ operand => primWidenInt source target operand

end PrimitiveCall

/-- The quotient truncated toward zero, and the remainder that goes with it. -/
structure TruncatedDivision (dividend divisor quotient remainder : Int) : Prop where
  divides : dividend = quotient * divisor + remainder
  small : remainder.natAbs < divisor.natAbs
  sameSign : 0 ≤ remainder * dividend

theorem truncatedDivision_iff {dividend divisor quotient remainder : Int} :
    TruncatedDivision dividend divisor quotient remainder ↔
      divisor ≠ 0 ∧ dividend.tdiv divisor = quotient ∧ dividend.tmod divisor = remainder := by
  constructor
  · rintro ⟨divides, small, sameSign⟩
    have nonzero : divisor ≠ 0 := by
      rintro rfl
      simp at small
    refine ⟨nonzero, ?_⟩
    rcases lt_trichotomy dividend 0 with negative | rfl | positive
    · have atMost : remainder ≤ 0 := nonpos_of_mul_nonneg_left sameSign negative
      refine (Int.tdiv_tmod_unique' negative.le nonzero).mpr ⟨?_, by omega, atMost⟩
      rw [divides]
      ring
    · -- A multiple of the divisor below it is zero.
      have multiple : divisor ∣ remainder := ⟨-quotient, by linarith⟩
      have none : remainder = 0 := Int.eq_zero_of_dvd_of_natAbs_lt_natAbs multiple small
      subst none
      have zero : quotient = 0 := by
        rcases mul_eq_zero.mp (by linarith : quotient * divisor = 0) with zero | zero
        · exact zero
        · exact absurd zero nonzero
      simp [zero]
    · have atLeast : 0 ≤ remainder := nonneg_of_mul_nonneg_left sameSign positive
      refine (Int.tdiv_tmod_unique positive.le nonzero).mpr ⟨?_, atLeast, by omega⟩
      rw [divides]
      ring
  · rintro ⟨nonzero, rfl, rfl⟩
    refine ⟨(Int.tdiv_mul_add_tmod dividend divisor).symm, ?_, ?_⟩
    · rw [Int.natAbs_tmod]
      exact Nat.mod_lt _ (Int.natAbs_pos.mpr nonzero)
    · rcases le_total 0 dividend with positive | negative
      · exact mul_nonneg (Int.tmod_nonneg divisor positive) positive
      · have opposite := Int.tmod_nonneg divisor (neg_nonneg.mpr negative)
        rw [Int.neg_tmod] at opposite
        exact mul_nonneg_of_nonpos_of_nonpos (by linarith) negative

namespace PrimitiveCall

/-- The exact mathematical result; a remainder goes with a quotient that the type has. -/
def IsExact : PrimitiveCall → Int → Prop
  | add _ first second, result => result = first.val + second.val
  | sub _ first second, result => result = first.val - second.val
  | mul _ first second, result => result = first.val * second.val
  | div _ first second, result =>
      ∃ remainder, TruncatedDivision first.val second.val result remainder
  | mod typ first second, result =>
      ∃ quotient, TruncatedDivision first.val second.val quotient result ∧ typ.Holds quotient
  | negate _ _ operand, result => result = -operand.val
  | widen _ _ _ operand, result => result = operand.val

/-- The call returns the exact result where the type has it, and else an evaluation error. -/
def IsCorrect (overflowChecks : Bool) (call : PrimitiveCall) : Prop :=
  match call.run overflowChecks with
  | .value result => call.IsExact result.val
  | .error _ => ¬∃ result, call.IsExact result ∧ call.resultType.Holds result
  | .panic => False

/-- The negation of the most negative value. -/
def NegatesMin : PrimitiveCall → Prop
  | negate typ _ operand => operand.val = typ.min
  | _ => False

end PrimitiveCall

/-! ## Exactness -/

section Exact

variable {typ : IntType} {overflowChecks : Bool}

namespace IntType

theorem ofInt_of_holds {value : Int} (holds : typ.Holds value) :
    typ.ofInt value = some ⟨value, holds⟩ :=
  dif_pos holds

theorem ofInt_of_not_holds {value : Int} (outside : ¬typ.Holds value) : typ.ofInt value = none :=
  dif_neg outside

theorem wrap_of_holds {value : Int} (holds : typ.Holds value) : (typ.wrap value).val = value := by
  have range : typ.max - typ.min = 2 ^ typ.bits - 1 := by cases typ <;> decide
  have inside : 0 ≤ value - typ.min ∧ value - typ.min < 2 ^ typ.bits :=
    ⟨by linarith [holds.1], by linarith [holds.2]⟩
  change typ.min + (value - typ.min) % 2 ^ typ.bits = value
  rw [Int.emod_eq_of_lt inside.1 inside.2]
  ring

/-- Values of signed types are small enough for exact `i128` arithmetic. -/
theorem abs_le_of_signed (signed : typ.isSigned) (value : typ.Value) : |value.val| ≤ 2 ^ 63 := by
  have bounds : -2 ^ 63 ≤ typ.min ∧ typ.max ≤ 2 ^ 63 := by
    revert signed
    cases typ <;> decide
  exact abs_le.mpr ⟨bounds.1.trans value.2.1, value.2.2.trans bounds.2⟩

/-- Only the negation of the most negative value is outside a signed type. -/
theorem holds_neg_iff (signed : typ.isSigned) (value : typ.Value) :
    typ.Holds (-value.val) ↔ value.val ≠ typ.min := by
  have range : typ.max = -typ.min - 1 := by
    revert signed
    cases typ <;> decide
  have holds := value.2
  rw [Holds] at holds ⊢
  constructor
  · intro inside least
    omega
  · intro notLeast
    omega

end IntType

/-- A checked primitive returns the exact result where the type has it, and else an error. -/
theorem checkedPrimitive_cases {exact : Int} {unsignedError : String → String}
    (wide : typ.isSigned → |exact| < 2 ^ 127) :
    (∃ holds : typ.Holds exact,
      checkedPrimitive overflowChecks typ exact unsignedError = .value ⟨exact, holds⟩) ∨
    ¬typ.Holds exact ∧ ∃ message,
      checkedPrimitive overflowChecks typ exact unsignedError = .error message := by
  by_cases holds : typ.Holds exact
  · refine .inl ⟨holds, ?_⟩
    rw [checkedPrimitive, IntType.ofInt_of_holds holds]
  · refine .inr ⟨holds, ?_⟩
    rw [checkedPrimitive, IntType.ofInt_of_not_holds holds]
    by_cases signed : typ.isSigned
    · have fits := abs_lt.mp (wide signed)
      have exactWide : wideInt overflowChecks exact = .value exact := by
        rw [wideInt, if_pos ⟨fits.1.le, fits.2⟩]
        rfl
      simp only [signed, if_true, exactWide, checkedIntegerError]
      by_cases below : exact < typ.min
      · exact ⟨_, if_pos below⟩
      · -- What is outside and not below is above, so the assertion holds.
        have above : exact > typ.max := not_le.mp fun notAbove => holds ⟨not_lt.mp below, notAbove⟩
        rw [if_neg below, if_neg fun failed => failed.2 above]
        exact ⟨_, rfl⟩
    · simp only [signed, Bool.false_eq_true, if_false]
      exact ⟨_, rfl⟩

/-- The exact results of the operations on a signed type are far inside `i128`. -/
theorem abs_lt_wide {first second : typ.Value} (signed : typ.isSigned) :
    |first.val + second.val| < 2 ^ 127 ∧ |first.val - second.val| < 2 ^ 127 ∧
      |first.val * second.val| < 2 ^ 127 := by
  have onFirst := typ.abs_le_of_signed signed first
  have onSecond := typ.abs_le_of_signed signed second
  refine ⟨?_, ?_, ?_⟩
  · exact ((abs_add_le _ _).trans (add_le_add onFirst onSecond)).trans_lt (by norm_num)
  · exact ((abs_sub _ _).trans (add_le_add onFirst onSecond)).trans_lt (by norm_num)
  · rw [abs_mul]
    exact (mul_le_mul onFirst onSecond (abs_nonneg _) (by norm_num)).trans_lt (by norm_num)

theorem IntType.checkedDiv_cases (first second : typ.Value) :
    (∃ holds : typ.Holds (first.val.tdiv second.val), second.val ≠ 0 ∧
      typ.checkedDiv first second = some ⟨_, holds⟩) ∨
    ¬(second.val ≠ 0 ∧ typ.Holds (first.val.tdiv second.val)) ∧
      typ.checkedDiv first second = none := by
  rw [checkedDiv]
  by_cases zero : second.val = 0
  · exact .inr ⟨fun both => both.1 zero, if_pos zero⟩
  · rw [if_neg zero]
    by_cases holds : typ.Holds (first.val.tdiv second.val)
    · exact .inl ⟨holds, zero, ofInt_of_holds holds⟩
    · exact .inr ⟨fun both => holds both.2, ofInt_of_not_holds holds⟩

/-- The type has every remainder of its values. -/
theorem IntType.holds_tmod (first second : typ.Value) (nonzero : second.val ≠ 0) :
    typ.Holds (first.val.tmod second.val) := by
  have ofZero : typ.min ≤ 0 ∧ 0 ≤ typ.max := by cases typ <;> decide
  have size : (first.val.tmod second.val).natAbs ≤ first.val.natAbs := by
    rw [Int.natAbs_tmod]
    exact Nat.mod_le _ _
  have holds := first.2
  rw [Holds] at holds ⊢
  rcases le_total 0 first.val with positive | negative
  · have := Int.tmod_nonneg second.val positive
    omega
  · have opposite := Int.tmod_nonneg second.val (neg_nonneg.mpr negative)
    rw [Int.neg_tmod] at opposite
    omega

end Exact

namespace PrimitiveCall

section Correct

variable {overflowChecks : Bool} {call : PrimitiveCall}

theorem isCorrect_of_value (result : call.resultType.Value)
    (returned : call.run overflowChecks = .value result) (exact : call.IsExact result.val) :
    call.IsCorrect overflowChecks := by
  rw [IsCorrect, returned]
  exact exact

theorem isCorrect_of_error (message : String)
    (refused : call.run overflowChecks = .error message)
    (outside : ∀ result, call.IsExact result → ¬call.resultType.Holds result) :
    call.IsCorrect overflowChecks := by
  rw [IsCorrect, refused]
  exact fun ⟨result, exact, holds⟩ => outside result exact holds

/-- The primitives that are checked against one exact result. -/
theorem isCorrect_checked {exact : Int} {unsignedError : String → String}
    (runs : call.run overflowChecks =
      checkedPrimitive overflowChecks call.resultType exact unsignedError)
    (wide : call.resultType.isSigned → |exact| < 2 ^ 127)
    (isExact : ∀ result, call.IsExact result ↔ result = exact) :
    call.IsCorrect overflowChecks := by
  rcases checkedPrimitive_cases wide with ⟨holds, returned⟩ | ⟨outside, message, refused⟩
  · exact isCorrect_of_value _ (runs.trans returned) ((isExact _).mpr rfl)
  · refine isCorrect_of_error message (runs.trans refused) fun result isResult => ?_
    rw [(isExact result).mp isResult]
    exact outside

theorem isCorrect_div (typ : IntType) (first second : typ.Value) :
    (div typ first second).IsCorrect overflowChecks := by
  rcases typ.checkedDiv_cases first second with ⟨holds, nonzero, found⟩ | ⟨outside, missing⟩
  · refine isCorrect_of_value ⟨_, holds⟩ ?_
      ⟨_, truncatedDivision_iff.mpr ⟨nonzero, rfl, rfl⟩⟩
    simp only [run, primDiv, found]
    rfl
  · refine isCorrect_of_error (integerOverflow typ.name) ?_ ?_
    · simp only [run, primDiv, missing]
      rfl
    · rintro result ⟨remainder, division⟩ holds
      obtain ⟨nonzero, rfl, -⟩ := truncatedDivision_iff.mp division
      exact outside ⟨nonzero, holds⟩

theorem isCorrect_mod (typ : IntType) (first second : typ.Value) :
    (mod typ first second).IsCorrect overflowChecks := by
  rcases typ.checkedDiv_cases first second with ⟨holds, nonzero, found⟩ | ⟨outside, missing⟩
  · have inside := typ.holds_tmod first second nonzero
    refine isCorrect_of_value ⟨_, inside⟩ ?_
      ⟨_, truncatedDivision_iff.mpr ⟨nonzero, rfl, rfl⟩, holds⟩
    simp only [run, primMod, IntType.checkedRem, found, Option.bind_some,
      IntType.ofInt_of_holds inside]
    rfl
  · refine isCorrect_of_error (integerOverflow typ.name) ?_ ?_
    · simp only [run, primMod, IntType.checkedRem, missing, Option.bind_none]
      rfl
    · rintro result ⟨quotient, division, holds⟩ -
      obtain ⟨nonzero, rfl, -⟩ := truncatedDivision_iff.mp division
      exact outside ⟨nonzero, holds⟩

theorem isCorrect_negate_iff (typ : IntType) (signed : typ.isSigned) (operand : typ.Value) :
    (negate typ signed operand).IsCorrect overflowChecks ↔ operand.val ≠ typ.min := by
  rw [← typ.holds_neg_iff signed operand]
  by_cases holds : typ.Holds (-operand.val)
  · refine iff_of_true (isCorrect_of_value ⟨_, holds⟩ ?_ rfl) holds
    rw [run, primNegate, IntType.ofInt_of_holds holds, PrimResult.unchecked]
    rfl
  · refine iff_of_false ?_ holds
    rw [IsCorrect, run, primNegate, IntType.ofInt_of_not_holds holds, PrimResult.unchecked]
    cases overflowChecks with
    | true => exact not_false
    | false =>
        -- The wrapped value is in the type, and the exact one is not.
        intro exact
        have inside := (typ.wrap (-operand.val)).2
        rw [show (typ.wrap (-operand.val)).val = -operand.val from exact] at inside
        exact holds inside

theorem isCorrect_widen (source target : IntType) (exported : (source, target) ∈ intWidenings)
    (operand : source.Value) :
    (widen source target exported operand).IsCorrect overflowChecks := by
  have wider : target.min ≤ source.min ∧ source.max ≤ target.max := by
    revert exported
    cases source <;> cases target <;> decide
  have holds : target.Holds operand.val :=
    ⟨wider.1.trans operand.2.1, operand.2.2.trans wider.2⟩
  exact isCorrect_of_value (target.wrap operand.val) rfl (target.wrap_of_holds holds)

end Correct

/-- Integer arithmetic is exact or refused, except for the negation of the most negative
value. -/
theorem isCorrect_iff (overflowChecks : Bool) (call : PrimitiveCall) :
    call.IsCorrect overflowChecks ↔ ¬call.NegatesMin := by
  cases call with
  | add typ first second =>
      exact iff_of_true (isCorrect_checked rfl (fun signed => (abs_lt_wide signed).1)
        fun result => Iff.rfl) not_false
  | sub typ first second =>
      exact iff_of_true (isCorrect_checked rfl (fun signed => (abs_lt_wide signed).2.1)
        fun result => Iff.rfl) not_false
  | mul typ first second =>
      exact iff_of_true (isCorrect_checked rfl (fun signed => (abs_lt_wide signed).2.2)
        fun result => Iff.rfl) not_false
  | div typ first second => exact iff_of_true (isCorrect_div typ first second) not_false
  | mod typ first second => exact iff_of_true (isCorrect_mod typ first second) not_false
  | negate typ signed operand => exact isCorrect_negate_iff typ signed operand
  | widen source target exported operand =>
      exact iff_of_true (isCorrect_widen source target exported operand) not_false

/-- `-(-128)` in `i8` panics with overflow checks, and is `-128` without. -/
theorem not_isCorrect_negate_min :
    primNegate true .i8 ⟨-128, by decide⟩ = .panic ∧
      primNegate false .i8 ⟨-128, by decide⟩ = .value ⟨-128, by decide⟩ ∧
      ∀ overflowChecks, ¬(negate .i8 rfl ⟨-128, by decide⟩).IsCorrect overflowChecks :=
  ⟨rfl, rfl, fun _ => (isCorrect_negate_iff .i8 rfl _).not.mpr (not_not.mpr rfl)⟩

end PrimitiveCall

end RexLang
