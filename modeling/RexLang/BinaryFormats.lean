import Mathlib.Data.Nat.Size
import Mathlib.Tactic.Ring

/-!
# Binary floating-point formats

Magnitudes of binary floating-point numbers as bits, and rounding to the nearest
number of a format.  A finite number that is converted to a wider format and back
is the number itself.
-/

namespace RexLang

/-- A format of binary floating-point numbers. -/
structure BinaryFormat where
  /-- The number of bits of a significand. -/
  precision : Nat
  /-- The exponent of the last bit of the least numbers. -/
  minExponent : Int
  /-- The exponent field of infinity. -/
  maxField : Nat

/-- The nearest multiple of the divisor, of two the even one. -/
def roundHalfEven (value divisor : Nat) : Nat :=
  let quotient := value / divisor
  let rest := value % divisor
  if 2 * rest < divisor then quotient
  else if divisor < 2 * rest then quotient + 1
  else quotient + quotient % 2

theorem roundHalfEven_mul {divisor : Nat} (positive : 0 < divisor) (value : Nat) :
    roundHalfEven (value * divisor) divisor = value := by
  simp [roundHalfEven, positive]

namespace BinaryFormat

/-- The leading bit of the significands that have all their bits. -/
def hidden (format : BinaryFormat) : Nat :=
  2 ^ (format.precision - 1)

def infinity (format : BinaryFormat) : Nat :=
  format.maxField * format.hidden

/-- A magnitude is its significand times two to its exponent. -/
def significand (format : BinaryFormat) (bits : Nat) : Nat :=
  if bits < format.hidden then bits else bits % format.hidden + format.hidden

def exponent (format : BinaryFormat) (bits : Nat) : Int :=
  format.minExponent + (bits / format.hidden - 1 : Nat)

/-- The value in units of two to the shift. -/
def scale (value : Nat) (shift : Int) : Nat :=
  if 0 ≤ shift then roundHalfEven value (2 ^ shift.toNat) else value * 2 ^ (-shift).toNat

/-- The nearest magnitude to a value times two to an exponent. -/
def nearest (format : BinaryFormat) (value : Nat) (exponent : Int) : Nat :=
  if value = 0 then 0
  else
    let unit := max format.minExponent (exponent + value.size - format.precision)
    min (scale value (unit - exponent) + (unit - format.minExponent).toNat * format.hidden)
      format.infinity

/-- The conversion of a magnitude; what is not a number becomes the quiet one. -/
def convert (source target : BinaryFormat) (bits : Nat) : Nat :=
  if bits < source.infinity then target.nearest (source.significand bits) (source.exponent bits)
  else if bits = source.infinity then target.infinity
  else target.infinity + target.hidden / 2

/-- Every finite number of the format is one of the other format with all bits of
its significand. -/
structure Wider (wide narrow : BinaryFormat) : Prop where
  positive : 0 < narrow.precision
  precision : narrow.precision ≤ wide.precision
  least : wide.minExponent + wide.precision ≤ narrow.minExponent + 1
  greatest : narrow.minExponent + narrow.maxField + narrow.precision ≤
    wide.minExponent + wide.maxField + wide.precision

variable {format : BinaryFormat}

theorem hidden_pos : 0 < format.hidden :=
  Nat.two_pow_pos _

theorem significand_add (bits : Nat) :
    format.significand bits + (bits / format.hidden - 1) * format.hidden = bits := by
  rw [significand]
  split_ifs with less
  · simp [Nat.div_eq_of_lt less]
  · obtain ⟨field, same⟩ : ∃ field, bits / format.hidden = field + 1 :=
      Nat.exists_eq_succ_of_ne_zero
        (Nat.div_pos (not_lt.mp less) hidden_pos).ne'
    have parts := Nat.mod_add_div bits format.hidden
    rw [same] at parts ⊢
    calc bits % format.hidden + format.hidden + (field + 1 - 1) * format.hidden
        = bits % format.hidden + format.hidden * (field + 1) := by
          rw [Nat.add_sub_cancel]
          ring
      _ = bits := parts

theorem two_mul_hidden (positive : 0 < format.precision) :
    2 * format.hidden = 2 ^ format.precision := by
  rw [hidden, ← pow_succ', Nat.sub_add_cancel positive]

theorem size_significand_le (positive : 0 < format.precision) (bits : Nat) :
    (format.significand bits).size ≤ format.precision := by
  rw [Nat.size_le, ← two_mul_hidden positive, significand]
  have rest := Nat.mod_lt bits (@hidden_pos format)
  split_ifs <;> omega

theorem size_significand (positive : 0 < format.precision) (bits : Nat) :
    0 < bits / format.hidden ∧ (format.significand bits).size = format.precision ∨
      bits / format.hidden = 0 ∧ (format.significand bits).size < format.precision := by
  by_cases less : bits < format.hidden
  · refine .inr ⟨Nat.div_eq_of_lt less, ?_⟩
    have small : (format.significand bits).size ≤ format.precision - 1 := by
      rw [Nat.size_le, significand, if_pos less]
      exact less
    omega
  · refine .inl ⟨Nat.div_pos (not_lt.mp less) hidden_pos, ?_⟩
    have leading : format.precision - 1 < (format.significand bits).size := by
      rw [Nat.lt_size, significand, if_neg less]
      exact Nat.le_add_left _ _
    have most := size_significand_le positive bits
    omega

theorem scale_of_nonpos {shift : Int} (nonpos : shift ≤ 0) (value : Nat) :
    scale value shift = value * 2 ^ (-shift).toNat := by
  rw [scale]
  split_ifs with nonneg
  · obtain rfl : shift = 0 := by omega
    simpa using @roundHalfEven_mul 1 (by decide) value
  · rfl

theorem size_mul_two_pow {value : Nat} (nonzero : value ≠ 0) (shift : Nat) :
    (value * 2 ^ shift).size = value.size + shift := by
  rw [← Nat.shiftLeft_eq, Nat.size_shiftLeft nonzero]

/-- A magnitude with all bits of its significand. -/
theorem significand_of_normal {value field : Nat} (positive : 0 < format.precision)
    (full : value.size = format.precision) :
    format.significand (value + field * format.hidden) = value ∧
      format.exponent (value + field * format.hidden) = format.minExponent + field := by
  have least : format.hidden ≤ value := Nat.lt_size.mp (by omega)
  have most : value < 2 * format.hidden := by
    rw [two_mul_hidden positive, ← full]
    exact Nat.lt_size_self value
  obtain ⟨rest, rfl⟩ := Nat.exists_eq_add_of_le least
  have small : rest < format.hidden := by omega
  have same : format.hidden + rest + field * format.hidden = rest + (field + 1) * format.hidden := by
    ring
  constructor
  · rw [significand, if_neg (by omega), same, Nat.add_mul_mod_self_right, Nat.mod_eq_of_lt small]
    omega
  · rw [exponent, same, Nat.add_mul_div_right _ _ hidden_pos, Nat.div_eq_of_lt small]
    simp

section Wider

variable {wide narrow : BinaryFormat} (wider : Wider wide narrow)

include wider

/-- The conversion to the wider format adds zeros to the significand. -/
theorem nearest_wider {bits : Nat} (finite : bits < narrow.infinity)
    (nonzero : narrow.significand bits ≠ 0) :
    ∃ field : Nat,
      wide.nearest (narrow.significand bits) (narrow.exponent bits) =
        narrow.significand bits * 2 ^ (wide.precision - (narrow.significand bits).size) +
          field * wide.hidden ∧
      wide.minExponent + field =
        narrow.exponent bits + (narrow.significand bits).size - wide.precision ∧
      narrow.significand bits * 2 ^ (wide.precision - (narrow.significand bits).size) +
        field * wide.hidden < wide.infinity := by
  obtain ⟨positive, precision, least, greatest⟩ := wider
  have sizePos : 0 < (narrow.significand bits).size := Nat.size_pos.mpr (Nat.pos_of_ne_zero nonzero)
  have size := size_significand positive bits
  have bounded : bits / narrow.hidden < narrow.maxField := Nat.div_lt_of_lt_mul (by
    rwa [Nat.mul_comm])
  have isExponent : narrow.exponent bits =
      narrow.minExponent + (bits / narrow.hidden - 1 : Nat) := rfl
  generalize narrow.exponent bits = exponent at *
  generalize bits / narrow.hidden = quotient at *
  obtain ⟨field, isField⟩ : ∃ field : Nat, (field : Int) =
      exponent + (narrow.significand bits).size - wide.precision - wide.minExponent :=
    Int.eq_ofNat_of_zero_le (by omega) |>.imp fun _ => Eq.symm
  have unit : max wide.minExponent
      (exponent + (narrow.significand bits).size - wide.precision) =
        exponent + (narrow.significand bits).size - wide.precision := by
    omega
  have shift : (-(exponent + (narrow.significand bits).size - wide.precision - exponent)).toNat =
      wide.precision - (narrow.significand bits).size := by
    omega
  have isUnit : (exponent + (narrow.significand bits).size - wide.precision -
      wide.minExponent).toNat = field := by
    omega
  have less : narrow.significand bits * 2 ^ (wide.precision - (narrow.significand bits).size) <
      2 * wide.hidden := by
    rw [two_mul_hidden (by omega), ← Nat.size_le, size_mul_two_pow nonzero]
    omega
  have fits : narrow.significand bits * 2 ^ (wide.precision - (narrow.significand bits).size) +
      field * wide.hidden < wide.infinity :=
    calc narrow.significand bits * 2 ^ (wide.precision - (narrow.significand bits).size) +
          field * wide.hidden
        < 2 * wide.hidden + field * wide.hidden := by omega
      _ = (field + 2) * wide.hidden := by ring
      _ ≤ wide.maxField * wide.hidden := Nat.mul_le_mul_right _ (by omega)
  refine ⟨field, ?_, by omega, fits⟩
  rw [nearest, if_neg nonzero]
  simp only [unit]
  rw [scale_of_nonpos (by omega), shift, isUnit, min_eq_left fits.le]

/-- The conversion back drops these zeros. -/
theorem nearest_narrower {bits : Nat} (finite : bits < narrow.infinity)
    (nonzero : narrow.significand bits ≠ 0) :
    narrow.nearest
      (narrow.significand bits * 2 ^ (wide.precision - (narrow.significand bits).size))
      (narrow.exponent bits + (narrow.significand bits).size - wide.precision) = bits := by
  obtain ⟨positive, precision, -, -⟩ := wider
  have parts := @significand_add narrow bits
  have size := size_significand positive bits
  have isExponent : narrow.exponent bits =
      narrow.minExponent + (bits / narrow.hidden - 1 : Nat) := rfl
  generalize narrow.exponent bits = exponent at *
  generalize narrow.significand bits = value at *
  have unit : max narrow.minExponent (exponent + value.size - wide.precision +
      (value.size + (wide.precision - value.size) : Nat) - narrow.precision) = exponent := by
    omega
  have shift : (exponent - (exponent + value.size - wide.precision)).toNat =
      wide.precision - value.size := by
    omega
  have isField : (exponent - narrow.minExponent).toNat = bits / narrow.hidden - 1 := by
    omega
  rw [nearest, if_neg (Nat.mul_ne_zero nonzero (Nat.two_pow_pos _).ne'), size_mul_two_pow nonzero]
  simp only [unit]
  rw [scale, if_pos (by omega), shift, roundHalfEven_mul (Nat.two_pow_pos _), isField, parts,
    min_eq_left finite.le]

/-- A finite number is kept by the conversion to a wider format and back. -/
theorem convert_convert {bits : Nat} (finite : bits < narrow.infinity) :
    convert narrow wide bits < wide.infinity ∧
      convert wide narrow (convert narrow wide bits) = bits := by
  rw [convert, if_pos finite]
  by_cases isZero : narrow.significand bits = 0
  · obtain rfl : bits = 0 := by
      rw [significand] at isZero
      have positive := @hidden_pos narrow
      split_ifs at isZero <;> omega
    have fields : 0 < wide.maxField := by
      have field : 0 < narrow.maxField := Nat.pos_of_mul_pos_right finite
      obtain ⟨positive, -, least, greatest⟩ := wider
      omega
    have isNearest : wide.nearest (narrow.significand 0) (narrow.exponent 0) = 0 := by
      rw [nearest, if_pos isZero]
    have wideFinite : 0 < wide.infinity := Nat.mul_pos fields hidden_pos
    rw [isNearest]
    refine ⟨wideFinite, ?_⟩
    rw [convert, if_pos wideFinite, nearest, if_pos]
    simp [significand, hidden_pos]
  · obtain ⟨field, isNearest, isExponent, wideFinite⟩ := nearest_wider wider finite isZero
    have size : (narrow.significand bits).size ≤ wide.precision :=
      (size_significand_le wider.positive bits).trans wider.precision
    have full : (narrow.significand bits *
        2 ^ (wide.precision - (narrow.significand bits).size)).size = wide.precision := by
      rw [size_mul_two_pow isZero]
      omega
    obtain ⟨isSignificand, isWideExponent⟩ := @significand_of_normal wide _ field
      (wider.positive.trans_le wider.precision) full
    rw [isNearest]
    refine ⟨wideFinite, ?_⟩
    rw [convert, if_pos wideFinite, isSignificand, isWideExponent, isExponent]
    exact nearest_narrower wider finite isZero

end Wider

end BinaryFormat

end RexLang
