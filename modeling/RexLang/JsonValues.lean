import Mathlib.Algebra.Order.Ring.Int
import Mathlib.Data.String.Basic
import RexLang.BinaryFormats
import RexLang.SymbolMaps
import RexLang.TypeAnnotations

/-!
# JSON and owned values

JSON documents, the values that a host owns, and the scalar formats that other
crates define.
-/

namespace RexLang

/-! ## Integers -/

/-- The unsigned integers of a width. -/
abbrev Unsigned (bits : Nat) := Fin (2 ^ bits)

/-- The signed integers of a width. -/
abbrev Signed (bits : Nat) :=
  { value : Int // -2 ^ (bits - 1) ≤ value ∧ value < 2 ^ (bits - 1) }

/-- `u64::from`. -/
def Unsigned.toU64 {bits : Nat} (narrower : bits ≤ 64) (value : Unsigned bits) : Unsigned 64 :=
  value.castLE (Nat.pow_le_pow_right (by decide) narrower)

/-- `T::try_from` of a `u64`. -/
def Unsigned.tryFrom (bits : Nat) (value : Unsigned 64) : Option (Unsigned bits) :=
  if fits : value.val < 2 ^ bits then some ⟨value.val, fits⟩ else none

@[simp]
theorem Unsigned.tryFrom_toU64 {bits : Nat} (narrower : bits ≤ 64) (value : Unsigned bits) :
    tryFrom bits (value.toU64 narrower) = some value := by
  simp [tryFrom, toU64]

/-- `i64::from`. -/
def Signed.toI64 {bits : Nat} (narrower : bits ≤ 64) (value : Signed bits) : Signed 64 :=
  ⟨value.val, by
    have less : (2 : Int) ^ (bits - 1) ≤ 2 ^ (64 - 1) :=
      pow_le_pow_right₀ (by decide) (by omega)
    have bounds := value.property
    omega⟩

/-- `T::try_from` of an `i64`. -/
def Signed.tryFrom (bits : Nat) (value : Signed 64) : Option (Signed bits) :=
  if fits : -2 ^ (bits - 1) ≤ value.val ∧ value.val < 2 ^ (bits - 1) then some ⟨value.val, fits⟩
  else none

@[simp]
theorem Signed.tryFrom_toI64 {bits : Nat} (narrower : bits ≤ 64) (value : Signed bits) :
    tryFrom bits (value.toI64 narrower) = some value := by
  simp [tryFrom, toI64, value.property]

/-! ## Floating-point numbers -/

namespace BinaryFormat

/-- The magnitudes of `f32`. -/
def single : BinaryFormat :=
  ⟨24, -149, 255⟩

/-- The magnitudes of `f64`. -/
def double : BinaryFormat :=
  ⟨53, -1074, 2047⟩

theorem wider_double_single : Wider double single :=
  ⟨by decide, by decide, by decide, by decide⟩

end BinaryFormat

open BinaryFormat

/-- `is_finite`. -/
def F32.isFinite (value : F32) : Bool :=
  value.toNat % 2 ^ 31 < single.infinity

/-- `is_finite`. -/
def F64.isFinite (value : F64) : Bool :=
  value.toNat % 2 ^ 63 < double.infinity

/-- `f64::from`. -/
def F32.toF64 (value : F32) : F64 :=
  .ofNat 64 (value.toNat / 2 ^ 31 * 2 ^ 63 + convert single double (value.toNat % 2 ^ 31))

/-- `as f32`. -/
def F64.toF32 (value : F64) : F32 :=
  .ofNat 32 (value.toNat / 2 ^ 63 * 2 ^ 31 + convert double single (value.toNat % 2 ^ 63))

/-- `as f64` of a `u64`. -/
def Unsigned.toF64 (value : Unsigned 64) : F64 :=
  .ofNat 64 (double.nearest value.val 0)

/-- `as f64` of an `i64`. -/
def Signed.toF64 (value : Signed 64) : F64 :=
  .ofNat 64 ((if value.val < 0 then 2 ^ 63 else 0) + double.nearest value.val.natAbs 0)

/-- A finite `f32` is kept by the conversion to an `f64` and back. -/
theorem F32.toF32_toF64 {value : F32} (finite : value.isFinite) :
    value.toF64.isFinite ∧ value.toF64.toF32 = value := by
  obtain ⟨wideFinite, same⟩ := convert_convert wider_double_single (of_decide_eq_true finite)
  have bounded := value.isLt
  have small : double.infinity < 2 ^ 63 := by decide
  have bits : value.toF64.toNat =
      value.toNat / 2 ^ 31 * 2 ^ 63 + convert single double (value.toNat % 2 ^ 31) := by
    rw [toF64, BitVec.toNat_ofNat, Nat.mod_eq_of_lt]
    omega
  have magnitude : value.toF64.toNat % 2 ^ 63 = convert single double (value.toNat % 2 ^ 31) := by
    rw [bits, Nat.mul_add_mod_of_lt (wideFinite.trans small)]
  have sign : value.toF64.toNat / 2 ^ 63 = value.toNat / 2 ^ 31 := by
    omega
  constructor
  · rw [F64.isFinite, magnitude]
    exact decide_eq_true wideFinite
  · rw [F64.toF32, magnitude, same, sign]
    apply BitVec.eq_of_toNat_eq
    rw [BitVec.toNat_ofNat]
    omega

/-! ## JSON -/

/-- `serde_json::Number`; a `negInt` is below zero. -/
inductive JsonNumber where
  | posInt (value : Unsigned 64)
  | negInt (value : Signed 64)
  | float (value : F64)

/-- `serde_json::Value`; an object is sorted by its names. -/
inductive JsonValue where
  | null
  | bool (value : Bool)
  | number (value : JsonNumber)
  | string (value : String)
  | array (items : List JsonValue)
  | object (fields : List (String × JsonValue))

namespace JsonNumber

/-- `From<i64>`. -/
def ofI64 (value : Signed 64) : JsonNumber :=
  if nonneg : 0 ≤ value.val then
    .posInt ⟨value.val.toNat, by
      have bounds := value.property
      omega⟩
  else .negInt value

/-- `from_f64`. -/
def ofF64 (value : F64) : Option JsonNumber :=
  if value.isFinite then some (.float value) else none

def asU64 : JsonNumber → Option (Unsigned 64)
  | .posInt value => some value
  | _ => none

def asI64 : JsonNumber → Option (Signed 64)
  | .posInt value =>
      if fits : value.val < 2 ^ 63 then some ⟨value.val, by omega⟩ else none
  | .negInt value => some value
  | .float _ => none

def asF64 : JsonNumber → Option F64
  | .posInt value => some value.toF64
  | .negInt value => some value.toF64
  | .float value => some value

@[simp]
theorem asI64_ofI64 (value : Signed 64) : asI64 (ofI64 value) = some value := by
  rw [ofI64]
  split_ifs with nonneg
  · have bounds := value.property
    rw [asI64, dif_pos (by simp only; omega)]
    simp [nonneg]
  · rfl

end JsonNumber

/-! ## Scalar formats -/

/-- The types of other crates, with the texts that they have in JSON. -/
structure ScalarFormats where
  Uuid : Type
  Hash : Type
  DateTime : Type
  /-- `serde_json::to_value` of an id. -/
  serializeUuid : Uuid → Except String JsonValue
  /-- `serde_json::from_value` of an id. -/
  deserializeUuid : JsonValue → Except String Uuid
  serializeDateTime : DateTime → Except String JsonValue
  deserializeDateTime : JsonValue → Except String DateTime
  toHex : Hash → String
  fromHex : String → Except String Hash
  /-- `Display` of a JSON document. -/
  displayJson : JsonValue → String

/-- Ids, times and hashes have texts, from which they are read back. -/
structure ScalarFormats.Lawful (formats : ScalarFormats) : Prop where
  uuid : ∀ value, ∃ text, formats.serializeUuid value = .ok (.string text) ∧
    formats.deserializeUuid (.string text) = .ok value
  dateTime : ∀ value, ∃ text, formats.serializeDateTime value = .ok (.string text) ∧
    formats.deserializeDateTime (.string text) = .ok value
  hash : ∀ value, formats.fromHex (formats.toHex value) = .ok value

/-! ## Owned values -/

/-- `Value`; a dictionary is sorted by its names. -/
inductive RexValue (formats : ScalarFormats) where
  | bool (value : Bool)
  | u8 (value : Unsigned 8)
  | u16 (value : Unsigned 16)
  | u32 (value : Unsigned 32)
  | u64 (value : Unsigned 64)
  | i8 (value : Signed 8)
  | i16 (value : Signed 16)
  | i32 (value : Signed 32)
  | i64 (value : Signed 64)
  | f32 (value : F32)
  | f64 (value : F64)
  | char (value : Char)
  | string (value : String)
  | uuid (value : formats.Uuid)
  | hash (value : formats.Hash)
  | dateTime (value : formats.DateTime)
  | tuple (items : List (RexValue formats))
  | list (items : List (RexValue formats))
  | bytes (bytes : List (Unsigned 8))
  | dict (fields : List (String × RexValue formats))
  | adt (tag : Symbol) (fields : List (RexValue formats))

/-- `value_type_name`. -/
def RexValue.valueTypeName {formats : ScalarFormats} : RexValue formats → String
  | .bool _ => "Bool"
  | .u8 _ => "u8"
  | .u16 _ => "u16"
  | .u32 _ => "u32"
  | .u64 _ => "u64"
  | .i8 _ => "i8"
  | .i16 _ => "i16"
  | .i32 _ => "i32"
  | .i64 _ => "i64"
  | .f32 _ => "f32"
  | .f64 _ => "f64"
  | .char _ => "Char"
  | .string _ => "String"
  | .uuid _ => "UUID"
  | .hash _ => "Hash"
  | .dateTime _ => "DateTime"
  | .tuple _ => "tuple"
  | .list _ => "list"
  | .bytes _ => "bytes"
  | .dict _ => "dict"
  | .adt _ _ => "adt"

end RexLang
