import RexLang.JsonValues

/-!
# Conversion between JSON and owned values

Both directions follow the type: single-variant data types are encoded bare,
constructors without fields as their names, options as null or their content.
-/

namespace RexLang

inductive JsonError where
  | custom (message : String)
  | outOfFuel

/-! ## Types -/

/-- `constructor_matches`. -/
def constructorMatches (actual expected : Symbol) : Bool :=
  actual = expected || (!actual.toList.contains '.' && actual = lastSegment expected)

/-- `named_type`. -/
def namedType (name : Symbol) (args : List Typ) : Typ :=
  args.foldl .app (.named name args.length)

/-- `is_u8_type`. -/
def isU8Type : Typ → Bool
  | .con const => const.nameStr = "u8"
  | _ => false

/-- `adt_subst`; the last of two parameters with one variable counts. -/
def adtSubst (adt : AdtDecl) (args : List Typ) : Except JsonError Subst :=
  if adt.params.length ≠ args.length then
    .error (.custom ("ADT \x60" ++ adt.name ++ "\x60 expects " ++ toString adt.params.length ++
      " type args, got " ++ toString args.length))
  else .ok ((adt.params.zip args).map fun entry => (entry.1.var.id, entry.2)).reverse

mutual

/-- `instantiate_type`. -/
def instantiateType (substitutions : Subst) : Typ → Typ
  | .var typeVar => (substitutions.lookup typeVar.id).getD (.var typeVar)
  | .con const => .con const
  | .app head arg => .app (instantiateType substitutions head) (instantiateType substitutions arg)
  | .func arg ret => .func (instantiateType substitutions arg) (instantiateType substitutions ret)
  | .tuple items => .tuple (instantiateTypes substitutions items)
  | .record fields => .mkRecord (instantiateFields substitutions fields)

def instantiateTypes (substitutions : Subst) : List Typ → List Typ
  | [] => []
  | typ :: types => instantiateType substitutions typ :: instantiateTypes substitutions types

def instantiateFields (substitutions : Subst) : List (Symbol × Typ) → List (Symbol × Typ)
  | [] => []
  | (name, typ) :: fields =>
      (name, instantiateType substitutions typ) :: instantiateFields substitutions fields

end

/-- `instantiate_adt_args`. -/
def instantiateAdtArgs (args : List AdtArgument) (substitutions : Subst) : List Typ :=
  args.map fun arg => instantiateType substitutions arg.typ

@[simp]
theorem length_instantiateAdtArgs (args : List AdtArgument) (substitutions : Subst) :
    (instantiateAdtArgs args substitutions).length = args.length := by
  simp [instantiateAdtArgs]

variable {formats : ScalarFormats}

def typeMismatchJson (formats : ScalarFormats) (json : JsonValue) (want : Typ) : JsonError :=
  .custom ("JSON value " ++ formats.displayJson json ++ " does not match Rex type " ++ want.display)

def typeMismatchValue (value : RexValue formats) (want : Typ) : JsonError :=
  .custom ("Rex value of kind \x60" ++ value.valueTypeName ++ "\x60 does not match Rex type " ++
    want.display)

def unknownAdt (name : Symbol) : JsonError :=
  .custom ("unknown ADT \x60" ++ name ++ "\x60")

/-! ## Numbers -/

section Numbers

variable (formats)

/-- `json_u64`. -/
def jsonU64 (json : JsonValue) : Except JsonError (Unsigned 64) :=
  let error := JsonError.custom
    ("expected unsigned integer JSON, got " ++ formats.displayJson json)
  match json with
  | .number number => (number.asU64).elim (.error error) .ok
  | _ => .error error

/-- `json_i64`. -/
def jsonI64 (json : JsonValue) : Except JsonError (Signed 64) :=
  let error := JsonError.custom ("expected signed integer JSON, got " ++ formats.displayJson json)
  match json with
  | .number number => (number.asI64).elim (.error error) .ok
  | _ => .error error

/-- `json_f64`. -/
def jsonF64 (json : JsonValue) : Except JsonError F64 :=
  let error := JsonError.custom ("expected floating-point JSON, got " ++ formats.displayJson json)
  match json with
  | .number number => (number.asF64).elim (.error error) .ok
  | _ => .error error

/-- `ranged_unsigned`. -/
def rangedUnsigned (bits : Nat) (json : JsonValue) (name : String) :
    Except JsonError (Unsigned bits) := do
  let value ← jsonU64 formats json
  match Unsigned.tryFrom bits value with
  | some value => return value
  | none => throw (.custom ("value " ++ toString value.val ++ " out of range for " ++ name))

/-- `ranged_signed`. -/
def rangedSigned (bits : Nat) (json : JsonValue) (name : String) :
    Except JsonError (Signed bits) := do
  let value ← jsonI64 formats json
  match Signed.tryFrom bits value with
  | some value => return value
  | none => throw (.custom ("value " ++ toString value.val ++ " out of range for " ++ name))

end Numbers

/-! ## Decoding -/

section Decode

variable (adts : SymbolMap AdtDecl)
  (jsonToRex : JsonValue → Typ → Except JsonError (RexValue formats))

/-- `decode_json_fields`. -/
def decodeJsonFields (json : JsonValue) (fieldTypes : List Typ) :
    Except JsonError (List (RexValue formats)) :=
  let error := JsonError.custom ("expected array payload, got " ++ formats.displayJson json)
  match json with
  | .array items =>
      if items.length ≠ fieldTypes.length then .error error
      else (items.zip fieldTypes).mapM fun field => jsonToRex field.1 field.2
  | _ => .error error

/-- `decode_wrapped_variant`. -/
def decodeWrappedVariant (payload : JsonValue) (constructor : Symbol) (fieldTypes : List Typ) :
    Except JsonError (RexValue formats) := do
  let fields ← match fieldTypes with
    | [] => pure []
    | [fieldType] => do
        let field ← jsonToRex payload fieldType
        pure [field]
    | fieldTypes => decodeJsonFields jsonToRex payload fieldTypes
  return .adt constructor fields

/-- `decode_direct_variant`. -/
def decodeDirectVariant (json : JsonValue) (constructor : Symbol) (fieldTypes : List Typ) :
    Except JsonError (RexValue formats) :=
  match fieldTypes with
  | [] =>
      let error := JsonError.custom ("expected null or \x60" ++ lastSegment constructor ++
        "\x60 for unit constructor, got " ++ formats.displayJson json)
      match json with
      | .null => .ok (.adt constructor [])
      | .string tag => if tag = lastSegment constructor then .ok (.adt constructor []) else .error error
      | _ => .error error
  | fieldTypes => decodeWrappedVariant jsonToRex json constructor fieldTypes

/-- The arm of `json_to_value_for_adt` for an object with one field. -/
def decodeTagged (adt : AdtDecl) (substitutions : Subst) (adtName : Symbol) (json : JsonValue) :
    Except JsonError (RexValue formats) :=
  let error := JsonError.custom ("expected ADT JSON representation for \x60" ++ adtName ++
    "\x60; got " ++ formats.displayJson json)
  match json with
  | .object [(tag, payload)] =>
      match adt.variants.find? fun variant => lastSegment variant.name = tag with
      | some variant =>
          decodeWrappedVariant jsonToRex payload variant.name
            (instantiateAdtArgs variant.args substitutions)
      | none => .error error
  | _ => .error error

/-- The arms of `json_to_value_for_adt` for several variants. -/
def decodeVariants (adt : AdtDecl) (substitutions : Subst) (adtName : Symbol) (json : JsonValue) :
    Except JsonError (RexValue formats) :=
  match json with
  | .string tag =>
      match adt.variants.find? fun variant =>
        variant.args.isEmpty && lastSegment variant.name = tag with
      | some variant => .ok (.adt variant.name [])
      | none =>
          if adt.variants.all fun variant => variant.args.isEmpty then
            .error (.custom ("unknown enum tag \x60" ++ tag ++ "\x60 for \x60" ++ adt.name ++ "\x60"))
          else decodeTagged jsonToRex adt substitutions adtName json
  | _ => decodeTagged jsonToRex adt substitutions adtName json

/-- `json_to_value_for_adt`. -/
def jsonToValueForAdt (json : JsonValue) (adtName : Symbol) (typeArgs : List Typ) :
    Except JsonError (RexValue formats) :=
  match adts.lookup adtName with
  | none => .error (unknownAdt adtName)
  | some adt => do
      let substitutions ← adtSubst adt typeArgs
      match adt.variants with
      | [variant] =>
          decodeDirectVariant jsonToRex json variant.name
            (instantiateAdtArgs variant.args substitutions)
      | _ => decodeVariants jsonToRex adt substitutions adtName json

/-- The arm of `json_to_value_for_con` for a `Result`. -/
def decodeResult (json : JsonValue) (errorType okType : Typ) :
    Except JsonError (RexValue formats) :=
  match json with
  | .object fields =>
      if fields.length ≠ 1 then
        .error (.custom ("expected result object JSON, got " ++ formats.displayJson json))
      else
        match fields.lookup "Ok", fields.lookup "Err" with
        | some value, _ => do
            let value ← jsonToRex value okType
            return .adt "Ok" [value]
        | none, some value => do
            let value ← jsonToRex value errorType
            return .adt "Err" [value]
        | none, none =>
            .error (.custom ("expected \x7bOk:..\x7d or \x7bErr:..\x7d, got " ++
              formats.displayJson json))
  | _ => .error (.custom ("expected result object JSON, got " ++ formats.displayJson json))

/-- `json_to_value_for_con`. -/
def jsonToValueForCon (json : JsonValue) (name : Symbol) (args : List Typ) :
    Except JsonError (RexValue formats) :=
  match BuiltinTypeId.fromName name, args with
  | some .bool, [] =>
      match json with
      | .bool value => .ok (.bool value)
      | _ => .error (typeMismatchJson formats json (.builtin .bool))
  | some .u8, [] => return .u8 (← rangedUnsigned formats 8 json "u8")
  | some .u16, [] => return .u16 (← rangedUnsigned formats 16 json "u16")
  | some .u32, [] => return .u32 (← rangedUnsigned formats 32 json "u32")
  | some .u64, [] => return .u64 (← jsonU64 formats json)
  | some .i8, [] => return .i8 (← rangedSigned formats 8 json "i8")
  | some .i16, [] => return .i16 (← rangedSigned formats 16 json "i16")
  | some .i32, [] => return .i32 (← rangedSigned formats 32 json "i32")
  | some .i64, [] => return .i64 (← jsonI64 formats json)
  | some .f32, [] => return .f32 (← jsonF64 formats json).toF32
  | some .f64, [] => return .f64 (← jsonF64 formats json)
  | some .char, [] =>
      match json with
      | .string value =>
          match value.toList with
          | [char] => .ok (.char char)
          | [] => .error (.custom
              "invalid Char JSON: expected exactly one Unicode scalar value, got none")
          | _ => .error (.custom
              "invalid Char JSON: expected exactly one Unicode scalar value, got more than one")
      | _ => .error (typeMismatchJson formats json (.builtin .char))
  | some .string, [] =>
      match json with
      | .string value => .ok (.string value)
      | _ => .error (typeMismatchJson formats json (.builtin .string))
  | some .uuid, [] =>
      match formats.deserializeUuid json with
      | .ok value => .ok (.uuid value)
      | .error error => .error (.custom ("invalid uuid JSON: " ++ error))
  | some .hash, [] =>
      match json with
      | .string value =>
          match formats.fromHex value with
          | .ok value => .ok (.hash value)
          | .error error => .error (.custom ("invalid hash JSON: " ++ error))
      | _ => .error (typeMismatchJson formats json (.builtin .hash))
  | some .dateTime, [] =>
      match formats.deserializeDateTime json with
      | .ok value => .ok (.dateTime value)
      | .error error => .error (.custom ("invalid datetime JSON: " ++ error))
  | some .option, [inner] =>
      match json with
      | .null => .ok (.adt "None" [])
      | _ => do
          let value ← jsonToRex json inner
          return .adt "Some" [value]
  | some .promise, [_] => do
      let value ← jsonToRex json (.builtin .uuid)
      return .adt "Promise" [value]
  | some .result, [errorType, okType] => decodeResult jsonToRex json errorType okType
  | some .list, [elementType] =>
      match json with
      | .array items =>
          if isU8Type elementType then do
            let bytes ← items.mapM fun item => rangedUnsigned formats 8 item "u8"
            return .bytes bytes
          else do
            let items ← items.mapM fun item => jsonToRex item elementType
            return .list items
      | _ => .error (.custom ("expected array JSON for List, got " ++ formats.displayJson json))
  | some .dict, [elementType] =>
      match json with
      | .object fields => do
          let entries ← fields.mapM fun field => do
            let value ← jsonToRex field.2 elementType
            return (field.1, value)
          return .dict (collectMap entries)
      | _ => .error (.custom ("expected object JSON for Dict, got " ++ formats.displayJson json))
  | _, _ => jsonToValueForAdt adts jsonToRex json name args

end Decode

/-- `json_to_rex`; `fuel` bounds the depth of the recursion. -/
def jsonToRex (formats : ScalarFormats) (adts : SymbolMap AdtDecl) :
    Nat → JsonValue → Typ → Except JsonError (RexValue formats)
  | 0, _, _ => .error .outOfFuel
  | fuel + 1, json, want =>
      match want with
      | .var typeVar => .error (.custom
          ("cannot decode JSON into unresolved type variable t" ++ toString typeVar.id))
      | .con const => jsonToValueForCon adts (jsonToRex formats adts fuel) json const.nameStr []
      | .app _ _ =>
          match want.spine [] with
          | (.con const, args) =>
              jsonToValueForCon adts (jsonToRex formats adts fuel) json const.nameStr args
          | _ => .error (.custom ("unsupported applied type " ++ want.display))
      | .func _ _ => .error (.custom "cannot decode JSON into function type")
      | .tuple itemTypes =>
          match json with
          | .array items =>
              if items.length ≠ itemTypes.length then .error (typeMismatchJson formats json want)
              else do
                let items ← (items.zip itemTypes).mapM fun item =>
                  jsonToRex formats adts fuel item.1 item.2
                return .tuple items
          | _ => .error (typeMismatchJson formats json want)
      | .record fieldTypes =>
          match json with
          | .object fields => do
              let entries ← fieldTypes.mapM fun field => do
                let value ← jsonToRex formats adts fuel ((fields.lookup field.1).getD .null) field.2
                return (field.1, value)
              return .dict (collectMap entries)
          | _ => .error (typeMismatchJson formats json want)

/-! ## Encoding -/

section Encode

variable (adts : SymbolMap AdtDecl)
  (rexToJson : RexValue formats → Typ → Except JsonError JsonValue)

/-- `encode_variant_fields`. -/
def encodeVariantFields (fields : List (RexValue formats)) (fieldTypes : List Typ) :
    Except JsonError JsonValue := do
  let items ← (fields.zip fieldTypes).mapM fun field => rexToJson field.1 field.2
  return .array items

/-- `encode_wrapped_variant`. -/
def encodeWrappedVariant (fields : List (RexValue formats)) (fieldTypes : List Typ) :
    Except JsonError JsonValue :=
  match fields, fieldTypes with
  | field :: _, [fieldType] => rexToJson field fieldType
  | fields, fieldTypes => encodeVariantFields rexToJson fields fieldTypes

/-- `encode_direct_variant`. -/
def encodeDirectVariant (constructor : Symbol) (fields : List (RexValue formats))
    (fieldTypes : List Typ) : Except JsonError JsonValue :=
  match fieldTypes with
  | [] => .ok (.string (lastSegment constructor))
  | fieldTypes => encodeWrappedVariant rexToJson fields fieldTypes

/-- `value_to_json_for_adt`. -/
def valueToJsonForAdt (value : RexValue formats) (adtName : Symbol) (typeArgs : List Typ) :
    Except JsonError JsonValue :=
  match adts.lookup adtName with
  | none => .error (unknownAdt adtName)
  | some adt => do
      let substitutions ← adtSubst adt typeArgs
      match value with
      | .adt tag fields =>
          match adt.variants.find? fun variant => constructorMatches tag variant.name with
          | none => throw (.custom ("constructor \x60" ++ tag ++ "\x60 is not in ADT \x60" ++
              adtName ++ "\x60"))
          | some variant =>
              let fieldTypes := instantiateAdtArgs variant.args substitutions
              if fields.length ≠ fieldTypes.length then
                throw (.custom ("constructor \x60" ++ tag ++ "\x60 expected " ++
                  toString fieldTypes.length ++ " args, got " ++ toString fields.length))
              else if adt.variants.length = 1 then
                encodeDirectVariant rexToJson tag fields fieldTypes
              else if fields.isEmpty then return .string (lastSegment tag)
              else do
                let payload ← encodeWrappedVariant rexToJson fields fieldTypes
                return .object [(lastSegment tag, payload)]
      | _ => throw (typeMismatchValue value (namedType adtName typeArgs))

/-- `value_to_json_for_con`. -/
def valueToJsonForCon (value : RexValue formats) (name : Symbol) (args : List Typ) :
    Except JsonError JsonValue :=
  let mismatch := Except.error (typeMismatchValue value (namedType name args))
  let unsigned {bits : Nat} (narrower : bits ≤ 64) (value : Unsigned bits) :
      Except JsonError JsonValue :=
    .ok (.number (.posInt (value.toU64 narrower)))
  let signed {bits : Nat} (narrower : bits ≤ 64) (value : Signed bits) :
      Except JsonError JsonValue :=
    .ok (.number (.ofI64 (value.toI64 narrower)))
  match BuiltinTypeId.fromName name, args with
  | some .bool, [] => match value with | .bool value => .ok (.bool value) | _ => mismatch
  | some .u8, [] => match value with | .u8 value => unsigned (by decide) value | _ => mismatch
  | some .u16, [] => match value with | .u16 value => unsigned (by decide) value | _ => mismatch
  | some .u32, [] => match value with | .u32 value => unsigned (by decide) value | _ => mismatch
  | some .u64, [] => match value with | .u64 value => unsigned le_rfl value | _ => mismatch
  | some .i8, [] => match value with | .i8 value => signed (by decide) value | _ => mismatch
  | some .i16, [] => match value with | .i16 value => signed (by decide) value | _ => mismatch
  | some .i32, [] => match value with | .i32 value => signed (by decide) value | _ => mismatch
  | some .i64, [] => match value with | .i64 value => signed le_rfl value | _ => mismatch
  | some .f32, [] =>
      match value with
      | .f32 value => .ok ((JsonNumber.ofF64 value.toF64).elim .null .number)
      | _ => mismatch
  | some .f64, [] =>
      match value with
      | .f64 value => .ok ((JsonNumber.ofF64 value).elim .null .number)
      | _ => mismatch
  | some .char, [] =>
      match value with
      | .char value => .ok (.string (String.singleton value))
      | _ => mismatch
  | some .string, [] => match value with | .string value => .ok (.string value) | _ => mismatch
  | some .uuid, [] =>
      match value with
      | .uuid value => (formats.serializeUuid value).mapError fun error =>
          .custom ("failed to serialize uuid: " ++ error)
      | _ => mismatch
  | some .hash, [] =>
      match value with
      | .hash value => .ok (.string (formats.toHex value))
      | _ => mismatch
  | some .dateTime, [] =>
      match value with
      | .dateTime value => (formats.serializeDateTime value).mapError fun error =>
          .custom ("failed to serialize datetime: " ++ error)
      | _ => mismatch
  | some .option, [inner] =>
      match value with
      | .adt "None" [] => .ok .null
      | .adt "Some" [value] => rexToJson value inner
      | _ => mismatch
  | some .promise, [_] =>
      match value with
      | .adt "Promise" [value] => rexToJson value (.builtin .uuid)
      | _ => mismatch
  | some .result, [errorType, okType] =>
      match value with
      | .adt "Ok" [value] => do
          let json ← rexToJson value okType
          return .object [("Ok", json)]
      | .adt "Err" [value] => do
          let json ← rexToJson value errorType
          return .object [("Err", json)]
      | _ => mismatch
  | some .list, [elementType] =>
      if isU8Type elementType then
        match value with
        | .bytes bytes => .ok (.array (bytes.map fun byte => .number (.posInt (byte.toU64 (by decide)))))
        | _ => mismatch
      else
        match value with
        | .list items => do
            let items ← items.mapM fun item => rexToJson item elementType
            return .array items
        | _ => mismatch
  | some .dict, [elementType] =>
      match value with
      | .dict fields => do
          let entries ← fields.mapM fun field => do
            let json ← rexToJson field.2 elementType
            return (field.1, json)
          return .object (collectMap entries)
      | _ => mismatch
  | _, _ => valueToJsonForAdt adts rexToJson value name args

end Encode

/-- `rex_to_json`; `fuel` bounds the depth of the recursion. -/
def rexToJson (adts : SymbolMap AdtDecl) :
    Nat → RexValue formats → Typ → Except JsonError JsonValue
  | 0, _, _ => .error .outOfFuel
  | fuel + 1, value, want =>
      match want with
      | .var typeVar => .error (.custom
          ("cannot encode unresolved type variable t" ++ toString typeVar.id ++ " to JSON"))
      | .con const => valueToJsonForCon adts (rexToJson adts fuel) value const.nameStr []
      | .app _ _ =>
          match want.spine [] with
          | (.con const, args) =>
              valueToJsonForCon adts (rexToJson adts fuel) value const.nameStr args
          | _ => .error (.custom ("unsupported applied type " ++ want.display))
      | .func _ _ => .error (.custom "cannot encode function value to JSON")
      | .tuple itemTypes =>
          match value with
          | .tuple items =>
              if items.length ≠ itemTypes.length then .error (typeMismatchValue value want)
              else do
                let items ← (items.zip itemTypes).mapM fun item => rexToJson adts fuel item.1 item.2
                return .array items
          | _ => .error (typeMismatchValue value want)
      | .record fieldTypes =>
          match value with
          | .dict fields =>
              if fields.length ≠ fieldTypes.length then .error (typeMismatchValue value want)
              else do
                let entries ← fieldTypes.mapM fun field => do
                  match fields.lookup field.1 with
                  | some value =>
                      let json ← rexToJson adts fuel value field.2
                      return (field.1, json)
                  | none => throw (typeMismatchValue value want)
                return .object (collectMap entries)
          | _ => .error (typeMismatchValue value want)

end RexLang
