import RexLang.JsonConversion
import RexLang.FallibleResults

/-!
# Values with their types, and their encodings

The values of a type, what they consist of, and which of them keep what they are
when they are encoded: a value is encoded to what its parts are encoded to.
-/

namespace RexLang

/-! ## Loops -/

section Loops

variable {Error First Second : Type}

theorem bind_pure_eq_ok {outcome : Except Error First} {wrap : First → Second}
    (injective : Function.Injective wrap) {result : First} :
    (do let value ← outcome; return wrap value) = .ok (wrap result) ↔ outcome = .ok result := by
  cases outcome with
  | error error =>
      change Except.error error = _ ↔ _
      simp
  | ok value =>
      change Except.ok (wrap value) = _ ↔ _
      rw [Except.ok.injEq, Except.ok.injEq, injective.eq_iff]

/-- A loop over entries that keeps their names. -/
theorem mapM_named (function : First → Except Error Second) (names : List String)
    (values : List First) (same : names.length = values.length) :
    ((names.zip values).mapM fun entry => do
        let result ← function entry.2
        return (entry.1, result)) = do
      let results ← values.mapM function
      return names.zip results := by
  induction names generalizing values with
  | nil =>
      obtain rfl := List.length_eq_zero_iff.mp same.symm
      rfl
  | cons name names hypothesis =>
      cases values with
      | nil => cases same
      | cons value values =>
          rw [List.zip_cons_cons, List.mapM_cons, List.mapM_cons,
            hypothesis values (Nat.succ.inj same)]
          cases function value with
          | error error => rfl
          | ok result =>
              cases values.mapM function with
              | error error => rfl
              | ok results => rfl

theorem mapM_fields (function : First → Except Error Second) (fields : List (String × First)) :
    (fields.mapM fun entry => do
        let result ← function entry.2
        return (entry.1, result)) = do
      let results ← (fields.map Prod.snd).mapM function
      return (fields.map Prod.fst).zip results := by
  rw [← mapM_named function _ _ (by simp), ← List.zip_of_prod rfl rfl]

end Loops

/-! ## Values of a type -/

/-- The predicate holds of an element and of all that it consists of. -/
inductive Hereditary {Element : Type} (parts : Element → List Element)
    (property : Element → Prop) : Element → Prop
  | intro {element : Element} : property element →
      (∀ part ∈ parts element, Hereditary parts property part) → Hereditary parts property element

theorem hereditary_iff {Element : Type} {parts : Element → List Element}
    {property : Element → Prop} {element : Element} :
    Hereditary parts property element ↔
      property element ∧ ∀ part ∈ parts element, Hereditary parts property part := by
  constructor
  · rintro ⟨here, each⟩
    exact ⟨here, each⟩
  · rintro ⟨here, each⟩
    exact ⟨here, each⟩

/-- A value with its type. -/
abbrev TypedValue (formats : ScalarFormats) := RexValue formats × Typ

section Values

variable {formats : ScalarFormats} (adts : SymbolMap AdtDecl)

/-- The name selects a variant of the data type that a type applies. -/
structure Constructs (typ : Typ) (tag : Symbol) (adt : AdtDecl) (variant : AdtVariant)
    (substitutions : Subst) : Prop where
  head : ∃ const args, typ.spine [] = (.con const, args) ∧
    BuiltinTypeId.fromName const.nameStr = none ∧ adts.lookup const.nameStr = some adt ∧
      adtSubst adt args = .ok substitutions
  selected : (adt.variants.find? fun variant => constructorMatches tag variant.name) = some variant

/-- The value has the outermost form of the type; a floating-point number is finite. -/
inductive Fits : TypedValue formats → Prop
  | bool (value : Bool) : Fits (.bool value, .builtin .bool)
  | u8 (value : Unsigned 8) : Fits (.u8 value, .builtin .u8)
  | u16 (value : Unsigned 16) : Fits (.u16 value, .builtin .u16)
  | u32 (value : Unsigned 32) : Fits (.u32 value, .builtin .u32)
  | u64 (value : Unsigned 64) : Fits (.u64 value, .builtin .u64)
  | i8 (value : Signed 8) : Fits (.i8 value, .builtin .i8)
  | i16 (value : Signed 16) : Fits (.i16 value, .builtin .i16)
  | i32 (value : Signed 32) : Fits (.i32 value, .builtin .i32)
  | i64 (value : Signed 64) : Fits (.i64 value, .builtin .i64)
  | f32 {value : F32} : value.isFinite → Fits (.f32 value, .builtin .f32)
  | f64 {value : F64} : value.isFinite → Fits (.f64 value, .builtin .f64)
  | char (value : Char) : Fits (.char value, .builtin .char)
  | string (value : String) : Fits (.string value, .builtin .string)
  | uuid (value : formats.Uuid) : Fits (.uuid value, .builtin .uuid)
  | hash (value : formats.Hash) : Fits (.hash value, .builtin .hash)
  | dateTime (value : formats.DateTime) : Fits (.dateTime value, .builtin .dateTime)
  | tuple {items : List (RexValue formats)} {types : List Typ} :
      items.length = types.length → Fits (.tuple items, .tuple types)
  | record {fields : List (String × RexValue formats)} {types : List (Symbol × Typ)} :
      Ordered fields → types.map Prod.fst = fields.map Prod.fst → Fits (.dict fields, .record types)
  | list {elem : Typ} (items : List (RexValue formats)) :
      isU8Type elem = false → Fits (.list items, .list elem)
  | bytes {elem : Typ} (bytes : List (Unsigned 8)) :
      isU8Type elem = true → Fits (.bytes bytes, .list elem)
  | dict {fields : List (String × RexValue formats)} (elem : Typ) :
      Ordered fields → Fits (.dict fields, .dict elem)
  | none (inner : Typ) : Fits (.adt "None" [], .option inner)
  | some (value : RexValue formats) (inner : Typ) : Fits (.adt "Some" [value], .option inner)
  | ok (value : RexValue formats) (errorType okType : Typ) :
      Fits (.adt "Ok" [value], .app (.app (.builtin .result) errorType) okType)
  | err (value : RexValue formats) (errorType okType : Typ) :
      Fits (.adt "Err" [value], .app (.app (.builtin .result) errorType) okType)
  | promise (value : RexValue formats) (inner : Typ) :
      Fits (.adt "Promise" [value], .app (.builtin .promise) inner)
  | adt {typ : Typ} {tag : Symbol} {fields : List (RexValue formats)} {adt : AdtDecl}
      {variant : AdtVariant} {substitutions : Subst} :
      Constructs adts typ tag adt variant substitutions →
        fields.length = variant.args.length → Fits (.adt tag fields, typ)

/-- The types of the fields of a constructor. -/
def constructorFieldTypes (tag : Symbol) (typ : Typ) : List Typ :=
  match typ.spine [] with
  | (.con const, args) =>
      match BuiltinTypeId.fromName const.nameStr, args with
      | some .option, [inner] => [inner]
      | some .promise, [_] => [.builtin .uuid]
      | some .result, [errorType, okType] => [if tag = "Ok" then okType else errorType]
      | none, args =>
          match adts.lookup const.nameStr with
          | none => []
          | some adt =>
              match adt.variants.find? fun variant => constructorMatches tag variant.name,
                adtSubst adt args with
              | some variant, .ok substitutions => instantiateAdtArgs variant.args substitutions
              | _, _ => []
      | _, _ => []
  | _ => []

/-- What a value of a type consists of. -/
def TypedValue.parts : TypedValue formats → List (TypedValue formats)
  | (.tuple items, .tuple types) => items.zip types
  | (.dict fields, .record types) => (fields.map Prod.snd).zip (types.map Prod.snd)
  | (.list items, .app _ elem) => items.map fun item => (item, elem)
  | (.dict fields, .app _ elem) => (fields.map Prod.snd).map fun value => (value, elem)
  | (.adt tag fields, typ) => fields.zip (constructorFieldTypes adts tag typ)
  | _ => []

/-- The value is one of the type. -/
def ValueHasType : TypedValue formats → Prop :=
  Hereditary (TypedValue.parts adts) (Fits adts)

/-! ## Values that come back -/

/-- The value is encoded as null: it is `None`, or holds nothing but such a value
in a `Some` or in a data type with one variant. -/
inductive Blank : TypedValue formats → Prop
  | none (inner : Typ) : Blank (.adt "None" [], .option inner)
  | some {payload : RexValue formats} {inner : Typ} :
      Blank (payload, inner) → Blank (.adt "Some" [payload], .option inner)
  | bare {typ fieldType : Typ} {tag : Symbol} {field : RexValue formats} {adt : AdtDecl}
      {variant : AdtVariant} {substitutions : Subst} :
      Constructs adts typ tag adt variant substitutions → adt.variants.length = 1 →
        instantiateAdtArgs variant.args substitutions = [fieldType] →
          Blank (field, fieldType) → Blank (.adt tag [field], typ)

/-- The name of the variant that the decoder takes for a constructor. -/
def decodedTag (adt : AdtDecl) (tag : Symbol) (fields : List (RexValue formats)) :
    Option Symbol :=
  (adt.variants.find? fun variant =>
    (!fields.isEmpty || variant.args.isEmpty) && lastSegment variant.name = lastSegment tag).map
      AdtVariant.name

/-- What the encoding keeps: a `Some` does not hold what is encoded as null, and a
constructor has the name that the decoder gives it. -/
def Recoverable (entry : TypedValue formats) : Prop :=
  (∀ payload inner, entry = (.adt "Some" [payload], .option inner) →
      ¬Blank adts (payload, inner)) ∧
    ∀ typ tag fields adt variant substitutions, entry = (.adt tag fields, typ) →
      Constructs adts typ tag adt variant substitutions → decodedTag adt tag fields = some tag

/-- All of the value is kept by the encoding. -/
def Faithful : TypedValue formats → Prop :=
  Hereditary (TypedValue.parts adts) (Recoverable adts)

end Values

/-! ## Parts -/

section Parts

variable {formats : ScalarFormats} {adts : SymbolMap AdtDecl}

theorem TypedValue.sizeOf_parts {entry part : TypedValue formats} (member : part ∈ entry.parts adts) :
    sizeOf part.1 < sizeOf entry.1 := by
  obtain ⟨item, itemType⟩ := part
  have ofMem : ∀ {items : List (RexValue formats)}, item ∈ items → sizeOf item < sizeOf items :=
    List.sizeOf_lt_of_mem
  have ofFields : ∀ {fields : List (String × RexValue formats)}, item ∈ fields.map Prod.snd →
      sizeOf item < sizeOf fields := by
    intro fields isField
    obtain ⟨field, isMember, rfl⟩ := List.mem_map.mp isField
    exact (sizeOf_snd_lt field).trans (List.sizeOf_lt_of_mem isMember)
  unfold parts at member
  split at member
  · have less := ofMem (List.of_mem_zip member).1
    simp only [RexValue.tuple.sizeOf_spec]
    omega
  · have less := ofFields (List.of_mem_zip member).1
    simp only [RexValue.dict.sizeOf_spec]
    omega
  · obtain ⟨_, isItem, same⟩ := List.mem_map.mp member
    cases same
    have less := ofMem isItem
    simp only [RexValue.list.sizeOf_spec]
    omega
  · obtain ⟨_, isField, same⟩ := List.mem_map.mp member
    cases same
    have less := ofFields isField
    simp only [RexValue.dict.sizeOf_spec]
    omega
  · have less := ofMem (List.of_mem_zip member).1
    simp only [RexValue.adt.sizeOf_spec]
    omega
  · cases member

variable (adts) in
/-- The value is encoded to the document, and comes back if it is faithful. -/
structure EncodesTo (entry : TypedValue formats) (json : JsonValue) : Prop where
  isNull : json = .null ↔ Blank adts entry
  encodes : ∀ fuel, sizeOf entry.1 ≤ fuel → rexToJson adts fuel entry.1 entry.2 = .ok json
  decodes : ∀ fuel, sizeOf entry.1 ≤ fuel →
    (jsonToRex formats adts fuel json entry.2 = .ok entry.1 ↔ Faithful adts entry)

theorem exists_encodings {entries : List (TypedValue formats)}
    (each : ∀ entry ∈ entries, ∃ json, EncodesTo adts entry json) :
    ∃ jsons, List.Forall₂ (EncodesTo adts) entries jsons := by
  induction entries with
  | nil => exact ⟨[], .nil⟩
  | cons entry entries hypothesis =>
      obtain ⟨⟨json, encodes⟩, each⟩ := List.forall_mem_cons.mp each
      obtain ⟨jsons, all⟩ := hypothesis each
      exact ⟨json :: jsons, .cons encodes all⟩

variable {entries : List (TypedValue formats)} {jsons : List JsonValue} {fuel : Nat}

theorem mapM_rexToJson (encode : List.Forall₂ (EncodesTo adts) entries jsons)
    (enough : ∀ entry ∈ entries, sizeOf entry.1 ≤ fuel) :
    entries.mapM (fun entry => rexToJson adts fuel entry.1 entry.2) = .ok jsons := by
  induction encode with
  | nil => rfl
  | cons encodes _ hypothesis =>
      obtain ⟨first, rest⟩ := List.forall_mem_cons.mp enough
      exact mapM_cons_eq_ok.mpr ⟨encodes.encodes fuel first, hypothesis rest⟩

theorem mapM_jsonToRex (encode : List.Forall₂ (EncodesTo adts) entries jsons)
    (enough : ∀ entry ∈ entries, sizeOf entry.1 ≤ fuel) :
    (jsons.zip (entries.map Prod.snd)).mapM (fun entry => jsonToRex formats adts fuel entry.1 entry.2) =
        .ok (entries.map Prod.fst) ↔
      ∀ entry ∈ entries, Faithful adts entry := by
  induction encode with
  | nil =>
      simp only [List.not_mem_nil, false_implies, implies_true, iff_true]
      rfl
  | cons encodes _ hypothesis =>
      obtain ⟨first, rest⟩ := List.forall_mem_cons.mp enough
      rw [List.map_cons, List.map_cons, List.zip_cons_cons, mapM_cons_eq_ok, List.forall_mem_cons,
        hypothesis rest, encodes.decodes fuel first]

/-- A value is encoded to what its parts are encoded to. -/
theorem exists_encodesTo {entry : TypedValue formats} (wrap : List JsonValue → JsonValue)
    (each : ∀ part ∈ entry.parts adts, ∃ json, EncodesTo adts part json)
    (isNull : ∀ jsons, List.Forall₂ (EncodesTo adts) (entry.parts adts) jsons →
      (wrap jsons = .null ↔ Blank adts entry))
    (encodes : ∀ fuel jsons,
      (entry.parts adts).mapM (fun part => rexToJson adts fuel part.1 part.2) = .ok jsons →
        rexToJson adts (fuel + 1) entry.1 entry.2 = .ok (wrap jsons))
    (decodes : ∀ fuel jsons, List.Forall₂ (EncodesTo adts) (entry.parts adts) jsons →
      (jsonToRex formats adts (fuel + 1) (wrap jsons) entry.2 = .ok entry.1 ↔
        Recoverable adts entry ∧ (jsons.zip ((entry.parts adts).map Prod.snd)).mapM
          (fun part => jsonToRex formats adts fuel part.1 part.2) =
            .ok ((entry.parts adts).map Prod.fst))) :
    ∃ json, EncodesTo adts entry json := by
  obtain ⟨jsons, encode⟩ := exists_encodings each
  have positive : 0 < sizeOf entry.1 := by
    cases entry.1 <;> simp +arith
  have smaller : ∀ fuel, sizeOf entry.1 ≤ fuel + 1 →
      ∀ part ∈ entry.parts adts, sizeOf part.1 ≤ fuel := by
    intro fuel enough part member
    have less := TypedValue.sizeOf_parts member
    omega
  refine ⟨wrap jsons, isNull jsons encode, fun fuel enough => ?_, fun fuel enough => ?_⟩
  · obtain ⟨fuel, rfl⟩ := Nat.exists_eq_add_of_lt (positive.trans_le enough)
    rw [Nat.zero_add] at enough ⊢
    exact encodes fuel jsons (mapM_rexToJson encode (smaller fuel enough))
  · obtain ⟨fuel, rfl⟩ := Nat.exists_eq_add_of_lt (positive.trans_le enough)
    rw [Nat.zero_add] at enough ⊢
    rw [decodes fuel jsons encode, mapM_jsonToRex encode (smaller fuel enough), Faithful,
      hereditary_iff]

end Parts

end RexLang
