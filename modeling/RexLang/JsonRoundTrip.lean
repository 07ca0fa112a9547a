import Mathlib.Data.List.TakeWhile
import RexLang.JsonTypedValues
import RexLang.SymbolMaps

/-!
# Round trip through JSON

Every value of a type is encoded.  Decoding gives it back if and only if its
constructors have the names that the decoder gives them, and no option in it
holds something that is itself encoded as null.
-/

namespace RexLang

variable {formats : ScalarFormats} {adts : SymbolMap AdtDecl}

/-! ## Scalars -/

theorem recoverable_of_not_adt {value : RexValue formats} {typ : Typ}
    (notAdt : ∀ tag fields, value ≠ .adt tag fields) : Recoverable adts (value, typ) := by
  constructor
  · rintro payload inner ⟨⟩
    exact absurd rfl (notAdt _ _)
  · rintro _ tag fields _ _ _ ⟨⟩
    exact absurd rfl (notAdt _ _)

theorem not_blank_of_not_adt {value : RexValue formats} {typ : Typ}
    (notAdt : ∀ tag fields, value ≠ .adt tag fields) : ¬Blank adts (value, typ) := by
  rintro (_ | _ | _)
  · exact absurd rfl (notAdt _ _)
  · exact absurd rfl (notAdt _ _)
  · exact absurd rfl (notAdt _ _)

/-- A scalar is encoded to a document of its own. -/
theorem exists_encodesTo_scalar {value : RexValue formats} {typ : Typ} (json : JsonValue)
    (notAdt : ∀ tag fields, value ≠ .adt tag fields)
    (noParts : TypedValue.parts adts (value, typ) = []) (notNull : json ≠ .null)
    (encodes : ∀ fuel, rexToJson adts (fuel + 1) value typ = .ok json)
    (decodes : ∀ fuel, jsonToRex formats adts (fuel + 1) json typ = .ok value) :
    ∃ json, EncodesTo adts (value, typ) json := by
  refine exists_encodesTo (fun _ => json) (by simp [noParts]) ?_ (fun fuel _ _ => encodes fuel) ?_
  · exact fun _ _ => iff_of_false notNull (not_blank_of_not_adt notAdt)
  · intro fuel jsons encode
    refine iff_of_true (decodes fuel) ⟨recoverable_of_not_adt notAdt, ?_⟩
    rw [noParts] at encode ⊢
    cases encode
    rfl

/-- The arms of the conversions for a type without arguments. -/
theorem unsignedRoundTrip {bits : Nat} (narrower : bits ≤ 64) (value : Unsigned bits)
    (name : String) :
    rangedUnsigned formats bits (.number (.posInt (value.toU64 narrower))) name = .ok value := by
  refine bind_eq_ok.mpr ⟨value.toU64 narrower, rfl, ?_⟩
  rw [Unsigned.tryFrom_toU64]
  rfl

theorem signedRoundTrip {bits : Nat} (narrower : bits ≤ 64) (value : Signed bits) (name : String) :
    rangedSigned formats bits (.number (.ofI64 (value.toI64 narrower))) name = .ok value := by
  have read : jsonI64 formats (.number (.ofI64 (value.toI64 narrower))) =
      .ok (value.toI64 narrower) := by
    simp [jsonI64]
  refine bind_eq_ok.mpr ⟨value.toI64 narrower, read, ?_⟩
  rw [Signed.tryFrom_toI64]
  rfl

/-! ## Lists, tuples and maps -/

/-- What comes back is kept in a list of parts whose container is not a data type. -/
theorem exists_encodesTo_tuple {items : List (RexValue formats)} {types : List Typ}
    (same : items.length = types.length)
    (each : ∀ part ∈ items.zip types, ∃ json, EncodesTo adts part json) :
    ∃ json, EncodesTo adts (.tuple items, .tuple types) json := by
  refine exists_encodesTo .array each ?_ ?_ ?_
  · exact fun _ _ => iff_of_false nofun (not_blank_of_not_adt nofun)
  · intro fuel jsons encoded
    change (if items.length ≠ types.length then _ else _) = _
    rw [if_neg (not_not.mpr same)]
    exact (bind_pure_eq_ok fun _ _ => JsonValue.array.inj).mpr encoded
  · intro fuel jsons encode
    have length : jsons.length = types.length := by
      rw [← encode.length_eq]
      change (items.zip types).length = _
      rw [List.length_zip, same, min_self]
    have recoverable : Recoverable adts (.tuple items, .tuple types) :=
      recoverable_of_not_adt nofun
    change (if jsons.length ≠ types.length then _ else _) = _ ↔ _ ∧
      (jsons.zip ((items.zip types).map Prod.snd)).mapM _ =
        Except.ok ((items.zip types).map Prod.fst)
    rw [if_neg (not_not.mpr length), bind_pure_eq_ok fun _ _ => RexValue.tuple.inj,
      List.map_fst_zip same.le, List.map_snd_zip same.ge,
      and_iff_right recoverable]

theorem zip_map_const {First Second Third : Type} (firsts : List First) (seconds : List Second)
    (third : Third) (same : firsts.length = seconds.length) :
    firsts.zip (seconds.map fun _ => third) = firsts.map fun first => (first, third) := by
  induction firsts generalizing seconds with
  | nil => rfl
  | cons first firsts hypothesis =>
      cases seconds with
      | nil => cases same
      | cons second seconds =>
          rw [List.map_cons, List.map_cons, List.zip_cons_cons,
            hypothesis seconds (Nat.succ.inj same)]

theorem map_fst_const {First Second : Type} (firsts : List First) (second : Second) :
    (firsts.map fun first => (first, second)).map Prod.fst = firsts := by
  rw [List.map_map]
  exact List.map_id firsts

theorem map_snd_const {First Second : Type} (firsts : List First) (second : Second) :
    (firsts.map fun first => (first, second)).map Prod.snd = firsts.map fun _ => second := by
  rw [List.map_map]
  rfl

theorem exists_encodesTo_list {items : List (RexValue formats)} {elem : Typ}
    (notU8 : isU8Type elem = false)
    (each : ∀ part ∈ items.map fun item => (item, elem), ∃ json, EncodesTo adts part json) :
    ∃ json, EncodesTo adts (.list items, .list elem) json := by
  refine exists_encodesTo .array each ?_ ?_ ?_
  · exact fun _ _ => iff_of_false nofun (not_blank_of_not_adt nofun)
  · intro fuel jsons encoded
    change (if isU8Type elem = true then _ else _) = _
    rw [if_neg (by simp [notU8])]
    change (items.map fun item => (item, elem)).mapM _ = _ at encoded
    rw [List.mapM_map] at encoded
    exact (bind_pure_eq_ok fun _ _ => JsonValue.array.inj).mpr encoded
  · intro fuel jsons encode
    have length : jsons.length = items.length := by
      rw [← encode.length_eq]
      exact List.length_map _
    have recoverable : Recoverable adts (.list items, .list elem) := recoverable_of_not_adt nofun
    change (if isU8Type elem = true then _ else _) = _ ↔ _ ∧
      (jsons.zip ((items.map fun item => (item, elem)).map Prod.snd)).mapM _ =
        Except.ok ((items.map fun item => (item, elem)).map Prod.fst)
    rw [if_neg (by simp [notU8]), bind_pure_eq_ok fun _ _ => RexValue.list.inj,
      and_iff_right recoverable, map_fst_const, map_snd_const,
      zip_map_const jsons items elem length, List.mapM_map]
    rfl

theorem exists_encodesTo_bytes (bytes : List (Unsigned 8)) {elem : Typ} (isU8 : isU8Type elem = true) :
    ∃ json, EncodesTo adts ((.bytes bytes, .list elem) : TypedValue formats) json := by
  refine exists_encodesTo_scalar
    (.array (bytes.map fun byte => .number (.posInt (byte.toU64 (by decide))))) nofun rfl nofun ?_ ?_
  · intro fuel
    change (if isU8Type elem = true then _ else _) = _
    rw [if_pos isU8]
  · intro fuel
    change (if isU8Type elem = true then _ else _) = _
    rw [if_pos isU8]
    refine (bind_pure_eq_ok fun _ _ => RexValue.bytes.inj).mpr ?_
    rw [List.mapM_map]
    induction bytes with
    | nil => rfl
    | cons byte bytes hypothesis => exact mapM_cons_eq_ok.mpr ⟨unsignedRoundTrip _ _ _, hypothesis⟩

theorem zip_eq_iff {Value : Type} {fields : SymbolMap Value} {values : List Value}
    (same : values.length = fields.length) :
    (fields.map Prod.fst).zip values = fields ↔ values = fields.map Prod.snd := by
  constructor
  · intro zipped
    have second := congrArg (List.map Prod.snd) zipped
    rwa [List.map_snd_zip (by simp [same])] at second
  · rintro rfl
    exact (List.zip_of_prod rfl rfl).symm

theorem ordered_zip {Value Other : Type} {fields : SymbolMap Value} {values : List Other}
    (ordered : Ordered fields) (same : values.length = fields.length) :
    Ordered ((fields.map Prod.fst).zip values) := by
  rwa [Ordered, List.map_fst_zip (by simp [same])]

/-- The encoding of the fields of a map. -/
theorem collect_fields {Value Other Result : Type} {fields : SymbolMap Value}
    {function : Value → Except JsonError Other} {others : List Other}
    {wrap : SymbolMap Other → Result} (ordered : Ordered fields)
    (mapped : (fields.map Prod.snd).mapM function = .ok others) :
    (do
      let entries ← fields.mapM fun field => do
        let other ← function field.2
        return (field.1, other)
      return wrap (collectMap entries)) = Except.ok (wrap ((fields.map Prod.fst).zip others)) := by
  have length := length_eq_of_mapM mapped
  rw [List.length_map] at length
  rw [mapM_fields, mapped]
  change Except.ok (wrap (collectMap ((fields.map Prod.fst).zip others))) = _
  rw [collectMap_of_ordered (ordered_zip ordered length)]

/-- The decoding of the fields of a map. -/
theorem collect_eq_iff {fields : SymbolMap (RexValue formats)} {jsons : List JsonValue}
    {function : JsonValue → Except JsonError (RexValue formats)} (ordered : Ordered fields)
    (length : jsons.length = fields.length) :
    (do
      let entries ← ((fields.map Prod.fst).zip jsons).mapM fun field => do
        let value ← function field.2
        return (field.1, value)
      return RexValue.dict (collectMap entries)) = Except.ok (.dict fields) ↔
        jsons.mapM function = .ok (fields.map Prod.snd) := by
  rw [mapM_named function _ _ (by simp [length])]
  cases mapped : jsons.mapM function with
  | error error =>
      change Except.error error = _ ↔ _
      simp
  | ok values =>
      have same : values.length = fields.length := (length_eq_of_mapM mapped).trans length
      change Except.ok (RexValue.dict (collectMap ((fields.map Prod.fst).zip values))) = _ ↔ _
      rw [collectMap_of_ordered (ordered_zip ordered same), Except.ok.injEq, RexValue.dict.injEq,
        Except.ok.injEq, zip_eq_iff same]

theorem exists_encodesTo_dict {fields : List (String × RexValue formats)} {elem : Typ}
    (ordered : Ordered fields)
    (each : ∀ part ∈ (fields.map Prod.snd).map fun value => (value, elem),
      ∃ json, EncodesTo adts part json) :
    ∃ json, EncodesTo adts (.dict fields, .dict elem) json := by
  refine exists_encodesTo (fun jsons => .object ((fields.map Prod.fst).zip jsons)) each ?_ ?_ ?_
  · exact fun _ _ => iff_of_false nofun (not_blank_of_not_adt nofun)
  · intro fuel jsons encoded
    change ((fields.map Prod.snd).map fun value => (value, elem)).mapM _ = _ at encoded
    rw [List.mapM_map] at encoded
    exact collect_fields ordered encoded
  · intro fuel jsons encode
    have length : jsons.length = fields.length := by
      rw [← encode.length_eq]
      change ((fields.map Prod.snd).map _).length = _
      rw [List.length_map, List.length_map]
    have recoverable : Recoverable adts (.dict fields, .dict elem) := recoverable_of_not_adt nofun
    change _ ↔ _ ∧ (jsons.zip (((fields.map Prod.snd).map fun value => (value, elem)).map
      Prod.snd)).mapM _ = Except.ok (((fields.map Prod.snd).map fun value => (value, elem)).map
        Prod.fst)
    rw [and_iff_right recoverable, map_fst_const, map_snd_const,
      zip_map_const jsons _ elem (by simp [length]), List.mapM_map]
    exact @collect_eq_iff _ _ _ (fun json => jsonToRex formats adts fuel json elem) ordered length

/-- A loop over the fields of a record type that looks them up in a map. -/
theorem mapM_lookup {Value Other : Type} {whole fields : SymbolMap Value}
    {types : List (Symbol × Typ)} (step : Value → Typ → Except JsonError Other)
    {body : Symbol × Typ → Except JsonError (Symbol × Other)} (ordered : Ordered whole)
    (body_eq : ∀ name value typ, whole.lookup name = some value →
      body (name, typ) = do
        let other ← step value typ
        return (name, other))
    (subset : fields ⊆ whole) (same : types.map Prod.fst = fields.map Prod.fst) :
    types.mapM body = do
      let others ← ((fields.map Prod.snd).zip (types.map Prod.snd)).mapM fun entry =>
        step entry.1 entry.2
      return (fields.map Prod.fst).zip others := by
  induction fields generalizing types with
  | nil =>
      obtain rfl := List.map_eq_nil_iff.mp same
      rfl
  | cons field fields hypothesis =>
      cases types with
      | nil => cases same
      | cons first types =>
          obtain ⟨name, typ⟩ := first
          obtain ⟨rfl, rest⟩ := List.cons.inj same
          obtain ⟨member, subset⟩ := List.cons_subset.mp subset
          rw [List.mapM_cons, hypothesis subset rest,
            body_eq field.1 field.2 typ (lookup_of_ordered ordered member), List.map_cons,
            List.map_cons, List.zip_cons_cons, List.mapM_cons]
          cases step field.2 typ with
          | error error => rfl
          | ok other =>
              cases ((fields.map Prod.snd).zip (types.map Prod.snd)).mapM fun entry =>
                step entry.1 entry.2 with
              | error error => rfl
              | ok others => rfl

theorem exists_encodesTo_record {fields : List (String × RexValue formats)}
    {types : List (Symbol × Typ)} (ordered : Ordered fields)
    (same : types.map Prod.fst = fields.map Prod.fst)
    (each : ∀ part ∈ (fields.map Prod.snd).zip (types.map Prod.snd),
      ∃ json, EncodesTo adts part json) :
    ∃ json, EncodesTo adts (.dict fields, .record types) json := by
  have lengths : fields.length = types.length := by
    simpa using congrArg List.length same.symm
  refine exists_encodesTo (fun jsons => .object ((fields.map Prod.fst).zip jsons)) each ?_ ?_ ?_
  · exact fun _ _ => iff_of_false nofun (not_blank_of_not_adt nofun)
  · intro fuel jsons encoded
    change ((fields.map Prod.snd).zip (types.map Prod.snd)).mapM _ = _ at encoded
    have length : jsons.length = fields.length := by
      rw [length_eq_of_mapM encoded]
      simp [lengths]
    change (if fields.length ≠ types.length then _ else _) = _
    rw [if_neg (not_not.mpr lengths)]
    rw [mapM_lookup (rexToJson adts fuel) ordered ?_ (List.Subset.refl fields) same, encoded]
    · change Except.ok (JsonValue.object (collectMap ((fields.map Prod.fst).zip jsons))) = _
      rw [collectMap_of_ordered (ordered_zip ordered length)]
    · intro name value typ found
      simp only [found]
  · intro fuel jsons encode
    have length : jsons.length = fields.length := by
      rw [← encode.length_eq]
      change ((fields.map Prod.snd).zip (types.map Prod.snd)).length = _
      simp [lengths]
    have recoverable : Recoverable adts (.dict fields, .record types) := recoverable_of_not_adt nofun
    have names : ((fields.map Prod.fst).zip jsons).map Prod.fst = fields.map Prod.fst :=
      List.map_fst_zip (by simp [length])
    change _ ↔ _ ∧ (jsons.zip (((fields.map Prod.snd).zip (types.map Prod.snd)).map Prod.snd)).mapM
      _ = Except.ok (((fields.map Prod.snd).zip (types.map Prod.snd)).map Prod.fst)
    rw [and_iff_right recoverable, List.map_fst_zip (by simp [lengths]),
      List.map_snd_zip (by simp [lengths])]
    change (types.mapM _ >>= _) = _ ↔ _
    rw [mapM_lookup (jsonToRex formats adts fuel) (ordered_zip ordered length) ?_
      (List.Subset.refl _) (same.trans names.symm), names, List.map_snd_zip (by simp [length])]
    · cases mapped : (jsons.zip (types.map Prod.snd)).mapM fun entry =>
          jsonToRex formats adts fuel entry.1 entry.2 with
      | error error =>
          change Except.error error = _ ↔ _
          simp
      | ok values =>
          have count : values.length = fields.length := by
            rw [length_eq_of_mapM mapped]
            simp [length, lengths]
          change Except.ok (RexValue.dict (collectMap ((fields.map Prod.fst).zip values))) = _ ↔ _
          rw [collectMap_of_ordered (ordered_zip ordered count), Except.ok.injEq,
            RexValue.dict.injEq, Except.ok.injEq, zip_eq_iff count]
    · intro name value typ found
      simp only [found]
      rfl

/-! ## Options and results -/

section Builtin

variable {typ : Typ} {id : BuiltinTypeId} {args : List Typ}

theorem not_constructs_builtin (head : typ.spine [] = (.con (.builtin id), args)) {tag : Symbol}
    {adt : AdtDecl} {variant : AdtVariant} {substitutions : Subst} :
    ¬Constructs adts typ tag adt variant substitutions := by
  rintro ⟨⟨const, others, same, user, -⟩, -⟩
  rw [head] at same
  cases same
  rw [TypeConst.nameStr, BuiltinTypeId.fromName_asStr] at user
  cases user

/-- A constructor of a builtin type has the name that the decoder gives it. -/
theorem recoverable_builtin_iff (head : typ.spine [] = (.con (.builtin id), args))
    {value : RexValue formats} :
    Recoverable adts (value, typ) ↔ ∀ payload inner, (value, typ) =
      (RexValue.adt "Some" [payload], Typ.option inner) → ¬Blank adts (payload, inner) := by
  refine and_iff_left ?_
  rintro _ tag fields adt variant substitutions ⟨⟩ constructs
  exact absurd constructs (not_constructs_builtin head)

end Builtin

theorem exists_encodesTo_none (inner : Typ) :
    ∃ json, EncodesTo adts ((.adt "None" [], .option inner) : TypedValue formats) json := by
  refine exists_encodesTo (fun _ => .null) nofun ?_ (fun _ _ _ => rfl) ?_
  · exact fun _ _ => iff_of_true rfl (.none inner)
  · intro fuel jsons encode
    refine iff_of_true rfl ⟨(recoverable_builtin_iff rfl).mpr fun _ _ same => ?_, ?_⟩
    · simp at same
    · cases encode
      rfl

/-- The encoding of a value with one part. -/
theorem exists_encodesTo_one {entry part : TypedValue formats} (wrap : JsonValue → JsonValue)
    (isPart : entry.parts adts = [part]) (each : ∃ json, EncodesTo adts part json)
    (isNull : ∀ json, EncodesTo adts part json → (wrap json = .null ↔ Blank adts entry))
    (encodes : ∀ fuel json, rexToJson adts fuel part.1 part.2 = .ok json →
      rexToJson adts (fuel + 1) entry.1 entry.2 = .ok (wrap json))
    (decodes : ∀ fuel json, EncodesTo adts part json →
      (jsonToRex formats adts (fuel + 1) (wrap json) entry.2 = .ok entry.1 ↔
        Recoverable adts entry ∧ jsonToRex formats adts fuel json part.2 = .ok part.1)) :
    ∃ json, EncodesTo adts entry json := by
  refine exists_encodesTo (fun jsons => wrap (jsons.headD .null)) ?_ ?_ ?_ ?_
  · rw [isPart]
    simpa using each
  · intro jsons encode
    rw [isPart] at encode
    obtain ⟨json, _, encodes, rest, rfl⟩ := List.forall₂_cons_left_iff.mp encode
    exact isNull json encodes
  · intro fuel jsons encoded
    rw [isPart] at encoded
    obtain ⟨json, rfl⟩ := List.length_eq_one_iff.mp (length_eq_of_mapM encoded)
    exact encodes fuel json (mapM_cons_eq_ok.mp encoded).1
  · intro fuel jsons encode
    rw [isPart] at encode ⊢
    obtain ⟨json, others, isJson, rest, rfl⟩ := List.forall₂_cons_left_iff.mp encode
    cases rest
    rw [List.headD_cons, decodes fuel json isJson, List.map_cons, List.map_cons,
      List.zip_cons_cons, mapM_cons_eq_ok]
    exact and_congr_right fun _ => (and_iff_left rfl).symm

theorem adt_singleton_injective (tag : Symbol) :
    Function.Injective fun value : RexValue formats => RexValue.adt tag [value] := by
  intro first second same
  simpa using same

theorem blank_some_iff {payload : RexValue formats} {inner : Typ} :
    Blank adts (.adt "Some" [payload], .option inner) ↔ Blank adts (payload, inner) := by
  refine ⟨fun blank => ?_, .some⟩
  generalize same : (RexValue.adt "Some" [payload], Typ.option inner) = entry at blank
  cases blank with
  | none other => simp at same
  | some blank =>
      cases same
      exact blank
  | bare constructs =>
      cases same
      exact absurd constructs (not_constructs_builtin rfl)

theorem recoverable_some_iff {payload : RexValue formats} {inner : Typ} :
    Recoverable adts (.adt "Some" [payload], .option inner) ↔ ¬Blank adts (payload, inner) := by
  rw [recoverable_builtin_iff rfl]
  constructor
  · exact fun kept => kept payload inner rfl
  · rintro notBlank other otherInner ⟨⟩
    exact notBlank

theorem exists_encodesTo_some {value : RexValue formats} {inner : Typ}
    (each : ∃ json, EncodesTo adts (value, inner) json) :
    ∃ json, EncodesTo adts (.adt "Some" [value], .option inner) json := by
  refine exists_encodesTo_one id rfl each ?_ (fun _ _ => id) ?_
  · exact fun json encodes => encodes.isNull.trans blank_some_iff.symm
  · intro fuel json encodes
    rw [recoverable_some_iff, ← encodes.isNull]
    by_cases isNull : json = .null
    · subst isNull
      refine iff_of_false (fun decoded => ?_) fun both => both.1 rfl
      change Except.ok (RexValue.adt "None" []) = _ at decoded
      simp at decoded
    · have step : jsonToRex formats adts (fuel + 1) json (.option inner) = do
          let value ← jsonToRex formats adts fuel json inner
          return .adt "Some" [value] := by
        cases json with
        | null => exact absurd rfl isNull
        | bool value => rfl
        | number value => rfl
        | string value => rfl
        | array items => rfl
        | object fields => rfl
      change jsonToRex formats adts (fuel + 1) json (.option inner) = _ ↔ _
      rw [step, and_iff_right isNull]
      exact bind_pure_eq_ok (adt_singleton_injective "Some")

theorem not_blank_builtin {value : RexValue formats} {typ : Typ} {id : BuiltinTypeId}
    {args : List Typ} (head : typ.spine [] = (.con (.builtin id), args)) (notOption : id ≠ .option) :
    ¬Blank adts (value, typ) := by
  have notSome : ∀ inner, typ ≠ .option inner := by
    rintro inner rfl
    cases head
    exact notOption rfl
  generalize same : (value, typ) = entry
  rintro (_ | _ | constructs)
  · exact notSome _ (congrArg Prod.snd same)
  · exact notSome _ (congrArg Prod.snd same)
  · cases same
    exact absurd constructs (not_constructs_builtin head)

/-- The other builtin constructors: what they hold is encoded with a name or bare. -/
theorem exists_encodesTo_builtin {tag : Symbol} {value : RexValue formats} {typ partType : Typ}
    {id : BuiltinTypeId} {args : List Typ} (wrap : JsonValue → JsonValue)
    (head : typ.spine [] = (.con (.builtin id), args)) (notOption : id ≠ .option)
    (isPart : TypedValue.parts adts (.adt tag [value], typ) = [(value, partType)])
    (each : ∃ json, EncodesTo adts (value, partType) json)
    (notNull : ∀ json, EncodesTo adts (value, partType) json → wrap json ≠ .null)
    (encodes : ∀ fuel json, rexToJson adts fuel value partType = .ok json →
      rexToJson adts (fuel + 1) (.adt tag [value]) typ = .ok (wrap json))
    (decodes : ∀ fuel json, jsonToRex formats adts (fuel + 1) (wrap json) typ = do
      let value ← jsonToRex formats adts fuel json partType
      return .adt tag [value]) :
    ∃ json, EncodesTo adts (.adt tag [value], typ) json := by
  have notSome : ∀ inner, typ ≠ .option inner := by
    rintro inner rfl
    cases head
    exact notOption rfl
  refine exists_encodesTo_one wrap isPart each ?_ encodes ?_
  · exact fun json encodes =>
      iff_of_false (notNull json encodes) (not_blank_builtin head notOption)
  · intro fuel json encodes
    have recoverable : Recoverable adts (.adt tag [value], typ) := by
      refine (recoverable_builtin_iff head).mpr fun payload inner same => ?_
      exact absurd (congrArg Prod.snd same) (notSome inner)
    rw [decodes, and_iff_right recoverable]
    exact bind_pure_eq_ok (adt_singleton_injective tag)

theorem exists_encodesTo_ok {value : RexValue formats} {errorType okType : Typ}
    (each : ∃ json, EncodesTo adts (value, okType) json) :
    ∃ json, EncodesTo adts
      (.adt "Ok" [value], .app (.app (.builtin .result) errorType) okType) json := by
  refine exists_encodesTo_builtin (fun json => .object [("Ok", json)]) rfl nofun rfl each
    (fun _ _ => nofun) ?_ fun _ _ => rfl
  intro fuel json encoded
  change rexToJson adts fuel value okType = _ at encoded
  change (rexToJson adts fuel value okType >>= _) = _
  rw [encoded]
  rfl

theorem exists_encodesTo_err {value : RexValue formats} {errorType okType : Typ}
    (each : ∃ json, EncodesTo adts (value, errorType) json) :
    ∃ json, EncodesTo adts
      (.adt "Err" [value], .app (.app (.builtin .result) errorType) okType) json := by
  refine exists_encodesTo_builtin (fun json => .object [("Err", json)]) rfl nofun rfl each
    (fun _ _ => nofun) ?_ fun _ _ => rfl
  intro fuel json encoded
  change rexToJson adts fuel value errorType = _ at encoded
  change (rexToJson adts fuel value errorType >>= _) = _
  rw [encoded]
  rfl

theorem exists_encodesTo_promise {value : RexValue formats} {inner : Typ}
    (each : ∃ json, EncodesTo adts (value, .builtin .uuid) json) :
    ∃ json, EncodesTo adts (.adt "Promise" [value], .app (.builtin .promise) inner) json := by
  refine exists_encodesTo_builtin id rfl nofun rfl each ?_ (fun _ _ => id) fun _ _ => rfl
  exact fun json encodes => mt encodes.isNull.mp (not_blank_builtin rfl nofun)

/-! ## Data types -/

theorem valueToJsonForCon_user {name : Symbol} (user : BuiltinTypeId.fromName name = none)
    (encode : RexValue formats → Typ → Except JsonError JsonValue) (value : RexValue formats)
    (args : List Typ) :
    valueToJsonForCon adts encode value name args = valueToJsonForAdt adts encode value name args := by
  unfold valueToJsonForCon
  rw [user]

theorem jsonToValueForCon_user {name : Symbol} (user : BuiltinTypeId.fromName name = none)
    (decode : JsonValue → Typ → Except JsonError (RexValue formats)) (json : JsonValue)
    (args : List Typ) :
    jsonToValueForCon adts decode json name args = jsonToValueForAdt adts decode json name args := by
  unfold jsonToValueForCon
  rw [user]

section Adt

variable {typ : Typ} {tag : Symbol} {fields : List (RexValue formats)} {adt : AdtDecl}
  {variant : AdtVariant} {substitutions : Subst}

theorem lastSegment_of_matches {actual expected : Symbol}
    (isMatch : constructorMatches actual expected = true) :
    lastSegment expected = lastSegment actual := by
  simp only [constructorMatches, Bool.or_eq_true, decide_eq_true_eq, Bool.and_eq_true] at isMatch
  rcases isMatch with rfl | ⟨-, rfl⟩
  · rfl
  · simp only [lastSegment, String.toList_ofList, List.reverse_reverse, String.ofList_inj]
    rw [List.takeWhile_idem]

/-- The first element with a property, if it has a stronger one. -/
theorem find?_of_imp {Element : Type} {weak strong : Element → Bool} {elements : List Element}
    {element : Element} (implies : ∀ element, strong element = true → weak element = true)
    (found : elements.find? weak = some element) (holds : strong element = true) :
    elements.find? strong = some element := by
  induction elements with
  | nil => cases found
  | cons first rest hypothesis =>
      rw [List.find?_cons] at found ⊢
      cases isStrong : strong first with
      | true =>
          rw [implies first isStrong] at found
          exact found
      | false =>
          cases isWeak : weak first with
          | true =>
              rw [isWeak] at found
              cases found
              rw [holds] at isStrong
              cases isStrong
          | false =>
              rw [isWeak] at found
              exact hypothesis found

variable (constructs : Constructs adts typ tag adt variant substitutions)

include constructs

theorem Constructs.parts : TypedValue.parts adts (.adt tag fields, typ) =
    fields.zip (instantiateAdtArgs variant.args substitutions) := by
  obtain ⟨⟨const, args, head, user, found, subst⟩, selected⟩ := constructs
  have fieldTypes : constructorFieldTypes adts tag typ =
      instantiateAdtArgs variant.args substitutions := by
    simp only [constructorFieldTypes, head, user, found, subst, selected]
  rw [← fieldTypes]
  cases typ <;> rfl

theorem Constructs.unique {other : AdtDecl} {otherVariant : AdtVariant} {otherSubst : Subst}
    (constructsOther : Constructs adts typ tag other otherVariant otherSubst) :
    other = adt ∧ otherVariant = variant ∧ otherSubst = substitutions := by
  obtain ⟨⟨const, args, head, user, found, subst⟩, selected⟩ := constructs
  obtain ⟨⟨otherConst, otherArgs, otherHead, -, otherFound, sameSubst⟩, otherSelected⟩ :=
    constructsOther
  rw [head] at otherHead
  cases otherHead
  rw [found] at otherFound
  cases otherFound
  rw [selected] at otherSelected
  cases otherSelected
  rw [subst] at sameSubst
  cases sameSubst
  exact ⟨rfl, rfl, rfl⟩

theorem Constructs.recoverable_iff :
    Recoverable adts (.adt tag fields, typ) ↔ decodedTag adt tag fields = some tag := by
  constructor
  · exact fun kept => kept.2 typ tag fields adt variant substitutions rfl constructs
  · refine fun isTag => ⟨?_, ?_⟩
    · rintro payload inner ⟨⟩
      exact absurd constructs (not_constructs_builtin rfl)
    · rintro _ _ _ other _ _ ⟨⟩ constructsOther
      rw [(constructs.unique constructsOther).1, isTag]

theorem Constructs.rexToJson (fuel : Nat) (length : fields.length = variant.args.length) :
    rexToJson adts (fuel + 1) (.adt tag fields) typ =
      if adt.variants.length = 1 then
        encodeDirectVariant (RexLang.rexToJson adts fuel) tag fields
          (instantiateAdtArgs variant.args substitutions)
      else if fields.isEmpty then .ok (.string (lastSegment tag))
      else do
        let payload ← encodeWrappedVariant (RexLang.rexToJson adts fuel) fields
          (instantiateAdtArgs variant.args substitutions)
        return .object [(lastSegment tag, payload)] := by
  obtain ⟨⟨const, args, head, user, found, subst⟩, selected⟩ := constructs
  have ofSpine : RexLang.rexToJson adts (fuel + 1) (.adt tag fields) typ =
      valueToJsonForCon adts (RexLang.rexToJson adts fuel) (.adt tag fields) const.nameStr args := by
    cases typ with
    | con other =>
        cases head
        rfl
    | app function argument =>
        simp only [RexLang.rexToJson]
        rw [head]
    | var typeVar => cases head
    | func arg ret => cases head
    | tuple items => cases head
    | record fields => cases head
  rw [ofSpine, valueToJsonForCon_user user, valueToJsonForAdt]
  simp only [found, subst, ok_bind, selected]
  change (if fields.length ≠ (instantiateAdtArgs variant.args substitutions).length then _
    else _) = _
  rw [if_neg (by simp [length])]
  rfl

variable (formats) in
/-- The decoding of a data type, by the number of its variants. -/
theorem Constructs.jsonToRex : ∃ name, ∀ fuel json,
    jsonToRex formats adts (fuel + 1) json typ =
      match adt.variants with
      | [variant] => decodeDirectVariant (RexLang.jsonToRex formats adts fuel) json variant.name
          (instantiateAdtArgs variant.args substitutions)
      | _ => decodeVariants (RexLang.jsonToRex formats adts fuel) adt substitutions name json := by
  obtain ⟨⟨const, args, head, user, found, subst⟩, selected⟩ := constructs
  refine ⟨const.nameStr, fun fuel json => ?_⟩
  have ofSpine : RexLang.jsonToRex formats adts (fuel + 1) json typ =
      jsonToValueForCon adts (RexLang.jsonToRex formats adts fuel) json const.nameStr args := by
    cases typ with
    | con other =>
        cases head
        rfl
    | app function argument =>
        simp only [RexLang.jsonToRex]
        rw [head]
    | var typeVar => cases head
    | func arg ret => cases head
    | tuple items => cases head
    | record fields => cases head
  rw [ofSpine, jsonToValueForCon_user user, jsonToValueForAdt]
  simp only [found, subst]
  rfl

omit constructs in
theorem length_eq_one_of_find? {Element : Type} {elements : List Element} {element : Element}
    {property : Element → Bool} (found : elements.find? property = some element)
    (single : elements.length = 1) : elements = [element] := by
  obtain ⟨other, rfl⟩ := List.length_eq_one_iff.mp single
  rw [List.mem_singleton.mp (List.mem_of_find?_eq_some found)]

/-- The variant of a data type with one has the name that the decoder gives it. -/
theorem Constructs.decodedTag_single (length : fields.length = variant.args.length)
    (single : adt.variants.length = 1) : decodedTag adt tag fields = some variant.name := by
  have isMatch := List.find?_some constructs.selected
  rw [decodedTag, length_eq_one_of_find? constructs.selected single, List.find?_cons_of_pos]
  · rfl
  · rw [lastSegment_of_matches isMatch]
    cases fields with
    | nil => simp [List.length_eq_zero_iff.mp length.symm]
    | cons field fields => simp

/-- The payload of a constructor with fields. -/
def variantPayload : List JsonValue → JsonValue
  | [json] => json
  | jsons => .array jsons

omit constructs in
theorem encodeWrappedVariant_ok {encode : RexValue formats → Typ → Except JsonError JsonValue}
    {types : List Typ} {jsons : List JsonValue} (length : fields.length = types.length)
    (nonempty : fields ≠ [])
    (encoded : (fields.zip types).mapM (fun field => encode field.1 field.2) = .ok jsons) :
    encodeWrappedVariant encode fields types = .ok (variantPayload jsons) := by
  match fields, types, length with
  | [field], [typ], _ =>
      obtain ⟨json, rfl⟩ := List.length_eq_one_iff.mp (length_eq_of_mapM encoded)
      exact (mapM_cons_eq_ok.mp encoded).1
  | first :: second :: fields, firstType :: secondType :: types, length =>
      have count := length_eq_of_mapM encoded
      match jsons, count with
      | first :: second :: jsons, _ =>
          exact (bind_pure_eq_ok fun _ _ => JsonValue.array.inj).mpr encoded

omit constructs in
theorem decodeWrappedVariant_eq {decode : JsonValue → Typ → Except JsonError (RexValue formats)}
    {types : List Typ} {jsons : List JsonValue} {name : Symbol}
    (length : jsons.length = types.length) (nonempty : jsons ≠ []) :
    decodeWrappedVariant decode (variantPayload jsons) name types = do
      let fields ← (jsons.zip types).mapM fun field => decode field.1 field.2
      return .adt name fields := by
  match jsons, types, length with
  | [json], [typ], _ =>
      rw [List.zip_cons_cons, List.mapM_cons]
      change (decode json typ >>= _) = _
      cases decode json typ with
      | error error => rfl
      | ok value => rfl
  | first :: second :: jsons, firstType :: secondType :: types, length =>
      change (decodeJsonFields decode (.array (first :: second :: jsons))
        (firstType :: secondType :: types) >>= _) = _
      simp only [decodeJsonFields]
      rw [if_neg (not_not.mpr length)]

omit constructs in
theorem decodeWrappedVariant_iff {decode : JsonValue → Typ → Except JsonError (RexValue formats)}
    {types : List Typ} {jsons : List JsonValue} {name : Symbol}
    (length : jsons.length = types.length) (nonempty : jsons ≠ []) :
    decodeWrappedVariant decode (variantPayload jsons) name types = .ok (.adt tag fields) ↔
      name = tag ∧ (jsons.zip types).mapM (fun field => decode field.1 field.2) = .ok fields := by
  rw [decodeWrappedVariant_eq length nonempty]
  cases (jsons.zip types).mapM fun field => decode field.1 field.2 with
  | error error =>
      change Except.error error = _ ↔ _
      simp
  | ok values =>
      change Except.ok (RexValue.adt name values) = _ ↔ _
      simp

theorem Constructs.blank_iff : Blank adts (.adt tag fields, typ) ↔
    adt.variants.length = 1 ∧ ∃ field fieldType, fields = [field] ∧
      instantiateAdtArgs variant.args substitutions = [fieldType] ∧ Blank adts (field, fieldType) := by
  constructor
  · intro blank
    cases blank with
    | none inner => exact absurd constructs (not_constructs_builtin rfl)
    | some blank => exact absurd constructs (not_constructs_builtin rfl)
    | bare constructsOther single types blank =>
        obtain ⟨rfl, rfl, rfl⟩ := constructs.unique constructsOther
        exact ⟨single, _, _, rfl, types, blank⟩
  · rintro ⟨single, field, fieldType, rfl, types, blank⟩
    exact .bare constructs single types blank

omit constructs in
/-- The name of the variant that the decoder takes for a tag in an object. -/
theorem decodedTag_iff {found : AdtVariant} (nonempty : fields ≠ [])
    (isFirst : adt.variants.find? (fun variant => lastSegment variant.name = lastSegment tag) =
      some found) :
    decodedTag adt tag fields = some tag ↔ found.name = tag := by
  have notEmpty : fields.isEmpty = false := by simpa using nonempty
  simp only [decodedTag, notEmpty, Bool.not_false, Bool.true_or, Bool.true_and]
  rw [isFirst]
  simp

/-- The variant that the decoder takes is the constructed one if it has its name. -/
theorem Constructs.eq_of_decoded {found : AdtVariant}
    (isFirst : adt.variants.find? (fun variant => lastSegment variant.name = lastSegment tag) =
      some found) (same : found.name = tag) : found = variant := by
  have isSelected : adt.variants.find? (fun variant => constructorMatches tag variant.name) =
      some found := by
    refine find?_of_imp (fun other isMatch => ?_) isFirst ?_
    · exact decide_eq_true (lastSegment_of_matches isMatch)
    · simp [constructorMatches, same]
  rw [constructs.selected] at isSelected
  cases isSelected
  rfl

theorem Constructs.local_eq : lastSegment variant.name = lastSegment tag := by
  have isMatch : constructorMatches tag variant.name = true := by
    simpa using List.find?_some constructs.selected
  exact lastSegment_of_matches isMatch

theorem Constructs.find_local : ∃ found,
    adt.variants.find? (fun variant => lastSegment variant.name = lastSegment tag) = some found := by
  refine Option.isSome_iff_exists.mp (List.find?_isSome.mpr ⟨variant, ?_, ?_⟩)
  · exact List.mem_of_find?_eq_some constructs.selected
  · exact decide_eq_true constructs.local_eq

variable (formats) in
/-- The decoding of a data type with several variants. -/
theorem Constructs.jsonToRex_several (several : adt.variants.length ≠ 1) : ∃ name, ∀ fuel json,
    RexLang.jsonToRex formats adts (fuel + 1) json typ =
      decodeVariants (RexLang.jsonToRex formats adts fuel) adt substitutions name json := by
  obtain ⟨name, decode⟩ := constructs.jsonToRex formats
  refine ⟨name, fun fuel json => (decode fuel json).trans ?_⟩
  split
  · next same => simp [same] at several
  · rfl

theorem Constructs.jsonToRex_single (single : adt.variants.length = 1) (fuel : Nat)
    (json : JsonValue) :
    RexLang.jsonToRex formats adts (fuel + 1) json typ =
      decodeDirectVariant (RexLang.jsonToRex formats adts fuel) json variant.name
        (instantiateAdtArgs variant.args substitutions) := by
  obtain ⟨name, decode⟩ := constructs.jsonToRex formats
  rw [decode fuel json, length_eq_one_of_find? constructs.selected single]

/-- A constructor without fields is encoded as its name. -/
theorem exists_encodesTo_unit (noArgs : variant.args = []) :
    ∃ json, EncodesTo adts ((.adt tag [], typ) : TypedValue formats) json := by
  have noTypes : instantiateAdtArgs variant.args substitutions = [] := by
    rw [noArgs]
    rfl
  have length : ([] : List (RexValue formats)).length = variant.args.length := by
    rw [noArgs]
    rfl
  have noParts : TypedValue.parts adts ((.adt tag [], typ) : TypedValue formats) = [] := by
    rw [constructs.parts]
    rfl
  have notBlank : ¬Blank adts ((.adt tag [], typ) : TypedValue formats) := by
    rw [constructs.blank_iff]
    rintro ⟨-, _, _, same, -⟩
    cases same
  refine exists_encodesTo (fun _ => .string (lastSegment tag)) (by simp [noParts])
    (fun _ _ => iff_of_false nofun notBlank) ?_ ?_
  · intro fuel jsons _
    rw [constructs.rexToJson fuel length, noTypes, List.isEmpty_nil, if_pos rfl]
    split_ifs
    · rfl
    · rfl
  · intro fuel jsons encode
    rw [noParts] at encode ⊢
    cases encode
    refine Iff.trans ?_ (and_iff_left rfl).symm
    change RexLang.jsonToRex formats adts (fuel + 1) (.string (lastSegment tag)) typ =
      .ok (.adt tag []) ↔ _
    rw [constructs.recoverable_iff]
    by_cases single : adt.variants.length = 1
    · rw [constructs.jsonToRex_single single, noTypes, constructs.decodedTag_single length single]
      change (if lastSegment tag = lastSegment variant.name then _ else _) = _ ↔ _
      rw [if_pos constructs.local_eq.symm]
      simp
    · obtain ⟨name, decode⟩ := constructs.jsonToRex_several formats single
      rw [decode]
      obtain ⟨found, isFirst⟩ : ∃ found, (adt.variants.find? fun variant =>
          variant.args.isEmpty && lastSegment variant.name = lastSegment tag) = some found := by
        refine Option.isSome_iff_exists.mp (List.find?_isSome.mpr ⟨variant, ?_, ?_⟩)
        · exact List.mem_of_find?_eq_some constructs.selected
        · simp [noArgs, constructs.local_eq]
      simp only [decodeVariants, isFirst, decodedTag, List.isEmpty_nil, Bool.not_true,
        Bool.false_or]
      simp

omit constructs in
theorem name_eq_of_decodeWrappedVariant
    {decode : JsonValue → Typ → Except JsonError (RexValue formats)} {payload : JsonValue}
    {name : Symbol} {types : List Typ}
    (decoded : decodeWrappedVariant decode payload name types = .ok (.adt tag fields)) :
    name = tag := by
  have ofBind : ∀ {Value : Type} {outcome : Except JsonError Value}
      {wrap : Value → List (RexValue formats)},
      (do let value ← outcome; return RexValue.adt name (wrap value)) =
        Except.ok (.adt tag fields) → name = tag := by
    intro Value outcome wrap decoded
    cases outcome with
    | error error => cases decoded
    | ok value =>
        cases decoded
        rfl
  match types with
  | [] =>
      cases decoded
      rfl
  | [typ] => exact ofBind decoded
  | first :: second :: types => exact ofBind decoded

/-- The parts of a constructor with fields, and what is encoded and decoded of them. -/
theorem Constructs.parts_maps (length : fields.length = variant.args.length) :
    (TypedValue.parts adts (.adt tag fields, typ)).map Prod.fst = fields ∧
      (TypedValue.parts adts (.adt tag fields, typ)).map Prod.snd =
        instantiateAdtArgs variant.args substitutions := by
  rw [constructs.parts]
  exact ⟨List.map_fst_zip (by simp [length]), List.map_snd_zip (by simp [length])⟩

theorem exists_encodesTo_single (length : fields.length = variant.args.length)
    (nonempty : fields ≠ []) (single : adt.variants.length = 1)
    (each : ∀ part ∈ TypedValue.parts adts (.adt tag fields, typ),
      ∃ json, EncodesTo adts part json) :
    ∃ json, EncodesTo adts (.adt tag fields, typ) json := by
  have typesLength : fields.length = (instantiateAdtArgs variant.args substitutions).length := by
    simp [length]
  obtain ⟨isValues, isTypes⟩ := constructs.parts_maps length
  refine exists_encodesTo variantPayload each ?_ ?_ ?_
  · intro jsons encode
    rw [constructs.blank_iff, and_iff_right single]
    rw [constructs.parts] at encode
    generalize instantiateAdtArgs variant.args substitutions = types at *
    match fields, types, typesLength, nonempty with
    | [field], [fieldType], _, _ =>
        cases encode with
        | cons encodes rest =>
            cases rest
            refine encodes.isNull.trans ⟨fun blank => ⟨_, _, rfl, rfl, blank⟩, ?_⟩
            rintro ⟨_, _, ⟨⟩, ⟨⟩, blank⟩
            exact blank
    | first :: second :: fields, firstType :: secondType :: types, _, _ =>
        cases encode with
        | cons encodes rest =>
            cases rest with
            | cons encodesSecond rest =>
                refine iff_of_false nofun ?_
                rintro ⟨_, _, ⟨⟩, -⟩
  · intro fuel jsons encoded
    rw [constructs.parts] at encoded
    rw [constructs.rexToJson fuel length, if_pos single]
    generalize instantiateAdtArgs variant.args substitutions = types at *
    cases types with
    | nil => exact absurd (List.length_eq_zero_iff.mp typesLength) nonempty
    | cons first types => exact encodeWrappedVariant_ok typesLength nonempty encoded
  · intro fuel jsons encode
    have count : jsons.length = (instantiateAdtArgs variant.args substitutions).length := by
      rw [← encode.length_eq, ← isTypes, List.length_map]
    have someJsons : jsons ≠ [] := by
      rintro rfl
      exact nonempty (List.length_eq_zero_iff.mp (typesLength.trans count.symm))
    rw [isValues, isTypes]
    change RexLang.jsonToRex formats adts (fuel + 1) _ typ = .ok (.adt tag fields) ↔ _
    rw [constructs.jsonToRex_single single, constructs.recoverable_iff,
      constructs.decodedTag_single length single, Option.some.injEq,
      ← decodeWrappedVariant_iff count someJsons]
    generalize instantiateAdtArgs variant.args substitutions = types at *
    cases types with
    | nil => exact absurd (List.length_eq_zero_iff.mp typesLength) nonempty
    | cons first types => rfl

theorem exists_encodesTo_several (length : fields.length = variant.args.length)
    (nonempty : fields ≠ []) (several : adt.variants.length ≠ 1)
    (each : ∀ part ∈ TypedValue.parts adts (.adt tag fields, typ),
      ∃ json, EncodesTo adts part json) :
    ∃ json, EncodesTo adts (.adt tag fields, typ) json := by
  have typesLength : fields.length = (instantiateAdtArgs variant.args substitutions).length := by
    simp [length]
  obtain ⟨isValues, isTypes⟩ := constructs.parts_maps length
  refine exists_encodesTo (fun jsons => .object [(lastSegment tag, variantPayload jsons)]) each
    ?_ ?_ ?_
  · exact fun _ _ => iff_of_false nofun fun blank => several (constructs.blank_iff.mp blank).1
  · intro fuel jsons encoded
    rw [constructs.parts] at encoded
    rw [constructs.rexToJson fuel length, if_neg several, if_neg (by simpa using nonempty),
      encodeWrappedVariant_ok typesLength nonempty encoded]
    rfl
  · intro fuel jsons encode
    have count : jsons.length = (instantiateAdtArgs variant.args substitutions).length := by
      rw [← encode.length_eq, ← isTypes, List.length_map]
    have someJsons : jsons ≠ [] := by
      rintro rfl
      exact nonempty (List.length_eq_zero_iff.mp (typesLength.trans count.symm))
    obtain ⟨name, decode⟩ := constructs.jsonToRex_several formats several
    obtain ⟨found, isFirst⟩ := constructs.find_local
    rw [isValues, isTypes]
    change RexLang.jsonToRex formats adts (fuel + 1) _ typ = .ok (.adt tag fields) ↔ _
    rw [decode, constructs.recoverable_iff, decodedTag_iff nonempty isFirst]
    simp only [decodeVariants, decodeTagged, isFirst]
    by_cases same : found.name = tag
    · obtain rfl := constructs.eq_of_decoded isFirst same
      rw [decodeWrappedVariant_iff count someJsons]
    · exact iff_of_false (mt name_eq_of_decodeWrappedVariant same) fun both => same both.1

end Adt

/-! ## Round trip -/

theorem jsonToRex_uuid (fuel : Nat) (json : JsonValue) :
    jsonToRex formats adts (fuel + 1) json (.builtin .uuid) =
      match formats.deserializeUuid json with
      | .ok value => .ok (.uuid value)
      | .error error => .error (.custom ("invalid uuid JSON: " ++ error)) :=
  rfl

theorem jsonToRex_dateTime (fuel : Nat) (json : JsonValue) :
    jsonToRex formats adts (fuel + 1) json (.builtin .dateTime) =
      match formats.deserializeDateTime json with
      | .ok value => .ok (.dateTime value)
      | .error error => .error (.custom ("invalid datetime JSON: " ++ error)) :=
  rfl

theorem jsonToRex_hash (fuel : Nat) (text : String) :
    jsonToRex formats adts (fuel + 1) (.string text) (.builtin .hash) =
      match formats.fromHex text with
      | .ok value => .ok (.hash value)
      | .error error => .error (.custom ("invalid hash JSON: " ++ error)) :=
  rfl

theorem jsonToRex_char (fuel : Nat) (text : String) :
    jsonToRex formats adts (fuel + 1) (.string text) (.builtin .char) =
      match text.toList with
      | [char] => .ok (.char char)
      | [] => .error (.custom
          "invalid Char JSON: expected exactly one Unicode scalar value, got none")
      | _ => .error (.custom
          "invalid Char JSON: expected exactly one Unicode scalar value, got more than one") :=
  rfl

theorem exists_encodesTo_uuid (lawful : formats.Lawful) (value : formats.Uuid) :
    ∃ json, EncodesTo adts ((.uuid value, .builtin .uuid) : TypedValue formats) json := by
  obtain ⟨text, serialized, deserialized⟩ := lawful.uuid value
  refine exists_encodesTo_scalar (.string text) nofun rfl nofun ?_ ?_
  · intro fuel
    change (formats.serializeUuid value).mapError _ = _
    rw [serialized]
    rfl
  · intro fuel
    rw [jsonToRex_uuid, deserialized]

theorem exists_encodesTo_dateTime (lawful : formats.Lawful) (value : formats.DateTime) :
    ∃ json, EncodesTo adts ((.dateTime value, .builtin .dateTime) : TypedValue formats) json := by
  obtain ⟨text, serialized, deserialized⟩ := lawful.dateTime value
  refine exists_encodesTo_scalar (.string text) nofun rfl nofun ?_ ?_
  · intro fuel
    change (formats.serializeDateTime value).mapError _ = _
    rw [serialized]
    rfl
  · intro fuel
    rw [jsonToRex_dateTime, deserialized]

theorem exists_encodesTo_hash (lawful : formats.Lawful) (value : formats.Hash) :
    ∃ json, EncodesTo adts ((.hash value, .builtin .hash) : TypedValue formats) json := by
  refine exists_encodesTo_scalar (.string (formats.toHex value)) nofun rfl nofun (fun _ => rfl) ?_
  intro fuel
  rw [jsonToRex_hash, lawful.hash]

theorem exists_encodesTo_f32 {value : F32} (finite : value.isFinite) :
    ∃ json, EncodesTo adts ((.f32 value, .builtin .f32) : TypedValue formats) json := by
  obtain ⟨wideFinite, same⟩ := F32.toF32_toF64 finite
  refine exists_encodesTo_scalar (.number (.float value.toF64)) nofun rfl nofun ?_ ?_
  · intro fuel
    change Except.ok ((JsonNumber.ofF64 value.toF64).elim JsonValue.null .number) = _
    rw [JsonNumber.ofF64, if_pos wideFinite]
    rfl
  · intro fuel
    change Except.ok (RexValue.f32 value.toF64.toF32) = _
    rw [same]

theorem exists_encodesTo_f64 {value : F64} (finite : value.isFinite) :
    ∃ json, EncodesTo adts ((.f64 value, .builtin .f64) : TypedValue formats) json := by
  refine exists_encodesTo_scalar (.number (.float value)) nofun rfl nofun ?_ fun _ => rfl
  intro fuel
  change Except.ok ((JsonNumber.ofF64 value).elim JsonValue.null .number) = _
  rw [JsonNumber.ofF64, if_pos finite]
  rfl

theorem exists_encodesTo_unsigned {bits : Nat} (narrower : bits ≤ 64) (value : Unsigned bits)
    {wrap : Unsigned bits → RexValue formats} {typ : Typ} (name : String)
    (notAdt : ∀ tag fields, wrap value ≠ .adt tag fields)
    (noParts : TypedValue.parts adts (wrap value, typ) = [])
    (encodes : ∀ fuel, rexToJson adts (fuel + 1) (wrap value) typ =
      .ok (.number (.posInt (value.toU64 narrower))))
    (decodes : ∀ fuel json, jsonToRex formats adts (fuel + 1) json typ = do
      let value ← rangedUnsigned formats bits json name
      return wrap value) :
    ∃ json, EncodesTo adts (wrap value, typ) json := by
  refine exists_encodesTo_scalar (.number (.posInt (value.toU64 narrower))) notAdt noParts nofun
    encodes fun fuel => ?_
  rw [decodes, unsignedRoundTrip]
  rfl

theorem exists_encodesTo_signed {bits : Nat} (narrower : bits ≤ 64) (value : Signed bits)
    {wrap : Signed bits → RexValue formats} {typ : Typ} (name : String)
    (notAdt : ∀ tag fields, wrap value ≠ .adt tag fields)
    (noParts : TypedValue.parts adts (wrap value, typ) = [])
    (encodes : ∀ fuel, rexToJson adts (fuel + 1) (wrap value) typ =
      .ok (.number (.ofI64 (value.toI64 narrower))))
    (decodes : ∀ fuel json, jsonToRex formats adts (fuel + 1) json typ = do
      let value ← rangedSigned formats bits json name
      return wrap value) :
    ∃ json, EncodesTo adts (wrap value, typ) json := by
  refine exists_encodesTo_scalar (.number (.ofI64 (value.toI64 narrower))) notAdt noParts nofun
    encodes fun fuel => ?_
  rw [decodes, signedRoundTrip]
  rfl

theorem ValueHasType.exists_encodesTo (lawful : formats.Lawful) {entry : TypedValue formats}
    (typed : ValueHasType adts entry) : ∃ json, EncodesTo adts entry json := by
  unfold ValueHasType at typed
  induction typed with
  | intro fits _ hypothesis =>
      cases fits with
      | bool value =>
          exact exists_encodesTo_scalar (.bool value) (by simp) rfl (by simp) (fun _ => rfl) fun _ => rfl
      | u8 value =>
          exact exists_encodesTo_unsigned (by decide) value "u8" (by simp) rfl (fun _ => rfl)
            fun _ _ => rfl
      | u16 value =>
          exact exists_encodesTo_unsigned (by decide) value "u16" (by simp) rfl (fun _ => rfl)
            fun _ _ => rfl
      | u32 value =>
          exact exists_encodesTo_unsigned (by decide) value "u32" (by simp) rfl (fun _ => rfl)
            fun _ _ => rfl
      | u64 value =>
          exact exists_encodesTo_scalar (.number (.posInt value)) (by simp) rfl (by simp) (fun _ => rfl)
            fun _ => rfl
      | i8 value =>
          exact exists_encodesTo_signed (by decide) value "i8" (by simp) rfl (fun _ => rfl)
            fun _ _ => rfl
      | i16 value =>
          exact exists_encodesTo_signed (by decide) value "i16" (by simp) rfl (fun _ => rfl)
            fun _ _ => rfl
      | i32 value =>
          exact exists_encodesTo_signed (by decide) value "i32" (by simp) rfl (fun _ => rfl)
            fun _ _ => rfl
      | i64 value =>
          refine exists_encodesTo_scalar (.number (.ofI64 value)) (by simp) rfl (by simp) (fun _ => rfl) ?_
          intro fuel
          change ((JsonNumber.asI64 (.ofI64 value)).elim _ Except.ok >>= _) = _
          rw [JsonNumber.asI64_ofI64]
          rfl
      | f32 finite => exact exists_encodesTo_f32 finite
      | f64 finite => exact exists_encodesTo_f64 finite
      | char value =>
          refine exists_encodesTo_scalar (.string (String.singleton value)) (by simp) rfl (by simp)
            (fun _ => rfl) ?_
          intro fuel
          rw [jsonToRex_char, String.toList_singleton]
      | string value =>
          exact exists_encodesTo_scalar (.string value) (by simp) rfl (by simp) (fun _ => rfl) fun _ => rfl
      | uuid value => exact exists_encodesTo_uuid lawful value
      | hash value => exact exists_encodesTo_hash lawful value
      | dateTime value => exact exists_encodesTo_dateTime lawful value
      | tuple same => exact exists_encodesTo_tuple same hypothesis
      | record ordered same => exact exists_encodesTo_record ordered same hypothesis
      | list items notU8 => exact exists_encodesTo_list notU8 hypothesis
      | bytes bytes isU8 => exact exists_encodesTo_bytes bytes isU8
      | dict elem ordered => exact exists_encodesTo_dict ordered hypothesis
      | none inner => exact exists_encodesTo_none inner
      | some value inner => exact exists_encodesTo_some (hypothesis _ List.mem_cons_self)
      | ok value errorType okType => exact exists_encodesTo_ok (hypothesis _ List.mem_cons_self)
      | err value errorType okType => exact exists_encodesTo_err (hypothesis _ List.mem_cons_self)
      | promise value inner => exact exists_encodesTo_promise (hypothesis _ List.mem_cons_self)
      | @adt typ tag fields adt variant substitutions constructs length =>
          by_cases empty : fields = []
          · subst empty
            exact exists_encodesTo_unit constructs (List.length_eq_zero_iff.mp length.symm)
          · by_cases single : adt.variants.length = 1
            · exact exists_encodesTo_single constructs length empty single hypothesis
            · exact exists_encodesTo_several constructs length empty single hypothesis

/-- Texts stand for ids, times and hashes. -/
def textFormats : ScalarFormats where
  Uuid := String
  Hash := String
  DateTime := String
  serializeUuid text := .ok (.string text)
  deserializeUuid
    | .string text => .ok text
    | _ => .error "invalid type"
  serializeDateTime text := .ok (.string text)
  deserializeDateTime
    | .string text => .ok text
    | _ => .error "invalid type"
  toHex text := text
  fromHex text := .ok text
  displayJson _ := ""

theorem lawful_textFormats : textFormats.Lawful :=
  ⟨fun text => ⟨text, rfl, rfl⟩, fun text => ⟨text, rfl, rfl⟩, fun _ => rfl⟩

/-- `[Some true, None]`. -/
def someTrueNone : TypedValue textFormats :=
  (.list [.adt "Some" [.bool true], .adt "None" []], .list (.option (.builtin .bool)))

theorem hasType_someTrueNone : ValueHasType [] someTrueNone := by
  refine .intro (.list _ rfl) ?_
  rintro part (- | ⟨_, - | ⟨_, ⟨⟩⟩⟩)
  · refine .intro (.some _ _) ?_
    rintro part (- | ⟨_, ⟨⟩⟩)
    exact .intro (.bool true) nofun
  · exact .intro (.none _) nofun

theorem faithful_someTrueNone : Faithful [] someTrueNone := by
  refine .intro (recoverable_of_not_adt nofun) ?_
  rintro part (- | ⟨_, - | ⟨_, ⟨⟩⟩⟩)
  · refine .intro (recoverable_some_iff.mpr (not_blank_builtin rfl nofun)) ?_
    rintro part (- | ⟨_, ⟨⟩⟩)
    exact .intro (recoverable_of_not_adt nofun) nofun
  · refine .intro ((recoverable_builtin_iff rfl).mpr fun _ _ same => ?_) nofun
    simp at same

/-- `Some None`. -/
def someNone : TypedValue textFormats :=
  (.adt "Some" [.adt "None" []], .option (.option (.builtin .bool)))

end RexLang
