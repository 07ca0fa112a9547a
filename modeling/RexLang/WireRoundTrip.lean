import RexLang.WireAdtDecls

/-!
# The round trip through the wire format

A type, an accepted scheme or an accepted declaration whose names the decoder takes
comes back renamed, and its second encoding is the first one.
-/

namespace RexLang

namespace AdtDecl

variable {adt : AdtDecl}

/-- The encoder takes the declarations whose variables are bound by parameters with
different names. -/
theorem tryFromAdtDecl_eq_ok {wire : WireAdtDecl} :
    WireAdtDecl.tryFromAdtDecl adt = .ok wire ↔
      adt.Closed ∧ ∃ params namer,
        bindParams adt.name adt.params ∅ .default = .ok (params, namer) ∧
        wire = ⟨adt.name, params, (fromVariants adt.variants namer).1, adt.docs⟩ := by
  rw [WireAdtDecl.tryFromAdtDecl, ← closed_iff]
  split
  · next unbound => simp [unbound]
  · next closed =>
      rw [bind_eq_ok]
      simp only [not_not.mp closed, true_and, Prod.exists]
      constructor
      · rintro ⟨params, namer, binds, isWire⟩
        cases isWire
        exact ⟨params, namer, binds, rfl⟩
      · rintro ⟨params, namer, binds, rfl⟩
        exact ⟨params, namer, binds, rfl⟩

/-- A naming of the parameters for the encoder, and a context of the decoder with the
variables for these names. -/
theorem WellNamed.exists_toAdtDecl (named : adt.WellNamed) {wire : WireAdtDecl}
    (accepted : WireAdtDecl.tryFromAdtDecl adt = .ok wire) (supply : TypeVarSupply) :
    ∃ namer ctx, Renames adt.Binds namer ctx ∧
      (∀ param ∈ adt.params, namer.nameOf param.var.id = param.name) ∧
      (adt.params.map (·.name)).Nodup ∧ wire = adt.wireShape namer.nameOf ∧
      wire.toAdtDeclWithSupply supply = .ok (adt.rename (wireVar namer ctx), ctx.supply) := by
  obtain ⟨closed, params, namer, binds, isWire⟩ := tryFromAdtDecl_eq_ok.1 accepted
  obtain ⟨valid, -, rfl, areParams, distinct, -⟩ :=
    valid_bindParams TypeVarNamer.valid_default named.params binds
  have knows : namer.Knows adt.Binds := by
    intro id isBound
    obtain ⟨param, member, rfl⟩ := List.mem_map.mp isBound
    exact Option.isSome_iff_exists.mpr ⟨_, areParams param member⟩
  obtain ⟨⟨validLater, knowsLater⟩, extends_, -, shaped⟩ := namesAs_fromVariants
    (fun variant isVariant arg isArg => named.types arg ⟨variant, isVariant, isArg⟩)
    (fun variant isVariant arg isArg => closed arg ⟨variant, isVariant, isArg⟩) namer
    ⟨valid, knows⟩
  have isShape := shaped _ fun _ _ found => found
  generalize (fromVariants adt.variants namer).2 = later at *
  have isParam : ∀ param ∈ adt.params, later.nameOf param.var.id = param.name := by
    intro param member
    rw [TypeVarNamer.nameOf, extends_ _ _ (areParams param member), Option.getD_some]
  have nameOk : ∀ id, adt.Binds id → isBlank (later.nameOf id) = false := by
    intro id isBound
    obtain ⟨param, member, rfl⟩ := List.mem_map.mp isBound
    rw [isParam param member]
    exact named.params param member
  let names := (adt.params.map AdtParam.toWire).map (·.name)
  let start : TypeDecodeCtx := ⟨supply, [], false⟩
  have isNames : names = adt.params.map (·.name) := List.map_map
  have new : start.New names := ⟨isNames ▸ distinct, fun _ _ => rfl⟩
  have declares := toAdtParams_eq adt.name new fun wire member => by
    obtain ⟨param, isOriginal, rfl⟩ := List.mem_map.mp member
    exact named.params param isOriginal
  have declared : ∀ id, adt.Binds id →
      ((start.declareAll names).varsByName.lookup (later.nameOf id)).isSome := by
    intro id isBound
    obtain ⟨param, member, rfl⟩ := List.mem_map.mp isBound
    rw [isParam param member]
    exact TypeDecodeCtx.isSome_lookup_declareAll new (isNames ▸ List.mem_map_of_mem member)
  have reads : (start.declareAll names).Reads later.nameOf adt.Binds :=
    ⟨(TypeDecodeCtx.valid_of_empty _ _).declareAll, fun id isBound => .inr (declared id isBound)⟩
  obtain ⟨variants, ctx, runs, readsLater, extendsCtx, -, isRenamed⟩ :=
    decodesAs_toAdtVariants adt.name named.distinct named.variants
      (fun _ _ => Finset.notMem_empty _)
      (fun variant isVariant arg isArg => decodesAs_toAdtArgument
        (named.distinctLabels arg ⟨variant, isVariant, isArg⟩)
        (named.labels arg ⟨variant, isVariant, isArg⟩) fun typ member =>
          decodesAs_closed (named.types arg ⟨variant, isVariant, isArg⟩ typ member)
            (closed arg ⟨variant, isVariant, isArg⟩ typ member) nameOk) _ reads
  have stillDeclared (id : TypeVarId) (isBound : adt.Binds id) :
      ctx.varsByName.lookup (later.nameOf id) =
        some ((start.declareAll names).varOf (later.nameOf id)) :=
    extendsCtx _ _ (TypeDecodeCtx.lookup_varOf (declared id isBound))
  refine ⟨later, ctx, ⟨validLater, knowsLater, readsLater.valid, fun id isBound =>
    Option.isSome_iff_exists.mpr ⟨_, stillDeclared id isBound⟩⟩, isParam, distinct, ?_, ?_⟩
  · rw [isWire, isShape]
    rfl
  · have params : (adt.params.map AdtParam.toWire).map (fun wire =>
        (⟨wire.name, (start.declareAll names).varOf wire.name, wire.docs⟩ : AdtParam)) =
          adt.params.map (AdtParam.rename (wireVar later ctx)) := by
      rw [List.map_map]
      refine List.map_congr_left fun param member => ?_
      have isVar : wireVar later ctx param.var.id = (start.declareAll names).varOf param.name := by
        rw [wireVar, TypeDecodeCtx.varOf, stillDeclared _ (List.mem_map_of_mem member),
          Option.getD_some, isParam param member]
      rw [AdtParam.rename, isVar]
      rfl
    have afterParams : toAdtParams adt.name (adt.params.map AdtParam.toWire) [] supply = _ := declares
    rw [isWire, isShape, WireAdtDecl.toAdtDeclWithSupply, validateName_of_named named.name]
    change (if (BuiltinTypeId.fromName adt.name).isSome then _ else _) = _
    rw [named.notBuiltin, if_neg (by simp)]
    change (toAdtParams adt.name (adt.params.map AdtParam.toWire) [] supply >>= _) = _
    rw [afterParams, params]
    change (toAdtVariants adt.name (adt.variants.map (AdtVariant.wireShape later.nameOf)) ∅
      ⟨(start.declareAll names).supply, (start.declareAll names).varsByName,
        start.allowFreeVars⟩ >>= _) = _
    rw [← start.allowFreeVars_declareAll names, runs, isRenamed ctx (.refl ctx)]
    rfl

/-- A renamed argument is written as the argument when its types are. -/
theorem wireShape_rename_argument {names namesRenamed : TypeVarId → String}
    {assign : TypeVarId → TypeVar} {arg : AdtArgument}
    (same : ∀ typ ∈ arg.types,
      RexLang.wireShape namesRenamed (typ.rename assign) = RexLang.wireShape names typ) :
    (arg.rename assign).wireShape namesRenamed = arg.wireShape names := by
  cases arg with
  | positional typ docs =>
      rw [AdtArgument.rename, AdtArgument.wireShape, same typ (List.mem_singleton_self typ)]
      rfl
  | record fields docs =>
      rw [AdtArgument.rename, AdtArgument.wireShape, List.map_map]
      refine congrArg (WireAdtArg.record · docs) (List.map_congr_left fun field member => ?_)
      simp only [Function.comp_apply, AdtField.rename, same field.typ (List.mem_map_of_mem member)]

/-- The second encoding accepts the decoded declaration and writes the same wire form. -/
theorem WellNamed.tryFromAdtDecl_rename (named : adt.WellNamed) (closed : adt.Closed)
    {namer : TypeVarNamer} {ctx : TypeDecodeCtx} (renames : Renames adt.Binds namer ctx)
    (isParam : ∀ param ∈ adt.params, namer.nameOf param.var.id = param.name)
    (distinct : (adt.params.map (·.name)).Nodup) :
    WireAdtDecl.tryFromAdtDecl (adt.rename (wireVar namer ctx)) =
      .ok (adt.wireShape namer.nameOf) := by
  have binds {id : TypeVarId} (isBound : adt.Binds id) :
      (adt.rename (wireVar namer ctx)).Binds (wireVar namer ctx id).id := by
    obtain ⟨param, member, rfl⟩ := List.mem_map.mp isBound
    exact List.mem_map_of_mem (List.mem_map_of_mem member)
  have closedRename : (adt.rename (wireVar namer ctx)).Closed := by
    intro arg isArg typ member id inside
    obtain ⟨original, isOriginal, rfl⟩ := hasArgument_rename.mp isArg
    rw [AdtArgument.types_rename] at member
    obtain ⟨typ, isTyp, rfl⟩ := List.mem_map.mp member
    obtain ⟨other, inTyp, rfl⟩ := Typ.mem_ftv_rename.mp inside
    exact binds (closed original isOriginal typ isTyp other inTyp)
  have everyRename : ∀ variant ∈ (adt.rename (wireVar namer ctx)).variants, ∀ arg ∈ variant.args,
      ∀ typ ∈ arg.types, typ.Every (fun _ => True) TypeConst.WellNamed LabelsNamed := by
    intro variant isVariant arg isArg typ member
    obtain ⟨original, isOriginal, rfl⟩ := hasArgument_rename.mp ⟨variant, isVariant, isArg⟩
    rw [AdtArgument.types_rename] at member
    obtain ⟨typ, isTyp, rfl⟩ := List.mem_map.mp member
    exact (named.types original isOriginal typ isTyp).rename fun _ _ => trivial
  have names : (adt.rename (wireVar namer ctx)).params.map (·.name) =
      adt.params.map (·.name) := List.map_map
  have areVars : ∀ param ∈ (adt.rename (wireVar namer ctx)).params,
      ctx.varsByName.lookup param.name = some param.var := by
    intro param member
    obtain ⟨original, isOriginal, rfl⟩ := List.mem_map.mp member
    have isVar := renames.lookup_wireVar (List.mem_map_of_mem isOriginal)
    rwa [isParam original isOriginal] at isVar
  have start : TypeVarNamer.default.Honest ctx := .default
  obtain ⟨bound, isBound, honest, -, areParams⟩ := honest_bindParams renames.vars adt.name start
    (names ▸ distinct) (fun _ _ => Finset.notMem_empty _) areVars
  have knows : bound.Knows (adt.rename (wireVar namer ctx)).Binds := by
    intro id isId
    obtain ⟨param, member, rfl⟩ := List.mem_map.mp isId
    exact areParams param member
  obtain ⟨⟨honestLater, knowsLater⟩, -, -, shaped⟩ := namesAs_fromVariants everyRename
    (fun variant isVariant arg isArg => closedRename arg ⟨variant, isVariant, isArg⟩) bound
    ⟨honest, knows⟩
  have isShape := shaped _ fun _ _ found => found
  refine tryFromAdtDecl_eq_ok.2 ⟨closedRename, _, bound, isBound, ?_⟩
  rw [isShape]
  generalize (fromVariants (adt.rename (wireVar namer ctx)).variants bound).2 = later at *
  have params : (adt.rename (wireVar namer ctx)).params.map AdtParam.toWire =
      adt.params.map AdtParam.toWire := List.map_map
  have variants : (adt.rename (wireVar namer ctx)).variants.map
      (AdtVariant.wireShape later.nameOf) =
        adt.variants.map (AdtVariant.wireShape namer.nameOf) := by
    refine List.map_map.trans (List.map_congr_left fun variant isVariant => ?_)
    refine congrArg (WireAdtVariant.mk variant.name · variant.docs)
      (List.map_map.trans (List.map_congr_left fun arg isArg => ?_))
    exact wireShape_rename_argument fun typ member =>
      renames.wireShape_rename honestLater (fun id isId => knowsLater _ (binds isId))
        (closed arg ⟨variant, isVariant, isArg⟩ typ member)
  rw [params]
  beta_reduce
  rw [variants]
  rfl

end AdtDecl

/-- The wire format keeps types, schemes and declarations whose names the decoder
takes.  Decoding succeeds and renames the type variables, and encoding what was decoded
gives the same wire form, with the same names of variables. -/
theorem wireRoundTrip :
    (∀ typ : Typ, typ.WellNamed → ∃ decoded,
      (WireType.fromType typ).toType = .ok decoded ∧ typ.AlphaEquivalent decoded ∧
        WireType.fromType decoded = WireType.fromType typ) ∧
    (∀ scheme : Scheme, scheme.Closed → scheme.WellNamed → ∃ wire decoded,
      WireScheme.tryFromScheme scheme = .ok wire ∧ wire.toScheme = .ok decoded ∧
        scheme.AlphaEquivalent decoded ∧ WireScheme.tryFromScheme decoded = .ok wire) ∧
    ∀ (adt : AdtDecl) (wire : WireAdtDecl), WireAdtDecl.tryFromAdtDecl adt = .ok wire →
      adt.WellNamed → ∃ decoded, wire.toAdtDecl = .ok decoded ∧ adt.AlphaEquivalent decoded ∧
        WireAdtDecl.tryFromAdtDecl decoded = .ok wire := by
  refine ⟨fun typ named => ?_, fun scheme closed named => ?_, fun adt wire accepted named => ?_⟩
  · obtain ⟨namer, ctx, renames, isShape, decodes⟩ := named.exists_toType
    refine ⟨_, decodes, ⟨_, renames.injOn, rfl⟩, ?_⟩
    rw [isShape, named.fromType_rename renames]
  · have accepted := Scheme.tryFromScheme_eq_ok.mpr ⟨closed, rfl⟩
    obtain ⟨namer, ctx, renames, isShape, decodes⟩ := named.exists_toScheme accepted .new
    refine ⟨_, _, accepted, ?_, ⟨_, renames.injOn, rfl⟩, ?_⟩
    · rw [WireScheme.toScheme, decodes]
      rfl
    · rw [isShape, named.tryFromScheme_rename closed renames]
  · obtain ⟨namer, ctx, renames, isParam, distinct, isShape, decodes⟩ :=
      named.exists_toAdtDecl accepted .new
    refine ⟨_, ?_, ⟨_, renames.injOn, rfl⟩, ?_⟩
    · rw [WireAdtDecl.toAdtDecl, decodes]
      rfl
    · rw [isShape, named.tryFromAdtDecl_rename (AdtDecl.tryFromAdtDecl_eq_ok.1 accepted).1 renames
        isParam distinct]

/-- A higher-kinded variable, a partial application and a full `Result`, with variables
that have the same display name. -/
def displayedAlike : Typ :=
  .func (.app (.var ⟨1, some "a"⟩) (.app (.builtin .result) (.builtin .i32)))
    (.result (.userCon "Tree" 1) (.var ⟨2, some "a"⟩))

/-- The type with its variables quantified. -/
def quantifiedAlike : Scheme :=
  ⟨[⟨2, some "a"⟩, ⟨1, some "a"⟩], [⟨"Show", .var ⟨1, none⟩⟩], displayedAlike⟩

/-- A declaration whose parameter has another name than its variable. -/
def boxDecl : AdtDecl :=
  ⟨"Box", [⟨"content", ⟨7, none⟩, some "what is inside"⟩],
    [⟨"Box", [.record [⟨"value", .var ⟨7, none⟩, none⟩] none], none⟩], none⟩

theorem argument_boxDecl (arg : AdtArgument) (isArg : boxDecl.HasArgument arg) :
    arg = .record [⟨"value", .var ⟨7, none⟩, none⟩] none := by
  simpa [AdtDecl.HasArgument, boxDecl] using isArg

theorem wellNamed_boxDecl : boxDecl.WellNamed := by
  refine ⟨by decide, by decide, by decide, by decide, by decide, ?_, ?_, ?_⟩
  · intro arg isArg
    rw [argument_boxDecl arg isArg]
    decide
  · intro arg isArg
    rw [argument_boxDecl arg isArg]
    decide
  · intro arg isArg typ member
    rw [argument_boxDecl arg isArg] at member
    cases List.mem_singleton.mp member
    exact .var trivial

theorem closed_boxDecl : boxDecl.Closed := by
  intro arg isArg typ member id inside
  rw [argument_boxDecl arg isArg] at member
  cases List.mem_singleton.mp member
  simpa [AdtDecl.Binds, boxDecl, Typ.ftv] using inside

theorem wireRoundTrip_alike :
    (∃ decoded, (WireType.fromType displayedAlike).toType = .ok decoded ∧
      displayedAlike.AlphaEquivalent decoded ∧
        WireType.fromType decoded = WireType.fromType displayedAlike) ∧
    (∃ wire decoded, WireScheme.tryFromScheme quantifiedAlike = .ok wire ∧
      wire.toScheme = .ok decoded ∧ quantifiedAlike.AlphaEquivalent decoded ∧
        WireScheme.tryFromScheme decoded = .ok wire) ∧
    ∃ wire decoded, WireAdtDecl.tryFromAdtDecl boxDecl = .ok wire ∧ wire.toAdtDecl = .ok decoded ∧
      boxDecl.AlphaEquivalent decoded ∧ WireAdtDecl.tryFromAdtDecl decoded = .ok wire := by
  have named {var : TypeVar → Prop} (first : var ⟨1, some "a"⟩) (second : var ⟨2, some "a"⟩) :
      displayedAlike.Every var TypeConst.WellNamed LabelsNamed :=
    .func (.app (.var first) (.app (.con trivial) (.con trivial)))
      (.app (.app (.con trivial) (.var second)) (.con ⟨by decide, by decide⟩))
  have displayed (id : TypeVarId) : TypeVarNamer.Displayed ⟨id, some "a"⟩ := by
    intro name isName
    cases isName
    decide
  refine ⟨wireRoundTrip.1 _ (named (displayed 1) (displayed 2)), wireRoundTrip.2.1 _ ?_ ?_, ?_⟩
  · exact ⟨by simp [quantifiedAlike, Scheme.Quantifies, Typ.ftv],
      by simp [quantifiedAlike, Scheme.Quantifies, displayedAlike, Typ.ftv, Typ.builtin, Typ.result,
        Typ.userCon]⟩
  · refine ⟨by decide, ?_, by simp [quantifiedAlike]; decide, ?_, named trivial trivial⟩
    · simpa [quantifiedAlike] using ⟨displayed 2, displayed 1⟩
    · simpa [quantifiedAlike] using .var trivial
  · have accepted := AdtDecl.tryFromAdtDecl_eq_ok.2 ⟨closed_boxDecl, _, _, rfl, rfl⟩
    obtain ⟨decoded, roundTrip⟩ := wireRoundTrip.2.2 _ _ accepted wellNamed_boxDecl
    exact ⟨_, decoded, accepted, roundTrip⟩

/-- The checks of the decoder: a declared constructor with the name of a builtin one, a
blank name, labels out of order, a variable quantified twice, a declaration with the name
of a builtin type and a variant declared twice. -/
theorem not_wireRoundTrip :
    (¬ ∃ decoded, (WireType.fromType (.userCon "List" 2)).toType = .ok decoded) ∧
    (¬ ∃ decoded, (WireType.fromType (.var ⟨0, some ""⟩)).toType = .ok decoded) ∧
    (¬ ∃ decoded, (WireType.fromType (.record [("b", .builtin .i32), ("a", .builtin .i32)])).toType =
        .ok decoded ∧
      (Typ.record [("b", .builtin .i32), ("a", .builtin .i32)]).AlphaEquivalent decoded) ∧
    (∃ wire, WireScheme.tryFromScheme ⟨[⟨0, none⟩, ⟨0, none⟩], [], .builtin .i32⟩ = .ok wire ∧
      ¬ ∃ decoded, wire.toScheme = .ok decoded) ∧
    (∃ wire, WireAdtDecl.tryFromAdtDecl ⟨"List", [], [], none⟩ = .ok wire ∧
      ¬ ∃ decoded, wire.toAdtDecl = .ok decoded) ∧
    ∃ wire, WireAdtDecl.tryFromAdtDecl ⟨"Pair", [], [⟨"Pair", [], none⟩, ⟨"Pair", [], none⟩],
        none⟩ = .ok wire ∧ ¬ ∃ decoded, wire.toAdtDecl = .ok decoded := by
  refine ⟨?_, ?_, ?_, ?_, ?_, ?_⟩
  · have isWire : WireType.fromType (.userCon "List" 2) = .named "List" 2 [] := by
      rw [WireType.fromType, fromTypeWithNamer, Typ.userCon, fromTypeWith]
      rfl
    rw [isWire, WireType.toType, toTypeWithCtx, toTypesWithCtx]
    rintro ⟨_, ⟨⟩⟩
  · have isWire : WireType.fromType (.var ⟨0, some ""⟩) = .var "" := by
      rw [WireType.fromType, fromTypeWithNamer, fromTypeWith]
      rfl
    rw [isWire, WireType.toType, toTypeWithCtx]
    rintro ⟨_, ⟨⟩⟩
  · have isWire : WireType.fromType (.record [("b", .builtin .i32), ("a", .builtin .i32)]) =
        .record [⟨"b", .builtin "i32" [], none⟩, ⟨"a", .builtin "i32" [], none⟩] := by
      rw [WireType.fromType, fromTypeWithNamer, fromTypeWith, fromFieldsWith, fromFieldsWith,
        fromFieldsWith, Typ.builtin, fromTypeWith]
      rfl
    have sorted : Typ.mkRecord [("b", .builtin .i32), ("a", .builtin .i32)] =
        .record [("a", .builtin .i32), ("b", .builtin .i32)] := by
      simp [Typ.mkRecord, List.mergeSort, List.MergeSort.Internal.splitInTwo]
    rintro ⟨decoded, decodes, assign, -, rfl⟩
    simp only [isWire, WireType.toType, toTypeWithCtx, toFieldsWithCtx, toTypesWithCtx] at decodes
    change Except.ok (Typ.mkRecord [("b", .builtin .i32), ("a", .builtin .i32)]) = _ at decodes
    rw [sorted] at decodes
    simp at decodes
  · refine ⟨_, Scheme.tryFromScheme_eq_ok.mpr ⟨⟨by simp, by simp [Typ.builtin, Typ.ftv]⟩, rfl⟩, ?_⟩
    have isWire : (WireScheme.fromScheme ⟨[⟨0, none⟩, ⟨0, none⟩], [], .builtin .i32⟩ .default).1 =
        ⟨[⟨"t0"⟩, ⟨"t0"⟩], [], .builtin "i32" []⟩ := by
      rw [WireScheme.fromScheme, fromTypeWithNamer, Typ.builtin, fromTypeWith]
      rfl
    rw [isWire]
    rintro ⟨_, ⟨⟩⟩
  · refine ⟨_, AdtDecl.tryFromAdtDecl_eq_ok.2 ⟨by simp [AdtDecl.Closed, AdtDecl.HasArgument],
      _, _, rfl, rfl⟩, ?_⟩
    rintro ⟨_, ⟨⟩⟩
  · refine ⟨_, AdtDecl.tryFromAdtDecl_eq_ok.2 ⟨by simp [AdtDecl.Closed, AdtDecl.HasArgument],
      _, _, rfl, rfl⟩, ?_⟩
    rintro ⟨_, ⟨⟩⟩

end RexLang
