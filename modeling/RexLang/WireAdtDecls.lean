import RexLang.WireSchemes

/-!
# Declarations through the wire format

The encoder binds the variables of the parameters to the names of the parameters
before it writes a type, and the decoder makes them again from these names.
-/

namespace RexLang

/-! ## Types and labels of a declaration -/

namespace AdtArgument

/-- The types of the fields. -/
def types : AdtArgument → List Typ
  | .positional typ _ => [typ]
  | .record fields _ => fields.map (·.typ)

/-- The labels of the fields. -/
def labels : AdtArgument → List Symbol
  | .positional _ _ => []
  | .record fields _ => fields.map (·.name)

theorem mem_ftv_typ {arg : AdtArgument} {id : TypeVarId} :
    id ∈ arg.typ.ftv ↔ ∃ typ ∈ arg.types, id ∈ typ.ftv := by
  cases arg with
  | positional typ docs => simp [AdtArgument.typ, types]
  | record fields docs =>
      simp [AdtArgument.typ, types, Typ.mkRecord, Typ.ftv, Typ.mem_ftvFields]

theorem types_rename (assign : TypeVarId → TypeVar) (arg : AdtArgument) :
    (arg.rename assign).types = arg.types.map (Typ.rename assign) := by
  cases arg with
  | positional typ docs => rfl
  | record fields docs => simp [AdtArgument.rename, types, AdtField.rename]

/-- The encoding of an argument under a fixed naming. -/
def wireShape (names : TypeVarId → String) : AdtArgument → WireAdtArg
  | .positional typ docs => .positional (RexLang.wireShape names typ) docs
  | .record fields docs =>
      .record (fields.map fun field => ⟨field.name, RexLang.wireShape names field.typ, field.docs⟩)
        docs

end AdtArgument

/-- The encoding of a variant under a fixed naming. -/
def AdtVariant.wireShape (names : TypeVarId → String) (variant : AdtVariant) : WireAdtVariant :=
  ⟨variant.name, variant.args.map (AdtArgument.wireShape names), variant.docs⟩

def AdtParam.toWire (param : AdtParam) : WireAdtParam :=
  ⟨param.name, param.docs⟩

namespace AdtDecl

/-- The encoding of a declaration under a fixed naming. -/
def wireShape (names : TypeVarId → String) (adt : AdtDecl) : WireAdtDecl :=
  ⟨adt.name, adt.params.map AdtParam.toWire, adt.variants.map (AdtVariant.wireShape names),
    adt.docs⟩

/-- A constructor argument of the declaration. -/
def HasArgument (adt : AdtDecl) (arg : AdtArgument) : Prop :=
  ∃ variant ∈ adt.variants, arg ∈ variant.args

/-- Its names are those of a declaration that the decoder takes: none is blank, the
variants are different, so are the labels of every record, and the declaration does not
have the name of a builtin type. -/
structure WellNamed (adt : AdtDecl) : Prop where
  name : isBlank adt.name = false
  notBuiltin : BuiltinTypeId.fromName adt.name = none
  params : ∀ param ∈ adt.params, isBlank param.name = false
  distinct : (adt.variants.map (·.name)).Nodup
  variants : ∀ variant ∈ adt.variants, isBlank variant.name = false
  distinctLabels : ∀ arg, adt.HasArgument arg → arg.labels.Nodup
  labels : ∀ arg, adt.HasArgument arg → ∀ label ∈ arg.labels, isBlank label = false
  types : ∀ arg, adt.HasArgument arg → ∀ typ ∈ arg.types,
    typ.Every (fun _ => True) TypeConst.WellNamed LabelsNamed

/-- Every type variable of a field belongs to a parameter. -/
def Closed (adt : AdtDecl) : Prop :=
  ∀ arg, adt.HasArgument arg → ∀ typ ∈ arg.types, ∀ id ∈ typ.ftv, adt.Binds id

variable {adt : AdtDecl}

theorem closed_iff :
    unboundIds (adt.params.map (·.var.id))
      (adt.variants.flatMap fun variant => variant.args.map AdtArgument.typ) = [] ↔ adt.Closed := by
  rw [unboundIds_eq_nil]
  constructor
  · rintro closed arg ⟨variant, isVariant, isArg⟩ typ member id inside
    exact closed arg.typ (List.mem_flatMap.mpr ⟨variant, isVariant, List.mem_map_of_mem isArg⟩) id
      (AdtArgument.mem_ftv_typ.2 ⟨typ, member, inside⟩)
  · intro closed typ member id inside
    obtain ⟨variant, isVariant, isTyp⟩ := List.mem_flatMap.mp member
    obtain ⟨arg, isArg, rfl⟩ := List.mem_map.mp isTyp
    obtain ⟨typ, isField, inField⟩ := AdtArgument.mem_ftv_typ.1 inside
    exact closed arg ⟨variant, isVariant, isArg⟩ typ isField id inField

theorem hasArgument_rename {assign : TypeVarId → TypeVar} {arg : AdtArgument} :
    (adt.rename assign).HasArgument arg ↔
      ∃ original, adt.HasArgument original ∧ original.rename assign = arg := by
  constructor
  · rintro ⟨_, isVariant, isArg⟩
    obtain ⟨variant, isOriginal, rfl⟩ := List.mem_map.mp isVariant
    obtain ⟨original, isInner, rfl⟩ := List.mem_map.mp isArg
    exact ⟨original, ⟨variant, isOriginal, isInner⟩, rfl⟩
  · rintro ⟨original, ⟨variant, isVariant, isArg⟩, rfl⟩
    exact ⟨_, List.mem_map_of_mem isVariant, List.mem_map_of_mem isArg⟩

end AdtDecl

/-! ## The encoder -/

section Encoder

variable {Invariant : TypeVarNamer → Prop} {bound : TypeVarId → Prop} {var : TypeVar → Prop}
  {con : TypeConst → Prop} {labels : List Symbol → Prop}

theorem namesAs_fromArgument {arg : AdtArgument}
    (every : ∀ typ ∈ arg.types, typ.Every var con labels)
    (closed : ∀ typ ∈ arg.types, ∀ id ∈ typ.ftv, bound id) :
    NamesAs (fun namer => Invariant namer ∧ namer.Knows bound) (fromArgument arg)
      (arg.wireShape ·) (fun _ => False) := by
  cases arg with
  | positional typ docs =>
      have inTypes : typ ∈ (AdtArgument.positional typ docs).types := List.mem_singleton_self typ
      exact (namesAs_closed (every typ inTypes) (closed typ inTypes)).map (WireAdtArg.positional · docs)
  | record fields docs =>
      refine (namesAs_each fun field member => ?_).map (WireAdtArg.record · docs)
      have inTypes : field.typ ∈ (AdtArgument.record fields docs).types := List.mem_map_of_mem member
      exact (namesAs_closed (every field.typ inTypes) (closed field.typ inTypes)).map
        (WireField.mk field.name · field.docs)

theorem namesAs_fromVariants {variants : List AdtVariant}
    (every : ∀ variant ∈ variants, ∀ arg ∈ variant.args, ∀ typ ∈ arg.types,
      typ.Every var con labels)
    (closed : ∀ variant ∈ variants, ∀ arg ∈ variant.args, ∀ typ ∈ arg.types, ∀ id ∈ typ.ftv,
      bound id) :
    NamesAs (fun namer => Invariant namer ∧ namer.Knows bound) (fromVariants variants)
      (fun names => variants.map (AdtVariant.wireShape names)) (fun _ => False) := by
  rw [fromVariants]
  refine namesAs_each fun variant isVariant => ?_
  refine (namesAs_each fun arg isArg => ?_).map (WireAdtVariant.mk variant.name · variant.docs)
  exact namesAs_fromArgument (every variant isVariant arg isArg) (closed variant isVariant arg isArg)

theorem TypeVarNamer.extends_insert {namer : TypeVarNamer} {id : TypeVarId}
    (isNew : namer.byId.lookup id = none) (name : String) (used : Finset String) :
    namer.Extends ⟨(id, name) :: namer.byId, used⟩ := by
  intro other otherName found
  rw [lookup_cons_eq_ite, if_neg, found]
  rintro rfl
  rw [isNew] at found
  cases found

/-- A name that can be bound to a variable: the naming keeps its names. -/
theorem TypeVarNamer.Valid.bindExact {namer later : TypeVarNamer} (valid : namer.Valid)
    {typeVar : TypeVar} {name : String} (named : isBlank name = false)
    (binds : namer.bindExact typeVar name = .ok later) :
    later.Valid ∧ namer.Extends later ∧ later.byId.lookup typeVar.id = some name := by
  rw [TypeVarNamer.bindExact] at binds
  cases isKnown : namer.byId.lookup typeVar.id with
  | some existing =>
      rw [isKnown] at binds
      by_cases same : existing = name
      · simp only [same, if_true, Except.ok.injEq] at binds
        rw [← binds, ← same]
        exact ⟨valid, fun _ _ found => found, isKnown⟩
      · simp [same] at binds
  | none =>
      rw [isKnown] at binds
      by_cases isUsed : name ∈ namer.used
      · simp [isUsed] at binds
      · simp only [isUsed, if_false, Except.ok.injEq] at binds
        rw [← binds]
        exact ⟨valid.insert isUsed named, extends_insert isKnown _ _, by simp⟩

/-- The parameters that the encoder takes have different names, and their variables are
bound to these. -/
theorem valid_bindParams {adt : Symbol} {params : List AdtParam} {seen : Finset String}
    {namer later : TypeVarNamer} {wires : List WireAdtParam} (valid : namer.Valid)
    (named : ∀ param ∈ params, isBlank param.name = false)
    (binds : bindParams adt params seen namer = .ok (wires, later)) :
    later.Valid ∧ namer.Extends later ∧ wires = params.map AdtParam.toWire ∧
      (∀ param ∈ params, later.byId.lookup param.var.id = some param.name) ∧
      (params.map (·.name)).Nodup ∧ ∀ param ∈ params, param.name ∉ seen := by
  induction params generalizing seen namer wires with
  | nil =>
      cases binds
      exact ⟨valid, fun _ _ found => found, rfl, by simp, by simp, by simp⟩
  | cons param params hypothesis =>
      rw [bindParams] at binds
      by_cases isSeen : param.name ∈ seen
      · simp [isSeen] at binds
      · rw [if_neg isSeen] at binds
        obtain ⟨middle, isBound, binds⟩ := exists_of_bind_eq_ok binds
        obtain ⟨⟨wiresRest, last⟩, isRest, binds⟩ := exists_of_bind_eq_ok binds
        cases binds
        obtain ⟨validMiddle, extendsMiddle, isParam⟩ :=
          valid.bindExact (named param List.mem_cons_self) isBound
        obtain ⟨validLast, extendsLast, rfl, areParams, distinct, notSeen⟩ :=
          hypothesis validMiddle (fun other member => named other (.tail _ member)) isRest
        refine ⟨validLast, extendsMiddle.trans extendsLast, rfl, ?_, ?_, ?_⟩
        · intro other member
          obtain rfl | member := List.mem_cons.mp member
          · exact extendsLast _ _ isParam
          · exact areParams other member
        · rw [List.map_cons, List.nodup_cons]
          refine ⟨fun member => ?_, distinct⟩
          obtain ⟨other, isOther, same⟩ := List.mem_map.mp member
          exact notSeen other isOther (by rw [same]; exact Finset.mem_insert_self _ _)
        · intro other member
          obtain rfl | member := List.mem_cons.mp member
          · exact isSeen
          · exact fun inside => notSeen other member (Finset.mem_insert_of_mem inside)

/-- Parameters with different names, whose variables the context has for these, are
bound. -/
theorem honest_bindParams {ctx : TypeDecodeCtx} (validCtx : ctx.Valid) (adt : Symbol)
    {params : List AdtParam} {seen : Finset String} {namer : TypeVarNamer}
    (honest : namer.Honest ctx) (distinct : (params.map (·.name)).Nodup)
    (notSeen : ∀ param ∈ params, param.name ∉ seen)
    (areVars : ∀ param ∈ params, ctx.varsByName.lookup param.name = some param.var) :
    ∃ later, bindParams adt params seen namer = .ok (params.map AdtParam.toWire, later) ∧
      later.Honest ctx ∧ namer.Extends later ∧
      ∀ param ∈ params, (later.byId.lookup param.var.id).isSome := by
  induction params generalizing seen namer with
  | nil => exact ⟨namer, rfl, honest, fun _ _ found => found, by simp⟩
  | cons param params hypothesis =>
      rw [List.map_cons, List.nodup_cons] at distinct
      obtain ⟨middle, isBound, honestMiddle, extendsMiddle, isParam⟩ :=
        honest.bindExact validCtx (areVars param List.mem_cons_self)
      have notSeenRest : ∀ other ∈ params, other.name ∉ insert param.name seen := by
        intro other member inside
        obtain same | before := Finset.mem_insert.mp inside
        · exact distinct.1 (List.mem_map.mpr ⟨other, member, same⟩)
        · exact notSeen other (.tail _ member) before
      obtain ⟨later, isRest, honestLater, extendsLater, known⟩ :=
        hypothesis honestMiddle distinct.2 notSeenRest
          fun other member => areVars other (.tail _ member)
      refine ⟨later, ?_, honestLater, extendsMiddle.trans extendsLater, fun other member => ?_⟩
      · rw [bindParams, if_neg (notSeen param List.mem_cons_self), isBound]
        change (bindParams adt params _ middle >>= _) = _
        rw [isRest]
        rfl
      · obtain rfl | member := List.mem_cons.mp member
        · exact Option.isSome_iff_exists.mpr ⟨_, extendsLater _ _ isParam⟩
        · exact known other member

end Encoder

/-! ## The decoder -/

/-- The decoder declares the variables of the parameters. -/
theorem toAdtParams_eq (adt : String) {ctx : TypeDecodeCtx} {wires : List WireAdtParam}
    (new : ctx.New (wires.map (·.name))) (named : ∀ wire ∈ wires, isBlank wire.name = false) :
    toAdtParams adt wires ctx.varsByName ctx.supply =
      .ok (wires.map fun wire =>
          ⟨wire.name, (ctx.declareAll (wires.map (·.name))).varOf wire.name, wire.docs⟩,
        (ctx.declareAll (wires.map (·.name))).varsByName,
        (ctx.declareAll (wires.map (·.name))).supply) := by
  induction wires generalizing ctx with
  | nil => rfl
  | cons wire wires hypothesis =>
      have rest := hypothesis new.declare fun other member => named other (.tail _ member)
      have isHead := TypeDecodeCtx.varOf_declareAll_head new
      rw [toAdtParams, validateName_of_named (named wire List.mem_cons_self)]
      change (ensure _ _ >>= fun _ => _ >>= _) = _
      rw [ensure_of (new.2 wire.name List.mem_cons_self)]
      change (toAdtParams adt wires (ctx.declare wire.name).varsByName
        (ctx.declare wire.name).supply >>= _) = _
      rw [rest, List.map_cons, List.map_cons, isHead]
      rfl

section Decoder

variable {names : TypeVarId → String} {bound : TypeVarId → Prop}

theorem decodesAs_toAdtFields {fields : List AdtField} {seen : Finset String}
    (distinct : (fields.map (·.name)).Nodup)
    (named : ∀ field ∈ fields, isBlank field.name = false)
    (isNew : ∀ field ∈ fields, field.name ∉ seen)
    (each : ∀ field ∈ fields, DecodesAs names bound (toTypeWithCtx (wireShape names field.typ))
      (fun assign => field.typ.rename assign) (fun _ => False)) :
    DecodesAs names bound
      (toAdtFields (fields.map fun field => ⟨field.name, wireShape names field.typ, field.docs⟩)
        seen)
      (fun assign => fields.map (AdtField.rename assign)) (fun _ => False) := by
  induction fields generalizing seen with
  | nil => exact decodesAs_pure []
  | cons field fields hypothesis =>
      rw [List.map_cons, List.nodup_cons] at distinct
      have isNewRest : ∀ other ∈ fields, other.name ∉ insert field.name seen := by
        intro other member inside
        obtain same | before := Finset.mem_insert.mp inside
        · exact distinct.1 (List.mem_map.mpr ⟨other, member, same⟩)
        · exact isNew other (.tail _ member) before
      have rest := hypothesis distinct.2 (fun other member => named other (.tail _ member))
        isNewRest fun other member => each other (.tail _ member)
      rw [List.map_cons, toAdtFields]
      refine .check (validateName_of_named (named field List.mem_cons_self))
        (.check (ensure_of (isNew field List.mem_cons_self)) ?_)
      exact ((each field List.mem_cons_self).bind fun typ =>
        rest.map ((⟨field.name, typ, field.docs⟩ : AdtField) :: ·)).congr (fun _ => rfl)
          fun _ (covered : False) => covered.elim

theorem decodesAs_toAdtArgument {arg : AdtArgument} (distinct : arg.labels.Nodup)
    (named : ∀ label ∈ arg.labels, isBlank label = false)
    (each : ∀ typ ∈ arg.types, DecodesAs names bound (toTypeWithCtx (wireShape names typ))
      (fun assign => typ.rename assign) (fun _ => False)) :
    DecodesAs names bound (toAdtArgumentWithCtx (arg.wireShape names))
      (fun assign => arg.rename assign) (fun _ => False) := by
  cases arg with
  | positional typ docs =>
      exact (each typ (List.mem_singleton_self typ)).map (AdtArgument.positional · docs)
  | record fields docs =>
      refine (decodesAs_toAdtFields distinct ?_ (by simp) ?_).map (AdtArgument.record · docs)
      · exact fun field member => named field.name (List.mem_map_of_mem member)
      · exact fun field member => each field.typ (List.mem_map_of_mem member)

theorem decodesAs_toAdtVariants (adt : String) {variants : List AdtVariant} {seen : Finset String}
    (distinct : (variants.map (·.name)).Nodup)
    (named : ∀ variant ∈ variants, isBlank variant.name = false)
    (isNew : ∀ variant ∈ variants, variant.name ∉ seen)
    (each : ∀ variant ∈ variants, ∀ arg ∈ variant.args,
      DecodesAs names bound (toAdtArgumentWithCtx (arg.wireShape names))
        (fun assign => arg.rename assign) (fun _ => False)) :
    DecodesAs names bound
      (toAdtVariants adt (variants.map (AdtVariant.wireShape names)) seen)
      (fun assign => variants.map (AdtVariant.rename assign)) (fun _ => False) := by
  induction variants generalizing seen with
  | nil => exact decodesAs_pure []
  | cons variant variants hypothesis =>
      rw [List.map_cons, List.nodup_cons] at distinct
      have isNewRest : ∀ other ∈ variants, other.name ∉ insert variant.name seen := by
        intro other member inside
        obtain same | before := Finset.mem_insert.mp inside
        · exact distinct.1 (List.mem_map.mpr ⟨other, member, same⟩)
        · exact isNew other (.tail _ member) before
      have rest := hypothesis distinct.2 (fun other member => named other (.tail _ member))
        isNewRest fun other member => each other (.tail _ member)
      rw [List.map_cons, toAdtVariants]
      refine .check (validateName_of_named (named variant List.mem_cons_self))
        (.check (ensure_of (isNew variant List.mem_cons_self)) ?_)
      rw [AdtVariant.wireShape, List.mapM_map]
      exact ((decodesAs_each (each variant List.mem_cons_self)).bind fun args =>
        rest.map ((⟨variant.name, args, variant.docs⟩ : AdtVariant) :: ·)).congr (fun _ => rfl)
          fun _ (covered : False) => covered.elim

end Decoder

end RexLang
