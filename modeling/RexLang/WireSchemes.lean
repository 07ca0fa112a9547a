import RexLang.WireRenaming

/-!
# Schemes through the wire format

The encoder names the quantified variables first, and the decoder has a fresh
variable for each of them before it reads a type, so neither meets a new variable
in the types.
-/

namespace RexLang

/-! ## Bound variables -/

theorem unboundIds_eq_nil {bound : List TypeVarId} {types : List Typ} :
    unboundIds bound types = [] ↔ ∀ typ ∈ types, ∀ id ∈ typ.ftv, id ∈ bound := by
  have mem_free (id : TypeVarId) :
      id ∈ types.foldr (fun typ free => typ.ftv ∪ free) ∅ ↔ ∃ typ ∈ types, id ∈ typ.ftv := by
    induction types with
    | nil => simp
    | cons typ types hypothesis => simp [hypothesis]
  simp only [unboundIds, List.eq_nil_iff_forall_not_mem, Finset.mem_sort, Finset.mem_sdiff,
    mem_free, List.mem_toFinset, not_and, not_not]
  constructor
  · exact fun closed typ member id inside => closed id ⟨typ, member, inside⟩
  · rintro closed id ⟨typ, member, inside⟩
    exact closed typ member id inside

section Encoder

variable {bound : TypeVarId → Prop}

/-- The naming has a name for every bound id. -/
def TypeVarNamer.Knows (bound : TypeVarId → Prop) (namer : TypeVarNamer) : Prop :=
  ∀ id, bound id → (namer.byId.lookup id).isSome

/-- A variable with a name is not named again. -/
theorem nameable_of_known (Invariant : TypeVarNamer → Prop) {var : TypeVar} (isBound : bound var.id) :
    Nameable (fun namer => Invariant namer ∧ namer.Knows bound) var := by
  intro namer holds
  obtain ⟨name, found⟩ := Option.isSome_iff_exists.mp (holds.2 var.id isBound)
  rw [TypeVarNamer.nameFor, found]
  exact holds

/-- Actions that name nothing new, one after the other. -/
theorem namesAs_each {Invariant : TypeVarNamer → Prop} {First Second : Type} {list : List First}
    {action : First → StateM TypeVarNamer Second} {shape : First → (TypeVarId → String) → Second}
    (each : ∀ entry ∈ list, NamesAs Invariant (action entry) (shape entry) (fun _ => False)) :
    NamesAs Invariant (list.mapM action) (fun names => list.map (shape · names))
      (fun _ => False) :=
  (namesAs_mapM each).congr (fun _ => rfl) fun _ (covered : False) => covered.elim

/-- Once the bound ids have names, the encoder writes the shape of a closed type. -/
theorem namesAs_closed {Invariant : TypeVarNamer → Prop} {typ : Typ} {var : TypeVar → Prop} {con : TypeConst → Prop}
    {labels : List Symbol → Prop} (every : typ.Every var con labels)
    (closed : ∀ id ∈ typ.ftv, bound id) :
    NamesAs (fun namer => Invariant namer ∧ namer.Knows bound) (fromTypeWithNamer typ)
      (wireShape · typ) (fun _ => False) :=
  (namesAs_fromType ((every.bound closed).mono fun _ isBound => nameable_of_known Invariant isBound)).congr
    (fun _ => rfl) fun _ (covered : False) => covered.elim

end Encoder

section Decoder

variable {names : TypeVarId → String} {bound : TypeVarId → Prop}

/-- The decoder reads the shape of a closed type. -/
theorem decodesAs_closed {typ : Typ} {var : TypeVar → Prop}
    (every : typ.Every var TypeConst.WellNamed LabelsNamed) (closed : ∀ id ∈ typ.ftv, bound id)
    (named : ∀ id, bound id → isBlank (names id) = false) :
    DecodesAs names bound (toTypeWithCtx (wireShape names typ)) (fun assign => typ.rename assign)
      (fun _ => False) :=
  (decodesAs_wireShape (every.bound fun id inside =>
    And.intro (named id (closed id inside)) (closed id inside))).congr (fun _ => rfl)
      fun _ (covered : False) => covered.elim

/-- Actions one after the other. -/
theorem decodesAs_each {First Second : Type} {list : List First} {action : First → Decode Second}
    {value : First → (TypeVarId → TypeVar) → Second}
    (each : ∀ entry ∈ list, DecodesAs names bound (action entry) (value entry) (fun _ => False)) :
    DecodesAs names bound (list.mapM action) (fun assign => list.map (value · assign))
      (fun _ => False) :=
  (decodesAs_mapM each).congr (fun _ => rfl) fun _ (covered : False) => covered.elim

end Decoder

namespace TypeDecodeCtx

/-- The context with a fresh variable for each of the names. -/
def declareAll (ctx : TypeDecodeCtx) (names : List String) : TypeDecodeCtx :=
  names.foldl declare ctx

theorem valid_of_empty (supply : TypeVarSupply) (allowFreeVars : Bool) :
    Valid ⟨supply, [], allowFreeVars⟩ where
  named _ _ found := nomatch found
  below _ _ found := nomatch found
  injective _ _ _ _ found := nomatch found

theorem allowFreeVars_declareAll (ctx : TypeDecodeCtx) (names : List String) :
    (ctx.declareAll names).allowFreeVars = ctx.allowFreeVars := by
  induction names generalizing ctx with
  | nil => rfl
  | cons name names hypothesis => exact hypothesis (ctx.declare name)

variable {ctx : TypeDecodeCtx} {names : List String}

theorem Valid.declareAll (valid : ctx.Valid) : (ctx.declareAll names).Valid := by
  induction names generalizing ctx with
  | nil => exact valid
  | cons name names hypothesis => exact hypothesis (valid.declare name)

/-- The names are different, and new for the context. -/
def New (ctx : TypeDecodeCtx) (names : List String) : Prop :=
  names.Nodup ∧ ∀ name ∈ names, ctx.varsByName.lookup name = none

theorem New.declare {name : String} (new : ctx.New (name :: names)) :
    (ctx.declare name).New names := by
  obtain ⟨distinct, isNew⟩ := new
  rw [List.nodup_cons] at distinct
  refine ⟨distinct.2, fun other member => ?_⟩
  have different : other ≠ name := by
    rintro rfl
    exact distinct.1 member
  rw [TypeDecodeCtx.declare, lookup_insert, if_neg different]
  exact isNew other (.tail _ member)

theorem extends_declareAll (new : ctx.New names) : ctx.Extends (ctx.declareAll names) := by
  induction names generalizing ctx with
  | nil => exact .refl ctx
  | cons name names hypothesis =>
      exact (extends_declare (new.2 name List.mem_cons_self)).trans (hypothesis new.declare)

theorem lookup_declareAll_head {name : String} (new : ctx.New (name :: names)) :
    (ctx.declareAll (name :: names)).varsByName.lookup name =
      some (ctx.supply.fresh (some name)).1 :=
  extends_declareAll new.declare name _ (ctx.lookup_declare name)

theorem varOf_declareAll_head {name : String} (new : ctx.New (name :: names)) :
    (ctx.declareAll (name :: names)).varOf name = (ctx.supply.fresh (some name)).1 := by
  rw [varOf, lookup_declareAll_head new, Option.getD_some]

theorem isSome_lookup_declareAll (new : ctx.New names) {name : String} (member : name ∈ names) :
    ((ctx.declareAll names).varsByName.lookup name).isSome := by
  induction names generalizing ctx with
  | nil => cases member
  | cons head names hypothesis =>
      obtain rfl | member := List.mem_cons.mp member
      · rw [lookup_declareAll_head new]
        rfl
      · exact hypothesis new.declare member

end TypeDecodeCtx

/-- The decoder declares the quantified variables. -/
theorem toSchemeVars_eq {ctx : TypeDecodeCtx} {names : List String} (new : ctx.New names)
    (named : ∀ name ∈ names, isBlank name = false) :
    toSchemeVars (names.map .mk) ctx.varsByName ctx.supply =
      .ok (names.map (ctx.declareAll names).varOf, (ctx.declareAll names).varsByName,
        (ctx.declareAll names).supply) := by
  induction names generalizing ctx with
  | nil => rfl
  | cons name names hypothesis =>
      have rest := hypothesis new.declare fun other member => named other (.tail _ member)
      rw [List.map_cons, toSchemeVars, validateName_of_named (named name List.mem_cons_self)]
      change (ensure _ _ >>= fun _ => _ >>= _) = _
      rw [ensure_of (new.2 name List.mem_cons_self)]
      change (toSchemeVars (names.map .mk) (ctx.declare name).varsByName
        (ctx.declare name).supply >>= _) = _
      rw [rest, List.map_cons, TypeDecodeCtx.varOf_declareAll_head new]
      rfl

/-! ## Schemes -/

namespace Scheme

/-- The encoding of a scheme under a fixed naming. -/
def wireShape (names : TypeVarId → String) (scheme : Scheme) : WireScheme :=
  ⟨scheme.vars.map fun var => ⟨names var.id⟩,
    scheme.preds.map fun pred => ⟨pred.className, RexLang.wireShape names pred.typ⟩,
    RexLang.wireShape names scheme.typ⟩

/-- Its names are those of a scheme that the decoder takes: the quantified variables
are different and have no blank display name, no class name is blank, and neither is a
name in a type. -/
structure WellNamed (scheme : Scheme) : Prop where
  distinct : (scheme.vars.map (·.id)).Nodup
  displayed : ∀ var ∈ scheme.vars, TypeVarNamer.Displayed var
  classes : ∀ pred ∈ scheme.preds, isBlank pred.className = false
  preds : ∀ pred ∈ scheme.preds, pred.typ.Every (fun _ => True) TypeConst.WellNamed LabelsNamed
  typ : scheme.typ.Every (fun _ => True) TypeConst.WellNamed LabelsNamed

/-- No type of the scheme has an unquantified variable. -/
structure Closed (scheme : Scheme) : Prop where
  preds : ∀ pred ∈ scheme.preds, ∀ id ∈ pred.typ.ftv, scheme.Quantifies id
  typ : ∀ id ∈ scheme.typ.ftv, scheme.Quantifies id

variable {scheme : Scheme}

theorem closed_iff :
    unboundIds (scheme.vars.map (·.id)) (scheme.typ :: scheme.preds.map (·.typ)) = [] ↔
      scheme.Closed := by
  rw [unboundIds_eq_nil]
  constructor
  · intro closed
    exact ⟨fun pred member => closed _ (.tail _ (List.mem_map_of_mem member)),
      closed _ List.mem_cons_self⟩
  · intro closed typ member
    obtain rfl | member := List.mem_cons.mp member
    · exact closed.typ
    · obtain ⟨pred, isPred, rfl⟩ := List.mem_map.mp member
      exact closed.preds pred isPred

/-- The encoder takes the schemes without unquantified variables. -/
theorem tryFromScheme_eq_ok {wire : WireScheme} :
    WireScheme.tryFromScheme scheme = .ok wire ↔
      scheme.Closed ∧ wire = (WireScheme.fromScheme scheme .default).1 := by
  rw [WireScheme.tryFromScheme, ← closed_iff]
  split
  · next unbound => simp [unbound]
  · next closed => simp [not_not.mp closed, eq_comm]

/-- The encoder writes the shape of a closed scheme. -/
theorem fromScheme_shape {Invariant : TypeVarNamer → Prop} (closed : scheme.Closed)
    {var : TypeVar → Prop} {con : TypeConst → Prop} {labels : List Symbol → Prop}
    (everyPred : ∀ pred ∈ scheme.preds, pred.typ.Every var con labels)
    (everyTyp : scheme.typ.Every var con labels)
    (nameable : ∀ var ∈ scheme.vars, Nameable Invariant var) {namer : TypeVarNamer}
    (holds : Invariant namer) :
    ∃ later : TypeVarNamer, Invariant later ∧ later.Knows scheme.Quantifies ∧
      (WireScheme.fromScheme scheme namer).1 = scheme.wireShape later.nameOf := by
  obtain ⟨holdsVars, -, known, shapeVars⟩ :=
    namesAs_mapM (fun var member => namesAs_nameFor (nameable var member)) namer holds
  generalize isVars :
    scheme.vars.mapM (m := StateM TypeVarNamer) TypeVarNamer.nameFor namer = named at *
  have quantified : named.2.Knows scheme.Quantifies := by
    intro id isQuantified
    obtain ⟨typeVar, member, rfl⟩ := List.mem_map.mp isQuantified
    exact known _ ⟨typeVar, member, rfl⟩
  let action : StateM TypeVarNamer WireScheme := do
    let constraints ← scheme.preds.mapM fun pred =>
      return ⟨pred.className, ← fromTypeWithNamer pred.typ⟩
    return ⟨named.1.map .mk, constraints, ← fromTypeWithNamer scheme.typ⟩
  have rest : NamesAs (fun namer => Invariant namer ∧ namer.Knows scheme.Quantifies) action
      (fun names => ⟨named.1.map .mk,
        scheme.preds.map fun pred => ⟨pred.className, RexLang.wireShape names pred.typ⟩,
        RexLang.wireShape names scheme.typ⟩) (fun _ => False) :=
    ((namesAs_each fun pred member => (namesAs_closed (everyPred pred member)
      (closed.preds pred member)).map (WirePredicate.mk pred.className)).bind fun constraints =>
        (namesAs_closed everyTyp closed.typ).map
          (WireScheme.mk (named.1.map .mk) constraints)).congr
      (fun _ => rfl) fun _ (covered : False) => covered.elim
  obtain ⟨⟨holdsLater, knows⟩, extends_, -, shaped⟩ := rest named.2 ⟨holdsVars, quantified⟩
  have runs : WireScheme.fromScheme scheme namer = action named.2 := by
    subst isVars
    rfl
  rw [runs]
  refine ⟨_, holdsLater, knows, (shaped _ fun _ _ found => found).trans ?_⟩
  have isNamed := shapeVars _ extends_
  generalize (action named.2).2 = later at isNamed
  rw [Scheme.wireShape, isNamed, List.map_map]
  rfl

/-! ## The round trip -/

/-- The names that the encoder gives are the display names of the decoded scheme. -/
theorem WellNamed.exists_toScheme (named : scheme.WellNamed) {wire : WireScheme}
    (accepted : WireScheme.tryFromScheme scheme = .ok wire) (supply : TypeVarSupply) :
    ∃ namer ctx, Renames scheme.Quantifies namer ctx ∧ wire = scheme.wireShape namer.nameOf ∧
      wire.toSchemeWithSupply supply = .ok (scheme.rename (wireVar namer ctx), ctx.supply) := by
  obtain ⟨closed, isWire⟩ := tryFromScheme_eq_ok.1 accepted
  obtain ⟨namer, valid, knows, isShape⟩ := fromScheme_shape closed named.preds named.typ
    (fun var member namer valid => valid.nameFor (.inl (named.displayed var member)))
    TypeVarNamer.valid_default
  rw [isShape] at isWire
  have nameOk : ∀ id, scheme.Quantifies id → isBlank (namer.nameOf id) = false :=
    fun id quantified => valid.named id _ (TypeVarNamer.lookup_nameOf (knows id quantified))
  let names := scheme.vars.map fun var => namer.nameOf var.id
  let start : TypeDecodeCtx := ⟨supply, [], false⟩
  have distinct : names.Nodup := by
    have injective : ∀ id ∈ scheme.vars.map (·.id), ∀ other ∈ scheme.vars.map (·.id),
        namer.nameOf id = namer.nameOf other → id = other := by
      intro id isFirst other isSecond same
      have onFirst := TypeVarNamer.lookup_nameOf (knows id isFirst)
      rw [same] at onFirst
      exact valid.injective id other _ onFirst (TypeVarNamer.lookup_nameOf (knows other isSecond))
    have mapped := named.distinct.map_on injective
    rwa [List.map_map] at mapped
  have new : start.New names := ⟨distinct, fun _ _ => rfl⟩
  have declares := toSchemeVars_eq new fun name member => by
    obtain ⟨var, isVar, rfl⟩ := List.mem_map.mp member
    exact nameOk var.id (List.mem_map_of_mem isVar)
  have declared : ∀ id, scheme.Quantifies id →
      ((start.declareAll names).varsByName.lookup (namer.nameOf id)).isSome := by
    intro id quantified
    obtain ⟨var, isVar, rfl⟩ := List.mem_map.mp quantified
    exact TypeDecodeCtx.isSome_lookup_declareAll new (List.mem_map_of_mem isVar)
  have reads : (start.declareAll names).Reads namer.nameOf scheme.Quantifies :=
    ⟨(TypeDecodeCtx.valid_of_empty _ _).declareAll, fun id quantified =>
      .inr (declared id quantified)⟩
  have decodes : DecodesAs namer.nameOf scheme.Quantifies
      ((scheme.wireShape namer.nameOf).toSchemeWithCtx
        (names.map (start.declareAll names).varOf))
      (fun assign => ⟨names.map (start.declareAll names).varOf,
        scheme.preds.map (Predicate.rename assign), scheme.typ.rename assign⟩)
      (fun _ => False) := by
    rw [WireScheme.toSchemeWithCtx, Scheme.wireShape, List.mapM_map]
    refine ((decodesAs_each fun pred member => .check
      (validateName_of_named (named.classes pred member))
        ((decodesAs_closed (named.preds pred member) (closed.preds pred member) nameOk).map
          (Predicate.mk pred.className))).bind fun preds =>
      (decodesAs_closed named.typ closed.typ nameOk).map (Scheme.mk _ preds)).congr (fun _ => rfl)
        fun _ (covered : False) => covered.elim
  obtain ⟨decoded, ctx, runs, readsLater, extends_, -, isRenamed⟩ := decodes _ reads
  have isVar (id : TypeVarId) (quantified : scheme.Quantifies id) :
      ctx.varOf (namer.nameOf id) = (start.declareAll names).varOf (namer.nameOf id) := by
    rw [TypeDecodeCtx.varOf, extends_ _ _ (TypeDecodeCtx.lookup_varOf (declared id quantified)),
      Option.getD_some]
  refine ⟨namer, ctx, ⟨valid, knows, readsLater.valid, fun id quantified => ?_⟩, isWire, ?_⟩
  · exact Option.isSome_iff_exists.mpr
      ⟨_, extends_ _ _ (TypeDecodeCtx.lookup_varOf (declared id quantified))⟩
  · have vars : names.map (start.declareAll names).varOf =
        scheme.vars.map (wireVar namer ctx ·.id) := by
      rw [List.map_map]
      exact List.map_congr_left fun var member =>
        (isVar var.id (List.mem_map_of_mem member)).symm
    have wires : (scheme.wireShape namer.nameOf).vars = names.map .mk := by
      rw [List.map_map]
      rfl
    have afterVars : toSchemeVars (names.map .mk) [] supply = _ := declares
    rw [isWire, WireScheme.toSchemeWithSupply, wires, afterVars]
    change ((scheme.wireShape namer.nameOf).toSchemeWithCtx
      (names.map (start.declareAll names).varOf) ⟨(start.declareAll names).supply,
        (start.declareAll names).varsByName, start.allowFreeVars⟩ >>= _) = _
    rw [← start.allowFreeVars_declareAll names, runs, isRenamed ctx (.refl ctx), vars]
    rfl

/-- The second encoding accepts the decoded scheme and writes the same wire form. -/
theorem WellNamed.tryFromScheme_rename (named : scheme.WellNamed) (closed : scheme.Closed)
    {namer : TypeVarNamer} {ctx : TypeDecodeCtx} (renames : Renames scheme.Quantifies namer ctx) :
    WireScheme.tryFromScheme (scheme.rename (wireVar namer ctx)) =
      .ok (scheme.wireShape namer.nameOf) := by
  have quantifies {id : TypeVarId} (quantified : scheme.Quantifies id) :
      (scheme.rename (wireVar namer ctx)).Quantifies (wireVar namer ctx id).id := by
    obtain ⟨var, member, rfl⟩ := List.mem_map.mp quantified
    exact List.mem_map_of_mem (List.mem_map_of_mem member)
  have closedTyp {typ : Typ} (quantified : ∀ id ∈ typ.ftv, scheme.Quantifies id) :
      ∀ id ∈ (typ.rename (wireVar namer ctx)).ftv,
        (scheme.rename (wireVar namer ctx)).Quantifies id := by
    intro id inside
    obtain ⟨other, member, rfl⟩ := Typ.mem_ftv_rename.mp inside
    exact quantifies (quantified other member)
  have closedRename : (scheme.rename (wireVar namer ctx)).Closed := by
    refine ⟨fun pred member => ?_, closedTyp closed.typ⟩
    obtain ⟨original, isOriginal, rfl⟩ := List.mem_map.mp member
    exact closedTyp (closed.preds original isOriginal)
  have everyPred : ∀ pred ∈ (scheme.rename (wireVar namer ctx)).preds,
      pred.typ.Every (fun _ => True) TypeConst.WellNamed LabelsNamed := by
    intro pred member
    obtain ⟨original, isOriginal, rfl⟩ := List.mem_map.mp member
    exact (named.preds original isOriginal).rename fun _ _ => trivial
  have start : TypeVarNamer.default.Honest ctx := .default
  obtain ⟨later, honest, knows, isShape⟩ := fromScheme_shape closedRename everyPred
    (named.typ.rename fun _ _ => trivial) (fun var member => by
      obtain ⟨original, isOriginal, rfl⟩ := List.mem_map.mp member
      exact nameable_wireVar renames (List.mem_map_of_mem isOriginal)) start
  refine tryFromScheme_eq_ok.2 ⟨closedRename, ?_⟩
  have known : ∀ id, scheme.Quantifies id →
      (later.byId.lookup (wireVar namer ctx id).id).isSome :=
    fun id quantified => knows _ (quantifies quantified)
  rw [isShape, wireShape, wireShape, rename, renames.wireShape_rename honest known closed.typ]
  simp only [List.map_map, WireScheme.mk.injEq, and_true]
  constructor
  · refine List.map_congr_left fun var member => ?_
    simp only [Function.comp_apply, renames.nameOf_wireVar honest known
      (List.mem_map_of_mem member)]
  · refine List.map_congr_left fun pred member => ?_
    simp only [Function.comp_apply, Predicate.rename,
      renames.wireShape_rename honest known (closed.preds pred member)]

end Scheme

end RexLang
