import RexLang.WireNaming

/-!
# What the decoder reads

An action of the decoder extends the variables of the context and returns the
value that any later context gives.  On the shape of a type under a naming it
returns the type with each variable replaced by the one that the context has for
its name.
-/

namespace RexLang

namespace TypeDecodeCtx

/-- The variable for a name. -/
def varOf (ctx : TypeDecodeCtx) (name : String) : TypeVar :=
  (ctx.varsByName.lookup name).getD ⟨0, none⟩

/-- Every name that has a variable keeps it. -/
def Extends (ctx later : TypeDecodeCtx) : Prop :=
  ∀ name var, ctx.varsByName.lookup name = some var → later.varsByName.lookup name = some var

theorem Extends.refl (ctx : TypeDecodeCtx) : ctx.Extends ctx :=
  fun _ _ found => found

theorem Extends.trans {first second third : TypeDecodeCtx} (before : first.Extends second)
    (after : second.Extends third) : first.Extends third :=
  fun name var found => after name var (before name var found)

/-- Different names have different variables, each displayed by its name and made
by the supply. -/
structure Valid (ctx : TypeDecodeCtx) : Prop where
  named : ∀ name var, ctx.varsByName.lookup name = some var → var.name = some name
  below : ∀ name var, ctx.varsByName.lookup name = some var → var.id < ctx.supply.counter
  injective : ∀ name other var varOther, ctx.varsByName.lookup name = some var →
    ctx.varsByName.lookup other = some varOther → var.id = varOther.id → name = other

/-- The context after a fresh variable for a name. -/
def declare (ctx : TypeDecodeCtx) (name : String) : TypeDecodeCtx :=
  { ctx with
    supply := (ctx.supply.fresh (some name)).2
    varsByName := ctx.varsByName.insert name (ctx.supply.fresh (some name)).1 }

theorem Valid.declare {ctx : TypeDecodeCtx} (valid : ctx.Valid) (name : String) :
    (ctx.declare name).Valid where
  named other var found := by
    rw [TypeDecodeCtx.declare, lookup_insert] at found
    split_ifs at found with same
    · cases found
      rw [same]
      rfl
    · exact valid.named other var found
  below other var found := by
    rw [TypeDecodeCtx.declare, lookup_insert] at found
    split_ifs at found with same
    · cases found
      exact Nat.lt_succ_self _
    · exact Nat.lt_succ_of_lt (valid.below other var found)
  injective first second var varSecond isFirst isSecond same := by
    rw [TypeDecodeCtx.declare, lookup_insert] at isFirst isSecond
    split_ifs at isFirst isSecond with sameFirst sameSecond sameSecond
    · rw [sameFirst, sameSecond]
    · cases isFirst
      have less := valid.below second varSecond isSecond
      exact absurd same (Nat.ne_of_gt less)
    · cases isSecond
      have less := valid.below first var isFirst
      exact absurd same (Nat.ne_of_lt less)
    · exact valid.injective first second var varSecond isFirst isSecond same

theorem lookup_declare (ctx : TypeDecodeCtx) (name : String) :
    (ctx.declare name).varsByName.lookup name = some (ctx.supply.fresh (some name)).1 := by
  rw [declare, lookup_insert, if_pos rfl]

theorem extends_declare {ctx : TypeDecodeCtx} {name : String}
    (isNew : ctx.varsByName.lookup name = none) : ctx.Extends (ctx.declare name) := by
  intro other var found
  have different : other ≠ name := by
    rintro rfl
    rw [isNew] at found
    cases found
  rw [declare, lookup_insert, if_neg different, found]

/-- The context can read the names of the bound ids: it knows them, or it may make
variables for them. -/
structure Reads (ctx : TypeDecodeCtx) (names : TypeVarId → String) (bound : TypeVarId → Prop) :
    Prop where
  valid : ctx.Valid
  knows : ∀ id, bound id →
    ctx.allowFreeVars = true ∨ (ctx.varsByName.lookup (names id)).isSome

end TypeDecodeCtx

/-! ## Actions of the decoder -/

variable {names : TypeVarId → String} {bound : TypeVarId → Prop} {First Second : Type}

/-- From a context that can read the bound names, the action succeeds with the
value that every later context gives, and has variables for the names of the ids
that it covers. -/
def DecodesAs (names : TypeVarId → String) (bound : TypeVarId → Prop) (action : Decode First)
    (value : (TypeVarId → TypeVar) → First) (covers : TypeVarId → Prop) : Prop :=
  ∀ ctx : TypeDecodeCtx, ctx.Reads names bound →
    ∃ result later, action ctx = .ok (result, later) ∧ later.Reads names bound ∧
      ctx.Extends later ∧ (∀ id, covers id → (later.varsByName.lookup (names id)).isSome) ∧
      ∀ final, later.Extends final → result = value fun id => final.varOf (names id)

theorem decodesAs_pure (value : First) :
    DecodesAs names bound (pure value) (fun _ => value) (fun _ => False) :=
  fun ctx reads => ⟨value, ctx, rfl, reads, .refl ctx, fun _ covered => covered.elim,
    fun _ _ => rfl⟩

theorem DecodesAs.bind {action : Decode First} {next : First → Decode Second}
    {value : (TypeVarId → TypeVar) → First} {values : First → (TypeVarId → TypeVar) → Second}
    {covers coversNext : TypeVarId → Prop} (first : DecodesAs names bound action value covers)
    (rest : ∀ result, DecodesAs names bound (next result) (values result) coversNext) :
    DecodesAs names bound (action >>= next) (fun assign => values (value assign) assign)
      (fun id => covers id ∨ coversNext id) := by
  intro ctx reads
  obtain ⟨result, middle, isFirst, readsMiddle, extendsFirst, coveredFirst, valueFirst⟩ :=
    first ctx reads
  obtain ⟨last, later, isNext, readsLater, extendsNext, coveredNext, valueNext⟩ :=
    rest result middle readsMiddle
  have runs : (action >>= next) ctx = .ok (last, later) := by
    change (action ctx >>= fun pair => next pair.1 pair.2) = _
    rw [isFirst]
    exact isNext
  refine ⟨last, later, runs, readsLater, extendsFirst.trans extendsNext, fun id covered => ?_,
    fun final extends_ => ?_⟩
  · cases covered with
    | inl covered =>
        obtain ⟨var, found⟩ := Option.isSome_iff_exists.mp (coveredFirst id covered)
        exact Option.isSome_iff_exists.mpr ⟨var, extendsNext _ var found⟩
    | inr covered => exact coveredNext id covered
  · have isResult := valueFirst final (extendsNext.trans extends_)
    have isLast := valueNext final extends_
    rwa [isResult] at isLast

theorem DecodesAs.congr {action : Decode First} {value other : (TypeVarId → TypeVar) → First}
    {covers weaker : TypeVarId → Prop} (decodes : DecodesAs names bound action value covers)
    (same : ∀ assign, value assign = other assign) (implies : ∀ id, weaker id → covers id) :
    DecodesAs names bound action other weaker := by
  intro ctx reads
  obtain ⟨result, later, runs, readsLater, extends_, covered, isValue⟩ := decodes ctx reads
  exact ⟨result, later, runs, readsLater, extends_,
    fun id isWeaker => covered id (implies id isWeaker),
    fun final extendsFinal => (isValue final extendsFinal).trans (same _)⟩

theorem DecodesAs.map {action : Decode First} {value : (TypeVarId → TypeVar) → First}
    {covers : TypeVarId → Prop} (decodes : DecodesAs names bound action value covers)
    (change : First → Second) :
    DecodesAs names bound (do return change (← action)) (fun assign => change (value assign))
      covers :=
  (decodes.bind fun result => decodesAs_pure (change result)).congr (fun _ => rfl)
    fun _ covered => .inl covered

/-- A check that passes. -/
theorem DecodesAs.check {check : Except TypeError Unit} (passes : check = .ok ())
    {action : Decode First} {value : (TypeVarId → TypeVar) → First} {covers : TypeVarId → Prop}
    (decodes : DecodesAs names bound action value covers) :
    DecodesAs names bound (do check; action) value covers := by
  subst passes
  exact decodes

theorem validateName_of_named {kind name : String} (named : isBlank name = false) :
    validateName kind name = .ok () := by
  rw [validateName, named]
  rfl

theorem ensure_of {condition : Prop} [Decidable condition] {message : String} (holds : condition) :
    ensure condition message = .ok () :=
  if_pos holds

theorem decodesAs_mapM {list : List First} {action : First → Decode Second}
    {value : First → (TypeVarId → TypeVar) → Second} {covers : First → TypeVarId → Prop}
    (each : ∀ entry ∈ list, DecodesAs names bound (action entry) (value entry) (covers entry)) :
    DecodesAs names bound (list.mapM action) (fun assign => list.map (value · assign))
      (fun id => ∃ entry ∈ list, covers entry id) := by
  induction list with
  | nil =>
      rw [List.mapM_nil]
      exact (decodesAs_pure []).congr (fun _ => rfl) (by simp)
  | cons entry list hypothesis =>
      rw [List.mapM_cons]
      have rest := hypothesis fun other member => each other (.tail _ member)
      refine ((each entry List.mem_cons_self).bind fun head =>
        rest.map (head :: ·)).congr (fun _ => rfl) ?_
      simp

theorem decodesAs_typeVarNamed {id : TypeVarId} (isBound : bound id) :
    DecodesAs names bound (typeVarNamed (names id)) (fun assign => .var (assign id)) (· = id) := by
  intro ctx reads
  cases known : ctx.varsByName.lookup (names id) with
  | some var =>
      refine ⟨.var var, ctx, by simp [typeVarNamed, known], reads, .refl ctx, ?_,
        fun final extends_ => ?_⟩
      · rintro other rfl
        exact Option.isSome_iff_exists.mpr ⟨var, known⟩
      · change Typ.var var = .var ((final.varsByName.lookup (names id)).getD ⟨0, none⟩)
        rw [extends_ _ _ known]
        rfl
  | none =>
      have free : ctx.allowFreeVars = true := by
        simpa [known] using reads.knows id isBound
      have isDeclared := ctx.lookup_declare (names id)
      refine ⟨.var (ctx.supply.fresh (some (names id))).1, ctx.declare (names id),
        by simp [typeVarNamed, known, free, TypeDecodeCtx.declare],
        ⟨reads.valid.declare _, fun other _ => .inl free⟩, TypeDecodeCtx.extends_declare known, ?_,
        fun final extends_ => ?_⟩
      · rintro other rfl
        exact Option.isSome_iff_exists.mpr ⟨_, isDeclared⟩
      · change Typ.var _ = .var ((final.varsByName.lookup (names id)).getD ⟨0, none⟩)
        rw [extends_ _ _ isDeclared]
        rfl

/-! ## Types -/

/-- The constructor has a name that the decoder takes for it: not blank, and not the
name of a builtin type for a declared one. -/
def TypeConst.WellNamed : TypeConst → Prop
  | .builtin _ => True
  | .user name _ => isBlank name = false ∧ BuiltinTypeId.fromName name = none

/-- The labels of a record: in order, different and not blank. -/
structure LabelsNamed (labels : List Symbol) : Prop where
  ordered : labels.Pairwise (· < ·)
  named : ∀ label ∈ labels, isBlank label = false

theorem foldl_app_spine (typ : Typ) (args : List Typ) :
    (typ.spine args).2.foldl Typ.app (typ.spine args).1 = args.foldl Typ.app typ := by
  induction typ, args using Typ.spine.induct with
  | case1 head arg args hypothesis =>
      rw [Typ.spine, hypothesis]
      rfl
  | case2 head args notApp => rw [Typ.spine.eq_2 _ _ notApp]

theorem eq_foldl_of_constructorApp {typ : Typ} {con : TypeConst} {args : List Typ}
    (isApp : constructorApp typ = some (con, args)) : typ = args.foldl Typ.app (.con con) := by
  have rebuilt := foldl_app_spine typ []
  rw [(spine_of_constructorApp isApp).1] at rebuilt
  exact rebuilt.symm

theorem rename_foldl_app (assign : TypeVarId → TypeVar) (head : Typ) (args : List Typ) :
    (args.foldl Typ.app head).rename assign =
      (args.map (Typ.rename assign)).foldl Typ.app (head.rename assign) := by
  induction args generalizing head with
  | nil => rfl
  | cons arg args hypothesis => simp [hypothesis]

theorem foldr_decomposeFunType (typ : Typ) :
    (decomposeFunType typ).1.foldr Typ.func (decomposeFunType typ).2 = typ := by
  induction typ using decomposeFunType.induct with
  | case1 arg ret hypothesis => simp [decomposeFunType, hypothesis]
  | case2 typ notFunc => rw [decomposeFunType.eq_2 _ notFunc]; rfl

theorem rename_foldr_func (assign : TypeVarId → TypeVar) (params : List Typ) (ret : Typ) :
    (params.foldr Typ.func ret).rename assign =
      (params.map (Typ.rename assign)).foldr Typ.func (ret.rename assign) := by
  induction params with
  | nil => rfl
  | cons param params hypothesis => simp [hypothesis]

theorem builtinApplied_wireArgs (id : BuiltinTypeId) (args : List Typ) :
    builtinApplied id (wireArgsForConstructor (.builtin id) args) =
      args.foldl Typ.app (.builtin id) := by
  rw [wireArgsForConstructor.eq_def]
  split
  · next same =>
      cases same
      rfl
  · next different =>
      rw [builtinApplied.eq_def]
      split
      · exact absurd rfl (different _ _ rfl)
      · rfl

theorem length_wireArgs (con : TypeConst) (args : List Typ) :
    (wireArgsForConstructor con args).length = args.length := by
  rw [wireArgsForConstructor.eq_def]
  split <;> rfl

theorem toTypesWithCtx_eq_mapM (wires : List WireType) :
    toTypesWithCtx wires = wires.mapM toTypeWithCtx := by
  induction wires with
  | nil => rw [toTypesWithCtx]; rfl
  | cons wire wires hypothesis => rw [toTypesWithCtx, hypothesis, List.mapM_cons]

/-- A constructor with the arguments that the wire gives for it. -/
theorem decodesAs_construct {con : TypeConst} (named : con.WellNamed) {args : List Typ}
    (few : args.length ≤ con.arity) {wires : List WireType} (length : wires.length = args.length)
    {covers : TypeVarId → Prop}
    (decodes : DecodesAs names bound (toTypesWithCtx wires)
      (fun assign => (wireArgsForConstructor con args).map (Typ.rename assign)) covers) :
    DecodesAs names bound (toTypeWithCtx (typeFromConst con wires))
      (fun assign => (args.foldl Typ.app (.con con)).rename assign) covers := by
  cases con with
  | builtin id =>
      have isId := BuiltinTypeId.fromName_asStr id
      have nameOk : isBlank id.asStr = false := by cases id <;> rfl
      rw [typeFromConst, TypeConst.nameStr, toTypeWithCtx]
      refine .check (validateName_of_named nameOk) ?_
      rw [isId]
      refine .check (ensure_of (by rw [length]; exact few)) ?_
      refine (decodes.map (builtinApplied id)).congr (fun assign => ?_) fun _ covered => covered
      rw [← wireArgs_map, builtinApplied_wireArgs, rename_foldl_app]
      rfl
  | user name arity =>
      obtain ⟨nameOk, notBuiltin⟩ := named
      rw [typeFromConst, TypeConst.nameStr, TypeConst.arity, toTypeWithCtx]
      refine .check (validateName_of_named nameOk) (.check (ensure_of (by rw [length]; exact few)) ?_)
      refine (decodes.bind fun others => .check (ensure_of notBuiltin)
        (decodesAs_pure (others.foldl Typ.app (.userCon name arity)))).congr (fun assign => ?_)
        fun _ covered => .inl covered
      rw [rename_foldl_app]
      rfl

theorem decodesAs_func {params : List Typ} {ret : Typ}
    (each : ∀ param ∈ params, DecodesAs names bound (toTypeWithCtx (wireShape names param))
      (fun assign => param.rename assign) (· ∈ param.ftv)) :
    DecodesAs names bound (toFunWithCtx (params.map (wireShape names)) ret)
      (fun assign => (params.map (Typ.rename assign)).foldr Typ.func ret)
      (fun id => ∃ param ∈ params, id ∈ param.ftv) := by
  induction params with
  | nil =>
      rw [List.map_nil, toFunWithCtx]
      exact (decodesAs_pure ret).congr (fun _ => rfl) (by simp)
  | cons param params hypothesis =>
      rw [List.map_cons, toFunWithCtx]
      refine ((hypothesis fun other member => each other (.tail _ member)).bind fun result =>
        (each param List.mem_cons_self).map (Typ.func · result)).congr (fun _ => rfl) ?_
      intro id covered
      simpa [or_comm] using covered

theorem decodesAs_fields {fields : List (Symbol × Typ)} {seen : Finset String}
    (labels : LabelsNamed (fields.map Prod.fst)) (isNew : ∀ field ∈ fields, field.1 ∉ seen)
    (each : ∀ field ∈ fields, DecodesAs names bound (toTypeWithCtx (wireShape names field.2))
      (fun assign => field.2.rename assign) (· ∈ field.2.ftv)) :
    DecodesAs names bound
      (toFieldsWithCtx (fields.map fun field => ⟨field.1, wireShape names field.2, none⟩) seen)
      (fun assign => fields.map fun field => (field.1, field.2.rename assign))
      (fun id => ∃ field ∈ fields, id ∈ field.2.ftv) := by
  induction fields generalizing seen with
  | nil =>
      rw [List.map_nil, toFieldsWithCtx]
      exact (decodesAs_pure []).congr (fun _ => rfl) (by simp)
  | cons field fields hypothesis =>
      obtain ⟨ordered, named⟩ := labels
      rw [List.map_cons, List.pairwise_cons] at ordered
      have labelsRest : LabelsNamed (fields.map Prod.fst) :=
        ⟨ordered.2, fun label member => named label (.tail _ member)⟩
      have isNewRest : ∀ other ∈ fields, other.1 ∉ insert field.1 seen := by
        intro other member inside
        obtain same | before := Finset.mem_insert.mp inside
        · exact absurd same.symm (String.ne_of_lt (ordered.1 other.1 (List.mem_map_of_mem member)))
        · exact isNew other (.tail _ member) before
      rw [List.map_cons, toFieldsWithCtx]
      refine .check (ensure_of rfl) (.check (validateName_of_named (named field.1 (by simp)))
        (.check (ensure_of (isNew field List.mem_cons_self)) ?_))
      refine ((each field List.mem_cons_self).bind fun typ =>
        (hypothesis labelsRest isNewRest fun other member => each other (.tail _ member)).map
          ((field.1, typ) :: ·)).congr (fun _ => rfl) ?_
      simp

theorem mkRecord_of_ordered {fields : List (Symbol × Typ)}
    (ordered : (fields.map Prod.fst).Pairwise (· < ·)) : Typ.mkRecord fields = .record fields := by
  rw [Typ.mkRecord, List.mergeSort_of_pairwise]
  exact (List.pairwise_map.mp ordered).imp fun less => by
    simpa using String.not_lt.mp (String.lt_asymm less)

/-- The decoder reads the shape of a type as the type with the variables of the
context. -/
theorem decodesAs_wireShape {typ : Typ}
    (every : typ.Every (fun typeVar => isBlank (names typeVar.id) = false ∧ bound typeVar.id)
      TypeConst.WellNamed LabelsNamed) :
    DecodesAs names bound (toTypeWithCtx (wireShape names typ)) (fun assign => typ.rename assign)
      (· ∈ typ.ftv) := by
  induction typ using Typ.wireInduction with
  | var typeVar =>
      cases every with
      | var holds =>
          rw [wireShape_var, toTypeWithCtx]
          exact .check (validateName_of_named holds.1) ((decodesAs_typeVarNamed holds.2).congr
            (fun _ => rfl) (by simp [Typ.ftv]))
  | con const =>
      cases every with
      | con named =>
          rw [wireShape_con]
          have none : DecodesAs names bound (toTypesWithCtx [])
              (fun assign => (wireArgsForConstructor const []).map (Typ.rename assign))
              (· ∈ (Typ.con const).ftv) := by
            rw [toTypesWithCtx]
            refine (decodesAs_pure []).congr (fun _ => ?_) (by simp [Typ.ftv])
            rw [List.eq_nil_of_length_eq_zero (length_wireArgs const [])]
            rfl
          exact decodesAs_construct named (Nat.zero_le _) rfl none
  | construct head arg con args isApp hypothesis =>
      have noArgs : ∀ arg ∈ ([] : List Typ), arg.Every
          (fun typeVar => isBlank (names typeVar.id) = false ∧ bound typeVar.id)
          TypeConst.WellNamed LabelsNamed := by simp
      have parts := every.spine noArgs
      obtain ⟨isSpine, few⟩ := spine_of_constructorApp isApp
      rw [isSpine] at parts
      obtain ⟨onCon, onArgs⟩ := parts
      cases onCon with
      | con named =>
          have decodes : DecodesAs names bound
              (toTypesWithCtx ((wireArgsForConstructor con args).map (wireShape names)))
              (fun assign => (wireArgsForConstructor con args).map (Typ.rename assign))
              (· ∈ (Typ.app head arg).ftv) := by
            rw [toTypesWithCtx_eq_mapM, List.mapM_map]
            refine (decodesAs_mapM fun other member => hypothesis other (mem_wireArgs.mp member)
              (onArgs other (mem_wireArgs.mp member))).congr (fun _ => rfl) fun id inside => ?_
            obtain ⟨other, member, inOther⟩ := (mem_ftv_constructorApp isApp).mp inside
            exact ⟨other, mem_wireArgs.mpr member, inOther⟩
          rw [wireShape_construct names isApp]
          refine (decodesAs_construct named few ?_ decodes).congr (fun assign => ?_)
            fun _ inside => inside
          · rw [List.length_map, length_wireArgs]
          · rw [← eq_foldl_of_constructorApp isApp]
  | app head arg isApp onHead onArg =>
      cases every with
      | app everyHead everyArg =>
          rw [wireShape_app names isApp, toTypeWithCtx]
          refine ((onHead everyHead).bind fun typ => (onArg everyArg).map (Typ.app typ)).congr
            (fun _ => rfl) fun id inside => ?_
          simpa [Typ.ftv] using inside
  | func arg ret onParams onRet =>
      have parts := every.decomposeFunType
      rw [wireShape_func, toTypeWithCtx]
      refine ((onRet parts.2).bind fun typ => decodesAs_func fun param member =>
        onParams param member (parts.1 param member)).congr (fun assign => ?_) fun id inside => ?_
      · rw [← rename_foldr_func, foldr_decomposeFunType]
      · exact ((Typ.mem_ftv_decomposeFunType id _).mpr inside).symm
  | tuple elems onElems =>
      cases every with
      | tuple everyElem =>
          rw [wireShape_tuple, toTypeWithCtx, toTypesWithCtx_eq_mapM, List.mapM_map]
          refine ((decodesAs_mapM fun elem member =>
            onElems elem member (everyElem elem member)).map Typ.tuple).congr
            (fun assign => by simp) fun id inside => ?_
          simpa [Typ.ftv, Typ.mem_ftvList] using inside
  | record fields onFields =>
      cases every with
      | record labels everyField =>
          rw [wireShape_record, toTypeWithCtx]
          refine ((decodesAs_fields labels (by simp) fun field member =>
            onFields field member (everyField field member)).map Typ.mkRecord).congr
            (fun assign => ?_) fun id inside => ?_
          · rw [Typ.rename_record, mkRecord_of_ordered]
            simpa [Function.comp_def] using labels.ordered
          · simpa [Typ.ftv, Typ.mem_ftvFields] using inside

end RexLang
