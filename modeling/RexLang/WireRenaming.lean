import RexLang.WireDecoder
import RexLang.WireEncoder

/-!
# Renaming through the wire format

A naming and a context of the decoder together rename type variables: the variable
of an id is the one that the context has for the name of the id.  The display names
of the new variables are the names on the wire, so that a second encoding finds
every display name unused and writes the same names again.
-/

namespace RexLang

/-! ## Alpha-equivalence -/

namespace Scheme

/-- The scheme with other quantified variables. -/
def rename (assign : TypeVarId → TypeVar) (scheme : Scheme) : Scheme :=
  ⟨scheme.vars.map (assign ·.id), scheme.preds.map (Predicate.rename assign),
    scheme.typ.rename assign⟩

/-- The ids of the quantified variables. -/
def Quantifies (scheme : Scheme) (id : TypeVarId) : Prop :=
  id ∈ scheme.vars.map (·.id)

/-- The schemes, without unquantified variables, are equal up to a one-to-one renaming
of the quantified ones: these are in the same order, and so are the predicates. -/
def AlphaEquivalent (first second : Scheme) : Prop :=
  ∃ assign : TypeVarId → TypeVar,
    Set.InjOn (fun id => (assign id).id) first.Quantifies ∧ second = first.rename assign

end Scheme

def AdtParam.rename (assign : TypeVarId → TypeVar) (param : AdtParam) : AdtParam :=
  { param with var := assign param.var.id }

def AdtField.rename (assign : TypeVarId → TypeVar) (field : AdtField) : AdtField :=
  { field with typ := field.typ.rename assign }

def AdtArgument.rename (assign : TypeVarId → TypeVar) : AdtArgument → AdtArgument
  | .positional typ docs => .positional (typ.rename assign) docs
  | .record fields docs => .record (fields.map (AdtField.rename assign)) docs

def AdtVariant.rename (assign : TypeVarId → TypeVar) (variant : AdtVariant) : AdtVariant :=
  { variant with args := variant.args.map (AdtArgument.rename assign) }

namespace AdtDecl

/-- The declaration with other parameter variables. -/
def rename (assign : TypeVarId → TypeVar) (adt : AdtDecl) : AdtDecl :=
  { adt with
    params := adt.params.map (AdtParam.rename assign)
    variants := adt.variants.map (AdtVariant.rename assign) }

/-- The ids of the parameter variables. -/
def Binds (adt : AdtDecl) (id : TypeVarId) : Prop :=
  id ∈ adt.params.map (·.var.id)

/-- The declarations are equal, with their documentation, up to a one-to-one renaming
of the parameter variables. -/
def AlphaEquivalent (first second : AdtDecl) : Prop :=
  ∃ assign : TypeVarId → TypeVar,
    Set.InjOn (fun id => (assign id).id) first.Binds ∧ second = first.rename assign

end AdtDecl

/-! ## Variables of a renamed type -/

namespace Typ

variable {con : TypeConst → Prop} {labels : List Symbol → Prop}

/-- The same conditions on constructors and labels, with what is known of the free
variables. -/
theorem Every.bound {var : TypeVar → Prop} {bound : TypeVarId → Prop} {typ : Typ}
    (every : typ.Every var con labels) (holds : ∀ id ∈ typ.ftv, bound id) :
    typ.Every (fun typeVar => bound typeVar.id) con labels := by
  induction every with
  | @var typeVar _ => exact .var (holds typeVar.id (by simp [ftv]))
  | con isCon => exact .con isCon
  | app _ _ onHead onArg =>
      exact .app (onHead fun id member => holds id (by simp [ftv, member]))
        (onArg fun id member => holds id (by simp [ftv, member]))
  | func _ _ onArg onRet =>
      exact .func (onArg fun id member => holds id (by simp [ftv, member]))
        (onRet fun id member => holds id (by simp [ftv, member]))
  | tuple _ onElems =>
      exact .tuple fun elem member => onElems elem member fun id inside =>
        holds id (by simpa [ftv, mem_ftvList] using ⟨elem, member, inside⟩)
  | record isLabels _ onFields =>
      exact .record isLabels fun field member => onFields field member fun id inside =>
        holds id (by simpa [ftv, mem_ftvFields] using ⟨field.1, field.2, member, inside⟩)

end Typ

/-! ## The renaming of a naming and a context -/

section Renaming

variable {bound : TypeVarId → Prop} {namer : TypeVarNamer} {ctx : TypeDecodeCtx}

/-- The naming has a name for every bound id, and the context a variable for every such
name. -/
structure Renames (bound : TypeVarId → Prop) (namer : TypeVarNamer) (ctx : TypeDecodeCtx) :
    Prop where
  names : namer.Valid
  known : ∀ id, bound id → (namer.byId.lookup id).isSome
  vars : ctx.Valid
  declared : ∀ id, bound id → (ctx.varsByName.lookup (namer.nameOf id)).isSome

/-- The variable for an id. -/
def wireVar (namer : TypeVarNamer) (ctx : TypeDecodeCtx) (id : TypeVarId) : TypeVar :=
  ctx.varOf (namer.nameOf id)

theorem TypeVarNamer.lookup_nameOf {id : TypeVarId} (known : (namer.byId.lookup id).isSome) :
    namer.byId.lookup id = some (namer.nameOf id) := by
  obtain ⟨name, found⟩ := Option.isSome_iff_exists.mp known
  rw [TypeVarNamer.nameOf, found, Option.getD_some]

theorem TypeDecodeCtx.lookup_varOf {name : String}
    (declared : (ctx.varsByName.lookup name).isSome) :
    ctx.varsByName.lookup name = some (ctx.varOf name) := by
  obtain ⟨var, found⟩ := Option.isSome_iff_exists.mp declared
  rw [TypeDecodeCtx.varOf, found, Option.getD_some]

namespace Renames

variable (renames : Renames bound namer ctx)

include renames

theorem lookup_wireVar {id : TypeVarId} (isBound : bound id) :
    ctx.varsByName.lookup (namer.nameOf id) = some (wireVar namer ctx id) :=
  TypeDecodeCtx.lookup_varOf (renames.declared id isBound)

/-- Different bound ids have different variables. -/
theorem injOn : Set.InjOn (fun id => (wireVar namer ctx id).id) bound := by
  intro first isFirst second isSecond same
  have sameName := renames.vars.injective _ _ _ _ (renames.lookup_wireVar isFirst)
    (renames.lookup_wireVar isSecond) same
  have onFirst := TypeVarNamer.lookup_nameOf (renames.known first isFirst)
  rw [sameName] at onFirst
  exact renames.names.injective first second _ onFirst
    (TypeVarNamer.lookup_nameOf (renames.known second isSecond))

end Renames

/-! ## The second encoding -/

/-- Every name of the naming belongs to the variable that the context has for it. -/
structure TypeVarNamer.Honest (ctx : TypeDecodeCtx) (namer : TypeVarNamer) : Prop where
  known : ∀ id name, namer.byId.lookup id = some name →
    ∃ var, ctx.varsByName.lookup name = some var ∧ var.id = id
  used : ∀ name ∈ namer.used, ∃ id, namer.byId.lookup id = some name

namespace TypeVarNamer.Honest

theorem default : TypeVarNamer.default.Honest ctx where
  known _ _ found := nomatch found
  used _ member := by simp [TypeVarNamer.default] at member

variable {name : String} {var : TypeVar}

/-- A variable of the context that has a name has its own. -/
theorem eq_of_known (honest : namer.Honest ctx) (valid : ctx.Valid)
    (isVar : ctx.varsByName.lookup name = some var) {other : String}
    (isKnown : namer.byId.lookup var.id = some other) : other = name := by
  obtain ⟨owner, isOwner, sameId⟩ := honest.known var.id other isKnown
  exact valid.injective other name owner var isOwner isVar sameId

theorem not_used (honest : namer.Honest ctx) (isVar : ctx.varsByName.lookup name = some var)
    (isNew : namer.byId.lookup var.id = none) : name ∉ namer.used := by
  intro member
  obtain ⟨id, found⟩ := honest.used name member
  obtain ⟨owner, isOwner, rfl⟩ := honest.known id name found
  rw [isVar] at isOwner
  cases isOwner
  rw [isNew] at found
  cases found

theorem insert (honest : namer.Honest ctx) (isVar : ctx.varsByName.lookup name = some var)
    (isNew : namer.byId.lookup var.id = none) :
    Honest ctx ⟨(var.id, name) :: namer.byId, Insert.insert name namer.used⟩ where
  known id other found := by
    simp only [lookup_cons_eq_ite] at found
    split_ifs at found with same
    · cases found
      exact ⟨var, isVar, same.symm⟩
    · exact honest.known id other found
  used other member := by
    simp only [lookup_cons_eq_ite]
    obtain rfl | before := Finset.mem_insert.mp member
    · exact ⟨var.id, by simp⟩
    · obtain ⟨id, found⟩ := honest.used other before
      refine ⟨id, ?_⟩
      rw [if_neg, found]
      rintro rfl
      rw [isNew] at found
      cases found

theorem nameFor (honest : namer.Honest ctx) (valid : ctx.Valid)
    (isVar : ctx.varsByName.lookup name = some var) : (namer.nameFor var).2.Honest ctx := by
  rw [TypeVarNamer.nameFor]
  cases isKnown : namer.byId.lookup var.id with
  | some other => exact honest
  | none =>
      have isBase : base var = name := by rw [base, valid.named name var isVar, Option.getD_some]
      rw [uniqueName, isBase, if_pos (honest.not_used isVar isKnown)]
      exact honest.insert isVar isKnown

/-- A variable of the context can be bound to its name. -/
theorem bindExact (honest : namer.Honest ctx) (valid : ctx.Valid)
    (isVar : ctx.varsByName.lookup name = some var) :
    ∃ later, namer.bindExact var name = .ok later ∧ later.Honest ctx ∧ namer.Extends later ∧
      later.byId.lookup var.id = some name := by
  rw [TypeVarNamer.bindExact]
  cases isKnown : namer.byId.lookup var.id with
  | some other =>
      have same := honest.eq_of_known valid isVar isKnown
      subst same
      exact ⟨namer, if_pos rfl, honest, fun _ _ found => found, isKnown⟩
  | none =>
      refine ⟨_, if_neg (honest.not_used isVar isKnown), honest.insert isVar isKnown,
        fun id other found => ?_, by simp⟩
      rw [lookup_cons_eq_ite, if_neg, found]
      rintro rfl
      rw [isKnown] at found
      cases found

theorem nameOf (honest : namer.Honest ctx) (valid : ctx.Valid)
    (isVar : ctx.varsByName.lookup name = some var)
    (isKnown : (namer.byId.lookup var.id).isSome) : namer.nameOf var.id = name :=
  honest.eq_of_known valid isVar (lookup_nameOf isKnown)

end TypeVarNamer.Honest

/-- A naming of the variables of the context that knows all new variables gives them the
names on the wire. -/
theorem Renames.nameOf_wireVar (renames : Renames bound namer ctx) {later : TypeVarNamer}
    (honest : later.Honest ctx)
    (known : ∀ id, bound id → (later.byId.lookup (wireVar namer ctx id).id).isSome)
    {id : TypeVarId} (isBound : bound id) :
    later.nameOf (wireVar namer ctx id).id = namer.nameOf id :=
  honest.nameOf renames.vars (renames.lookup_wireVar isBound) (known id isBound)

/-- The renamed type has the shape of the type. -/
theorem Renames.wireShape_rename (renames : Renames bound namer ctx) {later : TypeVarNamer}
    (honest : later.Honest ctx)
    (known : ∀ id, bound id → (later.byId.lookup (wireVar namer ctx id).id).isSome)
    {typ : Typ} (closed : ∀ id ∈ typ.ftv, bound id) :
    wireShape later.nameOf (typ.rename (wireVar namer ctx)) = wireShape namer.nameOf typ := by
  rw [RexLang.wireShape_rename]
  exact wireShape_congr fun id inside =>
    renames.nameOf_wireVar honest known (closed id inside)

theorem nameable_wireVar (renames : Renames bound namer ctx) {id : TypeVarId}
    (isBound : bound id) :
    Nameable (TypeVarNamer.Honest ctx) (wireVar namer ctx id) :=
  fun _ honest => honest.nameFor renames.vars (renames.lookup_wireVar isBound)

/-- The second encoding of a type. -/
theorem Renames.namesAs_rename (renames : Renames bound namer ctx) {typ : Typ}
    {var : TypeVar → Prop} {con : TypeConst → Prop} {labels : List Symbol → Prop}
    (every : typ.Every var con labels) (closed : ∀ id ∈ typ.ftv, bound id) :
    NamesAs (TypeVarNamer.Honest ctx) (fromTypeWithNamer (typ.rename (wireVar namer ctx)))
      (wireShape · (typ.rename (wireVar namer ctx)))
      (fun other => ∃ id ∈ typ.ftv, other = (wireVar namer ctx id).id) := by
  refine (namesAs_fromType (every.rename fun id inside =>
    nameable_wireVar renames (closed id inside))).congr (fun _ => rfl) ?_
  rintro other ⟨id, inside, isVar⟩
  exact Typ.mem_ftv_rename.mpr ⟨id, inside, isVar⟩

end Renaming

/-! ## Types -/

/-- Its names are those of a type that the decoder takes: the display names of variables
and the labels are not blank, the labels of a record are in order and different, and
no declared constructor has the name of a builtin one. -/
def Typ.WellNamed (typ : Typ) : Prop :=
  typ.Every TypeVarNamer.Displayed TypeConst.WellNamed LabelsNamed

/-- The encoder names the variables of a type, and the decoder has one for each name. -/
theorem Typ.WellNamed.exists_toType {typ : Typ} (named : typ.WellNamed) :
    ∃ namer ctx, Renames (· ∈ typ.ftv) namer ctx ∧
      WireType.fromType typ = wireShape namer.nameOf typ ∧
      (WireType.fromType typ).toType = .ok (typ.rename (wireVar namer ctx)) := by
  have nameable : typ.Every (Nameable TypeVarNamer.Valid) TypeConst.WellNamed LabelsNamed :=
    named.mono fun typeVar displayed namer valid => valid.nameFor (.inl displayed)
  obtain ⟨valid, -, known, shaped⟩ := namesAs_fromType nameable .default TypeVarNamer.valid_default
  generalize isNamer : (fromTypeWithNamer typ .default).2 = namer at valid known shaped
  have isShape : WireType.fromType typ = wireShape namer.nameOf typ :=
    shaped namer fun _ _ found => found
  have onNames : ∀ id ∈ typ.ftv, isBlank (namer.nameOf id) = false ∧ id ∈ typ.ftv :=
    fun id inside => ⟨valid.named id _ (TypeVarNamer.lookup_nameOf (known id inside)), inside⟩
  have reads : TypeDecodeCtx.Reads ⟨.new, [], true⟩ namer.nameOf (· ∈ typ.ftv) := by
    refine ⟨⟨?_, ?_, ?_⟩, fun _ _ => .inl rfl⟩
    · exact fun _ _ found => nomatch found
    · exact fun _ _ found => nomatch found
    · exact fun _ _ _ _ found => nomatch found
  obtain ⟨decoded, ctx, decodes, readsLater, -, declared, isRenamed⟩ :=
    decodesAs_wireShape (named.bound onNames) _ reads
  refine ⟨namer, ctx, ⟨valid, known, readsLater.valid, declared⟩, isShape, ?_⟩
  rw [isShape, WireType.toType, decodes, isRenamed ctx (.refl ctx)]
  rfl

/-- The second encoding writes the same wire form. -/
theorem Typ.WellNamed.fromType_rename {typ : Typ} (named : typ.WellNamed) {namer : TypeVarNamer}
    {ctx : TypeDecodeCtx} (renames : Renames (· ∈ typ.ftv) namer ctx) :
    WireType.fromType (typ.rename (wireVar namer ctx)) = wireShape namer.nameOf typ := by
  obtain ⟨honest, -, known, shaped⟩ :=
    renames.namesAs_rename named (fun _ inside => inside) .default .default
  rw [← renames.wireShape_rename honest (fun id inside => known _ ⟨id, inside, rfl⟩)
    fun _ inside => inside]
  exact shaped _ fun _ _ found => found

end RexLang
