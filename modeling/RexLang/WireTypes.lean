import Mathlib.Data.Finset.Sort
import Mathlib.Data.Nat.Find
import Mathlib.Data.Set.Finite.Basic
import RexLang.FallibleResults
import RexLang.SymbolMaps
import RexLang.TypeAnnotations

/-!
# The wire format of types

The encoder and decoder of `wire.rs` for types, schemes and declarations of
algebraic data types.  Type variables travel by name: the encoder makes the names
of different variables different, and the decoder makes a fresh variable for each
name.
-/

namespace RexLang

mutual

inductive WireType where
  | var (name : String)
  | named (name : String) (arity : Nat) (args : List WireType)
  | builtin (name : String) (args : List WireType)
  | app (head arg : WireType)
  | func (params : List WireType) (ret : WireType)
  | tuple (items : List WireType)
  | record (fields : List WireField)

structure WireField where
  name : String
  typ : WireType
  docs : Option String

end

structure WireTypeVar where
  name : String

structure WirePredicate where
  className : String
  typ : WireType

structure WireScheme where
  vars : List WireTypeVar
  constraints : List WirePredicate
  typ : WireType

structure WireAdtParam where
  name : String
  docs : Option String

inductive WireAdtArg where
  | positional (typ : WireType) (docs : Option String)
  | record (fields : List WireField) (docs : Option String)

structure WireAdtVariant where
  name : String
  args : List WireAdtArg
  docs : Option String

structure WireAdtDecl where
  name : String
  params : List WireAdtParam
  variants : List WireAdtVariant
  docs : Option String

/-- `wire_error`. -/
def wireError (message : String) : TypeError :=
  .internal ("invalid type wire format: " ++ message)

/-! ## Names of type variables -/

/-- `TypeVarNamer`. -/
structure TypeVarNamer where
  byId : List (TypeVarId × String)
  used : Finset String

namespace TypeVarNamer

/-- `TypeVarNamer::default`. -/
def default : TypeVarNamer :=
  ⟨[], ∅⟩

/-- The candidates of the loop of `unique_name`, from `idx` 1 on. -/
def candidate (base : String) (id : TypeVarId) (index : Nat) : String :=
  base ++ toString id ++ "_" ++ toString (index + 1)

theorem toString_injective : Function.Injective (toString : Nat → String) := by
  intro first second same
  have digits : Nat.toDigits 10 first = Nat.toDigits 10 second := by
    simpa using congrArg String.toList same
  rw [← Nat.ofDigitChars_ten_toDigits (n := first), digits, Nat.ofDigitChars_ten_toDigits]

theorem candidate_injective (base : String) (id : TypeVarId) :
    Function.Injective (candidate base id) := by
  intro first second same
  have suffix : toString (first + 1) = toString (second + 1) := by
    have lists := congrArg String.toList same
    simp only [candidate, String.toList_append, List.append_cancel_left_eq] at lists
    exact String.ext lists
  have next := toString_injective suffix
  omega

theorem exists_candidate (used : Finset String) (base : String) (id : TypeVarId) :
    ∃ index, candidate base id index ∉ used := by
  by_contra all
  push Not at all
  exact Set.infinite_range_of_injective (candidate_injective base id)
    (used.finite_toSet.subset (by rintro _ ⟨index, rfl⟩; exact all index))

/-- `unique_name`. -/
def uniqueName (namer : TypeVarNamer) (base : String) (id : TypeVarId) : String :=
  if base ∉ namer.used then base
  else if base ++ toString id ∉ namer.used then base ++ toString id
  else candidate base id (Nat.find (exists_candidate namer.used base id))

/-- The display name of a variable, or a name made from its id. -/
def base (var : TypeVar) : String :=
  var.name.getD ("t" ++ toString var.id)

/-- `name_for`. -/
def nameFor (var : TypeVar) (namer : TypeVarNamer) : String × TypeVarNamer :=
  match namer.byId.lookup var.id with
  | some name => (name, namer)
  | none =>
      let name := namer.uniqueName (base var) var.id
      (name, ⟨(var.id, name) :: namer.byId, insert name namer.used⟩)

/-- `bind_exact`. -/
def bindExact (var : TypeVar) (name : String) (namer : TypeVarNamer) :
    Except TypeError TypeVarNamer :=
  match namer.byId.lookup var.id with
  | some existing =>
      if existing = name then .ok namer
      else .error (wireError
        s!"type variable id {var.id} is named both `{existing}` and `{name}`")
  | none =>
      if name ∈ namer.used then .error (wireError s!"duplicate type variable name `{name}`")
      else .ok ⟨(var.id, name) :: namer.byId, insert name namer.used⟩

end TypeVarNamer

/-! ## Constructors and functions -/

/-- `decompose_type_app`. -/
def decomposeTypeApp (typ : Typ) : Option (TypeConst × List Typ) :=
  match typ.spine [] with
  | (.con con, args) => some (con, args)
  | _ => none

/-- The constructor and the arguments of an application that the encoder writes
as one: those with no more arguments than the constructor takes. -/
def constructorApp (typ : Typ) : Option (TypeConst × List Typ) :=
  (decomposeTypeApp typ).filter fun app => app.2.length ≤ app.1.arity

/-- `decompose_fun_type`. -/
def decomposeFunType : Typ → List Typ × Typ
  | .func arg ret => (arg :: (decomposeFunType ret).1, (decomposeFunType ret).2)
  | typ => ([], typ)

/-- `wire_args_for_constructor`. -/
def wireArgsForConstructor : TypeConst → List Typ → List Typ
  | .builtin .result, [err, ok] => [ok, err]
  | _, args => args

/-- `type_from_const`. -/
def typeFromConst (con : TypeConst) (args : List WireType) : WireType :=
  match con with
  | .builtin _ => .builtin con.nameStr args
  | .user _ _ => .named con.nameStr con.arity args

section Sizes

theorem sizeOf_pos (typ : Typ) : 1 < sizeOf typ := by
  cases typ with
  | var typeVar =>
      cases typeVar
      simp only [Typ.var.sizeOf_spec, TypeVar.mk.sizeOf_spec]
      omega
  | con const => cases const <;> (simp only [Typ.con.sizeOf_spec, TypeConst.builtin.sizeOf_spec,
      TypeConst.user.sizeOf_spec]; omega)
  | app head arg =>
      cases head <;> (simp only [Typ.app.sizeOf_spec, Typ.var.sizeOf_spec, Typ.con.sizeOf_spec,
        Typ.func.sizeOf_spec, Typ.tuple.sizeOf_spec, Typ.record.sizeOf_spec]; omega)
  | func arg ret =>
      cases arg <;> (simp only [Typ.app.sizeOf_spec, Typ.var.sizeOf_spec, Typ.con.sizeOf_spec,
        Typ.func.sizeOf_spec, Typ.tuple.sizeOf_spec, Typ.record.sizeOf_spec]; omega)
  | tuple elems =>
      cases elems <;> (simp only [Typ.tuple.sizeOf_spec, List.nil.sizeOf_spec,
        List.cons.sizeOf_spec]; omega)
  | record fields =>
      cases fields <;> (simp only [Typ.record.sizeOf_spec, List.nil.sizeOf_spec,
        List.cons.sizeOf_spec]; omega)

theorem sizeOf_spine (typ : Typ) (args : List Typ) :
    sizeOf (typ.spine args).1 + sizeOf (typ.spine args).2 ≤ sizeOf typ + sizeOf args := by
  induction typ, args using Typ.spine.induct with
  | case1 head arg args hypothesis =>
      rw [Typ.spine]
      simp only [List.cons.sizeOf_spec, Typ.app.sizeOf_spec] at hypothesis ⊢
      omega
  | case2 head args notApp => rw [Typ.spine.eq_2 _ _ notApp]

theorem sizeOf_constructorApp {typ : Typ} {con : TypeConst} {args : List Typ}
    (isApp : constructorApp typ = some (con, args)) : sizeOf args < sizeOf typ := by
  obtain ⟨decomposed, -⟩ := Option.filter_eq_some_iff.mp isApp
  have bound := sizeOf_spine typ []
  rw [decomposeTypeApp] at decomposed
  split at decomposed
  · next head others isSpine =>
      cases decomposed
      rw [isSpine] at bound
      have positive := sizeOf_pos (.con con)
      simp only [List.nil.sizeOf_spec] at bound
      omega
  · cases decomposed

theorem sizeOf_wireArgs (con : TypeConst) (args : List Typ) :
    sizeOf (wireArgsForConstructor con args) = sizeOf args := by
  rw [wireArgsForConstructor.eq_def]
  split
  · simp only [List.cons.sizeOf_spec, List.nil.sizeOf_spec]
    omega
  · rfl

theorem sizeOf_decomposeFunType (typ : Typ) :
    sizeOf (decomposeFunType typ).1 + sizeOf (decomposeFunType typ).2 ≤ sizeOf typ + 1 := by
  induction typ using decomposeFunType.induct with
  | case1 arg ret hypothesis =>
      rw [decomposeFunType]
      simp only [List.cons.sizeOf_spec, Typ.func.sizeOf_spec] at hypothesis ⊢
      omega
  | case2 typ notFunc =>
      rw [decomposeFunType.eq_2 _ notFunc]
      simp only [List.nil.sizeOf_spec]
      omega

theorem sizeOf_funParams_lt (arg ret : Typ) :
    sizeOf (decomposeFunType (.func arg ret)).1 < sizeOf (Typ.func arg ret) := by
  have bound := sizeOf_decomposeFunType (.func arg ret)
  have positive := sizeOf_pos (decomposeFunType (.func arg ret)).2
  omega

theorem sizeOf_funResult_lt (arg ret : Typ) :
    sizeOf (decomposeFunType (.func arg ret)).2 < sizeOf (Typ.func arg ret) := by
  have bound := sizeOf_decomposeFunType ret
  simp only [decomposeFunType, Typ.func.sizeOf_spec]
  have params : 1 ≤ sizeOf (decomposeFunType ret).1 := by
    cases (decomposeFunType ret).1 <;> (simp; try omega)
  have positive := sizeOf_pos arg
  omega

end Sizes

/-! ## The encoder -/

section Encoder

variable {M : Type → Type} [Monad M] (nameFor : TypeVar → M String)

mutual

/-- `from_type_with_namer`, with the naming of type variables as an action. -/
def fromTypeWith : Typ → M WireType
  | .var typeVar => return .var (← nameFor typeVar)
  | .con con => return typeFromConst con []
  | .app head arg =>
      match _isApp : constructorApp (.app head arg) with
      | some (con, args) =>
          return typeFromConst con (← fromTypesWith (wireArgsForConstructor con args))
      | none => return .app (← fromTypeWith head) (← fromTypeWith arg)
  | .func arg ret => do
      let params ← fromTypesWith (decomposeFunType (.func arg ret)).1
      return .func params (← fromTypeWith (decomposeFunType (.func arg ret)).2)
  | .tuple elems => return .tuple (← fromTypesWith elems)
  | .record fields => return .record (← fromFieldsWith fields)
termination_by typ => sizeOf typ
decreasing_by
  · rw [sizeOf_wireArgs]
    exact sizeOf_constructorApp _isApp
  · simp only [Typ.app.sizeOf_spec]
    omega
  · simp only [Typ.app.sizeOf_spec]
    omega
  · exact sizeOf_funParams_lt arg ret
  · exact sizeOf_funResult_lt arg ret
  · simp
  · simp

def fromTypesWith : List Typ → M (List WireType)
  | [] => return []
  | typ :: types => return (← fromTypeWith typ) :: (← fromTypesWith types)
termination_by types => sizeOf types

def fromFieldsWith : List (Symbol × Typ) → M (List WireField)
  | [] => return []
  | (name, typ) :: fields => return ⟨name, ← fromTypeWith typ, none⟩ :: (← fromFieldsWith fields)
termination_by fields => sizeOf fields

end

end Encoder

/-- `from_type_with_namer`. -/
def fromTypeWithNamer : Typ → StateM TypeVarNamer WireType :=
  fromTypeWith TypeVarNamer.nameFor

/-- `WireType::from_type`. -/
def WireType.fromType (typ : Typ) : WireType :=
  (fromTypeWithNamer typ .default).1

/-- The ids that occur free in the types but are not bound. -/
def unboundIds (bound : List TypeVarId) (types : List Typ) : List TypeVarId :=
  (types.foldr (fun typ free => typ.ftv ∪ free) ∅ \ bound.toFinset).sort (· ≤ ·)

/-- The encoding of the parts of a scheme. -/
def WireScheme.fromScheme (scheme : Scheme) : StateM TypeVarNamer WireScheme := do
  let vars ← scheme.vars.mapM TypeVarNamer.nameFor
  let constraints ← scheme.preds.mapM fun pred =>
    return ⟨pred.className, ← fromTypeWithNamer pred.typ⟩
  return ⟨vars.map .mk, constraints, ← fromTypeWithNamer scheme.typ⟩

/-- `try_from_scheme`. -/
def WireScheme.tryFromScheme (scheme : Scheme) : Except TypeError WireScheme :=
  let unbound := unboundIds (scheme.vars.map (·.id)) (scheme.typ :: scheme.preds.map (·.typ))
  if unbound ≠ [] then
    .error (wireError s!"scheme contains unquantified type variable ids {unbound}")
  else .ok (WireScheme.fromScheme scheme .default).1

/-- The loop of `try_from_adt_decl` over the parameters. -/
def bindParams (adt : Symbol) : List AdtParam → Finset String → TypeVarNamer →
    Except TypeError (List WireAdtParam × TypeVarNamer)
  | [], _, namer => .ok ([], namer)
  | param :: params, seen, namer =>
      if param.name ∈ seen then
        .error (wireError s!"duplicate type parameter `{param.name}` in ADT `{adt}`")
      else do
        let namer ← namer.bindExact param.var param.name
        let (wire, namer) ← bindParams adt params (insert param.name seen) namer
        return (⟨param.name, param.docs⟩ :: wire, namer)

/-- The encoding of one constructor argument. -/
def fromArgument : AdtArgument → StateM TypeVarNamer WireAdtArg
  | .positional typ docs => return .positional (← fromTypeWithNamer typ) docs
  | .record fields docs => do
      let fields ← fields.mapM fun field =>
        return ⟨field.name, ← fromTypeWithNamer field.typ, field.docs⟩
      return .record fields docs

/-- The encoding of the variants. -/
def fromVariants (variants : List AdtVariant) : StateM TypeVarNamer (List WireAdtVariant) :=
  variants.mapM fun variant =>
    return ⟨variant.name, ← variant.args.mapM fromArgument, variant.docs⟩

/-- `try_from_adt_decl`. -/
def WireAdtDecl.tryFromAdtDecl (adt : AdtDecl) : Except TypeError WireAdtDecl :=
  let types := adt.variants.flatMap fun variant => variant.args.map AdtArgument.typ
  let unbound := unboundIds (adt.params.map (·.var.id)) types
  if unbound ≠ [] then
    .error (wireError s!"ADT `{adt.name}` contains unbound type variable ids {unbound}")
  else do
    let (params, namer) ← bindParams adt.name adt.params ∅ .default
    return ⟨adt.name, params, (fromVariants adt.variants namer).1, adt.docs⟩

/-! ## The decoder -/

/-- `TypeDecodeCtx`. -/
structure TypeDecodeCtx where
  supply : TypeVarSupply
  varsByName : SymbolMap TypeVar
  allowFreeVars : Bool

/-- `char::is_whitespace`: the Unicode property `White_Space`. -/
def isWhitespace (char : Char) : Bool :=
  char.toNat ∈ [0x9, 0xA, 0xB, 0xC, 0xD, 0x20, 0x85, 0xA0, 0x1680, 0x2028, 0x2029, 0x202F, 0x205F,
    0x3000] ∨ 0x2000 ≤ char.toNat ∧ char.toNat ≤ 0x200A

/-- `name.trim().is_empty()`. -/
def isBlank (name : String) : Bool :=
  name.toList.all isWhitespace

/-- `validate_name`. -/
def validateName (kind name : String) : Except TypeError Unit :=
  if isBlank name then .error (wireError s!"{kind} name cannot be empty") else .ok ()

/-- Decoding, with the context as state. -/
abbrev Decode : Type → Type :=
  StateT TypeDecodeCtx (Except TypeError)

/-- An error unless the condition holds. -/
def ensure (condition : Prop) [Decidable condition] (message : String) : Except TypeError Unit :=
  if condition then .ok () else .error (wireError message)

/-- `TypeDecodeCtx::type_var`. -/
def typeVarNamed (name : String) : Decode Typ := fun ctx =>
  match ctx.varsByName.lookup name with
  | some var => .ok (.var var, ctx)
  | none =>
      if ctx.allowFreeVars then
        let (var, supply) := ctx.supply.fresh (some name)
        .ok (.var var, { ctx with supply, varsByName := ctx.varsByName.insert name var })
      else .error (wireError s!"unknown type variable `{name}`")

/-- The end of `builtin_type_to_type`. -/
def builtinApplied (id : BuiltinTypeId) (args : List Typ) : Typ :=
  match id, args with
  | .result, [ok, err] => .result ok err
  | _, args => args.foldl .app (.builtin id)

mutual

/-- `to_type_with_ctx`. -/
def toTypeWithCtx : WireType → Decode Typ
  | .var name => do
      validateName "type variable" name
      typeVarNamed name
  | .named name arity args => do
      validateName "type constructor" name
      ensure (args.length ≤ arity)
        s!"type constructor `{name}` has arity {arity} but got {args.length} argument(s)"
      let args ← toTypesWithCtx args
      ensure (BuiltinTypeId.fromName name = none)
        s!"builtin type `{name}` must use the builtin wire kind"
      return args.foldl .app (.userCon name arity)
  | .builtin name args => do
      validateName "builtin type constructor" name
      match BuiltinTypeId.fromName name with
      | none => throw (wireError s!"unknown builtin type `{name}`")
      | some id => do
          ensure (args.length ≤ id.arity)
            s!"type constructor `{name}` has arity {id.arity} but got {args.length} argument(s)"
          let args ← toTypesWithCtx args
          return builtinApplied id args
  | .app head arg => do
      let head ← toTypeWithCtx head
      return .app head (← toTypeWithCtx arg)
  | .func params ret => do
      let ret ← toTypeWithCtx ret
      toFunWithCtx params ret
  | .tuple items => return .tuple (← toTypesWithCtx items)
  | .record fields => return .mkRecord (← toFieldsWithCtx fields ∅)

def toTypesWithCtx : List WireType → Decode (List Typ)
  | [] => return []
  | wire :: wires => do
      let typ ← toTypeWithCtx wire
      return typ :: (← toTypesWithCtx wires)

/-- The loop over the parameters of a function type, the last one first. -/
def toFunWithCtx : List WireType → Typ → Decode Typ
  | [], ret => return ret
  | param :: params, ret => do
      let ret ← toFunWithCtx params ret
      return .func (← toTypeWithCtx param) ret

/-- The loop over the fields of a structural record. -/
def toFieldsWithCtx : List WireField → Finset String → Decode (List (Symbol × Typ))
  | [], _ => return []
  | ⟨name, typ, docs⟩ :: fields, seen => do
      ensure (docs = none) s!"structural record field `{name}` cannot carry documentation"
      validateName "record field" name
      ensure (name ∉ seen) s!"duplicate record field `{name}`"
      let typ ← toTypeWithCtx typ
      return (name, typ) :: (← toFieldsWithCtx fields (insert name seen))

end

/-- `WireType::to_type`. -/
def WireType.toType (wire : WireType) : Except TypeError Typ :=
  (·.1) <$> toTypeWithCtx wire ⟨.new, [], true⟩

/-- The loop of `to_scheme_with_supply` over the quantified variables. -/
def toSchemeVars : List WireTypeVar → SymbolMap TypeVar → TypeVarSupply →
    Except TypeError (List TypeVar × SymbolMap TypeVar × TypeVarSupply)
  | [], varsByName, supply => .ok ([], varsByName, supply)
  | wire :: wires, varsByName, supply => do
      validateName "type variable" wire.name
      ensure (varsByName.lookup wire.name = none)
        s!"duplicate type variable `{wire.name}` in scheme"
      let (var, supply) := supply.fresh (some wire.name)
      let (vars, rest) ← toSchemeVars wires (varsByName.insert wire.name var) supply
      return (var :: vars, rest)

/-- `to_predicate_with_ctx`. -/
def toPredicateWithCtx (wire : WirePredicate) : Decode Predicate := do
  validateName "class" wire.className
  return ⟨wire.className, ← toTypeWithCtx wire.typ⟩

namespace WireScheme

/-- The decoding of the constraints and of the type of a scheme. -/
def toSchemeWithCtx (wire : WireScheme) (vars : List TypeVar) : Decode Scheme := do
  let preds ← wire.constraints.mapM toPredicateWithCtx
  return ⟨vars, preds, ← toTypeWithCtx wire.typ⟩

/-- `to_scheme_with_supply`. -/
def toSchemeWithSupply (wire : WireScheme) (supply : TypeVarSupply) :
    Except TypeError (Scheme × TypeVarSupply) := do
  let (vars, varsByName, supply) ← toSchemeVars wire.vars [] supply
  let (scheme, ctx) ← wire.toSchemeWithCtx vars ⟨supply, varsByName, false⟩
  return (scheme, ctx.supply)

/-- `WireScheme::to_scheme`. -/
def toScheme (wire : WireScheme) : Except TypeError Scheme :=
  (·.1) <$> wire.toSchemeWithSupply .new

end WireScheme

/-- The loop of `to_adt_decl_with_supply` over the parameters. -/
def toAdtParams (adt : String) : List WireAdtParam → SymbolMap TypeVar → TypeVarSupply →
    Except TypeError (List AdtParam × SymbolMap TypeVar × TypeVarSupply)
  | [], varsByName, supply => .ok ([], varsByName, supply)
  | wire :: wires, varsByName, supply => do
      validateName "ADT parameter" wire.name
      ensure (varsByName.lookup wire.name = none)
        s!"duplicate type parameter `{wire.name}` in ADT `{adt}`"
      let (var, supply) := supply.fresh (some wire.name)
      let (params, rest) ← toAdtParams adt wires (varsByName.insert wire.name var) supply
      return (⟨wire.name, var, wire.docs⟩ :: params, rest)

/-- The loop of `to_adt_argument_with_ctx` over the fields of a record. -/
def toAdtFields : List WireField → Finset String → Decode (List AdtField)
  | [], _ => return []
  | ⟨name, typ, docs⟩ :: fields, seen => do
      validateName "record field" name
      ensure (name ∉ seen) s!"duplicate record field `{name}`"
      let typ ← toTypeWithCtx typ
      return ⟨name, typ, docs⟩ :: (← toAdtFields fields (insert name seen))

/-- `to_adt_argument_with_ctx`. -/
def toAdtArgumentWithCtx : WireAdtArg → Decode AdtArgument
  | .positional typ docs => return .positional (← toTypeWithCtx typ) docs
  | .record fields docs => return .record (← toAdtFields fields ∅) docs

/-- The loop of `to_adt_decl_with_supply` over the variants. -/
def toAdtVariants (adt : String) : List WireAdtVariant → Finset String → Decode (List AdtVariant)
  | [], _ => return []
  | variant :: variants, seen => do
      validateName "ADT variant" variant.name
      ensure (variant.name ∉ seen) s!"duplicate variant `{variant.name}` in ADT `{adt}`"
      let args ← variant.args.mapM toAdtArgumentWithCtx
      return ⟨variant.name, args, variant.docs⟩ ::
        (← toAdtVariants adt variants (insert variant.name seen))

namespace WireAdtDecl

/-- `to_adt_decl_with_supply`. -/
def toAdtDeclWithSupply (wire : WireAdtDecl) (supply : TypeVarSupply) :
    Except TypeError (AdtDecl × TypeVarSupply) := do
  validateName "ADT" wire.name
  if (BuiltinTypeId.fromName wire.name).isSome then throw (.reservedTypeName wire.name)
  else do
    let (params, varsByName, supply) ← toAdtParams wire.name wire.params [] supply
    let (variants, ctx) ← toAdtVariants wire.name wire.variants ∅ ⟨supply, varsByName, false⟩
    return (⟨wire.name, params, variants, wire.docs⟩, ctx.supply)

/-- `to_adt_decl`. -/
def toAdtDecl (wire : WireAdtDecl) : Except TypeError AdtDecl :=
  (·.1) <$> wire.toAdtDeclWithSupply .new

end WireAdtDecl

end RexLang
