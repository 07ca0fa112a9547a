import RexLang.Unification

/-!
# Types of annotations

The type that a type expression denotes, with the type aliases in it expanded,
and the supply of type variables.
-/

namespace RexLang

/-! ## Type variables -/

/-- `TypeVarSupply`. -/
structure TypeVarSupply where
  counter : TypeVarId

namespace TypeVarSupply

/-- `TypeVarSupply::new`. -/
def new : TypeVarSupply :=
  ⟨0⟩

/-- `fresh`. -/
def fresh (nameHint : Option Symbol) (supply : TypeVarSupply) : TypeVar × TypeVarSupply :=
  (⟨supply.counter, nameHint⟩, ⟨supply.counter + 1⟩)

end TypeVarSupply

/-! ## Aliases -/

/-- `TypeAlias`; the body is missing while a batch of declarations is registered. -/
structure TypeAlias where
  name : Symbol
  params : List AdtParam
  typ : Option Typ

/-- The constructor that a type applies, with its arguments. -/
def Typ.spine : Typ → List Typ → Typ × List Typ
  | .app head arg, args => Typ.spine head (arg :: args)
  | head, args => (head, args)

section Expand

variable (aliases : SymbolMap TypeAlias)
  (expandBody : Symbol → TypeAlias → List Typ → Except TypeError Typ)

/-- The end of `expand_type_aliases_inner`, on a type whose parts are expanded. -/
def expandHead (expanded : Typ) : Except TypeError Typ :=
  match expanded.spine [] with
  | (.con const, args) =>
      match aliases.lookup const.nameStr with
      | some found =>
          if args.length ≠ found.params.length then .ok expanded
          else expandBody const.nameStr found args
      | none => .ok expanded
  | _ => .ok expanded

mutual

/-- `expand_type_aliases_inner`, by what it does with an applied alias. -/
def expandParts : Typ → Except TypeError Typ
  | .var typeVar => expandHead aliases expandBody (.var typeVar)
  | .con const => expandHead aliases expandBody (.con const)
  | .app func arg => do
      let func ← expandParts func
      let arg ← expandParts arg
      expandHead aliases expandBody (.app func arg)
  | .func arg ret => do
      let arg ← expandParts arg
      let ret ← expandParts ret
      expandHead aliases expandBody (.func arg ret)
  | .tuple elems => do
      let elems ← expandPartsList elems
      expandHead aliases expandBody (.tuple elems)
  | .record fields => do
      let fields ← expandPartsFields fields
      expandHead aliases expandBody (.mkRecord fields)

def expandPartsList : List Typ → Except TypeError (List Typ)
  | [] => .ok []
  | typ :: types => do
      let typ ← expandParts typ
      let types ← expandPartsList types
      return typ :: types

def expandPartsFields : List (Symbol × Typ) → Except TypeError (List (Symbol × Typ))
  | [] => .ok []
  | (name, typ) :: fields => do
      let typ ← expandParts typ
      let fields ← expandPartsFields fields
      return (name, typ) :: fields

end

end Expand

/-- `expand_type_aliases_inner`.  Aliases being expanded are distinct, so their
number bounds the depth. -/
def expandTypeAliasesInner (aliases : SymbolMap TypeAlias) :
    Nat → List Symbol → Typ → Except TypeError Typ
  | 0, _ => fun _ => .error .outOfFuel
  | depth + 1, expanding => expandParts aliases fun name found args =>
      if name ∈ expanding then .error (.cyclicTypeAlias name)
      else
        match found.typ with
        | none =>
            .error (.internal ("type alias \x60" ++ found.name ++ "\x60 has no registered body"))
        | some body =>
            let subst : Subst := (found.params.zip args).foldl
              (fun subst entry => (entry.1.var.id, entry.2) :: subst) []
            expandTypeAliasesInner aliases depth (name :: expanding) (body.apply subst)

/-- `expand_type_aliases`. -/
def expandTypeAliases (aliases : SymbolMap TypeAlias) (typ : Typ) : Except TypeError Typ :=
  expandTypeAliasesInner aliases (aliases.length + 1) [] typ

/-! ## Annotations -/

/-- `normalize_type_name`. -/
def normalizeTypeName (name : Symbol) : Symbol :=
  if name = "str" then BuiltinTypeId.string.asStr else name

/-- `annotation_type_arity`. -/
def annotationTypeArity (adts : SymbolMap AdtDecl) (aliases : SymbolMap TypeAlias)
    (name : Symbol) : Option Nat :=
  match adts.lookup name, aliases.lookup name with
  | some adt, _ => some adt.params.length
  | none, some found => some found.params.length
  | none, none => (BuiltinTypeId.fromName name).map BuiltinTypeId.arity

/-- `type_app_with_result_syntax`: `Result ok err` is stored with the error first. -/
def typeAppWithResultSyntax (func arg : Typ) : Typ :=
  match func with
  | .app (.con (.builtin .result)) ok => .app (.app (.con (.builtin .result)) arg) ok
  | func => .app func arg

/-- `map_err` with the span of the expression. -/
def withSpanOf {Result : Type} (span : Span) (result : Except TypeError Result) :
    Except TypeError Result :=
  result.mapError (TypeError.withSpan span)

section Raw

variable (adts : SymbolMap AdtDecl) (aliases : SymbolMap TypeAlias) (vars : SymbolMap TypeVar)

mutual

/-- `type_from_annotation_expr_vars_raw`. -/
def typeFromAnnotationRaw : TypeExpr → Except TypeError Typ
  | .name span reference => withSpanOf span <|
      let name := normalizeTypeName reference.toDottedSymbol
      match annotationTypeArity adts aliases name, vars.lookup name with
      | some arity, _ => .ok (.named name arity)
      | none, some typeVar => .ok (.var typeVar)
      | none, none => .error (.unknownTypeName name)
  | .app span func arg => withSpanOf span do
      let func ← typeFromAnnotationRaw func
      let arg ← typeFromAnnotationRaw arg
      return typeAppWithResultSyntax func arg
  | .func span arg ret => withSpanOf span do
      let arg ← typeFromAnnotationRaw arg
      let ret ← typeFromAnnotationRaw ret
      return .func arg ret
  | .tuple span elems => withSpanOf span do
      let elems ← typesFromAnnotations elems
      return .tuple elems
  | .record span fields => withSpanOf span do
      let fields ← fieldsFromAnnotations fields
      return .mkRecord fields

def typesFromAnnotations : List TypeExpr → Except TypeError (List Typ)
  | [] => .ok []
  | expr :: exprs => do
      let typ ← typeFromAnnotationRaw expr
      let types ← typesFromAnnotations exprs
      return typ :: types

def fieldsFromAnnotations :
    List (Symbol × TypeExpr × Option String) → Except TypeError (List (Symbol × Typ))
  | [] => .ok []
  | (name, expr, _) :: fields => do
      let typ ← typeFromAnnotationRaw expr
      let fields ← fieldsFromAnnotations fields
      return (name, typ) :: fields

end

/-- `type_from_annotation_expr_vars`. -/
def typeFromAnnotationExprVars (expr : TypeExpr) : Except TypeError Typ := do
  let typ ← typeFromAnnotationRaw adts aliases vars expr
  expandTypeAliases aliases typ

/-- `predicates_from_constraints`. -/
def predicatesFromConstraints (constraints : List TypeConstraint) :
    Except TypeError (List Predicate) :=
  constraints.mapM fun constraint => do
    let typ ← typeFromAnnotationExprVars adts aliases vars constraint.typ
    return ⟨constraint.className.toDottedSymbol, typ⟩

end Raw

/-- `extend_type_params`. -/
def extendTypeParams : List Symbol → SymbolMap TypeVar → TypeVarSupply →
    Except TypeError (SymbolMap TypeVar) × TypeVarSupply
  | [], vars, supply => (.ok vars, supply)
  | param :: params, vars, supply =>
      if (vars.lookup param).isSome then (.error (.duplicateTypeParameter param), supply)
      else
        let (typeVar, supply) := supply.fresh (some param)
        extendTypeParams params (vars.insert param typeVar) supply

end RexLang
