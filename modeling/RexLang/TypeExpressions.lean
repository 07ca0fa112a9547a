import RexLang.AliasRegistration
import RexLang.WireNaming

/-!
# Type expressions of types

A type is written as a type expression in which every variable and every constructor is
a name.  What the lowering of such an expression gives depends only on what the lowering
gives for these names.
-/

namespace RexLang

/-! ## From types to expressions -/

/-- The name of a type variable in a type expression. -/
def TypeVar.displayName (typeVar : TypeVar) : Symbol :=
  typeVar.name.getD ("t" ++ toString typeVar.id)

mutual

/-- `type_expr_from_type`. -/
def typeExprFromType : Typ → TypeExpr
  | .var typeVar => .name .default (.unqualified typeVar.displayName)
  | .con const => .name .default (.unqualified const.nameStr)
  | .app (.app (.con (.builtin .result)) err) ok =>
      .app .default
        (.app .default (.name .default (.unqualified BuiltinTypeId.result.asStr))
          (typeExprFromType ok))
        (typeExprFromType err)
  | .app func arg => .app .default (typeExprFromType func) (typeExprFromType arg)
  | .func arg ret => .func .default (typeExprFromType arg) (typeExprFromType ret)
  | .tuple elems => .tuple .default (typeExprsFromTypes elems)
  | .record fields => .record .default (typeFieldsFromTypes fields)

def typeExprsFromTypes : List Typ → List TypeExpr
  | [] => []
  | typ :: types => typeExprFromType typ :: typeExprsFromTypes types

def typeFieldsFromTypes : List (Symbol × Typ) → List (Symbol × TypeExpr × Option String)
  | [] => []
  | (name, typ) :: fields => (name, typeExprFromType typ, none) :: typeFieldsFromTypes fields

end

theorem typeExprsFromTypes_eq_map (types : List Typ) :
    typeExprsFromTypes types = types.map typeExprFromType := by
  induction types with
  | nil => rfl
  | cons typ types hypothesis => rw [typeExprsFromTypes, hypothesis, List.map_cons]

theorem typeFieldsFromTypes_eq_map (fields : List (Symbol × Typ)) :
    typeFieldsFromTypes fields =
      fields.map fun field => (field.1, typeExprFromType field.2, none) := by
  induction fields with
  | nil => rfl
  | cons field fields hypothesis => rw [typeFieldsFromTypes, hypothesis, List.map_cons]

/-- The type is `Result` applied to its error. -/
def Typ.IsResultOfError (typ : Typ) : Prop :=
  ∃ err, typ = .app (.con (.builtin .result)) err

theorem typeExprFromType_app {func arg : Typ} (plain : ¬func.IsResultOfError) :
    typeExprFromType (.app func arg) =
      .app .default (typeExprFromType func) (typeExprFromType arg) := by
  rw [typeExprFromType.eq_def]
  split
  · contradiction
  · contradiction
  · next err ok same =>
      cases same
      exact absurd ⟨err, rfl⟩ plain
  · next same =>
      cases same
      rfl
  all_goals contradiction

/-! ## Names of an expression -/

/-- Every name of the type expression satisfies the condition. -/
inductive TypeExpr.EveryName (holds : Symbol → Prop) : TypeExpr → Prop
  | name {span : Span} {reference : NameRef} (isName : holds reference.toDottedSymbol) :
      EveryName holds (.name span reference)
  | app {span : Span} {func arg : TypeExpr} (onFunc : EveryName holds func)
      (onArg : EveryName holds arg) : EveryName holds (.app span func arg)
  | func {span : Span} {arg ret : TypeExpr} (onArg : EveryName holds arg)
      (onRet : EveryName holds ret) : EveryName holds (.func span arg ret)
  | tuple {span : Span} {elems : List TypeExpr}
      (onElems : ∀ elem ∈ elems, EveryName holds elem) : EveryName holds (.tuple span elems)
  | record {span : Span} {fields : List (Symbol × TypeExpr × Option String)}
      (onFields : ∀ field ∈ fields, EveryName holds field.2.1) :
      EveryName holds (.record span fields)

theorem TypeExpr.everyName {holds : Symbol → Prop} (all : ∀ name, holds name) :
    ∀ expr : TypeExpr, expr.EveryName holds
  | .name _ _ => EveryName.name (all _)
  | .app _ head arg => EveryName.app (everyName all head) (everyName all arg)
  | .func _ arg ret => EveryName.func (everyName all arg) (everyName all ret)
  | .tuple _ elems => EveryName.tuple fun elem _ => everyName all elem
  | .record _ fields => EveryName.record fun field _ => everyName all field.2.1
decreasing_by
  all_goals try decreasing_tactic
  next member =>
    have smaller := List.sizeOf_lt_of_mem member
    have part := sizeOf_snd_lt field
    have inner := sizeOf_fst_lt field.2
    simp only [TypeExpr.record.sizeOf_spec]
    omega

/-- The names of the expression of a type are those of its variables and constructors. -/
theorem Typ.Every.everyName {holds : Symbol → Prop} {labels : List Symbol → Prop} {typ : Typ}
    (every : typ.Every (fun typeVar => holds typeVar.displayName)
      (fun const => holds const.nameStr) labels) : (typeExprFromType typ).EveryName holds := by
  induction every with
  | var isVar => exact .name isVar
  | con isCon => exact .name isCon
  | @app func arg _ _ hypothesisFunc hypothesisArg =>
      by_cases isResult : func.IsResultOfError
      · obtain ⟨err, rfl⟩ := isResult
        cases hypothesisFunc with
        | app onResult onErr =>
            exact .app (.app onResult hypothesisArg) onErr
      · rw [typeExprFromType_app isResult]
        exact .app hypothesisFunc hypothesisArg
  | func _ _ hypothesisArg hypothesisRet => exact .func hypothesisArg hypothesisRet
  | tuple _ hypothesis =>
      rw [typeExprFromType, typeExprsFromTypes_eq_map]
      refine .tuple fun elem member => ?_
      obtain ⟨typ, inside, rfl⟩ := List.mem_map.mp member
      exact hypothesis typ inside
  | record _ _ hypothesis =>
      rw [typeExprFromType, typeFieldsFromTypes_eq_map]
      refine .record fun field member => ?_
      obtain ⟨typ, inside, rfl⟩ := List.mem_map.mp member
      exact hypothesis typ inside

/-! ## Lowering by names -/

/-- The lowering takes a name for what it stands for, and the other type expressions for
what their parts stand for. -/
structure LowersByName (lower : TypeExpr → Except TypeError Typ)
    (resolve : Symbol → Option Typ) : Prop where
  name : ∀ {span reference typ}, lower (.name span reference) = .ok typ ↔
    resolve reference.toDottedSymbol = some typ
  app : ∀ {span func arg typ}, lower (.app span func arg) = .ok typ ↔
    ∃ onFunc onArg, lower func = .ok onFunc ∧ lower arg = .ok onArg ∧
      typ = typeAppWithResultSyntax onFunc onArg
  func : ∀ {span arg ret typ}, lower (.func span arg ret) = .ok typ ↔
    ∃ onArg onRet, lower arg = .ok onArg ∧ lower ret = .ok onRet ∧ typ = .func onArg onRet
  tuple : ∀ {span elems typ}, lower (.tuple span elems) = .ok typ ↔
    ∃ types, List.Forall₂ (fun elem typ => lower elem = .ok typ) elems types ∧
      typ = .tuple types
  record : ∀ {span fields typ}, lower (.record span fields) = .ok typ ↔
    ∃ types, List.Forall₂ (fun (field : Symbol × TypeExpr × Option String) (typ : Symbol × Typ) =>
      typ.1 = field.1 ∧ lower field.2.1 = .ok typ.2) fields types ∧ typ = .mkRecord types

section Instances

variable {adts : SymbolMap AdtDecl} {aliases : SymbolMap TypeAlias} {vars : SymbolMap TypeVar}
  {ts : TypeSystem} {decl : TypeDecl} {params : SymbolMap TypeVar}

/-- What a name stands for in an annotation. -/
def annotationName (adts : SymbolMap AdtDecl) (aliases : SymbolMap TypeAlias)
    (vars : SymbolMap TypeVar) (reference : Symbol) : Option Typ :=
  let name := normalizeTypeName reference
  match annotationTypeArity adts aliases name with
  | some arity => some (.named name arity)
  | none => (vars.lookup name).map Typ.var

/-- What a name stands for in a declaration. -/
def declarationName (ts : TypeSystem) (decl : TypeDecl) (params : SymbolMap TypeVar)
    (reference : Symbol) : Option Typ :=
  match params.lookup reference with
  | some typeVar => some (.var typeVar)
  | none =>
      let name := normalizeTypeName reference
      (typeArity ts decl name).map (.named name)

theorem typesFromAnnotations_eq_mapM (elems : List TypeExpr) :
    typesFromAnnotations adts aliases vars elems =
      elems.mapM (typeFromAnnotationRaw adts aliases vars) := by
  induction elems with
  | nil => rfl
  | cons elem elems hypothesis => rw [typesFromAnnotations, hypothesis, List.mapM_cons]

theorem fieldsFromAnnotations_eq_mapM (fields : List (Symbol × TypeExpr × Option String)) :
    fieldsFromAnnotations adts aliases vars fields =
      fields.mapM fun field => do
        return (field.1, ← typeFromAnnotationRaw adts aliases vars field.2.1) := by
  induction fields with
  | nil => rfl
  | cons field fields hypothesis =>
      rw [fieldsFromAnnotations, hypothesis, List.mapM_cons, bind_assoc]
      rfl

theorem typesFromExprs_eq_mapM (elems : List TypeExpr) :
    typesFromExprs ts decl params elems = elems.mapM (typeFromExpr ts decl params) := by
  induction elems with
  | nil => rfl
  | cons elem elems hypothesis => rw [typesFromExprs, hypothesis, List.mapM_cons]

theorem fieldsFromExprs_eq_mapM (fields : List (Symbol × TypeExpr × Option String)) :
    fieldsFromExprs ts decl params fields =
      fields.mapM fun field => do return (field.1, ← typeFromExpr ts decl params field.2.1) := by
  induction fields with
  | nil => rfl
  | cons field fields hypothesis =>
      rw [fieldsFromExprs, hypothesis, List.mapM_cons, bind_assoc]
      rfl

theorem withName_eq_ok {outcome : Except TypeError Typ} {name : Symbol} {field : Symbol × Typ} :
    (do return (name, ← outcome) : Except TypeError (Symbol × Typ)) = .ok field ↔
      field.1 = name ∧ outcome = .ok field.2 := by
  cases outcome with
  | error error => exact ⟨fun same => (nomatch same), fun same => (nomatch same.2)⟩
  | ok typ =>
      constructor
      · rintro ⟨⟩
        exact ⟨rfl, rfl⟩
      · rintro ⟨rfl, ⟨⟩⟩
        rfl

/-- Annotations are lowered by their names. -/
theorem lowersByName_annotation : LowersByName (typeFromAnnotationRaw adts aliases vars)
    (annotationName adts aliases vars) where
  name {span reference typ} := by
    rw [typeFromAnnotationRaw, withSpanOf_eq_ok, annotationName]
    dsimp only
    cases annotationTypeArity adts aliases (normalizeTypeName reference.toDottedSymbol) with
    | some arity => simp
    | none => cases vars.lookup (normalizeTypeName reference.toDottedSymbol) <;> simp
  app {span func arg typ} := by
    rw [typeFromAnnotationRaw, withSpanOf_eq_ok]
    exact bind_bind_eq_ok
  func {span arg ret typ} := by
    rw [typeFromAnnotationRaw, withSpanOf_eq_ok]
    exact bind_bind_eq_ok
  tuple {span elems typ} := by
    rw [typeFromAnnotationRaw, withSpanOf_eq_ok, typesFromAnnotations_eq_mapM, bind_return_eq_ok]
    exact exists_congr fun types => and_congr mapM_eq_ok_iff Iff.rfl
  record {span fields typ} := by
    rw [typeFromAnnotationRaw, withSpanOf_eq_ok, fieldsFromAnnotations_eq_mapM, bind_return_eq_ok]
    refine exists_congr fun types => and_congr (mapM_eq_ok_iff.trans ?_) Iff.rfl
    simp only [withName_eq_ok]

/-- Declarations are lowered by their names. -/
theorem lowersByName_declaration : LowersByName (typeFromExpr ts decl params)
    (declarationName ts decl params) where
  name {span reference typ} := by
    rw [typeFromExpr, withSpanOf_eq_ok, declarationName]
    cases params.lookup reference.toDottedSymbol with
    | some typeVar => simp
    | none =>
        dsimp only
        cases typeArity ts decl (normalizeTypeName reference.toDottedSymbol) <;> simp
  app {span func arg typ} := by
    rw [typeFromExpr, withSpanOf_eq_ok]
    exact bind_bind_eq_ok
  func {span arg ret typ} := by
    rw [typeFromExpr, withSpanOf_eq_ok]
    exact bind_bind_eq_ok
  tuple {span elems typ} := by
    rw [typeFromExpr, withSpanOf_eq_ok, typesFromExprs_eq_mapM, bind_return_eq_ok]
    exact exists_congr fun types => and_congr mapM_eq_ok_iff Iff.rfl
  record {span fields typ} := by
    rw [typeFromExpr, withSpanOf_eq_ok, fieldsFromExprs_eq_mapM, bind_return_eq_ok]
    refine exists_congr fun types => and_congr (mapM_eq_ok_iff.trans ?_) Iff.rfl
    simp only [withName_eq_ok]

end Instances

/-! ## Lowered types -/

theorem Typ.Every.typeAppWithResultSyntax {var : TypeVar → Prop} {con : TypeConst → Prop}
    {labels : List Symbol → Prop} {func arg : Typ} (onFunc : func.Every var con labels)
    (onArg : arg.Every var con labels) :
    (RexLang.typeAppWithResultSyntax func arg).Every var con labels := by
  rw [RexLang.typeAppWithResultSyntax.eq_def]
  split
  · cases onFunc with
    | app onResult onOk => exact .app (.app onResult onArg) onOk
  · exact .app onFunc onArg

theorem typeAppWithResultSyntax_of_not_isResultOfError {func arg : Typ}
    (plain : ¬func.IsResultOfError) : typeAppWithResultSyntax func arg = .app func arg := by
  rw [typeAppWithResultSyntax.eq_def]
  split
  · next ok => exact absurd ⟨ok, rfl⟩ plain
  · rfl

theorem Typ.IsResultOfError.of_rename {assign : TypeVarId → TypeVar} {typ : Typ}
    (isResult : (typ.rename assign).IsResultOfError) : typ.IsResultOfError := by
  obtain ⟨err, same⟩ := isResult
  cases typ with
  | app head arg =>
      rw [Typ.rename_app] at same
      cases head with
      | con const =>
          cases same
          exact ⟨arg, rfl⟩
      | tuple elems => simp at same
      | record fields => simp at same
      | var _ | app _ _ | func _ _ => cases same
  | tuple elems => simp at same
  | record fields => simp at same
  | var _ | con _ | func _ _ => cases same

section Lowered

variable {lower : TypeExpr → Except TypeError Typ} {resolve : Symbol → Option Typ}

/-- The variables and constructors of a lowered type are those that its names stand for. -/
theorem LowersByName.every (byName : LowersByName lower resolve) {var : TypeVar → Prop}
    {con : TypeConst → Prop} {expr : TypeExpr} {typ : Typ}
    (names : expr.EveryName fun name =>
      ∀ typ, resolve name = some typ → typ.Every var con fun _ => True)
    (lowered : lower expr = .ok typ) : typ.Every var con fun _ => True := by
  induction names generalizing typ with
  | name isName => exact isName typ (byName.name.mp lowered)
  | app _ _ hypothesisFunc hypothesisArg =>
      obtain ⟨func, arg, onFunc, onArg, rfl⟩ := byName.app.mp lowered
      exact (hypothesisFunc onFunc).typeAppWithResultSyntax (hypothesisArg onArg)
  | func _ _ hypothesisArg hypothesisRet =>
      obtain ⟨arg, ret, onArg, onRet, rfl⟩ := byName.func.mp lowered
      exact .func (hypothesisArg onArg) (hypothesisRet onRet)
  | tuple _ hypothesis =>
      obtain ⟨types, onElems, rfl⟩ := byName.tuple.mp lowered
      refine .tuple fun typ member => ?_
      obtain ⟨elem, inside, onElem⟩ := exists_of_forall₂_mem_right onElems member
      exact hypothesis elem inside onElem
  | record _ hypothesis =>
      obtain ⟨types, onFields, rfl⟩ := byName.record.mp lowered
      refine .record trivial fun typ member => ?_
      obtain ⟨field, inside, -, onField⟩ :=
        exists_of_forall₂_mem_right onFields (List.mem_mergeSort.mp member)
      exact hypothesis field inside onField

/-- A type whose constructors stand for themselves is lowered to a renaming of itself. -/
theorem LowersByName.rename (byName : LowersByName lower resolve)
    {assign : TypeVarId → TypeVar} {labels : List Symbol → Prop} {typ : Typ}
    (canonical : typ.Canonical)
    (names : typ.Every
      (fun typeVar => resolve typeVar.displayName = some (.var (assign typeVar.id)))
      (fun const => resolve const.nameStr = some (.con const)) labels) :
    lower (typeExprFromType typ) = .ok (typ.rename assign) := by
  induction names with
  | var isVar => exact byName.name.mpr isVar
  | con isCon => exact byName.name.mpr isCon
  | @app func arg onFunc _ hypothesisFunc hypothesisArg =>
      cases canonical with
      | app canonicalFunc canonicalArg =>
          have loweredFunc := hypothesisFunc canonicalFunc
          have loweredArg := hypothesisArg canonicalArg
          by_cases isResult : func.IsResultOfError
          · obtain ⟨err, rfl⟩ := isResult
            obtain ⟨onResult, onErr, isResult, isErr, same⟩ := byName.app.mp loweredFunc
            cases onFunc with
            | app onHead _ =>
                cases onHead with
                | con isCon =>
                    cases (byName.name.mp isResult).symm.trans isCon
                    cases same
                    exact byName.app.mpr ⟨_, _, byName.app.mpr ⟨_, _, isResult, loweredArg, rfl⟩,
                      isErr, rfl⟩
          · rw [typeExprFromType_app isResult]
            refine byName.app.mpr ⟨_, _, loweredFunc, loweredArg, ?_⟩
            rw [typeAppWithResultSyntax_of_not_isResultOfError fun renamed =>
              isResult renamed.of_rename, Typ.rename_app]
  | func _ _ hypothesisArg hypothesisRet =>
      cases canonical with
      | func canonicalArg canonicalRet =>
          exact byName.func.mpr
            ⟨_, _, hypothesisArg canonicalArg, hypothesisRet canonicalRet, rfl⟩
  | @tuple elems _ hypothesis =>
      cases canonical with
      | tuple canonicalElems =>
          rw [typeExprFromType, typeExprsFromTypes_eq_map]
          refine byName.tuple.mpr ⟨elems.map (Typ.rename assign), ?_, Typ.rename_tuple assign elems⟩
          rw [List.forall₂_map_left_iff, List.forall₂_map_right_iff, List.forall₂_same]
          exact fun elem member => hypothesis elem member (canonicalElems elem member)
  | @record fields _ _ hypothesis =>
      cases canonical with
      | record canonicalFields ordered =>
          rw [typeExprFromType, typeFieldsFromTypes_eq_map]
          refine byName.record.mpr
            ⟨fields.map fun field => (field.1, field.2.rename assign), ?_, ?_⟩
          · rw [List.forall₂_map_left_iff, List.forall₂_map_right_iff, List.forall₂_same]
            exact fun field member =>
              ⟨rfl, hypothesis field member (canonicalFields field member)⟩
          · rw [Typ.rename_record]
            refine (Typ.mkRecord_of_le ?_).symm
            simpa [List.map_map, Function.comp_def] using ordered

end Lowered

end RexLang
