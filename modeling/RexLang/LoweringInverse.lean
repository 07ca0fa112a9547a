import Mathlib.Data.Fintype.EquivFin
import RexLang.TypeExpressions
import RexLang.WireRenaming
import RexLang.AliasReplacement

/-!
# Lowering the expression of a type

Every type of a type system is lowered from its own type expression, up to the names of
its variables, if and only if the variables have different names and none of them, and
no constructor, is written with the name of another type.
-/

namespace RexLang

/-! ## Expanded types -/

theorem exists_named (name : Symbol) (arity : Nat) :
    ∃ const : TypeConst, Typ.named name arity = .con const ∧ const.nameStr = name := by
  rw [Typ.named]
  cases isBuiltin : BuiltinTypeId.fromName name with
  | none => exact ⟨.user name arity, rfl, rfl⟩
  | some id =>
      have isName : id.asStr = name := by simpa using List.find?_some isBuiltin
      by_cases same : id.arity = arity
      · exact ⟨.builtin id, if_pos same, isName⟩
      · exact ⟨.user name arity, if_neg same, rfl⟩

theorem normalizeTypeName_ne (name : Symbol) : normalizeTypeName name ≠ "str" := by
  rw [normalizeTypeName]
  split
  · decide
  · assumption

theorem normalizeTypeName_of_ne {name : Symbol} (other : name ≠ "str") :
    normalizeTypeName name = name :=
  if_neg other

/-- Aliases as declarations register them: no name of a builtin type, and bodies over their
parameters that never say `str`. -/
structure SoundAliases (aliases : SymbolMap TypeAlias) : Prop where
  notBuiltin : ∀ name found, aliases.lookup name = some found → BuiltinTypeId.fromName name = none
  bodies : ∀ name found body, aliases.lookup name = some found → found.typ = some body →
    body.Every (fun typeVar => ∃ param ∈ found.params, param.var = typeVar)
      (fun const => const.nameStr ≠ "str") fun _ => True

theorem TypeAlias.assignment_mem {found : TypeAlias} {args : List Typ}
    (length : args.length = found.params.length) {param : AdtParam}
    (member : param ∈ found.params) : found.assignment args param.var ∈ args := by
  have substitution : found.substitution args =
      ((found.params.zip args).map fun entry => (entry.1.var.id, entry.2)).reverse := by
    rw [TypeAlias.substitution, List.foldl_flip_cons_eq_append, List.append_nil]
  have isSome : ((found.substitution args).lookup param.var.id).isSome := by
    rw [isSome_lookup_iff, substitution, List.map_reverse, List.map_map, List.mem_reverse]
    rw [← List.map_fst_zip length.ge] at member
    obtain ⟨entry, inside, rfl⟩ := List.mem_map.mp member
    exact List.mem_map.mpr ⟨entry, inside, rfl⟩
  obtain ⟨arg, lookup⟩ := Option.isSome_iff_exists.mp isSome
  rw [TypeAlias.assignment, lookup, Option.getD_some]
  have inside := mem_of_lookup lookup
  rw [substitution, List.mem_reverse] at inside
  obtain ⟨entry, inside, same⟩ := List.mem_map.mp inside
  rw [← (Prod.mk.inj same).2]
  exact (List.of_mem_zip inside).2

section Expanded

variable {aliases : SymbolMap TypeAlias} {var : TypeVar → Prop} {con : TypeConst → Prop}

theorem Typ.Every.monoCon {strong : TypeConst → Prop} {labels : List Symbol → Prop} {typ : Typ}
    (every : typ.Every var strong labels) (implies : ∀ const, strong const → con const) :
    typ.Every var con labels := by
  induction every with
  | var isVar => exact .var isVar
  | con isCon => exact .con (implies _ isCon)
  | app _ _ onFunc onArg => exact .app onFunc onArg
  | func _ _ onArg onRet => exact .func onArg onRet
  | tuple _ onElems => exact .tuple onElems
  | record isRecord _ onFields => exact .record isRecord onFields

theorem Typ.Every.spine_nil {labels : List Symbol → Prop} {typ : Typ}
    (every : typ.Every var con labels) : (typ.spine []).1.Every var con labels ∧
      ∀ arg ∈ (typ.spine []).2, arg.Every var con labels :=
  every.spine fun _ member => absurd member List.not_mem_nil

theorem Typ.Every.bindVars {assign : TypeVar → Typ} {before : TypeVar → Prop} {typ : Typ}
    (every : typ.Every before con fun _ => True)
    (assigned : ∀ typeVar, before typeVar → (assign typeVar).Every var con fun _ => True) :
    (typ.bindVars assign).Every var con fun _ => True := by
  induction every with
  | var isVar => exact assigned _ isVar
  | con isCon => exact .con isCon
  | app _ _ onFunc onArg => exact .app onFunc onArg
  | func _ _ onArg onRet => exact .func onArg onRet
  | tuple _ hypothesis =>
      rw [Typ.bindVars_tuple]
      exact .tuple (List.forall_mem_map.mpr hypothesis)
  | record _ _ hypothesis =>
      rw [Typ.bindVars_record]
      exact .record trivial (List.forall_mem_map.mpr hypothesis)

section Parts

variable {expandBody : Symbol → TypeAlias → List Typ → Except TypeError Typ}
  (onBody : ∀ name found args result, aliases.lookup name = some found →
    args.length = found.params.length → (∀ arg ∈ args, arg.Every var con fun _ => True) →
      expandBody name found args = .ok result → result.Every var con fun _ => True)

include onBody

theorem every_expandHead {typ result : Typ} (every : typ.Every var con fun _ => True)
    (expanded : expandHead aliases expandBody typ = .ok result) :
    result.Every var con fun _ => True := by
  rcases @expandHead_cases aliases expandBody typ with
    ⟨-, same⟩ | ⟨name, found, args, applies, same⟩
  · cases same.symm.trans expanded
    exact every
  · obtain ⟨const, spine, -⟩ := applies.spine
    have onArgs := every.spine_nil.2
    rw [spine] at onArgs
    exact onBody name found args result applies.lookup applies.length onArgs
      (same.symm.trans expanded)

theorem every_expandParts {typ result : Typ} (every : typ.Every var con fun _ => True)
    (expanded : expandParts aliases expandBody typ = .ok result) :
    result.Every var con fun _ => True := by
  induction every generalizing result with
  | var isVar =>
      cases expandParts_var_iff.mp expanded
      exact .var isVar
  | con isCon =>
      rw [expandParts] at expanded
      exact every_expandHead onBody (.con isCon) expanded
  | app _ _ hypothesisFunc hypothesisArg =>
      obtain ⟨func, arg, onFunc, onArg, head⟩ := expandParts_app_iff.mp expanded
      exact every_expandHead onBody (.app (hypothesisFunc onFunc) (hypothesisArg onArg)) head
  | func _ _ hypothesisArg hypothesisRet =>
      obtain ⟨arg, ret, onArg, onRet, rfl⟩ := expandParts_func_iff.mp expanded
      exact .func (hypothesisArg onArg) (hypothesisRet onRet)
  | tuple _ hypothesis =>
      obtain ⟨results, onElems, rfl⟩ := expandParts_tuple_iff.mp expanded
      refine .tuple fun result member => ?_
      obtain ⟨elem, inside, onElem⟩ := exists_of_forall₂_mem_right onElems member
      exact hypothesis elem inside onElem
  | record _ _ hypothesis =>
      obtain ⟨results, onFields, rfl⟩ := expandParts_record_iff.mp expanded
      refine .record trivial fun result member => ?_
      obtain ⟨field, inside, -, onField⟩ :=
        exists_of_forall₂_mem_right onFields (List.mem_mergeSort.mp member)
      exact hypothesis field inside onField

end Parts

/-- The variables of an expanded type are variables of the type, and the expansion puts no
constructor `str` in it. -/
theorem SoundAliases.every_expandTypeAliases (sound : SoundAliases aliases)
    (allowed : ∀ const : TypeConst, const.nameStr ≠ "str" → con const) {typ result : Typ}
    (every : typ.Every var con fun _ => True)
    (expanded : expandTypeAliases aliases typ = .ok result) :
    result.Every var con fun _ => True := by
  replace expanded := expandFreely_of_inner expanded
  generalize aliases.length + 1 = depth at expanded
  induction depth generalizing typ result with
  | zero => cases expanded
  | succ depth hypothesis =>
      refine every_expandParts (fun name found args result lookup length onArgs onBody => ?_)
        every expanded
      cases hasBody : found.typ with
      | none =>
          rw [hasBody] at onBody
          cases onBody
      | some body =>
          rw [hasBody] at onBody
          dsimp only at onBody
          rw [TypeAlias.apply_substitution] at onBody
          have onParams := (sound.bodies name found body lookup hasBody).monoCon allowed
          refine hypothesis (onParams.bindVars ?_) onBody
          rintro _ ⟨param, member, rfl⟩
          exact onArgs _ (TypeAlias.assignment_mem length member)

end Expanded

/-! ## Registered aliases -/

theorem soundAliases_new : SoundAliases TypeSystem.new.aliases :=
  ⟨fun _ _ lookup => (by cases lookup), fun _ _ _ lookup => (by cases lookup)⟩

theorem SoundAliases.insert {aliases : SymbolMap TypeAlias} (sound : SoundAliases aliases)
    {name : Symbol} {found : TypeAlias} (notBuiltin : BuiltinTypeId.fromName name = none)
    (onBody : ∀ body, found.typ = some body →
      body.Every (fun typeVar => ∃ param ∈ found.params, param.var = typeVar)
        (fun const => const.nameStr ≠ "str") fun _ => True) :
    SoundAliases (aliases.insert name found) := by
  refine ⟨fun other header lookup => ?_, fun other header body lookup hasBody => ?_⟩
  all_goals rw [lookup_insert] at lookup
  · by_cases same : other = name
    · exact same ▸ notBuiltin
    · rw [if_neg same] at lookup
      exact sound.notBuiltin other header lookup
  · by_cases same : other = name
    · rw [if_pos same] at lookup
      cases lookup
      exact onBody body hasBody
    · rw [if_neg same] at lookup
      exact sound.bodies other header body lookup hasBody

/-- The names of the parameters, each with the variable of the last parameter of that name. -/
def paramMap (params : List AdtParam) : SymbolMap TypeVar :=
  params.foldl (fun (map : SymbolMap TypeVar) param => map.insert param.name param.var) []

theorem lookup_foldl_insert (params : List AdtParam) (map : SymbolMap TypeVar) (name : Symbol) :
    (params.foldl (fun (map : SymbolMap TypeVar) param => map.insert param.name param.var)
        map).lookup name =
      ((params.reverse.find? (·.name = name)).map AdtParam.var).or (map.lookup name) := by
  induction params generalizing map with
  | nil => rfl
  | cons param params hypothesis =>
      rw [List.foldl_cons, hypothesis, lookup_insert, List.reverse_cons, List.find?_append]
      cases params.reverse.find? (·.name = name) with
      | some found => rfl
      | none =>
          by_cases same : name = param.name
          · simp [same]
          · simp [same, Ne.symm same]

theorem lookup_paramMap (params : List AdtParam) (name : Symbol) :
    (paramMap params).lookup name = (params.reverse.find? (·.name = name)).map AdtParam.var :=
  (lookup_foldl_insert params [] name).trans Option.or_none

/-- The types of type expressions in a declaration are over its parameters. -/
theorem every_typeFromExpr {ts : TypeSystem} {decl : TypeDecl} {params : List AdtParam}
    {expr : TypeExpr} {typ : Typ} (built : typeFromExpr ts decl (paramMap params) expr = .ok typ) :
    typ.Every (fun typeVar => ∃ param ∈ params, param.var = typeVar)
      (fun const => const.nameStr ≠ "str") fun _ => True := by
  refine lowersByName_declaration.every (TypeExpr.everyName (fun name part resolved => ?_) expr)
    built
  rw [declarationName, lookup_paramMap] at resolved
  cases isParam : params.reverse.find? (·.name = name) with
  | some param =>
      rw [isParam] at resolved
      cases resolved
      exact .var ⟨param, List.mem_reverse.mp (List.mem_of_find?_eq_some isParam), rfl⟩
  | none =>
      rw [isParam] at resolved
      obtain ⟨arity, -, rfl⟩ := Option.map_eq_some_iff.mp resolved
      obtain ⟨const, isConst, isName⟩ := exists_named (normalizeTypeName name) arity
      rw [isConst]
      exact .con (isName ▸ normalizeTypeName_ne name)

theorem SoundAliases.registerTypeDeclHeader {decl : TypeDecl} {ts next : TypeSystem}
    (sound : SoundAliases ts.aliases) (ran : RexLang.registerTypeDeclHeader decl ts = .ok next) :
    SoundAliases next.aliases := by
  rw [RexLang.registerTypeDeclHeader] at ran
  by_cases isBuiltin : (BuiltinTypeId.fromName decl.name).isSome
  · rw [if_pos isBuiltin] at ran
    cases ran
  · rw [if_neg isBuiltin] at ran
    by_cases known : (ts.adts.lookup decl.name).isSome ∨ (ts.aliases.lookup decl.name).isSome
    · rw [if_pos known] at ran
      cases ran
    · rw [if_neg known] at ran
      cases kind : decl.kind with
      | «alias» expr =>
          simp only [kind] at ran
          cases ran
          refine sound.insert (Option.not_isSome_iff_eq_none.mp isBuiltin) fun _ hasBody => ?_
          cases hasBody
      | adt =>
          simp only [kind] at ran
          cases ran
          exact sound

theorem SoundAliases.registerAliasBody {decl : TypeDecl} {ts next : TypeSystem}
    (sound : SoundAliases ts.aliases) (ran : RexLang.registerAliasBody decl ts = .ok next) :
    SoundAliases next.aliases := by
  rw [RexLang.registerAliasBody] at ran
  cases kind : decl.kind with
  | adt =>
      simp only [kind] at ran
      cases ran
      exact sound
  | «alias» expr =>
      simp only [kind] at ran
      cases isHeader : ts.aliases.lookup decl.name with
      | none =>
          simp only [isHeader] at ran
          cases ran
      | some header =>
          simp only [isHeader] at ran
          obtain ⟨typ, built, ran⟩ := exists_of_bind_eq_ok ran
          cases ran
          refine sound.insert (sound.notBuiltin _ _ isHeader) fun body hasBody => ?_
          cases hasBody
          exact every_typeFromExpr built

/-! ## Types of a type system -/

/-- The constructor is one of the type system, and no alias. -/
structure TypeConst.Declared (arityOf : Symbol → Option Nat) (aliases : SymbolMap TypeAlias)
    (const : TypeConst) : Prop where
  arity : arityOf const.nameStr = some const.arity
  named : Typ.named const.nameStr const.arity = .con const
  notAlias : aliases.lookup const.nameStr = none

/-- A type without aliases over the constructors of the type system, with its records in
order and one name for every variable. -/
structure Typ.BelongsTo (arityOf : Symbol → Option Nat) (aliases : SymbolMap TypeAlias)
    (names : TypeVarId → Symbol) (typ : Typ) : Prop where
  canonical : typ.Canonical
  every : typ.Every (fun typeVar => typeVar.displayName = names typeVar.id)
    (TypeConst.Declared arityOf aliases) fun _ => True

section Every

variable {var other : TypeVar → Prop} {con also : TypeConst → Prop}
  {labels more : List Symbol → Prop} {typ : Typ}

theorem Typ.Every.and (every : typ.Every var con labels) (both : typ.Every other also more) :
    typ.Every (fun typeVar => var typeVar ∧ other typeVar) (fun const => con const ∧ also const)
      labels := by
  induction every with
  | var isVar =>
      cases both with
      | var isOther => exact .var ⟨isVar, isOther⟩
  | con isCon =>
      cases both with
      | con isAlso => exact .con ⟨isCon, isAlso⟩
  | app _ _ hypothesisFunc hypothesisArg =>
      cases both with
      | app onFunc onArg => exact .app (hypothesisFunc onFunc) (hypothesisArg onArg)
  | func _ _ hypothesisArg hypothesisRet =>
      cases both with
      | func onArg onRet => exact .func (hypothesisArg onArg) (hypothesisRet onRet)
  | tuple _ hypothesis =>
      cases both with
      | tuple onElems =>
          exact .tuple fun elem member => hypothesis elem member (onElems elem member)
  | record isRecord _ hypothesis =>
      cases both with
      | record _ onFields =>
          exact .record isRecord fun field member => hypothesis field member (onFields field member)

theorem Typ.Every.of_rename {assign : TypeVarId → TypeVar}
    (every : (typ.rename assign).Every var con fun _ => True) :
    typ.Every (fun typeVar => var (assign typeVar.id)) con fun _ => True := by
  induction typ using Typ.inductionOn with
  | var typeVar =>
      cases every with
      | var isVar => exact .var isVar
  | con const =>
      cases every with
      | con isCon => exact .con isCon
  | app head arg hypothesisHead hypothesisArg =>
      cases every with
      | app onHead onArg => exact .app (hypothesisHead onHead) (hypothesisArg onArg)
  | func arg ret hypothesisArg hypothesisRet =>
      cases every with
      | func onArg onRet => exact .func (hypothesisArg onArg) (hypothesisRet onRet)
  | tuple elems hypothesis =>
      rw [Typ.rename_tuple] at every
      cases every with
      | tuple onElems =>
          exact .tuple fun elem member =>
            hypothesis elem member (onElems _ (List.mem_map_of_mem member))
  | record fields hypothesis =>
      rw [Typ.rename_record] at every
      cases every with
      | record _ onFields =>
          exact .record trivial fun field member =>
            hypothesis field member (onFields _ (List.mem_map_of_mem member))

theorem Typ.Every.of_mem (holds : TypeVarId → Prop)
    (every : typ.Every (fun typeVar => holds typeVar.id) con labels) {id : TypeVarId}
    (member : id ∈ typ.ftv) : holds id := by
  induction every with
  | var isVar =>
      rw [Typ.ftv, Finset.mem_singleton] at member
      exact member ▸ isVar
  | con isCon => simp [Typ.ftv] at member
  | app _ _ hypothesisFunc hypothesisArg =>
      rw [Typ.ftv, Finset.mem_union] at member
      exact member.elim hypothesisFunc hypothesisArg
  | func _ _ hypothesisArg hypothesisRet =>
      rw [Typ.ftv, Finset.mem_union] at member
      exact member.elim hypothesisArg hypothesisRet
  | tuple _ hypothesis =>
      rw [Typ.ftv, Typ.mem_ftvList] at member
      obtain ⟨elem, isElem, inside⟩ := member
      exact hypothesis elem isElem inside
  | record _ _ hypothesis =>
      rw [Typ.ftv, Typ.mem_ftvFields] at member
      obtain ⟨field, isField, inside⟩ := member
      exact hypothesis field isField inside

theorem Typ.Every.of_mem_ftv {assign : TypeVarId → TypeVar} {id : TypeVarId}
    (every : (typ.rename assign).Every var con fun _ => True) (member : id ∈ typ.ftv) :
    var (assign id) :=
  Typ.Every.of_mem (fun id => var (assign id)) every.of_rename member

/-- A type without aliases is its own expansion. -/
theorem Typ.Every.normal {aliases : SymbolMap TypeAlias}
    (every : typ.Every var (fun const => aliases.lookup const.nameStr = none) labels) :
    typ.Normal aliases := by
  have stuck : ∀ {typ : Typ}, typ.Every var (fun const => aliases.lookup const.nameStr = none)
      labels → ∀ name found args, ¬AppliesAlias aliases typ name found args := by
    rintro typ every name found args ⟨⟨const, spine, rfl⟩, lookup, -⟩
    have onHead := every.spine_nil.1
    rw [spine] at onHead
    cases onHead with
    | con notAlias => cases notAlias.symm.trans lookup
  induction every with
  | var _ => exact .var _
  | con notAlias => exact .con (stuck (.con notAlias))
  | app onFunc onArg hypothesisFunc hypothesisArg =>
      exact .app hypothesisFunc hypothesisArg (stuck (.app onFunc onArg))
  | func _ _ hypothesisArg hypothesisRet => exact .func hypothesisArg hypothesisRet
  | tuple _ hypothesis => exact .tuple hypothesis
  | record _ _ hypothesis => exact .record hypothesis

end Every

/-! ## Annotations -/

section Annotations

variable {adts : SymbolMap AdtDecl} {aliases : SymbolMap TypeAlias} {vars : SymbolMap TypeVar}
  {names : TypeVarId → Symbol} {typ : Typ}

/-- The names of the variables are declared, each with a variable of its own. -/
structure DeclaresNames (vars : SymbolMap TypeVar) (names : TypeVarId → Symbol) (typ : Typ) :
    Prop where
  declared : ∀ id ∈ typ.ftv, ∃ typeVar, vars.lookup (names id) = some typeVar
  distinct : ∀ name other typeVar otherVar, vars.lookup name = some typeVar →
    vars.lookup other = some otherVar → typeVar.id = otherVar.id → name = other

/-- The supply makes new variables after those of the map. -/
structure VarsBelow (vars : SymbolMap TypeVar) (supply : TypeVarSupply) : Prop where
  below : ∀ name typeVar, vars.lookup name = some typeVar → typeVar.id < supply.counter
  distinct : ∀ name other typeVar otherVar, vars.lookup name = some typeVar →
    vars.lookup other = some otherVar → typeVar.id = otherVar.id → name = other

theorem VarsBelow.insert {supply : TypeVarSupply} (varsBelow : VarsBelow vars supply)
    (param : Symbol) : VarsBelow (vars.insert param (supply.fresh (some param)).1)
      (supply.fresh (some param)).2 := by
  have lookups (name : Symbol) (typeVar : TypeVar)
      (lookup : (vars.insert param (supply.fresh (some param)).1).lookup name = some typeVar) :
      name = param ∧ typeVar.id = supply.counter ∨
        vars.lookup name = some typeVar ∧ typeVar.id < supply.counter := by
    rw [lookup_insert] at lookup
    by_cases same : name = param
    · rw [if_pos same] at lookup
      cases lookup
      exact .inl ⟨same, rfl⟩
    · rw [if_neg same] at lookup
      exact .inr ⟨lookup, varsBelow.below name typeVar lookup⟩
  refine ⟨fun name typeVar lookup => ?_, fun name other typeVar otherVar lookup inOther same => ?_⟩
  · show typeVar.id < supply.counter + 1
    rcases lookups name typeVar lookup with ⟨-, isNew⟩ | ⟨-, isOld⟩
    · exact Nat.lt_succ_of_le (Nat.le_of_eq isNew)
    · exact Nat.lt_succ_of_lt isOld
  · rcases lookups name typeVar lookup with ⟨isParam, isNew⟩ | ⟨inVars, isOld⟩
    · rcases lookups other otherVar inOther with ⟨isOther, -⟩ | ⟨-, isOld⟩
      · rw [isParam, isOther]
      · exact absurd (same.symm.trans isNew) (Nat.ne_of_lt isOld)
    · rcases lookups other otherVar inOther with ⟨-, isNew⟩ | ⟨inOther, -⟩
      · exact absurd (same.trans isNew) (Nat.ne_of_lt isOld)
      · exact varsBelow.distinct name other typeVar otherVar inVars inOther same

theorem extendTypeParams_declares {params : List Symbol} {supply later : TypeVarSupply}
    {extended : SymbolMap TypeVar} (varsBelow : VarsBelow vars supply)
    (ran : extendTypeParams params vars supply = (.ok extended, later)) :
    VarsBelow extended later ∧ ∀ name, name ∈ params ∨ (vars.lookup name).isSome →
      (extended.lookup name).isSome := by
  induction params generalizing vars supply with
  | nil =>
      cases ran
      exact ⟨varsBelow, fun name declared => declared.resolve_left (List.not_mem_nil)⟩
  | cons param params hypothesis =>
      rw [extendTypeParams] at ran
      by_cases known : (vars.lookup param).isSome
      · rw [if_pos known] at ran
        cases ran
      · rw [if_neg known] at ran
        obtain ⟨below, declares⟩ := hypothesis (varsBelow.insert param) ran
        refine ⟨below, fun name declared => declares name ?_⟩
        rw [lookup_insert]
        by_cases same : name = param
        · exact .inr (by rw [if_pos same]; rfl)
        · rw [if_neg same]
          refine declared.imp_left fun member => ?_
          exact (List.mem_cons.mp member).resolve_left same

/-- The declared parameters of a function declare the names of its types. -/
theorem declaresNames_extendTypeParams {params : List Symbol} {supply later : TypeVarSupply}
    (ran : extendTypeParams params [] supply = (.ok vars, later))
    (covered : ∀ id ∈ typ.ftv, names id ∈ params) : DeclaresNames vars names typ := by
  have varsBelow : VarsBelow [] supply :=
    ⟨fun _ _ lookup => (by cases lookup), fun _ _ _ _ lookup => (by cases lookup)⟩
  obtain ⟨below, declares⟩ := extendTypeParams_declares varsBelow ran
  refine ⟨fun id member => ?_, below.distinct⟩
  exact Option.isSome_iff_exists.mp (declares _ (.inl (covered id member)))

/-- The type is lowered from its own type expression. -/
def LowersBack (adts : SymbolMap AdtDecl) (aliases : SymbolMap TypeAlias)
    (vars : SymbolMap TypeVar) (typ : Typ) : Prop :=
  ∃ lowered, typeFromAnnotationExprVars adts aliases vars (typeExprFromType typ) = .ok lowered ∧
    typ.AlphaEquivalent lowered

/-- Different variables have different names, and none the name of a type of the type
system; no constructor is called `str`. -/
structure Typ.NamedApart (arityOf : Symbol → Option Nat) (names : TypeVarId → Symbol)
    (typ : Typ) : Prop where
  distinct : Set.InjOn names fun id => id ∈ typ.ftv
  notTypes : ∀ id ∈ typ.ftv, arityOf (normalizeTypeName (names id)) = none
  notStr : typ.Every (fun _ => True) (fun const => const.nameStr ≠ "str") fun _ => True

theorem isSome_annotationTypeArity_string :
    (annotationTypeArity adts aliases BuiltinTypeId.string.asStr).isSome := by
  rw [annotationTypeArity]
  split <;> rfl

theorem ne_str_of_not_type {name : Symbol}
    (notType : annotationTypeArity adts aliases (normalizeTypeName name) = none) :
    name ≠ "str" := by
  rintro rfl
  have isSome := @isSome_annotationTypeArity_string adts aliases
  rw [normalizeTypeName, if_pos rfl] at notType
  rw [notType] at isSome
  cases isSome

theorem Typ.Every.bound_ftv {var : TypeVar → Prop} {con : TypeConst → Prop}
    {labels : List Symbol → Prop} {typ : Typ} (every : typ.Every var con labels) :
    typ.Every (fun typeVar => typeVar.id ∈ typ.ftv) con labels :=
  every.bound fun _ member => member

theorem annotationName_declared {const : TypeConst}
    (declared : const.Declared (annotationTypeArity adts aliases) aliases)
    (notStr : const.nameStr ≠ "str") :
    annotationName adts aliases vars const.nameStr = some (.con const) := by
  rw [annotationName, normalizeTypeName_of_ne notStr, declared.arity]
  exact congrArg some declared.named

/-- A type without aliases is its own expansion, under any names of its variables. -/
theorem expandTypeAliases_rename {arityOf : Symbol → Option Nat}
    (belongs : typ.BelongsTo arityOf aliases names) (assign : TypeVarId → TypeVar) :
    expandTypeAliases aliases (typ.rename assign) = .ok (typ.rename assign) := by
  have notAlias := belongs.every.monoCon fun _ declared => declared.notAlias
  have renamed : (typ.rename assign).Every (fun _ => True)
      (fun const => aliases.lookup const.nameStr = none) fun _ => True :=
    notAlias.rename fun _ _ => trivial
  exact renamed.normal.expandParts (belongs.canonical.bindVars fun _ => .var _)

/-- A type with different names is lowered from its own type expression. -/
theorem lowersBack_of_namedApart
    (belongs : typ.BelongsTo (annotationTypeArity adts aliases) aliases names)
    (declares : DeclaresNames vars names typ)
    (apart : typ.NamedApart (annotationTypeArity adts aliases) names) :
    LowersBack adts aliases vars typ := by
  let assign (id : TypeVarId) : TypeVar := (vars.lookup (names id)).getD ⟨id, none⟩
  have isAssigned : ∀ id ∈ typ.ftv, vars.lookup (names id) = some (assign id) := by
    intro id member
    obtain ⟨typeVar, lookup⟩ := declares.declared id member
    simp [assign, lookup]
  have resolved := (belongs.every.and belongs.every.bound_ftv).and apart.notStr
  have lowered : typeFromAnnotationRaw adts aliases vars (typeExprFromType typ) =
      .ok (typ.rename assign) := by
    refine lowersByName_annotation.rename belongs.canonical
      ((resolved.mono ?_).monoCon ?_)
    · rintro typeVar ⟨⟨named, member⟩, -⟩
      have notType := apart.notTypes typeVar.id member
      rw [named, annotationName, notType, normalizeTypeName_of_ne (ne_str_of_not_type notType),
        isAssigned typeVar.id member, Option.map_some]
    · rintro const ⟨⟨declared, -⟩, notStr⟩
      exact annotationName_declared declared notStr
  have expanded := expandTypeAliases_rename belongs assign
  refine ⟨typ.rename assign, bind_eq_ok.mpr ⟨_, lowered, expanded⟩, assign, ?_, rfl⟩
  intro first inFirst second inSecond same
  exact apart.distinct inFirst inSecond (declares.distinct _ _ _ _ (isAssigned first inFirst)
    (isAssigned second inSecond) same)

/-- The variables of the lowered type are the declared ones of those names that no type
has, and no constructor of it is called `str`. -/
theorem every_lowered (sound : SoundAliases aliases)
    (belongs : typ.BelongsTo (annotationTypeArity adts aliases) aliases names) {lowered : Typ}
    (isLowered : typeFromAnnotationExprVars adts aliases vars (typeExprFromType typ) =
      .ok lowered) :
    lowered.Every
      (fun typeVar => ∃ id ∈ typ.ftv,
        annotationTypeArity adts aliases (normalizeTypeName (names id)) = none ∧
          vars.lookup (names id) = some typeVar)
      (fun const => const.nameStr ≠ "str") fun _ => True := by
  obtain ⟨raw, isRaw, expanded⟩ := bind_eq_ok.mp isLowered
  refine sound.every_expandTypeAliases (fun _ notStr => notStr) ?_ expanded
  have belonging := belongs.every.and belongs.every.bound_ftv
  refine lowersByName_annotation.every ((belonging.mono ?_).monoCon ?_).everyName isRaw
  · rintro typeVar ⟨named, member⟩ part resolved
    rw [named, annotationName] at resolved
    cases isType : annotationTypeArity adts aliases (normalizeTypeName (names typeVar.id)) with
    | some arity =>
        rw [isType] at resolved
        obtain ⟨const, isConst, isName⟩ :=
          exists_named (normalizeTypeName (names typeVar.id)) arity
        cases resolved
        rw [isConst]
        exact .con (isName ▸ normalizeTypeName_ne _)
    | none =>
        rw [isType, normalizeTypeName_of_ne (ne_str_of_not_type isType)] at resolved
        obtain ⟨declared, lookup, rfl⟩ := Option.map_eq_some_iff.mp resolved
        exact .var ⟨typeVar.id, member, isType, lookup⟩
  · rintro const ⟨declared, -⟩ part resolved
    have isType : ∃ arity,
        annotationTypeArity adts aliases (normalizeTypeName const.nameStr) = some arity := by
      by_cases isStr : const.nameStr = "str"
      · rw [normalizeTypeName, if_pos isStr]
        exact Option.isSome_iff_exists.mp isSome_annotationTypeArity_string
      · exact ⟨_, normalizeTypeName_of_ne isStr ▸ declared.arity⟩
    obtain ⟨arity, isType⟩ := isType
    rw [annotationName, isType] at resolved
    obtain ⟨found, isConst, isName⟩ := exists_named (normalizeTypeName const.nameStr) arity
    cases resolved
    rw [isConst]
    exact .con (isName ▸ normalizeTypeName_ne _)

/-- A type that is lowered from its own type expression has different names: otherwise the
lowered type has fewer variables. -/
theorem namedApart_of_lowersBack (sound : SoundAliases aliases)
    (belongs : typ.BelongsTo (annotationTypeArity adts aliases) aliases names)
    (back : LowersBack adts aliases vars typ) :
    typ.NamedApart (annotationTypeArity adts aliases) names := by
  obtain ⟨_, isLowered, assign, injective, rfl⟩ := back
  have every := every_lowered sound belongs isLowered
  have isDeclared : ∀ id : { id // id ∈ typ.ftv }, ∃ source : { id // id ∈ typ.ftv },
      annotationTypeArity adts aliases (normalizeTypeName (names source)) = none ∧
        vars.lookup (names source) = some (assign id) := by
    rintro ⟨id, member⟩
    obtain ⟨source, inside, declared⟩ := every.of_mem_ftv member
    exact ⟨⟨source, inside⟩, declared⟩
  choose source notType lookup using isDeclared
  have sameSource : ∀ first second, names (source first) = names (source second) →
      first = second := by
    intro first second same
    have lookups := (lookup first).symm.trans (same ▸ lookup second)
    exact Subtype.ext (injective first.2 second.2 (congrArg TypeVar.id (Option.some.inj lookups)))
  have onto : Function.Surjective source := Finite.surjective_of_injective
    fun first second same => sameSource first second (congrArg (fun id => names id.1) same)
  refine ⟨?_, ?_, every.of_rename.mono fun _ _ => trivial⟩
  · intro first inFirst second inSecond same
    obtain ⟨ofFirst, isFirst⟩ := onto ⟨first, inFirst⟩
    obtain ⟨ofSecond, isSecond⟩ := onto ⟨second, inSecond⟩
    have ofSame := sameSource ofFirst ofSecond (by rw [isFirst, isSecond]; exact same)
    rw [ofSame, isSecond] at isFirst
    exact (congrArg Subtype.val isFirst).symm
  · intro id member
    obtain ⟨ofId, isId⟩ := onto ⟨id, member⟩
    have noType := notType ofId
    rw [isId] at noType
    exact noType

end Annotations

end RexLang
