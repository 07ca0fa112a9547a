import RexLang.LoweringInverse
import RexLang.ShapeReading

/-!
# Declarations that are registered again

A module stages a declaration as a type declaration whose arguments are written as type
expressions, and registering it lowers them again.  The registered declaration equals the
original if and only if every name that the arguments are written with means what it stands
for.
-/

namespace RexLang

/-! ## Declarations as syntax -/

structure TypeVariantArg where
  typ : TypeExpr
  docs : Option String := none

structure TypeVariant where
  name : Symbol
  args : List TypeVariantArg
  docs : Option String := none

/-- A type declaration with the variants of `TypeDeclKind::Adt`. -/
structure AdtTypeDecl extends TypeDecl where
  variants : List TypeVariant

/-- `type_field_from_adt`. -/
def typeFieldFromAdt (field : AdtField) : Symbol × TypeExpr × Option String :=
  (field.name, typeExprFromType field.typ, field.docs)

/-- `type_variant_arg_from_adt`. -/
def typeVariantArgFromAdt : AdtArgument → TypeVariantArg
  | .positional typ docs => ⟨typeExprFromType typ, docs⟩
  | .record fields docs => ⟨.record .default (fields.map typeFieldFromAdt), docs⟩

/-- `type_variant_from_adt`. -/
def typeVariantFromAdt (variant : AdtVariant) : TypeVariant :=
  ⟨variant.name, variant.args.map typeVariantArgFromAdt, variant.docs⟩

/-- `type_decl_from_adt`. -/
def typeDeclFromAdt (adt : AdtDecl) : AdtTypeDecl where
  span := .default
  name := adt.name
  params := adt.params.map fun param => ⟨param.name, param.docs⟩
  kind := .adt
  docs := adt.docs
  variants := adt.variants.map typeVariantFromAdt

/-! ## Declarations from syntax -/

section FromDecl

variable (ts : TypeSystem) (decl : TypeDecl) (params : SymbolMap TypeVar)

/-- `type_from_expr` and then `expand_type_aliases`. -/
def expandedFromExpr (expr : TypeExpr) : Except TypeError Typ := do
  let typ ← typeFromExpr ts decl params expr
  expandTypeAliases ts.aliases typ

/-- A field of a record argument in `adt_from_decl`. -/
def adtFieldFromDecl (field : Symbol × TypeExpr × Option String) : Except TypeError AdtField := do
  let typ ← expandedFromExpr ts decl params field.2.1
  return ⟨field.1, typ, field.2.2⟩

/-- An argument of a variant in `adt_from_decl`. -/
def adtArgumentFromDecl (arg : TypeVariantArg) : Except TypeError AdtArgument :=
  match arg.typ with
  | .record _ fields => do
      let fields ← fields.mapM (adtFieldFromDecl ts decl params)
      return .record fields arg.docs
  | typ => do
      let typ ← expandedFromExpr ts decl params typ
      return .positional typ arg.docs

/-- A variant in `adt_from_decl`. -/
def adtVariantFromDecl (variant : TypeVariant) : Except TypeError AdtVariant := do
  let args ← variant.args.mapM (adtArgumentFromDecl ts decl params)
  return ⟨variant.name, args, variant.docs⟩

end FromDecl

/-- `adt_from_decl`. -/
def adtFromDecl (decl : AdtTypeDecl) (ts : TypeSystem) :
    Except TypeError AdtDecl × TypeVarSupply :=
  let (params, supply) := freshParams decl.params ts.supply
  (do
    let variants ← decl.variants.mapM
      (adtVariantFromDecl ts decl.toTypeDecl (paramMap params))
    return ⟨decl.name, params, variants, decl.docs⟩, supply)

/-- `register_type_decl` on an ADT, up to `register_adt`, which stores the declaration. -/
def registerAdtTypeDecl (decl : AdtTypeDecl) (ts : TypeSystem) : Except TypeError AdtDecl := do
  let ts ← registerTypeDeclHeader decl.toTypeDecl ts
  (adtFromDecl decl ts).1

/-! ## Parameters -/

/-- No later parameter has the name of this one. -/
def LastNamed (params : List AdtParam) (index : Nat) : Prop :=
  ∀ param, params[index]? = some param → ∀ later other, index < later →
    params[later]? = some other → other.name ≠ param.name

theorem exists_lastNamed {params : List AdtParam} {name : Symbol} {param : AdtParam}
    (found : params.reverse.find? (·.name = name) = some param) :
    ∃ index, params[index]? = some param ∧ param.name = name ∧ LastNamed params index := by
  obtain ⟨isNamed, before, after, same, notBefore⟩ := List.find?_eq_some_iff_append.mp found
  have isNamed : param.name = name := of_decide_eq_true isNamed
  have split : params = after.reverse ++ param :: before.reverse := by
    rw [← List.reverse_reverse params, same]
    simp
  refine ⟨after.length, ?_, isNamed, ?_⟩
  · rw [split, List.getElem?_append_right (by simp)]
    simp
  · intro current isCurrent later other isLater isOther sameName
    rw [split, List.getElem?_append_right (by simp)] at isCurrent
    rw [split, List.getElem?_append_right (by simpa using isLater.le)] at isOther
    have isParam : param = current := by simpa using isCurrent
    obtain ⟨distance, rfl⟩ := Nat.exists_eq_add_of_lt isLater
    have inBefore : before.reverse[distance]? = some other := by
      simpa [Nat.add_assoc, Nat.add_sub_cancel_left] using isOther
    have member := List.mem_reverse.mp (List.mem_of_getElem? inBefore)
    have notNamed := notBefore other member
    simp [sameName, ← isParam, isNamed] at notNamed

theorem paramPosition_of_nodup {params : List AdtParam}
    (distinct : (params.map fun param => param.var.id).Nodup) {index : Nat} {param : AdtParam}
    (isParam : params[index]? = some param) :
    paramPosition params param.var.id = some index := by
  have isSome : (paramPosition params param.var.id).isSome := by
    rw [paramPosition, isSome_lookup_iff, List.map_reverse, List.mem_reverse, List.map_map]
    exact List.mem_map.mpr ⟨(param, index), List.mem_zipIdx_iff_getElem?.mpr isParam, rfl⟩
  obtain ⟨position, isPosition⟩ := Option.isSome_iff_exists.mp isSome
  have member := List.mem_reverse.mp (mem_of_lookup isPosition)
  obtain ⟨⟨other, _⟩, inside, same⟩ := List.mem_map.mp member
  obtain ⟨sameId, rfl⟩ := Prod.mk.inj same
  have isOther := List.mem_zipIdx_iff_getElem?.mp inside
  have inBounds : index < (params.map fun param => param.var.id).length := by
    rw [List.length_map]
    exact (List.getElem?_eq_some_iff.mp isParam).1
  rw [isPosition]
  refine congrArg some ((List.getElem?_inj inBounds distinct).mp ?_).symm
  rw [List.getElem?_map, List.getElem?_map, isParam, isOther, Option.map_some, Option.map_some]
  exact congrArg some sameId.symm

theorem freshParams_eq (params : List TypeParam) (supply : TypeVarSupply) :
    (freshParams params supply).1 = (params.zipIdx supply.counter).map fun entry =>
      ⟨entry.1.name, ⟨entry.2, some entry.1.name⟩, entry.1.docs⟩ := by
  induction params generalizing supply with
  | nil => rfl
  | cons param params hypothesis =>
      rw [freshParams, List.zipIdx_cons, List.map_cons]
      exact congrArg (List.cons _) (hypothesis _)

/-- The parameters that the registered declaration gets. -/
def AdtDecl.freshParams (adt : AdtDecl) (supply : TypeVarSupply) : List AdtParam :=
  (RexLang.freshParams (typeDeclFromAdt adt).params supply).1

theorem AdtDecl.getElem?_freshParams (adt : AdtDecl) (supply : TypeVarSupply) (index : Nat) :
    (adt.freshParams supply)[index]? = adt.params[index]?.map fun param =>
      ⟨param.name, ⟨supply.counter + index, some param.name⟩, param.docs⟩ := by
  rw [AdtDecl.freshParams, freshParams_eq, List.getElem?_map, List.getElem?_zipIdx,
    typeDeclFromAdt, List.getElem?_map]
  cases adt.params[index]? <;> simp

theorem AdtDecl.length_freshParams (adt : AdtDecl) (supply : TypeVarSupply) :
    (adt.freshParams supply).length = adt.params.length := by
  rw [AdtDecl.freshParams, freshParams_eq, typeDeclFromAdt]
  simp

theorem AdtDecl.nodup_freshParams (adt : AdtDecl) (supply : TypeVarSupply) :
    ((adt.freshParams supply).map fun param => param.var.id).Nodup := by
  rw [AdtDecl.freshParams, freshParams_eq, List.map_map]
  have ids : ((fun param : AdtParam => param.var.id) ∘ fun entry : TypeParam × Nat =>
      (⟨entry.1.name, ⟨entry.2, some entry.1.name⟩, entry.1.docs⟩ : AdtParam)) = Prod.snd := rfl
  rw [ids, List.zipIdx_map_snd]
  exact List.nodup_range'

theorem AdtDecl.lastNamed_freshParams {adt : AdtDecl} {supply : TypeVarSupply} {index : Nat} :
    LastNamed (adt.freshParams supply) index ↔ LastNamed adt.params index := by
  simp only [LastNamed, AdtDecl.getElem?_freshParams, Option.map_eq_some_iff,
    forall_exists_index, and_imp, forall_apply_eq_imp_iff₂]
  refine forall₂_congr fun param _ => forall_congr' fun later => ?_
  constructor
  · intro last other isLater isOther
    exact last ⟨other.name, ⟨supply.counter + later, some other.name⟩, other.docs⟩ isLater
      other isOther rfl
  · rintro last _ isLater other isOther rfl
    exact last other isLater isOther

/-! ## Leaves of shapes -/

/-- Every leaf of the tree satisfies the condition. -/
inductive ShapeTree.Every {Leaf : Type} (holds : Leaf → Prop) : ShapeTree Leaf → Prop
  | leaf {leaf : Leaf} (isLeaf : holds leaf) : Every holds (.leaf leaf)
  | app {head arg : ShapeTree Leaf} (onHead : Every holds head) (onArg : Every holds arg) :
      Every holds (.app head arg)
  | func {arg ret : ShapeTree Leaf} (onArg : Every holds arg) (onRet : Every holds ret) :
      Every holds (.func arg ret)
  | tuple {elems : List (ShapeTree Leaf)} (onElems : ∀ elem ∈ elems, Every holds elem) :
      Every holds (.tuple elems)
  | record {fields : List (String × ShapeTree Leaf)}
      (onFields : ∀ field ∈ fields, Every holds field.2) : Every holds (.record fields)

namespace Typ

theorem shapeTrees_eq_map (params : List AdtParam) (elems : List Typ) :
    shapeTrees params elems = elems.map (shapeTree params) := by
  induction elems with
  | nil => rfl
  | cons elem elems hypothesis => rw [shapeTrees, hypothesis, List.map_cons]

theorem shapeFields_eq_map (params : List AdtParam) (fields : List (Symbol × Typ)) :
    shapeFields params fields = fields.map fun field => (field.1, field.2.shapeTree params) := by
  induction fields with
  | nil => rfl
  | cons field fields hypothesis => rw [shapeFields, hypothesis, List.map_cons]

/-- The leaves of the tree of a type are those of its variables and constructors. -/
theorem every_shapeTree_iff {params : List AdtParam} {holds : ShapeLeaf → Prop} {typ : Typ} :
    (typ.shapeTree params).Every holds ↔
      typ.Every (fun typeVar => holds (varLeaf params typeVar.id)) (fun const => holds (.con const))
        fun _ => True := by
  constructor
  · intro every
    induction typ using Typ.inductionOn with
    | var typeVar =>
        cases every with
        | leaf isLeaf => exact .var isLeaf
    | con const =>
        cases every with
        | leaf isLeaf => exact .con isLeaf
    | app head arg hypothesisHead hypothesisArg =>
        cases every with
        | app onHead onArg => exact .app (hypothesisHead onHead) (hypothesisArg onArg)
    | func arg ret hypothesisArg hypothesisRet =>
        cases every with
        | func onArg onRet => exact .func (hypothesisArg onArg) (hypothesisRet onRet)
    | tuple elems hypothesis =>
        rw [shapeTree, shapeTrees_eq_map] at every
        cases every with
        | tuple onElems =>
            exact .tuple fun elem member =>
              hypothesis elem member (onElems _ (List.mem_map_of_mem member))
    | record fields hypothesis =>
        rw [shapeTree, shapeFields_eq_map] at every
        cases every with
        | record onFields =>
            exact .record trivial fun field member =>
              hypothesis field member (onFields _ (List.mem_map_of_mem member))
  · intro every
    induction every with
    | var isVar => exact .leaf isVar
    | con isCon => exact .leaf isCon
    | app _ _ hypothesisHead hypothesisArg => exact .app hypothesisHead hypothesisArg
    | func _ _ hypothesisArg hypothesisRet => exact .func hypothesisArg hypothesisRet
    | tuple _ hypothesis =>
        rw [shapeTree, shapeTrees_eq_map]
        exact .tuple (List.forall_mem_map.mpr hypothesis)
    | record _ _ hypothesis =>
        rw [shapeTree, shapeFields_eq_map]
        exact .record (List.forall_mem_map.mpr hypothesis)

/-- A renaming that keeps the positions of the variables keeps the tree. -/
theorem shapeTree_rename {params renamed : List AdtParam} {assign : TypeVarId → TypeVar}
    {typ : Typ} (same : ∀ id ∈ typ.ftv, varLeaf renamed (assign id).id = varLeaf params id) :
    (typ.rename assign).shapeTree renamed = typ.shapeTree params := by
  induction typ using Typ.inductionOn with
  | var typeVar => exact congrArg ShapeTree.leaf (same typeVar.id (by simp [ftv]))
  | con const => rfl
  | app head arg hypothesisHead hypothesisArg =>
      rw [rename_app, shapeTree, shapeTree,
        hypothesisHead fun id member => same id (by simp [ftv, member]),
        hypothesisArg fun id member => same id (by simp [ftv, member])]
  | func arg ret hypothesisArg hypothesisRet =>
      rw [rename_func, shapeTree, shapeTree,
        hypothesisArg fun id member => same id (by simp [ftv, member]),
        hypothesisRet fun id member => same id (by simp [ftv, member])]
  | tuple elems hypothesis =>
      rw [rename_tuple, shapeTree, shapeTree, shapeTrees_eq_map, shapeTrees_eq_map, List.map_map]
      refine congrArg ShapeTree.tuple (List.map_congr_left fun elem member => ?_)
      exact hypothesis elem member fun id inside =>
        same id (by rw [ftv, mem_ftvList]; exact ⟨elem, member, inside⟩)
  | record fields hypothesis =>
      rw [rename_record, shapeTree, shapeTree, shapeFields_eq_map, shapeFields_eq_map,
        List.map_map]
      refine congrArg ShapeTree.record (List.map_congr_left fun field member => ?_)
      refine congrArg (Prod.mk field.1) (hypothesis field member fun id inside => ?_)
      exact same id (by rw [ftv, mem_ftvFields]; exact ⟨field, member, inside⟩)

end Typ

/-- Every variable and constructor in the fields of the declaration. -/
def AdtDecl.Every (var : TypeVar → Prop) (con : TypeConst → Prop) (adt : AdtDecl) : Prop :=
  ∀ arg, adt.HasArgument arg → ∀ typ ∈ arg.types, typ.Every var con fun _ => True

theorem AdtArgument.every_typ_iff {var : TypeVar → Prop} {con : TypeConst → Prop}
    {arg : AdtArgument} : (arg.typ.Every var con fun _ => True) ↔
      ∀ typ ∈ arg.types, typ.Every var con fun _ => True := by
  cases arg with
  | positional typ docs => simp [AdtArgument.typ, AdtArgument.types]
  | record fields docs =>
      rw [AdtArgument.typ, AdtArgument.types, List.forall_mem_map]
      constructor
      · rintro (_ | _ | _ | _ | _ | ⟨-, onFields⟩) field member
        exact onFields (field.name, field.typ)
          (List.mem_mergeSort.mpr (List.mem_map_of_mem member))
      · intro onFields
        refine .record trivial fun entry member => ?_
        obtain ⟨field, inside, rfl⟩ := List.mem_map.mp (List.mem_mergeSort.mp member)
        exact onFields field inside

theorem AdtDecl.every_iff {var : TypeVar → Prop} {con : TypeConst → Prop} {adt : AdtDecl} :
    adt.Every var con ↔ ∀ variant ∈ adt.variants, ∀ arg ∈ variant.args,
      arg.typ.Every var con fun _ => True := by
  constructor
  · intro every variant isVariant arg isArg
    exact AdtArgument.every_typ_iff.2 (every arg ⟨variant, isVariant, isArg⟩)
  · rintro each arg ⟨variant, isVariant, isArg⟩
    exact AdtArgument.every_typ_iff.1 (each variant isVariant arg isArg)

/-- Equal declarations have the same leaves. -/
theorem AdtDecl.SameDeclaration.every {first second : AdtDecl}
    (same : first.SameDeclaration second) (holds : ShapeLeaf → Prop)
    (every : second.Every (fun typeVar => holds (varLeaf second.params typeVar.id))
      fun const => holds (.con const)) :
    first.Every (fun typeVar => holds (varLeaf first.params typeVar.id))
      fun const => holds (.con const) := by
  refine AdtDecl.every_iff.2 fun variant isVariant arg isArg => ?_
  obtain ⟨other, isOther, sameShape⟩ :=
    List.mem_map.mp (same.variants.subset (List.mem_map_of_mem isVariant))
  have sameArgs : (other.args.map fun arg => arg.typ.shapeTree second.params) =
      variant.args.map fun arg => arg.typ.shapeTree first.params := congrArg Prod.snd sameShape
  obtain ⟨otherArg, isOtherArg, sameTree⟩ :=
    List.mem_map.mp (sameArgs ▸ List.mem_map_of_mem isArg)
  refine Typ.every_shapeTree_iff.1 ?_
  rw [← sameTree]
  exact Typ.every_shapeTree_iff.2 (AdtDecl.every_iff.1 every other isOther otherArg isOtherArg)

/-! ## Arguments -/

section Arguments

variable {ts : TypeSystem} {decl : TypeDecl} {params : SymbolMap TypeVar}

theorem exists_of_typeExprFromType_eq_record {typ : Typ} {span : Span}
    {exprs : List (Symbol × TypeExpr × Option String)}
    (same : typeExprFromType typ = .record span exprs) :
    ∃ fields, typ = .record fields ∧ exprs = typeFieldsFromTypes fields := by
  cases typ with
  | record fields =>
      cases same
      exact ⟨fields, rfl, rfl⟩
  | app head arg =>
      by_cases isResult : head.IsResultOfError
      · obtain ⟨err, rfl⟩ := isResult
        cases same
      · rw [typeExprFromType_app isResult] at same
        cases same
  | var _ | con _ | func _ _ | tuple _ => cases same

theorem adtArgumentFromDecl_of_ne {expr : TypeExpr} (docs : Option String)
    (other : ∀ span fields, expr ≠ .record span fields) :
    adtArgumentFromDecl ts decl params ⟨expr, docs⟩ = (do
      let typ ← expandedFromExpr ts decl params expr
      return .positional typ docs) := by
  cases expr with
  | record span fields => exact absurd rfl (other span fields)
  | name _ _ | app _ _ _ | func _ _ _ | tuple _ _ => rfl

theorem adtFieldFromDecl_eq_ok {entry : Symbol × TypeExpr × Option String} {field : AdtField} :
    adtFieldFromDecl ts decl params entry = .ok field ↔ field.name = entry.1 ∧
      field.docs = entry.2.2 ∧ expandedFromExpr ts decl params entry.2.1 = .ok field.typ := by
  rw [adtFieldFromDecl, bind_eq_ok]
  constructor
  · rintro ⟨typ, built, ⟨⟩⟩
    exact ⟨rfl, rfl, built⟩
  · obtain ⟨name, typ, docs⟩ := field
    rintro ⟨rfl, rfl, built⟩
    exact ⟨typ, built, rfl⟩

/-- The types of a lowered argument are lowered from parts of its types. -/
theorem exists_of_mem_types {arg built : AdtArgument}
    (isBuilt : adtArgumentFromDecl ts decl params (typeVariantArgFromAdt arg) = .ok built)
    {typ : Typ} (member : typ ∈ built.types) :
    ∃ part, (∀ var con, (∀ typ ∈ arg.types, typ.Every var con fun _ => True) →
        part.Every var con fun _ => True) ∧
      expandedFromExpr ts decl params (typeExprFromType part) = .ok typ := by
  have ofFields : ∀ {exprs : List (Symbol × TypeExpr × Option String)} {docs : Option String},
      (do
        let fields ← exprs.mapM (adtFieldFromDecl ts decl params)
        return AdtArgument.record fields docs) = .ok built →
        ∃ entry ∈ exprs, expandedFromExpr ts decl params entry.2.1 = .ok typ := by
    intro exprs docs isBuilt
    obtain ⟨fields, mapped, ⟨⟩⟩ := bind_eq_ok.mp isBuilt
    obtain ⟨field, isField, rfl⟩ := List.mem_map.mp member
    obtain ⟨entry, isEntry, onEntry⟩ :=
      exists_of_forall₂_mem_right (mapM_eq_ok_iff.mp mapped) isField
    exact ⟨entry, isEntry, (adtFieldFromDecl_eq_ok.1 onEntry).2.2⟩
  cases arg with
  | record fields docs =>
      obtain ⟨entry, isEntry, onEntry⟩ := ofFields isBuilt
      obtain ⟨field, isField, rfl⟩ := List.mem_map.mp isEntry
      exact ⟨field.typ, fun var con every => every field.typ (List.mem_map_of_mem isField),
        onEntry⟩
  | positional original docs =>
      rw [typeVariantArgFromAdt] at isBuilt
      by_cases isRecord : ∃ span fields, typeExprFromType original = .record span fields
      · obtain ⟨span, exprs, same⟩ := isRecord
        obtain ⟨fields, rfl, rfl⟩ := exists_of_typeExprFromType_eq_record same
        obtain ⟨entry, isEntry, onEntry⟩ := ofFields isBuilt
        rw [typeFieldsFromTypes_eq_map] at isEntry
        obtain ⟨field, isField, rfl⟩ := List.mem_map.mp isEntry
        refine ⟨field.2, fun var con every => ?_, onEntry⟩
        rcases every _ (List.mem_singleton_self _) with _ | _ | _ | _ | _ | ⟨-, onFields⟩
        exact onFields field isField
      · rw [adtArgumentFromDecl_of_ne docs fun span fields same =>
          isRecord ⟨span, fields, same⟩] at isBuilt
        obtain ⟨lowered, onTyp, ⟨⟩⟩ := bind_eq_ok.mp isBuilt
        cases List.mem_singleton.mp member
        exact ⟨original, fun var con every => every original (List.mem_singleton_self _), onTyp⟩

/-- The conditions under which a type is lowered to a renaming of itself. -/
structure LowersAs (ts : TypeSystem) (decl : TypeDecl) (params : SymbolMap TypeVar)
    (assign : TypeVarId → TypeVar) (typ : Typ) : Prop where
  canonical : typ.Canonical
  every : typ.Every
    (fun typeVar => declarationName ts decl params typeVar.displayName =
      some (.var (assign typeVar.id)))
    (fun const => declarationName ts decl params const.nameStr = some (.con const) ∧
      ts.aliases.lookup const.nameStr = none) fun _ => True

variable {assign : TypeVarId → TypeVar}

theorem LowersAs.expandedFromExpr {typ : Typ} (lowersAs : LowersAs ts decl params assign typ) :
    RexLang.expandedFromExpr ts decl params (typeExprFromType typ) = .ok (typ.rename assign) := by
  have lowered := lowersByName_declaration.rename lowersAs.canonical
    (lowersAs.every.monoCon fun _ isCon => isCon.1)
  have renamed : (typ.rename assign).Every (fun _ => True)
      (fun const => ts.aliases.lookup const.nameStr = none) fun _ => True :=
    (lowersAs.every.monoCon fun _ isCon => isCon.2).rename fun _ _ => trivial
  exact bind_eq_ok.mpr
    ⟨_, lowered, renamed.normal.expandParts (lowersAs.canonical.bindVars fun _ => .var _)⟩

theorem LowersAs.field {fields : List (Symbol × Typ)}
    (lowersAs : LowersAs ts decl params assign (.record fields)) {field : Symbol × Typ}
    (member : field ∈ fields) : LowersAs ts decl params assign field.2 := by
  obtain ⟨canonical, every⟩ := lowersAs
  cases canonical with
  | record onFields _ =>
      cases every with
      | record _ everyField => exact ⟨onFields field member, everyField field member⟩

theorem map_eq_map_of_forall₂ {First Second Image : Type} {left : First → Image}
    {right : Second → Image} {firsts : List First} {seconds : List Second}
    (all : List.Forall₂ (fun first second => left first = right second) firsts seconds) :
    firsts.map left = seconds.map right := by
  induction all with
  | nil => rfl
  | cons same _ hypothesis => rw [List.map_cons, List.map_cons, same, hypothesis]

theorem exists_fields_rename {fields : List (Symbol × Typ)}
    {exprs : List (Symbol × TypeExpr × Option String)}
    (written : List.Forall₂ (fun entry field => entry.1 = field.1 ∧
      entry.2.1 = typeExprFromType field.2) exprs fields)
    (each : ∀ field ∈ fields, LowersAs ts decl params assign field.2) :
    ∃ built, exprs.mapM (adtFieldFromDecl ts decl params) = .ok built ∧
      built.map (fun field => (field.name, field.typ)) =
        fields.map fun field => (field.1, field.2.rename assign) := by
  induction written with
  | nil => exact ⟨[], rfl, rfl⟩
  | @cons entry field exprs fields isWritten _ hypothesis =>
      obtain ⟨built, mapped, same⟩ := hypothesis fun other member => each other (.tail _ member)
      have lowered := (each field List.mem_cons_self).expandedFromExpr
      rw [← isWritten.2] at lowered
      have onEntry : adtFieldFromDecl ts decl params entry =
          .ok ⟨entry.1, field.2.rename assign, entry.2.2⟩ :=
        adtFieldFromDecl_eq_ok.2 ⟨rfl, rfl, lowered⟩
      refine ⟨⟨entry.1, field.2.rename assign, entry.2.2⟩ :: built, ?_, ?_⟩
      · rw [List.mapM_cons, onEntry, mapped]
        rfl
      · rw [List.map_cons, List.map_cons, same, isWritten.1]

/-- An argument whose types are lowered to renamings is lowered to a renaming. -/
theorem exists_argument_rename {arg : AdtArgument}
    (each : ∀ typ ∈ arg.types, LowersAs ts decl params assign typ) :
    ∃ built, adtArgumentFromDecl ts decl params (typeVariantArgFromAdt arg) = .ok built ∧
      built.typ = arg.typ.rename assign := by
  cases arg with
  | record fields docs =>
      have written : List.Forall₂ (fun (entry : Symbol × TypeExpr × Option String)
          (field : Symbol × Typ) => entry.1 = field.1 ∧ entry.2.1 = typeExprFromType field.2)
          (fields.map typeFieldFromAdt) (fields.map fun field => (field.name, field.typ)) := by
        rw [List.forall₂_map_left_iff, List.forall₂_map_right_iff, List.forall₂_same]
        exact fun field _ => ⟨rfl, rfl⟩
      obtain ⟨built, mapped, same⟩ := exists_fields_rename written
        (List.forall_mem_map.mpr (List.forall_mem_map.mp each))
      refine ⟨.record built docs, bind_eq_ok.mpr ⟨built, mapped, rfl⟩, ?_⟩
      rw [← AdtArgument.typ_rename, AdtArgument.typ, same, AdtArgument.rename, AdtArgument.typ,
        List.map_map, List.map_map]
      rfl
  | positional typ docs =>
      have lowersAs := each typ (List.mem_singleton_self _)
      rw [typeVariantArgFromAdt]
      by_cases isRecord : ∃ span fields, typeExprFromType typ = .record span fields
      · obtain ⟨span, exprs, isExpr⟩ := isRecord
        obtain ⟨fields, rfl, rfl⟩ := exists_of_typeExprFromType_eq_record isExpr
        have written : List.Forall₂ (fun (entry : Symbol × TypeExpr × Option String)
            (field : Symbol × Typ) => entry.1 = field.1 ∧ entry.2.1 = typeExprFromType field.2)
            (typeFieldsFromTypes fields) fields := by
          rw [typeFieldsFromTypes_eq_map, List.forall₂_map_left_iff, List.forall₂_same]
          exact fun field _ => ⟨rfl, rfl⟩
        obtain ⟨built, mapped, same⟩ := exists_fields_rename written fun field member =>
          lowersAs.field member
        refine ⟨.record built docs, bind_eq_ok.mpr ⟨built, mapped, rfl⟩, ?_⟩
        show Typ.mkRecord (built.map fun field => (field.name, field.typ)) =
          (Typ.record fields).rename assign
        rw [same, Typ.rename_record]
        refine Typ.mkRecord_of_le ?_
        cases lowersAs.canonical with
        | record _ ordered => simpa [List.map_map, Function.comp_def] using ordered
      · rw [adtArgumentFromDecl_of_ne docs fun span fields same => isRecord ⟨span, fields, same⟩]
        exact ⟨.positional (typ.rename assign) docs,
          bind_eq_ok.mpr ⟨_, lowersAs.expandedFromExpr, rfl⟩, rfl⟩

end Arguments

/-! ## Declarations -/

/-- A field of the declaration has the variable. -/
def AdtDecl.Uses (adt : AdtDecl) (id : TypeVarId) : Prop :=
  ∃ arg, adt.HasArgument arg ∧ ∃ typ ∈ arg.types, id ∈ typ.ftv

/-- A declaration over the type system that is not registered in it yet: its variables are
those of its parameters, and are called like them. -/
structure AdtDecl.Registrable (ts : TypeSystem) (names : TypeVarId → Symbol) (adt : AdtDecl) :
    Prop where
  notBuiltin : BuiltinTypeId.fromName adt.name = none
  notAdt : ts.adts.lookup adt.name = none
  notAlias : ts.aliases.lookup adt.name = none
  params : ∀ param ∈ adt.params, names param.var.id = param.name
  distinct : (adt.params.map fun param => param.var.id).Nodup
  closed : adt.Closed
  types : ∀ arg, adt.HasArgument arg → ∀ typ ∈ arg.types,
    typ.BelongsTo (typeArity ts (typeDeclFromAdt adt).toTypeDecl) ts.aliases names

/-- The declaration registered from its own type declaration equals it. -/
def RegistersBack (ts : TypeSystem) (adt : AdtDecl) : Prop :=
  ∃ registered, registerAdtTypeDecl (typeDeclFromAdt adt) ts = .ok registered ∧
    adt.SameDeclaration registered

/-- No later parameter has the name of one that a field has, and no constructor in a field
is called like a parameter or `str`. -/
structure AdtDecl.NamedApart (adt : AdtDecl) : Prop where
  params : ∀ index param, adt.params[index]? = some param → adt.Uses param.var.id →
    LastNamed adt.params index
  constructors : adt.Every (fun _ => True) fun const =>
    const.nameStr ≠ "str" ∧ ∀ param ∈ adt.params, param.name ≠ const.nameStr

section Declarations

variable {ts : TypeSystem} {names : TypeVarId → Symbol} {adt : AdtDecl}

theorem AdtDecl.Registrable.every (registrable : adt.Registrable ts names) :
    adt.Every (fun typeVar => typeVar.displayName = names typeVar.id ∧ adt.Binds typeVar.id)
      (TypeConst.Declared (typeArity ts (typeDeclFromAdt adt).toTypeDecl) ts.aliases) := by
  intro arg hasArg typ isTyp
  have belongs := registrable.types arg hasArg typ isTyp
  exact (belongs.every.and (belongs.every.bound (registrable.closed arg hasArg typ isTyp))).monoCon
    fun _ both => both.1

/-- The type system with the header of the declaration. -/
def TypeSystem.withHeader (ts : TypeSystem) (adt : AdtDecl) : TypeSystem :=
  { ts with
    adts := ts.adts.insert adt.name ⟨adt.name, adt.freshParams ts.supply, [], adt.docs⟩
    supply := (RexLang.freshParams (typeDeclFromAdt adt).params ts.supply).2 }

theorem AdtDecl.Registrable.header (registrable : adt.Registrable ts names) :
    registerTypeDeclHeader (typeDeclFromAdt adt).toTypeDecl ts = .ok (ts.withHeader adt) := by
  have notBuiltin : ¬(BuiltinTypeId.fromName (typeDeclFromAdt adt).name).isSome := by
    simp [typeDeclFromAdt, registrable.notBuiltin]
  have unknown : ¬((ts.adts.lookup (typeDeclFromAdt adt).name).isSome ∨
      (ts.aliases.lookup (typeDeclFromAdt adt).name).isSome) := by
    simp [typeDeclFromAdt, registrable.notAdt, registrable.notAlias]
  rw [registerTypeDeclHeader, if_neg notBuiltin, if_neg unknown]
  rfl

/-- The header changes no other type. -/
theorem typeArity_withHeader (name : Symbol) :
    typeArity (ts.withHeader adt) (typeDeclFromAdt adt).toTypeDecl name =
      typeArity ts (typeDeclFromAdt adt).toTypeDecl name := by
  rw [typeArity, typeArity]
  by_cases own : (typeDeclFromAdt adt).name = name
  · rw [if_pos own, if_pos own]
  · rw [if_neg own, if_neg own]
    have sameLookup : (ts.withHeader adt).adts.lookup name = ts.adts.lookup name := by
      rw [TypeSystem.withHeader, lookup_insert]
      exact if_neg (Ne.symm own)
    rw [sameLookup]
    rfl

theorem registerAdtTypeDecl_eq (registrable : adt.Registrable ts names) :
    registerAdtTypeDecl (typeDeclFromAdt adt) ts = (do
      let variants ← (adt.variants.map typeVariantFromAdt).mapM (adtVariantFromDecl
        (ts.withHeader adt) (typeDeclFromAdt adt).toTypeDecl
        (paramMap (adt.freshParams (ts.withHeader adt).supply)))
      return ⟨adt.name, adt.freshParams (ts.withHeader adt).supply, variants, adt.docs⟩) := by
  rw [registerAdtTypeDecl, registrable.header]
  rfl

theorem declarationName_of_lookup {decl : TypeDecl} {params : SymbolMap TypeVar} {name : Symbol}
    {typeVar : TypeVar} (lookup : params.lookup name = some typeVar) :
    declarationName ts decl params name = some (.var typeVar) := by
  rw [declarationName, lookup]

/-- A registered name of a parameter stands for the last parameter of that name. -/
theorem exists_lookup_paramMap (supply : TypeVarSupply) {name : Symbol}
    (isParam : ∃ param ∈ adt.params, param.name = name) :
    ∃ index param, (adt.freshParams supply)[index]? = some param ∧ param.name = name ∧
      LastNamed (adt.freshParams supply) index ∧
      (paramMap (adt.freshParams supply)).lookup name = some param.var := by
  obtain ⟨original, isOriginal, rfl⟩ := isParam
  obtain ⟨position, isPosition⟩ := List.mem_iff_getElem?.mp isOriginal
  have isFresh := adt.getElem?_freshParams supply position
  rw [isPosition, Option.map_some] at isFresh
  have isSome : ((adt.freshParams supply).reverse.find? (·.name = original.name)).isSome :=
    List.find?_isSome.mpr ⟨_, List.mem_reverse.mpr (List.mem_of_getElem? isFresh), by simp⟩
  obtain ⟨param, found⟩ := Option.isSome_iff_exists.mp isSome
  obtain ⟨index, isParam, sameName, last⟩ := exists_lastNamed found
  refine ⟨index, param, isParam, sameName, last, ?_⟩
  rw [lookup_paramMap, found, Option.map_some]

theorem declarationName_of_not_param {supply : TypeVarSupply} {decl : TypeDecl} {name : Symbol}
    (notParam : ∀ param ∈ adt.params, param.name ≠ name) :
    declarationName ts decl (paramMap (adt.freshParams supply)) name =
      (typeArity ts decl (normalizeTypeName name)).map (.named (normalizeTypeName name)) := by
  have missing : (adt.freshParams supply).reverse.find? (·.name = name) = none := by
    refine List.find?_eq_none.mpr fun fresh member => ?_
    obtain ⟨index, isFresh⟩ := List.mem_iff_getElem?.mp (List.mem_reverse.mp member)
    rw [adt.getElem?_freshParams] at isFresh
    obtain ⟨param, isParam, rfl⟩ := Option.map_eq_some_iff.mp isFresh
    simpa using notParam param (List.mem_of_getElem? isParam)
  rw [declarationName, lookup_paramMap, missing]
  rfl

theorem SoundAliases.lookup_normalizeTypeName {aliases : SymbolMap TypeAlias}
    (sound : SoundAliases aliases) {name : Symbol} (notAlias : aliases.lookup name = none) :
    aliases.lookup (normalizeTypeName name) = none := by
  by_cases isStr : name = "str"
  · rw [normalizeTypeName, if_pos isStr]
    refine Option.eq_none_iff_forall_ne_some.mpr fun found lookup => ?_
    cases sound.notBuiltin _ found lookup
  · rw [normalizeTypeName_of_ne isStr]
    exact notAlias

/-- What the parts of the declaration are lowered to. -/
theorem every_lowered_part {aliases : SymbolMap TypeAlias} (sound : SoundAliases aliases)
    {decl : TypeDecl} {supply : TypeVarSupply} {con : TypeConst → Prop} {part raw : Typ}
    (every : part.Every
      (fun typeVar => typeVar.displayName = names typeVar.id ∧ adt.Binds typeVar.id)
      (fun const => aliases.lookup const.nameStr = none ∧
        ((∀ param ∈ adt.params, param.name ≠ const.nameStr) →
          ∀ found : TypeConst, found.nameStr = normalizeTypeName const.nameStr → con found))
      fun _ => True)
    (named : ∀ param ∈ adt.params, names param.var.id = param.name)
    (lowered : typeFromExpr ts decl (paramMap (adt.freshParams supply)) (typeExprFromType part) =
      .ok raw) :
    raw.Every
      (fun typeVar => ∃ index param, (adt.freshParams supply)[index]? = some param ∧
        param.var = typeVar ∧ LastNamed (adt.freshParams supply) index)
      (fun found => con found ∧ aliases.lookup found.nameStr = none) fun _ => True := by
  refine lowersByName_declaration.every ((every.mono ?_).monoCon ?_).everyName lowered
  · rintro typeVar ⟨isNamed, binds⟩ typ resolved
    obtain ⟨original, isOriginal, sameId⟩ := List.mem_map.mp binds
    have sameName : original.name = typeVar.displayName := by
      rw [isNamed, ← sameId, named original isOriginal]
    obtain ⟨index, param, isParam, -, last, isVar⟩ :=
      exists_lookup_paramMap supply ⟨original, isOriginal, sameName⟩
    cases (declarationName_of_lookup isVar).symm.trans resolved
    exact .var ⟨index, param, isParam, rfl, last⟩
  · rintro const ⟨notAlias, onCon⟩ typ resolved
    by_cases isParam : ∃ param ∈ adt.params, param.name = const.nameStr
    · obtain ⟨index, param, isParam, -, last, isVar⟩ := exists_lookup_paramMap supply isParam
      cases (declarationName_of_lookup isVar).symm.trans resolved
      exact .var ⟨index, param, isParam, rfl, last⟩
    · have notParam : ∀ param ∈ adt.params, param.name ≠ const.nameStr :=
        fun param member same => isParam ⟨param, member, same⟩
      rw [declarationName_of_not_param notParam] at resolved
      obtain ⟨arity, -, rfl⟩ := Option.map_eq_some_iff.mp resolved
      obtain ⟨found, isConst, isName⟩ := exists_named (normalizeTypeName const.nameStr) arity
      rw [isConst]
      exact .con ⟨onCon notParam found isName,
        isName ▸ sound.lookup_normalizeTypeName notAlias⟩

/-- The variables of the registered declaration are those of the last parameters of a name,
and its constructors have the names of original ones that no parameter has. -/
theorem every_registered (sound : SoundAliases ts.aliases) (registrable : adt.Registrable ts names)
    (con : TypeConst → Prop)
    (onCons : adt.Every (fun _ => True) fun const =>
      (∀ param ∈ adt.params, param.name ≠ const.nameStr) →
        ∀ found : TypeConst, found.nameStr = normalizeTypeName const.nameStr → con found)
    {registered : AdtDecl}
    (ran : registerAdtTypeDecl (typeDeclFromAdt adt) ts = .ok registered) :
    registered.Every (fun typeVar => ∃ index param, registered.params[index]? = some param ∧
      param.var = typeVar ∧ LastNamed registered.params index) con := by
  rw [registerAdtTypeDecl_eq registrable] at ran
  obtain ⟨variants, mapped, ⟨⟩⟩ := bind_eq_ok.mp ran
  rintro built ⟨builtVariant, isBuiltVariant, isBuilt⟩ typ member
  obtain ⟨_, inVariants, onVariant⟩ :=
    exists_of_forall₂_mem_right (mapM_eq_ok_iff.mp mapped) isBuiltVariant
  obtain ⟨variant, isVariant, rfl⟩ := List.mem_map.mp inVariants
  obtain ⟨args, mappedArgs, ⟨⟩⟩ := bind_eq_ok.mp onVariant
  obtain ⟨_, inArgs, onArg⟩ := exists_of_forall₂_mem_right (mapM_eq_ok_iff.mp mappedArgs) isBuilt
  obtain ⟨arg, isArg, rfl⟩ := List.mem_map.mp inArgs
  obtain ⟨part, inherits, expanded⟩ := exists_of_mem_types onArg member
  obtain ⟨raw, lowered, expanded⟩ := bind_eq_ok.mp expanded
  have hasArg : adt.HasArgument arg := ⟨variant, isVariant, isArg⟩
  have onTypes := fun typ isTyp => (((registrable.every arg hasArg typ isTyp).and
    (onCons arg hasArg typ isTyp)).mono fun _ isVar => isVar.1).monoCon
      fun _ isCon => And.imp_left TypeConst.Declared.notAlias isCon
  have every := every_lowered_part sound (inherits _ _ onTypes) registrable.params lowered
  have normal := (every.monoCon fun _ isCon => isCon.2).normal
  cases (normal.expandParts (canonical_typeFromExpr lowered)).symm.trans expanded
  exact every.monoCon fun _ isCon => isCon.1

theorem varLeaf_ne_con (params : List AdtParam) (id : TypeVarId) (const : TypeConst) :
    varLeaf params id ≠ .con const := by
  rw [varLeaf]
  cases paramPosition params id with
  | some index => simp
  | none => simp

theorem varLeaf_of_nodup {params : List AdtParam}
    (distinct : (params.map fun param => param.var.id).Nodup) {index : Nat} {param : AdtParam}
    (isParam : params[index]? = some param) : varLeaf params param.var.id = .param index := by
  rw [varLeaf, paramPosition_of_nodup distinct isParam]

theorem registered_params (registrable : adt.Registrable ts names) {registered : AdtDecl}
    (ran : registerAdtTypeDecl (typeDeclFromAdt adt) ts = .ok registered) :
    registered.params = adt.freshParams (ts.withHeader adt).supply := by
  rw [registerAdtTypeDecl_eq registrable] at ran
  obtain ⟨variants, -, ⟨⟩⟩ := bind_eq_ok.mp ran
  rfl

/-- A declaration that equals the one registered from its own type declaration has different
names: no leaf of the registered one has a hidden name. -/
theorem namedApart_of_registersBack (sound : SoundAliases ts.aliases)
    (registrable : adt.Registrable ts names) (back : RegistersBack ts adt) : adt.NamedApart := by
  obtain ⟨registered, ran, same⟩ := back
  have params := registered_params registrable ran
  have allCons {con : TypeConst → Prop} (all : ∀ const, con const) :
      adt.Every (fun _ => True) con := fun arg hasArg typ isTyp =>
    ((registrable.every arg hasArg typ isTyp).mono fun _ _ => trivial).monoCon fun const _ =>
      all const
  have notStr : adt.Every (fun _ => True) fun const => const.nameStr ≠ "str" := by
    have onRegistered := every_registered sound registrable (fun const => const.nameStr ≠ "str")
      (allCons fun const _ found isName => isName ▸ normalizeTypeName_ne const.nameStr) ran
    have onLeaves := same.every (fun leaf => ∀ const, leaf = .con const → const.nameStr ≠ "str")
      fun arg hasArg typ isTyp => ((onRegistered arg hasArg typ isTyp).mono
        fun typeVar _ const isCon => absurd isCon (varLeaf_ne_con _ _ _)).monoCon
          fun const notStr _ isCon => ShapeLeaf.con.inj isCon ▸ notStr
    exact fun arg hasArg typ isTyp => ((onLeaves arg hasArg typ isTyp).mono
      fun _ _ => trivial).monoCon fun const onCon => onCon const rfl
  have onRegistered := every_registered sound registrable
    (fun const => ∀ param ∈ adt.params, param.name ≠ const.nameStr)
    (fun arg hasArg typ isTyp => (notStr arg hasArg typ isTyp).monoCon
      fun const notStr notParam found isName => by
        rw [isName, normalizeTypeName_of_ne notStr]
        exact notParam) ran
  let holds (leaf : ShapeLeaf) : Prop :=
    (∀ const, leaf = .con const → ∀ param ∈ adt.params, param.name ≠ const.nameStr) ∧
      ∀ index, leaf = .param index → LastNamed adt.params index
  have onLeaves := same.every holds fun arg hasArg typ isTyp => by
    refine ((onRegistered arg hasArg typ isTyp).mono ?_).monoCon ?_
    · rintro _ ⟨index, param, isParam, rfl, last⟩
      rw [params] at isParam last ⊢
      rw [varLeaf_of_nodup (adt.nodup_freshParams _) isParam]
      refine ⟨fun const isCon => (nomatch isCon), fun position isPosition => ?_⟩
      cases isPosition
      exact AdtDecl.lastNamed_freshParams.mp last
    · intro const notParam
      exact ⟨fun other isCon => ShapeLeaf.con.inj isCon ▸ notParam,
        fun index isParam => (nomatch isParam)⟩
  refine ⟨?_, fun arg hasArg typ isTyp => ?_⟩
  · rintro index param isParam ⟨arg, hasArg, typ, isTyp, member⟩
    have onLeaf := Typ.Every.of_mem (fun id => holds (varLeaf adt.params id))
      (onLeaves arg hasArg typ isTyp) member
    exact onLeaf.2 index (varLeaf_of_nodup registrable.distinct isParam)
  · exact (((notStr arg hasArg typ isTyp).and (onLeaves arg hasArg typ isTyp)).mono
      fun _ _ => trivial).monoCon fun const both => ⟨both.1, both.2.1 const rfl⟩

/-- The last parameter of the name of a used parameter is that parameter. -/
theorem AdtDecl.NamedApart.varLeaf_eq (apart : adt.NamedApart)
    (registrable : adt.Registrable ts names) (supply : TypeVarSupply) {id : TypeVarId}
    (uses : adt.Uses id) (binds : adt.Binds id) :
    ∃ typeVar, (paramMap (adt.freshParams supply)).lookup (names id) = some typeVar ∧
      varLeaf (adt.freshParams supply) typeVar.id = varLeaf adt.params id := by
  obtain ⟨original, isOriginal, rfl⟩ := List.mem_map.mp binds
  rw [registrable.params original isOriginal]
  obtain ⟨position, isPosition⟩ := List.mem_iff_getElem?.mp isOriginal
  obtain ⟨index, param, isParam, sameName, last, lookup⟩ :=
    exists_lookup_paramMap supply ⟨original, isOriginal, rfl⟩
  refine ⟨param.var, lookup, ?_⟩
  rw [varLeaf_of_nodup (adt.nodup_freshParams supply) isParam,
    varLeaf_of_nodup registrable.distinct isPosition]
  have isFresh := adt.getElem?_freshParams supply position
  rw [isPosition, Option.map_some] at isFresh
  have lastPosition : LastNamed (adt.freshParams supply) position :=
    AdtDecl.lastNamed_freshParams.mpr (apart.params position original isPosition uses)
  rcases Nat.lt_trichotomy index position with before | same | after
  · exact absurd sameName.symm (last param isParam position
      ⟨original.name, ⟨supply.counter + position, some original.name⟩, original.docs⟩
      before isFresh)
  · rw [same]
  · exact absurd sameName (lastPosition _ isFresh index param after isParam)

/-- A declaration with different names equals the one registered from its own type
declaration. -/
theorem registersBack_of_namedApart (registrable : adt.Registrable ts names)
    (apart : adt.NamedApart) : RegistersBack ts adt := by
  let next := ts.withHeader adt
  let fresh := adt.freshParams next.supply
  let decl := (typeDeclFromAdt adt).toTypeDecl
  let assign (id : TypeVarId) : TypeVar := ((paramMap fresh).lookup (names id)).getD ⟨id, none⟩
  have assigned : ∀ arg, adt.HasArgument arg → ∀ typ ∈ arg.types, ∀ id ∈ typ.ftv,
      (paramMap fresh).lookup (names id) = some (assign id) ∧
        varLeaf fresh (assign id).id = varLeaf adt.params id := by
    intro arg hasArg typ isTyp id member
    obtain ⟨typeVar, lookup, sameLeaf⟩ := apart.varLeaf_eq registrable next.supply
      ⟨arg, hasArg, typ, isTyp, member⟩ (registrable.closed arg hasArg typ isTyp id member)
    have isAssigned : assign id = typeVar := by simp only [assign, fresh, lookup, Option.getD_some]
    exact isAssigned ▸ ⟨lookup, sameLeaf⟩
  have lowersAs : ∀ arg, adt.HasArgument arg → ∀ typ ∈ arg.types,
      LowersAs next decl (paramMap fresh) assign typ := by
    intro arg hasArg typ isTyp
    refine ⟨(registrable.types arg hasArg typ isTyp).canonical, ?_⟩
    have every := registrable.every arg hasArg typ isTyp
    refine (((every.and (apart.constructors arg hasArg typ isTyp)).and
      every.bound_ftv).mono ?_).monoCon ?_
    · rintro typeVar ⟨⟨⟨isNamed, -⟩, -⟩, member⟩
      rw [isNamed]
      exact declarationName_of_lookup (assigned arg hasArg typ isTyp typeVar.id member).1
    · rintro const ⟨⟨declared, notStr, notParam⟩, -⟩
      refine ⟨?_, declared.notAlias⟩
      rw [declarationName_of_not_param notParam, normalizeTypeName_of_ne notStr,
        typeArity_withHeader, declared.arity]
      exact congrArg some declared.named
  have onVariants : ∀ variant ∈ adt.variants, ∃ built,
      (adtVariantFromDecl next decl (paramMap fresh) ∘ typeVariantFromAdt) variant = .ok built ∧
        variant.shape adt.params = built.shape fresh := by
    intro variant isVariant
    have onArgs : ∀ arg ∈ variant.args, ∃ built,
        (adtArgumentFromDecl next decl (paramMap fresh) ∘ typeVariantArgFromAdt) arg = .ok built ∧
          arg.typ.shapeTree adt.params = built.typ.shapeTree fresh := by
      intro arg isArg
      have hasArg : adt.HasArgument arg := ⟨variant, isVariant, isArg⟩
      obtain ⟨built, isBuilt, typ⟩ := exists_argument_rename (lowersAs arg hasArg)
      refine ⟨built, isBuilt, typ ▸ (Typ.shapeTree_rename fun id member => ?_).symm⟩
      obtain ⟨part, isPart, inside⟩ := AdtArgument.mem_ftv_typ.mp member
      exact (assigned arg hasArg part isPart id inside).2
    obtain ⟨args, mapped, shapes⟩ := exists_mapM_related onArgs
    refine ⟨⟨variant.name, args, variant.docs⟩, bind_eq_ok.mpr ⟨args, ?_, rfl⟩, ?_⟩
    · rw [typeVariantFromAdt, List.mapM_map]
      exact mapped
    · exact congrArg (Prod.mk variant.name) (map_eq_map_of_forall₂ shapes)
  obtain ⟨variants, mapped, shapes⟩ := exists_mapM_related onVariants
  refine ⟨⟨adt.name, fresh, variants, adt.docs⟩, ?_, rfl, (adt.length_freshParams _).symm, ?_⟩
  · rw [registerAdtTypeDecl_eq registrable, List.mapM_map]
    exact bind_eq_ok.mpr ⟨variants, mapped, rfl⟩
  · exact .of_eq (map_eq_map_of_forall₂ shapes)

end Declarations

/-! ## A function and a declaration -/

/-- `first -> second`, over the variables `0` and `1`. -/
def arrowOf (first second : Symbol) : Typ :=
  .func (.var ⟨0, some first⟩) (.var ⟨1, some second⟩)

/-- `Pair first second = Pair first second`, over the variables `0` and `1`. -/
def pairOf (first second : Symbol) : AdtDecl where
  name := "Pair"
  params := [⟨first, ⟨0, some first⟩, none⟩, ⟨second, ⟨1, some second⟩, none⟩]
  variants := [⟨"Pair", [.positional (.var ⟨0, some first⟩) none,
    .positional (.var ⟨1, some second⟩) none], none⟩]
  docs := none

/-- The names of the two variables. -/
def pairNames (first second : Symbol) (id : TypeVarId) : Symbol :=
  if id = 0 then first else second

theorem belongsTo_arrowOf (first second : Symbol) :
    (arrowOf first second).BelongsTo (annotationTypeArity [] []) [] (pairNames first second) :=
  ⟨.func (.var _) (.var _), .func (.var rfl) (.var rfl)⟩

theorem mem_ftv_arrowOf {first second : Symbol} {id : TypeVarId}
    (member : id ∈ (arrowOf first second).ftv) : id = 0 ∨ id = 1 := by
  rw [arrowOf, Typ.ftv, Typ.ftv, Typ.ftv] at member
  simpa using member

theorem hasArgument_pairOf {first second : Symbol} {arg : AdtArgument}
    (hasArg : (pairOf first second).HasArgument arg) :
    arg = .positional (.var ⟨0, some first⟩) none ∨
      arg = .positional (.var ⟨1, some second⟩) none := by
  obtain ⟨variant, isVariant, isArg⟩ := hasArg
  cases List.mem_singleton.mp isVariant
  simpa using isArg

theorem registrable_pairOf (first second : Symbol) :
    (pairOf first second).Registrable .new (pairNames first second) := by
  refine ⟨rfl, rfl, rfl, ?_, by simp [pairOf], ?_, ?_⟩
  · simp [pairOf, pairNames]
  · intro arg hasArg typ isTyp id member
    rcases hasArgument_pairOf hasArg with rfl | rfl
    · cases List.mem_singleton.mp isTyp
      rw [Finset.mem_singleton.mp member]
      exact List.mem_cons_self
    · cases List.mem_singleton.mp isTyp
      rw [Finset.mem_singleton.mp member]
      exact .tail _ List.mem_cons_self
  · intro arg hasArg typ isTyp
    rcases hasArgument_pairOf hasArg with rfl | rfl
    · cases List.mem_singleton.mp isTyp
      exact ⟨.var _, .var rfl⟩
    · cases List.mem_singleton.mp isTyp
      exact ⟨.var _, .var rfl⟩

/-- Two variables `a` become one, in a function and in a declaration. -/
theorem not_typeExprFromType_inverse_shared : SoundAliases TypeSystem.new.aliases ∧
    (∃ vars later, extendTypeParams ["a"] [] .new = (.ok vars, later) ∧
      (arrowOf "a" "a").BelongsTo (annotationTypeArity [] []) [] (pairNames "a" "a") ∧
      DeclaresNames vars (pairNames "a" "a") (arrowOf "a" "a") ∧
      ¬LowersBack [] [] vars (arrowOf "a" "a")) ∧
    (pairOf "a" "a").Registrable .new (pairNames "a" "a") ∧
      ¬RegistersBack .new (pairOf "a" "a") := by
  have ran : extendTypeParams ["a"] [] .new = (.ok [("a", ⟨0, some "a"⟩)], ⟨1⟩) := rfl
  refine ⟨soundAliases_new, ⟨_, _, ran, belongsTo_arrowOf "a" "a",
    declaresNames_extendTypeParams ran ?_, fun back => ?_⟩, registrable_pairOf "a" "a",
    fun back => ?_⟩
  · intro id member
    simp [pairNames]
  · have apart := namedApart_of_lowersBack soundAliases_new (belongsTo_arrowOf "a" "a") back
    have inFirst : 0 ∈ (arrowOf "a" "a").ftv := by decide
    have inSecond : 1 ∈ (arrowOf "a" "a").ftv := by decide
    cases apart.distinct inFirst inSecond rfl
  · have apart := namedApart_of_registersBack soundAliases_new (registrable_pairOf "a" "a") back
    refine apart.params 0 _ rfl ?_ _ rfl 1 _ Nat.zero_lt_one rfl rfl
    exact ⟨_, ⟨_, List.mem_singleton_self _, List.mem_cons_self⟩, _, List.mem_singleton_self _,
      Finset.mem_singleton_self _⟩

/-- Types are lowered from their own type expressions, and declarations are registered from
their own type declarations, if and only if their names are different. -/
theorem typeExprFromType_inverse_iff {ts : TypeSystem} (sound : SoundAliases ts.aliases)
    (names : TypeVarId → Symbol) :
    (∀ (typ : Typ) (vars : SymbolMap TypeVar),
      typ.BelongsTo (annotationTypeArity ts.adts ts.aliases) ts.aliases names →
        DeclaresNames vars names typ →
          (LowersBack ts.adts ts.aliases vars typ ↔
            typ.NamedApart (annotationTypeArity ts.adts ts.aliases) names)) ∧
      ∀ adt : AdtDecl, adt.Registrable ts names → (RegistersBack ts adt ↔ adt.NamedApart) :=
  ⟨fun _ _ belongs declares => ⟨namedApart_of_lowersBack sound belongs,
      lowersBack_of_namedApart belongs declares⟩,
    fun _ registrable => ⟨namedApart_of_registersBack sound registrable,
      registersBack_of_namedApart registrable⟩⟩

/-- The function and the declaration with variables `a` and `b` are kept. -/
theorem typeExprFromType_inverse_iff_apart :
    (∃ vars later, extendTypeParams ["a", "b"] [] .new = (.ok vars, later) ∧
      LowersBack [] [] vars (arrowOf "a" "b")) ∧ RegistersBack .new (pairOf "a" "b") := by
  have inverse := typeExprFromType_inverse_iff soundAliases_new (pairNames "a" "b")
  have ran : extendTypeParams ["a", "b"] [] .new =
      (.ok [("a", ⟨0, some "a"⟩), ("b", ⟨1, some "b"⟩)], ⟨2⟩) := rfl
  refine ⟨⟨_, _, ran, (inverse.1 _ _ (belongsTo_arrowOf "a" "b")
    (declaresNames_extendTypeParams ran ?_)).mpr ?_⟩,
    (inverse.2 _ (registrable_pairOf "a" "b")).mpr ?_⟩
  · intro id member
    by_cases isFirst : id = 0
    · simp [pairNames, isFirst]
    · simp [pairNames, isFirst]
  · refine ⟨?_, ?_, .func (.var trivial) (.var trivial)⟩
    · intro first inFirst second inSecond same
      rcases mem_ftv_arrowOf inFirst with rfl | rfl
      all_goals rcases mem_ftv_arrowOf inSecond with rfl | rfl
      all_goals simp_all [pairNames]
    · intro id member
      rcases mem_ftv_arrowOf member with rfl | rfl
      · rfl
      · rfl
  · refine ⟨?_, ?_⟩
    · intro index param isParam _ current isCurrent later other isLater isOther
      have inBounds := (List.getElem?_eq_some_iff.mp isOther).1
      obtain ⟨rfl, rfl⟩ : index = 0 ∧ later = 1 := by
        simp only [pairOf, List.length_cons, List.length_nil] at inBounds
        omega
      cases isCurrent
      cases isOther
      decide
    · intro arg hasArg typ isTyp
      rcases hasArgument_pairOf hasArg with rfl | rfl
      · cases List.mem_singleton.mp isTyp
        exact .var trivial
      · cases List.mem_singleton.mp isTyp
        exact .var trivial

end RexLang
