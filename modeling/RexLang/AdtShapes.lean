import RexLang.AdtFamilies

/-!
# Shapes of alpha-equivalent declarations

A declaration and one that differs from it in its parameter variables alone have one
shape and mention the same constructors.
-/

namespace RexLang

variable {assign : TypeVarId → TypeVar}

/-! ## Constructors -/

theorem AdtDecl.mem_fieldTypes {adt : AdtDecl} {typ : Typ} :
    typ ∈ adt.fieldTypes ↔ ∃ arg, adt.HasArgument arg ∧ arg.typ = typ := by
  simp only [AdtDecl.fieldTypes, List.mem_flatMap, List.mem_map, AdtDecl.HasArgument]
  constructor
  · rintro ⟨variant, isVariant, arg, isArg, rfl⟩
    exact ⟨arg, ⟨variant, isVariant, isArg⟩, rfl⟩
  · rintro ⟨arg, ⟨variant, isVariant, isArg⟩, rfl⟩
    exact ⟨variant, isVariant, arg, isArg, rfl⟩

theorem AdtArgument.typ_rename (arg : AdtArgument) :
    (arg.rename assign).typ = arg.typ.rename assign := by
  cases arg with
  | positional typ docs => rfl
  | record fields docs =>
      have sorted (list : List (Symbol × Typ)) :
          (list.mergeSort fun first second => decide (first.1 ≤ second.1)).map
              (fun field => (field.1, field.2.rename assign)) =
            (list.map fun field => (field.1, field.2.rename assign)).mergeSort
              fun first second => decide (first.1 ≤ second.1) :=
        List.map_mergeSort fun _ _ _ _ => rfl
      rw [AdtArgument.rename, AdtArgument.typ, AdtArgument.typ, Typ.mkRecord, Typ.mkRecord,
        Typ.rename_record, sorted, List.map_map, List.map_map]
      rfl

theorem AdtDecl.exists_userCons_rename {adt : AdtDecl} {con : UserCon} :
    (∃ typ ∈ (adt.rename assign).fieldTypes, con ∈ typ.userCons) ↔
      ∃ typ ∈ adt.fieldTypes, con ∈ typ.userCons := by
  simp only [AdtDecl.mem_fieldTypes, AdtDecl.hasArgument_rename]
  constructor
  · rintro ⟨_, ⟨_, ⟨arg, isArg, rfl⟩, rfl⟩, isCon⟩
    rw [AdtArgument.typ_rename, Typ.userCons_rename] at isCon
    exact ⟨_, ⟨arg, isArg, rfl⟩, isCon⟩
  · rintro ⟨_, ⟨arg, isArg, rfl⟩, isCon⟩
    refine ⟨_, ⟨_, ⟨arg, isArg, rfl⟩, rfl⟩, ?_⟩
    rwa [AdtArgument.typ_rename, Typ.userCons_rename]

theorem AdtDecl.mentions_rename {adt : AdtDecl} {name : Symbol} :
    (adt.rename assign).Mentions name ↔ adt.Mentions name := by
  have swap (decl : AdtDecl) : decl.Mentions name ↔
      ∃ arity, ∃ typ ∈ decl.fieldTypes, (name, arity) ∈ typ.userCons := by
    simp only [AdtDecl.Mentions]
    constructor
    · rintro ⟨typ, isTyp, arity, isCon⟩
      exact ⟨arity, typ, isTyp, isCon⟩
    · rintro ⟨arity, typ, isTyp, isCon⟩
      exact ⟨typ, isTyp, arity, isCon⟩
  simp only [swap, AdtDecl.exists_userCons_rename]

theorem AdtDecl.UsesArities.rename {adt : AdtDecl} {arityOf : Symbol → Nat}
    (uses : adt.UsesArities arityOf) : (adt.rename assign).UsesArities arityOf := by
  intro typ isTyp con isCon
  obtain ⟨other, isOther, inOther⟩ := AdtDecl.exists_userCons_rename.1 ⟨typ, isTyp, isCon⟩
  exact uses other isOther con inOther

/-! ## Shapes -/

theorem normalizeElemsForShape_eq_map (names : List (TypeVarId × String)) (elems : List Typ) :
    normalizeElemsForShape names elems = elems.map (normalizeTypeForShape names) := by
  induction elems with
  | nil => rfl
  | cons elem elems hypothesis => rw [normalizeElemsForShape, hypothesis, List.map_cons]

theorem normalizeFieldsForShape_eq_map (names : List (TypeVarId × String))
    (fields : List (Symbol × Typ)) :
    normalizeFieldsForShape names fields =
      fields.map fun field => field.1 ++ ": " ++ normalizeTypeForShape names field.2 := by
  induction fields with
  | nil => rfl
  | cons field fields hypothesis => rw [normalizeFieldsForShape, hypothesis, List.map_cons]

/-- Names that agree on the variables give one normal form. -/
theorem normalizeTypeForShape_rename {names renamed : List (TypeVarId × String)} {typ : Typ}
    (same : ∀ id ∈ typ.ftv, ∃ name, names.lookup id = some name ∧
      renamed.lookup (assign id).id = some name) :
    normalizeTypeForShape renamed (typ.rename assign) = normalizeTypeForShape names typ := by
  induction typ using Typ.inductionOn with
  | var typeVar =>
      obtain ⟨name, before, after⟩ := same typeVar.id (by simp [Typ.ftv])
      rw [Typ.rename_var, normalizeTypeForShape, normalizeTypeForShape, before, after]
      rfl
  | con const => rfl
  | app head arg onHead onArg =>
      rw [Typ.rename_app, normalizeTypeForShape, normalizeTypeForShape,
        onHead fun id inside => same id (by simp [Typ.ftv, inside]),
        onArg fun id inside => same id (by simp [Typ.ftv, inside])]
  | func arg ret onArg onRet =>
      rw [Typ.rename_func, normalizeTypeForShape, normalizeTypeForShape,
        onArg fun id inside => same id (by simp [Typ.ftv, inside]),
        onRet fun id inside => same id (by simp [Typ.ftv, inside])]
  | tuple elems onElems =>
      rw [Typ.rename_tuple, normalizeTypeForShape, normalizeTypeForShape,
        normalizeElemsForShape_eq_map, normalizeElemsForShape_eq_map, List.map_map]
      refine congrArg (fun texts => "(" ++ ", ".intercalate texts ++ ")")
        (List.map_congr_left fun elem member => onElems elem member fun id inside => ?_)
      exact same id (by simpa [Typ.ftv, Typ.mem_ftvList] using ⟨elem, member, inside⟩)
  | record fields onFields =>
      rw [Typ.rename_record, normalizeTypeForShape, normalizeTypeForShape,
        normalizeFieldsForShape_eq_map, normalizeFieldsForShape_eq_map, List.map_map]
      refine congrArg (fun texts => "\x7b" ++ ", ".intercalate texts ++ "\x7d")
        (List.map_congr_left fun field member => ?_)
      rw [Function.comp_apply, onFields field member fun id inside => same id
        (by simpa [Typ.ftv, Typ.mem_ftvFields] using ⟨field.1, field.2, member, inside⟩)]

theorem lookup_map_injOn {entries : List (TypeVarId × String)} {change : TypeVarId → TypeVarId}
    {bound : TypeVarId → Prop} (injective : Set.InjOn change bound)
    (each : ∀ entry ∈ entries, bound entry.1) {id : TypeVarId} (isBound : bound id) :
    (entries.map fun entry => (change entry.1, entry.2)).lookup (change id) =
      entries.lookup id := by
  induction entries with
  | nil => rfl
  | cons entry entries hypothesis =>
      obtain ⟨other, name⟩ := entry
      have isOther := each (other, name) List.mem_cons_self
      rw [List.map_cons, lookup_cons_eq_ite, lookup_cons_eq_ite,
        hypothesis fun entry member => each entry (.tail _ member)]
      by_cases same : id = other
      · rw [if_pos same, if_pos (congrArg change same)]
      · rw [if_neg same, if_neg fun changed => same (injective isBound isOther changed)]

theorem shapeNames_rename (params : List AdtParam) :
    shapeNames (params.map (AdtParam.rename assign)) =
      (shapeNames params).map fun entry => ((assign entry.1).id, entry.2) := by
  rw [shapeNames, shapeNames, List.zipIdx_map, List.map_reverse, List.map_map, List.map_map]
  rfl

theorem mem_shapeNames {params : List AdtParam} {id : TypeVarId} :
    id ∈ (shapeNames params).map Prod.fst ↔ id ∈ params.map (·.var.id) := by
  rw [shapeNames, List.map_reverse, List.mem_reverse, List.map_map]
  have ids : params.zipIdx.map (Prod.fst ∘ fun entry : AdtParam × Nat =>
      (entry.1.var.id, "t" ++ toString entry.2)) = params.map (·.var.id) := by
    have dropped : params.zipIdx.map (Prod.fst ∘ fun entry : AdtParam × Nat =>
        (entry.1.var.id, "t" ++ toString entry.2)) =
          (params.zipIdx.map Prod.fst).map (·.var.id) := by
      rw [List.map_map]
      rfl
    rw [dropped, List.zipIdx_map_fst]
  rw [ids]

/-- Alpha-equivalent declarations have one shape. -/
theorem AdtDecl.adtShape_rename {adt : AdtDecl} (closed : adt.Closed)
    (injective : Set.InjOn (fun id => (assign id).id) adt.Binds) :
    adtShape (adt.rename assign) = adtShape adt := by
  have isBound : ∀ entry ∈ shapeNames adt.params, adt.Binds entry.1 := fun entry member =>
    mem_shapeNames.1 (List.mem_map_of_mem member)
  have variants : (adt.rename assign).variants.map
      (variantShape (shapeNames (adt.rename assign).params)) =
        adt.variants.map (variantShape (shapeNames adt.params)) := by
    refine List.map_map.trans (List.map_congr_left fun variant isVariant => ?_)
    have args : ((variant.args.map (AdtArgument.rename assign)).map fun arg =>
        normalizeTypeForShape (shapeNames (adt.rename assign).params) arg.typ) =
          variant.args.map fun arg => normalizeTypeForShape (shapeNames adt.params) arg.typ := by
      refine List.map_map.trans (List.map_congr_left fun arg isArg => ?_)
      rw [Function.comp_apply, AdtArgument.typ_rename]
      refine normalizeTypeForShape_rename fun id inside => ?_
      have binds : adt.Binds id := by
        obtain ⟨typ, isTyp, inTyp⟩ := AdtArgument.mem_ftv_typ.mp inside
        exact closed arg ⟨variant, isVariant, isArg⟩ typ isTyp id inTyp
      obtain ⟨name, isName⟩ := Option.isSome_iff_exists.mp
        (isSome_lookup_iff.mpr (mem_shapeNames.2 binds))
      refine ⟨name, isName, ?_⟩
      change (shapeNames (adt.params.map (AdtParam.rename assign))).lookup _ = _
      rw [shapeNames_rename, ← isName]
      exact lookup_map_injOn injective isBound binds
    exact congrArg (fun texts => variant.name ++ "(" ++ ", ".intercalate texts ++ ")") args
  rw [adtShape, adtShape, variants]
  rfl

end RexLang
