import RexLang.BoundNames

/-!
# Qualifying and rewriting modules

Loading a module first qualifies the names it declares (`qualify.rs`), then
checks its uses of imported names and rewrites them to canonical symbols
(`rewrite.rs`).  All three passes are walks with one mutable set of bound names.
-/

namespace RexLang

/-! ## Export tables -/

inductive SymbolKind where
  | value | typ | className
deriving DecidableEq

structure CanonicalSymbol where
  moduleKey : BitVec 64
  kind : SymbolKind
  localName : Symbol
  symbol : Symbol
deriving DecidableEq

structure ExportEntry where
  value : Option CanonicalSymbol
  typ : Option CanonicalSymbol
  className : Option CanonicalSymbol
deriving DecidableEq

structure ModuleExports where
  entries : SymbolMap ExportEntry
deriving DecidableEq

namespace ModuleExports

def value (exported : ModuleExports) (name : Symbol) : Option CanonicalSymbol :=
  (exported.entries.lookup name).bind (·.value)

def typ (exported : ModuleExports) (name : Symbol) : Option CanonicalSymbol :=
  (exported.entries.lookup name).bind (·.typ)

def className (exported : ModuleExports) (name : Symbol) : Option CanonicalSymbol :=
  (exported.entries.lookup name).bind (·.className)

end ModuleExports

/-! ## Qualifying -/

/-- `Type.Variant`. -/
def constructorSymbol (typ variant : Symbol) : Symbol :=
  typ ++ "." ++ variant

mutual

/-- A pattern with its constructor names replaced. -/
def mapPatternNames (replace : NameRef → NameRef) : Pattern → Pattern
  | .wildcard span => .wildcard span
  | .var binder => .var binder
  | .named span name args => .named span (replace name) (mapPatternListNames replace args)
  | .tuple span elems => .tuple span (mapPatternListNames replace elems)
  | .list span elems => .list span (mapPatternListNames replace elems)
  | .cons span head tail =>
      .cons span (mapPatternNames replace head) (mapPatternNames replace tail)
  | .dict span fields => .dict span (mapPatternFieldNames replace fields)

def mapPatternListNames (replace : NameRef → NameRef) : List Pattern → List Pattern
  | [] => []
  | pattern :: patterns =>
      mapPatternNames replace pattern :: mapPatternListNames replace patterns

def mapPatternFieldNames (replace : NameRef → NameRef) :
    List (Symbol × Pattern) → List (Symbol × Pattern)
  | [] => []
  | (name, pattern) :: fields =>
      (name, mapPatternNames replace pattern) :: mapPatternFieldNames replace fields

end

mutual

/-- A type with its names replaced. -/
def mapTypeNames (replace : NameRef → NameRef) : TypeExpr → TypeExpr
  | .name span name => .name span (replace name)
  | .app span func arg => .app span (mapTypeNames replace func) (mapTypeNames replace arg)
  | .func span arg ret => .func span (mapTypeNames replace arg) (mapTypeNames replace ret)
  | .tuple span elems => .tuple span (mapTypeListNames replace elems)
  | .record span fields => .record span (mapTypeFieldNames replace fields)

def mapTypeListNames (replace : NameRef → NameRef) : List TypeExpr → List TypeExpr
  | [] => []
  | typ :: types => mapTypeNames replace typ :: mapTypeListNames replace types

def mapTypeFieldNames (replace : NameRef → NameRef) :
    List (Symbol × TypeExpr × Option String) → List (Symbol × TypeExpr × Option String)
  | [] => []
  | (name, typ, docs) :: fields =>
      (name, mapTypeNames replace typ, docs) :: mapTypeFieldNames replace fields

end

mutual

@[simp]
theorem collectPatternBindings_mapNames (replace : NameRef → NameRef) (pattern : Pattern) :
    collectPatternBindings (mapPatternNames replace pattern) = collectPatternBindings pattern := by
  cases pattern with
  | wildcard | var => simp [mapPatternNames]
  | named span name args | tuple span args | list span args =>
      simp [mapPatternNames, collectPatternBindings, collectPatternListBindings_mapNames _ args]
  | cons span head tail =>
      simp [mapPatternNames, collectPatternBindings, collectPatternBindings_mapNames _ head,
        collectPatternBindings_mapNames _ tail]
  | dict span fields =>
      simp [mapPatternNames, collectPatternBindings, collectPatternFieldBindings_mapNames _ fields]

theorem collectPatternListBindings_mapNames (replace : NameRef → NameRef)
    (patterns : List Pattern) :
    collectPatternBindings.collectPatternListBindings (mapPatternListNames replace patterns) =
      collectPatternBindings.collectPatternListBindings patterns := by
  cases patterns with
  | nil => simp [mapPatternListNames]
  | cons pattern patterns =>
      simp [mapPatternListNames, collectPatternBindings.collectPatternListBindings,
        collectPatternBindings_mapNames _ pattern, collectPatternListBindings_mapNames _ patterns]

theorem collectPatternFieldBindings_mapNames (replace : NameRef → NameRef)
    (fields : List (Symbol × Pattern)) :
    collectPatternBindings.collectPatternFieldBindings (mapPatternFieldNames replace fields) =
      collectPatternBindings.collectPatternFieldBindings fields := by
  cases fields with
  | nil => simp [mapPatternFieldNames]
  | cons field fields =>
      obtain ⟨name, pattern⟩ := field
      simp [mapPatternFieldNames, collectPatternBindings.collectPatternFieldBindings,
        collectPatternBindings_mapNames _ pattern, collectPatternFieldBindings_mapNames _ fields]

end

section Rename

variable (valueRenames typeRenames classRenames : SymbolMap Symbol)

def renamePattern : Pattern → Pattern :=
  mapPatternNames fun name =>
    ((valueRenames.lookup name.toDottedSymbol).map .unqualified).getD name

def renameTypeExpr : TypeExpr → TypeExpr :=
  mapTypeNames fun name =>
    match typeRenames.lookup name.toDottedSymbol with
    | some new => .unqualified new
    | none =>
        match classRenames.lookup name.toDottedSymbol with
        | some new => .unqualified new
        | none => name

/-- `rename_constraints`, for one constraint. -/
def renameConstraint (constraint : TypeConstraint) : TypeConstraint where
  className := ((classRenames.lookup constraint.className.toDottedSymbol).map .unqualified).getD
    constraint.className
  typ := renameTypeExpr typeRenames classRenames constraint.typ

/-- What `rename_expr` does at each node that mentions a name. -/
def renameRules : RewriteRules where
  var bound name :=
    if name.name ∈ bound then .var name
    else
      match valueRenames.lookup name.name with
      | some new => .var ⟨name.span, new⟩
      | none => .var name
  member bound span base field :=
    if base.name ∉ bound then
      (valueRenames.lookup (constructorSymbol base.name field)).map fun new => .var ⟨span, new⟩
    else none
  variant _ _ _ _ _ := none
  typ _ := renameTypeExpr typeRenames classRenames
  constraint _ := renameConstraint typeRenames classRenames
  pattern := renamePattern valueRenames

/-- `rename_expr`: the renamed expression and the bound names it leaves. -/
def renameExpr (expr : Expr) (bound : Finset Symbol) : Expr × Finset Symbol :=
  (renameRules valueRenames typeRenames classRenames).rewrite expr bound

/-- Uses that the mapping renames where the name is not bound. -/
def Renamed : Use → Prop
  | .var name => ∃ new, valueRenames.lookup name.name = some new ∧ new ≠ name.name
  | .member _ base field | .variant _ _ base field _ =>
      valueRenames.lookup (constructorSymbol base.name field) ≠ none ∨
        ∃ new, valueRenames.lookup base.name = some new ∧ new ≠ base.name
  | .typeMember _ _ _ | .classMember _ _ _ => False

/-- A rule that only asks whether a name is bound gives the same answer unless
the name is forgotten. -/
theorem mem_sdiff_iff_of_not_forgotten {site : Site} (remembered : ¬ site.Forgotten) :
    site.use.name ∈ site.scope \ site.lost ↔ site.use.name ∈ site.scope := by
  unfold Site.Forgotten at remembered
  rw [Finset.mem_sdiff]
  tauto

theorem not_mem_sdiff_of_forgotten {site : Site} (forgotten : site.Forgotten) :
    site.use.name ∉ site.scope \ site.lost := by
  simp [forgotten.2]

theorem renameRules_var_eq_iff (scope lost : Finset Symbol) (name : Var) :
    (renameRules valueRenames typeRenames classRenames).var (scope \ lost) name =
        (renameRules valueRenames typeRenames classRenames).var scope name ↔
      Site.Faithful (Renamed valueRenames) ⟨.var name, scope, lost⟩ := by
  by_cases forgotten : Site.Forgotten ⟨.var name, scope, lost⟩
  · have notBound : name.name ∉ scope \ lost := not_mem_sdiff_of_forgotten forgotten
    have inScope : name.name ∈ scope := forgotten.1
    simp only [renameRules, if_neg notBound, if_pos inScope, Site.Faithful, forgotten,
      true_implies, Renamed]
    cases hRename : valueRenames.lookup name.name with
    | none => simp
    | some new =>
        obtain ⟨span, name⟩ := name
        simp
  · have sameBound : name.name ∈ scope \ lost ↔ name.name ∈ scope :=
      mem_sdiff_iff_of_not_forgotten forgotten
    simp only [renameRules, sameBound, Site.Faithful, forgotten, false_implies]

theorem renameRules_member_eq_iff (scope lost : Finset Symbol) (span : Span) (base : Var)
    (field : Symbol) :
    ((renameRules valueRenames typeRenames classRenames).rewrite (.project span (.var base) field)
          (scope \ lost)).1 =
        (renameRules valueRenames typeRenames classRenames).rewriteScoped scope
          (.project span (.var base) field) ↔
      Site.Faithful (Renamed valueRenames) ⟨.member span base field, scope, lost⟩ := by
  by_cases forgotten : Site.Forgotten ⟨.member span base field, scope, lost⟩
  · have notBound : base.name ∉ scope \ lost := not_mem_sdiff_of_forgotten forgotten
    have inScope : base.name ∈ scope := forgotten.1
    simp only [RewriteRules.rewrite, RewriteRules.rewriteScoped, RewriteRules.project, renameRules,
      notBound, inScope, not_true, not_false_eq_true, if_true, if_false, Site.Faithful, forgotten,
      true_implies, Renamed]
    cases hConstructor : valueRenames.lookup (constructorSymbol base.name field) with
    | some new => simp
    | none =>
        cases hRename : valueRenames.lookup base.name with
        | none => simp
        | some new =>
            obtain ⟨baseSpan, name⟩ := base
            simp
  · have sameBound : base.name ∈ scope \ lost ↔ base.name ∈ scope :=
      mem_sdiff_iff_of_not_forgotten forgotten
    simp only [RewriteRules.rewrite, RewriteRules.rewriteScoped, RewriteRules.project, renameRules,
      sameBound, Site.Faithful, forgotten, false_implies, iff_true]
    split <;> rfl

theorem renameRules_lawful :
    (renameRules valueRenames typeRenames classRenames).Lawful (Renamed valueRenames) where
  patternNames_eq pattern := by
    simp [patternNames, renameRules, renamePattern]
  var_eq_iff := renameRules_var_eq_iff valueRenames typeRenames classRenames
  project_eq_iff scope lost span base field use whole := by
    unfold projectUse at whole
    split at whole
    · cases whole
      exact renameRules_member_eq_iff valueRenames typeRenames classRenames scope lost span _ field
    · cases whole
      rename_i innerSpan base typeName
      have member := renameRules_member_eq_iff valueRenames typeRenames classRenames scope lost
        innerSpan base typeName
      have noVariant (bound : Finset Symbol) :
          (renameRules valueRenames typeRenames classRenames).project bound span
            (.project innerSpan (.var base) typeName) field = none := rfl
      rw [RewriteRules.rewrite, RewriteRules.rewriteScoped, noVariant, noVariant]
      simp only [Expr.project.injEq, true_and, and_true, member]
      rfl
    · cases whole
  typ_eq_iff scope lost typ := by
    simp only [renameRules, true_iff, sitesOf, List.forall_mem_map]
    intro use member _
    obtain ⟨useSpan, base, name, rfl⟩ := eq_typeMember_of_mem_typeUses typ member
    exact not_false
  constraint_eq_iff scope lost constraint := by
    simp only [renameRules, true_iff, sitesOf, List.forall_mem_map]
    intro use member _
    rcases List.mem_append.mp member with member | member
    · obtain ⟨⟨base, name⟩, -, rfl⟩ := List.mem_map.mp member
      exact not_false
    · obtain ⟨useSpan, base, name, rfl⟩ := eq_typeMember_of_mem_typeUses _ member
      exact not_false

end Rename

/-! ## Rewriting imported names -/

structure RewriteScope where
  aliases : SymbolMap ModuleExports
  importedValues : SymbolMap CanonicalSymbol
  importedTypes : SymbolMap CanonicalSymbol
  importedClasses : SymbolMap CanonicalSymbol
  shadowedTypes : Option (Finset Symbol)
  shadowedValues : Option (Finset Symbol)

/-- Whether an optional set of shadowed names has a name. -/
def isShadowed (shadowed : Option (Finset Symbol)) (name : Symbol) : Prop :=
  ∃ names ∈ shadowed, name ∈ names

instance (shadowed : Option (Finset Symbol)) (name : Symbol) :
    Decidable (isShadowed shadowed name) :=
  match shadowed with
  | none => .isFalse (by simp [isShadowed])
  | some names => decidable_of_iff (name ∈ names) (by simp [isShadowed])

def aliasIsVisible (name : Symbol) (bound : Finset Symbol) (shadowed : Option (Finset Symbol)) :
    Prop :=
  name ∉ bound ∧ ¬ isShadowed shadowed name

instance (name : Symbol) (bound : Finset Symbol) (shadowed : Option (Finset Symbol)) :
    Decidable (aliasIsVisible name bound shadowed) := by
  unfold aliasIsVisible
  infer_instance

/-- `NameRef::as_segments`. -/
def NameRef.asSegments : NameRef → List Symbol
  | .unqualified name => [name]
  | .qualified _ segments => segments

section Rewrite

variable (scope : RewriteScope)

def rewriteConstructorName (name : NameRef) : NameRef :=
  match name.asSegments with
  | [typ, variant] =>
      ((scope.importedTypes.lookup typ).map fun imported =>
        .unqualified (constructorSymbol imported.symbol variant)).getD name
  | [base, typ, variant] =>
      (((scope.aliases.lookup base).bind (·.typ typ)).map fun imported =>
        .unqualified (constructorSymbol imported.symbol variant)).getD name
  | _ =>
      ((scope.importedValues.lookup name.toDottedSymbol).map fun imported =>
        .unqualified imported.symbol).getD name

def rewriteImportUsesPattern : Pattern → Pattern :=
  mapPatternNames (rewriteConstructorName scope)

def rewriteImportUsesClassName (bound : Finset Symbol) (className : NameRef) : NameRef :=
  match className with
  | .unqualified name =>
      if isShadowed scope.shadowedTypes name then className
      else
        match scope.importedClasses.lookup name with
        | some new => .unqualified new.symbol
        | none => className
  | .qualified _ _ =>
      match qualifiedAliasMember className with
      | none => className
      | some (base, member) =>
          if aliasIsVisible base bound scope.shadowedValues then
            match scope.aliases.lookup base with
            | none => className
            | some exported =>
                ((exported.className member).map fun new => .unqualified new.symbol).getD className
          else className

/-- The `Name` case of `rewrite_import_uses_type_expr`. -/
def rewriteImportUsesTypeName (bound : Finset Symbol) (name : NameRef) : NameRef :=
  match name with
  | .unqualified local_ =>
      if isShadowed scope.shadowedTypes local_ then name
      else
        match scope.importedTypes.lookup local_ with
        | some new => .unqualified new.symbol
        | none => name
  | .qualified _ _ =>
      match qualifiedAliasMember name with
      | none => name
      | some (base, member) =>
          if aliasIsVisible base bound scope.shadowedValues then
            match scope.aliases.lookup base with
            | none => name
            | some exported =>
                match exported.typ member with
                | some new => .unqualified new.symbol
                | none =>
                    match exported.className member with
                    | some new => .unqualified new.symbol
                    | none => name
          else name

def rewriteImportUsesTypeExpr (bound : Finset Symbol) : TypeExpr → TypeExpr :=
  mapTypeNames (rewriteImportUsesTypeName scope bound)

/-- What `rewrite_import_uses_expr` does at each node that mentions a name. -/
def importRules : RewriteRules where
  var bound name :=
    if aliasIsVisible name.name bound scope.shadowedValues then
      match scope.importedValues.lookup name.name with
      | some internal => .var ⟨name.span, internal.symbol⟩
      | none => .var name
    else .var name
  member bound span base field :=
    match if base.name ∉ bound then scope.importedTypes.lookup base.name else none with
    | some imported => some (.var ⟨span, constructorSymbol imported.symbol field⟩)
    | none =>
        if aliasIsVisible base.name bound scope.shadowedValues then
          ((scope.aliases.lookup base.name).bind (·.value field)).map fun internal =>
            .var ⟨span, internal.symbol⟩
        else none
  variant bound span base typeName field :=
    if aliasIsVisible base.name bound scope.shadowedValues then
      ((scope.aliases.lookup base.name).bind (·.typ typeName)).map fun imported =>
        .var ⟨span, constructorSymbol imported.symbol field⟩
    else none
  typ := rewriteImportUsesTypeExpr scope
  constraint bound constraint :=
    ⟨rewriteImportUsesClassName scope bound constraint.className,
      rewriteImportUsesTypeExpr scope bound constraint.typ⟩
  pattern := rewriteImportUsesPattern scope

/-- `rewrite_import_uses_expr`: the rewritten expression and the bound names it
leaves. -/
def rewriteImportUsesExpr (expr : Expr) (bound : Finset Symbol) : Expr × Finset Symbol :=
  (importRules scope).rewrite expr bound

/-- A projection on a name that imports give a meaning. -/
def ImportedMember (base : Var) (field : Symbol) : Prop :=
  scope.importedTypes.lookup base.name ≠ none ∨
    ¬ isShadowed scope.shadowedValues base.name ∧
      ((scope.aliases.lookup base.name).bind (·.value field) ≠ none ∨
        ∃ internal, scope.importedValues.lookup base.name = some internal ∧
          internal.symbol ≠ base.name)

/-- Uses that the imports rewrite where the name is not bound. -/
def Imported : Use → Prop
  | .var name =>
      ¬ isShadowed scope.shadowedValues name.name ∧
        ∃ internal, scope.importedValues.lookup name.name = some internal ∧
          internal.symbol ≠ name.name
  | .member _ base field => ImportedMember scope base field
  | .variant _ _ base typeName _ =>
      ¬ isShadowed scope.shadowedValues base.name ∧
          (scope.aliases.lookup base.name).bind (·.typ typeName) ≠ none ∨
        ImportedMember scope base typeName
  | .typeMember _ base member =>
      ¬ isShadowed scope.shadowedValues base ∧
        ∃ exported, scope.aliases.lookup base = some exported ∧
          (exported.typ member ≠ none ∨ exported.className member ≠ none)
  | .classMember _ base member =>
      ¬ isShadowed scope.shadowedValues base ∧
        (scope.aliases.lookup base).bind (·.className member) ≠ none

/-- A rewrite of visible names tells the scopes apart where the name has a meaning. -/
theorem rewrite_visible_eq_iff {Rewritten : Type} (names lost : Finset Symbol) (use : Use)
    {rewritten kept : Rewritten}
    (imported : Imported scope use ↔ ¬isShadowed scope.shadowedValues use.name ∧ rewritten ≠ kept) :
    (if aliasIsVisible use.name (names \ lost) scope.shadowedValues then rewritten else kept) =
        (if aliasIsVisible use.name names scope.shadowedValues then rewritten else kept) ↔
      Site.Faithful (Imported scope) ⟨use, names, lost⟩ := by
  by_cases forgotten : Site.Forgotten ⟨use, names, lost⟩
  · have notBound : use.name ∉ names \ lost := not_mem_sdiff_of_forgotten forgotten
    have inScope : use.name ∈ names := forgotten.1
    by_cases shadowed : isShadowed scope.shadowedValues use.name
    · simp [aliasIsVisible, Site.Faithful, imported, shadowed]
    · simp [aliasIsVisible, notBound, inScope, shadowed, Site.Faithful, forgotten, imported]
  · have sameBound : use.name ∈ names \ lost ↔ use.name ∈ names :=
      mem_sdiff_iff_of_not_forgotten forgotten
    simp only [aliasIsVisible, sameBound, Site.Faithful, forgotten, false_implies]

theorem importRules_var_eq_iff (names lost : Finset Symbol) (name : Var) :
    (importRules scope).var (names \ lost) name = (importRules scope).var names name ↔
      Site.Faithful (Imported scope) ⟨.var name, names, lost⟩ := by
  refine rewrite_visible_eq_iff scope names lost (.var name) (and_congr Iff.rfl ?_)
  cases scope.importedValues.lookup name.name with
  | none => simp
  | some internal =>
      obtain ⟨span, name⟩ := name
      simp

theorem importRules_member_eq_iff (names lost : Finset Symbol) (span : Span) (base : Var)
    (field : Symbol) :
    ((importRules scope).rewrite (.project span (.var base) field) (names \ lost)).1 =
        (importRules scope).rewriteScoped names (.project span (.var base) field) ↔
      (base.name ∈ names ∧ base.name ∈ lost → ¬ ImportedMember scope base field) := by
  by_cases forgotten : Site.Forgotten ⟨.member span base field, names, lost⟩
  · have notBound : base.name ∉ names \ lost := not_mem_sdiff_of_forgotten forgotten
    have inScope : base.name ∈ names := forgotten.1
    have isLost : base.name ∈ lost := forgotten.2
    simp only [RewriteRules.rewrite, RewriteRules.rewriteScoped, RewriteRules.project, importRules,
      aliasIsVisible, notBound, inScope, isLost, not_true, not_false_eq_true, true_and, false_and,
      if_true, if_false, true_implies, ImportedMember]
    cases hType : scope.importedTypes.lookup base.name with
    | some imported => simp
    | none =>
        by_cases shadowed : isShadowed scope.shadowedValues base.name
        · simp [shadowed]
        · cases hValue : (scope.aliases.lookup base.name).bind (·.value field) with
          | some internal => simp [shadowed]
          | none =>
              cases hImport : scope.importedValues.lookup base.name with
              | none => simp [shadowed]
              | some internal =>
                  obtain ⟨baseSpan, name⟩ := base
                  simp [shadowed]
  · have sameBound : base.name ∈ names \ lost ↔ base.name ∈ names :=
      mem_sdiff_iff_of_not_forgotten forgotten
    have notBoth : ¬ (base.name ∈ names ∧ base.name ∈ lost) := forgotten
    have sameVar : (importRules scope).var (names \ lost) base =
        (importRules scope).var names base := by
      simp only [importRules, aliasIsVisible, sameBound]
    have sameMember : (importRules scope).member (names \ lost) span base field =
        (importRules scope).member names span base field := by
      simp only [importRules, aliasIsVisible, sameBound]
    simp only [RewriteRules.rewrite, RewriteRules.rewriteScoped, RewriteRules.project, sameVar,
      sameMember, notBoth, false_implies, iff_true]
    cases (importRules scope).member names span base field <;> rfl

theorem importRules_variant_eq_iff (names lost : Finset Symbol) (span innerSpan : Span)
    (base : Var) (typeName field : Symbol) :
    ((importRules scope).rewrite (.project span (.project innerSpan (.var base) typeName) field)
          (names \ lost)).1 =
        (importRules scope).rewriteScoped names
          (.project span (.project innerSpan (.var base) typeName) field) ↔
      Site.Faithful (Imported scope)
        ⟨.variant span innerSpan base typeName field, names, lost⟩ := by
  have member := importRules_member_eq_iff scope names lost innerSpan base typeName
  have walk (bound : Finset Symbol) :
      ((importRules scope).rewrite (.project span (.project innerSpan (.var base) typeName) field)
        bound).1 = ((importRules scope).variant bound span base typeName field).getD
          (.project span ((importRules scope).rewrite (.project innerSpan (.var base) typeName)
            bound).1 field) := by
    rw [RewriteRules.rewrite]
    simp only [RewriteRules.project]
    cases (importRules scope).variant bound span base typeName field <;> rfl
  have walkScoped :
      (importRules scope).rewriteScoped names
          (.project span (.project innerSpan (.var base) typeName) field) =
        ((importRules scope).variant names span base typeName field).getD
          (.project span ((importRules scope).rewriteScoped names
            (.project innerSpan (.var base) typeName)) field) := by
    rw [RewriteRules.rewriteScoped]
    simp only [RewriteRules.project]
    cases (importRules scope).variant names span base typeName field <;> rfl
  rw [walk, walkScoped]
  by_cases forgotten : Site.Forgotten ⟨.variant span innerSpan base typeName field, names, lost⟩
  · have notBound : base.name ∉ names \ lost := not_mem_sdiff_of_forgotten forgotten
    have inScope : base.name ∈ names := forgotten.1
    have isLost : base.name ∈ lost := forgotten.2
    have noVariant : (importRules scope).variant names span base typeName field = none := by
      simp [importRules, aliasIsVisible, inScope]
    have variantEq : (importRules scope).variant (names \ lost) span base typeName field =
        if isShadowed scope.shadowedValues base.name then none
        else ((scope.aliases.lookup base.name).bind (·.typ typeName)).map fun imported =>
          .var ⟨span, constructorSymbol imported.symbol field⟩ := by
      by_cases shadowed : isShadowed scope.shadowedValues base.name <;>
        simp [importRules, aliasIsVisible, isLost, shadowed]
    rw [noVariant, variantEq]
    simp only [inScope, isLost, and_self, true_implies] at member
    simp only [Site.Faithful, forgotten, true_implies, Imported, not_or, ← member]
    by_cases shadowed : isShadowed scope.shadowedValues base.name
    · simp [shadowed]
    · cases hType : (scope.aliases.lookup base.name).bind (·.typ typeName) with
      | none => simp [shadowed]
      | some imported => simp [shadowed]
  · have sameBound : base.name ∈ names \ lost ↔ base.name ∈ names :=
      mem_sdiff_iff_of_not_forgotten forgotten
    have notBoth : ¬ (base.name ∈ names ∧ base.name ∈ lost) := forgotten
    have sameVariant : (importRules scope).variant (names \ lost) span base typeName field =
        (importRules scope).variant names span base typeName field := by
      simp only [importRules, aliasIsVisible, sameBound]
    have sameBase := member.mpr fun both => absurd both notBoth
    simp only [sameVariant, sameBase, Site.Faithful, forgotten, false_implies]

theorem rewriteImportUsesTypeName_eq_iff (names lost : Finset Symbol) (span : Span)
    (name : NameRef) :
    rewriteImportUsesTypeName scope (names \ lost) name =
        rewriteImportUsesTypeName scope names name ↔
      ∀ site ∈ sitesOf names lost (typeUses (.name span name)), site.Faithful (Imported scope) := by
  cases name with
  | unqualified name => simp [rewriteImportUsesTypeName, typeUses, qualifiedAliasMember, sitesOf]
  | qualified dotted segments =>
      cases hMember : qualifiedAliasMember (.qualified dotted segments) with
      | none => simp [rewriteImportUsesTypeName, typeUses, hMember, sitesOf]
      | some parts =>
          obtain ⟨base, member⟩ := parts
          simp only [rewriteImportUsesTypeName, typeUses, hMember, sitesOf, Option.toList_some,
            List.map_cons, List.map_nil, List.forall_mem_singleton]
          refine rewrite_visible_eq_iff scope names lost (.typeMember span base member)
            (and_congr Iff.rfl ?_)
          cases scope.aliases.lookup base with
          | none => simp
          | some exported =>
              cases hType : exported.typ member with
              | some new => simp [hType]
              | none => cases hClass : exported.className member <;> simp [hType, hClass]

theorem rewriteImportUsesClassName_eq_iff (names lost : Finset Symbol) (span : Span)
    (name : NameRef) :
    rewriteImportUsesClassName scope (names \ lost) name =
        rewriteImportUsesClassName scope names name ↔
      ∀ site ∈ sitesOf names lost ((qualifiedAliasMember name).toList.map fun (base, member) =>
        .classMember span base member), site.Faithful (Imported scope) := by
  cases name with
  | unqualified name => simp [rewriteImportUsesClassName, qualifiedAliasMember, sitesOf]
  | qualified dotted segments =>
      cases hMember : qualifiedAliasMember (.qualified dotted segments) with
      | none => simp [rewriteImportUsesClassName, hMember, sitesOf]
      | some parts =>
          obtain ⟨base, member⟩ := parts
          simp only [rewriteImportUsesClassName, hMember, sitesOf, Option.toList_some,
            List.map_cons, List.map_nil, List.forall_mem_singleton]
          refine rewrite_visible_eq_iff scope names lost (.classMember span base member)
            (and_congr Iff.rfl ?_)
          cases scope.aliases.lookup base with
          | none => simp
          | some exported => cases hClass : exported.className member <;> simp [hClass]

mutual

theorem rewriteImportUsesTypeExpr_eq_iff (names lost : Finset Symbol) (typ : TypeExpr) :
    rewriteImportUsesTypeExpr scope (names \ lost) typ =
        rewriteImportUsesTypeExpr scope names typ ↔
      ∀ site ∈ sitesOf names lost (typeUses typ), site.Faithful (Imported scope) := by
  cases typ with
  | name span name =>
      rw [← rewriteImportUsesTypeName_eq_iff scope names lost span name]
      simp [rewriteImportUsesTypeExpr, mapTypeNames]
  | app span first second =>
      rw [typeUses, sitesOf_append, List.forall_mem_append,
        ← rewriteImportUsesTypeExpr_eq_iff names lost first,
        ← rewriteImportUsesTypeExpr_eq_iff names lost second]
      simp [rewriteImportUsesTypeExpr, mapTypeNames]
  | func span first second =>
      rw [typeUses, sitesOf_append, List.forall_mem_append,
        ← rewriteImportUsesTypeExpr_eq_iff names lost first,
        ← rewriteImportUsesTypeExpr_eq_iff names lost second]
      simp [rewriteImportUsesTypeExpr, mapTypeNames]
  | tuple span elems =>
      rw [typeUses, ← rewriteImportUsesTypeList_eq_iff names lost elems]
      simp [rewriteImportUsesTypeExpr, mapTypeNames]
  | record span fields =>
      rw [typeUses, ← rewriteImportUsesTypeFields_eq_iff names lost fields]
      simp [rewriteImportUsesTypeExpr, mapTypeNames]

theorem rewriteImportUsesTypeList_eq_iff (names lost : Finset Symbol) (types : List TypeExpr) :
    mapTypeListNames (rewriteImportUsesTypeName scope (names \ lost)) types =
        mapTypeListNames (rewriteImportUsesTypeName scope names) types ↔
      ∀ site ∈ sitesOf names lost (typeListUses types), site.Faithful (Imported scope) := by
  cases types with
  | nil => simp [mapTypeListNames, typeListUses, sitesOf]
  | cons typ types =>
      rw [typeListUses, sitesOf_append, List.forall_mem_append,
        ← rewriteImportUsesTypeExpr_eq_iff names lost typ,
        ← rewriteImportUsesTypeList_eq_iff names lost types]
      simp [rewriteImportUsesTypeExpr, mapTypeListNames]

theorem rewriteImportUsesTypeFields_eq_iff (names lost : Finset Symbol)
    (fields : List (Symbol × TypeExpr × Option String)) :
    mapTypeFieldNames (rewriteImportUsesTypeName scope (names \ lost)) fields =
        mapTypeFieldNames (rewriteImportUsesTypeName scope names) fields ↔
      ∀ site ∈ sitesOf names lost (typeFieldUses fields), site.Faithful (Imported scope) := by
  cases fields with
  | nil => simp [mapTypeFieldNames, typeFieldUses, sitesOf]
  | cons field fields =>
      obtain ⟨name, typ, docs⟩ := field
      rw [typeFieldUses, sitesOf_append, List.forall_mem_append,
        ← rewriteImportUsesTypeExpr_eq_iff names lost typ,
        ← rewriteImportUsesTypeFields_eq_iff names lost fields]
      simp [rewriteImportUsesTypeExpr, mapTypeFieldNames]

end

theorem importRules_lawful : (importRules scope).Lawful (Imported scope) where
  patternNames_eq pattern := by
    simp [patternNames, importRules, rewriteImportUsesPattern]
  var_eq_iff := importRules_var_eq_iff scope
  project_eq_iff names lost span base field use whole := by
    unfold projectUse at whole
    split at whole
    · cases whole
      exact importRules_member_eq_iff scope names lost span _ field
    · cases whole
      exact importRules_variant_eq_iff scope names lost span _ _ _ field
    · cases whole
  typ_eq_iff := rewriteImportUsesTypeExpr_eq_iff scope
  constraint_eq_iff names lost constraint := by
    obtain ⟨className, typ⟩ := constraint
    rw [constraintUses, sitesOf_append, List.forall_mem_append,
      ← rewriteImportUsesClassName_eq_iff, ← rewriteImportUsesTypeExpr_eq_iff]
    simp [importRules]

end Rewrite

end RexLang
