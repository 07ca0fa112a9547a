import RexLang.ImportRewriting

/-!
# Checking the uses of imported names

`validate_import_uses_expr` walks an expression like the rewriter does and stops
at the first use of an alias for something its module does not export.
-/

namespace RexLang

/-- `ModuleError::MissingExport` at a span. -/
structure ImportUseError where
  span : Span
  moduleName : Symbol
  exportName : Symbol
deriving DecidableEq

section Validate

variable (aliases : SymbolMap ModuleExports) (shadowed : Option (Finset Symbol))

def validateImportUsesClassName (className : NameRef) (span : Span) (bound : Finset Symbol) :
    Except ImportUseError Unit :=
  match qualifiedAliasMember className with
  | none => .ok ()
  | some (base, member) =>
      if aliasIsVisible base bound shadowed then
        match aliases.lookup base with
        | none => .ok ()
        | some exported =>
            if (exported.className member).isSome then .ok () else .error ⟨span, base, member⟩
      else .ok ()

mutual

def validateImportUsesTypeExpr (bound : Finset Symbol) : TypeExpr → Except ImportUseError Unit
  | .name span name =>
      match qualifiedAliasMember name with
      | none => .ok ()
      | some (base, member) =>
          if aliasIsVisible base bound shadowed then
            match aliases.lookup base with
            | none => .ok ()
            | some exported =>
                if (exported.typ member).isSome ∨ (exported.className member).isSome then .ok ()
                else .error ⟨span, base, member⟩
          else .ok ()
  | .app _ func arg => do
      validateImportUsesTypeExpr bound func
      validateImportUsesTypeExpr bound arg
  | .func _ arg ret => do
      validateImportUsesTypeExpr bound arg
      validateImportUsesTypeExpr bound ret
  | .tuple _ elems => validateImportUsesTypeList bound elems
  | .record _ fields => validateImportUsesTypeFields bound fields

def validateImportUsesTypeList (bound : Finset Symbol) :
    List TypeExpr → Except ImportUseError Unit
  | [] => .ok ()
  | typ :: types => do
      validateImportUsesTypeExpr bound typ
      validateImportUsesTypeList bound types

def validateImportUsesTypeFields (bound : Finset Symbol) :
    List (Symbol × TypeExpr × Option String) → Except ImportUseError Unit
  | [] => .ok ()
  | (_, typ, _) :: fields => do
      validateImportUsesTypeExpr bound typ
      validateImportUsesTypeFields bound fields

end

def validateImportUsesAnn (bound : Finset Symbol) : Option TypeExpr → Except ImportUseError Unit
  | none => .ok ()
  | some typ => validateImportUsesTypeExpr aliases shadowed bound typ

def validateConstraints (bound : Finset Symbol) :
    List TypeConstraint → Except ImportUseError Unit
  | [] => .ok ()
  | constraint :: constraints => do
      validateImportUsesClassName aliases shadowed constraint.className constraint.typ.span bound
      validateImportUsesTypeExpr aliases shadowed bound constraint.typ
      validateConstraints bound constraints

/-- The annotations of a `let rec` group. -/
def validateImportUsesAnns (bound : Finset Symbol) :
    List LetRecBinding → Except ImportUseError Unit
  | [] => .ok ()
  | (_, _, ann, _) :: bindings => do
      validateImportUsesAnn aliases shadowed bound ann
      validateImportUsesAnns bound bindings

/-- `Module.Type.Variant`, which is checked after rewriting. -/
def selectsVariant (bound : Finset Symbol) (base : Expr) : Bool :=
  match base with
  | .project _ (.var module_) typeName =>
      aliasIsVisible module_.name bound shadowed ∧
        ((aliases.lookup module_.name).bind (·.typ typeName)).isSome
  | _ => false

/-- The error of a projection on an alias. -/
def missingMember (bound : Finset Symbol) (span : Span) (base : Expr) (field : Symbol) :
    Option ImportUseError :=
  match base with
  | .var name =>
      if aliasIsVisible name.name bound shadowed then
        match aliases.lookup name.name with
        | none => none
        | some exported =>
            if (exported.value field).isNone then some ⟨span, name.name, field⟩ else none
      else none
  | _ => none

mutual

/-- `validate_import_uses_expr`: the bound names it leaves, or the error. -/
def validateImportUsesExpr : Expr → Finset Symbol → Except ImportUseError (Finset Symbol)
  | .project span base field, bound =>
      if selectsVariant aliases shadowed bound base then .ok bound
      else
        match missingMember aliases shadowed bound span base field with
        | some error => .error error
        | none => validateImportUsesExpr base bound
  | .lam _ _ param ann constraints body, bound => do
      validateImportUsesAnn aliases shadowed bound ann
      validateConstraints aliases shadowed bound constraints
      let bound ← validateImportUsesExpr body (insert param.name bound)
      return bound.erase param.name
  | .letIn _ binder _ ann defn body, bound => do
      validateImportUsesAnn aliases shadowed bound ann
      let bound ← validateImportUsesExpr defn bound
      let bound ← validateImportUsesExpr body (insert binder.name bound)
      return bound.erase binder.name
  | .letRec _ bindings body, bound => do
      validateImportUsesAnns aliases shadowed bound bindings
      let bound ← validateImportUsesBindings bindings (bound ∪ bindingNames bindings)
      let bound ← validateImportUsesExpr body bound
      return bound \ bindingNames bindings
  | .matchWith _ scrutinee arms, bound => do
      let bound ← validateImportUsesExpr scrutinee bound
      validateImportUsesArms arms bound
  | .tuple _ elems, bound => validateImportUsesList elems bound
  | .list _ elems, bound => validateImportUsesList elems bound
  | .dict _ fields, bound => validateImportUsesFields fields bound
  | .recordUpdate _ base updates, bound => do
      let bound ← validateImportUsesExpr base bound
      validateImportUsesFields updates bound
  | .app _ func arg, bound => do
      let bound ← validateImportUsesExpr func bound
      validateImportUsesExpr arg bound
  | .ite _ cond thenExpr elseExpr, bound => do
      let bound ← validateImportUsesExpr cond bound
      let bound ← validateImportUsesExpr thenExpr bound
      validateImportUsesExpr elseExpr bound
  | .ann _ expr typ, bound => do
      let bound ← validateImportUsesExpr expr bound
      validateImportUsesTypeExpr aliases shadowed bound typ
      return bound
  | .var _, bound => .ok bound
  | .bool _ _, bound => .ok bound
  | .uint _ _, bound => .ok bound
  | .int _ _, bound => .ok bound
  | .float _ _, bound => .ok bound
  | .char _ _, bound => .ok bound
  | .string _ _, bound => .ok bound
  | .uuid _ _, bound => .ok bound
  | .dateTime _ _, bound => .ok bound
  | .hole _, bound => .ok bound

def validateImportUsesList :
    List Expr → Finset Symbol → Except ImportUseError (Finset Symbol)
  | [], bound => .ok bound
  | expr :: exprs, bound => do
      let bound ← validateImportUsesExpr expr bound
      validateImportUsesList exprs bound

def validateImportUsesFields :
    List (Symbol × Expr) → Finset Symbol → Except ImportUseError (Finset Symbol)
  | [], bound => .ok bound
  | (_, expr) :: fields, bound => do
      let bound ← validateImportUsesExpr expr bound
      validateImportUsesFields fields bound

def validateImportUsesBindings :
    List LetRecBinding → Finset Symbol → Except ImportUseError (Finset Symbol)
  | [], bound => .ok bound
  | (_, _, _, defn) :: bindings, bound => do
      let bound ← validateImportUsesExpr defn bound
      validateImportUsesBindings bindings bound

def validateImportUsesArms :
    List (Pattern × Expr) → Finset Symbol → Except ImportUseError (Finset Symbol)
  | [], bound => .ok bound
  | (pattern, expr) :: arms, bound => do
      let bound ← validateImportUsesExpr expr (bound ∪ patternNames pattern)
      validateImportUsesArms arms (bound \ patternNames pattern)

end

/-! ## The first unresolved use -/

/-- The error of a use whose name is not bound, unless the use is resolved. -/
def unresolved : Use → Option ImportUseError
  | .var _ => none
  | .member span base field =>
      if isShadowed shadowed base.name then none
      else (aliases.lookup base.name).bind fun exported =>
        if (exported.value field).isNone then some ⟨span, base.name, field⟩ else none
  | .variant _ innerSpan base typeName _ =>
      if isShadowed shadowed base.name then none
      else (aliases.lookup base.name).bind fun exported =>
        if (exported.typ typeName).isNone ∧ (exported.value typeName).isNone then
          some ⟨innerSpan, base.name, typeName⟩
        else none
  | .typeMember span base member =>
      if isShadowed shadowed base then none
      else (aliases.lookup base).bind fun exported =>
        if (exported.typ member).isNone ∧ (exported.className member).isNone then
          some ⟨span, base, member⟩
        else none
  | .classMember span base member =>
      if isShadowed shadowed base then none
      else (aliases.lookup base).bind fun exported =>
        if (exported.className member).isNone then some ⟨span, base, member⟩ else none

/-- The error that the walk reports at a site. -/
def siteError (site : Site) : Option ImportUseError :=
  if site.use.name ∈ site.scope \ site.lost then none else unresolved aliases shadowed site.use

/-- A walk that ends with the first error, if there is one. -/
def outcome {Result : Type} (error : Option ImportUseError) (result : Result) :
    Except ImportUseError Result :=
  match error with
  | some error => .error error
  | none => .ok result

theorem outcome_bind {First Second : Type} (firstError secondError : Option ImportUseError)
    (first : First) (second : Second) (next : First → Except ImportUseError Second)
    (nextOutcome : next first = outcome secondError second) :
    (outcome firstError first).bind next = outcome (firstError.or secondError) second := by
  cases firstError with
  | some error => rfl
  | none => exact nextOutcome

theorem outcome_map {First Second : Type} (error : Option ImportUseError) (first : First)
    (change : First → Second) (second : Second) (changed : change first = second) :
    ((outcome error first).bind fun result => .ok (change result)) = outcome error second := by
  rw [← changed]
  cases error <;> rfl

/-- The first error at uses that stand at one place. -/
def usesError (scope lost : Finset Symbol) (uses : List Use) : Option ImportUseError :=
  (sitesOf scope lost uses).findSome? (siteError aliases shadowed)

theorem usesError_append (scope lost : Finset Symbol) (first second : List Use) :
    usesError aliases shadowed scope lost (first ++ second) =
      (usesError aliases shadowed scope lost first).or
        (usesError aliases shadowed scope lost second) := by
  rw [usesError, sitesOf_append, List.findSome?_append]
  rfl

theorem validateImportUsesClassName_eq (scope lost : Finset Symbol) (className : NameRef)
    (span : Span) :
    validateImportUsesClassName aliases shadowed className span (scope \ lost) =
      outcome (usesError aliases shadowed scope lost
        ((qualifiedAliasMember className).toList.map fun (base, member) =>
          .classMember span base member)) () := by
  unfold validateImportUsesClassName
  cases qualifiedAliasMember className with
  | none => rfl
  | some parts =>
      obtain ⟨base, member⟩ := parts
      simp only [usesError, sitesOf, Option.toList_some, List.map_cons, List.map_nil,
        List.findSome?_singleton, siteError, unresolved, Use.name, aliasIsVisible]
      by_cases bound : base ∈ scope \ lost
      · simp only [bound, not_true, false_and, if_false, if_true]
        rfl
      · by_cases isHidden : isShadowed shadowed base
        · simp [bound, isHidden, outcome]
        · cases aliases.lookup base with
          | none => simp [bound, isHidden, outcome]
          | some exported => cases hClass : exported.className member <;>
              simp [bound, isHidden, outcome, hClass]

mutual

theorem validateImportUsesTypeExpr_eq (scope lost : Finset Symbol) (typ : TypeExpr) :
    validateImportUsesTypeExpr aliases shadowed (scope \ lost) typ =
      outcome (usesError aliases shadowed scope lost (typeUses typ)) () := by
  cases typ with
  | name span name =>
      unfold validateImportUsesTypeExpr typeUses
      cases qualifiedAliasMember name with
      | none => rfl
      | some parts =>
          obtain ⟨base, member⟩ := parts
          simp only [usesError, sitesOf, Option.toList_some, List.map_cons, List.map_nil,
            List.findSome?_singleton, siteError, unresolved, Use.name, aliasIsVisible]
          by_cases bound : base ∈ scope \ lost
          · simp only [bound, not_true, false_and, if_false, if_true]
            rfl
          · by_cases isHidden : isShadowed shadowed base
            · simp [bound, isHidden, outcome]
            · cases aliases.lookup base with
              | none => simp [bound, isHidden, outcome]
              | some exported =>
                  cases hType : exported.typ member <;>
                    cases hClass : exported.className member <;>
                      simp [bound, isHidden, outcome, hType, hClass]
  | app span first second | func span first second =>
      rw [typeUses, usesError_append, validateImportUsesTypeExpr,
        validateImportUsesTypeExpr_eq scope lost first]
      exact outcome_bind _ _ _ _ _ (validateImportUsesTypeExpr_eq scope lost second)
  | tuple span elems => exact validateImportUsesTypeList_eq scope lost elems
  | record span fields => exact validateImportUsesTypeFields_eq scope lost fields

theorem validateImportUsesTypeList_eq (scope lost : Finset Symbol) (types : List TypeExpr) :
    validateImportUsesTypeList aliases shadowed (scope \ lost) types =
      outcome (usesError aliases shadowed scope lost (typeListUses types)) () := by
  cases types with
  | nil => rfl
  | cons typ types =>
      rw [typeListUses, usesError_append, validateImportUsesTypeList,
        validateImportUsesTypeExpr_eq scope lost typ]
      exact outcome_bind _ _ _ _ _ (validateImportUsesTypeList_eq scope lost types)

theorem validateImportUsesTypeFields_eq (scope lost : Finset Symbol)
    (fields : List (Symbol × TypeExpr × Option String)) :
    validateImportUsesTypeFields aliases shadowed (scope \ lost) fields =
      outcome (usesError aliases shadowed scope lost (typeFieldUses fields)) () := by
  cases fields with
  | nil => rfl
  | cons field fields =>
      obtain ⟨name, typ, docs⟩ := field
      rw [typeFieldUses, usesError_append, validateImportUsesTypeFields,
        validateImportUsesTypeExpr_eq scope lost typ]
      exact outcome_bind _ _ _ _ _ (validateImportUsesTypeFields_eq scope lost fields)

end

theorem validateImportUsesAnn_eq (scope lost : Finset Symbol) (ann : Option TypeExpr) :
    validateImportUsesAnn aliases shadowed (scope \ lost) ann =
      outcome (usesError aliases shadowed scope lost (annotationUses ann)) () := by
  cases ann with
  | none => rfl
  | some typ =>
      simpa [validateImportUsesAnn, annotationUses] using
        validateImportUsesTypeExpr_eq aliases shadowed scope lost typ

theorem validateConstraints_eq (scope lost : Finset Symbol) (constraints : List TypeConstraint) :
    validateConstraints aliases shadowed (scope \ lost) constraints =
      outcome (usesError aliases shadowed scope lost (constraints.flatMap constraintUses)) () := by
  induction constraints with
  | nil => rfl
  | cons constraint constraints constraintsIH =>
      rw [List.flatMap_cons, usesError_append, constraintUses, usesError_append,
        validateConstraints, validateImportUsesClassName_eq, validateImportUsesTypeExpr_eq,
        Option.or_assoc]
      exact outcome_bind _ _ _ _ _ (outcome_bind _ _ _ _ _ constraintsIH)

theorem validateImportUsesAnns_eq (scope lost : Finset Symbol) (bindings : List LetRecBinding) :
    validateImportUsesAnns aliases shadowed (scope \ lost) bindings =
      outcome (usesError aliases shadowed scope lost
        (bindings.flatMap fun binding => annotationUses binding.2.2.1)) () := by
  induction bindings with
  | nil => rfl
  | cons binding bindings bindingsIH =>
      rw [List.flatMap_cons, usesError_append, validateImportUsesAnns, validateImportUsesAnn_eq]
      exact outcome_bind _ _ _ _ _ bindingsIH

theorem validateMember_eq (scope lost : Finset Symbol) (span : Span) (base : Var)
    (field : Symbol) :
    validateImportUsesExpr aliases shadowed (.project span (.var base) field) (scope \ lost) =
      outcome (siteError aliases shadowed ⟨.member span base field, scope, lost⟩)
        (scope \ lost) := by
  simp only [validateImportUsesExpr, selectsVariant, missingMember, siteError, unresolved, Use.name,
    aliasIsVisible, Bool.false_eq_true, if_false]
  by_cases bound : base.name ∈ scope \ lost
  · simp only [bound, not_true, false_and, if_false, if_true]
    rfl
  · by_cases isHidden : isShadowed shadowed base.name
    · simp [bound, isHidden, outcome]
    · cases aliases.lookup base.name with
      | none => simp [bound, isHidden, outcome]
      | some exported => cases hValue : exported.value field <;>
          simp [bound, isHidden, outcome, hValue]

theorem validateVariant_eq (scope lost : Finset Symbol) (span innerSpan : Span) (base : Var)
    (typeName field : Symbol) :
    validateImportUsesExpr aliases shadowed
        (.project span (.project innerSpan (.var base) typeName) field) (scope \ lost) =
      outcome (siteError aliases shadowed
        ⟨.variant span innerSpan base typeName field, scope, lost⟩) (scope \ lost) := by
  rw [validateImportUsesExpr, validateMember_eq]
  simp only [selectsVariant, missingMember, siteError, unresolved, Use.name, aliasIsVisible]
  by_cases bound : base.name ∈ scope \ lost
  · simp [bound, outcome]
  · by_cases isHidden : isShadowed shadowed base.name
    · simp [bound, isHidden, outcome]
    · rcases Option.eq_none_or_eq_some (aliases.lookup base.name) with hAlias | ⟨exported, hAlias⟩
      · simp [bound, isHidden, outcome, hAlias]
      · cases hType : exported.typ typeName <;> cases hValue : exported.value typeName <;>
          simp [bound, isHidden, outcome, hAlias, hType, hValue]

mutual

/-- Validation ends with the error of the first site that has one. -/
theorem validateImportUsesExpr_eq (expr : Expr) (scope lost : Finset Symbol) :
    validateImportUsesExpr aliases shadowed expr (scope \ lost) =
      outcome ((sites true scope lost expr).findSome? (siteError aliases shadowed))
        (scope \ (lost ∪ rebound expr)) := by
  cases expr with
  | bool | uint | int | float | char | string | uuid | dateTime | hole | var =>
      simp [validateImportUsesExpr, sites, rebound, outcome, siteError, unresolved]
  | tuple span elems | list span elems => exact validateImportUsesList_eq elems scope lost
  | dict span fields => exact validateImportUsesFields_eq fields scope lost
  | recordUpdate span base updates =>
      rw [validateImportUsesExpr, validateImportUsesExpr_eq base, sites, List.findSome?_append,
        rebound, ← Finset.union_assoc]
      exact outcome_bind _ _ _ _ _ (validateImportUsesFields_eq updates scope _)
  | app span func arg =>
      rw [validateImportUsesExpr, validateImportUsesExpr_eq func, sites, List.findSome?_append,
        rebound, ← Finset.union_assoc]
      exact outcome_bind _ _ _ _ _ (validateImportUsesExpr_eq arg scope _)
  | project span base field =>
      cases hUse : projectUse span base field with
      | some use =>
          have noneRebound := rebound_of_projectUse hUse
          simp only [sites, hUse, rebound, noneRebound, Finset.union_empty,
            List.findSome?_singleton]
          unfold projectUse at hUse
          split at hUse
          · cases hUse
            exact validateMember_eq aliases shadowed scope lost span _ field
          · cases hUse
            exact validateVariant_eq aliases shadowed scope lost span _ _ _ field
          · cases hUse
      | none =>
          have notVariant : selectsVariant aliases shadowed (scope \ lost) base = false := by
            unfold projectUse at hUse
            unfold selectsVariant
            split at hUse <;> simp_all
          have notMember :
              missingMember aliases shadowed (scope \ lost) span base field = none := by
            unfold projectUse at hUse
            unfold missingMember
            split at hUse <;> simp_all
          simp only [validateImportUsesExpr, notVariant, notMember, Bool.false_eq_true, if_false,
            sites, hUse, rebound]
          exact validateImportUsesExpr_eq base scope lost
  | lam span captured param ann constraints body =>
      rw [validateImportUsesExpr, sites, sitesOf_append, List.findSome?_append,
        List.findSome?_append, Option.or_assoc, validateImportUsesAnn_eq]
      apply outcome_bind
      rw [validateConstraints_eq]
      apply outcome_bind
      rw [insert_lost, validateImportUsesExpr_eq body]
      apply outcome_map
      rw [rebound, erase_lost, insert_erase_union, Finset.union_insert]
  | letIn span binder typeParams ann defn body =>
      rw [validateImportUsesExpr, sites, if_pos rfl, if_pos rfl, List.append_nil,
        List.findSome?_append, List.findSome?_append, Option.or_assoc, validateImportUsesAnn_eq]
      apply outcome_bind
      rw [validateImportUsesExpr_eq defn]
      apply outcome_bind
      rw [insert_lost, validateImportUsesExpr_eq body]
      apply outcome_map
      rw [rebound, erase_lost, insert_erase_union, Finset.union_insert, Finset.union_assoc]
  | letRec span bindings body =>
      rw [validateImportUsesExpr, sites, List.findSome?_append, List.findSome?_append,
        Option.or_assoc, validateImportUsesAnns_eq]
      apply outcome_bind
      rw [union_lost, validateImportUsesBindings_eq bindings]
      apply outcome_bind
      rw [validateImportUsesExpr_eq body]
      apply outcome_map
      rw [← sdiff_lost, ← sdiff_lost, ← union_lost, sdiff_lost _ (reboundBindings bindings),
        leave_lost, rebound, Finset.union_assoc]
  | ite span cond thenExpr elseExpr =>
      rw [validateImportUsesExpr, validateImportUsesExpr_eq cond, sites, List.findSome?_append,
        List.findSome?_append, rebound, ← Finset.union_assoc, ← Finset.union_assoc,
        Option.or_assoc]
      apply outcome_bind
      rw [validateImportUsesExpr_eq thenExpr]
      exact outcome_bind _ _ _ _ _ (validateImportUsesExpr_eq elseExpr scope _)
  | matchWith span scrutinee arms =>
      rw [validateImportUsesExpr, validateImportUsesExpr_eq scrutinee, sites,
        List.findSome?_append, rebound, ← Finset.union_assoc]
      exact outcome_bind _ _ _ _ _ (validateImportUsesArms_eq arms scope _)
  | ann span expr typ =>
      rw [validateImportUsesExpr, validateImportUsesExpr_eq expr, sites, List.findSome?_append,
        rebound]
      apply outcome_bind
      rw [validateImportUsesTypeExpr_eq]
      exact outcome_map _ _ _ _ rfl

theorem validateImportUsesList_eq (exprs : List Expr) (scope lost : Finset Symbol) :
    validateImportUsesList aliases shadowed exprs (scope \ lost) =
      outcome ((sitesList true scope lost exprs).findSome? (siteError aliases shadowed))
        (scope \ (lost ∪ reboundList exprs)) := by
  cases exprs with
  | nil => simp [validateImportUsesList, sitesList, reboundList, outcome]
  | cons expr exprs =>
      rw [validateImportUsesList, validateImportUsesExpr_eq expr, sitesList,
        List.findSome?_append, reboundList, ← Finset.union_assoc]
      exact outcome_bind _ _ _ _ _ (validateImportUsesList_eq exprs scope _)

theorem validateImportUsesFields_eq (fields : List (Symbol × Expr)) (scope lost : Finset Symbol) :
    validateImportUsesFields aliases shadowed fields (scope \ lost) =
      outcome ((sitesFields true scope lost fields).findSome? (siteError aliases shadowed))
        (scope \ (lost ∪ reboundFields fields)) := by
  cases fields with
  | nil => simp [validateImportUsesFields, sitesFields, reboundFields, outcome]
  | cons field fields =>
      obtain ⟨name, expr⟩ := field
      rw [validateImportUsesFields, validateImportUsesExpr_eq expr, sitesFields,
        List.findSome?_append, reboundFields, ← Finset.union_assoc]
      exact outcome_bind _ _ _ _ _ (validateImportUsesFields_eq fields scope _)

theorem validateImportUsesBindings_eq (bindings : List LetRecBinding)
    (scope lost : Finset Symbol) :
    validateImportUsesBindings aliases shadowed bindings (scope \ lost) =
      outcome ((sitesBindings true scope lost bindings).findSome? (siteError aliases shadowed))
        (scope \ (lost ∪ reboundBindings bindings)) := by
  cases bindings with
  | nil => simp [validateImportUsesBindings, sitesBindings, reboundBindings, outcome]
  | cons binding bindings =>
      obtain ⟨binder, typeParams, ann, defn⟩ := binding
      rw [validateImportUsesBindings, validateImportUsesExpr_eq defn, sitesBindings,
        List.findSome?_append, reboundBindings, ← Finset.union_assoc]
      exact outcome_bind _ _ _ _ _ (validateImportUsesBindings_eq bindings scope _)

theorem validateImportUsesArms_eq (arms : List (Pattern × Expr)) (scope lost : Finset Symbol) :
    validateImportUsesArms aliases shadowed arms (scope \ lost) =
      outcome ((sitesArms true scope lost arms).findSome? (siteError aliases shadowed))
        (scope \ (lost ∪ reboundArms arms)) := by
  cases arms with
  | nil => simp [validateImportUsesArms, sitesArms, reboundArms, outcome]
  | cons arm arms =>
      obtain ⟨pattern, expr⟩ := arm
      rw [validateImportUsesArms, union_lost, validateImportUsesExpr_eq expr, sitesArms,
        List.findSome?_append, reboundArms]
      apply outcome_bind
      rw [← sdiff_lost, ← union_lost, leave_lost, validateImportUsesArms_eq arms]
      simp only [Finset.union_assoc]

end

end Validate

end RexLang
