import Mathlib.Data.Finset.Basic
import Mathlib.Data.Finset.Lattice.Lemmas
import Mathlib.Data.Finset.SDiff
import RexLang.Ast

/-!
# Rewriting names with one mutable set of bound names

The passes over modules walk an expression with one mutable set of bound names.
A binder inserts its names before its scope and removes them after it.  A name
that was already bound outside is removed as well, so the rest of the outer
scope is walked as if the outer binder were not there.  This file compares such
a walk with the walk that passes every subexpression the names of its lexical
scope.
-/

namespace RexLang

/-- `collect_pattern_bindings`. -/
def collectPatternBindings : Pattern → List Symbol
  | .wildcard _ => []
  | .var binder => [binder.name]
  | .named _ _ args => collectPatternListBindings args
  | .tuple _ elems => collectPatternListBindings elems
  | .list _ elems => collectPatternListBindings elems
  | .cons _ head tail => collectPatternBindings head ++ collectPatternBindings tail
  | .dict _ fields => collectPatternFieldBindings fields
where
  collectPatternListBindings : List Pattern → List Symbol
    | [] => []
    | pattern :: patterns =>
        collectPatternBindings pattern ++ collectPatternListBindings patterns
  collectPatternFieldBindings : List (Symbol × Pattern) → List Symbol
    | [] => []
    | (_, pattern) :: fields =>
        collectPatternBindings pattern ++ collectPatternFieldBindings fields

/-- The names of a `let rec` group. -/
def bindingNames (bindings : List LetRecBinding) : Finset Symbol :=
  (bindings.map fun binding => binding.1.name).toFinset

def patternNames (pattern : Pattern) : Finset Symbol :=
  (collectPatternBindings pattern).toFinset

/-! ## Rewriting walks -/

/-- What a pass does where it meets a name.  The set holds the names that the
pass takes for bound. -/
structure RewriteRules where
  var : Finset Symbol → Var → Expr
  member : Finset Symbol → Span → Var → Symbol → Option Expr
  variant : Finset Symbol → Span → Var → Symbol → Symbol → Option Expr
  typ : Finset Symbol → TypeExpr → TypeExpr
  constraint : Finset Symbol → TypeConstraint → TypeConstraint
  pattern : Pattern → Pattern

namespace RewriteRules

/-- Projections that are rewritten as a whole. -/
def project (rules : RewriteRules) (bound : Finset Symbol) (span : Span) (base : Expr)
    (field : Symbol) : Option Expr :=
  match base with
  | .var name => rules.member bound span name field
  | .project _ (.var aliasVar) typeName => rules.variant bound span aliasVar typeName field
  | _ => none

mutual

/-- The walk of the source: the result, and the bound names it leaves. -/
def rewrite (rules : RewriteRules) : Expr → Finset Symbol → Expr × Finset Symbol
  | .bool span value, bound => (.bool span value, bound)
  | .uint span value, bound => (.uint span value, bound)
  | .int span value, bound => (.int span value, bound)
  | .float span value, bound => (.float span value, bound)
  | .char span value, bound => (.char span value, bound)
  | .string span value, bound => (.string span value, bound)
  | .uuid span value, bound => (.uuid span value, bound)
  | .dateTime span nanos, bound => (.dateTime span nanos, bound)
  | .hole span, bound => (.hole span, bound)
  | .tuple span elems, bound =>
      let elems := rules.rewriteList elems bound
      (.tuple span elems.1, elems.2)
  | .list span elems, bound =>
      let elems := rules.rewriteList elems bound
      (.list span elems.1, elems.2)
  | .dict span fields, bound =>
      let fields := rules.rewriteFields fields bound
      (.dict span fields.1, fields.2)
  | .recordUpdate span base updates, bound =>
      let base := rules.rewrite base bound
      let updates := rules.rewriteFields updates base.2
      (.recordUpdate span base.1 updates.1, updates.2)
  | .var name, bound => (rules.var bound name, bound)
  | .app span func arg, bound =>
      let func := rules.rewrite func bound
      let arg := rules.rewrite arg func.2
      (.app span func.1 arg.1, arg.2)
  | .project span base field, bound =>
      match rules.project bound span base field with
      | some expr => (expr, bound)
      | none =>
          let base := rules.rewrite base bound
          (.project span base.1 field, base.2)
  | .lam span scope param ann constraints body, bound =>
      let body := rules.rewrite body (insert param.name bound)
      (.lam span scope param (ann.map (rules.typ bound)) (constraints.map (rules.constraint bound))
        body.1, body.2.erase param.name)
  | .letIn span binder typeParams ann defn body, bound =>
      let defn := rules.rewrite defn bound
      let body := rules.rewrite body (insert binder.name defn.2)
      let bound := body.2.erase binder.name
      (.letIn span binder typeParams (ann.map (rules.typ bound)) defn.1 body.1, bound)
  | .letRec span bindings body, bound =>
      let names := bindingNames bindings
      let bindings := rules.rewriteBindings bindings bound (bound ∪ names)
      let body := rules.rewrite body bindings.2
      (.letRec span bindings.1 body.1, body.2 \ names)
  | .ite span cond thenExpr elseExpr, bound =>
      let cond := rules.rewrite cond bound
      let thenExpr := rules.rewrite thenExpr cond.2
      let elseExpr := rules.rewrite elseExpr thenExpr.2
      (.ite span cond.1 thenExpr.1 elseExpr.1, elseExpr.2)
  | .matchWith span scrutinee arms, bound =>
      let scrutinee := rules.rewrite scrutinee bound
      let arms := rules.rewriteArms arms scrutinee.2
      (.matchWith span scrutinee.1 arms.1, arms.2)
  | .ann span expr typ, bound =>
      let expr := rules.rewrite expr bound
      (.ann span expr.1 (rules.typ expr.2 typ), expr.2)

def rewriteList (rules : RewriteRules) : List Expr → Finset Symbol → List Expr × Finset Symbol
  | [], bound => ([], bound)
  | expr :: exprs, bound =>
      let expr := rules.rewrite expr bound
      let exprs := rules.rewriteList exprs expr.2
      (expr.1 :: exprs.1, exprs.2)

def rewriteFields (rules : RewriteRules) :
    List (Symbol × Expr) → Finset Symbol → List (Symbol × Expr) × Finset Symbol
  | [], bound => ([], bound)
  | (name, expr) :: fields, bound =>
      let expr := rules.rewrite expr bound
      let fields := rules.rewriteFields fields expr.2
      ((name, expr.1) :: fields.1, fields.2)

/-- The bindings of a group.  Annotations are rewritten before the names of the
group are bound. -/
def rewriteBindings (rules : RewriteRules) :
    List LetRecBinding → Finset Symbol → Finset Symbol → List LetRecBinding × Finset Symbol
  | [], _, bound => ([], bound)
  | (binder, typeParams, ann, defn) :: bindings, outer, bound =>
      let defn := rules.rewrite defn bound
      let bindings := rules.rewriteBindings bindings outer defn.2
      ((binder, typeParams, ann.map (rules.typ outer), defn.1) :: bindings.1, bindings.2)

def rewriteArms (rules : RewriteRules) :
    List (Pattern × Expr) → Finset Symbol → List (Pattern × Expr) × Finset Symbol
  | [], bound => ([], bound)
  | (pattern, expr) :: arms, bound =>
      let names := patternNames (rules.pattern pattern)
      let expr := rules.rewrite expr (bound ∪ names)
      let arms := rules.rewriteArms arms (expr.2 \ names)
      ((rules.pattern pattern, expr.1) :: arms.1, arms.2)

end

mutual

/-- The walk that passes every subexpression the names in scope there. -/
def rewriteScoped (rules : RewriteRules) (scope : Finset Symbol) : Expr → Expr
  | .bool span value => .bool span value
  | .uint span value => .uint span value
  | .int span value => .int span value
  | .float span value => .float span value
  | .char span value => .char span value
  | .string span value => .string span value
  | .uuid span value => .uuid span value
  | .dateTime span nanos => .dateTime span nanos
  | .hole span => .hole span
  | .tuple span elems => .tuple span (rules.rewriteScopedList scope elems)
  | .list span elems => .list span (rules.rewriteScopedList scope elems)
  | .dict span fields => .dict span (rules.rewriteScopedFields scope fields)
  | .recordUpdate span base updates =>
      .recordUpdate span (rules.rewriteScoped scope base) (rules.rewriteScopedFields scope updates)
  | .var name => rules.var scope name
  | .app span func arg => .app span (rules.rewriteScoped scope func) (rules.rewriteScoped scope arg)
  | .project span base field =>
      match rules.project scope span base field with
      | some expr => expr
      | none => .project span (rules.rewriteScoped scope base) field
  | .lam span captured param ann constraints body =>
      .lam span captured param (ann.map (rules.typ scope)) (constraints.map (rules.constraint scope))
        (rules.rewriteScoped (insert param.name scope) body)
  | .letIn span binder typeParams ann defn body =>
      .letIn span binder typeParams (ann.map (rules.typ scope)) (rules.rewriteScoped scope defn)
        (rules.rewriteScoped (insert binder.name scope) body)
  | .letRec span bindings body =>
      .letRec span (rules.rewriteScopedBindings scope (scope ∪ bindingNames bindings) bindings)
        (rules.rewriteScoped (scope ∪ bindingNames bindings) body)
  | .ite span cond thenExpr elseExpr =>
      .ite span (rules.rewriteScoped scope cond) (rules.rewriteScoped scope thenExpr)
        (rules.rewriteScoped scope elseExpr)
  | .matchWith span scrutinee arms =>
      .matchWith span (rules.rewriteScoped scope scrutinee) (rules.rewriteScopedArms scope arms)
  | .ann span expr typ => .ann span (rules.rewriteScoped scope expr) (rules.typ scope typ)

def rewriteScopedList (rules : RewriteRules) (scope : Finset Symbol) : List Expr → List Expr
  | [] => []
  | expr :: exprs => rules.rewriteScoped scope expr :: rules.rewriteScopedList scope exprs

def rewriteScopedFields (rules : RewriteRules) (scope : Finset Symbol) :
    List (Symbol × Expr) → List (Symbol × Expr)
  | [] => []
  | (name, expr) :: fields =>
      (name, rules.rewriteScoped scope expr) :: rules.rewriteScopedFields scope fields

def rewriteScopedBindings (rules : RewriteRules) (outer scope : Finset Symbol) :
    List LetRecBinding → List LetRecBinding
  | [] => []
  | (binder, typeParams, ann, defn) :: bindings =>
      (binder, typeParams, ann.map (rules.typ outer), rules.rewriteScoped scope defn) ::
        rules.rewriteScopedBindings outer scope bindings

def rewriteScopedArms (rules : RewriteRules) (scope : Finset Symbol) :
    List (Pattern × Expr) → List (Pattern × Expr)
  | [] => []
  | (pattern, expr) :: arms =>
      (rules.pattern pattern, rules.rewriteScoped (scope ∪ patternNames pattern) expr) ::
        rules.rewriteScopedArms scope arms

end

end RewriteRules

/-! ## Where names are used -/

/-- A place where a name is used that a module may define or import. -/
inductive Use where
  | var (name : Var)
  | member (span : Span) (base : Var) (field : Symbol)
  | variant (span innerSpan : Span) (base : Var) (typeName field : Symbol)
  | typeMember (span : Span) (base member : Symbol)
  | classMember (span : Span) (base member : Symbol)

/-- The name whose scope decides about the use. -/
def Use.name : Use → Symbol
  | .var name => name.name
  | .member _ base _ => base.name
  | .variant _ _ base _ _ => base.name
  | .typeMember _ base _ => base
  | .classMember _ base _ => base

/-- A use with the names in scope there, and those of them that the mutable set
has lost before the walk gets there. -/
structure Site where
  use : Use
  scope : Finset Symbol
  lost : Finset Symbol

/-- A local name is used that the mutable set no longer contains. -/
def Site.Forgotten (site : Site) : Prop :=
  site.use.name ∈ site.scope ∧ site.use.name ∈ site.lost

instance (site : Site) : Decidable site.Forgotten := by
  unfold Site.Forgotten
  infer_instance

/-- `qualified_alias_member`. -/
def qualifiedAliasMember : NameRef → Option (Symbol × Symbol)
  | .qualified _ [base, member] => some (base, member)
  | _ => none

mutual

/-- The qualified names of a type, in the order of the walk. -/
def typeUses : TypeExpr → List Use
  | .name span name =>
      (qualifiedAliasMember name).toList.map fun (base, member) => .typeMember span base member
  | .app _ func arg => typeUses func ++ typeUses arg
  | .func _ arg ret => typeUses arg ++ typeUses ret
  | .tuple _ elems => typeListUses elems
  | .record _ fields => typeFieldUses fields

def typeListUses : List TypeExpr → List Use
  | [] => []
  | typ :: types => typeUses typ ++ typeListUses types

def typeFieldUses : List (Symbol × TypeExpr × Option String) → List Use
  | [] => []
  | (_, typ, _) :: fields => typeUses typ ++ typeFieldUses fields

end

mutual

theorem eq_typeMember_of_mem_typeUses (typ : TypeExpr) {use : Use} (member : use ∈ typeUses typ) :
    ∃ span base name, use = .typeMember span base name := by
  cases typ with
  | name span name =>
      obtain ⟨⟨base, name⟩, -, rfl⟩ := List.mem_map.mp member
      exact ⟨span, base, name, rfl⟩
  | app span first second | func span first second =>
      rcases List.mem_append.mp member with member | member
      · exact eq_typeMember_of_mem_typeUses first member
      · exact eq_typeMember_of_mem_typeUses second member
  | tuple span elems => exact eq_typeMember_of_mem_typeListUses elems member
  | record span fields => exact eq_typeMember_of_mem_typeFieldUses fields member

theorem eq_typeMember_of_mem_typeListUses (types : List TypeExpr) {use : Use}
    (member : use ∈ typeListUses types) : ∃ span base name, use = .typeMember span base name := by
  cases types with
  | nil => simp [typeListUses] at member
  | cons typ types =>
      rcases List.mem_append.mp member with member | member
      · exact eq_typeMember_of_mem_typeUses typ member
      · exact eq_typeMember_of_mem_typeListUses types member

theorem eq_typeMember_of_mem_typeFieldUses (fields : List (Symbol × TypeExpr × Option String))
    {use : Use} (member : use ∈ typeFieldUses fields) :
    ∃ span base name, use = .typeMember span base name := by
  cases fields with
  | nil => simp [typeFieldUses] at member
  | cons field fields =>
      obtain ⟨name, typ, docs⟩ := field
      rcases List.mem_append.mp member with member | member
      · exact eq_typeMember_of_mem_typeUses typ member
      · exact eq_typeMember_of_mem_typeFieldUses fields member

end

def constraintUses (constraint : TypeConstraint) : List Use :=
  ((qualifiedAliasMember constraint.className).toList.map fun (base, member) =>
      .classMember constraint.typ.span base member) ++
    typeUses constraint.typ

def annotationUses (ann : Option TypeExpr) : List Use :=
  ann.toList.flatMap typeUses

/-- The use that a projection is as a whole. -/
def projectUse (span : Span) (base : Expr) (field : Symbol) : Option Use :=
  match base with
  | .var name => some (.member span name field)
  | .project innerSpan (.var base) typeName => some (.variant span innerSpan base typeName field)
  | _ => none

/-- Uses at one place. -/
def sitesOf (scope lost : Finset Symbol) (uses : List Use) : List Site :=
  uses.map (⟨·, scope, lost⟩)

theorem sitesOf_append (scope lost : Finset Symbol) (first second : List Use) :
    sitesOf scope lost (first ++ second) =
      sitesOf scope lost first ++ sitesOf scope lost second :=
  List.map_append

mutual

/-- The names that the walk removes on its way through an expression. -/
def rebound : Expr → Finset Symbol
  | .tuple _ elems | .list _ elems => reboundList elems
  | .dict _ fields => reboundFields fields
  | .recordUpdate _ base updates => rebound base ∪ reboundFields updates
  | .app _ func arg => rebound func ∪ rebound arg
  | .project _ base _ => rebound base
  | .lam _ _ param _ _ body => insert param.name (rebound body)
  | .letIn _ binder _ _ defn body => insert binder.name (rebound defn ∪ rebound body)
  | .letRec _ bindings body =>
      bindingNames bindings ∪ (reboundBindings bindings ∪ rebound body)
  | .ite _ cond thenExpr elseExpr => rebound cond ∪ rebound thenExpr ∪ rebound elseExpr
  | .matchWith _ scrutinee arms => rebound scrutinee ∪ reboundArms arms
  | .ann _ expr _ => rebound expr
  | _ => ∅

def reboundList : List Expr → Finset Symbol
  | [] => ∅
  | expr :: exprs => rebound expr ∪ reboundList exprs

def reboundFields : List (Symbol × Expr) → Finset Symbol
  | [] => ∅
  | (_, expr) :: fields => rebound expr ∪ reboundFields fields

def reboundBindings : List LetRecBinding → Finset Symbol
  | [] => ∅
  | (_, _, _, defn) :: bindings => rebound defn ∪ reboundBindings bindings

def reboundArms : List (Pattern × Expr) → Finset Symbol
  | [] => ∅
  | (pattern, expr) :: arms => patternNames pattern ∪ rebound expr ∪ reboundArms arms

end

mutual

/-- The uses of an expression in the order of the walk.  The annotation of a
`let` is walked before its definition or after its body. -/
def sites (annotationFirst : Bool) (scope lost : Finset Symbol) : Expr → List Site
  | .tuple _ elems | .list _ elems => sitesList annotationFirst scope lost elems
  | .dict _ fields => sitesFields annotationFirst scope lost fields
  | .recordUpdate _ base updates =>
      sites annotationFirst scope lost base ++
        sitesFields annotationFirst scope (lost ∪ rebound base) updates
  | .var name => [⟨.var name, scope, lost⟩]
  | .app _ func arg =>
      sites annotationFirst scope lost func ++
        sites annotationFirst scope (lost ∪ rebound func) arg
  | .project span base field =>
      match projectUse span base field with
      | some use => [⟨use, scope, lost⟩]
      | none => sites annotationFirst scope lost base
  | .lam _ _ param ann constraints body =>
      sitesOf scope lost (annotationUses ann ++ constraints.flatMap constraintUses) ++
        sites annotationFirst (insert param.name scope) (lost.erase param.name) body
  | .letIn _ binder _ ann defn body =>
      let lostAfter := insert binder.name (lost ∪ rebound defn ∪ rebound body)
      (if annotationFirst then sitesOf scope lost (annotationUses ann) else []) ++
        sites annotationFirst scope lost defn ++
        sites annotationFirst (insert binder.name scope)
          ((lost ∪ rebound defn).erase binder.name) body ++
        (if annotationFirst then [] else sitesOf scope lostAfter (annotationUses ann))
  | .letRec _ bindings body =>
      let names := bindingNames bindings
      sitesOf scope lost (bindings.flatMap fun binding => annotationUses binding.2.2.1) ++
        sitesBindings annotationFirst (scope ∪ names) (lost \ names) bindings ++
        sites annotationFirst (scope ∪ names) (lost \ names ∪ reboundBindings bindings) body
  | .ite _ cond thenExpr elseExpr =>
      sites annotationFirst scope lost cond ++
        sites annotationFirst scope (lost ∪ rebound cond) thenExpr ++
        sites annotationFirst scope (lost ∪ rebound cond ∪ rebound thenExpr) elseExpr
  | .matchWith _ scrutinee arms =>
      sites annotationFirst scope lost scrutinee ++
        sitesArms annotationFirst scope (lost ∪ rebound scrutinee) arms
  | .ann _ expr typ =>
      sites annotationFirst scope lost expr ++
        sitesOf scope (lost ∪ rebound expr) (typeUses typ)
  | _ => []

def sitesList (annotationFirst : Bool) (scope lost : Finset Symbol) : List Expr → List Site
  | [] => []
  | expr :: exprs =>
      sites annotationFirst scope lost expr ++
        sitesList annotationFirst scope (lost ∪ rebound expr) exprs

def sitesFields (annotationFirst : Bool) (scope lost : Finset Symbol) :
    List (Symbol × Expr) → List Site
  | [] => []
  | (_, expr) :: fields =>
      sites annotationFirst scope lost expr ++
        sitesFields annotationFirst scope (lost ∪ rebound expr) fields

def sitesBindings (annotationFirst : Bool) (scope lost : Finset Symbol) :
    List LetRecBinding → List Site
  | [] => []
  | (_, _, _, defn) :: bindings =>
      sites annotationFirst scope lost defn ++
        sitesBindings annotationFirst scope (lost ∪ rebound defn) bindings

def sitesArms (annotationFirst : Bool) (scope lost : Finset Symbol) :
    List (Pattern × Expr) → List Site
  | [] => []
  | (pattern, expr) :: arms =>
      let names := patternNames pattern
      sites annotationFirst (scope ∪ names) (lost \ names) expr ++
        sitesArms annotationFirst scope (lost ∪ names ∪ rebound expr) arms

end

/-! ## The names that are lost -/

section Sets

variable (scope lost rebound names : Finset Symbol) (name : Symbol)

theorem sdiff_lost : (scope \ lost) \ rebound = scope \ (lost ∪ rebound) := by
  ext symbol
  simp only [Finset.mem_sdiff, Finset.mem_union]
  tauto

theorem insert_lost : insert name (scope \ lost) = insert name scope \ lost.erase name := by
  ext symbol
  simp only [Finset.mem_sdiff, Finset.mem_insert, Finset.mem_erase]
  tauto

theorem union_lost : scope \ lost ∪ names = (scope ∪ names) \ (lost \ names) := by
  ext symbol
  simp only [Finset.mem_sdiff, Finset.mem_union]
  tauto

theorem erase_lost : (insert name scope \ lost).erase name = scope \ insert name lost := by
  ext symbol
  simp only [Finset.mem_sdiff, Finset.mem_insert, Finset.mem_erase]
  tauto

theorem remove_lost : ((scope ∪ names) \ lost) \ names = scope \ (names ∪ lost) := by
  ext symbol
  simp only [Finset.mem_sdiff, Finset.mem_union]
  tauto

theorem insert_erase_union : insert name (lost.erase name ∪ rebound) = insert name (lost ∪ rebound) := by
  ext symbol
  simp only [Finset.mem_union, Finset.mem_insert, Finset.mem_erase]
  tauto

theorem leave_lost : ((scope \ lost ∪ names) \ rebound) \ names =
    scope \ (lost ∪ names ∪ rebound) := by
  ext symbol
  simp only [Finset.mem_union, Finset.mem_sdiff]
  tauto

end Sets

theorem rebound_of_projectUse {span : Span} {base : Expr} {field : Symbol} {use : Use}
    (whole : projectUse span base field = some use) : rebound base = ∅ := by
  unfold projectUse at whole
  split at whole
  · rfl
  · rfl
  · cases whole

namespace RewriteRules

theorem project_eq_none {span : Span} {base : Expr} {field : Symbol}
    (parts : projectUse span base field = none) (rules : RewriteRules) (bound : Finset Symbol) :
    rules.project bound span base field = none := by
  unfold projectUse at parts
  unfold project
  split at parts <;> simp_all

section Bound

variable {rules : RewriteRules}
  (sameNames : ∀ pattern, patternNames (rules.pattern pattern) = patternNames pattern)

include sameNames

set_option linter.unusedSectionVars false in
mutual

/-- Every name that is bound inside an expression is gone after it. -/
theorem rewrite_bound (expr : Expr) (bound : Finset Symbol) :
    (rules.rewrite expr bound).2 = bound \ rebound expr := by
  cases expr with
  | bool | uint | int | float | char | string | uuid | dateTime | hole | var =>
      simp [rewrite, rebound]
  | tuple span elems | list span elems => simp [rewrite, rebound, rewriteList_bound elems]
  | dict span fields => simp [rewrite, rebound, rewriteFields_bound fields]
  | recordUpdate span base updates =>
      simp only [rewrite, rebound, rewrite_bound base, rewriteFields_bound updates, sdiff_lost]
  | app span func arg =>
      simp only [rewrite, rebound, rewrite_bound func, rewrite_bound arg, sdiff_lost]
  | project span base field =>
      cases hUse : projectUse span base field with
      | none =>
          simp only [rewrite, rebound, project_eq_none hUse, rewrite_bound base]
      | some use =>
          have baseBound := rewrite_bound base bound
          simp only [rewrite, rebound, rebound_of_projectUse hUse] at baseBound ⊢
          cases rules.project bound span base field with
          | none => simp [baseBound]
          | some expr => simp
  | lam span scope param ann constraints body =>
      simp only [rewrite, rebound, rewrite_bound body]
      exact erase_lost bound (rebound body) param.name
  | letIn span binder typeParams ann defn body =>
      simp only [rewrite, rebound, rewrite_bound defn, rewrite_bound body]
      rw [erase_lost, sdiff_lost, Finset.union_insert]
  | letRec span bindings body =>
      simp only [rewrite, rebound, rewriteBindings_bound bindings, rewrite_bound body]
      rw [sdiff_lost (bound ∪ bindingNames bindings), remove_lost]
  | ite span cond thenExpr elseExpr =>
      simp only [rewrite, rebound, rewrite_bound cond, rewrite_bound thenExpr,
        rewrite_bound elseExpr, sdiff_lost, Finset.union_assoc]
  | matchWith span scrutinee arms =>
      simp only [rewrite, rebound, rewrite_bound scrutinee, rewriteArms_bound arms, sdiff_lost]
  | ann span expr typ => simp only [rewrite, rebound, rewrite_bound expr]

theorem rewriteList_bound (exprs : List Expr) (bound : Finset Symbol) :
    (rules.rewriteList exprs bound).2 = bound \ reboundList exprs := by
  cases exprs with
  | nil => simp [rewriteList, reboundList]
  | cons expr exprs =>
      simp only [rewriteList, reboundList, rewrite_bound expr, rewriteList_bound exprs, sdiff_lost]

theorem rewriteFields_bound (fields : List (Symbol × Expr)) (bound : Finset Symbol) :
    (rules.rewriteFields fields bound).2 = bound \ reboundFields fields := by
  cases fields with
  | nil => simp [rewriteFields, reboundFields]
  | cons field fields =>
      obtain ⟨name, expr⟩ := field
      simp only [rewriteFields, reboundFields, rewrite_bound expr, rewriteFields_bound fields,
        sdiff_lost]

theorem rewriteBindings_bound (bindings : List LetRecBinding) (outer bound : Finset Symbol) :
    (rules.rewriteBindings bindings outer bound).2 = bound \ reboundBindings bindings := by
  cases bindings with
  | nil => simp [rewriteBindings, reboundBindings]
  | cons binding bindings =>
      obtain ⟨binder, typeParams, ann, defn⟩ := binding
      simp only [rewriteBindings, reboundBindings, rewrite_bound defn,
        rewriteBindings_bound bindings, sdiff_lost]

theorem rewriteArms_bound (arms : List (Pattern × Expr)) (bound : Finset Symbol) :
    (rules.rewriteArms arms bound).2 = bound \ reboundArms arms := by
  cases arms with
  | nil => simp [rewriteArms, reboundArms]
  | cons arm arms =>
      obtain ⟨pattern, expr⟩ := arm
      simp only [rewriteArms, reboundArms, sameNames, rewrite_bound expr, rewriteArms_bound arms]
      rw [remove_lost, sdiff_lost]

end

end Bound

/-! ## When the two walks agree -/

end RewriteRules

/-- At the site the mutable set still gives the answer of the lexical scope, as
far as a pass is concerned that changes the known uses. -/
def Site.Faithful (known : Use → Prop) (site : Site) : Prop :=
  site.Forgotten → ¬ known site.use

namespace RewriteRules

/-- The rules change exactly the known uses of names that are not bound, and
rename no binders. -/
structure Lawful (rules : RewriteRules) (known : Use → Prop) : Prop where
  patternNames_eq : ∀ pattern, patternNames (rules.pattern pattern) = patternNames pattern
  var_eq_iff : ∀ scope lost name, rules.var (scope \ lost) name = rules.var scope name ↔
    Site.Faithful known ⟨.var name, scope, lost⟩
  project_eq_iff : ∀ scope lost span base field use, projectUse span base field = some use →
    ((rules.rewrite (.project span base field) (scope \ lost)).1 =
        rules.rewriteScoped scope (.project span base field) ↔
      Site.Faithful known ⟨use, scope, lost⟩)
  typ_eq_iff : ∀ scope lost typ, rules.typ (scope \ lost) typ = rules.typ scope typ ↔
    ∀ site ∈ sitesOf scope lost (typeUses typ), site.Faithful known
  constraint_eq_iff : ∀ scope lost constraint,
    rules.constraint (scope \ lost) constraint = rules.constraint scope constraint ↔
      ∀ site ∈ sitesOf scope lost (constraintUses constraint), site.Faithful known

section Agreement

variable {rules : RewriteRules} {known : Use → Prop} (lawful : rules.Lawful known)

include lawful

theorem annotation_eq_iff (scope lost : Finset Symbol) (ann : Option TypeExpr) :
    ann.map (rules.typ (scope \ lost)) = ann.map (rules.typ scope) ↔
      ∀ site ∈ sitesOf scope lost (annotationUses ann), site.Faithful known := by
  cases ann with
  | none => simp [annotationUses, sitesOf]
  | some typ => simpa [annotationUses] using lawful.typ_eq_iff scope lost typ

theorem constraints_eq_iff (scope lost : Finset Symbol) (constraints : List TypeConstraint) :
    constraints.map (rules.constraint (scope \ lost)) = constraints.map (rules.constraint scope) ↔
      ∀ site ∈ sitesOf scope lost (constraints.flatMap constraintUses), site.Faithful known := by
  induction constraints with
  | nil => simp [sitesOf]
  | cons constraint constraints constraintsIH =>
      have headIff := lawful.constraint_eq_iff scope lost constraint
      simp only [sitesOf, List.map_cons, List.cons.injEq, List.flatMap_cons, List.map_append,
        List.forall_mem_append] at headIff constraintsIH ⊢
      rw [headIff, constraintsIH]

set_option linter.unusedSectionVars false in
mutual

/-- The walk of the source agrees with the lexically scoped walk exactly when no
forgotten name is used where the pass knows it. -/
theorem rewrite_eq_iff (expr : Expr) (scope lost : Finset Symbol) :
    (rules.rewrite expr (scope \ lost)).1 = rules.rewriteScoped scope expr ↔
      ∀ site ∈ sites false scope lost expr, site.Faithful known := by
  have bound := rewrite_bound lawful.patternNames_eq
  cases expr with
  | bool | uint | int | float | char | string | uuid | dateTime | hole =>
      simp [rewrite, rewriteScoped, sites]
  | var name => simpa [rewrite, rewriteScoped, sites] using lawful.var_eq_iff scope lost name
  | tuple span elems | list span elems =>
      simpa [rewrite, rewriteScoped, sites] using rewriteList_eq_iff elems scope lost
  | dict span fields =>
      simpa [rewrite, rewriteScoped, sites] using rewriteFields_eq_iff fields scope lost
  | recordUpdate span base updates =>
      simp only [rewrite, rewriteScoped, sites, bound, sdiff_lost, Expr.recordUpdate.injEq,
        true_and, List.forall_mem_append, rewrite_eq_iff base, rewriteFields_eq_iff updates]
  | app span func arg =>
      simp only [rewrite, rewriteScoped, sites, bound, sdiff_lost, Expr.app.injEq,
        true_and, List.forall_mem_append, rewrite_eq_iff func, rewrite_eq_iff arg]
  | project span base field =>
      cases hUse : projectUse span base field with
      | none =>
          simp only [rewrite, rewriteScoped, sites, project_eq_none hUse, hUse,
            Expr.project.injEq, true_and, and_true, rewrite_eq_iff base]
      | some use =>
          rw [lawful.project_eq_iff scope lost span base field use hUse]
          simp [sites, hUse]
  | lam span captured param ann constraints body =>
      simp only [rewrite, rewriteScoped, sites, insert_lost, Expr.lam.injEq, true_and,
        sitesOf_append, List.forall_mem_append, annotation_eq_iff lawful,
        constraints_eq_iff lawful, rewrite_eq_iff body, and_assoc]
  | letIn span binder typeParams ann defn body =>
      simp only [rewrite, rewriteScoped, sites, bound, sdiff_lost, insert_lost, erase_lost,
        insert_erase_union, Expr.letIn.injEq, true_and, Bool.false_eq_true, if_false,
        List.nil_append, List.forall_mem_append, annotation_eq_iff lawful, rewrite_eq_iff defn,
        rewrite_eq_iff body]
      exact and_comm
  | letRec span bindings body =>
      simp only [rewrite, rewriteScoped, sites, union_lost, rewriteBindings_bound
        lawful.patternNames_eq, sdiff_lost, Expr.letRec.injEq, true_and, List.forall_mem_append,
        rewriteBindings_eq_iff bindings, rewrite_eq_iff body]
  | ite span cond thenExpr elseExpr =>
      simp only [rewrite, rewriteScoped, sites, bound, sdiff_lost, Expr.ite.injEq, true_and,
        List.forall_mem_append, rewrite_eq_iff cond, rewrite_eq_iff thenExpr,
        rewrite_eq_iff elseExpr, and_assoc]
  | matchWith span scrutinee arms =>
      simp only [rewrite, rewriteScoped, sites, bound, sdiff_lost, Expr.matchWith.injEq, true_and,
        List.forall_mem_append, rewrite_eq_iff scrutinee, rewriteArms_eq_iff arms]
  | ann span expr typ =>
      simp only [rewrite, rewriteScoped, sites, bound, sdiff_lost, Expr.ann.injEq, true_and,
        List.forall_mem_append, rewrite_eq_iff expr, lawful.typ_eq_iff]

theorem rewriteList_eq_iff (exprs : List Expr) (scope lost : Finset Symbol) :
    (rules.rewriteList exprs (scope \ lost)).1 = rules.rewriteScopedList scope exprs ↔
      ∀ site ∈ sitesList false scope lost exprs, site.Faithful known := by
  cases exprs with
  | nil => simp [rewriteList, rewriteScopedList, sitesList]
  | cons expr exprs =>
      simp only [rewriteList, rewriteScopedList, sitesList, rewrite_bound lawful.patternNames_eq,
        sdiff_lost, List.cons.injEq, List.forall_mem_append, rewrite_eq_iff expr,
        rewriteList_eq_iff exprs]

theorem rewriteFields_eq_iff (fields : List (Symbol × Expr)) (scope lost : Finset Symbol) :
    (rules.rewriteFields fields (scope \ lost)).1 = rules.rewriteScopedFields scope fields ↔
      ∀ site ∈ sitesFields false scope lost fields, site.Faithful known := by
  cases fields with
  | nil => simp [rewriteFields, rewriteScopedFields, sitesFields]
  | cons field fields =>
      obtain ⟨name, expr⟩ := field
      simp only [rewriteFields, rewriteScopedFields, sitesFields,
        rewrite_bound lawful.patternNames_eq, sdiff_lost, List.cons.injEq, Prod.mk.injEq, true_and,
        List.forall_mem_append, rewrite_eq_iff expr, rewriteFields_eq_iff fields]

theorem rewriteBindings_eq_iff (bindings : List LetRecBinding)
    (outer outerLost scope lost : Finset Symbol) :
    (rules.rewriteBindings bindings (outer \ outerLost) (scope \ lost)).1 =
        rules.rewriteScopedBindings outer scope bindings ↔
      (∀ site ∈ sitesOf outer outerLost
        (bindings.flatMap fun binding => annotationUses binding.2.2.1), site.Faithful known) ∧
      ∀ site ∈ sitesBindings false scope lost bindings, site.Faithful known := by
  cases bindings with
  | nil => simp [rewriteBindings, rewriteScopedBindings, sitesBindings, sitesOf]
  | cons binding bindings =>
      obtain ⟨binder, typeParams, ann, defn⟩ := binding
      simp only [rewriteBindings, rewriteScopedBindings, sitesBindings,
        rewrite_bound lawful.patternNames_eq, sdiff_lost, List.cons.injEq, Prod.mk.injEq, true_and,
        List.flatMap_cons, sitesOf_append, List.forall_mem_append, annotation_eq_iff lawful,
        rewrite_eq_iff defn, rewriteBindings_eq_iff bindings]
      tauto

theorem rewriteArms_eq_iff (arms : List (Pattern × Expr)) (scope lost : Finset Symbol) :
    (rules.rewriteArms arms (scope \ lost)).1 = rules.rewriteScopedArms scope arms ↔
      ∀ site ∈ sitesArms false scope lost arms, site.Faithful known := by
  cases arms with
  | nil => simp [rewriteArms, rewriteScopedArms, sitesArms]
  | cons arm arms =>
      obtain ⟨pattern, expr⟩ := arm
      simp only [rewriteArms, rewriteScopedArms, sitesArms, lawful.patternNames_eq,
        rewrite_bound lawful.patternNames_eq, List.cons.injEq, Prod.mk.injEq, true_and,
        List.forall_mem_append]
      rw [leave_lost, union_lost, rewrite_eq_iff expr, rewriteArms_eq_iff arms]

end

end Agreement

end RewriteRules

end RexLang
