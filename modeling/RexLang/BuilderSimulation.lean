import RexLang.SyntaxTreeBuilder

/-!
# The builder up to spans

Every form of the builder sees the nested expressions only up to spans.  If a
second builder of nested expressions repeats the successes of the first up to
spans, so does each form that calls it.
-/

namespace RexLang

open Logged

/-! ## Children -/

theorem mem_childRules {node child : RexNode} {rule : RexRule} :
    child ∈ childRules node rule ↔ .node child ∈ node.children ∧ child.rule = rule := by
  rw [childRules, List.mem_filterMap]
  constructor
  · rintro ⟨other | token, member, found⟩
    · dsimp only at found
      split at found
      · next same =>
          cases found
          exact ⟨member, same⟩
      · cases found
    · cases found
  · rintro ⟨member, same⟩
    exact ⟨.node child, member, if_pos same⟩

theorem mem_childRules_of_firstRule {node child : RexNode} {rule : RexRule}
    (found : firstRule node rule = some child) : child ∈ childRules node rule :=
  List.mem_of_head? found

theorem firstRule_of_expectRule {node child : RexNode} {rule : RexRule}
    (found : expectRule node rule = .ok child) : firstRule node rule = some child := by
  rw [expectRule] at found
  split at found
  · next other present =>
      cases found
      exact present
  · cases found

/-! ## Expressions up to spans -/

attribute [local simp] Expr.resetSpans Var.resetSpans Expr.withSpan

@[simp]
theorem resetSpans_withSpan (expr : Expr) (span : Span) :
    (expr.withSpan span).resetSpans = expr.resetSpans := by
  cases expr <;> simp

@[simp]
theorem resetSpans_withSpanBegin (expr : Expr) (begin : Position) :
    (expr.withSpanBegin begin).resetSpans = expr.resetSpans :=
  resetSpans_withSpan expr _

theorem isDict_resetSpans (expr : Expr) : isDict expr.resetSpans = isDict expr := by
  cases expr <;> simp [isDict]

theorem isConstructorReference_resetSpans (expr : Expr) :
    isConstructorReference expr.resetSpans = isConstructorReference expr := by
  cases expr <;> simp [isConstructorReference]

/-- Applications of a term, with the spans left out. -/
def applySpine (func : Expr) (args : List Expr) : Expr :=
  args.foldl (.app .default) func

theorem resetSpans_foldl_app (span : Expr → Span) (func : Expr) (args : List Expr) :
    (args.foldl (fun func arg => .app (span arg) func arg) func).resetSpans =
      applySpine func.resetSpans (args.map Expr.resetSpans) := by
  induction args generalizing func with
  | nil => rfl
  | cons arg args hypothesis =>
      rw [List.foldl_cons, hypothesis, Expr.resetSpans]
      rfl

/-- A loop whose rounds keep the expressions the same up to spans. -/
theorem resetSpans_foldl_congr {Element : Type} {wrap : Expr → Element → Expr}
    (congr : ∀ first second element, second.resetSpans = first.resetSpans →
      (wrap second element).resetSpans = (wrap first element).resetSpans)
    (elements : List Element) {first second : Expr} (same : second.resetSpans = first.resetSpans) :
    (elements.foldl wrap second).resetSpans = (elements.foldl wrap first).resetSpans := by
  induction elements generalizing first second with
  | nil => exact same
  | cons element elements hypothesis => exact hypothesis (congr first second element same)

theorem applySpine_append (func : Expr) (front back : List Expr) :
    applySpine func (front ++ back) = applySpine (applySpine func front) back :=
  List.foldl_append

theorem map_resetSpans_groupConstructors {first second : List Expr}
    (same : second.map Expr.resetSpans = first.map Expr.resetSpans) :
    (groupConstructors second).map Expr.resetSpans =
      (groupConstructors first).map Expr.resetSpans := by
  induction first using groupConstructors.induct generalizing second with
  | case1 term fields rest grouped hypothesis =>
      obtain ⟨otherTerm, others, rfl, sameTerm, same⟩ := List.map_eq_cons_iff.mp same
      obtain ⟨otherFields, others, rfl, sameFields, same⟩ := List.map_eq_cons_iff.mp same
      have alike : (isConstructorReference otherTerm && isDict otherFields) = true := by
        rw [← isConstructorReference_resetSpans, ← isDict_resetSpans, sameTerm, sameFields,
          isConstructorReference_resetSpans, isDict_resetSpans]
        exact grouped
      rw [groupConstructors, groupConstructors, if_pos grouped, if_pos alike, List.map_cons,
        List.map_cons, hypothesis same, Expr.resetSpans, Expr.resetSpans, sameTerm, sameFields]
  | case2 term fields rest grouped hypothesis =>
      obtain ⟨otherTerm, others, rfl, sameTerm, same⟩ := List.map_eq_cons_iff.mp same
      obtain ⟨otherFields, others, rfl, sameFields, sameRest⟩ := List.map_eq_cons_iff.mp same
      have alike : ¬ (isConstructorReference otherTerm && isDict otherFields) = true := by
        rw [← isConstructorReference_resetSpans, ← isDict_resetSpans, sameTerm, sameFields,
          isConstructorReference_resetSpans, isDict_resetSpans]
        exact grouped
      rw [groupConstructors, groupConstructors, if_neg grouped, if_neg alike, List.map_cons,
        List.map_cons, hypothesis same, sameTerm]
  | case3 terms single =>
      obtain _ | ⟨term, _ | ⟨fields, rest⟩⟩ := terms
      · rw [List.map_eq_nil_iff.mp same]
      · obtain ⟨otherTerm, others, rfl, sameTerm, same⟩ := List.map_eq_cons_iff.mp same
        rw [List.map_eq_nil_iff.mp same, groupConstructors, groupConstructors]
        · simp [sameTerm]
        · intros; simp_all
        · intros; simp_all
      · exact absurd rfl (single term fields rest)

theorem resetSpans_makeBinaryExpr {first second otherFirst otherSecond : Expr}
    (operator : BinaryOperator) (sameFirst : otherFirst.resetSpans = first.resetSpans)
    (sameSecond : otherSecond.resetSpans = second.resetSpans) :
    (makeBinaryExpr otherFirst operator otherSecond).resetSpans =
      (makeBinaryExpr first operator second).resetSpans := by
  simp only [makeBinaryExpr, Expr.resetSpans, sameFirst, sameSecond]

/-- The operators with the operands up to spans. -/
def resetPart (part : BinaryOperator × Expr) : BinaryOperator × Expr :=
  (part.1, part.2.resetSpans)

theorem nextBinaryExprTakesPrecedence_congr (operator : BinaryOperator)
    {rest others : List (BinaryOperator × Expr)} (same : others.map resetPart = rest.map resetPart) :
    nextBinaryExprTakesPrecedence operator others =
      nextBinaryExprTakesPrecedence operator rest := by
  cases rest with
  | nil => rw [List.map_eq_nil_iff.mp same]
  | cons part rest =>
      obtain ⟨⟨otherNext, other⟩, others, rfl, samePart, sameRest⟩ :=
        List.map_eq_cons_iff.mp same
      obtain ⟨next, operand⟩ := part
      have sameNext : otherNext = next := congrArg Prod.fst samePart
      subst sameNext
      rfl

theorem resetSpans_climb {tree other : OperandTree} {parts others : List (BinaryOperator × Expr)}
    (sameTree : other.toExpr.resetSpans = tree.toExpr.resetSpans)
    (same : others.map resetPart = parts.map resetPart) :
    (climb other others).toExpr.resetSpans = (climb tree parts).toExpr.resetSpans := by
  induction parts generalizing tree other others with
  | nil =>
      rw [List.map_eq_nil_iff.mp same]
      exact sameTree
  | cons part rest hypothesis =>
      obtain ⟨⟨otherOperator, otherOperand⟩, others, rfl, samePart, sameRest⟩ :=
        List.map_eq_cons_iff.mp same
      obtain ⟨operator, operand⟩ := part
      have sameOperator : otherOperator = operator := congrArg Prod.fst samePart
      have sameOperand : otherOperand.resetSpans = operand.resetSpans := congrArg Prod.snd samePart
      subst sameOperator
      rw [climb, climb, nextBinaryExprTakesPrecedence_congr _ sameRest]
      split
      · exact resetSpans_makeBinaryExpr _ sameTree (hypothesis sameOperand sameRest)
      · exact hypothesis (resetSpans_makeBinaryExpr _ sameTree sameOperand) sameRest

theorem resetSpans_foldBinaryExpr {operands others : List Expr} {operators : List BinaryOperator}
    (same : others.map Expr.resetSpans = operands.map Expr.resetSpans) :
    (foldBinaryExpr others operators).map Expr.resetSpans =
      (foldBinaryExpr operands operators).map Expr.resetSpans := by
  cases operands with
  | nil => rw [List.map_eq_nil_iff.mp same]
  | cons lhs operands =>
      obtain ⟨otherLhs, others, rfl, sameLhs, same⟩ := List.map_eq_cons_iff.mp same
      have parts : ∀ operands : List Expr, (operators.zip operands).map resetPart =
          operators.zip (operands.map Expr.resetSpans) := by
        intro operands
        rw [List.zip_map_right]
        rfl
      have sameLeaf : (OperandTree.toExpr (.leaf otherLhs)).resetSpans =
          (OperandTree.toExpr (.leaf lhs)).resetSpans := sameLhs
      have climbs := resetSpans_climb sameLeaf ((parts others).trans (same ▸ (parts operands).symm))
      rw [← (foldBinaryFrom_eq_climb _ _).1, ← (foldBinaryFrom_eq_climb _ _).1] at climbs
      exact congrArg some climbs

/-- Fields up to spans. -/
def resetFields (fields : SymbolMap Expr) : SymbolMap Expr :=
  fields.map fun field => (field.1, field.2.resetSpans)

theorem resetFields_insert (key : Symbol) (value : Expr) (fields : SymbolMap Expr) :
    resetFields (fields.insert key value) = (resetFields fields).insert key value.resetSpans := by
  induction fields with
  | nil => rfl
  | cons field fields hypothesis =>
      obtain ⟨other, old⟩ := field
      change resetFields (SymbolMap.insert key value ((other, old) :: fields)) =
        SymbolMap.insert key value.resetSpans ((other, old.resetSpans) :: resetFields fields)
      rw [SymbolMap.insert, SymbolMap.insert]
      split
      · rfl
      · split
        · rfl
        · exact congrArg ((other, old.resetSpans) :: ·) hypothesis

theorem resetSpans_wrapLambdas (constraints : List TypeConstraint)
    (params : List (Span × Var × Option TypeExpr)) {body other : Expr}
    (same : other.resetSpans = body.resetSpans) :
    (wrapLambdas constraints params other).resetSpans =
      (wrapLambdas constraints params body).resetSpans := by
  induction params generalizing constraints with
  | nil => exact same
  | cons param params hypothesis =>
      obtain ⟨span, name, annotation⟩ := param
      simp only [wrapLambdas, Expr.resetSpans, hypothesis []]

/-- A declaration of a `let` with its definition up to spans. -/
def resetDecl (decl : Pattern × List Symbol × Option TypeExpr × Expr) :
    Pattern × List Symbol × Option TypeExpr × Expr :=
  (decl.1, decl.2.1, decl.2.2.1, decl.2.2.2.resetSpans)

theorem resetSpans_wrapLet {decl otherDecl : Pattern × List Symbol × Option TypeExpr × Expr}
    {body otherBody wrapped : Expr} (sameDecl : resetDecl otherDecl = resetDecl decl)
    (sameBody : otherBody.resetSpans = body.resetSpans) (succeeded : wrapLet decl body = .ok wrapped) :
    ∃ other, wrapLet otherDecl otherBody = .ok other ∧ other.resetSpans = wrapped.resetSpans := by
  obtain ⟨pattern, typeParams, annotation, defn⟩ := decl
  obtain ⟨otherPattern, otherParams, otherAnnotation, otherDefn⟩ := otherDecl
  simp only [resetDecl, Prod.mk.injEq] at sameDecl
  obtain ⟨rfl, rfl, rfl, sameDefn⟩ := sameDecl
  cases otherPattern with
  | var binder =>
      cases succeeded
      exact ⟨_, rfl, by simp only [Expr.resetSpans, sameDefn, sameBody]⟩
  | wildcard | named | tuple | list | cons | dict =>
      simp only [wrapLet] at succeeded ⊢
      split at succeeded
      · cases succeeded
      · next noParams =>
          cases succeeded
          rw [if_neg noParams]
          refine ⟨_, rfl, ?_⟩
          cases otherAnnotation <;>
            simp only [Expr.resetSpans, List.map_cons, List.map_nil, sameDefn, sameBody]

theorem resetSpans_foldrM_wrapLet
    {decls otherDecls : List (Pattern × List Symbol × Option TypeExpr × Expr)}
    {body otherBody wrapped : Expr} (sameDecls : otherDecls.map resetDecl = decls.map resetDecl)
    (sameBody : otherBody.resetSpans = body.resetSpans)
    (succeeded : decls.foldrM wrapLet body = .ok wrapped) :
    ∃ other, otherDecls.foldrM wrapLet otherBody = .ok other ∧
      other.resetSpans = wrapped.resetSpans := by
  induction decls generalizing otherDecls wrapped with
  | nil =>
      rw [List.map_eq_nil_iff.mp sameDecls]
      cases succeeded
      exact ⟨otherBody, rfl, sameBody⟩
  | cons decl decls hypothesis =>
      obtain ⟨otherDecl, otherDecls, rfl, sameDecl, same⟩ := List.map_eq_cons_iff.mp sameDecls
      rw [List.foldrM_cons] at succeeded ⊢
      rcases rest : decls.foldrM wrapLet body with error | inner
      · rw [rest] at succeeded
        cases succeeded
      · rw [rest] at succeeded
        obtain ⟨otherInner, otherRest, sameInner⟩ := hypothesis same rest
        rw [otherRest]
        exact resetSpans_wrapLet sameDecl sameInner succeeded

/-! ## The forms -/

section Forms

variable {Good : RexNode → Prop} {first second : RexNode → Build Expr}

/-- The second builder repeats the successes of the first, on the expressions
below good nodes. -/
structure Simulates (Good : RexNode → Prop) (first second : RexNode → Build Expr) : Prop where
  closed : ∀ {node child}, Good node → .node child ∈ node.children → Good child
  refines : ∀ {node}, Good node → node.rule = .expr →
    Refines Expr.resetSpans (first node) (second node)

namespace Simulates

variable (simulates : Simulates Good first second) {node : RexNode} (good : Good node)

include simulates good

theorem good_childRules {rule : RexRule} {child : RexNode} (member : child ∈ childRules node rule) :
    Good child :=
  simulates.closed good (mem_childRules.mp member).1

theorem good_firstRule {rule : RexRule} {child : RexNode}
    (found : firstRule node rule = some child) : Good child :=
  simulates.good_childRules good (mem_childRules_of_firstRule found)

theorem refines_child {child : RexNode} (member : child ∈ childRules node .expr) :
    Refines Expr.resetSpans (first child) (second child) :=
  simulates.refines (simulates.good_childRules good member) (mem_childRules.mp member).2

theorem exprOf : Refines Expr.resetSpans (exprOf first node) (exprOf second node) := by
  apply refines_bind_same
  intro child found
  exact simulates.refines_child good (mem_childRules_of_firstRule (firstRule_of_expectRule found))

/-- A form whose node is the first child with some rule. -/
theorem expectRule {Result View : Type} {view : Result → View} {rule : RexRule}
    {formFirst formSecond : RexNode → Build Result}
    (form : ∀ child, Good child → Refines view (formFirst child) (formSecond child)) :
    Refines view (liftM (RexLang.expectRule node rule) >>= formFirst)
      (liftM (RexLang.expectRule node rule) >>= formSecond) := by
  apply refines_bind_same
  intro child found
  exact form child (simulates.good_firstRule good (firstRule_of_expectRule found))

theorem children {Result View : Type} {view : Result → View} {rule : RexRule}
    {formFirst formSecond : RexNode → Build Result}
    (form : ∀ child, Good child → Refines view (formFirst child) (formSecond child)) :
    Refines (List.map view) ((childRules node rule).mapM formFirst)
      ((childRules node rule).mapM formSecond) := by
  apply refines_mapM
  intro child member
  exact form child (simulates.good_childRules good member)

theorem exprs : Refines (List.map Expr.resetSpans) ((childRules node .expr).mapM first)
    ((childRules node .expr).mapM second) := by
  apply refines_mapM
  intro child member
  exact simulates.refines_child good member

theorem dictItems {children : List (Cst RexRule Token)} (below : ∀ child ∈ children,
    child ∈ node.children) {items others : SymbolMap Expr}
    (same : resetFields others = resetFields items) :
    Refines resetFields (dictItems first children items) (dictItems second children others) := by
  induction children generalizing items others with
  | nil => exact refines_pure same
  | cons child rest hypothesis =>
      have hypothesis := fun items others =>
        @hypothesis (fun child member => below child (.tail _ member)) items others
      cases child with
      | token token => exact hypothesis _ _ same
      | node item =>
          rw [RexLang.dictItems, RexLang.dictItems]
          cases item.rule with
          | dictItem =>
              apply refines_bind_same
              intro key _
              apply refines_bind (simulates.exprOf (simulates.closed good (below _ (.head _))))
              intro value other sameValue
              apply hypothesis
              rw [resetFields_insert, resetFields_insert, same, sameValue]
          | badDictItem => exact refines_bind_same fun _ _ => hypothesis _ _ same
          | _ => exact hypothesis _ _ same

theorem dictFields : Refines resetFields (dictFields first node) (dictFields second node) :=
  simulates.dictItems good (fun _ member => member) rfl

theorem dictExpr : Refines Expr.resetSpans (dictExpr first node) (dictExpr second node) := by
  apply refines_bind (simulates.dictFields good)
  intro fields others same
  apply refines_pure
  rw [Expr.resetSpans, Expr.resetSpans]
  exact congrArg _ same

theorem recordUpdateExpr :
    Refines Expr.resetSpans (recordUpdateExpr first node) (recordUpdateExpr second node) := by
  apply refines_bind (simulates.exprOf good)
  intro base other sameBase
  apply simulates.expectRule good
  intro dict goodDict
  apply refines_bind (simulates.dictFields goodDict)
  intro updates others sameUpdates
  apply refines_pure
  rw [Expr.resetSpans, Expr.resetSpans, sameBase]
  exact congrArg _ sameUpdates

theorem braceExpr : Refines Expr.resetSpans (braceExpr first node) (braceExpr second node) := by
  rw [RexLang.braceExpr, RexLang.braceExpr]
  cases dict : firstRule node .dictExpr with
  | some dictNode => exact simulates.dictExpr (simulates.good_firstRule good dict)
  | none => exact simulates.expectRule good fun update => simulates.recordUpdateExpr

theorem listExpr : Refines Expr.resetSpans (listExpr first node) (listExpr second node) := by
  apply refines_bind (simulates.exprs good)
  intro items others same
  apply refines_pure
  rw [Expr.resetSpans, Expr.resetSpans, same]

theorem groupedExpr : Refines Expr.resetSpans (groupedExpr first node) (groupedExpr second node) := by
  apply refines_bind (simulates.exprOf good)
  intro inner other same
  apply refines_pure
  rw [resetSpans_withSpan, resetSpans_withSpan, same]

theorem parenExpr : Refines Expr.resetSpans (parenExpr first node) (parenExpr second node) := by
  rw [RexLang.parenExpr, RexLang.parenExpr]
  split
  · exact refines_refl _
  · cases firstRule node .operatorNameExpr with
    | some operator => exact refines_refl _
    | none =>
        cases tuple : firstRule node .tupleExpr with
        | some tupleNode =>
            apply refines_bind (simulates.exprs (simulates.good_firstRule good tuple))
            intro items others same
            apply refines_pure
            rw [Expr.resetSpans, Expr.resetSpans, same]
        | none => exact simulates.expectRule good fun grouped => simulates.groupedExpr

theorem negExpr : Refines Expr.resetSpans (negExpr first node) (negExpr second node) := by
  apply refines_bind_same
  intro op _
  apply refines_bind (simulates.exprOf good)
  intro inner other same
  apply refines_pure
  simp only [Expr.resetSpans, same]

theorem lastExpr (expected : String) :
    Refines Expr.resetSpans (lastExpr first node expected) (lastExpr second node expected) := by
  rw [RexLang.lastExpr, RexLang.lastExpr]
  cases last : (childRules node .expr).getLast? with
  | none => exact refines_refl _
  | some body => exact simulates.refines_child good (List.mem_of_getLast? last)

theorem lambdaExpr : Refines Expr.resetSpans (lambdaExpr first node) (lambdaExpr second node) := by
  apply refines_bind_same
  intro params _
  apply refines_bind_same
  intro constraints _
  apply refines_bind (simulates.lastExpr good _)
  intro body other same
  apply refines_pure
  rw [resetSpans_withSpanBegin, resetSpans_withSpanBegin]
  exact resetSpans_wrapLambdas _ _ same

theorem letBinding : Refines resetDecl (letBinding first node) (letBinding second node) := by
  apply refines_bind_same
  intro pattern _
  apply refines_bind_same
  intro typeParams _
  apply refines_bind_same
  intro annotation _
  apply refines_bind (simulates.exprOf good)
  intro defn other same
  apply refines_pure
  simp only [resetDecl, same]

theorem letDecls {body other : Expr} (same : other.resetSpans = body.resetSpans) :
    Refines Expr.resetSpans (letDecls first node body) (letDecls second node other) := by
  apply refines_bind (simulates.children good fun binding => simulates.letBinding)
  intro decls others sameDecls wrapped succeeded
  obtain ⟨inner, answer, rest⟩ := outcome_bind_eq_ok.mp succeeded
  obtain ⟨otherInner, otherAnswer, sameInner⟩ := resetSpans_foldrM_wrapLet sameDecls same answer
  cases rest
  refine ⟨otherInner.withSpanBegin node.span.begin,
    outcome_bind_eq_ok.mpr ⟨otherInner, otherAnswer, rfl⟩, ?_⟩
  rw [resetSpans_withSpanBegin, resetSpans_withSpanBegin, sameInner]

theorem letRecBinding :
    Refines (fun binding : LetRecBinding =>
      (binding.1.resetSpans, binding.2.1, binding.2.2.1.map TypeExpr.resetSpans,
        binding.2.2.2.resetSpans)) (letRecBinding first node) (letRecBinding second node) := by
  apply refines_bind_same
  intro pattern _
  cases patternBindingVar pattern with
  | none => exact refines_refl _
  | some binder =>
      apply refines_bind_same
      intro typeParams _
      apply refines_bind_same
      intro annotation _
      apply refines_bind (simulates.exprOf good)
      intro defn other same
      apply refines_pure
      simp only [same]

theorem letRecExpr {body other : Expr} (same : other.resetSpans = body.resetSpans) :
    Refines Expr.resetSpans (letRecExpr first node body) (letRecExpr second node other) := by
  apply refines_bind (simulates.children good fun binding => simulates.letRecBinding)
  intro bindings others sameBindings
  apply refines_pure
  rw [Expr.resetSpans, Expr.resetSpans, same]
  exact congrArg (Expr.letRec _ · _) sameBindings

theorem letExpr : Refines Expr.resetSpans (letExpr first node) (letExpr second node) := by
  apply refines_bind (simulates.lastExpr good _)
  intro body other same
  split
  · exact simulates.letDecls good same
  · exact simulates.letRecExpr good same

theorem ifExpr : Refines Expr.resetSpans (ifExpr first node) (ifExpr second node) := by
  rw [RexLang.ifExpr, RexLang.ifExpr]
  split
  · next condNode thenNode elseNode parts =>
      have member : ∀ part ∈ [condNode, thenNode, elseNode],
          Refines Expr.resetSpans (first part) (second part) := by
        intro part among
        exact simulates.refines_child good (parts ▸ among)
      apply refines_bind (member condNode (by simp))
      intro cond otherCond sameCond
      apply refines_bind (member thenNode (by simp))
      intro thenExpr otherThen sameThen
      apply refines_bind (member elseNode (by simp))
      intro elseExpr otherElse sameElse
      apply refines_pure
      rw [Expr.resetSpans, Expr.resetSpans, sameCond, sameThen, sameElse]
  · exact refines_refl _

theorem matchArm :
    Refines (fun arm : Pattern × Expr => (arm.1.resetSpans, arm.2.resetSpans))
      (matchArm first node) (matchArm second node) := by
  apply refines_bind_same
  intro pattern _
  apply refines_bind (simulates.exprOf good)
  intro body other same
  apply refines_pure
  simp only [same]

theorem matchExpr : Refines Expr.resetSpans (matchExpr first node) (matchExpr second node) := by
  apply refines_bind (simulates.exprOf good)
  intro scrutinee other same
  apply refines_bind (simulates.children good fun arm => simulates.matchArm)
  intro arms others sameArms
  apply refines_pure
  rw [Expr.resetSpans, Expr.resetSpans, same]
  exact congrArg _ sameArms

theorem atomForm : Refines Expr.resetSpans (atomForm first node) (atomForm second node) := by
  rw [RexLang.atomForm, RexLang.atomForm]
  cases paren : firstRule node .parenExpr with
  | some parenNode => exact simulates.parenExpr (simulates.good_firstRule good paren)
  | none =>
  cases list : firstRule node .listExpr with
  | some listNode => exact simulates.listExpr (simulates.good_firstRule good list)
  | none =>
  cases brace : firstRule node .braceExpr with
  | some braceNode => exact simulates.braceExpr (simulates.good_firstRule good brace)
  | none =>
  cases firstRule node .holeExpr with
  | some hole => exact refines_refl _
  | none =>
  cases firstRule node .identExpr with
  | some ident => exact refines_refl _
  | none =>
  cases lambda : firstRule node .lambdaExpr with
  | some lambdaNode => exact simulates.lambdaExpr (simulates.good_firstRule good lambda)
  | none =>
  cases letNode : firstRule node .letExpr with
  | some child => exact simulates.letExpr (simulates.good_firstRule good letNode)
  | none =>
  cases ifNode : firstRule node .ifExpr with
  | some child => exact simulates.ifExpr (simulates.good_firstRule good ifNode)
  | none =>
  cases matchNode : firstRule node .matchExpr with
  | some child => exact simulates.matchExpr (simulates.good_firstRule good matchNode)
  | none => exact simulates.expectRule good fun child => simulates.negExpr

theorem atomExpr : Refines Expr.resetSpans (atomExpr first node) (atomExpr second node) := by
  rw [RexLang.atomExpr, RexLang.atomExpr]
  split
  · exact refines_refl _
  · exact simulates.atomForm good

theorem postfixExpr : Refines Expr.resetSpans (postfixExpr first node) (postfixExpr second node) := by
  apply refines_bind_same
  intro atom found
  apply refines_bind
    (simulates.atomExpr (simulates.good_firstRule good (firstRule_of_expectRule found)))
  intro base other same
  apply refines_bind_same
  intro fields _
  apply refines_pure
  exact resetSpans_foldl_congr (fun _ _ _ same => by simp only [Expr.resetSpans, same]) fields same

theorem applicationExpr :
    Refines Expr.resetSpans (applicationExpr first node) (applicationExpr second node) := by
  apply refines_bind (simulates.children good fun term => simulates.postfixExpr)
  intro terms others same
  have sameGroups := map_resetSpans_groupConstructors same
  cases groups : groupConstructors terms with
  | nil => exact refines_fail _ _
  | cons base args =>
      rw [groups] at sameGroups
      obtain ⟨otherBase, otherArgs, otherGroups, sameBase, sameArgs⟩ :=
        List.map_eq_cons_iff.mp sameGroups
      rw [otherGroups]
      apply refines_pure
      rw [resetSpans_foldl_app, resetSpans_foldl_app, sameBase, sameArgs]

theorem unaryExpr : Refines Expr.resetSpans (unaryExpr first node) (unaryExpr second node) := by
  apply refines_bind_same
  intro application found
  apply refines_bind
    (simulates.applicationExpr (simulates.good_firstRule good (firstRule_of_expectRule found)))
  intro base other same
  apply refines_bind_same
  intro types _
  apply refines_pure
  exact resetSpans_foldl_congr (fun _ _ _ same => by simp only [Expr.resetSpans, same]) types same

theorem operandsAndOperators {children : List (Cst RexRule Token)}
    (below : ∀ child ∈ children, child ∈ node.children) :
    Refines (fun result => (result.1.map Expr.resetSpans, result.2))
      (operandsAndOperators first children) (operandsAndOperators second children) := by
  induction children with
  | nil => exact refines_refl _
  | cons child rest hypothesis =>
      have hypothesis := hypothesis fun child member => below child (.tail _ member)
      cases child with
      | token token => exact hypothesis
      | node child =>
          rw [RexLang.operandsAndOperators, RexLang.operandsAndOperators]
          cases child.rule with
          | unaryExpr =>
              apply refines_bind (simulates.unaryExpr (simulates.closed good (below _ (.head _))))
              intro operand other sameOperand
              apply refines_bind hypothesis
              intro result others same
              obtain ⟨sameOperands, sameOperators⟩ := Prod.mk.inj same
              apply refines_pure
              simp only [List.map_cons, sameOperand, sameOperands, sameOperators]
          | binaryOp =>
              apply refines_bind_same
              intro operator _
              apply refines_bind hypothesis
              intro result others same
              obtain ⟨sameOperands, sameOperators⟩ := Prod.mk.inj same
              apply refines_pure
              simp only [sameOperands, sameOperators]
          | _ => exact hypothesis

theorem operatorExpr :
    Refines Expr.resetSpans (operatorExpr first node) (operatorExpr second node) := by
  apply refines_bind (simulates.operandsAndOperators good fun _ member => member)
  rintro ⟨operands, operators⟩ ⟨others, otherOperators⟩ same
  obtain ⟨sameOperands, rfl⟩ := Prod.mk.inj same
  have sameFold : (foldBinaryExpr others otherOperators).map Expr.resetSpans =
      (foldBinaryExpr operands otherOperators).map Expr.resetSpans :=
    resetSpans_foldBinaryExpr sameOperands
  dsimp only
  cases folded : foldBinaryExpr operands otherOperators with
  | none => exact refines_fail _ _
  | some result =>
      rw [folded] at sameFold
      obtain ⟨other, otherFolded, sameResult⟩ := Option.map_eq_some_iff.mp sameFold
      rw [otherFolded]
      dsimp only
      split
      · exact refines_fail _ _
      · exact refines_pure sameResult

end Simulates

end Forms

end RexLang
