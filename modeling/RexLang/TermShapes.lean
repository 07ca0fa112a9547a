import RexLang.BuilderSimulation
import RexLang.FallibleResults

/-!
# What a term is, read off its concrete syntax

A term of an application is a constructor reference or a record literal when it
is one after parentheses are taken off.  This file follows a node of the
concrete syntax tree to the node that stands for it and shows that the builder
answers an expression of the same shape.
-/

namespace RexLang

open Logged

/-! ## Well-formed nodes -/

/-- Expressions of the grammar that yield one child. -/
inductive Peg.Single {Rule Kind : Type} : Peg Rule Kind → Prop where
  | token (kind) : Single (.token kind)
  | rule (rule) : Single (.rule rule)
  | guarded (item rule) : Single (.seq [.and item, .cut (.rule rule)])

theorem Peg.Single.yields {Rule Kind Token : Type} {isKind : Kind → Token → Bool}
    {peg : Peg Rule Kind} {children : List (Cst Rule Token)} (single : peg.Single)
    (yields : peg.Yields isKind children) : ∃ child, children = [child] := by
  cases single with
  | token kind =>
      cases yields
      exact ⟨_, rfl⟩
  | rule rule =>
      cases yields
      exact ⟨_, rfl⟩
  | guarded item rule =>
      cases yields with
      | seqCons head tail =>
          cases head
          cases tail with
          | seqCons head tail =>
              cases tail
              cases head with
              | cut yields =>
                  cases yields
                  exact ⟨_, rfl⟩

namespace RexNode

theorem WellFormed.yields {node : RexNode} (wellFormed : node.WellFormed) :
    (rexGrammar node.rule).Yields Terminal.matches node.children := by
  cases wellFormed with
  | intro yields children => exact yields

theorem WellFormed.child {node child : RexNode} (wellFormed : node.WellFormed)
    (member : .node child ∈ node.children) : child.WellFormed := by
  cases wellFormed with
  | intro yields children => exact children child member

/-- A choice between expressions that yield one child yields one child. -/
theorem WellFormed.single {node : RexNode} (wellFormed : node.WellFormed)
    {alternatives : List (Peg RexRule Terminal)} (rule : rexGrammar node.rule = .choice alternatives)
    (single : ∀ item ∈ alternatives, item.Single) : ∃ child, node.children = [child] := by
  have yields := wellFormed.yields
  rw [rule] at yields
  cases yields with
  | choice member yields => exact (single _ member).yields yields

theorem WellFormed.atomExpr_children {node : RexNode} (wellFormed : node.WellFormed)
    (rule : node.rule = .atomExpr) : ∃ child, node.children = [child] := by
  apply wellFormed.single (congrArg rexGrammar rule)
  intro item member
  simp only [List.mem_cons, List.not_mem_nil, or_false] at member
  rcases member with rfl | rfl | rfl | rfl | rfl | rfl | rfl | rfl | rfl | rfl | rfl | rfl | rfl |
    rfl | rfl <;> constructor

theorem WellFormed.parenExpr_children {node : RexNode} (wellFormed : node.WellFormed)
    (rule : node.rule = .parenExpr) : ∃ child, node.children = [child] := by
  apply wellFormed.single (congrArg rexGrammar rule)
  intro item member
  simp only [List.mem_cons, List.not_mem_nil, or_false] at member
  rcases member with rfl | rfl | rfl | rfl <;> constructor

theorem WellFormed.braceExpr_children {node : RexNode} (wellFormed : node.WellFormed)
    (rule : node.rule = .braceExpr) : ∃ child, node.children = [child] := by
  apply wellFormed.single (congrArg rexGrammar rule)
  intro item member
  simp only [List.mem_cons, List.not_mem_nil, or_false] at member
  rcases member with rfl | rfl <;> constructor

end RexNode

/-! ## Shapes -/

/-- What `application_expr` tells apart in a term. -/
inductive TermShape where
  | constructor
  | record
  | other
deriving DecidableEq

def Expr.shape (expr : Expr) : TermShape :=
  if isConstructorReference expr then .constructor
  else if isDict expr then .record
  else .other

def nameShape (name : Symbol) : TermShape :=
  if isUppercaseSymbol name then .constructor else .other

/-- The only child, if it is a node. -/
def onlyNode (node : RexNode) : Option RexNode :=
  match node.children with
  | [.node child] => some child
  | _ => none

/-- The child that a node stands for as a whole, if there is one. -/
def content (node : RexNode) : Option RexNode :=
  match node.rule with
  | .expr =>
      if (childRules node .binaryOp).isEmpty || (childRules node .unaryExpr).length ≤ 1 then
        firstRule node .unaryExpr
      else none
  | .unaryExpr =>
      if (childRules node .typeExpr).isEmpty then firstRule node .applicationExpr else none
  | .applicationExpr => onlyRule node .postfixExpr
  | .postfixExpr =>
      if (childRules node .fieldName).isEmpty then firstRule node .atomExpr else none
  | .atomExpr | .parenExpr | .braceExpr => onlyNode node
  | .groupedExpr => firstRule node .expr
  | .lambdaExpr =>
      if (childRules node .lambdaParam).isEmpty then (childRules node .expr).getLast? else none
  | .letExpr =>
      if (directTokens node .kwRec).isEmpty && (childRules node .letBinding).isEmpty then
        (childRules node .expr).getLast?
      else none
  | _ => none

/-- The shape of a node that stands for no child. -/
def leafShape (node : RexNode) : TermShape :=
  match node.rule with
  | .dictExpr => .record
  | .identExpr =>
      match expectToken node .ident >>= identText with
      | .ok name => nameShape name
      | .error _ => .other
  | .postfixExpr =>
      match ((childRules node .fieldName).getLast?.map fieldName) with
      | some (.ok (name, _)) => nameShape name
      | _ => .other
  | .operatorNameExpr =>
      match operatorNameExpr node with
      | .ok name => name.shape
      | .error _ => .other
  | _ => .other

theorem mem_children_of_firstRule {node child : RexNode} {rule : RexRule}
    (found : firstRule node rule = some child) : .node child ∈ node.children :=
  (mem_childRules.mp (mem_childRules_of_firstRule found)).1

theorem onlyRule_eq_some {node child : RexNode} {rule : RexRule} :
    onlyRule node rule = some child ↔ childRules node rule = [child] := by
  rw [onlyRule]
  split
  · next only found => simp [found]
  · next notOne =>
      constructor
      · intro absurd
        cases absurd
      · intro one
        exact absurd one (notOne child)

theorem mem_children_of_content {node child : RexNode} (found : content node = some child) :
    .node child ∈ node.children := by
  rw [content] at found
  split at found
  · split at found
    · exact mem_children_of_firstRule found
    · cases found
  · split at found
    · exact mem_children_of_firstRule found
    · cases found
  · have only := onlyRule_eq_some.1 found
    exact (mem_childRules.mp (only ▸ .head _ : child ∈ childRules node .postfixExpr)).1
  · split at found
    · exact mem_children_of_firstRule found
    · cases found
  iterate 3
    · rw [onlyNode] at found
      split at found
      · next inner only =>
          cases found
          rw [only]
          exact .head _
      · cases found
  · exact mem_children_of_firstRule found
  · split at found
    · exact (mem_childRules.mp (List.mem_of_getLast? found)).1
    · cases found
  · split at found
    · exact (mem_childRules.mp (List.mem_of_getLast? found)).1
    · cases found
  · cases found

theorem sizeOf_lt_of_content {node child : RexNode} (found : content node = some child) :
    sizeOf child < sizeOf node := by
  have smaller := List.sizeOf_lt_of_mem (mem_children_of_content found)
  obtain ⟨rule, span, children⟩ := node
  simp only [Cst.node.sizeOf_spec, CstNode.mk.sizeOf_spec] at smaller ⊢
  omega

/-- The shape of the node that a node stands for. -/
def termShape (node : RexNode) : TermShape :=
  match _found : content node with
  | some child => termShape child
  | none => leafShape node
termination_by sizeOf node
decreasing_by exact sizeOf_lt_of_content _found

theorem termShape_of_content {node child : RexNode} (found : content node = some child) :
    termShape node = termShape child := by
  rw [termShape]
  split
  · next other same =>
      rw [found] at same
      cases same
      rfl
  · next missing =>
      rw [found] at missing
      cases missing

theorem termShape_of_leaf {node : RexNode} (missing : content node = none) :
    termShape node = leafShape node := by
  rw [termShape]
  split
  · next other found =>
      rw [missing] at found
      cases found
  · rfl

/-! ## The shape of what is built -/

@[simp]
theorem shape_withSpan (expr : Expr) (span : Span) : (expr.withSpan span).shape = expr.shape := by
  cases expr <;> rfl

@[simp]
theorem shape_withSpanBegin (expr : Expr) (begin : Position) :
    (expr.withSpanBegin begin).shape = expr.shape :=
  shape_withSpan expr _

theorem childRules_of_token {node : RexNode} {token : Token}
    (children : node.children = [.token token]) (rule : RexRule) : childRules node rule = [] := by
  rw [childRules, children]
  rfl

theorem childRules_of_node {node child : RexNode} (children : node.children = [.node child])
    (rule : RexRule) : childRules node rule = if child.rule = rule then [child] else [] := by
  rw [childRules, children, List.filterMap_cons]
  dsimp only
  split
  · next missing =>
      split at missing
      · cases missing
      · next other => rw [if_neg other, List.filterMap_nil]
  · next found =>
      split at found
      · next same =>
          cases found
          rw [if_pos same, List.filterMap_nil]
      · cases found

/-- The last results of a loop and of its elements. -/
theorem getLast?_of_forall₂ {First Second : Type} {related : First → Second → Prop}
    {firsts : List First} {seconds : List Second} (all : List.Forall₂ related firsts seconds)
    {first : First} (last : firsts.getLast? = some first) :
    ∃ second, seconds.getLast? = some second ∧ related first second := by
  induction all with
  | nil => cases last
  | cons head tail hypothesis =>
      cases tail with
      | nil =>
          cases last
          exact ⟨_, rfl, head⟩
      | cons next rest =>
          rw [List.getLast?_cons_cons] at last ⊢
          exact hypothesis last

theorem shape_foldl_app (span : Expr → Span) {func : Expr} (other : func.shape = .other)
    (args : List Expr) :
    (args.foldl (fun func arg => .app (span arg) func arg) func).shape = .other := by
  induction args generalizing func with
  | nil => exact other
  | cons arg args hypothesis => exact hypothesis rfl

theorem isConstructorReference_of_isDict {expr : Expr} (dict : isDict expr = true) :
    isConstructorReference expr = false := by
  cases expr <;> first | rfl | cases dict

theorem groupConstructors_cons_ne_nil (term : Expr) (terms : List Expr) :
    groupConstructors (term :: terms) ≠ [] := by
  cases terms with
  | nil => exact List.cons_ne_nil _ _
  | cons fields rest =>
      rw [groupConstructors]
      split <;> exact List.cons_ne_nil _ _

/-- Two terms or more are applied to each other. -/
theorem shape_application {first second base : Expr} {rest args : List Expr} (span : Expr → Span)
    (groups : groupConstructors (first :: second :: rest) = base :: args) :
    (args.foldl (fun func arg => .app (span arg) func arg) base).shape = .other := by
  rw [groupConstructors] at groups
  split at groups
  · cases groups
    exact shape_foldl_app span rfl _
  · cases more : groupConstructors (second :: rest) with
    | nil => exact absurd more (groupConstructors_cons_ne_nil _ _)
    | cons arg others =>
        rw [more] at groups
        cases groups
        rw [List.foldl_cons]
        exact shape_foldl_app span rfl _

theorem exists_node_of_climb (tree : OperandTree) (parts : List (BinaryOperator × Expr))
    (some : parts ≠ [] ∨ ∃ operator left right, tree = .node operator left right) :
    ∃ operator left right, climb tree parts = .node operator left right := by
  induction parts generalizing tree with
  | nil =>
      rcases some with absurd | node
      · exact (absurd rfl).elim
      · exact node
  | cons part rest hypothesis =>
      obtain ⟨operator, operand⟩ := part
      rw [climb]
      split
      · exact ⟨_, _, _, rfl⟩
      · exact hypothesis _ (.inr ⟨_, _, _, rfl⟩)

/-- Operands joined by an operator are an application. -/
theorem shape_foldBinaryFrom (lhs : Expr) (part : BinaryOperator × Expr)
    (parts : List (BinaryOperator × Expr)) :
    (foldBinaryFrom lhs (part :: parts)).1.shape = .other := by
  obtain ⟨operator, left, right, climbs⟩ :=
    exists_node_of_climb (.leaf lhs) (part :: parts) (.inl (List.cons_ne_nil _ _))
  have folded := (foldBinaryFrom_eq_climb (.leaf lhs) (part :: parts)).1
  rw [climbs] at folded
  exact (congrArg Expr.shape folded).trans rfl

/-- The builder answers an expression of the shape of its node. -/
def BuildsShape (build : RexNode → Build Expr) (node : RexNode) : Prop :=
  ∀ expr, (build node).outcome = .ok expr → expr.shape = termShape node

theorem buildsShape_other {build : RexNode → Build Expr} {node : RexNode}
    (missing : content node = none) (leaf : leafShape node = .other)
    (other : ∀ expr, (build node).outcome = .ok expr → expr.shape = .other) :
    BuildsShape build node := by
  intro expr built
  rw [termShape_of_leaf missing, leaf, other expr built]

theorem exprOf_eq_ok {build : RexNode → Build Expr} {node : RexNode} {expr : Expr} :
    (exprOf build node).outcome = .ok expr ↔
      ∃ child, firstRule node .expr = some child ∧ (build child).outcome = .ok expr := by
  rw [exprOf, outcome_bind_eq_ok]
  constructor
  · rintro ⟨child, found, built⟩
    exact ⟨child, firstRule_of_expectRule found, built⟩
  · rintro ⟨child, found, built⟩
    refine ⟨child, ?_, built⟩
    change expectRule node .expr = .ok child
    rw [expectRule, found]

section Forms

variable {build : RexNode → Build Expr}
  (inner : ∀ {child}, child.WellFormed → child.rule = .expr → BuildsShape build child)
  {node : RexNode} (wellFormed : node.WellFormed)

include inner wellFormed

theorem shape_firstExpr {child : RexNode} {expr : Expr} (found : firstRule node .expr = some child)
    (built : (build child).outcome = .ok expr) : expr.shape = termShape child :=
  inner (wellFormed.child (mem_children_of_firstRule found))
    (mem_childRules.mp (mem_childRules_of_firstRule found)).2 expr built

theorem shape_lastExpr {expected : String} {expr : Expr}
    (built : (lastExpr build node expected).outcome = .ok expr) :
    ∃ child, (childRules node .expr).getLast? = some child ∧ expr.shape = termShape child := by
  rw [lastExpr] at built
  split at built
  · cases built
  · next child last =>
      have member := mem_childRules.mp (List.mem_of_getLast? last)
      exact ⟨child, last, inner (wellFormed.child member.1) member.2 expr built⟩

theorem shape_groupedExpr (rule : node.rule = .groupedExpr) :
    BuildsShape (groupedExpr build) node := by
  intro expr built
  obtain ⟨inside, answer, rest⟩ := outcome_bind_eq_ok.mp built
  obtain ⟨child, found, builtChild⟩ := exprOf_eq_ok.1 answer
  cases rest
  have stands : content node = some child := by simp only [content, rule, found]
  rw [shape_withSpan, termShape_of_content stands, shape_firstExpr inner wellFormed found builtChild]

omit inner wellFormed in
theorem shape_dictExpr (rule : node.rule = .dictExpr) : BuildsShape (dictExpr build) node := by
  intro expr built
  obtain ⟨fields, _, rest⟩ := outcome_bind_eq_ok.mp built
  cases rest
  have missing : content node = none := by simp only [content, rule]
  rw [termShape_of_leaf missing]
  simp only [leafShape, rule]
  rfl

omit inner wellFormed in
theorem shape_recordUpdateExpr (rule : node.rule = .recordUpdateExpr) :
    BuildsShape (recordUpdateExpr build) node := by
  apply buildsShape_other (by simp only [content, rule]) (by simp only [leafShape, rule])
  intro expr built
  obtain ⟨base, _, rest⟩ := outcome_bind_eq_ok.mp built
  obtain ⟨dict, _, rest⟩ := outcome_bind_eq_ok.mp rest
  obtain ⟨updates, _, rest⟩ := outcome_bind_eq_ok.mp rest
  cases rest
  rfl

omit inner in
theorem shape_braceExpr (rule : node.rule = .braceExpr) : BuildsShape (braceExpr build) node := by
  intro expr built
  obtain ⟨child, only⟩ := wellFormed.braceExpr_children rule
  cases child with
  | token token =>
      simp [braceExpr, firstRule, expectRule, childRules_of_token only] at built
  | node child =>
      have stands : content node = some child := by simp only [content, rule, onlyNode, only]
      rw [termShape_of_content stands]
      by_cases dict : child.rule = .dictExpr
      · simp only [braceExpr, firstRule, childRules_of_node only, if_pos dict] at built
        exact shape_dictExpr dict expr built
      · by_cases update : child.rule = .recordUpdateExpr
        · simp only [braceExpr, firstRule, expectRule, childRules_of_node only, if_neg dict,
            if_pos update] at built
          exact shape_recordUpdateExpr update expr built
        · simp only [braceExpr, firstRule, expectRule, childRules_of_node only, if_neg dict,
            if_neg update] at built
          cases built

theorem shape_parenExpr (rule : node.rule = .parenExpr) : BuildsShape (parenExpr build) node := by
  intro expr built
  obtain ⟨child, only⟩ := wellFormed.parenExpr_children rule
  cases child with
  | token token =>
      simp [parenExpr, firstRule, expectRule, childRules_of_token only] at built
  | node child =>
      have stands : content node = some child := by simp only [content, rule, onlyNode, only]
      have below : RexNode.WellFormed child := wellFormed.child (by rw [only]; exact .head _)
      rw [termShape_of_content stands]
      simp only [parenExpr, firstRule, expectRule, childRules_of_node only] at built
      by_cases unit : child.rule = .unitExpr
      · simp only [if_pos unit, List.head?_cons, Option.isSome_some, if_true] at built
        cases built
        rw [termShape_of_leaf (by simp only [content, unit])]
        simp only [leafShape, unit]
        rfl
      · by_cases operator : child.rule = .operatorNameExpr
        · simp only [if_neg unit, if_pos operator, List.head?_cons] at built
          change operatorNameExpr child = .ok expr at built
          rw [termShape_of_leaf (by simp only [content, operator])]
          simp only [leafShape, operator, built]
        · by_cases tuple : child.rule = .tupleExpr
          · simp only [if_neg unit, if_neg operator, if_pos tuple, List.head?_cons] at built
            obtain ⟨items, _, rest⟩ := outcome_bind_eq_ok.mp built
            cases rest
            rw [termShape_of_leaf (by simp only [content, tuple])]
            simp only [leafShape, tuple]
            rfl
          · by_cases grouped : child.rule = .groupedExpr
            · simp only [if_neg unit, if_neg operator, if_neg tuple, if_pos grouped] at built
              exact shape_groupedExpr inner below grouped expr built
            · simp only [if_neg unit, if_neg operator, if_neg tuple, if_neg grouped] at built
              cases built

omit inner wellFormed in
theorem shape_listExpr (rule : node.rule = .listExpr) : BuildsShape (listExpr build) node := by
  apply buildsShape_other (by simp only [content, rule]) (by simp only [leafShape, rule])
  intro expr built
  obtain ⟨items, _, rest⟩ := outcome_bind_eq_ok.mp built
  cases rest
  rfl

omit inner wellFormed in
theorem shape_negExpr (rule : node.rule = .negExpr) : BuildsShape (negExpr build) node := by
  apply buildsShape_other (by simp only [content, rule]) (by simp only [leafShape, rule])
  intro expr built
  obtain ⟨op, _, rest⟩ := outcome_bind_eq_ok.mp built
  obtain ⟨operand, _, rest⟩ := outcome_bind_eq_ok.mp rest
  cases rest
  rfl

omit inner wellFormed in
theorem shape_ifExpr (rule : node.rule = .ifExpr) : BuildsShape (ifExpr build) node := by
  apply buildsShape_other (by simp only [content, rule]) (by simp only [leafShape, rule])
  intro expr built
  rw [ifExpr] at built
  split at built
  · obtain ⟨cond, _, rest⟩ := outcome_bind_eq_ok.mp built
    obtain ⟨thenExpr, _, rest⟩ := outcome_bind_eq_ok.mp rest
    obtain ⟨elseExpr, _, rest⟩ := outcome_bind_eq_ok.mp rest
    cases rest
    rfl
  · cases built

omit inner wellFormed in
theorem shape_matchExpr (rule : node.rule = .matchExpr) : BuildsShape (matchExpr build) node := by
  apply buildsShape_other (by simp only [content, rule]) (by simp only [leafShape, rule])
  intro expr built
  obtain ⟨scrutinee, _, rest⟩ := outcome_bind_eq_ok.mp built
  obtain ⟨arms, _, rest⟩ := outcome_bind_eq_ok.mp rest
  cases rest
  rfl

theorem shape_lambdaExpr (rule : node.rule = .lambdaExpr) :
    BuildsShape (lambdaExpr build) node := by
  intro expr built
  obtain ⟨params, paramsBuilt, rest⟩ := outcome_bind_eq_ok.mp built
  obtain ⟨constraints, _, rest⟩ := outcome_bind_eq_ok.mp rest
  obtain ⟨body, bodyBuilt, rest⟩ := outcome_bind_eq_ok.mp rest
  cases rest
  rw [shape_withSpanBegin]
  cases nodes : childRules node .lambdaParam with
  | nil =>
      obtain ⟨child, last, shape⟩ := shape_lastExpr inner wellFormed bodyBuilt
      have stands : content node = some child := by
        simp only [content, rule, nodes, last, List.isEmpty_nil, if_true]
      rw [nodes] at paramsBuilt
      cases paramsBuilt
      rw [termShape_of_content stands]
      exact shape
  | cons param rest =>
      have missing : content node = none := by
        simp [content, rule, nodes]
      change (childRules node .lambdaParam).mapM lambdaParam = .ok params at paramsBuilt
      rw [nodes] at paramsBuilt
      obtain ⟨⟨span, name, annotation⟩, others, _, _, rfl⟩ :=
        List.forall₂_cons_left_iff.mp (mapM_eq_ok_iff.mp paramsBuilt)
      rw [termShape_of_leaf missing]
      simp only [leafShape, rule]
      rfl

omit inner wellFormed in
theorem shape_wrapLet {decl : Pattern × List Symbol × Option TypeExpr × Expr} {body expr : Expr}
    (wrapped : wrapLet decl body = .ok expr) : expr.shape = .other := by
  obtain ⟨pattern, typeParams, annotation, defn⟩ := decl
  cases pattern with
  | var binder =>
      cases wrapped
      rfl
  | wildcard | named | tuple | list | cons | dict =>
      simp only [wrapLet] at wrapped
      split at wrapped
      · cases wrapped
      · cases wrapped
        rfl

theorem shape_letExpr (rule : node.rule = .letExpr) : BuildsShape (letExpr build) node := by
  intro expr built
  obtain ⟨body, bodyBuilt, rest⟩ := outcome_bind_eq_ok.mp built
  split at rest
  · next notRec =>
      obtain ⟨decls, declsBuilt, rest⟩ := outcome_bind_eq_ok.mp rest
      obtain ⟨wrapped, wrappedBuilt, rest⟩ := outcome_bind_eq_ok.mp rest
      cases rest
      change decls.foldrM wrapLet body = .ok wrapped at wrappedBuilt
      have declsBuilt := outcome_mapM_eq_ok.mp declsBuilt
      rw [shape_withSpanBegin]
      cases nodes : childRules node .letBinding with
      | nil =>
          obtain ⟨child, last, shape⟩ := shape_lastExpr inner wellFormed bodyBuilt
          have stands : content node = some child := by
            simp only [content, rule, notRec, nodes, last, List.isEmpty_nil, Bool.and_self, if_true]
          rw [nodes] at declsBuilt
          cases declsBuilt
          cases wrappedBuilt
          rw [termShape_of_content stands]
          exact shape
      | cons binding rest =>
          have missing : content node = none := by simp [content, rule, nodes]
          rw [nodes] at declsBuilt
          obtain ⟨decl, others, _, _, rfl⟩ := List.forall₂_cons_left_iff.mp declsBuilt
          rw [termShape_of_leaf missing]
          rw [List.foldrM_cons] at wrappedBuilt
          cases inside : others.foldrM wrapLet body with
          | error error =>
              rw [inside] at wrappedBuilt
              cases wrappedBuilt
          | ok value =>
              rw [inside] at wrappedBuilt
              simp only [leafShape, rule]
              exact shape_wrapLet wrappedBuilt
  · next isRec =>
      obtain ⟨bindings, _, rest⟩ := outcome_bind_eq_ok.mp rest
      cases rest
      have missing : content node = none := by simp [content, rule, isRec]
      rw [termShape_of_leaf missing]
      simp only [leafShape, rule]
      rfl

theorem shape_atomExpr (rule : node.rule = .atomExpr) : BuildsShape (atomExpr build) node := by
  intro expr built
  obtain ⟨child, only⟩ := wellFormed.atomExpr_children rule
  cases child with
  | token token =>
      have missing : content node = none := by simp only [content, rule, onlyNode, only]
      rw [termShape_of_leaf missing]
      simp only [leafShape, rule]
      simp only [atomExpr, firstToken, firstTokenOf, only, List.findSome?_cons,
        Option.bind_some] at built
      split at built
      · next literal found =>
          cases built
          obtain ⟨kind, span⟩ := token
          cases kind <;> cases found <;> rfl
      · simp [atomForm, firstRule, expectRule, childRules_of_token only] at built
  | node child =>
      have stands : content node = some child := by simp only [content, rule, onlyNode, only]
      have below : RexNode.WellFormed child := wellFormed.child (by rw [only]; exact .head _)
      rw [termShape_of_content stands]
      simp only [atomExpr, firstToken, firstTokenOf, only, List.findSome?_cons, List.findSome?_nil,
        Option.bind_none, atomForm, firstRule, expectRule, childRules_of_node only] at built
      cases kind : child.rule <;>
        simp only [kind, reduceCtorEq, if_true, if_false, List.head?_nil, List.head?_cons] at built
      case parenExpr => exact shape_parenExpr inner below kind expr built
      case listExpr => exact shape_listExpr kind expr built
      case braceExpr => exact shape_braceExpr below kind expr built
      case holeExpr =>
        cases built
        rw [termShape_of_leaf (by simp only [content, kind])]
        simp only [leafShape, kind]
        rfl
      case identExpr =>
        obtain ⟨token, found, rest⟩ := outcome_bind_eq_ok.mp built
        obtain ⟨name, named, rest⟩ := outcome_bind_eq_ok.mp rest
        cases rest
        change expectToken child .ident = .ok token at found
        change identText token = .ok name at named
        rw [termShape_of_leaf (by simp only [content, kind])]
        simp only [leafShape, kind, found]
        change _ = match identText token with | .ok name => _ | .error _ => _
        rw [named]
        rfl
      case lambdaExpr => exact shape_lambdaExpr inner below kind expr built
      case letExpr => exact shape_letExpr inner below kind expr built
      case ifExpr => exact shape_ifExpr kind expr built
      case matchExpr => exact shape_matchExpr kind expr built
      case negExpr => exact shape_negExpr kind expr built

theorem shape_postfixExpr (rule : node.rule = .postfixExpr) :
    BuildsShape (postfixExpr build) node := by
  intro expr built
  obtain ⟨atom, found, rest⟩ := outcome_bind_eq_ok.mp built
  obtain ⟨base, baseBuilt, rest⟩ := outcome_bind_eq_ok.mp rest
  obtain ⟨fields, fieldsBuilt, rest⟩ := outcome_bind_eq_ok.mp rest
  cases rest
  have found := firstRule_of_expectRule found
  have fieldsBuilt := mapM_eq_ok_iff.mp fieldsBuilt
  rcases nodes : (childRules node .fieldName).getLast? with _ | last
  · have none : childRules node .fieldName = [] := List.getLast?_eq_none_iff.mp nodes
    have stands : content node = some atom := by
      simp only [content, rule, none, found, List.isEmpty_nil, if_true]
    rw [none] at fieldsBuilt
    cases fieldsBuilt
    rw [termShape_of_content stands]
    exact shape_atomExpr inner (wellFormed.child (mem_children_of_firstRule found))
      (mem_childRules.mp (mem_childRules_of_firstRule found)).2 base baseBuilt
  · have some : childRules node .fieldName ≠ [] := by
      intro none
      rw [none] at nodes
      cases nodes
    have missing : content node = none := by simp [content, rule, some]
    obtain ⟨⟨name, finish⟩, lastField, named⟩ := getLast?_of_forall₂ fieldsBuilt nodes
    obtain ⟨front, rfl⟩ := List.getLast?_eq_some_iff.mp lastField
    rw [termShape_of_leaf missing, List.foldl_append]
    simp only [leafShape, rule, nodes, Option.map_some, named]
    rfl

theorem shape_applicationExpr (rule : node.rule = .applicationExpr) :
    BuildsShape (applicationExpr build) node := by
  intro expr built
  obtain ⟨terms, termsBuilt, rest⟩ := outcome_bind_eq_ok.mp built
  have termsBuilt := outcome_mapM_eq_ok.mp termsBuilt
  split at rest
  · cases rest
  · next base args groups =>
      cases rest
      cases nodes : childRules node .postfixExpr with
      | nil =>
          rw [nodes] at termsBuilt
          cases termsBuilt
          cases groups
      | cons first others =>
          rw [nodes] at termsBuilt
          obtain ⟨term, more, firstBuilt, othersBuilt, rfl⟩ :=
            List.forall₂_cons_left_iff.mp termsBuilt
          cases others with
          | nil =>
              have stands : content node = some first := by
                simp only [content, rule, onlyRule_eq_some, nodes]
              have member := mem_childRules.mp (nodes ▸ .head _ : first ∈ childRules node .postfixExpr)
              cases othersBuilt
              cases groups
              rw [termShape_of_content stands]
              exact shape_postfixExpr inner (wellFormed.child member.1) member.2 _ firstBuilt
          | cons second others =>
              have missing : content node = none := by
                simp only [content, rule, onlyRule, nodes]
              obtain ⟨secondTerm, more, _, _, rfl⟩ := List.forall₂_cons_left_iff.mp othersBuilt
              rw [termShape_of_leaf missing]
              simp only [leafShape, rule]
              exact shape_application _ groups

theorem shape_unaryExpr (rule : node.rule = .unaryExpr) : BuildsShape (unaryExpr build) node := by
  intro expr built
  obtain ⟨application, found, rest⟩ := outcome_bind_eq_ok.mp built
  obtain ⟨base, baseBuilt, rest⟩ := outcome_bind_eq_ok.mp rest
  obtain ⟨types, typesBuilt, rest⟩ := outcome_bind_eq_ok.mp rest
  cases rest
  have found := firstRule_of_expectRule found
  have typesBuilt := mapM_eq_ok_iff.mp typesBuilt
  rcases nodes : (childRules node .typeExpr).getLast? with _ | last
  · have none : childRules node .typeExpr = [] := List.getLast?_eq_none_iff.mp nodes
    have stands : content node = some application := by
      simp only [content, rule, none, found, List.isEmpty_nil, if_true]
    rw [none] at typesBuilt
    cases typesBuilt
    rw [termShape_of_content stands]
    exact shape_applicationExpr inner (wellFormed.child (mem_children_of_firstRule found))
      (mem_childRules.mp (mem_childRules_of_firstRule found)).2 base baseBuilt
  · have some : childRules node .typeExpr ≠ [] := by
      intro none
      rw [none] at nodes
      cases nodes
    have missing : content node = none := by simp [content, rule, some]
    obtain ⟨typ, lastType, _⟩ := getLast?_of_forall₂ typesBuilt nodes
    obtain ⟨front, rfl⟩ := List.getLast?_eq_some_iff.mp lastType
    rw [termShape_of_leaf missing, List.foldl_append]
    simp only [leafShape, rule]
    rfl

omit inner wellFormed in
/-- The operands are built from the `UnaryExpr` children, and each `BinaryOp`
child is an operator. -/
theorem operands_of_operandsAndOperators {children : List (Cst RexRule Token)}
    {operands : List Expr} {operators : List BinaryOperator} (rule : RexRule) (span : Span)
    (built : (operandsAndOperators build children).outcome = .ok (operands, operators)) :
    List.Forall₂ (fun child operand => (unaryExpr build child).outcome = .ok operand)
        (childRules ⟨rule, span, children⟩ .unaryExpr) operands ∧
      operators.length = (childRules ⟨rule, span, children⟩ .binaryOp).length := by
  induction children generalizing operands operators with
  | nil =>
      cases built
      exact ⟨.nil, rfl⟩
  | cons child rest hypothesis =>
      cases child with
      | token token => exact hypothesis built
      | node child =>
          rw [operandsAndOperators] at built
          have step : ∀ kind, childRules ⟨rule, span, .node child :: rest⟩ kind =
              (if child.rule = kind then [child] else []) ++ childRules ⟨rule, span, rest⟩ kind := by
            intro kind
            simp only [childRules, List.filterMap_cons]
            by_cases same : child.rule = kind
            · simp only [if_pos same, List.singleton_append]
            · simp only [if_neg same, List.nil_append]
          rw [step, step]
          cases kind : child.rule <;> rw [kind] at built
          case unaryExpr =>
            obtain ⟨operand, operandBuilt, built⟩ := outcome_bind_eq_ok.mp built
            obtain ⟨⟨others, operators⟩, restBuilt, built⟩ := outcome_bind_eq_ok.mp built
            cases built
            obtain ⟨all, count⟩ := hypothesis restBuilt
            exact ⟨.cons operandBuilt all, count⟩
          case binaryOp =>
            obtain ⟨operator, _, built⟩ := outcome_bind_eq_ok.mp built
            obtain ⟨⟨others, operators⟩, restBuilt, built⟩ := outcome_bind_eq_ok.mp built
            cases built
            obtain ⟨all, count⟩ := hypothesis restBuilt
            refine ⟨all, ?_⟩
            simp only [List.length_cons, List.length_append, if_true, List.length_nil, count]
            omega
          all_goals exact hypothesis built

theorem shape_operatorExpr (rule : node.rule = .expr) : BuildsShape (operatorExpr build) node := by
  intro expr built
  obtain ⟨⟨operands, operators⟩, partsBuilt, rest⟩ := outcome_bind_eq_ok.mp built
  obtain ⟨operandsBuilt, count⟩ := operands_of_operandsAndOperators node.rule node.span partsBuilt
  change List.Forall₂ _ (childRules node .unaryExpr) operands at operandsBuilt
  change operators.length = (childRules node .binaryOp).length at count
  dsimp only at rest
  split at rest
  · cases rest
  · next folded foldedEq =>
      split at rest
      · cases rest
      · cases rest
        cases operands with
        | nil => cases foldedEq
        | cons lhs operands =>
            obtain ⟨unary, unaries, lhsBuilt, othersBuilt, nodes⟩ :=
              List.forall₂_cons_right_iff.mp operandsBuilt
            have first : firstRule node .unaryExpr = some unary := by rw [firstRule, nodes]; rfl
            cases foldedEq
            cases parts : operators.zip operands with
            | nil =>
                have alone : ((childRules node .binaryOp).isEmpty ||
                    decide ((childRules node .unaryExpr).length ≤ 1)) = true := by
                  rw [Bool.or_eq_true, List.isEmpty_iff, decide_eq_true_iff, nodes,
                    ← List.length_eq_zero_iff, ← count, List.length_cons, othersBuilt.length_eq]
                  rcases List.zip_eq_nil_iff.mp parts with none | none <;> simp [none]
                have stands : content node = some unary := by
                  simp only [content, rule, alone, if_true, first]
                rw [foldBinaryFrom, termShape_of_content stands]
                have member := mem_childRules.mp (mem_childRules_of_firstRule first)
                exact shape_unaryExpr inner (wellFormed.child member.1) member.2 lhs lhsBuilt
            | cons part more =>
                have both : ¬((childRules node .binaryOp).isEmpty ||
                    decide ((childRules node .unaryExpr).length ≤ 1)) = true := by
                  rw [Bool.or_eq_true, List.isEmpty_iff, decide_eq_true_iff, nodes,
                    ← List.length_eq_zero_iff, ← count, List.length_cons, othersBuilt.length_eq]
                  have shorter := congrArg List.length parts
                  rw [List.length_zip, List.length_cons] at shorter
                  omega
                have missing : content node = none := by
                  simp only [content, rule, if_neg both]
                rw [termShape_of_leaf missing, shape_foldBinaryFrom]
                simp only [leafShape, rule]

end Forms

end RexLang
