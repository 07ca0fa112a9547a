import Mathlib.Data.List.Chain
import RexLang.TermShapes

/-!
# The loop over parenthesised last arguments

The builder takes an application apart from its last argument when that argument
is parenthesised, and goes on inside the parentheses.  This file describes the
way to the last argument, both ways to apply the terms before it, and the loop.
-/

namespace RexLang

open Logged

/-! ## The way to the last argument -/

/-- The nodes between an application and the expression inside the parentheses
of its last argument. -/
structure GroupedTail (node : RexNode) (terms : List RexNode) (tail : RexNode) where
  unary : RexNode
  application : RexNode
  last : RexNode
  atom : RexNode
  paren : RexNode
  grouped : RexNode
  no_operators : childRules node .binaryOp = []
  only_unary : childRules node .unaryExpr = [unary]
  no_types : childRules unary .typeExpr = []
  only_application : childRules unary .applicationExpr = [application]
  terms_eq : childRules application .postfixExpr = terms ++ [last]
  no_fields : childRules last .fieldName = []
  only_atom : childRules last .atomExpr = [atom]
  only_paren : childRules atom .parenExpr = [paren]
  only_grouped : childRules paren .groupedExpr = [grouped]
  only_tail : childRules grouped .expr = [tail]

theorem exists_groupedTail {node tail : RexNode} {terms : List RexNode}
    (taken : groupedTailApplication node = some (terms, tail)) :
    Nonempty (GroupedTail node terms tail) := by
  rw [groupedTailApplication] at taken
  split at taken
  · cases taken
  · next noOperators =>
      obtain ⟨unary, onlyUnary, taken⟩ := Option.bind_eq_some_iff.mp taken
      split at taken
      · cases taken
      · next noTypes =>
          obtain ⟨application, onlyApplication, taken⟩ := Option.bind_eq_some_iff.mp taken
          obtain ⟨last, lastTerm, taken⟩ := Option.bind_eq_some_iff.mp taken
          obtain ⟨inside, found, taken⟩ := Option.bind_eq_some_iff.mp taken
          cases taken
          rw [groupedExprTail] at found
          split at found
          · cases found
          · next noFields =>
              obtain ⟨atom, onlyAtom, found⟩ := Option.bind_eq_some_iff.mp found
              obtain ⟨paren, onlyParen, found⟩ := Option.bind_eq_some_iff.mp found
              obtain ⟨grouped, onlyGrouped, onlyTail⟩ := Option.bind_eq_some_iff.mp found
              refine ⟨unary, application, last, atom, paren, grouped, by simpa using noOperators,
                onlyRule_eq_some.mp onlyUnary, by simpa using noTypes,
                onlyRule_eq_some.mp onlyApplication, ?_, by simpa using noFields,
                onlyRule_eq_some.mp onlyAtom, onlyRule_eq_some.mp onlyParen,
                onlyRule_eq_some.mp onlyGrouped, onlyRule_eq_some.mp onlyTail⟩
              obtain ⟨front, terms⟩ := List.getLast?_eq_some_iff.mp lastTerm
              rw [terms, List.dropLast_concat]

theorem mem_childRules_of_only {node child : RexNode} {rule : RexRule}
    (only : childRules node rule = [child]) : .node child ∈ node.children ∧ child.rule = rule :=
  mem_childRules.mp (only ▸ .head _)

theorem firstRule_of_only {node child : RexNode} {rule : RexRule}
    (only : childRules node rule = [child]) : firstRule node rule = some child := by
  rw [firstRule, only]
  rfl

theorem expectRule_of_only {node child : RexNode} {rule : RexRule}
    (only : childRules node rule = [child]) : expectRule node rule = .ok child := by
  rw [expectRule, firstRule_of_only only]

namespace GroupedTail

variable {node tail : RexNode} {terms : List RexNode} (path : GroupedTail node terms tail)

include path

theorem tail_rule : tail.rule = .expr := (mem_childRules_of_only path.only_tail).2

theorem term_rule {term : RexNode} (member : term ∈ terms ++ [path.last]) :
    term.rule = .postfixExpr := by
  rw [← path.terms_eq] at member
  exact (mem_childRules.mp member).2

section WellFormed

variable (wellFormed : node.WellFormed)

include wellFormed

theorem application_wellFormed : path.application.WellFormed :=
  (wellFormed.child (mem_childRules_of_only path.only_unary).1).child
    (mem_childRules_of_only path.only_application).1

theorem term_wellFormed {term : RexNode} (member : term ∈ terms ++ [path.last]) :
    term.WellFormed := by
  rw [← path.terms_eq] at member
  exact (path.application_wellFormed wellFormed).child (mem_childRules.mp member).1

theorem atom_wellFormed : path.atom.WellFormed :=
  (path.term_wellFormed wellFormed (by simp)).child (mem_childRules_of_only path.only_atom).1

theorem atom_children : path.atom.children = [.node path.paren] := by
  obtain ⟨child, only⟩ := (path.atom_wellFormed wellFormed).atomExpr_children
    (mem_childRules_of_only path.only_atom).2
  have member := (mem_childRules_of_only path.only_paren).1
  rw [only, List.mem_singleton] at member
  rw [only, member]

theorem paren_wellFormed : path.paren.WellFormed :=
  (path.atom_wellFormed wellFormed).child (mem_childRules_of_only path.only_paren).1

theorem paren_children : path.paren.children = [.node path.grouped] := by
  obtain ⟨child, only⟩ := (path.paren_wellFormed wellFormed).parenExpr_children
    (mem_childRules_of_only path.only_paren).2
  have member := (mem_childRules_of_only path.only_grouped).1
  rw [only, List.mem_singleton] at member
  rw [only, member]

theorem tail_wellFormed : tail.WellFormed :=
  ((path.paren_wellFormed wellFormed).child (mem_childRules_of_only path.only_grouped).1).child
    (mem_childRules_of_only path.only_tail).1

/-- The last argument is what is inside its parentheses. -/
theorem outcome_last {build : RexNode → Build Expr} {arg : Expr} :
    (postfixExpr build path.last).outcome = .ok arg ↔
      ∃ inside, (build tail).outcome = .ok inside ∧ arg = inside.withSpan path.grouped.span := by
  have atomOnly := path.atom_children wellFormed
  have parenOnly := path.paren_children wellFormed
  have isParen := (mem_childRules_of_only path.only_paren).2
  have isGrouped := (mem_childRules_of_only path.only_grouped).2
  have atomEq : atomExpr build path.atom = groupedExpr build path.grouped := by
    simp only [atomExpr, firstToken, firstTokenOf, atomOnly, List.findSome?_cons,
      List.findSome?_nil, Option.bind_none, atomForm, firstRule, childRules_of_node atomOnly,
      isParen, if_true, List.head?_cons, parenExpr, expectRule, childRules_of_node parenOnly,
      isGrouped, reduceCtorEq, if_false, List.head?_nil, Option.isSome_none]
    rfl
  rw [postfixExpr, expectRule_of_only path.only_atom, path.no_fields, outcome_bind_eq_ok]
  constructor
  · rintro ⟨atom, found, rest⟩
    cases found
    obtain ⟨base, baseBuilt, rest⟩ := outcome_bind_eq_ok.mp rest
    cases rest
    rw [atomEq] at baseBuilt
    obtain ⟨inside, insideBuilt, rest⟩ := outcome_bind_eq_ok.mp baseBuilt
    obtain ⟨child, found, built⟩ := exprOf_eq_ok.mp insideBuilt
    rw [firstRule_of_only path.only_tail] at found
    cases found
    cases rest
    exact ⟨inside, built, rfl⟩
  · rintro ⟨inside, built, rfl⟩
    refine ⟨path.atom, rfl, outcome_bind_eq_ok.mpr ⟨inside.withSpan path.grouped.span, ?_, rfl⟩⟩
    rw [atomEq]
    have insideBuilt := exprOf_eq_ok.mpr ⟨tail, firstRule_of_only path.only_tail, built⟩
    exact outcome_bind_eq_ok.mpr ⟨inside, insideBuilt, rfl⟩

end WellFormed

end GroupedTail

/-! ## The terms of an application -/

/-- The terms applied to each other, up to spans. -/
def spineOf : List Expr → Expr
  | [] => .hole .default
  | func :: args => applySpine func.resetSpans (args.map Expr.resetSpans)

theorem spineOf_congr {first second : List Expr}
    (same : second.map Expr.resetSpans = first.map Expr.resetSpans) :
    spineOf second = spineOf first := by
  cases first with
  | nil => rw [List.map_eq_nil_iff.mp same]
  | cons func args =>
      obtain ⟨other, others, rfl, sameFunc, sameArgs⟩ := List.map_eq_cons_iff.mp same
      exact congrArg₂ applySpine sameFunc sameArgs

/-- A record literal after the first term is an argument either way. -/
theorem spineOf_groupConstructors (func : Expr) (args : List Expr) :
    spineOf (groupConstructors (func :: args)) = spineOf (func :: groupConstructors args) := by
  cases args with
  | nil => rfl
  | cons fields rest =>
      rw [groupConstructors]
      split
      · next grouped =>
          have isRecord := (Bool.and_eq_true _ _ ▸ grouped).2
          have alone : groupConstructors (fields :: rest) = fields :: groupConstructors rest := by
            cases rest with
            | nil => rfl
            | cons next rest =>
                rw [groupConstructors, if_neg]
                simp [isConstructorReference_of_isDict isRecord]
          rw [alone, spineOf, spineOf, Expr.resetSpans]
          rfl
      · rfl

/-- A constructor reference is not followed by a record literal. -/
def NotGrouped (term next : Expr) : Prop :=
  ¬(isConstructorReference term && isDict next) = true

theorem length_groupConstructors_le (terms : List Expr) :
    (groupConstructors terms).length ≤ terms.length := by
  fun_induction groupConstructors terms with
  | case1 term fields rest grouped hypothesis =>
      simp only [List.length_cons]
      omega
  | case2 term fields rest grouped hypothesis =>
      simp only [List.length_cons] at hypothesis ⊢
      omega
  | case3 terms single => exact Nat.le_refl _

theorem groupConstructors_eq_self_iff (terms : List Expr) :
    (groupConstructors terms).length = terms.length ↔ terms.IsChain NotGrouped := by
  fun_induction groupConstructors terms with
  | case1 term fields rest grouped hypothesis =>
      have shorter := length_groupConstructors_le rest
      rw [List.isChain_cons_cons]
      constructor
      · intro same
        simp only [List.length_cons] at same
        omega
      · rintro ⟨notGrouped, _⟩
        exact absurd grouped notGrouped
  | case2 term fields rest grouped hypothesis =>
      rw [List.isChain_cons_cons, ← hypothesis, List.length_cons, List.length_cons]
      constructor
      · intro same
        exact ⟨grouped, by omega⟩
      · rintro ⟨_, same⟩
        omega
  | case3 terms single =>
      match terms, single with
      | [], _ => simp
      | [term], _ => simp
      | term :: fields :: rest, single => exact absurd rfl (single term fields rest)

theorem groupConstructors_of_isChain {terms : List Expr} (chain : terms.IsChain NotGrouped) :
    groupConstructors terms = terms := by
  fun_induction groupConstructors terms with
  | case1 term fields rest grouped hypothesis =>
      exact absurd grouped (List.isChain_cons_cons.mp chain).1
  | case2 term fields rest grouped hypothesis =>
      rw [hypothesis (List.isChain_cons_cons.mp chain).2]
  | case3 terms single => rfl

/-- The number of arguments that an expression is applied to. -/
def argumentCount : Expr → Nat
  | .app _ func _ => argumentCount func + 1
  | _ => 0

theorem argumentCount_applySpine (func : Expr) (args : List Expr) :
    argumentCount (applySpine func args) = argumentCount func + args.length := by
  induction args generalizing func with
  | nil => rfl
  | cons arg args hypothesis =>
      change argumentCount (applySpine (.app .default func arg) args) = _
      rw [hypothesis, argumentCount, List.length_cons]
      omega

/-- The grouping of the terms is visible in the tree exactly when it happens
after the first term. -/
theorem spineOf_eq_iff (func : Expr) (args : List Expr) :
    spineOf (func :: args) = spineOf (groupConstructors (func :: args)) ↔
      args.IsChain NotGrouped := by
  rw [spineOf_groupConstructors]
  constructor
  · intro same
    have counts := congrArg argumentCount same
    rw [spineOf, spineOf, argumentCount_applySpine, argumentCount_applySpine, List.length_map,
      List.length_map] at counts
    rw [← groupConstructors_eq_self_iff]
    omega
  · intro chain
    rw [groupConstructors_of_isChain chain]

/-! ## Both ways to build -/

theorem foldBinaryExpr_singleton (operand : Expr) : foldBinaryExpr [operand] [] = some operand := by
  rw [foldBinaryExpr, List.zip_nil_left, foldBinaryFrom]

namespace GroupedTail

variable {node tail : RexNode} {terms : List RexNode} (path : GroupedTail node terms tail)
  {build : RexNode → Build Expr}

include path

/-- What the forms of the rule build for an application. -/
theorem operatorExpr_eq_ok {ordinary : Expr}
    (built : (operatorExpr build node).outcome = .ok ordinary) :
    ∃ args, List.Forall₂ (fun term arg => (postfixExpr build term).outcome = .ok arg)
      (terms ++ [path.last]) args ∧ ordinary.resetSpans = spineOf (groupConstructors args) := by
  obtain ⟨⟨operands, operators⟩, partsBuilt, rest⟩ := outcome_bind_eq_ok.mp built
  obtain ⟨operandsBuilt, count⟩ := operands_of_operandsAndOperators node.rule node.span partsBuilt
  change List.Forall₂ _ (childRules node .unaryExpr) operands at operandsBuilt
  change operators.length = (childRules node .binaryOp).length at count
  rw [path.no_operators, List.length_nil, List.length_eq_zero_iff] at count
  rw [path.only_unary] at operandsBuilt
  obtain ⟨operand, others, unaryBuilt, none, rfl⟩ := List.forall₂_cons_left_iff.mp operandsBuilt
  cases none
  subst count
  dsimp only at rest
  rw [foldBinaryExpr_singleton] at rest
  cases rest
  obtain ⟨application, found, rest⟩ := outcome_bind_eq_ok.mp unaryBuilt
  rw [expectRule_of_only path.only_application] at found
  cases found
  obtain ⟨base, baseBuilt, rest⟩ := outcome_bind_eq_ok.mp rest
  rw [path.no_types] at rest
  cases rest
  obtain ⟨args, argsBuilt, rest⟩ := outcome_bind_eq_ok.mp baseBuilt
  have argsBuilt := outcome_mapM_eq_ok.mp argsBuilt
  rw [path.terms_eq] at argsBuilt
  refine ⟨args, argsBuilt, ?_⟩
  split at rest
  · cases rest
  · next func others groups =>
      cases rest
      rw [groups, List.reverse_nil, List.foldl_nil, resetSpans_foldl_app, spineOf]

omit path in
/-- What the loop builds for an application whose last argument is built. -/
theorem applyApplicationGroup_eq_ok {args : List Expr} (last : Expr)
    (built : List.Forall₂ (fun term arg => (postfixExpr build term).outcome = .ok arg) terms args) :
    ∃ expr, (applyApplicationGroup build terms last).outcome = .ok expr ∧
      expr.resetSpans = spineOf (args ++ [last]) := by
  cases built with
  | nil => exact ⟨last, rfl, rfl⟩
  | @cons term func terms args funcBuilt argsBuilt =>
      have argsBuilt := outcome_mapM_eq_ok.mpr argsBuilt
      have looped := foldlM_eq_mapM_foldl (postfixExpr build) (fun applied arg =>
        .app (.fromBeginEnd func.span.begin arg.span.end) applied arg) terms func
      refine ⟨.app (.fromBeginEnd func.span.begin last.span.end) (args.foldl (fun applied arg =>
        .app (.fromBeginEnd func.span.begin arg.span.end) applied arg) func) last, ?_, ?_⟩
      · rw [applyApplicationGroup, outcome_bind_eq_ok]
        refine ⟨func, funcBuilt, ?_⟩
        rw [looped, outcome_bind_eq_ok]
        exact ⟨_, outcome_bind_eq_ok.mpr ⟨args, argsBuilt, rfl⟩, rfl⟩
      · rw [Expr.resetSpans, resetSpans_foldl_app, List.cons_append, spineOf, List.map_append,
          applySpine_append]
        rfl

end GroupedTail

/-! ## The loop -/

theorem peelGroupedTail_of_none {depth : Nat} {node : RexNode}
    (notTaken : groupedTailApplication node = none) :
    peelGroupedTail depth node = .ok ([], node) := by
  rw [peelGroupedTail, notTaken]

/-- The step that an application adds to the loop. -/
def stepOf (node : RexNode) (terms : List RexNode) : GroupedApplicationStep :=
  if terms.isEmpty then .span node.span else .apply terms node.span

theorem peelGroupedTail_of_some {depth : Nat} {node tail : RexNode} {terms : List RexNode}
    (taken : groupedTailApplication node = some (terms, tail)) :
    peelGroupedTail (depth + 1) node = do
      let (steps, innermost) ← peelGroupedTail depth tail
      return (stepOf node terms :: steps, innermost) := by
  rw [peelGroupedTail, taken]
  rfl

/-- One round of a loop that ends. -/
theorem cases_of_peelGroupedTail {depth : Nat} {node innermost : RexNode}
    {steps : List GroupedApplicationStep}
    (peeled : peelGroupedTail depth node = .ok (steps, innermost)) :
    (groupedTailApplication node = none ∧ steps = [] ∧ innermost = node) ∨
      ∃ left terms tail others, depth = left + 1 ∧
        groupedTailApplication node = some (terms, tail) ∧
        peelGroupedTail left tail = .ok (others, innermost) ∧
        steps = stepOf node terms :: others := by
  cases taken : groupedTailApplication node with
  | none =>
      rw [peelGroupedTail_of_none taken] at peeled
      cases peeled
      exact .inl ⟨rfl, rfl, rfl⟩
  | some pair =>
      obtain ⟨terms, tail⟩ := pair
      cases depth with
      | zero =>
          rw [peelGroupedTail, taken] at peeled
          cases peeled
      | succ left =>
          rw [peelGroupedTail_of_some taken] at peeled
          cases inside : peelGroupedTail left tail with
          | error error =>
              rw [inside] at peeled
              cases peeled
          | ok rest =>
              rw [inside] at peeled
              cases peeled
              exact .inr ⟨left, terms, tail, rest.1, rfl, rfl, inside, rfl⟩

/-- More levels do not change a loop that ends. -/
theorem peelGroupedTail_succ {depth : Nat} {node innermost : RexNode}
    {steps : List GroupedApplicationStep}
    (peeled : peelGroupedTail depth node = .ok (steps, innermost)) :
    peelGroupedTail (depth + 1) node = .ok (steps, innermost) := by
  induction depth generalizing node steps with
  | zero =>
      rcases cases_of_peelGroupedTail peeled with ⟨notTaken, rfl, rfl⟩ | ⟨left, _, _, _, zero, _⟩
      · exact peelGroupedTail_of_none notTaken
      · omega
  | succ depth hypothesis =>
      rcases cases_of_peelGroupedTail peeled with
        ⟨notTaken, rfl, rfl⟩ | ⟨left, terms, tail, others, same, taken, inside, rfl⟩
      · exact peelGroupedTail_of_none notTaken
      · cases same
        rw [peelGroupedTail_of_some taken, hypothesis inside]
        rfl

theorem peelGroupedTail_rule {depth : Nat} {node innermost : RexNode}
    {steps : List GroupedApplicationStep} (rule : node.rule = .expr)
    (peeled : peelGroupedTail depth node = .ok (steps, innermost)) : innermost.rule = .expr := by
  induction depth generalizing node steps with
  | zero =>
      rcases cases_of_peelGroupedTail peeled with ⟨_, _, rfl⟩ | ⟨left, _, _, _, zero, _⟩
      · exact rule
      · omega
  | succ depth hypothesis =>
      rcases cases_of_peelGroupedTail peeled with
        ⟨_, _, rfl⟩ | ⟨left, terms, tail, others, same, taken, inside, _⟩
      · exact rule
      · cases same
        obtain ⟨path⟩ := exists_groupedTail taken
        exact hypothesis path.tail_rule inside

/-- The second loop of `try_grouped_tail_application_expr`. -/
def runSteps (build : RexNode → Build Expr) (steps : List GroupedApplicationStep) (tail : Expr) :
    Build Expr :=
  steps.reverse.foldlM (fun tail step => step.run build tail) tail

theorem runSteps_cons (build : RexNode → Build Expr) (step : GroupedApplicationStep)
    (steps : List GroupedApplicationStep) (tail : Expr) :
    runSteps build (step :: steps) tail =
      runSteps build steps tail >>= fun tail => step.run build tail := by
  rw [runSteps, List.reverse_cons, List.foldlM_append]
  simp only [List.foldlM_cons, List.foldlM_nil, bind_pure]
  rfl

/-! ## More levels -/

section Simulates

variable {first second : RexNode → Build Expr} (simulates : Simulates (fun _ => True) first second)

include simulates

theorem refines_applyApplicationGroup (terms : List RexNode) {tail other : Expr}
    (same : other.resetSpans = tail.resetSpans) :
    Refines Expr.resetSpans (applyApplicationGroup first terms tail)
      (applyApplicationGroup second terms other) := by
  cases terms with
  | nil => exact refines_pure same
  | cons term terms =>
      apply refines_bind (simulates.postfixExpr trivial)
      intro base otherBase sameBase
      refine refines_bind (refines_foldlM (fun term _ func otherFunc sameFunc => ?_) sameBase) ?_
      · apply refines_bind (simulates.postfixExpr trivial)
        intro arg otherArg sameArg
        apply refines_pure
        rw [Expr.resetSpans, Expr.resetSpans, sameFunc, sameArg]
      · intro func otherFunc sameFunc
        apply refines_pure
        rw [Expr.resetSpans, Expr.resetSpans, sameFunc, same]

theorem refines_runSteps (steps : List GroupedApplicationStep) {tail other : Expr}
    (same : other.resetSpans = tail.resetSpans) :
    Refines Expr.resetSpans (runSteps first steps tail) (runSteps second steps other) := by
  refine refines_foldlM (fun step _ func otherFunc sameFunc => ?_) same
  cases step with
  | span whole =>
      apply refines_pure
      rw [resetSpans_withSpan, resetSpans_withSpan, sameFunc]
  | apply terms whole =>
      apply refines_bind (refines_applyApplicationGroup simulates terms sameFunc)
      intro expr otherExpr sameExpr
      apply refines_pure
      rw [resetSpans_withSpan, resetSpans_withSpan, sameExpr]

end Simulates

/-- The result of `try_grouped_tail_application_expr`. -/
theorem tryGroupedTailApplicationExpr_eq_ok {build : RexNode → Build Expr} {depth : Nat}
    {node : RexNode} {result : Option Expr} :
    (tryGroupedTailApplicationExpr build depth node).outcome = .ok result ↔
      (result = none ∧ groupedTailApplication node = none) ∨
        ∃ steps innermost tail expr, peelGroupedTail depth node = .ok (steps, innermost) ∧
          steps ≠ [] ∧ (build innermost).outcome = .ok tail ∧
          (runSteps build steps tail).outcome = .ok expr ∧ result = some expr := by
  rw [tryGroupedTailApplicationExpr, outcome_bind_eq_ok]
  constructor
  · rintro ⟨⟨steps, innermost⟩, peeled, rest⟩
    change peelGroupedTail depth node = .ok (steps, innermost) at peeled
    cases steps with
    | nil =>
        cases rest
        rcases cases_of_peelGroupedTail peeled with ⟨notTaken, _⟩ | ⟨_, _, _, _, _, _, _, absurd⟩
        · exact .inl ⟨rfl, notTaken⟩
        · cases absurd
    | cons step steps =>
        obtain ⟨tail, tailBuilt, rest⟩ := outcome_bind_eq_ok.mp rest
        obtain ⟨expr, exprBuilt, rest⟩ := outcome_bind_eq_ok.mp rest
        cases rest
        exact .inr ⟨step :: steps, innermost, tail, expr, peeled, List.cons_ne_nil _ _, tailBuilt,
          exprBuilt, rfl⟩
  · rintro (⟨rfl, notTaken⟩ | ⟨steps, innermost, tail, expr, peeled, some, tailBuilt, ran, rfl⟩)
    · exact ⟨([], node), peelGroupedTail_of_none notTaken, rfl⟩
    · cases steps with
      | nil => exact absurd rfl some
      | cons step steps =>
          refine ⟨(step :: steps, innermost), peeled, ?_⟩
          exact outcome_bind_eq_ok.mpr ⟨tail, tailBuilt,
            outcome_bind_eq_ok.mpr ⟨expr, ran, rfl⟩⟩

theorem refines_expr_succ (depth : Nat) :
    Simulates (fun _ => True) (expr depth) (expr (depth + 1)) where
  closed _ _ := trivial
  refines {node} _ rule := by
    induction depth generalizing node with
    | zero => exact refines_fail _ _
    | succ depth hypothesis =>
        have simulates : Simulates (fun _ => True) (expr depth) (expr (depth + 1)) :=
          ⟨fun _ _ => trivial, fun _ => hypothesis⟩
        intro result built
        rw [expr] at built ⊢
        obtain ⟨grouped, tried, rest⟩ := outcome_bind_eq_ok.mp built
        rcases tryGroupedTailApplicationExpr_eq_ok.1 tried with ⟨rfl, notTaken⟩ |
          ⟨steps, innermost, tail, inside, peeled, some, tailBuilt, ran, rfl⟩
        · obtain ⟨other, otherBuilt, same⟩ := simulates.operatorExpr trivial result rest
          exact ⟨other, outcome_bind_eq_ok.mpr
            ⟨none, tryGroupedTailApplicationExpr_eq_ok.2 (.inl ⟨rfl, notTaken⟩), otherBuilt⟩, same⟩
        · cases rest
          obtain ⟨otherTail, otherBuilt, sameTail⟩ :=
            hypothesis (peelGroupedTail_rule rule peeled) tail tailBuilt
          obtain ⟨other, otherRan, same⟩ :=
            refines_runSteps simulates steps sameTail result ran
          have otherTried := tryGroupedTailApplicationExpr_eq_ok.2 (.inr ⟨steps, innermost,
            otherTail, other, peelGroupedTail_succ peeled, some, otherBuilt, otherRan, rfl⟩)
          exact ⟨other, outcome_bind_eq_ok.mpr ⟨_, otherTried, rfl⟩, same⟩

/-! ## Shapes of expressions -/

namespace GroupedTail

variable {node tail : RexNode} {terms : List RexNode} (path : GroupedTail node terms tail)

include path

theorem termShape_application (rule : node.rule = .expr) :
    termShape node = termShape path.application := by
  have isUnary := (mem_childRules_of_only path.only_unary).2
  have toUnary : content node = some path.unary := by
    simp [content, rule, path.no_operators, firstRule_of_only path.only_unary]
  have toApplication : content path.unary = some path.application := by
    simp [content, isUnary, path.no_types, firstRule_of_only path.only_application]
  rw [termShape_of_content toUnary, termShape_of_content toApplication]

theorem termShape_last (wellFormed : node.WellFormed) : termShape path.last = termShape tail := by
  have isLast := (mem_childRules_of_only path.only_atom).2
  have toAtom : content path.last = some path.atom := by
    simp [content, path.term_rule (List.mem_append_right _ (.head _)), path.no_fields,
      firstRule_of_only path.only_atom]
  have toParen : content path.atom = some path.paren := by
    simp only [content, isLast, onlyNode, path.atom_children wellFormed]
  have toGrouped : content path.paren = some path.grouped := by
    simp only [content, (mem_childRules_of_only path.only_paren).2, onlyNode,
      path.paren_children wellFormed]
  have toTail : content path.grouped = some tail := by
    simp only [content, (mem_childRules_of_only path.only_grouped).2,
      firstRule_of_only path.only_tail]
  rw [termShape_of_content toAtom, termShape_of_content toParen, termShape_of_content toGrouped,
    termShape_of_content toTail]

/-- A step of the loop keeps the shape that its node has. -/
theorem shape_step (rule : node.rule = .expr) (wellFormed : node.WellFormed)
    {build : RexNode → Build Expr} {inside expr : Expr} (shape : inside.shape = termShape tail)
    (ran : ((stepOf node terms).run build inside).outcome = .ok expr) :
    expr.shape = termShape node := by
  have isApplication := (mem_childRules_of_only path.only_application).2
  rw [path.termShape_application rule]
  cases terms with
  | nil =>
      cases ran
      have toLast : content path.application = some path.last := by
        simp only [content, isApplication, onlyRule_eq_some, path.terms_eq, List.nil_append]
      rw [shape_withSpan, shape, termShape_of_content toLast, path.termShape_last wellFormed]
  | cons term terms =>
      have missing : content path.application = none := by
        cases terms <;> simp [content, isApplication, onlyRule, path.terms_eq]
      rw [termShape_of_leaf missing]
      simp only [leafShape, isApplication]
      obtain ⟨applied, appliedBuilt, rest⟩ := outcome_bind_eq_ok.mp ran
      obtain ⟨func, _, appliedBuilt⟩ := outcome_bind_eq_ok.mp appliedBuilt
      obtain ⟨args, _, appliedBuilt⟩ := outcome_bind_eq_ok.mp appliedBuilt
      cases appliedBuilt
      cases rest
      rfl

end GroupedTail

theorem shape_runSteps {depth : Nat} {node innermost : RexNode}
    {steps : List GroupedApplicationStep} (rule : node.rule = .expr) (wellFormed : node.WellFormed)
    (peeled : peelGroupedTail depth node = .ok (steps, innermost)) :
    innermost.WellFormed ∧ ∀ {build tail expr}, tail.shape = termShape innermost →
      (runSteps build steps tail).outcome = .ok expr → expr.shape = termShape node := by
  induction depth generalizing node steps with
  | zero =>
      rcases cases_of_peelGroupedTail peeled with ⟨_, rfl, rfl⟩ | ⟨left, _, _, _, zero, _⟩
      · refine ⟨wellFormed, fun shape ran => ?_⟩
        cases ran
        exact shape
      · omega
  | succ depth hypothesis =>
      rcases cases_of_peelGroupedTail peeled with
        ⟨_, rfl, rfl⟩ | ⟨left, terms, tail, others, same, taken, inside, rfl⟩
      · refine ⟨wellFormed, fun shape ran => ?_⟩
        cases ran
        exact shape
      · cases same
        obtain ⟨path⟩ := exists_groupedTail taken
        obtain ⟨below, rest⟩ :=
          hypothesis path.tail_rule (path.tail_wellFormed wellFormed) inside
        refine ⟨below, fun shape ran => ?_⟩
        rw [runSteps_cons] at ran
        obtain ⟨expr, exprRan, stepRan⟩ := outcome_bind_eq_ok.mp ran
        exact path.shape_step rule wellFormed (rest shape exprRan) stepRan

theorem shape_expr (depth : Nat) {node : RexNode} (wellFormed : node.WellFormed)
    (rule : node.rule = .expr) : BuildsShape (expr depth) node := by
  induction depth generalizing node with
  | zero =>
      intro result built
      cases built
  | succ depth hypothesis =>
      intro result built
      rw [expr] at built
      obtain ⟨grouped, tried, rest⟩ := outcome_bind_eq_ok.mp built
      rcases tryGroupedTailApplicationExpr_eq_ok.1 tried with ⟨rfl, notTaken⟩ |
        ⟨steps, innermost, tail, inside, peeled, some, tailBuilt, ran, rfl⟩
      · exact shape_operatorExpr hypothesis wellFormed rule result rest
      · cases rest
        obtain ⟨below, shape⟩ := shape_runSteps rule wellFormed peeled
        exact shape (hypothesis below (peelGroupedTail_rule rule peeled) tail tailBuilt) ran

end RexLang
