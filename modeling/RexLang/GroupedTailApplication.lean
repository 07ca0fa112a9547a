import RexLang.GroupedTailLoop

/-!
# Applications with a parenthesised last argument

The loop over parenthesised last arguments against the forms of the rule.  Both
build the same expression up to spans exactly when no argument of the
application is a constructor reference followed by a record literal.
-/

namespace RexLang

open Logged

/-! ## The comparison -/

theorem exists_concat_of_forall₂ {First Second : Type} {related : First → Second → Prop}
    {front : List First} {last : First} {seconds : List Second}
    (all : List.Forall₂ related (front ++ [last]) seconds) :
    ∃ others second, List.Forall₂ related front others ∧ related last second ∧
      seconds = others ++ [second] := by
  induction front generalizing seconds with
  | nil =>
      obtain ⟨second, rest, holds, none, rfl⟩ := List.forall₂_cons_left_iff.mp all
      cases none
      exact ⟨[], second, .nil, holds, rfl⟩
  | cons first front hypothesis =>
      obtain ⟨head, rest, holds, tail, rfl⟩ := List.forall₂_cons_left_iff.mp all
      obtain ⟨others, second, more, lastHolds, rfl⟩ := hypothesis tail
      exact ⟨head :: others, second, .cons holds more, lastHolds, rfl⟩

/-- The loop goes through an expression that the builder builds, and with the
levels that are left for it. -/
theorem exists_runSteps {depth : Nat} {node : RexNode} {result : Expr} (rule : node.rule = .expr)
    (built : (expr depth node).outcome = .ok result) :
    ∃ left steps innermost inside other, depth = left + 1 ∧
      peelGroupedTail left node = .ok (steps, innermost) ∧
      (expr depth innermost).outcome = .ok inside ∧
      (runSteps (expr depth) steps inside).outcome = .ok other ∧
      other.resetSpans = result.resetSpans := by
  cases depth with
  | zero => cases built
  | succ left =>
      have unfolded := built
      rw [expr] at unfolded
      obtain ⟨grouped, tried, rest⟩ := outcome_bind_eq_ok.mp unfolded
      rcases tryGroupedTailApplicationExpr_eq_ok.mp tried with ⟨_, notTaken⟩ |
        ⟨steps, innermost, tail, inside, peeled, _, tailBuilt, ran, rfl⟩
      · exact ⟨left, [], node, result, result, rfl, peelGroupedTail_of_none notTaken, built, rfl, rfl⟩
      · cases rest
        have simulates := refines_expr_succ left
        obtain ⟨otherTail, otherBuilt, sameTail⟩ :=
          simulates.refines trivial (peelGroupedTail_rule rule peeled) tail tailBuilt
        obtain ⟨other, otherRan, same⟩ := refines_runSteps simulates steps sameTail _ ran
        exact ⟨left, steps, innermost, otherTail, other, rfl, peeled, otherBuilt, otherRan, same⟩

/-- When the forms of the rule build an application, so does the loop, from the
same terms. -/
theorem GroupedTail.exists_grouped {depth : Nat} {node tail : RexNode} {terms : List RexNode}
    (path : GroupedTail node terms tail) (wellFormed : node.WellFormed)
    (taken : groupedTailApplication node = some (terms, tail)) {ordinary : Expr}
    (built : (operatorExpr (expr depth) node).outcome = .ok ordinary) :
    ∃ grouped args,
      (tryGroupedTailApplicationExpr (expr depth) depth node).outcome = .ok (some grouped) ∧
      List.Forall₂ (fun term arg => (postfixExpr (expr depth) term).outcome = .ok arg)
        (terms ++ [path.last]) args ∧
      grouped.resetSpans = spineOf args ∧
      ordinary.resetSpans = spineOf (groupConstructors args) := by
  obtain ⟨args, argsBuilt, ordinaryEq⟩ := path.operatorExpr_eq_ok built
  obtain ⟨front, last, frontBuilt, lastBuilt, rfl⟩ := exists_concat_of_forall₂ argsBuilt
  obtain ⟨result, resultBuilt, rfl⟩ := (path.outcome_last wellFormed).mp lastBuilt
  obtain ⟨left, steps, innermost, inside, other, rfl, peeled, insideBuilt, ran, same⟩ :=
    exists_runSteps path.tail_rule resultBuilt
  obtain ⟨applied, appliedBuilt, appliedEq⟩ := applyApplicationGroup_eq_ok other frontBuilt
  have looped : ∃ grouped, ((stepOf node terms).run (expr (left + 1)) other).outcome = .ok grouped ∧
      grouped.resetSpans = applied.resetSpans := by
    cases terms with
    | nil =>
        cases appliedBuilt
        exact ⟨other.withSpan node.span, rfl, resetSpans_withSpan _ _⟩
    | cons term terms =>
        exact ⟨applied.withSpan node.span, outcome_bind_eq_ok.mpr ⟨applied, appliedBuilt, rfl⟩,
          resetSpans_withSpan _ _⟩
  obtain ⟨grouped, groupedRan, groupedEq⟩ := looped
  refine ⟨grouped, front ++ [result.withSpan path.grouped.span], ?_, argsBuilt, ?_, ordinaryEq⟩
  · rw [tryGroupedTailApplicationExpr_eq_ok]
    refine .inr ⟨stepOf node terms :: steps, innermost, inside, grouped, ?_, List.cons_ne_nil _ _,
      insideBuilt, ?_, rfl⟩
    · rw [peelGroupedTail_of_some taken, peeled]
      rfl
    · rw [runSteps_cons]
      exact outcome_bind_eq_ok.mpr ⟨other, ran, groupedRan⟩
  · rw [groupedEq, appliedEq]
    apply spineOf_congr
    rw [List.map_append, List.map_append, List.map_singleton, List.map_singleton,
      resetSpans_withSpan, same]

/-- The terms of the application that an expression consists of. -/
def applicationTerms (node : RexNode) : List RexNode :=
  match (onlyRule node .unaryExpr).bind (onlyRule · .applicationExpr) with
  | some application => childRules application .postfixExpr
  | none => []

/-- No argument of the application is a constructor reference with a record
literal after it. -/
def KeepsConstructors (node : RexNode) : Prop :=
  ((applicationTerms node).tail.map termShape).IsChain fun term next =>
    ¬(term = .constructor ∧ next = .record)

instance (node : RexNode) : Decidable (KeepsConstructors node) :=
  inferInstanceAs (Decidable (List.IsChain _ _))

theorem shape_eq_constructor {expr : Expr} :
    expr.shape = .constructor ↔ isConstructorReference expr = true := by
  rw [Expr.shape]
  split
  · next constructor => simp [constructor]
  · next notConstructor =>
      split <;> simp [notConstructor]

theorem shape_eq_record {expr : Expr} : expr.shape = .record ↔ isDict expr = true := by
  rw [Expr.shape]
  split
  · next constructor =>
      constructor
      · intro absurd
        cases absurd
      · intro dict
        rw [isConstructorReference_of_isDict dict] at constructor
        cases constructor
  · split
    · next dict => simp [dict]
    · next notDict => simp [notDict]

theorem GroupedTail.keepsConstructors_iff {depth : Nat} {node tail : RexNode}
    {terms : List RexNode} (path : GroupedTail node terms tail) (wellFormed : node.WellFormed)
    {args : List Expr}
    (built : List.Forall₂ (fun term arg => (postfixExpr (expr depth) term).outcome = .ok arg)
      (terms ++ [path.last]) args) :
    KeepsConstructors node ↔ args.tail.IsChain NotGrouped := by
  have shapes : (terms ++ [path.last]).map termShape = args.map Expr.shape := by
    have below : ∀ term ∈ terms ++ [path.last], term.WellFormed ∧ term.rule = .postfixExpr :=
      fun term member => ⟨path.term_wellFormed wellFormed member, path.term_rule member⟩
    generalize terms ++ [path.last] = all at built below
    induction built with
    | nil => rfl
    | @cons term arg all args termBuilt _ hypothesis =>
        obtain ⟨termWellFormed, rule⟩ := below term (.head _)
        rw [List.map_cons, List.map_cons, hypothesis fun other member => below other (.tail _ member)]
        congr 1
        exact (shape_postfixExpr (fun {child} => shape_expr depth) termWellFormed rule arg
          termBuilt).symm
  have found : applicationTerms node = terms ++ [path.last] := by
    rw [applicationTerms, onlyRule_eq_some.mpr path.only_unary, Option.bind_some,
      onlyRule_eq_some.mpr path.only_application]
    exact path.terms_eq
  rw [KeepsConstructors, found, List.map_tail, shapes, ← List.map_tail, List.isChain_map]
  simp only [shape_eq_constructor, shape_eq_record, ← Bool.and_eq_true]
  rfl

/-- What the loop builds for an application, against what the forms of its rule
build. -/
theorem exists_same_iff {depth : Nat} {node : RexNode} {ordinary : Expr}
    (wellFormed : node.WellFormed) (taken : (groupedTailApplication node).isSome)
    (built : (operatorExpr (expr depth) node).outcome = .ok ordinary) :
    ∃ grouped,
      (tryGroupedTailApplicationExpr (expr depth) depth node).outcome = .ok (some grouped) ∧
      (grouped.resetSpans = ordinary.resetSpans ↔ KeepsConstructors node) := by
  obtain ⟨⟨terms, tail⟩, taken⟩ := Option.isSome_iff_exists.mp taken
  obtain ⟨path⟩ := exists_groupedTail taken
  obtain ⟨grouped, args, groupedBuilt, argsBuilt, groupedEq, ordinaryEq⟩ :=
    path.exists_grouped wellFormed taken built
  refine ⟨grouped, groupedBuilt, ?_⟩
  rw [path.keepsConstructors_iff wellFormed argsBuilt, groupedEq, ordinaryEq]
  cases args with
  | nil =>
      have lengths := argsBuilt.length_eq
      rw [List.length_append, List.length_singleton, List.length_nil] at lengths
      omega
  | cons func args => exact spineOf_eq_iff func args

/-! ## Whole trees -/

/-- The builder without the loop: every expression goes through the forms of its
rule. -/
def ordinaryExpr : Nat → RexNode → Build Expr
  | 0, node => .fail (maximumDepthExceeded node.span)
  | depth + 1, node => operatorExpr (ordinaryExpr depth) node

/-- The condition holds at every application that the loop takes apart. -/
inductive KeepsWithin : RexNode → Prop where
  | intro {node} (here : (groupedTailApplication node).isSome → KeepsConstructors node)
      (children : ∀ child, .node child ∈ node.children → KeepsWithin child) : KeepsWithin node

theorem simulates_ordinaryExpr (depth : Nat) :
    Simulates (fun node => node.WellFormed ∧ KeepsWithin node) (ordinaryExpr depth)
      (expr depth) where
  closed good member := by
    obtain ⟨wellFormed, ⟨_, children⟩⟩ := good
    exact ⟨wellFormed.child member, children _ member⟩
  refines {node} good rule := by
    induction depth generalizing node with
    | zero => exact refines_fail _ _
    | succ depth hypothesis =>
        have simulates : Simulates (fun node => node.WellFormed ∧ KeepsWithin node)
            (ordinaryExpr depth) (expr depth) := by
          refine ⟨fun {node child} good member => ?_, hypothesis⟩
          obtain ⟨wellFormed, ⟨_, children⟩⟩ := good
          exact ⟨wellFormed.child member, children _ member⟩
        intro result built
        rw [ordinaryExpr] at built
        obtain ⟨other, otherBuilt, same⟩ := simulates.operatorExpr good result built
        obtain ⟨wellFormed, ⟨here, _⟩⟩ := good
        rw [expr]
        cases taken : groupedTailApplication node with
        | none =>
            exact ⟨other, outcome_bind_eq_ok.mpr ⟨none,
              tryGroupedTailApplicationExpr_eq_ok.mpr (.inl ⟨rfl, taken⟩), otherBuilt⟩, same⟩
        | some pair =>
            have isTaken : (groupedTailApplication node).isSome := by rw [taken]; rfl
            obtain ⟨grouped, groupedBuilt, sameIff⟩ := exists_same_iff wellFormed isTaken otherBuilt
            exact ⟨grouped, outcome_bind_eq_ok.mpr ⟨some grouped, groupedBuilt, rfl⟩,
              (sameIff.mpr (here isTaken)).trans same⟩

/-- Where the loop takes an application apart, it builds what the forms of the
rule build exactly when no constructor argument has its record literal after it.
A tree where that holds throughout is built as it is without the loop. -/
theorem groupedTail_agrees_iff (depth : Nat) {node : RexNode} (wellFormed : node.WellFormed)
    (rule : node.rule = .expr) :
    ((groupedTailApplication node).isSome → ∀ ordinary,
      (operatorExpr (expr depth) node).outcome = .ok ordinary → ∃ grouped,
        (tryGroupedTailApplicationExpr (expr depth) depth node).outcome = .ok (some grouped) ∧
        (grouped.resetSpans = ordinary.resetSpans ↔ KeepsConstructors node)) ∧
    (KeepsWithin node → ∀ ordinary, (ordinaryExpr depth node).outcome = .ok ordinary →
      ∃ built, (expr depth node).outcome = .ok built ∧
        built.resetSpans = ordinary.resetSpans) := by
  constructor
  · exact fun taken ordinary built => exists_same_iff wellFormed taken built
  · intro keeps ordinary built
    exact (simulates_ordinaryExpr depth).refines ⟨wellFormed, keeps⟩ rule ordinary built

/-! ## Two applications -/

/-- A node whose span is left open. -/
def nodeOf (rule : RexRule) (children : List (Cst RexRule Token)) : RexNode :=
  ⟨rule, .default, children⟩

def tokenOf (kind : TokenKind) : Cst RexRule Token :=
  .token ⟨kind, .default⟩

def atomTerm (form : RexNode) : RexNode :=
  nodeOf .postfixExpr [.node (nodeOf .atomExpr [.node form])]

/-- A name as a term. -/
def nameTerm (name : String) : RexNode :=
  atomTerm (nodeOf .identExpr [tokenOf (.ident name)])

/-- The empty record literal as a term. -/
def emptyRecordTerm : RexNode :=
  atomTerm (nodeOf .braceExpr [.node (nodeOf .dictExpr [tokenOf .braceL, tokenOf .braceR])])

def parenTerm (inner : RexNode) : RexNode :=
  atomTerm (nodeOf .parenExpr
    [.node (nodeOf .groupedExpr [tokenOf .parenL, .node inner, tokenOf .parenR])])

def applicationOf (terms : List RexNode) : RexNode :=
  nodeOf .expr [.node (nodeOf .unaryExpr [.node (nodeOf .applicationExpr (terms.map .node))])]

theorem yields_rule {rule : RexRule} {node : RexNode} (same : node.rule = rule) :
    (Peg.rule rule).Yields Terminal.matches [Cst.node node] := by
  rw [← same]
  exact .rule node

theorem yields_repeat_guarded {guard : Peg RexRule Terminal} {rule : RexRule}
    {nodes : List RexNode} (same : ∀ node ∈ nodes, node.rule = rule) :
    (Peg.repeat (.seq [.and guard, .cut (.rule rule)])).Yields Terminal.matches
      (nodes.map Cst.node) := by
  induction nodes with
  | nil => exact .repeatNil _
  | cons node nodes hypothesis =>
      have rest := hypothesis fun other member => same other (.tail _ member)
      have first := (Peg.Yields.and guard).seqCons
        ((Peg.Yields.cut (yields_rule (same node (.head _)))).seqCons .seqNil)
      exact .repeatCons first rest

theorem wellFormed_nodeOf {rule : RexRule} {children : List (Cst RexRule Token)}
    (yields : (rexGrammar rule).Yields Terminal.matches children)
    (below : ∀ child, .node child ∈ children → RexNode.WellFormed child) :
    (nodeOf rule children).WellFormed :=
  .intro yields below

/-- The only child of an atom, a term or a parenthesis. -/
theorem wellFormed_only {rule : RexRule} {child : RexNode} (wellFormed : child.WellFormed)
    (yields : (rexGrammar rule).Yields Terminal.matches [.node child]) :
    (nodeOf rule [.node child]).WellFormed := by
  apply wellFormed_nodeOf yields
  rintro other (_ | ⟨_, ⟨⟩⟩)
  exact wellFormed

theorem wellFormed_atomTerm {form : RexNode} (wellFormed : form.WellFormed)
    (yields : (rexGrammar .atomExpr).Yields Terminal.matches [Cst.node form]) :
    (atomTerm form).WellFormed := by
  apply wellFormed_only (wellFormed_only wellFormed yields)
  exact .seqCons (.rule (nodeOf .atomExpr [.node form])) (.seqCons (.repeatNil _) .seqNil)

theorem wellFormed_nameTerm (name : String) : (nameTerm name).WellFormed := by
  apply wellFormed_atomTerm
  · apply wellFormed_nodeOf (.token rfl)
    rintro child (_ | ⟨_, ⟨⟩⟩)
  · exact .choice (by simp [nodeOf]) (.rule (nodeOf .identExpr [tokenOf (.ident name)]))

theorem wellFormed_emptyRecordTerm : emptyRecordTerm.WellFormed := by
  apply wellFormed_atomTerm
  · apply wellFormed_only
    · apply wellFormed_nodeOf
      · exact .seqCons (.token rfl) (.seqCons (.choice (.head _) (.token rfl)) .seqNil)
      · rintro child (_ | ⟨_, _ | ⟨_, ⟨⟩⟩⟩)
    · exact .choice (.head _) (.rule (nodeOf .dictExpr [tokenOf .braceL, tokenOf .braceR]))
  · exact .choice (.tail _ (.tail _ (.head _)))
      (.seqCons (.and _) (.seqCons (.cut (.rule (nodeOf .braceExpr _))) .seqNil))

theorem wellFormed_parenTerm {inner : RexNode} (wellFormed : inner.WellFormed)
    (rule : inner.rule = .expr) : (parenTerm inner).WellFormed := by
  apply wellFormed_atomTerm
  · apply wellFormed_only
    · apply wellFormed_nodeOf
      · refine .seqCons (.token rfl) (.seqCons (yields_rule rule) (.seqCons (.token rfl) .seqNil))
      · rintro child (_ | ⟨_, _ | ⟨_, _ | ⟨_, ⟨⟩⟩⟩⟩)
        exact wellFormed
    · exact .choice (by simp [nodeOf]) (.rule (nodeOf .groupedExpr _))
  · exact .choice (.head _)
      (.seqCons (.and _) (.seqCons (.cut (.rule (nodeOf .parenExpr _))) .seqNil))

theorem wellFormed_applicationOf {first : RexNode} {terms : List RexNode}
    (wellFormed : ∀ term ∈ first :: terms, term.WellFormed ∧ term.rule = .postfixExpr) :
    (applicationOf (first :: terms)).WellFormed := by
  apply wellFormed_only
  · apply wellFormed_only
    · apply wellFormed_nodeOf
      · have parts : (first :: terms).map Cst.node =
            [Cst.node first] ++ (terms.map Cst.node ++ []) := by simp
        rw [parts]
        exact .seqCons (yields_rule (wellFormed first (.head _)).2) (.seqCons
          (yields_repeat_guarded fun term member => (wellFormed term (.tail _ member)).2) .seqNil)
      · intro child member
        obtain ⟨term, among, same⟩ := List.mem_map.mp member
        cases same
        exact (wellFormed child among).1
    · exact .seqCons (.rule (nodeOf .applicationExpr _)) (.seqCons (.repeatNil _) .seqNil)
  · exact .seqCons (.rule (nodeOf .unaryExpr _)) (.seqCons (.repeatNil _) .seqNil)

/-- `f (x)`. -/
def call : RexNode :=
  applicationOf [nameTerm "f", parenTerm (applicationOf [nameTerm "x"])]

theorem wellFormed_nameApplication (name : String) :
    (applicationOf [nameTerm name]).WellFormed := by
  apply wellFormed_applicationOf
  rintro term (_ | ⟨_, ⟨⟩⟩)
  exact ⟨wellFormed_nameTerm name, rfl⟩

theorem wellFormed_call : call.WellFormed := by
  apply wellFormed_applicationOf
  rintro term (_ | ⟨_, _ | ⟨_, ⟨⟩⟩⟩)
  · exact ⟨wellFormed_nameTerm "f", rfl⟩
  · exact ⟨wellFormed_parenTerm (wellFormed_nameApplication "x") rfl, rfl⟩

theorem keepsWithin_of_none {node : RexNode} (notTaken : groupedTailApplication node = none)
    (children : ∀ child, .node child ∈ node.children → KeepsWithin child) : KeepsWithin node := by
  refine .intro (fun taken => ?_) children
  rw [notTaken] at taken
  cases taken

/-- A chain of nodes with one child each. -/
theorem keepsWithin_only {rule : RexRule} {child : RexNode} (keeps : KeepsWithin child)
    (notTaken : groupedTailApplication (nodeOf rule [.node child]) = none) :
    KeepsWithin (nodeOf rule [.node child]) := by
  apply keepsWithin_of_none notTaken
  rintro other (_ | ⟨_, ⟨⟩⟩)
  exact keeps

theorem keepsWithin_nameTerm (name : String) : KeepsWithin (nameTerm name) := by
  apply keepsWithin_only (keepsWithin_only ?_ rfl) rfl
  apply keepsWithin_of_none rfl
  rintro child (_ | ⟨_, ⟨⟩⟩)

theorem keepsWithin_nameApplication (name : String) :
    KeepsWithin (applicationOf [nameTerm name]) :=
  keepsWithin_only (keepsWithin_only (keepsWithin_only (keepsWithin_nameTerm name) rfl) rfl) rfl

theorem keepsWithin_call : KeepsWithin call := by
  refine .intro (fun _ => List.isChain_singleton _) ?_
  rintro unary (_ | ⟨_, ⟨⟩⟩)
  apply keepsWithin_only ?_ rfl
  apply keepsWithin_of_none rfl
  rintro term (_ | ⟨_, _ | ⟨_, ⟨⟩⟩⟩)
  · exact keepsWithin_nameTerm "f"
  · apply keepsWithin_only (keepsWithin_only (keepsWithin_only ?_ rfl) rfl) rfl
    apply keepsWithin_of_none rfl
    rintro inner (_ | ⟨_, _ | ⟨_, _ | ⟨_, ⟨⟩⟩⟩⟩)
    exact keepsWithin_nameApplication "x"

/-- The loop builds `f (x)` as the forms of the rule do. -/
theorem groupedTail_agrees_iff_call :
    ∃ grouped ordinary built whole,
      (operatorExpr (expr 2) call).outcome = .ok ordinary ∧
      (tryGroupedTailApplicationExpr (expr 2) 2 call).outcome = .ok (some grouped) ∧
      (grouped.resetSpans = ordinary.resetSpans ↔ KeepsConstructors call) ∧
      (ordinaryExpr 2 call).outcome = .ok whole ∧ (expr 2 call).outcome = .ok built ∧
      built.resetSpans = whole.resetSpans := by
  obtain ⟨agrees, within⟩ := groupedTail_agrees_iff 2 wellFormed_call rfl
  obtain ⟨grouped, groupedBuilt, same⟩ := agrees rfl _ rfl
  obtain ⟨built, wholeBuilt, sameWhole⟩ := within keepsWithin_call _ rfl
  exact ⟨grouped, _, built, _, rfl, groupedBuilt, same, rfl, wholeBuilt, sameWhole⟩

/-- `f C {} (y)`. -/
def recordCall : RexNode :=
  applicationOf [nameTerm "f", nameTerm "C", emptyRecordTerm,
    parenTerm (applicationOf [nameTerm "y"])]

theorem wellFormed_recordCall : recordCall.WellFormed := by
  apply wellFormed_applicationOf
  rintro term (_ | ⟨_, _ | ⟨_, _ | ⟨_, _ | ⟨_, ⟨⟩⟩⟩⟩⟩)
  · exact ⟨wellFormed_nameTerm "f", rfl⟩
  · exact ⟨wellFormed_nameTerm "C", rfl⟩
  · exact ⟨wellFormed_emptyRecordTerm, rfl⟩
  · exact ⟨wellFormed_parenTerm (wellFormed_nameApplication "y") rfl, rfl⟩

def varNamed (name : Symbol) : Expr :=
  .var ⟨.default, name⟩

theorem expr_y : (expr 2 (applicationOf [nameTerm "y"])).outcome = .ok (varNamed "y") := by
  refine outcome_bind_eq_ok.mpr ⟨none, rfl, outcome_bind_eq_ok.mpr ⟨([varNamed "y"], []), rfl, ?_⟩⟩
  dsimp only
  rw [foldBinaryExpr_singleton]
  rfl

theorem tryGroupedTailApplicationExpr_recordCall :
    (tryGroupedTailApplicationExpr (expr 2) 2 recordCall).outcome =
      .ok (some (.app .default (.app .default (.app .default (varNamed "f") (varNamed "C"))
        (.dict .default [])) (varNamed "y"))) := by
  rw [tryGroupedTailApplicationExpr_eq_ok]
  exact .inr ⟨[stepOf recordCall [nameTerm "f", nameTerm "C", emptyRecordTerm]],
    applicationOf [nameTerm "y"], varNamed "y", _, rfl, List.cons_ne_nil _ _, expr_y, rfl, rfl⟩

theorem operatorExpr_recordCall :
    (operatorExpr (expr 2) recordCall).outcome =
      .ok (.app .default (.app .default (varNamed "f")
        (.app .default (varNamed "C") (.dict .default []))) (varNamed "y")) := by
  have grouped : (exprOf (expr 2) (nodeOf .groupedExpr [tokenOf .parenL,
      .node (applicationOf [nameTerm "y"]), tokenOf .parenR])).outcome = .ok (varNamed "y") :=
    exprOf_eq_ok.mpr ⟨applicationOf [nameTerm "y"], rfl, expr_y⟩
  have last : (postfixExpr (expr 2) (parenTerm (applicationOf [nameTerm "y"]))).outcome =
      .ok (varNamed "y") :=
    outcome_bind_eq_ok.mpr ⟨_, rfl, outcome_bind_eq_ok.mpr ⟨varNamed "y",
      outcome_bind_eq_ok.mpr ⟨_, rfl, outcome_bind_eq_ok.mpr ⟨varNamed "y", grouped, rfl⟩⟩, rfl⟩⟩
  have terms : ([nameTerm "f", nameTerm "C", emptyRecordTerm,
      parenTerm (applicationOf [nameTerm "y"])].mapM (postfixExpr (expr 2))).outcome =
      .ok [varNamed "f", varNamed "C", .dict .default [], varNamed "y"] :=
    outcome_mapM_eq_ok.mpr (.cons rfl (.cons rfl (.cons rfl (.cons last .nil))))
  refine outcome_bind_eq_ok.mpr ⟨(_, []), outcome_bind_eq_ok.mpr ⟨_, outcome_bind_eq_ok.mpr
    ⟨_, rfl, outcome_bind_eq_ok.mpr ⟨_, outcome_bind_eq_ok.mpr ⟨_, terms, rfl⟩, rfl⟩⟩, rfl⟩, ?_⟩
  dsimp only
  rw [foldBinaryExpr_singleton]
  rfl

/-- The loop applies `f` to `C`, and the forms of the rule apply it to `C {}`. -/
theorem recordCall_differs :
    ¬ ∀ depth (node : RexNode) ordinary, node.WellFormed → node.rule = .expr →
      (groupedTailApplication node).isSome →
      (operatorExpr (expr depth) node).outcome = .ok ordinary →
      ∃ grouped,
        (tryGroupedTailApplicationExpr (expr depth) depth node).outcome = .ok (some grouped) ∧
        grouped.resetSpans = ordinary.resetSpans := by
  intro agrees
  obtain ⟨grouped, built, same⟩ :=
    agrees 2 recordCall _ wellFormed_recordCall rfl rfl operatorExpr_recordCall
  rw [tryGroupedTailApplicationExpr_recordCall] at built
  cases built
  simp [Expr.resetSpans, varNamed] at same

end RexLang
