import RexLang.PegReading

/-!
# Grammars without left recursion

A grammar is free of left recursion when its rules can be ranked such that a rule
only tries rules of lower rank before it has advanced.  Nullability and the rules
tried first are over-approximated by computable functions, and the rules for
expressions, types and patterns are ranked with them.
-/

namespace RexLang.Packrat

variable {Rule Kind Token : Type}

section Check

variable (nullableRule : Rule → Bool) (nullableKind : Kind → Bool)

mutual

/-- The expression may succeed without advancing, given the rules and the
terminals that may. -/
def isNullable : Peg Rule Kind → Bool
  | .token kind => nullableKind kind
  | .rule rule => nullableRule rule
  | .seq items => allNullable items
  | .choice alternatives => anyNullable alternatives
  | .optional _ | .repeat _ | .and _ | .not _ => true
  | .repeat1 item | .label _ item | .cut item => isNullable item

def allNullable : List (Peg Rule Kind) → Bool
  | [] => true
  | item :: items => isNullable item && allNullable items

def anyNullable : List (Peg Rule Kind) → Bool
  | [] => false
  | item :: items => isNullable item || anyNullable items

end

mutual

/-- The rules that the expression may try before it advances. -/
def leftCallees : Peg Rule Kind → List Rule
  | .token _ => []
  | .rule rule => [rule]
  | .seq items => sequenceCallees items
  | .choice alternatives => choiceCallees alternatives
  | .optional item | .repeat item | .repeat1 item | .and item | .not item | .label _ item
  | .cut item => leftCallees item

def sequenceCallees : List (Peg Rule Kind) → List Rule
  | [] => []
  | item :: items =>
      leftCallees item ++
        if isNullable nullableRule nullableKind item then sequenceCallees items else []

def choiceCallees : List (Peg Rule Kind) → List Rule
  | [] => []
  | item :: items => leftCallees item ++ choiceCallees items

end

variable {nullableRule nullableKind}

theorem allNullable_iff {items : List (Peg Rule Kind)} :
    allNullable nullableRule nullableKind items = true ↔
      ∀ item ∈ items, isNullable nullableRule nullableKind item = true := by
  induction items with
  | nil => simp [allNullable]
  | cons item items hypothesis => simp [allNullable, hypothesis]

theorem anyNullable_iff {items : List (Peg Rule Kind)} :
    anyNullable nullableRule nullableKind items = true ↔
      ∃ item ∈ items, isNullable nullableRule nullableKind item = true := by
  induction items with
  | nil => simp [anyNullable]
  | cons item items hypothesis => simp [anyNullable, hypothesis]

theorem mem_choiceCallees {items : List (Peg Rule Kind)} {callee : Rule} :
    callee ∈ choiceCallees nullableRule nullableKind items ↔
      ∃ item ∈ items, callee ∈ leftCallees nullableRule nullableKind item := by
  induction items with
  | nil => simp [choiceCallees]
  | cons item items hypothesis => simp [choiceCallees, hypothesis]

theorem mem_sequenceCallees {before after : List (Peg Rule Kind)} {item : Peg Rule Kind}
    {callee : Rule}
    (nullable : ∀ earlier ∈ before, isNullable nullableRule nullableKind earlier = true)
    (calls : callee ∈ leftCallees nullableRule nullableKind item) :
    callee ∈ sequenceCallees nullableRule nullableKind (before ++ item :: after) := by
  induction before with
  | nil => simp [sequenceCallees, calls]
  | cons earlier before hypothesis =>
      have first := nullable earlier (by simp)
      have rest := hypothesis fun other member => nullable other (by simp [member])
      simp [sequenceCallees, first, rest]

variable [EngineToken Token] [Terminal Kind Token] {grammar : Grammar Rule Kind}
  (eofKinds : ∀ kind (token : Token), EngineToken.isEof token = true →
    Terminal.accepts kind token = true → nullableKind kind = true)
  (closed : ∀ rule expression, grammar.expression rule = some expression →
    isNullable nullableRule nullableKind expression = true → nullableRule rule = true)

include eofKinds closed

theorem isNullable_of_nullable {expression : Peg Rule Kind}
    (nullable : Nullable Token grammar expression) :
    isNullable nullableRule nullableKind expression = true := by
  induction nullable with
  | token isEof accepts => exact eofKinds _ _ isEof accepts
  | rule defined _ hypothesis => exact closed _ _ defined hypothesis
  | seq _ hypothesis => exact allNullable_iff.2 hypothesis
  | choice member _ hypothesis => exact anyNullable_iff.2 ⟨_, member, hypothesis⟩
  | optional | «repeat» | and | not => rfl
  | repeat1 _ hypothesis | label _ hypothesis | cut _ hypothesis => exact hypothesis

theorem mem_leftCallees {expression : Peg Rule Kind} {callee : Rule}
    (calls : LeftCalls Token grammar expression callee) :
    callee ∈ leftCallees nullableRule nullableKind expression := by
  induction calls with
  | rule => exact List.mem_singleton_self _
  | seq nullable _ hypothesis =>
      exact mem_sequenceCallees
        (fun earlier member => isNullable_of_nullable eofKinds closed (nullable earlier member))
        hypothesis
  | choice member _ hypothesis => exact mem_choiceCallees.2 ⟨_, member, hypothesis⟩
  | optional _ hypothesis | «repeat» _ hypothesis | repeat1 _ hypothesis | and _ hypothesis
  | not _ hypothesis | label _ hypothesis | cut _ hypothesis => exact hypothesis

/-- A ranking of the rules that goes down from a rule to those that it may try
before it advances. -/
theorem not_leftRecursive_of_rank (rank : Rule → Nat)
    (lower : ∀ rule expression, grammar.expression rule = some expression →
      ∀ callee ∈ leftCallees nullableRule nullableKind expression, rank callee < rank rule) :
    ¬ grammar.LeftRecursive Token := by
  have goesDown {caller callee : Rule}
      (calls : Relation.TransGen (grammar.LeftCalls Token) caller callee) :
      rank callee < rank caller := by
    induction calls with
    | single calls =>
        obtain ⟨expression, defined, calls⟩ := calls
        exact lower _ _ defined _ (mem_leftCallees eofKinds closed calls)
    | tail _ calls hypothesis =>
        obtain ⟨expression, defined, calls⟩ := calls
        exact (lower _ _ defined _ (mem_leftCallees eofKinds closed calls)).trans hypothesis
  rintro ⟨rule, comesBack⟩
  exact absurd (goesDown comesBack) (lt_irrefl _)

end Check

/-! ## The rules for expressions, types and patterns -/

instance : EngineToken RexLang.Token where
  span token := token.span
  isEof token := token.kind = .eof

/-- `TokenKind::label`. -/
def terminalLabel : RexLang.Terminal → String
  | .kwCase => "`case`"
  | .kwElse => "`else`"
  | .kwIf => "`if`"
  | .kwIs => "`is`"
  | .kwMatch => "`match`"
  | .kwThen => "`then`"
  | .kwWith => "`with`"
  | .kwWhere => "`where`"
  | .dot => "`.`"
  | .gt => "`>`"
  | .lt => "`<`"
  | .sub => "`-`"
  | .arrowR => "`->`"
  | .assign => "`=`"
  | .backSlash => "`\\`"
  | .braceL => "`\x7b`"
  | .braceR => "`\x7d`"
  | .bracketL => "`[`"
  | .bracketR => "`]`"
  | .colon => "`:`"
  | .colonColon => "`::`"
  | .comma => "`,`"
  | .kwIn => "`in`"
  | .kwLet => "`let`"
  | .kwRec => "`rec`"
  | .parenL => "`(`"
  | .parenR => "`)`"
  | .question => "`?`"
  | .semiColon => "`;`"
  | .bool => "bool"
  | .char => "char"
  | .float => "float"
  | .int => "int"
  | .string => "string"
  | .ident => "identifier"
  | .valueOperator => "operator name"
  | .binaryOperator => "binary operator"

instance : Terminal RexLang.Terminal RexLang.Token where
  label := terminalLabel
  accepts := RexLang.Terminal.matches

/-- A rank for each rule, above the ranks of the rules that it starts with. -/
def rexRank : RexRule → Nat
  | .typeConstraint | .typeParen | .braceExpr | .parenExpr | .patternAtom => 1
  | .typeConstraints | .typeAtom | .atomExpr | .appPattern => 2
  | .typeApp | .postfixExpr | .pattern => 3
  | .typeFun | .applicationExpr | .letBinding | .letRecBinding => 4
  | .typeExpr | .unaryExpr => 5
  | .expr => 6
  | _ => 0

/-- The rules for expressions, types and patterns, in the order of `RexRule`. -/
def rexRules : List RexRule :=
  [.genericParams, .whereConstraints, .typeConstraints, .typeConstraint, .typeExpr, .typeFun,
    .typeApp, .typeAtom, .typeParen, .unitType, .tupleType, .groupedType, .typeRecord, .typeField,
    .expr, .binaryOp, .unaryExpr, .applicationExpr, .postfixExpr, .fieldName, .atomExpr, .holeExpr,
    .identExpr, .braceExpr, .parenExpr, .unitExpr, .operatorNameExpr, .tupleExpr, .groupedExpr,
    .listExpr, .dictExpr, .dictItem, .badDictItem, .recordUpdateExpr, .negExpr, .lambdaExpr,
    .lambdaParam, .letExpr, .letBinding, .letRecBinding, .ifExpr, .matchExpr, .matchArm, .pattern,
    .appPattern, .patternAtom, .listPattern, .dictPattern, .dictPatternField, .parenPattern,
    .nameRef]

/-- The part of `rex_grammar` for expressions, types and patterns. -/
def rexExpressions : Grammar RexRule RexLang.Terminal :=
  .fromItems .expr (rexRules.map fun rule => .rule rule (rexGrammar rule))

theorem rexGrammar_of_expression {rule : RexRule} {expression : Peg RexRule RexLang.Terminal}
    (defined : rexExpressions.expression rule = some expression) :
    expression = rexGrammar rule := by
  obtain ⟨other, _, same⟩ := List.mem_map.mp (Grammar.mem_items_of_expression defined)
  cases same
  rfl

theorem isNullable_rexGrammar (rule : RexRule) :
    isNullable (fun _ => false) (fun _ => false) (rexGrammar rule) = false := by
  cases rule <;> rfl

theorem rexRank_lt (rule : RexRule) :
    ∀ callee ∈ leftCallees (fun _ => false) (fun _ => false) (rexGrammar rule),
      rexRank callee < rexRank rule := by
  cases rule <;> decide

/-- No rule for expressions, types or patterns comes back to itself before it has
advanced. -/
theorem rexExpressions_not_leftRecursive : ¬ rexExpressions.LeftRecursive RexLang.Token := by
  refine @not_leftRecursive_of_rank _ _ _ (fun _ => false) (fun _ => false) _ _ _ ?_ ?_ rexRank ?_
  · intro kind token isEof accepts
    have isEnd : token.kind = .eof := by simpa [EngineToken.isEof] using isEof
    cases kind <;> simp [Terminal.accepts, RexLang.Terminal.matches, isEnd, operatorTokenName,
      binaryOperatorTokenName] at accepts
  · intro rule expression defined nullable
    rw [rexGrammar_of_expression defined, isNullable_rexGrammar] at nullable
    exact nullable
  · intro rule expression defined
    rw [rexGrammar_of_expression defined]
    exact rexRank_lt rule

end RexLang.Packrat
