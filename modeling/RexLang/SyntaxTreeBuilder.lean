import RexLang.BinaryExprFold
import RexLang.LoggedComputation
import RexLang.TypeBuilder

/-!
# Building expressions

The expression builder of `ast_builder.rs`.  A nested expression is built one
level deeper, so the builder recurses on what is left of the maximum depth, and
every form calls it through a parameter.  An application whose last argument is
parenthesised does not go through the forms of its rule: the builder first takes
off such arguments in a loop.
-/

namespace RexLang

/-- What the builder answers, with the errors that it pushes and carries on from. -/
abbrev Build := Logged ParseError ParseError

def expectBinaryOperator (node : RexNode) : Except ParseError BinaryOperator :=
  match firstToken node with
  | some token =>
      if binary : (binaryOperatorTokenName token.kind).isSome then .ok ⟨token, binary⟩
      else .error ⟨node.span, "expected binary operator"⟩
  | none => .error ⟨node.span, "expected binary operator"⟩

def isConstructorReference : Expr → Bool
  | .var name => isUppercaseSymbol name.name
  | .project _ _ field => isUppercaseSymbol field
  | _ => false

def isDict : Expr → Bool
  | .dict _ _ => true
  | _ => false

/-- The loop of `application_expr` that applies a constructor to the record
literal after it. -/
def groupConstructors : List Expr → List Expr
  | term :: fields :: rest =>
      if isConstructorReference term && isDict fields then
        .app (.fromBeginEnd term.span.begin fields.span.end) term fields :: groupConstructors rest
      else term :: groupConstructors (fields :: rest)
  | terms => terms

def fieldName (node : RexNode) : Except ParseError (Symbol × Position) :=
  match firstToken node with
  | none => .error (internalErr node.span "expected field")
  | some ⟨.ident name, span⟩ => .ok (name, span.end)
  | some ⟨.int value, span⟩ => .ok (toString value, span.end)
  | some token => .error ⟨token.span, "expected field name after `.`"⟩

/-- The literals of `atom_expr`. -/
def literalExpr : Token → Option Expr
  | ⟨.bool value, span⟩ => some (.bool span value)
  | ⟨.char value, span⟩ => some (.char span value)
  | ⟨.float value, span⟩ => some (.float span value)
  | ⟨.int value, span⟩ => some (.uint span value)
  | ⟨.string value, span⟩ => some (.string span value)
  | _ => none

def operatorNameExpr (operator : RexNode) : Except ParseError Expr :=
  match directTokens operator .valueOperator with
  | [] => .error (internalErr operator.span "expected parenthesized operator")
  | token :: _ =>
      match operatorTokenName token.kind with
      | none => .error (internalErr token.span "expected operator")
      | some name => .ok (.var ⟨operator.span, name⟩)

def lambdaParam (node : RexNode) : Except ParseError (Span × Var × Option TypeExpr) := do
  let token ← expectToken node .ident
  let name ← identText token
  return (node.span, ⟨token.span, name⟩, ← outerTypeExprOpt node)

/-- The loop of `lambda_expr`, from the last parameter to the first, which
takes the constraints. -/
def wrapLambdas (constraints : List TypeConstraint) :
    List (Span × Var × Option TypeExpr) → Expr → Expr
  | [], body => body
  | (span, param, annotation) :: params, body =>
      let body := wrapLambdas [] params body
      .lam (.fromBeginEnd span.begin body.span.end) [] param annotation constraints body

/-- One round of the loop of `let_expr`. -/
def wrapLet : Pattern × List Symbol × Option TypeExpr × Expr → Expr → Except ParseError Expr
  | (.var binder, typeParams, annotation, defn), body =>
      .ok (.letIn (.fromBeginEnd binder.span.begin body.span.end) binder typeParams annotation defn
        body)
  | (pattern, typeParams, annotation, defn), body =>
      if !typeParams.isEmpty then
        .error ⟨pattern.span, "type parameters require a named let binding"⟩
      else
        let defn := match annotation with
          | some typ => .ann (.fromBeginEnd defn.span.begin typ.span.end) defn typ
          | none => defn
        .ok (.matchWith (.fromBeginEnd pattern.span.begin body.span.end) defn [(pattern, body)])

section Forms

variable (expr : RexNode → Build Expr)

def exprOf (node : RexNode) : Build Expr := do
  expr (← expectRule node .expr)

/-- The children of `dict_expr`, with the items so far. -/
def dictItems : List (Cst RexRule Token) → SymbolMap Expr → Build (SymbolMap Expr)
  | [], items => pure items
  | .token _ :: rest, items => dictItems rest items
  | .node item :: rest, items =>
      match item.rule with
      | .dictItem => do
          let key ← liftM (expectToken item .ident >>= identText)
          let value ← exprOf expr item
          dictItems rest (items.insert key value)
      | .badDictItem => do
          let span := ((firstTokenOf rest).map (·.span)).getD item.span
          Logged.record ⟨span, "expected `=`"⟩
          dictItems rest items
      | _ => dictItems rest items

def dictFields (node : RexNode) : Build (SymbolMap Expr) :=
  dictItems expr node.children []

def dictExpr (node : RexNode) : Build Expr := do
  return .dict node.span (← dictFields expr node)

def recordUpdateExpr (node : RexNode) : Build Expr := do
  let base ← exprOf expr node
  let updates ← dictFields expr (← expectRule node .dictExpr)
  return .recordUpdate node.span base updates

def braceExpr (node : RexNode) : Build Expr :=
  if let some dict := firstRule node .dictExpr then dictExpr expr dict
  else do recordUpdateExpr expr (← expectRule node .recordUpdateExpr)

def listExpr (node : RexNode) : Build Expr := do
  return .list node.span (← (childRules node .expr).mapM expr)

def groupedExpr (grouped : RexNode) : Build Expr := do
  return (← exprOf expr grouped).withSpan grouped.span

def parenExpr (node : RexNode) : Build Expr :=
  if (firstRule node .unitExpr).isSome then pure (.tuple node.span [])
  else if let some operator := firstRule node .operatorNameExpr then
    liftM (operatorNameExpr operator)
  else if let some tuple := firstRule node .tupleExpr then do
    return .tuple tuple.span (← (childRules tuple .expr).mapM expr)
  else do groupedExpr expr (← expectRule node .groupedExpr)

def negExpr (node : RexNode) : Build Expr := do
  let op ← liftM (expectToken node .sub)
  return .app node.span (.var ⟨op.span, "negate"⟩) (← exprOf expr node)

/-- The last expression among the children. -/
def lastExpr (node : RexNode) (expected : String) : Build Expr :=
  match (childRules node .expr).getLast? with
  | none => .fail (internalErr node.span expected)
  | some body => expr body

def lambdaExpr (node : RexNode) : Build Expr := do
  let params ← liftM ((childRules node .lambdaParam).mapM lambdaParam)
  let constraints ← liftM ((firstRule node .whereConstraints).mapM whereConstraints)
  let body ← lastExpr expr node "expected lambda body"
  return (wrapLambdas (constraints.getD []) params body).withSpanBegin node.span.begin

def letBinding (node : RexNode) : Build (Pattern × List Symbol × Option TypeExpr × Expr) := do
  let pattern ← liftM (expectRule node .pattern >>= outerPattern)
  let typeParams ← liftM (genericParamsOpt node)
  let annotation ← liftM (outerTypeExprOpt node)
  let pattern := match annotation, patternBindingVar pattern with
    | some _, some binder => .var binder
    | _, _ => pattern
  return (pattern, typeParams, annotation, ← exprOf expr node)

def letRecBinding (node : RexNode) : Build LetRecBinding := do
  let pattern ← liftM (expectRule node .pattern >>= outerPattern)
  match patternBindingVar pattern with
  | none => .fail ⟨pattern.span, "let rec only supports variable bindings"⟩
  | some binder => do
      let typeParams ← liftM (genericParamsOpt node)
      let annotation ← liftM (outerTypeExprOpt node)
      return (binder, typeParams, annotation, ← exprOf expr node)

def letRecExpr (node : RexNode) (body : Expr) : Build Expr := do
  return .letRec node.span (← (childRules node .letRecBinding).mapM (letRecBinding expr)) body

def letDecls (node : RexNode) (body : Expr) : Build Expr := do
  let decls ← (childRules node .letBinding).mapM (letBinding expr)
  let body ← liftM (decls.foldrM wrapLet body)
  return body.withSpanBegin node.span.begin

def letExpr (node : RexNode) : Build Expr := do
  let body ← lastExpr expr node "expected let body"
  if (directTokens node .kwRec).isEmpty then letDecls expr node body
  else letRecExpr expr node body

def ifExpr (node : RexNode) : Build Expr :=
  match childRules node .expr with
  | [condNode, thenNode, elseNode] => do
      let cond ← expr condNode
      let thenExpr ← expr thenNode
      let elseExpr ← expr elseNode
      return .ite node.span cond thenExpr elseExpr
  | _ => .fail (internalErr node.span "expected if expression parts")

def matchArm (arm : RexNode) : Build (Pattern × Expr) := do
  let pattern ← liftM (expectRule arm .pattern >>= outerPattern)
  return (pattern, ← exprOf expr arm)

def matchExpr (node : RexNode) : Build Expr := do
  let scrutinee ← exprOf expr node
  let arms ← (childRules node .matchArm).mapM (matchArm expr)
  return .matchWith node.span scrutinee arms

/-- `atom_expr` after the literals. -/
def atomForm (node : RexNode) : Build Expr :=
  if let some paren := firstRule node .parenExpr then parenExpr expr paren
  else if let some list := firstRule node .listExpr then listExpr expr list
  else if let some brace := firstRule node .braceExpr then braceExpr expr brace
  else if let some hole := firstRule node .holeExpr then pure (.hole hole.span)
  else if let some ident := firstRule node .identExpr then do
    let token ← liftM (expectToken ident .ident)
    return .var ⟨token.span, ← identText token⟩
  else if let some lambda := firstRule node .lambdaExpr then lambdaExpr expr lambda
  else if let some letNode := firstRule node .letExpr then letExpr expr letNode
  else if let some ifNode := firstRule node .ifExpr then ifExpr expr ifNode
  else if let some matchNode := firstRule node .matchExpr then matchExpr expr matchNode
  else do negExpr expr (← expectRule node .negExpr)

def atomExpr (node : RexNode) : Build Expr :=
  match (firstToken node).bind literalExpr with
  | some literal => pure literal
  | none => atomForm expr node

def postfixExpr (node : RexNode) : Build Expr := do
  let base ← atomExpr expr (← expectRule node .atomExpr)
  let fields ← liftM ((childRules node .fieldName).mapM fieldName)
  return fields.foldl (fun base (name, finish) =>
    .project (.fromBeginEnd base.span.begin finish) base name) base

def applicationExpr (node : RexNode) : Build Expr := do
  let terms ← (childRules node .postfixExpr).mapM (postfixExpr expr)
  match groupConstructors terms with
  | [] => .fail ⟨node.span, "expected expression"⟩
  | base :: terms =>
      return terms.foldl (fun func term =>
        .app (.fromBeginEnd base.span.begin term.span.end) func term) base

def unaryExpr (node : RexNode) : Build Expr := do
  let base ← applicationExpr expr (← expectRule node .applicationExpr)
  let types ← liftM ((childRules node .typeExpr).mapM outerTypeExpr)
  return types.foldl (fun base typ =>
    .ann (.fromBeginEnd base.span.begin typ.span.end) base typ) base

/-- The loop of `expr` over its children. -/
def operandsAndOperators :
    List (Cst RexRule Token) → Build (List Expr × List BinaryOperator)
  | [] => pure ([], [])
  | .token _ :: rest => operandsAndOperators rest
  | .node child :: rest =>
      match child.rule with
      | .unaryExpr => do
          let operand ← unaryExpr expr child
          let (operands, operators) ← operandsAndOperators rest
          return (operand :: operands, operators)
      | .binaryOp => do
          let operator ← liftM (expectBinaryOperator child)
          let (operands, operators) ← operandsAndOperators rest
          return (operands, operator :: operators)
      | _ => operandsAndOperators rest

/-- `expr` after the attempt of `try_grouped_tail_application_expr`. -/
def operatorExpr (node : RexNode) : Build Expr := do
  let (operands, operators) ← operandsAndOperators expr node.children
  match foldBinaryExpr operands operators with
  | none => .fail ⟨node.span, "expected expression"⟩
  | some folded =>
      if maxAstDepth ≤ operators.length then .fail (maximumDepthExceeded node.span)
      else return folded

end Forms

/-! ## Parenthesised last arguments -/

def groupedExprTail (node : RexNode) : Option RexNode :=
  if !(childRules node .fieldName).isEmpty then none
  else do
    let atom ← onlyRule node .atomExpr
    let paren ← onlyRule atom .parenExpr
    let grouped ← onlyRule paren .groupedExpr
    onlyRule grouped .expr

def groupedTailApplication (node : RexNode) : Option (List RexNode × RexNode) :=
  if !(childRules node .binaryOp).isEmpty then none
  else do
    let unary ← onlyRule node .unaryExpr
    if !(childRules unary .typeExpr).isEmpty then none
    else do
      let application ← onlyRule unary .applicationExpr
      let terms := childRules application .postfixExpr
      let last ← terms.getLast?
      let tail ← groupedExprTail last
      return (terms.dropLast, tail)

inductive GroupedApplicationStep where
  | span (span : Span)
  | apply (terms : List RexNode) (span : Span)

/-- The first loop of `try_grouped_tail_application_expr`: the steps from the
outside in, and the expression inside the last parentheses.  `depth` is the
number of levels left. -/
def peelGroupedTail : Nat → RexNode → Except ParseError (List GroupedApplicationStep × RexNode)
  | depth, node =>
      match groupedTailApplication node with
      | none => .ok ([], node)
      | some (terms, tail) =>
          match depth with
          | 0 => .error (maximumDepthExceeded node.span)
          | depth + 1 => do
              let (steps, innermost) ← peelGroupedTail depth tail
              return ((if terms.isEmpty then .span node.span else .apply terms node.span) :: steps,
                innermost)

section Forms

variable (expr : RexNode → Build Expr)

def applyApplicationGroup (terms : List RexNode) (tail : Expr) : Build Expr :=
  match terms with
  | [] => pure tail
  | first :: terms => do
      let base ← postfixExpr expr first
      let func ← terms.foldlM (fun func term => do
        let arg ← postfixExpr expr term
        return .app (.fromBeginEnd base.span.begin arg.span.end) func arg) base
      return .app (.fromBeginEnd base.span.begin tail.span.end) func tail

def GroupedApplicationStep.run (step : GroupedApplicationStep) (tail : Expr) : Build Expr :=
  match step with
  | .span whole => pure (tail.withSpan whole)
  | .apply terms whole => do
      return (← applyApplicationGroup expr terms tail).withSpan whole

/-- `try_grouped_tail_application_expr` with `depth` levels left. -/
def tryGroupedTailApplicationExpr (depth : Nat) (node : RexNode) : Build (Option Expr) := do
  let (steps, innermost) ← liftM (peelGroupedTail depth node)
  if steps.isEmpty then return none
  else
    let tail ← expr innermost
    return some (← steps.reverse.foldlM (fun tail step => step.run expr tail) tail)

end Forms

/-- `expr` with the number of levels left below `MAX_AST_DEPTH`. -/
def expr : Nat → RexNode → Build Expr
  | 0, node => .fail (maximumDepthExceeded node.span)
  | depth + 1, node => do
      match ← tryGroupedTailApplicationExpr (expr depth) depth node with
      | some grouped => return grouped
      | none => operatorExpr (expr depth) node

end RexLang
