import RexLang.RexGrammar

/-!
# Building types and patterns

The accessors of concrete syntax nodes and the builders of types and patterns
in `ast_builder.rs`.  A nested type or pattern is built one level deeper, so
each builder recurses on what is left of the maximum depth; its parts call it
through a parameter.
-/

namespace RexLang

structure ParseError where
  span : Span
  message : String

/-- `MAX_AST_DEPTH`. -/
def maxAstDepth : Nat := 256

def maximumDepthExceeded (span : Span) : ParseError :=
  ⟨span, "maximum AST depth exceeded (max 256)"⟩

def internalErr (span : Span) (message : String) : ParseError :=
  ⟨span, "internal parser error: " ++ message⟩

/-! ## Accessors -/

def childRules (node : RexNode) (rule : RexRule) : List RexNode :=
  node.children.filterMap fun
    | .node child => if child.rule = rule then some child else none
    | .token _ => none

def firstRule (node : RexNode) (rule : RexRule) : Option RexNode :=
  (childRules node rule).head?

def onlyRule (node : RexNode) (rule : RexRule) : Option RexNode :=
  match childRules node rule with
  | [only] => some only
  | _ => none

def expectRule (node : RexNode) (rule : RexRule) : Except ParseError RexNode :=
  match firstRule node rule with
  | some child => .ok child
  | none => .error (internalErr node.span "expected grammar node")

def directTokens (node : RexNode) (kind : Terminal) : List Token :=
  node.children.filterMap fun
    | .node _ => none
    | .token token => if kind.matches token then some token else none

/-- The first token among the children. -/
def firstTokenOf (children : List (Cst RexRule Token)) : Option Token :=
  children.findSome? fun
    | .node _ => none
    | .token token => some token

def firstToken (node : RexNode) : Option Token :=
  firstTokenOf node.children

def expectToken (node : RexNode) (kind : Terminal) : Except ParseError Token :=
  match directTokens node kind with
  | token :: _ => .ok token
  | [] => .error (internalErr node.span "expected token")

def identText (token : Token) : Except ParseError String :=
  match token.kind with
  | .ident name => .ok name
  | _ => .error ⟨token.span, "expected identifier"⟩

/-- The lexer's identifiers are ASCII, where `char::is_uppercase` is
`Char.isUpper`. -/
def isUppercaseSymbol (symbol : Symbol) : Bool :=
  match symbol.toList with
  | first :: _ => first.isUpper
  | [] => false

def nameRef (node : RexNode) : Except ParseError NameRef := do
  let segments ← (directTokens node .ident).mapM identText
  if segments.isEmpty then
    .error ⟨node.span, "expected identifier"⟩
  else
    .ok (.fromSegments segments)

def genericParamsOpt (node : RexNode) : Except ParseError (List Symbol) :=
  match firstRule node .genericParams with
  | none => .ok []
  | some params => (directTokens params .ident).mapM identText

/-! ## Types -/

section Types

variable (typeFun : RexNode → Except ParseError TypeExpr)

def typeExpr (node : RexNode) : Except ParseError TypeExpr := do
  typeFun (← expectRule node .typeFun)

def typeField (field : RexNode) : Except ParseError (Symbol × TypeExpr × Option String) := do
  let name ← identText (← expectToken field .ident)
  let typ ← typeExpr typeFun (← expectRule field .typeExpr)
  return (name, typ, none)

def typeRecord (node : RexNode) : Except ParseError TypeExpr := do
  let fields ← (childRules node .typeField).mapM (typeField typeFun)
  return .record node.span fields

def typeParen (node : RexNode) : Except ParseError TypeExpr :=
  if (firstRule node .unitType).isSome then
    .ok (.tuple node.span [])
  else if let some tuple := firstRule node .tupleType then do
    let elems ← (childRules tuple .typeExpr).mapM (typeExpr typeFun)
    return .tuple tuple.span elems
  else do
    let grouped ← expectRule node .groupedType
    typeExpr typeFun (← expectRule grouped .typeExpr)

def typeAtom (node : RexNode) : Except ParseError TypeExpr :=
  if let some name := firstRule node .nameRef then do
    return .name name.span (← nameRef name)
  else if let some paren := firstRule node .typeParen then
    typeParen typeFun paren
  else do
    typeRecord typeFun (← expectRule node .typeRecord)

def typeApp (node : RexNode) : Except ParseError TypeExpr :=
  match childRules node .typeAtom with
  | [] => .error ⟨node.span, "expected type"⟩
  | first :: atoms => do
      let lhs ← typeAtom typeFun first
      atoms.foldlM (fun lhs atom => do
        let rhs ← typeAtom typeFun atom
        return .app (.fromBeginEnd lhs.span.begin rhs.span.end) lhs rhs) lhs

end Types

/-- `type_fun` with the number of levels left below `MAX_AST_DEPTH`. -/
def typeFun : Nat → RexNode → Except ParseError TypeExpr
  | 0, node => .error (maximumDepthExceeded node.span)
  | depth + 1, node => do
      let lhs ← typeApp (typeFun depth) (← expectRule node .typeApp)
      match firstRule node .typeFun with
      | some rhs =>
          let rhs ← typeFun depth rhs
          return .func (.fromBeginEnd lhs.span.begin rhs.span.end) lhs rhs
      | none => return lhs

/-- `type_expr` for a type that is not part of another one. -/
def outerTypeExpr (node : RexNode) : Except ParseError TypeExpr :=
  typeExpr (typeFun maxAstDepth) node

def outerTypeExprOpt (node : RexNode) : Except ParseError (Option TypeExpr) :=
  (firstRule node .typeExpr).mapM outerTypeExpr

def typeConstraint (constraint : RexNode) : Except ParseError TypeConstraint := do
  let className ← nameRef (← expectRule constraint .nameRef)
  let typ ← typeApp (typeFun maxAstDepth) (← expectRule constraint .typeApp)
  return ⟨className, typ⟩

def typeConstraints (node : RexNode) : Except ParseError (List TypeConstraint) :=
  (childRules node .typeConstraint).mapM typeConstraint

def whereConstraints (node : RexNode) : Except ParseError (List TypeConstraint) := do
  typeConstraints (← expectRule node .typeConstraints)

/-! ## Patterns -/

def namedOrVarPattern (span : Span) (name : NameRef) (args : List Pattern) :
    Except ParseError Pattern :=
  if name.toDottedSymbol = "_" then
    match args with
    | [] => .ok (.wildcard span)
    | arg :: _ =>
        .error ⟨arg.span, "constructor patterns must start with an identifier"⟩
  else
    let named := Pattern.named
      (.fromBeginEnd span.begin ((args.getLast?.map (·.span)).getD span).end) name args
    match args, name with
    | [], .unqualified symbol =>
        .ok (if isUppercaseSymbol symbol then named else .var ⟨span, symbol⟩)
    | _, _ => .ok named

def patternBindingVar : Pattern → Option Var
  | .var binder => some binder
  | .named span (.unqualified name) [] => some ⟨span, name⟩
  | _ => none

section Patterns

variable (pattern : RexNode → Except ParseError Pattern)

def dictPatternField (node : RexNode) : Except ParseError (Symbol × Pattern) := do
  let token ← expectToken node .ident
  let name ← identText token
  match firstRule node .pattern with
  | some field => return (name, ← pattern field)
  | none => return (name, .var ⟨token.span, name⟩)

def parenPattern (node : RexNode) : Except ParseError Pattern :=
  match childRules node .pattern with
  | [] => .ok (.tuple node.span [])
  | [only] => do return (← pattern only).withSpan node.span
  | many => do return .tuple node.span (← many.mapM pattern)

def patternAtomNode (node : RexNode) : Except ParseError Pattern :=
  if let some list := firstRule node .listPattern then do
    return .list list.span (← (childRules list .pattern).mapM pattern)
  else if let some dict := firstRule node .dictPattern then do
    return .dict dict.span (← (childRules dict .dictPatternField).mapM (dictPatternField pattern))
  else do
    parenPattern pattern (← expectRule node .parenPattern)

def patternAtom (node : RexNode) : Except ParseError Pattern :=
  match firstToken node with
  | some ⟨.ident name, span⟩ => namedOrVarPattern span (.unqualified name) []
  | _ => patternAtomNode pattern node

def appPattern (node : RexNode) : Except ParseError Pattern :=
  if let some nameNode := firstRule node .nameRef then do
    let name ← nameRef nameNode
    let args ← (childRules node .patternAtom).mapM (patternAtom pattern)
    namedOrVarPattern nameNode.span name args
  else do
    patternAtom pattern (← expectRule node .patternAtom)

end Patterns

/-- `pattern` with the number of levels left below `MAX_AST_DEPTH`. -/
def pattern : Nat → RexNode → Except ParseError Pattern
  | 0, node => .error (maximumDepthExceeded node.span)
  | depth + 1, node => do
      let lhs ← appPattern (pattern depth) (← expectRule node .appPattern)
      match firstRule node .pattern with
      | some rhs =>
          let rhs ← pattern depth rhs
          return .cons (.fromBeginEnd lhs.span.begin rhs.span.end) lhs rhs
      | none => return lhs

/-- `pattern` for a pattern that is not part of another one. -/
def outerPattern (node : RexNode) : Except ParseError Pattern :=
  pattern maxAstDepth node

end RexLang
