import RexLang.Token

/-!
# Concrete syntax trees

The parsing expressions of `grammar.rs` and the expression, type and pattern
rules of `rex.rs`.  A node keeps the rule it was parsed with and the children
that the rule's expression yielded; a lookahead yields none.
-/

namespace RexLang

section Trees

variable (Rule Token : Type)

mutual

/-- A child of a node of the concrete syntax tree. -/
inductive Cst where
  | node (node : CstNode)
  | token (token : Token)

structure CstNode where
  rule : Rule
  span : Span
  children : List Cst

end

end Trees

/-- A parsing expression over the rules and the kinds of tokens. -/
inductive Peg (Rule Kind : Type) where
  | token (kind : Kind)
  | rule (rule : Rule)
  | seq (items : List (Peg Rule Kind))
  | choice (alternatives : List (Peg Rule Kind))
  | optional (item : Peg Rule Kind)
  | repeat (item : Peg Rule Kind)
  | repeat1 (item : Peg Rule Kind)
  | and (item : Peg Rule Kind)
  | not (item : Peg Rule Kind)
  | label (label : String) (item : Peg Rule Kind)
  | cut (item : Peg Rule Kind)

section Trees

variable {Rule Kind Token : Type} (isKind : Kind → Token → Bool)

/-- The children that a successful parse of the expression can leave.  Which of
several alternatives the parser takes is left open. -/
inductive Peg.Yields : Peg Rule Kind → List (Cst Rule Token) → Prop where
  | token {kind token} (accepts : isKind kind token) : Yields (.token kind) [.token token]
  | rule (node) : Yields (.rule node.rule) [.node node]
  | seqNil : Yields (.seq []) []
  | seqCons {item items first rest} (head : Yields item first) (tail : Yields (.seq items) rest) :
      Yields (.seq (item :: items)) (first ++ rest)
  | choice {item alternatives children} (member : item ∈ alternatives)
      (yields : Yields item children) : Yields (.choice alternatives) children
  | optionalNone (item) : Yields (.optional item) []
  | optionalSome {item children} (yields : Yields item children) :
      Yields (.optional item) children
  | repeatNil (item) : Yields (.repeat item) []
  | repeatCons {item first rest} (head : Yields item first)
      (tail : Yields (.repeat item) rest) : Yields (.repeat item) (first ++ rest)
  | repeat1 {item first rest} (head : Yields item first) (tail : Yields (.repeat item) rest) :
      Yields (.repeat1 item) (first ++ rest)
  | and (item) : Yields (.and item) []
  | not (item) : Yields (.not item) []
  | label {label item children} (yields : Yields item children) :
      Yields (.label label item) children
  | cut {item children} (yields : Yields item children) : Yields (.cut item) children

/-- Every node of the tree has children that its rule can yield. -/
inductive CstNode.Conforms (grammar : Rule → Peg Rule Kind) : CstNode Rule Token → Prop where
  | intro {node} (yields : (grammar node.rule).Yields isKind node.children)
      (children : ∀ child, .node child ∈ node.children → Conforms grammar child) :
      Conforms grammar node

end Trees

/-! ## The grammar -/

/-- The rules for expressions, types and patterns. -/
inductive RexRule where
  | genericParams | whereConstraints | typeConstraints | typeConstraint
  | typeExpr | typeFun | typeApp | typeAtom | typeParen | unitType | tupleType | groupedType
  | typeRecord | typeField
  | expr | binaryOp | unaryExpr | applicationExpr | postfixExpr | fieldName | atomExpr | holeExpr
  | identExpr | braceExpr | parenExpr | unitExpr | operatorNameExpr | tupleExpr | groupedExpr
  | listExpr | dictExpr | dictItem | badDictItem | recordUpdateExpr | negExpr | lambdaExpr
  | lambdaParam | letExpr | letBinding | letRecBinding | ifExpr | matchExpr | matchArm
  | pattern | appPattern | patternAtom | listPattern | dictPattern | dictPatternField
  | parenPattern
  | nameRef
deriving DecidableEq

/-- The kinds of tokens that these rules name (`TokenKind` of `grammar.rs`). -/
inductive Terminal where
  | kwCase | kwElse | kwIf | kwIs | kwMatch | kwThen | kwWith | kwWhere | dot | gt | lt | sub
  | arrowR | assign | backSlash | braceL | braceR | bracketL | bracketR | colon | colonColon
  | comma | kwIn | kwLet | kwRec | parenL | parenR | question | semiColon | bool | char | float
  | int | string | ident | valueOperator | binaryOperator
deriving DecidableEq

/-- `TokenKind::matches`. -/
def Terminal.matches : Terminal → Token → Bool
  | .kwCase, token => token.kind = .kwCase
  | .kwElse, token => token.kind = .kwElse
  | .kwIf, token => token.kind = .kwIf
  | .kwIs, token => token.kind = .kwIs
  | .kwMatch, token => token.kind = .kwMatch
  | .kwThen, token => token.kind = .kwThen
  | .kwWith, token => token.kind = .kwWith
  | .kwWhere, token => token.kind = .kwWhere
  | .dot, token => token.kind = .dot
  | .gt, token => token.kind = .gt
  | .lt, token => token.kind = .lt
  | .sub, token => token.kind = .sub
  | .arrowR, token => token.kind = .arrowR
  | .assign, token => token.kind = .assign
  | .backSlash, token => token.kind = .backSlash
  | .braceL, token => token.kind = .braceL
  | .braceR, token => token.kind = .braceR
  | .bracketL, token => token.kind = .bracketL
  | .bracketR, token => token.kind = .bracketR
  | .colon, token => token.kind = .colon
  | .colonColon, token => token.kind = .colonColon
  | .comma, token => token.kind = .comma
  | .kwIn, token => token.kind = .kwIn
  | .kwLet, token => token.kind = .kwLet
  | .kwRec, token => token.kind = .kwRec
  | .parenL, token => token.kind = .parenL
  | .parenR, token => token.kind = .parenR
  | .question, token => token.kind = .question
  | .semiColon, token => token.kind = .semiColon
  | .bool, token => match token.kind with | .bool _ => true | _ => false
  | .char, token => match token.kind with | .char _ => true | _ => false
  | .float, token => match token.kind with | .float _ => true | _ => false
  | .int, token => match token.kind with | .int _ => true | _ => false
  | .string, token => match token.kind with | .string _ => true | _ => false
  | .ident, token => match token.kind with | .ident _ => true | _ => false
  | .valueOperator, token => (operatorTokenName token.kind).isSome
  | .binaryOperator, token => (binaryOperatorTokenName token.kind).isSome

namespace RexGrammar

def tok (kind : Terminal) : Peg RexRule Terminal := .token kind

end RexGrammar

open RexGrammar in
/-- The parsing expression of each rule (`rex_grammar`). -/
def rexGrammar : RexRule → Peg RexRule Terminal
  | .genericParams =>
      .seq [tok .lt, tok .ident, .repeat (.seq [tok .comma, tok .ident]), tok .gt]
  | .whereConstraints => .seq [tok .kwWhere, .rule .typeConstraints]
  | .typeConstraints =>
      .seq [.rule .typeConstraint, .repeat (.seq [tok .comma, .rule .typeConstraint])]
  | .typeConstraint => .seq [.rule .nameRef, .rule .typeApp]
  | .typeExpr => .rule .typeFun
  | .typeFun => .seq [.rule .typeApp, .optional (.seq [tok .arrowR, .rule .typeFun])]
  | .typeApp => .repeat1 (.rule .typeAtom)
  | .typeAtom => .choice [.rule .nameRef, .rule .typeParen, .rule .typeRecord]
  | .typeParen => .choice [.rule .unitType, .rule .tupleType, .rule .groupedType]
  | .unitType => .seq [tok .parenL, tok .parenR]
  | .tupleType =>
      .seq [tok .parenL, .rule .typeExpr, tok .comma,
        .cut (.seq [.rule .typeExpr, .repeat (.seq [tok .comma, .cut (.rule .typeExpr)]),
          tok .parenR])]
  | .groupedType => .seq [tok .parenL, .rule .typeExpr, tok .parenR]
  | .typeRecord =>
      .seq [tok .braceL,
        .optional (.seq [.rule .typeField, .repeat (.seq [tok .comma, .cut (.rule .typeField)])]),
        tok .braceR]
  | .typeField => .seq [tok .ident, tok .colon, .rule .typeExpr]
  | .expr => .seq [.rule .unaryExpr, .repeat (.seq [.rule .binaryOp, .cut (.rule .unaryExpr)])]
  | .binaryOp => tok .binaryOperator
  | .unaryExpr => .seq [.rule .applicationExpr, .repeat (.seq [tok .kwIs, .rule .typeExpr])]
  | .applicationExpr =>
      .seq [.rule .postfixExpr,
        .repeat (.seq [
          .and (.choice [tok .parenL, tok .bracketL, tok .braceL, tok .bool, tok .char, tok .float,
            tok .int, tok .string, tok .question, tok .ident, tok .backSlash, tok .kwLet, tok .kwIf,
            tok .kwMatch]),
          .cut (.rule .postfixExpr)])]
  | .postfixExpr => .seq [.rule .atomExpr, .repeat (.seq [tok .dot, .rule .fieldName])]
  | .fieldName => .choice [tok .ident, tok .int]
  | .atomExpr =>
      .choice [
        .seq [.and (tok .parenL), .cut (.rule .parenExpr)],
        .seq [.and (tok .bracketL), .cut (.rule .listExpr)],
        .seq [.and (tok .braceL), .cut (.rule .braceExpr)],
        tok .bool, tok .char, tok .float, tok .int, tok .string,
        .rule .holeExpr, .rule .identExpr,
        .seq [.and (tok .backSlash), .cut (.rule .lambdaExpr)],
        .seq [.and (tok .kwLet), .cut (.rule .letExpr)],
        .seq [.and (tok .kwIf), .cut (.rule .ifExpr)],
        .seq [.and (tok .kwMatch), .cut (.rule .matchExpr)],
        .seq [.and (tok .sub), .cut (.rule .negExpr)]]
  | .holeExpr => tok .question
  | .identExpr => tok .ident
  | .braceExpr => .choice [.rule .dictExpr, .rule .recordUpdateExpr]
  | .parenExpr =>
      .choice [.rule .unitExpr, .rule .operatorNameExpr, .rule .tupleExpr, .rule .groupedExpr]
  | .unitExpr => .seq [tok .parenL, tok .parenR]
  | .operatorNameExpr => .seq [tok .parenL, tok .valueOperator, tok .parenR]
  | .tupleExpr =>
      .seq [tok .parenL, .rule .expr, tok .comma,
        .optional (.seq [.rule .expr, .repeat (.seq [tok .comma, .rule .expr]),
          .optional (tok .comma)]),
        tok .parenR]
  | .groupedExpr => .seq [tok .parenL, .rule .expr, tok .parenR]
  | .listExpr =>
      .seq [tok .bracketL,
        .optional (.seq [.rule .expr, .repeat (.seq [tok .comma, .rule .expr]),
          .optional (tok .comma)]),
        tok .bracketR]
  | .dictExpr =>
      .seq [tok .braceL,
        .choice [
          tok .braceR,
          .seq [.and (.seq [tok .ident, tok .assign]), .rule .dictItem,
            .repeat (.seq [tok .comma, .choice [.rule .dictItem, .rule .badDictItem]]),
            .optional (tok .comma), tok .braceR]]]
  | .dictItem => .seq [tok .ident, tok .assign, .rule .expr]
  | .badDictItem => .seq [tok .ident, .not (tok .assign)]
  | .recordUpdateExpr =>
      .seq [tok .braceL, .rule .expr, .label "expected `with`" (tok .kwWith), .rule .dictExpr,
        tok .braceR]
  | .negExpr => .seq [tok .sub, .cut (.rule .expr)]
  | .lambdaExpr =>
      .seq [tok .backSlash,
        .cut (.seq [.repeat (.rule .lambdaParam), .optional (.rule .whereConstraints), tok .arrowR,
          .rule .expr])]
  | .lambdaParam =>
      .choice [
        .seq [tok .ident, .optional (.seq [tok .colon, .rule .typeExpr])],
        .seq [tok .parenL, tok .ident, tok .colon, .rule .typeExpr, tok .parenR]]
  | .letExpr =>
      .seq [tok .kwLet,
        .cut (.seq [
          .choice [
            .seq [tok .kwRec, .rule .letRecBinding,
              .repeat (.seq [tok .comma, .rule .letRecBinding])],
            .seq [.rule .letBinding, .repeat (.seq [tok .comma, .rule .letBinding])]],
          tok .kwIn, .rule .expr])]
  | .letBinding | .letRecBinding =>
      .seq [.rule .pattern, .optional (.rule .genericParams),
        .optional (.seq [tok .colon, .rule .typeExpr]), tok .assign, .rule .expr]
  | .ifExpr =>
      .seq [tok .kwIf,
        .cut (.seq [.rule .expr, tok .kwThen, .rule .expr, tok .kwElse, .rule .expr])]
  | .matchExpr =>
      .seq [tok .kwMatch,
        .cut (.seq [
          .label "expected `with \x7b` after match scrutinee" (.seq [.rule .expr, tok .kwWith]),
          .label "expected `\x7b` after `with` in match expression" (tok .braceL),
          .repeat1 (.rule .matchArm), tok .braceR])]
  | .matchArm =>
      .seq [tok .kwCase, .rule .pattern, tok .arrowR, .rule .expr,
        .label "expected `;` after match arm expression" (tok .semiColon)]
  | .pattern => .seq [.rule .appPattern, .optional (.seq [tok .colonColon, .rule .pattern])]
  | .appPattern =>
      .choice [.seq [.rule .nameRef, .repeat (.rule .patternAtom)], .rule .patternAtom]
  | .patternAtom =>
      .choice [tok .ident, .rule .listPattern, .rule .dictPattern, .rule .parenPattern]
  | .listPattern =>
      .seq [tok .bracketL,
        .optional (.seq [.rule .pattern, .repeat (.seq [tok .comma, .cut (.rule .pattern)])]),
        tok .bracketR]
  | .dictPattern =>
      .seq [tok .braceL,
        .optional (.seq [.rule .dictPatternField,
          .repeat (.seq [tok .comma, .cut (.rule .dictPatternField)])]),
        tok .braceR]
  | .dictPatternField => .seq [tok .ident, .optional (.seq [tok .colon, .rule .pattern])]
  | .parenPattern =>
      .choice [
        .seq [tok .parenL, tok .parenR],
        .seq [tok .parenL, .rule .pattern, tok .comma,
          .cut (.seq [.rule .pattern, .repeat (.seq [tok .comma, .cut (.rule .pattern)]),
            tok .parenR])],
        .seq [tok .parenL, .rule .pattern, tok .parenR]]
  | .nameRef => .seq [tok .ident, .repeat (.seq [tok .dot, tok .ident])]

/-- A node of the concrete syntax tree of a rex program. -/
abbrev RexNode := CstNode RexRule Token

/-- The tree is one that the grammar can yield. -/
def RexNode.WellFormed (node : RexNode) : Prop :=
  CstNode.Conforms Terminal.matches rexGrammar node

end RexLang
