import RexLang.Ast

/-!
# Tokens

The tokens of `lexer.rs`.  Every variant of the source carries its span last,
so a token is a kind with a span.
-/

namespace RexLang

/-- The variants of `Token`, with the values of literals and identifiers. -/
inductive TokenKind where
  | kwAs | kwCase | kwClass | kwDeclare | kwElse | kwFn | kwFor | kwIf | kwImport | kwIs
  | kwInstance | kwMatch | kwPub | kwType | kwWhen | kwThen | kwWith | kwWhere
  | add | and | div | dot | eq | ne | ge | gt | le | lt | mod | mul | or | sub
  | arrowL | arrowR | assign | backSlash | braceL | braceR | bracketL | bracketR | colon
  | colonColon | comma | commentL | commentR | dotDot | kwIn | kwLet | kwRec | parenL | parenR
  | pipe | question | semiColon
  | bool (value : Bool)
  | char (value : Char)
  | float (value : F64)
  | int (value : Nat)
  | null
  | string (value : String)
  | ident (name : String)
  | eof
deriving DecidableEq

structure Token where
  kind : TokenKind
  span : Span
deriving DecidableEq

/-- `Token::precedence`; `Precedence::lowest` is 0 and `Precedence::highest`
is 255. -/
def Token.precedence (token : Token) : Nat :=
  match token.kind with
  | .or => 1
  | .and => 2
  | .eq | .ne | .lt | .le | .gt | .ge => 3
  | .add | .sub => 4
  | .mul | .div | .mod => 5
  | .ident _ => 255
  | _ => 0

def operatorTokenName : TokenKind → Option String
  | .add => some "+"
  | .and => some "&&"
  | .div => some "/"
  | .eq => some "=="
  | .ne => some "!="
  | .ge => some ">="
  | .gt => some ">"
  | .le => some "<="
  | .lt => some "<"
  | .mod => some "%"
  | .mul => some "*"
  | .or => some "||"
  | .sub => some "-"
  | _ => none

def binaryOperatorTokenName : TokenKind → Option String
  | .colonColon => some "::"
  | kind => operatorTokenName kind

/-- The tokens that `expect_binary_operator` lets through. -/
def BinaryOperator :=
  { token : Token // (binaryOperatorTokenName token.kind).isSome }

end RexLang
