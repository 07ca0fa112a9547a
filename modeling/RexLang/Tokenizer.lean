import RexLang.Token
import RexLang.TokenRegex

/-!
# Tokenizing

`Token::tokenize`: the successive matches of the token expression become
tokens, white space and comments are dropped, and literals are decoded.
-/

namespace RexLang

open LeftmostFirst LeftmostFirst.Regex

inductive LexicalError where
  | unexpectedToken (span : Span)
  | unclosedBlockComment (span : Span)
  | unmatchedBlockCommentClose (span : Span)
  | invalidLiteral (kind text error : String) (span : Span)
deriving DecidableEq

structure Tokens where
  items : List Token
  eof : Span
deriving DecidableEq

def advancePosition : List Char → Position → Position
  | [], position => position
  | '\r' :: '\n' :: rest, position => advancePosition rest ⟨position.line + 1, 1⟩
  | '\r' :: rest, position => advancePosition rest ⟨position.line + 1, 1⟩
  | '\n' :: rest, position => advancePosition rest ⟨position.line + 1, 1⟩
  | _ :: rest, position => advancePosition rest ⟨position.line, position.column + 1⟩

/-! ## Escape sequences

Every error of a literal names the same literal, so the parsers of escape
sequences return its text only.  They take the characters that are left and
return those they leave. -/

def charFromEscapeValue (value : Nat) : Except String Char :=
  if value.isValidChar then .ok (Char.ofNat value)
  else .error "escape sequence is not a valid character"

def hexValue (symbol : Char) : Option Nat :=
  if '0' ≤ symbol ∧ symbol ≤ '9' then some (symbol.toNat - '0'.toNat)
  else if 'a' ≤ symbol ∧ symbol ≤ 'f' then some (symbol.toNat - 'a'.toNat + 10)
  else if 'A' ≤ symbol ∧ symbol ≤ 'F' then some (symbol.toNat - 'A'.toNat + 10)
  else none

def octalValue (symbol : Char) : Option Nat :=
  if '0' ≤ symbol ∧ symbol ≤ '7' then some (symbol.toNat - '0'.toNat) else none

/-- The loop of `parse_fixed_hex_escape` with the digits still to come. -/
def parseFixedHexDigits (digits : Nat) :
    Nat → Nat → List Char → Except String (Nat × List Char)
  | 0, value, chars => .ok (value, chars)
  | _ + 1, _, [] =>
      .error ("expected " ++ toString digits ++ " hexadecimal digits in escape sequence")
  | count + 1, value, symbol :: chars =>
      match hexValue symbol with
      | none =>
          .error ("expected hexadecimal digit in escape sequence, got `" ++ symbol.toString ++ "`")
      | some digit => parseFixedHexDigits digits count (value * 16 + digit) chars

def parseFixedHexEscape (digits : Nat) (chars : List Char) : Except String (Char × List Char) := do
  let (value, chars) ← parseFixedHexDigits digits digits 0 chars
  return (← charFromEscapeValue value, chars)

/-- The loop of `parse_variable_hex_escape`; values are `u32`. -/
def parseVariableHexDigits :
    Nat → Bool → List Char → Except String ((Nat × Bool) × List Char)
  | value, seen, [] => .ok ((value, seen), [])
  | value, seen, symbol :: chars =>
      match hexValue symbol with
      | none => .ok ((value, seen), symbol :: chars)
      | some digit =>
          if value * 16 + digit < 2 ^ 32 then
            parseVariableHexDigits (value * 16 + digit) true chars
          else .error "hex escape value is too large"

def parseVariableHexEscape (chars : List Char) : Except String (Char × List Char) := do
  let ((value, seen), chars) ← parseVariableHexDigits 0 false chars
  if seen then return (← charFromEscapeValue value, chars)
  else .error "expected hexadecimal digit after `\\x`"

/-- The loop of `parse_octal_escape` with the digits that may still come. -/
def parseOctalDigits : Nat → Nat → List Char → Nat × List Char
  | 0, value, chars => (value, chars)
  | _ + 1, value, [] => (value, [])
  | count + 1, value, symbol :: chars =>
      match octalValue symbol with
      | none => (value, symbol :: chars)
      | some digit => parseOctalDigits count (value * 8 + digit) chars

def parseOctalEscape (first : Char) (chars : List Char) : Except String (Char × List Char) :=
  match octalValue first with
  | none =>
      .error ("expected octal digit in escape sequence, got `" ++ first.toString ++ "`")
  | some value => do
      let (value, chars) := parseOctalDigits 2 value chars
      return (← charFromEscapeValue value, chars)

/-- The escapes of one character that stand for one character. -/
def simpleEscape : Char → Option Char
  | 'a' => some '\x07'
  | 'b' => some '\x08'
  | 'f' => some '\x0c'
  | 'n' => some '\n'
  | 'r' => some '\r'
  | 't' => some '\t'
  | 'v' => some '\x0b'
  | '\\' => some '\\'
  | '\'' => some '\''
  | '"' => some '"'
  | '?' => some '?'
  | _ => none

/-- The line feed of a pair that ends a line. -/
def skipLineFeed : List Char → List Char
  | '\n' :: chars => chars
  | chars => chars

/-- The characters of an escape sequence after its backslash. -/
def unescapeSequence (escaped : Char) (chars : List Char) :
    Except String (List Char × List Char) :=
  match simpleEscape escaped with
  | some symbol => .ok ([symbol], chars)
  | none =>
      if escaped = '\n' then .ok ([], chars)
      else if escaped = '\r' then .ok ([], skipLineFeed chars)
      else if escaped = 'x' then
        (parseVariableHexEscape chars).map fun (symbol, chars) => ([symbol], chars)
      else if escaped = 'u' then
        (parseFixedHexEscape 4 chars).map fun (symbol, chars) => ([symbol], chars)
      else if escaped = 'U' then
        (parseFixedHexEscape 8 chars).map fun (symbol, chars) => ([symbol], chars)
      else if '0' ≤ escaped ∧ escaped ≤ '7' then
        (parseOctalEscape escaped chars).map fun (symbol, chars) => ([symbol], chars)
      else .error ("unsupported escape sequence `\\" ++ escaped.toString ++ "`")

/-- One round of the loop of `unescape_literal`: what is pushed, and the
characters left. -/
def unescapeStep (symbol : Char) (chars : List Char) : Except String (List Char × List Char) :=
  if symbol ≠ '\\' then .ok ([symbol], chars)
  else
    match chars with
    | [] => .error "unterminated escape sequence"
    | escaped :: chars => unescapeSequence escaped chars

/-- The loop of `unescape_literal`.  Every round consumes a character, so the
number of characters bounds the number of rounds. -/
def unescapeLoop : Nat → List Char → Except String (List Char)
  | _, [] => .ok []
  | 0, _ :: _ => .ok []
  | fuel + 1, symbol :: chars => do
      let (out, chars) ← unescapeStep symbol chars
      return out ++ (← unescapeLoop fuel chars)

def unescape (raw : List Char) : Except String (List Char) :=
  unescapeLoop raw.length raw

def invalidLiteral (kind : String) (raw : List Char) (span : Span) (error : String) :
    LexicalError :=
  .invalidLiteral kind (String.ofList raw) error span

def unescapeLiteral (kind : String) (raw : List Char) (span : Span) :
    Except LexicalError (List Char) :=
  (unescape raw).mapError (invalidLiteral kind raw span)

/-! ## Numbers -/

/-- The number a row of decimal digits stands for. -/
def decimalValue (digits : List Char) : Nat :=
  digits.foldl (fun value digit => value * 10 + (digit.toNat - '0'.toNat)) 0

def u64FromStr (digits : List Char) : Except String Nat :=
  if decimalValue digits < 2 ^ 64 then .ok (decimalValue digits)
  else .error "number too large to fit in target type"

/-- The `f64` nearest to a quotient, ties to even.  A significand of `2 ^ 53`
carries into the exponent, and the largest exponent is infinity. -/
def nearestF64 (numerator denominator : Nat) : F64 :=
  if numerator = 0 then 0
  else
    let guess : Int := numerator.log2 - denominator.log2
    let below := if 0 ≤ guess then numerator < denominator * 2 ^ guess.toNat
      else numerator * 2 ^ (-guess).toNat < denominator
    let exponent := max (if below then guess - 1 else guess) (-1022)
    let numerator := numerator * 2 ^ (52 - exponent).toNat
    let denominator := denominator * 2 ^ (exponent - 52).toNat
    let quotient := numerator / denominator
    let remainder := numerator % denominator
    let up := denominator < 2 * remainder ∨ denominator = 2 * remainder ∧ quotient % 2 = 1
    let significand := if up then quotient + 1 else quotient
    BitVec.ofNat 64 (min ((exponent + 1022).toNat * 2 ^ 52 + significand) (2047 * 2 ^ 52))

/-- `f64::from_str` on a decimal fraction. -/
def f64FromStr (raw : List Char) : F64 :=
  let whole := raw.takeWhile isDigit
  let decimals := (raw.dropWhile isDigit).drop 1
  nearestF64 (decimalValue (whole ++ decimals)) (10 ^ decimals.length)

def boolFromStr (raw : List Char) : Except String Bool :=
  if raw = "true".toList then .ok true
  else if raw = "false".toList then .ok false
  else .error "provided string was not `true` or `false`"

/-! ## The main loop -/

/-- The token of a match, or `none` where the loop continues.  Each alternative
has at most one named group, so the chain of tests in `tokenize` selects the
group that took part; `LambdaR` is not among them. -/
def captureToken (capture : Option (TokenGroup × List Char)) (span : Span) :
    Except LexicalError (Option TokenKind) :=
  match capture with
  | none => .error (.unexpectedToken span)
  | some (name, raw) =>
    match name with
    | .kwAs => .ok (some .kwAs)
    | .kwCase => .ok (some .kwCase)
    | .kwClass => .ok (some .kwClass)
    | .kwDeclare => .ok (some .kwDeclare)
    | .kwElse => .ok (some .kwElse)
    | .kwFn => .ok (some .kwFn)
    | .kwFor => .ok (some .kwFor)
    | .kwIf => .ok (some .kwIf)
    | .kwImport => .ok (some .kwImport)
    | .kwIs => .ok (some .kwIs)
    | .kwInstance => .ok (some .kwInstance)
    | .kwMatch => .ok (some .kwMatch)
    | .kwPub => .ok (some .kwPub)
    | .kwType => .ok (some .kwType)
    | .kwWhen => .ok (some .kwWhen)
    | .kwIn => .ok (some .kwIn)
    | .kwThen => .ok (some .kwThen)
    | .kwWith => .ok (some .kwWith)
    | .kwWhere => .ok (some .kwWhere)
    | .arrowL => .ok (some .arrowL)
    | .arrowR => .ok (some .arrowR)
    | .backSlash => .ok (some .backSlash)
    | .blockComment | .lineComment => .ok none
    | .commentL => .error (.unclosedBlockComment span)
    | .commentR => .error (.unmatchedBlockCommentClose span)
    | .braceL => .ok (some .braceL)
    | .braceR => .ok (some .braceR)
    | .bracketL => .ok (some .bracketL)
    | .bracketR => .ok (some .bracketR)
    | .colonColon => .ok (some .colonColon)
    | .colon => .ok (some .colon)
    | .comma => .ok (some .comma)
    | .dotDot => .ok (some .dotDot)
    | .kwLet => .ok (some .kwLet)
    | .kwRec => .ok (some .kwRec)
    | .lambdaR => .error (.unexpectedToken span)
    | .parenL => .ok (some .parenL)
    | .parenR => .ok (some .parenR)
    | .pipe => .ok (some .pipe)
    | .question => .ok (some .question)
    | .semiColon => .ok (some .semiColon)
    | .skipSpace | .skipLineBreak => .ok none
    | .add => .ok (some .add)
    | .and => .ok (some .and)
    | .div => .ok (some .div)
    | .dot => .ok (some .dot)
    | .equal => .ok (some .eq)
    | .notEqual => .ok (some .ne)
    | .greaterThanEq => .ok (some .ge)
    | .greaterThan => .ok (some .gt)
    | .lessThanEq => .ok (some .le)
    | .lessThan => .ok (some .lt)
    | .mod => .ok (some .mod)
    | .mul => .ok (some .mul)
    | .or => .ok (some .or)
    | .sub => .ok (some .sub)
    | .assign => .ok (some .assign)
    | .bool =>
        ((boolFromStr raw).mapError (invalidLiteral "bool" raw span)).map (some <| .bool ·)
    | .float => .ok (some (.float (f64FromStr raw)))
    | .int => ((u64FromStr raw).mapError (invalidLiteral "int" raw span)).map (some <| .int ·)
    | .null => .ok (some .null)
    | .doubleString =>
        (unescapeLiteral "string" raw span).map fun value => some (.string (String.ofList value))
    | .char =>
        match unescapeLiteral "char" raw span with
        | .error error => .error error
        | .ok [] => .error (invalidLiteral "char" raw span
            "expected exactly one Unicode scalar value, got none")
        | .ok [value] => .ok (some (.char value))
        | .ok (_ :: _ :: _) => .error (invalidLiteral "char" raw span
            "expected exactly one Unicode scalar value, got more than one")
    | .ident => .ok (some (.ident (String.ofList raw)))

/-- The loop over the matches, with the position where the next one begins. -/
def tokenizeCaptures :
    List (Found Char TokenGroup) → Position → Except LexicalError (List Token × Position)
  | [], position => .ok ([], position)
  | capture :: captures, begin => do
      let finish := advancePosition capture.consumed begin
      let span := Span.fromBeginEnd begin finish
      let kind ← captureToken capture.captures.head? span
      let (tokens, position) ← tokenizeCaptures captures finish
      return (kind.toList.map (⟨·, span⟩) ++ tokens, position)

/-- `Token::tokenize`. -/
def tokenize (words : WordClass) (input : String) : Except LexicalError Tokens := do
  let captures := (tokenRegex words).capturesIter (input.toList.length + 1) none input.toList
  let (items, position) ← tokenizeCaptures captures ⟨1, 1⟩
  return ⟨items, Span.fromBeginEnd position position⟩

end RexLang
