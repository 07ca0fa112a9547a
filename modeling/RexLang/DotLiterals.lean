import RexLang.LiteralScanning

/-!
# Literals of DOT

A quoted string of DOT ends at the first quote that no backslash escapes, where two
backslashes escape nothing, and an HTML string at the angle bracket that balances its
first one.  A quote that is written after a backslash escapes it, so that the quoted
text of a value ends early if and only if the value has a quote after an odd number of
backslashes.
-/

namespace RexLang.Graphviz

/-- What DOT reads: characters outside and inside of literals, and where these start
and end. -/
inductive DotSign where
  | outside (symbol : Char)
  | opens (symbol : Char)
  | inside (symbol : Char)
  | closes
deriving DecidableEq

inductive DotMode where
  | outside
  | quoted (escaped : Bool)
  /-- In an HTML string, with the number of angle brackets that are open but the first. -/
  | html (depth : Nat)

/-- A character of an HTML string. -/
def htmlStep (depth : Nat) (symbol : Char) : List DotSign × DotMode :=
  if symbol = '<' then ([.inside symbol], .html (depth + 1))
  else if symbol = '>' then
    match depth with
    | 0 => ([.closes], .outside)
    | depth + 1 => ([.inside symbol], .html depth)
  else ([.inside symbol], .html depth)

def dotStep : DotMode → Char → List DotSign × DotMode
  | .outside, symbol =>
      if symbol = '"' then ([.opens symbol], .quoted false)
      else if symbol = '<' then ([.opens symbol], .html 0)
      else ([.outside symbol], .outside)
  | .quoted false, symbol =>
      if symbol = '"' then ([.closes], .outside)
      else if symbol = '\\' then ([], .quoted true)
      else ([.inside symbol], .quoted false)
  | .quoted true, symbol =>
      (if symbol = '"' then [.inside symbol] else [.inside '\\', .inside symbol], .quoted false)
  | .html depth, symbol => htmlStep depth symbol

def dotScanner : Scanner DotMode DotSign :=
  ⟨dotStep⟩

/-! ## Quoted texts -/

/-- The escapes of `write_quoted`. -/
def escapeChar (symbol : Char) : List Char :=
  if symbol = '"' then ['\\', '"']
  else if symbol = '\n' then ['\\', 'n']
  else if symbol = '\r' then ['\\', 'r']
  else [symbol]

/-- What DOT reads for a character of a quoted value. -/
def readChar (symbol : Char) : List Char :=
  if symbol = '\n' then ['\\', 'n'] else if symbol = '\r' then ['\\', 'r'] else [symbol]

/-- The number of backslashes at the end is even, after an odd number or not. -/
def EndsEven : Bool → List Char → Prop
  | odd, [] => odd = false
  | odd, symbol :: text => EndsEven (decide (symbol = '\\') && !odd) text

/-- No quote comes right after an odd number of backslashes. -/
def QuotesApart : Bool → List Char → Prop
  | _, [] => True
  | odd, symbol :: text =>
      (symbol = '"' → odd = false) ∧ QuotesApart (decide (symbol = '\\') && !odd) text

def decideQuotesApart (odd : Bool) : (text : List Char) → Decidable (QuotesApart odd text)
  | [] => isTrue trivial
  | symbol :: text =>
      have := decideQuotesApart (decide (symbol = '\\') && !odd) text
      inferInstanceAs (Decidable ((symbol = '"' → odd = false) ∧
        QuotesApart (decide (symbol = '\\') && !odd) text))

instance (odd : Bool) (text : List Char) : Decidable (QuotesApart odd text) :=
  decideQuotesApart odd text

/-- The backslash that the reading holds back. -/
def heldBack (odd : Bool) : List DotSign :=
  if odd then [.inside '\\'] else []

theorem run_cons_quoted (odd : Bool) (symbol : Char) (text : List Char) :
    dotScanner.run (.quoted odd) (symbol :: text) =
      (dotStep (.quoted odd) symbol).1 ++
        dotScanner.run (dotStep (.quoted odd) symbol).2 text :=
  rfl

/-- What the escape of a character gives at once, if it is not held back. -/
def givenAtOnce (odd : Bool) (symbol : Char) : List DotSign :=
  if symbol = '\\' && !odd then [] else (readChar symbol).map .inside

/-- The reading of the escape of a character that is no quote. -/
theorem run_escapeChar (odd : Bool) {symbol : Char} (notQuote : symbol ≠ '"') (text : List Char) :
    dotScanner.run (.quoted odd) (escapeChar symbol ++ text) =
      heldBack odd ++ (givenAtOnce odd symbol ++
        dotScanner.run (.quoted (decide (symbol = '\\') && !odd)) text) := by
  unfold escapeChar givenAtOnce readChar
  by_cases isNewline : symbol = '\n'
  · subst isNewline
    cases odd <;> rfl
  by_cases isReturn : symbol = '\r'
  · subst isReturn
    cases odd <;> rfl
  by_cases isBackslash : symbol = '\\'
  · subst isBackslash
    cases odd <;> rfl
  · rw [if_neg notQuote, if_neg isNewline, if_neg isReturn, List.singleton_append, run_cons_quoted]
    cases odd <;> simp [dotStep, heldBack, notQuote, isBackslash]

theorem readChar_eq (odd : Bool) (symbol : Char) :
    (readChar symbol).map DotSign.inside =
      givenAtOnce odd symbol ++ heldBack (decide (symbol = '\\') && !odd) := by
  unfold givenAtOnce
  by_cases isBackslash : symbol = '\\'
  · subst isBackslash
    cases odd <;> rfl
  · simp [isBackslash, heldBack]

/-- A value whose quotes are apart from backslashes is read to its closing quote. -/
theorem run_quoted_safe {odd : Bool} {value : List Char} (apart : QuotesApart odd value)
    (even : EndsEven odd value) (rest : List Char) :
    dotScanner.run (.quoted odd) (value.flatMap escapeChar ++ '"' :: rest) =
      heldBack odd ++ ((value.flatMap readChar).map .inside ++
        .closes :: dotScanner.run .outside rest) := by
  induction value generalizing odd with
  | nil =>
      obtain rfl : odd = false := even
      rfl
  | cons symbol value hypothesis =>
      have onRest := hypothesis apart.2 even
      rw [List.flatMap_cons, List.flatMap_cons, List.append_assoc, List.map_append]
      by_cases isQuote : symbol = '"'
      · obtain rfl : odd = false := apart.1 isQuote
        subst isQuote
        exact congrArg (DotSign.inside '"' :: ·) onRest
      · rw [run_escapeChar odd isQuote, onRest, readChar_eq odd symbol]
        simp only [List.append_assoc]

/-- Another value is not. -/
theorem run_quoted_unsafe {odd : Bool} {value : List Char} (notApart : ¬QuotesApart odd value)
    (rest : List Char) (others : List DotSign) :
    dotScanner.run (.quoted odd) (value.flatMap escapeChar ++ '"' :: rest) ≠
      heldBack odd ++ ((value.flatMap readChar).map .inside ++ .closes :: others) := by
  induction value generalizing odd with
  | nil => exact absurd trivial notApart
  | cons symbol value hypothesis =>
      rw [List.flatMap_cons, List.flatMap_cons, List.append_assoc, List.map_append]
      by_cases isQuote : symbol = '"'
      · subst isQuote
        cases odd with
        | false =>
            have onRest := hypothesis fun apart => notApart ⟨fun _ => rfl, apart⟩
            intro same
            exact onRest (List.tail_eq_of_cons_eq same)
        | true =>
            -- The backslash that escapes the quote is read as the second one of a pair.
            intro same
            have second := List.head_eq_of_cons_eq (List.tail_eq_of_cons_eq same)
            cases second
      · have onRest := hypothesis fun apart => notApart ⟨fun isQuote' => absurd isQuote' isQuote, apart⟩
        rw [run_escapeChar odd isQuote, readChar_eq odd symbol]
        intro same
        simp only [List.append_assoc, List.append_cancel_left_eq] at same
        exact onRest same

/-! ## HTML texts -/

/-- The angle brackets balance, where some are open. -/
def Balanced : Nat → List Char → Prop
  | depth, [] => depth = 0
  | depth, symbol :: text =>
      if symbol = '<' then Balanced (depth + 1) text
      else if symbol = '>' then
        match depth with
        | 0 => False
        | depth + 1 => Balanced depth text
      else Balanced depth text

theorem run_cons_html (depth : Nat) (symbol : Char) (text : List Char) :
    dotScanner.run (.html depth) (symbol :: text) =
      (htmlStep depth symbol).1 ++ dotScanner.run (htmlStep depth symbol).2 text :=
  rfl

theorem run_html_safe {depth : Nat} {value : List Char} (balanced : Balanced depth value)
    (rest : List Char) :
    dotScanner.run (.html depth) (value ++ '>' :: rest) =
      value.map .inside ++ .closes :: dotScanner.run .outside rest := by
  induction value generalizing depth with
  | nil =>
      obtain rfl : depth = 0 := balanced
      rfl
  | cons symbol value hypothesis =>
      rw [List.cons_append, run_cons_html, List.map_cons, List.cons_append]
      unfold Balanced at balanced
      unfold htmlStep
      by_cases isOpen : symbol = '<'
      · rw [if_pos isOpen] at balanced
        rw [if_pos isOpen, hypothesis balanced]
        rfl
      · rw [if_neg isOpen] at balanced
        rw [if_neg isOpen]
        by_cases isClose : symbol = '>'
        · rw [if_pos isClose] at balanced
          rw [if_pos isClose]
          cases depth with
          | zero => exact balanced.elim
          | succ depth => exact congrArg (DotSign.inside symbol :: ·) (hypothesis balanced)
        · rw [if_neg isClose] at balanced
          rw [if_neg isClose, hypothesis balanced]
          rfl

theorem run_html_unsafe {depth : Nat} {value : List Char} (unbalanced : ¬Balanced depth value)
    (rest : List Char) (others : List DotSign) :
    dotScanner.run (.html depth) (value ++ '>' :: rest) ≠
      value.map .inside ++ .closes :: others := by
  induction value generalizing depth with
  | nil =>
      cases depth with
      | zero => exact absurd rfl unbalanced
      | succ depth =>
          intro same
          cases List.head_eq_of_cons_eq same
  | cons symbol value hypothesis =>
      rw [List.cons_append, run_cons_html, List.map_cons, List.cons_append]
      unfold Balanced at unbalanced
      unfold htmlStep
      by_cases isOpen : symbol = '<'
      · rw [if_pos isOpen] at unbalanced
        rw [if_pos isOpen]
        intro same
        exact hypothesis unbalanced (List.tail_eq_of_cons_eq same)
      · rw [if_neg isOpen] at unbalanced
        rw [if_neg isOpen]
        by_cases isClose : symbol = '>'
        · rw [if_pos isClose] at unbalanced
          rw [if_pos isClose]
          cases depth with
          | zero =>
              intro same
              cases List.head_eq_of_cons_eq same
          | succ depth =>
              intro same
              exact hypothesis unbalanced (List.tail_eq_of_cons_eq same)
        · rw [if_neg isClose] at unbalanced
          rw [if_neg isClose]
          intro same
          exact hypothesis unbalanced (List.tail_eq_of_cons_eq same)

/-! ## The rules -/

/-- A text that may be written in quotes, as its last backslashes escape none. -/
structure QuotedText where
  value : String
  even : EndsEven false value.toList

/-- What DOT reads for a quoted text. -/
def QuotedText.read (text : QuotedText) : List Char :=
  text.value.toList.flatMap readChar

inductive DotLiteral where
  | quoted (text : QuotedText)
  | html (value : String)

namespace DotLiteral

def text : DotLiteral → List Char
  | .quoted text => '"' :: (text.value.toList.flatMap escapeChar ++ ['"'])
  | .html value => '<' :: (value.toList ++ ['>'])

/-- The value in its delimiters; a line break of a quoted value is read as an escape. -/
def signs : DotLiteral → List DotSign
  | .quoted text => .opens '"' :: (text.read.map .inside ++ [.closes])
  | .html value => .opens '<' :: (value.toList.map .inside ++ [.closes])

def Safe : DotLiteral → Prop
  | .quoted text => QuotesApart false text.value.toList
  | .html value => Balanced 0 value.toList

theorem run_safe (literal : DotLiteral) (safe : literal.Safe) (rest : List Char) :
    dotScanner.run .outside (literal.text ++ rest) =
      literal.signs ++ dotScanner.run .outside rest := by
  cases literal with
  | quoted quotedText =>
      have inside := congrArg (DotSign.opens '"' :: ·) (run_quoted_safe safe quotedText.even rest)
      rw [text, signs, QuotedText.read]
      simp only [List.cons_append, List.append_assoc, List.nil_append]
      exact inside
  | html value =>
      have inside := congrArg (DotSign.opens '<' :: ·) (run_html_safe safe rest)
      rw [text, signs]
      simp only [List.cons_append, List.append_assoc, List.nil_append]
      exact inside

theorem run_unsafe (literal : DotLiteral) (notSafe : ¬literal.Safe) (rest : List Char)
    (others : List DotSign) :
    dotScanner.run .outside (literal.text ++ rest) ≠ literal.signs ++ others := by
  intro same
  cases literal with
  | quoted quotedText =>
      rw [text, signs, QuotedText.read] at same
      simp only [List.cons_append, List.append_assoc, List.nil_append] at same
      exact run_quoted_unsafe notSafe rest others (List.tail_eq_of_cons_eq same)
  | html value =>
      rw [text, signs] at same
      simp only [List.cons_append, List.append_assoc, List.nil_append] at same
      exact run_html_unsafe notSafe rest others (List.tail_eq_of_cons_eq same)

end DotLiteral

/-- How DOT reads quoted strings and HTML strings. -/
def dotRules : LiteralRules DotMode DotSign DotLiteral where
  toScanner := dotScanner
  start := .outside
  Plain symbol := symbol ≠ '"' ∧ symbol ≠ '<'
  plainSign := .outside
  text := DotLiteral.text
  signs := DotLiteral.signs
  Safe := DotLiteral.Safe
  step_plain symbol plain := by simp [dotScanner, dotStep, plain.1, plain.2]
  run_safe := DotLiteral.run_safe
  run_unsafe := DotLiteral.run_unsafe

end RexLang.Graphviz
