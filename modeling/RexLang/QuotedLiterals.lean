import RexLang.Tokenizer

/-!
# Sequences of lexemes

A source text that consists of well-formed lexemes separated by single spaces
should be tokenized lexeme by lexeme.  This file determines when it is: the
expression for quoted literals takes a closing quote after an escaped backslash
for an escaped quote as soon as a later quote can close the literal.
-/

namespace RexLang

open LeftmostFirst LeftmostFirst.Regex

/-! ## Bodies of quoted literals -/

/-- A body of ordinary characters and escapes, which ends before any quote that
is not escaped. -/
def closedBody (quote : Char) : List Char → Bool
  | [] => true
  | [symbol] => symbol != '\\' && symbol != quote
  | symbol :: next :: rest =>
      if symbol = '\\' then closedBody quote rest
      else symbol != quote && closedBody quote (next :: rest)

section Closing

variable {quote : Char}

attribute [local simp] closedBody

@[simp]
theorem splitAtClosing_quote (rest : List Char) :
    splitAtClosing quote (quote :: rest) = some ([], rest) := by
  cases rest <;> exact if_pos rfl

theorem splitAtClosing_escape (notBackslash : quote ≠ '\\') (rest : List Char) :
    splitAtClosing quote ('\\' :: quote :: rest) =
      match splitAtClosing quote rest with
      | some (body, after) => some ('\\' :: quote :: body, after)
      | none => some (['\\'], rest) :=
  (if_neg (Ne.symm notBackslash)).trans (if_pos ⟨rfl, rfl⟩)

theorem splitAtClosing_cons {symbol : Char} {rest : List Char} (notQuote : symbol ≠ quote)
    (noEscape : ¬ (symbol = '\\' ∧ rest.head? = some quote)) :
    splitAtClosing quote (symbol :: rest) =
      (splitAtClosing quote rest).map fun (body, after) => (symbol :: body, after) := by
  cases rest with
  | nil => exact if_neg notQuote
  | cons next rest => exact (if_neg notQuote).trans (if_neg (by simpa using noEscape))

/-- A quote always closes a literal that has not been closed before it. -/
theorem splitAtClosing_eq_none_iff (notBackslash : quote ≠ '\\') (input : List Char) :
    splitAtClosing quote input = none ↔ quote ∉ input := by
  induction input using splitAtClosing.induct quote with
  | case1 => simp [splitAtClosing]
  | case2 => simp [splitAtClosing]
  | case3 symbol notQuote => simp [splitAtClosing, notQuote, Ne.symm notQuote]
  | case4 next rest => simp
  | case5 symbol next rest notQuote escape body after split restIH =>
      obtain ⟨rfl, rfl⟩ := escape
      simp [splitAtClosing_escape notBackslash, split]
  | case6 symbol next rest notQuote escape split restIH =>
      obtain ⟨rfl, rfl⟩ := escape
      simp [splitAtClosing_escape notBackslash, split]
  | case7 symbol next rest notQuote noEscape restIH =>
      rw [splitAtClosing_cons notQuote (by simpa using noEscape), Option.map_eq_none_iff, restIH]
      simp [Ne.symm notQuote]

theorem closedBody_head_ne (notBackslash : quote ≠ '\\') {symbol : Char} {rest : List Char}
    (closed : closedBody quote (symbol :: rest) = true) : symbol ≠ quote := by
  rintro rfl
  cases rest <;> simp [notBackslash] at closed

/-- The end of a well-formed body is found, unless the body ends with a
backslash: then the literal continues if a later quote can close it. -/
theorem splitAtClosing_body (notBackslash : quote ≠ '\\') (body after : List Char)
    (closed : closedBody quote body = true) :
    splitAtClosing quote (body ++ quote :: after) =
      match (if body.getLast? = some '\\' then splitAtClosing quote after else none) with
      | some (more, rest) => some (body ++ quote :: more, rest)
      | none => some (body, after) := by
  induction body using closedBody.induct with
  | case1 => simp
  | case2 symbol =>
      simp only [closedBody, Bool.and_eq_true, bne_iff_ne] at closed
      simp [splitAtClosing_cons closed.2, closed.1]
  | case3 next rest restIH =>
      rw [closedBody, if_pos rfl] at closed
      rw [List.cons_append, List.cons_append]
      by_cases isQuote : next = quote
      · subst isQuote
        rw [splitAtClosing_escape notBackslash, restIH closed]
        cases rest with
        | nil => simp [notBackslash]
        | cons symbol rest =>
            rw [List.getLast?_cons_cons, List.getLast?_cons_cons]
            cases (if (symbol :: rest).getLast? = some '\\' then splitAtClosing next after
              else none) <;> rfl
      · rw [splitAtClosing_cons (Ne.symm notBackslash) (by simpa using isQuote)]
        cases rest with
        | nil =>
            by_cases isBackslash : next = '\\'
            · subst isBackslash
              rw [List.nil_append, splitAtClosing_escape notBackslash]
              cases splitAtClosing quote after <;> simp
            · rw [splitAtClosing_cons isQuote (by simp [isBackslash])]
              simp [isBackslash]
        | cons symbol rest =>
            have symbolOther := closedBody_head_ne notBackslash closed
            rw [splitAtClosing_cons isQuote (by simp [symbolOther]), restIH closed,
              List.getLast?_cons_cons, List.getLast?_cons_cons]
            cases (if (symbol :: rest).getLast? = some '\\' then splitAtClosing quote after
              else none) <;> rfl
  | case4 symbol next rest notEscape restIH =>
      rw [closedBody, if_neg notEscape, Bool.and_eq_true, bne_iff_ne] at closed
      have nextIH := restIH closed.2
      rw [List.cons_append, splitAtClosing_cons closed.1 (by simp [notEscape]), nextIH,
        List.getLast?_cons_cons]
      cases (if (next :: rest).getLast? = some '\\' then splitAtClosing quote after else none) <;>
        rfl

theorem splitAtClosing_intact (notBackslash : quote ≠ '\\') {body after : List Char}
    (closed : closedBody quote body = true)
    (intact : body.getLast? = some '\\' → quote ∉ after) :
    splitAtClosing quote (body ++ quote :: after) = some (body, after) := by
  rw [splitAtClosing_body notBackslash body after closed]
  by_cases dangling : body.getLast? = some '\\'
  · rw [if_pos dangling, (splitAtClosing_eq_none_iff notBackslash after).mpr (intact dangling)]
  · rw [if_neg dangling]

theorem splitAtClosing_swallows (notBackslash : quote ≠ '\\') {body after : List Char}
    (closed : closedBody quote body = true) (dangling : body.getLast? = some '\\')
    (member : quote ∈ after) :
    ∃ more rest, splitAtClosing quote (body ++ quote :: after) =
      some (body ++ quote :: more, rest) := by
  rw [splitAtClosing_body notBackslash body after closed, if_pos dangling]
  cases hAfter : splitAtClosing quote after with
  | none => exact absurd member ((splitAtClosing_eq_none_iff notBackslash after).mp hAfter)
  | some split => exact ⟨split.1, split.2, rfl⟩

end Closing

/-! ## Unescaping a longer literal

What follows a body that ends with a backslash does not change how the body is
unescaped: the parsers that look ahead stop before the backslash. -/

section LookAhead

variable {First Second : Type}

/-- A parser of part of a literal that leaves no more than it was given, and
does not notice what follows an input that ends with a backslash. -/
structure StopsAtBackslash (parse : List Char → Except String (First × List Char)) : Prop where
  leaves : ∀ chars result rest, parse chars = .ok (result, rest) → rest.length ≤ chars.length
  stops : ∀ chars result rest more, chars.getLast? = some '\\' →
    parse chars = .ok (result, rest) →
      parse (chars ++ more) = .ok (result, rest ++ more) ∧
        (rest = [] ∨ rest.getLast? = some '\\')

theorem getLast?_of_cons {symbol : Char} {chars : List Char} (notBackslash : symbol ≠ '\\')
    (last : (symbol :: chars).getLast? = some '\\') : chars.getLast? = some '\\' := by
  cases chars with
  | nil => simp [notBackslash] at last
  | cons next chars => rwa [List.getLast?_cons_cons] at last

theorem getLast?_tail {symbol : Char} {chars : List Char}
    (last : (symbol :: chars).getLast? = some '\\') :
    chars = [] ∨ chars.getLast? = some '\\' := by
  cases chars with
  | nil => exact Or.inl rfl
  | cons next chars => exact Or.inr (by rwa [List.getLast?_cons_cons] at last)

theorem stopsAtBackslash_error (error : String) :
    StopsAtBackslash fun _ => (.error error : Except String (First × List Char)) := by
  constructor
  · rintro chars result rest ⟨⟩
  · rintro chars result rest more last ⟨⟩

/-- A check of the result does not look at the input. -/
theorem StopsAtBackslash.check {parse : List Char → Except String (First × List Char)}
    (parseStops : StopsAtBackslash parse) (check : First → Except String Second) :
    StopsAtBackslash fun chars => (parse chars).bind fun (value, chars) =>
      (check value).map (·, chars) := by
  have inversion {chars : List Char} {result : Second} {rest : List Char}
      (parsed : ((parse chars).bind fun (value, chars) => (check value).map (·, chars)) =
        .ok (result, rest)) :
      ∃ value, parse chars = .ok (value, rest) ∧ check value = .ok result := by
    cases hParse : parse chars with
    | error error =>
        rw [hParse] at parsed
        cases parsed
    | ok parse =>
        obtain ⟨value, left⟩ := parse
        cases hCheck : check value with
        | error error =>
            simp only [hParse, Except.bind, hCheck] at parsed
            cases parsed
        | ok checked =>
            simp only [hParse, Except.bind, hCheck] at parsed
            cases parsed
            exact ⟨value, rfl, hCheck⟩
  constructor
  · intro chars result rest parsed
    obtain ⟨value, hParse, -⟩ := inversion parsed
    exact parseStops.leaves chars value rest hParse
  · intro chars result rest more last parsed
    obtain ⟨value, hParse, hCheck⟩ := inversion parsed
    obtain ⟨extended, restLast⟩ := parseStops.stops chars value rest more last hParse
    simp only [extended, Except.bind, hCheck]
    exact ⟨rfl, restLast⟩

theorem StopsAtBackslash.single {parse : List Char → Except String (Char × List Char)}
    (parseStops : StopsAtBackslash parse) :
    StopsAtBackslash fun chars => (parse chars).map fun (symbol, chars) => ([symbol], chars) := by
  have same : (fun chars => (parse chars).map fun (symbol, chars) => ([symbol], chars)) =
      fun chars => (parse chars).bind fun (symbol, chars) =>
        (Except.ok [symbol] : Except String _).map (·, chars) := by
    funext chars
    cases parse chars <;> rfl
  rw [same]
  exact parseStops.check fun symbol => .ok [symbol]

end LookAhead

theorem ne_backslash_of_hexValue {symbol : Char} {digit : Nat}
    (isDigit : hexValue symbol = some digit) : symbol ≠ '\\' := by
  rintro rfl
  have noDigit : hexValue '\\' = none := by decide
  simp [noDigit] at isDigit

theorem ne_backslash_of_octalValue {symbol : Char} {digit : Nat}
    (isDigit : octalValue symbol = some digit) : symbol ≠ '\\' := by
  rintro rfl
  have noDigit : octalValue '\\' = none := by decide
  simp [noDigit] at isDigit

theorem parseFixedHexDigits_stops (digits count value : Nat) :
    StopsAtBackslash (parseFixedHexDigits digits count value) := by
  induction count generalizing value with
  | zero =>
      constructor
      · rintro chars result rest ⟨⟩
        exact Nat.le_refl _
      · rintro chars result rest more last ⟨⟩
        exact ⟨rfl, Or.inr last⟩
  | succ count countIH =>
      constructor
      · intro chars result rest parsed
        cases chars with
        | nil => cases parsed
        | cons symbol chars =>
            cases hValue : hexValue symbol with
            | none => simp [parseFixedHexDigits, hValue] at parsed
            | some digit =>
                simp only [parseFixedHexDigits, hValue] at parsed
                exact Nat.le_succ_of_le ((countIH _).leaves chars result rest parsed)
      · intro chars result rest more last parsed
        cases chars with
        | nil => simp at last
        | cons symbol chars =>
            cases hValue : hexValue symbol with
            | none => simp [parseFixedHexDigits, hValue] at parsed
            | some digit =>
                have notBackslash := ne_backslash_of_hexValue hValue
                simp only [parseFixedHexDigits, List.cons_append, hValue] at parsed ⊢
                exact (countIH _).stops chars result rest more
                  (getLast?_of_cons notBackslash last) parsed

theorem parseVariableHexDigits_stops (value : Nat) (seen : Bool) :
    StopsAtBackslash (parseVariableHexDigits value seen) := by
  constructor
  · intro chars result rest parsed
    induction chars generalizing value seen with
    | nil =>
        cases parsed
        exact Nat.le_refl _
    | cons symbol chars charsIH =>
        cases hValue : hexValue symbol with
        | none =>
            simp only [parseVariableHexDigits, hValue] at parsed
            cases parsed
            exact Nat.le_refl _
        | some digit =>
            by_cases small : value * 16 + digit < 2 ^ 32
            · simp only [parseVariableHexDigits, hValue, if_pos small] at parsed
              exact Nat.le_succ_of_le (charsIH _ _ parsed)
            · simp only [parseVariableHexDigits, hValue, if_neg small] at parsed
              cases parsed
  · intro chars result rest more last parsed
    induction chars generalizing value seen with
    | nil => simp at last
    | cons symbol chars charsIH =>
        cases hValue : hexValue symbol with
        | none =>
            simp only [parseVariableHexDigits, List.cons_append, hValue] at parsed ⊢
            cases parsed
            exact ⟨rfl, Or.inr last⟩
        | some digit =>
            have notBackslash := ne_backslash_of_hexValue hValue
            by_cases small : value * 16 + digit < 2 ^ 32
            · simp only [parseVariableHexDigits, List.cons_append, hValue, if_pos small]
                at parsed ⊢
              exact charsIH _ _ (getLast?_of_cons notBackslash last) parsed
            · simp only [parseVariableHexDigits, hValue, if_neg small] at parsed
              cases parsed

theorem parseOctalDigits_stops (count value : Nat) :
    StopsAtBackslash fun chars => .ok (parseOctalDigits count value chars) := by
  induction count generalizing value with
  | zero =>
      constructor
      · rintro chars result rest ⟨⟩
        exact Nat.le_refl _
      · rintro chars result rest more last ⟨⟩
        exact ⟨rfl, Or.inr last⟩
  | succ count countIH =>
      constructor
      · intro chars result rest parsed
        cases chars with
        | nil =>
            cases parsed
            exact Nat.le_refl _
        | cons symbol chars =>
            cases hValue : octalValue symbol with
            | none =>
                simp only [parseOctalDigits, hValue] at parsed
                cases parsed
                exact Nat.le_refl _
            | some digit =>
                simp only [parseOctalDigits, hValue] at parsed
                exact Nat.le_succ_of_le ((countIH _).leaves chars result rest parsed)
      · intro chars result rest more last parsed
        cases chars with
        | nil => simp at last
        | cons symbol chars =>
            cases hValue : octalValue symbol with
            | none =>
                simp only [parseOctalDigits, List.cons_append, hValue] at parsed ⊢
                cases parsed
                exact ⟨rfl, Or.inr last⟩
            | some digit =>
                have notBackslash := ne_backslash_of_octalValue hValue
                simp only [parseOctalDigits, List.cons_append, hValue] at parsed ⊢
                exact (countIH _).stops chars result rest more
                  (getLast?_of_cons notBackslash last) parsed

theorem parseFixedHexEscape_stops (digits : Nat) :
    StopsAtBackslash (parseFixedHexEscape digits) :=
  (parseFixedHexDigits_stops digits digits 0).check charFromEscapeValue

theorem parseVariableHexEscape_stops : StopsAtBackslash parseVariableHexEscape := by
  have stops := (parseVariableHexDigits_stops 0 false).check fun (value, seen) =>
    if seen then charFromEscapeValue value else .error "expected hexadecimal digit after `\\x`"
  have same : parseVariableHexEscape = fun chars =>
      (parseVariableHexDigits 0 false chars).bind fun (result, chars) =>
        (if result.2 then charFromEscapeValue result.1
          else .error "expected hexadecimal digit after `\\x`").map (·, chars) := by
    funext chars
    unfold parseVariableHexEscape
    cases parseVariableHexDigits 0 false chars with
    | error error => rfl
    | ok parsed =>
        obtain ⟨⟨value, seen⟩, left⟩ := parsed
        cases seen <;> rfl
  rw [same]
  exact stops

theorem parseOctalEscape_stops (first : Char) : StopsAtBackslash (parseOctalEscape first) := by
  unfold parseOctalEscape
  cases octalValue first with
  | none => exact stopsAtBackslash_error _
  | some value => exact (parseOctalDigits_stops 2 value).check charFromEscapeValue

theorem skipLineFeed_stops :
    StopsAtBackslash fun chars => .ok (([] : List Char), skipLineFeed chars) := by
  constructor
  · rintro chars result rest ⟨⟩
    unfold skipLineFeed
    split
    · exact Nat.le_succ _
    · exact Nat.le_refl _
  · rintro chars result rest more last ⟨⟩
    cases chars with
    | nil => simp at last
    | cons symbol chars =>
        by_cases isLineFeed : symbol = '\n'
        · subst isLineFeed
          exact ⟨rfl, getLast?_tail last⟩
        · simp [skipLineFeed, isLineFeed, last]

theorem unescapeSequence_stops {escaped : Char} (notSimple : simpleEscape escaped = none) :
    StopsAtBackslash (unescapeSequence escaped) := by
  unfold unescapeSequence
  rw [notSimple]
  by_cases isLineFeed : escaped = '\n'
  · simp only [if_pos isLineFeed]
    constructor
    · rintro chars result rest ⟨⟩
      exact Nat.le_refl _
    · rintro chars result rest more last ⟨⟩
      exact ⟨rfl, Or.inr last⟩
  by_cases isReturn : escaped = '\r'
  · simp only [if_neg isLineFeed, if_pos isReturn]
    exact skipLineFeed_stops
  simp only [if_neg isLineFeed, if_neg isReturn]
  by_cases isVariable : escaped = 'x'
  · simpa only [if_pos isVariable] using parseVariableHexEscape_stops.single
  by_cases isFour : escaped = 'u'
  · simpa only [if_neg isVariable, if_pos isFour] using (parseFixedHexEscape_stops 4).single
  by_cases isEight : escaped = 'U'
  · simpa only [if_neg isVariable, if_neg isFour, if_pos isEight] using
      (parseFixedHexEscape_stops 8).single
  by_cases isOctal : '0' ≤ escaped ∧ escaped ≤ '7'
  · simpa only [if_neg isVariable, if_neg isFour, if_neg isEight, if_pos isOctal] using
      (parseOctalEscape_stops escaped).single
  · simp only [if_neg isVariable, if_neg isFour, if_neg isEight, if_neg isOctal]
    exact stopsAtBackslash_error _

theorem unescapeStep_leaves {symbol : Char} {chars result rest : List Char}
    (parsed : unescapeStep symbol chars = .ok (result, rest)) : rest.length ≤ chars.length := by
  unfold unescapeStep at parsed
  by_cases ordinary : symbol ≠ '\\'
  · rw [if_pos ordinary] at parsed
    cases parsed
    exact Nat.le_refl _
  · rw [if_neg ordinary] at parsed
    cases chars with
    | nil => cases parsed
    | cons escaped chars =>
        apply Nat.le_succ_of_le
        cases hSimple : simpleEscape escaped with
        | some simple =>
            simp only [unescapeSequence, hSimple] at parsed
            cases parsed
            exact Nat.le_refl _
        | none => exact (unescapeSequence_stops hSimple).leaves chars result rest parsed

theorem unescapeStep_stops {symbol : Char} {chars result rest : List Char} (more : List Char)
    (last : (symbol :: chars).getLast? = some '\\')
    (parsed : unescapeStep symbol chars = .ok (result, rest)) :
    unescapeStep symbol (chars ++ more) = .ok (result, rest ++ more) ∧
      (rest = [] ∨ rest.getLast? = some '\\') := by
  unfold unescapeStep at parsed ⊢
  by_cases ordinary : symbol ≠ '\\'
  · rw [if_pos ordinary] at parsed ⊢
    cases parsed
    exact ⟨rfl, Or.inr (getLast?_of_cons ordinary last)⟩
  · rw [if_neg ordinary] at parsed ⊢
    cases chars with
    | nil => cases parsed
    | cons escaped chars =>
        rw [List.getLast?_cons_cons] at last
        cases hSimple : simpleEscape escaped with
        | some simple =>
            simp only [unescapeSequence, hSimple, List.cons_append] at parsed ⊢
            cases parsed
            exact ⟨rfl, getLast?_tail last⟩
        | none =>
            have notBackslash : escaped ≠ '\\' := by
              rintro rfl
              simp [simpleEscape] at hSimple
            exact (unescapeSequence_stops hSimple).stops chars result rest more
              (getLast?_of_cons notBackslash last) parsed

/-- The bound on the rounds is only a bound. -/
theorem unescapeLoop_of_length_le (fuel : Nat) (chars : List Char)
    (enough : chars.length ≤ fuel) : unescapeLoop fuel chars = unescape chars := by
  unfold unescape
  induction fuel using Nat.strongRecOn generalizing chars with
  | ind fuel fuelIH =>
      cases chars with
      | nil => cases fuel <;> rfl
      | cons symbol chars =>
          cases fuel with
          | zero => simp at enough
          | succ fuel =>
              simp only [List.length_cons] at enough
              simp only [unescapeLoop, List.length_cons]
              cases hStep : unescapeStep symbol chars with
              | error error => rfl
              | ok step =>
                  have leaves := unescapeStep_leaves hStep
                  have sameRest := (fuelIH fuel (by omega) step.2 (by omega)).trans
                    (fuelIH chars.length (by omega) step.2 leaves).symm
                  simp only [bind, Except.bind, sameRest]

theorem unescape_cons (symbol : Char) (chars : List Char) :
    unescape (symbol :: chars) =
      (unescapeStep symbol chars).bind fun (out, rest) => (unescape rest).map (out ++ ·) := by
  simp only [unescape, List.length_cons, unescapeLoop]
  cases hStep : unescapeStep symbol chars with
  | error error => rfl
  | ok step =>
      have sameRest := unescapeLoop_of_length_le chars.length step.2 (unescapeStep_leaves hStep)
      simp only [bind, Except.bind, sameRest, unescape]
      cases unescapeLoop step.2.length step.2 <;> rfl

/-- Unescaping goes on behind an input that ends with a backslash. -/
theorem unescape_append {chars result : List Char} (more : List Char)
    (last : chars = [] ∨ chars.getLast? = some '\\') (parsed : unescape chars = .ok result) :
    unescape (chars ++ more) = (unescape more).map (result ++ ·) := by
  induction hLength : chars.length using Nat.strongRecOn generalizing chars result with
  | ind length lengthIH =>
      cases chars with
      | nil =>
          cases parsed
          rw [List.nil_append]
          cases unescape more <;> rfl
      | cons symbol chars =>
          have last := last.resolve_left (by simp)
          rw [unescape_cons] at parsed
          rw [List.cons_append, unescape_cons]
          cases hStep : unescapeStep symbol chars with
          | error error => simp [hStep, Except.bind] at parsed
          | ok step =>
              obtain ⟨out, rest⟩ := step
              have leaves := unescapeStep_leaves hStep
              obtain ⟨extended, restLast⟩ := unescapeStep_stops more last hStep
              cases hRest : unescape rest with
              | error error => simp [hStep, Except.bind, hRest, Except.map] at parsed
              | ok value =>
                  have same : out ++ value = result := by
                    simpa [hStep, Except.bind, hRest, Except.map] using parsed
                  have restIH := lengthIH rest.length (by simp at hLength; omega) restLast hRest rfl
                  simp only [extended, Except.bind, restIH, ← same]
                  cases unescape more <;> simp [Except.map]

/-! ## Lexemes -/

/-- The spellings of operators and other symbols. -/
def punctuationTexts : TokenKind → List String
  | .add => ["+"]
  | .and => ["&&"]
  | .div => ["/"]
  | .dot => ["."]
  | .eq => ["=="]
  | .ne => ["!="]
  | .ge => [">="]
  | .gt => [">"]
  | .le => ["<="]
  | .lt => ["<"]
  | .mod => ["%"]
  | .mul => ["*"]
  | .or => ["||"]
  | .sub => ["-"]
  | .arrowL => ["<-", "←"]
  | .arrowR => ["->"]
  | .assign => ["="]
  | .backSlash => ["\\"]
  | .braceL => ["\x7b"]
  | .braceR => ["\x7d"]
  | .bracketL => ["["]
  | .bracketR => ["]"]
  | .colon => [":"]
  | .colonColon => ["::"]
  | .comma => [","]
  | .dotDot => [".."]
  | .parenL => ["("]
  | .parenR => [")"]
  | .pipe => ["|"]
  | .question => ["?"]
  | .semiColon => [";"]
  | _ => []

/-- The words that are not identifiers. -/
def reservedKinds : List (String × TokenKind) := [
  ("as", .kwAs), ("case", .kwCase), ("class", .kwClass), ("declare", .kwDeclare),
  ("else", .kwElse), ("fn", .kwFn), ("for", .kwFor), ("if", .kwIf), ("import", .kwImport),
  ("is", .kwIs), ("instance", .kwInstance), ("match", .kwMatch), ("pub", .kwPub),
  ("type", .kwType), ("when", .kwWhen), ("then", .kwThen), ("with", .kwWith),
  ("where", .kwWhere), ("in", .kwIn), ("let", .kwLet), ("rec", .kwRec),
  ("true", .bool true), ("false", .bool false), ("null", .null)]

def wordKind (word : List Char) : TokenKind :=
  ((reservedKinds.find? fun entry => entry.1.toList == word).map Prod.snd).getD
    (.ident (String.ofList word))

/-- A lexeme that is well formed on its own. -/
inductive Lexeme where
  | string (body value : List Char) (closed : closedBody '"' body = true)
      (decodes : unescape body = .ok value)
  | char (body : List Char) (value : Char) (closed : closedBody '\'' body = true)
      (decodes : unescape body = .ok [value])
  | word (first : Char) (more : List Char) (starts : isIdentStart first = true)
      (continues : ∀ symbol ∈ more, isIdentContinue symbol = true)
  | int (first : Char) (more : List Char) (firstDigit : isDigit first = true)
      (moreDigits : ∀ symbol ∈ more, isDigit symbol = true)
      (bounded : decimalValue (first :: more) < 2 ^ 64)
  | float (first : Char) (more : List Char) (second : Char) (decimals : List Char)
      (firstDigit : isDigit first = true) (moreDigits : ∀ symbol ∈ more, isDigit symbol = true)
      (secondDigit : isDigit second = true)
      (decimalsDigits : ∀ symbol ∈ decimals, isDigit symbol = true)
  | punctuation (kind : TokenKind) (spelling : String)
      (spelled : spelling ∈ punctuationTexts kind)

namespace Lexeme

def text : Lexeme → List Char
  | string body _ _ _ => '"' :: (body ++ ['"'])
  | char body _ _ _ => '\'' :: (body ++ ['\''])
  | word first more _ _ => first :: more
  | int first more _ _ _ => first :: more
  | float first more second decimals _ _ _ _ => first :: more ++ '.' :: second :: decimals
  | punctuation _ spelling _ => spelling.toList

/-- The token a lexeme stands for. -/
def kind : Lexeme → TokenKind
  | string _ value _ _ => .string (String.ofList value)
  | char _ value _ _ => .char value
  | word first more _ _ => wordKind (first :: more)
  | int first more _ _ _ => .int (decimalValue (first :: more))
  | float first more second decimals _ _ _ _ =>
      .float (f64FromStr (first :: more ++ '.' :: second :: decimals))
  | punctuation kind _ _ => kind

/-- The quote of a literal whose body ends with an escaped backslash. -/
def danglingQuote : Lexeme → Option Char
  | string body _ _ _ => if body.getLast? = some '\\' then some '"' else none
  | char body _ _ _ => if body.getLast? = some '\\' then some '\'' else none
  | _ => none

end Lexeme

/-- The lexemes separated by single spaces. -/
def sourceChars (lexemes : List Lexeme) : List Char :=
  [' '].intercalate (lexemes.map Lexeme.text)

def sourceText (lexemes : List Lexeme) : String :=
  String.ofList (sourceChars lexemes)

@[simp]
theorem sourceChars_singleton (lexeme : Lexeme) : sourceChars [lexeme] = lexeme.text := by
  simp [sourceChars, List.intercalate]

@[simp]
theorem sourceChars_cons_cons (lexeme next : Lexeme) (lexemes : List Lexeme) :
    sourceChars (lexeme :: next :: lexemes) =
      lexeme.text ++ ' ' :: sourceChars (next :: lexemes) := by
  simp [sourceChars, List.intercalate]

theorem mem_sourceChars {symbol : Char} (notSpace : symbol ≠ ' ') (lexemes : List Lexeme) :
    symbol ∈ sourceChars lexemes ↔ ∃ lexeme ∈ lexemes, symbol ∈ lexeme.text := by
  induction lexemes with
  | nil => simp [sourceChars, List.intercalate]
  | cons lexeme lexemes lexemesIH =>
      cases lexemes with
      | nil => simp
      | cons next lexemes =>
          rw [sourceChars_cons_cons, List.mem_append, List.mem_cons, lexemesIH]
          simp [notSpace]

/-! ## One lexeme -/

theorem isWord_space (words : WordClass) : words.isWord ' ' = false :=
  words.ascii ' ' (by decide)

theorem captureToken_reserved (span : Span) :
    ∀ entry ∈ reservedGroups,
      captureToken (some (wordGroup entry.1.toList, entry.1.toList)) span =
        .ok (some (wordKind entry.1.toList)) := by
  simp only [reservedGroups, keywordGroups, List.cons_append, List.nil_append,
    List.forall_mem_cons, List.not_mem_nil, false_implies, implies_true, and_true]
  and_intros <;> rfl

/-- The word table and the groups of the expression agree. -/
theorem captureToken_word (word : List Char) (span : Span) :
    captureToken (some (wordGroup word, word)) span = .ok (some (wordKind word)) := by
  by_cases reserved : ∃ entry ∈ reservedGroups, entry.1.toList = word
  · obtain ⟨entry, member, rfl⟩ := reserved
    exact captureToken_reserved span entry member
  · have sameWords : reservedKinds.map (·.1) = reservedGroups.map (·.1) := rfl
    have noGroup : (reservedGroups.find? fun entry => entry.1.toList == word) = none := by
      simpa using reserved
    have noKind : (reservedKinds.find? fun entry => entry.1.toList == word) = none := by
      apply List.find?_eq_none.mpr
      intro entry member same
      have nameMember : entry.1 ∈ reservedGroups.map (·.1) :=
        sameWords ▸ List.mem_map_of_mem member
      obtain ⟨other, otherMember, sameName⟩ := List.mem_map.mp nameMember
      exact reserved ⟨other, otherMember, by simpa [sameName] using same⟩
    rw [wordGroup, wordKind, noGroup, noKind]
    rfl

theorem firstMatch_of_search (words : WordClass) (before : Option Char) {symbol : Char}
    {rest : List Char} {found : Found Char TokenGroup}
    (search : (((tokenAlternatives words).filter fun regex =>
      [symbol].any (regex.starts ·)).findSome? fun regex =>
        regex.search before (symbol :: rest) some) = some found) :
    (tokenRegex words).firstMatch before (symbol :: rest) = some found := by
  rw [firstMatch_tokenRegex words before symbol [symbol] (List.mem_singleton_self symbol), search]
  rfl

section OneLexeme

variable (words : WordClass) {before : Option Char} (begins : before.any words.isWord = false)
  {after : List Char} (ends : after = [] ∨ ∃ rest, after = ' ' :: rest)

/-- An operator or symbol before a space is not part of a longer one. -/
theorem firstMatch_punctuation (kind : TokenKind) (spelling : String)
    (spelled : spelling ∈ punctuationTexts kind)
    (ends : after = [] ∨ ∃ rest, after = ' ' :: rest) :
    ∃ captures, (tokenRegex words).firstMatch before (spelling.toList ++ after) =
        some ⟨spelling.toList, after, captures⟩ ∧
      ∀ span, captureToken captures.head? span = .ok (some kind) := by
  cases kind <;>
    simp only [punctuationTexts, List.mem_cons, List.not_mem_nil, or_false] at spelled
  case arrowL =>
    rcases spelled with rfl | rfl <;> rcases ends with rfl | ⟨rest, rfl⟩ <;>
      exact ⟨_, firstMatch_of_search words before rfl, fun _ => rfl⟩
  all_goals
    subst spelled
    rcases ends with rfl | ⟨rest, rfl⟩ <;>
      exact ⟨_, firstMatch_of_search words before rfl, fun _ => rfl⟩

include begins ends

/-- A lexeme is read as a whole if no later quote can continue it. -/
theorem firstMatch_lexeme (lexeme : Lexeme)
    (intact : ∀ quote ∈ lexeme.danglingQuote, quote ∉ after) :
    ∃ captures, (tokenRegex words).firstMatch before (lexeme.text ++ after) =
        some ⟨lexeme.text, after, captures⟩ ∧
      ∀ span, captureToken captures.head? span = .ok (some lexeme.kind) := by
  have endsWord : after.head?.any words.isWord = false := by
    rcases ends with rfl | ⟨rest, rfl⟩
    · rfl
    · exact isWord_space words
  have endsDigits : after.head?.any isDigit = false := by
    rcases ends with rfl | ⟨rest, rfl⟩ <;> rfl
  have noPeriod : after.head? ≠ some '.' := by
    rcases ends with rfl | ⟨rest, rfl⟩ <;> simp
  cases lexeme with
  | string body value closed decodes =>
      have split := splitAtClosing_intact (by decide) closed fun dangling =>
        intact '"' (by simp [Lexeme.danglingQuote, dangling])
      refine ⟨[(.doubleString, body)], ?_, ?_⟩
      · simpa [Lexeme.text] using firstMatch_doubleString words before split
      · intro span
        simp [captureToken, unescapeLiteral, decodes, Except.mapError, Except.map, Lexeme.kind]
  | char body value closed decodes =>
      have split := splitAtClosing_intact (by decide) closed fun dangling =>
        intact '\'' (by simp [Lexeme.danglingQuote, dangling])
      refine ⟨[(.char, body)], ?_, ?_⟩
      · simpa [Lexeme.text] using firstMatch_char words before split
      · intro span
        simp [captureToken, unescapeLiteral, decodes, Except.mapError, Lexeme.kind]
  | word first more starts continues =>
      exact ⟨_, firstMatch_word words before first more after begins starts continues endsWord,
        captureToken_word _⟩
  | int first more firstDigit moreDigits bounded =>
      refine ⟨_, firstMatch_int words before firstDigit moreDigits endsDigits noPeriod, ?_⟩
      intro span
      have inRange : u64FromStr (first :: more) = .ok (decimalValue (first :: more)) :=
        if_pos bounded
      simp [captureToken, inRange, Except.mapError, Except.map, Lexeme.kind]
  | float first more second decimals firstDigit moreDigits secondDigit decimalsDigits =>
      refine ⟨[(.float, first :: more ++ '.' :: second :: decimals)], ?_, fun span => rfl⟩
      simpa [Lexeme.text] using
        firstMatch_float words before firstDigit moreDigits secondDigit decimalsDigits endsDigits
  | punctuation kind spelling spelled =>
      exact firstMatch_punctuation words kind spelling spelled ends

omit begins ends

/-- What a swallowed quote adds to the value of a literal. -/
theorem unescape_swallowed {quote : Char} (notBackslash : quote ≠ '\\')
    {body value : List Char} (decodes : unescape body = .ok value)
    (dangling : body.getLast? = some '\\') (more : List Char) :
    unescape (body ++ quote :: more) =
      (unescape more).map fun moreValue => value ++ quote :: moreValue := by
  have ordinary : unescapeStep quote more = .ok ([quote], more) := by
    unfold unescapeStep
    rw [if_pos notBackslash]
  rw [unescape_append (quote :: more) (Or.inr dangling) decodes, unescape_cons, ordinary]
  simp only [Except.bind]
  cases unescape more <;> rfl

/-- A literal that swallows a later quote does not have the value of its own
lexeme. -/
theorem firstMatch_swallows (lexeme : Lexeme) {quote : Char}
    (dangling : quote ∈ lexeme.danglingQuote) (member : quote ∈ after) :
    ∃ found, (tokenRegex words).firstMatch before (lexeme.text ++ after) = some found ∧
      found.consumed ≠ [] ∧
      ∀ span, captureToken found.captures.head? span ≠ .ok none ∧
        captureToken found.captures.head? span ≠ .ok (some lexeme.kind) := by
  cases lexeme with
  | string body value closed decodes =>
      by_cases ends : body.getLast? = some '\\'
      · obtain rfl : '"' = quote := by simpa [Lexeme.danglingQuote, ends] using dangling
        obtain ⟨more, rest, split⟩ := splitAtClosing_swallows (by decide) closed ends member
        refine ⟨_, by simpa [Lexeme.text] using firstMatch_doubleString words before split,
          by simp, fun span => ?_⟩
        have longer := unescape_swallowed (by decide : '"' ≠ '\\') decodes ends more
        simp only [List.head?_cons, captureToken, unescapeLiteral, longer]
        cases unescape more with
        | error error => exact ⟨nofun, nofun⟩
        | ok moreValue => simp [Except.map, Except.mapError, Lexeme.kind]
      · simp [Lexeme.danglingQuote, ends] at dangling
  | char body value closed decodes =>
      by_cases ends : body.getLast? = some '\\'
      · obtain rfl : '\'' = quote := by simpa [Lexeme.danglingQuote, ends] using dangling
        obtain ⟨more, rest, split⟩ := splitAtClosing_swallows (by decide) closed ends member
        refine ⟨_, by simpa [Lexeme.text] using firstMatch_char words before split,
          by simp, fun span => ?_⟩
        have longer := unescape_swallowed (by decide : '\'' ≠ '\\') decodes ends more
        simp only [List.head?_cons, captureToken, unescapeLiteral, longer]
        cases unescape more with
        | error error => exact ⟨nofun, nofun⟩
        | ok moreValue => simp [Except.map, Except.mapError]
      · simp [Lexeme.danglingQuote, ends] at dangling
  | word | int | float | punctuation => simp [Lexeme.danglingQuote] at dangling

end OneLexeme

/-! ## Sequences of lexemes -/

/-- The matches become tokens of the given kinds. -/
def ReadAs (captures : List (Found Char TokenGroup)) (position : Position)
    (kinds : List TokenKind) : Prop :=
  ∃ result, tokenizeCaptures captures position = .ok result ∧ result.1.map (·.kind) = kinds

section ReadAs

variable {capture : Found Char TokenGroup} (captures : List (Found Char TokenGroup))
  (position : Position) (kind : TokenKind) (kinds : List TokenKind)

attribute [local simp] tokenizeCaptures

theorem readAs_nil : ReadAs [] position kinds ↔ kinds = [] := by
  simp [ReadAs, eq_comm]

theorem readAs_token
    (token : ∀ span, captureToken capture.captures.head? span = .ok (some kind)) :
    ReadAs (capture :: captures) position (kind :: kinds) ↔
      ReadAs captures (advancePosition capture.consumed position) kinds := by
  simp only [ReadAs, tokenizeCaptures, token, bind, Except.bind]
  cases tokenizeCaptures captures (advancePosition capture.consumed position) with
  | error error => simp
  | ok result => simp [pure, Except.pure]

theorem readAs_skip (skipped : ∀ span, captureToken capture.captures.head? span = .ok none) :
    ReadAs (capture :: captures) position kinds ↔
      ReadAs captures (advancePosition capture.consumed position) kinds := by
  simp only [ReadAs, tokenizeCaptures, skipped, bind, Except.bind]
  cases tokenizeCaptures captures (advancePosition capture.consumed position) with
  | error error => simp
  | ok result => simp [pure, Except.pure]

theorem not_readAs (wrong : ∀ span, captureToken capture.captures.head? span ≠ .ok none ∧
    captureToken capture.captures.head? span ≠ .ok (some kind)) :
    ¬ ReadAs (capture :: captures) position (kind :: kinds) := by
  rintro ⟨result, tokenized, same⟩
  simp only [tokenizeCaptures, bind, Except.bind] at tokenized
  have notThese := wrong
    (Span.fromBeginEnd position (advancePosition capture.consumed position))
  revert tokenized
  cases hToken : captureToken capture.captures.head?
      (Span.fromBeginEnd position (advancePosition capture.consumed position)) with
  | error error => simp
  | ok token =>
      cases token with
      | none => exact absurd hToken notThese.1
      | some other =>
          cases tokenizeCaptures captures (advancePosition capture.consumed position) with
          | error error => simp
          | ok rest =>
              rintro ⟨⟩
              obtain ⟨rfl, -⟩ : other = kind ∧ _ := by simpa using same
              exact notThese.2 hToken

end ReadAs

theorem capturesIter_match {regex : TokenRegex} {before : Option Char} {input : List Char}
    {found : Found Char TokenGroup} (fuel : Nat)
    (matched : regex.firstMatch before input = some found) (nonempty : found.consumed ≠ [])
    (inputNonempty : input ≠ []) :
    regex.capturesIter (fuel + 1) before input =
      found :: regex.capturesIter fuel (found.last before) found.rest := by
  obtain ⟨symbol, rest, rfl⟩ := List.exists_cons_of_ne_nil inputNonempty
  conv_lhs => unfold capturesIter
  simp [matched, nonempty]

theorem capturesIter_nil (words : WordClass) (fuel : Nat) (before : Option Char) :
    (tokenRegex words).capturesIter fuel before [] = [] := by
  have noMatch : (tokenRegex words).firstMatch before [] = none := by
    rw [firstMatch_eq_search]
    exact search_nil rfl before some
  cases fuel with
  | zero => rfl
  | succ fuel =>
      unfold capturesIter
      rw [noMatch]

theorem Lexeme.text_ne_nil (lexeme : Lexeme) : lexeme.text ≠ [] := by
  cases lexeme with
  | punctuation kind spelling spelled =>
      have nonempty : ∀ spelling ∈ punctuationTexts kind, spelling.toList ≠ [] := by
        cases kind <;> simp [punctuationTexts]
      exact nonempty spelling spelled
  | _ => simp [Lexeme.text]

theorem Lexeme.ne_space_of_mem_danglingQuote {lexeme : Lexeme} {quote : Char}
    (dangling : quote ∈ lexeme.danglingQuote) : quote ≠ ' ' := by
  rintro rfl
  cases lexeme with
  | string body | char body =>
      by_cases ends : body.getLast? = some '\\' <;> simp [Lexeme.danglingQuote, ends] at dangling
  | _ => simp [Lexeme.danglingQuote] at dangling

/-- What the source text has after a lexeme. -/
def afterChars : List Lexeme → List Char
  | [] => []
  | next :: lexemes => ' ' :: sourceChars (next :: lexemes)

attribute [local simp] afterChars

theorem sourceChars_cons (lexeme : Lexeme) (lexemes : List Lexeme) :
    sourceChars (lexeme :: lexemes) = lexeme.text ++ afterChars lexemes := by
  cases lexemes <;> simp

theorem mem_afterChars {symbol : Char} (notSpace : symbol ≠ ' ') (lexemes : List Lexeme) :
    symbol ∈ afterChars lexemes ↔ ∃ lexeme ∈ lexemes, symbol ∈ lexeme.text := by
  rw [← mem_sourceChars notSpace]
  cases lexemes <;> simp [notSpace, sourceChars, List.intercalate]

/-- No literal that ends with an escaped backslash is followed by its quote. -/
def Unambiguous (lexemes : List Lexeme) : Prop :=
  lexemes.Pairwise fun lexeme later => ∀ quote ∈ lexeme.danglingQuote, quote ∉ later.text

theorem unambiguous_cons (lexeme : Lexeme) (lexemes : List Lexeme) :
    Unambiguous (lexeme :: lexemes) ↔
      (∀ quote ∈ lexeme.danglingQuote, quote ∉ afterChars lexemes) ∧ Unambiguous lexemes := by
  unfold Unambiguous
  rw [List.pairwise_cons]
  apply and_congr_left
  intro _
  constructor
  · intro separate quote dangling member
    obtain ⟨later, laterMember, inText⟩ :=
      (mem_afterChars (Lexeme.ne_space_of_mem_danglingQuote dangling) lexemes).mp member
    exact separate later laterMember quote dangling inText
  · intro separate later laterMember quote dangling inText
    exact separate quote dangling
      ((mem_afterChars (Lexeme.ne_space_of_mem_danglingQuote dangling) lexemes).mpr
        ⟨later, laterMember, inText⟩)

theorem readAs_source (words : WordClass) (lexemes : List Lexeme) (fuel : Nat)
    (enough : (sourceChars lexemes).length < fuel) (before : Option Char)
    (begins : before.any words.isWord = false) (position : Position) :
    ReadAs ((tokenRegex words).capturesIter fuel before (sourceChars lexemes)) position
        (lexemes.map Lexeme.kind) ↔ Unambiguous lexemes := by
  induction lexemes generalizing fuel before position with
  | nil =>
      have noChars : sourceChars [] = [] := rfl
      simp [noChars, capturesIter_nil, readAs_nil, Unambiguous]
  | cons lexeme lexemes lexemesIH =>
      have textNonempty := lexeme.text_ne_nil
      have ends : afterChars lexemes = [] ∨ ∃ rest, afterChars lexemes = ' ' :: rest := by
        cases lexemes with
        | nil => exact Or.inl rfl
        | cons next lexemes => exact Or.inr ⟨_, rfl⟩
      obtain ⟨fuel, rfl⟩ : ∃ less, fuel = less + 1 := ⟨fuel - 1, by omega⟩
      rw [sourceChars_cons] at enough ⊢
      rw [unambiguous_cons, List.map_cons]
      by_cases intact : ∀ quote ∈ lexeme.danglingQuote, quote ∉ afterChars lexemes
      · obtain ⟨captures, matched, token⟩ := firstMatch_lexeme words begins ends lexeme intact
        rw [capturesIter_match fuel matched textNonempty (by simp [textNonempty]),
          readAs_token _ position lexeme.kind _ token, and_iff_right intact]
        cases lexemes with
        | nil => simp [capturesIter_nil, readAs_nil, Unambiguous]
        | cons next lexemes =>
            simp only [afterChars, List.length_append, List.length_cons] at enough
            have textLength := List.length_pos_of_ne_nil textNonempty
            obtain ⟨fuel, rfl⟩ : ∃ less, fuel = less + 1 := ⟨fuel - 1, by omega⟩
            rw [afterChars, capturesIter_match fuel (firstMatch_space words _ _) (by simp)
              (by simp), readAs_skip _ _ _ fun span => rfl]
            exact lexemesIH fuel (by omega) (some ' ') (isWord_space words) _
      · rw [iff_false_right (fun both => intact both.1)]
        obtain ⟨quote, dangling, member⟩ : ∃ quote ∈ lexeme.danglingQuote,
            quote ∈ afterChars lexemes := by simpa using intact
        obtain ⟨found, matched, nonempty, wrong⟩ :=
          firstMatch_swallows words lexeme dangling member
        rw [capturesIter_match fuel matched nonempty (by simp [textNonempty])]
        exact not_readAs _ position lexeme.kind _ wrong

/-- `tokenize` reads lexemes separated by single spaces one by one exactly when
no quoted literal that ends with an escaped backslash is followed by a lexeme
that contains its quote. -/
theorem tokenize_sourceText_iff (words : WordClass) (lexemes : List Lexeme) :
    (∃ tokens, tokenize words (sourceText lexemes) = .ok tokens ∧
      tokens.items.map (·.kind) = lexemes.map Lexeme.kind) ↔ Unambiguous lexemes := by
  have read := readAs_source words lexemes ((sourceChars lexemes).length + 1) (Nat.lt_succ_self _)
    none rfl ⟨1, 1⟩
  rw [← read]
  simp only [tokenize, ReadAs, sourceText, String.toList_ofList, bind, Except.bind]
  cases tokenizeCaptures ((tokenRegex words).capturesIter ((sourceChars lexemes).length + 1) none
    (sourceChars lexemes)) ⟨1, 1⟩ with
  | error error => simp
  | ok result => simp [pure, Except.pure]

/-- Two strings, the first of which ends with an escaped backslash. -/
def backslashThenString : List Lexeme := [
  .string "a\\\\".toList "a\\".toList (by decide) (by decide),
  .string "b".toList "b".toList (by decide) (by decide)]

/-- `"a\\" "b"` is not read as two strings: the first literal takes the opening
quote of the second one for its closing quote. -/
theorem tokenize_backslash_then_string :
    ¬ ∃ tokens, tokenize .asciiOnly (sourceText backslashThenString) = .ok tokens ∧
      tokens.items.map (·.kind) = backslashThenString.map Lexeme.kind := by
  rintro ⟨tokens, accepted, -⟩
  have rejected : (tokenize .asciiOnly (sourceText backslashThenString)).toOption = none := by
    decide
  simp [accepted, Except.toOption] at rejected

end RexLang
