import RexLang.DocumentFormatting
import RexLang.QuotedLiterals

/-!
# Trimming quoted literals

A literal may span lines, and then the formatter deletes white space of its body.  The value stays
the same just if the only character deleted is the carriage return of an escaped line end.
-/

namespace RexLang

/-- Only white space stands before the next line feed. -/
def beforeLineFeed (text : List Char) : Bool :=
  (text.dropWhile isLineSpace).head? == some '\n'

/-- White space of the value of a literal stands before a line feed.  An escaped carriage return
before a line feed is not part of the value. -/
def losesSpace : List Char → Bool
  | [] => false
  | [_] => false
  | symbol :: next :: text =>
      if symbol = '\\' then
        !(next == '\r' && text.head? == some '\n') && isLineSpace next && beforeLineFeed text ||
          losesSpace text
      else isLineSpace symbol && beforeLineFeed (next :: text) || losesSpace (next :: text)

theorem endsLine_trimLines (text : List Char) :
    endsLine false (trimLines false text) = beforeLineFeed text := by
  induction text with
  | nil => rfl
  | cons symbol text hypothesis =>
      rw [beforeLineFeed, List.dropWhile_cons]
      cases space : isLineSpace symbol with
      | true =>
          rw [if_pos rfl]
          cases ends : beforeLineFeed text with
          | true =>
              rw [trimLines_cons_of_deleted (by rw [space, hypothesis, ends]; rfl), hypothesis]
              rfl
          | false =>
              rw [trimLines_cons_of_kept (by rw [hypothesis, ends, Bool.and_false]), endsLine]
              refine Eq.trans ?_ ends.symm
              rw [beq_eq_false_iff_ne]
              rintro rfl
              rw [isLineSpace_lineFeed] at space
              cases space
      | false =>
          rw [if_neg Bool.false_ne_true, trimLines_cons space]
          rfl

theorem toNat_of_isWhitespace {symbol : Char} (space : isWhitespace symbol = true) :
    symbol.toNat ≤ 0x20 ∨ 0x85 ≤ symbol.toNat := by
  rw [isWhitespace, decide_eq_true_iff] at space
  simp only [List.mem_cons, List.not_mem_nil, or_false] at space
  omega

theorem isLineSpace_of_printable {symbol : Char} (low : 0x20 < symbol.toNat)
    (high : symbol.toNat < 0x85) : isLineSpace symbol = false := by
  rw [isLineSpace, Bool.and_eq_false_iff]
  refine .inl (Bool.eq_false_iff.mpr fun space => ?_)
  have outside := toNat_of_isWhitespace space
  omega

theorem losesSpace_ordinary {symbol : Char} (notBackslash : symbol ≠ '\\') (text : List Char) :
    losesSpace (symbol :: text) =
      (isLineSpace symbol && beforeLineFeed text || losesSpace text) := by
  cases text with
  | nil => simp [losesSpace, beforeLineFeed]
  | cons next text => rw [losesSpace, if_neg notBackslash]

theorem losesSpace_escape (next : Char) (text : List Char) :
    losesSpace ('\\' :: next :: text) =
      (!(next == '\r' && text.head? == some '\n') && isLineSpace next && beforeLineFeed text ||
        losesSpace text) := by
  rw [losesSpace, if_pos rfl]

/-! ## Escape sequences -/

/-- A character that trimming keeps and that starts no escape. -/
def PlainSymbol (symbol : Char) : Prop :=
  isLineSpace symbol = false ∧ symbol ≠ '\\'

theorem losesSpace_append {digits : List Char} (plain : ∀ digit ∈ digits, PlainSymbol digit)
    (text : List Char) : losesSpace (digits ++ text) = losesSpace text := by
  induction digits with
  | nil => rfl
  | cons digit digits hypothesis =>
      rw [List.forall_mem_cons] at plain
      rw [List.cons_append, losesSpace_ordinary plain.1.2, plain.1.1, Bool.false_and,
        Bool.false_or, hypothesis plain.2]

theorem plainSymbol_of_hexValue {symbol : Char} {digit : Nat}
    (isDigit : hexValue symbol = some digit) : PlainSymbol symbol := by
  refine ⟨?_, ne_backslash_of_hexValue isDigit⟩
  have range : 0x30 ≤ symbol.toNat ∧ symbol.toNat ≤ 0x66 := by
    rw [hexValue] at isDigit
    split_ifs at isDigit with decimal lower upper
    · have bounds : 0x30 ≤ symbol.toNat ∧ symbol.toNat ≤ 0x39 := decimal
      omega
    · have bounds : 0x61 ≤ symbol.toNat ∧ symbol.toNat ≤ 0x66 := lower
      omega
    · have bounds : 0x41 ≤ symbol.toNat ∧ symbol.toNat ≤ 0x46 := upper
      omega
  exact isLineSpace_of_printable (by omega) (by omega)

theorem plainSymbol_of_octalValue {symbol : Char} {digit : Nat}
    (isDigit : octalValue symbol = some digit) : PlainSymbol symbol := by
  refine ⟨?_, ne_backslash_of_octalValue isDigit⟩
  have range : 0x30 ≤ symbol.toNat ∧ symbol.toNat ≤ 0x37 := by
    rw [octalValue] at isDigit
    split_ifs at isDigit with octal
    exact octal
  exact isLineSpace_of_printable (by omega) (by omega)

section ReadsPlain

variable {First Second : Type}

/-- A parser of part of a literal that reads plain characters, and reads the same from the
trimmed text. -/
def ReadsPlain (parse : List Char → Except String (First × List Char)) : Prop :=
  ∀ chars result rest, parse chars = .ok (result, rest) →
    (∃ digits, chars = digits ++ rest ∧ ∀ digit ∈ digits, PlainSymbol digit) ∧
      parse (trimLines false chars) = .ok (result, trimLines false rest)

theorem readsPlain_nothing (result : First) :
    ReadsPlain fun chars => (.ok (result, chars) : Except String (First × List Char)) := by
  rintro chars result rest ⟨⟩
  exact ⟨⟨[], rfl, by simp⟩, rfl⟩

theorem readsPlain_error (error : String) :
    ReadsPlain fun _ => (.error error : Except String (First × List Char)) := by
  rintro chars result rest ⟨⟩

/-- A parser that has read a plain character goes on. -/
theorem readsPlain_cons {digits : List Char} {symbol : Char} {chars rest : List Char}
    (plain : PlainSymbol symbol)
    (read : chars = digits ++ rest ∧ ∀ digit ∈ digits, PlainSymbol digit) :
    ∃ digits, symbol :: chars = digits ++ rest ∧ ∀ digit ∈ digits, PlainSymbol digit :=
  ⟨symbol :: digits, by rw [read.1]; rfl, List.forall_mem_cons.mpr ⟨plain, read.2⟩⟩

theorem ReadsPlain.check {parse : List Char → Except String (First × List Char)}
    (reads : ReadsPlain parse) (check : First → Except String Second) :
    ReadsPlain fun chars => (parse chars).bind fun (value, chars) =>
      (check value).map (·, chars) := by
  intro chars result rest parsed
  beta_reduce at parsed ⊢
  cases hParse : parse chars with
  | error error =>
      rw [hParse] at parsed
      cases parsed
  | ok pair =>
      obtain ⟨value, left⟩ := pair
      cases hCheck : check value with
      | error error =>
          simp only [hParse, Except.bind, hCheck] at parsed
          cases parsed
      | ok checked =>
          simp only [hParse, Except.bind, hCheck] at parsed
          cases parsed
          obtain ⟨plain, trimmed⟩ := reads chars value rest hParse
          simp only [trimmed, Except.bind, hCheck]
          exact ⟨plain, rfl⟩

theorem ReadsPlain.single {parse : List Char → Except String (Char × List Char)}
    (reads : ReadsPlain parse) :
    ReadsPlain fun chars => (parse chars).map fun (symbol, chars) => ([symbol], chars) := by
  have same : (fun chars => (parse chars).map fun (symbol, chars) => ([symbol], chars)) =
      fun chars => (parse chars).bind fun (symbol, chars) =>
        (Except.ok [symbol] : Except String _).map (·, chars) := by
    funext chars
    cases parse chars <;> rfl
  rw [same]
  exact reads.check fun symbol => .ok [symbol]

end ReadsPlain

/-- A character that is no digit of a class is still none after trimming. -/
theorem head?_trimLines_none {value : Char → Option Nat} (noFeed : value '\n' = none)
    {chars : List Char} (noDigit : chars.head?.bind value = none) :
    (trimLines false chars).head?.bind value = none := by
  induction chars with
  | nil => rfl
  | cons symbol chars hypothesis =>
      cases kept : isLineSpace symbol && endsLine false (trimLines false chars) with
      | true =>
          rw [trimLines_cons_of_deleted kept]
          have ends := (Bool.and_eq_true_iff.mp kept).2
          cases trimmed : trimLines false chars with
          | nil => rfl
          | cons next rest =>
              rw [trimmed, endsLine, beq_iff_eq] at ends
              rw [ends]
              exact noFeed
      | false =>
          rw [trimLines_cons_of_kept kept]
          exact noDigit

theorem readsPlain_parseFixedHexDigits (digits count value : Nat) :
    ReadsPlain (parseFixedHexDigits digits count value) := by
  induction count generalizing value with
  | zero => exact readsPlain_nothing value
  | succ count hypothesis =>
      intro chars result rest parsed
      cases chars with
      | nil => cases parsed
      | cons symbol chars =>
          cases hValue : hexValue symbol with
          | none => simp [parseFixedHexDigits, hValue] at parsed
          | some digit =>
              have plain := plainSymbol_of_hexValue hValue
              simp only [parseFixedHexDigits, hValue] at parsed
              obtain ⟨⟨read, isRead⟩, trimmed⟩ := hypothesis _ chars result rest parsed
              refine ⟨readsPlain_cons plain isRead, ?_⟩
              rw [trimLines_cons plain.1]
              simpa only [parseFixedHexDigits, hValue] using trimmed

theorem parseVariableHexDigits_stop {chars : List Char} (noDigit : chars.head?.bind hexValue = none)
    (value : Nat) (seen : Bool) :
    parseVariableHexDigits value seen chars = .ok ((value, seen), chars) := by
  cases chars with
  | nil => rfl
  | cons symbol chars =>
      have noValue : hexValue symbol = none := noDigit
      simp [parseVariableHexDigits, noValue]

theorem parseOctalDigits_stop {chars : List Char} (noDigit : chars.head?.bind octalValue = none)
    (count value : Nat) : parseOctalDigits count value chars = (value, chars) := by
  cases count with
  | zero => rfl
  | succ count =>
      cases chars with
      | nil => rfl
      | cons symbol chars =>
          have noValue : octalValue symbol = none := noDigit
          simp [parseOctalDigits, noValue]

theorem readsPlain_parseVariableHexDigits (value : Nat) (seen : Bool) :
    ReadsPlain (parseVariableHexDigits value seen) := by
  intro chars result rest parsed
  induction chars generalizing value seen with
  | nil =>
      cases parsed
      exact ⟨⟨[], rfl, by simp⟩, rfl⟩
  | cons symbol chars hypothesis =>
      cases hValue : hexValue symbol with
      | none =>
          have noDigit : (symbol :: chars).head?.bind hexValue = none := hValue
          rw [parseVariableHexDigits_stop noDigit] at parsed
          cases parsed
          rw [parseVariableHexDigits_stop
            (head?_trimLines_none (by decide) noDigit)]
          exact ⟨⟨[], rfl, by simp⟩, rfl⟩
      | some digit =>
          have plain := plainSymbol_of_hexValue hValue
          by_cases small : value * 16 + digit < 2 ^ 32
          · simp only [parseVariableHexDigits, hValue, if_pos small] at parsed
            obtain ⟨⟨read, isRead⟩, trimmed⟩ := hypothesis _ _ parsed
            refine ⟨readsPlain_cons plain isRead, ?_⟩
            rw [trimLines_cons plain.1]
            simpa only [parseVariableHexDigits, hValue, if_pos small] using trimmed
          · simp only [parseVariableHexDigits, hValue, if_neg small] at parsed
            cases parsed

theorem readsPlain_parseOctalDigits (count value : Nat) :
    ReadsPlain fun chars => .ok (parseOctalDigits count value chars) := by
  induction count generalizing value with
  | zero => exact readsPlain_nothing value
  | succ count hypothesis =>
      intro chars result rest parsed
      cases hValue : chars.head?.bind octalValue with
      | none =>
          simp only [parseOctalDigits_stop hValue] at parsed
          cases parsed
          beta_reduce
          rw [parseOctalDigits_stop (head?_trimLines_none (by decide) hValue)]
          exact ⟨⟨[], rfl, by simp⟩, rfl⟩
      | some digit =>
          cases chars with
          | nil => cases hValue
          | cons symbol chars =>
              have isValue : octalValue symbol = some digit := hValue
              have plain := plainSymbol_of_octalValue isValue
              simp only [parseOctalDigits, isValue] at parsed
              obtain ⟨⟨read, isRead⟩, trimmed⟩ := hypothesis _ chars result rest parsed
              refine ⟨readsPlain_cons plain isRead, ?_⟩
              rw [trimLines_cons plain.1]
              simpa only [parseOctalDigits, isValue] using trimmed

theorem readsPlain_parseFixedHexEscape (digits : Nat) : ReadsPlain (parseFixedHexEscape digits) :=
  (readsPlain_parseFixedHexDigits digits digits 0).check charFromEscapeValue

theorem readsPlain_parseVariableHexEscape : ReadsPlain parseVariableHexEscape := by
  have reads := (readsPlain_parseVariableHexDigits 0 false).check fun (value, seen) =>
    if seen then charFromEscapeValue value else .error "expected hexadecimal digit after `\\x`"
  have same : parseVariableHexEscape = fun chars =>
      (parseVariableHexDigits 0 false chars).bind fun (result, chars) =>
        (if result.2 then charFromEscapeValue result.1
          else .error "expected hexadecimal digit after `\\x`").map (·, chars) := by
    funext chars
    unfold parseVariableHexEscape
    cases parseVariableHexDigits 0 false chars with
    | error error => rfl
    | ok parsed =>
        obtain ⟨⟨value, seen⟩, left⟩ := parsed
        cases seen <;> rfl
  rw [same]
  exact reads

theorem readsPlain_parseOctalEscape (first : Char) : ReadsPlain (parseOctalEscape first) := by
  unfold parseOctalEscape
  cases octalValue first with
  | none => exact readsPlain_error _
  | some value => exact (readsPlain_parseOctalDigits 2 value).check charFromEscapeValue

theorem isLineSpace_of_simpleEscape {escaped symbol : Char}
    (simple : simpleEscape escaped = some symbol) : isLineSpace escaped = false := by
  unfold simpleEscape at simple
  split at simple <;> first | rfl | cases simple

/-- Every escape but that of a carriage return reads plain characters. -/
theorem readsPlain_unescapeSequence {escaped : Char} (notReturn : escaped ≠ '\r') :
    ReadsPlain (unescapeSequence escaped) := by
  unfold unescapeSequence
  cases simpleEscape escaped with
  | some symbol => exact readsPlain_nothing [symbol]
  | none =>
      simp only [if_neg notReturn]
      by_cases isLineFeed : escaped = '\n'
      · simpa only [if_pos isLineFeed] using readsPlain_nothing []
      by_cases isVariable : escaped = 'x'
      · simpa only [if_neg isLineFeed, if_pos isVariable] using
          readsPlain_parseVariableHexEscape.single
      by_cases isFour : escaped = 'u'
      · simpa only [if_neg isLineFeed, if_neg isVariable, if_pos isFour] using
          (readsPlain_parseFixedHexEscape 4).single
      by_cases isEight : escaped = 'U'
      · simpa only [if_neg isLineFeed, if_neg isVariable, if_neg isFour, if_pos isEight] using
          (readsPlain_parseFixedHexEscape 8).single
      by_cases isOctal : '0' ≤ escaped ∧ escaped ≤ '7'
      · simpa only [if_neg isLineFeed, if_neg isVariable, if_neg isFour, if_neg isEight,
          if_pos isOctal] using (readsPlain_parseOctalEscape escaped).single
      · simpa only [if_neg isLineFeed, if_neg isVariable, if_neg isFour, if_neg isEight,
          if_neg isOctal] using readsPlain_error _

/-- White space cannot be escaped, but for the characters of a line end. -/
theorem isLineSpace_of_unescapeSequence {escaped : Char} (notReturn : escaped ≠ '\r')
    {chars : List Char} {result : List Char × List Char}
    (parsed : unescapeSequence escaped chars = .ok result) : isLineSpace escaped = false := by
  unfold unescapeSequence at parsed
  cases simple : simpleEscape escaped with
  | some symbol => exact isLineSpace_of_simpleEscape simple
  | none =>
      simp only [simple, if_neg notReturn] at parsed
      by_cases isLineFeed : escaped = '\n'
      · rw [isLineFeed]
        exact isLineSpace_lineFeed
      by_cases isVariable : escaped = 'x'
      · rw [isVariable]
        decide
      by_cases isFour : escaped = 'u'
      · rw [isFour]
        decide
      by_cases isEight : escaped = 'U'
      · rw [isEight]
        decide
      by_cases isOctal : '0' ≤ escaped ∧ escaped ≤ '7'
      · have range : 0x30 ≤ escaped.toNat ∧ escaped.toNat ≤ 0x37 := isOctal
        exact isLineSpace_of_printable (by omega) (by omega)
      · simp only [if_neg isLineFeed, if_neg isVariable, if_neg isFour, if_neg isEight,
          if_neg isOctal] at parsed
        cases parsed

/-! ## Values -/

/-- What trimming does to the value of a literal. -/
def TrimmedValue (body value trimmed : List Char) : Prop :=
  if losesSpace body then trimmed.length < value.length ∧ 2 ≤ value.length else trimmed = value

theorem TrimmedValue.length_le {body value trimmed : List Char}
    (isTrimmed : TrimmedValue body value trimmed) : trimmed.length ≤ value.length := by
  rw [TrimmedValue] at isTrimmed
  split_ifs at isTrimmed
  · exact isTrimmed.1.le
  · rw [isTrimmed]

theorem TrimmedValue.append {body rest value trimmed : List Char}
    (isTrimmed : TrimmedValue rest value trimmed) (same : losesSpace body = losesSpace rest)
    (out : List Char) : TrimmedValue body (out ++ value) (out ++ trimmed) := by
  rw [TrimmedValue] at isTrimmed ⊢
  rw [same]
  split_ifs at isTrimmed ⊢
  · rw [List.length_append, List.length_append]
    exact ⟨Nat.add_lt_add_left isTrimmed.1 _, isTrimmed.2.trans (Nat.le_add_left _ _)⟩
  · rw [isTrimmed]

theorem unescape_ordinary {symbol : Char} (notBackslash : symbol ≠ '\\') (chars : List Char) :
    unescape (symbol :: chars) = (unescape chars).map (symbol :: ·) := by
  have step : unescapeStep symbol chars = .ok ([symbol], chars) := if_pos notBackslash
  rw [unescape_cons, step]
  rfl

theorem unescape_escape (escaped : Char) (chars : List Char) :
    unescape ('\\' :: escaped :: chars) =
      (unescapeSequence escaped chars).bind fun (out, rest) => (unescape rest).map (out ++ ·) := by
  rw [unescape_cons]
  rfl

/-- A carriage return after a backslash, not before a line feed. -/
theorem unescape_return {chars : List Char} (notPair : chars.head? ≠ some '\n') :
    unescape ('\\' :: '\r' :: chars) = unescape chars := by
  have skipped : skipLineFeed chars = chars := by
    cases chars with
    | nil => rfl
    | cons next chars =>
        rw [skipLineFeed]
        rintro rest ⟨rfl, rfl⟩
        exact notPair rfl
  have sequence : unescapeSequence '\r' chars = .ok ([], chars) := by
    conv_rhs => rw [← skipped]
    rfl
  rw [unescape_escape, sequence]
  change (unescape chars).map ([] ++ ·) = _
  cases unescape chars <;> rfl

theorem unescape_lineEnd (chars : List Char) :
    unescape ('\\' :: '\n' :: chars) = unescape chars := by
  rw [unescape_escape]
  change (unescape chars).map ([] ++ ·) = _
  cases unescape chars <;> rfl

theorem unescape_pair (chars : List Char) :
    unescape ('\\' :: '\r' :: '\n' :: chars) = unescape chars := by
  rw [unescape_escape]
  change (unescape chars).map ([] ++ ·) = _
  cases unescape chars <;> rfl

theorem trimLines_backslash (text : List Char) :
    trimLines false ('\\' :: text) = '\\' :: trimLines false text :=
  trimLines_cons (by decide) text

theorem trimLines_pair (text : List Char) :
    trimLines false ('\\' :: '\r' :: '\n' :: text) = '\\' :: '\n' :: trimLines false text := by
  rw [trimLines_backslash, trimLines_cons_of_deleted, trimLines_lineFeed]
  rw [trimLines_lineFeed]
  rfl

theorem losesSpace_pair (text : List Char) :
    losesSpace ('\\' :: '\r' :: '\n' :: text) = losesSpace text := by
  rw [losesSpace_escape, losesSpace_ordinary (by decide), isLineSpace_lineFeed]
  simp

/-- The line feed after white space stays in a value. -/
theorem exists_trimmed_lineFeed {text trimmed : List Char} (ends : beforeLineFeed text = true)
    (isTrimmed : unescape (trimLines false text) = .ok trimmed) :
    ∃ after rest, trimLines false text = '\n' :: after ∧ unescape after = .ok rest ∧
      trimmed = '\n' :: rest := by
  rw [← endsLine_trimLines] at ends
  cases trimmedText : trimLines false text with
  | nil =>
      rw [trimmedText] at ends
      cases ends
  | cons feed after =>
      rw [trimmedText, endsLine, beq_iff_eq] at ends
      rw [trimmedText, ends, unescape_ordinary (by decide)] at isTrimmed
      obtain ⟨rest, isRest, rfl⟩ := exists_of_map_ok isTrimmed
      exact ⟨after, rest, by rw [ends], isRest, rfl⟩

theorem losesSpace_of_beforeLineFeed {text : List Char} (ends : beforeLineFeed text = true)
    (notFeed : text.head? ≠ some '\n') : losesSpace text = true := by
  cases text with
  | nil => cases ends
  | cons symbol text =>
      rw [beforeLineFeed, List.dropWhile_cons] at ends
      cases space : isLineSpace symbol with
      | true =>
          have notBackslash : symbol ≠ '\\' := by
            rintro rfl
            cases space
          rw [space, if_pos rfl] at ends
          rw [losesSpace_ordinary notBackslash, space, beforeLineFeed, ends]
          rfl
      | false =>
          rw [space, if_neg Bool.false_ne_true, beq_iff_eq] at ends
          exact absurd ends notFeed

/-- White space between an escaped carriage return and a line feed is lost. -/
theorem exists_trimmedValue_return {text value trimmed : List Char}
    (notPair : text.head? ≠ some '\n') (isTrimmed : unescape (trimLines false text) = .ok trimmed)
    (relates : TrimmedValue text value trimmed) :
    ∃ trimmed, unescape (trimLines false ('\\' :: '\r' :: text)) = .ok trimmed ∧
      TrimmedValue ('\\' :: '\r' :: text) value trimmed := by
  have isSpace : isLineSpace '\r' = true := by decide
  have escape : losesSpace ('\\' :: '\r' :: text) = (beforeLineFeed text || losesSpace text) := by
    have unpaired : (text.head? == some '\n') = false := beq_eq_false_iff_ne.mpr notPair
    rw [losesSpace_escape, unpaired, isSpace, Bool.and_false, Bool.not_false, Bool.true_and,
      Bool.true_and]
  rw [trimLines_backslash]
  cases ends : beforeLineFeed text with
  | true =>
      obtain ⟨after, rest, isAfter, isRest, rfl⟩ := exists_trimmed_lineFeed ends isTrimmed
      have atLeast := relates
      rw [TrimmedValue, losesSpace_of_beforeLineFeed ends notPair, if_pos rfl] at atLeast
      rw [trimLines_cons_of_deleted (by rw [isSpace, endsLine_trimLines, ends]; rfl), isAfter,
        unescape_lineEnd, isRest]
      refine ⟨rest, rfl, ?_⟩
      rw [TrimmedValue, escape, ends, Bool.true_or, if_pos rfl]
      exact ⟨Nat.lt_of_succ_lt atLeast.1, atLeast.2⟩
  | false =>
      rw [trimLines_cons_of_kept (by rw [endsLine_trimLines, ends, Bool.and_false]),
        unescape_return, isTrimmed]
      · exact ⟨trimmed, rfl, relates.append (by rw [escape, ends, Bool.false_or]) []⟩
      · intro pair
        have atEnd := endsLine_trimLines text
        obtain ⟨rest, isRest⟩ := List.head?_eq_some_iff.mp pair
        rw [isRest, ends] at atEnd
        cases atEnd

/-- A trimmed body still has a value, which is shorter if the body loses white space. -/
theorem exists_trimmedValue {body value : List Char} (unescaped : unescape body = .ok value) :
    ∃ trimmed, unescape (trimLines false body) = .ok trimmed ∧
      TrimmedValue body value trimmed := by
  induction hLength : body.length using Nat.strongRecOn generalizing body value with
  | ind length hypothesis =>
      cases body with
      | nil =>
          cases unescaped
          exact ⟨[], rfl, rfl⟩
      | cons symbol text =>
          rw [List.length_cons] at hLength
          by_cases notBackslash : symbol ≠ '\\'
          · rw [unescape_ordinary notBackslash] at unescaped
            obtain ⟨rest, isRest, rfl⟩ := exists_of_map_ok unescaped
            obtain ⟨trimmed, isTrimmed, relates⟩ := hypothesis text.length (by omega) isRest rfl
            cases deleted : isLineSpace symbol && endsLine false (trimLines false text) with
            | true =>
                rw [trimLines_cons_of_deleted deleted]
                refine ⟨trimmed, isTrimmed, ?_⟩
                rw [endsLine_trimLines] at deleted
                obtain ⟨-, after, -, -, isLine⟩ :=
                  exists_trimmed_lineFeed (Bool.and_eq_true_iff.mp deleted).2 isTrimmed
                have longer := relates.length_le
                rw [isLine, List.length_cons] at longer
                rw [TrimmedValue, losesSpace_ordinary notBackslash, deleted, Bool.true_or,
                  if_pos rfl, List.length_cons, isLine, List.length_cons]
                omega
            | false =>
                rw [trimLines_cons_of_kept deleted, unescape_ordinary notBackslash, isTrimmed]
                refine ⟨symbol :: trimmed, rfl, relates.append ?_ [symbol]⟩
                rw [endsLine_trimLines] at deleted
                rw [losesSpace_ordinary notBackslash, deleted, Bool.false_or]
          · obtain rfl := not_not.mp notBackslash
            cases text with
            | nil => cases unescaped
            | cons escaped text =>
                rw [List.length_cons] at hLength
                by_cases isReturn : escaped = '\r'
                · subst isReturn
                  by_cases isPair : text.head? = some '\n'
                  · obtain ⟨text, rfl⟩ := List.head?_eq_some_iff.mp isPair
                    rw [List.length_cons] at hLength
                    rw [unescape_pair] at unescaped
                    obtain ⟨trimmed, isTrimmed, relates⟩ :=
                      hypothesis text.length (by omega) unescaped rfl
                    rw [trimLines_pair, unescape_lineEnd]
                    exact ⟨trimmed, isTrimmed, relates.append (losesSpace_pair text) []⟩
                  · rw [unescape_return isPair] at unescaped
                    obtain ⟨trimmed, isTrimmed, relates⟩ :=
                      hypothesis text.length (by omega) unescaped rfl
                    exact exists_trimmedValue_return isPair isTrimmed relates
                · rw [unescape_escape] at unescaped
                  cases hSequence : unescapeSequence escaped text with
                  | error error =>
                      rw [hSequence] at unescaped
                      cases unescaped
                  | ok result =>
                      obtain ⟨out, rest⟩ := result
                      rw [hSequence] at unescaped
                      obtain ⟨restValue, isRest, rfl⟩ := exists_of_map_ok unescaped
                      obtain ⟨⟨digits, rfl, plain⟩, sequence⟩ :=
                        readsPlain_unescapeSequence isReturn _ _ _ hSequence
                      have fewer : rest.length < length := by
                        rw [List.length_append] at hLength
                        omega
                      obtain ⟨trimmed, isTrimmed, relates⟩ := hypothesis _ fewer isRest rfl
                      have kept := isLineSpace_of_unescapeSequence isReturn hSequence
                      rw [trimLines_backslash, trimLines_cons kept, unescape_escape, sequence]
                      refine ⟨out ++ trimmed, ?_, relates.append ?_ out⟩
                      · simp only [Except.bind, isTrimmed, Except.map]
                      · rw [losesSpace_escape, kept, Bool.and_false, Bool.false_and,
                          Bool.false_or, losesSpace_append plain]

/-! ## The ends of literals -/

section Closing

variable {quote : Char} {atEnd : Bool}

theorem append_of_splitAtClosing {input body after : List Char}
    (split : splitAtClosing quote input = some (body, after)) :
    input = body ++ quote :: after := by
  induction input using splitAtClosing.induct quote generalizing body after with
  | case1 => cases split
  | case2 =>
      rw [splitAtClosing, if_pos rfl] at split
      cases split
      rfl
  | case3 symbol notQuote =>
      rw [splitAtClosing, if_neg notQuote] at split
      cases split
  | case4 next rest =>
      rw [splitAtClosing, if_pos rfl] at split
      cases split
      rfl
  | case5 symbol next rest notQuote escape other left isSplit hypothesis =>
      rw [splitAtClosing, if_neg notQuote, if_pos escape, isSplit] at split
      cases split
      rw [hypothesis isSplit]
      rfl
  | case6 symbol next rest notQuote escape isSplit hypothesis =>
      rw [splitAtClosing, if_neg notQuote, if_pos escape, isSplit] at split
      cases split
      rw [escape.2]
      rfl
  | case7 symbol next rest notQuote noEscape hypothesis =>
      rw [splitAtClosing, if_neg notQuote, if_neg noEscape] at split
      obtain ⟨⟨other, left⟩, isSplit, same⟩ := Option.map_eq_some_iff.mp split
      cases same
      rw [hypothesis isSplit]
      rfl

/-- Trimming brings no character but a line feed to the front. -/
theorem head?_of_head?_trimLines {symbol : Char} (notFeed : symbol ≠ '\n') {text : List Char}
    (head : (trimLines atEnd text).head? = some symbol) : text.head? = some symbol := by
  cases text with
  | nil => cases head
  | cons first text =>
      cases deleted : isLineSpace first && endsLine atEnd (trimLines atEnd text) with
      | true =>
          rw [trimLines_cons_of_deleted deleted] at head
          obtain ⟨rest, isRest⟩ := List.head?_eq_some_iff.mp head
          have ends := (Bool.and_eq_true_iff.mp deleted).2
          rw [isRest, endsLine, beq_iff_eq] at ends
          exact absurd ends notFeed
      | false =>
          rw [trimLines_cons_of_kept deleted] at head
          exact head

/-- Before a character that is no white space, no line ends. -/
theorem trimLines_append_cons {symbol : Char} (notSpace : isLineSpace symbol = false)
    (notFeed : symbol ≠ '\n') (first second : List Char) :
    trimLines atEnd (first ++ symbol :: second) =
      trimLines false first ++ symbol :: trimLines atEnd second := by
  rw [trimLines_append, trimLines_cons notSpace, endsLine, beq_eq_false_iff_ne.mpr notFeed]

variable (notBackslash : quote ≠ '\\') (kept : isLineSpace quote = false)

include notBackslash kept in
/-- The closing quote of a literal stays where it is. -/
theorem splitAtClosing_trimLines (notFeed : quote ≠ '\n') {tail : List Char}
    (noQuote : quote ∉ tail) {input body after : List Char} (split : splitAtClosing quote input = some (body, after)) :
    splitAtClosing quote (trimLines atEnd (input ++ tail)) =
      some (trimLines false body, trimLines atEnd (after ++ tail)) := by
  induction input using splitAtClosing.induct quote generalizing body after with
  | case1 => cases split
  | case2 =>
      rw [splitAtClosing, if_pos rfl] at split
      cases split
      rw [List.cons_append, trimLines_cons kept, splitAtClosing_quote]
      rfl
  | case3 symbol notQuote =>
      rw [splitAtClosing, if_neg notQuote] at split
      cases split
  | case4 next rest =>
      rw [splitAtClosing, if_pos rfl] at split
      cases split
      rw [List.cons_append, trimLines_cons kept, splitAtClosing_quote]
      rfl
  | case5 symbol next rest notQuote escape other left isSplit hypothesis =>
      obtain ⟨rfl, rfl⟩ := escape
      rw [splitAtClosing_escape notBackslash, isSplit] at split
      cases split
      rw [List.cons_append, List.cons_append, trimLines_cons (by decide), trimLines_cons kept,
        splitAtClosing_escape notBackslash, hypothesis isSplit, trimLines_backslash,
        trimLines_cons kept]
  | case6 symbol next rest notQuote escape isSplit hypothesis =>
      obtain ⟨rfl, rfl⟩ := escape
      rw [splitAtClosing_escape notBackslash, isSplit] at split
      cases split
      have noLater : splitAtClosing next (trimLines atEnd (rest ++ tail)) = none := by
        rw [splitAtClosing_eq_none_iff notBackslash, mem_trimLines kept, List.mem_append, not_or]
        exact ⟨(splitAtClosing_eq_none_iff notBackslash rest).mp isSplit, noQuote⟩
      rw [List.cons_append, List.cons_append, trimLines_cons (by decide), trimLines_cons kept,
        splitAtClosing_escape notBackslash, noLater]
      rfl
  | case7 symbol next rest notQuote noEscape hypothesis =>
      rw [splitAtClosing, if_neg notQuote, if_neg noEscape] at split
      obtain ⟨⟨other, left⟩, isSplit, same⟩ := Option.map_eq_some_iff.mp split
      cases same
      have sameEnd : endsLine atEnd (trimLines atEnd (next :: rest ++ tail)) =
          endsLine false (trimLines false other) := by
        rw [append_of_splitAtClosing isSplit, List.append_assoc, List.cons_append,
          trimLines_append_cons kept notFeed]
        cases trimLines false other with
        | nil => exact beq_eq_false_iff_ne.mpr notFeed
        | cons first other => rfl
      rw [List.cons_append]
      cases deleted : isLineSpace symbol && endsLine false (trimLines false other) with
      | true =>
          rw [trimLines_cons_of_deleted (by rw [sameEnd, deleted]), hypothesis isSplit,
            trimLines_cons_of_deleted deleted]
      | false =>
          have stillOther : ¬ (symbol = '\\' ∧
              (trimLines atEnd (next :: rest ++ tail)).head? = some quote) := by
            rintro ⟨isBackslash, isQuote⟩
            have head := head?_of_head?_trimLines notFeed isQuote
            exact noEscape ⟨isBackslash, Option.some.inj head⟩
          rw [trimLines_cons_of_kept (by rw [sameEnd, deleted]),
            splitAtClosing_cons notQuote stillOther, hypothesis isSplit,
            trimLines_cons_of_kept deleted]
          rfl

end Closing

end RexLang
