import RexLang.DocumentEdits
import RexLang.FormattedLiterals
import RexLang.TokenLocality

/-!
# Tokens of formatted documents

The tokens of a text and of the formatted text, step by step: the formatter deletes matches that
are white space, shortens comments and the bodies of literals, and leaves every other match as it
is.
-/

namespace RexLang

open LeftmostFirst LeftmostFirst.Regex

/-! ## Kinds of tokens -/

/-- What a match stands for, wherever it is. -/
def Reads (found : Found Char TokenGroup) (kind : Option TokenKind) : Prop :=
  ∀ span, captureToken found.captures.head? span = .ok kind

theorem ok_of_mapError {Error Other Value : Type} {outcome : Except Error Value}
    {change : Error → Other} {value : Value} (mapped : outcome.mapError change = .ok value) :
    outcome = .ok value := by
  cases outcome with
  | error error => cases mapped
  | ok other => exact congrArg _ (Except.ok.inj mapped)

theorem unescape_of_unescapeLiteral {kind : String} {raw value : List Char} {span : Span}
    (read : unescapeLiteral kind raw span = .ok value) : unescape raw = .ok value :=
  ok_of_mapError read

theorem unescapeLiteral_of_unescape {raw value : List Char} (unescaped : unescape raw = .ok value)
    (kind : String) (span : Span) : unescapeLiteral kind raw span = .ok value := by
  rw [unescapeLiteral, unescaped]
  rfl

theorem captureToken_string (raw : List Char) (kind : Option TokenKind) (span : Span) :
    captureToken (some (.doubleString, raw)) span = .ok kind ↔
      ∃ value, unescape raw = .ok value ∧ kind = some (.string (String.ofList value)) := by
  constructor
  · intro read
    obtain ⟨value, unescaped, isKind⟩ := exists_of_map_ok read
    exact ⟨value, unescape_of_unescapeLiteral unescaped, isKind.symm⟩
  · rintro ⟨value, unescaped, rfl⟩
    rw [captureToken, unescapeLiteral_of_unescape unescaped]
    rfl

theorem captureToken_char (raw : List Char) (kind : Option TokenKind) (span : Span) :
    captureToken (some (.char, raw)) span = .ok kind ↔
      ∃ value, unescape raw = .ok [value] ∧ kind = some (.char value) := by
  constructor
  · intro read
    rw [captureToken] at read
    cases isValue : unescapeLiteral "char" raw span with
    | error error =>
        rw [isValue] at read
        cases read
    | ok chars =>
        rw [isValue] at read
        cases chars with
        | nil => cases read
        | cons value chars =>
            cases chars with
            | nil => exact ⟨value, unescape_of_unescapeLiteral isValue, (Except.ok.inj read).symm⟩
            | cons next chars => cases read
  · rintro ⟨value, unescaped, rfl⟩
    rw [captureToken, unescapeLiteral_of_unescape unescaped]

/-- The position of a match does not matter for what it stands for. -/
theorem reads_of_captureToken {found : Found Char TokenGroup} {kind : Option TokenKind}
    {span : Span} (read : captureToken found.captures.head? span = .ok kind) :
    Reads found kind := by
  intro other
  cases captured : found.captures.head? with
  | none =>
      rw [captured] at read
      cases read
  | some entry =>
      obtain ⟨name, raw⟩ := entry
      rw [captured] at read
      cases name with
      | doubleString => exact (captureToken_string ..).mpr ((captureToken_string ..).mp read)
      | char => exact (captureToken_char ..).mpr ((captureToken_char ..).mp read)
      | bool =>
          obtain ⟨value, isValue, rfl⟩ := exists_of_map_ok read
          rw [captureToken, ok_of_mapError isValue]
          rfl
      | int =>
          obtain ⟨value, isValue, rfl⟩ := exists_of_map_ok read
          rw [captureToken, ok_of_mapError isValue]
          rfl
      | _ => first | exact read | cases read

/-! ## Scanning -/

/-- The matches of a text and the kinds of its tokens. -/
inductive Scans (words : WordClass) :
    Option Char → List Char → List (Found Char TokenGroup) → List TokenKind → Prop
  | done {before : Option Char} : Scans words before [] [] []
  | step {before : Option Char} {input : List Char} {found : Found Char TokenGroup}
      {kind : Option TokenKind} {founds : List (Found Char TokenGroup)} {kinds : List TokenKind}
      (matched : (tokenRegex words).firstMatch before input = some found)
      (reads : Reads found kind)
      (rest : Scans words (found.last before) found.rest founds kinds) :
      Scans words before input (found :: founds) (kind.toList ++ kinds)

section Scans

variable {words : WordClass}

theorem firstMatch_nil (before : Option Char) : (tokenRegex words).firstMatch before [] = none := by
  rw [firstMatch_eq_search]
  exact search_nil rfl before some

/-- A match is a part of the input that is not empty. -/
theorem splits_firstMatch {before : Option Char} {input : List Char}
    {found : Found Char TokenGroup}
    (matched : (tokenRegex words).firstMatch before input = some found) :
    found.consumed ++ found.rest = input ∧ found.consumed ≠ [] := by
  have member := mem_run_of_firstMatch matched
  exact ⟨(tokenRegex words).splits _ _ _ member, consumed_ne_nil rfl member⟩

theorem length_rest_lt {before : Option Char} {input : List Char} {found : Found Char TokenGroup}
    (matched : (tokenRegex words).firstMatch before input = some found) :
    found.rest.length < input.length := by
  obtain ⟨split, nonempty⟩ := splits_firstMatch matched
  rw [← split, List.length_append]
  have positive := List.length_pos_of_ne_nil nonempty
  omega

theorem scans_of_captures {fuel : Nat} {before : Option Char} {rest : List Char}
    (enough : rest.length < fuel) {start position : Position} {tokens : List Token}
    (tokenized : tokenizeCaptures ((tokenRegex words).capturesIter fuel before rest) start =
      .ok (tokens, position)) :
    Scans words before rest ((tokenRegex words).capturesIter fuel before rest)
      (tokens.map (·.kind)) := by
  induction fuel generalizing before rest start tokens with
  | zero => exact absurd enough (Nat.not_lt_zero _)
  | succ fuel hypothesis =>
      cases rest with
      | nil =>
          rw [capturesIter_nil] at tokenized ⊢
          cases tokenized
          exact .done
      | cons symbol rest =>
          obtain ⟨found, matched⟩ := exists_firstMatch words before symbol rest
          have fewer := length_rest_lt matched
          rw [capturesIter_match fuel matched (splits_firstMatch matched).2 (by simp)]
            at tokenized ⊢
          obtain ⟨kind, captured, tokenized⟩ := exists_of_bind_eq_ok tokenized
          obtain ⟨⟨more, final⟩, isRest, ⟨⟩⟩ := exists_of_bind_eq_ok tokenized
          have scanned := hypothesis (by omega) isRest
          have kinds : (kind.toList.map (Token.mk · (Span.fromBeginEnd start
              (advancePosition found.consumed start))) ++ more).map (·.kind) =
                kind.toList ++ more.map (·.kind) := by
            cases kind <;> rfl
          rw [kinds]
          exact .step matched (reads_of_captureToken captured) scanned

theorem captures_of_scans {fuel : Nat} {before : Option Char} {rest : List Char}
    {founds : List (Found Char TokenGroup)} {kinds : List TokenKind}
    (scans : Scans words before rest founds kinds) (enough : rest.length < fuel)
    (start : Position) :
    ∃ tokens position, tokenizeCaptures ((tokenRegex words).capturesIter fuel before rest) start =
      .ok (tokens, position) ∧ tokens.map (·.kind) = kinds := by
  induction scans generalizing fuel start with
  | done =>
      rw [capturesIter_nil]
      exact ⟨[], start, rfl, rfl⟩
  | @step before input found kind founds kinds matched reads rest hypothesis =>
      cases fuel with
      | zero => exact absurd enough (Nat.not_lt_zero _)
      | succ fuel =>
          have fewer := length_rest_lt matched
          have nonempty : input ≠ [] := by
            rintro rfl
            rw [firstMatch_nil] at matched
            cases matched
          have fits : found.rest.length < fuel := by omega
          obtain ⟨tokens, position, tokenized, isKinds⟩ :=
            hypothesis fits (advancePosition found.consumed start)
          rw [capturesIter_match fuel matched (splits_firstMatch matched).2 nonempty,
            tokenizeCaptures, reads]
          simp only [tokenized]
          refine ⟨_, _, rfl, ?_⟩
          rw [← isKinds]
          cases kind <;> rfl

end Scans

/-! ## The rest of a formatted text -/

/-- What the formatter leaves of the rest of a text, with what it adds at the end. -/
def formatRest (tail rest : List Char) : List Char :=
  trimLines true (rest ++ tail)

/-- The body of the match of a string literal. -/
def stringBody (found : Found Char TokenGroup) : Option (List Char) :=
  match found.captures.head? with
  | some (.doubleString, body) => some body
  | _ => none

/-- The symbols before two matches are the same, or the next match does not depend on them. -/
def SameBefore (tail : List Char) (first second : Option Char) (rest : List Char) : Prop :=
  first = second ∨ ∀ symbol, (formatRest tail rest).head? = some symbol → isLineEnd symbol = true

/-- The formatted text has a match for a match of the text. -/
def StepKept (words : WordClass) (tail : List Char) (before formattedBefore : Option Char)
    (input : List Char) (found : Found Char TokenGroup) (kind : Option TokenKind) : Prop :=
  ∃ formatted formattedKind,
    (tokenRegex words).firstMatch formattedBefore (formatRest tail input) = some formatted ∧
    formatted.rest = formatRest tail found.rest ∧
    SameBefore tail (found.last before) (formatted.last formattedBefore) found.rest ∧
    Reads formatted formattedKind ∧ formattedKind.isSome = kind.isSome ∧
    (formattedKind = kind ↔ ∀ body, stringBody found = some body → losesSpace body = false)

/-- The formatter deletes a match, which is white space. -/
def StepDeleted (tail : List Char) (before formattedBefore : Option Char) (input : List Char)
    (found : Found Char TokenGroup) (kind : Option TokenKind) : Prop :=
  formatRest tail input = formatRest tail found.rest ∧ kind = none ∧ stringBody found = none ∧
    SameBefore tail (found.last before) formattedBefore found.rest

section Rest

variable {tail : List Char}

theorem formatRest_cons {symbol : Char} (notSpace : isLineSpace symbol = false)
    (rest : List Char) : formatRest tail (symbol :: rest) = symbol :: formatRest tail rest :=
  trimLines_cons notSpace _

theorem formatRest_append {consumed : List Char}
    (noSpace : ∀ symbol ∈ consumed, isLineSpace symbol = false) (rest : List Char) :
    formatRest tail (consumed ++ rest) = consumed ++ formatRest tail rest := by
  rw [formatRest, List.append_assoc, trimLines_append, trimLines_eq_self noSpace]
  rfl

/-- White space of a line is deleted before the end of a line, or kept. -/
theorem formatRest_space {symbol : Char} (space : isLineSpace symbol = true) (rest : List Char) :
    endsLine true (formatRest tail rest) = true ∧
        formatRest tail (symbol :: rest) = formatRest tail rest ∨
      endsLine true (formatRest tail rest) = false ∧
        formatRest tail (symbol :: rest) = symbol :: formatRest tail rest := by
  cases ends : endsLine true (formatRest tail rest) with
  | true => exact .inl ⟨rfl, trimLines_cons_of_deleted (by rw [space]; exact ends)⟩
  | false => exact .inr ⟨rfl, trimLines_cons_of_kept (by rw [space]; exact ends)⟩

theorem sameBefore_of_endsLine {first second : Option Char} {rest : List Char}
    (ends : endsLine true (formatRest tail rest) = true) : SameBefore tail first second rest := by
  refine .inr fun symbol head => ?_
  obtain ⟨more, isMore⟩ := List.head?_eq_some_iff.mp head
  rw [isMore, endsLine, beq_iff_eq] at ends
  rw [ends]
  rfl

/-- A text and the formatted text are the same up to the first white space. -/
theorem sameUntil_formatRest (isTail : tail = [] ∨ tail = ['\n']) (rest : List Char) :
    SameUntil isWhitespace rest (formatRest tail rest) := by
  have stopped {text : List Char} (ends : endsLine true text = true) :
      text.head?.all isWhitespace = true := by
    cases text with
    | nil => rfl
    | cons first text =>
        rw [endsLine, beq_iff_eq] at ends
        rw [ends]
        rfl
  induction rest with
  | nil =>
      obtain rfl | rfl := isTail
      · exact .stop rfl rfl
      · exact .stop rfl rfl
  | cons symbol rest hypothesis =>
      cases space : isWhitespace symbol with
      | false =>
          have notSpace : isLineSpace symbol = false := by rw [isLineSpace, space]; rfl
          rw [formatRest_cons notSpace]
          exact .cons space hypothesis
      | true =>
          have isStopped : (symbol :: rest).head?.all isWhitespace = true := by simp [space]
          cases lineSpace : isLineSpace symbol with
          | false =>
              rw [formatRest_cons lineSpace]
              exact .stop isStopped (by simp [space])
          | true =>
              obtain ⟨ends, same⟩ | ⟨-, same⟩ := formatRest_space lineSpace rest
              · rw [same]
                exact .stop isStopped (stopped ends)
              · rw [same]
                exact .stop isStopped (by simp [space])

end Rest

/-! ## One match -/

section Steps

variable {words : WordClass} {tail : List Char} {before formattedBefore : Option Char}

/-- What a match of skipped text stands for. -/
theorem kind_of_skipped {found : Found Char TokenGroup} {kind : Option TokenKind}
    {name : TokenGroup} {raw : List Char} (captures : found.captures = [(name, raw)])
    (skipped : ∀ span, captureToken (some (name, raw)) span = .ok none)
    (reads : Reads found kind) : kind = none := by
  have read := reads ⟨⟨1, 1⟩, ⟨1, 1⟩⟩
  rw [captures, List.head?_cons, skipped] at read
  exact (Except.ok.inj read).symm

/-- A skipped match that the formatter keeps, maybe shortened. -/
theorem stepKept_of_skipped {input : List Char} {found : Found Char TokenGroup}
    (formatted : Found Char TokenGroup) {kind : Option TokenKind} {name : TokenGroup}
    {raw formattedRaw : List Char}
    (skipped : ∀ raw span, captureToken (some (name, raw)) span = .ok none)
    (captures : found.captures = [(name, raw)])
    (formattedCaptures : formatted.captures = [(name, formattedRaw)])
    (matched : (tokenRegex words).firstMatch formattedBefore (formatRest tail input) =
      some formatted)
    (rest : formatted.rest = formatRest tail found.rest)
    (same : SameBefore tail (found.last before) (formatted.last formattedBefore) found.rest)
    (reads : Reads found kind) :
    StepKept words tail before formattedBefore input found kind := by
  obtain rfl := kind_of_skipped captures (skipped raw) reads
  have noString : stringBody found = none := by
    rw [stringBody, captures]
    cases name with
    | doubleString => cases skipped [] ⟨⟨1, 1⟩, ⟨1, 1⟩⟩
    | _ => rfl
  refine ⟨formatted, none, matched, rest, same, fun span => ?_, rfl, iff_of_true rfl ?_⟩
  · rw [formattedCaptures]
    exact skipped formattedRaw span
  · rw [noString]
    exact fun body isBody => absurd isBody (by simp)

theorem captures_ne_nil {found : Found Char TokenGroup} {kind : Option TokenKind}
    (reads : Reads found kind) : found.captures ≠ [] := by
  intro noCapture
  have read := reads ⟨⟨1, 1⟩, ⟨1, 1⟩⟩
  rw [noCapture] at read
  cases read

section White

variable {rest : List Char} {found : Found Char TokenGroup} {kind : Option TokenKind}

theorem stepKept_lineFeed
    (matched : (tokenRegex words).firstMatch before ('\n' :: rest) = some found)
    (reads : Reads found kind) :
    StepKept words tail before formattedBefore ('\n' :: rest) found kind := by
  rw [firstMatch_lineFeed] at matched
  cases matched
  refine stepKept_of_skipped ⟨['\n'], formatRest tail rest, [(.skipLineBreak, ['\n'])]⟩
    (fun _ _ => rfl) rfl rfl ?_ rfl (.inl rfl) reads
  rw [formatRest_cons isLineSpace_lineFeed]
  exact firstMatch_lineFeed words formattedBefore _

/-- White space that the lexer skips alone is deleted or kept. -/
theorem step_space {symbol : Char} {name : TokenGroup} (space : isLineSpace symbol = true)
    (skipped : ∀ raw span, captureToken (some (name, raw)) span = .ok none)
    (noString : name ≠ .doubleString)
    (isFound : found = ⟨[symbol], rest, [(name, [symbol])]⟩)
    (matched : endsLine true (formatRest tail rest) = false →
      (tokenRegex words).firstMatch formattedBefore (symbol :: formatRest tail rest) =
        some ⟨[symbol], formatRest tail rest, [(name, [symbol])]⟩)
    (reads : Reads found kind) :
    StepKept words tail before formattedBefore (symbol :: rest) found kind ∨
      StepDeleted tail before formattedBefore (symbol :: rest) found kind := by
  subst isFound
  obtain ⟨ends, same⟩ | ⟨goesOn, same⟩ := formatRest_space space rest
  · refine .inr ⟨same, kind_of_skipped rfl (skipped _) reads, ?_, sameBefore_of_endsLine ends⟩
    cases name with
    | doubleString => exact absurd rfl noString
    | _ => rfl
  · refine .inl (stepKept_of_skipped ⟨[symbol], formatRest tail rest, [(name, [symbol])]⟩
      skipped rfl rfl ?_ rfl (.inl rfl) reads)
    rw [same]
    exact matched goesOn

theorem step_return (matched : (tokenRegex words).firstMatch before ('\r' :: rest) = some found)
    (reads : Reads found kind) :
    StepKept words tail before formattedBefore ('\r' :: rest) found kind ∨
      StepDeleted tail before formattedBefore ('\r' :: rest) found kind := by
  by_cases isPair : rest.head? = some '\n'
  · obtain ⟨rest, rfl⟩ := List.head?_eq_some_iff.mp isPair
    rw [firstMatch_pair] at matched
    cases matched
    have deleted : formatRest tail ('\r' :: '\n' :: rest) = '\n' :: formatRest tail rest := by
      have isFeed : formatRest tail ('\n' :: rest) = '\n' :: formatRest tail rest :=
        formatRest_cons isLineSpace_lineFeed rest
      obtain ⟨-, same⟩ | ⟨goesOn, -⟩ :=
        @formatRest_space tail '\r' (by decide) ('\n' :: rest)
      · rw [same, isFeed]
      · rw [isFeed] at goesOn
        cases goesOn
    refine .inl (stepKept_of_skipped ⟨['\n'], formatRest tail rest, [(.skipLineBreak, ['\n'])]⟩
      (fun _ _ => rfl) rfl rfl ?_ rfl (.inl rfl) reads)
    rw [deleted]
    exact firstMatch_lineFeed words formattedBefore _
  · rw [firstMatch_return words before isPair] at matched
    refine step_space (by decide) (fun _ _ => rfl) (by decide) (Option.some.inj matched).symm
      (fun goesOn => firstMatch_return words formattedBefore ?_) reads
    intro feed
    obtain ⟨more, isMore⟩ := List.head?_eq_some_iff.mp feed
    rw [isMore] at goesOn
    cases goesOn

theorem step_blank {symbol : Char} (isBlank : symbol = ' ' ∨ symbol = '\t')
    (matched : (tokenRegex words).firstMatch before (symbol :: rest) = some found)
    (reads : Reads found kind) :
    StepKept words tail before formattedBefore (symbol :: rest) found kind ∨
      StepDeleted tail before formattedBefore (symbol :: rest) found kind := by
  have alone (before : Option Char) (rest : List Char) :
      (tokenRegex words).firstMatch before (symbol :: rest) =
        some ⟨[symbol], rest, [(.skipSpace, [symbol])]⟩ := by
    obtain rfl | rfl := isBlank
    · exact firstMatch_space words before rest
    · exact firstMatch_tab words before rest
  have space : isLineSpace symbol = true := by
    obtain rfl | rfl := isBlank <;> decide
  rw [alone] at matched
  exact step_space space (fun _ _ => rfl) (by decide) (Option.some.inj matched).symm
    (fun _ => alone _ _) reads

end White

section Literals

variable {rest : List Char} {found : Found Char TokenGroup} {kind : Option TokenKind}

theorem TrimmedValue.eq_iff {body value trimmed : List Char}
    (isTrimmed : TrimmedValue body value trimmed) :
    trimmed = value ↔ losesSpace body = false := by
  rw [TrimmedValue] at isTrimmed
  cases loses : losesSpace body with
  | true =>
      rw [loses, if_pos rfl] at isTrimmed
      refine iff_of_false ?_ Bool.true_eq_false.mp
      rintro rfl
      exact absurd isTrimmed.1 (Nat.lt_irrefl _)
  | false =>
      rw [loses, if_neg Bool.false_ne_true] at isTrimmed
      exact iff_of_true isTrimmed rfl

/-- A quote that opens no literal is no token. -/
theorem exists_splitAtClosing {quote : Char} {name : TokenGroup} (notBackslash : quote ≠ '\\')
    (only : (tokenAlternatives words).filter (fun regex => [quote].any (regex.starts ·)) =
      [quoted name quote])
    (matched : (tokenRegex words).firstMatch before (quote :: rest) = some found)
    (captured : found.captures ≠ []) :
    ∃ body after, splitAtClosing quote rest = some (body, after) := by
  cases split : splitAtClosing quote rest with
  | some parts => exact ⟨parts.1, parts.2, rfl⟩
  | none =>
      rw [firstMatch_tokenRegex words before quote [quote] (by simp), only,
        List.findSome?_singleton, search_quoted notBackslash, split, Option.map_none,
        Option.none_or, search_chr_cons] at matched
      split_ifs at matched
      cases matched
      exact absurd rfl captured

theorem not_mem_tail (isTail : tail = [] ∨ tail = ['\n']) {symbol : Char}
    (notFeed : symbol ≠ '\n') : symbol ∉ tail := by
  obtain rfl | rfl := isTail
  · exact List.not_mem_nil
  · simpa using notFeed

theorem last_quoted (quote : Char) (body after : List Char)
    (captures : List (TokenGroup × List Char)) (before : Option Char) :
    Found.last before ⟨quote :: (body ++ [quote]), after, captures⟩ = some quote := by
  rw [Found.last, ← List.cons_append, List.getLast?_concat]
  rfl

theorem stepKept_string (isTail : tail = [] ∨ tail = ['\n'])
    (matched : (tokenRegex words).firstMatch before ('"' :: rest) = some found)
    (reads : Reads found kind) :
    StepKept words tail before formattedBefore ('"' :: rest) found kind := by
  obtain ⟨body, after, split⟩ :=
    exists_splitAtClosing (by decide) rfl matched (captures_ne_nil reads)
  rw [firstMatch_doubleString words before split] at matched
  cases matched
  obtain ⟨value, unescaped, rfl⟩ := (captureToken_string ..).mp (reads ⟨⟨1, 1⟩, ⟨1, 1⟩⟩)
  obtain ⟨trimmed, isTrimmed, relates⟩ := exists_trimmedValue unescaped
  have formattedSplit := @splitAtClosing_trimLines _ true (by decide) (by decide)
    (by decide) _ (not_mem_tail isTail (by decide)) _ _ _ split
  refine ⟨⟨'"' :: (trimLines false body ++ ['"']), formatRest tail after,
    [(.doubleString, trimLines false body)]⟩, some (.string (String.ofList trimmed)), ?_, rfl,
    .inl ?_, fun span => (captureToken_string ..).mpr ⟨trimmed, isTrimmed, rfl⟩, rfl, ?_⟩
  · rw [formatRest_cons (by decide)]
    exact firstMatch_doubleString words formattedBefore formattedSplit
  · rw [last_quoted, last_quoted]
  · have sameValue : some (TokenKind.string (String.ofList trimmed)) =
        some (.string (String.ofList value)) ↔ trimmed = value := by
      rw [Option.some_inj, TokenKind.string.injEq, String.ofList_inj]
    rw [sameValue, relates.eq_iff]
    exact ⟨fun keeps other isBody => Option.some.inj isBody ▸ keeps, fun keeps => keeps body rfl⟩

theorem stepKept_char (isTail : tail = [] ∨ tail = ['\n'])
    (matched : (tokenRegex words).firstMatch before ('\'' :: rest) = some found)
    (reads : Reads found kind) :
    StepKept words tail before formattedBefore ('\'' :: rest) found kind := by
  obtain ⟨body, after, split⟩ :=
    exists_splitAtClosing (by decide) rfl matched (captures_ne_nil reads)
  rw [firstMatch_char words before split] at matched
  cases matched
  obtain ⟨value, unescaped, rfl⟩ := (captureToken_char ..).mp (reads ⟨⟨1, 1⟩, ⟨1, 1⟩⟩)
  obtain ⟨trimmed, isTrimmed, relates⟩ := exists_trimmedValue unescaped
  -- The value is a single character, so the body loses none.
  have keeps : losesSpace body = false := by
    rw [TrimmedValue] at relates
    split_ifs at relates with loses
    · exact absurd relates.2 (by simp)
    · exact Bool.eq_false_iff.mpr loses
  rw [relates.eq_iff.mpr keeps] at isTrimmed
  have formattedSplit := @splitAtClosing_trimLines _ true (by decide) (by decide)
    (by decide) _ (not_mem_tail isTail (by decide)) _ _ _ split
  refine ⟨⟨'\'' :: (trimLines false body ++ ['\'']), formatRest tail after,
    [(.char, trimLines false body)]⟩, some (.char value), ?_, rfl, .inl ?_,
    fun span => (captureToken_char ..).mpr ⟨value, isTrimmed, rfl⟩, rfl, iff_of_true rfl ?_⟩
  · rw [formatRest_cons (by decide)]
    exact firstMatch_char words formattedBefore formattedSplit
  · rw [last_quoted, last_quoted]
  · rintro other ⟨⟩

end Literals

section Slash

variable {rest : List Char} {found : Found Char TokenGroup} {kind : Option TokenKind}

/-- Formatting brings no character but a line feed to the front. -/
theorem head?_of_head?_formatRest (isTail : tail = [] ∨ tail = ['\n']) {symbol : Char}
    (notFeed : symbol ≠ '\n') (head : (formatRest tail rest).head? = some symbol) :
    rest.head? = some symbol := by
  have isHead := head?_of_head?_trimLines notFeed head
  cases rest with
  | nil => exact absurd (List.mem_of_head? isHead) (not_mem_tail isTail notFeed)
  | cons first rest => exact isHead

theorem exists_splitAtComment (isTail : tail = [] ∨ tail = ['\n']) {input body after : List Char}
    (split : splitAtComment input = some (body, after)) :
    ∃ shorter, splitAtComment (formatRest tail input) = some (shorter, formatRest tail after) := by
  induction input generalizing body with
  | nil => cases split
  | cons symbol rest hypothesis =>
      rw [splitAtComment] at split
      by_cases closes : symbol = '*' ∧ rest.head? = some '/'
      · obtain ⟨rfl, head⟩ := closes
        obtain ⟨more, rfl⟩ := List.head?_eq_some_iff.mp head
        rw [if_pos ⟨rfl, head⟩] at split
        cases split
        refine ⟨[], ?_⟩
        rw [formatRest_cons (by decide), formatRest_cons (by decide), splitAtComment,
          if_pos ⟨rfl, rfl⟩]
        rfl
      · rw [if_neg closes] at split
        obtain ⟨⟨other, left⟩, isSplit, same⟩ := Option.map_eq_some_iff.mp split
        cases same
        obtain ⟨shorter, isShorter⟩ := hypothesis isSplit
        have goesOn : splitAtComment (symbol :: formatRest tail rest) =
            some (symbol :: shorter, formatRest tail after) := by
          rw [splitAtComment, if_neg, isShorter]
          · rfl
          · rintro ⟨isStar, isSlash⟩
            exact closes ⟨isStar, head?_of_head?_formatRest isTail (by decide) isSlash⟩
        cases space : isLineSpace symbol with
        | false =>
            rw [formatRest_cons space]
            exact ⟨_, goesOn⟩
        | true =>
            obtain ⟨-, same⟩ | ⟨-, same⟩ := @formatRest_space tail _ space rest
            · rw [same]
              exact ⟨shorter, isShorter⟩
            · rw [same]
              exact ⟨_, goesOn⟩

theorem stepKept_blockComment (isTail : tail = [] ∨ tail = ['\n'])
    (matched : (tokenRegex words).firstMatch before ('/' :: '*' :: rest) = some found)
    (reads : Reads found kind) :
    StepKept words tail before formattedBefore ('/' :: '*' :: rest) found kind := by
  cases split : splitAtComment rest with
  | none =>
      rw [firstMatch_openComment words before split] at matched
      cases matched
      cases reads ⟨⟨1, 1⟩, ⟨1, 1⟩⟩
  | some parts =>
      obtain ⟨body, after⟩ := parts
      rw [firstMatch_blockComment words before split] at matched
      cases matched
      obtain ⟨shorter, formattedSplit⟩ := exists_splitAtComment isTail split
      have lastSlash (body after : List Char) (captures : List (TokenGroup × List Char))
          (before : Option Char) :
          Found.last before ⟨'/' :: '*' :: (body ++ ['*', '/']), after, captures⟩ = some '/' := by
        have ends : '/' :: '*' :: (body ++ ['*', '/']) =
            ('/' :: '*' :: (body ++ ['*'])) ++ ['/'] := by
          simp
        rw [Found.last, ends, List.getLast?_concat]
        rfl
      refine stepKept_of_skipped ⟨'/' :: '*' :: (shorter ++ ['*', '/']), formatRest tail after,
        [(.blockComment, '/' :: '*' :: (shorter ++ ['*', '/']))]⟩ (fun _ _ => rfl) rfl rfl ?_ rfl
        (.inl ?_) reads
      · rw [formatRest_cons (by decide), formatRest_cons (by decide)]
        exact firstMatch_blockComment words formattedBefore formattedSplit
      · rw [lastSlash, lastSlash]

theorem isLineEnd_of_formatRest (isTail : tail = [] ∨ tail = ['\n'])
    (stops : ∀ symbol, rest.head? = some symbol → isLineEnd symbol = true) :
    ∀ symbol, (formatRest tail rest).head? = some symbol → isLineEnd symbol = true := by
  intro symbol head
  by_cases isFeed : symbol = '\n'
  · rw [isFeed]
    rfl
  · exact stops symbol (head?_of_head?_formatRest isTail isFeed head)

theorem stepKept_lineComment (isTail : tail = [] ∨ tail = ['\n'])
    (matched : (tokenRegex words).firstMatch before ('/' :: '/' :: rest) = some found)
    (reads : Reads found kind) :
    StepKept words tail before formattedBefore ('/' :: '/' :: rest) found kind := by
  have inLine (symbol : Char) :
      (symbol != '\n' && symbol != '\r') = !isLineEnd symbol := by
    rw [isLineEnd, Bool.not_or, Bool.and_comm]
    rfl
  have stopsAny {text : List Char} (stops : ∀ symbol, text.head? = some symbol →
      isLineEnd symbol = true) :
      text.head?.any (fun symbol => symbol != '\n' && symbol != '\r') = false := by
    cases text with
    | nil => rfl
    | cons first text =>
        rw [List.head?_cons, Option.any_some, inLine, stops first rfl]
        rfl
  obtain ⟨many, after, rfl, oneLine, stops⟩ : ∃ many after, rest = many ++ after ∧
      (∀ symbol ∈ many, isLineEnd symbol = false) ∧
        ∀ symbol, after.head? = some symbol → isLineEnd symbol = true := by
    refine ⟨rest.takeWhile (!isLineEnd ·), rest.dropWhile (!isLineEnd ·),
      List.takeWhile_append_dropWhile.symm, fun symbol member => ?_, fun symbol head => ?_⟩
    · simpa using List.mem_takeWhile_imp member
    · have stopped := List.head?_dropWhile_not (!isLineEnd ·) rest
      rw [head] at stopped
      simpa using stopped
  have accepted {many : List Char} (oneLine : ∀ symbol ∈ many, isLineEnd symbol = false) :
      ∀ symbol ∈ many, (symbol != '\n' && symbol != '\r') = true := by
    intro symbol member
    rw [inLine, oneLine symbol member]
    rfl
  rw [firstMatch_lineComment words before (accepted oneLine) (stopsAny stops)] at matched
  cases matched
  have formattedStops := isLineEnd_of_formatRest isTail stops
  let shorter := trimLines (endsLine true (formatRest tail after)) many
  have shorterLine : ∀ symbol ∈ shorter, isLineEnd symbol = false :=
    fun symbol member => oneLine symbol (mem_of_mem_trimLines member)
  refine stepKept_of_skipped ⟨'/' :: '/' :: shorter, formatRest tail after,
    [(.lineComment, '/' :: '/' :: shorter)]⟩ (fun _ _ => rfl) rfl rfl ?_ rfl
    (.inr formattedStops) reads
  have split : formatRest tail ('/' :: '/' :: (many ++ after)) =
      '/' :: '/' :: (shorter ++ formatRest tail after) := by
    rw [formatRest_cons (by decide), formatRest_cons (by decide), formatRest, List.append_assoc,
      trimLines_append]
    rfl
  rw [split]
  exact firstMatch_lineComment words formattedBefore (accepted shorterLine)
    (stopsAny formattedStops)

theorem stepKept_slash (isTail : tail = [] ∨ tail = ['\n'])
    (matched : (tokenRegex words).firstMatch before ('/' :: rest) = some found)
    (reads : Reads found kind) :
    StepKept words tail before formattedBefore ('/' :: rest) found kind := by
  by_cases isBlock : rest.head? = some '*'
  · obtain ⟨rest, rfl⟩ := List.head?_eq_some_iff.mp isBlock
    exact stepKept_blockComment isTail matched reads
  by_cases isLine : rest.head? = some '/'
  · obtain ⟨rest, rfl⟩ := List.head?_eq_some_iff.mp isLine
    exact stepKept_lineComment isTail matched reads
  rw [firstMatch_div words before isBlock isLine] at matched
  cases matched
  refine ⟨⟨['/'], formatRest tail rest, [(.div, ['/'])]⟩, kind, ?_, rfl, .inl rfl, reads, rfl,
    iff_of_true rfl ?_⟩
  · rw [formatRest_cons (by decide)]
    exact firstMatch_div words formattedBefore
      (mt (head?_of_head?_formatRest isTail (by decide)) isBlock)
      (mt (head?_of_head?_formatRest isTail (by decide)) isLine)
  · rintro body ⟨⟩

end Slash

section Solid

variable {rest : List Char} {found : Found Char TokenGroup} {kind : Option TokenKind}

theorem stringBody_eq_none {symbol : Char} (notQuote : symbol ≠ '"')
    (matched : (tokenRegex words).firstMatch before (symbol :: rest) = some found) :
    stringBody found = none := by
  cases captured : found.captures.head? with
  | none => rw [stringBody, captured]
  | some entry =>
      obtain ⟨name, raw⟩ := entry
      cases name with
      | doubleString =>
          have alternative : (quoted .doubleString '"').firstMatch before (symbol :: rest) =
              some found := @firstMatch_alternative words _ _ _ _ _ rfl matched _ captured
          have cannot : (quoted .doubleString '"').starts symbol = false := by
            simp [quoted, starts, nullable, notQuote]
          rw [firstMatch_eq_search, search_eq_none rfl cannot] at alternative
          cases alternative
      | _ => rw [stringBody, captured]

variable (spaces : ∀ symbol, isWhitespace symbol = true → words.isWord symbol = false)

include spaces in
/-- A match without white space is not changed. -/
theorem stepKept_solid (isTail : tail = [] ∨ tail = ['\n']) {symbol : Char}
    (solid : isWhitespace symbol = false) (other : opensSpan symbol = false)
    (matched : (tokenRegex words).firstMatch before (symbol :: rest) = some found)
    (reads : Reads found kind) (same : SameBefore tail before formattedBefore (symbol :: rest)) :
    StepKept words tail before formattedBefore (symbol :: rest) found kind := by
  have notSpace : isLineSpace symbol = false := by rw [isLineSpace, solid]; rfl
  have isRest : formatRest tail (symbol :: rest) = symbol :: formatRest tail rest :=
    formatRest_cons notSpace rest
  have sameBefore : before = formattedBefore := by
    refine same.resolve_right fun ends => ?_
    have isEnd : isLineEnd symbol = true := ends symbol (by rw [isRest]; rfl)
    rw [opensSpan, decide_eq_false_iff_not] at other
    rw [isLineEnd, Bool.or_eq_true, beq_iff_eq, beq_iff_eq] at isEnd
    obtain rfl | rfl := isEnd <;> simp at other
  subst sameBefore
  obtain ⟨formatted, isMatch, sameMatch⟩ := firstMatch_of_sameUntil spaces other
    (.cons solid (sameUntil_formatRest isTail rest)) matched (captures_ne_nil reads)
  refine ⟨formatted, kind, by rw [isRest]; exact isMatch, ?_, .inl (sameMatch.last before),
    fun span => sameMatch.captures ▸ reads span, rfl, iff_of_true rfl ?_⟩
  · have split := (splits_firstMatch isMatch).1
    have noSpace : ∀ symbol ∈ found.consumed, isLineSpace symbol = false := fun symbol member => by
      rw [isLineSpace, sameMatch.goesOn symbol member]
      rfl
    rw [← isRest, ← (splits_firstMatch matched).1, formatRest_append noSpace,
      sameMatch.consumed] at split
    exact List.append_cancel_left split
  · have notQuote : symbol ≠ '"' := by
      rintro rfl
      cases other
    rw [stringBody_eq_none notQuote matched]
    rintro body ⟨⟩

include spaces in
/-- The formatter keeps a match, or deletes it because it is white space. -/
theorem step_formatted (isTail : tail = [] ∨ tail = ['\n']) {input : List Char}
    (matched : (tokenRegex words).firstMatch before input = some found)
    (reads : Reads found kind) (same : SameBefore tail before formattedBefore input) :
    StepKept words tail before formattedBefore input found kind ∨
      StepDeleted tail before formattedBefore input found kind := by
  cases input with
  | nil =>
      rw [firstMatch_nil] at matched
      cases matched
  | cons symbol rest =>
      cases opens : opensSpan symbol with
      | false =>
          cases space : isWhitespace symbol with
          | false => exact .inl (stepKept_solid spaces isTail space opens matched reads same)
          | true =>
              have noCapture := captures_of_space spaces space opens matched
              exact absurd noCapture (captures_ne_nil reads)
      | true =>
          rw [opensSpan, decide_eq_true_iff] at opens
          simp only [List.mem_cons, List.not_mem_nil, or_false] at opens
          obtain rfl | rfl | rfl | rfl | rfl | rfl | rfl := opens
          · exact step_blank (.inl rfl) matched reads
          · exact step_blank (.inr rfl) matched reads
          · exact .inl (stepKept_lineFeed matched reads)
          · exact step_return matched reads
          · exact .inl (stepKept_slash isTail matched reads)
          · exact .inl (stepKept_string isTail matched reads)
          · exact .inl (stepKept_char isTail matched reads)

end Solid

end Steps

/-! ## Whole texts -/

section Runs

variable {words : WordClass} {tail : List Char}
  (spaces : ∀ symbol, isWhitespace symbol = true → words.isWord symbol = false)

include spaces in
/-- The formatted text is scanned to the same kinds just if no string loses white space. -/
theorem exists_formattedScan (isTail : tail = [] ∨ tail = ['\n']) {before : Option Char}
    {rest : List Char} {founds : List (Found Char TokenGroup)} {kinds : List TokenKind}
    (scans : Scans words before rest founds kinds) {formattedBefore : Option Char}
    (same : SameBefore tail before formattedBefore rest) :
    ∃ formattedFounds formattedKinds,
      Scans words formattedBefore (formatRest tail rest) formattedFounds formattedKinds ∧
      (formattedKinds = kinds ↔
        ∀ body ∈ founds.filterMap stringBody, losesSpace body = false) := by
  induction scans generalizing formattedBefore with
  | done =>
      obtain rfl | rfl := isTail
      · exact ⟨[], [], .done, iff_of_true rfl (by simp)⟩
      · have noKind : Reads ⟨['\n'], [], [(.skipLineBreak, ['\n'])]⟩ none := fun _ => rfl
        exact ⟨_, _, .step (firstMatch_lineFeed words formattedBefore []) noKind .done,
          iff_of_true rfl (by simp)⟩
  | @step before input found kind founds kinds matched reads rest hypothesis =>
      obtain ⟨formatted, formattedKind, isMatch, isRest, sameNext, formattedReads, isSome, kept⟩ |
        ⟨sameRest, rfl, noString, sameNext⟩ := step_formatted spaces isTail matched reads same
      · obtain ⟨formattedFounds, formattedKinds, formattedScan, sameKinds⟩ := hypothesis sameNext
        rw [← isRest] at formattedScan
        refine ⟨_, _, .step isMatch formattedReads formattedScan, ?_⟩
        have split : formattedKind.toList ++ formattedKinds = kind.toList ++ kinds ↔
            formattedKind = kind ∧ formattedKinds = kinds := by
          cases formattedKind with
          | none =>
              obtain rfl : kind = none := by simpa using isSome
              simp
          | some formattedKind =>
              obtain ⟨kind, rfl⟩ := Option.isSome_iff_exists.mp isSome.symm
              simp
        rw [split, kept, sameKinds, List.filterMap_cons]
        cases stringBody found <;> simp
      · obtain ⟨formattedFounds, formattedKinds, formattedScan, sameKinds⟩ := hypothesis sameNext
        rw [sameRest, List.filterMap_cons, noString]
        exact ⟨formattedFounds, formattedKinds, formattedScan, sameKinds⟩

/-- The bodies of the string literals of a text. -/
def stringBodies (words : WordClass) (text : String) : List (List Char) :=
  ((tokenRegex words).capturesIter (text.toList.length + 1) none text.toList).filterMap stringBody

theorem addedLineFeed_cases (text : List Char) :
    addedLineFeed text = [] ∨ addedLineFeed text = ['\n'] := by
  rw [addedLineFeed]
  split_ifs
  · exact .inl rfl
  · exact .inr rfl

include spaces in
/-- A text that tokenizes is formatted to one that does, with the same kinds and values just if no
string loses white space. -/
theorem exists_tokenize_formatSource {text : String} {tokens : Tokens}
    (tokenized : tokenize words text = .ok tokens) :
    ∃ formatted, tokenize words (formatSource text) = .ok formatted ∧
      (formatted.items.map (·.kind) = tokens.items.map (·.kind) ↔
        ∀ body ∈ stringBodies words text, losesSpace body = false) := by
  obtain ⟨⟨items, position⟩, read, ⟨⟩⟩ := exists_of_bind_eq_ok tokenized
  have scans := scans_of_captures (Nat.lt_succ_self _) read
  obtain ⟨formattedFounds, formattedKinds, formattedScan, sameKinds⟩ :=
    exists_formattedScan spaces (addedLineFeed_cases text.toList) scans (.inl rfl)
  have isFormatted : formatRest (addedLineFeed text.toList) text.toList =
      (formatSource text).toList := by
    rw [toList_formatSource, formatText_eq]
    rfl
  rw [isFormatted] at formattedScan
  obtain ⟨formattedItems, final, formattedRead, isKinds⟩ :=
    captures_of_scans formattedScan (Nat.lt_succ_self _) ⟨1, 1⟩
  refine ⟨⟨formattedItems, Span.fromBeginEnd final final⟩, ?_, ?_⟩
  · rw [tokenize, formattedRead]
    rfl
  · rw [isKinds]
    exact sameKinds

end Runs

/-- Formatting does no harm: it is idempotent, the tokens stay the same, and the edit replaces the
document by the formatted one. -/
structure FormattingHarmless (words : WordClass) (text : String) : Prop where
  idempotent : formatSource (formatSource text) = formatSource text
  tokens : ∀ tokens, tokenize words text = .ok tokens →
    ∃ formatted, tokenize words (formatSource text) = .ok formatted ∧
      formatted.items.map (·.kind) = tokens.items.map (·.kind)
  unchanged : formatEditsForSource text = none → formatSource text = text
  edits : ∀ edits, formatEditsForSource text = some edits → ∃ edit, edits = [edit] ∧
    edit.ReplacesAll (encodeUtf16 text.toList) ∧
      edit.apply (encodeUtf16 text.toList) = encodeUtf16 (formatSource text).toList

/-- The texts that can be formatted: no string of a text that tokenizes has white space before a
line feed, and the text is formatted already or its end is counted as the protocol does. -/
structure FormatsSafely (words : WordClass) (text : String) : Prop where
  strings : (∃ tokens, tokenize words text = .ok tokens) →
    ∀ body ∈ stringBodies words text, losesSpace body = false
  range : isFormatted text.toList = true ∨ CountedAlike text.toList

theorem formatSource_formatSource (text : String) :
    formatSource (formatSource text) = formatSource text := by
  rw [← String.toList_inj, toList_formatSource, toList_formatSource, formatText_formatText]

/-- The edit is right just if there is none or its range is the whole document. -/
theorem edits_iff (text : String) :
    (∀ edits, formatEditsForSource text = some edits → ∃ edit, edits = [edit] ∧
      edit.ReplacesAll (encodeUtf16 text.toList) ∧
        edit.apply (encodeUtf16 text.toList) = encodeUtf16 (formatSource text).toList) ↔
      isFormatted text.toList = true ∨ CountedAlike text.toList := by
  rw [← formatSource_eq_self_iff, ← replacesAll_iff text (formatSource text), formatEditsForSource]
  by_cases same : formatSource text = text
  · refine iff_of_true ?_ (.inl same)
    rw [if_pos same]
    rintro edits ⟨⟩
  · rw [or_iff_right same, if_neg same]
    constructor
    · intro replaces
      obtain ⟨edit, isEdit, whole, -⟩ := replaces _ rfl
      cases isEdit
      exact whole
    · rintro whole edits ⟨⟩
      exact ⟨_, rfl, whole, apply_of_replacesAll whole⟩

/-- Formatting does no harm to exactly these texts. -/
theorem formattingHarmless_iff {words : WordClass}
    (spaces : ∀ symbol, isWhitespace symbol = true → words.isWord symbol = false) (text : String) :
    FormattingHarmless words text ↔ FormatsSafely words text := by
  constructor
  · intro harmless
    refine ⟨?_, (edits_iff text).mp harmless.edits⟩
    rintro ⟨tokens, tokenized⟩
    obtain ⟨formatted, isFormatted, sameKinds⟩ := harmless.tokens tokens tokenized
    obtain ⟨other, isOther, keeps⟩ := exists_tokenize_formatSource spaces tokenized
    obtain rfl := Except.ok.inj (isFormatted.symm.trans isOther)
    exact keeps.mp sameKinds
  · intro safe
    refine ⟨formatSource_formatSource text, fun tokens tokenized => ?_, fun noEdit => ?_,
      (edits_iff text).mpr safe.range⟩
    · obtain ⟨formatted, isFormatted, keeps⟩ := exists_tokenize_formatSource spaces tokenized
      exact ⟨formatted, isFormatted, keeps.mpr (safe.strings ⟨tokens, tokenized⟩)⟩
    · rw [formatEditsForSource] at noEdit
      by_contra changed
      rw [if_neg changed] at noEdit
      cases noEdit

theorem not_isWord_of_isWhitespace (symbol : Char) (space : isWhitespace symbol = true) :
    WordClass.asciiOnly.isWord symbol = false := by
  refine Bool.eq_false_iff.mpr fun isWord => ?_
  have outside := toNat_of_isWhitespace space
  have inside : 0x20 < symbol.toNat ∧ symbol.toNat < 0x85 := by
    change (symbol.isAlphanum || symbol == '_') = true at isWord
    delta Char.isAlphanum Char.isAlpha Char.isUpper Char.isLower Char.isDigit at isWord
    simp only [Bool.or_eq_true, Bool.and_eq_true, decide_eq_true_eq, beq_iff_eq] at isWord
    obtain ((upper | lower) | digit) | rfl := isWord
    · have bounds : 65 ≤ symbol.toNat ∧ symbol.toNat ≤ 90 := upper
      omega
    · have bounds : 97 ≤ symbol.toNat ∧ symbol.toNat ≤ 122 := lower
      omega
    · have bounds : 48 ≤ symbol.toNat ∧ symbol.toNat ≤ 57 := digit
      omega
    · decide
  omega

theorem countedAlike_returnFeed : CountedAlike "f \r\n".toList := by
  have last : afterLastFeed "f \r\n".toList = [] := by decide +kernel
  have feeds : "f \r\n".toList.count '\n' = 1 := by decide +kernel
  refine ⟨by decide +kernel, ?_, ?_, ?_⟩
  · rw [last]
    exact fun _ member => absurd member List.not_mem_nil
  · omega
  · rw [last, List.length_nil]
    omega

/-- White space at the end of a line. -/
theorem formattingHarmless_trailing : FormattingHarmless .asciiOnly "f \r\n" :=
  have noString : stringBodies .asciiOnly "f \r\n" = [] := by decide +kernel
  (formattingHarmless_iff not_isWord_of_isWhitespace "f \r\n").mpr
    ⟨fun _ => by simp [noString], .inr countedAlike_returnFeed⟩

/-- A string that spans lines loses a space, and the range ends too early in a last line outside
the basic plane and after a carriage return that stands alone. -/
theorem formatting_harms :
    ¬ FormattingHarmless .asciiOnly "\"a \n\"" ∧ ¬ FormattingHarmless .asciiOnly "// 𝒳" ∧
      ¬ FormattingHarmless .asciiOnly "f\r g" := by
  refine ⟨fun harmless => ?_, fun harmless => ?_, fun harmless => ?_⟩
  · have tokenized : tokenize .asciiOnly "\"a \n\"" =
        .ok ⟨[⟨.string "a \n", ⟨⟨1, 1⟩, ⟨2, 2⟩⟩⟩], ⟨⟨2, 2⟩, ⟨2, 2⟩⟩⟩ := by
      decide +kernel
    obtain ⟨formatted, isFormatted, same⟩ := harmless.tokens _ tokenized
    have isOther : tokenize .asciiOnly (formatSource "\"a \n\"") =
        .ok ⟨[⟨.string "a\n", ⟨⟨1, 1⟩, ⟨2, 2⟩⟩⟩], ⟨⟨3, 1⟩, ⟨3, 1⟩⟩⟩ := by
      decide +kernel
    rw [isOther] at isFormatted
    obtain rfl := Except.ok.inj isFormatted
    revert same
    decide
  · obtain formatted | alike := (edits_iff _).mp harmless.edits
    · exact absurd formatted (by decide)
    · have small := alike.basicPlane '𝒳' (by decide +kernel)
      have large : '𝒳'.toNat = 0x1D4B3 := by decide
      omega
  · obtain formatted | alike := (edits_iff _).mp harmless.edits
    · exact absurd formatted (by decide)
    · exact absurd alike.noLoneReturn (by decide)

end RexLang
