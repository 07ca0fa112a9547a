import RexLang.FallibleResults
import RexLang.QuotedLiterals
import RexLang.TextPositions

/-!
# Spans of tokens

The tokens of a text with their spans, and what is between them: nothing of the text is
left out or read twice, and each span is where its lexeme is.
-/

namespace RexLang

open LeftmostFirst LeftmostFirst.Regex

/-! ## Matches of the token expression -/

/-- The group that an alternative captures first. -/
def firstGroup : TokenRegex → Option TokenGroup
  | .group name _ => some name
  | .seq (.chr _) (.seq (.group name _) _) => some name
  | _ => none

section Matches

variable {words : WordClass} {before : Option Char} {input : List Char}
  {found : Found Char TokenGroup}

/-- The match is that of an alternative, or a single character that none of them matches. -/
theorem firstMatch_cases (matched : (tokenRegex words).firstMatch before input = some found) :
    (∃ regex ∈ tokenAlternatives words, regex.firstMatch before input = some found) ∨
      ∃ symbol rest, input = symbol :: rest ∧ found = ⟨[symbol], rest, []⟩ := by
  rw [firstMatch_eq_search, tokenRegex, search_alternatives, Option.or_eq_some_iff] at matched
  obtain matched | ⟨-, matched⟩ := matched
  · obtain ⟨regex, member, matched⟩ := List.exists_of_findSome?_eq_some matched
    rw [← firstMatch_eq_search] at matched
    exact .inl ⟨regex, member, matched⟩
  · cases input with
    | nil => simp at matched
    | cons symbol rest =>
        rw [search_chr_cons] at matched
        split_ifs at matched
        cases matched
        exact .inr ⟨symbol, rest, rfl, rfl⟩

theorem mem_run_of_firstMatch {regex : TokenRegex}
    (matched : regex.firstMatch before input = some found) : found ∈ regex.run before input :=
  List.mem_of_head? matched

theorem isSome_firstGroup {regex : TokenRegex} (member : regex ∈ tokenAlternatives words) :
    (firstGroup regex).isSome := by
  have every : ((tokenAlternatives words).all fun regex => (firstGroup regex).isSome) = true := rfl
  exact List.all_eq_true.mp every regex member

theorem head?_captures {regex : TokenRegex} {name : TokenGroup}
    (isFirst : firstGroup regex = some name) (member : found ∈ regex.run before input) :
    ∃ raw, found.captures.head? = some (name, raw) := by
  cases regex with
  | group other body =>
      obtain ⟨inner, -, rfl⟩ := List.mem_map.mp member
      cases isFirst
      exact ⟨_, rfl⟩
  | seq first second =>
      cases first with
      | chr accepts =>
          cases second with
          | seq second third =>
              cases second with
              | group other body =>
                  cases isFirst
                  obtain ⟨quote, isQuote, right, rightMember, rfl⟩ := mem_andThen.mp member
                  obtain ⟨captured, isCaptured, last, -, rfl⟩ := mem_andThen.mp rightMember
                  obtain ⟨inner, -, rfl⟩ := List.mem_map.mp isCaptured
                  have noCapture : quote.captures = [] := by
                    cases input with
                    | nil => simp [run] at isQuote
                    | cons symbol rest =>
                        have same : accepts symbol = true ∧ quote = ⟨[symbol], rest, []⟩ := by
                          simpa [run] using isQuote
                        rw [same.2]
                  simp [Found.append, noCapture]
              | _ => simp [firstGroup] at isFirst
          | _ => simp [firstGroup] at isFirst
      | _ => simp [firstGroup] at isFirst
  | _ => simp [firstGroup] at isFirst

theorem firstMatch_lineFeed (words : WordClass) (before : Option Char) (rest : List Char) :
    (tokenRegex words).firstMatch before ('\n' :: rest) =
      some ⟨['\n'], rest, [(.skipLineBreak, ['\n'])]⟩ := by
  rw [firstMatch_tokenRegex words before '\n' ['\n'] (by simp)]
  rfl

/-- Some alternative matches at every character. -/
theorem exists_firstMatch (words : WordClass) (before : Option Char) (symbol : Char)
    (rest : List Char) :
    ∃ found, (tokenRegex words).firstMatch before (symbol :: rest) = some found := by
  by_cases isFeed : symbol = '\n'
  · subst isFeed
    exact ⟨_, firstMatch_lineFeed words before rest⟩
  · rw [firstMatch_tokenRegex words before symbol [symbol] (by simp), search_chr_cons,
      if_pos (by simpa using isFeed), ← Option.isSome_iff_exists]
    simp

theorem firstMatch_pair (words : WordClass) (before : Option Char) (rest : List Char) :
    (tokenRegex words).firstMatch before ('\r' :: '\n' :: rest) =
      some ⟨['\r', '\n'], rest, [(.skipLineBreak, ['\r', '\n'])]⟩ := by
  rw [firstMatch_tokenRegex words before '\r' ['\r'] (by simp)]
  rfl

theorem firstMatch_return (words : WordClass) (before : Option Char) {rest : List Char}
    (notFeed : rest.head? ≠ some '\n') :
    (tokenRegex words).firstMatch before ('\r' :: rest) =
      some ⟨['\r'], rest, [(.skipLineBreak, ['\r'])]⟩ := by
  rw [firstMatch_tokenRegex words before '\r' ['\r'] (by simp)]
  cases rest with
  | nil => rfl
  | cons symbol rest =>
      have only : (tokenAlternatives words).filter (fun regex => ['\r'].any (regex.starts ·)) =
          [.group .skipLineBreak (.alt (text "\r\n") (.alt (text "\n") (text "\r")))] := rfl
      have different : symbol ≠ '\n' := by simpa using notFeed
      rw [only]
      simp [text, Ne.symm different]

theorem ends_return {regex : TokenRegex} (member : regex ∈ tokenAlternatives words)
    (isEnd : regex.ends '\r' = true) :
    regex = .group .skipLineBreak (.alt (text "\r\n") (.alt (text "\n") (text "\r"))) := by
  have only : (tokenAlternatives words).filter (·.ends '\r') =
      [.group .skipLineBreak (.alt (text "\r\n") (.alt (text "\n") (text "\r")))] := rfl
  have isOnly := List.mem_filter.mpr ⟨member, isEnd⟩
  rw [only] at isOnly
  exact List.mem_singleton.mp isOnly

/-- No match ends within a pair `\r\n`. -/
theorem whole_firstMatch (matched : (tokenRegex words).firstMatch before input = some found) :
    Whole found.consumed found.rest := by
  intro last feed
  have split := (tokenRegex words).splits before input found (mem_run_of_firstMatch matched)
  obtain ⟨rest, isRest⟩ : ∃ rest, found.rest = '\n' :: rest := List.head?_eq_some_iff.mp feed
  have isReturn : found.consumed = ['\r'] := by
    obtain ⟨regex, member, matched⟩ | ⟨symbol, rest, -, rfl⟩ := firstMatch_cases matched
    · have isFound := mem_run_of_firstMatch matched
      obtain rfl := ends_return member (regex.endsIn before input found isFound '\r' last)
      obtain ⟨inner, isInner, rfl⟩ := List.mem_map.mp isFound
      simp only [run, List.mem_append] at isInner
      obtain isPair | isFeed | isReturn := isInner
      · simp [consumed_literal isPair] at last
      · simp [consumed_literal isFeed] at last
      · have consumed : inner.consumed = "\r".toList := consumed_literal isReturn
        exact consumed
    · simpa using last
  rw [isReturn, isRest, List.singleton_append] at split
  rw [← split, firstMatch_pair] at matched
  cases matched
  cases isReturn

end Matches

/-! ## What is between tokens -/

/-- White space and comments; a block comment ends where it is first closed. -/
inductive Trivia : List Char → Prop where
  | space : Trivia [' ']
  | tab : Trivia ['\t']
  | lineFeed : Trivia ['\n']
  | carriageReturn : Trivia ['\r']
  | pair : Trivia ['\r', '\n']
  | lineComment (body : List Char) (oneLine : ∀ symbol ∈ body, isLineEnd symbol = false) :
      Trivia ('/' :: '/' :: body)
  | blockComment (body : List Char)
      (unclosed : ∀ first second, body = first ++ second → second ≠ [] →
        ¬ ['*', '/'] <+: second ++ ['*', '/']) :
      Trivia ('/' :: '*' :: body ++ ['*', '/'])

section Trivia

variable {words : WordClass} {before : Option Char} {input : List Char}
  {found : Found Char TokenGroup}

theorem firstMatch_alternative {name : TokenGroup} {regex : TokenRegex}
    (only : (tokenAlternatives words).filter (fun regex => firstGroup regex == some name) = [regex])
    (matched : (tokenRegex words).firstMatch before input = some found) {raw : List Char}
    (captured : found.captures.head? = some (name, raw)) :
    regex.firstMatch before input = some found := by
  obtain ⟨other, member, matched⟩ | ⟨symbol, rest, -, rfl⟩ := firstMatch_cases matched
  · obtain ⟨first, isFirst⟩ := Option.isSome_iff_exists.mp (isSome_firstGroup member)
    obtain ⟨text, also⟩ := head?_captures isFirst (mem_run_of_firstMatch matched)
    rw [captured] at also
    cases also
    have isOnly : other ∈ [regex] :=
      only ▸ List.mem_filter.mpr ⟨member, by simp [isFirst]⟩
    obtain rfl := List.mem_singleton.mp isOnly
    exact matched
  · cases captured

theorem trivia_space (matched : (tokenRegex words).firstMatch before input = some found)
    {raw : List Char} (captured : found.captures.head? = some (.skipSpace, raw)) :
    Trivia found.consumed := by
  have matched := mem_run_of_firstMatch (firstMatch_alternative rfl matched captured)
  obtain ⟨inner, isInner, rfl⟩ := List.mem_map.mp matched
  obtain isSpace | isTab := List.mem_append.mp isInner
  · have consumed : inner.consumed = " ".toList := consumed_literal isSpace
    exact consumed ▸ .space
  · have consumed : inner.consumed = "\t".toList := consumed_literal isTab
    exact consumed ▸ .tab

theorem trivia_lineBreak (matched : (tokenRegex words).firstMatch before input = some found)
    {raw : List Char} (captured : found.captures.head? = some (.skipLineBreak, raw)) :
    Trivia found.consumed := by
  have matched := mem_run_of_firstMatch (firstMatch_alternative rfl matched captured)
  obtain ⟨inner, isInner, rfl⟩ := List.mem_map.mp matched
  simp only [run, List.mem_append] at isInner
  obtain isPair | isFeed | isReturn := isInner
  · have consumed : inner.consumed = "\r\n".toList := consumed_literal isPair
    exact consumed ▸ .pair
  · have consumed : inner.consumed = "\n".toList := consumed_literal isFeed
    exact consumed ▸ .lineFeed
  · have consumed : inner.consumed = "\r".toList := consumed_literal isReturn
    exact consumed ▸ .carriageReturn

theorem trivia_lineComment (matched : (tokenRegex words).firstMatch before input = some found)
    {raw : List Char} (captured : found.captures.head? = some (.lineComment, raw)) :
    Trivia found.consumed := by
  have matched := mem_run_of_firstMatch (firstMatch_alternative rfl matched captured)
  obtain ⟨inner, isInner, rfl⟩ := List.mem_map.mp matched
  obtain ⟨left, isLeft, right, isRight, rfl⟩ := mem_andThen.mp isInner
  have slashes : left.consumed = "//".toList := consumed_literal isLeft
  have consumed : (left.append right).consumed = '/' :: '/' :: right.consumed := by
    rw [Found.append, slashes]
    rfl
  show Trivia (left.append right).consumed
  rw [consumed]
  refine .lineComment _ fun symbol member => ?_
  have accepted := consumed_star_chr isRight symbol member
  simpa [isLineEnd, and_comm] using accepted

theorem trivia_blockComment (matched : (tokenRegex words).firstMatch before input = some found)
    {raw : List Char} (captured : found.captures.head? = some (.blockComment, raw)) :
    Trivia found.consumed := by
  have matched := firstMatch_alternative rfl matched captured
  rw [firstMatch_eq_search, search_group, search_seq, text, search_literal] at matched
  split_ifs at matched with isOpener
  · rw [search_seq] at matched
    obtain ⟨body, rest, split, closes, earlier⟩ := search_lazyStar_any _ _ _ matched
    simp only [text, search_literal] at closes earlier
    split_ifs at closes with isCloser
    obtain rfl := Option.some.inj closes
    obtain ⟨more, rfl⟩ : ['*', '/'] <+: rest := List.isPrefixOf_iff_prefix.mp isCloser
    refine .blockComment body fun first second parts nonempty closed => ?_
    have noCloser := earlier first second parts nonempty
    rw [if_pos] at noCloser
    · cases noCloser
    · rw [← List.append_assoc]
      exact List.isPrefixOf_iff_prefix.mpr (closed.trans (List.prefix_append _ more))

theorem map_some_ne {Error Value Result : Type} (outcome : Except Error Value)
    (make : Value → Result) : (outcome.map fun value => some (make value)) ≠ .ok none := by
  cases outcome <;> rintro ⟨⟩

/-- What the lexer passes over is white space or a comment. -/
theorem trivia_of_captureToken (matched : (tokenRegex words).firstMatch before input = some found)
    {span : Span} (skipped : captureToken found.captures.head? span = .ok none) :
    Trivia found.consumed := by
  cases captured : found.captures.head? with
  | none =>
      rw [captured] at skipped
      cases skipped
  | some entry =>
      obtain ⟨name, raw⟩ := entry
      rw [captured] at skipped
      cases name with
      | skipSpace => exact trivia_space matched captured
      | skipLineBreak => exact trivia_lineBreak matched captured
      | lineComment => exact trivia_lineComment matched captured
      | blockComment => exact trivia_blockComment matched captured
      | bool => exact absurd skipped (map_some_ne _ _)
      | int => exact absurd skipped (map_some_ne _ _)
      | doubleString => exact absurd skipped (map_some_ne _ _)
      | char =>
          rw [captureToken] at skipped
          cases value : unescapeLiteral "char" raw span with
          | error error =>
              rw [value] at skipped
              cases skipped
          | ok chars =>
              rw [value] at skipped
              cases chars with
              | nil => cases skipped
              | cons first chars => cases chars <;> cases skipped
      | _ => cases skipped

end Trivia

/-! ## Whole texts -/

/-- The token expression matches a lexeme between two parts of a text, and the match stands
for a token. -/
def Lexes (words : WordClass) (read lexeme rest : List Char) (token : Token) : Prop :=
  ∃ captures, (tokenRegex words).firstMatch read.getLast? (lexeme ++ rest) =
      some ⟨lexeme, rest, captures⟩ ∧
    captureToken captures.head? token.span = .ok (some token.kind)

/-- The rest of a text, after what has been read, is a sequence of the lexemes of the tokens and
of trivia, and each token has the span of its lexeme. -/
inductive Covers (words : WordClass) : List Char → List Char → List Token → Prop where
  | done {read : List Char} : Covers words read [] []
  | trivia {read trivia rest : List Char} {tokens : List Token} (isTrivia : Trivia trivia)
      (whole : Whole read (trivia ++ rest)) (covers : Covers words (read ++ trivia) rest tokens) :
      Covers words read (trivia ++ rest) tokens
  | token {read lexeme rest : List Char} {token : Token} {tokens : List Token}
      (nonempty : lexeme ≠ []) (lexes : Lexes words read lexeme rest token)
      (whole : Whole read (lexeme ++ rest))
      (span : token.span = ⟨endPosition read, endPosition (read ++ lexeme)⟩)
      (covers : Covers words (read ++ lexeme) rest tokens) :
      Covers words read (lexeme ++ rest) (token :: tokens)

namespace Covers

variable {words : WordClass} {read rest : List Char} {tokens : List Token}

/-- No span begins before what has been read ends. -/
theorem begins (covers : Covers words read rest tokens) :
    ∀ token ∈ tokens, (endPosition read).key ≤ token.span.begin.key := by
  induction covers with
  | done => simp
  | trivia isTrivia whole covers hypothesis =>
      exact fun token member => (key_le_append ..).trans (hypothesis token member)
  | token nonempty lexes whole span covers hypothesis =>
      rw [List.forall_mem_cons]
      refine ⟨by rw [span], fun token member => ?_⟩
      exact (key_le_append ..).trans (hypothesis token member)

theorem ordered (covers : Covers words read rest tokens) :
    tokens.Pairwise fun first second => first.span.end.key ≤ second.span.begin.key := by
  induction covers with
  | done => exact .nil
  | trivia isTrivia whole covers hypothesis => exact hypothesis
  | token nonempty lexes whole span covers hypothesis =>
      refine .cons (fun token member => ?_) hypothesis
      rw [span]
      exact covers.begins token member

theorem nonempty (covers : Covers words read rest tokens) :
    ∀ token ∈ tokens, token.span.begin.key < token.span.end.key := by
  induction covers with
  | done => simp
  | trivia isTrivia whole covers hypothesis => exact hypothesis
  | @token read lexeme rest token tokens nonempty lexes whole span covers hypothesis =>
      refine List.forall_mem_cons.mpr ⟨?_, hypothesis⟩
      have wholeLexeme : Whole read lexeme := by
        obtain ⟨symbol, lexeme, rfl⟩ := List.exists_cons_of_ne_nil nonempty
        exact whole
      rw [span]
      exact key_lt_append wholeLexeme nonempty

end Covers

/-- The spans of the tokens are where their lexemes are, in order and apart, and what is between
them is trivia. -/
structure FaithfulSpans (words : WordClass) (text : List Char) (tokens : Tokens) : Prop where
  covers : Covers words [] text tokens.items
  nonempty : ∀ token ∈ tokens.items, token.span.begin.key < token.span.end.key
  ordered : tokens.items.Pairwise fun first second =>
    first.span.end.key ≤ second.span.begin.key
  eof : tokens.eof = ⟨endPosition text, endPosition text⟩

theorem covers_of_captures (words : WordClass) {fuel : Nat} {read rest : List Char}
    (enough : rest.length < fuel) (whole : Whole read rest) {tokens : List Token}
    {position : Position}
    (tokenized : tokenizeCaptures ((tokenRegex words).capturesIter fuel read.getLast? rest)
      (endPosition read) = .ok (tokens, position)) :
    Covers words read rest tokens ∧ position = endPosition (read ++ rest) := by
  induction fuel generalizing read rest tokens with
  | zero => exact absurd enough (Nat.not_lt_zero _)
  | succ fuel hypothesis =>
      cases rest with
      | nil =>
          rw [capturesIter_nil] at tokenized
          cases tokenized
          rw [List.append_nil]
          exact ⟨.done, rfl⟩
      | cons symbol rest =>
          obtain ⟨found, matched⟩ := exists_firstMatch words read.getLast? symbol rest
          have isFound := mem_run_of_firstMatch matched
          have nonempty : found.consumed ≠ [] := consumed_ne_nil rfl isFound
          have split := (tokenRegex words).splits _ _ found isFound
          rw [← split] at whole enough ⊢
          have wholeConsumed : Whole read found.consumed := by
            obtain ⟨first, consumed, same⟩ := List.exists_cons_of_ne_nil nonempty
            rw [same] at whole ⊢
            exact whole
          have last : (read ++ found.consumed).getLast? = found.last read.getLast? :=
            List.getLast?_append
          have wholeRest : Whole (read ++ found.consumed) found.rest := by
            rw [Whole, List.getLast?_append_of_ne_nil _ nonempty]
            exact whole_firstMatch matched
          have fewer : found.rest.length < fuel := by
            have consumes := List.length_pos_of_ne_nil nonempty
            rw [List.length_append] at enough
            omega
          rw [capturesIter_match fuel matched nonempty (by simp)] at tokenized
          obtain ⟨kind, captured, tokenized⟩ := exists_of_bind_eq_ok tokenized
          obtain ⟨⟨more, final⟩, rest', ⟨⟩⟩ := exists_of_bind_eq_ok tokenized
          rw [advancePosition_eq found.consumed _ rfl wholeConsumed] at captured rest' ⊢
          rw [← last] at rest'
          obtain ⟨covers, isFinal⟩ := hypothesis fewer wholeRest rest'
          refine ⟨?_, by rw [isFinal, List.append_assoc]⟩
          cases kind with
          | none => exact .trivia (trivia_of_captureToken matched captured) whole covers
          | some kind =>
              refine .token nonempty ⟨found.captures, ?_, captured⟩ whole rfl covers
              rw [split]
              exact matched

/-- Whatever `tokenize` accepts, it accepts with faithful spans. -/
theorem tokenize_faithfulSpans (words : WordClass) (input : String) {tokens : Tokens}
    (tokenized : tokenize words input = .ok tokens) :
    FaithfulSpans words input.toList tokens := by
  obtain ⟨⟨items, position⟩, read, ⟨⟩⟩ := exists_of_bind_eq_ok tokenized
  have start : Whole [] input.toList := by
    rintro ⟨⟩
  have origin : (⟨1, 1⟩ : Position) = endPosition [] := rfl
  rw [origin] at read
  obtain ⟨covers, rfl⟩ := covers_of_captures words (Nat.lt_succ_self _) start read
  exact ⟨covers, covers.nonempty, covers.ordered, rfl⟩

/-- An identifier, a line break of two characters, a comment and a number. -/
theorem tokenize_faithfulSpans_pair :
    FaithfulSpans .asciiOnly "a\r\n/*é*/ 7".toList
      ⟨[⟨.ident "a", ⟨⟨1, 1⟩, ⟨1, 2⟩⟩⟩, ⟨.int 7, ⟨⟨2, 7⟩, ⟨2, 8⟩⟩⟩], ⟨⟨2, 8⟩, ⟨2, 8⟩⟩⟩ :=
  tokenize_faithfulSpans .asciiOnly "a\r\n/*é*/ 7" (by decide +kernel)

end RexLang
