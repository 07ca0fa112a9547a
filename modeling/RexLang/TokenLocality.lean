import RexLang.SymbolLocality
import RexLang.TokenSpans
import RexLang.WireTypes

/-!
# What a token depends on

Comments and literals may contain white space.  Every other token ends before it, and its match
does not depend on what follows the white space.
-/

namespace RexLang

open LeftmostFirst LeftmostFirst.Regex

/-! ## Comments -/

/-- The body of a block comment and what follows its end. -/
def splitAtComment : List Char → Option (List Char × List Char)
  | [] => none
  | symbol :: rest =>
      if symbol = '*' ∧ rest.head? = some '/' then some ([], rest.tail)
      else (splitAtComment rest).map fun (body, after) => (symbol :: body, after)

/-- The expression of a block comment after its opening. -/
def commentBody : TokenRegex :=
  seq (lazyStar (chr fun _ => true)) (text "*/")

/-- A comment may end before a text. -/
def closesComment : List Char → Bool
  | '*' :: '/' :: _ => true
  | _ => false

theorem closesComment_cons (symbol : Char) (rest : List Char) :
    closesComment (symbol :: rest) = true ↔ symbol = '*' ∧ rest.head? = some '/' := by
  constructor
  · intro closes
    unfold closesComment at closes
    split at closes
    · rename_i same
      cases same
      exact ⟨rfl, rfl⟩
    · cases closes
  · rintro ⟨rfl, head⟩
    obtain ⟨after, rfl⟩ := List.head?_eq_some_iff.mp head
    rfl

theorem isPrefixOf_closer (rest : List Char) :
    "*/".toList.isPrefixOf rest = closesComment rest := by
  cases rest with
  | nil => rfl
  | cons symbol rest =>
      rw [Bool.eq_iff_iff, closesComment_cons, List.isPrefixOf_iff_prefix]
      change ['*', '/'] <+: symbol :: rest ↔ _
      rw [List.cons_prefix_cons]
      cases rest with
      | nil => simp
      | cons next rest => simp [eq_comm]

theorem search_untilComment (before : Option Char) (input : List Char)
    (continuation : Found Char TokenGroup → Option (Found Char TokenGroup))
    (answer : List Char → List Char → Found Char TokenGroup)
    (answers : ∀ consumed rest, continuation ⟨consumed, rest, []⟩ =
      if closesComment rest then some (answer consumed (rest.drop 2)) else none) :
    (lazyStar (chr fun _ => true)).search before input continuation =
      (splitAtComment input).map fun (body, after) => answer body after := by
  induction input generalizing before continuation answer with
  | nil =>
      have stuck : continuation ⟨[], [], []⟩ = none := answers [] []
      simpa [search, run, reluctant, Found.nothing, splitAtComment] using stuck
  | cons symbol input hypothesis =>
      rw [search_lazyStar_cons, Found.nothing, answers, splitAtComment]
      by_cases closes : symbol = '*' ∧ input.head? = some '/'
      · obtain ⟨after, rfl⟩ := List.head?_eq_some_iff.mp closes.2
        rw [if_pos ((closesComment_cons ..).mpr closes), if_pos closes]
        rfl
      · rw [if_neg (mt (closesComment_cons ..).mp closes), if_neg closes, Option.none_or,
          Option.map_map]
        exact hypothesis (some symbol) _ (fun body after => answer (symbol :: body) after)
          fun consumed rest => answers (symbol :: consumed) rest

theorem search_commentBody (before : Option Char) (input : List Char)
    (answer : Found Char TokenGroup → Found Char TokenGroup) :
    commentBody.search before input (fun found => some (answer found)) =
      (splitAtComment input).map fun (body, after) =>
        answer ⟨body ++ ['*', '/'], after, []⟩ := by
  rw [commentBody, search_seq]
  refine search_untilComment before input _ (fun body after =>
    answer ⟨body ++ ['*', '/'], after, []⟩) fun consumed rest => ?_
  rw [text, search_literal, isPrefixOf_closer]
  rfl

section Slash

variable (words : WordClass) (before : Option Char)

theorem filter_slash :
    (tokenAlternatives words).filter (fun regex => ['/'].any (regex.starts ·)) =
      [.group .blockComment (.seq (text "/*") commentBody),
        .group .lineComment (.seq (text "//")
          (.star (.chr fun symbol => symbol != '\n' && symbol != '\r'))),
        .group .commentL (text "/*"), .group .div (text "/")] :=
  rfl

theorem search_blockComment_other {rest : List Char} (notStar : rest.head? ≠ some '*') :
    (Regex.group .blockComment (.seq (text "/*") commentBody) : TokenRegex).search before
      ('/' :: rest) some = none := by
  rw [search_group, search_seq, text, search_literal, if_neg]
  rw [List.isPrefixOf_iff_prefix]
  change ¬ ['/', '*'] <+: '/' :: rest
  rw [List.cons_prefix_cons]
  cases rest with
  | nil => simp
  | cons next rest => simpa [eq_comm] using notStar

theorem search_blockComment (input : List Char) :
    (Regex.group .blockComment (.seq (text "/*") commentBody) : TokenRegex).search before
      ('/' :: '*' :: input) some = (splitAtComment input).map fun (body, after) =>
        ⟨'/' :: '*' :: (body ++ ['*', '/']), after,
          [(.blockComment, '/' :: '*' :: (body ++ ['*', '/']))]⟩ := by
  rw [search_group, search_seq, text, search_literal, if_pos (by simp [List.isPrefixOf])]
  exact search_commentBody _ _ _

/-- A block comment ends where it is first closed. -/
theorem firstMatch_blockComment {input body after : List Char}
    (split : splitAtComment input = some (body, after)) :
    (tokenRegex words).firstMatch before ('/' :: '*' :: input) =
      some ⟨'/' :: '*' :: (body ++ ['*', '/']), after,
        [(.blockComment, '/' :: '*' :: (body ++ ['*', '/']))]⟩ := by
  rw [firstMatch_tokenRegex words before '/' ['/'] (by simp), filter_slash, List.findSome?_cons,
    search_blockComment, split]
  rfl

theorem firstMatch_openComment {input : List Char} (unclosed : splitAtComment input = none) :
    (tokenRegex words).firstMatch before ('/' :: '*' :: input) =
      some ⟨['/', '*'], input, [(.commentL, ['/', '*'])]⟩ := by
  rw [firstMatch_tokenRegex words before '/' ['/'] (by simp), filter_slash, List.findSome?_cons,
    search_blockComment, unclosed]
  rfl

/-- A line comment ends before the end of its line. -/
theorem firstMatch_lineComment {many rest : List Char}
    (oneLine : ∀ symbol ∈ many, (symbol != '\n' && symbol != '\r') = true)
    (stops : rest.head?.any (fun symbol => symbol != '\n' && symbol != '\r') = false) :
    (tokenRegex words).firstMatch before ('/' :: '/' :: (many ++ rest)) =
      some ⟨'/' :: '/' :: many, rest, [(.lineComment, '/' :: '/' :: many)]⟩ := by
  rw [firstMatch_tokenRegex words before '/' ['/'] (by simp), filter_slash, List.findSome?_cons,
    search_blockComment_other before (by simp), List.findSome?_cons]
  have matched : (Regex.group .lineComment (.seq (text "//")
      (.star (.chr fun symbol => symbol != '\n' && symbol != '\r'))) : TokenRegex).search before
        ('/' :: '/' :: (many ++ rest)) some =
      some ⟨'/' :: '/' :: many, rest, [(.lineComment, '/' :: '/' :: many)]⟩ := by
    rw [search_group, search_seq, text, search_literal, if_pos (by simp [List.isPrefixOf])]
    exact (single_chr _).search_star_all rfl stops many oneLine _ _ _ rfl
  rw [matched]
  rfl

theorem firstMatch_div {rest : List Char} (notStar : rest.head? ≠ some '*')
    (notSlash : rest.head? ≠ some '/') :
    (tokenRegex words).firstMatch before ('/' :: rest) = some ⟨['/'], rest, [(.div, ['/'])]⟩ := by
  have noPrefix (next : Char) (other : rest.head? ≠ some next) :
      ¬ ['/', next].isPrefixOf ('/' :: rest) = true := by
    rw [List.isPrefixOf_iff_prefix, List.cons_prefix_cons]
    cases rest with
    | nil => simp
    | cons first rest => simpa [eq_comm] using other
  have noLine : ¬ "//".toList.isPrefixOf ('/' :: rest) = true := noPrefix '/' notSlash
  have noBlock : ¬ "/*".toList.isPrefixOf ('/' :: rest) = true := noPrefix '*' notStar
  rw [firstMatch_tokenRegex words before '/' ['/'] (by simp), filter_slash, List.findSome?_cons,
    search_blockComment_other before notStar, List.findSome?_cons, List.findSome?_cons,
    List.findSome?_cons]
  simp only [search_group, search_seq, text, search_literal]
  rw [if_neg noLine, if_neg noBlock]
  rfl

theorem firstMatch_tab (rest : List Char) :
    (tokenRegex words).firstMatch before ('\t' :: rest) =
      some ⟨['\t'], rest, [(.skipSpace, ['\t'])]⟩ := by
  rw [firstMatch_tokenRegex words before '\t' ['\t'] (by simp)]
  rfl

end Slash

/-! ## Tokens without white space -/

section Blind

variable {words : WordClass} (spaces : ∀ symbol, isWhitespace symbol = true →
  words.isWord symbol = false)

theorem blind_text {value : String}
    (noSpace : (value.toList.all fun symbol => !isWhitespace symbol) = true) :
    (text value).Blind isWhitespace :=
  blind_literal fun symbol member => by
    simpa using List.all_eq_true.mp noSpace symbol member

include spaces in
theorem blind_wordBoundary : (wordBoundary words).Blind isWhitespace := by
  intro before symbol space
  simp [spaces symbol space]

include spaces in
theorem blind_keyword {value : String}
    (noSpace : (value.toList.all fun symbol => !isWhitespace symbol) = true) :
    (keyword words value).Blind isWhitespace :=
  ⟨blind_wordBoundary spaces, blind_text noSpace, blind_wordBoundary spaces⟩

theorem not_isWhitespace_of_isIdentContinue {symbol : Char}
    (continues : isIdentContinue symbol = true) : ¬ isWhitespace symbol = true := by
  obtain ⟨code, small, rfl⟩ : ∃ code, code < 128 ∧ symbol = Char.ofNat code :=
    ⟨symbol.toNat, toNat_lt_of_isIdentContinue continues, (Char.ofNat_toNat symbol).symm⟩
  revert code
  decide

theorem blind_digit : (chr isDigit : TokenRegex).Blind isWhitespace := by
  intro symbol space
  refine Bool.eq_false_iff.mpr fun digit => ?_
  have continues : isIdentContinue symbol = true := by simp [isIdentContinue, digit]
  exact absurd space (not_isWhitespace_of_isIdentContinue continues)

theorem blind_identStart : (chr isIdentStart : TokenRegex).Blind isWhitespace := by
  intro symbol space
  refine Bool.eq_false_iff.mpr fun starts => ?_
  have continues : isIdentContinue symbol = true := by simp [isIdentContinue, starts]
  exact absurd space (not_isWhitespace_of_isIdentContinue continues)

/-- White space that the lexer skips, and what opens a comment or a literal. -/
def opensSpan (symbol : Char) : Bool :=
  symbol ∈ [' ', '\t', '\n', '\r', '/', '"', '\'']

include spaces in
/-- An alternative that may consume white space opens such a span. -/
theorem blind_or_opensSpan : ∀ regex ∈ tokenAlternatives words, regex.Blind isWhitespace ∨
    ∀ symbol, opensSpan symbol = false → regex.starts symbol = false := by
  have boundary := blind_wordBoundary spaces
  rw [tokenAlternatives]
  simp only [List.forall_mem_cons]
  and_intros
  all_goals first
    | exact .inl (blind_keyword spaces rfl)
    | exact .inl (blind_text rfl)
    | exact .inl ⟨blind_text rfl, blind_text rfl⟩
    | exact .inl ⟨boundary, ⟨blind_text rfl, blind_text rfl⟩, boundary⟩
    | exact .inl ⟨⟨blind_digit, blind_digit⟩, blind_text rfl, blind_digit, blind_digit⟩
    | exact .inl ⟨blind_digit, blind_digit⟩
    | exact .inl ⟨blind_identStart, blind_identStart, blind_digit⟩
    | exact fun _ member => absurd member List.not_mem_nil
    | skip
  -- The comments, the white space and the literals.
  all_goals
    refine .inr fun symbol other => ?_
    simp only [opensSpan, decide_eq_false_iff_not, List.mem_cons, not_or] at other
    simp [starts, nullable, quoted, text, literal, other]

include spaces in
/-- White space that the lexer does not skip is no token. -/
theorem captures_of_space {before : Option Char} {symbol : Char} {rest : List Char}
    (space : isWhitespace symbol = true) (other : opensSpan symbol = false)
    {found : Found Char TokenGroup}
    (matched : (tokenRegex words).firstMatch before (symbol :: rest) = some found) :
    found.captures = [] := by
  have noAlternative : (tokenAlternatives words).filter (fun regex => [symbol].any
      (regex.starts ·)) = [] := by
    refine List.filter_eq_nil_iff.mpr fun regex member => ?_
    have cannot : regex.starts symbol = false :=
      (blind_or_opensSpan spaces regex member).elim (fun blind => blind.starts_eq_false space)
        fun opens => opens symbol other
    simp [cannot]
  rw [firstMatch_tokenRegex words before symbol [symbol] (by simp), noAlternative,
    List.findSome?_nil, Option.none_or, search_chr_cons] at matched
  split_ifs at matched
  cases matched
  rfl

include spaces in
/-- The match of a token at a symbol that opens no span depends only on the text before the next
white space. -/
theorem firstMatch_of_sameUntil {before : Option Char} {symbol : Char} {rest more : List Char}
    (other : opensSpan symbol = false) (same : SameUntil isWhitespace (symbol :: rest)
      (symbol :: more)) {found : Found Char TokenGroup}
    (matched : (tokenRegex words).firstMatch before (symbol :: rest) = some found)
    (captured : found.captures ≠ []) :
    ∃ moreFound, (tokenRegex words).firstMatch before (symbol :: more) = some moreFound ∧
      SameMatch isWhitespace found moreFound := by
  have blind : ∀ regex ∈ (tokenAlternatives words).filter (fun regex => [symbol].any
      (regex.starts ·)), regex.Blind isWhitespace := by
    intro regex member
    obtain ⟨member, starts⟩ := List.mem_filter.mp member
    refine (blind_or_opensSpan spaces regex member).resolve_right fun opens => ?_
    simp [opens symbol other] at starts
  have related := rel_findSome?_search blind before same
  rw [firstMatch_tokenRegex words before symbol [symbol] (by simp)] at matched ⊢
  cases isFirst : ((tokenAlternatives words).filter fun regex =>
      [symbol].any (regex.starts ·)).findSome? fun regex =>
        regex.search before (symbol :: rest) some with
  | none =>
      rw [isFirst, Option.none_or, search_chr_cons] at matched
      split_ifs at matched
      cases matched
      exact absurd rfl captured
  | some first =>
      rw [isFirst, Option.some_or] at matched
      cases matched
      rw [isFirst] at related
      generalize List.findSome? _ _ = second at related ⊢
      cases related with
      | some sameFound => exact ⟨_, rfl, sameFound⟩

end Blind

end RexLang
