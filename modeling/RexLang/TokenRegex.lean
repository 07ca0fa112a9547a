import RexLang.BacktrackingRegex

/-!
# The token expression

The single regular expression of the lexer: one alternative for each kind of
token, tried in the order of `Token::regex`.  The lemmas say which alternative
wins on a word, a number and a quoted literal.
-/

namespace RexLang

open LeftmostFirst LeftmostFirst.Regex

/-- The named groups of the expression. -/
inductive TokenGroup where
  | kwAs | kwCase | kwClass | kwDeclare | kwElse | kwFn | kwFor | kwIf | kwImport | kwIs
  | kwInstance | kwMatch | kwPub | kwType | kwWhen | kwThen | kwWith | kwWhere
  | arrowL | arrowR | backSlash | blockComment | lineComment | commentL | commentR
  | braceL | braceR | bracketL | bracketR | colonColon | colon | comma | dotDot
  | kwIn | kwLet | kwRec | lambdaR | parenL | parenR | question | semiColon
  | skipSpace | skipLineBreak
  | add | and | div | dot | equal | assign | notEqual | lessThanEq | lessThan
  | greaterThanEq | greaterThan | mod | mul | or | pipe | sub
  | bool | float | int | null | doubleString | char | ident
deriving DecidableEq

/-- The word characters of Unicode.  Only what they are among the ASCII
characters matters to the lexer. -/
structure WordClass where
  isWord : Char → Bool
  ascii : ∀ symbol, symbol.toNat < 128 → isWord symbol = (symbol.isAlphanum || symbol == '_')

/-- The word characters when every other character is a separator. -/
def WordClass.asciiOnly : WordClass where
  isWord symbol := symbol.isAlphanum || symbol == '_'
  ascii _ _ := rfl

abbrev TokenRegex := Regex Char TokenGroup

def isDigit (symbol : Char) : Bool :=
  '0' ≤ symbol && symbol ≤ '9'

/-- `[_a-zA-Z]`. -/
def isIdentStart (symbol : Char) : Bool :=
  symbol == '_' || 'a' ≤ symbol && symbol ≤ 'z' || 'A' ≤ symbol && symbol ≤ 'Z'

/-- `[_a-zA-Z]|[0-9]`. -/
def isIdentContinue (symbol : Char) : Bool :=
  isIdentStart symbol || isDigit symbol

/-- `\b`. -/
def wordBoundary (words : WordClass) : TokenRegex :=
  look fun before after => before.any words.isWord != after.any words.isWord

def keyword (words : WordClass) (text : String) : TokenRegex :=
  seq (wordBoundary words) (seq (literal text.toList) (wordBoundary words))

def text (value : String) : TokenRegex :=
  literal value.toList

/-- `(\\"|[^"])*`, for either quote. -/
def quotedBody (quote : Char) : TokenRegex :=
  star (alt (literal ['\\', quote]) (chr fun symbol => symbol != quote))

/-- A quoted literal; only the body is captured. -/
def quoted (name : TokenGroup) (quote : Char) : TokenRegex :=
  seq (chr (· == quote)) (seq (group name (quotedBody quote)) (chr (· == quote)))

/-- The alternatives before the last one. -/
def tokenAlternatives (words : WordClass) : List TokenRegex := [
  group .kwAs (keyword words "as"),
  group .kwCase (keyword words "case"),
  group .kwClass (keyword words "class"),
  group .kwDeclare (keyword words "declare"),
  group .kwElse (keyword words "else"),
  group .kwFn (keyword words "fn"),
  group .kwFor (keyword words "for"),
  group .kwIf (keyword words "if"),
  group .kwImport (keyword words "import"),
  group .kwIs (keyword words "is"),
  group .kwInstance (keyword words "instance"),
  group .kwMatch (keyword words "match"),
  group .kwPub (keyword words "pub"),
  group .kwType (keyword words "type"),
  group .kwWhen (keyword words "when"),
  group .kwThen (keyword words "then"),
  group .kwWith (keyword words "with"),
  group .kwWhere (keyword words "where"),
  group .arrowL (alt (text "<-") (text "←")),
  group .arrowR (text "->"),
  group .backSlash (text "\\"),
  group .blockComment (seq (text "/*") (seq (lazyStar (chr fun _ => true)) (text "*/"))),
  group .lineComment (seq (text "//") (star (chr fun symbol => symbol != '\n' && symbol != '\r'))),
  group .commentL (text "/*"),
  group .commentR (text "*/"),
  group .braceL (text "\x7b"),
  group .braceR (text "\x7d"),
  group .bracketL (text "["),
  group .bracketR (text "]"),
  group .colonColon (text "::"),
  group .colon (text ":"),
  group .comma (text ","),
  group .dotDot (text ".."),
  group .kwIn (keyword words "in"),
  group .kwLet (keyword words "let"),
  group .kwRec (keyword words "rec"),
  group .lambdaR (text "->"),
  group .parenL (text "("),
  group .parenR (text ")"),
  group .question (text "?"),
  group .semiColon (text ";"),
  group .skipSpace (alt (text " ") (text "\t")),
  group .skipLineBreak (alt (text "\r\n") (alt (text "\n") (text "\r"))),
  group .add (text "+"),
  group .and (text "&&"),
  group .div (text "/"),
  group .dot (text "."),
  group .equal (text "=="),
  group .assign (text "="),
  group .notEqual (text "!="),
  group .lessThanEq (text "<="),
  group .lessThan (text "<"),
  group .greaterThanEq (text ">="),
  group .greaterThan (text ">"),
  group .mod (text "%"),
  group .mul (text "*"),
  group .or (text "||"),
  group .pipe (text "|"),
  group .sub (text "-"),
  group .bool (seq (wordBoundary words) (seq (alt (text "true") (text "false"))
    (wordBoundary words))),
  group .float (seq (plus (chr isDigit)) (seq (text ".") (plus (chr isDigit)))),
  group .int (plus (chr isDigit)),
  group .null (keyword words "null"),
  quoted .doubleString '"',
  quoted .char '\'',
  group .ident (seq (chr isIdentStart) (star (alt (chr isIdentStart) (chr isDigit))))]

/-- `Token::regex`.  The last alternative, any character but a line feed, is
not named. -/
def tokenRegex (words : WordClass) : TokenRegex :=
  alternatives (tokenAlternatives words) (chr fun symbol => symbol != '\n')

theorem nullable_tokenAlternatives {words : WordClass} {regex : TokenRegex}
    (member : regex ∈ tokenAlternatives words) : regex.nullable = false := by
  have consumes : ((tokenAlternatives words).all fun regex => !regex.nullable) = true := rfl
  simpa using List.all_eq_true.mp consumes regex member

/-- Only the alternatives that can start with a symbol of a given list are
tried at such a symbol. -/
theorem firstMatch_tokenRegex (words : WordClass) (before : Option Char) (symbol : Char)
    (symbols : List Char) (member : symbol ∈ symbols) (rest : List Char) :
    (tokenRegex words).firstMatch before (symbol :: rest) =
      (((tokenAlternatives words).filter fun regex => symbols.any (regex.starts ·)).findSome?
        fun regex => regex.search before (symbol :: rest) some).or
          ((chr fun symbol => symbol != '\n').search before (symbol :: rest) some) := by
  rw [firstMatch_eq_search, tokenRegex, search_alternatives,
    findSome?_search_filter _ _ fun regex => symbols.any (regex.starts ·)]
  intro regex regexMember skipped
  refine ⟨nullable_tokenAlternatives regexMember, ?_⟩
  simpa using List.any_eq_false.mp skipped symbol member

/-! ## Words -/

def letters : List Char :=
  "_abcdefghijklmnopqrstuvwxyzABCDEFGHIJKLMNOPQRSTUVWXYZ".toList

def digits : List Char :=
  "0123456789".toList

theorem forall_ascii (property : Char → Prop)
    (small : ∀ code < 128, property (Char.ofNat code)) (symbol : Char)
    (ascii : symbol.toNat < 128) : property symbol := by
  simpa using small symbol.toNat ascii

theorem toNat_lt_of_isIdentContinue {symbol : Char} (continues : isIdentContinue symbol = true) :
    symbol.toNat < 128 := by
  have bound {low high : Char} (within : low ≤ symbol ∧ symbol ≤ high)
      (ascii : high.toNat < 128) : symbol.toNat < 128 :=
    Nat.lt_of_le_of_lt within.2 ascii
  simp only [isIdentContinue, isIdentStart, isDigit, Bool.or_eq_true, Bool.and_eq_true,
    decide_eq_true_eq, beq_iff_eq] at continues
  rcases continues with ((rfl | within) | within) | within
  · decide
  · exact bound within (by decide)
  · exact bound within (by decide)
  · exact bound within (by decide)

theorem isWord_of_isIdentContinue (words : WordClass) {symbol : Char}
    (continues : isIdentContinue symbol = true) : words.isWord symbol = true := by
  have ascii := toNat_lt_of_isIdentContinue continues
  rw [words.ascii symbol ascii]
  refine forall_ascii (fun symbol => isIdentContinue symbol = true →
    (symbol.isAlphanum || symbol == '_') = true) ?_ symbol ascii continues
  decide

theorem mem_letters {symbol : Char} (starts : isIdentStart symbol = true) :
    symbol ∈ letters := by
  have ascii := toNat_lt_of_isIdentContinue (by rw [isIdentContinue, starts, Bool.true_or])
  refine forall_ascii (fun symbol => isIdentStart symbol = true → symbol ∈ letters)
    ?_ symbol ascii starts
  decide

theorem mem_digits {symbol : Char} (digit : isDigit symbol = true) : symbol ∈ digits := by
  have ascii := toNat_lt_of_isIdentContinue (by rw [isIdentContinue, digit, Bool.or_true])
  refine forall_ascii (fun symbol => isDigit symbol = true → symbol ∈ digits)
    ?_ symbol ascii digit
  decide

section Boundary

variable (words : WordClass) (before : Option Char) (word rest : List Char)
  (wordSymbols : ∀ symbol ∈ word, words.isWord symbol = true)
  (ends : rest.head?.any words.isWord = false)
  (continuation : Found Char TokenGroup → Option (Found Char TokenGroup))

include wordSymbols ends

/-- A literal that must end at a word boundary matches whole words only. -/
theorem search_literal_boundary (name : List Char) (nonempty : name ≠ [])
    (nameSymbols : ∀ symbol ∈ name, words.isWord symbol = true) :
    (seq (literal name) (wordBoundary words)).search before (word ++ rest) continuation =
      if name = word then continuation ⟨word, rest, []⟩ else none := by
  obtain ⟨final, hFinal⟩ : ∃ final, name.getLast? = some final :=
    ⟨_, List.getLast?_eq_some_getLast nonempty⟩
  have finalWord : words.isWord final = true :=
    nameSymbols final (List.mem_of_getLast? hFinal)
  rw [search_seq, search_literal]
  by_cases isPrefix : name <+: word ++ rest
  · have matched : name.isPrefixOf (word ++ rest) = true := List.isPrefixOf_iff_prefix.mpr isPrefix
    rw [if_pos matched]
    rcases List.prefix_or_prefix_of_prefix isPrefix (List.prefix_append word rest) with
      ⟨tail, rfl⟩ | ⟨tail, rfl⟩
    · cases tail with
      | nil =>
          simp_all [wordBoundary, Found.last, Found.append, Found.nothing]
      | cons symbol tail =>
          have symbolWord := wordSymbols symbol (by simp)
          simp [wordBoundary, Found.last, hFinal, finalWord, symbolWord]
    · cases tail with
      | nil => simp_all [wordBoundary, Found.last, Found.append, Found.nothing]
      | cons symbol tail =>
          have symbolWord := nameSymbols symbol (by simp)
          obtain ⟨after, hAfter⟩ := (List.prefix_append_right_inj word).mp isPrefix
          simp [← hAfter, symbolWord] at ends
  · have unmatched : ¬ name.isPrefixOf (word ++ rest) = true := by
      rwa [List.isPrefixOf_iff_prefix]
    have different : name ≠ word := by
      rintro rfl
      exact isPrefix (List.prefix_append ..)
    rw [if_neg unmatched, if_neg different]

variable (begins : before.any words.isWord = false) (wordNonempty : word ≠ [])

include begins wordNonempty

omit ends in
theorem search_opening_boundary (regex : TokenRegex) :
    (seq (wordBoundary words) regex).search before (word ++ rest) continuation =
      regex.search before (word ++ rest) continuation := by
  obtain ⟨symbol, tail, rfl⟩ := List.exists_cons_of_ne_nil wordNonempty
  have symbolWord := wordSymbols symbol (by simp)
  simp [wordBoundary, begins, symbolWord, Found.last, Found.append, Found.nothing]

/-- A keyword matches whole words only. -/
theorem search_keyword (name : String) (nonempty : name.toList ≠ [])
    (nameSymbols : ∀ symbol ∈ name.toList, words.isWord symbol = true) :
    (keyword words name).search before (word ++ rest) continuation =
      if name.toList = word then continuation ⟨word, rest, []⟩ else none := by
  rw [keyword, search_opening_boundary words before word rest wordSymbols continuation begins
    wordNonempty]
  exact search_literal_boundary words before word rest wordSymbols ends continuation name.toList
    nonempty nameSymbols

end Boundary

/-- The keywords in the order of their alternatives. -/
def keywordGroups : List (String × TokenGroup) := [
  ("as", .kwAs), ("case", .kwCase), ("class", .kwClass), ("declare", .kwDeclare),
  ("else", .kwElse), ("fn", .kwFn), ("for", .kwFor), ("if", .kwIf), ("import", .kwImport),
  ("is", .kwIs), ("instance", .kwInstance), ("match", .kwMatch), ("pub", .kwPub),
  ("type", .kwType), ("when", .kwWhen), ("then", .kwThen), ("with", .kwWith),
  ("where", .kwWhere), ("in", .kwIn), ("let", .kwLet), ("rec", .kwRec)]

/-- The words that are not identifiers. -/
def reservedGroups : List (String × TokenGroup) :=
  keywordGroups ++ [("true", .bool), ("false", .bool), ("null", .null)]

/-- The group of a word. -/
def wordGroup (word : List Char) : TokenGroup :=
  ((reservedGroups.find? fun entry => entry.1.toList == word).map Prod.snd).getD .ident

def identRegex : TokenRegex :=
  seq (chr isIdentStart) (star (alt (chr isIdentStart) (chr isDigit)))

def boolRegex (words : WordClass) : TokenRegex :=
  seq (wordBoundary words) (seq (alt (text "true") (text "false")) (wordBoundary words))

theorem filter_letters (words : WordClass) :
    ((tokenAlternatives words).filter fun regex => letters.any (regex.starts ·)) =
      (keywordGroups.map fun entry => group entry.2 (keyword words entry.1)) ++
        [group .bool (boolRegex words), group .null (keyword words "null"),
          group .ident identRegex] :=
  rfl

theorem reservedGroups_symbols :
    ∀ entry ∈ reservedGroups, entry.1.toList ≠ [] ∧
      ∀ symbol ∈ entry.1.toList, isIdentContinue symbol = true := by
  have checked : (reservedGroups.all fun entry =>
      !entry.1.toList.isEmpty && entry.1.toList.all isIdentContinue) = true := by decide
  intro entry member
  have both := List.all_eq_true.mp checked entry member
  rw [Bool.and_eq_true, List.all_eq_true] at both
  exact ⟨by simpa using both.1, both.2⟩

theorem reservedGroups_isWord (words : WordClass) {entry : String × TokenGroup}
    (member : entry ∈ reservedGroups) : ∀ symbol ∈ entry.1.toList, words.isWord symbol = true :=
  fun symbol symbolMember => isWord_of_isIdentContinue words
    ((reservedGroups_symbols entry member).2 symbol symbolMember)

section Word

variable (words : WordClass) (before : Option Char) (first : Char) (more rest : List Char)
  (begins : before.any words.isWord = false) (firstStarts : isIdentStart first = true)
  (moreContinue : ∀ symbol ∈ more, isIdentContinue symbol = true)
  (ends : rest.head?.any words.isWord = false)

include firstStarts moreContinue in
theorem isWord_of_identifier :
    ∀ symbol ∈ first :: more, words.isWord symbol = true := by
  intro symbol member
  apply isWord_of_isIdentContinue words
  rcases List.mem_cons.mp member with rfl | member
  · rw [isIdentContinue, firstStarts, Bool.true_or]
  · exact moreContinue symbol member

include begins firstStarts moreContinue ends

theorem findSome?_keyword (entries : List (String × TokenGroup))
    (reserved : ∀ entry ∈ entries, entry ∈ reservedGroups) :
    ((entries.map fun entry => group entry.2 (keyword words entry.1)).findSome? fun regex =>
        regex.search before (first :: more ++ rest) some) =
      (entries.find? fun entry => entry.1.toList == first :: more).map fun entry =>
        ⟨first :: more, rest, [(entry.2, first :: more)]⟩ := by
  induction entries with
  | nil => rfl
  | cons entry entries entriesIH =>
      have tailIH := entriesIH fun other member => reserved other (List.mem_cons_of_mem _ member)
      have entryReserved := reserved entry (List.mem_cons_self ..)
      rw [List.map_cons, List.findSome?_cons, search_group,
        search_keyword words before (first :: more) rest
          (isWord_of_identifier words first more firstStarts moreContinue) ends _ begins
          (by simp) entry.1 (reservedGroups_symbols entry entryReserved).1
          (reservedGroups_isWord words entryReserved), List.find?_cons]
      by_cases same : entry.1.toList = first :: more
      · simp [same]
      · have different : (entry.1.toList == first :: more) = false := by simpa using same
        rw [if_neg same, different]
        exact tailIH

theorem search_bool (continuation : Found Char TokenGroup → Option (Found Char TokenGroup)) :
    (boolRegex words).search before (first :: more ++ rest) continuation =
      if "true".toList = first :: more ∨ "false".toList = first :: more then
        continuation ⟨first :: more, rest, []⟩
      else none := by
  have wordSymbols := isWord_of_identifier words first more firstStarts moreContinue
  have branch (name : String) (group : TokenGroup) (member : (name, group) ∈ reservedGroups) :=
    search_literal_boundary words before (first :: more) rest wordSymbols ends continuation
      name.toList (reservedGroups_symbols _ member).1 (reservedGroups_isWord words member)
  have trueBranch := branch "true" .bool (by decide)
  have falseBranch := branch "false" .bool (by decide)
  rw [search_seq] at trueBranch falseBranch
  rw [boolRegex, search_opening_boundary words before _ rest wordSymbols _ begins
    (by simp), search_seq, search_alt, text, text, trueBranch, falseBranch]
  by_cases isTrue : "true".toList = first :: more
  · have notFalse : ¬ "false".toList = first :: more := by
      rw [← isTrue]
      decide
    rw [if_pos isTrue, if_neg notFalse, if_pos (Or.inl isTrue), Option.or_none]
  · rw [if_neg isTrue, Option.none_or]
    apply if_congr
    · simp only [isTrue, false_or]
    · rfl
    · rfl

omit begins in
theorem search_ident (continuation : Found Char TokenGroup → Option (Found Char TokenGroup))
    (answer : Found Char TokenGroup)
    (answers : continuation ⟨first :: more, rest, []⟩ = some answer) :
    identRegex.search before (first :: more ++ rest) continuation = some answer := by
  have identStart : Single (chr isIdentStart : TokenRegex) isIdentStart := single_chr _
  have single := identStart.alt (single_chr isDigit)
  have stop : (rest.head?.any fun symbol => isIdentStart symbol || isDigit symbol) = false := by
    cases rest with
    | nil => rfl
    | cons symbol rest =>
        have notWord : words.isWord symbol = false := by simpa using ends
        cases hContinue : isIdentContinue symbol with
        | true => simp [isWord_of_isIdentContinue words hContinue] at notWord
        | false => simpa [isIdentContinue] using hContinue
  rw [identRegex, search_seq, List.cons_append, search_chr_cons, firstStarts, if_pos rfl]
  exact single.search_star_all rfl stop more moreContinue _ _ answer answers

/-- A word matches as the keyword it is, else as an identifier. -/
theorem firstMatch_word :
    (tokenRegex words).firstMatch before (first :: more ++ rest) =
      some ⟨first :: more, rest, [(wordGroup (first :: more), first :: more)]⟩ := by
  have onKeywords := findSome?_keyword words before first more rest begins firstStarts
    moreContinue ends
  have onBool := search_bool words before first more rest begins firstStarts moreContinue ends
  have onIdent := search_ident words before first more rest firstStarts moreContinue ends
    (fun found => some { found with captures := (.ident, found.consumed) :: found.captures })
    _ rfl
  have onNull := onKeywords [("null", .null)] (by decide)
  rw [List.map_cons, List.map_nil, List.findSome?_singleton] at onNull
  rw [List.cons_append, firstMatch_tokenRegex words before first letters (mem_letters firstStarts),
    filter_letters, ← List.cons_append, List.findSome?_append,
    onKeywords keywordGroups fun entry member => List.mem_append_left _ member,
    wordGroup, reservedGroups, List.find?_append]
  cases hKeyword : keywordGroups.find? fun entry => entry.1.toList == first :: more with
  | some entry => simp
  | none =>
      simp only [List.findSome?_cons, search_group, onBool, onNull]
      by_cases isTrue : "true".toList = first :: more
      · simp [← isTrue]
      · by_cases isFalse : "false".toList = first :: more
        · simp [← isFalse]
        · by_cases isNull : "null".toList = first :: more
          · simp [← isNull]
          · have notTrue := beq_eq_false_iff_ne.mpr isTrue
            have notFalse := beq_eq_false_iff_ne.mpr isFalse
            have notNull := beq_eq_false_iff_ne.mpr isNull
            rw [onIdent, if_neg (not_or.mpr ⟨isTrue, isFalse⟩)]
            simp only [List.find?_cons, List.find?_nil, notTrue, notFalse, notNull]
            rfl

end Word

/-! ## Numbers -/

def floatRegex : TokenRegex :=
  seq (plus (chr isDigit)) (seq (text ".") (plus (chr isDigit)))

theorem filter_digits (words : WordClass) :
    ((tokenAlternatives words).filter fun regex => digits.any (regex.starts ·)) =
      [group .float floatRegex, group .int (plus (chr isDigit))] :=
  rfl

theorem single_digit : Single (chr isDigit : TokenRegex) isDigit :=
  single_chr isDigit

/-- A row of digits is consumed as a whole if nothing else is asked for. -/
theorem search_digits (before : Option Char) {first : Char} {more rest : List Char}
    (firstDigit : isDigit first = true) (moreDigits : ∀ symbol ∈ more, isDigit symbol = true)
    (stop : rest.head?.any isDigit = false)
    (continuation : Found Char TokenGroup → Option (Found Char TokenGroup))
    (answer : Found Char TokenGroup)
    (answers : continuation ⟨first :: more, rest, []⟩ = some answer) :
    (plus (chr isDigit)).search before (first :: more ++ rest) continuation = some answer := by
  rw [plus, search_seq, List.cons_append, search_chr_cons, firstDigit, if_pos rfl]
  exact single_digit.search_star_all rfl stop more moreDigits _ _ answer answers

/-- A row of digits without a period after it is no float. -/
theorem search_float_none (before : Option Char) {first : Char} {more rest : List Char}
    (firstDigit : isDigit first = true) (moreDigits : ∀ symbol ∈ more, isDigit symbol = true)
    (stop : rest.head?.any isDigit = false) (noPeriod : rest.head? ≠ some '.')
    (continuation : Found Char TokenGroup → Option (Found Char TokenGroup)) :
    floatRegex.search before (first :: more ++ rest) continuation = none := by
  rw [floatRegex, search_seq, plus, search_seq, List.cons_append, search_chr_cons, firstDigit,
    if_pos rfl]
  apply single_digit.search_star_none rfl stop more moreDigits
  rintro left right rfl
  have unmatched : ¬ ".".toList.isPrefixOf (right ++ rest) = true := by
    cases right with
    | nil =>
        cases rest with
        | nil => simp
        | cons symbol rest =>
            have notPeriod : symbol ≠ '.' := by simpa using noPeriod
            simp [Ne.symm notPeriod]
    | cons symbol right =>
        have digit := moreDigits symbol (by simp)
        have notPeriod : symbol ≠ '.' := by
          rintro rfl
          exact absurd digit (by decide)
        simp [Ne.symm notPeriod]
  rw [search_seq, text, search_literal]
  exact if_neg unmatched

theorem firstMatch_int (words : WordClass) (before : Option Char) {first : Char}
    {more rest : List Char} (firstDigit : isDigit first = true)
    (moreDigits : ∀ symbol ∈ more, isDigit symbol = true)
    (stop : rest.head?.any isDigit = false) (noPeriod : rest.head? ≠ some '.') :
    (tokenRegex words).firstMatch before (first :: more ++ rest) =
      some ⟨first :: more, rest, [(.int, first :: more)]⟩ := by
  rw [List.cons_append, firstMatch_tokenRegex words before first digits (mem_digits firstDigit),
    filter_digits, ← List.cons_append]
  simp only [List.findSome?_cons, search_group,
    search_float_none before firstDigit moreDigits stop noPeriod]
  rw [search_digits before firstDigit moreDigits stop
    (fun found => some { found with captures := (.int, found.consumed) :: found.captures }) _ rfl]
  rfl

theorem firstMatch_float (words : WordClass) (before : Option Char) {first second : Char}
    {more decimals rest : List Char} (firstDigit : isDigit first = true)
    (moreDigits : ∀ symbol ∈ more, isDigit symbol = true)
    (secondDigit : isDigit second = true)
    (decimalsDigits : ∀ symbol ∈ decimals, isDigit symbol = true)
    (stop : rest.head?.any isDigit = false) :
    (tokenRegex words).firstMatch before (first :: more ++ ('.' :: second :: decimals ++ rest)) =
      some ⟨first :: more ++ '.' :: second :: decimals, rest,
        [(.float, first :: more ++ '.' :: second :: decimals)]⟩ := by
  rw [List.cons_append, firstMatch_tokenRegex words before first digits (mem_digits firstDigit),
    filter_digits, ← List.cons_append, List.findSome?_cons, search_group, floatRegex, search_seq]
  rw [search_digits before firstDigit moreDigits rfl _
    ⟨first :: more ++ '.' :: second :: decimals, rest,
      [(.float, first :: more ++ '.' :: second :: decimals)]⟩]
  · rfl
  · rw [search_seq, text, search_literal]
    exact search_digits _ secondDigit decimalsDigits stop _ _ (by simp [Found.append])

/-! ## Quoted literals -/

/-- The body of a quoted literal and what follows its closing quote.  A quote
after a backslash is only a closing quote if there is no later one. -/
def splitAtClosing (quote : Char) : List Char → Option (List Char × List Char)
  | [] => none
  | [symbol] => if symbol = quote then some ([], []) else none
  | symbol :: next :: rest =>
      if symbol = quote then some ([], next :: rest)
      else if symbol = '\\' ∧ next = quote then
        match splitAtClosing quote rest with
        | some (body, after) => some (symbol :: next :: body, after)
        | none => some ([symbol], rest)
      else (splitAtClosing quote (next :: rest)).map fun (body, after) => (symbol :: body, after)

/-- The closing quote after a body. -/
def closeWith (quote : Char) (answer : Found Char TokenGroup → List Char → Found Char TokenGroup)
    (found : Found Char TokenGroup) : Option (Found Char TokenGroup) :=
  match found.rest with
  | [] => none
  | symbol :: after => if symbol == quote then some (answer found after) else none

section Quoted

variable {quote : Char} (notBackslash : quote ≠ '\\')

/-- A body goes on with an escaped quote, with another character, or closes. -/
theorem search_quotedBody (before : Option Char) (input : List Char)
    (answer : Found Char TokenGroup → List Char → Found Char TokenGroup) :
    (quotedBody quote).search before input (closeWith quote answer) =
      ((literal ['\\', quote] : TokenRegex).search before input fun found =>
        (quotedBody quote).search (found.last before) found.rest
          (closeWith quote fun next after => answer (found.append next) after)).or
      (((chr fun symbol => symbol != quote : TokenRegex).search before input fun found =>
        (quotedBody quote).search (found.last before) found.rest
          (closeWith quote fun next after => answer (found.append next) after)).or
      (closeWith quote answer (Found.nothing input))) := by
  rw [quotedBody, search_star rfl, search_alt, Option.or_assoc]
  rfl

include notBackslash

theorem search_quotedBody_quote (before : Option Char) (rest : List Char)
    (answer : Found Char TokenGroup → List Char → Found Char TokenGroup) :
    (quotedBody quote).search before (quote :: rest) (closeWith quote answer) =
      some (answer (Found.nothing (quote :: rest)) rest) := by
  rw [search_quotedBody]
  simp [closeWith, Found.nothing, Ne.symm notBackslash]

omit notBackslash in
theorem search_quotedBody_other (before : Option Char) {symbol : Char} (rest : List Char)
    (notQuote : symbol ≠ quote) (noEscape : ¬ (symbol = '\\' ∧ rest.head? = some quote))
    (answer : Found Char TokenGroup → List Char → Found Char TokenGroup) :
    (quotedBody quote).search before (symbol :: rest) (closeWith quote answer) =
      (quotedBody quote).search (some symbol) rest
        (closeWith quote fun next after =>
          answer (Found.append ⟨[symbol], rest, []⟩ next) after) := by
  have noPrefix : ¬ ['\\', quote].isPrefixOf (symbol :: rest) = true := by
    cases rest with
    | nil => simp
    | cons next rest =>
        intro matched
        simp only [List.isPrefixOf, Bool.and_eq_true, beq_iff_eq] at matched
        apply noEscape
        simp [← matched.1, ← matched.2.1]
  have notClosing : closeWith quote answer (Found.nothing (symbol :: rest)) = none := by
    simp [closeWith, Found.nothing, notQuote]
  rw [search_quotedBody, search_literal, if_neg noPrefix, Option.none_or, notClosing,
    Option.or_none, search_chr_cons]
  simp [notQuote, Found.last]

/-- After a backslash the body first tries to continue past the quote. -/
theorem search_quotedBody_escape (before : Option Char) (rest : List Char)
    (answer : Found Char TokenGroup → List Char → Found Char TokenGroup) :
    (quotedBody quote).search before ('\\' :: quote :: rest) (closeWith quote answer) =
      ((quotedBody quote).search (some quote) rest
        (closeWith quote fun next after =>
          answer (Found.append ⟨['\\', quote], rest, []⟩ next) after)).or
      (some (answer ⟨['\\'], quote :: rest, []⟩ rest)) := by
  have matched : ['\\', quote].isPrefixOf ('\\' :: quote :: rest) = true := by
    simp [List.isPrefixOf]
  rw [search_quotedBody, search_literal, if_pos matched, search_chr_cons,
    if_pos (by simpa using Ne.symm notBackslash)]
  simp only [List.drop_succ_cons, List.length_cons, List.length_nil, List.drop_zero,
    search_quotedBody_quote notBackslash, Option.some_or]
  rfl

theorem search_quotedBody_split (before : Option Char) (input : List Char)
    (answer : Found Char TokenGroup → List Char → Found Char TokenGroup) :
    (quotedBody quote).search before input (closeWith quote answer) =
      (splitAtClosing quote input).map fun (body, after) =>
        answer ⟨body, quote :: after, []⟩ after := by
  induction input using splitAtClosing.induct quote generalizing before answer with
  | case1 =>
      rw [search_quotedBody, search_literal, search_chr_nil]
      rfl
  | case2 =>
      rw [search_quotedBody_quote notBackslash]
      simp [splitAtClosing, Found.nothing]
  | case3 symbol notQuote =>
      rw [search_quotedBody_other before [] notQuote (by simp), search_quotedBody,
        search_literal, search_chr_nil]
      simp [splitAtClosing, notQuote, closeWith, Found.nothing]
  | case4 next rest =>
      rw [search_quotedBody_quote notBackslash]
      simp [splitAtClosing, Found.nothing]
  | case5 symbol next rest notQuote escape body after split restIH =>
      obtain ⟨rfl, rfl⟩ := escape
      rw [search_quotedBody_escape notBackslash, restIH, splitAtClosing, if_neg notQuote,
        if_pos ⟨rfl, rfl⟩, split]
      rfl
  | case6 symbol next rest notQuote escape split restIH =>
      obtain ⟨rfl, rfl⟩ := escape
      rw [search_quotedBody_escape notBackslash, restIH, splitAtClosing, if_neg notQuote,
        if_pos ⟨rfl, rfl⟩, split]
      rfl
  | case7 symbol next rest notQuote noEscape restIH =>
      rw [search_quotedBody_other before _ notQuote (by simpa using noEscape), restIH,
        splitAtClosing, if_neg notQuote, if_neg noEscape, Option.map_map]
      rfl

theorem search_quoted (before : Option Char) (name : TokenGroup) (input : List Char) :
    (quoted name quote).search before (quote :: input) some =
      (splitAtClosing quote input).map fun (body, after) =>
        ⟨quote :: (body ++ [quote]), after, [(name, body)]⟩ := by
  have closing (found : Found Char TokenGroup) :
      ((chr (· == quote) : TokenRegex).search (found.last (some quote)) found.rest fun next =>
        some (Found.append ⟨[quote], input, []⟩ (Found.append
          { found with captures := (name, found.consumed) :: found.captures } next))) =
      closeWith quote (fun found after => ⟨quote :: (found.consumed ++ [quote]), after,
        (name, found.consumed) :: found.captures⟩) found := by
    unfold closeWith
    cases found.rest with
    | nil => rfl
    | cons symbol after =>
        by_cases isQuote : symbol = quote <;> simp [isQuote, Found.append]
  rw [quoted, search_seq, search_chr_cons, if_pos (beq_self_eq_true quote), search_seq,
    search_group]
  exact (congrArg _ (funext closing)).trans (search_quotedBody_split notBackslash _ input _)

end Quoted

theorem firstMatch_doubleString (words : WordClass) (before : Option Char)
    {input body after : List Char} (split : splitAtClosing '"' input = some (body, after)) :
    (tokenRegex words).firstMatch before ('"' :: input) =
      some ⟨'"' :: (body ++ ['"']), after, [(.doubleString, body)]⟩ := by
  have onlyQuoted : ((tokenAlternatives words).filter fun regex => ['"'].any (regex.starts ·)) =
      [quoted .doubleString '"'] := rfl
  rw [firstMatch_tokenRegex words before '"' ['"'] (by simp), onlyQuoted, List.findSome?_singleton,
    search_quoted (by decide), split]
  rfl

theorem firstMatch_char (words : WordClass) (before : Option Char)
    {input body after : List Char} (split : splitAtClosing '\'' input = some (body, after)) :
    (tokenRegex words).firstMatch before ('\'' :: input) =
      some ⟨'\'' :: (body ++ ['\'']), after, [(.char, body)]⟩ := by
  have onlyQuoted : ((tokenAlternatives words).filter fun regex => ['\''].any (regex.starts ·)) =
      [quoted .char '\''] := rfl
  rw [firstMatch_tokenRegex words before '\'' ['\''] (by simp), onlyQuoted,
    List.findSome?_singleton, search_quoted (by decide), split]
  rfl

/-! ## Other alternatives -/

theorem firstMatch_space (words : WordClass) (before : Option Char) (rest : List Char) :
    (tokenRegex words).firstMatch before (' ' :: rest) =
      some ⟨[' '], rest, [(.skipSpace, [' '])]⟩ := by
  rw [firstMatch_tokenRegex words before ' ' [' '] (by simp)]
  rfl

end RexLang
