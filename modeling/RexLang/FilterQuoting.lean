import Mathlib.Data.List.Basic

/-!
# Two readings of a quoted text

A filter graph is read twice.  The first reading splits at the unquoted brackets,
commas and semicolons; the second one splits the arguments of each filter at the
unquoted colons.  Each of them removes one level of quoting.

A text that quotes its values once, for both readings together, is read as it was
meant if and only if no value contains a colon or a quote, and no name a comma.
After a quote in a value all quoting is inverted, and what is read lags behind
what was written to the end of the text.
-/

namespace RexLang

/-! ## The readings -/

/-- What a reading gives: characters, and the places where it splits. -/
inductive Sign where
  | char (symbol : Char)
  | split (symbol : Char)
deriving DecidableEq

inductive Quoting where
  | plain
  | escaped
  | quoted
deriving DecidableEq

/-- What a character stands for, if for anything, and how the next one is read. -/
def Quoting.read (isSplit : Char → Bool) : Quoting → Char → List Sign × Quoting
  | .plain, symbol =>
      if symbol = '\'' then ([], .quoted)
      else if symbol = '\\' then ([], .escaped)
      else ([if isSplit symbol then .split symbol else .char symbol], .plain)
  | .escaped, symbol => ([.char symbol], .plain)
  | .quoted, symbol => if symbol = '\'' then ([], .plain) else ([.char symbol], .quoted)

def isGraphSplit (symbol : Char) : Bool :=
  symbol = '[' || symbol = ']' || symbol = ',' || symbol = ';'

/-- The first reading. -/
def readGraph : Quoting → List Char → List Sign
  | _, [] => []
  | quoting, symbol :: text =>
      (quoting.read isGraphSplit symbol).1 ++
        readGraph (quoting.read isGraphSplit symbol).2 text

/-- Where the second reading is: in a pad label, in the name of a filter, or in its
arguments. -/
inductive Place where
  | pad
  | name
  | arguments (quoting : Quoting)
deriving DecidableEq

/-- What the second reading makes of a sign of the first one. -/
def Place.read : Place → Sign → List Sign × Place
  | _, .split symbol => ([.split symbol], if symbol = '[' then .pad else .name)
  | .pad, .char symbol => ([.char symbol], .pad)
  | .name, .char symbol => ([.char symbol], if symbol = '=' then .arguments .plain else .name)
  | .arguments quoting, .char symbol =>
      ((quoting.read (· = ':') symbol).1, .arguments (quoting.read (· = ':') symbol).2)

/-- The second reading. -/
def readArguments : Place → List Sign → List Sign
  | _, [] => []
  | place, sign :: signs => (place.read sign).1 ++ readArguments (place.read sign).2 signs

/-! ## Written texts -/

/-- A value in quotes: each backslash doubled and each quote after a backslash. -/
def escapeFilterChar (symbol : Char) : List Char :=
  if symbol = '\\' then ['\\', '\\'] else if symbol = '\'' then ['\\', '\''] else [symbol]

/-- The parts of a written filter graph. -/
inductive Mark where
  /-- A place where a reading is to split. -/
  | split (symbol : Char)
  | plain (symbol : Char)
  /-- A comma after a backslash. -/
  | comma
  | quoted (value : List Char)

namespace Mark

def text : Mark → List Char
  | .split symbol => [symbol]
  | .plain symbol => [symbol]
  | .comma => ['\\', ',']
  | .quoted value => '\'' :: (value.flatMap escapeFilterChar ++ ['\''])

/-- What both readings are to make of the mark. -/
def signs : Mark → List Sign
  | .split symbol => [.split symbol]
  | .plain symbol => [.char symbol]
  | .comma => [.char ',']
  | .quoted value => value.map .char

/-- The mark survives both readings. -/
def Safe : Mark → Prop
  | .plain symbol => symbol ≠ ','
  | .quoted value => ∀ symbol ∈ value, symbol ≠ ':' ∧ symbol ≠ '\''
  | _ => True

def isQuoted : Mark → Bool
  | .quoted _ => true
  | _ => false

end Mark

/-- A character that both readings take as it is, except that a comma may be one. -/
def Mark.Ordinary (symbol : Char) : Prop :=
  symbol ≠ '[' ∧ symbol ≠ ']' ∧ symbol ≠ ';' ∧ symbol ≠ '\'' ∧ symbol ≠ '\\'

namespace Place

/-- The mark may be written at the place. -/
def Fits : Place → Mark → Prop
  | .pad, .split symbol => symbol = ']'
  | .pad, .plain symbol => Mark.Ordinary symbol
  | .name, .split symbol => symbol = '[' ∨ symbol = ',' ∨ symbol = ';'
  | .name, .plain symbol => Mark.Ordinary symbol
  | .arguments .plain, .split symbol =>
      symbol = '[' ∨ symbol = ',' ∨ symbol = ';' ∨ symbol = ':'
  | .arguments .plain, .plain symbol => Mark.Ordinary symbol ∧ symbol ≠ ':'
  | .arguments .plain, .comma => True
  | .arguments .plain, .quoted _ => True
  | _, _ => False

/-- The place after a mark. -/
def after : Place → Mark → Place
  | place, .split symbol =>
      if symbol = ':' then place else if symbol = '[' then .pad else .name
  | .name, .plain symbol => if symbol = '=' then .arguments .plain else .name
  | place, _ => place

end Place

/-- Nothing, or a place to split, comes next. -/
def SplitsNext : List Mark → Prop
  | [] => True
  | .split _ :: _ => True
  | _ => False

/-- Every mark fits at its place, and a quoted value ends its argument. -/
def WellPlaced : Place → List Mark → Prop
  | _, [] => True
  | place, mark :: marks =>
      place.Fits mark ∧ (mark.isQuoted → SplitsNext marks) ∧ WellPlaced (place.after mark) marks

/-! ## Reading in parts -/

/-- The state of the second reading after some signs. -/
def Place.afterSigns (place : Place) (signs : List Sign) : Place :=
  signs.foldl (fun place sign => (place.read sign).2) place

theorem readArguments_append (place : Place) (first second : List Sign) :
    readArguments place (first ++ second) =
      readArguments place first ++ readArguments (place.afterSigns first) second := by
  induction first generalizing place with
  | nil => rfl
  | cons sign first hypothesis =>
      rw [List.cons_append, readArguments, readArguments, hypothesis, List.append_assoc]
      rfl

theorem length_read_le (place : Place) (sign : Sign) : (place.read sign).1.length ≤ 1 := by
  cases sign with
  | split symbol => cases place <;> exact Nat.le_refl 1
  | char symbol =>
      cases place with
      | pad => exact Nat.le_refl 1
      | name => exact Nat.le_refl 1
      | arguments quoting =>
          unfold Place.read
          cases quoting with
          | plain =>
              simp only [Quoting.read]
              split_ifs <;> simp
          | escaped => exact Nat.le_refl 1
          | quoted =>
              simp only [Quoting.read]
              split_ifs <;> simp

/-- The second reading gives at most one sign for each of the first. -/
theorem length_readArguments_le (place : Place) (signs : List Sign) :
    (readArguments place signs).length ≤ signs.length := by
  induction signs generalizing place with
  | nil => exact Nat.le_refl 0
  | cons sign signs hypothesis =>
      have onSign := length_read_le place sign
      have onRest := hypothesis (place.read sign).2
      rw [readArguments, List.length_append, List.length_cons]
      omega

/-! ## Inverted quoting -/

theorem fits_split {place : Place} {symbol : Char} (fits : place.Fits (.split symbol)) :
    symbol ≠ '\'' ∧ symbol ≠ '\\' ∧ symbol ≠ '=' := by
  cases place with
  | pad =>
      obtain rfl : symbol = ']' := fits
      decide
  | name =>
      rcases fits with rfl | rfl | rfl <;> decide
  | arguments quoting =>
      cases quoting with
      | plain => rcases fits with rfl | rfl | rfl | rfl <;> decide
      | escaped => exact fits.elim
      | quoted => exact fits.elim

theorem fits_plain {place : Place} {symbol : Char} (fits : place.Fits (.plain symbol)) :
    Mark.Ordinary symbol := by
  cases place with
  | pad => exact fits
  | name => exact fits
  | arguments quoting =>
      cases quoting with
      | plain => exact fits.1
      | escaped => exact fits.elim
      | quoted => exact fits.elim

/-- The first reading of a character of a value where the quotes are inverted. -/
def invertedSign (symbol : Char) : Sign :=
  if isGraphSplit symbol then .split symbol else .char symbol

theorem readGraph_plain_escaped (value rest : List Char) :
    readGraph .plain (value.flatMap escapeFilterChar ++ rest) =
      value.map invertedSign ++ readGraph .plain rest := by
  induction value with
  | nil => rfl
  | cons symbol value hypothesis =>
      rw [List.flatMap_cons, List.append_assoc, List.map_cons, List.cons_append, ← hypothesis]
      unfold escapeFilterChar
      by_cases isBackslash : symbol = '\\'
      · subst isBackslash
        rfl
      · rw [if_neg isBackslash]
        by_cases isQuote : symbol = '\''
        · subst isQuote
          rfl
        · rw [if_neg isQuote, List.singleton_append, readGraph]
          simp only [Quoting.read, if_neg isQuote, if_neg isBackslash]
          rfl

/-- The first reading of the marks where the quotes are inverted. -/
def inverted : List Mark → List Sign
  | [] => []
  | .quoted value :: marks => value.map invertedSign ++ inverted marks
  | .split symbol :: marks => .char symbol :: inverted marks
  | .plain symbol :: marks => .char symbol :: inverted marks
  | .comma :: marks => .char '\\' :: .char ',' :: inverted marks

theorem readGraph_quoted_text {place : Place} {marks : List Mark}
    (placed : WellPlaced place marks) :
    readGraph .quoted (marks.flatMap Mark.text) = inverted marks := by
  induction marks generalizing place with
  | nil => rfl
  | cons mark marks hypothesis =>
      obtain ⟨fits, -, placedRest⟩ := placed
      have onRest := hypothesis placedRest
      rw [List.flatMap_cons]
      cases mark with
      | split symbol =>
          have notQuote := (fits_split fits).1
          rw [Mark.text, List.singleton_append, readGraph, inverted]
          simp only [Quoting.read, if_neg notQuote, onRest]
          rfl
      | plain symbol =>
          have notQuote : symbol ≠ '\'' := (fits_plain fits).2.2.2.1
          rw [Mark.text, List.singleton_append, readGraph, inverted]
          simp only [Quoting.read, if_neg notQuote, onRest]
          rfl
      | comma =>
          rw [inverted, ← onRest]
          rfl
      | quoted value =>
          rw [Mark.text, List.cons_append, List.append_assoc, inverted, ← onRest]
          exact readGraph_plain_escaped value _

/-! ## Lagging behind -/

/-- Characters stand for themselves to the end of the run of unquoted text. -/
def Place.Literal : Place → Prop
  | .pad => True
  | .name => True
  | .arguments .quoted => True
  | _ => False

/-- What is read lags behind what was written, by the pending signs; among a literal run
these include the split at its start. -/
def Lags (place : Place) (pending : List Sign) (marks : List Mark) : Prop :=
  pending ≠ [] ∧ (SplitsNext marks ∨ place = .arguments .plain ∨
    place.Literal ∧ ∃ symbol, Sign.split symbol ∈ pending)

/-- At most as much is read as written, so something stays pending. -/
theorem exists_pending {read rest pending written : List Sign} {after : List Sign}
    (same : read ++ rest = pending ++ (written ++ after)) (notEmpty : pending ≠ [])
    (short : read.length ≤ written.length) :
    ∃ pending', pending' ≠ [] ∧ pending ++ written = read ++ pending' ∧
      rest = pending' ++ after := by
  have pos : 0 < pending.length := List.length_pos_iff.mpr notEmpty
  rw [← List.append_assoc] at same
  obtain ⟨between, isWritten, isRest⟩ | ⟨between, isRead, isAfter⟩ := List.append_eq_append_iff.mp same
  · refine ⟨between, ?_, isWritten, isRest⟩
    rintro rfl
    have lengths := congrArg List.length isWritten
    simp only [List.length_append, List.length_nil] at lengths
    omega
  · have lengths := congrArg List.length isRead
    simp only [List.length_append] at lengths
    omega

/-- An unquoted character either is taken as it is, or leaves the second reading in
the unquoted text of an argument. -/
theorem read_char_cases (place : Place) {symbol : Char} (notQuote : symbol ≠ '\'')
    (notBackslash : symbol ≠ '\\') :
    (place.read (.char symbol)).2 = .arguments .plain ∨
      place.read (.char symbol) = ([.char symbol], place) ∧ place.Literal := by
  cases place with
  | pad => exact .inr ⟨rfl, trivial⟩
  | name =>
      by_cases isEquals : symbol = '='
      · exact .inl (by simp [Place.read, isEquals])
      · exact .inr ⟨by simp [Place.read, isEquals], trivial⟩
  | arguments quoting =>
      cases quoting with
      | plain => exact .inl (by simp [Place.read, Quoting.read, notQuote, notBackslash])
      | escaped => exact .inl rfl
      | quoted => exact .inr ⟨by simp [Place.read, Quoting.read, notQuote], trivial⟩

theorem read_backslash_of_literal {place : Place} (literal : place.Literal) :
    place.read (.char '\\') = ([.char '\\'], place) ∧
      place.read (.char ',') = ([.char ','], place) := by
  cases place with
  | pad => exact ⟨rfl, rfl⟩
  | name => exact ⟨rfl, rfl⟩
  | arguments quoting =>
      cases quoting with
      | plain => exact literal.elim
      | escaped => exact literal.elim
      | quoted => exact ⟨rfl, rfl⟩

/-- A reading that lags behind never catches up. -/
theorem not_read_of_lags {written place : Place} {pending : List Sign} {marks : List Mark}
    (placed : WellPlaced written marks) (lags : Lags place pending marks) :
    readArguments place (inverted marks) ≠ pending ++ marks.flatMap Mark.signs := by
  induction marks generalizing written place pending with
  | nil =>
      intro same
      rw [List.flatMap_nil, List.append_nil] at same
      exact lags.1 same.symm
  | cons mark marks hypothesis =>
      obtain ⟨fits, ends, placedRest⟩ := placed
      obtain ⟨notEmpty, lagging⟩ := lags
      intro same
      rw [List.flatMap_cons] at same
      cases mark with
      | quoted value =>
          rw [inverted, readArguments_append] at same
          have short : (readArguments place (value.map invertedSign)).length ≤
              (value.map Sign.char).length := by
            have := length_readArguments_le place (value.map invertedSign)
            simpa using this
          obtain ⟨pending', notEmpty', -, isRest⟩ := exists_pending same notEmpty short
          exact hypothesis placedRest ⟨notEmpty', .inl (ends rfl)⟩ isRest
      | split symbol =>
          obtain ⟨notQuote, notBackslash, -⟩ := fits_split fits
          rw [inverted, readArguments] at same
          obtain ⟨pending', notEmpty', isPending, isRest⟩ :=
            exists_pending same notEmpty (length_read_le place _)
          refine hypothesis placedRest ⟨notEmpty', .inr ?_⟩ isRest
          rcases read_char_cases place notQuote notBackslash with isPlain | ⟨isRead, literal⟩
          · exact .inl isPlain
          · rw [isRead] at isPending ⊢
            refine .inr ⟨literal, symbol, ?_⟩
            have member : Sign.split symbol ∈ pending ++ (Mark.split symbol).signs := by
              simp [Mark.signs]
            rw [isPending] at member
            simpa using member
      | plain symbol =>
          obtain ⟨-, -, -, notQuote, notBackslash⟩ := fits_plain fits
          rw [inverted, readArguments] at same
          obtain ⟨pending', notEmpty', isPending, isRest⟩ :=
            exists_pending same notEmpty (length_read_le place _)
          refine hypothesis placedRest ⟨notEmpty', .inr ?_⟩ isRest
          rcases read_char_cases place notQuote notBackslash with isPlain | ⟨isRead, literal⟩
          · exact .inl isPlain
          · rcases lagging with absurd | isPlain | ⟨-, other, isPendingSplit⟩
            · exact absurd.elim
            · rw [isPlain] at literal
              exact literal.elim
            · rw [isRead] at isPending ⊢
              refine .inr ⟨literal, other, ?_⟩
              have member : Sign.split other ∈ pending ++ (Mark.plain symbol).signs :=
                List.mem_append_left _ isPendingSplit
              rw [isPending] at member
              simpa using member
      | comma =>
          rw [inverted, readArguments, readArguments] at same
          rcases lagging with absurd | rfl | ⟨literal, other, isPendingSplit⟩
          · exact absurd.elim
          · obtain ⟨pending', notEmpty', -, isRest⟩ :=
              @exists_pending [.char ','] _ _ _ _ same notEmpty (Nat.le_refl 1)
            exact hypothesis placedRest ⟨notEmpty', .inr (.inl rfl)⟩ isRest
          · -- The split is pending, so that two characters do not reach its place.
            obtain ⟨onBackslash, onComma⟩ := read_backslash_of_literal literal
            rw [onBackslash] at same
            simp only [onComma, List.singleton_append, Mark.signs] at same
            cases pending with
            | nil => exact notEmpty rfl
            | cons first pending =>
                cases pending with
                | nil =>
                    rw [List.singleton_append, List.cons.injEq] at same
                    rw [List.mem_singleton, ← same.1] at isPendingSplit
                    cases isPendingSplit
                | cons second pending =>
                    simp only [List.cons_append, List.cons.injEq] at same
                    obtain ⟨rfl, rfl, isRest⟩ := same
                    have inRest : Sign.split other ∈ pending := by simpa using isPendingSplit
                    have lagsRest : Lags place (pending ++ [.char ',']) marks :=
                      ⟨by simp, .inr (.inr ⟨literal, other, by simp [inRest]⟩)⟩
                    apply hypothesis placedRest lagsRest
                    rw [isRest, List.append_assoc]
                    rfl

/-! ## What both readings make of a text -/

/-- Both readings of a text from a place on. -/
def readBoth (place : Place) (text : List Char) : List Sign :=
  readArguments place (readGraph .plain text)

/-- Both readings of a text that continues inside quotes. -/
def readQuoted (text : List Char) : List Sign :=
  readArguments (.arguments .plain) (readGraph .quoted text)

theorem readQuoted_backslash (text : List Char) :
    readQuoted ('\\' :: '\\' :: text) = .char '\\' :: readQuoted text := rfl

theorem readQuoted_cons {symbol : Char} (notQuote : symbol ≠ '\'') (notBackslash : symbol ≠ '\\')
    (notColon : symbol ≠ ':') (text : List Char) :
    readQuoted (symbol :: text) = .char symbol :: readQuoted text := by
  unfold readQuoted
  rw [readGraph]
  simp [Quoting.read, readArguments, Place.read, notQuote, notBackslash, notColon]

theorem escapeFilterChar_of_ne {symbol : Char} (notQuote : symbol ≠ '\'')
    (notBackslash : symbol ≠ '\\') : escapeFilterChar symbol = [symbol] := by
  rw [escapeFilterChar, if_neg notBackslash, if_neg notQuote]

theorem readQuoted_value {value : List Char}
    (safe : ∀ symbol ∈ value, symbol ≠ ':' ∧ symbol ≠ '\'') (text : List Char) :
    readQuoted (value.flatMap escapeFilterChar ++ '\'' :: text) =
      value.map .char ++ readBoth (.arguments .plain) text := by
  induction value with
  | nil => rfl
  | cons symbol value hypothesis =>
      obtain ⟨⟨notColon, notQuote⟩, safeRest⟩ := List.forall_mem_cons.mp safe
      rw [List.map_cons, List.cons_append, ← hypothesis safeRest, List.flatMap_cons]
      by_cases isBackslash : symbol = '\\'
      · rw [isBackslash]
        exact readQuoted_backslash _
      · rw [escapeFilterChar_of_ne notQuote isBackslash]
        exact readQuoted_cons notQuote isBackslash notColon _

/-- A value with a colon or a quote is not read as it was written. -/
theorem readQuoted_ne {value : List Char}
    (notSafe : ¬∀ symbol ∈ value, symbol ≠ ':' ∧ symbol ≠ '\'') {place : Place}
    {marks : List Mark} (placed : WellPlaced place marks) (ends : SplitsNext marks) :
    readQuoted (value.flatMap escapeFilterChar ++ '\'' :: marks.flatMap Mark.text) ≠
      value.map .char ++ marks.flatMap Mark.signs := by
  induction value with
  | nil => exact absurd (by simp) notSafe
  | cons symbol value hypothesis =>
      intro same
      rw [List.flatMap_cons, List.map_cons, List.append_assoc, List.cons_append] at same
      by_cases isColon : symbol = ':'
      · subst isColon
        cases List.head_eq_of_cons_eq same
      by_cases isQuote : symbol = '\''
      · -- The quote ends the quoted text, and its backslash escapes what comes next.
        subst isQuote
        change readArguments (.arguments .escaped) (readGraph .plain
          (value.flatMap escapeFilterChar ++ '\'' :: marks.flatMap Mark.text)) = _ at same
        rw [readGraph_plain_escaped, readArguments_append] at same
        change _ ++ readArguments _ (readGraph .quoted (marks.flatMap Mark.text)) = _ at same
        rw [readGraph_quoted_text placed] at same
        have short : (readArguments (.arguments .escaped) (value.map invertedSign)).length ≤
            (value.map Sign.char).length := by
          have := length_readArguments_le (.arguments .escaped) (value.map invertedSign)
          simpa using this
        obtain ⟨pending, notEmpty, -, isRest⟩ :=
          @exists_pending _ _ [.char '\''] _ _ same (by simp) short
        exact not_read_of_lags placed ⟨notEmpty, .inl ends⟩ isRest
      have notSafeRest : ¬∀ symbol ∈ value, symbol ≠ ':' ∧ symbol ≠ '\'' := fun safe =>
        notSafe (List.forall_mem_cons.mpr ⟨⟨isColon, isQuote⟩, safe⟩)
      apply hypothesis notSafeRest
      by_cases isBackslash : symbol = '\\'
      · subst isBackslash
        exact List.tail_eq_of_cons_eq same
      · rw [escapeFilterChar_of_ne isQuote isBackslash, List.singleton_append,
          readQuoted_cons isQuote isBackslash isColon] at same
        exact List.tail_eq_of_cons_eq same

theorem readBoth_quoted (value text : List Char) :
    readBoth (.arguments .plain) ((Mark.quoted value).text ++ text) =
      readQuoted (value.flatMap escapeFilterChar ++ '\'' :: text) := by
  rw [Mark.text, List.cons_append, List.append_assoc]
  rfl

theorem readBoth_ordinary {place : Place} {symbol : Char} (fits : place.Fits (.plain symbol))
    (notComma : symbol ≠ ',') (text : List Char) :
    readBoth place (symbol :: text) =
      .char symbol :: readBoth (place.after (.plain symbol)) text := by
  obtain ⟨notOpen, notClose, notSemicolon, notQuote, notBackslash⟩ := fits_plain fits
  have isChar : readGraph .plain (symbol :: text) = .char symbol :: readGraph .plain text := by
    rw [readGraph]
    simp [Quoting.read, isGraphSplit, notOpen, notClose, notSemicolon, notQuote, notBackslash,
      notComma]
  unfold readBoth
  rw [isChar, readArguments]
  cases place with
  | pad => rfl
  | name => rfl
  | arguments quoting =>
      cases quoting with
      | plain => simp [Place.read, Quoting.read, Place.after, notQuote, notBackslash, fits.2]
      | escaped => exact fits.elim
      | quoted => exact fits.elim

theorem readBoth_split {place : Place} {symbol : Char} (fits : place.Fits (.split symbol))
    (text : List Char) :
    readBoth place (symbol :: text) =
      .split symbol :: readBoth (place.after (.split symbol)) text := by
  cases place with
  | pad =>
      obtain rfl : symbol = ']' := fits
      rfl
  | name => rcases fits with rfl | rfl | rfl <;> rfl
  | arguments quoting =>
      cases quoting with
      | plain => rcases fits with rfl | rfl | rfl | rfl <;> rfl
      | escaped => exact fits.elim
      | quoted => exact fits.elim

theorem arguments_of_fits {place : Place} {mark : Mark} (fits : place.Fits mark)
    (isArgument : mark = .comma ∨ ∃ value, mark = .quoted value) : place = .arguments .plain := by
  rcases isArgument with rfl | ⟨value, rfl⟩
  all_goals
    cases place with
    | pad => exact fits.elim
    | name => exact fits.elim
    | arguments quoting =>
        cases quoting with
        | plain => rfl
        | escaped => exact fits.elim
        | quoted => exact fits.elim

/-- A written text is read as it was meant if and only if all its marks are safe. -/
theorem readBoth_text_iff {place : Place} {marks : List Mark} (placed : WellPlaced place marks) :
    readBoth place (marks.flatMap Mark.text) = marks.flatMap Mark.signs ↔
      ∀ mark ∈ marks, mark.Safe := by
  induction marks generalizing place with
  | nil => exact iff_of_true rfl (by simp)
  | cons mark marks hypothesis =>
      obtain ⟨fits, ends, placedRest⟩ := placed
      have onRest := hypothesis placedRest
      rw [List.flatMap_cons, List.flatMap_cons, List.forall_mem_cons]
      cases mark with
      | split symbol =>
          rw [Mark.text, Mark.signs, List.singleton_append, List.singleton_append,
            readBoth_split fits, List.cons_inj_right, onRest]
          exact (and_iff_right trivial).symm
      | plain symbol =>
          rw [Mark.text, Mark.signs, List.singleton_append, List.singleton_append]
          by_cases isComma : symbol = ','
          · subst isComma
            refine iff_of_false (fun same => ?_) fun safe => safe.1 rfl
            have isSplit : ∃ signs, readBoth place (',' :: marks.flatMap Mark.text) =
                .split ',' :: signs := by
              cases place <;> exact ⟨_, rfl⟩
            obtain ⟨signs, isSplit⟩ := isSplit
            rw [isSplit] at same
            cases List.head_eq_of_cons_eq same
          · rw [readBoth_ordinary fits isComma, List.cons_inj_right, onRest]
            exact (and_iff_right isComma).symm
      | comma =>
          obtain rfl := arguments_of_fits fits (.inl rfl)
          have isRead : readBoth (.arguments .plain) (Mark.comma.text ++ marks.flatMap Mark.text) =
              .char ',' :: readBoth (.arguments .plain) (marks.flatMap Mark.text) := rfl
          rw [isRead, Mark.signs, List.singleton_append, List.cons_inj_right]
          exact onRest.trans (and_iff_right trivial).symm
      | quoted value =>
          obtain rfl := arguments_of_fits fits (.inr ⟨value, rfl⟩)
          rw [readBoth_quoted, Mark.signs]
          by_cases safe : ∀ symbol ∈ value, symbol ≠ ':' ∧ symbol ≠ '\''
          · rw [readQuoted_value safe, List.append_cancel_left_eq]
            exact onRest.trans (and_iff_right safe).symm
          · exact iff_of_false (readQuoted_ne safe placedRest (ends rfl)) fun both => safe both.1

end RexLang
