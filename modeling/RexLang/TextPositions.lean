import Mathlib.Data.Prod.Lex
import RexLang.Tokenizer

/-!
# Positions in a text

The line and the column at which a text ends, counted on the whole text, and how the
lexer counts them piece by piece.
-/

namespace RexLang

/-! ## Lines and columns of a whole text -/

def isLineEnd (symbol : Char) : Bool :=
  symbol == '\r' || symbol == '\n'

/-- A character breaks a line, unless it is the second one of a pair. -/
def breaksLine (before : Option Char) (symbol : Char) : Bool :=
  symbol == '\r' || symbol == '\n' && before != some '\r'

/-- The line breaks of a text, which are `\n`, `\r` and the pair `\r\n`. -/
def lineBreaks : Option Char → List Char → Nat
  | _, [] => 0
  | before, symbol :: text => (breaksLine before symbol).toNat + lineBreaks (some symbol) text

/-- The characters after the last line break. -/
def lastLine (text : List Char) : List Char :=
  (text.reverse.takeWhile fun symbol => !isLineEnd symbol).reverse

/-- The position after a text that starts on the first line. -/
def endPosition (text : List Char) : Position :=
  ⟨1 + lineBreaks none text, 1 + (lastLine text).length⟩

/-- No pair `\r\n` is split between the two parts of a text. -/
def Whole (first second : List Char) : Prop :=
  first.getLast? = some '\r' → second.head? ≠ some '\n'

theorem lineBreaks_append (before : Option Char) (first second : List Char) :
    lineBreaks before (first ++ second) =
      lineBreaks before first + lineBreaks (first.getLast?.or before) second := by
  induction first generalizing before with
  | nil => simp [lineBreaks]
  | cons symbol first hypothesis =>
      have last : (symbol :: first).getLast?.or before = first.getLast?.or (some symbol) := by
        cases first <;> simp [List.getLast?_cons]
      rw [List.cons_append, lineBreaks, hypothesis, lineBreaks, last, Nat.add_assoc]

theorem endPosition_concat (text : List Char) (symbol : Char) :
    endPosition (text ++ [symbol]) =
      ⟨(endPosition text).line + (breaksLine text.getLast? symbol).toNat,
        if isLineEnd symbol then 1 else (endPosition text).column + 1⟩ := by
  have line : lineBreaks none (text ++ [symbol]) =
      lineBreaks none text + (breaksLine text.getLast? symbol).toNat := by
    rw [lineBreaks_append, lineBreaks, lineBreaks, Option.or_none, Nat.add_zero]
  have column : (lastLine (text ++ [symbol])).length =
      if isLineEnd symbol then 0 else (lastLine text).length + 1 := by
    rw [lastLine, List.reverse_concat, List.takeWhile_cons]
    cases isLineEnd symbol <;> simp [lastLine]
  rw [endPosition, endPosition, line, column, Nat.add_assoc]
  split_ifs <;> rfl

/-! ## Counting piece by piece -/

theorem whole_concat {text piece : List Char} {symbol : Char} (next : symbol = '\r' →
    piece.head? ≠ some '\n') : Whole (text ++ [symbol]) piece := by
  intro last
  rw [List.getLast?_concat] at last
  exact next (Option.some.inj last)

/-- The lexer counts a piece as the whole text does, when no pair is split. -/
theorem advancePosition_eq (piece : List Char) (position : Position) {text : List Char}
    (starts : position = endPosition text) (whole : Whole text piece) :
    advancePosition piece position = endPosition (text ++ piece) := by
  induction piece, position using advancePosition.induct generalizing text with
  | case1 position => rw [advancePosition, List.append_nil, starts]
  | case2 rest position hypothesis =>
      have after : (⟨position.line + 1, 1⟩ : Position) =
          endPosition (text ++ ['\r'] ++ ['\n']) := by
        rw [endPosition_concat, endPosition_concat, starts]
        simp [breaksLine, isLineEnd]
      rw [advancePosition, hypothesis after (whole_concat (by simp))]
      simp
  | case3 rest position notPair hypothesis =>
      have after : (⟨position.line + 1, 1⟩ : Position) = endPosition (text ++ ['\r']) := by
        simp [endPosition_concat, starts, breaksLine, isLineEnd]
      have step : advancePosition ('\r' :: rest) position =
          advancePosition rest ⟨position.line + 1, 1⟩ := by
        rw [advancePosition]
        exact notPair
      have notFeed : rest.head? ≠ some '\n' := by
        cases rest with
        | nil => simp
        | cons symbol rest =>
            intro same
            obtain rfl := Option.some.inj same
            exact notPair _ rfl
      rw [step, hypothesis after (whole_concat fun _ => notFeed), List.append_cons text '\r' rest]
  | case4 rest position hypothesis =>
      have notReturn : (text.getLast? != some '\r') = true :=
        bne_iff_ne.mpr fun last => whole last rfl
      have after : (⟨position.line + 1, 1⟩ : Position) = endPosition (text ++ ['\n']) := by
        simp [endPosition_concat, starts, breaksLine, isLineEnd, notReturn]
      rw [advancePosition, hypothesis after (whole_concat (by simp)),
        List.append_cons text '\n' rest]
  | case5 symbol rest position notPair notReturn notFeed hypothesis =>
      have other : symbol ≠ '\r' ∧ symbol ≠ '\n' := ⟨notReturn, notFeed⟩
      have after : (⟨position.line, position.column + 1⟩ : Position) =
          endPosition (text ++ [symbol]) := by
        simp [endPosition_concat, starts, breaksLine, isLineEnd, other]
      have step : advancePosition (symbol :: rest) position =
          advancePosition rest ⟨position.line, position.column + 1⟩ := by
        rw [advancePosition]
        · exact notPair
        · exact notReturn
        · exact notFeed
      rw [step, hypothesis after (whole_concat fun same => absurd same notReturn),
        List.append_cons text symbol rest]

/-! ## The order of positions -/

/-- The lines come first. -/
def Position.key (position : Position) : ℕ ×ₗ ℕ :=
  toLex (position.line, position.column)

/-- Only the second character of a pair leaves the position as it is. -/
theorem key_concat (text : List Char) (symbol : Char) :
    (endPosition text).key < (endPosition (text ++ [symbol])).key ∨
      ¬ Whole text [symbol] ∧ endPosition (text ++ [symbol]) = endPosition text := by
  rw [endPosition_concat, Position.key, Position.key, Prod.Lex.toLex_lt_toLex]
  cases breaks : breaksLine text.getLast? symbol with
  | true => exact .inl (.inl (Nat.lt_succ_self _))
  | false =>
      simp only [breaksLine, Bool.or_eq_false_iff, Bool.and_eq_false_iff] at breaks
      obtain ⟨notReturn, notFeed | isReturn⟩ := breaks
      · have ordinary : isLineEnd symbol = false := by simp [isLineEnd, notReturn, notFeed]
        simp [ordinary]
      · have last : text.getLast? = some '\r' := by simpa using isReturn
        by_cases isFeed : symbol = '\n'
        · subst isFeed
          refine .inr ⟨fun whole => whole last rfl, ?_⟩
          have column : (lastLine text).length = 0 := by
            obtain ⟨before, rfl⟩ := List.getLast?_eq_some_iff.mp last
            simp [lastLine, isLineEnd]
          simp [isLineEnd, endPosition, column]
        · have ordinary : isLineEnd symbol = false := by simp [isLineEnd, notReturn, isFeed]
          simp [ordinary]

theorem key_le_append (text more : List Char) :
    (endPosition text).key ≤ (endPosition (text ++ more)).key := by
  induction more generalizing text with
  | nil => rw [List.append_nil]
  | cons symbol more hypothesis =>
      rw [List.append_cons]
      refine le_trans ?_ (hypothesis _)
      obtain less | ⟨-, same⟩ := key_concat text symbol
      · exact less.le
      · rw [same]

/-- A piece that is not empty ends later than it begins, when no pair is split before it. -/
theorem key_lt_append {text more : List Char} (whole : Whole text more) (nonempty : more ≠ []) :
    (endPosition text).key < (endPosition (text ++ more)).key := by
  cases more with
  | nil => exact absurd rfl nonempty
  | cons symbol more =>
      have less := (key_concat text symbol).resolve_right fun stays =>
        stays.1 fun last feed => whole last feed
      rw [List.append_cons]
      exact less.trans_le (key_le_append _ more)

end RexLang
