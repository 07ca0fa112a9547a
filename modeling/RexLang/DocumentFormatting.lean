import Mathlib.Data.List.DropRight
import RexLang.WireTypes

/-!
# Formatting documents

The formatter of the language server: the lines of a text lose the white space at their ends, and
the edit that replaces the whole document.  What the formatter deletes is described without lines:
the white space before a line feed or at the end.
-/

namespace RexLang

/-! ## Lines -/

/-- `split_inclusive('\n')`. -/
def splitInclusive : List Char → List (List Char)
  | [] => []
  | symbol :: text =>
      if symbol = '\n' then [symbol] :: splitInclusive text
      else
        match splitInclusive text with
        | [] => [[symbol]]
        | piece :: pieces => (symbol :: piece) :: pieces

def stripSuffix (suffix : Char) (piece : List Char) : Option (List Char) :=
  if piece.getLast? = some suffix then some piece.dropLast else none

/-- The line of a piece, without the line feed and a carriage return before it. -/
def lineOfPiece (piece : List Char) : List Char :=
  match stripSuffix '\n' piece with
  | none => piece
  | some line => (stripSuffix '\r' line).getD line

/-- `str::lines`. -/
def lines (text : List Char) : List (List Char) :=
  (splitInclusive text).map lineOfPiece

/-- `str::trim_end`. -/
def trimEnd (line : List Char) : List Char :=
  line.rdropWhile isWhitespace

/-! ## The formatter -/

/-- The loop of `format_source`, with its flag and what it has pushed. -/
def formatLines : List (List Char) → Bool → List Char → List Char
  | [], _, out => out
  | line :: lines, first, out =>
      formatLines lines false ((if first then out else out ++ ['\n']) ++ trimEnd line)

def formatText (text : List Char) : List Char :=
  let out := formatLines (lines text) true []
  if text.getLast? = some '\n' ∨ out ≠ [] then out ++ ['\n'] else out

def formatSource (text : String) : String :=
  String.ofList (formatText text.toList)

/-- A position of the protocol, counted from zero. -/
structure DocumentPosition where
  line : Nat
  character : Nat
deriving DecidableEq

structure DocumentRange where
  start : DocumentPosition
  «end» : DocumentPosition
deriving DecidableEq

structure TextEdit where
  range : DocumentRange
  newText : String
deriving DecidableEq

/-- One round of the loop of `full_document_range`; its counters are `u32`. -/
def countSymbol (position : DocumentPosition) (symbol : Char) : DocumentPosition :=
  if symbol = '\n' then ⟨(position.line + 1) % 2 ^ 32, 0⟩
  else ⟨position.line, (position.character + 1) % 2 ^ 32⟩

def fullDocumentRange (text : String) : DocumentRange :=
  ⟨⟨0, 0⟩, text.toList.foldl countSymbol ⟨0, 0⟩⟩

def formatEditsForSource (text : String) : Option (List TextEdit) :=
  let formatted := formatSource text
  if formatted = text then none
  else some [⟨fullDocumentRange text, formatted⟩]

/-! ## What is deleted -/

/-- White space that a line can contain. -/
def isLineSpace (symbol : Char) : Bool :=
  isWhitespace symbol && symbol != '\n'

/-- A line ends before a text; `atEnd` tells whether one ends at the end of the text. -/
def endsLine (atEnd : Bool) : List Char → Bool
  | [] => atEnd
  | symbol :: _ => symbol == '\n'

/-- A text without the white space before the ends of its lines. -/
def trimLines (atEnd : Bool) : List Char → List Char
  | [] => []
  | symbol :: text =>
      if isLineSpace symbol && endsLine atEnd (trimLines atEnd text) then trimLines atEnd text
      else symbol :: trimLines atEnd text

section TrimLines

variable {atEnd : Bool}

theorem trimLines_cons_of_kept {symbol : Char} {text : List Char}
    (kept : (isLineSpace symbol && endsLine atEnd (trimLines atEnd text)) = false) :
    trimLines atEnd (symbol :: text) = symbol :: trimLines atEnd text :=
  if_neg (by simp [kept])

theorem trimLines_cons_of_deleted {symbol : Char} {text : List Char}
    (deleted : (isLineSpace symbol && endsLine atEnd (trimLines atEnd text)) = true) :
    trimLines atEnd (symbol :: text) = trimLines atEnd text :=
  if_pos deleted

theorem isLineSpace_lineFeed : isLineSpace '\n' = false := by
  decide

/-- A character that is no white space of a line is kept. -/
theorem trimLines_cons {symbol : Char} (notSpace : isLineSpace symbol = false)
    (text : List Char) :
    trimLines atEnd (symbol :: text) = symbol :: trimLines atEnd text :=
  trimLines_cons_of_kept (by rw [notSpace, Bool.false_and])

theorem trimLines_lineFeed (text : List Char) :
    trimLines atEnd ('\n' :: text) = '\n' :: trimLines atEnd text :=
  trimLines_cons isLineSpace_lineFeed text

/-- What follows a part of a text only matters by whether it ends a line. -/
theorem trimLines_append (first second : List Char) :
    trimLines atEnd (first ++ second) =
      trimLines (endsLine atEnd (trimLines atEnd second)) first ++ trimLines atEnd second := by
  induction first with
  | nil => rfl
  | cons symbol first hypothesis =>
      have sameEnd : endsLine atEnd (trimLines atEnd (first ++ second)) =
          endsLine (endsLine atEnd (trimLines atEnd second))
            (trimLines (endsLine atEnd (trimLines atEnd second)) first) := by
        rw [hypothesis]
        cases trimLines (endsLine atEnd (trimLines atEnd second)) first <;> rfl
      rw [List.cons_append, trimLines, trimLines, sameEnd, hypothesis]
      by_cases deleted : (isLineSpace symbol && endsLine (endsLine atEnd (trimLines atEnd second))
          (trimLines (endsLine atEnd (trimLines atEnd second)) first)) = true
      · rw [if_pos deleted, if_pos deleted]
      · rw [if_neg deleted, if_neg deleted, List.cons_append]

/-- Trimming twice is trimming once. -/
theorem trimLines_trimLines (text : List Char) :
    trimLines atEnd (trimLines atEnd text) = trimLines atEnd text := by
  induction text with
  | nil => rfl
  | cons symbol text hypothesis =>
      cases kept : isLineSpace symbol && endsLine atEnd (trimLines atEnd text) with
      | true => rw [trimLines_cons_of_deleted kept, hypothesis]
      | false =>
          rw [trimLines_cons_of_kept kept, trimLines_cons_of_kept, hypothesis]
          rw [hypothesis]
          exact kept

theorem mem_of_mem_trimLines {symbol : Char} {text : List Char}
    (member : symbol ∈ trimLines atEnd text) : symbol ∈ text := by
  induction text with
  | nil => exact member
  | cons first text hypothesis =>
      cases kept : isLineSpace first && endsLine atEnd (trimLines atEnd text) with
      | true =>
          rw [trimLines_cons_of_deleted kept] at member
          exact List.mem_cons_of_mem _ (hypothesis member)
      | false =>
          rw [trimLines_cons_of_kept kept] at member
          exact List.mem_cons.mpr ((List.mem_cons.mp member).imp_right hypothesis)

/-- What is deleted is white space. -/
theorem mem_trimLines {symbol : Char} (notSpace : isLineSpace symbol = false) {text : List Char} :
    symbol ∈ trimLines atEnd text ↔ symbol ∈ text := by
  refine ⟨mem_of_mem_trimLines, fun member => ?_⟩
  obtain ⟨first, second, rfl⟩ := List.append_of_mem member
  rw [trimLines_append, trimLines_cons notSpace]
  simp

/-- A text without white space keeps everything. -/
theorem trimLines_eq_self {text : List Char}
    (noSpace : ∀ symbol ∈ text, isLineSpace symbol = false) : trimLines atEnd text = text := by
  induction text with
  | nil => rfl
  | cons symbol text hypothesis =>
      rw [List.forall_mem_cons] at noSpace
      rw [trimLines_cons noSpace.1, hypothesis noSpace.2]

/-- Within a line that does not end, nothing is deleted. -/
theorem trimLines_false_eq_self {line : List Char} (noFeed : '\n' ∉ line) :
    trimLines false line = line := by
  induction line with
  | nil => rfl
  | cons symbol line hypothesis =>
      rw [List.mem_cons, not_or] at noFeed
      have goesOn : endsLine false line = false := by
        cases line with
        | nil => rfl
        | cons next line =>
            rw [endsLine, beq_eq_false_iff_ne]
            rintro rfl
            exact noFeed.2 (List.mem_cons_self ..)
      rw [trimLines_cons_of_kept, hypothesis noFeed.2]
      rw [hypothesis noFeed.2, goesOn, Bool.and_false]

/-- A line loses the white space at its end. -/
theorem trimLines_line {line : List Char} (noFeed : '\n' ∉ line) :
    trimLines true line = trimEnd line := by
  induction line using List.reverseRecOn with
  | nil => rfl
  | append_singleton line symbol hypothesis =>
      rw [List.mem_append, not_or, List.mem_singleton] at noFeed
      have spaceIff : isLineSpace symbol = isWhitespace symbol := by
        rw [isLineSpace, bne_iff_ne.mpr (Ne.symm noFeed.2), Bool.and_true]
      rw [trimLines_append, trimEnd, List.rdropWhile_concat]
      cases space : isWhitespace symbol with
      | true =>
          have deleted : trimLines true [symbol] = [] := by
            rw [trimLines_cons_of_deleted (by rw [spaceIff, space]; rfl)]
            rfl
          rw [deleted, List.append_nil, if_pos rfl]
          exact hypothesis noFeed.1
      | false =>
          have kept : trimLines true [symbol] = [symbol] :=
            trimLines_cons (spaceIff.trans space) []
          have goesOn : endsLine true [symbol] = false :=
            beq_eq_false_iff_ne.mpr (Ne.symm noFeed.2)
          rw [kept, goesOn, trimLines_false_eq_self noFeed.1]
          rfl

end TrimLines

/-! ## The formatter deletes white space -/

theorem formatLines_false (lines : List (List Char)) (out : List Char) :
    formatLines lines false out = out ++ lines.flatMap fun line => '\n' :: trimEnd line := by
  induction lines generalizing out with
  | nil => simp [formatLines]
  | cons line lines hypothesis =>
      rw [formatLines, hypothesis, List.flatMap_cons]
      simp

theorem splitInclusive_lineFeed (text : List Char) :
    splitInclusive ('\n' :: text) = ['\n'] :: splitInclusive text :=
  if_pos rfl

theorem splitInclusive_line {line : List Char} (noFeed : '\n' ∉ line) (nonempty : line ≠ []) :
    splitInclusive line = [line] := by
  induction line with
  | nil => exact absurd rfl nonempty
  | cons symbol line hypothesis =>
      rw [List.mem_cons, not_or] at noFeed
      rw [splitInclusive, if_neg (Ne.symm noFeed.1)]
      cases line with
      | nil => rfl
      | cons next line => rw [hypothesis noFeed.2 (by simp)]

theorem splitInclusive_append {line : List Char} (noFeed : '\n' ∉ line) (text : List Char) :
    splitInclusive (line ++ '\n' :: text) = (line ++ ['\n']) :: splitInclusive text := by
  induction line with
  | nil => exact splitInclusive_lineFeed text
  | cons symbol line hypothesis =>
      rw [List.mem_cons, not_or] at noFeed
      rw [List.cons_append, splitInclusive, if_neg (Ne.symm noFeed.1), hypothesis noFeed.2]
      rfl

theorem trimEnd_stripSuffix (line : List Char) :
    trimEnd ((stripSuffix '\r' line).getD line) = trimEnd line := by
  rw [stripSuffix]
  by_cases ends : line.getLast? = some '\r'
  · obtain ⟨line, rfl⟩ := List.getLast?_eq_some_iff.mp ends
    rw [if_pos ends, Option.getD_some, List.dropLast_concat, trimEnd, trimEnd,
      List.rdropWhile_concat, if_pos (by decide)]
  · rw [if_neg ends, Option.getD_none]

theorem trimEnd_lineOfPiece_append (line : List Char) :
    trimEnd (lineOfPiece (line ++ ['\n'])) = trimEnd line := by
  rw [lineOfPiece, stripSuffix, if_pos List.getLast?_concat, List.dropLast_concat]
  exact trimEnd_stripSuffix line

theorem lineOfPiece_of_noFeed {line : List Char} (noFeed : '\n' ∉ line) :
    lineOfPiece line = line := by
  rw [lineOfPiece, stripSuffix, if_neg]
  intro ends
  exact noFeed (List.mem_of_getLast? ends)

/-- A text is one line, or a line and a text after it. -/
theorem exists_line (text : List Char) :
    '\n' ∉ text ∨ ∃ line rest, '\n' ∉ line ∧ text = line ++ '\n' :: rest := by
  by_cases feed : '\n' ∈ text
  · obtain ⟨line, rest, split, noFeed⟩ := List.eq_append_cons_of_mem feed
    exact .inr ⟨line, rest, noFeed, split⟩
  · exact .inl feed

theorem formatLines_line {line : List Char} (noFeed : '\n' ∉ line) :
    formatLines (lines line) true [] = trimEnd line := by
  by_cases nonempty : line = []
  · rw [nonempty]
    rfl
  · rw [lines, splitInclusive_line noFeed nonempty, List.map_singleton,
      lineOfPiece_of_noFeed noFeed]
    rfl

theorem lines_ne_nil {text : List Char} (nonempty : text ≠ []) : lines text ≠ [] := by
  obtain ⟨symbol, text, rfl⟩ := List.exists_cons_of_ne_nil nonempty
  rw [lines, splitInclusive]
  by_cases feed : symbol = '\n'
  · rw [if_pos feed]
    simp
  · rw [if_neg feed]
    cases splitInclusive text <;> simp

theorem formatLines_append {line : List Char} (noFeed : '\n' ∉ line) (text : List Char) :
    formatLines (lines (line ++ '\n' :: text)) true [] =
      trimEnd line ++ if text = [] then [] else '\n' :: formatLines (lines text) true [] := by
  rw [lines, splitInclusive_append noFeed, List.map_cons, formatLines, formatLines_false,
    trimEnd_lineOfPiece_append, if_pos rfl, List.nil_append]
  by_cases isLast : text = []
  · rw [isLast]
    rfl
  · rw [if_neg isLast]
    change trimEnd line ++ (lines text).flatMap _ = _
    obtain ⟨first, rest, isLines⟩ := List.exists_cons_of_ne_nil (lines_ne_nil isLast)
    rw [isLines, formatLines, formatLines_false, if_pos rfl, List.nil_append, List.flatMap_cons,
      List.cons_append]

/-- The loop leaves the trimmed text, without a line feed at its end. -/
theorem trimLines_eq_formatLines (text : List Char) :
    trimLines true text = formatLines (lines text) true [] ++
      if text.getLast? = some '\n' then ['\n'] else [] := by
  induction hLength : text.length using Nat.strongRecOn generalizing text with
  | ind length hypothesis =>
      obtain noFeed | ⟨line, rest, noFeed, rfl⟩ := exists_line text
      · have notLast : text.getLast? ≠ some '\n' := fun last =>
          noFeed (List.mem_of_getLast? last)
        rw [formatLines_line noFeed, trimLines_line noFeed, if_neg notLast, List.append_nil]
      · have shorter : rest.length < length := by
          rw [← hLength, List.length_append, List.length_cons]
          omega
        have trimmed : trimLines true (line ++ '\n' :: rest) =
            trimEnd line ++ '\n' :: trimLines true rest := by
          rw [trimLines_append, trimLines_lineFeed]
          exact congrArg (· ++ _) (trimLines_line noFeed)
        rw [trimmed, formatLines_append noFeed, hypothesis rest.length shorter rest rfl]
        cases rest with
        | nil =>
            rw [if_pos rfl, if_pos List.getLast?_concat, List.append_nil]
            rfl
        | cons symbol rest =>
            have sameLast : (line ++ '\n' :: symbol :: rest).getLast? =
                (symbol :: rest).getLast? := by
              rw [List.getLast?_append_of_ne_nil _ (by simp), List.getLast?_cons_cons]
            rw [sameLast, if_neg (List.cons_ne_nil symbol rest), List.append_assoc]
            rfl

/-- The line feed that the formatter adds. -/
def addedLineFeed (text : List Char) : List Char :=
  if text.getLast? = some '\n' ∨ trimLines true text = [] then [] else ['\n']

/-- The formatter trims the text with the line feed that is missing at its end. -/
theorem formatText_eq (text : List Char) :
    formatText text = trimLines true (text ++ addedLineFeed text) := by
  have looped := trimLines_eq_formatLines text
  by_cases ends : text.getLast? = some '\n'
  · rw [if_pos ends] at looped
    rw [formatText, if_pos (.inl ends), addedLineFeed, if_pos (.inl ends), List.append_nil, looped]
  · rw [if_neg ends, List.append_nil] at looped
    rw [formatText, ← looped, addedLineFeed]
    by_cases isEmpty : trimLines true text = []
    · rw [if_neg (by simp [ends, isEmpty]), if_pos (.inr isEmpty), List.append_nil]
    · rw [if_pos (.inr isEmpty), if_neg (by simp [ends, isEmpty]), trimLines_append]
      rfl

/-! ## Formatted texts -/

theorem getLast?_trimLines {text : List Char} (ends : text.getLast? = some '\n') :
    (trimLines true text).getLast? = some '\n' := by
  obtain ⟨text, rfl⟩ := List.getLast?_eq_some_iff.mp ends
  rw [trimLines_append]
  exact List.getLast?_concat

theorem formatText_of_trimmed {text : List Char} (trimmed : trimLines true text = text)
    (ends : text.getLast? = some '\n' ∨ text = []) : formatText text = text := by
  have nothing : addedLineFeed text = [] := by
    rw [addedLineFeed, trimmed, if_pos ends]
  rw [formatText_eq, nothing, List.append_nil, trimmed]

/-- Formatting twice is formatting once. -/
theorem formatText_formatText (text : List Char) :
    formatText (formatText text) = formatText text := by
  refine formatText_of_trimmed ?_ ?_
  · rw [formatText_eq]
    exact trimLines_trimLines _
  · rw [formatText_eq, addedLineFeed]
    by_cases ends : text.getLast? = some '\n'
    · rw [if_pos (.inl ends), List.append_nil]
      exact .inl (getLast?_trimLines ends)
    · by_cases isEmpty : trimLines true text = []
      · rw [if_pos (.inr isEmpty), List.append_nil]
        exact .inr isEmpty
      · rw [if_neg (by simp [ends, isEmpty])]
        exact .inl (getLast?_trimLines List.getLast?_concat)

/-- The text is empty, or ends with a line feed and has no white space before one. -/
def isFormatted : List Char → Bool
  | [] => true
  | [symbol] => symbol == '\n'
  | symbol :: next :: text =>
      !(isLineSpace symbol && next == '\n') && isFormatted (next :: text)

theorem length_trimLines_le (text : List Char) :
    (trimLines true text).length ≤ text.length := by
  induction text with
  | nil => exact Nat.le_refl _
  | cons symbol text hypothesis =>
      cases kept : isLineSpace symbol && endsLine true (trimLines true text) with
      | true =>
          rw [trimLines_cons_of_deleted kept]
          exact Nat.le_succ_of_le hypothesis
      | false =>
          rw [trimLines_cons_of_kept kept]
          exact Nat.succ_le_succ hypothesis

theorem trimLines_cons_eq_self_iff (symbol : Char) (text : List Char) :
    trimLines true (symbol :: text) = symbol :: text ↔
      (isLineSpace symbol && endsLine true text) = false ∧ trimLines true text = text := by
  constructor
  · intro same
    cases kept : isLineSpace symbol && endsLine true (trimLines true text) with
    | true =>
        rw [trimLines_cons_of_deleted kept] at same
        have tooLong := length_trimLines_le text
        rw [same, List.length_cons] at tooLong
        exact absurd tooLong (Nat.not_succ_le_self _)
    | false =>
        rw [trimLines_cons_of_kept kept] at same
        have sameTail := (List.cons.inj same).2
        rw [sameTail] at kept
        exact ⟨kept, sameTail⟩
  · rintro ⟨kept, sameTail⟩
    rw [trimLines_cons_of_kept, sameTail]
    rw [sameTail]
    exact kept

theorem isFormatted_cons_iff (symbol : Char) (text : List Char) :
    isFormatted (symbol :: text) = true ↔
      (symbol :: text).getLast? = some '\n' ∧ trimLines true (symbol :: text) = symbol :: text := by
  induction text generalizing symbol with
  | nil =>
      rw [isFormatted, beq_iff_eq, List.getLast?_singleton, Option.some_inj]
      constructor
      · rintro rfl
        exact ⟨rfl, rfl⟩
      · exact fun both => both.1
  | cons next text hypothesis =>
      rw [isFormatted, Bool.and_eq_true, hypothesis, Bool.not_eq_true', List.getLast?_cons_cons,
        trimLines_cons_eq_self_iff symbol]
      exact and_left_comm

theorem formatText_eq_self_iff (text : List Char) :
    formatText text = text ↔ isFormatted text = true := by
  cases text with
  | nil => exact iff_of_true rfl rfl
  | cons symbol text =>
      rw [isFormatted_cons_iff]
      constructor
      · intro same
        have ends : (symbol :: text).getLast? = some '\n' := by
          rw [formatText_eq, addedLineFeed] at same
          by_cases ends : (symbol :: text).getLast? = some '\n'
          · exact ends
          · by_cases isEmpty : trimLines true (symbol :: text) = []
            · rw [if_pos (.inr isEmpty), List.append_nil, isEmpty] at same
              cases same
            · rw [if_neg (by simp [ends, isEmpty])] at same
              rw [← same]
              exact getLast?_trimLines List.getLast?_concat
        rw [formatText_eq, addedLineFeed, if_pos (.inl ends), List.append_nil] at same
        exact ⟨ends, same⟩
      · exact fun both => formatText_of_trimmed both.2 (.inl both.1)

theorem toList_formatSource (text : String) :
    (formatSource text).toList = formatText text.toList :=
  String.toList_ofList

theorem formatSource_eq_self_iff (text : String) :
    formatSource text = text ↔ isFormatted text.toList = true := by
  rw [← formatText_eq_self_iff, ← toList_formatSource]
  exact String.toList_inj.symm

end RexLang
