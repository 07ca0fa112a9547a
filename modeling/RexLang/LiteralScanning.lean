import Mathlib.Data.List.Basic

/-!
# Scanning texts with literals

A scanner reads a text character by character.  A text that is written from pieces,
plain ones and literals, is scanned as it is meant if and only if each literal is
safe: what a scanner makes of an unsafe literal differs from what it means, whatever
comes after it.
-/

namespace RexLang

/-- What one character is read as, and how the next one is read. -/
structure Scanner (Mode Sign : Type) where
  step : Mode → Char → List Sign × Mode

namespace Scanner

variable {Mode Sign : Type} (scanner : Scanner Mode Sign)

def run : Mode → List Char → List Sign
  | _, [] => []
  | mode, symbol :: text => (scanner.step mode symbol).1 ++ run (scanner.step mode symbol).2 text

theorem run_cons (mode : Mode) (symbol : Char) (text : List Char) :
    scanner.run mode (symbol :: text) =
      (scanner.step mode symbol).1 ++ scanner.run (scanner.step mode symbol).2 text :=
  rfl

end Scanner

/-- A part of a written text. -/
inductive Piece (Literal : Type) where
  | raw (text : String)
  | literal (literal : Literal)

/-- How the literals of a text are written and read, from a mode to the same mode. -/
structure LiteralRules (Mode Sign Literal : Type) extends Scanner Mode Sign where
  start : Mode
  /-- The characters that stand for themselves between literals. -/
  Plain : Char → Prop
  plainSign : Char → Sign
  text : Literal → List Char
  signs : Literal → List Sign
  Safe : Literal → Prop
  step_plain : ∀ symbol, Plain symbol → step start symbol = ([plainSign symbol], start)
  run_safe : ∀ literal, Safe literal → ∀ rest,
    toScanner.run start (text literal ++ rest) = signs literal ++ toScanner.run start rest
  run_unsafe : ∀ literal, ¬Safe literal → ∀ rest others,
    toScanner.run start (text literal ++ rest) ≠ signs literal ++ others

namespace LiteralRules

variable {Mode Sign Literal : Type} (rules : LiteralRules Mode Sign Literal)

def pieceText : Piece Literal → List Char
  | .raw text => text.toList
  | .literal literal => rules.text literal

def pieceSigns : Piece Literal → List Sign
  | .raw text => text.toList.map rules.plainSign
  | .literal literal => rules.signs literal

def PlainPiece : Piece Literal → Prop
  | .raw text => ∀ symbol ∈ text.toList, rules.Plain symbol
  | .literal _ => True

def SafePiece : Piece Literal → Prop
  | .raw _ => True
  | .literal literal => rules.Safe literal

theorem run_plain {text : List Char} (plain : ∀ symbol ∈ text, rules.Plain symbol)
    (rest : List Char) :
    rules.run rules.start (text ++ rest) =
      text.map rules.plainSign ++ rules.run rules.start rest := by
  induction text with
  | nil => rfl
  | cons symbol text hypothesis =>
      obtain ⟨isPlain, plainText⟩ := List.forall_mem_cons.mp plain
      rw [List.cons_append, Scanner.run_cons, rules.step_plain symbol isPlain,
        hypothesis plainText]
      rfl

/-- A text is scanned as its pieces are meant if and only if its literals are safe. -/
theorem run_pieces_iff {pieces : List (Piece Literal)}
    (plain : ∀ piece ∈ pieces, rules.PlainPiece piece) :
    rules.run rules.start (pieces.flatMap rules.pieceText) = pieces.flatMap rules.pieceSigns ↔
      ∀ piece ∈ pieces, rules.SafePiece piece := by
  induction pieces with
  | nil => exact iff_of_true rfl (by simp)
  | cons piece pieces hypothesis =>
      obtain ⟨isPlain, plainPieces⟩ := List.forall_mem_cons.mp plain
      have onRest := hypothesis plainPieces
      rw [List.flatMap_cons, List.flatMap_cons, List.forall_mem_cons]
      cases piece with
      | raw text =>
          rw [pieceText, pieceSigns, rules.run_plain isPlain, List.append_cancel_left_eq, onRest]
          exact (and_iff_right trivial).symm
      | literal literal =>
          by_cases safe : rules.Safe literal
          · rw [pieceText, pieceSigns, rules.run_safe literal safe, List.append_cancel_left_eq,
              onRest]
            exact (and_iff_right safe).symm
          · exact iff_of_false (rules.run_unsafe literal safe _ _) fun both => safe both.1

end LiteralRules

end RexLang
