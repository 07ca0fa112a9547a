import Mathlib.Data.Finset.Insert
import Mathlib.Data.Finset.Lattice.Basic
import RexLang.Ast

/-!
# The PEG cursor

The engine of `peg.rs`: a cursor into a list of tokens, and the failure that got
farthest.  The engine borrows its tokens and never changes them, so they are a
parameter of its type.  A position past the end holds the end-of-file token,
which is never consumed.
-/

namespace RexLang.Packrat

/-- The trait `EngineToken`. -/
class EngineToken (Token : Type) where
  span : Token → Span
  isEof : Token → Bool

/-- The tokens that an engine borrows. -/
structure TokenList (Token : Type) [EngineToken Token] where
  tokens : List Token
  eof : Token
  eof_isEof : EngineToken.isEof eof = true

structure Failure where
  pos : Nat
  span : Span
  expected : Finset String
  committed : Bool
deriving DecidableEq

namespace Failure

/-- `Failure::new`. -/
def new (pos : Nat) (span : Span) (expected : String) : Failure :=
  ⟨pos, span, {expected}, false⟩

/-- `Failure::merge`. -/
def merge (failure other : Failure) : Failure :=
  if other.pos > failure.pos then other
  else if other.pos = failure.pos then
    { failure with
      expected := failure.expected ∪ other.expected
      committed := failure.committed || other.committed }
  else failure

/-- `Failure::committed`, and `mark_committed` of `grammar.rs`. -/
def markCommitted (failure : Failure) : Failure :=
  { failure with committed := true }

end Failure

structure FailureTracker where
  farthest : Option Failure
deriving DecidableEq

/-- `FailureTracker::record_failure`. -/
def FailureTracker.recordFailure (tracker : FailureTracker) (failure : Failure) :
    FailureTracker :=
  match tracker.farthest with
  | some existing => ⟨some (existing.merge failure)⟩
  | none => ⟨some failure⟩

variable {Token : Type} [EngineToken Token]

namespace TokenList

variable (source : TokenList Token)

/-- `span_at`. -/
def spanAt (pos : Nat) : Span :=
  match source.tokens[pos]? with
  | some token => EngineToken.span token
  | none => EngineToken.span source.eof

/-- The token under a cursor (`Engine::current_token`). -/
def tokenAt (pos : Nat) : Token :=
  source.tokens[pos]?.getD source.eof

/-- `GrammarParser::span_from_positions`. -/
def spanFromPositions (start finish : Nat) : Span :=
  if start < finish then
    .fromBeginEnd (source.spanAt start).begin (source.spanAt (finish - 1)).«end»
  else source.spanAt start

/-- Where the cursor is after the token at a position is accepted. -/
def after (pos : Nat) : Nat :=
  if EngineToken.isEof (source.tokenAt pos) then pos else pos + 1

variable {source}

theorem le_after (pos : Nat) : pos ≤ source.after pos := by
  rw [after]
  split_ifs <;> omega

/-- Only a position that holds a token of the list is left. -/
theorem lt_length_of_after_ne {pos : Nat} (advanced : source.after pos ≠ pos) :
    pos < source.tokens.length := by
  by_contra past
  have isEnd : source.tokenAt pos = source.eof := by
    rw [tokenAt, List.getElem?_eq_none (by omega)]
    rfl
  exact advanced (by rw [after, isEnd, if_pos source.eof_isEof])

end TokenList

/-- `Engine`, over the tokens that it borrows. -/
structure Engine (source : TokenList Token) where
  cursor : Nat
  failures : FailureTracker

namespace Engine

variable {source : TokenList Token}

/-- `Engine::new`. -/
def new (source : TokenList Token) : Engine source :=
  ⟨0, ⟨none⟩⟩

/-- `Engine::pos` and `Engine::mark`: a mark is the cursor. -/
def pos (engine : Engine source) : Nat :=
  engine.cursor

/-- `Engine::restore` and `Engine::restore_pos`. -/
def restore (mark : Nat) (engine : Engine source) : Engine source :=
  { engine with cursor := mark }

/-- `Engine::restore_failures`. -/
def restoreFailures (failures : FailureTracker) (engine : Engine source) : Engine source :=
  { engine with failures }

/-- `Engine::record_failure`. -/
def recordFailure (failure : Failure) (engine : Engine source) : Engine source :=
  { engine with failures := engine.failures.recordFailure failure }

/-- The failure that `Engine::fail` makes at the cursor. -/
def failure (engine : Engine source) (expected : String) : Failure :=
  .new engine.cursor (source.spanAt engine.cursor) expected

/-- `Engine::fail`. -/
def fail (engine : Engine source) (expected : String) : Failure × Engine source :=
  (engine.failure expected, engine.recordFailure (engine.failure expected))

/-- `Engine::expect`, by `Engine::satisfy`. -/
def expect (engine : Engine source) (expected : String) (accepts : Token → Bool) :
    Except Failure Token × Engine source :=
  let token := source.tokenAt engine.cursor
  if accepts token then
    (.ok token, { engine with
      cursor := if EngineToken.isEof token then engine.cursor else engine.cursor + 1 })
  else
    let (failure, engine) := engine.fail expected
    (.error failure, engine)

end Engine

end RexLang.Packrat
