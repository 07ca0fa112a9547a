import Mathlib.Init

/-!
# Programs that make requests

A program ends with a result or a failure, or makes a request and continues with
what it is answered, which may be a raised error.
-/

namespace RexLang

inductive Program (Request : Type → Type) (Raised Failure Result : Type) : Type 1 where
  | done (result : Result)
  | fail (failure : Failure)
  | perform {Answer : Type} (request : Request Answer)
      (next : Except Raised Answer → Program Request Raised Failure Result)

namespace Program

variable {Request : Type → Type} {Raised Failure First Second : Type}

/-- The program followed by what its result leads to. -/
def andThen (next : First → Program Request Raised Failure Second) :
    Program Request Raised Failure First → Program Request Raised Failure Second
  | .done result => next result
  | .fail failure => .fail failure
  | .perform request continuation =>
      .perform request fun answer => andThen next (continuation answer)

instance : Monad (Program Request Raised Failure) where
  pure := .done
  bind program next := program.andThen next

instance : LawfulMonad (Program Request Raised Failure) := by
  refine LawfulMonad.mk' _ ?_ ?_ ?_
  · intro Result program
    induction program with
    | done result => rfl
    | fail failure => rfl
    | perform request next hypothesis => exact congrArg (perform request) (funext hypothesis)
  · exact fun _ _ => rfl
  · intro _ _ _ program next after
    induction program with
    | done result => rfl
    | fail failure => rfl
    | perform request _ hypothesis => exact congrArg (perform request) (funext hypothesis)

/-- The answer to a request, or the error it raises. -/
def request {Answer : Type} (request : Request Answer) :
    Program Request Raised Failure (Except Raised Answer) :=
  .perform request .done

/-! ## Running a program -/

section Run

variable {Scope : Type}

/-- What a handler answers to a request, and the scope it leaves. -/
abbrev Handler (Request : Type → Type) (Raised Scope : Type) :=
  (Answer : Type) → Request Answer → Scope → Except Raised Answer × Scope

/-- The program with its requests answered by the handler. -/
def run (handle : Handler Request Raised Scope) :
    Program Request Raised Failure First → Scope → Except Failure First × Scope
  | .done result, scope => (.ok result, scope)
  | .fail failure, scope => (.error failure, scope)
  | .perform request next, scope =>
      let (answer, scope) := handle _ request scope
      (next answer).run handle scope

variable {handle : Handler Request Raised Scope}

theorem run_bind (program : Program Request Raised Failure First)
    (next : First → Program Request Raised Failure Second) (scope : Scope) :
    (program >>= next).run handle scope =
      match program.run handle scope with
      | (.ok result, later) => (next result).run handle later
      | (.error failure, later) => (.error failure, later) := by
  induction program generalizing scope with
  | done result => rfl
  | fail failure => rfl
  | perform request _ hypothesis => exact hypothesis _ _

end Run

end Program

end RexLang
