import RexLang.MovingActions
import RexLang.RequestPrograms

/-!
# Programs served by a state

The requests of a program are answered by actions on a state.  The program is
then an action on the state itself, and what the action of a request guarantees
is what the program may rely on after the request.
-/

namespace RexLang

namespace StateAction

variable {State Error Other Address First : Type}

/-- The action with its error replaced. -/
def adaptError (change : Error → Other) (action : StateAction State Error First) :
    StateAction State Other First :=
  of fun state => (action state).map fun ended => (ended.1.mapError change, ended.2)

theorem adaptError_of_ok {change : Error → Other} {action : StateAction State Error First}
    {state later : State} {result : First} (ended : action state = some (.ok result, later)) :
    action.adaptError change state = some (.ok result, later) := by
  change (action state).map _ = _
  rw [ended]
  rfl

theorem adaptError_of_error {change : Error → Other} {action : StateAction State Error First}
    {state later : State} {error : Error} (ended : action state = some (.error error, later)) :
    action.adaptError change state = some (.error (change error), later) := by
  change (action state).map _ = _
  rw [ended]
  rfl

theorem Yields.adaptError {Step : State → State → (Address → Address) → Prop}
    {allowed : Error → Prop} {change : Error → Other}
    {action : StateAction State Error First} {state : State}
    {post : First → State → (Address → Address) → Prop}
    (yields : action.Yields Step allowed state post) (isAllowed : Other → Prop)
    (implies : ∀ error, allowed error → isAllowed (change error)) :
    (action.adaptError change).Yields Step isAllowed state post := by
  rcases yields with ⟨result, next, ended, holds⟩ | ⟨error, next, ended, holds⟩
  · exact .inl ⟨result, next, adaptError_of_ok ended, holds⟩
  · exact .inr ⟨change error, next, adaptError_of_error ended, implies error holds⟩

end StateAction

namespace Program

variable {Request : Type → Type} {State Raised Failure First Second : Type}

/-- An action on the state for each request. -/
abbrev Server (Request : Type → Type) (State Raised : Type) :=
  (Answer : Type) → Request Answer → StateAction State Raised Answer

/-- The program with its requests answered by the server.  A request without an
outcome leaves the program without one. -/
def serve (server : Server Request State Raised) :
    Program Request Raised Failure First → StateAction State Failure First
  | .done result => pure result
  | .fail failure => throw failure
  | .perform request next => .of fun state =>
      match server _ request state with
      | none => none
      | some (answer, later) => serve server (next answer) later

variable (server : Server Request State Raised) in
theorem serve_perform {Answer : Type} (request : Request Answer)
    (next : Except Raised Answer → Program Request Raised Failure First) (state : State) :
    (perform request next).serve server state =
      (server _ request state).bind fun ended => (next ended.1).serve server ended.2 := by
  rw [serve]
  change (match server _ request state with
    | none => none
    | some (answer, later) => (next answer).serve server later) = _
  cases server _ request state <;> rfl

variable {server : Server Request State Raised}

theorem serve_bind (program : Program Request Raised Failure First)
    (next : First → Program Request Raised Failure Second) :
    (program >>= next).serve server =
      program.serve server >>= fun result => (next result).serve server := by
  induction program with
  | done result => rfl
  | fail failure => rfl
  | perform request continuation hypothesis =>
      funext state
      have left := serve_perform server request
        (fun answer => continuation answer >>= next) state
      have right := serve_perform server request continuation state
      refine left.trans ?_
      change _ = ((perform request continuation).serve server state).bind _
      rw [right]
      cases server _ request state with
      | none => rfl
      | some ended => exact congrFun (hypothesis ended.1) ended.2

/-- A request ends as its action does. -/
theorem serve_request {Answer : Type} (asked : Request Answer) (state : State) :
    (request asked : Program Request Raised Failure (Except Raised Answer)).serve server state =
      (server _ asked state).map fun ended => (Except.ok ended.1, ended.2) := by
  rw [request, serve_perform]
  cases server _ asked state <;> rfl

end Program

end RexLang
