import Mathlib.Init

/-!
# Actions on a state that moves

An action on a state ends with a result or an error and the state it leaves, or
never ends.  A step of the state comes with the image of every address; the
images compose along the steps of an action.
-/

namespace RexLang

/-- An action that has no outcome never ends. -/
abbrev StateAction (State Error Result : Type) :=
  ExceptT Error (StateT State Option) Result

namespace StateAction

variable {State Error Address First Second : Type}

/-- The action of a function from the state before it. -/
def of (run : State → Option (Except Error First × State)) : StateAction State Error First :=
  ExceptT.mk run

/-- An action that only reads the state. -/
def read (run : State → ExceptT Error Option First) : StateAction State Error First :=
  of fun state => (run state).run.map fun outcome => (outcome, state)

theorem bind_of_ok {action : StateAction State Error First} {next : First → StateAction State Error Second}
    {state later : State} {result : First} (ended : action state = some (.ok result, later)) :
    (action >>= next) state = next result later := by
  change (action state).bind _ = _
  rw [ended]
  rfl

theorem bind_of_error {action : StateAction State Error First}
    {next : First → StateAction State Error Second} {state later : State} {error : Error}
    (ended : action state = some (.error error, later)) :
    (action >>= next) state = some (.error error, later) := by
  change (action state).bind _ = _
  rw [ended]
  rfl

/-! ## Postconditions -/

/-- The action ends, and either its result meets the postcondition or its error
is allowed. -/
def Meets (allowed : Error → Prop) (action : StateAction State Error First) (state : State)
    (post : First → State → Prop) : Prop :=
  (∃ result next, action state = some (.ok result, next) ∧ post result next) ∨
    ∃ error next, action state = some (.error error, next) ∧ allowed error

section Meets

variable {allowed : Error → Prop} {state : State} {action : StateAction State Error First}

theorem Meets.mono {post weaker : First → State → Prop} (meets : action.Meets allowed state post)
    (implies : ∀ result next, post result next → weaker result next) :
    action.Meets allowed state weaker := by
  rcases meets with ⟨result, next, ended, holds⟩ | failed
  · exact .inl ⟨result, next, ended, implies result next holds⟩
  · exact .inr failed

theorem Meets.bind {next : First → StateAction State Error Second} {middle : First → State → Prop}
    {post : Second → State → Prop} (meets : action.Meets allowed state middle)
    (rest : ∀ result later, middle result later → (next result).Meets allowed later post) :
    (action >>= next).Meets allowed state post := by
  rcases meets with ⟨result, later, ended, holds⟩ | ⟨error, later, ended, isAllowed⟩
  · rcases rest result later holds with ⟨second, last, endedRest, after⟩ | ⟨error, last, failed, isAllowed⟩
    · exact .inl ⟨second, last, (bind_of_ok ended).trans endedRest, after⟩
    · exact .inr ⟨error, last, (bind_of_ok ended).trans failed, isAllowed⟩
  · exact .inr ⟨error, later, bind_of_error ended, isAllowed⟩

end Meets

/-! ## Moving addresses -/

section Yields

variable {Step : State → State → (Address → Address) → Prop} {allowed : Error → Prop}

/-- The action ends with a step of the state, and its result meets a
postcondition on the new state and the images of the addresses. -/
def Yields (Step : State → State → (Address → Address) → Prop) (allowed : Error → Prop)
    (action : StateAction State Error First) (state : State)
    (post : First → State → (Address → Address) → Prop) : Prop :=
  action.Meets allowed state fun result next => ∃ image, Step state next image ∧ post result next image

variable {state : State} {action : StateAction State Error First}

theorem Yields.mono {post weaker : First → State → (Address → Address) → Prop}
    (yields : action.Yields Step allowed state post)
    (implies : ∀ result next image, Step state next image → post result next image →
      weaker result next image) :
    action.Yields Step allowed state weaker :=
  Meets.mono yields fun result next ⟨image, step, holds⟩ =>
    ⟨image, step, implies result next image step holds⟩

theorem yields_pure {post : First → State → (Address → Address) → Prop} {result : First}
    (stays : Step state state id) (holds : post result state id) :
    (pure result : StateAction State Error First).Yields Step allowed state post :=
  .inl ⟨result, state, rfl, id, stays, holds⟩

/-- An action after one that does not touch the state. -/
theorem yields_bind_of_ok {next : First → StateAction State Error Second}
    {post : Second → State → (Address → Address) → Prop} {result : First}
    (ended : action state = some (.ok result, state))
    (rest : (next result).Yields Step allowed state post) :
    (action >>= next).Yields Step allowed state post := by
  rw [Yields, Meets, bind_of_ok ended]
  exact rest

theorem Yields.bind
    (compose : ∀ {first second third : State} {image after : Address → Address},
      Step first second image → Step second third after → Step first third (after ∘ image))
    {next : First → StateAction State Error Second}
    {middle : First → State → (Address → Address) → Prop}
    {post : Second → State → (Address → Address) → Prop}
    (yields : action.Yields Step allowed state middle)
    (rest : ∀ result later image, Step state later image → middle result later image →
      (next result).Yields Step allowed later fun second last after =>
        post second last (after ∘ image)) :
    (action >>= next).Yields Step allowed state post := by
  refine Meets.bind yields fun result later ⟨image, step, holds⟩ => ?_
  refine Meets.mono (rest result later image step holds) fun second last ⟨after, stepAfter, isPost⟩ => ?_
  exact ⟨after ∘ image, compose step stepAfter, isPost⟩

end Yields

end StateAction

end RexLang
