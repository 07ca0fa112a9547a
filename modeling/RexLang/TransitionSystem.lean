import Mathlib.Data.Option.Basic

/-!
# Runs of a transition system

A step function says which state an action leads to, when the action is enabled.
A run takes a list of actions one after the other.  Invariants are proved for
one step, possibly under a condition on the state before it, and then hold after
every run whose steps meet the condition.
-/

namespace TransitionSystem

variable {State Action : Type*} (step : State → Action → Option State)

/-- The state after a list of actions, when each is enabled. -/
def run : List Action → State → Option State
  | [], state => some state
  | action :: actions, state => (step state action).bind (run actions)

/-- Every action of a run is taken in a state that meets the condition. -/
def Meets (condition : State → Action → Prop) : List Action → State → Prop
  | [], _ => True
  | action :: actions, state =>
      condition state action ∧ ∀ next, step state action = some next → Meets condition actions next

variable {step}

theorem run_cons {action : Action} {actions : List Action} {state final : State} :
    run step (action :: actions) state = some final ↔
      ∃ next, step state action = some next ∧ run step actions next = some final := by
  simp [run, Option.bind_eq_some_iff]

/-- The invariant rule: what every step that meets the condition preserves holds
after every run whose steps meet it. -/
theorem invariant_of_run {condition : State → Action → Prop} {Invariant : State → Prop}
    (preserves : ∀ state action next, Invariant state → condition state action →
      step state action = some next → Invariant next)
    {actions : List Action} {state final : State} (initially : Invariant state)
    (meets : Meets step condition actions state) (ran : run step actions state = some final) :
    Invariant final := by
  induction actions generalizing state with
  | nil =>
      cases ran
      exact initially
  | cons action actions hypothesis =>
      obtain ⟨next, taken, ran⟩ := run_cons.1 ran
      have holds := preserves state action next initially meets.1 taken
      exact hypothesis holds (meets.2 next taken) ran

theorem meets_true (actions : List Action) (state : State) :
    Meets step (fun _ _ => True) actions state := by
  induction actions generalizing state with
  | nil => trivial
  | cons action actions hypothesis => exact ⟨trivial, fun next _ => hypothesis next⟩

/-- An invariant of every step holds after every run. -/
theorem invariant_of_run' {Invariant : State → Prop}
    (preserves : ∀ state action next, Invariant state →
      step state action = some next → Invariant next)
    {actions : List Action} {state final : State} (initially : Invariant state)
    (ran : run step actions state = some final) : Invariant final :=
  invariant_of_run (fun state action next holds _ => preserves state action next holds) initially
    (meets_true actions state) ran

end TransitionSystem
