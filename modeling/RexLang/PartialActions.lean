import Mathlib.Data.List.Basic
import RexLang.MovingActions

/-!
# What the outcomes of an action satisfy

Postconditions of the actions that may have no outcome: every outcome meets them.  An
action is approximated by those that give up earlier.
-/

namespace RexLang

namespace StateAction

variable {State Error First Second : Type}

/-- The action that has no outcome. -/
def never : StateAction State Error First :=
  of fun _ => none

theorem bind_eq (action : StateAction State Error First)
    (next : First → StateAction State Error Second) (state : State) :
    (action >>= next) state = (action state).bind fun ended =>
      match ended with
      | (.ok result, later) => next result later
      | (.error error, later) => some (.error error, later) := by
  change (action state).bind _ = _
  cases action state with
  | none => rfl
  | some ended =>
      obtain ⟨outcome, later⟩ := ended
      cases outcome <;> rfl

/-! ## Postconditions -/

/-- Every outcome of the action meets the postcondition. -/
def Ensures (action : StateAction State Error First) (state : State)
    (post : Except Error First → State → Prop) : Prop :=
  ∀ outcome later, action state = some (outcome, later) → post outcome later

section Ensures

variable {action : StateAction State Error First} {state : State}

theorem ensures_never {post : Except Error First → State → Prop} :
    (never : StateAction State Error First).Ensures state post :=
  fun _ _ ended => nomatch ended

theorem ensures_pure {post : Except Error First → State → Prop} {result : First}
    (holds : post (.ok result) state) :
    (pure result : StateAction State Error First).Ensures state post := by
  intro outcome later ended
  cases ended
  exact holds

theorem ensures_throw {post : Except Error First → State → Prop} {error : Error}
    (holds : post (.error error) state) :
    (throw error : StateAction State Error First).Ensures state post := by
  intro outcome later ended
  cases ended
  exact holds

theorem Ensures.mono {post weaker : Except Error First → State → Prop}
    (ensures : action.Ensures state post)
    (implies : ∀ outcome later, post outcome later → weaker outcome later) :
    action.Ensures state weaker :=
  fun outcome later ended => implies outcome later (ensures outcome later ended)

/-- An action after another, which fails when the first does. -/
theorem Ensures.bind {next : First → StateAction State Error Second}
    {middle : Except Error First → State → Prop} {post : Except Error Second → State → Prop}
    (ensures : action.Ensures state middle)
    (rest : ∀ result later, middle (.ok result) later → (next result).Ensures later post)
    (fails : ∀ error later, middle (.error error) later → post (.error error) later) :
    (action >>= next).Ensures state post := by
  intro outcome last ended
  rw [bind_eq] at ended
  obtain ⟨⟨first, later⟩, endedFirst, endedRest⟩ := Option.bind_eq_some_iff.mp ended
  cases first with
  | error error =>
      cases endedRest
      exact fails error last (ensures _ _ endedFirst)
  | ok result => exact rest result later (ensures _ _ endedFirst) outcome last endedRest

/-- The results of actions that keep an invariant. -/
theorem ensures_mapM {visit : First → StateAction State Error Second} {value : First → Second}
    {Invariant : State → Prop} {elems : List First}
    (visits : ∀ elem ∈ elems, ∀ state, Invariant state →
      (visit elem).Ensures state fun outcome later => outcome = .ok (value elem) ∧ Invariant later)
    (holds : Invariant state) :
    (elems.mapM visit).Ensures state fun outcome later =>
      outcome = .ok (elems.map value) ∧ Invariant later := by
  induction elems generalizing state with
  | nil => exact ensures_pure ⟨rfl, holds⟩
  | cons elem elems hypothesis =>
      rw [List.forall_mem_cons] at visits
      rw [List.mapM_cons]
      refine (visits.1 state holds).bind ?_ fun _ _ absurd => nomatch absurd.1
      rintro result later ⟨same, holdsLater⟩
      cases same
      refine (hypothesis visits.2 holdsLater).bind ?_ fun _ _ absurd => nomatch absurd.1
      rintro results last ⟨same, holdsLast⟩
      cases same
      exact ensures_pure ⟨rfl, holdsLast⟩

end Ensures

/-! ## Approximation -/

/-- The other action has every outcome of the action. -/
def Approximates (action other : StateAction State Error First) : Prop :=
  ∀ state ended, action state = some ended → other state = some ended

theorem Approximates.refl (action : StateAction State Error First) : action.Approximates action :=
  fun _ _ ended => ended

theorem never_approximates (action : StateAction State Error First) :
    (never : StateAction State Error First).Approximates action :=
  fun _ _ ended => nomatch ended

theorem Approximates.bind {action other : StateAction State Error First}
    {next nextOther : First → StateAction State Error Second}
    (first : action.Approximates other)
    (rest : ∀ result, (next result).Approximates (nextOther result)) :
    (action >>= next).Approximates (other >>= nextOther) := by
  intro state ended isEnded
  rw [bind_eq] at isEnded ⊢
  obtain ⟨⟨outcome, later⟩, endedFirst, endedRest⟩ := Option.bind_eq_some_iff.mp isEnded
  rw [first state _ endedFirst, Option.bind_some]
  cases outcome with
  | error error => exact endedRest
  | ok result => exact rest result later ended endedRest

theorem approximates_mapM {visit other : First → StateAction State Error Second}
    {elems : List First} (visits : ∀ elem ∈ elems, (visit elem).Approximates (other elem)) :
    (elems.mapM visit).Approximates (elems.mapM other) := by
  induction elems with
  | nil => exact .refl _
  | cons elem elems hypothesis =>
      rw [List.forall_mem_cons] at visits
      rw [List.mapM_cons, List.mapM_cons]
      exact visits.1.bind fun _ => (hypothesis visits.2).bind fun _ => .refl _

/-! ## Enough fuel -/

/-- With more fuel the action keeps its outcomes. -/
def Grows (family : Nat → StateAction State Error First) : Prop :=
  ∀ fuel more, fuel ≤ more → (family fuel).Approximates (family more)

/-- With enough fuel the action ends with a result. -/
def EndsIn (family : Nat → StateAction State Error First) (state : State)
    (post : First → State → Prop) : Prop :=
  ∃ fuel result later, family fuel state = some (.ok result, later) ∧ post result later

theorem endsIn_pure {result : First} {state : State} {post : First → State → Prop}
    (holds : post result state) :
    EndsIn (fun _ => (pure result : StateAction State Error First)) state post :=
  ⟨0, result, state, rfl, holds⟩

theorem grows_const (action : StateAction State Error First) : Grows fun _ => action :=
  fun _ _ _ => .refl action

theorem Grows.bind {family : Nat → StateAction State Error First}
    {next : Nat → First → StateAction State Error Second} (first : Grows family)
    (rest : ∀ result, Grows fun fuel => next fuel result) :
    Grows fun fuel => family fuel >>= next fuel :=
  fun fuel more enough => (first fuel more enough).bind fun result => rest result fuel more enough

theorem EndsIn.bind {family : Nat → StateAction State Error First}
    {next : Nat → First → StateAction State Error Second} {state : State}
    {middle : First → State → Prop} {post : Second → State → Prop} (first : Grows family)
    (rest : ∀ result, Grows fun fuel => next fuel result) (ends : EndsIn family state middle)
    (endsRest : ∀ result later, middle result later →
      EndsIn (fun fuel => next fuel result) later post) :
    EndsIn (fun fuel => family fuel >>= next fuel) state post := by
  obtain ⟨fuel, result, later, ended, holds⟩ := ends
  obtain ⟨more, second, last, endedRest, holdsRest⟩ := endsRest result later holds
  refine ⟨max fuel more, second, last, ?_, holdsRest⟩
  have endedFirst := first fuel (max fuel more) (Nat.le_max_left _ _) state _ ended
  exact (bind_of_ok endedFirst).trans (rest result more _ (Nat.le_max_right _ _) later _ endedRest)

theorem endsIn_mapM {visit : Nat → First → StateAction State Error Second}
    {Invariant : State → Prop} {elems : List First} {state : State}
    (grows : ∀ elem, Grows fun fuel => visit fuel elem)
    (ends : ∀ elem ∈ elems, ∀ state, Invariant state →
      EndsIn (fun fuel => visit fuel elem) state fun _ later => Invariant later)
    (holds : Invariant state) :
    EndsIn (fun fuel => elems.mapM (visit fuel)) state fun _ later => Invariant later := by
  induction elems generalizing state with
  | nil => exact endsIn_pure holds
  | cons elem elems hypothesis =>
      rw [List.forall_mem_cons] at ends
      simp only [List.mapM_cons]
      have growsAll : Grows fun fuel => elems.mapM (visit fuel) := fun fuel more enough =>
        approximates_mapM fun elem _ => grows elem fuel more enough
      refine EndsIn.bind (grows elem) (fun _ => growsAll.bind fun _ => grows_const _)
        (ends.1 state holds) fun _ later holdsLater => ?_
      exact EndsIn.bind growsAll (fun _ => grows_const _) (hypothesis ends.2 holdsLater)
        fun _ last holdsLast => endsIn_pure holdsLast

end StateAction

end RexLang
