import Mathlib.Data.List.Forall2

/-!
# Computations that may fail and keep a log

A computation answers a result or a failure, and records messages either way.
One computation refines another when it repeats every success of the other.
Functions that call the recursion they are part of through a parameter refine
when the parameter does, which is how a larger bound on the recursion repeats
the successes of a smaller one.
-/

namespace RexLang

/-- A result or a failure, with the messages recorded on the way. -/
structure Logged (Message Failure Result : Type) where
  outcome : Except Failure Result
  log : List Message

namespace Logged

variable {Message Failure First Second : Type}

def fail (failure : Failure) : Logged Message Failure First :=
  ⟨.error failure, []⟩

def record (message : Message) : Logged Message Failure Unit :=
  ⟨.ok (), [message]⟩

instance : Monad (Logged Message Failure) where
  pure result := ⟨.ok result, []⟩
  bind computation next :=
    match computation.outcome with
    | .error failure => ⟨.error failure, computation.log⟩
    | .ok result => ⟨(next result).outcome, computation.log ++ (next result).log⟩

instance : MonadLift (Except Failure) (Logged Message Failure) where
  monadLift outcome := ⟨outcome, []⟩

theorem bind_of_error {computation : Logged Message Failure First} {failure : Failure}
    (failed : computation.outcome = .error failure)
    (next : First → Logged Message Failure Second) :
    computation >>= next = ⟨.error failure, computation.log⟩ := by
  change (match computation.outcome with | .error _ => _ | .ok _ => _) = _
  rw [failed]

theorem bind_of_ok {computation : Logged Message Failure First} {result : First}
    (succeeded : computation.outcome = .ok result)
    (next : First → Logged Message Failure Second) :
    computation >>= next = ⟨(next result).outcome, computation.log ++ (next result).log⟩ := by
  change (match computation.outcome with | .error _ => _ | .ok _ => _) = _
  rw [succeeded]

instance : LawfulMonad (Logged Message Failure) := by
  refine LawfulMonad.mk' _ ?_ ?_ ?_
  · rintro _ ⟨outcome, log⟩
    cases outcome with
    | error failure => rfl
    | ok result => exact congrArg (Logged.mk _) (List.append_nil log)
  · exact fun _ _ => rfl
  · rintro _ _ _ ⟨outcome, log⟩ next after
    cases outcome with
    | error failure => rfl
    | ok result =>
        dsimp only [bind]
        generalize next result = second
        rcases second with ⟨failure | second, rest⟩
        · rfl
        · exact congrArg (Logged.mk _) (List.append_assoc log rest _)

@[simp]
theorem outcome_pure (result : First) :
    (pure result : Logged Message Failure First).outcome = .ok result := rfl

@[simp]
theorem outcome_fail (failure : Failure) :
    (fail failure : Logged Message Failure First).outcome = .error failure := rfl

@[simp]
theorem outcome_lift (outcome : Except Failure First) :
    (liftM outcome : Logged Message Failure First).outcome = outcome := rfl

theorem outcome_bind_eq_ok {computation : Logged Message Failure First}
    {next : First → Logged Message Failure Second} {result : Second} :
    (computation >>= next).outcome = .ok result ↔
      ∃ first, computation.outcome = .ok first ∧ (next first).outcome = .ok result := by
  rcases answer : computation.outcome with failure | first
  · simp [bind_of_error answer]
  · simp [bind_of_ok answer]

/-- A loop that succeeds answers one result for each element. -/
theorem outcome_mapM_eq_ok {Element : Type} {build : Element → Logged Message Failure First}
    {elements : List Element} {results : List First} :
    (elements.mapM build).outcome = .ok results ↔
      List.Forall₂ (fun element result => (build element).outcome = .ok result) elements
        results := by
  induction elements generalizing results with
  | nil => simp [eq_comm]
  | cons element elements hypothesis =>
      rw [List.mapM_cons, outcome_bind_eq_ok, List.forall₂_cons_left_iff]
      constructor
      · rintro ⟨first, answer, rest⟩
        obtain ⟨others, answers, rest⟩ := outcome_bind_eq_ok.1 rest
        cases rest
        exact ⟨first, others, answer, hypothesis.mp answers, rfl⟩
      · rintro ⟨first, others, answer, answers, rfl⟩
        exact ⟨first, answer, outcome_bind_eq_ok.2 ⟨others, hypothesis.mpr answers, rfl⟩⟩

/-- A loop that builds each element and combines it at once, against building all
elements first. -/
theorem foldlM_eq_mapM_foldl {Element State Built : Type}
    (build : Element → Logged Message Failure Built) (combine : State → Built → State)
    (elements : List Element) (state : State) :
    elements.foldlM (fun state element => do
        let built ← build element
        return combine state built) state =
      (do
        let built ← elements.mapM build
        return built.foldl combine state) := by
  induction elements generalizing state with
  | nil => simp
  | cons element elements hypothesis =>
      simp only [List.foldlM_cons, List.mapM_cons, hypothesis, bind_assoc, pure_bind,
        List.foldl_cons]

/-! ## Refinement -/

section Refinement

variable {View OtherView : Type} {view : First → View} {otherView : Second → OtherView}

/-- Whenever the first computation succeeds, so does the second, and the results
look the same. -/
def Refines (view : First → View) (first second : Logged Message Failure First) : Prop :=
  ∀ result, first.outcome = .ok result →
    ∃ other, second.outcome = .ok other ∧ view other = view result

theorem refines_refl (computation : Logged Message Failure First) :
    Refines view computation computation := fun result succeeded => ⟨result, succeeded, rfl⟩

theorem refines_fail (failure : Failure) (second : Logged Message Failure First) :
    Refines view (fail failure) second := by
  intro result succeeded
  cases succeeded

theorem refines_pure {first second : First} (same : view second = view first) :
    Refines view (pure first : Logged Message Failure First) (pure second) := by
  rintro result ⟨⟩
  exact ⟨second, rfl, same⟩

theorem refines_bind {first second : Logged Message Failure First}
    {nextFirst nextSecond : First → Logged Message Failure Second}
    (refines : Refines view first second)
    (next : ∀ result other, view other = view result →
      Refines otherView (nextFirst result) (nextSecond other)) :
    Refines otherView (first >>= nextFirst) (second >>= nextSecond) := by
  intro final succeeded
  obtain ⟨result, answer, rest⟩ := outcome_bind_eq_ok.1 succeeded
  obtain ⟨other, otherAnswer, same⟩ := refines result answer
  obtain ⟨otherFinal, otherRest, sameFinal⟩ := next result other same final rest
  exact ⟨otherFinal, outcome_bind_eq_ok.2 ⟨other, otherAnswer, otherRest⟩, sameFinal⟩

/-- A step that both computations share. -/
theorem refines_bind_same {computation : Logged Message Failure First}
    {nextFirst nextSecond : First → Logged Message Failure Second}
    (next : ∀ result, computation.outcome = .ok result →
      Refines otherView (nextFirst result) (nextSecond result)) :
    Refines otherView (computation >>= nextFirst) (computation >>= nextSecond) := by
  intro final succeeded
  obtain ⟨result, answer, rest⟩ := outcome_bind_eq_ok.1 succeeded
  obtain ⟨otherFinal, otherRest, sameFinal⟩ := next result answer final rest
  exact ⟨otherFinal, outcome_bind_eq_ok.2 ⟨result, answer, otherRest⟩, sameFinal⟩

theorem refines_mapM {Element : Type} {buildFirst buildSecond : Element → Logged Message Failure First}
    {elements : List Element}
    (refines : ∀ element ∈ elements, Refines view (buildFirst element) (buildSecond element)) :
    Refines (List.map view) (elements.mapM buildFirst) (elements.mapM buildSecond) := by
  induction elements with
  | nil => exact refines_refl _
  | cons element elements hypothesis =>
      rw [List.mapM_cons, List.mapM_cons]
      apply refines_bind (refines element (.head _))
      intro first second same
      apply refines_bind (hypothesis fun other member => refines other (.tail _ member))
      intro rest others sameRest
      apply refines_pure
      rw [List.map_cons, List.map_cons, same, sameRest]

theorem refines_foldlM {Element : Type}
    {stepFirst stepSecond : First → Element → Logged Message Failure First}
    {elements : List Element}
    (refines : ∀ element ∈ elements, ∀ result other, view other = view result →
      Refines view (stepFirst result element) (stepSecond other element))
    {first second : First} (same : view second = view first) :
    Refines view (elements.foldlM stepFirst first) (elements.foldlM stepSecond second) := by
  induction elements generalizing first second with
  | nil => exact refines_pure same
  | cons element elements hypothesis =>
      rw [List.foldlM_cons, List.foldlM_cons]
      apply refines_bind (refines element (.head _) first second same)
      intro result other sameResult
      exact hypothesis (fun element member => refines element (.tail _ member)) sameResult

end Refinement

end Logged

end RexLang
