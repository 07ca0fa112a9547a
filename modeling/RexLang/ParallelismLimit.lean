import Mathlib.Logic.Function.Basic
import RexLang.TransitionSystem

/-!
# The shared parallelism limit

`FixedParallelismController` hands out at most a fixed number of permits.  An
evaluator that finds no permit stores its waker in the one slot of the
controller, and a permit that is released wakes the waker it finds there.  The
atomic steps of the evaluators and of the releases are interleaved freely.
-/

namespace RexLang

namespace ParallelismLimit

/-- Where an evaluator is in `poll_acquire_native_async`. -/
inductive PollState where
  /-- Not polling: never started, or answered with a permit. -/
  | outside
  /-- At the top of the loop. -/
  | looping
  /-- After the load of the number of active calls. -/
  | loaded (active : Nat)
  /-- Answered with `Poll::Pending`. -/
  | pending
deriving DecidableEq

structure State (Evaluator : Type) where
  /-- `active_native_async`. -/
  active : Nat
  /-- The slot for a waker. -/
  waker : Option Evaluator
  poll : Evaluator → PollState
  /-- The evaluators whose waker was called since their last poll began. -/
  woken : Evaluator → Bool
  /-- The permits that were handed out and whose release has not begun. -/
  held : Nat
  /-- The releases that have decremented and not yet looked at the slot. -/
  releasing : Nat

def initial (Evaluator : Type) : State Evaluator :=
  ⟨0, none, fun _ => .outside, fun _ => false, 0, 0⟩

inductive Action (Evaluator : Type) where
  | startPoll (evaluator : Evaluator)
  | load (evaluator : Evaluator)
  | storeWaker (evaluator : Evaluator)
  | compareExchange (evaluator : Evaluator)
  | releaseDecrement
  | releaseWake

section WakeUps

variable {Evaluator : Type}

/-- Answered with `Poll::Pending` and not woken since. -/
def State.Waiting (state : State Evaluator) (evaluator : Evaluator) : Prop :=
  state.poll evaluator = .pending ∧ state.woken evaluator = false

/-- An evaluator waits, and nothing is left that could wake it. -/
def State.LostWakeup (state : State Evaluator) : Prop :=
  (∃ evaluator, state.Waiting evaluator) ∧ state.held = 0 ∧ state.releasing = 0

/-- The step does not store a waker after every release is over, unless the
evaluator is woken already, and does not overwrite the waker of another
evaluator that waits. -/
def KeepsWakers (state : State Evaluator) : Action Evaluator → Prop
  | .storeWaker evaluator =>
      (0 < state.held ∨ 0 < state.releasing ∨ state.woken evaluator = true) ∧
        ∀ other, state.waker = some other → other ≠ evaluator → ¬ state.Waiting other
  | _ => True

/-- An evaluator that waits is in the slot, and a release will come. -/
structure Awaited (state : State Evaluator) : Prop where
  waker_eq : ∀ evaluator, state.Waiting evaluator → state.waker = some evaluator
  release_comes : ∀ evaluator, state.Waiting evaluator → 0 < state.held ∨ 0 < state.releasing

theorem not_lostWakeup_of_awaited {state : State Evaluator} (awaited : Awaited state) :
    ¬ state.LostWakeup := by
  rintro ⟨⟨evaluator, waiting⟩, noneHeld, noneReleasing⟩
  have comes := awaited.release_comes evaluator waiting
  omega

end WakeUps

/-! ## The atomic steps -/

variable {Evaluator : Type} [DecidableEq Evaluator]

def State.setPoll (state : State Evaluator) (evaluator : Evaluator) (poll : PollState) :
    State Evaluator :=
  { state with poll := Function.update state.poll evaluator poll }

/-- The atomic steps of `poll_acquire_native_async` and of the release of a
permit. -/
def step (maxPendingAsyncCalls : Nat) (state : State Evaluator) :
    Action Evaluator → Option (State Evaluator)
  | .startPoll evaluator =>
      if state.poll evaluator = .outside ∨ state.poll evaluator = .pending then
        some { state.setPoll evaluator .looping with
          woken := Function.update state.woken evaluator false }
      else none
  | .load evaluator =>
      if state.poll evaluator = .looping then
        some (state.setPoll evaluator (.loaded state.active))
      else none
  | .storeWaker evaluator =>
      match state.poll evaluator with
      | .loaded active =>
          if maxPendingAsyncCalls ≤ active then
            some { state.setPoll evaluator .pending with waker := some evaluator }
          else none
      | _ => none
  | .compareExchange evaluator =>
      match state.poll evaluator with
      | .loaded active =>
          if active < maxPendingAsyncCalls then
            if state.active = active then
              some { state.setPoll evaluator .outside with
                active := active + 1, held := state.held + 1 }
            else some (state.setPoll evaluator .looping)
          else none
      | _ => none
  | .releaseDecrement =>
      if 0 < state.held then
        some { state with
          active := state.active - 1, held := state.held - 1, releasing := state.releasing + 1 }
      else none
  | .releaseWake =>
      if 0 < state.releasing then
        some { state with
          waker := none, releasing := state.releasing - 1,
          woken := fun evaluator => state.woken evaluator || decide (state.waker = some evaluator) }
      else none

abbrev Run (maxPendingAsyncCalls : Nat) (actions : List (Action Evaluator))
    (final : State Evaluator) : Prop :=
  TransitionSystem.run (step maxPendingAsyncCalls) actions (initial Evaluator) = some final

/-- What each atomic step does. -/
theorem step_cases {limit : Nat} {state next : State Evaluator} {action : Action Evaluator}
    (taken : step limit state action = some next) :
    (∃ evaluator, action = .startPoll evaluator ∧
      next = { state.setPoll evaluator .looping with
        woken := Function.update state.woken evaluator false }) ∨
    (∃ evaluator, action = .load evaluator ∧
      next = state.setPoll evaluator (.loaded state.active)) ∨
    (∃ evaluator active, action = .storeWaker evaluator ∧ state.poll evaluator = .loaded active ∧
      limit ≤ active ∧ next = { state.setPoll evaluator .pending with waker := some evaluator }) ∨
    (∃ evaluator, action = .compareExchange evaluator ∧ state.active < limit ∧
      next = { state.setPoll evaluator .outside with
        active := state.active + 1, held := state.held + 1 }) ∨
    (∃ evaluator, action = .compareExchange evaluator ∧
      next = state.setPoll evaluator .looping) ∨
    (action = .releaseDecrement ∧ 0 < state.held ∧
      next = { state with
        active := state.active - 1, held := state.held - 1, releasing := state.releasing + 1 }) ∨
    (action = .releaseWake ∧ 0 < state.releasing ∧
      next = { state with
        waker := none, releasing := state.releasing - 1,
        woken := fun evaluator =>
          state.woken evaluator || decide (state.waker = some evaluator) }) := by
  cases action with
  | startPoll evaluator =>
      rw [step, Option.ite_none_right_eq_some, Option.some.injEq] at taken
      exact .inl ⟨evaluator, rfl, taken.2.symm⟩
  | load evaluator =>
      rw [step, Option.ite_none_right_eq_some, Option.some.injEq] at taken
      exact .inr (.inl ⟨evaluator, rfl, taken.2.symm⟩)
  | storeWaker evaluator =>
      simp only [step] at taken
      split at taken
      · next active loaded =>
          rw [Option.ite_none_right_eq_some, Option.some.injEq] at taken
          exact .inr (.inr (.inl ⟨evaluator, active, rfl, loaded, taken.1, taken.2.symm⟩))
      · cases taken
  | compareExchange evaluator =>
      simp only [step] at taken
      split at taken
      · next active loaded =>
          rw [Option.ite_none_right_eq_some] at taken
          obtain ⟨below, taken⟩ := taken
          split at taken
          · next same =>
              cases taken
              subst same
              exact .inr (.inr (.inr (.inl ⟨evaluator, rfl, below, rfl⟩)))
          · cases taken
            exact .inr (.inr (.inr (.inr (.inl ⟨evaluator, rfl, rfl⟩))))
      · cases taken
  | releaseDecrement =>
      rw [step, Option.ite_none_right_eq_some, Option.some.injEq] at taken
      exact .inr (.inr (.inr (.inr (.inr (.inl ⟨rfl, taken.1, taken.2.symm⟩)))))
  | releaseWake =>
      rw [step, Option.ite_none_right_eq_some, Option.some.injEq] at taken
      exact .inr (.inr (.inr (.inr (.inr (.inr ⟨rfl, taken.1, taken.2.symm⟩)))))

/-! ## The limit -/

/-- The counter is the number of permits held, and does not exceed the limit. -/
structure Bounded (limit : Nat) (state : State Evaluator) : Prop where
  active_eq : state.active = state.held
  active_le : state.active ≤ limit

theorem bounded_step {limit : Nat} {state next : State Evaluator} {action : Action Evaluator}
    (bounded : Bounded limit state) (taken : step limit state action = some next) :
    Bounded limit next := by
  obtain ⟨activeEq, activeLe⟩ := bounded
  obtain ⟨_, -, rfl⟩ | ⟨_, -, rfl⟩ | ⟨_, _, -, -, -, rfl⟩ | ⟨_, -, below, rfl⟩ | ⟨_, -, rfl⟩ |
    ⟨-, positive, rfl⟩ | ⟨-, positive, rfl⟩ := step_cases taken
  · exact ⟨activeEq, activeLe⟩
  · exact ⟨activeEq, activeLe⟩
  · exact ⟨activeEq, activeLe⟩
  · exact ⟨by simp only [activeEq], below⟩
  · exact ⟨activeEq, activeLe⟩
  · constructor
    · simp only [activeEq]
    · exact Nat.le_trans (Nat.sub_le _ _) activeLe
  · exact ⟨activeEq, activeLe⟩

theorem bounded_of_run {limit : Nat} {actions : List (Action Evaluator)} {final : State Evaluator}
    (ran : Run limit actions final) : Bounded limit final :=
  TransitionSystem.invariant_of_run' (fun _ _ _ => bounded_step) ⟨rfl, Nat.zero_le _⟩ ran

/-! ## Lost wake-ups -/

/-- A step to another point of the poll that is not the end of it leaves only
evaluators waiting that waited before. -/
theorem waiting_of_waiting_setPoll {state : State Evaluator} {moved : Evaluator}
    {poll : PollState} (notPending : poll ≠ .pending) (evaluator : Evaluator)
    (waiting : (state.setPoll moved poll).Waiting evaluator) : state.Waiting evaluator := by
  obtain ⟨isPending, notWoken⟩ := waiting
  by_cases same : evaluator = moved
  · subst same
    simp only [State.setPoll, Function.update_self] at isPending
    exact absurd isPending notPending
  · simp only [State.setPoll, Function.update_of_ne same] at isPending
    exact ⟨isPending, notWoken⟩

theorem awaited_step {limit : Nat} {state next : State Evaluator} {action : Action Evaluator}
    (awaited : Awaited state) (keeps : KeepsWakers state action)
    (taken : step limit state action = some next) : Awaited next := by
  obtain ⟨moved, -, rfl⟩ | ⟨moved, -, rfl⟩ | ⟨moved, _, rfl, -, -, rfl⟩ | ⟨moved, -, -, rfl⟩ |
    ⟨moved, -, rfl⟩ | ⟨-, positive, rfl⟩ | ⟨-, positive, rfl⟩ := step_cases taken
  · have waitedBefore : ∀ evaluator, State.Waiting { state.setPoll moved .looping with
        woken := Function.update state.woken moved false } evaluator →
        state.Waiting evaluator := by
      rintro evaluator ⟨isPending, notWoken⟩
      by_cases same : evaluator = moved
      · subst same
        simp [State.setPoll] at isPending
      · simp only [State.setPoll, Function.update_of_ne same] at isPending notWoken
        exact ⟨isPending, notWoken⟩
    exact ⟨fun evaluator waiting => awaited.waker_eq _ (waitedBefore _ waiting),
      fun evaluator waiting => awaited.release_comes _ (waitedBefore _ waiting)⟩
  · have waitedBefore : ∀ evaluator, (state.setPoll moved (.loaded state.active)).Waiting evaluator →
        state.Waiting evaluator := waiting_of_waiting_setPoll (by simp)
    exact ⟨fun evaluator waiting => awaited.waker_eq _ (waitedBefore _ waiting),
      fun evaluator waiting => awaited.release_comes _ (waitedBefore _ waiting)⟩
  · -- Only the evaluator that stores its waker waits afterwards.
    obtain ⟨comes, overwritten⟩ := keeps
    have isMoved : ∀ evaluator, State.Waiting { state.setPoll moved .pending with
        waker := some moved } evaluator → evaluator = moved := by
      rintro evaluator ⟨isPending, notWoken⟩
      by_contra different
      simp only [State.setPoll, Function.update_of_ne different] at isPending notWoken
      have waiting : state.Waiting evaluator := ⟨isPending, notWoken⟩
      exact overwritten evaluator (awaited.waker_eq _ waiting) different waiting
    constructor
    · intro evaluator waiting
      rw [isMoved evaluator waiting]
    · intro evaluator waiting
      have notWoken : state.woken moved = false := isMoved evaluator waiting ▸ waiting.2
      simpa [notWoken, State.setPoll] using comes
  · have waitedBefore : ∀ evaluator, State.Waiting { state.setPoll moved .outside with
        active := state.active + 1, held := state.held + 1 } evaluator → state.Waiting evaluator := by
      intro evaluator waiting
      have inPoll : (state.setPoll moved .outside).Waiting evaluator := waiting
      exact waiting_of_waiting_setPoll (by simp) evaluator inPoll
    exact ⟨fun evaluator waiting => awaited.waker_eq _ (waitedBefore _ waiting),
      fun evaluator waiting => .inl (Nat.succ_pos _)⟩
  · have waitedBefore : ∀ evaluator, (state.setPoll moved .looping).Waiting evaluator →
        state.Waiting evaluator := waiting_of_waiting_setPoll (by simp)
    exact ⟨fun evaluator waiting => awaited.waker_eq _ (waitedBefore _ waiting),
      fun evaluator waiting => awaited.release_comes _ (waitedBefore _ waiting)⟩
  · exact ⟨fun evaluator waiting => awaited.waker_eq _ waiting,
      fun evaluator waiting => .inr (Nat.succ_pos _)⟩
  · -- The evaluator in the slot is woken, and no other waited.
    have noneWaits : ∀ evaluator, ¬ State.Waiting { state with
        waker := none, releasing := state.releasing - 1,
        woken := fun evaluator =>
          state.woken evaluator || decide (state.waker = some evaluator) } evaluator := by
      rintro evaluator ⟨isPending, notWoken⟩
      simp only [Bool.or_eq_false_iff, decide_eq_false_iff_not] at notWoken
      exact notWoken.2 (awaited.waker_eq _ ⟨isPending, notWoken.1⟩)
    exact ⟨fun evaluator waiting => (noneWaits _ waiting).elim,
      fun evaluator waiting => (noneWaits _ waiting).elim⟩

omit [DecidableEq Evaluator] in
theorem awaited_initial : Awaited (initial Evaluator) := by
  constructor <;> rintro evaluator ⟨isPending, -⟩ <;> cases isPending

/-- Once its waker is gone, an evaluator is not woken by the releases that are
left. -/
theorem exists_lostWakeup_of_waker_ne (limit : Nat) {state : State Evaluator}
    {evaluator : Evaluator} (waiting : state.Waiting evaluator)
    (gone : state.waker ≠ some evaluator) :
    ∃ releases final, TransitionSystem.run (step limit) releases state = some final ∧
      final.LostWakeup := by
  induction left : 2 * state.held + state.releasing using Nat.strongRecOn generalizing state with
  | ind left hypothesis =>
      subst left
      by_cases someHeld : 0 < state.held
      · have taken : step limit state .releaseDecrement = some { state with
            active := state.active - 1, held := state.held - 1,
            releasing := state.releasing + 1 } := if_pos someHeld
        have stillWaiting : State.Waiting { state with
            active := state.active - 1, held := state.held - 1,
            releasing := state.releasing + 1 } evaluator := waiting
        obtain ⟨releases, final, ran, lost⟩ := hypothesis
          (2 * (state.held - 1) + (state.releasing + 1)) (by omega) stillWaiting gone rfl
        exact ⟨.releaseDecrement :: releases, final,
          TransitionSystem.run_cons.mpr ⟨_, taken, ran⟩, lost⟩
      · by_cases someReleasing : 0 < state.releasing
        · have taken : step limit state .releaseWake = some { state with
              waker := none, releasing := state.releasing - 1,
              woken := fun evaluator =>
                state.woken evaluator || decide (state.waker = some evaluator) } :=
            if_pos someReleasing
          have stillWaiting : State.Waiting { state with
              waker := none, releasing := state.releasing - 1,
              woken := fun evaluator =>
                state.woken evaluator || decide (state.waker = some evaluator) } evaluator :=
            ⟨waiting.1, by simp [waiting.2, gone]⟩
          obtain ⟨releases, final, ran, lost⟩ := hypothesis
            (2 * state.held + (state.releasing - 1)) (by omega) stillWaiting (by simp) rfl
          exact ⟨.releaseWake :: releases, final,
            TransitionSystem.run_cons.mpr ⟨_, taken, ran⟩, lost⟩
        · exact ⟨[], state, rfl, ⟨evaluator, waiting⟩, by omega, by omega⟩

/-- A step that does not keep the wakers can lose a wake-up for good. -/
theorem exists_lostWakeup_of_not_keepsWakers {limit : Nat} {state next : State Evaluator}
    {action : Action Evaluator} (taken : step limit state action = some next)
    (loses : ¬ KeepsWakers state action) :
    ∃ releases final, TransitionSystem.run (step limit) releases next = some final ∧
      final.LostWakeup := by
  obtain ⟨_, rfl, -⟩ | ⟨_, rfl, -⟩ | ⟨moved, _, rfl, loaded, -, rfl⟩ | ⟨_, rfl, -⟩ | ⟨_, rfl, -⟩ |
    ⟨rfl, -⟩ | ⟨rfl, -⟩ := step_cases taken
  · exact absurd trivial loses
  · exact absurd trivial loses
  · simp only [KeepsWakers, not_and_or, not_or, not_forall, not_not, Bool.not_eq_true] at loses
    obtain ⟨noneHeld, noneReleasing, notWoken⟩ | ⟨other, inSlot, different, waiting⟩ := loses
    · refine ⟨[], _, rfl, ⟨moved, ?_, notWoken⟩, by simp only [State.setPoll]; omega, ?_⟩
      · simp [State.setPoll]
      · simp only [State.setPoll]
        omega
    · have stillWaiting : State.Waiting { state.setPoll moved .pending with
          waker := some moved } other :=
        ⟨by simpa only [State.setPoll, Function.update_of_ne different] using waiting.1, waiting.2⟩
      refine exists_lostWakeup_of_waker_ne limit stillWaiting ?_
      simpa using fun same => different same.symm
  · exact absurd trivial loses
  · exact absurd trivial loses
  · exact absurd trivial loses
  · exact absurd trivial loses

/-- The limit is kept in every run.  A wake-up is lost in no run whose steps keep
the wakers, and after every other step it can be. -/
theorem held_le_and_lostWakeup_iff {limit : Nat}
    {actions : List (Action Evaluator)} {state : State Evaluator} (ran : Run limit actions state) :
    state.held ≤ limit ∧
      (TransitionSystem.Meets (step limit) KeepsWakers actions (initial Evaluator) →
        ¬ state.LostWakeup) ∧
      ∀ action next, step limit state action = some next → ¬ KeepsWakers state action →
        ∃ releases final, TransitionSystem.run (step limit) releases next = some final ∧
          final.LostWakeup := by
  have bounded := bounded_of_run ran
  refine ⟨bounded.active_eq ▸ bounded.active_le, ?_, ?_⟩
  · intro meets
    exact not_lostWakeup_of_awaited (TransitionSystem.invariant_of_run
      (fun _ _ _ => awaited_step) awaited_initial meets ran)
  · exact fun _ _ => exists_lostWakeup_of_not_keepsWakers

/-- The one permit is held by evaluator `0` and released while evaluator `1` is
between its load and the store of its waker. -/
abbrev lateWaker : List (Action Nat) :=
  [.startPoll 0, .load 0, .compareExchange 0, .startPoll 1, .load 1,
    .releaseDecrement, .releaseWake, .storeWaker 1]

/-- Before the last step of `lateWaker` no wake-up is lost. -/
theorem held_le_and_not_lostWakeup_lateWaker :
    ∃ state, Run 1 (lateWaker.take 7) state ∧ state.held ≤ 1 ∧ ¬ state.LostWakeup := by
  have ran : ∃ state, Run 1 (lateWaker.take 7) state := ⟨_, rfl⟩
  obtain ⟨state, ran⟩ := ran
  obtain ⟨limited, kept, -⟩ := held_le_and_lostWakeup_iff ran
  refine ⟨state, ran, limited, kept ?_⟩
  simp [lateWaker, TransitionSystem.Meets, KeepsWakers]

theorem lostWakeup_lateWaker :
    ¬ ∀ (actions : List (Action Nat)) (state : State Nat), Run 1 actions state →
      state.held ≤ 1 ∧ ¬ state.LostWakeup := by
  intro holds
  refine (holds lateWaker _ rfl).2 ⟨⟨1, ?_, ?_⟩, ?_, ?_⟩ <;> decide

end ParallelismLimit

end RexLang
