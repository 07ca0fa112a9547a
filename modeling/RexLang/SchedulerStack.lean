import Mathlib.Data.List.ReduceOption
import RexLang.EvaluatorMachine

/-!
# Ready work is a stack

The ready items and the deferred ones, one after the other, are the contents of one
stack.  A limit on ready work moves the border between the two queues only.
-/

namespace RexLang

variable {Ptr : Type}

/-! ## One operation -/

namespace EvalScheduler

variable {scheduler : EvalScheduler Ptr}

@[simp]
theorem items_enforceReadyLimit (scheduler : EvalScheduler Ptr) :
    scheduler.enforceReadyLimit.items = scheduler.items := by
  rw [items, enforceReadyLimit, ← List.append_assoc, List.take_append_drop]
  rfl

@[simp]
theorem items_admitDeferredReady (scheduler : EvalScheduler Ptr) :
    scheduler.admitDeferredReady.items = scheduler.items := by
  rw [items, admitDeferredReady, List.append_assoc, List.take_append_drop]
  rfl

theorem items_scheduleNext (item : EvalWorkItem Ptr) (scheduler : EvalScheduler Ptr) :
    (scheduler.scheduleNext item).items = item :: scheduler.items := by
  rw [scheduleNext, items_enforceReadyLimit]
  rfl

theorem items_setReadyWorkLimit (limit : Nat) (scheduler : EvalScheduler Ptr) :
    (scheduler.setReadyWorkLimit limit).items = scheduler.items := by
  rw [setReadyWorkLimit, items_enforceReadyLimit]
  rfl

/-- No ready item after the deferred ones were admitted means no item at all. -/
theorem items_eq_nil_of_admitted (positive : 0 < scheduler.readyWorkLimit)
    (empty : scheduler.admitDeferredReady.ready = []) : scheduler.items = [] := by
  rw [admitDeferredReady, List.append_eq_nil_iff] at empty
  obtain ⟨noReady, noneAdmitted⟩ := empty
  rw [noReady, List.take_eq_nil_iff] at noneAdmitted
  rcases noneAdmitted with noRoom | noDeferred
  · rw [List.length_nil] at noRoom
    omega
  · rw [items, noReady, noDeferred, List.append_nil]

/-- The top of the stack is popped. -/
theorem popNext_spec (positive : 0 < scheduler.readyWorkLimit) :
    scheduler.popNext.1 = scheduler.items.head? ∧
      scheduler.popNext.2.items = scheduler.items.tail := by
  rw [popNext]
  have admitted := items_admitDeferredReady scheduler
  cases isReady : scheduler.admitDeferredReady.ready with
  | nil =>
      have noItems := items_eq_nil_of_admitted positive isReady
      simp only [items_admitDeferredReady, noItems]
      exact ⟨rfl, rfl⟩
  | cons item rest =>
      rw [items, isReady] at admitted
      simp only [items_admitDeferredReady, ← admitted]
      exact ⟨rfl, rfl⟩

theorem hasReadyWork_iff : scheduler.hasReadyWork = true ↔ scheduler.items ≠ [] := by
  rw [hasReadyWork, items, ne_eq, List.append_eq_nil_iff]
  simp
  tauto

@[simp]
theorem readyWorkLimit_scheduleNext (item : EvalWorkItem Ptr) (scheduler : EvalScheduler Ptr) :
    (scheduler.scheduleNext item).readyWorkLimit = scheduler.readyWorkLimit := rfl

@[simp]
theorem readyWorkLimit_popNext (scheduler : EvalScheduler Ptr) :
    scheduler.popNext.2.readyWorkLimit = scheduler.readyWorkLimit := by
  rw [popNext]
  cases scheduler.admitDeferredReady.ready with
  | nil => rfl
  | cons item rest => rfl

theorem readyWorkLimit_setReadyWorkLimit (limit : Nat) (scheduler : EvalScheduler Ptr) :
    (scheduler.setReadyWorkLimit limit).readyWorkLimit = max limit 1 := rfl

end EvalScheduler

/-! ## Sequences of operations -/

inductive SchedulerCall (Ptr : Type) where
  | scheduleNext (item : EvalWorkItem Ptr)
  | popNext
  | setReadyWorkLimit (limit : Nat)

namespace EvalScheduler

/-- The items that the calls return, in their order, and the scheduler after them.  A
call of `pop_next` without an item returns none. -/
def perform : List (SchedulerCall Ptr) → EvalScheduler Ptr →
    List (Option (EvalWorkItem Ptr)) × EvalScheduler Ptr
  | [], scheduler => ([], scheduler)
  | .scheduleNext item :: calls, scheduler => perform calls (scheduler.scheduleNext item)
  | .popNext :: calls, scheduler =>
      let (item, scheduler) := scheduler.popNext
      let (returned, scheduler) := perform calls scheduler
      (item :: returned, scheduler)
  | .setReadyWorkLimit limit :: calls, scheduler =>
      perform calls (scheduler.setReadyWorkLimit limit)

end EvalScheduler

/-- The same calls on a plain stack, for which a limit means nothing. -/
def performStack : List (SchedulerCall Ptr) → List (EvalWorkItem Ptr) →
    List (Option (EvalWorkItem Ptr)) × List (EvalWorkItem Ptr)
  | [], stack => ([], stack)
  | .scheduleNext item :: calls, stack => performStack calls (item :: stack)
  | .popNext :: calls, stack =>
      let (returned, left) := performStack calls stack.tail
      (stack.head? :: returned, left)
  | .setReadyWorkLimit _ :: calls, stack => performStack calls stack

/-- The items that the calls schedule, the last one first. -/
def scheduledItems : List (SchedulerCall Ptr) → List (EvalWorkItem Ptr)
  | [] => []
  | .scheduleNext item :: calls => scheduledItems calls ++ [item]
  | _ :: calls => scheduledItems calls

/-- A change of the limit, or a pop. -/
def drainCall : Option Nat → SchedulerCall Ptr
  | some limit => .setReadyWorkLimit limit
  | none => .popNext

/-- The calls do to the two queues what they do to the stack. -/
theorem EvalScheduler.perform_eq_performStack {scheduler : EvalScheduler Ptr}
    (positive : 0 < scheduler.readyWorkLimit) (calls : List (SchedulerCall Ptr)) :
    (scheduler.perform calls).1 = (performStack calls scheduler.items).1 ∧
      (scheduler.perform calls).2.items = (performStack calls scheduler.items).2 ∧
        0 < (scheduler.perform calls).2.readyWorkLimit := by
  induction calls generalizing scheduler with
  | nil => exact ⟨rfl, rfl, positive⟩
  | cons call calls hypothesis =>
      cases call with
      | scheduleNext item =>
          have rest := @hypothesis (scheduler.scheduleNext item) (by simpa using positive)
          rw [items_scheduleNext] at rest
          exact rest
      | popNext =>
          obtain ⟨returned, left⟩ := popNext_spec positive
          have rest := @hypothesis scheduler.popNext.2 (by simpa using positive)
          rw [left] at rest
          exact ⟨congrArg₂ List.cons returned rest.1, rest.2⟩
      | setReadyWorkLimit limit =>
          have kept : 0 < (scheduler.setReadyWorkLimit limit).readyWorkLimit := by
            rw [readyWorkLimit_setReadyWorkLimit]
            omega
          have rest := hypothesis kept
          rw [items_setReadyWorkLimit] at rest
          exact rest

/-- What was scheduled was returned or is still on the stack, each item once. -/
theorem performStack_perm (calls : List (SchedulerCall Ptr)) (stack : List (EvalWorkItem Ptr)) :
    ((performStack calls stack).1.reduceOption ++ (performStack calls stack).2).Perm
      (scheduledItems calls ++ stack) := by
  induction calls generalizing stack with
  | nil => exact .refl _
  | cons call calls hypothesis =>
      cases call with
      | scheduleNext item =>
          refine (hypothesis (item :: stack)).trans ?_
          rw [scheduledItems, List.append_assoc, List.singleton_append]
      | setReadyWorkLimit limit => exact hypothesis stack
      | popNext =>
          cases stack with
          | nil => exact hypothesis []
          | cons item stack =>
              refine ((hypothesis stack).cons item).trans ?_
              exact List.perm_middle.symm

/-- Pops without new work return the stack from its top. -/
theorem performStack_drain (later : List (Option Nat)) (stack : List (EvalWorkItem Ptr)) :
    (performStack (later.map drainCall) stack).1.reduceOption = stack.take (later.count none) := by
  induction later generalizing stack with
  | nil => simp [performStack, List.reduceOption]
  | cons call later hypothesis =>
      cases call with
      | some limit =>
          rw [List.count_cons_of_ne (by simp)]
          exact hypothesis stack
      | none =>
          rw [List.count_cons_self]
          cases stack with
          | nil =>
              have rest := hypothesis []
              rw [List.take_nil] at rest ⊢
              exact rest
          | cons item stack => exact congrArg (item :: ·) (hypothesis stack)

/-- The scheduler is one stack: whatever the limits are, it returns and keeps what the
stack does, has work exactly when the stack is not empty, and loses, duplicates and
starves nothing. -/
theorem evalScheduler_is_stack (root : FrameId) (limit : Nat) (calls : List (SchedulerCall Ptr)) :
    let run := (EvalScheduler.new root limit : EvalScheduler Ptr).perform calls
    let onStack := performStack calls [.enter root]
    run.1 = onStack.1 ∧ run.2.items = onStack.2 ∧ (run.2.hasReadyWork = true ↔ onStack.2 ≠ []) ∧
      (run.1.reduceOption ++ run.2.items).Perm (scheduledItems calls ++ [.enter root]) ∧
      ∀ later : List (Option Nat),
        (run.2.perform (later.map drainCall)).1.reduceOption =
          onStack.2.take (later.count none) := by
  intro run onStack
  have positive : 0 < (EvalScheduler.new root limit : EvalScheduler Ptr).readyWorkLimit := by
    change 0 < max limit 1
    omega
  obtain ⟨returned, left, kept⟩ := EvalScheduler.perform_eq_performStack positive calls
  refine ⟨returned, left, ?_, ?_, fun later => ?_⟩
  · rw [EvalScheduler.hasReadyWork_iff, left]
    exact Iff.rfl
  · rw [returned, left]
    exact performStack_perm calls _
  · rw [(EvalScheduler.perform_eq_performStack kept _).1, left]
    exact performStack_drain later _

end RexLang
