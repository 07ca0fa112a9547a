import Mathlib.Data.List.Nodup
import RexLang.TransitionSystem

/-!
# Host calls

`HostScheduler` queues the host calls of an evaluation, admits deferred calls
when the parallelism controller grants a permit, and polls the calls that run.
What the controller, the invoked callbacks and the futures answer is supplied
from outside, so a run is any interleaving of schedulings, grants, completions
and failures.

Calls carry a serial number and the scheduler a history; no function reads
them.
-/

namespace RexLang

/-- `std::task::Poll`. -/
inductive Poll (Result : Type) where
  | ready (result : Result)
  | pending
deriving DecidableEq

abbrev FrameId := Nat

/-- The errors that are told apart here: those of the scheduler, and those that
the controller, the callbacks and the futures raise. -/
inductive EngineError (Raised : Type) where
  | internal (message : String)
  | raised (error : Raised)
deriving DecidableEq

inductive NativeCallScheduling where
  | immediate
  | deferred
deriving DecidableEq

/-- A permit; `released` is recorded where it is dropped. -/
structure NativeAsyncPermit where
deriving DecidableEq

inductive HostEvent (Completion Raised : Type) where
  | scheduled (serial : Nat) (frame : FrameId) (scheduling : NativeCallScheduling)
  /-- A permit was acquired for the call. -/
  | granted (serial : Nat)
  | invoked (serial : Nat) (scheduling : NativeCallScheduling)
  /-- The invocation returned an error in place of a future. -/
  | failed (serial : Nat) (error : EngineError Raised)
  /-- The future of the call was ready. -/
  | answered (serial : Nat) (result : Except (EngineError Raised) Completion)
  /-- The completion of the call was returned to the evaluator. -/
  | returned (serial : Nat) (frame : FrameId) (result : Except (EngineError Raised) Completion)
  /-- The permit of the call was dropped. -/
  | released (serial : Nat)

/-- `NativeCall`: how a call is scheduled, and whether invoking it gives a
future. -/
structure Host (Call Raised : Type) where
  scheduling : Call → NativeCallScheduling
  invoke : Call → Except (EngineError Raised) Unit

variable {Call Completion Raised : Type}

inductive PendingNativeState (Completion Raised : Type) where
  | polling
  | ready (result : Except (EngineError Raised) Completion)

structure PendingNative (Completion Raised : Type) where
  serial : Nat
  frame : FrameId
  state : PendingNativeState Completion Raised
  permit : Option NativeAsyncPermit

structure QueuedNative (Call : Type) where
  serial : Nat
  frame : FrameId
  call : Call
  permit : Option NativeAsyncPermit

namespace PendingNative

/-- `poll`, with the events to record. -/
def poll (future : Nat → Poll (Except (EngineError Raised) Completion))
    (pending : PendingNative Completion Raised) :
    Bool × PendingNative Completion Raised × List (HostEvent Completion Raised) :=
  match pending.state with
  | .polling =>
      match future pending.serial with
      | .ready result =>
          (true, { pending with state := .ready result }, [.answered pending.serial result])
      | .pending => (false, pending, [])
  | .ready _ => (true, pending, [])

def result (pending : PendingNative Completion Raised) : Except (EngineError Raised) Completion :=
  match pending.state with
  | .ready result => result
  | .polling => .error (.internal "pending native future completed without a ready result")

/-- `into_completion`. -/
def intoCompletion (pending : PendingNative Completion Raised) :
    Except (EngineError Raised) (FrameId × Completion) :=
  pending.result.map fun completion => (pending.frame, completion)

/-- What `into_completion` does besides: the call is over and its permit is
dropped. -/
def takenEvents (pending : PendingNative Completion Raised) :
    List (HostEvent Completion Raised) :=
  .returned pending.serial pending.frame pending.result ::
    if pending.permit.isSome then [.released pending.serial] else []

end PendingNative

namespace QueuedNative

/-- `activate_immediate`, with the events to record. -/
def activateImmediate (host : Host Call Raised) (queued : QueuedNative Call) :
    PendingNative Completion Raised × List (HostEvent Completion Raised) :=
  match host.invoke queued.call with
  | .ok _ =>
      (⟨queued.serial, queued.frame, .polling, none⟩, [.invoked queued.serial .immediate])
  | .error error =>
      (⟨queued.serial, queued.frame, .ready (.error error), none⟩,
        [.invoked queued.serial .immediate, .failed queued.serial error])

/-- `activate_deferred`, with the events to record.  The permit is dropped when
the invocation fails. -/
def activateDeferred (host : Host Call Raised) (queued : QueuedNative Call) :
    PendingNative Completion Raised × List (HostEvent Completion Raised) :=
  match queued.permit with
  | none =>
      (⟨queued.serial, queued.frame,
        .ready (.error (.internal "deferred native activated without an admission permit")), none⟩,
        [])
  | some permit =>
      match host.invoke queued.call with
      | .ok _ =>
          (⟨queued.serial, queued.frame, .polling, some permit⟩,
            [.invoked queued.serial .deferred])
      | .error error =>
          (⟨queued.serial, queued.frame, .ready (.error error), none⟩,
            [.invoked queued.serial .deferred, .failed queued.serial error,
              .released queued.serial])

end QueuedNative

structure HostScheduler (Call Completion Raised : Type) where
  pendingNative : List (PendingNative Completion Raised)
  immediateNative : List (QueuedNative Call)
  deferredNative : List (QueuedNative Call)
  /-- The number of calls that were scheduled. -/
  scheduled : Nat
  /-- What happened, oldest first. -/
  history : List (HostEvent Completion Raised)

inductive NativePoll (Completion : Type) where
  | idle
  | progress
  | completed (frame : FrameId) (completion : Completion)

inductive NativeWaitEvent where
  | completion (index : Nat)
  | permit
  | idle

/-- What a poll of the evaluating task finds: the answer of the controller and
those of the futures, by the serial number of their call. -/
structure Answers (Completion Raised : Type) where
  controller : Poll (Except (EngineError Raised) Unit)
  future : Nat → Poll (Except (EngineError Raised) Completion)

namespace HostScheduler

/-- `HostScheduler::new`. -/
def new : HostScheduler Call Completion Raised :=
  ⟨[], [], [], 0, []⟩

/-- `schedule_native`. -/
def scheduleNative (host : Host Call Raised) (frame : FrameId) (call : Call)
    (scheduler : HostScheduler Call Completion Raised) : HostScheduler Call Completion Raised :=
  let queued : QueuedNative Call := ⟨scheduler.scheduled, frame, call, none⟩
  let scheduler := { scheduler with
    scheduled := scheduler.scheduled + 1
    history :=
      scheduler.history ++ [HostEvent.scheduled queued.serial frame (host.scheduling call)] }
  match host.scheduling call with
  | .immediate => { scheduler with immediateNative := scheduler.immediateNative ++ [queued] }
  | .deferred => { scheduler with deferredNative := scheduler.deferredNative ++ [queued] }

/-- `has_pending_native`. -/
def hasPendingNative (scheduler : HostScheduler Call Completion Raised) : Bool :=
  !scheduler.pendingNative.isEmpty

/-- `has_immediate_native`. -/
def hasImmediateNative (scheduler : HostScheduler Call Completion Raised) : Bool :=
  !scheduler.immediateNative.isEmpty

/-- `has_deferred_native`. -/
def hasDeferredNative (scheduler : HostScheduler Call Completion Raised) : Bool :=
  !scheduler.deferredNative.isEmpty

/-- `try_acquire_next_native_permit`. -/
def tryAcquireNextNativePermit (controller : Poll (Except (EngineError Raised) Unit))
    (scheduler : HostScheduler Call Completion Raised) :
    Poll (Except (EngineError Raised) Bool) × HostScheduler Call Completion Raised :=
  match scheduler.deferredNative with
  | [] => (.ready (.ok false), scheduler)
  | deferred :: rest =>
      if deferred.permit.isSome then (.ready (.ok true), scheduler)
      else
        match controller with
        | .ready (.ok _) =>
            (.ready (.ok true), { scheduler with
              deferredNative := { deferred with permit := some {} } :: rest
              history := scheduler.history ++ [.granted deferred.serial] })
        | .ready (.error error) => (.ready (.error error), scheduler)
        | .pending => (.pending, scheduler)

/-- `activate_next_immediate_native`. -/
def activateNextImmediateNative (host : Host Call Raised)
    (scheduler : HostScheduler Call Completion Raised) :
    Bool × HostScheduler Call Completion Raised :=
  match scheduler.immediateNative with
  | [] => (false, scheduler)
  | queued :: rest =>
      let (pending, events) := queued.activateImmediate host
      (true, { scheduler with
        immediateNative := rest
        pendingNative := scheduler.pendingNative ++ [pending]
        history := scheduler.history ++ events })

/-- `activate_next_permitted_deferred_native`. -/
def activateNextPermittedDeferredNative (host : Host Call Raised)
    (scheduler : HostScheduler Call Completion Raised) :
    Bool × HostScheduler Call Completion Raised :=
  match scheduler.deferredNative with
  | [] => (false, scheduler)
  | queued :: rest =>
      if queued.permit.isNone then (false, scheduler)
      else
        let (pending, events) := queued.activateDeferred host
        (true, { scheduler with
          deferredNative := rest
          pendingNative := scheduler.pendingNative ++ [pending]
          history := scheduler.history ++ events })

/-- `admit_available_deferred_native`. -/
def admitAvailableDeferredNative (host : Host Call Raised)
    (controller : Poll (Except (EngineError Raised) Unit))
    (scheduler : HostScheduler Call Completion Raised) :
    Except (EngineError Raised) Bool × HostScheduler Call Completion Raised :=
  match scheduler.tryAcquireNextNativePermit controller with
  | (.ready (.ok true), scheduler) =>
      let (activated, scheduler) := scheduler.activateNextPermittedDeferredNative host
      (.ok activated, scheduler)
  | (.ready (.ok false), scheduler) => (.ok false, scheduler)
  | (.pending, scheduler) => (.ok false, scheduler)
  | (.ready (.error error), scheduler) => (.error error, scheduler)

/-- The loop of `poll_pending_native_once`: the index of the first call that is
ready. -/
def pollCalls (future : Nat → Poll (Except (EngineError Raised) Completion)) :
    List (PendingNative Completion Raised) →
      Option (Nat × PendingNative Completion Raised × List (HostEvent Completion Raised))
  | [] => none
  | pending :: rest =>
      match pending.poll future with
      | (true, polled, events) => some (0, polled, events)
      | (false, _, _) =>
          (pollCalls future rest).map fun found => (found.1 + 1, found.2)

/-- `poll_pending_native_once`. -/
def pollPendingNativeOnce (future : Nat → Poll (Except (EngineError Raised) Completion))
    (scheduler : HostScheduler Call Completion Raised) :
    Option Nat × HostScheduler Call Completion Raised :=
  match pollCalls future scheduler.pendingNative with
  | none => (none, scheduler)
  | some (index, polled, events) =>
      (some index, { scheduler with
        pendingNative := scheduler.pendingNative.set index polled
        history := scheduler.history ++ events })

/-- `take_pending_native_completion`. -/
def takePendingNativeCompletion (index : Nat)
    (scheduler : HostScheduler Call Completion Raised) :
    Except (EngineError Raised) (FrameId × Completion) × HostScheduler Call Completion Raised :=
  match scheduler.pendingNative[index]? with
  | none => (.error (.internal "pending native completion index out of bounds"), scheduler)
  | some pending =>
      (pending.intoCompletion, { scheduler with
        pendingNative := scheduler.pendingNative.eraseIdx index
        history := scheduler.history ++ pending.takenEvents })

/-- The wait of `poll_pending_native` for a permit when no call runs. -/
def waitForPermit (host : Host Call Raised) :
    List (Answers Completion Raised) → HostScheduler Call Completion Raised →
      Poll (Except (EngineError Raised) (NativePoll Completion)) ×
        HostScheduler Call Completion Raised
  | [], scheduler => (.pending, scheduler)
  | answers :: later, scheduler =>
      match scheduler.tryAcquireNextNativePermit answers.controller with
      | (.ready (.ok _), scheduler) =>
          let (activated, scheduler) := scheduler.activateNextPermittedDeferredNative host
          (.ready (.ok (if activated then .progress else .idle)), scheduler)
      | (.ready (.error error), scheduler) => (.ready (.error error), scheduler)
      | (.pending, scheduler) => waitForPermit host later scheduler

/-- The wait of `poll_pending_native` for a completion or a permit. -/
def waitForNative :
    List (Answers Completion Raised) → HostScheduler Call Completion Raised →
      Poll (Except (EngineError Raised) NativeWaitEvent) × HostScheduler Call Completion Raised
  | [], scheduler => (.pending, scheduler)
  | answers :: later, scheduler =>
      match scheduler.pollPendingNativeOnce answers.future with
      | (some index, scheduler) => (.ready (.ok (.completion index)), scheduler)
      | (none, scheduler) =>
          match scheduler.tryAcquireNextNativePermit answers.controller with
          | (.ready (.ok true), scheduler) => (.ready (.ok .permit), scheduler)
          | (.ready (.error error), scheduler) => (.ready (.error error), scheduler)
          | (.ready (.ok false), scheduler) =>
              if scheduler.hasPendingNative then waitForNative later scheduler
              else (.ready (.ok .idle), scheduler)
          | (.pending, scheduler) =>
              if scheduler.hasPendingNative then waitForNative later scheduler
              else (.ready (.ok .idle), scheduler)

/-- The end of `poll_pending_native`, after the wait. -/
def finishNative (host : Host Call Raised) :
    NativeWaitEvent → HostScheduler Call Completion Raised →
      Except (EngineError Raised) (NativePoll Completion) × HostScheduler Call Completion Raised
  | .completion index, scheduler =>
      let (completion, scheduler) := scheduler.takePendingNativeCompletion index
      (completion.map fun (frame, completion) => .completed frame completion, scheduler)
  | _, scheduler =>
      let (activated, scheduler) := scheduler.activateNextPermittedDeferredNative host
      (.ok (if activated then .progress else .idle), scheduler)

/-- `poll_pending_native` after the first activations. -/
def pollActivated (host : Host Call Raised) (wait progressed : Bool)
    (first : Answers Completion Raised) (later : List (Answers Completion Raised))
    (scheduler : HostScheduler Call Completion Raised) :
    Poll (Except (EngineError Raised) (NativePoll Completion)) ×
      HostScheduler Call Completion Raised :=
  if !scheduler.hasPendingNative then
    if !wait || (!scheduler.hasImmediateNative && !scheduler.hasDeferredNative) then
      (.ready (.ok (if progressed then .progress else .idle)), scheduler)
    else waitForPermit host (first :: later) scheduler
  else if wait then
    match waitForNative (first :: later) scheduler with
    | (.pending, scheduler) => (.pending, scheduler)
    | (.ready (.error error), scheduler) => (.ready (.error error), scheduler)
    | (.ready (.ok event), scheduler) =>
        let (result, scheduler) := finishNative host event scheduler
        (.ready result, scheduler)
  else
    match scheduler.pollPendingNativeOnce first.future with
    | (none, scheduler) => (.ready (.ok (if progressed then .progress else .idle)), scheduler)
    | (some index, scheduler) =>
        let (result, scheduler) := finishNative host (.completion index) scheduler
        (.ready result, scheduler)

/-- `poll_pending_native`.  `admission` is what the controller answers at the
admission of a deferred call, `first` and `later` what the following polls of
the task find; the result is pending when the task still waits after them. -/
def pollPendingNative (host : Host Call Raised) (wait : Bool)
    (admission : Poll (Except (EngineError Raised) Unit)) (first : Answers Completion Raised)
    (later : List (Answers Completion Raised)) (scheduler : HostScheduler Call Completion Raised) :
    Poll (Except (EngineError Raised) (NativePoll Completion)) ×
      HostScheduler Call Completion Raised :=
  if !scheduler.hasPendingNative && !scheduler.hasImmediateNative &&
      !scheduler.hasDeferredNative then
    (.ready (.ok .idle), scheduler)
  else
    let (progressed, scheduler) := scheduler.activateNextImmediateNative host
    match scheduler.admitAvailableDeferredNative host admission with
    | (.error error, scheduler) => (.ready (.error error), scheduler)
    | (.ok admitted, scheduler) =>
        scheduler.pollActivated host wait (progressed || admitted) first later

end HostScheduler

end RexLang
