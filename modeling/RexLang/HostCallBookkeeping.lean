import RexLang.HostCallCounts

/-!
# Bookkeeping of host calls

In every run of the scheduler each host call is in one queue until its
completion is returned, with the frame that issued it.  Calls are invoked in the
order in which they were scheduled, deferred ones with a permit that is released
once: when the completion is taken, or when the invocation fails.
-/

namespace RexLang

variable {Call Completion Raised : Type}

namespace HostScheduler

open HostEvent

/-! ## The order of events -/

/-- At a moment of the history, calls have been invoked in order, deferred ones
with a permit, and permits only released when the call is over or could not be
invoked. -/
structure Orderly (moment : List (HostEvent Completion Raised)) : Prop where
  invoked_immediate : moment.filterMap (asInvoked .immediate) <+:
    moment.filterMap (asScheduled .immediate)
  invoked_deferred : moment.filterMap (asInvoked .deferred) <+: moment.filterMap asGranted
  granted : moment.filterMap asGranted <+: moment.filterMap (asScheduled .deferred)
  released : ∀ serial ∈ moment.filterMap asReleased,
    serial ∈ moment.filterMap asReturned ∨ serial ∈ moment.filterMap asFailed

/-- What must hold of the history for an event to come next. -/
def Allowed (history : List (HostEvent Completion Raised)) : HostEvent Completion Raised → Prop
  | .invoked serial .immediate => history.filterMap (asInvoked .immediate) ++ [serial] <+:
      history.filterMap (asScheduled .immediate)
  | .invoked serial .deferred => history.filterMap (asInvoked .deferred) ++ [serial] <+:
      history.filterMap asGranted
  | .granted serial => history.filterMap asGranted ++ [serial] <+:
      history.filterMap (asScheduled .deferred)
  | .released serial =>
      serial ∈ history.filterMap asReturned ∨ serial ∈ history.filterMap asFailed
  | _ => True

/-- Every event was allowed when it came. -/
inductive Lawful : List (HostEvent Completion Raised) → Prop where
  | start : Lawful []
  | next {history event} (lawful : Lawful history) (allowed : Allowed history event) :
      Lawful (history ++ [event])

attribute [local simp] asScheduled asInvoked asGranted asFailed asReturned asReleased
  List.filterMap_append List.filterMap_cons

theorem orderly_of_lawful {history : List (HostEvent Completion Raised)}
    (lawful : Lawful history) : Orderly history := by
  induction lawful with
  | start => constructor <;> simp
  | @next history event _ allowed hypothesis =>
      obtain ⟨invokedImmediate, invokedDeferred, granted, released⟩ := hypothesis
      simp only [Allowed] at allowed
      have longer : ∀ first second more : List Nat, first <+: second → first <+: second ++ more :=
        fun _ _ more isPrefix => isPrefix.trans (List.prefix_append _ more)
      cases event with
      | scheduled serial frame kind =>
          constructor
          · cases kind <;> simpa using by first | exact invokedImmediate | exact longer _ _ _ invokedImmediate
          · simpa using invokedDeferred
          · cases kind <;> simpa using by first | exact granted | exact longer _ _ _ granted
          · simpa [-List.mem_filterMap] using released
      | granted serial =>
          constructor
          · simpa using invokedImmediate
          · simpa using longer _ _ _ invokedDeferred
          · simpa using allowed
          · simpa [-List.mem_filterMap] using released
      | invoked serial kind =>
          cases kind with
          | immediate =>
              constructor
              · simpa using allowed
              · simpa using invokedDeferred
              · simpa using granted
              · simpa [-List.mem_filterMap] using released
          | deferred =>
              constructor
              · simpa using invokedImmediate
              · simpa using allowed
              · simpa using granted
              · simpa [-List.mem_filterMap] using released
      | failed serial error =>
          constructor
          · simpa using invokedImmediate
          · simpa using invokedDeferred
          · simpa using granted
          · intro other member
            simp [-List.mem_filterMap] at member ⊢
            have finished := released other member
            tauto
      | answered serial result =>
          exact ⟨by simpa using invokedImmediate, by simpa using invokedDeferred,
            by simpa using granted, by simpa [-List.mem_filterMap] using released⟩
      | returned serial frame result =>
          constructor
          · simpa using invokedImmediate
          · simpa using invokedDeferred
          · simpa using granted
          · intro other member
            simp [-List.mem_filterMap] at member ⊢
            have finished := released other member
            tauto
      | released serial =>
          constructor
          · simpa using invokedImmediate
          · simpa using invokedDeferred
          · simpa using granted
          · intro other member
            simp [-List.mem_filterMap] at member ⊢
            rcases member with member | rfl
            · exact released other member
            · exact allowed

/-- Every moment of a lawful history is orderly. -/
theorem orderly_of_prefix {history moment : List (HostEvent Completion Raised)}
    (lawful : Lawful history) (isPrefix : moment <+: history) : Orderly moment := by
  induction lawful with
  | start =>
      rw [List.prefix_nil.mp isPrefix]
      exact orderly_of_lawful .start
  | @next history event lawful allowed hypothesis =>
      rcases List.prefix_concat_iff.mp isPrefix with rfl | isPrefix
      · exact orderly_of_lawful (.next lawful allowed)
      · exact hypothesis isPrefix

theorem lawful_scheduleNative {scheduler : HostScheduler Call Completion Raised}
    (lawful : Lawful scheduler.history) (host : Host Call Raised) (frame : FrameId) (call : Call) :
    Lawful (scheduler.scheduleNative host frame call).history := by
  rw [scheduleNative]
  cases kind : host.scheduling call with
  | immediate => exact .next lawful trivial
  | deferred => exact .next lawful trivial

theorem lawful_internal {host : Host Call Raised}
    {scheduler next : HostScheduler Call Completion Raised}
    (counted : scheduler.Counted) (lawful : Lawful scheduler.history)
    (taken : Internal host scheduler next) : Lawful next.history := by
  cases taken with
  | @grant queued rest queue unpermitted =>
      refine .next lawful ?_
      have unpermittedTail := counted.unpermitted_tail
      rw [queue] at unpermittedTail
      have restUnpermitted := filter_permit_eq_nil unpermittedTail
      rw [List.tail_cons] at restUnpermitted
      rw [Allowed, counted.granted_eq, counted.deferred_eq, queue]
      simp [unpermitted, restUnpermitted]
  | @activateImmediate queued rest queue =>
      have allowed : Allowed scheduler.history (.invoked queued.serial .immediate) := by
        rw [Allowed, counted.immediate_eq, queue]
        simp
      rw [QueuedNative.activateImmediate]
      split
      · exact .next lawful allowed
      · next error _ =>
          have invoked := Lawful.next lawful allowed
          have failed : Lawful (_ ++ [HostEvent.failed queued.serial error]) :=
            .next invoked trivial
          simpa using failed
  | @activateDeferred queued rest queue permitted =>
      have allowed : Allowed scheduler.history (.invoked queued.serial .deferred) := by
        rw [Allowed, counted.granted_eq, queue]
        simp [permitted]
      obtain ⟨permit, found⟩ := Option.isSome_iff_exists.mp permitted
      simp only [QueuedNative.activateDeferred, found]
      split
      · exact .next lawful allowed
      · next error _ =>
          have invoked := Lawful.next lawful allowed
          have failed : Lawful (_ ++ [HostEvent.failed queued.serial error]) :=
            .next invoked trivial
          have released : Lawful (_ ++ [HostEvent.released queued.serial]) :=
            .next failed (.inr (by simp))
          simpa using released
  | answer running polling => exact .next lawful trivial

theorem lawful_takesFrom {scheduler next : HostScheduler Call Completion Raised}
    (lawful : Lawful scheduler.history) {pending : PendingNative Completion Raised}
    (taken : scheduler.TakesFrom pending next) : Lawful next.history := by
  obtain ⟨before, after, result, running, isReady, rfl⟩ := taken
  rw [PendingNative.takenEvents]
  have returned : Lawful (scheduler.history ++
      [.returned pending.serial pending.frame pending.result]) := .next lawful trivial
  split
  · have released : Lawful (_ ++ [HostEvent.released pending.serial]) :=
      .next returned (.inl (by simp))
    simpa using released
  · exact returned

/-! ## Frames and results -/

/-- The result is that of the future of the call, or the error of its
invocation. -/
def Produced (history : List (HostEvent Completion Raised)) (serial : Nat)
    (result : Except (EngineError Raised) Completion) : Prop :=
  .answered serial result ∈ history ∨ ∃ error, result = .error error ∧ .failed serial error ∈ history

/-- The call was scheduled for the frame. -/
def IssuedBy (history : List (HostEvent Completion Raised)) (serial : Nat) (frame : FrameId) :
    Prop :=
  ∃ kind, .scheduled serial frame kind ∈ history

/-- Calls keep their frames, and their results are their own. -/
structure Attributed (scheduler : HostScheduler Call Completion Raised) : Prop where
  queued : ∀ queued ∈ scheduler.immediateNative ++ scheduler.deferredNative,
    IssuedBy scheduler.history queued.serial queued.frame
  running : ∀ pending ∈ scheduler.pendingNative,
    IssuedBy scheduler.history pending.serial pending.frame
  ready : ∀ pending ∈ scheduler.pendingNative, ∀ result, pending.state = .ready result →
    Produced scheduler.history pending.serial result
  returned : ∀ serial frame result, .returned serial frame result ∈ scheduler.history →
    IssuedBy scheduler.history serial frame ∧ Produced scheduler.history serial result

theorem Produced.append {history : List (HostEvent Completion Raised)} {serial : Nat}
    {result : Except (EngineError Raised) Completion} (produced : Produced history serial result)
    (events : List (HostEvent Completion Raised)) : Produced (history ++ events) serial result := by
  rcases produced with answered | ⟨error, same, failed⟩
  · exact .inl (List.mem_append_left _ answered)
  · exact .inr ⟨error, same, List.mem_append_left _ failed⟩

theorem IssuedBy.append {history : List (HostEvent Completion Raised)} {serial : Nat}
    {frame : FrameId} (issued : IssuedBy history serial frame)
    (events : List (HostEvent Completion Raised)) : IssuedBy (history ++ events) serial frame := by
  obtain ⟨kind, member⟩ := issued
  exact ⟨kind, List.mem_append_left _ member⟩

theorem Attributed.grow {scheduler next : HostScheduler Call Completion Raised}
    (attributed : scheduler.Attributed) {events : List (HostEvent Completion Raised)}
    (history : next.history = scheduler.history ++ events)
    (queued : ∀ queued ∈ next.immediateNative ++ next.deferredNative,
      IssuedBy next.history queued.serial queued.frame)
    (running : ∀ pending ∈ next.pendingNative,
      IssuedBy scheduler.history pending.serial pending.frame)
    (ready : ∀ pending ∈ next.pendingNative, ∀ result, pending.state = .ready result →
      Produced next.history pending.serial result)
    (returned : ∀ serial frame result, .returned serial frame result ∈ events →
      IssuedBy scheduler.history serial frame ∧ Produced scheduler.history serial result) :
    next.Attributed := by
  refine ⟨queued, ?_, ready, ?_⟩
  · intro pending member
    rw [history]
    exact (running pending member).append events
  · intro serial frame result member
    rw [history] at member ⊢
    rcases List.mem_append.mp member with member | member
    · obtain ⟨issued, produced⟩ := attributed.returned serial frame result member
      exact ⟨issued.append events, produced.append events⟩
    · obtain ⟨issued, produced⟩ := returned serial frame result member
      exact ⟨issued.append events, produced.append events⟩

theorem attributed_new : Attributed (new : HostScheduler Call Completion Raised) := by
  constructor <;> simp [new]

theorem attributed_scheduleNative {scheduler : HostScheduler Call Completion Raised}
    (attributed : scheduler.Attributed) (host : Host Call Raised) (frame : FrameId) (call : Call) :
    (scheduler.scheduleNative host frame call).Attributed := by
  have queuedOld : ∀ queued ∈ scheduler.immediateNative ++ scheduler.deferredNative,
      IssuedBy (scheduler.history ++ [.scheduled scheduler.scheduled frame (host.scheduling call)])
        queued.serial queued.frame :=
    fun queued member => (attributed.queued queued member).append _
  have queuedNew : IssuedBy
      (scheduler.history ++ [.scheduled scheduler.scheduled frame (host.scheduling call)])
      scheduler.scheduled frame := ⟨host.scheduling call, by simp⟩
  have readyOld : ∀ pending ∈ scheduler.pendingNative, ∀ result, pending.state = .ready result →
      Produced (scheduler.history ++
        [.scheduled scheduler.scheduled frame (host.scheduling call)]) pending.serial result :=
    fun pending member result ready => (attributed.ready pending member result ready).append _
  rw [scheduleNative]
  cases kind : host.scheduling call with
  | immediate =>
      rw [kind] at queuedOld queuedNew readyOld
      refine attributed.grow rfl ?_ attributed.running readyOld (by simp)
      intro queued member
      simp only [List.append_assoc, List.mem_append, List.mem_singleton] at member queuedOld
      rcases member with member | rfl | member
      · exact queuedOld queued (.inl member)
      · exact queuedNew
      · exact queuedOld queued (.inr member)
  | deferred =>
      rw [kind] at queuedOld queuedNew readyOld
      refine attributed.grow rfl ?_ attributed.running readyOld (by simp)
      intro queued member
      simp only [List.mem_append, List.mem_singleton] at member queuedOld
      rcases member with member | member | rfl
      · exact queuedOld queued (.inl member)
      · exact queuedOld queued (.inr member)
      · exact queuedNew

/-- The running call and the events of an activation. -/
structure Activates (queued : QueuedNative Call)
    (activation : PendingNative Completion Raised × List (HostEvent Completion Raised)) : Prop where
  serial_eq : activation.1.serial = queued.serial
  frame_eq : activation.1.frame = queued.frame
  failed : ∀ result, activation.1.state = .ready result →
    ∃ error, result = .error error ∧ .failed queued.serial error ∈ activation.2
  not_returned : ∀ serial frame result, .returned serial frame result ∉ activation.2

theorem activates_activateImmediate (host : Host Call Raised) (queued : QueuedNative Call) :
    Activates queued (queued.activateImmediate host :
      PendingNative Completion Raised × List (HostEvent Completion Raised)) := by
  rw [QueuedNative.activateImmediate]
  split
  · exact ⟨rfl, rfl, by simp, by simp⟩
  · refine ⟨rfl, rfl, ?_, by simp⟩
    rintro _ ⟨⟩
    simp

theorem activates_activateDeferred (host : Host Call Raised) {queued : QueuedNative Call}
    (permitted : queued.permit.isSome) :
    Activates queued (queued.activateDeferred host :
      PendingNative Completion Raised × List (HostEvent Completion Raised)) := by
  obtain ⟨permit, found⟩ := Option.isSome_iff_exists.mp permitted
  simp only [QueuedNative.activateDeferred, found]
  split
  · exact ⟨rfl, rfl, by simp, by simp⟩
  · refine ⟨rfl, rfl, ?_, by simp⟩
    rintro _ ⟨⟩
    simp

theorem attributed_activate {scheduler next : HostScheduler Call Completion Raised}
    (attributed : scheduler.Attributed) {queued : QueuedNative Call}
    {activation : PendingNative Completion Raised × List (HostEvent Completion Raised)}
    (activates : Activates queued activation)
    (inQueue : queued ∈ scheduler.immediateNative ++ scheduler.deferredNative)
    (queues : ∀ queued ∈ next.immediateNative ++ next.deferredNative,
      queued ∈ scheduler.immediateNative ++ scheduler.deferredNative)
    (pendingNative : next.pendingNative = scheduler.pendingNative ++ [activation.1])
    (history : next.history = scheduler.history ++ activation.2) : next.Attributed := by
  refine attributed.grow history ?_ ?_ ?_ ?_
  · intro queued member
    rw [history]
    exact (attributed.queued queued (queues queued member)).append _
  · intro pending member
    rw [pendingNative, List.mem_append, List.mem_singleton] at member
    rcases member with member | rfl
    · exact attributed.running pending member
    · rw [activates.serial_eq, activates.frame_eq]
      exact attributed.queued queued inQueue
  · intro pending member result ready
    rw [pendingNative, List.mem_append, List.mem_singleton] at member
    rw [history]
    rcases member with member | rfl
    · exact (attributed.ready pending member result ready).append _
    · obtain ⟨error, same, failed⟩ := activates.failed result ready
      rw [activates.serial_eq]
      exact .inr ⟨error, same, List.mem_append_right _ failed⟩
  · intro serial frame result member
    exact absurd member (activates.not_returned serial frame result)

theorem attributed_internal {host : Host Call Raised}
    {scheduler next : HostScheduler Call Completion Raised}
    (attributed : scheduler.Attributed) (taken : Internal host scheduler next) :
    next.Attributed := by
  have readyOld : ∀ events, ∀ pending ∈ scheduler.pendingNative, ∀ result,
      pending.state = .ready result →
      Produced (scheduler.history ++ events) pending.serial result :=
    fun events pending member result ready => (attributed.ready pending member result ready).append _
  have queuedOld : ∀ events, ∀ queued ∈ scheduler.immediateNative ++ scheduler.deferredNative,
      IssuedBy (scheduler.history ++ events) queued.serial queued.frame :=
    fun events queued member => (attributed.queued queued member).append _
  cases taken with
  | @grant queued rest queue unpermitted =>
      refine attributed.grow rfl ?_ attributed.running (readyOld _) (by simp)
      intro other member
      rw [queue] at queuedOld
      simp only [List.mem_append, List.mem_cons] at member queuedOld
      rcases member with member | rfl | member
      · exact queuedOld _ other (.inl member)
      · exact queuedOld _ queued (.inr (.inl rfl))
      · exact queuedOld _ other (.inr (.inr member))
  | @activateImmediate queued rest queue =>
      refine attributed_activate attributed (activates_activateImmediate host queued) ?_ ?_ rfl rfl
      · simp [queue]
      · intro other member
        simp only [queue, List.mem_append, List.mem_cons] at member ⊢
        tauto
  | @activateDeferred queued rest queue permitted =>
      refine attributed_activate attributed (activates_activateDeferred host permitted) ?_ ?_ rfl rfl
      · simp [queue]
      · intro other member
        simp only [queue, List.mem_append, List.mem_cons] at member ⊢
        tauto
  | @answer before pending after result running polling =>
      refine attributed.grow rfl (queuedOld _) ?_ ?_ (by simp)
      · intro other member
        have runningOld := attributed.running
        rw [running] at runningOld
        simp only [List.mem_append, List.mem_cons] at member runningOld
        rcases member with member | rfl | member
        · exact runningOld other (.inl member)
        · exact runningOld pending (.inr (.inl rfl))
        · exact runningOld other (.inr (.inr member))
      · intro other member found ready
        have ready' := readyOld [.answered pending.serial result]
        rw [running] at ready'
        simp only [List.mem_append, List.mem_cons] at member ready'
        rcases member with member | rfl | member
        · exact ready' other (.inl member) found ready
        · cases ready
          exact .inl (by simp)
        · exact ready' other (.inr (.inr member)) found ready

theorem attributed_takesFrom {scheduler next : HostScheduler Call Completion Raised}
    (attributed : scheduler.Attributed) {pending : PendingNative Completion Raised}
    (taken : scheduler.TakesFrom pending next) : next.Attributed := by
  obtain ⟨before, after, result, running, isReady, rfl⟩ := taken
  have member : pending ∈ scheduler.pendingNative := by simp [running]
  have others : ∀ other ∈ before ++ after, other ∈ scheduler.pendingNative := by
    intro other member
    simp only [running, List.mem_append, List.mem_cons] at member ⊢
    tauto
  refine attributed.grow rfl ?_ ?_ ?_ ?_
  · exact fun queued inQueue => (attributed.queued queued inQueue).append _
  · exact fun other inRest => attributed.running other (others other inRest)
  · exact fun other inRest result ready =>
      (attributed.ready other (others other inRest) result ready).append _
  · intro serial frame returned inEvents
    have same : HostEvent.returned serial frame returned =
        .returned pending.serial pending.frame pending.result := by
      rw [PendingNative.takenEvents] at inEvents
      split at inEvents <;> simpa using inEvents
    cases same
    refine ⟨attributed.running pending member, ?_⟩
    rw [PendingNative.result, isReady]
    exact attributed.ready pending member result isReady

/-! ## Completions -/

attribute [local simp] asCompleted

theorem completed_scheduleNative (scheduler : HostScheduler Call Completion Raised)
    (host : Host Call Raised) (frame : FrameId) (call : Call) :
    (scheduler.scheduleNative host frame call).history.filterMap asCompleted =
      scheduler.history.filterMap asCompleted := by
  rw [scheduleNative]
  cases kind : host.scheduling call <;> simp

theorem completed_internals {host : Host Call Raised}
    {scheduler next : HostScheduler Call Completion Raised}
    (taken : Internals host scheduler next) :
    next.history.filterMap asCompleted = scheduler.history.filterMap asCompleted := by
  induction taken with
  | refl => rfl
  | tail _ step hypothesis =>
      rw [← hypothesis]
      cases step with
      | grant => simp
      | activateImmediate =>
          rw [QueuedNative.activateImmediate]
          split <;> simp
      | @activateDeferred queued rest queue permitted =>
          obtain ⟨permit, found⟩ := Option.isSome_iff_exists.mp permitted
          simp only [QueuedNative.activateDeferred, found]
          split <;> simp
      | answer => simp

theorem completed_takesFrom {scheduler next : HostScheduler Call Completion Raised}
    {pending : PendingNative Completion Raised} (taken : scheduler.TakesFrom pending next) :
    next.history.filterMap asCompleted =
      scheduler.history.filterMap asCompleted ++ pending.intoCompletion.toOption.toList := by
  obtain ⟨before, after, result, running, isReady, rfl⟩ := taken
  have resultEq : pending.result = result := by rw [PendingNative.result, isReady]
  rw [PendingNative.takenEvents, PendingNative.intoCompletion, resultEq]
  cases result <;> cases permit : pending.permit <;> simp [Except.map, Except.toOption]

/-! ## Runs -/

/-- The evaluator schedules a call, or polls the pending calls. -/
inductive HostAction (Call Completion Raised : Type) where
  | schedule (frame : FrameId) (call : Call)
  | poll (wait : Bool) (admission : Poll (Except (EngineError Raised) Unit))
      (first : Answers Completion Raised) (later : List (Answers Completion Raised))

/-- The scheduler, and what its polls answered, oldest first. -/
structure HostRun (Call Completion Raised : Type) where
  scheduler : HostScheduler Call Completion Raised
  polled : List (Except (EngineError Raised) (NativePoll Completion))

def hostStep (host : Host Call Raised) (state : HostRun Call Completion Raised) :
    HostAction Call Completion Raised → Option (HostRun Call Completion Raised)
  | .schedule frame call =>
      some { state with scheduler := state.scheduler.scheduleNative host frame call }
  | .poll wait admission first later =>
      match state.scheduler.pollPendingNative host wait admission first later with
      | (.ready polled, scheduler) => some ⟨scheduler, state.polled ++ [polled]⟩
      | (.pending, scheduler) => some ⟨scheduler, state.polled⟩

abbrev Run (host : Host Call Raised) (actions : List (HostAction Call Completion Raised))
    (final : HostRun Call Completion Raised) : Prop :=
  TransitionSystem.run (hostStep host) actions ⟨new, []⟩ = some final

/-- The completion that an answer delivers, with its frame. -/
def delivered :
    Except (EngineError Raised) (NativePoll Completion) → Option (FrameId × Completion)
  | .ok (.completed frame completion) => some (frame, completion)
  | _ => none

structure RunInvariant (state : HostRun Call Completion Raised) : Prop where
  counted : state.scheduler.Counted
  lawful : Lawful state.scheduler.history
  attributed : state.scheduler.Attributed
  delivered : state.polled.filterMap delivered =
    state.scheduler.history.filterMap asCompleted

theorem runInvariant_internals {host : Host Call Raised}
    {scheduler next : HostScheduler Call Completion Raised}
    {polled : List (Except (EngineError Raised) (NativePoll Completion))}
    (holds : RunInvariant ⟨scheduler, polled⟩) (taken : Internals host scheduler next) :
    RunInvariant ⟨next, polled⟩ := by
  induction taken with
  | refl => exact holds
  | @tail middle next before step hypothesis =>
      obtain ⟨counted, lawful, attributed, delivered⟩ := hypothesis
      have completed := completed_internals (.single step)
      exact ⟨counted_internals counted (.single step), lawful_internal counted lawful step,
        attributed_internal attributed step, delivered.trans completed.symm⟩

theorem runInvariant_step {host : Host Call Raised} {state next : HostRun Call Completion Raised}
    {action : HostAction Call Completion Raised} (holds : RunInvariant state)
    (taken : hostStep host state action = some next) : RunInvariant next := by
  cases action with
  | schedule frame call =>
      cases taken
      obtain ⟨counted, lawful, attributed, delivered⟩ := holds
      exact ⟨counted_scheduleNative counted host frame call,
        lawful_scheduleNative lawful host frame call,
        attributed_scheduleNative attributed host frame call,
        delivered.trans (completed_scheduleNative state.scheduler host frame call).symm⟩
  | poll wait admission first later =>
      have polls := polls_pollPendingNative host state.scheduler wait admission first later
      rw [hostStep] at taken
      obtain ⟨middle, internals, outcome⟩ := polls
      obtain ⟨counted, lawful, attributed, isDelivered⟩ := runInvariant_internals holds internals
      split at taken
      · next polled scheduler found =>
          cases taken
          rw [found] at outcome
          rcases outcome with ⟨rfl, notCompleted⟩ | ⟨pending, taken, answer⟩
          · refine ⟨counted, lawful, attributed, ?_⟩
            have nothing : delivered polled = none := by
              rw [delivered.eq_def]
              split
              · next frame completion => exact absurd rfl (notCompleted frame completion)
              · rfl
            simpa [nothing] using isDelivered
          · refine ⟨counted_takesFrom counted taken, lawful_takesFrom lawful taken,
              attributed_takesFrom attributed taken, ?_⟩
            rw [completed_takesFrom taken, ← isDelivered, List.filterMap_append]
            cases answer
            cases pending.intoCompletion <;> simp [Except.map, Except.toOption, delivered]
      · next scheduler found =>
          cases taken
          rw [found] at outcome
          rcases outcome with ⟨rfl, -⟩ | ⟨pending, taken, answer⟩
          · exact ⟨counted, lawful, attributed, isDelivered⟩
          · cases answer

theorem runInvariant_of_run {host : Host Call Raised}
    {actions : List (HostAction Call Completion Raised)} {final : HostRun Call Completion Raised}
    (ran : Run host actions final) : RunInvariant final :=
  TransitionSystem.invariant_of_run' (fun _ _ _ => runInvariant_step)
    ⟨counted_new, .start, attributed_new, rfl⟩ ran

/-- What the history says of the calls that were given to the scheduler. -/
structure KeepsBooks (scheduler : HostScheduler Call Completion Raised) : Prop where
  /-- Each call has a serial number of its own. -/
  scheduled_once :
    (scheduler.history.filterMap (asScheduled .immediate) ++
      scheduler.history.filterMap (asScheduled .deferred)).Perm (List.range scheduler.scheduled)
  /-- Each call is in exactly one of the queues until its completion is
  returned, and is returned once. -/
  in_one_place :
    (scheduler.immediateNative.map QueuedNative.serial ++
      scheduler.deferredNative.map QueuedNative.serial ++
      scheduler.pendingNative.map PendingNative.serial ++
      scheduler.history.filterMap asReturned).Perm (List.range scheduler.scheduled)
  /-- At every moment calls have been invoked in order, deferred ones with a
  permit. -/
  orderly : ∀ moment, moment <+: scheduler.history → Orderly moment
  released_once : (scheduler.history.filterMap asReleased).Nodup
  /-- A permit is held until the completion is taken or the invocation fails. -/
  released_iff : ∀ serial, serial ∈ scheduler.history.filterMap asReleased ↔
    serial ∈ scheduler.history.filterMap asGranted ∧
      (serial ∈ scheduler.history.filterMap asReturned ∨
        serial ∈ scheduler.history.filterMap asFailed)
  /-- A completion is returned with the frame that issued the call, and is that
  of the call. -/
  attributed : ∀ serial frame result, .returned serial frame result ∈ scheduler.history →
    IssuedBy scheduler.history serial frame ∧ Produced scheduler.history serial result

theorem invoked_nodup {scheduler : HostScheduler Call Completion Raised}
    (counted : scheduler.Counted) :
    (scheduler.history.filterMap (asInvoked .deferred)).Nodup := by
  have nodup := counted.scheduled_perm.nodup_iff.mpr List.nodup_range
  rw [counted.deferred_eq] at nodup
  exact ((List.nodup_append.mp nodup).2.1).sublist (List.sublist_append_left _ _)

/-- The permit of a call is with the call while it is deferred or runs. -/
theorem released_iff_of_counted {scheduler : HostScheduler Call Completion Raised}
    (counted : scheduler.Counted) (orderly : Orderly scheduler.history) (serial : Nat) :
    serial ∈ scheduler.history.filterMap asReleased ↔
      serial ∈ scheduler.history.filterMap asGranted ∧
        (serial ∈ scheduler.history.filterMap asReturned ∨
          serial ∈ scheduler.history.filterMap asFailed) := by
  constructor
  · intro released
    have invoked := counted.released_perm.subset (List.mem_append_right _ released)
    refine ⟨?_, orderly.released serial released⟩
    rw [counted.granted_eq]
    exact List.mem_append_left _ invoked
  · rintro ⟨granted, finished⟩
    have once := count_partition_le_one counted serial
    rw [counted.granted_eq] at granted
    rcases List.mem_append.mp granted with invoked | waiting
    · -- An invoked call that is over does not run with a permit.
      have placed := counted.released_perm.symm.subset invoked
      rcases List.mem_append.mp placed with running | released
      · obtain ⟨pending, member, rfl⟩ := List.mem_map.mp running
        obtain ⟨isRunning, permitted⟩ := List.mem_filter.mp member
        rcases finished with returned | failed
        · have runs := List.count_pos_iff.mpr (List.mem_map_of_mem isRunning :
            pending.serial ∈ scheduler.pendingNative.map PendingNative.serial)
          have isReturned := List.count_pos_iff.mpr returned
          omega
        · exact absurd failed (counted.failed_unpermitted pending isRunning permitted)
      · exact released
    · -- A call that still waits is not over.
      obtain ⟨queued, member, rfl⟩ := List.mem_map.mp waiting
      have inQueue := (List.mem_filter.mp member).1
      rcases finished with returned | failed
      · have waits := List.count_pos_iff.mpr (List.mem_map_of_mem inQueue :
          queued.serial ∈ scheduler.deferredNative.map QueuedNative.serial)
        have isReturned := List.count_pos_iff.mpr returned
        omega
      · exact absurd failed (not_failed_of_deferred counted inQueue)

theorem keepsBooks_of_invariant {state : HostRun Call Completion Raised}
    (holds : RunInvariant state) : state.scheduler.KeepsBooks := by
  obtain ⟨counted, lawful, attributed, -⟩ := holds
  refine ⟨counted.scheduled_perm, counted.partition, fun moment => orderly_of_prefix lawful, ?_,
    released_iff_of_counted counted (orderly_of_lawful lawful), attributed.returned⟩
  have nodup := counted.released_perm.nodup_iff.mpr (invoked_nodup counted)
  exact (List.nodup_append.mp nodup).2.1

/-- Every run keeps its books, delivers each completion that is returned, and
answers a poll that waits with `Idle` only when no call is left. -/
theorem keepsBooks_of_run {host : Host Call Raised}
    {actions : List (HostAction Call Completion Raised)} {final : HostRun Call Completion Raised}
    (ran : Run host actions final) :
    final.scheduler.KeepsBooks ∧
      final.polled.filterMap delivered = final.scheduler.history.filterMap asCompleted ∧
      ∀ admission first later,
        (final.scheduler.pollPendingNative host true admission first later).1 =
            .ready (.ok .idle) ↔
          final.scheduler.pendingNative = [] ∧ final.scheduler.immediateNative = [] ∧
            final.scheduler.deferredNative = [] := by
  have holds := runInvariant_of_run ran
  exact ⟨keepsBooks_of_invariant holds, holds.delivered,
    pollPendingNative_idle_iff host final.scheduler⟩

/-- An immediate call that runs, and a deferred call whose invocation fails. -/
abbrev failingHost : Host Bool Unit :=
  ⟨fun call => if call then .immediate else .deferred,
    fun call => if call then .ok () else .error (.raised ())⟩

/-- Both calls are scheduled, and one poll finds the immediate one ready. -/
abbrev failingActions : List (HostAction Bool Nat Unit) :=
  [.schedule 0 true, .schedule 1 false,
    .poll false (.ready (.ok ())) ⟨.pending, fun _ => .ready (.ok 7)⟩ []]

theorem keepsBooks_failing :
    ∃ final, Run failingHost failingActions final ∧ final.scheduler.KeepsBooks := by
  have ran : ∃ final, Run failingHost failingActions final := ⟨_, rfl⟩
  obtain ⟨final, ran⟩ := ran
  exact ⟨final, ran, (keepsBooks_of_run ran).1⟩

/-- The permit of the failed call is released and its completion not yet
taken. -/
theorem released_before_returned_failing :
    ¬ ∀ (actions : List (HostAction Bool Nat Unit)) final, Run failingHost actions final →
      ∀ serial ∈ final.scheduler.history.filterMap asReleased,
        serial ∈ final.scheduler.history.filterMap asReturned := by
  intro holds
  have taken := holds failingActions _ rfl 1 (by decide)
  revert taken
  decide

end HostScheduler

end RexLang
