import Mathlib.Logic.Relation
import RexLang.HostScheduler

/-!
# The steps of a host call

A poll of the pending host calls is a sequence of steps that grant a permit,
activate a call or note its answer, after which the completion of at most one
call is taken.  A poll that waits answers `Idle` only when there is no call.
-/

namespace RexLang

variable {Call Completion Raised : Type}

/-! ## Histories -/

namespace HostEvent

def asScheduled (scheduling : NativeCallScheduling) : HostEvent Completion Raised → Option Nat
  | .scheduled serial _ kind => if kind = scheduling then some serial else none
  | _ => none

def asInvoked (scheduling : NativeCallScheduling) : HostEvent Completion Raised → Option Nat
  | .invoked serial kind => if kind = scheduling then some serial else none
  | _ => none

def asGranted : HostEvent Completion Raised → Option Nat
  | .granted serial => some serial
  | _ => none

def asFailed : HostEvent Completion Raised → Option Nat
  | .failed serial _ => some serial
  | _ => none

def asReturned : HostEvent Completion Raised → Option Nat
  | .returned serial _ _ => some serial
  | _ => none

def asReleased : HostEvent Completion Raised → Option Nat
  | .released serial => some serial
  | _ => none

/-- The completion that the evaluator gets, with its frame. -/
def asCompleted : HostEvent Completion Raised → Option (FrameId × Completion)
  | .returned _ frame (.ok completion) => some (frame, completion)
  | _ => none

end HostEvent

open HostEvent

namespace HostScheduler

/-- The steps that a poll takes before it returns a completion. -/
inductive Internal (host : Host Call Raised) :
    HostScheduler Call Completion Raised → HostScheduler Call Completion Raised → Prop where
  | grant {scheduler queued rest} (queue : scheduler.deferredNative = queued :: rest)
      (unpermitted : queued.permit = none) :
      Internal host scheduler { scheduler with
        deferredNative := { queued with permit := some {} } :: rest
        history := scheduler.history ++ [.granted queued.serial] }
  | activateImmediate {scheduler queued rest} (queue : scheduler.immediateNative = queued :: rest) :
      Internal host scheduler { scheduler with
        immediateNative := rest
        pendingNative := scheduler.pendingNative ++ [(queued.activateImmediate host).1]
        history := scheduler.history ++ (queued.activateImmediate host).2 }
  | activateDeferred {scheduler queued rest} (queue : scheduler.deferredNative = queued :: rest)
      (permitted : queued.permit.isSome) :
      Internal host scheduler { scheduler with
        deferredNative := rest
        pendingNative := scheduler.pendingNative ++ [(queued.activateDeferred host).1]
        history := scheduler.history ++ (queued.activateDeferred host).2 }
  | answer {scheduler before pending after result}
      (running : scheduler.pendingNative = before ++ pending :: after)
      (polling : pending.state = .polling) :
      Internal host scheduler { scheduler with
        pendingNative := before ++ { pending with state := .ready result } :: after
        history := scheduler.history ++ [.answered pending.serial result] }

/-- A call that is ready is taken. -/
def TakesFrom (scheduler : HostScheduler Call Completion Raised)
    (pending : PendingNative Completion Raised) (next : HostScheduler Call Completion Raised) :
    Prop :=
  ∃ before after result, scheduler.pendingNative = before ++ pending :: after ∧
    pending.state = .ready result ∧
    next = { scheduler with
      pendingNative := before ++ after
      history := scheduler.history ++ pending.takenEvents }

abbrev Internals (host : Host Call Raised) :
    HostScheduler Call Completion Raised → HostScheduler Call Completion Raised → Prop :=
  Relation.ReflTransGen (Internal host)

section Steps

variable (host : Host Call Raised) (scheduler : HostScheduler Call Completion Raised)

theorem internals_tryAcquire (controller : Poll (Except (EngineError Raised) Unit)) :
    Internals host scheduler (scheduler.tryAcquireNextNativePermit controller).2 := by
  rw [tryAcquireNextNativePermit]
  split
  · exact .refl
  · next queued rest queue =>
      split
      · exact .refl
      · next unpermitted =>
          split
          · exact .single (.grant queue (by simpa using unpermitted))
          · exact .refl
          · exact .refl

theorem pendingNative_tryAcquire (controller : Poll (Except (EngineError Raised) Unit)) :
    (scheduler.tryAcquireNextNativePermit controller).2.pendingNative =
      scheduler.pendingNative := by
  rw [tryAcquireNextNativePermit]
  repeat' split
  all_goals rfl

theorem hasPendingNative_tryAcquire (controller : Poll (Except (EngineError Raised) Unit)) :
    (scheduler.tryAcquireNextNativePermit controller).2.hasPendingNative =
      scheduler.hasPendingNative := by
  rw [hasPendingNative, pendingNative_tryAcquire, hasPendingNative]

theorem hasDeferredNative_tryAcquire (controller : Poll (Except (EngineError Raised) Unit)) :
    (scheduler.tryAcquireNextNativePermit controller).2.hasDeferredNative =
      scheduler.hasDeferredNative := by
  rw [tryAcquireNextNativePermit]
  split
  · rfl
  · next queued rest queue =>
      repeat' split
      all_goals simp [hasDeferredNative, queue]

/-- With the answer `true` the first deferred call has a permit. -/
theorem permit_of_tryAcquire {controller : Poll (Except (EngineError Raised) Unit)}
    (acquired : (scheduler.tryAcquireNextNativePermit controller).1 = .ready (.ok true)) :
    ∃ queued rest,
      (scheduler.tryAcquireNextNativePermit controller).2.deferredNative = queued :: rest ∧
        queued.permit.isSome := by
  revert acquired
  rw [tryAcquireNextNativePermit]
  split
  · intro acquired
    cases acquired
  · next queued rest queue =>
      split
      · next permitted => exact fun _ => ⟨queued, rest, queue, permitted⟩
      · split
        · exact fun _ => ⟨_, rest, rfl, rfl⟩
        · intro acquired
          cases acquired
        · intro acquired
          cases acquired

/-- The answer is `false` only when no call is deferred. -/
theorem not_hasDeferredNative_of_tryAcquire {controller : Poll (Except (EngineError Raised) Unit)}
    (acquired : (scheduler.tryAcquireNextNativePermit controller).1 = .ready (.ok false)) :
    scheduler.hasDeferredNative = false := by
  revert acquired
  rw [tryAcquireNextNativePermit]
  split
  · next queue => simp [hasDeferredNative, queue]
  · repeat' split
    all_goals
      intro acquired
      cases acquired

theorem internals_activateNextImmediate :
    Internals host scheduler (scheduler.activateNextImmediateNative host).2 := by
  rw [activateNextImmediateNative]
  split
  · exact .refl
  · next queue => exact .single (.activateImmediate queue)

/-- With an immediate call there is a running one afterwards. -/
theorem hasPendingNative_activateNextImmediate :
    (scheduler.activateNextImmediateNative host).2.hasPendingNative =
      (scheduler.hasImmediateNative || scheduler.hasPendingNative) := by
  rw [activateNextImmediateNative]
  split
  · next queue => simp [hasImmediateNative, queue]
  · next queue => simp [hasImmediateNative, hasPendingNative, queue]

theorem hasImmediateNative_of_activateNextImmediate
    (idle : (scheduler.activateNextImmediateNative host).2.hasPendingNative = false) :
    (scheduler.activateNextImmediateNative host).2 = scheduler := by
  rw [hasPendingNative_activateNextImmediate, Bool.or_eq_false_iff] at idle
  have queue : scheduler.immediateNative = [] := by simpa [hasImmediateNative] using idle.1
  rw [activateNextImmediateNative, queue]

theorem internals_activateNextPermitted :
    Internals host scheduler (scheduler.activateNextPermittedDeferredNative host).2 := by
  rw [activateNextPermittedDeferredNative]
  split
  · exact .refl
  · next queued rest queue =>
      split
      · exact .refl
      · next permitted =>
          exact .single (.activateDeferred queue (by simpa [Option.isSome_iff_ne_none] using permitted))

/-- A first deferred call with a permit is activated. -/
theorem activateNextPermitted_of_permit {queued : QueuedNative Call}
    {rest : List (QueuedNative Call)} (queue : scheduler.deferredNative = queued :: rest)
    (permitted : queued.permit.isSome) :
    (scheduler.activateNextPermittedDeferredNative host).1 = true ∧
      (scheduler.activateNextPermittedDeferredNative host).2.hasPendingNative = true := by
  obtain ⟨permit, found⟩ := Option.isSome_iff_exists.mp permitted
  rw [activateNextPermittedDeferredNative, queue]
  simp [found, hasPendingNative]

theorem internals_admitAvailable (controller : Poll (Except (EngineError Raised) Unit)) :
    Internals host scheduler (scheduler.admitAvailableDeferredNative host controller).2 := by
  have acquires := internals_tryAcquire host scheduler controller
  rw [admitAvailableDeferredNative]
  split
  · next acquired =>
      rw [acquired] at acquires
      exact acquires.trans (internals_activateNextPermitted host _)
  · next acquired => rwa [acquired] at acquires
  · next acquired => rwa [acquired] at acquires
  · next acquired => rwa [acquired] at acquires

/-- Either a call runs after the admission, or none ran before and the deferred
calls are as they were. -/
theorem hasPendingNative_admitAvailable {controller : Poll (Except (EngineError Raised) Unit)}
    (idle : (scheduler.admitAvailableDeferredNative host controller).2.hasPendingNative = false) :
    scheduler.hasPendingNative = false ∧
      (scheduler.admitAvailableDeferredNative host controller).2.hasDeferredNative =
        scheduler.hasDeferredNative := by
  have running := pendingNative_tryAcquire scheduler controller
  have deferred := hasDeferredNative_tryAcquire scheduler controller
  have permit := @permit_of_tryAcquire _ _ _ scheduler controller
  revert idle
  rw [admitAvailableDeferredNative]
  split
  · next acquired =>
      rw [acquired] at permit
      obtain ⟨queued, rest, queue, permitted⟩ := permit rfl
      have activated := activateNextPermitted_of_permit host _ queue permitted
      intro idle
      rw [activated.2] at idle
      cases idle
  all_goals
    next acquired =>
      rw [acquired] at running deferred
      intro idle
      exact ⟨by rwa [hasPendingNative, running] at idle, deferred⟩

/-! ## One poll -/

/-- The call at an index of the running calls is ready. -/
def ReadyAt (scheduler : HostScheduler Call Completion Raised) (index : Nat) : Prop :=
  ∃ before pending after result, scheduler.pendingNative = before ++ pending :: after ∧
    before.length = index ∧ pending.state = .ready result

theorem pollCalls_spec {future : Nat → Poll (Except (EngineError Raised) Completion)}
    {running : List (PendingNative Completion Raised)} {index : Nat}
    {polled : PendingNative Completion Raised} {events : List (HostEvent Completion Raised)}
    (found : pollCalls future running = some (index, polled, events)) :
    ∃ before pending after result, running = before ++ pending :: after ∧
      before.length = index ∧ polled = { pending with state := .ready result } ∧
      (pending.state = .polling ∧ events = [.answered pending.serial result] ∨
        pending.state = .ready result ∧ events = []) := by
  induction running generalizing index with
  | nil => cases found
  | cons pending rest hypothesis =>
      rw [pollCalls] at found
      split at found
      · next isReady =>
          cases found
          rw [PendingNative.poll] at isReady
          refine ⟨[], pending, rest, ?_⟩
          split at isReady
          · next polling =>
              split at isReady
              · next result _ =>
                  cases isReady
                  exact ⟨result, rfl, rfl, rfl, .inl ⟨polling, rfl⟩⟩
              · cases isReady
          · next result ready =>
              cases isReady
              refine ⟨result, rfl, rfl, ?_, .inr ⟨ready, rfl⟩⟩
              rw [← ready]
      · obtain ⟨⟨inner, more⟩, foundRest, same⟩ := Option.map_eq_some_iff.mp found
        cases same
        obtain ⟨before, pending', after, result, rfl, rfl, isPolled⟩ := hypothesis foundRest
        exact ⟨pending :: before, pending', after, result, rfl, rfl, isPolled⟩

theorem pollPendingNativeOnce_some {future : Nat → Poll (Except (EngineError Raised) Completion)}
    {index : Nat} {next : HostScheduler Call Completion Raised}
    (polled : scheduler.pollPendingNativeOnce future = (some index, next)) :
    Internals host scheduler next ∧ next.ReadyAt index := by
  rw [pollPendingNativeOnce] at polled
  split at polled
  · cases polled
  · next found =>
      cases polled
      obtain ⟨before, pending, after, result, running, rfl, rfl, ⟨polling, rfl⟩ | ⟨ready, rfl⟩⟩ :=
        pollCalls_spec found
      · have replaced : scheduler.pendingNative.set before.length
            { pending with state := .ready result } =
            before ++ { pending with state := .ready result } :: after := by
          simp [running]
        rw [replaced]
        exact ⟨.single (.answer running polling), before, _, after, result, rfl, rfl, rfl⟩
      · have unchanged : scheduler.pendingNative.set before.length
            { pending with state := .ready result } = scheduler.pendingNative := by
          simp [running, ← ready]
        rw [unchanged, List.append_nil]
        exact ⟨.refl, before, pending, after, result, running, rfl, ready⟩

theorem pollPendingNativeOnce_none {future : Nat → Poll (Except (EngineError Raised) Completion)}
    {next : HostScheduler Call Completion Raised}
    (polled : scheduler.pollPendingNativeOnce future = (none, next)) : next = scheduler := by
  rw [pollPendingNativeOnce] at polled
  split at polled
  · cases polled
    rfl
  · cases polled

/-- The answers of `poll_pending_native`: after internal steps it returns no
completion, or that of a call that it takes. -/
def Polls (output : Poll (Except (EngineError Raised) (NativePoll Completion)) ×
    HostScheduler Call Completion Raised) : Prop :=
  ∃ middle, Internals host scheduler middle ∧
    (output.2 = middle ∧ (∀ frame completion, output.1 ≠ .ready (.ok (.completed frame completion))) ∨
      ∃ pending, middle.TakesFrom pending output.2 ∧
        output.1 = .ready (pending.intoCompletion.map fun taken => .completed taken.1 taken.2))

variable {host scheduler} in
theorem Polls.after {middle : HostScheduler Call Completion Raised}
    {output : Poll (Except (EngineError Raised) (NativePoll Completion)) ×
      HostScheduler Call Completion Raised}
    (internals : Internals host scheduler middle) (polls : middle.Polls host output) :
    scheduler.Polls host output := by
  obtain ⟨last, more, outcome⟩ := polls
  exact ⟨last, internals.trans more, outcome⟩

theorem polls_activateNextPermitted :
    scheduler.Polls host
      (.ready (.ok (if (scheduler.activateNextPermittedDeferredNative host).1 then .progress
        else .idle)), (scheduler.activateNextPermittedDeferredNative host).2) := by
  refine ⟨_, internals_activateNextPermitted host scheduler, .inl ⟨rfl, fun frame completion => ?_⟩⟩
  split <;> simp

theorem polls_waitForPermit (answers : List (Answers Completion Raised)) :
    scheduler.Polls host (waitForPermit host answers scheduler) := by
  induction answers generalizing scheduler with
  | nil => exact ⟨_, .refl, .inl ⟨rfl, by simp [waitForPermit]⟩⟩
  | cons answer later hypothesis =>
      have acquires := internals_tryAcquire host scheduler answer.controller
      rw [waitForPermit]
      split
      · next acquired =>
          rw [acquired] at acquires
          exact .after acquires (polls_activateNextPermitted host _)
      · next acquired =>
          rw [acquired] at acquires
          exact ⟨_, acquires, .inl ⟨rfl, by simp⟩⟩
      · next acquired =>
          rw [acquired] at acquires
          exact .after acquires (hypothesis _)

theorem polls_finishNative_completion {index : Nat} (ready : scheduler.ReadyAt index) :
    scheduler.Polls host (.ready (finishNative host (.completion index) scheduler).1,
      (finishNative host (.completion index) scheduler).2) := by
  obtain ⟨before, pending, after, result, running, rfl, isReady⟩ := ready
  refine ⟨scheduler, .refl, .inr ⟨pending, ⟨before, after, result, running, isReady, ?_⟩, ?_⟩⟩
  · have erased : (before ++ pending :: after).eraseIdx before.length = before ++ after := by
      rw [List.eraseIdx_append_of_length_le (Nat.le_refl _)]
      simp
    simp [finishNative, takePendingNativeCompletion, running, erased]
  · simp [finishNative, takePendingNativeCompletion, running]

theorem internals_waitForNative {answers : List (Answers Completion Raised)}
    {event : Poll (Except (EngineError Raised) NativeWaitEvent)}
    {next : HostScheduler Call Completion Raised}
    (waits : waitForNative answers scheduler = (event, next)) :
    Internals host scheduler next ∧
      ∀ index, event = .ready (.ok (.completion index)) → next.ReadyAt index := by
  induction answers generalizing scheduler with
  | nil =>
      cases waits
      exact ⟨.refl, by simp⟩
  | cons answer later hypothesis =>
      rw [waitForNative] at waits
      split at waits
      · next polled =>
          cases waits
          obtain ⟨internals, ready⟩ := pollPendingNativeOnce_some host scheduler polled
          exact ⟨internals, fun index same => by cases same; exact ready⟩
      · next polled =>
          rw [pollPendingNativeOnce_none scheduler polled] at waits
          have acquires := internals_tryAcquire host scheduler answer.controller
          split at waits
          · next acquired =>
              cases waits
              exact ⟨by rwa [acquired] at acquires, by simp⟩
          · next acquired =>
              cases waits
              exact ⟨by rwa [acquired] at acquires, by simp⟩
          all_goals
            next acquired =>
              rw [acquired] at acquires
              split at waits
              · obtain ⟨internals, ready⟩ := hypothesis _ waits
                exact ⟨acquires.trans internals, ready⟩
              · cases waits
                exact ⟨acquires, by simp⟩

theorem polls_pollActivated (wait progressed : Bool) (first : Answers Completion Raised)
    (later : List (Answers Completion Raised)) :
    scheduler.Polls host (scheduler.pollActivated host wait progressed first later) := by
  have nothing : ∀ output : Poll (Except (EngineError Raised) (NativePoll Completion)),
      (∀ frame completion, output ≠ .ready (.ok (.completed frame completion))) →
      scheduler.Polls host (output, scheduler) :=
    fun output none => ⟨_, .refl, .inl ⟨rfl, none⟩⟩
  rw [pollActivated]
  split
  · split
    · refine nothing _ fun frame completion => ?_
      split <;> simp
    · exact polls_waitForPermit host scheduler _
  · split
    · split
      · next waits =>
          obtain ⟨internals, -⟩ := internals_waitForNative host scheduler waits
          exact ⟨_, internals, .inl ⟨rfl, by simp⟩⟩
      · next waits =>
          obtain ⟨internals, -⟩ := internals_waitForNative host scheduler waits
          exact ⟨_, internals, .inl ⟨rfl, by simp⟩⟩
      · next event _ waits =>
          obtain ⟨internals, ready⟩ := internals_waitForNative host scheduler waits
          refine .after internals ?_
          cases event with
          | completion index => exact polls_finishNative_completion host _ (ready index rfl)
          | permit => exact polls_activateNextPermitted host _
          | idle => exact polls_activateNextPermitted host _
    · split
      · next polled =>
          rw [pollPendingNativeOnce_none scheduler polled]
          refine nothing _ fun frame completion => ?_
          split <;> simp
      · next polled =>
          obtain ⟨internals, ready⟩ := pollPendingNativeOnce_some host scheduler polled
          exact .after internals (polls_finishNative_completion host _ ready)

theorem polls_pollPendingNative (wait : Bool)
    (admission : Poll (Except (EngineError Raised) Unit)) (first : Answers Completion Raised)
    (later : List (Answers Completion Raised)) :
    scheduler.Polls host (scheduler.pollPendingNative host wait admission first later) := by
  rw [pollPendingNative]
  split
  · exact ⟨_, .refl, .inl ⟨rfl, by simp⟩⟩
  · have activates := internals_activateNextImmediate host scheduler
    generalize scheduler.activateNextImmediateNative host = activated at activates ⊢
    have admits := internals_admitAvailable host activated.2 admission
    refine .after activates ?_
    dsimp only
    split
    · next admitted =>
        rw [admitted] at admits
        exact ⟨_, admits, .inl ⟨rfl, by simp⟩⟩
    · next admitted =>
        rw [admitted] at admits
        exact .after admits (polls_pollActivated host _ _ _ _ _)

/-! ## A poll that waits -/

theorem waitForPermit_ne_idle {answers : List (Answers Completion Raised)}
    (deferred : scheduler.hasDeferredNative = true) :
    (waitForPermit host answers scheduler).1 ≠ .ready (.ok .idle) := by
  induction answers generalizing scheduler with
  | nil => simp [waitForPermit]
  | cons answer later hypothesis =>
      have permit := @permit_of_tryAcquire _ _ _ scheduler answer.controller
      have some := @not_hasDeferredNative_of_tryAcquire _ _ _ scheduler answer.controller
      have same := hasDeferredNative_tryAcquire scheduler answer.controller
      rw [waitForPermit]
      split
      · next acquired _ found =>
          rw [found] at permit some
          cases acquired with
          | true =>
              obtain ⟨queued, rest, queue, permitted⟩ := permit rfl
              simp [(activateNextPermitted_of_permit host _ queue permitted).1]
          | false =>
              rw [some rfl] at deferred
              cases deferred
      · simp
      · next found =>
          rw [found] at same
          exact hypothesis _ (same.trans deferred)

theorem waitForNative_event {answers : List (Answers Completion Raised)}
    {event : NativeWaitEvent} {next : HostScheduler Call Completion Raised}
    (pending : scheduler.hasPendingNative = true)
    (waits : waitForNative answers scheduler = (.ready (.ok event), next)) :
    event ≠ .idle ∧ (event = .permit → ∃ queued rest,
      next.deferredNative = queued :: rest ∧ queued.permit.isSome) := by
  induction answers generalizing scheduler with
  | nil => cases waits
  | cons answer later hypothesis =>
      have permit := @permit_of_tryAcquire _ _ _ scheduler answer.controller
      have same := hasPendingNative_tryAcquire scheduler answer.controller
      rw [waitForNative] at waits
      split at waits
      · cases waits
        exact ⟨by simp, by simp⟩
      · next polled =>
          rw [pollPendingNativeOnce_none scheduler polled] at waits
          split at waits
          · next found =>
              cases waits
              rw [found] at permit
              exact ⟨by simp, fun _ => permit rfl⟩
          · cases waits
          all_goals
            next found =>
              rw [found] at same
              rw [if_pos (same.trans pending)] at waits
              exact hypothesis _ (same.trans pending) waits

theorem pollActivated_ne_idle {progressed : Bool} {first : Answers Completion Raised}
    {later : List (Answers Completion Raised)}
    (someCall : scheduler.hasPendingNative = true ∨ scheduler.hasDeferredNative = true) :
    (scheduler.pollActivated host true progressed first later).1 ≠ .ready (.ok .idle) := by
  rw [pollActivated]
  split
  · next notPending =>
      have deferred : scheduler.hasDeferredNative = true := by
        rcases someCall with pending | deferred
        · simp [pending] at notPending
        · exact deferred
      rw [if_neg (by simp [deferred])]
      exact waitForPermit_ne_idle host scheduler deferred
  · next pending =>
      rw [if_pos rfl]
      split
      · simp
      · simp
      · next event _ waits =>
          obtain ⟨notIdle, permit⟩ := waitForNative_event scheduler (by simpa using pending) waits
          cases event with
          | completion index =>
              simp only [finishNative, ne_eq, Poll.ready.injEq]
              generalize Prod.fst (takePendingNativeCompletion index _) = taken
              cases taken <;> simp [Except.map]
          | permit =>
              obtain ⟨queued, rest, queue, permitted⟩ := permit rfl
              simp [finishNative, (activateNextPermitted_of_permit host _ queue permitted).1]
          | idle => exact absurd rfl notIdle

/-- A poll that waits answers `Idle` only when there is no call. -/
theorem pollPendingNative_idle_iff (admission : Poll (Except (EngineError Raised) Unit))
    (first : Answers Completion Raised) (later : List (Answers Completion Raised)) :
    (scheduler.pollPendingNative host true admission first later).1 = .ready (.ok .idle) ↔
      scheduler.pendingNative = [] ∧ scheduler.immediateNative = [] ∧
        scheduler.deferredNative = [] := by
  constructor
  · contrapose
    intro someCall
    rw [pollPendingNative, if_neg]
    · have activates := hasPendingNative_activateNextImmediate host scheduler
      have unchanged := hasImmediateNative_of_activateNextImmediate host scheduler
      generalize scheduler.activateNextImmediateNative host = activated at activates unchanged ⊢
      have admits := @hasPendingNative_admitAvailable _ _ _ host activated.2 admission
      dsimp only
      split
      · simp
      · next admitted =>
          rw [admitted] at admits
          refine pollActivated_ne_idle host _ ?_
          by_contra none
          simp only [not_or, Bool.not_eq_true] at none
          obtain ⟨notPending, deferred⟩ := admits none.1
          have same := unchanged notPending
          rw [none.2, same] at deferred
          rw [same] at notPending
          rw [same, notPending, Bool.or_false] at activates
          simp_all [hasPendingNative, hasImmediateNative, hasDeferredNative]
    · simpa [hasPendingNative, hasImmediateNative, hasDeferredNative, and_assoc] using someCall
  · rintro ⟨pending, immediate, deferred⟩
    simp [pollPendingNative, hasPendingNative, hasImmediateNative, hasDeferredNative, pending,
      immediate, deferred]

end Steps

end HostScheduler

end RexLang
