import Mathlib.Data.List.Perm.Lattice
import RexLang.HostCallSteps

/-!
# The queues of host calls and their history

Every call is in one queue until its completion is returned, and the history of
the invocations and of the permits determines which calls still wait.
-/

namespace RexLang

variable {Call Completion Raised : Type}

namespace HostScheduler

open HostEvent

/-- The calls in the queues against the history. -/
structure Counted (scheduler : HostScheduler Call Completion Raised) : Prop where
  scheduled_perm :
    (scheduler.history.filterMap (asScheduled .immediate) ++
      scheduler.history.filterMap (asScheduled .deferred)).Perm (List.range scheduler.scheduled)
  partition :
    (scheduler.immediateNative.map QueuedNative.serial ++
      scheduler.deferredNative.map QueuedNative.serial ++
      scheduler.pendingNative.map PendingNative.serial ++
      scheduler.history.filterMap asReturned).Perm (List.range scheduler.scheduled)
  immediate_eq : scheduler.history.filterMap (asScheduled .immediate) =
    scheduler.history.filterMap (asInvoked .immediate) ++
      scheduler.immediateNative.map QueuedNative.serial
  deferred_eq : scheduler.history.filterMap (asScheduled .deferred) =
    scheduler.history.filterMap (asInvoked .deferred) ++
      scheduler.deferredNative.map QueuedNative.serial
  granted_eq : scheduler.history.filterMap asGranted =
    scheduler.history.filterMap (asInvoked .deferred) ++
      (scheduler.deferredNative.filter (·.permit.isSome)).map QueuedNative.serial
  unpermitted_tail : ∀ queued ∈ scheduler.deferredNative.tail, queued.permit = none
  released_perm :
    ((scheduler.pendingNative.filter (·.permit.isSome)).map PendingNative.serial ++
      scheduler.history.filterMap asReleased).Perm
      (scheduler.history.filterMap (asInvoked .deferred))
  failed_invoked : ∀ serial ∈ scheduler.history.filterMap asFailed,
    serial ∈ scheduler.history.filterMap (asInvoked .immediate) ∨
      serial ∈ scheduler.history.filterMap (asInvoked .deferred)
  failed_unpermitted : ∀ pending ∈ scheduler.pendingNative, pending.permit.isSome →
    pending.serial ∉ scheduler.history.filterMap asFailed

theorem counted_new : Counted (new : HostScheduler Call Completion Raised) := by
  constructor <;> simp [new]

attribute [local simp] asScheduled asInvoked asGranted asFailed asReturned asReleased
  List.filterMap_append List.filterMap_cons List.count_append List.count_cons List.filter_append

theorem counted_scheduleNative {scheduler : HostScheduler Call Completion Raised}
    (counted : scheduler.Counted) (host : Host Call Raised) (frame : FrameId) (call : Call) :
    (scheduler.scheduleNative host frame call).Counted := by
  obtain ⟨scheduledPerm, partition, immediateEq, deferredEq, grantedEq, unpermittedTail,
    releasedPerm, failedInvoked, failedUnpermitted⟩ := counted
  simp only [List.perm_iff_count] at scheduledPerm partition releasedPerm
  rw [scheduleNative]
  cases kind : host.scheduling call with
  | immediate =>
      constructor
      · simp only [List.perm_iff_count, List.range_succ]
        intro serial
        have before := scheduledPerm serial
        simp at before ⊢
        omega
      · simp only [List.perm_iff_count, List.range_succ]
        intro serial
        have before := partition serial
        simp at before ⊢
        omega
      · simp [immediateEq]
      · simpa using deferredEq
      · simpa using grantedEq
      · exact unpermittedTail
      · simpa [List.perm_iff_count] using releasedPerm
      · simpa using failedInvoked
      · simpa using failedUnpermitted
  | deferred =>
      constructor
      · simp only [List.perm_iff_count, List.range_succ]
        intro serial
        have before := scheduledPerm serial
        simp at before ⊢
        omega
      · simp only [List.perm_iff_count, List.range_succ]
        intro serial
        have before := partition serial
        simp at before ⊢
        omega
      · simpa using immediateEq
      · simp [deferredEq]
      · simpa using grantedEq
      · intro queued member
        rcases queue : scheduler.deferredNative with _ | ⟨front, rest⟩
        · simp [queue] at member
        · simp only [queue, List.cons_append, List.tail_cons, List.mem_append,
            List.mem_singleton] at member unpermittedTail
          rcases member with member | rfl
          · exact unpermittedTail queued member
          · rfl
      · simpa [List.perm_iff_count] using releasedPerm
      · simpa using failedInvoked
      · simpa using failedUnpermitted

/-- A call is in one place only. -/
theorem count_partition_le_one {scheduler : HostScheduler Call Completion Raised}
    (counted : scheduler.Counted) (serial : Nat) :
    (scheduler.immediateNative.map QueuedNative.serial).count serial +
      (scheduler.deferredNative.map QueuedNative.serial).count serial +
      (scheduler.pendingNative.map PendingNative.serial).count serial +
      (scheduler.history.filterMap asReturned).count serial ≤ 1 := by
  have nodup := counted.partition.nodup_iff.mpr List.nodup_range
  have count := List.nodup_iff_count_le_one.mp nodup serial
  simpa only [List.count_append] using count

/-- The invocation of a queued call did not fail before. -/
theorem not_failed_of_deferred {scheduler : HostScheduler Call Completion Raised}
    (counted : scheduler.Counted) {queued : QueuedNative Call}
    (member : queued ∈ scheduler.deferredNative) :
    queued.serial ∉ scheduler.history.filterMap asFailed := by
  have nodup := counted.scheduled_perm.nodup_iff.mpr List.nodup_range
  rw [counted.immediate_eq, counted.deferred_eq] at nodup
  have count := List.nodup_iff_count_le_one.mp nodup queued.serial
  have inQueue : 0 < (scheduler.deferredNative.map QueuedNative.serial).count queued.serial :=
    List.count_pos_iff.mpr (List.mem_map_of_mem member)
  intro failed
  simp only [List.count_append] at count
  rcases counted.failed_invoked _ failed with invoked | invoked
  all_goals
    have positive := List.count_pos_iff.mpr invoked
    omega

theorem filter_permit_eq_nil {queue : List (QueuedNative Call)}
    (unpermitted : ∀ queued ∈ queue, queued.permit = none) :
    queue.filter (·.permit.isSome) = [] := by
  rw [List.filter_eq_nil_iff]
  intro queued member
  simp [unpermitted queued member]

/-- A running call is not queued. -/
theorem pending_serial_ne {scheduler : HostScheduler Call Completion Raised}
    (counted : scheduler.Counted) {queued : QueuedNative Call}
    (inQueue : queued ∈ scheduler.immediateNative ++ scheduler.deferredNative)
    {pending : PendingNative Completion Raised} (running : pending ∈ scheduler.pendingNative) :
    pending.serial ≠ queued.serial := by
  intro same
  have once := count_partition_le_one counted queued.serial
  have isRunning : queued.serial ∈ scheduler.pendingNative.map PendingNative.serial :=
    same ▸ List.mem_map_of_mem running
  have isQueued : queued.serial ∈ scheduler.immediateNative.map QueuedNative.serial ++
      scheduler.deferredNative.map QueuedNative.serial := by
    rw [← List.map_append]
    exact List.mem_map_of_mem inQueue
  have runningPositive := List.count_pos_iff.mpr isRunning
  have queuedPositive := List.count_pos_iff.mpr isQueued
  rw [List.count_append] at queuedPositive
  omega

theorem counted_grant {scheduler : HostScheduler Call Completion Raised}
    (counted : scheduler.Counted) {queued : QueuedNative Call} {rest : List (QueuedNative Call)}
    (queue : scheduler.deferredNative = queued :: rest) (unpermitted : queued.permit = none) :
    Counted { scheduler with
      deferredNative := { queued with permit := some {} } :: rest
      history := scheduler.history ++ [.granted queued.serial] } := by
  obtain ⟨scheduledPerm, partition, immediateEq, deferredEq, grantedEq, unpermittedTail,
    releasedPerm, failedInvoked, failedUnpermitted⟩ := counted
  rw [queue] at unpermittedTail
  have restUnpermitted := filter_permit_eq_nil unpermittedTail
  rw [List.tail_cons] at restUnpermitted
  constructor
  · simpa using scheduledPerm
  · simpa [queue] using partition
  · simpa using immediateEq
  · simpa [queue] using deferredEq
  · simpa [queue, unpermitted, restUnpermitted] using grantedEq
  · exact unpermittedTail
  · simpa using releasedPerm
  · simpa using failedInvoked
  · simpa using failedUnpermitted

theorem counted_activateImmediate (host : Host Call Raised)
    {scheduler : HostScheduler Call Completion Raised}
    (counted : scheduler.Counted) {queued : QueuedNative Call} {rest : List (QueuedNative Call)}
    (queue : scheduler.immediateNative = queued :: rest) :
    Counted { scheduler with
      immediateNative := rest
      pendingNative := scheduler.pendingNative ++ [(queued.activateImmediate host).1]
      history := scheduler.history ++ (queued.activateImmediate host).2 } := by
  have apart : ∀ pending ∈ scheduler.pendingNative, pending.serial ≠ queued.serial :=
    fun pending => pending_serial_ne counted (by simp [queue])
  obtain ⟨scheduledPerm, partition, immediateEq, deferredEq, grantedEq, unpermittedTail,
    releasedPerm, failedInvoked, failedUnpermitted⟩ := counted
  have moved : ∀ serial, List.count serial (rest.map QueuedNative.serial ++
      scheduler.deferredNative.map QueuedNative.serial ++
      (scheduler.pendingNative.map PendingNative.serial ++ [queued.serial]) ++
      scheduler.history.filterMap asReturned) = List.count serial (List.range scheduler.scheduled) := by
    intro serial
    have before := List.perm_iff_count.mp partition serial
    simp [queue] at before ⊢
    omega
  rw [← List.perm_iff_count] at moved
  rw [QueuedNative.activateImmediate]
  constructor
  · split <;> simpa using scheduledPerm
  · split <;> simpa using moved
  · split <;> simpa [queue] using immediateEq
  · split <;> simpa using deferredEq
  · split <;> simpa using grantedEq
  · exact unpermittedTail
  · split <;> simpa using releasedPerm
  · intro serial failed
    have invoked := failedInvoked serial
    split at failed
    all_goals
      simp [-List.mem_filterMap] at failed ⊢
      tauto
  · intro pending running permitted
    split at running
    all_goals
      simp [-List.mem_filterMap] at running ⊢
      rcases running with running | rfl
    · exact failedUnpermitted pending running permitted
    · cases permitted
    · exact ⟨failedUnpermitted pending running permitted, apart pending running⟩
    · cases permitted

theorem counted_activateDeferred (host : Host Call Raised)
    {scheduler : HostScheduler Call Completion Raised}
    (counted : scheduler.Counted) {queued : QueuedNative Call} {rest : List (QueuedNative Call)}
    (queue : scheduler.deferredNative = queued :: rest) (permitted : queued.permit.isSome) :
    Counted { scheduler with
      deferredNative := rest
      pendingNative := scheduler.pendingNative ++ [(queued.activateDeferred host).1]
      history := scheduler.history ++ (queued.activateDeferred host).2 } := by
  have apart : ∀ pending ∈ scheduler.pendingNative, pending.serial ≠ queued.serial :=
    fun pending => pending_serial_ne counted (by simp [queue])
  have inQueue : queued ∈ scheduler.deferredNative := by simp [queue]
  have notFailed := not_failed_of_deferred counted inQueue
  obtain ⟨scheduledPerm, partition, immediateEq, deferredEq, grantedEq, unpermittedTail,
    releasedPerm, failedInvoked, failedUnpermitted⟩ := counted
  rw [queue] at unpermittedTail
  have restUnpermitted := filter_permit_eq_nil unpermittedTail
  rw [List.tail_cons] at restUnpermitted
  have moved : ∀ serial, List.count serial (scheduler.immediateNative.map QueuedNative.serial ++
      rest.map QueuedNative.serial ++
      (scheduler.pendingNative.map PendingNative.serial ++ [queued.serial]) ++
      scheduler.history.filterMap asReturned) = List.count serial (List.range scheduler.scheduled) := by
    intro serial
    have before := List.perm_iff_count.mp partition serial
    simp [queue] at before ⊢
    omega
  rw [← List.perm_iff_count] at moved
  obtain ⟨permit, found⟩ := Option.isSome_iff_exists.mp permitted
  simp only [QueuedNative.activateDeferred, found]
  constructor
  · split <;> simpa using scheduledPerm
  · split <;> simpa using moved
  · split <;> simpa using immediateEq
  · split <;> simpa [queue] using deferredEq
  · split <;> simpa [queue, permitted, restUnpermitted] using grantedEq
  · exact fun queued member => unpermittedTail queued (List.mem_of_mem_tail member)
  · rw [List.perm_iff_count] at releasedPerm ⊢
    intro serial
    have before := releasedPerm serial
    split
    all_goals
      simp at before ⊢
      omega
  · intro serial failed
    have invoked := failedInvoked serial
    split at failed
    all_goals
      simp [-List.mem_filterMap] at failed ⊢
      tauto
  · intro pending running permitted
    split at running
    all_goals
      simp [-List.mem_filterMap] at running ⊢
      rcases running with running | rfl
    · exact failedUnpermitted pending running permitted
    · exact notFailed
    · exact ⟨failedUnpermitted pending running permitted, apart pending running⟩
    · cases permitted

theorem counted_answer {scheduler : HostScheduler Call Completion Raised}
    (counted : scheduler.Counted) {before after : List (PendingNative Completion Raised)}
    {pending : PendingNative Completion Raised}
    {result : Except (EngineError Raised) Completion}
    (running : scheduler.pendingNative = before ++ pending :: after) :
    Counted { scheduler with
      pendingNative := before ++ { pending with state := .ready result } :: after
      history := scheduler.history ++ [.answered pending.serial result] } := by
  obtain ⟨scheduledPerm, partition, immediateEq, deferredEq, grantedEq, unpermittedTail,
    releasedPerm, failedInvoked, failedUnpermitted⟩ := counted
  constructor
  · simpa using scheduledPerm
  · simpa [running] using partition
  · simpa using immediateEq
  · simpa using deferredEq
  · simpa using grantedEq
  · exact unpermittedTail
  · rw [running] at releasedPerm
    cases permit : pending.permit <;> simpa [permit] using releasedPerm
  · simpa using failedInvoked
  · intro other member permitted
    simp [-List.mem_filterMap] at member ⊢
    rw [running] at failedUnpermitted
    rcases member with member | rfl | member
    · exact failedUnpermitted other (by simp [member]) permitted
    · exact failedUnpermitted pending (by simp) permitted
    · exact failedUnpermitted other (by simp [member]) permitted

theorem counted_takesFrom {scheduler next : HostScheduler Call Completion Raised}
    (counted : scheduler.Counted) {pending : PendingNative Completion Raised}
    (taken : scheduler.TakesFrom pending next) : next.Counted := by
  obtain ⟨before, after, result, running, isReady, rfl⟩ := taken
  obtain ⟨scheduledPerm, partition, immediateEq, deferredEq, grantedEq, unpermittedTail,
    releasedPerm, failedInvoked, failedUnpermitted⟩ := counted
  rw [PendingNative.takenEvents]
  rw [running] at partition releasedPerm failedUnpermitted
  rw [List.perm_iff_count] at partition releasedPerm
  have others : ∀ other ∈ before ++ after, other ∈ before ++ pending :: after := by
    intro other member
    simp only [List.mem_append, List.mem_cons] at member ⊢
    tauto
  have moved : ∀ serial, List.count serial (scheduler.immediateNative.map QueuedNative.serial ++
      scheduler.deferredNative.map QueuedNative.serial ++
      ((before ++ after).map PendingNative.serial) ++
      (scheduler.history.filterMap asReturned ++ [pending.serial])) =
        List.count serial (List.range scheduler.scheduled) := by
    intro serial
    have before := partition serial
    simp at before ⊢
    omega
  rw [← List.perm_iff_count] at moved
  split
  · next permitted =>
      constructor
      · simpa using scheduledPerm
      · simpa using moved
      · simpa using immediateEq
      · simpa using deferredEq
      · simpa using grantedEq
      · exact unpermittedTail
      · rw [List.perm_iff_count]
        intro serial
        have before := releasedPerm serial
        simp [permitted] at before ⊢
        omega
      · simpa using failedInvoked
      · intro other member permitted
        simp [-List.mem_filterMap, -List.mem_append] at member ⊢
        exact failedUnpermitted other (others other member) permitted
  · next unpermitted =>
      constructor
      · simpa using scheduledPerm
      · simpa using moved
      · simpa using immediateEq
      · simpa using deferredEq
      · simpa using grantedEq
      · exact unpermittedTail
      · rw [List.perm_iff_count]
        intro serial
        have before := releasedPerm serial
        simp [unpermitted] at before ⊢
        omega
      · simpa using failedInvoked
      · intro other member permitted
        simp [-List.mem_filterMap, -List.mem_append] at member ⊢
        exact failedUnpermitted other (others other member) permitted

theorem counted_internals {host : Host Call Raised}
    {scheduler next : HostScheduler Call Completion Raised}
    (counted : scheduler.Counted) (taken : Internals host scheduler next) : next.Counted := by
  induction taken with
  | refl => exact counted
  | tail _ step hypothesis =>
      cases step with
      | grant queue unpermitted => exact counted_grant hypothesis queue unpermitted
      | activateImmediate queue => exact counted_activateImmediate host hypothesis queue
      | activateDeferred queue permitted =>
          exact counted_activateDeferred host hypothesis queue permitted
      | answer running => exact counted_answer hypothesis running

end HostScheduler

end RexLang
