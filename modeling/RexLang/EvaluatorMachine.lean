import RexLang.EvaluatorSteps

/-!
# The evaluator machine

The queues of ready work, one cycle of the evaluator, and the loop that
alternates cycles with polls of the host calls.
-/

namespace RexLang

variable {Ptr Value Call : Type}

open EvalM FrameM

/-! ## Ready work -/

/-- `EvalWorkItem`: a frame to enter, or a result to deliver with its child. -/
structure EvalWorkItem (Ptr : Type) where
  frame : FrameId
  returned : Option (FrameId × Ptr)

namespace EvalWorkItem

def enter (frame : FrameId) : EvalWorkItem Ptr :=
  ⟨frame, none⟩

def receive (frame child : FrameId) (value : Ptr) : EvalWorkItem Ptr :=
  ⟨frame, some (child, value)⟩

end EvalWorkItem

structure EvalScheduler (Ptr : Type) where
  ready : List (EvalWorkItem Ptr)
  deferredReady : List (EvalWorkItem Ptr)
  readyWorkLimit : Nat

namespace EvalScheduler

/-- `EvalScheduler::new`. -/
def new (root : FrameId) (readyWorkLimit : Nat) : EvalScheduler Ptr :=
  ⟨[.enter root], [], max readyWorkLimit 1⟩

/-- `enforce_ready_limit`: the items behind the limit go to the front of the
deferred ones. -/
def enforceReadyLimit (scheduler : EvalScheduler Ptr) : EvalScheduler Ptr :=
  { scheduler with
    ready := scheduler.ready.take scheduler.readyWorkLimit
    deferredReady := scheduler.ready.drop scheduler.readyWorkLimit ++ scheduler.deferredReady }

/-- `admit_deferred_ready`. -/
def admitDeferredReady (scheduler : EvalScheduler Ptr) : EvalScheduler Ptr :=
  let free := scheduler.readyWorkLimit - scheduler.ready.length
  { scheduler with
    ready := scheduler.ready ++ scheduler.deferredReady.take free
    deferredReady := scheduler.deferredReady.drop free }

/-- `set_ready_work_limit`. -/
def setReadyWorkLimit (readyWorkLimit : Nat) (scheduler : EvalScheduler Ptr) :
    EvalScheduler Ptr :=
  enforceReadyLimit { scheduler with readyWorkLimit := max readyWorkLimit 1 }

/-- `schedule_next`. -/
def scheduleNext (item : EvalWorkItem Ptr) (scheduler : EvalScheduler Ptr) : EvalScheduler Ptr :=
  enforceReadyLimit { scheduler with ready := item :: scheduler.ready }

/-- `pop_next`. -/
def popNext (scheduler : EvalScheduler Ptr) :
    Option (EvalWorkItem Ptr) × EvalScheduler Ptr :=
  let admitted := scheduler.admitDeferredReady
  match admitted.ready with
  | [] => (none, admitted.admitDeferredReady)
  | item :: rest => (some item, admitDeferredReady { admitted with ready := rest })

/-- `has_ready_work`. -/
def hasReadyWork (scheduler : EvalScheduler Ptr) : Bool :=
  !scheduler.ready.isEmpty || !scheduler.deferredReady.isEmpty

/-- All work items. -/
def items (scheduler : EvalScheduler Ptr) : List (EvalWorkItem Ptr) :=
  scheduler.ready ++ scheduler.deferredReady

/-- `visit_values`. -/
def values (scheduler : EvalScheduler Ptr) : List Ptr :=
  scheduler.items.filterMap fun item => item.returned.map Prod.snd

end EvalScheduler

structure EvalState (Ptr : Type) where
  frames : FrameStore (Frame Ptr)
  scheduler : EvalScheduler Ptr

/-! ## Live roots -/

/-- `visit_values` of an environment. -/
def InternalEnvironment.values (env : InternalEnvironment Ptr) : List Ptr :=
  (env.bindings :: env.parents).flatMap fun bindings => bindings.map Prod.snd

def ListItems.roots : ListItems Ptr → List Ptr
  | slice elements _ _ | binarySlice elements _ _ _ => [elements]
  | pointers values => values

/-- The values that `NativeTask::map_values` visits. -/
def NativeTask.values : NativeTask Ptr → List Ptr
  | applyUnary task => [task.func, task.arg]
  | sequenceMap task => task.func :: task.values.roots ++ task.output.reduceOption
  | sequenceFilter task => task.func :: task.values.roots
  | sequencePredicate task => task.func :: task.values.roots
  | sequenceFilterMap task =>
      task.func :: task.values.roots ++ (task.output.map Option.join).reduceOption
  | sequenceFlatMap task => task.func :: task.values.roots ++ task.output.reduceOption.flatten
  | listSearch task => task.func :: task.values.roots
  | unaryMap task => [task.func, task.value]
  | unaryFilter task => [task.func, task.value, task.original]
  | unaryFilterMap task => [task.func, task.value]
  | unaryFlatMap task => [task.func, task.value]
  | fold task => task.func :: task.values.roots ++ task.acc :: task.step.toList
  | dictMap task => task.func :: task.entries.map Prod.snd ++ task.output.map Prod.snd
  | dictEntryMap task => task.func :: task.args ++ task.output.reduceOption
  | dictFilter task => task.func :: task.entries.map Prod.snd ++ task.args
  | dictFilterMap task =>
      task.func :: task.entries.map Prod.snd ++ (task.output.map Option.join).reduceOption
  | dictUpdate task => task.func :: task.entries.map Prod.snd ++ [task.arg]
  | arrayEq task => task.xs.roots ++ task.ys.roots ++ task.step.toList
  | sum task => task.values.roots ++ task.acc.toList ++ task.plus.toList ++ task.step.toList
  | mean task => task.values.roots ++ task.acc.toList ++ task.step.toList ++ task.lenValue.toList

/-- The values that `Frame::map_values` visits. -/
def Frame.values : Frame Ptr → List Ptr
  | literal _ | nativeHost _ => []
  | hole frame | var frame | project frame | lam frame => frame.env.values ++ frame.value.toList
  | sequence frame => frame.env.values ++ frame.values.reduceOption
  | recordUpdate frame =>
      frame.env.values ++ frame.baseValue.toList ++ frame.updateValues.reduceOption
  | app frame =>
      frame.env.values ++ frame.argValues.reduceOption ++ frame.func.toList ++ frame.arg.toList
  | letIn frame => frame.env.values ++ frame.defValue.toList
  | letRec frame =>
      frame.env.values ++ frame.recursiveEnv.toList.flatMap InternalEnvironment.values ++
        frame.slots ++ frame.bindingValue.toList
  | ite frame => frame.env.values ++ frame.condValue.toList
  | matchWith frame =>
      frame.env.values ++ frame.scrutineeValue.toList ++
        frame.matchedEnv.toList.flatMap InternalEnvironment.values
  | nativeCall frame => frame.task.values

/-- The frames of a store, in the order of their identifiers. -/
def FrameStore.toList {Stored : Type} (store : FrameStore Stored) : List Stored :=
  (List.range store.nextId).filterMap store.frames

variable (runtime : Runtime Ptr)

/-- `collect_machine_if_needed`. -/
def collectMachineIfNeeded (state : EvalState Ptr) : EvalM Ptr Value Call Unit := do
  if ← ask .collectionNeeded then
    let live := state.frames.toList.flatMap Frame.values ++ state.scheduler.values ++
      runtime.typeclassValues ++ runtime.nativeValues
    ask (.collectIfNeeded live)
  else return

/-! ## One cycle -/

/-- A completed host call, with the type that is expected of its value. -/
structure NativeCompletion (Value : Type) where
  value : Value
  expected : Typ

inductive ScopedCycleOutcome (Ptr : Type) where
  | continue (nativeRequest : Option (FrameId × NativeCallRequest Ptr))
  | completed (value : Ptr)

/-- The end of `run_scoped_eval_cycle`: what the control of a frame does. -/
def applyControl (frameId : FrameId) (scheduler : EvalScheduler Ptr) :
    EvalControl Ptr → FrameM Ptr Value Call (ScopedCycleOutcome Ptr × EvalScheduler Ptr)
  | .push expr env => do
      let child ← insert (.forExpr (some frameId) expr env)
      return (.continue none, scheduler.scheduleNext (.enter child))
  | .pushFrame frame => do
      let child ← insert frame
      return (.continue none, scheduler.scheduleNext (.enter child))
  | .schedule children =>
      return (.continue none, children.foldr
        (fun child scheduler => scheduler.scheduleNext (.enter child)) scheduler)
  | .wait => return (.continue none, scheduler)
  | .awaitNative call => do
      let child ← insert (.nativeHost ⟨some frameId⟩)
      return (.continue (some (child, call)), scheduler)
  | .return value => do
      let frame ← remove frameId
      match frame.parent with
      | none => return (.completed value, scheduler)
      | some parent =>
          return (.continue none, scheduler.scheduleNext (.receive parent frameId value))

/-- What is done with the next work item. -/
def runWorkItem (item : EvalWorkItem Ptr) : FrameM Ptr Value Call (EvalControl Ptr) := do
  let frame ← getFrame item.frame
  match item.returned with
  | some (child, value) => evalReceive runtime item.frame child value frame
  | none => evalEnter runtime item.frame frame

/-- The completion of a host call is delivered to its own frame. -/
def scheduleCompletion (scheduler : EvalScheduler Ptr) :
    Option (FrameId × NativeCompletion Value) → EvalM Ptr Value Call (EvalScheduler Ptr)
  | some (frame, completion) => do
      let value ← ask (.allocValue completion.value completion.expected)
      return scheduler.scheduleNext (.receive frame frame value)
  | none => return scheduler

/-- `run_scoped_eval_cycle`. -/
def runScopedEvalCycle (completedNative : Option (FrameId × NativeCompletion Value))
    (state : EvalState Ptr) :
    EvalM Ptr Value Call (ScopedCycleOutcome Ptr × EvalState Ptr) := do
  let scheduler ← scheduleCompletion state.scheduler completedNative
  let (next, scheduler) := scheduler.popNext
  let item ← require "eval scheduler ran out of ready work" next
  let (control, frames) ← (runWorkItem runtime item).run state.frames
  let ((outcome, scheduler), frames) ← (applyControl item.frame scheduler control).run frames
  return (outcome, ⟨frames, scheduler⟩)

inductive RuntimeCycleOutcome (Ptr Call : Type) where
  | continue (queuedNative : Option (FrameId × Call))
  | completed (value : Ptr)

/-- `run_runtime_cycle`. -/
def runRuntimeCycle (completedNative : Option (FrameId × NativeCompletion Value))
    (state : EvalState Ptr) :
    EvalM Ptr Value Call (RuntimeCycleOutcome Ptr Call × EvalState Ptr) := do
  let (outcome, state) ← runScopedEvalCycle runtime completedNative state
  match outcome with
  | .completed value => return (.completed value, state)
  | .continue none => return (.continue none, state)
  | .continue (some (frame, request)) =>
      return (.continue (some (frame, ← ask (.prepare request))), state)

/-! ## The loop -/

inductive EvalBoundary where
  | moreInternalWork
  | hostWork
  | waitingForHost

/-- `wait_for_host`. -/
def EvalBoundary.waitForHost : EvalBoundary → Bool
  | moreInternalWork => false
  | hostWork | waitingForHost => true

abbrev MachineHosts (Value Call : Type) :=
  HostScheduler Call (NativeCompletion Value) RaisedError

/-- `EvalBoundary::from_state`. -/
def EvalBoundary.fromState (state : EvalState Ptr) (hosts : MachineHosts Value Call) :
    Except Fault EvalBoundary :=
  if state.scheduler.hasReadyWork then .ok moreInternalWork
  else if hosts.hasImmediateNative || hosts.hasDeferredNative then .ok hostWork
  else if hosts.hasPendingNative then .ok waitingForHost
  else .error (.error (.internal "eval scheduler has no internal or host work"))

/-- The expression applied to the inputs. -/
def applyInputs (env : ScopedEnvironment Ptr) (expr : TypedExpr)
    (inputArgs : List (Value × Typ)) :
    EvalM Ptr Value Call (ScopedEnvironment Ptr × TypedExpr) :=
  if inputArgs.length = 0 then pure (env, expr)
  else do
    let args ← inputArgs.mapM fun input => do
      return ((← ask (.allocValue input.1 input.2) : Ptr), input.2)
    syntheticRootedApplicationExprFromHead runtime env expr args

/-- The beginning of `eval_typed_expr_inner`. -/
def initialState (env : ScopedEnvironment Ptr) (expr : TypedExpr)
    (inputArgs : List (Value × Typ)) (readyWorkLimit : Nat) :
    EvalM Ptr Value Call (EvalState Ptr) := do
  let (env, expr) ← applyInputs runtime env expr inputArgs
  let (root, frames) ← (insert (.forExpr none expr env)).run .empty
  return ⟨frames, .new root readyWorkLimit⟩

/-- An evaluation between two iterations of the loop. -/
structure Machine (Scope Ptr Value Call : Type) where
  state : EvalState Ptr
  hosts : MachineHosts Value Call
  boundary : EvalBoundary
  scope : Scope

/-- What an iteration of the loop finds outside: the limit on ready work, and
the answers to the polls. -/
structure MachineInput (Value : Type) where
  readyWorkLimit : Nat
  admission : Poll (Except (EngineError RaisedError) Unit)
  first : Answers (NativeCompletion Value) RaisedError
  later : List (Answers (NativeCompletion Value) RaisedError)

/-- An iteration of the loop goes on, or the evaluation is completed. -/
inductive Iteration (Scope Ptr Value Call : Type) where
  | continue (machine : Machine Scope Ptr Value Call)
  | completed (value : Ptr)

namespace Machine

variable {Scope : Type}
  (handle : Program.Handler (ScopeRequest Ptr Value Call) RaisedError Scope)
  (host : Host Call RaisedError)

/-- The rest of an iteration that runs a cycle. -/
def runCycle (completedNative : Option (FrameId × NativeCompletion Value))
    (machine : Machine Scope Ptr Value Call) :
    Except Fault (Iteration Scope Ptr Value Call) :=
  let cycle := do
    collectMachineIfNeeded runtime machine.state
    runRuntimeCycle runtime completedNative machine.state
  match cycle.run handle machine.scope with
  | (.error fault, _) => .error fault
  | (.ok (.completed value, _), _) => .ok (.completed value)
  | (.ok (.continue queuedNative, state), scope) => do
      let hosts := match queuedNative with
        | some (frame, call) => machine.hosts.scheduleNative host frame call
        | none => machine.hosts
      return .continue ⟨state, hosts, ← EvalBoundary.fromState state hosts, scope⟩

/-- An iteration of the loop after the host calls were polled. -/
def afterPoll (machine : Machine Scope Ptr Value Call) :
    NativePoll (NativeCompletion Value) → Except Fault (Iteration Scope Ptr Value Call)
  | .progress => do
      return .continue { machine with
        boundary := ← EvalBoundary.fromState machine.state machine.hosts }
  | .completed frame completion => runCycle runtime handle host (some (frame, completion)) machine
  | .idle =>
      if machine.boundary.waitForHost then
        .error (.error (.internal "eval scheduler ran out of host work"))
      else runCycle runtime handle host none machine

/-- The poll of an iteration, with the machine that it leaves. -/
def polled (input : MachineInput Value) (machine : Machine Scope Ptr Value Call) :
    Poll (Except (EngineError RaisedError) (NativePoll (NativeCompletion Value))) ×
      Machine Scope Ptr Value Call :=
  let (result, hosts) := machine.hosts.pollPendingNative host machine.boundary.waitForHost
    input.admission input.first input.later
  (result, { machine with
    hosts := hosts
    state := { machine.state with
      scheduler := machine.state.scheduler.setReadyWorkLimit input.readyWorkLimit } })

/-- An iteration of the loop; it is pending as long as the poll is. -/
def iterate (input : MachineInput Value) (machine : Machine Scope Ptr Value Call) :
    Poll (Except Fault (Iteration Scope Ptr Value Call)) :=
  match machine.polled host input with
  | (.pending, _) => .pending
  | (.ready (.error error), _) => .ready (.error (.error error))
  | (.ready (.ok poll), machine) => .ready (machine.afterPoll runtime handle host poll)

/-- An iteration after which the evaluation goes on. -/
def step (machine : Machine Scope Ptr Value Call) (input : MachineInput Value) :
    Option (Machine Scope Ptr Value Call) :=
  match machine.iterate runtime handle host input with
  | .ready (.ok (.continue next)) => some next
  | _ => none

/-- The evaluation of an expression before the first iteration. -/
def start (env : ScopedEnvironment Ptr) (expr : TypedExpr) (inputArgs : List (Value × Typ))
    (readyWorkLimit : Nat) (scope : Scope) : Except Fault (Machine Scope Ptr Value Call) :=
  match (initialState runtime env expr inputArgs readyWorkLimit).run handle scope with
  | (.error fault, _) => .error fault
  | (.ok state, scope) => .ok ⟨state, .new, .moreInternalWork, scope⟩

end Machine

end RexLang
