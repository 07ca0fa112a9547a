import RexLang.HeapCells
import RexLang.HostScheduler
import RexLang.TypedExpr

/-!
# Control frames of the evaluator

Evaluation keeps one frame for each expression under evaluation and each native
task, in a store that never reuses an identifier.  A frame knows its parent, the
children it waits for, and the results that they delivered.
-/

namespace RexLang

/-! ## Environments -/

/-- `ScopedEnvironment`, over the type of root tokens. -/
abbrev ScopedEnvironment (Ptr : Type) := InternalEnvironment Ptr

namespace InternalEnvironment

variable {Ptr : Type}

/-- `ScopedEnvironment::new`. -/
def new : InternalEnvironment Ptr :=
  ⟨[], []⟩

/-- `extend_many`. -/
def extendMany (bindings : SymbolMap Ptr) (env : InternalEnvironment Ptr) :
    InternalEnvironment Ptr :=
  ⟨bindings, env.bindings :: env.parents⟩

/-- `extend`. -/
def extend (name : Symbol) (value : Ptr) (env : InternalEnvironment Ptr) :
    InternalEnvironment Ptr :=
  env.extendMany [(name, value)]

/-- `get`. -/
def get (name : Symbol) (env : InternalEnvironment Ptr) : Option Ptr :=
  (env.bindings :: env.parents).findSome? (·.lookup name)

end InternalEnvironment

/-! ## Native tasks -/

/-- `ListItems`. -/
inductive ListItems (Ptr : Type) where
  | slice (elements : Ptr) (start «end» : Nat)
  | binarySlice (elements : Ptr) (start «end» : Nat) (bytes : List UInt8)
  | pointers (values : List Ptr)

def ListItems.len {Ptr : Type} : ListItems Ptr → Nat
  | slice _ start finish | binarySlice _ start finish _ => finish - start
  | pointers values => values.length

inductive NativeSequenceShape where
  | list

inductive NativeUnaryShape where
  | option
  | result

inductive NativeSequencePredicateMode where
  | count
  | partition

inductive NativeListSearchMode where
  | any
  | all
  | find
  | findIndex

inductive NativeFoldOrder where
  | left
  | right

inductive NativeFoldState where
  | enter
  | applyFirst
  | applySecond

inductive NativeArrayEqState where
  | enter
  | applyFirst
  | applySecond

inductive NativeMeanState where
  | enter
  | applyPlusFirst
  | applyPlusSecond
  | applyDivFirst
  | applyDivSecond

structure NativeApplyUnary (Ptr : Type) where
  func : Ptr
  funcType : Typ
  arg : Ptr
  argType : Typ

structure NativeSequenceMap (Ptr : Type) where
  func : Ptr
  funcType : Typ
  elemType : Typ
  values : ListItems Ptr
  shape : NativeSequenceShape
  children : List FrameId
  output : List (Option Ptr)
  remaining : Nat

structure NativeSequenceFilter (Ptr : Type) where
  func : Ptr
  funcType : Typ
  elemType : Typ
  values : ListItems Ptr
  shape : NativeSequenceShape
  children : List FrameId
  keep : List (Option Bool)
  remaining : Nat

structure NativeSequencePredicate (Ptr : Type) where
  func : Ptr
  funcType : Typ
  elemType : Typ
  values : ListItems Ptr
  mode : NativeSequencePredicateMode
  children : List FrameId
  matched : List (Option Bool)
  remaining : Nat

structure NativeSequenceFilterMap (Ptr : Type) where
  func : Ptr
  funcType : Typ
  elemType : Typ
  values : ListItems Ptr
  shape : NativeSequenceShape
  children : List FrameId
  output : List (Option (Option Ptr))
  remaining : Nat

structure NativeSequenceFlatMap (Ptr : Type) where
  func : Ptr
  funcType : Typ
  elemType : Typ
  values : ListItems Ptr
  shape : NativeSequenceShape
  children : List FrameId
  output : List (Option (List Ptr))
  remaining : Nat

structure NativeListSearch (Ptr : Type) where
  func : Ptr
  funcType : Typ
  elemType : Typ
  values : ListItems Ptr
  mode : NativeListSearchMode
  nextIndex : Nat

structure NativeUnaryMap (Ptr : Type) where
  func : Ptr
  funcType : Typ
  elemType : Typ
  value : Ptr
  shape : NativeUnaryShape

structure NativeUnaryFilter (Ptr : Type) where
  func : Ptr
  funcType : Typ
  elemType : Typ
  value : Ptr
  original : Ptr

structure NativeUnaryFilterMap (Ptr : Type) where
  func : Ptr
  funcType : Typ
  elemType : Typ
  value : Ptr

structure NativeUnaryFlatMap (Ptr : Type) where
  func : Ptr
  funcType : Typ
  elemType : Typ
  value : Ptr
  shape : NativeUnaryShape

structure NativeFold (Ptr : Type) where
  func : Ptr
  funcType : Typ
  accType : Typ
  elemType : Typ
  values : ListItems Ptr
  acc : Ptr
  order : NativeFoldOrder
  state : NativeFoldState
  nextIndex : Nat
  step : Option Ptr

structure NativeDictMap (Ptr : Type) where
  func : Ptr
  funcType : Typ
  elemType : Typ
  entries : List (String × Ptr)
  children : List FrameId
  output : SymbolMap Ptr
  remaining : Nat

structure NativeDictEntryMap (Ptr : Type) where
  func : Ptr
  funcType : Typ
  entryType : Typ
  args : List Ptr
  children : List FrameId
  output : List (Option Ptr)
  remaining : Nat

structure NativeDictFilter (Ptr : Type) where
  func : Ptr
  funcType : Typ
  argType : Typ
  entries : List (String × Ptr)
  args : List Ptr
  children : List FrameId
  keep : List (Option Bool)
  remaining : Nat

structure NativeDictFilterMap (Ptr : Type) where
  func : Ptr
  funcType : Typ
  elemType : Typ
  entries : List (String × Ptr)
  children : List FrameId
  output : List (Option (Option Ptr))
  remaining : Nat

structure NativeDictUpdate (Ptr : Type) where
  func : Ptr
  funcType : Typ
  optionType : Typ
  key : String
  entries : SymbolMap Ptr
  arg : Ptr
  children : List FrameId

structure NativeArrayEq (Ptr : Type) where
  elemType : Typ
  xs : ListItems Ptr
  ys : ListItems Ptr
  state : NativeArrayEqState
  nextIndex : Nat
  step : Option Ptr
  negate : Bool

structure NativeSum (Ptr : Type) where
  elemType : Typ
  values : ListItems Ptr
  acc : Option Ptr
  plus : Option Ptr
  state : NativeFoldState
  nextIndex : Nat
  step : Option Ptr

structure NativeMean (Ptr : Type) where
  elemType : Typ
  values : ListItems Ptr
  len : Nat
  acc : Option Ptr
  state : NativeMeanState
  nextIndex : Nat
  step : Option Ptr
  lenValue : Option Ptr

inductive NativeTask (Ptr : Type) where
  | applyUnary (task : NativeApplyUnary Ptr)
  | sequenceMap (task : NativeSequenceMap Ptr)
  | sequenceFilter (task : NativeSequenceFilter Ptr)
  | sequencePredicate (task : NativeSequencePredicate Ptr)
  | sequenceFilterMap (task : NativeSequenceFilterMap Ptr)
  | sequenceFlatMap (task : NativeSequenceFlatMap Ptr)
  | listSearch (task : NativeListSearch Ptr)
  | unaryMap (task : NativeUnaryMap Ptr)
  | unaryFilter (task : NativeUnaryFilter Ptr)
  | unaryFilterMap (task : NativeUnaryFilterMap Ptr)
  | unaryFlatMap (task : NativeUnaryFlatMap Ptr)
  | fold (task : NativeFold Ptr)
  | dictMap (task : NativeDictMap Ptr)
  | dictEntryMap (task : NativeDictEntryMap Ptr)
  | dictFilter (task : NativeDictFilter Ptr)
  | dictFilterMap (task : NativeDictFilterMap Ptr)
  | dictUpdate (task : NativeDictUpdate Ptr)
  | arrayEq (task : NativeArrayEq Ptr)
  | sum (task : NativeSum Ptr)
  | mean (task : NativeMean Ptr)

/-- What the prelude guarantees of the tasks that it makes: the entries come
from a map, arguments go with entries, and states are initial. -/
def NativeTask.Startable {Ptr : Type} : NativeTask Ptr → Prop
  | .dictMap task => (task.entries.map Prod.fst).Nodup
  | .dictFilter task => task.entries.length = task.args.length
  | .sum task => task.state = .enter
  | _ => True

/-- A task as a scheduler native returns it. -/
structure StartedTask (Ptr : Type) where
  task : NativeTask Ptr
  startable : task.Startable

/-! ## Frames -/

inductive FrValueState where
  | enter

inductive FrSequenceState where
  | enter
  | evalItem

inductive FrRecordUpdateState where
  | enter
  | evalBase
  | evalUpdate

inductive FrAppState where
  | enter
  | evalChildren
  | applyArg

inductive FrLetState where
  | enter
  | evalDef
  | evalBody

inductive FrLetRecState where
  | enter
  | evalBinding
  | evalBody

inductive FrBranchState where
  | enter
  | evalCondition
  | evalSelected

inductive FrMatchState where
  | enter
  | evalScrutinee
  | evalArm

inductive FrNativeCallState where
  | enter
  | waiting

structure FrAppArg where
  funcType : Typ
  expr : TypedExpr

structure FrMatchArm where
  pattern : Pattern
  expr : TypedExpr

/-- The macro `value_frame`. -/
structure FrValue (Ptr : Type) where
  parent : Option FrameId
  expr : TypedExpr
  env : ScopedEnvironment Ptr
  state : FrValueState
  value : Option Ptr

abbrev FrHole (Ptr : Type) := FrValue Ptr
abbrev FrVar (Ptr : Type) := FrValue Ptr
abbrev FrProject (Ptr : Type) := FrValue Ptr
abbrev FrLam (Ptr : Type) := FrValue Ptr

structure FrLiteral where
  parent : Option FrameId
  expr : TypedExpr

structure FrSequence (Ptr : Type) where
  parent : Option FrameId
  expr : TypedExpr
  env : ScopedEnvironment Ptr
  state : FrSequenceState
  children : List FrameId
  values : List (Option Ptr)
  remaining : Nat

structure FrRecordUpdate (Ptr : Type) where
  parent : Option FrameId
  expr : TypedExpr
  env : ScopedEnvironment Ptr
  state : FrRecordUpdateState
  baseValue : Option Ptr
  updateKeys : List Symbol
  updateChildren : List FrameId
  updateValues : List (Option Ptr)
  remainingUpdates : Nat

structure FrApp (Ptr : Type) where
  parent : Option FrameId
  expr : TypedExpr
  env : ScopedEnvironment Ptr
  state : FrAppState
  head : Option TypedExpr
  spine : List FrAppArg
  headChild : Option FrameId
  argChildren : List FrameId
  argValues : List (Option Ptr)
  remaining : Nat
  nextArgIndex : Nat
  func : Option Ptr
  arg : Option Ptr

structure FrLet (Ptr : Type) where
  parent : Option FrameId
  expr : TypedExpr
  env : ScopedEnvironment Ptr
  state : FrLetState
  defValue : Option Ptr

structure FrLetRec (Ptr : Type) where
  parent : Option FrameId
  expr : TypedExpr
  env : ScopedEnvironment Ptr
  state : FrLetRecState
  recursiveEnv : Option (ScopedEnvironment Ptr)
  slots : List Ptr
  nextBindingIndex : Nat
  bindingValue : Option Ptr

structure FrIte (Ptr : Type) where
  parent : Option FrameId
  expr : TypedExpr
  env : ScopedEnvironment Ptr
  state : FrBranchState
  condValue : Option Ptr
  selected : Option TypedExpr

structure FrMatch (Ptr : Type) where
  parent : Option FrameId
  expr : TypedExpr
  env : ScopedEnvironment Ptr
  state : FrMatchState
  scrutineeValue : Option Ptr
  arms : List FrMatchArm
  nextArmIndex : Nat
  matchedEnv : Option (ScopedEnvironment Ptr)

structure FrNativeCall (Ptr : Type) where
  parent : Option FrameId
  state : FrNativeCallState
  task : NativeTask Ptr

structure FrNativeHost where
  parent : Option FrameId

inductive Frame (Ptr : Type) where
  | literal (frame : FrLiteral)
  | hole (frame : FrHole Ptr)
  | sequence (frame : FrSequence Ptr)
  | recordUpdate (frame : FrRecordUpdate Ptr)
  | var (frame : FrVar Ptr)
  | app (frame : FrApp Ptr)
  | project (frame : FrProject Ptr)
  | lam (frame : FrLam Ptr)
  | letIn (frame : FrLet Ptr)
  | letRec (frame : FrLetRec Ptr)
  | ite (frame : FrIte Ptr)
  | matchWith (frame : FrMatch Ptr)
  | nativeCall (frame : FrNativeCall Ptr)
  | nativeHost (frame : FrNativeHost)

namespace Frame

variable {Ptr : Type}

/-- `parent`. -/
def parent : Frame Ptr → Option FrameId
  | literal frame => frame.parent
  | hole frame | var frame | project frame | lam frame => frame.parent
  | sequence frame => frame.parent
  | recordUpdate frame => frame.parent
  | app frame => frame.parent
  | letIn frame => frame.parent
  | letRec frame => frame.parent
  | ite frame => frame.parent
  | matchWith frame => frame.parent
  | nativeCall frame => frame.parent
  | nativeHost frame => frame.parent

/-- `frame_for_expr`. -/
def forExpr (parent : Option FrameId) (expr : TypedExpr) (env : ScopedEnvironment Ptr) :
    Frame Ptr :=
  match expr.kind with
  | .bool _ | .uint _ | .int _ | .float _ | .char _ | .string _ | .uuid _ | .dateTime _ =>
      literal ⟨parent, expr⟩
  | .hole => hole ⟨parent, expr, env, .enter, none⟩
  | .tuple _ | .list _ | .dict _ => sequence ⟨parent, expr, env, .enter, [], [], 0⟩
  | .recordUpdate _ updates =>
      recordUpdate ⟨parent, expr, env, .enter, none, updates.map Prod.fst, [], [], 0⟩
  | .classMethod _ | .var _ _ => var ⟨parent, expr, env, .enter, none⟩
  | .app _ _ =>
      app ⟨parent, expr, env, .enter, none, [], none, [], [], 0, 0, none, none⟩
  | .project _ _ => project ⟨parent, expr, env, .enter, none⟩
  | .lam _ _ => lam ⟨parent, expr, env, .enter, none⟩
  | .letIn _ _ _ => letIn ⟨parent, expr, env, .enter, none⟩
  | .letRec _ _ => letRec ⟨parent, expr, env, .enter, none, [], 0, none⟩
  | .ite _ _ _ => ite ⟨parent, expr, env, .enter, none, none⟩
  | .matchWith _ arms =>
      matchWith ⟨parent, expr, env, .enter, none,
        arms.map fun arm => ⟨arm.1, arm.2⟩, 0, none⟩

end Frame

/-! ## The frame store -/

/-- `FrameStore`. -/
structure FrameStore (Value : Type) where
  nextId : Nat
  frames : FrameId → Option Value

namespace FrameStore

variable {Value : Type}

/-- `default`. -/
def empty : FrameStore Value :=
  ⟨0, fun _ => none⟩

/-- The store with one entry changed. -/
def put (id : FrameId) (frame : Option Value) (store : FrameStore Value) : FrameStore Value :=
  { store with frames := fun other => if other = id then frame else store.frames other }

end FrameStore

end RexLang
