import RexLang.RuntimeRequests

/-!
# Native tasks

The coroutines of the prelude functions that call back into the evaluated
program.  A task applies its function once after the other, or spawns one child
for each element and gathers their results in slots.
-/

namespace RexLang

variable {Ptr Value Call : Type}

open EvalM

inductive NativeStep (Ptr : Type) where
  | wait
  | push (expr : TypedExpr) (env : ScopedEnvironment Ptr)
  | schedule (count : Nat)
  | return (value : Ptr)

structure NativeChildSpec (Ptr : Type) where
  expr : TypedExpr
  env : ScopedEnvironment Ptr

/-! ## Gathered results -/

/-- The internal errors of a frame or task that gathers the results of its
children. -/
structure GatherTexts where
  unknown : String
  outOfBounds : String
  duplicate : String
  tooMany : String
  missing : String

def GatherTexts.ofTask (task unknown : String) : GatherTexts :=
  ⟨task ++ unknown, task ++ " result slot out of bounds",
    task ++ " received duplicate child result", task ++ " received too many results",
    task ++ " completed with missing result"⟩

section Gather

variable {Slot : Type} (texts : GatherTexts)

/-- The slot of the child is filled. -/
def fillSlot (children : List FrameId) (slots : List (Option Slot)) (child : FrameId)
    (convert : EvalM Ptr Value Call Slot) : EvalM Ptr Value Call (List (Option Slot)) := do
  let index ← require texts.unknown (children.idxOf? child)
  match slots[index]? with
  | none => internal texts.outOfBounds
  | some (some _) => internal texts.duplicate
  | some none => return slots.set index (some (← convert))

/-- As `fillSlot`, with the result converted before the slot is read. -/
def replaceSlot (children : List FrameId) (slots : List (Option Slot)) (child : FrameId)
    (convert : EvalM Ptr Value Call Slot) : EvalM Ptr Value Call (List (Option Slot)) := do
  let index ← require texts.unknown (children.idxOf? child)
  match slots[index]? with
  | none => internal texts.outOfBounds
  | some old =>
      let slot ← convert
      match old with
      | some _ => internal texts.duplicate
      | none => return slots.set index (some slot)

/-- `checked_sub(1)`. -/
def countDown (message : String) : Nat → EvalM Ptr Value Call Nat
  | 0 => internal message
  | remaining + 1 => pure remaining

/-- The slots when all of them are filled. -/
def allFilled : List (Option Slot) → Option (List Slot)
  | [] => some []
  | none :: _ => none
  | some slot :: slots => (allFilled slots).map (slot :: ·)

/-- `completed_values`. -/
def completedValues (slots : List (Option Slot)) : EvalM Ptr Value Call (List Slot) :=
  require texts.missing (allFilled slots)

end Gather

/-! ## Helpers -/

/-- `alloc_native_sequence`. -/
def allocNativeSequence (values : List Ptr) : NativeSequenceShape → EvalM Ptr Value Call Ptr
  | .list => ask (.allocList values)

/-- `native_flatten_sequence`. -/
def nativeFlattenSequence (root : Ptr) : NativeSequenceShape → EvalM Ptr Value Call (List Ptr)
  | .list => ask (.asList root)

/-- `option_value_ptr`. -/
def optionValuePtr (pointer : Ptr) : EvalM Ptr Value Call (Option Ptr) := do
  match ← ask (.asAdt pointer) with
  | ("Some", [value]) => return some value
  | ("None", []) => return none
  | _ => raise (.nativeType "Option" (← ask (.typeName pointer)))

/-- `option_from_native_pointer`. -/
def optionFromNativePointer : Option Ptr → EvalM Ptr Value Call Ptr
  | some value => ask (.allocAdt "Some" [value])
  | none => ask (.allocAdt "None" [])

/-- `result_from_native_pointer`. -/
def resultFromNativePointer : Except Ptr Ptr → EvalM Ptr Value Call Ptr
  | .ok value => ask (.allocAdt "Ok" [value])
  | .error value => ask (.allocAdt "Err" [value])

/-- `result_value_ptr`. -/
def resultValuePtr (pointer : Ptr) : EvalM Ptr Value Call (Except Ptr Ptr) := do
  match ← ask (.asAdt pointer) with
  | ("Ok", [value]) => return .ok value
  | ("Err", [value]) => return .error value
  | _ => raise (.nativeType "Result" (← ask (.typeName pointer)))

/-- `overloaded_root`. -/
def overloadedRoot (name : Symbol) (typ : Typ) : EvalM Ptr Value Call Ptr :=
  ask (.allocOverloaded ⟨name, typ, [], []⟩)

/-- The value that was allocated before, or a new one. -/
def allocOnce (alloc : EvalM Ptr Value Call Ptr) : Option Ptr → EvalM Ptr Value Call Ptr
  | some value => pure value
  | none => alloc

/-- `native_eval_var_step`. -/
def nativeEvalVarStep (name : Symbol) (typ : Typ) : NativeStep Ptr :=
  .push (.mk typ (.var name [])) .new

/-- `binary_same_type`. -/
def binarySameType (typ : Typ) : Typ :=
  .func typ (.func typ typ)

/-- `len_value_for_native_type`. -/
def lenValueForNativeType (elemTy : Typ) (len : Nat) : EvalM Ptr Value Call Ptr :=
  match elemTy with
  | .con (.builtin .f32) => ask (.allocLenF32 len)
  | .con (.builtin .f64) => ask (.allocLenF64 len)
  | _ => raise (.nativeType "f32 or f64" elemTy.display)

variable (runtime : Runtime Ptr)

/-- `native_apply_spec`. -/
def nativeApplySpec (func : Ptr) (funcType : Typ) (arg : Ptr) (argType : Typ) :
    EvalM Ptr Value Call (NativeChildSpec Ptr) := do
  let (env, expr) ← syntheticApplicationExpr runtime func funcType [(arg, argType)]
  return ⟨expr, env⟩

/-- `native_apply_step`. -/
def nativeApplyStep (func : Ptr) (funcType : Typ) (arg : Ptr) (argType : Typ) :
    EvalM Ptr Value Call (NativeStep Ptr) := do
  let spec ← nativeApplySpec runtime func funcType arg argType
  return .push spec.expr spec.env

/-! ## Tasks that spawn children -/

namespace NativeSequenceMap

def texts : GatherTexts :=
  .ofTask "native sequence map" " received unknown child"

def enter (task : NativeSequenceMap Ptr) :
    EvalM Ptr Value Call (NativeStep Ptr × NativeSequenceMap Ptr) := do
  if task.values.len = 0 then
    return (.return (← allocNativeSequence [] task.shape), task)
  else
    let len := task.values.len
    return (.schedule len,
      { task with children := [], output := List.replicate len none, remaining := len })

def receive (child : FrameId) (value : Ptr) (task : NativeSequenceMap Ptr) :
    EvalM Ptr Value Call (NativeStep Ptr × NativeSequenceMap Ptr) := do
  let output ← fillSlot texts task.children task.output child (pure value)
  let remaining ← countDown texts.tooMany task.remaining
  let task := { task with output := output, remaining := remaining }
  if remaining = 0 then
    let output ← completedValues texts task.output
    return (.return (← allocNativeSequence output task.shape), task)
  else return (.wait, task)

def childSpec (index : Nat) (task : NativeSequenceMap Ptr) :
    EvalM Ptr Value Call (NativeChildSpec Ptr) := do
  let value ← ask (.listItem task.values index)
  nativeApplySpec runtime task.func task.funcType value task.elemType

end NativeSequenceMap

namespace NativeSequenceFilter

def texts : GatherTexts :=
  .ofTask "native sequence filter" " received unknown child"

def enter (task : NativeSequenceFilter Ptr) :
    EvalM Ptr Value Call (NativeStep Ptr × NativeSequenceFilter Ptr) := do
  if task.values.len = 0 then
    return (.return (← allocNativeSequence [] task.shape), task)
  else
    let len := task.values.len
    return (.schedule len,
      { task with children := [], keep := List.replicate len none, remaining := len })

/-- The items that are kept; the others are not read. -/
def keptItems (values : ListItems Ptr) :
    Nat → List (Option Bool) → EvalM Ptr Value Call (List Ptr)
  | _, [] => pure []
  | _, none :: _ => internal texts.missing
  | index, some true :: keep => do
      let value ← ask (.listItem values index)
      return value :: (← keptItems values (index + 1) keep)
  | index, some false :: keep => keptItems values (index + 1) keep

def receive (child : FrameId) (value : Ptr) (task : NativeSequenceFilter Ptr) :
    EvalM Ptr Value Call (NativeStep Ptr × NativeSequenceFilter Ptr) := do
  let keep ← fillSlot texts task.children task.keep child (ask (.asBool value))
  let remaining ← countDown texts.tooMany task.remaining
  let task := { task with keep := keep, remaining := remaining }
  if remaining = 0 then
    let output ← keptItems task.values 0 task.keep
    return (.return (← allocNativeSequence output task.shape), task)
  else return (.wait, task)

def childSpec (index : Nat) (task : NativeSequenceFilter Ptr) :
    EvalM Ptr Value Call (NativeChildSpec Ptr) := do
  let value ← ask (.listItem task.values index)
  nativeApplySpec runtime task.func task.funcType value task.elemType

end NativeSequenceFilter

namespace NativeSequencePredicate

def texts : GatherTexts :=
  .ofTask "native sequence predicate" " received unknown child"

/-- The items by whether they matched. -/
def partition (values : ListItems Ptr) (matched : List (Option Bool)) :
    Nat → EvalM Ptr Value Call (List Ptr × List Ptr)
  | 0 => pure ([], [])
  | index + 1 => do
      let (matching, rejected) ← partition values matched index
      let value ← ask (.listItem values index)
      match matched[index]?.join with
      | some true => return (matching ++ [value], rejected)
      | some false => return (matching, rejected ++ [value])
      | none => internal "native list partition completed with missing result"

def finish (task : NativeSequencePredicate Ptr) : EvalM Ptr Value Call (NativeStep Ptr) :=
  match task.mode with
  | .count => do
      let count := (task.matched.filter (· == some true)).length
      return .return (← ask (.allocInteger .u64 count))
  | .partition => do
      let (matching, rejected) ← partition task.values task.matched task.values.len
      let matching ← ask (.allocList matching)
      let rejected ← ask (.allocList rejected)
      return .return (← ask (.allocTuple [matching, rejected]))

def enter (task : NativeSequencePredicate Ptr) :
    EvalM Ptr Value Call (NativeStep Ptr × NativeSequencePredicate Ptr) := do
  if task.values.len = 0 then return (← task.finish, task)
  else
    let len := task.values.len
    return (.schedule len,
      { task with children := [], matched := List.replicate len none, remaining := len })

def receive (child : FrameId) (value : Ptr) (task : NativeSequencePredicate Ptr) :
    EvalM Ptr Value Call (NativeStep Ptr × NativeSequencePredicate Ptr) := do
  let matched ← fillSlot texts task.children task.matched child (ask (.asBool value))
  let remaining ← countDown texts.tooMany task.remaining
  let task := { task with matched := matched, remaining := remaining }
  if remaining = 0 then return (← task.finish, task)
  else return (.wait, task)

def childSpec (index : Nat) (task : NativeSequencePredicate Ptr) :
    EvalM Ptr Value Call (NativeChildSpec Ptr) := do
  let value ← ask (.listItem task.values index)
  nativeApplySpec runtime task.func task.funcType value task.elemType

end NativeSequencePredicate

namespace NativeSequenceFilterMap

def texts : GatherTexts :=
  .ofTask "native sequence filter_map" " received unknown child"

def enter (task : NativeSequenceFilterMap Ptr) :
    EvalM Ptr Value Call (NativeStep Ptr × NativeSequenceFilterMap Ptr) := do
  if task.values.len = 0 then
    return (.return (← allocNativeSequence [] task.shape), task)
  else
    let len := task.values.len
    return (.schedule len,
      { task with children := [], output := List.replicate len none, remaining := len })

def receive (child : FrameId) (value : Ptr) (task : NativeSequenceFilterMap Ptr) :
    EvalM Ptr Value Call (NativeStep Ptr × NativeSequenceFilterMap Ptr) := do
  let output ← fillSlot texts task.children task.output child (optionValuePtr value)
  let remaining ← countDown texts.tooMany task.remaining
  let task := { task with output := output, remaining := remaining }
  if remaining = 0 then
    let output ← completedValues texts task.output
    return (.return (← allocNativeSequence output.reduceOption task.shape), task)
  else return (.wait, task)

def childSpec (index : Nat) (task : NativeSequenceFilterMap Ptr) :
    EvalM Ptr Value Call (NativeChildSpec Ptr) := do
  let value ← ask (.listItem task.values index)
  nativeApplySpec runtime task.func task.funcType value task.elemType

end NativeSequenceFilterMap

namespace NativeSequenceFlatMap

def texts : GatherTexts :=
  .ofTask "native sequence flat_map" " received unknown child"

def enter (task : NativeSequenceFlatMap Ptr) :
    EvalM Ptr Value Call (NativeStep Ptr × NativeSequenceFlatMap Ptr) := do
  if task.values.len = 0 then
    return (.return (← allocNativeSequence [] task.shape), task)
  else
    let len := task.values.len
    return (.schedule len,
      { task with children := [], output := List.replicate len none, remaining := len })

def receive (child : FrameId) (value : Ptr) (task : NativeSequenceFlatMap Ptr) :
    EvalM Ptr Value Call (NativeStep Ptr × NativeSequenceFlatMap Ptr) := do
  let output ← fillSlot texts task.children task.output child
    (nativeFlattenSequence value task.shape)
  let remaining ← countDown texts.tooMany task.remaining
  let task := { task with output := output, remaining := remaining }
  if remaining = 0 then
    let output ← completedValues texts task.output
    return (.return (← allocNativeSequence output.flatten task.shape), task)
  else return (.wait, task)

def childSpec (index : Nat) (task : NativeSequenceFlatMap Ptr) :
    EvalM Ptr Value Call (NativeChildSpec Ptr) := do
  let value ← ask (.listItem task.values index)
  nativeApplySpec runtime task.func task.funcType value task.elemType

end NativeSequenceFlatMap

namespace NativeDictMap

def texts : GatherTexts :=
  .ofTask "native dict map" " received unknown child"

def enter (task : NativeDictMap Ptr) :
    EvalM Ptr Value Call (NativeStep Ptr × NativeDictMap Ptr) := do
  if task.entries.length = 0 then return (.return (← ask (.allocDict [])), task)
  else
    let len := task.entries.length
    return (.schedule len, { task with children := [], output := [], remaining := len })

/-- The output is a map here, in which the key of the child must be new. -/
def receive (child : FrameId) (value : Ptr) (task : NativeDictMap Ptr) :
    EvalM Ptr Value Call (NativeStep Ptr × NativeDictMap Ptr) := do
  let index ← require texts.unknown (task.children.idxOf? child)
  let (key, _) ← require texts.outOfBounds task.entries[index]?
  if (task.output.lookup key).isSome then internal texts.duplicate
  else
    let remaining ← countDown texts.tooMany task.remaining
    let task := { task with output := task.output.insert key value, remaining := remaining }
    if remaining = 0 then return (.return (← ask (.allocDict task.output)), task)
    else return (.wait, task)

def childSpec (index : Nat) (task : NativeDictMap Ptr) :
    EvalM Ptr Value Call (NativeChildSpec Ptr) := do
  let (_, value) ← require "native dict map child index out of bounds" task.entries[index]?
  nativeApplySpec runtime task.func task.funcType value task.elemType

end NativeDictMap

namespace NativeDictEntryMap

def texts : GatherTexts :=
  .ofTask "native dict entry map" " received unknown child"

def enter (task : NativeDictEntryMap Ptr) :
    EvalM Ptr Value Call (NativeStep Ptr × NativeDictEntryMap Ptr) := do
  if task.args.length = 0 then return (.return (← ask (.allocDict [])), task)
  else
    let len := task.args.length
    return (.schedule len,
      { task with children := [], output := List.replicate len none, remaining := len })

/-- The loop over the results, in the order of the original keys. -/
def collectPairs : List Ptr → SymbolMap Ptr → EvalM Ptr Value Call (SymbolMap Ptr)
  | [], output => pure output
  | result :: results, output => do
      match ← ask (.asTuple result) with
      | [first, second] =>
          let key ← ask (.asString first)
          collectPairs results (output.insert key second)
      | _ => raise (.nativeType "(String, a)" (← ask (.typeName result)))

def receive (child : FrameId) (value : Ptr) (task : NativeDictEntryMap Ptr) :
    EvalM Ptr Value Call (NativeStep Ptr × NativeDictEntryMap Ptr) := do
  let output ← replaceSlot texts task.children task.output child (pure value)
  let remaining ← countDown texts.tooMany task.remaining
  let task := { task with output := output, remaining := remaining }
  if remaining = 0 then
    let results ← completedValues texts task.output
    let output ← collectPairs results []
    return (.return (← ask (.allocDict output)), task)
  else return (.wait, task)

def childSpec (index : Nat) (task : NativeDictEntryMap Ptr) :
    EvalM Ptr Value Call (NativeChildSpec Ptr) := do
  let arg ← require "native dict entry map child index out of bounds" task.args[index]?
  nativeApplySpec runtime task.func task.funcType arg task.entryType

end NativeDictEntryMap

namespace NativeDictFilter

def texts : GatherTexts :=
  .ofTask "native dict filter" " unknown child"

def enter (task : NativeDictFilter Ptr) :
    EvalM Ptr Value Call (NativeStep Ptr × NativeDictFilter Ptr) := do
  if task.entries.length = 0 then return (.return (← ask (.allocDict [])), task)
  else if task.entries.length ≠ task.args.length then
    internal "native dict filter has mismatched entries and arguments"
  else
    let len := task.entries.length
    return (.schedule len,
      { task with children := [], keep := List.replicate len none, remaining := len })

def receive (child : FrameId) (value : Ptr) (task : NativeDictFilter Ptr) :
    EvalM Ptr Value Call (NativeStep Ptr × NativeDictFilter Ptr) := do
  let keep ← replaceSlot texts task.children task.keep child (ask (.asBool value))
  let remaining ← countDown texts.tooMany task.remaining
  let task := { task with keep := keep, remaining := remaining }
  if remaining = 0 then
    let keep ← completedValues texts (task.keep.take task.entries.length)
    let output := (task.entries.zip keep).foldl
      (fun output entry => if entry.2 then output.insert entry.1.1 entry.1.2 else output) []
    return (.return (← ask (.allocDict output)), task)
  else return (.wait, task)

def childSpec (index : Nat) (task : NativeDictFilter Ptr) :
    EvalM Ptr Value Call (NativeChildSpec Ptr) := do
  let arg ← require "native dict filter child index out of bounds" task.args[index]?
  nativeApplySpec runtime task.func task.funcType arg task.argType

end NativeDictFilter

namespace NativeDictFilterMap

def texts : GatherTexts :=
  .ofTask "native dict filter_map" " unknown child"

def enter (task : NativeDictFilterMap Ptr) :
    EvalM Ptr Value Call (NativeStep Ptr × NativeDictFilterMap Ptr) := do
  if task.entries.length = 0 then return (.return (← ask (.allocDict [])), task)
  else
    let len := task.entries.length
    return (.schedule len,
      { task with children := [], output := List.replicate len none, remaining := len })

def receive (child : FrameId) (value : Ptr) (task : NativeDictFilterMap Ptr) :
    EvalM Ptr Value Call (NativeStep Ptr × NativeDictFilterMap Ptr) := do
  let output ← replaceSlot texts task.children task.output child (optionValuePtr value)
  let remaining ← countDown texts.tooMany task.remaining
  let task := { task with output := output, remaining := remaining }
  if remaining = 0 then
    let values ← completedValues texts (task.output.take task.entries.length)
    let output := (task.entries.zip values).foldl
      (fun output entry =>
        match entry.2 with
        | some value => output.insert entry.1.1 value
        | none => output) []
    return (.return (← ask (.allocDict output)), task)
  else return (.wait, task)

def childSpec (index : Nat) (task : NativeDictFilterMap Ptr) :
    EvalM Ptr Value Call (NativeChildSpec Ptr) := do
  let (_, value) ← require "native dict filter_map child index out of bounds" task.entries[index]?
  nativeApplySpec runtime task.func task.funcType value task.elemType

end NativeDictFilterMap

namespace NativeDictUpdate

def enter (task : NativeDictUpdate Ptr) : NativeStep Ptr × NativeDictUpdate Ptr :=
  (.schedule 1, { task with children := [] })

def receive (child : FrameId) (value : Ptr) (task : NativeDictUpdate Ptr) :
    EvalM Ptr Value Call (NativeStep Ptr × NativeDictUpdate Ptr) := do
  if task.children ≠ [child] then internal "native dict update received unexpected child"
  else
    let entries := match ← optionValuePtr value with
      | some value => task.entries.insert task.key value
      | none => task.entries.filter (·.1 ≠ task.key)
    return (.return (← ask (.allocDict entries)), { task with entries := entries })

def childSpec (index : Nat) (task : NativeDictUpdate Ptr) :
    EvalM Ptr Value Call (NativeChildSpec Ptr) := do
  if index ≠ 0 then internal "native dict update child index out of bounds"
  else nativeApplySpec runtime task.func task.funcType task.arg task.optionType

end NativeDictUpdate

/-! ## Tasks that apply one function after the other -/

namespace NativeApplyUnary

def enter (task : NativeApplyUnary Ptr) : EvalM Ptr Value Call (NativeStep Ptr) :=
  nativeApplyStep runtime task.func task.funcType task.arg task.argType

def receive (value : Ptr) : NativeStep Ptr :=
  .return value

end NativeApplyUnary

namespace NativeListSearch

def applyNext (task : NativeListSearch Ptr) : EvalM Ptr Value Call (NativeStep Ptr) := do
  let value ← ask (.listItem task.values task.nextIndex)
  nativeApplyStep runtime task.func task.funcType value task.elemType

def exhausted (task : NativeListSearch Ptr) : EvalM Ptr Value Call (NativeStep Ptr) := do
  match task.mode with
  | .any => return .return (← ask (.allocBool false))
  | .all => return .return (← ask (.allocBool true))
  | .find | .findIndex => return .return (← optionFromNativePointer none)

def enter (task : NativeListSearch Ptr) :
    EvalM Ptr Value Call (NativeStep Ptr × NativeListSearch Ptr) := do
  let task := { task with nextIndex := 0 }
  if task.values.len = 0 then return (← task.exhausted, task)
  else return (← task.applyNext runtime, task)

/-- The search goes on with the next item. -/
def advance (task : NativeListSearch Ptr) :
    EvalM Ptr Value Call (NativeStep Ptr × NativeListSearch Ptr) := do
  let task := { task with nextIndex := task.nextIndex + 1 }
  if task.nextIndex = task.values.len then return (← task.exhausted, task)
  else return (← task.applyNext runtime, task)

def receive (value : Ptr) (task : NativeListSearch Ptr) :
    EvalM Ptr Value Call (NativeStep Ptr × NativeListSearch Ptr) := do
  let matched ← ask (.asBool value)
  match task.mode, matched with
  | .any, true => return (.return (← ask (.allocBool true)), task)
  | .all, false => return (.return (← ask (.allocBool false)), task)
  | .find, true =>
      let value ← ask (.listItem task.values task.nextIndex)
      return (.return (← optionFromNativePointer (some value)), task)
  | .findIndex, true =>
      let index ← ask (.allocInteger .u64 task.nextIndex)
      return (.return (← optionFromNativePointer (some index)), task)
  | _, _ => task.advance runtime

end NativeListSearch

namespace NativeUnaryMap

def enter (task : NativeUnaryMap Ptr) : EvalM Ptr Value Call (NativeStep Ptr) :=
  nativeApplyStep runtime task.func task.funcType task.value task.elemType

def receive (value : Ptr) (task : NativeUnaryMap Ptr) : EvalM Ptr Value Call (NativeStep Ptr) :=
  match task.shape with
  | .option => return .return (← optionFromNativePointer (some value))
  | .result => return .return (← resultFromNativePointer (.ok value))

end NativeUnaryMap

namespace NativeUnaryFilter

def enter (task : NativeUnaryFilter Ptr) : EvalM Ptr Value Call (NativeStep Ptr) :=
  nativeApplyStep runtime task.func task.funcType task.value task.elemType

def receive (value : Ptr) (task : NativeUnaryFilter Ptr) :
    EvalM Ptr Value Call (NativeStep Ptr) := do
  if ← ask (.asBool value) then return .return task.original
  else return .return (← optionFromNativePointer none)

end NativeUnaryFilter

namespace NativeUnaryFilterMap

def enter (task : NativeUnaryFilterMap Ptr) : EvalM Ptr Value Call (NativeStep Ptr) :=
  nativeApplyStep runtime task.func task.funcType task.value task.elemType

def receive (value : Ptr) : NativeStep Ptr :=
  .return value

end NativeUnaryFilterMap

namespace NativeUnaryFlatMap

def enter (task : NativeUnaryFlatMap Ptr) : EvalM Ptr Value Call (NativeStep Ptr) :=
  nativeApplyStep runtime task.func task.funcType task.value task.elemType

def receive (value : Ptr) (task : NativeUnaryFlatMap Ptr) :
    EvalM Ptr Value Call (NativeStep Ptr) :=
  match task.shape with
  | .option => return .return value
  | .result => do
      let _ ← resultValuePtr value
      return .return value

end NativeUnaryFlatMap

namespace NativeFold

def valueAt (index : Nat) (task : NativeFold Ptr) : EvalM Ptr Value Call Ptr :=
  match task.order with
  | .left => ask (.listItem task.values index)
  | .right =>
      if task.values.len < index + 1 then internal "native fold index out of bounds"
      else ask (.listItem task.values (task.values.len - (index + 1)))

def applyFirst (task : NativeFold Ptr) : EvalM Ptr Value Call (NativeStep Ptr) :=
  match task.order with
  | .left => nativeApplyStep runtime task.func task.funcType task.acc task.accType
  | .right => do
      let arg ← task.valueAt task.nextIndex
      nativeApplyStep runtime task.func task.funcType arg task.elemType

def applySecond (task : NativeFold Ptr) : EvalM Ptr Value Call (NativeStep Ptr) := do
  let step ← require "native fold missing step function" task.step
  match task.order with
  | .left =>
      let arg ← task.valueAt task.nextIndex
      nativeApplyStep runtime step (.func task.elemType task.accType) arg task.elemType
  | .right => nativeApplyStep runtime step (.func task.accType task.accType) task.acc task.accType

def enter (task : NativeFold Ptr) : EvalM Ptr Value Call (NativeStep Ptr × NativeFold Ptr) := do
  if task.values.len = 0 then return (.return task.acc, task)
  else
    let task := { task with state := .applyFirst, nextIndex := 0 }
    return (← task.applyFirst runtime, task)

def receive (value : Ptr) (task : NativeFold Ptr) :
    EvalM Ptr Value Call (NativeStep Ptr × NativeFold Ptr) := do
  match task.state with
  | .applyFirst =>
      let task := { task with step := some value, state := .applySecond }
      return (← task.applySecond runtime, task)
  | .applySecond =>
      let task := { task with acc := value, step := none, nextIndex := task.nextIndex + 1 }
      if task.nextIndex = task.values.len then return (.return task.acc, task)
      else
        let task := { task with state := .applyFirst }
        return (← task.applyFirst runtime, task)
  | .enter => unexpectedChildResult "native fold"

end NativeFold

namespace NativeArrayEq

def applyFirst (task : NativeArrayEq Ptr) : EvalM Ptr Value Call (NativeStep Ptr) := do
  let eqTy := Typ.func task.elemType (.func task.elemType (.builtin .bool))
  let lhs ← ask (.listItem task.xs task.nextIndex)
  let eq ← overloadedRoot "==" eqTy
  nativeApplyStep runtime eq eqTy lhs task.elemType

def applySecond (task : NativeArrayEq Ptr) : EvalM Ptr Value Call (NativeStep Ptr) := do
  let step ← require "native list equality missing step" task.step
  let stepTy := Typ.func task.elemType (.builtin .bool)
  let y ← ask (.listItem task.ys task.nextIndex)
  nativeApplyStep runtime step stepTy y task.elemType

def result (equal : Bool) (task : NativeArrayEq Ptr) : EvalM Ptr Value Call (NativeStep Ptr) := do
  return .return (← ask (.allocBool (if task.negate then !equal else equal)))

def enter (task : NativeArrayEq Ptr) :
    EvalM Ptr Value Call (NativeStep Ptr × NativeArrayEq Ptr) := do
  if task.xs.len ≠ task.ys.len then return (← task.result false, task)
  else if task.xs.len = 0 then return (← task.result true, task)
  else
    let task := { task with state := .applyFirst, nextIndex := 0 }
    return (← task.applyFirst runtime, task)

def receive (value : Ptr) (task : NativeArrayEq Ptr) :
    EvalM Ptr Value Call (NativeStep Ptr × NativeArrayEq Ptr) := do
  match task.state with
  | .applyFirst =>
      let task := { task with step := some value, state := .applySecond }
      return (← task.applySecond runtime, task)
  | .applySecond =>
      if ← ask (.asBool value) then
        let task := { task with step := none, nextIndex := task.nextIndex + 1 }
        if task.nextIndex = task.xs.len then return (← task.result true, task)
        else
          let task := { task with state := .applyFirst }
          return (← task.applyFirst runtime, task)
      else return (← task.result false, task)
  | .enter => unexpectedChildResult "native list equality"

end NativeArrayEq

namespace NativeSum

def applyFirst (task : NativeSum Ptr) : EvalM Ptr Value Call (NativeStep Ptr) := do
  let plus ← require "native sum missing plus function" task.plus
  let acc ← require "native sum missing accumulator" task.acc
  nativeApplyStep runtime plus (binarySameType task.elemType) acc task.elemType

def applyFirstMayAllocate (task : NativeSum Ptr) :
    EvalM Ptr Value Call (NativeStep Ptr × NativeSum Ptr) := do
  let plus ← allocOnce (overloadedRoot "+" (binarySameType task.elemType)) task.plus
  let task := { task with plus := some plus }
  return (← task.applyFirst runtime, task)

def applySecond (task : NativeSum Ptr) : EvalM Ptr Value Call (NativeStep Ptr) := do
  let step ← require "native sum missing step" task.step
  let arg ← ask (.listItem task.values task.nextIndex)
  nativeApplyStep runtime step (.func task.elemType task.elemType) arg task.elemType

def enter (task : NativeSum Ptr) : EvalM Ptr Value Call (NativeStep Ptr × NativeSum Ptr) := do
  if task.values.len = 0 then return (nativeEvalVarStep "zero" task.elemType, task)
  else
    let first ← ask (.listItem task.values 0)
    let task := { task with acc := some first, nextIndex := 1 }
    if task.nextIndex = task.values.len then return (.return first, task)
    else applyFirstMayAllocate runtime { task with state := .applyFirst }

def receive (value : Ptr) (task : NativeSum Ptr) :
    EvalM Ptr Value Call (NativeStep Ptr × NativeSum Ptr) := do
  match task.state with
  | .enter => return (.return value, task)
  | .applyFirst =>
      let task := { task with step := some value, state := .applySecond }
      return (← task.applySecond runtime, task)
  | .applySecond =>
      let task := { task with acc := some value, step := none, nextIndex := task.nextIndex + 1 }
      if task.nextIndex = task.values.len then return (.return value, task)
      else
        let task := { task with state := .applyFirst }
        return (← task.applyFirst runtime, task)

end NativeSum

namespace NativeMean

def applyPlusFirst (task : NativeMean Ptr) : EvalM Ptr Value Call (NativeStep Ptr) := do
  let plusTy := binarySameType task.elemType
  let acc ← require "native mean missing accumulator" task.acc
  let plus ← overloadedRoot "+" plusTy
  nativeApplyStep runtime plus plusTy acc task.elemType

def applyPlusSecond (task : NativeMean Ptr) : EvalM Ptr Value Call (NativeStep Ptr) := do
  let step ← require "native mean missing addition step" task.step
  let arg ← ask (.listItem task.values task.nextIndex)
  nativeApplyStep runtime step (.func task.elemType task.elemType) arg task.elemType

def applyDivFirst (task : NativeMean Ptr) :
    EvalM Ptr Value Call (NativeStep Ptr × NativeMean Ptr) := do
  let divTy := binarySameType task.elemType
  let acc ← require "native mean missing accumulator" task.acc
  let div ← overloadedRoot "/" divTy
  let lenValue ← allocOnce (lenValueForNativeType task.elemType task.len) task.lenValue
  let task := { task with lenValue := some lenValue }
  return (← nativeApplyStep runtime div divTy acc task.elemType, task)

def applyDivSecond (task : NativeMean Ptr) : EvalM Ptr Value Call (NativeStep Ptr) := do
  let step ← require "native mean missing division step" task.step
  let lenValue ← require "native mean missing length value" task.lenValue
  nativeApplyStep runtime step (.func task.elemType task.elemType) lenValue task.elemType

def enter (task : NativeMean Ptr) : EvalM Ptr Value Call (NativeStep Ptr × NativeMean Ptr) := do
  if task.values.len = 0 then raise .emptySequence
  else
    let first ← ask (.listItem task.values 0)
    let task := { task with acc := some first, nextIndex := 1 }
    if task.nextIndex = task.values.len then
      applyDivFirst runtime { task with state := .applyDivFirst }
    else
      let task := { task with state := .applyPlusFirst }
      return (← task.applyPlusFirst runtime, task)

def receive (value : Ptr) (task : NativeMean Ptr) :
    EvalM Ptr Value Call (NativeStep Ptr × NativeMean Ptr) := do
  match task.state with
  | .applyPlusFirst =>
      let task := { task with step := some value, state := .applyPlusSecond }
      return (← task.applyPlusSecond runtime, task)
  | .applyPlusSecond =>
      let task := { task with acc := some value, step := none, nextIndex := task.nextIndex + 1 }
      if task.nextIndex = task.values.len then
        applyDivFirst runtime { task with state := .applyDivFirst }
      else
        let task := { task with state := .applyPlusFirst }
        return (← task.applyPlusFirst runtime, task)
  | .applyDivFirst =>
      let task := { task with step := some value, state := .applyDivSecond }
      return (← task.applyDivSecond runtime, task)
  | .applyDivSecond => return (.return value, task)
  | .enter => unexpectedChildResult "native mean"

end NativeMean

/-! ## All tasks -/

namespace NativeTask

/-- `enter`. -/
def enter : NativeTask Ptr → EvalM Ptr Value Call (NativeStep Ptr × NativeTask Ptr)
  | applyUnary task => return (← task.enter runtime, .applyUnary task)
  | sequenceMap task => Prod.map id sequenceMap <$> task.enter
  | sequenceFilter task => Prod.map id sequenceFilter <$> task.enter
  | sequencePredicate task => Prod.map id sequencePredicate <$> task.enter
  | sequenceFilterMap task => Prod.map id sequenceFilterMap <$> task.enter
  | sequenceFlatMap task => Prod.map id sequenceFlatMap <$> task.enter
  | listSearch task => Prod.map id listSearch <$> task.enter runtime
  | unaryMap task => return (← task.enter runtime, .unaryMap task)
  | unaryFilter task => return (← task.enter runtime, .unaryFilter task)
  | unaryFilterMap task => return (← task.enter runtime, .unaryFilterMap task)
  | unaryFlatMap task => return (← task.enter runtime, .unaryFlatMap task)
  | fold task => Prod.map id fold <$> task.enter runtime
  | dictMap task => Prod.map id dictMap <$> task.enter
  | dictEntryMap task => Prod.map id dictEntryMap <$> task.enter
  | dictFilter task => Prod.map id dictFilter <$> task.enter
  | dictFilterMap task => Prod.map id dictFilterMap <$> task.enter
  | dictUpdate task => return Prod.map id dictUpdate task.enter
  | arrayEq task => Prod.map id arrayEq <$> task.enter runtime
  | sum task => Prod.map id sum <$> task.enter runtime
  | mean task => Prod.map id mean <$> task.enter runtime

/-- `receive`. -/
def receive (child : FrameId) (value : Ptr) :
    NativeTask Ptr → EvalM Ptr Value Call (NativeStep Ptr × NativeTask Ptr)
  | applyUnary task => return (NativeApplyUnary.receive value, .applyUnary task)
  | sequenceMap task => Prod.map id sequenceMap <$> task.receive child value
  | sequenceFilter task => Prod.map id sequenceFilter <$> task.receive child value
  | sequencePredicate task => Prod.map id sequencePredicate <$> task.receive child value
  | sequenceFilterMap task => Prod.map id sequenceFilterMap <$> task.receive child value
  | sequenceFlatMap task => Prod.map id sequenceFlatMap <$> task.receive child value
  | listSearch task => Prod.map id listSearch <$> task.receive runtime value
  | unaryMap task => return (← task.receive value, .unaryMap task)
  | unaryFilter task => return (← task.receive value, .unaryFilter task)
  | unaryFilterMap task => return (NativeUnaryFilterMap.receive value, .unaryFilterMap task)
  | unaryFlatMap task => return (← task.receive value, .unaryFlatMap task)
  | fold task => Prod.map id fold <$> task.receive runtime value
  | dictMap task => Prod.map id dictMap <$> task.receive child value
  | dictEntryMap task => Prod.map id dictEntryMap <$> task.receive child value
  | dictFilter task => Prod.map id dictFilter <$> task.receive child value
  | dictFilterMap task => Prod.map id dictFilterMap <$> task.receive child value
  | dictUpdate task => Prod.map id dictUpdate <$> task.receive child value
  | arrayEq task => Prod.map id arrayEq <$> task.receive runtime value
  | sum task => Prod.map id sum <$> task.receive runtime value
  | mean task => Prod.map id mean <$> task.receive runtime value

/-- `push_scheduled_child`. -/
def pushScheduledChild (child : FrameId) :
    NativeTask Ptr → EvalM Ptr Value Call (NativeTask Ptr)
  | sequenceMap task => return .sequenceMap { task with children := task.children ++ [child] }
  | sequenceFilter task =>
      return .sequenceFilter { task with children := task.children ++ [child] }
  | sequencePredicate task =>
      return .sequencePredicate { task with children := task.children ++ [child] }
  | sequenceFilterMap task =>
      return .sequenceFilterMap { task with children := task.children ++ [child] }
  | sequenceFlatMap task =>
      return .sequenceFlatMap { task with children := task.children ++ [child] }
  | dictMap task => return .dictMap { task with children := task.children ++ [child] }
  | dictEntryMap task => return .dictEntryMap { task with children := task.children ++ [child] }
  | dictFilter task => return .dictFilter { task with children := task.children ++ [child] }
  | dictFilterMap task =>
      return .dictFilterMap { task with children := task.children ++ [child] }
  | dictUpdate task => return .dictUpdate { task with children := task.children ++ [child] }
  | _ => internal "native task does not accept scheduled children"

/-- `scheduled_children`. -/
def scheduledChildren : NativeTask Ptr → EvalM Ptr Value Call (List FrameId)
  | sequenceMap task => return task.children
  | sequenceFilter task => return task.children
  | sequencePredicate task => return task.children
  | sequenceFilterMap task => return task.children
  | sequenceFlatMap task => return task.children
  | dictMap task => return task.children
  | dictEntryMap task => return task.children
  | dictFilter task => return task.children
  | dictFilterMap task => return task.children
  | dictUpdate task => return task.children
  | _ => internal "native task does not have scheduled children"

/-- `scheduled_child_spec`. -/
def scheduledChildSpec (index : Nat) :
    NativeTask Ptr → EvalM Ptr Value Call (NativeChildSpec Ptr)
  | sequenceMap task => task.childSpec runtime index
  | sequenceFilter task => task.childSpec runtime index
  | sequencePredicate task => task.childSpec runtime index
  | sequenceFilterMap task => task.childSpec runtime index
  | sequenceFlatMap task => task.childSpec runtime index
  | dictMap task => task.childSpec runtime index
  | dictEntryMap task => task.childSpec runtime index
  | dictFilter task => task.childSpec runtime index
  | dictFilterMap task => task.childSpec runtime index
  | dictUpdate task => task.childSpec runtime index
  | _ => internal "native task does not have scheduled child specs"

end NativeTask

end RexLang
