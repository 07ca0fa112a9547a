import RexLang.NativeFunctions

/-!
# Entering frames and receiving results

What the evaluator does with a frame when it is entered for the first time, and
when the result of one of its children arrives.
-/

namespace RexLang

variable {Ptr Value Call : Type}

open EvalM

/-! ## Access to the frame store -/

/-- A part of the evaluator that holds the frame store. -/
abbrev FrameM (Ptr Value Call : Type) :=
  StateT (FrameStore (Frame Ptr)) (EvalM Ptr Value Call)

namespace FrameM

/-- `FrameStore::insert`; identifiers are 64-bit. -/
def insert (frame : Frame Ptr) : FrameM Ptr Value Call FrameId := do
  let store ← get
  if store.nextId = 2 ^ 64 - 1 then
    liftM (Program.fail (.panic "evaluator frame identifier overflow") :
      EvalM Ptr Value Call FrameId)
  else
    set ({ store with nextId := store.nextId + 1 }.put store.nextId (some frame))
    return store.nextId

def unknownFrame (id : FrameId) : String :=
  "unknown evaluator frame FrameId(" ++ toString id ++ ")"

/-- `FrameStore::get`. -/
def getFrame (id : FrameId) : FrameM Ptr Value Call (Frame Ptr) := do
  let store ← get
  liftM (require (unknownFrame id) (store.frames id) : EvalM Ptr Value Call (Frame Ptr))

/-- `FrameStore::replace`. -/
def replace (id : FrameId) (frame : Frame Ptr) : FrameM Ptr Value Call Unit := do
  let _ ← getFrame id
  set ((← get).put id (some frame))

/-- `FrameStore::remove`. -/
def remove (id : FrameId) : FrameM Ptr Value Call (Frame Ptr) := do
  let frame ← getFrame id
  set ((← get).put id none)
  return frame

end FrameM

open FrameM

inductive EvalControl (Ptr : Type) where
  | push (expr : TypedExpr) (env : ScopedEnvironment Ptr)
  | pushFrame (frame : Frame Ptr)
  | schedule (children : List FrameId)
  | wait
  | awaitNative (call : NativeCallRequest Ptr)
  | return (value : Ptr)

/-- The children of a frame, one for each expression. -/
def insertChildren (parent : FrameId) (env : ScopedEnvironment Ptr) :
    List TypedExpr → FrameM Ptr Value Call (List FrameId)
  | [] => return []
  | expr :: exprs => do
      let child ← insert (.forExpr (some parent) expr env)
      let children ← insertChildren parent env exprs
      return child :: children

/-! ## Literals -/

/-- The range of an integral type. -/
def integerRange : BuiltinTypeId → Option (Int × Int)
  | .u8 => some (0, 2 ^ 8 - 1)
  | .u16 => some (0, 2 ^ 16 - 1)
  | .u32 => some (0, 2 ^ 32 - 1)
  | .u64 => some (0, 2 ^ 64 - 1)
  | .i8 => some (-2 ^ 7, 2 ^ 7 - 1)
  | .i16 => some (-2 ^ 15, 2 ^ 15 - 1)
  | .i32 => some (-2 ^ 31, 2 ^ 31 - 1)
  | .i64 => some (-2 ^ 63, 2 ^ 63 - 1)
  | _ => none

/-- `try_from` and the allocation of an integral type. -/
def allocIntegerOf (id : BuiltinTypeId) (range : Int × Int) (value : Int) :
    EvalM Ptr Value Call Ptr :=
  if range.1 ≤ value ∧ value ≤ range.2 then ask (.allocInteger id value)
  else raise (.nativeType id.asStr (toString value))

/-- `alloc_uint_literal_as` and `alloc_int_literal_as`. -/
def allocIntegerLiteralAs (value : Int) (typ : Typ) : EvalM Ptr Value Call Ptr :=
  match typ with
  | .var _ => allocIntegerOf .i32 (-2 ^ 31, 2 ^ 31 - 1) value
  | .con (.builtin id) =>
      match integerRange id with
      | some range => allocIntegerOf id range value
      | none => raise (.nativeType "integral" typ.display)
  | _ => raise (.nativeType "integral" typ.display)

/-- `alloc_float_literal_as`. -/
def allocFloatLiteralAs (value : F64) (typ : Typ) : EvalM Ptr Value Call Ptr :=
  match typ with
  | .var _ => ask (.allocF32 value)
  | .con (.builtin .f32) => ask (.allocF32 value)
  | .con (.builtin .f64) => ask (.allocF64 value)
  | _ => raise (.nativeType "f32 or f64" typ.display)

/-- `eval_literal_enter`. -/
def evalLiteralEnter (frame : FrLiteral) : EvalM Ptr Value Call (EvalControl Ptr) := do
  match frame.expr.kind with
  | .bool value => return .return (← ask (.allocBool value))
  | .uint value => return .return (← allocIntegerLiteralAs value frame.expr.typ)
  | .int value => return .return (← allocIntegerLiteralAs value frame.expr.typ)
  | .float value => return .return (← allocFloatLiteralAs value frame.expr.typ)
  | .char value => return .return (← ask (.allocChar value))
  | .string value => return .return (← ask (.allocString value))
  | .uuid value => return .return (← ask (.allocUuid value))
  | .dateTime nanos => return .return (← ask (.allocDateTime nanos))
  | _ => frameKindError "literal"

/-! ## Sequences and record updates -/

/-- The errors of `receive_sequence_value` and `completed_values`. -/
def sequenceTexts (kind : String) : GatherTexts :=
  ⟨kind ++ " received result from unknown child", kind ++ " result slot index out of bounds",
    kind ++ " received duplicate result from child",
    kind ++ " received more results than expected", kind ++ " completed with missing result"⟩

/-- `receive_sequence_value`. -/
def receiveSequenceValue (kind : String) (children : List FrameId) (values : List (Option Ptr))
    (remaining : Nat) (child : FrameId) (value : Ptr) :
    EvalM Ptr Value Call (List (Option Ptr) × Nat) := do
  let values ← fillSlot (sequenceTexts kind) children values child (pure value)
  let remaining ← countDown (sequenceTexts kind).tooMany remaining
  return (values, remaining)

/-- `map_keys_to_values`. -/
def mapKeysToValues (kind : String) (keys : List Symbol) (values : List Ptr) :
    EvalM Ptr Value Call (SymbolMap Ptr) :=
  if keys.length ≠ values.length then
    internal (kind ++ " completed with mismatched keys and values")
  else pure (keys.zip values)

/-- `sequence_exprs`. -/
def sequenceExprs (expr : TypedExpr) : EvalM Ptr Value Call (List TypedExpr) :=
  match expr.kind with
  | .tuple elems | .list elems => pure elems
  | .dict kvs => pure (kvs.map Prod.snd)
  | _ => frameKindError "sequence"

/-- `sequence_kind`. -/
def sequenceKind (expr : TypedExpr) : EvalM Ptr Value Call String :=
  match expr.kind with
  | .tuple _ => pure "tuple"
  | .list _ => pure "list"
  | .dict _ => pure "dict"
  | _ => frameKindError "sequence"

/-- `alloc_sequence_values`. -/
def allocSequenceValues (expr : TypedExpr) (values : List Ptr) : EvalM Ptr Value Call Ptr :=
  match expr.kind with
  | .tuple _ => ask (.allocTuple values)
  | .list _ => ask (.allocList values)
  | .dict kvs => do
      let values ← mapKeysToValues "dict" (kvs.map Prod.fst) values
      ask (.allocDict values)
  | _ => frameKindError "sequence"

/-- `eval_sequence_enter`. -/
def evalSequenceEnter (frameId : FrameId) (frame : FrSequence Ptr) :
    FrameM Ptr Value Call (EvalControl Ptr) := do
  let exprs ← liftM (sequenceExprs frame.expr : EvalM Ptr Value Call _)
  if exprs.length = 0 then
    let root ← liftM (allocSequenceValues frame.expr [] : EvalM Ptr Value Call _)
    return .return root
  else
    let children ← insertChildren frameId frame.env exprs
    replace frameId (.sequence { frame with
      state := .evalItem
      children := children
      values := List.replicate exprs.length none
      remaining := exprs.length })
    return .schedule children

/-- `record_update_exprs_for_keys`. -/
def recordUpdateExprsForKeys (frame : FrRecordUpdate Ptr) (keys : List Symbol) :
    EvalM Ptr Value Call (List TypedExpr) :=
  match frame.expr.kind with
  | .recordUpdate _ updates =>
      keys.mapM fun key => require "record update frame key missing" (updates.lookup key)
  | _ => frameKindError "record update"

/-- `eval_record_update_updates_enter`. -/
def evalRecordUpdateUpdatesEnter (frameId : FrameId) (frame : FrRecordUpdate Ptr) :
    FrameM Ptr Value Call (EvalControl Ptr) := do
  let exprs ← liftM (recordUpdateExprsForKeys frame frame.updateKeys : EvalM Ptr Value Call _)
  let children ← insertChildren frameId frame.env exprs
  replace frameId (.recordUpdate { frame with
    state := .evalUpdate
    updateChildren := children
    updateValues := List.replicate exprs.length none
    remainingUpdates := exprs.length })
  return .schedule children

/-- `extend` of a map. -/
def SymbolMap.extend (map more : SymbolMap Ptr) : SymbolMap Ptr :=
  more.foldl (fun map entry => map.insert entry.1 entry.2) map

/-- `apply_record_update_values`. -/
def applyRecordUpdateValues (basePtr : Ptr) (updateVals : SymbolMap Ptr) :
    EvalM Ptr Value Call Ptr := do
  match ← ask (.typeName basePtr) with
  | "dict" =>
      let map ← ask (.asDict basePtr)
      ask (.allocDict (map.extend updateVals))
  | "adt" =>
      match ← ask (.asAdt basePtr) with
      | (tag, [record]) =>
          if (← ask (.typeName record)) ≠ "dict" then raise .unsupportedExpr
          else
            let map ← ask (.asDict record)
            let root ← ask (.allocDict (map.extend updateVals))
            ask (.allocAdt tag [root])
      | _ => raise .unsupportedExpr
  | _ => raise .unsupportedExpr

/-! ## Projections -/

/-- `parse::<usize>`. -/
def parseUsize (text : String) : Option Nat :=
  let digits := match text.toList with
    | '+' :: digits => digits
    | digits => digits
  if digits = [] ∨ ¬digits.all Char.isDigit then none
  else
    let value := digits.foldl (fun value digit => 10 * value + (digit.toNat - '0'.toNat)) 0
    if value < 2 ^ 64 then some value else none

/-- `ok_or_else` with the error of an unknown field. -/
def fieldOr (field : Symbol) (value : String) : Option Ptr → EvalM Ptr Value Call Ptr
  | some found => pure found
  | none => raise (.unknownField field value)

/-- `project_pointer`. -/
def projectPointer (field : Symbol) (pointer : Ptr) : EvalM Ptr Value Call Ptr := do
  match parseUsize field with
  | some index =>
      if (← ask (.typeName pointer)) ≠ "tuple" then
        raise (.unknownField field (← ask (.typeName pointer)))
      else
        let values ← ask (.asTuple pointer)
        fieldOr field "tuple" values[index]?
  | none =>
      if (← ask (.typeName pointer)) = "dict" then
        let map ← ask (.asDict pointer)
        fieldOr field "record" (map.lookup field)
      else if (← ask (.typeName pointer)) ≠ "adt" then
        raise (.unknownField field (← ask (.typeName pointer)))
      else
        match ← ask (.asAdt pointer) with
        | (_, [record]) =>
            if (← ask (.typeName record)) ≠ "dict" then
              raise (.unknownField field (← ask (.typeName record)))
            else
              let map ← ask (.asDict record)
              fieldOr field "record" (map.lookup field)
        | _ => raise (.unknownField field "adt")

/-! ## Patterns -/

/-- `runtime_ctor_matches`. -/
def runtimeCtorMatches (actual expected : Symbol) : Bool :=
  lastSegment actual = lastSegment expected

def isWildcard : Pattern → Bool
  | .wildcard _ => true
  | _ => false

mutual

/-- `match_pattern_ptr`. -/
def matchPatternPtr : Pattern → Ptr → EvalM Ptr Value Call (Option (SymbolMap Ptr))
  | .wildcard _, _ => return some []
  | .var binder, value => return some [(binder.name, value)]
  | .named _ name patterns, value => do
      let expected := name.toDottedSymbol
      match ← ask (.typeName value) with
      | "adt" =>
          let (actual, args) ← ask (.asAdt value)
          if runtimeCtorMatches actual expected ∧ args.length = patterns.length then
            matchPatternsPtr patterns args []
          else return none
      | "list" =>
          if lastSegment expected = "Empty" ∧ patterns.length = 0 then
            return if (← ask (.listLen value)) = 0 then some [] else none
          else if lastSegment expected = "Cons" ∧ patterns.length = 2 then
            match ← ask (.listHeadTail value) with
            | some (head, tail) => matchPatternsPtr patterns [head, tail] []
            | none => return none
          else return none
      | _ => return none
  | .tuple _ patterns, value => do
      if (← ask (.typeName value)) ≠ "tuple" then return none
      else
        let values ← ask (.asTuple value)
        if values.length = patterns.length then matchPatternsPtr patterns values []
        else return none
  | .list _ patterns, value => do
      if (← ask (.listLen value)) ≠ patterns.length then return none
      else if patterns.all isWildcard then return some []
      else
        let values ← ask (.listItems value)
        if patterns.length ≠ values.len then return none
        else matchListPatternsPtr patterns values 0 []
  | .cons _ head tail, value => do
      match ← ask (.listHeadTail value) with
      | none => return none
      | some (headValue, tailValue) =>
          match ← matchPatternPtr head headValue with
          | none => return none
          | some first =>
              match ← matchPatternPtr tail tailValue with
              | none => return none
              | some second => return some ((SymbolMap.extend [] first).extend second)
  | .dict _ fields, value => do
      if (← ask (.typeName value)) ≠ "dict" then return none
      else
        let map ← ask (.asDict value)
        match allFilled (fields.map fun field => map.lookup field.1) with
        | some values => matchFieldPatternsPtr fields values []
        | none => return none

/-- `match_patterns`. -/
def matchPatternsPtr : List Pattern → List Ptr → SymbolMap Ptr →
    EvalM Ptr Value Call (Option (SymbolMap Ptr))
  | [], _, bindings => return some bindings
  | _ :: _, [], _ => .fail (.panic "index out of bounds")
  | pattern :: patterns, value :: values, bindings => do
      match ← matchPatternPtr pattern value with
      | some sub => matchPatternsPtr patterns values (bindings.extend sub)
      | none => return none

/-- `match_patterns` on the patterns of a dictionary. -/
def matchFieldPatternsPtr : List (Symbol × Pattern) → List Ptr → SymbolMap Ptr →
    EvalM Ptr Value Call (Option (SymbolMap Ptr))
  | [], _, bindings => return some bindings
  | _ :: _, [], _ => .fail (.panic "index out of bounds")
  | (_, pattern) :: fields, value :: values, bindings => do
      match ← matchPatternPtr pattern value with
      | some sub => matchFieldPatternsPtr fields values (bindings.extend sub)
      | none => return none

/-- The loop of `match_list_patterns`. -/
def matchListPatternsPtr : List Pattern → ListItems Ptr → Nat → SymbolMap Ptr →
    EvalM Ptr Value Call (Option (SymbolMap Ptr))
  | [], _, _, bindings => return some bindings
  | pattern :: patterns, values, index, bindings => do
      if isWildcard pattern then matchListPatternsPtr patterns values (index + 1) bindings
      else
        let value ← ask (.listItem values index)
        match ← matchPatternPtr pattern value with
        | some sub => matchListPatternsPtr patterns values (index + 1) (bindings.extend sub)
        | none => return none

end

/-- The loop over the arms of a match: the index of the first one that matches,
with its expression and the bindings. -/
def firstMatchingArm (value : Ptr) : Nat → List FrMatchArm →
    EvalM Ptr Value Call (Nat × TypedExpr × SymbolMap Ptr)
  | _, [] => raise .matchFailure
  | index, arm :: arms => do
      match ← matchPatternPtr arm.pattern value with
      | some bindings => return (index, arm.expr, bindings)
      | none => firstMatchingArm value (index + 1) arms

/-! ## Applications -/

/-- The loop of `eval_app_enter`: the head of an application and its arguments. -/
def appSpine : TypedExpr → List FrAppArg → TypedExpr × List FrAppArg
  | .mk _ (.app func arg), spine => appSpine func (⟨func.typ, arg⟩ :: spine)
  | head, spine => (head, spine)

/-- `eval_app_enter`. -/
def evalAppEnter (frameId : FrameId) (frame : FrApp Ptr) :
    FrameM Ptr Value Call (EvalControl Ptr) := do
  let (head, spine) := appSpine frame.expr []
  let argExprs := spine.map FrAppArg.expr
  let headChild ← insert (.forExpr (some frameId) head frame.env)
  let argChildren ← insertChildren frameId frame.env argExprs
  replace frameId (.app { frame with
    state := .evalChildren
    head := some head
    spine := spine
    headChild := some headChild
    argChildren := argChildren
    argValues := List.replicate argExprs.length none
    remaining := argExprs.length + 1
    nextArgIndex := 0
    func := none
    arg := none })
  return .schedule (headChild :: argChildren)

def appTexts : GatherTexts :=
  ⟨"application received result from unknown child",
    "application argument result slot index out of bounds",
    "application received duplicate result from argument child",
    "application received more results than expected", "application frame missing argument value"⟩

/-- The value of the head or of an argument. -/
def fillAppSlot (child : FrameId) (value : Ptr) (frame : FrApp Ptr) :
    EvalM Ptr Value Call (FrApp Ptr) :=
  if frame.headChild = some child then
    if frame.func.isSome then
      internal "application received duplicate result from head child"
    else pure { frame with func := some value }
  else do
    let argValues ← fillSlot appTexts frame.argChildren frame.argValues child (pure value)
    return { frame with argValues := argValues }

/-- `receive_app_child_value`. -/
def receiveAppChildValue (child : FrameId) (value : Ptr) (frame : FrApp Ptr) :
    EvalM Ptr Value Call (FrApp Ptr) := do
  let frame ← fillAppSlot child value frame
  let remaining ← countDown appTexts.tooMany frame.remaining
  return { frame with remaining := remaining }

variable (runtime : Runtime Ptr)

/-- The loop of `continue_app_after_apply`, over the arguments that are left. -/
def applyArgs (frameId : FrameId) :
    List FrAppArg → FrApp Ptr → FrameM Ptr Value Call (EvalControl Ptr)
  | [], frame => do
      let func ← liftM (require "application frame missing function" frame.func :
        EvalM Ptr Value Call _)
      return .return func
  | argInfo :: rest, frame => do
      let func ← liftM (require "application frame missing function" frame.func :
        EvalM Ptr Value Call _)
      let arg ← liftM (require appTexts.missing frame.argValues[frame.nextArgIndex]?.join :
        EvalM Ptr Value Call _)
      let frame := { frame with arg := some arg, state := .applyArg }
      replace frameId (.app frame)
      let applied ← liftM (evalApplyArg runtime func arg (some argInfo.funcType)
        (some argInfo.expr.typ) : EvalM Ptr Value Call _)
      match applied with
      | .value applied =>
          let frame := { frame with
            arg := none
            func := some applied
            nextArgIndex := frame.nextArgIndex + 1 }
          replace frameId (.app frame)
          applyArgs frameId rest frame
      | .push expr env => return .push expr env
      | .pushNative started =>
          return .pushFrame (.nativeCall ⟨some frameId, .enter, started.task⟩)
      | .awaitNative call => return .awaitNative call

/-- The result of the last application becomes the function. -/
def noteApplied (frameId : FrameId) (frame : FrApp Ptr) :
    Option Ptr → FrameM Ptr Value Call (FrApp Ptr)
  | some applied => do
      let frame := { frame with
        arg := none
        func := some applied
        nextArgIndex := frame.nextArgIndex + 1 }
      replace frameId (.app frame)
      return frame
  | none => return frame

/-- `continue_app_after_apply`. -/
def continueAppAfterApply (frameId : FrameId) (frame : FrApp Ptr) (applied : Option Ptr) :
    FrameM Ptr Value Call (EvalControl Ptr) := do
  let frame ← noteApplied frameId frame applied
  if frame.spine.length < frame.nextArgIndex then
    liftM (internal "application frame advanced past final argument" : EvalM Ptr Value Call _)
  else applyArgs runtime frameId (frame.spine.drop frame.nextArgIndex) frame

/-! ## Native calls -/

/-- The loop of `native_step_to_control` that spawns the children of a task. -/
def scheduleNativeChildren (frameId : FrameId) :
    List Nat → FrameM Ptr Value Call Unit
  | [] => return
  | index :: indices => do
      match ← getFrame frameId with
      | .nativeCall current =>
          let spec ← liftM (current.task.scheduledChildSpec runtime index : EvalM Ptr Value Call _)
          let child ← insert (.forExpr (some frameId) spec.expr spec.env)
          match ← getFrame frameId with
          | .nativeCall current =>
              let task ← liftM (current.task.pushScheduledChild child : EvalM Ptr Value Call _)
              replace frameId (.nativeCall { current with task := task })
              scheduleNativeChildren frameId indices
          | _ => liftM (frameKindError "native call" : EvalM Ptr Value Call _)
      | _ => liftM (frameKindError "native call" : EvalM Ptr Value Call _)

/-- `native_step_to_control`. -/
def nativeStepToControl (frameId : FrameId) (frame : FrNativeCall Ptr) :
    NativeStep Ptr → FrameM Ptr Value Call (EvalControl Ptr)
  | .wait => do
      replace frameId (.nativeCall frame)
      return .wait
  | .return value => return .return value
  | .push expr env => do
      replace frameId (.nativeCall { frame with state := .waiting })
      return .push expr env
  | .schedule childCount => do
      replace frameId (.nativeCall { frame with state := .waiting })
      scheduleNativeChildren runtime frameId (List.range childCount)
      match ← getFrame frameId with
      | .nativeCall current =>
          let children ← liftM (current.task.scheduledChildren : EvalM Ptr Value Call _)
          return .schedule children
      | _ => liftM (frameKindError "native call" : EvalM Ptr Value Call _)

/-- `eval_native_enter`. -/
def evalNativeEnter (frameId : FrameId) (frame : FrNativeCall Ptr) :
    FrameM Ptr Value Call (EvalControl Ptr) := do
  match frame.state with
  | .enter =>
      let (step, task) ← liftM (frame.task.enter runtime : EvalM Ptr Value Call _)
      nativeStepToControl runtime frameId { frame with task := task } step
  | .waiting => liftM (unexpectedChildResult "native call" : EvalM Ptr Value Call _)

/-- `eval_native_receive`. -/
def evalNativeReceive (frameId : FrameId) (frame : FrNativeCall Ptr) (child : FrameId)
    (value : Ptr) : FrameM Ptr Value Call (EvalControl Ptr) := do
  match frame.state with
  | .waiting =>
      let (step, task) ← liftM (frame.task.receive runtime child value : EvalM Ptr Value Call _)
      nativeStepToControl runtime frameId { frame with task := task } step
  | .enter => liftM (unexpectedChildResult "native call" : EvalM Ptr Value Call _)

/-! ## Entering a frame -/

/-- What a variable or a class method stands for. -/
def resolveVarFrame (frame : FrVar Ptr) : EvalM Ptr Value Call (EvalApplyResult Ptr) :=
  match frame.expr.kind with
  | .classMethod name => evalResolveClassMethod runtime name frame.expr.typ
  | .var name _ => evalResolveVar runtime frame.env name frame.expr.typ
  | _ => frameKindError "var"

/-- The branch of `eval_enter` for variables and class methods. -/
def evalVarEnter (frameId : FrameId) (frame : FrVar Ptr) :
    FrameM Ptr Value Call (EvalControl Ptr) := do
  let resolved ← liftM (resolveVarFrame runtime frame : EvalM Ptr Value Call _)
  match resolved with
  | .value value => return .return value
  | .push expr env =>
      replace frameId (.var { frame with state := .enter })
      return .push expr env
  | .pushNative started => return .pushFrame (.nativeCall ⟨some frameId, .enter, started.task⟩)
  | .awaitNative call =>
      replace frameId (.var { frame with state := .enter })
      return .awaitNative call

/-- The branch of `eval_enter` for `let rec`. -/
def evalLetRecEnter (frameId : FrameId) (frame : FrLetRec Ptr) :
    FrameM Ptr Value Call (EvalControl Ptr) := do
  match frame.expr.kind with
  | .letRec bindings body =>
      let slots ← liftM (bindings.mapM fun binding => ask (.allocUninitialized binding.1) :
        EvalM Ptr Value Call (List Ptr))
      let recursiveEnv := (bindings.zip slots).foldl
        (fun env entry => env.extend entry.1.1 entry.2) frame.env
      let frame := { frame with recursiveEnv := some recursiveEnv, slots := slots }
      match bindings with
      | [] =>
          replace frameId (.letRec { frame with state := .evalBody })
          return .push body recursiveEnv
      | (_, defn) :: _ =>
          replace frameId (.letRec { frame with state := .evalBinding })
          return .push defn recursiveEnv
  | _ => liftM (frameKindError "let rec" : EvalM Ptr Value Call _)

/-- `eval_enter`. -/
def evalEnter (frameId : FrameId) : Frame Ptr → FrameM Ptr Value Call (EvalControl Ptr)
  | .literal frame => liftM (evalLiteralEnter frame : EvalM Ptr Value Call _)
  | .hole _ => liftM (raise .unsupportedExpr : EvalM Ptr Value Call _)
  | .sequence frame => evalSequenceEnter frameId frame
  | .recordUpdate frame =>
      match frame.expr.kind with
      | .recordUpdate base _ => do
          replace frameId (.recordUpdate { frame with state := .evalBase })
          return .push base frame.env
      | _ => liftM (frameKindError "record update" : EvalM Ptr Value Call _)
  | .var frame => evalVarEnter runtime frameId frame
  | .app frame => evalAppEnter frameId frame
  | .project frame =>
      match frame.expr.kind with
      | .project expr _ => do
          replace frameId (.project { frame with state := .enter })
          return .push expr frame.env
      | _ => liftM (frameKindError "project" : EvalM Ptr Value Call _)
  | .lam frame =>
      match frame.expr.kind with
      | .lam param body => do
          let (paramTy, _) ← liftM (splitFunOr frame.expr.typ : EvalM Ptr Value Call _)
          let root ← liftM (ask (.allocClosure ⟨frame.env, param, paramTy, frame.expr.typ, body⟩) :
            EvalM Ptr Value Call Ptr)
          return .return root
      | _ => liftM (frameKindError "lambda" : EvalM Ptr Value Call _)
  | .letIn frame =>
      match frame.expr.kind with
      | .letIn _ defn _ => do
          replace frameId (.letIn { frame with state := .evalDef })
          return .push defn frame.env
      | _ => liftM (frameKindError "let" : EvalM Ptr Value Call _)
  | .letRec frame => evalLetRecEnter frameId frame
  | .ite frame =>
      match frame.expr.kind with
      | .ite cond _ _ => do
          replace frameId (.ite { frame with state := .evalCondition })
          return .push cond frame.env
      | _ => liftM (frameKindError "if" : EvalM Ptr Value Call _)
  | .matchWith frame =>
      match frame.expr.kind with
      | .matchWith scrutinee _ => do
          replace frameId (.matchWith { frame with state := .evalScrutinee })
          return .push scrutinee frame.env
      | _ => liftM (frameKindError "match" : EvalM Ptr Value Call _)
  | .nativeCall frame => evalNativeEnter runtime frameId frame
  | .nativeHost _ => liftM (unexpectedChildResult "host native" : EvalM Ptr Value Call _)

/-! ## Receiving a result -/

/-- The branch of `eval_receive` for sequences. -/
def evalSequenceReceive (frameId : FrameId) (frame : FrSequence Ptr) (child : FrameId)
    (value : Ptr) : FrameM Ptr Value Call (EvalControl Ptr) := do
  let kind ← liftM (sequenceKind frame.expr : EvalM Ptr Value Call _)
  match frame.state with
  | .enter => liftM (unexpectedChildResult kind : EvalM Ptr Value Call _)
  | .evalItem =>
      let (values, remaining) ← liftM (receiveSequenceValue kind frame.children frame.values
        frame.remaining child value : EvalM Ptr Value Call _)
      if remaining = 0 then
        let values ← liftM (completedValues (sequenceTexts kind) values : EvalM Ptr Value Call _)
        let root ← liftM (allocSequenceValues frame.expr values : EvalM Ptr Value Call _)
        return .return root
      else
        replace frameId (.sequence { frame with values := values, remaining := remaining })
        return .wait

/-- The branch of `eval_receive` for record updates. -/
def evalRecordUpdateReceive (frameId : FrameId) (frame : FrRecordUpdate Ptr) (child : FrameId)
    (value : Ptr) : FrameM Ptr Value Call (EvalControl Ptr) := do
  match frame.state with
  | .evalBase =>
      let frame := { frame with baseValue := some value }
      if frame.updateKeys.length = 0 then
        let root ← liftM (applyRecordUpdateValues value [] : EvalM Ptr Value Call _)
        return .return root
      else evalRecordUpdateUpdatesEnter frameId frame
  | .evalUpdate =>
      let (values, remaining) ← liftM (receiveSequenceValue "record update" frame.updateChildren
        frame.updateValues frame.remainingUpdates child value : EvalM Ptr Value Call _)
      if remaining = 0 then
        let base ← liftM (require "record update frame missing base" frame.baseValue :
          EvalM Ptr Value Call _)
        let completed ← liftM (completedValues (sequenceTexts "record update") values :
          EvalM Ptr Value Call _)
        let updates ← liftM (mapKeysToValues "record update" frame.updateKeys completed :
          EvalM Ptr Value Call _)
        let root ← liftM (applyRecordUpdateValues base updates : EvalM Ptr Value Call _)
        return .return root
      else
        replace frameId (.recordUpdate { frame with
          updateValues := values
          remainingUpdates := remaining })
        return .wait
  | .enter => liftM (unexpectedChildResult "record update" : EvalM Ptr Value Call _)

/-- The branch of `eval_receive` for applications. -/
def evalAppReceive (frameId : FrameId) (frame : FrApp Ptr) (child : FrameId) (value : Ptr) :
    FrameM Ptr Value Call (EvalControl Ptr) := do
  match frame.state with
  | .evalChildren =>
      let frame ← liftM (receiveAppChildValue child value frame : EvalM Ptr Value Call _)
      if frame.remaining = 0 then
        continueAppAfterApply runtime frameId { frame with nextArgIndex := 0 } none
      else
        replace frameId (.app frame)
        return .wait
  | .applyArg => continueAppAfterApply runtime frameId frame (some value)
  | .enter => liftM (unexpectedChildResult "application" : EvalM Ptr Value Call _)

/-- The branch of `eval_receive` for `let rec`. -/
def evalLetRecReceive (frameId : FrameId) (frame : FrLetRec Ptr) (value : Ptr) :
    FrameM Ptr Value Call (EvalControl Ptr) := do
  match frame.state with
  | .evalBinding =>
      match frame.expr.kind with
      | .letRec bindings body =>
          let slot ← liftM (require "let rec frame slot index out of bounds"
            frame.slots[frame.nextBindingIndex]? : EvalM Ptr Value Call _)
          liftM (ask (.overwriteRoot slot value) : EvalM Ptr Value Call Unit)
          let recursiveEnv ← liftM (require "let rec frame missing recursive environment"
            frame.recursiveEnv : EvalM Ptr Value Call _)
          let frame := { frame with
            bindingValue := some value
            nextBindingIndex := frame.nextBindingIndex + 1 }
          if frame.nextBindingIndex = bindings.length then
            replace frameId (.letRec { frame with state := .evalBody })
            return .push body recursiveEnv
          else
            match bindings[frame.nextBindingIndex]? with
            | some (_, defn) =>
                replace frameId (.letRec frame)
                return .push defn recursiveEnv
            | none => liftM (.fail (.panic "index out of bounds") : EvalM Ptr Value Call _)
      | _ => liftM (frameKindError "let rec" : EvalM Ptr Value Call _)
  | .evalBody => return .return value
  | .enter => liftM (unexpectedChildResult "let rec" : EvalM Ptr Value Call _)

/-- The condition of an `if`. -/
def evalCondition (value : Ptr) : EvalM Ptr Value Call Bool := do
  match ← Program.request (.asBool value) with
  | .ok holds => return holds
  | .error (.nativeType _ got) => raise (.expectedBool got)
  | .error error => raise error

/-- The branch of `eval_receive` for `if`. -/
def evalIteReceive (frameId : FrameId) (frame : FrIte Ptr) (value : Ptr) :
    FrameM Ptr Value Call (EvalControl Ptr) := do
  match frame.state with
  | .evalCondition =>
      match frame.expr.kind with
      | .ite _ thenExpr elseExpr =>
          let holds ← liftM (evalCondition value : EvalM Ptr Value Call _)
          let selected := if holds then thenExpr else elseExpr
          replace frameId (.ite { frame with
            condValue := some value
            selected := some selected
            state := .evalSelected })
          return .push selected frame.env
      | _ => liftM (frameKindError "if" : EvalM Ptr Value Call _)
  | .evalSelected => return .return value
  | .enter => liftM (unexpectedChildResult "if" : EvalM Ptr Value Call _)

/-- The branch of `eval_receive` for matches. -/
def evalMatchReceive (frameId : FrameId) (frame : FrMatch Ptr) (value : Ptr) :
    FrameM Ptr Value Call (EvalControl Ptr) := do
  match frame.state with
  | .evalScrutinee =>
      let (index, expr, bindings) ← liftM (firstMatchingArm value frame.nextArmIndex
        (frame.arms.drop frame.nextArmIndex) : EvalM Ptr Value Call _)
      let env := frame.env.extendMany bindings
      replace frameId (.matchWith { frame with
        scrutineeValue := some value
        nextArmIndex := index
        matchedEnv := some env
        state := .evalArm })
      return .push expr env
  | .evalArm => return .return value
  | .enter => liftM (unexpectedChildResult "match" : EvalM Ptr Value Call _)

/-- `eval_receive`. -/
def evalReceive (frameId : FrameId) (child : FrameId) (value : Ptr) :
    Frame Ptr → FrameM Ptr Value Call (EvalControl Ptr)
  | .sequence frame => evalSequenceReceive frameId frame child value
  | .recordUpdate frame => evalRecordUpdateReceive frameId frame child value
  | .var _ => return .return value
  | .app frame => evalAppReceive runtime frameId frame child value
  | .project frame =>
      match frame.expr.kind with
      | .project _ field => do
          let root ← liftM (projectPointer field value : EvalM Ptr Value Call _)
          return .return root
      | _ => liftM (frameKindError "project" : EvalM Ptr Value Call _)
  | .letIn frame =>
      match frame.state with
      | .evalDef =>
          match frame.expr.kind with
          | .letIn name _ body => do
              replace frameId (.letIn { frame with defValue := some value, state := .evalBody })
              return .push body (frame.env.extend name value)
          | _ => liftM (frameKindError "let" : EvalM Ptr Value Call _)
      | .evalBody => return .return value
      | .enter => liftM (unexpectedChildResult "let" : EvalM Ptr Value Call _)
  | .letRec frame => evalLetRecReceive frameId frame value
  | .ite frame => evalIteReceive frameId frame value
  | .matchWith frame => evalMatchReceive frameId frame value
  | .nativeCall frame => evalNativeReceive runtime frameId frame child value
  | .nativeHost _ => return .return value
  | .literal _ | .hole _ | .lam _ => liftM (unexpectedChildResult "value" : EvalM Ptr Value Call _)

end RexLang
