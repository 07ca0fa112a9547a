import RexLang.EvaluatorFrames
import RexLang.RequestPrograms

/-!
# What the evaluator asks of the heap and the runtime

The evaluator is a program that makes requests to the root scope of the heap,
to scheduler natives and to the preparation of host calls.  The registries of
the runtime are only read.  Native functions, overloaded functions and class
methods are resolved and applied with these.
-/

namespace RexLang

/-- The variants of `EngineError` besides the internal errors of the evaluator.
`internal` are those of the registries, `other` those of the heap. -/
inductive RaisedError where
  | unsupportedExpr
  | notCallable (typ : String)
  | expectedBool (got : String)
  | nativeType (expected got : String)
  | unknownField (field : Symbol) (value : String)
  | nativeArity (name : Symbol) (expected got : Nat)
  | unknownVar (name : Symbol)
  | ambiguousOverload (name : Symbol)
  | ambiguousImpl (name : Symbol) (typ : String)
  | typeError (error : TypeError)
  | matchFailure
  | emptySequence
  | internal (message : String)
  | other (text : String)

/-- Why the evaluator stops: it returns an error, or an assertion fails. -/
inductive Fault where
  | error (error : EngineError RaisedError)
  | panic (message : String)

abbrev NativeId := Nat

structure NativeCallRequest (Ptr : Type) where
  nativeId : NativeId
  scheduling : NativeCallScheduling
  typ : Typ
  args : List Ptr

inductive SchedulerNativeResult (Ptr : Type) where
  | ready (value : Ptr)
  | task (task : StartedTask Ptr)

abbrev RootedClosure (Ptr : Type) := Closure TypedExpr Ptr

inductive RootedCallable (Ptr : Type) where
  | closure (closure : RootedClosure Ptr)
  | native (native : NativeFn Ptr)
  | overloaded (overloaded : OverloadedFn Ptr)

/-- The methods of `RootScope`, the scheduler natives and `prepare`, over the
types of root tokens, of host values and of prepared host calls. -/
inductive ScopeRequest (Ptr Value Call : Type) : Type → Type where
  | allocBool (value : Bool) : ScopeRequest Ptr Value Call Ptr
  /-- `alloc_root_u8` to `alloc_root_i64`. -/
  | allocInteger (typ : BuiltinTypeId) (value : Int) : ScopeRequest Ptr Value Call Ptr
  /-- `alloc_root_f32(value as f32)`. -/
  | allocF32 (value : F64) : ScopeRequest Ptr Value Call Ptr
  | allocF64 (value : F64) : ScopeRequest Ptr Value Call Ptr
  /-- `alloc_root_f32(len as f32)`. -/
  | allocLenF32 (len : Nat) : ScopeRequest Ptr Value Call Ptr
  | allocLenF64 (len : Nat) : ScopeRequest Ptr Value Call Ptr
  | allocChar (value : Char) : ScopeRequest Ptr Value Call Ptr
  | allocString (value : String) : ScopeRequest Ptr Value Call Ptr
  | allocUuid (value : BitVec 128) : ScopeRequest Ptr Value Call Ptr
  | allocDateTime (nanos : Int) : ScopeRequest Ptr Value Call Ptr
  | allocUninitialized (name : Symbol) : ScopeRequest Ptr Value Call Ptr
  | allocTuple (values : List Ptr) : ScopeRequest Ptr Value Call Ptr
  | allocList (values : List Ptr) : ScopeRequest Ptr Value Call Ptr
  | allocDict (values : SymbolMap Ptr) : ScopeRequest Ptr Value Call Ptr
  | allocAdt (tag : Symbol) (args : List Ptr) : ScopeRequest Ptr Value Call Ptr
  | allocClosure (closure : RootedClosure Ptr) : ScopeRequest Ptr Value Call Ptr
  | allocNative (native : NativeFn Ptr) : ScopeRequest Ptr Value Call Ptr
  | allocOverloaded (overloaded : OverloadedFn Ptr) : ScopeRequest Ptr Value Call Ptr
  | allocValue (value : Value) (typ : Typ) : ScopeRequest Ptr Value Call Ptr
  | overwriteRoot (slot value : Ptr) : ScopeRequest Ptr Value Call Unit
  | asBool (root : Ptr) : ScopeRequest Ptr Value Call Bool
  | asString (root : Ptr) : ScopeRequest Ptr Value Call String
  | asTuple (root : Ptr) : ScopeRequest Ptr Value Call (List Ptr)
  | asList (root : Ptr) : ScopeRequest Ptr Value Call (List Ptr)
  | asDict (root : Ptr) : ScopeRequest Ptr Value Call (SymbolMap Ptr)
  | asAdt (root : Ptr) : ScopeRequest Ptr Value Call (Symbol × List Ptr)
  | asCallable (root : Ptr) : ScopeRequest Ptr Value Call (Option (RootedCallable Ptr))
  | asNative (root : Ptr) : ScopeRequest Ptr Value Call (Option (NativeFn Ptr))
  | typeName (root : Ptr) : ScopeRequest Ptr Value Call String
  | inferType (root : Ptr) : ScopeRequest Ptr Value Call Typ
  | listLen (root : Ptr) : ScopeRequest Ptr Value Call Nat
  | listItems (root : Ptr) : ScopeRequest Ptr Value Call (ListItems Ptr)
  | listHeadTail (root : Ptr) : ScopeRequest Ptr Value Call (Option (Ptr × Ptr))
  /-- `ListItems::get`. -/
  | listItem (items : ListItems Ptr) (index : Nat) : ScopeRequest Ptr Value Call Ptr
  | callScheduler (id : NativeId) (typ : Typ) (args : List Ptr) :
      ScopeRequest Ptr Value Call (SchedulerNativeResult Ptr)
  | prepare (call : NativeCallRequest Ptr) : ScopeRequest Ptr Value Call Call
  | collectionNeeded : ScopeRequest Ptr Value Call Bool
  /-- `collect_if_needed`, with the tokens that stay rooted. -/
  | collectIfNeeded (live : List Ptr) : ScopeRequest Ptr Value Call Unit

/-- A part of the evaluator that holds a root scope. -/
abbrev EvalM (Ptr Value Call : Type) :=
  Program (ScopeRequest Ptr Value Call) RaisedError Fault

variable {Ptr Value Call : Type}

/-! ## Registries -/

inductive NativeCallable (Ptr : Type) where
  | host (scheduling : NativeCallScheduling)
  | constant (value : Ptr)
  | scheduler

structure ClassMethodInfo where
  className : Symbol
  scheme : Scheme

/-- What the evaluator reads of `RuntimeCore`. -/
structure Runtime (Ptr : Type) where
  /-- The unifier of the type system. -/
  unify : Typ → Typ → Except TypeError Subst
  classMethods : Symbol → Option ClassMethodInfo
  /-- `typeclasses.resolve`. -/
  resolveTypeclass : Symbol → Symbol → Typ →
    Except RaisedError (ScopedEnvironment Ptr × TypedExpr × Subst)
  /-- `natives.resolve`; nothing when the resolution is ambiguous. -/
  resolveNatives : Symbol → Typ → Except RaisedError (Option (NativeId × Nat))
  /-- `natives.resolve_unique`. -/
  resolveUnique : Symbol → Typ → Except RaisedError (NativeId × Nat)
  /-- `natives.callable_by_id`. -/
  callableById : NativeId → Option (NativeCallable Ptr)
  /-- `typeclasses.visit_values`. -/
  typeclassValues : List Ptr
  /-- `natives.visit_values`. -/
  nativeValues : List Ptr

namespace EvalM

def raise {Result : Type} (error : RaisedError) : EvalM Ptr Value Call Result :=
  .fail (.error (.raised error))

/-- `EngineError::Internal`. -/
def internal {Result : Type} (message : String) : EvalM Ptr Value Call Result :=
  .fail (.error (.internal message))

/-- `frame_kind_error`. -/
def frameKindError {Result : Type} (expected : String) : EvalM Ptr Value Call Result :=
  internal ("frame does not match typed expression kind " ++ "\x60" ++ expected ++ "\x60")

/-- `unexpected_child_result`. -/
def unexpectedChildResult {Result : Type} (frame : String) : EvalM Ptr Value Call Result :=
  internal (frame ++ " frame received an unexpected child result")

def ofExcept {Result : Type} : Except RaisedError Result → EvalM Ptr Value Call Result
  | .ok result => pure result
  | .error error => raise error

/-- A request whose error is returned. -/
def ask {Answer : Type} (request : ScopeRequest Ptr Value Call Answer) :
    EvalM Ptr Value Call Answer := do
  ofExcept (← Program.request request)

/-- `ok_or_else` with an internal error. -/
def require {Result : Type} (message : String) :
    Option Result → EvalM Ptr Value Call Result
  | some result => pure result
  | none => internal message

end EvalM

open EvalM

/-! ## Types -/

/-- `split_fun`. -/
def splitFun : Typ → Option (Typ × Typ)
  | .func arg ret => some (arg, ret)
  | _ => none

/-- `is_function_type`. -/
def isFunctionType : Typ → Bool
  | .func _ _ => true
  | _ => false

/-- `type_head_is_var`. -/
def typeHeadIsVar : Typ → Bool
  | .app head _ => typeHeadIsVar head
  | .var _ => true
  | _ => false

/-- `unify` with the error that the evaluator makes of a mismatch. -/
def Runtime.unifyOr (runtime : Runtime Ptr) (expected got : Typ) : EvalM Ptr Value Call Subst :=
  match runtime.unify expected got with
  | .ok subst => pure subst
  | .error _ => raise (.nativeType expected.display got.display)

/-- `split_fun` with the error of a type that is no function type. -/
def splitFunOr (typ : Typ) : EvalM Ptr Value Call (Typ × Typ) :=
  match splitFun typ with
  | some split => pure split
  | none => raise (.notCallable typ.display)

/-- `resolve_arg_type`. -/
def resolveArgType (argType : Option Typ) (arg : Ptr) : EvalM Ptr Value Call Typ :=
  match argType with
  | some typ =>
      if typ.ftv = ∅ then pure typ
      else do
        match ← Program.request (.inferType arg) with
        | .ok valueType => return if valueType.ftv = ∅ then valueType else typ
        | .error _ => return typ
  | none => ask (.inferType arg)

/-- `application_result_type`. -/
def applicationResultType (runtime : Runtime Ptr) (funcType argType : Typ) :
    EvalM Ptr Value Call Typ := do
  let (expectedArg, result) ← splitFunOr funcType
  let subst ← runtime.unifyOr expectedArg argType
  return result.apply subst

/-- The type of a function whose arguments are all applied. -/
def fullType (appliedTypes : List Typ) (rest : Typ) : Typ :=
  appliedTypes.foldr .func rest

/-! ## Synthetic applications -/

/-- The loop of `synthetic_application_expr` and of
`synthetic_rooted_application_expr_from_head`. -/
def syntheticApplication (runtime : Runtime Ptr) :
    Nat → ScopedEnvironment Ptr → TypedExpr → Typ → List (Ptr × Typ) →
      EvalM Ptr Value Call (ScopedEnvironment Ptr × TypedExpr)
  | _, env, expr, _, [] => pure (env, expr)
  | index, env, expr, curType, (arg, argType) :: args => do
      let argName := "__rex_apply_arg_" ++ toString index
      let env := env.extend argName arg
      let argExpr := TypedExpr.mk argType (.var argName [])
      let resultType ← applicationResultType runtime curType argType
      syntheticApplication runtime (index + 1) env (.mk resultType (.app expr argExpr)) resultType
        args

/-- `synthetic_rooted_application_expr_from_head`. -/
def syntheticRootedApplicationExprFromHead (runtime : Runtime Ptr) (env : ScopedEnvironment Ptr)
    (head : TypedExpr) (args : List (Ptr × Typ)) :
    EvalM Ptr Value Call (ScopedEnvironment Ptr × TypedExpr) :=
  syntheticApplication runtime 0 env head head.typ args

/-- `synthetic_application_expr`. -/
def syntheticApplicationExpr (runtime : Runtime Ptr) (func : Ptr) (funcType : Typ)
    (args : List (Ptr × Typ)) : EvalM Ptr Value Call (ScopedEnvironment Ptr × TypedExpr) :=
  let funcName := "__rex_apply_func"
  syntheticApplication runtime 0 (.extend funcName func .new) (.mk funcType (.var funcName []))
    funcType args

/-! ## Native and overloaded functions -/

inductive NativeApplyResult (Ptr : Type) where
  | value (value : Ptr)
  | task (task : StartedTask Ptr)
  | pending (call : NativeCallRequest Ptr)

def SchedulerNativeResult.applied : SchedulerNativeResult Ptr → NativeApplyResult Ptr
  | .ready result => .value result
  | .task started => .task started

/-- `native_callable`. -/
def Runtime.nativeCallable (runtime : Runtime Ptr) (id : NativeId) :
    EvalM Ptr Value Call (NativeCallable Ptr) :=
  match runtime.callableById id with
  | some callable => pure callable
  | none => raise (.internal ("unknown native id: " ++ toString id))

/-- `call`. -/
def NativeCallable.call (nativeId : NativeId) (typ : Typ) (args : List Ptr) :
    NativeCallable Ptr → EvalM Ptr Value Call (NativeCallRequest Ptr)
  | .host scheduling => pure ⟨nativeId, scheduling, typ, args⟩
  | .constant _ => raise (.internal "constant called through host native ABI")
  | .scheduler => raise (.internal "scheduler native called through host native ABI")

namespace NativeFn

/-- `call_zero`. -/
def callZero (runtime : Runtime Ptr) (native : NativeFn Ptr) :
    EvalM Ptr Value Call (NativeApplyResult Ptr) := do
  if native.arity ≠ 0 then
    raise (.nativeArity native.name native.arity 0)
  else
    match ← runtime.nativeCallable native.nativeId with
    | .constant value => return .value value
    | .scheduler => return (← ask (.callScheduler native.nativeId native.typ [])).applied
    | callable => return .pending (← callable.call native.nativeId native.typ [])

/-- `apply`. -/
def apply (runtime : Runtime Ptr) (arg : Ptr) (argType : Option Typ) (native : NativeFn Ptr) :
    EvalM Ptr Value Call (NativeApplyResult Ptr) := do
  if native.arity = 0 then
    raise (.nativeArity native.name 0 1)
  else
    let (argTy, restTy) ← splitFunOr native.typ
    let actualTy ← resolveArgType argType arg
    let subst ← runtime.unifyOr argTy actualTy
    let native := { native with
      typ := restTy.apply subst
      applied := native.applied ++ [arg]
      appliedTypes := native.appliedTypes ++ [actualTy] }
    if isFunctionType native.typ then
      return .value (← ask (.allocNative native))
    else
      let fullTy := fullType native.appliedTypes native.typ
      match ← runtime.nativeCallable native.nativeId with
      | .constant _ => raise (.nativeArity native.name 0 native.applied.length)
      | .scheduler =>
          return (← ask (.callScheduler native.nativeId fullTy native.applied)).applied
      | callable => return .pending (← callable.call native.nativeId fullTy native.applied)

end NativeFn

inductive ClassMethodPlan (Ptr : Type) where
  | evaluate (env : ScopedEnvironment Ptr) (expr : TypedExpr)
  | deferred (value : Ptr)

namespace Runtime

variable (runtime : Runtime Ptr)

/-- `resolve_typeclass_method_impl`. -/
def resolveTypeclassMethodImpl (name : Symbol) (callType : Typ) :
    Except RaisedError (ScopedEnvironment Ptr × TypedExpr × Subst) := do
  match runtime.classMethods name with
  | none => .error (.unknownVar name)
  | some info =>
      match runtime.unify info.scheme.typ callType with
      | .error error => .error (.typeError error)
      | .ok method =>
          match info.scheme.preds.find? (·.className = info.className) with
          | none =>
              .error (.typeError (.unsupportedExpr "method scheme missing class predicate"))
          | some classPred =>
              let paramType := classPred.typ.apply method
              if typeHeadIsVar paramType then .error (.ambiguousOverload name)
              else runtime.resolveTypeclass info.className name paramType

/-- `resolve_class_method_plan`. -/
def resolveClassMethodPlan (name : Symbol) (typ : Typ) :
    EvalM Ptr Value Call (ClassMethodPlan Ptr) :=
  match runtime.resolveTypeclassMethodImpl name typ with
  | .ok (env, typed, subst) => return .evaluate env (typed.apply subst)
  | .error (.ambiguousOverload other) =>
      if isFunctionType typ then do
        return .deferred (← ask (.allocOverloaded ⟨name, typ, [], []⟩))
      else raise (.ambiguousOverload other)
  | .error error => raise error

/-- `resolve_native`. -/
def resolveNative (name : Symbol) (typ : Typ) : EvalM Ptr Value Call Ptr := do
  match ← ofExcept (runtime.resolveNatives name typ) with
  | some (nativeId, arity) => ask (.allocNative ⟨nativeId, name, arity, typ, [], []⟩)
  | none =>
      if typ.ftv = ∅ then raise (.ambiguousImpl name typ.display)
      else if isFunctionType typ then ask (.allocOverloaded ⟨name, typ, [], []⟩)
      else raise (.ambiguousOverload name)

end Runtime

/-- What an application, or the resolution of a variable, leads to. -/
inductive EvalApplyResult (Ptr : Type) where
  | value (value : Ptr)
  | push (expr : TypedExpr) (env : ScopedEnvironment Ptr)
  | pushNative (task : StartedTask Ptr)
  | awaitNative (call : NativeCallRequest Ptr)

def NativeApplyResult.toEval : NativeApplyResult Ptr → EvalApplyResult Ptr
  | .value result => .value result
  | .task started => .pushNative started
  | .pending request => .awaitNative request

variable (runtime : Runtime Ptr)

/-- The type of an overloaded function, at the type that is expected of it. -/
def overloadedTyp (typ : Typ) : Option Typ → EvalM Ptr Value Call Typ
  | some expected => return typ.apply (← runtime.unifyOr typ expected)
  | none => pure typ

/-- The substitution of a closure, at the type that is expected of it. -/
def closureSubst (typ : Typ) : Option Typ → EvalM Ptr Value Call Subst
  | some expected => return composeSubst (← runtime.unifyOr typ expected) []
  | none => pure []

/-- `eval_apply_overloaded_arg`. -/
def evalApplyOverloadedArg (overloaded : OverloadedFn Ptr) (arg : Ptr)
    (funcType argType : Option Typ) : EvalM Ptr Value Call (EvalApplyResult Ptr) := do
  let typ ← overloadedTyp runtime overloaded.typ funcType
  let (argTy, restTy) ← splitFunOr typ
  let actualTy ← resolveArgType argType arg
  let subst ← runtime.unifyOr argTy actualTy
  let restTy := restTy.apply subst
  let applied := overloaded.applied ++ [arg]
  let appliedTypes := overloaded.appliedTypes ++ [actualTy]
  if isFunctionType restTy then
    return .value (← ask (.allocOverloaded ⟨overloaded.name, restTy, applied, appliedTypes⟩))
  else
    let fullTy := fullType appliedTypes restTy
    if (runtime.classMethods overloaded.name).isSome then
      match ← runtime.resolveClassMethodPlan overloaded.name fullTy with
      | .evaluate env method =>
          let (env, expr) ← syntheticRootedApplicationExprFromHead runtime env method
            (applied.zip appliedTypes)
          return .push expr env
      | .deferred value => return .value value
    else
      let (nativeId, _) ← ofExcept (runtime.resolveUnique overloaded.name fullTy)
      let callable ← runtime.nativeCallable nativeId
      return .awaitNative (← callable.call nativeId fullTy applied)

/-- `eval_apply_arg`. -/
def evalApplyArg (func arg : Ptr) (funcType argType : Option Typ) :
    EvalM Ptr Value Call (EvalApplyResult Ptr) := do
  match ← ask (.asCallable func) with
  | some (.closure closure) =>
      let subst ← closureSubst runtime closure.typ funcType
      let actualTy ← resolveArgType argType arg
      let argument ← runtime.unifyOr (closure.paramTy.apply subst) actualTy
      return .push (closure.body.apply (composeSubst argument subst))
        (closure.env.extend closure.param arg)
  | some (.native native) => return (← native.apply runtime arg argType).toEval
  | some (.overloaded overloaded) => evalApplyOverloadedArg runtime overloaded arg funcType argType
  | none => raise (.notCallable (← ask (.typeName func)))

/-- A native of arity zero that was not applied is called where it is read. -/
def evalNativeValue (root : Ptr) : EvalM Ptr Value Call (EvalApplyResult Ptr) := do
  match ← ask (.asNative root) with
  | some native =>
      if native.arity = 0 ∧ native.applied = [] then
        return (← native.callZero runtime).toEval
      else return .value root
  | none => return .value root

/-- `eval_resolve_class_method`. -/
def evalResolveClassMethod (name : Symbol) (typ : Typ) :
    EvalM Ptr Value Call (EvalApplyResult Ptr) := do
  match ← runtime.resolveClassMethodPlan name typ with
  | .evaluate env expr => return .push expr env
  | .deferred value => return .value value

/-- `eval_resolve_var`. -/
def evalResolveVar (env : ScopedEnvironment Ptr) (name : Symbol) (typ : Typ) :
    EvalM Ptr Value Call (EvalApplyResult Ptr) := do
  match env.get name with
  | some ptr => evalNativeValue runtime ptr
  | none =>
      if (runtime.classMethods name).isSome then evalResolveClassMethod runtime name typ
      else evalNativeValue runtime (← runtime.resolveNative name typ)

end RexLang
