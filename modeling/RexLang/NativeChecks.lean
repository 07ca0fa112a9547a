import Mathlib.Algebra.Order.Ring.Nat
import RexLang.BoundNames
import RexLang.HeapCells
import RexLang.OverloadResolution
import RexLang.TypedExpr

/-!
# The check of global names

`check_natives` walks a typed expression with one stack of work items, among
them items that open and close scopes, and one list of bound names.  It visits
every subexpression once, in the order of a recursive reading, with the names of
its lexical scope.
-/

namespace RexLang

/-! ## The walk -/

inductive ScopeWalkStep where
  | expr (expr : TypedExpr)
  | push (name : Symbol)
  | pushMany (names : List Symbol)
  | pop (count : Nat)

namespace ScopeWalkStep

/-- The steps that `check_natives` pushes at a `match` arm, the last one on top. -/
def ofArm (arm : Pattern × TypedExpr) : List ScopeWalkStep :=
  let bindings := collectPatternBindings arm.1
  let count := bindings.length
  if count ≠ 0 then [pop count, expr arm.2, pushMany bindings] else [expr arm.2]

/-- The steps that `check_natives` pushes at an expression, the last one on top. -/
def ofKind : TypedExprKind → List ScopeWalkStep
  | .tuple elems | .list elems => elems.reverse.map expr
  | .dict kvs => kvs.reverse.map fun entry => expr entry.2
  | .recordUpdate base updates => (updates.reverse.map fun entry => expr entry.2) ++ [expr base]
  | .app func arg => [expr arg, expr func]
  | .project inner _ => [expr inner]
  | .lam param body => [pop 1, expr body, push param]
  | .letIn name defn body => [pop 1, expr body, push name, expr defn]
  | .letRec bindings body =>
      if !bindings.isEmpty then
        [pop bindings.length, expr body] ++ (bindings.reverse.map fun binding => expr binding.2) ++
          [pushMany (bindings.map (·.1))]
      else [expr body]
  | .ite cond thenExpr elseExpr => [expr elseExpr, expr thenExpr, expr cond]
  | .matchWith scrutinee arms => arms.reverse.flatMap ofArm ++ [expr scrutinee]
  | _ => []

/-- A bound on the number of rounds that a step can still take. -/
noncomputable def weight : ScopeWalkStep → Nat
  | expr inner => 3 * sizeOf inner
  | _ => 1

noncomputable def totalWeight (steps : List ScopeWalkStep) : Nat :=
  (steps.map weight).sum

@[simp]
theorem totalWeight_nil : totalWeight [] = 0 := rfl

@[simp]
theorem totalWeight_cons (step : ScopeWalkStep) (steps : List ScopeWalkStep) :
    totalWeight (step :: steps) = step.weight + totalWeight steps := by
  simp [totalWeight]

@[simp]
theorem totalWeight_append (first second : List ScopeWalkStep) :
    totalWeight (first ++ second) = totalWeight first + totalWeight second := by
  simp [totalWeight]

theorem totalWeight_exprs_le (elems : List TypedExpr) :
    totalWeight (elems.map expr) + 3 ≤ 3 * sizeOf elems := by
  induction elems with
  | nil => simp
  | cons elem elems hypothesis =>
      simp only [List.map_cons, totalWeight_cons, weight, List.cons.sizeOf_spec]
      omega

theorem totalWeight_values_le {Key : Type} [SizeOf Key] (entries : List (Key × TypedExpr)) :
    totalWeight (entries.map fun entry => expr entry.2) + 3 * entries.length + 3 ≤
      3 * sizeOf entries := by
  induction entries with
  | nil => simp
  | cons entry entries hypothesis =>
      have part := sizeOf_snd_lt entry
      simp only [List.map_cons, totalWeight_cons, weight, List.cons.sizeOf_spec, List.length_cons]
      omega

theorem totalWeight_arms_le (arms : List (Pattern × TypedExpr)) :
    totalWeight (arms.flatMap fun arm => (ofArm arm).reverse) + 3 ≤ 3 * sizeOf arms := by
  induction arms with
  | nil => simp
  | cons arm arms hypothesis =>
      have part := sizeOf_snd_lt arm
      have one : totalWeight (ofArm arm).reverse ≤ 3 * sizeOf arm.2 + 2 := by
        rw [ofArm]
        split_ifs
        · simp [weight]
          omega
        · simp [weight]
      simp only [List.flatMap_cons, totalWeight_append, List.cons.sizeOf_spec]
      omega

theorem reverse_flatMap_ofArm (arms : List (Pattern × TypedExpr)) :
    (arms.reverse.flatMap ofArm).reverse = arms.flatMap fun arm => (ofArm arm).reverse := by
  rw [List.reverse_flatMap, List.reverse_reverse]
  rfl

/-- What is left of the work after an expression is looked at is less than before. -/
theorem totalWeight_ofKind_lt (typ : Typ) (kind : TypedExprKind) :
    totalWeight (ofKind kind).reverse < weight (expr (.mk typ kind)) := by
  simp only [weight, TypedExpr.mk.sizeOf_spec]
  cases kind with
  | tuple elems | list elems =>
      have sum := totalWeight_exprs_le elems
      simp only [ofKind, List.map_reverse, List.reverse_reverse, TypedExprKind.tuple.sizeOf_spec,
        TypedExprKind.list.sizeOf_spec]
      omega
  | dict entries =>
      have sum := totalWeight_values_le entries
      simp only [ofKind, List.map_reverse, List.reverse_reverse, TypedExprKind.dict.sizeOf_spec]
      omega
  | recordUpdate base updates =>
      have sum := totalWeight_values_le updates
      simp [ofKind, List.map_reverse, weight]
      omega
  | letRec bindings body =>
      have sum := totalWeight_values_le bindings
      rw [ofKind]
      split_ifs
      · simp [weight, List.map_reverse]
        omega
      · simp [weight]
        omega
  | matchWith scrutinee arms =>
      have sum := totalWeight_arms_le arms
      simp only [ofKind, List.reverse_append, reverse_flatMap_ofArm, totalWeight_append,
        List.reverse_singleton, totalWeight_cons, totalWeight_nil, weight,
        TypedExprKind.matchWith.sizeOf_spec]
      omega
  | app _ _ | project _ _ | lam _ _ | letIn _ _ _ | ite _ _ _ =>
      simp [ofKind, weight]
      omega
  | _ => simp [ofKind]

end ScopeWalkStep

section Walk

variable {M : Type → Type} [Monad M]

/-- The loop of `check_natives`, with what it does where it meets an expression.
The set holds the names that are bound there. -/
def scopeWalk (visit : Finset Symbol → TypedExpr → M Unit) (bound : List Symbol) :
    List ScopeWalkStep → M Unit
  | [] => pure ()
  | .expr (.mk typ kind) :: rest => do
      visit bound.toFinset (.mk typ kind)
      scopeWalk visit bound ((ScopeWalkStep.ofKind kind).reverse ++ rest)
  | .push name :: rest => scopeWalk visit (bound ++ [name]) rest
  | .pushMany names :: rest => scopeWalk visit (bound ++ names) rest
  | .pop count :: rest => scopeWalk visit (bound.take (bound.length - count)) rest
termination_by steps => ScopeWalkStep.totalWeight steps
decreasing_by
  · have smaller := ScopeWalkStep.totalWeight_ofKind_lt typ kind
    simp only [ScopeWalkStep.totalWeight_append, ScopeWalkStep.totalWeight_cons]
    omega
  all_goals
    simp only [ScopeWalkStep.totalWeight_cons, ScopeWalkStep.weight]
    omega

/-! ## The recursive reading -/

mutual

/-- Reads every subexpression with the names of its lexical scope. -/
def scopeRead (visit : Finset Symbol → TypedExpr → M Unit) (scope : Finset Symbol) :
    TypedExpr → M Unit
  | .mk typ kind => do
      visit scope (.mk typ kind)
      readKind visit scope kind

def readKind (visit : Finset Symbol → TypedExpr → M Unit) (scope : Finset Symbol) :
    TypedExprKind → M Unit
  | .tuple elems | .list elems => readElems visit scope elems
  | .dict entries => readFields visit scope entries
  | .recordUpdate base updates => do
      scopeRead visit scope base
      readFields visit scope updates
  | .app func arg => do
      scopeRead visit scope func
      scopeRead visit scope arg
  | .project inner _ => scopeRead visit scope inner
  | .lam param body => scopeRead visit (scope ∪ {param}) body
  | .letIn name defn body => do
      scopeRead visit scope defn
      scopeRead visit (scope ∪ {name}) body
  | .letRec bindings body => do
      readFields visit (scope ∪ (bindings.map (·.1)).toFinset) bindings
      scopeRead visit (scope ∪ (bindings.map (·.1)).toFinset) body
  | .ite cond thenExpr elseExpr => do
      scopeRead visit scope cond
      scopeRead visit scope thenExpr
      scopeRead visit scope elseExpr
  | .matchWith scrutinee arms => do
      scopeRead visit scope scrutinee
      readArms visit scope arms
  | _ => pure ()

def readElems (visit : Finset Symbol → TypedExpr → M Unit) (scope : Finset Symbol) :
    List TypedExpr → M Unit
  | [] => pure ()
  | elem :: elems => do
      scopeRead visit scope elem
      readElems visit scope elems

def readFields (visit : Finset Symbol → TypedExpr → M Unit) (scope : Finset Symbol) :
    List (Symbol × TypedExpr) → M Unit
  | [] => pure ()
  | (_, value) :: fields => do
      scopeRead visit scope value
      readFields visit scope fields

def readArms (visit : Finset Symbol → TypedExpr → M Unit) (scope : Finset Symbol) :
    List (Pattern × TypedExpr) → M Unit
  | [] => pure ()
  | (pattern, body) :: arms => do
      scopeRead visit (scope ∪ patternNames pattern) body
      readArms visit scope arms

end

variable {visit : Finset Symbol → TypedExpr → M Unit}

/-- Closing a scope restores the names outside it. -/
theorem scopeWalk_pop (bound names : List Symbol) (rest : List ScopeWalkStep) :
    scopeWalk visit (bound ++ names) (.pop names.length :: rest) = scopeWalk visit bound rest := by
  have restored : (bound ++ names).take ((bound ++ names).length - names.length) = bound := by
    simp
  rw [scopeWalk, restored]

/-- Walking an expression on top of other work reads the expression first. -/
def WalkReads (visit : Finset Symbol → TypedExpr → M Unit) (expr : TypedExpr) : Prop :=
  ∀ bound rest, scopeWalk visit bound (.expr expr :: rest) =
    scopeRead visit bound.toFinset expr >>= fun _ => scopeWalk visit bound rest

/-- An arm without names is walked like one that opens an empty scope. -/
theorem scopeWalk_arm {body : TypedExpr} (walks : WalkReads visit body) (bound : List Symbol)
    (rest : List ScopeWalkStep) (pattern : Pattern) :
    scopeWalk visit bound ((ScopeWalkStep.ofArm (pattern, body)).reverse ++ rest) =
      scopeRead visit (bound.toFinset ∪ patternNames pattern) body >>= fun _ =>
        scopeWalk visit bound rest := by
  rw [patternNames, ← List.toFinset_append]
  by_cases noNames : (collectPatternBindings pattern).length = 0
  · have isNil := List.length_eq_zero_iff.mp noNames
    simp [ScopeWalkStep.ofArm, isNil, walks bound rest]
  · have steps : (ScopeWalkStep.ofArm (pattern, body)).reverse ++ rest =
        .pushMany (collectPatternBindings pattern) :: .expr body ::
          .pop (collectPatternBindings pattern).length :: rest := by
      simp [ScopeWalkStep.ofArm, noNames]
    rw [steps, scopeWalk, walks]
    simp only [scopeWalk_pop]

variable [LawfulMonad M]

mutual

theorem scopeWalk_expr (bound : List Symbol) (rest : List ScopeWalkStep) : (expr : TypedExpr) →
    scopeWalk visit bound (.expr expr :: rest) =
      scopeRead visit bound.toFinset expr >>= fun _ => scopeWalk visit bound rest
  | .mk typ kind => by
      rw [scopeWalk, scopeRead, bind_assoc]
      simp only [scopeWalk_kind bound rest kind]

theorem scopeWalk_kind (bound : List Symbol) (rest : List ScopeWalkStep) :
    (kind : TypedExprKind) →
      scopeWalk visit bound ((ScopeWalkStep.ofKind kind).reverse ++ rest) =
        readKind visit bound.toFinset kind >>= fun _ => scopeWalk visit bound rest
  | .tuple elems | .list elems => by
      rw [ScopeWalkStep.ofKind, readKind, List.map_reverse, List.reverse_reverse,
        scopeWalk_elems bound rest elems]
  | .dict entries => by
      rw [ScopeWalkStep.ofKind, readKind, List.map_reverse, List.reverse_reverse,
        scopeWalk_fields bound rest entries]
  | .recordUpdate base updates => by
      simp only [ScopeWalkStep.ofKind, readKind, List.map_reverse, List.reverse_append,
        List.reverse_reverse, List.reverse_singleton, List.nil_append, List.cons_append,
        scopeWalk_expr bound _ base, scopeWalk_fields bound rest updates, bind_assoc]
  | .app func arg => by
      simp [ScopeWalkStep.ofKind, readKind, scopeWalk_expr bound _ func, scopeWalk_expr bound rest arg]
  | .project inner _ => by
      simp [ScopeWalkStep.ofKind, readKind, scopeWalk_expr bound rest inner]
  | .lam param body => by
      change scopeWalk visit bound (.push param :: .expr body :: .pop [param].length :: rest) = _
      rw [scopeWalk, scopeWalk_expr (bound ++ [param]) _ body, readKind, List.toFinset_append]
      simp only [scopeWalk_pop]
      rfl
  | .letIn name defn body => by
      change scopeWalk visit bound
        (.expr defn :: .push name :: .expr body :: .pop [name].length :: rest) = _
      rw [scopeWalk_expr bound _ defn, readKind, bind_assoc]
      congr
      funext _
      rw [scopeWalk, scopeWalk_expr (bound ++ [name]) _ body, List.toFinset_append]
      simp only [scopeWalk_pop]
      rfl
  | .letRec bindings body => by
      by_cases noBindings : bindings = []
      · simp [noBindings, ScopeWalkStep.ofKind, readKind, readFields, scopeWalk_expr bound rest body]
      · have steps : (ScopeWalkStep.ofKind (.letRec bindings body)).reverse ++ rest =
            .pushMany (bindings.map (·.1)) :: ((bindings.map fun binding => .expr binding.2) ++
              .expr body :: .pop (bindings.map (·.1)).length :: rest) := by
          simp [ScopeWalkStep.ofKind, noBindings, List.map_reverse]
        rw [steps, scopeWalk, scopeWalk_fields _ _ bindings, readKind, List.toFinset_append,
          bind_assoc]
        congr
        funext _
        rw [scopeWalk_expr _ _ body, List.toFinset_append]
        simp only [scopeWalk_pop]
  | .ite cond thenExpr elseExpr => by
      simp [ScopeWalkStep.ofKind, readKind, scopeWalk_expr bound _ cond,
        scopeWalk_expr bound _ thenExpr, scopeWalk_expr bound rest elseExpr]
  | .matchWith scrutinee arms => by
      simp only [ScopeWalkStep.ofKind, readKind, List.reverse_append, List.reverse_singleton,
        ScopeWalkStep.reverse_flatMap_ofArm, List.cons_append, List.nil_append,
        scopeWalk_expr bound _ scrutinee, scopeWalk_arms bound rest arms, bind_assoc]
  | .bool _ | .uint _ | .int _ | .float _ | .char _ | .string _ | .uuid _ | .dateTime _ | .hole
  | .classMethod _ | .var _ _ => by
      simp [ScopeWalkStep.ofKind, readKind]

theorem scopeWalk_elems (bound : List Symbol) (rest : List ScopeWalkStep) :
    (elems : List TypedExpr) →
      scopeWalk visit bound (elems.map .expr ++ rest) =
        readElems visit bound.toFinset elems >>= fun _ => scopeWalk visit bound rest
  | [] => by simp [readElems]
  | elem :: elems => by
      simp only [List.map_cons, List.cons_append, readElems, scopeWalk_expr bound _ elem,
        scopeWalk_elems bound rest elems, bind_assoc]

theorem scopeWalk_fields (bound : List Symbol) (rest : List ScopeWalkStep) :
    (fields : List (Symbol × TypedExpr)) →
      scopeWalk visit bound ((fields.map fun field => .expr field.2) ++ rest) =
        readFields visit bound.toFinset fields >>= fun _ => scopeWalk visit bound rest
  | [] => by simp [readFields]
  | (name, value) :: fields => by
      simp only [List.map_cons, List.cons_append, readFields, scopeWalk_expr bound _ value,
        scopeWalk_fields bound rest fields, bind_assoc]

theorem scopeWalk_arms (bound : List Symbol) (rest : List ScopeWalkStep) :
    (arms : List (Pattern × TypedExpr)) →
      scopeWalk visit bound ((arms.flatMap fun arm => (ScopeWalkStep.ofArm arm).reverse) ++ rest) =
        readArms visit bound.toFinset arms >>= fun _ => scopeWalk visit bound rest
  | [] => by simp [readArms]
  | (pattern, body) :: arms => by
      rw [List.flatMap_cons, List.append_assoc, readArms, bind_assoc]
      rw [scopeWalk_arm (fun bound rest => scopeWalk_expr bound rest body) bound _ pattern]
      simp only [scopeWalk_arms bound rest arms]

end

/-! ## Occurrences -/

end Walk

mutual

/-- The subexpressions in the order of evaluation, each once and with the names
that are bound at it. -/
def occurrences (scope : Finset Symbol) : TypedExpr → List (Finset Symbol × TypedExpr)
  | .mk typ kind => (scope, .mk typ kind) :: kindOccurrences scope kind

def kindOccurrences (scope : Finset Symbol) : TypedExprKind → List (Finset Symbol × TypedExpr)
  | .tuple elems | .list elems => elemOccurrences scope elems
  | .dict entries => fieldOccurrences scope entries
  | .recordUpdate base updates => occurrences scope base ++ fieldOccurrences scope updates
  | .app func arg => occurrences scope func ++ occurrences scope arg
  | .project inner _ => occurrences scope inner
  | .lam param body => occurrences (scope ∪ {param}) body
  | .letIn name defn body => occurrences scope defn ++ occurrences (scope ∪ {name}) body
  | .letRec bindings body =>
      fieldOccurrences (scope ∪ (bindings.map (·.1)).toFinset) bindings ++
        occurrences (scope ∪ (bindings.map (·.1)).toFinset) body
  | .ite cond thenExpr elseExpr =>
      occurrences scope cond ++ (occurrences scope thenExpr ++ occurrences scope elseExpr)
  | .matchWith scrutinee arms => occurrences scope scrutinee ++ armOccurrences scope arms
  | _ => []

def elemOccurrences (scope : Finset Symbol) : List TypedExpr → List (Finset Symbol × TypedExpr)
  | [] => []
  | elem :: elems => occurrences scope elem ++ elemOccurrences scope elems

def fieldOccurrences (scope : Finset Symbol) :
    List (Symbol × TypedExpr) → List (Finset Symbol × TypedExpr)
  | [] => []
  | (_, value) :: fields => occurrences scope value ++ fieldOccurrences scope fields

def armOccurrences (scope : Finset Symbol) :
    List (Pattern × TypedExpr) → List (Finset Symbol × TypedExpr)
  | [] => []
  | (pattern, body) :: arms =>
      occurrences (scope ∪ patternNames pattern) body ++ armOccurrences scope arms

end

section Record

/-- Writes down what is visited. -/
def record (scope : Finset Symbol) (expr : TypedExpr) :
    StateM (List (Finset Symbol × TypedExpr)) Unit :=
  modify (· ++ [(scope, expr)])

/-- The effect of writing down some more occurrences. -/
def Records (walk : StateM (List (Finset Symbol × TypedExpr)) Unit)
    (more : List (Finset Symbol × TypedExpr)) : Prop :=
  ∀ log, walk.run log = ((), log ++ more)

theorem records_pure : Records (pure ()) [] := by
  intro log
  rw [List.append_nil]
  rfl

theorem records_record (scope : Finset Symbol) (expr : TypedExpr) :
    Records (record scope expr) [(scope, expr)] :=
  fun _ => rfl

theorem Records.bind {first second : StateM (List (Finset Symbol × TypedExpr)) Unit}
    {one two : List (Finset Symbol × TypedExpr)} (isFirst : Records first one)
    (isSecond : Records second two) : Records (first >>= fun _ => second) (one ++ two) := by
  intro log
  have both := isSecond (log ++ one)
  rw [StateT.run_bind, isFirst log]
  rw [List.append_assoc] at both
  exact both

mutual

theorem records_scopeRead (scope : Finset Symbol) : (expr : TypedExpr) →
    Records (scopeRead record scope expr) (occurrences scope expr)
  | .mk typ kind => by
      rw [scopeRead, occurrences]
      exact (records_record scope _).bind (records_readKind scope kind)

theorem records_readKind (scope : Finset Symbol) : (kind : TypedExprKind) →
    Records (readKind record scope kind) (kindOccurrences scope kind)
  | .tuple elems | .list elems => by
      rw [readKind, kindOccurrences]
      exact records_readElems scope elems
  | .dict entries => by
      rw [readKind, kindOccurrences]
      exact records_readFields scope entries
  | .recordUpdate base updates => by
      rw [readKind, kindOccurrences]
      exact (records_scopeRead scope base).bind (records_readFields scope updates)
  | .app func arg => by
      rw [readKind, kindOccurrences]
      exact (records_scopeRead scope func).bind (records_scopeRead scope arg)
  | .project inner _ => by
      rw [readKind, kindOccurrences]
      exact records_scopeRead scope inner
  | .lam param body => by
      rw [readKind, kindOccurrences]
      exact records_scopeRead _ body
  | .letIn name defn body => by
      rw [readKind, kindOccurrences]
      exact (records_scopeRead scope defn).bind (records_scopeRead _ body)
  | .letRec bindings body => by
      rw [readKind, kindOccurrences]
      exact (records_readFields _ bindings).bind (records_scopeRead _ body)
  | .ite cond thenExpr elseExpr => by
      rw [readKind, kindOccurrences]
      exact (records_scopeRead scope cond).bind
        ((records_scopeRead scope thenExpr).bind (records_scopeRead scope elseExpr))
  | .matchWith scrutinee arms => by
      rw [readKind, kindOccurrences]
      exact (records_scopeRead scope scrutinee).bind (records_readArms scope arms)
  | .bool _ | .uint _ | .int _ | .float _ | .char _ | .string _ | .uuid _ | .dateTime _ | .hole
  | .classMethod _ | .var _ _ => records_pure

theorem records_readElems (scope : Finset Symbol) : (elems : List TypedExpr) →
    Records (readElems record scope elems) (elemOccurrences scope elems)
  | [] => records_pure
  | elem :: elems => by
      rw [readElems, elemOccurrences]
      exact (records_scopeRead scope elem).bind (records_readElems scope elems)

theorem records_readFields (scope : Finset Symbol) : (fields : List (Symbol × TypedExpr)) →
    Records (readFields record scope fields) (fieldOccurrences scope fields)
  | [] => records_pure
  | (name, value) :: fields => by
      rw [readFields, fieldOccurrences]
      exact (records_scopeRead scope value).bind (records_readFields scope fields)

theorem records_readArms (scope : Finset Symbol) : (arms : List (Pattern × TypedExpr)) →
    Records (readArms record scope arms) (armOccurrences scope arms)
  | [] => records_pure
  | (pattern, body) :: arms => by
      rw [readArms, armOccurrences]
      exact (records_scopeRead _ body).bind (records_readArms scope arms)

end

end Record

/-! ## The check -/

/-- The errors of `check_natives`. -/
inductive NativeCheckError where
  | resolution (error : ResolutionError)
  | unsupportedExpr

/-- `RootedEnvironment::contains`. -/
def InternalEnvironment.contains {Ptr : Type} (env : InternalEnvironment Ptr) (name : Symbol) : Bool :=
  (env.bindings :: env.parents).any fun bindings => (bindings.lookup name).isSome

/-- `NativeRegistry::has_name`. -/
def NativeRegistry.hasName {Func : Type} (natives : NativeRegistry Func) (name : Symbol) : Bool :=
  (natives.entries.lookup name).isSome

/-- `overloads.iter().any(|t| unify(t, typ).is_ok())`. -/
def anyUnifiable (fuel : Nat) (typ : Typ) : List Typ → Except ResolutionError Bool
  | [] => .ok false
  | overload :: overloads => do
      if ← isUnifiable fuel overload typ then return true
      anyUnifiable fuel typ overloads

section Checks

variable {Info Ptr Func : Type} (classMethods : SymbolMap Info) (env : InternalEnvironment Ptr)
  (natives : NativeRegistry Func) (fuel : Nat)

/-- What `check_natives` does with a name that is not bound. -/
def checkGlobal (name : Symbol) (overloads : List Typ) (typ : Typ) : Except ResolutionError Unit := do
  if !natives.hasName name then
    if env.contains name then return
    if (classMethods.lookup name).isSome then return
    throw (.unknownVar name)
  if !overloads.isEmpty ∧ typ.ftv = ∅ then
    if !(← anyUnifiable fuel typ overloads) then throw (.missingImpl name typ.display)
  if typ.ftv = ∅ then
    let _ ← natives.resolve fuel name typ

/-- What `check_natives` does where it meets an expression. -/
def checkNode (bound : Finset Symbol) : TypedExpr → Except NativeCheckError Unit
  | .mk _ (.classMethod name) =>
      if (classMethods.lookup name).isSome then .ok () else .error (.resolution (.unknownVar name))
  | .mk typ (.var name overloads) =>
      if name ∈ bound then .ok ()
      else (checkGlobal classMethods env natives fuel name overloads typ).mapError .resolution
  | .mk _ .hole => .error .unsupportedExpr
  | _ => .ok ()

/-- `check_natives`. -/
def checkNatives (expr : TypedExpr) : Except NativeCheckError Unit :=
  scopeWalk (checkNode classMethods env natives fuel) [] [.expr expr]

/-- The recursive check of an expression under the names of its scope. -/
def checkScoped (scope : Finset Symbol) (expr : TypedExpr) : Except NativeCheckError Unit :=
  scopeRead (checkNode classMethods env natives fuel) scope expr

/-- `check_natives` answers as the recursive check does, and its walk visits the
occurrences of subexpressions in their order. -/
theorem checkNatives_eq_checkScoped (expr : TypedExpr) :
    checkNatives classMethods env natives fuel expr =
        checkScoped classMethods env natives fuel ∅ expr ∧
      (scopeWalk record [] [.expr expr]).run [] = ((), occurrences ∅ expr) := by
  constructor
  · rw [checkNatives, scopeWalk_expr, checkScoped]
    simp [scopeWalk]
  · have recorded := records_scopeRead ∅ expr []
    rw [scopeWalk_expr]
    simpa [scopeWalk] using recorded

end Checks

end RexLang
