import Mathlib.Data.List.AList
import RexLang.TypeSubstitution

/-!
# Unification

The type errors, the `Unifier` of the inference engine with its table of
bindings, and the pure `unify` that returns a substitution.  `fuel` bounds the
depth of the recursion; a run of the program is a run for some `fuel`.
-/

namespace RexLang

inductive TypeError where
  | unification (first second : String)
  | occurs (id : TypeVarId) (typ : String)
  | unknownClass (name : Symbol)
  | noInstance (className : Symbol) (typ : String)
  | unknownTypeName (name : Symbol)
  | reservedTypeName (name : Symbol)
  | duplicateTypeParameter (name : Symbol)
  | duplicateValue (name : Symbol)
  | duplicateType (name : Symbol)
  | cyclicTypeAlias (name : Symbol)
  | unknownInstanceMethod (className method : Symbol)
  | missingInstanceMethod (className method : Symbol)
  | missingInstanceConstraint (method className : Symbol) (typ : String)
  | unknownVar (name : Symbol)
  | ambiguousOverload (name : Symbol)
  | ambiguousTypeVars (vars : List TypeVarId) (constraints : String)
  | kindMismatch (className : Symbol) (expected got : Nat) (typ : String)
  | missingConstraints (constraints : String)
  | unsupportedExpr (what : String)
  | unknownField (field : Symbol) (typ : String)
  | fieldNotKnown (field : Symbol) (typ : String)
  | partialRecordConstructorRequiresSingleVariant (constructor : Symbol) (typ : String)
  | nonExhaustiveMatch (typ : String) (missing : List Symbol)
  | invalidLetRecValueDependency (binding dependency : Symbol)
  | spanned (span : Span) (error : TypeError)
  | internal (message : String)
  /-- The bound on the recursion was too small. -/
  | outOfFuel

/-- `with_span`. -/
def TypeError.withSpan (span : Span) : TypeError → TypeError
  | .spanned inner error => .spanned inner error
  | .outOfFuel => .outOfFuel
  | error => .spanned span error

/-! ## The unifier -/

namespace Typ

mutual

/-- Replaces the type variables from left to right, threading a state. -/
def mapVarsM {State : Type} (visit : TypeVar → State → Typ × State) : Typ → State → Typ × State
  | .var typeVar, state => visit typeVar state
  | .con const, state => (.con const, state)
  | .app head arg, state =>
      let (head, state) := mapVarsM visit head state
      let (arg, state) := mapVarsM visit arg state
      (.app head arg, state)
  | .func arg ret, state =>
      let (arg, state) := mapVarsM visit arg state
      let (ret, state) := mapVarsM visit ret state
      (.func arg ret, state)
  | .tuple elems, state =>
      let (elems, state) := mapVarsListM visit elems state
      (.tuple elems, state)
  | .record fields, state =>
      let (fields, state) := mapVarsFieldsM visit fields state
      (.record fields, state)

def mapVarsListM {State : Type} (visit : TypeVar → State → Typ × State) :
    List Typ → State → List Typ × State
  | [], state => ([], state)
  | typ :: types, state =>
      let (typ, state) := mapVarsM visit typ state
      let (types, state) := mapVarsListM visit types state
      (typ :: types, state)

def mapVarsFieldsM {State : Type} (visit : TypeVar → State → Typ × State) :
    List (Symbol × Typ) → State → List (Symbol × Typ) × State
  | [], state => ([], state)
  | (name, typ) :: fields, state =>
      let (typ, state) := mapVarsM visit typ state
      let (fields, state) := mapVarsFieldsM visit fields state
      ((name, typ) :: fields, state)

end

end Typ

/-- `Unifier`: the types that variables are bound to. -/
structure Unifier where
  subs : AList fun _ : TypeVarId => Typ

namespace Unifier

/-- `Unifier::new`. -/
def empty : Unifier :=
  ⟨∅⟩

def lookup (unifier : Unifier) (id : TypeVarId) : Option Typ :=
  unifier.subs.lookup id

def bindVar (unifier : Unifier) (id : TypeVarId) (typ : Typ) : Unifier :=
  ⟨unifier.subs.insert id typ⟩

/-- `prune` at a variable: resolves its binding and stores the resolved type. -/
def pruneVar : Nat → TypeVar → Unifier → Typ × Unifier
  | 0, typeVar, unifier => (.var typeVar, unifier)
  | fuel + 1, typeVar, unifier =>
      match unifier.lookup typeVar.id with
      | none => (.var typeVar, unifier)
      | some bound =>
          let (pruned, unifier) := bound.mapVarsM (pruneVar fuel) unifier
          (pruned, unifier.bindVar typeVar.id pruned)

/-- `prune`.  A chain of bindings is no longer than the table. -/
def prune (unifier : Unifier) (typ : Typ) : Typ × Unifier :=
  typ.mapVarsM (pruneVar (unifier.subs.entries.length + 1)) unifier

/-- `occurs`. -/
def occurs (unifier : Unifier) (id : TypeVarId) (typ : Typ) : Bool × Unifier :=
  let (pruned, unifier) := unifier.prune typ
  (decide (id ∈ pruned.ftv), unifier)

/-- The arm of `unify` for a variable. -/
def unifyVar (typeVar : TypeVar) (other : Typ) (unifier : Unifier) : Except TypeError Unifier :=
  let (found, unifier) := unifier.occurs typeVar.id other
  if found then .error (.occurs typeVar.id other.display)
  else .ok (unifier.bindVar typeVar.id other)

section Step

variable (unify : Typ → Typ → Unifier → Except TypeError Unifier)

/-- The loop of `unify` over the elements of two tuples. -/
def unifyElems : List Typ → List Typ → Unifier → Except TypeError Unifier
  | first :: firsts, second :: seconds, unifier => do
      let unifier ← unify first second unifier
      unifyElems firsts seconds unifier
  | _, _, unifier => .ok unifier

/-- The loop of `unify` over the fields of two records. -/
def unifyFields : List (Symbol × Typ) → List (Symbol × Typ) → Unifier → Except TypeError Unifier
  | (name, typ) :: fields, (name', typ') :: fields', unifier => do
      if name ≠ name' then
        throw (.unification typ.display typ'.display)
      let unifier ← unify typ typ' unifier
      unifyFields fields fields' unifier
  | _, _, unifier => .ok unifier

/-- The loop of `record_elem_type_unifier`. -/
def unifyWithFirst (first : Typ) : List (Symbol × Typ) → Unifier → Except TypeError Unifier
  | [], unifier => .ok unifier
  | (_, typ) :: fields, unifier => do
      let unifier ← unify first typ unifier
      unifyWithFirst first fields unifier

/-- `record_elem_type_unifier`. -/
def recordElemType (fields : List (Symbol × Typ)) (unifier : Unifier) :
    Except TypeError (Typ × Unifier) :=
  match fields with
  | [] => .error (.unsupportedExpr "empty record")
  | (_, first) :: rest => do
      let unifier ← unifyWithFirst unify first rest unifier
      return unifier.prune first

/-- The arm of `unify` for a record and an applied type. -/
def unifyRecordApp (fields : List (Symbol × Typ)) (head arg : Typ) (mismatch : TypeError)
    (unifier : Unifier) : Except TypeError Unifier :=
  match head with
  | .con const =>
      if const = .builtin .dict then do
        let (elemTy, unifier) ← recordElemType unify fields unifier
        unify arg elemTy unifier
      else .error mismatch
  | .var typeVar => do
      let unifier ← unify (.var typeVar) (.builtin .dict) unifier
      let (elemTy, unifier) ← recordElemType unify fields unifier
      unify arg elemTy unifier
  | _ => .error mismatch

/-- `unify` of two pruned types. -/
def unifyPruned (first second : Typ) (unifier : Unifier) : Except TypeError Unifier :=
  let mismatch := TypeError.unification first.display second.display
  match first, second with
  | .var typeVar, .var typeVar' =>
      if typeVar.id = typeVar'.id then .ok unifier
      else unifyVar typeVar (.var typeVar') unifier
  | .var typeVar, other => unifyVar typeVar other unifier
  | other, .var typeVar => unifyVar typeVar other unifier
  | .con const, .con const' => if const = const' then .ok unifier else .error mismatch
  | .app head arg, .app head' arg' => do
      let unifier ← unify head head' unifier
      unify arg arg' unifier
  | .func arg ret, .func arg' ret' => do
      let unifier ← unify arg arg' unifier
      unify ret ret' unifier
  | .tuple elems, .tuple elems' =>
      if elems.length ≠ elems'.length then .error mismatch
      else unifyElems unify elems elems' unifier
  | .record fields, .record fields' =>
      if fields.length ≠ fields'.length then .error mismatch
      else unifyFields unify fields fields' unifier
  | .record fields, .app head arg => unifyRecordApp unify fields head arg mismatch unifier
  | .app head arg, .record fields => unifyRecordApp unify fields head arg mismatch unifier
  | _, _ => .error mismatch

end Step

/-- `Unifier::unify`. -/
def unify : Nat → Typ → Typ → Unifier → Except TypeError Unifier
  | 0, _, _, _ => .error .outOfFuel
  | fuel + 1, first, second, unifier =>
      let (first, unifier) := unifier.prune first
      let (second, unifier) := unifier.prune second
      unifyPruned (unify fuel) first second unifier

/-- `into_subst`. -/
def intoSubst (unifier : Unifier) : Subst :=
  unifier.subs.entries.map fun entry => (entry.1, (unifier.prune entry.2).1)

end Unifier

/-! ## Pure unification -/

/-- `compose_subst`. -/
def composeSubst (second first : Subst) : Subst :=
  if second.isEmpty then first
  else if first.isEmpty then second
  else second ++ first.map fun entry => (entry.1, entry.2.apply second)

/-- `bind`. -/
def bind (typeVar : TypeVar) (typ : Typ) : Except TypeError Subst :=
  let occurring : Except TypeError Subst :=
    if typeVar.id ∈ typ.ftv then .error (.occurs typeVar.id typ.display)
    else .ok [(typeVar.id, typ)]
  match typ with
  | .var other => if other.id = typeVar.id then .ok [] else occurring
  | _ => occurring

section Step

variable (unify : Typ → Typ → Except TypeError Subst)

/-- The loop of `unify` over the elements of two tuples. -/
def unifyElems (subst : Subst) : List Typ → List Typ → Except TypeError Subst
  | first :: firsts, second :: seconds => do
      let next ← unify (first.apply subst) (second.apply subst)
      unifyElems (composeSubst next subst) firsts seconds
  | _, _ => .ok subst

/-- The loop of `unify` over the fields of two records. -/
def unifyFields (subst : Subst) :
    List (Symbol × Typ) → List (Symbol × Typ) → Except TypeError Subst
  | (name, typ) :: fields, (name', typ') :: fields' => do
      if name ≠ name' then
        throw (.unification typ.display typ'.display)
      let next ← unify (typ.apply subst) (typ'.apply subst)
      unifyFields (composeSubst next subst) fields fields'
  | _, _ => .ok subst

/-- The loop of `record_elem_type`. -/
def recordElemTypeLoop (subst : Subst) (current : Typ) :
    List (Symbol × Typ) → Except TypeError (Subst × Typ)
  | [] => .ok (subst, current.apply subst)
  | (_, typ) :: fields => do
      let next ← unify (current.apply subst) (typ.apply subst)
      let subst := composeSubst next subst
      recordElemTypeLoop subst (current.apply subst) fields

/-- `record_elem_type`. -/
def recordElemType : List (Symbol × Typ) → Except TypeError (Subst × Typ)
  | [] => .error (.unsupportedExpr "empty record")
  | (_, first) :: rest => recordElemTypeLoop unify [] first rest

/-- The arm of `unify` for a record and an applied type. -/
def unifyRecordApp (fields : List (Symbol × Typ)) (head arg : Typ) (mismatch : TypeError) :
    Except TypeError Subst :=
  match head with
  | .con const =>
      if const = .builtin .dict then do
        let (fieldsSubst, elemTy) ← recordElemType unify fields
        let argSubst ← unify (arg.apply fieldsSubst) elemTy
        return composeSubst argSubst fieldsSubst
      else .error mismatch
  | .var typeVar => do
      let headSubst ← bind typeVar (.builtin .dict)
      let arg := arg.apply headSubst
      let (fieldsSubst, elemTy) ← recordElemType unify fields
      let argSubst ← unify (arg.apply fieldsSubst) elemTy
      return composeSubst argSubst (composeSubst fieldsSubst headSubst)
  | _ => .error mismatch

end Step

/-- `unify`. -/
def unify : Nat → Typ → Typ → Except TypeError Subst
  | 0, _, _ => .error .outOfFuel
  | fuel + 1, first, second =>
      let mismatch := TypeError.unification first.display second.display
      match first, second with
      | .func arg ret, .func arg' ret' => do
          let argSubst ← unify fuel arg arg'
          let retSubst ← unify fuel (ret.apply argSubst) (ret'.apply argSubst)
          return composeSubst retSubst argSubst
      | .record fields, .record fields' =>
          if fields.length ≠ fields'.length then .error mismatch
          else unifyFields (unify fuel) [] fields fields'
      | .record fields, .app head arg => unifyRecordApp (unify fuel) fields head arg mismatch
      | .app head arg, .record fields => unifyRecordApp (unify fuel) fields head arg mismatch
      | .app head arg, .app head' arg' => do
          let headSubst ← unify fuel head head'
          let argSubst ← unify fuel (arg.apply headSubst) (arg'.apply headSubst)
          return composeSubst argSubst headSubst
      | .tuple elems, .tuple elems' =>
          if elems.length ≠ elems'.length then .error mismatch
          else unifyElems (unify fuel) [] elems elems'
      | .var typeVar, typ => bind typeVar typ
      | typ, .var typeVar => bind typeVar typ
      | .con const, .con const' => if const = const' then .ok [] else .error mismatch
      | _, _ => .error mismatch

end RexLang
