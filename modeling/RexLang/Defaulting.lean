import Mathlib.Data.Finset.Sort
import RexLang.DepthFirstStacks
import RexLang.InstanceSearch
import RexLang.TypedExpr

/-!
# Defaulting

After inference, numeric variables that stayed ambiguous become the first of a
list of candidate types that satisfies all predicates about them.
-/

namespace RexLang

/-! ## Candidates -/

/-- The subexpressions of an expression in the order of evaluation. -/
def TypedExprKind.parts : TypedExprKind → List TypedExpr
  | .tuple elems | .list elems => elems
  | .dict entries => entries.map (·.2)
  | .recordUpdate base updates => base :: updates.map (·.2)
  | .app func arg => [func, arg]
  | .project expr _ => [expr]
  | .lam _ body => [body]
  | .letIn _ defn body => [defn, body]
  | .letRec bindings body => bindings.map (·.2) ++ [body]
  | .ite cond thenExpr elseExpr => [cond, thenExpr, elseExpr]
  | .matchWith scrutinee arms => scrutinee :: arms.map (·.2)
  | _ => []

namespace TypedExpr

def parts (expr : TypedExpr) : List TypedExpr :=
  expr.kind.parts

theorem sum_sizeOf_lt (elems : List TypedExpr) : (elems.map sizeOf).sum < sizeOf elems := by
  induction elems with
  | nil => simp
  | cons elem elems hypothesis =>
      rw [List.map_cons, List.sum_cons, List.cons.sizeOf_spec]
      omega

theorem sum_sizeOf_snd_lt {Key : Type} [SizeOf Key] (entries : List (Key × TypedExpr)) :
    ((entries.map (·.2)).map sizeOf).sum < sizeOf entries := by
  induction entries with
  | nil => simp
  | cons entry entries hypothesis =>
      have part := sizeOf_snd_lt entry
      rw [List.map_cons, List.map_cons, List.sum_cons, List.cons.sizeOf_spec]
      omega

theorem treeSized_parts : TreeSized parts := by
  refine ⟨sizeOf, fun expr => ?_⟩
  obtain ⟨typ, kind⟩ := expr
  rw [parts, TypedExpr.kind, TypedExpr.mk.sizeOf_spec]
  cases kind with
  | tuple elems | list elems =>
      have sum := sum_sizeOf_lt elems
      simp only [TypedExprKind.parts, TypedExprKind.tuple.sizeOf_spec,
        TypedExprKind.list.sizeOf_spec]
      omega
  | dict entries =>
      have sum := sum_sizeOf_snd_lt entries
      simp only [TypedExprKind.parts, TypedExprKind.dict.sizeOf_spec]
      omega
  | recordUpdate base updates =>
      have sum := sum_sizeOf_snd_lt updates
      simp only [TypedExprKind.parts, TypedExprKind.recordUpdate.sizeOf_spec, List.map_cons,
        List.sum_cons]
      omega
  | letRec bindings body =>
      have sum := sum_sizeOf_snd_lt bindings
      simp only [TypedExprKind.parts, TypedExprKind.letRec.sizeOf_spec, List.map_append,
        List.sum_append, List.map_cons, List.sum_cons, List.map_nil, List.sum_nil]
      omega
  | matchWith scrutinee arms =>
      have sum := sum_sizeOf_snd_lt arms
      simp only [TypedExprKind.parts, TypedExprKind.matchWith.sizeOf_spec, List.map_cons,
        List.sum_cons]
      omega
  | app _ _ | project _ _ | lam _ _ | letIn _ _ _ | ite _ _ _ =>
      simp [TypedExprKind.parts]
      omega
  | _ => simp [TypedExprKind.parts]

/-- An expression and all below it, depth first. -/
def subexpressions (expr : TypedExpr) : List TypedExpr :=
  treeSized_parts.preorder expr

end TypedExpr

/-- `push_unique_type`. -/
def pushUniqueType (out : List Typ) (typ : Typ) : List Typ :=
  if typ ∈ out then out else out ++ [typ]

/-- A ground type that is a constructor without parameters. -/
def Typ.nullary : Typ → Option Typ
  | .con const => if const.arity = 0 then some (.con const) else none
  | _ => none

/-- The candidate that `collect_default_candidates` finds at an expression. -/
def pushCandidate (out : List Typ) (expr : TypedExpr) : List Typ :=
  match expr.typ.nullary with
  | some typ => pushUniqueType out typ
  | none => out

/-- `collect_default_candidates`. -/
def collectDefaultCandidates (expr : TypedExpr) (out : List Typ) : List Typ :=
  TypedExpr.treeSized_parts.visitStack pushCandidate out [expr]

/-- The candidates of `default_ambiguous_types`. -/
def defaultCandidates (typed : TypedExpr) : List Typ :=
  [.builtin .f32, .builtin .i32, .builtin .string].foldl pushUniqueType
    (collectDefaultCandidates typed [])

/-- The candidates in the documented order: the nullary types of the
subexpressions in the order in which they are first seen, then the fixed ones. -/
def documentedCandidates (typed : TypedExpr) : List Typ :=
  ((typed.subexpressions.filterMap fun expr => expr.typ.nullary) ++
    [Typ.builtin .f32, .builtin .i32, .builtin .string]).eraseDups

theorem foldl_pushUniqueType (typs out : List Typ) :
    typs.foldl pushUniqueType out = out ++ (typs.filter (· ∉ out)).eraseDups := by
  induction typs generalizing out with
  | nil => simp
  | cons typ typs hypothesis =>
      rw [List.foldl_cons, hypothesis, pushUniqueType]
      by_cases member : typ ∈ out
      · simp [member]
      · have isNew : (typ :: typs).filter (· ∉ out) = typ :: typs.filter (· ∉ out) := by
          simp [member]
        have rest : (typs.filter (· ∉ out)).filter (fun other => !other == typ) =
            typs.filter (· ∉ out ++ [typ]) := by
          rw [List.filter_filter]
          refine List.filter_congr fun other _ => ?_
          by_cases same : other = typ
          · simp [same]
          · simp [same]
        rw [if_neg member, isNew, List.eraseDups_cons, rest, List.append_assoc,
          List.singleton_append]

theorem foldl_pushCandidate (exprs : List TypedExpr) (out : List Typ) :
    exprs.foldl pushCandidate out =
      (exprs.filterMap fun expr => expr.typ.nullary).foldl pushUniqueType out := by
  induction exprs generalizing out with
  | nil => rfl
  | cons expr exprs hypothesis =>
      rw [List.foldl_cons, hypothesis, pushCandidate]
      cases found : expr.typ.nullary with
      | none => simp [found]
      | some typ => simp [found]

/-- The stack walk and the insertions give the documented candidates. -/
theorem defaultCandidates_eq (typed : TypedExpr) :
    defaultCandidates typed = documentedCandidates typed := by
  rw [defaultCandidates, collectDefaultCandidates, TreeSized.visitStack_eq_foldl, foldl_pushCandidate,
    List.flatMap_singleton, ← List.foldl_append, foldl_pushUniqueType]
  simp [documentedCandidates, TypedExpr.subexpressions]

theorem nullary_ground {typ found : Typ} (isFound : typ.nullary = some found) : found.Ground := by
  cases typ with
  | con const =>
      simp only [Typ.nullary] at isFound
      split_ifs at isFound
      cases isFound
      rfl
  | _ => cases isFound

/-- Candidates have no variables. -/
theorem ground_of_mem_defaultCandidates {typed : TypedExpr} {candidate : Typ}
    (member : candidate ∈ defaultCandidates typed) : candidate.Ground := by
  rw [defaultCandidates_eq, documentedCandidates, List.mem_eraseDups, List.mem_append,
    List.mem_filterMap] at member
  rcases member with ⟨expr, -, isFound⟩ | isFixed
  · exact nullary_ground isFound
  · simp only [List.mem_cons, List.not_mem_nil, or_false] at isFixed
    rcases isFixed with rfl | rfl | rfl <;> rfl

/-! ## The choice -/

/-- `numeric_defaultable_class`. -/
def numericDefaultableClass (className : Symbol) : Bool :=
  className ∈ ["AdditiveMonoid", "MultiplicativeMonoid", "Subtractive", "AdditiveGroup", "Ring",
    "Divisive", "Field", "Integral"]

/-- `defaultable_companion_class`. -/
def defaultableCompanionClass (className : Symbol) : Bool :=
  className ∈ ["Eq", "Ord"]

/-- `predicates_are_defaultable`. -/
def predicatesAreDefaultable (preds : List Predicate) : Bool :=
  preds.any (numericDefaultableClass ·.className) &&
    preds.all fun pred =>
      numericDefaultableClass pred.className || defaultableCompanionClass pred.className

/-- The type is the variable. -/
def Typ.isVar (id : TypeVarId) : Typ → Bool
  | .var typeVar => typeVar.id == id
  | _ => false

section Choice

variable (entails : Predicate → Except TypeError Bool)

/-- The loop of `choose_default_type` over the predicates. -/
def acceptsDefault (subst : Subst) : List Predicate → Except TypeError Bool
  | [] => .ok true
  | pred :: preds => do
      let test := pred.apply subst
      if test.typ.ftv ≠ ∅ then return false
      if ← entails test then acceptsDefault subst preds else return false

/-- `choose_default_type`. -/
def chooseDefaultType (id : TypeVarId) (preds : List Predicate) :
    List Typ → Except TypeError (Option Typ)
  | [] => .ok none
  | candidate :: candidates => do
      if ← acceptsDefault entails [(id, candidate)] preds then return some candidate
      chooseDefaultType id preds candidates

/-- The state of the loops of `default_ambiguous_types`. -/
structure DefaultState where
  preds : List Predicate
  subst : Subst
  progress : Bool

/-- The loop of `default_ambiguous_types` over the variables. -/
def defaultVars (candidates : List Typ) :
    List TypeVarId → DefaultState → Except TypeError DefaultState
  | [], state => .ok state
  | id :: ids, state => do
      if (state.subst.lookup id).isSome then defaultVars candidates ids state
      else
        let relevant := state.preds.filter fun pred => id ∈ pred.typ.ftv
        let simple := relevant.filter (·.typ.isVar id)
        if !predicatesAreDefaultable simple then defaultVars candidates ids state
        else
          match ← chooseDefaultType entails id relevant candidates with
          | none => defaultVars candidates ids state
          | some choice =>
              let next : Subst := [(id, choice)]
              defaultVars candidates ids {
                preds := state.preds.map (Predicate.apply next)
                subst := composeSubst next state.subst
                progress := true }

/-- `ftv` of a list of predicates. -/
def predicatesFtv (preds : List Predicate) : Finset TypeVarId :=
  preds.foldr (fun pred ids => pred.typ.ftv ∪ ids) ∅

/-- The outer loop of `default_ambiguous_types`, for a number of rounds. -/
def defaultLoop (candidates : List Typ) :
    Nat → List Predicate → Subst → Except TypeError (Subst × List Predicate)
  | 0, _, _ => .error .outOfFuel
  | rounds + 1, preds, subst => do
      let state ← defaultVars entails candidates (predicatesFtv preds).sort ⟨preds, subst, false⟩
      if state.progress then defaultLoop candidates rounds state.preds state.subst
      else return (state.subst, state.preds)

end Choice

/-- `default_ambiguous_types`.  Every round but the last takes a variable away. -/
def defaultAmbiguousTypes (classEnv : ClassEnv) (fuel : Nat) (typed : TypedExpr)
    (preds : List Predicate) : Except TypeError (TypedExpr × List Predicate) := do
  let (subst, preds) ← defaultLoop (classEnv.entails fuel []) (defaultCandidates typed)
    ((predicatesFtv preds).card + 1) preds []
  return (typed.apply subst, preds)

/-! ## What defaulting is to do -/

/-- Some simple predicate about the variable is numeric, and all of them are
numeric or companions. -/
def Eligible (preds : List Predicate) (id : TypeVarId) : Prop :=
  (∃ pred ∈ preds, pred.typ.isVar id ∧ numericDefaultableClass pred.className) ∧
    ∀ pred ∈ preds, pred.typ.isVar id →
      numericDefaultableClass pred.className ∨ defaultableCompanionClass pred.className

/-- The candidate makes every predicate about the variable ground and entailed. -/
def Satisfies (classEnv : ClassEnv) (preds : List Predicate) (id : TypeVarId)
    (candidate : Typ) : Prop :=
  ∀ pred ∈ preds, id ∈ pred.typ.ftv → (pred.apply [(id, candidate)]).typ.Ground ∧
    classEnv.Derives [] (pred.apply [(id, candidate)])

/-- The first of the candidates that satisfies the predicates about the variable. -/
def IsChoice (classEnv : ClassEnv) (candidates : List Typ) (preds : List Predicate)
    (id : TypeVarId) (choice : Typ) : Prop :=
  ∃ before after, candidates = before ++ choice :: after ∧ Satisfies classEnv preds id choice ∧
    ∀ candidate ∈ before, ¬Satisfies classEnv preds id candidate

/-- The predicates after one variable is given a type. -/
def applyDefault (preds : List Predicate) (default : TypeVarId × Typ) : List Predicate :=
  preds.map (Predicate.apply [default])

/-- The variables that are given types, one after the other. -/
inductive Defaults (classEnv : ClassEnv) (candidates : List Typ) :
    List Predicate → List (TypeVarId × Typ) → List Predicate → Prop
  | done {preds : List Predicate} : Defaults classEnv candidates preds [] preds
  | step {preds final : List Predicate} {id : TypeVarId} {choice : Typ}
      {rest : List (TypeVarId × Typ)} :
      Eligible preds id → IsChoice classEnv candidates preds id choice →
        Defaults classEnv candidates (applyDefault preds (id, choice)) rest final →
          Defaults classEnv candidates preds ((id, choice) :: rest) final

/-- The lists have the same predicates, in any order and with any repetition. -/
def SamePredicates (preds others : List Predicate) : Prop :=
  ∀ pred, pred ∈ preds ↔ pred ∈ others

end RexLang
