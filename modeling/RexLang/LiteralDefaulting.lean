import RexLang.Instantiation
import RexLang.UnifierResolution

/-!
# Defaulting of literals at a binding

Where a `let` binding is generalised, the variables of number literals that its
type does not mention become `i32` or `f32`.  The types of the environment are
not consulted: a variable of the environment that the definition compares with a
literal is given a type as well.
-/

namespace RexLang

/-! ## The function -/

/-- `preds` with their types resolved, one after the other. -/
def resolvePreds : List Predicate → Unifier → List Predicate × Unifier
  | [], unifier => ([], unifier)
  | pred :: preds, unifier =>
      let (typ, unifier) := unifier.prune pred.typ
      let (rest, unifier) := resolvePreds preds unifier
      (⟨pred.className, typ⟩ :: rest, unifier)

/-- `dedup_preds`. -/
def dedupPreds (preds : List Predicate) : List Predicate :=
  preds.eraseDups

/-- The type that a class of literals defaults to. -/
def literalDefault (className : Symbol) : Option Typ :=
  if className = "Field" then some (.builtin .f32)
  else if className = "Integral" then some (.builtin .i32)
  else none

/-- `BTreeMap::insert`, at ids of variables. -/
def insertDefault (id : TypeVarId) (typ : Typ) : Subst → Subst
  | [] => [(id, typ)]
  | (other, old) :: rest =>
      if id = other then (id, typ) :: rest
      else if id < other then (id, typ) :: (other, old) :: rest
      else (other, old) :: insertDefault id typ rest

/-- The variable and the default that a predicate asks for, if it is about a
variable outside the type. -/
def defaultOf (typFtv : Finset TypeVarId) (pred : Predicate) : Option (TypeVarId × Typ) :=
  match pred.typ with
  | .var typeVar =>
      if typeVar.id ∈ typFtv then none
      else (literalDefault pred.className).map (typeVar.id, ·)
  | _ => none

/-- The loop that collects the defaults. -/
def collectDefaults (typFtv : Finset TypeVarId) :
    List Predicate → Subst → Except TypeError Subst
  | [], defaults => .ok defaults
  | pred :: preds, defaults =>
      match defaultOf typFtv pred with
      | none => collectDefaults typFtv preds defaults
      | some (id, typ) =>
          match defaults.lookup id with
          | some existing =>
              if existing ≠ typ then .error (.unification existing.display typ.display)
              else collectDefaults typFtv preds (insertDefault id typ defaults)
          | none => collectDefaults typFtv preds (insertDefault id typ defaults)

/-- The loop that unifies the variables with their defaults. -/
def unifyDefaults (fuel : Nat) : Subst → Unifier → Except TypeError Unifier
  | [], unifier => .ok unifier
  | (id, typ) :: defaults, unifier => do
      let unifier ← Unifier.unify fuel (.var ⟨id, none⟩) typ unifier
      unifyDefaults fuel defaults unifier

/-- `default_literal_constraints_outside_type`. -/
def defaultLiteralConstraintsOutsideType (fuel : Nat) (preds : List Predicate) (typ : Typ)
    (unifier : Unifier) : Except TypeError ((List Predicate × Typ) × Unifier) := do
  let (typ, unifier) := unifier.prune typ
  let (preds, unifier) := resolvePreds preds unifier
  let preds := dedupPreds preds
  let defaults ← collectDefaults typ.ftv preds []
  let unifier ← unifyDefaults fuel defaults unifier
  let (typ, unifier) := unifier.prune typ
  let (preds, unifier) := resolvePreds preds unifier
  return ((dedupPreds preds, typ), unifier)

/-! ## Free variables of the environment -/

/-- The schemes of the names of an environment. -/
abbrev TypeEnv := SymbolMap (List Scheme)

/-- The variable is free in the scheme after resolution. -/
def Scheme.HasFree (scheme : Scheme) (unifier : Unifier) (id : TypeVarId) : Prop :=
  (id ∈ (unifier.resolve scheme.typ).ftv ∨
      ∃ pred ∈ scheme.preds, id ∈ (unifier.resolve pred.typ).ftv) ∧
    ∀ typeVar ∈ scheme.vars, typeVar.id ≠ id

/-- The variable is free in the types of the environment. -/
def TypeEnv.HasFree (env : TypeEnv) (unifier : Unifier) (id : TypeVarId) : Prop :=
  ∃ entry ∈ env, ∃ scheme ∈ entry.2, scheme.HasFree unifier id

/-- The variable is bound in the second table, and not in the first. -/
def Unifier.Binds (before after : Unifier) (id : TypeVarId) : Prop :=
  before.lookup id = none ∧ after.lookup id ≠ none

/-- The definition has a literal's predicate about the variable, which its type
does not mention. -/
def IsOutsideLiteral (preds : List Predicate) (typ : Typ) (unifier : Unifier)
    (id : TypeVarId) : Prop :=
  ∃ pred ∈ preds, ∃ typeVar, unifier.resolve pred.typ = .var typeVar ∧ typeVar.id = id ∧
    (literalDefault pred.className).isSome ∧ id ∉ (unifier.resolve typ).ftv

/-! ## Resolution along the function -/

namespace Unifier

/-- The same types resolve to the same types, and there are no cycles. -/
structure Keeps (before after : Unifier) : Prop where
  acyclic : after.Acyclic
  resolve_eq : ∀ typ, after.resolve typ = before.resolve typ

theorem Keeps.trans {first second third : Unifier} (one : first.Keeps second)
    (two : second.Keeps third) : first.Keeps third :=
  ⟨two.acyclic, fun typ => (two.resolve_eq typ).trans (one.resolve_eq typ)⟩

theorem keeps_refl {unifier : Unifier} (acyclic : unifier.Acyclic) : unifier.Keeps unifier :=
  ⟨acyclic, fun _ => rfl⟩

theorem keeps_prune {unifier : Unifier} (acyclic : unifier.Acyclic) (typ : Typ) :
    (unifier.prune typ).1 = unifier.resolve typ ∧ unifier.Keeps (unifier.prune typ).2 := by
  obtain ⟨rank, ranked⟩ := acyclic
  have spec := prune_spec ranked typ
  exact ⟨spec.1, ⟨rank, spec.2.ranked⟩, spec.2.resolve_eq⟩

theorem Keeps.lookup_eq_none {before after : Unifier} (keeps : before.Keeps after)
    (acyclic : before.Acyclic) (id : TypeVarId) :
    after.lookup id = none ↔ before.lookup id = none := by
  obtain ⟨rank, ranked⟩ := acyclic
  obtain ⟨rankAfter, rankedAfter⟩ := keeps.acyclic
  rw [lookup_eq_none_iff rankedAfter ⟨id, none⟩, keeps.resolve_eq,
    ← lookup_eq_none_iff ranked ⟨id, none⟩]

theorem keeps_resolvePreds {unifier : Unifier} (acyclic : unifier.Acyclic)
    (preds : List Predicate) :
    (resolvePreds preds unifier).1 =
        preds.map (fun pred => ⟨pred.className, unifier.resolve pred.typ⟩) ∧
      unifier.Keeps (resolvePreds preds unifier).2 := by
  induction preds generalizing unifier with
  | nil => exact ⟨rfl, keeps_refl acyclic⟩
  | cons pred preds hypothesis =>
      have first := keeps_prune acyclic pred.typ
      have rest := hypothesis first.2.acyclic
      rw [resolvePreds]
      refine ⟨?_, first.2.trans rest.2⟩
      change ⟨pred.className, _⟩ :: (resolvePreds preds _).1 = _
      rw [first.1, rest.1, List.map_cons]
      simp only [first.2.resolve_eq]

/-- Unifying an unbound variable with a type without variables binds the
variable, and no other one. -/
theorem unify_unbound {unifier after : Unifier} (acyclic : unifier.Acyclic) {id : TypeVarId}
    (unbound : unifier.lookup id = none) {const : TypeConst} {fuel : Nat}
    (unified : unify fuel (.var ⟨id, none⟩) (.con const) unifier = .ok after) :
    after.Acyclic ∧ ∀ other, after.lookup other = none ↔ unifier.lookup other = none ∧ other ≠ id := by
  obtain ⟨fuel, rfl⟩ : ∃ less, fuel = less + 1 := by
    cases fuel with
    | zero => cases unified
    | succ fuel => exact ⟨fuel, rfl⟩
  obtain ⟨isResolved, keeps⟩ := keeps_prune acyclic (.var ⟨id, none⟩)
  have isVar : (unifier.prune (.var ⟨id, none⟩)).1 = .var ⟨id, none⟩ := by
    obtain ⟨rank, ranked⟩ := acyclic
    rw [isResolved, resolve_var_of_unbound ranked unbound]
  have constStays : ∀ state : Unifier, state.prune (.con const) = (.con const, state) :=
    fun _ => rfl
  have unboundAfter := (keeps.lookup_eq_none acyclic id).mpr unbound
  rw [unify] at unified
  simp only [isVar, constStays, unifyPruned, unifyVar, occurs, Typ.ftv, Finset.notMem_empty,
    decide_false, Bool.false_eq_true, if_false] at unified
  cases unified
  obtain ⟨rank, ranked⟩ := keeps.acyclic
  have noVars : ∀ other ∈ (Typ.con const).ftv,
      (unifier.prune (.var ⟨id, none⟩)).2.lookup other = none := fun other member =>
    absurd member (Finset.notMem_empty other)
  refine ⟨⟨_, ranked_bindVar ranked unboundAfter noVars (Finset.notMem_empty id)⟩, fun other => ?_⟩
  rw [lookup_bindVar, ← keeps.lookup_eq_none acyclic]
  by_cases same : other = id
  · simp [same]
  · simp [same]

end Unifier

/-! ## The defaults -/

theorem mem_keys_insertDefault {id other : TypeVarId} {typ : Typ} {defaults : Subst} :
    other ∈ (insertDefault id typ defaults).map Prod.fst ↔
      other = id ∨ other ∈ defaults.map Prod.fst := by
  induction defaults with
  | nil => simp [insertDefault]
  | cons entry defaults hypothesis =>
      rw [insertDefault]
      split_ifs with same before
      · simp [same]
      · simp
      · rw [List.map_cons, List.mem_cons, hypothesis, List.map_cons, List.mem_cons]
        tauto

/-- The ids grow, and every default is a constant. -/
structure WellSorted (defaults : Subst) : Prop where
  sorted : (defaults.map Prod.fst).Pairwise (· < ·)
  consts : ∀ entry ∈ defaults, ∃ const, entry.2 = .con const

theorem mem_insertDefault {id : TypeVarId} {typ : Typ} {defaults : Subst} {entry : TypeVarId × Typ}
    (member : entry ∈ insertDefault id typ defaults) : entry = (id, typ) ∨ entry ∈ defaults := by
  induction defaults with
  | nil => simpa [insertDefault] using member
  | cons first defaults hypothesis =>
      rw [insertDefault] at member
      split_ifs at member
      · exact (List.mem_cons.mp member).imp_right (List.mem_cons_of_mem _)
      · exact List.mem_cons.mp member
      · rcases List.mem_cons.mp member with rfl | member
        · exact .inr List.mem_cons_self
        · exact (hypothesis member).imp_right (List.mem_cons_of_mem _)

theorem WellSorted.insert {defaults : Subst} (sorted : WellSorted defaults) (id : TypeVarId)
    (const : TypeConst) : WellSorted (insertDefault id (.con const) defaults) where
  sorted := by
    have isSorted := sorted.sorted
    clear sorted
    induction defaults with
    | nil => simp [insertDefault]
    | cons entry defaults hypothesis =>
        rw [List.map_cons, List.pairwise_cons] at isSorted
        rw [insertDefault]
        split_ifs with same before
        · rw [List.map_cons, List.pairwise_cons, same]
          exact isSorted
        · rw [List.map_cons, List.map_cons, List.pairwise_cons, List.pairwise_cons]
          refine ⟨List.forall_mem_cons.mpr ⟨before, fun other member => ?_⟩, isSorted⟩
          exact before.trans (isSorted.1 other member)
        · rw [List.map_cons, List.pairwise_cons]
          refine ⟨fun other member => ?_, hypothesis isSorted.2⟩
          rcases mem_keys_insertDefault.1 member with rfl | member
          · exact lt_of_le_of_ne (not_lt.mp before) (Ne.symm same)
          · exact isSorted.1 other member
  consts entry member := by
    rcases mem_insertDefault member with rfl | member
    · exact ⟨const, rfl⟩
    · exact sorted.consts entry member

theorem literalDefault_const {className : Symbol} {typ : Typ}
    (found : literalDefault className = some typ) : ∃ const, typ = .con const := by
  rw [literalDefault] at found
  split_ifs at found
  · cases found
    exact ⟨_, rfl⟩
  · cases found
    exact ⟨_, rfl⟩

theorem defaultOf_const {typFtv : Finset TypeVarId} {pred : Predicate} {id : TypeVarId} {typ : Typ}
    (found : defaultOf typFtv pred = some (id, typ)) : ∃ const, typ = .con const := by
  rw [defaultOf] at found
  split at found
  · split_ifs at found
    obtain ⟨_, isDefault, same⟩ := Option.map_eq_some_iff.mp found
    cases same
    exact literalDefault_const isDefault
  · cases found

/-- The variables that are collected are those that a predicate asks for. -/
theorem collectDefaults_ok {typFtv : Finset TypeVarId} {preds : List Predicate}
    {defaults result : Subst} (sorted : WellSorted defaults)
    (collected : collectDefaults typFtv preds defaults = .ok result) :
    WellSorted result ∧ ∀ id, id ∈ result.map Prod.fst ↔
      id ∈ defaults.map Prod.fst ∨ ∃ pred ∈ preds, ∃ typ, defaultOf typFtv pred = some (id, typ) := by
  induction preds generalizing defaults with
  | nil =>
      cases collected
      simp [sorted]
  | cons pred preds hypothesis =>
      rw [collectDefaults] at collected
      cases found : defaultOf typFtv pred with
      | none =>
          simp only [found] at collected
          simpa [found] using hypothesis sorted collected
      | some entry =>
          obtain ⟨id, typ⟩ := entry
          obtain ⟨const, rfl⟩ := defaultOf_const found
          have inserted : collectDefaults typFtv preds (insertDefault id (.con const) defaults) =
              .ok result := by
            simp only [found] at collected
            split at collected
            · split_ifs at collected
              exact collected
            · exact collected
          obtain ⟨sortedResult, keys⟩ := hypothesis (sorted.insert id const) inserted
          refine ⟨sortedResult, fun other => ?_⟩
          rw [keys, mem_keys_insertDefault]
          simp only [List.mem_cons, exists_eq_or_imp, found, Option.some.injEq, Prod.mk.injEq]
          constructor
          · rintro ((rfl | member) | asked)
            · exact .inr (.inl ⟨_, rfl, rfl⟩)
            · exact .inl member
            · exact .inr (.inr asked)
          · rintro (member | ⟨_, rfl, -⟩ | asked)
            · exact .inl (.inr member)
            · exact .inl (.inl rfl)
            · exact .inr asked

/-- Exactly the collected variables become bound. -/
theorem unifyDefaults_ok {fuel : Nat} {defaults : Subst} {unifier after : Unifier}
    (acyclic : unifier.Acyclic) (sorted : WellSorted defaults)
    (unbound : ∀ id ∈ defaults.map Prod.fst, unifier.lookup id = none)
    (unified : unifyDefaults fuel defaults unifier = .ok after) :
    after.Acyclic ∧ ∀ id, after.lookup id = none ↔
      unifier.lookup id = none ∧ id ∉ defaults.map Prod.fst := by
  induction defaults generalizing unifier with
  | nil =>
      cases unified
      simp [acyclic]
  | cons entry defaults hypothesis =>
      obtain ⟨id, typ⟩ := entry
      obtain ⟨const, isConst⟩ := sorted.consts _ List.mem_cons_self
      obtain rfl : typ = .con const := isConst
      obtain ⟨next, isNext, unified⟩ := exists_of_bind_eq_ok unified
      have isSorted := List.pairwise_cons.mp sorted.sorted
      obtain ⟨nextAcyclic, boundNext⟩ :=
        Unifier.unify_unbound acyclic (unbound id List.mem_cons_self) isNext
      have rest : WellSorted defaults :=
        ⟨isSorted.2, fun entry member => sorted.consts entry (.tail _ member)⟩
      have unboundNext : ∀ other ∈ defaults.map Prod.fst, next.lookup other = none := by
        intro other member
        have later := isSorted.1 other member
        exact (boundNext other).mpr ⟨unbound other (List.mem_cons_of_mem _ member), later.ne'⟩
      obtain ⟨afterAcyclic, boundAfter⟩ := hypothesis nextAcyclic rest unboundNext unified
      refine ⟨afterAcyclic, fun other => ?_⟩
      rw [boundAfter, boundNext, List.map_cons, List.mem_cons]
      tauto

/-! ## What is bound -/

section Binding

variable {preds : List Predicate} {typ : Typ} {unifier : Unifier}

theorem exists_defaultOf_iff {resolved : List Predicate} {id : TypeVarId}
    (isResolved : ∀ pred, pred ∈ resolved ↔
      ∃ source ∈ preds, pred = ⟨source.className, unifier.resolve source.typ⟩) :
    (∃ pred ∈ resolved, ∃ default, defaultOf (unifier.resolve typ).ftv pred = some (id, default)) ↔
      IsOutsideLiteral preds typ unifier id := by
  constructor
  · rintro ⟨pred, member, default, asked⟩
    obtain ⟨source, isSource, rfl⟩ := (isResolved pred).mp member
    rw [defaultOf] at asked
    split at asked
    · next typeVar isVar =>
        split_ifs at asked with inTyp
        obtain ⟨_, isDefault, same⟩ := Option.map_eq_some_iff.mp asked
        cases same
        exact ⟨source, isSource, typeVar, isVar, rfl, by rw [isDefault]; rfl, inTyp⟩
    · cases asked
  · rintro ⟨source, isSource, typeVar, isVar, rfl, isLiteral, outside⟩
    obtain ⟨default, isDefault⟩ := Option.isSome_iff_exists.mp isLiteral
    refine ⟨_, (isResolved _).mpr ⟨source, isSource, rfl⟩, default, ?_⟩
    simp only [defaultOf, isVar, if_neg outside, isDefault, Option.map_some]

/-- The steps of the function. -/
theorem exists_steps {fuel : Nat} {result : (List Predicate × Typ) × Unifier}
    (found : defaultLiteralConstraintsOutsideType fuel preds typ unifier = .ok result) :
    ∃ defaults next,
      collectDefaults (unifier.prune typ).1.ftv
        (dedupPreds (resolvePreds preds (unifier.prune typ).2).1) [] = .ok defaults ∧
      unifyDefaults fuel defaults (resolvePreds preds (unifier.prune typ).2).2 = .ok next ∧
      result.2 = (resolvePreds (dedupPreds (resolvePreds preds (unifier.prune typ).2).1)
        (next.prune (unifier.prune typ).1).2).2 := by
  obtain ⟨defaults, isDefaults, found⟩ := exists_of_bind_eq_ok found
  obtain ⟨next, isNext, found⟩ := exists_of_bind_eq_ok found
  cases found
  exact ⟨defaults, next, isDefaults, isNext, rfl⟩

/-- The variables that defaulting binds are those of literals outside the type. -/
theorem binds_iff_isOutsideLiteral (acyclic : unifier.Acyclic) {fuel : Nat}
    {result : (List Predicate × Typ) × Unifier}
    (found : defaultLiteralConstraintsOutsideType fuel preds typ unifier = .ok result)
    (id : TypeVarId) :
    unifier.Binds result.2 id ↔ IsOutsideLiteral preds typ unifier id := by
  obtain ⟨isTyp, keepsTyp⟩ := Unifier.keeps_prune acyclic typ
  obtain ⟨isPreds, keepsPreds⟩ := Unifier.keeps_resolvePreds keepsTyp.acyclic preds
  have keeps := keepsTyp.trans keepsPreds
  have isResolved : ∀ pred, pred ∈ dedupPreds (resolvePreds preds (unifier.prune typ).2).1 ↔
      ∃ source ∈ preds, pred = ⟨source.className, unifier.resolve source.typ⟩ := by
    intro pred
    rw [dedupPreds, List.mem_eraseDups, isPreds, List.mem_map]
    simp only [keepsTyp.resolve_eq, eq_comm]
  obtain ⟨defaults, next, isDefaults, isNext, isResult⟩ := exists_steps found
  rw [isTyp] at isDefaults
  obtain ⟨sorted, keys⟩ := collectDefaults_ok ⟨List.Pairwise.nil, by simp⟩ isDefaults
  have asked : ∀ id, id ∈ defaults.map Prod.fst ↔ IsOutsideLiteral preds typ unifier id := by
    intro id
    rw [keys, ← exists_defaultOf_iff isResolved]
    simp
  have unbound : ∀ id ∈ defaults.map Prod.fst, unifier.lookup id = none := by
    intro id member
    obtain ⟨source, -, typeVar, isVar, rfl, -⟩ := (asked id).mp member
    obtain ⟨rank, ranked⟩ := acyclic
    have member : typeVar.id ∈ (unifier.resolve source.typ).ftv := by simp [isVar, Typ.ftv]
    exact Unifier.unbound_of_mem_resolve ranked member
  obtain ⟨nextAcyclic, boundNext⟩ := unifyDefaults_ok keeps.acyclic sorted
    (fun id member => (keeps.lookup_eq_none acyclic id).mpr (unbound id member)) isNext
  obtain ⟨-, keepsLast⟩ := Unifier.keeps_prune nextAcyclic (unifier.prune typ).1
  obtain ⟨-, keepsFinal⟩ := Unifier.keeps_resolvePreds keepsLast.acyclic
    (dedupPreds (resolvePreds preds (unifier.prune typ).2).1)
  have final := (keepsLast.trans keepsFinal).lookup_eq_none nextAcyclic id
  rw [Unifier.Binds, isResult, ne_eq, final, boundNext, keeps.lookup_eq_none acyclic, ← asked]
  have isUnbound := unbound id
  tauto

end Binding

/-- Defaulting binds no free variable of the environment exactly when the
definition has no literal's predicate about one that its type does not mention. -/
theorem conservative_iff (env : TypeEnv) {preds : List Predicate} {typ : Typ} {unifier : Unifier}
    (acyclic : unifier.Acyclic) {fuel : Nat} {result : (List Predicate × Typ) × Unifier}
    (found : defaultLiteralConstraintsOutsideType fuel preds typ unifier = .ok result) :
    (∀ id, unifier.Binds result.2 id → ¬env.HasFree unifier id) ↔
      ∀ id, env.HasFree unifier id → ¬IsOutsideLiteral preds typ unifier id := by
  constructor
  · intro conservative id isFree outside
    exact conservative id ((binds_iff_isOutsideLiteral acyclic found id).mpr outside) isFree
  · intro noLiteral id binds isFree
    exact noLiteral id isFree ((binds_iff_isOutsideLiteral acyclic found id).mp binds)

/-! ## A parameter compared with a literal -/

/-- The scheme of `==`. -/
def equalityScheme : Scheme :=
  ⟨[⟨0, some "a"⟩], [⟨"Eq", .var ⟨0, some "a"⟩⟩],
    .func (.var ⟨0, some "a"⟩) (.func (.var ⟨0, some "a"⟩) (.builtin .bool))⟩

/-- `apply_typed_app_arg`, for an argument that is not widened: the type of the
application. -/
def applyAppArg (fuel : Nat) (funcTy argTy : Typ) (supply : TypeVarSupply) (unifier : Unifier) :
    Except TypeError (Typ × TypeVarSupply × Unifier) := do
  let (argTy, unifier) := unifier.prune argTy
  let (result, supply) := supply.fresh (some "r")
  let unifier ← unifier.unify fuel funcTy (.func argTy (.var result))
  let (resultTy, unifier) := unifier.prune (.var result)
  return (resultTy, supply, unifier)

/-- What inference does at `x == 1`, for a variable `x` of the type of a parameter. -/
def inferComparison (fuel : Nat) (param : TypeVar) (supply : TypeVarSupply) (unifier : Unifier) :
    Except TypeError ((List Predicate × Typ) × Unifier) := do
  let ((preds, equality), supply) := instantiate equalityScheme supply
  let (applied, supply, unifier) ← applyAppArg fuel equality (.var param) supply unifier
  let (literal, supply) := supply.fresh (some "n")
  let (typ, _, unifier) ← applyAppArg fuel applied (.var literal) supply unifier
  return ((preds ++ [⟨"Integral", .var literal⟩], typ), unifier)

/-- The variable of the parameter `x`. -/
def comparedParam : TypeVar :=
  ⟨0, some "x"⟩

/-- The environment in the body of a lambda with the parameter `x`. -/
def comparedEnv : TypeEnv :=
  [("x", [⟨[], [], .var comparedParam⟩])]

/-- The theorem at a definition of type `bool` with a literal's predicate about
the parameter. -/
theorem conservative_iff_compared :
    ∃ result, defaultLiteralConstraintsOutsideType 5 [⟨"Integral", .var comparedParam⟩]
        (.builtin .bool) .empty = .ok result ∧
      ((∀ id, Unifier.empty.Binds result.2 id → ¬comparedEnv.HasFree .empty id) ↔
        ∀ id, comparedEnv.HasFree .empty id →
          ¬IsOutsideLiteral [⟨"Integral", .var comparedParam⟩] (.builtin .bool) .empty id) := by
  have returns : ∃ result, defaultLiteralConstraintsOutsideType 5
      [⟨"Integral", .var comparedParam⟩] (.builtin .bool) .empty = .ok result := ⟨_, rfl⟩
  obtain ⟨result, isResult⟩ := returns
  exact ⟨result, isResult, conservative_iff comparedEnv Unifier.acyclic_empty isResult⟩

/-- The definition of `b` in `\x -> let b = x == 1 in b` gives the parameter the
type `i32`. -/
theorem not_conservative_comparison :
    ∃ preds typ unifier result,
      inferComparison 5 comparedParam ⟨1⟩ .empty = .ok ((preds, typ), unifier) ∧
      defaultLiteralConstraintsOutsideType 5 preds typ unifier = .ok result ∧
      (∃ id, comparedEnv.HasFree unifier id ∧ unifier.Binds result.2 id) ∧
      result.2.resolve (.var comparedParam) = .builtin .i32 := by
  refine ⟨_, _, _, _, rfl, rfl, ⟨3, ?_, ?_⟩, rfl⟩
  · refine ⟨_, List.mem_cons_self, _, List.mem_cons_self, .inl ?_, by simp⟩
    decide
  · exact ⟨rfl, by decide⟩

end RexLang
