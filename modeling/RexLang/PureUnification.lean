import RexLang.EquationSolving

/-!
# The pure unifier solves equations

The pure `unify` composes substitutions along the way that its equations are
solved.  It leaves that way where a record meets an application whose head
variable occurs in the record: the fields are unified without the binding of
the head.
-/

namespace RexLang

namespace Equation

/-! ## Composition of substitutions -/

/-- A substitution of the program as a function. -/
def assignment (subst : Subst) : Assignment :=
  fun typeVar => (Typ.var typeVar).apply subst

theorem apply_eq_bindVars (subst : Subst) (typ : Typ) :
    typ.apply subst = typ.bindVars (assignment subst) :=
  Typ.apply_eq_bindVars subst typ

@[simp]
theorem assignment_nil : assignment [] = .var := rfl

theorem lookup_map_apply (second first : Subst) (id : TypeVarId) :
    (first.map fun entry => (entry.1, entry.2.apply second)).lookup id =
      (first.lookup id).map (Typ.apply second) := by
  induction first with
  | nil => rfl
  | cons entry first hypothesis =>
      obtain ⟨other, typ⟩ := entry
      rw [List.map_cons, List.lookup_cons, List.lookup_cons]
      cases id == other with
      | true => rfl
      | false => exact hypothesis

theorem apply_nil (typ : Typ) : typ.apply [] = typ := by
  rw [apply_eq_bindVars, assignment_nil, Typ.bindVars_var_self]

theorem lookup_composeSubst (second first : Subst) (id : TypeVarId) :
    (composeSubst second first).lookup id =
      (second.lookup id).or ((first.lookup id).map (Typ.apply second)) := by
  rw [composeSubst]
  cases second with
  | nil =>
      simp only [List.isEmpty_nil, if_true, List.lookup_nil, Option.none_or]
      cases first.lookup id with
      | none => rfl
      | some typ => rw [Option.map_some, apply_nil]
  | cons entry second =>
      cases first with
      | nil => simp
      | cons entry' first =>
          rw [if_neg (by simp), if_neg (by simp), List.lookup_append, lookup_map_apply]

/-- `compose_subst` is composition, for substitutions of different variables. -/
theorem assignment_composeSubst {second first : Subst}
    (disjoint : ∀ id, first.lookup id ≠ none → second.lookup id = none) :
    assignment (composeSubst second first) = andThen (assignment first) (assignment second) := by
  funext typeVar
  rw [andThen, ← apply_eq_bindVars, assignment, assignment, Typ.apply, Typ.apply,
    lookup_composeSubst]
  cases found : first.lookup typeVar.id with
  | none =>
      rw [Option.map_none, Option.or_none, Option.getD_none, Typ.apply]
  | some typ =>
      rw [disjoint typeVar.id (by simp [found])]
      rfl

/-- A variable that the substitution maps to itself under every name is not in it. -/
theorem lookup_eq_none {subst : Subst} {id : TypeVarId}
    (unchanged : ∀ typeVar : TypeVar, typeVar.id = id → assignment subst typeVar = .var typeVar) :
    subst.lookup id = none := by
  cases found : subst.lookup id with
  | none => rfl
  | some typ =>
      have unnamed := unchanged ⟨id, none⟩ rfl
      have named := unchanged ⟨id, some ""⟩ rfl
      simp only [assignment, Typ.apply, found, Option.getD_some] at unnamed named
      rw [unnamed] at named
      simp at named

theorem assignment_composeSubst_of_resolves {vars : Finset TypeVarId} {subst next : Subst}
    {equations : List Equation} (resolves : Resolves vars (assignment subst))
    (solved : Resolves (ftvAll (equations.map (bindVars (assignment subst)))) (assignment next)) :
    assignment (composeSubst next subst) = andThen (assignment subst) (assignment next) := by
  refine assignment_composeSubst fun id bound => lookup_eq_none fun typeVar same => ?_
  refine solved.outside typeVar fun member => bound (lookup_eq_none fun other isSame => ?_)
  obtain ⟨source, -, inImage⟩ := mem_ftvAll_bindVars member
  exact resolves.fixed source other (by rwa [isSame, ← same])

/-! ## The loops -/

/-- A run of the pure unifier gives the result of solving. -/
def Agrees (result : Except TypeError Subst) (expected : Option Assignment) : Prop :=
  match result, expected with
  | .ok subst, some assign => assignment subst = assign
  | .error error, none => error ≠ .outOfFuel
  | _, _ => False

theorem cases_of_agrees {result : Except TypeError Subst} {expected : Option Assignment}
    (agrees : Agrees result expected) :
    (∃ error, result = .error error ∧ error ≠ .outOfFuel ∧ expected = none) ∨
      ∃ subst, result = .ok subst ∧ expected = some (assignment subst) := by
  cases result with
  | error error =>
      cases expected with
      | none => exact .inl ⟨error, rfl, agrees, rfl⟩
      | some assign => exact agrees.elim
  | ok subst =>
      cases expected with
      | none => exact agrees.elim
      | some assign => exact .inr ⟨subst, rfl, congrArg some agrees.symm⟩

/-- What is known of the unifier at the parts of an equation. -/
def PureSolves (unify : Typ → Typ → Except TypeError Subst) (first second : Typ)
    (result : Option Assignment) : Prop :=
  Agrees (unify first second) result ∧ ∀ assign ∈ result, Resolves (ftv (first, second)) assign

section Loops

variable {unify : Typ → Typ → Except TypeError Subst} {vars : Finset TypeVarId} {subst : Subst}

/-- One round of a loop with the substitution found so far. -/
theorem cases_of_round {first second : Typ} {rest : List Equation} {result : Option Assignment}
    (resolves : Resolves vars (assignment subst))
    (subset : ftvAll ((first, second) :: rest) ⊆ vars)
    (steps : Steps (PureSolves unify)
      (((first, second) :: rest).map (bindVars (assignment subst))) result) :
    (∃ error, unify (first.apply subst) (second.apply subst) = .error error ∧
        error ≠ .outOfFuel ∧ result = none) ∨
      ∃ next nextResult, unify (first.apply subst) (second.apply subst) = .ok next ∧
        assignment (composeSubst next subst) = andThen (assignment subst) (assignment next) ∧
        Resolves vars (assignment (composeSubst next subst)) ∧
        Steps (PureSolves unify)
          (rest.map (bindVars (assignment (composeSubst next subst)))) nextResult ∧
        result.map (andThen (assignment subst)) =
          nextResult.map (andThen (assignment (composeSubst next subst))) := by
  rw [List.map_cons] at steps
  simp only [apply_eq_bindVars]
  cases steps with
  | fail failed =>
      rcases cases_of_agrees failed.1 with ⟨error, isError, fuelLeft, -⟩ | ⟨next, -, absurd⟩
      · exact .inl ⟨error, isError, fuelLeft, rfl⟩
      · cases absurd
  | @next _ _ _ assign nextResult solved steps =>
      rcases cases_of_agrees solved.1 with ⟨error, -, -, absurd⟩ | ⟨next, isNext, isAssign⟩
      · cases absurd
      · cases isAssign
        have nextResolves : Resolves (ftvAll ([(first, second)].map (bindVars (assignment subst))))
            (assignment next) :=
          (solved.2 _ rfl).mono Finset.subset_union_left
        have headSubset : ftvAll [(first, second)] ⊆ vars := by
          simpa [ftvAll] using subset.trans' Finset.subset_union_left
        have composed := assignment_composeSubst_of_resolves resolves nextResolves
        refine .inr ⟨next, nextResult, isNext, composed, ?_, ?_, ?_⟩
        · rw [composed]
          exact resolves.andThen headSubset nextResolves
        · rwa [composed, map_bindVars_andThen]
        · rw [composed]
          cases nextResult with
          | none => rfl
          | some assign => simp [andThen_assoc]

theorem agrees_unifyElems {elems elems' : List Typ} {result : Option Assignment}
    (resolves : Resolves vars (assignment subst)) (subset : ftvAll (elems.zip elems') ⊆ vars)
    (steps : Steps (PureSolves unify)
      ((elems.zip elems').map (bindVars (assignment subst))) result) :
    Agrees (unifyElems unify subst elems elems') (result.map (andThen (assignment subst))) := by
  induction elems generalizing elems' subst result with
  | nil =>
      cases steps
      exact (andThen_var _).symm
  | cons elem elems hypothesis =>
      cases elems' with
      | nil =>
          cases steps
          exact (andThen_var _).symm
      | cons elem' elems' =>
          rw [List.zip_cons_cons] at subset steps
          rw [unifyElems]
          rcases cases_of_round resolves subset steps with
            ⟨error, isError, fuelLeft, rfl⟩ | ⟨next, nextResult, isNext, -, nextResolves, steps, same⟩
          · rw [isError]
            exact fuelLeft
          · rw [isNext, same]
            exact hypothesis nextResolves (subset.trans' Finset.subset_union_right) steps

theorem agrees_unifyFields {fields fields' : List (Symbol × Typ)} {result : Option Assignment}
    (rejects : ∀ result, Agrees (unify unsolvable.1 unsolvable.2) result → result = none)
    (resolves : Resolves vars (assignment subst)) (subset : ftvAll (fieldEquations fields fields') ⊆ vars)
    (steps : Steps (PureSolves unify)
      ((fieldEquations fields fields').map (bindVars (assignment subst))) result) :
    Agrees (unifyFields unify subst fields fields') (result.map (andThen (assignment subst))) := by
  induction fields generalizing fields' subst result with
  | nil =>
      cases steps
      exact (andThen_var _).symm
  | cons field fields hypothesis =>
      cases fields' with
      | nil =>
          cases steps
          exact (andThen_var _).symm
      | cons field' fields' =>
          obtain ⟨name, typ⟩ := field
          obtain ⟨name', typ'⟩ := field'
          rw [fieldEquations] at subset steps
          rw [unifyFields]
          by_cases sameName : name = name'
          · rw [if_pos sameName] at subset steps
            rw [if_neg (not_not_intro sameName)]
            rcases cases_of_round resolves subset steps with
              ⟨error, isError, fuelLeft, rfl⟩ | ⟨next, nextResult, isNext, -, nextResolves, steps, same⟩
            · change Agrees (unify (typ.apply subst) (typ'.apply subst) >>= _) _
              rw [isError]
              exact fuelLeft
            · change Agrees (unify (typ.apply subst) (typ'.apply subst) >>= _) _
              rw [isNext, same]
              exact hypothesis nextResolves (subset.trans' Finset.subset_union_right) steps
          · rw [if_neg sameName, List.map_singleton] at steps
            obtain rfl := rejects result steps.of_singleton.1
            rw [if_pos sameName]
            exact TypeError.noConfusion

/-- The loop over the fields of a record goes on from a type that the
substitution so far does not tell from the first. -/
theorem agrees_recordElemTypeLoop {first current : Typ} {fields : List (Symbol × Typ)}
    {result : Option Assignment} (same : current.apply subst = first.apply subst)
    (resolves : Resolves vars (assignment subst)) (subset : ftvAll (elemEquations first fields) ⊆ vars)
    (steps : Steps (PureSolves unify)
      ((elemEquations first fields).map (bindVars (assignment subst))) result) :
    match recordElemTypeLoop unify subst current fields with
    | .ok (found, elem) => result.map (andThen (assignment subst)) = some (assignment found) ∧
        elem = first.apply found ∧ Resolves vars (assignment found)
    | .error error => result.map (andThen (assignment subst)) = none ∧ error ≠ .outOfFuel := by
  induction fields generalizing subst current result with
  | nil =>
      cases steps
      exact ⟨congrArg some (andThen_var _), same, resolves⟩
  | cons field fields hypothesis =>
      obtain ⟨name, typ⟩ := field
      rw [recordElemTypeLoop, same]
      rcases cases_of_round resolves subset steps with
        ⟨error, isError, fuelLeft, rfl⟩ |
          ⟨next, nextResult, isNext, composed, nextResolves, steps, sameResult⟩
      · rw [isError]
        exact ⟨rfl, fuelLeft⟩
      · rw [isNext, sameResult]
        refine hypothesis ?_ nextResolves (subset.trans' Finset.subset_union_right) steps
        have sameNext : current.apply (composeSubst next subst) =
            first.apply (composeSubst next subst) := by
          rw [apply_eq_bindVars, apply_eq_bindVars, composed, bindVars_andThen, bindVars_andThen,
            ← apply_eq_bindVars subst, ← apply_eq_bindVars subst, same]
        rw [sameNext, apply_eq_bindVars, apply_eq_bindVars]
        exact nextResolves.idempotent first

/-- The fields of a record and then the argument of the dictionary. -/
theorem cases_of_elements {name : Symbol} {first arg : Typ} {rest : List (Symbol × Typ)}
    {result : Option Assignment}
    (steps : Steps (PureSolves unify) (elemEquations first rest ++ [(arg, first)]) result) :
    (∃ error, (recordElemType unify ((name, first) :: rest) = .error error ∨
        ∃ found elem, recordElemType unify ((name, first) :: rest) = .ok (found, elem) ∧
          unify (arg.apply found) elem = .error error) ∧
        error ≠ .outOfFuel ∧ result = none) ∨
      ∃ found elem argSubst, recordElemType unify ((name, first) :: rest) = .ok (found, elem) ∧
        unify (arg.apply found) elem = .ok argSubst ∧
        Resolves (ftvAll (elemEquations first rest)) (assignment found) ∧
        Resolves (ftvAll ([(arg, first)].map (bindVars (assignment found)))) (assignment argSubst) ∧
        result = some (andThen (assignment found) (assignment argSubst)) := by
  have loop : ∀ {result : Option Assignment},
      Steps (PureSolves unify) (elemEquations first rest) result →
      match recordElemType unify ((name, first) :: rest) with
      | .ok (found, elem) => result = some (assignment found) ∧
          elem = first.apply found ∧ Resolves (ftvAll (elemEquations first rest)) (assignment found)
      | .error error => result = none ∧ error ≠ .outOfFuel := by
    intro result steps
    have looped := @agrees_recordElemTypeLoop unify _ [] first first rest result rfl
      (resolves_var _) (Finset.Subset.refl _) (by simpa using steps)
    rwa [assignment_nil, map_var_andThen] at looped
  rcases steps.of_append with ⟨failed, rfl⟩ | ⟨assign, next, solved, lastSteps, rfl⟩
  · have looped := loop failed
    cases ran : recordElemType unify ((name, first) :: rest) with
    | error error =>
        rw [ran] at looped
        exact .inl ⟨error, .inl rfl, looped.2, rfl⟩
    | ok pair =>
        rw [ran] at looped
        cases looped.1
  · have looped := loop solved
    cases ran : recordElemType unify ((name, first) :: rest) with
    | error error =>
        rw [ran] at looped
        cases looped.1
    | ok pair =>
        obtain ⟨found, elem⟩ := pair
        rw [ran] at looped
        obtain ⟨isAssign, rfl, resolves⟩ := looped
        cases isAssign
        have last : PureSolves unify (arg.apply found) (first.apply found) next := by
          rw [apply_eq_bindVars, apply_eq_bindVars]
          exact lastSteps.of_singleton
        rcases cases_of_agrees last.1 with ⟨error, isError, fuelLeft, rfl⟩ | ⟨argSubst, isArg, rfl⟩
        · exact .inl ⟨error, .inr ⟨found, _, rfl, isError⟩, fuelLeft, rfl⟩
        · refine .inr ⟨found, _, argSubst, rfl, isArg, resolves, ?_, rfl⟩
          have argResolves := last.2 _ rfl
          rw [apply_eq_bindVars, apply_eq_bindVars] at argResolves
          exact argResolves.mono Finset.subset_union_left

end Loops

theorem assignment_singleton (id : TypeVarId) (typ : Typ) :
    assignment [(id, typ)] = Unifier.assignOne id typ := by
  funext typeVar
  rw [assignment, Typ.apply, List.lookup_cons, Unifier.assignOne]
  by_cases same : typeVar.id = id
  · simp [same]
  · have differs : (typeVar.id == id) = false := by simpa using same
    rw [differs, if_neg same]
    rfl

theorem bind_dict (typeVar : TypeVar) :
    RexLang.bind typeVar (.builtin .dict) = .ok [(typeVar.id, .builtin .dict)] := by
  simp [RexLang.bind, Typ.builtin, Typ.ftv]

/-- What the unifier does with the equation of a head variable and `Dict`. -/
structure HandlesHead (unify : Typ → Typ → Except TypeError Subst) : Prop where
  rejects : ∀ result, Agrees (unify unsolvable.1 unsolvable.2) result → result = none
  binds : ∀ typeVar result, Agrees (unify (.var typeVar) (.builtin .dict)) result →
    result = some (assignment [(typeVar.id, .builtin .dict)])

theorem agrees_unifyRecordApp {unify : Typ → Typ → Except TypeError Subst}
    (handles : HandlesHead unify) {fields : List (Symbol × Typ)} {head arg : Typ}
    {equations : List Equation} {result : Option Assignment} {mismatch : TypeError}
    (moved : recordAppMove fields head arg = .split equations)
    (apart : ∀ typeVar, head = .var typeVar → typeVar.id ∉ (Typ.record fields).ftv)
    (steps : Steps (PureSolves unify) equations result) :
    Agrees (unifyRecordApp unify fields head arg mismatch) result := by
  unfold recordAppMove at moved
  split at moved
  · next name first rest const =>
      split_ifs at moved with isDict
      cases moved
      rw [unifyRecordApp, if_pos isDict]
      rcases @cases_of_elements unify name _ _ _ _ steps with
        ⟨error, ran | ⟨found, elem, ran, isError⟩, fuelLeft, rfl⟩ |
          ⟨found, elem, argSubst, ran, isArg, resolves, argResolves, rfl⟩
      · rw [ran]
        exact fuelLeft
      · rw [ran]
        change Agrees (unify (arg.apply found) elem >>= _) none
        rw [isError]
        exact fuelLeft
      · rw [ran]
        change Agrees (unify (arg.apply found) elem >>= _) _
        rw [isArg]
        exact assignment_composeSubst_of_resolves resolves argResolves
  · next name first rest typeVar =>
      cases moved
      have isAbsent : typeVar.id ∉ ftvAll (elemEquations first rest) := by
        intro member
        obtain ⟨equation, isElem, member⟩ := mem_ftvAll.mp member
        obtain ⟨field, isField, rfl⟩ := List.mem_map.mp isElem
        apply apart typeVar rfl
        rcases Finset.mem_union.mp member with member | member
        · exact ftv_subset_of_field List.mem_cons_self member
        · exact ftv_subset_of_field (.tail _ isField) member
      have firstAbsent : typeVar.id ∉ first.ftv := fun member =>
        apart typeVar rfl (ftv_subset_of_field List.mem_cons_self member)
      cases steps with
      | fail failed => cases handles.binds typeVar none failed.1
      | @next _ _ _ assign nextResult solved steps =>
          cases handles.binds typeVar _ solved.1
          have unbound : ∀ other : TypeVar, other.id ≠ typeVar.id →
              assignment [(typeVar.id, .builtin .dict)] other = .var other := by
            intro other different
            rw [assignment_singleton, Unifier.assignOne, if_neg different]
          have elemsSame : (elemEquations first rest).map
              (bindVars (assignment [(typeVar.id, .builtin .dict)])) = elemEquations first rest :=
            map_bindVars_of_unbound fun other member =>
              unbound other fun same => isAbsent (same ▸ member)
          have firstSame : first.bindVars (assignment [(typeVar.id, .builtin .dict)]) = first :=
            (Typ.bindVars_congr fun other member =>
              unbound other fun same => firstAbsent (same ▸ member)).trans (Typ.bindVars_var_self _)
          have headResolves : Resolves (insert typeVar.id (ftvAll (elemEquations first rest)))
              (assignment [(typeVar.id, .builtin .dict)]) := by
            rw [assignment_singleton]
            exact resolves_assignOne (Finset.notMem_empty _) (Finset.mem_insert_self _ _)
              (Finset.empty_subset _)
          rw [List.map_append, elemsSame, List.map_singleton, bindVars, firstSame,
            ← apply_eq_bindVars] at steps
          rw [unifyRecordApp, bind_dict]
          rcases @cases_of_elements unify name _ _ _ _ steps with
            ⟨error, ran | ⟨found, elem, ran, isError⟩, fuelLeft, rfl⟩ |
              ⟨found, elem, argSubst, ran, isArg, resolves, argResolves, rfl⟩
          · change Agrees (recordElemType unify ((name, first) :: rest) >>= _) _
            rw [ran]
            exact fuelLeft
          · change Agrees (recordElemType unify ((name, first) :: rest) >>= _) _
            rw [ran]
            change Agrees (unify ((arg.apply _).apply found) elem >>= _) _
            rw [isError]
            exact fuelLeft
          · change Agrees (recordElemType unify ((name, first) :: rest) >>= _) _
            rw [ran]
            change Agrees (unify ((arg.apply _).apply found) elem >>= _) _
            rw [isArg]
            rw [← elemsSame] at resolves
            have composed := assignment_composeSubst_of_resolves headResolves resolves
            have bothResolve := headResolves.andThen (Finset.subset_insert _ _) resolves
            rw [← composed] at bothResolve
            have images : [(arg, first)].map (bindVars (assignment
                (composeSubst found [(typeVar.id, .builtin .dict)]))) =
                  [(arg.apply [(typeVar.id, .builtin .dict)], first)].map
                    (bindVars (assignment found)) := by
              simp only [composed, List.map_singleton, bindVars, bindVars_andThen, firstSame,
                ← apply_eq_bindVars]
            rw [← images] at argResolves
            have argComposed := assignment_composeSubst_of_resolves bothResolve argResolves
            rw [composed, andThen_assoc] at argComposed
            exact argComposed
  · cases moved

/-! ## The pure unifier -/

/-- A record with an application of one of the record's own variables. -/
def OwnHead : Typ → Typ → Prop
  | .record fields, .app (.var typeVar) _ => typeVar.id ∈ (Typ.record fields).ftv
  | .app (.var typeVar) _, .record fields => typeVar.id ∈ (Typ.record fields).ftv
  | _, _ => False

/-- No equation that is taken up is such an application. -/
def KeepsHeads (first second : Typ) : Prop :=
  ∀ left right, TakesUp left right [(first, second)] → ¬OwnHead left right

theorem unify_var (fuel : Nat) (typeVar : TypeVar) (typ : Typ) :
    unify (fuel + 1) (.var typeVar) typ = RexLang.bind typeVar typ := by
  cases typ <;> rfl

theorem unify_of_var {typ : Typ} (notVar : ∀ typeVar, typ ≠ .var typeVar) (fuel : Nat)
    (typeVar : TypeVar) : unify (fuel + 1) typ (.var typeVar) = RexLang.bind typeVar typ := by
  cases typ with
  | var other => exact (notVar other rfl).elim
  | _ => rfl

/-- `bind` does what the equation of the variable moves to. -/
theorem agrees_bind (typeVar : TypeVar) (typ : Typ) :
    match varMove typeVar typ with
    | .bind id bound => Agrees (RexLang.bind typeVar typ) (some (Unifier.assignOne id bound))
    | .split _ => Agrees (RexLang.bind typeVar typ) (some .var)
    | .clash => Agrees (RexLang.bind typeVar typ) none := by
  have occurring : (∀ other, typ ≠ .var other) → RexLang.bind typeVar typ =
      if typeVar.id ∈ typ.ftv then .error (.occurs typeVar.id typ.display)
      else .ok [(typeVar.id, typ)] := by
    intro notVar
    cases typ with
    | var other => exact (notVar other rfl).elim
    | _ => rfl
  cases typ with
  | var other =>
      rw [varMove]
      by_cases same : typeVar.id = other.id
      · simp [same, RexLang.bind, Agrees]
      · have differs : other.id ≠ typeVar.id := fun equal => same equal.symm
        simp [same, differs, RexLang.bind, Typ.ftv, Agrees, assignment_singleton]
  | _ =>
      rw [occurring (by simp)]
      simp only [varMove]
      split_ifs
      · exact TypeError.noConfusion
      · exact assignment_singleton _ _

theorem handlesHead_unify (fuel : Nat) : HandlesHead (unify fuel) := by
  cases fuel with
  | zero =>
      constructor
      · intro result agrees
        rcases cases_of_agrees agrees with ⟨error, same, fuelLeft, rfl⟩ | ⟨subst, same, -⟩
        · rfl
        · cases same
      · intro typeVar result agrees
        rcases cases_of_agrees agrees with ⟨error, same, fuelLeft, rfl⟩ | ⟨subst, same, -⟩
        · cases same
          exact (fuelLeft rfl).elim
        · cases same
  | succ fuel =>
      constructor
      · intro result agrees
        rcases cases_of_agrees agrees with ⟨error, same, fuelLeft, rfl⟩ | ⟨subst, same, -⟩
        · rfl
        · cases same
      · intro typeVar result agrees
        rw [unify_var, bind_dict] at agrees
        rcases cases_of_agrees agrees with ⟨error, same, fuelLeft, rfl⟩ | ⟨subst, same, rfl⟩
        · cases same
        · cases same
          rfl

/-- What one more level of the unifier does with an equation. -/
def FollowsMove (fuel : Nat) (first second : Typ) : Move → Prop
  | .bind id typ => Agrees (unify (fuel + 1) first second) (some (Unifier.assignOne id typ))
  | .clash => Agrees (unify (fuel + 1) first second) none
  | .split equations => ∀ result, Steps (PureSolves (unify fuel)) equations result →
      Agrees (unify (fuel + 1) first second) result

theorem composeSubst_nil (subst : Subst) : composeSubst subst [] = subst := by
  cases subst <;> rfl

theorem agrees_pair {unify : Typ → Typ → Except TypeError Subst} {one one' two two' : Typ}
    {result : Option Assignment} (steps : Steps (PureSolves unify) [(one, one'), (two, two')] result) :
    Agrees (do
      let first ← unify one one'
      let second ← unify (two.apply first) (two'.apply first)
      return composeSubst second first) result := by
  have agrees := @agrees_unifyElems unify _ [] [one, two] [one', two'] result (resolves_var _)
    (Finset.Subset.refl _) (by rwa [assignment_nil, map_bindVars_var])
  rw [assignment_nil, map_var_andThen] at agrees
  simpa only [unifyElems, apply_nil, composeSubst_nil, pure, Except.pure] using agrees

theorem agrees_unifyRecordApp_none {unify : Typ → Typ → Except TypeError Subst}
    {fields : List (Symbol × Typ)} {head arg : Typ} {mismatch : TypeError}
    (isMismatch : mismatch ≠ .outOfFuel) (moved : recordAppMove fields head arg = .clash) :
    Agrees (unifyRecordApp unify fields head arg mismatch) none := by
  cases head with
  | con const =>
      rw [unifyRecordApp]
      split_ifs with isDict
      · cases fields with
        | nil => exact TypeError.noConfusion
        | cons field fields => simp [recordAppMove, isDict] at moved
      · exact isMismatch
  | var typeVar =>
      cases fields with
      | nil =>
          rw [unifyRecordApp, bind_dict]
          exact TypeError.noConfusion
      | cons field fields => simp [recordAppMove] at moved
  | _ => exact isMismatch

theorem followsMove_recordApp (fuel : Nat) {first second : Typ} {fields : List (Symbol × Typ)}
    {head arg : Typ} {mismatch : TypeError} (isMismatch : mismatch ≠ .outOfFuel)
    (unfolded : unify (fuel + 1) first second = unifyRecordApp (unify fuel) fields head arg mismatch)
    (apart : ∀ typeVar, head = .var typeVar → typeVar.id ∉ (Typ.record fields).ftv) :
    FollowsMove fuel first second (recordAppMove fields head arg) := by
  cases moved : recordAppMove fields head arg with
  | bind id typ => exact (recordAppMove_ne_bind _ _ _ _ _ moved).elim
  | split equations =>
      intro result steps
      rw [unfolded]
      exact agrees_unifyRecordApp (handlesHead_unify fuel) moved apart steps
  | clash =>
      rw [FollowsMove, unfolded]
      exact agrees_unifyRecordApp_none isMismatch moved

theorem followsMove_partsMove (fuel : Nat) {first second : Typ}
    (notVarFirst : ∀ typeVar, first ≠ .var typeVar)
    (notVarSecond : ∀ typeVar, second ≠ .var typeVar) (apart : ¬OwnHead first second) :
    FollowsMove fuel first second (partsMove first second) := by
  cases first with
  | var typeVar => exact (notVarFirst typeVar rfl).elim
  | con const =>
      cases second with
      | var typeVar => exact (notVarSecond typeVar rfl).elim
      | con const' =>
          rw [partsMove]
          split_ifs with same
          · intro result steps
            cases steps
            simp [unify, same, Agrees]
          · simp [FollowsMove, unify, same, Agrees]
      | _ => exact TypeError.noConfusion
  | app head arg =>
      cases second with
      | var typeVar => exact (notVarSecond typeVar rfl).elim
      | app head' arg' => exact fun result steps => agrees_pair steps
      | record fields =>
          refine followsMove_recordApp fuel TypeError.noConfusion rfl fun typeVar isVar => ?_
          subst isVar
          exact apart
      | _ => exact TypeError.noConfusion
  | func arg ret =>
      cases second with
      | var typeVar => exact (notVarSecond typeVar rfl).elim
      | func arg' ret' => exact fun result steps => agrees_pair steps
      | _ => exact TypeError.noConfusion
  | tuple elems =>
      cases second with
      | var typeVar => exact (notVarSecond typeVar rfl).elim
      | tuple elems' =>
          rw [partsMove]
          split_ifs with sameLength
          · intro result steps
            have agrees := @agrees_unifyElems (unify fuel) _ [] _ _ _ (resolves_var _)
              (Finset.Subset.refl _) (by simpa using steps)
            simpa [unify, sameLength] using agrees
          · simp [FollowsMove, unify, sameLength, Agrees]
      | _ => exact TypeError.noConfusion
  | record fields =>
      cases second with
      | var typeVar => exact (notVarSecond typeVar rfl).elim
      | app head arg =>
          refine followsMove_recordApp fuel TypeError.noConfusion rfl fun typeVar isVar => ?_
          subst isVar
          exact apart
      | record fields' =>
          rw [partsMove]
          split_ifs with sameLength
          · intro result steps
            have agrees := @agrees_unifyFields (unify fuel) _ [] _ _ _
              (handlesHead_unify fuel).rejects (resolves_var _) (Finset.Subset.refl _)
              (by simpa using steps)
            simpa [unify, sameLength] using agrees
          · simp [FollowsMove, unify, sameLength, Agrees]
      | _ => exact TypeError.noConfusion

theorem followsMove_varMove {fuel : Nat} {first second typ : Typ} {typeVar : TypeVar}
    (unfolded : unify (fuel + 1) first second = RexLang.bind typeVar typ) :
    FollowsMove fuel first second (varMove typeVar typ) := by
  have bound := agrees_bind typeVar typ
  cases moved : varMove typeVar typ with
  | bind id other =>
      rw [FollowsMove, unfolded]
      simpa only [moved] using bound
  | split equations =>
      intro result steps
      rw [(varMove_eq_split moved).1] at steps
      cases steps
      rw [unfolded]
      simpa only [moved] using bound
  | clash =>
      rw [FollowsMove, unfolded]
      simpa only [moved] using bound

theorem followsMove_move (fuel : Nat) {first second : Typ} (apart : ¬OwnHead first second) :
    FollowsMove fuel first second (move first second) := by
  unfold move
  split
  · exact followsMove_varMove (unify_var _ _ _)
  · next notVar => exact followsMove_varMove (unify_of_var notVar _ _)
  · next notVarFirst notVarSecond =>
      exact followsMove_partsMove fuel notVarFirst notVarSecond apart

/-- The pure unifier gives the result of solving, with fuel for the depth. -/
theorem agrees_unify {depth fuel : Nat} {first second : Typ} {result : Option Assignment}
    (solves : Solves depth first second result) (keeps : KeepsHeads first second)
    (enough : depth ≤ fuel) : Agrees (unify fuel first second) result := by
  induction depth generalizing fuel first second result with
  | zero => exact solves.elim
  | succ depth hypothesis =>
      obtain ⟨fuel, rfl⟩ : ∃ other, fuel = other + 1 := ⟨fuel - 1, by omega⟩
      have follows := followsMove_move fuel (keeps _ _ .here)
      rw [Solves] at solves
      cases moved : move first second with
      | bind id typ =>
          simp only [moved] at solves follows
          rw [solves]
          exact follows
      | clash =>
          simp only [moved] at solves follows
          rw [solves]
          exact follows
      | split equations =>
          simp only [moved] at solves follows
          refine follows result ?_
          refine solves.mono_of_takesUp (fun _ _ takesUp => keeps _ _ (.part moved takesUp)) ?_
          intro left right result solves keeps
          refine ⟨hypothesis solves keeps (by omega), ?_⟩
          rintro assign ⟨⟩
          exact solves.resolves

end Equation

end RexLang
