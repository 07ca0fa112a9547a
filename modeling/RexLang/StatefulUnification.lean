import RexLang.EquationSolving

/-!
# The unifier of the inference engine solves equations

`Unifier::unify` keeps its bindings in a table and resolves types when it meets
them.  In every state it solves the equation of the resolved types, and the
new state resolves types to what the solution makes of the old ones.
-/

namespace RexLang

namespace Equation

/-- What the variables stand for in a state. -/
def view (unifier : Unifier) : Assignment :=
  fun typeVar => unifier.resolve (.var typeVar)

theorem resolve_eq_view (unifier : Unifier) (typ : Typ) :
    unifier.resolve typ = typ.bindVars (view unifier) := rfl

/-- A run from a state gives the result of solving. -/
def Reaches (unifier : Unifier) (result : Except TypeError Unifier)
    (expected : Option Assignment) : Prop :=
  match result, expected with
  | .ok next, some assign => next.Acyclic ∧ view next = andThen (view unifier) assign
  | .error error, none => error ≠ .outOfFuel
  | _, _ => False

theorem cases_of_reaches {unifier : Unifier} {result : Except TypeError Unifier}
    {expected : Option Assignment} (reaches : Reaches unifier result expected) :
    (∃ error, result = .error error ∧ error ≠ .outOfFuel ∧ expected = none) ∨
      ∃ next assign, result = .ok next ∧ expected = some assign ∧ next.Acyclic ∧
        view next = andThen (view unifier) assign := by
  cases result with
  | error error =>
      cases expected with
      | none => exact .inl ⟨error, rfl, reaches, rfl⟩
      | some assign => exact reaches.elim
  | ok next =>
      cases expected with
      | none => exact reaches.elim
      | some assign => exact .inr ⟨next, assign, rfl, rfl, reaches⟩

theorem Reaches.andThen {unifier next : Unifier} {assign : Assignment}
    {result : Except TypeError Unifier} {expected : Option Assignment}
    (viewNext : view next = andThen (view unifier) assign) (reaches : Reaches next result expected) :
    Reaches unifier result (expected.map (andThen assign)) := by
  rcases cases_of_reaches reaches with
    ⟨error, rfl, fuelLeft, rfl⟩ | ⟨last, following, rfl, rfl, acyclic, viewLast⟩
  · exact fuelLeft
  · exact ⟨acyclic, by rw [viewLast, viewNext, andThen_assoc]⟩

/-- States that resolve types alike may be exchanged. -/
theorem Reaches.of_view {unifier next : Unifier} {result : Except TypeError Unifier}
    {expected : Option Assignment} (same : view next = view unifier)
    (reaches : Reaches next result expected) : Reaches unifier result expected := by
  rcases cases_of_reaches reaches with
    ⟨error, rfl, fuelLeft, rfl⟩ | ⟨last, following, rfl, rfl, acyclic, viewLast⟩
  · exact fuelLeft
  · exact ⟨acyclic, by rw [viewLast, same]⟩

/-- What is known of the unifier at the parts of an equation, in every state. -/
def StateSolves (unify : Typ → Typ → Unifier → Except TypeError Unifier) (first second : Typ)
    (result : Option Assignment) : Prop :=
  ∀ unifier : Unifier, unifier.Acyclic → ∀ left right, unifier.resolve left = first →
    unifier.resolve right = second → Reaches unifier (unify left right unifier) result

section Loops

variable {unify : Typ → Typ → Unifier → Except TypeError Unifier} {unifier : Unifier}

/-- One round of a loop. -/
theorem cases_of_stateRound {left right : Typ} {rest : List Equation} {result : Option Assignment}
    (acyclic : unifier.Acyclic)
    (steps : Steps (StateSolves unify)
      (((left, right) :: rest).map (bindVars (view unifier))) result) :
    (∃ error, unify left right unifier = .error error ∧ error ≠ .outOfFuel ∧ result = none) ∨
      ∃ next nextResult, unify left right unifier = .ok next ∧ next.Acyclic ∧
        Steps (StateSolves unify) (rest.map (bindVars (view next))) nextResult ∧
        ∀ reached, Reaches next reached nextResult → Reaches unifier reached result := by
  rw [List.map_cons] at steps
  cases steps with
  | fail failed =>
      rcases cases_of_reaches (failed unifier acyclic left right rfl rfl) with
        ⟨error, isError, fuelLeft, -⟩ | ⟨next, assign, -, absurd, -⟩
      · exact .inl ⟨error, isError, fuelLeft, rfl⟩
      · cases absurd
  | @next _ _ _ assign nextResult solved steps =>
      rcases cases_of_reaches (solved unifier acyclic left right rfl rfl) with
        ⟨error, -, -, absurd⟩ | ⟨next, assign, isNext, isAssign, nextAcyclic, viewNext⟩
      · cases absurd
      · cases isAssign
        refine .inr ⟨next, nextResult, isNext, nextAcyclic, ?_, fun _ => Reaches.andThen viewNext⟩
        rwa [viewNext, map_bindVars_andThen]

theorem reaches_unifyElems {elems elems' : List Typ} {result : Option Assignment}
    (acyclic : unifier.Acyclic)
    (steps : Steps (StateSolves unify) ((elems.zip elems').map (bindVars (view unifier))) result) :
    Reaches unifier (Unifier.unifyElems unify elems elems' unifier) result := by
  induction elems generalizing elems' unifier result with
  | nil =>
      cases steps
      exact ⟨acyclic, (andThen_var _).symm⟩
  | cons elem elems hypothesis =>
      cases elems' with
      | nil =>
          cases steps
          exact ⟨acyclic, (andThen_var _).symm⟩
      | cons elem' elems' =>
          rw [List.zip_cons_cons] at steps
          rw [Unifier.unifyElems]
          rcases cases_of_stateRound acyclic steps with
            ⟨error, isError, fuelLeft, rfl⟩ | ⟨next, nextResult, isNext, acyclic, steps, reaches⟩
          · rw [isError]
            exact fuelLeft
          · rw [isNext]
            exact reaches _ (hypothesis acyclic steps)

theorem reaches_unifyFields {fields fields' : List (Symbol × Typ)} {result : Option Assignment}
    (rejects : ∀ result, StateSolves unify unsolvable.1 unsolvable.2 result → result = none)
    (acyclic : unifier.Acyclic)
    (steps : Steps (StateSolves unify)
      ((fieldEquations fields fields').map (bindVars (view unifier))) result) :
    Reaches unifier (Unifier.unifyFields unify fields fields' unifier) result := by
  induction fields generalizing fields' unifier result with
  | nil =>
      cases steps
      exact ⟨acyclic, (andThen_var _).symm⟩
  | cons field fields hypothesis =>
      cases fields' with
      | nil =>
          cases steps
          exact ⟨acyclic, (andThen_var _).symm⟩
      | cons field' fields' =>
          obtain ⟨name, typ⟩ := field
          obtain ⟨name', typ'⟩ := field'
          rw [fieldEquations] at steps
          rw [Unifier.unifyFields]
          by_cases sameName : name = name'
          · rw [if_pos sameName] at steps
            rw [if_neg (not_not_intro sameName)]
            change Reaches unifier (unify typ typ' unifier >>= _) result
            rcases cases_of_stateRound acyclic steps with
              ⟨error, isError, fuelLeft, rfl⟩ | ⟨next, nextResult, isNext, acyclic, steps, reaches⟩
            · rw [isError]
              exact fuelLeft
            · rw [isNext]
              exact reaches _ (hypothesis acyclic steps)
          · rw [if_neg sameName, List.map_singleton] at steps
            obtain rfl := rejects result steps.of_singleton
            rw [if_pos sameName]
            exact TypeError.noConfusion

theorem reaches_unifyWithFirst {first : Typ} {fields : List (Symbol × Typ)}
    {result : Option Assignment} (acyclic : unifier.Acyclic)
    (steps : Steps (StateSolves unify)
      ((elemEquations first fields).map (bindVars (view unifier))) result) :
    Reaches unifier (Unifier.unifyWithFirst unify first fields unifier) result := by
  induction fields generalizing unifier result with
  | nil =>
      cases steps
      exact ⟨acyclic, (andThen_var _).symm⟩
  | cons field fields hypothesis =>
      rw [Unifier.unifyWithFirst]
      rcases cases_of_stateRound acyclic steps with
        ⟨error, isError, fuelLeft, rfl⟩ | ⟨next, nextResult, isNext, acyclic, steps, reaches⟩
      · rw [isError]
        exact fuelLeft
      · rw [isNext]
        exact reaches _ (hypothesis acyclic steps)

/-- Pruning is not seen in the resolved types. -/
theorem prune_view (acyclic : unifier.Acyclic) (typ : Typ) :
    (unifier.prune typ).1 = unifier.resolve typ ∧ (unifier.prune typ).2.Acyclic ∧
      view (unifier.prune typ).2 = view unifier := by
  obtain ⟨rank, ranked⟩ := acyclic
  obtain ⟨same, equivalent⟩ := Unifier.prune_spec ranked typ
  exact ⟨same, ⟨rank, equivalent.ranked⟩, funext fun typeVar => equivalent.resolve_eq _⟩

theorem resolve_resolved (acyclic : unifier.Acyclic) (typ : Typ) :
    unifier.resolve (unifier.resolve typ) = unifier.resolve typ := by
  obtain ⟨rank, ranked⟩ := acyclic
  exact Unifier.resolve_resolve ranked typ

/-- The fields of a record and then the argument of the dictionary. -/
theorem reaches_elements {name : Symbol} {first arg : Typ} {rest : List (Symbol × Typ)}
    {result : Option Assignment} (acyclic : unifier.Acyclic)
    (steps : Steps (StateSolves unify)
      ((elemEquations first rest ++ [(arg, first)]).map (bindVars (view unifier))) result) :
    Reaches unifier (do
      let (elemTy, unifier) ← Unifier.recordElemType unify ((name, first) :: rest) unifier
      unify arg elemTy unifier) result := by
  rw [List.map_append] at steps
  rcases steps.of_append with ⟨failed, rfl⟩ | ⟨assign, next, solved, lastSteps, rfl⟩
  · rcases cases_of_reaches (reaches_unifyWithFirst acyclic failed) with
      ⟨error, isError, fuelLeft, -⟩ | ⟨next, assign, -, absurd, -⟩
    · rw [Unifier.recordElemType, isError]
      exact fuelLeft
    · cases absurd
  · rcases cases_of_reaches (reaches_unifyWithFirst acyclic solved) with
      ⟨error, -, -, absurd⟩ | ⟨state, assign, isState, isAssign, stateAcyclic, viewState⟩
    · cases absurd
    · cases isAssign
      obtain ⟨pruned, prunedAcyclic, viewPruned⟩ := prune_view stateAcyclic first
      rw [Unifier.recordElemType, isState]
      change Reaches unifier (unify arg (state.prune first).1 (state.prune first).2) _
      have resolvedArg : (state.prune first).2.resolve arg = (arg.bindVars (view unifier)).bindVars assign := by
        rw [resolve_eq_view, viewPruned, viewState, bindVars_andThen]
      have resolvedElem : (state.prune first).2.resolve (state.prune first).1 =
          (first.bindVars (view unifier)).bindVars assign := by
        rw [resolve_eq_view, viewPruned, pruned, ← resolve_eq_view, resolve_resolved stateAcyclic,
          resolve_eq_view, viewState, bindVars_andThen]
      have reached := lastSteps.of_singleton _ prunedAcyclic arg _ resolvedArg resolvedElem
      exact Reaches.andThen viewState (reached.of_view viewPruned)

end Loops

theorem reaches_unifyRecordApp {unify : Typ → Typ → Unifier → Except TypeError Unifier}
    {unifier : Unifier} {fields : List (Symbol × Typ)} {head arg : Typ}
    {equations : List Equation} {result : Option Assignment} {mismatch : TypeError}
    (moved : recordAppMove fields head arg = .split equations) (acyclic : unifier.Acyclic)
    (steps : Steps (StateSolves unify) (equations.map (bindVars (view unifier))) result) :
    Reaches unifier (Unifier.unifyRecordApp unify fields head arg mismatch unifier) result := by
  unfold recordAppMove at moved
  split at moved
  · split_ifs at moved with isDict
    cases moved
    rw [Unifier.unifyRecordApp, if_pos isDict]
    exact reaches_elements acyclic steps
  · next name first rest typeVar =>
      cases moved
      rw [Unifier.unifyRecordApp]
      rcases cases_of_stateRound acyclic steps with
        ⟨error, isError, fuelLeft, rfl⟩ | ⟨next, nextResult, isNext, acyclic, steps, reaches⟩
      · rw [isError]
        exact fuelLeft
      · rw [isNext]
        exact reaches _ (reaches_elements acyclic steps)
  · cases moved

/-! ## Variables -/

/-- Binding an unbound variable to a resolved type. -/
theorem reaches_unifyVar {unifier : Unifier} (acyclic : unifier.Acyclic) {typeVar : TypeVar}
    {typ : Typ} (isUnbound : unifier.resolve (.var typeVar) = .var typeVar)
    (resolved : unifier.resolve typ = typ) :
    Reaches unifier (Unifier.unifyVar typeVar typ unifier)
      (if typeVar.id ∈ typ.ftv then none else some (Unifier.assignOne typeVar.id typ)) := by
  obtain ⟨pruned, prunedAcyclic, viewPruned⟩ := prune_view acyclic typ
  rw [resolved] at pruned
  have unfolded : Unifier.unifyVar typeVar typ unifier =
      if typeVar.id ∈ typ.ftv then .error (.occurs typeVar.id typ.display)
      else .ok ((unifier.prune typ).2.bindVar typeVar.id typ) := by
    simp only [Unifier.unifyVar, Unifier.occurs, pruned, decide_eq_true_eq]
  rw [unfolded]
  generalize (unifier.prune typ).2 = state at prunedAcyclic viewPruned
  obtain ⟨rank, ranked⟩ := prunedAcyclic
  split_ifs with occurs
  · exact TypeError.noConfusion
  · have unbound : state.lookup typeVar.id = none := by
      rw [Unifier.lookup_eq_none_iff ranked typeVar]
      exact (congrFun viewPruned typeVar).trans isUnbound
    have free : ∀ other ∈ typ.ftv, state.lookup other = none := by
      have same : state.resolve typ = typ := by rw [resolve_eq_view, viewPruned]; exact resolved
      intro other member
      exact Unifier.unbound_of_mem_resolve ranked (same.symm ▸ member)
    refine ⟨⟨_, Unifier.ranked_bindVar ranked unbound free occurs⟩, ?_⟩
    rw [← viewPruned]
    funext other
    exact Unifier.resolve_bindVar ranked unbound free occurs (.var other)

/-- What one more level of the unifier does with an equation of resolved types. -/
def Follows (result : Except TypeError Unifier)
    (unify : Typ → Typ → Unifier → Except TypeError Unifier) (unifier : Unifier) : Move → Prop
  | .bind id typ => Reaches unifier result (some (Unifier.assignOne id typ))
  | .clash => Reaches unifier result none
  | .split equations => ∀ expected,
      Steps (StateSolves unify) (equations.map (bindVars (view unifier))) expected →
        Reaches unifier result expected

section Follows

variable {unify : Typ → Typ → Unifier → Except TypeError Unifier} {unifier : Unifier}

theorem follows_varMove (acyclic : unifier.Acyclic) {typeVar : TypeVar}
    {typ : Typ} (isUnbound : unifier.resolve (.var typeVar) = .var typeVar)
    (resolved : unifier.resolve typ = typ) {result : Except TypeError Unifier}
    (isVar : ∀ other, typ = .var other → result =
      if typeVar.id = other.id then .ok unifier else Unifier.unifyVar typeVar typ unifier)
    (notVar : (∀ other, typ ≠ .var other) → result = Unifier.unifyVar typeVar typ unifier) :
    Follows result unify unifier (varMove typeVar typ) := by
  have reaches := reaches_unifyVar acyclic isUnbound resolved
  cases typ with
  | var other =>
      rw [varMove, isVar other rfl]
      split_ifs with same
      · intro expected steps
        cases steps
        exact ⟨acyclic, (andThen_var _).symm⟩
      · rwa [if_neg (by simpa [Typ.ftv] using same)] at reaches
  | _ =>
      rw [notVar (by simp)]
      simp only [varMove]
      split_ifs at reaches ⊢
      · exact reaches
      · exact reaches

/-- What the unifier does with `Dict` at a head variable, and with an equation
without solutions. -/
structure HandlesDict (unify : Typ → Typ → Unifier → Except TypeError Unifier) : Prop where
  rejects : ∀ result, StateSolves unify unsolvable.1 unsolvable.2 result → result = none
  returns : ∀ (unifier : Unifier) (typeVar : TypeVar), unifier.Acyclic →
    unifier.resolve (.var typeVar) = .var typeVar →
      unify (.var typeVar) (.builtin .dict) unifier ≠ .error .outOfFuel

theorem reaches_unifyRecordApp_none {fields : List (Symbol × Typ)} {head arg : Typ}
    {mismatch : TypeError} (handles : HandlesDict unify) (acyclic : unifier.Acyclic)
    (resolved : unifier.resolve head = head) (isMismatch : mismatch ≠ .outOfFuel)
    (moved : recordAppMove fields head arg = .clash) :
    Reaches unifier (Unifier.unifyRecordApp unify fields head arg mismatch unifier) none := by
  cases head with
  | con const =>
      rw [Unifier.unifyRecordApp]
      split_ifs with isDict
      · cases fields with
        | nil => exact TypeError.noConfusion
        | cons field fields => simp [recordAppMove, isDict] at moved
      · exact isMismatch
  | var typeVar =>
      cases fields with
      | nil =>
          have returns := handles.returns unifier typeVar acyclic resolved
          rw [Unifier.unifyRecordApp]
          cases ran : unify (.var typeVar) (.builtin .dict) unifier with
          | error error =>
              rw [ran] at returns
              exact fun same => returns (congrArg _ same)
          | ok next => exact TypeError.noConfusion
      | cons field fields => simp [recordAppMove] at moved
  | _ => exact isMismatch

theorem follows_recordApp {fields : List (Symbol × Typ)} {head arg : Typ}
    {mismatch : TypeError} (handles : HandlesDict unify) (acyclic : unifier.Acyclic)
    (resolved : unifier.resolve head = head) (isMismatch : mismatch ≠ .outOfFuel) :
    Follows (Unifier.unifyRecordApp unify fields head arg mismatch unifier) unify unifier
      (recordAppMove fields head arg) := by
  cases moved : recordAppMove fields head arg with
  | bind id typ => exact (recordAppMove_ne_bind _ _ _ _ _ moved).elim
  | split equations =>
      intro result steps
      exact reaches_unifyRecordApp moved acyclic steps
  | clash => exact reaches_unifyRecordApp_none handles acyclic resolved isMismatch moved

theorem reaches_pair {one one' two two' : Typ} {result : Option Assignment}
    (acyclic : unifier.Acyclic)
    (steps : Steps (StateSolves unify)
      ([(one, one'), (two, two')].map (bindVars (view unifier))) result) :
    Reaches unifier (do
      let unifier ← unify one one' unifier
      unify two two' unifier) result := by
  have reaches := @reaches_unifyElems unify unifier [one, two] [one', two'] result acyclic steps
  change Reaches unifier
    (unify one one' unifier >>= fun unifier => unify two two' unifier >>= pure) result at reaches
  simpa only [bind_pure] using reaches

theorem follows_partsMove {first second : Typ} (handles : HandlesDict unify)
    (acyclic : unifier.Acyclic) (resolvedFirst : unifier.resolve first = first)
    (resolvedSecond : unifier.resolve second = second)
    (notVarFirst : ∀ typeVar, first ≠ .var typeVar)
    (notVarSecond : ∀ typeVar, second ≠ .var typeVar) :
    Follows (Unifier.unifyPruned unify first second unifier) unify unifier
      (partsMove first second) := by
  cases first with
  | var typeVar => exact (notVarFirst typeVar rfl).elim
  | con const =>
      cases second with
      | var typeVar => exact (notVarSecond typeVar rfl).elim
      | con const' =>
          rw [partsMove]
          split_ifs with same
          · intro result steps
            cases steps
            simp only [Unifier.unifyPruned, same, if_true]
            exact ⟨acyclic, (andThen_var _).symm⟩
          · simp [Follows, Unifier.unifyPruned, same, Reaches]
      | _ => exact TypeError.noConfusion
  | app head arg =>
      cases second with
      | var typeVar => exact (notVarSecond typeVar rfl).elim
      | app head' arg' => exact fun result steps => reaches_pair acyclic steps
      | record fields =>
          rw [Unifier.resolve, Typ.bindVars_app, Typ.app.injEq] at resolvedFirst
          exact follows_recordApp handles acyclic resolvedFirst.1 TypeError.noConfusion
      | _ => exact TypeError.noConfusion
  | func arg ret =>
      cases second with
      | var typeVar => exact (notVarSecond typeVar rfl).elim
      | func arg' ret' => exact fun result steps => reaches_pair acyclic steps
      | _ => exact TypeError.noConfusion
  | tuple elems =>
      cases second with
      | var typeVar => exact (notVarSecond typeVar rfl).elim
      | tuple elems' =>
          rw [partsMove]
          split_ifs with sameLength
          · intro result steps
            simpa [Unifier.unifyPruned, sameLength] using reaches_unifyElems acyclic steps
          · simp [Follows, Unifier.unifyPruned, sameLength, Reaches]
      | _ => exact TypeError.noConfusion
  | record fields =>
      cases second with
      | var typeVar => exact (notVarSecond typeVar rfl).elim
      | app head arg =>
          rw [Unifier.resolve, Typ.bindVars_app, Typ.app.injEq] at resolvedSecond
          exact follows_recordApp handles acyclic resolvedSecond.1 TypeError.noConfusion
      | record fields' =>
          rw [partsMove]
          split_ifs with sameLength
          · intro result steps
            simpa [Unifier.unifyPruned, sameLength] using
              reaches_unifyFields handles.rejects acyclic steps
          · simp [Follows, Unifier.unifyPruned, sameLength, Reaches]
      | _ => exact TypeError.noConfusion

theorem follows_move {first second : Typ} (handles : HandlesDict unify)
    (acyclic : unifier.Acyclic) (resolvedFirst : unifier.resolve first = first)
    (resolvedSecond : unifier.resolve second = second) :
    Follows (Unifier.unifyPruned unify first second unifier) unify unifier (move first second) := by
  unfold move
  split
  · refine follows_varMove acyclic resolvedFirst resolvedSecond ?_ ?_
    · rintro other rfl
      rfl
    · intro notVar
      cases second with
      | var other => exact (notVar other rfl).elim
      | _ => rfl
  · next typeVar notVar =>
      refine follows_varMove acyclic resolvedSecond resolvedFirst ?_ ?_
      · exact fun other isVar => (notVar other isVar).elim
      · intro _
        cases first with
        | var other => exact (notVar other rfl).elim
        | _ => rfl
  · next notVarFirst notVarSecond =>
      exact follows_partsMove handles acyclic resolvedFirst resolvedSecond notVarFirst notVarSecond

end Follows

/-! ## The unifier -/

/-- The two types are pruned, and the pruned types unified. -/
theorem unify_eq_unifyPruned {unifier : Unifier} (acyclic : unifier.Acyclic) (fuel : Nat)
    (left right : Typ) : ∃ state : Unifier, state.Acyclic ∧ view state = view unifier ∧
      Unifier.unify (fuel + 1) left right unifier = Unifier.unifyPruned (Unifier.unify fuel)
        (unifier.resolve left) (unifier.resolve right) state := by
  obtain ⟨prunedLeft, acyclicLeft, viewLeft⟩ := prune_view acyclic left
  obtain ⟨prunedRight, acyclicRight, viewRight⟩ := prune_view acyclicLeft right
  refine ⟨_, acyclicRight, viewRight.trans viewLeft, ?_⟩
  rw [resolve_eq_view, viewLeft, ← resolve_eq_view] at prunedRight
  simp only [Unifier.unify, prunedLeft, prunedRight]

theorem handlesDict_unify (fuel : Nat) : HandlesDict (Unifier.unify (fuel + 1)) := by
  constructor
  · intro result solves
    have reaches := solves .empty Unifier.acyclic_empty unsolvable.1 unsolvable.2 rfl rfl
    rcases cases_of_reaches reaches with ⟨error, -, -, rfl⟩ | ⟨next, assign, same, -⟩
    · rfl
    · cases same
  · intro unifier typeVar acyclic isUnbound
    obtain ⟨state, stateAcyclic, sameView, unfolded⟩ :=
      unify_eq_unifyPruned acyclic fuel (.var typeVar) (.builtin .dict)
    rw [isUnbound] at unfolded
    have stateUnbound : state.resolve (.var typeVar) = .var typeVar :=
      (congrFun sameView typeVar).trans isUnbound
    have reaches := @reaches_unifyVar state stateAcyclic typeVar (.builtin .dict) stateUnbound rfl
    intro outOfFuel
    rw [unfolded] at outOfFuel
    change Unifier.unifyVar typeVar (.builtin .dict) state = _ at outOfFuel
    rcases cases_of_reaches reaches with ⟨error, isError, fuelLeft, -⟩ | ⟨next, assign, isNext, -⟩
    · rw [isError] at outOfFuel
      cases outOfFuel
      exact fuelLeft rfl
    · rw [isNext] at outOfFuel
      cases outOfFuel

/-- The unifier gives the result of solving, with fuel for the depth. -/
theorem stateSolves_unify {depth fuel : Nat} {first second : Typ} {result : Option Assignment}
    (solves : Solves depth first second result) (enough : depth < fuel) :
    StateSolves (Unifier.unify fuel) first second result := by
  induction depth generalizing fuel first second result with
  | zero => exact solves.elim
  | succ depth hypothesis =>
      obtain ⟨fuel, rfl⟩ : ∃ other, fuel = other + 1 + 1 := ⟨fuel - 2, by omega⟩
      rintro unifier acyclic left right rfl rfl
      obtain ⟨state, stateAcyclic, sameView, unfolded⟩ :=
        unify_eq_unifyPruned acyclic (fuel + 1) left right
      rw [unfolded]
      refine Reaches.of_view sameView ?_
      have resolved : ∀ typ, state.resolve (unifier.resolve typ) = unifier.resolve typ := by
        intro typ
        rw [resolve_eq_view, sameView, ← resolve_eq_view, resolve_resolved acyclic]
      have follows := follows_move (handlesDict_unify fuel) stateAcyclic (resolved left)
        (resolved right)
      rw [Solves] at solves
      cases moved : move (unifier.resolve left) (unifier.resolve right) with
      | bind id typ =>
          simp only [moved] at solves follows
          rw [solves]
          exact follows
      | clash =>
          simp only [moved] at solves follows
          rw [solves]
          exact follows
      | split equations =>
          simp only [moved] at solves follows
          apply follows
          obtain ⟨rank, ranked⟩ := acyclic
          have unbound : ∀ typ, ∀ typeVar : TypeVar, typeVar.id ∈ (unifier.resolve typ).ftv →
              view state typeVar = .var typeVar := fun typ typeVar member => by
            rw [sameView]
            exact Unifier.resolve_var_of_unbound ranked
              (Unifier.unbound_of_mem_resolve ranked member)
          rw [map_bindVars_of_unbound]
          · exact solves.mono fun _ _ _ solved => hypothesis solved (by omega)
          · intro typeVar member
            obtain ⟨equation, isPart, member⟩ := mem_ftvAll.mp member
            rcases Finset.mem_union.mp ((smaller_of_mem_move moved isPart).1 member) with
              member | member
            · exact unbound left typeVar member
            · exact unbound right typeVar member

end Equation

end RexLang
