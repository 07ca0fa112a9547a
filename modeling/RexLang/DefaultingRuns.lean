import RexLang.FallibleResults
import RexLang.Defaulting

/-!
# Runs of defaulting

A run of `default_ambiguous_types` gives types to eligible variables one after
the other, and ends where no variable is eligible and has a candidate.  What it
gives does not depend on the order or the repetition of the predicates, unless
a predicate of an unknown class stops it.
-/

namespace RexLang

variable {classEnv : ClassEnv} {candidates : List Typ}

/-! ## Substituting a ground type -/

theorem mem_ftv_apply_singleton {id other : TypeVarId} {choice typ : Typ} (ground : choice.Ground)
    (member : other ∈ (typ.apply [(id, choice)]).ftv) : other ∈ typ.ftv ∧ other ≠ id := by
  rw [Typ.apply_eq_bindVars] at member
  obtain ⟨typeVar, inTyp, inImage⟩ := Typ.exists_of_mem_ftv_bindVars member
  by_cases same : typeVar.id = id
  · rw [same, List.lookup_cons_self, Option.getD_some] at inImage
    rw [ground] at inImage
    cases inImage
  · have differs : (typeVar.id == id) = false := by simpa using same
    have isVar : other = typeVar.id := by
      simpa [List.lookup_cons, differs, Typ.ftv] using inImage
    exact ⟨isVar ▸ inTyp, isVar ▸ same⟩

theorem apply_of_ground {typ : Typ} (ground : typ.Ground) (subst : Subst) :
    typ.apply subst = typ := by
  rw [Typ.apply_eq_bindVars]
  refine (Typ.bindVars_congr fun typeVar member => ?_).trans (Typ.bindVars_var_self typ)
  rw [ground] at member
  cases member

theorem mem_predicatesFtv {preds : List Predicate} {id : TypeVarId} :
    id ∈ predicatesFtv preds ↔ ∃ pred ∈ preds, id ∈ pred.typ.ftv := by
  induction preds with
  | nil => simp [predicatesFtv]
  | cons pred preds hypothesis =>
      rw [predicatesFtv, List.foldr_cons, ← predicatesFtv, Finset.mem_union, hypothesis]
      simp

theorem mem_predicatesFtv_applyDefault {preds : List Predicate} {id other : TypeVarId}
    {choice : Typ} (ground : choice.Ground)
    (member : other ∈ predicatesFtv (applyDefault preds (id, choice))) :
    other ∈ predicatesFtv preds ∧ other ≠ id := by
  obtain ⟨_, isPred, inTyp⟩ := mem_predicatesFtv.1 member
  obtain ⟨pred, inPreds, rfl⟩ := List.mem_map.mp isPred
  have inside := mem_ftv_apply_singleton ground inTyp
  exact ⟨mem_predicatesFtv.2 ⟨pred, inPreds, inside.1⟩, inside.2⟩

theorem mem_ftv_of_isVar {typ : Typ} {id : TypeVarId} (isVar : typ.isVar id) : id ∈ typ.ftv := by
  cases typ with
  | var typeVar =>
      have same : typeVar.id = id := by simpa [Typ.isVar] using isVar
      simp [Typ.ftv, same]
  | _ => cases isVar

theorem Eligible.mem_predicatesFtv {preds : List Predicate} {id : TypeVarId}
    (eligible : Eligible preds id) : id ∈ predicatesFtv preds := by
  obtain ⟨pred, member, isVar, -⟩ := eligible.1
  exact RexLang.mem_predicatesFtv.2 ⟨pred, member, mem_ftv_of_isVar isVar⟩

/-- Every variable that is given a type is one variable less. -/
theorem card_applyDefault_lt {preds : List Predicate} {id : TypeVarId} {choice : Typ}
    (ground : choice.Ground) (eligible : Eligible preds id) :
    (predicatesFtv (applyDefault preds (id, choice))).card < (predicatesFtv preds).card := by
  refine Finset.card_lt_card ⟨fun other member => ?_, fun subset => ?_⟩
  · exact (mem_predicatesFtv_applyDefault ground member).1
  · exact (mem_predicatesFtv_applyDefault ground (subset eligible.mem_predicatesFtv)).2 rfl

/-! ## The choice -/

section Choices

variable {fuel : Nat}

theorem entails_ok {pred : Predicate} {holds : Bool}
    (found : classEnv.entails fuel [] pred = .ok holds) :
    holds = true ↔ classEnv.Derives [] pred := by
  have ended : classEnv.entails fuel [] pred ≠ .error .outOfFuel := by
    rw [found]
    nofun
  rw [← ClassEnv.entails_correct ended, found]
  simp

theorem acceptsDefault_ok {subst : Subst} {preds : List Predicate} {holds : Bool}
    (found : acceptsDefault (classEnv.entails fuel []) subst preds = .ok holds) :
    holds = true ↔ ∀ pred ∈ preds, (pred.apply subst).typ.Ground ∧
      classEnv.Derives [] (pred.apply subst) := by
  induction preds with
  | nil =>
      cases found
      simp
  | cons pred preds hypothesis =>
      rw [acceptsDefault] at found
      split_ifs at found with ground
      · cases found
        have notGround : ¬(pred.apply subst).typ.Ground := ground
        simp [notGround]
      · obtain ⟨answer, isAnswer, found⟩ := exists_of_bind_eq_ok found
        have derives := entails_ok isAnswer
        have isGround : (pred.apply subst).typ.Ground := not_not.mp ground
        cases answer with
        | true =>
            rw [hypothesis found, List.forall_mem_cons, and_iff_right ⟨isGround, derives.mp rfl⟩]
        | false =>
            cases found
            have fails : ¬classEnv.Derives [] (pred.apply subst) := fun holds =>
              absurd (derives.mpr holds) (by simp)
            simp [fails]

theorem satisfies_iff_relevant {preds : List Predicate} {id : TypeVarId} {candidate : Typ} :
    Satisfies classEnv preds id candidate ↔
      ∀ pred ∈ preds.filter (id ∈ ·.typ.ftv), (pred.apply [(id, candidate)]).typ.Ground ∧
        classEnv.Derives [] (pred.apply [(id, candidate)]) := by
  simp only [Satisfies, List.mem_filter, decide_eq_true_eq, and_imp]

theorem chooseDefaultType_ok {preds : List Predicate} {id : TypeVarId} {found : Option Typ}
    (isFound : chooseDefaultType (classEnv.entails fuel []) id
      (preds.filter (id ∈ ·.typ.ftv)) candidates = .ok found) :
    (∀ choice, found = some choice → IsChoice classEnv candidates preds id choice) ∧
      (found = none → ∀ choice, ¬IsChoice classEnv candidates preds id choice) := by
  induction candidates with
  | nil =>
      cases isFound
      refine ⟨nofun, fun _ choice => ?_⟩
      rintro ⟨before, after, absurd, -⟩
      simp at absurd
  | cons candidate candidates hypothesis =>
      rw [chooseDefaultType] at isFound
      obtain ⟨holds, isHolds, isFound⟩ := exists_of_bind_eq_ok isFound
      have satisfies := (acceptsDefault_ok isHolds).trans satisfies_iff_relevant.symm
      cases holds with
      | true =>
          cases isFound
          refine ⟨?_, nofun⟩
          rintro choice ⟨⟩
          exact ⟨[], candidates, rfl, satisfies.mp rfl, by simp⟩
      | false =>
          have rejected : ¬Satisfies classEnv preds id candidate := fun holds =>
            absurd (satisfies.mpr holds) (by simp)
          have rest := hypothesis isFound
          constructor
          · intro choice isChoice
            obtain ⟨before, after, rfl, satisfied, others⟩ := rest.1 choice isChoice
            exact ⟨candidate :: before, after, rfl, satisfied,
              List.forall_mem_cons.mpr ⟨rejected, others⟩⟩
          · rintro isNone choice ⟨before, after, same, satisfied, others⟩
            cases before with
            | nil =>
                cases same
                exact rejected satisfied
            | cons first before =>
                cases same
                exact rest.2 isNone choice
                  ⟨before, after, rfl, satisfied, fun other member => others other (.tail _ member)⟩

theorem predicatesAreDefaultable_iff {preds : List Predicate} {id : TypeVarId} :
    predicatesAreDefaultable ((preds.filter (id ∈ ·.typ.ftv)).filter (·.typ.isVar id)) ↔
      Eligible preds id := by
  have simple : ∀ pred, pred ∈ (preds.filter (id ∈ ·.typ.ftv)).filter (·.typ.isVar id) ↔
      pred ∈ preds ∧ pred.typ.isVar id := by
    intro pred
    rw [List.mem_filter, List.mem_filter]
    constructor
    · rintro ⟨⟨member, -⟩, isVar⟩
      exact ⟨member, isVar⟩
    · rintro ⟨member, isVar⟩
      exact ⟨⟨member, by simpa using mem_ftv_of_isVar isVar⟩, isVar⟩
  rw [predicatesAreDefaultable, Bool.and_eq_true, List.any_eq_true, List.all_eq_true]
  simp only [simple, Bool.or_eq_true, Eligible, and_imp, and_assoc]

end Choices

/-! ## Runs -/

theorem Defaults.trans {preds middle final : List Predicate} {steps more : List (TypeVarId × Typ)}
    (first : Defaults classEnv candidates preds steps middle)
    (second : Defaults classEnv candidates middle more final) :
    Defaults classEnv candidates preds (steps ++ more) final := by
  induction first with
  | done => exact second
  | step eligible isChoice _ hypothesis => exact .step eligible isChoice (hypothesis second)

/-- What holds of a state of the loops: the substitution has ground images, and
the predicates do not mention its variables. -/
structure DefaultState.Resolved (state : DefaultState) : Prop where
  ground : ∀ entry ∈ state.subst, entry.2.Ground
  apart : ∀ id ∈ predicatesFtv state.preds, state.subst.lookup id = none

/-- No variable is left that is eligible and has a candidate. -/
def NothingToDefault (classEnv : ClassEnv) (candidates : List Typ) (preds : List Predicate)
    (id : TypeVarId) : Prop :=
  ¬(Eligible preds id ∧ ∃ choice, IsChoice classEnv candidates preds id choice)

/-- The state after a variable is given a type. -/
def DefaultState.give (state : DefaultState) (id : TypeVarId) (choice : Typ) : DefaultState :=
  ⟨applyDefault state.preds (id, choice), composeSubst [(id, choice)] state.subst, true⟩

theorem composeSubst_of_ground {subst : Subst} (ground : ∀ entry ∈ subst, entry.2.Ground)
    (id : TypeVarId) (choice : Typ) :
    composeSubst [(id, choice)] subst = (id, choice) :: subst := by
  have unchanged : (subst.map fun entry => (entry.1, entry.2.apply [(id, choice)])) = subst := by
    conv_rhs => rw [← List.map_id subst]
    refine List.map_congr_left fun entry member => ?_
    rw [apply_of_ground (ground entry member)]
    rfl
  rw [composeSubst, unchanged]
  cases subst with
  | nil => rfl
  | cons entry subst => rfl

theorem DefaultState.Resolved.give {state : DefaultState} (resolved : state.Resolved)
    {id : TypeVarId} {choice : Typ} (ground : choice.Ground) : (state.give id choice).Resolved where
  ground entry member := by
    rw [DefaultState.give, composeSubst_of_ground resolved.ground, List.mem_cons] at member
    rcases member with rfl | member
    · exact ground
    · exact resolved.ground entry member
  apart other member := by
    have inside := mem_predicatesFtv_applyDefault ground member
    rw [DefaultState.give, composeSubst_of_ground resolved.ground, List.lookup_cons,
      beq_false_of_ne inside.2]
    exact resolved.apart other inside.1

theorem IsChoice.mem {preds : List Predicate} {id : TypeVarId} {choice : Typ}
    (isChoice : IsChoice classEnv candidates preds id choice) : choice ∈ candidates := by
  obtain ⟨before, after, rfl, -⟩ := isChoice
  simp

/-- What a round of the loop over the variables does. -/
structure DefaultRound (classEnv : ClassEnv) (candidates : List Typ) (ids : List TypeVarId)
    (before after : DefaultState) : Prop where
  resolved : after.Resolved
  steps : ∃ steps, Defaults classEnv candidates before.preds steps after.preds ∧
    after.subst = steps.reverse ++ before.subst ∧
    (after.progress → before.progress ∨
      (predicatesFtv after.preds).card < (predicatesFtv before.preds).card)
  stops : after.progress = false → after = before ∧
    ∀ id ∈ ids, before.subst.lookup id = none → NothingToDefault classEnv candidates before.preds id

theorem Defaults.card_le {preds final : List Predicate} {steps : List (TypeVarId × Typ)}
    (ground : ∀ candidate ∈ candidates, candidate.Ground)
    (defaults : Defaults classEnv candidates preds steps final) :
    (predicatesFtv final).card ≤ (predicatesFtv preds).card := by
  induction defaults with
  | done => exact Nat.le_refl _
  | step eligible isChoice _ hypothesis =>
      have less := card_applyDefault_lt (ground _ isChoice.mem) eligible
      omega

/-- A round in which nothing is given for the first variable. -/
theorem DefaultRound.skip {id : TypeVarId} {ids : List TypeVarId} {before after : DefaultState}
    (rest : DefaultRound classEnv candidates ids before after)
    (nothing : before.subst.lookup id = none → NothingToDefault classEnv candidates before.preds id) :
    DefaultRound classEnv candidates (id :: ids) before after where
  resolved := rest.resolved
  steps := rest.steps
  stops isFalse := by
    obtain ⟨same, others⟩ := rest.stops isFalse
    exact ⟨same, List.forall_mem_cons.mpr ⟨nothing, others⟩⟩

/-- A round in which the first variable is given a type. -/
theorem DefaultRound.give {id : TypeVarId} {ids : List TypeVarId} {before after : DefaultState}
    {choice : Typ} (ground : ∀ candidate ∈ candidates, candidate.Ground) (resolved : before.Resolved)
    (eligible : Eligible before.preds id)
    (isChoice : IsChoice classEnv candidates before.preds id choice)
    (rest : DefaultRound classEnv candidates ids (before.give id choice) after) :
    DefaultRound classEnv candidates (id :: ids) before after where
  resolved := rest.resolved
  steps := by
    obtain ⟨steps, defaults, isSubst, -⟩ := rest.steps
    refine ⟨(id, choice) :: steps, .step eligible isChoice defaults, ?_, fun _ => .inr ?_⟩
    · rw [isSubst, DefaultState.give, composeSubst_of_ground resolved.ground, List.reverse_cons,
        List.append_assoc, List.singleton_append]
    · have less := card_applyDefault_lt (ground _ isChoice.mem) eligible
      have more := defaults.card_le ground
      change _ ≤ (predicatesFtv (applyDefault before.preds (id, choice))).card at more
      omega
  stops isFalse := by
    obtain ⟨same, -⟩ := rest.stops isFalse
    rw [same] at isFalse
    cases isFalse

section Rounds

variable {fuel : Nat} (ground : ∀ candidate ∈ candidates, candidate.Ground)

include ground

theorem defaultVars_ok {ids : List TypeVarId} {before after : DefaultState}
    (resolved : before.Resolved)
    (found : defaultVars (classEnv.entails fuel []) candidates ids before = .ok after) :
    DefaultRound classEnv candidates ids before after := by
  induction ids generalizing before with
  | nil =>
      cases found
      exact ⟨resolved, ⟨[], .done, rfl, .inl⟩, fun _ => ⟨rfl, nofun⟩⟩
  | cons id ids hypothesis =>
      rw [defaultVars] at found
      split_ifs at found with isBound
      · refine (hypothesis resolved found).skip fun unbound => ?_
        rw [unbound] at isBound
        cases isBound
      · dsimp only at found
        split_ifs at found with notDefaultable
        · refine (hypothesis resolved found).skip fun _ nothing => ?_
          rw [predicatesAreDefaultable_iff.2 nothing.1] at notDefaultable
          cases notDefaultable
        · have eligible : Eligible before.preds id :=
            predicatesAreDefaultable_iff.1 (by simpa using notDefaultable)
          obtain ⟨choice, isFound, found⟩ := exists_of_bind_eq_ok found
          have choices := chooseDefaultType_ok isFound
          cases choice with
          | none =>
              refine (hypothesis resolved found).skip fun _ nothing => ?_
              obtain ⟨-, choice, isChoice⟩ := nothing
              exact choices.2 rfl choice isChoice
          | some choice =>
              have isChoice := choices.1 choice rfl
              exact .give ground resolved eligible isChoice
                (hypothesis (resolved.give (ground _ isChoice.mem)) found)

theorem defaultLoop_ok {rounds : Nat} {preds final : List Predicate} {subst found : Subst}
    (resolved : DefaultState.Resolved ⟨preds, subst, false⟩)
    (isFound : defaultLoop (classEnv.entails fuel []) candidates rounds preds subst =
      .ok (found, final)) :
    ∃ steps, Defaults classEnv candidates preds steps final ∧ found = steps.reverse ++ subst ∧
      ∀ id, NothingToDefault classEnv candidates final id := by
  induction rounds generalizing preds subst with
  | zero => cases isFound
  | succ rounds hypothesis =>
      rw [defaultLoop] at isFound
      obtain ⟨state, isState, isFound⟩ := exists_of_bind_eq_ok isFound
      have round := defaultVars_ok ground resolved isState
      split_ifs at isFound with progress
      · obtain ⟨steps, defaults, isSubst, -⟩ := round.steps
        have resolvedNext : DefaultState.Resolved ⟨state.preds, state.subst, false⟩ :=
          ⟨round.resolved.ground, round.resolved.apart⟩
        obtain ⟨more, moreDefaults, isMore, nothing⟩ := hypothesis resolvedNext isFound
        refine ⟨steps ++ more, defaults.trans moreDefaults, ?_, nothing⟩
        rw [isMore, isSubst, List.reverse_append, List.append_assoc]
      · cases isFound
        obtain ⟨rfl, nothing⟩ := round.stops (by simpa using progress)
        refine ⟨[], .done, rfl, fun id both => ?_⟩
        have member := both.1.mem_predicatesFtv
        exact nothing id (by simpa using member) (resolved.apart id member) both

end Rounds

/-! ## Defaulting ends -/

section Ending

variable (terminates : ∀ pred : Predicate, pred.typ.Ground →
  Ends fun fuel => classEnv.entails fuel [] pred)

include terminates

theorem ends_acceptsDefault (subst : Subst) (preds : List Predicate) :
    Ends fun fuel => acceptsDefault (classEnv.entails fuel []) subst preds := by
  induction preds with
  | nil => exact ends_ok true
  | cons pred preds hypothesis =>
      by_cases ground : (pred.apply subst).typ.ftv = ∅
      · simp only [acceptsDefault, ground, ne_eq, not_true_eq_false, if_false]
        refine (terminates _ ground).bind fun holds fuel _ => ?_
        cases holds with
        | true => exact hypothesis
        | false => exact ends_ok false
      · simp only [acceptsDefault, ne_eq, ground, not_false_eq_true, if_true]
        exact ends_ok false

theorem ends_chooseDefaultType (id : TypeVarId) (preds : List Predicate) :
    Ends fun fuel => chooseDefaultType (classEnv.entails fuel []) id preds candidates := by
  induction candidates with
  | nil => exact ends_ok none
  | cons candidate candidates hypothesis =>
      refine (ends_acceptsDefault terminates [(id, candidate)] preds).bind fun holds fuel _ => ?_
      cases holds with
      | true => exact ends_ok (some candidate)
      | false => exact hypothesis

theorem ends_defaultVars (ids : List TypeVarId) (state : DefaultState) :
    Ends fun fuel => defaultVars (classEnv.entails fuel []) candidates ids state := by
  induction ids generalizing state with
  | nil => exact ends_ok state
  | cons id ids hypothesis =>
      simp only [defaultVars]
      split_ifs
      · exact hypothesis state
      · exact hypothesis state
      · refine (ends_chooseDefaultType terminates id _).bind fun choice fuel _ => ?_
        cases choice with
        | none => exact hypothesis state
        | some choice => exact hypothesis _

/-- The rounds are enough when there are more of them than variables. -/
theorem ends_defaultLoop (ground : ∀ candidate ∈ candidates, candidate.Ground) {rounds : Nat}
    {preds : List Predicate} {subst : Subst}
    (resolved : DefaultState.Resolved ⟨preds, subst, false⟩)
    (enough : (predicatesFtv preds).card < rounds) :
    Ends fun fuel => defaultLoop (classEnv.entails fuel []) candidates rounds preds subst := by
  induction rounds generalizing preds subst with
  | zero => omega
  | succ rounds hypothesis =>
      refine (ends_defaultVars terminates _ _).bind fun state fuel isState => ?_
      have round := defaultVars_ok ground resolved isState
      split_ifs with progress
      · obtain ⟨steps, -, -, fewer⟩ := round.steps
        have less := (fewer progress).resolve_left (by simp)
        exact hypothesis ⟨round.resolved.ground, round.resolved.apart⟩ (by dsimp only at less; omega)
      · exact ends_ok _

end Ending

/-! ## Errors -/

theorem Defaults.known {preds final : List Predicate} {steps : List (TypeVarId × Typ)}
    {known : Symbol → Prop} (defaults : Defaults classEnv candidates preds steps final)
    (allKnown : ∀ pred ∈ preds, known pred.className) : ∀ pred ∈ final, known pred.className := by
  induction defaults with
  | done => exact allKnown
  | step _ _ _ hypothesis => exact hypothesis (List.forall_mem_map.mpr allKnown)

section Errors

variable {entails : Predicate → Except TypeError Bool} {known : Symbol → Prop}
  (raises : ∀ pred error, known pred.className → entails pred = .error error → error = .outOfFuel)

include raises

theorem acceptsDefault_error {subst : Subst} {preds : List Predicate} {error : TypeError}
    (allKnown : ∀ pred ∈ preds, known pred.className)
    (failed : acceptsDefault entails subst preds = .error error) : error = .outOfFuel := by
  induction preds with
  | nil => cases failed
  | cons pred preds hypothesis =>
      have both := List.forall_mem_cons.mp allKnown
      rw [acceptsDefault] at failed
      split_ifs at failed
      · cases failed
      · rcases exists_of_bind_eq_error failed with isError | ⟨holds, -, failed⟩
        · exact raises (pred.apply subst) error both.1 isError
        · cases holds with
          | true => exact hypothesis both.2 failed
          | false => cases failed

theorem chooseDefaultType_error {id : TypeVarId} {preds : List Predicate} {error : TypeError}
    (allKnown : ∀ pred ∈ preds, known pred.className)
    (failed : chooseDefaultType entails id preds candidates = .error error) :
    error = .outOfFuel := by
  induction candidates with
  | nil => cases failed
  | cons candidate candidates hypothesis =>
      rcases exists_of_bind_eq_error failed with isError | ⟨holds, -, failed⟩
      · exact acceptsDefault_error raises allKnown isError
      · cases holds with
        | true => cases failed
        | false => exact hypothesis failed

theorem defaultVars_error {ids : List TypeVarId} {state : DefaultState} {error : TypeError}
    (allKnown : ∀ pred ∈ state.preds, known pred.className)
    (failed : defaultVars entails candidates ids state = .error error) : error = .outOfFuel := by
  induction ids generalizing state with
  | nil => cases failed
  | cons id ids hypothesis =>
      simp only [defaultVars] at failed
      split_ifs at failed
      · exact hypothesis allKnown failed
      · exact hypothesis allKnown failed
      · rcases exists_of_bind_eq_error failed with isError | ⟨choice, -, failed⟩
        · exact chooseDefaultType_error raises
            (fun pred member => allKnown pred (List.mem_of_mem_filter member)) isError
        · cases choice with
          | none => exact hypothesis allKnown failed
          | some choice =>
              refine hypothesis ?_ failed
              exact List.forall_mem_map.mpr allKnown

end Errors

/-- The class is declared. -/
def ClassEnv.Declares (classEnv : ClassEnv) (name : Symbol) : Prop :=
  (classEnv.classes.lookup name).isSome

/-- Entailment reports no error about a declared class. -/
theorem entails_error {fuel : Nat} {pred : Predicate} {error : TypeError}
    (known : classEnv.Declares pred.className)
    (failed : classEnv.entails fuel [] pred = .error error) : error = .outOfFuel := by
  cases fuel with
  | zero =>
      cases failed
      rfl
  | succ fuel =>
      by_contra notFuel
      have ended : classEnv.entails (fuel + 1) [] pred ≠ .error .outOfFuel := by
        rw [failed]
        simpa using notFuel
      obtain ⟨closure, -, unfolded⟩ := ClassEnv.entails_cases ended
      rw [failed] at unfolded
      have isKnown : ¬(classEnv.classes.lookup pred.className).isNone := by
        rw [Option.isNone_iff_eq_none, ← ne_eq, Option.ne_none_iff_isSome]
        exact known
      rw [if_neg isKnown] at unfolded
      split_ifs at unfolded
      exact notFuel (searchInstances_eq_error unfolded.symm)

theorem defaultLoop_error {fuel rounds : Nat} {preds : List Predicate} {subst : Subst}
    {error : TypeError} (ground : ∀ candidate ∈ candidates, candidate.Ground)
    (resolved : DefaultState.Resolved ⟨preds, subst, false⟩)
    (known : ∀ pred ∈ preds, classEnv.Declares pred.className)
    (failed : defaultLoop (classEnv.entails fuel []) candidates rounds preds subst =
      .error error) : error = .outOfFuel := by
  induction rounds generalizing preds subst with
  | zero =>
      cases failed
      rfl
  | succ rounds hypothesis =>
      rcases exists_of_bind_eq_error failed with isError | ⟨state, isState, failed⟩
      · exact defaultVars_error (fun _ _ => entails_error) known isError
      · have round := defaultVars_ok ground resolved isState
        obtain ⟨steps, defaults, -⟩ := round.steps
        split_ifs at failed
        · exact hypothesis ⟨round.resolved.ground, round.resolved.apart⟩ (defaults.known known) failed
        · cases failed

/-! ## The order of the predicates -/

section Order

variable {preds others : List Predicate}

theorem SamePredicates.applyDefault (same : SamePredicates preds others)
    (default : TypeVarId × Typ) :
    SamePredicates (applyDefault preds default) (applyDefault others default) := by
  intro pred
  simp only [RexLang.applyDefault, List.mem_map, same _]

theorem SamePredicates.eligible_iff (same : SamePredicates preds others) (id : TypeVarId) :
    Eligible preds id ↔ Eligible others id := by
  simp only [Eligible, same _]

theorem SamePredicates.satisfies_iff (same : SamePredicates preds others) (id : TypeVarId)
    (candidate : Typ) :
    Satisfies classEnv preds id candidate ↔ Satisfies classEnv others id candidate := by
  simp only [Satisfies, same _]

theorem SamePredicates.predicatesFtv_eq (same : SamePredicates preds others) :
    predicatesFtv preds = predicatesFtv others := by
  ext id
  simp only [mem_predicatesFtv, same _]

variable {fuel more : Nat}

theorem SamePredicates.chooseDefaultType_eq (same : SamePredicates preds others) {id : TypeVarId}
    {found foundOther : Option Typ}
    (isFound : chooseDefaultType (classEnv.entails fuel []) id
      (preds.filter (id ∈ ·.typ.ftv)) candidates = .ok found)
    (isFoundOther : chooseDefaultType (classEnv.entails more []) id
      (others.filter (id ∈ ·.typ.ftv)) candidates = .ok foundOther) : found = foundOther := by
  induction candidates with
  | nil =>
      cases isFound
      cases isFoundOther
      rfl
  | cons candidate candidates hypothesis =>
      obtain ⟨holds, isHolds, isFound⟩ := exists_of_bind_eq_ok isFound
      obtain ⟨holdsOther, isHoldsOther, isFoundOther⟩ := exists_of_bind_eq_ok isFoundOther
      have satisfies := (acceptsDefault_ok isHolds).trans satisfies_iff_relevant.symm
      have satisfiesOther := (acceptsDefault_ok isHoldsOther).trans satisfies_iff_relevant.symm
      have sameAnswer : holds = holdsOther := by
        rw [Bool.eq_iff_iff, satisfies, satisfiesOther, same.satisfies_iff]
      subst sameAnswer
      cases holds with
      | true =>
          cases isFound
          cases isFoundOther
          rfl
      | false => exact hypothesis isFound isFoundOther

/-- States that differ in the order and the repetition of the predicates. -/
structure SameState (state other : DefaultState) : Prop where
  preds : SamePredicates state.preds other.preds
  subst : state.subst = other.subst
  progress : state.progress = other.progress

theorem SameState.defaultVars {ids : List TypeVarId} {state other after afterOther : DefaultState}
    (same : SameState state other)
    (found : RexLang.defaultVars (classEnv.entails fuel []) candidates ids state = .ok after)
    (foundOther : RexLang.defaultVars (classEnv.entails more []) candidates ids other =
      .ok afterOther) : SameState after afterOther := by
  induction ids generalizing state other with
  | nil =>
      cases found
      cases foundOther
      exact same
  | cons id ids hypothesis =>
      have sameDefaultable :
          predicatesAreDefaultable ((state.preds.filter (id ∈ ·.typ.ftv)).filter (·.typ.isVar id)) =
            predicatesAreDefaultable
              ((other.preds.filter (id ∈ ·.typ.ftv)).filter (·.typ.isVar id)) := by
        rw [Bool.eq_iff_iff, predicatesAreDefaultable_iff, predicatesAreDefaultable_iff,
          same.preds.eligible_iff]
      simp only [RexLang.defaultVars, ← same.subst, ← sameDefaultable] at found foundOther
      split_ifs at found foundOther
      · exact hypothesis same found foundOther
      · exact hypothesis same found foundOther
      · obtain ⟨choice, isChoice, found⟩ := exists_of_bind_eq_ok found
        obtain ⟨choiceOther, isChoiceOther, foundOther⟩ := exists_of_bind_eq_ok foundOther
        obtain rfl := same.preds.chooseDefaultType_eq isChoice isChoiceOther
        cases choice with
        | none => exact hypothesis same found foundOther
        | some choice =>
            have next : SameState (state.give id choice)
                ⟨applyDefault other.preds (id, choice),
                  composeSubst [(id, choice)] state.subst, true⟩ :=
              ⟨same.preds.applyDefault (id, choice), rfl, rfl⟩
            exact hypothesis next found foundOther

theorem SamePredicates.defaultLoop (same : SamePredicates preds others) {rounds : Nat}
    {subst found foundOther : Subst} {final finalOther : List Predicate}
    (isFound : RexLang.defaultLoop (classEnv.entails fuel []) candidates rounds preds subst =
      .ok (found, final))
    (isFoundOther : RexLang.defaultLoop (classEnv.entails more []) candidates rounds others subst =
      .ok (foundOther, finalOther)) : found = foundOther ∧ SamePredicates final finalOther := by
  induction rounds generalizing preds others subst with
  | zero => cases isFound
  | succ rounds hypothesis =>
      obtain ⟨state, isState, isFound⟩ := exists_of_bind_eq_ok isFound
      obtain ⟨other, isOther, isFoundOther⟩ := exists_of_bind_eq_ok isFoundOther
      rw [← same.predicatesFtv_eq] at isOther
      have start : SameState ⟨preds, subst, false⟩ ⟨others, subst, false⟩ := ⟨same, rfl, rfl⟩
      have sameState := start.defaultVars isState isOther
      rw [← sameState.progress, ← sameState.subst] at isFoundOther
      split_ifs at isFound isFoundOther
      · exact hypothesis sameState.preds isFound isFoundOther
      · cases isFound
        cases isFoundOther
        exact ⟨rfl, sameState.preds⟩

end Order

/-! ## Defaulting is right -/

theorem resolved_start (preds : List Predicate) : DefaultState.Resolved ⟨preds, [], false⟩ :=
  ⟨nofun, fun _ _ => rfl⟩

/-- `Integral` is declared, and has no instance. -/
def integralEnv : ClassEnv :=
  ⟨[("Integral", ⟨[]⟩)], []⟩

/-- `Integral a`. -/
def integralPred : Predicate :=
  ⟨"Integral", .var ⟨0, none⟩⟩

/-- `Shown (List a)`, of a class that is not declared. -/
def shownListPred : Predicate :=
  ⟨"Shown", .list (.var ⟨0, none⟩)⟩

def unitExpr : TypedExpr :=
  .mk (.tuple []) (.tuple [])

/-- What entailment answers under `integralEnv`. -/
def integralAnswer (pred : Predicate) : Except TypeError Bool :=
  if pred.className = "Integral" then .ok false else .error (.unknownClass pred.className)

theorem entails_integralEnv (fuel : Nat) (pred : Predicate) :
    integralEnv.entails (fuel + 2) [] pred = integralAnswer pred := by
  have noClosure : integralEnv.closureOf (fuel + 1) [] = .ok [] := rfl
  have ended : integralEnv.entails (fuel + 2) [] pred =
      if (integralEnv.classes.lookup pred.className).isNone then
        .error (.unknownClass pred.className) else .ok false := by
    rw [ClassEnv.entails, noClosure]
    rfl
  rw [ended, integralAnswer]
  by_cases isIntegral : pred.className = "Integral"
  · rw [if_pos isIntegral, isIntegral]
    rfl
  · have unknown : (integralEnv.classes.lookup pred.className).isNone := by
      simp [integralEnv, List.lookup_cons, beq_false_of_ne isIntegral]
    rw [if_neg isIntegral, if_pos unknown]

theorem ends_entails_integralEnv (pred : Predicate) :
    Ends fun fuel => integralEnv.entails fuel [] pred := by
  refine ⟨2, integralAnswer pred, ?_, fun more enough => ?_⟩
  · rw [integralAnswer]
    split_ifs <;> simp
  · obtain ⟨fuel, rfl⟩ : ∃ fuel, more = fuel + 2 := ⟨more - 2, by omega⟩
    exact entails_integralEnv fuel pred

theorem defaultCandidates_unitExpr :
    defaultCandidates unitExpr = [.builtin .f32, .builtin .i32, .builtin .string] := by
  rw [defaultCandidates_eq, documentedCandidates, TypedExpr.subexpressions, TreeSized.preorder_eq]
  decide

end RexLang
