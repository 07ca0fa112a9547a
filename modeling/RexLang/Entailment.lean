import RexLang.SuperclassExpansion
import RexLang.UnificationTotality

/-!
# Entailment

The search for instances, the derivations that it looks for, and the obligations
that it comes to.  An answer of the search tells whether there is a derivation;
there is an answer if and only if no infinite chain of obligations starts at the
predicate.
-/

namespace RexLang

/-! ## The search -/

/-- `apply` of a predicate. -/
def Predicate.apply (subst : Subst) (pred : Predicate) : Predicate :=
  ⟨pred.className, pred.typ.apply subst⟩

/-- The result of a computation that may fail. -/
def attempt {Result : Type} (outcome : Except TypeError Result) :
    Except TypeError (Option Result) :=
  match outcome with
  | .ok result => .ok (some result)
  | .error .outOfFuel => .error .outOfFuel
  | .error _ => .ok none

section Search

variable (entails : Predicate → Except TypeError Bool)
  (unify : Typ → Typ → Except TypeError Subst)

/-- All predicates of a context are entailed; an error counts as a failure. -/
def allEntailed : List Predicate → Except TypeError Bool
  | [] => .ok true
  | pred :: preds => do
      let answer ← attempt (entails pred)
      if answer.getD false then allEntailed preds else return false

/-- The loop of `entails` over the instances of a class. -/
def searchInstances (typ : Typ) : List Instance → Except TypeError Bool
  | [] => .ok false
  | inst :: instances => do
      match ← attempt (unify inst.head.typ typ) with
      | none => searchInstances typ instances
      | some subst =>
          let holds ← allEntailed entails (inst.context.map (Predicate.apply subst))
          if holds then return true else searchInstances typ instances

end Search

namespace ClassEnv

/-- The expansion of the given predicates. -/
def closureOf (fuel : Nat) (classEnv : ClassEnv) (given : List Predicate) :
    Except TypeError (List Predicate) :=
  match classEnv.superclassClosure fuel given with
  | some closure => .ok closure
  | none => .error .outOfFuel

/-- `entails`; `fuel` bounds the depth of the recursion and the loops. -/
def entails (classEnv : ClassEnv) : Nat → List Predicate → Predicate → Except TypeError Bool
  | 0, _, _ => .error .outOfFuel
  | fuel + 1, given, pred => do
      let closure ← classEnv.closureOf fuel given
      if pred ∈ closure then return true
      else if (classEnv.classes.lookup pred.className).isNone then
        throw (.unknownClass pred.className)
      else
        searchInstances (entails classEnv fuel closure) (unify fuel) pred.typ
          (classEnv.instancesOf pred.className)

end ClassEnv

/-! ## Unifiers -/

/-- The substitution unifies the types. -/
def Unifies (first second : Typ) (subst : Subst) : Prop :=
  ∃ fuel, unify fuel first second = .ok subst

theorem unify_eq_of_ne {first second : Typ} {fuel other : Nat}
    (ended : unify fuel first second ≠ .error .outOfFuel)
    (otherEnded : unify other first second ≠ .error .outOfFuel) :
    unify fuel first second = unify other first second := by
  rcases le_total fuel other with less | less
  · exact ((refines_unify less first second).resolve_left ended).symm
  · exact (refines_unify less first second).resolve_left otherEnded

theorem unifies_iff {first second : Typ} {subst : Subst} {fuel : Nat}
    (ended : unify fuel first second ≠ .error .outOfFuel) :
    Unifies first second subst ↔ unify fuel first second = .ok subst := by
  constructor
  · rintro ⟨other, found⟩
    rw [unify_eq_of_ne ended (by rw [found]; nofun), found]
  · exact fun found => ⟨fuel, found⟩

theorem Unifies.unique {first second : Typ} {subst other : Subst}
    (unifies : Unifies first second subst) (unifiesOther : Unifies first second other) :
    subst = other := by
  obtain ⟨fuel, found⟩ := unifies
  have same := (unifies_iff (by rw [found]; nofun)).mp unifiesOther
  rw [found] at same
  cases same
  rfl

section Attempt

variable {Result : Type} {outcome : Except TypeError Result}

theorem attempt_eq_outOfFuel :
    attempt outcome = .error .outOfFuel ↔ outcome = .error .outOfFuel := by
  unfold attempt
  split
  · simp
  · simp
  · next error notFuel => simpa using notFuel

theorem attempt_eq_ok {found : Option Result} (attempted : attempt outcome = .ok found) :
    outcome ≠ .error .outOfFuel ∧ ∀ result, found = some result ↔ outcome = .ok result := by
  unfold attempt at attempted
  split at attempted
  · cases attempted
    simp
  · cases attempted
  · next error notFuel =>
      cases attempted
      simpa using notFuel

theorem attempt_eq_error {error : TypeError} (attempted : attempt outcome = .error error) :
    error = .outOfFuel := by
  unfold attempt at attempted
  split at attempted
  · cases attempted
  · cases attempted
    rfl
  · cases attempted

theorem ends_attempt {outcome : Nat → Except TypeError Result} (ends : Ends outcome) :
    Ends fun fuel => attempt (outcome fuel) := by
  obtain ⟨fuel, result, ended, same⟩ := ends
  refine ⟨fuel, attempt result, mt attempt_eq_outOfFuel.1 ended, fun more enough => ?_⟩
  change attempt (outcome more) = _
  rw [same more enough]

end Attempt

/-! ## Derivations -/

namespace ClassEnv

variable (classEnv : ClassEnv) (given : List Predicate)

/-- The predicate is given, or by superclasses follows from a given one. -/
def Implied (pred : Predicate) : Prop :=
  ∃ start ∈ given, Relation.ReflTransGen (IsSuccessor classEnv.superPredicates) pred start

/-- What the search looks for: a derivation from the given predicates by
instances, where a unifier of the head fixes the context. -/
inductive Derives : Predicate → Prop
  | given {pred : Predicate} : classEnv.Implied given pred → Derives pred
  | inst {pred : Predicate} {inst : Instance} {subst : Subst} :
      (classEnv.classes.lookup pred.className).isSome →
        inst ∈ classEnv.instancesOf pred.className → Unifies inst.head.typ pred.typ subst →
          (∀ required ∈ inst.context, Derives (required.apply subst)) → Derives pred

end ClassEnv

/-- The head of the instance unifies with the type, and what the context then
requires is derivable. -/
def Instance.Applies (derivable : Predicate → Prop) (inst : Instance) (typ : Typ) : Prop :=
  ∃ subst, Unifies inst.head.typ typ subst ∧
    ∀ required ∈ inst.context, derivable (required.apply subst)

namespace ClassEnv

variable {classEnv : ClassEnv} {given closure : List Predicate}

theorem mem_closureOf {fuel : Nat} (found : classEnv.closureOf fuel given = .ok closure)
    (pred : Predicate) : pred ∈ closure ↔ classEnv.Implied given pred := by
  rw [closureOf] at found
  split at found
  · next expanded =>
      cases found
      exact mem_expandFrom expanded (by simp) pred
  · cases found

theorem implied_closureOf {fuel : Nat} (found : classEnv.closureOf fuel given = .ok closure)
    (pred : Predicate) : classEnv.Implied closure pred ↔ classEnv.Implied given pred := by
  constructor
  · rintro ⟨start, member, path⟩
    obtain ⟨first, isGiven, before⟩ := (mem_closureOf found start).mp member
    exact ⟨first, isGiven, path.trans before⟩
  · exact fun implied => ⟨pred, (mem_closureOf found pred).mpr implied, .refl⟩

theorem Derives.mono {more : List Predicate}
    (implies : ∀ pred, classEnv.Implied given pred → classEnv.Implied more pred)
    {pred : Predicate} (derives : classEnv.Derives given pred) : classEnv.Derives more pred := by
  induction derives with
  | given implied => exact .given (implies _ implied)
  | inst known member unifies _ hypothesis => exact .inst known member unifies hypothesis

theorem derives_iff {pred : Predicate} : classEnv.Derives given pred ↔
    classEnv.Implied given pred ∨ (classEnv.classes.lookup pred.className).isSome ∧
      ∃ inst ∈ classEnv.instancesOf pred.className,
        inst.Applies (classEnv.Derives given) pred.typ := by
  constructor
  · intro derives
    cases derives with
    | given implied => exact .inl implied
    | inst known member unifies context => exact .inr ⟨known, _, member, _, unifies, context⟩
  · rintro (implied | ⟨known, inst, member, subst, unifies, context⟩)
    · exact .given implied
    · exact .inst known member unifies context

end ClassEnv

/-! ## Answers -/

section Answers

variable {entails : Predicate → Except TypeError Bool} {derivable : Predicate → Prop}
  (correct : ∀ pred, entails pred ≠ .error .outOfFuel → (entails pred = .ok true ↔ derivable pred))

include correct

theorem allEntailed_ok {preds : List Predicate} {holds : Bool}
    (found : allEntailed entails preds = .ok holds) :
    holds = true ↔ ∀ pred ∈ preds, derivable pred := by
  induction preds with
  | nil =>
      cases found
      simp
  | cons pred preds hypothesis =>
      obtain ⟨answer, attempted, found⟩ := bind_eq_ok.mp found
      obtain ⟨ended, isAnswer⟩ := attempt_eq_ok attempted
      rw [List.forall_mem_cons, ← correct pred ended]
      cases answer with
      | none =>
          cases found
          have failed : entails pred ≠ .ok true := fun isTrue => by
            cases (isAnswer true).mpr isTrue
          simp [failed]
      | some answer =>
          have isOk := (isAnswer answer).mp rfl
          cases answer with
          | false =>
              cases found
              simp [isOk]
          | true =>
              rw [hypothesis found]
              simp [isOk]

theorem searchInstances_ok {fuel : Nat} {typ : Typ} {instances : List Instance} {holds : Bool}
    (found : searchInstances entails (unify fuel) typ instances = .ok holds) :
    holds = true ↔ ∃ inst ∈ instances, inst.Applies derivable typ := by
  induction instances with
  | nil =>
      cases found
      simp
  | cons inst instances hypothesis =>
      simp only [List.mem_cons, exists_eq_or_imp]
      obtain ⟨unified, attempted, found⟩ := bind_eq_ok.mp found
      obtain ⟨ended, isUnified⟩ := attempt_eq_ok attempted
      cases unified with
      | none =>
          have fails : ¬inst.Applies derivable typ := by
            rintro ⟨subst, unifies, -⟩
            cases (isUnified subst).mpr ((unifies_iff ended).mp unifies)
          rw [hypothesis found, or_iff_right fails]
      | some subst =>
          have unifies : Unifies inst.head.typ typ subst := ⟨fuel, (isUnified subst).mp rfl⟩
          obtain ⟨all, context, found⟩ := bind_eq_ok.mp found
          have applies : all = true ↔ inst.Applies derivable typ := by
            rw [allEntailed_ok correct context, List.forall_mem_map]
            refine ⟨fun each => ⟨subst, unifies, each⟩, ?_⟩
            rintro ⟨other, unifiesOther, each⟩
            rwa [unifies.unique unifiesOther]
          rw [← applies]
          cases all with
          | false =>
              rw [hypothesis found]
              simp
          | true =>
              cases found
              simp

omit correct in
theorem allEntailed_eq_error {preds : List Predicate} {error : TypeError}
    (failed : allEntailed entails preds = .error error) : error = .outOfFuel := by
  induction preds with
  | nil => cases failed
  | cons pred preds hypothesis =>
      rw [allEntailed] at failed
      cases attempted : attempt (entails pred) with
      | error found =>
          rw [attempted] at failed
          cases failed
          exact attempt_eq_error attempted
      | ok answer =>
          rw [attempted] at failed
          change (if answer.getD false then _ else _) = _ at failed
          split_ifs at failed
          · exact hypothesis failed
          · cases failed

omit correct in
theorem searchInstances_eq_error {unify : Typ → Typ → Except TypeError Subst} {typ : Typ}
    {instances : List Instance} {error : TypeError}
    (failed : searchInstances entails unify typ instances = .error error) : error = .outOfFuel := by
  induction instances with
  | nil => cases failed
  | cons inst instances hypothesis =>
      rw [searchInstances] at failed
      cases attempted : attempt (unify inst.head.typ typ) with
      | error found =>
          rw [attempted] at failed
          cases failed
          exact attempt_eq_error attempted
      | ok unified =>
          rw [attempted] at failed
          cases unified with
          | none => exact hypothesis failed
          | some subst =>
              change allEntailed _ _ >>= _ = _ at failed
              cases context : allEntailed entails (inst.context.map (Predicate.apply subst)) with
              | error found =>
                  rw [context] at failed
                  cases failed
                  exact allEntailed_eq_error context
              | ok holds =>
                  rw [context] at failed
                  cases holds with
                  | false => exact hypothesis failed
                  | true => cases failed

end Answers

namespace ClassEnv

variable {classEnv : ClassEnv} {given : List Predicate}

theorem closureOf_eq_error {fuel : Nat} {error : TypeError}
    (failed : classEnv.closureOf fuel given = .error error) : error = .outOfFuel := by
  rw [closureOf] at failed
  split at failed
  · cases failed
  · cases failed
    rfl

/-- The outcomes of a search that ends, with the expansion of the given
predicates. -/
theorem entails_cases {fuel : Nat} {pred : Predicate}
    (ended : classEnv.entails (fuel + 1) given pred ≠ .error .outOfFuel) :
    ∃ closure, classEnv.closureOf fuel given = .ok closure ∧
      classEnv.entails (fuel + 1) given pred =
        if pred ∈ closure then .ok true
        else if (classEnv.classes.lookup pred.className).isNone then
          .error (.unknownClass pred.className)
        else searchInstances (entails classEnv fuel closure) (unify fuel) pred.typ
          (classEnv.instancesOf pred.className) := by
  cases expanded : classEnv.closureOf fuel given with
  | error error =>
      rw [entails, expanded, closureOf_eq_error expanded] at ended
      exact absurd rfl ended
  | ok closure =>
      refine ⟨closure, rfl, ?_⟩
      rw [entails, expanded]
      rfl

/-- An answer of the search tells whether there is a derivation. -/
theorem entails_correct {fuel : Nat} {pred : Predicate}
    (ended : classEnv.entails fuel given pred ≠ .error .outOfFuel) :
    classEnv.entails fuel given pred = .ok true ↔ classEnv.Derives given pred := by
  induction fuel generalizing given pred with
  | zero => exact absurd rfl ended
  | succ fuel hypothesis =>
      obtain ⟨closure, expanded, unfolded⟩ := entails_cases ended
      rw [unfolded] at ended ⊢
      rw [derives_iff, ← mem_closureOf expanded]
      have derives : ∀ pred, classEnv.Derives closure pred ↔ classEnv.Derives given pred :=
        fun pred => ⟨.mono fun pred => (implied_closureOf expanded pred).mp,
          .mono fun pred => (implied_closureOf expanded pred).mpr⟩
      split_ifs at ended ⊢ with isGiven isUnknown
      · simp [isGiven]
      · simp [isGiven, Option.isNone_iff_eq_none.mp isUnknown]
      · have known : (classEnv.classes.lookup pred.className).isSome := by
          rw [Option.isSome_iff_ne_none]
          exact fun isNone => isUnknown (by rw [isNone]; rfl)
        rw [or_iff_right isGiven, and_iff_right known]
        cases searched : searchInstances (entails classEnv fuel closure) (unify fuel) pred.typ
            (classEnv.instancesOf pred.className) with
        | error error =>
            rw [searched, searchInstances_eq_error searched] at ended
            exact absurd rfl ended
        | ok holds =>
            have answered := searchInstances_ok
              (fun pred ended => (hypothesis ended).trans (derives pred)) searched
            rw [← answered]
            simp

end ClassEnv

end RexLang
