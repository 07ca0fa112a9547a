import Mathlib.Order.WellFounded
import RexLang.Entailment

/-!
# Termination of the instance search

The search returns if and only if no infinite chain of obligations starts at the
predicate, where an obligation is a predicate that the search comes to next.
-/

namespace RexLang

/-! ## Obligations -/

namespace ClassEnv

/-- The search for the second predicate comes to the first: it requires it by an
instance when no earlier instance applies and what is required before it is
derivable. -/
def Obligation (classEnv : ClassEnv) (given : List Predicate) (required pred : Predicate) :
    Prop :=
  ¬classEnv.Implied given pred ∧ (classEnv.classes.lookup pred.className).isSome ∧
    ∃ earlier inst later, classEnv.instancesOf pred.className = earlier ++ inst :: later ∧
      (∀ other ∈ earlier, ¬other.Applies (classEnv.Derives given) pred.typ) ∧
      ∃ subst before constraint after, Unifies inst.head.typ pred.typ subst ∧
        inst.context = before ++ constraint :: after ∧
        (∀ other ∈ before, classEnv.Derives given (other.apply subst)) ∧
        required = constraint.apply subst

/-- The superclass relation has no cycle. -/
def Acyclic (classEnv : ClassEnv) : Prop :=
  ∀ name, ¬Relation.TransGen (fun sup name => sup ∈ classEnv.supersOf name) name name

/-- The search returns. -/
def Returns (classEnv : ClassEnv) (given : List Predicate) (pred : Predicate) : Prop :=
  ∃ fuel, classEnv.entails fuel given pred ≠ .error .outOfFuel

end ClassEnv

/-! ## A search that returns comes to its obligations -/

section Comes

variable {entails : Predicate → Except TypeError Bool} {derivable : Predicate → Prop}
  (correct : ∀ pred, entails pred ≠ .error .outOfFuel → (entails pred = .ok true ↔ derivable pred))

include correct

theorem ended_of_allEntailed {before after : List Predicate} {pred : Predicate}
    (ended : allEntailed entails (before ++ pred :: after) ≠ .error .outOfFuel)
    (derives : ∀ other ∈ before, derivable other) : entails pred ≠ .error .outOfFuel := by
  induction before with
  | nil =>
      intro outOfFuel
      refine ended ?_
      rw [List.nil_append, allEntailed, attempt_eq_outOfFuel.mpr outOfFuel]
      rfl
  | cons first before hypothesis =>
      rw [List.forall_mem_cons] at derives
      rw [List.cons_append, allEntailed] at ended
      have firstEnded : entails first ≠ .error .outOfFuel := by
        intro outOfFuel
        rw [attempt_eq_outOfFuel.mpr outOfFuel] at ended
        exact ended rfl
      rw [(correct first firstEnded).mpr derives.1] at ended
      exact hypothesis ended derives.2

theorem ended_of_searchInstances {fuel : Nat} {typ : Typ} {earlier later : List Instance}
    {inst : Instance} {subst : Subst} {before after : List Predicate} {constraint : Predicate}
    (ended : searchInstances entails (unify fuel) typ (earlier ++ inst :: later) ≠
      .error .outOfFuel)
    (fails : ∀ other ∈ earlier, ¬other.Applies derivable typ)
    (unifies : Unifies inst.head.typ typ subst) (context : inst.context = before ++ constraint :: after)
    (derives : ∀ other ∈ before, derivable (other.apply subst)) :
    entails (constraint.apply subst) ≠ .error .outOfFuel := by
  induction earlier with
  | nil =>
      rw [List.nil_append, searchInstances] at ended
      have unifyEnded : unify fuel inst.head.typ typ ≠ .error .outOfFuel := by
        intro outOfFuel
        rw [attempt_eq_outOfFuel.mpr outOfFuel] at ended
        exact ended rfl
      rw [(unifies_iff unifyEnded).mp unifies] at ended
      change allEntailed _ _ >>= _ ≠ _ at ended
      have contextEnded : allEntailed entails (inst.context.map (Predicate.apply subst)) ≠
          .error .outOfFuel := by
        intro outOfFuel
        rw [outOfFuel] at ended
        exact ended rfl
      rw [context, List.map_append, List.map_cons] at contextEnded
      exact ended_of_allEntailed correct contextEnded (List.forall_mem_map.mpr derives)
  | cons first earlier hypothesis =>
      rw [List.forall_mem_cons] at fails
      rw [List.cons_append, searchInstances] at ended
      refine hypothesis (fun outOfFuel => ended ?_) fails.2
      cases attempted : attempt (unify fuel first.head.typ typ) with
      | error error =>
          rw [attempt_eq_error attempted]
          rfl
      | ok unified =>
          cases unified with
          | none => exact outOfFuel
          | some other =>
              change allEntailed _ _ >>= _ = _
              cases all : allEntailed entails (first.context.map (Predicate.apply other)) with
              | error error =>
                  rw [allEntailed_eq_error all]
                  rfl
              | ok holds =>
                  cases holds with
                  | false => exact outOfFuel
                  | true =>
                      refine absurd ⟨other, ?_, ?_⟩ fails.1
                      · exact ⟨fuel, ((attempt_eq_ok attempted).2 other).mp rfl⟩
                      · exact List.forall_mem_map.mp ((allEntailed_ok correct all).mp rfl)

end Comes

/-! ## A search returns when its obligations do -/

section Ends

variable {entails : Nat → Predicate → Except TypeError Bool} {derivable : Predicate → Prop}
  (correct : ∀ fuel pred, entails fuel pred ≠ .error .outOfFuel →
    (entails fuel pred = .ok true ↔ derivable pred))

include correct

theorem ends_allEntailed {preds : List Predicate}
    (each : ∀ before pred after, preds = before ++ pred :: after →
      (∀ other ∈ before, derivable other) → Ends fun fuel => entails fuel pred) :
    Ends fun fuel => allEntailed (entails fuel) preds := by
  induction preds with
  | nil => exact ends_ok true
  | cons pred preds hypothesis =>
      refine (ends_attempt (each [] pred preds rfl (by simp))).bind fun answer fuel attempted => ?_
      obtain ⟨ended, isAnswer⟩ := attempt_eq_ok attempted
      by_cases isTrue : answer = some true
      · subst isTrue
        have derives := (correct fuel pred ended).mp ((isAnswer true).mp rfl)
        refine hypothesis fun before other after same beforeDerives => ?_
        refine each (pred :: before) other after (by rw [same, List.cons_append]) ?_
        exact List.forall_mem_cons.mpr ⟨derives, beforeDerives⟩
      · have notTrue : answer.getD false = false := by
          cases answer with
          | none => rfl
          | some answer =>
              cases answer with
              | false => rfl
              | true => exact absurd rfl isTrue
        simp only [notTrue]
        exact ends_ok false

theorem ends_searchInstances {typ : Typ} {instances : List Instance}
    (each : ∀ earlier inst later, instances = earlier ++ inst :: later →
      (∀ other ∈ earlier, ¬other.Applies derivable typ) →
      ∀ subst before constraint after, Unifies inst.head.typ typ subst →
        inst.context = before ++ constraint :: after →
        (∀ other ∈ before, derivable (other.apply subst)) →
          Ends fun fuel => entails fuel (constraint.apply subst)) :
    Ends fun fuel => searchInstances (entails fuel) (unify fuel) typ instances := by
  induction instances with
  | nil => exact ends_ok false
  | cons inst instances hypothesis =>
      have next : ¬inst.Applies derivable typ →
          Ends fun fuel => searchInstances (entails fuel) (unify fuel) typ instances := by
        intro fails
        refine hypothesis fun earlier other later same others => ?_
        refine each (inst :: earlier) other later (by rw [same, List.cons_append]) ?_
        exact List.forall_mem_cons.mpr ⟨fails, others⟩
      refine (ends_attempt (ends_unify inst.head.typ typ)).bind fun unified fuel attempted => ?_
      obtain ⟨ended, isUnified⟩ := attempt_eq_ok attempted
      cases unified with
      | none =>
          refine next ?_
          rintro ⟨subst, unifies, -⟩
          cases (isUnified subst).mpr ((unifies_iff ended).mp unifies)
      | some subst =>
          have unifies : Unifies inst.head.typ typ subst := ⟨fuel, (isUnified subst).mp rfl⟩
          refine Ends.bind (ends_allEntailed correct ?_) fun holds fuel found => ?_
          · intro before pred after same derives
            obtain ⟨front, rest, context, rfl, restSame⟩ := List.map_eq_append_iff.mp same
            obtain ⟨constraint, back, rfl, rfl, -⟩ := List.map_eq_cons_iff.mp restSame
            exact each [] inst instances rfl (by simp) subst front constraint back unifies context
              (List.forall_mem_map.mp derives)
          · cases holds with
            | false =>
                refine next ?_
                rintro ⟨other, unifiesOther, derives⟩
                rw [← unifies.unique unifiesOther] at derives
                cases (allEntailed_ok (correct fuel) found).mpr (List.forall_mem_map.mpr derives)
            | true => exact ends_ok true

end Ends

/-! ## Termination -/

namespace ClassEnv

variable {classEnv : ClassEnv} {given : List Predicate}

theorem Acyclic.acc (acyclic : classEnv.Acyclic) (name : Symbol) :
    Acc (fun sup name => sup ∈ classEnv.supersOf name) name := by
  refine (acc_iff_of_finite ?_).mpr fun other _ => acyclic other
  refine Set.Finite.subset
    (List.finite_toSet (name :: classEnv.classes.flatMap fun entry => entry.2.supers)) ?_
  intro other path
  rcases Relation.ReflTransGen.cases_head path with rfl | ⟨middle, isSuper, -⟩
  · exact List.mem_cons_self
  · refine List.mem_cons_of_mem _ (List.mem_flatMap.mpr ?_)
    rw [supersOf] at isSuper
    cases found : classEnv.classes.lookup middle with
    | none => simp [found] at isSuper
    | some entry =>
        obtain ⟨before, after, same, -⟩ := List.lookup_eq_some_iff.mp found
        refine ⟨(middle, entry), by simp [same], ?_⟩
        simpa [found] using isSuper

theorem Acyclic.ends_closureOf (acyclic : classEnv.Acyclic) (given : List Predicate) :
    Ends fun fuel => classEnv.closureOf fuel given := by
  obtain ⟨fuel, closure, expanded⟩ := (exists_expandFrom_iff given).mpr fun pred _ =>
    (classEnv.acc_superPredicates_iff pred).mpr (acyclic.acc pred.className)
  refine ⟨fuel, .ok closure, nofun, fun more enough => ?_⟩
  change classEnv.closureOf more given = _
  rw [closureOf, superclassClosure, expandFrom_mono expanded enough]

/-- The obligations depend on what is implied by the given predicates only. -/
theorem obligation_congr {other : List Predicate}
    (same : ∀ pred, classEnv.Implied given pred ↔ classEnv.Implied other pred) :
    classEnv.Obligation given = classEnv.Obligation other := by
  have implied : classEnv.Implied given = classEnv.Implied other := by
    ext pred
    exact same pred
  have derives : classEnv.Derives given = classEnv.Derives other := by
    ext pred
    exact ⟨.mono fun pred => (same pred).mp, .mono fun pred => (same pred).mpr⟩
  ext required pred
  rw [Obligation, Obligation, implied, derives]

theorem acc_of_returns {fuel : Nat} {pred : Predicate}
    (ended : classEnv.entails fuel given pred ≠ .error .outOfFuel) :
    Acc (classEnv.Obligation given) pred := by
  induction fuel generalizing given pred with
  | zero => exact absurd rfl ended
  | succ fuel hypothesis =>
      obtain ⟨closure, expanded, unfolded⟩ := entails_cases ended
      rw [← obligation_congr (implied_closureOf expanded)]
      refine ⟨_, fun required obligation => hypothesis ?_⟩
      obtain ⟨notImplied, known, earlier, inst, later, instances, fails, subst, before, constraint,
        after, unifies, context, derives, rfl⟩ := obligation
      have notGiven : pred ∉ closure := by
        rw [mem_closureOf expanded, ← implied_closureOf expanded]
        exact notImplied
      have isKnown : ¬(classEnv.classes.lookup pred.className).isNone := by
        rw [Option.isNone_iff_eq_none, ← Option.ne_none_iff_isSome] at *
        exact known
      rw [unfolded, if_neg notGiven, if_neg isKnown, instances] at ended
      have correct : ∀ pred, classEnv.entails fuel closure pred ≠ .error .outOfFuel →
          (classEnv.entails fuel closure pred = .ok true ↔ classEnv.Derives closure pred) :=
        fun _ => entails_correct
      exact ended_of_searchInstances correct ended fails unifies context derives

theorem Acyclic.ends_entails (acyclic : classEnv.Acyclic) {pred : Predicate}
    (founded : Acc (classEnv.Obligation given) pred) :
    Ends fun fuel => classEnv.entails fuel given pred := by
  suffices ends : ∀ other, (∀ pred, classEnv.Implied other pred ↔ classEnv.Implied given pred) →
      Ends fun fuel => classEnv.entails fuel other pred from ends given fun _ => Iff.rfl
  induction founded with
  | intro pred _ hypothesis =>
      intro other same
      refine ends_of_succ ((acyclic.ends_closureOf other).bind fun closure fuel expanded => ?_)
      have sameClosure : ∀ pred, classEnv.Implied closure pred ↔ classEnv.Implied given pred :=
        fun pred => (implied_closureOf expanded pred).trans (same pred)
      split_ifs with isGiven isUnknown
      · exact ends_ok true
      · exact ends_error TypeError.noConfusion
      · have correct : ∀ fuel pred, classEnv.entails fuel closure pred ≠ .error .outOfFuel →
            (classEnv.entails fuel closure pred = .ok true ↔ classEnv.Derives closure pred) :=
          fun _ _ => entails_correct
        refine ends_searchInstances correct ?_
        intro earlier inst later instances fails subst before constraint after unifies context
          derives
        refine hypothesis _ ?_ closure sameClosure
        rw [← obligation_congr sameClosure]
        refine ⟨?_, ?_, earlier, inst, later, instances, fails, subst, before, constraint, after,
          unifies, context, derives, rfl⟩
        · rw [implied_closureOf expanded, ← mem_closureOf expanded]
          exact isGiven
        · rw [Option.isSome_iff_ne_none]
          exact fun isNone => isUnknown (by rw [isNone]; rfl)

/-- With an acyclic superclass relation, the search returns if and only if no
infinite chain of obligations starts at the predicate. -/
theorem returns_iff (acyclic : classEnv.Acyclic) (given : List Predicate) (pred : Predicate) :
    classEnv.Returns given pred ↔ ¬∃ chain : Nat → Predicate, chain 0 = pred ∧
      ∀ index, classEnv.Obligation given (chain (index + 1)) (chain index) := by
  rw [← not_acc_iff_exists_descending_chain, not_not]
  constructor
  · rintro ⟨fuel, ended⟩
    exact acc_of_returns ended
  · intro founded
    obtain ⟨fuel, answer, ended, same⟩ := acyclic.ends_entails founded
    exact ⟨fuel, (same fuel le_rfl).trans_ne ended⟩

end ClassEnv

open TypeSystem RegisterM

theorem ClassEnv.acyclic_of_no_supers {classEnv : ClassEnv}
    (noSupers : ∀ entry ∈ classEnv.classes, entry.2.supers = []) : classEnv.Acyclic := by
  intro name cycle
  obtain ⟨middle, -, isSuper⟩ := Relation.TransGen.tail'_iff.mp cycle
  rw [ClassEnv.supersOf] at isSuper
  cases found : classEnv.classes.lookup name with
  | none => simp [found] at isSuper
  | some entry =>
      obtain ⟨before, after, same, -⟩ := List.lookup_eq_some_iff.mp found
      have isNil : entry.supers = [] := noSupers (name, entry) (by simp [same])
      simp [found, isNil] at isSuper

/-- `class Same a`, `instance Same i32` and `instance Same (List a) <= Same a`. -/
def sameInstances : RegisterM PreparedInstanceDecl := do
  registerClassDecl ⟨.default, "Same", ["a"], [], [], none⟩
  let _ ← registerInstanceDecl
    ⟨.default, [], "Same", .name .default (.unqualified "i32"), [], [], none⟩
  registerInstanceDecl ⟨.default, ["a"], "Same",
    .app .default (.name .default (.unqualified "List")) (.name .default (.unqualified "a")),
    [⟨.unqualified "Same", .name .default (.unqualified "a")⟩], [], none⟩

theorem returns_sameInstances :
    (runFrom .new sameInstances).2.classes.Returns [] ⟨"Same", .list (.builtin .i32)⟩ ∧
      ¬∃ chain : Nat → Predicate, chain 0 = ⟨"Same", .list (.builtin .i32)⟩ ∧
        ∀ index, (runFrom .new sameInstances).2.classes.Obligation [] (chain (index + 1))
          (chain index) := by
  have returns : (runFrom .new sameInstances).2.classes.Returns []
      ⟨"Same", .list (.builtin .i32)⟩ := by
    have answered : (runFrom .new sameInstances).2.classes.entails 4 []
        ⟨"Same", .list (.builtin .i32)⟩ = .ok true := rfl
    exact ⟨4, by rw [answered]; nofun⟩
  refine ⟨returns, (ClassEnv.returns_iff (ClassEnv.acyclic_of_no_supers ?_) _ _).mp returns⟩
  rintro _ (- | ⟨_, ⟨⟩⟩)
  rfl

/-- `class Loop a` and `instance Loop i32 <= Loop i32`. -/
def loopInstance : RegisterM PreparedInstanceDecl := do
  registerClassDecl ⟨.default, "Loop", ["a"], [], [], none⟩
  registerInstanceDecl ⟨.default, [], "Loop", .name .default (.unqualified "i32"),
    [⟨.unqualified "Loop", .name .default (.unqualified "i32")⟩], [], none⟩

/-- An instance that requires itself is accepted, and the search for its
predicate never returns. -/
theorem not_returns_loopInstance :
    ∃ prepared system, runFrom .new loopInstance = (.ok prepared, system) ∧
      system.classes.Acyclic ∧ ¬system.classes.Returns [] ⟨"Loop", .builtin .i32⟩ := by
  refine ⟨_, (runFrom .new loopInstance).2, rfl, ?_, ?_⟩
  · apply ClassEnv.acyclic_of_no_supers
    rintro _ (- | ⟨_, ⟨⟩⟩)
    rfl
  · rintro ⟨fuel, ended⟩
    refine not_acc_of_transGen (ClassEnv.acc_of_returns ended) (.single ?_)
    refine ⟨?_, rfl, [], _, [], rfl, by simp, [], [], ⟨"Loop", .builtin .i32⟩, [], ?_, rfl, by simp,
      rfl⟩
    · rintro ⟨_, member, -⟩
      cases member
    · exact ⟨1, rfl⟩

end RexLang
