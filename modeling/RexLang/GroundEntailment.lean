import RexLang.InstanceSearch

/-!
# Entailment of ground predicates

The inductive relation of entailment, where ground types are chosen for the
variables of a context that the head leaves open, against the answers of the
search, which leaves these variables as they are.
-/

namespace RexLang

/-! ## The inductive relation -/

namespace ClassEnv

/-- Derivations from the given predicates, the superclass relation on them, and
instances, with ground types for the variables of a context that are left. -/
inductive Entailed (classEnv : ClassEnv) (given : List Predicate) : Predicate → Prop
  | given {pred : Predicate} : classEnv.Implied given pred → Entailed classEnv given pred
  | inst {pred : Predicate} {inst : Instance} {subst : Subst} {valuation : TypeVarId → Typ} :
      inst ∈ classEnv.instancesOf pred.className → Unifies inst.head.typ pred.typ subst →
        (∀ id, (valuation id).Ground) →
          (∀ required ∈ inst.context,
            Entailed classEnv given ((required.apply subst).subst valuation)) →
              Entailed classEnv given pred

/-- The predicates that the search comes to have no variables, and their classes
are declared unless they have no instances. -/
def SearchesGround (classEnv : ClassEnv) (given : List Predicate) (pred : Predicate) : Prop :=
  ∀ required, Relation.ReflTransGen (classEnv.Obligation given) required pred →
    required.typ.Ground ∧ ((classEnv.classes.lookup required.className).isSome ∨
      classEnv.instancesOf required.className = [])

variable {classEnv : ClassEnv} {given : List Predicate}

theorem subst_of_ground {pred : Predicate} (ground : pred.typ.Ground)
    (valuation : TypeVarId → Typ) : pred.subst valuation = pred := by
  obtain ⟨name, typ⟩ := pred
  have same : typ.subst valuation = typ := by
    refine (Typ.bindVars_congr fun typeVar member => ?_).trans (Typ.bindVars_var_self typ)
    rw [show typ.ftv = ∅ from ground] at member
    cases member
  rw [Predicate.subst, same]

/-- The first instance that applies, of those of a class. -/
theorem exists_first_applies {instances : List Instance} {derivable : Predicate → Prop}
    {typ : Typ} (applies : ∃ inst ∈ instances, inst.Applies derivable typ) :
    ∃ earlier inst later, instances = earlier ++ inst :: later ∧
      (∀ other ∈ earlier, ¬other.Applies derivable typ) ∧ inst.Applies derivable typ := by
  induction instances with
  | nil =>
      obtain ⟨_, member, -⟩ := applies
      cases member
  | cons inst instances hypothesis =>
      by_cases here : inst.Applies derivable typ
      · exact ⟨[], inst, instances, rfl, by simp, here⟩
      · obtain ⟨other, member, applies⟩ := applies
        have later : other ∈ instances := by
          rcases List.mem_cons.mp member with rfl | member
          · exact absurd applies here
          · exact member
        obtain ⟨earlier, first, rest, same, fails, applies⟩ := hypothesis ⟨other, later, applies⟩
        refine ⟨inst :: earlier, first, rest, by rw [same, List.cons_append], ?_, applies⟩
        exact List.forall_mem_cons.mpr ⟨here, fails⟩

theorem SearchesGround.of_obligation {required pred : Predicate}
    (searches : classEnv.SearchesGround given pred)
    (obligation : classEnv.Obligation given required pred) :
    classEnv.SearchesGround given required :=
  fun other path => searches other (path.tail obligation)

/-- Where the search comes to ground predicates only, its derivations are those of
the inductive relation. -/
theorem SearchesGround.derives_iff {pred : Predicate}
    (founded : Acc (classEnv.Obligation given) pred)
    (searches : classEnv.SearchesGround given pred) :
    classEnv.Derives given pred ↔ classEnv.Entailed given pred := by
  induction founded with
  | intro pred _ hypothesis =>
      by_cases implied : classEnv.Implied given pred
      · exact ⟨fun _ => .given implied, fun _ => .given implied⟩
      · constructor
        · intro derives
          obtain ⟨known, applies⟩ := (ClassEnv.derives_iff.mp derives).resolve_left implied
          obtain ⟨earlier, inst, later, instances, fails, subst, unifies, context⟩ :=
            exists_first_applies applies
          have member : inst ∈ classEnv.instancesOf pred.className := by simp [instances]
          refine .inst member unifies (fun _ => (rfl : (Typ.builtin .i32).Ground)) ?_
          intro required isRequired
          obtain ⟨before, after, same⟩ := List.append_of_mem isRequired
          have obligation : classEnv.Obligation given (required.apply subst) pred := by
            refine ⟨implied, known, earlier, inst, later, instances, fails, subst, before,
              required, after, unifies, same, fun other isBefore => ?_, rfl⟩
            exact context other (by simp [same, isBefore])
          have ground := (searches _ (.single obligation)).1
          rw [subst_of_ground ground]
          exact (hypothesis _ obligation (searches.of_obligation obligation)).mp
            (context required isRequired)
        · intro entailed
          cases entailed with
          | given isGiven => exact .given isGiven
          | @inst _ inst subst valuation member unifies _ context =>
              by_contra notDerives
              have known : (classEnv.classes.lookup pred.className).isSome := by
                refine (searches pred .refl).2.resolve_right fun noInstances => ?_
                rw [noInstances] at member
                cases member
              have fails : ∀ other ∈ classEnv.instancesOf pred.className,
                  ¬other.Applies (classEnv.Derives given) pred.typ := by
                intro other isInstance applies
                exact notDerives (ClassEnv.derives_iff.mpr (.inr ⟨known, other, isInstance, applies⟩))
              obtain ⟨earlier, later, instances⟩ := List.append_of_mem member
              refine fails inst member ⟨subst, unifies, ?_⟩
              -- the context is derivable from left to right
              have prefixes : ∀ before after, inst.context = before ++ after →
                  ∀ other ∈ before, classEnv.Derives given (other.apply subst) := by
                intro before
                induction before using List.reverseRecOn with
                | nil => simp
                | append_singleton before required prefixHypothesis =>
                    intro after same other isOther
                    have derives := prefixHypothesis (required :: after) (by simpa using same)
                    rcases List.mem_append.mp isOther with isOther | isOther
                    · exact derives other isOther
                    · rw [List.mem_singleton.mp isOther]
                      have obligation : classEnv.Obligation given (required.apply subst) pred := by
                        refine ⟨implied, known, earlier, inst, later, instances, ?_, subst,
                          before, required, after, unifies, by simpa using same, derives, rfl⟩
                        exact fun other isEarlier => fails other (by simp [instances, isEarlier])
                      have ground := (searches _ (.single obligation)).1
                      refine (hypothesis _ obligation (searches.of_obligation obligation)).mpr ?_
                      rw [← subst_of_ground ground valuation]
                      exact context required (by simp [same])
              exact fun other isOther => prefixes inst.context [] (by simp) other isOther

/-! ## Outcomes -/

theorem entails_of_not_derives {fuel : Nat} {pred : Predicate}
    (ended : classEnv.entails fuel given pred ≠ .error .outOfFuel)
    (fails : ¬classEnv.Derives given pred) :
    classEnv.entails fuel given pred =
      if (classEnv.classes.lookup pred.className).isNone then
        .error (.unknownClass pred.className)
      else .ok false := by
  cases fuel with
  | zero => exact absurd rfl ended
  | succ fuel =>
      have notTrue := mt (entails_correct ended).mp fails
      obtain ⟨closure, expanded, unfolded⟩ := entails_cases ended
      have notGiven : pred ∉ closure :=
        fun isGiven => fails (.given ((mem_closureOf expanded pred).mp isGiven))
      rw [if_neg notGiven] at unfolded
      rw [unfolded] at ended notTrue ⊢
      cases isUnknown : (classEnv.classes.lookup pred.className).isNone with
      | true => rfl
      | false =>
          simp only [isUnknown, Bool.false_eq_true, if_false] at ended notTrue ⊢
          cases searched : searchInstances (entails classEnv fuel closure) (unify fuel) pred.typ
              (classEnv.instancesOf pred.className) with
          | error error =>
              rw [searched, searchInstances_eq_error searched] at ended
              exact absurd rfl ended
          | ok holds =>
              cases holds with
              | false => rfl
              | true => exact absurd searched notTrue

/-- Derivations use the instances of the classes in any order. -/
theorem Derives.mono_instances {instances : List (Symbol × List Instance)} {more : List Predicate}
    (givenSubset : given ⊆ more)
    (instancesSubset : ∀ name,
      classEnv.instancesOf name ⊆ instancesOf ⟨classEnv.classes, instances⟩ name)
    {pred : Predicate} (derives : classEnv.Derives given pred) :
    Derives ⟨classEnv.classes, instances⟩ more pred := by
  induction derives with
  | given implied =>
      obtain ⟨start, member, path⟩ := implied
      exact .given ⟨start, givenSubset member, path⟩
  | inst known member unifies _ hypothesis =>
      exact .inst known (instancesSubset _ member) unifies hypothesis

/-- Two searches that end have the same outcome when the same predicates are
given and each class has the same instances. -/
theorem entails_congr {instances : List (Symbol × List Instance)} {more : List Predicate}
    (sameGiven : ∀ pred, pred ∈ given ↔ pred ∈ more)
    (sameInstances : ∀ name inst, inst ∈ classEnv.instancesOf name ↔
      inst ∈ instancesOf ⟨classEnv.classes, instances⟩ name)
    {pred : Predicate} {fuel otherFuel : Nat}
    (ended : classEnv.entails fuel given pred ≠ .error .outOfFuel)
    (otherEnded : entails ⟨classEnv.classes, instances⟩ otherFuel more pred ≠ .error .outOfFuel) :
    entails ⟨classEnv.classes, instances⟩ otherFuel more pred =
      classEnv.entails fuel given pred := by
  have same : classEnv.Derives given pred ↔ Derives ⟨classEnv.classes, instances⟩ more pred :=
    ⟨.mono_instances (fun _ => (sameGiven _).mp) fun _ _ => (sameInstances _ _).mp,
      .mono_instances (fun _ => (sameGiven _).mpr) fun _ _ => (sameInstances _ _).mpr⟩
  by_cases derives : classEnv.Derives given pred
  · rw [(entails_correct ended).mpr derives, (entails_correct otherEnded).mpr (same.mp derives)]
  · rw [entails_of_not_derives ended derives, entails_of_not_derives otherEnded (mt same.mpr derives)]

/-- The answer of a search over ground predicates is that of the inductive
relation; it does not depend on the order of the instances or of the given
predicates, and stays true with more of them. -/
theorem entails_of_searchesGround {pred : Predicate} {fuel : Nat} {holds : Bool}
    (answered : classEnv.entails fuel given pred = .ok holds) :
    (classEnv.SearchesGround given pred → (holds = true ↔ classEnv.Entailed given pred)) ∧
      (∀ instances more otherFuel, (∀ pred, pred ∈ given ↔ pred ∈ more) →
        (∀ name inst, inst ∈ classEnv.instancesOf name ↔
          inst ∈ instancesOf ⟨classEnv.classes, instances⟩ name) →
        entails ⟨classEnv.classes, instances⟩ otherFuel more pred ≠ .error .outOfFuel →
          entails ⟨classEnv.classes, instances⟩ otherFuel more pred = .ok holds) ∧
      ∀ more otherFuel, given ⊆ more → holds = true →
        classEnv.entails otherFuel more pred ≠ .error .outOfFuel →
          classEnv.entails otherFuel more pred = .ok true := by
  have ended : classEnv.entails fuel given pred ≠ .error .outOfFuel := by
    rw [answered]
    nofun
  have correct := entails_correct ended
  rw [answered, Except.ok.injEq] at correct
  refine ⟨fun searches => ?_, ?_, ?_⟩
  · rw [correct, searches.derives_iff (acc_of_returns ended)]
  · intro instances more otherFuel sameGiven sameInstances otherEnded
    rw [← answered]
    exact entails_congr sameGiven sameInstances ended otherEnded
  · intro more otherFuel subset isTrue otherEnded
    exact (entails_correct otherEnded).mpr
      (.mono_instances subset (fun _ => List.Subset.refl _) (correct.mp isTrue))

end ClassEnv

/-! ## Runs -/

open TypeSystem RegisterM

theorem entails_sameInstances :
    (runFrom .new sameInstances).2.classes.entails 4 [] ⟨"Same", .list (.builtin .i32)⟩ = .ok true ∧
      (runFrom .new sameInstances).2.classes.entails 5 [⟨"Same", .builtin .bool⟩]
        ⟨"Same", .list (.builtin .i32)⟩ = .ok true := by
  have answered : (runFrom .new sameInstances).2.classes.entails 4 []
      ⟨"Same", .list (.builtin .i32)⟩ = .ok true := rfl
  refine ⟨answered, (ClassEnv.entails_of_searchesGround answered).2.2 _ 5 (by simp) rfl ?_⟩
  have more : (runFrom .new sameInstances).2.classes.entails 5 [⟨"Same", .builtin .bool⟩]
      ⟨"Same", .list (.builtin .i32)⟩ = .ok true := rfl
  rw [more]
  nofun

/-- A constant is unified with one ground type only. -/
theorem eq_con_of_unifies {const : TypeConst} {typ : Typ} {subst : Subst} (ground : typ.Ground)
    (unifies : Unifies (.con const) typ subst) : typ = .con const := by
  obtain ⟨fuel, found⟩ := unifies
  cases fuel with
  | zero => cases found
  | succ fuel =>
      cases typ with
      | var typeVar => simp [Typ.Ground, Typ.ftv] at ground
      | con other =>
          simp only [unify] at found
          split_ifs at found with same
          rw [same]
      | app head arg => cases found
      | func arg ret => cases found
      | tuple elems => cases found
      | record fields => cases found

/-- The declaration of a class without superclasses and methods. -/
def bareClass (name : Symbol) : ClassDecl :=
  ⟨.default, name, ["a"], [], [], none⟩

/-- `class C a`, `class E a`, `class D a`, `instance C i32`, `instance E Bool` and
`instance D i32 <= C b, E b` with a parameter `b` of the instance. -/
def openInstance : RegisterM PreparedInstanceDecl := do
  registerClassDecl (bareClass "C")
  registerClassDecl (bareClass "E")
  registerClassDecl (bareClass "D")
  let _ ← registerInstanceDecl
    ⟨.default, [], "C", .name .default (.unqualified "i32"), [], [], none⟩
  let _ ← registerInstanceDecl
    ⟨.default, [], "E", .name .default (.unqualified "Bool"), [], [], none⟩
  registerInstanceDecl ⟨.default, ["b"], "D", .name .default (.unqualified "i32"),
    [⟨.unqualified "C", .name .default (.unqualified "b")⟩,
      ⟨.unqualified "E", .name .default (.unqualified "b")⟩], [], none⟩

/-- A system with such classes and with instances. -/
def bareSystem (names : List Symbol) (instances : SymbolMap (List Instance)) (counter : Nat) :
    TypeSystem :=
  ⟨[], ⟨names.map fun name => (name, ⟨[]⟩), instances⟩, [], [],
    names.map fun name => (name, ⟨name, ["a"], [], [], none⟩), [], ⟨counter⟩⟩

/-- The instances of `openInstance`. -/
def openInstances : SymbolMap (List Instance) :=
  [("C", [⟨[], ⟨"C", .builtin .i32⟩, none⟩]),
    ("D", [⟨[⟨"C", .var ⟨0, some "b"⟩⟩, ⟨"E", .var ⟨0, some "b"⟩⟩], ⟨"D", .builtin .i32⟩, none⟩]),
    ("E", [⟨[], ⟨"E", .builtin .bool⟩, none⟩])]

theorem runFrom_openInstance : ∃ prepared, runFrom .new openInstance =
    (.ok prepared, bareSystem ["C", "D", "E"] openInstances 1) := by
  refine ⟨⟨.default, "D", .builtin .i32,
    [⟨"C", .var ⟨0, some "b"⟩⟩, ⟨"E", .var ⟨0, some "b"⟩⟩], [("b", ⟨0, some "b"⟩)]⟩, ?_⟩
  refine runFrom_bind_ok.mpr ⟨_, bareSystem ["C"] [] 0, rfl, ?_⟩
  refine runFrom_bind_ok.mpr ⟨_, bareSystem ["C", "E"] [] 0, rfl, ?_⟩
  refine runFrom_bind_ok.mpr ⟨_, bareSystem ["C", "D", "E"] [] 0, rfl, ?_⟩
  refine runFrom_bind_ok.mpr
    ⟨_, bareSystem ["C", "D", "E"] [("C", [⟨[], ⟨"C", .builtin .i32⟩, none⟩])] 0, rfl, ?_⟩
  refine runFrom_bind_ok.mpr
    ⟨_, bareSystem ["C", "D", "E"] [("C", [⟨[], ⟨"C", .builtin .i32⟩, none⟩]),
      ("E", [⟨[], ⟨"E", .builtin .bool⟩, none⟩])] 0, rfl, ?_⟩
  exact rfl

/-- The search answers that `D i32` holds, with different types for the two
occurrences of the variable. -/
theorem entails_openInstance :
    ∃ prepared system, runFrom .new openInstance = (.ok prepared, system) ∧
      system.classes.entails 4 [] ⟨"D", .builtin .i32⟩ = .ok true ∧
      ¬system.classes.Entailed [] ⟨"D", .builtin .i32⟩ := by
  obtain ⟨prepared, ran⟩ := runFrom_openInstance
  refine ⟨prepared, _, ran, rfl, ?_⟩
  generalize same : (bareSystem ["C", "D", "E"] openInstances 1).classes = classEnv
  have notImplied : ∀ pred, ¬classEnv.Implied [] pred := by
    rintro pred ⟨_, member, -⟩
    cases member
  have ofClass : ∀ name const, classEnv.instancesOf name = [⟨[], ⟨name, .con const⟩, none⟩] →
      ∀ typ : Typ, typ.Ground → classEnv.Entailed [] ⟨name, typ⟩ → typ = .con const := by
    intro name const instances typ ground entailed
    cases entailed with
    | given implied => exact absurd implied (notImplied _)
    | inst member unifies _ _ =>
        rw [instances, List.mem_singleton] at member
        subst member
        exact eq_con_of_unifies ground unifies
  intro entailed
  cases entailed with
  | given implied => exact notImplied _ implied
  | @inst _ inst subst valuation member unifies ground context =>
      have isInstance : inst = ⟨[⟨"C", .var ⟨0, some "b"⟩⟩, ⟨"E", .var ⟨0, some "b"⟩⟩],
          ⟨"D", .builtin .i32⟩, none⟩ := by
        rw [← same] at member
        exact List.mem_singleton.mp member
      subst isInstance
      have isEmpty : subst = [] := unifies.unique ⟨1, rfl⟩
      subst isEmpty
      have isI32 := ofClass "C" _ (by rw [← same]; rfl) _ (ground 0)
        (context _ List.mem_cons_self)
      have isBool := ofClass "E" _ (by rw [← same]; rfl) _ (ground 0)
        (context _ (List.mem_cons_of_mem _ List.mem_cons_self))
      rw [isI32] at isBool
      cases isBool

end RexLang
