import RexLang.ExpansionLoop
import RexLang.RegistrationEffects

/-!
# Superclass expansion

The loops that add the superclasses of given predicates, and when they end for
the classes of accepted declarations.
-/

namespace RexLang

/-! ## The loops -/

namespace ClassEnv

/-- The predicates that a predicate adds to the expansion. -/
def superPredicates (classEnv : ClassEnv) (pred : Predicate) : List Predicate :=
  (classEnv.supersOf pred.className).map fun sup => ⟨sup, pred.typ⟩

/-- `superclass_closure`, and the expansion at the start of `entails`; `fuel`
bounds the number of steps. -/
def superclassClosure (fuel : Nat) (classEnv : ClassEnv) (given : List Predicate) :
    Option (List Predicate) :=
  expandFrom classEnv.superPredicates fuel given 0

/-- The expansion in `typecheck_instance_method`. -/
def instanceMethodGiven (fuel : Nat) (classEnv : ClassEnv)
    (prepared : TypeSystem.PreparedInstanceDecl) : Option (List Predicate) :=
  expandFrom classEnv.superPredicates fuel
    (prepared.context ++ [⟨prepared.className, prepared.head⟩]) 0

end ClassEnv

/-! ## Declared classes -/

open TypeSystem RegisterM

/-- Type systems whose classes come from these accepted declarations. -/
inductive Declared : List ClassDecl → TypeSystem → Prop
  | new : Declared [] .new
  | decl {decls : List ClassDecl} {system after : TypeSystem} {decl : ClassDecl} :
      Declared decls system → runFrom system (registerClassDecl decl) = (.ok (), after) →
        Declared (decls ++ [decl]) after
  | batch {decls batch : List ClassDecl} {system after : TypeSystem} :
      Declared decls system → runFrom system (registerClassDecls batch) = (.ok (), after) →
        Declared (decls ++ batch) after
  | other {decls : List ClassDecl} {system after : TypeSystem} :
      Declared decls system → after.classes.classes = system.classes.classes →
        after.classInfo = system.classInfo → Declared decls after

/-- The classes of the declarations, with their superclasses. -/
structure Lists (decls : List ClassDecl) (classes : SymbolMap Class) : Prop where
  nodup : (decls.map ClassDecl.name).Nodup
  lookup_of_mem : ∀ decl ∈ decls, classes.lookup decl.name = some ⟨superNames decl⟩
  lookup_eq_none : ∀ name, name ∉ decls.map ClassDecl.name → classes.lookup name = none

section Batch

variable {system after : TypeSystem} {decls batch : List ClassDecl}

theorem headers_ok {seen : List Symbol}
    (accepted : runFrom system (registerClassDeclHeaders batch seen) = (.ok (), after)) :
    (batch.map ClassDecl.name).Nodup ∧
      (∀ decl ∈ batch, decl.name ∉ seen ∧ system.classes.classes.lookup decl.name = none) ∧
        ∀ name, name ∉ batch.map ClassDecl.name →
          after.classes.classes.lookup name = system.classes.classes.lookup name := by
  induction batch generalizing system seen with
  | nil =>
      cases accepted
      exact ⟨.nil, by simp, fun _ _ => rfl⟩
  | cons decl batch hypothesis =>
      rw [registerClassDeclHeaders] at accepted
      split_ifs at accepted with isSeen
      · rw [runFrom_withSpan] at accepted
        cases accepted
      · rw [runFrom_bind_ok] at accepted
        obtain ⟨_, between, header, accepted⟩ := accepted
        rw [runFrom_withSpan_ok] at header
        obtain ⟨isNew, rfl⟩ := runFrom_registerClassDeclHeader_ok header
        obtain ⟨nodup, rest, same⟩ := hypothesis accepted
        have different : ∀ other ∈ batch, other.name ≠ decl.name := fun other member equal =>
          (rest other member).1 (equal ▸ List.mem_cons_self)
        refine ⟨List.nodup_cons.mpr ⟨?_, nodup⟩, ?_, ?_⟩
        · rw [List.mem_map]
          rintro ⟨other, member, equal⟩
          exact different other member equal
        · intro other member
          rcases List.mem_cons.mp member with rfl | member
          · exact ⟨isSeen, isNew⟩
          · obtain ⟨notSeen, isNone⟩ := rest other member
            simp only [ClassEnv.addClass, lookup_insert, if_neg (different other member)] at isNone
            exact ⟨fun seen => notSeen (.tail _ seen), isNone⟩
        · intro name notMember
          simp only [List.map_cons, List.mem_cons, not_or] at notMember
          rw [same name notMember.2]
          simp [ClassEnv.addClass, lookup_insert, notMember.1]

theorem bodies_ok (nodup : (batch.map ClassDecl.name).Nodup)
    (accepted : runFrom system (batch.forM registerClassDeclBody) = (.ok (), after)) :
    (∀ decl ∈ batch, after.classes.classes.lookup decl.name = some ⟨superNames decl⟩) ∧
      ∀ name, name ∉ batch.map ClassDecl.name →
        after.classes.classes.lookup name = system.classes.classes.lookup name := by
  induction batch generalizing system with
  | nil =>
      cases accepted
      exact ⟨by simp, fun _ _ => rfl⟩
  | cons decl batch hypothesis =>
      rw [List.forM, runFrom_bind_ok] at accepted
      obtain ⟨_, between, body, accepted⟩ := accepted
      obtain ⟨notMember, nodup⟩ := List.nodup_cons.mp nodup
      obtain ⟨rest, same⟩ := hypothesis nodup accepted
      rw [runFrom_registerClassDeclBody_ok body] at same
      simp only [ClassEnv.addClass, lookup_insert] at same
      refine ⟨?_, ?_⟩
      · intro other member
        rcases List.mem_cons.mp member with rfl | member
        · rw [same _ notMember, if_pos rfl]
        · exact rest other member
      · intro name outside
        simp only [List.map_cons, List.mem_cons, not_or] at outside
        rw [same name outside.2, if_neg outside.1]

theorem Lists.append (lists : Lists decls system.classes.classes)
    (nodup : (batch.map ClassDecl.name).Nodup)
    (isNew : ∀ decl ∈ batch, system.classes.classes.lookup decl.name = none)
    (added : ∀ decl ∈ batch, after.classes.classes.lookup decl.name = some ⟨superNames decl⟩)
    (same : ∀ name, name ∉ batch.map ClassDecl.name →
      after.classes.classes.lookup name = system.classes.classes.lookup name) :
    Lists (decls ++ batch) after.classes.classes := by
  have apart : ∀ decl ∈ decls, decl.name ∉ batch.map ClassDecl.name := by
    intro decl member found
    obtain ⟨other, otherMember, equal⟩ := List.mem_map.mp found
    have isNone := isNew other otherMember
    rw [equal, lists.lookup_of_mem decl member] at isNone
    cases isNone
  refine ⟨?_, ?_, ?_⟩
  · rw [List.map_append, List.nodup_append]
    refine ⟨lists.nodup, nodup, ?_⟩
    intro name member other otherMember equal
    obtain ⟨decl, declMember, rfl⟩ := List.mem_map.mp member
    exact apart decl declMember (equal ▸ otherMember)
  · intro decl member
    rcases List.mem_append.mp member with member | member
    · rw [same _ (apart decl member)]
      exact lists.lookup_of_mem decl member
    · exact added decl member
  · intro name notMember
    rw [List.map_append, List.mem_append, not_or] at notMember
    rw [same name notMember.2]
    exact lists.lookup_eq_none name notMember.1

end Batch

theorem Declared.lists {decls : List ClassDecl} {system : TypeSystem}
    (declared : Declared decls system) : Lists decls system.classes.classes := by
  induction declared with
  | new => exact ⟨.nil, by simp, fun _ _ => rfl⟩
  | @decl decls system after decl _ accepted hypothesis =>
      rw [registerClassDecl, runFrom_withSpan_ok, runFrom_bind_ok] at accepted
      obtain ⟨_, between, header, body⟩ := accepted
      obtain ⟨isNew, rfl⟩ := runFrom_registerClassDeclHeader_ok header
      have changed := runFrom_registerClassDeclBody_ok body
      apply hypothesis.append
      · exact List.nodup_singleton _
      · simpa using isNew
      · simp [changed, ClassEnv.addClass, lookup_insert]
      · intro name different
        have different : name ≠ decl.name := by simpa using different
        simp [changed, ClassEnv.addClass, lookup_insert, different]
  | @batch decls batch system after _ accepted hypothesis =>
      rw [registerClassDecls, runFrom_bind_ok] at accepted
      obtain ⟨_, between, headers, bodies⟩ := accepted
      obtain ⟨nodup, isNew, sameHeaders⟩ := headers_ok headers
      obtain ⟨added, sameBodies⟩ := bodies_ok nodup bodies
      apply hypothesis.append
      · exact nodup
      · exact fun decl member => (isNew decl member).2
      · exact added
      · exact fun name different =>
          (sameBodies name different).trans (sameHeaders name different)
  | other _ same _ hypothesis => rwa [same]

/-- The second class is a superclass of the first, by the declarations. -/
def SuperclassOf (decls : List ClassDecl) (name sup : Symbol) : Prop :=
  ∃ decl ∈ decls, decl.name = name ∧ sup ∈ superNames decl

theorem Declared.mem_supersOf {decls : List ClassDecl} {system : TypeSystem}
    (declared : Declared decls system) {name sup : Symbol} :
    sup ∈ system.classes.supersOf name ↔ SuperclassOf decls name sup := by
  have lists := declared.lists
  rw [ClassEnv.supersOf]
  constructor
  · intro member
    by_cases known : name ∈ decls.map ClassDecl.name
    · obtain ⟨decl, declMember, rfl⟩ := List.mem_map.mp known
      rw [lists.lookup_of_mem decl declMember] at member
      exact ⟨decl, declMember, rfl, member⟩
    · rw [lists.lookup_eq_none name known] at member
      simp at member
  · rintro ⟨decl, member, rfl, isSuper⟩
    rw [lists.lookup_of_mem decl member]
    exact isSuper

/-! ## Termination -/

/-- A cycle of superclasses is reached from a class. -/
def ReachesCycle (decls : List ClassDecl) (name : Symbol) : Prop :=
  ∃ other, Relation.ReflTransGen (SuperclassOf decls) name other ∧
    Relation.TransGen (SuperclassOf decls) other other

theorem finite_superclasses (decls : List ClassDecl) (name : Symbol) :
    {other | Relation.ReflTransGen (fun sup name => SuperclassOf decls name sup) other
      name}.Finite := by
  refine Set.Finite.subset (List.finite_toSet (name :: decls.flatMap superNames)) ?_
  intro other path
  rcases Relation.ReflTransGen.cases_head path with rfl | ⟨_, ⟨decl, member, _, isSuper⟩, _⟩
  · exact List.mem_cons_self
  · exact List.mem_cons_of_mem _ (List.mem_flatMap.mpr ⟨decl, member, isSuper⟩)

theorem acc_superclassOf_iff (decls : List ClassDecl) (name : Symbol) :
    Acc (fun sup name => SuperclassOf decls name sup) name ↔ ¬ReachesCycle decls name := by
  rw [acc_iff_of_finite (finite_superclasses decls name), ReachesCycle, not_exists]
  refine forall_congr' fun other => ?_
  rw [not_and, ← Relation.reflTransGen_swap, ← Relation.transGen_swap]

/-- The expansion of a predicate follows the superclasses of its class. -/
theorem ClassEnv.acc_superPredicates_iff (classEnv : ClassEnv) (pred : Predicate) :
    Acc (IsSuccessor classEnv.superPredicates) pred ↔
      Acc (fun sup name => sup ∈ classEnv.supersOf name) pred.className := by
  have isSuccessor : ∀ next pred, IsSuccessor classEnv.superPredicates next pred ↔
      next.className ∈ classEnv.supersOf pred.className ∧ next.typ = pred.typ := by
    intro next pred
    rw [IsSuccessor, superPredicates, List.mem_map]
    constructor
    · rintro ⟨sup, member, rfl⟩
      exact ⟨member, rfl⟩
    · rintro ⟨member, same⟩
      exact ⟨next.className, member, by rw [← same]⟩
  constructor
  · intro founded
    induction founded with
    | intro pred _ hypothesis =>
        refine ⟨_, fun sup isSuper => ?_⟩
        exact hypothesis ⟨sup, pred.typ⟩ ((isSuccessor _ _).mpr ⟨isSuper, rfl⟩)
  · intro founded
    obtain ⟨name, typ⟩ := pred
    change Acc _ name at founded
    induction founded with
    | intro name _ hypothesis =>
        refine ⟨_, fun next step => ?_⟩
        obtain ⟨isSuper, same⟩ := (isSuccessor _ _).mp step
        obtain ⟨sup, other⟩ := next
        change other = typ at same
        subst same
        exact hypothesis sup isSuper

theorem Declared.expandFrom_iff {decls : List ClassDecl} {system : TypeSystem}
    (declared : Declared decls system) (given : List Predicate) :
    (∃ fuel closure, expandFrom system.classes.superPredicates fuel given 0 = some closure) ↔
      ∀ pred ∈ given, ¬ReachesCycle decls pred.className := by
  rw [exists_expandFrom_iff]
  refine forall₂_congr fun pred _ => ?_
  rw [ClassEnv.acc_superPredicates_iff, ← acc_superclassOf_iff]
  have same : (fun sup name => sup ∈ system.classes.supersOf name) =
      fun sup name => SuperclassOf decls name sup := by
    ext sup name
    exact declared.mem_supersOf
  rw [same]

/-- The expansions end if and only if no class of the predicates reaches a cycle
of superclasses. -/
theorem superclassExpansion_ends_iff {decls : List ClassDecl} {system : TypeSystem}
    (declared : Declared decls system) :
    (∀ given, (∃ fuel closure, system.classes.superclassClosure fuel given = some closure) ↔
      ∀ pred ∈ given, ¬ReachesCycle decls pred.className) ∧
    ∀ prepared : PreparedInstanceDecl,
      (∃ fuel given, system.classes.instanceMethodGiven fuel prepared = some given) ↔
        (∀ pred ∈ prepared.context, ¬ReachesCycle decls pred.className) ∧
          ¬ReachesCycle decls prepared.className := by
  refine ⟨declared.expandFrom_iff, fun prepared => ?_⟩
  refine (declared.expandFrom_iff _).trans ?_
  constructor
  · intro each
    refine ⟨fun pred member => each pred (List.mem_append_left _ member), ?_⟩
    exact each ⟨prepared.className, prepared.head⟩ (by simp)
  · rintro ⟨context, head⟩ pred member
    rcases List.mem_append.mp member with member | member
    · exact context pred member
    · rw [List.mem_singleton.mp member]
      exact head

/-- `class Eq a` and `class Ord a <= Eq a`, without methods. -/
def orderClasses : List ClassDecl :=
  [⟨.default, "Eq", ["a"], [], [], none⟩,
    ⟨.default, "Ord", ["a"], [⟨.unqualified "Eq", .name .default (.unqualified "a")⟩], [], none⟩]

theorem superclassExpansion_ends_orderClasses :
    ∃ system, runFrom .new (registerClassDecls orderClasses) = (.ok (), system) ∧
      ∃ fuel closure,
        system.classes.superclassClosure fuel [⟨"Ord", .builtin .i32⟩] = some closure := by
  refine ⟨(runFrom .new (registerClassDecls orderClasses)).2, rfl, ?_⟩
  have declared : Declared ([] ++ orderClasses)
      (runFrom .new (registerClassDecls orderClasses)).2 := .batch .new rfl
  refine ((superclassExpansion_ends_iff declared).1 _).mpr ?_
  have isSuper : ∀ name sup, SuperclassOf ([] ++ orderClasses) name sup →
      name = "Ord" ∧ sup = "Eq" := by
    rintro name sup ⟨decl, member, rfl, isSuper⟩
    simp only [orderClasses, List.nil_append, List.mem_cons, List.not_mem_nil, or_false] at member
    rcases member with rfl | rfl
    · cases isSuper
    · exact ⟨rfl, by simpa [superNames, NameRef.toDottedSymbol] using isSuper⟩
  rintro pred - ⟨other, -, cycle⟩
  obtain ⟨_, first, -⟩ := Relation.TransGen.head'_iff.mp cycle
  obtain ⟨_, -, last⟩ := Relation.TransGen.tail'_iff.mp cycle
  have isOrd := (isSuper _ _ first).1
  rw [(isSuper _ _ last).2] at isOrd
  exact absurd isOrd (by decide)

/-- `class Loop a <= Loop a`, without methods. -/
def loopClass : ClassDecl :=
  ⟨.default, "Loop", ["a"], [⟨.unqualified "Loop", .name .default (.unqualified "a")⟩], [], none⟩

/-- A class that names itself is accepted, and the expansion of its predicates
never ends. -/
theorem superclassClosure_loopClass :
    ∃ system, runFrom .new (registerClassDecl loopClass) = (.ok (), system) ∧
      ∀ fuel, system.classes.superclassClosure fuel [⟨"Loop", .builtin .i32⟩] = none := by
  refine ⟨(runFrom .new (registerClassDecl loopClass)).2, rfl, fun fuel => ?_⟩
  by_contra ends
  obtain ⟨closure, ends⟩ := Option.ne_none_iff_exists'.mp ends
  have founded := acc_of_expandFrom ends ⟨"Loop", .builtin .i32⟩ (by simp)
  refine not_acc_of_transGen founded (.single ?_)
  exact List.mem_cons_self

end RexLang
