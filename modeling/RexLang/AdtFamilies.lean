import RexLang.TypeBundles
import RexLang.WireRoundTrip

/-!
# Families of declarations

Declarations whose constructors are used with one arity, and that do not depend on
themselves, are put in the order of their dependencies, and none is lost.
-/

namespace RexLang

/-! ## Constructors of types -/

namespace Typ

theorem userCons_rename (assign : TypeVarId → TypeVar) (typ : Typ) :
    (typ.rename assign).userCons = typ.userCons := by
  induction typ using inductionOn with
  | var typeVar => rfl
  | con const => rfl
  | app head arg onHead onArg => simp [userCons, onHead, onArg]
  | func arg ret onArg onRet => simp [userCons, onArg, onRet]
  | tuple elems onElems =>
      rw [rename_tuple, userCons, userCons]
      induction elems with
      | nil => rfl
      | cons elem elems hypothesis =>
          rw [List.map_cons, userConsList, userConsList, onElems elem List.mem_cons_self,
            hypothesis fun other member => onElems other (.tail _ member)]
  | record fields onFields =>
      rw [rename_record, userCons, userCons]
      induction fields with
      | nil => rfl
      | cons field fields hypothesis =>
          rw [List.map_cons, userConsFields, userConsFields, onFields field List.mem_cons_self,
            hypothesis fun other member => onFields other (.tail _ member)]

end Typ

/-! ## Collection -/

theorem mem_pushNew {out : List UserCon} {con other : UserCon} :
    other ∈ pushNew out con ↔ other ∈ out ∨ other = con := by
  rw [pushNew]
  split
  · next inside =>
      constructor
      · exact .inl
      · rintro (before | rfl)
        · exact before
        · exact inside
  · simp

theorem mem_foldl_pushNew {cons out : List UserCon} {other : UserCon} :
    other ∈ cons.foldl pushNew out ↔ other ∈ out ∨ other ∈ cons := by
  induction cons generalizing out with
  | nil => simp
  | cons con cons hypothesis => simp [hypothesis, mem_pushNew, or_assoc]

section Collection

variable {arityOf : Symbol → Nat}

/-- Every name has one definition. -/
def Consistent (arityOf : Symbol → Nat) (defsByName : SymbolMap (List UserCon)) : Prop :=
  ∀ entry ∈ defsByName, entry.2 = [(entry.1, arityOf entry.1)]

theorem Consistent.addDefinition {defsByName : SymbolMap (List UserCon)}
    (consistent : Consistent arityOf defsByName) {con : UserCon} (isArity : con.2 = arityOf con.1) :
    Consistent arityOf (RexLang.addDefinition defsByName con) := by
  have isCon : con = (con.1, arityOf con.1) := by rw [← isArity]
  intro entry member
  obtain rfl | before := mem_insert member
  · cases found : defsByName.lookup con.1 with
    | none =>
        rw [Option.getD_none, ← isArity]
        rfl
    | some definitions =>
        have known := consistent _ (mem_of_lookup found)
        simp only at known
        rw [Option.getD_some, known, pushNew, ← isCon, if_pos (List.mem_singleton_self con)]
  · exact consistent entry before

/-- Constructors with one arity for each name are collected. -/
theorem exists_collectAdtsInTypes {types : List Typ}
    (isArity : ∀ typ ∈ types, ∀ con ∈ typ.userCons, con.2 = arityOf con.1) :
    ∃ cons, collectAdtsInTypes types = .ok cons ∧
      ∀ con, con ∈ cons ↔ ∃ typ ∈ types, con ∈ typ.userCons := by
  have consistent : Consistent arityOf ((types.flatMap Typ.userCons).foldl addDefinition []) := by
    have each : ∀ con ∈ types.flatMap Typ.userCons, con.2 = arityOf con.1 := by
      intro con member
      obtain ⟨typ, isTyp, isCon⟩ := List.mem_flatMap.mp member
      exact isArity typ isTyp con isCon
    have start : Consistent arityOf [] := by simp [Consistent]
    generalize ([] : SymbolMap (List UserCon)) = defsByName at start
    generalize types.flatMap Typ.userCons = cons at each
    induction cons generalizing defsByName with
    | nil => exact start
    | cons con cons hypothesis =>
        exact hypothesis _ (start.addDefinition (each con List.mem_cons_self))
          fun other member => each other (.tail _ member)
  have noConflict : ((types.flatMap Typ.userCons).foldl addDefinition []).filter
      (fun entry => 1 < entry.2.length) = [] := by
    refine List.filter_eq_nil_iff.mpr fun entry member => ?_
    rw [consistent entry member]
    simp
  refine ⟨(types.flatMap Typ.userCons).foldl pushNew [], ?_, fun con => ?_⟩
  · rw [collectAdtsInTypes]
    simp only [noConflict, ne_eq, not_true_eq_false, if_false]
  · simp [mem_foldl_pushNew]

end Collection

/-! ## The family -/

/-- The field types of the declaration mention the name. -/
def AdtDecl.Mentions (adt : AdtDecl) (name : Symbol) : Prop :=
  ∃ typ ∈ adt.fieldTypes, ∃ arity, (name, arity) ∈ typ.userCons

/-- The declared constructors in the field types have the arity of their name, which is
not the name of a builtin type. -/
def AdtDecl.UsesArities (arityOf : Symbol → Nat) (adt : AdtDecl) : Prop :=
  ∀ typ ∈ adt.fieldTypes, ∀ con ∈ typ.userCons,
    con.2 = arityOf con.1 ∧ BuiltinTypeId.fromName con.1 = none

/-- The declaration of the first name in the family mentions the second name. -/
def FamilyMentions (adts : List AdtDecl) (name other : Symbol) : Prop :=
  ∃ adt ∈ adts, adt.name = name ∧ adt.Mentions other

section Family

variable {arityOf : Symbol → Nat} {adt : AdtDecl} {adts : List AdtDecl}

theorem exists_adtDirectDependencies (uses : adt.UsesArities arityOf) :
    ∃ names, adtDirectDependencies adt = .ok names ∧ ∀ name, name ∈ names ↔ adt.Mentions name := by
  obtain ⟨cons, collected, members⟩ :=
    exists_collectAdtsInTypes fun typ isTyp con isCon => (uses typ isTyp con isCon).1
  have isHead : ∀ con ∈ cons, familyHeadName con = some con.1 := by
    intro con member
    obtain ⟨typ, isTyp, isCon⟩ := (members con).mp member
    rw [familyHeadName, Typ.named, (uses typ isTyp con isCon).2]
    rfl
  refine ⟨_, by rw [adtDirectDependencies, collected], fun name => ?_⟩
  constructor
  · intro member
    obtain ⟨con, inside, isName⟩ := List.mem_filterMap.mp member
    rw [isHead con inside] at isName
    cases isName
    obtain ⟨typ, isTyp, isCon⟩ := (members con).mp inside
    exact ⟨typ, isTyp, con.2, isCon⟩
  · rintro ⟨typ, isTyp, arity, isCon⟩
    have inside := (members (name, arity)).mpr ⟨typ, isTyp, isCon⟩
    exact List.mem_filterMap.mpr ⟨(name, arity), inside, isHead _ inside⟩

/-- Declarations with different names are all kept. -/
theorem exists_uniqueFamily {unique : SymbolMap AdtDecl} (ordered : Ordered unique)
    (distinct : (adts.map (·.name)).Nodup) (isNew : ∀ adt ∈ adts, unique.lookup adt.name = none) :
    ∃ family, uniqueFamily adts unique = .ok family ∧ Ordered family ∧
      ∀ name adt, family.lookup name = some adt ↔
        unique.lookup name = some adt ∨ adt ∈ adts ∧ adt.name = name := by
  induction adts generalizing unique with
  | nil => exact ⟨unique, rfl, ordered, by simp⟩
  | cons first rest hypothesis =>
      rw [List.map_cons, List.nodup_cons] at distinct
      have isNewRest : ∀ adt ∈ rest, (unique.insert first.name first).lookup adt.name = none := by
        intro adt member
        rw [lookup_insert, if_neg]
        · exact isNew adt (.tail _ member)
        · intro same
          exact distinct.1 (List.mem_map.mpr ⟨adt, member, same⟩)
      obtain ⟨family, runs, orderedFamily, lookups⟩ :=
        hypothesis (ordered_insert ordered first.name first) distinct.2 isNewRest
      have isFirstNew := isNew first List.mem_cons_self
      refine ⟨family, by rw [uniqueFamily, isFirstNew]; exact runs, orderedFamily,
        fun name adt => ?_⟩
      rw [lookups, lookup_insert]
      split_ifs with same
      · subst same
        simp only [isFirstNew, Option.some.injEq, reduceCtorEq, false_or, List.mem_cons]
        constructor
        · rintro (rfl | ⟨later, sameName⟩)
          · exact ⟨.inl rfl, rfl⟩
          · exact ⟨.inr later, sameName⟩
        · rintro ⟨rfl | later, sameName⟩
          · exact .inl rfl
          · exact .inr ⟨later, sameName⟩
      · simp only [List.mem_cons]
        constructor
        · rintro (before | ⟨later, sameName⟩)
          · exact .inl before
          · exact .inr ⟨.inr later, sameName⟩
        · rintro (before | ⟨rfl | later, sameName⟩)
          · exact .inl before
          · exact absurd sameName.symm same
          · exact .inr ⟨later, sameName⟩

theorem map_name_filterMap {find : Symbol → Option AdtDecl} {names : List Symbol}
    (found : ∀ name ∈ names, ∃ adt, find name = some adt ∧ adt.name = name) :
    (names.filterMap find).map (·.name) = names := by
  induction names with
  | nil => rfl
  | cons name names hypothesis =>
      obtain ⟨adt, isAdt, sameName⟩ := found name List.mem_cons_self
      rw [List.filterMap_cons, isAdt, List.map_cons, sameName,
        hypothesis fun other member => found other (.tail _ member)]

/-- A family with different names and consistent arities, none of whose declarations
depends on itself, is ordered, and nothing is lost. -/
theorem exists_orderAdtFamily (distinct : (adts.map (·.name)).Nodup)
    (uses : ∀ adt ∈ adts, adt.UsesArities arityOf)
    (acyclic : ∀ name, ¬Relation.TransGen (FamilyMentions adts) name name) :
    ∃ ordered, orderAdtFamily adts = .ok ordered ∧ (ordered.map (·.name)).Nodup ∧
      ∀ adt, adt ∈ ordered ↔ adt ∈ adts := by
  obtain ⟨family, isFamily, orderedFamily, lookups⟩ :=
    @exists_uniqueFamily adts [] .nil distinct fun _ _ => rfl
  simp only [List.lookup_nil, reduceCtorEq, false_or] at lookups
  have known : ∀ name ∈ family.map Prod.fst, ∃ next, familyDependencies family name = .ok next ∧
      ∀ other, other ∈ next ↔ FamilyMentions adts name other ∧ other ∈ family.map Prod.fst := by
    intro name isName
    obtain ⟨adt, found⟩ := Option.isSome_iff_exists.mp (isSome_lookup_iff.mpr isName)
    obtain ⟨member, sameName⟩ := (lookups name adt).mp found
    obtain ⟨names, isNames, mentions⟩ := exists_adtDirectDependencies (uses adt member)
    have runs : familyDependencies family name =
        .ok (names.filter fun dependency => (family.lookup dependency).isSome) := by
      simp only [familyDependencies, found, isNames]
      rfl
    refine ⟨_, runs, fun other => ?_⟩
    rw [List.mem_filter, mentions, isSome_lookup_iff]
    refine and_congr_left fun _ => ⟨fun mention => ⟨adt, member, sameName, mention⟩, ?_⟩
    rintro ⟨another, isAnother, sameOther, mention⟩
    have same := (lookups name another).mpr ⟨isAnother, sameOther⟩
    rw [found] at same
    cases same
    exact mention
  let next (name : Symbol) : List Symbol :=
    if isName : name ∈ family.map Prod.fst then (known name isName).choose else []
  have next_eq (name : Symbol) (isName : name ∈ family.map Prod.fst) :
      next name = (known name isName).choose := dif_pos isName
  have closes : Closes (family.map Prod.fst) (· ∈ family.map Prod.fst)
      (familyDependencies family) next := by
    refine ⟨fun _ isName => isName, fun name isName => ?_, fun name isName other isNext => ?_⟩
    · rw [next_eq name isName]
      exact (known name isName).choose_spec.1
    · rw [next_eq name isName] at isNext
      exact (((known name isName).choose_spec.2 other).mp isNext).2
  have acyclicNext : ∀ name ∈ family.map Prod.fst,
      ¬Relation.TransGen (DependsOn next) name name := by
    intro name _ cycle
    refine acyclic name (Relation.TransGen.mono (fun first second depends => ?_) name name cycle)
    by_cases isName : first ∈ family.map Prod.fst
    · rw [DependsOn, next_eq first isName] at depends
      exact (((known first isName).choose_spec.2 second).mp depends).1
    · simp [DependsOn, next, isName] at depends
  obtain ⟨names, runs, orders, members⟩ := exists_order closes acyclicNext
  have found : ∀ name ∈ names, ∃ adt, family.lookup name = some adt ∧ adt.name = name := by
    intro name member
    obtain ⟨adt, isAdt⟩ :=
      Option.isSome_iff_exists.mp (isSome_lookup_iff.mpr ((members name).mp member))
    exact ⟨adt, isAdt, ((lookups name adt).mp isAdt).2⟩
  refine ⟨names.filterMap fun name => family.lookup name, ?_, ?_, fun adt => ?_⟩
  · rw [orderAdtFamily, isFamily]
    exact bind_eq_ok.mpr ⟨family, rfl, bind_eq_ok.mpr ⟨names, runs, rfl⟩⟩
  · rw [map_name_filterMap found]
    exact orders.distinct
  · rw [List.mem_filterMap]
    constructor
    · rintro ⟨name, -, isAdt⟩
      exact ((lookups name adt).mp isAdt).1
    · intro member
      have isAdt := (lookups adt.name adt).mpr ⟨member, rfl⟩
      refine ⟨adt.name, (members adt.name).mpr ?_, isAdt⟩
      exact isSome_lookup_iff.mp (Option.isSome_iff_exists.mpr ⟨adt, isAdt⟩)

end Family

end RexLang
