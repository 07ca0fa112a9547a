import RexLang.Unification

/-!
# What a unifier resolves types to

The bindings of a unifier have no cycles, so every type has a fully resolved
form.  Pruning returns that form and changes no other, and a new binding
substitutes into the forms that there were.
-/

namespace RexLang

namespace Typ

/-- A traversal whose visits return the values of a function and keep an
invariant is a substitution by the function. -/
theorem mapVarsM_spec {State : Type} {visit : TypeVar → State → Typ × State}
    {assign : TypeVar → Typ} {Invariant : State → Prop} (typ : Typ)
    (visits : ∀ typeVar : TypeVar, typeVar.id ∈ typ.ftv → ∀ state, Invariant state →
      (visit typeVar state).1 = assign typeVar ∧ Invariant (visit typeVar state).2)
    (state : State) (holds : Invariant state) :
    (typ.mapVarsM visit state).1 = typ.bindVars assign ∧
      Invariant (typ.mapVarsM visit state).2 := by
  induction typ using inductionOn generalizing state with
  | var typeVar => exact visits typeVar (by simp [ftv]) state holds
  | con const => exact ⟨rfl, holds⟩
  | app head arg onHead onArg =>
      obtain ⟨headEq, holds⟩ := onHead (fun _ member => visits _ (by simp [ftv, member])) state holds
      obtain ⟨argEq, holds⟩ := onArg (fun _ member => visits _ (by simp [ftv, member])) _ holds
      exact ⟨by simp [mapVarsM, headEq, argEq], holds⟩
  | func arg ret onArg onRet =>
      obtain ⟨argEq, holds⟩ := onArg (fun _ member => visits _ (by simp [ftv, member])) state holds
      obtain ⟨retEq, holds⟩ := onRet (fun _ member => visits _ (by simp [ftv, member])) _ holds
      exact ⟨by simp [mapVarsM, argEq, retEq], holds⟩
  | tuple elems onElem =>
      have onElems : ∀ (types : List Typ) (state : State), (∀ elem ∈ types, elem ∈ elems) →
          Invariant state → (mapVarsListM visit types state).1 = types.map (bindVars assign) ∧
            Invariant (mapVarsListM visit types state).2 := by
        intro types
        induction types with
        | nil => exact fun _ _ holds => ⟨rfl, holds⟩
        | cons elem types hypothesis =>
            intro state members holds
            obtain ⟨elemEq, holds⟩ := onElem elem (members elem List.mem_cons_self)
              (fun _ member => visits _ (by
                simpa [ftv, mem_ftvList] using ⟨elem, members elem List.mem_cons_self, member⟩))
              state holds
            obtain ⟨typesEq, holds⟩ := hypothesis _
              (fun elem member => members elem (.tail _ member)) holds
            exact ⟨by simp [mapVarsListM, elemEq, typesEq], holds⟩
      obtain ⟨elemsEq, holds⟩ := onElems elems state (fun _ member => member) holds
      exact ⟨by simp [mapVarsM, elemsEq], holds⟩
  | record fields onField =>
      have onFields : ∀ (others : List (Symbol × Typ)) (state : State),
          (∀ field ∈ others, field ∈ fields) → Invariant state →
          (mapVarsFieldsM visit others state).1 =
              others.map (fun field => (field.1, field.2.bindVars assign)) ∧
            Invariant (mapVarsFieldsM visit others state).2 := by
        intro others
        induction others with
        | nil => exact fun _ _ holds => ⟨rfl, holds⟩
        | cons field others hypothesis =>
            intro state members holds
            obtain ⟨fieldEq, holds⟩ := onField field (members field List.mem_cons_self)
              (fun _ member => visits _ (by
                simp only [ftv, mem_ftvFields]
                exact ⟨field, members field List.mem_cons_self, member⟩))
              state holds
            obtain ⟨othersEq, holds⟩ := hypothesis _
              (fun field member => members field (.tail _ member)) holds
            exact ⟨by simp [mapVarsFieldsM, fieldEq, othersEq], holds⟩
      obtain ⟨fieldsEq, holds⟩ := onFields fields state (fun _ member => member) holds
      exact ⟨by simp [mapVarsM, fieldsEq], holds⟩

end Typ

namespace Unifier

/-! ## Bindings without cycles -/

/-- A rank that decreases along the bindings and is bounded by their number. -/
structure Ranked (unifier : Unifier) (rank : TypeVarId → Nat) : Prop where
  le_size : ∀ id, rank id ≤ unifier.subs.entries.length
  pos : ∀ id typ, unifier.lookup id = some typ → 0 < rank id
  lt : ∀ id typ, unifier.lookup id = some typ → ∀ other ∈ typ.ftv, rank other < rank id

def Acyclic (unifier : Unifier) : Prop :=
  ∃ rank, unifier.Ranked rank

theorem acyclic_empty : empty.Acyclic :=
  ⟨fun _ => 0, fun _ => Nat.le_refl 0, fun _ _ found => (Option.some_ne_none _ found.symm).elim,
    fun _ _ found => (Option.some_ne_none _ found.symm).elim⟩

@[simp]
theorem lookup_bindVar (unifier : Unifier) (id other : TypeVarId) (typ : Typ) :
    (unifier.bindVar id typ).lookup other = if other = id then some typ else unifier.lookup other := by
  by_cases same : other = id
  · subst same
    simp [bindVar, lookup]
  · simp [bindVar, lookup, same]

theorem length_bindVar_of_bound {unifier : Unifier} {id : TypeVarId} {bound : Typ}
    (found : unifier.lookup id = some bound) (typ : Typ) :
    (unifier.bindVar id typ).subs.entries.length = unifier.subs.entries.length := by
  have member : id ∈ unifier.subs.keys :=
    AList.mem_keys.mp (AList.lookup_isSome.mp (by rw [← lookup, found]; rfl))
  have pos : 0 < unifier.subs.keys.length := List.length_pos_of_mem member
  have keys : (unifier.subs.insert id typ).keys.length = (id :: unifier.subs.keys.erase id).length :=
    congrArg List.length (AList.keys_insert _)
  rw [List.length_cons, List.length_erase_of_mem member] at keys
  simp only [AList.keys, List.keys, List.length_map] at keys pos
  simp only [bindVar]
  omega

theorem length_bindVar_of_unbound {unifier : Unifier} {id : TypeVarId}
    (unbound : unifier.lookup id = none) (typ : Typ) :
    (unifier.bindVar id typ).subs.entries.length = unifier.subs.entries.length + 1 := by
  rw [bindVar, AList.entries_insert_of_notMem (AList.lookup_eq_none.mp unbound), List.length_cons]

/-! ## Resolved types -/

def resolveVar (unifier : Unifier) : Nat → TypeVar → Typ
  | 0, typeVar => .var typeVar
  | fuel + 1, typeVar =>
      match unifier.lookup typeVar.id with
      | none => .var typeVar
      | some bound => bound.bindVars (resolveVar unifier fuel)

/-- The type with all bindings substituted. -/
def resolve (unifier : Unifier) (typ : Typ) : Typ :=
  typ.bindVars (unifier.resolveVar (unifier.subs.entries.length + 1))

section Resolve

variable {unifier : Unifier} {rank : TypeVarId → Nat}

theorem resolveVar_stable (ranked : unifier.Ranked rank) (fuel other : Nat) (typeVar : TypeVar)
    (enough : rank typeVar.id < fuel) (otherEnough : rank typeVar.id < other) :
    unifier.resolveVar fuel typeVar = unifier.resolveVar other typeVar := by
  induction fuel generalizing other typeVar with
  | zero => omega
  | succ fuel hypothesis =>
      obtain ⟨other, rfl⟩ := Nat.exists_eq_add_of_lt otherEnough
      simp only [resolveVar]
      cases found : unifier.lookup typeVar.id with
      | none => rfl
      | some bound =>
          refine Typ.bindVars_congr fun inner member => ?_
          have smaller := ranked.lt _ _ found _ member
          exact hypothesis _ inner (by omega) (by omega)

theorem resolve_var (ranked : unifier.Ranked rank) (typeVar : TypeVar) :
    unifier.resolve (.var typeVar) =
      match unifier.lookup typeVar.id with
      | none => .var typeVar
      | some bound => unifier.resolve bound := by
  have bounded := ranked.le_size typeVar.id
  simp only [resolve, Typ.bindVars_var]
  rw [resolveVar]
  cases found : unifier.lookup typeVar.id with
  | none => rfl
  | some bound =>
      refine Typ.bindVars_congr fun inner member => ?_
      have smaller := ranked.lt _ _ found _ member
      exact resolveVar_stable ranked _ _ inner (by omega) (by omega)

theorem resolve_eq_bindVars (unifier : Unifier) (typ : Typ) :
    unifier.resolve typ = typ.bindVars fun typeVar => unifier.resolve (.var typeVar) := rfl

theorem resolve_var_of_unbound (ranked : unifier.Ranked rank) {typeVar : TypeVar}
    (unbound : unifier.lookup typeVar.id = none) :
    unifier.resolve (.var typeVar) = .var typeVar := by
  rw [resolve_var ranked, unbound]

theorem resolve_var_of_bound (ranked : unifier.Ranked rank) {typeVar : TypeVar} {bound : Typ}
    (found : unifier.lookup typeVar.id = some bound) :
    unifier.resolve (.var typeVar) = unifier.resolve bound := by
  rw [resolve_var ranked, found]

/-- What is said of a type by its rank is proved along the bindings. -/
theorem Ranked.induction (ranked : unifier.Ranked rank) {motive : TypeVar → Prop}
    (unbound : ∀ typeVar, unifier.lookup typeVar.id = none → motive typeVar)
    (bound : ∀ typeVar typ, unifier.lookup typeVar.id = some typ →
      (∀ inner : TypeVar, inner.id ∈ typ.ftv → motive inner) → motive typeVar)
    (typeVar : TypeVar) : motive typeVar := by
  induction size : rank typeVar.id using Nat.strongRecOn generalizing typeVar with
  | ind size hypothesis =>
      subst size
      cases found : unifier.lookup typeVar.id with
      | none => exact unbound typeVar found
      | some typ =>
          exact bound typeVar typ found fun inner member =>
            hypothesis _ (ranked.lt _ _ found _ member) inner rfl

/-- The variables of a resolved type are unbound. -/
theorem unbound_of_mem_resolve (ranked : unifier.Ranked rank) {typ : Typ} {id : TypeVarId}
    (member : id ∈ (unifier.resolve typ).ftv) : unifier.lookup id = none := by
  have onVar : ∀ typeVar : TypeVar, id ∈ (unifier.resolve (.var typeVar)).ftv →
      unifier.lookup id = none := by
    intro typeVar
    induction typeVar using ranked.induction with
    | unbound typeVar unbound =>
        intro member
        rw [resolve_var_of_unbound ranked unbound, Typ.ftv, Finset.mem_singleton] at member
        exact member ▸ unbound
    | bound typeVar bound found hypothesis =>
        intro member
        rw [resolve_var_of_bound ranked found] at member
        obtain ⟨inner, inBound, member⟩ := Typ.exists_of_mem_ftv_bindVars member
        exact hypothesis inner inBound member
  obtain ⟨typeVar, -, member⟩ := Typ.exists_of_mem_ftv_bindVars member
  exact onVar typeVar member

theorem rank_le_of_mem_resolve (ranked : unifier.Ranked rank) (typeVar : TypeVar) {id : TypeVarId}
    (member : id ∈ (unifier.resolve (.var typeVar)).ftv) : rank id ≤ rank typeVar.id := by
  induction typeVar using ranked.induction with
  | unbound typeVar unbound =>
      rw [resolve_var_of_unbound ranked unbound, Typ.ftv, Finset.mem_singleton] at member
      rw [member]
  | bound typeVar bound found hypothesis =>
      rw [resolve_var_of_bound ranked found] at member
      obtain ⟨inner, inBound, member⟩ := Typ.exists_of_mem_ftv_bindVars member
      exact (hypothesis inner inBound member).trans (ranked.lt _ _ found _ inBound).le

/-- A type of unbound variables is resolved. -/
theorem resolve_of_unbound (ranked : unifier.Ranked rank) {typ : Typ}
    (unbound : ∀ id ∈ typ.ftv, unifier.lookup id = none) : unifier.resolve typ = typ := by
  refine (Typ.bindVars_congr fun typeVar member => ?_).trans (Typ.bindVars_var_self typ)
  exact resolve_var_of_unbound ranked (unbound _ member)

theorem resolve_resolve (ranked : unifier.Ranked rank) (typ : Typ) :
    unifier.resolve (unifier.resolve typ) = unifier.resolve typ :=
  resolve_of_unbound ranked fun _ => unbound_of_mem_resolve ranked

/-- A variable that resolves to itself is unbound. -/
theorem lookup_eq_none_iff (ranked : unifier.Ranked rank) (typeVar : TypeVar) :
    unifier.lookup typeVar.id = none ↔ unifier.resolve (.var typeVar) = .var typeVar := by
  constructor
  · exact resolve_var_of_unbound ranked
  · intro resolved
    have member : typeVar.id ∈ (unifier.resolve (.var typeVar)).ftv := by
      rw [resolved]
      simp [Typ.ftv]
    exact unbound_of_mem_resolve ranked member

end Resolve

/-! ## Pruning -/

/-- The same types resolve to the same types. -/
structure Equivalent (unifier other : Unifier) (rank : TypeVarId → Nat) : Prop where
  ranked : other.Ranked rank
  resolve_eq : ∀ typ, other.resolve typ = unifier.resolve typ

theorem lookup_eq_none_of_equivalent {unifier other : Unifier} {rank : TypeVarId → Nat}
    (ranked : unifier.Ranked rank) (equivalent : unifier.Equivalent other rank) (id : TypeVarId) :
    other.lookup id = none ↔ unifier.lookup id = none := by
  rw [lookup_eq_none_iff equivalent.ranked ⟨id, none⟩, equivalent.resolve_eq,
    ← lookup_eq_none_iff ranked ⟨id, none⟩]

/-- Storing the resolved type of a bound variable changes no resolved type. -/
theorem equivalent_bindVar {unifier : Unifier} {rank : TypeVarId → Nat}
    (ranked : unifier.Ranked rank) {id : TypeVarId} {bound : Typ}
    (found : unifier.lookup id = some bound) :
    unifier.Equivalent (unifier.bindVar id (unifier.resolve bound)) rank := by
  have smaller : ∀ other ∈ (unifier.resolve bound).ftv, rank other < rank id := by
    intro other member
    obtain ⟨inner, inBound, member⟩ := Typ.exists_of_mem_ftv_bindVars member
    exact (rank_le_of_mem_resolve ranked inner member).trans_lt (ranked.lt _ _ found _ inBound)
  have newRanked : (unifier.bindVar id (unifier.resolve bound)).Ranked rank := by
    constructor
    · intro other
      rw [length_bindVar_of_bound found]
      exact ranked.le_size other
    · intro other typ foundOther
      rw [lookup_bindVar] at foundOther
      split at foundOther
      · next same => exact same ▸ ranked.pos _ _ found
      · exact ranked.pos _ _ foundOther
    · intro other typ foundOther
      rw [lookup_bindVar] at foundOther
      split at foundOther
      · next same =>
          cases foundOther
          exact same ▸ smaller
      · exact ranked.lt _ _ foundOther
  refine ⟨newRanked, fun typ => Typ.bindVars_congr fun typeVar _ => ?_⟩
  change Unifier.resolve _ (.var typeVar) = unifier.resolve (.var typeVar)
  clear * - newRanked ranked found
  induction typeVar using newRanked.induction with
  | unbound typeVar unbound =>
      rw [resolve_var_of_unbound newRanked unbound]
      rw [lookup_bindVar] at unbound
      split at unbound
      · cases unbound
      · exact (resolve_var_of_unbound ranked unbound).symm
  | bound typeVar typ foundNew hypothesis =>
      rw [resolve_var_of_bound newRanked foundNew]
      have inner : (unifier.bindVar id (unifier.resolve bound)).resolve typ = unifier.resolve typ :=
        Typ.bindVars_congr hypothesis
      rw [inner]
      rw [lookup_bindVar] at foundNew
      split at foundNew
      · next same =>
          cases foundNew
          rw [resolve_resolve ranked, resolve_var_of_bound ranked (same ▸ found)]
      · exact (resolve_var_of_bound ranked foundNew).symm

theorem Equivalent.trans {first second third : Unifier} {rank : TypeVarId → Nat}
    (one : first.Equivalent second rank) (two : second.Equivalent third rank) :
    first.Equivalent third rank :=
  ⟨two.ranked, fun typ => (two.resolve_eq typ).trans (one.resolve_eq typ)⟩

theorem pruneVar_spec {unifier : Unifier} {rank : TypeVarId → Nat} (fuel : Nat)
    (typeVar : TypeVar) (enough : rank typeVar.id < fuel) (state : Unifier)
    (equivalent : unifier.Equivalent state rank) :
    (pruneVar fuel typeVar state).1 = unifier.resolve (.var typeVar) ∧
      unifier.Equivalent (pruneVar fuel typeVar state).2 rank := by
  induction fuel generalizing typeVar state with
  | zero => omega
  | succ fuel hypothesis =>
      rw [pruneVar]
      cases found : state.lookup typeVar.id with
      | none =>
          exact ⟨by rw [← equivalent.resolve_eq, resolve_var_of_unbound equivalent.ranked found],
            equivalent⟩
      | some bound =>
          have visits : ∀ inner : TypeVar, inner.id ∈ bound.ftv → ∀ state,
              unifier.Equivalent state rank →
              (pruneVar fuel inner state).1 = unifier.resolve (.var inner) ∧
                unifier.Equivalent (pruneVar fuel inner state).2 rank := by
            intro inner member state equivalent'
            have smaller := equivalent.ranked.lt _ _ found _ member
            exact hypothesis inner (by omega) state equivalent'
          obtain ⟨prunedEq, equivalent'⟩ := Typ.mapVarsM_spec bound visits state equivalent
          have resolved : unifier.resolve bound = unifier.resolve (.var typeVar) := by
            rw [← equivalent.resolve_eq, ← equivalent.resolve_eq,
              resolve_var_of_bound equivalent.ranked found]
          rw [← resolve_eq_bindVars, resolved] at prunedEq
          refine ⟨prunedEq, ?_⟩
          change unifier.Equivalent (Unifier.bindVar (bound.mapVarsM (pruneVar fuel) state).2
            typeVar.id (bound.mapVarsM (pruneVar fuel) state).1) rank
          generalize bound.mapVarsM (pruneVar fuel) state = result at prunedEq equivalent' ⊢
          cases stillFound : result.2.lookup typeVar.id with
          | none =>
              rw [lookup_eq_none_iff equivalent'.ranked, equivalent'.resolve_eq,
                ← equivalent.resolve_eq, ← lookup_eq_none_iff equivalent.ranked, found] at stillFound
              cases stillFound
          | some bound' =>
              have stored : result.1 = result.2.resolve bound' := by
                rw [prunedEq, ← equivalent'.resolve_eq,
                  resolve_var_of_bound equivalent'.ranked stillFound]
              rw [stored]
              exact equivalent'.trans (equivalent_bindVar equivalent'.ranked stillFound)

theorem prune_spec {unifier : Unifier} {rank : TypeVarId → Nat} (ranked : unifier.Ranked rank)
    (typ : Typ) : (unifier.prune typ).1 = unifier.resolve typ ∧
      unifier.Equivalent (unifier.prune typ).2 rank :=
  Typ.mapVarsM_spec typ
    (fun typeVar _ state equivalent =>
      pruneVar_spec _ typeVar (Nat.lt_succ_of_le (ranked.le_size _)) state equivalent)
    unifier ⟨ranked, fun _ => rfl⟩

/-! ## New bindings -/

/-- Substitutes one variable. -/
def assignOne (id : TypeVarId) (typ : Typ) (typeVar : TypeVar) : Typ :=
  if typeVar.id = id then typ else .var typeVar

theorem ranked_bindVar {unifier : Unifier} {rank : TypeVarId → Nat}
    (ranked : unifier.Ranked rank) {id : TypeVarId} (unbound : unifier.lookup id = none) {typ : Typ}
    (free : ∀ other ∈ typ.ftv, unifier.lookup other = none) (absent : id ∉ typ.ftv) :
    (unifier.bindVar id typ).Ranked fun other =>
      if other = id then 1 else if (unifier.lookup other).isSome then rank other + 1 else 0 := by
  constructor
  · intro other
    have bounded := ranked.le_size other
    rw [length_bindVar_of_unbound unbound]
    split_ifs <;> omega
  · intro other bound found
    rw [lookup_bindVar] at found
    split_ifs at found ⊢ with same isBound
    · omega
    · omega
    · simp [found] at isBound
  · intro other bound found inner member
    rw [lookup_bindVar] at found
    by_cases same : other = id
    · rw [if_pos same] at found
      cases found
      have different : inner ≠ id := fun same => absent (same ▸ member)
      simp [same, different, free inner member]
    · rw [if_neg same] at found
      have smaller := ranked.lt _ _ found _ member
      have pos := ranked.pos _ _ found
      simp only [same, found, if_false, Option.isSome_some, if_true]
      split_ifs <;> omega

/-- A new binding substitutes into the resolved types. -/
theorem resolve_bindVar {unifier : Unifier} {rank : TypeVarId → Nat}
    (ranked : unifier.Ranked rank) {id : TypeVarId} (unbound : unifier.lookup id = none) {typ : Typ}
    (free : ∀ other ∈ typ.ftv, unifier.lookup other = none) (absent : id ∉ typ.ftv)
    (target : Typ) :
    (unifier.bindVar id typ).resolve target =
      (unifier.resolve target).bindVars (assignOne id typ) := by
  have newRanked := ranked_bindVar ranked unbound free absent
  have fixed : (unifier.bindVar id typ).resolve typ = typ := by
    refine resolve_of_unbound newRanked fun other member => ?_
    have different : other ≠ id := fun same => absent (same ▸ member)
    rw [lookup_bindVar, if_neg different, free other member]
  have onVar : ∀ typeVar : TypeVar, (unifier.bindVar id typ).resolve (.var typeVar) =
      (unifier.resolve (.var typeVar)).bindVars (assignOne id typ) := by
    intro typeVar
    induction typeVar using ranked.induction with
    | unbound typeVar unboundVar =>
        rw [resolve_var_of_unbound ranked unboundVar, Typ.bindVars_var, assignOne]
        by_cases same : typeVar.id = id
        · have found : (unifier.bindVar id typ).lookup typeVar.id = some typ := by simp [same]
          rw [if_pos same, resolve_var_of_bound newRanked found, fixed]
        · rw [if_neg same, resolve_var_of_unbound newRanked (by simp [same, unboundVar])]
    | bound typeVar bound found hypothesis =>
        have different : typeVar.id ≠ id := fun same => by
          rw [same, unbound] at found
          cases found
        have stillFound : (unifier.bindVar id typ).lookup typeVar.id = some bound := by
          simp [different, found]
        rw [resolve_var_of_bound ranked found, resolve_var_of_bound newRanked stillFound,
          resolve_eq_bindVars, Typ.bindVars_congr hypothesis, resolve_eq_bindVars,
          Typ.bindVars_bindVars]
  rw [resolve_eq_bindVars, resolve_eq_bindVars, Typ.bindVars_bindVars]
  exact Typ.bindVars_congr fun typeVar _ => onVar typeVar

end Unifier

end RexLang
