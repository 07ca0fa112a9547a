import RexLang.Entailment
import RexLang.UnificationRenaming

/-!
# Instances of schemes

`instantiate`, and what an instance of a scheme is: its quantified variables
replaced by others, one for each.  A scheme and a type on variables of their own
are the common source of all pairs of an instance and a renamed type, so that
unification ends alike on all of them.
-/

namespace RexLang

/-! ## Instantiation -/

/-- The loop of `instantiate`: the variables of the scheme against fresh ones. -/
def instantiateVars : List TypeVar → TypeVarSupply → Subst → Subst × TypeVarSupply
  | [], supply, subst => (subst, supply)
  | typeVar :: vars, supply, subst =>
      let (fresh, supply) := supply.fresh typeVar.name
      instantiateVars vars supply ((typeVar.id, .var fresh) :: subst)

/-- `instantiate`. -/
def instantiate (scheme : Scheme) (supply : TypeVarSupply) :
    (List Predicate × Typ) × TypeVarSupply :=
  let (subst, supply) := instantiateVars scheme.vars supply []
  ((scheme.preds.map (Predicate.apply subst), scheme.typ.apply subst), supply)

/-! ## Instances -/

namespace Scheme

variable (scheme : Scheme)

/-- The ids of the quantified variables. -/
def bound : List TypeVarId :=
  scheme.vars.map (·.id)

/-- The variable occurs in the scheme. -/
def Mentions (id : TypeVarId) : Prop :=
  id ∈ scheme.typ.ftv ∨ ∃ pred ∈ scheme.preds, id ∈ pred.typ.ftv

/-- The variable occurs in the scheme and is not quantified. -/
def Free (id : TypeVarId) : Prop :=
  scheme.Mentions id ∧ id ∉ scheme.bound

/-- A type of the scheme with its quantified variables replaced. -/
def replace (fresh : TypeVar → TypeVar) (typ : Typ) : Typ :=
  typ.bindVars fun typeVar =>
    .var (if typeVar.id ∈ scheme.bound then fresh typeVar else typeVar)

/-- The instance of the scheme with these variables for the quantified ones. -/
def instanceAt (fresh : TypeVar → TypeVar) : List Predicate × Typ :=
  (scheme.preds.map fun pred => ⟨pred.className, scheme.replace fresh pred.typ⟩,
    scheme.replace fresh scheme.typ)

end Scheme

/-- Variables are changed by their ids, different ones of these into different ones. -/
structure ChangesApart (ids : TypeVarId → Prop) (change : TypeVar → TypeVar) : Prop where
  byId : ∀ first second : TypeVar, first.id = second.id → (change first).id = (change second).id
  apart : ∀ first second : TypeVar, ids first.id → ids second.id →
    (change first).id = (change second).id → first.id = second.id

/-- The variables for the quantified ones are different, and occur neither in the type
nor free in the scheme. -/
structure Scheme.FreshFor (scheme : Scheme) (typ : Typ) (fresh : TypeVar → TypeVar) : Prop where
  changes : ChangesApart (· ∈ scheme.bound) fresh
  notInType : ∀ typeVar : TypeVar, typeVar.id ∈ scheme.bound → (fresh typeVar).id ∉ typ.ftv
  notFree : ∀ typeVar : TypeVar, typeVar.id ∈ scheme.bound → ¬scheme.Free (fresh typeVar).id

/-! ## The supplied variables -/

/-- The variable that the loop of `instantiate` leaves for an id. -/
def supplied : List TypeVar → TypeVarId → TypeVarId → Option TypeVar
  | [], _, _ => none
  | typeVar :: vars, start, id =>
      (supplied vars (start + 1) id).or
        (if id = typeVar.id then some ⟨start, typeVar.name⟩ else none)

theorem supplied_cons (typeVar : TypeVar) (vars : List TypeVar) (start id : TypeVarId) :
    supplied (typeVar :: vars) start id =
      (supplied vars (start + 1) id).or
        (if id = typeVar.id then some ⟨start, typeVar.name⟩ else none) := rfl

theorem lookup_instantiateVars (vars : List TypeVar) (start : Nat) (subst : Subst)
    (id : TypeVarId) :
    (instantiateVars vars ⟨start⟩ subst).1.lookup id =
      ((supplied vars start id).map Typ.var).or (subst.lookup id) := by
  induction vars generalizing start subst with
  | nil => rfl
  | cons typeVar vars hypothesis =>
      rw [instantiateVars, supplied_cons]
      simp only [TypeVarSupply.fresh]
      rw [hypothesis, lookup_cons_eq_ite]
      cases supplied vars (start + 1) id with
      | none =>
          by_cases same : id = typeVar.id <;> simp [same]
      | some found => rfl

theorem isSome_supplied {vars : List TypeVar} {start : Nat} {id : TypeVarId} :
    (supplied vars start id).isSome ↔ id ∈ vars.map (·.id) := by
  induction vars generalizing start with
  | nil => simp [supplied]
  | cons typeVar vars hypothesis =>
      rw [supplied_cons, List.map_cons, List.mem_cons, ← @hypothesis (start + 1)]
      cases supplied vars (start + 1) id with
      | none => by_cases same : id = typeVar.id <;> simp [same]
      | some found => simp

/-- The supply counts up from its start. -/
theorem exists_offset_of_supplied {vars : List TypeVar} {start : Nat} {id : TypeVarId}
    {found : TypeVar} (isFound : supplied vars start id = some found) :
    ∃ offset < vars.length, found.id = start + offset := by
  induction vars generalizing start with
  | nil => cases isFound
  | cons typeVar vars hypothesis =>
      rw [supplied_cons] at isFound
      cases later : supplied vars (start + 1) id with
      | none =>
          rw [later, Option.none_or] at isFound
          split_ifs at isFound
          cases isFound
          exact ⟨0, by simp, rfl⟩
      | some other =>
          rw [later] at isFound
          cases isFound
          obtain ⟨offset, below, isOffset⟩ := hypothesis later
          have next : start + 1 + offset = start + (offset + 1) := by omega
          exact ⟨offset + 1, by simpa using below, isOffset.trans next⟩

theorem supplied_injective {vars : List TypeVar} {start : Nat} {first second : TypeVarId}
    {found other : TypeVar} (isFound : supplied vars start first = some found)
    (isOther : supplied vars start second = some other) (same : found.id = other.id) :
    first = second := by
  induction vars generalizing start with
  | nil => cases isFound
  | cons typeVar vars hypothesis =>
      -- The variable of the head is below all that are supplied later.
      have later_ne {id : TypeVarId} {later : TypeVar}
          (isLater : supplied vars (start + 1) id = some later) : later.id ≠ start := by
        obtain ⟨offset, -, isOffset⟩ := exists_offset_of_supplied isLater
        intro same
        have absurd : start + 1 + offset = start := isOffset.symm.trans same
        omega
      rw [supplied_cons] at isFound isOther
      cases later : supplied vars (start + 1) first with
      | none =>
          rw [later, Option.none_or] at isFound
          split_ifs at isFound with isHead
          cases isFound
          cases later' : supplied vars (start + 1) second with
          | none =>
              rw [later', Option.none_or] at isOther
              split_ifs at isOther with isHead'
              rw [isHead, isHead']
          | some found' =>
              rw [later'] at isOther
              cases isOther
              exact absurd same.symm (later_ne later')
      | some found' =>
          rw [later] at isFound
          cases isFound
          cases later' : supplied vars (start + 1) second with
          | none =>
              rw [later', Option.none_or] at isOther
              split_ifs at isOther with isHead'
              cases isOther
              exact absurd same (later_ne later)
          | some other' =>
              rw [later'] at isOther
              cases isOther
              exact hypothesis later later'

namespace Scheme

variable {scheme : Scheme} {typ : Typ}

/-- The variables that `instantiate` takes from a new supply. -/
def fromSupply (scheme : Scheme) (typeVar : TypeVar) : TypeVar :=
  (supplied scheme.vars 0 typeVar.id).getD typeVar

theorem apply_eq_replace (scheme : Scheme) (typ : Typ) :
    typ.apply (instantiateVars scheme.vars .new []).1 = scheme.replace scheme.fromSupply typ := by
  rw [Typ.apply_eq_bindVars]
  unfold replace fromSupply
  congr
  ext typeVar
  rw [TypeVarSupply.new, lookup_instantiateVars, List.lookup_nil, Option.or_none]
  cases isSupplied : supplied scheme.vars 0 typeVar.id with
  | none =>
      have notBound : typeVar.id ∉ scheme.bound := fun isBound => by
        have isSome : (supplied scheme.vars 0 typeVar.id).isSome := isSome_supplied.2 isBound
        rw [isSupplied] at isSome
        cases isSome
      rw [if_neg notBound]
      rfl
  | some found =>
      have isBound : typeVar.id ∈ scheme.bound := isSome_supplied.1 (by rw [isSupplied]; rfl)
      rw [if_pos isBound]
      rfl

/-- Instantiating with a new supply gives the instance at its variables. -/
theorem instantiate_new (scheme : Scheme) :
    (instantiate scheme .new).1 = scheme.instanceAt scheme.fromSupply := by
  unfold instantiate instanceAt
  simp only [apply_eq_replace, Prod.mk.injEq, and_true]
  refine List.map_congr_left fun pred _ => ?_
  rw [Predicate.apply, apply_eq_replace]

/-- The ids that a new supply gives to an instance occur neither in the type nor free in
the scheme. -/
structure ClearOfSupply (scheme : Scheme) (typ : Typ) : Prop where
  typeIds : ∀ id ∈ typ.ftv, scheme.vars.length ≤ id
  freeIds : ∀ id, scheme.Free id → scheme.vars.length ≤ id

theorem exists_supplied {typeVar : TypeVar} (isBound : typeVar.id ∈ scheme.bound) :
    ∃ found, supplied scheme.vars 0 typeVar.id = some found ∧
      scheme.fromSupply typeVar = found := by
  obtain ⟨found, isFound⟩ := Option.isSome_iff_exists.mp (isSome_supplied.2 isBound)
  exact ⟨found, isFound, by rw [fromSupply, isFound, Option.getD_some]⟩

theorem fromSupply_lt {typeVar : TypeVar} (isBound : typeVar.id ∈ scheme.bound) :
    (scheme.fromSupply typeVar).id < scheme.vars.length := by
  obtain ⟨found, isFound, rfl⟩ := exists_supplied isBound
  obtain ⟨offset, below, isOffset⟩ := exists_offset_of_supplied isFound
  rw [isOffset, Nat.zero_add]
  exact below

theorem ClearOfSupply.freshFor (clear : scheme.ClearOfSupply typ) :
    scheme.FreshFor typ scheme.fromSupply where
  changes :=
    { byId := fun first second same => by
        unfold fromSupply
        rw [same]
        cases supplied scheme.vars 0 second.id with
        | none => exact same
        | some found => rfl
      apart := fun first second isBound isBound' same => by
        obtain ⟨found, isFound, rfl⟩ := exists_supplied isBound
        obtain ⟨found', isFound', rfl⟩ := exists_supplied isBound'
        exact supplied_injective isFound isFound' same }
  notInType typeVar isBound member :=
    absurd (clear.typeIds _ member) (Nat.not_le_of_lt (fromSupply_lt isBound))
  notFree typeVar isBound isFree :=
    absurd (clear.freeIds _ isFree) (Nat.not_le_of_lt (fromSupply_lt isBound))

/-! ## Variables of their own -/

/-- The quantified variables have odd ids and the free ones even ids. -/
def separateVar (scheme : Scheme) (typeVar : TypeVar) : TypeVar :=
  ⟨if typeVar.id ∈ scheme.bound then 2 * typeVar.id + 1 else 2 * typeVar.id, typeVar.name⟩

def separate (scheme : Scheme) (typ : Typ) : Typ :=
  typ.bindVars fun typeVar => .var (scheme.separateVar typeVar)

/-- The predicates and the type of the scheme on variables of their own. -/
def separated (scheme : Scheme) : List Predicate × Typ :=
  (scheme.preds.map fun pred => ⟨pred.className, scheme.separate pred.typ⟩,
    scheme.separate scheme.typ)

end Scheme

/-- A type with even ids for its variables. -/
def Typ.evened (typ : Typ) : Typ :=
  typ.bindVars fun typeVar => .var ⟨2 * typeVar.id, typeVar.name⟩

/-- A type with its variables changed. -/
def Typ.changed (change : TypeVar → TypeVar) (typ : Typ) : Typ :=
  typ.bindVars fun typeVar => .var (change typeVar)

def Relabeling.preds (relabeling : Relabeling) (preds : List Predicate) : List Predicate :=
  preds.map fun pred => ⟨pred.className, relabeling.typ pred.typ⟩

namespace Scheme

variable {scheme : Scheme} {typ : Typ} {fresh place : TypeVar → TypeVar}

/-- The ids on which the common source is relabeled. -/
def Source (scheme : Scheme) (typ : Typ) (id : TypeVarId) : Prop :=
  (∃ other, (other ∈ typ.ftv ∨ scheme.Free other) ∧ id = 2 * other) ∨
    ∃ other ∈ scheme.bound, id = 2 * other + 1

/-- Quantified variables go where the instance has them, the others where the type does. -/
def mergeChanges (fresh place : TypeVar → TypeVar) (typeVar : TypeVar) : TypeVar :=
  if typeVar.id % 2 = 1 then fresh ⟨typeVar.id / 2, typeVar.name⟩
  else place ⟨typeVar.id / 2, typeVar.name⟩

theorem mergeChanges_odd (fresh place : TypeVar → TypeVar) (id : Nat) (name : Option Symbol) :
    mergeChanges fresh place ⟨2 * id + 1, name⟩ = fresh ⟨id, name⟩ := by
  have odd : (2 * id + 1) % 2 = 1 := by omega
  have half : (2 * id + 1) / 2 = id := by omega
  unfold mergeChanges
  simp only [odd, half, if_true]

theorem mergeChanges_even (fresh place : TypeVar → TypeVar) (id : Nat) (name : Option Symbol) :
    mergeChanges fresh place ⟨2 * id, name⟩ = place ⟨id, name⟩ := by
  have even : ¬(2 * id) % 2 = 1 := by omega
  have half : 2 * id / 2 = id := by omega
  unfold mergeChanges
  simp only [even, half, if_false]

theorem mem_ftv_changed {change : TypeVar → TypeVar} {typeVar : TypeVar}
    (member : typeVar.id ∈ typ.ftv)
    (byId : ∀ first second : TypeVar, first.id = second.id → (change first).id = (change second).id) :
    (change typeVar).id ∈ (typ.changed change).ftv := by
  have renamed : (typ.changed change).rename (⟨·, none⟩) =
      typ.rename fun id => ⟨(change ⟨id, none⟩).id, none⟩ := by
    unfold Typ.changed Typ.rename
    rw [Typ.bindVars_bindVars]
    congr
    ext other
    rw [Typ.bindVars_var, byId other ⟨other.id, none⟩ rfl]
  have inside : (change typeVar).id ∈ (typ.rename fun id => ⟨(change ⟨id, none⟩).id, none⟩).ftv :=
    Typ.mem_ftv_rename.mpr ⟨typeVar.id, member, byId _ _ rfl⟩
  rw [← renamed] at inside
  obtain ⟨other, isOther, same⟩ := Typ.mem_ftv_rename.mp inside
  rwa [same]

theorem source_of_mem_evened {id : TypeVarId} (member : id ∈ typ.evened.ftv) :
    scheme.Source typ id := by
  obtain ⟨typeVar, inside, isVar⟩ := Typ.exists_of_mem_ftv_bindVars member
  rw [Typ.ftv, Finset.mem_singleton] at isVar
  exact .inl ⟨typeVar.id, .inl inside, isVar⟩

theorem source_of_mem_separate {part : Typ} (mentions : ∀ id ∈ part.ftv, scheme.Mentions id)
    {id : TypeVarId} (member : id ∈ (scheme.separate part).ftv) : scheme.Source typ id := by
  obtain ⟨typeVar, inside, isVar⟩ := Typ.exists_of_mem_ftv_bindVars member
  rw [Typ.ftv, Finset.mem_singleton] at isVar
  unfold separateVar at isVar
  by_cases isBound : typeVar.id ∈ scheme.bound
  · rw [if_pos isBound] at isVar
    exact .inr ⟨typeVar.id, isBound, isVar⟩
  · rw [if_neg isBound] at isVar
    exact .inl ⟨typeVar.id, .inr ⟨mentions _ inside, isBound⟩, isVar⟩

section Merge

variable (placed : ChangesApart (fun id => id ∈ typ.ftv ∨ scheme.Free id) place)
  (keepsFree : ∀ typeVar : TypeVar, scheme.Free typeVar.id → place typeVar = typeVar)
  (freshFor : scheme.FreshFor (typ.changed place) fresh)

include placed keepsFree freshFor

theorem fresh_ne_place {quantified other : TypeVar} (isBound : quantified.id ∈ scheme.bound)
    (isOther : other.id ∈ typ.ftv ∨ scheme.Free other.id) :
    (fresh quantified).id ≠ (place other).id := by
  intro same
  rcases isOther with inType | isFree
  · apply freshFor.notInType quantified isBound
    rw [same]
    exact mem_ftv_changed inType placed.byId
  · apply freshFor.notFree quantified isBound
    rw [same, keepsFree other isFree]
    exact isFree

theorem injOn_mergeChanges :
    Set.InjOn (fun id => (mergeChanges fresh place ⟨id, none⟩).id) (scheme.Source typ) := by
  intro first isFirst second isSecond same
  rcases isFirst with ⟨other, isOther, rfl⟩ | ⟨other, isBound, rfl⟩ <;>
    rcases isSecond with ⟨other', isOther', rfl⟩ | ⟨other', isBound', rfl⟩
  · simp only [mergeChanges_even] at same
    exact congrArg (2 * ·) (placed.apart ⟨other, none⟩ ⟨other', none⟩ isOther isOther' same)
  · simp only [mergeChanges_even, mergeChanges_odd] at same
    exact absurd same.symm (fresh_ne_place placed keepsFree freshFor isBound' isOther)
  · simp only [mergeChanges_even, mergeChanges_odd] at same
    exact absurd same (fresh_ne_place placed keepsFree freshFor isBound isOther')
  · simp only [mergeChanges_odd] at same
    exact congrArg (2 * · + 1)
      (freshFor.changes.apart ⟨other, none⟩ ⟨other', none⟩ isBound isBound' same)

omit keepsFree in
theorem id_mergeChanges (typeVar : TypeVar) :
    (mergeChanges fresh place typeVar).id = (mergeChanges fresh place ⟨typeVar.id, none⟩).id := by
  unfold mergeChanges
  split_ifs
  · exact freshFor.changes.byId _ _ rfl
  · exact placed.byId _ _ rfl

omit placed freshFor in
theorem changed_separate {part : Typ} (mentions : ∀ id ∈ part.ftv, scheme.Mentions id) :
    ((scheme.separate part).bindVars fun typeVar => .var (mergeChanges fresh place typeVar)) =
      scheme.replace fresh part := by
  unfold separate replace
  rw [Typ.bindVars_bindVars]
  refine Typ.bindVars_congr fun typeVar inside => ?_
  rw [Typ.bindVars_var]
  unfold separateVar
  by_cases isBound : typeVar.id ∈ scheme.bound
  · rw [if_pos isBound, if_pos isBound, mergeChanges_odd]
  · rw [if_neg isBound, if_neg isBound, mergeChanges_even]
    rw [keepsFree _ ⟨mentions _ inside, isBound⟩]

/-- An instance and a renamed type are the separated scheme and the type, relabeled. -/
theorem exists_relabeling :
    ∃ relabeling : Relabeling,
      (relabeling.preds scheme.separated.1, relabeling.typ scheme.separated.2) =
        scheme.instanceAt fresh ∧
      relabeling.typ typ.evened = typ.changed place := by
  let predTypes := scheme.separated.1.map (·.typ)
  let ids := typ.evened.ftv ∪ (scheme.separated.2.ftv ∪ Typ.ftvList predTypes)
  have sources : ∀ id ∈ ids, scheme.Source typ id := by
    intro id member
    rcases Finset.mem_union.mp member with member | member
    · exact source_of_mem_evened member
    rcases Finset.mem_union.mp member with member | member
    · exact source_of_mem_separate (fun _ => .inl) member
    · obtain ⟨_, isPredType, inside⟩ := Typ.mem_ftvList.mp member
      obtain ⟨_, isSeparate, rfl⟩ := List.mem_map.mp isPredType
      obtain ⟨pred, isPred, rfl⟩ := List.mem_map.mp isSeparate
      exact source_of_mem_separate (fun _ inPred => .inr ⟨pred, isPred, inPred⟩) inside
  obtain ⟨relabeling, agrees⟩ := Relabeling.exists_agrees
    (id_mergeChanges placed freshFor)
    ((injOn_mergeChanges placed keepsFree freshFor).mono sources)
  refine ⟨relabeling, ?_, ?_⟩
  · have onTyp : relabeling.typ scheme.separated.2 = scheme.replace fresh scheme.typ := by
      rw [agrees _ fun id member => Finset.mem_union.mpr (.inr (Finset.mem_union.mpr (.inl member)))]
      exact changed_separate keepsFree fun _ => .inl
    rw [instanceAt, onTyp, Prod.mk.injEq]
    refine ⟨?_, rfl⟩
    unfold Relabeling.preds separated
    rw [List.map_map]
    refine List.map_congr_left fun pred isPred => ?_
    have isPredType : scheme.separate pred.typ ∈ predTypes :=
      List.mem_map.mpr ⟨_, List.mem_map_of_mem isPred, rfl⟩
    rw [Function.comp_apply, agrees _ fun id member => Finset.mem_union.mpr (.inr
      (Finset.mem_union.mpr (.inr (Typ.mem_ftvList.mpr ⟨_, isPredType, member⟩)))),
      changed_separate keepsFree fun _ inPred => .inr ⟨pred, isPred, inPred⟩]
  · rw [agrees _ Finset.subset_union_left]
    unfold Typ.evened Typ.changed
    rw [Typ.bindVars_bindVars]
    refine Typ.bindVars_congr fun typeVar _ => ?_
    rw [Typ.bindVars_var, mergeChanges_even]

end Merge

end Scheme

end RexLang
