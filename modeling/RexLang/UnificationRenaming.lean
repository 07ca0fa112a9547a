import Mathlib.Data.Finset.Lattice.Fold
import RexLang.SymbolMaps
import RexLang.TypeRenaming
import RexLang.UnificationTotality

/-!
# Unification up to renaming

The pure unifier looks at the ids of type variables only to compare them, so a
one-to-one change of the variables changes its result in the same way.
-/

namespace RexLang

/-! ## Changing the variables -/

/-- A change of type variables that is one-to-one on ids. -/
structure Relabeling where
  change : TypeVar → TypeVar
  shift : TypeVarId → TypeVarId
  injective : Function.Injective shift
  id_change : ∀ typeVar, (change typeVar).id = shift typeVar.id

namespace Relabeling

variable (relabeling : Relabeling)

def typ (typ : Typ) : Typ :=
  typ.bindVars fun typeVar => .var (relabeling.change typeVar)

def subst (subst : Subst) : Subst :=
  subst.map fun entry => (relabeling.shift entry.1, relabeling.typ entry.2)

def fields (fields : List (Symbol × Typ)) : List (Symbol × Typ) :=
  fields.map fun field => (field.1, relabeling.typ field.2)

@[simp]
theorem typ_var (typeVar : TypeVar) :
    relabeling.typ (.var typeVar) = .var (relabeling.change typeVar) := rfl

@[simp]
theorem typ_con (const : TypeConst) : relabeling.typ (.con const) = .con const := rfl

@[simp]
theorem typ_app (head arg : Typ) :
    relabeling.typ (.app head arg) = .app (relabeling.typ head) (relabeling.typ arg) := rfl

@[simp]
theorem typ_func (arg ret : Typ) :
    relabeling.typ (.func arg ret) = .func (relabeling.typ arg) (relabeling.typ ret) := rfl

@[simp]
theorem typ_tuple (elems : List Typ) :
    relabeling.typ (.tuple elems) = .tuple (elems.map relabeling.typ) := by
  unfold typ
  simp

@[simp]
theorem typ_record (fields : List (Symbol × Typ)) :
    relabeling.typ (.record fields) = .record (relabeling.fields fields) := by
  unfold typ Relabeling.fields
  simp [typ]

theorem lookup_subst (subst : Subst) (id : TypeVarId) :
    (relabeling.subst subst).lookup (relabeling.shift id) =
      (subst.lookup id).map relabeling.typ := by
  induction subst with
  | nil => rfl
  | cons entry subst hypothesis =>
      obtain ⟨other, typ⟩ := entry
      unfold Relabeling.subst at hypothesis ⊢
      rw [List.map_cons, lookup_cons_eq_ite, lookup_cons_eq_ite, hypothesis]
      by_cases same : id = other
      · rw [if_pos same, if_pos (congrArg _ same)]
        rfl
      · rw [if_neg same, if_neg fun shifted => same (relabeling.injective shifted)]

/-- Substituting commutes with the change of variables. -/
theorem typ_apply (subst : Subst) (typ : Typ) :
    relabeling.typ (typ.apply subst) = (relabeling.typ typ).apply (relabeling.subst subst) := by
  rw [Typ.apply_eq_bindVars, Typ.apply_eq_bindVars]
  unfold Relabeling.typ
  rw [Typ.bindVars_bindVars, Typ.bindVars_bindVars]
  congr
  ext typeVar
  rw [Typ.bindVars_var, relabeling.id_change, relabeling.lookup_subst]
  cases subst.lookup typeVar.id with
  | none => rfl
  | some bound => rfl

theorem subst_composeSubst (second first : Subst) :
    relabeling.subst (composeSubst second first) =
      composeSubst (relabeling.subst second) (relabeling.subst first) := by
  unfold composeSubst
  cases second with
  | nil => rfl
  | cons entry second =>
      cases first with
      | nil => rfl
      | cons entry' first => simp [Relabeling.subst, typ_apply]

theorem mem_ftv_typ {typ : Typ} {id : TypeVarId} :
    relabeling.shift id ∈ (relabeling.typ typ).ftv ↔ id ∈ typ.ftv := by
  have renamed : (relabeling.typ typ).ftv =
      (typ.rename fun id => ⟨relabeling.shift id, none⟩).ftv := by
    induction typ using Typ.inductionOn with
    | var typeVar => simp [Typ.ftv, relabeling.id_change]
    | con const => rfl
    | app head arg onHead onArg => simp [Typ.ftv, onHead, onArg]
    | func arg ret onArg onRet => simp [Typ.ftv, onArg, onRet]
    | tuple elems onElem =>
        ext id
        simp only [typ_tuple, Typ.rename_tuple, Typ.ftv, Typ.mem_ftvList, List.mem_map,
          exists_exists_and_eq_and]
        exact exists_congr fun elem => and_congr_right fun member => by rw [onElem elem member]
    | record fields onField =>
        ext id
        simp only [typ_record, Relabeling.fields, Typ.rename_record, Typ.ftv, Typ.mem_ftvFields,
          List.mem_map, exists_exists_and_eq_and]
        exact exists_congr fun field => and_congr_right fun member => by rw [onField field member]
  rw [renamed, Typ.mem_ftv_rename]
  constructor
  · rintro ⟨other, member, isShift⟩
    rwa [relabeling.injective isShift]
  · intro member
    exact ⟨id, member, rfl⟩

/-- A change of variables that is one-to-one on finitely many ids is a relabeling there. -/
theorem exists_agrees {change : TypeVar → TypeVar} {shift : Nat → Nat}
    {ids : Finset Nat} (id_change : ∀ typeVar, (change typeVar).id = shift typeVar.id)
    (injOn : Set.InjOn shift ids) :
    ∃ relabeling : Relabeling, ∀ typ : Typ, typ.ftv ⊆ ids →
      relabeling.typ typ = typ.bindVars fun typeVar => .var (change typeVar) := by
  -- The other ids move above all that the change produces.
  obtain ⟨top, below⟩ : ∃ top : Nat, ∀ id ∈ ids, shift id ≤ top :=
    ⟨ids.sup shift, fun id member => Finset.le_sup member⟩
  let far (id : Nat) : Nat := if id ∈ ids then shift id else id + top + 1
  have injective : Function.Injective far := by
    intro (first : Nat) (second : Nat) same
    simp only [far] at same
    split_ifs at same with isFirst isSecond isSecond
    · exact injOn isFirst isSecond same
    · have := below first isFirst
      omega
    · have := below second isSecond
      omega
    · omega
  let changeAll (typeVar : TypeVar) : TypeVar :=
    if typeVar.id ∈ ids then change typeVar else ⟨far typeVar.id, none⟩
  have id_changeAll : ∀ typeVar, (changeAll typeVar).id = far typeVar.id := by
    intro typeVar
    simp only [changeAll, far]
    split_ifs
    · exact id_change typeVar
    · rfl
  refine ⟨⟨changeAll, far, injective, id_changeAll⟩, fun typ inside => ?_⟩
  refine Typ.bindVars_congr fun typeVar member => ?_
  simp only [changeAll, if_pos (inside member)]

end Relabeling

/-! ## Corresponding results -/

/-- Two computations end alike: with related results, or both in an error, and then
neither or both because the fuel ran out. -/
inductive EndsAlike {First Second : Type} (related : First → Second → Prop) :
    Except TypeError First → Except TypeError Second → Prop where
  | ok {first second} (isRelated : related first second) :
      EndsAlike related (.ok first) (.ok second)
  | error {error error'} (sameFuel : error = .outOfFuel ↔ error' = .outOfFuel) :
      EndsAlike related (.error error) (.error error')

theorem EndsAlike.bind {First Second Third Fourth : Type} {related : First → Second → Prop}
    {relatedNext : Third → Fourth → Prop} {first : Except TypeError First}
    {second : Except TypeError Second} {next : First → Except TypeError Third}
    {next' : Second → Except TypeError Fourth} (alike : EndsAlike related first second)
    (alikeNext : ∀ first second, related first second →
      EndsAlike relatedNext (next first) (next' second)) :
    EndsAlike relatedNext (first >>= next) (second >>= next') := by
  cases alike with
  | ok isRelated => exact alikeNext _ _ isRelated
  | error sameFuel => exact .error sameFuel

section Unifier

variable {relabeling : Relabeling}

/-- The second substitution is the first one with its variables changed. -/
def Relabeling.Related (relabeling : Relabeling) (subst subst' : Subst) : Prop :=
  subst' = relabeling.subst subst

theorem alike_mismatch {Result Result' : Type} {related : Result → Result' → Prop}
    {first second first' second' : String} :
    EndsAlike related (.error (.unification first second))
      (.error (.unification first' second')) :=
  .error (by simp)

theorem alike_bind (typeVar : TypeVar) (typ : Typ) :
    EndsAlike relabeling.Related (bind typeVar typ)
      (bind (relabeling.change typeVar) (relabeling.typ typ)) := by
  have occurring : EndsAlike relabeling.Related
      (if typeVar.id ∈ typ.ftv then .error (.occurs typeVar.id typ.display)
        else .ok [(typeVar.id, typ)])
      (if (relabeling.change typeVar).id ∈ (relabeling.typ typ).ftv then
        .error (.occurs (relabeling.change typeVar).id (relabeling.typ typ).display)
        else .ok [((relabeling.change typeVar).id, relabeling.typ typ)]) := by
    simp only [relabeling.id_change, relabeling.mem_ftv_typ]
    split_ifs
    · exact .error (by simp)
    · exact .ok rfl
  cases typ with
  | var other =>
      unfold RexLang.bind
      simp only [Relabeling.typ_var]
      by_cases same : other.id = typeVar.id
      · rw [if_pos same, if_pos (by rw [relabeling.id_change, relabeling.id_change, same])]
        exact .ok rfl
      · have differs : (relabeling.change other).id ≠ (relabeling.change typeVar).id := by
          rw [relabeling.id_change, relabeling.id_change]
          exact fun shifted => same (relabeling.injective shifted)
        rw [if_neg same, if_neg differs]
        exact occurring
  | con const => exact occurring
  | app head arg => exact occurring
  | func arg ret => exact occurring
  | tuple elems =>
      rw [Relabeling.typ_tuple] at occurring ⊢
      exact occurring
  | record fields =>
      rw [Relabeling.typ_record] at occurring ⊢
      exact occurring

section Step

variable {unify : Typ → Typ → Except TypeError Subst}
  (alike : ∀ first second, EndsAlike relabeling.Related (unify first second)
    (unify (relabeling.typ first) (relabeling.typ second)))

include alike

theorem alike_apply (subst : Subst) (first second : Typ) :
    EndsAlike relabeling.Related (unify (first.apply subst) (second.apply subst))
      (unify ((relabeling.typ first).apply (relabeling.subst subst))
        ((relabeling.typ second).apply (relabeling.subst subst))) := by
  rw [← relabeling.typ_apply, ← relabeling.typ_apply]
  exact alike _ _

theorem alike_unifyElems (subst : Subst) (elems elems' : List Typ) :
    EndsAlike relabeling.Related (unifyElems unify subst elems elems')
      (unifyElems unify (relabeling.subst subst) (elems.map relabeling.typ)
        (elems'.map relabeling.typ)) := by
  induction elems generalizing elems' subst with
  | nil => exact .ok rfl
  | cons elem elems hypothesis =>
      cases elems' with
      | nil => exact .ok rfl
      | cons elem' elems' =>
          refine (alike_apply alike subst elem elem').bind ?_
          rintro next _ rfl
          rw [← relabeling.subst_composeSubst]
          exact hypothesis _ _

theorem alike_unifyFields (subst : Subst) (fields fields' : List (Symbol × Typ)) :
    EndsAlike relabeling.Related (unifyFields unify subst fields fields')
      (unifyFields unify (relabeling.subst subst) (relabeling.fields fields)
        (relabeling.fields fields')) := by
  induction fields generalizing fields' subst with
  | nil => exact .ok rfl
  | cons field fields hypothesis =>
      cases fields' with
      | nil => exact .ok rfl
      | cons field' fields' =>
          unfold Relabeling.fields
          rw [List.map_cons, List.map_cons, unifyFields, unifyFields]
          split_ifs
          · exact alike_mismatch
          · refine (alike_apply alike subst field.2 field'.2).bind ?_
            rintro next _ rfl
            rw [← relabeling.subst_composeSubst]
            exact hypothesis _ _

/-- The second result is the first one with its variables changed. -/
def Relabeling.RelatedElem (relabeling : Relabeling) (found found' : Subst × Typ) : Prop :=
  found' = (relabeling.subst found.1, relabeling.typ found.2)

theorem alike_recordElemTypeLoop (subst : Subst) (current : Typ) (fields : List (Symbol × Typ)) :
    EndsAlike relabeling.RelatedElem (recordElemTypeLoop unify subst current fields)
      (recordElemTypeLoop unify (relabeling.subst subst) (relabeling.typ current)
        (relabeling.fields fields)) := by
  induction fields generalizing subst current with
  | nil =>
      refine .ok ?_
      rw [Relabeling.RelatedElem, relabeling.typ_apply]
  | cons field fields hypothesis =>
      refine (alike_apply alike subst current field.2).bind ?_
      rintro next _ rfl
      have onRest := hypothesis (composeSubst next subst)
        (current.apply (composeSubst next subst))
      rw [relabeling.typ_apply, relabeling.subst_composeSubst] at onRest
      exact onRest

theorem alike_recordElemType (fields : List (Symbol × Typ)) :
    EndsAlike relabeling.RelatedElem (recordElemType unify fields)
      (recordElemType unify (relabeling.fields fields)) := by
  cases fields with
  | nil => exact .error (by simp)
  | cons field fields => exact alike_recordElemTypeLoop alike [] field.2 fields

theorem alike_unifyRecordApp (fields : List (Symbol × Typ)) (head arg : Typ)
    {mismatch mismatch' : TypeError} (sameFuel : mismatch = .outOfFuel ↔ mismatch' = .outOfFuel) :
    EndsAlike relabeling.Related (unifyRecordApp unify fields head arg mismatch)
      (unifyRecordApp unify (relabeling.fields fields) (relabeling.typ head)
        (relabeling.typ arg) mismatch') := by
  cases head with
  | con const =>
      rw [Relabeling.typ_con, unifyRecordApp, unifyRecordApp]
      split_ifs
      · refine (alike_recordElemType alike fields).bind ?_
        rintro ⟨fieldsSubst, elemTy⟩ _ rfl
        have onArg := alike (arg.apply fieldsSubst) elemTy
        rw [relabeling.typ_apply] at onArg
        refine onArg.bind ?_
        rintro argSubst _ rfl
        exact .ok (relabeling.subst_composeSubst _ _).symm
      · exact .error sameFuel
  | var typeVar =>
      refine (alike_bind typeVar (.builtin .dict)).bind ?_
      rintro headSubst _ rfl
      refine (alike_recordElemType alike fields).bind ?_
      rintro ⟨fieldsSubst, elemTy⟩ _ rfl
      have onArg := alike ((arg.apply headSubst).apply fieldsSubst) elemTy
      rw [relabeling.typ_apply, relabeling.typ_apply] at onArg
      refine onArg.bind ?_
      rintro argSubst _ rfl
      refine .ok ?_
      rw [Relabeling.Related, relabeling.subst_composeSubst, relabeling.subst_composeSubst]
  | app head arg => exact .error sameFuel
  | func arg ret => exact .error sameFuel
  | tuple elems =>
      rw [Relabeling.typ_tuple]
      exact .error sameFuel
  | record fields =>
      rw [Relabeling.typ_record]
      exact .error sameFuel

theorem alike_pair (one one' two two' : Typ) :
    EndsAlike relabeling.Related
      (do
        let firstSubst ← unify one one'
        let secondSubst ← unify (two.apply firstSubst) (two'.apply firstSubst)
        return composeSubst secondSubst firstSubst)
      (do
        let firstSubst ← unify (relabeling.typ one) (relabeling.typ one')
        let secondSubst ← unify ((relabeling.typ two).apply firstSubst)
          ((relabeling.typ two').apply firstSubst)
        return composeSubst secondSubst firstSubst) := by
  refine (alike _ _).bind ?_
  rintro firstSubst _ rfl
  refine (alike_apply alike firstSubst two two').bind ?_
  rintro secondSubst _ rfl
  exact .ok (relabeling.subst_composeSubst _ _).symm

end Step

/-- Unification commutes with a change of the variables. -/
theorem alike_unify (relabeling : Relabeling) (fuel : Nat) (first second : Typ) :
    EndsAlike relabeling.Related (unify fuel first second)
      (unify fuel (relabeling.typ first) (relabeling.typ second)) := by
  induction fuel generalizing first second with
  | zero => exact .error Iff.rfl
  | succ fuel hypothesis =>
      cases first with
      | var typeVar =>
          rw [Relabeling.typ_var, Equation.unify_var, Equation.unify_var]
          exact alike_bind typeVar second
      | con const =>
          cases second with
          | var typeVar => exact alike_bind typeVar (.con const)
          | con const' =>
              rw [Relabeling.typ_con, Relabeling.typ_con, unify]
              split_ifs
              · exact .ok rfl
              · exact alike_mismatch
          | app head arg => exact alike_mismatch
          | func arg ret => exact alike_mismatch
          | tuple elems =>
              rw [Relabeling.typ_tuple]
              exact alike_mismatch
          | record fields =>
              rw [Relabeling.typ_record]
              exact alike_mismatch
      | app head arg =>
          cases second with
          | var typeVar => exact alike_bind typeVar (.app head arg)
          | con const => exact alike_mismatch
          | app head' arg' => exact alike_pair hypothesis head head' arg arg'
          | func arg' ret => exact alike_mismatch
          | tuple elems =>
              rw [Relabeling.typ_tuple]
              exact alike_mismatch
          | record fields =>
              rw [Relabeling.typ_record]
              exact alike_unifyRecordApp hypothesis fields head arg (by simp)
      | func arg ret =>
          cases second with
          | var typeVar => exact alike_bind typeVar (.func arg ret)
          | con const => exact alike_mismatch
          | app head arg' => exact alike_mismatch
          | func arg' ret' => exact alike_pair hypothesis arg arg' ret ret'
          | tuple elems =>
              rw [Relabeling.typ_tuple]
              exact alike_mismatch
          | record fields =>
              rw [Relabeling.typ_record]
              exact alike_mismatch
      | tuple elems =>
          cases second with
          | var typeVar =>
              have bound := @alike_bind relabeling typeVar (.tuple elems)
              rw [Relabeling.typ_tuple] at bound ⊢
              exact bound
          | tuple elems' =>
              rw [Relabeling.typ_tuple, Relabeling.typ_tuple, unify, unify]
              simp only [List.length_map]
              split_ifs
              · exact alike_mismatch
              · exact alike_unifyElems hypothesis [] elems elems'
          | record fields =>
              rw [Relabeling.typ_tuple, Relabeling.typ_record]
              exact alike_mismatch
          | _ =>
              rw [Relabeling.typ_tuple]
              exact alike_mismatch
      | record fields =>
          cases second with
          | var typeVar =>
              have bound := @alike_bind relabeling typeVar (.record fields)
              rw [Relabeling.typ_record] at bound ⊢
              exact bound
          | app head arg =>
              rw [Relabeling.typ_record]
              exact alike_unifyRecordApp hypothesis fields head arg (by simp)
          | tuple elems =>
              rw [Relabeling.typ_record, Relabeling.typ_tuple]
              exact alike_mismatch
          | record fields' =>
              rw [Relabeling.typ_record, Relabeling.typ_record, unify, unify]
              simp only [Relabeling.fields, List.length_map]
              split_ifs
              · exact alike_mismatch
              · exact alike_unifyFields hypothesis [] fields fields'
          | _ =>
              rw [Relabeling.typ_record]
              exact alike_mismatch

end Unifier

end RexLang
