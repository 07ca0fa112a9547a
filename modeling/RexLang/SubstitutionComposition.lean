import RexLang.PureUnification

/-!
# Composition of substitutions

`compose_subst` lets the later substitution win on a variable that both bind,
where composition would apply it to the image that the earlier one gives.  The
substitutions that the pure unifier returns are idempotent, unless a record met
an application of one of the record's own variables.
-/

namespace RexLang

/-! ## The law of composition -/

/-- Where both substitutions bind a variable of the type, the later one binds
it to the image of what the earlier one binds it to. -/
def AgreeOnShared (second first : Subst) (typ : Typ) : Prop :=
  ∀ id ∈ typ.ftv, ∀ image, first.lookup id = some image →
    ∀ winner, second.lookup id = some winner → winner = image.apply second

/-- Substituting twice is substituting once. -/
def Subst.Idempotent (subst : Subst) : Prop :=
  ∀ typ : Typ, (typ.apply subst).apply subst = typ.apply subst

namespace Equation

/-- Functions that substitute alike in a type agree on its variables. -/
theorem exists_agree_of_bindVars_eq {one two : TypeVar → Typ} {typ : Typ} {id : TypeVarId}
    (same : typ.bindVars one = typ.bindVars two) (member : id ∈ typ.ftv) :
    ∃ typeVar : TypeVar, typeVar.id = id ∧ one typeVar = two typeVar := by
  induction typ using Typ.inductionOn with
  | var typeVar =>
      have isVar : id = typeVar.id := by simpa [Typ.ftv] using member
      exact ⟨typeVar, isVar.symm, same⟩
  | con const => simp [Typ.ftv] at member
  | app head arg inHead inArg =>
      simp only [Typ.bindVars_app, Typ.app.injEq] at same
      simp only [Typ.ftv, Finset.mem_union] at member
      exact member.elim (inHead same.1) (inArg same.2)
  | func arg ret inArg inRet =>
      simp only [Typ.bindVars_func, Typ.func.injEq] at same
      simp only [Typ.ftv, Finset.mem_union] at member
      exact member.elim (inArg same.1) (inRet same.2)
  | tuple elems inElem =>
      simp only [Typ.bindVars_tuple, Typ.tuple.injEq] at same
      simp only [Typ.ftv, Typ.mem_ftvList] at member
      obtain ⟨elem, isElem, inImage⟩ := member
      exact inElem elem isElem (List.map_inj_left.mp same elem isElem) inImage
  | record fields inField =>
      simp only [Typ.bindVars_record, Typ.record.injEq] at same
      simp only [Typ.ftv, Typ.mem_ftvFields] at member
      obtain ⟨field, isField, inImage⟩ := member
      have sameField := List.map_inj_left.mp same field isField
      exact inField field isField (congrArg Prod.snd sameField) inImage

/-- The law at one variable: it can fail only where both substitutions bind it. -/
theorem assignment_composeSubst_iff (second first : Subst) (typeVar : TypeVar) :
    assignment (composeSubst second first) typeVar =
        ((Typ.var typeVar).apply first).apply second ↔
      ∀ image, first.lookup typeVar.id = some image →
        ∀ winner, second.lookup typeVar.id = some winner → winner = image.apply second := by
  rw [assignment, Typ.apply, Typ.apply, lookup_composeSubst]
  cases first.lookup typeVar.id with
  | none => simp [Typ.apply]
  | some image =>
      cases second.lookup typeVar.id with
      | none => simp
      | some winner => simp

theorem apply_composeSubst_iff (second first : Subst) (typ : Typ) :
    typ.apply (composeSubst second first) = (typ.apply first).apply second ↔
      AgreeOnShared second first typ := by
  have twice : (typ.apply first).apply second =
      typ.bindVars fun typeVar => ((Typ.var typeVar).apply first).apply second := by
    simp only [apply_eq_bindVars, Typ.bindVars_bindVars, Typ.bindVars_var]
  rw [twice, apply_eq_bindVars]
  constructor
  · intro same id member
    obtain ⟨typeVar, rfl, agree⟩ := exists_agree_of_bindVars_eq same member
    exact (assignment_composeSubst_iff second first typeVar).mp agree
  · intro agree
    refine Typ.bindVars_congr fun typeVar member => ?_
    exact (assignment_composeSubst_iff second first typeVar).mpr (agree typeVar.id member)

/-! ## Idempotence -/

theorem Resolves.subst_idempotent {vars : Finset TypeVarId} {subst : Subst}
    (resolves : Resolves vars (assignment subst)) : subst.Idempotent := by
  intro typ
  simp only [apply_eq_bindVars]
  exact resolves.idempotent typ

/-- The pure unifier returns, and what it returns is idempotent. -/
theorem idempotent_of_unify {first second : Typ} (keeps : KeepsHeads first second) :
    ∃ enough, ∀ fuel, enough ≤ fuel →
      unify fuel first second ≠ .error .outOfFuel ∧
        ∀ subst, unify fuel first second = .ok subst → subst.Idempotent := by
  obtain ⟨depth, result, solves⟩ := solvable (first, second)
  refine ⟨depth, fun fuel enough => ?_⟩
  have agrees := agrees_unify solves keeps enough
  rcases cases_of_agrees agrees with ⟨error, isError, fuelLeft, -⟩ | ⟨subst, isSubst, rfl⟩
  · rw [isError]
    exact ⟨fun same => fuelLeft (Except.error.inj same), fun subst absurd => by cases absurd⟩
  · rw [isSubst]
    refine ⟨by simp, fun found isFound => ?_⟩
    cases isFound
    exact solves.resolves.subst_idempotent

/-- `f y`, a field of a record that meets `f x`. -/
def ownHeadField : Typ :=
  .app (.var ⟨0, none⟩) (.var ⟨1, none⟩)

end Equation

end RexLang
