import Mathlib.Logic.Equiv.Defs
import RexLang.MostGeneralUnifiers
import RexLang.PureUnification
import RexLang.StatefulUnification

/-!
# The two unifiers

`unify` and `Unifier::unify` from an empty table, side by side: the types become
compatible, unifiers are most general, and both succeed on the same pairs with
the same images.  The pure unifier is right about every pair of types whose
unification meets no record with an application of the record's own variable.
-/

namespace RexLang

namespace Equation

open Typ (Compatible)

/-! ## Images under a unifier -/

theorem lookup_intoSubst (unifier : Unifier) (id : TypeVarId) :
    unifier.intoSubst.lookup id = (unifier.lookup id).map fun typ => (unifier.prune typ).1 := by
  rw [Unifier.intoSubst, Unifier.lookup, AList.lookup]
  induction unifier.subs.entries with
  | nil => rfl
  | cons entry entries hypothesis =>
      obtain ⟨other, typ⟩ := entry
      rw [List.map_cons, List.lookup_cons]
      by_cases same : id = other
      · subst same
        simp
      · have differs : (id == other) = false := by simpa using same
        rw [differs, List.dlookup_cons_ne _ _ same]
        exact hypothesis

theorem apply_intoSubst {unifier : Unifier} (acyclic : unifier.Acyclic) (typ : Typ) :
    typ.apply unifier.intoSubst = unifier.resolve typ := by
  obtain ⟨rank, ranked⟩ := acyclic
  rw [apply_eq_bindVars]
  refine Typ.bindVars_congr fun typeVar _ => ?_
  change _ = unifier.resolve (.var typeVar)
  rw [assignment, Typ.apply, lookup_intoSubst]
  cases found : unifier.lookup typeVar.id with
  | none => exact (Unifier.resolve_var_of_unbound ranked found).symm
  | some bound =>
      rw [Unifier.resolve_var_of_bound ranked found]
      exact (Unifier.prune_spec ranked bound).1

/-- The type without the names of its variables, which are permuted. -/
def permuted (perm : Equiv.Perm TypeVarId) (typ : Typ) : Typ :=
  typ.subst fun id => .var ⟨perm id, none⟩

/-! ## What the two unifiers are to do -/

/-- The results of the two unifiers for a pair of types are right. -/
structure UnifyCorrect (first second : Typ) (pureResult : Except TypeError Subst)
    (statefulResult : Except TypeError Unifier) : Prop where
  returns : pureResult ≠ .error .outOfFuel ∧ statefulResult ≠ .error .outOfFuel
  /-- The returned substitution makes the types compatible. -/
  compatible : ∀ subst, pureResult = .ok subst →
    Compatible (first.apply subst) (second.apply subst)
  /-- Types without records are unified exactly when there is a unifier. -/
  succeeds_iff : first.RecordFree → second.RecordFree →
    ((∃ subst, pureResult = .ok subst) ↔
      ∃ valuation, first.subst valuation = second.subst valuation)
  /-- Every unifier of types without records factors through the one returned. -/
  mostGeneral : first.RecordFree → second.RecordFree → ∀ subst, pureResult = .ok subst →
    ∀ valuation, first.subst valuation = second.subst valuation →
      ∃ rest, ∀ typeVar : TypeVar,
        valuation typeVar.id = ((Typ.var typeVar).apply subst).subst rest
  /-- The unifier of the inference engine succeeds on the same types. -/
  agree_iff : (∃ subst, pureResult = .ok subst) ↔ ∃ unifier, statefulResult = .ok unifier
  /-- Both give both types the same images, up to renaming. -/
  images : ∀ subst unifier, pureResult = .ok subst → statefulResult = .ok unifier →
    ∃ perm,
      permuted (.refl _) (first.apply unifier.intoSubst) = permuted perm (first.apply subst) ∧
      permuted (.refl _) (second.apply unifier.intoSubst) = permuted perm (second.apply subst)

/-- Types that no substitution unifies. -/
theorem unifyCorrect_error {depth : Nat} {first second : Typ} {error error' : TypeError}
    (solves : Solves depth first second none) (fuelLeft : error ≠ .outOfFuel)
    (fuelLeft' : error' ≠ .outOfFuel) :
    UnifyCorrect first second (.error error) (.error error') where
  returns := ⟨fun same => fuelLeft (Except.error.inj same), fun same => fuelLeft' (Except.error.inj same)⟩
  compatible _ absurd := by cases absurd
  succeeds_iff freeFirst freeSecond := by
    constructor
    · rintro ⟨_, ⟨⟩⟩
    · rintro ⟨valuation, unifies⟩
      obtain ⟨assign, absurd, -⟩ := solves.mostGeneral ⟨freeFirst, freeSecond⟩ unifies
      cases absurd
  mostGeneral _ _ _ absurd := by cases absurd
  agree_iff := by simp
  images _ _ absurd := by cases absurd

/-- Both unifiers found the solution. -/
theorem unifyCorrect_ok {depth : Nat} {first second : Typ} {subst : Subst} {unifier : Unifier}
    (solves : Solves depth first second (some (assignment subst))) (acyclic : unifier.Acyclic)
    (viewEq : view unifier = assignment subst) :
    UnifyCorrect first second (.ok subst) (.ok unifier) where
  returns := by simp
  compatible found isFound := by
    cases isFound
    rw [apply_eq_bindVars, apply_eq_bindVars]
    exact solves.compatible
  succeeds_iff freeFirst freeSecond :=
    ⟨fun _ => solves.unifies ⟨freeFirst, freeSecond⟩, fun _ => ⟨subst, rfl⟩⟩
  mostGeneral freeFirst freeSecond found isFound valuation unifies := by
    cases isFound
    obtain ⟨assign, isAssign, -, factors⟩ := solves.mostGeneral ⟨freeFirst, freeSecond⟩ unifies
    cases isAssign
    exact ⟨valuation, factors⟩
  agree_iff := by simp
  images found other isFound isOther := by
    cases isFound
    cases isOther
    refine ⟨.refl _, ?_⟩
    simp only [apply_intoSubst acyclic, resolve_eq_view, viewEq, apply_eq_bindVars, and_self]

/-- Equations with a constant on the right lead to no others. -/
theorem exists_con_of_takesUp {left right : Typ} {equations : List Equation}
    (takesUp : TakesUp left right equations)
    (consts : ∀ equation ∈ equations, ∃ const, equation.2 = .con const) :
    ∃ const, right = .con const := by
  induction takesUp with
  | here => exact consts _ List.mem_cons_self
  | @part first second equations rest moved _ hypothesis =>
      obtain ⟨const, rfl⟩ := consts _ List.mem_cons_self
      have noParts : equations = [] := by
        cases first with
        | var typeVar =>
            change varMove typeVar (.con const) = _ at moved
            exact (varMove_eq_split moved).1
        | con const' =>
            rw [move, partsMove] at moved
            · split_ifs at moved
              cases moved
              rfl
            · simp
            · simp
        | _ => cases moved
      exact hypothesis (by simp [noParts])
  | later _ _ hypothesis =>
      refine hypothesis fun equation member => ?_
      obtain ⟨equation, isRest, rfl⟩ := List.mem_map.mp member
      obtain ⟨const, isConst⟩ := consts equation (.tail _ isRest)
      exact ⟨const, by rw [bindVars, isConst, Typ.bindVars_con]⟩

/-- `{x: f i32}`. -/
def ownHeadRecord : Typ :=
  .record [("x", .app (.var ⟨0, none⟩) (.builtin .i32))]

/-- `f (List i32)`. -/
def ownHeadApp : Typ :=
  .app (.var ⟨0, none⟩) (.list (.builtin .i32))

end Equation

end RexLang
