import Mathlib.Data.Set.Function
import RexLang.TypeSubstitution

/-!
# Renaming type variables

Renamings replace type variables by type variables, one for each id.  Types are
equivalent when they are equal up to a renaming that is one-to-one on the
variables that occur.
-/

namespace RexLang

namespace Typ

/-- Every type variable replaced by the one for its id. -/
def rename (assign : TypeVarId → TypeVar) (typ : Typ) : Typ :=
  typ.bindVars fun typeVar => .var (assign typeVar.id)

section Rename

variable (assign : TypeVarId → TypeVar)

@[simp]
theorem rename_var (typeVar : TypeVar) : (var typeVar).rename assign = .var (assign typeVar.id) :=
  rfl

@[simp]
theorem rename_con (const : TypeConst) : (con const).rename assign = .con const := rfl

@[simp]
theorem rename_app (head arg : Typ) :
    (app head arg).rename assign = .app (head.rename assign) (arg.rename assign) := rfl

@[simp]
theorem rename_func (arg ret : Typ) :
    (func arg ret).rename assign = .func (arg.rename assign) (ret.rename assign) := rfl

@[simp]
theorem rename_tuple (elems : List Typ) :
    (tuple elems).rename assign = .tuple (elems.map (rename assign)) := by
  simp [rename]

@[simp]
theorem rename_record (fields : List (Symbol × Typ)) :
    (record fields).rename assign =
      .record (fields.map fun field => (field.1, field.2.rename assign)) := by
  simp [rename]

end Rename

theorem mem_ftv_rename {assign : TypeVarId → TypeVar} {typ : Typ} {id : TypeVarId} :
    id ∈ (typ.rename assign).ftv ↔ ∃ other ∈ typ.ftv, id = (assign other).id := by
  constructor
  · intro inside
    obtain ⟨typeVar, member, isVar⟩ := exists_of_mem_ftv_bindVars inside
    exact ⟨typeVar.id, member, by simpa [ftv] using isVar⟩
  · rintro ⟨other, member, rfl⟩
    induction typ using inductionOn with
    | var typeVar => simp_all [ftv]
    | con const => simp [ftv] at member
    | app head arg inHead inArg =>
        rw [ftv, Finset.mem_union] at member
        rw [rename_app, ftv, Finset.mem_union]
        exact member.imp inHead inArg
    | func arg ret inArg inRet =>
        rw [ftv, Finset.mem_union] at member
        rw [rename_func, ftv, Finset.mem_union]
        exact member.imp inArg inRet
    | tuple elems inElem =>
        rw [ftv, mem_ftvList] at member
        obtain ⟨elem, isElem, inside⟩ := member
        simpa [ftv, mem_ftvList] using ⟨elem, isElem, inElem elem isElem inside⟩
    | record fields inField =>
        rw [ftv, mem_ftvFields] at member
        obtain ⟨field, isField, inside⟩ := member
        rw [rename_record, ftv, mem_ftvFields]
        exact ⟨_, List.mem_map_of_mem isField, inField field isField inside⟩

/-- The types are equal up to a one-to-one renaming of their variables. -/
def AlphaEquivalent (first second : Typ) : Prop :=
  ∃ assign : TypeVarId → TypeVar,
    Set.InjOn (fun id => (assign id).id) (fun id => id ∈ first.ftv) ∧ second = first.rename assign

end Typ

def Predicate.rename (assign : TypeVarId → TypeVar) (pred : Predicate) : Predicate :=
  ⟨pred.className, pred.typ.rename assign⟩

end RexLang
