import RexLang.Types

/-!
# Substitution in types

Simultaneous substitution by a function on type variables, from which the
substitutions of the type system are all obtained, and decidable equality.
-/

namespace RexLang

namespace Typ

/-- Induction over types, with the types inside tuples and records as members. -/
@[elab_as_elim]
theorem inductionOn {motive : Typ → Prop} (typ : Typ)
    (var : ∀ typeVar, motive (.var typeVar))
    (con : ∀ const, motive (.con const))
    (app : ∀ head arg, motive head → motive arg → motive (.app head arg))
    (func : ∀ arg ret, motive arg → motive ret → motive (.func arg ret))
    (tuple : ∀ elems, (∀ elem ∈ elems, motive elem) → motive (.tuple elems))
    (record : ∀ fields, (∀ field ∈ fields, motive field.2) → motive (.record fields)) :
    motive typ :=
  @Typ.rec motive (fun elems => ∀ elem ∈ elems, motive elem)
    (fun fields => ∀ field ∈ fields, motive field.2)
    (fun field => motive field.2) var con app func tuple record
    (by simp) (fun _ _ onHead onTail => by simpa using ⟨onHead, onTail⟩)
    (by simp) (fun _ _ onHead onTail => by simpa using ⟨onHead, fun _ _ => onTail _⟩)
    (fun _ _ onTyp => onTyp) typ

/-! ## Decidable equality -/

mutual

def beq : Typ → Typ → Bool
  | .var first, .var second => first = second
  | .con first, .con second => first = second
  | .app head arg, .app head' arg' => beq head head' && beq arg arg'
  | .func arg ret, .func arg' ret' => beq arg arg' && beq ret ret'
  | .tuple elems, .tuple elems' => beqList elems elems'
  | .record fields, .record fields' => beqFields fields fields'
  | _, _ => false

def beqList : List Typ → List Typ → Bool
  | [], [] => true
  | typ :: types, typ' :: types' => beq typ typ' && beqList types types'
  | _, _ => false

def beqFields : List (Symbol × Typ) → List (Symbol × Typ) → Bool
  | [], [] => true
  | (name, typ) :: fields, (name', typ') :: fields' =>
      decide (name = name') && beq typ typ' && beqFields fields fields'
  | _, _ => false

end

theorem beqList_iff {elems : List Typ} (elemIff : ∀ elem ∈ elems, ∀ typ, beq elem typ ↔ elem = typ)
    (types : List Typ) : beqList elems types ↔ elems = types := by
  induction elems generalizing types with
  | nil => cases types <;> simp [beqList]
  | cons elem elems hypothesis =>
      cases types with
      | nil => simp [beqList]
      | cons typ types =>
          have rest := hypothesis (fun elem member => elemIff elem (.tail _ member)) types
          have first := elemIff elem List.mem_cons_self typ
          simp [beqList, rest, first]

theorem beqFields_iff {fields : List (Symbol × Typ)}
    (fieldIff : ∀ field ∈ fields, ∀ typ, beq field.2 typ ↔ field.2 = typ)
    (others : List (Symbol × Typ)) : beqFields fields others ↔ fields = others := by
  induction fields generalizing others with
  | nil => cases others <;> simp [beqFields]
  | cons field fields hypothesis =>
      cases others with
      | nil => simp [beqFields]
      | cons other others =>
          have rest := hypothesis (fun field member => fieldIff field (.tail _ member)) others
          have first := fieldIff field List.mem_cons_self other.2
          obtain ⟨name, typ⟩ := field
          obtain ⟨name', typ'⟩ := other
          simp_all [beqFields]

theorem beq_iff (first second : Typ) : beq first second ↔ first = second := by
  induction first using inductionOn generalizing second with
  | var typeVar => cases second <;> simp [beq]
  | con const => cases second <;> simp [beq]
  | app head arg headIff argIff => cases second <;> simp [beq, headIff, argIff]
  | func arg ret argIff retIff => cases second <;> simp [beq, argIff, retIff]
  | tuple elems elemIff => cases second <;> simp [beq, beqList_iff elemIff]
  | record fields fieldIff => cases second <;> simp [beq, beqFields_iff fieldIff]

instance : DecidableEq Typ :=
  fun first second => decidable_of_iff _ (beq_iff first second)

end Typ

deriving instance DecidableEq for Predicate

namespace Typ

/-! ## Simultaneous substitution -/

mutual

/-- Replaces every type variable by the type that a function gives it. -/
def bindVars (assign : TypeVar → Typ) : Typ → Typ
  | .var typeVar => assign typeVar
  | .con const => .con const
  | .app head arg => .app (bindVars assign head) (bindVars assign arg)
  | .func arg ret => .func (bindVars assign arg) (bindVars assign ret)
  | .tuple elems => .tuple (bindVarsList assign elems)
  | .record fields => .record (bindVarsFields assign fields)

def bindVarsList (assign : TypeVar → Typ) : List Typ → List Typ
  | [] => []
  | typ :: types => bindVars assign typ :: bindVarsList assign types

def bindVarsFields (assign : TypeVar → Typ) : List (Symbol × Typ) → List (Symbol × Typ)
  | [] => []
  | (name, typ) :: fields => (name, bindVars assign typ) :: bindVarsFields assign fields

end

section Lists

variable (assign : TypeVar → Typ) (subst : Subst)

@[simp]
theorem bindVarsList_eq_map (elems : List Typ) :
    bindVarsList assign elems = elems.map (bindVars assign) := by
  induction elems with
  | nil => rfl
  | cons elem elems hypothesis => simp [bindVarsList, hypothesis]

@[simp]
theorem bindVarsFields_eq_map (fields : List (Symbol × Typ)) :
    bindVarsFields assign fields = fields.map fun field => (field.1, bindVars assign field.2) := by
  induction fields with
  | nil => rfl
  | cons field fields hypothesis => simp [bindVarsFields, hypothesis]

theorem applyList_eq_map (elems : List Typ) : applyList subst elems = elems.map (apply subst) := by
  induction elems with
  | nil => rfl
  | cons elem elems hypothesis => simp [applyList, hypothesis]

theorem applyFields_eq_map (fields : List (Symbol × Typ)) :
    applyFields subst fields = fields.map fun field => (field.1, apply subst field.2) := by
  induction fields with
  | nil => rfl
  | cons field fields hypothesis => simp [applyFields, hypothesis]

theorem mem_ftvList {id : TypeVarId} {elems : List Typ} :
    id ∈ ftvList elems ↔ ∃ elem ∈ elems, id ∈ ftv elem := by
  induction elems with
  | nil => simp [ftvList]
  | cons elem elems hypothesis => simp [ftvList, hypothesis]

theorem mem_ftvFields {id : TypeVarId} {fields : List (Symbol × Typ)} :
    id ∈ ftvFields fields ↔ ∃ field ∈ fields, id ∈ ftv field.2 := by
  induction fields with
  | nil => simp [ftvFields]
  | cons field fields hypothesis => simp [ftvFields, hypothesis]

end Lists

@[simp]
theorem bindVars_var (assign : TypeVar → Typ) (typeVar : TypeVar) :
    bindVars assign (.var typeVar) = assign typeVar := rfl

@[simp]
theorem bindVars_con (assign : TypeVar → Typ) (const : TypeConst) :
    bindVars assign (.con const) = .con const := rfl

@[simp]
theorem bindVars_builtin (assign : TypeVar → Typ) (id : BuiltinTypeId) :
    bindVars assign (builtin id) = builtin id := rfl

@[simp]
theorem bindVars_app (assign : TypeVar → Typ) (head arg : Typ) :
    bindVars assign (.app head arg) = .app (bindVars assign head) (bindVars assign arg) := rfl

@[simp]
theorem bindVars_func (assign : TypeVar → Typ) (arg ret : Typ) :
    bindVars assign (.func arg ret) = .func (bindVars assign arg) (bindVars assign ret) := rfl

@[simp]
theorem bindVars_tuple (assign : TypeVar → Typ) (elems : List Typ) :
    bindVars assign (.tuple elems) = .tuple (elems.map (bindVars assign)) := by
  simp [bindVars]

@[simp]
theorem bindVars_record (assign : TypeVar → Typ) (fields : List (Symbol × Typ)) :
    bindVars assign (.record fields) =
      .record (fields.map fun field => (field.1, bindVars assign field.2)) := by
  simp [bindVars]

theorem apply_eq_bindVars (subst : Subst) (typ : Typ) :
    typ.apply subst = typ.bindVars fun typeVar => (subst.lookup typeVar.id).getD (.var typeVar) := by
  induction typ using inductionOn with
  | var typeVar => rfl
  | con const => rfl
  | app head arg headEq argEq => simp [apply, headEq, argEq]
  | func arg ret argEq retEq => simp [apply, argEq, retEq]
  | tuple elems elemEq =>
      simp only [apply, applyList_eq_map, bindVars_tuple, tuple.injEq]
      exact List.map_congr_left elemEq
  | record fields fieldEq =>
      simp only [apply, applyFields_eq_map, bindVars_record, record.injEq]
      exact List.map_congr_left fun field member => by rw [fieldEq field member]

theorem bindVars_bindVars (first second : TypeVar → Typ) (typ : Typ) :
    (typ.bindVars first).bindVars second =
      typ.bindVars fun typeVar => (first typeVar).bindVars second := by
  induction typ using inductionOn with
  | var typeVar => rfl
  | con const => rfl
  | app head arg headEq argEq => simp [headEq, argEq]
  | func arg ret argEq retEq => simp [argEq, retEq]
  | tuple elems elemEq => simpa using elemEq
  | record fields fieldEq => simpa using fun name typ member => fieldEq (name, typ) member

theorem bindVars_var_self (typ : Typ) : typ.bindVars .var = typ := by
  induction typ using inductionOn with
  | var typeVar => rfl
  | con const => rfl
  | app head arg headEq argEq => simp [headEq, argEq]
  | func arg ret argEq retEq => simp [argEq, retEq]
  | tuple elems elemEq =>
      simp only [bindVars_tuple, tuple.injEq]
      exact (List.map_congr_left elemEq).trans (List.map_id elems)
  | record fields fieldEq =>
      simp only [bindVars_record, record.injEq]
      exact (List.map_congr_left fun field member => by rw [fieldEq field member]; rfl).trans
        (List.map_id fields)

/-- Functions that agree on the variables of a type substitute alike. -/
theorem bindVars_congr {first second : TypeVar → Typ} {typ : Typ}
    (agree : ∀ typeVar : TypeVar, typeVar.id ∈ typ.ftv → first typeVar = second typeVar) :
    typ.bindVars first = typ.bindVars second := by
  induction typ using inductionOn with
  | var typeVar => exact agree typeVar (by simp [ftv])
  | con const => rfl
  | app head arg headEq argEq =>
      rw [bindVars_app, bindVars_app, headEq fun _ member => agree _ (by simp [ftv, member]),
        argEq fun _ member => agree _ (by simp [ftv, member])]
  | func arg ret argEq retEq =>
      rw [bindVars_func, bindVars_func, argEq fun _ member => agree _ (by simp [ftv, member]),
        retEq fun _ member => agree _ (by simp [ftv, member])]
  | tuple elems elemEq =>
      simp only [bindVars_tuple, tuple.injEq]
      exact List.map_congr_left fun elem member => elemEq elem member fun _ inElem =>
        agree _ (by simpa [ftv, mem_ftvList] using ⟨elem, member, inElem⟩)
  | record fields fieldEq =>
      simp only [bindVars_record, record.injEq]
      refine List.map_congr_left fun field member => ?_
      rw [fieldEq field member fun _ inField =>
        agree _ (by simpa only [ftv, mem_ftvFields] using ⟨field, member, inField⟩)]

/-- A variable of a type after a substitution comes from one before it. -/
theorem exists_of_mem_ftv_bindVars {assign : TypeVar → Typ} {typ : Typ} {id : TypeVarId}
    (member : id ∈ (typ.bindVars assign).ftv) :
    ∃ typeVar : TypeVar, typeVar.id ∈ typ.ftv ∧ id ∈ (assign typeVar).ftv := by
  induction typ using inductionOn with
  | var typeVar => exact ⟨typeVar, by simp [ftv], member⟩
  | con const => simp [ftv] at member
  | app head arg inHead inArg =>
      simp only [bindVars_app, ftv, Finset.mem_union] at member ⊢
      rcases member with member | member
      · obtain ⟨typeVar, inTyp, inImage⟩ := inHead member
        exact ⟨typeVar, .inl inTyp, inImage⟩
      · obtain ⟨typeVar, inTyp, inImage⟩ := inArg member
        exact ⟨typeVar, .inr inTyp, inImage⟩
  | func arg ret inArg inRet =>
      simp only [bindVars_func, ftv, Finset.mem_union] at member ⊢
      rcases member with member | member
      · obtain ⟨typeVar, inTyp, inImage⟩ := inArg member
        exact ⟨typeVar, .inl inTyp, inImage⟩
      · obtain ⟨typeVar, inTyp, inImage⟩ := inRet member
        exact ⟨typeVar, .inr inTyp, inImage⟩
  | tuple elems inElem =>
      simp only [bindVars_tuple, ftv, mem_ftvList, List.mem_map] at member ⊢
      obtain ⟨_, ⟨elem, isElem, rfl⟩, inImage⟩ := member
      obtain ⟨typeVar, inTyp, inImage⟩ := inElem elem isElem inImage
      exact ⟨typeVar, ⟨elem, isElem, inTyp⟩, inImage⟩
  | record fields inField =>
      simp only [bindVars_record, ftv, mem_ftvFields, List.mem_map] at member ⊢
      obtain ⟨_, ⟨field, isField, rfl⟩, inImage⟩ := member
      obtain ⟨typeVar, inTyp, inImage⟩ := inField field isField inImage
      exact ⟨typeVar, ⟨field, isField, inTyp⟩, inImage⟩

/-! ## Valuations -/

/-- Replaces every type variable by the type that a valuation gives its id. -/
def subst (valuation : TypeVarId → Typ) (typ : Typ) : Typ :=
  typ.bindVars fun typeVar => valuation typeVar.id

section Subst

variable (valuation : TypeVarId → Typ)

@[simp]
theorem subst_var (typeVar : TypeVar) : subst valuation (.var typeVar) = valuation typeVar.id := rfl

@[simp]
theorem subst_con (const : TypeConst) : subst valuation (.con const) = .con const := rfl

@[simp]
theorem subst_builtin (id : BuiltinTypeId) : subst valuation (builtin id) = builtin id := rfl

@[simp]
theorem subst_app (head arg : Typ) :
    subst valuation (.app head arg) = .app (subst valuation head) (subst valuation arg) := rfl

@[simp]
theorem subst_func (arg ret : Typ) :
    subst valuation (.func arg ret) = .func (subst valuation arg) (subst valuation ret) := rfl

@[simp]
theorem subst_tuple (elems : List Typ) :
    subst valuation (.tuple elems) = .tuple (elems.map (subst valuation)) :=
  bindVars_tuple _ _

@[simp]
theorem subst_record (fields : List (Symbol × Typ)) :
    subst valuation (.record fields) =
      .record (fields.map fun field => (field.1, subst valuation field.2)) :=
  bindVars_record _ _

theorem subst_bindVars (assign : TypeVar → Typ) (typ : Typ) :
    subst valuation (typ.bindVars assign) =
      typ.bindVars fun typeVar => subst valuation (assign typeVar) :=
  bindVars_bindVars _ _ _

end Subst

end Typ

def Predicate.subst (valuation : TypeVarId → Typ) (pred : Predicate) : Predicate :=
  ⟨pred.className, pred.typ.subst valuation⟩

end RexLang
