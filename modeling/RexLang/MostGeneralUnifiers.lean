import RexLang.EquationSolving

/-!
# Most general unifiers

What solving an equation says about its sides: they become compatible, and for
types without records the result is a most general unifier when there is one.
-/

namespace RexLang

namespace Typ

/-! ## Compatible types -/

/-- A non-empty record whose field types are all equal is a dictionary. -/
def dictRecord (fields : List (Symbol × Typ)) : Typ :=
  match fields with
  | [] => .record []
  | (_, first) :: rest => if ∀ field ∈ rest, field.2 = first then dict first else .record fields

mutual

/-- The type with its records of one field type written as dictionaries, and
its variables without their names. -/
def dictForm : Typ → Typ
  | .var typeVar => .var ⟨typeVar.id, none⟩
  | .con const => .con const
  | .app head arg => .app (dictForm head) (dictForm arg)
  | .func arg ret => .func (dictForm arg) (dictForm ret)
  | .tuple elems => .tuple (dictFormList elems)
  | .record fields => dictRecord (dictFormFields fields)

def dictFormList : List Typ → List Typ
  | [] => []
  | typ :: types => dictForm typ :: dictFormList types

def dictFormFields : List (Symbol × Typ) → List (Symbol × Typ)
  | [] => []
  | (name, typ) :: fields => (name, dictForm typ) :: dictFormFields fields

end

/-- The types are equal as trees, where a non-empty record whose field types
are all equal to a type counts as the dictionary of that type. -/
def Compatible (first second : Typ) : Prop :=
  first.dictForm = second.dictForm

instance (first second : Typ) : Decidable (Compatible first second) :=
  inferInstanceAs (Decidable (_ = _))

theorem dictFormList_eq_map (elems : List Typ) : dictFormList elems = elems.map dictForm := by
  induction elems with
  | nil => rfl
  | cons elem elems hypothesis => exact congrArg (dictForm elem :: ·) hypothesis

theorem dictFormFields_eq_map (fields : List (Symbol × Typ)) :
    dictFormFields fields = fields.map fun field => (field.1, dictForm field.2) := by
  induction fields with
  | nil => rfl
  | cons field fields hypothesis =>
      exact congrArg ((field.1, dictForm field.2) :: ·) hypothesis

theorem dictForm_var (typeVar : TypeVar) : (var typeVar).dictForm = .var ⟨typeVar.id, none⟩ := rfl

@[simp]
theorem dictForm_app (head arg : Typ) :
    (app head arg).dictForm = .app head.dictForm arg.dictForm := rfl

@[simp]
theorem dictForm_func (arg ret : Typ) :
    (func arg ret).dictForm = .func arg.dictForm ret.dictForm := rfl

@[simp]
theorem dictForm_tuple (elems : List Typ) :
    (tuple elems).dictForm = .tuple (elems.map dictForm) :=
  congrArg tuple (dictFormList_eq_map elems)

@[simp]
theorem dictForm_record (fields : List (Symbol × Typ)) :
    (record fields).dictForm =
      dictRecord (fields.map fun field => (field.1, field.2.dictForm)) :=
  congrArg dictRecord (dictFormFields_eq_map fields)

@[simp]
theorem dictForm_builtin (id : BuiltinTypeId) : (builtin id).dictForm = builtin id := rfl

/-- Variables of one id get the same type, or stay themselves. -/
def Uniform (assign : TypeVar → Typ) : Prop :=
  ∀ typeVar other : TypeVar, typeVar.id = other.id →
    assign typeVar = assign other ∨ assign typeVar = .var typeVar ∧ assign other = .var other

theorem Uniform.dictForm_eq {assign : TypeVar → Typ} (uniform : Uniform assign)
    {typeVar other : TypeVar} (same : typeVar.id = other.id) :
    (assign typeVar).dictForm = (assign other).dictForm := by
  rcases uniform typeVar other same with equal | ⟨varFirst, varSecond⟩
  · rw [equal]
  · rw [varFirst, varSecond, dictForm_var, dictForm_var, same]

theorem dictForm_bindVars_dictRecord (assign : TypeVar → Typ) (fields : List (Symbol × Typ)) :
    ((dictRecord fields).bindVars assign).dictForm =
      dictRecord (fields.map fun field => (field.1, (field.2.bindVars assign).dictForm)) := by
  cases fields with
  | nil => rfl
  | cons field rest =>
      obtain ⟨name, first⟩ := field
      rw [dictRecord]
      split_ifs with equal
      · rw [List.map_cons, dictRecord, if_pos]
        · rfl
        · intro field member
          obtain ⟨field, isField, rfl⟩ := List.mem_map.mp member
          dsimp only
          rw [equal field isField]
      · rw [bindVars_record, dictForm_record, List.map_map]
        rfl

/-- Substitution does not see the difference between a type and its form. -/
theorem dictForm_bindVars {assign : TypeVar → Typ} (uniform : Uniform assign) (typ : Typ) :
    (typ.bindVars assign).dictForm = (typ.dictForm.bindVars assign).dictForm := by
  induction typ using inductionOn with
  | var typeVar => exact uniform.dictForm_eq rfl
  | con const => rfl
  | app head arg headEq argEq => simp [headEq, argEq]
  | func arg ret argEq retEq => simp [argEq, retEq]
  | tuple elems elemEq => simpa using elemEq
  | record fields fieldEq =>
      rw [dictForm_record, dictForm_bindVars_dictRecord, bindVars_record, dictForm_record,
        List.map_map, List.map_map]
      congr 1
      exact List.map_congr_left fun field member => by simp [fieldEq field member]

theorem Compatible.bindVars {assign : TypeVar → Typ} (uniform : Uniform assign)
    {first second : Typ} (compatible : Compatible first second) :
    Compatible (first.bindVars assign) (second.bindVars assign) := by
  rw [Compatible, dictForm_bindVars uniform, compatible, ← dictForm_bindVars uniform]

end Typ

namespace Equation

open Typ (Compatible)

/-! ## Solutions make the sides compatible -/

theorem compatible_tuple {assign : Assignment} {elems elems' : List Typ}
    (sameLength : elems.length = elems'.length)
    (unified : ∀ equation ∈ elems.zip elems',
      Compatible (equation.1.bindVars assign) (equation.2.bindVars assign)) :
    Compatible ((Typ.tuple elems).bindVars assign) ((Typ.tuple elems').bindVars assign) := by
  simp only [Compatible, Typ.bindVars_tuple, Typ.dictForm_tuple, Typ.tuple.injEq, List.map_map]
  induction elems generalizing elems' with
  | nil =>
      obtain rfl := List.length_eq_zero_iff.mp sameLength.symm
      rfl
  | cons elem elems hypothesis =>
      cases elems' with
      | nil => simp at sameLength
      | cons elem' elems' =>
          rw [List.map_cons, List.map_cons]
          congr 1
          · exact unified (elem, elem') List.mem_cons_self
          · exact hypothesis (by simpa using sameLength) fun equation member =>
              unified equation (.tail _ member)

theorem not_compatible_unsolvable (assign : Assignment) :
    ¬Compatible (unsolvable.1.bindVars assign) (unsolvable.2.bindVars assign) := by
  simp only [unsolvable, Compatible, Typ.bindVars_builtin, Typ.dictForm_builtin]
  decide

theorem dictFields_eq_of_fieldEquations {assign : Assignment} {fields fields' : List (Symbol × Typ)}
    (sameLength : fields.length = fields'.length)
    (unified : ∀ equation ∈ fieldEquations fields fields',
      Compatible (equation.1.bindVars assign) (equation.2.bindVars assign)) :
    fields.map (fun field => (field.1, (field.2.bindVars assign).dictForm)) =
      fields'.map fun field => (field.1, (field.2.bindVars assign).dictForm) := by
  induction fields generalizing fields' with
  | nil =>
      obtain rfl := List.length_eq_zero_iff.mp sameLength.symm
      rfl
  | cons field fields hypothesis =>
      cases fields' with
      | nil => simp at sameLength
      | cons field' fields' =>
          obtain ⟨name, typ⟩ := field
          obtain ⟨name', typ'⟩ := field'
          rw [fieldEquations] at unified
          split_ifs at unified with sameName
          · have compatible := unified (typ, typ') List.mem_cons_self
            have rest := hypothesis (by simpa using sameLength) fun equation member =>
              unified equation (.tail _ member)
            rw [List.map_cons, List.map_cons, rest, sameName]
            dsimp only [Compatible] at compatible
            rw [compatible]
          · exact (not_compatible_unsolvable assign (unified _ List.mem_cons_self)).elim

theorem compatible_recordApp {assign : Assignment} {fields : List (Symbol × Typ)} {head arg : Typ}
    {equations : List Equation} (moved : recordAppMove fields head arg = .split equations)
    (unified : ∀ equation ∈ equations,
      Compatible (equation.1.bindVars assign) (equation.2.bindVars assign)) :
    Compatible ((Typ.record fields).bindVars assign) ((Typ.app head arg).bindVars assign) := by
  have ofElem : ∀ {name : Symbol} {first head : Typ} {rest : List (Symbol × Typ)},
      (head.bindVars assign).dictForm = .builtin .dict →
      (∀ equation ∈ elemEquations first rest ++ [(arg, first)],
        Compatible (equation.1.bindVars assign) (equation.2.bindVars assign)) →
      Compatible ((Typ.record ((name, first) :: rest)).bindVars assign)
        ((Typ.app head arg).bindVars assign) := by
    intro name first head rest isDict unified
    have argEq := unified (arg, first) (by simp)
    dsimp only [Compatible] at argEq
    rw [Compatible, Typ.bindVars_record, Typ.dictForm_record, Typ.bindVars_app, Typ.dictForm_app,
      isDict, argEq, List.map_cons, List.map_cons, Typ.dictRecord, if_pos]
    · rfl
    · intro field member
      simp only [List.map_map, List.mem_map] at member
      obtain ⟨field, isField, rfl⟩ := member
      have elemEq := unified (first, field.2)
        (List.mem_append_left _ (List.mem_map.mpr ⟨field, isField, rfl⟩))
      exact elemEq.symm
  unfold recordAppMove at moved
  split at moved
  · split_ifs at moved with isDict
    cases moved
    exact ofElem (by rw [isDict]; rfl) unified
  · cases moved
    exact ofElem (unified _ List.mem_cons_self) fun equation member =>
      unified equation (.tail _ member)
  · cases moved

/-- Solving the parts of an equation solves it. -/
theorem compatible_of_split {assign : Assignment} (uniform : Typ.Uniform assign)
    {first second : Typ} {equations : List Equation}
    (moved : move first second = .split equations)
    (unified : ∀ equation ∈ equations,
      Compatible (equation.1.bindVars assign) (equation.2.bindVars assign)) :
    Compatible (first.bindVars assign) (second.bindVars assign) := by
  unfold move at moved
  split at moved
  · obtain ⟨-, other, rfl, same⟩ := varMove_eq_split moved
    exact uniform.dictForm_eq same.symm
  · obtain ⟨-, other, rfl, same⟩ := varMove_eq_split moved
    exact uniform.dictForm_eq same
  · unfold partsMove at moved
    split at moved
    · split_ifs at moved with same
      rw [same]
      rfl
    · cases moved
      have headEq := unified _ List.mem_cons_self
      have argEq := unified _ (.tail _ List.mem_cons_self)
      dsimp only [Compatible] at headEq argEq
      simp [Compatible, headEq, argEq]
    · cases moved
      have argEq := unified _ List.mem_cons_self
      have retEq := unified _ (.tail _ List.mem_cons_self)
      dsimp only [Compatible] at argEq retEq
      simp [Compatible, argEq, retEq]
    · split_ifs at moved with sameLength
      cases moved
      exact compatible_tuple sameLength unified
    · split_ifs at moved with sameLength
      cases moved
      rw [Compatible, Typ.bindVars_record, Typ.bindVars_record, Typ.dictForm_record,
        Typ.dictForm_record, List.map_map, List.map_map]
      exact congrArg Typ.dictRecord (dictFields_eq_of_fieldEquations sameLength unified)
    · exact compatible_recordApp moved unified
    · exact (compatible_recordApp moved unified).symm
    · cases moved

theorem assignOne_self {id : TypeVarId} {typ : Typ} (absent : id ∉ typ.ftv) :
    typ.bindVars (Unifier.assignOne id typ) = typ := by
  refine (Typ.bindVars_congr fun typeVar member => ?_).trans (Typ.bindVars_var_self typ)
  rw [Unifier.assignOne, if_neg]
  exact fun same => absent (same ▸ member)

theorem Steps.compatible {one : Typ → Typ → Option Assignment → Prop} {equations : List Equation}
    {result : Option Assignment} (steps : Steps one equations result)
    (solved : ∀ first second assign, one first second (some assign) →
      Resolves (ftv (first, second)) assign ∧
        Compatible (first.bindVars assign) (second.bindVars assign)) :
    ∀ assign ∈ result, ∀ equation ∈ equations,
      Compatible (equation.1.bindVars assign) (equation.2.bindVars assign) := by
  induction steps with
  | nil => exact fun _ _ _ member => (List.not_mem_nil member).elim
  | fail => exact fun _ member => (Option.not_mem_none _ member).elim
  | @next left right rest assignFirst result isSolved steps hypothesis =>
      rintro assign member equation isEquation
      obtain ⟨assignSecond, isSecond, rfl⟩ := Option.map_eq_some_iff.mp member
      have resolves := steps.resolves (fun _ _ _ isSolved => (solved _ _ _ isSolved).1) _ isSecond
      rw [bindVars_andThen, bindVars_andThen]
      rcases List.mem_cons.mp isEquation with rfl | isRest
      · exact (solved _ _ _ isSolved).2.bindVars resolves.uniform
      · exact hypothesis assignSecond isSecond _ (List.mem_map_of_mem isRest)

theorem Solves.compatible {depth : Nat} {first second : Typ} {assign : Assignment}
    (solves : Solves depth first second (some assign)) :
    Compatible (first.bindVars assign) (second.bindVars assign) := by
  induction depth generalizing first second assign with
  | zero => exact solves.elim
  | succ depth hypothesis =>
      have resolves := solves.resolves
      rw [Solves] at solves
      cases moved : move first second with
      | bind id typ =>
          simp only [moved, Option.some.injEq] at solves
          obtain ⟨absent, typeVar, rfl, sides⟩ := cases_of_move_bind moved
          subst solves
          rcases sides with ⟨rfl, rfl⟩ | ⟨rfl, rfl⟩
          · rw [Compatible, assignOne_self absent, Typ.bindVars_var, Unifier.assignOne, if_pos rfl]
          · rw [Compatible, assignOne_self absent, Typ.bindVars_var, Unifier.assignOne, if_pos rfl]
      | clash => simp [moved] at solves
      | split equations =>
          simp only [moved] at solves
          refine compatible_of_split resolves.uniform moved fun equation member => ?_
          exact solves.compatible (fun _ _ _ solved => ⟨solved.resolves, hypothesis solved⟩)
            assign rfl equation member

end Equation

namespace Typ

/-! ## Types without records -/

mutual

def RecordFree : Typ → Prop
  | .var _ => True
  | .con _ => True
  | .app head arg => RecordFree head ∧ RecordFree arg
  | .func arg ret => RecordFree arg ∧ RecordFree ret
  | .tuple elems => RecordFreeList elems
  | .record _ => False

def RecordFreeList : List Typ → Prop
  | [] => True
  | typ :: types => RecordFree typ ∧ RecordFreeList types

end

theorem recordFreeList_iff {elems : List Typ} :
    RecordFreeList elems ↔ ∀ elem ∈ elems, elem.RecordFree := by
  induction elems with
  | nil => simp [RecordFreeList]
  | cons elem elems hypothesis => simp [RecordFreeList, hypothesis]

theorem RecordFree.bindVars {assign : TypeVar → Typ} {typ : Typ} (free : typ.RecordFree)
    (images : ∀ typeVar, (assign typeVar).RecordFree) : (typ.bindVars assign).RecordFree := by
  induction typ using inductionOn with
  | var typeVar => exact images typeVar
  | con const => trivial
  | app head arg onHead onArg => exact ⟨onHead free.1, onArg free.2⟩
  | func arg ret onArg onRet => exact ⟨onArg free.1, onRet free.2⟩
  | tuple elems onElem =>
      rw [RecordFree, recordFreeList_iff] at free
      rw [bindVars_tuple, RecordFree, recordFreeList_iff]
      intro image member
      obtain ⟨elem, isElem, rfl⟩ := List.mem_map.mp member
      exact onElem elem isElem (free elem isElem)
  | record fields => exact free.elim

/-- In a type without records only the images of the variables have another form. -/
theorem RecordFree.dictForm_bindVars {assign : TypeVar → Typ} (uniform : Uniform assign)
    {typ : Typ} (free : typ.RecordFree) :
    (typ.bindVars assign).dictForm = typ.subst fun id => (assign ⟨id, none⟩).dictForm := by
  induction typ using inductionOn with
  | var typeVar => exact uniform.dictForm_eq rfl
  | con const => rfl
  | app head arg onHead onArg =>
      rw [bindVars_app, dictForm_app, subst_app, onHead free.1, onArg free.2]
  | func arg ret onArg onRet =>
      rw [bindVars_func, dictForm_func, subst_func, onArg free.1, onRet free.2]
  | tuple elems onElem =>
      rw [RecordFree, recordFreeList_iff] at free
      rw [bindVars_tuple, dictForm_tuple, subst_tuple, List.map_map]
      exact congrArg Typ.tuple
        (List.map_congr_left fun elem member => onElem elem member (free elem member))
  | record fields => exact free.elim

/-- The image of a variable is smaller than that of a type around the variable. -/
theorem eq_var_or_sizeOf_lt {valuation : TypeVarId → Typ} {typ : Typ} {id : TypeVarId}
    (member : id ∈ typ.ftv) :
    (∃ typeVar, typ = .var typeVar) ∨ sizeOf (valuation id) < sizeOf (typ.subst valuation) := by
  have le_of : ∀ {typ : Typ}, id ∈ typ.ftv →
      ((∃ typeVar, typ = .var typeVar) ∨ sizeOf (valuation id) < sizeOf (typ.subst valuation)) →
        sizeOf (valuation id) ≤ sizeOf (typ.subst valuation) := by
    rintro typ member (⟨typeVar, rfl⟩ | less)
    · obtain rfl := Finset.mem_singleton.mp member
      exact Nat.le_refl _
    · exact less.le
  induction typ using inductionOn with
  | var typeVar => exact .inl ⟨typeVar, rfl⟩
  | con const => simp [ftv] at member
  | app head arg onHead onArg =>
      right
      rw [subst_app, app.sizeOf_spec]
      rcases Finset.mem_union.mp member with member | member
      · have inner := le_of member (onHead member)
        omega
      · have inner := le_of member (onArg member)
        omega
  | func arg ret onArg onRet =>
      right
      rw [subst_func, func.sizeOf_spec]
      rcases Finset.mem_union.mp member with member | member
      · have inner := le_of member (onArg member)
        omega
      · have inner := le_of member (onRet member)
        omega
  | tuple elems onElem =>
      right
      rw [ftv, mem_ftvList] at member
      obtain ⟨elem, isElem, member⟩ := member
      have inner := le_of member (onElem elem isElem member)
      have isImage : elem.subst valuation ∈ elems.map (subst valuation) :=
        List.mem_map_of_mem isElem
      have outer := List.sizeOf_lt_of_mem isImage
      rw [subst_tuple, tuple.sizeOf_spec]
      omega
  | record fields onField =>
      right
      rw [ftv, mem_ftvFields] at member
      obtain ⟨field, isField, member⟩ := member
      have inner := le_of member (onField field isField member)
      have isImage : (field.1, field.2.subst valuation) ∈
          fields.map fun field => (field.1, subst valuation field.2) :=
        List.mem_map.mpr ⟨field, isField, rfl⟩
      have outer := Equation.sizeOf_lt_of_field isImage
      rw [subst_record, record.sizeOf_spec]
      dsimp only at outer
      omega

end Typ

namespace Equation

/-! ## Unifiers factor through the solution -/

def RecordFree (equation : Equation) : Prop :=
  equation.1.RecordFree ∧ equation.2.RecordFree

/-- The sides are equal under the valuation. -/
def Unifies (valuation : TypeVarId → Typ) (equation : Equation) : Prop :=
  equation.1.subst valuation = equation.2.subst valuation

/-- The valuation is the assignment followed by the valuation. -/
def Factors (valuation : TypeVarId → Typ) (assign : Assignment) : Prop :=
  ∀ typeVar : TypeVar, valuation typeVar.id = (assign typeVar).subst valuation

theorem Factors.subst_bindVars {valuation : TypeVarId → Typ} {assign : Assignment}
    (factors : Factors valuation assign) (typ : Typ) :
    (typ.bindVars assign).subst valuation = typ.subst valuation := by
  rw [Typ.subst_bindVars, Typ.subst]
  exact Typ.bindVars_congr fun typeVar _ => (factors typeVar).symm

theorem factors_assignOne {valuation : TypeVarId → Typ} {id : TypeVarId} {typ : Typ}
    (equal : valuation id = typ.subst valuation) :
    Factors valuation (Unifier.assignOne id typ) := by
  intro typeVar
  rw [Unifier.assignOne]
  split_ifs with same
  · rw [same, equal]
  · rfl

/-- What an equation between types without records and with a unifier moves to. -/
def MovesWith (valuation : TypeVarId → Typ) : Move → Prop
  | .bind id typ => typ.RecordFree ∧ valuation id = typ.subst valuation
  | .split equations => ∀ equation ∈ equations, equation.RecordFree ∧ Unifies valuation equation
  | .clash => False

theorem movesWith_varMove {valuation : TypeVarId → Typ} {typeVar : TypeVar} {typ : Typ}
    (free : typ.RecordFree) (unifies : valuation typeVar.id = typ.subst valuation) :
    MovesWith valuation (varMove typeVar typ) := by
  have other : (∀ typeVar, typ ≠ .var typeVar) → MovesWith valuation
      (if typeVar.id ∈ typ.ftv then .clash else .bind typeVar.id typ) := by
    intro notVar
    split_ifs with occurs
    · rcases @Typ.eq_var_or_sizeOf_lt valuation _ _ occurs with ⟨typeVar, isVar⟩ | less
      · exact notVar typeVar isVar
      · rw [unifies] at less
        exact (Nat.lt_irrefl _ less).elim
    · exact ⟨free, unifies⟩
  cases typ with
  | var other =>
      rw [varMove]
      split_ifs with same
      · exact fun _ member => (List.not_mem_nil member).elim
      · exact ⟨free, unifies⟩
  | _ => exact other (by simp)

theorem unifies_of_mem_zip {valuation : TypeVarId → Typ} {elems elems' : List Typ}
    (equal : elems.map (Typ.subst valuation) = elems'.map (Typ.subst valuation))
    {equation : Equation} (member : equation ∈ elems.zip elems') : Unifies valuation equation := by
  induction elems generalizing elems' with
  | nil => simp at member
  | cons elem elems hypothesis =>
      cases elems' with
      | nil => simp at member
      | cons elem' elems' =>
          rw [List.map_cons, List.map_cons, List.cons.injEq] at equal
          rcases List.mem_cons.mp member with rfl | member
          · exact equal.1
          · exact hypothesis equal.2 member

theorem movesWith_partsMove {valuation : TypeVarId → Typ} {first second : Typ}
    (notVarFirst : ∀ typeVar, first ≠ .var typeVar)
    (notVarSecond : ∀ typeVar, second ≠ .var typeVar)
    (freeFirst : first.RecordFree) (freeSecond : second.RecordFree)
    (unifies : first.subst valuation = second.subst valuation) :
    MovesWith valuation (partsMove first second) := by
  cases first with
  | var typeVar => exact (notVarFirst typeVar rfl).elim
  | con const =>
      cases second with
      | var typeVar => exact (notVarSecond typeVar rfl).elim
      | con const' =>
          obtain rfl : const = const' := by simpa using unifies
          rw [partsMove, if_pos rfl]
          exact fun _ member => (List.not_mem_nil member).elim
      | record fields => exact freeSecond.elim
      | _ => simp at unifies
  | app head arg =>
      cases second with
      | var typeVar => exact (notVarSecond typeVar rfl).elim
      | app head' arg' =>
          simp only [Typ.subst_app, Typ.app.injEq] at unifies
          exact List.forall_mem_cons.mpr ⟨⟨⟨freeFirst.1, freeSecond.1⟩, unifies.1⟩,
            List.forall_mem_singleton.mpr ⟨⟨freeFirst.2, freeSecond.2⟩, unifies.2⟩⟩
      | record fields => exact freeSecond.elim
      | _ => simp at unifies
  | func arg ret =>
      cases second with
      | var typeVar => exact (notVarSecond typeVar rfl).elim
      | func arg' ret' =>
          simp only [Typ.subst_func, Typ.func.injEq] at unifies
          exact List.forall_mem_cons.mpr ⟨⟨⟨freeFirst.1, freeSecond.1⟩, unifies.1⟩,
            List.forall_mem_singleton.mpr ⟨⟨freeFirst.2, freeSecond.2⟩, unifies.2⟩⟩
      | record fields => exact freeSecond.elim
      | _ => simp at unifies
  | tuple elems =>
      cases second with
      | var typeVar => exact (notVarSecond typeVar rfl).elim
      | tuple elems' =>
          simp only [Typ.subst_tuple, Typ.tuple.injEq] at unifies
          have sameLength : elems.length = elems'.length := by
            simpa using congrArg List.length unifies
          rw [Typ.RecordFree, Typ.recordFreeList_iff] at freeFirst freeSecond
          rw [partsMove, if_pos sameLength]
          intro equation member
          obtain ⟨isFirst, isSecond⟩ := List.of_mem_zip member
          refine ⟨⟨freeFirst _ isFirst, freeSecond _ isSecond⟩, ?_⟩
          exact unifies_of_mem_zip unifies member
      | record fields => exact freeSecond.elim
      | _ => simp at unifies
  | record fields => exact freeFirst.elim

theorem movesWith_move {valuation : TypeVarId → Typ} {first second : Typ}
    (freeFirst : first.RecordFree) (freeSecond : second.RecordFree)
    (unifies : first.subst valuation = second.subst valuation) :
    MovesWith valuation (move first second) := by
  unfold move
  split
  · exact movesWith_varMove freeSecond unifies
  · exact movesWith_varMove freeFirst unifies.symm
  · next notVarFirst notVarSecond =>
      exact movesWith_partsMove notVarFirst notVarSecond freeFirst freeSecond unifies

theorem RecordFree.bindVars {assign : Assignment} {equation : Equation}
    (free : equation.RecordFree) (images : ∀ typeVar, (assign typeVar).RecordFree) :
    (equation.bindVars assign).RecordFree :=
  ⟨free.1.bindVars images, free.2.bindVars images⟩

/-- What solving one equation is to give for the valuation, if that unifies it. -/
def MostGeneral (valuation : TypeVarId → Typ) (result : Option Assignment) : Prop :=
  ∃ assign ∈ result, (∀ typeVar, (assign typeVar).RecordFree) ∧ Factors valuation assign

theorem Steps.mostGeneral {one : Typ → Typ → Option Assignment → Prop}
    {equations : List Equation} {result : Option Assignment} {valuation : TypeVarId → Typ}
    (steps : Steps one equations result)
    (solved : ∀ first second result, one first second result → RecordFree (first, second) →
      Unifies valuation (first, second) → MostGeneral valuation result)
    (unifies : ∀ equation ∈ equations, equation.RecordFree ∧ Unifies valuation equation) :
    MostGeneral valuation result := by
  induction steps with
  | nil => exact ⟨.var, rfl, fun _ => trivial, fun _ => rfl⟩
  | fail failed =>
      obtain ⟨free, unified⟩ := unifies _ List.mem_cons_self
      exact solved _ _ _ failed free unified
  | @next first second rest assign result isSolved _ hypothesis =>
      obtain ⟨free, unified⟩ := unifies _ List.mem_cons_self
      obtain ⟨_, ⟨⟩, freeImages, factors⟩ := solved _ _ _ isSolved free unified
      have restUnifies : ∀ equation ∈ rest.map (Equation.bindVars assign),
          equation.RecordFree ∧ Unifies valuation equation := by
        intro equation member
        obtain ⟨equation, isRest, rfl⟩ := List.mem_map.mp member
        obtain ⟨free, unified⟩ := unifies equation (.tail _ isRest)
        refine ⟨free.bindVars freeImages, ?_⟩
        rw [Unifies, Equation.bindVars, factors.subst_bindVars, factors.subst_bindVars]
        exact unified
      obtain ⟨second, isSecond, freeSecond, factorsSecond⟩ := hypothesis restUnifies
      refine ⟨andThen assign second, Option.mem_map_of_mem _ isSecond, fun typeVar => ?_, fun typeVar => ?_⟩
      · exact (freeImages typeVar).bindVars freeSecond
      · rw [andThen, factorsSecond.subst_bindVars]
        exact factors typeVar

/-- Where there is a unifier, solving succeeds and the unifier factors through
the solution. -/
theorem Solves.mostGeneral {depth : Nat} {first second : Typ} {result : Option Assignment}
    {valuation : TypeVarId → Typ} (solves : Solves depth first second result)
    (free : RecordFree (first, second)) (unifies : Unifies valuation (first, second)) :
    MostGeneral valuation result := by
  induction depth generalizing first second result with
  | zero => exact solves.elim
  | succ depth hypothesis =>
      have moves := movesWith_move free.1 free.2 unifies
      rw [Solves] at solves
      cases moved : move first second with
      | bind id typ =>
          simp only [moved] at solves moves
          subst solves
          refine ⟨_, rfl, fun typeVar => ?_, factors_assignOne moves.2⟩
          rw [Unifier.assignOne]
          split_ifs
          · exact moves.1
          · trivial
      | clash => exact (moved ▸ moves : MovesWith valuation .clash).elim
      | split equations =>
          simp only [moved] at solves moves
          exact solves.mostGeneral (fun _ _ _ => hypothesis) moves

/-- A solution unifies, once the names of variables are forgotten. -/
theorem Solves.unifies {depth : Nat} {first second : Typ} {assign : Assignment}
    (solves : Solves depth first second (some assign)) (free : RecordFree (first, second)) :
    ∃ valuation, Unifies valuation (first, second) := by
  have uniform : Typ.Uniform assign := solves.resolves.uniform
  refine ⟨fun id => (assign ⟨id, none⟩).dictForm, ?_⟩
  have compatible := solves.compatible
  rwa [Typ.Compatible, free.1.dictForm_bindVars uniform, free.2.dictForm_bindVars uniform] at compatible

end Equation

end RexLang
