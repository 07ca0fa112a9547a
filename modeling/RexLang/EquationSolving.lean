import Mathlib.Data.Finset.Card
import RexLang.UnifierResolution

/-!
# Solving equations between types

Unification as the solving of equations from left to right.  An equation binds
a variable, is split into equations between the parts of its sides, or has no
solution.  The two unifiers of the type system are compared with this account.
-/

namespace RexLang

/-- Two types that are to be made equal. -/
abbrev Equation := Typ × Typ

namespace Equation

/-- A substitution as a function on variables. -/
abbrev Assignment := TypeVar → Typ

def bindVars (assign : Assignment) (equation : Equation) : Equation :=
  (equation.1.bindVars assign, equation.2.bindVars assign)

def ftv (equation : Equation) : Finset TypeVarId :=
  equation.1.ftv ∪ equation.2.ftv

/-- One assignment and then another. -/
def andThen (first second : Assignment) : Assignment :=
  fun typeVar => (first typeVar).bindVars second

theorem bindVars_andThen (first second : Assignment) (typ : Typ) :
    typ.bindVars (andThen first second) = (typ.bindVars first).bindVars second :=
  (Typ.bindVars_bindVars first second typ).symm

@[simp]
theorem andThen_var (assign : Assignment) : andThen assign .var = assign := by
  funext typeVar
  exact Typ.bindVars_var_self _

@[simp]
theorem var_andThen (assign : Assignment) : andThen .var assign = assign := rfl

@[simp]
theorem map_var_andThen (result : Option Assignment) : result.map (andThen .var) = result := by
  cases result <;> rfl

theorem andThen_assoc (first second third : Assignment) :
    andThen (andThen first second) third = andThen first (andThen second third) := by
  funext typeVar
  exact Typ.bindVars_bindVars _ _ _

@[simp]
theorem map_bindVars_var (equations : List Equation) :
    equations.map (bindVars .var) = equations := by
  refine (List.map_congr_left fun equation _ => ?_).trans (List.map_id equations)
  simp [bindVars, Typ.bindVars_var_self]

theorem map_bindVars_andThen (first second : Assignment) (equations : List Equation) :
    equations.map (bindVars (andThen first second)) =
      (equations.map (bindVars first)).map (bindVars second) := by
  rw [List.map_map]
  exact List.map_congr_left fun equation _ => by simp [bindVars, bindVars_andThen]

/-! ## What becomes of one equation -/

inductive Move where
  | bind (id : TypeVarId) (typ : Typ)
  | split (equations : List Equation)
  | clash

/-- A variable is bound to a type that it does not occur in. -/
def varMove (typeVar : TypeVar) : Typ → Move
  | .var other =>
      if typeVar.id = other.id then .split [] else .bind typeVar.id (.var other)
  | typ => if typeVar.id ∈ typ.ftv then .clash else .bind typeVar.id typ

/-- An equation without solutions. -/
def unsolvable : Equation :=
  (.builtin .list, .builtin .dict)

/-- The fields of two records, up to the first two names that differ. -/
def fieldEquations : List (Symbol × Typ) → List (Symbol × Typ) → List Equation
  | (name, typ) :: fields, (name', typ') :: fields' =>
      if name = name' then (typ, typ') :: fieldEquations fields fields' else [unsolvable]
  | _, _ => []

/-- The first field of a record with each of the others. -/
def elemEquations (first : Typ) (rest : List (Symbol × Typ)) : List Equation :=
  rest.map fun field => (first, field.2)

/-- A record is a dictionary when its fields have one type. -/
def recordAppMove (fields : List (Symbol × Typ)) (head arg : Typ) : Move :=
  match fields, head with
  | (_, first) :: rest, .con const =>
      if const = .builtin .dict then .split (elemEquations first rest ++ [(arg, first)])
      else .clash
  | (_, first) :: rest, .var typeVar =>
      .split ((.var typeVar, .builtin .dict) :: (elemEquations first rest ++ [(arg, first)]))
  | _, _ => .clash

/-- Two types that are not variables. -/
def partsMove : Typ → Typ → Move
  | .con const, .con const' => if const = const' then .split [] else .clash
  | .app head arg, .app head' arg' => .split [(head, head'), (arg, arg')]
  | .func arg ret, .func arg' ret' => .split [(arg, arg'), (ret, ret')]
  | .tuple elems, .tuple elems' =>
      if elems.length = elems'.length then .split (elems.zip elems') else .clash
  | .record fields, .record fields' =>
      if fields.length = fields'.length then .split (fieldEquations fields fields') else .clash
  | .record fields, .app head arg => recordAppMove fields head arg
  | .app head arg, .record fields => recordAppMove fields head arg
  | _, _ => .clash

def move : Typ → Typ → Move
  | .var typeVar, typ => varMove typeVar typ
  | typ, .var typeVar => varMove typeVar typ
  | first, second => partsMove first second

/-! ## Sequences of equations -/

/-- The equations of a list are solved in order, each under the solutions of
those before it.  `none` is failure. -/
inductive Steps (one : Typ → Typ → Option Assignment → Prop) :
    List Equation → Option Assignment → Prop
  | nil : Steps one [] (some .var)
  | fail {first second : Typ} {rest : List Equation} :
      one first second none → Steps one ((first, second) :: rest) none
  | next {first second : Typ} {rest : List Equation} {assign : Assignment}
      {result : Option Assignment} :
      one first second (some assign) → Steps one (rest.map (bindVars assign)) result →
        Steps one ((first, second) :: rest) (result.map (andThen assign))

/-- What solving an equation, with parts nested to some depth, results in. -/
def Solves : Nat → Typ → Typ → Option Assignment → Prop
  | 0, _, _, _ => False
  | depth + 1, first, second, result =>
      match move first second with
      | .bind id typ => result = some (Unifier.assignOne id typ)
      | .clash => result = none
      | .split equations => Steps (Solves depth) equations result

/-- Solving a list takes up the equation of `first` and `second`. -/
inductive TakesUp (first second : Typ) : List Equation → Prop
  | here {rest : List Equation} : TakesUp first second ((first, second) :: rest)
  | part {left right : Typ} {equations rest : List Equation} :
      move left right = .split equations → TakesUp first second equations →
        TakesUp first second ((left, right) :: rest)
  | later {left right : Typ} {rest : List Equation} {depth : Nat} {assign : Assignment} :
      Solves depth left right (some assign) →
        TakesUp first second (rest.map (bindVars assign)) →
        TakesUp first second ((left, right) :: rest)

/-! ## Depth -/

theorem Steps.mono {one other : Typ → Typ → Option Assignment → Prop}
    {equations : List Equation} {result : Option Assignment}
    (weaker : ∀ first second result, one first second result → other first second result)
    (steps : Steps one equations result) : Steps other equations result := by
  induction steps with
  | nil => exact .nil
  | fail failed => exact .fail (weaker _ _ _ failed)
  | next solved _ hypothesis => exact .next (weaker _ _ _ solved) hypothesis

theorem Steps.of_singleton {one : Typ → Typ → Option Assignment → Prop} {first second : Typ}
    {result : Option Assignment} (steps : Steps one [(first, second)] result) :
    one first second result := by
  cases steps with
  | fail failed => exact failed
  | next solved rest =>
      cases rest
      simpa using solved

theorem Steps.of_append {one : Typ → Typ → Option Assignment → Prop}
    {equations rest : List Equation} {result : Option Assignment}
    (steps : Steps one (equations ++ rest) result) :
    (Steps one equations none ∧ result = none) ∨ ∃ assign next, Steps one equations (some assign) ∧
      Steps one (rest.map (bindVars assign)) next ∧ result = next.map (andThen assign) := by
  induction length : equations.length generalizing equations rest result with
  | zero =>
      obtain rfl := List.length_eq_zero_iff.mp length
      exact .inr ⟨.var, result, .nil, by simpa using steps, by cases result <;> rfl⟩
  | succ count hypothesis =>
      obtain ⟨⟨first, second⟩, equations, rfl⟩ := List.exists_cons_of_length_eq_add_one length
      rw [List.cons_append] at steps
      cases steps with
      | fail failed => exact .inl ⟨.fail failed, rfl⟩
      | @next _ _ _ assign result solved steps =>
          rw [List.map_append] at steps
          rcases hypothesis steps (by simpa using length) with
            ⟨failed, rfl⟩ | ⟨inner, next, solvedRest, following, rfl⟩
          · exact .inl ⟨.next solved failed, rfl⟩
          · refine .inr ⟨andThen assign inner, next, .next solved solvedRest, ?_, ?_⟩
            · rwa [map_bindVars_andThen]
            · cases next <;> simp [andThen_assoc]

theorem Solves.mono {depth deeper : Nat} {first second : Typ} {result : Option Assignment}
    (le : depth ≤ deeper) (solves : Solves depth first second result) :
    Solves deeper first second result := by
  induction depth generalizing deeper first second result with
  | zero => exact solves.elim
  | succ depth hypothesis =>
      obtain ⟨deeper, rfl⟩ : ∃ other, deeper = other + 1 := ⟨deeper - 1, by omega⟩
      rw [Solves] at solves ⊢
      cases moved : move first second with
      | bind id typ => simpa [moved] using solves
      | clash => simpa [moved] using solves
      | split equations =>
          simp only [moved] at solves ⊢
          exact solves.mono fun _ _ _ => hypothesis (by omega)

/-! ## The equations that are taken up -/

theorem TakesUp.cons {first second : Typ} {equation : Equation} {rest : List Equation}
    (takesUp : TakesUp first second [equation]) : TakesUp first second (equation :: rest) := by
  cases takesUp with
  | here => exact .here
  | part moved takesUp => exact .part moved takesUp
  | later _ takesUp => cases takesUp

/-- What holds of all equations that are taken up may be used at each step. -/
theorem Steps.mono_of_takesUp {allowed : Typ → Typ → Prop}
    {other : Typ → Typ → Option Assignment → Prop} {depth : Nat} {equations : List Equation}
    {result : Option Assignment} (steps : Steps (Solves depth) equations result)
    (keeps : ∀ first second, TakesUp first second equations → allowed first second)
    (weaker : ∀ first second result, Solves depth first second result →
      (∀ left right, TakesUp left right [(first, second)] → allowed left right) →
        other first second result) : Steps other equations result := by
  induction steps with
  | nil => exact .nil
  | fail failed => exact .fail (weaker _ _ _ failed fun _ _ takesUp => keeps _ _ takesUp.cons)
  | next solved _ hypothesis =>
      refine .next (weaker _ _ _ solved fun _ _ takesUp => keeps _ _ takesUp.cons) ?_
      exact hypothesis fun _ _ takesUp => keeps _ _ (.later solved takesUp)

/-! ## What a move says about its equation -/

theorem cases_of_varMove_bind {typeVar : TypeVar} {other typ : Typ} {id : TypeVarId}
    (moved : varMove typeVar other = .bind id typ) :
    id ∉ typ.ftv ∧ typeVar.id = id ∧ other = typ := by
  cases other with
  | var typeVar' =>
      rw [varMove] at moved
      split_ifs at moved with same
      cases moved
      exact ⟨by simpa [Typ.ftv] using same, rfl, rfl⟩
  | _ =>
      simp only [varMove] at moved
      split_ifs at moved with occurs
      cases moved
      exact ⟨occurs, rfl, rfl⟩

theorem recordAppMove_ne_bind (fields : List (Symbol × Typ)) (head arg : Typ) (id : TypeVarId)
    (typ : Typ) : recordAppMove fields head arg ≠ .bind id typ := by
  intro moved
  unfold recordAppMove at moved
  split at moved
  · split_ifs at moved
  · cases moved
  · cases moved

theorem partsMove_ne_bind (first second : Typ) (id : TypeVarId) (typ : Typ) :
    partsMove first second ≠ .bind id typ := by
  intro moved
  unfold partsMove at moved
  split at moved
  · split_ifs at moved
  · cases moved
  · cases moved
  · split_ifs at moved
  · split_ifs at moved
  · exact recordAppMove_ne_bind _ _ _ _ _ moved
  · exact recordAppMove_ne_bind _ _ _ _ _ moved
  · cases moved

/-- A move that binds has the variable on one side and its type on the other. -/
theorem cases_of_move_bind {first second typ : Typ} {id : TypeVarId}
    (moved : move first second = .bind id typ) :
    id ∉ typ.ftv ∧ ∃ typeVar : TypeVar, typeVar.id = id ∧
      ((first = .var typeVar ∧ second = typ) ∨ (first = typ ∧ second = .var typeVar)) := by
  unfold move at moved
  split at moved
  · next typeVar =>
      obtain ⟨absent, same, rfl⟩ := cases_of_varMove_bind moved
      exact ⟨absent, typeVar, same, .inl ⟨rfl, rfl⟩⟩
  · next typeVar _ =>
      obtain ⟨absent, same, rfl⟩ := cases_of_varMove_bind moved
      exact ⟨absent, typeVar, same, .inr ⟨rfl, rfl⟩⟩
  · exact (partsMove_ne_bind _ _ _ _ moved).elim

/-! ### The parts are smaller -/

theorem mem_fieldEquations {equation : Equation} {fields fields' : List (Symbol × Typ)}
    (member : equation ∈ fieldEquations fields fields') :
    equation = unsolvable ∨
      (∃ field ∈ fields, field.2 = equation.1) ∧ ∃ field ∈ fields', field.2 = equation.2 := by
  induction fields generalizing fields' with
  | nil => simp [fieldEquations] at member
  | cons field fields hypothesis =>
      cases fields' with
      | nil => simp [fieldEquations] at member
      | cons field' fields' =>
          rw [fieldEquations] at member
          split_ifs at member
          · rcases List.mem_cons.mp member with rfl | member
            · exact .inr ⟨⟨field, List.mem_cons_self, rfl⟩, field', List.mem_cons_self, rfl⟩
            · rcases hypothesis member with same | ⟨⟨one, isOne, eqOne⟩, two, isTwo, eqTwo⟩
              · exact .inl same
              · exact .inr ⟨⟨one, .tail _ isOne, eqOne⟩, two, .tail _ isTwo, eqTwo⟩
          · exact .inl (List.mem_singleton.mp member)

/-- The parts have no new variables and are smaller together. -/
def Smaller (equation whole : Equation) : Prop :=
  equation.ftv ⊆ whole.ftv ∧
    sizeOf equation.1 + sizeOf equation.2 < sizeOf whole.1 + sizeOf whole.2

theorem Smaller.swap {equation : Equation} {first second : Typ}
    (smaller : Smaller equation (first, second)) : Smaller equation (second, first) := by
  obtain ⟨subset, less⟩ := smaller
  refine ⟨subset.trans (Finset.union_comm _ _).subset, ?_⟩
  dsimp only at less ⊢
  omega

theorem sizeOf_lt_of_field {field : Symbol × Typ} {fields : List (Symbol × Typ)}
    (member : field ∈ fields) : sizeOf field.2 + 1 < sizeOf fields := by
  have inner := List.sizeOf_lt_of_mem member
  obtain ⟨name, typ⟩ := field
  simp only [Prod.mk.sizeOf_spec] at inner
  dsimp only
  omega

theorem ftv_subset_of_field {field : Symbol × Typ} {fields : List (Symbol × Typ)}
    (member : field ∈ fields) : field.2.ftv ⊆ (Typ.record fields).ftv := by
  intro id inField
  rw [Typ.ftv, Typ.mem_ftvFields]
  exact ⟨field, member, inField⟩

theorem ftv_subset_of_elem {elem : Typ} {elems : List Typ} (member : elem ∈ elems) :
    elem.ftv ⊆ (Typ.tuple elems).ftv := by
  intro id inElem
  rw [Typ.ftv, Typ.mem_ftvList]
  exact ⟨elem, member, inElem⟩

theorem ftv_subset_union {equation : Equation} {first second : Typ}
    (one : equation.1.ftv ⊆ first.ftv ∪ second.ftv)
    (two : equation.2.ftv ⊆ first.ftv ∪ second.ftv) : equation.ftv ⊆ ftv (first, second) :=
  Finset.union_subset one two

theorem smaller_of_mem_elemEquations {name : Symbol} {first head arg : Typ}
    {rest : List (Symbol × Typ)} {equation : Equation}
    (member : equation ∈ elemEquations first rest ++ [(arg, first)]) :
    Smaller equation (.record ((name, first) :: rest), .app head arg) := by
  have inRecord : ∀ field ∈ (name, first) :: rest, field.2.ftv ⊆
      (Typ.record ((name, first) :: rest)).ftv ∪ (Typ.app head arg).ftv := fun field member =>
    (ftv_subset_of_field member).trans Finset.subset_union_left
  rcases List.mem_append.mp member with member | member
  · obtain ⟨field, isField, rfl⟩ := List.mem_map.mp member
    have smaller := sizeOf_lt_of_field isField
    refine ⟨ftv_subset_union (inRecord (name, first) List.mem_cons_self)
      (inRecord field (.tail _ isField)), ?_⟩
    simp only [Typ.record.sizeOf_spec, Typ.app.sizeOf_spec, List.cons.sizeOf_spec,
      Prod.mk.sizeOf_spec]
    omega
  · obtain rfl := List.mem_singleton.mp member
    refine ⟨ftv_subset_union ?_ (inRecord (name, first) List.mem_cons_self), ?_⟩
    · intro id inArg
      simp [Typ.ftv, inArg]
    · simp only [Typ.record.sizeOf_spec, Typ.app.sizeOf_spec, List.cons.sizeOf_spec,
        Prod.mk.sizeOf_spec]
      omega

theorem smaller_of_mem_recordAppMove {fields : List (Symbol × Typ)} {head arg : Typ}
    {equations : List Equation} (moved : recordAppMove fields head arg = .split equations)
    {equation : Equation} (member : equation ∈ equations) :
    Smaller equation (.record fields, .app head arg) := by
  unfold recordAppMove at moved
  split at moved
  · split_ifs at moved
    cases moved
    exact smaller_of_mem_elemEquations member
  · next name first rest typeVar =>
      cases moved
      rcases List.mem_cons.mp member with rfl | member
      · refine ⟨ftv_subset_union ?_ ?_, ?_⟩
        · intro id isHead
          simp [Typ.ftv] at isHead ⊢
          simp [isHead]
        · intro id member
          simp [Typ.builtin, Typ.ftv] at member
        · simp only [Typ.record.sizeOf_spec, Typ.app.sizeOf_spec, List.cons.sizeOf_spec,
            Prod.mk.sizeOf_spec, Typ.builtin, Typ.con.sizeOf_spec, TypeConst.builtin.sizeOf_spec,
            BuiltinTypeId.dict.sizeOf_spec]
          omega
      · exact smaller_of_mem_elemEquations member
  · cases moved

theorem smaller_of_mem_zip {elems elems' : List Typ} {equation : Equation}
    (member : equation ∈ elems.zip elems') : Smaller equation (.tuple elems, .tuple elems') := by
  obtain ⟨isFirst, isSecond⟩ := List.of_mem_zip member
  refine ⟨ftv_subset_union ((ftv_subset_of_elem isFirst).trans Finset.subset_union_left)
    ((ftv_subset_of_elem isSecond).trans Finset.subset_union_right), ?_⟩
  have lessFirst := List.sizeOf_lt_of_mem isFirst
  have lessSecond := List.sizeOf_lt_of_mem isSecond
  simp only [Typ.tuple.sizeOf_spec]
  omega

theorem smaller_of_mem_fieldEquations {fields fields' : List (Symbol × Typ)} {equation : Equation}
    (member : equation ∈ fieldEquations fields fields') :
    Smaller equation (.record fields, .record fields') := by
  rcases mem_fieldEquations member with rfl | ⟨⟨one, isOne, eqOne⟩, two, isTwo, eqTwo⟩
  · refine ⟨ftv_subset_union ?_ ?_, ?_⟩
    · exact fun id member => (Finset.notMem_empty id member).elim
    · exact fun id member => (Finset.notMem_empty id member).elim
    · cases fields with
      | nil => simp [fieldEquations] at member
      | cons field fields =>
          cases fields' with
          | nil => simp [fieldEquations] at member
          | cons field' fields' =>
              obtain ⟨name, typ⟩ := field
              obtain ⟨name', typ'⟩ := field'
              have positive : 0 < sizeOf typ := by cases typ <;> simp
              simp only [unsolvable, Typ.builtin, Typ.con.sizeOf_spec, Typ.record.sizeOf_spec,
                TypeConst.builtin.sizeOf_spec, BuiltinTypeId.list.sizeOf_spec,
                BuiltinTypeId.dict.sizeOf_spec, List.cons.sizeOf_spec, Prod.mk.sizeOf_spec]
              omega
  · refine ⟨ftv_subset_union ?_ ?_, ?_⟩
    · exact eqOne ▸ (ftv_subset_of_field isOne).trans Finset.subset_union_left
    · exact eqTwo ▸ (ftv_subset_of_field isTwo).trans Finset.subset_union_right
    · have lessOne := sizeOf_lt_of_field isOne
      have lessTwo := sizeOf_lt_of_field isTwo
      rw [eqOne] at lessOne
      rw [eqTwo] at lessTwo
      simp only [Typ.record.sizeOf_spec]
      omega

theorem smaller_of_mem_pair {one two whole one' two' whole' : Typ} {equation : Equation}
    (ftvEq : whole.ftv = one.ftv ∪ two.ftv) (ftvEq' : whole'.ftv = one'.ftv ∪ two'.ftv)
    (sizeEq : sizeOf whole = 1 + sizeOf one + sizeOf two)
    (sizeEq' : sizeOf whole' = 1 + sizeOf one' + sizeOf two')
    (member : equation ∈ [(one, one'), (two, two')]) : Smaller equation (whole, whole') := by
  rcases List.mem_pair.mp member with rfl | rfl
  · refine ⟨ftv_subset_union ?_ ?_, ?_⟩
    · exact fun id member => by simp [ftvEq, member]
    · exact fun id member => by simp [ftvEq', member]
    · dsimp only
      omega
  · refine ⟨ftv_subset_union ?_ ?_, ?_⟩
    · exact fun id member => by simp [ftvEq, member]
    · exact fun id member => by simp [ftvEq', member]
    · dsimp only
      omega

theorem varMove_eq_split {typeVar : TypeVar} {typ : Typ} {equations : List Equation}
    (moved : varMove typeVar typ = .split equations) :
    equations = [] ∧ ∃ other : TypeVar, typ = .var other ∧ other.id = typeVar.id := by
  cases typ with
  | var other =>
      rw [varMove] at moved
      split_ifs at moved with same
      cases moved
      exact ⟨rfl, other, rfl, same.symm⟩
  | _ =>
      simp only [varMove] at moved
      split_ifs at moved

/-- The equations that an equation is split into are smaller. -/
theorem smaller_of_mem_move {first second : Typ} {equations : List Equation}
    (moved : move first second = .split equations) {equation : Equation}
    (member : equation ∈ equations) : Smaller equation (first, second) := by
  unfold move at moved
  split at moved
  · rw [(varMove_eq_split moved).1] at member
    cases member
  · rw [(varMove_eq_split moved).1] at member
    cases member
  · unfold partsMove at moved
    split at moved
    · split_ifs at moved
      cases moved
      cases member
    · cases moved
      exact smaller_of_mem_pair rfl rfl (by simp) (by simp) member
    · cases moved
      exact smaller_of_mem_pair rfl rfl (by simp) (by simp) member
    · split_ifs at moved
      cases moved
      exact smaller_of_mem_zip member
    · split_ifs at moved
      cases moved
      exact smaller_of_mem_fieldEquations member
    · exact smaller_of_mem_recordAppMove moved member
    · exact (smaller_of_mem_recordAppMove moved member).swap
    · cases moved

/-! ## What a solution does to the variables -/

/-- The variables of some equations. -/
def ftvAll (equations : List Equation) : Finset TypeVarId :=
  equations.foldr (fun equation vars => equation.ftv ∪ vars) ∅

theorem mem_ftvAll {id : TypeVarId} {equations : List Equation} :
    id ∈ ftvAll equations ↔ ∃ equation ∈ equations, id ∈ equation.ftv := by
  induction equations with
  | nil => simp [ftvAll]
  | cons equation equations hypothesis =>
      rw [ftvAll, List.foldr_cons, Finset.mem_union, ← ftvAll, hypothesis]
      simp

theorem map_bindVars_of_unbound {assign : Assignment} {equations : List Equation}
    (unbound : ∀ typeVar : TypeVar, typeVar.id ∈ ftvAll equations → assign typeVar = .var typeVar) :
    equations.map (bindVars assign) = equations := by
  refine (List.map_congr_left fun equation member => ?_).trans (List.map_id equations)
  have same : ∀ typ : Typ, typ.ftv ⊆ equation.ftv → typ.bindVars assign = typ := by
    intro typ subset
    refine (Typ.bindVars_congr fun typeVar inTyp => ?_).trans (Typ.bindVars_var_self typ)
    exact unbound typeVar (mem_ftvAll.2 ⟨equation, member, subset inTyp⟩)
  rw [bindVars, same _ Finset.subset_union_left, same _ Finset.subset_union_right]
  rfl

/-- A solution of equations with the variables `vars` is about only these, resolves
a type at once, and does not look at the names of variables. -/
structure Resolves (vars : Finset TypeVarId) (assign : Assignment) : Prop where
  outside : ∀ typeVar : TypeVar, typeVar.id ∉ vars → assign typeVar = .var typeVar
  confined : ∀ typeVar id, id ∈ (assign typeVar).ftv → id = typeVar.id ∨ id ∈ vars
  fixed : ∀ typeVar, ∀ other : TypeVar, other.id ∈ (assign typeVar).ftv → assign other = .var other
  uniform : ∀ typeVar other : TypeVar, typeVar.id = other.id →
    assign typeVar = assign other ∨ assign typeVar = .var typeVar ∧ assign other = .var other

theorem Resolves.mono {vars more : Finset TypeVarId} {assign : Assignment}
    (resolves : Resolves vars assign) (subset : vars ⊆ more) : Resolves more assign where
  outside typeVar absent := resolves.outside typeVar fun member => absent (subset member)
  confined typeVar id member := (resolves.confined typeVar id member).imp_right (subset ·)
  fixed := resolves.fixed
  uniform := resolves.uniform

/-- A resolved type stays as it is. -/
theorem Resolves.idempotent {vars : Finset TypeVarId} {assign : Assignment}
    (resolves : Resolves vars assign) (typ : Typ) :
    (typ.bindVars assign).bindVars assign = typ.bindVars assign := by
  rw [Typ.bindVars_bindVars]
  refine Typ.bindVars_congr fun typeVar _ => ?_
  exact (Typ.bindVars_congr (resolves.fixed typeVar)).trans (Typ.bindVars_var_self _)

theorem resolves_var (vars : Finset TypeVarId) : Resolves vars .var where
  outside _ _ := rfl
  confined _ _ member := .inl (by simpa [Typ.ftv] using member)
  fixed _ _ _ := rfl
  uniform _ _ _ := .inr ⟨rfl, rfl⟩

theorem resolves_assignOne {id : TypeVarId} {typ : Typ} {vars : Finset TypeVarId}
    (absent : id ∉ typ.ftv) (inside : id ∈ vars) (subset : typ.ftv ⊆ vars) :
    Resolves vars (Unifier.assignOne id typ) where
  outside typeVar outside := by
    rw [Unifier.assignOne, if_neg]
    exact fun same => outside (same ▸ inside)
  confined typeVar other member := by
    rw [Unifier.assignOne] at member
    split_ifs at member
    · exact .inr (subset member)
    · exact .inl (by simpa [Typ.ftv] using member)
  fixed typeVar other member := by
    rw [Unifier.assignOne] at member
    rw [Unifier.assignOne, if_neg]
    intro same
    split_ifs at member with isVar
    · exact absent (same ▸ member)
    · rw [Typ.ftv, Finset.mem_singleton] at member
      exact isVar (member ▸ same)
  uniform typeVar other same := by
    rw [Unifier.assignOne, Unifier.assignOne, same]
    split_ifs
    · exact .inl rfl
    · exact .inr ⟨rfl, rfl⟩

theorem mem_ftvAll_bindVars {id : TypeVarId} {assign : Assignment} {equations : List Equation}
    (member : id ∈ ftvAll (equations.map (bindVars assign))) :
    ∃ typeVar : TypeVar, typeVar.id ∈ ftvAll equations ∧ id ∈ (assign typeVar).ftv := by
  obtain ⟨_, isImage, member⟩ := mem_ftvAll.1 member
  obtain ⟨equation, isEquation, rfl⟩ := List.mem_map.mp isImage
  rcases Finset.mem_union.mp member with member | member
  · obtain ⟨typeVar, inTyp, inImage⟩ := Typ.exists_of_mem_ftv_bindVars member
    exact ⟨typeVar, mem_ftvAll.2 ⟨equation, isEquation, Finset.mem_union_left _ inTyp⟩, inImage⟩
  · obtain ⟨typeVar, inTyp, inImage⟩ := Typ.exists_of_mem_ftv_bindVars member
    exact ⟨typeVar, mem_ftvAll.2 ⟨equation, isEquation, Finset.mem_union_right _ inTyp⟩, inImage⟩

theorem Resolves.andThen {vars : Finset TypeVarId} {first second : Assignment}
    {rest : List Equation} (one : Resolves vars first) (subset : ftvAll rest ⊆ vars)
    (two : Resolves (ftvAll (rest.map (bindVars first))) second) :
    Resolves vars (andThen first second) := by
  have inVars : ∀ id ∈ ftvAll (rest.map (bindVars first)), id ∈ vars := by
    intro id member
    obtain ⟨typeVar, inRest, inImage⟩ := mem_ftvAll_bindVars member
    rcases one.confined typeVar id inImage with rfl | inVars
    · exact subset inRest
    · exact inVars
  constructor
  · intro typeVar absent
    rw [Equation.andThen, one.outside typeVar absent, Typ.bindVars_var]
    exact two.outside typeVar fun member => absent (inVars _ member)
  · intro typeVar id member
    obtain ⟨inner, inFirst, inSecond⟩ := Typ.exists_of_mem_ftv_bindVars member
    rcases two.confined inner id inSecond with rfl | inRest
    · exact one.confined typeVar inner.id inFirst
    · exact .inr (inVars id inRest)
  · intro typeVar other member
    obtain ⟨inner, inFirst, inSecond⟩ := Typ.exists_of_mem_ftv_bindVars member
    have fixedFirst : first other = .var other := by
      rcases two.confined inner other.id inSecond with same | inRest
      · exact one.fixed typeVar other (same ▸ inFirst)
      · obtain ⟨source, -, inImage⟩ := mem_ftvAll_bindVars inRest
        exact one.fixed source other inImage
    rw [Equation.andThen, fixedFirst, Typ.bindVars_var]
    exact two.fixed inner other inSecond
  · intro typeVar other same
    rcases one.uniform typeVar other same with equal | ⟨varFirst, varSecond⟩
    · exact .inl (by rw [Equation.andThen, Equation.andThen, equal])
    · simpa [Equation.andThen, varFirst, varSecond] using two.uniform typeVar other same

theorem Steps.resolves {one : Typ → Typ → Option Assignment → Prop} {equations : List Equation}
    {result : Option Assignment} (steps : Steps one equations result)
    (solved : ∀ first second assign, one first second (some assign) →
      Resolves (ftv (first, second)) assign) :
    ∀ assign ∈ result, Resolves (ftvAll equations) assign := by
  induction steps with
  | nil =>
      rintro _ ⟨⟩
      exact resolves_var _
  | fail => exact fun _ member => (Option.not_mem_none _ member).elim
  | next isSolved _ hypothesis =>
      rintro assign member
      obtain ⟨second, isSecond, rfl⟩ := Option.map_eq_some_iff.mp member
      refine Resolves.andThen ?_ Finset.subset_union_right (hypothesis second isSecond)
      exact (solved _ _ _ isSolved).mono Finset.subset_union_left

theorem Solves.resolves {depth : Nat} {first second : Typ} {assign : Assignment}
    (solves : Solves depth first second (some assign)) :
    Resolves (ftv (first, second)) assign := by
  induction depth generalizing first second assign with
  | zero => exact solves.elim
  | succ depth hypothesis =>
      rw [Solves] at solves
      cases moved : move first second with
      | bind id typ =>
          simp only [moved, Option.some.injEq] at solves
          obtain ⟨absent, typeVar, rfl, sides⟩ := cases_of_move_bind moved
          subst solves
          rcases sides with ⟨rfl, rfl⟩ | ⟨rfl, rfl⟩
          · exact resolves_assignOne absent (by simp [ftv, Typ.ftv]) Finset.subset_union_right
          · exact resolves_assignOne absent (by simp [ftv, Typ.ftv]) Finset.subset_union_left
      | clash => simp [moved] at solves
      | split equations =>
          simp only [moved] at solves
          refine (solves.resolves (fun _ _ _ => hypothesis) assign rfl).mono ?_
          intro id member
          obtain ⟨equation, isEquation, member⟩ := mem_ftvAll.1 member
          exact (smaller_of_mem_move moved isEquation).1 member

/-! ## Every equation is solved or fails -/

/-- A variable is eliminated, or nothing happens. -/
def Eliminates (vars : Finset TypeVarId) (assign : Assignment) : Prop :=
  assign = .var ∨ ∃ id ∈ vars, ∀ typeVar, id ∉ (assign typeVar).ftv

theorem Steps.eliminates {one : Typ → Typ → Option Assignment → Prop} {equations : List Equation}
    {result : Option Assignment} (steps : Steps one equations result)
    (solved : ∀ first second assign, one first second (some assign) →
      Resolves (ftv (first, second)) assign ∧ Eliminates (ftv (first, second)) assign) :
    ∀ assign ∈ result, Eliminates (ftvAll equations) assign := by
  induction steps with
  | nil =>
      rintro _ ⟨⟩
      exact .inl rfl
  | fail => exact fun _ member => (Option.not_mem_none _ member).elim
  | @next left right rest assignFirst result isSolved _ hypothesis =>
      rintro assign member
      obtain ⟨assignSecond, isSecond, rfl⟩ := Option.map_eq_some_iff.mp member
      obtain ⟨resolves, eliminates⟩ := solved _ _ _ isSolved
      rcases hypothesis assignSecond isSecond with rfl | ⟨id, inRest, absent⟩
      · rw [andThen_var]
        rcases eliminates with rfl | ⟨id, inEquation, absent⟩
        · exact .inl rfl
        · exact .inr ⟨id, Finset.mem_union_left _ inEquation, absent⟩
      · obtain ⟨source, inSource, inImage⟩ := mem_ftvAll_bindVars inRest
        refine .inr ⟨id, ?_, ?_⟩
        · rcases resolves.confined source id inImage with rfl | inEquation
          · exact Finset.mem_union_right _ inSource
          · exact Finset.mem_union_left _ inEquation
        · intro typeVar member
          obtain ⟨inner, -, inSecond⟩ := Typ.exists_of_mem_ftv_bindVars member
          exact absent inner inSecond

theorem Solves.eliminates {depth : Nat} {first second : Typ} {assign : Assignment}
    (solves : Solves depth first second (some assign)) :
    Eliminates (ftv (first, second)) assign := by
  induction depth generalizing first second assign with
  | zero => exact solves.elim
  | succ depth hypothesis =>
      rw [Solves] at solves
      cases moved : move first second with
      | bind id typ =>
          simp only [moved, Option.some.injEq] at solves
          obtain ⟨absent, bound, rfl, sides⟩ := cases_of_move_bind moved
          subst solves
          refine .inr ⟨bound.id, ?_, ?_⟩
          · rcases sides with ⟨rfl, rfl⟩ | ⟨rfl, rfl⟩
            · simp [ftv, Typ.ftv]
            · simp [ftv, Typ.ftv]
          · intro typeVar member
            rw [Unifier.assignOne] at member
            split_ifs at member with same
            · exact absent member
            · exact same (Finset.mem_singleton.mp member).symm
      | clash => simp [moved] at solves
      | split equations =>
          simp only [moved] at solves
          have eliminates := solves.eliminates (fun _ _ _ solved => ⟨solved.resolves, hypothesis solved⟩)
            assign rfl
          rcases eliminates with rfl | ⟨id, member, absent⟩
          · exact .inl rfl
          · obtain ⟨equation, isEquation, member⟩ := mem_ftvAll.mp member
            exact .inr ⟨id, (smaller_of_mem_move moved isEquation).1 member, absent⟩

def Solvable (equation : Equation) : Prop :=
  ∃ depth result, Solves depth equation.1 equation.2 result

theorem exists_steps_cons {first second : Typ} {rest : List Equation}
    (solvable : Solvable (first, second))
    (after : ∀ assign, Resolves (ftv (first, second)) assign →
      Eliminates (ftv (first, second)) assign →
        ∃ depth result, Steps (Solves depth) (rest.map (bindVars assign)) result) :
    ∃ depth result, Steps (Solves depth) ((first, second) :: rest) result := by
  obtain ⟨depth, result, solves⟩ := solvable
  cases result with
  | none => exact ⟨depth, none, .fail solves⟩
  | some assign =>
      obtain ⟨other, result, steps⟩ := after assign solves.resolves solves.eliminates
      exact ⟨max depth other, result.map (andThen assign),
        .next (solves.mono (Nat.le_max_left _ _))
          (steps.mono fun _ _ _ solves => solves.mono (Nat.le_max_right _ _))⟩

/-- With every equation in some variables solvable, so are lists of them. -/
theorem exists_steps_of_vars {vars : Finset TypeVarId}
    (solvable : ∀ equation : Equation, equation.ftv ⊆ vars → Solvable equation)
    (equations : List Equation) (subset : ftvAll equations ⊆ vars) :
    ∃ depth result, Steps (Solves depth) equations result := by
  induction length : equations.length generalizing equations with
  | zero =>
      obtain rfl := List.length_eq_zero_iff.mp length
      exact ⟨0, some .var, .nil⟩
  | succ count hypothesis =>
      obtain ⟨⟨first, second⟩, rest, rfl⟩ := List.exists_cons_of_length_eq_add_one length
      have inVars := subset.trans' (Finset.subset_union_left : ftv (first, second) ⊆ _)
      refine exists_steps_cons (solvable _ inVars) fun assign resolves _ => ?_
      refine hypothesis _ (fun id member => ?_) (by simpa using length)
      obtain ⟨source, inRest, inImage⟩ := mem_ftvAll_bindVars member
      rcases resolves.confined source id inImage with rfl | inEquation
      · exact subset (Finset.mem_union_right _ inRest)
      · exact inVars inEquation

/-- After the first variable is eliminated, the sizes of the equations do not matter. -/
theorem exists_steps {vars : Finset TypeVarId}
    (fewer : ∀ equation : Equation, equation.ftv ⊂ vars → Solvable equation)
    {equations : List Equation} (subset : ftvAll equations ⊆ vars)
    (solvable : ∀ equation ∈ equations, Solvable equation) :
    ∃ depth result, Steps (Solves depth) equations result := by
  induction equations with
  | nil => exact ⟨0, some .var, .nil⟩
  | cons equation rest hypothesis =>
      obtain ⟨first, second⟩ := equation
      have inVars := subset.trans' (Finset.subset_union_left : ftv (first, second) ⊆ _)
      have restInVars := subset.trans' (Finset.subset_union_right : ftvAll rest ⊆ _)
      refine exists_steps_cons (solvable _ List.mem_cons_self) fun assign resolves eliminates => ?_
      rcases eliminates with rfl | ⟨id, member, absent⟩
      · rw [map_bindVars_var]
        exact hypothesis restInVars fun equation member => solvable equation (.tail _ member)
      · refine @exists_steps_of_vars (vars.erase id) (fun equation inErased => ?_) _ ?_
        · exact fewer equation (inErased.trans_ssubset (Finset.erase_ssubset (inVars member)))
        · intro other inRest
          obtain ⟨source, inSource, inImage⟩ := mem_ftvAll_bindVars inRest
          refine Finset.mem_erase.mpr ⟨fun same => absent source (same ▸ inImage), ?_⟩
          rcases resolves.confined source other inImage with rfl | inEquation
          · exact restInVars inSource
          · exact inVars inEquation

/-- Solving ends: it eliminates variables, and splits finitely often in between. -/
theorem solvable (equation : Equation) : Solvable equation := by
  induction vars : equation.ftv.card using Nat.strongRecOn generalizing equation with
  | ind count fewer =>
      induction size : sizeOf equation.1 + sizeOf equation.2 using Nat.strongRecOn
        generalizing equation with
      | ind bound smaller =>
          obtain ⟨first, second⟩ := equation
          cases moved : move first second with
          | bind id typ => exact ⟨1, some (Unifier.assignOne id typ), by simp [Solves, moved]⟩
          | clash => exact ⟨1, none, by simp [Solves, moved]⟩
          | split equations =>
              have fewerVars : ∀ equation : Equation, equation.ftv ⊂ ftv (first, second) →
                  Solvable equation := fun equation inside =>
                fewer _ (vars ▸ Finset.card_lt_card inside) equation rfl
              have parts : ∀ equation ∈ equations, Solvable equation := by
                intro equation member
                obtain ⟨subset, less⟩ := smaller_of_mem_move moved member
                rcases subset.eq_or_ssubset with same | inside
                · exact smaller _ (size ▸ less) equation (by rw [same, vars]) rfl
                · exact fewerVars equation inside
              have subset : ftvAll equations ⊆ ftv (first, second) := by
                intro id member
                obtain ⟨equation, isEquation, member⟩ := mem_ftvAll.mp member
                exact (smaller_of_mem_move moved isEquation).1 member
              obtain ⟨depth, result, steps⟩ := exists_steps fewerVars subset parts
              exact ⟨depth + 1, result, by simpa [Solves, moved] using steps⟩

end Equation

end RexLang
