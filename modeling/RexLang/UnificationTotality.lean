import RexLang.FallibleResults
import RexLang.PureUnification
import RexLang.SymbolMaps

/-!
# Totality of unification

More fuel does not change the outcome of `unify`, and enough fuel gives one: a
substitution that binds something eliminates a variable, and a substitution that
binds nothing leaves smaller types to unify.
-/

namespace RexLang

/-! ## Outcomes and fuel -/

section Fuel

variable {First Second : Type}

/-- The second outcome is the first one, unless the first ran out of fuel. -/
def Refines (first second : Except TypeError First) : Prop :=
  first = .error .outOfFuel ∨ second = first

theorem Refines.refl (outcome : Except TypeError First) : Refines outcome outcome :=
  .inr rfl

theorem Refines.trans {first second third : Except TypeError First} (left : Refines first second)
    (right : Refines second third) : Refines first third := by
  rcases left with outOfFuel | rfl
  · exact .inl outOfFuel
  · exact right

theorem Refines.bind {first second : Except TypeError First}
    {next after : First → Except TypeError Second} (refines : Refines first second)
    (rest : ∀ result, Refines (next result) (after result)) :
    Refines (first >>= next) (second >>= after) := by
  rcases refines with rfl | rfl
  · exact .inl rfl
  · cases second with
    | error error => exact .inr rfl
    | ok result => exact rest result

/-- From some fuel on, the outcome is the same, and not that the fuel ran out. -/
def Ends (outcome : Nat → Except TypeError First) : Prop :=
  ∃ fuel result, result ≠ .error .outOfFuel ∧ ∀ more, fuel ≤ more → outcome more = result

theorem ends_ok (result : First) : Ends fun _ => (.ok result : Except TypeError First) :=
  ⟨0, .ok result, nofun, fun _ _ => rfl⟩

theorem ends_error {error : TypeError} (notFuel : error ≠ .outOfFuel) :
    Ends fun _ => (.error error : Except TypeError First) := by
  refine ⟨0, .error error, ?_, fun _ _ => rfl⟩
  rintro ⟨⟩
  exact notFuel rfl

theorem Ends.bind {outcome : Nat → Except TypeError First}
    {next : Nat → First → Except TypeError Second} (ends : Ends outcome)
    (rest : ∀ result fuel, outcome fuel = .ok result → Ends fun more => next more result) :
    Ends fun fuel => outcome fuel >>= next fuel := by
  obtain ⟨fuel, result, ended, same⟩ := ends
  cases result with
  | error error =>
      refine ⟨fuel, .error error, ?_, fun more enough => ?_⟩
      · intro outOfFuel
        cases outOfFuel
        exact ended rfl
      · change outcome more >>= next more = _
        rw [same more enough]
        rfl
  | ok value =>
      obtain ⟨later, result, ended, sameRest⟩ := rest value fuel (same fuel le_rfl)
      refine ⟨max fuel later, result, ended, fun more enough => ?_⟩
      change outcome more >>= next more = _
      rw [same more (le_of_max_le_left enough)]
      exact sameRest more (le_of_max_le_right enough)

theorem ends_of_succ {outcome : Nat → Except TypeError First}
    (ends : Ends fun fuel => outcome (fuel + 1)) : Ends outcome := by
  obtain ⟨fuel, result, ended, same⟩ := ends
  refine ⟨fuel + 1, result, ended, fun more enough => ?_⟩
  obtain ⟨more, rfl⟩ : ∃ other, more = other + 1 := ⟨more - 1, by omega⟩
  exact same more (by omega)

end Fuel

/-! ## More fuel -/

section More

variable {one other : Typ → Typ → Except TypeError Subst}
  (refines : ∀ first second, Refines (one first second) (other first second))

include refines

theorem refines_unifyElems (subst : Subst) (elems elems' : List Typ) :
    Refines (unifyElems one subst elems elems') (unifyElems other subst elems elems') := by
  induction elems generalizing elems' subst with
  | nil => exact .refl _
  | cons elem elems hypothesis =>
      cases elems' with
      | nil => exact .refl _
      | cons elem' elems' => exact (refines _ _).bind fun next => hypothesis _ _

theorem refines_unifyFields (subst : Subst) (fields fields' : List (Symbol × Typ)) :
    Refines (unifyFields one subst fields fields') (unifyFields other subst fields fields') := by
  induction fields generalizing fields' subst with
  | nil => exact .refl _
  | cons field fields hypothesis =>
      cases fields' with
      | nil => exact .refl _
      | cons field' fields' =>
          rw [unifyFields, unifyFields]
          split_ifs
          · exact .refl _
          · exact (refines _ _).bind fun next => hypothesis _ _

theorem refines_recordElemType (fields : List (Symbol × Typ)) :
    Refines (recordElemType one fields) (recordElemType other fields) := by
  cases fields with
  | nil => exact .refl _
  | cons field fields =>
      rw [recordElemType, recordElemType]
      generalize field.2 = current
      generalize ([] : Subst) = subst
      induction fields generalizing subst current with
      | nil => exact .refl _
      | cons field fields hypothesis => exact (refines _ _).bind fun next => hypothesis _ _

theorem refines_unifyRecordApp (fields : List (Symbol × Typ)) (head arg : Typ)
    (mismatch : TypeError) :
    Refines (unifyRecordApp one fields head arg mismatch)
      (unifyRecordApp other fields head arg mismatch) := by
  cases head with
  | con const =>
      rw [unifyRecordApp, unifyRecordApp]
      split_ifs
      · exact (refines_recordElemType refines fields).bind fun found =>
          (refines _ _).bind fun _ => .refl _
      · exact .refl _
  | var typeVar =>
      exact (Refines.refl _).bind fun headSubst =>
        (refines_recordElemType refines fields).bind fun found =>
          (refines _ _).bind fun _ => .refl _
  | _ => exact .refl _

end More

theorem refines_unify_succ (fuel : Nat) (first second : Typ) :
    Refines (unify fuel first second) (unify (fuel + 1) first second) := by
  induction fuel generalizing first second with
  | zero => exact .inl rfl
  | succ fuel hypothesis =>
      cases first with
      | var typeVar =>
          rw [Equation.unify_var, Equation.unify_var]
          exact .refl _
      | con const => cases second <;> exact .refl _
      | app head arg =>
          cases second with
          | app head' arg' =>
              exact (hypothesis _ _).bind fun _ => (hypothesis _ _).bind fun _ => .refl _
          | record fields => exact refines_unifyRecordApp hypothesis _ _ _ _
          | _ => exact .refl _
      | func arg ret =>
          cases second with
          | func arg' ret' =>
              exact (hypothesis _ _).bind fun _ => (hypothesis _ _).bind fun _ => .refl _
          | _ => exact .refl _
      | tuple elems =>
          cases second with
          | tuple elems' =>
              rw [unify, unify]
              split_ifs
              · exact .refl _
              · exact refines_unifyElems hypothesis _ _ _
          | _ => exact .refl _
      | record fields =>
          cases second with
          | app head arg => exact refines_unifyRecordApp hypothesis _ _ _ _
          | record fields' =>
              rw [unify, unify]
              split_ifs
              · exact .refl _
              · exact refines_unifyFields hypothesis _ _ _
          | _ => exact .refl _

theorem refines_unify {fuel more : Nat} (enough : fuel ≤ more) (first second : Typ) :
    Refines (unify fuel first second) (unify more first second) := by
  induction enough with
  | refl => exact .refl _
  | step _ hypothesis => exact hypothesis.trans (refines_unify_succ _ _ _)

/-! ## Eliminated variables -/

/-- The variable is bound, and occurs in no type that a variable is bound to. -/
def Subst.Eliminates (subst : Subst) (id : TypeVarId) : Prop :=
  subst.lookup id ≠ none ∧ ∀ entry ∈ subst, id ∉ entry.2.ftv

/-- The substitution is about these variables, and eliminates one of them if it
binds any. -/
structure Subst.Reduces (subst : Subst) (vars : Finset TypeVarId) : Prop where
  bound : ∀ entry ∈ subst, entry.1 ∈ vars ∧ entry.2.ftv ⊆ vars
  eliminates : subst = [] ∨ ∃ id, subst.Eliminates id

section Reduces

variable {subst next : Subst} {vars : Finset TypeVarId} {id : TypeVarId}

theorem ftv_apply_subset (bound : ∀ entry ∈ subst, entry.1 ∈ vars ∧ entry.2.ftv ⊆ vars)
    {typ : Typ} (subset : typ.ftv ⊆ vars) : (typ.apply subst).ftv ⊆ vars := by
  intro id member
  rw [Typ.apply_eq_bindVars] at member
  obtain ⟨typeVar, isVar, member⟩ := Typ.exists_of_mem_ftv_bindVars member
  cases found : subst.lookup typeVar.id with
  | none =>
      have same : id = typeVar.id := by simpa [found, Typ.ftv] using member
      exact same ▸ subset isVar
  | some image =>
      have member : id ∈ image.ftv := by simpa [found] using member
      exact (bound _ (mem_of_lookup found)).2 member

theorem Subst.Eliminates.not_mem (eliminates : subst.Eliminates id) (typ : Typ) :
    id ∉ (typ.apply subst).ftv := by
  intro member
  rw [Typ.apply_eq_bindVars] at member
  obtain ⟨typeVar, isVar, member⟩ := Typ.exists_of_mem_ftv_bindVars member
  cases found : subst.lookup typeVar.id with
  | none =>
      have same : id = typeVar.id := by simpa [found, Typ.ftv] using member
      exact eliminates.1 (same ▸ found)
  | some image =>
      have member : id ∈ image.ftv := by simpa [found] using member
      exact eliminates.2 _ (mem_of_lookup found) member

theorem Subst.Eliminates.mem (eliminates : subst.Eliminates id) (reduces : subst.Reduces vars) :
    id ∈ vars := by
  obtain ⟨image, found⟩ := Option.ne_none_iff_exists'.mp eliminates.1
  exact (reduces.bound _ (mem_of_lookup found)).1

theorem Subst.Reduces.mono {more : Finset TypeVarId} (reduces : subst.Reduces vars)
    (subset : vars ⊆ more) : subst.Reduces more := by
  refine ⟨fun entry member => ?_, reduces.eliminates⟩
  obtain ⟨isBound, image⟩ := reduces.bound entry member
  exact ⟨subset isBound, image.trans subset⟩

theorem reduces_nil : Subst.Reduces [] vars :=
  ⟨by simp, .inl rfl⟩

theorem Subst.Reduces.compose (reduces : subst.Reduces vars) (reducesNext : next.Reduces vars) :
    (composeSubst next subst).Reduces vars := by
  refine ⟨?_, ?_⟩
  · rw [composeSubst]
    split_ifs
    · exact reduces.bound
    · exact reducesNext.bound
    · intro entry member
      rcases List.mem_append.mp member with member | member
      · exact reducesNext.bound entry member
      · obtain ⟨first, firstMember, rfl⟩ := List.mem_map.mp member
        obtain ⟨isBound, image⟩ := reduces.bound first firstMember
        exact ⟨isBound, ftv_apply_subset reducesNext.bound image⟩
  · rcases reducesNext.eliminates with rfl | ⟨id, eliminates⟩
    · rw [composeSubst, List.isEmpty_nil, if_pos rfl]
      exact reduces.eliminates
    · refine .inr ⟨id, ?_, ?_⟩
      · rw [Equation.lookup_composeSubst]
        obtain ⟨image, found⟩ := Option.ne_none_iff_exists'.mp eliminates.1
        simp [found]
      · rw [composeSubst]
        split_ifs with isEmpty
        · rw [List.isEmpty_iff.mp isEmpty] at eliminates
          exact absurd rfl eliminates.1
        · exact eliminates.2
        · intro entry member
          rcases List.mem_append.mp member with member | member
          · exact eliminates.2 entry member
          · obtain ⟨first, -, rfl⟩ := List.mem_map.mp member
            exact eliminates.not_mem first.2

theorem composeSubst_eq_nil (isNil : composeSubst next subst = []) : next = [] ∧ subst = [] := by
  rw [composeSubst] at isNil
  split_ifs at isNil with nextEmpty substEmpty
  · exact ⟨List.isEmpty_iff.mp nextEmpty, isNil⟩
  · exact ⟨isNil, List.isEmpty_iff.mp substEmpty⟩
  · rw [List.append_eq_nil_iff] at isNil
    exact absurd (List.isEmpty_iff.mpr isNil.1) nextEmpty

theorem reduces_bind {typeVar : TypeVar} {typ : Typ}
    (bound : RexLang.bind typeVar typ = .ok subst) : subst.Reduces (insert typeVar.id typ.ftv) := by
  have occurring : (if typeVar.id ∈ typ.ftv then .error (.occurs typeVar.id typ.display)
      else .ok [(typeVar.id, typ)] : Except TypeError Subst) = .ok subst →
      subst.Reduces (insert typeVar.id typ.ftv) := by
    intro bound
    split_ifs at bound with occurs
    cases bound
    refine ⟨?_, .inr ⟨typeVar.id, ?_, ?_⟩⟩
    · simp
    · simp
    · simpa using occurs
  cases typ with
  | var other =>
      by_cases same : other.id = typeVar.id
      · have isNil : [] = subst := by simpa [RexLang.bind, same] using bound
        rw [← isNil]
        exact reduces_nil
      · exact occurring (by simpa [RexLang.bind, same] using bound)
  | _ => exact occurring bound

end Reduces

/-! ## What a unifier eliminates -/

section Loops

variable {one : Typ → Typ → Except TypeError Subst} {vars : Finset TypeVarId}
  (reducesOne : ∀ first second subst, one first second = .ok subst →
    subst.Reduces (first.ftv ∪ second.ftv))

include reducesOne

theorem reduces_step {subst next : Subst} {first second : Typ} (reduces : subst.Reduces vars)
    (subset : first.ftv ∪ second.ftv ⊆ vars)
    (found : one (first.apply subst) (second.apply subst) = .ok next) :
    (composeSubst next subst).Reduces vars := by
  refine reduces.compose ((reducesOne _ _ _ found).mono (Finset.union_subset ?_ ?_))
  · exact ftv_apply_subset reduces.bound (Finset.union_subset_left subset)
  · exact ftv_apply_subset reduces.bound (Finset.union_subset_right subset)

theorem reduces_unifyElems {subst result : Subst} {elems elems' : List Typ}
    (reduces : subst.Reduces vars)
    (subset : ∀ pair ∈ elems.zip elems', pair.1.ftv ∪ pair.2.ftv ⊆ vars)
    (found : unifyElems one subst elems elems' = .ok result) : result.Reduces vars := by
  induction elems generalizing elems' subst with
  | nil =>
      cases found
      exact reduces
  | cons elem elems hypothesis =>
      cases elems' with
      | nil =>
          cases found
          exact reduces
      | cons elem' elems' =>
          rw [unifyElems, bind_eq_ok] at found
          obtain ⟨next, first, rest⟩ := found
          rw [List.zip_cons_cons, List.forall_mem_cons] at subset
          exact hypothesis (reduces_step reducesOne reduces subset.1 first) subset.2 rest

theorem reduces_unifyFields {subst result : Subst} {fields fields' : List (Symbol × Typ)}
    (reduces : subst.Reduces vars)
    (subset : ∀ pair ∈ fields.zip fields', pair.1.2.ftv ∪ pair.2.2.ftv ⊆ vars)
    (found : unifyFields one subst fields fields' = .ok result) : result.Reduces vars := by
  induction fields generalizing fields' subst with
  | nil =>
      cases found
      exact reduces
  | cons field fields hypothesis =>
      cases fields' with
      | nil =>
          cases found
          exact reduces
      | cons field' fields' =>
          rw [unifyFields] at found
          split_ifs at found
          · cases found
          · change one _ _ >>= _ = _ at found
            rw [bind_eq_ok] at found
            obtain ⟨next, first, rest⟩ := found
            rw [List.zip_cons_cons, List.forall_mem_cons] at subset
            exact hypothesis (reduces_step reducesOne reduces subset.1 first) subset.2 rest

/-- The type of the elements of a record is a type on its variables, under the
substitution. -/
theorem reduces_recordElemTypeLoop {subst result : Subst} {current elem : Typ}
    {fields : List (Symbol × Typ)} (reduces : subst.Reduces vars) (currentVars : current.ftv ⊆ vars)
    (subset : ∀ field ∈ fields, field.2.ftv ⊆ vars)
    (found : recordElemTypeLoop one subst current fields = .ok (result, elem)) :
    result.Reduces vars ∧ ∃ last, elem = last.apply result ∧ last.ftv ⊆ vars ∧
      (result = [] → subst = [] ∧ last = current) := by
  induction fields generalizing subst current with
  | nil =>
      cases found
      exact ⟨reduces, current, rfl, currentVars, fun isNil => ⟨isNil, rfl⟩⟩
  | cons field fields hypothesis =>
      rw [List.forall_mem_cons] at subset
      rw [recordElemTypeLoop, bind_eq_ok] at found
      obtain ⟨next, first, rest⟩ := found
      have reducesNext := reduces_step reducesOne reduces
        (Finset.union_subset currentVars subset.1) first
      obtain ⟨reduces, last, isLast, lastVars, lastNil⟩ := hypothesis reducesNext
        (ftv_apply_subset reducesNext.bound currentVars) subset.2 rest
      refine ⟨reduces, last, isLast, lastVars, fun isNil => ?_⟩
      obtain ⟨composed, rfl⟩ := lastNil isNil
      refine ⟨(composeSubst_eq_nil composed).2, ?_⟩
      rw [composed, Equation.apply_nil]

theorem reduces_recordElemType {result : Subst} {elem : Typ} {fields : List (Symbol × Typ)}
    (subset : ∀ field ∈ fields, field.2.ftv ⊆ vars)
    (found : recordElemType one fields = .ok (result, elem)) :
    result.Reduces vars ∧ ∃ last, elem = last.apply result ∧ last.ftv ⊆ vars ∧
      (result = [] → ∃ field ∈ fields, last = field.2) := by
  cases fields with
  | nil => cases found
  | cons field fields =>
      rw [List.forall_mem_cons] at subset
      obtain ⟨reduces, last, isLast, lastVars, lastNil⟩ :=
        reduces_recordElemTypeLoop reducesOne reduces_nil subset.1 subset.2 found
      refine ⟨reduces, last, isLast, lastVars, fun isNil => ?_⟩
      exact ⟨field, List.mem_cons_self, (lastNil isNil).2⟩

theorem reduces_unifyRecordApp {result : Subst} {fields : List (Symbol × Typ)} {head arg : Typ}
    {mismatch : TypeError} (subset : ∀ field ∈ fields, field.2.ftv ⊆ vars)
    (headVars : head.ftv ⊆ vars) (argVars : arg.ftv ⊆ vars)
    (found : unifyRecordApp one fields head arg mismatch = .ok result) : result.Reduces vars := by
  cases head with
  | con const =>
      rw [unifyRecordApp] at found
      split_ifs at found
      rw [bind_eq_ok] at found
      obtain ⟨⟨fieldsSubst, elem⟩, first, found⟩ := found
      obtain ⟨argSubst, second, ⟨⟩⟩ := bind_eq_ok.mp found
      obtain ⟨reduces, last, rfl, lastVars, -⟩ := reduces_recordElemType reducesOne subset first
      exact reduces_step reducesOne reduces (Finset.union_subset argVars lastVars) second
  | var typeVar =>
      rw [unifyRecordApp, Equation.bind_dict] at found
      obtain ⟨headSubst, ⟨⟩, found⟩ := bind_eq_ok.mp found
      obtain ⟨⟨fieldsSubst, elem⟩, first, found⟩ := bind_eq_ok.mp found
      obtain ⟨argSubst, second, ⟨⟩⟩ := bind_eq_ok.mp found
      obtain ⟨reduces, last, rfl, lastVars, -⟩ := reduces_recordElemType reducesOne subset first
      have headReduces : Subst.Reduces [(typeVar.id, Typ.builtin .dict)] vars := by
        refine (reduces_bind (Equation.bind_dict typeVar)).mono ?_
        rw [Finset.insert_subset_iff]
        exact ⟨headVars (by simp [Typ.ftv]), by simp [Typ.builtin, Typ.ftv]⟩
      refine (headReduces.compose reduces).compose ((reducesOne _ _ _ second).mono ?_)
      refine Finset.union_subset ?_ (ftv_apply_subset reduces.bound lastVars)
      exact ftv_apply_subset reduces.bound (ftv_apply_subset headReduces.bound argVars)
  | _ => cases found

end Loops

theorem ftv_subset_of_mem {elems : List Typ} {elem : Typ} (member : elem ∈ elems) :
    elem.ftv ⊆ (Typ.tuple elems).ftv := by
  intro id isVar
  rw [Typ.ftv, Typ.mem_ftvList]
  exact ⟨elem, member, isVar⟩

theorem ftv_subset_of_mem_fields {fields : List (Symbol × Typ)} {field : Symbol × Typ}
    (member : field ∈ fields) : field.2.ftv ⊆ (Typ.record fields).ftv := by
  intro id isVar
  rw [Typ.ftv, Typ.mem_ftvFields]
  exact ⟨field, member, isVar⟩

theorem ftv_pair_subset {elems elems' : List Typ} :
    ∀ pair ∈ elems.zip elems',
      pair.1.ftv ∪ pair.2.ftv ⊆ (Typ.tuple elems).ftv ∪ (Typ.tuple elems').ftv := by
  rintro ⟨elem, elem'⟩ member
  obtain ⟨left, right⟩ := List.of_mem_zip member
  exact Finset.union_subset_union (ftv_subset_of_mem left) (ftv_subset_of_mem right)

theorem ftv_field_pair_subset {fields fields' : List (Symbol × Typ)} :
    ∀ pair ∈ fields.zip fields',
      pair.1.2.ftv ∪ pair.2.2.ftv ⊆ (Typ.record fields).ftv ∪ (Typ.record fields').ftv := by
  rintro ⟨field, field'⟩ member
  obtain ⟨left, right⟩ := List.of_mem_zip member
  exact Finset.union_subset_union (ftv_subset_of_mem_fields left) (ftv_subset_of_mem_fields right)

/-- A unifier is about the variables of the types, and eliminates one of them if
it binds any. -/
theorem reduces_unify {fuel : Nat} {first second : Typ} {subst : Subst}
    (found : unify fuel first second = .ok subst) : subst.Reduces (first.ftv ∪ second.ftv) := by
  induction fuel generalizing first second subst with
  | zero => cases found
  | succ fuel hypothesis =>
      have one : ∀ first second subst, unify fuel first second = .ok subst →
          subst.Reduces (first.ftv ∪ second.ftv) := fun _ _ _ found => hypothesis found
      have pair : ∀ {left left' right right' : Typ} {vars : Finset TypeVarId},
          left.ftv ∪ left'.ftv ⊆ vars → right.ftv ∪ right'.ftv ⊆ vars →
          (do
            let headSubst ← unify fuel left left'
            let argSubst ← unify fuel (right.apply headSubst) (right'.apply headSubst)
            return composeSubst argSubst headSubst) = Except.ok subst → subst.Reduces vars := by
        intro left left' right right' vars leftVars rightVars found
        obtain ⟨headSubst, first, found⟩ := bind_eq_ok.mp found
        obtain ⟨argSubst, second, ⟨⟩⟩ := bind_eq_ok.mp found
        exact reduces_step one ((hypothesis first).mono leftVars) rightVars second
      have single : ∀ {typeVar : TypeVar} {typ : Typ},
          RexLang.bind typeVar typ = .ok subst →
            subst.Reduces ((Typ.var typeVar).ftv ∪ typ.ftv) := by
        intro typeVar typ found
        simpa [Typ.ftv] using reduces_bind found
      by_cases isVar : ∃ typeVar, first = .var typeVar
      · obtain ⟨typeVar, rfl⟩ := isVar
        rw [Equation.unify_var] at found
        exact single found
      · cases second with
        | var typeVar =>
            rw [Equation.unify_of_var (fun typeVar same => isVar ⟨typeVar, same⟩)] at found
            rw [Finset.union_comm]
            exact single found
        | con const' =>
            cases first with
            | var typeVar => exact absurd ⟨typeVar, rfl⟩ isVar
            | con const =>
                rw [unify] at found
                split_ifs at found
                cases found
                exact reduces_nil
            | _ => cases found
        | app head' arg' =>
            cases first with
            | var typeVar => exact absurd ⟨typeVar, rfl⟩ isVar
            | app head arg =>
                refine pair ?_ ?_ found
                · exact Finset.union_subset_union Finset.subset_union_left Finset.subset_union_left
                · exact Finset.union_subset_union Finset.subset_union_right
                    Finset.subset_union_right
            | record fields =>
                refine reduces_unifyRecordApp one (fun field member => ?_) ?_ ?_ found
                · exact (ftv_subset_of_mem_fields member).trans Finset.subset_union_left
                · exact Finset.subset_union_left.trans Finset.subset_union_right
                · exact Finset.subset_union_right.trans Finset.subset_union_right
            | _ => cases found
        | func arg' ret' =>
            cases first with
            | var typeVar => exact absurd ⟨typeVar, rfl⟩ isVar
            | func arg ret =>
                refine pair ?_ ?_ found
                · exact Finset.union_subset_union Finset.subset_union_left Finset.subset_union_left
                · exact Finset.union_subset_union Finset.subset_union_right
                    Finset.subset_union_right
            | _ => cases found
        | tuple elems' =>
            cases first with
            | var typeVar => exact absurd ⟨typeVar, rfl⟩ isVar
            | tuple elems =>
                rw [unify] at found
                split_ifs at found
                exact reduces_unifyElems one reduces_nil ftv_pair_subset found
            | _ => cases found
        | record fields' =>
            cases first with
            | var typeVar => exact absurd ⟨typeVar, rfl⟩ isVar
            | app head arg =>
                refine reduces_unifyRecordApp one (fun field member => ?_) ?_ ?_ found
                · exact (ftv_subset_of_mem_fields member).trans Finset.subset_union_right
                · exact Finset.subset_union_left.trans Finset.subset_union_left
                · exact Finset.subset_union_right.trans Finset.subset_union_left
            | record fields =>
                rw [unify] at found
                split_ifs at found
                exact reduces_unifyFields one reduces_nil ftv_field_pair_subset found
            | _ => cases found

/-! ## Smaller types -/

namespace Typ

mutual

/-- The number of constructors of a type. -/
def size : Typ → Nat
  | .var _ | .con _ => 1
  | .app head arg => size head + size arg + 1
  | .func arg ret => size arg + size ret + 1
  | .tuple elems => sizeList elems + 1
  | .record fields => sizeFields fields + 1

def sizeList : List Typ → Nat
  | [] => 0
  | typ :: types => size typ + sizeList types

def sizeFields : List (Symbol × Typ) → Nat
  | [] => 0
  | (_, typ) :: fields => size typ + sizeFields fields

end

theorem size_le_of_mem {elems : List Typ} {elem : Typ} (member : elem ∈ elems) :
    elem.size ≤ sizeList elems := by
  induction elems with
  | nil => cases member
  | cons first elems hypothesis =>
      rw [sizeList]
      rcases List.mem_cons.mp member with rfl | member
      · omega
      · have smaller := hypothesis member
        omega

theorem size_le_of_mem_fields {fields : List (Symbol × Typ)} {field : Symbol × Typ}
    (member : field ∈ fields) : field.2.size ≤ sizeFields fields := by
  induction fields with
  | nil => cases member
  | cons first fields hypothesis =>
      obtain ⟨name, typ⟩ := first
      rw [sizeFields]
      rcases List.mem_cons.mp member with rfl | member
      · exact Nat.le_add_right _ _
      · have smaller := hypothesis member
        omega

/-- A substitution of constructors for variables keeps the size. -/
theorem size_apply {subst : Subst} (images : ∀ entry ∈ subst, entry.2.size = 1) (typ : Typ) :
    (typ.apply subst).size = typ.size := by
  induction typ using inductionOn with
  | var typeVar =>
      rw [apply]
      cases found : subst.lookup typeVar.id with
      | none => rfl
      | some image => exact images _ (mem_of_lookup found)
  | con const => rfl
  | app head arg headEq argEq => rw [apply, size, size, headEq, argEq]
  | func arg ret argEq retEq => rw [apply, size, size, argEq, retEq]
  | tuple elems elemEq =>
      rw [apply, size, size]
      congr 1
      induction elems with
      | nil => rfl
      | cons elem elems hypothesis =>
          rw [List.forall_mem_cons] at elemEq
          rw [applyList, sizeList, sizeList, elemEq.1, hypothesis elemEq.2]
  | record fields fieldEq =>
      rw [apply, size, size]
      congr 1
      induction fields with
      | nil => rfl
      | cons field fields hypothesis =>
          rw [List.forall_mem_cons] at fieldEq
          rw [applyFields, sizeFields, sizeFields, fieldEq.1, hypothesis fieldEq.2]

end Typ

/-- The types have fewer variables, or no more variables and a smaller size. -/
def Lighter (vars : Finset TypeVarId) (weight : Nat) (first second : Typ) : Prop :=
  (first.ftv ∪ second.ftv).card < vars.card ∨
    (first.ftv ∪ second.ftv).card ≤ vars.card ∧ first.size + second.size < weight

theorem lighter_apply {vars : Finset TypeVarId} {weight : Nat} {subst : Subst}
    {first second : Typ} (reduces : subst.Reduces vars)
    (subset : first.ftv ∪ second.ftv ⊆ vars)
    (smaller : subst = [] → first.size + second.size < weight) :
    Lighter vars weight (first.apply subst) (second.apply subst) := by
  rcases reduces.eliminates with rfl | ⟨id, eliminates⟩
  · rw [Equation.apply_nil, Equation.apply_nil]
    exact .inr ⟨Finset.card_le_card subset, smaller rfl⟩
  · refine .inl (Finset.card_lt_card (Finset.ssubset_iff_subset_ne.mpr ⟨?_, ?_⟩))
    · exact Finset.union_subset
        (ftv_apply_subset reduces.bound (Finset.union_subset_left subset))
        (ftv_apply_subset reduces.bound (Finset.union_subset_right subset))
    · intro same
      have member := eliminates.mem reduces
      rw [← same, Finset.mem_union] at member
      exact member.elim (eliminates.not_mem first) (eliminates.not_mem second)

section Total

variable {vars : Finset TypeVarId} {weight : Nat}
  (total : ∀ first second, Lighter vars weight first second →
    Ends fun fuel => unify fuel first second)

include total

theorem ends_step {Result : Type} {subst : Subst} {first second : Typ}
    {next : Nat → Subst → Except TypeError Result} (reduces : subst.Reduces vars)
    (subset : first.ftv ∪ second.ftv ⊆ vars)
    (smaller : subst = [] → first.size + second.size < weight)
    (rest : ∀ found : Subst, (composeSubst found subst).Reduces vars →
      Ends fun fuel => next fuel found) :
    Ends fun fuel => unify fuel (first.apply subst) (second.apply subst) >>= next fuel := by
  refine (total _ _ (lighter_apply reduces subset smaller)).bind fun found fuel isFound => ?_
  exact rest found (reduces_step (fun _ _ _ => reduces_unify) reduces subset isFound)

theorem ends_unifyElems {subst : Subst} {elems elems' : List Typ} (reduces : subst.Reduces vars)
    (subset : ∀ pair ∈ elems.zip elems', pair.1.ftv ∪ pair.2.ftv ⊆ vars)
    (smaller : ∀ pair ∈ elems.zip elems', pair.1.size + pair.2.size < weight) :
    Ends fun fuel => unifyElems (unify fuel) subst elems elems' := by
  induction elems generalizing elems' subst with
  | nil => exact ends_ok _
  | cons elem elems hypothesis =>
      cases elems' with
      | nil => exact ends_ok _
      | cons elem' elems' =>
          rw [List.zip_cons_cons, List.forall_mem_cons] at subset smaller
          exact ends_step total reduces subset.1 (fun _ => smaller.1) fun found reduces =>
            hypothesis reduces subset.2 smaller.2

theorem ends_unifyFields {subst : Subst} {fields fields' : List (Symbol × Typ)}
    (reduces : subst.Reduces vars)
    (subset : ∀ pair ∈ fields.zip fields', pair.1.2.ftv ∪ pair.2.2.ftv ⊆ vars)
    (smaller : ∀ pair ∈ fields.zip fields', pair.1.2.size + pair.2.2.size < weight) :
    Ends fun fuel => unifyFields (unify fuel) subst fields fields' := by
  induction fields generalizing fields' subst with
  | nil => exact ends_ok _
  | cons field fields hypothesis =>
      cases fields' with
      | nil => exact ends_ok _
      | cons field' fields' =>
          rw [List.zip_cons_cons, List.forall_mem_cons] at subset smaller
          obtain ⟨name, typ⟩ := field
          obtain ⟨name', typ'⟩ := field'
          by_cases sameName : name = name'
          · simp only [unifyFields, sameName, ne_eq, not_true_eq_false, if_false]
            exact ends_step total reduces subset.1 (fun _ => smaller.1) fun found reduces =>
              hypothesis reduces subset.2 smaller.2
          · simp only [unifyFields, ne_eq, sameName, not_false_eq_true, if_true]
            exact ends_error TypeError.noConfusion

theorem ends_recordElemTypeLoop {subst : Subst} {current : Typ} {fields : List (Symbol × Typ)}
    {bound : Nat} (reduces : subst.Reduces vars) (currentVars : current.ftv ⊆ vars)
    (currentSize : subst = [] → current.size ≤ bound)
    (subset : ∀ field ∈ fields, field.2.ftv ⊆ vars)
    (smaller : ∀ field ∈ fields, bound + field.2.size < weight) :
    Ends fun fuel => recordElemTypeLoop (unify fuel) subst current fields := by
  induction fields generalizing subst current with
  | nil => exact ends_ok _
  | cons field fields hypothesis =>
      rw [List.forall_mem_cons] at subset smaller
      refine ends_step total reduces (Finset.union_subset currentVars subset.1) (fun isNil => ?_)
        fun found reduces => ?_
      · exact lt_of_le_of_lt (Nat.add_le_add_right (currentSize isNil) _) smaller.1
      · refine hypothesis reduces (ftv_apply_subset reduces.bound currentVars) (fun isNil => ?_)
          subset.2 smaller.2
        rw [isNil, Equation.apply_nil]
        exact currentSize (composeSubst_eq_nil isNil).2

theorem ends_recordElemType {fields : List (Symbol × Typ)}
    (subset : ∀ field ∈ fields, field.2.ftv ⊆ vars) (smaller : Typ.sizeFields fields < weight) :
    Ends fun fuel => recordElemType (unify fuel) fields := by
  cases fields with
  | nil => exact ends_error TypeError.noConfusion
  | cons field fields =>
      rw [List.forall_mem_cons] at subset
      refine ends_recordElemTypeLoop total reduces_nil subset.1 (fun _ => le_rfl) subset.2 ?_
      intro other member
      have part := Typ.size_le_of_mem_fields member
      rw [Typ.sizeFields] at smaller
      omega

theorem ends_unifyRecordApp {fields : List (Symbol × Typ)} {head arg : Typ} {mismatch : TypeError}
    (isMismatch : mismatch ≠ .outOfFuel) (subset : ∀ field ∈ fields, field.2.ftv ⊆ vars)
    (headVars : head.ftv ⊆ vars) (argVars : arg.ftv ⊆ vars)
    (smaller : Typ.sizeFields fields + arg.size < weight) :
    Ends fun fuel => unifyRecordApp (unify fuel) fields head arg mismatch := by
  have elements : Ends fun fuel => recordElemType (unify fuel) fields :=
    ends_recordElemType total subset (by omega)
  have failed : Ends fun _ => (.error mismatch : Except TypeError Subst) :=
    ends_error isMismatch
  have last : ∀ {arg : Typ} {fuel : Nat} {fieldsSubst : Subst} {elem : Typ},
      arg.ftv ⊆ vars → Typ.sizeFields fields + arg.size < weight →
      recordElemType (unify fuel) fields = .ok (fieldsSubst, elem) →
      Ends fun more => unify more (arg.apply fieldsSubst) elem := by
    intro arg fuel fieldsSubst elem argVars smaller found
    obtain ⟨reduces, last, rfl, lastVars, lastNil⟩ :=
      reduces_recordElemType (fun _ _ _ => reduces_unify) subset found
    refine total _ _ (lighter_apply reduces (Finset.union_subset argVars lastVars) fun isNil => ?_)
    obtain ⟨field, member, rfl⟩ := lastNil isNil
    have part := Typ.size_le_of_mem_fields member
    omega
  cases head with
  | con const =>
      by_cases isDict : const = .builtin .dict
      · simp only [unifyRecordApp, isDict, if_true]
        exact elements.bind fun found fuel isFound =>
          (last argVars smaller isFound).bind fun _ _ _ => ends_ok _
      · simp only [unifyRecordApp, isDict, if_false]
        exact failed
  | var typeVar =>
      simp only [unifyRecordApp, Equation.bind_dict]
      have headReduces : Subst.Reduces [(typeVar.id, Typ.builtin .dict)] vars := by
        refine (reduces_bind (Equation.bind_dict typeVar)).mono ?_
        rw [Finset.insert_subset_iff]
        exact ⟨headVars (by simp [Typ.ftv]), by simp [Typ.builtin, Typ.ftv]⟩
      refine elements.bind fun found fuel isFound => ?_
      refine (last (ftv_apply_subset headReduces.bound argVars) ?_ isFound).bind fun _ _ _ =>
        ends_ok _
      rwa [Typ.size_apply (by simp [Typ.builtin, Typ.size])]
  | _ => exact failed

end Total

theorem ends_bind (typeVar : TypeVar) (typ : Typ) : Ends fun _ => RexLang.bind typeVar typ := by
  have occurring : Ends fun _ => (if typeVar.id ∈ typ.ftv
      then .error (.occurs typeVar.id typ.display)
      else .ok [(typeVar.id, typ)] : Except TypeError Subst) := by
    split_ifs
    · exact ends_error TypeError.noConfusion
    · exact ends_ok _
  cases typ with
  | var other =>
      by_cases same : other.id = typeVar.id
      · simp only [RexLang.bind, same, if_true]
        exact ends_ok _
      · simpa [RexLang.bind, same] using occurring
  | _ => exact occurring

section Pair

variable {vars : Finset TypeVarId} {weight : Nat}
  (total : ∀ first second, Lighter vars weight first second →
    Ends fun fuel => unify fuel first second)

include total

theorem ends_unifyPair {left left' right right' : Typ}
    (leftVars : left.ftv ∪ left'.ftv ⊆ vars) (leftSmaller : left.size + left'.size < weight)
    (rightVars : right.ftv ∪ right'.ftv ⊆ vars) (rightSmaller : right.size + right'.size < weight) :
    Ends fun fuel => do
      let headSubst ← unify fuel left left'
      let argSubst ← unify fuel (right.apply headSubst) (right'.apply headSubst)
      return composeSubst argSubst headSubst := by
  have leftLighter : Lighter vars weight left left' :=
    .inr ⟨Finset.card_le_card leftVars, leftSmaller⟩
  refine (total _ _ leftLighter).bind fun headSubst fuel found => ?_
  exact ends_step total ((reduces_unify found).mono leftVars) rightVars (fun _ => rightSmaller)
    fun _ _ => ends_ok _

end Pair

theorem size_pair_lt {elems elems' : List Typ} : ∀ pair ∈ elems.zip elems',
    pair.1.size + pair.2.size < (Typ.tuple elems).size + (Typ.tuple elems').size := by
  rintro ⟨elem, elem'⟩ member
  obtain ⟨left, right⟩ := List.of_mem_zip member
  have leftSize := Typ.size_le_of_mem left
  have rightSize := Typ.size_le_of_mem right
  simp only [Typ.size]
  omega

theorem size_field_pair_lt {fields fields' : List (Symbol × Typ)} : ∀ pair ∈ fields.zip fields',
    pair.1.2.size + pair.2.2.size < (Typ.record fields).size + (Typ.record fields').size := by
  rintro ⟨field, field'⟩ member
  obtain ⟨left, right⟩ := List.of_mem_zip member
  have leftSize := Typ.size_le_of_mem_fields left
  have rightSize := Typ.size_le_of_mem_fields right
  simp only [Typ.size]
  omega

/-- The step of the recursion, by the constructors of the two types. -/
theorem ends_unify_of_lighter {first second : Typ}
    (total : ∀ left right,
      Lighter (first.ftv ∪ second.ftv) (first.size + second.size) left right →
        Ends fun fuel => unify fuel left right) :
    Ends fun fuel => unify fuel first second := by
  refine ends_of_succ ?_
  have mismatch : ∀ first second : String,
      Ends fun _ => (.error (.unification first second) : Except TypeError Subst) :=
    fun _ _ => ends_error TypeError.noConfusion
  by_cases isVar : ∃ typeVar, first = .var typeVar
  · obtain ⟨typeVar, rfl⟩ := isVar
    simp only [Equation.unify_var]
    exact ends_bind _ _
  · cases second with
    | var typeVar =>
        simp only [Equation.unify_of_var (fun typeVar same => isVar ⟨typeVar, same⟩)]
        exact ends_bind _ _
    | con const' =>
        cases first with
        | var typeVar => exact absurd ⟨typeVar, rfl⟩ isVar
        | con const =>
            simp only [unify]
            split_ifs
            · exact ends_ok _
            · exact mismatch _ _
        | _ => exact mismatch _ _
    | app head' arg' =>
        cases first with
        | var typeVar => exact absurd ⟨typeVar, rfl⟩ isVar
        | app head arg =>
            apply ends_unifyPair total
            · exact Finset.union_subset_union Finset.subset_union_left Finset.subset_union_left
            · simp only [Typ.size]
              omega
            · exact Finset.union_subset_union Finset.subset_union_right Finset.subset_union_right
            · simp only [Typ.size]
              omega
        | record fields =>
            apply ends_unifyRecordApp total TypeError.noConfusion
            · exact fun field member =>
                (ftv_subset_of_mem_fields member).trans Finset.subset_union_left
            · exact Finset.subset_union_left.trans Finset.subset_union_right
            · exact Finset.subset_union_right.trans Finset.subset_union_right
            · simp only [Typ.size]
              omega
        | _ => exact mismatch _ _
    | func arg' ret' =>
        cases first with
        | var typeVar => exact absurd ⟨typeVar, rfl⟩ isVar
        | func arg ret =>
            apply ends_unifyPair total
            · exact Finset.union_subset_union Finset.subset_union_left Finset.subset_union_left
            · simp only [Typ.size]
              omega
            · exact Finset.union_subset_union Finset.subset_union_right Finset.subset_union_right
            · simp only [Typ.size]
              omega
        | _ => exact mismatch _ _
    | tuple elems' =>
        cases first with
        | var typeVar => exact absurd ⟨typeVar, rfl⟩ isVar
        | tuple elems =>
            simp only [unify]
            split_ifs
            · exact mismatch _ _
            · exact ends_unifyElems total reduces_nil ftv_pair_subset size_pair_lt
        | _ => exact mismatch _ _
    | record fields' =>
        cases first with
        | var typeVar => exact absurd ⟨typeVar, rfl⟩ isVar
        | app head arg =>
            apply ends_unifyRecordApp total TypeError.noConfusion
            · exact fun field member =>
                (ftv_subset_of_mem_fields member).trans Finset.subset_union_right
            · exact Finset.subset_union_left.trans Finset.subset_union_left
            · exact Finset.subset_union_right.trans Finset.subset_union_left
            · simp only [Typ.size]
              omega
        | record fields =>
            simp only [unify]
            split_ifs
            · exact mismatch _ _
            · exact ends_unifyFields total reduces_nil ftv_field_pair_subset size_field_pair_lt
        | _ => exact mismatch _ _

/-- Enough fuel gives an outcome. -/
theorem ends_unify (first second : Typ) : Ends fun fuel => unify fuel first second :=
  ends_unify_of_lighter fun left right _lighter => ends_unify left right
termination_by ((first.ftv ∪ second.ftv).card, first.size + second.size)
decreasing_by
  rcases _lighter with fewer | ⟨noMore, smaller⟩
  · exact .left _ _ fewer
  · rcases noMore.lt_or_eq with fewer | same
    · exact .left _ _ fewer
    · rw [same]
      exact .right _ smaller

end RexLang
