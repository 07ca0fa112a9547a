import RexLang.WireNaming

/-!
# What the encoder writes

An action of the encoder keeps an invariant of the naming, extends the naming and
writes the shape that any later naming gives.  The rule for types follows the
calls of the encoder.
-/

namespace RexLang

namespace TypeVarNamer

/-- The name given to an id. -/
def nameOf (namer : TypeVarNamer) (id : TypeVarId) : String :=
  (namer.byId.lookup id).getD ""

/-- Every name that was given is still given. -/
def Extends (namer later : TypeVarNamer) : Prop :=
  ∀ id name, namer.byId.lookup id = some name → later.byId.lookup id = some name

theorem Extends.trans {first second third : TypeVarNamer} (before : first.Extends second)
    (after : second.Extends third) : first.Extends third :=
  fun id name found => after id name (before id name found)

theorem uniqueName_not_mem (namer : TypeVarNamer) (base : String) (id : TypeVarId) :
    namer.uniqueName base id ∉ namer.used := by
  rw [uniqueName]
  split
  · assumption
  · split
    · assumption
    · exact Nat.find_spec (exists_candidate namer.used base id)

theorem extends_nameFor (namer : TypeVarNamer) (var : TypeVar) :
    namer.Extends (namer.nameFor var).2 := by
  intro id name found
  rw [nameFor]
  cases known : namer.byId.lookup var.id with
  | some other => exact found
  | none =>
      have different : id ≠ var.id := by
        rintro rfl
        simp [known] at found
      simp only [lookup_cons_eq_ite, if_neg different, found]

theorem lookup_nameFor (namer : TypeVarNamer) (var : TypeVar) :
    (namer.nameFor var).2.byId.lookup var.id = some (namer.nameFor var).1 := by
  rw [nameFor]
  cases known : namer.byId.lookup var.id with
  | some other => exact known
  | none => simp only [lookup_cons_eq_ite, if_true]

/-! ## Namings -/

/-- Different ids have different names, all of them used and none blank. -/
structure Valid (namer : TypeVarNamer) : Prop where
  injective : ∀ id other name, namer.byId.lookup id = some name →
    namer.byId.lookup other = some name → id = other
  used : ∀ id name, namer.byId.lookup id = some name → name ∈ namer.used
  named : ∀ id name, namer.byId.lookup id = some name → isBlank name = false

theorem valid_default : default.Valid where
  injective _ _ _ found := nomatch found
  used _ _ found := nomatch found
  named _ _ found := nomatch found

/-- A new name that is not blank. -/
theorem Valid.insert {namer : TypeVarNamer} (valid : namer.Valid) {id : TypeVarId} {name : String}
    (isNew : name ∉ namer.used) (named : isBlank name = false) :
    Valid ⟨(id, name) :: namer.byId, Insert.insert name namer.used⟩ where
  injective first second other isFirst isSecond := by
    simp only [lookup_cons_eq_ite] at isFirst isSecond
    split_ifs at isFirst isSecond with sameFirst sameSecond sameSecond
    · rw [sameFirst, sameSecond]
    · cases isFirst
      exact absurd (valid.used second name isSecond) isNew
    · cases isSecond
      exact absurd (valid.used first name isFirst) isNew
    · exact valid.injective first second other isFirst isSecond
  used first other found := by
    simp only [lookup_cons_eq_ite] at found
    split_ifs at found with same
    · cases found
      exact Finset.mem_insert_self _ _
    · exact Finset.mem_insert_of_mem (valid.used first other found)
  named first other found := by
    simp only [lookup_cons_eq_ite] at found
    split_ifs at found with same
    · cases found
      exact named
    · exact valid.named first other found

theorem isBlank_append (first second : String) :
    isBlank (first ++ second) = (isBlank first && isBlank second) := by
  simp [isBlank, String.toList_append]

theorem isBlank_uniqueName {namer : TypeVarNamer} {base : String} {id : TypeVarId}
    (named : isBlank base = false) : isBlank (namer.uniqueName base id) = false := by
  rw [uniqueName]
  split
  · exact named
  · split
    · rw [isBlank_append, named, Bool.false_and]
    · rw [candidate, isBlank_append, isBlank_append, isBlank_append, named, Bool.false_and,
        Bool.false_and, Bool.false_and]

/-- The display name of the variable, if it has one, is not blank. -/
def Displayed (var : TypeVar) : Prop :=
  ∀ name, var.name = some name → isBlank name = false

theorem isBlank_base {var : TypeVar} (displayed : Displayed var) : isBlank (base var) = false := by
  rw [base]
  cases isName : var.name with
  | some name => exact displayed name isName
  | none =>
      rw [Option.getD_none, isBlank_append]
      rfl

theorem Valid.nameFor {namer : TypeVarNamer} (valid : namer.Valid) {var : TypeVar}
    (displayed : Displayed var ∨ (namer.byId.lookup var.id).isSome) :
    (namer.nameFor var).2.Valid := by
  rw [TypeVarNamer.nameFor]
  cases known : namer.byId.lookup var.id with
  | some name => exact valid
  | none =>
      refine valid.insert (uniqueName_not_mem _ _ _) (isBlank_uniqueName ?_)
      obtain displayed | isSome := displayed
      · exact isBlank_base displayed
      · simp [known] at isSome

end TypeVarNamer

/-! ## Actions of the encoder -/

variable {Invariant : TypeVarNamer → Prop} {First Second : Type}

/-- From a naming that meets the invariant, the action writes the shape that every
later naming gives, and names the ids that it covers. -/
def NamesAs (Invariant : TypeVarNamer → Prop) (action : StateM TypeVarNamer First)
    (shape : (TypeVarId → String) → First) (covers : TypeVarId → Prop) : Prop :=
  ∀ namer, Invariant namer →
    Invariant (action namer).2 ∧ namer.Extends (action namer).2 ∧
      (∀ id, covers id → ((action namer).2.byId.lookup id).isSome) ∧
      ∀ later, (action namer).2.Extends later → (action namer).1 = shape later.nameOf

theorem namesAs_pure (value : First) :
    NamesAs Invariant (pure value) (fun _ => value) (fun _ => False) :=
  fun _ holds => ⟨holds, fun _ _ found => found, fun _ covered => covered.elim, fun _ _ => rfl⟩

theorem NamesAs.bind {action : StateM TypeVarNamer First} {next : First → StateM TypeVarNamer Second}
    {shape : (TypeVarId → String) → First} {shapes : First → (TypeVarId → String) → Second}
    {covers coversNext : TypeVarId → Prop} (first : NamesAs Invariant action shape covers)
    (rest : ∀ value, NamesAs Invariant (next value) (shapes value) coversNext) :
    NamesAs Invariant (action >>= next) (fun names => shapes (shape names) names)
      (fun id => covers id ∨ coversNext id) := by
  intro namer holds
  obtain ⟨holdsFirst, extendsFirst, coveredFirst, shapeFirst⟩ := first namer holds
  obtain ⟨holdsNext, extendsNext, coveredNext, shapeNext⟩ :=
    rest (action namer).1 (action namer).2 holdsFirst
  refine ⟨holdsNext, extendsFirst.trans extendsNext, fun id covered => ?_, fun later extends_ => ?_⟩
  · cases covered with
    | inl covered =>
        obtain ⟨name, found⟩ := Option.isSome_iff_exists.mp (coveredFirst id covered)
        exact Option.isSome_iff_exists.mpr ⟨name, extendsNext id name found⟩
    | inr covered => exact coveredNext id covered
  · change (next (action namer).1 (action namer).2).1 = shapes (shape later.nameOf) later.nameOf
    rw [← shapeFirst later (extendsNext.trans extends_)]
    exact shapeNext later extends_

theorem NamesAs.congr {action : StateM TypeVarNamer First}
    {shape other : (TypeVarId → String) → First} {covers weaker : TypeVarId → Prop}
    (namesAs : NamesAs Invariant action shape covers) (same : ∀ names, shape names = other names)
    (implies : ∀ id, weaker id → covers id) : NamesAs Invariant action other weaker := by
  intro namer holds
  obtain ⟨holdsAfter, extends_, covered, shaped⟩ := namesAs namer holds
  exact ⟨holdsAfter, extends_, fun id isWeaker => covered id (implies id isWeaker),
    fun later extendsLater => (shaped later extendsLater).trans (same later.nameOf)⟩

theorem NamesAs.map {action : StateM TypeVarNamer First} {shape : (TypeVarId → String) → First}
    {covers : TypeVarId → Prop} (namesAs : NamesAs Invariant action shape covers)
    (change : First → Second) :
    NamesAs Invariant (do return change (← action)) (fun names => change (shape names)) covers :=
  (namesAs.bind fun value => namesAs_pure (change value)).congr (fun _ => rfl)
    fun _ covered => .inl covered

theorem namesAs_mapM {list : List First} {action : First → StateM TypeVarNamer Second}
    {shape : First → (TypeVarId → String) → Second} {covers : First → TypeVarId → Prop}
    (each : ∀ value ∈ list, NamesAs Invariant (action value) (shape value) (covers value)) :
    NamesAs Invariant (list.mapM action) (fun names => list.map (shape · names))
      (fun id => ∃ value ∈ list, covers value id) := by
  induction list with
  | nil =>
      rw [List.mapM_nil]
      exact (namesAs_pure []).congr (fun _ => rfl) (by simp)
  | cons value list hypothesis =>
      rw [List.mapM_cons]
      have rest := hypothesis fun other member => each other (.tail _ member)
      refine ((each value List.mem_cons_self).bind fun head =>
        rest.map (head :: ·)).congr (fun _ => rfl) ?_
      simp

theorem namesAs_nameFor {var : TypeVar}
    (keeps : ∀ namer : TypeVarNamer, Invariant namer → Invariant (namer.nameFor var).2) :
    NamesAs Invariant (TypeVarNamer.nameFor var) (fun names => names var.id) (· = var.id) := by
  intro namer holds
  have named := namer.lookup_nameFor var
  refine ⟨keeps namer holds, namer.extends_nameFor var, ?_, fun later extends_ => ?_⟩
  · rintro id rfl
    exact Option.isSome_iff_exists.mpr ⟨_, named⟩
  · change _ = (later.byId.lookup var.id).getD ""
    rw [extends_ _ _ named]
    rfl

section Types

variable {con : TypeConst → Prop} {labels : List Symbol → Prop}

/-- A variable that the invariant allows to be named. -/
def Nameable (Invariant : TypeVarNamer → Prop) (var : TypeVar) : Prop :=
  ∀ namer : TypeVarNamer, Invariant namer → Invariant (namer.nameFor var).2

theorem fromTypesWith_eq_mapM (types : List Typ) :
    fromTypesWith (M := StateM TypeVarNamer) TypeVarNamer.nameFor types =
      types.mapM fromTypeWithNamer := by
  induction types with
  | nil => rw [fromTypesWith]; rfl
  | cons typ types hypothesis => rw [fromTypesWith, hypothesis, List.mapM_cons]; rfl

theorem fromFieldsWith_eq_mapM (fields : List (Symbol × Typ)) :
    fromFieldsWith (M := StateM TypeVarNamer) TypeVarNamer.nameFor fields =
      fields.mapM fun field => return ⟨field.1, ← fromTypeWithNamer field.2, none⟩ := by
  induction fields with
  | nil => rw [fromFieldsWith]; rfl
  | cons field fields hypothesis =>
      rw [fromFieldsWith, hypothesis, List.mapM_cons]
      simp [fromTypeWithNamer]

/-- The encoder of types writes their shape and names all their variables. -/
theorem namesAs_fromType {typ : Typ} (every : typ.Every (Nameable Invariant) con labels) :
    NamesAs Invariant (fromTypeWithNamer typ) (wireShape · typ) (· ∈ typ.ftv) := by
  induction typ using Typ.wireInduction with
  | var typeVar =>
      cases every with
      | var keeps =>
          rw [fromTypeWithNamer, fromTypeWith]
          exact ((namesAs_nameFor keeps).map WireType.var).congr (fun names => by simp)
            (by simp [Typ.ftv])
  | con const =>
      rw [fromTypeWithNamer, fromTypeWith]
      exact (namesAs_pure _).congr (fun names => by simp) (by simp [Typ.ftv])
  | construct head arg const args isApp hypothesis =>
      have none : ∀ arg ∈ ([] : List Typ), arg.Every (Nameable Invariant) con labels := by simp
      have parts := (every.spine none).2
      rw [(spine_of_constructorApp isApp).1] at parts
      rw [fromTypeWithNamer, fromTypeWith]
      split
      · next isOther =>
          cases isOther.symm.trans isApp
          rw [fromTypesWith_eq_mapM]
          refine ((namesAs_mapM fun other member => hypothesis other (mem_wireArgs.mp member)
            (parts other (mem_wireArgs.mp member))).map (typeFromConst const)).congr
            (fun names => (wireShape_construct names isApp).symm) fun id inside => ?_
          obtain ⟨other, member, inOther⟩ := (mem_ftv_constructorApp isApp).mp inside
          exact ⟨other, mem_wireArgs.mpr member, inOther⟩
      · next isNone => cases isNone.symm.trans isApp
  | app head arg isApp onHead onArg =>
      cases every with
      | app everyHead everyArg =>
          rw [fromTypeWithNamer, fromTypeWith]
          split
          · next isOther => cases isOther.symm.trans isApp
          · refine ((onHead everyHead).bind fun wire =>
              (onArg everyArg).map (WireType.app wire)).congr
              (fun names => (wireShape_app names isApp).symm) fun id inside => ?_
            simpa [Typ.ftv] using inside
  | func arg ret onParams onRet =>
      have parts := every.decomposeFunType
      rw [fromTypeWithNamer, fromTypeWith, fromTypesWith_eq_mapM]
      refine ((namesAs_mapM fun param member => onParams param member
        (parts.1 param member)).bind fun wires =>
          (onRet parts.2).map (WireType.func wires)).congr
        (fun names => (wireShape_func names arg ret).symm) fun id inside => ?_
      exact (Typ.mem_ftv_decomposeFunType id (.func arg ret)).mpr inside
  | tuple elems onElems =>
      cases every with
      | tuple everyElem =>
          rw [fromTypeWithNamer, fromTypeWith, fromTypesWith_eq_mapM]
          refine ((namesAs_mapM fun elem member =>
            onElems elem member (everyElem elem member)).map WireType.tuple).congr
            (fun names => by simp) fun id inside => ?_
          simpa [Typ.ftv, Typ.mem_ftvList] using inside
  | record fields onFields =>
      cases every with
      | record _ everyField =>
          rw [fromTypeWithNamer, fromTypeWith, fromFieldsWith_eq_mapM]
          refine ((namesAs_mapM fun field member =>
            (onFields field member (everyField field member)).map
              fun wire => WireField.mk field.1 wire none).map WireType.record).congr
            (fun names => by simp) fun id inside => ?_
          simpa [Typ.ftv, Typ.mem_ftvFields] using inside

end Types

end RexLang
