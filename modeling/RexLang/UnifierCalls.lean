import Mathlib.Logic.Relation
import RexLang.EquationSolving
import RexLang.PartialActions

/-!
# Calls of the unifier

The functions of the `Unifier` of the inference engine as actions on its table, which
keeps the bindings of a call that fails.  The bound on the depth of the recursion counts
every call; an action that exceeds it has no outcome.
-/

namespace RexLang

abbrev UnifierAction (Result : Type) :=
  StateAction Unifier TypeError Result

namespace UnifierAction

/-- The entry of the table for a variable. -/
def lookup (id : TypeVarId) : UnifierAction (Option Typ) :=
  StateAction.of fun unifier => some (.ok (unifier.lookup id), unifier)

/-- `bind_var`. -/
def bindVar (id : TypeVarId) (typ : Typ) : UnifierAction Unit :=
  StateAction.of fun unifier => some (.ok (), unifier.bindVar id typ)

/-- `prune`. -/
def prune : Nat → Typ → UnifierAction Typ
  | 0, _ => StateAction.never
  | fuel + 1, typ =>
      match typ with
      | .var typeVar => do
          match ← lookup typeVar.id with
          | some bound =>
              let pruned ← prune fuel bound
              bindVar typeVar.id pruned
              return pruned
          | none => return .var typeVar
      | .con const => return .con const
      | .app head arg => do
          let head ← prune fuel head
          let arg ← prune fuel arg
          return .app head arg
      | .func arg ret => do
          let arg ← prune fuel arg
          let ret ← prune fuel ret
          return .func arg ret
      | .tuple elems => do
          let elems ← elems.mapM (prune fuel)
          return .tuple elems
      | .record fields => do
          let fields ← fields.mapM fun field => do return (field.1, ← prune fuel field.2)
          return .record fields

/-- `any`, which stops at the first element that has the property. -/
def anyM {Element : Type} (visit : Element → UnifierAction Bool) : List Element → UnifierAction Bool
  | [] => return false
  | elem :: elems => do
      if ← visit elem then return true
      anyM visit elems

/-- `occurs`. -/
def occurs : Nat → TypeVarId → Typ → UnifierAction Bool
  | 0, _, _ => StateAction.never
  | fuel + 1, id, typ => do
      match ← prune fuel typ with
      | .var typeVar => return decide (typeVar.id = id)
      | .con _ => return false
      | .app head arg => do
          if ← occurs fuel id head then return true
          occurs fuel id arg
      | .func arg ret => do
          if ← occurs fuel id arg then return true
          occurs fuel id ret
      | .tuple elems => anyM (occurs fuel id) elems
      | .record fields => anyM (fun field => occurs fuel id field.2) fields

section Step

variable (fuel : Nat) (unify : Typ → Typ → UnifierAction Unit)

/-- The arm of `unify` for a variable. -/
def unifyVar (typeVar : TypeVar) (other : Typ) : UnifierAction Unit := do
  if ← occurs fuel typeVar.id other then throw (.occurs typeVar.id other.display)
  bindVar typeVar.id other

/-- The loop of `unify` over the elements of two tuples. -/
def unifyElems : List Typ → List Typ → UnifierAction Unit
  | first :: firsts, second :: seconds => do
      unify first second
      unifyElems firsts seconds
  | _, _ => return ()

/-- The loop of `unify` over the fields of two records. -/
def unifyFields : List (Symbol × Typ) → List (Symbol × Typ) → UnifierAction Unit
  | (name, typ) :: fields, (name', typ') :: fields' => do
      if name ≠ name' then throw (.unification typ.display typ'.display)
      unify typ typ'
      unifyFields fields fields'
  | _, _ => return ()

/-- The loop of `record_elem_type_unifier`. -/
def unifyWithFirst (first : Typ) : List (Symbol × Typ) → UnifierAction Unit
  | [] => return ()
  | (_, typ) :: fields => do
      unify first typ
      unifyWithFirst first fields

/-- `record_elem_type_unifier`. -/
def recordElemType : List (Symbol × Typ) → UnifierAction Typ
  | [] => throw (.unsupportedExpr "empty record")
  | (_, first) :: rest => do
      unifyWithFirst unify first rest
      prune fuel first

/-- The arm of `unify` for a record and an applied type. -/
def unifyRecordApp (fields : List (Symbol × Typ)) (head arg : Typ) (mismatch : TypeError) :
    UnifierAction Unit :=
  match head with
  | .con const =>
      if const = .builtin .dict then do
        let elemTy ← recordElemType fuel unify fields
        unify arg elemTy
      else throw mismatch
  | .var typeVar => do
      unify (.var typeVar) (.builtin .dict)
      let elemTy ← recordElemType fuel unify fields
      unify arg elemTy
  | _ => throw mismatch

/-- `unify` of two pruned types. -/
def unifyPruned (first second : Typ) : UnifierAction Unit :=
  let mismatch := TypeError.unification first.display second.display
  match first, second with
  | .var typeVar, .var typeVar' =>
      if typeVar.id = typeVar'.id then return () else unifyVar fuel typeVar (.var typeVar')
  | .var typeVar, other => unifyVar fuel typeVar other
  | other, .var typeVar => unifyVar fuel typeVar other
  | .con const, .con const' => if const = const' then return () else throw mismatch
  | .app head arg, .app head' arg' => do
      unify head head'
      unify arg arg'
  | .func arg ret, .func arg' ret' => do
      unify arg arg'
      unify ret ret'
  | .tuple elems, .tuple elems' =>
      if elems.length ≠ elems'.length then throw mismatch else unifyElems unify elems elems'
  | .record fields, .record fields' =>
      if fields.length ≠ fields'.length then throw mismatch else unifyFields unify fields fields'
  | .record fields, .app head arg => unifyRecordApp fuel unify fields head arg mismatch
  | .app head arg, .record fields => unifyRecordApp fuel unify fields head arg mismatch
  | _, _ => throw mismatch

end Step

/-- `Unifier::unify`. -/
def unify : Nat → Typ → Typ → UnifierAction Unit
  | 0, _, _ => StateAction.never
  | fuel + 1, first, second => do
      let first ← prune fuel first
      let second ← prune fuel second
      unifyPruned fuel (unify fuel) first second

/-- The loop of `into_subst` over the entries of the table. -/
def intoSubstLoop (fuel : Nat) : List TypeVarId → Subst → UnifierAction Subst
  | [], subst => return subst
  | id :: ids, subst => do
      match ← lookup id with
      | some typ => do
          let pruned ← prune fuel typ
          intoSubstLoop fuel ids ((id, pruned) :: subst)
      | none => intoSubstLoop fuel ids subst

/-- The length of the table, which ends with the largest variable that was bound. -/
def size : UnifierAction Nat :=
  StateAction.of fun unifier =>
    some (.ok (unifier.subs.keys.foldr (fun id length => max (id + 1) length) 0), unifier)

/-- `into_subst`. -/
def intoSubst (fuel : Nat) : UnifierAction Subst := do
  intoSubstLoop fuel (List.range (← size)) []

end UnifierAction

/-! ## Compression -/

namespace Unifier

/-- A bound variable is bound to the type that it resolves to. -/
inductive Compress : Unifier → Unifier → Prop
  | intro {unifier : Unifier} {id : TypeVarId} {bound : Typ}
      (found : unifier.lookup id = some bound) :
      Compress unifier (unifier.bindVar id (unifier.resolve bound))

abbrev Compresses : Unifier → Unifier → Prop :=
  Relation.ReflTransGen Compress

theorem Compresses.equivalent {unifier next : Unifier} {rank : TypeVarId → Nat}
    (ranked : unifier.Ranked rank) (compresses : Compresses unifier next) :
    unifier.Equivalent next rank := by
  induction compresses with
  | refl => exact ⟨ranked, fun _ => rfl⟩
  | tail _ step hypothesis =>
      cases step with
      | intro found => exact hypothesis.trans (equivalent_bindVar hypothesis.ranked found)

theorem Compresses.acyclic {unifier next : Unifier} (acyclic : unifier.Acyclic)
    (compresses : Compresses unifier next) : next.Acyclic := by
  obtain ⟨rank, ranked⟩ := acyclic
  exact ⟨rank, (compresses.equivalent ranked).ranked⟩

theorem Compresses.resolve_eq {unifier next : Unifier} (acyclic : unifier.Acyclic)
    (compresses : Compresses unifier next) (typ : Typ) : next.resolve typ = unifier.resolve typ := by
  obtain ⟨rank, ranked⟩ := acyclic
  exact (compresses.equivalent ranked).resolve_eq typ

/-- Compression leaves a bound variable bound. -/
theorem Compresses.isSome_lookup {unifier next : Unifier} (compresses : Compresses unifier next)
    {id : TypeVarId} (isBound : (unifier.lookup id).isSome) : (next.lookup id).isSome := by
  induction compresses with
  | refl => exact isBound
  | tail _ step hypothesis =>
      cases step with
      | intro found =>
          rw [lookup_bindVar]
          split
          · rfl
          · exact hypothesis

end Unifier

namespace UnifierAction

open StateAction (Ensures)

variable {unifier : Unifier}

theorem ensures_lookup {id : TypeVarId} {post : Except TypeError (Option Typ) → Unifier → Prop}
    (holds : post (.ok (unifier.lookup id)) unifier) : (lookup id).Ensures unifier post := by
  intro outcome later ended
  cases ended
  exact holds

theorem ensures_bindVar {id : TypeVarId} {typ : Typ} {post : Except TypeError Unit → Unifier → Prop}
    (holds : post (.ok ()) (unifier.bindVar id typ)) : (bindVar id typ).Ensures unifier post := by
  intro outcome later ended
  cases ended
  exact holds

/-- The action returns a value, and at most compresses the table. -/
abbrev Reads {Result : Type} (action : UnifierAction Result) (unifier : Unifier)
    (value : Result) : Prop :=
  action.Ensures unifier fun outcome later =>
    outcome = .ok value ∧ Unifier.Compresses unifier later

theorem reads_bind {First Second : Type} {action : UnifierAction First}
    {next : First → UnifierAction Second} {value : First} {result : Second}
    (first : Reads action unifier value)
    (rest : ∀ later, Unifier.Compresses unifier later → Reads (next value) later result) :
    Reads (action >>= next) unifier result := by
  refine first.bind ?_ fun _ _ absurd => nomatch absurd.1
  rintro _ later ⟨same, compresses⟩
  cases same
  exact (rest later compresses).mono fun _ _ ⟨isResult, after⟩ => ⟨isResult, compresses.trans after⟩

theorem reads_pure {Result : Type} {value : Result} :
    Reads (pure value : UnifierAction Result) unifier value :=
  StateAction.ensures_pure ⟨rfl, .refl⟩

theorem reads_mapM {First Second : Type} {visit : First → UnifierAction Second}
    {value : First → Second} {elems : List First}
    (visits : ∀ elem ∈ elems, ∀ later, Unifier.Compresses unifier later →
      Reads (visit elem) later (value elem)) :
    Reads (elems.mapM visit) unifier (elems.map value) := by
  refine StateAction.ensures_mapM (fun elem member state compresses => ?_) .refl
  exact (visits elem member state compresses).mono fun _ _ ⟨same, after⟩ =>
    ⟨same, compresses.trans after⟩

/-- A stored type is the one that the variable resolves to. -/
theorem reads_bindVar (acyclic : unifier.Acyclic) {typeVar : TypeVar} {bound : Typ}
    (found : unifier.lookup typeVar.id = some bound) {later : Unifier}
    (compresses : Unifier.Compresses unifier later) :
    Reads (bindVar typeVar.id (unifier.resolve bound)) later () := by
  obtain ⟨stored, isStored⟩ :=
    Option.isSome_iff_exists.mp (compresses.isSome_lookup (by rw [found]; rfl))
  have same : unifier.resolve bound = later.resolve stored := by
    obtain ⟨rank, ranked⟩ := acyclic
    have equivalent := compresses.equivalent ranked
    rw [← Unifier.resolve_var_of_bound ranked found,
      ← Unifier.resolve_var_of_bound equivalent.ranked isStored, equivalent.resolve_eq]
  rw [same]
  exact ensures_bindVar ⟨rfl, .single (.intro isStored)⟩

/-- `prune` returns the resolved type. -/
theorem reads_prune (acyclic : unifier.Acyclic) (fuel : Nat) (typ : Typ) :
    Reads (prune fuel typ) unifier (unifier.resolve typ) := by
  induction fuel generalizing unifier typ with
  | zero => exact StateAction.ensures_never
  | succ fuel hypothesis =>
      have inside : ∀ typ later, Unifier.Compresses unifier later →
          Reads (prune fuel typ) later (unifier.resolve typ) := by
        intro typ later compresses
        rw [← compresses.resolve_eq acyclic]
        exact hypothesis (compresses.acyclic acyclic) typ
      cases typ with
      | var typeVar =>
          have entry : Reads (lookup typeVar.id) unifier (unifier.lookup typeVar.id) :=
            ensures_lookup ⟨rfl, .refl⟩
          obtain ⟨rank, ranked⟩ := id acyclic
          rw [prune]
          refine reads_bind entry fun later compresses => ?_
          cases found : unifier.lookup typeVar.id with
          | none =>
              rw [Unifier.resolve_var_of_unbound ranked found]
              exact reads_pure
          | some bound =>
              rw [Unifier.resolve_var_of_bound ranked found]
              exact reads_bind (inside bound later compresses) fun second after =>
                reads_bind (reads_bindVar acyclic found (compresses.trans after))
                  fun _ _ => reads_pure
      | con const => exact reads_pure
      | app head arg =>
          exact reads_bind (inside head unifier .refl) fun first compresses =>
            reads_bind (inside arg first compresses) fun _ _ => reads_pure
      | func arg ret =>
          exact reads_bind (inside arg unifier .refl) fun first compresses =>
            reads_bind (inside ret first compresses) fun _ _ => reads_pure
      | tuple elems =>
          rw [Unifier.resolve, Typ.bindVars_tuple]
          exact reads_bind (reads_mapM fun elem _ => inside elem) fun _ _ => reads_pure
      | record fields =>
          rw [Unifier.resolve, Typ.bindVars_record]
          exact reads_bind (reads_mapM fun field _ later compresses =>
            reads_bind (inside field.2 later compresses) fun _ _ => reads_pure)
            fun _ _ => reads_pure

theorem reads_anyM {Element : Type} {visit : Element → UnifierAction Bool} {elems : List Element}
    {value : Element → Bool}
    (visits : ∀ elem ∈ elems, ∀ later, Unifier.Compresses unifier later →
      Reads (visit elem) later (value elem)) :
    Reads (anyM visit elems) unifier (elems.any value) := by
  induction elems generalizing unifier with
  | nil => exact reads_pure
  | cons elem elems hypothesis =>
      rw [List.forall_mem_cons] at visits
      rw [anyM, List.any_cons]
      refine reads_bind (visits.1 unifier .refl) fun later compresses => ?_
      cases value elem with
      | true => exact reads_pure
      | false => exact hypothesis fun other member last after =>
          visits.2 other member last (compresses.trans after)

/-- `occurs` says whether the variable is in the resolved type. -/
theorem reads_occurs (acyclic : unifier.Acyclic) (fuel : Nat) (id : TypeVarId) (typ : Typ) :
    Reads (occurs fuel id typ) unifier (decide (id ∈ (unifier.resolve typ).ftv)) := by
  induction fuel generalizing unifier typ with
  | zero => exact StateAction.ensures_never
  | succ fuel hypothesis =>
      rw [occurs]
      refine reads_bind (reads_prune acyclic _ typ) fun later compresses => ?_
      have resolved : ∀ last, Unifier.Compresses later last →
          last.resolve (unifier.resolve typ) = unifier.resolve typ := by
        intro last after
        have both : Unifier.Compresses unifier last := compresses.trans after
        rw [both.resolve_eq acyclic]
        obtain ⟨rank, ranked⟩ := acyclic
        exact Unifier.resolve_resolve ranked typ
      have inside : ∀ part last, Unifier.Compresses later last → last.resolve part = part →
          Reads (occurs fuel id part) last (decide (id ∈ part.ftv)) := by
        intro part last after same
        have both : Unifier.Compresses unifier last := compresses.trans after
        have reads := hypothesis (both.acyclic acyclic) part
        rw [same] at reads
        exact reads
      generalize unifier.resolve typ = pruned at resolved ⊢
      cases pruned with
      | var typeVar =>
          simp only [Typ.ftv, Finset.mem_singleton, eq_comm]
          exact reads_pure
      | con const => exact reads_pure
      | app head arg =>
          have parts := fun last after => Typ.app.inj (resolved last after)
          simp only [Typ.ftv, Finset.mem_union, Bool.decide_or]
          refine reads_bind (inside head later .refl (parts later .refl).1) fun last after => ?_
          cases decide (id ∈ head.ftv) with
          | true => exact reads_pure
          | false => exact inside arg last after (parts last after).2
      | func arg ret =>
          have parts := fun last after => Typ.func.inj (resolved last after)
          simp only [Typ.ftv, Finset.mem_union, Bool.decide_or]
          refine reads_bind (inside arg later .refl (parts later .refl).1) fun last after => ?_
          cases decide (id ∈ arg.ftv) with
          | true => exact reads_pure
          | false => exact inside ret last after (parts last after).2
      | tuple elems =>
          have parts : ∀ elem ∈ elems, ∀ last, Unifier.Compresses later last →
              Reads (occurs fuel id elem) last (decide (id ∈ elem.ftv)) := by
            intro elem member last after
            have same := resolved last after
            rw [Unifier.resolve, Typ.bindVars_tuple, Typ.tuple.injEq] at same
            exact inside elem last after (List.map_inj_left.mp (same.trans (List.map_id elems).symm) elem member)
          have anyElem : decide (id ∈ (Typ.tuple elems).ftv) =
              elems.any fun elem => decide (id ∈ elem.ftv) := by
            rw [Typ.ftv, List.any_eq, decide_eq_decide, Typ.mem_ftvList]
            simp
          rw [anyElem]
          exact reads_anyM parts
      | record fields =>
          have parts : ∀ field ∈ fields, ∀ last, Unifier.Compresses later last →
              Reads (occurs fuel id field.2) last (decide (id ∈ field.2.ftv)) := by
            intro field member last after
            have same := resolved last after
            rw [Unifier.resolve, Typ.bindVars_record, Typ.record.injEq] at same
            exact inside field.2 last after
              (congrArg Prod.snd
                (List.map_inj_left.mp (same.trans (List.map_id fields).symm) field member))
          have anyField : decide (id ∈ (Typ.record fields).ftv) =
              fields.any fun field => decide (id ∈ field.2.ftv) := by
            rw [Typ.ftv, List.any_eq, decide_eq_decide, Typ.mem_ftvFields]
            simp
          rw [anyField]
          exact reads_anyM parts

/-! ## Pruning ends -/

theorem grows_prune (typ : Typ) : StateAction.Grows fun fuel => prune fuel typ := by
  intro fuel more enough
  induction fuel generalizing more typ with
  | zero => exact StateAction.never_approximates _
  | succ fuel hypothesis =>
      obtain ⟨more, rfl⟩ : ∃ other, more = other + 1 := ⟨more - 1, by omega⟩
      have inside := fun typ => hypothesis typ more (by omega)
      cases typ with
      | var typeVar =>
          refine (StateAction.Approximates.refl _).bind fun entry => ?_
          cases entry with
          | none => exact .refl _
          | some bound => exact (inside bound).bind fun _ => .refl _
      | con const => exact .refl _
      | app head arg => exact (inside head).bind fun _ => (inside arg).bind fun _ => .refl _
      | func arg ret => exact (inside arg).bind fun _ => (inside ret).bind fun _ => .refl _
      | tuple elems =>
          exact (StateAction.approximates_mapM fun elem _ => inside elem).bind fun _ => .refl _
      | record fields =>
          exact (StateAction.approximates_mapM fun field _ =>
            (inside field.2).bind fun _ => .refl _).bind fun _ => .refl _

theorem endsIn_succ {typ : Typ} {rank : TypeVarId → Nat} (ranked : unifier.Ranked rank)
    (ends : StateAction.EndsIn (fun fuel => prune (fuel + 1) typ) unifier fun _ _ => True) :
    StateAction.EndsIn (fun fuel => prune fuel typ) unifier fun _ later => later.Ranked rank := by
  obtain ⟨fuel, pruned, later, ended, -⟩ := ends
  have compresses := (reads_prune ⟨rank, ranked⟩ (fuel + 1) typ _ later ended).2
  exact ⟨fuel + 1, pruned, later, ended, (compresses.equivalent ranked).ranked⟩

/-- The rank of the variables bounds the chains of bindings. -/
theorem endsIn_prune {rank : TypeVarId → Nat} (bound : Nat) (typ : Typ)
    (below : ∀ id ∈ typ.ftv, rank id < bound) (ranked : unifier.Ranked rank) :
    StateAction.EndsIn (fun fuel => prune fuel typ) unifier fun _ later => later.Ranked rank := by
  induction bound using Nat.strongRecOn generalizing unifier typ with
  | ind bound chains =>
      induction typ using Typ.inductionOn generalizing unifier with
      | var typeVar =>
          refine endsIn_succ ranked ?_
          have isEntry : StateAction.EndsIn (fun _ => lookup typeVar.id) unifier
              fun entry later => entry = unifier.lookup typeVar.id ∧ later = unifier :=
            ⟨0, _, _, rfl, rfl, rfl⟩
          refine StateAction.EndsIn.bind (StateAction.grows_const _) (fun entry => ?_) isEntry ?_
          · cases entry with
            | none => exact StateAction.grows_const _
            | some stored => exact (grows_prune stored).bind fun _ => StateAction.grows_const _
          · rintro entry later ⟨rfl, rfl⟩
            cases found : later.lookup typeVar.id with
            | none => exact StateAction.endsIn_pure trivial
            | some stored =>
                have smaller := below typeVar.id (by simp [Typ.ftv])
                have ends := chains (rank typeVar.id) smaller stored
                  (ranked.lt typeVar.id stored found) ranked
                exact ends.bind (grows_prune stored) (fun _ => StateAction.grows_const _)
                  fun _ _ _ => ⟨0, _, _, rfl, trivial⟩
      | con const => exact endsIn_succ ranked (StateAction.endsIn_pure trivial)
      | app head arg onHead onArg =>
          have headBelow : ∀ id ∈ head.ftv, rank id < bound := fun id member =>
            below id (by simp [Typ.ftv, member])
          have argBelow : ∀ id ∈ arg.ftv, rank id < bound := fun id member =>
            below id (by simp [Typ.ftv, member])
          refine endsIn_succ ranked ((onHead headBelow ranked).bind (grows_prune head)
            (fun _ => (grows_prune arg).bind fun _ => StateAction.grows_const _) ?_)
          exact fun _ later laterRanked => (onArg argBelow laterRanked).bind (grows_prune arg)
            (fun _ => StateAction.grows_const _) fun _ _ _ => StateAction.endsIn_pure trivial
      | func arg ret onArg onRet =>
          have argBelow : ∀ id ∈ arg.ftv, rank id < bound := fun id member =>
            below id (by simp [Typ.ftv, member])
          have retBelow : ∀ id ∈ ret.ftv, rank id < bound := fun id member =>
            below id (by simp [Typ.ftv, member])
          refine endsIn_succ ranked ((onArg argBelow ranked).bind (grows_prune arg)
            (fun _ => (grows_prune ret).bind fun _ => StateAction.grows_const _) ?_)
          exact fun _ later laterRanked => (onRet retBelow laterRanked).bind (grows_prune ret)
            (fun _ => StateAction.grows_const _) fun _ _ _ => StateAction.endsIn_pure trivial
      | tuple elems onElem =>
          have ends : ∀ elem ∈ elems, ∀ later : Unifier, later.Ranked rank →
              StateAction.EndsIn (fun fuel => prune fuel elem) later
                fun _ last => last.Ranked rank := fun elem member later laterRanked =>
            onElem elem member
              (fun id inElem => below id (Equation.ftv_subset_of_elem member inElem)) laterRanked
          have grows : StateAction.Grows fun fuel => elems.mapM (prune fuel) :=
            fun fuel more enough => StateAction.approximates_mapM fun elem _ =>
              grows_prune elem fuel more enough
          exact endsIn_succ ranked ((StateAction.endsIn_mapM grows_prune ends ranked).bind grows
            (fun _ => StateAction.grows_const _) fun _ _ _ => StateAction.endsIn_pure trivial)
      | record fields onField =>
          have growsField : ∀ field : Symbol × Typ, StateAction.Grows fun fuel => do
              return (field.1, ← prune fuel field.2) := fun field =>
            (grows_prune field.2).bind fun _ => StateAction.grows_const _
          have ends : ∀ field ∈ fields, ∀ later : Unifier, later.Ranked rank →
              StateAction.EndsIn (fun fuel => do return (field.1, ← prune fuel field.2)) later
                fun _ last => last.Ranked rank := by
            intro field member later laterRanked
            have endsField := onField field member
              (fun id inField => below id (Equation.ftv_subset_of_field member inField)) laterRanked
            exact endsField.bind (grows_prune field.2) (fun _ => StateAction.grows_const _)
              fun _ _ lastRanked => StateAction.endsIn_pure lastRanked
          have grows : StateAction.Grows fun fuel => fields.mapM fun field => do
              return (field.1, ← prune fuel field.2) :=
            fun fuel more enough => StateAction.approximates_mapM fun field _ =>
              growsField field fuel more enough
          exact endsIn_succ ranked ((StateAction.endsIn_mapM growsField ends ranked).bind grows
            (fun _ => StateAction.grows_const _) fun _ _ _ => StateAction.endsIn_pure trivial)

/-- In a table without cycles `prune` ends, with the resolved type. -/
theorem exists_prune (acyclic : unifier.Acyclic) (typ : Typ) :
    ∃ fuel later, prune fuel typ unifier = some (.ok (unifier.resolve typ), later) := by
  obtain ⟨rank, ranked⟩ := acyclic
  have below : ∀ id ∈ typ.ftv, rank id < unifier.subs.entries.length + 1 :=
    fun id _ => Nat.lt_succ_of_le (ranked.le_size id)
  obtain ⟨fuel, pruned, later, ended, -⟩ := endsIn_prune _ typ below ranked
  obtain ⟨same, -⟩ := reads_prune ⟨rank, ranked⟩ fuel typ _ later ended
  cases same
  exact ⟨fuel, later, ended⟩

/-! ## The final substitution -/

/-- The resolved entries of the table for some variables, the last one first. -/
def resolvedEntries (unifier : Unifier) (ids : List TypeVarId) : Subst :=
  ids.reverse.filterMap fun id =>
    (unifier.lookup id).map fun typ => (id, unifier.resolve typ)

theorem resolvedEntries_cons (unifier : Unifier) (id : TypeVarId) (ids : List TypeVarId) :
    resolvedEntries unifier (id :: ids) = resolvedEntries unifier ids ++
      ((unifier.lookup id).map fun typ => (id, unifier.resolve typ)).toList := by
  rw [resolvedEntries, List.reverse_cons, List.filterMap_append, resolvedEntries]
  congr 1

theorem lookup_resolvedEntries (unifier : Unifier) (ids : List TypeVarId) (id : TypeVarId) :
    (resolvedEntries unifier ids).lookup id =
      if id ∈ ids then (unifier.lookup id).map unifier.resolve else none := by
  induction ids with
  | nil => rfl
  | cons other ids hypothesis =>
      rw [resolvedEntries_cons, List.lookup_append, hypothesis]
      by_cases same : id = other
      · subst same
        cases unifier.lookup id with
        | none => simp
        | some typ => by_cases member : id ∈ ids <;> simp [member]
      · cases unifier.lookup other with
        | none => simp [same]
        | some typ => simp [same, List.lookup_cons, beq_eq_false_iff_ne.mpr same]

/-- A stored type that was replaced resolves as before. -/
theorem map_resolve_lookup (acyclic : unifier.Acyclic) {later : Unifier}
    (compresses : Unifier.Compresses unifier later) (id : TypeVarId) :
    (later.lookup id).map later.resolve = (unifier.lookup id).map unifier.resolve := by
  obtain ⟨rank, ranked⟩ := acyclic
  have equivalent := compresses.equivalent ranked
  cases found : unifier.lookup id with
  | none =>
      rw [(Unifier.lookup_eq_none_of_equivalent ranked equivalent id).mpr found]
      rfl
  | some bound =>
      have isBound : (later.lookup id).isSome := compresses.isSome_lookup (by rw [found]; rfl)
      obtain ⟨stored, isStored⟩ := Option.isSome_iff_exists.mp isBound
      rw [isStored, Option.map_some, Option.map_some,
        ← @Unifier.resolve_var_of_bound _ _ equivalent.ranked ⟨id, none⟩ _ isStored,
        equivalent.resolve_eq, @Unifier.resolve_var_of_bound _ _ ranked ⟨id, none⟩ _ found]

theorem resolvedEntries_eq (acyclic : unifier.Acyclic) {later : Unifier}
    (compresses : Unifier.Compresses unifier later) (ids : List TypeVarId) :
    resolvedEntries later ids = resolvedEntries unifier ids := by
  rw [resolvedEntries, resolvedEntries]
  congr 1
  funext id
  have same := congrArg (Option.map fun typ => (id, typ)) (map_resolve_lookup acyclic compresses id)
  rw [Option.map_map, Option.map_map] at same
  exact same

theorem reads_intoSubstLoop (acyclic : unifier.Acyclic) (fuel : Nat) (ids : List TypeVarId)
    (subst : Subst) :
    Reads (intoSubstLoop fuel ids subst) unifier (resolvedEntries unifier ids ++ subst) := by
  induction ids generalizing unifier subst with
  | nil => exact reads_pure
  | cons id ids hypothesis =>
      have entry : Reads (lookup id) unifier (unifier.lookup id) := ensures_lookup ⟨rfl, .refl⟩
      rw [intoSubstLoop, resolvedEntries_cons]
      refine reads_bind entry fun later compresses => ?_
      have acyclicLater := compresses.acyclic acyclic
      rw [← resolvedEntries_eq acyclic compresses]
      cases found : unifier.lookup id with
      | none =>
          rw [Option.map_none, Option.toList_none, List.append_nil]
          exact hypothesis acyclicLater subst
      | some typ =>
          rw [Option.map_some, Option.toList_some, List.append_assoc, List.singleton_append,
            ← compresses.resolve_eq acyclic]
          refine reads_bind (reads_prune acyclicLater fuel typ) fun last after => ?_
          rw [← resolvedEntries_eq acyclicLater after]
          exact hypothesis (after.acyclic acyclicLater) _

theorem lt_size_of_bound {id : TypeVarId} {typ : Typ} (found : unifier.lookup id = some typ) :
    id < unifier.subs.keys.foldr (fun id length => max (id + 1) length) 0 := by
  have member : id ∈ unifier.subs.keys :=
    AList.mem_keys.mp (AList.lookup_isSome.mp (by rw [← Unifier.lookup, found]; rfl))
  generalize unifier.subs.keys = keys at member ⊢
  induction keys with
  | nil => cases member
  | cons other ids hypothesis =>
      rw [List.foldr_cons]
      rcases List.mem_cons.mp member with rfl | member
      · exact (Nat.lt_succ_self id).trans_le (Nat.le_max_left _ _)
      · exact (hypothesis member).trans_le (Nat.le_max_right _ _)

theorem grows_intoSubstLoop (ids : List TypeVarId) (subst : Subst) :
    StateAction.Grows fun fuel => intoSubstLoop fuel ids subst := by
  intro fuel more enough
  induction ids generalizing subst with
  | nil => exact .refl _
  | cons id ids hypothesis =>
      refine (StateAction.Approximates.refl _).bind fun entry => ?_
      cases entry with
      | none => exact hypothesis subst
      | some typ => exact (grows_prune typ fuel more enough).bind fun _ => hypothesis _

theorem endsIn_intoSubstLoop {rank : TypeVarId → Nat} (ranked : unifier.Ranked rank)
    (ids : List TypeVarId) (subst : Subst) :
    StateAction.EndsIn (fun fuel => intoSubstLoop fuel ids subst) unifier fun _ _ => True := by
  induction ids generalizing unifier subst with
  | nil => exact StateAction.endsIn_pure trivial
  | cons id ids hypothesis =>
      have isEntry : StateAction.EndsIn (fun _ => lookup id) unifier
          fun entry later => entry = unifier.lookup id ∧ later = unifier := ⟨0, _, _, rfl, rfl, rfl⟩
      have growsRest : ∀ subst, StateAction.Grows fun fuel => intoSubstLoop fuel ids subst :=
        grows_intoSubstLoop ids
      refine StateAction.EndsIn.bind (StateAction.grows_const _) (fun entry => ?_) isEntry ?_
      · cases entry with
        | none => exact growsRest subst
        | some typ => exact (grows_prune typ).bind fun _ => growsRest _
      · rintro entry later ⟨rfl, rfl⟩
        cases later.lookup id with
        | none => exact hypothesis ranked subst
        | some typ =>
            have below : ∀ id ∈ typ.ftv, rank id < later.subs.entries.length + 1 :=
              fun id _ => Nat.lt_succ_of_le (ranked.le_size id)
            exact (endsIn_prune _ typ below ranked).bind (grows_prune typ) (fun _ => growsRest _)
              fun _ _ prunedRanked => hypothesis prunedRanked _

/-- In a table without cycles `into_subst` ends. -/
theorem exists_intoSubst (acyclic : unifier.Acyclic) :
    ∃ fuel subst later, intoSubst fuel unifier = some (.ok subst, later) := by
  obtain ⟨rank, ranked⟩ := acyclic
  have isSize : StateAction.EndsIn (fun _ => size) unifier fun _ later => later = unifier :=
    ⟨0, _, _, rfl, rfl⟩
  obtain ⟨fuel, subst, later, ended, -⟩ := isSize.bind (StateAction.grows_const _)
    (fun length => grows_intoSubstLoop (List.range length) []) fun _ _ same => by
      rw [same]
      exact endsIn_intoSubstLoop ranked _ _
  exact ⟨fuel, subst, later, ended⟩

/-- `into_subst` returns the substitution that resolves every type. -/
theorem ensures_intoSubst (acyclic : unifier.Acyclic) (fuel : Nat) :
    (intoSubst fuel).Ensures unifier fun outcome _ => ∃ subst, outcome = .ok subst ∧
      ∀ typ : Typ, typ.apply subst = unifier.resolve typ := by
  have reads : Reads (intoSubst fuel) unifier (resolvedEntries unifier (List.range
      (unifier.subs.keys.foldr (fun id length => max (id + 1) length) 0)) ++ []) := by
    have length : Reads size unifier _ := fun outcome later ended => by
      cases ended
      exact ⟨rfl, .refl⟩
    refine reads_bind length fun later compresses => ?_
    rw [← resolvedEntries_eq acyclic compresses]
    exact reads_intoSubstLoop (compresses.acyclic acyclic) fuel _ _
  refine reads.mono fun outcome later ⟨same, _⟩ => ⟨_, same, fun typ => ?_⟩
  obtain ⟨rank, ranked⟩ := acyclic
  rw [Typ.apply_eq_bindVars]
  refine Typ.bindVars_congr fun typeVar _ => ?_
  change _ = unifier.resolve (.var typeVar)
  rw [List.append_nil, lookup_resolvedEntries]
  cases found : unifier.lookup typeVar.id with
  | none => simp [Unifier.resolve_var_of_unbound ranked found]
  | some bound =>
      rw [if_pos (List.mem_range.mpr (lt_size_of_bound found)),
        Unifier.resolve_var_of_bound ranked found]
      rfl

end UnifierAction

end RexLang
