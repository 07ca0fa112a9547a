import RexLang.MostGeneralUnifiers
import RexLang.UnifierCalls

/-!
# Invariants of the unifier

Every call writes to the table in two ways only: it compresses a binding, or it binds an
unbound variable to a resolved type without it.  So the bindings have no cycles in any
run, resolved types are only refined, and types that were unified agree ever after.
-/

namespace RexLang

namespace Typ

/-! ## Types that agree -/

/-- What `unify` accepts without a new binding: the types are equal up to the names of
variables, where the dictionary of a type agrees with a record whose fields agree. -/
inductive Agrees : Typ → Typ → Prop where
  | var {first second : TypeVar} (same : first.id = second.id) :
      Agrees (.var first) (.var second)
  | con (const : TypeConst) : Agrees (.con const) (.con const)
  | app {head head' arg arg' : Typ} (heads : Agrees head head') (args : Agrees arg arg') :
      Agrees (.app head arg) (.app head' arg')
  | func {arg arg' ret ret' : Typ} (args : Agrees arg arg') (rets : Agrees ret ret') :
      Agrees (.func arg ret) (.func arg' ret')
  | tuple {elems elems' : List Typ} (sameLength : elems.length = elems'.length)
      (each : ∀ pair ∈ elems.zip elems', Agrees pair.1 pair.2) :
      Agrees (.tuple elems) (.tuple elems')
  | record {fields fields' : List (Symbol × Typ)} (sameLength : fields.length = fields'.length)
      (sameNames : ∀ pair ∈ fields.zip fields', pair.1.1 = pair.2.1)
      (each : ∀ pair ∈ fields.zip fields', Agrees pair.1.2 pair.2.2) :
      Agrees (.record fields) (.record fields')
  | recordDict {name : Symbol} {first arg : Typ} {rest : List (Symbol × Typ)}
      (elems : ∀ field ∈ rest, Agrees first field.2) (args : Agrees arg first) :
      Agrees (.record ((name, first) :: rest)) (.app (.builtin .dict) arg)
  | dictRecord {name : Symbol} {first arg : Typ} {rest : List (Symbol × Typ)}
      (elems : ∀ field ∈ rest, Agrees first field.2) (args : Agrees arg first) :
      Agrees (.app (.builtin .dict) arg) (.record ((name, first) :: rest))

theorem mem_of_mem_zip_self {Elem : Type} {elems : List Elem} {pair : Elem × Elem}
    (member : pair ∈ elems.zip elems) : pair.1 ∈ elems ∧ pair.1 = pair.2 := by
  rw [List.zip_eq_zipWith, List.zipWith_self] at member
  obtain ⟨elem, isElem, rfl⟩ := List.mem_map.mp member
  exact ⟨isElem, rfl⟩

theorem Agrees.refl (typ : Typ) : Agrees typ typ := by
  induction typ using inductionOn with
  | var typeVar => exact .var rfl
  | con const => exact .con const
  | app head arg onHead onArg => exact .app onHead onArg
  | func arg ret onArg onRet => exact .func onArg onRet
  | tuple elems onElem =>
      refine .tuple rfl fun pair member => ?_
      obtain ⟨isElem, same⟩ := mem_of_mem_zip_self member
      rw [← same]
      exact onElem _ isElem
  | record fields onField =>
      refine .record rfl (fun pair member => ?_) fun pair member => ?_
      · exact congrArg Prod.fst (mem_of_mem_zip_self member).2
      · obtain ⟨isField, same⟩ := mem_of_mem_zip_self member
        rw [← same]
        exact onField _ isField

/-- Types that agree do so under every assignment. -/
theorem Agrees.bindVars {assign : TypeVar → Typ} (uniform : Uniform assign) {first second : Typ}
    (agrees : Agrees first second) : Agrees (first.bindVars assign) (second.bindVars assign) := by
  induction agrees with
  | @var first second same =>
      rw [bindVars_var, bindVars_var]
      rcases uniform first second same with equal | ⟨isVar, isOther⟩
      · rw [equal]
        exact .refl _
      · rw [isVar, isOther]
        exact .var same
  | con const => exact .con const
  | app _ _ heads args => exact .app heads args
  | func _ _ args rets => exact .func args rets
  | tuple sameLength _ each =>
      rw [bindVars_tuple, bindVars_tuple]
      refine .tuple (by simpa using sameLength) fun pair member => ?_
      rw [List.zip_map] at member
      obtain ⟨before, isPair, rfl⟩ := List.mem_map.mp member
      exact each before isPair
  | record sameLength sameNames _ each =>
      rw [bindVars_record, bindVars_record]
      refine .record (by simpa using sameLength) (fun pair member => ?_) fun pair member => ?_
      all_goals
        rw [List.zip_map] at member
        obtain ⟨before, isPair, rfl⟩ := List.mem_map.mp member
      · exact sameNames before isPair
      · exact each before isPair
  | recordDict _ _ elems args =>
      rw [bindVars_record, List.map_cons, bindVars_app, bindVars_builtin]
      refine .recordDict (fun field member => ?_) args
      obtain ⟨before, isField, rfl⟩ := List.mem_map.mp member
      exact elems before isField
  | dictRecord _ _ elems args =>
      rw [bindVars_record, List.map_cons, bindVars_app, bindVars_builtin]
      refine .dictRecord (fun field member => ?_) args
      obtain ⟨before, isField, rfl⟩ := List.mem_map.mp member
      exact elems before isField

end Typ

/-! ## Writes to the table -/

namespace Unifier

inductive Write : Unifier → Unifier → Prop where
  | compress {unifier next : Unifier} (step : Compress unifier next) : Write unifier next
  | bind {unifier : Unifier} {id : TypeVarId} {typ : Typ} (unbound : unifier.lookup id = none)
      (free : ∀ other ∈ typ.ftv, unifier.lookup other = none) (absent : id ∉ typ.ftv) :
      Write unifier (unifier.bindVar id typ)

abbrev Writes : Unifier → Unifier → Prop :=
  Relation.ReflTransGen Write

theorem writes_of_compresses {unifier next : Unifier} (compresses : Compresses unifier next) :
    Writes unifier next :=
  Relation.ReflTransGen.mono (fun _ _ step => Write.compress step) _ _ compresses

theorem uniform_assignOne (id : TypeVarId) (typ : Typ) : Typ.Uniform (assignOne id typ) := by
  intro typeVar other same
  rw [assignOne, assignOne, same]
  split
  · exact .inl rfl
  · exact .inr ⟨rfl, rfl⟩

/-- After writes a type resolves to an instance of what it resolved to. -/
structure Refines (unifier next : Unifier) : Prop where
  acyclic : next.Acyclic
  instances : ∃ assign, Typ.Uniform assign ∧
    ∀ typ, next.resolve typ = (unifier.resolve typ).bindVars assign

theorem Refines.trans {first second third : Unifier} (one : Refines first second)
    (two : Refines second third) : Refines first third := by
  obtain ⟨assign, uniform, resolves⟩ := one.instances
  obtain ⟨assignNext, uniformNext, resolvesNext⟩ := two.instances
  refine ⟨two.acyclic, Equation.andThen assign assignNext, fun typeVar other same => ?_, fun typ => ?_⟩
  · rcases uniform typeVar other same with equal | ⟨isVar, isOther⟩
    · rw [Equation.andThen, Equation.andThen, equal]
      exact .inl rfl
    · rw [Equation.andThen, Equation.andThen, isVar, isOther]
      exact uniformNext typeVar other same
  · rw [resolvesNext, resolves, Equation.bindVars_andThen]

theorem refines_of_write {unifier next : Unifier} (acyclic : unifier.Acyclic)
    (write : Write unifier next) : Refines unifier next := by
  cases write with
  | compress step =>
      have compresses : Compresses unifier next := .single step
      refine ⟨compresses.acyclic acyclic, .var, fun _ _ _ => .inr ⟨rfl, rfl⟩, fun typ => ?_⟩
      rw [compresses.resolve_eq acyclic, Typ.bindVars_var_self]
  | @bind id typ unbound free absent =>
      obtain ⟨rank, ranked⟩ := acyclic
      exact ⟨⟨_, ranked_bindVar ranked unbound free absent⟩, assignOne id typ,
        uniform_assignOne id typ, resolve_bindVar ranked unbound free absent⟩

theorem refines_of_writes {unifier next : Unifier} (acyclic : unifier.Acyclic)
    (writes : Writes unifier next) : Refines unifier next := by
  induction writes with
  | refl => exact ⟨acyclic, .var, fun _ _ _ => .inr ⟨rfl, rfl⟩, fun _ =>
      (Typ.bindVars_var_self _).symm⟩
  | tail _ write hypothesis => exact hypothesis.trans (refines_of_write hypothesis.acyclic write)

/-- A resolved type resolves as the type does. -/
theorem Refines.resolve_resolve {unifier next : Unifier} (acyclic : unifier.Acyclic)
    (refines : Refines unifier next) (typ : Typ) :
    next.resolve (unifier.resolve typ) = next.resolve typ := by
  obtain ⟨rank, ranked⟩ := acyclic
  obtain ⟨assign, -, resolves⟩ := refines.instances
  rw [resolves, resolves, Unifier.resolve_resolve ranked]

/-- The types agree in the table. -/
def AgreeIn (unifier : Unifier) (first second : Typ) : Prop :=
  Typ.Agrees (unifier.resolve first) (unifier.resolve second)

theorem Refines.agreeIn {unifier next : Unifier} (refines : Refines unifier next)
    {first second : Typ} (agree : unifier.AgreeIn first second) : next.AgreeIn first second := by
  obtain ⟨assign, uniform, resolves⟩ := refines.instances
  rw [AgreeIn, resolves, resolves]
  exact agree.bindVars uniform

theorem Refines.resolve_eq {unifier next : Unifier} (refines : Refines unifier next)
    {first second : Typ} (same : unifier.resolve first = unifier.resolve second) :
    next.resolve first = next.resolve second := by
  obtain ⟨assign, -, resolves⟩ := refines.instances
  rw [resolves, resolves, same]

end Unifier

/-! ## What a call does -/

namespace UnifierAction

open StateAction (Ensures)
open Unifier (Writes Refines AgreeIn refines_of_writes writes_of_compresses)

/-- The action only writes as above, and when it succeeds its result meets the goal. -/
def Attempts {Result : Type} (action : UnifierAction Result) (unifier : Unifier)
    (goal : Result → Unifier → Prop) : Prop :=
  action.Ensures unifier fun outcome later =>
    Writes unifier later ∧ ∀ result, outcome = .ok result → goal result later

section Attempts

variable {unifier : Unifier} {First Second : Type}

theorem attempts_pure {goal : First → Unifier → Prop} {result : First}
    (holds : goal result unifier) :
    Attempts (pure result : UnifierAction First) unifier goal := by
  refine StateAction.ensures_pure ⟨.refl, fun other same => ?_⟩
  cases same
  exact holds

theorem attempts_throw {goal : First → Unifier → Prop} {error : TypeError} :
    Attempts (throw error : UnifierAction First) unifier goal :=
  StateAction.ensures_throw ⟨.refl, fun _ absurd => nomatch absurd⟩

theorem Attempts.mono {action : UnifierAction First} {goal weaker : First → Unifier → Prop}
    (attempts : Attempts action unifier goal)
    (implies : ∀ result later, Writes unifier later → goal result later → weaker result later) :
    Attempts action unifier weaker :=
  Ensures.mono attempts fun _ later ⟨writes, holds⟩ =>
    ⟨writes, fun result same => implies result later writes (holds result same)⟩

theorem Attempts.bind {action : UnifierAction First} {next : First → UnifierAction Second}
    {middle : First → Unifier → Prop} {goal : Second → Unifier → Prop}
    (attempts : Attempts action unifier middle)
    (rest : ∀ result later, Writes unifier later → middle result later →
      Attempts (next result) later goal) :
    Attempts (action >>= next) unifier goal := by
  refine Ensures.bind attempts ?_ ?_
  · rintro result later ⟨writes, holds⟩
    exact Ensures.mono (rest result later writes (holds result rfl)) fun _ _ ⟨after, goals⟩ =>
      ⟨writes.trans after, goals⟩
  · rintro error later ⟨writes, -⟩
    exact ⟨writes, fun _ absurd => nomatch absurd⟩

theorem attempts_of_reads {action : UnifierAction First} {value : First}
    (reads : Reads action unifier value) :
    Attempts action unifier fun result later =>
      result = value ∧ Unifier.Compresses unifier later := by
  refine Ensures.mono reads fun outcome later ⟨same, compresses⟩ =>
    ⟨writes_of_compresses compresses, fun result isResult => ?_⟩
  rw [same] at isResult
  cases isResult
  exact ⟨rfl, compresses⟩

end Attempts

/-- What is known of the unifier at the parts of a type. -/
def Unifies (unify : Typ → Typ → UnifierAction Unit) : Prop :=
  ∀ unifier : Unifier, unifier.Acyclic → ∀ first second,
    Attempts (unify first second) unifier fun _ later => later.AgreeIn first second

section Parts

variable {fuel : Nat} {unify : Typ → Typ → UnifierAction Unit} {unifier : Unifier}

theorem attempts_unifyElems (unifies : Unifies unify) (acyclic : unifier.Acyclic)
    (firsts seconds : List Typ) :
    Attempts (unifyElems unify firsts seconds) unifier fun _ later =>
      ∀ pair ∈ firsts.zip seconds, later.AgreeIn pair.1 pair.2 := by
  induction firsts generalizing seconds unifier with
  | nil => exact attempts_pure (by simp)
  | cons first firsts hypothesis =>
      cases seconds with
      | nil => exact attempts_pure (by simp)
      | cons second seconds =>
          refine (unifies unifier acyclic first second).bind fun _ later writes agree => ?_
          have acyclicLater := (refines_of_writes acyclic writes).acyclic
          refine (hypothesis acyclicLater seconds).mono fun _ last after each => ?_
          exact List.forall_mem_cons.mpr
            ⟨(refines_of_writes acyclicLater after).agreeIn agree, each⟩

theorem attempts_unifyFields (unifies : Unifies unify) (acyclic : unifier.Acyclic)
    (fields fields' : List (Symbol × Typ)) :
    Attempts (unifyFields unify fields fields') unifier fun _ later =>
      ∀ pair ∈ fields.zip fields', pair.1.1 = pair.2.1 ∧ later.AgreeIn pair.1.2 pair.2.2 := by
  induction fields generalizing fields' unifier with
  | nil => exact attempts_pure (by simp)
  | cons field fields hypothesis =>
      cases fields' with
      | nil => exact attempts_pure (by simp)
      | cons field' fields' =>
          obtain ⟨name, typ⟩ := field
          obtain ⟨name', typ'⟩ := field'
          rw [unifyFields]
          by_cases same : name = name'
          · rw [if_neg (not_not_intro same)]
            refine (unifies unifier acyclic typ typ').bind fun _ later writes agree => ?_
            have acyclicLater := (refines_of_writes acyclic writes).acyclic
            refine (hypothesis acyclicLater fields').mono fun _ last after each => ?_
            exact List.forall_mem_cons.mpr
              ⟨⟨same, (refines_of_writes acyclicLater after).agreeIn agree⟩, each⟩
          · rw [if_pos same]
            exact attempts_throw

theorem attempts_unifyWithFirst (unifies : Unifies unify) (acyclic : unifier.Acyclic)
    (first : Typ) (fields : List (Symbol × Typ)) :
    Attempts (unifyWithFirst unify first fields) unifier fun _ later =>
      ∀ field ∈ fields, later.AgreeIn first field.2 := by
  induction fields generalizing unifier with
  | nil => exact attempts_pure (by simp)
  | cons field fields hypothesis =>
      refine (unifies unifier acyclic first field.2).bind fun _ later writes agree => ?_
      have acyclicLater := (refines_of_writes acyclic writes).acyclic
      refine (hypothesis acyclicLater).mono fun _ last after each => ?_
      exact List.forall_mem_cons.mpr
        ⟨(refines_of_writes acyclicLater after).agreeIn agree, each⟩

/-- The element type of a record resolves as that of its first field. -/
theorem attempts_elements (unifies : Unifies unify) (acyclic : unifier.Acyclic)
    (fields : List (Symbol × Typ)) (arg : Typ) :
    Attempts (do
      let elemTy ← recordElemType fuel unify fields
      unify arg elemTy) unifier fun _ later =>
        ∃ name first rest, fields = (name, first) :: rest ∧
          (∀ field ∈ rest, later.AgreeIn first field.2) ∧ later.AgreeIn arg first := by
  cases fields with
  | nil => exact attempts_throw
  | cons field rest =>
      obtain ⟨name, first⟩ := field
      rw [recordElemType, bind_assoc]
      refine (attempts_unifyWithFirst unifies acyclic first rest).bind
        fun _ later writes elems => ?_
      have acyclicLater := (refines_of_writes acyclic writes).acyclic
      refine (attempts_of_reads (reads_prune acyclicLater fuel first)).bind ?_
      rintro _ pruned writesPruned ⟨rfl, compresses⟩
      have acyclicPruned := compresses.acyclic acyclicLater
      refine (unifies pruned acyclicPruned arg _).mono fun _ last after agree => ?_
      have refines := refines_of_writes acyclicLater (writesPruned.trans after)
      refine ⟨name, first, rest, rfl, fun field member => refines.agreeIn (elems field member), ?_⟩
      rw [AgreeIn, refines.resolve_resolve acyclicLater] at agree
      exact agree

/-- A record and an applied type agree when the head is the dictionary and the elements
agree. -/
def ElementsAgree (unifier : Unifier) (fields : List (Symbol × Typ)) (head arg : Typ) : Prop :=
  unifier.resolve head = .builtin .dict ∧ ∃ name first rest, fields = (name, first) :: rest ∧
    (∀ field ∈ rest, unifier.AgreeIn first field.2) ∧ unifier.AgreeIn arg first

theorem attempts_unifyRecordApp (unifies : Unifies unify) (acyclic : unifier.Acyclic)
    (fields : List (Symbol × Typ)) (head arg : Typ) (mismatch : TypeError) :
    Attempts (unifyRecordApp fuel unify fields head arg mismatch) unifier fun _ later =>
      ElementsAgree later fields head arg := by
  cases head with
  | con const =>
      rw [unifyRecordApp]
      by_cases isDict : const = .builtin .dict
      · rw [if_pos isDict, isDict]
        exact (attempts_elements unifies acyclic fields arg).mono fun _ _ _ agree => ⟨rfl, agree⟩
      · rw [if_neg isDict]
        exact attempts_throw
  | var typeVar =>
      refine (unifies unifier acyclic (.var typeVar) (.builtin .dict)).bind
        fun _ later writes agree => ?_
      have acyclicLater := (refines_of_writes acyclic writes).acyclic
      have isDict : later.resolve (.var typeVar) = .builtin .dict := by
        rw [AgreeIn, show later.resolve (.builtin .dict) = .builtin .dict from rfl] at agree
        generalize later.resolve (.var typeVar) = resolved at agree
        cases agree
        rfl
      refine (attempts_elements unifies acyclicLater fields arg).mono fun _ last after agree => ?_
      refine ⟨?_, agree⟩
      obtain ⟨assign, -, resolves⟩ := (refines_of_writes acyclicLater after).instances
      rw [resolves, isDict, Typ.bindVars_builtin]
  | app _ _ | func _ _ | tuple _ | record _ => exact attempts_throw

theorem ElementsAgree.agreeIn {fields : List (Symbol × Typ)} {head arg : Typ}
    (agree : ElementsAgree unifier fields head arg) :
    unifier.AgreeIn (.record fields) (.app head arg) ∧
      unifier.AgreeIn (.app head arg) (.record fields) := by
  obtain ⟨isDict, name, first, rest, rfl, elems, args⟩ := agree
  have elemsAgree : ∀ field ∈ rest.map (fun field => (field.1, unifier.resolve field.2)),
      Typ.Agrees (unifier.resolve first) field.2 := by
    intro field member
    obtain ⟨before, isField, rfl⟩ := List.mem_map.mp member
    exact elems before isField
  have isApp : unifier.resolve (.app head arg) = .app (.builtin .dict) (unifier.resolve arg) := by
    rw [← isDict]
    rfl
  have isRecord : unifier.resolve (.record ((name, first) :: rest)) =
      .record ((name, unifier.resolve first) ::
        rest.map fun field => (field.1, unifier.resolve field.2)) := by
    rw [Unifier.resolve, Typ.bindVars_record]
    rfl
  rw [AgreeIn, AgreeIn, isApp, isRecord]
  exact ⟨.recordDict elemsAgree args, .dictRecord elemsAgree args⟩

/-- A variable that is not in a resolved type is bound to it. -/
theorem attempts_unifyVar (acyclic : unifier.Acyclic) {typeVar : TypeVar} {other : Typ}
    (isUnbound : unifier.resolve (.var typeVar) = .var typeVar)
    (resolved : unifier.resolve other = other) :
    Attempts (unifyVar fuel typeVar other) unifier fun _ later =>
      later.resolve (.var typeVar) = later.resolve other := by
  rw [unifyVar]
  refine (attempts_of_reads (reads_occurs acyclic fuel typeVar.id other)).bind ?_
  rintro _ later writes ⟨rfl, compresses⟩
  rw [resolved]
  by_cases occurring : typeVar.id ∈ other.ftv
  · rw [decide_eq_true occurring]
    exact attempts_throw
  · rw [decide_eq_false occurring]
    obtain ⟨rank, ranked⟩ := compresses.acyclic acyclic
    have unbound : later.lookup typeVar.id = none := by
      rw [Unifier.lookup_eq_none_iff ranked typeVar, compresses.resolve_eq acyclic]
      exact isUnbound
    have free : ∀ id ∈ other.ftv, later.lookup id = none := by
      intro id member
      refine @Unifier.unbound_of_mem_resolve _ _ ranked other id ?_
      rw [compresses.resolve_eq acyclic, resolved]
      exact member
    have write : Unifier.Write later (later.bindVar typeVar.id other) :=
      .bind unbound free occurring
    refine ensures_bindVar ⟨.single write, fun _ _ => ?_⟩
    have newRanked := Unifier.ranked_bindVar ranked unbound free occurring
    exact Unifier.resolve_var_of_bound newRanked (by simp)

/-- Two calls, one after the other. -/
theorem attempts_pair (unifies : Unifies unify) (acyclic : unifier.Acyclic)
    (one one' two two' : Typ) :
    Attempts (do
      unify one one'
      unify two two') unifier fun _ later =>
        later.AgreeIn one one' ∧ later.AgreeIn two two' := by
  refine (unifies unifier acyclic one one').bind fun _ later writes agree => ?_
  have acyclicLater := (refines_of_writes acyclic writes).acyclic
  exact (unifies later acyclicLater two two').mono fun _ last after agreeTwo =>
    ⟨(refines_of_writes acyclicLater after).agreeIn agree, agreeTwo⟩

theorem agreeIn_of_eq {first second : Typ}
    (same : unifier.resolve first = unifier.resolve second) : unifier.AgreeIn first second := by
  rw [AgreeIn, same]
  exact .refl _

theorem agreeIn_tuple {elems elems' : List Typ} (sameLength : elems.length = elems'.length)
    (each : ∀ pair ∈ elems.zip elems', unifier.AgreeIn pair.1 pair.2) :
    unifier.AgreeIn (.tuple elems) (.tuple elems') := by
  rw [AgreeIn, Unifier.resolve, Unifier.resolve, Typ.bindVars_tuple, Typ.bindVars_tuple]
  refine .tuple (by simpa using sameLength) fun pair member => ?_
  rw [List.zip_map] at member
  obtain ⟨before, isPair, rfl⟩ := List.mem_map.mp member
  exact each before isPair

theorem agreeIn_record {fields fields' : List (Symbol × Typ)}
    (sameLength : fields.length = fields'.length)
    (each : ∀ pair ∈ fields.zip fields',
      pair.1.1 = pair.2.1 ∧ unifier.AgreeIn pair.1.2 pair.2.2) :
    unifier.AgreeIn (.record fields) (.record fields') := by
  rw [AgreeIn, Unifier.resolve, Unifier.resolve, Typ.bindVars_record, Typ.bindVars_record]
  refine .record (by simpa using sameLength) (fun pair member => ?_) fun pair member => ?_
  all_goals
    rw [List.zip_map] at member
    obtain ⟨before, isPair, rfl⟩ := List.mem_map.mp member
  · exact (each before isPair).1
  · exact (each before isPair).2

theorem attempts_unifyPruned (unifies : Unifies unify) (acyclic : unifier.Acyclic)
    {first second : Typ} (resolvedFirst : unifier.resolve first = first)
    (resolvedSecond : unifier.resolve second = second) :
    Attempts (unifyPruned fuel unify first second) unifier fun _ later =>
      later.AgreeIn first second := by
  have onVar : ∀ {typeVar : TypeVar} {other : Typ},
      unifier.resolve (.var typeVar) = .var typeVar → unifier.resolve other = other →
      Attempts (unifyVar fuel typeVar other) unifier fun _ later =>
        later.AgreeIn (.var typeVar) other ∧ later.AgreeIn other (.var typeVar) :=
    fun isUnbound resolved => (attempts_unifyVar acyclic isUnbound resolved).mono
      fun _ _ _ same => ⟨agreeIn_of_eq same, agreeIn_of_eq same.symm⟩
  have onFirst : ∀ {typeVar : TypeVar}, first = .var typeVar →
      Attempts (unifyVar fuel typeVar second) unifier fun _ later =>
        later.AgreeIn first second := by
    rintro typeVar rfl
    exact (onVar resolvedFirst resolvedSecond).mono fun _ _ _ agree => agree.1
  have onSecond : ∀ {typeVar : TypeVar}, second = .var typeVar →
      Attempts (unifyVar fuel typeVar first) unifier fun _ later =>
        later.AgreeIn first second := by
    rintro typeVar rfl
    exact (onVar resolvedSecond resolvedFirst).mono fun _ _ _ agree => agree.2
  cases first with
  | var typeVar =>
      cases second with
      | var typeVar' =>
          rw [unifyPruned]
          by_cases same : typeVar.id = typeVar'.id
          · rw [if_pos same]
            refine attempts_pure ?_
            rw [AgreeIn, resolvedFirst, resolvedSecond]
            exact .var same
          · rw [if_neg same]
            exact onFirst rfl
      | con _ | app _ _ | func _ _ | tuple _ | record _ => exact onFirst rfl
  | con const =>
      cases second with
      | var typeVar => exact onSecond rfl
      | con const' =>
          rw [unifyPruned]
          by_cases same : const = const'
          · rw [if_pos same, same]
            exact attempts_pure (.con const')
          · rw [if_neg same]
            exact attempts_throw
      | app _ _ | func _ _ | tuple _ | record _ => exact attempts_throw
  | app head arg =>
      cases second with
      | var typeVar => exact onSecond rfl
      | app head' arg' =>
          exact (attempts_pair unifies acyclic head head' arg arg').mono
            fun _ _ _ ⟨heads, args⟩ => .app heads args
      | record fields =>
          exact (attempts_unifyRecordApp unifies acyclic fields head arg _).mono
            fun _ _ _ agree => agree.agreeIn.2
      | con _ | func _ _ | tuple _ => exact attempts_throw
  | func arg ret =>
      cases second with
      | var typeVar => exact onSecond rfl
      | func arg' ret' =>
          exact (attempts_pair unifies acyclic arg arg' ret ret').mono
            fun _ _ _ ⟨args, rets⟩ => .func args rets
      | con _ | app _ _ | tuple _ | record _ => exact attempts_throw
  | tuple elems =>
      cases second with
      | var typeVar => exact onSecond rfl
      | tuple elems' =>
          rw [unifyPruned]
          by_cases sameLength : elems.length = elems'.length
          · rw [if_neg (not_not_intro sameLength)]
            exact (attempts_unifyElems unifies acyclic elems elems').mono
              fun _ _ _ => agreeIn_tuple sameLength
          · rw [if_pos sameLength]
            exact attempts_throw
      | con _ | app _ _ | func _ _ | record _ => exact attempts_throw
  | record fields =>
      cases second with
      | var typeVar => exact onSecond rfl
      | app head arg =>
          exact (attempts_unifyRecordApp unifies acyclic fields head arg _).mono
            fun _ _ _ agree => agree.agreeIn.1
      | record fields' =>
          rw [unifyPruned]
          by_cases sameLength : fields.length = fields'.length
          · rw [if_neg (not_not_intro sameLength)]
            exact (attempts_unifyFields unifies acyclic fields fields').mono
              fun _ _ _ => agreeIn_record sameLength
          · rw [if_pos sameLength]
            exact attempts_throw
      | con _ | func _ _ | tuple _ => exact attempts_throw

end Parts

/-- A call of `unify` only writes as above, and what it unified agrees. -/
theorem unifies_unify (fuel : Nat) : Unifies (unify fuel) := by
  induction fuel with
  | zero => exact fun _ _ _ _ => StateAction.ensures_never
  | succ fuel hypothesis =>
      intro unifier acyclic first second
      rw [unify]
      refine (attempts_of_reads (reads_prune acyclic fuel first)).bind ?_
      rintro _ middle writesFirst ⟨rfl, compressesFirst⟩
      have acyclicMiddle := compressesFirst.acyclic acyclic
      refine (attempts_of_reads (reads_prune acyclicMiddle fuel second)).bind ?_
      rintro _ later writesSecond ⟨rfl, compressesSecond⟩
      have acyclicLater := compressesSecond.acyclic acyclicMiddle
      have compresses : Unifier.Compresses unifier later := compressesFirst.trans compressesSecond
      have resolved : ∀ typ, later.resolve (unifier.resolve typ) = unifier.resolve typ := by
        intro typ
        rw [compresses.resolve_eq acyclic]
        obtain ⟨rank, ranked⟩ := acyclic
        exact Unifier.resolve_resolve ranked typ
      rw [compressesFirst.resolve_eq acyclic]
      refine (attempts_unifyPruned hypothesis acyclicLater (resolved first)
        (resolved second)).mono fun _ last after agree => ?_
      have refines := refines_of_writes acyclic
        ((writesFirst.trans writesSecond).trans after)
      rw [AgreeIn, refines.resolve_resolve acyclic, refines.resolve_resolve acyclic] at agree
      exact agree

end UnifierAction

/-! ## Runs -/

namespace Unifier

/-- A call on the unifier. -/
inductive Call where
  | unify (first second : Typ)
  | prune (typ : Typ)
  | occurs (id : TypeVarId) (typ : Typ)

/-- What a call does, without its result. -/
def run (fuel : Nat) : Call → UnifierAction Unit
  | .unify first second => UnifierAction.unify fuel first second
  | .prune typ => do
      let _ ← UnifierAction.prune fuel typ
      return ()
  | .occurs id typ => do
      let _ ← UnifierAction.occurs fuel id typ
      return ()

theorem attempts_run {unifier : Unifier} (acyclic : unifier.Acyclic) (fuel : Nat) (call : Call) :
    UnifierAction.Attempts (run fuel call) unifier fun _ _ => True := by
  cases call with
  | unify first second =>
      exact (UnifierAction.unifies_unify fuel unifier acyclic first second).mono
        fun _ _ _ _ => trivial
  | prune typ =>
      have reads := UnifierAction.reads_prune acyclic fuel typ
      exact (UnifierAction.attempts_of_reads reads).bind
        fun _ _ _ _ => UnifierAction.attempts_pure trivial
  | occurs id typ =>
      have reads := UnifierAction.reads_occurs acyclic fuel id typ
      exact (UnifierAction.attempts_of_reads reads).bind
        fun _ _ _ _ => UnifierAction.attempts_pure trivial

/-- A call, successful or not, leaves the next table. -/
def Called (unifier next : Unifier) : Prop :=
  ∃ call fuel outcome, run fuel call unifier = some (outcome, next)

abbrev Calls : Unifier → Unifier → Prop :=
  Relation.ReflTransGen Called

theorem writes_of_called {unifier next : Unifier} (acyclic : unifier.Acyclic)
    (called : Called unifier next) : Writes unifier next := by
  obtain ⟨call, fuel, outcome, ended⟩ := called
  exact (attempts_run acyclic fuel call outcome next ended).1

theorem writes_of_calls {unifier next : Unifier} (acyclic : unifier.Acyclic)
    (calls : Calls unifier next) : Writes unifier next := by
  induction calls with
  | refl => exact .refl
  | tail _ called hypothesis =>
      have middle := (refines_of_writes acyclic hypothesis).acyclic
      have both : Writes _ _ := hypothesis.trans (writes_of_called middle called)
      exact both

/-- The edges of the binding graph: a variable is bound to a type with the other. -/
def BindsTo (unifier : Unifier) (id other : TypeVarId) : Prop :=
  ∃ typ, unifier.lookup id = some typ ∧ other ∈ typ.ftv

theorem Acyclic.not_bindsTo_self {unifier : Unifier} (acyclic : unifier.Acyclic) (id : TypeVarId) :
    ¬Relation.TransGen unifier.BindsTo id id := by
  obtain ⟨rank, ranked⟩ := acyclic
  have decreases : ∀ {first last}, Relation.TransGen unifier.BindsTo first last →
      rank last < rank first := by
    intro first last path
    induction path with
    | single step =>
        obtain ⟨typ, found, member⟩ := step
        exact ranked.lt _ typ found _ member
    | tail _ step hypothesis =>
        obtain ⟨typ, found, member⟩ := step
        exact (ranked.lt _ typ found _ member).trans hypothesis
  exact fun cycle => lt_irrefl _ (decreases cycle)

/-- Writes keep a variable bound, to a type that resolves as the one before. -/
theorem exists_rebound {unifier next : Unifier} (acyclic : unifier.Acyclic)
    (writes : Writes unifier next) {id : TypeVarId} {bound : Typ}
    (found : unifier.lookup id = some bound) :
    ∃ rebound, next.lookup id = some rebound ∧ next.resolve rebound = next.resolve bound := by
  have isBound : (next.lookup id).isSome := by
    induction writes with
    | refl => rw [found]; rfl
    | tail _ write hypothesis =>
        cases write with
        | compress step => exact Compresses.isSome_lookup (.single step) hypothesis
        | bind _ _ _ =>
            rw [lookup_bindVar]
            split
            · rfl
            · exact hypothesis
  obtain ⟨rebound, isRebound⟩ := Option.isSome_iff_exists.mp isBound
  have refines := refines_of_writes acyclic writes
  obtain ⟨rank, ranked⟩ := acyclic
  obtain ⟨rankNext, rankedNext⟩ := refines.acyclic
  have same : unifier.resolve (.var ⟨id, none⟩) = unifier.resolve bound :=
    resolve_var_of_bound ranked found
  refine ⟨rebound, isRebound, ?_⟩
  rw [← refines.resolve_eq same]
  exact (@resolve_var_of_bound _ _ rankedNext ⟨id, none⟩ _ isRebound).symm

/-! ## The invariants -/

/-- What holds of the table between two calls. -/
structure Invariants (unifier : Unifier) : Prop where
  /-- No variable is bound, through the bindings, to a type with itself. -/
  noCycle : ∀ id, ¬Relation.TransGen unifier.BindsTo id id
  /-- `prune` ends. -/
  ends : ∀ typ, ∃ fuel result, UnifierAction.prune fuel typ unifier = some result
  /-- `prune` returns the resolved type, whose variables are unbound, and resolves no type
  otherwise than before. -/
  prunes : ∀ fuel typ outcome later,
    UnifierAction.prune fuel typ unifier = some (outcome, later) →
      outcome = .ok (unifier.resolve typ) ∧
      (∀ id ∈ (unifier.resolve typ).ftv, unifier.lookup id = none) ∧
      ∀ other, later.resolve other = unifier.resolve other
  /-- `occurs` looks through the bindings, and resolves no type otherwise than before. -/
  searches : ∀ fuel id typ outcome later,
    UnifierAction.occurs fuel id typ unifier = some (outcome, later) →
      outcome = .ok (decide (id ∈ (unifier.resolve typ).ftv)) ∧
      ∀ other, later.resolve other = unifier.resolve other
  /-- A call only compresses bindings and binds unbound variables. -/
  writes : ∀ next, Called unifier next → Writes unifier next
  /-- A compression in the course of a call resolves no type otherwise than before. -/
  compresses : ∀ middle, Writes unifier middle → ∀ next, Compress middle next →
    ∀ typ, next.resolve typ = middle.resolve typ
  /-- A call that replaces a binding does so by a type that resolves as the one before. -/
  rebinds : ∀ next, Called unifier next → ∀ id bound, unifier.lookup id = some bound →
    ∃ rebound, next.lookup id = some rebound ∧ next.resolve rebound = next.resolve bound
  /-- Types that a call unifies agree after every later call. -/
  unifies : ∀ fuel first second after,
    UnifierAction.unify fuel first second unifier = some (.ok (), after) →
      ∀ next, Calls after next → next.AgreeIn first second
  /-- `into_subst` ends. -/
  concludes : ∃ fuel result, UnifierAction.intoSubst fuel unifier = some result
  /-- `into_subst` returns a substitution that resolves every type, and changes no type that
  it has resolved. -/
  intoSubst : ∀ fuel outcome later,
    UnifierAction.intoSubst fuel unifier = some (outcome, later) →
      ∃ subst, outcome = .ok subst ∧ (∀ typ : Typ, typ.apply subst = unifier.resolve typ) ∧
        ∀ typ : Typ, (typ.apply subst).apply subst = typ.apply subst

theorem Acyclic.invariants {unifier : Unifier} (acyclic : unifier.Acyclic) :
    unifier.Invariants where
  noCycle := acyclic.not_bindsTo_self
  ends := by
    intro typ
    obtain ⟨fuel, later, ended⟩ := UnifierAction.exists_prune acyclic typ
    exact ⟨fuel, _, ended⟩
  prunes := by
    intro fuel typ outcome later ended
    obtain ⟨same, compresses⟩ := UnifierAction.reads_prune acyclic fuel typ outcome later ended
    refine ⟨same, fun id member => ?_, compresses.resolve_eq acyclic⟩
    obtain ⟨rank, ranked⟩ := acyclic
    exact unbound_of_mem_resolve ranked member
  searches := by
    intro fuel id typ outcome later ended
    obtain ⟨same, compresses⟩ := UnifierAction.reads_occurs acyclic fuel id typ outcome later ended
    exact ⟨same, compresses.resolve_eq acyclic⟩
  writes := fun _ => writes_of_called acyclic
  compresses := by
    intro middle writes next step
    have compresses : Compresses middle next := .single step
    exact compresses.resolve_eq (refines_of_writes acyclic writes).acyclic
  rebinds := fun _ called _ _ => exists_rebound acyclic (writes_of_called acyclic called)
  unifies := by
    intro fuel first second after ended next calls
    obtain ⟨writes, agree⟩ := UnifierAction.unifies_unify fuel unifier acyclic first second _ _ ended
    have acyclicAfter := (refines_of_writes acyclic writes).acyclic
    have refines := refines_of_writes acyclicAfter (writes_of_calls acyclicAfter calls)
    exact refines.agreeIn (agree () rfl)
  concludes := by
    obtain ⟨fuel, subst, later, ended⟩ := UnifierAction.exists_intoSubst acyclic
    exact ⟨fuel, _, ended⟩
  intoSubst := by
    intro fuel outcome later ended
    obtain ⟨subst, same, resolves⟩ :=
      UnifierAction.ensures_intoSubst acyclic fuel outcome later ended
    refine ⟨subst, same, resolves, fun typ => ?_⟩
    obtain ⟨rank, ranked⟩ := acyclic
    rw [resolves, resolves, resolve_resolve ranked]

/-- The invariants hold after every sequence of calls on an empty unifier. -/
theorem invariants_of_calls {unifier : Unifier} (calls : Calls .empty unifier) :
    unifier.Invariants :=
  (refines_of_writes acyclic_empty (writes_of_calls acyclic_empty calls)).acyclic.invariants

/-- A call that fails at the second elements, with the variable at the first bound. -/
theorem invariants_after_failure :
    ∃ unifier : Unifier,
      (∃ error, run 4 (.unify (.tuple [.var ⟨0, none⟩, .builtin .i32])
        (.tuple [.builtin .bool, .builtin .bool])) .empty = some (.error error, unifier)) ∧
      unifier.lookup 0 = some (.builtin .bool) ∧ unifier.Invariants := by
  refine ⟨bindVar .empty 0 (.builtin .bool), ⟨_, rfl⟩, by rfl, ?_⟩
  exact invariants_of_calls (.single ⟨.unify (.tuple [.var ⟨0, none⟩, .builtin .i32])
    (.tuple [.builtin .bool, .builtin .bool]), 4, _, rfl⟩)

end Unifier

end RexLang
