import RexLang.ClassDeclarations
import RexLang.SymbolMaps

/-!
# Effects of registrations

How a registration runs, and what an accepted declaration of a class or of an
instance does to the class environment.
-/

namespace RexLang

namespace RegisterM

variable {First Second : Type} {system after : TypeSystem}

/-! ## Running -/

@[simp]
theorem runFrom_get : runFrom system (get : RegisterM TypeSystem) = (.ok system, system) := rfl

@[simp]
theorem runFrom_set (next : TypeSystem) :
    runFrom system (set next : RegisterM PUnit) = (.ok ⟨⟩, next) := rfl

@[simp]
theorem runFrom_modify (change : TypeSystem → TypeSystem) :
    runFrom system (modify change : RegisterM PUnit) = (.ok ⟨⟩, change system) := rfl

theorem runFrom_bind (registration : RegisterM First) (next : First → RegisterM Second) :
    runFrom system (registration >>= next) =
      match runFrom system registration with
      | (.ok result, between) => runFrom between (next result)
      | (.error error, between) => (.error error, between) := by
  simp only [runFrom, ExceptT.run_bind, StateT.run_bind]
  rcases (ExceptT.run registration).run system with ⟨result | result, between⟩
  · rfl
  · rfl

theorem runFrom_bind_ok {registration : RegisterM First} {next : First → RegisterM Second}
    {result : Second} :
    runFrom system (registration >>= next) = (.ok result, after) ↔
      ∃ value between, runFrom system registration = (.ok value, between) ∧
        runFrom between (next value) = (.ok result, after) := by
  rw [runFrom_bind]
  constructor
  · intro ran
    split at ran
    · next value between first => exact ⟨value, between, first, ran⟩
    · cases ran
  · rintro ⟨value, between, first, second⟩
    rw [first]
    exact second

theorem runFrom_withSpan (span : Span) (registration : RegisterM First) :
    runFrom system (withSpan span registration) =
      ((runFrom system registration).1.mapError (DeclError.withSpan span),
        (runFrom system registration).2) := rfl

theorem runFrom_withSpan_ok {span : Span} {registration : RegisterM First} {result : First} :
    runFrom system (withSpan span registration) = (.ok result, after) ↔
      runFrom system registration = (.ok result, after) := by
  rw [runFrom_withSpan]
  rcases runFrom system registration with ⟨error | value, between⟩
  · simp [Except.mapError]
  · simp [Except.mapError]

/-! ## The class environment -/

/-- The class environment and the information on classes stay. -/
def KeepsClasses (registration : RegisterM First) : Prop :=
  ∀ system, (runFrom system registration).2.classes = system.classes ∧
    (runFrom system registration).2.classInfo = system.classInfo

theorem keepsClasses_pure (result : First) : KeepsClasses (pure result : RegisterM First) :=
  fun _ => ⟨rfl, rfl⟩

theorem keepsClasses_throw (error : DeclError) : KeepsClasses (throw error : RegisterM First) :=
  fun _ => ⟨rfl, rfl⟩

theorem keepsClasses_get : KeepsClasses (get : RegisterM TypeSystem) :=
  fun _ => ⟨rfl, rfl⟩

theorem keepsClasses_bind {registration : RegisterM First} {next : First → RegisterM Second}
    (keeps : KeepsClasses registration) (rest : ∀ result, KeepsClasses (next result)) :
    KeepsClasses (registration >>= next) := by
  intro system
  have kept := keeps system
  rw [runFrom_bind]
  rcases ran : runFrom system registration with ⟨error | result, between⟩
  · rw [ran] at kept
    exact kept
  · rw [ran] at kept
    obtain ⟨sameClasses, sameInfo⟩ := kept
    obtain ⟨nextClasses, nextInfo⟩ := rest result between
    exact ⟨nextClasses.trans sameClasses, nextInfo.trans sameInfo⟩

theorem keepsClasses_ofExcept (outcome : Except TypeError First) :
    KeepsClasses (ofExcept outcome) := by
  cases outcome with
  | ok result => exact keepsClasses_pure result
  | error error => exact keepsClasses_throw _

theorem keepsClasses_fresh (nameHint : Option Symbol) : KeepsClasses (fresh nameHint) :=
  fun _ => ⟨rfl, rfl⟩

theorem keepsClasses_annotatedType (expr : TypeExpr) (vars : SymbolMap TypeVar) :
    KeepsClasses <| typeFromAnnotation expr vars :=
  keepsClasses_bind keepsClasses_get fun _ => keepsClasses_ofExcept _

theorem keepsClasses_extendTypeParams (vars : SymbolMap TypeVar) (params : List Symbol) :
    KeepsClasses (extendTypeParams vars params) := by
  intro system
  rw [extendTypeParams, runFrom_bind, runFrom_get]
  dsimp only
  rw [runFrom_bind, runFrom_set]
  exact keepsClasses_ofExcept _ { system with supply := _ }

end RegisterM

namespace TypeSystem

open RegisterM

variable {system after : TypeSystem} {decl : ClassDecl}

theorem keepsClasses_superclassName (param : Symbol) (sup : TypeConstraint) :
    KeepsClasses (superclassName param sup) := by
  refine keepsClasses_bind (keepsClasses_fresh _) fun paramTv => ?_
  refine keepsClasses_bind (keepsClasses_annotatedType _ _) fun supTy => ?_
  split
  · exact keepsClasses_throw _
  · exact keepsClasses_pure _

theorem keepsClasses_mapM {Element Result : Type} {function : Element → RegisterM Result}
    (each : ∀ element, KeepsClasses (function element)) (elements : List Element) :
    KeepsClasses (elements.mapM function) := by
  induction elements with
  | nil => exact keepsClasses_pure []
  | cons element elements hypothesis =>
      rw [List.mapM_cons]
      exact keepsClasses_bind (each element) fun _ =>
        keepsClasses_bind hypothesis fun _ => keepsClasses_pure _

theorem keepsClasses_superclassNames (supers : List TypeConstraint) (params : List Symbol) :
    KeepsClasses (superclassNames supers params) := by
  unfold superclassNames
  split
  · exact keepsClasses_mapM (keepsClasses_superclassName _) supers
  · split
    · exact keepsClasses_pure _
    · exact keepsClasses_throw _

theorem keepsClasses_classParamVars (params : List Symbol) (vars : SymbolMap TypeVar) :
    KeepsClasses (classParamVars params vars) := by
  induction params generalizing vars with
  | nil => exact keepsClasses_pure _
  | cons param params hypothesis =>
      exact keepsClasses_bind (keepsClasses_fresh _) fun typeVar =>
        keepsClasses_bind (hypothesis _) fun _ => keepsClasses_pure _

theorem keepsClasses_methodScheme (decl : ClassDecl) (method : ClassMethodSig) :
    KeepsClasses (methodScheme decl method) :=
  keepsClasses_bind (keepsClasses_classParamVars _ _) fun _ =>
    keepsClasses_bind (keepsClasses_extendTypeParams _ _) fun _ =>
      keepsClasses_bind (keepsClasses_annotatedType _ _) fun _ => keepsClasses_pure _

theorem keepsClasses_registerClassMethods (decl : ClassDecl) (methods : List ClassMethodSig)
    (schemes : SymbolMap Scheme) : KeepsClasses (registerClassMethods decl methods schemes) := by
  induction methods generalizing schemes with
  | nil => exact keepsClasses_pure _
  | cons method methods hypothesis =>
      refine keepsClasses_bind keepsClasses_get fun system => ?_
      split
      · exact keepsClasses_throw _
      · refine keepsClasses_bind (keepsClasses_methodScheme decl method) fun scheme => ?_
        exact keepsClasses_bind (fun _ => ⟨rfl, rfl⟩) fun _ => hypothesis _

/-- The superclasses of an accepted declaration. -/
def superNames (decl : ClassDecl) : List Symbol :=
  decl.supers.map fun sup => sup.className.toDottedSymbol

theorem runFrom_superclassName_ok {param : Symbol} {sup : TypeConstraint} {name : Symbol}
    (accepted : runFrom system (superclassName param sup) = (.ok name, after)) :
    name = sup.className.toDottedSymbol := by
  rw [superclassName, runFrom_bind_ok] at accepted
  obtain ⟨_, between, -, accepted⟩ := accepted
  rw [runFrom_bind_ok] at accepted
  obtain ⟨_, last, -, accepted⟩ := accepted
  split at accepted
  · cases accepted
  · cases accepted
    rfl

theorem runFrom_superclassNames_ok {supers : List TypeConstraint} {params : List Symbol}
    {names : List Symbol}
    (accepted : runFrom system (superclassNames supers params) = (.ok names, after)) :
    names = supers.map fun sup => sup.className.toDottedSymbol := by
  unfold superclassNames at accepted
  split at accepted
  · next param =>
      induction supers generalizing system names with
      | nil =>
          cases accepted
          rfl
      | cons sup supers hypothesis =>
          rw [List.mapM_cons, runFrom_bind_ok] at accepted
          obtain ⟨name, between, first, accepted⟩ := accepted
          rw [runFrom_bind_ok] at accepted
          obtain ⟨rest, last, others, accepted⟩ := accepted
          cases accepted
          rw [runFrom_superclassName_ok first, hypothesis others, List.map_cons]
  · split at accepted
    · next isNil =>
        cases accepted
        rw [isNil, List.map_nil]
    · cases accepted

theorem runFrom_registerClassDeclHeader_ok
    (accepted : runFrom system (registerClassDeclHeader decl) = (.ok (), after)) :
    system.classes.classes.lookup decl.name = none ∧
      after = { system with classes := system.classes.addClass decl.name [] } := by
  rw [registerClassDeclHeader, runFrom_bind, runFrom_get] at accepted
  dsimp only at accepted
  split_ifs at accepted with isKnown noParams
  · cases accepted
  · cases accepted
  · cases accepted
    refine ⟨?_, rfl⟩
    rw [not_or, Bool.not_eq_true, Bool.not_eq_true] at isKnown
    exact Option.isSome_eq_false_iff.mp isKnown.2 |> Option.isNone_iff_eq_none.mp

theorem runFrom_registerClassDeclBody_ok
    (accepted : runFrom system (registerClassDeclBody decl) = (.ok (), after)) :
    after.classes = system.classes.addClass decl.name (superNames decl) := by
  rw [registerClassDeclBody, runFrom_withSpan_ok, runFrom_bind, runFrom_get] at accepted
  dsimp only at accepted
  split_ifs at accepted with isKnown
  · cases accepted
  · rw [runFrom_bind_ok] at accepted
    obtain ⟨supers, between, found, accepted⟩ := accepted
    rw [runFrom_bind, runFrom_modify] at accepted
    dsimp only at accepted
    rw [runFrom_bind_ok] at accepted
    obtain ⟨methods, last, registered, accepted⟩ := accepted
    have same := (keepsClasses_superclassNames decl.supers decl.params system).1
    have kept := (keepsClasses_registerClassMethods decl decl.methods []
      { between with classes := between.classes.addClass decl.name supers }).1
    rw [found] at same
    rw [registered] at kept
    cases accepted
    rw [runFrom_superclassNames_ok found] at kept
    rw [← same]
    exact kept

end TypeSystem

end RexLang
