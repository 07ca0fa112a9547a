import Mathlib.Data.List.Destutter
import RexLang.TypeAnnotations

/-!
# Class and instance declarations

The environment of the type system, and the registration of the declarations of
type classes and of their instances.
-/

namespace RexLang

/-! ## Declarations -/

structure ClassMethodSig where
  name : Symbol
  typeParams : List Symbol
  typ : TypeExpr
  docs : Option String

structure ClassDecl where
  span : Span
  name : Symbol
  params : List Symbol
  supers : List TypeConstraint
  methods : List ClassMethodSig
  docs : Option String

structure InstanceMethodImpl where
  name : Symbol
  typeParams : List Symbol
  ann : Option TypeExpr
  body : Expr

structure InstanceDecl where
  span : Span
  typeParams : List Symbol
  className : Symbol
  head : TypeExpr
  context : List TypeConstraint
  methods : List InstanceMethodImpl
  docs : Option String

/-! ## The environment -/

structure Class where
  supers : List Symbol

structure Instance where
  context : List Predicate
  head : Predicate
  docs : Option String

structure ClassEnv where
  classes : SymbolMap Class
  instances : SymbolMap (List Instance)

namespace ClassEnv

/-- `ClassEnv::new`. -/
def new : ClassEnv :=
  ⟨[], []⟩

/-- `add_class`. -/
def addClass (name : Symbol) (supers : List Symbol) (classEnv : ClassEnv) : ClassEnv :=
  { classEnv with classes := classEnv.classes.insert name ⟨supers⟩ }

/-- `add_instance`. -/
def addInstance (className : Symbol) (inst : Instance) (classEnv : ClassEnv) : ClassEnv :=
  { classEnv with
    instances := classEnv.instances.insert className
      ((classEnv.instances.lookup className).getD [] ++ [inst]) }

/-- `supers_of`. -/
def supersOf (classEnv : ClassEnv) (className : Symbol) : List Symbol :=
  ((classEnv.classes.lookup className).map Class.supers).getD []

/-- The instances of a class. -/
def instancesOf (classEnv : ClassEnv) (className : Symbol) : List Instance :=
  (classEnv.instances.lookup className).getD []

end ClassEnv

structure RegisteredValue where
  scheme : Scheme
  params : List Symbol
  docs : Option String

structure ClassInfo where
  name : Symbol
  params : List Symbol
  supers : List Symbol
  methods : SymbolMap Scheme
  docs : Option String

/-- `ClassMethodInfo`, with its docs. -/
structure ClassMethodEntry where
  className : Symbol
  scheme : Scheme
  docs : Option String

/-- The parts of `TypeSystem` that declarations of classes and instances use. -/
structure TypeSystem where
  values : SymbolMap (List RegisteredValue)
  classes : ClassEnv
  adts : SymbolMap AdtDecl
  aliases : SymbolMap TypeAlias
  classInfo : SymbolMap ClassInfo
  classMethods : SymbolMap ClassMethodEntry
  supply : TypeVarSupply

/-- `TypeSystem::new`. -/
def TypeSystem.new : TypeSystem :=
  ⟨[], .new, [], [], [], [], .new⟩

inductive DeclError where
  | type (error : TypeError)
  | duplicateClass (name : Symbol)
  | invalidClassArity (className : Symbol) (got : Nat)
  | duplicateClassMethod (name : Symbol)
  | spanned (span : Span) (error : DeclError)

/-- `with_span`. -/
def DeclError.withSpan (span : Span) : DeclError → DeclError
  | .type error => .type (error.withSpan span)
  | .spanned inner error => .spanned inner error
  | error => .spanned span error

/-! ## Registration -/

/-- A registration: an error leaves the changes made before it. -/
abbrev RegisterM := ExceptT DeclError (StateM TypeSystem)

namespace RegisterM

/-- The outcome of a registration and the type system that it leaves. -/
def runFrom {Result : Type} (system : TypeSystem) (registration : RegisterM Result) :
    Except DeclError Result × TypeSystem :=
  (ExceptT.run registration).run system

/-- A computation on types. -/
def ofExcept {Result : Type} : Except TypeError Result → RegisterM Result
  | .ok result => pure result
  | .error error => throw (.type error)

/-- `map_err` with a span. -/
def withSpan {Result : Type} (span : Span) (registration : RegisterM Result) : RegisterM Result :=
  ExceptT.adapt (DeclError.withSpan span) registration

/-- `fresh`. -/
def fresh (nameHint : Option Symbol) : RegisterM TypeVar := do
  let system ← get
  let (typeVar, supply) := system.supply.fresh nameHint
  set { system with supply := supply }
  return typeVar

/-- `extend_type_params`. -/
def extendTypeParams (vars : SymbolMap TypeVar) (params : List Symbol) :
    RegisterM (SymbolMap TypeVar) := do
  let system ← get
  let (result, supply) := RexLang.extendTypeParams params vars system.supply
  set { system with supply := supply }
  ofExcept result

/-- `type_from_annotation_expr_vars`. -/
def typeFromAnnotation (expr : TypeExpr) (vars : SymbolMap TypeVar) : RegisterM Typ := do
  let system ← get
  ofExcept (typeFromAnnotationExprVars system.adts system.aliases vars expr)

end RegisterM

namespace TypeSystem

open RegisterM

/-- `register_class_decl_header`. -/
def registerClassDeclHeader (decl : ClassDecl) : RegisterM Unit := do
  let system ← get
  if (system.classInfo.lookup decl.name).isSome ∨
      (system.classes.classes.lookup decl.name).isSome then
    throw (.duplicateClass decl.name)
  else if decl.params = [] then throw (.invalidClassArity decl.name decl.params.length)
  else set { system with classes := system.classes.addClass decl.name [] }

/-- A superclass, which has to constrain the parameter. -/
def superclassName (param : Symbol) (sup : TypeConstraint) : RegisterM Symbol := do
  let paramTv ← fresh (some param)
  let supTy ← typeFromAnnotation sup.typ [(param, paramTv)]
  if supTy ≠ .var paramTv then
    throw (.type (.unsupportedExpr "superclass constraints must be of the form \x60<= C a\x60"))
  else return sup.className.toDottedSymbol

/-- The superclasses of a class with these parameters. -/
def superclassNames (supers : List TypeConstraint) : List Symbol → RegisterM (List Symbol)
  | [param] => supers.mapM (superclassName param)
  | _ =>
      if supers = [] then return []
      else throw (.type (.unsupportedExpr
        "multi-parameter classes cannot declare superclasses yet"))

/-- Fresh variables for the parameters of a class, by name and in order. -/
def classParamVars : List Symbol → SymbolMap TypeVar →
    RegisterM (SymbolMap TypeVar × List TypeVar)
  | [], vars => return (vars, [])
  | param :: params, vars => do
      let typeVar ← fresh (some param)
      let (vars, typeVars) ← classParamVars params (vars.insert param typeVar)
      return (vars, typeVar :: typeVars)

/-- The variables of a map in the order of their identifiers. -/
def sortedVars (vars : SymbolMap TypeVar) : List TypeVar :=
  ((vars.map Prod.snd).mergeSort fun first second => decide (first.id ≤ second.id)).destutter
    fun first second => first.id ≠ second.id

/-- The scheme of a class method. -/
def methodScheme (decl : ClassDecl) (method : ClassMethodSig) : RegisterM Scheme := do
  let (vars, paramTvs) ← classParamVars decl.params []
  let vars ← RegisterM.extendTypeParams vars method.typeParams
  let typ ← typeFromAnnotation method.typ vars
  let param := match paramTvs with
    | [typeVar] => .var typeVar
    | typeVars => .tuple (typeVars.map .var)
  return ⟨sortedVars vars, [⟨decl.name, param⟩], typ⟩

/-- The documentation of the first method with a name. -/
def methodDocs (decl : ClassDecl) (name : Symbol) : Option String :=
  (decl.methods.find? (·.name = name)).bind ClassMethodSig.docs

/-- The loop over the methods of a class. -/
def registerClassMethods (decl : ClassDecl) :
    List ClassMethodSig → SymbolMap Scheme → RegisterM (SymbolMap Scheme)
  | [], schemes => return schemes
  | method :: methods, schemes => do
      let system ← get
      if (system.values.lookup method.name).isSome ∨
          (system.classMethods.lookup method.name).isSome then
        throw (.duplicateClassMethod method.name)
      else
        let scheme ← methodScheme decl method
        modify fun system => { system with
          values := system.values.insert method.name [⟨scheme, [], methodDocs decl method.name⟩]
          classMethods := system.classMethods.insert method.name
            ⟨decl.name, scheme, methodDocs decl method.name⟩ }
        registerClassMethods decl methods (schemes.insert method.name scheme)

/-- `register_class_decl_body`. -/
def registerClassDeclBody (decl : ClassDecl) : RegisterM Unit :=
  RegisterM.withSpan decl.span do
    let system ← get
    if (system.classInfo.lookup decl.name).isSome then throw (.duplicateClass decl.name)
    else
      let supers ← superclassNames decl.supers decl.params
      modify fun system => { system with classes := system.classes.addClass decl.name supers }
      let methods ← registerClassMethods decl decl.methods []
      modify fun system => { system with
        classInfo := system.classInfo.insert decl.name
          ⟨decl.name, decl.params, supers, methods, decl.docs⟩ }

/-- `register_class_decl`. -/
def registerClassDecl (decl : ClassDecl) : RegisterM Unit :=
  RegisterM.withSpan decl.span do
    registerClassDeclHeader decl
    registerClassDeclBody decl

/-- The first loop of `register_class_decls`, with the names seen so far. -/
def registerClassDeclHeaders : List ClassDecl → List Symbol → RegisterM Unit
  | [], _ => return
  | decl :: decls, seen => do
      if decl.name ∈ seen then
        RegisterM.withSpan decl.span (throw (.duplicateClass decl.name))
      else
        RegisterM.withSpan decl.span (registerClassDeclHeader decl)
        registerClassDeclHeaders decls (decl.name :: seen)

/-- `register_class_decls`. -/
def registerClassDecls (decls : List ClassDecl) : RegisterM Unit := do
  registerClassDeclHeaders decls []
  decls.forM registerClassDeclBody

/-! ## Instances -/

structure PreparedInstanceDecl where
  span : Span
  className : Symbol
  head : Typ
  context : List Predicate
  typeVars : SymbolMap TypeVar

/-- The methods of an instance are those of its class. -/
def checkInstanceMethods (decl : InstanceDecl) : Option ClassInfo → RegisterM Unit
  | none => return
  | some info =>
      match decl.methods.find? fun method => (info.methods.lookup method.name).isNone with
      | some method => throw (.type (.unknownInstanceMethod decl.className method.name))
      | none =>
          match info.methods.find? fun entry =>
            !decl.methods.any fun method => method.name = entry.1 with
          | some entry => throw (.type (.missingInstanceMethod decl.className entry.1))
          | none => return

/-- `prepare_instance_decl`. -/
def prepareInstanceDecl (decl : InstanceDecl) : RegisterM PreparedInstanceDecl :=
  RegisterM.withSpan decl.span do
    let system ← get
    if (system.classInfo.lookup decl.className).isNone ∧
        (system.classes.classes.lookup decl.className).isNone then
      throw (.type (.unknownClass decl.className))
    else
      let vars ← RegisterM.extendTypeParams [] decl.typeParams
      let head ← typeFromAnnotation decl.head vars
      let system ← get
      let context ← ofExcept
        (predicatesFromConstraints system.adts system.aliases vars decl.context)
      checkInstanceMethods decl (system.classInfo.lookup decl.className)
      return ⟨decl.span, decl.className, head, context, vars⟩

/-- `register_instance_decl`. -/
def registerInstanceDecl (decl : InstanceDecl) : RegisterM PreparedInstanceDecl := do
  let prepared ← prepareInstanceDecl decl
  modify fun system => { system with
    classes := system.classes.addInstance decl.className
      ⟨prepared.context, ⟨decl.className, prepared.head⟩, decl.docs⟩ }
  return prepared

end TypeSystem

end RexLang
