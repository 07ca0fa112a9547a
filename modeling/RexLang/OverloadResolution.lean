import Mathlib.Data.Finset.Sort
import RexLang.Instantiation

/-!
# Overload resolution

The registries of native implementations and of instances of type classes, and
the check whether the scheme of an injected value accepts a type.  All of them
unify a type with an instance of a scheme on variables from a new supply, or with
the head of an instance as it is.  Where those variables do not occur in the
type, what is found depends on the type up to renaming.
-/

namespace RexLang

/-! ## Unifying with an instance -/

/-- The errors of the engine that resolution raises, with the types as they are shown. -/
inductive ResolutionError where
  | unknownVar (name : Symbol)
  | missingImpl (name : Symbol) (typ : String)
  | missingTypeclassImpl (className : Symbol) (typ : String)
  | ambiguousTypeclassImpl (className : Symbol) (typ : String)
  | typ (error : TypeError)

/-- The error without the type that it shows. -/
def ResolutionError.withoutType : ResolutionError → ResolutionError
  | .unknownVar name => .unknownVar name
  | .missingImpl name _ => .missingImpl name ""
  | .missingTypeclassImpl className _ => .missingTypeclassImpl className ""
  | .ambiguousTypeclassImpl className _ => .ambiguousTypeclassImpl className ""
  | .typ error => .typ error

/-- The result of `unify`, if there is one. -/
def tryUnify (fuel : Nat) (first second : Typ) : Except ResolutionError (Option Subst) :=
  (attempt (unify fuel first second)).mapError .typ

/-- `unify(first, second).is_ok()`. -/
def isUnifiable (fuel : Nat) (first second : Typ) : Except ResolutionError Bool :=
  (tryUnify fuel first second).map (·.isSome)

/-! ## Native implementations -/

structure NativeImpl (Func : Type) where
  id : Nat
  arity : Nat
  scheme : Scheme
  func : Func

inductive NativeResolution where
  | unique (nativeId arity : Nat)
  | ambiguous
deriving DecidableEq

/-- `NativeRegistry`, by name. -/
structure NativeRegistry (Func : Type) where
  entries : SymbolMap (List (NativeImpl Func))

section Natives

variable {Func : Type}

/-- `impl_matches_type`. -/
def implMatchesType (fuel : Nat) (imp : NativeImpl Func) (typ : Typ) :
    Except ResolutionError Bool :=
  isUnifiable fuel (instantiate imp.scheme .new).1.2 typ

/-- The implementations that match. -/
def matchingImpls (fuel : Nat) (typ : Typ) :
    List (NativeImpl Func) → Except ResolutionError (List (NativeImpl Func))
  | [] => .ok []
  | imp :: impls => do
      let isMatch ← implMatchesType fuel imp typ
      let rest ← matchingImpls fuel typ impls
      return if isMatch then imp :: rest else rest

namespace NativeRegistry

/-- The implementations registered under a name. -/
def implsOf (registry : NativeRegistry Func) (name : Symbol) : List (NativeImpl Func) :=
  (registry.entries.lookup name).getD []

/-- What `resolve` makes of the matching implementations. -/
def choose (name : Symbol) (typ : Typ) :
    List (NativeImpl Func) → Except ResolutionError NativeResolution
  | [] => .error (.missingImpl name typ.display)
  | [imp] => .ok (.unique imp.id imp.arity)
  | _ => .ok .ambiguous

/-- `NativeRegistry::resolve`. -/
def resolve (registry : NativeRegistry Func) (fuel : Nat) (name : Symbol) (typ : Typ) :
    Except ResolutionError NativeResolution :=
  match registry.entries.lookup name with
  | none => .error (.unknownVar name)
  | some impls => matchingImpls fuel typ impls >>= choose name typ

end NativeRegistry

end Natives

/-! ## Injected schemes -/

/-- The predicates without variables are entailed. -/
def groundEntailed (classes : ClassEnv) (fuel : Nat) : List Predicate → Except ResolutionError Bool
  | [] => .ok true
  | pred :: preds =>
      if pred.typ.ftv = ∅ then do
        let holds ← (classes.entails fuel [] pred).mapError .typ
        if holds then groundEntailed classes fuel preds else return false
      else groundEntailed classes fuel preds

/-- What `scheme_accepts` does with an instance of the scheme. -/
def acceptsInstance (classes : ClassEnv) (fuel : Nat) (inst : List Predicate × Typ) (typ : Typ) :
    Except ResolutionError Bool :=
  tryUnify fuel inst.2 typ >>= fun found =>
    match found with
    | none => .ok false
    | some subst => groundEntailed classes fuel (inst.1.map (Predicate.apply subst))

/-- `scheme_accepts`. -/
def schemeAccepts (classes : ClassEnv) (fuel : Nat) (scheme : Scheme) (typ : Typ) :
    Except ResolutionError Bool :=
  acceptsInstance classes fuel (instantiate scheme .new).1 typ

/-! ## Instances of type classes -/

structure TypeclassInstance (Env Method : Type) where
  head : Typ
  defEnv : Env
  methods : SymbolMap Method

structure TypeclassRegistry (Env Method : Type) where
  entries : SymbolMap (List (TypeclassInstance Env Method))

section Typeclasses

variable {Env Method : Type}

/-- The loop of `TypeclassRegistry::resolve`. -/
def matchingInstances (fuel : Nat) (paramType : Typ) :
    List (TypeclassInstance Env Method) →
      Except ResolutionError (List (TypeclassInstance Env Method × Subst))
  | [] => .ok []
  | inst :: instances => do
      let found ← tryUnify fuel inst.head paramType
      let rest ← matchingInstances fuel paramType instances
      return found.toList.map (inst, ·) ++ rest

namespace TypeclassRegistry

/-- The instances registered for a class. -/
def instancesOf (registry : TypeclassRegistry Env Method) (className : Symbol) :
    List (TypeclassInstance Env Method) :=
  (registry.entries.lookup className).getD []

/-- What `resolve` makes of the matching instances. -/
def choose (className method : Symbol) (paramType : Typ) :
    List (TypeclassInstance Env Method × Subst) → Except ResolutionError (Env × Method × Subst)
  | [] => .error (.missingTypeclassImpl className paramType.display)
  | [(inst, subst)] =>
      match inst.methods.lookup method with
      | none => .error (.missingTypeclassImpl className paramType.display)
      | some typed => .ok (inst.defEnv, typed, subst)
  | _ => .error (.ambiguousTypeclassImpl className paramType.display)

/-- `TypeclassRegistry::resolve`. -/
def resolve (registry : TypeclassRegistry Env Method) (fuel : Nat) (className method : Symbol)
    (paramType : Typ) : Except ResolutionError (Env × Method × Subst) :=
  match registry.entries.lookup className with
  | none => .error (.missingTypeclassImpl className paramType.display)
  | some instances =>
      matchingInstances fuel paramType instances >>= choose className method paramType

end TypeclassRegistry

end Typeclasses

/-! ## Relabeled problems -/

section Relabeled

variable {relabeling : Relabeling}

theorem attempt_error {Result : Type} {error : TypeError} (notFuel : error ≠ .outOfFuel) :
    attempt (.error error : Except TypeError Result) = .ok none := by
  cases error with
  | outOfFuel => exact absurd rfl notFuel
  | _ => rfl

theorem tryUnify_relabeled (fuel : Nat) (first second : Typ) :
    tryUnify fuel (relabeling.typ first) (relabeling.typ second) =
      (tryUnify fuel first second).map (Option.map relabeling.subst) := by
  unfold tryUnify
  have alike := alike_unify relabeling fuel first second
  generalize unify fuel first second = result at alike ⊢
  generalize unify fuel (relabeling.typ first) (relabeling.typ second) = result' at alike ⊢
  cases alike with
  | ok isRelated =>
      rw [isRelated]
      rfl
  | @error error error' sameFuel =>
      by_cases isFuel : error = .outOfFuel
      · rw [sameFuel.mp isFuel, isFuel]
        rfl
      · rw [attempt_error isFuel, attempt_error fun isFuel' => isFuel (sameFuel.mpr isFuel')]
        rfl

theorem isUnifiable_relabeled (fuel : Nat) (first second : Typ) :
    isUnifiable fuel (relabeling.typ first) (relabeling.typ second) =
      isUnifiable fuel first second := by
  unfold isUnifiable
  rw [tryUnify_relabeled]
  cases tryUnify fuel first second with
  | error error => rfl
  | ok found => cases found <;> rfl

theorem ftv_relabeled_eq_empty {typ : Typ} : (relabeling.typ typ).ftv = ∅ ↔ typ.ftv = ∅ := by
  rw [Finset.eq_empty_iff_forall_notMem, Finset.eq_empty_iff_forall_notMem]
  constructor
  · intro isGround id member
    exact isGround _ (relabeling.mem_ftv_typ.mpr member)
  · intro isGround id member
    obtain ⟨typeVar, inside, -⟩ := Typ.exists_of_mem_ftv_bindVars member
    exact isGround _ inside

theorem typ_of_ground {typ : Typ} (isGround : typ.ftv = ∅) : relabeling.typ typ = typ := by
  refine Eq.trans (Typ.bindVars_congr fun typeVar member => ?_) (Typ.bindVars_var_self typ)
  rw [isGround] at member
  cases member

/-- Only predicates without variables are looked at, and these stay. -/
theorem groundEntailed_relabeled (classes : ClassEnv) (fuel : Nat) (preds : List Predicate) :
    groundEntailed classes fuel (relabeling.preds preds) = groundEntailed classes fuel preds := by
  induction preds with
  | nil => rfl
  | cons pred preds hypothesis =>
      unfold Relabeling.preds at hypothesis ⊢
      rw [List.map_cons, groundEntailed, groundEntailed, hypothesis]
      by_cases isGround : pred.typ.ftv = ∅
      · rw [if_pos isGround, if_pos (ftv_relabeled_eq_empty.2 isGround), typ_of_ground isGround]
      · rw [if_neg isGround, if_neg fun changed => isGround (ftv_relabeled_eq_empty.1 changed)]

theorem acceptsInstance_relabeled (classes : ClassEnv) (fuel : Nat) (inst : List Predicate × Typ)
    (typ : Typ) :
    acceptsInstance classes fuel (relabeling.preds inst.1, relabeling.typ inst.2)
        (relabeling.typ typ) = acceptsInstance classes fuel inst typ := by
  unfold acceptsInstance
  rw [tryUnify_relabeled]
  cases tryUnify fuel inst.2 typ with
  | error error => rfl
  | ok found =>
      cases found with
      | none => rfl
      | some subst =>
          have applied : (relabeling.preds inst.1).map (Predicate.apply (relabeling.subst subst)) =
              relabeling.preds (inst.1.map (Predicate.apply subst)) := by
            simp [Relabeling.preds, Predicate.apply, relabeling.typ_apply]
          change groundEntailed classes fuel
            ((relabeling.preds inst.1).map (Predicate.apply (relabeling.subst subst))) = _
          rw [applied]
          exact groundEntailed_relabeled classes fuel _

end Relabeled

/-! ## Schemes and types on variables of their own -/

/-- No variable of the type is one that a new supply gives to an instance of the scheme,
or free in the scheme. -/
structure Scheme.ApartFrom (scheme : Scheme) (typ : Typ) : Prop extends
    scheme.ClearOfSupply typ where
  notFree : ∀ id ∈ typ.ftv, ¬scheme.Free id

theorem Typ.changed_self (typ : Typ) : typ.changed id = typ :=
  Typ.bindVars_var_self typ

section Separated

variable {scheme : Scheme} {typ : Typ} {fresh place : TypeVar → TypeVar}
  (placed : ChangesApart (fun id => id ∈ typ.ftv ∨ scheme.Free id) place)
  (keepsFree : ∀ typeVar : TypeVar, scheme.Free typeVar.id → place typeVar = typeVar)
  (freshFor : scheme.FreshFor (typ.changed place) fresh)

include placed keepsFree freshFor

theorem isUnifiable_separated (fuel : Nat) :
    isUnifiable fuel (scheme.instanceAt fresh).2 (typ.changed place) =
      isUnifiable fuel scheme.separated.2 typ.evened := by
  obtain ⟨relabeling, onScheme, onType⟩ := Scheme.exists_relabeling placed keepsFree freshFor
  rw [← onScheme, ← onType]
  exact isUnifiable_relabeled fuel _ _

theorem acceptsInstance_separated (classes : ClassEnv) (fuel : Nat) :
    acceptsInstance classes fuel (scheme.instanceAt fresh) (typ.changed place) =
      acceptsInstance classes fuel scheme.separated typ.evened := by
  obtain ⟨relabeling, onScheme, onType⟩ := Scheme.exists_relabeling placed keepsFree freshFor
  rw [← onScheme, ← onType]
  exact acceptsInstance_relabeled classes fuel scheme.separated _

end Separated

theorem changesApart_id (ids : TypeVarId → Prop) : ChangesApart ids id where
  byId _ _ same := same
  apart _ _ _ _ same := same

section Instances

variable {scheme : Scheme} {typ : Typ} {fresh : TypeVar → TypeVar}

/-- All instances on variables of their own are unifiable with the type, or none. -/
theorem isUnifiable_instanceAt (freshFor : scheme.FreshFor typ fresh) (fuel : Nat) :
    isUnifiable fuel (scheme.instanceAt fresh).2 typ =
      isUnifiable fuel scheme.separated.2 typ.evened := by
  rw [← typ.changed_self] at freshFor
  have separated := isUnifiable_separated (changesApart_id _) (fun _ _ => rfl) freshFor fuel
  rwa [typ.changed_self] at separated

theorem acceptsInstance_instanceAt (freshFor : scheme.FreshFor typ fresh) (classes : ClassEnv)
    (fuel : Nat) :
    acceptsInstance classes fuel (scheme.instanceAt fresh) typ =
      acceptsInstance classes fuel scheme.separated typ.evened := by
  rw [← typ.changed_self] at freshFor
  have separated :=
    acceptsInstance_separated (changesApart_id _) (fun _ _ => rfl) freshFor classes fuel
  rwa [typ.changed_self] at separated

end Instances

/-! ## Renamed types -/

/-- A renaming of the variables of a type, and no change elsewhere. -/
def Typ.placeVars (typ : Typ) (assign : TypeVarId → TypeVar) (typeVar : TypeVar) : TypeVar :=
  if typeVar.id ∈ typ.ftv then assign typeVar.id else typeVar

section Renamed

variable {scheme : Scheme} {typ : Typ} {assign : TypeVarId → TypeVar}

theorem Typ.changed_placeVars : typ.changed (typ.placeVars assign) = typ.rename assign := by
  unfold Typ.changed Typ.rename
  refine Typ.bindVars_congr fun typeVar member => ?_
  rw [Typ.placeVars, if_pos member]

theorem placeVars_free (notFree : ∀ id ∈ typ.ftv, ¬scheme.Free id) (typeVar : TypeVar)
    (isFree : scheme.Free typeVar.id) : typ.placeVars assign typeVar = typeVar :=
  if_neg fun member => notFree _ member isFree

theorem changesApart_placeVars
    (injOn : Set.InjOn (fun id => (assign id).id) (fun id => id ∈ typ.ftv))
    (notFree : ∀ id ∈ typ.ftv, ¬scheme.Free id)
    (notFree' : ∀ id ∈ (typ.rename assign).ftv, ¬scheme.Free id) :
    ChangesApart (fun id => id ∈ typ.ftv ∨ scheme.Free id) (typ.placeVars assign) where
  byId first second same := by
    unfold Typ.placeVars
    rw [same]
    split_ifs
    · rfl
    · exact same
  apart first second isFirst isSecond same := by
    have renamed {id : TypeVarId} (member : id ∈ typ.ftv) : ¬scheme.Free (assign id).id :=
      notFree' _ (Typ.mem_ftv_rename.mpr ⟨id, member, rfl⟩)
    unfold Typ.placeVars at same
    rcases isFirst with inFirst | isFree <;> rcases isSecond with inSecond | isFree'
    · rw [if_pos inFirst, if_pos inSecond] at same
      exact injOn inFirst inSecond same
    · rw [if_pos inFirst, if_neg fun member => notFree _ member isFree'] at same
      rw [← same] at isFree'
      exact absurd isFree' (renamed inFirst)
    · rw [if_neg fun member => notFree _ member isFree, if_pos inSecond] at same
      rw [same] at isFree
      exact absurd isFree (renamed inSecond)
    · rwa [if_neg fun member => notFree _ member isFree,
        if_neg fun member => notFree _ member isFree'] at same

end Renamed

section UpToRenaming

variable {scheme : Scheme} {typ typ' : Typ}

/-- An injected scheme accepts a type and its renamings alike. -/
theorem schemeAccepts_of_equivalent (equivalent : typ.AlphaEquivalent typ')
    (apart : scheme.ApartFrom typ) (apart' : scheme.ApartFrom typ') (classes : ClassEnv)
    (fuel : Nat) : schemeAccepts classes fuel scheme typ' = schemeAccepts classes fuel scheme typ := by
  obtain ⟨assign, injOn, rfl⟩ := equivalent
  have freshFor' := apart'.toClearOfSupply.freshFor
  rw [← Typ.changed_placeVars] at freshFor'
  have separated := acceptsInstance_separated
    (changesApart_placeVars injOn apart.notFree apart'.notFree) (placeVars_free apart.notFree)
    freshFor' classes fuel
  rw [Typ.changed_placeVars] at separated
  unfold schemeAccepts
  rw [Scheme.instantiate_new, separated]
  exact (acceptsInstance_instanceAt apart.toClearOfSupply.freshFor classes fuel).symm

theorem isUnifiable_of_equivalent (equivalent : typ.AlphaEquivalent typ')
    (apart : scheme.ApartFrom typ) (apart' : scheme.ApartFrom typ') (fuel : Nat) :
    isUnifiable fuel (instantiate scheme .new).1.2 typ' =
      isUnifiable fuel (instantiate scheme .new).1.2 typ := by
  obtain ⟨assign, injOn, rfl⟩ := equivalent
  have freshFor' := apart'.toClearOfSupply.freshFor
  rw [← Typ.changed_placeVars] at freshFor'
  have separated := isUnifiable_separated
    (changesApart_placeVars injOn apart.notFree apart'.notFree) (placeVars_free apart.notFree)
    freshFor' fuel
  rw [Typ.changed_placeVars] at separated
  rw [Scheme.instantiate_new, separated]
  exact (isUnifiable_instanceAt apart.toClearOfSupply.freshFor fuel).symm

end UpToRenaming

/-! ## Heads of instances -/

/-- The scheme of a head that quantifies all its variables. -/
def headScheme (head : Typ) : Scheme :=
  ⟨head.ftv.sort.map (⟨·, none⟩), [], head⟩

section Heads

variable {head typ typ' : Typ}

theorem mem_bound_headScheme {id : TypeVarId} : id ∈ (headScheme head).bound ↔ id ∈ head.ftv := by
  unfold headScheme Scheme.bound
  simp

theorem not_free_headScheme (id : TypeVarId) : ¬(headScheme head).Free id := by
  rintro ⟨isMentioned, notBound⟩
  rcases isMentioned with member | ⟨pred, isPred, -⟩
  · exact notBound (mem_bound_headScheme.2 member)
  · cases isPred

theorem instanceAt_headScheme (fresh : TypeVar → TypeVar) :
    ((headScheme head).instanceAt fresh).2 = head.changed fresh := by
  unfold Scheme.instanceAt Scheme.replace Typ.changed
  refine Typ.bindVars_congr fun typeVar member => ?_
  have isBound : typeVar.id ∈ (headScheme head).bound := mem_bound_headScheme.2 member
  rw [if_pos isBound]

theorem freshFor_headScheme (disjoint : Disjoint head.ftv typ.ftv) :
    (headScheme head).FreshFor typ id where
  changes := changesApart_id _
  notInType _ isBound := Finset.disjoint_left.mp disjoint (mem_bound_headScheme.1 isBound)
  notFree _ _ := not_free_headScheme _

/-- A head on variables of its own unifies with a type as its renamings do. -/
theorem isUnifiable_rename_head (disjoint : Disjoint head.ftv typ.ftv)
    {assign : TypeVarId → TypeVar}
    (injOn : Set.InjOn (fun id => (assign id).id) (fun id => id ∈ head.ftv))
    (disjoint' : Disjoint (head.rename assign).ftv typ.ftv) (fuel : Nat) :
    isUnifiable fuel head typ = isUnifiable fuel (head.rename assign) typ := by
  have freshFor : (headScheme head).FreshFor typ fun typeVar => assign typeVar.id :=
    { changes :=
        { byId := fun first second same => by rw [same]
          apart := fun first second isFirst isSecond same =>
            injOn (mem_bound_headScheme.1 isFirst) (mem_bound_headScheme.1 isSecond) same }
      notInType := fun typeVar isBound => Finset.disjoint_left.mp disjoint'
        (Typ.mem_ftv_rename.mpr ⟨typeVar.id, mem_bound_headScheme.1 isBound, rfl⟩)
      notFree := fun _ _ => not_free_headScheme _ }
  have own := isUnifiable_instanceAt (freshFor_headScheme disjoint) fuel
  have renamed := isUnifiable_instanceAt freshFor fuel
  rw [instanceAt_headScheme] at own renamed
  rw [Typ.changed_self] at own
  exact own.trans renamed.symm

theorem isUnifiable_head_of_equivalent (equivalent : typ.AlphaEquivalent typ')
    (disjoint : Disjoint head.ftv typ.ftv) (disjoint' : Disjoint head.ftv typ'.ftv) (fuel : Nat) :
    isUnifiable fuel head typ' = isUnifiable fuel head typ := by
  obtain ⟨assign, injOn, rfl⟩ := equivalent
  have freshFor := freshFor_headScheme disjoint'
  rw [← Typ.changed_placeVars] at freshFor
  have notFree (ids : Finset TypeVarId) : ∀ id ∈ ids, ¬(headScheme head).Free id :=
    fun id _ => not_free_headScheme id
  have separated := isUnifiable_separated (changesApart_placeVars injOn (notFree _) (notFree _))
    (placeVars_free (notFree _)) freshFor fuel
  have own := isUnifiable_instanceAt (freshFor_headScheme disjoint) fuel
  rw [instanceAt_headScheme, Typ.changed_self] at own separated
  rw [Typ.changed_placeVars] at separated
  exact separated.trans own.symm

end Heads

/-! ## What the registries find -/

section Found

variable {Func Env Method : Type} {fuel : Nat} {typ typ' : Typ}

theorem matchingImpls_congr {impls : List (NativeImpl Func)}
    (same : ∀ imp ∈ impls, implMatchesType fuel imp typ' = implMatchesType fuel imp typ) :
    matchingImpls fuel typ' impls = matchingImpls fuel typ impls := by
  induction impls with
  | nil => rfl
  | cons imp impls hypothesis =>
      obtain ⟨sameHead, sameTail⟩ := List.forall_mem_cons.mp same
      rw [matchingImpls, matchingImpls, sameHead, hypothesis sameTail]

theorem NativeRegistry.choose_withoutType (name : Symbol) (impls : List (NativeImpl Func)) :
    (choose name typ' impls).mapError ResolutionError.withoutType =
      (choose name typ impls).mapError ResolutionError.withoutType := by
  unfold choose
  split <;> rfl

/-- Which instances match is a matter of what is unifiable. -/
theorem matchingInstances_cons (inst : TypeclassInstance Env Method)
    (instances : List (TypeclassInstance Env Method)) :
    (matchingInstances fuel typ (inst :: instances)).map (List.map Prod.fst) = (do
      let isMatch ← isUnifiable fuel inst.head typ
      let rest ← (matchingInstances fuel typ instances).map (List.map Prod.fst)
      return if isMatch then inst :: rest else rest) := by
  rw [matchingInstances, isUnifiable]
  cases tryUnify fuel inst.head typ with
  | error error => rfl
  | ok found =>
      cases matchingInstances fuel typ instances with
      | error error => rfl
      | ok others => cases found <;> rfl

theorem matchingInstances_congr {instances : List (TypeclassInstance Env Method)}
    (same : ∀ inst ∈ instances,
      isUnifiable fuel inst.head typ' = isUnifiable fuel inst.head typ) :
    (matchingInstances fuel typ' instances).map (List.map Prod.fst) =
      (matchingInstances fuel typ instances).map (List.map Prod.fst) := by
  induction instances with
  | nil => rfl
  | cons inst instances hypothesis =>
      obtain ⟨sameHead, sameTail⟩ := List.forall_mem_cons.mp same
      rw [matchingInstances_cons, matchingInstances_cons, sameHead, hypothesis sameTail]

/-- The implementation without the substitution. -/
def TypeclassRegistry.outcome (result : Except ResolutionError (Env × Method × Subst)) :
    Except ResolutionError (Env × Method) :=
  (result.map fun found => (found.1, found.2.1)).mapError .withoutType

theorem TypeclassRegistry.outcome_choose (className method : Symbol)
    {found found' : List (TypeclassInstance Env Method × Subst)}
    (same : found'.map Prod.fst = found.map Prod.fst) :
    outcome (choose className method typ' found') = outcome (choose className method typ found) := by
  cases found with
  | nil =>
      rw [List.map_nil, List.map_eq_nil_iff] at same
      rw [same]
      rfl
  | cons first found =>
      cases found' with
      | nil => cases same
      | cons first' found' =>
          obtain ⟨inst, subst⟩ := first
          obtain ⟨inst', subst'⟩ := first'
          rw [List.map_cons, List.map_cons, List.cons.injEq] at same
          obtain ⟨sameInst, sameRest⟩ := same
          change inst' = inst at sameInst
          subst sameInst
          cases found with
          | nil =>
              rw [List.map_nil, List.map_eq_nil_iff] at sameRest
              subst sameRest
              cases isMethod : inst'.methods.lookup method with
              | none =>
                  simp only [choose, isMethod]
                  rfl
              | some typed =>
                  simp only [choose, isMethod]
                  rfl
          | cons second found =>
              cases found' with
              | nil => cases sameRest
              | cons second' found' => rfl

end Found

/-! ## Results of enough fuel -/

section Settling

variable {First Second Func Env Method : Type}

/-- From some fuel on there is one result, and it is not that the fuel ran out. -/
def Settles (outcome : Nat → Except ResolutionError First) : Prop :=
  ∃ enough result, result ≠ .error (.typ .outOfFuel) ∧
    ∀ fuel, enough ≤ fuel → outcome fuel = result

theorem settles_of_ne {result : Except ResolutionError First}
    (notFuel : result ≠ .error (.typ .outOfFuel)) : Settles fun _ => result :=
  ⟨0, result, notFuel, fun _ _ => rfl⟩

theorem Settles.bind {outcome : Nat → Except ResolutionError First}
    {next : Nat → First → Except ResolutionError Second} (settles : Settles outcome)
    (settlesNext : ∀ result, Settles fun fuel => next fuel result) :
    Settles fun fuel => outcome fuel >>= next fuel := by
  obtain ⟨enough, result, notFuel, isResult⟩ := settles
  cases result with
  | error error =>
      refine ⟨enough, .error error, fun isFuel => notFuel ?_, fun fuel isEnough => ?_⟩
      · cases isFuel
        rfl
      · simp only [isResult fuel isEnough, Bind.bind, Except.bind]
  | ok value =>
      obtain ⟨enoughNext, resultNext, notFuelNext, isNext⟩ := settlesNext value
      refine ⟨max enough enoughNext, resultNext, notFuelNext, fun fuel isEnough => ?_⟩
      have isValue := isResult fuel (le_trans (le_max_left _ _) isEnough)
      have isLater := isNext fuel (le_trans (le_max_right _ _) isEnough)
      simp only [isValue, ← isLater, Bind.bind, Except.bind]

theorem settles_tryUnify (first second : Typ) :
    Settles fun fuel => tryUnify fuel first second := by
  obtain ⟨enough, result, notFuel, isResult⟩ := ends_attempt (ends_unify first second)
  refine ⟨enough, result.mapError .typ, fun isFuel => notFuel ?_, fun fuel isEnough => ?_⟩
  · cases result with
    | ok found => cases isFuel
    | error error =>
        cases isFuel
        rfl
  · exact congrArg (Except.mapError ResolutionError.typ) (isResult fuel isEnough)

theorem settles_matchingImpls (typ : Typ) (impls : List (NativeImpl Func)) :
    Settles fun fuel => matchingImpls fuel typ impls := by
  induction impls with
  | nil => exact settles_of_ne nofun
  | cons imp impls hypothesis =>
      have settlesHead : Settles fun fuel => implMatchesType fuel imp typ :=
        (settles_tryUnify _ typ).bind fun found => @settles_of_ne Bool (.ok found.isSome) nofun
      exact settlesHead.bind fun isMatch => hypothesis.bind fun rest => settles_of_ne nofun

theorem settles_matchingInstances (typ : Typ) (instances : List (TypeclassInstance Env Method)) :
    Settles fun fuel => matchingInstances fuel typ instances := by
  induction instances with
  | nil => exact settles_of_ne nofun
  | cons inst instances hypothesis =>
      exact (settles_tryUnify _ typ).bind fun found => hypothesis.bind fun rest =>
        settles_of_ne nofun

theorem NativeRegistry.settles_resolve (registry : NativeRegistry Func) (name : Symbol)
    (typ : Typ) : Settles fun fuel => registry.resolve fuel name typ := by
  unfold resolve
  split
  · exact settles_of_ne nofun
  · refine (settles_matchingImpls typ _).bind fun found => settles_of_ne ?_
    unfold choose
    split <;> exact nofun

theorem TypeclassRegistry.settles_resolve (registry : TypeclassRegistry Env Method)
    (className method : Symbol) (typ : Typ) :
    Settles fun fuel => registry.resolve fuel className method typ := by
  unfold resolve
  split
  · exact settles_of_ne nofun
  · refine (settles_matchingInstances typ _).bind fun found => settles_of_ne ?_
    unfold choose
    split
    · exact nofun
    · split <;> exact nofun
    · exact nofun

end Settling

/-! ## Resolution up to renaming -/

section Law

variable {Func Env Method : Type}

/-- The variables that resolution brings along do not occur in the type: those that a new
supply gives to the schemes, the free ones of the schemes, and those of the heads. -/
structure KeepsApart (registry : NativeRegistry Func) (name : Symbol) (scheme : Scheme)
    (instances : TypeclassRegistry Env Method) (className : Symbol) (typ : Typ) : Prop where
  impls : ∀ imp ∈ registry.implsOf name, imp.scheme.ApartFrom typ
  injected : scheme.ApartFrom typ
  heads : ∀ inst ∈ instances.instancesOf className, Disjoint inst.head.ftv typ.ftv

/-- Resolution of a type and of a renamed one. -/
structure ResolvesUpToRenaming (registry : NativeRegistry Func) (name : Symbol)
    (classes : ClassEnv) (scheme : Scheme) (instances : TypeclassRegistry Env Method)
    (className method : Symbol) (typ typ' : Typ) : Prop where
  /-- The same implementation is found, or the same outcome. -/
  resolves : Settles (fun fuel => registry.resolve fuel name typ) ∧
    ∀ fuel, (registry.resolve fuel name typ').mapError ResolutionError.withoutType =
      (registry.resolve fuel name typ).mapError ResolutionError.withoutType
  /-- An implementation matches if and only if its scheme has an instance on variables of
  its own that unifies with the type, and all such instances agree. -/
  implMatches : ∀ imp ∈ registry.implsOf name,
    imp.scheme.FreshFor typ imp.scheme.fromSupply ∧
      ∀ fresh, imp.scheme.FreshFor typ fresh → ∀ fuel,
        implMatchesType fuel imp typ = isUnifiable fuel (imp.scheme.instanceAt fresh).2 typ
  accepts : ∀ fuel, schemeAccepts classes fuel scheme typ' = schemeAccepts classes fuel scheme typ
  /-- A scheme is accepted if and only if its instances on variables of their own are. -/
  acceptsInstances : scheme.FreshFor typ scheme.fromSupply ∧
    ∀ fresh, scheme.FreshFor typ fresh → ∀ fuel,
      schemeAccepts classes fuel scheme typ =
        acceptsInstance classes fuel (scheme.instanceAt fresh) typ
  resolvesClass : Settles (fun fuel => instances.resolve fuel className method typ) ∧
    ∀ fuel, TypeclassRegistry.outcome (instances.resolve fuel className method typ') =
      TypeclassRegistry.outcome (instances.resolve fuel className method typ)
  /-- A head unifies with the type if and only if it does on other variables of its own. -/
  headMatches : ∀ inst ∈ instances.instancesOf className, ∀ assign : TypeVarId → TypeVar,
    Set.InjOn (fun id => (assign id).id) (fun id => id ∈ inst.head.ftv) →
    Disjoint (inst.head.rename assign).ftv typ.ftv → ∀ fuel,
      isUnifiable fuel inst.head typ = isUnifiable fuel (inst.head.rename assign) typ

variable {registry : NativeRegistry Func} {name : Symbol} {classes : ClassEnv} {scheme : Scheme}
  {instances : TypeclassRegistry Env Method} {className method : Symbol} {typ typ' : Typ}

theorem outcome_resolve_of_equivalent (equivalent : typ.AlphaEquivalent typ')
    (apart : ∀ imp ∈ registry.implsOf name, imp.scheme.ApartFrom typ)
    (apart' : ∀ imp ∈ registry.implsOf name, imp.scheme.ApartFrom typ') (fuel : Nat) :
    (registry.resolve fuel name typ').mapError .withoutType =
      (registry.resolve fuel name typ).mapError ResolutionError.withoutType := by
  unfold NativeRegistry.implsOf at apart apart'
  unfold NativeRegistry.resolve
  cases isNamed : registry.entries.lookup name with
  | none => rfl
  | some impls =>
      rw [isNamed] at apart apart'
      have same : matchingImpls fuel typ' impls = matchingImpls fuel typ impls :=
        matchingImpls_congr fun imp member =>
          isUnifiable_of_equivalent equivalent (apart imp member) (apart' imp member) fuel
      simp only [same]
      cases matchingImpls fuel typ impls with
      | error error => rfl
      | ok found => exact NativeRegistry.choose_withoutType name found

theorem outcome_resolveClass_of_equivalent (equivalent : typ.AlphaEquivalent typ')
    (apart : ∀ inst ∈ instances.instancesOf className, Disjoint inst.head.ftv typ.ftv)
    (apart' : ∀ inst ∈ instances.instancesOf className, Disjoint inst.head.ftv typ'.ftv)
    (fuel : Nat) :
    TypeclassRegistry.outcome (instances.resolve fuel className method typ') =
      TypeclassRegistry.outcome (instances.resolve fuel className method typ) := by
  unfold TypeclassRegistry.instancesOf at apart apart'
  unfold TypeclassRegistry.resolve
  cases isClass : instances.entries.lookup className with
  | none => rfl
  | some ofClass =>
      rw [isClass] at apart apart'
      have same := matchingInstances_congr fun inst member =>
        isUnifiable_head_of_equivalent equivalent (apart inst member) (apart' inst member) fuel
      simp only
      cases isFound : matchingInstances fuel typ ofClass with
      | error error =>
          cases isFound' : matchingInstances fuel typ' ofClass with
          | error error' =>
              rw [Option.getD_some, isFound, isFound'] at same
              cases same
              rfl
          | ok found' =>
              rw [Option.getD_some, isFound, isFound'] at same
              cases same
      | ok found =>
          cases isFound' : matchingInstances fuel typ' ofClass with
          | error error' =>
              rw [Option.getD_some, isFound, isFound'] at same
              cases same
          | ok found' =>
              rw [Option.getD_some, isFound, isFound'] at same
              exact TypeclassRegistry.outcome_choose className method (Except.ok.inj same)

/-- Where the variables are kept apart, resolution depends on the type up to renaming,
and finds what unifies on variables of its own. -/
theorem resolvesUpToRenaming (equivalent : typ.AlphaEquivalent typ')
    (apart : KeepsApart registry name scheme instances className typ)
    (apart' : KeepsApart registry name scheme instances className typ') :
    ResolvesUpToRenaming registry name classes scheme instances className method typ typ' where
  resolves := ⟨registry.settles_resolve name typ,
    outcome_resolve_of_equivalent equivalent apart.impls apart'.impls⟩
  implMatches imp member := by
    have fromSupply := (apart.impls imp member).toClearOfSupply.freshFor
    refine ⟨fromSupply, fun fresh freshFor fuel => ?_⟩
    rw [implMatchesType, Scheme.instantiate_new, isUnifiable_instanceAt fromSupply,
      isUnifiable_instanceAt freshFor]
  accepts := schemeAccepts_of_equivalent equivalent apart.injected apart'.injected classes
  acceptsInstances := by
    have fromSupply := apart.injected.toClearOfSupply.freshFor
    refine ⟨fromSupply, fun fresh freshFor fuel => ?_⟩
    rw [schemeAccepts, Scheme.instantiate_new, acceptsInstance_instanceAt fromSupply,
      acceptsInstance_instanceAt freshFor]
  resolvesClass := ⟨instances.settles_resolve className method typ,
    outcome_resolveClass_of_equivalent equivalent apart.heads apart'.heads⟩
  headMatches inst member _ := isUnifiable_rename_head (apart.heads inst member)

end Law

/-! ## A clash with the supply -/

/-- Takes a list of anything. -/
def firstScheme : Scheme :=
  ⟨[⟨0, none⟩], [], .func (.list (.var ⟨0, none⟩)) (.builtin .i32)⟩

def firstRegistry : NativeRegistry Unit :=
  ⟨[("first", [⟨0, 1, firstScheme, ()⟩])]⟩

/-- The type of a call with an argument of an unknown type. -/
def firstCall (id : TypeVarId) : Typ :=
  .func (.var ⟨id, none⟩) (.builtin .i32)

def listInstances : TypeclassRegistry Unit Unit :=
  ⟨[("Show", [⟨.list (.var ⟨7, none⟩), (), [("show", ())]⟩])]⟩

theorem mem_ftv_firstCall {id found : TypeVarId} (member : found ∈ (firstCall id).ftv) :
    found = id := by
  simpa [firstCall, Typ.ftv, Typ.builtin] using member

theorem equivalent_firstCall (id other : TypeVarId) :
    (firstCall id).AlphaEquivalent (firstCall other) := by
  refine ⟨fun _ => ⟨other, none⟩, fun first isFirst second isSecond _ => ?_, rfl⟩
  rw [mem_ftv_firstCall isFirst, mem_ftv_firstCall isSecond]

theorem not_free_firstScheme (id : TypeVarId) : ¬firstScheme.Free id := by
  rintro ⟨isMentioned, notBound⟩
  simp [firstScheme, Scheme.Mentions, Scheme.bound, Typ.ftv, Typ.builtin, Typ.list]
    at isMentioned notBound
  exact notBound isMentioned

theorem apartFrom_firstCall {id : Nat} (pos : 0 < id) :
    firstScheme.ApartFrom (firstCall id) where
  typeIds found member := by
    rw [mem_ftv_firstCall member]
    exact pos
  freeIds found isFree := absurd isFree (not_free_firstScheme found)
  notFree found _ := not_free_firstScheme found

theorem keepsApart_firstCall {id : Nat} (pos : 0 < id) (small : id < 7) :
    KeepsApart firstRegistry "first" firstScheme listInstances "Show" (firstCall id) where
  impls imp member := by
    obtain rfl : imp = ⟨0, 1, firstScheme, ()⟩ := List.mem_singleton.mp member
    exact apartFrom_firstCall pos
  injected := apartFrom_firstCall pos
  heads inst member := by
    obtain rfl : inst = ⟨.list (.var ⟨7, none⟩), (), [("show", ())]⟩ :=
      List.mem_singleton.mp member
    rw [Finset.disjoint_left]
    intro found inHead inCall
    have isSeven : found = 7 := by simpa [Typ.list, Typ.builtin, Typ.ftv] using inHead
    rw [mem_ftv_firstCall inCall] at isSeven
    exact absurd isSeven (Nat.ne_of_lt small)

theorem resolvesUpToRenaming_firstCall :
    ResolvesUpToRenaming firstRegistry "first" .new firstScheme listInstances "Show" "show"
      (firstCall 1) (firstCall 2) :=
  resolvesUpToRenaming (equivalent_firstCall 1 2) (keepsApart_firstCall (by omega) (by omega))
    (keepsApart_firstCall (by omega) (by omega))

/-- The supply starts at the variable of the second call type: the implementation takes
lists of anything, but not a list of what it is a list of. -/
theorem not_resolvesUpToRenaming :
    (firstCall 1).AlphaEquivalent (firstCall 0) ∧ ∀ fuel, 3 ≤ fuel →
      firstRegistry.resolve fuel "first" (firstCall 1) = .ok (.unique 0 1) ∧
      firstRegistry.resolve fuel "first" (firstCall 0) =
        .error (.missingImpl "first" (firstCall 0).display) ∧
      (firstScheme.FreshFor (firstCall 0) fun _ => ⟨1, none⟩) ∧
      isUnifiable fuel (firstScheme.instanceAt fun _ => ⟨1, none⟩).2 (firstCall 0) =
        .ok true := by
  refine ⟨equivalent_firstCall 1 0, fun fuel enough => ?_⟩
  obtain ⟨more, rfl⟩ := Nat.exists_eq_add_of_le' enough
  refine ⟨rfl, rfl, ?_, rfl⟩
  exact
    { changes :=
        { byId := fun _ _ _ => rfl
          apart := fun first second isFirst isSecond _ =>
            (List.mem_singleton.mp isFirst).trans (List.mem_singleton.mp isSecond).symm }
      notInType := fun typeVar _ member => absurd (mem_ftv_firstCall member) (by decide)
      notFree := fun _ _ => not_free_firstScheme _ }

end RexLang
