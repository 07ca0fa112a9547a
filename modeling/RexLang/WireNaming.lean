import RexLang.TypeRenaming
import RexLang.WireTypes

/-!
# The names of the encoder

The encoder extends the names that it has given to variables and never changes
one, so an encoding is the shape of the type under any later naming.  Names of
different variables are different.
-/

namespace RexLang

namespace Typ

/-- Every variable, every constructor and the labels of every record in the type
meet their conditions. -/
inductive Every (var : TypeVar → Prop) (con : TypeConst → Prop) (labels : List Symbol → Prop) :
    Typ → Prop where
  | var {typeVar} (holds : var typeVar) : Every var con labels (.var typeVar)
  | con {const} (holds : con const) : Every var con labels (.con const)
  | app {head arg} (onHead : Every var con labels head) (onArg : Every var con labels arg) :
      Every var con labels (.app head arg)
  | func {arg ret} (onArg : Every var con labels arg) (onRet : Every var con labels ret) :
      Every var con labels (.func arg ret)
  | tuple {elems} (onElems : ∀ elem ∈ elems, Every var con labels elem) :
      Every var con labels (.tuple elems)
  | record {fields : List (Symbol × Typ)} (holds : labels (fields.map Prod.fst))
      (onFields : ∀ field ∈ fields, Every var con labels field.2) :
      Every var con labels (.record fields)

section Parts

variable {var : TypeVar → Prop} {con : TypeConst → Prop} {labels : List Symbol → Prop}

theorem Every.spine {typ : Typ} (every : typ.Every var con labels) {args : List Typ}
    (onArgs : ∀ arg ∈ args, arg.Every var con labels) :
    (typ.spine args).1.Every var con labels ∧
      ∀ arg ∈ (typ.spine args).2, arg.Every var con labels := by
  induction typ using inductionOn generalizing args with
  | app head arg hypothesis _ =>
      cases every with
      | app onHead onArg => exact hypothesis onHead (by simpa using ⟨onArg, onArgs⟩)
  | _ => exact ⟨every, onArgs⟩

theorem Every.decomposeFunType {typ : Typ} (every : typ.Every var con labels) :
    (∀ param ∈ (decomposeFunType typ).1, param.Every var con labels) ∧
      (RexLang.decomposeFunType typ).2.Every var con labels := by
  induction typ using inductionOn with
  | func arg ret _ hypothesis =>
      cases every with
      | func onArg onRet =>
          obtain ⟨onParams, onResult⟩ := hypothesis onRet
          exact ⟨List.forall_mem_cons.mpr ⟨onArg, onParams⟩, onResult⟩
  | _ => exact ⟨List.forall_mem_nil _, every⟩

theorem Every.mono {weaker : TypeVar → Prop} (implies : ∀ typeVar, var typeVar → weaker typeVar)
    {typ : Typ} (every : typ.Every var con labels) : typ.Every weaker con labels := by
  induction every with
  | var holds => exact .var (implies _ holds)
  | con holds => exact .con holds
  | app _ _ onHead onArg => exact .app onHead onArg
  | func _ _ onArg onRet => exact .func onArg onRet
  | tuple _ onElems => exact .tuple onElems
  | record holds _ onFields => exact .record holds onFields

theorem mem_ftv_spine (id : TypeVarId) (typ : Typ) (args : List Typ) :
    (id ∈ (typ.spine args).1.ftv ∨ ∃ arg ∈ (typ.spine args).2, id ∈ arg.ftv) ↔
      id ∈ typ.ftv ∨ ∃ arg ∈ args, id ∈ arg.ftv := by
  induction typ using inductionOn generalizing args with
  | app head arg hypothesis _ =>
      rw [Typ.spine, hypothesis]
      simp [ftv, or_assoc]
  | _ => rfl

theorem mem_ftv_decomposeFunType (id : TypeVarId) (typ : Typ) :
    ((∃ param ∈ (decomposeFunType typ).1, id ∈ param.ftv) ∨ id ∈ (decomposeFunType typ).2.ftv) ↔
      id ∈ typ.ftv := by
  induction typ using inductionOn with
  | func arg ret _ hypothesis =>
      rw [RexLang.decomposeFunType, ftv, Finset.mem_union, ← hypothesis]
      simp [or_assoc]
  | _ => simp [RexLang.decomposeFunType]

end Parts

end Typ

theorem spine_of_constructorApp {typ : Typ} {con : TypeConst} {args : List Typ}
    (isApp : constructorApp typ = some (con, args)) :
    typ.spine [] = (.con con, args) ∧ args.length ≤ con.arity := by
  obtain ⟨decomposed, few⟩ := Option.filter_eq_some_iff.mp isApp
  refine ⟨?_, by simpa using few⟩
  rw [decomposeTypeApp] at decomposed
  split at decomposed
  · next isSpine =>
      cases decomposed
      exact isSpine
  · cases decomposed

theorem mem_wireArgs {con : TypeConst} {args : List Typ} {arg : Typ} :
    arg ∈ wireArgsForConstructor con args ↔ arg ∈ args := by
  rw [wireArgsForConstructor.eq_def]
  split
  · simp [or_comm]
  · rfl

/-- Induction over types along the calls of the encoder. -/
theorem Typ.wireInduction {motive : Typ → Prop}
    (var : ∀ typeVar, motive (.var typeVar))
    (con : ∀ const, motive (.con const))
    (construct : ∀ head arg const args, constructorApp (.app head arg) = some (const, args) →
      (∀ other ∈ args, motive other) → motive (.app head arg))
    (app : ∀ head arg, constructorApp (.app head arg) = none → motive head → motive arg →
      motive (.app head arg))
    (func : ∀ arg ret, (∀ param ∈ (decomposeFunType (.func arg ret)).1, motive param) →
      motive (decomposeFunType (.func arg ret)).2 → motive (.func arg ret))
    (tuple : ∀ elems, (∀ elem ∈ elems, motive elem) → motive (.tuple elems))
    (record : ∀ fields, (∀ field ∈ fields, motive field.2) → motive (.record fields))
    (typ : Typ) : motive typ := by
  induction size : sizeOf typ using Nat.strong_induction_on generalizing typ with
  | _ size hypothesis =>
      subst size
      have smaller : ∀ other : Typ, sizeOf other < sizeOf typ → motive other :=
        fun other less => hypothesis _ less other rfl
      cases typ with
      | var typeVar => exact var typeVar
      | con const => exact con const
      | app head arg =>
          cases isApp : constructorApp (.app head arg) with
          | some decomposed =>
              obtain ⟨const, args⟩ := decomposed
              have less := sizeOf_constructorApp isApp
              exact construct head arg const args isApp fun other member =>
                smaller other ((List.sizeOf_lt_of_mem member).trans less)
          | none =>
              have sizes : sizeOf (Typ.app head arg) = 1 + sizeOf head + sizeOf arg :=
                Typ.app.sizeOf_spec head arg
              exact app head arg isApp (smaller head (by omega)) (smaller arg (by omega))
      | func arg ret =>
          exact func arg ret
            (fun param member => smaller param
              ((List.sizeOf_lt_of_mem member).trans (sizeOf_funParams_lt arg ret)))
            (smaller _ (sizeOf_funResult_lt arg ret))
      | tuple elems =>
          refine tuple elems fun elem member => smaller elem ?_
          have less := List.sizeOf_lt_of_mem member
          simp only [Typ.tuple.sizeOf_spec]
          omega
      | record fields =>
          refine record fields fun field member => smaller field.2 ?_
          have less := List.sizeOf_lt_of_mem member
          have part := sizeOf_snd_lt field
          simp only [Typ.record.sizeOf_spec]
          omega

/-! ## The shape of an encoding -/

/-- The encoding of a type under a fixed naming. -/
def wireShape (names : TypeVarId → String) (typ : Typ) : WireType :=
  fromTypeWith (M := Id) (fun typeVar => names typeVar.id) typ

section Shape

variable (names : TypeVarId → String)

-- The equations of the encoder, derived once for all its shapes.
attribute [local simp] fromTypeWith fromTypesWith fromFieldsWith

theorem fromTypesWith_id (types : List Typ) :
    fromTypesWith (M := Id) (fun typeVar => names typeVar.id) types =
      types.map (wireShape names) := by
  induction types with
  | nil => rw [fromTypesWith]; rfl
  | cons typ types hypothesis => rw [fromTypesWith, hypothesis]; rfl

theorem fromFieldsWith_id (fields : List (Symbol × Typ)) :
    fromFieldsWith (M := Id) (fun typeVar => names typeVar.id) fields =
      fields.map fun field => ⟨field.1, wireShape names field.2, none⟩ := by
  induction fields with
  | nil => rw [fromFieldsWith]; rfl
  | cons field fields hypothesis => rw [fromFieldsWith, hypothesis]; rfl

@[simp]
theorem wireShape_var (typeVar : TypeVar) :
    wireShape names (.var typeVar) = .var (names typeVar.id) := by
  rw [wireShape, fromTypeWith]; rfl

@[simp]
theorem wireShape_con (con : TypeConst) : wireShape names (.con con) = typeFromConst con [] := by
  rw [wireShape, fromTypeWith]; rfl

theorem wireShape_construct {head arg : Typ} {con : TypeConst} {args : List Typ}
    (isApp : constructorApp (.app head arg) = some (con, args)) :
    wireShape names (.app head arg) =
      typeFromConst con ((wireArgsForConstructor con args).map (wireShape names)) := by
  rw [wireShape, fromTypeWith]
  split
  · next isOther =>
      cases isOther.symm.trans isApp
      rw [fromTypesWith_id]
      rfl
  · next isNone => cases isNone.symm.trans isApp

theorem wireShape_app {head arg : Typ} (isApp : constructorApp (.app head arg) = none) :
    wireShape names (.app head arg) = .app (wireShape names head) (wireShape names arg) := by
  rw [wireShape, fromTypeWith]
  split
  · next isOther => cases isOther.symm.trans isApp
  · rfl

theorem wireShape_func (arg ret : Typ) :
    wireShape names (.func arg ret) =
      .func ((decomposeFunType (.func arg ret)).1.map (wireShape names))
        (wireShape names (decomposeFunType (.func arg ret)).2) := by
  rw [wireShape, fromTypeWith, fromTypesWith_id]
  rfl

@[simp]
theorem wireShape_tuple (elems : List Typ) :
    wireShape names (.tuple elems) = .tuple (elems.map (wireShape names)) := by
  rw [wireShape, fromTypeWith, fromTypesWith_id]
  rfl

@[simp]
theorem wireShape_record (fields : List (Symbol × Typ)) :
    wireShape names (.record fields) =
      .record (fields.map fun field => ⟨field.1, wireShape names field.2, none⟩) := by
  rw [wireShape, fromTypeWith, fromFieldsWith_id]
  rfl

end Shape

theorem mem_ftv_constructorApp {typ : Typ} {con : TypeConst} {args : List Typ}
    (isApp : constructorApp typ = some (con, args)) {id : TypeVarId} :
    id ∈ typ.ftv ↔ ∃ arg ∈ args, id ∈ arg.ftv := by
  have spine := (spine_of_constructorApp isApp).1
  have parts := Typ.mem_ftv_spine id typ []
  simpa [spine, Typ.ftv, eq_comm] using parts.symm

theorem wireShape_congr {first second : TypeVarId → String} {typ : Typ}
    (agree : ∀ id ∈ typ.ftv, first id = second id) : wireShape first typ = wireShape second typ := by
  induction typ using Typ.wireInduction with
  | var typeVar => simp [agree typeVar.id (by simp [Typ.ftv])]
  | con const => simp
  | construct head arg con args isApp hypothesis =>
      have same : (wireArgsForConstructor con args).map (wireShape first) =
          (wireArgsForConstructor con args).map (wireShape second) :=
        List.map_congr_left fun other member =>
          hypothesis other (mem_wireArgs.mp member) fun id inside =>
            agree id ((mem_ftv_constructorApp isApp).mpr ⟨other, mem_wireArgs.mp member, inside⟩)
      rw [wireShape_construct first isApp, wireShape_construct second isApp, same]
  | app head arg isApp onHead onArg =>
      rw [wireShape_app first isApp, wireShape_app second isApp,
        onHead fun id inside => agree id (by simp [Typ.ftv, inside]),
        onArg fun id inside => agree id (by simp [Typ.ftv, inside])]
  | func arg ret onParams onRet =>
      have member (id : TypeVarId) := Typ.mem_ftv_decomposeFunType id (.func arg ret)
      rw [wireShape_func, wireShape_func, onRet fun id inside =>
        agree id ((member id).mp (.inr inside))]
      congr 1
      exact List.map_congr_left fun param isParam => onParams param isParam fun id inside =>
        agree id ((member id).mp (.inl ⟨param, isParam, inside⟩))
  | tuple elems onElems =>
      rw [wireShape_tuple, wireShape_tuple, List.map_congr_left fun elem member =>
        onElems elem member fun id inside =>
          agree id (by simpa [Typ.ftv, Typ.mem_ftvList] using ⟨elem, member, inside⟩)]
  | record fields onFields =>
      rw [wireShape_record, wireShape_record, List.map_congr_left fun field member => by
        rw [onFields field member fun id inside =>
          agree id (by simpa [Typ.ftv, Typ.mem_ftvFields] using ⟨field.1, field.2, member, inside⟩)]]

/-! ## Renaming -/

namespace Typ

section Rename

variable (assign : TypeVarId → TypeVar)

theorem rename_spine (typ : Typ) (args : List Typ) :
    (typ.rename assign).spine (args.map (rename assign)) =
      ((typ.spine args).1.rename assign, (typ.spine args).2.map (rename assign)) := by
  induction typ using inductionOn generalizing args with
  | app head arg hypothesis _ => exact hypothesis (arg :: args)
  | tuple | record => simp [spine]
  | _ => rfl

theorem rename_decomposeFunType (typ : Typ) :
    decomposeFunType (typ.rename assign) =
      ((decomposeFunType typ).1.map (rename assign), (decomposeFunType typ).2.rename assign) := by
  induction typ using inductionOn with
  | func arg ret _ hypothesis => simp [decomposeFunType, hypothesis]
  | tuple | record => simp [decomposeFunType]
  | _ => rfl

theorem Every.rename {var weaker : TypeVar → Prop} {con : TypeConst → Prop}
    {labels : List Symbol → Prop} {assign : TypeVarId → TypeVar} {typ : Typ}
    (every : typ.Every var con labels) (holds : ∀ id ∈ typ.ftv, weaker (assign id)) :
    (typ.rename assign).Every weaker con labels := by
  induction every with
  | @var typeVar _ => exact .var (holds typeVar.id (by simp [ftv]))
  | con isCon => exact .con isCon
  | app _ _ onHead onArg =>
      exact .app (onHead fun id member => holds id (by simp [ftv, member]))
        (onArg fun id member => holds id (by simp [ftv, member]))
  | func _ _ onArg onRet =>
      exact .func (onArg fun id member => holds id (by simp [ftv, member]))
        (onRet fun id member => holds id (by simp [ftv, member]))
  | @tuple elems _ onElems =>
      rw [rename_tuple]
      refine .tuple fun elem member => ?_
      obtain ⟨other, isOther, rfl⟩ := List.mem_map.mp member
      exact onElems other isOther fun id inside =>
        holds id (by simpa [ftv, mem_ftvList] using ⟨other, isOther, inside⟩)
  | @record fields isLabels _ onFields =>
      rw [rename_record]
      refine .record (by simpa [Function.comp_def] using isLabels) fun field member => ?_
      obtain ⟨other, isOther, rfl⟩ := List.mem_map.mp member
      exact onFields other isOther fun id inside =>
        holds id (by simpa [ftv, mem_ftvFields] using ⟨other.1, other.2, isOther, inside⟩)

end Rename

end Typ

theorem constructorApp_rename (assign : TypeVarId → TypeVar) (typ : Typ) :
    constructorApp (typ.rename assign) =
      (constructorApp typ).map fun app => (app.1, app.2.map (Typ.rename assign)) := by
  have spine := Typ.rename_spine assign typ []
  rw [List.map_nil] at spine
  rw [constructorApp, constructorApp, decomposeTypeApp, decomposeTypeApp, spine]
  generalize typ.spine [] = parts
  obtain ⟨head, args⟩ := parts
  cases head with
  | con const =>
      by_cases few : args.length ≤ const.arity
      · simp [Option.filter, few]
      · simp [Option.filter, few]
  | var typeVar => rfl
  | app head arg => rfl
  | func arg ret => rfl
  | tuple elems => simp
  | record fields => simp

theorem wireArgs_map (con : TypeConst) (args : List Typ) (change : Typ → Typ) :
    wireArgsForConstructor con (args.map change) = (wireArgsForConstructor con args).map change := by
  rw [wireArgsForConstructor.eq_def con args]
  split
  · rfl
  · next different =>
      rw [wireArgsForConstructor.eq_def]
      split
      · next err ok isPair =>
          obtain ⟨first, rest, rfl, rfl, isRest⟩ := List.map_eq_cons_iff.mp isPair
          obtain ⟨second, none, rfl, rfl, isNone⟩ := List.map_eq_cons_iff.mp isRest
          rw [List.map_eq_nil_iff.mp isNone] at different
          exact absurd rfl (different first second rfl)
      · rfl

/-- Renaming the variables renames what the naming is asked for. -/
theorem wireShape_rename (names : TypeVarId → String) (assign : TypeVarId → TypeVar) (typ : Typ) :
    wireShape names (typ.rename assign) = wireShape (fun id => names (assign id).id) typ := by
  induction typ using Typ.wireInduction with
  | var typeVar => simp
  | con const => simp
  | construct head arg con args isApp hypothesis =>
      have renamed : constructorApp (.app (head.rename assign) (arg.rename assign)) =
          some (con, args.map (Typ.rename assign)) := by
        rw [← Typ.rename_app, constructorApp_rename, isApp]
        rfl
      rw [Typ.rename_app, wireShape_construct names renamed, wireShape_construct _ isApp,
        wireArgs_map, List.map_map]
      congr 1
      exact List.map_congr_left fun other member => hypothesis other (mem_wireArgs.mp member)
  | app head arg isApp onHead onArg =>
      have renamed : constructorApp (.app (head.rename assign) (arg.rename assign)) = none := by
        rw [← Typ.rename_app, constructorApp_rename, isApp]
        rfl
      rw [Typ.rename_app, wireShape_app names renamed, wireShape_app _ isApp, onHead, onArg]
  | func arg ret onParams onRet =>
      have parts := Typ.rename_decomposeFunType assign (.func arg ret)
      rw [Typ.rename_func] at parts ⊢
      rw [wireShape_func, wireShape_func, parts]
      simp only [List.map_map, onRet]
      congr 1
      exact List.map_congr_left fun param isParam => onParams param isParam
  | tuple elems onElems =>
      simp only [Typ.rename_tuple, wireShape_tuple, List.map_map, WireType.tuple.injEq]
      exact List.map_congr_left onElems
  | record fields onFields =>
      simp only [Typ.rename_record, wireShape_record, List.map_map, WireType.record.injEq]
      refine List.map_congr_left fun field member => ?_
      simp [onFields field member]

end RexLang
