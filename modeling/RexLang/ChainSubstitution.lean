import RexLang.TypedExpr
import RexLang.TypeSubstitution

/-!
# Substitution along flattened chains

The program does not descend along function types, lambdas and applications
when it substitutes: it takes such a chain apart into a list and builds it up
again.  The result is that of the structural substitution.
-/

namespace RexLang

namespace Typ

/-! ## Types -/

mutual

/-- `Type::apply_with_change`: the image and whether it was built anew. -/
def applyWithChange (subst : Subst) : Typ → Typ × Bool
  | .var typeVar =>
      match subst.lookup typeVar.id with
      | some typ => (typ, true)
      | none => (.var typeVar, false)
  | .con const => (.con const, false)
  | .app head arg =>
      let (headNew, headChanged) := applyWithChange subst head
      let (argNew, argChanged) := applyWithChange subst arg
      if headChanged || argChanged then (.app headNew argNew, true) else (.app head arg, false)
  | .func arg ret =>
      -- The first round of the loop, which is entered at a function type.
      let (argNew, argChanged) := applyWithChange subst arg
      let (args, changed, retNew) := applyChain subst [argNew] argChanged ret
      if !changed then (.func arg ret, false) else (args.foldr .func retNew, true)
  | .tuple elems =>
      let (out, changed) := applyElemsWithChange subst elems
      if changed then (.tuple out, true) else (.tuple elems, false)
  | .record fields =>
      let (out, changed) := applyFieldsWithChange subst fields
      if changed then (.record out, true) else (.record fields, false)
termination_by typ => (sizeOf typ, 0)

/-- The loop along a chain of functions: the arguments so far, whether one of
them changed, and the rest of the chain. -/
def applyChain (subst : Subst) (args : List Typ) (changed : Bool) : Typ → List Typ × Bool × Typ
  | .func arg ret =>
      let (argNew, argChanged) := applyWithChange subst arg
      applyChain subst (args ++ [argNew]) (changed || argChanged) ret
  | cur =>
      let (retNew, retChanged) := applyWithChange subst cur
      (args, changed || retChanged, retNew)
termination_by typ => (sizeOf typ, 1)

def applyElemsWithChange (subst : Subst) : List Typ → List Typ × Bool
  | [] => ([], false)
  | elem :: elems =>
      let (elemNew, elemChanged) := applyWithChange subst elem
      let (out, changed) := applyElemsWithChange subst elems
      (elemNew :: out, elemChanged || changed)
termination_by elems => (sizeOf elems, 0)

def applyFieldsWithChange (subst : Subst) : List (Symbol × Typ) → List (Symbol × Typ) × Bool
  | [] => ([], false)
  | (name, typ) :: fields =>
      let (typNew, typChanged) := applyWithChange subst typ
      let (out, changed) := applyFieldsWithChange subst fields
      ((name, typNew) :: out, typChanged || changed)
termination_by fields => (sizeOf fields, 0)

end

/-- `Type::apply`, which is `applyWithChange` without the flag. -/
def applyAlongChains (subst : Subst) (typ : Typ) : Typ :=
  (applyWithChange subst typ).1

/-- The result is the image of the type, and unchanged types are flagged so. -/
structure Substitutes (subst : Subst) (typ : Typ) (result : Typ × Bool) : Prop where
  image : result.1 = typ.apply subst
  unchanged : result.2 = false → typ.apply subst = typ

/-- What the loop along a chain makes of the rest of the chain. -/
def ContinuesChain (subst : Subst) (typ : Typ) : Prop :=
  ∀ args changed, ∃ args' changed' ret,
    applyChain subst args changed typ = (args', changed', ret) ∧
      args'.foldr Typ.func ret = args.foldr Typ.func (typ.apply subst) ∧
      (changed' = false → changed = false ∧ typ.apply subst = typ)

variable {subst : Subst}

/-- A type is built anew only when one of its parts changed. -/
theorem substitutes_of_parts {typ typNew : Typ} {changed : Bool} (image : typNew = typ.apply subst)
    (unchanged : changed = false → typ.apply subst = typ) :
    Substitutes subst typ (if changed then (typNew, true) else (typ, false)) := by
  cases changed with
  | true => exact ⟨image, by simp⟩
  | false => exact ⟨(unchanged rfl).symm, unchanged⟩

/-- The loop ends at a type that is no function type. -/
theorem continuesChain_of_not_func {typ : Typ} (notFunc : ∀ arg ret, typ ≠ .func arg ret)
    (substitutes : Substitutes subst typ (applyWithChange subst typ)) :
    ContinuesChain subst typ := by
  intro args changed
  have ends : applyChain subst args changed typ =
      (args, changed || (applyWithChange subst typ).2, (applyWithChange subst typ).1) := by
    cases typ with
    | func arg ret => exact (notFunc arg ret rfl).elim
    | _ => rw [applyChain]; simp
  refine ⟨_, _, _, ends, by rw [substitutes.image], fun unchanged => ?_⟩
  have both := Bool.or_eq_false_iff.mp unchanged
  exact ⟨both.1, substitutes.unchanged both.2⟩

theorem applyElemsWithChange_spec {elems : List Typ}
    (substitutes : ∀ elem ∈ elems, Substitutes subst elem (applyWithChange subst elem)) :
    (applyElemsWithChange subst elems).1 = elems.map (apply subst) ∧
      ((applyElemsWithChange subst elems).2 = false → elems.map (apply subst) = elems) := by
  induction elems with
  | nil => simp [applyElemsWithChange]
  | cons elem elems hypothesis =>
      have first := substitutes elem List.mem_cons_self
      have rest := hypothesis fun other member => substitutes other (.tail _ member)
      rw [applyElemsWithChange]
      refine ⟨by simp [first.image, rest.1], fun unchanged => ?_⟩
      have both := Bool.or_eq_false_iff.mp unchanged
      rw [List.map_cons, first.unchanged both.1, rest.2 both.2]

theorem applyFieldsWithChange_spec {fields : List (Symbol × Typ)}
    (substitutes : ∀ field ∈ fields, Substitutes subst field.2 (applyWithChange subst field.2)) :
    (applyFieldsWithChange subst fields).1 = applyFields subst fields ∧
      ((applyFieldsWithChange subst fields).2 = false → applyFields subst fields = fields) := by
  induction fields with
  | nil => simp [applyFieldsWithChange, applyFields]
  | cons field fields hypothesis =>
      obtain ⟨name, typ⟩ := field
      have first := substitutes _ List.mem_cons_self
      have rest := hypothesis fun other member => substitutes other (.tail _ member)
      rw [applyFieldsWithChange, applyFields]
      refine ⟨by simp [first.image, rest.1], fun unchanged => ?_⟩
      have both := Bool.or_eq_false_iff.mp unchanged
      rw [first.unchanged both.1, rest.2 both.2]

theorem substitutes_func {arg ret : Typ}
    (substitutes : Substitutes subst arg (applyWithChange subst arg))
    (continues : ContinuesChain subst ret) :
    Substitutes subst (.func arg ret) (applyWithChange subst (.func arg ret)) := by
  obtain ⟨args, changed, retNew, isChain, rebuilt, unchanged⟩ :=
    continues [(applyWithChange subst arg).1] (applyWithChange subst arg).2
  have stays : changed = false → (Typ.func arg ret).apply subst = .func arg ret := by
    intro isFalse
    have both := unchanged isFalse
    rw [apply, substitutes.unchanged both.1, both.2]
  have image : args.foldr Typ.func retNew = (Typ.func arg ret).apply subst := by
    rw [rebuilt, apply, ← substitutes.image]
    rfl
  have either := substitutes_of_parts image stays
  rw [applyWithChange]
  cases changed with
  | true => simpa [isChain] using either
  | false => simpa [isChain] using either

theorem continuesChain_func {arg ret : Typ}
    (substitutes : Substitutes subst arg (applyWithChange subst arg))
    (continues : ContinuesChain subst ret) : ContinuesChain subst (.func arg ret) := by
  intro args changed
  obtain ⟨args', changed', retNew, isChain, rebuilt, unchanged⟩ :=
    continues (args ++ [(applyWithChange subst arg).1]) (changed || (applyWithChange subst arg).2)
  refine ⟨args', changed', retNew, by rw [applyChain]; exact isChain, ?_, fun isFalse => ?_⟩
  · rw [rebuilt, List.foldr_append, apply, substitutes.image]
    rfl
  · have both := unchanged isFalse
    have either := Bool.or_eq_false_iff.mp both.1
    rw [apply, substitutes.unchanged either.2, both.2]
    exact ⟨either.1, rfl⟩

theorem substitutes_and_continues (subst : Subst) (typ : Typ) :
    Substitutes subst typ (applyWithChange subst typ) ∧ ContinuesChain subst typ := by
  induction typ using inductionOn with
  | var typeVar =>
      have substitutes : Substitutes subst (.var typeVar) (applyWithChange subst (.var typeVar)) := by
        rw [applyWithChange]
        cases found : subst.lookup typeVar.id with
        | none => exact ⟨by simp [apply, found], fun _ => by simp [apply, found]⟩
        | some typ => exact ⟨by simp [apply, found], by simp⟩
      exact ⟨substitutes, continuesChain_of_not_func (by simp) substitutes⟩
  | con const =>
      have substitutes : Substitutes subst (.con const) (applyWithChange subst (.con const)) := by
        rw [applyWithChange]
        exact ⟨rfl, fun _ => rfl⟩
      exact ⟨substitutes, continuesChain_of_not_func (by simp) substitutes⟩
  | app head arg inHead inArg =>
      have substitutes : Substitutes subst (.app head arg) (applyWithChange subst (.app head arg)) := by
        rw [applyWithChange]
        refine substitutes_of_parts (by rw [apply, inHead.1.image, inArg.1.image]) fun unchanged => ?_
        have both := Bool.or_eq_false_iff.mp unchanged
        rw [apply, inHead.1.unchanged both.1, inArg.1.unchanged both.2]
      exact ⟨substitutes, continuesChain_of_not_func (by simp) substitutes⟩
  | func arg ret inArg inRet =>
      exact ⟨substitutes_func inArg.1 inRet.2, continuesChain_func inArg.1 inRet.2⟩
  | tuple elems inElem =>
      have spec := applyElemsWithChange_spec fun elem member => (inElem elem member).1
      have substitutes : Substitutes subst (.tuple elems) (applyWithChange subst (.tuple elems)) := by
        rw [applyWithChange]
        refine substitutes_of_parts ?_ fun unchanged => ?_
        · rw [apply, applyList_eq_map, spec.1]
        · rw [apply, applyList_eq_map, spec.2 unchanged]
      exact ⟨substitutes, continuesChain_of_not_func (by simp) substitutes⟩
  | record fields inField =>
      have spec := applyFieldsWithChange_spec fun field member => (inField field member).1
      have substitutes : Substitutes subst (.record fields) (applyWithChange subst (.record fields)) := by
        rw [applyWithChange]
        refine substitutes_of_parts (by rw [apply, spec.1]) fun unchanged => ?_
        rw [apply, spec.2 unchanged]
      exact ⟨substitutes, continuesChain_of_not_func (by simp) substitutes⟩

theorem applyAlongChains_eq (subst : Subst) (typ : Typ) :
    typ.applyAlongChains subst = typ.apply subst :=
  (substitutes_and_continues subst typ).1.image

end Typ

/-! ## Chains of applications -/

namespace TypedExpr

/-- `matches!(kind, App(..))`. -/
def isApp : TypedExpr → Bool
  | mk _ (.app _ _) => true
  | _ => false

/-- An application with the type of its node. -/
def appTo (func : TypedExpr) (typedArg : Typ × TypedExpr) : TypedExpr :=
  mk typedArg.1 (.app func typedArg.2)

/-- The loop of `collect_typed_app_chain`. -/
def appChainLoop (args : List (Typ × TypedExpr)) :
    TypedExpr → TypedExpr × List (Typ × TypedExpr)
  | mk typ (.app func arg) => appChainLoop (args ++ [(typ, arg)]) func
  | cur => (cur, args)

/-- `collect_typed_app_chain`. -/
def collectTypedAppChain (expr : TypedExpr) : TypedExpr × List (Typ × TypedExpr) :=
  let (head, args) := appChainLoop [] expr
  (head, args.reverse)

/-- `TypedTailAppFrame`. -/
structure TypedTailAppFrame where
  head : TypedExpr
  prefixArgs : List (Typ × TypedExpr)
  tailResultType : Typ

/-- The application of a frame to its last argument. -/
def TypedTailAppFrame.build (frame : TypedTailAppFrame) (tail : TypedExpr) : TypedExpr :=
  .mk frame.tailResultType (.app (frame.prefixArgs.foldl appTo frame.head) tail)

theorem foldl_appChainLoop (args : List (Typ × TypedExpr)) (expr : TypedExpr) :
    (appChainLoop args expr).2.reverse.foldl appTo (appChainLoop args expr).1 =
      args.reverse.foldl appTo expr := by
  fun_induction appChainLoop args expr with
  | case1 args typ func arg hypothesis =>
      rw [hypothesis, List.reverse_append]
      rfl
  | case2 => rfl

/-- Taking a chain of applications apart loses nothing. -/
theorem foldl_collectTypedAppChain (expr : TypedExpr) :
    (collectTypedAppChain expr).2.foldl appTo (collectTypedAppChain expr).1 = expr :=
  foldl_appChainLoop [] expr

theorem sizeOf_le_foldl_appTo (args : List (Typ × TypedExpr)) (head : TypedExpr) :
    sizeOf head ≤ sizeOf (args.foldl appTo head) := by
  induction args generalizing head with
  | nil => exact Nat.le_refl _
  | cons arg args hypothesis =>
      have next := hypothesis (appTo head arg)
      have one : sizeOf head < sizeOf (appTo head arg) := by
        simp [appTo]
        omega
      rw [List.foldl_cons]
      omega

theorem sizeOf_lt_foldl_appTo {args : List (Typ × TypedExpr)} {arg : Typ × TypedExpr}
    (member : arg ∈ args) (head : TypedExpr) :
    sizeOf arg.2 < sizeOf (args.foldl appTo head) := by
  induction args generalizing head with
  | nil => cases member
  | cons first args hypothesis =>
      rw [List.foldl_cons]
      rcases List.mem_cons.mp member with rfl | member
      · have one : sizeOf arg.2 < sizeOf (appTo head arg) := by
          simp [appTo]
          omega
        have rest := sizeOf_le_foldl_appTo args (appTo head arg)
        omega
      · exact hypothesis member (appTo head first)

/-- The parts of the applications that a loop meets after its first round. -/
theorem sizeOf_lt_of_mem_appChainLoop {typ : Typ} {func arg : TypedExpr}
    {member : Typ × TypedExpr} (isArg : member ∈ (appChainLoop [(typ, arg)] func).2) :
    sizeOf member.2 < sizeOf (mk typ (.app func arg)) := by
  have smaller := sizeOf_lt_foldl_appTo (List.mem_reverse.mpr isArg)
    (appChainLoop [(typ, arg)] func).1
  rwa [foldl_appChainLoop] at smaller

theorem sizeOf_appChainLoop_le (args : List (Typ × TypedExpr)) (expr : TypedExpr) :
    sizeOf (appChainLoop args expr).1 ≤ sizeOf expr := by
  fun_induction appChainLoop args expr with
  | case1 args typ func arg hypothesis =>
      simp only [mk.sizeOf_spec, TypedExprKind.app.sizeOf_spec]
      omega
  | case2 => exact Nat.le_refl _

theorem sizeOf_lt_of_mem_collectTypedAppChain {expr : TypedExpr} {arg : Typ × TypedExpr}
    (member : arg ∈ (collectTypedAppChain expr).2) : sizeOf arg.2 < sizeOf expr := by
  have smaller := sizeOf_lt_foldl_appTo member (collectTypedAppChain expr).1
  rwa [foldl_collectTypedAppChain] at smaller

/-- The loop of `collect_typed_tail_app_chain`. -/
def tailAppChainLoop (frames : List TypedTailAppFrame) (cur : TypedExpr) :
    TypedExpr × List TypedTailAppFrame :=
  if cur.isApp then
    match _popped : (collectTypedAppChain cur).2.getLast? with
    | none => (cur, frames)
    | some (tailResultType, tail) =>
        if tail.isApp then
          tailAppChainLoop (frames ++ [{
            head := (collectTypedAppChain cur).1
            prefixArgs := (collectTypedAppChain cur).2.dropLast
            tailResultType }]) tail
        else (cur, frames)
  else (cur, frames)
termination_by sizeOf cur
decreasing_by exact sizeOf_lt_of_mem_collectTypedAppChain (List.mem_of_getLast? _popped)

/-- `collect_typed_tail_app_chain`. -/
def collectTypedTailAppChain (expr : TypedExpr) : Option (TypedExpr × List TypedTailAppFrame) :=
  let (cur, frames) := tailAppChainLoop [] expr
  if !frames.isEmpty then some (cur, frames) else none

/-- A frame is taken off an application whose last argument goes on the chain. -/
theorem build_of_getLast? {expr tail : TypedExpr} {typ : Typ}
    (popped : (collectTypedAppChain expr).2.getLast? = some (typ, tail)) :
    TypedTailAppFrame.build ⟨(collectTypedAppChain expr).1,
      (collectTypedAppChain expr).2.dropLast, typ⟩ tail = expr := by
  have same := foldl_collectTypedAppChain expr
  rw [← List.dropLast_append_getLast? _ popped, List.foldl_append] at same
  exact same

theorem foldr_tailAppChainLoop (frames : List TypedTailAppFrame) (expr : TypedExpr) :
    (tailAppChainLoop frames expr).2.foldr TypedTailAppFrame.build (tailAppChainLoop frames expr).1 =
      frames.foldr TypedTailAppFrame.build expr := by
  fun_induction tailAppChainLoop frames expr with
  | case2 frames cur isApp typ tail popped isTailApp hypothesis =>
      rw [hypothesis, List.foldr_append, List.foldr_cons, List.foldr_nil, build_of_getLast? popped]
  | _ => rfl

/-- Taking a chain of last arguments apart loses nothing. -/
theorem foldr_collectTypedTailAppChain {expr leaf : TypedExpr} {frames : List TypedTailAppFrame}
    (found : collectTypedTailAppChain expr = some (leaf, frames)) :
    frames.foldr TypedTailAppFrame.build leaf = expr ∧ frames ≠ [] := by
  have same := foldr_tailAppChainLoop [] expr
  simp only [collectTypedTailAppChain] at found
  split_ifs at found with nonempty
  cases found
  exact ⟨same, by simpa using nonempty⟩

theorem sizeOf_lt_build (frame : TypedTailAppFrame) (tail : TypedExpr) :
    sizeOf tail < sizeOf (frame.build tail) ∧ sizeOf frame.head < sizeOf (frame.build tail) ∧
      ∀ arg ∈ frame.prefixArgs, sizeOf arg.2 < sizeOf (frame.build tail) := by
  have size : sizeOf (frame.build tail) =
      1 + sizeOf frame.tailResultType +
        (1 + sizeOf (frame.prefixArgs.foldl appTo frame.head) + sizeOf tail) := by
    simp [TypedTailAppFrame.build]
  have head := sizeOf_le_foldl_appTo frame.prefixArgs frame.head
  refine ⟨by omega, by omega, fun arg member => ?_⟩
  have smaller := sizeOf_lt_foldl_appTo member frame.head
  omega

theorem sizeOf_le_foldr_build (frames : List TypedTailAppFrame) (leaf : TypedExpr) :
    sizeOf leaf ≤ sizeOf (frames.foldr TypedTailAppFrame.build leaf) := by
  induction frames with
  | nil => exact Nat.le_refl _
  | cons frame frames hypothesis =>
      have next := (sizeOf_lt_build frame (frames.foldr TypedTailAppFrame.build leaf)).1
      rw [List.foldr_cons]
      omega

theorem sizeOf_lt_foldr_build {frames : List TypedTailAppFrame} {frame : TypedTailAppFrame}
    (member : frame ∈ frames) (leaf : TypedExpr) :
    sizeOf leaf < sizeOf (frames.foldr TypedTailAppFrame.build leaf) ∧
      sizeOf frame.head < sizeOf (frames.foldr TypedTailAppFrame.build leaf) ∧
      ∀ arg ∈ frame.prefixArgs,
        sizeOf arg.2 < sizeOf (frames.foldr TypedTailAppFrame.build leaf) := by
  induction frames with
  | nil => cases member
  | cons first frames hypothesis =>
      have here := sizeOf_lt_build first (frames.foldr TypedTailAppFrame.build leaf)
      have below := sizeOf_le_foldr_build frames leaf
      rw [List.foldr_cons]
      rcases List.mem_cons.mp member with rfl | member
      · exact ⟨by omega, here.2.1, here.2.2⟩
      · have there := hypothesis member
        refine ⟨by omega, by omega, fun arg isArg => ?_⟩
        have smaller := there.2.2 arg isArg
        omega

/-- The parts of a chain are smaller than the expression. -/
theorem sizeOf_lt_of_collectTypedTailAppChain {expr leaf : TypedExpr}
    {frames : List TypedTailAppFrame}
    (found : collectTypedTailAppChain expr = some (leaf, frames)) :
    sizeOf leaf < sizeOf expr ∧ ∀ frame ∈ frames, sizeOf frame.head < sizeOf expr ∧
      ∀ arg ∈ frame.prefixArgs, sizeOf arg.2 < sizeOf expr := by
  obtain ⟨rfl, nonempty⟩ := foldr_collectTypedTailAppChain found
  obtain ⟨first, isFirst⟩ := List.exists_mem_of_ne_nil frames nonempty
  exact ⟨(sizeOf_lt_foldr_build isFirst leaf).1,
    fun frame member => (sizeOf_lt_foldr_build member leaf).2⟩

/-! ## Chains of lambdas -/

/-- A lambda with the type of its node. -/
def lamOf (typedParam : Symbol × Typ) (body : TypedExpr) : TypedExpr :=
  mk typedParam.2 (.lam typedParam.1 body)

/-- The loop of `apply` along a chain of lambdas. -/
def lamChainLoop (subst : Subst) (params : List (Symbol × Typ)) :
    TypedExpr → List (Symbol × Typ) × TypedExpr
  | mk typ (.lam param body) =>
      lamChainLoop subst (params ++ [(param, typ.applyAlongChains subst)]) body
  | cur => (params, cur)

theorem sizeOf_lamChainLoop_le (subst : Subst) (params : List (Symbol × Typ)) (expr : TypedExpr) :
    sizeOf (lamChainLoop subst params expr).2 ≤ sizeOf expr := by
  fun_induction lamChainLoop subst params expr with
  | case1 params typ param body hypothesis =>
      simp only [mk.sizeOf_spec, TypedExprKind.lam.sizeOf_spec]
      omega
  | case2 => exact Nat.le_refl _

/-! ## Typed expressions -/

/-- `TypedExpr::apply`.  Maps are rebuilt key by key. -/
def applyAlongChains (subst : Subst) : TypedExpr → TypedExpr
  | mk typ (.lam param body) =>
      let params := lamChainLoop subst [(param, typ.applyAlongChains subst)] body
      params.1.foldr lamOf (applyAlongChains subst params.2)
  | mk typ (.app func arg) =>
      match _found : collectTypedTailAppChain (mk typ (.app func arg)) with
      | some (leaf, frames) =>
          frames.attach.foldr (fun ⟨frame, _isFrame⟩ out =>
            mk (frame.tailResultType.applyAlongChains subst) (.app
              (frame.prefixArgs.attach.foldl (fun typed ⟨(argTyp, arg), _isArg⟩ =>
                mk (argTyp.applyAlongChains subst) (.app typed (applyAlongChains subst arg)))
                (applyAlongChains subst frame.head)) out))
            (applyAlongChains subst leaf)
      | none =>
          -- The loop of `collect_typed_app_chain` again, on the same expression.
          let apps := appChainLoop [(typ, arg)] func
          apps.2.attach.foldr (fun ⟨(argTyp, arg), _isArg⟩ out =>
            mk (argTyp.applyAlongChains subst) (.app out (applyAlongChains subst arg)))
            (applyAlongChains subst apps.1)
  | mk typ (.bool value) => mk (typ.applyAlongChains subst) (.bool value)
  | mk typ (.uint value) => mk (typ.applyAlongChains subst) (.uint value)
  | mk typ (.int value) => mk (typ.applyAlongChains subst) (.int value)
  | mk typ (.float value) => mk (typ.applyAlongChains subst) (.float value)
  | mk typ (.char value) => mk (typ.applyAlongChains subst) (.char value)
  | mk typ (.string value) => mk (typ.applyAlongChains subst) (.string value)
  | mk typ (.uuid value) => mk (typ.applyAlongChains subst) (.uuid value)
  | mk typ (.dateTime nanos) => mk (typ.applyAlongChains subst) (.dateTime nanos)
  | mk typ .hole => mk (typ.applyAlongChains subst) .hole
  | mk typ (.tuple elems) =>
      mk (typ.applyAlongChains subst) (.tuple (elems.map fun elem => applyAlongChains subst elem))
  | mk typ (.list elems) =>
      mk (typ.applyAlongChains subst) (.list (elems.map fun elem => applyAlongChains subst elem))
  | mk typ (.dict kvs) =>
      mk (typ.applyAlongChains subst) (.dict (kvs.map fun entry =>
        (entry.1, applyAlongChains subst entry.2)))
  | mk typ (.recordUpdate base updates) =>
      mk (typ.applyAlongChains subst) (.recordUpdate (applyAlongChains subst base)
        (updates.map fun entry => (entry.1, applyAlongChains subst entry.2)))
  | mk typ (.classMethod name) => mk (typ.applyAlongChains subst) (.classMethod name)
  | mk typ (.var name overloads) =>
      mk (typ.applyAlongChains subst) (.var name (overloads.map (Typ.applyAlongChains subst)))
  | mk typ (.project expr field) =>
      mk (typ.applyAlongChains subst) (.project (applyAlongChains subst expr) field)
  | mk typ (.letIn name defn body) =>
      mk (typ.applyAlongChains subst)
        (.letIn name (applyAlongChains subst defn) (applyAlongChains subst body))
  | mk typ (.letRec bindings body) =>
      mk (typ.applyAlongChains subst) (.letRec
        (bindings.map fun binding => (binding.1, applyAlongChains subst binding.2))
        (applyAlongChains subst body))
  | mk typ (.ite cond thenExpr elseExpr) =>
      mk (typ.applyAlongChains subst) (.ite (applyAlongChains subst cond)
        (applyAlongChains subst thenExpr) (applyAlongChains subst elseExpr))
  | mk typ (.matchWith scrutinee arms) =>
      mk (typ.applyAlongChains subst) (.matchWith (applyAlongChains subst scrutinee)
        (arms.map fun arm => (arm.1, applyAlongChains subst arm.2)))
termination_by expr => sizeOf expr
decreasing_by
  all_goals try decreasing_tactic
  · have smaller := sizeOf_lamChainLoop_le subst [(param, typ.applyAlongChains subst)] body
    simp only [mk.sizeOf_spec, TypedExprKind.lam.sizeOf_spec]
    omega
  · have parts := (sizeOf_lt_of_collectTypedTailAppChain _found).2 frame _isFrame
    exact parts.2 _ _isArg
  · exact ((sizeOf_lt_of_collectTypedTailAppChain _found).2 frame _isFrame).1
  · exact (sizeOf_lt_of_collectTypedTailAppChain _found).1
  · exact sizeOf_lt_of_mem_appChainLoop _isArg
  · have smaller := sizeOf_appChainLoop_le [(typ, arg)] func
    simp only [mk.sizeOf_spec, TypedExprKind.app.sizeOf_spec]
    omega
  all_goals
    next member =>
      have smaller := List.sizeOf_lt_of_mem member
      simp only [mk.sizeOf_spec, TypedExprKind.dict.sizeOf_spec,
        TypedExprKind.recordUpdate.sizeOf_spec, TypedExprKind.letRec.sizeOf_spec,
        TypedExprKind.matchWith.sizeOf_spec]
      first
      | have part := sizeOf_snd_lt entry; omega
      | have part := sizeOf_snd_lt binding; omega
      | have part := sizeOf_snd_lt arm; omega

/-! ## The chains substitute as the structure does -/

/-- A loop over the members of a list is the loop over the list. -/
theorem foldl_attach_congr {Item Result : Type} {items : List Item}
    {step : Result → {item // item ∈ items} → Result} {plain : Result → Item → Result}
    (same : ∀ out item (member : item ∈ items), step out ⟨item, member⟩ = plain out item)
    (out : Result) : items.attach.foldl step out = items.foldl plain out := by
  have isPlain : step = fun out item => plain out item.1 := by
    funext out item
    exact same out item.1 item.2
  rw [isPlain, List.foldl_attach]

theorem foldr_attach_congr {Item Result : Type} {items : List Item}
    {step : {item // item ∈ items} → Result → Result} {plain : Item → Result → Result}
    (same : ∀ item (member : item ∈ items) out, step ⟨item, member⟩ out = plain item out)
    (out : Result) : items.attach.foldr step out = items.foldr plain out := by
  have isPlain : step = fun item out => plain item.1 out := by
    funext item out
    exact same item.1 item.2 out
  rw [isPlain, List.foldr_attach]

/-- The argument of an application under a substitution, with its type. -/
def applyArg (subst : Subst) (typedArg : Typ × TypedExpr) : Typ × TypedExpr :=
  (typedArg.1.apply subst, typedArg.2.apply subst)

theorem apply_appTo (subst : Subst) (func : TypedExpr) (typedArg : Typ × TypedExpr) :
    (appTo func typedArg).apply subst = appTo (func.apply subst) (applyArg subst typedArg) := rfl

theorem apply_foldl_appTo (subst : Subst) (args : List (Typ × TypedExpr)) (head : TypedExpr) :
    (args.foldl appTo head).apply subst =
      args.foldl (fun typed arg => appTo typed (applyArg subst arg)) (head.apply subst) := by
  induction args generalizing head with
  | nil => rfl
  | cons arg args hypothesis =>
      rw [List.foldl_cons, hypothesis, apply_appTo]
      rfl

theorem apply_foldr_build (subst : Subst) (frames : List TypedTailAppFrame) (leaf : TypedExpr) :
    (frames.foldr TypedTailAppFrame.build leaf).apply subst =
      frames.foldr (fun frame out => mk (frame.tailResultType.apply subst) (.app
        (frame.prefixArgs.foldl (fun typed arg => appTo typed (applyArg subst arg))
          (frame.head.apply subst)) out)) (leaf.apply subst) := by
  induction frames with
  | nil => rfl
  | cons frame frames hypothesis =>
      rw [List.foldr_cons, List.foldr_cons, ← hypothesis, ← apply_foldl_appTo]
      rfl

theorem foldr_lamChainLoop (subst : Subst) (params : List (Symbol × Typ)) (expr : TypedExpr) :
    (lamChainLoop subst params expr).1.foldr lamOf ((lamChainLoop subst params expr).2.apply subst) =
      params.foldr lamOf (expr.apply subst) := by
  fun_induction lamChainLoop subst params expr with
  | case1 params typ param body hypothesis =>
      rw [hypothesis, List.foldr_append, Typ.applyAlongChains_eq]
      rfl
  | case2 => rfl

theorem applyElems_eq_map (subst : Subst) (elems : List TypedExpr) :
    applyElems subst elems = elems.map (apply subst) := by
  induction elems with
  | nil => rfl
  | cons elem elems hypothesis => exact congrArg (elem.apply subst :: ·) hypothesis

theorem applyFields_eq_map (subst : Subst) (fields : List (Symbol × TypedExpr)) :
    applyFields subst fields = fields.map fun field => (field.1, field.2.apply subst) := by
  induction fields with
  | nil => rfl
  | cons field fields hypothesis => exact congrArg ((field.1, field.2.apply subst) :: ·) hypothesis

theorem applyArms_eq_map (subst : Subst) (arms : List (Pattern × TypedExpr)) :
    applyArms subst arms = arms.map fun arm => (arm.1, arm.2.apply subst) := by
  induction arms with
  | nil => rfl
  | cons arm arms hypothesis => exact congrArg ((arm.1, arm.2.apply subst) :: ·) hypothesis

/-- Functions that agree on the values of a list of entries. -/
theorem map_snd_congr {Key Value Result : Type} {entries : List (Key × Value)}
    {one two : Value → Result} (same : ∀ entry ∈ entries, one entry.2 = two entry.2) :
    (entries.map fun entry => (entry.1, one entry.2)) =
      entries.map fun entry => (entry.1, two entry.2) :=
  List.map_congr_left fun entry member => by rw [same entry member]

theorem applyAlongChains_eq (subst : Subst) (expr : TypedExpr) :
    applyAlongChains subst expr = expr.apply subst := by
  fun_induction applyAlongChains subst expr with
  | case1 typ param body params hypothesis =>
      rw [hypothesis, foldr_lamChainLoop, apply, applyKind, Typ.applyAlongChains_eq]
      rfl
  | case2 typ func arg leaf frames found args heads leafEq =>
      rw [← (foldr_collectTypedTailAppChain found).1, apply_foldr_build, leafEq]
      refine foldr_attach_congr (fun frame isFrame out => ?_) _
      dsimp only
      rw [Typ.applyAlongChains_eq, heads frame isFrame]
      congr 2
      refine foldl_attach_congr (fun typed arg isArg => ?_) _
      dsimp only
      rw [Typ.applyAlongChains_eq, args frame isFrame arg.1 arg.2 isArg]
      rfl
  | case3 typ func arg found apps args headEq =>
      have same := foldl_appChainLoop [(typ, arg)] func
      change _ = (List.foldl appTo func [(typ, arg)].reverse).apply subst
      rw [← same, apply_foldl_appTo, List.foldl_reverse, headEq]
      refine foldr_attach_congr (fun arg isArg out => ?_) _
      dsimp only
      rw [Typ.applyAlongChains_eq, args arg.1 arg.2 isArg]
      rfl
  | case13 typ elems hypothesis
  | case14 typ elems hypothesis =>
      rw [apply, applyKind, Typ.applyAlongChains_eq, applyElems_eq_map, List.map_congr_left hypothesis]
  | case15 typ kvs hypothesis =>
      rw [apply, applyKind, Typ.applyAlongChains_eq, applyFields_eq_map, map_snd_congr hypothesis]
  | case16 typ base updates baseEq hypothesis =>
      rw [apply, applyKind, Typ.applyAlongChains_eq, applyFields_eq_map, map_snd_congr hypothesis,
        baseEq]
  | case18 typ name overloads =>
      rw [apply, applyKind, Typ.applyAlongChains_eq,
        List.map_congr_left fun typ _ => Typ.applyAlongChains_eq subst typ]
  | case21 typ bindings body hypothesis bodyEq =>
      rw [apply, applyKind, Typ.applyAlongChains_eq, applyFields_eq_map, map_snd_congr hypothesis,
        bodyEq]
  | case23 typ scrutinee arms scrutineeEq hypothesis =>
      rw [apply, applyKind, Typ.applyAlongChains_eq, applyArms_eq_map, map_snd_congr hypothesis,
        scrutineeEq]
  | _ => simp only [apply, applyKind, Typ.applyAlongChains_eq, *]

/-- The implementations along chains are the structural substitution, and a type
flagged as unchanged is the original. -/
theorem applyAlongChains_correct (subst : Subst) (typ : Typ) (expr : TypedExpr) :
    (Typ.applyWithChange subst typ).1 = typ.apply subst ∧
      ((Typ.applyWithChange subst typ).2 = false → (Typ.applyWithChange subst typ).1 = typ) ∧
      applyAlongChains subst expr = expr.apply subst := by
  have substitutes := (Typ.substitutes_and_continues subst typ).1
  exact ⟨substitutes.image, fun unchanged => substitutes.image.trans (substitutes.unchanged unchanged),
    applyAlongChains_eq subst expr⟩

end TypedExpr

end RexLang
