import RexLang.AliasExpansion

/-!
# Replacement of aliases by their bodies

One step puts the body of an alias in the place of a use with all its arguments,
anywhere in a type.  The expansion is a type that steps lead to, and no step changes
the expansion.
-/

namespace RexLang

/-! ## Expansion without the aliases in progress -/

/-- `expand_type_aliases_inner` without its set of aliases. -/
def expandFreely (aliases : SymbolMap TypeAlias) : Nat → Typ → Except TypeError Typ
  | 0 => fun _ => .error .outOfFuel
  | depth + 1 => expandParts aliases fun _ found args =>
      match found.typ with
      | none => .error (.internal ("type alias \x60" ++ found.name ++ "\x60 has no registered body"))
      | some body => expandFreely aliases depth (body.apply (found.substitution args))

section Freely

variable {aliases : SymbolMap TypeAlias} {depth : Nat} {typ result : Typ}

theorem expandFreely_of_inner {expanding : List Symbol}
    (expanded : expandTypeAliasesInner aliases depth expanding typ = .ok result) :
    expandFreely aliases depth typ = .ok result := by
  induction depth generalizing expanding typ result with
  | zero => cases expanded
  | succ depth hypothesis =>
      refine expandParts_mono (fun name found args result onBody => ?_) expanded
      by_cases inProgress : name ∈ expanding
      · rw [if_pos inProgress] at onBody
        cases onBody
      · rw [if_neg inProgress] at onBody
        cases hasBody : found.typ with
        | none =>
            rw [hasBody] at onBody
            cases onBody
        | some body =>
            rw [hasBody] at onBody
            exact hypothesis onBody

theorem expandFreely_succ (expanded : expandFreely aliases depth typ = .ok result) :
    expandFreely aliases (depth + 1) typ = .ok result := by
  induction depth generalizing typ result with
  | zero => cases expanded
  | succ depth hypothesis =>
      refine expandParts_mono (fun name found args result onBody => ?_) expanded
      cases hasBody : found.typ with
      | none =>
          rw [hasBody] at onBody
          cases onBody
      | some body =>
          rw [hasBody] at onBody
          exact hypothesis onBody

theorem normal_expandFreely (expanded : expandFreely aliases depth typ = .ok result) :
    result.Normal aliases ∧ result.Canonical := by
  induction depth generalizing typ result with
  | zero => cases expanded
  | succ depth hypothesis =>
      refine normal_expandParts (fun name found args result onBody => ?_) expanded
      split at onBody
      · cases onBody
      · exact hypothesis onBody

theorem expandFreely_of_normal (normal : typ.Normal aliases) (canonical : typ.Canonical) :
    expandFreely aliases (depth + 1) typ = .ok typ :=
  normal.expandParts canonical

end Freely

/-! ## Arguments -/

/-- What an alias puts in the place of a type variable of its body. -/
def TypeAlias.assignment (found : TypeAlias) (args : List Typ) (typeVar : TypeVar) : Typ :=
  ((found.substitution args).lookup typeVar.id).getD (.var typeVar)

theorem TypeAlias.apply_substitution (found : TypeAlias) (args : List Typ) (body : Typ) :
    body.apply (found.substitution args) = body.bindVars (found.assignment args) :=
  Typ.apply_eq_bindVars _ body

/-- Related arguments are put in the same places. -/
theorem TypeAlias.assignment_related {related : Typ → Typ → Prop} (found : TypeAlias)
    {args others : List Typ} (onArgs : List.Forall₂ related args others)
    (onVars : ∀ typeVar, related (.var typeVar) (.var typeVar)) (typeVar : TypeVar) :
    related (found.assignment args typeVar) (found.assignment others typeVar) := by
  let insert (subst : Subst) (entry : AdtParam × Typ) : Subst := (entry.1.var.id, entry.2) :: subst
  let image (subst : Subst) : Typ := (subst.lookup typeVar.id).getD (.var typeVar)
  suffices ∀ (params : List AdtParam) (subst substOther : Subst),
      related (image subst) (image substOther) →
        related (image ((params.zip args).foldl insert subst))
          (image ((params.zip others).foldl insert substOther)) from
    this found.params [] [] (onVars typeVar)
  intro params
  induction onArgs generalizing params with
  | nil => simp
  | @cons arg other args others isRelated _ hypothesis =>
      intro subst substOther start
      cases params with
      | nil => exact start
      | cons param params =>
          rw [List.zip_cons_cons, List.zip_cons_cons, List.foldl_cons, List.foldl_cons]
          refine hypothesis params _ _ ?_
          by_cases same : typeVar.id == param.var.id
          · simpa [image, insert, List.lookup_cons, same] using isRelated
          · simpa [image, insert, List.lookup_cons, same] using start

section Apply

variable {aliases : SymbolMap TypeAlias}
  {expandBody : Symbol → TypeAlias → List Typ → Except TypeError Typ}

/-- The expansion of a body is that of the body with its arguments expanded. -/
theorem expandParts_bindVars {assign expandedAssign : TypeVar → Typ}
    (onVars : ∀ typeVar, expandParts aliases expandBody (assign typeVar) =
      .ok (expandedAssign typeVar))
    (stable : ∀ typeVar, expandParts aliases expandBody (expandedAssign typeVar) =
      .ok (expandedAssign typeVar)) {body result : Typ}
    (expanded : expandParts aliases expandBody (body.bindVars expandedAssign) = .ok result) :
    expandParts aliases expandBody (body.bindVars assign) = .ok result := by
  induction body using Typ.inductionOn generalizing result with
  | var typeVar =>
      rw [Typ.bindVars_var] at expanded ⊢
      exact (onVars typeVar).trans ((stable typeVar).symm.trans expanded)
  | con const => exact expanded
  | app func arg hypothesisFunc hypothesisArg =>
      rw [Typ.bindVars_app] at expanded ⊢
      obtain ⟨func', arg', onFunc, onArg, head⟩ := expandParts_app_iff.mp expanded
      exact expandParts_app_iff.mpr
        ⟨func', arg', hypothesisFunc onFunc, hypothesisArg onArg, head⟩
  | func arg ret hypothesisArg hypothesisRet =>
      rw [Typ.bindVars_func] at expanded ⊢
      obtain ⟨arg', ret', onArg, onRet, same⟩ := expandParts_func_iff.mp expanded
      exact expandParts_func_iff.mpr ⟨arg', ret', hypothesisArg onArg, hypothesisRet onRet, same⟩
  | tuple elems hypothesis =>
      rw [Typ.bindVars_tuple] at expanded ⊢
      obtain ⟨results, onElems, same⟩ := expandParts_tuple_iff.mp expanded
      refine expandParts_tuple_iff.mpr ⟨results, ?_, same⟩
      rw [List.forall₂_map_left_iff] at onElems ⊢
      exact forall₂_imp_of_mem (fun elem member _ => hypothesis elem member) onElems
  | record fields hypothesis =>
      rw [Typ.bindVars_record] at expanded ⊢
      obtain ⟨results, onFields, same⟩ := expandParts_record_iff.mp expanded
      refine expandParts_record_iff.mpr ⟨results, ?_, same⟩
      rw [List.forall₂_map_left_iff] at onFields ⊢
      exact forall₂_imp_of_mem (fun field member _ => And.imp_right (hypothesis field member))
        onFields

end Apply

/-! ## Uses with all their arguments -/

theorem Typ.foldl_of_spine {typ head : Typ} {own args : List Typ}
    (spine : typ.spine own = (head, args)) : own.foldl .app typ = args.foldl .app head := by
  induction typ using Typ.inductionOn generalizing own with
  | app func arg hypothesisFunc _ =>
      rw [Typ.spine] at spine
      exact hypothesisFunc spine
  | var _ | con _ | func _ _ _ _ | tuple _ _ | record _ _ =>
      cases spine
      rfl

theorem Typ.spine_foldl (head : Typ) (args own : List Typ) :
    (args.foldl .app head).spine own = head.spine (args ++ own) := by
  induction args generalizing head with
  | nil => rfl
  | cons arg args hypothesis => exact hypothesis (.app head arg)

section Uses

variable {aliases : SymbolMap TypeAlias}
  {expandBody : Symbol → TypeAlias → List Typ → Except TypeError Typ} {const : TypeConst}
  {found : TypeAlias}

theorem AppliesAlias.eq_foldl {typ : Typ} {name : Symbol} {args : List Typ}
    (applies : AppliesAlias aliases typ name found args) :
    ∃ const : TypeConst, const.nameStr = name ∧ typ = args.foldl .app (.con const) := by
  obtain ⟨const, spine, named⟩ := applies.spine
  exact ⟨const, named, Typ.foldl_of_spine spine⟩

theorem appliesAlias_foldl (lookup : aliases.lookup const.nameStr = some found) {args : List Typ}
    (length : args.length = found.params.length) :
    AppliesAlias aliases (args.foldl .app (.con const)) const.nameStr found args :=
  ⟨⟨const, by rw [Typ.spine_foldl, List.append_nil]; rfl, rfl⟩, lookup, length⟩

theorem not_appliesAlias_foldl (lookup : aliases.lookup const.nameStr = some found)
    {args : List Typ} (short : args.length ≠ found.params.length) (name : Symbol)
    (other : TypeAlias) (others : List Typ) :
    ¬AppliesAlias aliases (args.foldl .app (.con const)) name other others := by
  rintro ⟨⟨constOther, spine, rfl⟩, lookupOther, length⟩
  rw [Typ.spine_foldl, List.append_nil] at spine
  cases spine
  rw [lookup] at lookupOther
  cases lookupOther
  exact short length

/-- Before an alias has all its arguments, only they are expanded. -/
theorem expandParts_foldl (lookup : aliases.lookup const.nameStr = some found) {args : List Typ}
    (length : args.length ≤ found.params.length) {result : Typ}
    (expanded : expandParts aliases expandBody (args.foldl .app (.con const)) = .ok result) :
    ∃ results, List.Forall₂ (fun arg result => expandParts aliases expandBody arg = .ok result)
        args results ∧
      expandHead aliases expandBody (results.foldl .app (.con const)) = .ok result := by
  induction args using List.reverseRecOn generalizing result with
  | nil =>
      rw [List.foldl_nil, expandParts] at expanded
      exact ⟨[], .nil, expanded⟩
  | append_singleton args arg hypothesis =>
      rw [List.length_append, List.length_singleton] at length
      rw [List.foldl_append, List.foldl_cons, List.foldl_nil, expandParts_app_iff] at expanded
      obtain ⟨func', arg', onFunc, onArg, head⟩ := expanded
      obtain ⟨results, onArgs, onHead⟩ := hypothesis (by omega) onFunc
      have short : results.length ≠ found.params.length := by
        have := onArgs.length_eq
        omega
      rw [expandHead_of_not_applies (not_appliesAlias_foldl lookup short)] at onHead
      cases onHead
      refine ⟨results ++ [arg'], List.rel_append onArgs (.cons onArg .nil), ?_⟩
      rwa [List.foldl_append]

end Uses

/-! ## Steps -/

/-- One use of an alias with all its arguments is replaced by the body of the alias. -/
inductive Replaces (aliases : SymbolMap TypeAlias) : Typ → Typ → Prop where
  | use {typ : Typ} {name : Symbol} {found : TypeAlias} {args : List Typ} {body : Typ}
      (applies : AppliesAlias aliases typ name found args) (hasBody : found.typ = some body) :
      Replaces aliases typ (body.apply (found.substitution args))
  | appFunc {func func' : Typ} (arg : Typ) (step : Replaces aliases func func') :
      Replaces aliases (.app func arg) (.app func' arg)
  | appArg (func : Typ) {arg arg' : Typ} (step : Replaces aliases arg arg') :
      Replaces aliases (.app func arg) (.app func arg')
  | funcArg {arg arg' : Typ} (ret : Typ) (step : Replaces aliases arg arg') :
      Replaces aliases (.func arg ret) (.func arg' ret)
  | funcRet (arg : Typ) {ret ret' : Typ} (step : Replaces aliases ret ret') :
      Replaces aliases (.func arg ret) (.func arg ret')
  | tuple (before : List Typ) {elem elem' : Typ} (after : List Typ)
      (step : Replaces aliases elem elem') :
      Replaces aliases (.tuple (before ++ elem :: after)) (.tuple (before ++ elem' :: after))
  | record (before : List (Symbol × Typ)) (name : Symbol) {typ typ' : Typ}
      (after : List (Symbol × Typ)) (step : Replaces aliases typ typ') :
      Replaces aliases (.record (before ++ (name, typ) :: after))
        (.record (before ++ (name, typ') :: after))

section Steps

variable {aliases : SymbolMap TypeAlias} {depth : Nat} {typ result : Typ}

/-- A step does not change the expansion. -/
theorem Replaces.expandFreely {later : Typ} (step : Replaces aliases typ later)
    (expanded : expandFreely aliases depth typ = .ok result) :
    expandFreely aliases depth later = .ok result := by
  cases depth with
  | zero => cases expanded
  | succ depth =>
      induction step generalizing result with
      | @use typ name found args body applies hasBody =>
          obtain ⟨const, rfl, rfl⟩ := applies.eq_foldl
          obtain ⟨results, onArgs, head⟩ :=
            expandParts_foldl applies.lookup applies.length.le expanded
          have length : results.length = found.params.length :=
            onArgs.length_eq.symm.trans applies.length
          rw [expandHead_of_applies (appliesAlias_foldl applies.lookup length), hasBody] at head
          have onBody := expandFreely_succ head
          rw [found.apply_substitution] at onBody ⊢
          refine expandParts_bindVars
            (found.assignment_related onArgs fun typeVar => expandParts_var_iff.mpr rfl)
            (fun typeVar => ?_) onBody
          have onResults : List.Forall₂ (fun result same =>
              RexLang.expandFreely aliases (depth + 1) result = .ok same) results results := by
            refine List.forall₂_same.mpr fun result member => ?_
            obtain ⟨arg, -, onArg⟩ := exists_of_forall₂_mem_right onArgs member
            have facts := @normal_expandFreely aliases (depth + 1) arg result onArg
            exact expandFreely_of_normal facts.1 facts.2
          exact found.assignment_related onResults (fun typeVar => expandParts_var_iff.mpr rfl)
            typeVar
      | appFunc arg _ hypothesis =>
          obtain ⟨func', arg', onFunc, onArg, head⟩ := expandParts_app_iff.mp expanded
          exact expandParts_app_iff.mpr ⟨func', arg', hypothesis onFunc, onArg, head⟩
      | appArg func _ hypothesis =>
          obtain ⟨func', arg', onFunc, onArg, head⟩ := expandParts_app_iff.mp expanded
          exact expandParts_app_iff.mpr ⟨func', arg', onFunc, hypothesis onArg, head⟩
      | funcArg ret _ hypothesis =>
          obtain ⟨arg', ret', onArg, onRet, same⟩ := expandParts_func_iff.mp expanded
          exact expandParts_func_iff.mpr ⟨arg', ret', hypothesis onArg, onRet, same⟩
      | funcRet arg _ hypothesis =>
          obtain ⟨arg', ret', onArg, onRet, same⟩ := expandParts_func_iff.mp expanded
          exact expandParts_func_iff.mpr ⟨arg', ret', onArg, hypothesis onRet, same⟩
      | tuple before after _ hypothesis =>
          obtain ⟨results, onElems, same⟩ := expandParts_tuple_iff.mp expanded
          refine expandParts_tuple_iff.mpr ⟨results, ?_, same⟩
          exact forall₂_replace onElems fun result => hypothesis
      | record before name after _ hypothesis =>
          obtain ⟨results, onFields, same⟩ := expandParts_record_iff.mp expanded
          refine expandParts_record_iff.mpr ⟨results, ?_, same⟩
          exact forall₂_replace onFields fun result => And.imp_right hypothesis

theorem expandFreely_of_steps {later : Typ} (steps : Relation.ReflTransGen (Replaces aliases) typ later)
    (expanded : expandFreely aliases depth typ = .ok result) :
    expandFreely aliases depth later = .ok result := by
  induction steps with
  | refl => exact expanded
  | tail _ step hypothesis => exact step.expandFreely hypothesis

end Steps

/-! ## Steps that lead to the expansion -/

/-- The bodies of the aliases have their records in order. -/
def CanonicalBodies (aliases : SymbolMap TypeAlias) : Prop :=
  ∀ name found body, aliases.lookup name = some found → found.typ = some body → body.Canonical

section Reaches

variable {aliases : SymbolMap TypeAlias}

theorem Typ.Canonical.of_foldl {head : Typ} {args : List Typ}
    (canonical : (args.foldl .app head).Canonical) :
    head.Canonical ∧ ∀ arg ∈ args, arg.Canonical := by
  induction args generalizing head with
  | nil => exact ⟨canonical, by simp⟩
  | cons arg args hypothesis =>
      obtain ⟨onHead, onArgs⟩ := hypothesis canonical
      cases onHead with
      | app onFunc onArg => exact ⟨onFunc, List.forall_mem_cons.mpr ⟨onArg, onArgs⟩⟩

/-- A body in order with arguments in order. -/
theorem AppliesAlias.canonical_body (bodies : CanonicalBodies aliases) {typ : Typ} {name : Symbol}
    {found : TypeAlias} {args : List Typ} {body : Typ}
    (applies : AppliesAlias aliases typ name found args) (hasBody : found.typ = some body)
    (canonical : typ.Canonical) : (body.apply (found.substitution args)).Canonical := by
  obtain ⟨const, -, rfl⟩ := applies.eq_foldl
  have onArgs : List.Forall₂ (fun arg _ => arg.Canonical) args args :=
    List.forall₂_same.mpr canonical.of_foldl.2
  rw [found.apply_substitution]
  have onVars := fun typeVar => found.assignment_related onArgs .var typeVar
  exact (bodies name found body applies.lookup hasBody).bindVars onVars

theorem Replaces.canonical (bodies : CanonicalBodies aliases) {typ later : Typ}
    (step : Replaces aliases typ later) (canonical : typ.Canonical) : later.Canonical := by
  induction step with
  | use applies hasBody => exact applies.canonical_body bodies hasBody canonical
  | appFunc arg _ hypothesis =>
      cases canonical with
      | app onFunc onArg => exact .app (hypothesis onFunc) onArg
  | appArg func _ hypothesis =>
      cases canonical with
      | app onFunc onArg => exact .app onFunc (hypothesis onArg)
  | funcArg ret _ hypothesis =>
      cases canonical with
      | func onArg onRet => exact .func (hypothesis onArg) onRet
  | funcRet arg _ hypothesis =>
      cases canonical with
      | func onArg onRet => exact .func onArg (hypothesis onRet)
  | tuple before after _ hypothesis =>
      cases canonical with
      | tuple onElems =>
          simp only [List.forall_mem_append, List.forall_mem_cons] at onElems
          refine .tuple ?_
          simp only [List.forall_mem_append, List.forall_mem_cons]
          exact ⟨onElems.1, hypothesis onElems.2.1, onElems.2.2⟩
  | record before name after _ hypothesis =>
      cases canonical with
      | record onFields ordered =>
          simp only [List.forall_mem_append, List.forall_mem_cons] at onFields
          refine .record ?_ (by simpa using ordered)
          simp only [List.forall_mem_append, List.forall_mem_cons]
          exact ⟨onFields.1, hypothesis onFields.2.1, onFields.2.2⟩

theorem canonical_of_steps (bodies : CanonicalBodies aliases) {typ later : Typ}
    (steps : Relation.ReflTransGen (Replaces aliases) typ later) (canonical : typ.Canonical) :
    later.Canonical := by
  induction steps with
  | refl => exact canonical
  | tail _ step hypothesis => exact step.canonical bodies hypothesis

theorem steps_app {func func' arg arg' : Typ}
    (onFunc : Relation.ReflTransGen (Replaces aliases) func func')
    (onArg : Relation.ReflTransGen (Replaces aliases) arg arg') :
    Relation.ReflTransGen (Replaces aliases) (.app func arg) (.app func' arg') :=
  (onFunc.lift (Typ.app · arg) fun _ _ => .appFunc arg).trans
    (onArg.lift (Typ.app func') fun _ _ => .appArg func')

theorem steps_func {arg arg' ret ret' : Typ}
    (onArg : Relation.ReflTransGen (Replaces aliases) arg arg')
    (onRet : Relation.ReflTransGen (Replaces aliases) ret ret') :
    Relation.ReflTransGen (Replaces aliases) (.func arg ret) (.func arg' ret') :=
  (onArg.lift (Typ.func · ret) fun _ _ => .funcArg ret).trans
    (onRet.lift (Typ.func arg') fun _ _ => .funcRet arg')

theorem steps_tuple {elems results : List Typ}
    (onElems : List.Forall₂ (Relation.ReflTransGen (Replaces aliases)) elems results)
    (before : List Typ) :
    Relation.ReflTransGen (Replaces aliases) (.tuple (before ++ elems))
      (.tuple (before ++ results)) := by
  induction onElems generalizing before with
  | nil => exact .refl
  | @cons elem result elems results onElem _ hypothesis =>
      have first := onElem.lift (fun elem => Typ.tuple (before ++ elem :: elems))
        fun _ _ => Replaces.tuple before elems
      have others := hypothesis (before ++ [result])
      rw [List.append_assoc, List.append_assoc] at others
      exact first.trans others

theorem steps_record {fields results : List (Symbol × Typ)}
    (onFields : List.Forall₂ (fun field result => field.1 = result.1 ∧
      Relation.ReflTransGen (Replaces aliases) field.2 result.2) fields results)
    (before : List (Symbol × Typ)) :
    Relation.ReflTransGen (Replaces aliases) (.record (before ++ fields))
      (.record (before ++ results)) := by
  induction onFields generalizing before with
  | nil => exact .refl
  | @cons field result fields results onField _ hypothesis =>
      obtain ⟨name, typ⟩ := field
      obtain ⟨same, onField⟩ := onField
      cases same
      have first := onField.lift (fun typ => Typ.record (before ++ (result.1, typ) :: fields))
        fun _ _ => Replaces.record before result.1 fields
      have others := hypothesis (before ++ [result])
      rw [List.append_assoc, List.append_assoc] at others
      exact first.trans others

/-- Steps lead from a type to its expansion. -/
theorem steps_of_expandFreely (bodies : CanonicalBodies aliases) {depth : Nat} {typ result : Typ}
    (canonical : typ.Canonical) (expanded : expandFreely aliases depth typ = .ok result) :
    Relation.ReflTransGen (Replaces aliases) typ result := by
  induction depth generalizing typ result with
  | zero => cases expanded
  | succ depth hypothesisDepth =>
      have onHead : ∀ {typ result : Typ}, typ.Canonical →
          expandHead aliases (fun _ found args => match found.typ with
            | none => .error (.internal
                ("type alias `" ++ found.name ++ "` has no registered body"))
            | some body => expandFreely aliases depth (body.apply (found.substitution args))) typ =
              .ok result →
          Relation.ReflTransGen (Replaces aliases) typ result := by
        intro typ result canonical head
        rcases expandHead_cases typ with ⟨-, same⟩ | ⟨name, found, args, applies, same⟩
        · cases same.symm.trans head
          exact .refl
        · have onBody := same.symm.trans head
          split at onBody
          · cases onBody
          · next body hasBody =>
              exact .head (.use applies hasBody)
                (hypothesisDepth (applies.canonical_body bodies hasBody canonical) onBody)
      induction typ using Typ.inductionOn generalizing result with
      | var typeVar =>
          cases expandParts_var_iff.mp expanded
          exact .refl
      | con const =>
          rw [expandFreely, expandParts] at expanded
          exact onHead canonical expanded
      | app func arg hypothesisFunc hypothesisArg =>
          cases canonical with
          | app canonicalFunc canonicalArg =>
              obtain ⟨func', arg', onFunc, onArg, head⟩ := expandParts_app_iff.mp expanded
              have canonicalFunc' := (@normal_expandFreely aliases (depth + 1) _ _ onFunc).2
              have canonicalArg' := (@normal_expandFreely aliases (depth + 1) _ _ onArg).2
              exact (steps_app (hypothesisFunc canonicalFunc onFunc)
                (hypothesisArg canonicalArg onArg)).trans
                  (onHead (.app canonicalFunc' canonicalArg') head)
      | func arg ret hypothesisArg hypothesisRet =>
          cases canonical with
          | func canonicalArg canonicalRet =>
              obtain ⟨arg', ret', onArg, onRet, rfl⟩ := expandParts_func_iff.mp expanded
              exact steps_func (hypothesisArg canonicalArg onArg) (hypothesisRet canonicalRet onRet)
      | tuple elems hypothesis =>
          cases canonical with
          | tuple canonicalElems =>
              obtain ⟨results, onElems, rfl⟩ := expandParts_tuple_iff.mp expanded
              exact steps_tuple (forall₂_imp_of_mem (fun elem member _ =>
                hypothesis elem member (canonicalElems elem member)) onElems) []
      | record fields hypothesis =>
          cases canonical with
          | record canonicalFields ordered =>
              obtain ⟨results, onFields, rfl⟩ := expandParts_record_iff.mp expanded
              have steps : List.Forall₂ (fun field result => field.1 = result.1 ∧
                  Relation.ReflTransGen (Replaces aliases) field.2 result.2) fields results :=
                forall₂_imp_of_mem (fun field member _ => And.imp_right
                  (hypothesis field member (canonicalFields field member))) onFields
              have names : fields.map Prod.fst = results.map Prod.fst := by
                refine List.forall₂_eq_eq_eq ▸ List.forall₂_map_left_iff.mpr
                  (List.forall₂_map_right_iff.mpr (steps.imp fun _ _ => And.left))
              rw [Typ.mkRecord_of_le (names ▸ ordered)]
              exact steps_record steps []

end Reaches

end RexLang
