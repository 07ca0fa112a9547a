import RexLang.TypeAnnotations
import RexLang.FallibleResults
import Mathlib.Logic.Relation

/-!
# Expansion of type aliases

What an expansion does with the parts of a type, and the expansion without the set
of the aliases in progress.  It gives one result, in which no use of an alias has
all its arguments, and replacing such a use by its body does not change it.
-/

namespace RexLang

/-! ## Uses -/

/-- The type applies an alias to as many arguments as it has parameters. -/
structure AppliesAlias (aliases : SymbolMap TypeAlias) (typ : Typ) (name : Symbol)
    (found : TypeAlias) (args : List Typ) : Prop where
  spine : ∃ const : TypeConst, typ.spine [] = (.con const, args) ∧ const.nameStr = name
  lookup : aliases.lookup name = some found
  length : args.length = found.params.length

/-- The arguments of an alias for its parameters. -/
def TypeAlias.substitution (found : TypeAlias) (args : List Typ) : Subst :=
  (found.params.zip args).foldl (fun subst entry => (entry.1.var.id, entry.2) :: subst) []

/-! ## Parts -/

section Parts

variable {aliases : SymbolMap TypeAlias}
  {expandBody other : Symbol → TypeAlias → List Typ → Except TypeError Typ}

attribute [local simp] expandParts expandPartsList expandPartsFields

theorem expandHead_of_applies {typ : Typ} {name : Symbol} {found : TypeAlias} {args : List Typ}
    (applies : AppliesAlias aliases typ name found args) :
    expandHead aliases expandBody typ = expandBody name found args := by
  obtain ⟨⟨const, spine, rfl⟩, lookup, length⟩ := applies
  rw [expandHead, spine]
  simp only [lookup, length, ne_eq, not_true_eq_false, if_false]

theorem expandHead_of_not_applies {typ : Typ}
    (stuck : ∀ name found args, ¬AppliesAlias aliases typ name found args) :
    expandHead aliases expandBody typ = .ok typ := by
  rw [expandHead]
  split
  · next const args spine =>
      split
      · next found lookup =>
          split
          · rfl
          · next length =>
              exact absurd ⟨⟨const, spine, rfl⟩, lookup, not_not.mp length⟩ (stuck _ found args)
      · rfl
  · rfl

/-- An expansion either ends with the type itself or expands a body. -/
theorem expandHead_cases (typ : Typ) :
    ((∀ name found args, ¬AppliesAlias aliases typ name found args) ∧
      expandHead aliases expandBody typ = .ok typ) ∨
    ∃ name found args, AppliesAlias aliases typ name found args ∧
      expandHead aliases expandBody typ = expandBody name found args := by
  by_cases applied : ∃ name found args, AppliesAlias aliases typ name found args
  · obtain ⟨name, found, args, applies⟩ := applied
    exact .inr ⟨name, found, args, applies, expandHead_of_applies applies⟩
  · push Not at applied
    exact .inl ⟨applied, expandHead_of_not_applies applied⟩

theorem expandHead_func (arg ret : Typ) :
    expandHead aliases expandBody (.func arg ret) = .ok (.func arg ret) := rfl

theorem expandHead_tuple (elems : List Typ) :
    expandHead aliases expandBody (.tuple elems) = .ok (.tuple elems) := rfl

theorem expandHead_record (fields : List (Symbol × Typ)) :
    expandHead aliases expandBody (.mkRecord fields) = .ok (.mkRecord fields) := rfl

theorem expandParts_var_iff {typeVar : TypeVar} {result : Typ} :
    expandParts aliases expandBody (.var typeVar) = .ok result ↔ result = .var typeVar := by
  rw [expandParts]
  exact ⟨fun same => (Except.ok.inj same).symm, fun same => congrArg Except.ok same.symm⟩

theorem expandParts_app_iff {func arg result : Typ} :
    expandParts aliases expandBody (.app func arg) = .ok result ↔
      ∃ func' arg', expandParts aliases expandBody func = .ok func' ∧
        expandParts aliases expandBody arg = .ok arg' ∧
        expandHead aliases expandBody (.app func' arg') = .ok result := by
  rw [expandParts, bind_eq_ok]
  simp only [bind_eq_ok]
  constructor
  · rintro ⟨func', onFunc, arg', onArg, onHead⟩
    exact ⟨func', arg', onFunc, onArg, onHead⟩
  · rintro ⟨func', arg', onFunc, onArg, onHead⟩
    exact ⟨func', onFunc, arg', onArg, onHead⟩

theorem expandParts_func_iff {arg ret result : Typ} :
    expandParts aliases expandBody (.func arg ret) = .ok result ↔
      ∃ arg' ret', expandParts aliases expandBody arg = .ok arg' ∧
        expandParts aliases expandBody ret = .ok ret' ∧ result = .func arg' ret' := by
  rw [expandParts, bind_eq_ok]
  simp only [bind_eq_ok, expandHead_func, Except.ok.injEq]
  constructor
  · rintro ⟨arg', onArg, ret', onRet, rfl⟩
    exact ⟨arg', ret', onArg, onRet, rfl⟩
  · rintro ⟨arg', ret', onArg, onRet, rfl⟩
    exact ⟨arg', onArg, ret', onRet, rfl⟩

theorem expandPartsList_iff {elems results : List Typ} :
    expandPartsList aliases expandBody elems = .ok results ↔
      List.Forall₂ (fun elem result => expandParts aliases expandBody elem = .ok result)
        elems results := by
  induction elems generalizing results with
  | nil =>
      rw [expandPartsList, List.forall₂_nil_left_iff]
      exact ⟨fun same => (Except.ok.inj same).symm, fun same => congrArg Except.ok same.symm⟩
  | cons elem elems hypothesis =>
      rw [expandPartsList, bind_eq_ok, List.forall₂_cons_left_iff]
      simp only [bind_eq_ok, hypothesis]
      constructor
      · rintro ⟨result, onElem, others, onElems, same⟩
        cases same
        exact ⟨result, others, onElem, onElems, rfl⟩
      · rintro ⟨result, others, onElem, onElems, rfl⟩
        exact ⟨result, onElem, others, onElems, rfl⟩

theorem expandPartsFields_iff {fields results : List (Symbol × Typ)} :
    expandPartsFields aliases expandBody fields = .ok results ↔
      List.Forall₂ (fun field result => field.1 = result.1 ∧
        expandParts aliases expandBody field.2 = .ok result.2) fields results := by
  induction fields generalizing results with
  | nil =>
      rw [expandPartsFields, List.forall₂_nil_left_iff]
      exact ⟨fun same => (Except.ok.inj same).symm, fun same => congrArg Except.ok same.symm⟩
  | cons field fields hypothesis =>
      rw [expandPartsFields, bind_eq_ok, List.forall₂_cons_left_iff]
      simp only [bind_eq_ok, hypothesis]
      constructor
      · rintro ⟨result, onField, others, onFields, same⟩
        cases same
        exact ⟨(field.1, result), others, ⟨rfl, onField⟩, onFields, rfl⟩
      · rintro ⟨⟨name, result⟩, others, ⟨same, onField⟩, onFields, rfl⟩
        cases same
        exact ⟨result, onField, others, onFields, rfl⟩

theorem expandParts_tuple_iff {elems : List Typ} {result : Typ} :
    expandParts aliases expandBody (.tuple elems) = .ok result ↔
      ∃ results, List.Forall₂ (fun elem result => expandParts aliases expandBody elem = .ok result)
        elems results ∧ result = .tuple results := by
  rw [expandParts, bind_eq_ok]
  simp only [expandPartsList_iff, expandHead_tuple, Except.ok.injEq]
  exact exists_congr fun results => and_congr_right fun _ => eq_comm

theorem expandParts_record_iff {fields : List (Symbol × Typ)} {result : Typ} :
    expandParts aliases expandBody (.record fields) = .ok result ↔
      ∃ results, List.Forall₂ (fun field result => field.1 = result.1 ∧
        expandParts aliases expandBody field.2 = .ok result.2) fields results ∧
        result = .mkRecord results := by
  rw [expandParts, bind_eq_ok]
  simp only [expandPartsFields_iff, expandHead_record, Except.ok.injEq]
  exact exists_congr fun results => and_congr_right fun _ => eq_comm

/-- What expands more bodies expands more types, with the same results. -/
theorem expandHead_mono
    (mono : ∀ name found args result, expandBody name found args = .ok result →
      other name found args = .ok result) {typ result : Typ}
    (expanded : expandHead aliases expandBody typ = .ok result) :
    expandHead aliases other typ = .ok result := by
  rcases @expandHead_cases aliases expandBody typ with
    ⟨stuck, same⟩ | ⟨name, found, args, applies, same⟩
  · rw [expandHead_of_not_applies stuck, ← expanded, same]
  · rw [expandHead_of_applies applies]
    exact mono name found args result (same.symm.trans expanded)

theorem expandParts_mono
    (mono : ∀ name found args result, expandBody name found args = .ok result →
      other name found args = .ok result) {typ result : Typ}
    (expanded : expandParts aliases expandBody typ = .ok result) :
    expandParts aliases other typ = .ok result := by
  induction typ using Typ.inductionOn generalizing result with
  | var typeVar => exact expandParts_var_iff.2 (expandParts_var_iff.1 expanded)
  | con const =>
      rw [expandParts] at expanded ⊢
      exact expandHead_mono mono expanded
  | app func arg hypothesisFunc hypothesisArg =>
      obtain ⟨func', arg', onFunc, onArg, head⟩ := expandParts_app_iff.1 expanded
      exact expandParts_app_iff.2
        ⟨func', arg', hypothesisFunc onFunc, hypothesisArg onArg, expandHead_mono mono head⟩
  | func arg ret hypothesisArg hypothesisRet =>
      obtain ⟨arg', ret', onArg, onRet, same⟩ := expandParts_func_iff.1 expanded
      exact expandParts_func_iff.2 ⟨arg', ret', hypothesisArg onArg, hypothesisRet onRet, same⟩
  | tuple elems hypothesis =>
      obtain ⟨results, onElems, same⟩ := expandParts_tuple_iff.1 expanded
      exact expandParts_tuple_iff.2 ⟨results,
        forall₂_imp_of_mem (fun elem member _ => hypothesis elem member) onElems, same⟩
  | record fields hypothesis =>
      obtain ⟨results, onFields, same⟩ := expandParts_record_iff.1 expanded
      exact expandParts_record_iff.2 ⟨results,
        forall₂_imp_of_mem (fun field member _ => And.imp_right (hypothesis field member)) onFields,
        same⟩

end Parts

/-! ## Records in order -/

/-- Records list their fields by name, as `Type::record` leaves them. -/
inductive Typ.Canonical : Typ → Prop where
  | var (typeVar : TypeVar) : Canonical (.var typeVar)
  | con (const : TypeConst) : Canonical (.con const)
  | app {func arg : Typ} (onFunc : Canonical func) (onArg : Canonical arg) :
      Canonical (.app func arg)
  | func {arg ret : Typ} (onArg : Canonical arg) (onRet : Canonical ret) :
      Canonical (.func arg ret)
  | tuple {elems : List Typ} (onElems : ∀ elem ∈ elems, Canonical elem) : Canonical (.tuple elems)
  | record {fields : List (Symbol × Typ)} (onFields : ∀ field ∈ fields, Canonical field.2)
      (ordered : (fields.map Prod.fst).Pairwise (· ≤ ·)) : Canonical (.record fields)

theorem Typ.mkRecord_of_le {fields : List (Symbol × Typ)}
    (ordered : (fields.map Prod.fst).Pairwise (· ≤ ·)) : Typ.mkRecord fields = .record fields := by
  rw [Typ.mkRecord, List.mergeSort_of_pairwise]
  exact (List.pairwise_map.mp ordered).imp decide_eq_true

theorem Typ.pairwise_mergeSort_fields (fields : List (Symbol × Typ)) :
    ((fields.mergeSort fun first second => decide (first.1 ≤ second.1)).map Prod.fst).Pairwise
      (· ≤ ·) := by
  let less (first second : Symbol × Typ) : Bool := decide (first.1 ≤ second.1)
  have transitive : ∀ first second third, less first second → less second third →
      less first third := by
    simpa [less] using fun _ _ _ _ _ _ before after => String.le_trans before after
  have total : ∀ first second, less first second || less second first := by
    simpa [less] using fun first _ second _ => String.le_total first second
  have sorted := List.pairwise_mergeSort transitive total fields
  exact List.pairwise_map.mpr (sorted.imp of_decide_eq_true)

theorem Typ.canonical_mkRecord {fields : List (Symbol × Typ)}
    (onFields : ∀ field ∈ fields, field.2.Canonical) : (Typ.mkRecord fields).Canonical :=
  .record (fun field member => onFields field (List.mem_mergeSort.mp member))
    (pairwise_mergeSort_fields fields)

theorem Typ.Canonical.bindVars {assign : TypeVar → Typ} {typ : Typ} (canonical : typ.Canonical)
    (onVars : ∀ typeVar, (assign typeVar).Canonical) : (typ.bindVars assign).Canonical := by
  induction canonical with
  | var typeVar => exact onVars typeVar
  | con const => exact .con const
  | app _ _ hypothesisFunc hypothesisArg => exact .app hypothesisFunc hypothesisArg
  | func _ _ hypothesisArg hypothesisRet => exact .func hypothesisArg hypothesisRet
  | tuple _ hypothesis =>
      rw [bindVars_tuple]
      exact .tuple (by simpa using hypothesis)
  | record _ ordered hypothesis =>
      rw [bindVars_record]
      refine .record (fun image member => ?_) (by simpa [Function.comp_def] using ordered)
      obtain ⟨field, inFields, rfl⟩ := List.mem_map.mp member
      exact hypothesis field inFields

/-! ## Types without uses -/

/-- No part of the type applies an alias to all its arguments. -/
inductive Typ.Normal (aliases : SymbolMap TypeAlias) : Typ → Prop where
  | var (typeVar : TypeVar) : Normal aliases (.var typeVar)
  | con {const : TypeConst}
      (stuck : ∀ name found args, ¬AppliesAlias aliases (.con const) name found args) :
      Normal aliases (.con const)
  | app {func arg : Typ} (onFunc : Normal aliases func) (onArg : Normal aliases arg)
      (stuck : ∀ name found args, ¬AppliesAlias aliases (.app func arg) name found args) :
      Normal aliases (.app func arg)
  | func {arg ret : Typ} (onArg : Normal aliases arg) (onRet : Normal aliases ret) :
      Normal aliases (.func arg ret)
  | tuple {elems : List Typ} (onElems : ∀ elem ∈ elems, Normal aliases elem) :
      Normal aliases (.tuple elems)
  | record {fields : List (Symbol × Typ)} (onFields : ∀ field ∈ fields, Normal aliases field.2) :
      Normal aliases (.record fields)

section Normal

variable {aliases : SymbolMap TypeAlias}
  {expandBody : Symbol → TypeAlias → List Typ → Except TypeError Typ}

/-- A type without uses is its own expansion. -/
theorem Typ.Normal.expandParts {typ : Typ} (normal : typ.Normal aliases)
    (canonical : typ.Canonical) : expandParts aliases expandBody typ = .ok typ := by
  induction normal with
  | var typeVar => exact expandParts_var_iff.mpr rfl
  | con stuck =>
      rw [RexLang.expandParts]
      exact expandHead_of_not_applies stuck
  | @app func arg _ _ stuck hypothesisFunc hypothesisArg =>
      cases canonical with
      | app onFunc onArg =>
          exact expandParts_app_iff.mpr ⟨func, arg, hypothesisFunc onFunc, hypothesisArg onArg,
            expandHead_of_not_applies stuck⟩
  | @func arg ret _ _ hypothesisArg hypothesisRet =>
      cases canonical with
      | func onArg onRet =>
          exact expandParts_func_iff.mpr
            ⟨arg, ret, hypothesisArg onArg, hypothesisRet onRet, rfl⟩
  | @tuple elems _ hypothesis =>
      cases canonical with
      | tuple onElems =>
          exact expandParts_tuple_iff.2 ⟨elems, List.forall₂_same.mpr fun elem member =>
            hypothesis elem member (onElems elem member), rfl⟩
  | @record fields _ hypothesis =>
      cases canonical with
      | record onFields ordered =>
          exact expandParts_record_iff.2 ⟨fields, List.forall₂_same.mpr fun field member =>
            ⟨rfl, hypothesis field member (onFields field member)⟩,
            (Typ.mkRecord_of_le ordered).symm⟩

/-- What expands bodies to types without uses does so with every type. -/
theorem normal_expandParts
    (onBody : ∀ name found args result, expandBody name found args = .ok result →
      result.Normal aliases ∧ result.Canonical) {typ result : Typ}
    (expanded : expandParts aliases expandBody typ = .ok result) :
    result.Normal aliases ∧ result.Canonical := by
  induction typ using Typ.inductionOn generalizing result with
  | var typeVar =>
      cases expandParts_var_iff.mp expanded
      exact ⟨.var typeVar, .var typeVar⟩
  | con const =>
      rw [expandParts] at expanded
      rcases @expandHead_cases aliases expandBody (.con const) with
        ⟨stuck, same⟩ | ⟨name, found, args, -, same⟩
      · cases same.symm.trans expanded
        exact ⟨.con stuck, .con const⟩
      · exact onBody name found args result (same.symm.trans expanded)
  | app func arg hypothesisFunc hypothesisArg =>
      obtain ⟨func', arg', onFunc, onArg, head⟩ := expandParts_app_iff.mp expanded
      have ofFunc := hypothesisFunc onFunc
      have ofArg := hypothesisArg onArg
      rcases @expandHead_cases aliases expandBody (.app func' arg') with
        ⟨stuck, same⟩ | ⟨name, found, args, -, same⟩
      · cases same.symm.trans head
        exact ⟨.app ofFunc.1 ofArg.1 stuck, .app ofFunc.2 ofArg.2⟩
      · exact onBody name found args result (same.symm.trans head)
  | func arg ret hypothesisArg hypothesisRet =>
      obtain ⟨arg', ret', onArg, onRet, rfl⟩ := expandParts_func_iff.mp expanded
      have ofArg := hypothesisArg onArg
      have ofRet := hypothesisRet onRet
      exact ⟨.func ofArg.1 ofRet.1, .func ofArg.2 ofRet.2⟩
  | tuple elems hypothesis =>
      obtain ⟨results, onElems, rfl⟩ := expandParts_tuple_iff.1 expanded
      have each : ∀ result ∈ results, result.Normal aliases ∧ result.Canonical := by
        intro result member
        obtain ⟨elem, inElems, onElem⟩ := exists_of_forall₂_mem_right onElems member
        exact hypothesis elem inElems onElem
      exact ⟨.tuple fun result member => (each result member).1,
        .tuple fun result member => (each result member).2⟩
  | record fields hypothesis =>
      obtain ⟨results, onFields, rfl⟩ := expandParts_record_iff.1 expanded
      have each : ∀ result ∈ results, result.2.Normal aliases ∧ result.2.Canonical := by
        intro result member
        obtain ⟨field, inFields, -, onField⟩ := exists_of_forall₂_mem_right onFields member
        exact hypothesis field inFields onField
      exact ⟨.record fun result member => (each result (List.mem_mergeSort.mp member)).1,
        Typ.canonical_mkRecord fun result member => (each result member).2⟩

end Normal

end RexLang
