import RexLang.AliasReplacement
import RexLang.SymbolMaps
import Mathlib.Order.WellFounded

/-!
# Cyclic aliases

The uses of aliases in a type and in the bodies it leads to, and what a cycle of them
has to do with the report of a cyclic alias.
-/

namespace RexLang

/-! ## Occurrences -/

/-- A variable or a constructor stands in a type with a number of arguments, when the type
itself is given some more. -/
inductive Typ.Occurs : Typ → Nat → Typ → Nat → Prop where
  | var (typeVar : TypeVar) (more : Nat) : Occurs (.var typeVar) more (.var typeVar) more
  | con (const : TypeConst) (more : Nat) : Occurs (.con const) more (.con const) more
  | appFunc {func atom : Typ} {more count : Nat} (arg : Typ)
      (occurs : Occurs func (more + 1) atom count) : Occurs (.app func arg) more atom count
  | appArg {arg atom : Typ} {count : Nat} (func : Typ) (more : Nat)
      (occurs : Occurs arg 0 atom count) : Occurs (.app func arg) more atom count
  | funcArg {arg atom : Typ} {count : Nat} (ret : Typ) (more : Nat)
      (occurs : Occurs arg 0 atom count) : Occurs (.func arg ret) more atom count
  | funcRet {ret atom : Typ} {count : Nat} (arg : Typ) (more : Nat)
      (occurs : Occurs ret 0 atom count) : Occurs (.func arg ret) more atom count
  | tuple {elems : List Typ} {elem atom : Typ} {count : Nat} (more : Nat)
      (member : elem ∈ elems) (occurs : Occurs elem 0 atom count) :
      Occurs (.tuple elems) more atom count
  | record {fields : List (Symbol × Typ)} {field : Symbol × Typ} {atom : Typ} {count : Nat}
      (more : Nat) (member : field ∈ fields) (occurs : Occurs field.2 0 atom count) :
      Occurs (.record fields) more atom count

/-- A substitution keeps the constructors of a type. -/
theorem Typ.Occurs.bindVars {typ : Typ} {more count : Nat} {const : TypeConst}
    (occurs : typ.Occurs more (.con const) count) (assign : TypeVar → Typ) :
    (typ.bindVars assign).Occurs more (.con const) count := by
  generalize isConst : Typ.con const = atom at occurs
  induction occurs with
  | var typeVar more => cases isConst
  | con other more => exact .con other more
  | appFunc arg _ hypothesis => exact .appFunc _ (hypothesis isConst)
  | appArg func more _ hypothesis => exact .appArg _ more (hypothesis isConst)
  | funcArg ret more _ hypothesis => exact .funcArg _ more (hypothesis isConst)
  | funcRet arg more _ hypothesis => exact .funcRet _ more (hypothesis isConst)
  | tuple more member _ hypothesis =>
      rw [bindVars_tuple]
      exact .tuple more (List.mem_map_of_mem member) (hypothesis isConst)
  | record more member _ hypothesis =>
      rw [bindVars_record]
      exact .record more (List.mem_map_of_mem member) (hypothesis isConst)

section Graph

variable (aliases : SymbolMap TypeAlias) (typ : Typ)

/-- The body that is registered for an alias. -/
def AliasBody (name : Symbol) (body : Typ) : Prop :=
  ∃ found, aliases.lookup name = some found ∧ found.typ = some body

/-- The type applies the alias to all its arguments. -/
def Typ.Saturates (name : Symbol) : Prop :=
  ∃ const count found, typ.Occurs 0 (.con const) count ∧ const.nameStr = name ∧
    aliases.lookup name = some found ∧ found.params.length ≤ count

/-- The type has the alias with too few arguments. -/
def Typ.Passes (name : Symbol) : Prop :=
  ∃ const count found, typ.Occurs 0 (.con const) count ∧ const.nameStr = name ∧
    aliases.lookup name = some found ∧ count < found.params.length

/-- The type has the alias, with whatever arguments. -/
def Typ.Names (name : Symbol) : Prop :=
  ∃ const count, typ.Occurs 0 (.con const) count ∧ const.nameStr = name ∧
    ∃ found, aliases.lookup name = some found

/-- The type gives arguments to a variable, or more arguments to an alias than it has
parameters: what they are given to is known only after an expansion. -/
def Typ.AppliesUnknown : Prop :=
  (∃ typeVar count, typ.Occurs 0 (.var typeVar) count ∧ 0 < count) ∨
    ∃ const count found, typ.Occurs 0 (.con const) count ∧
      aliases.lookup const.nameStr = some found ∧ found.params.length < count

/-- The body of an alias applies another to all its arguments. -/
def SaturatesInBody (name other : Symbol) : Prop :=
  ∃ body, AliasBody aliases name body ∧ body.Saturates aliases other

/-- The graph of the definitions: the body of an alias has another. -/
def NamesInBody (name other : Symbol) : Prop :=
  ∃ body, AliasBody aliases name body ∧ body.Names aliases other

/-- The definitions lead from the type to the alias. -/
def LeadsTo (name : Symbol) : Prop :=
  ∃ start, typ.Names aliases start ∧ Relation.ReflTransGen (NamesInBody aliases) start name

/-- The type, or a definition it leads to, has the alias with too few arguments. -/
def PassedAlong (name : Symbol) : Prop :=
  typ.Passes aliases name ∨
    ∃ through body, LeadsTo aliases typ through ∧ AliasBody aliases through body ∧
      body.Passes aliases name

/-- The expansion of an alias may need that of another: the body has it, or applies what may
turn out to be it. -/
def MayNeed (name other : Symbol) : Prop :=
  LeadsTo aliases typ name ∧ ∃ body, AliasBody aliases name body ∧
    (body.Names aliases other ∨ body.AppliesUnknown aliases ∧ PassedAlong aliases typ other)

end Graph

/-! ## Ends -/

section Ends

variable {aliases : SymbolMap TypeAlias}
  {expandBody : Symbol → TypeAlias → List Typ → Except TypeError Typ}

theorem exists_of_expandHead_error {typ : Typ} {error : TypeError}
    (failed : expandHead aliases expandBody typ = .error error) :
    ∃ name found args, aliases.lookup name = some found ∧
      expandBody name found args = .error error := by
  rcases @expandHead_cases aliases expandBody typ with
    ⟨-, same⟩ | ⟨name, found, args, applies, same⟩
  · cases same.symm.trans failed
  · exact ⟨name, found, args, applies.lookup, same.symm.trans failed⟩

theorem exists_of_expandPartsList_error {elems : List Typ} {error : TypeError}
    (failed : expandPartsList aliases expandBody elems = .error error) :
    ∃ elem ∈ elems, expandParts aliases expandBody elem = .error error := by
  induction elems with
  | nil => cases failed
  | cons elem elems hypothesis =>
      rw [expandPartsList] at failed
      rcases exists_of_bind_eq_error failed with onElem | ⟨result, -, failed⟩
      · exact ⟨elem, List.mem_cons_self, onElem⟩
      · rcases exists_of_bind_eq_error failed with onElems | ⟨results, -, failed⟩
        · obtain ⟨other, member, onOther⟩ := hypothesis onElems
          exact ⟨other, .tail _ member, onOther⟩
        · cases failed

theorem exists_of_expandPartsFields_error {fields : List (Symbol × Typ)} {error : TypeError}
    (failed : expandPartsFields aliases expandBody fields = .error error) :
    ∃ field ∈ fields, expandParts aliases expandBody field.2 = .error error := by
  induction fields with
  | nil => cases failed
  | cons field fields hypothesis =>
      rw [expandPartsFields] at failed
      rcases exists_of_bind_eq_error failed with onField | ⟨result, -, failed⟩
      · exact ⟨field, List.mem_cons_self, onField⟩
      · rcases exists_of_bind_eq_error failed with onFields | ⟨results, -, failed⟩
        · obtain ⟨other, member, onOther⟩ := hypothesis onFields
          exact ⟨other, .tail _ member, onOther⟩
        · cases failed

/-- An expansion fails only where the expansion of a body fails. -/
theorem exists_of_expandParts_error {typ : Typ} {error : TypeError}
    (failed : expandParts aliases expandBody typ = .error error) :
    ∃ name found args, aliases.lookup name = some found ∧
      expandBody name found args = .error error := by
  induction typ using Typ.inductionOn with
  | var typeVar => cases failed
  | con const =>
      rw [expandParts] at failed
      exact exists_of_expandHead_error failed
  | app func arg hypothesisFunc hypothesisArg =>
      rw [expandParts] at failed
      rcases exists_of_bind_eq_error failed with onFunc | ⟨func', -, failed⟩
      · exact hypothesisFunc onFunc
      · rcases exists_of_bind_eq_error failed with onArg | ⟨arg', -, failed⟩
        · exact hypothesisArg onArg
        · exact exists_of_expandHead_error failed
  | func arg ret hypothesisArg hypothesisRet =>
      rw [expandParts] at failed
      rcases exists_of_bind_eq_error failed with onArg | ⟨arg', -, failed⟩
      · exact hypothesisArg onArg
      · rcases exists_of_bind_eq_error failed with onRet | ⟨ret', -, failed⟩
        · exact hypothesisRet onRet
        · exact exists_of_expandHead_error failed
  | tuple elems hypothesis =>
      rw [expandParts] at failed
      rcases exists_of_bind_eq_error failed with onElems | ⟨results, -, failed⟩
      · obtain ⟨elem, member, onElem⟩ := exists_of_expandPartsList_error onElems
        exact hypothesis elem member onElem
      · exact exists_of_expandHead_error failed
  | record fields hypothesis =>
      rw [expandParts] at failed
      rcases exists_of_bind_eq_error failed with onFields | ⟨results, -, failed⟩
      · obtain ⟨field, member, onField⟩ := exists_of_expandPartsFields_error onFields
        exact hypothesis field member onField
      · exact exists_of_expandHead_error failed

end Ends

/-- Every alias has its body, with its records in order. -/
structure RegisteredBodies (aliases : SymbolMap TypeAlias) : Prop where
  registered : ∀ name found, aliases.lookup name = some found → ∃ body, found.typ = some body
  canonical : CanonicalBodies aliases

section Bodies

variable {aliases : SymbolMap TypeAlias}

/-- What `expand_type_aliases_inner` does with an alias that has all its arguments. -/
def expandAliasBody (aliases : SymbolMap TypeAlias) (depth : Nat) (expanding : List Symbol)
    (name : Symbol) (found : TypeAlias) (args : List Typ) : Except TypeError Typ :=
  if name ∈ expanding then .error (.cyclicTypeAlias name)
  else
    match found.typ with
    | none => .error (.internal ("type alias \x60" ++ found.name ++ "\x60 has no registered body"))
    | some body =>
        expandTypeAliasesInner aliases depth (name :: expanding)
          (body.apply (found.substitution args))

theorem expandTypeAliasesInner_succ (depth : Nat) (expanding : List Symbol) (typ : Typ) :
    expandTypeAliasesInner aliases (depth + 1) expanding typ =
      expandParts aliases (expandAliasBody aliases depth expanding) typ := rfl

theorem expandAliasBody_of_body {depth : Nat} {expanding : List Symbol} {name : Symbol}
    {found : TypeAlias} {args : List Typ} {body : Typ} (isNew : name ∉ expanding)
    (hasBody : found.typ = some body) :
    expandAliasBody aliases depth expanding name found args =
      expandTypeAliasesInner aliases depth (name :: expanding)
        (body.apply (found.substitution args)) := by
  rw [expandAliasBody, if_neg isNew, hasBody]

theorem exists_of_expandAliasBody_ok {depth : Nat} {expanding : List Symbol} {name : Symbol}
    {found : TypeAlias} {args : List Typ} {result : Typ}
    (expanded : expandAliasBody aliases depth expanding name found args = .ok result) :
    ∃ body, found.typ = some body ∧
      expandTypeAliasesInner aliases depth (name :: expanding)
        (body.apply (found.substitution args)) = .ok result := by
  rw [expandAliasBody] at expanded
  split at expanded
  · cases expanded
  · split at expanded
    · cases expanded
    · next body hasBody => exact ⟨body, hasBody, expanded⟩

/-- An expansion fails only with a cyclic alias, as long as the depth allows for all aliases. -/
theorem RegisteredBodies.expandTypeAliasesInner_error (bodies : RegisteredBodies aliases)
    {depth : Nat} {expanding : List Symbol} (distinct : expanding.Nodup)
    (known : expanding ⊆ aliases.map Prod.fst)
    (enough : aliases.length < depth + expanding.length) {typ : Typ} {error : TypeError}
    (failed : expandTypeAliasesInner aliases depth expanding typ = .error error) :
    ∃ name, error = .cyclicTypeAlias name := by
  induction depth generalizing expanding typ with
  | zero =>
      have := (List.subperm_of_subset distinct known).length_le
      rw [List.length_map] at this
      omega
  | succ depth hypothesis =>
      rw [expandTypeAliasesInner_succ] at failed
      obtain ⟨name, found, args, lookup, onBody⟩ := exists_of_expandParts_error failed
      by_cases inProgress : name ∈ expanding
      · rw [expandAliasBody, if_pos inProgress] at onBody
        cases onBody
        exact ⟨name, rfl⟩
      · obtain ⟨body, hasBody⟩ := bodies.registered name found lookup
        rw [expandAliasBody_of_body inProgress hasBody] at onBody
        refine hypothesis (List.nodup_cons.mpr ⟨inProgress, distinct⟩) ?_ ?_ onBody
        · exact List.cons_subset.mpr ⟨List.mem_map_of_mem (mem_of_lookup lookup), known⟩
        · rw [List.length_cons]
          omega

/-- An expansion ends with a type or with the report of a cyclic alias. -/
theorem RegisteredBodies.expandTypeAliases_ends (bodies : RegisteredBodies aliases) (typ : Typ) :
    (∃ result, expandTypeAliases aliases typ = .ok result) ∨
      ∃ name, expandTypeAliases aliases typ = .error (.cyclicTypeAlias name) := by
  cases outcome : expandTypeAliases aliases typ with
  | ok result => exact .inl ⟨result, rfl⟩
  | error error =>
      obtain ⟨name, rfl⟩ := bodies.expandTypeAliasesInner_error List.nodup_nil
        (List.nil_subset _) (by rw [List.length_nil]; omega) outcome
      exact .inr ⟨name, rfl⟩

end Bodies

/-! ## Cycles of uses -/

section Cycles

variable {aliases : SymbolMap TypeAlias}
  {expandBody : Symbol → TypeAlias → List Typ → Except TypeError Typ}

/-- Where an alias has all its arguments, an expansion that succeeds expands its body. -/
theorem exists_expandBody_of_occurs {typ : Typ} {more count : Nat} {const : TypeConst}
    {found : TypeAlias} (occurs : typ.Occurs more (.con const) count)
    (lookup : aliases.lookup const.nameStr = some found) (full : found.params.length ≤ count)
    {result : Typ} (expanded : expandParts aliases expandBody typ = .ok result) :
    (∃ args inner, expandBody const.nameStr found args = .ok inner) ∨
      ∃ args : List Typ, typ = args.foldl Typ.app (Typ.con const) ∧
        args.length < found.params.length ∧ count = args.length + more := by
  have complete : ∀ {args : List Typ} {result : Typ}, args.length = found.params.length →
      expandParts aliases expandBody (args.foldl Typ.app (Typ.con const)) = .ok result →
      ∃ args inner, expandBody const.nameStr found args = .ok inner := by
    intro args result length expanded
    obtain ⟨results, onArgs, head⟩ := expandParts_foldl lookup length.le expanded
    rw [expandHead_of_applies
      (appliesAlias_foldl lookup (onArgs.length_eq.symm.trans length))] at head
    exact ⟨results, result, head⟩
  -- A part that is given no arguments from outside has all of them inside.
  have inside : ∀ {typ atom : Typ} {count : Nat}, found.params.length ≤ count →
      ((∃ args inner, expandBody const.nameStr found args = .ok inner) ∨
        ∃ args : List Typ, typ = args.foldl Typ.app atom ∧
          args.length < found.params.length ∧ count = args.length + 0) →
      ∃ args inner, expandBody const.nameStr found args = .ok inner := by
    rintro typ atom count full (inPart | ⟨args, -, short, same⟩)
    · exact inPart
    · omega
  generalize isConst : Typ.con const = atom at occurs
  induction occurs generalizing result with
  | var typeVar more => cases isConst
  | con other more =>
      cases isConst
      rcases Nat.eq_zero_or_pos found.params.length with nullary | isPositive
      · exact .inl (@complete [] _ nullary.symm expanded)
      · exact .inr ⟨[], rfl, isPositive, (Nat.zero_add more).symm⟩
  | @appFunc func _ more _ arg _ hypothesis =>
      obtain ⟨func', arg', onFunc, onArg, head⟩ := expandParts_app_iff.mp expanded
      subst isConst
      rcases hypothesis full onFunc rfl with inFunc | ⟨args, rfl, short, same⟩
      · exact .inl inFunc
      · have longer : (args.foldl Typ.app (Typ.con const)).app arg =
            (args ++ [arg]).foldl Typ.app (Typ.con const) := by rw [List.foldl_append]; rfl
        have length : (args ++ [arg]).length = args.length + 1 := List.length_append
        rcases Nat.lt_or_ge (args.length + 1) found.params.length with still | all
        · exact .inr ⟨args ++ [arg], longer, by omega, by omega⟩
        · rw [longer] at expanded
          exact .inl (complete (by omega) expanded)
  | appArg func more _ hypothesis =>
      obtain ⟨func', arg', onFunc, onArg, head⟩ := expandParts_app_iff.mp expanded
      exact .inl (inside full (hypothesis full onArg isConst))
  | funcArg ret more _ hypothesis =>
      obtain ⟨arg', ret', onArg, onRet, same⟩ := expandParts_func_iff.mp expanded
      exact .inl (inside full (hypothesis full onArg isConst))
  | funcRet arg more _ hypothesis =>
      obtain ⟨arg', ret', onArg, onRet, same⟩ := expandParts_func_iff.mp expanded
      exact .inl (inside full (hypothesis full onRet isConst))
  | tuple more member _ hypothesis =>
      obtain ⟨results, onElems, same⟩ := expandParts_tuple_iff.mp expanded
      obtain ⟨result', -, onElem⟩ := exists_of_forall₂_mem_left onElems member
      exact .inl (inside full (hypothesis full onElem isConst))
  | record more member _ hypothesis =>
      obtain ⟨results, onFields, same⟩ := expandParts_record_iff.mp expanded
      obtain ⟨result', -, -, onField⟩ := exists_of_forall₂_mem_left onFields member
      exact .inl (inside full (hypothesis full onField isConst))

/-- No cycle of uses begins with an alias of a type that is expanded. -/
theorem acc_of_expandTypeAliasesInner {depth : Nat} {expanding : List Symbol} {typ result : Typ}
    (expanded : expandTypeAliasesInner aliases depth expanding typ = .ok result) {name : Symbol}
    (saturates : typ.Saturates aliases name) :
    Acc (Function.swap (SaturatesInBody aliases)) name := by
  induction depth generalizing expanding typ result name with
  | zero => cases expanded
  | succ depth hypothesis =>
      obtain ⟨const, count, found, occurs, rfl, lookup, full⟩ := saturates
      rw [expandTypeAliasesInner_succ] at expanded
      rcases exists_expandBody_of_occurs occurs lookup full expanded with
        ⟨args, inner, onBody⟩ | ⟨args, -, short, same⟩
      · obtain ⟨body, hasBody, onBody⟩ := exists_of_expandAliasBody_ok onBody
        rw [found.apply_substitution] at onBody
        refine ⟨_, fun other inBody => ?_⟩
        obtain ⟨_, ⟨_, lookupBody, isBody⟩, constOther, countOther, foundOther, occursOther,
          namedOther, lookupOther, fullOther⟩ := inBody
        cases lookup.symm.trans lookupBody
        cases hasBody.symm.trans isBody
        exact hypothesis onBody ⟨constOther, countOther, foundOther, occursOther.bindVars _,
          namedOther, lookupOther, fullOther⟩
      · omega

/-- Uses that lead from a type round a cycle are reported. -/
theorem RegisteredBodies.expandTypeAliases_of_cycle (bodies : RegisteredBodies aliases) {typ : Typ}
    {start name : Symbol} (saturates : typ.Saturates aliases start)
    (leads : Relation.ReflTransGen (SaturatesInBody aliases) start name)
    (cycle : Relation.TransGen (SaturatesInBody aliases) name name) :
    ∃ reported, expandTypeAliases aliases typ = .error (.cyclicTypeAlias reported) := by
  rcases bodies.expandTypeAliases_ends typ with ⟨result, expanded⟩ | reported
  · have onStart := acc_of_expandTypeAliasesInner expanded saturates
    have onName : Acc (Function.swap (SaturatesInBody aliases)) name := by
      rcases Relation.reflTransGen_iff_eq_or_transGen.mp leads with rfl | later
      · exact onStart
      · exact onStart.inv_of_transGen (Relation.transGen_swap.mpr later)
    have round := Relation.transGen_swap.mpr cycle
    exact ((acc_iff_isEmpty_descending_chain.mp onName.transGen).false
      ⟨fun _ => name, rfl, fun _ => round⟩).elim
  · exact reported

end Cycles

/-! ## Reports without cycles -/

/-- A type that is expanded can be given some more arguments, and the aliases in it are known. -/
inductive Typ.Ready (aliases : SymbolMap TypeAlias) (known : Symbol → Prop) : Nat → Typ → Prop where
  | var (more : Nat) (typeVar : TypeVar) : Ready aliases known more (.var typeVar)
  | con {more : Nat} {const : TypeConst} (short : ∀ found,
      aliases.lookup const.nameStr = some found →
        more < found.params.length ∧ known const.nameStr) : Ready aliases known more (.con const)
  | app {more : Nat} {func arg : Typ} (onFunc : Ready aliases known (more + 1) func)
      (onArg : Ready aliases known 0 arg) : Ready aliases known more (.app func arg)
  | func (more : Nat) {arg ret : Typ} (onArg : Ready aliases known 0 arg)
      (onRet : Ready aliases known 0 ret) : Ready aliases known more (.func arg ret)
  | tuple (more : Nat) {elems : List Typ} (onElems : ∀ elem ∈ elems, Ready aliases known 0 elem) :
      Ready aliases known more (.tuple elems)
  | record (more : Nat) {fields : List (Symbol × Typ)}
      (onFields : ∀ field ∈ fields, Ready aliases known 0 field.2)
      (ordered : (fields.map Prod.fst).Pairwise (· ≤ ·)) :
      Ready aliases known more (.record fields)

section Ready

variable {aliases : SymbolMap TypeAlias} {known : Symbol → Prop}

theorem Typ.Ready.head {typ : Typ} {more : Nat} (ready : typ.Ready aliases known more)
    {own args : List Typ} {const : TypeConst} {found : TypeAlias}
    (spine : typ.spine own = (.con const, args)) (lookup : aliases.lookup const.nameStr = some found)
    (few : own.length ≤ more) : args.length < found.params.length ∧ known const.nameStr := by
  induction ready generalizing own with
  | con short =>
      cases spine
      obtain ⟨less, isKnown⟩ := short found lookup
      exact ⟨by omega, isKnown⟩
  | app _ _ hypothesisFunc _ => exact hypothesisFunc spine (by rw [List.length_cons]; omega)
  | var _ _ | func _ _ _ _ _ | tuple _ _ _ | record _ _ _ _ => cases spine

theorem Typ.Ready.args {typ head : Typ} {more : Nat} (ready : typ.Ready aliases known more)
    {own args : List Typ} (spine : typ.spine own = (head, args))
    (onOwn : ∀ arg ∈ own, arg.Ready aliases known 0) : ∀ arg ∈ args, arg.Ready aliases known 0 := by
  induction ready generalizing own with
  | app _ onArg hypothesisFunc _ =>
      exact hypothesisFunc spine (List.forall_mem_cons.mpr ⟨onArg, onOwn⟩)
  | var _ _ | con _ | func _ _ _ _ _ | tuple _ _ _ | record _ _ _ _ =>
      cases spine
      exact onOwn

theorem Typ.Ready.not_applies {typ : Typ} {more : Nat} (ready : typ.Ready aliases known more)
    (name : Symbol) (found : TypeAlias) (args : List Typ) :
    ¬AppliesAlias aliases typ name found args := by
  rintro ⟨⟨const, spine, rfl⟩, lookup, length⟩
  have := (ready.head spine lookup (Nat.zero_le more)).1
  omega

theorem Typ.Ready.canonical {typ : Typ} {more : Nat} (ready : typ.Ready aliases known more) :
    typ.Canonical := by
  induction ready with
  | var _ typeVar => exact .var typeVar
  | con _ => exact .con _
  | app _ _ hypothesisFunc hypothesisArg => exact .app hypothesisFunc hypothesisArg
  | func _ _ _ hypothesisArg hypothesisRet => exact .func hypothesisArg hypothesisRet
  | tuple _ _ hypothesis => exact .tuple hypothesis
  | record _ _ ordered hypothesis => exact .record hypothesis ordered

theorem Typ.Ready.normal {typ : Typ} {more : Nat} (ready : typ.Ready aliases known more) :
    typ.Normal aliases := by
  have stuck := ready.not_applies
  induction ready with
  | var _ typeVar => exact .var typeVar
  | con _ => exact .con stuck
  | app onFunc onArg hypothesisFunc hypothesisArg =>
      exact .app (hypothesisFunc onFunc.not_applies) (hypothesisArg onArg.not_applies) stuck
  | func _ onArg onRet hypothesisArg hypothesisRet =>
      exact .func (hypothesisArg onArg.not_applies) (hypothesisRet onRet.not_applies)
  | tuple _ onElems hypothesis =>
      exact .tuple fun elem member => hypothesis elem member (onElems elem member).not_applies
  | record _ onFields _ hypothesis =>
      exact .record fun field member => hypothesis field member (onFields field member).not_applies

/-- One more argument, unless the alias at the head has all of them with it. -/
theorem Typ.Ready.more {typ : Typ} {more : Nat} (ready : typ.Ready aliases known more)
    (own : List Typ) (length : own.length = more + 1)
    (short : ∀ const args found, typ.spine own = (.con const, args) →
      aliases.lookup const.nameStr = some found → args.length < found.params.length) :
    typ.Ready aliases known (more + 1) := by
  induction ready generalizing own with
  | var more typeVar => exact .var (more + 1) typeVar
  | con isShort =>
      exact .con fun found lookup =>
        ⟨length ▸ short _ _ found rfl lookup, (isShort found lookup).2⟩
  | @app _ func arg _ onArg hypothesisFunc _ =>
      exact .app (hypothesisFunc (arg :: own) (by rw [List.length_cons, length]) short) onArg
  | func more onArg onRet _ _ => exact .func (more + 1) onArg onRet
  | tuple more onElems _ => exact .tuple (more + 1) onElems
  | record more onFields ordered _ => exact .record (more + 1) onFields ordered

theorem Typ.ready_foldl {const : TypeConst} {more : Nat} {args : List Typ}
    (short : ∀ found, aliases.lookup const.nameStr = some found →
      args.length + more < found.params.length ∧ known const.nameStr)
    (onArgs : ∀ arg ∈ args, arg.Ready aliases known 0) :
    (args.foldl Typ.app (Typ.con const)).Ready aliases known more := by
  induction args using List.reverseRecOn generalizing more with
  | nil => exact .con fun found lookup => by simpa using short found lookup
  | append_singleton args arg hypothesis =>
      rw [List.foldl_append]
      refine .app (hypothesis (fun found lookup => ?_)
        fun arg member => onArgs arg (List.mem_append_left _ member))
          (onArgs arg (by simp))
      obtain ⟨less, isKnown⟩ := short found lookup
      rw [List.length_append, List.length_singleton] at less
      exact ⟨by omega, isKnown⟩

end Ready

/-- The result has the property, unless the depth is used up. -/
def EndsWith {Result : Type} (holds : Result → Prop) (outcome : Except TypeError Result) : Prop :=
  (∃ result, outcome = .ok result ∧ holds result) ∨ outcome = .error .outOfFuel

theorem EndsWith.bind {First Second : Type} {holds : First → Prop} {held : Second → Prop}
    {outcome : Except TypeError First} {next : First → Except TypeError Second}
    (ends : EndsWith holds outcome) (onNext : ∀ result, holds result → EndsWith held (next result)) :
    EndsWith held (outcome >>= next) := by
  rcases ends with ⟨result, rfl, isHeld⟩ | rfl
  · exact onNext result isHeld
  · exact .inr rfl

theorem EndsWith.imp {Result : Type} {holds held : Result → Prop}
    {outcome : Except TypeError Result} (ends : EndsWith holds outcome)
    (weaker : ∀ result, holds result → held result) : EndsWith held outcome := by
  rcases ends with ⟨result, isOutcome, isHeld⟩ | deep
  · exact .inl ⟨result, isOutcome, weaker result isHeld⟩
  · exact .inr deep

theorem EndsWith.ok {Result : Type} {holds : Result → Prop} {result : Result}
    (isHeld : holds result) : EndsWith holds (.ok result) :=
  .inl ⟨result, rfl, isHeld⟩

section Bodies

variable {aliases : SymbolMap TypeAlias} {known : Symbol → Prop} {draws : Prop}
  {expandBody : Symbol → TypeAlias → List Typ → Except TypeError Typ}

/-- What a part of a body becomes, when it is given some more arguments: it is known which
aliases are in it, or it is an alias that does not have its arguments yet. -/
inductive ExpandsTo (aliases : SymbolMap TypeAlias) (known : Symbol → Prop) (draws : Prop)
    (typ : Typ) (more : Nat) (result : Typ) : Prop where
  | done (ready : result.Ready aliases known 0)
      (unknown : 0 < more → ∀ const args found, result.spine [] = (.con const, args) →
        aliases.lookup const.nameStr = some found → draws)
  | waiting {const : TypeConst} {found : TypeAlias} {args results : List Typ}
      (typ_eq : typ = args.foldl Typ.app (Typ.con const))
      (result_eq : result = results.foldl Typ.app (Typ.con const))
      (lookup : aliases.lookup const.nameStr = some found)
      (length : args.length = results.length) (short : args.length < found.params.length)
      (onResults : ∀ arg ∈ results, arg.Ready aliases known 0)

theorem ExpandsTo.of_head {draws : Prop} {typ result : Typ} {more : Nat}
    (ready : result.Ready aliases known 0)
    (notCon : ∀ const args, result.spine [] ≠ (.con const, args)) :
    ExpandsTo aliases known draws typ more result :=
  .done ready fun _ const args _ spine => absurd spine (notCon const args)

/-- The aliases and the variables of a part of a body. -/
structure PartOfBody (aliases : SymbolMap TypeAlias) (known callable : Symbol → Prop)
    (draws : Prop) (typ : Typ) (more : Nat) : Prop where
  aliasIn : ∀ const count found, typ.Occurs more (.con const) count →
    aliases.lookup const.nameStr = some found → callable const.nameStr ∧
      (count < found.params.length → known const.nameStr) ∧ (found.params.length < count → draws)
  varIn : ∀ typeVar count, typ.Occurs more (.var typeVar) count → 0 < count → draws

theorem PartOfBody.of_occurs {callable : Symbol → Prop} {typ part : Typ} {more partMore : Nat}
    (isPart : PartOfBody aliases known callable draws typ more)
    (occurs : ∀ atom count, part.Occurs partMore atom count → typ.Occurs more atom count) :
    PartOfBody aliases known callable draws part partMore :=
  ⟨fun const count found inPart => isPart.aliasIn const count found (occurs _ _ inPart),
    fun typeVar count inPart => isPart.varIn typeVar count (occurs _ _ inPart)⟩

theorem Typ.occurs_foldl (const : TypeConst) (args : List Typ) (more : Nat) :
    (args.foldl Typ.app (Typ.con const)).Occurs more (.con const) (args.length + more) := by
  induction args using List.reverseRecOn generalizing more with
  | nil =>
      rw [List.length_nil, Nat.zero_add]
      exact .con const more
  | append_singleton args arg hypothesis =>
      rw [List.foldl_append, List.length_append, List.length_singleton, Nat.add_assoc,
        Nat.add_comm 1]
      exact .appFunc arg (hypothesis (more + 1))

/-- A part that is given no more arguments. -/
theorem ExpandsTo.ready {callable : Symbol → Prop} {typ result : Typ}
    (expands : ExpandsTo aliases known draws typ 0 result)
    (isPart : PartOfBody aliases known callable draws typ 0) : result.Ready aliases known 0 := by
  cases expands with
  | done ready unknown => exact ready
  | @waiting const found args results typ_eq result_eq lookup length short onResults =>
      subst typ_eq result_eq
      refine Typ.ready_foldl (fun other lookupOther => ?_) onResults
      cases lookup.symm.trans lookupOther
      have isKnown := (isPart.aliasIn const _ found (Typ.occurs_foldl const args 0) lookup).2.1
      exact ⟨by omega, isKnown (by omega)⟩

theorem Typ.spine_own (typ : Typ) (own : List Typ) :
    typ.spine own = ((typ.spine []).1, (typ.spine []).2 ++ own) := by
  induction typ using Typ.inductionOn generalizing own with
  | app func arg hypothesis _ => rw [spine, spine, hypothesis, hypothesis [arg]]; simp
  | var _ | con _ | func _ _ _ _ | tuple _ _ | record _ _ => rfl

theorem endsWith_expandPartsList (holds : Typ → Prop) {elems : List Typ}
    (each : ∀ elem ∈ elems, EndsWith holds (expandParts aliases expandBody elem)) :
    EndsWith (fun results : List Typ => ∀ result ∈ results, holds result)
      (expandPartsList aliases expandBody elems) := by
  induction elems with
  | nil => exact .ok (by simp)
  | cons elem elems hypothesis =>
      refine (each elem List.mem_cons_self).bind fun result onElem => ?_
      refine (hypothesis fun other member => each other (.tail _ member)).bind
        fun results onElems => ?_
      exact .ok (List.forall_mem_cons.mpr ⟨onElem, onElems⟩)

theorem endsWith_expandPartsFields (holds : Typ → Prop) {fields : List (Symbol × Typ)}
    (each : ∀ field ∈ fields, EndsWith holds (expandParts aliases expandBody field.2)) :
    EndsWith (fun results : List (Symbol × Typ) => ∀ result ∈ results, holds result.2)
      (expandPartsFields aliases expandBody fields) := by
  induction fields with
  | nil => exact .ok (by simp)
  | cons field fields hypothesis =>
      refine (each field List.mem_cons_self).bind fun result onField => ?_
      refine (hypothesis fun other member => each other (.tail _ member)).bind
        fun results onFields => ?_
      exact .ok (List.forall_mem_cons.mpr ⟨onField, onFields⟩)

section Parts

variable {callable : Symbol → Prop} (onKnown : draws → ∀ name, known name → callable name)
  (onBody : ∀ name found args, aliases.lookup name = some found → callable name →
    (∀ arg ∈ args, arg.Ready aliases known 0) →
      EndsWith (Typ.Ready aliases known 0) (expandBody name found args))

include onBody

/-- An alias alone. -/
theorem expandsTo_con {const : TypeConst} {more : Nat}
    (isPart : PartOfBody aliases known callable draws (.con const) more) :
    EndsWith (ExpandsTo aliases known draws (.con const) more)
      (expandHead aliases expandBody (.con const)) := by
  cases lookup : aliases.lookup const.nameStr with
  | none =>
      have unused : ∀ found, aliases.lookup const.nameStr ≠ some found := by simp [lookup]
      rw [expandHead_of_not_applies]
      · refine .ok (.done (.con fun found lookup => absurd lookup (unused found)) ?_)
        intro _ other args found spine lookup
        cases spine
        exact absurd lookup (unused found)
      · rintro name found args ⟨⟨other, spine, rfl⟩, lookup, -⟩
        cases spine
        exact unused found lookup
  | some found =>
      obtain ⟨isCallable, -, beyond⟩ := isPart.aliasIn const more found (.con const more) lookup
      rcases Nat.eq_zero_or_pos found.params.length with nullary | isPositive
      · have applies : AppliesAlias aliases (.con const) const.nameStr found [] :=
          @appliesAlias_foldl aliases const found lookup [] nullary.symm
        rw [expandHead_of_applies applies]
        exact (onBody _ found [] lookup isCallable (by simp)).imp fun result ready =>
          .done ready fun positive _ _ _ _ _ => beyond (nullary ▸ positive)
      · have alone : Typ.con const = [].foldl Typ.app (Typ.con const) := rfl
        rw [alone, expandHead_of_not_applies
          (@not_appliesAlias_foldl aliases const found lookup [] isPositive.ne)]
        exact .ok (.waiting alone alone lookup rfl isPositive (by simp))

/-- One more argument for an alias that does not have its arguments yet. -/
theorem expandsTo_waiting {const : TypeConst} {found : TypeAlias} {args results : List Typ}
    {arg arg' : Typ} {more : Nat}
    (isPart : PartOfBody aliases known callable draws
      ((args.foldl Typ.app (Typ.con const)).app arg) more)
    (lookup : aliases.lookup const.nameStr = some found) (length : args.length = results.length)
    (short : args.length < found.params.length)
    (onResults : ∀ result ∈ results, result.Ready aliases known 0)
    (onArg : arg'.Ready aliases known 0) :
    EndsWith (ExpandsTo aliases known draws ((args.foldl Typ.app (Typ.con const)).app arg) more)
      (expandHead aliases expandBody ((results.foldl Typ.app (Typ.con const)).app arg')) := by
  have longer : ∀ (args : List Typ) (arg : Typ), (args.foldl Typ.app (Typ.con const)).app arg =
      (args ++ [arg]).foldl Typ.app (Typ.con const) := by
    intro args arg
    rw [List.foldl_append]
    rfl
  have more_length : ∀ (args : List Typ) (arg : Typ), (args ++ [arg]).length = args.length + 1 :=
    fun _ _ => List.length_append
  have onAll : ∀ result ∈ results ++ [arg'], result.Ready aliases known 0 :=
    List.forall_mem_append.mpr ⟨onResults, by simpa using onArg⟩
  have occurs := Typ.occurs_foldl const (args ++ [arg]) more
  rw [← longer] at occurs
  obtain ⟨isCallable, -, beyond⟩ := isPart.aliasIn const _ found occurs lookup
  rw [longer results, longer args]
  rcases Nat.lt_or_ge (args.length + 1) found.params.length with still | all
  · have isShort : (results ++ [arg']).length ≠ found.params.length := by
      rw [more_length]
      omega
    rw [expandHead_of_not_applies (not_appliesAlias_foldl lookup isShort)]
    refine .ok (.waiting rfl rfl lookup ?_ ?_ onAll)
    · rw [more_length, more_length, length]
    · rwa [more_length]
  · have isAll : (results ++ [arg']).length = found.params.length := by
      rw [more_length]
      omega
    rw [expandHead_of_applies (appliesAlias_foldl lookup isAll)]
    refine (onBody _ found _ lookup isCallable onAll).imp fun result ready =>
      .done ready fun positive _ _ _ _ _ => beyond ?_
    rw [more_length]
    omega

include onKnown

/-- One more argument for what is already expanded. -/
theorem expandsTo_done {func arg func' arg' : Typ} {more : Nat}
    (onFunc : func'.Ready aliases known 0)
    (unknown : ∀ const args found, func'.spine [] = (.con const, args) →
      aliases.lookup const.nameStr = some found → draws)
    (onArg : arg'.Ready aliases known 0) :
    EndsWith (ExpandsTo aliases known draws (.app func arg) more)
      (expandHead aliases expandBody (.app func' arg')) := by
  have inFunc : ∀ {head : Typ} {args : List Typ}, (func'.app arg').spine [] = (head, args) →
      func'.spine [] = (head, (func'.spine []).2) ∧ args = (func'.spine []).2 ++ [arg'] := by
    intro head args spine
    rw [Typ.spine, Typ.spine_own] at spine
    cases spine
    exact ⟨rfl, rfl⟩
  rcases @expandHead_cases aliases expandBody (.app func' arg') with
    ⟨stuck, same⟩ | ⟨name, found, args, ⟨⟨const, spine, rfl⟩, lookup, length⟩, same⟩
  · rw [same]
    refine .ok (.done (.app (onFunc.more [arg'] rfl ?_) onArg) ?_)
    · intro const args found spine lookup
      have below := (onFunc.head (inFunc spine).1 lookup (Nat.le_refl 0)).1
      have notAll : args.length ≠ found.params.length :=
        fun all => stuck _ found args ⟨⟨const, spine, rfl⟩, lookup, all⟩
      rw [(inFunc spine).2, List.length_append, List.length_singleton] at notAll ⊢
      omega
    · intro _ const args found spine lookup
      exact unknown const _ found (inFunc spine).1 lookup
  · have isDrawn := unknown const _ found (inFunc spine).1 lookup
    have isKnown := (onFunc.head (inFunc spine).1 lookup (Nat.le_refl 0)).2
    rw [same]
    refine (onBody _ found args lookup (onKnown isDrawn _ isKnown) ?_).imp fun result ready =>
      .done ready fun _ _ _ _ _ _ => isDrawn
    exact onFunc.args spine (by simpa using onArg)

/-- The expansion of a body with expanded arguments. -/
theorem expandsTo_expandParts {assign : TypeVar → Typ}
    (onVars : ∀ typeVar, (assign typeVar).Ready aliases known 0) {typ : Typ} {more : Nat}
    (isPart : PartOfBody aliases known callable draws typ more) :
    EndsWith (ExpandsTo aliases known draws typ more)
      (expandParts aliases expandBody (typ.bindVars assign)) := by
  induction typ using Typ.inductionOn generalizing more with
  | var typeVar =>
      rw [Typ.bindVars_var, (onVars typeVar).normal.expandParts (onVars typeVar).canonical]
      exact .ok (.done (onVars typeVar) fun positive _ _ _ _ _ =>
        isPart.varIn typeVar more (.var typeVar more) positive)
  | con const =>
      rw [Typ.bindVars_con, expandParts]
      exact expandsTo_con onBody isPart
  | app func arg hypothesisFunc hypothesisArg =>
      have partFunc : PartOfBody aliases known callable draws func (more + 1) :=
        isPart.of_occurs fun _ _ => .appFunc arg
      have partArg : PartOfBody aliases known callable draws arg 0 :=
        isPart.of_occurs fun _ _ => .appArg func more
      rw [Typ.bindVars_app, expandParts]
      refine (hypothesisFunc partFunc).bind fun func' onFunc => ?_
      refine (hypothesisArg partArg).bind fun arg' onArg => ?_
      cases onFunc with
      | done ready unknown =>
          exact expandsTo_done onKnown onBody ready (unknown (Nat.succ_pos more))
            (onArg.ready partArg)
      | waiting typ_eq result_eq lookup length short onResults =>
          subst typ_eq result_eq
          exact expandsTo_waiting onBody isPart lookup length short onResults (onArg.ready partArg)
  | func arg ret hypothesisArg hypothesisRet =>
      have partArg : PartOfBody aliases known callable draws arg 0 :=
        isPart.of_occurs fun _ _ => .funcArg ret more
      have partRet : PartOfBody aliases known callable draws ret 0 :=
        isPart.of_occurs fun _ _ => .funcRet arg more
      rw [Typ.bindVars_func, expandParts]
      refine (hypothesisArg partArg).bind fun arg' onArg => ?_
      refine (hypothesisRet partRet).bind fun ret' onRet => ?_
      exact .ok (.of_head (.func 0 (onArg.ready partArg) (onRet.ready partRet))
        fun _ _ spine => by cases spine)
  | tuple elems hypothesis =>
      rw [Typ.bindVars_tuple, expandParts]
      refine EndsWith.bind (endsWith_expandPartsList
        (Typ.Ready aliases known 0) fun image member => ?_) fun results onElems =>
          .ok (.of_head (.tuple 0 onElems) fun _ _ spine => by cases spine)
      obtain ⟨elem, inElems, rfl⟩ := List.mem_map.mp member
      have part : PartOfBody aliases known callable draws elem 0 :=
        isPart.of_occurs fun _ _ => .tuple more inElems
      exact (hypothesis elem inElems part).imp fun result onElem => onElem.ready part
  | record fields hypothesis =>
      rw [Typ.bindVars_record, expandParts]
      refine EndsWith.bind (endsWith_expandPartsFields
        (Typ.Ready aliases known 0) fun image member => ?_) fun results onFields =>
          .ok (.of_head
            (.record 0 (fun field member => onFields field (List.mem_mergeSort.mp member))
              (Typ.pairwise_mergeSort_fields results)) fun _ _ spine => by cases spine)
      obtain ⟨field, inFields, rfl⟩ := List.mem_map.mp member
      have part : PartOfBody aliases known callable draws field.2 0 :=
        isPart.of_occurs fun _ _ => .record more inFields
      exact (hypothesis field inFields part).imp fun result onField => onField.ready part

end Parts

end Bodies

section Needs

variable {aliases : SymbolMap TypeAlias} {typ : Typ}

theorem LeadsTo.of_passedAlong {name : Symbol} (passed : PassedAlong aliases typ name) :
    LeadsTo aliases typ name := by
  rcases passed with ⟨const, count, found, occurs, named, lookup, -⟩ |
    ⟨through, body, ⟨start, names, leads⟩, isBody, const, count, found, occurs, named, lookup, -⟩
  · exact ⟨name, ⟨const, count, occurs, named, found, lookup⟩, .refl⟩
  · exact ⟨start, names, leads.tail ⟨body, isBody, const, count, occurs, named, found, lookup⟩⟩

theorem MayNeed.leadsTo {name other : Symbol} (need : MayNeed aliases typ name other) :
    LeadsTo aliases typ other := by
  obtain ⟨⟨start, names, leads⟩, body, isBody, inBody | ⟨-, passed⟩⟩ := need
  · exact ⟨start, names, leads.tail ⟨body, isBody, inBody⟩⟩
  · exact .of_passedAlong passed

/-- The body of an alias that the type leads to, while the alias is in progress. -/
theorem partOfBody_of_aliasBody {expanding : List Symbol} {name : Symbol} {body : Typ}
    (leads : LeadsTo aliases typ name)
    (needed : ∀ outer ∈ expanding, Relation.TransGen (MayNeed aliases typ) outer name)
    (isBody : AliasBody aliases name body) :
    (body.AppliesUnknown aliases → ∀ other, PassedAlong aliases typ other →
      LeadsTo aliases typ other ∧
        ∀ outer ∈ name :: expanding, Relation.TransGen (MayNeed aliases typ) outer other) ∧
    PartOfBody aliases (PassedAlong aliases typ)
      (fun other => LeadsTo aliases typ other ∧
        ∀ outer ∈ name :: expanding, Relation.TransGen (MayNeed aliases typ) outer other)
      (body.AppliesUnknown aliases) body 0 := by
  have onNeed : ∀ other, MayNeed aliases typ name other → LeadsTo aliases typ other ∧
      ∀ outer ∈ name :: expanding, Relation.TransGen (MayNeed aliases typ) outer other :=
    fun other need => ⟨need.leadsTo, List.forall_mem_cons.mpr
      ⟨.single need, fun outer member => (needed outer member).tail need⟩⟩
  refine ⟨fun unknown other passed => onNeed other ⟨leads, body, isBody, .inr ⟨unknown, passed⟩⟩,
    fun const count found occurs lookup => ⟨?_, ?_, ?_⟩, ?_⟩
  · exact onNeed _ ⟨leads, body, isBody, .inl ⟨const, count, occurs, rfl, found, lookup⟩⟩
  · exact fun few =>
      .inr ⟨name, body, leads, isBody, const, count, found, occurs, rfl, lookup, few⟩
  · exact fun beyond => .inr ⟨const, count, found, occurs, lookup, beyond⟩
  · exact fun typeVar count occurs positive => .inl ⟨typeVar, count, occurs, positive⟩

/-- Where no alias may need itself, none is met while it is in progress. -/
theorem RegisteredBodies.endsWith_expandTypeAliasesInner (bodies : RegisteredBodies aliases)
    (acyclic : ∀ name, ¬Relation.TransGen (MayNeed aliases typ) name name) {depth : Nat}
    {expanding : List Symbol} {draws : Prop} {part : Typ} {assign : TypeVar → Typ}
    (onKnown : draws → ∀ name, PassedAlong aliases typ name → LeadsTo aliases typ name ∧
      ∀ outer ∈ expanding, Relation.TransGen (MayNeed aliases typ) outer name)
    (isPart : PartOfBody aliases (PassedAlong aliases typ)
      (fun name => LeadsTo aliases typ name ∧
        ∀ outer ∈ expanding, Relation.TransGen (MayNeed aliases typ) outer name) draws part 0)
    (onVars : ∀ typeVar, (assign typeVar).Ready aliases (PassedAlong aliases typ) 0) :
    EndsWith (Typ.Ready aliases (PassedAlong aliases typ) 0)
      (expandTypeAliasesInner aliases depth expanding (part.bindVars assign)) := by
  induction depth generalizing expanding draws part assign with
  | zero => exact .inr rfl
  | succ depth hypothesis =>
      rw [expandTypeAliasesInner_succ]
      refine (expandsTo_expandParts onKnown (fun name found args lookup callable onArgs => ?_)
        onVars isPart).imp fun result expands => expands.ready isPart
      obtain ⟨leads, needed⟩ := callable
      obtain ⟨body, hasBody⟩ := bodies.registered name found lookup
      have isNew : name ∉ expanding := fun inProgress => acyclic name (needed name inProgress)
      obtain ⟨onKnownBody, isPartBody⟩ :=
        partOfBody_of_aliasBody leads needed ⟨found, lookup, hasBody⟩
      rw [expandAliasBody_of_body isNew hasBody, found.apply_substitution]
      exact hypothesis onKnownBody isPartBody (found.assignment_related
        (List.forall₂_same.mpr onArgs) fun typeVar => .var 0 typeVar)

/-- What is reported goes back to an alias that may need itself. -/
theorem RegisteredBodies.exists_cycle_of_expandTypeAliases (bodies : RegisteredBodies aliases)
    {name : Symbol} (reported : expandTypeAliases aliases typ = .error (.cyclicTypeAlias name)) :
    ∃ other, Relation.TransGen (MayNeed aliases typ) other other := by
  by_contra acyclic
  push Not at acyclic
  have isPart : PartOfBody aliases (PassedAlong aliases typ)
      (fun name => LeadsTo aliases typ name ∧
        ∀ outer ∈ [], Relation.TransGen (MayNeed aliases typ) outer name) True typ 0 := by
    refine ⟨fun const count found occurs lookup => ⟨⟨?_, by simp⟩, fun few => ?_, fun _ => trivial⟩,
      fun _ _ _ _ => trivial⟩
    · exact ⟨_, ⟨const, count, occurs, rfl, found, lookup⟩, .refl⟩
    · exact .inl ⟨const, count, found, occurs, rfl, lookup, few⟩
  have ends : EndsWith (Typ.Ready aliases (PassedAlong aliases typ) 0)
      (expandTypeAliasesInner aliases (aliases.length + 1) [] (typ.bindVars .var)) :=
    bodies.endsWith_expandTypeAliasesInner acyclic
      (fun _ name passed => ⟨.of_passedAlong passed, by simp⟩) isPart fun typeVar => .var 0 typeVar
  rw [Typ.bindVars_var_self] at ends
  rcases ends with ⟨result, expanded, -⟩ | deep
  · cases reported.symm.trans expanded
  · cases reported.symm.trans deep

/-- The expansion of a type ends, with a type in which no alias has all its arguments and to
which the replacement of uses leads in any order, or with the report of a cyclic alias.  Uses
that lead round a cycle are reported, and only where an alias may need itself is one reported. -/
theorem expandTypeAliases_outcome (bodies : RegisteredBodies aliases) (canonical : typ.Canonical) :
    ((∃ result, expandTypeAliases aliases typ = .ok result ∧ result.Normal aliases ∧
        (∀ later, Relation.ReflTransGen (Replaces aliases) typ later →
          Relation.ReflTransGen (Replaces aliases) later result ∧
            (later.Normal aliases → later = result)) ∧
        expandTypeAliases aliases result = .ok result) ∨
      ∃ name, expandTypeAliases aliases typ = .error (.cyclicTypeAlias name) ∧
        ∃ other, Relation.TransGen (MayNeed aliases typ) other other) ∧
    ∀ start other, typ.Saturates aliases start →
      Relation.ReflTransGen (SaturatesInBody aliases) start other →
      Relation.TransGen (SaturatesInBody aliases) other other →
        ∃ name, expandTypeAliases aliases typ = .error (.cyclicTypeAlias name) := by
  refine ⟨?_, fun start other => bodies.expandTypeAliases_of_cycle⟩
  rcases bodies.expandTypeAliases_ends typ with ⟨result, expanded⟩ | ⟨name, reported⟩
  · have freely := expandFreely_of_inner expanded
    obtain ⟨normal, inOrder⟩ := normal_expandFreely freely
    refine .inl ⟨result, expanded, normal, fun later steps => ?_, normal.expandParts inOrder⟩
    have onLater := expandFreely_of_steps steps freely
    have canonicalLater := canonical_of_steps bodies.canonical steps canonical
    refine ⟨steps_of_expandFreely bodies.canonical canonicalLater onLater, fun normalLater => ?_⟩
    have same : expandFreely aliases (aliases.length + 1) later = .ok later :=
      expandFreely_of_normal normalLater canonicalLater
    exact Except.ok.inj (same.symm.trans onLater)
  · exact .inr ⟨name, reported, bodies.exists_cycle_of_expandTypeAliases reported⟩

end Needs

end RexLang
