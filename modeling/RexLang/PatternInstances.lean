import Mathlib.Data.List.TakeWhile
import RexLang.MatchExhaustiveness
import RexLang.StoredValues
import RexLang.SymbolMaps
import RexLang.TypeSubstitution

/-!
# Instances of patterns

When a pattern and a value of the heap have a type, and when a value is an instance of
a pattern, with the values of its variables.
-/

namespace RexLang

/-! ## Constructors -/

/-- The variant that values with the tag are built with. -/
def AdtDecl.variantNamed (decl : AdtDecl) (tag : Symbol) : Option AdtVariant :=
  decl.variants.find? fun variant => lastSegment variant.name = tag

/-- The type in `constructor_schemes`. -/
def AdtDecl.constructorType (decl : AdtDecl) (variant : AdtVariant) : Typ :=
  (variant.args.map AdtArgument.typ).foldr .func decl.resultType

/-- The names that `register_adt` gives to a constructor. -/
def AdtDecl.Names (decl : AdtDecl) (variant : AdtVariant) (name : NameRef) : Prop :=
  name.toDottedSymbol = qualifiedConstructorName decl.name variant.name ∨
    name.toDottedSymbol = compatibilityConstructorName decl.name variant.name

/-- The substitution has a type for each parameter and for nothing else. -/
def AdtDecl.Instantiates (decl : AdtDecl) (params : Subst) : Prop :=
  ∀ id, (params.lookup id).isSome ↔ id ∈ decl.params.map (·.var.id)

/-- `List` of the prelude. -/
def listAdt (a : TypeVar) : AdtDecl :=
  ⟨"List", [⟨"a", a, none⟩],
    [⟨"Empty", [], none⟩, ⟨"Cons", [.positional (.var a), .positional (.list (.var a))], none⟩],
    none⟩

/-- The constructor and the arguments that build a value.  Lists have cells of their
own, all other constructors are tagged. -/
inductive HeapValue.BuiltBy : HeapValue → AdtDecl → AdtVariant → List HeapValue → Prop where
  | adt {decl variant tag args} (notList : decl.name ≠ "List")
      (isTag : tag = lastSegment variant.name) : BuiltBy (.adt tag args) decl variant args
  | empty {decl variant} (isList : decl.name = "List")
      (isEmpty : lastSegment variant.name = "Empty") : BuiltBy (.list []) decl variant []
  | cons {decl variant head tail} (isList : decl.name = "List")
      (isCons : lastSegment variant.name = "Cons") :
      BuiltBy (.list (head :: tail)) decl variant [head, .list tail]

/-! ## Types -/

section Typing

variable (adts : SymbolMap AdtDecl)

inductive HeapValue.HasType : HeapValue → Typ → Prop where
  | byte (value : UInt8) : HasType (.byte value) (.builtin .u8)
  | scalar (id : BuiltinTypeId) (pointer : InternalPtr) :
      HasType (.leaf (.scalar id) pointer) (.builtin id)
  | callable (pointer : InternalPtr) (arg ret : Typ) :
      HasType (.leaf .callable pointer) (.func arg ret)
  | tuple {elems types} (children : List.Forall₂ HasType elems types) :
      HasType (.tuple elems) (.tuple types)
  | list {elems typ} (children : ∀ elem ∈ elems, HasType elem typ) :
      HasType (.list elems) (.list typ)
  | dict {keys values typ} (children : ∀ value ∈ values, HasType value typ) :
      HasType (.dict keys values) (.dict typ)
  | record {values} {fields : List (Symbol × Typ)}
      (children : List.Forall₂ HasType values (fields.map Prod.snd)) :
      HasType (.dict (fields.map Prod.fst) values) (.record fields)
  | adt {decl variant tag args params} (declared : adts.lookup decl.name = some decl)
      (notList : decl.name ≠ "List") (named : decl.variantNamed tag = some variant)
      (instantiates : decl.Instantiates params)
      (children : List.Forall₂ HasType args (variant.args.map fun arg => arg.typ.apply params)) :
      HasType (.adt tag args) (decl.resultType.apply params)

/-- The patterns that `infer_pattern` accepts for a type. -/
inductive PatternHasType : Pattern → Typ → Prop where
  | wildcard (span : Span) (typ : Typ) : PatternHasType (.wildcard span) typ
  | var (binder : Var) (typ : Typ) : PatternHasType (.var binder) typ
  | named {span name args decl variant params types typ}
      (declared : adts.lookup decl.name = some decl)
      (named : decl.variantNamed (lastSegment variant.name) = some variant)
      (names : decl.Names variant name) (instantiates : decl.Instantiates params)
      (constructed : types.foldr .func typ = (decl.constructorType variant).apply params)
      (children : List.Forall₂ PatternHasType args types) :
      PatternHasType (.named span name args) typ
  | tuple {span elems types} (children : List.Forall₂ PatternHasType elems types) :
      PatternHasType (.tuple span elems) (.tuple types)
  | list {span elems typ} (children : ∀ elem ∈ elems, PatternHasType elem typ) :
      PatternHasType (.list span elems) (.list typ)
  | cons {span head tail typ} (first : PatternHasType head typ)
      (rest : PatternHasType tail (.list typ)) : PatternHasType (.cons span head tail) (.list typ)
  | dict {span typ} {fields : List (Symbol × Pattern)}
      (children : ∀ pattern ∈ fields.map Prod.snd, PatternHasType pattern typ) :
      PatternHasType (.dict span fields) (.dict typ)
  | record {span types typs} {fields : List (Symbol × Pattern)}
      (known : fields.map (fun field => typs.lookup field.1) = types.map some)
      (children : List.Forall₂ PatternHasType (fields.map Prod.snd) types) :
      PatternHasType (.dict span fields) (.record typs)

/-! ## Instances -/

mutual

/-- The value is an instance of the pattern, with the values of its variables. -/
inductive IsInstance : Pattern → HeapValue → List (Symbol × HeapValue) → Prop where
  | wildcard (span : Span) (value : HeapValue) : IsInstance (.wildcard span) value []
  | var (binder : Var) (value : HeapValue) : IsInstance (.var binder) value [(binder.name, value)]
  | named {span name patterns value decl variant args bindings}
      (declared : adts.lookup decl.name = some decl) (member : variant ∈ decl.variants)
      (names : decl.Names variant name) (built : value.BuiltBy decl variant args)
      (parts : AreInstances patterns args bindings) :
      IsInstance (.named span name patterns) value bindings
  | tuple {span patterns elems bindings} (parts : AreInstances patterns elems bindings) :
      IsInstance (.tuple span patterns) (.tuple elems) bindings
  | list {span patterns elems bindings} (parts : AreInstances patterns elems bindings) :
      IsInstance (.list span patterns) (.list elems) bindings
  | cons {span head tail value values first rest} (isHead : IsInstance head value first)
      (isTail : IsInstance tail (.list values) rest) :
      IsInstance (.cons span head tail) (.list (value :: values)) (first ++ rest)
  | dict {span keys values found bindings} {fields : List (Symbol × Pattern)}
      (present : fields.map (fun field => (keys.zip values).lookup field.1) = found.map some)
      (parts : AreInstances (fields.map Prod.snd) found bindings) :
      IsInstance (.dict span fields) (.dict keys values) bindings

inductive AreInstances : List Pattern → List HeapValue → List (Symbol × HeapValue) → Prop where
  | nil : AreInstances [] [] []
  | cons {pattern patterns value values first rest} (isHead : IsInstance pattern value first)
      (areRest : AreInstances patterns values rest) :
      AreInstances (pattern :: patterns) (value :: values) (first ++ rest)

end

end Typing

section Unique

variable {adts : SymbolMap AdtDecl}

theorem HeapValue.BuiltBy.args_unique {value : HeapValue} {decl other : AdtDecl}
    {variant otherVariant : AdtVariant} {args others : List HeapValue}
    (built : value.BuiltBy decl variant args)
    (builtOther : value.BuiltBy other otherVariant others) : others = args := by
  cases built with
  | adt => cases builtOther; rfl
  | empty => cases builtOther; rfl
  | cons => cases builtOther; rfl

theorem areInstances_unique {patterns : List Pattern}
    (each : ∀ pattern ∈ patterns, ∀ value first second, IsInstance adts pattern value first →
      IsInstance adts pattern value second → second = first) {values : List HeapValue}
    {first second : List (Symbol × HeapValue)} (isFirst : AreInstances adts patterns values first)
    (isSecond : AreInstances adts patterns values second) : second = first := by
  induction patterns generalizing values first second with
  | nil =>
      cases isFirst
      cases isSecond
      rfl
  | cons pattern patterns hypothesis =>
      rw [List.forall_mem_cons] at each
      cases isFirst with
      | cons head rest =>
          cases isSecond with
          | cons headOther restOther =>
              rw [each.1 _ _ _ head headOther, hypothesis each.2 rest restOther]

/-- A value is an instance with one list of bindings at most. -/
theorem isInstance_unique : (pattern : Pattern) → (value : HeapValue) →
    (first second : List (Symbol × HeapValue)) → IsInstance adts pattern value first →
      IsInstance adts pattern value second → second = first
  | .wildcard _, _, _, _, isFirst, isSecond => by
      cases isFirst
      cases isSecond
      rfl
  | .var _, _, _, _, isFirst, isSecond => by
      cases isFirst
      cases isSecond
      rfl
  | .named _ _ patterns, _, _, _, isFirst, isSecond => by
      cases isFirst with
      | named _ _ _ built parts =>
          cases isSecond with
          | named _ _ _ builtOther partsOther =>
              obtain rfl := built.args_unique builtOther
              exact areInstances_unique (fun pattern _ => isInstance_unique pattern) parts
                partsOther
  | .tuple _ patterns, _, _, _, isFirst, isSecond => by
      cases isFirst with
      | tuple parts =>
          cases isSecond with
          | tuple partsOther =>
              exact areInstances_unique (fun pattern _ => isInstance_unique pattern) parts
                partsOther
  | .list _ patterns, _, _, _, isFirst, isSecond => by
      cases isFirst with
      | list parts =>
          cases isSecond with
          | list partsOther =>
              exact areInstances_unique (fun pattern _ => isInstance_unique pattern) parts
                partsOther
  | .cons _ head tail, _, _, _, isFirst, isSecond => by
      cases isFirst with
      | cons isHead isTail =>
          cases isSecond with
          | cons isHeadOther isTailOther =>
              rw [isInstance_unique head _ _ _ isHead isHeadOther,
                isInstance_unique tail _ _ _ isTail isTailOther]
  | .dict _ fields, _, _, _, isFirst, isSecond => by
      cases isFirst with
      | dict present parts =>
          cases isSecond with
          | dict presentOther partsOther =>
              rw [present] at presentOther
              obtain rfl := List.map_injective_iff.mpr (Option.some_injective _) presentOther
              exact areInstances_unique (fun pattern _ => isInstance_unique pattern) parts
                partsOther
termination_by pattern => sizeOf pattern
decreasing_by
  all_goals simp only [Pattern.named.sizeOf_spec, Pattern.tuple.sizeOf_spec,
    Pattern.list.sizeOf_spec, Pattern.cons.sizeOf_spec, Pattern.dict.sizeOf_spec]
  · have smaller := List.sizeOf_lt_of_mem ‹pattern ∈ patterns›
    omega
  · have smaller := List.sizeOf_lt_of_mem ‹pattern ∈ patterns›
    omega
  · have smaller := List.sizeOf_lt_of_mem ‹pattern ∈ patterns›
    omega
  · omega
  · omega
  · obtain ⟨field, member, rfl⟩ := List.mem_map.mp ‹pattern ∈ fields.map Prod.snd›
    have smaller := List.sizeOf_lt_of_mem member
    have part := sizeOf_snd_lt field
    omega

end Unique

/-! ## Types of data types -/

/-- The constructor at the head of an application. -/
def Typ.headConst : Typ → Option TypeConst
  | .con const => some const
  | .app head _ => headConst head
  | _ => none

section Declarations

variable {decl other : AdtDecl} {params others : Subst}

theorem exists_headConst_named (name : Symbol) (arity : Nat) :
    ∃ const, Typ.named name arity = .con const ∧ const.nameStr = name := by
  rw [Typ.named]
  cases found : BuiltinTypeId.fromName name with
  | none => exact ⟨_, rfl, rfl⟩
  | some id =>
      have isName : id.asStr = name := by simpa using List.find?_some found
      dsimp only
      split
      · exact ⟨_, rfl, isName⟩
      · exact ⟨_, rfl, rfl⟩

theorem AdtDecl.apply_resultType (decl : AdtDecl) (params : Subst) :
    decl.resultType.apply params =
      decl.params.foldl (fun typ param => .app typ ((Typ.var param.var).apply params))
        (.named decl.name decl.params.length) := by
  obtain ⟨const, isConst, -⟩ := exists_headConst_named decl.name decl.params.length
  have folds (base : Typ) (vars : List AdtParam) :
      (vars.foldl (fun typ param => .app typ (.var param.var)) base).apply params =
        vars.foldl (fun typ param => .app typ ((Typ.var param.var).apply params))
          (base.apply params) := by
    induction vars generalizing base with
    | nil => rfl
    | cons param vars hypothesis => exact hypothesis _
  rw [AdtDecl.resultType, folds, isConst, Typ.apply]

/-- The result type of a declaration is headed by its name. -/
theorem AdtDecl.exists_headConst (decl : AdtDecl) (params : Subst) :
    ∃ const, (decl.resultType.apply params).headConst = some const ∧ const.nameStr = decl.name := by
  obtain ⟨const, isConst, isName⟩ := exists_headConst_named decl.name decl.params.length
  refine ⟨const, ?_, isName⟩
  have folds (base : Typ) (args : List Typ) :
      (args.foldl Typ.app base).headConst = base.headConst := by
    induction args generalizing base with
    | nil => rfl
    | cons arg args hypothesis => exact (hypothesis _).trans rfl
  have mapped : decl.resultType.apply params =
      (decl.params.map fun param => (Typ.var param.var).apply params).foldl Typ.app
        (.con const) := by
    rw [apply_resultType, isConst, List.foldl_map]
  rw [mapped, folds, Typ.headConst]

theorem AdtDecl.resultType_ne_func (decl : AdtDecl) (params : Subst) (arg ret : Typ) :
    decl.resultType.apply params ≠ .func arg ret := by
  obtain ⟨const, isHead, -⟩ := decl.exists_headConst params
  intro same
  rw [same] at isHead
  cases isHead

theorem AdtDecl.name_eq_of_resultType
    (same : decl.resultType.apply params = other.resultType.apply others) :
    decl.name = other.name := by
  obtain ⟨const, isHead, isName⟩ := decl.exists_headConst params
  obtain ⟨constOther, isHeadOther, isNameOther⟩ := other.exists_headConst others
  rw [← same, isHead] at isHeadOther
  cases isHeadOther
  rw [← isName, isNameOther]

/-- The types of the parameters are determined by the result type. -/
theorem AdtDecl.lookup_eq_of_resultType
    (same : decl.resultType.apply params = decl.resultType.apply others)
    (first : decl.Instantiates params) (second : decl.Instantiates others) (id : TypeVarId) :
    params.lookup id = others.lookup id := by
  have agree : ∀ vars : List AdtParam, ∀ base,
      vars.foldl (fun typ param => Typ.app typ ((Typ.var param.var).apply params)) base =
        vars.foldl (fun typ param => Typ.app typ ((Typ.var param.var).apply others)) base →
      ∀ param ∈ vars, (Typ.var param.var).apply params = (Typ.var param.var).apply others := by
    intro vars base
    induction vars using List.reverseRecOn with
    | nil => simp
    | append_singleton vars last hypothesis =>
        intro same
        rw [List.foldl_append, List.foldl_append] at same
        obtain ⟨before, isLast⟩ := Typ.app.inj same
        intro param member
        rcases List.mem_append.mp member with earlier | isParam
        · exact hypothesis before param earlier
        · rw [List.mem_singleton.mp isParam]
          exact isLast
  rw [apply_resultType, apply_resultType] at same
  by_cases isParam : id ∈ decl.params.map (·.var.id)
  · obtain ⟨typ, found⟩ := Option.isSome_iff_exists.mp ((first id).mpr isParam)
    obtain ⟨typOther, foundOther⟩ := Option.isSome_iff_exists.mp ((second id).mpr isParam)
    obtain ⟨param, member, rfl⟩ := List.mem_map.mp isParam
    have isSame := agree _ _ same param member
    rw [Typ.apply, Typ.apply, found, foundOther] at isSame
    rw [found, foundOther]
    exact congrArg some isSame
  · have missing := mt (first id).mp isParam
    have missingOther := mt (second id).mp isParam
    rw [Bool.not_eq_true, Option.isSome_eq_false_iff, Option.isNone_iff_eq_none]
      at missing missingOther
    rw [missing, missingOther]

theorem apply_congr_lookup (same : ∀ id, params.lookup id = others.lookup id) (typ : Typ) :
    typ.apply params = typ.apply others := by
  rw [Typ.apply_eq_bindVars, Typ.apply_eq_bindVars]
  simp only [same]

/-- Two ways to take the same type apart, up to a type that is no function. -/
theorem foldr_func_inj {types args : List Typ} {typ result : Typ}
    (result_ne : ∀ arg ret, result ≠ .func arg ret) (typ_ne : ∀ arg ret, typ ≠ .func arg ret)
    (same : types.foldr .func typ = args.foldr .func result) : types = args ∧ typ = result := by
  induction types generalizing args with
  | nil =>
      cases args with
      | nil => exact ⟨rfl, same⟩
      | cons arg args => exact absurd same (typ_ne _ _)
  | cons first types hypothesis =>
      cases args with
      | nil => exact absurd same.symm (result_ne _ _)
      | cons arg args =>
          obtain ⟨rfl, rest⟩ := Typ.func.inj same
          obtain ⟨rfl, rfl⟩ := hypothesis rest
          exact ⟨rfl, rfl⟩

theorem apply_foldr_func (args : List Typ) (result : Typ) :
    (args.foldr .func result).apply params =
      (args.map (Typ.apply params)).foldr .func (result.apply params) := by
  induction args with
  | nil => rfl
  | cons arg args hypothesis =>
      rw [List.foldr_cons, Typ.apply, hypothesis]
      rfl

end Declarations

/-! ## Patterns and values of one type -/

/-- The pattern and the value have a common type. -/
def Suits (adts : SymbolMap AdtDecl) (pattern : Pattern) (value : HeapValue) : Prop :=
  ∃ typ, PatternHasType adts pattern typ ∧ value.HasType adts typ

section Suits

variable {adts : SymbolMap AdtDecl} {span : Span}

theorem forall₂_suits {patterns : List Pattern} {values : List HeapValue} {types : List Typ}
    (patternsTyped : List.Forall₂ (PatternHasType adts) patterns types)
    (valuesTyped : List.Forall₂ (HeapValue.HasType adts) values types) :
    List.Forall₂ (Suits adts) patterns values := by
  induction patternsTyped generalizing values with
  | nil =>
      cases valuesTyped
      exact .nil
  | cons typed _ hypothesis =>
      cases valuesTyped with
      | cons isTyped rest => exact .cons ⟨_, typed, isTyped⟩ (hypothesis rest)

theorem Suits.tuple {patterns : List Pattern} {values : List HeapValue}
    (suits : Suits adts (.tuple span patterns) (.tuple values)) :
    List.Forall₂ (Suits adts) patterns values := by
  obtain ⟨typ, patternTyped, typed⟩ := suits
  cases patternTyped with
  | tuple patternsTyped =>
      cases typed with
      | tuple valuesTyped => exact forall₂_suits patternsTyped valuesTyped

/-- Only lists have the type of a list. -/
theorem HeapValue.HasType.exists_list {value : HeapValue} {typ : Typ}
    (typed : value.HasType adts (.list typ)) :
    ∃ elems, value = .list elems ∧ ∀ elem ∈ elems, elem.HasType adts typ := by
  generalize isList : Typ.list typ = listTyp at typed
  cases typed with
  | list children =>
      cases isList
      exact ⟨_, rfl, children⟩
  | @adt decl _ _ _ params _ notList =>
      obtain ⟨const, isHead, isName⟩ := decl.exists_headConst params
      rw [← isList] at isHead
      cases isHead
      exact absurd isName.symm notList
  | _ => cases isList

theorem Suits.list {patterns : List Pattern} {value : HeapValue}
    (suits : Suits adts (.list span patterns) value) :
    ∃ elems, value = .list elems ∧
      ∀ pattern ∈ patterns, ∀ elem ∈ elems, Suits adts pattern elem := by
  obtain ⟨typ, patternTyped, typed⟩ := suits
  cases patternTyped with
  | list patternsTyped =>
      obtain ⟨elems, rfl, elemsTyped⟩ := typed.exists_list
      exact ⟨elems, rfl, fun pattern isPattern elem isElem =>
        ⟨_, patternsTyped pattern isPattern, elemsTyped elem isElem⟩⟩

theorem Suits.cons {head tail : Pattern} {value : HeapValue}
    (suits : Suits adts (.cons span head tail) value) :
    ∃ elems, value = .list elems ∧ ∀ elem rest, elems = elem :: rest →
      Suits adts head elem ∧ Suits adts tail (.list rest) := by
  obtain ⟨typ, patternTyped, typed⟩ := suits
  cases patternTyped with
  | cons headTyped tailTyped =>
      obtain ⟨elems, rfl, elemsTyped⟩ := typed.exists_list
      refine ⟨elems, rfl, ?_⟩
      rintro elem rest rfl
      rw [List.forall_mem_cons] at elemsTyped
      exact ⟨⟨_, headTyped, elemsTyped.1⟩, _, tailTyped, .list elemsTyped.2⟩

theorem hasType_of_lookup {values : List HeapValue} {fields : List (Symbol × Typ)}
    (typed : List.Forall₂ (HeapValue.HasType adts) values (fields.map Prod.snd)) {name : Symbol}
    {value : HeapValue} {typ : Typ}
    (found : ((fields.map Prod.fst).zip values).lookup name = some value)
    (known : fields.lookup name = some typ) : value.HasType adts typ := by
  induction fields generalizing values with
  | nil => cases known
  | cons field fields hypothesis =>
      obtain ⟨other, otherTyp⟩ := field
      cases typed with
      | cons isTyped rest =>
          rw [List.map_cons, List.zip_cons_cons, lookup_cons_eq_ite] at found
          rw [lookup_cons_eq_ite] at known
          by_cases same : name = other
          · rw [if_pos same] at found known
            cases found
            cases known
            exact isTyped
          · rw [if_neg same] at found known
            exact hypothesis rest found known

/-- What is found for each field, if a property holds of the fields one by one. -/
theorem forall₂_of_present {Found : Type} {related : Pattern → Found → Prop}
    (lookup : Symbol → Option Found) {fields : List (Symbol × Pattern)} {found : List Found}
    (present : fields.map (fun field => lookup field.1) = found.map some)
    (each : ∀ field ∈ fields, ∀ value, lookup field.1 = some value → related field.2 value) :
    List.Forall₂ related (fields.map Prod.snd) found := by
  induction fields generalizing found with
  | nil =>
      obtain rfl := List.map_eq_nil_iff.mp present.symm
      exact .nil
  | cons field fields hypothesis =>
      cases found with
      | nil => cases present
      | cons value found =>
          obtain ⟨isFound, rest⟩ := List.cons.inj present
          rw [List.forall_mem_cons] at each
          exact .cons (each.1 value isFound) (hypothesis rest each.2)

theorem exists_of_known {Found : Type} {related : Pattern → Found → Prop}
    (lookup : Symbol → Option Found) {fields : List (Symbol × Pattern)} {types : List Found}
    (known : fields.map (fun field => lookup field.1) = types.map some)
    (all : List.Forall₂ related (fields.map Prod.snd) types) :
    ∀ field ∈ fields, ∃ typ, lookup field.1 = some typ ∧ related field.2 typ := by
  induction fields generalizing types with
  | nil => simp
  | cons field fields hypothesis =>
      cases all with
      | @cons _ typ _ types isRelated rest =>
          obtain ⟨isKnown, others⟩ := List.cons.inj known
          intro other member
          rcases List.mem_cons.mp member with rfl | later
          · exact ⟨typ, isKnown, isRelated⟩
          · exact hypothesis others rest other later

theorem Suits.dict {fields : List (Symbol × Pattern)} {keys : List Symbol}
    {values found : List HeapValue} (suits : Suits adts (.dict span fields) (.dict keys values))
    (present : fields.map (fun field => (keys.zip values).lookup field.1) = found.map some) :
    List.Forall₂ (Suits adts) (fields.map Prod.snd) found := by
  obtain ⟨typ, patternTyped, typed⟩ := suits
  refine forall₂_of_present (fun name => List.lookup name _) present
    fun field member value isFound => ?_
  cases patternTyped with
  | @dict _ elem _ patternsTyped =>
      generalize isDict : Typ.dict elem = dictTyp at typed
      cases typed with
      | dict children =>
          cases isDict
          have inside := (List.of_mem_zip (mem_of_lookup isFound)).2
          exact ⟨_, patternsTyped _ (List.mem_map_of_mem member), children value inside⟩
      | record => cases isDict
  | record known patternsTyped =>
      cases typed with
      | record valuesTyped =>
          obtain ⟨fieldTyp, isKnown, fieldTyped⟩ :=
            exists_of_known (fun name => List.lookup name _) known patternsTyped field member
          exact ⟨fieldTyp, fieldTyped, hasType_of_lookup valuesTyped isFound isKnown⟩

/-! ### Constructors -/

/-- A constructor pattern meets functions or the values of its data type. -/
theorem PatternHasType.exists_decl {name : NameRef} {patterns : List Pattern} {typ : Typ}
    (typed : PatternHasType adts (.named span name patterns) typ)
    (noFunc : ∀ arg ret, typ ≠ .func arg ret) :
    ∃ decl variant params, adts.lookup decl.name = some decl ∧
      decl.variantNamed (lastSegment variant.name) = some variant ∧ decl.Names variant name ∧
      decl.Instantiates params ∧ typ = decl.resultType.apply params ∧
      List.Forall₂ (PatternHasType adts) patterns
        (variant.args.map fun arg => arg.typ.apply params) := by
  cases typed with
  | @named _ _ _ decl variant params types _ declared named names instantiates constructed
      children =>
      rw [AdtDecl.constructorType, apply_foldr_func] at constructed
      obtain ⟨rfl, isResult⟩ :=
        foldr_func_inj (decl.resultType_ne_func params) noFunc constructed
      rw [List.map_map] at children
      exact ⟨decl, variant, params, declared, named, names, instantiates, isResult, children⟩

theorem AdtDecl.variantNamed_eq_some {decl : AdtDecl} {tag : Symbol} {variant : AdtVariant}
    (named : decl.variantNamed tag = some variant) :
    variant ∈ decl.variants ∧ lastSegment variant.name = tag :=
  ⟨List.mem_of_find?_eq_some named, by simpa using List.find?_some named⟩

section LastSegment

theorem lastSegment_append_dot (before : Symbol) {name : Symbol} (plain : '.' ∉ name.toList) :
    lastSegment (before ++ "." ++ name) = name := by
  have noDot : ∀ char ∈ name.toList.reverse, decide (char ≠ '.') = true := by
    intro char member
    rw [decide_eq_true_eq]
    rintro rfl
    exact plain (List.mem_reverse.mp member)
  rw [lastSegment, String.toList_append, String.toList_append, List.reverse_append,
    List.takeWhile_append_of_pos noDot]
  simp

theorem dot_notMem_lastSegment (name : Symbol) : '.' ∉ (lastSegment name).toList := by
  rw [lastSegment, String.toList_ofList, List.mem_reverse]
  intro member
  simpa using List.mem_takeWhile_imp member

theorem lastSegment_of_plain {name : Symbol} (plain : '.' ∉ name.toList) :
    lastSegment name = name := by
  have noDot : ∀ char ∈ name.toList.reverse, decide (char ≠ '.') = true := by
    intro char member
    rw [decide_eq_true_eq]
    rintro rfl
    exact plain (List.mem_reverse.mp member)
  rw [lastSegment, List.takeWhile_eq_self_iff.mpr noDot, List.reverse_reverse, String.ofList_toList]

end LastSegment

/-- Both names of a constructor end in its own. -/
theorem AdtDecl.Names.lastSegment_eq {decl : AdtDecl} {variant : AdtVariant} {name : NameRef}
    (names : decl.Names variant name) :
    lastSegment name.toDottedSymbol = lastSegment variant.name := by
  have plain := dot_notMem_lastSegment variant.name
  rcases names with qualified | compatible
  · rw [qualified, qualifiedConstructorName, lastSegment_append_dot _ plain]
  · rw [compatible, compatibilityConstructorName]
    split
    · exact lastSegment_append_dot _ plain
    · exact lastSegment_of_plain plain

theorem Suits.adt {name : NameRef} {patterns : List Pattern} {tag : Symbol} {args : List HeapValue}
    (suits : Suits adts (.named span name patterns) (.adt tag args)) :
    ∃ decl variant, adts.lookup decl.name = some decl ∧ decl.name ≠ "List" ∧
      variant ∈ decl.variants ∧ decl.Names variant name ∧
      (tag = lastSegment name.toDottedSymbol → List.Forall₂ (Suits adts) patterns args) ∧
      lastSegment tag = tag := by
  obtain ⟨typ, patternTyped, typed⟩ := suits
  cases typed with
  | @adt decl variant _ _ params declared notList named instantiates children =>
      obtain ⟨other, otherVariant, others, declaredOther, namedOther, names, instantiatesOther,
        same, patternsTyped⟩ := patternTyped.exists_decl (decl.resultType_ne_func params)
      have sameName := AdtDecl.name_eq_of_resultType same
      rw [← sameName, declared, Option.some.injEq] at declaredOther
      subst declaredOther
      obtain ⟨-, isTag⟩ := AdtDecl.variantNamed_eq_some named
      obtain ⟨member, -⟩ := AdtDecl.variantNamed_eq_some namedOther
      have agree := AdtDecl.lookup_eq_of_resultType same instantiates instantiatesOther
      refine ⟨decl, otherVariant, declared, notList, member, names, fun isName => ?_, ?_⟩
      · rw [isName, names.lastSegment_eq, namedOther, Option.some.injEq] at named
        subst named
        simp only [apply_congr_lookup agree] at children
        exact forall₂_suits patternsTyped children
      · rw [← isTag]
        exact lastSegment_of_plain (dot_notMem_lastSegment variant.name)

/-- The list declaration is that of the prelude. -/
def PreludeList (adts : SymbolMap AdtDecl) : Prop :=
  ∀ decl, adts.lookup "List" = some decl → ∃ a, decl = listAdt a

theorem Suits.listConstructor (prelude : PreludeList adts) {name : NameRef}
    {patterns : List Pattern} {elems : List HeapValue}
    (suits : Suits adts (.named span name patterns) (.list elems)) :
    ∃ decl variant, adts.lookup decl.name = some decl ∧ decl.name = "List" ∧
      variant ∈ decl.variants ∧ decl.Names variant name ∧
      (lastSegment variant.name = "Empty" ∧ patterns = [] ∨
        lastSegment variant.name = "Cons" ∧ ∃ head tail, patterns = [head, tail] ∧
          ∀ elem rest, elems = elem :: rest →
            Suits adts head elem ∧ Suits adts tail (.list rest)) := by
  obtain ⟨typ, patternTyped, typed⟩ := suits
  cases typed with
  | @list _ elem elemsTyped =>
      obtain ⟨decl, variant, params, declared, named, names, -, same, patternsTyped⟩ :=
        patternTyped.exists_decl nofun
      obtain ⟨const, isHead, isName⟩ := decl.exists_headConst params
      rw [← same] at isHead
      cases isHead
      have isList : decl.name = "List" := isName.symm
      obtain ⟨member, -⟩ := AdtDecl.variantNamed_eq_some named
      refine ⟨decl, variant, declared, isList, member, names, ?_⟩
      rw [isList] at declared
      obtain ⟨a, rfl⟩ := prelude decl declared
      have isElem : elem = (Typ.var a).apply params := by
        rw [AdtDecl.apply_resultType] at same
        exact (Typ.app.inj same).2
      rcases List.mem_cons.mp member with rfl | member
      · cases patternsTyped
        exact .inl ⟨lastSegment_of_plain (by simp), rfl⟩
      · obtain rfl := List.mem_singleton.mp member
        cases patternsTyped with
        | cons headTyped rest =>
            cases rest with
            | cons tailTyped rest =>
                cases rest
                refine .inr ⟨lastSegment_of_plain (by simp), _, _, rfl, ?_⟩
                rintro first rest rfl
                rw [List.forall_mem_cons] at elemsTyped
                subst isElem
                exact ⟨⟨_, headTyped, elemsTyped.1⟩, _, tailTyped, .list elemsTyped.2⟩

end Suits

end RexLang
