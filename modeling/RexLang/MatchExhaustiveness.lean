import RexLang.PatternMatching

/-!
# The exhaustiveness check

`check_match_exhaustive` asks whether every constructor of the scrutinee's type
stands at the head of some arm.  It does not look at the patterns below the
heads.  This file characterizes the accepted matches that match every value.
-/

namespace RexLang

/-! ## Values of a type -/

section Typing

variable (adts : SymbolMap AdtDecl)

/-- The types of the children below a head of a type. -/
inductive ValueFields : Typ → ValueHead → List Typ → Prop
  | scalar (value : Scalar) : ValueFields (.builtin value.typeId) (.scalar value) []
  | callable (arg ret : Typ) (kind : String) (id : Nat) :
      ValueFields (.func arg ret) (.callable kind id) []
  | tuple (elems : List Typ) : ValueFields (.tuple elems) (.tuple elems.length) elems
  | empty (elem : Typ) : ValueFields (.list elem) .empty []
  | cons (elem : Typ) : ValueFields (.list elem) .cons [elem, .list elem]
  | dict (elem : Typ) (keys : List Symbol) (distinct : keys.Nodup) :
      ValueFields (.dict elem) (.dict keys) (List.replicate keys.length elem)
  | record (fields : List (Symbol × Typ)) (distinct : (fields.map (·.1)).Nodup) :
      ValueFields (.record fields) (.dict (fields.map (·.1))) (fields.map (·.2))
  /-- Lists have cells of their own, all other constructors are tagged. -/
  | adt (decl : AdtDecl) (declared : adts.lookup decl.name = some decl)
      (notList : decl.name ≠ "List") (variant : AdtVariant) (member : variant ∈ decl.variants)
      (params : Subst) :
      ValueFields (decl.resultType.apply params)
        (.adt (lastSegment variant.name) variant.args.length)
        (variant.args.map fun arg => arg.typ.apply params)

/-- A value has a type when its head is one of the type's, and its children have
the types of their columns. -/
inductive HasType : Value → Typ → Prop
  | ofFields (value : Value) (typ : Typ) (types : List Typ)
      (fields : ValueFields adts typ value.head types)
      (children : List.Forall₂ HasType value.children types) : HasType value typ

theorem length_valueFields {typ : Typ} {atHead : ValueHead} {types : List Typ}
    (fields : ValueFields adts typ atHead types) : types.length = atHead.arity := by
  cases fields <;> simp [ValueHead.arity]

theorem exists_value_of_fields {typ : Typ} {atHead : ValueHead} {types : List Typ}
    {values : List Value} (fields : ValueFields adts typ atHead types)
    (typed : List.Forall₂ (HasType adts) values types) :
    ∃ value : Value, value.head = atHead ∧ value.children = values := by
  have sameLength := typed.length_eq.trans (length_valueFields adts fields)
  cases atHead with
  | scalar value =>
      obtain rfl := List.length_eq_zero_iff.mp sameLength
      exact ⟨.scalar value, rfl, rfl⟩
  | callable kind id =>
      obtain rfl := List.length_eq_zero_iff.mp sameLength
      exact ⟨.callable kind id, rfl, rfl⟩
  | empty =>
      obtain rfl := List.length_eq_zero_iff.mp sameLength
      exact ⟨.empty, rfl, rfl⟩
  | tuple size => exact ⟨.tuple values, congrArg _ sameLength, rfl⟩
  | cons =>
      obtain ⟨head, tail, rfl⟩ := List.length_eq_two.mp sameLength
      exact ⟨.cons head tail, rfl, rfl⟩
  | dict keys =>
      refine ⟨.dict (keys.zip values), ?_, ?_⟩
      · simp only [Value.head, List.map_fst_zip (Nat.le_of_eq sameLength.symm)]
      · simp only [Value.children, List.map_snd_zip (Nat.le_of_eq sameLength)]
  | adt tag size => exact ⟨.adt tag values, congrArg _ sameLength, rfl⟩

/-- Values of the types of a program, and the patterns of its matches. -/
def patternLanguage : PatternMatrix.Language Value Typ ValueHead Pattern where
  head := Value.head
  children := Value.children
  arity := ValueHead.arity
  Fields := ValueFields adts
  HasType := HasType adts
  Matches := Pattern.Matches
  expand := Pattern.expand
  size := Pattern.size
  length_fields _ _ _ := length_valueFields adts
  length_expand := Pattern.length_expand
  hasType_iff value typ := by
    constructor
    · rintro ⟨_, _, types, fields, children⟩
      exact ⟨types, fields, children⟩
    · rintro ⟨types, fields, children⟩
      exact .ofFields value typ types fields children
  exists_value _ _ _ _ := exists_value_of_fields adts
  matches_iff := Pattern.matches_iff
  expand_of_size_eq_zero := Pattern.expand_of_size_eq_zero
  size_expand_lt := Pattern.size_expand_lt

end Typing

/-! ## The check -/

/-- `ctor_lookup`: a variant with this qualified name, or else the only one with
this unqualified name. -/
def ctorLookup (adts : SymbolMap AdtDecl) (name : Symbol) : Option (AdtDecl × AdtVariant) :=
  loop (adts.map (·.2)) none
where
  loop : List AdtDecl → Option (AdtDecl × AdtVariant) → Option (AdtDecl × AdtVariant)
    | [], found => found
    | adt :: adts, found =>
        match adt.variants.find? fun variant =>
            qualifiedConstructorName adt.name variant.name = name ∨
              compatibilityConstructorName adt.name variant.name = name with
        | none => loop adts found
        | some variant =>
            if qualifiedConstructorName adt.name variant.name = name then some (adt, variant)
            else if found.isSome then none
            else loop adts (some (adt, variant))

/-- `type_head_name`. -/
def typeHeadName : Typ → Option Symbol
  | .app head _ => typeHeadName head
  | .con const => const.userName
  | _ => none

section Check

variable (adts : SymbolMap AdtDecl)

/-- The data type that a pattern belongs to. -/
def patternAdtName : Pattern → Option Symbol
  | .named _ name _ => (ctorLookup adts name.toDottedSymbol).map (·.1.name)
  | .list _ _ | .cons _ _ _ => some "List"
  | _ => none

/-- `adt_name_from_patterns`: the one data type that patterns belong to. -/
def adtNameFromPatterns (patterns : List Pattern) : Option Symbol :=
  loop patterns none
where
  loop : List Pattern → Option Symbol → Option Symbol
    | [], candidate => candidate
    | pattern :: patterns, candidate =>
        match patternAdtName adts pattern with
        | none => loop patterns candidate
        | some next =>
            match candidate with
            | none => loop patterns (some next)
            | some previous => if previous = next then loop patterns candidate else none

/-- The name of the data type whose constructors have to be covered. -/
def scrutineeAdtName (scrutineeTy : Typ) (patterns : List Pattern) : Option Symbol :=
  (typeHeadName scrutineeTy).or (adtNameFromPatterns adts patterns)

/-- The constructor that a pattern covers. -/
def coveredName (adtName : Symbol) (adt : AdtDecl) : Pattern → Option Symbol
  | .named _ name _ =>
      (ctorLookup adts name.toDottedSymbol).bind fun (matched, variant) =>
        if matched.name = adt.name then some (qualifiedConstructorName adt.name variant.name)
        else none
  | .list _ elems => if adtName = "List" ∧ elems.isEmpty then some "List.Empty" else none
  | .cons _ _ _ => if adtName = "List" then some "List.Cons" else none
  | _ => none

/-- The constructors of a data type that head no arm. -/
def missingNames (adtName : Symbol) (adt : AdtDecl) (patterns : List Pattern) : List Symbol :=
  (adt.variants.map fun variant => qualifiedConstructorName adt.name variant.name).dedup.filter
    (· ∉ patterns.filterMap (coveredName adts adtName adt))

def Pattern.isIrrefutable : Pattern → Bool
  | .wildcard _ | .var _ => true
  | _ => false

/-- `TypeError::NonExhaustiveMatch`. -/
structure NonExhaustiveMatch where
  typ : String
  missing : List Symbol
deriving DecidableEq

/-- `check_match_exhaustive`. -/
def checkMatchExhaustive (scrutineeTy : Typ) (patterns : List Pattern) :
    Except NonExhaustiveMatch Unit :=
  if patterns.any Pattern.isIrrefutable then .ok ()
  else
    match scrutineeAdtName adts scrutineeTy patterns with
    | none => .ok ()
    | some adtName =>
        match adts.lookup adtName with
        | none => .ok ()
        | some adt =>
            let missing := missingNames adts adtName adt patterns
            if missing.isEmpty then .ok ()
            else .error ⟨scrutineeTy.display, (missing.map lastSegment).mergeSort⟩

/-- No arm is irrefutable, and a constructor of the scrutinee's data type heads
no arm. -/
def MissingHead (scrutineeTy : Typ) (patterns : List Pattern) : Prop :=
  (∀ pattern ∈ patterns, ¬ pattern.isIrrefutable) ∧
    ∃ adtName adt, scrutineeAdtName adts scrutineeTy patterns = some adtName ∧
      adts.lookup adtName = some adt ∧
      ∃ variant ∈ adt.variants, qualifiedConstructorName adt.name variant.name ∉
        patterns.filterMap (coveredName adts adtName adt)

theorem missingNames_eq_nil_iff (adtName : Symbol) (adt : AdtDecl) (patterns : List Pattern) :
    missingNames adts adtName adt patterns = [] ↔
      ∀ variant ∈ adt.variants, qualifiedConstructorName adt.name variant.name ∈
        patterns.filterMap (coveredName adts adtName adt) := by
  rw [missingNames, List.filter_eq_nil_iff]
  simp only [List.mem_dedup, List.forall_mem_map, decide_eq_true_eq, not_not]

/-- The check rejects exactly the matches where a constructor heads no arm. -/
theorem checkMatchExhaustive_eq_ok_iff (scrutineeTy : Typ) (patterns : List Pattern) :
    checkMatchExhaustive adts scrutineeTy patterns = .ok () ↔
      ¬ MissingHead adts scrutineeTy patterns := by
  unfold checkMatchExhaustive MissingHead
  by_cases irrefutable : patterns.any Pattern.isIrrefutable
  · obtain ⟨pattern, member, isIrrefutable⟩ := List.any_eq_true.mp irrefutable
    rw [if_pos irrefutable]
    refine iff_of_true rfl ?_
    rintro ⟨refutable, -⟩
    exact refutable pattern member isIrrefutable
  · have refutable : ∀ pattern ∈ patterns, ¬ pattern.isIrrefutable := by
      intro pattern member isIrrefutable
      exact irrefutable (List.any_eq_true.mpr ⟨pattern, member, isIrrefutable⟩)
    rw [if_neg irrefutable]
    cases hName : scrutineeAdtName adts scrutineeTy patterns with
    | none => simp
    | some adtName =>
        cases hAdt : adts.lookup adtName with
        | none => simp [hAdt]
        | some adt =>
            have missing := missingNames_eq_nil_iff adts adtName adt patterns
            simp only [hAdt]
            by_cases covered : missingNames adts adtName adt patterns = []
            · rw [covered]
              refine iff_of_true rfl ?_
              rintro ⟨-, _, _, same, found, variant, member, uncovered⟩
              cases same
              rw [hAdt] at found
              cases found
              exact uncovered (missing.mp covered variant member)
            · rw [if_neg (by simpa using covered)]
              rw [missing] at covered
              push Not at covered
              refine iff_of_false (by simp) (not_not.mpr ?_)
              exact ⟨refutable, adtName, adt, rfl, hAdt, covered⟩

/-! ## Soundness of the check -/

/-- Every value of every ground instance of the type is matched by some arm, so
the match never fails. -/
def AllMatched (scrutineeTy : Typ) (patterns : List Pattern) : Prop :=
  ∀ params : Subst, (scrutineeTy.apply params).Ground →
    ∀ value, HasType adts value (scrutineeTy.apply params) →
      (∃ pattern ∈ patterns, pattern.Matches value) ∧
        selectArm patterns value ≠ .error .matchFailure

/-- The arms cover every ground instance of the type also below their heads. -/
def ArmsCover (scrutineeTy : Typ) (patterns : List Pattern) : Prop :=
  ∀ params : Subst, (scrutineeTy.apply params).Ground →
    (patternLanguage adts).Covers [scrutineeTy.apply params]
      (patterns.map fun pattern => [[pattern]])

theorem exhaustive_arms_iff (typ : Typ) (patterns : List Pattern) :
    (patternLanguage adts).Exhaustive [typ] (patterns.map fun pattern => [[pattern]]) ↔
      ∀ value, HasType adts value typ → ∃ pattern ∈ patterns, pattern.Matches value := by
  constructor
  · intro exhaustive value typed
    obtain ⟨row, member, rowMatch⟩ := exhaustive [value] (.cons typed .nil)
    obtain ⟨pattern, patternMember, rfl⟩ := List.mem_map.mp member
    cases rowMatch with
    | cons cellMatch _ => exact ⟨pattern, patternMember, cellMatch pattern (by simp)⟩
  · intro allMatched values typed
    cases typed with
    | cons valueTyped noValues =>
        cases noValues
        obtain ⟨pattern, member, isMatch⟩ := allMatched _ valueTyped
        refine ⟨[[pattern]], List.mem_map.mpr ⟨pattern, member, rfl⟩, .cons ?_ .nil⟩
        intro other otherMember
        rw [List.mem_singleton.mp otherMember]
        exact isMatch

theorem allMatched_iff_armsCover (scrutineeTy : Typ) (patterns : List Pattern) :
    AllMatched adts scrutineeTy patterns ↔ ArmsCover adts scrutineeTy patterns := by
  unfold AllMatched ArmsCover
  refine forall₂_congr fun params _ => ?_
  rw [PatternMatrix.Language.covers_iff_exhaustive, exhaustive_arms_iff]
  refine forall₂_congr fun value _ => ?_
  exact and_iff_left_of_imp selectArm_ne_matchFailure

/-- An accepted match is exhaustive, unless its arms leave values out below
their heads. -/
theorem checkMatchExhaustive_sound_iff (scrutineeTy : Typ) (patterns : List Pattern) :
    (checkMatchExhaustive adts scrutineeTy patterns = .ok () →
        AllMatched adts scrutineeTy patterns) ↔
      MissingHead adts scrutineeTy patterns ∨ ArmsCover adts scrutineeTy patterns := by
  rw [checkMatchExhaustive_eq_ok_iff, allMatched_iff_armsCover]
  tauto

end Check

/-! ## A nested option -/

/-- `Option` of the prelude. -/
def optionAdt : AdtDecl :=
  let t : TypeVar := ⟨0, some "t"⟩
  ⟨"Option", [⟨"t", t, none⟩],
    [⟨"Some", [.positional (.var t)], none⟩, ⟨"None", [], none⟩], none⟩

/-- `case Some (Some y)` and `case None` are accepted for `Option (Option i32)`,
and do not match `Some None`. -/
theorem checkMatchExhaustive_nested_option :
    let adts : SymbolMap AdtDecl := [("Option", optionAdt)]
    let typ : Typ := .option (.option (.builtin .i32))
    let named (name : Symbol) (args : List Pattern) : Pattern :=
      .named .default (.unqualified name) args
    let patterns : List Pattern :=
      [named "Some" [named "Some" [.var ⟨.default, "y"⟩]], named "None" []]
    ¬ (checkMatchExhaustive adts typ patterns = .ok () → AllMatched adts typ patterns) := by
  intro adts typ named patterns sound
  have isNone (params : Typ) : HasType adts (.adt "None" []) (.option params) :=
    .ofFields _ _ _ (.adt optionAdt rfl (by decide) ⟨"None", [], none⟩ (by simp [optionAdt])
      [(0, params)]) .nil
  have someNone : HasType adts (.adt "Some" [.adt "None" []]) typ :=
    .ofFields _ _ _ (.adt optionAdt rfl (by decide)
      ⟨"Some", [.positional (.var ⟨0, some "t"⟩)], none⟩ (by simp [optionAdt])
      [(0, .option (.builtin .i32))]) (.cons (isNone _) .nil)
  obtain ⟨⟨pattern, member, bindings, isMatch⟩, -⟩ :=
    sound rfl [] rfl (.adt "Some" [.adt "None" []]) someNone
  rcases List.mem_cons.mp member with rfl | member
  · cases isMatch
  · rcases List.mem_singleton.mp member with rfl
    cases isMatch

end RexLang
