import RexLang.PatternMatrix
import RexLang.Types

/-!
# Matching values against patterns

The run-time matcher of the evaluator (`match_pattern_ptr`), on the values that
the heap cells stand for.  A list is a chain of cons cells, a record or
dictionary is a `dict` cell, and a constructor is an `adt` cell tagged with the
last segment of its name.
-/

namespace RexLang

/-! ## Values -/

inductive Scalar where
  | bool (value : Bool)
  | u8 (value : BitVec 8)
  | u16 (value : BitVec 16)
  | u32 (value : BitVec 32)
  | u64 (value : BitVec 64)
  | i8 (value : BitVec 8)
  | i16 (value : BitVec 16)
  | i32 (value : BitVec 32)
  | i64 (value : BitVec 64)
  | f32 (value : BitVec 32)
  | f64 (value : F64)
  | char (value : Char)
  | string (value : String)
  | uuid (value : BitVec 128)
  | hash (value : BitVec 256)
  | dateTime (nanos : Int)

def Scalar.typeId : Scalar → BuiltinTypeId
  | bool _ => .bool
  | u8 _ => .u8
  | u16 _ => .u16
  | u32 _ => .u32
  | u64 _ => .u64
  | i8 _ => .i8
  | i16 _ => .i16
  | i32 _ => .i32
  | i64 _ => .i64
  | f32 _ => .f32
  | f64 _ => .f64
  | char _ => .char
  | string _ => .string
  | uuid _ => .uuid
  | hash _ => .hash
  | dateTime _ => .dateTime

inductive Value where
  | scalar (value : Scalar)
  /-- A closure, a native function or an overloaded one. -/
  | callable (kind : String) (id : Nat)
  | tuple (elems : List Value)
  | empty
  | cons (head tail : Value)
  | dict (entries : List (Symbol × Value))
  | adt (tag : Symbol) (args : List Value)

/-- `cell_type_name`. -/
def Value.typeName : Value → String
  | .scalar value => value.typeId.asStr
  | .callable kind _ => kind
  | .tuple _ => "tuple"
  | .empty | .cons _ _ => "list"
  | .dict _ => "dict"
  | .adt _ _ => "adt"

/-- `EngineError::NativeType`. -/
structure NativeTypeError where
  expected : String
  got : String
deriving DecidableEq

/-- The errors of a match. -/
inductive MatchError where
  | nativeType (error : NativeTypeError)
  | matchFailure
deriving DecidableEq

/-- `list_items`; its length is `list_len`. -/
def Value.listItems : Value → Except NativeTypeError (List Value)
  | .empty => .ok []
  | .cons head tail => tail.listItems.map (head :: ·)
  | value => .error ⟨"list", value.typeName⟩

/-- `list_head_tail`. -/
def Value.listHeadTail : Value → Except NativeTypeError (Option (Value × Value))
  | .empty => .ok none
  | .cons head tail => .ok (some (head, tail))
  | value => .error ⟨"list", value.typeName⟩

/-! ## The matcher -/

/-- A binding that was added later comes first. -/
abbrev Bindings := List (Symbol × Value)

abbrev MatchResult := Except NativeTypeError (Option Bindings)

/-- Both parts have to match; the second adds its bindings after the first. -/
def MatchResult.both (first : MatchResult) (second : MatchResult) : MatchResult :=
  match first with
  | .error error => .error error
  | .ok none => .ok none
  | .ok (some bindings) =>
      match second with
      | .error error => .error error
      | .ok none => .ok none
      | .ok (some more) => .ok (some (more ++ bindings))

def Pattern.isWildcard : Pattern → Bool
  | .wildcard _ => true
  | _ => false

mutual

/-- `match_pattern_ptr`. -/
def matchPattern : Pattern → Value → MatchResult
  | .wildcard _, _ => .ok (some [])
  | .var binder, value => .ok (some [(binder.name, value)])
  | .named _ name args, value =>
      let expected := lastSegment name.toDottedSymbol
      match value with
      | .adt tag fields =>
          if lastSegment tag = expected ∧ fields.length = args.length then
            matchPatterns args fields
          else .ok none
      | .empty =>
          if expected = "Empty" ∧ args.length = 0 then .ok (some []) else .ok none
      | .cons head tail =>
          if expected = "Empty" ∧ args.length = 0 then
            tail.listItems.map fun _ => none
          else if expected = "Cons" ∧ args.length = 2 then matchPatterns args [head, tail]
          else .ok none
      | _ => .ok none
  | .tuple _ elems, value =>
      match value with
      | .tuple fields =>
          if fields.length = elems.length then matchPatterns elems fields else .ok none
      | _ => .ok none
  | .list _ elems, value =>
      match value.listItems with
      | .error error => .error error
      | .ok items =>
          if items.length ≠ elems.length then .ok none
          else if elems.all Pattern.isWildcard then .ok (some [])
          else matchListPatterns elems items
  | .cons _ head tail, value =>
      match value.listHeadTail with
      | .error error => .error error
      | .ok none => .ok none
      | .ok (some (headValue, tailValue)) =>
          .both (matchPattern head headValue) (.both (matchPattern tail tailValue) (.ok (some [])))
  | .dict _ fields, value =>
      match value with
      | .dict entries =>
          match fields.mapM fun field => entries.lookup field.1 with
          | none => .ok none
          | some values => matchFieldPatterns fields values
      | _ => .ok none

/-- `match_patterns`, for as many values as patterns. -/
def matchPatterns : List Pattern → List Value → MatchResult
  | pattern :: patterns, value :: values =>
      .both (matchPattern pattern value) (matchPatterns patterns values)
  | _, _ => .ok (some [])

/-- `match_list_patterns`: wildcards do not read the list. -/
def matchListPatterns : List Pattern → List Value → MatchResult
  | pattern :: patterns, value :: values =>
      if pattern.isWildcard then matchListPatterns patterns values
      else .both (matchPattern pattern value) (matchListPatterns patterns values)
  | _, _ => .ok (some [])

/-- `match_patterns` for the patterns of a record pattern. -/
def matchFieldPatterns : List (Symbol × Pattern) → List Value → MatchResult
  | (_, pattern) :: fields, value :: values =>
      .both (matchPattern pattern value) (matchFieldPatterns fields values)
  | _, _ => .ok (some [])

end

/-- The loop over the arms of a match: the index of the first arm that matches,
and its bindings. -/
def selectArm : List Pattern → Value → Except MatchError (Nat × Bindings)
  | [], _ => .error .matchFailure
  | pattern :: patterns, value =>
      match matchPattern pattern value with
      | .error error => .error (.nativeType error)
      | .ok (some bindings) => .ok (0, bindings)
      | .ok none => (selectArm patterns value).map fun (index, bindings) => (index + 1, bindings)

/-- The matcher accepts the value. -/
def Pattern.Matches (pattern : Pattern) (value : Value) : Prop :=
  ∃ bindings, matchPattern pattern value = .ok (some bindings)

/-- When some arm matches, evaluation does not end in a match failure. -/
theorem selectArm_ne_matchFailure {patterns : List Pattern} {value : Value}
    (matched : ∃ pattern ∈ patterns, pattern.Matches value) :
    selectArm patterns value ≠ .error .matchFailure := by
  induction patterns with
  | nil => simp at matched
  | cons pattern patterns patternsIH =>
      unfold selectArm
      cases result : matchPattern pattern value with
      | error error => simp
      | ok bindings =>
          cases bindings with
          | some bindings => simp
          | none =>
              have later : ∃ pattern ∈ patterns, pattern.Matches value := by
                obtain ⟨found, member, bindings, isMatch⟩ := matched
                rcases List.mem_cons.mp member with rfl | member
                · rw [result] at isMatch
                  cases isMatch
                · exact ⟨found, member, bindings, isMatch⟩
              have recursive := patternsIH later
              cases selected : selectArm patterns value with
              | ok arm => simp [Except.map]
              | error error =>
                  rw [selected] at recursive
                  simpa [Except.map] using recursive

/-! ## When patterns match -/

theorem MatchResult.both_eq_some_iff (first second : MatchResult) :
    (∃ bindings, first.both second = .ok (some bindings)) ↔
      (∃ bindings, first = .ok (some bindings)) ∧ ∃ bindings, second = .ok (some bindings) := by
  unfold both
  rcases first with error | _ | bindings
  · simp
  · simp
  · rcases second with error | _ | more <;> simp

attribute [local simp] matchPatterns matchListPatterns

theorem matchPatterns_eq_some_iff (patterns : List Pattern) (values : List Value)
    (sameLength : values.length = patterns.length) :
    (∃ bindings, matchPatterns patterns values = .ok (some bindings)) ↔
      List.Forall₂ Pattern.Matches patterns values := by
  induction patterns generalizing values with
  | nil =>
      obtain rfl := List.length_eq_zero_iff.mp sameLength
      simp
  | cons pattern patterns patternsIH =>
      cases values with
      | nil => simp at sameLength
      | cons value values =>
          rw [matchPatterns, MatchResult.both_eq_some_iff, List.forall₂_cons,
            patternsIH values (Nat.succ.inj sameLength)]
          rfl

theorem matches_of_isWildcard {pattern : Pattern} (wildcard : pattern.isWildcard) (value : Value) :
    pattern.Matches value := by
  cases pattern with
  | wildcard span => exact ⟨[], rfl⟩
  | _ => cases wildcard

theorem matchListPatterns_eq_some_iff (patterns : List Pattern) (values : List Value)
    (sameLength : values.length = patterns.length) :
    (∃ bindings, matchListPatterns patterns values = .ok (some bindings)) ↔
      List.Forall₂ Pattern.Matches patterns values := by
  induction patterns generalizing values with
  | nil =>
      obtain rfl := List.length_eq_zero_iff.mp sameLength
      simp
  | cons pattern patterns patternsIH =>
      cases values with
      | nil => simp at sameLength
      | cons value values =>
          have rest := patternsIH values (Nat.succ.inj sameLength)
          rw [matchListPatterns, List.forall₂_cons]
          by_cases wildcard : pattern.isWildcard
          · simp [wildcard, rest, matches_of_isWildcard wildcard value]
          · rw [if_neg wildcard, MatchResult.both_eq_some_iff, rest]
            rfl

theorem forall₂_matches_of_all_isWildcard {patterns : List Pattern}
    (wildcards : patterns.all Pattern.isWildcard) {values : List Value}
    (sameLength : values.length = patterns.length) :
    List.Forall₂ Pattern.Matches patterns values := by
  induction patterns generalizing values with
  | nil =>
      obtain rfl := List.length_eq_zero_iff.mp sameLength
      exact .nil
  | cons pattern patterns patternsIH =>
      cases values with
      | nil => simp at sameLength
      | cons value values =>
          rw [List.all_cons, Bool.and_eq_true] at wildcards
          exact .cons (matches_of_isWildcard wildcards.1 value)
            (patternsIH wildcards.2 (Nat.succ.inj sameLength))

theorem matches_list_iff (span : Span) (elems : List Pattern) (value : Value) :
    (Pattern.list span elems).Matches value ↔
      ∃ items, value.listItems = .ok items ∧ List.Forall₂ Pattern.Matches elems items := by
  rw [Pattern.Matches]
  unfold matchPattern
  cases value.listItems with
  | error error => simp
  | ok items =>
      simp only [Except.ok.injEq, exists_eq_left']
      by_cases sameLength : items.length = elems.length
      · rw [if_neg (not_not.mpr sameLength)]
        by_cases wildcards : elems.all Pattern.isWildcard
        · simp [wildcards, forall₂_matches_of_all_isWildcard wildcards sameLength]
        · rw [if_neg wildcards, matchListPatterns_eq_some_iff elems items sameLength]
      · rw [if_pos sameLength]
        simp only [Except.ok.injEq, reduceCtorEq, exists_false, false_iff]
        intro allMatch
        exact sameLength allMatch.length_eq.symm

theorem matches_list_cons_iff (span : Span) (elems : List Pattern) (head tail : Value) :
    (Pattern.list span elems).Matches (.cons head tail) ↔
      ∃ pattern patterns, elems = pattern :: patterns ∧ pattern.Matches head ∧
        (Pattern.list span patterns).Matches tail := by
  simp only [matches_list_iff, Value.listItems]
  cases tail.listItems with
  | error error => simp [Except.map]
  | ok items =>
      cases elems with
      | nil => simp [Except.map]
      | cons pattern patterns => simp [Except.map]

theorem matches_cons_iff (span : Span) (head tail : Pattern) (value : Value) :
    (Pattern.cons span head tail).Matches value ↔
      ∃ headValue tailValue, value = .cons headValue tailValue ∧ head.Matches headValue ∧
        tail.Matches tailValue := by
  rw [Pattern.Matches]
  unfold matchPattern
  cases value with
  | cons headValue tailValue =>
      simp only [Value.listHeadTail, MatchResult.both_eq_some_iff]
      simp [Pattern.Matches]
  | _ => simp [Value.listHeadTail]

/-! ## Heads -/

/-- What a pattern can see of a value before it looks at the children. -/
inductive ValueHead where
  | scalar (value : Scalar)
  | callable (kind : String) (id : Nat)
  | tuple (size : Nat)
  | empty
  | cons
  | dict (keys : List Symbol)
  | adt (tag : Symbol) (size : Nat)

def ValueHead.arity : ValueHead → Nat
  | scalar _ | callable _ _ | empty => 0
  | tuple size => size
  | cons => 2
  | dict keys => keys.length
  | adt _ size => size

namespace Value

def head : Value → ValueHead
  | scalar value => .scalar value
  | callable kind id => .callable kind id
  | tuple elems => .tuple elems.length
  | empty => .empty
  | cons _ _ => .cons
  | dict entries => .dict (entries.map (·.1))
  | adt tag args => .adt tag args.length

def children : Value → List Value
  | scalar _ | callable _ _ | empty => []
  | tuple elems => elems
  | cons head tail => [head, tail]
  | dict entries => entries.map (·.2)
  | adt _ args => args

theorem length_children (value : Value) : value.children.length = value.head.arity := by
  cases value <;> simp [children, head, ValueHead.arity]

end Value

namespace Pattern

mutual

/-- How much a pattern looks at. -/
def size : Pattern → Nat
  | .wildcard _ | .var _ => 0
  | .named _ _ args => 1 + listSize args
  | .tuple _ elems => 1 + listSize elems
  | .list _ elems => 1 + listSize elems
  | .cons _ head tail => 1 + head.size + tail.size
  | .dict _ fields => 1 + fieldsSize fields

def listSize : List Pattern → Nat
  | [] => 0
  | pattern :: patterns => 1 + pattern.size + listSize patterns

def fieldsSize : List (Symbol × Pattern) → Nat
  | [] => 0
  | (_, pattern) :: fields => pattern.size + fieldsSize fields

end

/-- The patterns of a record pattern for the entries with the given keys; a
later entry with the same key is not looked at. -/
def expandFields : List Symbol → List (Symbol × Pattern) → Option (List (List Pattern))
  | [], [] => some []
  | [], _ :: _ => none
  | key :: keys, fields =>
      (expandFields keys (fields.filter (·.1 ≠ key))).map fun cells =>
        (fields.filter (·.1 = key)).map (·.2) :: cells

/-- The patterns for the children, when the pattern accepts the head. -/
def expand : Pattern → ValueHead → Option (List (List Pattern))
  | .wildcard _, atHead | .var _, atHead => some (List.replicate atHead.arity [])
  | .named _ name args, .adt tag size =>
      if lastSegment tag = lastSegment name.toDottedSymbol ∧ size = args.length then
        some (args.map ([·]))
      else none
  | .named _ name args, .empty =>
      if lastSegment name.toDottedSymbol = "Empty" ∧ args.length = 0 then some [] else none
  | .named _ name args, .cons =>
      if lastSegment name.toDottedSymbol = "Cons" ∧ args.length = 2 then some (args.map ([·]))
      else none
  | .tuple _ elems, .tuple size => if size = elems.length then some (elems.map ([·])) else none
  | .list _ [], .empty => some []
  | .list span (pattern :: patterns), .cons => some [[pattern], [.list span patterns]]
  | .cons _ head tail, .cons => some [[head], [tail]]
  | .dict _ fields, .dict keys => expandFields keys fields
  | _, _ => none

theorem length_expandFields {keys : List Symbol} {fields : List (Symbol × Pattern)}
    {cells : List (List Pattern)} (expanded : expandFields keys fields = some cells) :
    cells.length = keys.length := by
  induction keys generalizing fields cells with
  | nil =>
      cases fields with
      | nil =>
          cases expanded
          rfl
      | cons field fields => cases expanded
  | cons key keys keysIH =>
      obtain ⟨rest, restExpanded, rfl⟩ := Option.map_eq_some_iff.mp expanded
      rw [List.length_cons, List.length_cons, keysIH restExpanded]

theorem length_expand (pattern : Pattern) (atHead : ValueHead) (cells : List (List Pattern))
    (expanded : pattern.expand atHead = some cells) : cells.length = atHead.arity := by
  unfold expand at expanded
  split at expanded
  case h_3 | h_5 | h_6 =>
    split at expanded
    · next accepts =>
        cases expanded
        simp [ValueHead.arity, accepts]
    · cases expanded
  case h_4 =>
    split at expanded
    · cases expanded
      rfl
    · cases expanded
  case h_10 => exact length_expandFields expanded
  all_goals cases expanded <;> simp [ValueHead.arity]

theorem expand_of_size_eq_zero (pattern : Pattern) (atHead : ValueHead)
    (looksAtNothing : pattern.size = 0) :
    pattern.expand atHead = some (List.replicate atHead.arity []) := by
  cases pattern with
  | wildcard | var => simp [expand]
  | _ => simp [size] at looksAtNothing

theorem sum_size_singletons (patterns : List Pattern) :
    ((patterns.map ([·])).map fun cell => (cell.map size).sum).sum ≤ listSize patterns := by
  induction patterns with
  | nil => simp
  | cons pattern patterns patternsIH =>
      simp only [List.map_cons, List.sum_cons, List.map_nil, List.sum_nil, listSize] at patternsIH ⊢
      omega

theorem fieldsSize_filter (key : Symbol) (fields : List (Symbol × Pattern)) :
    (((fields.filter (·.1 = key)).map (·.2)).map size).sum +
      fieldsSize (fields.filter (·.1 ≠ key)) = fieldsSize fields := by
  induction fields with
  | nil => rfl
  | cons field fields fieldsIH =>
      obtain ⟨name, pattern⟩ := field
      by_cases isKey : name = key
      · simp only [List.filter_cons, isKey, decide_true, if_true, List.map_cons, List.sum_cons,
          ne_eq, not_true, decide_false, Bool.false_eq_true, if_false, fieldsSize] at fieldsIH ⊢
        omega
      · simp only [List.filter_cons, isKey, decide_false, Bool.false_eq_true, if_false, ne_eq,
          not_false_eq_true, decide_true, if_true, fieldsSize] at fieldsIH ⊢
        omega

theorem sum_size_expandFields {keys : List Symbol} {fields : List (Symbol × Pattern)}
    {cells : List (List Pattern)} (expanded : expandFields keys fields = some cells) :
    (cells.map fun cell => (cell.map size).sum).sum = fieldsSize fields := by
  induction keys generalizing fields cells with
  | nil =>
      cases fields with
      | nil =>
          cases expanded
          rfl
      | cons field fields => cases expanded
  | cons key keys keysIH =>
      obtain ⟨rest, restExpanded, rfl⟩ := Option.map_eq_some_iff.mp expanded
      rw [List.map_cons, List.sum_cons, keysIH restExpanded, fieldsSize_filter]

theorem size_expand_lt (pattern : Pattern) (atHead : ValueHead) (cells : List (List Pattern))
    (expanded : pattern.expand atHead = some cells) (looks : pattern.size ≠ 0) :
    (cells.map fun cell => (cell.map size).sum).sum < pattern.size := by
  unfold expand at expanded
  split at expanded
  case h_1 | h_2 => simp [size] at looks
  case h_3 | h_5 | h_6 =>
    obtain ⟨-, same⟩ := Option.ite_none_right_eq_some.mp expanded
    cases same
    exact Nat.lt_one_add_iff.mpr (sum_size_singletons _)
  case h_4 =>
    obtain ⟨-, same⟩ := Option.ite_none_right_eq_some.mp expanded
    cases same
    simp [size]
  case h_10 =>
    rw [sum_size_expandFields expanded, size]
    omega
  all_goals
    cases expanded
    try simp only [List.map_cons, List.map_nil, List.sum_cons, List.sum_nil, size, listSize]
    try omega

/-! ## Matching one head at a time -/

theorem matches_named_adt_iff (span : Span) (name : NameRef) (args : List Pattern) (tag : Symbol)
    (fields : List Value) :
    (Pattern.named span name args).Matches (.adt tag fields) ↔
      (lastSegment tag = lastSegment name.toDottedSymbol ∧ fields.length = args.length) ∧
        List.Forall₂ Matches args fields := by
  rw [Matches]
  unfold matchPattern
  simp only
  split
  · next accepts => simp [accepts, matchPatterns_eq_some_iff args fields accepts.2]
  · next rejects => simp [rejects]

theorem matches_named_cons_iff (span : Span) (name : NameRef) (args : List Pattern)
    (headValue tailValue : Value) :
    (Pattern.named span name args).Matches (.cons headValue tailValue) ↔
      (lastSegment name.toDottedSymbol = "Cons" ∧ args.length = 2) ∧
        List.Forall₂ Matches args [headValue, tailValue] := by
  rw [Matches]
  unfold matchPattern
  simp only
  split
  · next isEmpty =>
      cases tailValue.listItems <;> simp [Except.map, isEmpty]
  · next notEmpty =>
      split
      · next accepts => simp [accepts, matchPatterns_eq_some_iff args [headValue, tailValue]
          accepts.2.symm]
      · next rejects => simp [rejects]

theorem matches_tuple_iff (span : Span) (elems : List Pattern) (fields : List Value) :
    (Pattern.tuple span elems).Matches (.tuple fields) ↔
      fields.length = elems.length ∧ List.Forall₂ Matches elems fields := by
  rw [Matches]
  unfold matchPattern
  simp only
  split
  · next accepts => simp [accepts, matchPatterns_eq_some_iff elems fields accepts]
  · next rejects => simp [rejects]

theorem matchFieldPatterns_eq_some_iff (entries : List (Symbol × Value))
    (fields : List (Symbol × Pattern)) {values : List Value}
    (found : fields.mapM (fun field => entries.lookup field.1) = some values) :
    (∃ bindings, matchFieldPatterns fields values = .ok (some bindings)) ↔
      ∀ field ∈ fields, ∃ value, entries.lookup field.1 = some value ∧ field.2.Matches value := by
  induction fields generalizing values with
  | nil => simp [matchFieldPatterns]
  | cons field fields fieldsIH =>
      obtain ⟨key, pattern⟩ := field
      simp only [List.mapM_cons, Option.pure_def, Option.bind_eq_bind, Option.bind_eq_some_iff,
        Option.some.injEq] at found
      obtain ⟨value, hValue, rest, hRest, rfl⟩ := found
      rw [matchFieldPatterns, MatchResult.both_eq_some_iff, fieldsIH hRest, List.forall_mem_cons]
      simp [hValue, Matches]

theorem exists_values_of_lookup {entries : List (Symbol × Value)}
    {fields : List (Symbol × Pattern)}
    (found : ∀ field ∈ fields, ∃ value, entries.lookup field.1 = some value) :
    ∃ values, fields.mapM (fun field => entries.lookup field.1) = some values := by
  induction fields with
  | nil => exact ⟨[], rfl⟩
  | cons field fields fieldsIH =>
      rw [List.forall_mem_cons] at found
      obtain ⟨⟨value, hValue⟩, rest⟩ := found
      obtain ⟨values, hValues⟩ := fieldsIH rest
      exact ⟨value :: values, by simp [List.mapM_cons, hValue, hValues]⟩

/-- A record pattern looks its fields up. -/
theorem matches_dict_iff (span : Span) (fields : List (Symbol × Pattern))
    (entries : List (Symbol × Value)) :
    (Pattern.dict span fields).Matches (.dict entries) ↔
      ∀ field ∈ fields, ∃ value, entries.lookup field.1 = some value ∧ field.2.Matches value := by
  rw [Matches]
  unfold matchPattern
  simp only
  cases found : fields.mapM (fun field => entries.lookup field.1) with
  | some values => exact matchFieldPatterns_eq_some_iff entries fields found
  | none =>
      constructor
      · rintro ⟨bindings, isMatch⟩
        cases isMatch
      · intro allMatch
        obtain ⟨values, hValues⟩ := exists_values_of_lookup fun field member =>
          (allMatch field member).imp fun value both => both.1
        rw [hValues] at found
        cases found

theorem lookup_cons_of_ne {key name : Symbol} (other : name ≠ key) (value : Value)
    (entries : List (Symbol × Value)) :
    ((key, value) :: entries).lookup name = entries.lookup name := by
  have notKey : (name == key) = false := beq_false_of_ne other
  rw [List.lookup_cons, notKey]

theorem expandFields_matches_iff (entries : List (Symbol × Value))
    (fields : List (Symbol × Pattern)) :
    (∃ cells, expandFields (entries.map (·.1)) fields = some cells ∧
        List.Forall₂ (fun cell child => ∀ pattern ∈ cell, Matches pattern child) cells
          (entries.map (·.2))) ↔
      ∀ field ∈ fields, ∃ value, entries.lookup field.1 = some value ∧ field.2.Matches value := by
  induction entries generalizing fields with
  | nil =>
      cases fields with
      | nil => simp [expandFields]
      | cons field fields =>
          rw [List.forall_mem_cons]
          simp [expandFields]
  | cons entry entries entriesIH =>
      obtain ⟨key, value⟩ := entry
      have rest := entriesIH (fields.filter (·.1 ≠ key))
      simp only [List.map_cons, expandFields, Option.map_eq_some_iff]
      constructor
      · rintro ⟨_, ⟨cells, expanded, rfl⟩, allMatch⟩ field member
        rw [List.forall₂_cons] at allMatch
        by_cases isKey : field.1 = key
        · refine ⟨value, by simp [isKey], allMatch.1 field.2 ?_⟩
          exact List.mem_map.mpr ⟨field, List.mem_filter.mpr ⟨member, by simp [isKey]⟩, rfl⟩
        · have found := rest.mp ⟨cells, expanded, allMatch.2⟩ field
            (List.mem_filter.mpr ⟨member, by simp [isKey]⟩)
          rwa [lookup_cons_of_ne isKey]
      · intro allMatch
        have others : ∀ field ∈ fields.filter (·.1 ≠ key),
            ∃ value, entries.lookup field.1 = some value ∧ field.2.Matches value := by
          intro field member
          obtain ⟨member, notKey⟩ := List.mem_filter.mp member
          have isOther : field.1 ≠ key := of_decide_eq_true notKey
          have found := allMatch field member
          rwa [lookup_cons_of_ne isOther] at found
        obtain ⟨cells, expanded, cellsMatch⟩ := rest.mpr others
        refine ⟨_, ⟨cells, expanded, rfl⟩, List.forall₂_cons.mpr ⟨?_, cellsMatch⟩⟩
        intro pattern member
        obtain ⟨field, fieldMember, rfl⟩ := List.mem_map.mp member
        obtain ⟨member, isKey⟩ := List.mem_filter.mp fieldMember
        have sameKey : field.1 = key := of_decide_eq_true isKey
        simpa [List.lookup_cons, sameKey] using allMatch field member

theorem forall₂_replicate_nil (values : List Value) (count : Nat)
    (sameLength : values.length = count) :
    List.Forall₂ (fun cell child => ∀ pattern ∈ cell, Matches pattern child)
      (List.replicate count []) values := by
  subst sameLength
  induction values with
  | nil => exact .nil
  | cons value values valuesIH => exact .cons (by simp) valuesIH

/-- A pattern matches a value when it accepts the head and the resulting
patterns match the children. -/
theorem matches_iff (pattern : Pattern) (value : Value) :
    pattern.Matches value ↔ ∃ cells, pattern.expand value.head = some cells ∧
      List.Forall₂ (fun cell child => ∀ pattern ∈ cell, Matches pattern child) cells
        value.children := by
  cases pattern with
  | wildcard span =>
      have matched : (Pattern.wildcard span).Matches value := ⟨[], by simp [matchPattern]⟩
      have anything := forall₂_replicate_nil value.children _ value.length_children
      exact iff_of_true matched ⟨_, by rw [expand], anything⟩
  | var binder =>
      have matched : (Pattern.var binder).Matches value := ⟨[(binder.name, value)], by simp [matchPattern]⟩
      have anything := forall₂_replicate_nil value.children _ value.length_children
      exact iff_of_true matched ⟨_, by rw [expand], anything⟩
  | named span name args =>
      cases value with
      | adt tag fields =>
          rw [matches_named_adt_iff, Value.head, expand]
          simp only [Option.ite_none_right_eq_some, Option.some.injEq, and_assoc]
          simp [Value.children]
      | cons headValue tailValue =>
          rw [matches_named_cons_iff, Value.head, expand]
          simp only [Option.ite_none_right_eq_some, Option.some.injEq, and_assoc]
          simp [Value.children]
      | empty =>
          rw [Matches, Value.head, expand]
          unfold matchPattern
          simp only [Option.ite_none_right_eq_some]
          split
          · next accepts => simp [accepts, Value.children]
          · next rejects =>
              simp only [Except.ok.injEq, reduceCtorEq, exists_false, false_iff]
              rintro ⟨cells, ⟨accepts, -⟩, -⟩
              exact rejects accepts
      | _ => simp [Matches, matchPattern, Value.head, expand]
  | tuple span elems =>
      cases value with
      | tuple fields =>
          rw [matches_tuple_iff, Value.head, expand]
          simp only [Option.ite_none_right_eq_some, Option.some.injEq, and_assoc]
          simp [Value.children]
      | _ => simp [Matches, matchPattern, Value.head, expand]
  | list span elems =>
      cases value with
      | cons headValue tailValue =>
          rw [matches_list_cons_iff]
          cases elems <;> simp [Value.head, Value.children, expand]
      | empty =>
          rw [matches_list_iff]
          cases elems <;> simp [Value.listItems, Value.head, Value.children, expand]
      | _ =>
          rw [matches_list_iff]
          simp [Value.listItems, Value.head, expand]
  | cons span head tail =>
      rw [matches_cons_iff]
      cases value <;> simp [Value.head, Value.children, expand]
  | dict span fields =>
      cases value with
      | dict entries =>
          rw [matches_dict_iff, ← expandFields_matches_iff]
          simp [Value.head, Value.children, expand]
      | _ => simp [Matches, matchPattern, Value.head, expand]

end Pattern

end RexLang
