import RexLang.EvaluatorSteps
import RexLang.PatternInstances

/-!
# Matching on the heap

The matcher of the evaluator, served by the heap, against the instances of patterns:
it accepts exactly the instances and binds the variables to their values, whatever
cells the lists are made of, and the cells it finds in the heap stay as they are.
-/

namespace RexLang

open Scope

-- The equations of the matcher, derived here once for the theorems about each pattern.
attribute [local simp] matchPatternPtr matchPatternsPtr matchFieldPatternsPtr matchListPatternsPtr

variable {Code Value Call : Type}

/-! ## Bindings -/

/-- The value of a variable: the last one that it is bound to. -/
def latest (bindings : List (Symbol × HeapValue)) (name : Symbol) : Option HeapValue :=
  bindings.reverse.lookup name

/-- The root holds the value. -/
def HoldsValue (heap : Heap Code) (image : InternalPtr → InternalPtr) (root : RootedPtr)
    (value : HeapValue) : Prop :=
  ∃ element, Holds heap root element ∧ value.StoredAt heap image element

/-- Roots of the values of the variables, for these variables only. -/
structure Binds (heap : Heap Code) (image : InternalPtr → InternalPtr)
    (bindings : List (Symbol × HeapValue)) (bound : SymbolMap RootedPtr) : Prop where
  ordered : Ordered bound
  values : ∀ name, Option.Rel (HoldsValue heap image) (bound.lookup name) (latest bindings name)

section Binds

variable {heap next : Heap Code} {image after : InternalPtr → InternalPtr}

theorem HoldsValue.move {root : RootedPtr} {value : HeapValue} (sound : heap.Sound)
    (moves : Moves heap next after) (holds : HoldsValue heap image root value) :
    HoldsValue next (after ∘ image) root value := by
  obtain ⟨element, isElement, stored⟩ := holds
  exact ⟨_, isElement.move moves sound, stored.move sound moves _ _ isElement.reachableIn⟩

theorem forall₂_holdsValue_move {roots : List RootedPtr} {values : List HeapValue}
    (sound : heap.Sound) (moves : Moves heap next after)
    (holds : List.Forall₂ (HoldsValue heap image) roots values) :
    List.Forall₂ (HoldsValue next (after ∘ image)) roots values :=
  holds.imp fun _ _ => HoldsValue.move sound moves

theorem Binds.nil : Binds heap image [] [] :=
  ⟨List.Pairwise.nil, fun _ => .none⟩

theorem Binds.single {root : RootedPtr} {value : HeapValue} (name : Symbol)
    (holds : HoldsValue heap image root value) :
    Binds heap image [(name, value)] [(name, root)] := by
  refine ⟨List.pairwise_singleton _ _, fun other => ?_⟩
  rw [latest, List.reverse_singleton, lookup_cons_eq_ite, lookup_cons_eq_ite]
  split
  · exact .some holds
  · exact .none

theorem optionRel_imp {First Second : Type} {related implied : First → Second → Prop}
    {first : Option First} {second : Option Second} (rel : Option.Rel related first second)
    (implies : ∀ one other, related one other → implied one other) :
    Option.Rel implied first second := by
  cases rel with
  | some holds => exact .some (implies _ _ holds)
  | none => exact .none

theorem Binds.move {bindings : List (Symbol × HeapValue)} {bound : SymbolMap RootedPtr}
    (sound : heap.Sound) (moves : Moves heap next after) (binds : Binds heap image bindings bound) :
    Binds next (after ∘ image) bindings bound := by
  exact ⟨binds.ordered, fun name =>
    optionRel_imp (binds.values name) fun _ _ => HoldsValue.move sound moves⟩

theorem latest_append (bindings more : List (Symbol × HeapValue)) (name : Symbol) :
    latest (bindings ++ more) name = (latest more name).or (latest bindings name) := by
  rw [latest, List.reverse_append, List.lookup_append]
  rfl

theorem ordered_extend {map more : SymbolMap RootedPtr} (ordered : Ordered map) :
    Ordered (map.extend more) := by
  rw [SymbolMap.extend]
  induction more generalizing map with
  | nil => exact ordered
  | cons entry more hypothesis => exact hypothesis (ordered_insert ordered entry.1 entry.2)

theorem lookup_extend {map more : SymbolMap RootedPtr} (ordered : Ordered more) (name : Symbol) :
    (map.extend more).lookup name = (more.lookup name).or (map.lookup name) := by
  rw [SymbolMap.extend]
  induction more generalizing map with
  | nil => rfl
  | cons entry more hypothesis =>
      obtain ⟨key, root⟩ := entry
      rw [Ordered, List.map_cons, List.pairwise_cons] at ordered
      rw [List.foldl_cons, hypothesis ordered.2, lookup_insert, lookup_cons_eq_ite]
      by_cases same : name = key
      · have later : more.lookup name = none := by
          rw [← Option.not_isSome_iff_eq_none, isSome_lookup_iff, same]
          exact fun member => lt_irrefl key (ordered.1 key member)
        rw [if_pos same, if_pos same, later]
        rfl
      · rw [if_neg same, if_neg same]

theorem Binds.extend {bindings more : List (Symbol × HeapValue)}
    {bound others : SymbolMap RootedPtr} (binds : Binds heap image bindings bound)
    (bindsMore : Binds heap image more others) :
    Binds heap image (bindings ++ more) (bound.extend others) := by
  refine ⟨ordered_extend binds.ordered, fun name => ?_⟩
  rw [lookup_extend bindsMore.ordered, latest_append]
  have later := bindsMore.values name
  revert later
  generalize others.lookup name = found
  generalize latest more name = value
  intro later
  cases later with
  | some holds => exact .some holds
  | none => exact binds.values name

end Binds

/-! ## What the matcher answers -/

/-- Nothing when there is no instance, else the bindings of one. -/
def Reports (instances : List (Symbol × HeapValue) → Prop) (heap : Heap Code)
    (image : InternalPtr → InternalPtr) : Option (SymbolMap RootedPtr) → Prop
  | none => ∀ bindings, ¬ instances bindings
  | some bound => ∃ bindings, instances bindings ∧ Binds heap image bindings bound

theorem Reports.congr {instances others : List (Symbol × HeapValue) → Prop} {heap : Heap Code}
    {image : InternalPtr → InternalPtr} {result : Option (SymbolMap RootedPtr)}
    (answers : Reports instances heap image result)
    (same : ∀ bindings, instances bindings ↔ others bindings) :
    Reports others heap image result := by
  cases result with
  | none => exact fun bindings => mt (same bindings).mpr (answers bindings)
  | some bound =>
      obtain ⟨bindings, isInstance, binds⟩ := answers
      exact ⟨bindings, (same bindings).mp isInstance, binds⟩

section Matching

variable (adts : SymbolMap AdtDecl) (others : EvalServer Code Value Call)

/-- Served by the heap, the matcher finds the instances of the pattern. -/
def FindsInstances (pattern : Pattern) : Prop :=
  ∀ (heap : Heap Code) (image : InternalPtr → InternalPtr) (root : RootedPtr)
    (value : HeapValue), heap.Sound → Suits adts pattern value → HoldsValue heap image root value →
      Serves others OutOfMemoryFault heap (matchPatternPtr pattern root) fun result next after =>
        Reports (IsInstance adts pattern value) next (after ∘ image) result

variable {adts} {others}

theorem areInstances_cons_iff {pattern : Pattern} {patterns : List Pattern} {value : HeapValue}
    {values : List HeapValue} {bindings : List (Symbol × HeapValue)} :
    AreInstances adts (pattern :: patterns) (value :: values) bindings ↔
      ∃ first rest, bindings = first ++ rest ∧ IsInstance adts pattern value first ∧
        AreInstances adts patterns values rest := by
  constructor
  · rintro ⟨⟩
    exact ⟨_, _, rfl, ‹_›, ‹_›⟩
  · rintro ⟨first, rest, rfl, isHead, areRest⟩
    exact .cons isHead areRest

/-- What is found for the rest of the patterns, after the first. -/
theorem Reports.cons {heap : Heap Code} {image : InternalPtr → InternalPtr} {pattern : Pattern}
    {patterns : List Pattern} {value : HeapValue} {values : List HeapValue}
    {prior first : List (Symbol × HeapValue)} {result : Option (SymbolMap RootedPtr)}
    (isHead : IsInstance adts pattern value first)
    (answers : Reports (fun bindings => ∃ rest, AreInstances adts patterns values rest ∧
      bindings = (prior ++ first) ++ rest) heap image result) :
    Reports (fun bindings => ∃ rest,
      AreInstances adts (pattern :: patterns) (value :: values) rest ∧ bindings = prior ++ rest)
      heap image result := by
  cases result with
  | none =>
      rintro _ ⟨_, instances, rfl⟩
      obtain ⟨_, rest, rfl, -, areRest⟩ := areInstances_cons_iff.1 instances
      exact answers _ ⟨rest, areRest, rfl⟩
  | some bound =>
      obtain ⟨_, ⟨rest, areRest, rfl⟩, binds⟩ := answers
      exact ⟨_, ⟨_, .cons isHead areRest, List.append_assoc _ _ _⟩, binds⟩

/-- The loop of `match_patterns`. -/
theorem serves_matchPatternsPtr {patterns : List Pattern}
    (each : ∀ pattern ∈ patterns, FindsInstances adts others pattern) {heap : Heap Code}
    {image : InternalPtr → InternalPtr} {roots : List RootedPtr} {values : List HeapValue}
    {prior : List (Symbol × HeapValue)} {bound : SymbolMap RootedPtr} (sound : heap.Sound)
    (suits : List.Forall₂ (Suits adts) patterns values)
    (holds : List.Forall₂ (HoldsValue heap image) roots values)
    (binds : Binds heap image prior bound) :
    Serves others OutOfMemoryFault heap (matchPatternsPtr patterns roots bound)
      fun result next after => Reports (fun bindings =>
        ∃ rest, AreInstances adts patterns values rest ∧ bindings = prior ++ rest)
        next (after ∘ image) result := by
  induction patterns generalizing heap image roots values prior bound with
  | nil =>
      cases suits
      rw [matchPatternsPtr]
      exact Serves.pure sound ⟨prior, ⟨[], .nil, (List.append_nil prior).symm⟩, binds⟩
  | cons pattern patterns hypothesis =>
      rw [List.forall_mem_cons] at each
      cases suits with
      | cons suitsHead suitsRest =>
          cases holds with
          | @cons root _ roots _ holdsHead holdsRest =>
              rw [matchPatternsPtr]
              refine Serves.bind (each.1 heap image root _ sound suitsHead holdsHead)
                fun result later moved moves answers => ?_
              cases result with
              | none =>
                  refine Serves.pure moves.sound ?_
                  rintro _ ⟨_, instances, rfl⟩
                  obtain ⟨first, _, rfl, isHead, -⟩ := areInstances_cons_iff.1 instances
                  exact answers first isHead
              | some sub =>
                  obtain ⟨first, isHead, bindsHead⟩ := answers
                  exact (hypothesis each.2 moves.sound suitsRest
                    (forall₂_holdsValue_move sound moves holdsRest)
                    ((binds.move sound moves).extend bindsHead)).mono
                    fun _ _ _ _ found => found.cons isHead

theorem matchFieldPatternsPtr_eq (fields : List (Symbol × Pattern)) (roots : List RootedPtr)
    (bound : SymbolMap RootedPtr) :
    (matchFieldPatternsPtr fields roots bound : EvalM RootedPtr Value Call _) =
      matchPatternsPtr (fields.map Prod.snd) roots bound := by
  induction fields generalizing roots bound with
  | nil => rw [matchFieldPatternsPtr, List.map_nil, matchPatternsPtr]
  | cons field fields hypothesis =>
      obtain ⟨name, pattern⟩ := field
      cases roots with
      | nil => rw [matchFieldPatternsPtr, List.map_cons, matchPatternsPtr]
      | cons root roots =>
          rw [matchFieldPatternsPtr, List.map_cons, matchPatternsPtr]
          simp only [hypothesis]

theorem areInstances_wildcard_iff {span : Span} {patterns : List Pattern} {value : HeapValue}
    {values : List HeapValue} {bindings : List (Symbol × HeapValue)} :
    AreInstances adts (.wildcard span :: patterns) (value :: values) bindings ↔
      AreInstances adts patterns values bindings := by
  rw [areInstances_cons_iff]
  constructor
  · rintro ⟨_, rest, rfl, ⟨⟩, areRest⟩
    exact areRest
  · exact fun areRest => ⟨[], bindings, rfl, .wildcard span value, areRest⟩

theorem exists_of_isWildcard {pattern : Pattern} (wildcard : isWildcard pattern) :
    ∃ span, pattern = .wildcard span := by
  cases pattern with
  | wildcard span => exact ⟨span, rfl⟩
  | _ => cases wildcard

/-- The loop of `match_list_patterns`. -/
theorem serves_matchListPatternsPtr {patterns : List Pattern}
    (each : ∀ pattern ∈ patterns, FindsInstances adts others pattern) {heap : Heap Code}
    {image : InternalPtr → InternalPtr} {items : ListItems RootedPtr} {index : Nat}
    {elements : List ElementValue} {values : List HeapValue}
    {prior : List (Symbol × HeapValue)} {bound : SymbolMap RootedPtr} (sound : heap.Sound)
    (suits : List.Forall₂ (Suits adts) patterns values) (isItems : ItemsOf heap items elements)
    (reachable : ∀ element ∈ elements, element.ReachableIn heap)
    (stored : HeapValue.AllStoredAt heap image values (elements.drop index))
    (binds : Binds heap image prior bound) :
    Serves others OutOfMemoryFault heap (matchListPatternsPtr patterns items index bound)
      fun result next after => Reports (fun bindings =>
        ∃ rest, AreInstances adts patterns values rest ∧ bindings = prior ++ rest)
        next (after ∘ image) result := by
  induction patterns generalizing heap image index elements values prior bound with
  | nil =>
      cases suits
      rw [matchListPatternsPtr]
      exact Serves.pure sound ⟨prior, ⟨[], .nil, (List.append_nil prior).symm⟩, binds⟩
  | cons pattern patterns hypothesis =>
      rw [List.forall_mem_cons] at each
      cases suits with
      | @cons _ value _ values suitsHead suitsRest =>
          obtain ⟨element, rest, dropped, storedHead, storedRest⟩ := stored
          have found : elements[index]? = some element := by
            have first := congrArg (·[0]?) dropped
            simpa using first
          have later : elements.drop (index + 1) = rest := by
            rw [← List.drop_drop, dropped, List.drop_one, List.tail_cons]
          rw [matchListPatternsPtr]
          by_cases wildcard : isWildcard pattern
          · obtain ⟨span, rfl⟩ := exists_of_isWildcard wildcard
            rw [if_pos wildcard]
            refine (hypothesis each.2 sound suitsRest isItems reachable (later ▸ storedRest)
              binds).mono fun _ _ _ _ reports => reports.congr fun bindings => ?_
            simp only [areInstances_wildcard_iff]
          · rw [if_neg wildcard]
            refine Serves.ask (fun _ => id) rfl (yields_getItem sound isItems found)
              fun root next moved moves holds => ?_
            have storedNext := storedHead.move sound moves _ _
              (reachable element (List.mem_of_getElem? found))
            refine Serves.bind (each.1 next _ root value moves.sound suitsHead
              ⟨_, holds, storedNext⟩) fun result last afterwards movesLast reports => ?_
            have both := moves.trans movesLast
            cases result with
            | none =>
                refine Serves.pure movesLast.sound ?_
                rintro _ ⟨_, instances, rfl⟩
                obtain ⟨first, _, rfl, isHead, -⟩ := areInstances_cons_iff.1 instances
                exact reports first isHead
            | some sub =>
                obtain ⟨first, isHead, bindsHead⟩ := reports
                have reachableNext : ∀ element ∈ elements.map (·.map (afterwards ∘ moved)),
                    element.ReachableIn last := by
                  intro element member
                  obtain ⟨before, isElement, rfl⟩ := List.mem_map.mp member
                  exact (reachable before isElement).move both
                have storedLast := HeapValue.AllStoredAt.move sound both values rest storedRest
                  fun element member => reachable element (List.mem_of_mem_drop (later ▸ member))
                rw [← later, List.map_drop] at storedLast
                exact (hypothesis each.2 movesLast.sound suitsRest (isItems.move both sound)
                  reachableNext storedLast ((binds.move sound both).extend bindsHead)).mono
                  fun _ _ _ _ reports => reports.cons isHead

/-! ## The cells of a value -/

/-- The type name of a value that patterns look into. -/
def HeapValue.shape : HeapValue → Option String
  | .tuple _ => some "tuple"
  | .list _ => some "list"
  | .dict _ _ => some "dict"
  | .adt _ _ => some "adt"
  | .byte _ | .leaf _ _ => none

section Cells

variable {heap : Heap Code} {image : InternalPtr → InternalPtr} {root : RootedPtr}

theorem HoldsValue.tuple {values : List HeapValue}
    (holds : HoldsValue heap image root (.tuple values)) :
    ∃ pointer targets, heap.resolveRuntimeRoot root = .ok pointer ∧
      heap.getCellFromPointer pointer = .ok (.tuple targets) ∧
      HeapValue.AllStoredAt heap image values (targets.map heap.valueAt) := by
  obtain ⟨_, isElement, pointer, targets, rfl, found, all⟩ := holds
  exact ⟨pointer, targets, isElement.resolve_cell, found, all⟩

theorem HoldsValue.list {values : List HeapValue}
    (holds : HoldsValue heap image root (.list values)) :
    ∃ elements, HoldsList heap root elements ∧
      (∀ element ∈ elements, element.ReachableIn heap) ∧
      HeapValue.AllStoredAt heap image values elements := by
  obtain ⟨_, isElement, pointer, elements, rfl, denotes, all⟩ := holds
  have resolved := isElement.resolve_cell
  exact ⟨elements, ⟨pointer, resolved, denotes⟩,
    denotes.reachableIn (Heap.reachable_of_resolve resolved), all⟩

theorem HoldsList.holdsValue {elements : List ElementValue} {values : List HeapValue}
    (lists : HoldsList heap root elements)
    (all : HeapValue.AllStoredAt heap image values elements) :
    HoldsValue heap image root (.list values) := by
  obtain ⟨pointer, resolved, denotes⟩ := lists
  exact ⟨_, ⟨pointer, resolved, denotes.valueAt⟩, pointer, elements, rfl, denotes, all⟩

theorem HoldsValue.dict {keys : List Symbol} {values : List HeapValue}
    (holds : HoldsValue heap image root (.dict keys values)) :
    ∃ pointer entries, heap.resolveRuntimeRoot root = .ok pointer ∧
      heap.getCellFromPointer pointer = .ok (.dict entries) ∧ entries.map Prod.fst = keys ∧
      HeapValue.AllStoredAt heap image values (entries.map fun entry => heap.valueAt entry.2) := by
  obtain ⟨_, isElement, pointer, entries, rfl, found, isKeys, all⟩ := holds
  exact ⟨pointer, entries, isElement.resolve_cell, found, isKeys, all⟩

theorem HoldsValue.adt {tag : Symbol} {args : List HeapValue}
    (holds : HoldsValue heap image root (.adt tag args)) :
    ∃ pointer targets, heap.resolveRuntimeRoot root = .ok pointer ∧
      heap.getCellFromPointer pointer = .ok (.adt tag targets) ∧
      HeapValue.AllStoredAt heap image args (targets.map heap.valueAt) := by
  obtain ⟨_, isElement, pointer, targets, rfl, found, all⟩ := holds
  exact ⟨pointer, targets, isElement.resolve_cell, found, all⟩

/-- The elements are held by roots one by one. -/
theorem forall₂_holdsValue {roots : List RootedPtr} {elements : List ElementValue}
    {values : List HeapValue} (holds : List.Forall₂ (Holds heap) roots elements)
    (stored : HeapValue.AllStoredAt heap image values elements) :
    List.Forall₂ (HoldsValue heap image) roots values := by
  induction values generalizing roots elements with
  | nil =>
      cases stored
      cases holds
      exact .nil
  | cons value values hypothesis =>
      obtain ⟨element, rest, rfl, isHead, areRest⟩ := stored
      cases holds with
      | cons holdsHead holdsRest =>
          exact .cons ⟨element, holdsHead, isHead⟩ (hypothesis holdsRest areRest)

theorem HeapValue.AllStoredAt.length_eq {values : List HeapValue} {elements : List ElementValue}
    (stored : HeapValue.AllStoredAt heap image values elements) :
    elements.length = values.length := by
  induction values generalizing elements with
  | nil =>
      cases stored
      rfl
  | cons value values hypothesis =>
      obtain ⟨element, rest, rfl, -, areRest⟩ := stored
      rw [List.length_cons, List.length_cons, hypothesis areRest]

theorem Cell.not_shape_of_leafKind {cell : Cell Code InternalPtr} {kind : LeafKind}
    (isKind : cell.leafKind = some kind) :
    cell.cellTypeName ∉ ["tuple", "list", "dict", "adt"] := by
  cases cell <;> simp_all [cellTypeName, leafKind]

/-- The type name of the cell tells whether patterns look into the value. -/
theorem HoldsValue.exists_typeName {value : HeapValue} (holds : HoldsValue heap image root value) :
    ∃ name, typeName root heap = some (.ok name, heap) ∧
      (value.shape = some name ∨ value.shape = none ∧ name ∉ ["tuple", "list", "dict", "adt"]) := by
  cases value with
  | byte value =>
      obtain ⟨_, ⟨pointer, resolved, isByte⟩, rfl⟩ := holds
      rw [Heap.valueAt_eq_byte_iff] at isByte
      exact ⟨_, typeName_ok resolved isByte, .inr ⟨rfl, by simp [Cell.cellTypeName]⟩⟩
  | leaf kind pointer =>
      obtain ⟨_, isElement, rfl, cell, found, isKind⟩ := holds
      exact ⟨_, typeName_ok isElement.resolve_cell found,
        .inr ⟨rfl, Cell.not_shape_of_leafKind isKind⟩⟩
  | tuple values =>
      obtain ⟨pointer, targets, resolved, found, -⟩ := holds.tuple
      exact ⟨_, typeName_ok resolved found, .inl rfl⟩
  | list values =>
      obtain ⟨elements, ⟨pointer, resolved, denotes⟩, -⟩ := holds.list
      cases denotes with
      | empty found | cons found | slice found | binarySlice found =>
          exact ⟨_, typeName_ok resolved found, .inl rfl⟩
  | dict keys values =>
      obtain ⟨pointer, entries, resolved, found, -⟩ := holds.dict
      exact ⟨_, typeName_ok resolved found, .inl rfl⟩
  | adt tag args =>
      obtain ⟨pointer, targets, resolved, found, -⟩ := holds.adt
      exact ⟨_, typeName_ok resolved found, .inl rfl⟩

end Cells

/-! ## One pattern -/

section Patterns

variable {span : Span}

theorem findsInstances_wildcard : FindsInstances adts others (.wildcard span) := by
  intro heap image root value sound suits holds
  rw [matchPatternPtr]
  exact Serves.pure sound ⟨[], .wildcard span value, .nil⟩

theorem findsInstances_var (binder : Var) : FindsInstances adts others (.var binder) := by
  intro heap image root value sound suits holds
  rw [matchPatternPtr]
  exact Serves.pure sound ⟨_, .var binder value, .single binder.name holds⟩

/-- What is found for all patterns of a pattern. -/
theorem Reports.parts {heap : Heap Code} {image : InternalPtr → InternalPtr} {pattern : Pattern}
    {patterns : List Pattern} {value : HeapValue} {values : List HeapValue}
    {result : Option (SymbolMap RootedPtr)}
    (reports : Reports (fun bindings => ∃ rest, AreInstances adts patterns values rest ∧
      bindings = [] ++ rest) heap image result)
    (parts : ∀ bindings, AreInstances adts patterns values bindings ↔
      IsInstance adts pattern value bindings) :
    Reports (IsInstance adts pattern value) heap image result := by
  refine reports.congr fun bindings => ?_
  simp only [List.nil_append, exists_eq_right', parts]

theorem length_of_areInstances {patterns : List Pattern} {values : List HeapValue}
    {bindings : List (Symbol × HeapValue)}
    (areInstances : AreInstances adts patterns values bindings) :
    patterns.length = values.length := by
  induction patterns generalizing values bindings with
  | nil =>
      cases areInstances
      rfl
  | cons pattern patterns hypothesis =>
      cases areInstances with
      | cons _ areRest => rw [List.length_cons, List.length_cons, hypothesis areRest]

/-- The roots of the parts, after the heap has moved. -/
theorem holdsValues_of_roots {heap next : Heap Code} {image after : InternalPtr → InternalPtr}
    {targets : List InternalPtr} {roots : List RootedPtr} {values : List HeapValue}
    (sound : heap.Sound) (moves : Moves heap next after)
    (reachable : ∀ target ∈ targets, heap.Reachable target)
    (holds : List.Forall₂ (Holds next) roots ((targets.map heap.valueAt).map (·.map after)))
    (stored : HeapValue.AllStoredAt heap image values (targets.map heap.valueAt)) :
    List.Forall₂ (HoldsValue next (after ∘ image)) roots values :=
  forall₂_holdsValue holds (HeapValue.AllStoredAt.move sound moves values _ stored
    (Heap.reachableIn_map_valueAt reachable))

theorem findsInstances_tuple {patterns : List Pattern}
    (each : ∀ pattern ∈ patterns, FindsInstances adts others pattern) :
    FindsInstances adts others (.tuple span patterns) := by
  intro heap image root value sound suits holds
  rw [matchPatternPtr]
  obtain ⟨name, ran, isShape⟩ := holds.exists_typeName
  refine Serves.ask_of_ok rfl ran ?_
  by_cases isTuple : name = "tuple"
  · subst isTuple
    obtain ⟨values, rfl⟩ : ∃ values, value = .tuple values := by
      cases value <;> simp_all [HeapValue.shape]
    obtain ⟨pointer, targets, resolved, found, all⟩ := holds.tuple
    rw [if_neg (fun different => different rfl)]
    refine Serves.ask (fun _ => id) rfl (yields_rootAsTuple sound resolved found)
      fun roots later moved moves holdsRoots => ?_
    have children : ∀ target ∈ targets, heap.Reachable target := fun target member =>
      .child (Heap.reachable_of_resolve resolved) found member
    have holdsValues := holdsValues_of_roots sound moves children holdsRoots all
    have parts : ∀ bindings, AreInstances adts patterns values bindings ↔
        IsInstance adts (.tuple span patterns) (.tuple values) bindings :=
      fun bindings => ⟨.tuple, fun | .tuple parts => parts⟩
    by_cases sameLength : roots.length = patterns.length
    · rw [if_pos sameLength]
      exact (serves_matchPatternsPtr each moves.sound suits.tuple holdsValues .nil).mono
        fun _ _ _ _ reports => reports.parts parts
    · rw [if_neg sameLength]
      refine Serves.pure moves.sound fun bindings isInstance => sameLength ?_
      rw [holdsValues.length_eq, length_of_areInstances ((parts bindings).mpr isInstance)]
  · rw [if_pos isTuple]
    refine Serves.pure sound fun bindings isInstance => ?_
    cases isInstance
    simp_all [HeapValue.shape]

theorem areInstances_of_wildcards {patterns : List Pattern} {values : List HeapValue}
    (wildcards : patterns.all isWildcard) (sameLength : values.length = patterns.length) :
    AreInstances adts patterns values [] := by
  induction patterns generalizing values with
  | nil =>
      obtain rfl := List.length_eq_zero_iff.mp sameLength
      exact .nil
  | cons pattern patterns hypothesis =>
      cases values with
      | nil => cases sameLength
      | cons value values =>
          rw [List.all_cons, Bool.and_eq_true] at wildcards
          obtain ⟨span, rfl⟩ := exists_of_isWildcard wildcards.1
          rw [areInstances_wildcard_iff]
          exact hypothesis wildcards.2 (Nat.succ.inj sameLength)

theorem findsInstances_list {patterns : List Pattern}
    (each : ∀ pattern ∈ patterns, FindsInstances adts others pattern) :
    FindsInstances adts others (.list span patterns) := by
  intro heap image root value sound suits holds
  obtain ⟨values, rfl, suitsEach⟩ := suits.list
  obtain ⟨elements, lists, reachable, all⟩ := holds.list
  have parts : ∀ bindings, AreInstances adts patterns values bindings ↔
      IsInstance adts (.list span patterns) (.list values) bindings :=
    fun bindings => ⟨.list, fun | .list parts => parts⟩
  rw [matchPatternPtr]
  refine Serves.ask_of_ok rfl (listLen_ok sound lists) ?_
  rw [all.length_eq]
  by_cases sameLength : values.length = patterns.length
  · rw [if_neg (not_not.mpr sameLength)]
    by_cases wildcards : patterns.all isWildcard
    · rw [if_pos wildcards]
      exact Serves.pure sound
        ⟨[], (parts []).mp (areInstances_of_wildcards wildcards sameLength), .nil⟩
    · rw [if_neg wildcards]
      refine Serves.ask (fun _ => id) rfl (yields_listItems sound lists)
        fun items later moved moves isItems => ?_
      rw [isItems.len_eq, List.length_map, all.length_eq,
        if_neg (not_not.mpr sameLength.symm)]
      have suitsAll : List.Forall₂ (Suits adts) patterns values :=
        List.forall₂_iff_zip.mpr ⟨sameLength.symm, fun member =>
          suitsEach _ (List.of_mem_zip member).1 _ (List.of_mem_zip member).2⟩
      have reachableNext : ∀ element ∈ elements.map (·.map moved), element.ReachableIn later := by
        intro element member
        obtain ⟨before, isElement, rfl⟩ := List.mem_map.mp member
        exact (reachable before isElement).move moves
      have stored := HeapValue.AllStoredAt.move sound moves values _ all reachable
      exact (serves_matchListPatternsPtr each moves.sound suitsAll isItems reachableNext stored
        .nil).mono fun _ _ _ _ reports => reports.parts parts
  · rw [if_pos sameLength]
    refine Serves.pure sound fun bindings isInstance => sameLength ?_
    rw [length_of_areInstances ((parts bindings).mpr isInstance)]

/-- The head and the tail of a list against two patterns. -/
theorem serves_headTail {heap : Heap Code}
    {image : InternalPtr → InternalPtr} {root : RootedPtr} {values : List HeapValue}
    {head tail : Pattern} {instances : List (Symbol × HeapValue) → Prop}
    {next : Option (RootedPtr × RootedPtr) →
      EvalM RootedPtr Value Call (Option (SymbolMap RootedPtr))}
    (nextNone : next none = pure none)
    (nextSome : ∀ headValue tailValue, next (some (headValue, tailValue)) =
      matchPatternsPtr [head, tail] [headValue, tailValue] [])
    (eachHead : FindsInstances adts others head) (eachTail : FindsInstances adts others tail)
    (sound : heap.Sound) (holds : HoldsValue heap image root (.list values))
    (suits : ∀ value rest, values = value :: rest → Suits adts head value ∧
      Suits adts tail (.list rest))
    (empty : values = [] → ∀ bindings, ¬ instances bindings)
    (parts : ∀ value rest, values = value :: rest → ∀ bindings,
      AreInstances adts [head, tail] [value, .list rest] bindings ↔ instances bindings) :
    Serves others OutOfMemoryFault heap (EvalM.ask (.listHeadTail root) >>= next)
      fun result later after => Reports instances later (after ∘ image) result := by
  obtain ⟨elements, lists, reachable, all⟩ := holds.list
  refine Serves.ask (fun _ => id) rfl (yields_listHeadTail sound lists)
    fun split later moved moves isSplit => ?_
  cases values with
  | nil =>
      cases all
      cases isSplit
      rw [nextNone]
      exact Serves.pure moves.sound (empty rfl)
  | cons value rest =>
      have stored := HeapValue.AllStoredAt.move sound moves _ _ all reachable
      obtain ⟨element, others, isElements, storedHead, storedTail⟩ := stored
      rw [isElements] at isSplit
      cases isSplit with
      | some isHead isTail =>
          obtain ⟨suitsHead, suitsTail⟩ := suits value rest rfl
          rw [nextSome]
          refine (serves_matchPatternsPtr (fun pattern member => ?_) moves.sound
            (.cons suitsHead (.cons suitsTail .nil))
            (.cons ⟨_, isHead, storedHead⟩ (.cons (isTail.holdsValue storedTail) .nil))
            .nil).mono fun _ _ _ _ reports => reports.congr fun bindings => ?_
          · rcases List.mem_cons.mp member with rfl | isLast
            · exact eachHead
            · rw [List.mem_singleton.mp isLast]
              exact eachTail
          · simp only [List.nil_append, exists_eq_right', parts value rest rfl]

theorem findsInstances_cons {head tail : Pattern}
    (eachHead : FindsInstances adts others head) (eachTail : FindsInstances adts others tail) :
    FindsInstances adts others (.cons span head tail) := by
  intro heap image root value sound suits holds
  obtain ⟨values, rfl, suitsParts⟩ := suits.cons
  rw [matchPatternPtr]
  refine serves_headTail rfl (fun headValue tailValue => ?_) eachHead eachTail sound holds
    suitsParts ?_ ?_
  · -- the two patterns one after the other
    rw [matchPatternsPtr]
    refine bind_congr fun first => ?_
    cases first with
    | none => rfl
    | some first =>
        change _ = matchPatternsPtr [tail] [tailValue] (SymbolMap.extend [] first)
        rw [matchPatternsPtr]
        refine bind_congr fun second => ?_
        cases second with
        | none => rfl
        | some second =>
            change _ = matchPatternsPtr [] [] _
            rw [matchPatternsPtr]
  · rintro rfl bindings ⟨⟩
  · rintro value rest rfl bindings
    rw [areInstances_cons_iff]
    constructor
    · rintro ⟨first, _, rfl, isHead, areRest⟩
      obtain ⟨second, _, rfl, isTail, ⟨⟩⟩ := areInstances_cons_iff.mp areRest
      rw [List.append_nil]
      exact .cons isHead isTail
    · intro isInstance
      cases isInstance with
      | cons isHead isTail =>
          have last := AreInstances.cons isTail .nil
          rw [List.append_nil] at last
          exact ⟨_, _, rfl, isHead, last⟩

theorem allFilled_eq_some_iff {Slot : Type} {slots : List (Option Slot)} {found : List Slot} :
    allFilled slots = some found ↔ slots = found.map some := by
  induction slots generalizing found with
  | nil => cases found <;> simp [allFilled]
  | cons slot slots hypothesis =>
      cases slot with
      | none => cases found <;> simp [allFilled]
      | some slot =>
          cases found with
          | nil => simp [allFilled]
          | cons first found => simp [allFilled, hypothesis, and_comm]

/-- The values of the fields of a record are held by the roots of their cells. -/
theorem lookup_of_holdsValues {heap : Heap Code} {image : InternalPtr → InternalPtr}
    {entries : SymbolMap RootedPtr} {values : List HeapValue}
    (holds : List.Forall₂ (HoldsValue heap image) (entries.map Prod.snd) values) (name : Symbol) :
    Option.Rel (HoldsValue heap image) (entries.lookup name)
      (((entries.map Prod.fst).zip values).lookup name) := by
  induction entries generalizing values with
  | nil => exact .none
  | cons entry entries hypothesis =>
      obtain ⟨other, root⟩ := entry
      cases holds with
      | cons isHead areRest =>
          rw [List.map_cons, List.zip_cons_cons, lookup_cons_eq_ite, lookup_cons_eq_ite]
          split
          · exact .some isHead
          · exact hypothesis areRest

theorem optionRel_flip {First Second : Type} {related : First → Second → Prop}
    {first : Option First} {second : Option Second} (rel : Option.Rel related first second) :
    Option.Rel (fun other one => related one other) second first := by
  cases rel with
  | some holds => exact .some holds
  | none => exact .none

theorem exists_forall₂_of_rel {First Second Key : Type} {related : First → Second → Prop}
    {firsts : Key → Option First} {seconds : Key → Option Second} {keys : List Key}
    (rel : ∀ key, Option.Rel related (firsts key) (seconds key)) {found : List First}
    (isFound : keys.map firsts = found.map some) :
    ∃ others, keys.map seconds = others.map some ∧ List.Forall₂ related found others := by
  induction keys generalizing found with
  | nil =>
      obtain rfl := List.map_eq_nil_iff.mp isFound.symm
      exact ⟨[], rfl, .nil⟩
  | cons key keys hypothesis =>
      cases found with
      | nil => cases isFound
      | cons first found =>
          obtain ⟨isFirst, rest⟩ := List.cons.inj isFound
          obtain ⟨others, areOthers, all⟩ := hypothesis rest
          have isRel := rel key
          rw [isFirst] at isRel
          generalize isSecond : seconds key = second at isRel
          cases isRel with
          | some holds => exact ⟨_ :: others, by rw [List.map_cons, isSecond, areOthers]; rfl,
              .cons holds all⟩

theorem findsInstances_dict {fields : List (Symbol × Pattern)}
    (each : ∀ pattern ∈ fields.map Prod.snd, FindsInstances adts others pattern) :
    FindsInstances adts others (.dict span fields) := by
  intro heap image root value sound suits holds
  rw [matchPatternPtr]
  obtain ⟨name, ran, isShape⟩ := holds.exists_typeName
  refine Serves.ask_of_ok rfl ran ?_
  by_cases isDict : name = "dict"
  · subst isDict
    obtain ⟨keys, values, rfl⟩ : ∃ keys values, value = .dict keys values := by
      cases value <;> simp_all [HeapValue.shape]
    obtain ⟨pointer, entries, resolved, found, rfl, all⟩ := holds.dict
    rw [if_neg (fun different => different rfl)]
    refine Serves.ask (fun _ => id) rfl (yields_rootAsDict sound resolved found)
      fun answer later moved moves holdsRoots => ?_
    obtain ⟨sameKeys, holdsRoots⟩ := holdsRoots
    have children : ∀ target ∈ entries.map Prod.snd, heap.Reachable target := fun target member =>
      .child (Heap.reachable_of_resolve resolved) found member
    have values_eq : entries.map (fun entry => heap.valueAt entry.2) =
        (entries.map Prod.snd).map heap.valueAt := by
      rw [List.map_map]
      rfl
    rw [values_eq] at all holdsRoots
    have holdsValues := holdsValues_of_roots sound moves children holdsRoots all
    have rel := lookup_of_holdsValues holdsValues
    rw [sameKeys] at rel
    cases filled : allFilled (fields.map fun field => answer.lookup field.1) with
    | none =>
        refine Serves.pure moves.sound fun bindings isInstance => ?_
        cases isInstance with
        | dict present parts =>
            obtain ⟨roots, areRoots, -⟩ := exists_forall₂_of_rel
              (fun field : Symbol × Pattern => optionRel_flip (rel field.1)) present
            rw [allFilled_eq_some_iff.2 areRoots] at filled
            cases filled
    | some roots =>
        rw [allFilled_eq_some_iff] at filled
        obtain ⟨foundValues, present, holdsFound⟩ :=
          exists_forall₂_of_rel (fun field : Symbol × Pattern => rel field.1) filled
        have parts : ∀ bindings, AreInstances adts (fields.map Prod.snd) foundValues bindings ↔
            IsInstance adts (.dict span fields) (.dict (entries.map Prod.fst) values) bindings := by
          refine fun bindings => ⟨.dict present, fun isInstance => ?_⟩
          cases isInstance with
          | dict presentOther parts =>
              rw [present] at presentOther
              rw [List.map_injective_iff.mpr (Option.some_injective _) presentOther]
              exact parts
        dsimp only
        rw [matchFieldPatternsPtr_eq]
        exact (serves_matchPatternsPtr each moves.sound (suits.dict present) holdsFound .nil).mono
          fun _ _ _ _ reports => reports.parts parts
  · rw [if_pos isDict]
    refine Serves.pure sound fun bindings isInstance => ?_
    cases isInstance
    simp_all [HeapValue.shape]

theorem runtimeCtorMatches_iff {actual expected : Symbol} :
    runtimeCtorMatches actual expected = true ↔ lastSegment actual = lastSegment expected :=
  decide_eq_true_iff

theorem findsInstances_named (prelude : PreludeList adts) (name : NameRef) {patterns : List Pattern}
    (each : ∀ pattern ∈ patterns, FindsInstances adts others pattern) :
    FindsInstances adts others (.named span name patterns) := by
  intro heap image root value sound suits holds
  rw [matchPatternPtr]
  obtain ⟨text, ran, isShape⟩ := holds.exists_typeName
  refine Serves.ask_of_ok rfl ran ?_
  split
  · -- the arguments of a tagged value
    obtain ⟨tag, args, rfl⟩ : ∃ tag args, value = .adt tag args := by
      cases value <;> simp_all [HeapValue.shape]
    obtain ⟨decl, variant, declared, notList, member, names, suitsArgs, plain⟩ := suits.adt
    obtain ⟨pointer, targets, resolved, found, all⟩ := holds.adt
    refine Serves.ask (fun _ => id) rfl (yields_rootAsAdt sound resolved found)
      fun answer later moved moves holdsRoots => ?_
    obtain ⟨actual, roots⟩ := answer
    obtain ⟨isTag, holdsRoots⟩ := holdsRoots
    dsimp only at isTag holdsRoots
    subst isTag
    have children : ∀ target ∈ targets, heap.Reachable target := fun target member =>
      .child (Heap.reachable_of_resolve resolved) found member
    have holdsValues := holdsValues_of_roots sound moves children holdsRoots all
    dsimp only
    by_cases accepted : runtimeCtorMatches actual name.toDottedSymbol = true ∧
        roots.length = patterns.length
    · have isName : actual = lastSegment name.toDottedSymbol :=
        plain.symm.trans (runtimeCtorMatches_iff.1 accepted.1)
      have parts : ∀ bindings, AreInstances adts patterns args bindings ↔
          IsInstance adts (.named span name patterns) (.adt actual args) bindings := by
        intro bindings
        constructor
        · intro parts
          refine .named declared member names (.adt notList ?_) parts
          rw [isName, names.lastSegment_eq]
        · intro isInstance
          cases isInstance with
          | named _ _ _ built parts =>
              cases built
              exact parts
      rw [if_pos accepted]
      exact (serves_matchPatternsPtr each moves.sound (suitsArgs isName) holdsValues .nil).mono
        fun _ _ _ _ reports => reports.parts parts
    · rw [if_neg accepted]
      refine Serves.pure moves.sound fun bindings isInstance => accepted ?_
      cases isInstance with
      | named _ _ namesOther built parts =>
          cases built with
          | adt _ isTag =>
              have sameName := isTag.trans namesOther.lastSegment_eq.symm
              refine ⟨runtimeCtorMatches_iff.2 (plain.trans sameName), ?_⟩
              rw [holdsValues.length_eq, length_of_areInstances parts]
  · -- the head and the tail of a list
    obtain ⟨values, rfl⟩ : ∃ values, value = .list values := by
      cases value <;> simp_all [HeapValue.shape]
    obtain ⟨decl, variant, declared, isList, member, names, kind⟩ := suits.listConstructor prelude
    obtain ⟨elements, lists, -, all⟩ := holds.list
    rw [names.lastSegment_eq]
    rcases kind with ⟨isEmpty, rfl⟩ | ⟨isCons, head, tail, rfl, suitsParts⟩
    · rw [if_pos ⟨isEmpty, List.length_nil⟩]
      refine Serves.ask_of_ok rfl (listLen_ok sound lists) (Serves.pure sound ?_)
      rw [all.length_eq]
      cases values with
      | nil => exact ⟨[], .named declared member names (.empty isList isEmpty) .nil, .nil⟩
      | cons value values =>
          have notEmpty : ¬(value :: values).length = 0 := by simp
          rw [if_neg notEmpty]
          intro bindings isInstance
          cases isInstance with
          | named _ _ namesOther built parts => cases built; cases parts
    · have notEmpty : ¬(lastSegment variant.name = "Empty" ∧ [head, tail].length = 0) := by simp
      have eachHead := each head List.mem_cons_self
      have eachTail := each tail (.tail _ List.mem_cons_self)
      rw [if_neg notEmpty, if_pos ⟨isCons, rfl⟩]
      refine serves_headTail rfl (fun _ _ => rfl) eachHead eachTail sound holds suitsParts ?_ ?_
      · rintro rfl bindings isInstance
        cases isInstance with
        | named _ _ _ built parts => cases built; cases parts
      · rintro value rest rfl bindings
        constructor
        · exact .named declared member names (.cons isList isCons)
        · intro isInstance
          cases isInstance with
          | named _ _ _ built parts =>
              cases built with
              | cons => exact parts
  · -- anything else has no constructor
    refine Serves.pure sound fun bindings isInstance => ?_
    cases isInstance with
    | named _ _ _ built _ => cases built <;> simp_all [HeapValue.shape]

end Patterns

variable (others) in
/-- Every pattern finds its instances. -/
theorem findsInstances (prelude : PreludeList adts) :
    (pattern : Pattern) → FindsInstances adts others pattern
  | .wildcard _ => findsInstances_wildcard
  | .var binder => findsInstances_var binder
  | .named _ name patterns =>
      findsInstances_named prelude name fun pattern _ => findsInstances prelude pattern
  | .tuple _ patterns => findsInstances_tuple fun pattern _ => findsInstances prelude pattern
  | .list _ patterns => findsInstances_list fun pattern _ => findsInstances prelude pattern
  | .cons _ head tail =>
      findsInstances_cons (findsInstances prelude head) (findsInstances prelude tail)
  | .dict _ fields => findsInstances_dict fun pattern _ => findsInstances prelude pattern
termination_by pattern => sizeOf pattern
decreasing_by
  all_goals simp only [Pattern.named.sizeOf_spec, Pattern.tuple.sizeOf_spec,
    Pattern.list.sizeOf_spec, Pattern.cons.sizeOf_spec, Pattern.dict.sizeOf_spec]
  · have smaller := List.sizeOf_lt_of_mem ‹pattern ∈ patterns›
    omega
  · have smaller := List.sizeOf_lt_of_mem ‹pattern ∈ patterns›
    omega
  · have smaller := List.sizeOf_lt_of_mem ‹pattern ∈ patterns›
    omega
  · omega
  · omega
  · obtain ⟨field, member, rfl⟩ := List.mem_map.mp ‹pattern ∈ fields.map Prod.snd›
    have smaller := List.sizeOf_lt_of_mem member
    have part := sizeOf_snd_lt field
    omega

end Matching

end RexLang
