import RexLang.ListWalks

/-!
# Views of a list

What the operations of a root scope answer about a list, by the values that it
denotes: its elements, its items by their index, its head and tail, and slices of
its array.
-/

namespace RexLang

open Scope

variable {Code : Type} {heap : Heap Code} {root : RootedPtr} {values : List ElementValue}

/-- The action ends with an error. -/
def Refused {Result : Type} (heap : Heap Code) (action : Scope Code Result) : Prop :=
  ∃ error next, action heap = some (.error error, next)

theorem lift_bind_ok {First Second : Type} {outcome : Except MemoryError First} {value : First}
    (found : outcome = .ok value) (next : First → Scope Code Second) :
    ((liftM outcome : Scope Code First) >>= next) = next value := by
  rw [found]
  rfl

theorem lift_bind_error {First Second : Type} {outcome : Except MemoryError First}
    {error : MemoryError} (failed : outcome = .error error) (next : First → Scope Code Second) :
    ((liftM outcome : Scope Code First) >>= next) heap = some (.error error, heap) := by
  rw [failed]
  rfl

theorem read_bind_ok {First Second : Type} {run : Heap Code → ExceptT MemoryError Option First}
    {value : First} (ran : run heap = some (.ok value)) (next : First → Scope Code Second) :
    (StateAction.read run >>= next) heap = next value heap :=
  StateAction.bind_of_ok (read_ok ran)

/-! ## Length and bytes -/

theorem listLen_ok (sound : heap.Sound) (lists : HoldsList heap root values) :
    listLen root heap = some (.ok values.length, heap) := by
  obtain ⟨pointer, resolved, denotes⟩ := lists
  rw [listLen, StateAction.bind_of_ok (pointer_ok resolved)]
  exact read_ok (listLenFromPointer_ok sound denotes)

theorem rootAsBinaryList_collects (sound : heap.Sound) (lists : HoldsList heap root values) :
    ∃ result, rootAsBinaryList root heap = some (result, heap) ∧
      ∀ bytes, result = .ok bytes ↔ values = bytes.map .byte := by
  obtain ⟨pointer, resolved, denotes⟩ := lists
  obtain ⟨result, ran, collects⟩ := collectListU8_collects sound denotes
  refine ⟨result, ?_, collects⟩
  rw [rootAsBinaryList, StateAction.bind_of_ok (pointer_ok resolved)]
  exact congrArg (Option.map fun outcome => (outcome, heap)) ran

/-! ## Elements -/

/-- The elements with the roots of their pointers. -/
inductive Prepared (heap : Heap Code) :
    List ListElement → List RootedPtr → List ElementValue → Prop where
  | nil : Prepared heap [] [] []
  | internalPtr {pointer rooted value elements roots values} (holds : Holds heap rooted value)
      (rest : Prepared heap elements roots values) :
      Prepared heap (.internalPtr pointer :: elements) (rooted :: roots) (value :: values)
  | u8 {value elements roots values} (rest : Prepared heap elements roots values) :
      Prepared heap (.u8 value :: elements) roots (.byte value :: values)

theorem Prepared.move {next : Heap Code} {image : InternalPtr → InternalPtr}
    {elements : List ListElement} {roots : List RootedPtr}
    (prepared : Prepared heap elements roots values) (moves : Moves heap next image)
    (sound : heap.Sound) : Prepared next elements roots (values.map (·.map image)) := by
  induction prepared with
  | nil => exact .nil
  | internalPtr holds _ hypothesis => exact .internalPtr (holds.move moves sound) hypothesis
  | u8 _ hypothesis => exact .u8 hypothesis

/-- The roots of the pointers are those of the elements. -/
theorem prepared_of_roots {elements : List ListElement} {roots : List RootedPtr}
    (resolved : List.Forall₂ (fun rooted target => heap.resolveRuntimeRoot rooted = .ok target)
      roots (elementPointers elements)) :
    Prepared heap elements roots (elements.map heap.elementValue) := by
  induction elements generalizing roots with
  | nil =>
      cases resolved
      exact .nil
  | cons element elements hypothesis =>
      cases element with
      | internalPtr pointer =>
          cases resolved with
          | cons head rest => exact .internalPtr ⟨pointer, head, rfl⟩ (hypothesis rest)
      | u8 value => exact .u8 (hypothesis resolved)

theorem yields_allocRootU8 (sound : heap.Sound) (value : UInt8) :
    Yields heap (allocRootU8 value) fun rooted next _ => Holds next rooted (.byte value) := by
  have noChildren : ∀ child ∈ (Cell.u8 value : Cell Code InternalPtr).pointers,
      heap.Reachable child := by simp [Cell.pointers]
  refine (yields_allocReference sound noChildren).mono fun rooted next image _ allocated => ?_
  obtain ⟨target, resolved, found⟩ := allocated
  exact ⟨target, resolved, Heap.valueAt_eq_byte_iff.mpr found⟩

theorem yields_materializeLoop (sound : heap.Sound) {elements : List ListElement}
    {roots : List RootedPtr} (prepared : Prepared heap elements roots values) :
    Yields heap (materializeLoop elements roots) fun results next image =>
      List.Forall₂ (Holds next) results (values.map (·.map image)) := by
  induction elements generalizing heap roots values with
  | nil =>
      cases prepared
      exact StateAction.yields_pure (.refl sound) .nil
  | cons element elements hypothesis =>
      cases prepared with
      | internalPtr holds rest =>
          exact (hypothesis sound rest).map fun results next image moves all =>
            .cons (holds.move moves sound) all
      | u8 rest =>
          refine (yields_allocRootU8 sound _).andThen fun rooted later image moves holds => ?_
          refine (hypothesis moves.sound (rest.move moves sound)).map
            fun results last after movesLast all => ?_
          rw [List.map_map] at all
          simp only [Function.comp_def, ElementValue.map_map] at all
          have kept := holds.move movesLast moves.sound
          exact .cons kept all

/-- Rooting pointers leaves the values of the elements. -/
theorem ElementsOf.map_elementValue {pointer : InternalPtr} {elements : List ListElement}
    {later : Heap Code} (found : ElementsOf heap pointer elements values) (sound : heap.Sound)
    (reachable : heap.Reachable pointer) (moves : Moves heap later id) :
    elements.map later.elementValue = values := by
  rw [← found.values]
  refine List.map_congr_left fun element member => ?_
  cases element with
  | internalPtr child =>
      have same := moves.valueAt sound (found.reachable reachable child member)
      rw [ElementValue.map_id] at same
      exact same
  | u8 value => rfl

theorem ElementsOf.reachable_pointers {pointer : InternalPtr} {elements : List ListElement}
    (found : ElementsOf heap pointer elements values) (reachable : heap.Reachable pointer) :
    ∀ child ∈ elementPointers elements, heap.Reachable child := by
  intro child member
  obtain ⟨element, isElement, same⟩ := List.mem_filterMap.mp member
  cases element with
  | internalPtr other =>
      cases same
      exact found.reachable reachable child isElement
  | u8 value => cases same

theorem yields_materializeListElements (sound : heap.Sound) {pointer : InternalPtr}
    (reachable : heap.Reachable pointer) {elements : List ListElement}
    (found : ElementsOf heap pointer elements values) :
    Yields heap (materializeListElements elements) fun results next image =>
      List.Forall₂ (Holds next) results (values.map (·.map image)) := by
  obtain ⟨roots, later, ran, moves, resolved⟩ :=
    mapM_root_ok sound (found.reachable_pointers reachable)
  refine yields_of_ran ran moves (yields_materializeLoop moves.sound ?_)
  rw [← found.map_elementValue sound reachable moves]
  exact prepared_of_roots resolved

/-- Every element is collected with a root. -/
theorem yields_rootAsList (sound : heap.Sound) (lists : HoldsList heap root values) :
    Yields heap (rootAsList root) fun results next image =>
      List.Forall₂ (Holds next) results (values.map (·.map image)) := by
  obtain ⟨pointer, resolved, denotes⟩ := lists
  obtain ⟨elements, ran, found⟩ := listElementsFromPointer_ok denotes
  refine StateAction.yields_bind_of_ok (pointer_ok resolved) ?_
  refine StateAction.yields_bind_of_ok (read_ok ran) ?_
  exact yields_materializeListElements sound (Heap.reachable_of_resolve resolved) found

/-! ## Items -/

/-- Items whose elements are the values. -/
inductive ItemsOf (heap : Heap Code) : ListItems RootedPtr → List ElementValue → Prop where
  | slice {elements start finish backing pointers}
      (resolved : heap.resolveRuntimeRoot elements = .ok backing)
      (found : heap.getCellFromPointer backing = .ok (.data pointers))
      (ordered : start ≤ finish) (bounded : finish ≤ pointers.length)
      (small : pointers.length < 2 ^ 63) :
      ItemsOf heap (.slice elements start finish)
        ((subrange pointers start finish).map heap.valueAt)
  | binarySlice {elements start finish bytes} (length : bytes.length = finish - start) :
      ItemsOf heap (.binarySlice elements start finish bytes) (bytes.map .byte)
  | pointers {roots values} (holds : List.Forall₂ (Holds heap) roots values) :
      ItemsOf heap (.pointers roots) values

theorem ItemsOf.len_eq {items : ListItems RootedPtr} (isItems : ItemsOf heap items values) :
    items.len = values.length := by
  cases isItems with
  | slice resolved found ordered bounded small =>
      rw [List.length_map, length_subrange bounded, ListItems.len]
  | binarySlice length => rw [List.length_map, length, ListItems.len]
  | pointers holds => exact holds.length_eq

theorem forall₂_holds_move {next : Heap Code} {image : InternalPtr → InternalPtr}
    {roots : List RootedPtr} (holds : List.Forall₂ (Holds heap) roots values)
    (moves : Moves heap next image) (sound : heap.Sound) :
    List.Forall₂ (Holds next) roots (values.map (·.map image)) := by
  induction holds with
  | nil => exact .nil
  | cons head _ hypothesis => exact .cons (head.move moves sound) hypothesis

theorem ItemsOf.move {next : Heap Code} {image : InternalPtr → InternalPtr}
    {items : ListItems RootedPtr} (isItems : ItemsOf heap items values)
    (moves : Moves heap next image) (sound : heap.Sound) :
    ItemsOf next items (values.map (·.map image)) := by
  cases isItems with
  | @slice elements start finish backing pointers resolved found ordered bounded small =>
      have reachable := Heap.reachable_of_resolve resolved
      have foundNext := moves.cells _ _ reachable found
      rw [Cell.map_data] at foundNext
      rw [← moves.valueAt_subrange sound reachable found]
      rw [← List.length_map image] at bounded small
      exact .slice (moves.roots _ _ resolved) foundNext ordered bounded small
  | binarySlice length =>
      rw [List.map_map]
      exact .binarySlice length
  | pointers holds => exact .pointers (forall₂_holds_move holds moves sound)

theorem exists_getElem?_of_forall₂ {First Second : Type} {related : First → Second → Prop}
    {origins : List First} {targets : List Second} (all : List.Forall₂ related origins targets)
    {index : Nat} {target : Second} (found : targets[index]? = some target) :
    ∃ origin, origins[index]? = some origin ∧ related origin target := by
  induction all generalizing index with
  | nil => cases found
  | @cons origin _ _ _ isRelated _ hypothesis =>
      cases index with
      | zero =>
          cases found
          exact ⟨origin, rfl, isRelated⟩
      | succ index => exact hypothesis found

theorem yields_root (sound : heap.Sound) {target : InternalPtr}
    (reachable : heap.Reachable target) :
    Yields heap (Scope.root target) fun rooted next image =>
      Holds next rooted ((heap.valueAt target).map image) := by
  obtain ⟨rooted, later, ran, moves, resolved⟩ := root_ok sound reachable
  refine .inl ⟨rooted, later, ran, id, moves, target, resolved, ?_⟩
  exact moves.valueAt sound reachable

/-- An item within the bounds is the value at its index. -/
theorem yields_getItem (sound : heap.Sound) {items : ListItems RootedPtr}
    (isItems : ItemsOf heap items values) {index : Nat} {value : ElementValue}
    (found : values[index]? = some value) :
    Yields heap (getItem items index) fun rooted next image =>
      Holds next rooted (value.map image) := by
  cases isItems with
  | @slice elements start finish backing pointers resolved foundData ordered bounded small =>
      rw [List.getElem?_map, getElem?_subrange] at found
      obtain ⟨target, inRange, rfl⟩ := Option.map_eq_some_iff.mp found
      split at inRange
      · next below =>
          rw [getItem, lift_bind_ok (checkedAddUsize_ok (by omega) _), if_neg (by omega)]
          refine StateAction.yields_bind_of_ok (getCellFromRootedPtr_ok resolved foundData) ?_
          rw [lift_bind_ok (show Cell.cellAsData _ = .ok _ from rfl), inRange]
          exact yields_root sound (.child (Heap.reachable_of_resolve resolved) foundData
            (List.mem_of_getElem? inRange))
      · cases inRange
  | @binarySlice elements start finish bytes length =>
      rw [List.getElem?_map] at found
      obtain ⟨byte, inBytes, rfl⟩ := Option.map_eq_some_iff.mp found
      obtain ⟨bound, -⟩ := List.getElem?_eq_some_iff.mp inBytes
      rw [getItem, if_neg (by omega), inBytes]
      exact yields_allocRootU8 sound byte
  | pointers holds =>
      obtain ⟨rooted, inRoots, isValue⟩ := exists_getElem?_of_forall₂ holds found
      rw [getItem, inRoots]
      refine StateAction.yields_pure (.refl sound) ?_
      rw [ElementValue.map_id]
      exact isValue

/-- No item is outside the bounds. -/
theorem refused_getItem {items : ListItems RootedPtr} (isItems : ItemsOf heap items values)
    {index : Nat} (outside : values.length ≤ index) : Refused heap (getItem items index) := by
  rw [← isItems.len_eq] at outside
  cases isItems with
  | @slice elements start finish =>
      rw [ListItems.len] at outside
      rw [getItem]
      by_cases word : start + index < 2 ^ 64
      · rw [lift_bind_ok (checkedAddUsize_ok word _), if_pos (by omega)]
        exact ⟨_, _, rfl⟩
      · exact ⟨_, _, lift_bind_error (if_neg word) _⟩
  | @binarySlice elements start finish =>
      rw [ListItems.len] at outside
      rw [getItem, if_pos outside]
      exact ⟨_, _, rfl⟩
  | pointers =>
      rw [ListItems.len] at outside
      rw [getItem, List.getElem?_eq_none_iff.mpr outside]
      exact ⟨_, _, rfl⟩

theorem listElementsToRootedPtrVec_eq {elements : List ListElement}
    (all : elements.all fun element => element matches .internalPtr _) :
    (listElementsToRootedPtrVec elements : Scope Code _) = (elementPointers elements).mapM Scope.root := by
  induction elements with
  | nil => rfl
  | cons element elements hypothesis =>
      rw [List.all_cons, Bool.and_eq_true] at all
      cases element with
      | internalPtr pointer =>
          rw [listElementsToRootedPtrVec] at hypothesis ⊢
          change _ = (pointer :: elementPointers elements).mapM Scope.root
          rw [List.mapM_cons, List.mapM_cons, hypothesis all.2]
      | u8 value => cases all.1

theorem Prepared.holds {elements : List ListElement} {roots : List RootedPtr}
    (prepared : Prepared heap elements roots values)
    (all : elements.all fun element => element matches .internalPtr _) :
    List.Forall₂ (Holds heap) roots values := by
  induction prepared with
  | nil => exact .nil
  | internalPtr holds _ hypothesis =>
      rw [List.all_cons, Bool.and_eq_true] at all
      exact .cons holds (hypothesis all.2)
  | u8 =>
      rw [List.all_cons, Bool.and_eq_true] at all
      cases all.1

theorem yields_listElementsToRootedPtrVec (sound : heap.Sound) {pointer : InternalPtr}
    (reachable : heap.Reachable pointer) {elements : List ListElement}
    (found : ElementsOf heap pointer elements values)
    (all : elements.all fun element => element matches .internalPtr _) :
    Yields heap (listElementsToRootedPtrVec elements) fun results next image =>
      List.Forall₂ (Holds next) results (values.map (·.map image)) := by
  obtain ⟨roots, later, ran, moves, resolved⟩ :=
    mapM_root_ok sound (found.reachable_pointers reachable)
  rw [listElementsToRootedPtrVec_eq all]
  refine .inl ⟨roots, later, ran, id, moves, ?_⟩
  have holds := (prepared_of_roots resolved).holds all
  rw [found.map_elementValue sound reachable moves] at holds
  simpa using holds

/-- The items of a list are its values, by their index. -/
theorem yields_listItems (sound : heap.Sound) (lists : HoldsList heap root values) :
    Yields heap (listItems root) fun items next image =>
      ItemsOf next items (values.map (·.map image)) := by
  obtain ⟨pointer, resolved, denotes⟩ := lists
  have reachable := Heap.reachable_of_resolve resolved
  obtain ⟨seed, ran, isSeed⟩ := listItemsFromPointer_ok denotes
  refine StateAction.yields_bind_of_ok (pointer_ok resolved) ?_
  refine StateAction.yields_bind_of_ok (read_ok ran) ?_
  cases isSeed with
  | empty same =>
      rw [same]
      exact StateAction.yields_pure (.refl sound) (.pointers .nil)
  | slice edge backing ordered bounded small same =>
      obtain ⟨rooted, later, ranRoot, moves, resolvedRoot⟩ := root_ok sound (edge reachable)
      refine yields_of_ran ranRoot moves (StateAction.yields_pure (.refl moves.sound) ?_)
      have foundNext := moves.cells _ _ (edge reachable) backing
      rw [Cell.map_id] at foundNext
      rw [same, ← moves.valueAt_subrange sound (edge reachable) backing, List.map_id]
      exact .slice resolvedRoot foundNext ordered bounded small
  | binarySlice edge length same =>
      obtain ⟨rooted, later, ranRoot, moves, resolvedRoot⟩ := root_ok sound (edge reachable)
      refine yields_of_ran ranRoot moves (StateAction.yields_pure (.refl moves.sound) ?_)
      rw [same, List.map_map]
      exact .binarySlice length
  | @elements elements found =>
      dsimp only
      split
      · next all =>
          exact (yields_listElementsToRootedPtrVec sound reachable found all).map
            fun _ _ _ _ holds => .pointers holds
      · exact (yields_materializeListElements sound reachable found).map
          fun _ _ _ _ holds => .pointers holds

end RexLang
