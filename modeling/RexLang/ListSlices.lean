import RexLang.ListViews

/-!
# Slices and tails

A slice of an array is a list of the values between its bounds, and bounds are
accepted exactly where they are in order and within the array.  The head and the
tail of a list are its first value and a list of the others.
-/

namespace RexLang

open Scope

variable {Code : Type} {heap : Heap Code} {root : RootedPtr} {values : List ElementValue}

/-- A root of an array with the values. -/
inductive HoldsArray (heap : Heap Code) (root : RootedPtr) : List ElementValue → Prop where
  | data {pointer pointers} (resolved : heap.resolveRuntimeRoot root = .ok pointer)
      (found : heap.getCellFromPointer pointer = .ok (.data pointers))
      (small : pointers.length < 2 ^ 63) : HoldsArray heap root (pointers.map heap.valueAt)
  | binaryData {pointer bytes} (resolved : heap.resolveRuntimeRoot root = .ok pointer)
      (found : heap.getCellFromPointer pointer = .ok (.binaryData bytes))
      (small : bytes.length < 2 ^ 63) : HoldsArray heap root (bytes.map .byte)

theorem HoldsArray.move {next : Heap Code} {image : InternalPtr → InternalPtr}
    (array : HoldsArray heap root values) (moves : Moves heap next image) (sound : heap.Sound) :
    HoldsArray next root (values.map (·.map image)) := by
  cases array with
  | @data pointer pointers resolved found small =>
      have reachable := Heap.reachable_of_resolve resolved
      have foundNext := moves.cells _ _ reachable found
      rw [Cell.map_data] at foundNext
      have same := moves.valueAt_subrange sound reachable found 0 pointers.length
      rw [subrange_all, ← List.length_map image, subrange_all] at same
      rw [← same]
      rw [← List.length_map image] at small
      exact .data (moves.roots _ _ resolved) foundNext small
  | binaryData resolved found small =>
      rw [List.map_map]
      exact .binaryData (moves.roots _ _ resolved)
        (moves.cells _ _ (Heap.reachable_of_resolve resolved) found) small

/-- The length that the bounds of a slice are checked against. -/
theorem HoldsArray.exists_backingLen (array : HoldsArray heap root values) :
    ∃ pointer cell, heap.resolveRuntimeRoot root = .ok pointer ∧
      heap.getCellFromPointer pointer = .ok cell ∧
      listSliceBackingLen cell = .ok values.length := by
  cases array with
  | data resolved found =>
      refine ⟨_, _, resolved, found, ?_⟩
      rw [List.length_map]
      rfl
  | binaryData resolved found =>
      refine ⟨_, _, resolved, found, ?_⟩
      rw [List.length_map]
      rfl

/-- A slice cell over an array. -/
theorem HoldsArray.denotes {pointer elements : InternalPtr} {start finish : Nat}
    (array : HoldsArray heap root values) (resolved : heap.resolveRuntimeRoot root = .ok elements)
    (found : heap.getCellFromPointer pointer = .ok (.listSlice start finish elements))
    (ordered : start ≤ finish) (bounded : finish ≤ values.length) :
    Denotes heap pointer (subrange values start finish) := by
  cases array with
  | data resolvedOther backing small =>
      rw [resolved] at resolvedOther
      cases resolvedOther
      rw [List.length_map] at bounded
      rw [subrange_map]
      exact .slice found backing ordered bounded small
  | binaryData resolvedOther backing small =>
      rw [resolved] at resolvedOther
      cases resolvedOther
      rw [List.length_map] at bounded
      rw [subrange_map]
      exact .binarySlice found backing ordered bounded small

theorem yields_allocRootEmpty (sound : heap.Sound) :
    Yields heap allocRootEmpty fun rooted next _ => HoldsList next rooted [] := by
  have noChildren : ∀ child ∈ (Cell.empty : Cell Code InternalPtr).pointers,
      heap.Reachable child := by simp [Cell.pointers]
  refine (yields_allocReference sound noChildren).mono fun rooted next image _ allocated => ?_
  obtain ⟨target, resolved, found⟩ := allocated
  exact ⟨target, resolved, .empty found⟩

/-- Bounds in order and within the array give the list of the values between
them. -/
theorem yields_allocRootListSlice (sound : heap.Sound) (array : HoldsArray heap root values)
    {start finish : Nat} (ordered : start ≤ finish) (bounded : finish ≤ values.length) :
    Yields heap (allocRootListSlice start finish root) fun rooted next image =>
      HoldsList next rooted ((subrange values start finish).map (·.map image)) := by
  obtain ⟨pointer, cell, resolved, found, length⟩ := array.exists_backingLen
  refine StateAction.yields_bind_of_ok (pointer_ok resolved) ?_
  refine StateAction.yields_bind_of_ok (read_ok (congrArg some (cellAt_ok found))) ?_
  rw [lift_bind_ok length, lift_bind_ok (validateListSliceBounds_ok_iff.mpr ⟨ordered, bounded⟩)]
  split
  · next same =>
      rw [subrange_eq_nil same.ge]
      exact yields_allocRootEmpty sound
  · have children : ∀ child ∈ (Cell.listSlice start finish pointer : Cell Code _).pointers,
        heap.Reachable child := by
      intro child member
      obtain rfl := List.mem_singleton.mp member
      exact Heap.reachable_of_resolve resolved
    refine (yields_allocReference sound children).mono fun rooted next image moves allocated => ?_
    obtain ⟨target, resolvedRoot, foundSlice⟩ := allocated
    rw [← subrange_map]
    refine ⟨target, resolvedRoot, (array.move moves sound).denotes (moves.roots _ _ resolved)
      foundSlice ordered ?_⟩
    rw [List.length_map]
    exact bounded

/-- Any other bounds are refused. -/
theorem refused_allocRootListSlice (array : HoldsArray heap root values) {start finish : Nat}
    (outside : ¬(start ≤ finish ∧ finish ≤ values.length)) :
    Refused heap (allocRootListSlice start finish root) := by
  obtain ⟨pointer, cell, resolved, found, length⟩ := array.exists_backingLen
  cases checked : validateListSliceBounds values.length start finish with
  | ok => exact absurd (validateListSliceBounds_ok_iff.mp checked) outside
  | error error =>
      refine ⟨error, heap, ?_⟩
      rw [allocRootListSlice, StateAction.bind_of_ok (pointer_ok resolved),
        read_bind_ok (congrArg some (cellAt_ok found)), lift_bind_ok length]
      exact lift_bind_error checked _

/-! ## Head and tail -/

/-- The head of a list before it has a root of its own. -/
inductive HoldsHead (heap : Heap Code) : ListRootElement → ElementValue → Prop where
  | rootedPtr {rooted value} (holds : Holds heap rooted value) :
      HoldsHead heap (.rootedPtr rooted) value
  | u8 {value} : HoldsHead heap (.u8 value) (.byte value)

/-- A head, and a list or an array for the other values. -/
inductive HeadAndRest (heap : Heap Code) :
    Option (ListRootElement × Option (Nat × Nat) × RootedPtr) → List ElementValue → Prop where
  | none : HeadAndRest heap none []
  | list {head tail value values} (isHead : HoldsHead heap head value)
      (isTail : HoldsList heap tail values) :
      HeadAndRest heap (some (head, none, tail)) (value :: values)
  | array {head elements start finish value array} (isHead : HoldsHead heap head value)
      (isArray : HoldsArray heap elements array) (ordered : start ≤ finish)
      (bounded : finish ≤ array.length) :
      HeadAndRest heap (some (head, some (start, finish), elements))
        (value :: subrange array start finish)

/-- The first value of a list, and a list of the others. -/
inductive SplitOf (heap : Heap Code) :
    Option (RootedPtr × RootedPtr) → List ElementValue → Prop where
  | none : SplitOf heap none []
  | some {head tail value values} (isHead : Holds heap head value)
      (isTail : HoldsList heap tail values) : SplitOf heap (some (head, tail)) (value :: values)

theorem yields_listSliceHeadElement (sound : heap.Sound) (array : HoldsArray heap root values)
    {start finish : Nat} (ordered : start < finish) (bounded : finish ≤ values.length)
    {value : ElementValue} (isFirst : values[start]? = some value) :
    Yields heap (listSliceHeadElement root start finish) fun head next image =>
      ∃ element, head = some element ∧ HoldsHead next element (value.map image) := by
  rw [listSliceHeadElement, if_neg (by omega)]
  cases array with
  | data resolved found =>
      rw [List.length_map] at bounded
      rw [List.getElem?_map] at isFirst
      obtain ⟨target, inPointers, rfl⟩ := Option.map_eq_some_iff.mp isFirst
      refine StateAction.yields_bind_of_ok (getCellFromRootedPtr_ok resolved found) ?_
      dsimp only
      rw [lift_bind_ok (validateListSliceBounds_ok_iff.mpr ⟨ordered.le, bounded⟩), inPointers]
      have reachable := Heap.Reachable.child (Heap.reachable_of_resolve resolved) found
        (List.mem_of_getElem? inPointers)
      exact (yields_root sound reachable).map fun rooted next image _ holds =>
        ⟨.rootedPtr rooted, rfl, .rootedPtr holds⟩
  | binaryData resolved found =>
      rw [List.length_map] at bounded
      rw [List.getElem?_map] at isFirst
      obtain ⟨byte, inBytes, rfl⟩ := Option.map_eq_some_iff.mp isFirst
      refine StateAction.yields_bind_of_ok (getCellFromRootedPtr_ok resolved found) ?_
      dsimp only
      rw [lift_bind_ok (validateListSliceBounds_ok_iff.mpr ⟨ordered.le, bounded⟩), inBytes]
      exact StateAction.yields_pure (.refl sound) ⟨.u8 byte, rfl, .u8⟩

/-- The head of a slice with the bounds of its tail, after the array has a root
of its own. -/
theorem yields_sliceHeadAndRest (sound : heap.Sound) (array : HoldsArray heap root values)
    {start finish : Nat} (ordered : start ≤ finish) (bounded : finish ≤ values.length) :
    Yields heap (do
      match ← listSliceHeadElement root start finish with
      | none => return none
      | some head => return some (head, some (start + 1, finish), root))
      fun split next image => HeadAndRest next split ((subrange values start finish).map (·.map image)) := by
  rcases ordered.eq_or_lt with rfl | ordered
  · rw [listSliceHeadElement, if_pos le_rfl, subrange_eq_nil le_rfl]
    exact StateAction.yields_pure (.refl sound) .none
  · have inValues : start < values.length := by omega
    have isFirst : values[start]? = some values[start] := List.getElem?_eq_getElem inValues
    rw [subrange_eq_cons ordered isFirst]
    refine (yields_listSliceHeadElement sound array ordered bounded isFirst).andThen
      fun head later image moves isHead => ?_
    obtain ⟨element, rfl, holds⟩ := isHead
    refine StateAction.yields_pure (.refl moves.sound) ?_
    have rest := HeadAndRest.array holds (array.move moves sound) ordered
      (by rw [List.length_map]; exact bounded)
    rw [subrange_map] at rest
    exact rest

theorem yields_listHeadAndRest (sound : heap.Sound) (lists : HoldsList heap root values) :
    Yields heap (listHeadAndRest root) fun split next image =>
      HeadAndRest next split (values.map (·.map image)) := by
  obtain ⟨pointer, resolved, denotes⟩ := lists
  have reachable := Heap.reachable_of_resolve resolved
  cases denotes with
  | empty found =>
      refine StateAction.yields_bind_of_ok (getCellFromRootedPtr_ok resolved found) ?_
      exact StateAction.yields_pure (.refl sound) .none
  | @cons _ head tail values found rest =>
      refine StateAction.yields_bind_of_ok (getCellFromRootedPtr_ok resolved found) ?_
      have reachableHead := Heap.Reachable.child reachable found List.mem_cons_self
      have reachableTail := Heap.Reachable.child reachable found (.tail _ List.mem_cons_self)
      obtain ⟨headRoot, later, ranHead, moves, resolvedHead⟩ := root_ok sound reachableHead
      obtain ⟨tailRoot, last, ranTail, movesLast, resolvedTail⟩ :=
        root_ok moves.sound (moves.reachable reachableTail)
      refine yields_of_ran ranHead moves (yields_of_ran ranTail movesLast ?_)
      have both := moves.trans movesLast
      exact StateAction.yields_pure (.refl movesLast.sound) (.list
        (.rootedPtr ⟨_, movesLast.roots _ _ resolvedHead, both.valueAt sound reachableHead⟩)
        ⟨_, resolvedTail, rest.move both sound reachableTail⟩)
  | @slice _ start finish elements pointers found backing ordered bounded small =>
      refine StateAction.yields_bind_of_ok (getCellFromRootedPtr_ok resolved found) ?_
      have reachableArray := Heap.Reachable.child reachable found List.mem_cons_self
      obtain ⟨arrayRoot, later, ran, moves, resolvedArray⟩ := root_ok sound reachableArray
      have foundNext := moves.cells _ _ reachableArray backing
      rw [Cell.map_id] at foundNext
      have same := moves.valueAt_subrange sound reachableArray backing start finish
      rw [List.map_id, ← subrange_map] at same
      simp only [ElementValue.map_id, List.map_id'] at same
      rw [← same]
      refine yields_of_ran ran moves (yields_sliceHeadAndRest moves.sound
        (.data resolvedArray foundNext small) ordered ?_)
      rw [List.length_map]
      exact bounded
  | @binarySlice _ start finish elements bytes found backing ordered bounded small =>
      refine StateAction.yields_bind_of_ok (getCellFromRootedPtr_ok resolved found) ?_
      have reachableArray := Heap.Reachable.child reachable found List.mem_cons_self
      obtain ⟨arrayRoot, later, ran, moves, resolvedArray⟩ := root_ok sound reachableArray
      rw [← subrange_map]
      refine yields_of_ran ran moves (yields_sliceHeadAndRest moves.sound
        (.binaryData resolvedArray (moves.cells _ _ reachableArray backing) small) ordered ?_)
      rw [List.length_map]
      exact bounded

theorem yields_rootListElement (sound : heap.Sound) {head : ListRootElement}
    {value : ElementValue} (isHead : HoldsHead heap head value) :
    Yields heap (rootListElement head) fun rooted next image =>
      Holds next rooted (value.map image) := by
  cases isHead with
  | rootedPtr holds =>
      refine StateAction.yields_pure (.refl sound) ?_
      rw [ElementValue.map_id]
      exact holds
  | u8 => exact yields_allocRootU8 sound _

/-- A list is split where its values are. -/
theorem yields_listHeadTail (sound : heap.Sound) (lists : HoldsList heap root values) :
    Yields heap (listHeadTail root) fun split next image =>
      SplitOf next split (values.map (·.map image)) := by
  refine (yields_listHeadAndRest sound lists).andThen fun split later image moves isSplit => ?_
  generalize moved : values.map (·.map image) = target at isSplit
  have composes : ∀ after : InternalPtr → InternalPtr,
      values.map (·.map (after ∘ image)) = target.map (·.map after) := by
    intro after
    rw [← moved, List.map_map]
    simp [Function.comp_def]
  simp only [composes]
  cases isSplit with
  | none => exact StateAction.yields_pure (.refl moves.sound) .none
  | list isHead isTail =>
      refine (yields_rootListElement moves.sound isHead).map fun rooted last after movesLast holds => ?_
      exact .some holds (isTail.move movesLast moves.sound)
  | @array _ _ _ _ value array isHead isArray ordered bounded =>
      refine (yields_rootListElement moves.sound isHead).andThen
        fun rooted last after movesLast holds => ?_
      refine (yields_allocRootListSlice movesLast.sound (isArray.move movesLast moves.sound)
        ordered (by rw [List.length_map]; exact bounded)).map
        fun rest final ending movesFinal isRest => ?_
      have kept := holds.move movesFinal movesLast.sound
      rw [ElementValue.map_map] at kept
      rw [subrange_map, List.map_map] at isRest
      simp only [Function.comp_def, ElementValue.map_map] at isRest
      exact .some kept isRest

end RexLang
