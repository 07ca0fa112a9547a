import RexLang.HeapRequests

/-!
# Values stored in the heap

What a cell stands for, down to bytes, scalars and functions, whatever cells its
lists are made of.  A move of the heap leaves the values and moves their leaves.
-/

namespace RexLang

variable {Code : Type}

/-! ## Values -/

inductive LeafKind where
  | scalar (id : BuiltinTypeId)
  | callable
deriving DecidableEq

/-- The kind of a cell without parts that a pattern can look at.  A byte has no cell
of its own in an array of bytes. -/
def Cell.leafKind {Ptr : Type} : Cell Code Ptr → Option LeafKind
  | .bool _ => some (.scalar .bool)
  | .u16 _ => some (.scalar .u16)
  | .u32 _ => some (.scalar .u32)
  | .u64 _ => some (.scalar .u64)
  | .i8 _ => some (.scalar .i8)
  | .i16 _ => some (.scalar .i16)
  | .i32 _ => some (.scalar .i32)
  | .i64 _ => some (.scalar .i64)
  | .f32 _ => some (.scalar .f32)
  | .f64 _ => some (.scalar .f64)
  | .char _ => some (.scalar .char)
  | .string _ => some (.scalar .string)
  | .uuid _ => some (.scalar .uuid)
  | .hash _ => some (.scalar .hash)
  | .dateTime _ => some (.scalar .dateTime)
  | .closure _ | .native _ | .overloaded _ => some .callable
  | _ => none

/-- A value, with the pointers of its leaves. -/
inductive HeapValue where
  | byte (value : UInt8)
  | leaf (kind : LeafKind) (pointer : InternalPtr)
  | tuple (elems : List HeapValue)
  | list (elems : List HeapValue)
  | dict (keys : List Symbol) (values : List HeapValue)
  | adt (tag : Symbol) (args : List HeapValue)

namespace HeapValue

mutual

/-- The element is the value, with its leaves at the images of their pointers. -/
def StoredAt (heap : Heap Code) (image : InternalPtr → InternalPtr) :
    HeapValue → ElementValue → Prop
  | .byte value, element => element = .byte value
  | .leaf kind pointer, element =>
      element = .cell (image pointer) ∧
        ∃ cell, heap.getCellFromPointer (image pointer) = .ok cell ∧ cell.leafKind = some kind
  | .tuple elems, element =>
      ∃ pointer targets, element = .cell pointer ∧
        heap.getCellFromPointer pointer = .ok (.tuple targets) ∧
        AllStoredAt heap image elems (targets.map heap.valueAt)
  | .list elems, element =>
      ∃ pointer elements, element = .cell pointer ∧ Denotes heap pointer elements ∧
        AllStoredAt heap image elems elements
  | .dict keys values, element =>
      ∃ pointer entries, element = .cell pointer ∧
        heap.getCellFromPointer pointer = .ok (.dict entries) ∧ entries.map Prod.fst = keys ∧
        AllStoredAt heap image values (entries.map fun entry => heap.valueAt entry.2)
  | .adt tag args, element =>
      ∃ pointer targets, element = .cell pointer ∧
        heap.getCellFromPointer pointer = .ok (.adt tag targets) ∧
        AllStoredAt heap image args (targets.map heap.valueAt)

def AllStoredAt (heap : Heap Code) (image : InternalPtr → InternalPtr) :
    List HeapValue → List ElementValue → Prop
  | [], elements => elements = []
  | value :: values, elements =>
      ∃ element rest, elements = element :: rest ∧ StoredAt heap image value element ∧
        AllStoredAt heap image values rest

end

end HeapValue

/-! ## Reachable elements -/

/-- The cell of the element is reachable. -/
def ElementValue.ReachableIn (heap : Heap Code) : ElementValue → Prop
  | .byte _ => True
  | .cell pointer => heap.Reachable pointer

section Reachable

variable {heap next : Heap Code} {image after : InternalPtr → InternalPtr}
  {root : RootedPtr} {element : ElementValue}

theorem ElementValue.ReachableIn.move (reachable : element.ReachableIn heap)
    (moves : Moves heap next after) : (element.map after).ReachableIn next := by
  cases element with
  | byte value => exact trivial
  | cell pointer => exact moves.reachable reachable

theorem Heap.eq_of_valueAt {pointer target : InternalPtr}
    (isCell : heap.valueAt pointer = .cell target) : pointer = target := by
  rw [Heap.valueAt] at isCell
  split at isCell
  · cases isCell
  · cases isCell
    rfl

theorem Heap.reachableIn_valueAt {pointer : InternalPtr} (reachable : heap.Reachable pointer) :
    (heap.valueAt pointer).ReachableIn heap := by
  cases isValue : heap.valueAt pointer with
  | byte value => exact trivial
  | cell target => exact Heap.eq_of_valueAt isValue ▸ reachable

theorem Heap.reachableIn_map_valueAt {targets : List InternalPtr}
    (reachable : ∀ target ∈ targets, heap.Reachable target) :
    ∀ element ∈ targets.map heap.valueAt, element.ReachableIn heap := by
  intro element member
  obtain ⟨target, inside, rfl⟩ := List.mem_map.mp member
  exact Heap.reachableIn_valueAt (reachable target inside)

theorem Holds.resolve_cell {pointer : InternalPtr} (holds : Holds heap root (.cell pointer)) :
    heap.resolveRuntimeRoot root = .ok pointer := by
  obtain ⟨target, resolved, isCell⟩ := holds
  rw [resolved, Heap.eq_of_valueAt isCell]

theorem Holds.reachableIn (holds : Holds heap root element) : element.ReachableIn heap := by
  obtain ⟨target, resolved, rfl⟩ := holds
  exact Heap.reachableIn_valueAt (Heap.reachable_of_resolve resolved)

theorem Denotes.reachableIn {pointer : InternalPtr} {elements : List ElementValue}
    (denotes : Denotes heap pointer elements) (reachable : heap.Reachable pointer) :
    ∀ element ∈ elements, element.ReachableIn heap := by
  induction denotes with
  | empty found => simp
  | cons found rest hypothesis =>
      intro element member
      rcases List.mem_cons.mp member with rfl | later
      · exact Heap.reachableIn_valueAt (.child reachable found List.mem_cons_self)
      · exact hypothesis (.child reachable found (.tail _ List.mem_cons_self)) element later
  | slice found backing =>
      intro element member
      obtain ⟨target, inside, rfl⟩ := List.mem_map.mp member
      exact Heap.reachableIn_valueAt (.child (.child reachable found List.mem_cons_self) backing
        (mem_subrange inside))
  | binarySlice found backing =>
      intro element member
      obtain ⟨byte, -, rfl⟩ := List.mem_map.mp member
      exact trivial

theorem Denotes.valueAt {pointer : InternalPtr} {elements : List ElementValue}
    (denotes : Denotes heap pointer elements) : heap.valueAt pointer = .cell pointer := by
  cases denotes with
  | empty found | cons found | slice found | binarySlice found =>
      exact Heap.valueAt_of_cell found nofun

theorem Moves.map_valueAt (moves : Moves heap next after) (sound : heap.Sound)
    {targets : List InternalPtr} (reachable : ∀ target ∈ targets, heap.Reachable target) :
    (targets.map after).map next.valueAt = (targets.map heap.valueAt).map (·.map after) := by
  rw [List.map_map, List.map_map]
  exact List.map_congr_left fun target member => moves.valueAt sound (reachable target member)

end Reachable

/-! ## Moves of stored values -/

namespace Cell

variable {Ptr Target : Type}

theorem map_tuple (map : Ptr → Target) (values : List Ptr) :
    (tuple values : Cell Code Ptr).map map = tuple (values.map map) := by
  rw [map_eq, pointers, rebuild]

theorem map_adt (map : Ptr → Target) (tag : Symbol) (args : List Ptr) :
    (adt tag args : Cell Code Ptr).map map = adt tag (args.map map) := by
  rw [map_eq, pointers, rebuild]

theorem leafKind_map (map : Ptr → Target) (cell : Cell Code Ptr) :
    (cell.map map).leafKind = cell.leafKind := by
  cases cell with
  | closure value =>
      rw [map_closure]
      rfl
  | dict values =>
      rw [map_dict]
      rfl
  | _ =>
      rw [map_eq]
      rfl

end Cell

namespace HeapValue

section Moves

variable {heap next : Heap Code} {image after : InternalPtr → InternalPtr}

mutual

theorem StoredAt.move (sound : heap.Sound) (moves : Moves heap next after) :
    (value : HeapValue) → (element : ElementValue) → value.StoredAt heap image element →
      element.ReachableIn heap → value.StoredAt next (after ∘ image) (element.map after)
  | .byte value, _, stored, _ => by
      cases stored
      rfl
  | .leaf kind pointer, _, stored, reachable => by
      obtain ⟨rfl, cell, found, isKind⟩ := stored
      refine ⟨rfl, _, moves.cells _ _ reachable found, ?_⟩
      rw [Cell.leafKind_map]
      exact isKind
  | .tuple elems, _, stored, reachable => by
      obtain ⟨pointer, targets, rfl, found, all⟩ := stored
      have children : ∀ target ∈ targets, heap.Reachable target := fun target member =>
        .child reachable found member
      have foundNext := moves.cells _ _ reachable found
      rw [Cell.map_tuple] at foundNext
      refine ⟨_, _, rfl, foundNext, ?_⟩
      rw [moves.map_valueAt sound children]
      exact AllStoredAt.move sound moves elems _ all (Heap.reachableIn_map_valueAt children)
  | .list elems, _, stored, reachable => by
      obtain ⟨pointer, elements, rfl, denotes, all⟩ := stored
      refine ⟨_, _, rfl, denotes.move moves sound reachable, ?_⟩
      exact AllStoredAt.move sound moves elems _ all (denotes.reachableIn reachable)
  | .dict keys values, _, stored, reachable => by
      obtain ⟨pointer, entries, rfl, found, sameKeys, all⟩ := stored
      have children : ∀ target ∈ entries.map Prod.snd, heap.Reachable target :=
        fun target member => .child reachable found member
      have foundNext := moves.cells _ _ reachable found
      rw [Cell.map_dict] at foundNext
      refine ⟨_, _, rfl, foundNext, ?_, ?_⟩
      · rw [← sameKeys, List.map_map]
        rfl
      · have values_eq (entries : SymbolMap InternalPtr) (valueAt : InternalPtr → ElementValue) :
            entries.map (fun entry => valueAt entry.2) = (entries.map Prod.snd).map valueAt := by
          rw [List.map_map]
          rfl
        have kept := AllStoredAt.move sound moves values _ all
          (values_eq entries heap.valueAt ▸ Heap.reachableIn_map_valueAt children)
        rw [values_eq, ← moves.map_valueAt sound children, List.map_map, List.map_map] at kept
        rw [values_eq, List.map_map, List.map_map]
        exact kept
  | .adt tag args, _, stored, reachable => by
      obtain ⟨pointer, targets, rfl, found, all⟩ := stored
      have children : ∀ target ∈ targets, heap.Reachable target := fun target member =>
        .child reachable found member
      have foundNext := moves.cells _ _ reachable found
      rw [Cell.map_adt] at foundNext
      refine ⟨_, _, rfl, foundNext, ?_⟩
      rw [moves.map_valueAt sound children]
      exact AllStoredAt.move sound moves args _ all (Heap.reachableIn_map_valueAt children)

theorem AllStoredAt.move (sound : heap.Sound) (moves : Moves heap next after) :
    (values : List HeapValue) → (elements : List ElementValue) →
      AllStoredAt heap image values elements →
      (∀ element ∈ elements, element.ReachableIn heap) →
      AllStoredAt next (after ∘ image) values (elements.map (·.map after))
  | [], _, stored, _ => by
      cases stored
      rfl
  | value :: values, _, stored, reachable => by
      obtain ⟨element, rest, rfl, isHead, areRest⟩ := stored
      rw [List.forall_mem_cons] at reachable
      exact ⟨_, _, rfl, StoredAt.move sound moves value element isHead reachable.1,
        AllStoredAt.move sound moves values rest areRest reachable.2⟩

end

end Moves

end HeapValue

end RexLang
