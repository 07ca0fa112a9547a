import Mathlib.Data.Fintype.Card
import RexLang.ListRepresentations

/-!
# What a list denotes

A list cell denotes one sequence of element values, whatever mix of cons cells
and slices it is made of: a byte, or the cell behind a pointer.  A move of the
heap moves what a list denotes.
-/

namespace RexLang

variable {Code : Type}

/-- The value of an element: a byte, or another cell. -/
inductive ElementValue where
  | byte (value : UInt8)
  | cell (pointer : InternalPtr)
deriving DecidableEq

def ElementValue.map (image : InternalPtr → InternalPtr) : ElementValue → ElementValue
  | .byte value => .byte value
  | .cell pointer => .cell (image pointer)

/-- The value behind a pointer. -/
def Heap.valueAt (heap : Heap Code) (pointer : InternalPtr) : ElementValue :=
  match heap.getCellFromPointer pointer with
  | .ok (.u8 value) => .byte value
  | _ => .cell pointer

/-- The cells of an acyclic list, and the values of its elements in order.  An
array has fewer than `2 ^ 63` entries. -/
inductive Denotes (heap : Heap Code) : InternalPtr → List ElementValue → Prop where
  | empty {pointer} (found : heap.getCellFromPointer pointer = .ok .empty) :
      Denotes heap pointer []
  | cons {pointer head tail values} (found : heap.getCellFromPointer pointer = .ok (.cons head tail))
      (rest : Denotes heap tail values) : Denotes heap pointer (heap.valueAt head :: values)
  | slice {pointer start finish elements values}
      (found : heap.getCellFromPointer pointer = .ok (.listSlice start finish elements))
      (backing : heap.getCellFromPointer elements = .ok (.data values))
      (ordered : start ≤ finish) (bounded : finish ≤ values.length)
      (small : values.length < 2 ^ 63) :
      Denotes heap pointer ((subrange values start finish).map heap.valueAt)
  | binarySlice {pointer start finish elements values}
      (found : heap.getCellFromPointer pointer = .ok (.listSlice start finish elements))
      (backing : heap.getCellFromPointer elements = .ok (.binaryData values))
      (ordered : start ≤ finish) (bounded : finish ≤ values.length)
      (small : values.length < 2 ^ 63) :
      Denotes heap pointer ((subrange values start finish).map .byte)

/-- The root of a list that denotes the values. -/
def HoldsList (heap : Heap Code) (root : RootedPtr) (values : List ElementValue) : Prop :=
  ∃ pointer, heap.resolveRuntimeRoot root = .ok pointer ∧ Denotes heap pointer values

/-- The root of an element with the value. -/
def Holds (heap : Heap Code) (root : RootedPtr) (value : ElementValue) : Prop :=
  ∃ pointer, heap.resolveRuntimeRoot root = .ok pointer ∧ heap.valueAt pointer = value

/-! ## Parts of a list of values -/

section Subrange

variable {Item : Type} {values : List Item} {start finish : Nat}

@[simp]
theorem subrange_map {Target : Type} (map : Item → Target) (values : List Item)
    (start finish : Nat) :
    subrange (values.map map) start finish = (subrange values start finish).map map := by
  rw [subrange, subrange, ← List.map_take, List.map_drop]

theorem length_subrange (bounded : finish ≤ values.length) :
    (subrange values start finish).length = finish - start := by
  rw [subrange, List.length_drop, List.length_take, min_eq_left bounded]

theorem getElem?_subrange (index : Nat) :
    (subrange values start finish)[index]? =
      if start + index < finish then values[start + index]? else none := by
  rw [subrange, List.getElem?_drop, List.getElem?_take]

theorem subrange_all (values : List Item) : subrange values 0 values.length = values := by
  rw [subrange, List.take_length, List.drop_zero]

theorem subrange_eq_nil (empty : finish ≤ start) : subrange values start finish = [] :=
  List.drop_eq_nil_of_le ((List.length_take_le _ _).trans empty)

theorem subrange_eq_cons (ordered : start < finish) {value : Item}
    (found : values[start]? = some value) :
    subrange values start finish = value :: subrange values (start + 1) finish := by
  have bound : start < (values.take finish).length := by
    obtain ⟨inValues, -⟩ := List.getElem?_eq_some_iff.mp found
    rw [List.length_take]
    omega
  have same : (values.take finish)[start] = value := by
    rw [List.getElem_take]
    exact (List.getElem?_eq_some_iff.mp found).2
  rw [subrange, subrange, List.drop_eq_getElem_cons bound, same]

theorem mem_subrange {item : Item} (member : item ∈ subrange values start finish) :
    item ∈ values :=
  List.mem_of_mem_take (List.mem_of_mem_drop member)

end Subrange

/-! ## A list denotes one sequence -/

section Denotes

variable {heap : Heap Code} {pointer : InternalPtr} {values : List ElementValue}

theorem Denotes.unique (denotes : Denotes heap pointer values) {other : List ElementValue}
    (denotesOther : Denotes heap pointer other) : other = values := by
  induction denotes generalizing other with
  | empty found => cases denotesOther <;> simp_all
  | cons found rest hypothesis =>
      cases denotesOther with
      | cons foundOther restOther =>
          rw [found] at foundOther
          cases foundOther
          rw [hypothesis restOther]
      | _ => simp_all
  | slice found backing => cases denotesOther <;> simp_all
  | binarySlice found backing => cases denotesOther <;> simp_all

/-- The number of steps a walk takes from a list to its end. -/
inductive WalkSteps (heap : Heap Code) : Nat → InternalPtr → Prop where
  | stop {pointer cell} (found : heap.getCellFromPointer pointer = .ok cell)
      (ends : ∀ head tail, cell ≠ .cons head tail) : WalkSteps heap 0 pointer
  | cons {pointer head tail steps} (found : heap.getCellFromPointer pointer = .ok (.cons head tail))
      (rest : WalkSteps heap steps tail) : WalkSteps heap (steps + 1) pointer

theorem Denotes.exists_walkSteps (denotes : Denotes heap pointer values) :
    ∃ steps, WalkSteps heap steps pointer := by
  induction denotes with
  | empty found => exact ⟨0, .stop found nofun⟩
  | cons found _ hypothesis =>
      obtain ⟨steps, rest⟩ := hypothesis
      exact ⟨steps + 1, .cons found rest⟩
  | slice found => exact ⟨0, .stop found nofun⟩
  | binarySlice found => exact ⟨0, .stop found nofun⟩

theorem WalkSteps.unique {steps others : Nat} (first : WalkSteps heap steps pointer)
    (second : WalkSteps heap others pointer) : steps = others := by
  induction first generalizing others with
  | stop found ends =>
      cases second with
      | stop _ _ => rfl
      | cons foundOther _ =>
          rw [found] at foundOther
          cases foundOther
          exact absurd rfl (ends _ _)
  | cons found _ hypothesis =>
      cases second with
      | stop foundOther ends =>
          rw [found] at foundOther
          cases foundOther
          exact absurd rfl (ends _ _)
      | cons foundOther rest =>
          rw [found] at foundOther
          cases foundOther
          rw [hypothesis rest]

theorem WalkSteps.exists_of_le {steps fewer : Nat} (walk : WalkSteps heap steps pointer)
    (atMost : fewer ≤ steps) : ∃ later, WalkSteps heap fewer later := by
  induction walk with
  | stop found ends =>
      obtain rfl := Nat.le_zero.mp atMost
      exact ⟨_, .stop found ends⟩
  | cons found rest hypothesis =>
      rcases Nat.le_succ_iff.mp atMost with below | rfl
      · exact hypothesis below
      · exact ⟨_, .cons found rest⟩

theorem WalkSteps.exists_slot {steps : Nat} (walk : WalkSteps heap steps pointer) :
    ∃ cell, heap.getCellFromPointer pointer = .ok cell := by
  cases walk with
  | stop found _ => exact ⟨_, found⟩
  | cons found _ => exact ⟨_, found⟩

/-- The cells of a walk are in different slots. -/
theorem WalkSteps.lt_length {steps : Nat} (walk : WalkSteps heap steps pointer) :
    steps < heap.slots.length := by
  have reached : ∀ index : Fin (steps + 1), ∃ later, WalkSteps heap index later :=
    fun index => walk.exists_of_le (Nat.le_of_lt_succ index.isLt)
  choose target walks using reached
  have found : ∀ index, ∃ cell, heap.slots[(target index).index]? =
      some ⟨(target index).generation, some cell⟩ ∧ (target index).heapId = heap.id := by
    intro index
    obtain ⟨cell, found⟩ := (walks index).exists_slot
    obtain ⟨own, inSlot⟩ := Heap.getCellFromPointer_ok_iff.mp found
    exact ⟨cell, inSlot, own⟩
  have injective : Function.Injective fun index => (target index).index := by
    intro first second same
    obtain ⟨cell, inSlot, own⟩ := found first
    obtain ⟨other, inOther, ownOther⟩ := found second
    dsimp only at same
    rw [same, inOther, Option.some.injEq, HeapSlot.mk.injEq] at inSlot
    have sameTarget : target first = target second := by
      cases hFirst : target first
      cases hSecond : target second
      simp_all
    have walkSecond := walks second
    rw [← sameTarget] at walkSecond
    exact Fin.ext ((walks first).unique walkSecond)
  have within : ∀ index, (target index).index < heap.slots.length := by
    intro index
    obtain ⟨cell, inSlot, -⟩ := found index
    exact (List.getElem?_eq_some_iff.mp inSlot).1
  have atMost := Fintype.card_le_of_injective
    (fun index => (⟨_, within index⟩ : Fin heap.slots.length)) fun first second same =>
      injective (congrArg Fin.val same)
  rw [Fintype.card_fin, Fintype.card_fin] at atMost
  exact atMost

theorem WalkSteps.lt_walkLimit {steps : Nat} (walk : WalkSteps heap steps pointer) :
    steps < heap.walkLimit :=
  Nat.lt_succ_of_lt walk.lt_length

theorem WalkSteps.of_cons {steps : Nat} (walk : WalkSteps heap steps pointer)
    {head tail : InternalPtr} (found : heap.getCellFromPointer pointer = .ok (.cons head tail)) :
    ∃ fewer, steps = fewer + 1 ∧ WalkSteps heap fewer tail := by
  cases walk with
  | stop foundOther ends =>
      rw [found] at foundOther
      cases foundOther
      exact absurd rfl (ends _ _)
  | cons foundOther walk =>
      rw [found] at foundOther
      cases foundOther
      exact ⟨_, rfl, walk⟩

/-- The length of a list on a sound heap is a machine word. -/
theorem Denotes.length_lt (denotes : Denotes heap pointer values) (sound : heap.Sound) :
    values.length < 2 ^ 64 := by
  have bounded : ∀ {pointer values}, Denotes heap pointer values → ∀ steps,
      WalkSteps heap steps pointer → values.length < steps + 2 ^ 63 := by
    intro pointer values denotes
    induction denotes with
    | empty found =>
        intro steps _
        rw [List.length_nil]
        omega
    | cons found rest hypothesis =>
        intro steps walk
        obtain ⟨fewer, rfl, walkTail⟩ := walk.of_cons found
        have shorter := hypothesis fewer walkTail
        rw [List.length_cons]
        omega
    | slice found backing ordered bounded small =>
        intro steps _
        rw [List.length_map, length_subrange bounded]
        omega
    | binarySlice found backing ordered bounded small =>
        intro steps _
        rw [List.length_map, length_subrange bounded]
        omega
  obtain ⟨steps, walk⟩ := denotes.exists_walkSteps
  have length := bounded denotes steps walk
  have slots := walk.lt_length
  have size := sound.size
  omega

end Denotes

/-! ## Moves -/

section Moves

variable {heap next : Heap Code} {image after : InternalPtr → InternalPtr}

@[simp]
theorem ElementValue.map_map (value : ElementValue) :
    (value.map image).map after = value.map (after ∘ image) := by
  cases value <;> rfl

@[simp]
theorem ElementValue.map_id (value : ElementValue) : value.map id = value := by
  cases value <;> rfl

theorem Heap.valueAt_eq_byte_iff {pointer : InternalPtr} {value : UInt8} :
    heap.valueAt pointer = .byte value ↔ heap.getCellFromPointer pointer = .ok (.u8 value) := by
  rw [Heap.valueAt]
  split
  · next other found => simp [found]
  · next other => simp_all

theorem Heap.valueAt_of_cell {pointer : InternalPtr} {cell : Cell Code InternalPtr}
    (found : heap.getCellFromPointer pointer = .ok cell) (other : ∀ value, cell ≠ .u8 value) :
    heap.valueAt pointer = .cell pointer := by
  rw [Heap.valueAt, found]
  cases cell <;> first | rfl | exact absurd rfl (other _)

theorem Moves.valueAt (moves : Moves heap next image) (sound : heap.Sound)
    {pointer : InternalPtr} (reachable : heap.Reachable pointer) :
    next.valueAt (image pointer) = (heap.valueAt pointer).map image := by
  obtain ⟨cell, found⟩ := sound.valid pointer reachable
  have foundNext := moves.cells pointer cell reachable found
  cases cell with
  | u8 value =>
      rw [Heap.valueAt_eq_byte_iff.2 found]
      exact Heap.valueAt_eq_byte_iff.2 foundNext
  | closure value =>
      rw [Heap.valueAt_of_cell found nofun]
      rw [Cell.map_closure] at foundNext
      exact Heap.valueAt_of_cell foundNext nofun
  | dict values =>
      rw [Heap.valueAt_of_cell found nofun]
      rw [Cell.map_dict] at foundNext
      exact Heap.valueAt_of_cell foundNext nofun
  | _ =>
      rw [Heap.valueAt_of_cell found nofun]
      rw [Cell.map_eq] at foundNext
      exact Heap.valueAt_of_cell foundNext nofun

/-- The values of a part of an array. -/
theorem Moves.valueAt_subrange (moves : Moves heap next image) (sound : heap.Sound)
    {backing : InternalPtr} {pointers : List InternalPtr} (reachable : heap.Reachable backing)
    (found : heap.getCellFromPointer backing = .ok (.data pointers)) (start finish : Nat) :
    (subrange (pointers.map image) start finish).map next.valueAt =
      ((subrange pointers start finish).map heap.valueAt).map (·.map image) := by
  rw [subrange_map, List.map_map, List.map_map]
  exact List.map_congr_left fun pointer member =>
    moves.valueAt sound (.child reachable found (mem_subrange member))

theorem Denotes.move {pointer : InternalPtr} {values : List ElementValue}
    (denotes : Denotes heap pointer values) (moves : Moves heap next image) (sound : heap.Sound)
    (reachable : heap.Reachable pointer) :
    Denotes next (image pointer) (values.map (·.map image)) := by
  induction denotes with
  | empty found => exact .empty (moves.cells _ _ reachable found)
  | cons found rest hypothesis =>
      rw [List.map_cons, ← moves.valueAt sound (.child reachable found List.mem_cons_self)]
      exact .cons (moves.cells _ _ reachable found)
        (hypothesis (.child reachable found (.tail _ List.mem_cons_self)))
  | @slice pointer start finish elements pointers found backing ordered bounded small =>
      have reachableBacking := Heap.Reachable.child reachable found List.mem_cons_self
      rw [← moves.valueAt_subrange sound reachableBacking backing]
      have backingNext := moves.cells _ _ reachableBacking backing
      rw [Cell.map_data] at backingNext
      rw [← List.length_map image] at bounded small
      exact .slice (moves.cells _ _ reachable found) backingNext ordered bounded small
  | binarySlice found backing ordered bounded small =>
      rw [List.map_map]
      exact .binarySlice (moves.cells _ _ reachable found)
        (moves.cells _ _ (.child reachable found List.mem_cons_self) backing) ordered bounded small

theorem HoldsList.move {root : RootedPtr} {values : List ElementValue}
    (lists : HoldsList heap root values) (moves : Moves heap next image) (sound : heap.Sound) :
    HoldsList next root (values.map (·.map image)) := by
  obtain ⟨pointer, resolved, denotes⟩ := lists
  exact ⟨_, moves.roots _ _ resolved,
    denotes.move moves sound (Heap.reachable_of_resolve resolved)⟩

theorem Holds.move {root : RootedPtr} {value : ElementValue} (holds : Holds heap root value)
    (moves : Moves heap next image) (sound : heap.Sound) : Holds next root (value.map image) := by
  obtain ⟨pointer, resolved, rfl⟩ := holds
  exact ⟨_, moves.roots _ _ resolved, moves.valueAt sound (Heap.reachable_of_resolve resolved)⟩

end Moves

end RexLang
