import Mathlib.Data.List.Rotate
import RexLang.FallibleResults
import RexLang.HeapCells

/-!
# The heap and its collector

Heap slots with their generations, the table of runtime roots, and the copying
collector, which traces the live cells, assigns them destinations, rewrites
every pointer, and only then replaces the slots.  Errors are the messages of
`EngineError::Internal`; a panic is an error here.
-/

namespace RexLang

variable {Code : Type}

structure InternalPtr where
  heapId : Nat
  index : Nat
  generation : Nat
deriving DecidableEq

structure HeapSlot (Code : Type) where
  generation : Nat
  cell : Option (Cell Code InternalPtr)

/-! ## Runtime roots -/

structure RootSlot where
  generation : Nat
  pointer : Option InternalPtr

/-- `runtime_roots` with `free_runtime_root_list`, the last index pushed first.
The free indices are those of released slots. -/
structure RootTable where
  slots : List RootSlot
  free : List Nat
  free_nodup : free.Nodup
  free_released : ∀ index ∈ free, ∃ slot, slots[index]? = some slot ∧ slot.pointer = none

/-- The stable token of a root. -/
structure RootedPtr where
  heapId : Nat
  slot : Nat
  generation : Nat
deriving DecidableEq

namespace RootTable

/-- `register_runtime_root`: the slot that is taken, with its generation. -/
def register (table : RootTable) (pointer : InternalPtr) : (Nat × Nat) × RootTable :=
  match free : table.free with
  | [] =>
      ((table.slots.length, 0),
        { slots := table.slots ++ [⟨0, some pointer⟩]
          free := []
          free_nodup := List.nodup_nil
          free_released := by simp })
  | index :: rest =>
      ((index, (table.slots[index]?.map RootSlot.generation).getD 0),
        { slots := table.slots.modify index fun slot => { slot with pointer := some pointer }
          free := rest
          free_nodup := (List.nodup_cons.mp (free ▸ table.free_nodup)).2
          free_released := by
            intro other member
            have different : index ≠ other := by
              rintro rfl
              exact (List.nodup_cons.mp (free ▸ table.free_nodup)).1 member
            obtain ⟨slot, found, released⟩ := table.free_released other (free ▸ .tail _ member)
            exact ⟨slot, by simp [different, found], released⟩ })

/-- `unregister_runtime_root`. -/
def unregister (table : RootTable) (index generation : Nat) : RootTable :=
  match found : table.slots[index]? with
  | none => table
  | some slot =>
      if current : slot.generation ≠ generation ∨ slot.pointer = none then table
      else
        { slots := table.slots.modify index fun slot => ⟨(slot.generation + 1) % 2 ^ 64, none⟩
          free := index :: table.free
          free_nodup := by
            refine List.nodup_cons.mpr ⟨fun member => ?_, table.free_nodup⟩
            obtain ⟨other, foundOther, released⟩ := table.free_released index member
            rw [found] at foundOther
            cases foundOther
            exact current (.inr released)
          free_released := by
            intro other member
            by_cases same : index = other
            · subst same
              exact ⟨⟨(slot.generation + 1) % 2 ^ 64, none⟩, by simp [found], rfl⟩
            · obtain ⟨slot, foundOther, released⟩ := table.free_released other
                ((List.mem_cons.mp member).resolve_left (Ne.symm same))
              exact ⟨slot, by simp [same, foundOther], released⟩ }

/-- Rewrites the pointer of a slot that is in use. -/
def relocateSlot (forward : InternalPtr → Except String InternalPtr) (slot : RootSlot) :
    Except String RootSlot :=
  match slot.pointer with
  | none => .ok slot
  | some pointer => do return { slot with pointer := some (← forward pointer) }

/-- The table with every pointer rewritten. -/
def relocate (forward : InternalPtr → Except String InternalPtr) (table : RootTable) :
    Except String RootTable :=
  match relocated : table.slots.mapM (relocateSlot forward) with
  | .error error => .error error
  | .ok slots =>
      .ok { table with
        slots
        free_released := by
          intro index member
          obtain ⟨slot, found, released⟩ := table.free_released index member
          have related := forall₂_of_mapM relocated
          obtain ⟨bound, rfl⟩ := List.getElem?_eq_some_iff.mp found
          have other : index < slots.length := related.length_eq ▸ bound
          have visited := related.get bound other
          simp only [List.get_eq_getElem, relocateSlot, released, Except.ok.injEq] at visited
          exact ⟨slots[index], List.getElem?_eq_getElem other, visited ▸ released⟩ }

end RootTable

/-! ## Randomised destinations -/

/-- The mixer of `randomized_gc_destinations`. -/
def mixRandom (state : UInt64) : UInt64 :=
  let random := (state ^^^ (state >>> 30)) * 0xbf58476d1ce4e5b9
  let random := (random ^^^ (random >>> 27)) * 0x94d049bb133111eb
  random ^^^ (random >>> 31)

/-- `slice::swap`. -/
def swap (values : List Nat) (first second : Nat) : List Nat :=
  match values[first]?, values[second]? with
  | some one, some other => (values.set first other).set second one
  | _, _ => values

/-- The loop of `randomized_gc_destinations` over the indices. -/
def shuffle : List Nat → UInt64 → List Nat → List Nat
  | [], _, destinations => destinations
  | index :: indices, state, destinations =>
      let state := state + 0x9e3779b97f4a7c15
      let swapIndex := (mixRandom state % (UInt64.ofNat index + 1)).toNat
      shuffle indices state (swap destinations index swapIndex)

/-- The positions of the objects that would stay in their old slots. -/
def fixedPositions (destinations oldIndices : List Nat) : List Nat :=
  (List.range destinations.length).filter fun position =>
    destinations[position]? = oldIndices[position]?

/-- Stores values at positions, one after the other. -/
def setAll : List (Nat × Nat) → List Nat → List Nat
  | [], values => values
  | (position, value) :: rest, values => setAll rest (values.set position value)

/-- The repair of accidental fixed points. -/
def repairFixed (destinations oldIndices : List Nat) : List Nat :=
  match fixedPositions destinations oldIndices with
  | [] => destinations
  | [fixed] =>
      if 1 < destinations.length then
        swap destinations fixed ((fixed + 1) % destinations.length)
      else destinations
  | fixed =>
      let fixedDestinations := (fixed.map fun position => destinations[position]?.getD 0).rotate 1
      setAll (fixed.zip fixedDestinations) destinations

def randomizedGcDestinations (oldIndices : List Nat) (completedCollections : Nat) : List Nat :=
  let len := oldIndices.length
  let state := ((UInt64.ofNat completedCollections + 1) * 0x9e3779b97f4a7c15) ^^^
    (UInt64.ofNat len * 0xbf58476d1ce4e5b9)
  repairFixed (shuffle (List.range' 1 (len - 1)).reverse state (List.range len)) oldIndices

/-! ## The heap -/

structure Heap (Code : Type) where
  id : Nat
  slots : List (HeapSlot Code)
  runtimeRoots : RootTable
  nextGcSlotCount : Nat
  extremeStress : Bool
  collectionEpoch : Nat
  deferCollection : Bool

def defaultGcSlotThreshold : Nat := 4096

/-- `GC_EXTREME_STRESS`. -/
def gcExtremeStress : Bool := false

def invalidPointer (heapId index generation : Nat) : String :=
  s!"invalid heap pointer (heap_id={heapId}, index={index}, generation={generation})"

def wrongHeapPointer (pointerHeapId heapId index generation : Nat) : String :=
  s!"heap pointer belongs to different heap (pointer_heap_id={pointerHeapId}, heap_id={heapId}, index={index}, generation={generation})"

/-- `usize` arithmetic that saturates. -/
def saturating (value : Nat) : Nat :=
  min value (2 ^ 64 - 1)

namespace Heap

/-- `Heap::new`. -/
def new (id : Nat) : Heap Code :=
  ⟨id, [], ⟨[], [], List.nodup_nil, by simp⟩, defaultGcSlotThreshold, false, 0, false⟩

def extremeStressEnabled (heap : Heap Code) : Bool :=
  gcExtremeStress || heap.extremeStress

def collectNeeded (heap : Heap Code) : Bool :=
  heap.extremeStressEnabled || decide (heap.nextGcSlotCount ≤ heap.slots.length)

/-- `push_cell`: the pointer of the new cell. -/
def pushCell (cell : Cell Code InternalPtr) (heap : Heap Code) :
    Except String InternalPtr × Heap Code :=
  if heap.slots.length < 2 ^ 32 then
    (.ok ⟨heap.id, heap.slots.length, heap.collectionEpoch⟩,
      { heap with slots := heap.slots ++ [⟨heap.collectionEpoch, some cell⟩] })
  else (.error "heap exhausted: too many slots", heap)

def updateNextGcSlotCount (heap : Heap Code) : Heap Code :=
  let live := heap.slots.length
  let grown := saturating (live + saturating (live * (3 - 2)) / 2)
  let withSlack := saturating (live + defaultGcSlotThreshold)
  { heap with nextGcSlotCount := max (max grown withSlack) defaultGcSlotThreshold }

def getSlotChecked (heap : Heap Code) (pointer : InternalPtr) : Except String (HeapSlot Code) :=
  if pointer.heapId ≠ heap.id then
    .error (wrongHeapPointer pointer.heapId heap.id pointer.index pointer.generation)
  else
    match heap.slots[pointer.index]? with
    | none => .error (invalidPointer heap.id pointer.index pointer.generation)
    | some slot =>
        if slot.generation ≠ pointer.generation ∨ slot.cell.isNone then
          .error (invalidPointer heap.id pointer.index pointer.generation)
        else .ok slot

def getCellFromPointer (heap : Heap Code) (pointer : InternalPtr) :
    Except String (Cell Code InternalPtr) :=
  if pointer.heapId ≠ heap.id then
    .error (wrongHeapPointer pointer.heapId heap.id pointer.index pointer.generation)
  else
    match heap.slots[pointer.index]? with
    | none => .error (invalidPointer heap.id pointer.index pointer.generation)
    | some slot =>
        if slot.generation ≠ pointer.generation then
          .error (invalidPointer heap.id pointer.index pointer.generation)
        else
          match slot.cell with
          | none => .error (invalidPointer heap.id pointer.index pointer.generation)
          | some cell => .ok cell

def overwrite (pointer : InternalPtr) (cell : Cell Code InternalPtr) (heap : Heap Code) :
    Except String Unit × Heap Code :=
  if pointer.heapId ≠ heap.id then
    (.error (wrongHeapPointer pointer.heapId heap.id pointer.index pointer.generation), heap)
  else
    match heap.slots[pointer.index]? with
    | none => (.error (invalidPointer heap.id pointer.index pointer.generation), heap)
    | some slot =>
        if slot.generation ≠ pointer.generation then
          (.error (invalidPointer heap.id pointer.index pointer.generation), heap)
        else
          (.ok (), { heap with
            slots := heap.slots.set pointer.index { slot with cell := some cell } })

/-! ## Runtime roots of a heap -/

def registerRuntimeRoot (pointer : InternalPtr) (heap : Heap Code) : RootedPtr × Heap Code :=
  let ((slot, generation), table) := heap.runtimeRoots.register pointer
  (⟨heap.id, slot, generation⟩, { heap with runtimeRoots := table })

def unregisterRuntimeRoot (root : RootedPtr) (heap : Heap Code) : Heap Code :=
  if root.heapId ≠ heap.id then heap
  else { heap with runtimeRoots := heap.runtimeRoots.unregister root.slot root.generation }

def resolveRuntimeRoot (heap : Heap Code) (root : RootedPtr) : Except String InternalPtr :=
  match heap.runtimeRoots.slots[root.slot]?.bind RootSlot.pointer with
  | some pointer => .ok pointer
  | none => .error "runtime root was released while still in use"

/-! ## Collection -/

/-- The pointers of the roots, in the order of the table. -/
def rootPointers (heap : Heap Code) : List InternalPtr :=
  heap.runtimeRoots.slots.filterMap RootSlot.pointer

/-- The loop of `collect` that traces the live cells.  `seen` has an entry for
each slot. -/
def traceLive (heap : Heap Code) (work : List InternalPtr) (seen : List Bool)
    (live : List (InternalPtr × Cell Code InternalPtr)) :
    Except String (List (InternalPtr × Cell Code InternalPtr)) :=
  match work with
  | [] => .ok live
  | pointer :: work =>
      match heap.getSlotChecked pointer with
      | .error error => .error error
      | .ok slot =>
          match _isSeen : seen[pointer.index]? with
          | none => .error "index out of bounds"
          | some true => traceLive heap work seen live
          | some false =>
              match slot.cell with
              | none => .error (invalidPointer heap.id pointer.index pointer.generation)
              | some cell =>
                  traceLive heap (work ++ cell.tracePointers) (seen.set pointer.index true)
                    (live ++ [(pointer, cell)])
termination_by (seen.count false, work.length)
decreasing_by
  · exact .right _ (by simp)
  · refine .left _ _ ?_
    obtain ⟨bound, isFalse⟩ := List.getElem?_eq_some_iff.mp _isSeen
    have positive : 0 < seen.count false := List.count_pos_iff.mpr (isFalse ▸ List.getElem_mem bound)
    rw [List.count_set bound, isFalse]
    simp only [beq_self_eq_true, ↓reduceIte]
    change seen.count false - 1 + 0 < seen.count false
    omega

/-- The loop of `collect` that fills the forwarding table. -/
def forwardingTable (heap : Heap Code) (nextEpoch : Nat) :
    List ((InternalPtr × Cell Code InternalPtr) × Nat) → List (Option InternalPtr) →
      Except String (List (Option InternalPtr))
  | [], forwarding => .ok forwarding
  | ((pointer, _), destination) :: rest, forwarding =>
      match heap.getSlotChecked pointer with
      | .error error => .error error
      | .ok _ =>
          if destination < 2 ^ 32 then
            forwardingTable heap nextEpoch rest
              (forwarding.set pointer.index (some ⟨heap.id, destination, nextEpoch⟩))
          else .error "heap exhausted: too many slots"

def forwardForGc (heap : Heap Code) (forwarding : List (Option InternalPtr))
    (pointer : InternalPtr) : Except String InternalPtr :=
  match heap.getSlotChecked pointer with
  | .error error => .error error
  | .ok _ =>
      match forwarding[pointer.index]?.join with
      | none => .error "copying GC forwarding pointer missing"
      | some forwarded => .ok forwarded

/-- The loop of `collect` that copies the live cells to their destinations. -/
def copyCells (forward : InternalPtr → Except String InternalPtr) :
    List ((InternalPtr × Cell Code InternalPtr) × Nat) → List (Option (HeapSlot Code)) →
      Except String (List (Option (HeapSlot Code)))
  | [], newSlots => .ok newSlots
  | ((oldPointer, cell), destination) :: rest, newSlots => do
      let cell ← cell.mapPointers forward
      let pointer ← forward oldPointer
      match newSlots[destination]? with
      | none => .error "copying GC destination out of bounds"
      | some (some _) => .error "copying GC assigned a destination twice"
      | some none =>
          copyCells forward rest (newSlots.set destination (some ⟨pointer.generation, some cell⟩))

/-- The destinations of the live cells. -/
def destinations (heap : Heap Code) (live : List (InternalPtr × Cell Code InternalPtr)) :
    List Nat :=
  if heap.extremeStressEnabled then
    randomizedGcDestinations (live.map (·.1.index)) heap.collectionEpoch
  else List.range live.length

/-- The heap after a collection. -/
def collected (heap : Heap Code) : Except String (Heap Code) := do
  let nextEpoch := heap.collectionEpoch + 1
  if 2 ^ 64 ≤ nextEpoch then
    throw "heap collection count exhausted"
  let live ← heap.traceLive heap.rootPointers (List.replicate heap.slots.length false) []
  let entries := live.zip (heap.destinations live)
  let forwarding ← heap.forwardingTable nextEpoch entries (List.replicate heap.slots.length none)
  let runtimeRoots ← heap.runtimeRoots.relocate (heap.forwardForGc forwarding)
  let newSlots ← copyCells (heap.forwardForGc forwarding) entries
    (List.replicate live.length none)
  match newSlots.mapM fun slot => slot with
  | none => throw "copying GC left a destination empty"
  | some slots =>
      return updateNextGcSlotCount { heap with slots, runtimeRoots, collectionEpoch := nextEpoch }

/-- `collect`.  The heap is changed only at the end. -/
def collect (heap : Heap Code) : Except String Unit × Heap Code :=
  match heap.collected with
  | .error error => (.error error, heap)
  | .ok next => (.ok (), next)

/-! ## Allocation -/

def registerAll : List InternalPtr → Heap Code → List RootedPtr × Heap Code
  | [], heap => ([], heap)
  | pointer :: pointers, heap =>
      let (root, heap) := heap.registerRuntimeRoot pointer
      let (roots, heap) := registerAll pointers heap
      (root :: roots, heap)

def unregisterAll : List RootedPtr → Heap Code → Heap Code
  | [], heap => heap
  | root :: roots, heap => unregisterAll roots (heap.unregisterRuntimeRoot root)

/-- The visit that replaces the pointers of the pending cell by the relocated
ones. -/
def nextRelocated (_ : InternalPtr) : StateT (List InternalPtr) (Except String) InternalPtr :=
  fun relocated =>
    match relocated with
    | [] => .error "temporary allocation root count mismatch"
    | pointer :: rest => .ok (pointer, rest)

/-- `alloc_reference`. -/
def allocReference (cell : Cell Code InternalPtr) (heap : Heap Code) :
    Except String InternalPtr × Heap Code :=
  if heap.deferCollection || !heap.collectNeeded then heap.pushCell cell
  else
    let pointers := cell.tracePointers
    match pointers.mapM heap.getSlotChecked with
    | .error error => (.error error, heap)
    | .ok _ =>
        let (roots, heap) := heap.registerAll pointers
        match heap.collect with
        | (.error error, heap) => (.error error, heap.unregisterAll roots)
        | (.ok _, heap) =>
            match roots.mapM heap.resolveRuntimeRoot with
            | .error error => (.error error, heap)
            | .ok relocated =>
                let heap := heap.unregisterAll roots
                match (cell.mapPointers nextRelocated).run relocated with
                | .error error => (.error error, heap)
                | .ok (_, _ :: _) =>
                    (.error "temporary allocation roots were not fully consumed", heap)
                | .ok (cell, []) => heap.pushCell cell

end Heap

end RexLang
