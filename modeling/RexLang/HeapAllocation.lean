import Mathlib.Logic.Relation
import RexLang.HeapCollection

/-!
# Allocation and stale pointers

An allocation that collects roots the pointers of the pending cell for the
collection.  When it fails, the heap is as before, unless the collection
succeeded and left no index.  A pointer of an earlier epoch is rejected by every
later heap.
-/

namespace RexLang

variable {Code : Type}

/-! ## Live roots -/

namespace RootTable

/-- The roots that are in use, by their index: the generation and the pointer. -/
def live (table : RootTable) (index : Nat) : Option (Nat × InternalPtr) :=
  table.slots[index]?.bind fun slot => slot.pointer.map fun pointer => (slot.generation, pointer)

theorem live_of_slot {table : RootTable} {index generation : Nat} {pointer : InternalPtr}
    (found : table.slots[index]? = some ⟨generation, some pointer⟩) :
    table.live index = some (generation, pointer) := by
  simp [live, found]

theorem live_congr {first second : RootTable} {index : Nat}
    (same : first.slots[index]? = second.slots[index]?) : first.live index = second.live index := by
  rw [live, live, same]

/-- Registering takes a slot that is not in use. -/
theorem register_spec (table : RootTable) (pointer : InternalPtr) :
    table.live (table.register pointer).1.1 = none ∧
      (table.register pointer).2.slots[(table.register pointer).1.1]? =
        some ⟨(table.register pointer).1.2, some pointer⟩ ∧
      ∀ other ≠ (table.register pointer).1.1,
        (table.register pointer).2.slots[other]? = table.slots[other]? := by
  rw [register]
  split
  · refine ⟨by simp [live], by simp, fun other different => ?_⟩
    dsimp only at different
    rw [List.getElem?_append]
    split
    · rfl
    · rw [List.getElem?_eq_none_iff.mpr (show table.slots.length ≤ other by omega),
        List.getElem?_eq_none_iff, List.length_singleton]
      omega
  · next index rest free =>
      obtain ⟨⟨generation, inUse⟩, found, released⟩ :=
        table.free_released index (free ▸ .head _)
      cases released
      refine ⟨by simp [live, found], by simp [found], fun other different => ?_⟩
      simp [Ne.symm different]

/-- Unregistering a root releases its slot. -/
theorem unregister_spec {table : RootTable} {index generation : Nat} {pointer : InternalPtr}
    (found : table.slots[index]? = some ⟨generation, some pointer⟩) :
    (table.unregister index generation).live index = none ∧
      ∀ other ≠ index, (table.unregister index generation).slots[other]? = table.slots[other]? := by
  rw [unregister]
  split
  · next missing =>
      rw [found] at missing
      cases missing
  · next slot present =>
      rw [found] at present
      cases present
      simp only [ne_eq, not_true_eq_false, reduceCtorEq, or_self, dif_neg, not_false_eq_true]
      refine ⟨by simp [live, found], fun other different => ?_⟩
      simp [Ne.symm different]

end RootTable

namespace Heap

/-- The cells, the live roots and the epoch are the same. -/
structure Same (heap next : Heap Code) : Prop where
  slots_eq : next.slots = heap.slots
  live_eq : next.runtimeRoots.live = heap.runtimeRoots.live
  epoch_eq : next.collectionEpoch = heap.collectionEpoch

/-- The pointers are registered as roots that were not in use. -/
structure Registered (heap next : Heap Code) (roots : List RootedPtr)
    (pointers : List InternalPtr) : Prop where
  next_eq : next = { heap with runtimeRoots := next.runtimeRoots }
  nodup : (roots.map RootedPtr.slot).Nodup
  fresh : ∀ root ∈ roots, heap.runtimeRoots.live root.slot = none
  own : ∀ root ∈ roots, root.heapId = heap.id
  found : List.Forall₂ (fun root pointer =>
    next.runtimeRoots.slots[root.slot]? = some ⟨root.generation, some pointer⟩) roots pointers
  others : ∀ index ∉ roots.map RootedPtr.slot,
    next.runtimeRoots.slots[index]? = heap.runtimeRoots.slots[index]?

theorem registered_registerAll (heap : Heap Code) (pointers : List InternalPtr) :
    Registered heap (heap.registerAll pointers).2 (heap.registerAll pointers).1 pointers := by
  induction pointers generalizing heap with
  | nil => exact ⟨rfl, .nil, by simp [registerAll], by simp [registerAll], .nil, fun _ _ => rfl⟩
  | cons pointer pointers hypothesis =>
      obtain ⟨freshFirst, foundFirst, othersFirst⟩ := heap.runtimeRoots.register_spec pointer
      have rest := hypothesis (heap.registerRuntimeRoot pointer).2
      rw [registerAll]
      generalize called : heap.registerRuntimeRoot pointer = first at rest
      rw [registerRuntimeRoot] at called
      generalize heap.runtimeRoots.register pointer = registered at *
      obtain ⟨⟨slot, generation⟩, table⟩ := registered
      cases called
      dsimp only at *
      generalize registerAll pointers { heap with runtimeRoots := table } = result at rest ⊢
      obtain ⟨roots, next⟩ := result
      obtain ⟨nextEq, nodup, fresh, own, found, others⟩ := rest
      dsimp only at *
      have notAgain : slot ∉ roots.map RootedPtr.slot := by
        intro member
        obtain ⟨root, isRoot, same⟩ := List.mem_map.mp member
        have free := fresh root isRoot
        rw [same, RootTable.live_of_slot foundFirst] at free
        cases free
      constructor
      · rw [nextEq]
      · exact List.nodup_cons.mpr ⟨notAgain, nodup⟩
      · intro root member
        rcases List.mem_cons.mp member with rfl | member
        · exact freshFirst
        · have different : root.slot ≠ slot := by
            intro same
            exact notAgain (same ▸ List.mem_map_of_mem member)
          rw [← RootTable.live_congr (othersFirst root.slot different)]
          exact fresh root member
      · intro root member
        rcases List.mem_cons.mp member with rfl | member
        · rfl
        · exact own root member
      · exact .cons ((others slot notAgain).trans foundFirst) found
      · intro index absent
        rw [List.map_cons, List.mem_cons, not_or] at absent
        exact (others index absent.2).trans (othersFirst index absent.1)

/-- Unregistering releases the roots and touches no other. -/
theorem unregisterAll_spec {heap : Heap Code} {roots : List RootedPtr}
    (nodup : (roots.map RootedPtr.slot).Nodup) (own : ∀ root ∈ roots, root.heapId = heap.id)
    (found : ∀ root ∈ roots, ∃ pointer,
      heap.runtimeRoots.slots[root.slot]? = some ⟨root.generation, some pointer⟩) :
    heap.unregisterAll roots =
        { heap with runtimeRoots := (heap.unregisterAll roots).runtimeRoots } ∧
      (∀ root ∈ roots, (heap.unregisterAll roots).runtimeRoots.live root.slot = none) ∧
      ∀ index ∉ roots.map RootedPtr.slot,
        (heap.unregisterAll roots).runtimeRoots.slots[index]? = heap.runtimeRoots.slots[index]? := by
  induction roots generalizing heap with
  | nil => exact ⟨rfl, by simp, fun _ _ => rfl⟩
  | cons root roots hypothesis =>
      rw [List.map_cons, List.nodup_cons] at nodup
      obtain ⟨pointer, present⟩ := found root (.head _)
      obtain ⟨released, othersFirst⟩ := RootTable.unregister_spec present
      have firstEq : heap.unregisterRuntimeRoot root =
          { heap with runtimeRoots := heap.runtimeRoots.unregister root.slot root.generation } := by
        rw [unregisterRuntimeRoot, if_neg (not_not.mpr (own root (.head _)))]
      have apart : ∀ other ∈ roots, other.slot ≠ root.slot := by
        intro other member same
        exact nodup.1 (same ▸ List.mem_map_of_mem member)
      rw [unregisterAll, firstEq]
      obtain ⟨nextEq, releasedRest, othersRest⟩ := @hypothesis
        { heap with runtimeRoots := heap.runtimeRoots.unregister root.slot root.generation } nodup.2
        (fun other member => own other (.tail _ member)) fun other member => by
          rw [othersFirst other.slot (apart other member)]
          exact found other (.tail _ member)
      refine ⟨by rw [nextEq], fun other member => ?_, fun index absent => ?_⟩
      · rcases List.mem_cons.mp member with rfl | member
        · rw [RootTable.live_congr (othersRest _ nodup.1)]
          exact released
        · exact releasedRest other member
      · rw [List.map_cons, List.mem_cons, not_or] at absent
        exact (othersRest index absent.2).trans (othersFirst index absent.1)

/-- Registering and unregistering leaves the heap as it was. -/
theorem same_unregisterAll {heap next : Heap Code} {roots : List RootedPtr}
    {pointers : List InternalPtr} (registered : Registered heap next roots pointers) :
    Same heap (next.unregisterAll roots) := by
  obtain ⟨nextEq, nodup, fresh, own, found, others⟩ := registered
  have sameId : next.id = heap.id := by rw [nextEq]
  have inUse : ∀ root ∈ roots, ∃ pointer,
      next.runtimeRoots.slots[root.slot]? = some ⟨root.generation, some pointer⟩ := by
    clear nodup fresh own others
    induction found with
    | nil => simp
    | @cons root pointer roots pointers head _ hypothesis =>
        intro other member
        rcases List.mem_cons.mp member with rfl | member
        · exact ⟨pointer, head⟩
        · exact hypothesis other member
  obtain ⟨unregistered, released, kept⟩ :=
    unregisterAll_spec nodup (fun root member => sameId ▸ own root member) inUse
  refine ⟨?_, ?_, ?_⟩
  · rw [unregistered, nextEq]
  · funext index
    by_cases member : index ∈ roots.map RootedPtr.slot
    · obtain ⟨root, isRoot, rfl⟩ := List.mem_map.mp member
      rw [released root isRoot, fresh root isRoot]
    · exact RootTable.live_congr ((kept index member).trans (others index member))
  · rw [unregistered, nextEq]

/-! ## Allocation -/

/-- The relocated pointers replace those of the pending cell, and none is left. -/
theorem mapPointers_nextRelocated (cell : Cell Code InternalPtr)
    (target : InternalPtr → InternalPtr) :
    (cell.mapPointers nextRelocated).run (cell.pointers.map target) =
      .ok (cell.map target, []) := by
  have consumes : ∀ pointers : List InternalPtr,
      (pointers.mapM nextRelocated).run (pointers.map target) =
        .ok (pointers.map target, []) := by
    intro pointers
    induction pointers with
    | nil => rfl
    | cons pointer pointers hypothesis =>
        rw [List.mapM_cons, StateT.run_bind]
        change ((pointers.mapM nextRelocated >>= fun rest => pure (target pointer :: rest)).run
          (pointers.map target)) = _
        rw [StateT.run_bind, hypothesis]
        rfl
  rw [Cell.mapPointers_eq, StateT.run_bind, consumes, Cell.map_eq]
  rfl

theorem collect_error {heap next : Heap Code} {error : String}
    (failed : heap.collect = (.error error, next)) : next = heap := by
  rw [collect] at failed
  split at failed <;> cases failed
  rfl

theorem collected_of_collect {heap next : Heap Code} (succeeded : heap.collect = (.ok (), next)) :
    heap.collected = .ok next := by
  rw [collect] at succeeded
  split at succeeded
  · cases succeeded
  · next found =>
      cases succeeded
      exact found

theorem pushCell_error {heap next : Heap Code} {cell : Cell Code InternalPtr} {error : String}
    (failed : heap.pushCell cell = (.error error, next)) :
    next = heap ∧ 2 ^ 32 ≤ heap.slots.length := by
  rw [pushCell] at failed
  split at failed
  · cases failed
  · next full =>
      cases failed
      exact ⟨rfl, by omega⟩

/-- After a collection the temporary roots hold the images of the pointers. -/
theorem resolve_registered {heap next collected : Heap Code} {roots : List RootedPtr}
    {pointers : List InternalPtr} {image : InternalPtr → InternalPtr}
    (registered : Registered heap next roots pointers)
    (preserved : Preserved next collected image) :
    roots.mapM collected.resolveRuntimeRoot = .ok (pointers.map image) := by
  have found := registered.found
  clear registered
  induction found with
  | nil => rfl
  | @cons root pointer roots pointers head _ hypothesis =>
      have relocated : collected.resolveRuntimeRoot root = .ok (image pointer) := by
        rw [resolveRuntimeRoot, preserved.roots, List.getElem?_map, head]
        rfl
      rw [List.mapM_cons, relocated, hypothesis]
      rfl

/-- Why an allocation that failed after its collection did so: the collected
heap, without the temporary roots, has no index left. -/
def FullAfterCollection (heap : Heap Code) (cell : Cell Code InternalPtr) (next : Heap Code) :
    Prop :=
  ∃ collected, (heap.registerAll cell.tracePointers).2.collect = (.ok (), collected) ∧
    next = collected.unregisterAll (heap.registerAll cell.tracePointers).1 ∧
    2 ^ 32 ≤ next.slots.length

theorem same_refl (heap : Heap Code) : Same heap heap := ⟨rfl, rfl, rfl⟩

theorem allocReference_error {heap next : Heap Code} {cell : Cell Code InternalPtr} {error : String}
    (failed : heap.allocReference cell = (.error error, next)) :
    Same heap next ∨ heap.FullAfterCollection cell next := by
  rw [allocReference] at failed
  split at failed
  · obtain ⟨rfl, -⟩ := pushCell_error failed
    exact .inl (same_refl next)
  · dsimp only at failed
    split at failed
    · cases failed
      exact .inl (same_refl heap)
    · have registered := registered_registerAll heap cell.tracePointers
      split at failed
      · next collectFailed =>
          rw [collect_error collectFailed] at failed
          cases failed
          exact .inl (same_unregisterAll registered)
      · next collected succeeded =>
          obtain ⟨live, forwarding, table, slots, collects⟩ :=
            collects_of_collected (collected_of_collect succeeded)
          have preserved := preserved_of_collects collects
          have resolved := resolve_registered registered preserved
          have replaced := mapPointers_nextRelocated cell
            ((heap.registerAll cell.tracePointers).2.image forwarding)
          rw [← Cell.tracePointers_eq] at replaced
          rw [resolved] at failed
          simp only [replaced] at failed
          obtain ⟨rfl, full⟩ := pushCell_error failed
          exact .inr ⟨collected, succeeded, rfl, full⟩

/-! ## Stale pointers -/

/-- The operations on a heap. -/
inductive HeapStep : Heap Code → Heap Code → Prop where
  | pushCell (heap cell) : HeapStep heap (heap.pushCell cell).2
  | overwrite (heap pointer cell) : HeapStep heap (heap.overwrite pointer cell).2
  | registerRuntimeRoot (heap pointer) : HeapStep heap (heap.registerRuntimeRoot pointer).2
  | unregisterRuntimeRoot (heap root) : HeapStep heap (heap.unregisterRuntimeRoot root)
  | collect (heap) : HeapStep heap heap.collect.2
  | allocReference (heap cell) : HeapStep heap (heap.allocReference cell).2
  | setExtremeStress (heap enabled) : HeapStep heap { heap with extremeStress := enabled }
  | setDeferCollection (heap deferred) : HeapStep heap { heap with deferCollection := deferred }

abbrev HeapSteps : Heap Code → Heap Code → Prop :=
  Relation.ReflTransGen HeapStep

/-- No slot is older than the epoch. -/
def Since (epoch : Nat) (heap : Heap Code) : Prop :=
  epoch ≤ heap.collectionEpoch ∧ ∀ slot ∈ heap.slots, epoch ≤ slot.generation

theorem since_pushCell {epoch : Nat} {heap : Heap Code} (since : Since epoch heap)
    (cell : Cell Code InternalPtr) : Since epoch (heap.pushCell cell).2 := by
  rw [pushCell]
  split
  · refine ⟨since.1, fun slot member => ?_⟩
    rcases List.mem_append.mp member with member | member
    · exact since.2 slot member
    · cases List.mem_singleton.mp member
      exact since.1
  · exact since

theorem since_collect {epoch : Nat} {heap : Heap Code} (since : Since epoch heap) :
    Since epoch heap.collect.2 := by
  rw [collect]
  split
  · exact since
  · next next succeeded =>
      obtain ⟨live, forwarding, table, slots, collects⟩ := collects_of_collected succeeded
      obtain ⟨-, -, -, -, slots, epochEq, -⟩ := preserved_of_collects collects
      have later : epoch ≤ next.collectionEpoch := by
        have := since.1
        omega
      exact ⟨later, fun slot member => (slots slot member).1 ▸ later⟩

theorem since_registerAll {epoch : Nat} {heap : Heap Code} (since : Since epoch heap)
    (pointers : List InternalPtr) : Since epoch (heap.registerAll pointers).2 := by
  have registered := registered_registerAll heap pointers
  rw [registered.next_eq]
  exact since

theorem since_unregisterAll {epoch : Nat} {heap : Heap Code} (since : Since epoch heap)
    (roots : List RootedPtr) : Since epoch (heap.unregisterAll roots) := by
  induction roots generalizing heap with
  | nil => exact since
  | cons root roots hypothesis =>
      rw [unregisterAll]
      refine hypothesis ?_
      rw [unregisterRuntimeRoot]
      split <;> exact since

theorem since_allocReference {epoch : Nat} {heap : Heap Code} (since : Since epoch heap)
    (cell : Cell Code InternalPtr) : Since epoch (heap.allocReference cell).2 := by
  rw [allocReference]
  split
  · exact since_pushCell since cell
  · dsimp only
    split
    · exact since
    · have registered := since_registerAll since cell.tracePointers
      have collected := since_collect registered
      split
      · next found =>
          rw [found] at collected
          exact since_unregisterAll collected _
      · next found =>
          rw [found] at collected
          split
          · exact collected
          · split
            · exact since_unregisterAll collected _
            · exact since_unregisterAll collected _
            · exact since_pushCell (since_unregisterAll collected _) _

theorem since_step {epoch : Nat} {heap next : Heap Code} (since : Since epoch heap)
    (step : HeapStep heap next) : Since epoch next := by
  cases step with
  | pushCell cell => exact since_pushCell since cell
  | overwrite pointer cell =>
      rw [overwrite]
      split
      · exact since
      · split
        · exact since
        · next slot found =>
            split
            · exact since
            · refine ⟨since.1, fun other member => ?_⟩
              rcases List.mem_or_eq_of_mem_set member with member | rfl
              · exact since.2 other member
              · exact since.2 slot (List.mem_of_getElem? found)
  | registerRuntimeRoot pointer => exact since
  | unregisterRuntimeRoot root =>
      rw [unregisterRuntimeRoot]
      split <;> exact since
  | collect => exact since_collect since
  | allocReference cell => exact since_allocReference since cell
  | setExtremeStress enabled => exact since
  | setDeferCollection deferred => exact since

/-- The accesses reject the pointer. -/
structure Rejects (heap : Heap Code) (pointer : InternalPtr) : Prop where
  getSlotChecked : ∃ error, heap.getSlotChecked pointer = .error error
  getCellFromPointer : ∃ error, heap.getCellFromPointer pointer = .error error
  overwrite : ∀ cell, ∃ error, heap.overwrite pointer cell = (.error error, heap)

theorem rejects_of_since {epoch : Nat} {heap : Heap Code} (since : Since epoch heap)
    {pointer : InternalPtr} (stale : pointer.generation < epoch) : Rejects heap pointer := by
  have generations : ∀ slot, heap.slots[pointer.index]? = some slot →
      slot.generation ≠ pointer.generation := by
    intro slot found
    have later := since.2 slot (List.mem_of_getElem? found)
    omega
  constructor
  · rw [Heap.getSlotChecked]
    split
    · exact ⟨_, rfl⟩
    · split
      · exact ⟨_, rfl⟩
      · next slot found =>
          rw [if_pos (.inl (generations slot found))]
          exact ⟨_, rfl⟩
  · rw [Heap.getCellFromPointer]
    split
    · exact ⟨_, rfl⟩
    · split
      · exact ⟨_, rfl⟩
      · next slot found =>
          rw [if_pos (generations slot found)]
          exact ⟨_, rfl⟩
  · intro cell
    rw [Heap.overwrite]
    split
    · exact ⟨_, rfl⟩
    · split
      · exact ⟨_, rfl⟩
      · next slot found =>
          rw [if_pos (generations slot found)]
          exact ⟨_, rfl⟩

/-- After a collection the pointers of the earlier epochs are rejected for good. -/
theorem rejects_of_preserved {heap next later : Heap Code} {image : InternalPtr → InternalPtr}
    (preserved : Preserved heap next image) (steps : HeapSteps next later)
    {pointer : InternalPtr} (stale : pointer.generation ≤ heap.collectionEpoch) :
    Rejects later pointer := by
  have start : Since (heap.collectionEpoch + 1) next := by
    rw [← preserved.epoch_eq]
    exact ⟨le_rfl, fun slot member => (preserved.slots slot member).1.ge⟩
  have since : Since (heap.collectionEpoch + 1) later := by
    induction steps with
    | refl => exact start
    | tail _ step hypothesis => exact since_step hypothesis step
  exact rejects_of_since since (by omega)

/-! ## The collector -/

/-- A collection that succeeds preserves the reachable graph and outdates every
older pointer.  One that fails changes nothing, and neither does an allocation
that fails, unless its collection succeeded and the heap is still full. -/
theorem collect_preserves (heap : Heap Code) :
    (∀ next, heap.collect = (.ok (), next) → ∃ image, Preserved heap next image ∧
      ∀ later pointer, HeapSteps next later → pointer.generation ≤ heap.collectionEpoch →
        Rejects later pointer) ∧
    (∀ error next, heap.collect = (.error error, next) → Same heap next) ∧
    ∀ cell error next, heap.allocReference cell = (.error error, next) →
      Same heap next ∨ heap.FullAfterCollection cell next := by
  refine ⟨?_, ?_, ?_⟩
  · intro next succeeded
    obtain ⟨live, forwarding, table, slots, collects⟩ :=
      collects_of_collected (collected_of_collect succeeded)
    have preserved := preserved_of_collects collects
    exact ⟨heap.image forwarding, preserved,
      fun later pointer steps stale => rejects_of_preserved preserved steps stale⟩
  · intro error next failed
    rw [collect_error failed]
    exact same_refl heap
  · exact fun cell error next failed => allocReference_error failed

/-- A heap whose slots are all roots. -/
def rooted (size : Nat) : Heap Unit where
  id := 0
  slots := List.replicate size ⟨0, some .empty⟩
  runtimeRoots :=
    { slots := (List.range size).map fun index => ⟨0, some ⟨0, index, 0⟩⟩
      free := []
      free_nodup := List.nodup_nil
      free_released := by simp }
  nextGcSlotCount := defaultGcSlotThreshold
  extremeStress := false
  collectionEpoch := 0
  deferCollection := false

theorem mem_rootPointers_rooted {size : Nat} {pointer : InternalPtr} :
    pointer ∈ (rooted size).rootPointers ↔ ∃ index < size, ⟨0, index, 0⟩ = pointer := by
  simp [rootPointers, rooted]

theorem getCellFromPointer_rooted {size index : Nat} (bound : index < size) :
    (rooted size).getCellFromPointer ⟨0, index, 0⟩ = .ok .empty := by
  rw [getCellFromPointer_ok_iff]
  exact ⟨rfl, by simp [rooted, bound]⟩

theorem exists_index_of_reachable_rooted {size : Nat} {pointer : InternalPtr}
    (reachable : (rooted size).Reachable pointer) : ∃ index < size, ⟨0, index, 0⟩ = pointer := by
  induction reachable with
  | root isRoot => exact mem_rootPointers_rooted.1 isRoot
  | child _ found edge hypothesis =>
      obtain ⟨index, bound, rfl⟩ := hypothesis
      rw [getCellFromPointer_rooted bound] at found
      cases found
      cases edge

/-- Every cell of such a heap survives. -/
theorem exists_collect_rooted {size : Nat} (small : size ≤ 2 ^ 32) :
    ∃ next, (rooted size).collect = (.ok (), next) ∧ size ≤ next.slots.length ∧
      next.collectionEpoch = 1 := by
  obtain ⟨next, collected⟩ : ∃ next, (rooted size).collected = .ok next := by
    refine exists_collected (fun pointer reachable => ?_) (by simp [rooted]) (by simpa [rooted])
    obtain ⟨index, bound, rfl⟩ := exists_index_of_reachable_rooted reachable
    exact ⟨.empty, getCellFromPointer_rooted bound⟩
  obtain ⟨live, forwarding, table, slots, collects⟩ := collects_of_collected collected
  have liveCells := liveCells_of_traceLive (traced_start _) collects.traced
  have preserved := preserved_of_collects collects
  have length : slots.length = live.length := by
    obtain ⟨length, -⟩ := copyCells_spec collects.copied
    simpa using length
  have allLive : List.range size ⊆ live.map (·.1.index) := by
    intro index member
    have isRoot := mem_rootPointers_rooted.2 ⟨index, List.mem_range.mp member, rfl⟩
    obtain ⟨entry, isLive, same⟩ := List.mem_map.mp
      ((liveCells.reachable_iff _).mp (.root isRoot))
    exact List.mem_map.mpr ⟨entry, isLive, congrArg InternalPtr.index same⟩
  have atLeast := (List.nodup_range.subperm allLive).length_le
  rw [List.length_range, List.length_map] at atLeast
  refine ⟨next, by rw [collect, collected], ?_, preserved.epoch_eq⟩
  have nextSlots : next.slots = slots := by rw [collects.next_eq]; rfl
  rw [nextSlots, length]
  exact atLeast

theorem allocReference_rooted {size : Nat} (threshold : defaultGcSlotThreshold ≤ size)
    {next : Heap Unit} (succeeded : (rooted size).collect = (.ok (), next))
    (full : 2 ^ 32 ≤ next.slots.length) :
    (rooted size).allocReference .empty = (.error "heap exhausted: too many slots", next) := by
  have needed : (rooted size).collectNeeded = true := by
    simp [collectNeeded, rooted, threshold]
  have notDeferred : (rooted size).deferCollection = false := rfl
  have noPointers : (Cell.empty : Cell Unit InternalPtr).tracePointers = [] := rfl
  rw [allocReference, needed, notDeferred, noPointers]
  simp only [Bool.not_true, Bool.or_self, Bool.false_eq_true, if_false, List.mapM_nil, registerAll,
    unregisterAll, succeeded]
  change next.pushCell .empty = _
  rw [pushCell, if_neg (by omega)]

/-- With `2 ^ 32` live cells an allocation collects and then finds no index. -/
theorem not_same_rooted :
    ¬ ∀ (heap : Heap Unit) (cell : Cell Unit InternalPtr) error next,
      heap.allocReference cell = (.error error, next) → Same heap next := by
  intro holds
  obtain ⟨next, succeeded, full, epoch⟩ := exists_collect_rooted (le_refl (2 ^ 32))
  have threshold : defaultGcSlotThreshold ≤ 2 ^ 32 := by
    rw [defaultGcSlotThreshold]
    omega
  have same := holds _ _ _ _ (allocReference_rooted threshold succeeded full)
  have before : (rooted (2 ^ 32)).collectionEpoch = 0 := rfl
  have unchanged := same.epoch_eq
  omega

end Heap

end RexLang
