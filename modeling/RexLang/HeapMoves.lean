import RexLang.HeapAllocation

/-!
# Moves of the heap

What an allocation keeps of the heap: every reachable cell is found at the image
of its pointer, with its pointers replaced by their images, and every root
resolves to the image of what it resolved to.
-/

namespace RexLang

variable {Code : Type}

/-! ## Cells with replaced pointers -/

namespace Cell

variable {Ptr Target Last : Type}

theorem rebuildMap_map (map : Ptr → Target) (entries : SymbolMap Ptr) :
    rebuildMap entries ((entries.map Prod.snd).map map) =
      entries.map fun entry => (entry.1, map entry.2) := by
  induction entries with
  | nil => rfl
  | cons entry entries hypothesis => exact congrArg ((entry.1, map entry.2) :: ·) hypothesis

theorem rebuildMaps_map (map : Ptr → Target) (maps : List (SymbolMap Ptr)) :
    rebuildMaps maps ((maps.flatMap (·.map Prod.snd)).map map) =
      maps.map fun entries => entries.map fun entry => (entry.1, map entry.2) := by
  induction maps with
  | nil => rfl
  | cons entries maps hypothesis =>
      rw [List.map_cons, ← hypothesis, ← rebuildMap_map, List.flatMap_cons, List.map_append,
        rebuildMaps, List.take_left' (by simp), List.drop_left' (by simp)]

theorem map_closure (map : Ptr → Target) (value : Closure Code Ptr) :
    (closure value).map map = closure { value with
      env := ⟨value.env.bindings.map fun entry => (entry.1, map entry.2),
        value.env.parents.map fun entries => entries.map fun entry => (entry.1, map entry.2)⟩ } := by
  rw [map_eq, pointers, rebuild, List.map_append, List.take_left' (by simp),
    List.drop_left' (by simp), rebuildMap_map, rebuildMaps_map]

theorem map_dict (map : Ptr → Target) (values : SymbolMap Ptr) :
    (dict values : Cell Code Ptr).map map = dict (values.map fun entry => (entry.1, map entry.2)) := by
  rw [map_eq, pointers, rebuild, rebuildMap_map]

theorem map_data (map : Ptr → Target) (values : List Ptr) :
    (data values : Cell Code Ptr).map map = data (values.map map) := by
  rw [map_eq, pointers, rebuild]

theorem pointers_map (map : Ptr → Target) (cell : Cell Code Ptr) :
    (cell.map map).pointers = cell.pointers.map map := by
  cases cell with
  | closure value =>
      simp only [map_closure, pointers, List.map_append, List.map_flatMap, List.flatMap_map,
        List.map_map]
      rfl
  | dict values => simp [map_dict, pointers]
  | _ => simp [map_eq, rebuild, pointers]

theorem map_map (first : Ptr → Target) (second : Target → Last) (cell : Cell Code Ptr) :
    (cell.map first).map second = cell.map (second ∘ first) := by
  cases cell with
  | closure value => simp [map_closure]
  | dict values => simp [map_dict]
  | _ => simp [map_eq, rebuild, pointers]

theorem map_id (cell : Cell Code Ptr) : cell.map id = cell := by
  cases cell with
  | closure value => simp [map_closure]
  | dict values => simp [map_dict]
  | _ => simp [map_eq, rebuild, pointers]

end Cell

namespace Heap

/-! ## Sound heaps -/

/-- The roots reach valid pointers only, and the heap is not larger than its
indices allow. -/
structure Sound (heap : Heap Code) : Prop where
  valid : ∀ pointer, heap.Reachable pointer → ∃ cell, heap.getCellFromPointer pointer = .ok cell
  size : heap.slots.length ≤ 2 ^ 32

theorem resolveRuntimeRoot_ok_iff {heap : Heap Code} {root : RootedPtr} {pointer : InternalPtr} :
    heap.resolveRuntimeRoot root = .ok pointer ↔
      ∃ generation, heap.runtimeRoots.slots[root.slot]? = some ⟨generation, some pointer⟩ := by
  rw [resolveRuntimeRoot]
  cases found : heap.runtimeRoots.slots[root.slot]? with
  | none => simp
  | some slot =>
      obtain ⟨generation, contents⟩ := slot
      cases contents <;> simp

theorem mem_rootPointers_iff {heap : Heap Code} {pointer : InternalPtr} :
    pointer ∈ heap.rootPointers ↔
      ∃ index generation : Nat, heap.runtimeRoots.slots[index]? = some ⟨generation, some pointer⟩ := by
  rw [rootPointers, List.mem_filterMap]
  constructor
  · rintro ⟨⟨generation, contents⟩, member, same⟩
    obtain ⟨index, found⟩ := List.mem_iff_getElem?.mp member
    cases same
    exact ⟨index, generation, found⟩
  · rintro ⟨index, generation, found⟩
    exact ⟨_, List.mem_of_getElem? found, rfl⟩

theorem reachable_of_resolve {heap : Heap Code} {root : RootedPtr} {pointer : InternalPtr}
    (resolved : heap.resolveRuntimeRoot root = .ok pointer) : heap.Reachable pointer := by
  obtain ⟨generation, found⟩ := resolveRuntimeRoot_ok_iff.1 resolved
  exact .root (mem_rootPointers_iff.2 ⟨root.slot, generation, found⟩)

/-- A set of valid pointers that has the roots and is closed under the pointers
of its cells. -/
theorem Sound.of_closed {heap : Heap Code} {within : InternalPtr → Prop}
    (roots : ∀ pointer ∈ heap.rootPointers, within pointer)
    (closed : ∀ pointer, within pointer → ∃ cell, heap.getCellFromPointer pointer = .ok cell ∧
      ∀ child ∈ cell.pointers, within child)
    (size : heap.slots.length ≤ 2 ^ 32) : heap.Sound := by
  have inside : ∀ pointer, heap.Reachable pointer → within pointer := by
    intro pointer reachable
    induction reachable with
    | root isRoot => exact roots _ isRoot
    | child _ found edge hypothesis =>
        obtain ⟨cell, same, children⟩ := closed _ hypothesis
        rw [found] at same
        cases same
        exact children _ edge
  refine ⟨fun pointer reachable => ?_, size⟩
  obtain ⟨cell, found, -⟩ := closed pointer (inside pointer reachable)
  exact ⟨cell, found⟩

end Heap

/-! ## Moves -/

/-- The reachable cells and the roots of a heap, as they are found in a later
one. -/
structure Moves (heap next : Heap Code) (image : InternalPtr → InternalPtr) : Prop where
  sound : next.Sound
  cells : ∀ pointer cell, heap.Reachable pointer → heap.getCellFromPointer pointer = .ok cell →
    next.getCellFromPointer (image pointer) = .ok (cell.map image)
  roots : ∀ root pointer, heap.resolveRuntimeRoot root = .ok pointer →
    next.resolveRuntimeRoot root = .ok (image pointer)

section Moves

variable {heap next last : Heap Code} {image after : InternalPtr → InternalPtr}

theorem Moves.refl (sound : heap.Sound) : Moves heap heap id :=
  ⟨sound, fun pointer cell _ found => by rw [Cell.map_id]; exact found, fun _ _ resolved => resolved⟩

theorem Moves.reachable (moves : Moves heap next image) {pointer : InternalPtr}
    (reachable : heap.Reachable pointer) : next.Reachable (image pointer) := by
  induction reachable with
  | root isRoot =>
      obtain ⟨index, generation, found⟩ := Heap.mem_rootPointers_iff.1 isRoot
      exact Heap.reachable_of_resolve (moves.roots ⟨0, index, 0⟩ _
        (Heap.resolveRuntimeRoot_ok_iff.2 ⟨generation, found⟩))
  | child reachable found edge hypothesis =>
      refine .child hypothesis (moves.cells _ _ reachable found) ?_
      rw [Cell.pointers_map]
      exact List.mem_map_of_mem edge

theorem Moves.trans (first : Moves heap next image) (second : Moves next last after) :
    Moves heap last (after ∘ image) := by
  refine ⟨second.sound, fun pointer cell reachable found => ?_, fun root pointer resolved => ?_⟩
  · rw [← Cell.map_map]
    exact second.cells _ _ (first.reachable reachable) (first.cells _ _ reachable found)
  · exact second.roots _ _ (first.roots _ _ resolved)

end Moves

/-! ## Registering a root -/

section Register

variable {heap : Heap Code} {pointer : InternalPtr}

theorem resolve_registerRuntimeRoot (heap : Heap Code) (pointer : InternalPtr) :
    (heap.registerRuntimeRoot pointer).2.resolveRuntimeRoot (heap.registerRuntimeRoot pointer).1 =
      .ok pointer := by
  obtain ⟨-, found, -⟩ := heap.runtimeRoots.register_spec pointer
  exact Heap.resolveRuntimeRoot_ok_iff.2 ⟨_, found⟩

/-- A new root for a pointer to a cell whose pointers are reachable. -/
theorem moves_registerRuntimeRoot (sound : heap.Sound) {cell : Cell Code InternalPtr}
    (found : heap.getCellFromPointer pointer = .ok cell)
    (children : ∀ child ∈ cell.pointers, heap.Reachable child) :
    Moves heap (heap.registerRuntimeRoot pointer).2 id := by
  obtain ⟨fresh, taken, others⟩ := heap.runtimeRoots.register_spec pointer
  refine ⟨?_, fun pointer cell _ found => by rw [Cell.map_id]; exact found, ?_⟩
  · refine @Heap.Sound.of_closed _ _ (fun other => other = pointer ∨ heap.Reachable other)
      ?_ ?_ sound.size
    · intro other isRoot
      obtain ⟨index, generation, inSlot⟩ := Heap.mem_rootPointers_iff.1 isRoot
      by_cases same : index = (heap.runtimeRoots.register pointer).1.1
      · subst same
        rw [show (heap.registerRuntimeRoot pointer).2.runtimeRoots =
          (heap.runtimeRoots.register pointer).2 from rfl, taken] at inSlot
        cases inSlot
        exact .inl rfl
      · refine .inr (.root (Heap.mem_rootPointers_iff.2 ⟨index, generation, ?_⟩))
        rw [← others index same]
        exact inSlot
    · rintro other (rfl | reachable)
      · exact ⟨cell, found, fun child edge => .inr (children child edge)⟩
      · obtain ⟨otherCell, foundOther⟩ := sound.valid other reachable
        exact ⟨otherCell, foundOther, fun child edge => .inr (.child reachable foundOther edge)⟩
  · intro root other resolved
    obtain ⟨generation, inSlot⟩ := Heap.resolveRuntimeRoot_ok_iff.1 resolved
    have different : root.slot ≠ (heap.runtimeRoots.register pointer).1.1 := by
      intro same
      rw [← same, RootTable.live_of_slot inSlot] at fresh
      cases fresh
    exact Heap.resolveRuntimeRoot_ok_iff.2
      ⟨generation, (others root.slot different).trans inSlot⟩

end Register

/-! ## Allocation -/

section Allocate

variable {heap : Heap Code} {cell : Cell Code InternalPtr}

theorem getCellFromPointer_congr {first second : Heap Code} (sameId : second.id = first.id)
    (sameSlots : second.slots = first.slots) (pointer : InternalPtr) :
    second.getCellFromPointer pointer = first.getCellFromPointer pointer := by
  rw [Heap.getCellFromPointer, Heap.getCellFromPointer, sameId, sameSlots]

theorem pushCell_full (full : ¬heap.slots.length < 2 ^ 32) :
    heap.pushCell cell = (.error "heap exhausted: too many slots", heap) := by
  rw [Heap.pushCell, if_neg full]

/-- A pushed cell is found at its pointer, and nothing moves. -/
theorem moves_pushCell (sound : heap.Sound) (room : heap.slots.length < 2 ^ 32)
    (cell : Cell Code InternalPtr) :
    ∃ pointer next, heap.pushCell cell = (.ok pointer, next) ∧ Moves heap next id ∧
      next.getCellFromPointer pointer = .ok cell := by
  have kept : ∀ pointer other, heap.getCellFromPointer pointer = .ok other →
      (heap.pushCell cell).2.getCellFromPointer pointer = .ok other := by
    intro pointer other found
    rw [Heap.getCellFromPointer_ok_iff] at found ⊢
    rw [Heap.pushCell, if_pos room]
    refine ⟨found.1, ?_⟩
    dsimp only
    rw [List.getElem?_append_left (List.getElem?_eq_some_iff.mp found.2).1]
    exact found.2
  have sameRoots : (heap.pushCell cell).2.runtimeRoots = heap.runtimeRoots := by
    rw [Heap.pushCell, if_pos room]
  refine ⟨⟨heap.id, heap.slots.length, heap.collectionEpoch⟩, (heap.pushCell cell).2, ?_, ?_, ?_⟩
  · rw [Heap.pushCell, if_pos room]
  · refine ⟨?_, fun pointer other _ found => by rw [Cell.map_id]; exact kept _ _ found, ?_⟩
    · refine @Heap.Sound.of_closed _ _ heap.Reachable ?_ ?_ ?_
      · intro pointer isRoot
        rw [Heap.rootPointers, sameRoots] at isRoot
        exact .root isRoot
      · intro pointer reachable
        obtain ⟨other, found⟩ := sound.valid pointer reachable
        exact ⟨other, kept _ _ found, fun child edge => .child reachable found edge⟩
      · rw [Heap.pushCell, if_pos room]
        simp only [List.length_append, List.length_singleton]
        omega
    · intro root pointer resolved
      rw [Heap.resolveRuntimeRoot, sameRoots]
      exact resolved
  · rw [Heap.getCellFromPointer_ok_iff, Heap.pushCell, if_pos room]
    simp

end Allocate

/-! ## Collecting for an allocation -/

section Collect

variable {heap registered collected : Heap Code} {roots : List RootedPtr}
  {pointers : List InternalPtr} {image : InternalPtr → InternalPtr}

/-- The temporary roots add nothing to what is reached. -/
theorem reachable_of_registered (isRegistered : Heap.Registered heap registered roots pointers)
    (reached : ∀ pointer ∈ pointers, heap.Reachable pointer) {pointer : InternalPtr}
    (reachable : registered.Reachable pointer) : heap.Reachable pointer := by
  have sameCells : ∀ pointer,
      registered.getCellFromPointer pointer = heap.getCellFromPointer pointer := by
    rw [isRegistered.next_eq]
    exact getCellFromPointer_congr rfl rfl
  induction reachable with
  | @root pointer isRoot =>
      obtain ⟨index, generation, inSlot⟩ := Heap.mem_rootPointers_iff.mp isRoot
      by_cases member : index ∈ roots.map RootedPtr.slot
      · obtain ⟨root, isTemporary, rfl⟩ := List.mem_map.mp member
        obtain ⟨held, isPointer, taken⟩ :=
          exists_of_forall₂_mem_left isRegistered.found isTemporary
        rw [taken] at inSlot
        cases inSlot
        exact reached _ isPointer
      · rw [isRegistered.others index member] at inSlot
        exact .root (Heap.mem_rootPointers_iff.mpr ⟨index, generation, inSlot⟩)
  | child _ found edge hypothesis =>
      rw [sameCells] at found
      exact .child hypothesis found edge

/-- Without its temporary roots the collected heap holds the images of what the
heap before reached. -/
theorem moves_unregisterAll (sound : heap.Sound)
    (isRegistered : Heap.Registered heap registered roots pointers)
    (preserved : Heap.Preserved registered collected image)
    (size : collected.slots.length ≤ 2 ^ 32) :
    Moves heap (collected.unregisterAll roots) image := by
  have sameId : registered.id = heap.id := by rw [isRegistered.next_eq]
  have sameSlots : registered.slots = heap.slots := by rw [isRegistered.next_eq]
  have sameCells := getCellFromPointer_congr sameId sameSlots
  have inUse : ∀ root ∈ roots, ∃ pointer,
      collected.runtimeRoots.slots[root.slot]? = some ⟨root.generation, some pointer⟩ := by
    intro root member
    obtain ⟨pointer, -, taken⟩ := exists_of_forall₂_mem_left isRegistered.found member
    refine ⟨image pointer, ?_⟩
    rw [preserved.roots, List.getElem?_map, taken]
    rfl
  obtain ⟨unregistered, released, kept⟩ := Heap.unregisterAll_spec isRegistered.nodup
    (fun root member => by rw [preserved.id_eq, sameId]; exact isRegistered.own root member) inUse
  have lastCells : ∀ pointer, (collected.unregisterAll roots).getCellFromPointer pointer =
      collected.getCellFromPointer pointer := by
    rw [unregistered]
    exact getCellFromPointer_congr rfl rfl
  -- A slot that is not temporary holds the image of what it held.
  have lastSlots : ∀ index ∉ roots.map RootedPtr.slot,
      (collected.unregisterAll roots).runtimeRoots.slots[index]? =
        (heap.runtimeRoots.slots[index]?).map fun slot =>
          { slot with pointer := slot.pointer.map image } := by
    intro index absent
    rw [kept index absent, preserved.roots, List.getElem?_map, isRegistered.others index absent]
  have lifts : ∀ {pointer}, heap.Reachable pointer → registered.Reachable pointer := by
    intro pointer reachable
    induction reachable with
    | root isRoot =>
        obtain ⟨index, generation, inSlot⟩ := Heap.mem_rootPointers_iff.mp isRoot
        refine .root (Heap.mem_rootPointers_iff.mpr ⟨index, generation, ?_⟩)
        rw [isRegistered.others index, inSlot]
        intro member
        obtain ⟨root, isTemporary, rfl⟩ := List.mem_map.mp member
        have free := isRegistered.fresh root isTemporary
        rw [RootTable.live_of_slot inSlot] at free
        cases free
    | child _ found edge hypothesis =>
        rw [← sameCells] at found
        exact .child hypothesis found edge
  have cells : ∀ pointer cell, heap.Reachable pointer →
      heap.getCellFromPointer pointer = .ok cell →
      (collected.unregisterAll roots).getCellFromPointer (image pointer) = .ok (cell.map image) := by
    intro pointer cell reachable found
    rw [lastCells]
    exact preserved.cells _ _ (lifts reachable) ((sameCells pointer).trans found)
  refine ⟨?_, cells, ?_⟩
  · refine @Heap.Sound.of_closed _ _
      (fun target => ∃ pointer, heap.Reachable pointer ∧ target = image pointer) ?_ ?_ ?_
    · intro target isRoot
      obtain ⟨index, generation, inSlot⟩ := Heap.mem_rootPointers_iff.mp isRoot
      have absent : index ∉ roots.map RootedPtr.slot := by
        intro member
        obtain ⟨root, isTemporary, rfl⟩ := List.mem_map.mp member
        have free := released root isTemporary
        rw [RootTable.live_of_slot inSlot] at free
        cases free
      rw [lastSlots index absent] at inSlot
      obtain ⟨⟨before, contents⟩, inHeap, same⟩ := Option.map_eq_some_iff.mp inSlot
      cases contents with
      | none => cases same
      | some pointer =>
          cases same
          exact ⟨pointer, .root (Heap.mem_rootPointers_iff.mpr ⟨index, _, inHeap⟩), rfl⟩
    · rintro target ⟨pointer, reachable, rfl⟩
      obtain ⟨cell, found⟩ := sound.valid pointer reachable
      refine ⟨_, cells pointer cell reachable found, fun child edge => ?_⟩
      rw [Cell.pointers_map] at edge
      obtain ⟨before, isChild, rfl⟩ := List.mem_map.mp edge
      exact ⟨before, .child reachable found isChild, rfl⟩
    · rw [unregistered]
      exact size
  · intro root pointer resolved
    obtain ⟨generation, inSlot⟩ := Heap.resolveRuntimeRoot_ok_iff.mp resolved
    have absent : root.slot ∉ roots.map RootedPtr.slot := by
      intro member
      obtain ⟨other, isTemporary, same⟩ := List.mem_map.mp member
      have free := isRegistered.fresh other isTemporary
      rw [same, RootTable.live_of_slot inSlot] at free
      cases free
    refine Heap.resolveRuntimeRoot_ok_iff.mpr ⟨generation, ?_⟩
    rw [lastSlots root.slot absent, inSlot]
    rfl

/-- No cell is added by a collection. -/
theorem length_collected_le {heap next : Heap Code} {live : List (InternalPtr × Cell Code InternalPtr)}
    {forwarding : List (Option InternalPtr)} {runtimeRoots : RootTable}
    {slots : List (HeapSlot Code)}
    (collects : Heap.Collects heap next live forwarding runtimeRoots slots) :
    next.slots.length ≤ heap.slots.length := by
  have liveCells := Heap.liveCells_of_traceLive (Heap.traced_start heap) collects.traced
  have nextSlots : next.slots = slots := by rw [collects.next_eq]; rfl
  have length : slots.length = live.length := by
    obtain ⟨length, -⟩ := Heap.copyCells_spec collects.copied
    simpa using length
  rw [nextSlots, length]
  exact Heap.length_live_le liveCells

end Collect

/-! ## Allocating a cell -/

/-- Why the allocation of a cell fails on a sound heap. -/
def Exhausted (message : String) : Prop :=
  message = "heap exhausted: too many slots" ∨ message = "heap collection count exhausted"

section AllocReference

variable {heap : Heap Code} {cell : Cell Code InternalPtr}

/-- The cell is found with the images of its pointers, unless the heap is
exhausted. -/
def Allocates (heap : Heap Code) (cell : Cell Code InternalPtr)
    (result : Except String InternalPtr × Heap Code) : Prop :=
  (∃ pointer next image, result = (.ok pointer, next) ∧ Moves heap next image ∧
    next.getCellFromPointer pointer = .ok (cell.map image)) ∨
  ∃ message next, result = (.error message, next) ∧ Exhausted message

theorem allocates_pushCell (sound : heap.Sound) (cell : Cell Code InternalPtr) :
    Allocates heap cell (heap.pushCell cell) := by
  by_cases room : heap.slots.length < 2 ^ 32
  · obtain ⟨pointer, next, pushed, moves, found⟩ := moves_pushCell sound room cell
    exact .inl ⟨pointer, next, id, pushed, moves, by rw [Cell.map_id]; exact found⟩
  · exact .inr ⟨_, _, pushCell_full room, .inl rfl⟩

theorem collect_of_epoch (last : ¬heap.collectionEpoch + 1 < 2 ^ 64) :
    heap.collect = (.error "heap collection count exhausted", heap) := by
  have failed : heap.collected = .error "heap collection count exhausted" := by
    rw [Heap.collected]
    simp only [if_pos (not_lt.mp last)]
    rfl
  rw [Heap.collect, failed]

theorem allocates_allocReference (sound : heap.Sound)
    (children : ∀ child ∈ cell.pointers, heap.Reachable child) :
    Allocates heap cell (heap.allocReference cell) := by
  rw [Heap.allocReference]
  split
  · exact allocates_pushCell sound cell
  · dsimp only
    rw [Cell.tracePointers_eq]
    obtain ⟨held, checked⟩ : ∃ held, cell.pointers.mapM heap.getSlotChecked = .ok held := by
      refine exists_mapM fun child edge => ?_
      obtain ⟨other, found⟩ := sound.valid child (children child edge)
      exact ⟨_, Heap.getSlotChecked_of_cell found⟩
    have isRegistered := Heap.registered_registerAll heap cell.pointers
    rw [checked]
    generalize heap.registerAll cell.pointers = result at isRegistered ⊢
    obtain ⟨roots, registered⟩ := result
    dsimp only at isRegistered ⊢
    by_cases epoch : registered.collectionEpoch + 1 < 2 ^ 64
    · have valid : ∀ pointer, registered.Reachable pointer →
          ∃ cell, registered.getCellFromPointer pointer = .ok cell := by
        intro pointer reachable
        rw [isRegistered.next_eq]
        exact sound.valid pointer (reachable_of_registered isRegistered children reachable)
      have size : registered.slots.length ≤ 2 ^ 32 := by
        rw [isRegistered.next_eq]
        exact sound.size
      obtain ⟨collected, succeeded⟩ := Heap.exists_collected valid epoch size
      obtain ⟨live, forwarding, table, slots, collects⟩ := Heap.collects_of_collected succeeded
      have preserved := Heap.preserved_of_collects collects
      have moves := moves_unregisterAll sound isRegistered preserved
        ((length_collected_le collects).trans size)
      have replaced := Heap.mapPointers_nextRelocated cell (registered.image forwarding)
      rw [Heap.collect, succeeded]
      simp only [Heap.resolve_registered isRegistered preserved, replaced]
      rcases allocates_pushCell moves.sound (cell.map (registered.image forwarding)) with
        ⟨pointer, next, image, pushed, movesNext, found⟩ | failed
      · rw [Cell.map_map] at found
        exact .inl ⟨pointer, next, _, pushed, moves.trans movesNext, found⟩
      · exact .inr failed
    · rw [collect_of_epoch epoch]
      exact .inr ⟨_, _, rfl, .inr rfl⟩

end AllocReference

end RexLang
