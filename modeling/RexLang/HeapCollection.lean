import Mathlib.Data.Set.Function
import Mathlib.Data.Set.List
import RexLang.GcDestinations
import RexLang.HeapTracing

/-!
# Collection

A collection that succeeds moves the reachable cells to the slots of the new
heap, one to one, and replaces every pointer by the image of the old one.
-/

namespace RexLang

namespace Heap

variable {Code : Type} {heap : Heap Code}

abbrev LiveEntry (Code : Type) := (InternalPtr × Cell Code InternalPtr) × Nat

/-! ## Forwarding -/

theorem forwardingTable_unchanged {nextEpoch : Nat} {entries : List (LiveEntry Code)}
    {forwarding result : List (Option InternalPtr)}
    (filled : heap.forwardingTable nextEpoch entries forwarding = .ok result) {index : Nat}
    (absent : index ∉ entries.map (·.1.1.index)) : result[index]? = forwarding[index]? := by
  induction entries generalizing forwarding with
  | nil =>
      cases filled
      rfl
  | cons entry entries hypothesis =>
      obtain ⟨⟨pointer, cell⟩, destination⟩ := entry
      rw [forwardingTable] at filled
      simp only [List.map_cons, List.mem_cons, not_or] at absent
      split at filled
      · cases filled
      · split at filled
        · rw [hypothesis filled absent.2, List.getElem?_set_ne (Ne.symm absent.1)]
        · cases filled

/-- Each live cell is forwarded to its destination. -/
theorem forwardingTable_found {nextEpoch : Nat} {entries : List (LiveEntry Code)}
    {forwarding result : List (Option InternalPtr)}
    (filled : heap.forwardingTable nextEpoch entries forwarding = .ok result)
    (length : forwarding.length = heap.slots.length)
    (nodup : (entries.map (·.1.1.index)).Nodup) {entry : LiveEntry Code} (member : entry ∈ entries) :
    result[entry.1.1.index]? = some (some ⟨heap.id, entry.2, nextEpoch⟩) := by
  induction entries generalizing forwarding with
  | nil => cases member
  | cons first entries hypothesis =>
      obtain ⟨⟨pointer, cell⟩, destination⟩ := first
      rw [forwardingTable] at filled
      rw [List.map_cons, List.nodup_cons] at nodup
      split at filled
      · cases filled
      · next slot valid =>
          split at filled
          · rcases List.mem_cons.mp member with rfl | member
            · obtain ⟨-, inSlots, -, -⟩ := getSlotChecked_ok_iff.mp valid
              obtain ⟨bound, -⟩ := List.getElem?_eq_some_iff.mp inSlots
              rw [forwardingTable_unchanged filled nodup.1]
              simp [length, bound]
            · exact hypothesis filled (by simpa using length) nodup.2 member
          · cases filled

/-! ## Copying -/

/-- What copying does to the new slots. -/
theorem copyCells_spec {forward : InternalPtr → Except String InternalPtr}
    {entries : List (LiveEntry Code)} {newSlots result : List (Option (HeapSlot Code))}
    (copied : copyCells forward entries newSlots = .ok result) :
    result.length = newSlots.length ∧
      (∀ (index : Nat) slot, newSlots[index]? = some (some slot) → result[index]? = some (some slot)) ∧
      (∀ entry ∈ entries, newSlots[entry.2]? = some none ∧
        ∃ cell pointer, entry.1.2.mapPointers forward = .ok cell ∧
          forward entry.1.1 = .ok pointer ∧
          result[entry.2]? = some (some ⟨pointer.generation, some cell⟩)) ∧
      (entries.map Prod.snd).Nodup ∧
      (∀ (index : Nat) slot, result[index]? = some (some slot) →
        newSlots[index]? = some (some slot) ∨ index ∈ entries.map Prod.snd) := by
  induction entries generalizing newSlots with
  | nil =>
      cases copied
      simp
  | cons entry entries hypothesis =>
      obtain ⟨⟨oldPointer, cell⟩, destination⟩ := entry
      rw [copyCells] at copied
      obtain ⟨newCell, mapped, copied⟩ := exists_of_bind_eq_ok copied
      obtain ⟨pointer, forwarded, copied⟩ := exists_of_bind_eq_ok copied
      split at copied
      · cases copied
      · cases copied
      · next empty =>
          obtain ⟨length, kept, placed, nodup, only⟩ := hypothesis copied
          obtain ⟨bound, -⟩ := List.getElem?_eq_some_iff.mp empty
          have stored := kept destination ⟨pointer.generation, some newCell⟩ (by simp [bound])
          have free : ∀ entry ∈ entries,
              entry.2 ≠ destination ∧ newSlots[entry.2]? = some none := by
            intro entry member
            obtain ⟨isFree, -⟩ := placed entry member
            have different : entry.2 ≠ destination := by
              intro same
              rw [same] at isFree
              simp [bound] at isFree
            rw [List.getElem?_set_ne different.symm] at isFree
            exact ⟨different, isFree⟩
          refine ⟨by simpa using length, ?_, ?_, ?_, ?_⟩
          · intro index slot old
            have different : destination ≠ index := by
              rintro rfl
              rw [empty] at old
              cases old
            exact kept index slot (by rwa [List.getElem?_set_ne different])
          · intro entry member
            rcases List.mem_cons.mp member with rfl | member
            · exact ⟨empty, newCell, pointer, mapped, forwarded, stored⟩
            · exact ⟨(free entry member).2, (placed entry member).2⟩
          · rw [List.map_cons, List.nodup_cons]
            refine ⟨fun member => ?_, nodup⟩
            obtain ⟨entry, inRest, same⟩ := List.mem_map.mp member
            exact (free entry inRest).1 same
          · intro index slot new
            by_cases same : index = destination
            · exact .inr (by simp [same])
            · rcases only index slot new with old | member
              · rw [List.getElem?_set_ne (Ne.symm same)] at old
                exact .inl old
              · exact .inr (by simp [member])

/-- No slot is left empty. -/
theorem eq_map_some_of_mapM {newSlots : List (Option (HeapSlot Code))}
    {slots : List (HeapSlot Code)} (filled : (newSlots.mapM fun slot => slot) = some slots) :
    newSlots = slots.map some := by
  induction newSlots generalizing slots with
  | nil =>
      simp at filled
      simp [filled]
  | cons slot newSlots hypothesis =>
      simp only [List.mapM_cons, Option.bind_eq_bind, Option.bind_eq_some_iff] at filled
      obtain ⟨first, rfl, rest, filledRest, same⟩ := filled
      cases same
      rw [hypothesis filledRest, List.map_cons]

/-! ## The new heap -/

theorem destinations_perm (heap : Heap Code) (live : List (InternalPtr × Cell Code InternalPtr)) :
    (heap.destinations live).Perm (List.range live.length) := by
  rw [destinations]
  split
  · simpa using randomizedGcDestinations_perm (live.map (·.1.index)) heap.collectionEpoch
  · exact .refl _

/-- The steps of a collection that succeeds. -/
structure Collects (heap next : Heap Code) (live : List (InternalPtr × Cell Code InternalPtr))
    (forwarding : List (Option InternalPtr)) (runtimeRoots : RootTable)
    (slots : List (HeapSlot Code)) : Prop where
  epoch_lt : heap.collectionEpoch + 1 < 2 ^ 64
  traced : heap.traceLive heap.rootPointers (List.replicate heap.slots.length false) [] = .ok live
  forwarded : heap.forwardingTable (heap.collectionEpoch + 1) (live.zip (heap.destinations live))
    (List.replicate heap.slots.length none) = .ok forwarding
  relocated : heap.runtimeRoots.relocate (heap.forwardForGc forwarding) = .ok runtimeRoots
  copied : copyCells (heap.forwardForGc forwarding) (live.zip (heap.destinations live))
    (List.replicate live.length none) = .ok (slots.map some)
  next_eq : next = updateNextGcSlotCount
    { heap with slots, runtimeRoots, collectionEpoch := heap.collectionEpoch + 1 }

theorem collects_of_collected {next : Heap Code} (succeeded : heap.collected = .ok next) :
    ∃ live forwarding runtimeRoots slots,
      Collects heap next live forwarding runtimeRoots slots := by
  simp only [collected] at succeeded
  split at succeeded
  · cases succeeded
  · next small =>
      obtain ⟨live, traced, succeeded⟩ := exists_of_bind_eq_ok succeeded
      obtain ⟨forwarding, forwarded, succeeded⟩ := exists_of_bind_eq_ok succeeded
      obtain ⟨runtimeRoots, relocated, succeeded⟩ := exists_of_bind_eq_ok succeeded
      obtain ⟨newSlots, copied, succeeded⟩ := exists_of_bind_eq_ok succeeded
      split at succeeded
      · cases succeeded
      · next slots filled =>
          cases succeeded
          rw [eq_map_some_of_mapM filled] at copied
          exact ⟨live, forwarding, runtimeRoots, slots, by omega, traced, forwarded, relocated,
            copied, rfl⟩

/-- The new heap holds the reachable cells of the old one. -/
structure Preserved (heap next : Heap Code) (image : InternalPtr → InternalPtr) : Prop where
  /-- Every reachable pointer is valid. -/
  valid : ∀ pointer, heap.Reachable pointer → ∃ cell, heap.getCellFromPointer pointer = .ok cell
  /-- The images are the pointers to the new cells, one for each. -/
  bijective : Set.BijOn image {pointer | heap.Reachable pointer}
    {pointer | ∃ cell, next.getCellFromPointer pointer = .ok cell}
  /-- A new cell is the old one with its pointers replaced. -/
  cells : ∀ pointer cell, heap.Reachable pointer → heap.getCellFromPointer pointer = .ok cell →
    next.getCellFromPointer (image pointer) = .ok (cell.map image)
  roots : next.runtimeRoots.slots = heap.runtimeRoots.slots.map fun slot =>
    { slot with pointer := slot.pointer.map image }
  /-- Every slot of the new heap holds a cell of the new epoch. -/
  slots : ∀ slot ∈ next.slots, slot.generation = next.collectionEpoch ∧ slot.cell.isSome
  epoch_eq : next.collectionEpoch = heap.collectionEpoch + 1
  id_eq : next.id = heap.id

/-- Where the collector moves a cell. -/
def image (heap : Heap Code) (forwarding : List (Option InternalPtr)) (pointer : InternalPtr) :
    InternalPtr :=
  match heap.forwardForGc forwarding pointer with
  | .ok forwarded => forwarded
  | .error _ => pointer

section Collects

variable {next : Heap Code} {live : List (InternalPtr × Cell Code InternalPtr)}
  {forwarding : List (Option InternalPtr)} {runtimeRoots : RootTable}
  {slots : List (HeapSlot Code)}

theorem length_destinations (heap : Heap Code)
    (live : List (InternalPtr × Cell Code InternalPtr)) :
    (heap.destinations live).length = live.length := by
  rw [(destinations_perm heap live).length_eq, List.length_range]

theorem map_fst_entries (heap : Heap Code) (live : List (InternalPtr × Cell Code InternalPtr)) :
    (live.zip (heap.destinations live)).map Prod.fst = live :=
  List.map_fst_zip (length_destinations heap live).ge

/-- A reachable pointer is that of a live entry. -/
theorem exists_entry (heap : Heap Code) {pointer : InternalPtr}
    (member : pointer ∈ live.map Prod.fst) :
    ∃ entry ∈ live.zip (heap.destinations live), entry.1.1 = pointer := by
  rw [← map_fst_entries heap live, List.map_map] at member
  exact List.mem_map.mp member

/-- A live cell is forwarded to its destination in the new epoch. -/
theorem forwardForGc_of_entry (liveCells : heap.LiveCells live)
    (forwarded : heap.forwardingTable (heap.collectionEpoch + 1)
      (live.zip (heap.destinations live)) (List.replicate heap.slots.length none) = .ok forwarding)
    {entry : LiveEntry Code} (member : entry ∈ live.zip (heap.destinations live)) :
    heap.forwardForGc forwarding entry.1.1 =
      .ok ⟨heap.id, entry.2, heap.collectionEpoch + 1⟩ := by
  have isLive : entry.1 ∈ live := (List.of_mem_zip member).1
  have nodup : ((live.zip (heap.destinations live)).map (·.1.1.index)).Nodup := by
    have indices := liveCells.nodup
    rw [← map_fst_entries heap live, List.map_map] at indices
    exact indices
  have found := forwardingTable_found forwarded (by simp) nodup member
  rw [forwardForGc, getSlotChecked_of_cell (liveCells.found entry.1 isLive), found]
  rfl

theorem image_of_entry (liveCells : heap.LiveCells live)
    (forwarded : heap.forwardingTable (heap.collectionEpoch + 1)
      (live.zip (heap.destinations live)) (List.replicate heap.slots.length none) = .ok forwarding)
    {entry : LiveEntry Code} (member : entry ∈ live.zip (heap.destinations live)) :
    heap.image forwarding entry.1.1 = ⟨heap.id, entry.2, heap.collectionEpoch + 1⟩ := by
  rw [image, forwardForGc_of_entry liveCells forwarded member]

/-- A reachable pointer is forwarded to its image. -/
theorem forwardForGc_of_reachable (liveCells : heap.LiveCells live)
    (forwarded : heap.forwardingTable (heap.collectionEpoch + 1)
      (live.zip (heap.destinations live)) (List.replicate heap.slots.length none) = .ok forwarding)
    {pointer : InternalPtr} (reachable : heap.Reachable pointer) :
    heap.forwardForGc forwarding pointer = .ok (heap.image forwarding pointer) := by
  obtain ⟨entry, member, rfl⟩ := exists_entry heap ((liveCells.reachable_iff pointer).mp reachable)
  rw [image_of_entry liveCells forwarded member, forwardForGc_of_entry liveCells forwarded member]

/-- The new slot of a live cell. -/
theorem slot_of_entry (liveCells : heap.LiveCells live)
    (collects : Collects heap next live forwarding runtimeRoots slots)
    {entry : LiveEntry Code} (member : entry ∈ live.zip (heap.destinations live)) :
    slots[entry.2]? =
      some ⟨heap.collectionEpoch + 1, some (entry.1.2.map (heap.image forwarding))⟩ := by
  obtain ⟨-, -, placed, -, -⟩ := copyCells_spec collects.copied
  obtain ⟨-, cell, pointer, mapped, forwardedTo, stored⟩ := placed entry member
  have isLive : entry.1 ∈ live := (List.of_mem_zip member).1
  have found := liveCells.found entry.1 isLive
  have reachable := (liveCells.reachable_iff entry.1.1).mpr (List.mem_map_of_mem isLive)
  have agree : ∀ child ∈ entry.1.2.pointers,
      heap.forwardForGc forwarding child = pure (heap.image forwarding child) :=
    fun child edge =>
      forwardForGc_of_reachable liveCells collects.forwarded (.child reachable found edge)
  rw [Cell.mapPointers_eq_pure agree] at mapped
  cases mapped
  rw [forwardForGc_of_entry liveCells collects.forwarded member] at forwardedTo
  cases forwardedTo
  simpa using stored

/-- Every new slot is the destination of a live cell. -/
theorem entry_of_slot (collects : Collects heap next live forwarding runtimeRoots slots)
    {index : Nat} {slot : HeapSlot Code} (inSlots : slots[index]? = some slot) :
    ∃ entry ∈ live.zip (heap.destinations live), entry.2 = index := by
  obtain ⟨-, -, -, -, only⟩ := copyCells_spec collects.copied
  rcases only index slot (by simp [inSlots]) with old | member
  · simp [List.getElem?_replicate] at old
  · exact List.mem_map.mp member

/-- The roots that are in use are rewritten in place. -/
theorem slots_relocate {forward : InternalPtr → Except String InternalPtr}
    {target : InternalPtr → InternalPtr} {table relocated : RootTable}
    (succeeded : table.relocate forward = .ok relocated)
    (agree : ∀ pointer ∈ table.slots.filterMap RootSlot.pointer,
      forward pointer = .ok (target pointer)) :
    relocated.slots = table.slots.map fun slot =>
      { slot with pointer := slot.pointer.map target } := by
  have visited : table.slots.mapM (RootTable.relocateSlot forward) = .ok relocated.slots := by
    rw [RootTable.relocate] at succeeded
    split at succeeded
    · cases succeeded
    · next slots mapped =>
        cases succeeded
        exact mapped
  have related := forall₂_of_mapM visited
  generalize table.slots = olds at related agree
  generalize relocated.slots = news at related
  induction related with
  | nil => rfl
  | @cons old new olds news head _ hypothesis =>
      have rest := hypothesis fun pointer member => agree pointer (by
        rw [List.filterMap_cons]
        split
        · exact member
        · exact .tail _ member)
      rw [List.map_cons, rest]
      congr 1
      rw [RootTable.relocateSlot] at head
      obtain ⟨generation, _ | pointer⟩ := old
      · cases head
        rfl
      · have sameTarget := agree pointer (by simp)
        dsimp only at head
        rw [sameTarget] at head
        cases head
        rfl

theorem preserved_of_collects (collects : Collects heap next live forwarding runtimeRoots slots) :
    Preserved heap next (heap.image forwarding) := by
  have liveCells := liveCells_of_traceLive (traced_start heap) collects.traced
  have nextSlots : next.slots = slots := by rw [collects.next_eq]; rfl
  have nextId : next.id = heap.id := by rw [collects.next_eq]; rfl
  have nextEpoch : next.collectionEpoch = heap.collectionEpoch + 1 := by rw [collects.next_eq]; rfl
  have moved : ∀ entry ∈ live.zip (heap.destinations live),
      next.getCellFromPointer (heap.image forwarding entry.1.1) =
        .ok (entry.1.2.map (heap.image forwarding)) := by
    intro entry member
    rw [image_of_entry liveCells collects.forwarded member, getCellFromPointer_ok_iff, nextSlots]
    exact ⟨nextId.symm, slot_of_entry liveCells collects member⟩
  constructor
  · intro pointer reachable
    obtain ⟨entry, isLive, rfl⟩ := List.mem_map.mp ((liveCells.reachable_iff pointer).mp reachable)
    exact ⟨entry.2, liveCells.found entry isLive⟩
  · refine ⟨?_, ?_, ?_⟩
    · intro pointer reachable
      obtain ⟨entry, member, rfl⟩ :=
        exists_entry heap ((liveCells.reachable_iff pointer).mp reachable)
      exact ⟨_, moved entry member⟩
    · intro first firstReachable second secondReachable same
      obtain ⟨entry, member, rfl⟩ :=
        exists_entry heap ((liveCells.reachable_iff first).mp firstReachable)
      obtain ⟨other, otherMember, rfl⟩ :=
        exists_entry heap ((liveCells.reachable_iff second).mp secondReachable)
      rw [image_of_entry liveCells collects.forwarded member,
        image_of_entry liveCells collects.forwarded otherMember] at same
      obtain ⟨-, -, -, nodup, -⟩ := copyCells_spec collects.copied
      have sameEntry := List.inj_on_of_nodup_map nodup member otherMember
        (congrArg InternalPtr.index same)
      rw [sameEntry]
    · rintro pointer ⟨cell, found⟩
      obtain ⟨sameHeap, inSlots⟩ := getCellFromPointer_ok_iff.mp found
      rw [nextSlots] at inSlots
      obtain ⟨entry, member, sameIndex⟩ := entry_of_slot collects inSlots
      have isLive : entry.1 ∈ live := (List.of_mem_zip member).1
      refine ⟨entry.1.1, (liveCells.reachable_iff _).mpr (List.mem_map_of_mem isLive), ?_⟩
      have stored := slot_of_entry liveCells collects member
      rw [sameIndex, inSlots] at stored
      rw [image_of_entry liveCells collects.forwarded member, sameIndex, ← nextId, ← sameHeap]
      obtain ⟨_, _, _⟩ := pointer
      cases stored
      rfl
  · intro pointer cell reachable found
    obtain ⟨entry, member, rfl⟩ :=
      exists_entry heap ((liveCells.reachable_iff pointer).mp reachable)
    have sameCell := liveCells.found entry.1 (List.of_mem_zip member).1
    rw [found] at sameCell
    cases sameCell
    exact moved entry member
  · have nextRoots : next.runtimeRoots = runtimeRoots := by rw [collects.next_eq]; rfl
    rw [nextRoots]
    exact slots_relocate collects.relocated fun pointer isRoot =>
      forwardForGc_of_reachable liveCells collects.forwarded (.root isRoot)
  · intro slot member
    rw [nextSlots] at member
    obtain ⟨index, bound, rfl⟩ := List.mem_iff_getElem.mp member
    obtain ⟨entry, inEntries, rfl⟩ := entry_of_slot collects (List.getElem?_eq_getElem bound)
    have stored := slot_of_entry liveCells collects inEntries
    rw [List.getElem?_eq_getElem bound, Option.some.injEq] at stored
    rw [stored, nextEpoch]
    exact ⟨rfl, rfl⟩
  · exact nextEpoch
  · exact nextId

end Collects

/-! ## When a collection succeeds -/

theorem exists_forwardingTable {nextEpoch : Nat} {entries : List (LiveEntry Code)}
    {forwarding : List (Option InternalPtr)}
    (valid : ∀ entry ∈ entries, ∃ slot, heap.getSlotChecked entry.1.1 = .ok slot)
    (small : ∀ entry ∈ entries, entry.2 < 2 ^ 32) :
    ∃ result, heap.forwardingTable nextEpoch entries forwarding = .ok result := by
  induction entries generalizing forwarding with
  | nil => exact ⟨forwarding, rfl⟩
  | cons entry entries hypothesis =>
      obtain ⟨⟨pointer, cell⟩, destination⟩ := entry
      obtain ⟨slot, found⟩ := valid _ (.head _)
      have inBounds := small _ (.head _)
      simp only at found inBounds
      rw [forwardingTable, found]
      simp only [inBounds, if_true]
      exact hypothesis (fun entry member => valid entry (.tail _ member))
        fun entry member => small entry (.tail _ member)

theorem exists_relocate {forward : InternalPtr → Except String InternalPtr}
    {target : InternalPtr → InternalPtr} {table : RootTable}
    (agree : ∀ pointer ∈ table.slots.filterMap RootSlot.pointer,
      forward pointer = .ok (target pointer)) :
    ∃ relocated, table.relocate forward = .ok relocated := by
  have visited : ∃ slots, table.slots.mapM (RootTable.relocateSlot forward) = .ok slots := by
    revert agree
    generalize table.slots = slots
    intro agree
    induction slots with
    | nil => exact ⟨[], rfl⟩
    | cons slot slots hypothesis =>
        obtain ⟨rest, mapped⟩ := hypothesis fun pointer member => agree pointer (by
          rw [List.filterMap_cons]
          split
          · exact member
          · exact .tail _ member)
        obtain ⟨generation, _ | pointer⟩ := slot
        · exact ⟨⟨generation, none⟩ :: rest, by rw [List.mapM_cons, mapped]; rfl⟩
        · have sameTarget := agree pointer (by simp)
          refine ⟨⟨generation, some (target pointer)⟩ :: rest, ?_⟩
          simp only [List.mapM_cons, RootTable.relocateSlot, sameTarget, mapped]
          rfl
  obtain ⟨slots, mapped⟩ := visited
  rw [RootTable.relocate]
  split
  · next failed =>
      rw [mapped] at failed
      cases failed
  · exact ⟨_, rfl⟩

theorem exists_copyCells {forward : InternalPtr → Except String InternalPtr}
    {entries : List (LiveEntry Code)} {newSlots : List (Option (HeapSlot Code))}
    (forwards : ∀ entry ∈ entries, ∃ cell pointer,
      entry.1.2.mapPointers forward = .ok cell ∧ forward entry.1.1 = .ok pointer)
    (nodup : (entries.map Prod.snd).Nodup)
    (empty : ∀ entry ∈ entries, newSlots[entry.2]? = some none) :
    ∃ result, copyCells forward entries newSlots = .ok result := by
  induction entries generalizing newSlots with
  | nil => exact ⟨newSlots, rfl⟩
  | cons entry entries hypothesis =>
      obtain ⟨⟨oldPointer, oldCell⟩, destination⟩ := entry
      obtain ⟨cell, pointer, mapped, forwarded⟩ := forwards _ (.head _)
      have isEmpty := empty _ (.head _)
      rw [List.map_cons, List.nodup_cons] at nodup
      simp only [copyCells, mapped, forwarded, isEmpty, bind, Except.bind] at isEmpty ⊢
      refine hypothesis (fun entry member => forwards entry (.tail _ member)) nodup.2 ?_
      intro entry member
      have different : destination ≠ entry.2 := by
        rintro rfl
        exact nodup.1 (List.mem_map.mpr ⟨entry, member, rfl⟩)
      rw [List.getElem?_set_ne different]
      exact empty entry (.tail _ member)

/-- There are no more live cells than slots. -/
theorem length_live_le {live : List (InternalPtr × Cell Code InternalPtr)}
    (liveCells : heap.LiveCells live) : live.length ≤ heap.slots.length := by
  have bounded : live.map (·.1.index) ⊆ List.range heap.slots.length := by
    intro index member
    obtain ⟨entry, isLive, rfl⟩ := List.mem_map.mp member
    obtain ⟨-, inSlots⟩ := getCellFromPointer_ok_iff.mp (liveCells.found entry isLive)
    obtain ⟨bound, -⟩ := List.getElem?_eq_some_iff.mp inSlots
    exact List.mem_range.mpr bound
  have length := (liveCells.nodup.subperm bounded).length_le
  simpa using length

/-- A collection succeeds when the roots reach valid pointers only, the epoch
can be incremented, and the heap is not larger than its indices allow. -/
theorem exists_collected
    (valid : ∀ pointer, heap.Reachable pointer → ∃ cell, heap.getCellFromPointer pointer = .ok cell)
    (epoch : heap.collectionEpoch + 1 < 2 ^ 64) (size : heap.slots.length ≤ 2 ^ 32) :
    ∃ next, heap.collected = .ok next := by
  obtain ⟨live, traced⟩ := exists_traceLive (traced_start heap) valid
  have liveCells := liveCells_of_traceLive (traced_start heap) traced
  have lengthLive := length_live_le liveCells
  have permuted := destinations_perm heap live
  have seconds : (live.zip (heap.destinations live)).map Prod.snd = heap.destinations live :=
    List.map_snd_zip (length_destinations heap live).le
  have bounded : ∀ entry ∈ live.zip (heap.destinations live), entry.2 < live.length := by
    intro entry member
    exact List.mem_range.mp (permuted.subset (List.of_mem_zip member).2)
  obtain ⟨forwarding, forwarded⟩ : ∃ forwarding, heap.forwardingTable (heap.collectionEpoch + 1)
      (live.zip (heap.destinations live)) (List.replicate heap.slots.length none) =
        .ok forwarding := by
    refine exists_forwardingTable (fun entry member => ?_) fun entry member => ?_
    · exact ⟨_, getSlotChecked_of_cell (liveCells.found entry.1 (List.of_mem_zip member).1)⟩
    · have inBounds := bounded entry member
      omega
  have forwards := fun pointer => @forwardForGc_of_reachable _ heap live forwarding liveCells
    forwarded pointer
  obtain ⟨runtimeRoots, relocated⟩ : ∃ table,
      heap.runtimeRoots.relocate (heap.forwardForGc forwarding) = .ok table :=
    exists_relocate fun pointer isRoot => forwards pointer (.root isRoot)
  have nodup : ((live.zip (heap.destinations live)).map Prod.snd).Nodup := by
    rw [seconds]
    exact permuted.nodup_iff.mpr List.nodup_range
  obtain ⟨newSlots, copied⟩ : ∃ newSlots, copyCells (heap.forwardForGc forwarding)
      (live.zip (heap.destinations live)) (List.replicate live.length none) = .ok newSlots := by
    refine exists_copyCells (fun entry member => ?_) nodup fun entry member => ?_
    · have isLive : entry.1 ∈ live := (List.of_mem_zip member).1
      have reachable := (liveCells.reachable_iff entry.1.1).mpr (List.mem_map_of_mem isLive)
      have found := liveCells.found entry.1 isLive
      have agree : ∀ child ∈ entry.1.2.pointers,
          heap.forwardForGc forwarding child = pure (heap.image forwarding child) :=
        fun child edge => forwards child (.child reachable found edge)
      exact ⟨_, _, Cell.mapPointers_eq_pure agree, forwards _ reachable⟩
    · simp [bounded entry member]
  -- Every new slot is a destination, so none is left empty.
  obtain ⟨slots, filled⟩ : ∃ slots : List (HeapSlot Code), newSlots = slots.map some := by
    obtain ⟨length, -, placed, -, -⟩ := copyCells_spec copied
    have allSome : ∀ slot ∈ newSlots, ∃ contents, some contents = slot := by
      intro slot member
      obtain ⟨index, bound, rfl⟩ := List.mem_iff_getElem.mp member
      have isDestination : index ∈ (live.zip (heap.destinations live)).map Prod.snd := by
        rw [seconds]
        exact permuted.symm.subset (List.mem_range.mpr (by simpa [length] using bound))
      obtain ⟨entry, inEntries, rfl⟩ := List.mem_map.mp isDestination
      obtain ⟨-, cell, pointer, -, -, stored⟩ := placed entry inEntries
      rw [List.getElem?_eq_getElem bound, Option.some.injEq] at stored
      exact ⟨_, stored.symm⟩
    have inRange : newSlots ∈ Set.range (List.map (some : HeapSlot Code → _)) := by
      rw [Set.range_list_map]
      exact allSome
    obtain ⟨slots, same⟩ := inRange
    exact ⟨slots, same.symm⟩
  have kept : (newSlots.mapM fun slot => slot) = some slots := by
    rw [filled]
    clear filled copied
    induction slots with
    | nil => rfl
    | cons slot slots hypothesis => simp [hypothesis]
  refine ⟨updateNextGcSlotCount
    { heap with slots, runtimeRoots, collectionEpoch := heap.collectionEpoch + 1 }, ?_⟩
  simp only [collected, traced, forwarded, relocated, copied, kept, bind, Except.bind]
  rw [if_neg (by omega)]
  rfl

end Heap

end RexLang
