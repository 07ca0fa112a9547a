import RexLang.Heap

/-!
# Tracing the heap

The cells that a collection keeps are those that the roots reach.  The tracing
loop returns each of them once, with the pointer to it.
-/

namespace RexLang

namespace Heap

variable {Code : Type} {heap : Heap Code}

/-! ## Checked accesses -/

theorem getSlotChecked_ok_iff {pointer : InternalPtr} {slot : HeapSlot Code} :
    heap.getSlotChecked pointer = .ok slot ↔
      pointer.heapId = heap.id ∧ heap.slots[pointer.index]? = some slot ∧
        slot.generation = pointer.generation ∧ slot.cell.isSome := by
  rw [getSlotChecked]
  split
  · next foreign =>
      simp only [reduceCtorEq, false_iff, not_and]
      exact fun same => absurd same foreign
  · next same =>
      split
      · next missing => simp [missing]
      · next other found =>
          rw [not_not] at same
          split
          · next invalid =>
              simp only [reduceCtorEq, false_iff, found, Option.some.injEq]
              rintro ⟨-, rfl, generation, present⟩
              rcases invalid with invalid | invalid
              · exact invalid generation
              · rw [Option.isNone_iff_eq_none] at invalid
                simp [invalid] at present
          · next valid =>
              simp only [not_or, not_not, Option.isNone_iff_eq_none, ← ne_eq,
                Option.ne_none_iff_isSome] at valid
              simp only [Except.ok.injEq, found, Option.some.injEq, same, true_and]
              constructor
              · rintro rfl
                exact ⟨rfl, valid⟩
              · exact And.left

theorem getCellFromPointer_ok_iff {pointer : InternalPtr} {cell : Cell Code InternalPtr} :
    heap.getCellFromPointer pointer = .ok cell ↔
      pointer.heapId = heap.id ∧
        heap.slots[pointer.index]? = some ⟨pointer.generation, some cell⟩ := by
  rw [getCellFromPointer]
  split
  · next foreign =>
      simp only [reduceCtorEq, false_iff, not_and]
      exact fun same => absurd same foreign
  · next same =>
      rw [not_not] at same
      split
      · next missing => simp [missing]
      · next other found =>
          obtain ⟨generation, contents⟩ := other
          split
          · next stale => simp [found, stale]
          · next current =>
              rw [not_not] at current
              cases contents with
              | none => simp [found]
              | some other => simp_all

/-- Both accesses find the same cells. -/
theorem getSlotChecked_of_cell {pointer : InternalPtr} {cell : Cell Code InternalPtr}
    (found : heap.getCellFromPointer pointer = .ok cell) :
    heap.getSlotChecked pointer = .ok ⟨pointer.generation, some cell⟩ := by
  rw [getCellFromPointer_ok_iff] at found
  exact getSlotChecked_ok_iff.2 ⟨found.1, found.2, rfl, rfl⟩

theorem cell_of_getSlotChecked {pointer : InternalPtr} {slot : HeapSlot Code}
    {cell : Cell Code InternalPtr} (found : heap.getSlotChecked pointer = .ok slot)
    (contents : slot.cell = some cell) : heap.getCellFromPointer pointer = .ok cell := by
  obtain ⟨same, inSlots, generation, -⟩ := getSlotChecked_ok_iff.1 found
  obtain ⟨slotGeneration, slotCell⟩ := slot
  cases generation
  cases contents
  exact getCellFromPointer_ok_iff.2 ⟨same, inSlots⟩

/-- A slot has one valid pointer. -/
theorem pointer_eq_of_index_eq {first second : InternalPtr} {slot other : HeapSlot Code}
    (foundFirst : heap.getSlotChecked first = .ok slot)
    (foundSecond : heap.getSlotChecked second = .ok other) (same : first.index = second.index) :
    first = second := by
  obtain ⟨heapFirst, slotFirst, generationFirst, -⟩ := getSlotChecked_ok_iff.1 foundFirst
  obtain ⟨heapSecond, slotSecond, generationSecond, -⟩ := getSlotChecked_ok_iff.1 foundSecond
  rw [same, slotSecond] at slotFirst
  cases slotFirst
  obtain ⟨_, _, _⟩ := first
  obtain ⟨_, _, _⟩ := second
  simp_all

/-! ## Reachable cells -/

/-- The pointers that are reached from the roots. -/
inductive Reachable (heap : Heap Code) : InternalPtr → Prop where
  | root {pointer} (isRoot : pointer ∈ heap.rootPointers) : Reachable heap pointer
  | child {pointer cell child} (reachable : Reachable heap pointer)
      (found : heap.getCellFromPointer pointer = .ok cell) (edge : child ∈ cell.pointers) :
      Reachable heap child

/-- The invariant of the tracing loop. -/
structure Traced (heap : Heap Code) (work : List InternalPtr) (seen : List Bool)
    (live : List (InternalPtr × Cell Code InternalPtr)) : Prop where
  seen_length : seen.length = heap.slots.length
  seen_iff : ∀ index, seen[index]? = some true ↔ ∃ entry ∈ live, entry.1.index = index
  nodup : (live.map (·.1.index)).Nodup
  found : ∀ entry ∈ live, heap.getCellFromPointer entry.1 = .ok entry.2
  live_reachable : ∀ entry ∈ live, heap.Reachable entry.1
  work_reachable : ∀ pointer ∈ work, heap.Reachable pointer
  closed : ∀ entry ∈ live, ∀ child ∈ entry.2.pointers, child ∈ work ∨ child ∈ live.map Prod.fst
  roots : ∀ pointer ∈ heap.rootPointers, pointer ∈ work ∨ pointer ∈ live.map Prod.fst

theorem traced_start (heap : Heap Code) :
    heap.Traced heap.rootPointers (List.replicate heap.slots.length false) [] := by
  constructor
  · simp
  · simp [List.getElem?_replicate]
  · simp
  · simp
  · simp
  · exact fun pointer member => .root member
  · simp
  · exact fun pointer member => .inl member

/-- A pointer whose slot was seen is among the live ones. -/
theorem traced_skip {pointer : InternalPtr} {work : List InternalPtr} {seen : List Bool}
    {live : List (InternalPtr × Cell Code InternalPtr)} {slot : HeapSlot Code}
    (traced : heap.Traced (pointer :: work) seen live)
    (valid : heap.getSlotChecked pointer = .ok slot) (isSeen : seen[pointer.index]? = some true) :
    heap.Traced work seen live := by
  obtain ⟨entry, member, sameIndex⟩ := (traced.seen_iff _).mp isSeen
  have same : entry.1 = pointer :=
    pointer_eq_of_index_eq (getSlotChecked_of_cell (traced.found entry member)) valid sameIndex
  have isLive : pointer ∈ live.map Prod.fst := same ▸ List.mem_map_of_mem member
  have drop : ∀ other, other ∈ pointer :: work ∨ other ∈ live.map Prod.fst →
      other ∈ work ∨ other ∈ live.map Prod.fst := by
    rintro other (inWork | inLive)
    · rcases List.mem_cons.mp inWork with rfl | inWork
      · exact .inr isLive
      · exact .inl inWork
    · exact .inr inLive
  exact { traced with
    work_reachable := fun other inWork => traced.work_reachable other (.tail _ inWork)
    closed := fun entry member child edge => drop child (traced.closed entry member child edge)
    roots := fun other isRoot => drop other (traced.roots other isRoot) }

theorem traced_visit {pointer : InternalPtr} {work : List InternalPtr} {seen : List Bool}
    {live : List (InternalPtr × Cell Code InternalPtr)} {cell : Cell Code InternalPtr}
    (traced : heap.Traced (pointer :: work) seen live)
    (found : heap.getCellFromPointer pointer = .ok cell)
    (notSeen : seen[pointer.index]? = some false) :
    heap.Traced (work ++ cell.tracePointers) (seen.set pointer.index true)
      (live ++ [(pointer, cell)]) := by
  have reachable := traced.work_reachable pointer (.head _)
  have keep : ∀ other, other ∈ pointer :: work ∨ other ∈ live.map Prod.fst →
      other ∈ work ++ cell.pointers ∨ other ∈ (live ++ [(pointer, cell)]).map Prod.fst := by
    intro other
    simp only [List.mem_cons, List.map_append, List.map_cons, List.map_nil, List.mem_append]
    tauto
  obtain ⟨bound, isFalse⟩ := List.getElem?_eq_some_iff.mp notSeen
  rw [Cell.tracePointers_eq]
  constructor
  · simpa using traced.seen_length
  · intro index
    rw [List.getElem?_set]
    by_cases same : pointer.index = index
    · subst same
      simp [bound]
    · rw [if_neg same, traced.seen_iff]
      simp [same]
  · rw [List.map_append, List.nodup_append]
    refine ⟨traced.nodup, by simp, ?_⟩
    rintro index member _ isPointer rfl
    obtain ⟨entry, inLive, sameIndex⟩ := List.mem_map.mp member
    have seenBefore := (traced.seen_iff pointer.index).mpr
      ⟨entry, inLive, sameIndex.trans (by simpa using isPointer)⟩
    rw [notSeen] at seenBefore
    cases seenBefore
  · intro entry member
    rcases List.mem_append.mp member with member | member
    · exact traced.found entry member
    · cases List.mem_singleton.mp member
      exact found
  · intro entry member
    rcases List.mem_append.mp member with member | member
    · exact traced.live_reachable entry member
    · cases List.mem_singleton.mp member
      exact reachable
  · intro other member
    rcases List.mem_append.mp member with member | member
    · exact traced.work_reachable other (.tail _ member)
    · exact .child reachable found member
  · intro entry member child edge
    rcases List.mem_append.mp member with member | member
    · exact keep child (traced.closed entry member child edge)
    · cases List.mem_singleton.mp member
      exact .inl (List.mem_append_right _ edge)
  · exact fun other isRoot => keep other (traced.roots other isRoot)

/-- What a successful tracing returns. -/
structure LiveCells (heap : Heap Code) (live : List (InternalPtr × Cell Code InternalPtr)) :
    Prop where
  nodup : (live.map (·.1.index)).Nodup
  found : ∀ entry ∈ live, heap.getCellFromPointer entry.1 = .ok entry.2
  reachable_iff : ∀ pointer, heap.Reachable pointer ↔ pointer ∈ live.map Prod.fst

theorem liveCells_of_traced {seen : List Bool} {live : List (InternalPtr × Cell Code InternalPtr)}
    (traced : heap.Traced [] seen live) : heap.LiveCells live := by
  refine ⟨traced.nodup, traced.found, fun pointer => ⟨fun reachable => ?_, fun member => ?_⟩⟩
  · induction reachable with
    | root isRoot => simpa using traced.roots _ isRoot
    | @child parent cell child _ found edge hypothesis =>
        obtain ⟨entry, inLive, rfl⟩ := List.mem_map.mp hypothesis
        have sameCell := traced.found entry inLive
        rw [found] at sameCell
        cases sameCell
        simpa using traced.closed entry inLive child edge
  · obtain ⟨entry, inLive, rfl⟩ := List.mem_map.mp member
    exact traced.live_reachable entry inLive

theorem liveCells_of_traceLive {work : List InternalPtr} {seen : List Bool}
    {live result : List (InternalPtr × Cell Code InternalPtr)}
    (traced : heap.Traced work seen live) (ran : heap.traceLive work seen live = .ok result) :
    heap.LiveCells result := by
  fun_induction traceLive heap work seen live with
  | case1 seen live =>
      cases ran
      exact liveCells_of_traced traced
  | case2 => cases ran
  | case3 => cases ran
  | case4 seen live pointer work slot valid isSeen hypothesis =>
      exact hypothesis (traced_skip traced valid isSeen) ran
  | case5 => cases ran
  | case6 seen live pointer work slot valid notSeen cell contents hypothesis =>
      exact hypothesis (traced_visit traced (cell_of_getSlotChecked valid contents) notSeen) ran

/-- Tracing succeeds when every reachable pointer is valid. -/
theorem exists_traceLive {work : List InternalPtr} {seen : List Bool}
    {live : List (InternalPtr × Cell Code InternalPtr)} (traced : heap.Traced work seen live)
    (valid : ∀ pointer, heap.Reachable pointer → ∃ cell, heap.getCellFromPointer pointer = .ok cell) :
    ∃ result, heap.traceLive work seen live = .ok result := by
  fun_induction traceLive heap work seen live with
  | case1 seen live => exact ⟨live, rfl⟩
  | case2 seen live pointer work error invalid =>
      obtain ⟨cell, found⟩ := valid pointer (traced.work_reachable pointer (.head _))
      rw [getSlotChecked_of_cell found] at invalid
      cases invalid
  | case3 seen live pointer work slot found outside =>
      obtain ⟨-, inSlots, -, -⟩ := getSlotChecked_ok_iff.1 found
      obtain ⟨bound, -⟩ := List.getElem?_eq_some_iff.mp inSlots
      rw [List.getElem?_eq_none_iff, traced.seen_length] at outside
      omega
  | case4 seen live pointer work slot found isSeen hypothesis =>
      exact hypothesis (traced_skip traced found isSeen)
  | case5 seen live pointer work slot found notSeen empty =>
      obtain ⟨-, -, -, present⟩ := getSlotChecked_ok_iff.1 found
      simp [empty] at present
  | case6 seen live pointer work slot found notSeen cell contents hypothesis =>
      exact hypothesis (traced_visit traced (cell_of_getSlotChecked found contents) notSeen)

end Heap

end RexLang
