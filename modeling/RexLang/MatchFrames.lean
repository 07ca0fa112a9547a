import RexLang.HeapMatching

/-!
# The arms of a match

The match frame takes the first arm, in source order, that has the scrutinee as an
instance.  Matching ends without an error but for an exhausted heap, where it cannot
allocate the tail of a slice or a byte of its own.
-/

namespace RexLang

open Scope

variable {Code Value Call : Type}

section Arms

variable {adts : SymbolMap AdtDecl}

/-- The first of the arms with an instance, its expression, and roots of the values of
its variables. -/
structure FirstMatch (adts : SymbolMap AdtDecl) (arms : List FrMatchArm) (value : HeapValue)
    (heap : Heap Code) (image : InternalPtr → InternalPtr) (index : Nat) (expr : TypedExpr)
    (bound : SymbolMap RootedPtr) : Prop where
  chosen : ∃ arm bindings, arms[index]? = some arm ∧ arm.expr = expr ∧
    IsInstance adts arm.pattern value bindings ∧ Binds heap image bindings bound
  first : ∀ earlier arm, earlier < index → arms[earlier]? = some arm →
    ∀ bindings, ¬ IsInstance adts arm.pattern value bindings

/-- No arm matches, or the heap is exhausted. -/
def MatchFault (adts : SymbolMap AdtDecl) (arms : List FrMatchArm) (value : HeapValue)
    (fault : Fault) : Prop :=
  OutOfMemoryFault fault ∨ fault = .error (.raised .matchFailure) ∧
    ∀ arm ∈ arms, ∀ bindings, ¬ IsInstance adts arm.pattern value bindings

theorem MatchFault.cons {arm : FrMatchArm} {arms : List FrMatchArm} {value : HeapValue}
    {fault : Fault} (isFault : MatchFault adts arms value fault)
    (noInstance : ∀ bindings, ¬ IsInstance adts arm.pattern value bindings) :
    MatchFault adts (arm :: arms) value fault :=
  isFault.imp id fun ⟨isFailure, others⟩ =>
    ⟨isFailure, List.forall_mem_cons.mpr ⟨noInstance, others⟩⟩

theorem FirstMatch.cons {arm : FrMatchArm} {arms : List FrMatchArm} {value : HeapValue}
    {heap : Heap Code} {image : InternalPtr → InternalPtr} {index : Nat} {expr : TypedExpr}
    {bound : SymbolMap RootedPtr} (isFirst : FirstMatch adts arms value heap image index expr bound)
    (noInstance : ∀ bindings, ¬ IsInstance adts arm.pattern value bindings) :
    FirstMatch adts (arm :: arms) value heap image (index + 1) expr bound := by
  refine ⟨isFirst.chosen, fun earlier other below found => ?_⟩
  cases earlier with
  | zero =>
      cases found
      exact noInstance
  | succ earlier => exact isFirst.first earlier other (Nat.lt_of_succ_lt_succ below) found

variable (others : EvalServer Code Value Call)

/-- The loop over the arms of a match. -/
theorem serves_firstMatchingArm (prelude : PreludeList adts) {arms : List FrMatchArm}
    {heap : Heap Code} {image : InternalPtr → InternalPtr} {root : RootedPtr} {value : HeapValue}
    (start : Nat) (sound : heap.Sound) (suits : ∀ arm ∈ arms, Suits adts arm.pattern value)
    (holds : HoldsValue heap image root value) :
    Serves others (MatchFault adts arms value) heap (firstMatchingArm root start arms)
      fun answer next after => ∃ index, answer.1 = start + index ∧
        FirstMatch adts arms value next (after ∘ image) index answer.2.1 answer.2.2 := by
  induction arms generalizing heap image start with
  | nil => exact .inr ⟨_, _, rfl, .inr ⟨rfl, by simp⟩⟩
  | cons arm arms hypothesis =>
      rw [List.forall_mem_cons] at suits
      rw [firstMatchingArm]
      have found := findsInstances others prelude arm.pattern heap image root value sound suits.1
        holds
      refine Serves.bind (found.weaken fun _ => .inl) fun result later moved moves reports => ?_
      cases result with
      | some bound =>
          obtain ⟨bindings, isInstance, binds⟩ := reports
          exact Serves.pure moves.sound
            ⟨0, rfl, ⟨arm, bindings, rfl, rfl, isInstance, binds⟩, nofun⟩
      | none =>
          have rest := hypothesis (start + 1) moves.sound suits.2 (holds.move sound moves)
          refine (rest.weaken fun _ isFault => isFault.cons reports).mono
            fun answer last after _ chosen => ?_
          obtain ⟨index, isIndex, isFirst⟩ := chosen
          exact ⟨index + 1, by omega, isFirst.cons reports⟩

/-! ## The frame -/

theorem run_replace {store : FrameStore (Frame RootedPtr)} {frameId : FrameId}
    {old : Frame RootedPtr} (found : store.frames frameId = some old) (frame : Frame RootedPtr) :
    (FrameM.replace frameId frame : FrameM RootedPtr Value Call Unit).run store =
      pure ((), store.put frameId (some frame)) := by
  have required : (EvalM.require (FrameM.unknownFrame frameId) (store.frames frameId) :
      EvalM RootedPtr Value Call (Frame RootedPtr)) = pure old := by
    rw [found]
    rfl
  change (EvalM.require (FrameM.unknownFrame frameId) (store.frames frameId) >>=
    fun result => pure (result, store)) >>= _ = _
  rw [required]
  rfl

/-- What the match frame does when its scrutinee arrives. -/
structure ArmChosen (adts : SymbolMap AdtDecl) (frameId : FrameId) (frame : FrMatch RootedPtr)
    (root : RootedPtr) (value : HeapValue) (heap : Heap Code)
    (image : InternalPtr → InternalPtr) (control : EvalControl RootedPtr)
    (store : FrameStore (Frame RootedPtr)) : Prop where
  pushes : ∃ index expr bound, FirstMatch adts frame.arms value heap image index expr bound ∧
    control = .push expr (frame.env.extendMany bound) ∧
    store.frames frameId = some (.matchWith { frame with
      scrutineeValue := some root
      nextArmIndex := index
      matchedEnv := some (frame.env.extendMany bound)
      state := .evalArm })

theorem serves_evalMatchReceive (prelude : PreludeList adts) {frame : FrMatch RootedPtr}
    {frameId : FrameId} {store : FrameStore (Frame RootedPtr)} {old : Frame RootedPtr}
    {heap : Heap Code} {image : InternalPtr → InternalPtr} {root : RootedPtr} {value : HeapValue}
    (waiting : frame.state = .evalScrutinee) (start : frame.nextArmIndex = 0)
    (stored : store.frames frameId = some old) (sound : heap.Sound)
    (suits : ∀ arm ∈ frame.arms, Suits adts arm.pattern value)
    (holds : HoldsValue heap image root value) :
    Serves others (MatchFault adts frame.arms value) heap
      ((evalMatchReceive frameId frame root).run store)
      fun answer next after =>
        ArmChosen adts frameId frame root value next (after ∘ image) answer.1 answer.2 := by
  have chosen := serves_firstMatchingArm others prelude 0 sound suits holds
  rw [evalMatchReceive, waiting]
  simp only [start, List.drop_zero]
  change Serves others _ heap ((firstMatchingArm root 0 frame.arms >>= fun answer =>
    pure (answer, store)) >>= _) _
  rw [bind_assoc]
  refine Serves.bind chosen fun answer later moved moves isChosen => ?_
  obtain ⟨index, expr, bound⟩ := answer
  obtain ⟨offset, isOffset, isFirst⟩ := isChosen
  obtain rfl : index = offset := isOffset.trans (Nat.zero_add offset)
  change Serves others _ later ((FrameM.replace frameId (.matchWith { frame with
    scrutineeValue := some root
    nextArmIndex := index
    matchedEnv := some (frame.env.extendMany bound)
    state := .evalArm })).run store >>= fun answer =>
      pure (EvalControl.push expr (frame.env.extendMany bound), answer.2)) _
  rw [run_replace stored]
  exact Serves.pure moves.sound ⟨index, expr, bound, isFirst, rfl, if_pos rfl⟩

end Arms

/-! ## A slice of bytes -/

/-- A heap with a root for a slice of one byte, and spare slots. -/
def byteSliceHeap (spare : List (HeapSlot Unit)) : Heap Unit where
  id := 0
  slots := ⟨0, some (.binaryData [7])⟩ :: ⟨0, some (.listSlice 0 1 ⟨0, 0, 0⟩)⟩ :: spare
  runtimeRoots := ⟨[⟨0, some ⟨0, 1, 0⟩⟩], [], List.nodup_nil, by simp⟩
  nextGcSlotCount := 2 ^ 32 + 2 ^ 29
  extremeStress := false
  collectionEpoch := 1
  deferCollection := false

theorem sound_byteSliceHeap {spare : List (HeapSlot Unit)} (room : spare.length + 2 ≤ 2 ^ 32) :
    (byteSliceHeap spare).Sound := by
  refine @Heap.Sound.of_closed _ _ (fun pointer => pointer = ⟨0, 0, 0⟩ ∨ pointer = ⟨0, 1, 0⟩)
    ?_ ?_ room
  · intro pointer isRoot
    exact .inr (List.mem_singleton.mp isRoot)
  · rintro pointer (rfl | rfl)
    · exact ⟨.binaryData [7], rfl, by simp [Cell.pointers]⟩
    · exact ⟨.listSlice 0 1 ⟨0, 0, 0⟩, rfl, by simp [Cell.pointers]⟩

theorem holds_byteSliceHeap (spare : List (HeapSlot Unit)) :
    HoldsValue (byteSliceHeap spare) id ⟨0, 0, 0⟩ (.list [.byte 7]) := by
  have bytes : (byteSliceHeap spare).getCellFromPointer ⟨0, 0, 0⟩ = .ok (.binaryData [7]) := rfl
  have denotes : Denotes (byteSliceHeap spare) ⟨0, 1, 0⟩ [.byte 7] :=
    .binarySlice rfl bytes (Nat.zero_le 1) le_rfl (by decide)
  exact HoldsList.holdsValue ⟨_, rfl, denotes⟩ ⟨.byte 7, [], rfl, rfl, rfl⟩

/-- `x :: xs`. -/
def headTailPattern : Pattern :=
  .cons .default (.var ⟨.default, "x"⟩) (.var ⟨.default, "xs"⟩)

theorem headTailPattern_hasType (adts : SymbolMap AdtDecl) :
    PatternHasType adts headTailPattern (.list (.builtin .u8)) :=
  .cons (.var _ _) (.var _ _)

theorem bytes_hasType (adts : SymbolMap AdtDecl) :
    (HeapValue.list [.byte 7]).HasType adts (.list (.builtin .u8)) :=
  .list fun elem member => by
    rw [List.mem_singleton.mp member]
    exact .byte 7

theorem preludeList_self : PreludeList [("List", listAdt ⟨0, some "a"⟩)] := by
  intro decl found
  cases found
  exact ⟨_, rfl⟩

/-- A heap without a free slot has no room for the byte. -/
theorem listHeadTail_byteSliceHeap {spare : List (HeapSlot Unit)}
    (full : spare.length + 2 = 2 ^ 32) :
    ∃ message later, listHeadTail ⟨0, 0, 0⟩ (byteSliceHeap spare) =
      some (.error (.internal message), later) := by
  obtain ⟨next, split, sameSlots, threshold, noStress⟩ : ∃ next,
      listHeadAndRest ⟨0, 0, 0⟩ (byteSliceHeap spare) =
        some (.ok (some (.u8 7, some (1, 1), ⟨0, 1, 0⟩)), next) ∧
      next.slots = (byteSliceHeap spare).slots ∧ next.nextGcSlotCount = 2 ^ 32 + 2 ^ 29 ∧
      next.extremeStress = false := ⟨_, rfl, rfl, rfl, rfl⟩
  have length : next.slots.length = 2 ^ 32 := sameSlots ▸ full
  have notNeeded : next.collectNeeded = false := by
    simp [Heap.collectNeeded, Heap.extremeStressEnabled, gcExtremeStress, noStress, threshold,
      length]
  have refused : next.allocReference (.u8 7) = (.error "heap exhausted: too many slots", next) := by
    rw [Heap.allocReference, notNeeded, Bool.not_false, Bool.or_true, if_pos rfl]
    exact pushCell_full (by omega)
  have failed : allocRootU8 7 next =
      some (.error (.internal "heap exhausted: too many slots"), next) := by
    refine StateAction.bind_of_error ?_
    rw [allocate_eq, refused]
    rfl
  refine ⟨"heap exhausted: too many slots", next, ?_⟩
  rw [listHeadTail, StateAction.bind_of_ok split]
  exact StateAction.bind_of_error failed

end RexLang
