import RexLang.ListDenotations

/-!
# Walks over the cells of a list

Each walk answers by what the list denotes, whatever representations its cells
mix.
-/

namespace RexLang

variable {Code : Type} {heap : Heap Code}

/-- The value of an element of a walk. -/
def Heap.elementValue (heap : Heap Code) : ListElement → ElementValue
  | .internalPtr pointer => heap.valueAt pointer
  | .u8 value => .byte value

theorem Walk.bind_ok {First Second : Type} {outcome : Except MemoryError First} {value : First}
    (found : outcome = .ok value) (next : First → Walk Second) :
    ((liftM outcome : Walk First) >>= next) = next value := by
  rw [found]
  rfl

theorem Walk.bind_error {First Second : Type} {outcome : Except MemoryError First}
    {error : MemoryError} (failed : outcome = .error error) (next : First → Walk Second) :
    ((liftM outcome : Walk First) >>= next) = some (.error error) := by
  rw [failed]
  rfl

/-! ## Bounds -/

theorem validateListSliceBounds_ok_iff {dataLen start finish : Nat} :
    validateListSliceBounds dataLen start finish = .ok () ↔ start ≤ finish ∧ finish ≤ dataLen := by
  rw [validateListSliceBounds]
  split
  · simp only [reduceCtorEq, false_iff]
    omega
  · split
    · simp only [reduceCtorEq, false_iff]
      omega
    · simp only [true_iff]
      omega

theorem checkedAddUsize_ok {first second : Nat} (small : first + second < 2 ^ 64)
    (overflow : String) : checkedAddUsize first second overflow = .ok (first + second) := by
  rw [checkedAddUsize, if_pos small]

/-! ## Elements -/

theorem appendListSliceElements_data {elements : InternalPtr} {values : List InternalPtr}
    {start finish : Nat} (backing : heap.getCellFromPointer elements = .ok (.data values))
    (ordered : start ≤ finish) (bounded : finish ≤ values.length) (out : List ListElement) :
    appendListSliceElements heap elements start finish out =
      .ok (out ++ (subrange values start finish).map .internalPtr) := by
  rw [appendListSliceElements, Scope.cellAt_ok backing]
  refine bind_eq_ok.mpr ⟨_, rfl, ?_⟩
  exact bind_eq_ok.mpr ⟨(), validateListSliceBounds_ok_iff.2 ⟨ordered, bounded⟩, rfl⟩

theorem appendListSliceElements_binaryData {elements : InternalPtr} {values : List UInt8}
    {start finish : Nat} (backing : heap.getCellFromPointer elements = .ok (.binaryData values))
    (ordered : start ≤ finish) (bounded : finish ≤ values.length) (out : List ListElement) :
    appendListSliceElements heap elements start finish out =
      .ok (out ++ (subrange values start finish).map .u8) := by
  rw [appendListSliceElements, Scope.cellAt_ok backing]
  refine bind_eq_ok.mpr ⟨_, rfl, ?_⟩
  exact bind_eq_ok.mpr ⟨(), validateListSliceBounds_ok_iff.2 ⟨ordered, bounded⟩, rfl⟩

/-- What a walk over the elements has found. -/
structure ElementsOf (heap : Heap Code) (pointer : InternalPtr) (elements : List ListElement)
    (values : List ElementValue) : Prop where
  values : elements.map heap.elementValue = values
  reachable : heap.Reachable pointer → ∀ child, .internalPtr child ∈ elements → heap.Reachable child

theorem elementsOf_data {pointer backing : InternalPtr} {start finish : Nat}
    {values : List InternalPtr}
    (found : heap.getCellFromPointer pointer = .ok (.listSlice start finish backing))
    (foundBacking : heap.getCellFromPointer backing = .ok (.data values)) :
    ElementsOf heap pointer ((subrange values start finish).map .internalPtr)
      ((subrange values start finish).map heap.valueAt) := by
  refine ⟨?_, fun reachable child member => ?_⟩
  · rw [List.map_map]
    rfl
  · obtain ⟨other, inRange, same⟩ := List.mem_map.mp member
    cases same
    exact .child (.child reachable found List.mem_cons_self) foundBacking (mem_subrange inRange)

theorem elementsOf_binaryData {pointer : InternalPtr} {start finish : Nat} {values : List UInt8} :
    ElementsOf heap pointer ((subrange values start finish).map .u8)
      ((subrange values start finish).map .byte) := by
  refine ⟨?_, fun _ child member => ?_⟩
  · rw [List.map_map]
    rfl
  · obtain ⟨other, -, same⟩ := List.mem_map.mp member
    cases same

/-- The loop appends the elements of the list. -/
theorem listElementsLoop_ok {pointer : InternalPtr} {values : List ElementValue}
    (denotes : Denotes heap pointer values) {steps fuel : Nat}
    (walk : WalkSteps heap steps pointer) (enough : steps < fuel)
    {cell : Cell Code InternalPtr} (isCell : heap.getCellFromPointer pointer = .ok cell)
    (out : List ListElement) :
    ∃ elements, listElementsLoop heap fuel cell out = some (.ok (out ++ elements)) ∧
      ElementsOf heap pointer elements values := by
  induction denotes generalizing steps fuel cell out with
  | empty found =>
      obtain ⟨fuel, rfl⟩ := Nat.exists_eq_add_one_of_ne_zero (Nat.ne_zero_of_lt enough)
      rw [found] at isCell
      cases isCell
      refine ⟨[], ?_, ⟨rfl, by simp⟩⟩
      rw [List.append_nil]
      rfl
  | @cons pointer head tail values found rest hypothesis =>
      obtain ⟨fuel, rfl⟩ := Nat.exists_eq_add_one_of_ne_zero (Nat.ne_zero_of_lt enough)
      rw [found] at isCell
      cases isCell
      obtain ⟨fewer, rfl, walkTail⟩ := walk.of_cons found
      obtain ⟨cell, foundTail⟩ := walkTail.exists_slot
      obtain ⟨elements, ran, same, reachable⟩ := hypothesis walkTail
        (Nat.lt_of_succ_lt_succ enough) foundTail (out ++ [.internalPtr head])
      refine ⟨.internalPtr head :: elements, ?_, ?_, fun isReachable child member => ?_⟩
      · rw [listElementsLoop, Walk.bind_ok (Scope.cellAt_ok foundTail), ran, List.append_assoc]
        rfl
      · rw [List.map_cons, same]
        rfl
      · rcases List.mem_cons.mp member with same | member
        · cases same
          exact .child isReachable found List.mem_cons_self
        · exact reachable (.child isReachable found (.tail _ List.mem_cons_self)) child member
  | slice found backing ordered bounded small =>
      obtain ⟨fuel, rfl⟩ := Nat.exists_eq_add_one_of_ne_zero (Nat.ne_zero_of_lt enough)
      rw [found] at isCell
      cases isCell
      refine ⟨_, ?_, elementsOf_data found backing⟩
      rw [listElementsLoop, appendListSliceElements_data backing ordered bounded]
      rfl
  | binarySlice found backing ordered bounded small =>
      obtain ⟨fuel, rfl⟩ := Nat.exists_eq_add_one_of_ne_zero (Nat.ne_zero_of_lt enough)
      rw [found] at isCell
      cases isCell
      refine ⟨_, ?_, elementsOf_binaryData⟩
      rw [listElementsLoop, appendListSliceElements_binaryData backing ordered bounded]
      rfl

theorem listElementsFromCell_ok {pointer : InternalPtr} {values : List ElementValue}
    (denotes : Denotes heap pointer values) {cell : Cell Code InternalPtr}
    (isCell : heap.getCellFromPointer pointer = .ok cell) :
    ∃ elements, listElementsFromCell heap cell = some (.ok elements) ∧
      ElementsOf heap pointer elements values := by
  obtain ⟨steps, walk⟩ := denotes.exists_walkSteps
  exact listElementsLoop_ok denotes walk walk.lt_walkLimit isCell []

theorem listElementsFromPointer_ok {pointer : InternalPtr} {values : List ElementValue}
    (denotes : Denotes heap pointer values) :
    ∃ elements, listElementsFromPointer heap pointer = some (.ok elements) ∧
      ElementsOf heap pointer elements values := by
  obtain ⟨steps, walk⟩ := denotes.exists_walkSteps
  obtain ⟨cell, found⟩ := walk.exists_slot
  rw [listElementsFromPointer, Walk.bind_ok (Scope.cellAt_ok found)]
  exact listElementsFromCell_ok denotes found

/-! ## Lengths -/

theorem listLenLoop_ok {pointer : InternalPtr} {values : List ElementValue}
    (denotes : Denotes heap pointer values) {steps fuel : Nat}
    (walk : WalkSteps heap steps pointer) (enough : steps < fuel)
    {cell : Cell Code InternalPtr} (isCell : heap.getCellFromPointer pointer = .ok cell)
    {len : Nat} (small : len + values.length < 2 ^ 64) :
    listLenLoop heap fuel cell len = some (.ok (len + values.length)) := by
  induction denotes generalizing steps fuel cell len with
  | empty found =>
      obtain ⟨fuel, rfl⟩ := Nat.exists_eq_add_one_of_ne_zero (Nat.ne_zero_of_lt enough)
      rw [found] at isCell
      cases isCell
      rfl
  | @cons pointer head tail values found rest hypothesis =>
      obtain ⟨fuel, rfl⟩ := Nat.exists_eq_add_one_of_ne_zero (Nat.ne_zero_of_lt enough)
      rw [found] at isCell
      cases isCell
      rw [List.length_cons] at small ⊢
      obtain ⟨fewer, rfl, walkTail⟩ := walk.of_cons found
      obtain ⟨cell, foundTail⟩ := walkTail.exists_slot
      have ran := hypothesis walkTail (Nat.lt_of_succ_lt_succ enough) foundTail
        (show len + 1 + values.length < 2 ^ 64 by omega)
      rw [listLenLoop, Walk.bind_ok (checkedAddUsize_ok (by omega) _),
        Walk.bind_ok (Scope.cellAt_ok foundTail), ran, Nat.add_assoc, Nat.add_comm 1]
  | slice found backing ordered bounded =>
      obtain ⟨fuel, rfl⟩ := Nat.exists_eq_add_one_of_ne_zero (Nat.ne_zero_of_lt enough)
      rw [found] at isCell
      cases isCell
      rw [List.length_map, length_subrange bounded] at small ⊢
      rw [listLenLoop, Walk.bind_ok (Scope.cellAt_ok backing),
        Walk.bind_ok (show listSliceBackingLen _ = .ok _ from rfl),
        Walk.bind_ok (validateListSliceBounds_ok_iff.2 ⟨ordered, bounded⟩),
        checkedAddUsize_ok small]
      rfl
  | binarySlice found backing ordered bounded =>
      obtain ⟨fuel, rfl⟩ := Nat.exists_eq_add_one_of_ne_zero (Nat.ne_zero_of_lt enough)
      rw [found] at isCell
      cases isCell
      rw [List.length_map, length_subrange bounded] at small ⊢
      rw [listLenLoop, Walk.bind_ok (Scope.cellAt_ok backing),
        Walk.bind_ok (show listSliceBackingLen _ = .ok _ from rfl),
        Walk.bind_ok (validateListSliceBounds_ok_iff.2 ⟨ordered, bounded⟩),
        checkedAddUsize_ok small]
      rfl

theorem listLenFromPointer_ok (sound : heap.Sound) {pointer : InternalPtr}
    {values : List ElementValue} (denotes : Denotes heap pointer values) :
    listLenFromPointer heap pointer = some (.ok values.length) := by
  obtain ⟨steps, walk⟩ := denotes.exists_walkSteps
  obtain ⟨cell, found⟩ := walk.exists_slot
  have small := denotes.length_lt sound
  rw [listLenFromPointer, Walk.bind_ok (Scope.cellAt_ok found),
    listLenLoop_ok denotes walk walk.lt_walkLimit found (by omega), Nat.zero_add]

/-! ## Bytes -/

theorem byteAt_ok_iff {pointer : InternalPtr} {value : UInt8} :
    byteAt heap pointer = .ok value ↔ heap.valueAt pointer = .byte value := by
  rw [Heap.valueAt_eq_byte_iff, byteAt, Heap.cellAt]
  cases heap.getCellFromPointer pointer with
  | error message =>
      constructor
      · intro same
        cases same
      · intro same
        cases same
  | ok cell =>
      change cell.cellAsU8 = .ok value ↔ _
      cases cell with
      | u8 other => simp [Cell.cellAsU8]
      | _ => simp [Cell.cellAsU8]

theorem bytesAt_ok_iff {pointers : List InternalPtr} {bytes : List UInt8} :
    bytesAt heap pointers = .ok bytes ↔ pointers.map heap.valueAt = bytes.map .byte := by
  induction pointers generalizing bytes with
  | nil =>
      rw [bytesAt, List.mapM_nil, List.map_nil]
      simp [pure, Except.pure, eq_comm]
  | cons pointer pointers hypothesis =>
      rw [bytesAt, List.mapM_cons, bind_eq_ok, List.map_cons]
      constructor
      · rintro ⟨value, isByte, ran⟩
        obtain ⟨rest, areBytes, same⟩ := exists_of_bind_eq_ok ran
        cases same
        rw [List.map_cons, byteAt_ok_iff.1 isByte, hypothesis.mp areBytes]
      · intro same
        obtain ⟨value, rest, rfl, isByte, areBytes⟩ := List.map_eq_cons_iff.mp same.symm
        exact ⟨value, byteAt_ok_iff.2 isByte.symm,
          bind_eq_ok.mpr ⟨rest, hypothesis.mpr areBytes.symm, rfl⟩⟩

/-- The outcome of the collection of bytes. -/
def CollectsBytes (out : List UInt8) (values : List ElementValue)
    (outcome : Option (Except MemoryError (List UInt8))) : Prop :=
  ∃ result, outcome = some result ∧
    ∀ bytes, result = .ok bytes ↔ ∃ rest, bytes = out ++ rest ∧ values = rest.map .byte

theorem collectsBytes_of_ok {out found : List UInt8} :
    CollectsBytes out (found.map .byte) (some (.ok (out ++ found))) := by
  refine ⟨_, rfl, fun bytes => ?_⟩
  constructor
  · intro same
    cases same
    exact ⟨found, rfl, rfl⟩
  · rintro ⟨rest, rfl, same⟩
    rw [List.map_injective_iff.mpr (fun _ _ same => ElementValue.byte.inj same) same]

theorem collectListU8Loop_collects {pointer : InternalPtr} {values : List ElementValue}
    (denotes : Denotes heap pointer values) {steps fuel : Nat}
    (walk : WalkSteps heap steps pointer) (enough : steps < fuel)
    {cell : Cell Code InternalPtr} (isCell : heap.getCellFromPointer pointer = .ok cell)
    (out : List UInt8) : CollectsBytes out values (collectListU8Loop heap fuel cell out) := by
  induction denotes generalizing steps fuel cell out with
  | empty found =>
      obtain ⟨fuel, rfl⟩ := Nat.exists_eq_add_one_of_ne_zero (Nat.ne_zero_of_lt enough)
      rw [found] at isCell
      cases isCell
      have collects := @collectsBytes_of_ok out []
      rw [List.append_nil] at collects
      exact collects
  | @cons pointer head tail values found rest hypothesis =>
      obtain ⟨fuel, rfl⟩ := Nat.exists_eq_add_one_of_ne_zero (Nat.ne_zero_of_lt enough)
      rw [found] at isCell
      cases isCell
      obtain ⟨fewer, rfl, walkTail⟩ := walk.of_cons found
      obtain ⟨cell, foundTail⟩ := walkTail.exists_slot
      rw [collectListU8Loop]
      cases isByte : byteAt heap head with
      | error error =>
          rw [Walk.bind_error rfl]
          refine ⟨_, rfl, fun bytes => ⟨nofun, ?_⟩⟩
          rintro ⟨collected, -, same⟩
          obtain ⟨value, others, rfl, isValue, -⟩ := List.map_eq_cons_iff.mp same.symm
          rw [byteAt_ok_iff.2 isValue.symm] at isByte
          cases isByte
      | ok value =>
          rw [Walk.bind_ok rfl, Walk.bind_ok (Scope.cellAt_ok foundTail)]
          obtain ⟨result, ran, collects⟩ := hypothesis walkTail (Nat.lt_of_succ_lt_succ enough)
            foundTail (out ++ [value])
          refine ⟨result, ran, fun bytes => (collects bytes).trans ?_⟩
          rw [byteAt_ok_iff.1 isByte]
          constructor
          · rintro ⟨collected, rfl, rfl⟩
            exact ⟨value :: collected, by simp, rfl⟩
          · rintro ⟨collected, rfl, same⟩
            obtain ⟨other, others, rfl, isValue, rfl⟩ := List.map_eq_cons_iff.mp same.symm
            cases isValue
            exact ⟨others, by simp, rfl⟩
  | @slice pointer start finish elements pointers found backing ordered bounded =>
      obtain ⟨fuel, rfl⟩ := Nat.exists_eq_add_one_of_ne_zero (Nat.ne_zero_of_lt enough)
      rw [found] at isCell
      cases isCell
      rw [collectListU8Loop, Walk.bind_ok (Scope.cellAt_ok backing)]
      dsimp only
      rw [Walk.bind_ok (validateListSliceBounds_ok_iff.mpr ⟨ordered, bounded⟩)]
      cases areBytes : bytesAt heap (subrange pointers start finish) with
      | error error =>
          rw [Walk.bind_error rfl]
          refine ⟨_, rfl, fun bytes => ⟨nofun, ?_⟩⟩
          rintro ⟨collected, -, same⟩
          rw [bytesAt_ok_iff.2 same] at areBytes
          cases areBytes
      | ok collected =>
          rw [Walk.bind_ok rfl, bytesAt_ok_iff.1 areBytes]
          exact collectsBytes_of_ok
  | binarySlice found backing ordered bounded =>
      obtain ⟨fuel, rfl⟩ := Nat.exists_eq_add_one_of_ne_zero (Nat.ne_zero_of_lt enough)
      rw [found] at isCell
      cases isCell
      rw [collectListU8Loop, Walk.bind_ok (Scope.cellAt_ok backing)]
      dsimp only
      rw [Walk.bind_ok (validateListSliceBounds_ok_iff.mpr ⟨ordered, bounded⟩)]
      exact collectsBytes_of_ok

/-- The bytes are collected if and only if every value is a byte. -/
theorem collectListU8_collects (sound : heap.Sound) {pointer : InternalPtr}
    {values : List ElementValue} (denotes : Denotes heap pointer values) :
    ∃ result, collectListU8 heap pointer = some result ∧
      ∀ bytes, result = .ok bytes ↔ values = bytes.map .byte := by
  obtain ⟨steps, walk⟩ := denotes.exists_walkSteps
  obtain ⟨cell, found⟩ := walk.exists_slot
  obtain ⟨result, ran, collects⟩ :=
    collectListU8Loop_collects denotes walk walk.lt_walkLimit found []
  refine ⟨result, ?_, fun bytes => (collects bytes).trans ?_⟩
  · rw [collectListU8]
    change ExceptT.bindCont _ =<< listLenFromPointer heap pointer = _
    rw [listLenFromPointer_ok sound denotes]
    change ((liftM (heap.cellAt pointer) : Walk _) >>= _) = _
    rw [Walk.bind_ok (Scope.cellAt_ok found)]
    exact ran
  · simp

/-! ## Items -/

/-- What the items of a list have found. -/
inductive SeedOf (heap : Heap Code) (pointer : InternalPtr) (values : List ElementValue) :
    ListItemsSeed → Prop where
  | empty (same : values = []) : SeedOf heap pointer values (.ready (.pointers []))
  | slice {elements start finish pointers} (edge : heap.Reachable pointer → heap.Reachable elements)
      (backing : heap.getCellFromPointer elements = .ok (.data pointers))
      (ordered : start ≤ finish) (bounded : finish ≤ pointers.length)
      (small : pointers.length < 2 ^ 63)
      (same : values = (subrange pointers start finish).map heap.valueAt) :
      SeedOf heap pointer values (.ready (.slice elements start finish))
  | binarySlice {elements start finish bytes}
      (edge : heap.Reachable pointer → heap.Reachable elements)
      (length : bytes.length = finish - start) (same : values = bytes.map .byte) :
      SeedOf heap pointer values (.ready (.binarySlice elements start finish bytes))
  | elements {elements} (found : ElementsOf heap pointer elements values) :
      SeedOf heap pointer values (.elements elements)

theorem listItemsFromPointer_ok {pointer : InternalPtr} {values : List ElementValue}
    (denotes : Denotes heap pointer values) :
    ∃ seed, listItemsFromPointer heap pointer = some (.ok seed) ∧
      SeedOf heap pointer values seed := by
  cases denotes with
  | empty found =>
      refine ⟨_, ?_, .empty rfl⟩
      rw [listItemsFromPointer, Walk.bind_ok (Scope.cellAt_ok found)]
      rfl
  | cons found rest =>
      obtain ⟨elements, ran, isElements⟩ := listElementsFromCell_ok (.cons found rest) found
      refine ⟨_, ?_, .elements isElements⟩
      rw [listItemsFromPointer, Walk.bind_ok (Scope.cellAt_ok found)]
      change ExceptT.bindCont _ =<< listElementsFromCell heap _ = _
      rw [ran]
      rfl
  | slice found backing ordered bounded small =>
      refine ⟨_, ?_, .slice (fun reachable => .child reachable found List.mem_cons_self) backing
        ordered bounded small rfl⟩
      rw [listItemsFromPointer, Walk.bind_ok (Scope.cellAt_ok found)]
      dsimp only
      rw [Walk.bind_ok (Scope.cellAt_ok backing)]
      dsimp only
      rw [Walk.bind_ok (validateListSliceBounds_ok_iff.mpr ⟨ordered, bounded⟩)]
      rfl
  | binarySlice found backing ordered bounded small =>
      refine ⟨_, ?_, .binarySlice (fun reachable => .child reachable found List.mem_cons_self)
        (length_subrange bounded) rfl⟩
      rw [listItemsFromPointer, Walk.bind_ok (Scope.cellAt_ok found)]
      dsimp only
      rw [Walk.bind_ok (Scope.cellAt_ok backing)]
      dsimp only
      rw [Walk.bind_ok (validateListSliceBounds_ok_iff.mpr ⟨ordered, bounded⟩)]
      rfl

end RexLang
