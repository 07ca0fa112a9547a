import RexLang.ListSlices

/-!
# Ranges of lists

The natives of the prelude that take a range of a list answer the values of that
range where its bounds are in order and within the list.  All operations on a
list answer by the one sequence of values that it denotes.
-/

namespace RexLang

open Scope

variable {Code : Type} {heap : Heap Code} {root : RootedPtr} {values : List ElementValue}

/-! ## New lists -/

theorem exists_targets {roots : List RootedPtr} (holds : List.Forall₂ (Holds heap) roots values) :
    ∃ targets, List.Forall₂ (fun rooted target => heap.resolveRuntimeRoot rooted = .ok target)
      roots targets ∧ targets.map heap.valueAt = values := by
  induction holds with
  | nil => exact ⟨[], .nil, rfl⟩
  | cons head _ hypothesis =>
      obtain ⟨target, resolved, rfl⟩ := head
      obtain ⟨targets, others, rfl⟩ := hypothesis
      exact ⟨target :: targets, .cons resolved others, rfl⟩

theorem reachable_of_targets {roots : List RootedPtr} {targets : List InternalPtr}
    (resolved : List.Forall₂ (fun rooted target => heap.resolveRuntimeRoot rooted = .ok target)
      roots targets) : ∀ target ∈ targets, heap.Reachable target := by
  intro target member
  obtain ⟨rooted, -, isTarget⟩ := exists_of_forall₂_mem_right resolved member
  exact Heap.reachable_of_resolve isTarget

theorem yields_allocRootData (sound : heap.Sound) {roots : List RootedPtr}
    (holds : List.Forall₂ (Holds heap) roots values) (small : values.length < 2 ^ 63) :
    Yields heap (allocRootData roots) fun rooted next image =>
      HoldsArray next rooted (values.map (·.map image)) := by
  obtain ⟨targets, resolved, rfl⟩ := exists_targets holds
  refine StateAction.yields_bind_of_ok (mapM_pointer_ok resolved) ?_
  refine (yields_allocReference sound (reachable_of_targets resolved)).mono
    fun rooted next image moves allocated => ?_
  obtain ⟨target, resolvedRoot, found⟩ := allocated
  rw [Cell.map_data] at found
  have same : (targets.map heap.valueAt).map (·.map image) =
      (targets.map image).map next.valueAt := by
    rw [List.map_map, List.map_map]
    exact List.map_congr_left fun target member =>
      (moves.valueAt sound (reachable_of_targets resolved target member)).symm
  rw [same]
  refine .data resolvedRoot found ?_
  rw [List.length_map] at small ⊢
  exact small

/-- A list of new roots denotes their values. -/
theorem yields_allocRootList (sound : heap.Sound) {roots : List RootedPtr}
    (holds : List.Forall₂ (Holds heap) roots values) (small : values.length < 2 ^ 63) :
    Yields heap (allocRootList roots) fun rooted next image =>
      HoldsList next rooted (values.map (·.map image)) := by
  rw [allocRootList]
  split
  · next isEmpty =>
      cases holds with
      | nil => exact yields_allocRootEmpty sound
      | cons => cases isEmpty
  · refine (yields_allocRootData sound holds small).andThen
      fun data later image moves isArray => ?_
    have length : roots.length = (values.map (·.map image)).length := by
      rw [List.length_map]
      exact holds.length_eq
    rw [length]
    refine (yields_allocRootListSlice moves.sound isArray (Nat.zero_le _) le_rfl).mono
      fun rooted next after _ isList => ?_
    rw [subrange_all, List.map_map] at isList
    simpa [Function.comp_def] using isList

theorem forall₂_subrange {First Second : Type} {related : First → Second → Prop}
    {origins : List First} {targets : List Second} (all : List.Forall₂ related origins targets)
    (start finish : Nat) :
    List.Forall₂ related (subrange origins start finish) (subrange targets start finish) :=
  List.forall₂_drop _ (List.forall₂_take _ all)

theorem yields_listRangeFromItems (sound : heap.Sound) {roots : List RootedPtr}
    (holds : List.Forall₂ (Holds heap) roots values) (small : values.length < 2 ^ 63)
    {start finish : Nat} (ordered : start ≤ finish) (bounded : finish ≤ values.length) :
    Yields heap (ListNatives.listRangeFromItems roots start finish) fun rooted next image =>
      HoldsList next rooted ((subrange values start finish).map (·.map image)) := by
  have length := holds.length_eq
  rw [ListNatives.listRangeFromItems, if_neg (by omega)]
  refine yields_allocRootList sound (forall₂_subrange holds start finish) ?_
  rw [length_subrange bounded]
  omega

/-! ## Bounds of the natives -/

/-- The root of an unsigned number. -/
def HoldsU64 (heap : Heap Code) (root : RootedPtr) (value : UInt64) : Prop :=
  ∃ pointer, heap.resolveRuntimeRoot root = .ok pointer ∧
    heap.getCellFromPointer pointer = .ok (.u64 value)

/-- The root of a signed number. -/
def HoldsI32 (heap : Heap Code) (root : RootedPtr) (value : Int32) : Prop :=
  ∃ pointer, heap.resolveRuntimeRoot root = .ok pointer ∧
    heap.getCellFromPointer pointer = .ok (.i32 value)

theorem rootAsU64_ok {value : UInt64} (holds : HoldsU64 heap root value) :
    rootAsU64 root heap = some (.ok value, heap) := by
  obtain ⟨pointer, resolved, found⟩ := holds
  rw [rootAsU64, StateAction.bind_of_ok (getCellFromRootedPtr_ok resolved found)]
  rfl

theorem rootAsI32_ok {value : Int32} (holds : HoldsI32 heap root value) :
    rootAsI32 root heap = some (.ok value, heap) := by
  obtain ⟨pointer, resolved, found⟩ := holds
  rw [rootAsI32, StateAction.bind_of_ok (getCellFromRootedPtr_ok resolved found)]
  rfl

/-- An endpoint is accepted exactly where it is within the list. -/
theorem checkedEndpoint_eq (name : Symbol) (index : Int32) (len : Nat) :
    ListNatives.checkedEndpoint name index len =
      if 0 ≤ index.toInt ∧ index.toInt ≤ len then .ok index.toInt.toNat
      else .error (.indexOutOfBounds name index.toInt len) := by
  rw [ListNatives.checkedEndpoint]
  by_cases negative : index.toInt < 0
  · rw [if_pos negative, if_neg (by omega)]
  · by_cases beyond : len < index.toInt.toNat
    · rw [if_neg negative, if_pos beyond, if_neg (by omega)]
    · rw [if_neg negative, if_neg beyond, if_pos (by omega)]

/-! ## Natives that answer ranges -/

/-- The action answers the list of the values of the range where its bounds are
in order and within the list, and fails otherwise. -/
def AnswersRange (heap : Heap Code) (values : List ElementValue) (start finish : Int)
    (action : Scope Code RootedPtr) : Prop :=
  if 0 ≤ start ∧ start ≤ finish ∧ finish ≤ values.length then
    Yields heap action fun result next image =>
      HoldsList next result ((subrange values start.toNat finish.toNat).map (·.map image))
  else Refused heap action

section Refused

variable {First Second : Type} {action : Scope Code First} {next : First → Scope Code Second}

theorem Refused.after_ok {result : First} (ran : action heap = some (.ok result, heap))
    (rest : Refused heap (next result)) : Refused heap (action >>= next) := by
  obtain ⟨error, last, failed⟩ := rest
  exact ⟨error, last, (StateAction.bind_of_ok ran).trans failed⟩

theorem Refused.after_yields {middle : First → Heap Code → (InternalPtr → InternalPtr) → Prop}
    (yields : Yields heap action middle)
    (rest : ∀ result later image, middle result later image → Refused later (next result)) :
    Refused heap (action >>= next) := by
  rcases yields with ⟨result, later, ran, image, -, holds⟩ | ⟨error, later, failed, -⟩
  · obtain ⟨error, last, failed⟩ := rest result later image holds
    exact ⟨error, last, (StateAction.bind_of_ok ran).trans failed⟩
  · exact ⟨error, later, StateAction.bind_of_error failed⟩

end Refused

/-- An action on the collected elements that answers their range or fails. -/
theorem answersRange_rootAsList (sound : heap.Sound) (lists : HoldsList heap root values)
    (small : values.length < 2 ^ 63) {start finish : Int}
    {body : List RootedPtr → Scope Code RootedPtr}
    (answers : 0 ≤ start ∧ start ≤ finish ∧ finish ≤ values.length → ∀ roots : List RootedPtr,
      roots.length = values.length →
        body roots = ListNatives.listRangeFromItems roots start.toNat finish.toNat)
    (fails : ¬(0 ≤ start ∧ start ≤ finish ∧ finish ≤ values.length) →
      ∀ roots : List RootedPtr, roots.length = values.length → ∀ later, Refused later (body roots)) :
    AnswersRange heap values start finish (rootAsList root >>= body) := by
  rw [AnswersRange]
  split
  · next inside =>
      refine (yields_rootAsList sound lists).andThen fun roots later image moves holds => ?_
      have length := holds.length_eq
      rw [List.length_map] at length
      rw [answers inside roots length]
      have smallMoved : (values.map (·.map image)).length < 2 ^ 63 := by
        rw [List.length_map]
        exact small
      have bounded : finish.toNat ≤ (values.map (·.map image)).length := by
        rw [List.length_map]
        omega
      refine (yields_listRangeFromItems moves.sound holds smallMoved (by omega) bounded).mono
        fun result next after _ isList => ?_
      rw [subrange_map, List.map_map] at isList
      simpa [Function.comp_def] using isList
  · next outside =>
      refine Refused.after_yields (yields_rootAsList sound lists) fun roots later image holds => ?_
      have length := holds.length_eq
      rw [List.length_map] at length
      exact fails outside roots length later

theorem AnswersRange.after_ok {First : Type} {action : Scope Code First}
    {next : First → Scope Code RootedPtr} {start finish : Int} {result : First}
    (ran : action heap = some (.ok result, heap))
    (rest : AnswersRange heap values start finish (next result)) :
    AnswersRange heap values start finish (action >>= next) := by
  rw [AnswersRange] at rest ⊢
  split
  · next inside =>
      rw [if_pos inside] at rest
      exact StateAction.yields_bind_of_ok ran rest
  · next outside =>
      rw [if_neg outside] at rest
      exact rest.after_ok ran

section Natives

variable (sound : heap.Sound) (lists : HoldsList heap root values) (small : values.length < 2 ^ 63)
include sound lists small

theorem answersRange_first {count : RootedPtr} {n : Int32} (holds : HoldsI32 heap count n) :
    AnswersRange heap values 0 n.toInt (ListNatives.first count root) := by
  refine AnswersRange.after_ok (rootAsI32_ok holds) (answersRange_rootAsList sound lists small ?_ ?_)
  · intro inside roots length
    rw [checkedEndpoint_eq, if_pos (by omega), lift_bind_ok rfl]
    rfl
  · intro outside roots length later
    rw [checkedEndpoint_eq, if_neg (by omega)]
    exact ⟨_, _, lift_bind_error rfl _⟩

theorem answersRange_last {count : RootedPtr} {n : Int32} (holds : HoldsI32 heap count n) :
    AnswersRange heap values (values.length - n.toInt) values.length
      (ListNatives.last count root) := by
  refine AnswersRange.after_ok (rootAsI32_ok holds) (answersRange_rootAsList sound lists small ?_ ?_)
  · intro inside roots length
    rw [checkedEndpoint_eq, if_pos (by omega), lift_bind_ok rfl, length]
    congr 1
    omega
  · intro outside roots length later
    rw [checkedEndpoint_eq, if_neg (by omega)]
    exact ⟨_, _, lift_bind_error rfl _⟩

theorem answersRange_slice {first second : RootedPtr} {n m : Int32}
    (holdsFirst : HoldsI32 heap first n) (holdsSecond : HoldsI32 heap second m) :
    AnswersRange heap values n.toInt m.toInt (ListNatives.slice first second root) := by
  refine AnswersRange.after_ok (rootAsI32_ok holdsFirst) ?_
  refine AnswersRange.after_ok (rootAsI32_ok holdsSecond)
    (answersRange_rootAsList sound lists small ?_ ?_)
  · intro inside roots length
    rw [checkedEndpoint_eq, checkedEndpoint_eq, if_pos (by omega), if_pos (by omega),
      lift_bind_ok rfl, lift_bind_ok rfl, if_neg (by omega)]
  · intro outside roots length later
    rw [checkedEndpoint_eq, checkedEndpoint_eq]
    by_cases first : 0 ≤ n.toInt ∧ n.toInt ≤ roots.length
    · rw [if_pos first, lift_bind_ok rfl]
      by_cases second : 0 ≤ m.toInt ∧ m.toInt ≤ roots.length
      · rw [if_pos second, lift_bind_ok rfl, if_pos (by omega)]
        exact ⟨_, _, rfl⟩
      · rw [if_neg second]
        exact ⟨_, _, lift_bind_error rfl _⟩
    · rw [if_neg first]
      exact ⟨_, _, lift_bind_error rfl _⟩

theorem answersRange_take {count : RootedPtr} {n : UInt64} (holds : HoldsU64 heap count n) :
    AnswersRange heap values 0 (min values.length n.toNat : Nat) (ListNatives.take count root) := by
  refine AnswersRange.after_ok (rootAsU64_ok holds) (answersRange_rootAsList sound lists small ?_ ?_)
  · intro inside roots length
    rw [length]
    rfl
  · intro outside
    omega

theorem answersRange_skip {count : RootedPtr} {n : UInt64} (holds : HoldsU64 heap count n) :
    AnswersRange heap values (min values.length n.toNat : Nat) values.length
      (ListNatives.skip count root) := by
  refine AnswersRange.after_ok (rootAsU64_ok holds) (answersRange_rootAsList sound lists small ?_ ?_)
  · intro inside roots length
    rw [length]
    rfl
  · intro outside
    omega

end Natives

/-! ## Natives that answer options -/

/-- The root of `None`. -/
def HoldsNone (heap : Heap Code) (root : RootedPtr) : Prop :=
  ∃ pointer, heap.resolveRuntimeRoot root = .ok pointer ∧
    heap.getCellFromPointer pointer = .ok (.adt "None" [])

/-- The root of `Some` with what it contains. -/
def HoldsSome (heap : Heap Code) (root : RootedPtr) (contains : InternalPtr → Prop) : Prop :=
  ∃ pointer inner, heap.resolveRuntimeRoot root = .ok pointer ∧
    heap.getCellFromPointer pointer = .ok (.adt "Some" [inner]) ∧ contains inner

theorem map_adt (image : InternalPtr → InternalPtr) (tag : Symbol) (args : List InternalPtr) :
    (Cell.adt tag args : Cell Code InternalPtr).map image = .adt tag (args.map image) := by
  rw [Cell.map_eq, Cell.pointers, Cell.rebuild]

theorem yields_none (sound : heap.Sound) :
    Yields heap (ListNatives.optionFromRoot none) fun result next _ => HoldsNone next result := by
  have noChildren : ∀ child ∈ (Cell.adt "None" [] : Cell Code InternalPtr).pointers,
      heap.Reachable child := by simp [Cell.pointers]
  refine (yields_allocReference sound noChildren).mono fun result next image _ allocated => ?_
  obtain ⟨target, resolved, found⟩ := allocated
  rw [map_adt] at found
  exact ⟨target, resolved, found⟩

theorem yields_some (sound : heap.Sound) {inner : InternalPtr}
    (resolved : heap.resolveRuntimeRoot root = .ok inner) :
    Yields heap (ListNatives.optionFromRoot (some root)) fun result next image =>
      HoldsSome next result (· = image inner) := by
  have reachable := Heap.reachable_of_resolve resolved
  have children : ∀ child ∈ (Cell.adt "Some" [inner] : Cell Code InternalPtr).pointers,
      heap.Reachable child := by simpa [Cell.pointers] using reachable
  refine StateAction.yields_bind_of_ok (mapM_pointer_ok (.cons resolved .nil)) ?_
  refine (yields_allocReference sound children).mono fun result next image _ allocated => ?_
  obtain ⟨target, resolvedResult, found⟩ := allocated
  rw [map_adt] at found
  exact ⟨target, image inner, resolvedResult, found, rfl⟩

/-- The list of the range where its bounds are in order and within the list, and
`None` otherwise. -/
theorem yields_listSlice (sound : heap.Sound) (lists : HoldsList heap root values)
    (small : values.length < 2 ^ 63) {first second : RootedPtr} {start finish : UInt64}
    (holdsFirst : HoldsU64 heap first start) (holdsSecond : HoldsU64 heap second finish) :
    Yields heap (ListNatives.listSlice first second root) fun result next image =>
      if start.toNat ≤ finish.toNat ∧ finish.toNat ≤ values.length then
        HoldsSome next result fun inner =>
          Denotes next inner ((subrange values start.toNat finish.toNat).map (·.map image))
      else HoldsNone next result := by
  refine StateAction.yields_bind_of_ok (rootAsU64_ok holdsFirst) ?_
  refine StateAction.yields_bind_of_ok (rootAsU64_ok holdsSecond) ?_
  refine (yields_rootAsList sound lists).andThen fun roots later image moves holds => ?_
  have length := holds.length_eq
  rw [List.length_map] at length
  rw [length]
  split
  · next inside =>
      rw [← List.length_map (·.map image)] at small inside
      refine (yields_listRangeFromItems moves.sound holds small inside.1 inside.2).andThen
        fun result next after movesNext isList => ?_
      obtain ⟨inner, resolved, denotes⟩ := isList
      refine (yields_some movesNext.sound resolved).mono fun option last ending movesLast isSome => ?_
      obtain ⟨pointer, _, resolvedOption, found, rfl⟩ := isSome
      refine ⟨pointer, _, resolvedOption, found, ?_⟩
      have moved := denotes.move movesLast movesNext.sound (Heap.reachable_of_resolve resolved)
      rw [subrange_map, List.map_map, List.map_map] at moved
      simpa [Function.comp_def] using moved
  · exact yields_none moves.sound

/-- What the items of a list answer from then on. -/
def Indexes (heap : Heap Code) (items : ListItems RootedPtr) (values : List ElementValue) : Prop :=
  items.len = values.length ∧ ∀ later image, Moves heap later image → ∀ index,
    match values[index]? with
    | some value => Yields later (getItem items index) fun rooted last after =>
        Holds last rooted ((value.map image).map after)
    | none => Refused later (getItem items index)

theorem ItemsOf.indexes {items : ListItems RootedPtr} (isItems : ItemsOf heap items values)
    (sound : heap.Sound) : Indexes heap items values := by
  refine ⟨isItems.len_eq, fun later image moves index => ?_⟩
  have moved := isItems.move moves sound
  cases found : values[index]? with
  | none =>
      refine refused_getItem moved ?_
      rw [List.length_map]
      exact List.getElem?_eq_none_iff.mp found
  | some value => exact yields_getItem moves.sound moved (by rw [List.getElem?_map, found]; rfl)

/-- The value at an index, or `None`. -/
theorem yields_listGet (sound : heap.Sound) (lists : HoldsList heap root values)
    {position : RootedPtr} {index : UInt64} (holds : HoldsU64 heap position index) :
    Yields heap (ListNatives.listGet position root) fun result next image =>
      match values[index.toNat]? with
      | some value => HoldsSome next result fun inner => next.valueAt inner = value.map image
      | none => HoldsNone next result := by
  refine StateAction.yields_bind_of_ok (rootAsU64_ok holds) ?_
  refine (yields_listItems sound lists).andThen fun items later image moves isItems => ?_
  have length := isItems.len_eq
  rw [List.length_map] at length
  rw [length]
  cases found : values[index.toNat]? with
  | none =>
      rw [if_neg (not_lt.mpr (List.getElem?_eq_none_iff.mp found))]
      exact yields_none moves.sound
  | some value =>
      obtain ⟨bound, -⟩ := List.getElem?_eq_some_iff.mp found
      rw [if_pos bound]
      have foundMoved : (values.map (·.map image))[index.toNat]? = some (value.map image) := by
        rw [List.getElem?_map, found]
        rfl
      refine (yields_getItem moves.sound isItems foundMoved).andThen
        fun rooted next after movesNext isValue => ?_
      obtain ⟨inner, resolved, same⟩ := isValue
      refine (yields_some movesNext.sound resolved).mono fun option last ending movesLast isSome => ?_
      obtain ⟨pointer, _, resolvedOption, foundOption, rfl⟩ := isSome
      refine ⟨pointer, _, resolvedOption, foundOption, ?_⟩
      dsimp only
      rw [movesLast.valueAt movesNext.sound (Heap.reachable_of_resolve resolved), same]
      simp [Function.comp_def]

/-! ## Agreement -/

/-- The views of a list answer by its values. -/
structure ViewsAgree (heap : Heap Code) (root : RootedPtr) (values : List ElementValue) : Prop where
  /-- The list denotes no other values. -/
  unique : ∀ pointer others, heap.resolveRuntimeRoot root = .ok pointer →
    Denotes heap pointer others → others = values
  length : listLen root heap = some (.ok values.length, heap)
  headTail : Yields heap (listHeadTail root) fun split next image =>
    SplitOf next split (values.map (·.map image))
  elements : Yields heap (rootAsList root) fun roots next image =>
    List.Forall₂ (Holds next) roots (values.map (·.map image))
  items : Yields heap (listItems root) fun items next image =>
    Indexes next items (values.map (·.map image))
  bytes : ∃ result, rootAsBinaryList root heap = some (result, heap) ∧
    ∀ bytes, result = .ok bytes ↔ values = bytes.map .byte
  get : ∀ position index, HoldsU64 heap position index →
    Yields heap (ListNatives.listGet position root) fun result next image =>
      match values[index.toNat]? with
      | some value => HoldsSome next result fun inner => next.valueAt inner = value.map image
      | none => HoldsNone next result

/-- The natives that answer a new list accept the bounds of its values. -/
structure RangesAgree (heap : Heap Code) (root : RootedPtr) (values : List ElementValue) :
    Prop where
  first : ∀ count n, HoldsI32 heap count n →
    AnswersRange heap values 0 n.toInt (ListNatives.first count root)
  last : ∀ count n, HoldsI32 heap count n →
    AnswersRange heap values (values.length - n.toInt) values.length (ListNatives.last count root)
  slice : ∀ start finish n m, HoldsI32 heap start n → HoldsI32 heap finish m →
    AnswersRange heap values n.toInt m.toInt (ListNatives.slice start finish root)
  take : ∀ count n, HoldsU64 heap count n →
    AnswersRange heap values 0 (min values.length n.toNat : Nat) (ListNatives.take count root)
  skip : ∀ count n, HoldsU64 heap count n →
    AnswersRange heap values (min values.length n.toNat : Nat) values.length
      (ListNatives.skip count root)
  listSlice : ∀ first second start finish, HoldsU64 heap first start →
    HoldsU64 heap second finish →
    Yields heap (ListNatives.listSlice first second root) fun result next image =>
      if start.toNat ≤ finish.toNat ∧ finish.toNat ≤ values.length then
        HoldsSome next result fun inner =>
          Denotes next inner ((subrange values start.toNat finish.toNat).map (·.map image))
      else HoldsNone next result

/-- A byte in a cell of its own before the last two bytes of an array. -/
def mixedHeap : Heap Unit where
  id := 0
  slots := [⟨0, some (.u8 7)⟩, ⟨0, some (.binaryData [1, 2, 3])⟩,
    ⟨0, some (.listSlice 1 3 ⟨0, 1, 0⟩)⟩, ⟨0, some (.cons ⟨0, 0, 0⟩ ⟨0, 2, 0⟩)⟩]
  runtimeRoots :=
    { slots := [⟨0, some ⟨0, 3, 0⟩⟩]
      free := []
      free_nodup := List.nodup_nil
      free_released := by simp }
  nextGcSlotCount := defaultGcSlotThreshold
  extremeStress := false
  collectionEpoch := 0
  deferCollection := false

theorem sound_mixedHeap : mixedHeap.Sound := by
  refine @Heap.Sound.of_closed _ _ (fun pointer => ∃ index < 4, pointer = ⟨0, index, 0⟩) ?_ ?_
    (by decide)
  · intro pointer isRoot
    obtain rfl := List.mem_singleton.mp isRoot
    exact ⟨3, by decide, rfl⟩
  · rintro pointer ⟨index, bound, rfl⟩
    match index, bound with
    | 0, _ => exact ⟨_, rfl, by simp [Cell.pointers]⟩
    | 1, _ => exact ⟨_, rfl, by simp [Cell.pointers]⟩
    | 2, _ => exact ⟨_, rfl, by simp [Cell.pointers]⟩
    | 3, _ => exact ⟨_, rfl, by simp [Cell.pointers]⟩

theorem holdsList_mixedHeap :
    HoldsList mixedHeap ⟨0, 0, 0⟩ [.byte 7, .byte 2, .byte 3] := by
  have tail : Denotes mixedHeap ⟨0, 2, 0⟩ ((subrange [1, 2, 3] 1 3).map .byte) :=
    .binarySlice rfl rfl (by decide) (by decide) (by decide)
  have all : Denotes mixedHeap ⟨0, 3, 0⟩
      (mixedHeap.valueAt ⟨0, 0, 0⟩ :: (subrange [1, 2, 3] 1 3).map .byte) := .cons rfl tail
  exact ⟨⟨0, 3, 0⟩, rfl, all⟩

end RexLang
