import RexLang.HeapMoves

/-!
# Tokens of runtime roots

Runs of the operations on the table of runtime roots, with the ledger of the tokens
that were returned and not yet unregistered.  The slots in use are those of the
ledger, and the generation of a slot counts its releases, up to `2 ^ 64`.
-/

namespace RexLang

variable {Code : Type}

/-! ## The collection between two steps of the evaluator -/

namespace Heap

/-- The tokens of the roots in use that the evaluator does not hold. -/
def staleTokens (liveRoots : List RootedPtr) (heap : Heap Code) : List RootedPtr :=
  heap.runtimeRoots.slots.zipIdx.filterMap fun (root, slot) =>
    match root.pointer with
    | none => none
    | some _ =>
        let token : RootedPtr := ⟨heap.id, slot, root.generation⟩
        if token ∈ liveRoots then none else some token

/-- `collect_if_needed`. -/
def collectIfNeeded (liveRoots : List RootedPtr) (heap : Heap Code) :
    Except String Unit × Heap Code :=
  if !heap.collectNeeded then (.ok (), heap)
  else (heap.unregisterAll (heap.staleTokens liveRoots)).collect

theorem mem_staleTokens {heap : Heap Code} {liveRoots : List RootedPtr} {root : RootedPtr} :
    root ∈ heap.staleTokens liveRoots ↔ root ∉ liveRoots ∧ root.heapId = heap.id ∧
      ∃ pointer, heap.runtimeRoots.slots[root.slot]? = some ⟨root.generation, some pointer⟩ := by
  rw [staleTokens, List.mem_filterMap]
  constructor
  · rintro ⟨⟨⟨generation, contents⟩, slot⟩, member, same⟩
    cases contents with
    | none => cases same
    | some pointer =>
        dsimp only at same
        split at same
        · cases same
        · next absent =>
            cases same
            exact ⟨absent, rfl, pointer, List.mk_mem_zipIdx_iff_getElem?.mp member⟩
  · rintro ⟨absent, own, pointer, found⟩
    obtain ⟨heapId, slot, generation⟩ := root
    cases own
    exact ⟨(⟨generation, some pointer⟩, slot), List.mk_mem_zipIdx_iff_getElem?.mpr found,
      if_neg absent⟩

/-- Where a collection moves a cell. -/
def moved (heap : Heap Code) (pointer : InternalPtr) : InternalPtr :=
  match heap.traceLive heap.rootPointers (List.replicate heap.slots.length false) [] with
  | .error _ => pointer
  | .ok live =>
      match heap.forwardingTable (heap.collectionEpoch + 1) (live.zip (heap.destinations live))
          (List.replicate heap.slots.length none) with
      | .error _ => pointer
      | .ok forwarding => heap.image forwarding pointer

theorem preserved_moved {heap next : Heap Code} (succeeded : heap.collected = .ok next) :
    Preserved heap next heap.moved := by
  obtain ⟨live, forwarding, table, slots, collects⟩ := collects_of_collected succeeded
  have same : heap.moved = heap.image forwarding := by
    funext pointer
    rw [moved, collects.traced]
    dsimp only
    rw [collects.forwarded]
  rw [same]
  exact preserved_of_collects collects

/-- A collection rewrites the slots only. -/
theorem free_collected {heap next : Heap Code} (succeeded : heap.collected = .ok next) :
    next.runtimeRoots.free = heap.runtimeRoots.free := by
  obtain ⟨live, forwarding, table, slots, collects⟩ := collects_of_collected succeeded
  have relocated := collects.relocated
  have nextRoots : next.runtimeRoots = table := by
    rw [collects.next_eq]
    rfl
  rw [RootTable.relocate] at relocated
  split at relocated
  · cases relocated
  · cases relocated
    rw [nextRoots]

end Heap

/-! ## One step of the table -/

namespace RootTable

/-- The slot that is taken was empty, or it is a new one. -/
theorem register_cases (table : RootTable) (pointer : InternalPtr) :
    ∃ index generation next, table.register pointer = ((index, generation), next) ∧
      (∀ other, next.slots[other]? =
        if other = index then some ⟨generation, some pointer⟩ else table.slots[other]?) ∧
      ((table.slots[index]? = some ⟨generation, none⟩ ∧ table.free = index :: next.free) ∨
        (table.slots.length = index ∧ generation = 0 ∧ table.free = [] ∧ next.free = [])) := by
  have slots : ∀ other, (table.register pointer).2.slots[other]? =
      if other = (table.register pointer).1.1 then
        some ⟨(table.register pointer).1.2, some pointer⟩ else table.slots[other]? := by
    obtain ⟨-, taken, others⟩ := table.register_spec pointer
    intro other
    split
    · next same => rw [same, taken]
    · next different => exact others other different
  refine ⟨(table.register pointer).1.1, (table.register pointer).1.2,
    (table.register pointer).2, rfl, slots, ?_⟩
  rw [register]
  split
  · next free => exact .inr ⟨rfl, rfl, free, rfl⟩
  · next index rest free =>
      obtain ⟨⟨generation, contents⟩, found, released⟩ :=
        table.free_released index (free ▸ .head _)
      cases released
      exact .inl ⟨by simp [found], free⟩

theorem unregister_of_found {table : RootTable} {index generation : Nat} {pointer : InternalPtr}
    (found : table.slots[index]? = some ⟨generation, some pointer⟩) :
    (∀ other, (table.unregister index generation).slots[other]? =
      if other = index then some ⟨(generation + 1) % 2 ^ 64, none⟩ else table.slots[other]?) ∧
    (table.unregister index generation).free = index :: table.free := by
  rw [unregister]
  split
  · next missing =>
      rw [found] at missing
      cases missing
  · next slot present =>
      rw [found] at present
      cases present
      simp only [ne_eq, not_true_eq_false, reduceCtorEq, or_self, dif_neg, not_false_eq_true]
      refine ⟨fun other => ?_, trivial⟩
      split
      · next same => simp [same, found]
      · next different => simp [Ne.symm different]

/-- A token of another generation, and one of an empty slot, change nothing. -/
theorem unregister_of_not_found {table : RootTable} {index generation : Nat}
    (missing : ∀ pointer, table.slots[index]? ≠ some ⟨generation, some pointer⟩) :
    table.unregister index generation = table := by
  rw [unregister]
  split
  · rfl
  · next slot found =>
      obtain ⟨other, contents⟩ := slot
      refine dif_pos ?_
      by_cases same : other = generation
      · subst same
        cases contents with
        | none => exact .inr rfl
        | some pointer => exact absurd found (missing pointer)
      · exact .inl same

end RootTable

/-! ## Histories -/

/-- The calls on the heap of an evaluator. -/
inductive RootOperation (Code : Type) where
  | registerRuntimeRoot (pointer : InternalPtr)
  | unregisterRuntimeRoot (root : RootedPtr)
  | collectIfNeeded (liveRoots : List RootedPtr)
  | resolveRuntimeRoot (root : RootedPtr)
  | collect
  | pushCell (cell : Cell Code InternalPtr)
  | overwrite (pointer : InternalPtr) (cell : Cell Code InternalPtr)
  | setExtremeStress (enabled : Bool)

/-- What a call does to the heap. -/
def RootOperation.run : RootOperation Code → Heap Code → Heap Code
  | .registerRuntimeRoot pointer, heap => (heap.registerRuntimeRoot pointer).2
  | .unregisterRuntimeRoot root, heap => heap.unregisterRuntimeRoot root
  | .collectIfNeeded liveRoots, heap => (heap.collectIfNeeded liveRoots).2
  | .resolveRuntimeRoot _, heap => heap
  | .collect, heap => heap.collect.2
  | .pushCell cell, heap => (heap.pushCell cell).2
  | .overwrite pointer cell, heap => (heap.overwrite pointer cell).2
  | .setExtremeStress enabled, heap => { heap with extremeStress := enabled }

/-- A heap with the ledger of its tokens. -/
structure RootHistory (Code : Type) where
  heap : Heap Code
  /-- The tokens that were returned, the last one first. -/
  issued : List RootedPtr
  /-- The tokens not yet unregistered, each with the pointer that it was created for,
  moved by the collections since. -/
  live : List (RootedPtr × InternalPtr)
  /-- The tokens that were unregistered, the last one first. -/
  released : List RootedPtr

namespace RootHistory

def start (id : Nat) : RootHistory Code :=
  ⟨Heap.new id, [], [], []⟩

def liveTokens (history : RootHistory Code) : List RootedPtr :=
  history.live.map Prod.fst

/-- How often a slot was released. -/
def releases (history : RootHistory Code) (slot : Nat) : Nat :=
  (history.released.map RootedPtr.slot).count slot

def registerRuntimeRoot (pointer : InternalPtr) (history : RootHistory Code) :
    RootHistory Code :=
  let (root, heap) := history.heap.registerRuntimeRoot pointer
  { history with
    heap
    issued := root :: history.issued
    live := (root, pointer) :: history.live }

def unregisterRuntimeRoot (root : RootedPtr) (history : RootHistory Code) : RootHistory Code :=
  { history with
    heap := history.heap.unregisterRuntimeRoot root
    live := history.live.filter fun entry => entry.1 ≠ root
    released :=
      if root ∈ history.liveTokens then root :: history.released else history.released }

def unregisterAll : List RootedPtr → RootHistory Code → RootHistory Code
  | [], history => history
  | root :: roots, history => unregisterAll roots (history.unregisterRuntimeRoot root)

def collect (history : RootHistory Code) : RootHistory Code :=
  match history.heap.collected with
  | .error _ => history
  | .ok next =>
      { history with
        heap := next
        live := history.live.map fun entry => (entry.1, history.heap.moved entry.2) }

def collectIfNeeded (liveRoots : List RootedPtr) (history : RootHistory Code) :
    RootHistory Code :=
  if !history.heap.collectNeeded then history
  else (history.unregisterAll (history.heap.staleTokens liveRoots)).collect

def perform (history : RootHistory Code) (operation : RootOperation Code) : RootHistory Code :=
  match operation with
  | .registerRuntimeRoot pointer => history.registerRuntimeRoot pointer
  | .unregisterRuntimeRoot root => history.unregisterRuntimeRoot root
  | .collectIfNeeded liveRoots => history.collectIfNeeded liveRoots
  | .collect => history.collect
  | operation => { history with heap := operation.run history.heap }

def run (history : RootHistory Code) (operations : List (RootOperation Code)) :
    RootHistory Code :=
  operations.foldl perform history

/-! ## The ledger follows the heap -/

variable {history : RootHistory Code}

theorem heap_unregisterAll (roots : List RootedPtr) (history : RootHistory Code) :
    (history.unregisterAll roots).heap = history.heap.unregisterAll roots := by
  induction roots generalizing history with
  | nil => rfl
  | cons root roots hypothesis => exact hypothesis (history.unregisterRuntimeRoot root)

theorem heap_collect (history : RootHistory Code) :
    history.collect.heap = history.heap.collect.2 := by
  rw [collect, Heap.collect]
  cases history.heap.collected with
  | error message => rfl
  | ok next => rfl

/-- The heap of a history is the heap after the calls. -/
theorem heap_perform (history : RootHistory Code) (operation : RootOperation Code) :
    (history.perform operation).heap = operation.run history.heap := by
  cases operation with
  | collectIfNeeded liveRoots =>
      rw [perform, collectIfNeeded, RootOperation.run, Heap.collectIfNeeded]
      split
      · rfl
      · rw [heap_collect, heap_unregisterAll]
  | collect => exact heap_collect history
  | _ => rfl

/-- The slots in use are those of the ledger, every other slot is free, and the
generations count the releases. -/
structure Consistent (history : RootHistory Code) : Prop where
  live_iff : ∀ root pointer, (root, pointer) ∈ history.live ↔
    root.heapId = history.heap.id ∧
      history.heap.runtimeRoots.slots[root.slot]? = some ⟨root.generation, some pointer⟩
  empty_free : ∀ index generation,
    history.heap.runtimeRoots.slots[index]? = some ⟨generation, none⟩ →
      index ∈ history.heap.runtimeRoots.free
  generation : ∀ index slot, history.heap.runtimeRoots.slots[index]? = some slot →
    slot.generation = history.releases index % 2 ^ 64
  unused : ∀ index, history.heap.runtimeRoots.slots[index]? = none → history.releases index = 0
  /-- A token that was issued is in the ledger or older than its slot. -/
  outdated : ∀ root ∈ history.issued, history.releases root.slot < 2 ^ 64 →
    root.generation < history.releases root.slot ∨ root ∈ history.liveTokens
  nodup : (∀ index, history.releases index < 2 ^ 64) → history.issued.Nodup

theorem mem_liveTokens {root : RootedPtr} :
    root ∈ history.liveTokens ↔ ∃ pointer, (root, pointer) ∈ history.live := by
  rw [liveTokens, List.mem_map]
  constructor
  · rintro ⟨⟨token, pointer⟩, member, rfl⟩
    exact ⟨pointer, member⟩
  · rintro ⟨pointer, member⟩
    exact ⟨(root, pointer), member, rfl⟩

theorem consistent_start (id : Nat) : (start id : RootHistory Code).Consistent where
  live_iff := by simp [start, Heap.new]
  empty_free := by simp [start, Heap.new]
  generation := by simp [start, Heap.new]
  unused := by simp [start, releases]
  outdated := by simp [start]
  nodup := by simp [start]

/-- A change of the cells leaves the roots as they are. -/
theorem Consistent.of_same (consistent : history.Consistent) {next : Heap Code}
    (sameId : next.id = history.heap.id) (sameRoots : next.runtimeRoots = history.heap.runtimeRoots) :
    Consistent { history with heap := next } where
  live_iff := by
    dsimp only
    rw [sameId, sameRoots]
    exact consistent.live_iff
  empty_free := by
    dsimp only
    rw [sameRoots]
    exact consistent.empty_free
  generation := by
    dsimp only
    rw [sameRoots]
    exact consistent.generation
  unused := by
    dsimp only
    rw [sameRoots]
    exact consistent.unused
  outdated := consistent.outdated
  nodup := consistent.nodup

/-- The slot of a live token is in use. -/
theorem Consistent.found_of_live (consistent : history.Consistent) {root : RootedPtr}
    (isLive : root ∈ history.liveTokens) : root.heapId = history.heap.id ∧ ∃ pointer,
      history.heap.runtimeRoots.slots[root.slot]? = some ⟨root.generation, some pointer⟩ := by
  obtain ⟨pointer, member⟩ := mem_liveTokens.1 isLive
  obtain ⟨own, found⟩ := (consistent.live_iff root pointer).mp member
  exact ⟨own, pointer, found⟩

/-- A token that is not live is ignored. -/
theorem Consistent.unregister_stale (consistent : history.Consistent) {root : RootedPtr}
    (stale : root ∉ history.liveTokens) :
    history.heap.unregisterRuntimeRoot root = history.heap := by
  rw [Heap.unregisterRuntimeRoot]
  split
  · rfl
  · next own =>
      have unchanged : history.heap.runtimeRoots.unregister root.slot root.generation =
          history.heap.runtimeRoots := by
        refine RootTable.unregister_of_not_found fun pointer found => stale ?_
        exact mem_liveTokens.2
          ⟨pointer, (consistent.live_iff root pointer).mpr ⟨not_not.mp own, found⟩⟩
      rw [unchanged]

theorem Consistent.unregisterRuntimeRoot_stale (consistent : history.Consistent)
    {root : RootedPtr} (stale : root ∉ history.liveTokens) :
    history.unregisterRuntimeRoot root = history := by
  have kept : history.live.filter (fun entry => entry.1 ≠ root) = history.live := by
    refine List.filter_eq_self.mpr fun entry member => decide_eq_true ?_
    rintro rfl
    exact stale (List.mem_map_of_mem member)
  rw [unregisterRuntimeRoot, consistent.unregister_stale stale, kept, if_neg stale]

/-! ### Registering -/

/-- The new token is not live, and while its slot was released less than `2 ^ 64`
times it was never issued before. -/
theorem Consistent.register_fresh (consistent : history.Consistent) (pointer : InternalPtr) :
    (∀ root ∈ history.liveTokens,
      (history.heap.registerRuntimeRoot pointer).1.slot ≠ root.slot) ∧
    (history.releases (history.heap.registerRuntimeRoot pointer).1.slot < 2 ^ 64 →
      (history.heap.registerRuntimeRoot pointer).1 ∉ history.issued) := by
  obtain ⟨index, generation, next, registered, -, taken⟩ :=
    history.heap.runtimeRoots.register_cases pointer
  have isRoot : (history.heap.registerRuntimeRoot pointer).1 =
      ⟨history.heap.id, index, generation⟩ := by
    rw [Heap.registerRuntimeRoot, registered]
  rw [isRoot]
  have notLive : ∀ root ∈ history.liveTokens, index ≠ root.slot := by
    rintro root isLive rfl
    obtain ⟨-, other, found⟩ := consistent.found_of_live isLive
    rcases taken with ⟨empty, -⟩ | ⟨last, -⟩
    · rw [found] at empty
      cases empty
    · rw [List.getElem?_eq_none_iff.mpr last.le] at found
      cases found
  have newest : generation = history.releases index % 2 ^ 64 := by
    rcases taken with ⟨empty, -⟩ | ⟨last, rfl, -⟩
    · exact consistent.generation index _ empty
    · rw [consistent.unused index (List.getElem?_eq_none_iff.mpr last.le), Nat.zero_mod]
  refine ⟨notLive, fun small member => ?_⟩
  dsimp only at small
  rcases consistent.outdated _ member small with older | isLive
  · dsimp only at older
    omega
  · exact notLive _ isLive rfl

theorem Consistent.register (consistent : history.Consistent) (pointer : InternalPtr) :
    (history.registerRuntimeRoot pointer).Consistent := by
  obtain ⟨notLive, notIssued⟩ := consistent.register_fresh pointer
  obtain ⟨index, generation, next, registered, slots, taken⟩ :=
    history.heap.runtimeRoots.register_cases pointer
  rw [Heap.registerRuntimeRoot, registered] at notLive notIssued
  rw [registerRuntimeRoot, Heap.registerRuntimeRoot, registered]
  dsimp only at notLive notIssued ⊢
  constructor
  · intro root other
    dsimp only
    rw [List.mem_cons, slots]
    by_cases same : root.slot = index
    · subst same
      have notBefore : (root, other) ∉ history.live := fun member =>
        notLive root (List.mem_map_of_mem member) rfl
      obtain ⟨heapId, slot, rootGeneration⟩ := root
      simp [notBefore, eq_comm]
      tauto
    · have different : root ≠ ⟨history.heap.id, index, generation⟩ := by
        rintro rfl
        exact same rfl
      rw [if_neg same, ← consistent.live_iff root other]
      simp [different]
  · intro other otherGeneration found
    dsimp only at found ⊢
    rw [slots] at found
    split at found
    · cases found
    · next different =>
        have isFree := consistent.empty_free other otherGeneration found
        rcases taken with ⟨-, free⟩ | ⟨-, -, free, -⟩
        · exact (List.mem_cons.mp (free ▸ isFree)).resolve_left different
        · rw [free] at isFree
          cases isFree
  · intro other slot found
    dsimp only at found
    rw [slots] at found
    split at found
    · next same =>
        subst same
        cases found
        dsimp only
        rcases taken with ⟨empty, -⟩ | ⟨last, rfl, -⟩
        · exact consistent.generation other _ empty
        · exact (congrArg (· % 2 ^ 64)
            (consistent.unused other (List.getElem?_eq_none_iff.mpr last.le))).symm
    · exact consistent.generation other slot found
  · intro other missing
    dsimp only at missing
    rw [slots] at missing
    split at missing
    · cases missing
    · exact consistent.unused other missing
  · intro root member small
    rcases List.mem_cons.mp member with rfl | member
    · exact .inr (List.mem_cons_self)
    · rcases consistent.outdated root member small with older | isLive
      · exact .inl older
      · exact .inr (.tail _ isLive)
  · intro small
    exact List.nodup_cons.mpr ⟨notIssued (small index), consistent.nodup small⟩

/-! ### Unregistering -/

theorem releases_cons (history : RootHistory Code) (root : RootedPtr) (slot : Nat) :
    (((root :: history.released).map RootedPtr.slot).count slot) =
      history.releases slot + if slot = root.slot then 1 else 0 := by
  rw [List.map_cons, List.count_cons, releases]
  by_cases same : slot = root.slot
  · simp [same]
  · simp [same, Ne.symm same]

theorem Consistent.unregister (consistent : history.Consistent) (root : RootedPtr) :
    (history.unregisterRuntimeRoot root).Consistent := by
  by_cases isLive : root ∈ history.liveTokens
  · obtain ⟨own, pointer, found⟩ := consistent.found_of_live isLive
    obtain ⟨slots, free⟩ := RootTable.unregister_of_found found
    have current := consistent.generation _ _ found
    have more : ∀ slot, (history.unregisterRuntimeRoot root).releases slot =
        history.releases slot + if slot = root.slot then 1 else 0 := by
      intro slot
      rw [← releases_cons, releases, unregisterRuntimeRoot, if_pos isLive]
    have sameHeap : (history.unregisterRuntimeRoot root).heap = { history.heap with
        runtimeRoots := history.heap.runtimeRoots.unregister root.slot root.generation } := by
      rw [unregisterRuntimeRoot, Heap.unregisterRuntimeRoot, if_neg (not_not.mpr own)]
    have stays : ∀ token, token ∈ history.liveTokens → token ≠ root →
        token ∈ (history.unregisterRuntimeRoot root).liveTokens := by
      intro token member different
      obtain ⟨other, inLedger⟩ := mem_liveTokens.1 member
      exact mem_liveTokens.2
        ⟨other, List.mem_filter.mpr ⟨inLedger, decide_eq_true different⟩⟩
    constructor
    · intro token other
      rw [sameHeap, unregisterRuntimeRoot, List.mem_filter, consistent.live_iff]
      dsimp only
      rw [slots]
      by_cases same : token.slot = root.slot
      · rw [if_pos same]
        have onlyRoot : (token.heapId = history.heap.id ∧
            history.heap.runtimeRoots.slots[token.slot]? =
              some ⟨token.generation, some other⟩) → token = root := by
          rintro ⟨ownToken, foundToken⟩
          rw [same, found] at foundToken
          cases token
          cases root
          simp_all
        simp only [ne_eq, decide_not, Bool.not_eq_true', decide_eq_false_iff_not,
          Option.some.injEq, RootSlot.mk.injEq, reduceCtorEq, and_false, iff_false, not_and,
          not_not]
        exact onlyRoot
      · have different : token ≠ root := by
          rintro rfl
          exact same rfl
        rw [if_neg same]
        simp [different]
    · intro index generation empty
      rw [sameHeap] at empty ⊢
      dsimp only at empty ⊢
      rw [slots] at empty
      rw [free]
      split at empty
      · next same => exact same ▸ List.mem_cons_self
      · exact .tail _ (consistent.empty_free index generation empty)
    · intro index slot present
      rw [sameHeap] at present
      dsimp only at present
      rw [slots] at present
      rw [more]
      split at present
      · next same =>
          cases present
          subst same
          dsimp only at current ⊢
          rw [if_pos rfl, current, Nat.mod_add_mod]
      · next different =>
          rw [if_neg different]
          exact consistent.generation index slot present
    · intro index missing
      rw [sameHeap] at missing
      dsimp only at missing
      rw [slots] at missing
      rw [more]
      split at missing
      · cases missing
      · next different =>
          rw [if_neg different]
          exact consistent.unused index missing
    · intro token member small
      rw [more] at small ⊢
      rcases consistent.outdated token member (by omega) with older | stillLive
      · exact .inl (by omega)
      · by_cases same : token = root
        · subst same
          rw [if_pos rfl] at small ⊢
          refine .inl ?_
          dsimp only at current
          omega
        · exact .inr (stays token stillLive same)
    · intro small
      refine consistent.nodup fun index => ?_
      have bound := small index
      rw [more] at bound
      omega
  · rw [consistent.unregisterRuntimeRoot_stale isLive]
    exact consistent

theorem Consistent.unregisterAll (roots : List RootedPtr) (consistent : history.Consistent) :
    (history.unregisterAll roots).Consistent := by
  induction roots generalizing history with
  | nil => exact consistent
  | cons root roots hypothesis => exact hypothesis (consistent.unregister root)

theorem live_unregisterAll (roots : List RootedPtr) (history : RootHistory Code) :
    (history.unregisterAll roots).live = history.live.filter fun entry => entry.1 ∉ roots := by
  induction roots generalizing history with
  | nil => simp [RootHistory.unregisterAll]
  | cons root roots hypothesis =>
      rw [RootHistory.unregisterAll, hypothesis, unregisterRuntimeRoot, List.filter_filter]
      refine List.filter_congr fun entry _ => ?_
      simp [Bool.and_comm]

/-! ### Collecting -/

theorem Consistent.collect (consistent : history.Consistent) : history.collect.Consistent := by
  rw [RootHistory.collect]
  cases ended : history.heap.collected with
  | error message => exact consistent
  | ok next =>
      have preserved := Heap.preserved_moved ended
      have slots : ∀ index : Nat, next.runtimeRoots.slots[index]? =
          (history.heap.runtimeRoots.slots[index]?).map fun slot =>
            { slot with pointer := slot.pointer.map history.heap.moved } := by
        intro index
        rw [preserved.roots, List.getElem?_map]
      have sameTokens : RootHistory.liveTokens { history with
          heap := next
          live := history.live.map fun entry => (entry.1, history.heap.moved entry.2) } =
          history.liveTokens := by
        simp [liveTokens, Function.comp_def]
      constructor
      · intro root pointer
        dsimp only
        rw [slots, preserved.id_eq, List.mem_map]
        constructor
        · rintro ⟨⟨token, before⟩, member, same⟩
          cases same
          obtain ⟨own, found⟩ := (consistent.live_iff token before).mp member
          exact ⟨own, by rw [found]; rfl⟩
        · rintro ⟨own, found⟩
          obtain ⟨⟨generation, contents⟩, before, same⟩ := Option.map_eq_some_iff.mp found
          cases contents with
          | none => cases same
          | some old =>
              cases same
              exact ⟨(root, old), (consistent.live_iff root old).mpr ⟨own, before⟩, rfl⟩
      · intro index generation empty
        dsimp only at empty ⊢
        rw [slots] at empty
        obtain ⟨⟨before, contents⟩, found, same⟩ := Option.map_eq_some_iff.mp empty
        rw [Heap.free_collected ended]
        cases contents with
        | none => exact consistent.empty_free index before found
        | some pointer => cases same
      · intro index slot found
        dsimp only at found
        rw [slots] at found
        obtain ⟨before, present, rfl⟩ := Option.map_eq_some_iff.mp found
        exact consistent.generation index before present
      · intro index missing
        dsimp only at missing
        rw [slots, Option.map_eq_none_iff] at missing
        exact consistent.unused index missing
      · intro root member small
        rw [sameTokens]
        exact consistent.outdated root member small
      · exact consistent.nodup

theorem Consistent.collectIfNeeded (consistent : history.Consistent)
    (liveRoots : List RootedPtr) : (history.collectIfNeeded liveRoots).Consistent := by
  rw [RootHistory.collectIfNeeded]
  split
  · exact consistent
  · exact (consistent.unregisterAll _).collect

/-- The heap and the ledger after the collection between two steps. -/
theorem Consistent.collectIfNeeded_cases (consistent : history.Consistent)
    (liveRoots : List RootedPtr) {released : Heap Code} (needed : history.heap.collectNeeded = true)
    (isReleased : released = history.heap.unregisterAll (history.heap.staleTokens liveRoots)) :
    (∃ message, history.heap.collectIfNeeded liveRoots = (.error message, released) ∧
      (history.collectIfNeeded liveRoots).live =
        history.live.filter fun entry => entry.1 ∈ liveRoots) ∨
    ∃ next, history.heap.collectIfNeeded liveRoots = (.ok (), next) ∧
      Heap.Preserved released next released.moved ∧
      (history.collectIfNeeded liveRoots).live =
        (history.live.filter fun entry => entry.1 ∈ liveRoots).map fun entry =>
          (entry.1, released.moved entry.2) := by
  subst isReleased
  have kept : (history.live.filter fun entry =>
      entry.1 ∉ history.heap.staleTokens liveRoots) =
        history.live.filter fun entry => entry.1 ∈ liveRoots := by
    refine List.filter_congr fun entry member => decide_eq_decide.mpr ?_
    obtain ⟨own, found⟩ := (consistent.live_iff entry.1 entry.2).mp member
    rw [Heap.mem_staleTokens]
    constructor
    · intro notStale
      by_contra absent
      exact notStale ⟨absent, own, entry.2, found⟩
    · exact fun isHeld stale => stale.1 isHeld
  rw [Heap.collectIfNeeded, RootHistory.collectIfNeeded, needed]
  simp only [Bool.not_true, Bool.false_eq_true, if_false]
  rw [Heap.collect, RootHistory.collect, heap_unregisterAll]
  cases ended : (history.heap.unregisterAll (history.heap.staleTokens liveRoots)).collected with
  | error message => exact .inl ⟨message, rfl, (live_unregisterAll _ history).trans kept⟩
  | ok next =>
      refine .inr ⟨next, rfl, Heap.preserved_moved ended, ?_⟩
      dsimp only
      rw [live_unregisterAll, kept]

/-! ## Runs -/

theorem Consistent.perform (consistent : history.Consistent) (operation : RootOperation Code) :
    (history.perform operation).Consistent := by
  cases operation with
  | registerRuntimeRoot pointer => exact consistent.register pointer
  | unregisterRuntimeRoot root => exact consistent.unregister root
  | collectIfNeeded liveRoots => exact consistent.collectIfNeeded liveRoots
  | resolveRuntimeRoot root => exact consistent
  | collect => exact consistent.collect
  | pushCell cell =>
      refine consistent.of_same ?_ ?_ <;>
      · rw [RootOperation.run, Heap.pushCell]
        split <;> rfl
  | overwrite pointer cell =>
      refine consistent.of_same ?_ ?_ <;>
      · rw [RootOperation.run, Heap.overwrite]
        split
        · rfl
        · split
          · rfl
          · split <;> rfl
  | setExtremeStress enabled => exact consistent.of_same rfl rfl

theorem Consistent.run (consistent : history.Consistent)
    (operations : List (RootOperation Code)) : (history.run operations).Consistent := by
  induction operations generalizing history with
  | nil => exact consistent
  | cons operation operations hypothesis => exact hypothesis (consistent.perform operation)

theorem heap_run (history : RootHistory Code) (operations : List (RootOperation Code)) :
    (history.run operations).heap =
      operations.foldl (fun heap operation => operation.run heap) history.heap := by
  induction operations generalizing history with
  | nil => rfl
  | cons operation operations hypothesis =>
      rw [List.foldl_cons, ← heap_perform]
      exact hypothesis (history.perform operation)

/-! ### Tokens stay stale -/

/-- No token and no release is forgotten, and a token is live only when it was, or
when it is new. -/
structure Extends (history next : RootHistory Code) : Prop where
  issued : ∀ root ∈ history.issued, root ∈ next.issued
  releases : ∀ slot, history.releases slot ≤ next.releases slot
  live : (∀ slot, next.releases slot < 2 ^ 64) →
    ∀ root ∈ next.liveTokens, root ∈ history.liveTokens ∨ root ∉ history.issued

theorem Extends.refl (history : RootHistory Code) : Extends history history :=
  ⟨fun _ member => member, fun _ => le_rfl, fun _ _ isLive => .inl isLive⟩

theorem Extends.trans {next last : RootHistory Code} (first : Extends history next)
    (second : Extends next last) : Extends history last where
  issued root member := second.issued root (first.issued root member)
  releases slot := (first.releases slot).trans (second.releases slot)
  live small root isLive := by
    have smallBefore : ∀ slot, next.releases slot < 2 ^ 64 := fun slot =>
      (second.releases slot).trans_lt (small slot)
    rcases second.live small root isLive with before | isNew
    · exact first.live smallBefore root before
    · exact .inr fun member => isNew (first.issued root member)

theorem extends_unregister (history : RootHistory Code) (root : RootedPtr) :
    Extends history (history.unregisterRuntimeRoot root) where
  issued _ member := member
  releases slot := by
    rw [releases, releases, unregisterRuntimeRoot]
    split
    · rw [List.map_cons]
      exact List.count_le_count_cons
    · exact le_rfl
  live _ token isLive := by
    obtain ⟨pointer, member⟩ := mem_liveTokens.mp isLive
    exact .inl (mem_liveTokens.mpr ⟨pointer, (List.mem_filter.mp member).1⟩)

theorem extends_unregisterAll (roots : List RootedPtr) (history : RootHistory Code) :
    Extends history (history.unregisterAll roots) := by
  induction roots generalizing history with
  | nil => exact .refl history
  | cons root roots hypothesis =>
      exact (extends_unregister history root).trans (hypothesis _)

theorem extends_collect (history : RootHistory Code) : Extends history history.collect := by
  rw [collect]
  split
  · exact .refl history
  · refine ⟨fun _ member => member, fun _ => le_rfl, fun _ root isLive => .inl ?_⟩
    simpa [liveTokens, Function.comp_def] using isLive

theorem Consistent.extends_perform (consistent : history.Consistent)
    (operation : RootOperation Code) : Extends history (history.perform operation) := by
  cases operation with
  | registerRuntimeRoot pointer =>
      refine ⟨fun _ member => .tail _ member, fun _ => le_rfl, fun small root isLive => ?_⟩
      rcases List.mem_cons.mp isLive with rfl | isLive
      · exact .inr ((consistent.register_fresh pointer).2 (small _))
      · exact .inl isLive
  | unregisterRuntimeRoot root => exact extends_unregister history root
  | collectIfNeeded liveRoots =>
      rw [RootHistory.perform, RootHistory.collectIfNeeded]
      split
      · exact .refl history
      · exact (extends_unregisterAll _ history).trans (extends_collect _)
  | collect => exact extends_collect history
  | resolveRuntimeRoot _ | pushCell _ | overwrite _ _ | setExtremeStress _ =>
      exact ⟨fun _ member => member, fun _ => le_rfl, fun _ _ isLive => .inl isLive⟩

theorem Consistent.extends_run (consistent : history.Consistent)
    (operations : List (RootOperation Code)) : Extends history (history.run operations) := by
  induction operations generalizing history with
  | nil => exact .refl history
  | cons operation operations hypothesis =>
      exact (consistent.extends_perform operation).trans
        (hypothesis (consistent.perform operation))

/-! ### What the holders of tokens rely on -/

structure Protects (history : RootHistory Code) : Prop where
  /-- A live token resolves, and the assertions on its heap and generation hold. -/
  resolves : ∀ root pointer, (root, pointer) ∈ history.live →
    root.heapId = history.heap.id ∧
      (history.heap.runtimeRoots.slots[root.slot]?).map RootSlot.generation =
        some root.generation ∧
      history.heap.resolveRuntimeRoot root = .ok pointer
  /-- Any other token is ignored. -/
  ignored : ∀ root ∉ history.liveTokens, history.heap.unregisterRuntimeRoot root = history.heap
  /-- A new token takes no slot of a live one. -/
  apart : ∀ pointer, ∀ root ∈ history.liveTokens,
    (history.heap.registerRuntimeRoot pointer).1.slot ≠ root.slot
  free_nodup : history.heap.runtimeRoots.free.Nodup
  free_iff : ∀ index, index ∈ history.heap.runtimeRoots.free ↔
    ∃ generation, history.heap.runtimeRoots.slots[index]? = some ⟨generation, none⟩

theorem Consistent.protects (consistent : history.Consistent) : history.Protects where
  resolves root pointer member := by
    obtain ⟨own, found⟩ := (consistent.live_iff root pointer).mp member
    exact ⟨own, by rw [found]; rfl, Heap.resolveRuntimeRoot_ok_iff.mpr ⟨_, found⟩⟩
  ignored _ stale := consistent.unregister_stale stale
  apart pointer := (consistent.register_fresh pointer).1
  free_nodup := history.heap.runtimeRoots.free_nodup
  free_iff index := by
    constructor
    · intro isFree
      obtain ⟨⟨generation, contents⟩, found, released⟩ :=
        history.heap.runtimeRoots.free_released index isFree
      cases released
      exact ⟨generation, found⟩
    · rintro ⟨generation, empty⟩
      exact consistent.empty_free index generation empty

/-- In every run the live tokens resolve to the cells that they were created for, and
a token that is not live is ignored.  As long as no slot was released `2 ^ 64` times, a
token that was unregistered is never live again. -/
theorem runtimeRoots_protected (id : Nat) (operations later : List (RootOperation Code)) :
    let history := (start id).run operations
    history.heap = operations.foldl (fun heap operation => operation.run heap) (Heap.new id) ∧
    history.Protects ∧
    (∀ liveRoots, history.heap.collectNeeded = true →
      let released := history.heap.unregisterAll (history.heap.staleTokens liveRoots)
      (∃ message, history.heap.collectIfNeeded liveRoots = (.error message, released) ∧
        (history.collectIfNeeded liveRoots).live =
          history.live.filter fun entry => entry.1 ∈ liveRoots) ∨
      ∃ next, history.heap.collectIfNeeded liveRoots = (.ok (), next) ∧
        Heap.Preserved released next released.moved ∧
        (history.collectIfNeeded liveRoots).live =
          (history.live.filter fun entry => entry.1 ∈ liveRoots).map fun entry =>
            (entry.1, released.moved entry.2)) ∧
    ((∀ slot, (history.run later).releases slot < 2 ^ 64) →
      ∀ root ∈ history.issued, root ∉ history.liveTokens →
        root ∉ (history.run later).liveTokens) := by
  intro history
  have consistent : history.Consistent := (consistent_start id).run operations
  refine ⟨heap_run (start id) operations, consistent.protects, ?_, ?_⟩
  · intro liveRoots needed released
    exact consistent.collectIfNeeded_cases liveRoots needed rfl
  · intro small root isIssued stale isLive
    rcases (consistent.extends_run later).live small root isLive with before | isNew
    · exact stale before
    · exact isNew isIssued

/-! ### Generations wrap around -/

/-- There is one slot, with this generation and contents. -/
structure Single (history : RootHistory Unit) (generation : Nat) (contents : Option InternalPtr) :
    Prop where
  own : history.heap.id = 0
  slots : ∀ index, history.heap.runtimeRoots.slots[index]? =
    if index = 0 then some ⟨generation, contents⟩ else none
  free : history.heap.runtimeRoots.free = if contents.isNone then [0] else []

variable {history : RootHistory Unit} {generation : Nat}

/-- The empty slot is taken again. -/
theorem Single.register (single : history.Single generation none) (pointer : InternalPtr) :
    (history.heap.registerRuntimeRoot pointer).1 = ⟨0, 0, generation⟩ ∧
      (history.perform (.registerRuntimeRoot pointer)).Single generation (some pointer) := by
  obtain ⟨own, slots, free⟩ := single
  obtain ⟨index, taken, next, registered, nextSlots, empty | ⟨-, -, noFree, -⟩⟩ :=
    history.heap.runtimeRoots.register_cases pointer
  · obtain ⟨found, taking⟩ := empty
    rw [free] at taking
    obtain ⟨rfl, nextFree⟩ := List.cons.inj taking
    rw [slots, if_pos rfl] at found
    cases found
    have isRegistered : history.heap.registerRuntimeRoot pointer =
        (⟨history.heap.id, 0, generation⟩, { history.heap with runtimeRoots := next }) := by
      rw [Heap.registerRuntimeRoot, registered]
    rw [perform, registerRuntimeRoot, isRegistered]
    refine ⟨by rw [own], own, fun other => ?_, nextFree.symm⟩
    dsimp only
    rw [nextSlots, slots]
    split <;> rfl
  · rw [free] at noFree
    cases noFree

theorem Single.unregister {pointer : InternalPtr}
    (single : history.Single generation (some pointer)) :
    (history.perform (.unregisterRuntimeRoot ⟨0, 0, generation⟩)).Single
      ((generation + 1) % 2 ^ 64) none := by
  obtain ⟨own, slots, free⟩ := single
  obtain ⟨nextSlots, nextFree⟩ := RootTable.unregister_of_found
    (show history.heap.runtimeRoots.slots[0]? = some ⟨generation, some pointer⟩ from slots 0)
  have isReleased : history.heap.unregisterRuntimeRoot ⟨0, 0, generation⟩ =
      { history.heap with
        runtimeRoots := history.heap.runtimeRoots.unregister 0 generation } := by
    rw [Heap.unregisterRuntimeRoot, if_neg (fun different => different own.symm)]
  rw [perform, unregisterRuntimeRoot, isReleased]
  refine ⟨own, fun other => ?_, ?_⟩
  · dsimp only
    rw [nextSlots, slots]
    split <;> rfl
  · dsimp only
    rw [nextFree, free]
    rfl

/-- Any number of rounds, in each of which a root is registered and unregistered. -/
theorem Single.exists_rounds (single : history.Single generation none)
    (small : generation < 2 ^ 64) (rounds : Nat) :
    ∃ operations, (history.run operations).Single ((generation + rounds) % 2 ^ 64) none := by
  induction rounds with
  | zero =>
      refine ⟨[], ?_⟩
      rw [Nat.add_zero, Nat.mod_eq_of_lt small]
      exact single
  | succ rounds hypothesis =>
      obtain ⟨operations, reached⟩ := hypothesis
      refine ⟨operations ++ [.registerRuntimeRoot ⟨0, 0, 0⟩,
        .unregisterRuntimeRoot ⟨0, 0, (generation + rounds) % 2 ^ 64⟩], ?_⟩
      have next := (reached.register ⟨0, 0, 0⟩).2.unregister
      rw [Nat.mod_add_mod, Nat.add_assoc] at next
      rw [run, List.foldl_append]
      exact next

/-- The first token of a heap is issued again after `2 ^ 64` rounds, and then its first
holder releases the root of the second. -/
theorem not_protected_from_stale :
    ¬ ∀ (id : Nat) (operations later : List (RootOperation Unit)) (stale root : RootedPtr)
        (pointer : InternalPtr),
      let history := (start id).run operations
      let next := history.run later
      stale ∈ history.issued → stale ∉ history.liveTokens → (root, pointer) ∈ next.live →
        (next.heap.unregisterRuntimeRoot stale).resolveRuntimeRoot root = .ok pointer := by
  intro holds
  have first : ((start 0).perform (.registerRuntimeRoot ⟨0, 0, 0⟩)).Single 0 (some ⟨0, 0, 0⟩) := by
    refine ⟨rfl, fun index => ?_, rfl⟩
    cases index <;> rfl
  have once := first.unregister
  obtain ⟨rounds, reached⟩ := once.exists_rounds (by decide) (2 ^ 64 - 1)
  rw [show ((0 + 1) % 2 ^ 64 + (2 ^ 64 - 1)) % 2 ^ 64 = 0 by decide] at reached
  obtain ⟨isRoot, again⟩ := reached.register ⟨0, 0, 0⟩
  have kept := holds 0 [.registerRuntimeRoot ⟨0, 0, 0⟩, .unregisterRuntimeRoot ⟨0, 0, 0⟩]
    (rounds ++ [.registerRuntimeRoot ⟨0, 0, 0⟩]) ⟨0, 0, 0⟩ ⟨0, 0, 0⟩ ⟨0, 0, 0⟩
    (List.mem_singleton.mpr rfl) (by decide) ?_
  · rw [run, List.foldl_append] at kept
    obtain ⟨generation, found⟩ := Heap.resolveRuntimeRoot_ok_iff.mp kept
    have empty := again.unregister.slots 0
    rw [if_pos rfl] at empty
    cases found.symm.trans empty
  · rw [run, List.foldl_append]
    exact List.mem_cons.mpr (.inl (Prod.ext isRoot.symm rfl))

end RootHistory

end RexLang
