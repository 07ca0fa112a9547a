import RexLang.ListSlices
import RexLang.RuntimeRequests
import RexLang.ServedPrograms

/-!
# Requests answered by the heap

The requests of the evaluator for the contents of cells and for lists, answered by
the operations of a root scope on the heap.  Every other request is left to an
arbitrary server.
-/

namespace RexLang

variable {Code : Type}

namespace Cell

variable {Ptr : Type}

def cellAsTuple : Cell Code Ptr → Except MemoryError (List Ptr)
  | .tuple values => .ok values
  | cell => .error (cell.cellTypeError "tuple")

def cellAsDict : Cell Code Ptr → Except MemoryError (SymbolMap Ptr)
  | .dict values => .ok values
  | cell => .error (cell.cellTypeError "dict")

def cellAsAdt : Cell Code Ptr → Except MemoryError (Symbol × List Ptr)
  | .adt tag args => .ok (tag, args)
  | cell => .error (cell.cellTypeError "adt")

end Cell

namespace Scope

def typeName (root : RootedPtr) : Scope Code String := do
  let cell ← getCellFromRootedPtr root
  return cell.cellTypeName

def rootAsTuple (root : RootedPtr) : Scope Code (List RootedPtr) := do
  let cell ← getCellFromRootedPtr root
  let values ← cell.cellAsTuple
  values.mapM Scope.root

def rootAsDict (root : RootedPtr) : Scope Code (SymbolMap RootedPtr) := do
  let cell ← getCellFromRootedPtr root
  let dict ← cell.cellAsDict
  SymbolMap.mapValues Scope.root dict

def rootAsAdt (root : RootedPtr) : Scope Code (Symbol × List RootedPtr) := do
  let cell ← getCellFromRootedPtr root
  let (tag, fields) ← cell.cellAsAdt
  return (tag, ← fields.mapM Scope.root)

/-! ## What is read from a cell -/

variable {heap : Heap Code} {root : RootedPtr} {pointer : InternalPtr}

theorem typeName_ok {cell : Cell Code InternalPtr}
    (resolved : heap.resolveRuntimeRoot root = .ok pointer)
    (found : heap.getCellFromPointer pointer = .ok cell) :
    typeName root heap = some (.ok cell.cellTypeName, heap) := by
  rw [typeName, StateAction.bind_of_ok (getCellFromRootedPtr_ok resolved found)]
  rfl

/-- The roots of pointers hold their values. -/
theorem yields_mapM_root (sound : heap.Sound) {targets : List InternalPtr}
    (reachable : ∀ target ∈ targets, heap.Reachable target) :
    Yields heap (targets.mapM Scope.root) fun roots next image =>
      List.Forall₂ (Holds next) roots ((targets.map heap.valueAt).map (·.map image)) := by
  obtain ⟨roots, later, ran, moves, resolved⟩ := mapM_root_ok sound reachable
  have same : (targets.map heap.valueAt).map (·.map id) = targets.map later.valueAt := by
    rw [List.map_map]
    exact List.map_congr_left fun target member =>
      (moves.valueAt sound (reachable target member)).symm
  refine .inl ⟨roots, later, ran, id, moves, ?_⟩
  change List.Forall₂ (Holds later) roots _
  rw [same, List.forall₂_map_right_iff]
  exact resolved.imp fun rooted target isTarget => ⟨target, isTarget, rfl⟩

theorem yields_rootAsTuple (sound : heap.Sound) {targets : List InternalPtr}
    (resolved : heap.resolveRuntimeRoot root = .ok pointer)
    (found : heap.getCellFromPointer pointer = .ok (.tuple targets)) :
    Yields heap (rootAsTuple root) fun roots next image =>
      List.Forall₂ (Holds next) roots ((targets.map heap.valueAt).map (·.map image)) := by
  refine StateAction.yields_bind_of_ok (getCellFromRootedPtr_ok resolved found) ?_
  exact yields_mapM_root sound fun target member =>
    .child (Heap.reachable_of_resolve resolved) found member

theorem yields_rootAsAdt (sound : heap.Sound) {tag : Symbol} {targets : List InternalPtr}
    (resolved : heap.resolveRuntimeRoot root = .ok pointer)
    (found : heap.getCellFromPointer pointer = .ok (.adt tag targets)) :
    Yields heap (rootAsAdt root) fun answer next image =>
      answer.1 = tag ∧
        List.Forall₂ (Holds next) answer.2 ((targets.map heap.valueAt).map (·.map image)) := by
  refine StateAction.yields_bind_of_ok (getCellFromRootedPtr_ok resolved found) ?_
  have reachable : ∀ target ∈ targets, heap.Reachable target := fun target member =>
    .child (Heap.reachable_of_resolve resolved) found member
  exact (yields_mapM_root sound reachable).map fun roots _ _ _ holds => ⟨rfl, holds⟩

theorem yields_rootAsDict (sound : heap.Sound) {entries : SymbolMap InternalPtr}
    (resolved : heap.resolveRuntimeRoot root = .ok pointer)
    (found : heap.getCellFromPointer pointer = .ok (.dict entries)) :
    Yields heap (rootAsDict root) fun answer next image =>
      answer.map Prod.fst = entries.map Prod.fst ∧
        List.Forall₂ (Holds next) (answer.map Prod.snd)
          ((entries.map fun entry => heap.valueAt entry.2).map (·.map image)) := by
  refine StateAction.yields_bind_of_ok (getCellFromRootedPtr_ok resolved found) ?_
  change Yields heap (SymbolMap.mapValues Scope.root entries) _
  have reachable : ∀ target ∈ entries.map Prod.snd, heap.Reachable target :=
    fun target member => .child (Heap.reachable_of_resolve resolved) found member
  rw [Cell.mapValues_eq]
  refine (yields_mapM_root sound reachable).andThen fun roots later image moves holds => ?_
  have length : roots.length = entries.length := by simpa using holds.length_eq
  refine StateAction.yields_pure (.refl moves.sound) ⟨?_, ?_⟩
  · rw [Cell.rebuildMap, List.map_fst_zip (by simp [length])]
  · rw [Cell.rebuildMap, List.map_snd_zip (by simp [length])]
    simpa [Function.comp_def] using holds

end Scope

/-! ## The server -/

namespace MemoryError

/-- The error that the evaluator receives. -/
def raised : MemoryError → RaisedError
  | .internal message => .internal message
  | .custom message => .other message
  | .nativeType expected got => .nativeType expected got
  | .indexOutOfBounds name index len =>
      .other s!"index {index} out of bounds in \x60{name}\x60 (len {len})"

end MemoryError

section Server

open Scope

variable {Value Call Result Second : Type}

abbrev EvalServer (Code Value Call : Type) :=
  Program.Server (ScopeRequest RootedPtr Value Call) (Heap Code) RaisedError

/-- The heap answers the requests for cells and lists. -/
def heapServer (others : EvalServer Code Value Call) : EvalServer Code Value Call
  | _, .typeName root => (typeName root).adaptError MemoryError.raised
  | _, .asTuple root => (rootAsTuple root).adaptError MemoryError.raised
  | _, .asDict root => (rootAsDict root).adaptError MemoryError.raised
  | _, .asAdt root => (rootAsAdt root).adaptError MemoryError.raised
  | _, .asList root => (rootAsList root).adaptError MemoryError.raised
  | _, .listLen root => (Scope.listLen root).adaptError MemoryError.raised
  | _, .listItems root => (Scope.listItems root).adaptError MemoryError.raised
  | _, .listHeadTail root => (Scope.listHeadTail root).adaptError MemoryError.raised
  | _, .listItem items index => (getItem items index).adaptError MemoryError.raised
  | Answer, request => others Answer request

/-- The fault of an exhausted heap. -/
def OutOfMemoryFault (fault : Fault) : Prop :=
  ∃ error, OutOfMemory error ∧ fault = .error (.raised error.raised)

theorem serve_ask {server : EvalServer Code Value Call}
    (request : ScopeRequest RootedPtr Value Call Result) :
    (EvalM.ask request).serve server =
      (server _ request).adaptError fun error => Fault.error (.raised error) := by
  funext heap
  rw [EvalM.ask, Program.serve_bind]
  change ((Program.request request).serve server heap).bind _ = (server _ request heap).map _
  rw [Program.serve_request]
  cases server _ request heap with
  | none => rfl
  | some ended =>
      obtain ⟨answer, later⟩ := ended
      cases answer <;> rfl

variable {heap : Heap Code} {others : EvalServer Code Value Call} {allowed : Fault → Prop}

/-- Served by the heap, the program ends, unless with an allowed fault, with a move of
the heap and a result that meets the postcondition. -/
abbrev Serves (others : EvalServer Code Value Call) (allowed : Fault → Prop) (heap : Heap Code)
    (program : EvalM RootedPtr Value Call Result)
    (post : Result → Heap Code → (InternalPtr → InternalPtr) → Prop) : Prop :=
  StateAction.Yields Moves allowed (program.serve (heapServer others)) heap post

theorem Serves.pure {post : Result → Heap Code → (InternalPtr → InternalPtr) → Prop}
    {result : Result} (sound : heap.Sound) (holds : post result heap id) :
    Serves others allowed heap (pure result) post :=
  StateAction.yields_pure (.refl sound) holds

/-- More faults are allowed. -/
theorem Serves.weaken {program : EvalM RootedPtr Value Call Result} {more : Fault → Prop}
    {post : Result → Heap Code → (InternalPtr → InternalPtr) → Prop}
    (serves : Serves others allowed heap program post)
    (implies : ∀ fault, allowed fault → more fault) : Serves others more heap program post :=
  serves.imp id fun ⟨fault, next, ended, isAllowed⟩ => ⟨fault, next, ended, implies fault isAllowed⟩

theorem Serves.bind {program : EvalM RootedPtr Value Call Result}
    {next : Result → EvalM RootedPtr Value Call Second}
    {middle : Result → Heap Code → (InternalPtr → InternalPtr) → Prop}
    {post : Second → Heap Code → (InternalPtr → InternalPtr) → Prop}
    (serves : Serves others allowed heap program middle)
    (rest : ∀ result later image, Moves heap later image → middle result later image →
      Serves others allowed later (next result) fun second last after =>
        post second last (after ∘ image)) :
    Serves others allowed heap (program >>= next) post := by
  rw [Serves, Program.serve_bind]
  exact StateAction.Yields.bind Moves.trans serves rest

/-- A request whose operation ends well on the heap. -/
theorem Serves.ask {request : ScopeRequest RootedPtr Value Call Result}
    {operation : Scope Code Result}
    {middle : Result → Heap Code → (InternalPtr → InternalPtr) → Prop}
    {next : Result → EvalM RootedPtr Value Call Second}
    {post : Second → Heap Code → (InternalPtr → InternalPtr) → Prop}
    (memory : ∀ fault, OutOfMemoryFault fault → allowed fault)
    (answers : heapServer others _ request = operation.adaptError MemoryError.raised)
    (yields : Yields heap operation middle)
    (rest : ∀ result later image, Moves heap later image → middle result later image →
      Serves others allowed later (next result) fun second last after =>
        post second last (after ∘ image)) :
    Serves others allowed heap (EvalM.ask request >>= next) post := by
  refine Serves.bind ?_ rest
  rw [Serves, serve_ask, answers]
  refine (yields.adaptError (fun error => allowed (.error (.raised error))) ?_).adaptError allowed
    fun _ isAllowed => isAllowed
  exact fun error exhausted => memory _ ⟨error, exhausted, rfl⟩

/-- A request whose operation does not touch the heap. -/
theorem Serves.ask_of_ok {request : ScopeRequest RootedPtr Value Call Result}
    {operation : Scope Code Result} {answer : Result}
    {next : Result → EvalM RootedPtr Value Call Second}
    {post : Second → Heap Code → (InternalPtr → InternalPtr) → Prop}
    (answers : heapServer others _ request = operation.adaptError MemoryError.raised)
    (ended : operation heap = some (.ok answer, heap))
    (rest : Serves others allowed heap (next answer) post) :
    Serves others allowed heap (EvalM.ask request >>= next) post := by
  rw [Serves, Program.serve_bind, serve_ask, answers]
  exact StateAction.yields_bind_of_ok
    (StateAction.adaptError_of_ok (StateAction.adaptError_of_ok ended)) rest

end Server

end RexLang
