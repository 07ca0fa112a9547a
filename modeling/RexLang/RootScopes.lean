import RexLang.HeapMoves
import RexLang.MovingActions

/-!
# Root scopes

The operations of a root scope on the heap: reading the cell of a root, rooting a
pointer, and allocating a cell with a root to it.
-/

namespace RexLang

variable {Code : Type}

/-- The variants of `EngineError` that the memory reports. -/
inductive MemoryError where
  | internal (message : String)
  | custom (message : String)
  | nativeType (expected got : String)
  | indexOutOfBounds (name : Symbol) (index : Int) (len : Nat)
deriving DecidableEq

namespace Cell

variable {Ptr : Type}

def cellTypeName : Cell Code Ptr → String
  | .bool _ => "Bool"
  | .u8 _ => "u8"
  | .u16 _ => "u16"
  | .u32 _ => "u32"
  | .u64 _ => "u64"
  | .i8 _ => "i8"
  | .i16 _ => "i16"
  | .i32 _ => "i32"
  | .i64 _ => "i64"
  | .f32 _ => "f32"
  | .f64 _ => "f64"
  | .char _ => "Char"
  | .string _ => "String"
  | .uuid _ => "UUID"
  | .hash _ => "Hash"
  | .dateTime _ => "DateTime"
  | .tuple _ => "tuple"
  | .empty | .cons _ _ | .listSlice _ _ _ => "list"
  | .data _ => "data"
  | .binaryData _ => "binary_data"
  | .dict _ => "dict"
  | .adt _ _ => "adt"
  | .uninitialized _ => "uninitialized"
  | .closure _ => "closure"
  | .native _ => "native"
  | .overloaded _ => "overloaded"

def cellTypeError (expected : String) (cell : Cell Code Ptr) : MemoryError :=
  .nativeType expected cell.cellTypeName

def cellAsU8 : Cell Code Ptr → Except MemoryError UInt8
  | .u8 value => .ok value
  | cell => .error (cell.cellTypeError "u8")

def cellAsU64 : Cell Code Ptr → Except MemoryError UInt64
  | .u64 value => .ok value
  | cell => .error (cell.cellTypeError "u64")

def cellAsI32 : Cell Code Ptr → Except MemoryError Int32
  | .i32 value => .ok value
  | cell => .error (cell.cellTypeError "i32")

def cellAsData : Cell Code Ptr → Except MemoryError (List Ptr)
  | .data values => .ok values
  | cell => .error (cell.cellTypeError "data")

end Cell

/-- `get_cell_from_pointer` with its error. -/
def Heap.cellAt (heap : Heap Code) (pointer : InternalPtr) :
    Except MemoryError (Cell Code InternalPtr) :=
  (heap.getCellFromPointer pointer).mapError .internal

/-- `RootScope`: what its methods do to the heap. -/
abbrev Scope (Code Result : Type) := StateAction (Heap Code) MemoryError Result

namespace Scope

/-- `pointer`; a released root is an assertion that fails. -/
def pointer (root : RootedPtr) : Scope Code InternalPtr :=
  StateAction.read fun heap => liftM ((heap.resolveRuntimeRoot root).mapError MemoryError.internal)

/-- `root`. -/
def root (pointer : InternalPtr) : Scope Code RootedPtr :=
  StateAction.of fun heap =>
    let (root, heap) := heap.registerRuntimeRoot pointer
    some (.ok root, heap)

def getCellFromRootedPtr (root : RootedPtr) : Scope Code (Cell Code InternalPtr) := do
  let pointer ← pointer root
  StateAction.read fun heap => liftM (heap.cellAt pointer)

/-- `Heap::alloc_reference`. -/
def allocate (cell : Cell Code InternalPtr) : Scope Code InternalPtr :=
  StateAction.of fun heap =>
    let (allocated, heap) := heap.allocReference cell
    some (allocated.mapError .internal, heap)

def allocReference (cell : Cell Code InternalPtr) : Scope Code RootedPtr := do
  let pointer ← allocate cell
  root pointer

def allocRootU8 (value : UInt8) : Scope Code RootedPtr :=
  allocReference (.u8 value)

def allocRootEmpty : Scope Code RootedPtr :=
  allocReference .empty

def allocRootCons (head tail : RootedPtr) : Scope Code RootedPtr := do
  let head ← pointer head
  let tail ← pointer tail
  allocReference (.cons head tail)

def allocRootData (values : List RootedPtr) : Scope Code RootedPtr := do
  let values ← values.mapM pointer
  allocReference (.data values)

def allocRootBinaryData (values : List UInt8) : Scope Code RootedPtr :=
  allocReference (.binaryData values)

def allocRootAdt (name : Symbol) (args : List RootedPtr) : Scope Code RootedPtr := do
  let args ← args.mapM pointer
  allocReference (.adt name args)

def rootAsU64 (root : RootedPtr) : Scope Code UInt64 := do
  let cell ← getCellFromRootedPtr root
  cell.cellAsU64

def rootAsI32 (root : RootedPtr) : Scope Code Int32 := do
  let cell ← getCellFromRootedPtr root
  cell.cellAsI32

/-! ## What the operations do to a sound heap -/

/-- The errors of an allocation on a sound heap. -/
def OutOfMemory : MemoryError → Prop
  | .internal message => Exhausted message
  | _ => False

/-- The action ends, unless the heap is exhausted, with a move of the heap and a
result that meets the postcondition. -/
abbrev Yields {Result : Type} (heap : Heap Code) (action : Scope Code Result)
    (post : Result → Heap Code → (InternalPtr → InternalPtr) → Prop) : Prop :=
  StateAction.Yields Moves OutOfMemory action heap post

variable {heap : Heap Code} {First Second : Type}

theorem Yields.andThen {action : Scope Code First} {next : First → Scope Code Second}
    {middle : First → Heap Code → (InternalPtr → InternalPtr) → Prop}
    {post : Second → Heap Code → (InternalPtr → InternalPtr) → Prop}
    (yields : Yields heap action middle)
    (rest : ∀ result later image, Moves heap later image → middle result later image →
      Yields later (next result) fun second last after => post second last (after ∘ image)) :
    Yields heap (action >>= next) post :=
  StateAction.Yields.bind Moves.trans yields rest

/-- The result of a function on the result of an action. -/
theorem Yields.map {action : Scope Code First} {change : First → Second}
    {middle : First → Heap Code → (InternalPtr → InternalPtr) → Prop}
    {post : Second → Heap Code → (InternalPtr → InternalPtr) → Prop}
    (yields : Yields heap action middle)
    (implies : ∀ result next image, Moves heap next image → middle result next image →
      post (change result) next image) :
    Yields heap (do return change (← action)) post :=
  yields.andThen fun result _ image moves holds =>
    StateAction.yields_pure (.refl moves.sound) (implies result _ image moves holds)

/-- An action after one that leaves every pointer in its place. -/
theorem yields_of_ran {action : Scope Code First} {next : First → Scope Code Second}
    {post : Second → Heap Code → (InternalPtr → InternalPtr) → Prop} {result : First}
    {later : Heap Code} (ran : action heap = some (.ok result, later))
    (moves : Moves heap later id) (rest : Yields later (next result) post) :
    Yields heap (action >>= next) post := by
  have ends : StateAction.Meets OutOfMemory action heap fun first second =>
      first = result ∧ second = later := .inl ⟨result, later, ran, rfl, rfl⟩
  refine ends.bind fun first second same => ?_
  obtain ⟨rfl, rfl⟩ := same
  exact StateAction.Meets.mono rest fun second last ⟨after, movesLast, holds⟩ =>
    ⟨after, moves.trans movesLast, holds⟩

theorem read_ok {run : Heap Code → ExceptT MemoryError Option First} {result : First}
    (ran : run heap = some (.ok result)) : StateAction.read run heap = some (.ok result, heap) :=
  congrArg (Option.map fun outcome => (outcome, heap)) ran

theorem pointer_ok {root : RootedPtr} {target : InternalPtr}
    (resolved : heap.resolveRuntimeRoot root = .ok target) :
    pointer root heap = some (.ok target, heap) := by
  refine read_ok ?_
  rw [resolved]
  rfl

theorem mapM_pointer_ok {roots : List RootedPtr} {targets : List InternalPtr}
    (resolved : List.Forall₂ (fun root target => heap.resolveRuntimeRoot root = .ok target)
      roots targets) : roots.mapM pointer heap = some (.ok targets, heap) := by
  induction resolved with
  | nil => rfl
  | cons head _ hypothesis =>
      rw [List.mapM_cons, StateAction.bind_of_ok (pointer_ok head), StateAction.bind_of_ok hypothesis]
      rfl

theorem cellAt_ok {target : InternalPtr} {cell : Cell Code InternalPtr}
    (found : heap.getCellFromPointer target = .ok cell) : heap.cellAt target = .ok cell := by
  rw [Heap.cellAt, found]
  rfl

theorem getCellFromRootedPtr_ok {root : RootedPtr} {target : InternalPtr}
    {cell : Cell Code InternalPtr} (resolved : heap.resolveRuntimeRoot root = .ok target)
    (found : heap.getCellFromPointer target = .ok cell) :
    getCellFromRootedPtr root heap = some (.ok cell, heap) := by
  rw [getCellFromRootedPtr, StateAction.bind_of_ok (pointer_ok resolved)]
  refine read_ok ?_
  rw [cellAt_ok found]
  rfl

/-- A root for a reachable pointer. -/
theorem root_ok (sound : heap.Sound) {target : InternalPtr} (reachable : heap.Reachable target) :
    ∃ rooted next, root target heap = some (.ok rooted, next) ∧ Moves heap next id ∧
      next.resolveRuntimeRoot rooted = .ok target := by
  obtain ⟨cell, found⟩ := sound.valid target reachable
  exact ⟨_, _, rfl, moves_registerRuntimeRoot sound found fun _ edge => .child reachable found edge,
    resolve_registerRuntimeRoot heap target⟩

/-- Roots for reachable pointers, one after the other. -/
theorem mapM_root_ok (sound : heap.Sound) {targets : List InternalPtr}
    (reachable : ∀ target ∈ targets, heap.Reachable target) :
    ∃ roots next, targets.mapM root heap = some (.ok roots, next) ∧ Moves heap next id ∧
      List.Forall₂ (fun rooted target => next.resolveRuntimeRoot rooted = .ok target)
        roots targets := by
  induction targets generalizing heap with
  | nil => exact ⟨[], heap, rfl, .refl sound, .nil⟩
  | cons target targets hypothesis =>
      obtain ⟨rooted, later, ran, moves, resolved⟩ :=
        root_ok sound (reachable target List.mem_cons_self)
      obtain ⟨roots, last, ranRest, movesRest, others⟩ := hypothesis moves.sound
        fun other member => moves.reachable (reachable other (.tail _ member))
      refine ⟨rooted :: roots, last, ?_, moves.trans movesRest,
        .cons (movesRest.roots _ _ resolved) others⟩
      rw [List.mapM_cons, StateAction.bind_of_ok ran, StateAction.bind_of_ok ranRest]
      rfl

theorem allocate_eq (cell : Cell Code InternalPtr) :
    allocate cell heap = some ((heap.allocReference cell).1.mapError MemoryError.internal,
      (heap.allocReference cell).2) := rfl

/-- The new root holds the cell, with the images of its pointers. -/
theorem yields_allocReference (sound : heap.Sound) {cell : Cell Code InternalPtr}
    (children : ∀ child ∈ cell.pointers, heap.Reachable child) :
    Yields heap (allocReference cell) fun rooted next image =>
      ∃ target, next.resolveRuntimeRoot rooted = .ok target ∧
        next.getCellFromPointer target = .ok (cell.map image) := by
  rcases allocates_allocReference sound children with
    ⟨target, later, image, allocated, moves, found⟩ | ⟨message, later, failed, exhausted⟩
  · have ran : allocate cell heap = some (.ok target, later) := by
      rw [allocate_eq, allocated]
      rfl
    have edges : ∀ child ∈ (cell.map image).pointers, later.Reachable child := by
      rw [Cell.pointers_map]
      intro child edge
      obtain ⟨before, isChild, rfl⟩ := List.mem_map.mp edge
      exact moves.reachable (children before isChild)
    refine .inl ⟨_, _, (StateAction.bind_of_ok ran).trans rfl, image,
      moves.trans (moves_registerRuntimeRoot moves.sound found edges), target,
      resolve_registerRuntimeRoot later target, ?_⟩
    exact found
  · have ran : allocate cell heap = some (.error (.internal message), later) := by
      rw [allocate_eq, failed]
      rfl
    exact .inr ⟨_, _, StateAction.bind_of_error ran, exhausted⟩

end Scope

end RexLang
