import Mathlib.Control.Monad.Basic
import RexLang.Types

/-!
# Heap cells

The cells of the heap, over a type of pointers, and the traversal
`map_pointers` that visits the pointers of a cell in order.  What a traversal
does is determined by the list of the pointers that it visits.
-/

namespace RexLang

/-- `InternalEnvironment`: the bindings of the innermost entry, and those of its
parents from the inside out. -/
structure InternalEnvironment (Ptr : Type) where
  bindings : SymbolMap Ptr
  parents : List (SymbolMap Ptr)

/-- `Closure`, over the type of its code. -/
structure Closure (Code Ptr : Type) where
  env : InternalEnvironment Ptr
  param : Symbol
  paramTy : Typ
  typ : Typ
  body : Code

structure NativeFn (Ptr : Type) where
  nativeId : Nat
  name : Symbol
  arity : Nat
  typ : Typ
  applied : List Ptr
  appliedTypes : List Typ

structure OverloadedFn (Ptr : Type) where
  name : Symbol
  typ : Typ
  applied : List Ptr
  appliedTypes : List Typ

inductive Cell (Code Ptr : Type) where
  | bool (value : Bool)
  | u8 (value : UInt8)
  | u16 (value : UInt16)
  | u32 (value : UInt32)
  | u64 (value : UInt64)
  | i8 (value : Int8)
  | i16 (value : Int16)
  | i32 (value : Int32)
  | i64 (value : Int64)
  | f32 (value : F32)
  | f64 (value : F64)
  | char (value : Char)
  | string (value : String)
  | uuid (value : BitVec 128)
  | hash (value : BitVec 256)
  | dateTime (nanos : Int)
  | tuple (values : List Ptr)
  | empty
  | cons (head tail : Ptr)
  | listSlice (start «end» : Nat) (elements : Ptr)
  | data (values : List Ptr)
  | binaryData (bytes : List UInt8)
  | dict (values : SymbolMap Ptr)
  | adt (tag : Symbol) (args : List Ptr)
  | uninitialized (name : Symbol)
  | closure (closure : Closure Code Ptr)
  | native (native : NativeFn Ptr)
  | overloaded (overloaded : OverloadedFn Ptr)

variable {Code Ptr Target : Type} {M : Type → Type} [Monad M]

/-! ## Traversals -/

/-- A traversal of the values of a map, in key order. -/
def SymbolMap.mapValues (map : Ptr → M Target) (entries : SymbolMap Ptr) :
    M (SymbolMap Target) :=
  entries.mapM fun (name, pointer) => do return (name, ← map pointer)

def InternalEnvironment.mapPointers (map : Ptr → M Target) (env : InternalEnvironment Ptr) :
    M (InternalEnvironment Target) := do
  let bindings ← SymbolMap.mapValues map env.bindings
  let parents ← env.parents.mapM (SymbolMap.mapValues map)
  return ⟨bindings, parents⟩

namespace Cell

def mapPointers (map : Ptr → M Target) : Cell Code Ptr → M (Cell Code Target)
  | .tuple values => do return .tuple (← values.mapM map)
  | .data values => do return .data (← values.mapM map)
  | .adt tag args => do return .adt tag (← args.mapM map)
  | .cons head tail => do
      let head ← map head
      let tail ← map tail
      return .cons head tail
  | .listSlice start «end» elements => do return .listSlice start «end» (← map elements)
  | .dict values => do return .dict (← SymbolMap.mapValues map values)
  | .closure value => do return .closure { value with env := ← value.env.mapPointers map }
  | .native value => do return .native { value with applied := ← value.applied.mapM map }
  | .overloaded value => do return .overloaded { value with applied := ← value.applied.mapM map }
  | .bool value => return .bool value
  | .u8 value => return .u8 value
  | .u16 value => return .u16 value
  | .u32 value => return .u32 value
  | .u64 value => return .u64 value
  | .i8 value => return .i8 value
  | .i16 value => return .i16 value
  | .i32 value => return .i32 value
  | .i64 value => return .i64 value
  | .f32 value => return .f32 value
  | .f64 value => return .f64 value
  | .char value => return .char value
  | .string value => return .string value
  | .uuid value => return .uuid value
  | .hash value => return .hash value
  | .dateTime nanos => return .dateTime nanos
  | .binaryData bytes => return .binaryData bytes
  | .empty => return .empty
  | .uninitialized name => return .uninitialized name

/-- The cell with every pointer replaced. -/
def map (map : Ptr → Target) (cell : Cell Code Ptr) : Cell Code Target :=
  Id.run (cell.mapPointers fun pointer => pure (map pointer))

/-- The visit of `trace_pointers`. -/
def pushPointer (pointer : Ptr) : StateM (List Ptr) Ptr :=
  fun out => (pointer, out ++ [pointer])

/-- `trace_pointers`: the traversal that collects the pointers. -/
def tracePointers (cell : Cell Code Ptr) : List Ptr :=
  ((cell.mapPointers pushPointer).run []).2

/-- The pointers of a cell, in the order in which they are visited. -/
def pointers : Cell Code Ptr → List Ptr
  | .tuple values | .data values | .adt _ values => values
  | .cons head tail => [head, tail]
  | .listSlice _ _ elements => [elements]
  | .dict values => values.map Prod.snd
  | .closure value =>
      value.env.bindings.map Prod.snd ++ value.env.parents.flatMap (·.map Prod.snd)
  | .native value => value.applied
  | .overloaded value => value.applied
  | _ => []

/-! ## Traversals as lists -/

section Rebuild

/-- The map with its values replaced in order. -/
def rebuildMap (entries : SymbolMap Ptr) (targets : List Target) : SymbolMap Target :=
  (entries.map Prod.fst).zip targets

def rebuildMaps : List (SymbolMap Ptr) → List Target → List (SymbolMap Target)
  | [], _ => []
  | entries :: rest, targets =>
      rebuildMap entries (targets.take entries.length) ::
        rebuildMaps rest (targets.drop entries.length)

/-- The cell with its pointers replaced in order. -/
def rebuild (targets : List Target) : Cell Code Ptr → Cell Code Target
  | .tuple _ => .tuple targets
  | .data _ => .data targets
  | .adt tag _ => .adt tag targets
  | .cons _ _ =>
      match targets with
      | [head, tail] => .cons head tail
      | _ => .empty
  | .listSlice start «end» _ =>
      match targets with
      | [elements] => .listSlice start «end» elements
      | _ => .empty
  | .dict values => .dict (rebuildMap values targets)
  | .closure value => .closure { value with
      env := ⟨rebuildMap value.env.bindings (targets.take value.env.bindings.length),
        rebuildMaps value.env.parents (targets.drop value.env.bindings.length)⟩ }
  | .native value => .native { value with applied := targets }
  | .overloaded value => .overloaded { value with applied := targets }
  | .bool value => .bool value
  | .u8 value => .u8 value
  | .u16 value => .u16 value
  | .u32 value => .u32 value
  | .u64 value => .u64 value
  | .i8 value => .i8 value
  | .i16 value => .i16 value
  | .i32 value => .i32 value
  | .i64 value => .i64 value
  | .f32 value => .f32 value
  | .f64 value => .f64 value
  | .char value => .char value
  | .string value => .string value
  | .uuid value => .uuid value
  | .hash value => .hash value
  | .dateTime nanos => .dateTime nanos
  | .binaryData bytes => .binaryData bytes
  | .empty => .empty
  | .uninitialized name => .uninitialized name

variable [LawfulMonad M]

/-- After a traversal of a list only lists of its length matter. -/
theorem mapM_bind_congr {Result : Type} {map : Ptr → M Target} {values : List Ptr}
    {first second : List Target → M Result}
    (agree : ∀ targets, targets.length = values.length → first targets = second targets) :
    values.mapM map >>= first = values.mapM map >>= second := by
  induction values generalizing first second with
  | nil => simpa using agree [] rfl
  | cons value values hypothesis =>
      simp only [List.mapM_cons, bind_assoc, pure_bind]
      refine bind_congr fun target => hypothesis fun targets length => ?_
      exact agree _ (by simp [length])

theorem mapValues_eq (map : Ptr → M Target) (entries : SymbolMap Ptr) :
    SymbolMap.mapValues map entries =
      (entries.map Prod.snd).mapM map >>= fun targets => pure (rebuildMap entries targets) := by
  induction entries with
  | nil => simp [SymbolMap.mapValues, rebuildMap]
  | cons entry entries hypothesis =>
      obtain ⟨name, pointer⟩ := entry
      rw [SymbolMap.mapValues] at hypothesis ⊢
      simp only [List.mapM_cons, hypothesis, List.map_cons, bind_assoc, pure_bind]
      rfl

theorem mapMaps_eq (map : Ptr → M Target) (maps : List (SymbolMap Ptr)) :
    maps.mapM (SymbolMap.mapValues map) =
      (maps.flatMap (·.map Prod.snd)).mapM map >>= fun targets =>
        pure (rebuildMaps maps targets) := by
  induction maps with
  | nil => simp [rebuildMaps]
  | cons entries maps hypothesis =>
      simp only [List.mapM_cons, mapValues_eq, hypothesis, List.flatMap_cons, List.mapM_append,
        bind_assoc, pure_bind]
      refine mapM_bind_congr fun targets length => bind_congr fun rest => ?_
      rw [List.length_map] at length
      simp [rebuildMaps, ← length]

theorem mapPointers_env_eq (map : Ptr → M Target) (env : InternalEnvironment Ptr) :
    env.mapPointers map =
      (env.bindings.map Prod.snd ++ env.parents.flatMap (·.map Prod.snd)).mapM map >>= fun targets =>
        pure ⟨rebuildMap env.bindings (targets.take env.bindings.length),
          rebuildMaps env.parents (targets.drop env.bindings.length)⟩ := by
  simp only [InternalEnvironment.mapPointers, mapValues_eq, mapMaps_eq, List.mapM_append,
    bind_assoc, pure_bind]
  refine mapM_bind_congr fun targets length => bind_congr fun rest => ?_
  rw [List.length_map] at length
  simp [← length]

/-- A traversal maps the list of the pointers. -/
theorem mapPointers_eq (map : Ptr → M Target) (cell : Cell Code Ptr) :
    cell.mapPointers map =
      cell.pointers.mapM map >>= fun targets => pure (cell.rebuild targets) := by
  cases cell with
  | closure value => simp [mapPointers, pointers, rebuild, mapPointers_env_eq]
  | dict values => simp [mapPointers, pointers, rebuild, mapValues_eq]
  | _ => simp [mapPointers, pointers, rebuild]

end Rebuild

/-- The pointers are collected in the order of the traversal. -/
theorem tracePointers_eq (cell : Cell Code Ptr) : cell.tracePointers = cell.pointers := by
  have collects : ∀ values out : List Ptr,
      (values.mapM pushPointer).run out = (values, out ++ values) := by
    intro values
    induction values with
    | nil =>
        intro out
        rw [List.append_nil]
        rfl
    | cons value values hypothesis =>
        intro out
        rw [List.mapM_cons, StateT.run_bind]
        change ((values.mapM pushPointer >>= fun rest => pure (value :: rest)).run
          (out ++ [value])) = _
        rw [StateT.run_bind, hypothesis, List.append_assoc]
        rfl
  rw [tracePointers, mapPointers_eq, StateT.run_bind, collects]
  rfl

theorem map_eq (map : Ptr → Target) (cell : Cell Code Ptr) :
    cell.map map = cell.rebuild (cell.pointers.map map) := by
  rw [Cell.map, mapPointers_eq]
  simp

/-- A traversal that does nothing but replace the pointers. -/
theorem mapPointers_eq_pure [LawfulMonad M] {map : Ptr → M Target} {target : Ptr → Target}
    {cell : Cell Code Ptr} (agree : ∀ pointer ∈ cell.pointers, map pointer = pure (target pointer)) :
    cell.mapPointers map = pure (cell.map target) := by
  have mapped : cell.pointers.mapM map = pure (cell.pointers.map target) := by
    revert agree
    generalize cell.pointers = values
    intro agree
    induction values with
    | nil => simp
    | cons value values hypothesis =>
        have rest := hypothesis fun pointer member => agree pointer (.tail _ member)
        simp [agree value (.head _), rest]
  rw [mapPointers_eq, mapped, pure_bind, map_eq]

end Cell

end RexLang
