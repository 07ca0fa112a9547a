import RexLang.EvaluatorFrames
import RexLang.RootScopes

/-!
# Representations of lists

A list is an empty cell, a cons cell, or a slice of an array of pointers or of
bytes.  The walks over its cells, the operations of a root scope that use them,
and the natives of the prelude that take ranges.
-/

namespace RexLang

variable {Code : Type}

inductive ListElement where
  | internalPtr (pointer : InternalPtr)
  | u8 (value : UInt8)
deriving DecidableEq

inductive ListRootElement where
  | rootedPtr (root : RootedPtr)
  | u8 (value : UInt8)

inductive ListItemsSeed where
  | ready (items : ListItems InternalPtr)
  | elements (elements : List ListElement)

/-- `values[start..end]`, of bounds that were validated. -/
def subrange {Item : Type} (values : List Item) (start «end» : Nat) : List Item :=
  (values.take «end»).drop start

/-- `checked_add` with the error of its overflow. -/
def checkedAddUsize (first second : Nat) (overflow : String) : Except MemoryError Nat :=
  if first + second < 2 ^ 64 then .ok (first + second) else .error (.internal overflow)

def validateListSliceBounds (dataLen start finish : Nat) : Except MemoryError Unit :=
  if finish < start then
    .error (.custom s!"invalid list slice range: start {start} is greater than end {finish}")
  else if dataLen < finish then .error (.indexOutOfBounds "ListSlice" finish dataLen)
  else .ok ()

def listSliceBackingLen : Cell Code InternalPtr → Except MemoryError Nat
  | .data values => .ok values.length
  | .binaryData values => .ok values.length
  | cell => .error (cell.cellTypeError "list slice backing data")

/-! ## Walks over the cells -/

/-- A walk over the cells of a heap; one that has no outcome never ends. -/
abbrev Walk (Result : Type) := ExceptT MemoryError Option Result

def Walk.endless {Result : Type} : Walk Result :=
  ExceptT.mk none

/-- A walk that takes more steps than there are slots meets a cell again. -/
def Heap.walkLimit (heap : Heap Code) : Nat :=
  heap.slots.length + 1

def appendListSliceElements (heap : Heap Code) (elements : InternalPtr) (start «end» : Nat)
    (out : List ListElement) : Except MemoryError (List ListElement) := do
  match ← heap.cellAt elements with
  | .data values =>
      validateListSliceBounds values.length start «end»
      return out ++ (subrange values start «end»).map .internalPtr
  | .binaryData values =>
      validateListSliceBounds values.length start «end»
      return out ++ (subrange values start «end»).map .u8
  | cell => throw (cell.cellTypeError "list slice backing data")

/-- The loop of `list_elements_from_cell`. -/
def listElementsLoop (heap : Heap Code) :
    Nat → Cell Code InternalPtr → List ListElement → Walk (List ListElement)
  | 0, _, _ => Walk.endless
  | _ + 1, .empty, out => return out
  | fuel + 1, .cons head tail, out => do
      let cursor ← heap.cellAt tail
      listElementsLoop heap fuel cursor (out ++ [.internalPtr head])
  | _ + 1, .listSlice start «end» elements, out =>
      appendListSliceElements heap elements start «end» out
  | _ + 1, cursor, _ => throw (cursor.cellTypeError "list")

def listElementsFromCell (heap : Heap Code) (cell : Cell Code InternalPtr) :
    Walk (List ListElement) :=
  listElementsLoop heap heap.walkLimit cell []

def listElementsFromPointer (heap : Heap Code) (pointer : InternalPtr) :
    Walk (List ListElement) := do
  let cell ← heap.cellAt pointer
  listElementsFromCell heap cell

/-- The loop of `list_len_from_pointer`. -/
def listLenLoop (heap : Heap Code) : Nat → Cell Code InternalPtr → Nat → Walk Nat
  | 0, _, _ => Walk.endless
  | _ + 1, .empty, len => return len
  | fuel + 1, .cons _ tail, len => do
      let len ← checkedAddUsize len 1 "list length overflow"
      let cursor ← heap.cellAt tail
      listLenLoop heap fuel cursor len
  | _ + 1, .listSlice start «end» elements, len => do
      let backingLen ← listSliceBackingLen (← heap.cellAt elements)
      validateListSliceBounds backingLen start «end»
      checkedAddUsize len («end» - start) "list length overflow"
  | _ + 1, cell, _ => throw (cell.cellTypeError "list")

def listLenFromPointer (heap : Heap Code) (pointer : InternalPtr) : Walk Nat := do
  let cursor ← heap.cellAt pointer
  listLenLoop heap heap.walkLimit cursor 0

/-- `get_cell_from_pointer(value)?.cell_as_u8()`. -/
def byteAt (heap : Heap Code) (value : InternalPtr) : Except MemoryError UInt8 := do
  let cell ← heap.cellAt value
  cell.cellAsU8

def bytesAt (heap : Heap Code) (values : List InternalPtr) : Except MemoryError (List UInt8) :=
  values.mapM (byteAt heap)

/-- The loop of `collect_list_u8`. -/
def collectListU8Loop (heap : Heap Code) :
    Nat → Cell Code InternalPtr → List UInt8 → Walk (List UInt8)
  | 0, _, _ => Walk.endless
  | _ + 1, .empty, out => return out
  | fuel + 1, .cons head tail, out => do
      let value ← byteAt heap head
      let cursor ← heap.cellAt tail
      collectListU8Loop heap fuel cursor (out ++ [value])
  | _ + 1, .listSlice start «end» elements, out => do
      match ← heap.cellAt elements with
      | .data values =>
          validateListSliceBounds values.length start «end»
          let bytes ← bytesAt heap (subrange values start «end»)
          return out ++ bytes
      | .binaryData values =>
          validateListSliceBounds values.length start «end»
          return out ++ subrange values start «end»
      | cell => throw (cell.cellTypeError "list slice backing data")
  | _ + 1, cell, _ => throw (cell.cellTypeError "list")

/-- `collect_list_u8`; the length is the capacity of the result. -/
def collectListU8 (heap : Heap Code) (pointer : InternalPtr) : Walk (List UInt8) := do
  let _ ← listLenFromPointer heap pointer
  let cursor ← heap.cellAt pointer
  collectListU8Loop heap heap.walkLimit cursor []

def listItemsFromPointer (heap : Heap Code) (pointer : InternalPtr) : Walk ListItemsSeed := do
  match ← heap.cellAt pointer with
  | .empty => return .ready (.pointers [])
  | .listSlice start «end» elements =>
      match ← heap.cellAt elements with
      | .data values =>
          validateListSliceBounds values.length start «end»
          return .ready (.slice elements start «end»)
      | .binaryData values =>
          validateListSliceBounds values.length start «end»
          return .ready (.binarySlice elements start «end» (subrange values start «end»))
      | cell => throw (cell.cellTypeError "list slice backing data")
  | .cons head tail => return .elements (← listElementsFromCell heap (.cons head tail))
  | cell => throw (cell.cellTypeError "list")

/-! ## Elements with roots -/

namespace Scope

def listSliceHeadElement (elements : RootedPtr) (start «end» : Nat) :
    Scope Code (Option ListRootElement) := do
  if «end» ≤ start then
    return none
  match ← getCellFromRootedPtr elements with
  | .data values =>
      validateListSliceBounds values.length start «end»
      match values[start]? with
      | none => return none
      | some value => return some (.rootedPtr (← root value))
  | .binaryData values =>
      validateListSliceBounds values.length start «end»
      return values[start]?.map .u8
  | cell => throw (cell.cellTypeError "list slice backing data")

/-- The pointers of the elements. -/
def elementPointers (elements : List ListElement) : List InternalPtr :=
  elements.filterMap fun element =>
    match element with
    | .internalPtr pointer => some pointer
    | .u8 _ => none

/-- The second loop of `materialize_list_elements`, over the roots of the
pointers. -/
def materializeLoop : List ListElement → List RootedPtr → Scope Code (List RootedPtr)
  | [], _ => return []
  | .internalPtr _ :: _, [] => throw (.internal "missing pre-rooted list pointer")
  | .internalPtr _ :: elements, rooted :: pointerRoots => do
      let rest ← materializeLoop elements pointerRoots
      return rooted :: rest
  | .u8 value :: elements, pointerRoots => do
      let rooted ← allocRootU8 value
      let rest ← materializeLoop elements pointerRoots
      return rooted :: rest

def materializeListElements (elements : List ListElement) : Scope Code (List RootedPtr) := do
  let pointerRoots ← (elementPointers elements).mapM root
  materializeLoop elements pointerRoots

def listElementsToRootedPtrVec (elements : List ListElement) : Scope Code (List RootedPtr) :=
  elements.mapM fun element =>
    match element with
    | .internalPtr pointer => root pointer
    | .u8 _ => throw (.nativeType "pointer-backed list" "binary-backed list")

/-- `ListItems::into_rooted`. -/
def intoRooted : ListItems InternalPtr → Scope Code (ListItems RootedPtr)
  | .slice elements start «end» => return .slice (← root elements) start «end»
  | .binarySlice elements start «end» bytes =>
      return .binarySlice (← root elements) start «end» bytes
  | .pointers pointers => return .pointers (← pointers.mapM root)

/-- `ListItems::get`. -/
def getItem : ListItems RootedPtr → Nat → Scope Code RootedPtr
  | .slice elements start «end», index => do
      let backingIndex ← checkedAddUsize start index "list slice backing index overflow"
      if «end» ≤ backingIndex then
        throw (.internal "list item index out of bounds")
      let cell ← getCellFromRootedPtr elements
      let values ← cell.cellAsData
      match values[backingIndex]? with
      | some value => root value
      | none => throw (.internal "list slice backing index out of bounds")
  | .binarySlice _ start «end» bytes, index => do
      if «end» - start ≤ index then
        throw (.internal "binary list slice index out of bounds")
      match bytes[index]? with
      | some value => allocRootU8 value
      | none => throw (.internal "binary list slice index out of bounds")
  | .pointers values, index =>
      match values[index]? with
      | some value => return value
      | none => throw (.internal "list item index out of bounds")

/-! ## Lists of a root scope -/

def listItems (root : RootedPtr) : Scope Code (ListItems RootedPtr) := do
  let pointer ← pointer root
  match ← StateAction.read fun heap => listItemsFromPointer heap pointer with
  | .ready items => intoRooted items
  | .elements elements =>
      if elements.all fun element => element matches .internalPtr _ then
        return .pointers (← listElementsToRootedPtrVec elements)
      return .pointers (← materializeListElements elements)

def allocRootListSlice (start «end» : Nat) (elements : RootedPtr) : Scope Code RootedPtr := do
  let elements ← pointer elements
  let cell ← StateAction.read fun heap => liftM (heap.cellAt elements)
  let len ← listSliceBackingLen cell
  validateListSliceBounds len start «end»
  if start = «end» then
    allocRootEmpty
  else
    allocReference (.listSlice start «end» elements)

/-- The first part of `list_head_tail`: the head, the bounds of the tail in its
array, and the tail or the array. -/
def listHeadAndRest (pointer : RootedPtr) :
    Scope Code (Option (ListRootElement × Option (Nat × Nat) × RootedPtr)) := do
  match ← getCellFromRootedPtr pointer with
  | .empty => return none
  | .cons head tail =>
      let head ← root head
      let tail ← root tail
      return some (.rootedPtr head, none, tail)
  | .listSlice start «end» elements =>
      let elements ← root elements
      match ← listSliceHeadElement elements start «end» with
      | none => return none
      | some head => return some (head, some (start + 1, «end»), elements)
  | cell => throw (cell.cellTypeError "list")

def rootListElement : ListRootElement → Scope Code RootedPtr
  | .rootedPtr root => return root
  | .u8 value => allocRootU8 value

def listHeadTail (pointer : RootedPtr) : Scope Code (Option (RootedPtr × RootedPtr)) := do
  match ← listHeadAndRest pointer with
  | none => return none
  | some (head, tailIndex, elements) =>
      let head ← rootListElement head
      match tailIndex with
      | some (start, «end») =>
          let tail ← allocRootListSlice start «end» elements
          return some (head, tail)
      | none => return some (head, elements)

def listLen (root : RootedPtr) : Scope Code Nat := do
  let pointer ← pointer root
  StateAction.read fun heap => listLenFromPointer heap pointer

def allocRootList (values : List RootedPtr) : Scope Code RootedPtr := do
  if values.isEmpty then
    allocRootEmpty
  else
    let data ← allocRootData values
    allocRootListSlice 0 values.length data

def allocRootBinaryList (values : List UInt8) : Scope Code RootedPtr := do
  if values.isEmpty then
    allocRootEmpty
  else
    let data ← allocRootBinaryData values
    allocRootListSlice 0 values.length data

def rootAsList (root : RootedPtr) : Scope Code (List RootedPtr) := do
  let pointer ← pointer root
  let elements ← StateAction.read fun heap => listElementsFromPointer heap pointer
  materializeListElements elements

def rootAsBinaryList (root : RootedPtr) : Scope Code (List UInt8) := do
  let pointer ← pointer root
  StateAction.read fun heap => collectListU8 heap pointer

end Scope

/-! ## Ranges of the prelude -/

namespace ListNatives

open Scope

def optionFromRoot : Option RootedPtr → Scope Code RootedPtr
  | some value => allocRootAdt "Some" [value]
  | none => allocRootAdt "None" []

def checkedEndpoint (name : Symbol) (index : Int32) (len : Nat) : Except MemoryError Nat :=
  if index.toInt < 0 then .error (.indexOutOfBounds name index.toInt len)
  else if len < index.toInt.toNat then .error (.indexOutOfBounds name index.toInt len)
  else .ok index.toInt.toNat

def listRangeFromItems (items : List RootedPtr) (start finish : Nat) : Scope Code RootedPtr :=
  if finish < start ∨ items.length < finish then
    throw (.internal s!"invalid list item range {start}..{finish} for len {items.length}")
  else
    allocRootList (subrange items start finish)

def listGet (index list : RootedPtr) : Scope Code RootedPtr := do
  let index ← rootAsU64 index
  let values ← listItems list
  if index.toNat < values.len then
    optionFromRoot (some (← getItem values index.toNat))
  else
    optionFromRoot none

def listSlice (start «end» list : RootedPtr) : Scope Code RootedPtr := do
  let start ← rootAsU64 start
  let «end» ← rootAsU64 «end»
  let values ← rootAsList list
  if start.toNat ≤ «end».toNat ∧ «end».toNat ≤ values.length then
    optionFromRoot (some (← listRangeFromItems values start.toNat «end».toNat))
  else
    optionFromRoot none

def first (count list : RootedPtr) : Scope Code RootedPtr := do
  let n ← rootAsI32 count
  let values ← rootAsList list
  let «end» ← checkedEndpoint "first" n values.length
  listRangeFromItems values 0 «end»

def last (count list : RootedPtr) : Scope Code RootedPtr := do
  let n ← rootAsI32 count
  let values ← rootAsList list
  let n ← checkedEndpoint "last" n values.length
  listRangeFromItems values (values.length - n) values.length

def slice (start «end» list : RootedPtr) : Scope Code RootedPtr := do
  let n ← rootAsI32 start
  let m ← rootAsI32 «end»
  let values ← rootAsList list
  let start ← checkedEndpoint "slice" n values.length
  let «end» ← checkedEndpoint "slice" m values.length
  if «end» < start then
    throw (.custom s!"invalid slice range: end {m.toInt} is before start {n.toInt}")
  listRangeFromItems values start «end»

/-- `prim_take`. -/
def take (count list : RootedPtr) : Scope Code RootedPtr := do
  let n ← rootAsU64 count
  let values ← rootAsList list
  listRangeFromItems values 0 (min values.length n.toNat)

/-- `prim_skip`. -/
def skip (count list : RootedPtr) : Scope Code RootedPtr := do
  let n ← rootAsU64 count
  let values ← rootAsList list
  listRangeFromItems values (min values.length n.toNat) values.length

end ListNatives

end RexLang
