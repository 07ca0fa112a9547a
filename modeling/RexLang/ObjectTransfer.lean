import Mathlib.Logic.Relation
import RexLang.RecordedSizes

/-!
# Transfers between stores

An object is transferred with everything that it names, and every tree object is built
again in the destination: its hash stays the same only if everything that it records is
true.
-/

namespace RexLang

/-! ## The operations -/

inductive TransferError (Hash : Type) where
  | transferBlob (hash : Hash) (error : StoreError Hash)
  | transferTree (hash : Hash) (error : StoreError Hash)
  | storeTree (hash : Hash) (error : StoreError Hash)
  | changedIdentity (hash transferred : Hash)
  | inspectOutput (hash : Hash) (error : StoreError Hash)
  | treeSizeOverflow
  | resultSizeOverflow
  | undeclaredSlots
  | multipleObjects
  | notOneTree
  | outputLimit
  | fuel

/-- `map_err` for a result of the store. -/
def withError {Hash Result : Type} (wrap : StoreError Hash → TransferError Hash) :
    Except (StoreError Hash) Result → Except (TransferError Hash) Result
  | .ok result => .ok result
  | .error error => .error (wrap error)

theorem withError_eq_ok {Hash Result : Type} {wrap : StoreError Hash → TransferError Hash}
    {outcome : Except (StoreError Hash) Result} {result : Result} :
    withError wrap outcome = .ok result ↔ outcome = .ok result := by
  cases outcome <;> simp [withError]

inductive OutputKind where
  | single
  | numbered
  | directory
  | tree
deriving DecidableEq

/-- The kind of the objects of an output. -/
def OutputKind.entryKind : OutputKind → EntryKind
  | .tree => .tree
  | .single | .numbered | .directory => .blob

section Operations

variable {Hash : Type} [DecidableEq Hash] (format : StorageFormat Hash) (checks : Bool)
  (source : Store)

/-- What is made again of an entry. -/
def creationOf (entry : String × Entry Hash) : String × EntryKind × Hash :=
  (entry.1, entry.2.kind, entry.2.hash)

/-- The test at the end of `transfer_object`. -/
def keepIdentity (hash : Hash) (transferred : Hash × Store) :
    Except (TransferError Hash) Store :=
  if transferred.1 = hash then .ok transferred.2
  else .error (.changedIdentity hash transferred.1)

/-- `transfer_object`. -/
def transferObject : Nat → Store → EntryKind → Hash → Except (TransferError Hash) Store
  | 0, _, _, _ => .error .fuel
  | _ + 1, destination, .blob, hash => do
      let bytes ← withError (.transferBlob hash) (source.get format hash)
      keepIdentity hash (destination.put format bytes)
  | fuel + 1, destination, .tree, hash => do
      let tree ← withError (.transferTree hash) (source.getTree format hash)
      let destination ← tree.entries.foldlM (fun destination entry =>
        transferObject fuel destination entry.2.kind entry.2.hash) destination
      let transferred ← withError (.storeTree hash)
        (destination.putTree format checks (collectMap (tree.entries.map creationOf)))
      keepIdentity hash transferred

/-- `checked_add` with the error that takes the place of a sum that is too large. -/
def checkedAdd (error : TransferError Hash) (total size : Nat) : Except (TransferError Hash) Nat :=
  if total + size < 2 ^ 64 then .ok (total + size) else .error error

/-- `remote_object_size`. -/
def remoteObjectSize : EntryKind → Hash → Except (TransferError Hash) Nat
  | .blob, hash => withError (.inspectOutput hash) (source.size format hash)
  | .tree, hash => do
      let size ← withError (.inspectOutput hash) (source.size format hash)
      let tree ← withError (.inspectOutput hash) (source.getTree format hash)
      tree.sizes.foldlM (checkedAdd .treeSizeOverflow) size

/-- The loop of `execute` over the objects of one output, with the bytes so far. -/
def transferOutput (limit fuel : Nat) (kind : EntryKind) (state : Nat × Store) (hash : Hash) :
    Except (TransferError Hash) (Nat × Store) := do
  let size ← remoteObjectSize format source kind hash
  let outputBytes ← checkedAdd .resultSizeOverflow state.1 size
  if limit < outputBytes then throw .outputLimit
  else
    let destination ← transferObject format checks source fuel state.2 kind hash
    return (outputBytes, destination)

/-- The loop of `execute` over the outputs. -/
def transferOutputs (limit fuel : Nat) (declared : List OutputKind) (state : Nat × Store)
    (output : Nat × List Hash) : Except (TransferError Hash) (Nat × Store) :=
  match declared[output.1]? with
  | none => .error .undeclaredSlots
  | some kind =>
      if kind = .single ∧ 1 < output.2.length then .error .multipleObjects
      else if kind = .tree ∧ output.2.length ≠ 1 then .error .notOneTree
      else output.2.foldlM (transferOutput format checks source limit fuel kind.entryKind) state

/-- The part of `execute` that brings the outputs of a job into the destination. -/
def collectOutputs (limit fuel : Nat) (declared : List OutputKind)
    (outputs : List (Nat × List Hash)) (destination : Store) :
    Except (TransferError Hash) (Nat × Store) :=
  if outputs.length ≠ declared.length ∨ ∃ output ∈ outputs, declared.length ≤ output.1 then
    .error .undeclaredSlots
  else outputs.foldlM (transferOutputs format checks source limit fuel declared) (0, destination)

end Operations

end RexLang
