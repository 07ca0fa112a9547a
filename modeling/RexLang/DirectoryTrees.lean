import RexLang.ContentStore

/-!
# Directory trees

What the file system has at a path, with the operations that bring it into the store and
out of it.
-/

namespace RexLang

/-- What is at a path: a file, a directory with its listing, or a symbolic link or
another special file. -/
inductive FileNode where
  | file (data : Bytes)
  | directory (entries : List (String × FileNode))
  | special

namespace FileNode

/-- Induction over the entries of directories. -/
theorem inductionOn {motive : FileNode → Prop} (node : FileNode)
    (file : ∀ data, motive (.file data))
    (directory : ∀ entries, (∀ entry ∈ entries, motive entry.2) → motive (.directory entries))
    (special : motive .special) : motive node :=
  @FileNode.rec motive (fun entries => ∀ entry ∈ entries, motive entry.2)
    (fun entry => motive entry.2) file directory special (by simp)
    (fun _ _ first rest => List.forall_mem_cons.mpr ⟨first, rest⟩) (fun _ _ node => node) node

/-- A name of a directory entry. -/
def IsName (name : String) : Prop :=
  name ≠ "" ∧ name ≠ "." ∧ name ≠ ".." ∧ '/' ∉ name.toList

/-- Regular files and directories, with different names in each directory. -/
inductive WellFormed : FileNode → Prop where
  | file (data : Bytes) : WellFormed (.file data)
  | directory {entries} (distinct : (entries.map Prod.fst).Nodup)
      (names : ∀ entry ∈ entries, IsName entry.1)
      (children : ∀ entry ∈ entries, WellFormed entry.2) : WellFormed (.directory entries)

/-- The same files under the same names, whatever the order of the listings. -/
inductive SameTree : FileNode → FileNode → Prop where
  | file (data : Bytes) : SameTree (.file data) (.file data)
  | directory {first second} (names : ∀ name, name ∈ first.map Prod.fst ↔ name ∈ second.map Prod.fst)
      (children : ∀ name node other, (name, node) ∈ first → (name, other) ∈ second →
        SameTree node other) : SameTree (.directory first) (.directory second)

mutual

/-- The names of all entries. -/
def names : FileNode → List String
  | .file _ => []
  | .directory entries => namesOfEntries entries
  | .special => []

def namesOfEntries : List (String × FileNode) → List String
  | [] => []
  | (name, node) :: entries => name :: names node ++ namesOfEntries entries

end

end FileNode

/-! ## Import -/

inductive ImportError (Hash : Type) where
  | nonFile
  | storage (error : StoreError Hash)

section Operations

variable {Hash : Type} [DecidableEq Hash] (format : StorageFormat Hash)

mutual

/-- `import_path`. -/
def importPath (checks : Bool) : FileNode → Store →
    Except (ImportError Hash) ((EntryKind × Hash) × Store)
  | .file data, store => .ok ((.blob, (store.put format data).1), (store.put format data).2)
  | .directory entries, store => do
      let imported ← importEntries checks entries [] store
      match imported.2.putTree format checks imported.1 with
      | .error error => throw (.storage error)
      | .ok (hash, later) => return ((.tree, hash), later)
  | .special, _ => .error .nonFile

/-- The loop of `import_path` over the listing of a directory. -/
def importEntries (checks : Bool) : List (String × FileNode) → SymbolMap (EntryKind × Hash) →
    Store → Except (ImportError Hash) (SymbolMap (EntryKind × Hash) × Store)
  | [], created, store => .ok (created, store)
  | (name, node) :: entries, created, store => do
      let imported ← importPath checks node store
      importEntries checks entries (created.insert name imported.1) imported.2

end

/-! ## Export -/

inductive ExportError (Hash : Type) where
  | storage (error : StoreError Hash)
  | invalidName (name : String)
  | notADirectory
  | isADirectory (name : String)
  | fuel

/-- `create_dir_all`: the listing of the directory. -/
def createDirAll : Option FileNode → Except (ExportError Hash) (List (String × FileNode))
  | none => .ok []
  | some (.directory entries) => .ok entries
  | some _ => .error .notADirectory

/-- `validate_tree_name`. -/
def validTreeName (name : String) : Bool :=
  !(name == "" || name == "." || name == ".." || name.toList.any fun char => char == '/' || char == '\\')

/-- The listing after a path was written. -/
def setEntry (name : String) (node : FileNode) : List (String × FileNode) → List (String × FileNode)
  | [] => [(name, node)]
  | (other, old) :: entries =>
      if other = name then (name, node) :: entries else (other, old) :: setEntry name node entries

/-- `std::fs::write`. -/
def writeFile (name : String) (data : Bytes) (entries : List (String × FileNode)) :
    Except (ExportError Hash) (List (String × FileNode)) :=
  match entries.lookup name with
  | some (.directory _) => .error (.isADirectory name)
  | _ => .ok (setEntry name (.file data) entries)

/-- One round of the loop of `export_tree`; `recurse` exports a tree to what is at a
path. -/
def exportEntry (recurse : Hash → Option FileNode → Except (ExportError Hash) FileNode)
    (store : Store) (entries : List (String × FileNode)) (entry : String × Entry Hash) :
    Except (ExportError Hash) (List (String × FileNode)) :=
  if validTreeName entry.1 then
    match entry.2.kind with
    | .blob =>
        match store.get format entry.2.hash with
        | .error error => .error (.storage error)
        | .ok data => writeFile entry.1 data entries
    | .tree => do
        let node ← recurse entry.2.hash (entries.lookup entry.1)
        return setEntry entry.1 node entries
  else .error (.invalidName entry.1)

/-- `export_tree`: what is at the destination afterwards. -/
def exportTree : Nat → Store → Hash → Option FileNode → Except (ExportError Hash) FileNode
  | 0, _, _, _ => .error .fuel
  | fuel + 1, store, hash, destination => do
      let entries ← createDirAll destination
      match store.getTree format hash with
      | .error error => throw (.storage error)
      | .ok tree =>
          let entries ← tree.entries.foldlM (exportEntry format (exportTree fuel store) store) entries
          return .directory entries

end Operations

end RexLang
