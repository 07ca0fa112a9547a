import RexLang.DirectoryTrees

/-!
# Exports over what is there

The export of a tree to a destination that has files already, and no link: the tree is
below the destination then, whatever the store holds, and nothing else has changed.
-/

namespace RexLang

variable {Hash : Type} [DecidableEq Hash] {format : StorageFormat Hash} {store : Store}

/-- Files and directories alone. -/
inductive FileNode.Regular : FileNode → Prop where
  | file (data : Bytes) : Regular (.file data)
  | directory {entries : List (String × FileNode)}
      (children : ∀ entry ∈ entries, Regular entry.2) : Regular (.directory entries)

variable (format store) in
/-- What is at a path is the object, over what was there before: a file has the contents
that the hash is of, and a directory has the entries of the tree under names that do not
leave it, and besides them what it had. -/
inductive Exported : EntryKind → Hash → Option FileNode → FileNode → Prop where
  | blob {data : Bytes} {before : Option FileNode} (isStored : data ∈ store.puts)
      (isFile : ∀ node, before = some node → ∃ old, node = .file old) :
      Exported .blob (format.hash data) before (.file data)
  | tree {hash : Hash} {tree : TreeObject Hash} {before : Option FileNode}
      {entries after : List (String × FileNode)} (isTree : store.getTree format hash = .ok tree)
      (isDirectory : before = none ∧ entries = [] ∨ before = some (.directory entries))
      (valid : ∀ entry ∈ tree.entries, validTreeName entry.1)
      (others : ∀ name, name ∉ tree.entries.map Prod.fst →
        after.lookup name = entries.lookup name)
      (present : ∀ entry ∈ tree.entries, (after.lookup entry.1).isSome)
      (exported : ∀ entry ∈ tree.entries, ∀ node, after.lookup entry.1 = some node →
        Exported entry.2.kind entry.2.hash (entries.lookup entry.1) node) :
      Exported .tree hash before (.directory after)

theorem lookup_setEntry (name other : String) (node : FileNode)
    (entries : List (String × FileNode)) :
    (setEntry name node entries).lookup other =
      if other = name then some node else entries.lookup other := by
  induction entries with
  | nil => rw [setEntry, lookup_cons_eq_ite]
  | cons entry entries hypothesis =>
      obtain ⟨first, old⟩ := entry
      rw [setEntry]
      split_ifs with isFirst isName isName
      all_goals simp only [lookup_cons_eq_ite, hypothesis]
      all_goals split_ifs <;> simp_all

section Entries

variable {recurse : Hash → Option FileNode → Except (ExportError Hash) FileNode}
  (sound : ∀ hash before node, (∀ old, before = some old → old.Regular) →
    recurse hash before = .ok node → Exported format store .tree hash before node)

include sound

theorem exists_of_exportEntry {entries middle : List (String × FileNode)}
    {entry : String × Entry Hash}
    (regular : ∀ node, entries.lookup entry.1 = some node → node.Regular)
    (exports : exportEntry format recurse store entries entry = .ok middle) :
    validTreeName entry.1 ∧ ∃ node, middle = setEntry entry.1 node entries ∧
      Exported format store entry.2.kind entry.2.hash (entries.lookup entry.1) node := by
  rw [exportEntry] at exports
  split_ifs at exports with valid
  refine ⟨valid, ?_⟩
  cases isKind : entry.2.kind with
  | blob =>
      rw [isKind] at exports
      cases got : store.get format entry.2.hash with
      | error error =>
          rw [got] at exports
          cases exports
      | ok data =>
          simp only [got, writeFile] at exports
          obtain ⟨isStored, isHash⟩ := Store.of_get_eq_ok got
          rw [← isHash]
          split at exports
          · cases exports
          · rename_i noDirectory
            refine ⟨_, (Except.ok.inj exports).symm, .blob isStored fun node found => ?_⟩
            cases regular node found with
            | file old => exact ⟨old, rfl⟩
            | directory _ => exact absurd found (noDirectory _)
  | tree =>
      rw [isKind] at exports
      obtain ⟨node, recursed, same⟩ := bind_eq_ok.mp exports
      exact ⟨node, (Except.ok.inj same).symm, sound _ _ _ regular recursed⟩

/-- The loop over the entries; each of them is exported to a path of its own. -/
theorem exported_of_foldlM {rest : List (String × Entry Hash)}
    (distinct : (rest.map Prod.fst).Nodup) {entries after : List (String × FileNode)}
    (regular : ∀ entry ∈ rest, ∀ node, entries.lookup entry.1 = some node → node.Regular)
    (exports : rest.foldlM (exportEntry format recurse store) entries = .ok after) :
    (∀ name, name ∉ rest.map Prod.fst → after.lookup name = entries.lookup name) ∧
      ∀ entry ∈ rest, validTreeName entry.1 ∧ ∃ node, after.lookup entry.1 = some node ∧
        Exported format store entry.2.kind entry.2.hash (entries.lookup entry.1) node := by
  induction rest generalizing entries with
  | nil =>
      cases exports
      exact ⟨fun _ _ => rfl, fun _ member => absurd member List.not_mem_nil⟩
  | cons first rest hypothesis =>
      rw [List.map_cons, List.nodup_cons] at distinct
      rw [List.forall_mem_cons] at regular
      rw [List.foldlM_cons] at exports
      have different : ∀ entry ∈ rest, entry.1 ≠ first.1 := fun entry member same =>
        distinct.1 (same ▸ List.mem_map_of_mem member)
      obtain ⟨middle, firstExports, restExports⟩ := bind_eq_ok.mp exports
      obtain ⟨valid, node, rfl, isExported⟩ := exists_of_exportEntry sound regular.1 firstExports
      obtain ⟨others, each⟩ := hypothesis distinct.2 (fun entry member node found =>
        regular.2 entry member node
          (by rwa [lookup_setEntry, if_neg (different entry member)] at found)) restExports
      refine ⟨fun name isOther => ?_, List.forall_mem_cons.mpr ⟨⟨valid, node, ?_, isExported⟩, ?_⟩⟩
      · rw [List.map_cons, List.mem_cons, not_or] at isOther
        rw [others name isOther.2, lookup_setEntry, if_neg isOther.1]
      · rw [others _ distinct.1, lookup_setEntry, if_pos rfl]
      · intro entry member
        have exported := each entry member
        rwa [lookup_setEntry, if_neg (different entry member)] at exported

end Entries

/-- Whatever the store holds, an export that succeeds leaves the tree below the
destination, and nothing else changed. -/
theorem exportTree_exported {fuel : Nat} {hash : Hash} {before : Option FileNode} {node : FileNode}
    (regular : ∀ old, before = some old → old.Regular)
    (exports : exportTree format fuel store hash before = .ok node) :
    Exported format store .tree hash before node := by
  induction fuel generalizing hash before node with
  | zero => cases exports
  | succ fuel hypothesis =>
      obtain ⟨entries, created, exports⟩ := bind_eq_ok.mp exports
      have isDirectory : before = none ∧ entries = [] ∨ before = some (.directory entries) := by
        unfold createDirAll at created
        split at created
        · exact .inl ⟨rfl, (Except.ok.inj created).symm⟩
        · exact .inr (congrArg (some ∘ FileNode.directory) (Except.ok.inj created))
        · cases created
      have children : ∀ name old, (name, old) ∈ entries → old.Regular := by
        intro name old member
        obtain ⟨rfl, rfl⟩ | rfl := isDirectory
        · exact absurd member List.not_mem_nil
        · cases regular _ rfl with
          | directory children => exact children _ member
      cases got : store.getTree format hash with
      | error error =>
          rw [got] at exports
          cases exports
      | ok tree =>
          simp only [got] at exports
          obtain ⟨after, folds, same⟩ := bind_eq_ok.mp exports
          cases same
          have distinct : (tree.entries.map Prod.fst).Nodup := tree.ordered.imp fun less => less.ne
          obtain ⟨others, each⟩ := exported_of_foldlM (fun _ _ _ => hypothesis) distinct
            (fun entry _ old found => children _ old (mem_of_lookup found)) folds
          refine .tree got isDirectory (fun entry member => (each entry member).1) others
            (fun entry member => ?_) fun entry member node isNode => ?_
          · obtain ⟨-, node, isNode, -⟩ := each entry member
            exact Option.isSome_iff_exists.mpr ⟨node, isNode⟩
          · obtain ⟨-, other, isOther, exported⟩ := each entry member
            rwa [Option.some.inj (isNode.symm.trans isOther)]

/-- Every object is its own hash, and one of them is a tree with a file. -/
def oneTree : StorageFormat Bytes where
  hash := id
  encode _ := [1]
  decode data := if data = [1] then some (.collect [("a", ⟨[2], .blob, 1⟩)]) else none

theorem exportTree_exported_oneTree :
    Exported oneTree ⟨.memory, [[1], [2]]⟩ .tree [1]
      (some (.directory [("a", .file [3]), ("b", .file [])]))
      (.directory [("a", .file [2]), ("b", .file [])]) := by
  refine exportTree_exported (fun old isOld => ?_)
    (show exportTree oneTree 1 _ _ _ = .ok _ from rfl)
  cases isOld
  refine .directory fun entry member => ?_
  obtain rfl | rfl := List.mem_pair.mp member <;> exact .file _

end RexLang
