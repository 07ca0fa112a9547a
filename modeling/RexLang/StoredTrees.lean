import Mathlib.Algebra.Order.BigOperators.Group.List
import Mathlib.Data.Set.Function
import RexLang.DirectoryTrees
import RexLang.RecordedSizes

/-!
# Stored trees

The object that the import of a path writes, as a function of what is at the path, and
the import as the steps that write it.
-/

namespace RexLang

/-! ## Maps from listings -/

section Listings

variable {Value Other : Type}

theorem insert_map (change : Value → Other) (map : SymbolMap Value) (name : String) (value : Value) :
    SymbolMap.insert name (change value) (map.map fun entry => (entry.1, change entry.2)) =
      (map.insert name value).map fun entry => (entry.1, change entry.2) := by
  induction map with
  | nil => rfl
  | cons entry map hypothesis =>
      obtain ⟨other, old⟩ := entry
      rw [List.map_cons, SymbolMap.insert, SymbolMap.insert]
      split_ifs
      · rfl
      · rfl
      · rw [List.map_cons, hypothesis]

theorem collectMap_map (change : Value → Other) (entries : List (String × Value)) :
    collectMap (entries.map fun entry => (entry.1, change entry.2)) =
      (collectMap entries).map fun entry => (entry.1, change entry.2) := by
  suffices each : ∀ map : SymbolMap Value,
      (entries.map fun entry => (entry.1, change entry.2)).foldl
          (fun (map : SymbolMap Other) entry => map.insert entry.1 entry.2)
          (map.map fun entry => (entry.1, change entry.2)) =
        (entries.foldl (fun map entry => map.insert entry.1 entry.2) map).map
          fun entry => (entry.1, change entry.2) from each []
  intro map
  induction entries generalizing map with
  | nil => rfl
  | cons entry entries hypothesis =>
      simp only [List.map_cons, List.foldl_cons, insert_map, hypothesis]

end Listings

/-! ## The object of a path -/

section Objects

variable {Hash : Type} (format : StorageFormat Hash)

namespace FileNode

def kind : FileNode → EntryKind
  | .directory _ => .tree
  | _ => .blob

mutual

/-- The object of a path, and its size with everything in it. -/
def stored : FileNode → Bytes × Nat
  | .file data => (data, data.length)
  | .directory entries =>
      let tree := TreeObject.collect (storedEntries entries)
      (format.encode tree, tree.recordedSize (format.encode tree))
  | .special => ([], 0)

def storedEntries : List (String × FileNode) → List (String × Entry Hash)
  | [] => []
  | (name, node) :: entries =>
      (name, ⟨format.hash (stored node).1, node.kind, (stored node).2⟩) :: storedEntries entries

end

/-- The entry for what is at a path. -/
def entry (node : FileNode) : Entry Hash :=
  ⟨format.hash (node.stored format).1, node.kind, (node.stored format).2⟩

/-- The tree object of a directory. -/
def treeObject (entries : List (String × FileNode)) : TreeObject Hash :=
  .collect (entries.map fun named => (named.1, named.2.entry format))

mutual

/-- All objects that the import of a path writes. -/
def objects : FileNode → List Bytes
  | .file data => [data]
  | .directory entries =>
      format.encode (treeObject format entries) :: objectsOfEntries entries
  | .special => []

def objectsOfEntries : List (String × FileNode) → List Bytes
  | [] => []
  | (_, node) :: entries => objects node ++ objectsOfEntries entries

end

variable {format}

theorem storedEntries_eq_map (entries : List (String × FileNode)) :
    storedEntries format entries = entries.map fun named => (named.1, named.2.entry format) := by
  induction entries with
  | nil => rfl
  | cons named entries hypothesis => rw [storedEntries, hypothesis, List.map_cons, entry]

@[simp]
theorem stored_directory (entries : List (String × FileNode)) :
    (directory entries).stored format = (format.encode (treeObject format entries),
      (treeObject format entries).recordedSize (format.encode (treeObject format entries))) := by
  rw [stored, storedEntries_eq_map, treeObject]

theorem mem_objectsOfEntries {entries : List (String × FileNode)} {data : Bytes} :
    data ∈ objectsOfEntries format entries ↔ ∃ named ∈ entries, data ∈ named.2.objects format := by
  induction entries with
  | nil => simp [objectsOfEntries]
  | cons named entries hypothesis => simp [objectsOfEntries, hypothesis]

theorem entries_treeObject (entries : List (String × FileNode)) :
    (treeObject format entries).entries =
      (collectMap entries).map fun named => (named.1, named.2.entry format) :=
  collectMap_map _ entries

theorem stored_mem_objects {node : FileNode} (wellFormed : node.WellFormed) :
    (node.stored format).1 ∈ node.objects format := by
  cases wellFormed with
  | file data => simp [stored, objects]
  | directory distinct names children => simp [objects]

end FileNode

end Objects

/-! ## Import -/

section Import

variable {Hash : Type} [DecidableEq Hash] {format : StorageFormat Hash} {checks : Bool}

namespace FileNode

/-- The later store has the objects of the path besides those of the earlier one. -/
def Imports (objects : List Bytes) (store later : Store) : Prop :=
  ∃ written, later = { store with puts := written ++ store.puts } ∧
    ∀ data, data ∈ written ↔ data ∈ objects

theorem Imports.trans {first second : List Bytes} {store middle later : Store}
    (before : Imports first store middle) (after : Imports second middle later) :
    Imports (first ++ second) store later := by
  obtain ⟨written, rfl, members⟩ := before
  obtain ⟨more, rfl, moreMembers⟩ := after
  refine ⟨more ++ written, by simp, fun data => ?_⟩
  rw [List.mem_append, List.mem_append, members, moreMembers, or_comm]

theorem Imports.mem_iff {objects : List Bytes} {store later : Store}
    (imports : Imports objects store later) {data : Bytes} :
    data ∈ later.puts ↔ data ∈ objects ∨ data ∈ store.puts := by
  obtain ⟨written, rfl, members⟩ := imports
  rw [List.mem_append, members]

omit [DecidableEq Hash] in
theorem size_le_of_mem {entries : List (String × FileNode)} {named : String × FileNode}
    (distinct : (entries.map Prod.fst).Nodup) (member : named ∈ entries) :
    (named.2.stored format).2 ≤ ((directory entries).stored format).2 := by
  have inside : (named.2.stored format).2 ∈ (treeObject format entries).sizes := by
    rw [TreeObject.sizes, entries_treeObject]
    exact List.mem_map.mpr ⟨_, List.mem_map_of_mem ((collectMap_perm distinct).mem_iff.mpr member), rfl⟩
  have atMost := List.le_sum_of_mem inside
  rw [stored_directory, TreeObject.recordedSize]
  omega

/-- The object of a path has its size in every store with its objects. -/
theorem hasSize_entry (inverse : ∀ tree, format.decode (format.encode tree) = some tree)
    {store : Store} (noCollision : Store.NoCollision format store) {node : FileNode}
    (wellFormed : node.WellFormed) (inside : (node.stored format).1 ∈ store.puts) :
    store.HasSize format (node.entry format).kind (node.entry format).hash (node.entry format).size := by
  have got := noCollision.get inside
  cases wellFormed with
  | file data => exact .blob got
  | directory distinct names children =>
      rw [entry, stored_directory]
      rw [stored_directory] at got
      exact .tree got (inverse _)

theorem mapM_eq_ok {First Second Error : Type} {visit : First → Except Error Second}
    {origin : Second → First} {targets : List Second}
    (each : ∀ target ∈ targets, visit (origin target) = .ok target) :
    (targets.map origin).mapM visit = .ok targets := by
  rw [mapM_eq_ok_iff, List.forall₂_map_left_iff, List.forall₂_same]
  exact each

/-- What `put_tree` writes for the listing of a directory. -/
theorem putTree_entries (inverse : ∀ tree, format.decode (format.encode tree) = some tree)
    {store : Store} (noCollision : Store.NoCollision format store)
    {entries : List (String × FileNode)} (distinct : (entries.map Prod.fst).Nodup)
    (children : ∀ named ∈ entries, named.2.WellFormed)
    (inside : ∀ named ∈ entries, (named.2.stored format).1 ∈ store.puts)
    (fits : ∀ named ∈ entries, (named.2.stored format).2 < 2 ^ 64) :
    store.putTree format checks (collectMap (entries.map fun named =>
        (named.1, (named.2.kind, format.hash (named.2.stored format).1)))) =
      .ok (store.put format (format.encode (treeObject format entries))) := by
  have isCreation : collectMap (entries.map fun named =>
      (named.1, (named.2.kind, format.hash (named.2.stored format).1))) =
        (treeObject format entries).entries.map
          fun named => (named.1, named.2.kind, named.2.hash) := by
    rw [entries_treeObject, List.map_map]
    exact collectMap_map (fun node => (node.kind, format.hash (node.stored format).1)) entries
  have each : ∀ target ∈ (treeObject format entries).entries,
      store.createEntry format checks (target.1, target.2.kind, target.2.hash) = .ok target := by
    intro target member
    rw [entries_treeObject] at member
    obtain ⟨named, isNamed, rfl⟩ := List.mem_map.mp member
    have isEntry := (collectMap_perm distinct).mem_iff.mp isNamed
    have hasSize := hasSize_entry inverse noCollision (children named isEntry) (inside named isEntry)
    refine bind_eq_ok.mpr ⟨_, Store.entrySize_of_hasSize hasSize fun isTree overflows => ?_, rfl⟩
    obtain ⟨data, tree, got, decodes, -, large⟩ := overflows
    rw [show (named.2.entry format).kind = .tree from isTree] at hasSize
    have same := hasSize.unique (.tree got decodes)
    have small := fits named isEntry
    rw [← same] at large
    exact absurd large (Nat.not_le_of_lt small)
  rw [isCreation, Store.putTree]
  refine bind_eq_ok.mpr ⟨_, mapM_eq_ok each, ?_⟩
  rw [TreeObject.collect]
  simp only [collectMap_of_ordered (treeObject format entries).ordered]
  rfl

/-- The import of a path whose sizes fit in a `u64` succeeds, and writes its objects. -/
theorem exists_importPath (inverse : ∀ tree, format.decode (format.encode tree) = some tree)
    {used : Set Bytes} (noCollision : Set.InjOn format.hash used) {node : FileNode}
    (wellFormed : node.WellFormed) (fits : (node.stored format).2 < 2 ^ 64) {store : Store}
    (storeUsed : ∀ data ∈ store.puts, data ∈ used)
    (objectsUsed : ∀ data ∈ node.objects format, data ∈ used) :
    ∃ later, importPath format checks node store =
        .ok ((node.kind, format.hash (node.stored format).1), later) ∧
      Imports (node.objects format) store later := by
  induction node using inductionOn generalizing store with
  | file data => exact ⟨_, rfl, [data], rfl, fun _ => Iff.rfl⟩
  | special => cases wellFormed
  | directory entries hypothesis =>
      cases wellFormed with
      | directory distinct names children =>
          have entriesUsed : ∀ named ∈ entries, ∀ data ∈ named.2.objects format, data ∈ used := by
            intro named member data inside
            exact objectsUsed data (.tail _ (mem_objectsOfEntries.2 ⟨named, member, inside⟩))
          have smaller : ∀ named ∈ entries, (named.2.stored format).2 < 2 ^ 64 :=
            fun named member => (size_le_of_mem distinct member).trans_lt fits
          have each : ∀ rest : List (String × FileNode), (∀ named ∈ rest, named ∈ entries) →
              ∀ created store, (∀ data ∈ store.puts, data ∈ used) →
                ∃ later, importEntries format checks rest created store =
                  .ok ((rest.map fun named =>
                      (named.1, (named.2.kind, format.hash (named.2.stored format).1))).foldl
                    (fun map entry => map.insert entry.1 entry.2) created, later) ∧
                  Imports (objectsOfEntries format rest) store later := by
            intro rest among created store storeUsed
            induction rest generalizing created store with
            | nil => exact ⟨store, rfl, [], rfl, fun _ => Iff.rfl⟩
            | cons named rest restHypothesis =>
                rw [List.forall_mem_cons] at among
                obtain ⟨middle, runs, imports⟩ := hypothesis named among.1 (children named among.1)
                  (smaller named among.1) storeUsed (entriesUsed named among.1)
                have middleUsed : ∀ data ∈ middle.puts, data ∈ used := by
                  intro data member
                  obtain inside | before := imports.mem_iff.mp member
                  · exact entriesUsed named among.1 data inside
                  · exact storeUsed data before
                obtain ⟨later, runsRest, importsRest⟩ :=
                  restHypothesis among.2 (created.insert named.1
                    (named.2.kind, format.hash (named.2.stored format).1)) middle middleUsed
                refine ⟨later, ?_, imports.trans importsRest⟩
                obtain ⟨name, node⟩ := named
                rw [importEntries]
                exact bind_eq_ok.mpr ⟨_, runs, runsRest⟩
          obtain ⟨middle, runs, imports⟩ := each entries (fun _ member => member) [] store storeUsed
          have middleUsed : ∀ data ∈ middle.puts, data ∈ used := by
            intro data member
            obtain inside | before := imports.mem_iff.mp member
            · exact objectsUsed data (.tail _ inside)
            · exact storeUsed data before
          have inside : ∀ named ∈ entries, (named.2.stored format).1 ∈ middle.puts := by
            intro named member
            exact imports.mem_iff.mpr (.inl (mem_objectsOfEntries.2
              ⟨named, member, stored_mem_objects (children named member)⟩))
          have stored := @putTree_entries Hash _ format checks inverse middle
            (Set.InjOn.mono middleUsed noCollision) entries distinct children inside smaller
          refine ⟨(middle.put format (format.encode (treeObject format entries))).2, ?_, ?_⟩
          · rw [importPath]
            refine bind_eq_ok.mpr ⟨_, runs, ?_⟩
            simp only [collectMap] at stored
            simp only [stored, stored_directory]
            rfl
          · obtain ⟨written, rfl, members⟩ := imports
            refine ⟨format.encode (treeObject format entries) :: written, rfl, fun data => ?_⟩
            rw [objects, List.mem_cons, List.mem_cons, members]

end FileNode

end Import

end RexLang
