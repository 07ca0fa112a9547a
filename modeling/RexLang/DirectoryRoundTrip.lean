import RexLang.StoredTrees
import RexLang.UnaryFormat

/-!
# Directories through the store

The object of a directory says which files are in it, and the export of a tree makes
them again, unless a name has a backslash.
-/

namespace RexLang

open FileNode

section Identity

variable {Hash : Type} {format : StorageFormat Hash}

namespace FileNode

theorem mem_treeObject {entries : List (String × FileNode)} (distinct : (entries.map Prod.fst).Nodup)
    {name : String} {entry : Entry Hash} :
    (name, entry) ∈ (treeObject format entries).entries ↔
      ∃ node, (name, node) ∈ entries ∧ node.entry format = entry := by
  rw [entries_treeObject, List.mem_map]
  constructor
  · rintro ⟨⟨_, node⟩, member, same⟩
    cases same
    exact ⟨node, (collectMap_perm distinct).mem_iff.mp member, rfl⟩
  · rintro ⟨node, member, rfl⟩
    exact ⟨(name, node), (collectMap_perm distinct).mem_iff.mpr member, rfl⟩

theorem mem_names_treeObject {entries : List (String × FileNode)}
    (distinct : (entries.map Prod.fst).Nodup) {name : String} :
    name ∈ (treeObject format entries).entries.map Prod.fst ↔ name ∈ entries.map Prod.fst := by
  rw [List.mem_map, List.mem_map]
  constructor
  · rintro ⟨⟨_, entry⟩, member, rfl⟩
    obtain ⟨node, isEntry, -⟩ := (mem_treeObject distinct).mp member
    exact ⟨_, isEntry, rfl⟩
  · rintro ⟨⟨_, node⟩, member, rfl⟩
    exact ⟨_, (@mem_treeObject Hash format entries distinct _ _).mpr ⟨node, member, rfl⟩, rfl⟩

theorem treeObject_eq {first second : List (String × FileNode)}
    (distinct : (first.map Prod.fst).Nodup) (distinctSecond : (second.map Prod.fst).Nodup)
    (names : ∀ name, name ∈ first.map Prod.fst ↔ name ∈ second.map Prod.fst)
    (children : ∀ name node other, (name, node) ∈ first → (name, other) ∈ second →
      node.entry format = other.entry format) :
    treeObject format first = treeObject format second := by
  have sameEntries : (treeObject format first).entries = (treeObject format second).entries := by
    refine eq_of_mem_iff (treeObject format first).ordered (treeObject format second).ordered ?_
    rintro ⟨name, entry⟩
    rw [mem_treeObject distinct, mem_treeObject distinctSecond]
    constructor
    · rintro ⟨node, member, rfl⟩
      obtain ⟨⟨_, other⟩, isOther, rfl⟩ :=
        List.mem_map.mp ((names name).mp (List.mem_map.mpr ⟨_, member, rfl⟩))
      exact ⟨other, isOther, (children _ node other member isOther).symm⟩
    · rintro ⟨other, member, rfl⟩
      obtain ⟨⟨_, node⟩, isNode, rfl⟩ :=
        List.mem_map.mp ((names name).mpr (List.mem_map.mpr ⟨_, member, rfl⟩))
      exact ⟨node, isNode, children _ node other isNode member⟩
  generalize treeObject format first = one at *
  generalize treeObject format second = two at *
  cases one
  cases two
  cases sameEntries
  rfl

/-- The same files have the same object. -/
theorem SameTree.stored_eq {first second : FileNode} (wellFormed : first.WellFormed)
    (wellFormedSecond : second.WellFormed) (same : first.SameTree second) :
    first.kind = second.kind ∧ first.stored format = second.stored format := by
  induction same with
  | file data => exact ⟨rfl, rfl⟩
  | @directory first second names _ hypothesis =>
      cases wellFormed with
      | directory distinct _ wellFormed =>
          cases wellFormedSecond with
          | directory distinctSecond _ wellFormedSecond =>
              have sameObject : treeObject format first = treeObject format second := by
                refine treeObject_eq distinct distinctSecond names fun name node other isNode isOther => ?_
                obtain ⟨sameKind, sameStored⟩ := hypothesis name node other isNode isOther
                  (wellFormed _ isNode) (wellFormedSecond _ isOther)
                rw [FileNode.entry, FileNode.entry, sameKind, sameStored]
              rw [stored_directory, stored_directory, sameObject]
              exact ⟨rfl, rfl⟩

/-- Paths of one kind whose objects are equal have the same files. -/
theorem sameTree_of_object (inverse : ∀ tree, format.decode (format.encode tree) = some tree)
    {used : Set Bytes} (noCollision : Set.InjOn format.hash used) {first second : FileNode}
    (wellFormed : first.WellFormed) (wellFormedSecond : second.WellFormed)
    (objectsUsed : ∀ data ∈ first.objects format, data ∈ used)
    (objectsUsedSecond : ∀ data ∈ second.objects format, data ∈ used)
    (sameKind : first.kind = second.kind)
    (sameObject : (first.stored format).1 = (second.stored format).1) : first.SameTree second := by
  induction first using inductionOn generalizing second with
  | special => cases wellFormed
  | file data =>
      cases wellFormedSecond with
      | file other =>
          have sameData : data = other := by simpa [stored] using sameObject
          rw [sameData]
          exact .file other
      | directory _ _ _ => cases sameKind
  | directory entries hypothesis =>
      cases wellFormedSecond with
      | file other => cases sameKind
      | @directory others distinctSecond _ wellFormedSecond =>
          cases wellFormed with
          | directory distinct _ wellFormed =>
              have sameCode : format.encode (treeObject format entries) =
                  format.encode (treeObject format others) := by simpa using sameObject
              have sameTree : treeObject format entries = treeObject format others := by
                have decoded := inverse (treeObject format entries)
                rw [sameCode, inverse] at decoded
                exact (Option.some.inj decoded).symm
              refine .directory (fun name => ?_) fun name node other isNode isOther => ?_
              · rw [← @mem_names_treeObject Hash format entries distinct, sameTree,
                  mem_names_treeObject distinctSecond]
              · have isEntry : (name, node.entry format) ∈ (treeObject format entries).entries :=
                  (mem_treeObject distinct).mpr ⟨node, isNode, rfl⟩
                rw [sameTree, mem_treeObject distinctSecond] at isEntry
                obtain ⟨another, isAnother, sameEntry⟩ := isEntry
                have same : another = other :=
                  congrArg Prod.snd (List.inj_on_of_nodup_map distinctSecond isAnother isOther rfl)
                subst same
                have nodeUsed : ∀ data ∈ node.objects format, data ∈ used := fun data inside =>
                  objectsUsed data (.tail _ (mem_objectsOfEntries.mpr ⟨_, isNode, inside⟩))
                have otherUsed : ∀ data ∈ another.objects format, data ∈ used := fun data inside =>
                  objectsUsedSecond data (.tail _ (mem_objectsOfEntries.mpr ⟨_, isOther, inside⟩))
                have sameHash := congrArg Entry.hash sameEntry
                refine hypothesis _ isNode (wellFormed _ isNode) (wellFormedSecond _ isOther) nodeUsed
                  otherUsed (congrArg Entry.kind sameEntry).symm ?_
                exact noCollision (nodeUsed _ (stored_mem_objects (wellFormed _ isNode)))
                  (otherUsed _ (stored_mem_objects (wellFormedSecond _ isOther))) sameHash.symm

end FileNode

end Identity

/-! ## Export -/

namespace FileNode

mutual

/-- The same files, with every listing in the order of the names. -/
def sorted : FileNode → FileNode
  | .file data => .file data
  | .directory entries => .directory (collectMap (sortedEntries entries))
  | .special => .special

def sortedEntries : List (String × FileNode) → List (String × FileNode)
  | [] => []
  | (name, node) :: entries => (name, sorted node) :: sortedEntries entries

end

theorem sortedEntries_eq_map (entries : List (String × FileNode)) :
    sortedEntries entries = entries.map fun named => (named.1, named.2.sorted) := by
  induction entries with
  | nil => rfl
  | cons named entries hypothesis => rw [sortedEntries, hypothesis, List.map_cons]

theorem sorted_directory (entries : List (String × FileNode)) :
    (directory entries).sorted =
      .directory ((collectMap entries).map fun named => (named.1, named.2.sorted)) := by
  rw [sorted, sortedEntries_eq_map, collectMap_map]

theorem sameTree_sorted {node : FileNode} (wellFormed : node.WellFormed) :
    node.SameTree node.sorted := by
  induction node using inductionOn with
  | special => cases wellFormed
  | file data => exact .file data
  | directory entries hypothesis =>
      cases wellFormed with
      | directory distinct _ wellFormed =>
          have isPerm := collectMap_perm distinct
          rw [sorted_directory]
          refine .directory (fun name => ?_) fun name node other isNode isOther => ?_
          · rw [List.map_map]
            exact (isPerm.map Prod.fst).mem_iff.symm
          · obtain ⟨⟨_, another⟩, isAnother, same⟩ := List.mem_map.mp isOther
            cases same
            have isSame := List.inj_on_of_nodup_map distinct (isPerm.mem_iff.mp isAnother) isNode rfl
            cases isSame
            exact hypothesis _ isNode (wellFormed _ isNode)

theorem mem_namesOfEntries {entries : List (String × FileNode)} {name : String} :
    name ∈ namesOfEntries entries ↔ ∃ named ∈ entries, name = named.1 ∨ name ∈ named.2.names := by
  induction entries with
  | nil => simp [namesOfEntries]
  | cons named entries hypothesis => simp [namesOfEntries, hypothesis, or_assoc]

theorem names_of_blob {node : FileNode} (isBlob : node.kind = .blob) : node.names = [] := by
  cases node with
  | file data => rfl
  | directory entries => cases isBlob
  | special => rfl

end FileNode

theorem validTreeName_iff {name : String} (isName : IsName name) :
    validTreeName name = true ↔ '\\' ∉ name.toList := by
  obtain ⟨nonempty, notSelf, notParent, noSlash⟩ := isName
  simp only [validTreeName, Bool.not_eq_true', Bool.or_eq_false_iff, beq_eq_false_iff_ne,
    List.any_eq_false, Bool.or_eq_true, beq_iff_eq, not_or, ne_eq]
  constructor
  · rintro ⟨-, valid⟩ inside
    exact (valid '\\' inside).2 rfl
  · intro noBackslash
    refine ⟨⟨⟨nonempty, notSelf⟩, notParent⟩, fun char inside => ⟨?_, ?_⟩⟩
    · rintro rfl
      exact noSlash inside
    · rintro rfl
      exact noBackslash inside

theorem setEntry_of_new {entries : List (String × FileNode)} {name : String}
    (isNew : name ∉ entries.map Prod.fst) (node : FileNode) :
    setEntry name node entries = entries ++ [(name, node)] := by
  induction entries with
  | nil => rfl
  | cons entry entries hypothesis =>
      obtain ⟨other, old⟩ := entry
      rw [List.map_cons, List.mem_cons, not_or] at isNew
      rw [setEntry, if_neg (Ne.symm isNew.1), hypothesis isNew.2]
      rfl

theorem lookup_of_new {entries : List (String × FileNode)} {name : String}
    (isNew : name ∉ entries.map Prod.fst) : entries.lookup name = none := by
  rw [← isSome_lookup_iff] at isNew
  exact Option.not_isSome_iff_eq_none.mp isNew

section Export

variable {Hash : Type} [DecidableEq Hash] {format : StorageFormat Hash} {store : Store}

/-- The listing after the entries of a directory were exported one after the other. -/
theorem foldlM_exportEntry (noCollision : Store.NoCollision format store)
    (recurse : Hash → Option FileNode → Except (ExportError Hash) FileNode)
    {rest : List (String × FileNode)} (distinct : (rest.map Prod.fst).Nodup)
    (valid : ∀ named ∈ rest, validTreeName named.1 = true)
    (wellFormed : ∀ named ∈ rest, named.2.WellFormed)
    (inside : ∀ named ∈ rest, (named.2.stored format).1 ∈ store.puts)
    (recurses : ∀ named ∈ rest, named.2.kind = .tree →
      recurse (format.hash (named.2.stored format).1) none = .ok named.2.sorted)
    (entries : List (String × FileNode)) (isNew : ∀ named ∈ rest, named.1 ∉ entries.map Prod.fst) :
    (rest.map fun named => (named.1, named.2.entry format)).foldlM
        (exportEntry format recurse store) entries =
      .ok (entries ++ rest.map fun named => (named.1, named.2.sorted)) := by
  induction rest generalizing entries with
  | nil => simp [pure, Except.pure]
  | cons named rest hypothesis =>
      obtain ⟨name, node⟩ := named
      rw [List.map_cons, List.nodup_cons] at distinct
      rw [List.forall_mem_cons] at valid wellFormed inside recurses isNew
      have written : exportEntry format recurse store entries (name, node.entry format) =
          .ok (entries ++ [(name, node.sorted)]) := by
        have isNewName := lookup_of_new isNew.1
        rw [exportEntry, if_pos valid.1]
        cases wellFormed.1 with
        | file data =>
            have got := noCollision.get inside.1
            simp only [FileNode.entry, FileNode.kind]
            rw [got]
            simp only [writeFile, isNewName]
            rw [setEntry_of_new isNew.1]
            simp [FileNode.stored, FileNode.sorted]
        | directory _ _ _ =>
            simp only [FileNode.entry, FileNode.kind, isNewName]
            rw [recurses.1 rfl]
            exact congrArg Except.ok (setEntry_of_new isNew.1 _)
      have isNewRest : ∀ other ∈ rest, other.1 ∉ (entries ++ [(name, node.sorted)]).map Prod.fst := by
        intro other member inEntries
        rw [List.map_append, List.mem_append] at inEntries
        obtain before | isLast := inEntries
        · exact isNew.2 other member before
        · exact distinct.1 (List.mem_map.mpr ⟨other, member, by simpa using isLast⟩)
      rw [List.map_cons, List.foldlM_cons, written]
      change (rest.map fun named => (named.1, named.2.entry format)).foldlM
        (exportEntry format recurse store) (entries ++ [(name, node.sorted)]) = _
      rw [hypothesis distinct.2 valid.2 wellFormed.2 inside.2 recurses.2 _ isNewRest]
      simp

theorem exists_bound {Element : Type} {list : List Element} {holds : Element → Nat → Prop}
    (grows : ∀ element less more, less ≤ more → holds element less → holds element more)
    (each : ∀ element ∈ list, ∃ bound, holds element bound) :
    ∃ bound, ∀ element ∈ list, holds element bound := by
  induction list with
  | nil => exact ⟨0, by simp⟩
  | cons element list hypothesis =>
      rw [List.forall_mem_cons] at each
      obtain ⟨first, isFirst⟩ := each.1
      obtain ⟨rest, areRest⟩ := hypothesis each.2
      refine ⟨max first rest, List.forall_mem_cons.mpr ⟨?_, fun other member => ?_⟩⟩
      · exact grows element _ _ (Nat.le_max_left first rest) isFirst
      · exact grows other _ _ (Nat.le_max_right first rest) (areRest other member)

/-- The export of a tree whose names have no backslash makes the files again. -/
theorem exists_exportTree (inverse : ∀ tree, format.decode (format.encode tree) = some tree)
    (noCollision : Store.NoCollision format store) {node : FileNode} (wellFormed : node.WellFormed)
    (isTree : node.kind = .tree) (inside : ∀ data ∈ node.objects format, data ∈ store.puts)
    (portable : ∀ name ∈ node.names, '\\' ∉ name.toList) :
    ∃ fuel, ∀ more, fuel ≤ more → ∀ destination,
      (createDirAll destination : Except (ExportError Hash) _) = .ok [] →
        exportTree format more store (format.hash (node.stored format).1) destination =
          .ok node.sorted := by
  induction node using inductionOn with
  | special => cases wellFormed
  | file data => cases isTree
  | directory entries hypothesis =>
      cases wellFormed with
      | directory distinct isName wellFormed =>
          have insideOf : ∀ named ∈ entries, ∀ data ∈ named.2.objects format, data ∈ store.puts :=
            fun named member data isObject =>
              inside data (.tail _ (mem_objectsOfEntries.mpr ⟨named, member, isObject⟩))
          have portableOf : ∀ named ∈ entries, ∀ name ∈ named.2.names, '\\' ∉ name.toList :=
            fun named member name isNamed =>
              portable name (mem_namesOfEntries.2 ⟨named, member, .inr isNamed⟩)
          have together : ∃ fuel, ∀ named ∈ entries, named.2.kind = .tree → ∀ more, fuel ≤ more →
              ∀ destination, (createDirAll destination : Except (ExportError Hash) _) = .ok [] →
                exportTree format more store (format.hash (named.2.stored format).1) destination =
                  .ok named.2.sorted := by
            refine exists_bound (fun named less more enough exports isTree higher aboveMore =>
              exports isTree higher (enough.trans aboveMore)) fun named member => ?_
            by_cases isTree : named.2.kind = .tree
            · obtain ⟨fuel, exports⟩ := hypothesis named member (wellFormed named member) isTree
                (insideOf named member) (portableOf named member)
              exact ⟨fuel, fun _ => exports⟩
            · exact ⟨0, fun other => absurd other isTree⟩
          obtain ⟨fuel, exports⟩ := together
          refine ⟨fuel + 1, fun more enough destination empty => ?_⟩
          obtain ⟨more, rfl⟩ := Nat.exists_eq_add_of_le enough
          have isPerm := collectMap_perm distinct
          have got : store.getTree format (format.hash (format.encode (treeObject format entries))) =
              .ok (treeObject format entries) :=
            Store.getTree_eq_ok.mpr ⟨_, noCollision.get (inside _ List.mem_cons_self), inverse _⟩
          have folded := foldlM_exportEntry noCollision (exportTree format (fuel + more) store)
            ((isPerm.map Prod.fst).nodup_iff.mpr distinct)
            (fun named member => (validTreeName_iff (isName named (isPerm.mem_iff.mp member))).mpr
              (portable named.1 (mem_namesOfEntries.2 ⟨named, isPerm.mem_iff.mp member, .inl rfl⟩)))
            (fun named member => wellFormed named (isPerm.mem_iff.mp member))
            (fun named member => insideOf named (isPerm.mem_iff.mp member) _
              (stored_mem_objects (wellFormed named (isPerm.mem_iff.mp member))))
            (fun named member isTree => exports named (isPerm.mem_iff.mp member) isTree _
              (Nat.le_add_right fuel more) none rfl) [] (by simp)
          rw [← entries_treeObject] at folded
          rw [show fuel + 1 + more = fuel + more + 1 by omega, exportTree, stored_directory, empty]
          simp only [got, ok_bind]
          change (treeObject format entries).entries.foldlM _ [] >>= _ = _
          rw [folded, sorted_directory]
          rfl

theorem exists_step_of_foldlM {State Element Error : Type}
    {step : State → Element → Except Error State} {elements : List Element} {start last : State}
    (runs : elements.foldlM step start = .ok last) {element : Element} (member : element ∈ elements) :
    ∃ before after, step before element = .ok after := by
  induction elements generalizing start with
  | nil => cases member
  | cons first elements hypothesis =>
      rw [List.foldlM_cons] at runs
      obtain ⟨middle, head, tail⟩ := exists_of_bind_eq_ok runs
      obtain rfl | member := List.mem_cons.mp member
      · exact ⟨start, middle, head⟩
      · exact hypothesis tail member

/-- A tree with a backslash in a name is not exported. -/
theorem portable_of_exportTree (inverse : ∀ tree, format.decode (format.encode tree) = some tree)
    (noCollision : Store.NoCollision format store) {node : FileNode} (wellFormed : node.WellFormed)
    (isTree : node.kind = .tree) (inside : ∀ data ∈ node.objects format, data ∈ store.puts)
    {fuel : Nat} {destination : Option FileNode} {exported : FileNode}
    (exports : exportTree format fuel store (format.hash (node.stored format).1) destination =
      .ok exported) : ∀ name ∈ node.names, '\\' ∉ name.toList := by
  induction node using inductionOn generalizing fuel destination exported with
  | special => cases wellFormed
  | file data => cases isTree
  | directory entries hypothesis =>
      cases wellFormed with
      | directory distinct isName wellFormed =>
          cases fuel with
          | zero => cases exports
          | succ fuel =>
              have got : store.getTree format
                  (format.hash (format.encode (treeObject format entries))) =
                    .ok (treeObject format entries) :=
                Store.getTree_eq_ok.mpr ⟨_, noCollision.get (inside _ List.mem_cons_self), inverse _⟩
              rw [exportTree, stored_directory] at exports
              obtain ⟨listing, -, exports⟩ := exists_of_bind_eq_ok exports
              rw [got] at exports
              obtain ⟨last, folded, -⟩ := exists_of_bind_eq_ok exports
              have steps (named : String × FileNode) (member : named ∈ entries) :
                  ∃ before after, exportEntry format (exportTree format fuel store) store before
                    (named.1, named.2.entry format) = .ok after :=
                exists_step_of_foldlM folded ((mem_treeObject distinct).mpr ⟨named.2, member, rfl⟩)
              intro name isNamed
              obtain ⟨named, member, isOwn | below⟩ := mem_namesOfEntries.1 isNamed
              · obtain ⟨before, after, step⟩ := steps named member
                rw [exportEntry] at step
                split_ifs at step with valid
                rw [isOwn]
                exact (validTreeName_iff (isName named member)).mp valid
              · obtain ⟨before, after, step⟩ := steps named member
                rw [exportEntry] at step
                split_ifs at step with valid
                cases isKind : named.2.kind with
                | blob =>
                    rw [names_of_blob isKind] at below
                    cases below
                | tree =>
                    simp only [FileNode.entry, isKind] at step
                    obtain ⟨child, childExports, -⟩ := exists_of_bind_eq_ok step
                    exact hypothesis named member (wellFormed named member) isKind
                      (fun data isObject => inside data (.tail _
                        (mem_objectsOfEntries.mpr ⟨named, member, isObject⟩))) childExports name below

end Export

/-! ## The round trip -/

section RoundTrip

variable {Hash : Type} [DecidableEq Hash] {format : StorageFormat Hash}

/-- A directory tree is imported, with or without overflow checks; it is exported again
just when no name has a backslash; and the hash says which tree it is. -/
theorem directoryRoundTrip (inverse : ∀ tree, format.decode (format.encode tree) = some tree) :
    (∀ checks (store : Store) entries, (FileNode.directory entries).WellFormed →
      ((FileNode.directory entries).stored format).2 < 2 ^ 60 →
      Set.InjOn format.hash
        {data | data ∈ store.puts ∨ data ∈ (FileNode.directory entries).objects format} →
      ∃ hash later, importPath format checks (.directory entries) store = .ok ((.tree, hash), later) ∧
        ((∀ name ∈ (FileNode.directory entries).names, '\\' ∉ name.toList) →
          ∃ exported, (FileNode.directory entries).SameTree exported ∧
            ∃ fuel, ∀ more, fuel ≤ more →
              exportTree format more later hash (some (.directory [])) = .ok exported) ∧
        ((∃ name ∈ (FileNode.directory entries).names, '\\' ∈ name.toList) →
          ∀ fuel exported,
            exportTree format fuel later hash (some (.directory [])) ≠ .ok exported)) ∧
    ∀ checks otherChecks (store otherStore later otherLater : Store) entries others hash otherHash,
      (FileNode.directory entries).WellFormed → (FileNode.directory others).WellFormed →
      ((FileNode.directory entries).stored format).2 < 2 ^ 60 →
      ((FileNode.directory others).stored format).2 < 2 ^ 60 →
      Set.InjOn format.hash {data | (data ∈ store.puts ∨ data ∈ otherStore.puts) ∨
        data ∈ (FileNode.directory entries).objects format ∨
          data ∈ (FileNode.directory others).objects format} →
      importPath format checks (.directory entries) store = .ok ((.tree, hash), later) →
      importPath format otherChecks (.directory others) otherStore =
        .ok ((.tree, otherHash), otherLater) →
      (hash = otherHash ↔ (FileNode.directory entries).SameTree (.directory others)) := by
  constructor
  · intro checks store entries wellFormed small noCollision
    obtain ⟨later, runs, imports⟩ := exists_importPath inverse noCollision wellFormed
      (small.trans (by decide)) (fun _ member => .inl member) (fun _ member => .inr member)
    have noCollisionLater : Store.NoCollision format later := by
      refine Set.InjOn.mono (fun data member => ?_) noCollision
      exact (imports.mem_iff.mp member).symm
    have inside : ∀ data ∈ (FileNode.directory entries).objects format, data ∈ later.puts :=
      fun data isObject => imports.mem_iff.mpr (.inl isObject)
    refine ⟨_, later, runs, fun portable => ?_, ?_⟩
    · obtain ⟨fuel, exports⟩ := exists_exportTree inverse noCollisionLater wellFormed rfl inside portable
      exact ⟨_, sameTree_sorted wellFormed, fuel, fun more enough => exports more enough _ rfl⟩
    · rintro ⟨name, isNamed, backslash⟩ fuel exported exports
      exact portable_of_exportTree inverse noCollisionLater wellFormed rfl inside exports name isNamed
        backslash
  · intro checks otherChecks store otherStore later otherLater entries others hash otherHash
      wellFormed otherWellFormed small otherSmall noCollision runs otherRuns
    obtain ⟨_, isImported, -⟩ := exists_importPath inverse noCollision wellFormed
      (small.trans (by decide)) (fun _ member => .inl (.inl member))
      (fun _ member => .inr (.inl member))
    obtain ⟨_, otherImported, -⟩ := exists_importPath inverse noCollision otherWellFormed
      (otherSmall.trans (by decide)) (fun _ member => .inl (.inr member))
      (fun _ member => .inr (.inr member))
    rw [isImported] at runs
    cases runs
    rw [otherImported] at otherRuns
    cases otherRuns
    constructor
    · intro sameHash
      refine sameTree_of_object inverse noCollision wellFormed otherWellFormed
        (fun _ member => .inr (.inl member)) (fun _ member => .inr (.inr member)) rfl ?_
      exact noCollision (.inr (.inl (stored_mem_objects wellFormed)))
        (.inr (.inr (stored_mem_objects otherWellFormed))) sameHash
    · intro same
      rw [(same.stored_eq wellFormed otherWellFormed).2]

end RoundTrip

/-- A directory with an empty file. -/
def lonely (name : String) : FileNode :=
  .directory [(name, .file [])]

theorem wellFormed_lonely {name : String} (isName : IsName name) : (lonely name).WellFormed := by
  refine .directory (by simp) ?_ ?_
  · intro named member
    cases List.mem_singleton.mp member
    exact isName
  · intro named member
    cases List.mem_singleton.mp member
    exact .file _

theorem size_lonely (name : String) : ((lonely name).stored unaryFormat).2 =
    Encodable.encode [(name.toList.map Char.toNat, ([] : List Nat), false, 0)] + 1 := by
  rw [lonely, stored_directory]
  change (unaryText (treeObject unaryFormat [(name, .file [])])).length + 0 = _
  rw [unaryText, List.length_replicate]
  rfl

theorem directoryRoundTrip_lonely :
    ∃ hash later exported, importPath unaryFormat true (lonely "a") ⟨.memory, []⟩ =
        .ok ((.tree, hash), later) ∧ (lonely "a").SameTree exported ∧
      ∃ fuel, ∀ more, fuel ≤ more →
        exportTree unaryFormat more later hash (some (.directory [])) = .ok exported := by
  have small : ((lonely "a").stored unaryFormat).2 < 2 ^ 60 := by
    rw [size_lonely]
    decide
  obtain ⟨hash, later, runs, exports, -⟩ := (directoryRoundTrip decode_unaryFormat).1 true
    ⟨.memory, []⟩ [("a", .file [])]
    (wellFormed_lonely ⟨by decide, by decide, by decide, by decide⟩) small (noCollision_unaryFormat _)
  obtain ⟨exported, same, fuel, succeeds⟩ := exports (by
    intro name isNamed
    cases List.mem_singleton.mp isNamed
    decide)
  exact ⟨hash, later, exported, runs, same, fuel, succeeds⟩

/-- A backslash is a name for the import, and not for the export. -/
theorem not_directoryRoundTrip :
    (lonely "\\").WellFormed ∧ ((lonely "\\").stored unaryFormat).2 < 2 ^ 60 ∧
    ∃ hash later, importPath unaryFormat true (lonely "\\") ⟨.memory, []⟩ =
        .ok ((.tree, hash), later) ∧
      ∀ fuel exported,
        exportTree unaryFormat fuel later hash (some (.directory [])) ≠ .ok exported := by
  have wellFormed : (lonely "\\").WellFormed :=
    wellFormed_lonely ⟨by decide, by decide, by decide, by decide⟩
  have small : ((lonely "\\").stored unaryFormat).2 < 2 ^ 60 := by
    rw [size_lonely]
    decide
  obtain ⟨later, runs, imports⟩ := exists_importPath decode_unaryFormat
    (noCollision_unaryFormat Set.univ) wellFormed (small.trans (by decide)) (by simp) (by simp)
  refine ⟨wellFormed, small, _, later, runs, fun fuel exported exports => ?_⟩
  refine portable_of_exportTree decode_unaryFormat (noCollision_unaryFormat _) wellFormed rfl
    (fun data isObject => imports.mem_iff.mpr (.inl isObject)) exports "\\" ?_ (by decide)
  exact List.mem_singleton_self _

end RexLang
