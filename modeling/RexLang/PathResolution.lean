import RexLang.DirectoryRoundTrip

/-!
# Resolving paths in the store

A path is a root hash with the names that lead from it.  The walk follows them from
tree object to tree object; whether an object is one is seen from its bytes, not from
the kind of the entry that led to it.
-/

namespace RexLang

inductive ResolveError (Hash : Type) where
  | emptyPath
  | invalidHash (message : String)
  | pathNotFound (path : String)
  | storage (error : StoreError Hash)

section Resolution

variable {Hash : Type} [DecidableEq Hash] (format : StorageFormat Hash)

/-- The loop of `resolve_path` over the names. -/
def walkPath (store : Store) (path : String) : Hash → List String →
    Except (ResolveError Hash) Hash
  | hash, [] => .ok hash
  | hash, component :: components =>
      match store.getTree format hash with
      | .error error => .error (.storage error)
      | .ok tree =>
          match tree.entries.lookup component with
          | none => .error (.pathNotFound path)
          | some entry => walkPath store path entry.hash components

/-- `Store::resolve_path`; `fromStr` reads the text of a hash. -/
def resolvePath (fromStr : String → Except String Hash) (store : Store) (path : String) :
    Except (ResolveError Hash) Hash :=
  match (path.split '/').toList.map (·.copy) with
  | [] => .error .emptyPath
  | first :: components =>
      match fromStr first with
      | .error message => .error (.invalidHash message)
      | .ok hash => walkPath format store path hash components

/-- The path of names that follow a root hash. -/
def pathOf (toHex : Hash → String) (root : Hash) (names : List String) : String :=
  "/".intercalate (toHex root :: names)

variable {format}

theorem resolvePath_pathOf {toHex : Hash → String} {fromStr : String → Except String Hash}
    (readsBack : ∀ hash, fromStr (toHex hash) = .ok hash)
    (noSlash : ∀ hash, '/' ∉ (toHex hash).toList) {names : List String}
    (plain : ∀ name ∈ names, '/' ∉ name.toList) (store : Store) (root : Hash) :
    resolvePath format fromStr store (pathOf toHex root names) =
      walkPath format store (pathOf toHex root names) root names := by
  have components : ((pathOf toHex root names).split '/').toList.map (·.copy) =
      toHex root :: names := by
    have split := @String.toList_split_intercalate '/' (toHex root :: names)
      (List.forall_mem_cons.mpr ⟨noSlash root, plain⟩)
    rw [if_neg (List.cons_ne_nil _ _)] at split
    exact split
  rw [resolvePath, components]
  dsimp only
  rw [readsBack]

end Resolution

/-! ## What a path leads to -/

/-- The file or directory that is reached when the names are followed. -/
def FileNode.follow : FileNode → List String → Option FileNode
  | node, [] => some node
  | .directory entries, name :: names => (entries.lookup name).bind fun node => node.follow names
  | _, _ :: _ => none

section Import

variable {Hash : Type} [DecidableEq Hash] {format : StorageFormat Hash} {checks : Bool}

/-- The hash that the import of a path gave, into what is now a part of the store. -/
def ImportedAs (format : StorageFormat Hash) (checks : Bool) (store : Store) (node : FileNode)
    (hash : Hash) : Prop :=
  ∃ kind before after, importPath format checks node before = .ok ((kind, hash), after) ∧
    after.puts <:+ store.puts

theorem ImportedAs.mono {store later : Store} {node : FileNode} {hash : Hash}
    (imported : ImportedAs format checks store node hash) (kept : store.puts <:+ later.puts) :
    ImportedAs format checks later node hash := by
  obtain ⟨kind, before, after, ran, inside⟩ := imported
  exact ⟨kind, before, after, ran, inside.trans kept⟩

/-! ### The new tree object -/

/-- An entry has the name, the kind and the hash of its creation. -/
theorem createEntry_eq_ok {store : Store} {creation : String × EntryKind × Hash}
    {entry : String × Entry Hash} (created : store.createEntry format checks creation = .ok entry) :
    entry.1 = creation.1 ∧ entry.2.hash = creation.2.2 := by
  obtain ⟨size, -, same⟩ := exists_of_bind_eq_ok created
  cases same
  exact ⟨rfl, rfl⟩

/-- The tree object of `put_tree` has an entry for each creation. -/
theorem putTree_eq_ok {store later : Store} {creations : SymbolMap (EntryKind × Hash)}
    {hash : Hash} (ordered : Ordered creations)
    (put : store.putTree format checks creations = .ok (hash, later)) :
    ∃ tree, later.puts = format.encode tree :: store.puts ∧ hash = format.hash (format.encode tree) ∧
      ∀ name, (tree.entries.lookup name).map Entry.hash = (creations.lookup name).map Prod.snd := by
  obtain ⟨entries, created, same⟩ := exists_of_bind_eq_ok put
  cases same
  have related := forall₂_of_mapM created
  have sameNames : entries.map Prod.fst = creations.map Prod.fst := by
    clear created put
    induction related with
    | nil => rfl
    | cons head _ hypothesis =>
        rw [Ordered, List.map_cons, List.pairwise_cons] at ordered
        rw [List.map_cons, List.map_cons, hypothesis ordered.2, (createEntry_eq_ok head).1]
  have orderedEntries : Ordered entries := by
    rw [Ordered, sameNames]
    exact ordered
  refine ⟨.collect entries, rfl, rfl, fun name => ?_⟩
  rw [TreeObject.collect]
  simp only [collectMap_of_ordered orderedEntries]
  clear created put ordered sameNames orderedEntries
  induction related with
  | nil => rfl
  | @cons creation entry creations entries head _ hypothesis =>
      obtain ⟨sameName, sameHash⟩ := createEntry_eq_ok head
      obtain ⟨entryName, entry⟩ := entry
      obtain ⟨creationName, creation⟩ := creation
      dsimp only at sameName sameHash
      subst sameName
      rw [lookup_cons_eq_ite, lookup_cons_eq_ite]
      split
      · exact congrArg some sameHash
      · exact hypothesis

/-! ### The listing of a directory -/

/-- The import of a path only adds objects. -/
def Adds (format : StorageFormat Hash) (checks : Bool) (node : FileNode) : Prop :=
  ∀ store result later, importPath format checks node store = .ok (result, later) →
    store.puts <:+ later.puts

theorem suffix_importEntries {entries : List (String × FileNode)}
    (adds : ∀ named ∈ entries, Adds format checks named.2)
    {created result : SymbolMap (EntryKind × Hash)} {store later : Store}
    (ran : importEntries format checks entries created store = .ok (result, later)) :
    store.puts <:+ later.puts := by
  induction entries generalizing created store with
  | nil =>
      cases ran
      exact List.suffix_refl _
  | cons named entries hypothesis =>
      rw [List.forall_mem_cons] at adds
      obtain ⟨name, node⟩ := named
      obtain ⟨⟨first, middle⟩, ranFirst, ranRest⟩ := exists_of_bind_eq_ok ran
      exact (adds.1 store first middle ranFirst).trans (hypothesis adds.2 ranRest)

/-- The import of a directory is that of its listing, and then of its tree object. -/
theorem importPath_directory {entries : List (String × FileNode)} {kind : EntryKind}
    {hash : Hash} {store later : Store}
    (ran : importPath format checks (.directory entries) store = .ok ((kind, hash), later)) :
    ∃ created middle, importEntries format checks entries [] store = .ok (created, middle) ∧
      middle.putTree format checks created = .ok (hash, later) := by
  obtain ⟨⟨created, middle⟩, ranEntries, ranTree⟩ := exists_of_bind_eq_ok ran
  dsimp only at ranTree
  cases put : middle.putTree format checks created with
  | error error =>
      rw [put] at ranTree
      cases ranTree
  | ok result =>
      rw [put] at ranTree
      cases ranTree
      exact ⟨created, middle, ranEntries, put⟩

theorem suffix_putTree {store later : Store} {creations : SymbolMap (EntryKind × Hash)}
    {hash : Hash} (put : store.putTree format checks creations = .ok (hash, later)) :
    store.puts <:+ later.puts := by
  obtain ⟨entries, -, same⟩ := exists_of_bind_eq_ok put
  cases same
  exact List.suffix_cons _ _

theorem adds_importPath (node : FileNode) : Adds format checks node := by
  induction node using FileNode.inductionOn with
  | file data =>
      intro store result later ran
      cases ran
      exact List.suffix_cons _ _
  | special =>
      intro store result later ran
      cases ran
  | directory entries hypothesis =>
      intro store result later ran
      obtain ⟨kind, hash⟩ := result
      obtain ⟨created, middle, ranEntries, put⟩ := importPath_directory ran
      exact (suffix_importEntries hypothesis ranEntries).trans (suffix_putTree put)

theorem ordered_importEntries {entries : List (String × FileNode)}
    {created result : SymbolMap (EntryKind × Hash)} {store later : Store}
    (ordered : Ordered created)
    (ran : importEntries format checks entries created store = .ok (result, later)) :
    Ordered result := by
  induction entries generalizing created store with
  | nil =>
      cases ran
      exact ordered
  | cons named entries hypothesis =>
      obtain ⟨name, node⟩ := named
      obtain ⟨⟨first, middle⟩, -, ranRest⟩ := exists_of_bind_eq_ok ran
      exact hypothesis (ordered_insert ordered name first) ranRest

/-- Under each name of the listing is the result of its import, and under any other
name what was there before. -/
theorem lookup_importEntries {entries : List (String × FileNode)}
    (distinct : (entries.map Prod.fst).Nodup)
    {created result : SymbolMap (EntryKind × Hash)} {store later : Store}
    (ran : importEntries format checks entries created store = .ok (result, later))
    (name : String) :
    match entries.lookup name with
    | none => result.lookup name = created.lookup name
    | some node => ∃ imported, result.lookup name = some imported ∧
        ImportedAs format checks later node imported.2 := by
  induction entries generalizing created store with
  | nil =>
      cases ran
      rfl
  | cons named entries hypothesis =>
      obtain ⟨other, node⟩ := named
      rw [List.map_cons, List.nodup_cons] at distinct
      obtain ⟨⟨first, middle⟩, ranFirst, ranRest⟩ := exists_of_bind_eq_ok ran
      have rest := hypothesis distinct.2 ranRest
      rw [lookup_cons_eq_ite]
      by_cases same : name = other
      · subst same
        have absent : entries.lookup name = none := by
          rw [← Option.not_isSome_iff_eq_none, isSome_lookup_iff]
          exact distinct.1
        rw [absent] at rest
        dsimp only at rest
        rw [lookup_insert, if_pos rfl] at rest
        rw [if_pos rfl]
        exact ⟨first, rest, first.1, store, middle, ranFirst,
          suffix_importEntries (fun named _ => adds_importPath named.2) ranRest⟩
      · rw [if_neg same]
        rw [lookup_insert, if_neg same] at rest
        exact rest

/-- The object of a directory is a tree object with the hashes of what is in it. -/
theorem ImportedAs.directory {store : Store} {entries : List (String × FileNode)} {hash : Hash}
    (distinct : (entries.map Prod.fst).Nodup)
    (imported : ImportedAs format checks store (.directory entries) hash) :
    ∃ tree, format.encode tree ∈ store.puts ∧ hash = format.hash (format.encode tree) ∧
      ∀ name, match entries.lookup name with
        | none => tree.entries.lookup name = none
        | some node => ∃ entry, tree.entries.lookup name = some entry ∧
            ImportedAs format checks store node entry.hash := by
  obtain ⟨kind, before, after, ran, inside⟩ := imported
  obtain ⟨created, middle, ranEntries, put⟩ := importPath_directory ran
  have empty : Ordered ([] : SymbolMap (EntryKind × Hash)) := .nil
  obtain ⟨tree, written, isHash, lookups⟩ :=
    putTree_eq_ok (ordered_importEntries empty ranEntries) put
  refine ⟨tree, inside.subset (by rw [written]; exact List.mem_cons_self), isHash, fun name => ?_⟩
  have isCreated := lookup_importEntries distinct ranEntries name
  have sameHash := lookups name
  cases found : entries.lookup name with
  | none =>
      rw [found] at isCreated
      rw [isCreated] at sameHash
      exact Option.map_eq_none_iff.mp sameHash
  | some node =>
      rw [found] at isCreated
      obtain ⟨⟨nodeKind, nodeHash⟩, isResult, importedNode⟩ := isCreated
      rw [isResult] at sameHash
      obtain ⟨entry, isEntry, isSame⟩ := Option.map_eq_some_iff.mp sameHash
      refine ⟨entry, isEntry, ?_⟩
      rw [isSame]
      exact importedNode.mono ((suffix_putTree put).trans inside)

theorem ImportedAs.file {store : Store} {data : Bytes} {hash : Hash}
    (imported : ImportedAs format checks store (.file data) hash) :
    data ∈ store.puts ∧ hash = format.hash data := by
  obtain ⟨kind, before, after, ran, inside⟩ := imported
  cases ran
  exact ⟨inside.subset List.mem_cons_self, rfl⟩

/-! ## The walk -/

/-- The bytes are an encoded tree, and the names lead through it and through the trees
of the store that it leads to. -/
inductive ReadsThrough (format : StorageFormat Hash) (store : Store) : Bytes → List String → Prop
  | last {data tree name entry} (decodes : format.decode data = some tree)
      (found : tree.entries.lookup name = some entry) : ReadsThrough format store data [name]
  | step {data tree name entry next names} (decodes : format.decode data = some tree)
      (found : tree.entries.lookup name = some entry) (inside : next ∈ store.puts)
      (sameHash : format.hash next = entry.hash) (rest : ReadsThrough format store next names) :
      ReadsThrough format store data (name :: names)

/-- Some of the names lead to a file whose bytes are read as a tree by the others. -/
def Misled (format : StorageFormat Hash) (store : Store) (node : FileNode)
    (names : List String) : Prop :=
  ∃ before data rest, names = before ++ rest ∧ node.follow before = some (.file data) ∧
    ReadsThrough format store data rest

variable {store : Store} {path : String}

theorem walkPath_cons {hash result : Hash} {name : String} {names : List String} :
    walkPath format store path hash (name :: names) = .ok result ↔
      ∃ data tree entry, store.get format hash = .ok data ∧ format.decode data = some tree ∧
        tree.entries.lookup name = some entry ∧
        walkPath format store path entry.hash names = .ok result := by
  rw [walkPath]
  cases got : store.getTree format hash with
  | error error =>
      refine iff_of_false nofun ?_
      rintro ⟨data, tree, entry, found, decodes, -⟩
      have isTree := Store.getTree_eq_ok.mpr ⟨data, found, decodes⟩
      rw [got] at isTree
      cases isTree
  | ok tree =>
      obtain ⟨data, found, decodes⟩ := Store.getTree_eq_ok.mp got
      have onlyTree : ∀ otherData other, store.get format hash = .ok otherData →
          format.decode otherData = some other → other = tree := by
        intro otherData other foundOther decodesOther
        have isTree := Store.getTree_eq_ok.mpr ⟨otherData, foundOther, decodesOther⟩
        rw [got] at isTree
        exact (Except.ok.inj isTree).symm
      dsimp only
      cases lookedUp : tree.entries.lookup name with
      | none =>
          refine iff_of_false nofun ?_
          rintro ⟨otherData, other, entry, foundOther, decodesOther, isEntry, -⟩
          rw [onlyTree otherData other foundOther decodesOther, lookedUp] at isEntry
          cases isEntry
      | some entry =>
          constructor
          · exact fun walked => ⟨data, tree, entry, found, decodes, lookedUp, walked⟩
          · rintro ⟨otherData, other, otherEntry, foundOther, decodesOther, isEntry, walked⟩
            rw [onlyTree otherData other foundOther decodesOther, lookedUp] at isEntry
            cases isEntry
            exact walked

/-- From the bytes of an object the walk succeeds just when they are read through. -/
theorem exists_walkPath_iff (noCollision : Store.NoCollision format store) {data : Bytes}
    (inside : data ∈ store.puts) {name : String} {names : List String} :
    (∃ result, walkPath format store path (format.hash data) (name :: names) = .ok result) ↔
      ReadsThrough format store data (name :: names) := by
  induction names generalizing data name with
  | nil =>
      constructor
      · rintro ⟨result, walked⟩
        obtain ⟨other, tree, entry, got, decodes, found, -⟩ := walkPath_cons.1 walked
        rw [noCollision.get inside] at got
        cases got
        exact .last decodes found
      · intro reads
        cases reads with
        | last decodes found =>
            exact ⟨_, walkPath_cons.2 ⟨_, _, _, noCollision.get inside, decodes, found, rfl⟩⟩
        | step _ _ _ _ rest => cases rest
  | cons next names hypothesis =>
      constructor
      · rintro ⟨result, walked⟩
        obtain ⟨other, tree, entry, got, decodes, found, rest⟩ := walkPath_cons.1 walked
        rw [noCollision.get inside] at got
        cases got
        obtain ⟨target, -, -, gotTarget, -⟩ := walkPath_cons.1 rest
        obtain ⟨isObject, sameHash⟩ := Store.of_get_eq_ok gotTarget
        rw [← sameHash] at rest
        exact .step decodes found isObject sameHash ((hypothesis isObject).mp ⟨result, rest⟩)
      · intro reads
        cases reads with
        | step decodes found isObject sameHash rest =>
            obtain ⟨result, walked⟩ := (hypothesis isObject).mpr rest
            rw [sameHash] at walked
            exact ⟨result, walkPath_cons.2
              ⟨_, _, _, noCollision.get inside, decodes, found, walked⟩⟩

/-- One name from a directory. -/
theorem walkPath_directory (inverse : ∀ tree, format.decode (format.encode tree) = some tree)
    (noCollision : Store.NoCollision format store) {tree : TreeObject Hash}
    (inside : format.encode tree ∈ store.puts) {result : Hash} {name : String}
    {names : List String} :
    walkPath format store path (format.hash (format.encode tree)) (name :: names) = .ok result ↔
      ∃ entry, tree.entries.lookup name = some entry ∧
        walkPath format store path entry.hash names = .ok result := by
  rw [walkPath_cons, noCollision.get inside]
  constructor
  · rintro ⟨data, other, entry, got, decodes, found, walked⟩
    cases got
    rw [inverse] at decodes
    cases decodes
    exact ⟨entry, found, walked⟩
  · rintro ⟨entry, found, walked⟩
    exact ⟨_, _, entry, rfl, inverse tree, found, walked⟩

theorem WellFormed.of_lookup {entries : List (String × FileNode)}
    (wellFormed : (FileNode.directory entries).WellFormed) :
    (entries.map Prod.fst).Nodup ∧
      ∀ name node, entries.lookup name = some node → node.WellFormed := by
  cases wellFormed with
  | directory distinct _ children =>
      exact ⟨distinct, fun name node found => children _ (mem_of_lookup found)⟩

/-- What the names lead to is found under its hash. -/
theorem walkPath_of_follow (inverse : ∀ tree, format.decode (format.encode tree) = some tree)
    (noCollision : Store.NoCollision format store) {node reached : FileNode} {hash : Hash}
    (wellFormed : node.WellFormed) (imported : ImportedAs format checks store node hash)
    {names : List String} (follows : node.follow names = some reached) :
    ∃ result, walkPath format store path hash names = .ok result ∧
      ImportedAs format checks store reached result := by
  induction names generalizing node hash with
  | nil =>
      rw [FileNode.follow] at follows
      cases follows
      exact ⟨hash, rfl, imported⟩
  | cons name names hypothesis =>
      cases node with
      | file data => cases follows
      | special => cases follows
      | directory entries =>
          obtain ⟨distinct, children⟩ := WellFormed.of_lookup wellFormed
          obtain ⟨tree, inside, rfl, lookups⟩ := imported.directory distinct
          rw [FileNode.follow] at follows
          obtain ⟨child, isChild, followsChild⟩ := Option.bind_eq_some_iff.mp follows
          have isEntry := lookups name
          rw [isChild] at isEntry
          obtain ⟨entry, found, importedChild⟩ := isEntry
          obtain ⟨result, walked, isResult⟩ :=
            hypothesis (children name child isChild) importedChild followsChild
          exact ⟨result, (walkPath_directory inverse noCollision inside).mpr
            ⟨entry, found, walked⟩, isResult⟩

/-- Where the names lead nowhere, the walk succeeds only when it is misled. -/
theorem exists_walkPath_iff_misled (inverse : ∀ tree, format.decode (format.encode tree) = some tree)
    (noCollision : Store.NoCollision format store) {node : FileNode} {hash : Hash}
    (wellFormed : node.WellFormed) (imported : ImportedAs format checks store node hash)
    {names : List String} (nowhere : node.follow names = none) :
    (∃ result, walkPath format store path hash names = .ok result) ↔
      Misled format store node names := by
  induction names generalizing node hash with
  | nil =>
      rw [FileNode.follow] at nowhere
      cases nowhere
  | cons name names hypothesis =>
      cases wellFormed with
      | file data =>
          obtain ⟨inside, rfl⟩ := imported.file
          rw [exists_walkPath_iff noCollision inside]
          constructor
          · exact fun reads => ⟨[], data, name :: names, rfl, rfl, reads⟩
          · rintro ⟨before, other, rest, split, follows, reads⟩
            cases before with
            | nil =>
                cases follows
                cases split
                exact reads
            | cons first before => cases follows
      | @directory entries distinct _ children =>
          obtain ⟨tree, inside, rfl, lookups⟩ := imported.directory distinct
          have isEntry := lookups name
          rw [FileNode.follow] at nowhere
          simp only [walkPath_directory inverse noCollision inside]
          cases isChild : entries.lookup name with
          | none =>
              rw [isChild] at isEntry
              dsimp only at isEntry
              refine iff_of_false (by simp [isEntry]) ?_
              rintro ⟨before, data, rest, split, follows, reads⟩
              cases before with
              | nil => cases follows
              | cons first before =>
                  cases split
                  rw [FileNode.follow, isChild] at follows
                  cases follows
          | some child =>
              rw [isChild] at isEntry nowhere
              obtain ⟨entry, found, importedChild⟩ := isEntry
              have below := hypothesis (children _ (mem_of_lookup isChild)) importedChild nowhere
              constructor
              · rintro ⟨result, other, isOther, walked⟩
                rw [found] at isOther
                cases isOther
                obtain ⟨before, data, rest, rfl, follows, reads⟩ := below.mp ⟨result, walked⟩
                refine ⟨name :: before, data, rest, rfl, ?_, reads⟩
                rw [FileNode.follow, isChild]
                exact follows
              · rintro ⟨before, data, rest, split, follows, reads⟩
                cases before with
                | nil => cases follows
                | cons first before =>
                    cases split
                    rw [FileNode.follow, isChild] at follows
                    obtain ⟨result, walked⟩ := below.mpr ⟨before, data, rest, rfl, follows, reads⟩
                    exact ⟨result, entry, found, walked⟩

theorem follow_append (before rest : List String) (node : FileNode) :
    node.follow (before ++ rest) = (node.follow before).bind fun reached => reached.follow rest := by
  induction before generalizing node with
  | nil => rw [List.nil_append, FileNode.follow, Option.bind_some]
  | cons name before hypothesis =>
      cases node with
      | directory entries =>
          rw [List.cons_append, FileNode.follow, FileNode.follow, Option.bind_assoc]
          simp only [hypothesis]
      | file data => rfl
      | special => rfl

omit [DecidableEq Hash] in
theorem not_misled_of_follow {node reached : FileNode} {names : List String}
    (follows : node.follow names = some reached) : ¬ Misled format store node names := by
  rintro ⟨before, data, rest, rfl, followsFile, reads⟩
  rw [follow_append, followsFile] at follows
  cases reads <;> cases follows

/-! ## The result -/

/-- The hash of what the names lead to, or an error when they lead nowhere. -/
def Resolves (format : StorageFormat Hash) (checks : Bool) (toHex : Hash → String)
    (fromStr : String → Except String Hash) (store : Store) (root : Hash) (node : FileNode)
    (names : List String) : Prop :=
  match node.follow names with
  | some reached => ∃ hash,
      resolvePath format fromStr store (pathOf toHex root names) = .ok hash ∧
        ImportedAs format checks store reached hash
  | none => ∃ error, resolvePath format fromStr store (pathOf toHex root names) = .error error

/-- A path is resolved as in the directory that was imported, unless it goes through a
file that is read as a tree. -/
theorem resolves_iff (inverse : ∀ tree, format.decode (format.encode tree) = some tree)
    {toHex : Hash → String} {fromStr : String → Except String Hash}
    (readsBack : ∀ hash, fromStr (toHex hash) = .ok hash)
    (noSlash : ∀ hash, '/' ∉ (toHex hash).toList)
    (noCollision : Store.NoCollision format store) {node : FileNode} {root : Hash}
    (wellFormed : node.WellFormed) (imported : ImportedAs format checks store node root)
    {names : List String} (plain : ∀ name ∈ names, '/' ∉ name.toList) :
    Resolves format checks toHex fromStr store root node names ↔
      ¬ Misled format store node names := by
  rw [Resolves, resolvePath_pathOf readsBack noSlash plain]
  cases follows : node.follow names with
  | some reached =>
      exact iff_of_true (walkPath_of_follow inverse noCollision wellFormed imported follows)
        (not_misled_of_follow follows)
  | none =>
      have walks := @exists_walkPath_iff_misled Hash _ format checks store
        (pathOf toHex root names) inverse noCollision node root wellFormed imported names follows
      rw [← walks]
      cases walkPath format store (pathOf toHex root names) root names with
      | error error => exact iff_of_true ⟨error, rfl⟩ (fun ⟨_, isOk⟩ => nomatch isOk)
      | ok hash => exact iff_of_false (fun ⟨_, isError⟩ => nomatch isError) (not_not.mpr ⟨hash, rfl⟩)

end Import

/-! ## A file that is read as a tree -/

/-- The import of a directory with one file. -/
theorem exists_importPath_file {Hash : Type} [DecidableEq Hash] {format : StorageFormat Hash}
    (noCollision : ∀ used, Set.InjOn format.hash used) (checks : Bool) (name : String)
    (data : Bytes) (store : Store) :
    ∃ root later, importPath format checks (.directory [(name, .file data)]) store =
      .ok ((.tree, root), later) := by
  let stored := (store.put format data).2
  let tree : TreeObject Hash := .collect [(name, ⟨format.hash data, .blob, data.length⟩)]
  have got : stored.get format (format.hash data) = .ok data :=
    Store.NoCollision.get (noCollision _) List.mem_cons_self
  have sized : stored.size format (format.hash data) = .ok data.length :=
    Store.size_eq_ok_iff.mpr ⟨data, got, rfl⟩
  have created : stored.putTree format checks [(name, (.blob, format.hash data))] =
      .ok (stored.put format (format.encode tree)) := by
    rw [Store.putTree]
    refine bind_eq_ok.mpr ⟨[(name, ⟨format.hash data, .blob, data.length⟩)], ?_, rfl⟩
    rw [List.mapM_cons, Store.createEntry, Store.entrySize, sized]
    rfl
  refine ⟨format.hash (format.encode tree), (stored.put format (format.encode tree)).2, ?_⟩
  rw [importPath]
  refine bind_eq_ok.mpr ⟨([(name, (.blob, format.hash data))], stored), rfl, ?_⟩
  dsimp only
  rw [created]
  rfl

def hexDigits : List Char :=
  ['0', '1', '2', '3', '4', '5', '6', '7', '8', '9', 'a', 'b', 'c', 'd', 'e', 'f']

/-- Two digits for each byte. -/
def hexText (bytes : Bytes) : String :=
  String.ofList (bytes.flatMap fun byte =>
    [hexDigits.getD (byte.toNat / 16) '0', hexDigits.getD (byte.toNat % 16) '0'])

def readHexDigits : List Char → Except String Bytes
  | [] => .ok []
  | high :: low :: rest =>
      match hexDigits.idxOf? high, hexDigits.idxOf? low with
      | some high, some low => do return UInt8.ofNat (16 * high + low) :: (← readHexDigits rest)
      | _, _ => .error "invalid hexadecimal digit"
  | _ => .error "odd number of hexadecimal digits"

theorem idxOf?_hexDigits : ∀ value < 16, hexDigits.idxOf? (hexDigits.getD value '0') = some value := by
  decide

theorem readHexDigits_hexText (bytes : Bytes) :
    readHexDigits (hexText bytes).toList = .ok bytes := by
  rw [hexText, String.toList_ofList]
  induction bytes with
  | nil => rfl
  | cons byte bytes hypothesis =>
      have small := byte.toNat_lt
      rw [List.flatMap_cons, List.cons_append, List.cons_append, List.nil_append, readHexDigits,
        idxOf?_hexDigits _ (by omega), idxOf?_hexDigits _ (by omega), hypothesis]
      dsimp only
      rw [Nat.div_add_mod, UInt8.ofNat_toNat]
      rfl

theorem slash_notMem_hexText (bytes : Bytes) : '/' ∉ (hexText bytes).toList := by
  rw [hexText, String.toList_ofList, List.mem_flatMap]
  rintro ⟨byte, -, member⟩
  have noDigit : ∀ value < 16, '/' ≠ hexDigits.getD value '0' := by decide
  have small := byte.toNat_lt
  simp only [List.mem_cons, List.not_mem_nil, or_false] at member
  rcases member with isHigh | isLow
  · exact noDigit _ (by omega) isHigh
  · exact noDigit _ (by omega) isLow

/-- The file of a directory is resolved. -/
theorem resolves_lonely :
    ∃ root later, importPath unaryFormat true (lonely "a") ⟨.memory, []⟩ = .ok ((.tree, root), later) ∧
      Resolves unaryFormat true hexText (fun text => readHexDigits text.toList) later root
        (lonely "a") ["a"] := by
  obtain ⟨root, later, ran⟩ :=
    exists_importPath_file noCollision_unaryFormat true "a" [] ⟨.memory, []⟩
  refine ⟨root, later, ran, ?_⟩
  refine (resolves_iff decode_unaryFormat readHexDigits_hexText slash_notMem_hexText
    (noCollision_unaryFormat _)
    (wellFormed_lonely ⟨by decide, by decide, by decide, by decide⟩)
    ⟨.tree, _, later, ran, List.suffix_refl _⟩ (by decide)).mpr ?_
  exact not_misled_of_follow rfl

/-- A tree object with an entry for a file that the store does not have. -/
def trapTree : TreeObject Bytes :=
  .collect [("x", ⟨[], .blob, 0⟩)]

/-- A directory with a file that is the text of this tree object. -/
noncomputable def trap : FileNode :=
  .directory [("f", .file (unaryText trapTree))]

theorem not_resolves_trap :
    ¬ ∀ (node : FileNode) (store later : Store) kind root (names : List String), node.WellFormed →
      importPath unaryFormat true node store = .ok ((kind, root), later) →
      (∀ name ∈ names, '/' ∉ name.toList) →
      Resolves unaryFormat true hexText (fun text => readHexDigits text.toList) later root node
        names := by
  intro holds
  obtain ⟨root, later, ran⟩ :=
    exists_importPath_file noCollision_unaryFormat true "f" (unaryText trapTree) ⟨.memory, []⟩
  have wellFormed : trap.WellFormed := by
    refine .directory (by simp) ?_ ?_
    · intro named member
      cases List.mem_singleton.mp member
      exact ⟨by decide, by decide, by decide, by decide⟩
    · intro named member
      cases List.mem_singleton.mp member
      exact .file _
  have nowhere : trap.follow ["f", "x"] = none := rfl
  have misled : Misled unaryFormat later trap ["f", "x"] :=
    ⟨["f"], _, ["x"], rfl, rfl, .last (decode_unaryFormat trapTree) rfl⟩
  have resolved := holds trap _ later .tree root ["f", "x"] wellFormed ran (by decide)
  rw [Resolves, nowhere, resolvePath_pathOf readHexDigits_hexText slash_notMem_hexText (by decide)]
    at resolved
  obtain ⟨error, failed⟩ := resolved
  obtain ⟨hash, walked⟩ := (exists_walkPath_iff_misled decode_unaryFormat
    (noCollision_unaryFormat _) wellFormed ⟨.tree, _, later, ran, List.suffix_refl _⟩ nowhere).mpr
    misled
  rw [failed] at walked
  cases walked

end RexLang
