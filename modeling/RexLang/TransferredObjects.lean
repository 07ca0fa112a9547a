import Mathlib.Algebra.Order.Ring.Nat
import Mathlib.Data.Set.Function
import RexLang.ObjectTransfer

/-!
# Transferred objects

A transfer that succeeds has copied what the sizes say, and everything that the object
names is in the destination with true sizes.
-/

namespace RexLang

open Relation

section Sizes

variable {Hash : Type} [DecidableEq Hash] {format : StorageFormat Hash} {store later : Store}

namespace Store

/-- The size is true, and so are the sizes that the object records, and those that they
count, down to the blobs. -/
inductive DeepSize (format : StorageFormat Hash) (store : Store) : EntryKind → Hash → Nat → Prop where
  | blob {hash data} (got : store.get format hash = .ok data) :
      DeepSize format store .blob hash data.length
  | tree {hash data tree} (got : store.get format hash = .ok data)
      (decodes : format.decode data = some tree)
      (children : ∀ entry ∈ tree.entries,
        DeepSize format store entry.2.kind entry.2.hash entry.2.size) :
      DeepSize format store .tree hash (tree.recordedSize data)

theorem DeepSize.hasSize {kind : EntryKind} {hash : Hash} {size : Nat}
    (deep : store.DeepSize format kind hash size) : store.HasSize format kind hash size := by
  cases deep with
  | blob got => exact .blob got
  | tree got decodes => exact .tree got decodes

/-- What is found stays when more is put. -/
theorem get_of_subset (noCollision : NoCollision format later)
    (kept : ∀ data ∈ store.puts, data ∈ later.puts) {hash : Hash} {data : Bytes}
    (got : store.get format hash = .ok data) : later.get format hash = .ok data := by
  obtain ⟨member, rfl⟩ := of_get_eq_ok got
  exact noCollision.get (kept data member)

theorem DeepSize.mono (noCollision : NoCollision format later)
    (kept : ∀ data ∈ store.puts, data ∈ later.puts) {kind : EntryKind} {hash : Hash} {size : Nat}
    (deep : store.DeepSize format kind hash size) : later.DeepSize format kind hash size := by
  induction deep with
  | blob got => exact .blob (get_of_subset noCollision kept got)
  | tree got decodes _ hypothesis =>
      exact .tree (get_of_subset noCollision kept got) decodes hypothesis

/-- The second object is named by an entry of the first one. -/
def NamesObject (format : StorageFormat Hash) (store : Store) (parent child : EntryKind × Hash) :
    Prop :=
  parent.1 = .tree ∧ ∃ data tree, store.get format parent.2 = .ok data ∧
    format.decode data = some tree ∧ ∃ entry ∈ tree.entries, child = (entry.2.kind, entry.2.hash)

end Store

end Sizes

/-! ## The transfer of one object -/

section Transfer

variable {Hash : Type} [DecidableEq Hash] {format : StorageFormat Hash} {checks : Bool}
  {source : Store}

/-- No tree object below the object records sizes that pass `u64` in their sum. -/
def SumsFit (format : StorageFormat Hash) (source : Store) (kind : EntryKind) (hash : Hash) : Prop :=
  ∀ object, TransGen (source.NamesObject format) (kind, hash) object → object.1 = .tree →
    ¬source.SumOverflows format object.2

/-- The bytes that were put into the second store and not into the first one. -/
def Copies (store later : Store) (size : Nat) : Prop :=
  ∃ written, later = { store with puts := written ++ store.puts } ∧
    (written.map List.length).sum = size

theorem Copies.refl (store : Store) : Copies store store 0 :=
  ⟨[], rfl, rfl⟩

theorem Copies.trans {first second third : Store} {size other : Nat}
    (before : Copies first second size) (after : Copies second third other) :
    Copies first third (size + other) := by
  obtain ⟨written, rfl, rfl⟩ := before
  obtain ⟨more, rfl, rfl⟩ := after
  exact ⟨more ++ written, by simp, by simp; omega⟩

theorem Copies.subset {store later : Store} {size : Nat} (copies : Copies store later size) :
    ∀ data ∈ store.puts, data ∈ later.puts := by
  obtain ⟨written, rfl, -⟩ := copies
  exact fun data member => List.mem_append_right _ member

omit [DecidableEq Hash] in
theorem copies_put (format : StorageFormat Hash) (store : Store) (data : Bytes) :
    Copies store (store.put format data).2 data.length :=
  ⟨[data], rfl, by simp⟩

/-- The object is copied, and has the size in the source and in the destination. -/
structure Transferred (format : StorageFormat Hash) (source destination later : Store)
    (kind : EntryKind) (hash : Hash) (size : Nat) : Prop where
  copies : Copies destination later size
  inSource : source.DeepSize format kind hash size
  inDestination : later.DeepSize format kind hash size

theorem SumsFit.child {kind : EntryKind} {hash : Hash} (fits : SumsFit format source kind hash)
    {child : EntryKind × Hash} (names : source.NamesObject format (kind, hash) child) :
    SumsFit format source child.1 child.2 :=
  fun object below => fits object (.head names below)

theorem keepIdentity_eq_ok {hash : Hash} {transferred : Hash × Store} {later : Store} :
    keepIdentity hash transferred = .ok later ↔ transferred = (hash, later) := by
  obtain ⟨found, store⟩ := transferred
  rw [keepIdentity]
  split_ifs with same
  · simp [show found = hash from same]
  · simp [show found ≠ hash from same]

/-- What the entries of a tree give together. -/
theorem transferred_foldlM {used : Set Bytes} (noCollision : Set.InjOn format.hash used)
    {transfer : Store → EntryKind → Hash → Except (TransferError Hash) Store}
    {entries : List (String × Entry Hash)} {destination later : Store}
    (each : ∀ entry ∈ entries, ∀ {before after}, (∀ data ∈ after.puts, data ∈ used) →
      transfer before entry.2.kind entry.2.hash = .ok after →
        ∃ size, Transferred format source before after entry.2.kind entry.2.hash size)
    (isUsed : ∀ data ∈ later.puts, data ∈ used)
    (runs : entries.foldlM (fun destination entry =>
      transfer destination entry.2.kind entry.2.hash) destination = .ok later) :
    ∃ sizes, Copies destination later sizes.sum ∧
      List.Forall₂ (fun entry size => source.DeepSize format entry.2.kind entry.2.hash size ∧
        later.DeepSize format entry.2.kind entry.2.hash size) entries sizes := by
  induction entries generalizing destination with
  | nil =>
      cases runs
      exact ⟨[], .refl _, .nil⟩
  | cons entry entries hypothesis =>
      rw [List.foldlM_cons] at runs
      obtain ⟨middle, head, tail⟩ := exists_of_bind_eq_ok runs
      obtain ⟨sizes, copies, all⟩ :=
        hypothesis (fun other member => each other (.tail _ member)) tail
      have middleUsed : ∀ data ∈ middle.puts, data ∈ used :=
        fun data member => isUsed data (copies.subset data member)
      obtain ⟨size, transferred⟩ := each entry List.mem_cons_self middleUsed head
      refine ⟨size :: sizes, transferred.copies.trans copies, .cons ⟨transferred.inSource, ?_⟩ all⟩
      exact transferred.inDestination.mono (Set.InjOn.mono isUsed noCollision) copies.subset

theorem map_fst_of_records {store : Store} {creations : SymbolMap (EntryKind × Hash)}
    {entries : List (String × Entry Hash)}
    (records : List.Forall₂ (store.Records format) creations entries) :
    entries.map Prod.fst = creations.map Prod.fst := by
  induction records with
  | nil => rfl
  | cons isRecorded _ hypothesis => rw [List.map_cons, List.map_cons, isRecorded.1, hypothesis]

omit [DecidableEq Hash] in
theorem ordered_creations (tree : TreeObject Hash) : Ordered (tree.entries.map creationOf) := by
  rw [Ordered, List.map_map]
  exact tree.ordered

/-- What overflows in the destination overflows in the source. -/
theorem sumOverflows_of_both {used : Set Bytes} (noCollision : Set.InjOn format.hash used)
    (sourceUsed : ∀ data ∈ source.puts, data ∈ used) {store : Store}
    (isUsed : ∀ data ∈ store.puts, data ∈ used) {hash : Hash} {size : Nat}
    (inSource : source.DeepSize format .tree hash size) (overflows : store.SumOverflows format hash) :
    source.SumOverflows format hash := by
  obtain ⟨data, tree, got, decodes, nonempty, large⟩ := overflows
  cases inSource with
  | @tree _ other _ gotOther _ _ =>
      obtain ⟨member, isHash⟩ := Store.of_get_eq_ok got
      obtain ⟨otherMember, otherHash⟩ := Store.of_get_eq_ok gotOther
      have same : data = other :=
        noCollision (isUsed data member) (sourceUsed other otherMember) (isHash.trans otherHash.symm)
      exact ⟨data, tree, same ▸ gotOther, decodes, nonempty, large⟩

/-- The sizes that were recorded are the sizes that were copied. -/
theorem sizes_of_records {store : Store} {entries : List (String × Entry Hash)} {sizes : List Nat}
    (all : List.Forall₂ (fun entry size => source.DeepSize format entry.2.kind entry.2.hash size ∧
      store.DeepSize format entry.2.kind entry.2.hash size) entries sizes)
    (recorded : ∀ entry ∈ entries, store.HasSize format entry.2.kind entry.2.hash entry.2.size) :
    sizes = entries.map (·.2.size) := by
  induction all with
  | nil => rfl
  | cons deep _ hypothesis =>
      rw [List.forall_mem_cons] at recorded
      rw [List.map_cons, deep.2.hasSize.unique recorded.1, hypothesis recorded.2]

/-- The tree that is built again is the tree of the source. -/
theorem eq_of_rebuilt (inverse : ∀ tree, format.decode (format.encode tree) = some tree)
    {used : Set Bytes} (noCollision : Set.InjOn format.hash used) {store : Store} {data : Bytes}
    {hash : Hash} {tree : TreeObject Hash} (isUsed : data ∈ used) (isHash : format.hash data = hash)
    (decodes : format.decode data = some tree) {entries : List (String × Entry Hash)}
    (records : List.Forall₂ (store.Records format) (collectMap (tree.entries.map creationOf)) entries)
    (rebuiltUsed : format.encode (.collect entries) ∈ used)
    (rebuilt : format.hash (format.encode (.collect entries)) = hash) :
    data = format.encode (.collect entries) ∧ tree.entries = entries := by
  have sameData : data = format.encode (.collect entries) :=
    noCollision isUsed rebuiltUsed (isHash.trans rebuilt.symm)
  have isCollected : tree = .collect entries := by
    rw [sameData, inverse] at decodes
    exact (Option.some.inj decodes).symm
  have orderedEntries : Ordered entries := by
    rw [Ordered, map_fst_of_records records, collectMap_of_ordered (ordered_creations tree)]
    exact ordered_creations tree
  refine ⟨sameData, ?_⟩
  rw [isCollected]
  exact collectMap_of_ordered orderedEntries

/-- A transfer that succeeds copies the object with everything that it names, and all
sizes are true. -/
theorem transferred_of_transferObject
    (inverse : ∀ tree, format.decode (format.encode tree) = some tree) {used : Set Bytes}
    (noCollision : Set.InjOn format.hash used) (sourceUsed : ∀ data ∈ source.puts, data ∈ used)
    {fuel : Nat} {destination later : Store} {kind : EntryKind} {hash : Hash}
    (fits : SumsFit format source kind hash) (isUsed : ∀ data ∈ later.puts, data ∈ used)
    (runs : transferObject format checks source fuel destination kind hash = .ok later) :
    ∃ size, Transferred format source destination later kind hash size := by
  induction fuel generalizing destination later kind hash with
  | zero => cases runs
  | succ fuel hypothesis =>
      have laterNoCollision : Store.NoCollision format later := Set.InjOn.mono isUsed noCollision
      cases kind with
      | blob =>
          obtain ⟨data, got, kept⟩ := exists_of_bind_eq_ok runs
          have found := withError_eq_ok.mp got
          obtain ⟨isHash, rfl⟩ := Prod.mk.inj (keepIdentity_eq_ok.1 kept)
          refine ⟨data.length, copies_put format destination data, .blob found, .blob ?_⟩
          rw [← isHash]
          exact laterNoCollision.get (copies_put format destination data |>.elim fun _ _ => List.mem_cons_self)
      | tree =>
          rw [transferObject] at runs
          obtain ⟨tree, gotTree, runs⟩ := exists_of_bind_eq_ok runs
          obtain ⟨middle, children, runs⟩ := exists_of_bind_eq_ok runs
          obtain ⟨⟨transferred, last⟩, stored, kept⟩ := exists_of_bind_eq_ok runs
          obtain ⟨rfl, rfl⟩ := Prod.mk.inj (keepIdentity_eq_ok.1 kept)
          obtain ⟨data, got, decodes⟩ := Store.getTree_eq_ok.mp (withError_eq_ok.mp gotTree)
          obtain ⟨member, isHash⟩ := Store.of_get_eq_ok got
          have sourceNoCollision : Store.NoCollision format source :=
            Set.InjOn.mono sourceUsed noCollision
          obtain ⟨entries, created, isPut⟩ := exists_of_bind_eq_ok (withError_eq_ok.mp stored)
          cases isPut
          have middleUsed : ∀ data ∈ middle.puts, data ∈ used :=
            fun data member => isUsed data (.tail _ member)
          have names (entry : String × Entry Hash) (member : entry ∈ tree.entries) :
              source.NamesObject format (.tree, format.hash (format.encode (.collect entries)))
                (entry.2.kind, entry.2.hash) :=
            ⟨rfl, data, tree, got, decodes, entry, member, rfl⟩
          obtain ⟨sizes, copies, all⟩ := transferred_foldlM noCollision
            (fun entry member _ _ afterUsed runs =>
              hypothesis (fits.child (names entry member)) afterUsed runs) middleUsed children
          have noOverflow : ¬middle.CreationOverflows format
              (collectMap (tree.entries.map creationOf)) := by
            rintro ⟨before, name, child, after, isSplit, -, overflows⟩
            rw [collectMap_of_ordered (ordered_creations tree)] at isSplit
            have isCreation : (name, .tree, child) ∈ tree.entries.map creationOf := by
              rw [isSplit]
              simp
            obtain ⟨entry, isEntry, same⟩ := List.mem_map.mp isCreation
            have isTree : entry.2.kind = .tree := congrArg (·.2.1) same
            have isChild : entry.2.hash = child := congrArg (·.2.2) same
            obtain ⟨size, -, inSource, -⟩ := exists_of_forall₂_mem_left all isEntry
            rw [isTree] at inSource
            refine fits _ (.single (names entry isEntry)) isTree ?_
            exact sumOverflows_of_both noCollision sourceUsed middleUsed inSource (isChild ▸ overflows)
          have records := Store.records_of_mapM noOverflow created
          obtain ⟨sameData, sameEntries⟩ := eq_of_rebuilt inverse noCollision (sourceUsed data member)
            isHash decodes records (isUsed _ List.mem_cons_self) rfl
          have recorded : ∀ entry ∈ tree.entries,
              middle.HasSize format entry.2.kind entry.2.hash entry.2.size := by
            intro entry member
            rw [sameEntries] at member
            obtain ⟨_, -, -, -, -, hasSize⟩ := exists_of_forall₂_mem_right records member
            exact hasSize
          have areSizes : sizes = tree.sizes := sizes_of_records all recorded
          have deep : ∀ entry ∈ tree.entries,
              source.DeepSize format entry.2.kind entry.2.hash entry.2.size ∧
                middle.DeepSize format entry.2.kind entry.2.hash entry.2.size := by
            intro entry member
            obtain ⟨size, -, inSource, inMiddle⟩ := exists_of_forall₂_mem_left all member
            have same := inMiddle.hasSize.unique (recorded entry member)
            exact ⟨same ▸ inSource, same ▸ inMiddle⟩
          subst sameData
          have copied := copies.trans (copies_put format middle (format.encode (.collect entries)))
          rw [areSizes, Nat.add_comm] at copied
          refine ⟨tree.recordedSize _, copied, .tree got decodes fun entry member =>
            (deep entry member).1, .tree ?_ decodes fun entry member => ?_⟩
          · exact laterNoCollision.get List.mem_cons_self
          · exact (deep entry member).2.mono laterNoCollision fun data inside => .tail _ inside

end Transfer

end RexLang
