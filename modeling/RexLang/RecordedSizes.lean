import RexLang.ContentStore

/-!
# Recorded sizes

The sum of the sizes in a tree object is exact as long as it fits in a `u64`, and then
`put_tree` writes what is true of the objects in the store.
-/

namespace RexLang

section Sums

variable {Hash : Type} {checks : Bool}

theorem addSize_of_lt {total size : Nat} (fits : total + size < 2 ^ 64) :
    (addSize checks total size : Except (StoreError Hash) Nat) = .ok (total + size) :=
  if_pos fits

/-- A sum that fits is exact, with and without overflow checks. -/
theorem foldlM_addSize {sizes : List Nat} {total : Nat} (fits : total + sizes.sum < 2 ^ 64) :
    (sizes.foldlM (addSize checks) total : Except (StoreError Hash) Nat) =
      .ok (total + sizes.sum) := by
  induction sizes generalizing total with
  | nil => rfl
  | cons size sizes hypothesis =>
      rw [List.sum_cons] at fits ⊢
      rw [List.foldlM_cons, addSize_of_lt (by omega)]
      change sizes.foldlM (addSize checks) (total + size) = _
      rw [hypothesis (by omega), Nat.add_assoc]

/-- A sum that does not fit panics with overflow checks. -/
theorem foldlM_addSize_overflow {sizes : List Nat} {total : Nat} (nonempty : sizes ≠ [])
    (large : 2 ^ 64 ≤ total + sizes.sum) :
    (sizes.foldlM (addSize true) total : Except (StoreError Hash) Nat) = .error .overflow := by
  induction sizes generalizing total with
  | nil => exact absurd rfl nonempty
  | cons size sizes hypothesis =>
      rw [List.sum_cons] at large
      rw [List.foldlM_cons]
      by_cases fits : total + size < 2 ^ 64
      · rw [addSize_of_lt fits]
        refine hypothesis ?_ (by omega)
        rintro rfl
        simp at large
        omega
      · rw [addSize, if_neg fits, if_pos rfl]
        rfl

end Sums

section PutTree

variable {Hash : Type} [DecidableEq Hash] {format : StorageFormat Hash} {store : Store}
  {checks : Bool}

/-- The object with everything that it records if it is a tree object. -/
def TreeObject.recordedSize (data : Bytes) (tree : TreeObject Hash) : Nat :=
  data.length + tree.sizes.sum

namespace Store

/-- The true size of an object: its length, and for a tree object what it records. -/
inductive HasSize (format : StorageFormat Hash) (store : Store) : EntryKind → Hash → Nat → Prop where
  | blob {hash data} (got : store.get format hash = .ok data) :
      HasSize format store .blob hash data.length
  | tree {hash data tree} (got : store.get format hash = .ok data)
      (decodes : format.decode data = some tree) :
      HasSize format store .tree hash (tree.recordedSize data)

theorem HasSize.unique {kind : EntryKind} {hash : Hash} {first second : Nat}
    (isFirst : store.HasSize format kind hash first)
    (isSecond : store.HasSize format kind hash second) : first = second := by
  cases isFirst with
  | blob got =>
      cases isSecond with
      | blob other =>
          rw [got] at other
          cases other
          rfl
  | tree got decodes =>
      cases isSecond with
      | tree other otherDecodes =>
          rw [got] at other
          cases other
          rw [decodes] at otherDecodes
          cases otherDecodes
          rfl

/-- The sizes that the tree object with the hash records pass `u64` in their sum. -/
def SumOverflows (format : StorageFormat Hash) (store : Store) (hash : Hash) : Prop :=
  ∃ data tree, store.get format hash = .ok data ∧ format.decode data = some tree ∧
    tree.sizes ≠ [] ∧ 2 ^ 64 ≤ tree.recordedSize data

/-- The object can be read as what the kind says. -/
def Readable (format : StorageFormat Hash) (store : Store) (kind : EntryKind) (hash : Hash) : Prop :=
  ∃ size, HasSize format store kind hash size

/-- A tree object among the new entries has sizes that pass `u64`, and every entry before
it can be read. -/
def CreationOverflows (format : StorageFormat Hash) (store : Store)
    (creations : SymbolMap (EntryKind × Hash)) : Prop :=
  ∃ before name hash after, creations = before ++ (name, .tree, hash) :: after ∧
    (∀ creation ∈ before, store.Readable format creation.2.1 creation.2.2) ∧
    store.SumOverflows format hash

/-- What is recorded for a new entry is true. -/
def Records (format : StorageFormat Hash) (store : Store) (creation : String × EntryKind × Hash)
    (entry : String × Entry Hash) : Prop :=
  entry.1 = creation.1 ∧ entry.2.kind = creation.2.1 ∧ entry.2.hash = creation.2.2 ∧
    store.HasSize format entry.2.kind entry.2.hash entry.2.size

/-- The call returns an error or writes a tree object of true entries, and no addition in
it panics or wraps. -/
structure PutTreeExact (format : StorageFormat Hash) (store : Store)
    (creations : SymbolMap (EntryKind × Hash)) : Prop where
  noOverflow : store.putTree format true creations ≠ .error .overflow
  exact : ∀ checks hash later, store.putTree format checks creations = .ok (hash, later) →
    ∃ entries, (hash, later) = store.put format (format.encode (.collect entries)) ∧
      List.Forall₂ (store.Records format) creations entries

theorem entrySize_of_hasSize {kind : EntryKind} {hash : Hash} {size : Nat}
    (hasSize : store.HasSize format kind hash size)
    (fits : kind = .tree → ¬store.SumOverflows format hash) :
    store.entrySize format checks kind hash = .ok size := by
  cases hasSize with
  | blob got => exact size_eq_ok_iff.mpr ⟨_, got, rfl⟩
  | @tree _ data tree got decodes =>
      rw [entrySize]
      refine bind_eq_ok.mpr ⟨data, got, ?_⟩
      simp only [decodes]
      by_cases empty : tree.sizes = []
      · rw [TreeObject.recordedSize, empty]
        rfl
      · refine foldlM_addSize (Nat.lt_of_not_le fun large => ?_)
        exact fits rfl ⟨data, tree, got, decodes, empty, large⟩

theorem entrySize_overflow {hash : Hash} (overflows : store.SumOverflows format hash) :
    store.entrySize format true .tree hash = .error .overflow := by
  obtain ⟨data, tree, got, decodes, nonempty, large⟩ := overflows
  have summed : (tree.sizes.foldlM (addSize true) data.length : Except (StoreError Hash) Nat) =
      .error .overflow := foldlM_addSize_overflow nonempty large
  simp only [entrySize, got, decodes, bind, Except.bind, summed]

theorem overflows_of_entrySize {kind : EntryKind} {hash : Hash}
    (overflow : store.entrySize format checks kind hash = .error .overflow) :
    kind = .tree ∧ store.SumOverflows format hash := by
  cases kind with
  | blob =>
      rw [entrySize, Store.size] at overflow
      split at overflow <;> cases overflow
  | tree =>
      refine ⟨rfl, by_contra fun fits => ?_⟩
      cases got : store.get format hash with
      | error error =>
          rw [entrySize, got] at overflow
          cases overflow
          rw [Store.get] at got
          split at got
          · cases got
          · split at got <;> cases got
      | ok data =>
          cases decodes : format.decode data with
          | none =>
              simp only [entrySize, got, decodes, bind, Except.bind] at overflow
              cases overflow
          | some tree =>
              rw [entrySize_of_hasSize (.tree got decodes) fun _ => fits] at overflow
              cases overflow

theorem hasSize_of_entrySize {kind : EntryKind} {hash : Hash} {size : Nat}
    (fits : kind = .tree → ¬store.SumOverflows format hash)
    (isSize : store.entrySize format checks kind hash = .ok size) :
    store.HasSize format kind hash size := by
  cases kind with
  | blob =>
      obtain ⟨data, got, rfl⟩ := size_eq_ok_iff.mp isSize
      exact .blob got
  | tree =>
      have sized := isSize
      rw [entrySize] at isSize
      obtain ⟨data, got, isSum⟩ := exists_of_bind_eq_ok isSize
      cases decodes : format.decode data with
      | none =>
          rw [decodes] at isSum
          cases isSum
      | some tree =>
          have hasSize := HasSize.tree got decodes
          have same : store.entrySize format checks .tree hash = .ok (tree.recordedSize data) :=
            entrySize_of_hasSize hasSize fits
          rw [sized] at same
          cases same
          exact hasSize

theorem records_of_createEntry {creation : String × EntryKind × Hash}
    {entry : String × Entry Hash}
    (fits : creation.2.1 = .tree → ¬store.SumOverflows format creation.2.2)
    (created : store.createEntry format checks creation = .ok entry) :
    store.Records format creation entry := by
  obtain ⟨size, isSize, isEntry⟩ := exists_of_bind_eq_ok created
  cases isEntry
  exact ⟨rfl, rfl, rfl, hasSize_of_entrySize fits isSize⟩

/-- Without overflow checks the first sum that passes `u64` is the one that panics with
them. -/
theorem mapM_createEntry_overflow {creations : SymbolMap (EntryKind × Hash)} :
    creations.mapM (store.createEntry format true) = .error .overflow ↔
      store.CreationOverflows format creations := by
  induction creations with
  | nil =>
      constructor
      · intro overflow
        cases overflow
      · rintro ⟨before, name, hash, after, isSplit, -⟩
        simp at isSplit
  | cons creation creations hypothesis =>
      obtain ⟨name, kind, hash⟩ := creation
      rw [List.mapM_cons]
      constructor
      · intro overflow
        cases isSize : store.entrySize format true kind hash with
        | error error =>
            simp only [createEntry, isSize, bind, Except.bind] at overflow
            cases overflow
            obtain ⟨rfl, overflows⟩ := overflows_of_entrySize isSize
            exact ⟨[], name, hash, creations, rfl, by simp, overflows⟩
        | ok size =>
            by_cases fits : kind = .tree → ¬store.SumOverflows format hash
            · have later : creations.mapM (store.createEntry format true) = .error .overflow := by
                simp only [createEntry, isSize, bind, Except.bind, pure, Except.pure] at overflow ⊢
                split at overflow
                · next isError =>
                    cases overflow
                    exact isError
                · cases overflow
              obtain ⟨before, other, otherHash, after, rfl, readable, overflows⟩ :=
                hypothesis.mp later
              refine ⟨(name, kind, hash) :: before, other, otherHash, after, rfl, ?_, overflows⟩
              exact List.forall_mem_cons.mpr ⟨⟨size, hasSize_of_entrySize fits isSize⟩, readable⟩
            · push Not at fits
              exact ⟨[], name, hash, creations, by rw [fits.1]; rfl, by simp, fits.2⟩
      · rintro ⟨before, other, otherHash, after, isSplit, readable, overflows⟩
        cases before with
        | nil =>
            cases isSplit
            simp only [createEntry, entrySize_overflow overflows, bind, Except.bind]
        | cons first before =>
            cases isSplit
            obtain ⟨⟨size, hasSize⟩, readable⟩ := List.forall_mem_cons.mp readable
            have later := hypothesis.mpr ⟨before, other, otherHash, after, rfl, readable, overflows⟩
            by_cases fits : kind = .tree → ¬store.SumOverflows format hash
            · have isSize : store.entrySize format true kind hash = .ok size :=
                entrySize_of_hasSize hasSize fits
              simp only [createEntry, isSize, bind, Except.bind, pure, Except.pure] at later ⊢
              rw [later]
            · push Not at fits
              obtain ⟨rfl, overflowsFirst⟩ := fits
              simp only [createEntry, entrySize_overflow overflowsFirst, bind, Except.bind]

theorem records_of_mapM {creations : SymbolMap (EntryKind × Hash)}
    (fits : ¬store.CreationOverflows format creations) {entries : List (String × Entry Hash)}
    (created : creations.mapM (store.createEntry format checks) = .ok entries) :
    List.Forall₂ (store.Records format) creations entries := by
  have all := forall₂_of_mapM created
  clear created
  induction all with
  | nil => exact .nil
  | @cons creation entry creations entries isEntry _ hypothesis =>
      obtain ⟨name, kind, hash⟩ := creation
      have records : store.Records format (name, kind, hash) entry := by
        refine records_of_createEntry (fun isTree overflows => fits ?_) isEntry
        exact ⟨[], name, hash, creations, by rw [← isTree]; rfl, by simp, overflows⟩
      refine .cons records (hypothesis fun overflows => fits ?_)
      obtain ⟨before, other, otherHash, after, rfl, readable, overflows⟩ := overflows
      refine ⟨(name, kind, hash) :: before, other, otherHash, after, rfl, ?_, overflows⟩
      obtain ⟨-, isKind, isHash, hasSize⟩ := records
      exact List.forall_mem_cons.mpr ⟨⟨entry.2.size, isKind ▸ isHash ▸ hasSize⟩, readable⟩

/-- `put_tree` is exact as long as no sum that it needs passes `u64`. -/
theorem putTreeExact_iff {creations : SymbolMap (EntryKind × Hash)} :
    store.PutTreeExact format creations ↔ ¬store.CreationOverflows format creations := by
  constructor
  · intro exact overflows
    refine exact.noOverflow ?_
    simp only [putTree, mapM_createEntry_overflow.2 overflows, bind, Except.bind]
  · intro fits
    refine ⟨fun overflow => fits (mapM_createEntry_overflow.1 ?_), ?_⟩
    · cases created : creations.mapM (store.createEntry format true) with
      | error error =>
          simp only [putTree, created, bind, Except.bind] at overflow
          cases overflow
          rfl
      | ok entries =>
          simp only [putTree, created, bind, Except.bind] at overflow
          cases overflow
    · intro checks hash later written
      obtain ⟨entries, created, isWritten⟩ := exists_of_bind_eq_ok written
      cases isWritten
      exact ⟨entries, rfl, records_of_mapM fits created⟩

end Store

end PutTree

end RexLang
