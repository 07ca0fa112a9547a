import RexLang.TransferredObjects
import RexLang.UnaryFormat

/-!
# The outputs of a job

The sizes that are computed before the transfers are those that are copied, so that the
limit holds for what is copied.
-/

namespace RexLang

open Relation

section Outputs

variable {Hash : Type} [DecidableEq Hash] {format : StorageFormat Hash} {checks : Bool}
  {source : Store}

omit [DecidableEq Hash] in
theorem foldlM_checkedAdd {error : TransferError Hash} {sizes : List Nat} {total sum : Nat}
    (added : sizes.foldlM (checkedAdd error) total = .ok sum) : sum = total + sizes.sum := by
  induction sizes generalizing total with
  | nil =>
      cases added
      rfl
  | cons size sizes hypothesis =>
      rw [List.foldlM_cons] at added
      obtain ⟨middle, isMiddle, added⟩ := exists_of_bind_eq_ok added
      rw [checkedAdd] at isMiddle
      split_ifs at isMiddle
      cases isMiddle
      rw [hypothesis added, List.sum_cons, Nat.add_assoc]

/-- What is computed before the transfer is the true size. -/
theorem remoteObjectSize_eq {kind : EntryKind} {hash : Hash} {size beforehand : Nat}
    (deep : source.DeepSize format kind hash size)
    (isSize : remoteObjectSize format source kind hash = .ok beforehand) : beforehand = size := by
  cases deep with
  | @blob _ data got =>
      obtain ⟨other, gotOther, rfl⟩ := Store.size_eq_ok_iff.mp (withError_eq_ok.mp isSize)
      rw [got] at gotOther
      cases gotOther
      rfl
  | @tree _ data tree got decodes _ =>
      obtain ⟨length, isLength, isSize⟩ := exists_of_bind_eq_ok isSize
      obtain ⟨otherTree, isTree, isSum⟩ := exists_of_bind_eq_ok isSize
      obtain ⟨other, gotOther, rfl⟩ := Store.size_eq_ok_iff.mp (withError_eq_ok.mp isLength)
      obtain ⟨another, gotAnother, decodesOther⟩ :=
        Store.getTree_eq_ok.mp (withError_eq_ok.mp isTree)
      rw [got] at gotOther gotAnother
      cases gotOther
      cases gotAnother
      rw [decodes] at decodesOther
      cases decodesOther
      exact foldlM_checkedAdd isSum

/-- The object has a true size in the source and in the destination. -/
def InBoth (format : StorageFormat Hash) (source later : Store) (kind : EntryKind) (hash : Hash) :
    Prop :=
  ∃ size, source.DeepSize format kind hash size ∧ later.DeepSize format kind hash size

theorem InBoth.mono {later last : Store} (noCollision : Store.NoCollision format last)
    (kept : ∀ data ∈ later.puts, data ∈ last.puts) {kind : EntryKind} {hash : Hash}
    (inBoth : InBoth format source later kind hash) : InBoth format source last kind hash := by
  obtain ⟨size, inSource, inLater⟩ := inBoth
  exact ⟨size, inSource, inLater.mono noCollision kept⟩

variable (inverse : ∀ tree, format.decode (format.encode tree) = some tree) {used : Set Bytes}
  (noCollision : Set.InjOn format.hash used) (sourceUsed : ∀ data ∈ source.puts, data ∈ used)
  {limit fuel : Nat}

include inverse noCollision sourceUsed

theorem copies_of_transferOutput {kind : EntryKind} {hash : Hash} {state last : Nat × Store}
    (fits : SumsFit format source kind hash) (isUsed : ∀ data ∈ last.2.puts, data ∈ used)
    (runs : transferOutput format checks source limit fuel kind state hash = .ok last) :
    ∃ size, last.1 = state.1 + size ∧ Copies state.2 last.2 size ∧
      InBoth format source last.2 kind hash := by
  obtain ⟨beforehand, isSize, runs⟩ := exists_of_bind_eq_ok runs
  obtain ⟨bytes, isSum, runs⟩ := exists_of_bind_eq_ok runs
  split_ifs at runs
  obtain ⟨later, transferred, isLast⟩ := exists_of_bind_eq_ok runs
  cases isLast
  obtain ⟨size, copies, inSource, inLater⟩ :=
    transferred_of_transferObject inverse noCollision sourceUsed fits isUsed transferred
  rw [checkedAdd] at isSum
  split_ifs at isSum
  cases isSum
  exact ⟨size, by rw [remoteObjectSize_eq inSource isSize], copies, size, inSource, inLater⟩

omit inverse noCollision sourceUsed in
theorem le_of_transferOutput {kind : EntryKind} {hash : Hash} {state last : Nat × Store}
    (runs : transferOutput format checks source limit fuel kind state hash = .ok last) :
    last.1 ≤ limit := by
  obtain ⟨beforehand, -, runs⟩ := exists_of_bind_eq_ok runs
  obtain ⟨bytes, -, runs⟩ := exists_of_bind_eq_ok runs
  split_ifs at runs with limited
  obtain ⟨later, -, isLast⟩ := exists_of_bind_eq_ok runs
  cases isLast
  exact Nat.le_of_not_lt limited

/-- The sum is what is copied, and every object that is named is in the source and in the
destination. -/
def CopiesEach (format : StorageFormat Hash) (source : Store) (named : EntryKind × Hash → Prop)
    (state last : Nat × Store) : Prop :=
  ∃ size, last.1 = state.1 + size ∧ Copies state.2 last.2 size ∧
    ∀ object, named object → InBoth format source last.2 object.1 object.2

omit inverse sourceUsed in
theorem copiesEach_foldlM {Element : Type}
    {step : Nat × Store → Element → Except (TransferError Hash) (Nat × Store)}
    {named : Element → EntryKind × Hash → Prop} {elements : List Element}
    (each : ∀ element ∈ elements, ∀ {state last}, (∀ data ∈ last.2.puts, data ∈ used) →
      step state element = .ok last → CopiesEach format source (named element) state last)
    {state last : Nat × Store} (isUsed : ∀ data ∈ last.2.puts, data ∈ used)
    (runs : elements.foldlM step state = .ok last) :
    CopiesEach format source (fun object => ∃ element ∈ elements, named element object) state last := by
  induction elements generalizing state with
  | nil =>
      cases runs
      exact ⟨0, rfl, .refl _, by simp⟩
  | cons element elements hypothesis =>
      rw [List.foldlM_cons] at runs
      obtain ⟨middle, head, tail⟩ := exists_of_bind_eq_ok runs
      obtain ⟨sizeRest, sumRest, copiesRest, areRest⟩ :=
        hypothesis (fun other member => each other (.tail _ member)) tail
      have middleUsed : ∀ data ∈ middle.2.puts, data ∈ used :=
        fun data member => isUsed data (copiesRest.subset data member)
      obtain ⟨size, sum, copies, are⟩ := each element List.mem_cons_self middleUsed head
      refine ⟨size + sizeRest, by omega, copies.trans copiesRest, ?_⟩
      rintro object ⟨other, member, isNamed⟩
      obtain rfl | member := List.mem_cons.mp member
      · exact (are object isNamed).mono (Set.InjOn.mono isUsed noCollision) copiesRest.subset
      · exact areRest object ⟨other, member, isNamed⟩

/-- The objects that the outputs name, with the kinds that are declared for them. -/
def OutputNames (declared : List OutputKind) (output : Nat × List Hash)
    (object : EntryKind × Hash) : Prop :=
  ∃ kind, declared[output.1]? = some kind ∧ object.1 = kind.entryKind ∧ object.2 ∈ output.2

theorem copiesEach_of_transferOutputs {declared : List OutputKind} {output : Nat × List Hash}
    {state last : Nat × Store}
    (fits : ∀ object, OutputNames declared output object → SumsFit format source object.1 object.2)
    (isUsed : ∀ data ∈ last.2.puts, data ∈ used)
    (runs : transferOutputs format checks source limit fuel declared state output = .ok last) :
    CopiesEach format source (OutputNames declared output) state last := by
  rw [transferOutputs] at runs
  cases isKind : declared[output.1]? with
  | none =>
      rw [isKind] at runs
      cases runs
  | some kind =>
      simp only [isKind] at runs
      split_ifs at runs
      obtain ⟨size, sum, copies, are⟩ := copiesEach_foldlM noCollision
        (fun hash member _ _ lastUsed ran => by
          obtain ⟨size, sum, copies, inBoth⟩ := copies_of_transferOutput inverse noCollision
            sourceUsed (fits (kind.entryKind, hash) ⟨kind, isKind, rfl, member⟩) lastUsed ran
          exact ⟨size, sum, copies, fun object (isObject : object = (kind.entryKind, hash)) =>
            isObject ▸ inBoth⟩) isUsed runs
      refine ⟨size, sum, copies, ?_⟩
      rintro object ⟨other, isOther, isEntryKind, member⟩
      rw [isKind] at isOther
      cases isOther
      exact are object ⟨object.2, member, Prod.ext isEntryKind rfl⟩

/-- The outputs of a job together are within the limit. -/
theorem collectOutputs_le {declared : List OutputKind} {outputs : List (Nat × List Hash)}
    {destination later : Store} {outputBytes : Nat}
    (fits : ∀ output ∈ outputs, ∀ object, OutputNames declared output object →
      SumsFit format source object.1 object.2)
    (isUsed : ∀ data ∈ later.puts, data ∈ used)
    (runs : collectOutputs format checks source limit fuel declared outputs destination =
      .ok (outputBytes, later)) :
    outputBytes ≤ limit ∧ Copies destination later outputBytes ∧
      ∀ output ∈ outputs, ∀ object, OutputNames declared output object →
        InBoth format source later object.1 object.2 := by
  rw [collectOutputs] at runs
  split_ifs at runs
  have within : outputBytes ≤ limit := by
    refine foldlM_invariant (fun state => state.1 ≤ limit) (fun state output next atMost ran => ?_)
      (Nat.zero_le limit) runs
    rw [transferOutputs] at ran
    split at ran
    · cases ran
    · split_ifs at ran
      exact foldlM_invariant (fun state => state.1 ≤ limit)
        (fun _ _ _ _ step => le_of_transferOutput step) atMost ran
  obtain ⟨size, sum, copies, are⟩ := copiesEach_foldlM noCollision
    (fun output member _ _ lastUsed ran => copiesEach_of_transferOutputs inverse noCollision
      sourceUsed (fits output member) lastUsed ran) isUsed runs
  have isSize : outputBytes = size := sum.trans (Nat.zero_add size)
  exact ⟨within, isSize ▸ copies, fun output member object isNamed =>
    are object ⟨output, member, isNamed⟩⟩

end Outputs

/-! ## Recorded sizes -/

theorem Store.exists_of_deepSize_tree {Hash : Type} [DecidableEq Hash]
    {format : StorageFormat Hash} {store : Store} {hash : Hash} {size : Nat}
    (deep : store.DeepSize format .tree hash size) :
    ∃ data tree, store.get format hash = .ok data ∧ format.decode data = some tree ∧
      ∀ entry ∈ tree.entries, store.DeepSize format entry.2.kind entry.2.hash entry.2.size := by
  cases deep with
  | tree got decodes children => exact ⟨_, _, got, decodes, children⟩

section Claim

variable {Hash : Type} [DecidableEq Hash] {format : StorageFormat Hash}

theorem InBoth.of_reaches {used : Set Bytes} (noCollision : Set.InjOn format.hash used)
    {source later : Store} (sourceUsed : ∀ data ∈ source.puts, data ∈ used)
    (laterUsed : ∀ data ∈ later.puts, data ∈ used) {kind : EntryKind} {hash : Hash}
    (inBoth : InBoth format source later kind hash) {object : EntryKind × Hash}
    (reached : ReflTransGen (source.NamesObject format) (kind, hash) object) :
    InBoth format source later object.1 object.2 := by
  induction reached with
  | refl => exact inBoth
  | @tail parent child _ names hypothesis =>
      obtain ⟨isTree, data, tree, got, decodes, entry, member, rfl⟩ := names
      obtain ⟨size, inSource, inLater⟩ := hypothesis
      rw [isTree] at inSource inLater
      obtain ⟨dataSource, treeSource, gotSource, decodesSource, children⟩ :=
        Store.exists_of_deepSize_tree inSource
      obtain ⟨dataLater, treeLater, gotLater, decodesLater, childrenLater⟩ :=
        Store.exists_of_deepSize_tree inLater
      obtain ⟨isObject, isHash⟩ := Store.of_get_eq_ok gotSource
      obtain ⟨isLater, isLaterHash⟩ := Store.of_get_eq_ok gotLater
      have same := noCollision (sourceUsed _ isObject) (laterUsed _ isLater)
        (isHash.trans isLaterHash.symm)
      rw [got] at gotSource
      cases gotSource
      rw [decodes] at decodesSource
      cases decodesSource
      rw [← same, decodes] at decodesLater
      cases decodesLater
      exact ⟨_, children entry member, childrenLater entry member⟩

end Claim

/-- A directory with one file. -/
def oneFile : TreeObject Bytes :=
  .collect [("file", ⟨[1, 2, 3], .blob, 3⟩)]

/-- A store with the directory and its file. -/
noncomputable def oneFileStore : Store :=
  ⟨.memory, [unaryText oneFile, [1, 2, 3]]⟩

theorem transferObject_oneFile :
    transferObject unaryFormat true oneFileStore 2 ⟨.filesystem, []⟩ .tree (unaryText oneFile) =
      .ok ⟨.filesystem, [unaryText oneFile, [1, 2, 3]]⟩ := by
  have noCollision (store : Store) : store.NoCollision unaryFormat := noCollision_unaryFormat _
  have gotTree : oneFileStore.getTree unaryFormat (unaryText oneFile) = .ok oneFile :=
    Store.getTree_eq_ok.mpr ⟨_, (noCollision _).get List.mem_cons_self, decode_eq_some_iff.mpr rfl⟩
  have gotFile : oneFileStore.get unaryFormat [1, 2, 3] = .ok [1, 2, 3] :=
    (noCollision _).get (.tail _ List.mem_cons_self)
  have transferred : transferObject unaryFormat true oneFileStore 1 ⟨.filesystem, []⟩ .blob
      [1, 2, 3] = .ok ⟨.filesystem, [[1, 2, 3]]⟩ :=
    bind_eq_ok.mpr ⟨_, withError_eq_ok.mpr gotFile, keepIdentity_eq_ok.mpr rfl⟩
  have stored : (⟨.filesystem, [[1, 2, 3]]⟩ : Store).putTree unaryFormat true
      [("file", .blob, [1, 2, 3])] =
        .ok (unaryText oneFile, ⟨.filesystem, [unaryText oneFile, [1, 2, 3]]⟩) := rfl
  rw [transferObject]
  refine bind_eq_ok.mpr ⟨oneFile, withError_eq_ok.mpr gotTree, ?_⟩
  refine bind_eq_ok.mpr ⟨⟨.filesystem, [[1, 2, 3]]⟩, ?_, ?_⟩
  · exact bind_eq_ok.mpr ⟨_, transferred, rfl⟩
  · exact bind_eq_ok.mpr ⟨_, withError_eq_ok.mpr stored, keepIdentity_eq_ok.mpr rfl⟩

/-- A tree object with the largest size. -/
def forgedTree : TreeObject Bytes :=
  .collect [("file", ⟨[], .blob, 2 ^ 64 - 1⟩)]

/-- The store after the tree object was put as bytes. -/
noncomputable def forgedStore : Store :=
  ((⟨.memory, []⟩ : Store).put unaryFormat (unaryText forgedTree)).2

end RexLang
