import Mathlib.Algebra.Order.Ring.Nat
import RexLang.FallibleResults
import RexLang.SymbolMaps

/-!
# The content store

An object of the store is a byte string that is found by its hash.  A tree object is the
encoding of a map from names to entries, and the size of an entry for a tree counts the
tree object with everything that it records.
-/

namespace RexLang

abbrev Bytes :=
  List UInt8

inductive EntryKind where
  | blob
  | tree
deriving DecidableEq

structure Entry (Hash : Type) where
  hash : Hash
  kind : EntryKind
  size : Nat
deriving DecidableEq

/-- A map from names to entries, in the order of the names. -/
structure TreeObject (Hash : Type) where
  entries : SymbolMap (Entry Hash)
  ordered : Ordered entries

/-- The hash function, and the encoding of tree objects as JSON text. -/
structure StorageFormat (Hash : Type) where
  hash : Bytes → Hash
  encode : TreeObject Hash → Bytes
  decode : Bytes → Option (TreeObject Hash)

/-- The errors of the store; `overflow` is the panic of an addition with overflow checks. -/
inductive StoreError (Hash : Type) where
  | notFound (hash : Hash)
  | invalidHash (expected found : Hash)
  | notADirectory (hash : Hash)
  | json
  | overflow

/-- Where the objects are: the store in memory overwrites an object that has the hash of
a new one, the store in files keeps it. -/
inductive Backend where
  | memory
  | filesystem

/-- A store with everything that was put into it, the newest first. -/
structure Store where
  backend : Backend
  puts : List Bytes

/-- The map with the entries of a list. -/
def TreeObject.collect {Hash : Type} (entries : List (String × Entry Hash)) : TreeObject Hash :=
  ⟨collectMap entries, ordered_collectMap entries⟩

/-- The sizes that a tree object records. -/
def TreeObject.sizes {Hash : Type} (tree : TreeObject Hash) : List Nat :=
  tree.entries.map (·.2.size)

section Operations

variable {Hash : Type} [DecidableEq Hash] (format : StorageFormat Hash)

namespace Store

/-- The bytes that the backend has under a hash. -/
def find (store : Store) (hash : Hash) : Option Bytes :=
  match store.backend with
  | .memory => store.puts.find? (format.hash · = hash)
  | .filesystem => store.puts.reverse.find? (format.hash · = hash)

/-- `Store::get`. -/
def get (store : Store) (hash : Hash) : Except (StoreError Hash) Bytes :=
  match store.find format hash with
  | none => .error (.notFound hash)
  | some data =>
      if format.hash data = hash then .ok data
      else .error (.invalidHash hash (format.hash data))

/-- `Store::size`. -/
def size (store : Store) (hash : Hash) : Except (StoreError Hash) Nat :=
  match store.find format hash with
  | none => .error (.notFound hash)
  | some data => .ok data.length

/-- `Store::put`. -/
def put (store : Store) (data : Bytes) : Hash × Store :=
  (format.hash data, { store with puts := data :: store.puts })

/-- `Store::get_tree`. -/
def getTree (store : Store) (hash : Hash) : Except (StoreError Hash) (TreeObject Hash) := do
  let data ← store.get format hash
  match format.decode data with
  | some tree => return tree
  | none => throw (.notADirectory hash)

end Store

/-- The addition of two `u64` values: without overflow checks the sum is wrapped. -/
def addSize (checks : Bool) (total size : Nat) : Except (StoreError Hash) Nat :=
  if total + size < 2 ^ 64 then .ok (total + size)
  else if checks then .error .overflow
  else .ok ((total + size) % 2 ^ 64)

variable (checks : Bool)

namespace Store

/-- The size of a new entry in `put_tree`. -/
def entrySize (store : Store) : EntryKind → Hash → Except (StoreError Hash) Nat
  | .blob, hash => store.size format hash
  | .tree, hash => do
      let data ← store.get format hash
      match format.decode data with
      | some tree => tree.sizes.foldlM (addSize checks) data.length
      | none => throw .json

/-- A new entry with its name. -/
def createEntry (store : Store) (creation : String × EntryKind × Hash) :
    Except (StoreError Hash) (String × Entry Hash) := do
  let size ← store.entrySize format checks creation.2.1 creation.2.2
  return (creation.1, ⟨creation.2.2, creation.2.1, size⟩)

/-- `Store::put_tree`. -/
def putTree (store : Store) (creations : SymbolMap (EntryKind × Hash)) :
    Except (StoreError Hash) (Hash × Store) := do
  let entries ← creations.mapM (store.createEntry format checks)
  return store.put format (format.encode (.collect entries))

end Store

end Operations

/-! ## What is found -/

section Lookups

variable {Hash : Type} [DecidableEq Hash] {format : StorageFormat Hash} {store : Store}
  {hash : Hash} {data : Bytes}

namespace Store

theorem find_eq_some (found : store.find format hash = some data) :
    data ∈ store.puts ∧ format.hash data = hash := by
  rw [find] at found
  split at found
  · exact ⟨List.mem_of_find?_eq_some found, by simpa using List.find?_some found⟩
  · exact ⟨List.mem_reverse.mp (List.mem_of_find?_eq_some found),
      by simpa using List.find?_some found⟩

theorem isSome_find (member : data ∈ store.puts) :
    (store.find format (format.hash data)).isSome := by
  rw [find]
  split
  · exact List.find?_isSome.mpr ⟨data, member, by simp⟩
  · exact List.find?_isSome.mpr ⟨data, List.mem_reverse.mpr member, by simp⟩

/-- No two objects of the store have one hash. -/
def NoCollision (format : StorageFormat Hash) (store : Store) : Prop :=
  Set.InjOn format.hash {data | data ∈ store.puts}

theorem get_eq_ok_iff_find : store.get format hash = .ok data ↔ store.find format hash = some data := by
  rw [get]
  cases found : store.find format hash with
  | none => simp
  | some other => simp [(find_eq_some found).2]

theorem of_get_eq_ok (got : store.get format hash = .ok data) :
    data ∈ store.puts ∧ format.hash data = hash :=
  find_eq_some (get_eq_ok_iff_find.1 got)

theorem size_eq_ok_iff {size : Nat} :
    store.size format hash = .ok size ↔
      ∃ data, store.get format hash = .ok data ∧ data.length = size := by
  simp only [get_eq_ok_iff_find]
  rw [Store.size]
  cases store.find format hash with
  | none => simp
  | some other => simp

/-- Without collisions an object is found under its hash. -/
theorem NoCollision.get (noCollision : NoCollision format store) (member : data ∈ store.puts) :
    store.get format (format.hash data) = .ok data := by
  have isFound : (store.find format (format.hash data)).isSome := isSome_find member
  obtain ⟨other, found⟩ := Option.isSome_iff_exists.mp isFound
  obtain ⟨isObject, sameHash⟩ := find_eq_some found
  rw [get_eq_ok_iff_find, found, noCollision isObject member sameHash]

theorem getTree_eq_ok {tree : TreeObject Hash} :
    store.getTree format hash = .ok tree ↔
      ∃ data, store.get format hash = .ok data ∧ format.decode data = some tree := by
  rw [getTree, bind_eq_ok]
  refine exists_congr fun data => and_congr_right fun _ => ?_
  cases format.decode data with
  | none => simp [throw, throwThe, MonadExceptOf.throw]
  | some other => simp [pure, Except.pure]

end Store

end Lookups

end RexLang
