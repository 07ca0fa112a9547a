import Mathlib.Data.Set.Operations
import Mathlib.Logic.Equiv.List
import Mathlib.Logic.Function.Basic
import RexLang.ContentStore

/-!
# A storage format

A format whose encoding is one-to-one and in which no two objects have one hash: tree
objects are numbers in unary notation, and an object is its own hash.
-/

namespace RexLang

/-- What a tree object says, in numbers. -/
def TreeObject.numbers (tree : TreeObject Bytes) : List (List Nat × List Nat × Bool × Nat) :=
  tree.entries.map fun entry => (entry.1.toList.map Char.toNat, entry.2.hash.map UInt8.toNat,
    decide (entry.2.kind = .tree), entry.2.size)

/-- The number of the tree object in unary notation. -/
def unaryText (tree : TreeObject Bytes) : Bytes :=
  List.replicate (Encodable.encode tree.numbers + 1) 0

theorem unaryText_injective : Function.Injective unaryText := by
  intro first second same
  have sameNumbers : first.numbers = second.numbers := by
    have lengths := congrArg List.length same
    simp only [unaryText, List.length_replicate] at lengths
    exact Encodable.encode_injective (Nat.succ.inj lengths)
  have eachNumber : Function.Injective fun entry : String × Entry Bytes =>
      (entry.1.toList.map Char.toNat, entry.2.hash.map UInt8.toNat,
        decide (entry.2.kind = .tree), entry.2.size) := by
    rintro ⟨name, hash, kind, size⟩ ⟨otherName, otherHash, otherKind, otherSize⟩ numbers
    simp only [Prod.mk.injEq] at numbers
    obtain ⟨sameName, sameHash, sameKind, rfl⟩ := numbers
    have isName : name = otherName := String.toList_injective
      (List.map_injective_iff.mpr (fun _ _ => Char.toNat_inj.mp) sameName)
    have isHash : hash = otherHash :=
      List.map_injective_iff.mpr (fun _ _ => UInt8.toNat_inj.mp) sameHash
    have isKind : kind = otherKind := by
      cases kind <;> cases otherKind <;> simp_all
    rw [isName, isHash, isKind]
  obtain ⟨entries, ordered⟩ := first
  obtain ⟨otherEntries, otherOrdered⟩ := second
  have sameEntries : entries = otherEntries :=
    List.map_injective_iff.mpr eachNumber sameNumbers
  subst sameEntries
  rfl

/-- Every object is its own hash. -/
noncomputable def unaryFormat : StorageFormat Bytes where
  hash := id
  encode := unaryText
  decode := Function.partialInv unaryText

theorem decode_unaryFormat (tree : TreeObject Bytes) :
    unaryFormat.decode (unaryFormat.encode tree) = some tree :=
  Function.partialInv_left unaryText_injective tree

theorem noCollision_unaryFormat (used : Set Bytes) : Set.InjOn unaryFormat.hash used :=
  Function.injective_id.injOn

theorem decode_eq_some_iff {data : Bytes} {tree : TreeObject Bytes} :
    unaryFormat.decode data = some tree ↔ unaryText tree = data :=
  unaryText_injective.isPartialInv tree data

theorem unaryText_ne {data : Bytes} (other : data.head? ≠ some 0) (tree : TreeObject Bytes) :
    unaryText tree ≠ data := by
  rintro rfl
  exact other rfl

end RexLang
