import Mathlib.Data.List.Basic

/-!
# Joined lists

Lists that are joined with a separator: their elements, their images and their parts.
-/

namespace RexLang

theorem intercalate_cons {First : Type} (separator first : List First)
    (lists : List (List First)) :
    separator.intercalate (first :: lists) = first ++ lists.flatMap (separator ++ ·) := by
  induction lists generalizing first with
  | nil => simp
  | cons second lists hypothesis =>
      rw [List.intercalate_cons_cons, hypothesis, List.flatMap_cons, List.append_assoc,
        List.append_assoc]

theorem flatMap_intercalate {First Second : Type} (image : First → List Second)
    (separator : List First) (lists : List (List First)) :
    (separator.intercalate lists).flatMap image =
      (separator.flatMap image).intercalate (lists.map (·.flatMap image)) := by
  induction lists with
  | nil => rfl
  | cons first lists hypothesis =>
      cases lists with
      | nil => simp
      | cons second lists =>
          rw [List.intercalate_cons_cons, List.flatMap_append, List.flatMap_append, hypothesis,
            List.map_cons, List.map_cons, List.map_cons, List.intercalate_cons_cons]

theorem mem_intercalate {First : Type} {separator : List First} {lists : List (List First)}
    {first : First} (member : first ∈ separator.intercalate lists) :
    first ∈ separator ∨ ∃ list ∈ lists, first ∈ list := by
  induction lists with
  | nil => cases member
  | cons list lists hypothesis =>
      cases lists with
      | nil =>
          rw [List.intercalate_singleton] at member
          exact .inr ⟨list, List.mem_singleton_self list, member⟩
      | cons second lists =>
          rw [List.intercalate_cons_cons, List.mem_append, List.mem_append] at member
          rcases member with (member | member) | member
          · exact .inr ⟨list, List.mem_cons_self, member⟩
          · exact .inl member
          · exact (hypothesis member).imp_right fun ⟨other, isOther, inside⟩ =>
              ⟨other, .tail _ isOther, inside⟩

theorem mem_intercalate_of_mem {First : Type} {separator : List First} {lists : List (List First)}
    {list : List First} (isList : list ∈ lists) {first : First} (member : first ∈ list) :
    first ∈ separator.intercalate lists := by
  induction lists with
  | nil => cases isList
  | cons other lists hypothesis =>
      cases lists with
      | nil =>
          rw [List.mem_singleton] at isList
          rwa [List.intercalate_singleton, ← isList]
      | cons second lists =>
          rw [List.intercalate_cons_cons, List.mem_append]
          rcases List.mem_cons.mp isList with rfl | isLater
          · exact .inl (List.mem_append_left _ member)
          · exact .inr (hypothesis isLater)

/-- What holds of the separator holds of a joined list if and only if it holds of its parts. -/
theorem forall_mem_intercalate {First : Type} {holds : First → Prop} {separator : List First}
    (onSeparator : ∀ first ∈ separator, holds first) {lists : List (List First)} :
    (∀ first ∈ separator.intercalate lists, holds first) ↔
      ∀ list ∈ lists, ∀ first ∈ list, holds first := by
  constructor
  · intro all list isList first member
    exact all first (mem_intercalate_of_mem isList member)
  · intro all first member
    rcases mem_intercalate member with inSeparator | ⟨list, isList, inside⟩
    · exact onSeparator first inSeparator
    · exact all list isList first inside

end RexLang
