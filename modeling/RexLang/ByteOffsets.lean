import Mathlib.Algebra.Order.Ring.Nat
import Mathlib.Data.List.Infix

/-!
# Byte offsets

Positions in the UTF-8 encoding of a sequence of scalar values: which of them are
boundaries, splitting at a position, and the first place of one sequence in another.
-/

namespace RexLang

/-- The length of the UTF-8 encoding. -/
def byteLength (chars : List Char) : Nat :=
  (chars.map Char.utf8Size).sum

@[simp]
theorem byteLength_nil : byteLength [] = 0 := rfl

@[simp]
theorem byteLength_cons (char : Char) (chars : List Char) :
    byteLength (char :: chars) = char.utf8Size + byteLength chars := by
  rw [byteLength, List.map_cons, List.sum_cons, byteLength]

@[simp]
theorem byteLength_append (first second : List Char) :
    byteLength (first ++ second) = byteLength first + byteLength second := by
  rw [byteLength, List.map_append, List.sum_append, byteLength, byteLength]

/-- Each scalar value with the position where its encoding begins. -/
def charIndices : Nat → List Char → List (Nat × Char)
  | _, [] => []
  | offset, char :: chars => (offset, char) :: charIndices (offset + char.utf8Size) chars

/-- The positions of `charIndices` and the end are those before which a whole number of
scalar values stands. -/
theorem getElem?_charIndices (chars : List Char) (offset index : Nat) :
    ((charIndices offset chars).map Prod.fst ++ [offset + byteLength chars])[index]? =
      if index ≤ chars.length then some (offset + byteLength (chars.take index)) else none := by
  induction chars generalizing offset index with
  | nil =>
      cases index with
      | zero => simp [charIndices]
      | succ index => simp [charIndices]
  | cons char chars hypothesis =>
      cases index with
      | zero => simp [charIndices]
      | succ index =>
          have rest := hypothesis (offset + char.utf8Size) index
          rw [Nat.add_assoc] at rest
          simpa [charIndices, Nat.add_assoc] using rest

/-- Splits before a position, if it is a boundary. -/
def splitAtByte : List Char → Nat → Option (List Char × List Char)
  | chars, 0 => some ([], chars)
  | [], _ + 1 => none
  | char :: chars, offset =>
      if char.utf8Size ≤ offset then
        (splitAtByte chars (offset - char.utf8Size)).map fun (before, after) =>
          (char :: before, after)
      else none

theorem splitAtByte_append (before after : List Char) :
    splitAtByte (before ++ after) (byteLength before) = some (before, after) := by
  induction before with
  | nil => cases after <;> rfl
  | cons char before hypothesis =>
      obtain ⟨size, isSize⟩ := Nat.exists_eq_succ_of_ne_zero char.utf8Size_pos.ne'
      have length : byteLength (char :: before) = byteLength before + size + 1 := by
        rw [byteLength_cons, isSize]
        omega
      have rest : byteLength before + size + 1 - char.utf8Size = byteLength before := by omega
      rw [List.cons_append, length, splitAtByte.eq_def]
      simp only [rest, hypothesis, if_pos (show char.utf8Size ≤ byteLength before + size + 1 by omega)]
      rfl

/-- Splits before a position that has a number of scalar values before it. -/
theorem splitAtByte_take (chars : List Char) (index : Nat) :
    splitAtByte chars (byteLength (chars.take index)) =
      some (chars.take index, chars.drop index) := by
  have split := splitAtByte_append (chars.take index) (chars.drop index)
  rwa [List.take_append_drop] at split

/-- The part of a sequence between two positions, if they are boundaries. -/
def sliceBytes (chars : List Char) (start stop : Nat) : Option (List Char) :=
  if start ≤ stop then do
    let (_, after) ← splitAtByte chars start
    let (middle, _) ← splitAtByte after (stop - start)
    return middle
  else none

theorem sliceBytes_take (chars : List Char) {start stop : Nat} (ordered : start ≤ stop) :
    sliceBytes chars (byteLength (chars.take start)) (byteLength (chars.take stop)) =
      some ((chars.drop start).take (stop - start)) := by
  have split : chars.take stop = chars.take start ++ (chars.drop start).take (stop - start) := by
    rw [← List.take_add, Nat.add_sub_cancel' ordered]
  have length : byteLength (chars.take stop) =
      byteLength (chars.take start) + byteLength ((chars.drop start).take (stop - start)) := by
    rw [split, byteLength_append]
  rw [sliceBytes, if_pos (by omega), splitAtByte_take, length, Nat.add_sub_cancel_left]
  simp only [Option.bind_eq_bind, Option.bind_some, splitAtByte_take]
  rfl

/-- The position of the first place of a sequence in another. -/
def findBytes (needle : List Char) : Nat → List Char → Option Nat
  | offset, [] => if needle.isPrefixOf [] then some offset else none
  | offset, char :: chars =>
      if needle.isPrefixOf (char :: chars) then some offset
      else findBytes needle (offset + char.utf8Size) chars

/-- Whether a sequence has a place in another. -/
def containsChars (needle : List Char) : List Char → Bool
  | [] => needle.isPrefixOf []
  | char :: chars => needle.isPrefixOf (char :: chars) || containsChars needle chars

/-- The first place of a sequence in another, and how many scalar values are before it. -/
theorem findBytes_cases (needle chars : List Char) (offset : Nat) :
    (∃ index ≤ chars.length, findBytes needle offset chars =
        some (offset + byteLength (chars.take index)) ∧ needle <+: chars.drop index ∧
        (∀ earlier < index, ¬needle <+: chars.drop earlier) ∧ containsChars needle chars) ∨
      findBytes needle offset chars = none ∧ (∀ index, ¬needle <+: chars.drop index) ∧
        containsChars needle chars = false := by
  induction chars generalizing offset with
  | nil =>
      by_cases found : needle.isPrefixOf []
      · refine .inl ⟨0, le_rfl, ?_, List.isPrefixOf_iff_prefix.mp found, by simp, found⟩
        rw [findBytes, if_pos found]
        rfl
      · refine .inr ⟨if_neg found, fun index => ?_, Bool.eq_false_iff.mpr found⟩
        rw [List.drop_nil]
        exact fun isPrefix => found (List.isPrefixOf_iff_prefix.mpr isPrefix)
  | cons char chars hypothesis =>
      by_cases found : needle.isPrefixOf (char :: chars)
      · refine .inl ⟨0, Nat.zero_le _, ?_, List.isPrefixOf_iff_prefix.mp found, by simp, ?_⟩
        · rw [findBytes, if_pos found]
          rfl
        · rw [containsChars, found, Bool.true_or]
      · have notHere : ¬needle <+: char :: chars :=
          fun isPrefix => found (List.isPrefixOf_iff_prefix.mpr isPrefix)
        rw [findBytes, if_neg found, containsChars, Bool.eq_false_iff.mpr found,
          Bool.false_or]
        rcases hypothesis (offset + char.utf8Size) with
          ⟨index, within, same, isPrefix, least, contains⟩ | ⟨missing, nowhere, absent⟩
        · refine .inl ⟨index + 1, Nat.succ_le_succ within, ?_, isPrefix, ?_, contains⟩
          · rw [same, List.take_succ_cons, byteLength_cons, Nat.add_assoc]
          · intro earlier before
            cases earlier with
            | zero => exact notHere
            | succ earlier => exact least earlier (Nat.lt_of_succ_lt_succ before)
        · refine .inr ⟨missing, fun index => ?_, absent⟩
          cases index with
          | zero => exact notHere
          | succ index => exact nowhere index

end RexLang
