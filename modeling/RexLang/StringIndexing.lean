import RexLang.ByteOffsets
import RexLang.IntegerPrimitives

/-!
# Indices in strings

The string builtins that take or return indices.  The host library counts bytes, the
builtins count Unicode scalar values.
-/

namespace RexLang

/-! ## Builtins -/

/-- `string_to_chars`. -/
def stringToChars (input : String) : List Char :=
  input.toList

/-- `string_get`. -/
def stringGet (index : Nat) (input : String) : Option Char :=
  input.toList[index]?

/-- `scalar_boundary`; an index of 64 bits is an index of the host. -/
def scalarBoundary (input : String) (index : Nat) : Option Nat :=
  ((charIndices 0 input.toList).map Prod.fst ++ [byteLength input.toList])[index]?

/-- `string_slice`. -/
def stringSlice (start stop : Nat) (input : String) : Option String :=
  if stop < start then none
  else do
    let start ← scalarBoundary input start
    let stop ← scalarBoundary input stop
    (sliceBytes input.toList start stop).map String.ofList

/-- `string_contains`. -/
def stringContains (needle haystack : String) : Bool :=
  containsChars needle.toList haystack.toList

/-- `string_find`.  Taking the text before a position panics if that is no boundary. -/
def stringFind (needle haystack : String) : PrimResult (Option Nat) :=
  match findBytes needle.toList 0 haystack.toList with
  | none => .value none
  | some byteIndex =>
      match splitAtByte haystack.toList byteIndex with
      | some (before, _) => .value (some before.length)
      | none => .panic

/-! ## Scalar values -/

theorem scalarBoundary_eq (input : String) (index : Nat) :
    scalarBoundary input index =
      if index ≤ (stringToChars input).length then
        some (byteLength ((stringToChars input).take index)) else none := by
  have boundary := getElem?_charIndices input.toList 0 index
  simp only [Nat.zero_add] at boundary
  exact boundary

/-- A slice is the characters at the positions between its indices, and there is one exactly
for indices in order up to the length. -/
theorem stringSlice_eq (start stop : Nat) (input : String) :
    stringSlice start stop input =
      if start ≤ stop ∧ stop ≤ (stringToChars input).length then
        some (String.ofList (((stringToChars input).drop start).take (stop - start)))
      else none := by
  rw [stringSlice]
  by_cases ordered : start ≤ stop
  · rw [if_neg (Nat.not_lt.mpr ordered), scalarBoundary_eq, scalarBoundary_eq]
    by_cases within : stop ≤ (stringToChars input).length
    · rw [if_pos (ordered.trans within), if_pos within, if_pos ⟨ordered, within⟩]
      simp only [Option.bind_eq_bind, Option.bind_some]
      rw [stringToChars, sliceBytes_take input.toList ordered]
      rfl
    · simp [within]
  · rw [if_pos (Nat.not_le.mp ordered), if_neg fun both => ordered both.1]

/-- A needle is found at the least index where it stands, and one that is not contained is not
found. -/
theorem stringFind_cases (needle haystack : String) :
    (∃ index ≤ (stringToChars haystack).length, stringFind needle haystack = .value (some index) ∧
        stringToChars needle <+: (stringToChars haystack).drop index ∧
        (∀ earlier < index, ¬stringToChars needle <+: (stringToChars haystack).drop earlier) ∧
        stringContains needle haystack) ∨
      stringFind needle haystack = .value none ∧
        (∀ index, ¬stringToChars needle <+: (stringToChars haystack).drop index) ∧
        stringContains needle haystack = false := by
  rcases findBytes_cases needle.toList haystack.toList 0 with
    ⟨index, within, found, isPrefix, least, contains⟩ | ⟨missing, nowhere, absent⟩
  · refine .inl ⟨index, within, ?_, isPrefix, least, contains⟩
    rw [Nat.zero_add] at found
    rw [stringFind, found]
    simp only [splitAtByte_take]
    rw [List.length_take, Nat.min_eq_left within]
  · refine .inr ⟨?_, nowhere, absent⟩
    rw [stringFind, missing]

/-- A slice of the length of the needle is the needle where the needle stands. -/
theorem stringSlice_eq_needle_iff (needle haystack : String) (index : Nat) :
    stringSlice index (index + (stringToChars needle).length) haystack = some needle ↔
      index ≤ (stringToChars haystack).length ∧
        stringToChars needle <+: (stringToChars haystack).drop index := by
  rw [stringSlice_eq, Nat.add_sub_cancel_left, List.prefix_iff_eq_take]
  constructor
  · intro same
    split at same
    · next within =>
        have isNeedle := congrArg stringToChars (Option.some.inj same)
        rw [stringToChars, String.toList_ofList] at isNeedle
        exact ⟨by omega, isNeedle.symm⟩
    · cases same
  · rintro ⟨within, isNeedle⟩
    have length := congrArg List.length isNeedle
    rw [List.length_take, List.length_drop] at length
    rw [if_pos ⟨Nat.le_add_right _ _, by omega⟩, ← isNeedle, stringToChars, String.ofList_toList]

/-- Slices, single characters and the positions that are found count the same scalar values,
and no argument panics. -/
theorem stringIndices_agree (needle input : String) (start stop : Nat) :
    ((stringSlice start stop input).isSome ↔
      start ≤ stop ∧ stop ≤ (stringToChars input).length) ∧
    (∀ slice ∈ stringSlice start stop input,
      stringToChars slice = ((stringToChars input).drop start).take (stop - start)) ∧
    stringGet start input = (stringToChars input)[start]? ∧
    (start ≤ (stringToChars input).length →
      ∃ before after, stringSlice 0 start input = some before ∧
        stringSlice start (stringToChars input).length input = some after ∧
        before ++ after = input) ∧
    ∃ found, stringFind needle input = .value found ∧
      (∀ index, found = some index ↔ IsLeast { index |
        stringSlice index (index + (stringToChars needle).length) input = some needle } index) ∧
      (found = none ↔ stringContains needle input = false) := by
  refine ⟨?_, ?_, rfl, fun within => ?_, ?_⟩
  · rw [stringSlice_eq]
    split
    · next both => exact iff_of_true rfl both
    · next notBoth => exact iff_of_false (Bool.false_ne_true) notBoth
  · intro slice isSlice
    rw [stringSlice_eq] at isSlice
    split at isSlice
    · rw [← Option.some.inj isSlice, stringToChars, String.toList_ofList]
    · cases isSlice
  · refine ⟨String.ofList ((stringToChars input).take start),
      String.ofList ((stringToChars input).drop start), ?_, ?_, ?_⟩
    · rw [stringSlice_eq, if_pos ⟨Nat.zero_le start, within⟩, List.drop_zero, Nat.sub_zero]
    · rw [stringSlice_eq, if_pos ⟨within, le_rfl⟩, ← List.length_drop, List.take_length]
    · rw [← String.ofList_append, List.take_append_drop, stringToChars, String.ofList_toList]
  · rcases stringFind_cases needle input with
      ⟨index, within, found, isPrefix, least, contains⟩ | ⟨missing, nowhere, absent⟩
    · have isLeast : IsLeast { index | stringSlice index
          (index + (stringToChars needle).length) input = some needle } index := by
        refine ⟨(stringSlice_eq_needle_iff needle input index).mpr ⟨within, isPrefix⟩, ?_⟩
        intro other isNeedle
        by_contra earlier
        exact least other (Nat.not_le.mp earlier)
          ((stringSlice_eq_needle_iff needle input other).mp isNeedle).2
      refine ⟨some index, found, fun other => ⟨?_, fun other => ?_⟩, ?_⟩
      · intro same
        cases same
        exact isLeast
      · exact congrArg some (isLeast.unique other)
      · rw [contains]
        exact iff_of_false (by simp) (by simp)
    · refine ⟨none, missing, fun index => ⟨fun same => (nomatch same), fun least => ?_⟩,
        iff_of_true rfl absent⟩
      exact absurd ((stringSlice_eq_needle_iff needle input index).mp least.1).2 (nowhere index)

end RexLang
