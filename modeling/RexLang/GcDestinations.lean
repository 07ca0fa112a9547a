import Mathlib.Data.List.Perm.Basic
import RexLang.Heap

/-!
# Destinations of a collection

Whatever the random state, the randomised destinations are a permutation of the
slots of the new heap.
-/

namespace RexLang

theorem swap_perm (values : List Nat) (first second : Nat) :
    (swap values first second).Perm values := by
  rw [swap]
  split
  · next one other foundFirst foundSecond =>
      obtain ⟨boundFirst, rfl⟩ := List.getElem?_eq_some_iff.mp foundFirst
      obtain ⟨boundSecond, rfl⟩ := List.getElem?_eq_some_iff.mp foundSecond
      exact List.set_set_perm boundFirst boundSecond
  · exact .refl _

theorem shuffle_perm (indices : List Nat) (state : UInt64) (destinations : List Nat) :
    (shuffle indices state destinations).Perm destinations := by
  induction indices generalizing state destinations with
  | nil => exact .refl _
  | cons index indices hypothesis =>
      rw [shuffle]
      exact (hypothesis _ _).trans (swap_perm _ _ _)

/-- The values at distinct positions make room for the new ones. -/
theorem count_setAll {stores : List (Nat × Nat)} {values : List Nat}
    (nodup : (stores.map Prod.fst).Nodup) (bounded : ∀ store ∈ stores, store.1 < values.length)
    (value : Nat) :
    (setAll stores values).count value +
        (stores.map fun store => values[store.1]?.getD 0).count value =
      values.count value + (stores.map Prod.snd).count value := by
  induction stores generalizing values with
  | nil => simp [setAll]
  | cons store stores hypothesis =>
      obtain ⟨position, stored⟩ := store
      simp only [List.map_cons, List.nodup_cons] at nodup
      have inBounds : position < values.length := bounded _ (.head _)
      have rest := @hypothesis (values.set position stored) nodup.2
        (fun store member => by simpa using bounded store (.tail _ member))
      have others : (stores.map fun store => (values.set position stored)[store.1]?.getD 0) =
          stores.map fun store => values[store.1]?.getD 0 := by
        refine List.map_congr_left fun store member => ?_
        have different : position ≠ store.1 := by
          rintro rfl
          exact nodup.1 (List.mem_map_of_mem member)
        rw [List.getElem?_set_ne different]
      rw [others, List.count_set inBounds] at rest
      have present : values[position] ∈ values := List.getElem_mem inBounds
      have positive := List.count_pos_iff.mpr present
      simp only [setAll, List.map_cons, List.count_cons, List.getElem?_eq_getElem inBounds,
        Option.getD_some]
      by_cases same : values[position] = value
      · rw [same] at positive
        simp only [same, beq_self_eq_true, if_true] at rest ⊢
        split_ifs at rest ⊢ <;> omega
      · simp only [same, beq_iff_eq, if_false] at rest ⊢
        split_ifs at rest ⊢ <;> omega

/-- Storing the values at distinct positions in another order keeps them all. -/
theorem setAll_zip_perm {positions targets values : List Nat} (nodup : positions.Nodup)
    (bounded : ∀ position ∈ positions, position < values.length)
    (permuted : targets.Perm (positions.map fun position => values[position]?.getD 0)) :
    (setAll (positions.zip targets) values).Perm values := by
  have length := permuted.length_eq
  rw [List.length_map] at length
  have firsts : (positions.zip targets).map Prod.fst = positions := List.map_fst_zip length.ge
  have seconds : (positions.zip targets).map Prod.snd = targets := List.map_snd_zip length.le
  have distinct : ((positions.zip targets).map Prod.fst).Nodup := by rwa [firsts]
  have olds : ((positions.zip targets).map fun store => values[store.1]?.getD 0) =
      ((positions.zip targets).map Prod.fst).map fun position => values[position]?.getD 0 := by
    rw [List.map_map]
    rfl
  rw [List.perm_iff_count]
  intro value
  have stored := count_setAll distinct
    (fun store member => bounded store.1 (List.of_mem_zip member).1) value
  rw [olds, firsts, seconds, permuted.count_eq value] at stored
  omega

theorem repairFixed_perm (destinations oldIndices : List Nat) :
    (repairFixed destinations oldIndices).Perm destinations := by
  rw [repairFixed]
  split
  · exact .refl _
  · split
    · exact swap_perm _ _ _
    · exact .refl _
  · refine setAll_zip_perm (List.nodup_range.filter _) ?_ (List.rotate_perm _ 1)
    exact fun position member => List.mem_range.mp (List.mem_of_mem_filter member)

theorem randomizedGcDestinations_perm (oldIndices : List Nat) (completedCollections : Nat) :
    (randomizedGcDestinations oldIndices completedCollections).Perm
      (List.range oldIndices.length) :=
  (repairFixed_perm _ _).trans (shuffle_perm _ _ _)

/-! ## No object keeps its slot -/

theorem mem_fixedPositions_iff {destinations oldIndices : List Nat} {position : Nat} :
    position ∈ fixedPositions destinations oldIndices ↔
      position < destinations.length ∧ destinations[position]? = oldIndices[position]? := by
  rw [fixedPositions, List.mem_filter, List.mem_range, decide_eq_true_iff]

theorem getElem?_setAll_of_not_mem {stores : List (Nat × Nat)} {values : List Nat} {position : Nat}
    (notStored : position ∉ stores.map Prod.fst) :
    (setAll stores values)[position]? = values[position]? := by
  induction stores generalizing values with
  | nil => rfl
  | cons store stores hypothesis =>
      obtain ⟨first, value⟩ := store
      rw [List.map_cons, List.mem_cons, not_or] at notStored
      rw [setAll, hypothesis notStored.2, List.getElem?_set_ne (Ne.symm notStored.1)]

theorem getElem?_setAll_of_mem {stores : List (Nat × Nat)} {values : List Nat}
    {position value : Nat} (nodup : (stores.map Prod.fst).Nodup)
    (member : (position, value) ∈ stores) (bounded : position < values.length) :
    (setAll stores values)[position]? = some value := by
  induction stores generalizing values with
  | nil => cases member
  | cons store stores hypothesis =>
      rw [List.map_cons, List.nodup_cons] at nodup
      rcases List.mem_cons.mp member with rfl | later
      · rw [setAll, getElem?_setAll_of_not_mem nodup.1, List.getElem?_set_self bounded]
      · exact hypothesis nodup.2 later (by simpa using bounded)

/-- A swap moves exactly the two values. -/
theorem getElem?_swap {values : List Nat} {first second : Nat} (boundFirst : first < values.length)
    (boundSecond : second < values.length) (position : Nat) :
    (swap values first second)[position]? =
      if position = second then values[first]?
      else if position = first then values[second]?
      else values[position]? := by
  rw [swap, List.getElem?_eq_getElem boundFirst, List.getElem?_eq_getElem boundSecond]
  dsimp only
  by_cases isSecond : position = second
  · subst isSecond
    rw [if_pos rfl, List.getElem?_set_self (by simpa using boundSecond)]
  · rw [if_neg isSecond, List.getElem?_set_ne (Ne.symm isSecond)]
    by_cases isFirst : position = first
    · subst isFirst
      rw [if_pos rfl, List.getElem?_set_self boundFirst]
    · rw [if_neg isFirst, List.getElem?_set_ne (Ne.symm isFirst)]

section Repair

variable {destinations oldIndices : List Nat} (length : destinations.length = oldIndices.length)
  (nodup : destinations.Nodup) (oldNodup : oldIndices.Nodup)

/-- Two positions of a list without duplicates hold different values. -/
theorem getElem?_ne {values : List Nat} {first second : Nat} (nodup : values.Nodup)
    (bounded : first < values.length) (different : first ≠ second) :
    values[first]? ≠ values[second]? := by
  intro same
  exact different ((List.getElem?_inj bounded nodup).mp same)

include length nodup oldNodup

/-- A lone fixed position is swapped with its neighbour. -/
theorem swap_moves {fixed : Nat} (several : 1 < destinations.length)
    (isFixed : fixedPositions destinations oldIndices = [fixed]) {position : Nat}
    (bounded : position < destinations.length) :
    (swap destinations fixed ((fixed + 1) % destinations.length))[position]? ≠
      oldIndices[position]? := by
  obtain ⟨boundFixed, same⟩ := mem_fixedPositions_iff.1 (isFixed ▸ List.mem_singleton_self fixed)
  have boundNext : (fixed + 1) % destinations.length < destinations.length :=
    Nat.mod_lt _ (by omega)
  have different : (fixed + 1) % destinations.length ≠ fixed := by
    by_cases last : fixed + 1 = destinations.length
    · rw [last, Nat.mod_self]
      omega
    · rw [Nat.mod_eq_of_lt (by omega)]
      omega
  rw [getElem?_swap boundFixed boundNext]
  split_ifs with isNext isFixedPosition
  · subst isNext
    rw [same]
    exact getElem?_ne oldNodup (length ▸ boundFixed) different.symm
  · subst isFixedPosition
    rw [← same]
    exact getElem?_ne nodup boundNext different
  · intro stays
    have member := mem_fixedPositions_iff.2 ⟨bounded, stays⟩
    rw [isFixed, List.mem_singleton] at member
    exact isFixedPosition member

omit nodup in
/-- Several fixed positions exchange their values. -/
theorem rotate_moves {fixed : List Nat} (several : 1 < fixed.length)
    (isFixed : fixedPositions destinations oldIndices = fixed) {position : Nat}
    (bounded : position < destinations.length) :
    (setAll (fixed.zip ((fixed.map fun position => destinations[position]?.getD 0).rotate 1))
      destinations)[position]? ≠ oldIndices[position]? := by
  have distinct : fixed.Nodup := by
    rw [← isFixed]
    exact List.nodup_range.filter _
  have firsts : (fixed.zip ((fixed.map fun position => destinations[position]?.getD 0).rotate
      1)).map Prod.fst = fixed := List.map_fst_zip (by simp)
  by_cases member : position ∈ fixed
  · obtain ⟨index, inFixed, rfl⟩ := List.getElem_of_mem member
    -- The position gets the value of the next fixed position, in which that value was fixed.
    have inNext : (index + 1) % fixed.length < fixed.length := Nat.mod_lt _ (by omega)
    have isOther : (index + 1) % fixed.length ≠ index := by
      by_cases last : index + 1 = fixed.length
      · rw [last, Nat.mod_self]
        omega
      · rw [Nat.mod_eq_of_lt (by omega)]
        omega
    have nextFixed : fixed[(index + 1) % fixed.length] ∈ fixedPositions destinations oldIndices := by
      rw [isFixed]
      exact List.getElem_mem inNext
    obtain ⟨boundOther, same⟩ := mem_fixedPositions_iff.1 nextFixed
    have stored : (fixed[index], destinations[fixed[(index + 1) % fixed.length]]?.getD 0) ∈
        fixed.zip ((fixed.map fun position => destinations[position]?.getD 0).rotate 1) := by
      refine List.mem_of_getElem? (i := index) ?_
      rw [List.getElem?_zip_eq_some]
      refine ⟨List.getElem?_eq_getElem inFixed, ?_⟩
      rw [List.getElem?_rotate (by simpa using inFixed), List.length_map, List.getElem?_map,
        List.getElem?_eq_getElem inNext]
      rfl
    rw [getElem?_setAll_of_mem (by rwa [firsts]) stored bounded,
      List.getElem?_eq_getElem boundOther, Option.getD_some, ← List.getElem?_eq_getElem boundOther,
      same]
    refine getElem?_ne oldNodup (length ▸ boundOther) fun samePosition => isOther ?_
    exact (List.Nodup.getElem_inj_iff distinct).mp samePosition
  · rw [getElem?_setAll_of_not_mem (by rwa [firsts])]
    intro stays
    exact member (isFixed ▸ mem_fixedPositions_iff.2 ⟨bounded, stays⟩)

/-- No position is fixed after the repair. -/
theorem repairFixed_moves (several : 1 < destinations.length) {position : Nat}
    (bounded : position < destinations.length) :
    (repairFixed destinations oldIndices)[position]? ≠ oldIndices[position]? := by
  rw [repairFixed]
  split
  · next isFixed =>
      intro stays
      have member := mem_fixedPositions_iff.2 ⟨bounded, stays⟩
      rw [isFixed] at member
      cases member
  · next fixed isFixed =>
      rw [if_pos several]
      exact swap_moves length nodup oldNodup several isFixed bounded
  · next notNil notOne =>
      have severalFixed : 1 < (fixedPositions destinations oldIndices).length := by
        cases isFixed : fixedPositions destinations oldIndices with
        | nil => exact (notNil isFixed).elim
        | cons first rest =>
            cases rest with
            | nil => exact (notOne first isFixed).elim
            | cons second rest => simp
      exact rotate_moves length oldNodup severalFixed rfl bounded

end Repair

/-- The destinations are a permutation of the slots, and with two or more live cells no
cell is assigned its old slot. -/
theorem randomizedGcDestinations_derange {oldIndices : List Nat} (distinct : oldIndices.Nodup)
    (completedCollections : Nat) :
    (randomizedGcDestinations oldIndices completedCollections).Perm
        (List.range oldIndices.length) ∧
      ∀ position < oldIndices.length, 2 ≤ oldIndices.length →
        (randomizedGcDestinations oldIndices completedCollections)[position]? ≠
          oldIndices[position]? := by
  refine ⟨randomizedGcDestinations_perm _ _, fun position bounded several => ?_⟩
  rw [randomizedGcDestinations]
  have isPerm := shuffle_perm (List.range' 1 (oldIndices.length - 1)).reverse
    (((UInt64.ofNat completedCollections + 1) * 0x9e3779b97f4a7c15) ^^^
      (UInt64.ofNat oldIndices.length * 0xbf58476d1ce4e5b9)) (List.range oldIndices.length)
  have length := isPerm.length_eq
  rw [List.length_range] at length
  exact repairFixed_moves length (isPerm.nodup_iff.mpr List.nodup_range) distinct (by omega)
    (by omega)

/-- Three cells, one of them in a slot outside the new heap. -/
theorem randomizedGcDestinations_derange_three :
    (randomizedGcDestinations [2, 7, 0] 4).Perm (List.range 3) ∧
      ∀ position < 3, 2 ≤ 3 →
        (randomizedGcDestinations [2, 7, 0] 4)[position]? ≠ [2, 7, 0][position]? :=
  randomizedGcDestinations_derange (by decide) 4

end RexLang
