import Mathlib.Data.String.Basic
import RexLang.Ast

/-!
# Maps from names

What is in a map and what is found in it, after an insertion and in general.
-/

namespace RexLang

variable {Value : Type}

theorem lookup_cons_eq_ite {Key : Type} [BEq Key] [LawfulBEq Key] [DecidableEq Key]
    (entries : List (Key × Value)) (name other : Key) (old : Value) :
    List.lookup other ((name, old) :: entries) =
      if other = name then some old else List.lookup other entries := by
  rw [List.lookup_cons]
  by_cases same : other = name
  · simp [same]
  · have different : (other == name) = false := by simpa using same
    rw [different, if_neg same]

theorem insert_cons (map : SymbolMap Value) (name key : Symbol) (old value : Value) :
    SymbolMap.insert key value ((name, old) :: map) =
      if key = name then (key, value) :: map
      else if key < name then (key, value) :: (name, old) :: map
      else (name, old) :: map.insert key value := rfl

theorem lookup_insert (map : SymbolMap Value) (key other : Symbol) (value : Value) :
    (map.insert key value).lookup other =
      if other = key then some value else map.lookup other := by
  induction map with
  | nil => exact lookup_cons_eq_ite [] key other value
  | cons entry map hypothesis =>
      obtain ⟨name, old⟩ := entry
      rw [insert_cons]
      split_ifs with same less isKey isKey isKey
      all_goals simp only [lookup_cons_eq_ite, hypothesis]
      all_goals split_ifs <;> simp_all

theorem mem_of_lookup {Key : Type} [BEq Key] [LawfulBEq Key] {entries : List (Key × Value)}
    {key : Key} {value : Value} (found : entries.lookup key = some value) :
    (key, value) ∈ entries := by
  obtain ⟨before, after, rfl, -⟩ := List.lookup_eq_some_iff.mp found
  simp

theorem isSome_lookup_iff {Key : Type} [BEq Key] [LawfulBEq Key] [DecidableEq Key]
    {entries : List (Key × Value)} {name : Key} :
    (entries.lookup name).isSome ↔ name ∈ entries.map Prod.fst := by
  induction entries with
  | nil => simp
  | cons entry entries hypothesis =>
      obtain ⟨other, old⟩ := entry
      rw [lookup_cons_eq_ite, List.map_cons, List.mem_cons, ← hypothesis]
      split_ifs with same
      · simp [same]
      · simp [same]

theorem mem_insert {map : SymbolMap Value} {key : Symbol} {value : Value}
    {entry : Symbol × Value} (member : entry ∈ map.insert key value) :
    entry = (key, value) ∨ entry ∈ map := by
  induction map with
  | nil => exact .inl (List.mem_singleton.mp member)
  | cons first map hypothesis =>
      obtain ⟨other, old⟩ := first
      rw [insert_cons] at member
      split_ifs at member
      · exact (List.mem_cons.mp member).imp_right (.tail _)
      · exact List.mem_cons.mp member
      · obtain rfl | later := List.mem_cons.mp member
        · exact .inr List.mem_cons_self
        · exact (hypothesis later).imp_right (.tail _)

/-! ## Maps -/

/-- `collect` into a map that is sorted by its names. -/
def collectMap {Entry : Type} (entries : List (String × Entry)) : SymbolMap Entry :=
  entries.foldl (fun map entry => map.insert entry.1 entry.2) []

/-- The names are in order, each once. -/
def Ordered {Entry : Type} (map : SymbolMap Entry) : Prop :=
  (map.map Prod.fst).Pairwise (· < ·)

section Ordered

variable {Entry : Type}

theorem insert_of_greater {map : SymbolMap Entry} {name : String} (entry : Entry)
    (greater : ∀ other ∈ map, other.1 < name) : map.insert name entry = map ++ [(name, entry)] := by
  induction map with
  | nil => rfl
  | cons first rest hypothesis =>
      obtain ⟨other, old⟩ := first
      rw [List.forall_mem_cons] at greater
      rw [insert_cons, if_neg greater.1.ne', if_neg greater.1.asymm, hypothesis greater.2]
      rfl

/-- What is in order is collected as it is. -/
theorem collectMap_of_ordered {entries : SymbolMap Entry} (ordered : Ordered entries) :
    collectMap entries = entries := by
  suffices collected : ∀ map : SymbolMap Entry, Ordered (map ++ entries) →
      entries.foldl (fun map entry => map.insert entry.1 entry.2) map = map ++ entries from
    collected [] ordered
  clear ordered
  intro map ordered
  induction entries generalizing map with
  | nil => simp
  | cons entry entries hypothesis =>
      have greater : ∀ other ∈ map, other.1 < entry.1 := by
        intro other member
        rw [Ordered, List.map_append, List.pairwise_append] at ordered
        exact ordered.2.2 _ (List.mem_map_of_mem member) _ (by simp)
      rw [List.foldl_cons, insert_of_greater _ greater]
      rw [List.append_cons] at ordered
      rw [hypothesis _ ordered, List.append_assoc, List.singleton_append]

theorem ordered_insert {map : SymbolMap Entry} (ordered : Ordered map) (key : Symbol)
    (entry : Entry) : Ordered (map.insert key entry) := by
  induction map with
  | nil => exact List.pairwise_singleton _ _
  | cons first rest hypothesis =>
      obtain ⟨other, old⟩ := first
      rw [Ordered, List.map_cons, List.pairwise_cons] at ordered
      rw [insert_cons]
      split_ifs with same less
      · rw [Ordered, List.map_cons, List.pairwise_cons]
        exact ⟨same ▸ ordered.1, ordered.2⟩
      · rw [Ordered, List.map_cons, List.map_cons, List.pairwise_cons, List.pairwise_cons]
        refine ⟨fun name member => ?_, ordered⟩
        obtain rfl | later := List.mem_cons.mp member
        · exact less
        · exact less.trans (ordered.1 name later)
      · rw [Ordered, List.map_cons, List.pairwise_cons]
        refine ⟨fun name member => ?_, hypothesis ordered.2⟩
        obtain ⟨⟨_, value⟩, inside, rfl⟩ := List.mem_map.mp member
        obtain isNew | before := mem_insert inside
        · cases isNew
          exact lt_of_le_of_ne (not_lt.mp less) (Ne.symm same)
        · exact ordered.1 _ (List.mem_map_of_mem before)

theorem ordered_collectMap (entries : List (String × Entry)) :
    Ordered (collectMap entries) := by
  suffices kept : ∀ map : SymbolMap Entry, Ordered map →
      Ordered (entries.foldl (fun map entry => map.insert entry.1 entry.2) map) from
    kept [] .nil
  intro map ordered
  induction entries generalizing map with
  | nil => exact ordered
  | cons entry entries hypothesis =>
      exact hypothesis _ (ordered_insert ordered entry.1 entry.2)

theorem lookup_of_ordered {Value : Type} {fields : SymbolMap Value} (ordered : Ordered fields)
    {field : String × Value} (member : field ∈ fields) :
    fields.lookup field.1 = some field.2 := by
  induction fields with
  | nil => cases member
  | cons first rest hypothesis =>
      rw [Ordered, List.map_cons, List.pairwise_cons] at ordered
      rw [lookup_cons_eq_ite]
      rcases List.mem_cons.mp member with rfl | later
      · exact if_pos rfl
      · rw [if_neg (ordered.1 _ (List.mem_map_of_mem later)).ne']
        exact hypothesis ordered.2 later

/-- Maps with the same entries are equal. -/
theorem eq_of_mem_iff {first second : SymbolMap Entry} (orderedFirst : Ordered first)
    (orderedSecond : Ordered second) (same : ∀ entry, entry ∈ first ↔ entry ∈ second) :
    first = second := by
  have nodup {map : SymbolMap Entry} (ordered : Ordered map) : map.Nodup :=
    (List.pairwise_map.mp ordered).imp fun less same => less.ne (congrArg Prod.fst same)
  have isPerm : first.Perm second :=
    (List.perm_ext_iff_of_nodup (nodup orderedFirst) (nodup orderedSecond)).mpr same
  rw [Ordered, List.pairwise_map] at orderedFirst orderedSecond
  exact isPerm.eq_of_pairwise (fun _ _ _ _ less greater => absurd greater less.asymm) orderedFirst
    orderedSecond

/-- Maps with the same lookups are equal. -/
theorem eq_of_lookup_eq {first second : SymbolMap Entry} (orderedFirst : Ordered first)
    (orderedSecond : Ordered second) (same : ∀ name, first.lookup name = second.lookup name) :
    first = second := by
  refine eq_of_mem_iff orderedFirst orderedSecond fun entry => ?_
  constructor
  · intro member
    exact mem_of_lookup ((same entry.1).symm.trans (lookup_of_ordered orderedFirst member))
  · intro member
    exact mem_of_lookup ((same entry.1).trans (lookup_of_ordered orderedSecond member))

theorem insert_perm {map : SymbolMap Entry} {name : String} (isNew : name ∉ map.map Prod.fst)
    (value : Entry) : (map.insert name value).Perm ((name, value) :: map) := by
  induction map with
  | nil => exact .refl _
  | cons entry map hypothesis =>
      obtain ⟨other, old⟩ := entry
      rw [List.map_cons, List.mem_cons, not_or] at isNew
      rw [insert_cons]
      split_ifs with same
      · exact absurd same isNew.1
      · exact .refl _
      · exact ((hypothesis isNew.2).cons _).trans (.swap _ _ _)

/-- A map has the entries of the listing. -/
theorem collectMap_perm {entries : List (String × Entry)} (distinct : (entries.map Prod.fst).Nodup) :
    (collectMap entries).Perm entries := by
  suffices each : ∀ map : SymbolMap Entry, (∀ name ∈ map.map Prod.fst, name ∉ entries.map Prod.fst) →
      (entries.foldl (fun map entry => map.insert entry.1 entry.2) map).Perm (entries ++ map) by
    rw [collectMap]
    simpa using each [] (by simp)
  intro map isNew
  induction entries generalizing map with
  | nil => exact .refl _
  | cons entry entries hypothesis =>
      rw [List.map_cons, List.nodup_cons] at distinct
      have isNewName : entry.1 ∉ map.map Prod.fst :=
        fun member => isNew entry.1 member List.mem_cons_self
      have inserted := insert_perm isNewName entry.2
      have isNewRest : ∀ name ∈ (map.insert entry.1 entry.2).map Prod.fst,
          name ∉ entries.map Prod.fst := by
        intro name member
        obtain rfl | before := List.mem_cons.mp ((inserted.map Prod.fst).mem_iff.mp member)
        · exact distinct.1
        · exact fun inside => isNew name before (.tail _ inside)
      rw [List.foldl_cons]
      refine (hypothesis distinct.2 _ isNewRest).trans ?_
      exact (List.Perm.append_left entries inserted).trans List.perm_middle

theorem collectMap_congr {first second : List (String × Entry)}
    (distinct : (first.map Prod.fst).Nodup) (isPerm : first.Perm second) :
    collectMap first = collectMap second := by
  have also : (second.map Prod.fst).Nodup := (isPerm.map Prod.fst).nodup_iff.mp distinct
  refine eq_of_mem_iff (ordered_collectMap first) (ordered_collectMap second) fun entry => ?_
  rw [(collectMap_perm distinct).mem_iff, (collectMap_perm also).mem_iff, isPerm.mem_iff]

end Ordered

end RexLang
