import Mathlib.Algebra.Order.BigOperators.Group.List
import Mathlib.Algebra.Order.Ring.Nat
import Mathlib.Data.List.Forall2

/-!
# Coverage by pattern matrices

A value has a head and children, and a type says which heads its values have and
which types their children then have.  A cell is a list of patterns that one
value has to match, a row has one cell for each column, and a matrix is a list of
rows.  This file characterizes the matrices that match every tuple of values of
the column types by a derivation that splits one column at a time.
-/

namespace PatternMatrix

/-- Values that are taken apart by heads, and patterns that look at one head at
a time. -/
structure Language (Value Ty Head Pat : Type) where
  head : Value → Head
  children : Value → List Value
  arity : Head → Nat
  /-- The column types below a head of a type. -/
  Fields : Ty → Head → List Ty → Prop
  HasType : Value → Ty → Prop
  Matches : Pat → Value → Prop
  /-- The patterns for the children, when the pattern accepts the head. -/
  expand : Pat → Head → Option (List (List Pat))
  /-- Zero only for patterns that look at nothing. -/
  size : Pat → Nat
  length_fields : ∀ ty atHead types, Fields ty atHead types → types.length = arity atHead
  length_expand : ∀ pat atHead cells, expand pat atHead = some cells →
    cells.length = arity atHead
  hasType_iff : ∀ value ty, HasType value ty ↔
    ∃ types, Fields ty (head value) types ∧ List.Forall₂ HasType (children value) types
  exists_value : ∀ ty atHead types values, Fields ty atHead types →
    List.Forall₂ HasType values types → ∃ value, head value = atHead ∧ children value = values
  matches_iff : ∀ pat value, Matches pat value ↔ ∃ cells, expand pat (head value) = some cells ∧
    List.Forall₂ (fun cell child => ∀ pat ∈ cell, Matches pat child) cells (children value)
  expand_of_size_eq_zero : ∀ pat atHead, size pat = 0 →
    expand pat atHead = some (List.replicate (arity atHead) [])
  size_expand_lt : ∀ pat atHead cells, expand pat atHead = some cells → size pat ≠ 0 →
    (cells.map fun cell => (cell.map size).sum).sum < size pat

namespace Language

variable {Value Ty Head Pat : Type} (language : Language Value Ty Head Pat)

/-! ## Cells, rows and matrices -/

def CellMatches (cell : List Pat) (value : Value) : Prop :=
  ∀ pat ∈ cell, language.Matches pat value

def RowMatches : List (List Pat) → List Value → Prop :=
  List.Forall₂ language.CellMatches

/-- Some row matches, for every tuple of values of the column types. -/
def Exhaustive (types : List Ty) (rows : List (List (List Pat))) : Prop :=
  ∀ values, List.Forall₂ language.HasType values types →
    ∃ row ∈ rows, language.RowMatches row values

def Inhabited (ty : Ty) : Prop :=
  ∃ value, language.HasType value ty

def cellSize (cell : List Pat) : Nat :=
  (cell.map language.size).sum

def rowSize (row : List (List Pat)) : Nat :=
  (row.map language.cellSize).sum

def matrixSize (rows : List (List (List Pat))) : Nat :=
  (rows.map language.rowSize).sum

/-- The cells for the children of a head. -/
def expandCell (atHead : Head) : List Pat → Option (List (List Pat))
  | [] => some (List.replicate (language.arity atHead) [])
  | pat :: cell =>
      (language.expand pat atHead).bind fun first =>
        (expandCell atHead cell).map fun rest => List.zipWith (· ++ ·) first rest

/-- The row for the children of a head in the first column and for the other
columns. -/
def specializeRow (atHead : Head) : List (List Pat) → Option (List (List Pat))
  | [] => none
  | cell :: row => (language.expandCell atHead cell).map (· ++ row)

/-- The row for the other columns, when it does not look at the first. -/
def defaultRow : List (List Pat) → Option (List (List Pat))
  | [] => none
  | cell :: row => if language.cellSize cell = 0 then some row else none

/-- How a matrix matches everything: a row is left when all columns are done, a
column is skipped with the rows that do not look at it, or it is split into the
heads of its type. -/
inductive Covers : List Ty → List (List (List Pat)) → Prop
  | done (rows : List (List (List Pat))) (left : [] ∈ rows) : Covers [] rows
  | skip (ty : Ty) (types : List Ty) (rows : List (List (List Pat)))
      (rest : Covers types (rows.filterMap language.defaultRow)) : Covers (ty :: types) rows
  | split (ty : Ty) (types : List Ty) (rows : List (List (List Pat)))
      (heads : ∀ atHead fields, language.Fields ty atHead fields →
        (∀ field ∈ fields, language.Inhabited field) →
        Covers (fields ++ types) (rows.filterMap (language.specializeRow atHead))) :
      Covers (ty :: types) rows

/-! ## What cells match -/

theorem cellMatches_append (first second : List Pat) (value : Value) :
    language.CellMatches (first ++ second) value ↔
      language.CellMatches first value ∧ language.CellMatches second value := by
  simp only [CellMatches, List.forall_mem_append]

theorem rowMatches_zipWith {first second : List (List Pat)} {values : List Value}
    (sameLength : first.length = second.length) :
    language.RowMatches (List.zipWith (· ++ ·) first second) values ↔
      language.RowMatches first values ∧ language.RowMatches second values := by
  induction first generalizing second values with
  | nil =>
      cases second with
      | nil => simp [RowMatches]
      | cons cell second => simp at sameLength
  | cons firstCell first firstIH =>
      cases second with
      | nil => simp at sameLength
      | cons secondCell second =>
          cases values with
          | nil => simp [RowMatches]
          | cons value values =>
              have tail : language.RowMatches (List.zipWith (· ++ ·) first second) values ↔
                  language.RowMatches first values ∧ language.RowMatches second values :=
                firstIH (Nat.succ.inj sameLength)
              simp only [RowMatches, List.zipWith_cons_cons, List.forall₂_cons,
                cellMatches_append] at tail ⊢
              rw [tail]
              tauto

theorem rowMatches_replicate (values : List Value) :
    language.RowMatches (List.replicate values.length []) values := by
  induction values with
  | nil => exact .nil
  | cons value values valuesIH => exact .cons (by simp [CellMatches]) valuesIH

theorem rowMatches_append {first second : List (List Pat)} {children values : List Value}
    (sameLength : first.length = children.length) :
    language.RowMatches (first ++ second) (children ++ values) ↔
      language.RowMatches first children ∧ language.RowMatches second values := by
  induction first generalizing children with
  | nil =>
      cases children with
      | nil => simp [RowMatches]
      | cons child children => simp at sameLength
  | cons cell first firstIH =>
      cases children with
      | nil => simp at sameLength
      | cons child children =>
          have tail : language.RowMatches (first ++ second) (children ++ values) ↔
              language.RowMatches first children ∧ language.RowMatches second values :=
            firstIH (Nat.succ.inj sameLength)
          simp only [RowMatches, List.cons_append, List.forall₂_cons] at tail ⊢
          rw [tail, and_assoc]

theorem length_expandCell {atHead : Head} {cell : List Pat} {cells : List (List Pat)}
    (expanded : language.expandCell atHead cell = some cells) :
    cells.length = language.arity atHead := by
  induction cell generalizing cells with
  | nil =>
      cases expanded
      exact List.length_replicate
  | cons pat cell cellIH =>
      simp only [expandCell, Option.bind_eq_some_iff, Option.map_eq_some_iff] at expanded
      obtain ⟨first, hFirst, rest, hRest, rfl⟩ := expanded
      have firstLength := language.length_expand pat atHead first hFirst
      have restLength := cellIH hRest
      rw [List.length_zipWith]
      omega

theorem length_children {value : Value} {ty : Ty} (typed : language.HasType value ty) :
    (language.children value).length = language.arity (language.head value) := by
  obtain ⟨types, fields, children⟩ := (language.hasType_iff value ty).mp typed
  rw [children.length_eq]
  exact language.length_fields ty _ types fields

/-- A cell matches a value when its patterns accept the head and the resulting
cells match the children. -/
theorem cellMatches_iff (cell : List Pat) {value : Value} {ty : Ty}
    (typed : language.HasType value ty) :
    language.CellMatches cell value ↔
      ∃ cells, language.expandCell (language.head value) cell = some cells ∧
        language.RowMatches cells (language.children value) := by
  induction cell with
  | nil =>
      have anything := language.rowMatches_replicate (language.children value)
      rw [language.length_children typed] at anything
      simp [CellMatches, expandCell, anything]
  | cons pat cell cellIH =>
      rw [CellMatches, List.forall_mem_cons]
      change language.Matches pat value ∧ language.CellMatches cell value ↔ _
      rw [cellIH, language.matches_iff]
      simp only [expandCell, Option.bind_eq_some_iff, Option.map_eq_some_iff]
      constructor
      · rintro ⟨⟨first, hFirst, firstMatches⟩, rest, hRest, restMatches⟩
        have sameLength : first.length = rest.length := by
          rw [language.length_expand pat _ first hFirst, language.length_expandCell hRest]
        exact ⟨_, ⟨first, hFirst, rest, hRest, rfl⟩,
          (language.rowMatches_zipWith sameLength).mpr ⟨firstMatches, restMatches⟩⟩
      · rintro ⟨_, ⟨first, hFirst, rest, hRest, rfl⟩, allMatch⟩
        have sameLength : first.length = rest.length := by
          rw [language.length_expand pat _ first hFirst, language.length_expandCell hRest]
        have both := (language.rowMatches_zipWith sameLength).mp allMatch
        exact ⟨⟨first, hFirst, both.1⟩, rest, hRest, both.2⟩

/-- A cell without patterns that look at anything matches everything. -/
theorem cellMatches_of_size_eq_zero {cell : List Pat} (trivial : language.cellSize cell = 0)
    {value : Value} {ty : Ty} (typed : language.HasType value ty) :
    language.CellMatches cell value := by
  intro pat member
  have looksAtNothing : language.size pat = 0 := by
    have bound := List.le_sum_of_mem (List.mem_map.mpr ⟨pat, member, rfl⟩ :
      language.size pat ∈ cell.map language.size)
    rw [cellSize] at trivial
    omega
  rw [language.matches_iff]
  refine ⟨_, language.expand_of_size_eq_zero pat _ looksAtNothing, ?_⟩
  rw [← language.length_children typed]
  exact language.rowMatches_replicate _

theorem rowMatches_specializeRow {row : List (List Pat)} {value : Value} {values : List Value}
    {ty : Ty} (typed : language.HasType value ty) :
    language.RowMatches row (value :: values) ↔
      ∃ special ∈ language.specializeRow (language.head value) row,
        language.RowMatches special (language.children value ++ values) := by
  cases row with
  | nil => simp [RowMatches, specializeRow]
  | cons cell row =>
      have split : language.RowMatches (cell :: row) (value :: values) ↔
          language.CellMatches cell value ∧ language.RowMatches row values := List.forall₂_cons
      rw [split, language.cellMatches_iff cell typed]
      simp only [specializeRow, Option.mem_def, Option.map_eq_some_iff]
      constructor
      · rintro ⟨⟨cells, expanded, childrenMatch⟩, rowMatch⟩
        refine ⟨cells ++ row, ⟨cells, expanded, rfl⟩, ?_⟩
        rw [language.rowMatches_append]
        · exact ⟨childrenMatch, rowMatch⟩
        · exact childrenMatch.length_eq
      · rintro ⟨_, ⟨cells, expanded, rfl⟩, allMatch⟩
        rw [language.rowMatches_append] at allMatch
        · exact ⟨⟨cells, expanded, allMatch.1⟩, allMatch.2⟩
        · rw [language.length_expandCell expanded, language.length_children typed]

/-! ## Sizes -/

theorem rowSize_append (first second : List (List Pat)) :
    language.rowSize (first ++ second) = language.rowSize first + language.rowSize second := by
  simp [rowSize]

theorem cellSize_append (first second : List Pat) :
    language.cellSize (first ++ second) = language.cellSize first + language.cellSize second := by
  simp [cellSize]

theorem rowSize_replicate (count : Nat) :
    language.rowSize (List.replicate count []) = 0 := by
  simp [rowSize, cellSize]

theorem rowSize_zipWith (first second : List (List Pat)) (sameLength : first.length = second.length) :
    language.rowSize (List.zipWith (· ++ ·) first second) =
      language.rowSize first + language.rowSize second := by
  induction first generalizing second with
  | nil =>
      cases second with
      | nil => rfl
      | cons cell second => simp at sameLength
  | cons firstCell first firstIH =>
      cases second with
      | nil => simp at sameLength
      | cons secondCell second =>
          have tail := firstIH second (Nat.succ.inj sameLength)
          simp only [rowSize, List.zipWith_cons_cons, List.map_cons, List.sum_cons,
            cellSize_append] at tail ⊢
          omega

theorem size_expand_le {pat : Pat} {atHead : Head} {cells : List (List Pat)}
    (expanded : language.expand pat atHead = some cells) :
    language.rowSize cells ≤ language.size pat := by
  by_cases trivial : language.size pat = 0
  · rw [language.expand_of_size_eq_zero pat atHead trivial] at expanded
    cases expanded
    simp [rowSize_replicate]
  · exact (language.size_expand_lt pat atHead cells expanded trivial).le

/-- Below a head there is less to look at, unless there was nothing. -/
theorem rowSize_expandCell {atHead : Head} {cell : List Pat} {cells : List (List Pat)}
    (expanded : language.expandCell atHead cell = some cells) :
    language.rowSize cells ≤ language.cellSize cell ∧
      (language.cellSize cell ≠ 0 → language.rowSize cells < language.cellSize cell) := by
  induction cell generalizing cells with
  | nil =>
      cases expanded
      simp [rowSize_replicate, cellSize]
  | cons pat cell cellIH =>
      simp only [expandCell, Option.bind_eq_some_iff, Option.map_eq_some_iff] at expanded
      obtain ⟨first, hFirst, rest, hRest, rfl⟩ := expanded
      have sameLength : first.length = rest.length := by
        rw [language.length_expand pat _ first hFirst, language.length_expandCell hRest]
      have firstLe := language.size_expand_le hFirst
      have restSize := cellIH hRest
      have cellSizeCons : language.cellSize (pat :: cell) =
          language.size pat + language.cellSize cell := by
        simp [cellSize]
      rw [language.rowSize_zipWith first rest sameLength, cellSizeCons]
      refine ⟨by omega, fun notTrivial => ?_⟩
      by_cases patTrivial : language.size pat = 0
      · have restLt := restSize.2 (by omega)
        omega
      · have firstLt : language.rowSize first < language.size pat :=
          language.size_expand_lt pat atHead first hFirst patTrivial
        omega

theorem rowSize_specializeRow {atHead : Head} {row special : List (List Pat)}
    (specialized : language.specializeRow atHead row = some special) :
    language.rowSize special ≤ language.rowSize row := by
  cases row with
  | nil => cases specialized
  | cons cell row =>
      obtain ⟨cells, expanded, rfl⟩ := Option.map_eq_some_iff.mp specialized
      have cellsLe := (language.rowSize_expandCell expanded).1
      have rowSizeCons : language.rowSize (cell :: row) =
          language.cellSize cell + language.rowSize row := by
        simp [rowSize]
      rw [rowSize_append, rowSizeCons]
      omega

theorem rowSize_defaultRow {row rest : List (List Pat)}
    (kept : language.defaultRow row = some rest) :
    language.rowSize rest ≤ language.rowSize row := by
  cases row with
  | nil => cases kept
  | cons cell row =>
      rw [defaultRow, Option.ite_none_right_eq_some, Option.some_inj] at kept
      obtain ⟨-, rfl⟩ := kept
      simp [rowSize]

theorem matrixSize_filterMap_le (change : List (List Pat) → Option (List (List Pat)))
    (shrinks : ∀ row row', change row = some row' →
      language.rowSize row' ≤ language.rowSize row) (rows : List (List (List Pat))) :
    language.matrixSize (rows.filterMap change) ≤ language.matrixSize rows := by
  induction rows with
  | nil => exact le_rfl
  | cons row rows rowsIH =>
      have sizeCons (row : List (List Pat)) (rows : List (List (List Pat))) :
          language.matrixSize (row :: rows) = language.rowSize row + language.matrixSize rows := by
        simp [matrixSize]
      rw [sizeCons, List.filterMap_cons]
      cases changed : change row with
      | none =>
          simp only
          omega
      | some row' =>
          have rowLe := shrinks row row' changed
          simp only [sizeCons]
          omega

/-- Splitting a column that some row looks at makes the matrix smaller. -/
theorem matrixSize_specialize_lt (atHead : Head) {rows : List (List (List Pat))}
    {cell : List Pat} {row : List (List Pat)} (member : cell :: row ∈ rows)
    (looks : language.cellSize cell ≠ 0) :
    language.matrixSize (rows.filterMap (language.specializeRow atHead)) <
      language.matrixSize rows := by
  obtain ⟨before, after, rfl⟩ := List.append_of_mem member
  have beforeLe := language.matrixSize_filterMap_le (language.specializeRow atHead)
    (fun _ _ => language.rowSize_specializeRow) before
  have afterLe := language.matrixSize_filterMap_le (language.specializeRow atHead)
    (fun _ _ => language.rowSize_specializeRow) after
  have rowSizeCons : language.rowSize (cell :: row) =
      language.cellSize cell + language.rowSize row := by
    simp [rowSize]
  simp only [matrixSize, List.filterMap_append, List.filterMap_cons, List.map_append,
    List.map_cons, List.sum_append, List.sum_cons, rowSizeCons] at beforeLe afterLe ⊢
  cases specialized : language.specializeRow atHead (cell :: row) with
  | none =>
      simp only
      omega
  | some special =>
      obtain ⟨cells, expanded, rfl⟩ := Option.map_eq_some_iff.mp specialized
      have cellsLt := (language.rowSize_expandCell expanded).2 looks
      simp only [List.map_cons, List.sum_cons, rowSize_append]
      omega

/-! ## Coverage is exhaustiveness -/

theorem inhabited_of_forall₂ {values : List Value} {types : List Ty}
    (typed : List.Forall₂ language.HasType values types) :
    ∀ ty ∈ types, language.Inhabited ty := by
  induction typed with
  | nil => simp
  | cons valueTyped valuesTyped valuesIH =>
      rw [List.forall_mem_cons]
      exact ⟨⟨_, valueTyped⟩, valuesIH⟩

theorem exists_values {types : List Ty} (inhabited : ∀ ty ∈ types, language.Inhabited ty) :
    ∃ values, List.Forall₂ language.HasType values types := by
  induction types with
  | nil => exact ⟨[], .nil⟩
  | cons ty types typesIH =>
      rw [List.forall_mem_cons] at inhabited
      obtain ⟨⟨value, valueTyped⟩, restInhabited⟩ := inhabited
      obtain ⟨values, valuesTyped⟩ := typesIH restInhabited
      exact ⟨value :: values, .cons valueTyped valuesTyped⟩

theorem inhabited_of_fields {ty : Ty} {atHead : Head} {fields : List Ty}
    (isFields : language.Fields ty atHead fields)
    (inhabited : ∀ field ∈ fields, language.Inhabited field) : language.Inhabited ty := by
  obtain ⟨values, valuesTyped⟩ := language.exists_values inhabited
  obtain ⟨value, rfl, rfl⟩ := language.exists_value ty atHead fields values isFields valuesTyped
  exact ⟨value, (language.hasType_iff value ty).mpr ⟨fields, isFields, valuesTyped⟩⟩

theorem Covers.exhaustive {types : List Ty} {rows : List (List (List Pat))}
    (covers : language.Covers types rows) : language.Exhaustive types rows := by
  induction covers with
  | done rows left =>
      intro values typed
      cases typed
      exact ⟨[], left, .nil⟩
  | skip ty types rows rest restIH =>
      intro values typed
      cases typed with
      | cons valueTyped valuesTyped =>
          obtain ⟨kept, keptMember, keptMatches⟩ := restIH _ valuesTyped
          obtain ⟨row, member, isKept⟩ := List.mem_filterMap.mp keptMember
          refine ⟨row, member, ?_⟩
          cases row with
          | nil => cases isKept
          | cons cell row =>
              rw [defaultRow, Option.ite_none_right_eq_some, Option.some_inj] at isKept
              obtain ⟨trivial, rfl⟩ := isKept
              exact .cons (language.cellMatches_of_size_eq_zero trivial valueTyped) keptMatches
  | split ty types rows heads headsIH =>
      intro values typed
      cases typed with
      | @cons value _ values _ valueTyped valuesTyped =>
          obtain ⟨fields, isFields, childrenTyped⟩ := (language.hasType_iff _ ty).mp valueTyped
          have inhabited := language.inhabited_of_forall₂ childrenTyped
          obtain ⟨special, specialMember, specialMatches⟩ :=
            headsIH _ fields isFields inhabited _ (List.rel_append childrenTyped valuesTyped)
          obtain ⟨row, member, isSpecial⟩ := List.mem_filterMap.mp specialMember
          exact ⟨row, member,
            (language.rowMatches_specializeRow valueTyped).mpr ⟨special, isSpecial, specialMatches⟩⟩

theorem exhaustive_skip {ty : Ty} {types : List Ty} {rows : List (List (List Pat))}
    (exhaustive : language.Exhaustive (ty :: types) rows) (inhabited : language.Inhabited ty)
    (looksAtNothing : ∀ cell row, cell :: row ∈ rows → language.cellSize cell = 0) :
    language.Exhaustive types (rows.filterMap language.defaultRow) := by
  intro values typed
  obtain ⟨value, valueTyped⟩ := inhabited
  obtain ⟨row, member, rowMatch⟩ := exhaustive (value :: values) (.cons valueTyped typed)
  cases rowMatch with
  | @cons cell _ row _ _ restMatch =>
      refine ⟨row, List.mem_filterMap.mpr ⟨cell :: row, member, ?_⟩, restMatch⟩
      rw [defaultRow, if_pos (looksAtNothing cell row member)]

theorem exhaustive_split {ty : Ty} {types : List Ty} {rows : List (List (List Pat))}
    (exhaustive : language.Exhaustive (ty :: types) rows) {atHead : Head} {fields : List Ty}
    (isFields : language.Fields ty atHead fields) :
    language.Exhaustive (fields ++ types) (rows.filterMap (language.specializeRow atHead)) := by
  intro values typed
  have childrenTyped := List.forall₂_take_append values fields types typed
  have restTyped := List.forall₂_drop_append values fields types typed
  rw [← List.take_append_drop fields.length values]
  generalize values.take fields.length = children at childrenTyped ⊢
  generalize values.drop fields.length = rest at restTyped ⊢
  obtain ⟨value, rfl, rfl⟩ := language.exists_value ty atHead fields children isFields childrenTyped
  have valueTyped := (language.hasType_iff value ty).mpr ⟨fields, isFields, childrenTyped⟩
  obtain ⟨row, member, rowMatch⟩ := exhaustive (value :: rest) (.cons valueTyped restTyped)
  obtain ⟨special, isSpecial, specialMatch⟩ :=
    (language.rowMatches_specializeRow valueTyped).mp rowMatch
  exact ⟨special, List.mem_filterMap.mpr ⟨row, member, isSpecial⟩, specialMatch⟩

/-- A matrix matches everything exactly when it can be derived by splitting. -/
theorem covers_iff_exhaustive (types : List Ty) (rows : List (List (List Pat))) :
    language.Covers types rows ↔ language.Exhaustive types rows := by
  refine ⟨Covers.exhaustive language, ?_⟩
  -- The matrix gets smaller when a column is split that some row looks at; other
  -- columns are skipped.
  induction hSize : language.matrixSize rows using Nat.strongRecOn generalizing types rows with
  | ind size sizeIH =>
      induction types generalizing rows with
      | nil =>
          intro exhaustive
          obtain ⟨row, member, rowMatch⟩ := exhaustive [] .nil
          cases rowMatch
          exact .done rows member
      | cons ty types typesIH =>
          intro exhaustive
          by_cases looks : ∃ cell row, cell :: row ∈ rows ∧ language.cellSize cell ≠ 0
          · obtain ⟨cell, row, member, notTrivial⟩ := looks
            apply Covers.split
            intro atHead fields isFields _
            have smaller := language.matrixSize_specialize_lt atHead member notTrivial
            exact sizeIH _ (hSize ▸ smaller) _ _ rfl (language.exhaustive_split exhaustive isFields)
          · push Not at looks
            by_cases inhabited : language.Inhabited ty
            · apply Covers.skip
              have rest := language.exhaustive_skip exhaustive inhabited looks
              have sizeLe := language.matrixSize_filterMap_le language.defaultRow
                (fun _ _ => language.rowSize_defaultRow) rows
              rcases Nat.lt_or_eq_of_le sizeLe with smaller | same
              · exact sizeIH _ (hSize ▸ smaller) _ _ rfl rest
              · exact typesIH _ (same.trans hSize) rest
            · apply Covers.split
              intro atHead fields isFields fieldsInhabited
              exact absurd (language.inhabited_of_fields isFields fieldsInhabited) inhabited

end Language

end PatternMatrix
