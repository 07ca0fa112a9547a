import Mathlib.Data.List.Basic

/-!
# Trees that respect an operator table

A row of operands separated by binary operators is read in order by many
binary trees.  An operator table selects one of them: of two neighbouring
operators the one that binds tighter takes the operand between them, and the
associativity of the level breaks ties.  This file proves that the selected
tree exists and is unique, independently of any particular table.
-/

namespace OperatorPrecedence

/-- A table of binding strengths.  Operators of one level must agree on their
associativity, since otherwise a mixed row has no tree at all. -/
structure Table (Op : Type*) where
  precedence : Op → Nat
  leftAssociative : Op → Bool
  uniform : ∀ first second, precedence first = precedence second →
    leftAssociative first = leftAssociative second

/-- Of two operators in reading order, the second takes the operand between
them. -/
def Table.Takes {Op : Type*} (table : Table Op) (first second : Op) : Prop :=
  table.precedence first < table.precedence second ∨
    table.precedence first = table.precedence second ∧
      table.leftAssociative first = false

instance {Op : Type*} (table : Table Op) (first second : Op) :
    Decidable (table.Takes first second) := by
  unfold Table.Takes
  infer_instance

section Takes

variable {Op : Type*} {table : Table Op} {first second third : Op}

theorem Table.takes_trans (outer : table.Takes first second)
    (inner : table.Takes second third) : table.Takes first third := by
  have agree := table.uniform first second
  unfold Table.Takes at *
  grind

/-- An operator that keeps its operand from a looser one keeps it from
everything still looser. -/
theorem Table.not_takes_trans (inner : ¬ table.Takes first second)
    (outer : ¬ table.Takes second third) : ¬ table.Takes first third := by
  have agree := table.uniform first second
  unfold Table.Takes at *
  grind

/-- Below the right operand of `second`, every operator keeps its operand from
an operator that follows and is looser than `second`. -/
theorem Table.not_takes_of_takes (below : table.Takes second first)
    (outer : ¬ table.Takes second third) : ¬ table.Takes first third := by
  unfold Table.Takes at *
  grind

/-- Left of `second`, every operator is taken by an operator that precedes and
is looser than `second`. -/
theorem Table.takes_of_not_takes (below : ¬ table.Takes third second)
    (outer : table.Takes first second) : table.Takes first third := by
  have agree := table.uniform first third
  have agreeRight := table.uniform third second
  unfold Table.Takes at *
  grind

end Takes

/-- Binary operator trees over operands. -/
inductive Tree (Op Leaf : Type*) where
  | leaf (operand : Leaf)
  | node (op : Op) (left right : Tree Op Leaf)

namespace Tree

variable {Op Leaf : Type*}

/-- The first operand in reading order. -/
def first : Tree Op Leaf → Leaf
  | leaf operand => operand
  | node _ left _ => left.first

/-- The operators in reading order, each with the operand after it. -/
def parts : Tree Op Leaf → List (Op × Leaf)
  | leaf _ => []
  | node op left right => left.parts ++ (op, right.first) :: right.parts

/-- The operators in reading order. -/
def ops (tree : Tree Op Leaf) : List Op :=
  tree.parts.map Prod.fst

/-- The operator at the root, unless the tree is an operand. -/
def root : Tree Op Leaf → Option Op
  | leaf _ => none
  | node op _ _ => some op

@[simp]
theorem ops_leaf (operand : Leaf) : (leaf operand : Tree Op Leaf).ops = [] :=
  rfl

@[simp]
theorem ops_node (op : Op) (left right : Tree Op Leaf) :
    (node op left right).ops = left.ops ++ op :: right.ops := by
  simp [ops, parts]

theorem mem_ops_of_mem_root {op : Op} {tree : Tree Op Leaf} (member : op ∈ tree.root) :
    op ∈ tree.ops := by
  cases tree with
  | leaf operand => simp [root] at member
  | node rootOp left right =>
      obtain rfl : rootOp = op := by simpa [root] using member
      simp

/-- Every node keeps its operands from the operators beside it, and takes the
operands of the operators below it. -/
def Respects (table : Table Op) : Tree Op Leaf → Prop
  | leaf _ => True
  | node op left right =>
      (∀ other ∈ left.root, ¬ table.Takes other op) ∧
        (∀ other ∈ right.root, table.Takes op other) ∧
          left.Respects table ∧ right.Respects table

variable {table : Table Op}

/-- The root of a tree that respects the table is the loosest operator: what
lies left of it keeps its operand, what lies right of it takes one. -/
theorem Respects.split_root {tree : Tree Op Leaf} (respects : tree.Respects table) :
    ∀ op left right, tree = node op left right →
      (∀ other ∈ left.ops, ¬ table.Takes other op) ∧
        (∀ other ∈ right.ops, table.Takes op other) := by
  induction tree with
  | leaf operand => simp
  | node op left right leftIH rightIH =>
      intro rootOp rootLeft rootRight same
      obtain ⟨rfl, rfl, rfl⟩ : op = rootOp ∧ left = rootLeft ∧ right = rootRight := by
        simpa using same
      obtain ⟨leftRoot, rightRoot, leftRespects, rightRespects⟩ := respects
      constructor
      · cases left with
        | leaf operand => simp
        | node leftOp leftLeft leftRight =>
            have below := leftIH leftRespects leftOp leftLeft leftRight rfl
            have rootKeeps := leftRoot leftOp rfl
            intro other member
            simp only [ops_node, List.mem_append, List.mem_cons] at member
            rcases member with member | rfl | member
            · exact Table.not_takes_trans (below.1 other member) rootKeeps
            · exact rootKeeps
            · exact Table.not_takes_of_takes (below.2 other member) rootKeeps
      · cases right with
        | leaf operand => simp
        | node rightOp rightLeft rightRight =>
            have below := rightIH rightRespects rightOp rightLeft rightRight rfl
            have rootTakes := rightRoot rightOp rfl
            intro other member
            simp only [ops_node, List.mem_append, List.mem_cons] at member
            rcases member with member | rfl | member
            · exact Table.takes_of_not_takes (below.1 other member) rootTakes
            · exact rootTakes
            · exact Table.takes_trans rootTakes (below.2 other member)

theorem parts_eq_nil_iff {tree : Tree Op Leaf} :
    tree.parts = [] ↔ tree = leaf tree.first := by
  cases tree <;> simp [parts, first]

/-- Two splittings of one row at respecting roots split at the same place: an
operator between the two roots would both keep and lose its operand. -/
private theorem splits_agree {firstLeft secondLeft firstRight secondRight : List (Op × Leaf)}
    {firstOp secondOp : Op} {firstLeaf secondLeaf : Leaf}
    (reading : firstLeft ++ (firstOp, firstLeaf) :: firstRight =
      secondLeft ++ (secondOp, secondLeaf) :: secondRight)
    (firstTakes : ∀ other ∈ firstRight.map Prod.fst, table.Takes firstOp other)
    (secondKeeps : ∀ other ∈ secondLeft.map Prod.fst, ¬ table.Takes other secondOp) :
    secondLeft.length ≤ firstLeft.length := by
  by_contra shorter
  have longer : firstLeft.length < secondLeft.length := Nat.lt_of_not_le shorter
  obtain ⟨middle, rfl⟩ : ∃ middle, secondLeft = firstLeft ++ (firstOp, firstLeaf) :: middle := by
    rcases List.append_eq_append_iff.mp reading with ⟨extra, split, rest⟩ | ⟨extra, split, rest⟩
    · cases extra with
      | nil => simp [split] at longer
      | cons head middle =>
          obtain ⟨rfl, -⟩ := List.cons.inj rest
          exact ⟨middle, split⟩
    · have := congrArg List.length split
      simp at this
      omega
  have tail : firstRight = middle ++ (secondOp, secondLeaf) :: secondRight := by
    simpa using reading
  exact secondKeeps firstOp (by simp) (firstTakes secondOp (by simp [tail]))

/-- A row of operands and operators is read by at most one tree that respects
the table. -/
theorem Respects.eq_of_reading {first second : Tree Op Leaf}
    (firstRespects : first.Respects table) (secondRespects : second.Respects table)
    (sameFirst : first.first = second.first) (sameParts : first.parts = second.parts) :
    first = second := by
  induction first generalizing second with
  | leaf operand =>
      have : second.parts = [] := sameParts.symm
      rw [parts_eq_nil_iff.1 this, ← sameFirst]
      rfl
  | node firstOp firstLeft firstRight leftIH rightIH =>
      cases second with
      | leaf operand => simp [parts] at sameParts
      | node secondOp secondLeft secondRight =>
          have firstRoot := firstRespects.split_root _ _ _ rfl
          have secondRoot := secondRespects.split_root _ _ _ rfl
          have sameLength : firstLeft.parts.length = secondLeft.parts.length :=
            Nat.le_antisymm (splits_agree sameParts.symm secondRoot.2 firstRoot.1)
              (splits_agree sameParts firstRoot.2 secondRoot.1)
          obtain ⟨leftParts, rightParts⟩ := List.append_inj sameParts sameLength
          obtain ⟨rootPair, tailParts⟩ := List.cons.inj rightParts
          obtain ⟨rfl, rightFirst⟩ := Prod.mk.inj rootPair
          rw [leftIH firstRespects.2.2.1 secondRespects.2.2.1 sameFirst leftParts,
            rightIH firstRespects.2.2.2 secondRespects.2.2.2 rightFirst tailParts]

/-- Add an operator and an operand after the tree: descend along the right
spine while the new operator takes the operand there. -/
def push (table : Table Op) (op : Op) (operand : Leaf) : Tree Op Leaf → Tree Op Leaf
  | leaf last => node op (leaf last) (leaf operand)
  | node rootOp left right =>
      if table.Takes rootOp op then node rootOp left (right.push table op operand)
      else node op (node rootOp left right) (leaf operand)

/-- The tree of a row, built operator by operator. -/
def build (table : Table Op) (operand : Leaf) (row : List (Op × Leaf)) : Tree Op Leaf :=
  row.foldl (fun tree part => tree.push table part.1 part.2) (leaf operand)

theorem push_reading (table : Table Op) (op : Op) (operand : Leaf) (tree : Tree Op Leaf) :
    (tree.push table op operand).first = tree.first ∧
      (tree.push table op operand).parts = tree.parts ++ [(op, operand)] := by
  induction tree with
  | leaf last => simp [push, first, parts]
  | node rootOp left right leftIH rightIH =>
      unfold push
      split
      · simp [first, parts, rightIH.1, rightIH.2]
      · simp [first, parts]

theorem root_push (table : Table Op) (op : Op) (operand : Leaf) (tree : Tree Op Leaf) :
    (tree.push table op operand).root = some op ∨
      (tree.push table op operand).root = tree.root := by
  cases tree with
  | leaf last => exact Or.inl rfl
  | node rootOp left right =>
      unfold push
      split
      · exact Or.inr rfl
      · exact Or.inl rfl

theorem Respects.push {tree : Tree Op Leaf} (respects : tree.Respects table)
    (op : Op) (operand : Leaf) : (tree.push table op operand).Respects table := by
  induction tree with
  | leaf last => simp [Tree.push, Respects, root]
  | node rootOp left right leftIH rightIH =>
      obtain ⟨leftRoot, rightRoot, leftRespects, rightRespects⟩ := respects
      unfold Tree.push
      split
      case isTrue takes =>
        refine ⟨leftRoot, ?_, leftRespects, rightIH rightRespects⟩
        intro other member
        rcases root_push table op operand right with same | same
        · rw [same] at member
          obtain rfl := Option.some.inj member
          exact takes
        · exact rightRoot other (same ▸ member)
      case isFalse keeps =>
        refine ⟨?_, by simp [root], ⟨leftRoot, rightRoot, leftRespects, rightRespects⟩, trivial⟩
        intro other member
        obtain rfl := Option.some.inj member
        exact keeps

theorem build_reading (table : Table Op) (operand : Leaf) (row : List (Op × Leaf)) :
    (build table operand row).first = operand ∧ (build table operand row).parts = row := by
  have run : ∀ tree : Tree Op Leaf,
      (row.foldl (fun tree part => tree.push table part.1 part.2) tree).first = tree.first ∧
        (row.foldl (fun tree part => tree.push table part.1 part.2) tree).parts =
          tree.parts ++ row := by
    induction row with
    | nil => simp
    | cons part row ih =>
        intro tree
        have pushed := push_reading table part.1 part.2 tree
        simpa [pushed.1, pushed.2] using ih (tree.push table part.1 part.2)
  simpa [build, first, parts] using run (leaf operand)

theorem build_respects (table : Table Op) (operand : Leaf) (row : List (Op × Leaf)) :
    (build table operand row).Respects table := by
  have run : ∀ tree : Tree Op Leaf, tree.Respects table →
      (row.foldl (fun tree part => tree.push table part.1 part.2) tree).Respects table := by
    induction row with
    | nil => exact fun tree respects => respects
    | cons part row ih => exact fun tree respects => ih _ (respects.push part.1 part.2)
  exact run (leaf operand) trivial

/-- Every row has exactly one tree that respects the table. -/
theorem existsUnique_respects (table : Table Op) (operand : Leaf) (row : List (Op × Leaf)) :
    ∃! tree : Tree Op Leaf,
      (tree.first = operand ∧ tree.parts = row) ∧ tree.Respects table := by
  refine ⟨build table operand row, ⟨build_reading table operand row, build_respects table operand row⟩, ?_⟩
  rintro tree ⟨reading, respects⟩
  have built := build_reading table operand row
  exact respects.eq_of_reading (build_respects table operand row)
    (reading.1.trans built.1.symm) (reading.2.trans built.2.symm)

end Tree

end OperatorPrecedence
