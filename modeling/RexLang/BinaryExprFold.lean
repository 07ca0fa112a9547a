import RexLang.OperatorPrecedenceTree
import RexLang.Token

/-!
# Folding operator chains

The syntax tree builder receives a chain of operands and binary operators and
folds it with a precedence climber (`fold_binary_expr` in `ast_builder.rs`).
The climber hands all later operators to the right operand as soon as the next
operator binds tighter, and never comes back.  This file compares its result
with the tree that the operator table prescribes.
-/

namespace RexLang

open OperatorPrecedence

def isLeftAssociativeBinary (token : Token) : Bool :=
  match token.kind with
  | .add | .and | .div | .mul | .mod | .or | .sub => true
  | _ => false

/-- The text `make_binary_expr` gives an operator other than `::`.  On a
binary operator the last branch of the source, the token's own text, is the
same table. -/
def binaryOperatorName (operator : BinaryOperator) : String :=
  (binaryOperatorTokenName operator.1.kind).get operator.2

def makeBinaryExpr (lhs : Expr) (operator : BinaryOperator) (rhs : Expr) : Expr :=
  let opSpan := operator.1.span
  let innerSpan := Span.fromBeginEnd lhs.span.begin opSpan.end
  let outerSpan := Span.fromBeginEnd lhs.span.begin rhs.span.end
  let name := match operator.1.kind with
    | .colonColon => "List.Cons"
    | _ => binaryOperatorName operator
  .app outerSpan (.app innerSpan (.var ⟨opSpan, name⟩) lhs) rhs

/-- `next_binary_expr_takes_precedence`: the comparison with the operator after
the one at the index. -/
def nextBinaryExprTakesPrecedence (operator : BinaryOperator)
    (rest : List (BinaryOperator × Expr)) : Bool :=
  match rest with
  | [] => false
  | (next, _) :: _ =>
      if next.1.precedence < operator.1.precedence then false
      else if operator.1.precedence = next.1.precedence then
        !isLeftAssociativeBinary operator.1
      else true

/-- `fold_binary_from`.  The shared index of the source is the list of parts
not consumed yet, which the call returns. -/
def foldBinaryFrom (lhs : Expr) (parts : List (BinaryOperator × Expr)) :
    Expr × { rest : List (BinaryOperator × Expr) // rest.length ≤ parts.length } :=
  match parts with
  | [] => (lhs, ⟨[], Nat.le_refl _⟩)
  | (operator, rhs) :: rest =>
      if nextBinaryExprTakesPrecedence operator rest then
        let (rhs, remaining) := foldBinaryFrom rhs rest
        let (result, final) := foldBinaryFrom (makeBinaryExpr lhs operator rhs) remaining.1
        (result, ⟨final.1, by have := remaining.2; have := final.2; simp; omega⟩)
      else
        let (result, final) := foldBinaryFrom (makeBinaryExpr lhs operator rhs) rest
        (result, ⟨final.1, by have := final.2; simp; omega⟩)
termination_by parts.length
decreasing_by
  all_goals simp
  have := remaining.2
  omega

/-- `fold_binary_expr`; `none` is the panic of removing the first of no
operands. -/
def foldBinaryExpr (operands : List Expr) (operators : List BinaryOperator) : Option Expr :=
  match operands with
  | [] => none
  | lhs :: operands => some (foldBinaryFrom lhs (operators.zip operands)).1

/-- The precedence levels of the lexer with the associativity of the builder. -/
def operatorTable : Table BinaryOperator where
  precedence operator := operator.1.precedence
  leftAssociative operator := isLeftAssociativeBinary operator.1
  uniform := by
    rintro ⟨⟨first, _⟩, firstBinary⟩ ⟨⟨second, _⟩, secondBinary⟩ same
    cases first <;> simp [binaryOperatorTokenName, operatorTokenName] at firstBinary <;>
      cases second <;> simp [binaryOperatorTokenName, operatorTokenName] at secondBinary <;>
      simp_all [Token.precedence, isLeftAssociativeBinary]

/-- Trees of operands and operators, to be turned into applications. -/
abbrev OperandTree := Tree BinaryOperator Expr

def OperandTree.toExpr : OperandTree → Expr
  | .leaf operand => operand
  | .node operator left right =>
      makeBinaryExpr (OperandTree.toExpr left) operator (OperandTree.toExpr right)

/-- The tree that the climber builds onto `tree`. -/
def climb (tree : OperandTree) : List (BinaryOperator × Expr) → OperandTree
  | [] => tree
  | (operator, rhs) :: rest =>
      if nextBinaryExprTakesPrecedence operator rest then
        .node operator tree (climb (.leaf rhs) rest)
      else
        climb (.node operator tree (.leaf rhs)) rest

/-- The inner call of the climber consumes every remaining part, so the call
after it has nothing left to do. -/
theorem foldBinaryFrom_eq_climb (tree : OperandTree) (parts : List (BinaryOperator × Expr)) :
    (foldBinaryFrom tree.toExpr parts).1 = (climb tree parts).toExpr ∧
      (foldBinaryFrom tree.toExpr parts).2.1 = [] := by
  induction parts generalizing tree with
  | nil => simp [foldBinaryFrom, climb]
  | cons part rest ih =>
      obtain ⟨operator, rhs⟩ := part
      rw [foldBinaryFrom, climb]
      split
      · have inner := ih (.leaf rhs)
        simp only [OperandTree.toExpr] at inner
        rcases called : foldBinaryFrom rhs rest with ⟨result, remaining, bound⟩
        rw [called] at inner
        obtain ⟨rfl, rfl⟩ : result = _ ∧ remaining = [] := inner
        simp [foldBinaryFrom, OperandTree.toExpr]
      · exact ih (.node operator tree (.leaf rhs))

theorem nextBinaryExprTakesPrecedence_cons (operator next : BinaryOperator) (operand : Expr)
    (rest : List (BinaryOperator × Expr)) :
    nextBinaryExprTakesPrecedence operator ((next, operand) :: rest) = true ↔
      operatorTable.Takes operator next := by
  simp only [nextBinaryExprTakesPrecedence, Table.Takes, operatorTable]
  split
  · simp
    omega
  · split <;> simp_all
    omega

theorem climb_reading (tree : OperandTree) (parts : List (BinaryOperator × Expr)) :
    (climb tree parts).first = tree.first ∧ (climb tree parts).parts = tree.parts ++ parts := by
  induction parts generalizing tree with
  | nil => simp [climb]
  | cons part rest ih =>
      obtain ⟨operator, rhs⟩ := part
      rw [climb]
      split
      · have inner := ih (.leaf rhs)
        simp only [Tree.first, Tree.parts, List.nil_append] at inner
        simp [Tree.first, Tree.parts, inner.1, inner.2]
      · have inner := ih (.node operator tree (.leaf rhs))
        simpa [Tree.first, Tree.parts] using inner

/-- Once an operator has been followed by one that takes its right operand,
every later operator of the chain takes one from it too. -/
def StaysTight : List BinaryOperator → Prop
  | operator :: next :: rest =>
      (operatorTable.Takes operator next → ∀ later ∈ rest, operatorTable.Takes operator later) ∧
        StaysTight (next :: rest)
  | _ => True

instance decidableStaysTight : (operators : List BinaryOperator) → Decidable (StaysTight operators)
  | [] | [_] => .isTrue trivial
  | _ :: next :: rest =>
      have : Decidable (StaysTight (next :: rest)) := decidableStaysTight (next :: rest)
      inferInstanceAs (Decidable (_ ∧ _))

/-- The climber respects the table exactly when the chain stays tight: all that
remains of the chain ends up below the operator that handed it on. -/
theorem climb_respects_iff (tree : OperandTree) (parts : List (BinaryOperator × Expr))
    (keeps : ∀ above ∈ tree.root, ∀ next ∈ (parts.map Prod.fst).head?,
      ¬ operatorTable.Takes above next) :
    (climb tree parts).Respects operatorTable ↔
      tree.Respects operatorTable ∧ StaysTight (parts.map Prod.fst) := by
  induction parts generalizing tree with
  | nil => simp [climb, StaysTight]
  | cons part rest ih =>
      obtain ⟨operator, rhs⟩ := part
      have rootKeeps : ∀ other ∈ tree.root, ¬ operatorTable.Takes other operator := by
        intro other member
        exact keeps other member operator (by simp)
      rw [climb]
      split
      case isTrue takes =>
        cases rest with
        | nil => simp [nextBinaryExprTakesPrecedence] at takes
        | cons nextPart rest =>
            obtain ⟨next, nextOperand⟩ := nextPart
            rw [nextBinaryExprTakesPrecedence_cons] at takes
            have below := ih (.leaf rhs) (by simp [Tree.root])
            have reading := climb_reading (.leaf rhs) ((next, nextOperand) :: rest)
            have opsBelow : (climb (.leaf rhs) ((next, nextOperand) :: rest)).ops =
                next :: rest.map Prod.fst := by
              simp [Tree.ops, reading.2, Tree.parts]
            constructor
            · intro respects
              have split := respects.split_root _ _ _ rfl
              rw [opsBelow] at split
              obtain ⟨-, -, treeRespects, belowRespects⟩ := respects
              refine ⟨treeRespects, fun _ later member => ?_, (below.mp belowRespects).2⟩
              exact split.2 later (List.mem_cons_of_mem next member)
            · rintro ⟨treeRespects, tight, restTight⟩
              refine ⟨rootKeeps, ?_, treeRespects, below.mpr ⟨trivial, restTight⟩⟩
              intro other member
              have present := Tree.mem_ops_of_mem_root member
              rw [opsBelow, List.mem_cons] at present
              rcases present with rfl | present
              · exact takes
              · exact tight takes other present
      case isFalse loose =>
        have nextKeeps : ∀ next ∈ (rest.map Prod.fst).head?,
            ¬ operatorTable.Takes operator next := by
          intro next member
          cases rest with
          | nil => simp at member
          | cons nextPart rest =>
              obtain ⟨found, nextOperand⟩ := nextPart
              obtain rfl : found = next := by simpa using member
              rwa [← nextBinaryExprTakesPrecedence_cons operator found nextOperand rest]
        rw [ih (.node operator tree (.leaf rhs)) (by simpa [Tree.root] using nextKeeps)]
        have tight : StaysTight (operator :: rest.map Prod.fst) ↔
            StaysTight (rest.map Prod.fst) := by
          cases rest with
          | nil => simp [StaysTight]
          | cons nextPart rest =>
              have := nextKeeps nextPart.1 (by simp)
              simp [StaysTight, this]
        simp [Tree.Respects, Tree.root, tight]
        tauto

/-- Application nodes met without entering any other form. -/
def Expr.applications : Expr → Nat
  | .app _ func arg => func.applications + arg.applications + 1
  | _ => 0

theorem applications_makeBinaryExpr (lhs rhs : Expr) (operator : BinaryOperator) :
    (makeBinaryExpr lhs operator rhs).applications = lhs.applications + rhs.applications + 2 := by
  simp [makeBinaryExpr, Expr.applications]
  omega

theorem applications_toExpr (tree : OperandTree) :
    tree.toExpr.applications =
      tree.first.applications + (tree.parts.map fun part => part.2.applications + 2).sum := by
  induction tree with
  | leaf operand => simp [OperandTree.toExpr, Tree.first, Tree.parts]
  | node operator left right leftIH rightIH =>
      rw [OperandTree.toExpr, applications_makeBinaryExpr, leftIH, rightIH]
      simp [Tree.first, Tree.parts]
      omega

/-- Trees with one reading are told apart by the expressions they build, even
when operands are themselves applications: a longer left part has strictly more
application nodes. -/
theorem toExpr_injective_of_reading {first second : OperandTree}
    (sameFirst : first.first = second.first) (sameParts : first.parts = second.parts)
    (sameExpr : first.toExpr = second.toExpr) : first = second := by
  induction first generalizing second with
  | leaf operand =>
      rw [Tree.parts_eq_nil_iff.mp sameParts.symm, ← sameFirst]
      rfl
  | node firstOp firstLeft firstRight leftIH rightIH =>
      cases second with
      | leaf operand => simp [Tree.parts] at sameParts
      | node secondOp secondLeft secondRight =>
          simp only [OperandTree.toExpr, makeBinaryExpr, Expr.app.injEq] at sameExpr
          obtain ⟨-, ⟨-, -, sameLeft⟩, sameRight⟩ := sameExpr
          have sameSum := congrArg Expr.applications sameLeft
          rw [applications_toExpr, applications_toExpr] at sameSum
          have leftFirst : firstLeft.first = secondLeft.first := sameFirst
          rw [leftFirst] at sameSum
          have sameLength : firstLeft.parts.length = secondLeft.parts.length := by
            rcases List.append_eq_append_iff.mp sameParts with
              ⟨extra, split, -⟩ | ⟨extra, split, -⟩
            · rw [split] at sameSum
              cases extra with
              | nil => simp [split]
              | cons part extra => simp at sameSum
            · rw [split] at sameSum
              cases extra with
              | nil => simp [split]
              | cons part extra => simp at sameSum
          obtain ⟨leftParts, rightParts⟩ := List.append_inj sameParts sameLength
          obtain ⟨rootPair, tailParts⟩ := List.cons.inj rightParts
          obtain ⟨rfl, rightFirst⟩ := Prod.mk.inj rootPair
          rw [leftIH leftFirst leftParts sameLeft, rightIH rightFirst tailParts sameRight]

/-- The expression is built from the tree that the operator table prescribes for
the chain. -/
def Prescribed (lhs : Expr) (parts : List (BinaryOperator × Expr)) (expr : Expr) : Prop :=
  ∃ tree : OperandTree, (tree.first = lhs ∧ tree.parts = parts) ∧
    tree.Respects operatorTable ∧ tree.toExpr = expr

/-- The fold builds the tree of `climb`. -/
theorem foldBinaryExpr_eq_climb (lhs : Expr) (parts : List (BinaryOperator × Expr)) :
    foldBinaryExpr (lhs :: parts.map Prod.snd) (parts.map Prod.fst) =
      some (climb (.leaf lhs) parts).toExpr := by
  have zipped : (parts.map Prod.fst).zip (parts.map Prod.snd) = parts := by
    simp [List.zip_map']
  rw [← (foldBinaryFrom_eq_climb (.leaf lhs) parts).1]
  exact congrArg (fun row => some (foldBinaryFrom lhs row).1) zipped

theorem prescribed_climb_iff (lhs : Expr) (parts : List (BinaryOperator × Expr)) :
    Prescribed lhs parts (climb (.leaf lhs) parts).toExpr ↔ StaysTight (parts.map Prod.fst) := by
  have reading := climb_reading (.leaf lhs) parts
  have respects := climb_respects_iff (.leaf lhs) parts (by simp [Tree.root])
  constructor
  · rintro ⟨tree, sameReading, treeRespects, sameExpr⟩
    have same : tree = climb (.leaf lhs) parts :=
      toExpr_injective_of_reading (sameReading.1.trans reading.1.symm)
        (sameReading.2.trans reading.2.symm) sameExpr
    exact (respects.mp (same ▸ treeRespects)).2
  · intro tight
    exact ⟨climb (.leaf lhs) parts, reading, respects.mpr ⟨trivial, tight⟩, rfl⟩

/-- Every chain has exactly one tree in reading order that respects the operator
table, and the fold of the source builds it exactly when the chain stays tight. -/
theorem foldBinaryExpr_prescribed_iff (lhs : Expr) (parts : List (BinaryOperator × Expr)) :
    (∃! tree : OperandTree, (tree.first = lhs ∧ tree.parts = parts) ∧
        tree.Respects operatorTable) ∧
      ((∃ expr, foldBinaryExpr (lhs :: parts.map Prod.snd) (parts.map Prod.fst) = some expr ∧
          Prescribed lhs parts expr) ↔ StaysTight (parts.map Prod.fst)) := by
  refine ⟨Tree.existsUnique_respects operatorTable lhs parts, ?_⟩
  simp only [foldBinaryExpr_eq_climb, Option.some.injEq, exists_eq_left']
  exact prescribed_climb_iff lhs parts

/-- `a - b * c - d` is folded as `a - ((b * c) - d)`. -/
theorem foldBinaryExpr_sub_mul_sub :
    let minus : BinaryOperator := ⟨⟨.sub, .default⟩, rfl⟩
    let times : BinaryOperator := ⟨⟨.mul, .default⟩, rfl⟩
    let operand (name : Symbol) : Expr := .var ⟨.default, name⟩
    let parts := [(minus, operand "b"), (times, operand "c"), (minus, operand "d")]
    foldBinaryExpr (operand "a" :: parts.map Prod.snd) (parts.map Prod.fst) =
        some (makeBinaryExpr (operand "a") minus
          (makeBinaryExpr (makeBinaryExpr (operand "b") times (operand "c")) minus
            (operand "d"))) ∧
      ¬ ∃ expr, foldBinaryExpr (operand "a" :: parts.map Prod.snd) (parts.map Prod.fst) =
        some expr ∧ Prescribed (operand "a") parts expr := by
  intro minus times operand parts
  simp only [foldBinaryExpr_eq_climb, Option.some.injEq, exists_eq_left']
  rw [prescribed_climb_iff]
  exact ⟨rfl, by decide⟩

end RexLang
