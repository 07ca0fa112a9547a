import Mathlib.Algebra.Order.BigOperators.Group.List
import Mathlib.Algebra.Order.Ring.Nat
import Mathlib.Tactic.Common

/-!
# Depth-first walks with a stack

A walk keeps the nodes that it has not visited on a stack.  It takes the top
one, visits it and puts its children on the stack, the first one on top.  It
visits the nodes of a tree in the order of its recursive reading.
-/

namespace RexLang

variable {Node : Type}

/-- Some size of the nodes is greater than that of all children together. -/
def TreeSized (children : Node → List Node) : Prop :=
  ∃ size : Node → Nat, ∀ node, ((children node).map size).sum < size node

namespace TreeSized

variable {children : Node → List Node}

noncomputable def size (sized : TreeSized children) : Node → Nat :=
  sized.choose

theorem sum_lt (sized : TreeSized children) (node : Node) :
    ((children node).map sized.size).sum < sized.size node :=
  sized.choose_spec node

theorem size_lt (sized : TreeSized children) {node child : Node} (isChild : child ∈ children node) :
    sized.size child < sized.size node := by
  have least := List.single_le_sum (l := (children node).map sized.size) (by simp) _
    (List.mem_map_of_mem isChild)
  have sum := sized.sum_lt node
  omega

/-- A node before its children, each with what is below it. -/
def preorder (sized : TreeSized children) (node : Node) : List Node :=
  node :: (children node).attach.flatMap fun child => preorder sized child.1
termination_by sized.size node
decreasing_by exact sized.size_lt child.2

theorem preorder_eq (sized : TreeSized children) (node : Node) :
    sized.preorder node = node :: (children node).flatMap sized.preorder := by
  rw [preorder]
  congr 1
  conv_rhs => rw [← List.attach_map_subtype_val (children node), List.flatMap_map]

variable {Out : Type}

/-- The walk. -/
def visitStack (sized : TreeSized children) (visit : Out → Node → Out) (out : Out) :
    List Node → Out
  | [] => out
  | node :: rest => visitStack sized visit (visit out node) (children node ++ rest)
termination_by stack => (stack.map sized.size).sum
decreasing_by
  have sum := sized.sum_lt node
  rw [List.map_append, List.sum_append, List.map_cons, List.sum_cons]
  omega

/-- The walk visits each node on the stack with what is below it. -/
theorem visitStack_eq_foldl (sized : TreeSized children) (visit : Out → Node → Out) (out : Out)
    (stack : List Node) :
    sized.visitStack visit out stack = (stack.flatMap sized.preorder).foldl visit out := by
  fun_induction visitStack sized visit out stack with
  | case1 => rfl
  | case2 out node rest hypothesis =>
      rw [hypothesis, List.flatMap_cons, preorder_eq, List.flatMap_append, List.cons_append,
        List.foldl_cons]

end TreeSized

end RexLang
