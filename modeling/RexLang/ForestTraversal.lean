import Mathlib.Data.List.Nodup
import Mathlib.Logic.Relation

/-!
# Walks through a forest

Each node lists its children.  Where no node has two parents and a rank grows towards
the children, a walk from the roots visits every node once, under its parent.
-/

namespace RexLang

open Relation

variable {Node : Type}

/-- What a walk visits below a parent, with a limit to its depth: each node after its
parent. -/
def walk (children : Node → List Node) : Nat → Option Node → Node → List (Option Node × Node)
  | 0, _, _ => []
  | depth + 1, parent, node =>
      (parent, node) :: (children node).flatMap (walk children depth (some node))

/-- The walk ends before its limit. -/
def FitsDepth (children : Node → List Node) : Nat → Node → Prop
  | 0, _ => False
  | depth + 1, node => ∀ child ∈ children node, FitsDepth children depth child

/-- No node has two parents or is twice among the children of one, and a rank grows
towards the children. -/
structure IsForest (children : Node → List Node) (roots nodes : List Node)
    (rank : Node → Nat) : Prop where
  distinctRoots : roots.Nodup
  distinctChildren : ∀ node ∈ nodes, (children node).Nodup
  closed : ∀ node ∈ nodes, ∀ child ∈ children node, child ∈ nodes
  oneParent : ∀ first ∈ nodes, ∀ second ∈ nodes, ∀ child ∈ children first,
    child ∈ children second → first = second
  isRoot : ∀ node, node ∈ roots ↔ node ∈ nodes ∧ ∀ parent ∈ nodes, node ∉ children parent
  ranked : ∀ node ∈ nodes, ∀ child ∈ children node, rank node < rank child

section Walks

variable {children : Node → List Node} {roots nodes : List Node} {rank : Node → Nat}

/-- The second node is a child of the first, which is one of the nodes. -/
def IsChild (children : Node → List Node) (nodes : List Node) (node child : Node) : Prop :=
  node ∈ nodes ∧ child ∈ children node

theorem IsForest.mem_of_path (forest : IsForest children roots nodes rank) {start node : Node}
    (isNode : start ∈ nodes) (path : ReflTransGen (IsChild children nodes) start node) :
    node ∈ nodes := by
  induction path with
  | refl => exact isNode
  | tail _ step _ => exact forest.closed _ step.1 _ step.2

theorem IsForest.rank_le_of_path (forest : IsForest children roots nodes rank)
    {start node : Node} (path : ReflTransGen (IsChild children nodes) start node) :
    rank start ≤ rank node := by
  induction path with
  | refl => exact Nat.le_refl _
  | tail _ step hypothesis =>
      have := forest.ranked _ step.1 _ step.2
      omega

/-- What a walk visits is below its start, and each parent is on the way to its child. -/
theorem path_of_mem_walk (forest : IsForest children roots nodes rank) {depth : Nat}
    {parent : Option Node} {start : Node} (isNode : start ∈ nodes) {visited : Option Node × Node}
    (member : visited ∈ walk children depth parent start) :
    visited = (parent, start) ∨ ∃ between,
      ReflTransGen (IsChild children nodes) start between ∧
        IsChild children nodes between visited.2 ∧ visited.1 = some between := by
  induction depth generalizing parent start with
  | zero => cases member
  | succ depth hypothesis =>
      rw [walk, List.mem_cons, List.mem_flatMap] at member
      rcases member with isStart | ⟨child, isChild, below⟩
      · exact .inl isStart
      · right
        rcases hypothesis (forest.closed start isNode child isChild) below with rfl | found
        · exact ⟨start, .refl, ⟨isNode, isChild⟩, rfl⟩
        · obtain ⟨between, path, step, isParent⟩ := found
          exact ⟨between, .head ⟨isNode, isChild⟩ path, step, isParent⟩

theorem path_of_mem_keys (forest : IsForest children roots nodes rank) {depth : Nat}
    {parent : Option Node} {start : Node} (isNode : start ∈ nodes) {node : Node}
    (member : node ∈ (walk children depth parent start).map Prod.snd) :
    ReflTransGen (IsChild children nodes) start node := by
  obtain ⟨visited, isVisited, rfl⟩ := List.mem_map.mp member
  rcases path_of_mem_walk forest isNode isVisited with rfl | ⟨between, path, step, -⟩
  · exact .refl
  · exact path.tail step

/-- Of two nodes above a third one, one is above the other. -/
theorem IsForest.comparable (forest : IsForest children roots nodes rank)
    {first second node : Node} (pathFirst : ReflTransGen (IsChild children nodes) first node)
    (pathSecond : ReflTransGen (IsChild children nodes) second node) :
    ReflTransGen (IsChild children nodes) first second ∨
      ReflTransGen (IsChild children nodes) second first := by
  induction pathFirst with
  | refl => exact .inr pathSecond
  | @tail between last path step hypothesis =>
      rcases ReflTransGen.cases_tail pathSecond with rfl | ⟨other, pathOther, stepOther⟩
      · exact .inl (path.tail step)
      · rw [← forest.oneParent between step.1 other stepOther.1 last step.2 stepOther.2] at pathOther
        exact hypothesis pathOther

/-- A node is not below another one that no parent of it is below. -/
theorem eq_of_path {first second : Node}
    (path : ReflTransGen (IsChild children nodes) first second)
    (notBelow : ∀ parent ∈ nodes, second ∈ children parent →
      ¬ReflTransGen (IsChild children nodes) first parent) : first = second := by
  rcases ReflTransGen.cases_tail path with same | ⟨parent, pathParent, step⟩
  · exact same.symm
  · exact absurd pathParent (notBelow parent step.1 step.2)

/-- The walks from different siblings visit different nodes. -/
theorem IsForest.nodup_siblings (forest : IsForest children roots nodes rank) {depth : Nat}
    {parent : Option Node} {siblings : List Node} (distinct : siblings.Nodup)
    (areNodes : ∀ node ∈ siblings, node ∈ nodes)
    (apart : ∀ first ∈ siblings, ∀ second ∈ siblings, ∀ above ∈ nodes,
      second ∈ children above → ¬ReflTransGen (IsChild children nodes) first above)
    (each : ∀ node ∈ siblings, ((walk children depth parent node).map Prod.snd).Nodup) :
    ((siblings.flatMap (walk children depth parent)).map Prod.snd).Nodup := by
  rw [List.map_flatMap, List.nodup_flatMap]
  refine ⟨each, distinct.imp_of_mem fun {first second} isFirst isSecond different => ?_⟩
  intro node inFirst inSecond
  have pathFirst := path_of_mem_keys forest (areNodes first isFirst) inFirst
  have pathSecond := path_of_mem_keys forest (areNodes second isSecond) inSecond
  rcases forest.comparable pathFirst pathSecond with path | path
  · exact different (eq_of_path path (apart first isFirst second isSecond))
  · exact different (eq_of_path path (apart second isSecond first isFirst)).symm

/-- A walk visits no node twice. -/
theorem IsForest.nodup_walk (forest : IsForest children roots nodes rank) {depth : Nat}
    {parent : Option Node} {node : Node} (isNode : node ∈ nodes) :
    ((walk children depth parent node).map Prod.snd).Nodup := by
  induction depth generalizing parent node with
  | zero => exact List.nodup_nil
  | succ depth hypothesis =>
      rw [walk, List.map_cons, List.nodup_cons]
      constructor
      · intro below
        rw [List.map_flatMap, List.mem_flatMap] at below
        obtain ⟨child, isChild, inChild⟩ := below
        have path := path_of_mem_keys forest (forest.closed node isNode child isChild) inChild
        have lower := forest.ranked node isNode child isChild
        have notHigher : rank child ≤ rank node := forest.rank_le_of_path path
        omega
      · refine forest.nodup_siblings (forest.distinctChildren node isNode)
          (forest.closed node isNode) ?_
          fun child isChild => hypothesis (forest.closed node isNode child isChild)
        intro first isFirst second isSecond above isAbove isChild path
        rw [forest.oneParent above isAbove node isNode second isChild isSecond] at path
        have lower := forest.ranked node isNode first isFirst
        have := forest.rank_le_of_path path
        omega

/-- A walk that ends before its limit visits the children of what it visits. -/
theorem mem_walk_child {depth : Nat} {parent : Option Node} {start : Node}
    (fits : FitsDepth children depth start) {visited : Option Node × Node}
    (member : visited ∈ walk children depth parent start) {child : Node}
    (isChild : child ∈ children visited.2) :
    (some visited.2, child) ∈ walk children depth parent start := by
  induction depth generalizing parent start with
  | zero => cases member
  | succ depth hypothesis =>
      rw [walk, List.mem_cons, List.mem_flatMap] at member ⊢
      rcases member with rfl | ⟨middle, isMiddle, below⟩
      · refine .inr ⟨child, isChild, ?_⟩
        have fitsChild := fits child isChild
        cases depth with
        | zero => exact fitsChild.elim
        | succ depth => exact List.mem_cons_self
      · exact .inr ⟨middle, isMiddle, hypothesis (fits middle isMiddle) below⟩

/-- A walk from the roots that ends before its limit visits each node once, under its
parent if it has one. -/
structure VisitsOnce (children : Node → List Node) (nodes : List Node)
    (visited : List (Option Node × Node)) : Prop where
  once : (visited.map Prod.snd).Nodup
  all : ∀ node, node ∈ visited.map Prod.snd ↔ node ∈ nodes
  below : ∀ parent node, (some parent, node) ∈ visited ↔
    parent ∈ nodes ∧ node ∈ children parent
  top : ∀ node, (none, node) ∈ visited ↔
    node ∈ nodes ∧ ∀ parent ∈ nodes, node ∉ children parent

theorem IsForest.visitsOnce (forest : IsForest children roots nodes rank) {depth : Nat}
    (fits : ∀ root ∈ roots, FitsDepth children depth root) :
    VisitsOnce children nodes (roots.flatMap (walk children depth none)) := by
  have areNodes (root : Node) (isRoot : root ∈ roots) : root ∈ nodes :=
    ((forest.isRoot root).mp isRoot).1
  have isStart (root : Node) (isRoot : root ∈ roots) :
      (none, root) ∈ walk children depth none root := by
    have fitsRoot := fits root isRoot
    cases depth with
    | zero => exact fitsRoot.elim
    | succ depth => exact List.mem_cons_self
  have below (parent node : Node) (isParent : parent ∈ (roots.flatMap
      (walk children depth none)).map Prod.snd) (isChild : node ∈ children parent) :
      (some parent, node) ∈ roots.flatMap (walk children depth none) := by
    obtain ⟨visited, isVisited, rfl⟩ := List.mem_map.mp isParent
    obtain ⟨root, isRoot, inWalk⟩ := List.mem_flatMap.mp isVisited
    exact List.mem_flatMap.mpr ⟨root, isRoot, mem_walk_child (fits root isRoot) inWalk isChild⟩
  -- By induction on the rank, since the parent of a node has a lower one.
  have reached (node : Node) (isNode : node ∈ nodes) :
      node ∈ (roots.flatMap (walk children depth none)).map Prod.snd := by
    induction isRank : rank node using Nat.strongRecOn generalizing node with
    | _ bound hypothesis =>
        by_cases isTop : ∀ parent ∈ nodes, node ∉ children parent
        · have isRoot := (forest.isRoot node).mpr ⟨isNode, isTop⟩
          exact List.mem_map.mpr
            ⟨(none, node), List.mem_flatMap.mpr ⟨node, isRoot, isStart node isRoot⟩, rfl⟩
        · simp only [not_forall, not_not] at isTop
          obtain ⟨parent, isParent, isChild⟩ := isTop
          have lower : rank parent < bound := isRank ▸ forest.ranked parent isParent node isChild
          have isReached := hypothesis (rank parent) lower parent isParent rfl
          exact List.mem_map.mpr ⟨_, below parent node isReached isChild, rfl⟩
  refine ⟨?_, fun node => ⟨?_, reached node⟩, fun parent node => ⟨?_, ?_⟩, fun node => ⟨?_, ?_⟩⟩
  · refine forest.nodup_siblings forest.distinctRoots areNodes ?_
      fun root isRoot => forest.nodup_walk (areNodes root isRoot)
    intro first _ second isSecond above isAbove isChild _
    exact ((forest.isRoot second).mp isSecond).2 above isAbove isChild
  · intro member
    rw [List.map_flatMap, List.mem_flatMap] at member
    obtain ⟨root, isRoot, inWalk⟩ := member
    exact forest.mem_of_path (areNodes root isRoot)
      (path_of_mem_keys forest (areNodes root isRoot) inWalk)
  · intro member
    obtain ⟨root, isRoot, inWalk⟩ := List.mem_flatMap.mp member
    rcases path_of_mem_walk forest (areNodes root isRoot) inWalk with same | found
    · cases same
    · obtain ⟨between, -, step, isParent⟩ := found
      cases isParent
      exact step
  · rintro ⟨isParent, isChild⟩
    exact below parent node (reached parent isParent) isChild
  · intro member
    obtain ⟨root, isRoot, inWalk⟩ := List.mem_flatMap.mp member
    rcases path_of_mem_walk forest (areNodes root isRoot) inWalk with same | found
    · cases same
      exact (forest.isRoot _).mp isRoot
    · obtain ⟨between, -, -, isParent⟩ := found
      cases isParent
  · intro isTop
    have isRoot := (forest.isRoot node).mpr isTop
    exact List.mem_flatMap.mpr ⟨node, isRoot, isStart node isRoot⟩

end Walks

end RexLang
