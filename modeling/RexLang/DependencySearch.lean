import Mathlib.Data.List.Nodup
import Mathlib.Logic.Relation
import RexLang.FallibleResults

/-!
# Searches along dependencies

Two searches of a finite graph whose edges are the dependencies of a node: one breadth
first, which lists what can be reached, and one depth first, which puts the dependencies
of a node before it and rejects a cycle.
-/

namespace RexLang

variable {Node Error : Type} [DecidableEq Node]

/-- The number of nodes that are not in a list. -/
def unseen (nodes seen : List Node) : Nat :=
  (nodes.filter (· ∉ seen)).length

theorem unseen_append_lt {nodes seen : List Node} {node : Node} (isNode : node ∈ nodes)
    (isNew : node ∉ seen) : unseen nodes (seen ++ [node]) < unseen nodes seen := by
  have sublist : (nodes.filter (· ∉ seen ++ [node])).Sublist (nodes.filter (· ∉ seen)) := by
    refine List.monotone_filter_right nodes fun other isUnseen => ?_
    simp only [List.mem_append, decide_eq_true_eq] at isUnseen ⊢
    exact fun before => isUnseen (.inl before)
  refine Nat.lt_of_le_of_ne sublist.length_le fun same => ?_
  have inside : node ∈ nodes.filter (· ∉ seen) := List.mem_filter.mpr ⟨isNode, by simpa using isNew⟩
  rw [← sublist.eq_of_length same] at inside
  simp at inside

omit [DecidableEq Node] in
theorem nodup_append_singleton {list : List Node} {node : Node} (distinct : list.Nodup)
    (isNew : node ∉ list) : (list ++ [node]).Nodup := by
  rw [← List.concat_eq_append]
  exact distinct.concat isNew

section Searches

variable (nodes : List Node) (dependencies : Node → Except Error (List Node))
  (missing : Node → Error)

/-- The nodes that the queue leads to, in the order in which they are found. -/
def searchQueue : List Node → List Node → Except Error (List Node)
  | [], found => .ok found
  | node :: queue, found =>
      if node ∈ found then searchQueue queue found
      else if _isNode : node ∈ nodes then do
        let next ← dependencies node
        searchQueue (queue ++ next) (found ++ [node])
      else .error (missing node)
termination_by queue found => (unseen nodes found, queue.length)
decreasing_by
  · exact Prod.Lex.right _ (by simp)
  · exact Prod.Lex.left _ _ (unseen_append_lt _isNode (by assumption))

variable (cyclic : List Node → Error)

/-- The nodes so far, then the dependencies of the node and the node itself, unless they
are there; `visiting` is the path to the node. -/
def visit (visiting ordered : List Node) (node : Node) : Except Error (List Node) :=
  if node ∈ ordered then .ok ordered
  else if _isVisiting : node ∈ visiting then
    .error (cyclic (visiting.dropWhile (· ≠ node) ++ [node]))
  else if _isNode : node ∈ nodes then do
    let next ← dependencies node
    let ordered ← next.foldlM (fun ordered dependency => visit (visiting ++ [node]) ordered dependency)
      ordered
    return ordered ++ [node]
  else .error (missing node)
termination_by unseen nodes visiting
decreasing_by exact unseen_append_lt _isNode _isVisiting

end Searches

/-! ## What is reached -/

section Correctness

open Relation

variable {nodes : List Node} {dependencies : Node → Except Error (List Node)}
  {missing : Node → Error} {next : Node → List Node} {inside : Node → Prop}

/-- The second node is a dependency of the first. -/
def DependsOn (next : Node → List Node) (node other : Node) : Prop :=
  other ∈ next node

/-- The dependencies of some of the nodes are known, and are among them. -/
structure Closes (nodes : List Node) (inside : Node → Prop)
    (dependencies : Node → Except Error (List Node)) (next : Node → List Node) : Prop where
  isNode : ∀ node, inside node → node ∈ nodes
  known : ∀ node, inside node → dependencies node = .ok (next node)
  closed : ∀ node, inside node → ∀ other ∈ next node, inside other

omit [DecidableEq Node] in
/-- What a covered list reaches is in the list, or reached from the queue. -/
theorem reached_of_covered {found queue : List Node}
    (covered : ∀ node ∈ found, ∀ other ∈ next node, other ∈ found ∨ other ∈ queue)
    {start node : Node} (isStart : start ∈ found) (path : ReflTransGen (DependsOn next) start node) :
    node ∈ found ∨ ∃ other ∈ queue, ReflTransGen (DependsOn next) other node := by
  induction path using ReflTransGen.head_induction_on with
  | refl => exact .inl isStart
  | @head start middle step path hypothesis =>
      obtain inside | inQueue := covered start isStart middle step
      · exact hypothesis inside
      · exact .inr ⟨middle, inQueue, path⟩

/-- The breadth-first search lists what its queue reaches, each node once. -/
theorem exists_searchQueue (closes : Closes nodes inside dependencies next)
    {queue found : List Node} (inQueue : ∀ node ∈ queue, inside node) (distinct : found.Nodup)
    (covered : ∀ node ∈ found, ∀ other ∈ next node, other ∈ found ∨ other ∈ queue) :
    ∃ result, searchQueue nodes dependencies missing queue found = .ok result ∧ result.Nodup ∧
      ∀ node, node ∈ result ↔
        node ∈ found ∨ ∃ start ∈ queue, ReflTransGen (DependsOn next) start node := by
  induction queue, found using searchQueue.induct nodes with
  | case1 found => exact ⟨found, by rw [searchQueue], distinct, by simp⟩
  | case2 node queue found isFound hypothesis =>
      have coveredRest : ∀ other ∈ found, ∀ dependency ∈ next other,
          dependency ∈ found ∨ dependency ∈ queue := by
        intro other member dependency isNext
        obtain inside | inQueue := covered other member dependency isNext
        · exact .inl inside
        · obtain rfl | inQueue := List.mem_cons.mp inQueue
          · exact .inl isFound
          · exact .inr inQueue
      obtain ⟨result, runs, nodup, members⟩ :=
        hypothesis (fun other member => inQueue other (.tail _ member)) distinct coveredRest
      refine ⟨result, by rw [searchQueue, if_pos isFound, runs], nodup, fun other => ?_⟩
      rw [members]
      constructor
      · rintro (inside | ⟨start, member, path⟩)
        · exact .inl inside
        · exact .inr ⟨start, .tail _ member, path⟩
      · rintro (inside | ⟨start, member, path⟩)
        · exact .inl inside
        · obtain rfl | member := List.mem_cons.mp member
          · exact reached_of_covered coveredRest isFound path
          · exact .inr ⟨start, member, path⟩
  | case3 node queue found isNew isNode hypothesis =>
      have coveredRest : ∀ other ∈ found ++ [node], ∀ dependency ∈ next other,
          dependency ∈ found ++ [node] ∨ dependency ∈ queue ++ next node := by
        intro other member dependency isNext
        obtain before | isLast := List.mem_append.mp member
        · obtain inside | inQueue := covered other before dependency isNext
          · exact .inl (List.mem_append_left _ inside)
          · obtain rfl | inQueue := List.mem_cons.mp inQueue
            · exact .inl (by simp)
            · exact .inr (List.mem_append_left _ inQueue)
        · rw [List.mem_singleton.mp isLast] at isNext
          exact .inr (List.mem_append_right _ isNext)
      have isInside := inQueue node List.mem_cons_self
      have inQueueRest : ∀ other ∈ queue ++ next node, inside other := by
        intro other member
        obtain before | isNext := List.mem_append.mp member
        · exact inQueue other (.tail _ before)
        · exact closes.closed node isInside other isNext
      obtain ⟨result, runs, nodup, members⟩ :=
        hypothesis (next node) inQueueRest (nodup_append_singleton distinct isNew) coveredRest
      refine ⟨result, ?_, nodup, fun other => ?_⟩
      · rw [searchQueue, if_neg isNew, dif_pos isNode, closes.known node isInside]
        exact runs
      · rw [members]
        constructor
        · rintro (inside | ⟨start, member, path⟩)
          · obtain inside | isLast := List.mem_append.mp inside
            · exact .inl inside
            · rw [List.mem_singleton.mp isLast]
              exact .inr ⟨node, List.mem_cons_self, .refl⟩
          · obtain inQueue | isNext := List.mem_append.mp member
            · exact .inr ⟨start, .tail _ inQueue, path⟩
            · exact .inr ⟨node, List.mem_cons_self, .head isNext path⟩
        · rintro (inside | ⟨start, member, path⟩)
          · exact .inl (List.mem_append_left _ inside)
          · obtain rfl | inQueue := List.mem_cons.mp member
            · exact reached_of_covered coveredRest (by simp) path
            · exact .inr ⟨start, List.mem_append_left _ inQueue, path⟩
  | case4 node queue found isNew notNode =>
      exact absurd (closes.isNode node (inQueue node List.mem_cons_self)) notNode

/-! ## Orders -/

/-- The list has each of its nodes once, and after all its dependencies. -/
inductive Orders (inside : Node → Prop) (next : Node → List Node) : List Node → Prop where
  | nil : Orders inside next []
  | append {ordered node} (orders : Orders inside next ordered) (isInside : inside node)
      (isNew : node ∉ ordered) (after : ∀ other ∈ next node, other ∈ ordered) :
      Orders inside next (ordered ++ [node])

omit [DecidableEq Node] in
theorem Orders.distinct {ordered : List Node} (orders : Orders inside next ordered) :
    ordered.Nodup := by
  induction orders with
  | nil => exact .nil
  | append _ _ isNew _ hypothesis => exact nodup_append_singleton hypothesis isNew

omit [DecidableEq Node] in
theorem Orders.isInside {ordered : List Node} (orders : Orders inside next ordered) :
    ∀ node ∈ ordered, inside node := by
  induction orders with
  | nil => simp
  | append _ isLastInside _ _ hypothesis =>
      intro other member
      obtain before | isLast := List.mem_append.mp member
      · exact hypothesis other before
      · rw [List.mem_singleton.mp isLast]
        exact isLastInside

variable {cyclic : List Node → Error}

/-- What a visit of the nodes, in any state of the search, adds to the order. -/
def Visits (next : Node → List Node) (inside : Node → Prop)
    (action : List Node → Except Error (List Node)) (roots : List Node) : Prop :=
  ∀ ordered, Orders inside next ordered →
    ∃ later, action ordered = .ok later ∧ Orders inside next later ∧ ordered ⊆ later ∧
      roots ⊆ later ∧
      ∀ other ∈ later, other ∈ ordered ∨ ∃ root ∈ roots, ReflTransGen (DependsOn next) root other

omit [DecidableEq Node] in
theorem visits_foldlM {action : List Node → Node → Except Error (List Node)} {roots : List Node}
    (each : ∀ root ∈ roots, Visits next inside (action · root) [root]) :
    Visits next inside (fun ordered => roots.foldlM action ordered) roots := by
  induction roots with
  | nil => exact fun ordered orders => ⟨ordered, rfl, orders, by simp, by simp, by simp⟩
  | cons root roots hypothesis =>
      intro ordered orders
      obtain ⟨middle, runs, ordersMiddle, keeps, hasRoot, reached⟩ :=
        each root List.mem_cons_self ordered orders
      obtain ⟨later, runsRest, ordersLater, keepsRest, hasRest, reachedRest⟩ :=
        hypothesis (fun other member => each other (.tail _ member)) middle ordersMiddle
      refine ⟨later, ?_, ordersLater, fun _ member => keepsRest (keeps member), ?_, ?_⟩
      · change action ordered root = .ok middle at runs
        beta_reduce
        rw [List.foldlM_cons, runs]
        exact runsRest
      · intro other member
        obtain rfl | member := List.mem_cons.mp member
        · exact keepsRest (hasRoot (List.mem_singleton_self other))
        · exact hasRest member
      · intro other member
        obtain inMiddle | ⟨start, isStart, path⟩ := reachedRest other member
        · obtain inside | ⟨start, isStart, path⟩ := reached other inMiddle
          · exact .inl inside
          · rw [List.mem_singleton.mp isStart] at path
            exact .inr ⟨root, List.mem_cons_self, path⟩
        · exact .inr ⟨start, .tail _ isStart, path⟩

/-- Without a cycle, the depth-first search adds the node after all it depends on. -/
theorem visits_visit (closes : Closes nodes inside dependencies next)
    (acyclic : ∀ node, inside node → ¬TransGen (DependsOn next) node node) {visiting : List Node}
    {node : Node} (isInside : inside node) (leads : ∀ other ∈ visiting, TransGen (DependsOn next) other node) :
    Visits next inside
      (fun ordered => visit nodes dependencies missing cyclic visiting ordered node) [node] := by
  induction measure : unseen nodes visiting using Nat.strongRecOn
    generalizing visiting node with
  | _ measure hypothesis =>
      subst measure
      intro ordered orders
      have isNode := closes.isNode node isInside
      have notVisiting : node ∉ visiting := fun member => acyclic node isInside (leads node member)
      beta_reduce
      rw [visit]
      by_cases isOrdered : node ∈ ordered
      · refine ⟨ordered, if_pos isOrdered, orders, fun _ member => member, by simpa using isOrdered,
          fun _ member => .inl member⟩
      · have less := unseen_append_lt isNode notVisiting
        have leadsNext : ∀ dependency ∈ next node, ∀ other ∈ visiting ++ [node],
            TransGen (DependsOn next) other dependency := by
          intro dependency isNext other member
          obtain before | isLast := List.mem_append.mp member
          · exact (leads other before).tail isNext
          · rw [List.mem_singleton.mp isLast]
            exact .single isNext
        obtain ⟨middle, runs, ordersMiddle, keeps, hasNext, reached⟩ :=
          visits_foldlM (fun dependency isNext =>
            hypothesis _ less (closes.closed node isInside dependency isNext)
              (leadsNext dependency isNext) rfl) ordered orders
        have isNew : node ∉ middle := by
          intro inside
          obtain before | ⟨dependency, isNext, path⟩ := reached node inside
          · exact isOrdered before
          · exact acyclic node isInside (TransGen.head' isNext path)
        refine ⟨middle ++ [node], ?_, ordersMiddle.append isInside isNew hasNext,
          fun _ member => List.mem_append_left _ (keeps member), by simp, ?_⟩
        · rw [if_neg isOrdered, dif_neg notVisiting, dif_pos isNode, closes.known node isInside]
          exact bind_eq_ok.mpr ⟨_, rfl, bind_eq_ok.mpr ⟨middle, runs, rfl⟩⟩
        · intro other member
          obtain inMiddle | isLast := List.mem_append.mp member
          · obtain inside | ⟨dependency, isNext, path⟩ := reached other inMiddle
            · exact .inl inside
            · exact .inr ⟨node, List.mem_singleton_self node, .head isNext path⟩
          · rw [List.mem_singleton.mp isLast]
            exact .inr ⟨node, List.mem_singleton_self node, .refl⟩

/-- Without a cycle, visiting all nodes orders them. -/
theorem exists_order (closes : Closes nodes (· ∈ nodes) dependencies next)
    (acyclic : ∀ node ∈ nodes, ¬TransGen (DependsOn next) node node) :
    ∃ ordered, nodes.foldlM (visit nodes dependencies missing cyclic []) [] = .ok ordered ∧
      Orders (· ∈ nodes) next ordered ∧ ∀ node, node ∈ ordered ↔ node ∈ nodes := by
  obtain ⟨ordered, runs, orders, -, all, -⟩ := visits_foldlM (fun node isNode =>
    visits_visit closes acyclic isNode fun _ member => absurd member List.not_mem_nil) [] .nil
  exact ⟨ordered, runs, orders, fun node => ⟨orders.isInside node, fun isNode => all isNode⟩⟩

/-! ## Runs that succeed -/

omit [DecidableEq Node] in
theorem Orders.subset_of_split {ordered : List Node} (orders : Orders inside next ordered)
    {before after : List Node} {node : Node} (split : ordered = before ++ node :: after) :
    ∀ other ∈ next node, other ∈ before := by
  induction orders generalizing before after with
  | nil => simp at split
  | @append ordered last orders isInside isNew leads hypothesis =>
      obtain rfl | ⟨after, final, rfl⟩ := after.eq_nil_or_concat'
      · obtain ⟨rfl, sameLast⟩ := List.append_inj' split rfl
        rw [List.singleton_inj.mp sameLast] at leads
        exact leads
      · rw [← List.cons_append, ← List.append_assoc] at split
        exact hypothesis (List.append_inj' split rfl).1

omit [DecidableEq Node] in
/-- What the nodes of an order reach is in the order, and not one of them reaches itself. -/
theorem Orders.acyclic {ordered : List Node} (orders : Orders inside next ordered) :
    ∀ node ∈ ordered, ∀ other, TransGen (DependsOn next) node other →
      other ∈ ordered ∧ other ≠ node := by
  induction orders with
  | nil => simp
  | @append ordered last orders isInside isNew leads hypothesis =>
      intro node member other path
      obtain before | isLast := List.mem_append.mp member
      · obtain ⟨isOrdered, differ⟩ := hypothesis node before other path
        exact ⟨List.mem_append_left _ isOrdered, differ⟩
      · obtain rfl := List.mem_singleton.mp isLast
        obtain ⟨middle, step, rest⟩ := TransGen.head'_iff.mp path
        have isMiddle := leads middle step
        have isOrdered : other ∈ ordered := by
          obtain rfl | rest := reflTransGen_iff_eq_or_transGen.mp rest
          · exact isMiddle
          · exact (hypothesis middle isMiddle other rest).1
        exact ⟨List.mem_append_left _ isOrdered, fun same => isNew (same ▸ isOrdered)⟩

/-- What a dependency function answers where it succeeds. -/
def answers (dependencies : Node → Except Error (List Node)) (node : Node) : List Node :=
  match dependencies node with
  | .ok next => next
  | .error _ => []

/-- The nodes of an order whose dependencies are known. -/
def Answered (nodes : List Node) (dependencies : Node → Except Error (List Node)) (node : Node) :
    Prop :=
  node ∈ nodes ∧ dependencies node = .ok (answers dependencies node)

/-- What a visit that succeeds adds to an order. -/
structure Visited (nodes : List Node) (dependencies : Node → Except Error (List Node))
    (visiting ordered roots later : List Node) : Prop where
  orders : Orders (Answered nodes dependencies) (answers dependencies) later
  keeps : ordered ⊆ later
  roots : roots ⊆ later
  fresh : ∀ node ∈ later, node ∈ ordered ∨ node ∉ visiting

omit [DecidableEq Node] in
theorem visited_foldlM {action : List Node → Node → Except Error (List Node)}
    {visiting roots : List Node}
    (each : ∀ root ∈ roots, ∀ ordered later,
      Orders (Answered nodes dependencies) (answers dependencies) ordered →
        action ordered root = .ok later →
          Visited nodes dependencies visiting ordered [root] later)
    {ordered later : List Node}
    (orders : Orders (Answered nodes dependencies) (answers dependencies) ordered)
    (runs : roots.foldlM action ordered = .ok later) :
    Visited nodes dependencies visiting ordered roots later := by
  induction roots generalizing ordered with
  | nil =>
      cases runs
      exact ⟨orders, fun _ member => member, by simp, fun _ => .inl⟩
  | cons root roots hypothesis =>
      rw [List.foldlM_cons] at runs
      obtain ⟨middle, isMiddle, runs⟩ := exists_of_bind_eq_ok runs
      have first := each root List.mem_cons_self ordered middle orders isMiddle
      have rest := hypothesis (fun other member => each other (.tail _ member)) first.orders runs
      refine ⟨rest.orders, fun _ member => rest.keeps (first.keeps member), ?_, ?_⟩
      · intro other member
        obtain rfl | member := List.mem_cons.mp member
        · exact rest.keeps (first.roots (List.mem_singleton_self other))
        · exact rest.roots member
      · intro other member
        obtain inMiddle | isFresh := rest.fresh other member
        · exact first.fresh other inMiddle
        · exact .inr isFresh

/-- A visit that succeeds adds the node after all it depends on. -/
theorem visited_visit {visiting ordered later : List Node} {node : Node}
    (orders : Orders (Answered nodes dependencies) (answers dependencies) ordered)
    (runs : visit nodes dependencies missing cyclic visiting ordered node = .ok later) :
    Visited nodes dependencies visiting ordered [node] later := by
  induction measure : unseen nodes visiting using Nat.strongRecOn
    generalizing visiting ordered later node with
  | _ measure hypothesis =>
      subst measure
      rw [visit] at runs
      split_ifs at runs with isOrdered isVisiting isNode
      · cases runs
        exact ⟨orders, fun _ member => member, by simpa using isOrdered, fun _ => .inl⟩
      · obtain ⟨dependents, isKnown, runs⟩ := exists_of_bind_eq_ok runs
        obtain ⟨middle, isMiddle, runs⟩ := exists_of_bind_eq_ok runs
        cases runs
        have isAnswer : answers dependencies node = dependents := by rw [answers, isKnown]
        have rest := visited_foldlM
          (fun other _ ordered later orders runs =>
            hypothesis _ (unseen_append_lt isNode isVisiting) orders runs rfl) orders isMiddle
        have isNew : node ∉ middle := by
          intro inMiddle
          obtain before | isFresh := rest.fresh node inMiddle
          · exact isOrdered before
          · simp at isFresh
        refine ⟨rest.orders.append ⟨isNode, by rw [isAnswer, isKnown]⟩ isNew ?_,
          fun _ member => List.mem_append_left _ (rest.keeps member), by simp, ?_⟩
        · rw [isAnswer]
          exact fun _ member => rest.roots member
        · intro other member
          obtain inMiddle | isLast := List.mem_append.mp member
          · refine (rest.fresh other inMiddle).imp_right fun isFresh inside => isFresh ?_
            exact List.mem_append_left _ inside
          · rw [List.mem_singleton.mp isLast]
            exact .inr isVisiting

/-- A search that succeeds orders all nodes. -/
theorem orders_of_search {ordered : List Node}
    (runs : nodes.foldlM (visit nodes dependencies missing cyclic []) [] = .ok ordered) :
    Orders (Answered nodes dependencies) (answers dependencies) ordered ∧
      ∀ node, node ∈ ordered ↔ node ∈ nodes := by
  have visited := visited_foldlM (fun _ _ _ _ => visited_visit) .nil runs
  exact ⟨visited.orders, fun node => ⟨fun member => (visited.orders.isInside node member).1,
    fun isNode => visited.roots isNode⟩⟩

/-- A visit looks at the dependencies of the nodes only. -/
theorem visit_congr {dependencies' : Node → Except Error (List Node)}
    (same : ∀ node ∈ nodes, dependencies node = dependencies' node)
    (visiting ordered : List Node) (node : Node) :
    visit nodes dependencies missing cyclic visiting ordered node =
      visit nodes dependencies' missing cyclic visiting ordered node := by
  induction measure : unseen nodes visiting using Nat.strongRecOn
    generalizing visiting ordered node with
  | _ measure hypothesis =>
      subst measure
      rw [visit, visit]
      split_ifs with isOrdered isVisiting isNode
      · rfl
      · rfl
      · rw [same node isNode]
        have inner : visit nodes dependencies missing cyclic (visiting ++ [node]) =
            visit nodes dependencies' missing cyclic (visiting ++ [node]) :=
          funext fun ordered => funext fun dependency =>
            hypothesis _ (unseen_append_lt isNode isVisiting) _ ordered dependency rfl
        rw [inner]
      · rfl

end Correctness

end RexLang
