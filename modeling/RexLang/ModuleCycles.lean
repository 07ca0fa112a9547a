import Mathlib.Data.Finset.Card
import RexLang.StrongComponents

/-!
# Cycles of modules

The search that groups the modules of a program into cycles before they are loaded
(`tarjan_scc_module_ids`), and its result: the strongly connected components, each
after those that it imports.
-/

namespace RexLang

variable {ModuleId : Type}

/-! ## The search -/

/-- The maps are only looked up, and the top of the stack is its first element. -/
structure TarjanState (ModuleId : Type) where
  index : Nat
  indexOf : ModuleId → Option Nat
  lowlink : ModuleId → Option Nat
  stack : List ModuleId
  onStack : Finset ModuleId
  components : List (List ModuleId)

section Search

variable [DecidableEq ModuleId]

/-- The loop that pops a component: its modules, the stack below and what stays on it. -/
def popComponent (root : ModuleId) : List ModuleId → Finset ModuleId →
    List ModuleId × List ModuleId × Finset ModuleId
  | [], onStack => ([], [], onStack)
  | node :: stack, onStack =>
      if node = root then ([node], stack, onStack.erase node)
      else
        let (component, rest, left) := popComponent root stack (onStack.erase node)
        (node :: component, rest, left)

namespace TarjanState

/-- `TarjanState::default`. -/
def init : TarjanState ModuleId where
  index := 0
  indexOf _ := none
  lowlink _ := none
  stack := []
  onStack := ∅
  components := []

/-- A module is numbered and pushed. -/
def enter (state : TarjanState ModuleId) (root : ModuleId) : TarjanState ModuleId where
  index := state.index + 1
  indexOf := Function.update state.indexOf root (some state.index)
  lowlink := Function.update state.lowlink root (some state.index)
  stack := root :: state.stack
  onStack := insert root state.onStack
  components := state.components

/-- `*lv = (*lv).min(other)`, when both are there. -/
def lower (state : TarjanState ModuleId) (root : ModuleId) (other : Option Nat) :
    TarjanState ModuleId :=
  match other, state.lowlink root with
  | some other, some low =>
      { state with lowlink := Function.update state.lowlink root (some (min low other)) }
  | _, _ => state

/-- The component of a root is popped. -/
def close (state : TarjanState ModuleId) (root : ModuleId) : TarjanState ModuleId :=
  if state.lowlink root = state.indexOf root then
    let (component, rest, left) := popComponent root state.stack state.onStack
    { state with stack := rest, onStack := left, components := state.components ++ [component] }
  else state

end TarjanState

section Neighbors

variable (nodeSet : Finset ModuleId) (edges : ModuleId → Option (List ModuleId))

/-- One neighbor of `strong_connect`, whose recursive calls are `connect`. -/
def visitNeighbor (connect : ModuleId → TarjanState ModuleId → Option (TarjanState ModuleId))
    (root : ModuleId) (state : TarjanState ModuleId) (neighbor : ModuleId) :
    Option (TarjanState ModuleId) :=
  if neighbor ∉ nodeSet then some state
  else if (state.indexOf neighbor).isNone then
    (connect neighbor state).map fun state => state.lower root (state.lowlink neighbor)
  else if neighbor ∈ state.onStack then some (state.lower root (state.indexOf neighbor))
  else some state

/-- `strong_connect`; the number bounds the depth of the recursion. -/
def strongConnect : Nat → ModuleId → TarjanState ModuleId → Option (TarjanState ModuleId)
  | 0, _, _ => none
  | depth + 1, root, state => do
      let state ← ((edges root).getD []).foldlM
        (visitNeighbor nodeSet (strongConnect depth) root) (state.enter root)
      return state.close root

end Neighbors

/-- `tarjan_scc_module_ids`. -/
def tarjanSccModuleIds (depth : Nat) (nodes : List ModuleId)
    (edges : ModuleId → Option (List ModuleId)) : Option (List (List ModuleId)) := do
  let state ← nodes.foldlM (fun state node =>
    if (state.indexOf node).isNone then strongConnect nodes.toFinset edges depth node state
    else some state) TarjanState.init
  return state.components

end Search

/-! ## What a step keeps -/

namespace TarjanState

/-- The number of a module that has one. -/
def number (state : TarjanState ModuleId) (node : ModuleId) : Nat :=
  (state.indexOf node).getD 0

theorem number_eq {state : TarjanState ModuleId} {node : ModuleId} {number : Nat}
    (found : state.indexOf node = some number) : state.number node = number := by
  rw [TarjanState.number, found, Option.getD_some]

/-- Numbers are kept, and new ones are larger. -/
structure Extends (before after : TarjanState ModuleId) : Prop where
  indexOf : ∀ node number, before.indexOf node = some number → after.indexOf node = some number
  index_le : before.index ≤ after.index
  lowlink : ∀ node, before.indexOf node ≠ none → after.lowlink node = before.lowlink node

namespace Extends

variable {before between after : TarjanState ModuleId}

theorem trans (first : Extends before between) (second : Extends between after) :
    Extends before after where
  indexOf node number found := second.indexOf node number (first.indexOf node number found)
  index_le := first.index_le.trans second.index_le
  lowlink node visited := by
    obtain ⟨number, found⟩ := Option.ne_none_iff_exists'.mp visited
    have still : between.indexOf node ≠ none := by simp [first.indexOf node number found]
    rw [second.lowlink node still, first.lowlink node visited]

theorem visited (extends' : Extends before after) {node : ModuleId}
    (visited : before.indexOf node ≠ none) : after.indexOf node ≠ none := by
  obtain ⟨number, found⟩ := Option.ne_none_iff_exists'.mp visited
  simp [extends'.indexOf node number found]

theorem number (extends' : Extends before after) {node : ModuleId}
    (visited : before.indexOf node ≠ none) : after.number node = before.number node := by
  obtain ⟨number, found⟩ := Option.ne_none_iff_exists'.mp visited
  rw [number_eq found, number_eq (extends'.indexOf node number found)]

end Extends

section Steps

variable [DecidableEq ModuleId]

theorem indexOf_enter (state : TarjanState ModuleId) (root node : ModuleId) :
    (state.enter root).indexOf node =
      if node = root then some state.index else state.indexOf node :=
  Function.update_apply ..

theorem extends_enter {state : TarjanState ModuleId} {root : ModuleId}
    (isNew : state.indexOf root = none) : Extends state (state.enter root) where
  indexOf node number found := by
    have different : node ≠ root := by
      rintro rfl
      rw [isNew] at found
      cases found
    rw [indexOf_enter, if_neg different, found]
  index_le := Nat.le_succ _
  lowlink node visited := by
    have different : node ≠ root := by
      rintro rfl
      exact visited isNew
    exact Function.update_of_ne different ..

/-- The low-link of a new module is not among those that are kept. -/
theorem Extends.update {before after : TarjanState ModuleId} (extends' : Extends before after)
    {root : ModuleId} (isNew : before.indexOf root = none) (low : Option Nat) :
    Extends before { after with lowlink := Function.update after.lowlink root low } where
  indexOf := extends'.indexOf
  index_le := extends'.index_le
  lowlink node visited := by
    have different : node ≠ root := by
      rintro rfl
      exact visited isNew
    exact (Function.update_of_ne different ..).trans (extends'.lowlink node visited)

/-- Only the low-link of the module is lowered. -/
theorem lower_eq {state : TarjanState ModuleId} {root : ModuleId} {low other : Nat}
    (lowlink : state.lowlink root = some low) :
    state.lower root (some other) =
      { state with lowlink := Function.update state.lowlink root (some (min low other)) } := by
  simp only [lower, lowlink]

/-- Popping takes everything down to the root off the stack. -/
theorem popComponent_eq {root : ModuleId} {upper rest : List ModuleId} (isAbove : root ∉ upper)
    (onStack : Finset ModuleId) :
    popComponent root (upper ++ root :: rest) onStack =
      (upper ++ [root], rest, onStack \ (upper ++ [root]).toFinset) := by
  induction upper generalizing onStack with
  | nil =>
      rw [List.nil_append, popComponent, if_pos rfl]
      simp [Finset.sdiff_singleton_eq_erase]
  | cons node upper hypothesis =>
      rw [List.mem_cons, not_or] at isAbove
      rw [List.cons_append, popComponent, if_neg (Ne.symm isAbove.1), hypothesis isAbove.2]
      rw [List.cons_append, List.toFinset_cons, Finset.sdiff_insert, Finset.erase_sdiff_comm]

end Steps

end TarjanState

/-! ## The invariant of the search -/

section Invariant

variable (nodeSet : Finset ModuleId) (edge : ModuleId → ModuleId → Prop)

/-- Between two steps, while the modules `gray` are being searched. -/
structure Searching (gray : List ModuleId) (state : TarjanState ModuleId) : Prop where
  number_lt : ∀ node number, state.indexOf node = some number → number < state.index
  known : ∀ node, state.indexOf node ≠ none → node ∈ nodeSet
  visited_iff : ∀ node, state.indexOf node ≠ none ↔
    node ∈ state.stack ∨ node ∈ state.components.flatten
  fresh : ∀ node ∈ state.stack, node ∉ state.components.flatten
  onStack_iff : ∀ node, node ∈ state.onStack ↔ node ∈ state.stack
  /-- The stack is in the order of the numbers, and what is below reaches what is above. -/
  sorted : state.stack.Pairwise fun upper lower => state.number lower < state.number upper ∧
    Relation.ReflTransGen edge lower upper
  gray_subset : ∀ node ∈ gray, node ∈ state.stack
  /-- What is on the stack leads back to a module that is being searched. -/
  leadsBack : ∀ node ∈ state.stack, ∃ ancestor ∈ gray,
    state.number ancestor ≤ state.number node ∧ Relation.ReflTransGen edge node ancestor
  /-- The imports of a module that has been searched are visited. -/
  searched : ∀ node ∈ state.stack, node ∉ gray → ∀ imported,
    edge node imported → state.indexOf imported ≠ none
  order : ComponentOrder edge state.components

/-- While the imports of `root` are being searched: `done` have been, which left `upper` on the
stack above it and gave it the low-link `low`. -/
structure Looping (before : TarjanState ModuleId) (root : ModuleId)
    (gray done upper : List ModuleId) (low : Nat) (state : TarjanState ModuleId) : Prop where
  searching : Searching nodeSet edge (root :: gray) state
  keeps : before.Extends state
  indexOf_root : state.indexOf root = some before.index
  index_lt : before.index < state.index
  isNew : before.indexOf root = none
  stack : state.stack = upper ++ root :: before.stack
  lowlink : state.lowlink root = some low
  low_le : low ≤ before.index
  upperEdges : ∀ node ∈ upper, ∀ target ∈ before.stack, edge node target →
    low ≤ state.number target
  doneEdges : ∀ target ∈ done, edge root target →
    state.indexOf target ≠ none ∧ (target ∈ before.stack → low ≤ state.number target)
  reached : low = before.index ∨ ∃ target ∈ before.stack, state.number target = low ∧
    Relation.ReflTransGen edge root target

/-- After a call for `root`, which left `upper` on the stack. -/
structure Connected (gray : List ModuleId) (before : TarjanState ModuleId) (root : ModuleId)
    (upper : List ModuleId) (low : Nat) (after : TarjanState ModuleId) : Prop where
  searching : Searching nodeSet edge gray after
  keeps : before.Extends after
  visited : after.indexOf root ≠ none
  stack : after.stack = upper ++ before.stack
  lowlink : after.lowlink root = some low
  upperEdges : ∀ node ∈ upper, ∀ target ∈ before.stack, edge node target →
    low ≤ after.number target
  reached : before.index ≤ low ∨ ∃ target ∈ before.stack, after.number target = low ∧
    Relation.ReflTransGen edge root target

end Invariant

section Steps

variable {nodeSet : Finset ModuleId} {edge : ModuleId → ModuleId → Prop} {gray : List ModuleId}
  {before state : TarjanState ModuleId} {root : ModuleId}

namespace Searching

theorem visited (searching : Searching nodeSet edge gray state) {node : ModuleId}
    (member : node ∈ state.stack) : state.indexOf node ≠ none :=
  (searching.visited_iff node).mpr (.inl member)

theorem exists_number (searching : Searching nodeSet edge gray state) {node : ModuleId}
    (member : node ∈ state.stack) :
    ∃ number, state.indexOf node = some number ∧ state.number node = number ∧
      number < state.index := by
  obtain ⟨number, found⟩ := Option.ne_none_iff_exists'.mp (searching.visited member)
  exact ⟨number, found, TarjanState.number_eq found, searching.number_lt node number found⟩

theorem nodup (searching : Searching nodeSet edge gray state) : state.stack.Nodup :=
  searching.sorted.imp fun less same => (same ▸ less.1).false

/-- Nothing is on the stack when no module is being searched. -/
theorem stack_eq_nil (searching : Searching nodeSet edge [] state) : state.stack = [] := by
  rw [List.eq_nil_iff_forall_not_mem]
  intro node member
  obtain ⟨ancestor, isGray, -⟩ := searching.leadsBack node member
  cases isGray

/-- The invariant does not depend on the low-links. -/
theorem of_lowlink (searching : Searching nodeSet edge gray state)
    (lowlink : ModuleId → Option Nat) :
    Searching nodeSet edge gray { state with lowlink := lowlink } :=
  { searching with }

end Searching

theorem Searching.init : Searching nodeSet edge [] TarjanState.init where
  number_lt node number found := by cases found
  known node visited := absurd rfl visited
  visited_iff node := by simp [TarjanState.init]
  fresh node member := by cases member
  onStack_iff node := by simp [TarjanState.init]
  sorted := .nil
  gray_subset node isGray := by cases isGray
  leadsBack node member := by cases member
  searched node member := by cases member
  order := .nil

namespace Looping

variable {done upper : List ModuleId} {low : Nat} {neighbor : ModuleId}

theorem mem_stack (looping : Looping nodeSet edge before root gray done upper low state)
    {node : ModuleId} : node ∈ state.stack ↔ node ∈ upper ∨ node = root ∨ node ∈ before.stack := by
  rw [looping.stack, List.mem_append, List.mem_cons]

theorem number_root (looping : Looping nodeSet edge before root gray done upper low state) :
    state.number root = before.index :=
  TarjanState.number_eq looping.indexOf_root

/-- What is above the root has larger numbers, and the root reaches it. -/
theorem above (looping : Looping nodeSet edge before root gray done upper low state)
    {node : ModuleId} (member : node ∈ upper) :
    before.index < state.number node ∧ Relation.ReflTransGen edge root node := by
  have sorted := looping.searching.sorted
  rw [looping.stack, List.pairwise_append] at sorted
  rw [← looping.number_root]
  exact sorted.2.2 node member root List.mem_cons_self

theorem root_not_mem (looping : Looping nodeSet edge before root gray done upper low state) :
    root ∉ upper := fun member =>
  (looping.above member).1.ne' looping.number_root

theorem below (looping : Looping nodeSet edge before root gray done upper low state)
    {node : ModuleId} (member : node ∈ before.stack) : state.number node < before.index := by
  have sorted := looping.searching.sorted
  rw [looping.stack, List.pairwise_append, List.pairwise_cons] at sorted
  rw [← looping.number_root]
  exact (sorted.2.1.1 node member).1

theorem mem_before (looping : Looping nodeSet edge before root gray done upper low state)
    {node : ModuleId} (member : node ∈ state.stack) (less : state.number node < before.index) :
    node ∈ before.stack := by
  obtain isAbove | rfl | isBelow := looping.mem_stack.mp member
  · exact absurd (looping.above isAbove).1 less.asymm
  · exact absurd looping.number_root less.ne
  · exact isBelow

/-- The number of a module that the root reaches is a low-link. -/
theorem reached_min (looping : Looping nodeSet edge before root gray done upper low state)
    {other : Nat} (isReached : other < before.index → ∃ target ∈ before.stack,
      state.number target = other ∧ Relation.ReflTransGen edge root target) :
    min low other = before.index ∨ ∃ target ∈ before.stack, state.number target = min low other ∧
      Relation.ReflTransGen edge root target := by
  obtain lowLess | otherLess := le_total low other
  · rw [min_eq_left lowLess]
    exact looping.reached
  · rw [min_eq_right otherLess]
    obtain same | less := (otherLess.trans looping.low_le).eq_or_lt
    · exact .inl same
    · exact .inr (isReached less)

/-- A neighbor that is not a node changes nothing. -/
theorem skip (looping : Looping nodeSet edge before root gray done upper low state)
    (unknown : edge root neighbor → state.indexOf neighbor ≠ none ∧
      (neighbor ∈ before.stack → low ≤ state.number neighbor)) :
    Looping nodeSet edge before root gray (done ++ [neighbor]) upper low state :=
  { looping with
    doneEdges := by
      intro target member step
      obtain earlier | isLast := List.mem_append.mp member
      · exact looping.doneEdges target earlier step
      · obtain rfl := List.mem_singleton.mp isLast
        exact unknown step }

/-- The imports of what is above the root, once all of its own have been searched. -/
theorem closed (looping : Looping nodeSet edge before root gray done upper low state)
    (searching : Searching nodeSet edge gray before)
    (allDone : ∀ target, edge root target → target ∈ done)
    {node target : ModuleId} (member : node ∈ upper ++ [root]) (step : edge node target) :
    (target ∈ upper ++ [root] ∨ target ∈ state.components.flatten) ∨
      target ∈ before.stack ∧ low ≤ state.number target := by
  have isVisited : state.indexOf target ≠ none ∧
      (target ∈ before.stack → low ≤ state.number target) := by
    obtain isUpper | isRoot := List.mem_append.mp member
    · have notGray : node ∉ root :: gray := by
        rintro (_ | ⟨_, isGray⟩)
        · exact looping.root_not_mem isUpper
        · exact (looping.above isUpper).1.asymm (looping.below (searching.gray_subset node isGray))
      refine ⟨looping.searching.searched node (looping.mem_stack.mpr (.inl isUpper)) notGray target
        step, fun below => looping.upperEdges node isUpper target below step⟩
    · obtain rfl := List.mem_singleton.mp isRoot
      exact looping.doneEdges target (allDone target step) step
  obtain onStack | finished := (looping.searching.visited_iff target).mp isVisited.1
  · obtain isUpper | rfl | below := looping.mem_stack.mp onStack
    · exact .inl (.inl (List.mem_append_left _ isUpper))
    · exact .inl (.inl (List.mem_append_right _ List.mem_cons_self))
    · exact .inr ⟨below, isVisited.2 below⟩
  · exact .inl (.inr finished)

end Looping

/-- The modules that have no number yet. -/
def unvisited (nodeSet : Finset ModuleId) (state : TarjanState ModuleId) : Finset ModuleId :=
  nodeSet.filter fun node => state.indexOf node = none

/-- Fewer modules have no number than before the call. -/
theorem Looping.card_unvisited_lt {done upper : List ModuleId} {low : Nat}
    (looping : Looping nodeSet edge before root gray done upper low state) :
    (unvisited nodeSet state).card < (unvisited nodeSet before).card := by
  have visited : state.indexOf root ≠ none := by simp [looping.indexOf_root]
  refine Finset.card_lt_card ⟨fun node member => ?_, fun subset => ?_⟩
  · rw [unvisited, Finset.mem_filter] at member ⊢
    refine ⟨member.1, ?_⟩
    by_contra earlier
    exact looping.keeps.visited earlier member.2
  · have isNode := looping.searching.known root visited
    have member := subset (Finset.mem_filter.mpr ⟨isNode, looping.isNew⟩)
    exact visited (Finset.mem_filter.mp member).2

variable [DecidableEq ModuleId]

/-- Entering a module that every module being searched reaches. -/
theorem Searching.enter (searching : Searching nodeSet edge gray before) (isNode : root ∈ nodeSet)
    (isNew : before.indexOf root = none)
    (ancestors : ∀ node ∈ gray, Relation.ReflTransGen edge node root) :
    Looping nodeSet edge before root gray [] [] before.index (before.enter root) := by
  have keeps := TarjanState.extends_enter isNew
  have indexOf_root : (before.enter root).indexOf root = some before.index := by
    rw [TarjanState.indexOf_enter, if_pos rfl]
  have different {node : ModuleId} (member : node ∈ before.stack) : node ≠ root := by
    rintro rfl
    exact searching.visited member isNew
  have number {node : ModuleId} (member : node ∈ before.stack) :
      (before.enter root).number node = before.number node :=
    keeps.number (searching.visited member)
  have visited_iff (node : ModuleId) :
      (before.enter root).indexOf node ≠ none ↔ node = root ∨ before.indexOf node ≠ none := by
    rw [TarjanState.indexOf_enter]
    split_ifs with same
    · simp [same]
    · simp [same]
  have isSearching : Searching nodeSet edge (root :: gray) (before.enter root) := by
    refine ⟨?_, ?_, ?_, ?_, ?_, ?_, ?_, ?_, ?_, searching.order⟩
    · intro node number found
      rw [TarjanState.indexOf_enter] at found
      split_ifs at found with same
      · cases found
        exact Nat.lt_succ_self _
      · exact Nat.lt_succ_of_lt (searching.number_lt node number found)
    · intro node visited
      obtain rfl | earlier := (visited_iff node).mp visited
      · exact isNode
      · exact searching.known node earlier
    · intro node
      rw [visited_iff, searching.visited_iff]
      simp only [TarjanState.enter, List.mem_cons, or_assoc]
    · intro node member
      obtain rfl | earlier := List.mem_cons.mp member
      · exact fun inside => (searching.visited_iff node).mpr (.inr inside) isNew
      · exact searching.fresh node earlier
    · intro node
      simp only [TarjanState.enter, Finset.mem_insert, List.mem_cons, searching.onStack_iff]
    · refine List.pairwise_cons.mpr ⟨fun lower member => ?_, ?_⟩
      · obtain ⟨index, found, isNumber, less⟩ := searching.exists_number member
        obtain ⟨ancestor, isGray, -, path⟩ := searching.leadsBack lower member
        rw [number member, isNumber, TarjanState.number_eq indexOf_root]
        exact ⟨less, path.trans (ancestors ancestor isGray)⟩
      · refine searching.sorted.imp_of_mem fun {upper lower} isUpper isLower order => ?_
        rwa [number isUpper, number isLower]
    · intro node member
      obtain rfl | isGray := List.mem_cons.mp member
      · exact List.mem_cons_self
      · exact .tail _ (searching.gray_subset node isGray)
    · intro node member
      obtain rfl | earlier := List.mem_cons.mp member
      · exact ⟨node, List.mem_cons_self, le_rfl, .refl⟩
      · obtain ⟨ancestor, isGray, less, path⟩ := searching.leadsBack node earlier
        refine ⟨ancestor, .tail _ isGray, ?_, path⟩
        rwa [number earlier, number (searching.gray_subset ancestor isGray)]
    · intro node member notGray imported step
      rw [List.mem_cons, not_or] at notGray
      have earlier := (List.mem_cons.mp member).resolve_left notGray.1
      exact keeps.visited (searching.searched node earlier notGray.2 imported step)
  refine ⟨isSearching, keeps, indexOf_root, Nat.lt_succ_self _, isNew, rfl, ?_, le_rfl, ?_, ?_,
    .inl rfl⟩
  · exact Function.update_self ..
  · simp
  · simp

namespace Looping

variable {done upper : List ModuleId} {low : Nat} {neighbor : ModuleId}

/-- A neighbor on the stack lowers the low-link to its number. -/
theorem lower (looping : Looping nodeSet edge before root gray done upper low state)
    (step : edge root neighbor) {number : Nat} (found : state.indexOf neighbor = some number)
    (onStack : neighbor ∈ state.stack) :
    Looping nodeSet edge before root gray (done ++ [neighbor]) upper (min low number)
      (state.lower root (some number)) := by
  have isNumber := TarjanState.number_eq found
  rw [TarjanState.lower_eq looping.lowlink]
  refine ⟨looping.searching.of_lowlink _, looping.keeps.update looping.isNew _,
    looping.indexOf_root, looping.index_lt, looping.isNew, looping.stack, Function.update_self ..,
    (min_le_left ..).trans looping.low_le, ?_, ?_, ?_⟩
  · exact fun node member target below step =>
      (min_le_left ..).trans (looping.upperEdges node member target below step)
  · intro target member step
    obtain earlier | isLast := List.mem_append.mp member
    · have onDone := looping.doneEdges target earlier step
      exact ⟨onDone.1, fun below => (min_le_left ..).trans (onDone.2 below)⟩
    · obtain rfl := List.mem_singleton.mp isLast
      exact ⟨by simp [found], fun below => (min_le_right ..).trans isNumber.ge⟩
  · refine looping.reached_min fun less => ⟨neighbor, ?_, isNumber, .single step⟩
    exact looping.mem_before onStack (isNumber ▸ less)

/-- A neighbor that was searched lowers the low-link to its own. -/
theorem call (looping : Looping nodeSet edge before root gray done upper low state)
    (step : edge root neighbor) (isNew : state.indexOf neighbor = none)
    {callUpper : List ModuleId} {callLow : Nat} {after : TarjanState ModuleId}
    (connected : Connected nodeSet edge (root :: gray) state neighbor callUpper callLow after) :
    Looping nodeSet edge before root gray (done ++ [neighbor]) (callUpper ++ upper)
      (min low callLow) (after.lower root (after.lowlink neighbor)) := by
  have lowlink : after.lowlink root = some low := by
    rw [connected.keeps.lowlink root (by simp [looping.indexOf_root]), looping.lowlink]
  have onStack {node : ModuleId} (below : node ∈ before.stack) : node ∈ state.stack :=
    looping.mem_stack.mpr (.inr (.inr below))
  have number {node : ModuleId} (member : node ∈ state.stack) :
      after.number node = state.number node :=
    connected.keeps.number (looping.searching.visited member)
  rw [connected.lowlink, TarjanState.lower_eq lowlink]
  refine ⟨connected.searching.of_lowlink _,
    (looping.keeps.trans connected.keeps).update looping.isNew _,
    connected.keeps.indexOf _ _ looping.indexOf_root,
    looping.index_lt.trans_le connected.keeps.index_le, looping.isNew, ?_,
    Function.update_self .., (min_le_left ..).trans looping.low_le, ?_, ?_, ?_⟩
  · rw [connected.stack, looping.stack, List.append_assoc]
  · intro node member target below step
    obtain isCall | isUpper := List.mem_append.mp member
    · exact (min_le_right ..).trans (connected.upperEdges node isCall target (onStack below) step)
    · refine (min_le_left ..).trans ((looping.upperEdges node isUpper target below step).trans ?_)
      exact (number (onStack below)).ge
  · intro target member step
    obtain earlier | isLast := List.mem_append.mp member
    · have onDone := looping.doneEdges target earlier step
      refine ⟨connected.keeps.visited onDone.1, fun below => ?_⟩
      exact (min_le_left ..).trans ((onDone.2 below).trans (number (onStack below)).ge)
    · obtain rfl := List.mem_singleton.mp isLast
      exact ⟨connected.visited, fun below =>
        absurd isNew (looping.searching.visited (onStack below))⟩
  · have reached := looping.reached_min fun less : callLow < before.index => by
      obtain tooLarge | ⟨target, member, same, path⟩ := connected.reached
      · exact absurd (looping.index_lt.trans_le tooLarge) less.asymm
      · rw [number member] at same
        exact ⟨target, looping.mem_before member (same ▸ less), same, .head step path⟩
    obtain same | ⟨target, below, same, path⟩ := reached
    · exact .inl same
    · exact .inr ⟨target, below, (number (onStack below)).trans same, path⟩

/-- A module whose low-link is smaller than its number stays on the stack. -/
theorem stays (looping : Looping nodeSet edge before root gray done upper low state)
    (searching : Searching nodeSet edge gray before)
    (allDone : ∀ target, edge root target → target ∈ done)
    (notRoot : low ≠ before.index) :
    Connected nodeSet edge gray before root (upper ++ [root]) low (state.close root) := by
  have closes : state.close root = state := by
    rw [TarjanState.close, looping.lowlink, looping.indexOf_root, if_neg (by simpa using notRoot)]
  have reached := looping.reached.resolve_left notRoot
  have isSearching : Searching nodeSet edge gray state :=
    { looping.searching with
      gray_subset := fun node isGray => looping.searching.gray_subset node (.tail _ isGray)
      leadsBack := by
        intro node member
        obtain ⟨ancestor, isGray, less, path⟩ := looping.searching.leadsBack node member
        obtain rfl | isGray := List.mem_cons.mp isGray
        -- The root leads to a module below it, which leads back in turn.
        · obtain ⟨target, below, same, toTarget⟩ := reached
          obtain ⟨found, isGray, lessFound, toFound⟩ := searching.leadsBack target below
          refine ⟨found, isGray, ?_, path.trans (toTarget.trans toFound)⟩
          rw [looping.keeps.number (searching.visited (searching.gray_subset found isGray))]
          rw [← looping.keeps.number (searching.visited below)] at lessFound
          exact lessFound.trans (same.le.trans (looping.low_le.trans
            (looping.number_root.ge.trans less)))
        · exact ⟨ancestor, isGray, less, path⟩
      searched := by
        intro node member notGray imported step
        by_cases isRoot : node = root
        · subst isRoot
          exact (looping.doneEdges imported (allDone imported step) step).1
        · exact looping.searching.searched node member (by simp [isRoot, notGray]) imported step }
  rw [closes]
  refine ⟨isSearching, looping.keeps, by simp [looping.indexOf_root], ?_, looping.lowlink, ?_,
    .inr reached⟩
  · rw [looping.stack, List.append_assoc, List.singleton_append]
  · intro node member target below step
    obtain isUpper | isRoot := List.mem_append.mp member
    · exact looping.upperEdges node isUpper target below step
    · obtain rfl := List.mem_singleton.mp isRoot
      exact (looping.doneEdges target (allDone target step) step).2 below

/-- A module whose low-link is its number is the root of a component. -/
theorem pops (looping : Looping nodeSet edge before root gray done upper low state)
    (searching : Searching nodeSet edge gray before)
    (allDone : ∀ target, edge root target → target ∈ done)
    (isRoot : low = before.index) :
    Connected nodeSet edge gray before root [] low (state.close root) := by
  have closes : state.close root = { state with
      stack := before.stack
      onStack := state.onStack \ (upper ++ [root]).toFinset
      components := state.components ++ [upper ++ [root]] } := by
    rw [TarjanState.close, looping.lowlink, looping.indexOf_root, if_pos (by rw [isRoot]),
      looping.stack, TarjanState.popComponent_eq looping.root_not_mem]
  have parts : state.stack = (upper ++ [root]) ++ before.stack := by
    rw [looping.stack, List.append_assoc, List.singleton_append]
  have distinct := looping.searching.nodup
  rw [parts, List.nodup_append] at distinct
  have onStack {node : ModuleId} (member : node ∈ upper ++ [root]) : node ∈ state.stack :=
    parts ▸ List.mem_append_left _ member
  have below {node : ModuleId} (member : node ∈ before.stack) : node ∈ state.stack :=
    parts ▸ List.mem_append_right _ member
  have number {node : ModuleId} (member : node ∈ before.stack) :
      state.number node = before.number node :=
    looping.keeps.number (searching.visited member)
  have edges : ∀ node ∈ upper ++ [root], ∀ target, edge node target →
      target ∈ upper ++ [root] ∨ target ∈ state.components.flatten := by
    intro node member target step
    obtain inside | ⟨isBelow, tooLarge⟩ := looping.closed searching allDone member step
    · exact inside
    · exact absurd (isRoot ▸ tooLarge) (looping.below isBelow).not_ge
  have toRoot : ∀ node ∈ upper ++ [root], Relation.ReflTransGen edge node root := by
    intro node member
    obtain ⟨ancestor, isGray, -, path⟩ := looping.searching.leadsBack node (onStack member)
    obtain rfl | isGray := List.mem_cons.mp isGray
    · exact path
    -- Nothing below the root is reached, since no edge leads there.
    · have isBelow := searching.gray_subset ancestor isGray
      obtain inside | finished := looping.searching.order.stays edges member path
      · exact absurd rfl (distinct.2.2 ancestor inside ancestor isBelow)
      · exact absurd finished (looping.searching.fresh ancestor (below isBelow))
  have fromRoot : ∀ node ∈ upper ++ [root], Relation.ReflTransGen edge root node := by
    intro node member
    obtain isUpper | isRoot := List.mem_append.mp member
    · exact (looping.above isUpper).2
    · obtain rfl := List.mem_singleton.mp isRoot
      exact .refl
  have order := looping.searching.order.concat (by simp) distinct.1
    (fun node member => looping.searching.fresh node (onStack member))
    (fun first isFirst second isSecond =>
      (toRoot first isFirst).trans (fromRoot second isSecond)) edges
  have isSearching : Searching nodeSet edge gray { state with
      stack := before.stack
      onStack := state.onStack \ (upper ++ [root]).toFinset
      components := state.components ++ [upper ++ [root]] } := by
    refine ⟨looping.searching.number_lt, looping.searching.known, ?_, ?_, ?_, ?_,
      searching.gray_subset, ?_, ?_, order⟩
    · intro node
      rw [looping.searching.visited_iff, parts]
      simp only [List.flatten_append, List.flatten_singleton, List.mem_append]
      tauto
    · intro node member
      rw [List.flatten_append, List.flatten_singleton, List.mem_append, not_or]
      exact ⟨looping.searching.fresh node (below member), fun inside =>
        distinct.2.2 node inside node member rfl⟩
    · intro node
      rw [Finset.mem_sdiff, looping.searching.onStack_iff, parts, List.mem_toFinset]
      constructor
      · rintro ⟨member, outside⟩
        exact (List.mem_append.mp member).resolve_left outside
      · exact fun member => ⟨List.mem_append_right _ member, fun inside =>
          distinct.2.2 node inside node member rfl⟩
    · refine looping.searching.sorted.sublist ?_
      rw [parts]
      exact List.sublist_append_right ..
    · intro node member
      obtain ⟨ancestor, isGray, less, path⟩ := searching.leadsBack node member
      refine ⟨ancestor, isGray, ?_, path⟩
      rw [← number (searching.gray_subset ancestor isGray), ← number member] at less
      exact less
    · exact fun node member notGray imported step =>
        looping.keeps.visited (searching.searched node member notGray imported step)
  rw [closes]
  have keeps := looping.keeps
  refine ⟨isSearching, ⟨keeps.indexOf, keeps.index_le, keeps.lowlink⟩, ?_, rfl, looping.lowlink,
    by simp, .inl isRoot.ge⟩
  simp [looping.indexOf_root]

end Looping

end Steps

/-! ## Whole runs -/

section Runs

variable [DecidableEq ModuleId] {nodeSet : Finset ModuleId}
  {edges : ModuleId → Option (List ModuleId)}

/-- A module imports another one that is among the nodes. -/
def ImportEdge (nodeSet : Finset ModuleId) (edges : ModuleId → Option (List ModuleId))
    (node imported : ModuleId) : Prop :=
  imported ∈ nodeSet ∧ imported ∈ (edges node).getD []

/-- What the calls of a search do that is at most so deep. -/
def Connects (nodeSet : Finset ModuleId) (edges : ModuleId → Option (List ModuleId)) (depth : Nat)
    (connect : ModuleId → TarjanState ModuleId → Option (TarjanState ModuleId)) : Prop :=
  ∀ gray before root, Searching nodeSet (ImportEdge nodeSet edges) gray before → root ∈ nodeSet →
    before.indexOf root = none →
    (∀ node ∈ gray, Relation.ReflTransGen (ImportEdge nodeSet edges) node root) →
    (unvisited nodeSet before).card ≤ depth →
    ∃ upper low after, connect root before = some after ∧
      Connected nodeSet (ImportEdge nodeSet edges) gray before root upper low after

variable {depth : Nat} {gray : List ModuleId} {before : TarjanState ModuleId} {root : ModuleId}

section Neighbors

variable {connect : ModuleId → TarjanState ModuleId → Option (TarjanState ModuleId)}

/-- One neighbor keeps the invariant of the loop. -/
theorem looping_visitNeighbor (connects : Connects nodeSet edges depth connect)
    (ancestors : ∀ node ∈ gray, Relation.ReflTransGen (ImportEdge nodeSet edges) node root)
    (small : (unvisited nodeSet before).card ≤ depth + 1) {neighbor : ModuleId}
    (isNeighbor : neighbor ∈ (edges root).getD []) {done upper : List ModuleId} {low : Nat}
    {state : TarjanState ModuleId}
    (looping : Looping nodeSet (ImportEdge nodeSet edges) before root gray done upper low state) :
    ∃ nextUpper nextLow next, visitNeighbor nodeSet connect root state neighbor = some next ∧
      Looping nodeSet (ImportEdge nodeSet edges) before root gray (done ++ [neighbor]) nextUpper
        nextLow next := by
  by_cases isNode : neighbor ∈ nodeSet
  · have step : ImportEdge nodeSet edges root neighbor := ⟨isNode, isNeighbor⟩
    rw [visitNeighbor, if_neg (not_not.mpr isNode)]
    cases found : state.indexOf neighbor with
    | none =>
        have reaches : ∀ node ∈ root :: gray,
            Relation.ReflTransGen (ImportEdge nodeSet edges) node neighbor := by
          intro node member
          obtain rfl | isGray := List.mem_cons.mp member
          · exact .single step
          · exact (ancestors node isGray).tail step
        obtain ⟨callUpper, callLow, after, called, connected⟩ := connects _ _ _ looping.searching
          isNode found reaches (Nat.le_of_lt_succ (looping.card_unvisited_lt.trans_le small))
        rw [if_pos Option.isNone_none, called]
        exact ⟨_, _, _, rfl, looping.call step found connected⟩
    | some number =>
        rw [if_neg (by simp)]
        by_cases onStack : neighbor ∈ state.onStack
        · rw [if_pos onStack]
          have isOn := (looping.searching.onStack_iff neighbor).mp onStack
          exact ⟨_, _, _, rfl, looping.lower step found isOn⟩
        · rw [if_neg onStack]
          refine ⟨upper, low, state, rfl, looping.skip fun _ => ⟨by simp [found], ?_⟩⟩
          intro below
          have isOn := looping.mem_stack.mpr (.inr (.inr below))
          exact absurd ((looping.searching.onStack_iff neighbor).mpr isOn) onStack
  · rw [visitNeighbor, if_pos isNode]
    exact ⟨upper, low, state, rfl, looping.skip fun step => absurd step.1 isNode⟩

theorem looping_foldlM (connects : Connects nodeSet edges depth connect)
    (ancestors : ∀ node ∈ gray, Relation.ReflTransGen (ImportEdge nodeSet edges) node root)
    (small : (unvisited nodeSet before).card ≤ depth + 1) {neighbors : List ModuleId}
    (areNeighbors : ∀ neighbor ∈ neighbors, neighbor ∈ (edges root).getD [])
    {done upper : List ModuleId} {low : Nat} {state : TarjanState ModuleId}
    (looping : Looping nodeSet (ImportEdge nodeSet edges) before root gray done upper low state) :
    ∃ nextUpper nextLow next,
      neighbors.foldlM (visitNeighbor nodeSet connect root) state = some next ∧
      Looping nodeSet (ImportEdge nodeSet edges) before root gray (done ++ neighbors) nextUpper
        nextLow next := by
  induction neighbors generalizing done upper low state with
  | nil => exact ⟨upper, low, state, rfl, by rwa [List.append_nil]⟩
  | cons neighbor neighbors hypothesis =>
      rw [List.forall_mem_cons] at areNeighbors
      obtain ⟨_, _, between, visited, first⟩ :=
        looping_visitNeighbor connects ancestors small areNeighbors.1 looping
      obtain ⟨nextUpper, nextLow, next, ran, rest⟩ := hypothesis areNeighbors.2 first
      rw [List.append_assoc, List.singleton_append] at rest
      refine ⟨nextUpper, nextLow, next, ?_, rest⟩
      rw [List.foldlM_cons, visited]
      exact ran

end Neighbors

/-- A call goes no deeper than there are modules left to visit. -/
theorem connects_strongConnect (depth : Nat) :
    Connects nodeSet edges depth (strongConnect nodeSet edges depth) := by
  induction depth with
  | zero =>
      intro gray before root searching isNode isNew ancestors small
      have member : root ∈ unvisited nodeSet before := Finset.mem_filter.mpr ⟨isNode, isNew⟩
      rw [Finset.card_eq_zero.mp (Nat.le_zero.mp small)] at member
      cases member
  | succ depth hypothesis =>
      intro gray before root searching isNode isNew ancestors small
      obtain ⟨upper, low, state, ran, looping⟩ := looping_foldlM hypothesis ancestors small
        (fun _ member => member) (searching.enter isNode isNew ancestors)
      have closes :
          strongConnect nodeSet edges (depth + 1) root before = some (state.close root) := by
        rw [strongConnect, ran]
        rfl
      have allDone : ∀ target, ImportEdge nodeSet edges root target →
          target ∈ [] ++ (edges root).getD [] := fun target step => step.2
      by_cases isRoot : low = before.index
      · exact ⟨_, _, _, closes, looping.pops searching allDone isRoot⟩
      · exact ⟨_, _, _, closes, looping.stays searching allDone isRoot⟩

/-- The loop over the nodes visits them all. -/
theorem searching_foldlM {nodes : List ModuleId} (areNodes : ∀ node ∈ nodes, node ∈ nodeSet)
    (enough : nodeSet.card ≤ depth) {state : TarjanState ModuleId}
    (searching : Searching nodeSet (ImportEdge nodeSet edges) [] state) :
    ∃ next, nodes.foldlM (fun state node =>
        if (state.indexOf node).isNone then strongConnect nodeSet edges depth node state
        else some state) state = some next ∧
      Searching nodeSet (ImportEdge nodeSet edges) [] next ∧
      ∀ node, state.indexOf node ≠ none ∨ node ∈ nodes → next.indexOf node ≠ none := by
  induction nodes generalizing state with
  | nil => exact ⟨state, rfl, searching, fun node visited => visited.resolve_right (by simp)⟩
  | cons first nodes hypothesis =>
      rw [List.forall_mem_cons] at areNodes
      obtain ⟨between, ran, isSearching, visited⟩ : ∃ between : TarjanState ModuleId,
          (if (state.indexOf first).isNone then strongConnect nodeSet edges depth first state
            else some state) = some between ∧
          Searching nodeSet (ImportEdge nodeSet edges) [] between ∧
          ∀ node, state.indexOf node ≠ none ∨ node = first → between.indexOf node ≠ none := by
        cases isNew : state.indexOf first with
        | none =>
            have small : (unvisited nodeSet state).card ≤ depth :=
              (Finset.card_filter_le ..).trans enough
            obtain ⟨upper, low, after, called, connected⟩ := connects_strongConnect depth [] state
              first searching areNodes.1 isNew (by simp) small
            refine ⟨after, called, connected.searching, ?_⟩
            rintro node (earlier | rfl)
            · exact connected.keeps.visited earlier
            · exact connected.visited
        | some number =>
            refine ⟨state, rfl, searching, ?_⟩
            rintro node (earlier | rfl)
            · exact earlier
            · simp [isNew]
      obtain ⟨next, rest, isSearchingNext, visitedNext⟩ := hypothesis areNodes.2 isSearching
      refine ⟨next, ?_, isSearchingNext, fun node member => visitedNext node ?_⟩
      · rw [List.foldlM_cons, ran]
        exact rest
      · obtain earlier | member := member
        · exact .inl (visited node (.inl earlier))
        · exact (List.mem_cons.mp member).imp (fun same => visited node (.inr same)) id

/-- The groups in which the modules of a graph are loaded. -/
structure GroupsCycles (nodes : List ModuleId) (edges : ModuleId → Option (List ModuleId))
    (components : List (List ModuleId)) : Prop where
  nodup : components.flatten.Nodup
  mem_iff : ∀ node, node ∈ components.flatten ↔ node ∈ nodes
  /-- Every module is in exactly one component. -/
  once : ∀ node ∈ nodes, ∃! component, component ∈ components ∧ node ∈ component
  /-- Two modules share a component when each reaches the other. -/
  together_iff : ∀ first ∈ nodes, ∀ second ∈ nodes,
    (∃ component ∈ components, first ∈ component ∧ second ∈ component) ↔
      MutuallyReachable (ImportEdge nodes.toFinset edges) first second
  /-- A component comes after those that it imports. -/
  dependenciesFirst : ∀ before component after, components = before ++ component :: after →
    ∀ node ∈ component, ∀ imported ∈ nodes, imported ∈ (edges node).getD [] →
      imported ∈ component ∨ imported ∈ before.flatten

theorem groupsCycles_of_order {nodes : List ModuleId} {components : List (List ModuleId)}
    (order : ComponentOrder (ImportEdge nodes.toFinset edges) components)
    (mem_iff : ∀ node, node ∈ components.flatten ↔ node ∈ nodes) :
    GroupsCycles nodes edges components := by
  have exists_mem : ∀ node ∈ nodes, ∃ component ∈ components, node ∈ component :=
    fun node isNode => List.mem_flatten.mp ((mem_iff node).mpr isNode)
  refine ⟨order.nodup, mem_iff, ?_, ?_, ?_⟩
  · intro node isNode
    obtain ⟨component, isComponent, member⟩ := exists_mem node isNode
    exact ⟨component, ⟨isComponent, member⟩, fun other ⟨isOther, inOther⟩ =>
      order.eq_of_mem isOther isComponent inOther member⟩
  · intro first isFirst second isSecond
    constructor
    · rintro ⟨component, isComponent, inFirst, inSecond⟩
      exact (order.mem_iff component isComponent first inFirst second).mp inSecond
    · intro mutual'
      obtain ⟨component, isComponent, member⟩ := exists_mem first isFirst
      exact ⟨component, isComponent, member,
        (order.mem_iff component isComponent first member second).mpr mutual'⟩
  · intro before component after parts node member imported isNode isImport
    exact order.edges before component after parts node member imported
      ⟨List.mem_toFinset.mpr isNode, isImport⟩

/-- The search groups any graph, when it may go as deep as there are modules. -/
theorem tarjanSccModuleIds_groupsCycles (nodes : List ModuleId)
    (edges : ModuleId → Option (List ModuleId)) {depth : Nat} (enough : nodes.length ≤ depth) :
    ∃ components, tarjanSccModuleIds depth nodes edges = some components ∧
      GroupsCycles nodes edges components := by
  have isEnough : nodes.toFinset.card ≤ depth := (List.toFinset_card_le nodes).trans enough
  have start : Searching nodes.toFinset (ImportEdge nodes.toFinset edges) [] TarjanState.init :=
    .init
  obtain ⟨state, ran, searching, visited⟩ :=
    searching_foldlM (fun node member => List.mem_toFinset.mpr member) isEnough start
  refine ⟨state.components, ?_, groupsCycles_of_order searching.order fun node => ?_⟩
  · rw [tarjanSccModuleIds, ran]
    rfl
  · have visited_iff := searching.visited_iff node
    rw [searching.stack_eq_nil] at visited_iff
    constructor
    · intro member
      exact List.mem_toFinset.mp (searching.known node (visited_iff.mpr (.inr member)))
    · intro isNode
      exact (visited_iff.mp (visited node (.inr isNode))).resolve_left (by simp)

end Runs

/-- The graph of an application that a library imports in turn, and of a module that imports
itself and one that is loaded already. -/
theorem tarjanSccModuleIds_groupsCycles_app :
    ∃ components, tarjanSccModuleIds 3 ["app", "lib", "util"] (fun node =>
        if node = "app" then some ["lib"]
        else if node = "lib" then some ["util", "app"]
        else some ["util", "std.prelude"]) = some components ∧
      GroupsCycles ["app", "lib", "util"] (fun node =>
        if node = "app" then some ["lib"]
        else if node = "lib" then some ["util", "app"]
        else some ["util", "std.prelude"]) components ∧
      components = [["util"], ["lib", "app"]] := by
  obtain ⟨components, ran, groups⟩ := tarjanSccModuleIds_groupsCycles ["app", "lib", "util"]
    (fun node =>
      if node = "app" then some ["lib"]
      else if node = "lib" then some ["util", "app"]
      else some ["util", "std.prelude"]) (show _ ≤ 3 by decide)
  refine ⟨components, ran, groups, Option.some.inj (ran.symm.trans ?_)⟩
  decide

end RexLang
