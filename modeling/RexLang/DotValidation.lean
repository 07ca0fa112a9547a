import Mathlib.Data.List.Pairwise
import RexLang.DotSubgraphs

/-!
# Valid graphs

What the checks of a graph say of it: its nodes are distinct, its subgraphs are a forest
and its edges join its nodes.
-/

namespace RexLang.Graphviz

theorem of_forM {Element Error : Type} {check : Element → Except Error Unit}
    {elements : List Element} (checked : elements.forM check = .ok ()) :
    ∀ element ∈ elements, check element = .ok () := by
  induction elements with
  | nil => simp
  | cons element elements hypothesis =>
      obtain ⟨⟨⟩, onElement, onRest⟩ := exists_of_bind_eq_ok checked
      exact List.forall_mem_cons.mpr ⟨onElement, hypothesis onRest⟩

section Validation

variable {Number : Type}

/-! ## Nodes -/

theorem of_collectNodes {scope : String} {ids nodes collected : List String}
    (isCollected : ids.foldlM (collectNode scope) nodes = .ok collected)
    (distinct : nodes.Nodup) : collected = nodes ++ ids ∧ collected.Nodup := by
  induction ids generalizing nodes with
  | nil =>
      cases isCollected
      exact ⟨(List.append_nil _).symm, distinct⟩
  | cons id ids hypothesis =>
      obtain ⟨middle, onId, onRest⟩ := exists_of_bind_eq_ok isCollected
      unfold collectNode at onId
      split_ifs at onId with isNew
      cases onId
      have distinctMiddle : (nodes ++ [id]).Nodup := by
        rw [← List.concat_eq_append]
        exact distinct.concat isNew
      have collectedRest := hypothesis onRest distinctMiddle
      rwa [List.append_assoc] at collectedRest

/-- All the nodes of a graph and of its subgraphs. -/
def allNodes (graph : Graph Number) : List String :=
  graph.nodes.keys ++ graph.subgraphs.entries.flatMap fun entry => entry.2.nodes.keys

theorem of_collectAllNodes {graph : Graph Number} {nodes : List String}
    (isCollected : collectAllNodes graph = .ok nodes) :
    nodes = allNodes graph ∧ nodes.Nodup := by
  obtain ⟨start, onGraph, onSubgraphs⟩ := exists_of_bind_eq_ok isCollected
  obtain ⟨isStart, distinct⟩ := of_collectNodes onGraph List.nodup_nil
  rw [List.nil_append] at isStart
  rw [allNodes, ← isStart]
  clear isStart onGraph isCollected
  generalize graph.subgraphs.entries = entries at onSubgraphs ⊢
  induction entries generalizing start with
  | nil =>
      cases onSubgraphs
      exact ⟨(List.append_nil _).symm, distinct⟩
  | cons entry entries hypothesis =>
      obtain ⟨middle, onEntry, onRest⟩ := exists_of_bind_eq_ok onSubgraphs
      obtain ⟨isMiddle, distinctMiddle⟩ := of_collectNodes onEntry distinct
      have collectedRest := hypothesis middle distinctMiddle onRest
      rwa [isMiddle, List.append_assoc] at collectedRest

/-! ## Parents -/

theorem eq_of_nodup_flatMap {First Second : Type} {list : List First} {image : First → List Second}
    (distinct : (list.flatMap image).Nodup) {first second : First} (isFirst : first ∈ list)
    (isSecond : second ∈ list) {element : Second} (inFirst : element ∈ image first)
    (inSecond : element ∈ image second) : first = second := by
  rw [List.nodup_flatMap] at distinct
  have : Std.Symm (Function.onFun List.Disjoint image) :=
    ⟨fun _ _ apart _ inSecond inFirst => apart inFirst inSecond⟩
  by_contra different
  exact distinct.2.forall isFirst isSecond different inFirst inSecond

/-- What a loop over children has collected. -/
structure Collected (graph : Graph Number) (before after : SymbolMap String)
    (children : List String) : Prop where
  areKeys : ∀ child ∈ children, child ∈ graph.subgraphs.keys
  distinct : children.Nodup
  isNew : ∀ child ∈ children, child ∉ before.map Prod.fst
  known : ∀ child, child ∈ after.map Prod.fst ↔ child ∈ before.map Prod.fst ∨ child ∈ children

theorem Collected.append {graph : Graph Number} {before middle after : SymbolMap String}
    {first second : List String} (collectedFirst : Collected graph before middle first)
    (collectedSecond : Collected graph middle after second) :
    Collected graph before after (first ++ second) where
  areKeys := List.forall_mem_append.mpr ⟨collectedFirst.areKeys, collectedSecond.areKeys⟩
  distinct := by
    refine collectedFirst.distinct.append collectedSecond.distinct fun child inFirst inSecond => ?_
    exact collectedSecond.isNew child inSecond ((collectedFirst.known child).mpr (.inr inFirst))
  isNew := by
    refine List.forall_mem_append.mpr ⟨collectedFirst.isNew, fun child inSecond isOld => ?_⟩
    exact collectedSecond.isNew child inSecond ((collectedFirst.known child).mpr (.inl isOld))
  known child := by
    rw [collectedSecond.known, collectedFirst.known, List.mem_append, or_assoc]

theorem collected_nil {graph : Graph Number} (parents : SymbolMap String) :
    Collected graph parents parents [] :=
  ⟨by simp, List.nodup_nil, by simp, by simp⟩

theorem collected_child {graph : Graph Number} {parent child : String}
    {state state' : List String × SymbolMap String}
    (isCollected : collectChild graph parent state child = .ok state') :
    Collected graph state.2 state'.2 [child] := by
  unfold collectChild at isCollected
  split_ifs at isCollected with _ isKey
  cases found : state.2.lookup child with
  | some previous =>
      rw [found] at isCollected
      cases isCollected
  | none =>
      rw [found] at isCollected
      cases isCollected
      have isNew : child ∉ state.2.map Prod.fst := by
        have notFound : ¬(state.2.lookup child).isSome := by
          rw [found]
          exact Bool.false_ne_true
        simpa using notFound
      refine ⟨by simpa using isKey, List.nodup_singleton child, by simpa using isNew, ?_⟩
      intro other
      simp only [List.mem_map, mem_insert_of_lookup found]
      constructor
      · rintro ⟨entry, rfl | member, rfl⟩
        · exact .inr List.mem_cons_self
        · exact .inl ⟨entry, member, rfl⟩
      · rintro (⟨entry, member, rfl⟩ | isChild)
        · exact ⟨entry, .inr member, rfl⟩
        · rw [List.mem_singleton.mp isChild]
          exact ⟨(child, parent), .inl rfl, rfl⟩

theorem collected_children {graph : Graph Number} {parent : String} {children : List String}
    {state state' : List String × SymbolMap String}
    (isCollected : children.foldlM (collectChild graph parent) state = .ok state') :
    Collected graph state.2 state'.2 children := by
  induction children generalizing state with
  | nil =>
      cases isCollected
      exact collected_nil _
  | cons child children hypothesis =>
      obtain ⟨middle, onChild, onRest⟩ := exists_of_bind_eq_ok isCollected
      exact (collected_child onChild).append (hypothesis onRest)

/-- The children of all subgraphs. -/
def allChildren (graph : Graph Number) : List String :=
  graph.subgraphs.entries.flatMap fun entry => entry.2.subgraphs

theorem collected_parents {graph : Graph Number} {parents : SymbolMap String}
    (isCollected : collectParents graph = .ok parents) :
    Collected graph [] parents (allChildren graph) := by
  unfold collectParents at isCollected
  unfold allChildren
  generalize graph.subgraphs.entries = entries at isCollected ⊢
  generalize ([] : SymbolMap String) = before at isCollected ⊢
  induction entries generalizing before with
  | nil =>
      cases isCollected
      exact collected_nil _
  | cons entry entries hypothesis =>
      obtain ⟨middle, onEntry, onRest⟩ := exists_of_bind_eq_ok isCollected
      obtain ⟨state, onChildren, same⟩ := exists_of_bind_eq_ok onEntry
      cases same
      exact (collected_children onChildren).append (hypothesis _ onRest)

/-! ## Trees -/

/-- The children of each subgraph of the list are after it. -/
def Finished (children : String → List String) : List String → Prop
  | [] => True
  | key :: earlier =>
      key ∉ earlier ∧ (∀ child ∈ children key, child ∈ earlier) ∧ Finished children earlier

/-- What the search has done between two states. -/
structure Searched (children : String → List String) (before after : TreeState) : Prop where
  active : after.active = before.active
  added : ∃ new, after.visited = new ++ before.visited ∧ ∀ key ∈ new, key ∉ before.active
  finished : Finished children before.visited → Finished children after.visited

theorem Searched.refl {children : String → List String} (state : TreeState) :
    Searched children state state :=
  ⟨rfl, ⟨[], rfl, by simp⟩, id⟩

theorem Searched.trans {children : String → List String} {before middle after : TreeState}
    (first : Searched children before middle) (second : Searched children middle after) :
    Searched children before after := by
  obtain ⟨firstNew, isMiddle, firstApart⟩ := first.added
  obtain ⟨secondNew, isAfter, secondApart⟩ := second.added
  rw [first.active] at secondApart
  refine ⟨second.active.trans first.active, ⟨secondNew ++ firstNew, ?_, ?_⟩,
    fun finished => second.finished (first.finished finished)⟩
  · rw [isAfter, isMiddle, List.append_assoc]
  · exact List.forall_mem_append.mpr ⟨secondApart, firstApart⟩

theorem Searched.mem {children : String → List String} {before after : TreeState}
    (searched : Searched children before after) {key : String} (member : key ∈ before.visited) :
    key ∈ after.visited := by
  obtain ⟨new, isAfter, -⟩ := searched.added
  rw [isAfter]
  exact List.mem_append_right _ member

/-- A loop of searches visits all that it starts from. -/
theorem searched_all {children : String → List String}
    {search : TreeState → String → Except GraphvizError TreeState}
    (each : ∀ before key after, search before key = .ok after →
      Searched children before after ∧ key ∈ after.visited)
    {keys : List String} {before after : TreeState}
    (searched : keys.foldlM search before = .ok after) :
    Searched children before after ∧ ∀ key ∈ keys, key ∈ after.visited := by
  induction keys generalizing before with
  | nil =>
      cases searched
      exact ⟨.refl _, by simp⟩
  | cons key keys hypothesis =>
      obtain ⟨middle, onKey, onRest⟩ := exists_of_bind_eq_ok searched
      obtain ⟨first, isVisited⟩ := each before key middle onKey
      obtain ⟨second, areVisited⟩ := hypothesis onRest
      exact ⟨first.trans second, List.forall_mem_cons.mpr ⟨second.mem isVisited, areVisited⟩⟩

theorem searched_tree {graph : Graph Number} {depth : Nat} {before after : TreeState}
    {key : String} (searched : validateSubgraphTree graph depth before key = .ok after) :
    Searched (childrenOf graph) before after ∧ key ∈ after.visited := by
  induction depth generalizing before key after with
  | zero => cases searched
  | succ depth hypothesis =>
      rw [validateSubgraphTree] at searched
      by_cases isVisited : key ∈ before.visited
      · rw [if_pos isVisited] at searched
        cases searched
        exact ⟨.refl _, isVisited⟩
      rw [if_neg isVisited] at searched
      by_cases isActive : key ∈ before.active
      · rw [if_pos isActive] at searched
        cases searched
      rw [if_neg isActive] at searched
      obtain ⟨subgraph, isSubgraph, onChildren⟩ := exists_of_bind_eq_ok searched
      obtain ⟨middle, areChildren, same⟩ := exists_of_bind_eq_ok onChildren
      cases same
      have isChildren : childrenOf graph key = subgraph.subgraphs := by
        rw [childrenOf, findSubgraph_eq_ok isSubgraph]
        rfl
      obtain ⟨below, areVisited⟩ :=
        searched_all (fun _ _ _ isChild => hypothesis isChild) areChildren
      obtain ⟨new, isMiddle, apart⟩ := below.added
      -- A search below the subgraph does not visit it, as it is on the way.
      have isNew : key ∉ middle.visited := by
        rw [isMiddle, List.mem_append, not_or]
        exact ⟨fun inNew => apart key inNew List.mem_cons_self, isVisited⟩
      refine ⟨⟨?_, ⟨key :: new, ?_, ?_⟩, fun finished => ?_⟩, List.mem_cons_self⟩
      · rw [below.active, List.erase_cons_head]
      · rw [isMiddle, List.cons_append]
      · exact List.forall_mem_cons.mpr ⟨isActive, fun other inNew inActive =>
          apart other inNew (List.mem_cons_of_mem _ inActive)⟩
      · exact ⟨isNew, by rwa [isChildren], below.finished finished⟩

theorem idxOf_lt_of_finished {children : String → List String} {visited : List String}
    (finished : Finished children visited) {key child : String} (member : key ∈ visited)
    (isChild : child ∈ children key) :
    child ∈ visited ∧ visited.idxOf key < visited.idxOf child := by
  induction visited with
  | nil => cases member
  | cons first earlier hypothesis =>
      obtain ⟨isNew, areEarlier, finishedEarlier⟩ := finished
      have notFirst {other : String} (inEarlier : other ∈ earlier) : first ≠ other := by
        rintro rfl
        exact isNew inEarlier
      rcases List.mem_cons.mp member with rfl | inEarlier
      · have childEarlier := areEarlier child isChild
        refine ⟨List.mem_cons_of_mem _ childEarlier, ?_⟩
        rw [List.idxOf_cons_self, List.idxOf_cons_ne _ (notFirst childEarlier)]
        omega
      · obtain ⟨childEarlier, lower⟩ := hypothesis finishedEarlier inEarlier
        refine ⟨List.mem_cons_of_mem _ childEarlier, ?_⟩
        rw [List.idxOf_cons_ne _ (notFirst inEarlier), List.idxOf_cons_ne _ (notFirst childEarlier)]
        omega

/-! ## Valid graphs -/

theorem NameMap.nodup_keys {Value : Type} (map : NameMap Value) : map.keys.Nodup := by
  refine map.sorted.imp fun {first second} lower => ?_
  rintro rfl
  exact String.lt_irrefl _ lower

theorem lookup_of_mem {Value : Type} {entries : SymbolMap Value}
    (distinct : (entries.map Prod.fst).Nodup) {entry : String × Value}
    (member : entry ∈ entries) : entries.lookup entry.1 = some entry.2 := by
  induction entries with
  | nil => cases member
  | cons first entries hypothesis =>
      rw [List.map_cons, List.nodup_cons] at distinct
      rcases List.mem_cons.mp member with rfl | later
      · rw [List.lookup_cons, beq_self_eq_true]
      · have different : entry.1 ≠ first.1 := by
          intro same
          exact distinct.1 (same ▸ List.mem_map_of_mem later)
        rw [List.lookup_cons, beq_eq_false_iff_ne.mpr different]
        exact hypothesis distinct.2 later

theorem NameMap.get_of_mem {Value : Type} {map : NameMap Value} {entry : String × Value}
    (member : entry ∈ map.entries) : map.get entry.1 = some entry.2 :=
  lookup_of_mem map.nodup_keys member

theorem childrenOf_of_mem {graph : Graph Number} {entry : String × Subgraph Number}
    (member : entry ∈ graph.subgraphs.entries) :
    childrenOf graph entry.1 = entry.2.subgraphs := by
  rw [childrenOf, NameMap.get_of_mem member]
  rfl

/-- All the edges of a graph and of its subgraphs. -/
def allEdges (graph : Graph Number) : List (Edge Number) :=
  graph.edges ++ graph.subgraphs.entries.flatMap fun entry => entry.2.edges

/-- What the checks say of a graph. -/
structure ValidGraph (graph : Graph Number) (roots : List String) : Prop where
  distinctNodes : (allNodes graph).Nodup
  forest : ∃ rank, IsForest (childrenOf graph) roots graph.subgraphs.keys rank
  joined : ∀ edge ∈ allEdges graph,
    edge.source.node ∈ allNodes graph ∧ edge.target.node ∈ allNodes graph

theorem mem_of_validateEndpoint {nodes : List String} {endpoint : Endpoint}
    (valid : validateEndpoint nodes endpoint = .ok ()) : endpoint.node ∈ nodes := by
  unfold validateEndpoint at valid
  by_contra isMissing
  rw [if_pos isMissing] at valid
  cases valid

theorem mem_of_validateEdge {nodes : List String} {edge : Edge Number}
    (valid : validateEdge nodes edge = .ok ()) :
    edge.source.node ∈ nodes ∧ edge.target.node ∈ nodes := by
  obtain ⟨⟨⟩, onSource, onTarget⟩ := exists_of_bind_eq_ok valid
  exact ⟨mem_of_validateEndpoint onSource, mem_of_validateEndpoint onTarget⟩

/-- The subgraphs of a graph are a forest when no child is listed twice and a search
visits them all. -/
theorem isForest_of_collected {graph : Graph Number} {parents : SymbolMap String}
    (collected : Collected graph [] parents (allChildren graph)) {visited : List String}
    (finished : Finished (childrenOf graph) visited)
    (areVisited : ∀ key ∈ graph.subgraphs.keys, key ∈ visited) :
    IsForest (childrenOf graph)
      (graph.subgraphs.keys.filter fun key => (parents.lookup key).isNone)
      graph.subgraphs.keys visited.idxOf := by
  have distinct := collected.distinct
  rw [allChildren, List.nodup_flatMap] at distinct
  have isChild {key child : String} (isKey : key ∈ graph.subgraphs.keys)
      (member : child ∈ childrenOf graph key) :
      ∃ entry ∈ graph.subgraphs.entries, entry.1 = key ∧ child ∈ entry.2.subgraphs := by
    obtain ⟨entry, isEntry, rfl⟩ := List.mem_map.mp isKey
    rw [childrenOf_of_mem isEntry] at member
    exact ⟨entry, isEntry, rfl, member⟩
  refine ⟨graph.subgraphs.nodup_keys.filter _, ?_, ?_, ?_, ?_, ?_⟩
  · intro key isKey
    obtain ⟨entry, isEntry, rfl⟩ := List.mem_map.mp isKey
    rw [childrenOf_of_mem isEntry]
    exact distinct.1 entry isEntry
  · intro key isKey child member
    obtain ⟨entry, isEntry, rfl, inEntry⟩ := isChild isKey member
    exact collected.areKeys child (List.mem_flatMap.mpr ⟨entry, isEntry, inEntry⟩)
  · intro first isFirst second isSecond child inFirst inSecond
    obtain ⟨firstEntry, isFirstEntry, rfl, inFirstEntry⟩ := isChild isFirst inFirst
    obtain ⟨secondEntry, isSecondEntry, rfl, inSecondEntry⟩ := isChild isSecond inSecond
    rw [eq_of_nodup_flatMap collected.distinct isFirstEntry isSecondEntry inFirstEntry inSecondEntry]
  · intro key
    have isTop : (parents.lookup key).isNone = true ↔ key ∉ allChildren graph := by
      have known := collected.known key
      rw [List.map_nil, or_iff_right List.not_mem_nil] at known
      rw [← known, ← Option.not_isSome, Bool.not_eq_true', ← Bool.not_eq_true]
      simp
    rw [List.mem_filter, isTop]
    refine and_congr_right fun _ => ⟨fun notChild parent isKey member => ?_, fun noParent member => ?_⟩
    · obtain ⟨entry, isEntry, rfl, inEntry⟩ := isChild isKey member
      exact notChild (List.mem_flatMap.mpr ⟨entry, isEntry, inEntry⟩)
    · obtain ⟨entry, isEntry, inEntry⟩ := List.mem_flatMap.mp member
      refine noParent entry.1 (List.mem_map_of_mem isEntry) ?_
      rwa [childrenOf_of_mem isEntry]
  · intro key isKey child member
    exact (idxOf_lt_of_finished finished (areVisited key isKey) member).2

/-- The checks of a graph establish what they are for. -/
theorem validGraph {graph : Graph Number} {roots : List String}
    (valid : validateGraph graph = .ok roots) : ValidGraph graph roots := by
  obtain ⟨nodes, areNodes, onParents⟩ := exists_of_bind_eq_ok valid
  obtain ⟨parents, areParents, onTrees⟩ := exists_of_bind_eq_ok onParents
  obtain ⟨state, areTrees, onEdges⟩ := exists_of_bind_eq_ok onTrees
  obtain ⟨⟨⟩, onGraphEdges, onRest⟩ := exists_of_bind_eq_ok onEdges
  obtain ⟨⟨⟩, onSubgraphEdges, same⟩ := exists_of_bind_eq_ok onRest
  cases same
  obtain ⟨rfl, distinct⟩ := of_collectAllNodes areNodes
  obtain ⟨searched, areVisited⟩ :=
    searched_all (fun _ _ _ isTree => searched_tree isTree) areTrees
  refine ⟨distinct, ⟨_, isForest_of_collected (collected_parents areParents)
    (searched.finished trivial) areVisited⟩, fun edge member => ?_⟩
  rcases List.mem_append.mp member with inGraph | inSubgraph
  · exact mem_of_validateEdge (of_forM onGraphEdges edge inGraph)
  · obtain ⟨entry, isEntry, inEntry⟩ := List.mem_flatMap.mp inSubgraph
    exact mem_of_validateEdge (of_forM (of_forM onSubgraphEdges entry isEntry) edge inEntry)

end Validation

end RexLang.Graphviz
