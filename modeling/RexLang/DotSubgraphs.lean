import RexLang.DotDocuments

/-!
# Written subgraphs

Each subgraph is written once for each visit of a walk through the children of the
subgraphs: with its name, its own statements and then its children.
-/

namespace RexLang.Graphviz

/-! ## What a statement is about -/

/-- The node that an entry declares, in its scope. -/
def nodeOf : Option String × DotEntry → Option (Option String × String)
  | (scope, .node id _) => some (scope, id.value)
  | _ => none

/-- The nodes that an entry joins, in its scope. -/
def edgeOf : Option String × DotEntry → Option (Option String × String × String)
  | (scope, .edge source target _) => some (scope, source.node.value, target.node.value)
  | _ => none

/-- The subgraph that an entry starts, below its parent. -/
def placeOf : Option String × DotEntry → Option (Option String × String)
  | (scope, .subgraph key _) => some (scope, key)
  | _ => none

/-- The name under which an entry starts a subgraph. -/
def nameOf : Option String × DotEntry → Option (String × Option QuotedText)
  | (_, .subgraph key name) => some (key, name)
  | _ => none

/-- What some statements without subgraphs declare and join, and when they are safe. -/
structure Declares (scope : Option String) (statements : List Statement) (nodes : List String)
    (edges : List (String × String)) (safe : Prop) : Prop where
  nodes : (bodyScoped scope statements).filterMap nodeOf = nodes.map (scope, ·)
  edges : (bodyScoped scope statements).filterMap edgeOf = edges.map (scope, ·)
  places : (bodyScoped scope statements).filterMap placeOf = []
  names : (bodyScoped scope statements).filterMap nameOf = []
  safe : (∀ entry ∈ bodyScoped scope statements, entry.2.Safe) ↔ safe

theorem bodyScoped_append (scope : Option String) (first second : List Statement) :
    bodyScoped scope (first ++ second) = bodyScoped scope first ++ bodyScoped scope second := by
  rw [bodyScoped_eq, bodyScoped_eq, bodyScoped_eq, List.flatMap_append]

theorem Declares.append {scope : Option String} {first second : List Statement}
    {firstNodes secondNodes : List String} {firstEdges secondEdges : List (String × String)}
    {firstSafe secondSafe : Prop}
    (declaresFirst : Declares scope first firstNodes firstEdges firstSafe)
    (declaresSecond : Declares scope second secondNodes secondEdges secondSafe) :
    Declares scope (first ++ second) (firstNodes ++ secondNodes) (firstEdges ++ secondEdges)
      (firstSafe ∧ secondSafe) where
  nodes := by
    rw [bodyScoped_append, List.filterMap_append, declaresFirst.nodes, declaresSecond.nodes,
      List.map_append]
  edges := by
    rw [bodyScoped_append, List.filterMap_append, declaresFirst.edges, declaresSecond.edges,
      List.map_append]
  places := by
    rw [bodyScoped_append, List.filterMap_append, declaresFirst.places, declaresSecond.places]
    rfl
  names := by
    rw [bodyScoped_append, List.filterMap_append, declaresFirst.names, declaresSecond.names]
    rfl
  safe := by
    rw [bodyScoped_append, List.forall_mem_append, declaresFirst.safe, declaresSecond.safe]

section Parts

variable {Number : Type} {format : NumberFormat Number}

theorem declares_attributes (scope : Option String) {target : DefaultTarget}
    {attributes : AttributeMap} {statements : List Statement}
    (written : writeAttributeStatement target attributes = .ok statements) :
    Declares scope statements [] [] (SafeMap attributes) := by
  unfold writeAttributeStatement at written
  cases attributes with
  | nil =>
      cases written
      exact ⟨rfl, rfl, rfl, rfl, by simp [bodyScoped, SafeMap]⟩
  | cons entry attributes =>
      obtain ⟨writtenAttributes, isWritten, same⟩ := exists_of_bind_eq_ok written
      cases same
      refine ⟨rfl, rfl, rfl, rfl, ?_⟩
      rw [← safeWritten_iff isWritten]
      simp [bodyScoped, Statement.scoped, DotEntry.Safe]

/-- The identifier and the attributes of a node are safe. -/
def SafeNode (node : String × NodeAttributes Number) : Prop :=
  SafeQuoted node.1 ∧ node.2.Safe

theorem declares_nodes (scope : Option String) {nodes : NameMap (NodeAttributes Number)}
    {statements : List Statement} (written : writeNodes format nodes = .ok statements) :
    Declares scope statements nodes.keys [] (∀ node ∈ nodes.entries, SafeNode node) := by
  have all := forall₂_of_mapM written
  unfold NameMap.keys
  clear written
  generalize nodes.entries = entries at all ⊢
  induction all with
  | nil => exact ⟨rfl, rfl, rfl, rfl, by simp [bodyScoped]⟩
  | cons onNode _ hypothesis =>
      obtain ⟨id, isId, onAttributes⟩ := exists_of_bind_eq_ok onNode
      obtain ⟨attributes, areAttributes, onWritten⟩ := exists_of_bind_eq_ok onAttributes
      obtain ⟨written, isWritten, same⟩ := exists_of_bind_eq_ok onWritten
      cases same
      have isValue := writeQuoted_value isId
      refine ⟨?_, hypothesis.edges, hypothesis.places, hypothesis.names, ?_⟩
      · rw [List.map_cons, List.map_cons, ← hypothesis.nodes, ← isValue]
        rfl
      · rw [List.forall_mem_cons, ← hypothesis.safe, bodyScoped, List.forall_mem_append, SafeNode,
          ← isValue, ← safeMap_node format areAttributes, ← safeWritten_iff isWritten]
        simp [Statement.scoped, DotEntry.Safe]

def Endpoint.Safe (endpoint : Endpoint) : Prop :=
  SafeQuoted endpoint.node ∧ ∀ port ∈ endpoint.port, ∀ name ∈ port.name, SafeQuoted name

/-- The identifiers, port names and attributes of an edge are safe. -/
def SafeEdge (edge : Edge Number) : Prop :=
  edge.source.Safe ∧ edge.target.Safe ∧ edge.attributes.Safe

theorem writeOptional_value {name : Option String} {written : Option QuotedText}
    (isWritten : writeOptional name = .ok written) : written.map QuotedText.value = name := by
  cases name with
  | none =>
      cases isWritten
      rfl
  | some name =>
      obtain ⟨text, isText, same⟩ := exists_of_bind_eq_ok isWritten
      cases same
      exact congrArg some (writeQuoted_value isText)

theorem safe_writeOptional {name : Option String} {written : Option QuotedText}
    (isWritten : writeOptional name = .ok written) :
    (∀ text ∈ written, SafeQuoted text.value) ↔ ∀ text ∈ name, SafeQuoted text := by
  rw [← writeOptional_value isWritten]
  cases written <;> simp

theorem of_writeEndpoint {endpoint : Endpoint} {written : WrittenEndpoint}
    (isWritten : writeEndpoint endpoint = .ok written) :
    written.node.value = endpoint.node ∧ (written.Safe ↔ endpoint.Safe) := by
  obtain ⟨node, port⟩ := endpoint
  obtain ⟨text, isText, onPort⟩ := exists_of_bind_eq_ok isWritten
  have isValue := writeQuoted_value isText
  cases port with
  | none =>
      cases onPort
      exact ⟨isValue, by simp [WrittenEndpoint.Safe, Endpoint.Safe, isValue]⟩
  | some port =>
      obtain ⟨name, isName, same⟩ := exists_of_bind_eq_ok onPort
      cases same
      have safeName := safe_writeOptional isName
      simp only [Option.mem_def] at safeName
      exact ⟨isValue, by simp [WrittenEndpoint.Safe, Endpoint.Safe, isValue, safeName]⟩

/-- The nodes that an edge joins. -/
def joinedNodes (edge : Edge Number) : String × String :=
  (edge.source.node, edge.target.node)

theorem declares_edges (scope : Option String) {edges : List (Edge Number)}
    {statements : List Statement} (written : writeEdges format edges = .ok statements) :
    Declares scope statements [] (edges.map joinedNodes) (∀ edge ∈ edges, SafeEdge edge) := by
  have all := forall₂_of_mapM written
  clear written
  induction all with
  | nil => exact ⟨rfl, rfl, rfl, rfl, by simp [bodyScoped]⟩
  | @cons edge statement _ _ onEdge _ hypothesis =>
      obtain ⟨source, isSource, onTarget⟩ := exists_of_bind_eq_ok onEdge
      obtain ⟨target, isTarget, onAttributes⟩ := exists_of_bind_eq_ok onTarget
      obtain ⟨attributes, areAttributes, onWritten⟩ := exists_of_bind_eq_ok onAttributes
      obtain ⟨written, isWritten, same⟩ := exists_of_bind_eq_ok onWritten
      cases same
      obtain ⟨sourceNode, safeSource⟩ := of_writeEndpoint isSource
      obtain ⟨targetNode, safeTarget⟩ := of_writeEndpoint isTarget
      refine ⟨hypothesis.nodes, ?_, hypothesis.places, hypothesis.names, ?_⟩
      · rw [List.map_cons, List.map_cons, ← hypothesis.edges, joinedNodes, ← sourceNode,
          ← targetNode]
        rfl
      · rw [List.forall_mem_cons, ← hypothesis.safe, bodyScoped, List.forall_mem_append, SafeEdge,
          ← safeSource, ← safeTarget, ← safeMap_edge format areAttributes, ← safeWritten_iff isWritten]
        simp [Statement.scoped, DotEntry.Safe]

end Parts

/-! ## Subgraphs -/

section Subgraphs

variable {Number : Type} {format : NumberFormat Number}

/-- The children of a subgraph of the map. -/
def childrenOf (graph : Graph Number) (key : String) : List String :=
  ((graph.subgraphs.get key).map Subgraph.subgraphs).getD []

/-- The name, the attributes, the nodes and the edges of a subgraph are safe. -/
def SafeSubgraph (key : String) (subgraph : Subgraph Number) : Prop :=
  (∀ name ∈ subgraphName key subgraph, SafeQuoted name) ∧ subgraph.attributes.Safe ∧
    (∀ node ∈ subgraph.nodes.entries, SafeNode node) ∧ ∀ edge ∈ subgraph.edges, SafeEdge edge

/-- What `write_subgraph` writes of a subgraph besides its children. -/
structure WrittenOwn (graph : Graph Number) (key : String) (name : Option QuotedText)
    (own : List Statement) (subgraph : Subgraph Number) : Prop where
  found : graph.subgraphs.get key = some subgraph
  name : name.map QuotedText.value = subgraphName key subgraph
  declares : Declares (some key) own subgraph.nodes.keys (subgraph.edges.map joinedNodes)
    (subgraph.attributes.Safe ∧ (∀ node ∈ subgraph.nodes.entries, SafeNode node) ∧
      ∀ edge ∈ subgraph.edges, SafeEdge edge)

/-- The entries of a visited subgraph: its start and its own statements. -/
def VisitedEntries (graph : Graph Number) (visit : Option String × String)
    (entries : List (Option String × DotEntry)) : Prop :=
  ∃ name own subgraph, WrittenOwn graph visit.2 name own subgraph ∧
    entries = (visit.1, .subgraph visit.2 name) :: bodyScoped (some visit.2) own

/-- The entries of the subgraphs that a walk visits, in any order. -/
def WalkedEntries (graph : Graph Number) (visits : List (Option String × String))
    (entries : List (Option String × DotEntry)) : Prop :=
  ∃ parts, List.Forall₂ (VisitedEntries graph) visits parts ∧ entries.Perm parts.flatten

theorem WalkedEntries.append {graph : Graph Number}
    {firstVisits secondVisits : List (Option String × String)}
    {first second : List (Option String × DotEntry)}
    (walkedFirst : WalkedEntries graph firstVisits first)
    (walkedSecond : WalkedEntries graph secondVisits second) :
    WalkedEntries graph (firstVisits ++ secondVisits) (first ++ second) := by
  obtain ⟨firstParts, areFirst, permFirst⟩ := walkedFirst
  obtain ⟨secondParts, areSecond, permSecond⟩ := walkedSecond
  refine ⟨firstParts ++ secondParts, List.rel_append areFirst areSecond, ?_⟩
  rw [List.flatten_append]
  exact permFirst.append permSecond

theorem findSubgraph_eq_ok {graph : Graph Number} {key : String} {subgraph : Subgraph Number}
    (found : findSubgraph graph key = .ok subgraph) : graph.subgraphs.get key = some subgraph := by
  unfold findSubgraph at found
  cases isFound : graph.subgraphs.get key with
  | none =>
      rw [isFound] at found
      cases found
  | some other =>
      rw [isFound] at found
      cases found
      rfl

/-- A written subgraph is what a walk from it visits. -/
structure WrittenTree (graph : Graph Number) (depth : Nat) (key : String)
    (statement : Statement) : Prop where
  fits : FitsDepth (childrenOf graph) depth key
  walked : ∀ scope, WalkedEntries graph (walk (childrenOf graph) depth scope key)
    (statement.scoped scope)

theorem writtenTree_children {graph : Graph Number} {depth : Nat} {keys : List String}
    {statements : List Statement} (scope : Option String)
    (each : List.Forall₂ (WrittenTree graph depth) keys statements) :
    (∀ key ∈ keys, FitsDepth (childrenOf graph) depth key) ∧
      WalkedEntries graph (keys.flatMap (walk (childrenOf graph) depth scope))
        (bodyScoped scope statements) := by
  induction each with
  | nil => exact ⟨by simp, [], .nil, .nil⟩
  | cons tree _ hypothesis =>
      exact ⟨List.forall_mem_cons.mpr ⟨tree.fits, hypothesis.1⟩,
        (tree.walked scope).append hypothesis.2⟩

theorem writtenTree {graph : Graph Number} {depth : Nat} {key : String} {statement : Statement}
    (written : writeSubgraph format graph depth key = .ok statement) :
    WrittenTree graph depth key statement := by
  induction depth generalizing key statement with
  | zero => cases written
  | succ depth hypothesis =>
      obtain ⟨subgraph, isSubgraph, onName⟩ := exists_of_bind_eq_ok written
      obtain ⟨name, isName, onAttributes⟩ := exists_of_bind_eq_ok onName
      obtain ⟨attributes, areAttributes, onDefaults⟩ := exists_of_bind_eq_ok onAttributes
      obtain ⟨defaults, areDefaults, onNodes⟩ := exists_of_bind_eq_ok onDefaults
      obtain ⟨nodes, areNodes, onChildren⟩ := exists_of_bind_eq_ok onNodes
      obtain ⟨children, areChildren, onEdges⟩ := exists_of_bind_eq_ok onChildren
      obtain ⟨edges, areEdges, same⟩ := exists_of_bind_eq_ok onEdges
      cases same
      have found := findSubgraph_eq_ok isSubgraph
      have isChildren : childrenOf graph key = subgraph.subgraphs := by
        rw [childrenOf, found]
        rfl
      have trees : List.Forall₂ (WrittenTree graph depth) subgraph.subgraphs children :=
        (forall₂_of_mapM areChildren).imp fun _ _ isChild => hypothesis isChild
      have below := writtenTree_children (some key) trees
      have own := ((declares_attributes (some key) areDefaults).append
        (declares_nodes (some key) areNodes)).append (declares_edges (some key) areEdges)
      rw [safeMap_subgraph format areAttributes, and_assoc, List.nil_append, List.append_nil,
        List.nil_append, List.nil_append] at own
      have isOwn : WrittenOwn graph key name (defaults ++ nodes ++ edges) subgraph :=
        ⟨found, writeOptional_value isName, own⟩
      refine ⟨?_, fun scope => ?_⟩
      · unfold FitsDepth
        rw [isChildren]
        exact below.1
      · obtain ⟨parts, areParts, perm⟩ := below.2
        rw [walk, isChildren]
        refine ⟨_ :: parts, .cons ⟨name, _, subgraph, isOwn, rfl⟩ areParts, ?_⟩
        rw [Statement.scoped, List.flatten_cons, List.cons_append, List.perm_cons]
        simp only [bodyScoped_append, List.append_assoc]
        refine List.Perm.append_left _ (List.Perm.append_left _ ?_)
        exact (List.perm_append_comm).trans (perm.append_left _)

end Subgraphs

end RexLang.Graphviz
