import RexLang.DotValidation

/-!
# Graphs are read as they are meant

DOT reads the text of a graph as a document that corresponds to it if and only if the
texts of the graph are safe, its names stay distinct where line breaks are read as
escapes, and no plain subgraph has the name of a cluster.
-/

namespace RexLang.Graphviz

/-! ## Names -/

/-- What DOT reads for a quoted name. -/
def readText (name : String) : List Char :=
  name.toList.flatMap readChar

theorem prefix_readChars {start : List Char}
    (ordinary : ∀ symbol ∈ start, symbol ≠ '\n' ∧ symbol ≠ '\r' ∧ symbol ≠ '\\')
    (text : List Char) : start <+: text.flatMap readChar ↔ start <+: text := by
  induction start generalizing text with
  | nil => simp
  | cons symbol start hypothesis =>
      obtain ⟨⟨notNewline, notReturn, notBackslash⟩, ordinaryRest⟩ :=
        List.forall_mem_cons.mp ordinary
      cases text with
      | nil => rfl
      | cons first text =>
          rw [List.flatMap_cons]
          by_cases isNewline : first = '\n'
          · simp [isNewline, readChar, List.cons_prefix_cons, notNewline, notBackslash]
          by_cases isReturn : first = '\r'
          · simp [isReturn, readChar, List.cons_prefix_cons, notReturn, notBackslash]
          · simp [isNewline, isReturn, readChar, List.cons_prefix_cons, hypothesis ordinaryRest]

theorem prefix_readText (name : String) :
    "cluster".toList <+: readText name ↔ "cluster".toList <+: name.toList :=
  prefix_readChars (by simp) name.toList

theorem cluster_prefix_append (base : String) :
    "cluster".toList <+: ("cluster_" ++ base).toList := by
  rw [String.toList_append]
  exact List.IsPrefix.trans (by decide) (List.prefix_append "cluster_".toList base.toList)

/-- DOT reads the kind of a subgraph off its name unless it is plain and has the name of a
cluster. -/
theorem readAsCluster_iff {Number : Type} (key : String) (subgraph : Subgraph Number) :
    ((∃ name ∈ subgraphName key subgraph, "cluster".toList <+: readText name) ↔
        subgraph.kind = .cluster) ↔
      (subgraph.kind = .plain → ∀ id ∈ subgraph.id, ¬"cluster".toList <+: id.toList) := by
  unfold subgraphName
  cases subgraph.kind with
  | plain =>
      simp only [prefix_readText, reduceCtorEq, iff_false, not_exists, not_and, forall_const]
  | cluster =>
      refine iff_of_true ?_ fun isPlain => SubgraphKind.noConfusion isPlain
      refine iff_of_true ⟨_, rfl, ?_⟩ rfl
      rw [prefix_readText]
      split_ifs with isCluster
      · exact List.isPrefixOf_iff_prefix.mp isCluster
      · exact cluster_prefix_append _

/-! ## What a graph says -/

section Meaning

variable {Number : Type}

/-- The nodes of a subgraph of the map. -/
def nodesOf (graph : Graph Number) (key : String) : List (Option String × String) :=
  ((graph.subgraphs.get key).map fun subgraph =>
    subgraph.nodes.keys.map (some key, ·)).getD []

/-- The edges of a subgraph of the map. -/
def edgesOf (graph : Graph Number) (key : String) : List (Option String × String × String) :=
  ((graph.subgraphs.get key).map fun subgraph =>
    subgraph.edges.map fun edge => (some key, joinedNodes edge)).getD []

/-- The nodes of a graph, each in its scope. -/
def declaredNodes (graph : Graph Number) : List (Option String × String) :=
  graph.nodes.keys.map (none, ·) ++ graph.subgraphs.keys.flatMap (nodesOf graph)

/-- The edges of a graph, each in its scope. -/
def declaredEdges (graph : Graph Number) : List (Option String × String × String) :=
  graph.edges.map (fun edge => (none, joinedNodes edge)) ++
    graph.subgraphs.keys.flatMap (edgesOf graph)

/-- The names of the subgraphs that have one. -/
def subgraphNames (graph : Graph Number) : List String :=
  graph.subgraphs.entries.filterMap fun entry => subgraphName entry.1 entry.2

/-- What DOT reads of a document is the graph. -/
structure Faithful (graph : Graph Number) (document : Document) : Prop where
  strict : document.strict = graph.strict
  kind : document.kind = graph.kind
  id : document.id.map QuotedText.value = graph.id
  /-- Each literal ends where it is closed. -/
  literals : dotScanner.run .outside document.text.toList = document.signs
  nodes : (document.entries.filterMap nodeOf).Perm (declaredNodes graph)
  distinctNodes : ((document.entries.filterMap nodeOf).map fun node => readText node.2).Nodup
  /-- Each subgraph is written once, under its parent. -/
  places : VisitsOnce (childrenOf graph) graph.subgraphs.keys
    (document.entries.filterMap placeOf)
  distinctNames : ((document.entries.filterMap nameOf).filterMap fun entry =>
    entry.2.map QuotedText.read).Nodup
  clusters : ∀ entry ∈ document.entries.filterMap nameOf,
    ∀ subgraph ∈ graph.subgraphs.get entry.1,
      (∃ name ∈ entry.2, "cluster".toList <+: name.read) ↔ subgraph.kind = .cluster
  edges : (document.entries.filterMap edgeOf).Perm (declaredEdges graph)
  joined : ∀ edge ∈ document.entries.filterMap edgeOf,
    edge.2.1 ∈ (document.entries.filterMap nodeOf).map Prod.snd ∧
      edge.2.2 ∈ (document.entries.filterMap nodeOf).map Prod.snd

/-- The texts of a graph have no quotes after an odd number of backslashes and no unbalanced
angle brackets. -/
structure SafeTexts (graph : Graph Number) : Prop where
  id : ∀ id ∈ graph.id, SafeQuoted id
  attributes : graph.attributes.Safe
  nodeDefaults : graph.nodeDefaults.Safe
  edgeDefaults : graph.edgeDefaults.Safe
  nodes : ∀ node ∈ graph.nodes.entries, SafeNode node
  edges : ∀ edge ∈ graph.edges, SafeEdge edge
  subgraphs : ∀ entry ∈ graph.subgraphs.entries, SafeSubgraph entry.1 entry.2

/-- Moreover, the names of a graph are distinct and tell clusters. -/
structure Graph.Safe (graph : Graph Number) : Prop extends SafeTexts graph where
  /-- No two nodes have the same name once line breaks are escapes. -/
  distinctNodes : ((allNodes graph).map readText).Nodup
  distinctNames : ((subgraphNames graph).map readText).Nodup
  plainNames : ∀ entry ∈ graph.subgraphs.entries, entry.2.kind = .plain →
    ∀ id ∈ entry.2.id, ¬"cluster".toList <+: id.toList

end Meaning

/-! ## What the walk collects -/

section Walks

variable {Number : Type} {graph : Graph Number}

/-- The name of a subgraph of the map. -/
def nameOfKey (graph : Graph Number) (key : String) : Option String :=
  (graph.subgraphs.get key).bind (subgraphName key)

/-- What the entries of visited subgraphs say. -/
structure Collects (graph : Graph Number) (visits : List (Option String × String))
    (entries : List (Option String × DotEntry)) : Prop where
  nodes : (entries.filterMap nodeOf).Perm (visits.flatMap fun visit => nodesOf graph visit.2)
  edges : (entries.filterMap edgeOf).Perm (visits.flatMap fun visit => edgesOf graph visit.2)
  places : (entries.filterMap placeOf).Perm visits
  names : ((entries.filterMap nameOf).map fun entry =>
      (entry.1, entry.2.map QuotedText.value)).Perm
    (visits.map fun visit => (visit.2, nameOfKey graph visit.2))
  safe : (∀ entry ∈ entries, entry.2.Safe) ↔
    ∀ visit ∈ visits, ∀ subgraph ∈ graph.subgraphs.get visit.2, SafeSubgraph visit.2 subgraph

theorem collects_visited {visit : Option String × String}
    {entries : List (Option String × DotEntry)} (visited : VisitedEntries graph visit entries) :
    Collects graph [visit] entries := by
  obtain ⟨name, own, subgraph, written, rfl⟩ := visited
  obtain ⟨found, isName, declares⟩ := written
  refine ⟨?_, ?_, ?_, ?_, ?_⟩
  · rw [List.filterMap_cons_none rfl, declares.nodes, List.flatMap_singleton, nodesOf, found]
    rfl
  · rw [List.filterMap_cons_none rfl, declares.edges, List.flatMap_singleton, edgesOf, found,
      List.map_map]
    rfl
  · rw [List.filterMap_cons_some (f := placeOf) rfl, declares.places]
  · rw [List.filterMap_cons_some (f := nameOf) rfl, declares.names, List.map_singleton, List.map_singleton,
      isName, nameOfKey, found]
    rfl
  · rw [List.forall_mem_cons, declares.safe, List.forall_mem_singleton, found]
    have safeName : (∀ text ∈ name, SafeQuoted text.value) ↔
        ∀ text ∈ subgraphName visit.2 subgraph, SafeQuoted text := by
      rw [← isName]
      cases name <;> simp
    simp only [Option.mem_some_iff, forall_eq', DotEntry.Safe, SafeSubgraph, safeName]

theorem Collects.append {firstVisits secondVisits : List (Option String × String)}
    {first second : List (Option String × DotEntry)} (collectsFirst : Collects graph firstVisits first)
    (collectsSecond : Collects graph secondVisits second) :
    Collects graph (firstVisits ++ secondVisits) (first ++ second) where
  nodes := by
    rw [List.filterMap_append, List.flatMap_append]
    exact collectsFirst.nodes.append collectsSecond.nodes
  edges := by
    rw [List.filterMap_append, List.flatMap_append]
    exact collectsFirst.edges.append collectsSecond.edges
  places := by
    rw [List.filterMap_append]
    exact collectsFirst.places.append collectsSecond.places
  names := by
    rw [List.filterMap_append, List.map_append, List.map_append]
    exact collectsFirst.names.append collectsSecond.names
  safe := by
    rw [List.forall_mem_append, List.forall_mem_append, collectsFirst.safe, collectsSecond.safe]

theorem collects_walked {visits : List (Option String × String)}
    {entries : List (Option String × DotEntry)} (walked : WalkedEntries graph visits entries) :
    Collects graph visits entries := by
  obtain ⟨parts, areVisited, perm⟩ := walked
  have collects : Collects graph visits parts.flatten := by
    clear perm
    induction areVisited with
    | nil => exact ⟨.nil, .nil, .nil, .nil, by simp⟩
    | cons visited _ hypothesis => exact (collects_visited visited).append hypothesis
  refine ⟨(perm.filterMap _).trans collects.nodes, (perm.filterMap _).trans collects.edges,
    (perm.filterMap _).trans collects.places, ((perm.filterMap _).map _).trans collects.names, ?_⟩
  rw [← collects.safe]
  simp only [perm.mem_iff]

theorem VisitsOnce.perm {children : String → List String} {nodes : List String}
    {visits others : List (Option String × String)} (visitsOnce : VisitsOnce children nodes visits)
    (perm : others.Perm visits) : VisitsOnce children nodes others where
  once := ((perm.map _).nodup_iff).mpr visitsOnce.once
  all node := ((perm.map _).mem_iff).trans (visitsOnce.all node)
  below parent node := perm.mem_iff.trans (visitsOnce.below parent node)
  top node := perm.mem_iff.trans (visitsOnce.top node)

/-- The visited subgraphs are those of the map. -/
theorem perm_keys {visits : List (Option String × String)}
    (visitsOnce : VisitsOnce (childrenOf graph) graph.subgraphs.keys visits) :
    (visits.map Prod.snd).Perm graph.subgraphs.keys :=
  (List.perm_ext_iff_of_nodup visitsOnce.once graph.subgraphs.nodup_keys).mpr visitsOnce.all

/-! ## What a document says -/

variable {format : NumberFormat Number}

theorem declares_defaults {statements : List Statement}
    (written : writeDefaultAttributes format graph = .ok statements) :
    Declares none statements [] []
      (graph.attributes.Safe ∧ graph.nodeDefaults.Safe ∧ graph.edgeDefaults.Safe) := by
  obtain ⟨graphDefaults, areGraph, onGraph⟩ := exists_of_bind_eq_ok written
  obtain ⟨ofGraph, isGraph, onNodes⟩ := exists_of_bind_eq_ok onGraph
  obtain ⟨nodeDefaults, areNodes, onWrittenNodes⟩ := exists_of_bind_eq_ok onNodes
  obtain ⟨ofNodes, isNodes, onEdges⟩ := exists_of_bind_eq_ok onWrittenNodes
  obtain ⟨edgeDefaults, areEdges, onWrittenEdges⟩ := exists_of_bind_eq_ok onEdges
  obtain ⟨ofEdges, isEdges, same⟩ := exists_of_bind_eq_ok onWrittenEdges
  cases same
  have declares := ((declares_attributes none isGraph).append
    (declares_attributes none isNodes)).append (declares_attributes none isEdges)
  rwa [safeMap_graph format areGraph, safeMap_node format areNodes, safeMap_edge format areEdges,
    and_assoc] at declares

/-- What the document of a graph says. -/
structure Describes (graph : Graph Number) (document : Document) : Prop where
  strict : document.strict = graph.strict
  kind : document.kind = graph.kind
  id : document.id.map QuotedText.value = graph.id
  nodes : (document.entries.filterMap nodeOf).Perm (declaredNodes graph)
  edges : (document.entries.filterMap edgeOf).Perm (declaredEdges graph)
  places : VisitsOnce (childrenOf graph) graph.subgraphs.keys
    (document.entries.filterMap placeOf)
  names : ((document.entries.filterMap nameOf).map fun entry =>
      (entry.1, entry.2.map QuotedText.value)).Perm
    (graph.subgraphs.keys.map fun key => (key, nameOfKey graph key))
  safe : dotScanner.run .outside document.text.toList = document.signs ↔ SafeTexts graph

theorem describes_document {document : Document}
    (written : writeDocument format graph = .ok document) : Describes graph document := by
  obtain ⟨roots, areRoots, onId⟩ := exists_of_bind_eq_ok written
  obtain ⟨id, isId, onDefaults⟩ := exists_of_bind_eq_ok onId
  obtain ⟨defaults, areDefaults, onNodes⟩ := exists_of_bind_eq_ok onDefaults
  obtain ⟨nodes, areNodes, onSubgraphs⟩ := exists_of_bind_eq_ok onNodes
  obtain ⟨subgraphs, areSubgraphs, onEdges⟩ := exists_of_bind_eq_ok onSubgraphs
  obtain ⟨edges, areEdges, same⟩ := exists_of_bind_eq_ok onEdges
  cases same
  have valid := validGraph areRoots
  obtain ⟨rank, forest⟩ := valid.forest
  obtain ⟨fits, walked⟩ := writtenTree_children none
    ((forall₂_of_mapM areSubgraphs).imp fun _ _ isTree => writtenTree isTree)
  have collects := collects_walked walked
  have visitsOnce := forest.visitsOnce fits
  have keys := perm_keys visitsOnce
  have own := ((declares_defaults areDefaults).append
    (declares_nodes none areNodes)).append (declares_edges none areEdges)
  simp only [List.nil_append, List.append_nil] at own
  have perm : (Document.entries ⟨graph.strict, graph.kind, id,
      defaults ++ nodes ++ subgraphs ++ edges⟩).Perm
        (bodyScoped none (defaults ++ nodes ++ edges) ++ bodyScoped none subgraphs) := by
    unfold Document.entries
    simp only [bodyScoped_append, List.append_assoc]
    exact .append_left _ (.append_left _ List.perm_append_comm)
  refine ⟨rfl, rfl, writeOptional_value isId, ?_, ?_, ?_, ?_, ?_⟩
  · refine (perm.filterMap _).trans ?_
    rw [List.filterMap_append, own.nodes]
    refine .append_left _ (collects.nodes.trans ?_)
    rw [← List.flatMap_map Prod.snd (nodesOf graph)]
    exact keys.flatMap_right _
  · refine (perm.filterMap _).trans ?_
    rw [List.filterMap_append, own.edges, List.map_map]
    refine .append_left _ (collects.edges.trans ?_)
    rw [← List.flatMap_map Prod.snd (edgesOf graph)]
    exact keys.flatMap_right _
  · refine VisitsOnce.perm visitsOnce ((perm.filterMap _).trans ?_)
    rw [List.filterMap_append, own.places, List.nil_append]
    exact collects.places
  · refine ((perm.filterMap _).map _).trans ?_
    rw [List.filterMap_append, own.names, List.nil_append]
    refine collects.names.trans ?_
    rw [← Function.comp_def (fun key => (key, nameOfKey graph key)) Prod.snd, ← List.map_map]
    exact keys.map _
  · have onSubgraphs : (∀ entry ∈ bodyScoped none subgraphs, entry.2.Safe) ↔
        ∀ entry ∈ graph.subgraphs.entries, SafeSubgraph entry.1 entry.2 := by
      rw [collects.safe]
      constructor
      · intro safe entry member
        obtain ⟨visit, isVisited, same⟩ :=
          List.mem_map.mp (keys.mem_iff.mpr (List.mem_map_of_mem member))
        exact same ▸ safe visit isVisited entry.2 (by rw [same, NameMap.get_of_mem member]; rfl)
      · intro safe visit isVisited subgraph found
        have isKey := keys.mem_iff.mp (List.mem_map_of_mem isVisited)
        obtain ⟨entry, member, same⟩ := List.mem_map.mp isKey
        rw [← same, NameMap.get_of_mem member] at found
        cases found
        exact same ▸ safe entry member
    rw [Document.run_text_iff, safe_writeOptional isId]
    simp only [perm.mem_iff]
    rw [List.forall_mem_append, own.safe, onSubgraphs]
    constructor
    · rintro ⟨safeId, ⟨⟨⟨inGraph, inNodes, inEdges⟩, nodes⟩, edges⟩, subgraphs⟩
      exact ⟨safeId, inGraph, inNodes, inEdges, nodes, edges, subgraphs⟩
    · rintro ⟨safeId, inGraph, inNodes, inEdges, nodes, edges, subgraphs⟩
      exact ⟨safeId, ⟨⟨⟨inGraph, inNodes, inEdges⟩, nodes⟩, edges⟩, subgraphs⟩

/-! ## Names of a graph -/

theorem declaredNodes_names (graph : Graph Number) :
    (declaredNodes graph).map Prod.snd = allNodes graph := by
  unfold declaredNodes allNodes NameMap.keys
  rw [List.map_append, List.map_map, List.map_flatMap, List.flatMap_map]
  congr 1
  · exact List.map_id _
  · refine List.flatMap_congr fun entry member => ?_
    rw [nodesOf, NameMap.get_of_mem member]
    exact (List.map_map).trans (List.map_id _)

theorem declaredEdges_ends (graph : Graph Number) :
    (declaredEdges graph).map Prod.snd = (allEdges graph).map joinedNodes := by
  unfold declaredEdges allEdges NameMap.keys
  rw [List.map_append, List.map_append, List.map_map, List.map_flatMap, List.map_flatMap,
    List.flatMap_map]
  congr 1
  refine List.flatMap_congr fun entry member => ?_
  rw [edgesOf, NameMap.get_of_mem member]
  exact List.map_map

theorem nameOfKey_of_mem {entry : String × Subgraph Number}
    (member : entry ∈ graph.subgraphs.entries) :
    nameOfKey graph entry.1 = subgraphName entry.1 entry.2 := by
  rw [nameOfKey, NameMap.get_of_mem member]
  rfl

theorem subgraphNames_eq (graph : Graph Number) :
    graph.subgraphs.keys.filterMap (nameOfKey graph) = subgraphNames graph := by
  unfold subgraphNames NameMap.keys
  rw [List.filterMap_map]
  exact List.filterMap_congr fun entry member => nameOfKey_of_mem member

/-- DOT reads the kind of a subgraph off its name. -/
def ReadsKind (graph : Graph Number) (named : String × Option String) : Prop :=
  ∀ subgraph ∈ graph.subgraphs.get named.1,
    ((∃ name ∈ named.2, "cluster".toList <+: readText name) ↔ subgraph.kind = .cluster)

namespace Describes

variable {document : Document} (describes : Describes graph document)

include describes

theorem distinctNodes_iff :
    ((document.entries.filterMap nodeOf).map fun node => readText node.2).Nodup ↔
      ((allNodes graph).map readText).Nodup := by
  rw [← declaredNodes_names, List.map_map]
  exact (describes.nodes.map _).nodup_iff

theorem distinctNames_iff :
    ((document.entries.filterMap nameOf).filterMap fun entry =>
      entry.2.map QuotedText.read).Nodup ↔ ((subgraphNames graph).map readText).Nodup := by
  have read : (document.entries.filterMap nameOf).filterMap
        (fun entry => entry.2.map QuotedText.read) =
      ((document.entries.filterMap nameOf).map fun entry =>
        (entry.1, entry.2.map QuotedText.value)).filterMap fun entry => entry.2.map readText := by
    rw [List.filterMap_map]
    exact List.filterMap_congr fun entry _ =>
      (Option.map_map readText QuotedText.value entry.2).symm
  rw [read, (describes.names.filterMap _).nodup_iff, List.filterMap_map, ← subgraphNames_eq,
    List.map_filterMap]
  rfl

theorem clusters_iff :
    (∀ entry ∈ document.entries.filterMap nameOf, ∀ subgraph ∈ graph.subgraphs.get entry.1,
      ((∃ name ∈ entry.2, "cluster".toList <+: name.read) ↔ subgraph.kind = .cluster)) ↔
    ∀ entry ∈ graph.subgraphs.entries, entry.2.kind = .plain →
      ∀ id ∈ entry.2.id, ¬"cluster".toList <+: id.toList := by
  have read : (∀ entry ∈ document.entries.filterMap nameOf,
        ∀ subgraph ∈ graph.subgraphs.get entry.1,
          ((∃ name ∈ entry.2, "cluster".toList <+: name.read) ↔ subgraph.kind = .cluster)) ↔
      ∀ named ∈ (document.entries.filterMap nameOf).map fun entry =>
        (entry.1, entry.2.map QuotedText.value), ReadsKind graph named := by
    rw [List.forall_mem_map]
    refine forall₂_congr fun entry _ => ?_
    obtain ⟨key, name⟩ := entry
    cases name <;> simp [ReadsKind, QuotedText.read, readText]
  rw [read]
  simp only [describes.names.mem_iff]
  unfold NameMap.keys
  rw [List.forall_mem_map, List.forall_mem_map]
  refine forall₂_congr fun entry member => ?_
  unfold ReadsKind
  rw [NameMap.get_of_mem member, nameOfKey_of_mem member, ← readAsCluster_iff entry.1 entry.2]
  simp only [Option.mem_some_iff, forall_eq']

theorem joined {edge : Option String × String × String}
    (valid : ∀ edge ∈ allEdges graph,
      edge.source.node ∈ allNodes graph ∧ edge.target.node ∈ allNodes graph)
    (member : edge ∈ document.entries.filterMap edgeOf) :
    edge.2.1 ∈ (document.entries.filterMap nodeOf).map Prod.snd ∧
      edge.2.2 ∈ (document.entries.filterMap nodeOf).map Prod.snd := by
  have inEdges := List.mem_map_of_mem (f := Prod.snd) (describes.edges.mem_iff.mp member)
  rw [declaredEdges_ends] at inEdges
  obtain ⟨joinedEdge, isEdge, same⟩ := List.mem_map.mp inEdges
  rw [(describes.nodes.map Prod.snd).mem_iff, (describes.nodes.map Prod.snd).mem_iff,
    declaredNodes_names, ← same]
  exact valid joinedEdge isEdge

end Describes

end Walks

/-! ## The round trip -/

section RoundTrip

variable {Number : Type}

/-- A graph is read from a text that is written for it. -/
def ReadsAs (format : NumberFormat Number) (graph : Graph Number) (text : String) : Prop :=
  ∃ document, writeDocument format graph = .ok document ∧ document.text = text ∧
    Faithful graph document

theorem faithful_iff {format : NumberFormat Number} {graph : Graph Number} {document : Document}
    (written : writeDocument format graph = .ok document) :
    Faithful graph document ↔ graph.Safe := by
  have describes := describes_document written
  obtain ⟨roots, areRoots, -⟩ := exists_of_bind_eq_ok written
  constructor
  · intro faithful
    exact ⟨describes.safe.mp faithful.literals,
      describes.distinctNodes_iff.mp faithful.distinctNodes,
      describes.distinctNames_iff.mp faithful.distinctNames,
      describes.clusters_iff.mp faithful.clusters⟩
  · intro safe
    exact ⟨describes.strict, describes.kind, describes.id, describes.safe.mpr safe.toSafeTexts,
      describes.nodes, describes.distinctNodes_iff.mpr safe.distinctNodes, describes.places,
      describes.distinctNames_iff.mpr safe.distinctNames,
      describes.clusters_iff.mpr safe.plainNames, describes.edges,
      fun _ => describes.joined (validGraph areRoots).joined⟩

/-- Attributes without values. -/
def plainGraph : GraphAttributes Nat :=
  ⟨none, none, none, none, none, none, none, none, none, none, none, none, none, none, .empty⟩

def plainNode : NodeAttributes Nat :=
  ⟨none, none, none, none, none, none, none, none, none, none, .empty⟩

def plainEdge : EdgeAttributes Nat :=
  ⟨none, none, none, none, none, none, none, none, none, none, none, none, .empty⟩

def plainSubgraph : SubgraphAttributes Nat :=
  ⟨none, none, none, none, none, .empty⟩

/-- Whole numbers. -/
def wholeNumbers : NumberFormat Nat where
  text := Nat.repr
  isFinite _ := true
  isNegative _ := false
  plain number symbol member := by
    rw [Nat.toList_repr] at member
    have isDigit := Nat.isDigit_of_mem_toDigits (Nat.succ_pos 9) le_rfl member
    simp [Char.isAlphanum, isDigit]

/-- A node with a quoted name, a cluster and an edge between them. -/
def quotedGraph : Graph Nat where
  strict := false
  kind := .directed
  id := none
  attributes := plainGraph
  nodeDefaults := plainNode
  edgeDefaults := plainEdge
  nodes := ⟨[("say \"a\"", plainNode)], by decide⟩
  edges := [⟨⟨"say \"a\"", none⟩, ⟨"b", none⟩, plainEdge⟩]
  subgraphs := ⟨[("inner", ⟨.cluster, none, plainSubgraph, ⟨[("b", plainNode)], by decide⟩, [], []⟩)],
    by decide⟩

def quotedText : String :=
  "digraph \x7b\n  \"say \\\"a\\\"\";\n  subgraph \"cluster_inner\" \x7b\n    \"b\";\n  \x7d\n" ++
    "  \"say \\\"a\\\"\" -> \"b\";\n\x7d\n"

theorem plainNode_safe : plainNode.Safe := by
  constructor <;> simp [plainNode, SafeExtras, NameMap.empty]

theorem plainEdge_safe : plainEdge.Safe := by
  constructor <;> simp [plainEdge, SafeExtras, NameMap.empty]

theorem plainGraph_safe : plainGraph.Safe := by
  constructor <;> simp [plainGraph, SafeExtras, NameMap.empty]

theorem plainSubgraph_safe : plainSubgraph.Safe := by
  constructor <;> simp [plainSubgraph, SafeExtras, NameMap.empty]

theorem quotedGraph_safe : quotedGraph.Safe where
  id := by simp [quotedGraph]
  attributes := plainGraph_safe
  nodeDefaults := plainNode_safe
  edgeDefaults := plainEdge_safe
  nodes := List.forall_mem_singleton.mpr ⟨by decide, plainNode_safe⟩
  edges := List.forall_mem_singleton.mpr
    ⟨⟨by decide, by simp⟩, ⟨by decide, by simp⟩, plainEdge_safe⟩
  subgraphs := List.forall_mem_singleton.mpr
    ⟨by simp +decide, plainSubgraph_safe,
      List.forall_mem_singleton.mpr ⟨by decide, plainNode_safe⟩, by simp⟩
  distinctNodes := by decide
  distinctNames := by decide
  plainNames := by simp [quotedGraph]

/-- A node whose name has a quote after a backslash. -/
def escapedGraph : Graph Nat where
  strict := false
  kind := .directed
  id := none
  attributes := plainGraph
  nodeDefaults := plainNode
  edgeDefaults := plainEdge
  nodes := ⟨[("a\\\"b", plainNode)], by decide⟩
  edges := []
  subgraphs := .empty

end RoundTrip

end RexLang.Graphviz
