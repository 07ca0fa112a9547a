import Mathlib.Data.List.TakeWhile
import RexLang.DotAttributes
import RexLang.DotLiterals

/-!
# The serializer of DOT

The checks of a graph, the statements that are written for it, and their text.  The
checks of the written strings are made while the statements are collected.
-/

namespace RexLang.Graphviz

/-! ## Strings -/

/-- `char::is_control`. -/
def isControl (symbol : Char) : Bool :=
  symbol.toNat < 0x20 || (0x7f ≤ symbol.toNat && symbol.toNat ≤ 0x9f)

/-- `{:04X}`. -/
def controlCode (symbol : Char) : String :=
  let digits := (Nat.toDigits 16 symbol.toNat).map Char.toUpper
  String.ofList (List.replicate (4 - digits.length) '0' ++ digits)

/-- The check of `write_quoted` for one character. -/
def checkChar (symbol : Char) : Except GraphvizError Unit :=
  if symbol = '"' || symbol = '\n' || symbol = '\r' then .ok ()
  else if symbol = '\x00' then .error (invalid "DOT strings cannot contain NUL bytes")
  else if isControl symbol && symbol ≠ '\t' then
    .error (invalid ("DOT strings cannot contain control character U+" ++ controlCode symbol))
  else .ok ()

/-- The number of backslashes at the end. -/
def trailingBackslashes (value : String) : Nat :=
  (value.toList.reverse.takeWhile (· = '\\')).length

theorem endsEven_iff (odd : Bool) (text : List Char) :
    EndsEven odd text ↔ ((text.reverse.takeWhile (· = '\\')).length +
      if text.all (· = '\\') && odd then 1 else 0) % 2 = 0 := by
  induction text generalizing odd with
  | nil => cases odd <;> simp [EndsEven]
  | cons symbol text hypothesis =>
      rw [EndsEven, hypothesis, List.reverse_cons, List.takeWhile_append]
      by_cases allRest : ∀ other ∈ text, other = '\\'
      · have isAll : text.all (· = '\\') = true := by simpa using allRest
        have same : (text.reverse.takeWhile (· = '\\')) = text.reverse := by
          rw [List.takeWhile_eq_self_iff]
          simpa using allRest
        rw [same, if_pos rfl]
        by_cases isBackslash : symbol = '\\'
        · subst isBackslash
          cases odd
          · simp [isAll]
          · simp [isAll]
            omega
        · simp [isBackslash]
      · have isAll : text.all (· = '\\') = false := by simpa using allRest
        have shorter : (text.reverse.takeWhile (· = '\\')).length ≠ text.reverse.length := by
          intro same
          apply allRest
          have whole := (List.takeWhile_prefix (· = '\\')).eq_of_length same
          rw [List.takeWhile_eq_self_iff] at whole
          simpa using whole
        rw [if_neg shorter]
        simp [isAll]

theorem endsEven_of_trailing {value : String} (even : trailingBackslashes value % 2 = 0) :
    EndsEven false value.toList := by
  rw [endsEven_iff]
  simpa [trailingBackslashes] using even

/-- `write_quoted`. -/
def writeQuoted (value : String) : Except GraphvizError QuotedText :=
  if even : trailingBackslashes value % 2 = 0 then do
    value.toList.forM checkChar
    return ⟨value, endsEven_of_trailing even⟩
  else .error (invalid "quoted DOT strings cannot end in an odd number of backslashes")

/-- The loop of `validate_html_label`, with the quote that is open and the number of
angle brackets that are. -/
def validateBrackets : Option Char → Nat → List Char → Except GraphvizError Unit
  | quote, depth, [] =>
      if quote.isSome || depth ≠ 0 then
        .error (invalid "HTML labels require matched quotes and angle brackets")
      else .ok ()
  | some delimiter, depth, symbol :: text =>
      if symbol = delimiter then validateBrackets none depth text
      else validateBrackets (some delimiter) depth text
  | none, depth, symbol :: text =>
      if (symbol = '\'' || symbol = '"') && 0 < depth then
        validateBrackets (some symbol) depth text
      else if symbol = '<' then validateBrackets none (depth + 1) text
      else if symbol = '>' then
        match depth with
        | 0 => .error (invalid "HTML labels require matched angle brackets")
        | depth + 1 => validateBrackets none depth text
      else validateBrackets none depth text

/-- `validate_html_label`. -/
def validateHtmlLabel (value : String) : Except GraphvizError Unit :=
  if '\x00' ∈ value.toList then .error (invalid "HTML labels cannot contain NUL bytes")
  else validateBrackets none 0 value.toList

/-! ## Statements -/

/-- Written attributes: the name and the value of each. -/
abbrev WrittenAttributes := List (QuotedText × DotLiteral)

structure WrittenEndpoint where
  node : QuotedText
  port : Option (Option QuotedText × Option CompassPoint)

/-- What default attributes are for. -/
inductive DefaultTarget where
  | graph
  | node
  | edge

/-- A statement; that of a subgraph with its key in the map. -/
inductive Statement where
  | attributes (target : DefaultTarget) (attributes : WrittenAttributes)
  | node (id : QuotedText) (attributes : WrittenAttributes)
  | edge (source target : WrittenEndpoint) (attributes : WrittenAttributes)
  | subgraph (key : String) (name : Option QuotedText) (body : List Statement)

structure Document where
  strict : Bool
  kind : GraphKind
  id : Option QuotedText
  body : List Statement

/-- `write_attribute_value`. -/
def writeAttributeValue : AttributeValue → Except GraphvizError DotLiteral
  | .text value => do
      let text ← writeQuoted value
      return .quoted text
  | .html value => do
      validateHtmlLabel value
      return .html value

def writeAttribute (entry : String × AttributeValue) :
    Except GraphvizError (QuotedText × DotLiteral) := do
  let name ← writeQuoted entry.1
  let value ← writeAttributeValue entry.2
  return (name, value)

/-- `write_attributes`. -/
def writeAttributes (attributes : AttributeMap) : Except GraphvizError WrittenAttributes :=
  attributes.mapM writeAttribute

/-- `write_attribute_statement`. -/
def writeAttributeStatement (target : DefaultTarget) (attributes : AttributeMap) :
    Except GraphvizError (List Statement) :=
  if attributes.isEmpty then .ok []
  else do
    let written ← writeAttributes attributes
    return [.attributes target written]

/-- A name that may be absent. -/
def writeOptional (name : Option String) : Except GraphvizError (Option QuotedText) :=
  match name with
  | none => .ok none
  | some name => do
      let text ← writeQuoted name
      return some text

/-- `write_endpoint`. -/
def writeEndpoint (endpoint : Endpoint) : Except GraphvizError WrittenEndpoint := do
  let node ← writeQuoted endpoint.node
  match endpoint.port with
  | none => return ⟨node, none⟩
  | some port =>
      let name ← writeOptional port.name
      return ⟨node, some (name, port.compass)⟩

section Writing

variable {Number : Type} (format : NumberFormat Number)

def writeNode (node : String × NodeAttributes Number) : Except GraphvizError Statement := do
  let id ← writeQuoted node.1
  let attributes ← nodeAttributes format node.2
  let written ← writeAttributes attributes
  return .node id written

/-- `write_nodes`. -/
def writeNodes (nodes : NameMap (NodeAttributes Number)) :
    Except GraphvizError (List Statement) :=
  nodes.entries.mapM (writeNode format)

def writeEdge (edge : Edge Number) : Except GraphvizError Statement := do
  let source ← writeEndpoint edge.source
  let target ← writeEndpoint edge.target
  let attributes ← edgeAttributes format edge.attributes
  let written ← writeAttributes attributes
  return .edge source target written

/-- `write_edges`. -/
def writeEdges (edges : List (Edge Number)) : Except GraphvizError (List Statement) :=
  edges.mapM (writeEdge format)

/-- The name under which `write_subgraph` writes a subgraph. -/
def subgraphName (key : String) (subgraph : Subgraph Number) : Option String :=
  match subgraph.kind with
  | .plain => subgraph.id
  | .cluster =>
      let base := subgraph.id.getD key
      some (if "cluster".toList.isPrefixOf base.toList then base else "cluster_" ++ base)

/-- `subgraphs.get`. -/
def findSubgraph (graph : Graph Number) (key : String) : Except GraphvizError (Subgraph Number) :=
  match graph.subgraphs.get key with
  | none => .error (invalid ("subgraph \x60" ++ key ++ "\x60 is not defined"))
  | some subgraph => .ok subgraph

def nestingError : GraphvizError :=
  invalid "subgraph nesting exceeds the limit of 256"

/-- `write_subgraph`, with the number of levels that are left of the limit. -/
def writeSubgraph (graph : Graph Number) : Nat → String → Except GraphvizError Statement
  | 0, _ => .error nestingError
  | depth + 1, key => do
      let subgraph ← findSubgraph graph key
      let name ← writeOptional (subgraphName key subgraph)
      let attributes ← subgraphAttributes format subgraph.attributes
      let defaults ← writeAttributeStatement .graph attributes
      let nodes ← writeNodes format subgraph.nodes
      let children ← subgraph.subgraphs.mapM (writeSubgraph graph depth)
      let edges ← writeEdges format subgraph.edges
      return .subgraph key name (defaults ++ nodes ++ children ++ edges)

/-- `write_default_attributes`. -/
def writeDefaultAttributes (graph : Graph Number) : Except GraphvizError (List Statement) := do
  let graphDefaults ← graphAttributes format graph.attributes
  let ofGraph ← writeAttributeStatement .graph graphDefaults
  let nodeDefaults ← nodeAttributes format graph.nodeDefaults
  let ofNodes ← writeAttributeStatement .node nodeDefaults
  let edgeDefaults ← edgeAttributes format graph.edgeDefaults
  let ofEdges ← writeAttributeStatement .edge edgeDefaults
  return ofGraph ++ ofNodes ++ ofEdges

end Writing

/-! ## Validation -/

section Validation

variable {Number : Type}

/-- `collect_nodes`, for one identifier. -/
def collectNode (scope : String) (nodes : List String) (id : String) :
    Except GraphvizError (List String) :=
  if id ∈ nodes then
    .error (invalid ("node \x60" ++ id ++ "\x60 is defined more than once; duplicate found in " ++
      scope))
  else .ok (nodes ++ [id])

/-- `collect_nodes`. -/
def collectNodes (scope : String) (nodes : List String)
    (source : NameMap (NodeAttributes Number)) : Except GraphvizError (List String) :=
  source.keys.foldlM (collectNode scope) nodes

def collectSubgraphNodes (nodes : List String) (entry : String × Subgraph Number) :
    Except GraphvizError (List String) :=
  collectNodes ("subgraph \x60" ++ entry.1 ++ "\x60") nodes entry.2.nodes

/-- The nodes of a graph and of its subgraphs. -/
def collectAllNodes (graph : Graph Number) : Except GraphvizError (List String) := do
  let nodes ← collectNodes "graph" [] graph.nodes
  graph.subgraphs.entries.foldlM collectSubgraphNodes nodes

/-- A child of a subgraph; the state has the children before it and the known parents. -/
def collectChild (graph : Graph Number) (parent : String)
    (state : List String × SymbolMap String) (child : String) :
    Except GraphvizError (List String × SymbolMap String) :=
  if child ∈ state.1 then
    .error (invalid ("subgraph \x60" ++ parent ++ "\x60 contains child \x60" ++ child ++
      "\x60 more than once"))
  else if child ∉ graph.subgraphs.keys then
    .error (invalid ("subgraph \x60" ++ parent ++ "\x60 refers to missing child \x60" ++ child ++
      "\x60"))
  else
    match state.2.lookup child with
    | some previous =>
        .error (invalid ("subgraph \x60" ++ child ++ "\x60 has multiple parents: \x60" ++ previous ++
          "\x60 and \x60" ++ parent ++ "\x60"))
    | none => .ok (state.1 ++ [child], state.2.insert child parent)

/-- The children of a subgraph. -/
def collectChildren (graph : Graph Number) (parents : SymbolMap String)
    (entry : String × Subgraph Number) : Except GraphvizError (SymbolMap String) := do
  let (_, parents) ← entry.2.subgraphs.foldlM (collectChild graph entry.1) ([], parents)
  return parents

/-- The parents of the subgraphs. -/
def collectParents (graph : Graph Number) : Except GraphvizError (SymbolMap String) :=
  graph.subgraphs.entries.foldlM (collectChildren graph) []

/-- The subgraphs on the way to the current one, and those that are done. -/
structure TreeState where
  active : List String
  visited : List String

/-- `validate_subgraph_tree`, with the number of levels that are left of the limit. -/
def validateSubgraphTree (graph : Graph Number) :
    Nat → TreeState → String → Except GraphvizError TreeState
  | 0, _, _ => .error nestingError
  | depth + 1, state, key =>
      if key ∈ state.visited then .ok state
      else if key ∈ state.active then
        .error (invalid ("subgraph cycle detected at \x60" ++ key ++ "\x60"))
      else do
        let subgraph ← findSubgraph graph key
        let state ← subgraph.subgraphs.foldlM (validateSubgraphTree graph depth)
          ⟨key :: state.active, state.visited⟩
        return ⟨state.active.erase key, key :: state.visited⟩

/-- `MAX_SUBGRAPH_DEPTH`. -/
def maxSubgraphDepth : Nat :=
  256

/-- `validate_edge`, for one endpoint. -/
def validateEndpoint (nodes : List String) (endpoint : Endpoint) : Except GraphvizError Unit :=
  if endpoint.node ∉ nodes then
    .error (invalid ("edge refers to undefined node \x60" ++ endpoint.node ++ "\x60"))
  else
    match endpoint.port with
    | none => .ok ()
    | some port =>
        if port.name.isNone && port.compass.isNone then
          .error (invalid ("edge endpoint \x60" ++ endpoint.node ++ "\x60 has an empty port"))
        else .ok ()

/-- `validate_edge`. -/
def validateEdge (nodes : List String) (edge : Edge Number) : Except GraphvizError Unit := do
  validateEndpoint nodes edge.source
  validateEndpoint nodes edge.target

/-- `validate_graph`: the subgraphs without a parent. -/
def validateGraph (graph : Graph Number) : Except GraphvizError (List String) := do
  let nodes ← collectAllNodes graph
  let parents ← collectParents graph
  let _ ← graph.subgraphs.keys.foldlM (validateSubgraphTree graph maxSubgraphDepth) ⟨[], []⟩
  graph.edges.forM (validateEdge nodes)
  graph.subgraphs.entries.forM fun entry => entry.2.edges.forM (validateEdge nodes)
  return graph.subgraphs.keys.filter fun key => (parents.lookup key).isNone

end Validation

/-! ## Texts -/

/-- A part of the written text. -/
abbrev DotPiece := Piece DotLiteral

def quotedPiece (text : QuotedText) : DotPiece :=
  .literal (.quoted text)

/-- `write_indent`. -/
def indentPiece (depth : Nat) : DotPiece :=
  .raw (String.ofList (List.replicate (2 * depth) ' '))

/-- `write_compass`. -/
def compassText : CompassPoint → String
  | .north => "n"
  | .northEast => "ne"
  | .east => "e"
  | .southEast => "se"
  | .south => "s"
  | .southWest => "sw"
  | .west => "w"
  | .northWest => "nw"
  | .center => "c"
  | .any => "_"

def attributePieces (entry : QuotedText × DotLiteral) : List DotPiece :=
  [quotedPiece entry.1, .raw "=", .literal entry.2]

/-- The text of attributes in brackets. -/
def attributesPieces (attributes : WrittenAttributes) : List DotPiece :=
  .raw " [" :: ([.raw ", "].intercalate (attributes.map attributePieces) ++ [.raw "]"])

/-- The text of attributes, of which there may be none. -/
def optionalAttributesPieces (attributes : WrittenAttributes) : List DotPiece :=
  if attributes.isEmpty then [] else attributesPieces attributes

def portPieces (name : Option QuotedText) (compass : Option CompassPoint) : List DotPiece :=
  match name with
  | none => (compass.map fun point => Piece.raw (compassText point)).toList
  | some name =>
      quotedPiece name ::
        ((compass.map fun point => [Piece.raw ":", .raw (compassText point)]).getD [])

def endpointPieces (endpoint : WrittenEndpoint) : List DotPiece :=
  quotedPiece endpoint.node ::
    ((endpoint.port.map fun port => Piece.raw ":" :: portPieces port.1 port.2).getD [])

def edgeOperator : GraphKind → String
  | .directed => " -> "
  | .undirected => " -- "

def targetText : DefaultTarget → String
  | .graph => "graph"
  | .node => "node"
  | .edge => "edge"

def namePieces (name : Option QuotedText) : List DotPiece :=
  (name.map fun name => [Piece.raw " ", quotedPiece name]).getD []

mutual

/-- The text of a statement. -/
def Statement.pieces (kind : GraphKind) (depth : Nat) : Statement → List DotPiece
  | .attributes target attributes =>
      indentPiece depth :: .raw (targetText target) :: (attributesPieces attributes ++ [.raw ";\n"])
  | .node id attributes =>
      indentPiece depth :: quotedPiece id :: (optionalAttributesPieces attributes ++ [.raw ";\n"])
  | .edge source target attributes =>
      indentPiece depth :: (endpointPieces source ++ .raw (edgeOperator kind) ::
        (endpointPieces target ++ (optionalAttributesPieces attributes ++ [.raw ";\n"])))
  | .subgraph _ name body =>
      indentPiece depth :: .raw "subgraph" :: (namePieces name ++ .raw " \x7b\n" ::
        (bodyPieces kind (depth + 1) body ++ [indentPiece depth, .raw "\x7d\n"]))

def bodyPieces (kind : GraphKind) (depth : Nat) : List Statement → List DotPiece
  | [] => []
  | statement :: body => statement.pieces kind depth ++ bodyPieces kind depth body

end

def kindText : GraphKind → String
  | .directed => "digraph"
  | .undirected => "graph"

namespace Document

def pieces (document : Document) : List DotPiece :=
  .raw (if document.strict then "strict " else "") :: .raw (kindText document.kind) ::
    (namePieces document.id ++ .raw " \x7b\n" ::
      (bodyPieces document.kind 1 document.body ++ [.raw "\x7d\n"]))

def text (document : Document) : String :=
  String.ofList (document.pieces.flatMap dotRules.pieceText)

/-- What DOT is to read. -/
def signs (document : Document) : List DotSign :=
  document.pieces.flatMap dotRules.pieceSigns

end Document

/-! ## The serializer -/

section Serializer

variable {Number : Type} (format : NumberFormat Number)

/-- The statements that `serialize` writes. -/
def writeDocument (graph : Graph Number) : Except GraphvizError Document := do
  let roots ← validateGraph graph
  let id ← writeOptional graph.id
  let defaults ← writeDefaultAttributes format graph
  let nodes ← writeNodes format graph.nodes
  let subgraphs ← roots.mapM (writeSubgraph format graph maxSubgraphDepth)
  let edges ← writeEdges format graph.edges
  return ⟨graph.strict, graph.kind, id, defaults ++ nodes ++ subgraphs ++ edges⟩

/-- `serialize_graph`. -/
def serializeGraph (graph : Graph Number) : Except GraphvizError String := do
  let document ← writeDocument format graph
  return document.text

end Serializer

end RexLang.Graphviz
