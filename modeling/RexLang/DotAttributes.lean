import RexLang.GraphvizGraphs

/-!
# Attributes in DOT

The attributes of graphs, subgraphs, nodes and edges: what their typed fields insert
after the extra ones, in the order of the fields.
-/

namespace RexLang.Graphviz

inductive AttributeValue where
  | text (value : String)
  | html (value : String)

abbrev AttributeMap := SymbolMap AttributeValue

/-- What a field inserts, each after its checks. -/
abbrev Entries := List (Except GraphvizError (String × AttributeValue))

/-! ## Insertions -/

/-- `insert_value`. -/
def insertValue (attributes : AttributeMap) (name : String) (value : AttributeValue) :
    Except GraphvizError AttributeMap :=
  if (attributes.lookup name).isSome then
    .error (invalid ("attribute \x60" ++ name ++ "\x60 is set by both a typed field and \x60extra\x60"))
  else .ok (attributes.insert name value)

/-- `extras`. -/
def extras (source : NameMap String) : AttributeMap :=
  source.entries.map fun entry => (entry.1, .text entry.2)

def insertEntry (attributes : AttributeMap)
    (entry : Except GraphvizError (String × AttributeValue)) :
    Except GraphvizError AttributeMap := do
  let (name, value) ← entry
  insertValue attributes name value

/-- The insertions one after the other. -/
def insertAll (attributes : AttributeMap) (entries : Entries) :
    Except GraphvizError AttributeMap :=
  entries.foldlM insertEntry attributes

/-- `insert_text`. -/
def insertText (name value : String) : Entries :=
  [.ok (name, .text value)]

/-- `insert_label`. -/
def insertLabel (name : String) (label : Label) : Entries :=
  [.ok (name, match label with
    | .text value => .text value
    | .html value => .html value)]

/-- What a field inserts if it is there. -/
def present {Value : Type} (value : Option Value) (entries : Value → Entries) : Entries :=
  match value with
  | none => []
  | some value => entries value

/-! ## Names of values -/

def rankDirectionValue : RankDirection → String
  | .topToBottom => "TB"
  | .leftToRight => "LR"
  | .bottomToTop => "BT"
  | .rightToLeft => "RL"

def orderingValue : EdgeOrdering → String
  | .incoming => "in"
  | .outgoing => "out"

def splineModeValue : SplineMode → String
  | .none => "none"
  | .line => "line"
  | .polyline => "polyline"
  | .curved => "curved"
  | .ortho => "ortho"
  | .spline => "spline"
  | .compound => "compound"

def rankValue : RankConstraint → String
  | .same => "same"
  | .minimum => "min"
  | .source => "source"
  | .maximum => "max"
  | .sink => "sink"

def sizingValue : NodeSizing → String
  | .atLeast => "false"
  | .fixed => "true"
  | .fixedShape => "shape"

def directionValue : EdgeDirection → String
  | .forward => "forward"
  | .backward => "back"
  | .both => "both"
  | .none => "none"

/-- `node_style_value`. -/
def nodeStyleValue : NodeStyle → String
  | .filled => "filled"
  | .invisible => "invis"
  | .diagonals => "diagonals"
  | .rounded => "rounded"
  | .dashed => "dashed"
  | .dotted => "dotted"
  | .solid => "solid"
  | .bold => "bold"

/-- `edge_style_value`. -/
def edgeStyleValue : EdgeStyle → String
  | .solid => "solid"
  | .dashed => "dashed"
  | .dotted => "dotted"
  | .bold => "bold"
  | .invisible => "invis"

/-- `arrow_shape_value`. -/
def arrowShapeValue : ArrowShape → String
  | .normal => "normal"
  | .inverted => "inv"
  | .dot => "dot"
  | .openDot => "odot"
  | .invertedDot => "invdot"
  | .openInvertedDot => "invodot"
  | .tee => "tee"
  | .empty => "empty"
  | .invertedEmpty => "invempty"
  | .«open» => "open"
  | .halfOpen => "halfopen"
  | .diamond => "diamond"
  | .openDiamond => "odiamond"
  | .box => "box"
  | .openBox => "obox"
  | .crow => "crow"
  | .none => "none"

/-- `node_shape_value`. -/
def nodeShapeValue : NodeShape → String
  | .box => "box"
  | .polygon => "polygon"
  | .ellipse => "ellipse"
  | .circle => "circle"
  | .point => "point"
  | .egg => "egg"
  | .triangle => "triangle"
  | .plainText => "plaintext"
  | .plain => "plain"
  | .diamond => "diamond"
  | .trapezium => "trapezium"
  | .parallelogram => "parallelogram"
  | .house => "house"
  | .pentagon => "pentagon"
  | .hexagon => "hexagon"
  | .septagon => "septagon"
  | .octagon => "octagon"
  | .doubleCircle => "doublecircle"
  | .doubleOctagon => "doubleoctagon"
  | .tripleOctagon => "tripleoctagon"
  | .invertedTriangle => "invtriangle"
  | .invertedTrapezium => "invtrapezium"
  | .invertedHouse => "invhouse"
  | .square => "square"
  | .star => "star"
  | .underline => "underline"
  | .cylinder => "cylinder"
  | .note => "note"
  | .tab => "tab"
  | .folder => "folder"
  | .threeDimensionalBox => "box3d"
  | .component => "component"
  | .promoter => "promoter"
  | .codingSequence => "cds"
  | .terminator => "terminator"
  | .untranslatedRegion => "utr"
  | .primerSite => "primersite"
  | .restrictionSite => "restrictionsite"
  | .fivePrimeOverhang => "fivepoverhang"
  | .threePrimeOverhang => "threepoverhang"
  | .noOverhang => "noverhang"
  | .assembly => "assembly"
  | .signature => "signature"
  | .insulator => "insulator"
  | .riboSite => "ribosite"
  | .rnaStability => "rnastab"
  | .proteaseSite => "proteasesite"
  | .proteinStability => "proteinstab"
  | .reversePromoter => "rpromoter"
  | .rightArrow => "rarrow"
  | .leftArrow => "larrow"
  | .leftPromoter => "lpromoter"
  | .record => "record"
  | .roundedRecord => "Mrecord"

/-- `bool::to_string`. -/
def flagText (flag : Bool) : String :=
  if flag then "true" else "false"

section Numbers

variable {Number : Type} (format : NumberFormat Number)

/-- `finite_number`. -/
def finiteNumber (value : Number) (context : String) : Except GraphvizError String :=
  if format.isFinite value then .ok (format.text value)
  else .error (invalid (context ++ " must be finite"))

/-- `insert_number`. -/
def insertNumber (name : String) (value : Number) (context : String) : Entries :=
  [do
    let text ← finiteNumber format value context
    return (name, .text text)]

/-- `add_font`. -/
def addFont (font : Font Number) (familyName sizeName colorName : String) : Entries :=
  present font.family (insertText familyName) ++
    present font.sizePoints (fun size => insertNumber format sizeName size "font size") ++
    present font.color (insertText colorName)

/-- `add_link`. -/
def addLink (link : Link) (hrefName targetName tooltipName : String) : Entries :=
  insertText hrefName link.url ++ present link.target (insertText targetName) ++
    present link.tooltip (insertText tooltipName)

/-- The text of two numbers, of which the second may be absent. -/
def numberPair (first : Number) (second : Option Number) (firstContext secondContext : String) :
    Except GraphvizError String := do
  let first ← finiteNumber format first firstContext
  match second with
  | none => return first
  | some second =>
      let second ← finiteNumber format second secondContext
      return first ++ "," ++ second

/-- The size of a graph. -/
def insertSize (size : GraphSize Number) : Entries :=
  [do
    let value ← numberPair format size.width size.height "graph size width" "graph size height"
    return ("size", .text (if size.minimum then value ++ "!" else value))]

/-- The ratio of a graph. -/
def insertRatio : GraphRatio Number → Entries
  | .value value => insertNumber format "ratio" value "graph ratio"
  | .fill => insertText "ratio" "fill"
  | .compress => insertText "ratio" "compress"
  | .expand => insertText "ratio" "expand"
  | .auto => insertText "ratio" "auto"

/-- The margin of a graph. -/
def insertMargin (margin : GraphMargin Number) : Entries :=
  [do
    let value ← numberPair format margin.horizontal margin.vertical "graph horizontal margin"
      "graph vertical margin"
    return ("margin", .text value)]

/-- The styles of nodes and edges, of which there must be some. -/
def insertStyles {Style : Type} (styles : List Style) (styleValue : Style → String)
    (context : String) : Entries :=
  if styles.isEmpty then
    [.error (invalid (context ++ " styles must not be an empty present list"))]
  else insertText "style" (",".intercalate (styles.map styleValue))

/-! ## The attributes -/

/-- What `graph_attributes` inserts. -/
def graphEntries (source : GraphAttributes Number) : Entries :=
  present source.label (insertLabel "label") ++
    present source.font (fun font => addFont format font "fontname" "fontsize" "fontcolor") ++
    present source.size (insertSize format) ++
    present source.ratio (insertRatio format) ++
    present source.margin (insertMargin format) ++
    present source.rankDirection (fun direction =>
      insertText "rankdir" (rankDirectionValue direction)) ++
    present source.ordering (fun ordering => insertText "ordering" (orderingValue ordering)) ++
    present source.rotate (fun rotate => insertText "rotate" (toString rotate)) ++
    present source.center (fun center => insertText "center" (flagText center)) ++
    present source.color (insertText "color") ++
    present source.backgroundColor (insertText "bgcolor") ++
    present source.overlap (insertText "overlap") ++
    present source.stylesheet (insertText "stylesheet") ++
    present source.splines (fun splines => insertText "splines" (splineModeValue splines))

/-- `graph_attributes`. -/
def graphAttributes (source : GraphAttributes Number) : Except GraphvizError AttributeMap :=
  insertAll (extras source.extra) (graphEntries format source)

/-- The padding of a subgraph. -/
def insertPadding (padding : Number) : Entries :=
  if format.isNegative padding then [.error (invalid "subgraph padding cannot be negative")]
  else insertNumber format "margin" padding "subgraph padding"

/-- What `subgraph_attributes` inserts. -/
def subgraphEntries (source : SubgraphAttributes Number) : Entries :=
  present source.label (insertLabel "label") ++
    present source.rank (fun rank => insertText "rank" (rankValue rank)) ++
    present source.padding (insertPadding format) ++
    present source.color (insertText "color") ++
    present source.backgroundColor (insertText "bgcolor")

/-- `subgraph_attributes`. -/
def subgraphAttributes (source : SubgraphAttributes Number) :
    Except GraphvizError AttributeMap :=
  insertAll (extras source.extra) (subgraphEntries format source)

/-- The size of a node. -/
def insertNodeSize (size : NodeSize Number) : Entries :=
  present size.width (fun width => insertNumber format "width" width "node width") ++
    present size.height (fun height => insertNumber format "height" height "node height") ++
    present size.sizing (fun sizing => insertText "fixedsize" (sizingValue sizing))

/-- The polygon of a node. -/
def insertPolygon (polygon : PolygonOptions Number) : Entries :=
  present polygon.regular (fun regular => insertText "regular" (flagText regular)) ++
    present polygon.peripheries (fun peripheries =>
      insertText "peripheries" (toString peripheries)) ++
    present polygon.sides (fun sides => insertText "sides" (toString sides)) ++
    present polygon.orientationDegrees (fun orientation =>
      insertNumber format "orientation" orientation "node polygon orientation") ++
    present polygon.distortion (fun distortion =>
      insertNumber format "distortion" distortion "node polygon distortion") ++
    present polygon.skew (fun skew => insertNumber format "skew" skew "node polygon skew")

/-- What `node_attributes` inserts. -/
def nodeEntries (source : NodeAttributes Number) : Entries :=
  present source.label (insertLabel "label") ++
    present source.font (fun font => addFont format font "fontname" "fontsize" "fontcolor") ++
    present source.size (insertNodeSize format) ++
    present source.shape (fun shape => insertText "shape" (nodeShapeValue shape)) ++
    present source.polygon (insertPolygon format) ++
    present source.outlineColor (insertText "color") ++
    present source.fillColor (insertText "fillcolor") ++
    present source.styles (fun styles => insertStyles styles nodeStyleValue "node") ++
    present source.externalLabel (insertLabel "xlabel") ++
    present source.link (fun link => addLink link "href" "target" "tooltip")

/-- `node_attributes`. -/
def nodeAttributes (source : NodeAttributes Number) : Except GraphvizError AttributeMap :=
  insertAll (extras source.extra) (nodeEntries format source)

/-- The names of the attributes of one end of an edge. -/
structure EndNames where
  arrow : String
  clip : String
  href : String
  target : String
  tooltip : String
  group : String

def endNames (head : Bool) : EndNames :=
  if head then
    ⟨"arrowhead", "headclip", "headhref", "headtarget", "headtooltip", "samehead"⟩
  else ⟨"arrowtail", "tailclip", "tailhref", "tailtarget", "tailtooltip", "sametail"⟩

/-- `add_edge_end`. -/
def addEdgeEnd (edgeEnd : EdgeEnd) (head : Bool) : Entries :=
  let names := endNames head
  present edgeEnd.arrow (fun arrow => insertText names.arrow (arrowShapeValue arrow)) ++
    present edgeEnd.clipToNode (fun clip => insertText names.clip (flagText clip)) ++
    present edgeEnd.link (fun link => addLink link names.href names.target names.tooltip) ++
    present edgeEnd.portGroup (insertText names.group)

/-- The labels at the ends of an edge. -/
def insertEndpointLabels (labels : EdgeEndpointLabels Number) : Entries :=
  present labels.head (insertLabel "headlabel") ++
    present labels.tail (insertLabel "taillabel") ++
    present labels.font (fun font =>
      addFont format font "labelfontname" "labelfontsize" "labelfontcolor") ++
    present labels.distance (fun distance =>
      insertNumber format "labeldistance" distance "edge endpoint label distance") ++
    present labels.angleDegrees (fun angle =>
      insertNumber format "labelangle" angle "edge endpoint label angle")

/-- The colors of an edge, of which there must be some. -/
def insertColors (colors : List String) : Entries :=
  if colors.isEmpty then
    [.error (invalid "edge colors must not be an empty present list")]
  else insertText "color" (":".intercalate colors)

/-- What `edge_attributes` inserts. -/
def edgeEntries (source : EdgeAttributes Number) : Entries :=
  present source.label (insertLabel "label") ++
    present source.font (fun font => addFont format font "fontname" "fontsize" "fontcolor") ++
    present source.weight (fun weight => insertNumber format "weight" weight "edge weight") ++
    present source.styles (fun styles => insertStyles styles edgeStyleValue "edge") ++
    present source.colors insertColors ++
    present source.direction (fun direction => insertText "dir" (directionValue direction)) ++
    present source.arrowScale (fun scale =>
      insertNumber format "arrowsize" scale "edge arrow scale") ++
    present source.head (fun edgeEnd => addEdgeEnd edgeEnd true) ++
    present source.tail (fun edgeEnd => addEdgeEnd edgeEnd false) ++
    present source.endpointLabels (insertEndpointLabels format) ++
    present source.link (fun link => addLink link "href" "target" "tooltip") ++
    present source.decorateLabel (fun decorate => insertText "decorate" (flagText decorate))

/-- `edge_attributes`. -/
def edgeAttributes (source : EdgeAttributes Number) : Except GraphvizError AttributeMap :=
  insertAll (extras source.extra) (edgeEntries format source)

end Numbers

end RexLang.Graphviz
