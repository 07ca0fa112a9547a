import RexLang.Ast

/-!
# Graphs of the Graphviz tool

Floating-point numbers are a type of their own with the texts that are written for
them.  Maps keyed by names have their keys in order, each once.
-/

namespace RexLang.Graphviz

/-- `f64` with the texts of `Display`. -/
structure NumberFormat (Number : Type) where
  text : Number → String
  isFinite : Number → Bool
  /-- `value < 0.0`. -/
  isNegative : Number → Bool
  /-- `Display` writes digits, a sign and a point, or `NaN` or `inf`. -/
  plain : ∀ number, ∀ symbol ∈ (text number).toList,
    symbol.isAlphanum = true ∨ symbol = '-' ∨ symbol = '.'

/-- A `BTreeMap` from names, in iteration order. -/
structure NameMap (Value : Type) where
  entries : SymbolMap Value
  sorted : (entries.map Prod.fst).Pairwise (· < ·)

namespace NameMap

variable {Value : Type}

def empty : NameMap Value :=
  ⟨[], .nil⟩

/-- `BTreeMap::keys`. -/
def keys (map : NameMap Value) : List String :=
  map.entries.map Prod.fst

/-- `BTreeMap::get`. -/
def get (map : NameMap Value) (key : String) : Option Value :=
  map.entries.lookup key

end NameMap

inductive Label where
  | text (value : String)
  | html (value : String)

inductive GraphKind where
  | directed
  | undirected

structure GraphSize (Number : Type) where
  width : Number
  height : Option Number
  minimum : Bool

inductive GraphRatio (Number : Type) where
  | value (value : Number)
  | fill
  | compress
  | expand
  | auto

structure GraphMargin (Number : Type) where
  horizontal : Number
  vertical : Option Number

inductive RankDirection where
  | topToBottom
  | leftToRight
  | bottomToTop
  | rightToLeft

inductive EdgeOrdering where
  | incoming
  | outgoing

inductive SplineMode where
  | none
  | line
  | polyline
  | curved
  | ortho
  | spline
  | compound

structure Font (Number : Type) where
  family : Option String
  sizePoints : Option Number
  color : Option String

structure GraphAttributes (Number : Type) where
  label : Option Label
  font : Option (Font Number)
  size : Option (GraphSize Number)
  ratio : Option (GraphRatio Number)
  margin : Option (GraphMargin Number)
  rankDirection : Option RankDirection
  ordering : Option EdgeOrdering
  rotate : Option Int
  center : Option Bool
  color : Option String
  backgroundColor : Option String
  overlap : Option String
  stylesheet : Option String
  splines : Option SplineMode
  extra : NameMap String

inductive CompassPoint where
  | north
  | northEast
  | east
  | southEast
  | south
  | southWest
  | west
  | northWest
  | center
  | any

structure Port where
  name : Option String
  compass : Option CompassPoint

structure Endpoint where
  node : String
  port : Option Port

structure Link where
  url : String
  target : Option String
  tooltip : Option String

inductive NodeSizing where
  | atLeast
  | fixed
  | fixedShape

structure NodeSize (Number : Type) where
  width : Option Number
  height : Option Number
  sizing : Option NodeSizing

inductive NodeShape where
  | box
  | polygon
  | ellipse
  | circle
  | point
  | egg
  | triangle
  | plainText
  | plain
  | diamond
  | trapezium
  | parallelogram
  | house
  | pentagon
  | hexagon
  | septagon
  | octagon
  | doubleCircle
  | doubleOctagon
  | tripleOctagon
  | invertedTriangle
  | invertedTrapezium
  | invertedHouse
  | square
  | star
  | underline
  | cylinder
  | note
  | tab
  | folder
  | threeDimensionalBox
  | component
  | promoter
  | codingSequence
  | terminator
  | untranslatedRegion
  | primerSite
  | restrictionSite
  | fivePrimeOverhang
  | threePrimeOverhang
  | noOverhang
  | assembly
  | signature
  | insulator
  | riboSite
  | rnaStability
  | proteaseSite
  | proteinStability
  | reversePromoter
  | rightArrow
  | leftArrow
  | leftPromoter
  | record
  | roundedRecord

structure PolygonOptions (Number : Type) where
  regular : Option Bool
  peripheries : Option Int
  sides : Option Int
  orientationDegrees : Option Number
  distortion : Option Number
  skew : Option Number

inductive NodeStyle where
  | filled
  | invisible
  | diagonals
  | rounded
  | dashed
  | dotted
  | solid
  | bold

structure NodeAttributes (Number : Type) where
  label : Option Label
  font : Option (Font Number)
  size : Option (NodeSize Number)
  shape : Option NodeShape
  polygon : Option (PolygonOptions Number)
  outlineColor : Option String
  fillColor : Option String
  styles : Option (List NodeStyle)
  externalLabel : Option Label
  link : Option Link
  extra : NameMap String

inductive EdgeStyle where
  | solid
  | dashed
  | dotted
  | bold
  | invisible

inductive EdgeDirection where
  | forward
  | backward
  | both
  | none

inductive ArrowShape where
  | normal
  | inverted
  | dot
  | openDot
  | invertedDot
  | openInvertedDot
  | tee
  | empty
  | invertedEmpty
  | «open»
  | halfOpen
  | diamond
  | openDiamond
  | box
  | openBox
  | crow
  | none

structure EdgeEnd where
  arrow : Option ArrowShape
  clipToNode : Option Bool
  link : Option Link
  portGroup : Option String

structure EdgeEndpointLabels (Number : Type) where
  head : Option Label
  tail : Option Label
  font : Option (Font Number)
  distance : Option Number
  angleDegrees : Option Number

structure EdgeAttributes (Number : Type) where
  label : Option Label
  font : Option (Font Number)
  weight : Option Number
  styles : Option (List EdgeStyle)
  colors : Option (List String)
  direction : Option EdgeDirection
  arrowScale : Option Number
  head : Option EdgeEnd
  tail : Option EdgeEnd
  endpointLabels : Option (EdgeEndpointLabels Number)
  link : Option Link
  decorateLabel : Option Bool
  extra : NameMap String

structure Edge (Number : Type) where
  source : Endpoint
  target : Endpoint
  attributes : EdgeAttributes Number

inductive SubgraphKind where
  | plain
  | cluster
deriving DecidableEq

inductive RankConstraint where
  | same
  | minimum
  | source
  | maximum
  | sink

structure SubgraphAttributes (Number : Type) where
  label : Option Label
  rank : Option RankConstraint
  padding : Option Number
  color : Option String
  backgroundColor : Option String
  extra : NameMap String

structure Subgraph (Number : Type) where
  kind : SubgraphKind
  id : Option String
  attributes : SubgraphAttributes Number
  nodes : NameMap (NodeAttributes Number)
  edges : List (Edge Number)
  subgraphs : List String

structure Graph (Number : Type) where
  strict : Bool
  kind : GraphKind
  id : Option String
  attributes : GraphAttributes Number
  nodeDefaults : NodeAttributes Number
  edgeDefaults : EdgeAttributes Number
  nodes : NameMap (NodeAttributes Number)
  edges : List (Edge Number)
  subgraphs : NameMap (Subgraph Number)

inductive GraphvizErrorKind where
  | invalidGraph
  | processFailed
  | unexpectedOutput

structure GraphvizError where
  kind : GraphvizErrorKind
  exitCode : Option Int
  message : String

/-- `invalid`. -/
def invalid (message : String) : GraphvizError :=
  ⟨.invalidGraph, none, message⟩

end RexLang.Graphviz
