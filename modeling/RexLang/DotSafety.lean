import RexLang.DotSerializer
import RexLang.FallibleResults

/-!
# Safe texts in DOT

When the literals of written attributes, names and endpoints are safe: their quoted
texts have no quote after an odd number of backslashes, and the angle brackets of their
HTML texts balance.
-/

namespace RexLang.Graphviz

/-! ## Quoted texts -/

/-- No quote comes right after an odd number of backslashes. -/
def SafeQuoted (text : String) : Prop :=
  QuotesApart false text.toList

instance (text : String) : Decidable (SafeQuoted text) :=
  inferInstanceAs (Decidable (QuotesApart false text.toList))

theorem quotesApart_of_not_mem {text : List Char} (noQuote : '"' ∉ text) (odd : Bool) :
    QuotesApart odd text := by
  induction text generalizing odd with
  | nil => trivial
  | cons symbol text hypothesis =>
      rw [List.mem_cons, not_or] at noQuote
      exact ⟨fun isQuote => absurd isQuote.symm noQuote.1, hypothesis noQuote.2 _⟩

/-- A colon separates what comes after it from the backslashes before it. -/
theorem quotesApart_colon (odd : Bool) (first second : List Char) :
    QuotesApart odd (first ++ ':' :: second) ↔
      QuotesApart odd first ∧ QuotesApart false second := by
  induction first generalizing odd with
  | nil => simp [QuotesApart]
  | cons symbol first hypothesis =>
      rw [List.cons_append, QuotesApart, QuotesApart, hypothesis, and_assoc]

/-- No character of the text is a quote. -/
def WithoutQuotes (text : String) : Prop :=
  '"' ∉ text.toList

instance (text : String) : Decidable (WithoutQuotes text) :=
  inferInstanceAs (Decidable (¬_))

theorem WithoutQuotes.safe {text : String} (without : WithoutQuotes text) : SafeQuoted text :=
  quotesApart_of_not_mem without false

theorem withoutQuotes_append {first second : String} (withoutFirst : WithoutQuotes first)
    (withoutSecond : WithoutQuotes second) : WithoutQuotes (first ++ second) := by
  unfold WithoutQuotes
  rw [String.toList_append, List.mem_append, not_or]
  exact ⟨withoutFirst, withoutSecond⟩

theorem not_quote_of_isAlphanum {symbol : Char} (isAlphanum : symbol.isAlphanum = true) :
    '"' ≠ symbol := by
  rintro rfl
  revert isAlphanum
  decide

theorem withoutQuotes_nat (number : Nat) : WithoutQuotes number.repr := by
  intro member
  rw [Nat.toList_repr] at member
  have isDigit := Nat.isDigit_of_mem_toDigits (by decide) (by decide) member
  exact absurd isDigit (by decide)

theorem withoutQuotes_int (number : Int) : WithoutQuotes number.repr := by
  unfold Int.repr
  cases number with
  | ofNat number => exact withoutQuotes_nat number
  | negSucc number => exact withoutQuotes_append (by decide) (withoutQuotes_nat _)

@[simp]
theorem safeQuoted_int (number : Int) : SafeQuoted number.repr :=
  (withoutQuotes_int number).safe

theorem withoutQuotes_intercalate {separator : String} (without : WithoutQuotes separator)
    {texts : List String} (withoutTexts : ∀ text ∈ texts, WithoutQuotes text) :
    WithoutQuotes (separator.intercalate texts) := by
  induction texts with
  | nil => simp [WithoutQuotes]
  | cons first texts hypothesis =>
      obtain ⟨withoutFirst, withoutRest⟩ := List.forall_mem_cons.mp withoutTexts
      cases texts with
      | nil => simpa using withoutFirst
      | cons second texts =>
          rw [String.intercalate_cons_cons]
          exact withoutQuotes_append (withoutQuotes_append withoutFirst without)
            (hypothesis withoutRest)

theorem safeQuoted_colons (texts : List String) :
    SafeQuoted (":".intercalate texts) ↔ ∀ text ∈ texts, SafeQuoted text := by
  induction texts with
  | nil => exact iff_of_true (by decide) (by simp)
  | cons first texts hypothesis =>
      rw [List.forall_mem_cons]
      cases texts with
      | nil => simp
      | cons second texts =>
          rw [← hypothesis, String.intercalate_cons_cons]
          unfold SafeQuoted
          simp only [String.toList_append, List.append_assoc]
          exact quotesApart_colon false _ _

/-! ## Attribute values -/

def SafeValue : AttributeValue → Prop
  | .text text => SafeQuoted text
  | .html text => Balanced 0 text.toList

def Label.Safe : Label → Prop
  | .text value => SafeQuoted value
  | .html value => Balanced 0 value.toList

/-- The names and values that a field inserts are safe. -/
def SafeEntries (entries : Entries) : Prop :=
  ∀ name value, Except.ok (name, value) ∈ entries → SafeQuoted name ∧ SafeValue value

@[simp]
theorem safeEntries_nil : SafeEntries [] := by
  simp [SafeEntries]

@[simp]
theorem safeEntries_append (first second : Entries) :
    SafeEntries (first ++ second) ↔ SafeEntries first ∧ SafeEntries second := by
  unfold SafeEntries
  constructor
  · intro safe
    exact ⟨fun name value member => safe name value (List.mem_append_left _ member),
      fun name value member => safe name value (List.mem_append_right _ member)⟩
  · rintro ⟨safeFirst, safeSecond⟩ name value member
    exact (List.mem_append.mp member).elim (safeFirst name value) (safeSecond name value)

@[simp]
theorem safeEntries_present {Value : Type} (value : Option Value) (entries : Value → Entries) :
    SafeEntries (present value entries) ↔ ∀ present ∈ value, SafeEntries (entries present) := by
  cases value with
  | none => simp [present]
  | some value => simp [present]

@[simp]
theorem safeEntries_error (error : GraphvizError) : SafeEntries [.error error] := by
  simp [SafeEntries]

@[simp]
theorem safeEntries_insertText {name : String} (safeName : SafeQuoted name) (value : String) :
    SafeEntries (insertText name value) ↔ SafeQuoted value := by
  simp [SafeEntries, insertText, safeName, SafeValue]

@[simp]
theorem safeEntries_insertLabel {name : String} (safeName : SafeQuoted name) (label : Label) :
    SafeEntries (insertLabel name label) ↔ label.Safe := by
  cases label <;> simp [SafeEntries, insertLabel, safeName, SafeValue, Label.Safe]

/-- An entry whose text, if there is one, has no quotes. -/
theorem safeEntries_computed {name : String} (safeName : SafeQuoted name)
    {computed : Except GraphvizError String}
    (without : ∀ text, computed = .ok text → WithoutQuotes text) :
    SafeEntries [do
      let text ← computed
      return (name, .text text)] := by
  cases computed with
  | error error => exact safeEntries_error error
  | ok text =>
      intro other value member
      cases List.mem_singleton.mp member
      exact ⟨safeName, (without text rfl).safe⟩

section Numbers

variable {Number : Type} (format : NumberFormat Number)

theorem withoutQuotes_number (number : Number) : WithoutQuotes (format.text number) := by
  intro member
  rcases format.plain number '"' member with isAlphanum | isMinus | isPoint
  · exact not_quote_of_isAlphanum isAlphanum rfl
  · revert isMinus
    decide
  · revert isPoint
    decide

theorem withoutQuotes_finiteNumber {value : Number} {context text : String}
    (finite : finiteNumber format value context = .ok text) : WithoutQuotes text := by
  unfold finiteNumber at finite
  split_ifs at finite
  cases finite
  exact withoutQuotes_number format value

@[simp]
theorem safeEntries_insertNumber {name : String} (safeName : SafeQuoted name) (value : Number)
    (context : String) : SafeEntries (insertNumber format name value context) :=
  safeEntries_computed safeName fun _ finite => withoutQuotes_finiteNumber format finite

theorem withoutQuotes_numberPair {first : Number} {second : Option Number}
    {firstContext secondContext text : String}
    (pair : numberPair format first second firstContext secondContext = .ok text) :
    WithoutQuotes text := by
  obtain ⟨firstText, onFirst, onSecond⟩ := exists_of_bind_eq_ok pair
  have withoutFirst := withoutQuotes_finiteNumber format onFirst
  cases second with
  | none =>
      cases onSecond
      exact withoutFirst
  | some second =>
      obtain ⟨secondText, isSecond, isText⟩ := exists_of_bind_eq_ok onSecond
      cases isText
      exact withoutQuotes_append (withoutQuotes_append withoutFirst (by decide))
        (withoutQuotes_finiteNumber format isSecond)

@[simp]
theorem safeEntries_insertSize (size : GraphSize Number) :
    SafeEntries (insertSize format size) := by
  obtain ⟨width, height, minimum⟩ := size
  cases pair : numberPair format width height "graph size width" "graph size height" with
  | error error => simp [insertSize, pair, bind, Except.bind]
  | ok text =>
      have without := withoutQuotes_numberPair format pair
      intro name value member
      simp only [insertSize, pair] at member
      cases List.mem_singleton.mp member
      refine ⟨by decide, ?_⟩
      cases minimum with
      | false => exact without.safe
      | true => exact (withoutQuotes_append without (by decide)).safe

@[simp]
theorem safeEntries_insertRatio (ratio : GraphRatio Number) :
    SafeEntries (insertRatio format ratio) := by
  cases ratio <;> simp +decide [insertRatio]

@[simp]
theorem safeEntries_insertMargin (margin : GraphMargin Number) :
    SafeEntries (insertMargin format margin) :=
  safeEntries_computed (by decide) fun _ pair => withoutQuotes_numberPair format pair

@[simp]
theorem safeEntries_insertPadding (padding : Number) :
    SafeEntries (insertPadding format padding) := by
  unfold insertPadding
  split_ifs <;> simp +decide

end Numbers

/-! ## Names of values -/

@[simp]
theorem safeQuoted_flagText (flag : Bool) : SafeQuoted (flagText flag) := by
  cases flag <;> decide

@[simp]
theorem safeQuoted_rankDirectionValue (direction : RankDirection) :
    SafeQuoted (rankDirectionValue direction) := by
  cases direction <;> decide

@[simp]
theorem safeQuoted_orderingValue (ordering : EdgeOrdering) :
    SafeQuoted (orderingValue ordering) := by
  cases ordering <;> decide

@[simp]
theorem safeQuoted_splineModeValue (splines : SplineMode) :
    SafeQuoted (splineModeValue splines) := by
  cases splines <;> decide

@[simp]
theorem safeQuoted_rankValue (rank : RankConstraint) : SafeQuoted (rankValue rank) := by
  cases rank <;> decide

@[simp]
theorem safeQuoted_sizingValue (sizing : NodeSizing) : SafeQuoted (sizingValue sizing) := by
  cases sizing <;> decide

@[simp]
theorem safeQuoted_directionValue (direction : EdgeDirection) :
    SafeQuoted (directionValue direction) := by
  cases direction <;> decide

@[simp]
theorem safeQuoted_arrowShapeValue (shape : ArrowShape) :
    SafeQuoted (arrowShapeValue shape) := by
  cases shape <;> decide

@[simp]
theorem safeQuoted_nodeShapeValue (shape : NodeShape) : SafeQuoted (nodeShapeValue shape) := by
  cases shape <;> decide

theorem withoutQuotes_nodeStyleValue (style : NodeStyle) :
    WithoutQuotes (nodeStyleValue style) := by
  cases style <;> decide

theorem withoutQuotes_edgeStyleValue (style : EdgeStyle) :
    WithoutQuotes (edgeStyleValue style) := by
  cases style <;> decide

theorem safeEntries_insertStyles {Style : Type} {styleValue : Style → String}
    (without : ∀ style, WithoutQuotes (styleValue style)) (styles : List Style)
    (context : String) : SafeEntries (insertStyles styles styleValue context) := by
  unfold insertStyles
  split_ifs
  · exact safeEntries_error _
  · have withoutTexts : ∀ text ∈ styles.map styleValue, WithoutQuotes text :=
      List.forall_mem_map.mpr fun style _ => without style
    rw [safeEntries_insertText (by decide)]
    exact (withoutQuotes_intercalate (by decide) withoutTexts).safe

@[simp]
theorem safeEntries_nodeStyles (styles : List NodeStyle) :
    SafeEntries (insertStyles styles nodeStyleValue "node") :=
  safeEntries_insertStyles withoutQuotes_nodeStyleValue styles "node"

@[simp]
theorem safeEntries_edgeStyles (styles : List EdgeStyle) :
    SafeEntries (insertStyles styles edgeStyleValue "edge") :=
  safeEntries_insertStyles withoutQuotes_edgeStyleValue styles "edge"

/-! ## Attributes -/

section Attributes

variable {Number : Type} (format : NumberFormat Number)

def Font.Safe (font : Font Number) : Prop :=
  (∀ family ∈ font.family, SafeQuoted family) ∧ ∀ color ∈ font.color, SafeQuoted color

@[simp]
theorem safeEntries_addFont {familyName sizeName colorName : String}
    (safeFamily : SafeQuoted familyName) (safeSize : SafeQuoted sizeName)
    (safeColor : SafeQuoted colorName) (font : Font Number) :
    SafeEntries (addFont format font familyName sizeName colorName) ↔ font.Safe := by
  simp [addFont, Font.Safe, safeFamily, safeSize, safeColor]

def Link.Safe (link : Link) : Prop :=
  SafeQuoted link.url ∧ (∀ target ∈ link.target, SafeQuoted target) ∧
    ∀ tooltip ∈ link.tooltip, SafeQuoted tooltip

@[simp]
theorem safeEntries_addLink {hrefName targetName tooltipName : String}
    (safeHref : SafeQuoted hrefName) (safeTarget : SafeQuoted targetName)
    (safeTooltip : SafeQuoted tooltipName) (link : Link) :
    SafeEntries (addLink link hrefName targetName tooltipName) ↔ link.Safe := by
  simp [addLink, Link.Safe, safeHref, safeTarget, safeTooltip]

/-- The names and values of extra attributes are safe. -/
def SafeExtras (extra : NameMap String) : Prop :=
  ∀ entry ∈ extra.entries, SafeQuoted entry.1 ∧ SafeQuoted entry.2

structure GraphAttributes.Safe (source : GraphAttributes Number) : Prop where
  label : ∀ label ∈ source.label, label.Safe
  font : ∀ font ∈ source.font, font.Safe
  color : ∀ color ∈ source.color, SafeQuoted color
  backgroundColor : ∀ color ∈ source.backgroundColor, SafeQuoted color
  overlap : ∀ overlap ∈ source.overlap, SafeQuoted overlap
  stylesheet : ∀ stylesheet ∈ source.stylesheet, SafeQuoted stylesheet
  extra : SafeExtras source.extra

structure SubgraphAttributes.Safe (source : SubgraphAttributes Number) : Prop where
  label : ∀ label ∈ source.label, label.Safe
  color : ∀ color ∈ source.color, SafeQuoted color
  backgroundColor : ∀ color ∈ source.backgroundColor, SafeQuoted color
  extra : SafeExtras source.extra

structure NodeAttributes.Safe (source : NodeAttributes Number) : Prop where
  label : ∀ label ∈ source.label, label.Safe
  font : ∀ font ∈ source.font, font.Safe
  outlineColor : ∀ color ∈ source.outlineColor, SafeQuoted color
  fillColor : ∀ color ∈ source.fillColor, SafeQuoted color
  externalLabel : ∀ label ∈ source.externalLabel, label.Safe
  link : ∀ link ∈ source.link, link.Safe
  extra : SafeExtras source.extra

structure EdgeEnd.Safe (edgeEnd : EdgeEnd) : Prop where
  link : ∀ link ∈ edgeEnd.link, link.Safe
  portGroup : ∀ group ∈ edgeEnd.portGroup, SafeQuoted group

structure EdgeEndpointLabels.Safe (labels : EdgeEndpointLabels Number) : Prop where
  head : ∀ label ∈ labels.head, label.Safe
  tail : ∀ label ∈ labels.tail, label.Safe
  font : ∀ font ∈ labels.font, font.Safe

structure EdgeAttributes.Safe (source : EdgeAttributes Number) : Prop where
  label : ∀ label ∈ source.label, label.Safe
  font : ∀ font ∈ source.font, font.Safe
  colors : ∀ colors ∈ source.colors, ∀ color ∈ colors, SafeQuoted color
  head : ∀ edgeEnd ∈ source.head, edgeEnd.Safe
  tail : ∀ edgeEnd ∈ source.tail, edgeEnd.Safe
  endpointLabels : ∀ labels ∈ source.endpointLabels, labels.Safe
  link : ∀ link ∈ source.link, link.Safe
  extra : SafeExtras source.extra

@[simp]
theorem safeEntries_insertColors (colors : List String) :
    SafeEntries (insertColors colors) ↔ ∀ color ∈ colors, SafeQuoted color := by
  unfold insertColors
  cases colors with
  | nil => simp
  | cons color colors =>
      rw [List.isEmpty_cons, if_neg Bool.false_ne_true, safeEntries_insertText (by decide),
        safeQuoted_colons]

@[simp]
theorem safeEntries_insertNodeSize (size : NodeSize Number) :
    SafeEntries (insertNodeSize format size) := by
  simp +decide [insertNodeSize]

@[simp]
theorem safeEntries_insertPolygon (polygon : PolygonOptions Number) :
    SafeEntries (insertPolygon format polygon) := by
  simp +decide [insertPolygon]

@[simp]
theorem safeEntries_addEdgeEnd (edgeEnd : EdgeEnd) (head : Bool) :
    SafeEntries (addEdgeEnd edgeEnd head) ↔ edgeEnd.Safe := by
  have structured : edgeEnd.Safe ↔ (∀ link ∈ edgeEnd.link, link.Safe) ∧
      ∀ group ∈ edgeEnd.portGroup, SafeQuoted group :=
    ⟨fun safe => ⟨safe.link, safe.portGroup⟩, fun safe => ⟨safe.1, safe.2⟩⟩
  cases head <;> simp +decide [addEdgeEnd, endNames, structured]

@[simp]
theorem safeEntries_insertEndpointLabels (labels : EdgeEndpointLabels Number) :
    SafeEntries (insertEndpointLabels format labels) ↔ labels.Safe := by
  have structured : labels.Safe ↔ (∀ label ∈ labels.head, label.Safe) ∧
      (∀ label ∈ labels.tail, label.Safe) ∧ ∀ font ∈ labels.font, font.Safe :=
    ⟨fun safe => ⟨safe.head, safe.tail, safe.font⟩, fun safe => ⟨safe.1, safe.2.1, safe.2.2⟩⟩
  simp +decide [insertEndpointLabels, structured]

/-! ## Written attributes -/

def SafeMap (attributes : AttributeMap) : Prop :=
  ∀ entry ∈ attributes, SafeQuoted entry.1 ∧ SafeValue entry.2

theorem mem_insert_of_lookup {Value : Type} {attributes : SymbolMap Value} {name : String}
    (isNew : attributes.lookup name = none) (value : Value) (entry : String × Value) :
    entry ∈ attributes.insert name value ↔ entry = (name, value) ∨ entry ∈ attributes := by
  induction attributes with
  | nil => simp [SymbolMap.insert]
  | cons first attributes hypothesis =>
      obtain ⟨other, old⟩ := first
      have different : name ≠ other := by
        rintro rfl
        rw [List.lookup_cons_self] at isNew
        cases isNew
      have isNewRest : List.lookup name attributes = none := by
        rwa [List.lookup_cons, beq_eq_false_iff_ne.mpr different] at isNew
      rw [SymbolMap.insert, if_neg different]
      split_ifs
      · rw [List.mem_cons]
      · rw [List.mem_cons, hypothesis isNewRest, List.mem_cons]
        exact or_left_comm

theorem mem_insertAll {attributes inserted : AttributeMap} {entries : Entries}
    (isInserted : insertAll attributes entries = .ok inserted)
    (entry : String × AttributeValue) :
    entry ∈ inserted ↔ entry ∈ attributes ∨ Except.ok entry ∈ entries := by
  unfold insertAll at isInserted
  induction entries generalizing attributes with
  | nil =>
      cases isInserted
      simp
  | cons first entries hypothesis =>
      rw [List.foldlM_cons] at isInserted
      obtain ⟨middle, onFirst, onRest⟩ := exists_of_bind_eq_ok isInserted
      obtain ⟨⟨name, value⟩, rfl, onValue⟩ := exists_of_bind_eq_ok onFirst
      have isNew : attributes.lookup name = none := by
        cases found : attributes.lookup name with
        | none => rfl
        | some old =>
            have isPresent : insertValue attributes name value = .ok middle := onValue
            rw [insertValue, found] at isPresent
            cases isPresent
      have isMiddle : middle = attributes.insert name value := by
        have isAbsent : insertValue attributes name value = .ok middle := onValue
        rw [insertValue, isNew] at isAbsent
        cases isAbsent
        rfl
      rw [hypothesis onRest, isMiddle, mem_insert_of_lookup isNew, List.mem_cons]
      constructor
      · rintro ((rfl | before) | later)
        · exact .inr (.inl rfl)
        · exact .inl before
        · exact .inr (.inr later)
      · rintro (before | same | later)
        · exact .inl (.inr before)
        · cases same
          exact .inl (.inl rfl)
        · exact .inr later

/-- The attributes are safe if and only if the extra ones and the inserted ones are. -/
theorem safeMap_iff {extra : NameMap String} {entries : Entries} {inserted : AttributeMap}
    (isInserted : insertAll (extras extra) entries = .ok inserted) :
    SafeMap inserted ↔ SafeEntries entries ∧ SafeExtras extra := by
  have ofExtras : SafeMap (extras extra) ↔ SafeExtras extra := by
    unfold SafeMap SafeExtras extras
    rw [List.forall_mem_map]
    rfl
  rw [← ofExtras]
  constructor
  · intro safe
    exact ⟨fun name value member => safe _ ((mem_insertAll isInserted _).mpr (.inr member)),
      fun entry member => safe entry ((mem_insertAll isInserted _).mpr (.inl member))⟩
  · rintro ⟨safeEntries, safeExtras⟩ ⟨name, value⟩ member
    rcases (mem_insertAll isInserted _).mp member with inExtras | inEntries
    · exact safeExtras _ inExtras
    · exact safeEntries name value inEntries

theorem safeMap_graph {source : GraphAttributes Number} {attributes : AttributeMap}
    (isInserted : graphAttributes format source = .ok attributes) :
    SafeMap attributes ↔ source.Safe := by
  rw [safeMap_iff isInserted]
  have structured : source.Safe ↔ ((∀ label ∈ source.label, label.Safe) ∧
      (∀ font ∈ source.font, font.Safe) ∧ (∀ color ∈ source.color, SafeQuoted color) ∧
      (∀ color ∈ source.backgroundColor, SafeQuoted color) ∧
      (∀ overlap ∈ source.overlap, SafeQuoted overlap) ∧
      ∀ stylesheet ∈ source.stylesheet, SafeQuoted stylesheet) ∧ SafeExtras source.extra :=
    ⟨fun ⟨label, font, color, background, overlap, stylesheet, extra⟩ =>
      ⟨⟨label, font, color, background, overlap, stylesheet⟩, extra⟩,
      fun ⟨⟨label, font, color, background, overlap, stylesheet⟩, extra⟩ =>
        ⟨label, font, color, background, overlap, stylesheet, extra⟩⟩
  rw [structured]
  simp +decide [graphEntries, and_assoc]

theorem safeMap_subgraph {source : SubgraphAttributes Number} {attributes : AttributeMap}
    (isInserted : subgraphAttributes format source = .ok attributes) :
    SafeMap attributes ↔ source.Safe := by
  rw [safeMap_iff isInserted]
  have structured : source.Safe ↔ ((∀ label ∈ source.label, label.Safe) ∧
      (∀ color ∈ source.color, SafeQuoted color) ∧
      ∀ color ∈ source.backgroundColor, SafeQuoted color) ∧ SafeExtras source.extra :=
    ⟨fun ⟨label, color, background, extra⟩ => ⟨⟨label, color, background⟩, extra⟩,
      fun ⟨⟨label, color, background⟩, extra⟩ => ⟨label, color, background, extra⟩⟩
  rw [structured]
  simp +decide [subgraphEntries, and_assoc]

theorem safeMap_node {source : NodeAttributes Number} {attributes : AttributeMap}
    (isInserted : nodeAttributes format source = .ok attributes) :
    SafeMap attributes ↔ source.Safe := by
  rw [safeMap_iff isInserted]
  have structured : source.Safe ↔ ((∀ label ∈ source.label, label.Safe) ∧
      (∀ font ∈ source.font, font.Safe) ∧ (∀ color ∈ source.outlineColor, SafeQuoted color) ∧
      (∀ color ∈ source.fillColor, SafeQuoted color) ∧
      (∀ label ∈ source.externalLabel, label.Safe) ∧ ∀ link ∈ source.link, link.Safe) ∧
        SafeExtras source.extra :=
    ⟨fun ⟨label, font, outline, fill, external, link, extra⟩ =>
      ⟨⟨label, font, outline, fill, external, link⟩, extra⟩,
      fun ⟨⟨label, font, outline, fill, external, link⟩, extra⟩ =>
        ⟨label, font, outline, fill, external, link, extra⟩⟩
  rw [structured]
  simp +decide [nodeEntries, and_assoc]

theorem safeMap_edge {source : EdgeAttributes Number} {attributes : AttributeMap}
    (isInserted : edgeAttributes format source = .ok attributes) :
    SafeMap attributes ↔ source.Safe := by
  rw [safeMap_iff isInserted]
  have structured : source.Safe ↔ ((∀ label ∈ source.label, label.Safe) ∧
      (∀ font ∈ source.font, font.Safe) ∧
      (∀ colors ∈ source.colors, ∀ color ∈ colors, SafeQuoted color) ∧
      (∀ edgeEnd ∈ source.head, edgeEnd.Safe) ∧ (∀ edgeEnd ∈ source.tail, edgeEnd.Safe) ∧
      (∀ labels ∈ source.endpointLabels, labels.Safe) ∧ ∀ link ∈ source.link, link.Safe) ∧
        SafeExtras source.extra :=
    ⟨fun ⟨label, font, colors, head, tail, labels, link, extra⟩ =>
      ⟨⟨label, font, colors, head, tail, labels, link⟩, extra⟩,
      fun ⟨⟨label, font, colors, head, tail, labels, link⟩, extra⟩ =>
        ⟨label, font, colors, head, tail, labels, link, extra⟩⟩
  rw [structured]
  simp +decide [edgeEntries, and_assoc]

/-! ## Written texts -/

theorem writeQuoted_value {value : String} {text : QuotedText}
    (written : writeQuoted value = .ok text) : text.value = value := by
  unfold writeQuoted at written
  split_ifs at written
  obtain ⟨_, -, same⟩ := exists_of_bind_eq_ok written
  cases same
  rfl

def SafeWritten (attributes : WrittenAttributes) : Prop :=
  ∀ entry ∈ attributes, SafeQuoted entry.1.value ∧ entry.2.Safe

theorem safe_writeAttributeValue {value : AttributeValue} {literal : DotLiteral}
    (written : writeAttributeValue value = .ok literal) : literal.Safe ↔ SafeValue value := by
  cases value with
  | text value =>
      obtain ⟨text, isText, same⟩ := exists_of_bind_eq_ok written
      cases same
      rw [← writeQuoted_value isText]
      rfl
  | html value =>
      obtain ⟨_, -, same⟩ := exists_of_bind_eq_ok written
      cases same
      rfl

/-- Written attributes are safe if and only if the attributes are. -/
theorem safeWritten_iff {attributes : AttributeMap} {written : WrittenAttributes}
    (isWritten : writeAttributes attributes = .ok written) :
    SafeWritten written ↔ SafeMap attributes := by
  have all := forall₂_of_mapM isWritten
  clear isWritten
  unfold SafeWritten SafeMap
  induction all with
  | nil => simp
  | cons onEntry _ hypothesis =>
      obtain ⟨name, isName, onValue⟩ := exists_of_bind_eq_ok onEntry
      obtain ⟨value, isValue, same⟩ := exists_of_bind_eq_ok onValue
      cases same
      have onFirst := safe_writeAttributeValue isValue
      rw [List.forall_mem_cons, List.forall_mem_cons, writeQuoted_value isName, onFirst]
      exact and_congr_right fun _ => hypothesis

end Attributes

end RexLang.Graphviz
