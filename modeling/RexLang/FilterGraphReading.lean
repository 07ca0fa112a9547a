import RexLang.FilterQuoting
import RexLang.JoinedLists

/-!
# Filter graphs as they are read

The chains, filters, pads and arguments that both readings of a text give, and the
parts that a filter graph is written from.  The text of the parts is read as the
graph that they stand for if and only if the parts are safe.
-/

namespace RexLang

/-! ## What is read -/

/-- A filter: its name and, after an equals sign, its arguments. -/
structure FilterReading where
  name : String
  arguments : List String
deriving DecidableEq

structure ChainReading where
  inputs : List String
  filters : List FilterReading
  outputs : List String
deriving DecidableEq

/-- A text without places to split. -/
def textSigns (text : String) : List Sign :=
  text.toList.map .char

def padSigns (label : String) : List Sign :=
  .split '[' :: (textSigns label ++ [.split ']'])

/-- The signs of an argument list, which starts with an equals sign if it is not empty. -/
def argumentSigns : List (List Sign) → List Sign
  | [] => []
  | arguments => .char '=' :: [.split ':'].intercalate arguments

namespace FilterReading

def signs (filter : FilterReading) : List Sign :=
  textSigns filter.name ++ argumentSigns (filter.arguments.map textSigns)

end FilterReading

def ChainReading.signs (chain : ChainReading) : List Sign :=
  chain.inputs.flatMap padSigns ++
    ([.split ','].intercalate (chain.filters.map FilterReading.signs) ++
      chain.outputs.flatMap padSigns)

def graphSigns (graph : List ChainReading) : List Sign :=
  [.split ';'].intercalate (graph.map ChainReading.signs)

/-- Both readings of the text give the chains, filters, pads and arguments of the graph. -/
def ReadsAs (text : String) (graph : List ChainReading) : Prop :=
  readBoth .name text.toList = graphSigns graph

/-! ## What is written -/

/-- An argument: an option name with its equals sign, or nothing, then a text in which
commas are escaped, and then a quoted value. -/
structure ArgumentParts where
  key : String
  raw : String
  value : Option String

structure FilterParts where
  name : String
  arguments : List ArgumentParts

structure ChainParts where
  inputs : List String
  filters : List FilterParts
  outputs : List String

def plainMarks (text : String) : List Mark :=
  text.toList.map .plain

def rawMark (symbol : Char) : Mark :=
  if symbol = ',' then .comma else .plain symbol

def padMarks (label : String) : List Mark :=
  .split '[' :: (plainMarks label ++ [.split ']'])

namespace ArgumentParts

def valueMarks (argument : ArgumentParts) : List Mark :=
  (argument.value.map fun value => Mark.quoted value.toList).toList

def marks (argument : ArgumentParts) : List Mark :=
  plainMarks argument.key ++ (argument.raw.toList.map rawMark ++ argument.valueMarks)

/-- The argument as it is meant. -/
def reading (argument : ArgumentParts) : String :=
  argument.key ++ argument.raw ++ argument.value.getD ""

/-- The characters of the parts outside quotes have no other meaning. -/
structure WellFormed (argument : ArgumentParts) : Prop where
  key : ∀ symbol ∈ argument.key.toList, Mark.Ordinary symbol ∧ symbol ≠ ':'
  raw : ∀ symbol ∈ argument.raw.toList, Mark.Ordinary symbol ∧ symbol ≠ ':'

structure Safe (argument : ArgumentParts) : Prop where
  key : ',' ∉ argument.key.toList
  value : ∀ value ∈ argument.value, ∀ symbol ∈ value.toList, symbol ≠ ':' ∧ symbol ≠ '\''

end ArgumentParts

/-- The marks of an argument list. -/
def argumentMarks : List (List Mark) → List Mark
  | [] => []
  | arguments => .plain '=' :: [.split ':'].intercalate arguments

namespace FilterParts

def marks (filter : FilterParts) : List Mark :=
  plainMarks filter.name ++ argumentMarks (filter.arguments.map ArgumentParts.marks)

def reading (filter : FilterParts) : FilterReading :=
  ⟨filter.name, filter.arguments.map ArgumentParts.reading⟩

structure WellFormed (filter : FilterParts) : Prop where
  name : ∀ symbol ∈ filter.name.toList, Mark.Ordinary symbol ∧ symbol ≠ '='
  arguments : ∀ argument ∈ filter.arguments, argument.WellFormed

structure Safe (filter : FilterParts) : Prop where
  name : ',' ∉ filter.name.toList
  arguments : ∀ argument ∈ filter.arguments, argument.Safe

end FilterParts

/-- The characters of a pad label have no other meaning. -/
def IsLabel (label : String) : Prop :=
  ∀ symbol ∈ label.toList, Mark.Ordinary symbol ∧ symbol ≠ ','

namespace ChainParts

def marks (chain : ChainParts) : List Mark :=
  chain.inputs.flatMap padMarks ++
    ([.split ','].intercalate (chain.filters.map FilterParts.marks) ++
      chain.outputs.flatMap padMarks)

def reading (chain : ChainParts) : ChainReading :=
  ⟨chain.inputs, chain.filters.map FilterParts.reading, chain.outputs⟩

structure WellFormed (chain : ChainParts) : Prop where
  inputs : ∀ label ∈ chain.inputs, IsLabel label
  filters : ∀ filter ∈ chain.filters, filter.WellFormed
  outputs : ∀ label ∈ chain.outputs, IsLabel label

def Safe (chain : ChainParts) : Prop :=
  ∀ filter ∈ chain.filters, filter.Safe

end ChainParts

def graphMarks (graph : List ChainParts) : List Mark :=
  [.split ';'].intercalate (graph.map ChainParts.marks)

/-! ## The signs of the marks -/

section Signs

theorem flatMap_map_eq_map {First Second Third : Type} {visit : First → Second}
    {image : Second → List Third} {result : First → Third}
    (each : ∀ first, image (visit first) = [result first]) (list : List First) :
    (list.map visit).flatMap image = list.map result := by
  rw [List.flatMap_map, List.map_eq_flatMap]
  simp only [each]

theorem signs_plainMarks (text : String) :
    (plainMarks text).flatMap Mark.signs = textSigns text := by
  have each (symbol : Char) : (Mark.plain symbol).signs = [Sign.char symbol] := rfl
  exact flatMap_map_eq_map each text.toList

theorem signs_padMarks (label : String) : (padMarks label).flatMap Mark.signs = padSigns label := by
  rw [padMarks, List.flatMap_cons, List.flatMap_append, signs_plainMarks]
  rfl

theorem signs_rawMark (symbol : Char) : (rawMark symbol).signs = [.char symbol] := by
  unfold rawMark
  by_cases isComma : symbol = ','
  · rw [if_pos isComma, isComma]
    rfl
  · rw [if_neg isComma]
    rfl

theorem ArgumentParts.signs_marks (argument : ArgumentParts) :
    argument.marks.flatMap Mark.signs = textSigns argument.reading := by
  have raw : (argument.raw.toList.map rawMark).flatMap Mark.signs = textSigns argument.raw :=
    flatMap_map_eq_map signs_rawMark argument.raw.toList
  have value : argument.valueMarks.flatMap Mark.signs = textSigns (argument.value.getD "") := by
    unfold valueMarks
    cases argument.value with
    | none => rfl
    | some value => simp [Mark.signs, textSigns]
  rw [marks, List.flatMap_append, List.flatMap_append, signs_plainMarks, raw, value]
  simp [textSigns, reading]

theorem signs_argumentMarks (arguments : List (List Mark)) :
    (argumentMarks arguments).flatMap Mark.signs =
      argumentSigns (arguments.map (·.flatMap Mark.signs)) := by
  cases arguments with
  | nil => rfl
  | cons first arguments =>
      unfold argumentMarks argumentSigns
      rw [List.flatMap_cons, flatMap_intercalate]
      rfl

theorem FilterParts.signs_marks (filter : FilterParts) :
    filter.marks.flatMap Mark.signs = filter.reading.signs := by
  rw [marks, List.flatMap_append, signs_plainMarks, signs_argumentMarks, List.map_map]
  simp only [Function.comp_def, ArgumentParts.signs_marks]
  rw [FilterReading.signs, reading, List.map_map]
  rfl

theorem ChainParts.signs_marks (chain : ChainParts) :
    chain.marks.flatMap Mark.signs = chain.reading.signs := by
  have pads (labels : List String) : (labels.flatMap padMarks).flatMap Mark.signs =
      labels.flatMap padSigns := by
    rw [List.flatMap_assoc]
    simp only [signs_padMarks]
  rw [marks, List.flatMap_append, List.flatMap_append, pads, pads, flatMap_intercalate,
    List.map_map]
  simp only [Function.comp_def, FilterParts.signs_marks]
  rw [ChainReading.signs, reading, List.map_map]
  rfl

theorem signs_graphMarks (graph : List ChainParts) :
    (graphMarks graph).flatMap Mark.signs = graphSigns (graph.map ChainParts.reading) := by
  rw [graphMarks, flatMap_intercalate, List.map_map, graphSigns, List.map_map]
  simp only [Function.comp_def, ChainParts.signs_marks]
  rfl

end Signs

/-! ## The marks are well placed -/

/-- The marks may follow a filter: they start with a split, if with anything. -/
structure Follows (marks : List Mark) : Prop where
  splits : SplitsNext marks
  atName : WellPlaced .name marks
  atArguments : WellPlaced (.arguments .plain) marks

theorem follows_nil : Follows [] :=
  ⟨trivial, trivial, trivial⟩

theorem follows_split {symbol : Char} (isSplit : symbol = ',' ∨ symbol = ';') {marks : List Mark}
    (placed : WellPlaced .name marks) : Follows (.split symbol :: marks) := by
  rcases isSplit with rfl | rfl
  · exact ⟨trivial, ⟨.inr (.inl rfl), nofun, placed⟩, ⟨.inr (.inl rfl), nofun, placed⟩⟩
  · exact ⟨trivial, ⟨.inr (.inr rfl), nofun, placed⟩, ⟨.inr (.inr (.inl rfl)), nofun, placed⟩⟩

section Placed

variable {rest : List Mark}

/-- Marks that leave the reading where it is. -/
theorem wellPlaced_append {place : Place} {marks : List Mark}
    (each : ∀ mark ∈ marks, place.Fits mark ∧ mark.isQuoted = false ∧ place.after mark = place)
    (placed : WellPlaced place rest) : WellPlaced place (marks ++ rest) := by
  induction marks with
  | nil => exact placed
  | cons mark marks hypothesis =>
      obtain ⟨⟨fits, notQuoted, stays⟩, eachRest⟩ := List.forall_mem_cons.mp each
      refine ⟨fits, fun isQuoted => ?_, ?_⟩
      · rw [notQuoted] at isQuoted
        cases isQuoted
      · rw [stays]
        exact hypothesis eachRest

theorem wellPlaced_padMarks {place : Place} (isPlace : place = .name ∨ place = .arguments .plain)
    {label : String} (isLabel : IsLabel label) (placed : WellPlaced .name rest) :
    WellPlaced place (padMarks label ++ rest) := by
  have inPad : WellPlaced .pad (plainMarks label ++ .split ']' :: rest) := by
    refine wellPlaced_append (fun mark member => ?_) ⟨rfl, nofun, placed⟩
    obtain ⟨symbol, inLabel, rfl⟩ := List.mem_map.mp member
    exact ⟨(isLabel symbol inLabel).1, rfl, rfl⟩
  rw [padMarks, List.cons_append, List.append_assoc]
  rcases isPlace with rfl | rfl
  · exact ⟨.inl rfl, nofun, inPad⟩
  · exact ⟨.inl rfl, nofun, inPad⟩

theorem wellPlaced_inputs {labels : List String} (areLabels : ∀ label ∈ labels, IsLabel label)
    (placed : WellPlaced .name rest) : WellPlaced .name (labels.flatMap padMarks ++ rest) := by
  induction labels with
  | nil => exact placed
  | cons label labels hypothesis =>
      obtain ⟨isLabel, areLabels⟩ := List.forall_mem_cons.mp areLabels
      rw [List.flatMap_cons, List.append_assoc]
      exact wellPlaced_padMarks (.inl rfl) isLabel (hypothesis areLabels)

theorem follows_outputs {labels : List String} (areLabels : ∀ label ∈ labels, IsLabel label)
    (follows : Follows rest) : Follows (labels.flatMap padMarks ++ rest) := by
  cases labels with
  | nil => exact follows
  | cons label labels =>
      obtain ⟨isLabel, areLabels⟩ := List.forall_mem_cons.mp areLabels
      have later := wellPlaced_inputs areLabels follows.atName
      rw [List.flatMap_cons, List.append_assoc]
      exact ⟨trivial, wellPlaced_padMarks (.inl rfl) isLabel later,
        wellPlaced_padMarks (.inr rfl) isLabel later⟩

theorem ArgumentParts.WellFormed.wellPlaced {argument : ArgumentParts}
    (wellFormed : argument.WellFormed) (splits : SplitsNext rest)
    (placed : WellPlaced (.arguments .plain) rest) :
    WellPlaced (.arguments .plain) (argument.marks ++ rest) := by
  have value : WellPlaced (.arguments .plain) (argument.valueMarks ++ rest) := by
    unfold valueMarks
    cases argument.value with
    | none => exact placed
    | some value => exact ⟨trivial, fun _ => splits, placed⟩
  rw [marks, List.append_assoc, List.append_assoc]
  refine wellPlaced_append (fun mark member => ?_) (wellPlaced_append (fun mark member => ?_) value)
  · obtain ⟨symbol, inKey, rfl⟩ := List.mem_map.mp member
    exact ⟨wellFormed.key symbol inKey, rfl, rfl⟩
  · obtain ⟨symbol, inRaw, rfl⟩ := List.mem_map.mp member
    unfold rawMark
    split_ifs
    · exact ⟨trivial, rfl, rfl⟩
    · exact ⟨wellFormed.raw symbol inRaw, rfl, rfl⟩

theorem wellPlaced_arguments {arguments : List ArgumentParts}
    (wellFormed : ∀ argument ∈ arguments, argument.WellFormed) (follows : Follows rest) :
    WellPlaced (.arguments .plain)
      ([.split ':'].intercalate (arguments.map ArgumentParts.marks) ++ rest) := by
  induction arguments with
  | nil => exact follows.atArguments
  | cons argument arguments hypothesis =>
      obtain ⟨ofArgument, ofArguments⟩ := List.forall_mem_cons.mp wellFormed
      cases arguments with
      | nil =>
          rw [List.map_cons, List.map_nil, List.intercalate_singleton]
          exact ofArgument.wellPlaced follows.splits follows.atArguments
      | cons second arguments =>
          rw [List.map_cons, List.map_cons, List.intercalate_cons_cons, List.append_assoc,
            List.append_assoc]
          refine ofArgument.wellPlaced trivial ⟨.inr (.inr (.inr rfl)), nofun, ?_⟩
          exact hypothesis ofArguments

theorem FilterParts.WellFormed.wellPlaced {filter : FilterParts} (wellFormed : filter.WellFormed)
    (follows : Follows rest) : WellPlaced .name (filter.marks ++ rest) := by
  rw [marks, List.append_assoc]
  refine wellPlaced_append (fun mark member => ?_) ?_
  · obtain ⟨symbol, inName, rfl⟩ := List.mem_map.mp member
    obtain ⟨ordinary, notEquals⟩ := wellFormed.name symbol inName
    exact ⟨ordinary, rfl, if_neg notEquals⟩
  · have placed := wellPlaced_arguments wellFormed.arguments follows
    cases isArguments : filter.arguments with
    | nil => exact follows.atName
    | cons argument arguments =>
        rw [isArguments] at placed
        exact ⟨by unfold Place.Fits Mark.Ordinary; decide, nofun, placed⟩

theorem wellPlaced_filters {filters : List FilterParts}
    (wellFormed : ∀ filter ∈ filters, filter.WellFormed) (follows : Follows rest) :
    WellPlaced .name ([.split ','].intercalate (filters.map FilterParts.marks) ++ rest) := by
  induction filters with
  | nil => exact follows.atName
  | cons filter filters hypothesis =>
      obtain ⟨ofFilter, ofFilters⟩ := List.forall_mem_cons.mp wellFormed
      cases filters with
      | nil =>
          rw [List.map_cons, List.map_nil, List.intercalate_singleton]
          exact ofFilter.wellPlaced follows
      | cons second filters =>
          rw [List.map_cons, List.map_cons, List.intercalate_cons_cons, List.append_assoc,
            List.append_assoc]
          exact ofFilter.wellPlaced (follows_split (.inl rfl) (hypothesis ofFilters))

theorem ChainParts.WellFormed.wellPlaced {chain : ChainParts} (wellFormed : chain.WellFormed)
    (follows : Follows rest) : WellPlaced .name (chain.marks ++ rest) := by
  rw [marks, List.append_assoc, List.append_assoc]
  exact wellPlaced_inputs wellFormed.inputs
    (wellPlaced_filters wellFormed.filters (follows_outputs wellFormed.outputs follows))

end Placed

theorem wellPlaced_graphMarks {graph : List ChainParts}
    (wellFormed : ∀ chain ∈ graph, chain.WellFormed) : WellPlaced .name (graphMarks graph) := by
  unfold graphMarks
  induction graph with
  | nil => trivial
  | cons chain graph hypothesis =>
      obtain ⟨ofChain, ofGraph⟩ := List.forall_mem_cons.mp wellFormed
      cases graph with
      | nil =>
          have placed := ofChain.wellPlaced follows_nil
          rw [List.append_nil] at placed
          rwa [List.map_cons, List.map_nil, List.intercalate_singleton]
      | cons second graph =>
          rw [List.map_cons, List.map_cons, List.intercalate_cons_cons, List.append_assoc]
          exact ofChain.wellPlaced (follows_split (.inr rfl) (hypothesis ofGraph))

/-! ## Safe parts -/

section SafeMarks

theorem safe_intercalate_iff {symbol : Char} {lists : List (List Mark)} :
    (∀ mark ∈ [Mark.split symbol].intercalate lists, mark.Safe) ↔
      ∀ list ∈ lists, ∀ mark ∈ list, mark.Safe :=
  forall_mem_intercalate ((List.forall_mem_singleton).mpr trivial)

theorem safe_plainMarks_iff {text : String} :
    (∀ mark ∈ plainMarks text, mark.Safe) ↔ ',' ∉ text.toList := by
  unfold plainMarks
  rw [List.forall_mem_map]
  constructor
  · intro safe isComma
    exact safe ',' isComma rfl
  · rintro noComma symbol member rfl
    exact noComma member

theorem safe_padMarks {label : String} (isLabel : IsLabel label) :
    ∀ mark ∈ padMarks label, mark.Safe := by
  have plain : ∀ mark ∈ plainMarks label, mark.Safe :=
    safe_plainMarks_iff.2 fun isComma => (isLabel ',' isComma).2 rfl
  intro mark member
  rcases List.mem_cons.mp member with rfl | member
  · trivial
  rcases List.mem_append.mp member with member | member
  · exact plain mark member
  · rw [List.mem_singleton.mp member]
    trivial

theorem ArgumentParts.safe_marks_iff {argument : ArgumentParts} :
    (∀ mark ∈ argument.marks, mark.Safe) ↔ argument.Safe := by
  have raw : ∀ mark ∈ argument.raw.toList.map rawMark, mark.Safe := by
    rw [List.forall_mem_map]
    intro symbol _
    unfold rawMark
    by_cases isComma : symbol = ','
    · rw [if_pos isComma]
      trivial
    · rw [if_neg isComma]
      exact isComma
  have value : (∀ mark ∈ argument.valueMarks, mark.Safe) ↔
      ∀ value ∈ argument.value, ∀ symbol ∈ value.toList, symbol ≠ ':' ∧ symbol ≠ '\'' := by
    unfold valueMarks
    cases argument.value with
    | none => simp
    | some value =>
        simp only [Option.map_some, Option.toList_some, List.forall_mem_singleton, Option.mem_some]
        exact ⟨fun safe _ same => same ▸ safe, fun safe => safe value rfl⟩
  rw [marks, List.forall_mem_append, List.forall_mem_append, safe_plainMarks_iff, value]
  exact ⟨fun ⟨key, _, value⟩ => ⟨key, value⟩, fun safe => ⟨safe.key, raw, safe.value⟩⟩

theorem FilterParts.safe_marks_iff {filter : FilterParts} :
    (∀ mark ∈ filter.marks, mark.Safe) ↔ filter.Safe := by
  have arguments : (∀ mark ∈ argumentMarks (filter.arguments.map ArgumentParts.marks),
      mark.Safe) ↔ ∀ argument ∈ filter.arguments, argument.Safe := by
    have onList : (∀ mark ∈ [Mark.split ':'].intercalate (filter.arguments.map ArgumentParts.marks),
        mark.Safe) ↔ ∀ argument ∈ filter.arguments, argument.Safe := by
      rw [safe_intercalate_iff, List.forall_mem_map]
      exact forall₂_congr fun argument _ => argument.safe_marks_iff
    have equals : (Mark.plain '=').Safe := by
      unfold Mark.Safe
      decide
    rw [← onList]
    generalize filter.arguments.map ArgumentParts.marks = lists
    cases lists with
    | nil => rfl
    | cons list lists =>
        unfold argumentMarks
        rw [List.forall_mem_cons]
        exact and_iff_right equals
  rw [marks, List.forall_mem_append, safe_plainMarks_iff, arguments]
  exact ⟨fun ⟨name, arguments⟩ => ⟨name, arguments⟩, fun safe => ⟨safe.name, safe.arguments⟩⟩

theorem ChainParts.WellFormed.safe_marks_iff {chain : ChainParts} (wellFormed : chain.WellFormed) :
    (∀ mark ∈ chain.marks, mark.Safe) ↔ chain.Safe := by
  have pads {labels : List String} (areLabels : ∀ label ∈ labels, IsLabel label) :
      ∀ mark ∈ labels.flatMap padMarks, mark.Safe := by
    intro mark member
    obtain ⟨label, isLabel, inside⟩ := List.mem_flatMap.mp member
    exact safe_padMarks (areLabels label isLabel) mark inside
  rw [marks, List.forall_mem_append, List.forall_mem_append, safe_intercalate_iff,
    List.forall_mem_map, and_iff_right (pads wellFormed.inputs),
    and_iff_left (pads wellFormed.outputs)]
  exact forall₂_congr fun filter _ => filter.safe_marks_iff

end SafeMarks

/-- A written graph is read as it is meant if and only if its parts are safe. -/
theorem readsAs_iff {graph : List ChainParts} (wellFormed : ∀ chain ∈ graph, chain.WellFormed)
    {text : String} (isText : text.toList = (graphMarks graph).flatMap Mark.text) :
    ReadsAs text (graph.map ChainParts.reading) ↔ ∀ chain ∈ graph, chain.Safe := by
  unfold ReadsAs
  rw [isText, ← signs_graphMarks, readBoth_text_iff (wellPlaced_graphMarks wellFormed), graphMarks,
    safe_intercalate_iff, List.forall_mem_map]
  exact forall₂_congr fun chain isChain => (wellFormed chain isChain).safe_marks_iff

end RexLang
