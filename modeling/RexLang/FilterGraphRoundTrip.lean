import RexLang.FilterGraphSafety

/-!
# Filter graphs are read as they are meant

The argument that the compilation adds for a filter graph is read as the chains,
filters, pads and options of the graph if and only if no string of the graph has a
colon or a quote, and no custom name a comma.
-/

namespace RexLang.Ffmpeg

/-! ## The texts of the loops -/

section Loops

variable {Number Hash : Type} {format : NumberFormat Number} {paths : PathSlot → String}

/-- What a loop writes from an index on: a separator before each part but the first. -/
def joinedChars (separator : Char) (index : Nat) (parts : List (List Char)) : List Char :=
  if index = 0 then [separator].intercalate parts else parts.flatMap ([separator] ++ ·)

theorem joinedChars_nil (separator : Char) (index : Nat) : joinedChars separator index [] = [] := by
  unfold joinedChars
  split_ifs <;> rfl

theorem joinedChars_cons (separator : Char) (index : Nat) (first : List Char)
    (parts : List (List Char)) :
    joinedChars separator index (first :: parts) =
      (if index = 0 then [] else [separator]) ++ (first ++ joinedChars separator (index + 1) parts) := by
  have later : joinedChars separator (index + 1) parts = parts.flatMap ([separator] ++ ·) :=
    if_neg (Nat.succ_ne_zero index)
  rw [later]
  unfold joinedChars
  split_ifs
  · exact intercalate_cons [separator] first parts
  · rw [List.flatMap_cons, List.append_assoc]

/-- The separator that a loop writes before a part. -/
theorem render_separator (separator : String) (index : Nat) :
    (ToolArgument.renderAll paths (if index = 0 then [] else [.literal separator])).toList =
      if index = 0 then [] else separator.toList := by
  split_ifs
  · rfl
  · simp [ToolArgument.renderAll, ToolArgument.render]

theorem compiledAs_filters (plain : PlainPaths paths) {index : Nat}
    {builder builder' : PlanBuilder Hash} {filters : List (MediaFilter Number Hash)}
    {parts : List ToolArgument}
    (compiled : compileFilters format index builder filters = .ok (parts, builder')) :
    CompiledAs paths builder builder' parts
      (joinedChars ',' index
        ((filtersParts format paths builder.inputs.length filters).map filterChars))
      (filters.map inputCount).sum := by
  induction filters generalizing index builder builder' parts with
  | nil =>
      cases compiled
      exact ⟨(joinedChars_nil ',' index).symm, rfl, rfl⟩
  | cons filter filters hypothesis =>
      obtain ⟨⟨first, middle⟩, onFirst, compiledRest⟩ := exists_of_bind_eq_ok compiled
      obtain ⟨⟨rest, last⟩, onRest, same⟩ := exists_of_bind_eq_ok compiledRest
      cases same
      have head := compiledAs_filter plain onFirst
      have tail := hypothesis onRest
      rw [head.inputs] at tail
      refine ⟨?_, ?_, tail.arguments.trans head.arguments⟩
      · rw [filtersParts, List.map_cons, joinedChars_cons, renderAll_append, renderAll_append,
          String.toList_append, String.toList_append, render_separator, head.text, tail.text,
          List.append_assoc]
        rfl
      · rw [tail.inputs, head.inputs, List.map_cons, List.sum_cons, Nat.add_assoc]

theorem safeAs_filters (plain : PlainPaths paths) {index : Nat}
    {builder builder' : PlanBuilder Hash} {filters : List (MediaFilter Number Hash)}
    {parts : List ToolArgument}
    (compiled : compileFilters format index builder filters = .ok (parts, builder')) (next : Nat) :
    List.Forall₂ (fun filter parts => SafeAs parts (mediaStrings filter) (mediaNames filter))
      filters (filtersParts format paths next filters) := by
  induction filters generalizing index builder builder' parts next with
  | nil => exact .nil
  | cons filter filters hypothesis =>
      obtain ⟨⟨first, middle⟩, onFirst, compiledRest⟩ := exists_of_bind_eq_ok compiled
      obtain ⟨⟨rest, last⟩, onRest, -⟩ := exists_of_bind_eq_ok compiledRest
      exact .cons (safeAs_media plain next onFirst) (hypothesis onRest _)

/-! ## Pads and chains -/

def padChars (label : String) : List Char :=
  '[' :: (label.toList ++ [']'])

theorem text_padMarks (label : String) : (padMarks label).flatMap Mark.text = padChars label := by
  rw [padMarks, List.flatMap_cons, List.flatMap_append, text_plainMarks]
  rfl

theorem text_pads (labels : List String) :
    (labels.flatMap padMarks).flatMap Mark.text = labels.flatMap padChars := by
  rw [List.flatMap_assoc]
  simp only [text_padMarks]

/-- Compiled pads are the labels in brackets. -/
structure ArePads (paths : PathSlot → String) (parts : List ToolArgument)
    (labels : List String) : Prop where
  text : (ToolArgument.renderAll paths parts).toList = labels.flatMap padChars
  areLabels : ∀ label ∈ labels, IsLabel label

theorem arePads_of_mapM {Pad : Type} {write : Pad → Except FfmpegError ToolArgument}
    {label : Pad → String}
    (each : ∀ pad part, write pad = .ok part →
      part = .literal ("[" ++ label pad ++ "]") ∧ IsLabel (label pad))
    {pads : List Pad} {parts : List ToolArgument} (written : pads.mapM write = .ok parts) :
    ArePads paths parts (pads.map label) := by
  have all := forall₂_of_mapM written
  clear written
  induction all with
  | nil => exact ⟨rfl, by simp⟩
  | @cons pad part _ _ isPart _ hypothesis =>
      obtain ⟨rfl, isLabel⟩ := each pad part isPart
      refine ⟨?_, List.forall_mem_cons.mpr ⟨isLabel, hypothesis.areLabels⟩⟩
      rw [ToolArgument.renderAll, String.toList_append, hypothesis.text]
      simp [ToolArgument.render, padChars]

theorem arePads_inputs {pads : List FilterPad} {parts : List ToolArgument}
    (written : pads.mapM inputPart = .ok parts) : ArePads paths parts (pads.map padLabel) := by
  refine arePads_of_mapM (fun pad part isPart => ?_) written
  obtain ⟨name, isName, same⟩ := exists_of_bind_eq_ok isPart
  obtain ⟨rfl, isLabel⟩ := isLabel_of_filterPadName isName
  cases same
  exact ⟨rfl, isLabel⟩

theorem arePads_outputs {outputs : List String} {parts : List ToolArgument}
    (written : outputs.mapM outputPart = .ok parts) : ArePads paths parts outputs := by
  have pads : ArePads paths parts (outputs.map id) := by
    refine arePads_of_mapM (fun output part isPart => ?_) written
    obtain ⟨label, isLabel, same⟩ := exists_of_bind_eq_ok isPart
    obtain ⟨rfl, areLabels⟩ := isLabel_of_checkedLabel isLabel
    cases same
    exact ⟨rfl, areLabels⟩
  rwa [List.map_id] at pads

def chainChars (chain : ChainParts) : List Char :=
  chain.inputs.flatMap padChars ++
    ([','].intercalate (chain.filters.map filterChars) ++ chain.outputs.flatMap padChars)

theorem text_chain (chain : ChainParts) : chain.marks.flatMap Mark.text = chainChars chain := by
  rw [ChainParts.marks, List.flatMap_append, List.flatMap_append, text_pads, text_pads,
    flatMap_intercalate, List.map_map]
  simp only [Function.comp_def, text_filter]
  rfl

theorem text_graph (graph : List ChainParts) :
    (graphMarks graph).flatMap Mark.text = [';'].intercalate (graph.map chainChars) := by
  rw [graphMarks, flatMap_intercalate, List.map_map]
  simp only [Function.comp_def, text_chain]
  rfl

/-- What the compilation of the chains says of them. -/
structure ChainsCompiled (paths : PathSlot → String) (builder builder' : PlanBuilder Hash)
    (index : Nat) (parts : List ToolArgument) (chains : List (FilterChain Number Hash))
    (chainParts : List ChainParts) : Prop where
  text : (ToolArgument.renderAll paths parts).toList =
    joinedChars ';' index (chainParts.map chainChars)
  arguments : builder'.arguments = builder.arguments
  wellFormed : ∀ chain ∈ chainParts, chain.WellFormed
  safe : (∀ chain ∈ chainParts, chain.Safe) ↔
    ∀ chain ∈ chains, ∀ filter ∈ chain.filters, SafeFilter filter

theorem safeFilter_iff (filter : MediaFilter Number Hash) :
    SafeFilter filter ↔ (∀ text ∈ mediaStrings filter, SafeText text) ∧
      ∀ name ∈ mediaNames filter, ',' ∉ name.toList :=
  ⟨fun safe => ⟨safe.strings, safe.names⟩, fun ⟨strings, names⟩ => ⟨strings, names⟩⟩

/-- The filters of a chain are safe if and only if their parts are. -/
theorem safe_filters_iff {filters : List (MediaFilter Number Hash)} {parts : List FilterParts}
    (all : List.Forall₂ (fun filter parts =>
      SafeAs parts (mediaStrings filter) (mediaNames filter)) filters parts) :
    (∀ part ∈ parts, part.Safe) ↔ ∀ filter ∈ filters, SafeFilter filter := by
  induction all with
  | nil => simp
  | @cons filter part _ _ safeAs _ hypothesis =>
      rw [List.forall_mem_cons, List.forall_mem_cons, hypothesis, safeAs.safe, safeFilter_iff]

theorem chainsCompiled (plain : PlainPaths paths) {index : Nat}
    {builder builder' : PlanBuilder Hash} {chains : List (FilterChain Number Hash)}
    {parts : List ToolArgument}
    (compiled : compileChains format index builder chains = .ok (parts, builder')) :
    ChainsCompiled paths builder builder' index parts chains
      (chainsParts format paths builder.inputs.length chains) := by
  induction chains generalizing index builder builder' parts with
  | nil =>
      cases compiled
      exact ⟨(joinedChars_nil ';' index).symm, rfl, by simp [chainsParts], by simp [chainsParts]⟩
  | cons chain chains hypothesis =>
      have notEmpty : ¬chain.filters.isEmpty := by
        intro isEmpty
        rw [compileChains, if_pos isEmpty] at compiled
        cases compiled
      rw [compileChains, if_neg notEmpty] at compiled
      obtain ⟨inputs, areInputs, compiledFilters⟩ := exists_of_bind_eq_ok compiled
      obtain ⟨⟨filters, middle⟩, onFilters, compiledOutputs⟩ := exists_of_bind_eq_ok compiledFilters
      obtain ⟨outputs, areOutputs, compiledRest⟩ := exists_of_bind_eq_ok compiledOutputs
      obtain ⟨⟨rest, last⟩, onRest, same⟩ := exists_of_bind_eq_ok compiledRest
      cases same
      have inputPads : ArePads paths inputs _ := arePads_inputs areInputs
      have outputPads : ArePads paths outputs _ := arePads_outputs areOutputs
      have head := compiledAs_filters plain onFilters
      have safe := safeAs_filters plain onFilters builder.inputs.length
      have tail := hypothesis onRest
      rw [head.inputs] at tail
      refine ⟨?_, tail.arguments.trans head.arguments, ?_, ?_⟩
      · rw [chainsParts, List.map_cons, joinedChars_cons]
        simp only [renderAll_append, String.toList_append, render_separator, inputPads.text,
          head.text, outputPads.text, tail.text, List.append_assoc]
        rw [chainChars, List.append_assoc, List.append_assoc]
        rfl
      · refine List.forall_mem_cons.mpr ⟨⟨inputPads.areLabels, ?_, outputPads.areLabels⟩,
          tail.wellFormed⟩
        intro filter member
        obtain ⟨_, -, safeAs⟩ := exists_of_forall₂_mem_right safe member
        exact safeAs.wellFormed
      · rw [chainsParts, List.forall_mem_cons, List.forall_mem_cons, tail.safe]
        exact and_congr_left fun _ => safe_filters_iff safe

end Loops

/-! ## Graphs -/

section Graphs

variable {Number Hash : Type} {format : NumberFormat Number} {paths : PathSlot → String}

/-- The chains, filters, pads and options of a graph. -/
def graphReading (format : NumberFormat Number) (paths : PathSlot → String)
    (builder : PlanBuilder Hash) (graph : FilterGraph Number Hash) : List ChainReading :=
  (chainsParts format paths builder.inputs.length graph.chains).map ChainParts.reading

/-- No arguments for no graph, and otherwise one that is read as the graph. -/
def AreRead (graph : List ChainReading) : List String → Prop
  | [] => graph = []
  | [flag, text] => flag = "-filter_complex" ∧ ReadsAs text graph
  | _ => False

/-- The arguments that were added to the plan are read as the graph. -/
def Emits (paths : PathSlot → String) (builder builder' : PlanBuilder Hash)
    (graph : List ChainReading) : Prop :=
  ∃ added, builder'.arguments = builder.arguments ++ added ∧
    AreRead graph (added.map (ToolArgument.render paths))

theorem emits_iff_of_added {builder builder' : PlanBuilder Hash} {added : List ToolArgument}
    (isAdded : builder'.arguments = builder.arguments ++ added) (graph : List ChainReading) :
    Emits paths builder builder' graph ↔ AreRead graph (added.map (ToolArgument.render paths)) := by
  constructor
  · rintro ⟨others, areOthers, areRead⟩
    rw [isAdded, List.append_cancel_left_eq] at areOthers
    rwa [areOthers]
  · exact fun areRead => ⟨added, isAdded, areRead⟩

/-- With plain paths, a compiled graph is read as it is meant if and only if it is safe. -/
theorem emits_iff (plain : PlainPaths paths) {builder builder' : PlanBuilder Hash}
    {graph : FilterGraph Number Hash}
    (compiled : compileFilterGraph format builder graph = .ok builder') :
    Emits paths builder builder' (graphReading format paths builder graph) ↔ graph.Safe := by
  obtain ⟨chains⟩ := graph
  cases chains with
  | nil =>
      cases compiled
      rw [emits_iff_of_added (List.append_nil _).symm]
      exact iff_of_true rfl (by simp [FilterGraph.Safe])
  | cons chain chains =>
      obtain ⟨⟨parts, middle⟩, onChains, same⟩ := exists_of_bind_eq_ok compiled
      have chainsAre := chainsCompiled plain onChains
      have isText : ((ToolArgument.joined parts).render paths).toList =
          (graphMarks (chainsParts format paths builder.inputs.length
            (chain :: chains))).flatMap Mark.text := by
        rw [text_graph]
        exact chainsAre.text
      have isAdded : builder'.arguments =
          builder.arguments ++ [.literal "-filter_complex", .joined parts] := by
        cases same
        simp [PlanBuilder.literal, PlanBuilder.argument, chainsAre.arguments]
      rw [emits_iff_of_added isAdded]
      exact (and_iff_right rfl).trans ((readsAs_iff chainsAre.wellFormed isText).trans chainsAre.safe)

end Graphs

/-! ## Paths in a container -/

inductive OutputKind where
  | single
  | numbered
  | directory
  | tree

structure ExpectedOutput where
  kind : OutputKind
  extension : String

/-- `clean_extension`. -/
def cleanExtension (extension : String) : String :=
  let cleaned := extension.toList.filter Char.isAlphanum
  if cleaned.isEmpty then "bin" else String.ofList (cleaned.map Char.toLower)

/-- `{id:04}`. -/
def paddedId (id : Nat) : String :=
  String.ofList (List.replicate (4 - (toString id).length) '0') ++ toString id

section Executor

variable {Hash : Type}

/-- `materialize_inputs`, for the path of one input. -/
def inputPath (id : Nat) (input : CasInput Hash) : String :=
  "/work/inputs/input-" ++ paddedId id ++ match input.kind with
    | .blob => "." ++ cleanExtension input.extension
    | .tree => ""

/-- `prepare_outputs`, for the path of one output. -/
def outputPath (id : Nat) (output : ExpectedOutput) : String :=
  "/work/outputs/output-" ++ paddedId id ++ match output.kind with
    | .single => "." ++ cleanExtension output.extension
    | .numbered => "-%06d." ++ cleanExtension output.extension
    | .directory => ""
    | .tree => ""

/-- The paths of the slots of a job; a slot that the job does not have is an error. -/
def executorPath (inputs : List (CasInput Hash)) (outputs : List ExpectedOutput) :
    PathSlot → String
  | .input id => (inputs[id]?.map (inputPath id)).getD ""
  | .inputParent id => (inputs[id]?.map fun _ => "/work/inputs").getD ""
  | .output id => (outputs[id]?.map (outputPath id)).getD ""

theorem isAlphanum_toLower {symbol : Char} (isAlphanum : symbol.isAlphanum = true) :
    symbol.toLower.isAlphanum = true := by
  unfold Char.toLower
  split
  · rename_i isUpper
    delta Char.isAlphanum Char.isAlpha Char.isUpper Char.isLower Char.isDigit
    simp [UInt32.le_iff_toNat_le, UInt32.toNat_add] at isUpper ⊢
    omega
  · exact isAlphanum

theorem plainText_cleanExtension (extension : String) : PlainText (cleanExtension extension) := by
  unfold cleanExtension
  by_cases isEmpty : (extension.toList.filter Char.isAlphanum).isEmpty
  · simp only [isEmpty, if_true]
    decide
  · simp only [isEmpty]
    intro symbol member
    rw [if_neg Bool.false_ne_true, String.toList_ofList, List.mem_map] at member
    obtain ⟨original, inCleaned, rfl⟩ := member
    have isAlphanum : original.isAlphanum = true := (List.mem_filter.mp inCleaned).2
    exact ordinary_of_isAlphanum (isAlphanum_toLower isAlphanum)

theorem plainText_paddedId (id : Nat) : PlainText (paddedId id) := by
  refine plainText_append (fun symbol member => ?_) (plainText_nat id)
  rw [String.toList_ofList] at member
  rw [List.eq_of_mem_replicate member]
  decide

theorem plainText_empty : PlainText "" := by
  decide

theorem plainText_inputPath (id : Nat) (input : CasInput Hash) :
    PlainText (inputPath id input) := by
  have start := plainText_append (by decide : PlainText "/work/inputs/input-") (plainText_paddedId id)
  have extension := plainText_cleanExtension input.extension
  unfold inputPath
  cases input.kind with
  | blob => exact plainText_append start (plainText_append (by decide) extension)
  | tree => exact plainText_append start plainText_empty

theorem plainText_outputPath (id : Nat) (output : ExpectedOutput) :
    PlainText (outputPath id output) := by
  have start := plainText_append (by decide : PlainText "/work/outputs/output-")
    (plainText_paddedId id)
  have extension := plainText_cleanExtension output.extension
  unfold outputPath
  cases output.kind with
  | single => exact plainText_append start (plainText_append (by decide) extension)
  | numbered => exact plainText_append start (plainText_append (by decide) extension)
  | directory => exact plainText_append start plainText_empty
  | tree => exact plainText_append start plainText_empty

theorem plainText_executorPath (inputs : List (CasInput Hash)) (outputs : List ExpectedOutput)
    (slot : PathSlot) : PlainText (executorPath inputs outputs slot) := by
  cases slot with
  | input id =>
      rw [executorPath]
      cases inputs[id]? with
      | none => exact plainText_empty
      | some input => exact plainText_inputPath id input
  | inputParent id =>
      rw [executorPath]
      cases inputs[id]? with
      | none => exact plainText_empty
      | some input => exact (by decide : PlainText "/work/inputs")
  | output id =>
      rw [executorPath]
      cases outputs[id]? with
      | none => exact plainText_empty
      | some output => exact plainText_outputPath id output

/-- The paths in a container have no colon, quote or backslash. -/
theorem plainPaths_executorPath (inputs : List (CasInput Hash)) (outputs : List ExpectedOutput) :
    PlainPaths (executorPath inputs outputs) := by
  intro slot symbol member
  obtain ⟨⟨-, -, -, notQuote, notBackslash⟩, notColon, -⟩ :=
    plainText_executorPath inputs outputs slot symbol member
  exact ⟨notColon, notQuote, notBackslash⟩

/-- The number that follows so many characters of a path. -/
def pathId (skipped : Nat) (path : String) : Nat :=
  Nat.ofDigitChars 10 ((path.toList.drop skipped).takeWhile Char.isDigit) 0

theorem pathId_append (start : String) (id : Nat) {rest : String}
    (ends : rest.toList.takeWhile Char.isDigit = []) :
    pathId start.toList.length (start ++ paddedId id ++ rest) = id := by
  have digits : ∀ symbol ∈ (paddedId id).toList, symbol.isDigit = true := by
    intro symbol member
    rw [paddedId, String.toList_append, String.toList_ofList, List.mem_append] at member
    obtain zero | digit := member
    · rw [List.eq_of_mem_replicate zero]
      rfl
    · rw [Nat.toString_eq_repr, Nat.repr, String.toList_ofList] at digit
      exact Nat.isDigit_of_mem_toDigits (by decide) le_rfl digit
  rw [pathId, String.toList_append, String.toList_append, List.append_assoc, List.drop_left,
    List.takeWhile_append_of_pos digits, ends, List.append_nil, paddedId, String.toList_append,
    String.toList_ofList, Nat.ofDigitChars_append, Nat.ofDigitChars_replicate_zero, Nat.mul_zero,
    Nat.toString_eq_repr, Nat.repr, String.toList_ofList, Nat.ofDigitChars_ten_toDigits]

theorem getElem?_path (start middle rest : String) {index : Nat} {symbol : Char}
    (inStart : start.toList[index]? = some symbol) :
    (start ++ middle ++ rest).toList[index]? = some symbol := by
  obtain ⟨bound, -⟩ := List.getElem?_eq_some_iff.mp inStart
  rw [String.append_assoc, String.toList_append, List.getElem?_append_left bound, inStart]

/-- No two inputs or outputs of a job have one path, whatever their extensions are. -/
theorem paths_distinct (id other : Nat) (input another : CasInput Hash)
    (output further : ExpectedOutput) :
    (inputPath id input = inputPath other another → id = other) ∧
      (outputPath id output = outputPath other further → id = other) ∧
      inputPath id input ≠ outputPath other output := by
  have inputId (id : Nat) (input : CasInput Hash) : pathId 19 (inputPath id input) = id := by
    unfold inputPath
    cases input.kind <;> refine pathId_append "/work/inputs/input-" id ?_ <;> simp
  have outputId (id : Nat) (output : ExpectedOutput) : pathId 21 (outputPath id output) = id := by
    unfold outputPath
    cases output.kind <;> refine pathId_append "/work/outputs/output-" id ?_ <;> simp
  refine ⟨fun same => ?_, fun same => ?_, fun same => ?_⟩
  · rw [← inputId id input, same, inputId]
  · rw [← outputId id output, same, outputId]
  · have isInput : (inputPath id input).toList[6]? = some 'i' :=
      getElem?_path "/work/inputs/input-" _ _ (by decide)
    have isOutput : (outputPath other output).toList[6]? = some 'o' :=
      getElem?_path "/work/outputs/output-" _ _ (by decide)
    cases isInput.symm.trans (same ▸ isOutput)

/-! ## Faithful filter graphs -/

/-- A compiled filter graph is read as the chains, filters, pads and options of the
graph if and only if no string of it has a colon or a quote, and no custom name a comma. -/
theorem filterGraphRoundTrip {Number Hash : Type} (format : NumberFormat Number)
    (inputs : List (CasInput Hash)) (outputs : List ExpectedOutput)
    {builder builder' : PlanBuilder Hash} {graph : FilterGraph Number Hash}
    (compiled : compileFilterGraph format builder graph = .ok builder') :
    Emits (executorPath inputs outputs) builder builder'
        (graphReading format (executorPath inputs outputs) builder graph) ↔ graph.Safe :=
  emits_iff (plainPaths_executorPath inputs outputs) compiled

end Executor

section Examples

theorem plain_repr (number : Nat) (symbol : Char) (member : symbol ∈ number.repr.toList) :
    symbol.isAlphanum = true ∨ symbol = '-' ∨ symbol = '.' := by
  rw [Nat.toList_repr] at member
  have isDigit := Nat.isDigit_of_mem_toDigits (Nat.succ_pos 9) le_rfl member
  exact .inl (by simp [Char.isAlphanum, isDigit])

/-- Whole numbers in the place of floating-point ones. -/
def wholeFormat : NumberFormat Nat where
  text := Nat.repr
  wholeMillis := fun seconds => seconds * 1000
  roundMillis := fun seconds => seconds * 1000
  plain := plain_repr

/-- A text drawn on the first input. -/
def titledGraph (text : String) : FilterGraph Nat Unit :=
  ⟨[⟨[.input ⟨0, .video, none⟩],
    [.video (.drawText ⟨text, "0", "0", some ⟨()⟩, none, 24, ⟨"white"⟩, none, 0⟩)], ["out"]⟩]⟩

theorem safe_titledGraph (text : String) : (titledGraph text).Safe ↔ SafeText text := by
  have plain : ∀ other ∈ ["0", "0", "white"], SafeText other := by
    simp only [List.forall_mem_cons]
    decide
  constructor
  · intro safe
    exact (safe _ List.mem_cons_self _ List.mem_cons_self).strings text List.mem_cons_self
  · intro safeText chain isChain filter isFilter
    rw [List.mem_singleton.mp isChain] at isFilter
    rw [List.mem_singleton.mp isFilter]
    exact ⟨List.forall_mem_cons.mpr ⟨safeText, plain⟩, by simp [mediaNames]⟩

theorem filterGraphRoundTrip_brackets :
    ∃ builder', compileFilterGraph wholeFormat ⟨[], []⟩ (titledGraph "[a,b];\\") = .ok builder' ∧
      Emits (executorPath builder'.inputs []) ⟨[], []⟩ builder'
        (graphReading wholeFormat (executorPath builder'.inputs []) ⟨[], []⟩
          (titledGraph "[a,b];\\")) := by
  refine ⟨_, rfl, (filterGraphRoundTrip wholeFormat _ [] rfl).mpr ?_⟩
  rw [safe_titledGraph]
  decide

theorem not_filterGraphRoundTrip :
    ∃ builder', compileFilterGraph wholeFormat ⟨[], []⟩ (titledGraph "10:30") = .ok builder' ∧
      builder'.arguments.map (ToolArgument.render (executorPath builder'.inputs [])) =
        ["-filter_complex", "[0:v]drawtext=text='10:30':x='0':y='0':fontsize=24:fontcolor='white'" ++
          ":fontfile='/work/inputs/input-0000.font'[out]"] ∧
      ReadsAs ("[0:v]drawtext=text='10:30':x='0':y='0':fontsize=24:fontcolor='white'" ++
          ":fontfile='/work/inputs/input-0000.font'[out]")
        [⟨["0:v"], [⟨"drawtext", ["text=10", "30", "x=0", "y=0", "fontsize=24",
          "fontcolor=white", "fontfile=/work/inputs/input-0000.font"]⟩], ["out"]⟩] ∧
      ¬Emits (executorPath builder'.inputs []) ⟨[], []⟩ builder'
        (graphReading wholeFormat (executorPath builder'.inputs []) ⟨[], []⟩
          (titledGraph "10:30")) := by
  refine ⟨_, rfl, ?_, ?_, fun emits => ?_⟩
  · decide +kernel
  · unfold ReadsAs
    decide +kernel
  · have safe := (emits_iff (plainPaths_executorPath _ []) rfl).mp emits
    rw [safe_titledGraph] at safe
    exact (safe ':' (by decide)).1 rfl

end Examples

end RexLang.Ffmpeg
