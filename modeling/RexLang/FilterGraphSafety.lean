import RexLang.FilterGraphTexts

/-!
# Safe filter graphs

The parts of the filters and pads that the compilation accepts are well formed.
They are safe if and only if the strings and names of the filters are.
-/

namespace RexLang.Ffmpeg

/-! ## Plain parts -/

/-- Between quotes, both readings take the text as it is. -/
def SafeText (text : String) : Prop :=
  ∀ symbol ∈ text.toList, symbol ≠ ':' ∧ symbol ≠ '\''

instance (text : String) : Decidable (SafeText text) :=
  List.decidableBAll (fun symbol => symbol ≠ ':' ∧ symbol ≠ '\'') text.toList

/-- What the code itself writes in an argument has no other meaning. -/
structure PlainArgument (argument : ArgumentParts) : Prop where
  key : PlainText argument.key
  raw : ∀ symbol ∈ argument.raw.toList, Mark.Ordinary symbol ∧ symbol ≠ ':'

theorem PlainText.raw {text : String} (plain : PlainText text) :
    ∀ symbol ∈ text.toList, Mark.Ordinary symbol ∧ symbol ≠ ':' :=
  fun symbol member => ⟨(plain symbol member).1, (plain symbol member).2.1⟩

theorem PlainText.noComma {text : String} (plain : PlainText text) : ',' ∉ text.toList :=
  fun member => (plain ',' member).2.2 rfl

@[simp]
theorem plainArgument_raw {key raw : String} (plainKey : PlainText key) (plain : PlainText raw) :
    PlainArgument (rawArgument key raw) :=
  ⟨plainKey, plain.raw⟩

@[simp]
theorem plainArgument_quoted {key : String} (plainKey : PlainText key) (value : String) :
    PlainArgument (quotedArgument key value) :=
  ⟨plainKey, by simp [quotedArgument]⟩

@[simp]
theorem plainArgument_scale {whole : String} (plain : PlainText whole) (size : Int)
    (preventUpscale : Bool) : PlainArgument (scaleArgument whole size preventUpscale) := by
  refine ⟨by simp [scaleArgument, rawArgument, PlainText], ?_⟩
  unfold scaleArgument rawArgument
  split_ifs
  · intro symbol member
    simp only [String.toList_append, List.mem_append] at member
    rcases member with ((((inOpen | inWhole) | inComma) | inSize) | inClose)
    · exact (by decide : PlainText "min(").raw symbol inOpen
    · exact plain.raw symbol inWhole
    · rw [List.mem_singleton.mp inComma]
      decide
    · exact (plainText_int size).raw symbol inSize
    · exact (by decide : PlainText ")").raw symbol inClose
  · exact (plainText_int size).raw

theorem plainArgument_listed {arguments : List ArgumentParts}
    (plain : ∀ argument ∈ arguments, PlainArgument argument) :
    ∀ argument ∈ listedArguments arguments, PlainArgument argument := by
  unfold listedArguments
  split_ifs
  · rw [List.forall_mem_singleton]
    exact plainArgument_raw (by decide) (by decide)
  · exact plain

/-! ## Safe filters -/

/-- The parts are well formed, and safe when these strings and names are. -/
structure SafeAs (parts : FilterParts) (strings names : List String) : Prop where
  wellFormed : parts.WellFormed
  safe : parts.Safe ↔ (∀ text ∈ strings, SafeText text) ∧ ∀ name ∈ names, ',' ∉ name.toList

def quotedValues (arguments : List ArgumentParts) : List String :=
  arguments.filterMap ArgumentParts.value

theorem forall_value_iff (arguments : List ArgumentParts) :
    (∀ argument ∈ arguments, ∀ value ∈ argument.value, SafeText value) ↔
      ∀ value ∈ quotedValues arguments, SafeText value := by
  unfold quotedValues
  constructor
  · intro safe value member
    obtain ⟨argument, isArgument, isValue⟩ := List.mem_filterMap.mp member
    exact safe argument isArgument value isValue
  · intro safe argument isArgument value isValue
    exact safe value (List.mem_filterMap.mpr ⟨argument, isArgument, isValue⟩)

theorem safeAs_of_plain {name : String} (plainName : PlainText name ∧ '=' ∉ name.toList)
    {arguments : List ArgumentParts} (plain : ∀ argument ∈ arguments, PlainArgument argument)
    {strings : List String}
    (values : (∀ value ∈ quotedValues arguments, SafeText value) ↔
      ∀ text ∈ strings, SafeText text) : SafeAs ⟨name, arguments⟩ strings [] where
  wellFormed :=
    { name := fun symbol member =>
        ⟨(plainName.1 symbol member).1, fun isEquals => plainName.2 (isEquals ▸ member)⟩
      arguments := fun argument isArgument =>
        { key := (plain argument isArgument).key.raw
          raw := (plain argument isArgument).raw } }
  safe := by
    rw [← values, ← forall_value_iff]
    constructor
    · intro safe
      exact ⟨fun argument isArgument => (safe.arguments argument isArgument).value, by simp⟩
    · rintro ⟨safe, -⟩
      exact ⟨plainName.1.noComma, fun argument isArgument =>
        ⟨(plain argument isArgument).key.noComma, safe argument isArgument⟩⟩

/-! ## Custom filters -/

/-- A checked name has no character with a meaning but the comma. -/
theorem ordinary_of_checkedName {value context name : String}
    (checked : checkedName value context = .ok name) :
    ∀ symbol ∈ value.toList, Mark.Ordinary symbol ∧ symbol ≠ ':' ∧ symbol ≠ '=' := by
  intro symbol member
  rcases (of_checkedName checked).2 symbol member with isAlphanum | isMark
  · have plain := ordinary_of_isAlphanum isAlphanum
    refine ⟨plain.1, plain.2.1, ?_⟩
    rintro rfl
    revert isAlphanum
    decide
  · rcases isMark with rfl | rfl | rfl | rfl <;> decide

theorem safeAs_option {option : FilterOption} {text : String}
    (written : optionText option = .ok text) :
    (optionArgument option).WellFormed ∧ ((optionArgument option).Safe ↔
      SafeText option.value ∧ ∀ name ∈ option.name, ',' ∉ name.toList) := by
  unfold optionText at written
  obtain ⟨name, value⟩ := option
  cases name with
  | none =>
      refine ⟨⟨by simp [optionArgument, quotedArgument], by simp [optionArgument, quotedArgument]⟩,
        ?_⟩
      constructor
      · intro safe
        exact ⟨safe.value value rfl, by simp⟩
      · rintro ⟨safe, -⟩
        exact ⟨by simp [optionArgument, quotedArgument], fun other same => by cases same; exact safe⟩
  | some name =>
      obtain ⟨checked, isChecked, -⟩ := exists_of_bind_eq_ok written
      have ordinary := ordinary_of_checkedName isChecked
      have isKey : (optionArgument ⟨some name, value⟩).key.toList = name.toList ++ ['='] := by
        simp [optionArgument, quotedArgument]
      refine ⟨⟨?_, by simp [optionArgument, quotedArgument]⟩, ?_⟩
      · rw [isKey]
        intro symbol member
        rcases List.mem_append.mp member with inName | isEquals
        · exact ⟨(ordinary symbol inName).1, (ordinary symbol inName).2.1⟩
        · rw [List.mem_singleton.mp isEquals]
          decide
      · have noComma : ',' ∉ (optionArgument ⟨some name, value⟩).key.toList ↔
            ',' ∉ name.toList := by
          rw [isKey]
          simp
        constructor
        · intro safe
          exact ⟨safe.value value rfl, fun other same => by
            cases same
            exact noComma.1 safe.key⟩
        · rintro ⟨safe, names⟩
          exact ⟨noComma.2 (names name rfl), fun other same => by
            cases same
            exact safe⟩

theorem safeAs_custom {name text : String} {options : List FilterOption}
    (written : customFilterText name options = .ok text) :
    SafeAs (customParts name options) (options.map FilterOption.value)
      (customNames name options) := by
  unfold customFilterText at written
  obtain ⟨checked, isChecked, isWritten⟩ := exists_of_bind_eq_ok written
  have eachOption : ∀ option ∈ options, (optionArgument option).WellFormed ∧
      ((optionArgument option).Safe ↔
        SafeText option.value ∧ ∀ name ∈ option.name, ',' ∉ name.toList) := by
    cases options with
    | nil => simp
    | cons option options =>
        obtain ⟨texts, areTexts, -⟩ := exists_of_bind_eq_ok isWritten
        intro other isOther
        obtain ⟨text, -, isText⟩ := exists_of_forall₂_mem_left (forall₂_of_mapM areTexts) isOther
        exact safeAs_option isText
  refine ⟨⟨fun symbol member => ?_, ?_⟩, ?_⟩
  · have ordinary := ordinary_of_checkedName isChecked symbol member
    exact ⟨ordinary.1, ordinary.2.2⟩
  · rw [customParts, List.forall_mem_map]
    exact fun option isOption => (eachOption option isOption).1
  · have arguments : (∀ argument ∈ options.map optionArgument, argument.Safe) ↔
        (∀ option ∈ options, SafeText option.value) ∧
          ∀ option ∈ options, ∀ name ∈ option.name, ',' ∉ name.toList := by
      rw [List.forall_mem_map, ← forall₂_and]
      exact forall₂_congr fun option isOption => (eachOption option isOption).2
    have names : (∀ name ∈ options.filterMap FilterOption.name, ',' ∉ name.toList) ↔
        ∀ option ∈ options, ∀ name ∈ option.name, ',' ∉ name.toList := by
      simp only [List.mem_filterMap, Option.mem_def]
      constructor
      · exact fun all option isOption name isName => all name ⟨option, isOption, isName⟩
      · rintro all name ⟨option, isOption, isName⟩
        exact all option isOption name isName
    rw [customNames, List.forall_mem_cons, List.forall_mem_map, names]
    constructor
    · intro safe
      have both := arguments.mp safe.arguments
      exact ⟨both.1, safe.name, both.2⟩
    · rintro ⟨strings, isName, optionNames⟩
      exact ⟨isName, arguments.mpr ⟨strings, optionNames⟩⟩

/-! ## Typed filters -/

section Typed

variable {Number Hash : Type} {format : NumberFormat Number} {paths : PathSlot → String}

theorem safeText_path (plain : PlainPaths paths) (slot : PathSlot) : SafeText (paths slot) :=
  fun symbol member => ⟨(plain slot symbol member).1, (plain slot symbol member).2.1⟩

theorem safeAs_drawText (plain : PlainPaths paths) (next : Nat)
    (draw : DrawTextFilter Number Hash) :
    SafeAs (drawTextParts format paths next draw)
      (videoStrings (.drawText draw : VideoFilter Number Hash)) [] := by
  obtain ⟨text, x, y, fontFile, fontFamily, fontSize, fontColor, boxColor, boxBorder⟩ := draw
  refine safeAs_of_plain (by decide) ?_ ?_
  · cases fontFile <;> cases fontFamily <;> cases boxColor <;> simp +decide
  · have safePath := safeText_path plain
    cases fontFile <;> cases fontFamily <;> cases boxColor <;>
      simp [quotedValues, quotedArgument, rawArgument, videoStrings, safePath]

theorem safeAs_subtitles (plain : PlainPaths paths) (next : Nat)
    (subtitles : SubtitleFilter Hash) :
    SafeAs (subtitlesParts paths next subtitles)
      (videoStrings (.burnSubtitles subtitles : VideoFilter Number Hash)) [] := by
  obtain ⟨subtitle, streamIndex, fonts, forceStyle⟩ := subtitles
  refine safeAs_of_plain (by decide) ?_ ?_
  · cases streamIndex <;> cases fonts <;> cases forceStyle <;> simp +decide
  · have safePath := safeText_path plain
    cases streamIndex <;> cases fonts <;> cases forceStyle <;>
      simp [quotedValues, quotedArgument, rawArgument, videoStrings, safePath]

theorem safeAs_video (plain : PlainPaths paths) (next : Nat) {builder builder' : PlanBuilder Hash}
    {filter : VideoFilter Number Hash} {parts : List ToolArgument}
    (compiled : compileVideoFilter format builder filter = .ok (parts, builder')) :
    SafeAs (videoParts format paths next filter) (videoStrings filter)
      (mediaNames (.video filter)) := by
  cases filter with
  | drawText draw => exact safeAs_drawText plain next draw
  | burnSubtitles subtitles => exact safeAs_subtitles plain next subtitles
  | custom name options =>
      obtain ⟨text, written, -⟩ := exists_of_bind_eq_ok compiled
      exact safeAs_custom written
  | scale scale =>
      obtain ⟨width, height, algorithm, preserveAspectRatio, preventUpscale⟩ := scale
      refine safeAs_of_plain (by decide) ?_ ?_
      · cases algorithm <;> cases preserveAspectRatio <;> simp +decide
      · cases algorithm <;> cases preserveAspectRatio <;>
          simp [quotedValues, quotedArgument, rawArgument, scaleArgument, videoStrings]
  | rotate rotate =>
      obtain ⟨radians, outputWidth, outputHeight⟩ := rotate
      refine safeAs_of_plain (by decide) ?_ ?_
      · cases outputWidth <;> cases outputHeight <;> simp +decide
      · cases outputWidth <;> cases outputHeight <;>
          simp [quotedValues, rawArgument, videoStrings]
  | equalizer equalizer =>
      obtain ⟨brightness, contrast, saturation, gamma⟩ := equalizer
      refine safeAs_of_plain (by decide) (plainArgument_listed ?_) ?_
      · cases brightness <;> cases contrast <;> cases saturation <;> cases gamma <;> simp +decide
      · cases brightness <;> cases contrast <;> cases saturation <;> cases gamma <;>
          simp [listedArguments, quotedValues, rawArgument, videoStrings]
  | _ =>
      refine safeAs_of_plain (by decide) ?_ ?_
      · simp +decide
      · simp [quotedValues, quotedArgument, rawArgument, videoStrings]

theorem safeAs_audio {filter : AudioFilter Number} {text : String}
    (written : audioFilterText format filter = .ok text) :
    SafeAs (audioParts format filter) (mediaStrings (.audio filter : MediaFilter Number Hash))
      (mediaNames (.audio filter : MediaFilter Number Hash)) := by
  cases filter with
  | custom name options => exact safeAs_custom written
  | delay delays =>
      have plain : PlainText ("|".intercalate
          (delays.map fun time => toString (format.wholeMillis time.seconds))) := by
        refine plainText_intercalate (by decide) fun text isText => ?_
        obtain ⟨time, -, rfl⟩ := List.mem_map.mp isText
        exact plainText_int _
      refine safeAs_of_plain (by decide) ?_ ?_
      · rw [List.forall_mem_singleton]
        exact plainArgument_raw (by decide) plain
      · simp [quotedValues, rawArgument, mediaStrings]
  | removeSilence threshold duration =>
      have plain : PlainText (format.text threshold ++ "dB") :=
        plainText_append (plainText_number format threshold) (by decide)
      refine safeAs_of_plain (by decide) ?_ ?_
      · simp +decide [plain]
      · simp [quotedValues, rawArgument, mediaStrings]
  | _ =>
      refine safeAs_of_plain (by decide) ?_ ?_
      · simp +decide
      · simp [quotedValues, quotedArgument, rawArgument, mediaStrings]

theorem safeAs_trim {name : String} (plainName : PlainText name ∧ '=' ∉ name.toList)
    (range : TimeRange Number) : SafeAs (trimParts format name range) [] [] := by
  obtain ⟨start, duration⟩ := range
  refine safeAs_of_plain plainName (plainArgument_listed ?_) ?_
  · cases start <;> cases duration <;> simp +decide
  · cases start <;> cases duration <;> simp [listedArguments, quotedValues, rawArgument]

/-- The parts of a compiled filter are safe if and only if the filter is. -/
theorem safeAs_media (plain : PlainPaths paths) (next : Nat) {builder builder' : PlanBuilder Hash}
    {filter : MediaFilter Number Hash} {parts : List ToolArgument}
    (compiled : compileMediaFilter format builder filter = .ok (parts, builder')) :
    SafeAs (mediaParts format paths next filter) (mediaStrings filter) (mediaNames filter) := by
  cases filter with
  | video filter => exact safeAs_video plain next compiled
  | audio filter =>
      obtain ⟨text, written, -⟩ := exists_of_bind_eq_ok compiled
      exact safeAs_audio written
  | trimVideo range => exact safeAs_trim (by decide) range
  | trimAudio range => exact safeAs_trim (by decide) range
  | custom name options =>
      obtain ⟨text, written, -⟩ := exists_of_bind_eq_ok compiled
      exact safeAs_custom written
  | _ =>
      refine safeAs_of_plain (by decide) ?_ ?_
      · simp +decide
      · simp [quotedValues, rawArgument, mediaStrings]

end Typed

/-! ## Pads -/

theorem isLabel_of_checkedLabel {value label : String} (checked : checkedLabel value = .ok label) :
    label = value ∧ IsLabel value := by
  unfold checkedLabel at checked
  split_ifs at checked with invalid
  cases checked
  refine ⟨rfl, fun symbol member => ?_⟩
  rw [Bool.or_eq_true, not_or, Bool.not_eq_true', Bool.not_eq_false, List.all_eq_true] at invalid
  have allowed : symbol.isAlphanum = true ∨ symbol = '_' ∨ symbol = '-' := by
    simpa [or_assoc] using invalid.2 symbol member
  rcases allowed with isAlphanum | rfl | rfl
  · exact ⟨(ordinary_of_isAlphanum isAlphanum).1, (ordinary_of_isAlphanum isAlphanum).2.2⟩
  · decide
  · decide

theorem kindLetter_of_ok {kind : MediaKind} {letter : String}
    (isLetter : streamKindLetter kind = .ok letter) :
    letter = kindLetter kind ∧ PlainText letter := by
  cases kind with
  | unknown name => cases isLetter
  | _ =>
      cases isLetter
      exact ⟨rfl, by decide⟩

theorem PlainText.isLabel {text : String} (plain : PlainText text) : IsLabel text :=
  fun symbol member => ⟨(plain symbol member).1, (plain symbol member).2.2⟩

theorem isLabel_append {first second : String} (isFirst : IsLabel first)
    (isSecond : IsLabel second) : IsLabel (first ++ second) := by
  intro symbol member
  rw [String.toList_append, List.mem_append] at member
  exact member.elim (isFirst symbol) (isSecond symbol)

theorem isLabel_colon : IsLabel ":" := by
  intro symbol member
  rw [List.mem_singleton.mp member]
  decide

theorem isLabel_of_filterPadName {pad : FilterPad} {name : String}
    (named : filterPadName pad = .ok name) : name = padLabel pad ∧ IsLabel name := by
  cases pad with
  | link label =>
      obtain ⟨rfl, isLabel⟩ := isLabel_of_checkedLabel named
      exact ⟨rfl, isLabel⟩
  | input stream =>
      obtain ⟨input, kind, index⟩ := stream
      obtain ⟨letter, isLetter, isName⟩ := exists_of_bind_eq_ok named
      obtain ⟨rfl, plainLetter⟩ := kindLetter_of_ok isLetter
      have isStart : IsLabel (toString input ++ ":" ++ kindLetter kind) :=
        isLabel_append (isLabel_append (plainText_nat input).isLabel isLabel_colon)
          plainLetter.isLabel
      cases isName
      cases index with
      | none => exact ⟨by simp [padLabel], isStart⟩
      | some index =>
          exact ⟨by simp [padLabel], isLabel_append isStart
            (isLabel_append isLabel_colon (plainText_nat index).isLabel)⟩

end RexLang.Ffmpeg
