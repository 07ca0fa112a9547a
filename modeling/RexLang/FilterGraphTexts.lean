import RexLang.FallibleResults
import RexLang.FilterGraphParts

/-!
# The texts of filter graphs

What the compilation writes for a filter graph is the text of its parts, which are
well formed, and safe when the strings of the graph are.
-/

namespace RexLang.Ffmpeg

/-! ## Characters -/

/-- A comma of a raw text is written after a backslash. -/
def escapeComma (symbol : Char) : List Char :=
  if symbol = ',' then ['\\', ','] else [symbol]

theorem text_rawMark (symbol : Char) : (rawMark symbol).text = escapeComma symbol := by
  unfold rawMark escapeComma
  split_ifs <;> rfl

theorem text_plainMarks (text : String) : (plainMarks text).flatMap Mark.text = text.toList := by
  have each (symbol : Char) : (Mark.plain symbol).text = [symbol] := rfl
  exact (flatMap_map_eq_map each text.toList).trans (List.map_id text.toList)

theorem toList_quoteFilterValue (value : String) :
    (quoteFilterValue value).toList = (Mark.quoted value.toList).text := by
  have escaped (symbols : List Char) :
      (symbols.flatMap fun symbol => if symbol = '\\' then ['\\', '\\'] else [symbol]).flatMap
        (fun symbol => if symbol = '\'' then ['\\', '\''] else [symbol]) =
      symbols.flatMap escapeFilterChar := by
    rw [List.flatMap_assoc]
    congr
    ext symbol : 1
    unfold escapeFilterChar
    by_cases isBackslash : symbol = '\\'
    · simp [isBackslash]
    · simp [isBackslash]
  simp [quoteFilterValue, replaceChar, Mark.text, ← escaped]

/-- The characters of an argument. -/
def argumentChars (argument : ArgumentParts) : List Char :=
  argument.key.toList ++ (argument.raw.toList.flatMap escapeComma ++
    (argument.value.map fun value => (quoteFilterValue value).toList).getD [])

theorem text_argument (argument : ArgumentParts) :
    argument.marks.flatMap Mark.text = argumentChars argument := by
  unfold ArgumentParts.marks argumentChars ArgumentParts.valueMarks
  rw [List.flatMap_append, List.flatMap_append, text_plainMarks, List.flatMap_map]
  simp only [text_rawMark]
  cases argument.value with
  | none => rfl
  | some value => simp [toList_quoteFilterValue]

/-- The characters of a filter. -/
def filterChars (filter : FilterParts) : List Char :=
  filter.name.toList ++ if filter.arguments.isEmpty then []
    else '=' :: [':'].intercalate (filter.arguments.map argumentChars)

theorem text_filter (filter : FilterParts) :
    filter.marks.flatMap Mark.text = filterChars filter := by
  unfold FilterParts.marks filterChars
  rw [List.flatMap_append, text_plainMarks]
  cases filter.arguments with
  | nil => rfl
  | cons argument arguments =>
      rw [List.map_cons, argumentMarks, List.flatMap_cons, flatMap_intercalate, List.map_cons,
        List.map_map]
      · simp only [Function.comp_def, text_argument]
        rfl
      · simp

/-! ## Plain texts -/

instance (symbol : Char) : Decidable (Mark.Ordinary symbol) :=
  inferInstanceAs (Decidable (_ ∧ _))

/-- Both readings take the text as it is. -/
def PlainText (text : String) : Prop :=
  ∀ symbol ∈ text.toList, Mark.Ordinary symbol ∧ symbol ≠ ':' ∧ symbol ≠ ','

instance (text : String) : Decidable (PlainText text) :=
  List.decidableBAll (fun symbol => Mark.Ordinary symbol ∧ symbol ≠ ':' ∧ symbol ≠ ',') text.toList

theorem ordinary_of_isAlphanum {symbol : Char} (isAlphanum : symbol.isAlphanum = true) :
    Mark.Ordinary symbol ∧ symbol ≠ ':' ∧ symbol ≠ ',' := by
  refine ⟨⟨?_, ?_, ?_, ?_, ?_⟩, ?_, ?_⟩
  all_goals
    rintro rfl
    revert isAlphanum
    decide

theorem plainText_append {first second : String} (plainFirst : PlainText first)
    (plainSecond : PlainText second) : PlainText (first ++ second) := by
  intro symbol member
  rw [String.toList_append, List.mem_append] at member
  exact member.elim (plainFirst symbol) (plainSecond symbol)

@[simp]
theorem plainText_nat (number : Nat) : PlainText number.repr := by
  intro symbol member
  rw [Nat.toList_repr] at member
  have isDigit := Nat.isDigit_of_mem_toDigits (by decide) (by decide) member
  exact ordinary_of_isAlphanum (by simp [Char.isAlphanum, isDigit])

@[simp]
theorem plainText_int (number : Int) : PlainText number.repr := by
  unfold Int.repr
  cases number with
  | ofNat number => exact plainText_nat number
  | negSucc number => exact plainText_append (by decide) (plainText_nat _)

@[simp]
theorem plainText_number {Number : Type} (format : NumberFormat Number) (number : Number) :
    PlainText (format.text number) := by
  intro symbol member
  rcases format.plain number symbol member with isAlphanum | rfl | rfl
  · exact ordinary_of_isAlphanum isAlphanum
  · decide
  · decide

@[simp]
theorem plainText_seconds {Number : Type} (format : NumberFormat Number) (time : Time Number) :
    PlainText (seconds format time) :=
  plainText_number format time.seconds

@[simp]
theorem plainText_fadeDirection (direction : FadeDirection) :
    PlainText (fadeDirection direction) := by
  cases direction <;> decide

@[simp]
theorem plainText_transposeName (direction : TransposeDirection) :
    PlainText (transposeName direction) := by
  cases direction <;> decide

@[simp]
theorem plainText_flagText (flag : Bool) : PlainText (flagText flag) := by
  cases flag <;> decide

@[simp]
theorem plainText_rationalText (value : Rational) : PlainText (rationalText value) :=
  plainText_append (plainText_append (plainText_int _) (by decide)) (plainText_int _)

theorem plainText_intercalate {separator : String} (plainSeparator : PlainText separator)
    {texts : List String} (plainTexts : ∀ text ∈ texts, PlainText text) :
    PlainText (separator.intercalate texts) := by
  intro symbol member
  rw [String.toList_intercalate] at member
  rcases mem_intercalate member with inSeparator | ⟨_, isChars, inText⟩
  · exact plainSeparator symbol inSeparator
  · obtain ⟨text, isText, rfl⟩ := List.mem_map.mp isChars
    exact plainTexts text isText symbol inText

theorem flatMap_escapeComma {symbols : List Char} (noComma : ',' ∉ symbols) :
    symbols.flatMap escapeComma = symbols := by
  induction symbols with
  | nil => rfl
  | cons symbol symbols hypothesis =>
      rw [List.mem_cons, not_or] at noComma
      rw [List.flatMap_cons, hypothesis noComma.2, escapeComma, if_neg (Ne.symm noComma.1)]
      rfl

@[simp]
theorem argumentChars_raw {raw : String} (plain : PlainText raw) (key : String) :
    argumentChars (rawArgument key raw) = key.toList ++ raw.toList := by
  have noComma : ',' ∉ raw.toList := fun isComma => (plain ',' isComma).2.2 rfl
  unfold argumentChars rawArgument
  rw [flatMap_escapeComma noComma]
  simp

@[simp]
theorem argumentChars_quoted (key value : String) :
    argumentChars (quotedArgument key value) = key.toList ++ (quoteFilterValue value).toList := by
  simp [argumentChars, quotedArgument]

/-! ## Texts of filters -/

section Texts

variable {Number Hash : Type} {format : NumberFormat Number} {paths : PathSlot → String}

theorem text_scaleSize (whole : String) (plain : PlainText whole) (size : Int)
    (preventUpscale : Bool) :
    argumentChars (scaleArgument whole size preventUpscale) =
      (scaleSize whole size preventUpscale).toList := by
  unfold scaleArgument scaleSize
  split_ifs
  · have noCommaWhole : ',' ∉ whole.toList := fun isComma => (plain ',' isComma).2.2 rfl
    have noCommaSize : ',' ∉ (toString size).toList := fun isComma =>
      (plainText_int size ',' isComma).2.2 rfl
    simp only [argumentChars, rawArgument, String.toList_append, List.flatMap_append,
      flatMap_escapeComma noCommaWhole, flatMap_escapeComma noCommaSize]
    simp [escapeComma]
  · simp

theorem exists_of_rational {value : Rational} {text : String} {prefixText : String}
    (written : (do
      let rate ← rational value
      return prefixText ++ rate) = Except.ok text) : text = prefixText ++ rationalText value := by
  unfold rational validateRational at written
  split_ifs at written
  · cases written
  · cases written
    rfl

theorem of_checkedName {value context name : String} (checked : checkedName value context = .ok name) :
    name = value ∧ ∀ symbol ∈ value.toList,
      symbol.isAlphanum = true ∨ symbol = '_' ∨ symbol = '-' ∨ symbol = '.' ∨ symbol = ',' := by
  unfold checkedName requireName at checked
  split_ifs at checked with invalid
  · cases checked
  · cases checked
    refine ⟨rfl, fun symbol member => ?_⟩
    rw [Bool.or_eq_true, not_or, Bool.not_eq_true', Bool.not_eq_false, List.all_eq_true] at invalid
    simpa [or_assoc] using invalid.2 symbol member

theorem text_optionArgument {option : FilterOption} {text : String}
    (written : optionText option = .ok text) :
    text.toList = argumentChars (optionArgument option) := by
  unfold optionText at written
  unfold optionArgument
  rw [argumentChars_quoted]
  cases isName : option.name with
  | none =>
      rw [isName] at written
      cases written
      simp
  | some name =>
      rw [isName] at written
      obtain ⟨checked, isChecked, isText⟩ := exists_of_bind_eq_ok written
      cases (of_checkedName isChecked).1
      cases isText
      simp

theorem text_optionArguments {options : List FilterOption} {texts : List String}
    (written : options.mapM optionText = .ok texts) :
    texts.map String.toList = options.map (argumentChars ∘ optionArgument) := by
  have all := forall₂_of_mapM written
  clear written
  induction all with
  | nil => rfl
  | cons isText _ hypothesis =>
      rw [List.map_cons, List.map_cons, hypothesis, text_optionArgument isText]
      rfl

theorem text_customParts {name text : String} {options : List FilterOption}
    (written : customFilterText name options = .ok text) :
    text.toList = filterChars (customParts name options) := by
  unfold customFilterText at written
  obtain ⟨checked, isChecked, isWritten⟩ := exists_of_bind_eq_ok written
  cases (of_checkedName isChecked).1
  cases options with
  | nil =>
      cases isWritten
      simp [customParts, filterChars]
  | cons option options =>
      obtain ⟨texts, areTexts, isText⟩ := exists_of_bind_eq_ok isWritten
      cases isText
      rw [customParts, filterChars, List.map_map, ← text_optionArguments areTexts]
      simp

/-- Joined texts of optional settings are the characters of the listed arguments. -/
theorem text_listedArguments {name text : String} {arguments : List ArgumentParts}
    {texts : List String} (chars : texts.map String.toList = arguments.map argumentChars)
    (written : text = name ++ "=" ++ ":".intercalate texts) :
    text.toList = filterChars ⟨name, listedArguments arguments⟩ := by
  subst written
  unfold listedArguments
  cases arguments with
  | nil =>
      obtain rfl : texts = [] := by simpa using chars
      simp [filterChars, rawArgument, argumentChars]
  | cons argument arguments => simp [filterChars, chars]

/-- What the text of a video filter says. -/
theorem text_videoParts (paths : PathSlot → String) {filter : VideoFilter Number Hash}
    {text : String} (written : videoFilterText format filter = .ok text) (next : Nat) :
    text.toList = filterChars (videoParts format paths next filter) := by
  cases filter with
  | scale scale =>
      obtain ⟨width, height, algorithm, preserveAspectRatio, preventUpscale⟩ := scale
      cases written
      cases algorithm <;> cases preserveAspectRatio <;>
        simp [videoParts, filterChars, text_scaleSize "iw" (by decide),
          text_scaleSize "ih" (by decide), (by decide : PlainText "decrease")]
  | frameRate rate =>
      rw [exists_of_rational written]
      simp [videoParts, filterChars]
  | setSampleAspectRatio ratio =>
      rw [exists_of_rational written]
      simp [videoParts, filterChars]
  | setDisplayAspectRatio ratio =>
      rw [exists_of_rational written]
      simp [videoParts, filterChars]
  | rotate rotate =>
      obtain ⟨radians, outputWidth, outputHeight⟩ := rotate
      cases written
      cases outputWidth <;> cases outputHeight <;> simp [videoParts, filterChars]
  | sharpen amount =>
      cases written
      simp [videoParts, filterChars, (by decide : PlainText "5")]
  | equalizer equalizer =>
      obtain ⟨brightness, contrast, saturation, gamma⟩ := equalizer
      cases written
      refine text_listedArguments ?_ rfl
      cases brightness <;> cases contrast <;> cases saturation <;> cases gamma <;> simp
  | custom name options => exact text_customParts written
  | drawText draw => cases written
  | burnSubtitles subtitles => cases written
  | _ =>
      cases written
      simp [videoParts, filterChars]

theorem text_audioParts {filter : AudioFilter Number} {text : String}
    (written : audioFilterText format filter = .ok text) :
    text.toList = filterChars (audioParts format filter) := by
  cases filter with
  | delay delays =>
      have plain : PlainText ("|".intercalate
          (delays.map fun time => toString (format.wholeMillis time.seconds))) := by
        refine plainText_intercalate (by decide) fun text isText => ?_
        obtain ⟨time, -, rfl⟩ := List.mem_map.mp isText
        exact plainText_int _
      cases written
      simp only [audioParts, filterChars, List.isEmpty_cons, List.map_cons, List.map_nil,
        List.intercalate_singleton, argumentChars_raw plain]
      simp
  | equalizer frequency width gain =>
      cases written
      simp [audioParts, filterChars, (by decide : PlainText "h")]
  | removeSilence threshold duration =>
      have plain : PlainText (format.text threshold ++ "dB") :=
        plainText_append (plainText_number format threshold) (by decide)
      cases written
      simp [audioParts, filterChars, plain, (by decide : PlainText "1")]
  | custom name options => exact text_customParts written
  | _ =>
      cases written
      simp [audioParts, filterChars]

theorem text_trimParts (name : String) (range : TimeRange Number) :
    (trimFilter format name range).toList = filterChars (trimParts format name range) := by
  obtain ⟨start, duration⟩ := range
  refine text_listedArguments ?_ rfl
  cases start <;> cases duration <;> simp

/-! ## Compiled filters -/

theorem renderAll_append (paths : PathSlot → String) (first second : List ToolArgument) :
    ToolArgument.renderAll paths (first ++ second) =
      ToolArgument.renderAll paths first ++ ToolArgument.renderAll paths second := by
  induction first with
  | nil => simp [ToolArgument.renderAll]
  | cons part first hypothesis =>
      simp only [List.cons_append, ToolArgument.renderAll, hypothesis, String.append_assoc]

/-- Between quotes, a plain path is a quoted value. -/
theorem quoteFilterValue_path (plain : PlainPaths paths) (slot : PathSlot) :
    quoteFilterValue (paths slot) = "'" ++ paths slot ++ "'" := by
  have escaped : (paths slot).toList.flatMap escapeFilterChar = (paths slot).toList := by
    have ordinary := plain slot
    generalize (paths slot).toList = symbols at ordinary ⊢
    induction symbols with
    | nil => rfl
    | cons symbol symbols hypothesis =>
        obtain ⟨⟨-, notQuote, notBackslash⟩, rest⟩ := List.forall_mem_cons.mp ordinary
        rw [List.flatMap_cons, hypothesis rest, escapeFilterChar, if_neg notBackslash,
          if_neg notQuote]
        rfl
  apply String.toList_inj.mp
  rw [toList_quoteFilterValue, Mark.text, escaped]
  simp

/-- A compiled filter is written as its parts; it only adds inputs to the plan. -/
structure CompiledAs (paths : PathSlot → String) (builder builder' : PlanBuilder Hash)
    (parts : List ToolArgument) (chars : List Char) (count : Nat) : Prop where
  text : (ToolArgument.renderAll paths parts).toList = chars
  inputs : builder'.inputs.length = builder.inputs.length + count
  arguments : builder'.arguments = builder.arguments

theorem compiledAs_literal {builder : PlanBuilder Hash} {text : String} {chars : List Char}
    (isText : text.toList = chars) :
    CompiledAs paths builder builder [.literal text] chars 0 where
  text := by simpa [ToolArgument.renderAll, ToolArgument.render] using isText
  inputs := rfl
  arguments := rfl

theorem compiledAs_drawText (plain : PlainPaths paths) (builder : PlanBuilder Hash)
    (draw : DrawTextFilter Number Hash) :
    CompiledAs paths builder (compileDrawText format builder draw).2
      (compileDrawText format builder draw).1
      (filterChars (drawTextParts format paths builder.inputs.length draw))
      draw.fontFile.toList.length := by
  obtain ⟨text, x, y, fontFile, fontFamily, fontSize, fontColor, boxColor, boxBorder⟩ := draw
  refine ⟨?_, ?_, ?_⟩
  · cases fontFile <;> cases fontFamily <;> cases boxColor <;>
      simp [compileDrawText, compileFont, PlanBuilder.inputBlob, drawTextParts, filterChars,
        ToolArgument.renderAll, ToolArgument.render, ToolArgument.input,
        quoteFilterValue_path plain, (by decide : PlainText "1")]
  · cases fontFile <;> simp [compileDrawText, compileFont, PlanBuilder.inputBlob]
  · cases fontFile <;> simp [compileDrawText, compileFont, PlanBuilder.inputBlob]

theorem inputs_inputFonts (builder : PlanBuilder Hash) (fonts : List (Media Hash)) :
    (inputFonts builder fonts).2.inputs.length = builder.inputs.length + fonts.length ∧
      (inputFonts builder fonts).2.arguments = builder.arguments := by
  induction fonts generalizing builder with
  | nil => exact ⟨rfl, rfl⟩
  | cons font fonts hypothesis =>
      obtain ⟨inputs, arguments⟩ := hypothesis (builder.inputBlob font "font").2
      refine ⟨inputs.trans ?_, arguments⟩
      simp only [PlanBuilder.inputBlob, List.length_append, List.length_cons, List.length_nil]
      omega

theorem compiledAs_subtitles (plain : PlainPaths paths) (builder : PlanBuilder Hash)
    (subtitles : SubtitleFilter Hash) :
    CompiledAs paths builder (compileSubtitles builder subtitles).2
      (compileSubtitles builder subtitles).1
      (filterChars (subtitlesParts paths builder.inputs.length subtitles))
      (1 + subtitles.fonts.length) := by
  obtain ⟨subtitle, streamIndex, fonts, forceStyle⟩ := subtitles
  obtain ⟨inputs, arguments⟩ := inputs_inputFonts (builder.inputBlob subtitle "sub").2 fonts
  refine ⟨?_, ?_, arguments⟩
  · cases streamIndex <;> cases fonts <;> cases forceStyle <;>
      simp [compileSubtitles, inputFonts, PlanBuilder.inputBlob, subtitlesParts, filterChars,
        ToolArgument.renderAll, ToolArgument.render, ToolArgument.input,
        ToolArgument.inputParentDecorated, quoteFilterValue_path plain]
  · refine inputs.trans ?_
    simp only [PlanBuilder.inputBlob, List.length_append, List.length_cons, List.length_nil]
    omega

theorem compiledAs_filter (plain : PlainPaths paths) {builder builder' : PlanBuilder Hash}
    {filter : MediaFilter Number Hash} {parts : List ToolArgument}
    (compiled : compileMediaFilter format builder filter = .ok (parts, builder')) :
    CompiledAs paths builder builder' parts
      (filterChars (mediaParts format paths builder.inputs.length filter)) (inputCount filter) := by
  cases filter with
  | video filter =>
      cases filter with
      | drawText draw =>
          cases compiled
          exact compiledAs_drawText plain builder draw
      | burnSubtitles subtitles =>
          cases compiled
          exact compiledAs_subtitles plain builder subtitles
      | _ =>
          obtain ⟨text, written, isText⟩ := exists_of_bind_eq_ok compiled
          cases isText
          exact compiledAs_literal (text_videoParts paths written builder.inputs.length)
  | audio filter =>
      obtain ⟨text, written, isText⟩ := exists_of_bind_eq_ok compiled
      cases isText
      exact compiledAs_literal (text_audioParts written)
  | trimVideo range =>
      cases compiled
      exact compiledAs_literal (text_trimParts "trim" range)
  | trimAudio range =>
      cases compiled
      exact compiledAs_literal (text_trimParts "atrim" range)
  | custom name options =>
      obtain ⟨text, written, isText⟩ := exists_of_bind_eq_ok compiled
      cases isText
      exact compiledAs_literal (text_customParts written)
  | _ =>
      cases compiled
      exact compiledAs_literal (by simp [mediaParts, filterChars])

end Texts

end RexLang.Ffmpeg
