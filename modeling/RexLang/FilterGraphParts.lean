import RexLang.FilterGraphReading
import RexLang.MediaFilters

/-!
# The parts of media filters

What each filter of a graph says: its name and its arguments, with the strings of the
filter as quoted values and the paths of its inputs, whose ids are counted from the
next one of the plan.
-/

namespace RexLang.Ffmpeg

/-! ## Arguments -/

/-- A text with an option name, or without one. -/
def rawArgument (key raw : String) : ArgumentParts :=
  ⟨key, raw, none⟩

def quotedArgument (key value : String) : ArgumentParts :=
  ⟨key, "", some value⟩

/-- The arguments after an equals sign: an empty text is one empty argument. -/
def listedArguments (arguments : List ArgumentParts) : List ArgumentParts :=
  if arguments.isEmpty then [rawArgument "" ""] else arguments

def rationalText (value : Rational) : String :=
  toString value.numerator ++ "/" ++ toString value.denominator

def optionArgument (option : FilterOption) : ArgumentParts :=
  quotedArgument ((option.name.map (· ++ "=")).getD "") option.value

/-- A width or height of `scale`. -/
def scaleArgument (whole : String) (size : Int) (preventUpscale : Bool) : ArgumentParts :=
  rawArgument "" (if preventUpscale && decide (0 < size) then
    "min(" ++ whole ++ "," ++ toString size ++ ")" else toString size)

/-! ## Filters -/

section Parts

variable {Number Hash : Type} (format : NumberFormat Number) (paths : PathSlot → String)

def customParts (name : String) (options : List FilterOption) : FilterParts :=
  ⟨name, options.map optionArgument⟩

def drawTextParts (next : Nat) (draw : DrawTextFilter Number Hash) : FilterParts :=
  ⟨"drawtext", [quotedArgument "text=" draw.text, quotedArgument "x=" draw.x,
    quotedArgument "y=" draw.y, rawArgument "fontsize=" (format.text draw.fontSize),
    quotedArgument "fontcolor=" draw.fontColor.value] ++
    (draw.fontFile.map fun _ => quotedArgument "fontfile=" (paths (.input next))).toList ++
    (draw.fontFamily.map (quotedArgument "font=")).toList ++
    ((draw.boxColor.map fun color => [rawArgument "box=" "1",
      quotedArgument "boxcolor=" color.value,
      rawArgument "boxborderw=" (toString draw.boxBorder)]).getD [])⟩

def subtitlesParts (next : Nat) (subtitles : SubtitleFilter Hash) : FilterParts :=
  ⟨"subtitles", quotedArgument "filename=" (paths (.input next)) ::
    ((subtitles.streamIndex.map fun index => rawArgument "si=" (toString index)).toList ++
    (if subtitles.fonts.isEmpty then []
      else [quotedArgument "fontsdir=" (paths (.inputParent (next + 1)))]) ++
    (subtitles.forceStyle.map (quotedArgument "force_style=")).toList)⟩

def videoParts (next : Nat) : VideoFilter Number Hash → FilterParts
  | .scale scale =>
      ⟨"scale", [scaleArgument "iw" scale.width scale.preventUpscale,
        scaleArgument "ih" scale.height scale.preventUpscale] ++
        (scale.algorithm.map (quotedArgument "flags=")).toList ++
        if scale.preserveAspectRatio then
          [rawArgument "force_original_aspect_ratio=" "decrease"] else []⟩
  | .crop crop =>
      ⟨"crop", [rawArgument "" (toString crop.width), rawArgument "" (toString crop.height),
        rawArgument "" (toString crop.x), rawArgument "" (toString crop.y)]⟩
  | .pad pad =>
      ⟨"pad", [rawArgument "" (toString pad.width), rawArgument "" (toString pad.height),
        rawArgument "" (toString pad.x), rawArgument "" (toString pad.y),
        quotedArgument "" pad.color.value]⟩
  | .frameRate rate => ⟨"fps", [rawArgument "" (rationalText rate)]⟩
  | .pixelFormat format => ⟨"format", [quotedArgument "" format]⟩
  | .setSampleAspectRatio ratio => ⟨"setsar", [rawArgument "" (rationalText ratio)]⟩
  | .setDisplayAspectRatio ratio => ⟨"setdar", [rawArgument "" (rationalText ratio)]⟩
  | .rotate rotate =>
      ⟨"rotate", rawArgument "" (format.text rotate.radians) ::
        ((rotate.outputWidth.map fun width => rawArgument "ow=" (toString width)).toList ++
        (rotate.outputHeight.map fun height => rawArgument "oh=" (toString height)).toList)⟩
  | .transpose direction => ⟨"transpose", [rawArgument "" (transposeName direction)]⟩
  | .horizontalFlip => ⟨"hflip", []⟩
  | .verticalFlip => ⟨"vflip", []⟩
  | .deinterlace => ⟨"yadif", []⟩
  | .denoise strength => ⟨"hqdn3d", [rawArgument "" (format.text strength)]⟩
  | .boxBlur radius => ⟨"boxblur", [rawArgument "" (format.text radius)]⟩
  | .gaussianBlur sigma => ⟨"gblur", [rawArgument "sigma=" (format.text sigma)]⟩
  | .sharpen amount =>
      ⟨"unsharp", [rawArgument "" "5", rawArgument "" "5", rawArgument "" (format.text amount)]⟩
  | .equalizer equalizer =>
      ⟨"eq", listedArguments
        ((equalizer.brightness.map fun value => rawArgument "brightness=" (format.text value)).toList ++
        (equalizer.contrast.map fun value => rawArgument "contrast=" (format.text value)).toList ++
        (equalizer.saturation.map fun value => rawArgument "saturation=" (format.text value)).toList ++
        (equalizer.gamma.map fun value => rawArgument "gamma=" (format.text value)).toList)⟩
  | .hue hue saturation =>
      ⟨"hue", [rawArgument "h=" (format.text hue), rawArgument "s=" (format.text saturation)]⟩
  | .gamma gamma => ⟨"eq", [rawArgument "gamma=" (format.text gamma)]⟩
  | .chromaKey color similarity blend =>
      ⟨"chromakey", [quotedArgument "" color.value, rawArgument "" (format.text similarity),
        rawArgument "" (format.text blend)]⟩
  | .fade fade =>
      ⟨"fade", [rawArgument "t=" (fadeDirection fade.direction),
        rawArgument "st=" (seconds format fade.start),
        rawArgument "d=" (seconds format fade.duration),
        quotedArgument "color=" fade.color.value]⟩
  | .overlay overlay =>
      ⟨"overlay", [quotedArgument "x=" overlay.x, quotedArgument "y=" overlay.y,
        rawArgument "shortest=" (flagText overlay.shortest),
        rawArgument "repeatlast=" (flagText overlay.repeatLast)]⟩
  | .drawText draw => drawTextParts format paths next draw
  | .burnSubtitles subtitles => subtitlesParts paths next subtitles
  | .thumbnailFrames frames => ⟨"thumbnail", [rawArgument "" (toString frames)]⟩
  | .selectFrames expression => ⟨"select", [quotedArgument "" expression]⟩
  | .setPresentationTimestamps expression => ⟨"setpts", [quotedArgument "" expression]⟩
  | .reverse => ⟨"reverse", []⟩
  | .loop loopCount size =>
      ⟨"loop", [rawArgument "loop=" (toString loopCount), rawArgument "size=" (toString size)]⟩
  | .custom name options => customParts name options

def audioParts : AudioFilter Number → FilterParts
  | .volume volume => ⟨"volume", [rawArgument "" (format.text volume)]⟩
  | .normalizeLoudness loudness =>
      ⟨"loudnorm", [rawArgument "I=" (format.text loudness.integratedLoudness),
        rawArgument "LRA=" (format.text loudness.loudnessRange),
        rawArgument "TP=" (format.text loudness.truePeak)]⟩
  | .resample rate => ⟨"aresample", [rawArgument "" (toString rate)]⟩
  | .channelLayout layout => ⟨"aformat", [quotedArgument "channel_layouts=" layout]⟩
  | .fade fade =>
      ⟨"afade", [rawArgument "t=" (fadeDirection fade.direction),
        rawArgument "st=" (seconds format fade.start),
        rawArgument "d=" (seconds format fade.duration)]⟩
  | .delay delays =>
      ⟨"adelay", [rawArgument "" ("|".intercalate
        (delays.map fun time => toString (format.wholeMillis time.seconds)))]⟩
  | .tempo tempo => ⟨"atempo", [rawArgument "" (format.text tempo)]⟩
  | .equalizer frequency width gain =>
      ⟨"equalizer", [rawArgument "f=" (format.text frequency), rawArgument "width_type=" "h",
        rawArgument "width=" (format.text width), rawArgument "g=" (format.text gain)]⟩
  | .highPass frequency => ⟨"highpass", [rawArgument "f=" (format.text frequency)]⟩
  | .lowPass frequency => ⟨"lowpass", [rawArgument "f=" (format.text frequency)]⟩
  | .compressor threshold ratio attack release =>
      ⟨"acompressor", [rawArgument "threshold=" (format.text threshold),
        rawArgument "ratio=" (format.text ratio), rawArgument "attack=" (format.text attack),
        rawArgument "release=" (format.text release)]⟩
  | .limiter limit => ⟨"alimiter", [rawArgument "limit=" (format.text limit)]⟩
  | .gate threshold ratio =>
      ⟨"agate", [rawArgument "threshold=" (format.text threshold),
        rawArgument "ratio=" (format.text ratio)]⟩
  | .echo inputGain outputGain delay decay =>
      ⟨"aecho", [rawArgument "" (format.text inputGain), rawArgument "" (format.text outputGain),
        rawArgument "" (format.text (format.roundMillis delay.seconds)),
        rawArgument "" (format.text decay)]⟩
  | .removeSilence threshold duration =>
      ⟨"silenceremove", [rawArgument "start_periods=" "1",
        rawArgument "start_duration=" (seconds format duration),
        rawArgument "start_threshold=" (format.text threshold ++ "dB")]⟩
  | .reverse => ⟨"areverse", []⟩
  | .custom name options => customParts name options

def trimParts (name : String) (range : TimeRange Number) : FilterParts :=
  ⟨name, listedArguments
    ((range.start.map fun start => rawArgument "start=" (seconds format start)).toList ++
      (range.duration.map fun duration =>
        rawArgument "duration=" (seconds format duration)).toList)⟩

def mediaParts (next : Nat) : MediaFilter Number Hash → FilterParts
  | .video filter => videoParts format paths next filter
  | .audio filter => audioParts format filter
  | .trimVideo range => trimParts format "trim" range
  | .trimAudio range => trimParts format "atrim" range
  | .concat inputs video audio =>
      ⟨"concat", [rawArgument "n=" (toString inputs), rawArgument "v=" (toString video),
        rawArgument "a=" (toString audio)]⟩
  | .splitVideo outputs => ⟨"split", [rawArgument "" (toString outputs)]⟩
  | .splitAudio outputs => ⟨"asplit", [rawArgument "" (toString outputs)]⟩
  | .mixAudio inputs normalize =>
      ⟨"amix", [rawArgument "inputs=" (toString inputs),
        rawArgument "normalize=" (flagText normalize)]⟩
  | .mergeAudio inputs => ⟨"amerge", [rawArgument "inputs=" (toString inputs)]⟩
  | .crossFadeVideo duration offset =>
      ⟨"xfade", [rawArgument "duration=" (seconds format duration),
        rawArgument "offset=" (seconds format offset)]⟩
  | .crossFadeAudio duration => ⟨"acrossfade", [rawArgument "d=" (seconds format duration)]⟩
  | .custom name options => customParts name options

/-- The number of inputs that a filter adds to the plan. -/
def inputCount : MediaFilter Number Hash → Nat
  | .video (.drawText draw) => draw.fontFile.toList.length
  | .video (.burnSubtitles subtitles) => 1 + subtitles.fonts.length
  | _ => 0

def filtersParts : Nat → List (MediaFilter Number Hash) → List FilterParts
  | _, [] => []
  | next, filter :: filters =>
      mediaParts format paths next filter :: filtersParts (next + inputCount filter) filters

/-! ## Graphs -/

def kindLetter : MediaKind → String
  | .video => "v"
  | .audio => "a"
  | .subtitle => "s"
  | .data => "d"
  | .attachment => "t"
  | .unknown _ => ""

def padLabel : FilterPad → String
  | .input stream =>
      toString stream.input ++ ":" ++ kindLetter stream.kind ++
        (stream.index.map fun index => ":" ++ toString index).getD ""
  | .link label => label

def chainsParts : Nat → List (FilterChain Number Hash) → List ChainParts
  | _, [] => []
  | next, chain :: chains =>
      ⟨chain.inputs.map padLabel, filtersParts format paths next chain.filters, chain.outputs⟩ ::
        chainsParts (next + (chain.filters.map inputCount).sum) chains

end Parts

/-! ## The strings of a graph -/

section Strings

variable {Number Hash : Type}

/-- The strings of a filter that are written as quoted values. -/
def videoStrings : VideoFilter Number Hash → List String
  | .scale scale => scale.algorithm.toList
  | .pad pad => [pad.color.value]
  | .pixelFormat format => [format]
  | .chromaKey color _ _ => [color.value]
  | .fade fade => [fade.color.value]
  | .overlay overlay => [overlay.x, overlay.y]
  | .drawText draw =>
      [draw.text, draw.x, draw.y, draw.fontColor.value] ++ draw.fontFamily.toList ++
        (draw.boxColor.map Color.value).toList
  | .burnSubtitles subtitles => subtitles.forceStyle.toList
  | .selectFrames expression => [expression]
  | .setPresentationTimestamps expression => [expression]
  | .custom _ options => options.map FilterOption.value
  | _ => []

def mediaStrings : MediaFilter Number Hash → List String
  | .video filter => videoStrings filter
  | .audio (.channelLayout layout) => [layout]
  | .audio (.custom _ options) => options.map FilterOption.value
  | .custom _ options => options.map FilterOption.value
  | _ => []

/-- The names that the caller gives to a filter and to its options. -/
def customNames (name : String) (options : List FilterOption) : List String :=
  name :: options.filterMap FilterOption.name

def mediaNames : MediaFilter Number Hash → List String
  | .video (.custom name options) => customNames name options
  | .audio (.custom name options) => customNames name options
  | .custom name options => customNames name options
  | _ => []

/-- No string of the filter has a colon or a quote, and no name a comma. -/
structure SafeFilter (filter : MediaFilter Number Hash) : Prop where
  strings : ∀ text ∈ mediaStrings filter, ∀ symbol ∈ text.toList, symbol ≠ ':' ∧ symbol ≠ '\''
  names : ∀ name ∈ mediaNames filter, ',' ∉ name.toList

def FilterGraph.Safe (graph : FilterGraph Number Hash) : Prop :=
  ∀ chain ∈ graph.chains, ∀ filter ∈ chain.filters, SafeFilter filter

end Strings

/-- No path has a character with a meaning in quotes or in arguments. -/
def PlainPaths (paths : PathSlot → String) : Prop :=
  ∀ slot, ∀ symbol ∈ (paths slot).toList, symbol ≠ ':' ∧ symbol ≠ '\'' ∧ symbol ≠ '\\'

end RexLang.Ffmpeg
