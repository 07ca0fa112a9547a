import Mathlib.Algebra.Order.Ring.Nat
import Mathlib.Data.List.Basic

/-!
# Media filters

The filter graphs of the tool for `ffmpeg` and their compilation into one argument.
Floating-point numbers are a type of their own with the texts that are written for
them; paths are slots that the executor fills.
-/

namespace RexLang.Ffmpeg

/-! ## Numbers -/

/-- `f64` with the texts of `Display`, and the two conversions to milliseconds. -/
structure NumberFormat (Number : Type) where
  text : Number → String
  /-- `(seconds * 1000.0).round() as i64`. -/
  wholeMillis : Number → Int
  /-- `(seconds * 1000.0).round()`. -/
  roundMillis : Number → Number
  /-- `Display` writes digits, a sign and a point, or `NaN` or `inf`. -/
  plain : ∀ number, ∀ symbol ∈ (text number).toList,
    symbol.isAlphanum = true ∨ symbol = '-' ∨ symbol = '.'

/-! ## The values -/

structure Rational where
  numerator : Int
  denominator : Int

structure Time (Number : Type) where
  seconds : Number

structure TimeRange (Number : Type) where
  start : Option (Time Number)
  duration : Option (Time Number)

structure Color where
  value : String

inductive MediaKind where
  | video
  | audio
  | subtitle
  | data
  | attachment
  | unknown (name : String)

structure StreamRef where
  input : Nat
  kind : MediaKind
  index : Option Nat

inductive FilterPad where
  | input (stream : StreamRef)
  | link (label : String)

structure FilterOption where
  name : Option String
  value : String

structure ScaleFilter where
  width : Int
  height : Int
  algorithm : Option String
  preserveAspectRatio : Bool
  preventUpscale : Bool

structure CropFilter where
  width : Nat
  height : Nat
  x : Int
  y : Int

structure PadFilter where
  width : Nat
  height : Nat
  x : Int
  y : Int
  color : Color

structure RotateFilter (Number : Type) where
  radians : Number
  outputWidth : Option Nat
  outputHeight : Option Nat

inductive TransposeDirection where
  | clockwise
  | counterClockwise
  | clockwiseFlip
  | counterClockwiseFlip

inductive FadeDirection where
  | fadeIn
  | fadeOut

structure OverlayFilter where
  x : String
  y : String
  shortest : Bool
  repeatLast : Bool

structure Media (Hash : Type) where
  content : Hash

structure DrawTextFilter (Number Hash : Type) where
  text : String
  x : String
  y : String
  fontFile : Option (Media Hash)
  fontFamily : Option String
  fontSize : Number
  fontColor : Color
  boxColor : Option Color
  boxBorder : Nat

structure SubtitleFilter (Hash : Type) where
  subtitles : Media Hash
  streamIndex : Option Nat
  fonts : List (Media Hash)
  forceStyle : Option String

structure VideoEqualizer (Number : Type) where
  brightness : Option Number
  contrast : Option Number
  saturation : Option Number
  gamma : Option Number

structure VideoFade (Number : Type) where
  direction : FadeDirection
  start : Time Number
  duration : Time Number
  color : Color

inductive VideoFilter (Number Hash : Type) where
  | scale (scale : ScaleFilter)
  | crop (crop : CropFilter)
  | pad (pad : PadFilter)
  | frameRate (rate : Rational)
  | pixelFormat (format : String)
  | setSampleAspectRatio (ratio : Rational)
  | setDisplayAspectRatio (ratio : Rational)
  | rotate (rotate : RotateFilter Number)
  | transpose (direction : TransposeDirection)
  | horizontalFlip
  | verticalFlip
  | deinterlace
  | denoise (strength : Number)
  | boxBlur (radius : Number)
  | gaussianBlur (sigma : Number)
  | sharpen (amount : Number)
  | equalizer (equalizer : VideoEqualizer Number)
  | hue (hue saturation : Number)
  | gamma (gamma : Number)
  | chromaKey (color : Color) (similarity blend : Number)
  | fade (fade : VideoFade Number)
  | overlay (overlay : OverlayFilter)
  | drawText (draw : DrawTextFilter Number Hash)
  | burnSubtitles (subtitles : SubtitleFilter Hash)
  | thumbnailFrames (frames : Nat)
  | selectFrames (expression : String)
  | setPresentationTimestamps (expression : String)
  | reverse
  | loop (loopCount size : Nat)
  | custom (name : String) (options : List FilterOption)

structure LoudnessNormalization (Number : Type) where
  integratedLoudness : Number
  loudnessRange : Number
  truePeak : Number

structure AudioFade (Number : Type) where
  direction : FadeDirection
  start : Time Number
  duration : Time Number

inductive AudioFilter (Number : Type) where
  | volume (volume : Number)
  | normalizeLoudness (loudness : LoudnessNormalization Number)
  | resample (rate : Nat)
  | channelLayout (layout : String)
  | fade (fade : AudioFade Number)
  | delay (delays : List (Time Number))
  | tempo (tempo : Number)
  | equalizer (frequency width gain : Number)
  | highPass (frequency : Number)
  | lowPass (frequency : Number)
  | compressor (threshold ratio attack release : Number)
  | limiter (limit : Number)
  | gate (threshold ratio : Number)
  | echo (inputGain outputGain : Number) (delay : Time Number) (decay : Number)
  | removeSilence (threshold : Number) (duration : Time Number)
  | reverse
  | custom (name : String) (options : List FilterOption)

inductive MediaFilter (Number Hash : Type) where
  | video (filter : VideoFilter Number Hash)
  | audio (filter : AudioFilter Number)
  | trimVideo (range : TimeRange Number)
  | trimAudio (range : TimeRange Number)
  | concat (inputs video audio : Nat)
  | splitVideo (outputs : Nat)
  | splitAudio (outputs : Nat)
  | mixAudio (inputs : Nat) (normalize : Bool)
  | mergeAudio (inputs : Nat)
  | crossFadeVideo (duration offset : Time Number)
  | crossFadeAudio (duration : Time Number)
  | custom (name : String) (options : List FilterOption)

structure FilterChain (Number Hash : Type) where
  inputs : List FilterPad
  filters : List (MediaFilter Number Hash)
  outputs : List String

structure FilterGraph (Number Hash : Type) where
  chains : List (FilterChain Number Hash)

/-! ## Plans -/

inductive PathSlot where
  | input (id : Nat)
  | inputParent (id : Nat)
  | output (id : Nat)
deriving DecidableEq

inductive ToolArgument where
  | literal (value : String)
  | path (slot : PathSlot) (before after : String)
  | joined (parts : List ToolArgument)

namespace ToolArgument

/-- `ToolArgument::input`. -/
def input (id : Nat) : ToolArgument :=
  .path (.input id) "" ""

/-- `ToolArgument::input_parent_decorated`. -/
def inputParentDecorated (id : Nat) (before after : String) : ToolArgument :=
  .path (.inputParent id) before after

mutual

/-- `render_argument`, where the slots have these paths. -/
def render (paths : PathSlot → String) : ToolArgument → String
  | .literal value => value
  | .path slot before after => before ++ paths slot ++ after
  | .joined parts => renderAll paths parts

def renderAll (paths : PathSlot → String) : List ToolArgument → String
  | [] => ""
  | part :: parts => render paths part ++ renderAll paths parts

end

end ToolArgument

inductive InputKind where
  | blob
  | tree

structure CasInput (Hash : Type) where
  hash : Hash
  extension : String
  kind : InputKind

/-- `PlanBuilder`, without the program and the outputs, which filters do not touch. -/
structure PlanBuilder (Hash : Type) where
  arguments : List ToolArgument
  inputs : List (CasInput Hash)

namespace PlanBuilder

variable {Hash : Type}

/-- `literal`. -/
def literal (builder : PlanBuilder Hash) (value : String) : PlanBuilder Hash :=
  { builder with arguments := builder.arguments ++ [.literal value] }

/-- `argument`. -/
def argument (builder : PlanBuilder Hash) (argument : ToolArgument) : PlanBuilder Hash :=
  { builder with arguments := builder.arguments ++ [argument] }

/-- `input_blob`. -/
def inputBlob (builder : PlanBuilder Hash) (media : Media Hash) (extension : String) :
    Nat × PlanBuilder Hash :=
  (builder.inputs.length,
    { builder with inputs := builder.inputs ++ [⟨media.content, extension, .blob⟩] })

end PlanBuilder

/-! ## Errors and checks -/

inductive FfmpegErrorKind where
  | invalidRequest
  | processFailed
  | unexpectedOutput

structure FfmpegError where
  kind : FfmpegErrorKind
  exitCode : Option Int
  message : String

/-- `invalid`. -/
def invalid (message : String) : FfmpegError :=
  ⟨.invalidRequest, none, message⟩

/-- `checked_label`. -/
def checkedLabel (value : String) : Except FfmpegError String :=
  if value.isEmpty || !value.toList.all fun symbol =>
      symbol.isAlphanum || symbol = '_' || symbol = '-' then
    .error (invalid ("invalid filter label \x60" ++ value ++ "\x60"))
  else .ok value

/-- `require_name`. -/
def requireName (value context : String) : Except FfmpegError Unit :=
  if value.isEmpty || !value.toList.all fun symbol =>
      symbol.isAlphanum || symbol = '_' || symbol = '-' || symbol = '.' || symbol = ',' then
    .error (invalid ("invalid " ++ context ++ " \x60" ++ value ++ "\x60"))
  else .ok ()

/-- `checked_name`. -/
def checkedName (value context : String) : Except FfmpegError String := do
  requireName value context
  return value

/-- `validate_rational`. -/
def validateRational (value : Rational) (context : String) : Except FfmpegError Unit :=
  if value.denominator = 0 then .error (invalid (context ++ " denominator cannot be zero"))
  else .ok ()

/-- `rational`. -/
def rational (value : Rational) : Except FfmpegError String := do
  validateRational value "rational"
  return toString value.numerator ++ "/" ++ toString value.denominator

/-- `stream_kind_letter`. -/
def streamKindLetter : MediaKind → Except FfmpegError String
  | .video => .ok "v"
  | .audio => .ok "a"
  | .subtitle => .ok "s"
  | .data => .ok "d"
  | .attachment => .ok "t"
  | .unknown _ => .error (invalid "unknown stream kinds cannot be used as stream selectors")

/-- `stream_selector`. -/
def streamSelector (stream : StreamRef) : Except FfmpegError String := do
  let letter ← streamKindLetter stream.kind
  let value := toString stream.input ++ ":" ++ letter
  return match stream.index with
    | none => value
    | some index => value ++ (":" ++ toString index)

/-- `filter_pad_name`. -/
def filterPadName : FilterPad → Except FfmpegError String
  | .input stream => streamSelector stream
  | .link label => checkedLabel label

/-! ## Texts of filters -/

/-- `value.replace(old, new)`. -/
def replaceChar (value : String) (old : Char) (new : String) : String :=
  String.ofList (value.toList.flatMap fun symbol => if symbol = old then new.toList else [symbol])

/-- `quote_filter_value`. -/
def quoteFilterValue (value : String) : String :=
  "'" ++ replaceChar (replaceChar value '\\' "\\\\") '\'' "\\'" ++ "'"

/-- `custom_filter_text`, for one option. -/
def optionText (option : FilterOption) : Except FfmpegError String :=
  match option.name with
  | some name => do
      let name ← checkedName name "filter option"
      return name ++ "=" ++ quoteFilterValue option.value
  | none => .ok (quoteFilterValue option.value)

/-- `custom_filter_text`. -/
def customFilterText (name : String) (options : List FilterOption) :
    Except FfmpegError String := do
  let name ← checkedName name "filter"
  if options.isEmpty then return name
  else do
    let options ← options.mapM optionText
    return name ++ "=" ++ ":".intercalate options

/-- `fade_direction`. -/
def fadeDirection : FadeDirection → String
  | .fadeIn => "in"
  | .fadeOut => "out"

/-- The name of a direction of `transpose`. -/
def transposeName : TransposeDirection → String
  | .clockwise => "clock"
  | .counterClockwise => "cclock"
  | .clockwiseFlip => "clock_flip"
  | .counterClockwiseFlip => "cclock_flip"

/-- `u8::from`. -/
def flagText (flag : Bool) : String :=
  if flag then "1" else "0"

section Texts

variable {Number Hash : Type} (format : NumberFormat Number)

/-- `seconds`. -/
def seconds (time : Time Number) : String :=
  format.text time.seconds

/-- `trim_filter`. -/
def trimFilter (name : String) (range : TimeRange Number) : String :=
  name ++ "=" ++ ":".intercalate
    ((range.start.map fun start => "start=" ++ seconds format start).toList ++
      (range.duration.map fun duration => "duration=" ++ seconds format duration).toList)

/-- A width or height of `scale`, which an upscale may not exceed. -/
def scaleSize (whole : String) (size : Int) (preventUpscale : Bool) : String :=
  if preventUpscale && decide (0 < size) then "min(" ++ whole ++ "\\," ++ toString size ++ ")"
  else toString size

/-- `video_filter_text`. -/
def videoFilterText : VideoFilter Number Hash → Except FfmpegError String
  | .scale scale =>
      .ok ("scale=" ++ scaleSize "iw" scale.width scale.preventUpscale ++ ":" ++
        scaleSize "ih" scale.height scale.preventUpscale ++
        (scale.algorithm.map fun algorithm => ":flags=" ++ quoteFilterValue algorithm).getD "" ++
        if scale.preserveAspectRatio then ":force_original_aspect_ratio=decrease" else "")
  | .crop crop =>
      .ok ("crop=" ++ toString crop.width ++ ":" ++ toString crop.height ++ ":" ++
        toString crop.x ++ ":" ++ toString crop.y)
  | .pad pad =>
      .ok ("pad=" ++ toString pad.width ++ ":" ++ toString pad.height ++ ":" ++ toString pad.x ++
        ":" ++ toString pad.y ++ ":" ++ quoteFilterValue pad.color.value)
  | .frameRate rate => do
      let rate ← rational rate
      return "fps=" ++ rate
  | .pixelFormat format => .ok ("format=" ++ quoteFilterValue format)
  | .setSampleAspectRatio ratio => do
      let ratio ← rational ratio
      return "setsar=" ++ ratio
  | .setDisplayAspectRatio ratio => do
      let ratio ← rational ratio
      return "setdar=" ++ ratio
  | .rotate rotate =>
      .ok ("rotate=" ++ format.text rotate.radians ++
        (rotate.outputWidth.map fun width => ":ow=" ++ toString width).getD "" ++
        (rotate.outputHeight.map fun height => ":oh=" ++ toString height).getD "")
  | .transpose direction => .ok ("transpose=" ++ transposeName direction)
  | .horizontalFlip => .ok "hflip"
  | .verticalFlip => .ok "vflip"
  | .deinterlace => .ok "yadif"
  | .denoise strength => .ok ("hqdn3d=" ++ format.text strength)
  | .boxBlur radius => .ok ("boxblur=" ++ format.text radius)
  | .gaussianBlur sigma => .ok ("gblur=sigma=" ++ format.text sigma)
  | .sharpen amount => .ok ("unsharp=5:5:" ++ format.text amount)
  | .equalizer equalizer =>
      .ok ("eq=" ++ ":".intercalate
        ((equalizer.brightness.map fun value => "brightness=" ++ format.text value).toList ++
          (equalizer.contrast.map fun value => "contrast=" ++ format.text value).toList ++
          (equalizer.saturation.map fun value => "saturation=" ++ format.text value).toList ++
          (equalizer.gamma.map fun value => "gamma=" ++ format.text value).toList))
  | .hue hue saturation => .ok ("hue=h=" ++ format.text hue ++ ":s=" ++ format.text saturation)
  | .gamma gamma => .ok ("eq=gamma=" ++ format.text gamma)
  | .chromaKey color similarity blend =>
      .ok ("chromakey=" ++ quoteFilterValue color.value ++ ":" ++ format.text similarity ++ ":" ++
        format.text blend)
  | .fade fade =>
      .ok ("fade=t=" ++ fadeDirection fade.direction ++ ":st=" ++ seconds format fade.start ++
        ":d=" ++ seconds format fade.duration ++ ":color=" ++ quoteFilterValue fade.color.value)
  | .overlay overlay =>
      .ok ("overlay=x=" ++ quoteFilterValue overlay.x ++ ":y=" ++ quoteFilterValue overlay.y ++
        ":shortest=" ++ flagText overlay.shortest ++ ":repeatlast=" ++ flagText overlay.repeatLast)
  | .thumbnailFrames frames => .ok ("thumbnail=" ++ toString frames)
  | .selectFrames expression => .ok ("select=" ++ quoteFilterValue expression)
  | .setPresentationTimestamps expression => .ok ("setpts=" ++ quoteFilterValue expression)
  | .reverse => .ok "reverse"
  | .loop loopCount size =>
      .ok ("loop=loop=" ++ toString loopCount ++ ":size=" ++ toString size)
  | .custom name options => customFilterText name options
  | .drawText _ => .error (invalid "path-based video filter requires plan compilation")
  | .burnSubtitles _ => .error (invalid "path-based video filter requires plan compilation")

/-- `audio_filter_text`. -/
def audioFilterText : AudioFilter Number → Except FfmpegError String
  | .volume volume => .ok ("volume=" ++ format.text volume)
  | .normalizeLoudness loudness =>
      .ok ("loudnorm=I=" ++ format.text loudness.integratedLoudness ++ ":LRA=" ++
        format.text loudness.loudnessRange ++ ":TP=" ++ format.text loudness.truePeak)
  | .resample rate => .ok ("aresample=" ++ toString rate)
  | .channelLayout layout => .ok ("aformat=channel_layouts=" ++ quoteFilterValue layout)
  | .fade fade =>
      .ok ("afade=t=" ++ fadeDirection fade.direction ++ ":st=" ++ seconds format fade.start ++
        ":d=" ++ seconds format fade.duration)
  | .delay delays =>
      .ok ("adelay=" ++ "|".intercalate
        (delays.map fun time => toString (format.wholeMillis time.seconds)))
  | .tempo tempo => .ok ("atempo=" ++ format.text tempo)
  | .equalizer frequency width gain =>
      .ok ("equalizer=f=" ++ format.text frequency ++ ":width_type=h:width=" ++
        format.text width ++ ":g=" ++ format.text gain)
  | .highPass frequency => .ok ("highpass=f=" ++ format.text frequency)
  | .lowPass frequency => .ok ("lowpass=f=" ++ format.text frequency)
  | .compressor threshold ratio attack release =>
      .ok ("acompressor=threshold=" ++ format.text threshold ++ ":ratio=" ++ format.text ratio ++
        ":attack=" ++ format.text attack ++ ":release=" ++ format.text release)
  | .limiter limit => .ok ("alimiter=limit=" ++ format.text limit)
  | .gate threshold ratio =>
      .ok ("agate=threshold=" ++ format.text threshold ++ ":ratio=" ++ format.text ratio)
  | .echo inputGain outputGain delay decay =>
      .ok ("aecho=" ++ format.text inputGain ++ ":" ++ format.text outputGain ++ ":" ++
        format.text (format.roundMillis delay.seconds) ++ ":" ++ format.text decay)
  | .removeSilence threshold duration =>
      .ok ("silenceremove=start_periods=1:start_duration=" ++ seconds format duration ++
        ":start_threshold=" ++ format.text threshold ++ "dB")
  | .reverse => .ok "areverse"
  | .custom name options => customFilterText name options

end Texts

/-! ## Compilation -/

section Compilation

variable {Number Hash : Type} (format : NumberFormat Number)

/-- The font file of drawn text. -/
def compileFont (builder : PlanBuilder Hash) :
    Option (Media Hash) → List ToolArgument × PlanBuilder Hash
  | none => ([], builder)
  | some font =>
      let (input, builder) := builder.inputBlob font "font"
      ([.literal ":fontfile='", .input input, .literal "'"], builder)

/-- The arm of `compile_video_filter` for drawn text. -/
def compileDrawText (builder : PlanBuilder Hash) (draw : DrawTextFilter Number Hash) :
    List ToolArgument × PlanBuilder Hash :=
  let start := ToolArgument.literal ("drawtext=text=" ++ quoteFilterValue draw.text ++ ":x=" ++
    quoteFilterValue draw.x ++ ":y=" ++ quoteFilterValue draw.y ++ ":fontsize=" ++
    format.text draw.fontSize ++ ":fontcolor=" ++ quoteFilterValue draw.fontColor.value)
  let (font, builder) := compileFont builder draw.fontFile
  let family := (draw.fontFamily.map fun family =>
    ToolArgument.literal (":font=" ++ quoteFilterValue family)).toList
  let box := (draw.boxColor.map fun color =>
    ToolArgument.literal (":box=1:boxcolor=" ++ quoteFilterValue color.value ++
      ":boxborderw=" ++ toString draw.boxBorder)).toList
  (start :: (font ++ family ++ box), builder)

/-- The loop over the fonts of burned-in subtitles: the input of the first one. -/
def inputFonts (builder : PlanBuilder Hash) : List (Media Hash) → Option Nat × PlanBuilder Hash
  | [] => (none, builder)
  | font :: fonts =>
      let (input, builder) := builder.inputBlob font "font"
      let (_, builder) := inputFonts builder fonts
      (some input, builder)

/-- The arm of `compile_video_filter` for burned-in subtitles. -/
def compileSubtitles (builder : PlanBuilder Hash) (subtitles : SubtitleFilter Hash) :
    List ToolArgument × PlanBuilder Hash :=
  let (subtitle, builder) := builder.inputBlob subtitles.subtitles "sub"
  let start := [ToolArgument.literal "subtitles=filename='", .input subtitle, .literal "'"]
  let index := (subtitles.streamIndex.map fun index =>
    ToolArgument.literal (":si=" ++ toString index)).toList
  let (first, builder) := inputFonts builder subtitles.fonts
  let fonts := match first with
    | none => []
    | some first =>
        [ToolArgument.literal ":fontsdir='", .inputParentDecorated first "" "", .literal "'"]
  let style := (subtitles.forceStyle.map fun style =>
    ToolArgument.literal (":force_style=" ++ quoteFilterValue style)).toList
  (start ++ index ++ fonts ++ style, builder)

/-- `compile_video_filter`. -/
def compileVideoFilter (builder : PlanBuilder Hash) (filter : VideoFilter Number Hash) :
    Except FfmpegError (List ToolArgument × PlanBuilder Hash) :=
  match filter with
  | .drawText draw => .ok (compileDrawText format builder draw)
  | .burnSubtitles subtitles => .ok (compileSubtitles builder subtitles)
  | other => do
      let text ← videoFilterText format other
      return ([.literal text], builder)

/-- `compile_media_filter`. -/
def compileMediaFilter (builder : PlanBuilder Hash) (filter : MediaFilter Number Hash) :
    Except FfmpegError (List ToolArgument × PlanBuilder Hash) :=
  match filter with
  | .video filter => compileVideoFilter format builder filter
  | .audio filter => do
      let text ← audioFilterText format filter
      return ([.literal text], builder)
  | .trimVideo range => .ok ([.literal (trimFilter format "trim" range)], builder)
  | .trimAudio range => .ok ([.literal (trimFilter format "atrim" range)], builder)
  | .concat inputs video audio =>
      .ok ([.literal ("concat=n=" ++ toString inputs ++ ":v=" ++ toString video ++ ":a=" ++
        toString audio)], builder)
  | .splitVideo outputs => .ok ([.literal ("split=" ++ toString outputs)], builder)
  | .splitAudio outputs => .ok ([.literal ("asplit=" ++ toString outputs)], builder)
  | .mixAudio inputs normalize =>
      .ok ([.literal ("amix=inputs=" ++ toString inputs ++ ":normalize=" ++ flagText normalize)],
        builder)
  | .mergeAudio inputs => .ok ([.literal ("amerge=inputs=" ++ toString inputs)], builder)
  | .crossFadeVideo duration offset =>
      .ok ([.literal ("xfade=duration=" ++ seconds format duration ++ ":offset=" ++
        seconds format offset)], builder)
  | .crossFadeAudio duration =>
      .ok ([.literal ("acrossfade=d=" ++ seconds format duration)], builder)
  | .custom name options => do
      let text ← customFilterText name options
      return ([.literal text], builder)

/-- The loop of `compile_filter_graph` over the filters of a chain. -/
def compileFilters : Nat → PlanBuilder Hash → List (MediaFilter Number Hash) →
    Except FfmpegError (List ToolArgument × PlanBuilder Hash)
  | _, builder, [] => .ok ([], builder)
  | index, builder, filter :: filters => do
      let (parts, builder) ← compileMediaFilter format builder filter
      let (rest, builder) ← compileFilters (index + 1) builder filters
      return ((if index = 0 then [] else [.literal ","]) ++ parts ++ rest, builder)

/-- An input pad of a chain. -/
def inputPart (pad : FilterPad) : Except FfmpegError ToolArgument := do
  let name ← filterPadName pad
  return .literal ("[" ++ name ++ "]")

/-- An output pad of a chain. -/
def outputPart (output : String) : Except FfmpegError ToolArgument := do
  let label ← checkedLabel output
  return .literal ("[" ++ label ++ "]")

/-- The loop of `compile_filter_graph` over the chains. -/
def compileChains : Nat → PlanBuilder Hash → List (FilterChain Number Hash) →
    Except FfmpegError (List ToolArgument × PlanBuilder Hash)
  | _, builder, [] => .ok ([], builder)
  | index, builder, chain :: chains =>
      if chain.filters.isEmpty then
        .error (invalid ("filter chain " ++ toString index ++ " has no filters"))
      else do
        let inputs ← chain.inputs.mapM inputPart
        let (filters, builder) ← compileFilters format 0 builder chain.filters
        let outputs ← chain.outputs.mapM outputPart
        let (rest, builder) ← compileChains (index + 1) builder chains
        return ((if index = 0 then [] else [.literal ";"]) ++ inputs ++ filters ++ outputs ++ rest,
          builder)

/-- `compile_filter_graph`. -/
def compileFilterGraph (builder : PlanBuilder Hash) (graph : FilterGraph Number Hash) :
    Except FfmpegError (PlanBuilder Hash) :=
  if graph.chains.isEmpty then .ok builder
  else do
    let (parts, builder) ← compileChains format 0 builder graph.chains
    return (builder.literal "-filter_complex").argument (.joined parts)

end Compilation

end RexLang.Ffmpeg
