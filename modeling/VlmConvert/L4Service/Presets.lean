import VlmConvert.L3Document.Mapper
import VlmConvert.L4Service.EndpointPolicy
import VlmConvert.L4Service.Pipeline

/-!
# Presets and the options of a stream

`src/presets.cpp`, the option checks at the start of `ConvertPagesCore`
(`src/service/vlm_convert_service.cpp:166-224`) and `GetServiceInfo` (:583-628),
which says what the checks will accept.

An enum field is its number on the wire: proto3 keeps numbers it has no name for.

Results:
* `responseFormatFromDocling_iff`: docling's names and the formats are in
  one-to-one correspondence.
* `service_info_honoured`: what the service advertises is what it accepts.
-/
namespace VlmConvert.L4.Presets

open Bytes L3.Mapper EndpointPolicy VlmClient

/-! ## Enums -/

/-- mirrors proto/ai/pipestream/vlm/v1/vlm_convert.proto:126-153 -/
inductive VlmPreset
  | unspecified | smoldocling | graniteDocling | gotOcr2 | graniteVision | deepseekOcr
  | nanonetsOcr2 | glmOcr | lightonOcr | raw | northMicroVision
  deriving DecidableEq, Repr

def VlmPreset.number : VlmPreset → Int
  | .unspecified => 0
  | .smoldocling => 1
  | .graniteDocling => 2
  | .gotOcr2 => 3
  | .graniteVision => 4
  | .deepseekOcr => 5
  | .nanonetsOcr2 => 6
  | .glmOcr => 7
  | .lightonOcr => 8
  | .raw => 9
  | .northMicroVision => 10

def formatNumber : ResponseFormat → Int
  | .unspecified => 0
  | .doctags => 1
  | .markdown => 2
  | .html => 3
  | .otsl => 4
  | .plaintext => 5
  | .doclang => 6
  | .deepseekocrMarkdown => 7
  | .unlimitedOcrMarkdown => 8
  | .chandraHtml => 9
  | .dotsJson => 10
  | .nemotronParseV2 => 11
  | .nemotronParseV35 => 12
  | .mineru2 => 13

/-- The enum's values in order. -/
def allFormats : List ResponseFormat :=
  [.unspecified, .doctags, .markdown, .html, .otsl, .plaintext, .doclang, .deepseekocrMarkdown,
    .unlimitedOcrMarkdown, .chandraHtml, .dotsJson, .nemotronParseV2, .nemotronParseV35, .mineru2]

/-- `ResponseFormat_IsValid`, with the value it is. -/
def formatOfNumber (n : Int) : Option ResponseFormat :=
  allFormats.find? fun f => formatNumber f == n

/-- What `ResponseFormat_Name` gives, less `RESPONSE_FORMAT_`. -/
def formatName : ResponseFormat → Bytes
  | .unspecified => ascii "UNSPECIFIED"
  | .doctags => ascii "DOCTAGS"
  | .markdown => ascii "MARKDOWN"
  | .html => ascii "HTML"
  | .otsl => ascii "OTSL"
  | .plaintext => ascii "PLAINTEXT"
  | .doclang => ascii "DOCLANG"
  | .deepseekocrMarkdown => ascii "DEEPSEEKOCR_MARKDOWN"
  | .unlimitedOcrMarkdown => ascii "UNLIMITED_OCR_MARKDOWN"
  | .chandraHtml => ascii "CHANDRA_HTML"
  | .dotsJson => ascii "DOTS_JSON"
  | .nemotronParseV2 => ascii "NEMOTRON_PARSE_V2"
  | .nemotronParseV35 => ascii "NEMOTRON_PARSE_V3_5"
  | .mineru2 => ascii "MINERU2"

/-- `ResponseFormat_Name`. -/
def responseFormatName (f : ResponseFormat) : Bytes := ascii "RESPONSE_FORMAT_" ++ formatName f

/-- `ResponseFormat_Parse`. -/
def responseFormatParse (name : Bytes) : Option ResponseFormat :=
  allFormats.find? fun f => responseFormatName f == name

/-- `std::isupper` of the C locale. -/
def isUpper (c : UInt8) : Bool := 0x41 ≤ c && c ≤ 0x5A

/-- `std::toupper` of the C locale. -/
def toUpper (c : UInt8) : UInt8 := if 0x61 ≤ c && c ≤ 0x7A then c - 0x20 else c

/-- docling's name of a format, matched exactly.
mirrors src/presets.cpp:102-119 -/
def responseFormatFromDocling (value : Bytes) : Option ResponseFormat :=
  if value.isEmpty then none
  else if value.any isUpper then none
  else
    match responseFormatParse (ascii "RESPONSE_FORMAT_" ++ value.map toUpper) with
    | some .unspecified => none
    | parsed => parsed

/-- mirrors src/presets.cpp:121-130 -/
def doclingResponseFormatName (format : Int) : Bytes :=
  match formatOfNumber format with
  | none => []
  | some .unspecified => []
  | some f => ((responseFormatName f).drop 16).map toLower

/-- mirrors src/presets.cpp:132-136 -/
def responseFormatServed (format : Int) : Bool :=
  match formatOfNumber format with
  | none => false
  | some f => f != .unspecified && f != .mineru2

/-! ## Presets -/

/-- mirrors src/presets.h:16-26 -/
structure PresetSpec where
  preset : VlmPreset
  name : Bytes
  model : Bytes
  prompt : Bytes
  format : ResponseFormat
  stop : List Bytes
  maxTokens : Int

/-- mirrors src/presets.cpp:12-41 -/
def allPresets : List PresetSpec :=
  [⟨.smoldocling, ascii "smoldocling", ascii "HuggingFaceTB/SmolDocling-256M-preview",
      ascii "Convert this page to docling.", .doctags,
      [ascii "</doctag>", ascii "<end_of_utterance>"], 4096⟩,
    ⟨.graniteDocling, ascii "granite-docling", ascii "ibm-granite/granite-docling-258M",
      ascii "Convert this page to DocTags.", .doctags,
      [ascii "</doctag>", ascii "<|end_of_text|>"], 8192⟩,
    ⟨.gotOcr2, ascii "got-ocr-2", ascii "stepfun-ai/GOT-OCR-2.0-hf",
      ascii "Convert this page to markdown.", .markdown, [], 4096⟩,
    ⟨.graniteVision, ascii "granite-vision", ascii "ibm-granite/granite-vision-3.2-2b",
      ascii "Convert this page to markdown.", .markdown, [], 4096⟩,
    ⟨.deepseekOcr, ascii "deepseek-ocr", ascii "deepseek-ai/DeepSeek-OCR",
      ascii "Convert this document to markdown.", .markdown, [], 4096⟩,
    ⟨.nanonetsOcr2, ascii "nanonets-ocr2", ascii "nanonets/Nanonets-OCR2-3B",
      ascii "Extract the text from the above document as if you were reading it naturally.",
      .markdown, [], 4096⟩,
    ⟨.glmOcr, ascii "glm-ocr", ascii "zai-org/GLM-OCR",
      ascii "Convert this page to markdown.", .markdown, [], 4096⟩,
    ⟨.lightonOcr, ascii "lighton-ocr", ascii "lightonai/LightOnOCR-1B",
      ascii "Convert this page to markdown.", .markdown, [], 4096⟩,
    ⟨.northMicroVision, ascii "north-micro-vision", ascii "CohereLabs/North-Micro-Vision-Instruct",
      ascii "Convert this page to markdown. Keep the reading order, every heading, paragraph, list and table (tables as markdown tables), and transcribe the text exactly; do not summarize or describe.",
      .markdown, [], 8192⟩]

/-- mirrors src/presets.cpp:49-52 -/
def findPreset (preset : Int) : Option PresetSpec :=
  allPresets.find? fun spec => spec.preset.number == preset

/-- mirrors src/presets.cpp:54-57 -/
def findPresetByName (name : Bytes) : Option PresetSpec :=
  allPresets.find? fun spec => spec.name == name

/-- `scale` is read nowhere.
mirrors proto/ai/pipestream/vlm/v1/vlm_convert.proto:64-123 -/
structure ConvertOptions extends EndpointPolicy.ConvertOptions where
  preset : Int
  presetRaw : Bytes
  responseFormat : Int
  prompt : Bytes
  concurrency : Nat
  abortOnError : Bool
  responseFormatRaw : Bytes
  deriving DecidableEq, Repr

/-- A message with no field set. -/
def ConvertOptions.empty : ConvertOptions := ⟨⟨[], 0⟩, 0, [], 0, [], 0, false, []⟩

/-- What a preset comes to before the request's own fields.
mirrors src/presets.cpp:62-87 -/
def presetRequest (options : ConvertOptions) : Option (ResolvedRequest × ResponseFormat) :=
  if options.preset = VlmPreset.raw.number then
    if options.presetRaw.isEmpty then none
    else some (⟨options.presetRaw, ascii "Convert this page to DocTags.", [], 4096⟩, .doctags)
  else
    let preset := if options.preset = VlmPreset.unspecified.number then
      VlmPreset.graniteDocling.number else options.preset
    (findPreset preset).map fun spec =>
      (⟨spec.model, spec.prompt, spec.stop, spec.maxTokens⟩, spec.format)

/-- The request and the number of its format; `none` when no model name
resolves.
mirrors src/presets.cpp:59-100 -/
def resolveRequest (options : ConvertOptions) : Option (ResolvedRequest × Int) :=
  (presetRequest options).map fun (request, format) =>
    ({ request with
        model := if !options.presetRaw.isEmpty && options.preset != VlmPreset.raw.number then
          options.presetRaw else request.model
        prompt := if options.prompt.isEmpty then request.prompt else options.prompt },
      if options.responseFormat ≠ formatNumber .unspecified then options.responseFormat
      else formatNumber format)

/-! ## Option checks -/

/-- mirrors src/service/vlm_convert_service.cpp:87 -/
def kMaxTopLogprobs : Nat := 20

/-- The format of `response_format_raw`, if it has one to say.
mirrors src/service/vlm_convert_service.cpp:183-201 -/
def rawFormat (options : ConvertOptions) (format : Int) : Except Refusal Int :=
  if options.responseFormatRaw.isEmpty then .ok format
  else
    match responseFormatFromDocling options.responseFormatRaw with
    | none => .error ⟨.invalidArgument,
        ascii "response_format_raw names no docling response format: \"" ++
        options.responseFormatRaw ++ ascii "\""⟩
    | some raw =>
      if options.responseFormat ≠ formatNumber .unspecified ∧
        options.responseFormat ≠ formatNumber raw then
        .error ⟨.invalidArgument, ascii "response_format " ++
          ((formatOfNumber options.responseFormat).map responseFormatName).getD [] ++
          ascii " conflicts with response_format_raw \"" ++ options.responseFormatRaw ++ ascii "\""⟩
      else .ok (formatNumber raw)

/-- The request of a stream and the number of its format.
mirrors src/service/vlm_convert_service.cpp:166-220 -/
def checkOptions (config : EndpointPolicy.Config) (options : ConvertOptions) :
    Except Refusal (ResolvedRequest × Int) :=
  match resolveRequest options with
  | none => .error ⟨.invalidArgument,
      ascii "preset resolves to no model name (set preset or preset_raw)"⟩
  | some (request, format) =>
    if (formatOfNumber format).isNone then
      .error ⟨.invalidArgument, ascii "unknown response_format value: " ++ decimalInt format⟩
    else
      match rawFormat options format with
      | .error refusal => .error refusal
      | .ok format =>
        if !responseFormatServed format then
          .error ⟨.unimplemented, ascii "response_format " ++
            ((formatOfNumber format).map responseFormatName).getD [] ++
            ascii " is not served by this server (MinerU2's two-pass protocol is not implemented)"⟩
        else if options.topLogprobs > kMaxTopLogprobs then
          .error ⟨.invalidArgument, ascii "top_logprobs must be 0.." ++ decimal kMaxTopLogprobs ++
            ascii ", got " ++ decimal options.topLogprobs⟩
        else if options.topLogprobs > 0 ∧ config.requestLogprobs = false then
          .error ⟨.failedPrecondition,
            ascii "top_logprobs needs logprobs, which this server does not request from its endpoint (GRPC_VLM_LOGPROBS=false)"⟩
        else .ok (request, format)

/-- What a stream's workers are given: a call for each raster, the format
answers are mapped from and the model they are put down to. -/
structure Opened where
  calls : Bytes → VlmCall
  format : Int
  model : Bytes

/-- The start of a stream.
mirrors src/service/vlm_convert_service.cpp:125-224 -/
def openConvert (config : EndpointPolicy.Config) (options : ConvertOptions) :
    Except Refusal Opened :=
  match streamEndpoint config options.toConvertOptions with
  | .error refusal => .error refusal
  | .ok endpoint =>
    match checkOptions config options with
    | .error refusal => .error refusal
    | .ok (request, format) =>
      .ok ⟨pageCall config options.toConvertOptions endpoint request, format, request.model⟩

/-- The calls are those of `openStream`. -/
theorem openConvert_openStream (config : EndpointPolicy.Config) (options : ConvertOptions) :
    (openConvert config options).map (·.calls) =
      openStream config options.toConvertOptions ((checkOptions config options).map (·.1)) := by
  unfold openConvert openStream
  cases streamEndpoint config options.toConvertOptions with
  | error refusal => rfl
  | ok endpoint => cases checkOptions config options <;> rfl

/-! ## GetServiceInfo -/

/-- The limits of the configuration that the service tells of. -/
structure ServiceLimits where
  concurrency : Nat
  maxPageBytes : Nat
  maxPages : Nat

/-- mirrors proto/ai/pipestream/vlm/v1/vlm_convert.proto:351-358 -/
structure UiInfo where
  title : Bytes
  path : Bytes
  description : Bytes

/-- What clients choose from and under which limits.
mirrors proto/ai/pipestream/vlm/v1/vlm_convert.proto:323-347 -/
structure ServiceInfo where
  version : Bytes
  endpoint : Bytes
  presets : List VlmPreset
  rawPresets : List Bytes
  concurrency : Nat
  maxPageBytes : Nat
  maxPages : Nat
  ui : UiInfo
  responseFormats : List ResponseFormat

/-- `GRPC_VLM_VERSION`, the build's project version.
mirrors CMakeLists.txt:2, 145 -/
def grpcVlmVersion : Bytes := ascii "0.1.0"

/-- mirrors src/service/vlm_convert_service.cpp:583-628 -/
def getServiceInfo (endpoint : Bytes) (presets : List Bytes) (limits : ServiceLimits) :
    ServiceInfo where
  version := grpcVlmVersion
  endpoint := if endpoint.isEmpty then [] else Endpoint.endpointOrigin endpoint
  presets :=
    if endpoint.isEmpty then []
    else if presets.isEmpty then allPresets.map (·.preset)
    else presets.filterMap fun name => (findPresetByName name).map (·.preset)
  rawPresets :=
    if endpoint.isEmpty then []
    else presets.filter fun name => (findPresetByName name).isNone
  responseFormats := allFormats.filter fun f => responseFormatServed (formatNumber f)
  concurrency := limits.concurrency % 2 ^ 32
  maxPageBytes := limits.maxPageBytes
  maxPages := limits.maxPages % 2 ^ 32
  ui :=
    ⟨ascii "VLM Convert", ascii "/ui/vlm-convert",
      ascii "Calls an external VLM server for document conversion"⟩

/-! ## Formats and their names -/

theorem formatOfNumber_number (f : ResponseFormat) : formatOfNumber (formatNumber f) = some f := by
  cases f <;> rfl

theorem formatOfNumber_eq_some {n : Int} {f : ResponseFormat} (h : formatOfNumber n = some f) :
    n = formatNumber f := by
  unfold formatOfNumber at h
  exact (beq_iff_eq.1 (by simpa only using List.find?_some h)).symm

theorem responseFormatParse_eq_some {name : Bytes} {f : ResponseFormat}
    (h : responseFormatParse name = some f) :
    name = responseFormatName f := by
  unfold responseFormatParse at h
  exact (beq_iff_eq.1 (by simpa only using List.find?_some h)).symm

theorem responseFormatServed_iff {n : Int} :
    responseFormatServed n = true ↔ ∃ f, n = formatNumber f ∧ f ≠ .unspecified ∧ f ≠ .mineru2 := by
  unfold responseFormatServed
  constructor
  · intro h
    split at h
    · cases h
    · rename_i f hf
      exact ⟨f, formatOfNumber_eq_some hf, by simpa using h⟩
  · rintro ⟨f, rfl, hf⟩
    rw [formatOfNumber_number]
    simpa using hf

theorem mem_responseFormats {endpoint : Bytes} {presets : List Bytes} {limits : ServiceLimits}
    {f : ResponseFormat} :
    f ∈ (getServiceInfo endpoint presets limits).responseFormats ↔
      f ≠ .unspecified ∧ f ≠ .mineru2 := by
  have hserved : f ∈ allFormats.filter (fun f => responseFormatServed (formatNumber f)) ↔
      f ≠ .unspecified ∧ f ≠ .mineru2 := by
    cases f <;> decide
  exact hserved

theorem toLower_toUpper {c : UInt8} (h : isUpper c = false) : toLower (toUpper c) = c := by
  unfold isUpper at h
  unfold toLower toUpper
  grind

theorem map_toLower_toUpper {value : Bytes} (h : value.any isUpper = false) :
    (value.map toUpper).map toLower = value := by
  rw [List.map_map]
  refine (List.map_congr_left fun c hc => ?_).trans (List.map_id value)
  exact toLower_toUpper (by simpa using List.any_eq_false.1 h c hc)

/-- **docling's names**: a value is read as the format whose name it is. -/
theorem responseFormatFromDocling_iff {value : Bytes} {f : ResponseFormat} :
    responseFormatFromDocling value = some f ↔
      f ≠ .unspecified ∧ value = doclingResponseFormatName (formatNumber f) := by
  constructor
  · intro h
    unfold responseFormatFromDocling at h
    split at h
    · cases h
    · split at h
      · cases h
      · rename_i hupper
        split at h
        · cases h
        · rename_i hnamed
          have hne : f ≠ .unspecified := fun heq => hnamed (heq ▸ h)
          have hname : formatName f = value.map toUpper :=
            (List.append_cancel_left (responseFormatParse_eq_some h)).symm
          have hvalue : value = (formatName f).map toLower := by
            rw [hname, map_toLower_toUpper (by simpa using hupper)]
          refine ⟨hne, hvalue.trans ?_⟩
          unfold doclingResponseFormatName
          rw [formatOfNumber_number]
          cases f <;> first | contradiction | rfl
  · rintro ⟨hne, rfl⟩
    cases f <;> first | contradiction | decide

/-! ## What the checks accept -/

section Accepted
variable {config : EndpointPolicy.Config} {options : ConvertOptions}

theorem checkOptions_ok {request : ResolvedRequest} {format : Int} :
    checkOptions config options = .ok (request, format) ↔
      ∃ chosen, resolveRequest options = some (request, chosen) ∧
        (formatOfNumber chosen).isSome = true ∧
        rawFormat options chosen = .ok format ∧ responseFormatServed format = true ∧
        options.topLogprobs ≤ kMaxTopLogprobs ∧
        (0 < options.topLogprobs → config.requestLogprobs = true) := by
  unfold checkOptions
  cases resolveRequest options with
  | none => simp
  | some resolved =>
    obtain ⟨request', chosen⟩ := resolved
    dsimp only
    cases hchosen : formatOfNumber chosen with
    | none => simp [hchosen]
    | some f =>
      cases hraw : rawFormat options chosen with
      | error refusal => simp [hraw]
      | ok format' =>
        by_cases hserved : responseFormatServed format' = true
        · grind
        · grind

theorem openConvert_ok {opened : Opened} :
    openConvert config options = .ok opened ↔
      ∃ endpoint request, streamEndpoint config options.toConvertOptions = .ok endpoint ∧
        checkOptions config options = .ok (request, opened.format) ∧
        opened = ⟨pageCall config options.toConvertOptions endpoint request, opened.format,
          request.model⟩ := by
  unfold openConvert
  cases streamEndpoint config options.toConvertOptions with
  | error refusal => simp
  | ok endpoint =>
    cases checkOptions config options with
    | error refusal => simp
    | ok accepted =>
      obtain ⟨request, format⟩ := accepted
      grind

/-- The preset and its overrides leave the format to be named or not. -/
theorem resolveRequest_format {request : ResolvedRequest} {chosen : Int}
    (h : resolveRequest options = some (request, chosen)) :
    ∃ base, ∀ n raw, resolveRequest { options with responseFormat := n, responseFormatRaw := raw } =
      some (request, if n ≠ formatNumber .unspecified then n else formatNumber base) := by
  unfold resolveRequest at h
  cases hpreset : presetRequest options with
  | none =>
    rw [hpreset] at h
    cases h
  | some preset =>
    simp only [hpreset, Option.map_some, Option.some.injEq, Prod.mk.injEq] at h
    refine ⟨preset.2, fun n raw => ?_⟩
    have hsame : presetRequest { options with responseFormat := n, responseFormatRaw := raw } =
      some preset :=
      hpreset
    simp only [resolveRequest, hsame, Option.map_some, ← h.1]

/-- Naming a served format, as a number or by docling's name, changes the
format and nothing else. -/
theorem checkOptions_names {request : ResolvedRequest} {format : Int} {f : ResponseFormat}
    (h : checkOptions config options = .ok (request, format))
    (hserved : f ≠ .unspecified ∧ f ≠ .mineru2)
    {n : Int} {raw : Bytes}
    (hnamed : n = formatNumber f ∧ raw = [] ∨
      (n = formatNumber .unspecified ∨ n = formatNumber f) ∧
        raw = doclingResponseFormatName (formatNumber f)) :
    checkOptions config { options with responseFormat := n, responseFormatRaw := raw } =
      .ok (request, formatNumber f) := by
  obtain ⟨chosen, hresolve, -, -, -, hmax, hlogprobs⟩ := checkOptions_ok.1 h
  obtain ⟨base, hbase⟩ := resolveRequest_format hresolve
  have hok : responseFormatServed (formatNumber f) = true :=
    responseFormatServed_iff.2 ⟨f, rfl, hserved⟩
  refine checkOptions_ok.2 ⟨_, hbase n raw, ?_, ?_, hok, hmax, hlogprobs⟩
  · rcases hnamed with ⟨rfl, -⟩ | ⟨rfl | rfl, -⟩
    · split <;> rw [formatOfNumber_number] <;> rfl
    · split <;> rw [formatOfNumber_number] <;> rfl
    · split <;> rw [formatOfNumber_number] <;> rfl
  · have hne : formatNumber f ≠ formatNumber .unspecified := by
      cases f <;> first | (exact absurd rfl hserved.1) | decide
    have hread := responseFormatFromDocling_iff.2 ⟨hserved.1, rfl⟩
    have hname : (doclingResponseFormatName (formatNumber f)).isEmpty = false := by
      cases f <;> first | (exact absurd rfl hserved.1) | decide
    unfold rawFormat
    rcases hnamed with ⟨rfl, rfl⟩ | ⟨hn, rfl⟩
    · simp [hne]
    · simp only [hname, hread]
      rcases hn with rfl | rfl <;> simp

/-- Another preset with a served format changes the request and its format. -/
theorem checkOptions_preset {request preset : ResolvedRequest} {format : Int} {f : ResponseFormat}
    (h : checkOptions config options = .ok (request, format)) {n : Int} {raw : Bytes}
    (hpreset : presetRequest { options with preset := n, presetRaw := raw } = some (preset, f))
    (hserved : f ≠ .unspecified ∧ f ≠ .mineru2) (hraw : raw = [] ∨ n = VlmPreset.raw.number) :
    ∃ request' format', checkOptions config { options with preset := n, presetRaw := raw } =
      .ok (request', format') ∧ request'.model = preset.model := by
  obtain ⟨chosen, hresolve, hvalid, hformat, hok, hmax, hlogprobs⟩ := checkOptions_ok.1 h
  have hmodel : (!raw.isEmpty && n != VlmPreset.raw.number) = false := by
    rcases hraw with rfl | rfl <;> simp
  have hresolve' : ∃ request', resolveRequest { options with preset := n, presetRaw := raw } =
      some (request',
        if options.responseFormat ≠ formatNumber .unspecified then options.responseFormat
        else formatNumber f) ∧ request'.model = preset.model := by
    refine ⟨{ preset with
      prompt := if options.prompt.isEmpty then preset.prompt else options.prompt }, ?_, rfl⟩
    simp [resolveRequest, hpreset, hmodel]
  obtain ⟨request', hresolve', hmodel⟩ := hresolve'
  -- the format is the one that was accepted, or the preset's own
  have hchosen : options.responseFormat ≠ formatNumber .unspecified →
    chosen = options.responseFormat := by
    intro hne
    unfold resolveRequest at hresolve
    simp only [Option.map_eq_some_iff, Prod.mk.injEq, if_pos hne] at hresolve
    obtain ⟨_, -, -, hchosen⟩ := hresolve
    exact hchosen.symm
  by_cases hnamed : options.responseFormat ≠ formatNumber .unspecified
  · rw [if_pos hnamed] at hresolve'
    rw [hchosen hnamed] at hvalid hformat
    exact ⟨request', format, checkOptions_ok.2
      ⟨_, hresolve', hvalid, hformat, hok, hmax, hlogprobs⟩, hmodel⟩
  · rw [if_neg hnamed] at hresolve'
    have hvalid : (formatOfNumber (formatNumber f)).isSome = true := by
      rw [formatOfNumber_number]; rfl
    by_cases hempty : options.responseFormatRaw.isEmpty = true
    · have hraw' : rawFormat { options with preset := n, presetRaw := raw } (formatNumber f) =
          .ok (formatNumber f) := by simp only [rawFormat, hempty, if_true]
      exact ⟨request', formatNumber f, checkOptions_ok.2
        ⟨_, hresolve', hvalid, hraw', responseFormatServed_iff.2 ⟨f, rfl, hserved⟩, hmax,
          hlogprobs⟩, hmodel⟩
    · have hraw' : rawFormat { options with preset := n, presetRaw := raw } (formatNumber f) =
        .ok format := by
        simpa only [rawFormat, if_neg hempty] using hformat
      exact ⟨request', format, checkOptions_ok.2
        ⟨_, hresolve', hvalid, hraw', hok, hmax, hlogprobs⟩, hmodel⟩

end Accepted

/-! ## The advertisement -/

theorem findPreset_number : ∀ spec ∈ allPresets, findPreset spec.preset.number = some spec := by
  simp only [allPresets, List.forall_mem_cons]
  exact ⟨rfl, rfl, rfl, rfl, rfl, rfl, rfl, rfl, rfl, List.forall_mem_nil _⟩

theorem served_of_preset :
    ∀ spec ∈ allPresets, spec.format ≠ .unspecified ∧ spec.format ≠ .mineru2 := by
  simp [allPresets]

theorem builtin_of_preset : ∀ spec ∈ allPresets,
    spec.preset ≠ VlmPreset.unspecified ∧ spec.preset ≠ VlmPreset.raw := by
  simp [allPresets]

theorem VlmPreset.number_eq (p q : VlmPreset) : p.number = q.number ↔ p = q := by
  cases p <;> cases q <;> decide

theorem mem_presets {endpoint : Bytes} {presets : List Bytes} {limits : ServiceLimits}
    {p : VlmPreset} (h : p ∈ (getServiceInfo endpoint presets limits).presets) :
    ∃ spec ∈ allPresets, spec.preset = p := by
  unfold getServiceInfo at h
  dsimp only at h
  split at h
  · cases h
  · split at h
    · exact List.mem_map.1 h
    · obtain ⟨name, -, hname⟩ := List.mem_filterMap.1 h
      obtain ⟨spec, hspec, rfl⟩ := Option.map_eq_some_iff.1 hname
      exact ⟨spec, List.mem_of_find?_eq_some hspec, rfl⟩

/-- **What is advertised is what is accepted.** A stream's format is one of
those listed; in any options a stream accepts, naming a listed format, either
way or both, or a listed preset or model, opens a stream with it. -/
theorem service_info_honoured (config : EndpointPolicy.Config) (presets : List Bytes)
    (limits : ServiceLimits) :
    (∀ options opened, openConvert config options = .ok opened →
      ∃ f ∈ (getServiceInfo config.endpoint presets limits).responseFormats,
        opened.format = formatNumber f) ∧
    (∀ f ∈ (getServiceInfo config.endpoint presets limits).responseFormats, ∀ options opened,
      openConvert config options = .ok opened → ∀ n raw,
        n = formatNumber f ∧ raw = [] ∨
          (n = formatNumber .unspecified ∨ n = formatNumber f) ∧
            raw = doclingResponseFormatName (formatNumber f) →
        openConvert config { options with responseFormat := n, responseFormatRaw := raw } =
          .ok { opened with format := formatNumber f }) ∧
    (∀ p ∈ (getServiceInfo config.endpoint presets limits).presets, ∀ options opened,
      openConvert config options = .ok opened → ∃ spec ∈ allPresets, spec.preset = p ∧ ∃ opened',
        openConvert config { options with preset := p.number, presetRaw := [] } = .ok opened' ∧
          opened'.model = spec.model ∧ ∀ png, (opened'.calls png).model = spec.model) ∧
    ∀ name ∈ (getServiceInfo config.endpoint presets limits).rawPresets, name ≠ [] →
      ∀ options opened, openConvert config options = .ok opened → ∃ opened',
        openConvert config { options with preset := VlmPreset.raw.number, presetRaw := name } =
          .ok opened' ∧
          opened'.model = name ∧ ∀ png, (opened'.calls png).model = name := by
  refine ⟨?_, ?_, ?_, ?_⟩
  · intro options opened h
    obtain ⟨_, _, -, hcheck, -⟩ := openConvert_ok.1 h
    obtain ⟨_, -, -, -, hserved, -⟩ := checkOptions_ok.1 hcheck
    obtain ⟨f, hf, hne⟩ := responseFormatServed_iff.1 hserved
    exact ⟨f, mem_responseFormats.2 hne, hf⟩
  · intro f hf options opened h n raw hnamed
    obtain ⟨endpoint, request, hendpoint, hcheck, heq⟩ := openConvert_ok.1 h
    have hcheck' := checkOptions_names hcheck (mem_responseFormats.1 hf) hnamed
    exact openConvert_ok.2 ⟨endpoint, request, hendpoint, hcheck', by rw [heq]⟩
  · intro p hp options opened h
    obtain ⟨spec, hspec, rfl⟩ := mem_presets hp
    obtain ⟨endpoint, request, hendpoint, hcheck, -⟩ := openConvert_ok.1 h
    have hpreset : presetRequest { options with preset := spec.preset.number, presetRaw := [] } =
        some (⟨spec.model, spec.prompt, spec.stop, spec.maxTokens⟩, spec.format) := by
      have hne := builtin_of_preset spec hspec
      simp only [presetRequest, VlmPreset.number_eq, hne.1, hne.2, if_false,
        findPreset_number spec hspec, Option.map_some]
    obtain ⟨request', format', hcheck', hmodel⟩ :=
      checkOptions_preset hcheck hpreset (served_of_preset spec hspec) (.inl rfl)
    exact ⟨spec, hspec, rfl,
      ⟨pageCall config options.toConvertOptions endpoint request', format', request'.model⟩,
      openConvert_ok.2 ⟨endpoint, request', hendpoint, hcheck', rfl⟩, hmodel, fun _ => hmodel⟩
  · intro name _ hname options opened h
    obtain ⟨endpoint, request, hendpoint, hcheck, -⟩ := openConvert_ok.1 h
    have hpreset :
      presetRequest { options with preset := VlmPreset.raw.number, presetRaw := name } =
        some (⟨name, ascii "Convert this page to DocTags.", [], 4096⟩, .doctags) := by
      simp [presetRequest, hname]
    obtain ⟨request', format', hcheck', hmodel⟩ :=
      checkOptions_preset hcheck hpreset (by decide) (.inr rfl)
    exact ⟨⟨pageCall config options.toConvertOptions endpoint request', format', request'.model⟩,
      openConvert_ok.2 ⟨endpoint, request', hendpoint, hcheck', rfl⟩, hmodel, fun _ => hmodel⟩

def sampleConfig : EndpointPolicy.Config := ⟨ascii "http://vlm:8080", [], false, true, 300⟩

theorem openConvert_sample : ∃ opened, openConvert sampleConfig .empty = .ok opened := by
  have h : (openConvert sampleConfig .empty).isOk = true := by decide
  cases hopen : openConvert sampleConfig .empty with
  | error refusal =>
    rw [hopen] at h
    cases h
  | ok opened => exact ⟨opened, rfl⟩

/-- A model beyond the presets, and a client naming docling's `dots_json`. -/
theorem service_info_honoured_sample :
    (∃ opened : Opened, openConvert sampleConfig
        { ConvertOptions.empty with responseFormat := 0, responseFormatRaw := ascii "dots_json" } =
      .ok { opened with format := 10 }) ∧
    ∃ opened, openConvert sampleConfig
        { ConvertOptions.empty with preset := 9, presetRaw := ascii "chandra" } =
      .ok opened ∧ opened.model = ascii "chandra" := by
  obtain ⟨-, hformats, -, hnames⟩ :=
    service_info_honoured sampleConfig [ascii "got-ocr-2", ascii "chandra"] ⟨2, 2 ^ 25, 512⟩
  obtain ⟨opened, hopen⟩ := openConvert_sample
  refine ⟨⟨opened, ?_⟩, ?_⟩
  · exact hformats .dotsJson (by decide) .empty opened hopen 0 (ascii "dots_json")
      (.inr ⟨.inl rfl, by decide⟩)
  · obtain ⟨opened', h, hmodel, -⟩ :=
      hnames (ascii "chandra") (by decide) (by decide) .empty opened hopen
    exact ⟨opened', h, hmodel⟩

end VlmConvert.L4.Presets
