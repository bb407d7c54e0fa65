import VlmConvert.L4Service.Settings
import VlmConvert.L4Service.Transports

/-!
# The HTTP front end

`POST /v1/convert` and `POST /v1/convert/stream` take a JSON envelope of options
and pages and run the pipeline on it; `GET /healthz` answers `ok`. With a token
configured, every other route wants it as a bearer token, before the body is
read (`http_gateway.cpp:143-182`).

The JSON library and protobuf's reader of it are parameters (`Library`). A
request that gets in becomes a call of `Transports` under the limits of
`Settings`; what is sent for it is theirs.

Results:
* `secretMatches_iff`: the comparison that never stops early is equality.
* `parsePages_ok`, `parsePages_error`: what a body's pages are read as, and
  which one an error names.
* `gateway_authenticates`: who gets in, from the environment on.
* `request_answered`: a body answered 200 had every page of it converted.
-/
namespace VlmConvert.L4.Gateway

open Bytes Presets Settings
open Transports (Framing Call)

/-! ## The token -/

/-- What the comparison has seen differ, a byte at a time.
mirrors src/secret.h:32-38 -/
def difference : Bytes → Bytes → UInt8 → UInt8
  | _, [], seen => seen
  | value, b :: candidate, seen => difference value.tail candidate (seen ||| (value.headD 0 ^^^ b))

/-- `Secret::matches`: every byte of the candidate is looked at.
mirrors src/secret.h:28-40 -/
def secretMatches (value candidate : Bytes) : Bool :=
  if value.isEmpty then false
  else difference value candidate (if candidate.length = value.length then 0 else 1) == 0

/-- mirrors src/http_gateway.cpp:69-74 -/
def bearerMatches (header token : Bytes) : Bool :=
  (ascii "Bearer ").isPrefixOf header && secretMatches token (header.drop (ascii "Bearer ").length)

theorem difference_seen {value candidate : Bytes} {seen : UInt8}
    (h : difference value candidate seen = 0) :
    seen = 0 := by
  induction candidate generalizing value seen with
  | nil => exact h
  | cons b candidate ih => exact (UInt8.or_eq_zero_iff.1 (ih h)).1

theorem difference_eq_zero {value candidate : Bytes} {seen : UInt8}
    (hlen : candidate.length = value.length) :
    difference value candidate seen = 0 ↔ seen = 0 ∧ candidate = value := by
  induction candidate generalizing value seen with
  | nil =>
    have hnil : value = [] := List.eq_nil_of_length_eq_zero hlen.symm
    simp [difference, hnil]
  | cons b candidate ih =>
    cases value with
    | nil => cases hlen
    | cons v value =>
      rw [difference, List.tail_cons, List.headD_cons, ih (Nat.succ.inj hlen), UInt8.or_eq_zero_iff,
        UInt8.xor_eq_zero_iff, List.cons.injEq, and_assoc, eq_comm (a := v)]

/-- A credential is matched by itself alone, and an empty one by nothing. -/
theorem secretMatches_iff {value candidate : Bytes} :
    secretMatches value candidate = true ↔ value ≠ [] ∧ candidate = value := by
  unfold secretMatches
  cases value with
  | nil => simp
  | cons v value =>
    simp only [List.isEmpty_cons, Bool.false_eq_true, if_false, beq_iff_eq, ne_eq, reduceCtorEq,
      not_false_eq_true, true_and]
    by_cases hlen : candidate.length = (v :: value).length
    · rw [if_pos hlen, difference_eq_zero hlen, and_iff_right rfl]
    · rw [if_neg hlen]
      constructor
      · intro h
        cases difference_seen h
      · intro h
        exact absurd (congrArg List.length h) hlen

theorem bearerMatches_iff {header token : Bytes} :
    bearerMatches header token = true ↔ token ≠ [] ∧ header = ascii "Bearer " ++ token := by
  rw [bearerMatches, Bool.and_eq_true, secretMatches_iff, List.isPrefixOf_iff_prefix]
  constructor
  · intro ⟨hscheme, hset, hrest⟩
    obtain ⟨rest, rfl⟩ := hscheme
    rw [List.drop_left] at hrest
    exact ⟨hset, by rw [hrest]⟩
  · intro ⟨hset, hheader⟩
    subst hheader
    exact ⟨List.prefix_append _ _, hset, List.drop_left⟩

/-! ## The body -/

/-- `nlohmann::json::parse`, and `JsonStringToMessage` of what it `dump`s. -/
structure Library where
  parse : Bytes → Option VlmClient.Json
  toOptions : VlmClient.Json → Except Bytes ConvertOptions
  toPage : VlmClient.Json → Except Bytes Pipeline.PageImage

/-- The elements from `index` on, up to the first that is no page.
mirrors src/http_gateway.cpp:102-115 -/
def parsePages (lib : Library) (index : Nat) :
    List VlmClient.Json → Except Bytes (List Pipeline.PageImage)
  | [] => .ok []
  | element :: rest =>
    match lib.toPage element with
    | .error why => .error (ascii "pages[" ++ decimal index ++ ascii "]: " ++ why)
    | .ok image => (parsePages lib (index + 1) rest).map (image :: ·)

/-- mirrors src/http_gateway.cpp:82-86 -/
def parseEnvelope (lib : Library) (body : Bytes) : Except Bytes VlmClient.Json :=
  match lib.parse body with
  | some (.object entries) => .ok (.object entries)
  | _ => .error (ascii "request body must be a JSON object")

/-- The options, if the envelope has any. mirrors src/http_gateway.cpp:87-96 -/
def parseOptions (lib : Library) (envelope : VlmClient.Json) :
    Except Bytes (Option ConvertOptions) :=
  match envelope.find? (ascii "options") with
  | none => .ok none
  | some json =>
    match lib.toOptions json with
    | .error why => .error (ascii "options: " ++ why)
    | .ok options => .ok (some options)

/-- mirrors src/http_gateway.cpp:98-116 -/
def parseImages (lib : Library) (envelope : VlmClient.Json) :
    Except Bytes (List Pipeline.PageImage) :=
  match envelope.find? (ascii "pages") with
  | none => .ok []
  | some pages =>
    match pages.asArray with
    | none => .error (ascii "pages must be an array")
    | some elements => parsePages lib 0 elements

/-- The messages a gRPC client would send: options first, then the pages.
mirrors src/http_gateway.cpp:80-118 -/
def parseConvertBody (lib : Library) (body : Bytes) :
    Except Bytes (Option ConvertOptions × List Pipeline.PageImage) := do
  let envelope ← parseEnvelope lib body
  let options ← parseOptions lib envelope
  let images ← parseImages lib envelope
  return (options, images)

/-- The elements of the body's `pages`. -/
def elementsOf (lib : Library) (body : Bytes) : List VlmClient.Json :=
  ((((lib.parse body).bind (·.find? (ascii "pages"))).bind VlmClient.Json.asArray).getD [])

section Body
variable {lib : Library} {elements : List VlmClient.Json} {images : List Pipeline.PageImage}
    {index : Nat}

/-- The pages are the elements, each read as a page. -/
theorem parsePages_ok (h : parsePages lib index elements = .ok images) :
    elements.map lib.toPage = images.map Except.ok := by
  induction elements generalizing index images with
  | nil =>
    cases h
    rfl
  | cons element rest ih =>
    rw [parsePages] at h
    split at h
    · cases h
    · rename_i image hpage
      cases hrest : parsePages lib (index + 1) rest with
      | error why =>
        rw [hrest] at h
        cases h
      | ok images' =>
        rw [hrest] at h
        cases h
        rw [List.map_cons, List.map_cons, hpage, ih hrest]

/-- An error names the first element that is no page. -/
theorem parsePages_error {problem : Bytes} (h : parsePages lib index elements = .error problem) :
    ∃ before element after why, elements = before ++ element :: after ∧
      (∀ e ∈ before, ∃ image, lib.toPage e = .ok image) ∧ lib.toPage element = .error why ∧
      problem = ascii "pages[" ++ decimal (index + before.length) ++ ascii "]: " ++ why := by
  induction elements generalizing index with
  | nil => cases h
  | cons element rest ih =>
    rw [parsePages] at h
    split at h
    · rename_i why hpage
      cases h
      exact ⟨[], element, rest, why, rfl, List.forall_mem_nil _, hpage, rfl⟩
    · rename_i image hpage
      cases hrest : parsePages lib (index + 1) rest with
      | ok images =>
        rw [hrest] at h
        cases h
      | error problem' =>
        rw [hrest] at h
        cases h
        obtain ⟨before, bad, after, why, rfl, hbefore, hbad, hproblem⟩ := ih hrest
        refine ⟨element :: before, bad, after, why, rfl,
          List.forall_mem_cons.2 ⟨⟨image, hpage⟩, hbefore⟩, hbad, ?_⟩
        rw [hproblem, List.length_cons, Nat.add_right_comm, Nat.add_assoc]

theorem parseEnvelope_ok {body : Bytes} {envelope : VlmClient.Json}
    (h : parseEnvelope lib body = .ok envelope) :
    lib.parse body = some envelope := by
  unfold parseEnvelope at h
  split at h
  · rename_i entries hparse
    cases h
    exact hparse
  · cases h

theorem parseImages_ok {envelope : VlmClient.Json} (h : parseImages lib envelope = .ok images) :
    (((envelope.find? (ascii "pages")).bind VlmClient.Json.asArray).getD []).map lib.toPage =
      images.map Except.ok := by
  unfold parseImages at h
  split at h
  · rename_i hnone
    cases h
    rw [hnone]
    rfl
  · rename_i pages hpages
    rw [hpages, Option.bind_some]
    split at h
    · cases h
    · rename_i elements harray
      rw [harray]
      exact parsePages_ok h

/-- A body that is accepted has every element of its `pages` read as a page. -/
theorem parseConvertBody_ok {body : Bytes} {options : Option ConvertOptions}
    (h : parseConvertBody lib body = .ok (options, images)) :
    (elementsOf lib body).map lib.toPage = images.map Except.ok := by
  unfold parseConvertBody at h
  obtain ⟨envelope, henvelope, h⟩ := bind_ok.1 h
  obtain ⟨options', -, h⟩ := bind_ok.1 h
  obtain ⟨images', himages, h⟩ := bind_ok.1 h
  cases h
  rw [elementsOf, parseEnvelope_ok henvelope, Option.bind_some]
  exact parseImages_ok himages

end Body

/-! ## Routes -/

inductive Method
  | get | post | other
  deriving DecidableEq, Repr

/-- `authorization` is empty when the header is not sent. -/
structure HttpRequest where
  method : Method
  path : Bytes
  authorization : Bytes
  body : Bytes

/-- What comes of a request before the pipeline runs. -/
inductive Reply
  | unauthorized
  | tooLarge
  | healthy
  | notFound
  | badBody (problem : Bytes)
  | refused (refusal : EndpointPolicy.Refusal)
  | admitted (opened : Opened) (call : Call)

/-- mirrors src/http_gateway.cpp:151-156 -/
def unauthorized (config : Settings.Config) (request : HttpRequest) : Bool :=
  !config.httpToken.isEmpty &&
    !(request.path == ascii "/healthz" || bearerMatches request.authorization config.httpToken)

/-- mirrors src/http_gateway.cpp:173-181 -/
def framingOf (request : HttpRequest) : Option Framing :=
  if request.method = .post then
    if request.path = ascii "/v1/convert" then some .whole
    else if request.path = ascii "/v1/convert/stream" then some .lines
    else none
  else none

/-- The start of `ConvertPagesCore` on the messages of a body.
mirrors src/service/vlm_convert_service.cpp:134-226 and src/http_gateway.cpp:124-141 -/
def openBody (config : Settings.Config) (framing : Framing) (images : List Pipeline.PageImage) :
    Option ConvertOptions → Reply
  | none => .refused ⟨.invalidArgument, ascii "first stream message must be ConvertOptions"⟩
  | some options =>
    match openConvert config.policy options with
    | .error refusal => .refused refusal
    | .ok opened =>
      .admitted opened ⟨framing, ⟨options.concurrency, options.abortOnError⟩, images.map .pageImage⟩

/-- mirrors src/http_gateway.cpp:143-182, 206-216 and 256-266 -/
def handle (lib : Library) (config : Settings.Config) (request : HttpRequest) : Reply :=
  if unauthorized config request then .unauthorized
  else if request.body.length > config.httpMaxBodyBytes then .tooLarge
  else
    match framingOf request with
    | none =>
      if request.method = .get ∧ request.path = ascii "/healthz" then .healthy else .notFound
    | some framing =>
      match parseConvertBody lib request.body with
      | .error problem => .badBody problem
      | .ok (options, images) => openBody config framing images options

section Routes
variable {lib : Library} {config : Settings.Config} {request : HttpRequest} {opened : Opened}
    {call : Call}

theorem openBody_ne {framing : Framing} {images : List Pipeline.PageImage}
    (options : Option ConvertOptions) :
    openBody config framing images options ≠ .unauthorized := by
  unfold openBody
  split
  · simp
  · split <;> simp

theorem handle_unauthorized :
    handle lib config request = .unauthorized ↔ unauthorized config request = true := by
  unfold handle
  split
  · rename_i hno
    exact ⟨fun _ => hno, fun _ => rfl⟩
  · rename_i hyes
    refine ⟨fun h => ?_, fun h => absurd h hyes⟩
    split at h
    · cases h
    · split at h
      · split at h <;> cases h
      · split at h
        · cases h
        · exact absurd h (openBody_ne _)

/-- What is known of a request that gets in. -/
theorem handle_admitted (h : handle lib config request = .admitted opened call) :
    unauthorized config request = false ∧ request.body.length ≤ config.httpMaxBodyBytes ∧
      ∃ options images, framingOf request = some call.framing ∧
        parseConvertBody lib request.body = .ok (some options, images) ∧
        openConvert config.policy options = .ok opened ∧ call.messages = images.map .pageImage := by
  unfold handle at h
  split at h
  · cases h
  · rename_i hauthorized
    split at h
    · cases h
    · rename_i hsize
      split at h
      · split at h <;> cases h
      · rename_i framing hframing
        split at h
        · cases h
        · rename_i options images hparse
          cases options with
          | none => cases h
          | some options =>
            rw [openBody] at h
            split at h
            · cases h
            · rename_i opened' hopened
              cases h
              exact ⟨Bool.eq_false_iff.2 hauthorized, Nat.le_of_not_lt hsize, options, images,
                hframing, hparse, hopened, rfl⟩

theorem unauthorized_iff :
    unauthorized config request = true ↔ config.httpToken ≠ [] ∧ request.path ≠ ascii "/healthz" ∧
      request.authorization ≠ ascii "Bearer " ++ config.httpToken := by
  have hmatches := @bearerMatches_iff request.authorization config.httpToken
  unfold unauthorized
  cases hb : bearerMatches request.authorization config.httpToken with
  | true =>
    obtain ⟨hset, hheader⟩ := hmatches.1 hb
    simp [hheader]
  | false =>
    have hno : config.httpToken ≠ [] →
      request.authorization ≠ ascii "Bearer " ++ config.httpToken := by
      intro hset hheader
      rw [hmatches.2 ⟨hset, hheader⟩] at hb
      cases hb
    simp only [Bool.or_false, Bool.and_eq_true, Bool.not_eq_true', List.isEmpty_eq_false_iff,
      beq_eq_false_iff_ne, ne_eq]
    exact ⟨fun ⟨hset, hpath⟩ => ⟨hset, hpath, hno hset⟩, fun ⟨hset, hpath, _⟩ => ⟨hset, hpath⟩⟩

end Routes

theorem healthz_ne :
    ascii "/healthz" ≠ ascii "/v1/convert" ∧ ascii "/healthz" ≠ ascii "/v1/convert/stream" := by
  decide

/-- The operator's token, which is not empty. -/
def IsToken (env : Env) (token : Bytes) : Prop :=
  env (ascii "GRPC_VLM_HTTP_TOKEN") = some token ∧ token ≠ []

section Front
variable {env : Env} {config : Settings.Config} {lib : Library} {request : HttpRequest}
    {opened : Opened}
  {call : Call}

theorem isToken_iff (hload : loadConfigFromEnv env = .ok config) {token : Bytes} :
    IsToken env token ↔ config.httpToken = token ∧ token ≠ [] := by
  obtain ⟨-, -, -, -, -, htoken, -⟩ := load_fields hload
  unfold IsToken
  rw [htoken, configuredSecret]
  cases env (ascii "GRPC_VLM_HTTP_TOKEN") with
  | none =>
    refine ⟨fun ⟨h, _⟩ => (by cases h), fun ⟨h, hset⟩ => absurd h.symm hset⟩
  | some raw => simp

/-- A request that gets in comes from this machine or has the token. -/
theorem admitted_authorized (hload : loadConfigFromEnv env = .ok config) (hon : config.httpPort ≠ 0)
    (h : handle lib config request = .admitted opened call) :
    (isLoopbackHost config.httpHost = true ∧ config.httpToken = []) ∨
      ∃ token, IsToken env token ∧ request.authorization = ascii "Bearer " ++ token := by
  obtain ⟨hauthorized, -, options, images, hframing, -⟩ := handle_admitted h
  by_cases hset : config.httpToken = []
  · refine .inl ⟨?_, hset⟩
    by_contra hfar
    exact (load_valid hload).authenticated hon (Bool.eq_false_iff.2 hfar) hset
  · have hpath : request.path ≠ ascii "/healthz" := by
      intro hpath
      rw [framingOf, hpath, if_neg healthz_ne.1, if_neg healthz_ne.2, ite_self] at hframing
      cases hframing
    refine .inr ⟨config.httpToken, (isToken_iff hload).2 ⟨rfl, hset⟩, ?_⟩
    by_contra hheader
    rw [unauthorized_iff.2 ⟨hset, hpath, hheader⟩] at hauthorized
    cases hauthorized

end Front

/-- **Who gets in.** With the front end on, a request is turned away as
unauthorized exactly if the operator set a token and the request, other than
for `/healthz`, does not carry it; and one that reaches the pipeline carries it,
or the front end is bound to loopback. -/
theorem gateway_authenticates {env : Env} {config : Settings.Config}
    (hload : loadConfigFromEnv env = .ok config)
    (hon : config.httpPort ≠ 0) (lib : Library) (request : HttpRequest) :
    (handle lib config request = .unauthorized ↔
      request.path ≠ ascii "/healthz" ∧
        ∃ token, IsToken env token ∧ request.authorization ≠ ascii "Bearer " ++ token) ∧
    ∀ opened call, handle lib config request = .admitted opened call →
      isLoopbackHost config.httpHost = true ∨
        ∃ token, IsToken env token ∧ request.authorization = ascii "Bearer " ++ token := by
  refine ⟨?_, fun opened call h => (admitted_authorized hload hon h).imp_left And.left⟩
  rw [handle_unauthorized, unauthorized_iff]
  constructor
  · intro ⟨hset, hpath, hheader⟩
    exact ⟨hpath, config.httpToken, (isToken_iff hload).2 ⟨rfl, hset⟩, hheader⟩
  · intro ⟨hpath, token, htoken, hheader⟩
    obtain ⟨rfl, hset⟩ := (isToken_iff hload).1 htoken
    exact ⟨hset, hpath, hheader⟩

/-! ## From the request to the answer -/

section Answer
open Transports Pipeline

theorem pagesOf_pages (images : List PageImage) : pagesOf (images.map .pageImage) = images := by
  rw [pagesOf, List.filterMap_map]
  exact List.filterMap_some

theorem framing_of_path {request : HttpRequest} {framing : Framing}
    (h : framingOf request = some framing)
    (hpath : request.path = ascii "/v1/convert") : framing = .whole := by
  unfold framingOf at h
  rw [if_pos hpath] at h
  split at h
  · cases h
    rfl
  · cases h

/-- **A request that is answered 200** was allowed in, and every element of its
body's `pages` was read as a page, started in that order and ended once; the
answer holds every event. -/
theorem request_answered {env : Env} {config : Settings.Config}
    (hload : loadConfigFromEnv env = .ok config)
    (hon : config.httpPort ≠ 0) {lib : Library} {request : HttpRequest} {opened : Opened}
    {call : Call}
    (hadmitted : handle lib config request = .admitted opened call)
    (hpath : request.path = ascii "/v1/convert")
    {print : Printer} {calls : List Call} {p : Process} {k : Nat} {st : Stream} {t : Transport}
    {status : Status}
    (hr : (Transports.lts (config.limits (load_valid hload)) print calls).Reachable p)
    (hcall : calls[k]? = some call)
    (hst : p.pipe.streams[k]? = some st) (ht : p.transports[k]? = some t)
    (hret : st.reader = .returned status)
    (h200 : convertHttpStatus t status = 200) :
    ((isLoopbackHost config.httpHost = true ∧ config.httpToken = []) ∨
      ∃ token, IsToken env token ∧ request.authorization = ascii "Bearer " ++ token) ∧
    ∃ images, (elementsOf lib request.body).map lib.toPage = images.map Except.ok ∧
      Answered images st.wire ∧
      t.sent.map some = st.wire.map print := by
  obtain ⟨-, -, options, images, hframing, hparse, -, hmessages⟩ := handle_admitted hadmitted
  have hwhole := framing_of_path hframing hpath
  have hinv := inv_reachable (reachable_pipe hr) st (List.mem_of_getElem? hst)
  have hreplayed := replayed_reachable hr hcall hst ht
  obtain ⟨hok, hfailed⟩ := convertHttpStatus_ok h200
  have hanswered := hreplayed.answered hinv (by simp [hwhole]) hret hok
  rw [hmessages, pagesOf_pages] at hanswered
  exact ⟨admitted_authorized hload hon hadmitted, images, parseConvertBody_ok hparse, hanswered,
    (delivered_reachable hr hcall hst ht).whole_sent (hreplayed.framing.trans hwhole) hfailed⟩

def sampleEnvelope : VlmClient.Json :=
  let page := .object [(ascii "pageNo", .unsigned 1), (ascii "png", .string (ascii "iVBORw0KGgo="))]
  .object [(ascii "options", .object []), (ascii "pages", .array [page, page])]

def sampleRequest : HttpRequest where
  method := .post
  path := ascii "/v1/convert"
  authorization := ascii "Bearer one"
  body := ascii "\x7b\"options\":\x7b\x7d,\"pages\":[\x7b\"pageNo\":1,\"png\":\"iVBORw0KGgo=\"\x7d,\x7b\"pageNo\":1,\"png\":\"iVBORw0KGgo=\"\x7d]\x7d"

/-- It reads the one body. -/
def sampleLibrary : Library where
  parse body := if body = sampleRequest.body then some sampleEnvelope else none
  toOptions _ := .ok .empty
  toPage _ := .ok samplePage

def Reply.call? : Reply → Option Call
  | .admitted _ call => some call
  | _ => none

theorem admitted_of_call {reply : Reply} (h : reply.call? = some call) :
    ∃ opened, reply = .admitted opened call := by
  cases reply with
  | admitted opened call' =>
    cases h
    exact ⟨opened, rfl⟩
  | _ => cases h

theorem gateway_authenticates_sample :
    handle sampleLibrary Settings.sampleConfig
        { sampleRequest with authorization := ascii "Bearer two" } = .unauthorized :=
  (gateway_authenticates sampleEnv_loads (by decide) sampleLibrary
    { sampleRequest with authorization := ascii "Bearer two" }).1.2
    ⟨by decide, ascii "one", ⟨by decide, by decide⟩, by decide⟩

theorem request_answered_sample :
    ∃ (images : List PageImage) (st : Pipeline.Stream),
      (elementsOf sampleLibrary sampleRequest.body).map sampleLibrary.toPage =
      images.map Except.ok ∧
      Answered images st.wire ∧ st.reader = .returned Status.OK := by
  obtain ⟨call, hcall⟩ := Option.isSome_iff_exists.1
    (show (sampleCalls[0]?).isSome = true by decide)
  have hrun : (handle sampleLibrary Settings.sampleConfig sampleRequest).call? = sampleCalls[0]? :=
    by decide
  obtain ⟨opened, hadmitted⟩ := admitted_of_call (hrun.trans hcall)
  obtain ⟨p, st, t, hr, hst, ht, hret, -, hfailed⟩ :=
    sample_reach (c := Settings.sampleConfig.limits (load_valid sampleEnv_loads))
      (by decide)
  obtain ⟨-, images, hread, hanswered, -⟩ :=
    request_answered sampleEnv_loads (by decide) hadmitted rfl hr hcall
    (show p.pipe.streams[0]? = some st by rw [hst]; rfl)
      (show p.transports[0]? = some t by rw [ht]; rfl) hret
    (convertHttpStatus_sent hfailed)
  exact ⟨images, st, hread, hanswered, hret⟩

end Answer

end VlmConvert.L4.Gateway
