import VlmConvert.L4Service.VlmClient

/-!
# Which endpoint a stream calls

The start of `ConvertPagesCore` (`src/service/vlm_convert_service.cpp:142-164`)
decides which endpoint a stream may use, and the read loop (:523-540) puts it
and the key into every page's call. The option checks between the two pick the
model, the prompt and the format; they read neither the endpoint nor the key,
and what they come to is a parameter here.

Results:
* `sameEndpoint_symm`, `sameEndpoint_trans`, `sameEndpoint_self`.
* `openStream_call`: the endpoint and the key of a stream's calls.
* `endpoint_policy`: the key goes to the configured endpoint and nowhere else.
-/
namespace VlmConvert.L4

open Bytes Endpoint VlmClient

/-! ## Endpoint identity -/

namespace Endpoint

theorem sameEndpoint_iff {left right : Bytes} :
    sameEndpoint left right = true ↔
      ∃ a b, parseEndpoint left = .ok a ∧ parseEndpoint right = .ok b ∧
      a.host = b.host ∧ a.port = b.port ∧ a.target = b.target := by
  unfold sameEndpoint
  split
  · rename_i a b ha hb
    simp only [ha, hb, Except.ok.injEq, Bool.and_eq_true, beq_iff_eq]
    constructor
    · rintro ⟨⟨hhost, hport⟩, htarget⟩
      exact ⟨a, b, rfl, rfl, hhost, hport, htarget⟩
    · rintro ⟨a, b, rfl, rfl, hhost, hport, htarget⟩
      exact ⟨⟨hhost, hport⟩, htarget⟩
  · rename_i hfail
    simp only [Bool.false_eq_true, false_iff]
    rintro ⟨a, b, ha, hb, -⟩
    exact hfail a b ha hb

theorem sameEndpoint_symm {left right : Bytes} (h : sameEndpoint left right = true) :
    sameEndpoint right left = true := by
  obtain ⟨a, b, ha, hb, hhost, hport, htarget⟩ := sameEndpoint_iff.1 h
  exact sameEndpoint_iff.2 ⟨b, a, hb, ha, hhost.symm, hport.symm, htarget.symm⟩

theorem sameEndpoint_trans {left middle right : Bytes} (h : sameEndpoint left middle = true)
    (h' : sameEndpoint middle right = true) : sameEndpoint left right = true := by
  obtain ⟨a, b, ha, hb, hhost, hport, htarget⟩ := sameEndpoint_iff.1 h
  obtain ⟨b', c, hb', hc, hhost', hport', htarget'⟩ := sameEndpoint_iff.1 h'
  rw [hb] at hb'
  cases hb'
  exact sameEndpoint_iff.2
    ⟨a, c, ha, hc, hhost.trans hhost', hport.trans hport', htarget.trans htarget'⟩

theorem sameEndpoint_self (endpoint : Bytes) :
    sameEndpoint endpoint endpoint = true ↔ ∃ parsed, parseEndpoint endpoint = .ok parsed := by
  constructor
  · intro h
    obtain ⟨a, -, ha, -⟩ := sameEndpoint_iff.1 h
    exact ⟨a, ha⟩
  · rintro ⟨parsed, h⟩
    exact sameEndpoint_iff.2 ⟨parsed, parsed, h, h, rfl, rfl, rfl⟩

theorem Rule.text_ne_nil (rule : Rule) : rule.text ≠ [] := by
  cases rule <;> decide

/-- No error text is empty, so an empty one means the endpoint is usable. -/
theorem endpointError_isEmpty {endpoint : Bytes} (h : (endpointError endpoint).isEmpty = true) :
    ∃ parsed, parseEndpoint endpoint = .ok parsed := by
  cases hparse : parseEndpoint endpoint with
  | ok parsed => exact ⟨parsed, rfl⟩
  | error problem =>
    obtain ⟨rule, -, rfl⟩ := (parseEndpoint_refused endpoint problem).1 hparse
    simp only [endpointError, hparse, List.isEmpty_iff] at h
    exact absurd h rule.text_ne_nil

end Endpoint

/-! ## The policy -/

namespace EndpointPolicy

/-- The operator's settings a call is made from.
mirrors src/config.h:14-80 -/
structure Config where
  endpoint : Bytes
  vlmApiKey : Bytes
  allowEndpointOverride : Bool
  requestLogprobs : Bool
  vlmTimeoutSeconds : Nat
  deriving DecidableEq, Repr

/-- The part of `ConvertOptions` a call is made from. -/
structure ConvertOptions where
  endpoint : Bytes
  topLogprobs : Nat
  deriving DecidableEq, Repr

/-- What the preset and the option checks come to. -/
structure ResolvedRequest where
  model : Bytes
  prompt : Bytes
  stop : List Bytes
  maxTokens : Int
  deriving DecidableEq, Repr

inductive RefusalCode where
  | permissionDenied
  | failedPrecondition
  | invalidArgument
  | unimplemented
  deriving DecidableEq, Repr

structure Refusal where
  code : RefusalCode
  message : Bytes
  deriving DecidableEq, Repr

section Policy
variable (config : Config) (options : ConvertOptions)

/-- The configured endpoint in another spelling is no override.
mirrors src/service/vlm_convert_service.cpp:147-148 -/
def endpointOverride : Bool :=
  !options.endpoint.isEmpty && !sameEndpoint options.endpoint config.endpoint

/-- mirrors src/service/vlm_convert_service.cpp:142-164 -/
def streamEndpoint : Except Refusal Bytes :=
  let override := endpointOverride config options
  if override && !config.allowEndpointOverride then
    .error ⟨.permissionDenied,
      ascii "per-request endpoint overrides are disabled on this server (the operator enables them with GRPC_VLM_ALLOW_ENDPOINT_OVERRIDE=true)"⟩
  else
    let endpoint := if override then options.endpoint else config.endpoint
    if endpoint.isEmpty then
      .error ⟨.failedPrecondition,
        if config.allowEndpointOverride then
          ascii "no VLM endpoint configured (GRPC_VLM_ENDPOINT) and no per-request endpoint override"
        else ascii "no VLM endpoint configured (GRPC_VLM_ENDPOINT)"⟩
    else if !(endpointError endpoint).isEmpty then .error ⟨.invalidArgument, endpointError endpoint⟩
    else .ok endpoint

/-- The operator's key goes to the operator's endpoint only. A worker fills in
the raster and the stream's own cancel probe.
mirrors src/service/vlm_convert_service.cpp:523-540 and 301-303 -/
def pageCall (endpoint : Bytes) (resolved : ResolvedRequest) (png : Bytes) : VlmCall where
  endpoint := endpoint
  model := resolved.model
  prompt := resolved.prompt
  stop := resolved.stop
  maxTokens := resolved.maxTokens
  topLogprobs := options.topLogprobs
  logprobs := config.requestLogprobs
  png := png
  timeoutSeconds := config.vlmTimeoutSeconds
  apiKey := if endpointOverride config options then [] else config.vlmApiKey
  hasProbe := true

/-- The call a stream makes for each page, once its options are accepted.
mirrors src/service/vlm_convert_service.cpp:125-226 and 523-540 -/
def openStream (resolved : Except Refusal ResolvedRequest) : Except Refusal (Bytes → VlmCall) :=
  match streamEndpoint config options with
  | .error refusal => .error refusal
  | .ok endpoint =>
    match resolved with
    | .error refusal => .error refusal
    | .ok resolved => .ok (pageCall config options endpoint resolved)

end Policy

section Calls
variable {config : Config} {options : ConvertOptions} {resolved : Except Refusal ResolvedRequest}

/-- An endpoint that passes is the request's own if it overrides, and parses. -/
theorem streamEndpoint_ok {endpoint : Bytes} (h : streamEndpoint config options = .ok endpoint) :
    (endpointOverride config options = true → config.allowEndpointOverride = true) ∧
      endpoint = (if endpointOverride config options then options.endpoint else config.endpoint) ∧
      ∃ parsed, parseEndpoint endpoint = .ok parsed := by
  unfold streamEndpoint at h
  dsimp only at h
  generalize (if endpointOverride config options then options.endpoint else config.endpoint) =
    chosen
    at h ⊢
  split at h
  · cases h
  · rename_i hallowed
    split at h
    · cases h
    · split at h
      · cases h
      · rename_i hproblem
        cases h
        refine ⟨?_, rfl, endpointError_isEmpty (by simpa using hproblem)⟩
        intro hoverride
        simpa [hoverride] using hallowed

/-- **A stream's calls.** An override goes to another endpoint, without the
key; any other call goes to the configured string, with it. -/
theorem openStream_call {calls : Bytes → VlmCall}
    (h : openStream config options resolved = .ok calls)
    (png : Bytes) :
    (config.allowEndpointOverride = true ∧
      sameEndpoint (calls png).endpoint config.endpoint = false ∧
        (calls png).endpoint ≠ config.endpoint ∧ (calls png).apiKey = []) ∨
      (sameEndpoint (calls png).endpoint config.endpoint = true ∧
        (calls png).endpoint = config.endpoint ∧ (calls png).apiKey = config.vlmApiKey) := by
  unfold openStream at h
  split at h
  · cases h
  · rename_i endpoint hendpoint
    obtain ⟨hallowed, heq, hparsed⟩ := streamEndpoint_ok hendpoint
    split at h
    · cases h
    · cases h
      cases hoverride : endpointOverride config options with
      | true =>
        rw [hoverride, if_pos rfl] at heq
        have hother : sameEndpoint endpoint config.endpoint = false := by
          simp only [endpointOverride, Bool.and_eq_true, Bool.not_eq_true'] at hoverride
          rw [heq]
          exact hoverride.2
        refine .inl ⟨hallowed hoverride, hother, ?_, by simp only [pageCall, hoverride, if_true]⟩
        -- a string that parses is the same endpoint as itself
        intro hsame
        have hself := (sameEndpoint_self endpoint).2 hparsed
        change endpoint = config.endpoint at hsame
        rw [← hsame, hself] at hother
        cases hother
      | false =>
        rw [hoverride, if_neg (by decide)] at heq
        refine .inr ⟨?_, heq, by simp [pageCall, hoverride]⟩
        show sameEndpoint endpoint config.endpoint = true
        rw [← heq]
        exact (sameEndpoint_self endpoint).2 hparsed

/-- **Endpoint identity and the override policy.** Two spellings are one
endpoint when they resolve alike, a resolved endpoint resolves to itself, and a
stream's calls carry the key exactly when they go to the configured endpoint. -/
theorem endpoint_policy :
    (∀ left right, sameEndpoint left right = sameEndpoint right left) ∧
    (∀ left middle right, sameEndpoint left middle = true → sameEndpoint middle right = true →
      sameEndpoint left right = true) ∧
    (∀ endpoint, sameEndpoint endpoint endpoint = true ↔
      ∃ parsed, parseEndpoint endpoint = .ok parsed) ∧
    (∀ endpoint parsed, parseEndpoint endpoint = .ok parsed →
      parseEndpoint (parsed.origin ++ parsed.target) = .ok parsed) ∧
    ∀ (config : Config) (options : ConvertOptions) (resolved : Except Refusal ResolvedRequest)
      (calls : Bytes → VlmCall), openStream config options resolved = .ok calls → ∀ png,
      (config.allowEndpointOverride = false → (calls png).endpoint = config.endpoint) ∧
      ((calls png).endpoint = config.endpoint ↔
        sameEndpoint (calls png).endpoint config.endpoint = true) ∧
      (calls png).apiKey =
        (if (calls png).endpoint = config.endpoint then config.vlmApiKey else []) ∧
      ∀ lib world post result requests, generate lib world post (calls png) =
        some (result, requests) →
        ∀ r ∈ requests, r.headers =
          if (calls png).endpoint = config.endpoint then authorization config.vlmApiKey
          else [] := by
  refine ⟨?_, fun _ _ _ h h' => sameEndpoint_trans h h', sameEndpoint_self,
    fun _ _ h => parseEndpoint_resolved h, ?_⟩
  · intro left right
    rw [Bool.eq_iff_iff]
    exact ⟨sameEndpoint_symm, sameEndpoint_symm⟩
  · intro config options resolved calls hopen png
    have hkey : (calls png).apiKey =
        if (calls png).endpoint = config.endpoint then config.vlmApiKey else [] := by
      rcases openStream_call hopen png with ⟨-, -, hother, hkey⟩ | ⟨-, hconfigured, hkey⟩
      · rw [if_neg hother, hkey]
      · rw [if_pos hconfigured, hkey]
    refine ⟨?_, ?_, hkey, ?_⟩
    · intro hdisabled
      rcases openStream_call hopen png with ⟨hallowed, -⟩ | ⟨-, hconfigured, -⟩
      · rw [hdisabled] at hallowed
        cases hallowed
      · exact hconfigured
    · rcases openStream_call hopen png with ⟨-, hsame, hother, -⟩ | ⟨hsame, hconfigured, -⟩
      · simp [hother, hsame]
      · exact ⟨fun _ => hsame, fun _ => hconfigured⟩
    · intro lib world post result requests hrun r hr
      obtain ⟨-, -, -, -, hheaders⟩ := generate_requests hrun hr
      rw [hheaders, hkey]
      split <;> rfl

/-- An operator's endpoint with a key, named by a request in another spelling,
and an override where they are allowed. -/
theorem endpoint_policy_spellings :
    sameEndpoint (ascii "http://VLM:08080/v1/") (ascii "http://vlm:8080#x") = true ∧
    (∀ png, (pageCall ⟨ascii "http://vlm:8080", ascii "key", false, true, 300⟩
      ⟨ascii "http://VLM:8080/", 0⟩ (ascii "http://vlm:8080") ⟨[], [], [], 4096⟩ png).apiKey =
        ascii "key") ∧
    ∀ png, (pageCall ⟨ascii "http://vlm:8080", ascii "key", true, true, 300⟩
      ⟨ascii "http://other", 0⟩ (ascii "http://other") ⟨[], [], [], 4096⟩ png).apiKey = [] := by
  obtain ⟨hcomm, -, -, -, hcalls⟩ := endpoint_policy
  refine ⟨?_, ?_, ?_⟩
  · rw [hcomm]
    decide
  · intro png
    have hopen : openStream ⟨ascii "http://vlm:8080", ascii "key", false, true, 300⟩
        ⟨ascii "http://VLM:8080/", 0⟩ (.ok ⟨[], [], [], 4096⟩) =
        .ok (pageCall ⟨ascii "http://vlm:8080", ascii "key", false, true, 300⟩
          ⟨ascii "http://VLM:8080/", 0⟩ (ascii "http://vlm:8080") ⟨[], [], [], 4096⟩) := by
      have hstream : streamEndpoint ⟨ascii "http://vlm:8080", ascii "key", false, true, 300⟩
          ⟨ascii "http://VLM:8080/", 0⟩ = .ok (ascii "http://vlm:8080") := by decide
      simp only [openStream, hstream]
    exact (hcalls _ _ _ _ hopen png).2.2.1
  · intro png
    have hopen : openStream ⟨ascii "http://vlm:8080", ascii "key", true, true, 300⟩
        ⟨ascii "http://other", 0⟩ (.ok ⟨[], [], [], 4096⟩) =
        .ok (pageCall ⟨ascii "http://vlm:8080", ascii "key", true, true, 300⟩
          ⟨ascii "http://other", 0⟩ (ascii "http://other") ⟨[], [], [], 4096⟩) := by
      have hstream : streamEndpoint ⟨ascii "http://vlm:8080", ascii "key", true, true, 300⟩
          ⟨ascii "http://other", 0⟩ = .ok (ascii "http://other") := by decide
      simp only [openStream, hstream]
    rw [(hcalls _ _ _ _ hopen png).2.2.1, if_neg]
    show ascii "http://other" ≠ ascii "http://vlm:8080"
    decide

end Calls

end EndpointPolicy

end VlmConvert.L4
