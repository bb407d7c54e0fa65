import VlmConvert.L4Service.Endpoint

/-!
# The VLM client

`generate` (`src/vlm_client.cpp:322-570`) posts one page to the endpoint. It
retries failures that may pass, within one budget for the whole call, and it
reads the chat completion out of the answer.

The HTTP client and the JSON library are parameters (`Library`, `post`). The
guard of a call is polled by the call, by its watchdog and by the upload hook:
a `Look` is one poll of the call with the polls of the others before it.

Results:
* `generate_agree`: two calls to one origin that see the same answers, clock
  and probe return the same result.
* `generate_requests`: what is posted, to which origin and with which key.
* `secrets_confined`: what an endpoint's tail and the key may change, and what
  a refused endpoint shows.
-/
namespace VlmConvert.L4

open Bytes

namespace VlmClient

/-! ## Data -/

/-- A JSON value as the library holds it. -/
inductive Json where
  | null
  | bool (b : Bool)
  | unsigned (n : UInt64)
  | integer (i : Int)
  | number (x : Float)
  | string (s : Bytes)
  | array (items : List Json)
  | object (entries : List (Bytes × Json))

namespace Json

/-- `find`: the entry of a key, none for anything but an object. -/
def find? (key : Bytes) : Json → Option Json
  | object entries => entries.lookup key
  | _ => none

def isObject : Json → Bool
  | object _ => true
  | _ => false

def asString : Json → Option Bytes
  | string s => some s
  | _ => none

def asUnsigned : Json → Option UInt64
  | unsigned n => some n
  | _ => none

def asArray : Json → Option (List Json)
  | array items => some items
  | _ => none

/-- `is_number` with `get<double>`. -/
def asDouble : Json → Option Float
  | unsigned n => some n.toFloat
  | integer i => some (Float.ofInt i)
  | number x => some x
  | _ => none

end Json

/-- The fields of a call; the probe's answers are the world's.
mirrors src/vlm_client.h:13-55 -/
structure VlmCall where
  endpoint : Bytes
  model : Bytes
  prompt : Bytes
  stop : List Bytes
  maxTokens : Int
  topLogprobs : Int
  logprobs : Bool
  png : Bytes
  timeoutSeconds : Int
  apiKey : Bytes
  hasProbe : Bool
  deriving DecidableEq, Repr

/-- mirrors src/vlm_client.h:58-65 -/
structure TokenAlternative where
  token : Bytes
  logprob : Option Float

/-- mirrors src/vlm_client.h:68-108 -/
structure VlmResult where
  ok : Bool := false
  text : Bytes := []
  error : Bytes := []
  cancelled : Bool := false
  meanLogprob : Option Float := none
  scoredTokens : Nat := 0
  alternatives : List TokenAlternative := []
  finishReason : Bytes := []
  model : Bytes := []
  hasUsage : Bool := false
  promptTokens : UInt64 := 0
  completionTokens : UInt64 := 0

/-! ## The call's guard -/

/-- One run of `tripped()` past its first load. `late` polls loaded the flag
before another thread set it. -/
structure Reading where
  late : Bool
  probe : Bool
  now : Nat

structure Guard where
  tripped : Bool := false
  byCaller : Bool := false
  deriving DecidableEq, Repr

/-- mirrors src/vlm_client.cpp:78-90 -/
def Guard.poll (hasProbe : Bool) (deadline : Nat) (g : Guard) (r : Reading) : Guard :=
  if g.tripped && !r.late then g
  else if hasProbe && r.probe then ⟨true, true⟩
  else if r.now ≥ deadline then { g with tripped := true }
  else g

/-- A poll of the call, behind what the other threads polled. -/
structure Look where
  others : List Reading
  own : Reading

def Guard.look (hasProbe : Bool) (deadline : Nat) (g : Guard) (l : Look) : Guard :=
  (l.others.foldl (Guard.poll hasProbe deadline) g).poll hasProbe deadline l.own

/-! ## Transport -/

/-- mirrors src/vlm_client.cpp:24-25 -/
def kMaxRetries : Nat := 5

/-- `kTimeoutSlack` and `kConnectTimeout`, in milliseconds. -/
def kTimeoutSlack : Nat := 200

def kConnectTimeout : Nat := 10000

inductive TransportError where
  | connection
  | connectionTimeout
  | other (code : Nat)
  deriving DecidableEq, Repr

/-- What an attempt came back with. -/
inductive Outcome where
  | answer (status : Nat) (body : Bytes)
  | failure (error : TransportError)
  deriving DecidableEq, Repr

/-- mirrors src/vlm_client.cpp:27-30 -/
def retryableStatus (status : Nat) : Bool :=
  status == 429 || status == 500 || status == 502 || status == 503 || status == 504

/-- mirrors src/vlm_client.cpp:35-37 -/
def retryableTransport (error : TransportError) : Bool :=
  error == .connection || error == .connectionTimeout

def Outcome.retryable : Outcome → Bool
  | answer status _ => retryableStatus status
  | failure error => retryableTransport error

def Outcome.isOk : Outcome → Bool
  | answer status _ => status == 200
  | failure _ => false

/-- What one attempt sends. -/
structure Request where
  origin : Bytes
  target : Bytes
  headers : List (Bytes × Bytes)
  payload : Bytes
  contentType : Bytes
  connectionTimeout : Nat
  limit : Nat
  deriving DecidableEq, Repr

/-- The HTTP client's and the JSON library's part. `dump` fails where the
library throws. -/
structure Library where
  isValid : Bytes → Bool
  parse : Bytes → Option Json
  dump : Json → Option Bytes

/-- What the outside does in one turn of the loop. -/
structure Turn where
  atLoop : Look
  now : Nat
  atWatch : Look
  atAnswer : Look
  atSleep : Look

/-- The clock, the probe and the polls over a whole call. -/
structure World where
  probe : Bool
  start : Nat
  backoffBase : Int
  turn : Nat → Turn
  last : Look

/-! ## The request -/

/-- The base64 digit of six bits. -/
def base64Digit (n : Nat) : UInt8 :=
  (ascii "ABCDEFGHIJKLMNOPQRSTUVWXYZabcdefghijklmnopqrstuvwxyz0123456789+/").getD (n % 64) 0

/-- mirrors src/vlm_client.cpp:158-177 -/
def base64Encode : Bytes → Bytes
  | [] => []
  | [a] =>
    let group := a.toNat * 0x10000
    [base64Digit (group / 0x40000), base64Digit (group / 0x1000), 0x3D, 0x3D]
  | [a, b] =>
    let group := a.toNat * 0x10000 + b.toNat * 0x100
    [base64Digit (group / 0x40000), base64Digit (group / 0x1000), base64Digit (group / 0x40), 0x3D]
  | a :: b :: c :: bytes =>
    let group := a.toNat * 0x10000 + b.toNat * 0x100 + c.toNat
    [base64Digit (group / 0x40000), base64Digit (group / 0x1000), base64Digit (group / 0x40),
      base64Digit group] ++ base64Encode bytes

def jsonText (s : String) : Json := .string (ascii s)

/-- mirrors src/vlm_client.cpp:343-369 -/
def requestBody (call : VlmCall) : Json :=
  .object (
    [(ascii "model", .string call.model),
     (ascii "messages", .array [.object [
       (ascii "role", jsonText "user"),
       (ascii "content", .array [
         .object [(ascii "type", jsonText "text"), (ascii "text", .string call.prompt)],
         .object [(ascii "type", jsonText "image_url"),
           (ascii "image_url", .object [(ascii "url",
             .string (ascii "data:image/png;base64," ++ base64Encode call.png))])]])]]),
     (ascii "max_tokens", .integer call.maxTokens)]
    ++ (if call.logprobs || decide (call.topLogprobs > 0) then [(ascii "logprobs", .bool true)]
      else [])
    ++ (if call.stop.isEmpty then [] else [(ascii "stop", .array (call.stop.map .string))])
    ++ (if call.topLogprobs > 0 then [(ascii "top_logprobs", .integer call.topLogprobs)] else []))

/-- The key travels in this header and nowhere else.
mirrors src/vlm_client.cpp:372-375 -/
def authorization (apiKey : Bytes) : List (Bytes × Bytes) :=
  if apiKey.isEmpty then [] else [(ascii "Authorization", ascii "Bearer " ++ apiKey)]

/-- mirrors src/vlm_client.cpp:389-417 -/
def attemptRequest (where_ : ParsedEndpoint) (apiKey payload : Bytes) (remaining : Nat) :
    Request where
  origin := where_.origin
  target := where_.target
  headers := authorization apiKey
  payload := payload
  contentType := ascii "application/json"
  connectionTimeout := min (remaining + kTimeoutSlack) kConnectTimeout
  limit := remaining + kTimeoutSlack

/-! ## The answer -/

/-- `is_array`, not empty, then the first choice as an object with a message.
mirrors src/vlm_client.cpp:501-514 -/
def messageContent (choices : Json) : Option (Json × Bytes) :=
  match choices.asArray with
  | some (first :: _) =>
    match first.find? (ascii "message") with
    | some message => ((message.find? (ascii "content")).bind Json.asString).map (first, ·)
    | none => none
  | _ => none

/-- mirrors src/vlm_client.cpp:556-571 -/
def alternativeOf (alternate : Json) : Option TokenAlternative :=
  ((alternate.find? (ascii "token")).bind Json.asString).map fun token =>
    ⟨token, (alternate.find? (ascii "logprob")).bind Json.asDouble⟩

/-- The sum of the scores, how many there are, and the alternatives.
mirrors src/vlm_client.cpp:535-575 -/
def scoreTokens (tokens : List Json) : Float × Nat × List TokenAlternative :=
  tokens.foldl (fun (sum, count, alternatives) token =>
    let (sum, count) := match (token.find? (ascii "logprob")).bind Json.asDouble with
      | some logprob => (sum + logprob, count + 1)
      | none => (sum, count)
    let top := ((token.find? (ascii "top_logprobs")).bind Json.asArray).getD []
    (sum, count, alternatives ++ top.filterMap alternativeOf)) (0.0, 0, [])

/-- mirrors src/vlm_client.cpp:516-580 -/
def completion (parsed first : Json) (text : Bytes) : VlmResult :=
  let usage := ((parsed.find? (ascii "usage")).filter Json.isObject)
  let prompt := (usage.bind (Json.find? (ascii "prompt_tokens"))).bind Json.asUnsigned
  let completion := (usage.bind (Json.find? (ascii "completion_tokens"))).bind Json.asUnsigned
  let tokens := (((first.find? (ascii "logprobs")).bind (Json.find? (ascii "content"))).bind
    Json.asArray).getD []
  let (sum, count, alternatives) := scoreTokens tokens
  { ok := true
    text := text
    meanLogprob := if count > 0 then some (sum / count.toFloat) else none
    scoredTokens := count
    alternatives := alternatives
    finishReason := ((first.find? (ascii "finish_reason")).bind Json.asString).getD []
    model := ((parsed.find? (ascii "model")).bind Json.asString).getD []
    hasUsage := prompt.isSome || completion.isSome
    promptTokens := prompt.getD 0
    completionTokens := completion.getD 0 }

/-- mirrors src/vlm_client.cpp:483-580 -/
def readAnswer (lib : Library) (body : Bytes) : VlmResult :=
  match lib.parse body with
  | none => { error := ascii "endpoint returned non-JSON body" }
  | some parsed =>
    if !parsed.isObject then
      { error := ascii "endpoint returned JSON that is not a chat completion object" }
    else
      match (parsed.find? (ascii "choices")).bind messageContent with
      | none => { error := ascii "chat completion has no message content" }
      | some (first, text) => completion parsed first text

/-! ## The call -/

/-- The guard, the last attempt's outcome and what was posted so far. -/
structure CallState where
  guard : Guard
  response : Option Outcome
  posted : List Request

inductive AttemptEnd where
  | unusable
  | ended (s : CallState)
  | failed (s : CallState) (outcome : Outcome)

section Call
variable (lib : Library) (world : World) (post : Nat → Request → Outcome) (call : VlmCall)
  (where_ : ParsedEndpoint) (payload : Bytes)

/-- The budget spans every attempt and every sleep.
mirrors src/vlm_client.cpp:379-380 -/
def deadline : Nat := world.start + (max call.timeoutSeconds 0).toNat * 1000

def look (g : Guard) (l : Look) : Guard := g.look call.hasProbe (deadline world call) l

/-- The request of an attempt. -/
def requestAt (retries : Nat) : Request :=
  attemptRequest where_ call.apiKey payload (deadline world call - (world.turn retries).now)

/-- One turn of the loop up to the retry: the guard, a fresh client, the post.
mirrors src/vlm_client.cpp:383-426 -/
def attempt (retries : Nat) (s : CallState) : AttemptEnd :=
  let turn := world.turn retries
  let s := { s with guard := look world call s.guard turn.atLoop }
  if s.guard.tripped then .ended s
  else if !lib.isValid where_.origin then .unusable
  else
    let s := { s with guard := look world call s.guard turn.atWatch }
    if s.guard.tripped then .ended s
    else
      let request := requestAt world call where_ payload retries
      let outcome := post retries request
      let s := { s with response := some outcome, posted := s.posted ++ [request] }
      if outcome.isOk then .ended s
      else
        let s := { s with guard := look world call s.guard turn.atAnswer }
        if s.guard.tripped then .ended s else .failed s outcome

/-- The loop, with the retries that are left. `none` is a client that did not
construct.
mirrors src/vlm_client.cpp:381-441 -/
def attempts : Nat → CallState → Option (Nat × CallState)
  | left, s =>
    let retries := kMaxRetries - left
    match attempt lib world post call where_ payload retries s with
    | .unusable => none
    | .ended s => some (retries, s)
    | .failed s outcome =>
      match left with
      | 0 => some (retries, s)
      | left + 1 =>
        if !outcome.retryable then some (retries, s)
        else
          let retries := retries + 1
          if world.backoffBase * 2 ^ (retries - 1) > 0 then
            let s := { s with guard := look world call s.guard (world.turn (retries - 1)).atSleep }
            if s.guard.tripped then some (retries, s) else attempts left s
          else attempts left s

def attemptsText (retries : Nat) : Bytes :=
  if retries > 0 then ascii " after " ++ decimal (retries + 1) ++ ascii " attempts" else []

/-- What the loop's end means.
mirrors src/vlm_client.cpp:442-485 -/
def conclude (retries : Nat) (s : CallState) : VlmResult :=
  match s.response with
  | some (.answer 200 body) => readAnswer lib body
  | response =>
    let guard := look world call s.guard world.last
    if guard.tripped then
      if guard.byCaller then { cancelled := true, error := ascii "VLM call cancelled" }
      else
        { error := ascii "VLM call exceeded its " ++ decimalInt call.timeoutSeconds ++
          ascii " s budget" ++ attemptsText retries }
    else
      match response with
      | some (.answer status _) =>
        { error := ascii "endpoint returned HTTP " ++ decimal status ++ attemptsText retries }
      | _ => { error := ascii "endpoint unreachable: " ++ where_.origin }

/-- The result with what was posted; `none` where the JSON library throws.
mirrors src/vlm_client.cpp:322-583 -/
def generate : Option (VlmResult × List Request) :=
  match Endpoint.parseEndpoint call.endpoint with
  | .error problem => some ({ error := problem }, [])
  | .ok where_ =>
    if call.hasProbe && world.probe then
      some ({ cancelled := true, error := ascii "VLM call cancelled before it started" }, [])
    else
      (lib.dump (requestBody call)).map fun payload =>
        match attempts lib world post call where_ payload kMaxRetries ⟨{}, none, []⟩ with
        | none => ({ error := ascii "endpoint is not usable: " ++ where_.origin }, [])
        | some (retries, s) => (conclude lib world call where_ retries s, s.posted)

end Call

/-! ## Two runs -/

/-- The call with the two parts that may hold a secret. -/
def VlmCall.withSecrets (call : VlmCall) (endpoint apiKey : Bytes) : VlmCall :=
  { call with endpoint := endpoint, apiKey := apiKey }

/-- A state without what was posted. -/
def CallState.forget (s : CallState) : CallState := { s with posted := [] }

theorem CallState.forget_eq {s s' : CallState} :
    s.forget = s'.forget ↔ s.guard = s'.guard ∧ s.response = s'.response := by
  simp [forget]

def AttemptEnd.forget : AttemptEnd → AttemptEnd
  | unusable => unusable
  | ended s => ended s.forget
  | failed s outcome => failed s.forget outcome

section Agreement
variable (lib : Library) {world : World} {post post' : Nat → Request → Outcome} {call : VlmCall}
  {endpoint endpoint' apiKey apiKey' : Bytes} {parsed parsed' : ParsedEndpoint} {payload : Bytes}

/-- Both runs see the same outcome at each of their turns. -/
def SameOutcomes (world : World) (post post' : Nat → Request → Outcome) (call call' : VlmCall)
    (parsed parsed' : ParsedEndpoint) (payload : Bytes) : Prop :=
  ∀ n, post n (requestAt world call parsed payload n) =
    post' n (requestAt world call' parsed' payload n)

theorem attempt_agree (horigin : parsed.origin = parsed'.origin)
    (houtcomes : SameOutcomes world post post' (call.withSecrets endpoint apiKey)
      (call.withSecrets endpoint' apiKey') parsed parsed' payload)
    {s s' : CallState} (hs : s.forget = s'.forget) (retries : Nat) :
    (attempt lib world post (call.withSecrets endpoint apiKey) parsed payload retries s).forget =
      (attempt lib world post'
        (call.withSecrets endpoint' apiKey') parsed' payload retries s').forget := by
  obtain ⟨guard, response, posted⟩ := s
  obtain ⟨guard', response', posted'⟩ := s'
  simp only [CallState.forget, CallState.mk.injEq, and_true] at hs
  obtain ⟨rfl, rfl⟩ := hs
  have hlook : ∀ g l, look world (call.withSecrets endpoint apiKey) g l =
      look world (call.withSecrets endpoint' apiKey') g l := fun _ _ => rfl
  simp only [attempt, horigin, houtcomes retries, hlook]
  split
  · rfl
  · split
    · rfl
    · split
      · rfl
      · split
        · rfl
        · split <;> rfl

/-- The loops stop at the same turn, with the same guard and outcome. -/
theorem attempts_agree (horigin : parsed.origin = parsed'.origin)
    (houtcomes : SameOutcomes world post post' (call.withSecrets endpoint apiKey)
      (call.withSecrets endpoint' apiKey') parsed parsed' payload) (left : Nat) :
    ∀ {s s' : CallState}, s.forget = s'.forget →
      (attempts lib world post (call.withSecrets endpoint apiKey) parsed payload left s).map
          (Prod.map id CallState.forget) =
        (attempts lib world post' (call.withSecrets endpoint' apiKey') parsed' payload left s').map
          (Prod.map id CallState.forget) := by
  induction left with
  | zero =>
    intro s s' hs
    have hattempt := attempt_agree lib horigin houtcomes hs (kMaxRetries - 0)
    cases ha : attempt lib world post (call.withSecrets endpoint apiKey) parsed payload
      (kMaxRetries - 0) s <;>
    cases ha' : attempt lib world post' (call.withSecrets endpoint' apiKey') parsed' payload
      (kMaxRetries - 0) s' <;>
    simp_all [attempts, AttemptEnd.forget]
  | succ left ih =>
    intro s s' hs
    have hattempt := attempt_agree lib horigin houtcomes hs (kMaxRetries - (left + 1))
    unfold attempts
    dsimp only
    generalize attempt lib world post (call.withSecrets endpoint apiKey) parsed payload
      (kMaxRetries - (left + 1)) s = a at hattempt ⊢
    generalize attempt lib world post' (call.withSecrets endpoint' apiKey') parsed' payload
      (kMaxRetries - (left + 1)) s' = a' at hattempt ⊢
    cases a <;> cases a' <;> try (simp_all [AttemptEnd.forget]; done)
    rename_i s outcome s' outcome'
    simp only [AttemptEnd.forget, AttemptEnd.failed.injEq] at hattempt
    obtain ⟨hs, rfl⟩ := hattempt
    obtain ⟨hguard, hresponse⟩ := CallState.forget_eq.1 hs
    dsimp only
    split
    · simp [hs]
    · split
      · have hlook : ∀ l, look world (call.withSecrets endpoint apiKey) s.guard l =
            look world (call.withSecrets endpoint' apiKey') s'.guard l := by
          intro l
          rw [hguard]
          rfl
        rw [hlook]
        split
        · simp [CallState.forget, hresponse]
        · exact ih (by simp [CallState.forget, hresponse])
      · exact ih hs

theorem conclude_agree (horigin : parsed.origin = parsed'.origin) {s s' : CallState}
    (hs : s.forget = s'.forget) (retries : Nat) :
    conclude lib world (call.withSecrets endpoint apiKey) parsed retries s =
      conclude lib world (call.withSecrets endpoint' apiKey') parsed' retries s' := by
  obtain ⟨hguard, hresponse⟩ := CallState.forget_eq.1 hs
  unfold conclude
  rw [hguard, hresponse, horigin]
  rfl

/-- **Two runs agree.** Calls to one origin that see the same outcomes, clock
and probe return the same result, whatever their targets and keys. -/
theorem generate_agree (hparsed : Endpoint.parseEndpoint endpoint = .ok parsed)
    (hparsed' : Endpoint.parseEndpoint endpoint' = .ok parsed')
    (horigin : parsed.origin = parsed'.origin)
    (houtcomes : ∀ payload, lib.dump (requestBody call) = some payload →
      SameOutcomes world post post' (call.withSecrets endpoint apiKey)
        (call.withSecrets endpoint' apiKey') parsed parsed' payload) :
    (generate lib world post (call.withSecrets endpoint apiKey)).map Prod.fst =
      (generate lib world post' (call.withSecrets endpoint' apiKey')).map Prod.fst := by
  have hendpoint : (call.withSecrets endpoint apiKey).endpoint = endpoint := rfl
  have hendpoint' : (call.withSecrets endpoint' apiKey').endpoint = endpoint' := rfl
  have hbody : requestBody (call.withSecrets endpoint apiKey) =
      requestBody (call.withSecrets endpoint' apiKey') := rfl
  have hprobe : (call.withSecrets endpoint apiKey).hasProbe =
      (call.withSecrets endpoint' apiKey').hasProbe := rfl
  simp only [generate, hendpoint, hendpoint', hparsed, hparsed', hbody, hprobe]
  split
  · rfl
  · cases hdump : lib.dump (requestBody (call.withSecrets endpoint' apiKey')) with
    | none => rfl
    | some payload =>
      have hstart : CallState.forget ⟨{}, none, []⟩ = CallState.forget ⟨{}, none, []⟩ := rfl
      have hloop := attempts_agree lib horigin (houtcomes payload hdump) kMaxRetries hstart
      simp only [Option.map_some]
      generalize attempts lib world post (call.withSecrets endpoint apiKey) parsed payload
        kMaxRetries ⟨{}, none, []⟩ = run at hloop ⊢
      generalize attempts lib world post' (call.withSecrets endpoint' apiKey') parsed' payload
        kMaxRetries ⟨{}, none, []⟩ = run' at hloop ⊢
      cases run <;> cases run' <;> simp only [Option.map_none, Option.map_some, reduceCtorEq,
        Option.some.injEq] at hloop ⊢
      · rw [horigin]
      · rename_i run run'
        obtain ⟨retries, s⟩ := run
        obtain ⟨retries', s'⟩ := run'
        simp only [Prod.map, id_eq, Prod.mk.injEq] at hloop
        obtain ⟨rfl, hs⟩ := hloop
        exact conclude_agree lib horigin hs retries

/-- **Endpoint secrets stay inside.** Of an accepted endpoint only the scheme
and the authority show, and neither its tail nor the key changes a result; of a
refused one only the rule shows. -/
theorem secrets_confined :
    (∀ authority tail tail' : Bytes, authority.all (fun c => !Endpoint.endsAuthority c) = true →
      (∀ c, tail.head? = some c → Endpoint.endsAuthority c = true) →
      (∀ c, tail'.head? = some c → Endpoint.endsAuthority c = true) →
      ∀ parsed parsed', Endpoint.parseEndpoint (Endpoint.kScheme ++ authority ++ tail) =
        .ok parsed →
        Endpoint.parseEndpoint (Endpoint.kScheme ++ authority ++ tail') = .ok parsed' →
        Endpoint.endpointOrigin (Endpoint.kScheme ++ authority ++ tail) =
          Endpoint.kScheme ++ authority ∧
        Endpoint.endpointOrigin (Endpoint.kScheme ++ authority ++ tail') =
          Endpoint.kScheme ++ authority ∧
        ∀ (lib : Library) (world : World) (post post' : Nat → Request → Outcome) (call : VlmCall)
          (apiKey apiKey' : Bytes),
          (∀ payload, lib.dump (requestBody call) = some payload →
            SameOutcomes world post post'
              (call.withSecrets (Endpoint.kScheme ++ authority ++ tail) apiKey)
              (call.withSecrets (Endpoint.kScheme ++ authority ++ tail') apiKey')
              parsed parsed' payload) →
          (generate lib world post
              (call.withSecrets (Endpoint.kScheme ++ authority ++ tail) apiKey)).map Prod.fst =
            (generate lib world post'
              (call.withSecrets (Endpoint.kScheme ++ authority ++ tail') apiKey')).map Prod.fst) ∧
    ∀ endpoint problem : Bytes, Endpoint.parseEndpoint endpoint = .error problem →
      ∃ rule, Endpoint.refusedBy endpoint = some rule ∧
        Endpoint.endpointError endpoint = rule.text ∧
        Endpoint.endpointOrigin endpoint = ascii "<invalid endpoint>" := by
  constructor
  · intro authority tail tail' hends hstarts hstarts' parsed parsed' hparsed hparsed'
    have horigin := Endpoint.endpointOrigin_eq hends hstarts hparsed
    have horigin' := Endpoint.endpointOrigin_eq hends hstarts' hparsed'
    refine ⟨?_, ?_, ?_⟩
    · simp only [Endpoint.endpointOrigin, hparsed, horigin]
    · simp only [Endpoint.endpointOrigin, hparsed', horigin']
    · intro lib world post post' call apiKey apiKey' houtcomes
      exact generate_agree lib hparsed hparsed' (horigin.trans horigin'.symm) houtcomes
  · intro endpoint problem h
    obtain ⟨rule, hrule, rfl⟩ := (Endpoint.parseEndpoint_refused endpoint problem).1 h
    refine ⟨rule, hrule, ?_, ?_⟩
    · simp only [Endpoint.endpointError, h]
    · simp only [Endpoint.endpointOrigin, h]

/-- A world that is quiet throughout, against an endpoint that is busy. -/
def quietWorld : World :=
  let quiet : Look := ⟨[], ⟨false, false, 0⟩⟩
  { probe := false, start := 0, backoffBase := 100
    turn := fun _ => ⟨quiet, 0, quiet, quiet, quiet⟩, last := quiet }

def plainCall : VlmCall where
  endpoint := []
  model := ascii "granite-docling"
  prompt := ascii "Convert this page to docling."
  stop := []
  maxTokens := 4096
  topLogprobs := 0
  logprobs := true
  png := []
  timeoutSeconds := 300
  apiKey := []
  hasProbe := false

/-- The token in the query, the fragment and both keys stay inside. -/
theorem secrets_confined_busy :
    Endpoint.endpointOrigin (ascii "http://vlm:8080/v1?token=a") = ascii "http://vlm:8080" ∧
    (generate ⟨fun _ => true, fun _ => none, fun _ => some []⟩ quietWorld
      (fun _ _ => .answer 503 [])
        (plainCall.withSecrets (ascii "http://vlm:8080/v1?token=a") (ascii "k1"))).map Prod.fst =
      (generate ⟨fun _ => true, fun _ => none, fun _ => some []⟩ quietWorld
        (fun _ _ => .answer 503 [])
        (plainCall.withSecrets (ascii "http://vlm:8080#b") (ascii "k2"))).map Prod.fst ∧
    Endpoint.endpointError (ascii "http://user:pw@vlm") = Endpoint.credentialsError := by
  have hrun :=
    secrets_confined.1 (ascii "vlm:8080") (ascii "/v1?token=a") (ascii "#b") (by decide)
    (by decide +kernel) (by decide +kernel)
    ⟨ascii "http://vlm:8080", ascii "/v1/chat/completions?token=a", ascii "vlm", 8080⟩
    ⟨ascii "http://vlm:8080", ascii "/v1/chat/completions", ascii "vlm", 8080⟩
    (by decide) (by decide)
  obtain ⟨rule, hrule, hrefused, -⟩ :=
    secrets_confined.2 (ascii "http://user:pw@vlm") Endpoint.credentialsError (by decide)
  have hcredentials : Endpoint.refusedBy (ascii "http://user:pw@vlm") = some .credentials := by
    decide
  rw [hcredentials] at hrule
  cases hrule
  exact ⟨hrun.1, hrun.2.2 _ quietWorld _ _ plainCall _ _ (fun _ _ _ => rfl), hrefused⟩

end Agreement

/-! ## What is posted -/

section Posted
variable {lib : Library} {world : World} {post : Nat → Request → Outcome} {call : VlmCall}
  {parsed : ParsedEndpoint} {payload : Bytes}

theorem attempt_posted {retries : Nat} {s s' : CallState} (h :
      attempt lib world post call parsed payload retries s = .ended s' ∨
      ∃ outcome, attempt lib world post call parsed payload retries s = .failed s' outcome) :
    s'.posted = s.posted ∨
      s'.posted = s.posted ++ [requestAt world call parsed payload retries] := by
  unfold attempt at h
  dsimp only at h
  split at h
  · exact .inl (by simp at h; rw [← h])
  · split at h
    · simp at h
    · split at h
      · exact .inl (by simp at h; rw [← h])
      · split at h
        · exact .inr (by simp at h; rw [← h])
        · split at h
          · exact .inr (by simp at h; rw [← h])
          · exact .inr (by simp at h; rw [← h])

theorem mem_posted {retries : Nat} {s t : CallState} {r : Request} (h :
      attempt lib world post call parsed payload retries s = .ended t ∨
      ∃ outcome, attempt lib world post call parsed payload retries s = .failed t outcome)
    (hr : r ∈ t.posted) : r ∈ s.posted ∨ ∃ n, r = requestAt world call parsed payload n := by
  rcases attempt_posted h with hp | hp
  · exact .inl (hp ▸ hr)
  · rw [hp, List.mem_append, List.mem_singleton] at hr
    exact hr.imp_right fun h => ⟨_, h⟩

/-- A turn ends the loop, or is a failure with a further turn behind it. -/
theorem attempts_turn {left : Nat} {s : CallState} {out : Nat × CallState}
    (h : attempts lib world post call parsed payload left s = some out) :
    ∃ t, (attempt lib world post call parsed payload (kMaxRetries - left) s = .ended t ∨
        ∃ outcome, attempt lib world post call parsed payload (kMaxRetries - left) s =
          .failed t outcome) ∧
      (out.2.posted = t.posted ∨
        ∃ left' u, left = left' + 1 ∧ u.posted = t.posted ∧
          attempts lib world post call parsed payload left' u = some out) := by
  unfold attempts at h
  dsimp only at h
  split at h
  · cases h
  · rename_i t hattempt
    cases h
    exact ⟨t, .inl hattempt, .inl rfl⟩
  · rename_i t outcome hattempt
    refine ⟨t, .inr ⟨outcome, hattempt⟩, ?_⟩
    cases left with
    | zero =>
      cases h
      exact .inl rfl
    | succ left =>
      dsimp only at h
      split at h
      · cases h
        exact .inl rfl
      · split at h
        · split at h
          · cases h
            exact .inl rfl
          · exact .inr ⟨left, _, rfl, by rfl, h⟩
        · exact .inr ⟨left, t, rfl, rfl, h⟩

/-- Every request of the loop is one of its turns' requests. -/
theorem attempts_posted (left : Nat) : ∀ {s : CallState} {out : Nat × CallState},
    attempts lib world post call parsed payload left s = some out →
    ∀ r ∈ out.2.posted, r ∈ s.posted ∨ ∃ n, r = requestAt world call parsed payload n := by
  induction left with
  | zero =>
    intro s out h r hr
    obtain ⟨t, ht, hout | ⟨left', u, hleft, -⟩⟩ := attempts_turn h
    · exact mem_posted ht (hout ▸ hr)
    · cases hleft
  | succ left ih =>
    intro s out h r hr
    obtain ⟨t, ht, hout | ⟨left', u, hleft, hu, hrest⟩⟩ := attempts_turn h
    · exact mem_posted ht (hout ▸ hr)
    · cases hleft
      rcases ih hrest r hr with hr | hr
      · exact mem_posted ht (hu ▸ hr)
      · exact .inr hr

/-- **What is posted.** Each request goes to the endpoint's origin and target,
with the call's key in its header and nothing else there. -/
theorem generate_requests {result : VlmResult} {requests : List Request}
    (h : generate lib world post call = some (result, requests)) {r : Request} (hr : r ∈ requests) :
    ∃ parsed, Endpoint.parseEndpoint call.endpoint = .ok parsed ∧
      r.origin = parsed.origin ∧ r.target = parsed.target ∧
        r.headers = authorization call.apiKey := by
  unfold generate at h
  split at h
  · cases h
    cases hr
  · rename_i parsed hparsed
    refine ⟨parsed, hparsed, ?_⟩
    split at h
    · cases h
      cases hr
    · obtain ⟨payload, -, hrun⟩ := Option.map_eq_some_iff.1 h
      split at hrun
      · cases hrun
        cases hr
      · rename_i retries s hloop
        cases hrun
        rcases attempts_posted kMaxRetries hloop r hr with hr | ⟨n, rfl⟩
        · cases hr
        · exact ⟨rfl, rfl, rfl⟩

end Posted

end VlmClient

end VlmConvert.L4
