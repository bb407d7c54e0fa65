import VlmConvert.Core.Bytes

/-!
# Endpoints

`parse_endpoint` (`src/vlm_client.cpp:206-295`) takes an endpoint string apart
into the origin a client connects to and the target it posts to. Error texts,
logs and the recorded generation show the origin only.

`std::from_chars` into an `unsigned` takes digits and fails past its range;
a port past 65535 is refused anyway, so the port is the digits' value.

Results:
* `parseEndpoint_iff`: what is accepted, as the parts of the string.
* `parseEndpoint_refused`: what a refusal shows is the first broken rule's text.
* `parseEndpoint_resolved`: an origin with its target is an endpoint again,
  with the same parts.
-/
namespace VlmConvert.L4

open Bytes

/-- mirrors src/vlm_client.cpp:181-192 -/
structure ParsedEndpoint where
  origin : Bytes
  target : Bytes
  host : Bytes
  port : Nat
  deriving DecidableEq, Repr

namespace Endpoint

/-! ## The parser -/

def isXdigit (c : UInt8) : Bool := isDigit c || (0x61 ≤ toLower c && toLower c ≤ 0x66)

/-- mirrors src/vlm_client.cpp:194-196 -/
def hostChar (c : UInt8) : Bool := isAlnum c || c == 0x2E || c == 0x2D || c == 0x5F

/-- mirrors src/vlm_client.cpp:198-200 -/
def ipv6Char (c : UInt8) : Bool := isXdigit c || c == 0x3A || c == 0x2E

def kScheme : Bytes := ascii "http://"

def schemeError : Bytes :=
  ascii "endpoint must be an http:// URL (https is not supported; put a TLS proxy beside the VLM)"

def blankError : Bytes := ascii "endpoint must not contain whitespace or control characters"

def credentialsError : Bytes :=
  ascii "endpoint must not carry credentials (user:password@); set GRPC_VLM_API_KEY instead"

def ipv6Error : Bytes := ascii "endpoint host must be a name or a bracketed IPv6 literal"

def hostError : Bytes := ascii "endpoint needs a host of letters, digits, '.', '-' or '_'"

def portError : Bytes := ascii "endpoint port must be a number from 1 to 65535"

/-- The authority ends at the first '/', '?' or '#'. -/
def endsAuthority (c : UInt8) : Bool := c == 0x2F || c == 0x3F || c == 0x23

/-- The host, and the port's text when there is one.
mirrors src/vlm_client.cpp:229-260 -/
def splitAuthority (authority : Bytes) : Except Bytes (Bytes × Option Bytes) :=
  if authority.head? == some 0x5B then
    match findByte 0x5D authority with
    | none => .error ipv6Error
    | some (before, close) =>
      if before.length = 1 ∨ ¬ (before.drop 1).all ipv6Char then .error ipv6Error
      else
        match close.drop 1 with
        | [] => .ok (before ++ [0x5D], none)
        | c :: port => if c != 0x3A then .error ipv6Error else .ok (before ++ [0x5D], some port)
  else
    let (host, port) := match findByte 0x3A authority with
      | some (before, colon) => (before, some (colon.drop 1))
      | none => (authority, none)
    if host.isEmpty || !host.all hostChar then .error hostError else .ok (host, port)

/-- The port as the authority writes it. -/
def portText : Option Bytes → Bytes
  | none => []
  | some port => 0x3A :: port

/-- HTTP's default when there is none.
mirrors src/vlm_client.cpp:261-270 -/
def portValue : Option Bytes → Except Bytes Nat
  | none => .ok 80
  | some port =>
    if port.isEmpty || !port.all isDigit || decide (ofDigits port < 1) ||
      decide (ofDigits port > 65535)
    then .error portError
    else .ok (ofDigits port)

/-- The route a path gets.
mirrors src/vlm_client.cpp:281-293 -/
def completeRoute (path : Bytes) : Bytes :=
  let path := path.rdropWhile (· == 0x2F)
  if (ascii "/chat/completions").isSuffixOf path then path
  else if (ascii "/v1").isSuffixOf path then path ++ ascii "/chat/completions"
  else path ++ ascii "/v1/chat/completions"

/-- Path and query; a fragment never leaves the client.
mirrors src/vlm_client.cpp:274-294 -/
def requestTarget (tail : Bytes) : Bytes :=
  let tail := tail.takeWhile (· != 0x23)
  completeRoute (tail.takeWhile (· != 0x3F)) ++ tail.dropWhile (· != 0x3F)

def isBlankOrControl (c : UInt8) : Bool := c ≤ 0x20 || c == 0x7F

/-- The error text, or the parts.
mirrors src/vlm_client.cpp:206-295 -/
def parseEndpoint (endpoint : Bytes) : Except Bytes ParsedEndpoint :=
  if !kScheme.isPrefixOf endpoint then .error schemeError
  else if endpoint.any isBlankOrControl then .error blankError
  else
    let rest := endpoint.drop kScheme.length
    let authority := rest.takeWhile fun c => !endsAuthority c
    if authority.contains 0x40 then .error credentialsError
    else
      match splitAuthority authority with
      | .error problem => .error problem
      | .ok (host, port) =>
        match portValue port with
        | .error problem => .error problem
        | .ok value =>
          .ok {
            origin := kScheme ++ host ++ portText port
            target := requestTarget (rest.dropWhile fun c => !endsAuthority c)
            host := host.map toLower
            port := value }

/-- Empty when the endpoint is usable.
mirrors src/vlm_client.cpp:301-304 -/
def endpointError (endpoint : Bytes) : Bytes :=
  match parseEndpoint endpoint with
  | .error problem => problem
  | .ok _ => []

/-- mirrors src/vlm_client.cpp:306-312 -/
def endpointOrigin (endpoint : Bytes) : Bytes :=
  match parseEndpoint endpoint with
  | .error _ => ascii "<invalid endpoint>"
  | .ok parsed => parsed.origin

/-- mirrors src/vlm_client.cpp:314-320 -/
def sameEndpoint (left right : Bytes) : Bool :=
  match parseEndpoint left, parseEndpoint right with
  | .ok a, .ok b => a.host == b.host && a.port == b.port && a.target == b.target
  | _, _ => false

/-! ## What is accepted -/

/-- The authority is the host and the port's text again. -/
theorem splitAuthority_eq {authority host : Bytes} {port : Option Bytes}
    (h : splitAuthority authority = .ok (host, port)) : authority = host ++ portText port := by
  unfold splitAuthority at h
  split at h
  · split at h
    · cases h
    · rename_i before close hfind
      have heq := (findByte_eq hfind).1
      have hclose := (findByte_head hfind).1
      split at h
      · cases h
      · split at h
        · rename_i hnil
          cases h
          rw [heq, hclose, hnil]
          simp [portText]
        · rename_i c tail hcons
          split at h
          · cases h
          · rename_i hc
            have hcolon : c = 0x3A := by simpa using hc
            cases h
            rw [heq, hclose, hcons, hcolon]
            simp [portText]
  · cases hfind : findByte 0x3A authority with
    | none =>
      simp only [hfind] at h
      split at h
      · cases h
      · cases h
        simp [portText]
    | some r =>
      obtain ⟨before, colon⟩ := r
      simp only [hfind] at h
      split at h
      · cases h
      · cases h
        rw [(findByte_eq hfind).1, (findByte_head hfind).1]
        rfl

/-- The parts of an accepted endpoint. -/
structure Accepts (endpoint : Bytes) (authority tail host : Bytes) (port : Option Bytes)
    (value : Nat) :
    Prop where
  text : endpoint = kScheme ++ authority ++ tail
  clean : endpoint.any isBlankOrControl = false
  ends : authority.all (fun c => !endsAuthority c) = true
  starts : ∀ c, tail.head? = some c → endsAuthority c = true
  noCredentials : authority.contains 0x40 = false
  split : splitAuthority authority = .ok (host, port)
  number : portValue port = .ok value

theorem accepts_of_parse {endpoint : Bytes} {parsed : ParsedEndpoint}
    (h : parseEndpoint endpoint = .ok parsed) : ∃ authority tail host port value,
      Accepts endpoint authority tail host port value ∧
      parsed = ⟨kScheme ++ authority, requestTarget tail, host.map toLower, value⟩ := by
  unfold parseEndpoint at h
  split at h
  · cases h
  · rename_i hscheme
    split at h
    · cases h
    · rename_i hclean
      dsimp only at h
      split at h
      · cases h
      · rename_i hcredentials
        split at h
        · cases h
        · rename_i host port hsplit
          split at h
          · cases h
          · rename_i value hvalue
            cases h
            have hprefix : kScheme <+: endpoint := by simpa using hscheme
            obtain ⟨rest, hrest⟩ := hprefix
            have hdrop : endpoint.drop kScheme.length = rest := by rw [← hrest]; simp
            rw [hdrop] at hsplit hcredentials ⊢
            refine ⟨rest.takeWhile fun c => !endsAuthority c,
              rest.dropWhile fun c => !endsAuthority c,
              host, port, value, ⟨?_, ?_, ?_, ?_, ?_, hsplit, hvalue⟩, ?_⟩
            · rw [List.append_assoc, List.takeWhile_append_dropWhile, hrest]
            · simpa using hclean
            · exact List.all_takeWhile
            · intro c hc
              have := List.head?_dropWhile_not (fun c => !endsAuthority c) rest
              rw [hc] at this
              simpa using this
            · simpa using hcredentials
            · rw [List.append_assoc, ← splitAuthority_eq hsplit]

theorem takeWhile_authority {authority tail : Bytes}
    (hends : authority.all (fun c => !endsAuthority c) = true)
    (hstarts : ∀ c, tail.head? = some c → endsAuthority c = true) :
    (authority ++ tail).takeWhile (fun c => !endsAuthority c) = authority ∧
      (authority ++ tail).dropWhile (fun c => !endsAuthority c) = tail := by
  have hall : ∀ c ∈ authority, (!endsAuthority c) = true := List.all_eq_true.1 hends
  rw [List.takeWhile_append_of_pos hall, List.dropWhile_append_of_pos hall]
  cases tail with
  | nil => simp
  | cons c tail =>
    have hc := hstarts c rfl
    simp [hc]

theorem parse_of_accepts {endpoint authority tail host : Bytes} {port : Option Bytes} {value : Nat}
    (h : Accepts endpoint authority tail host port value) :
    parseEndpoint endpoint =
      .ok ⟨kScheme ++ authority, requestTarget tail, host.map toLower, value⟩ := by
  obtain ⟨htake, hdrop⟩ := takeWhile_authority h.ends h.starts
  have hscheme : kScheme.isPrefixOf endpoint = true := by
    rw [List.isPrefixOf_iff_prefix, h.text, List.append_assoc]
    exact List.prefix_append _ _
  have hrest : endpoint.drop kScheme.length = authority ++ tail := by
    rw [h.text, List.append_assoc]
    simp
  have horigin : kScheme ++ host ++ portText port = kScheme ++ authority := by
    rw [List.append_assoc, ← splitAuthority_eq h.split]
  unfold parseEndpoint
  simp only [hscheme, h.clean, hrest, htake, hdrop, h.noCredentials, h.split, h.number, horigin,
    Bool.not_true, Bool.false_eq_true, if_false]

/-- **What is accepted**: scheme, authority and tail, with nothing a request
could choke on. -/
theorem parseEndpoint_iff {endpoint : Bytes} {parsed : ParsedEndpoint} :
    parseEndpoint endpoint = .ok parsed ↔ ∃ authority tail host port value,
      Accepts endpoint authority tail host port value ∧
      parsed = ⟨kScheme ++ authority, requestTarget tail, host.map toLower, value⟩ := by
  refine ⟨accepts_of_parse, ?_⟩
  rintro ⟨authority, tail, host, port, value, h, rfl⟩
  exact parse_of_accepts h

/-! ## What is refused -/

/-- The rules, in the order they are checked. -/
inductive Rule where
  | scheme | blank | credentials | bracket | host | port
  deriving DecidableEq, Repr

namespace Rule

def all : List Rule := [scheme, blank, credentials, bracket, host, port]

def text : Rule → Bytes
  | scheme => schemeError
  | blank => blankError
  | credentials => credentialsError
  | bracket => ipv6Error
  | host => hostError
  | port => portError

end Rule

/-- What stands between the scheme and the tail. -/
def authorityOf (endpoint : Bytes) : Bytes :=
  (endpoint.drop kScheme.length).takeWhile fun c => !endsAuthority c

/-- A bracketed literal: hex digits, ':' and '.' up to the bracket, then
nothing or a port. -/
def bracketOk (authority : Bytes) : Bool :=
  match findByte 0x5D authority with
  | none => false
  | some (before, close) =>
    decide (before.length ≠ 1) && (before.drop 1).all ipv6Char &&
      (close.drop 1).head?.all (· == 0x3A)

def hostOk (host : Bytes) : Bool := !host.isEmpty && host.all hostChar

/-- A port with its ':'; none at all is fine. -/
def portOk (port : Bytes) : Bool :=
  port.isEmpty || (decide (1 < port.length) && (port.drop 1).all isDigit &&
    decide (1 ≤ ofDigits (port.drop 1)) && decide (ofDigits (port.drop 1) ≤ 65535))

/-- Whether the host is a bracketed literal. -/
def isBracketed (authority : Bytes) : Bool := authority.head? == some 0x5B

/-- What follows the bracket, or else the first ':' and what follows it. -/
def portOf (authority : Bytes) : Bytes :=
  if isBracketed authority then (authority.dropWhile (· != 0x5D)).drop 1
  else authority.dropWhile (· != 0x3A)

/-- What each rule asks, of an endpoint that met the rules before it. -/
def Rule.broken (endpoint : Bytes) : Rule → Bool
  | scheme => !kScheme.isPrefixOf endpoint
  | blank => endpoint.any isBlankOrControl
  | credentials => (authorityOf endpoint).contains 0x40
  | bracket => isBracketed (authorityOf endpoint) && !bracketOk (authorityOf endpoint)
  | host => !isBracketed (authorityOf endpoint) &&
      !hostOk ((authorityOf endpoint).takeWhile (· != 0x3A))
  | port => !portOk (portOf (authorityOf endpoint))

/-- The first rule an endpoint breaks. -/
def refusedBy (endpoint : Bytes) : Option Rule := Rule.all.find? (Rule.broken endpoint)

theorem splitAuthority_bracketed {authority : Bytes} (h : isBracketed authority = true) :
    splitAuthority authority =
      if bracketOk authority then
        .ok (authority.takeWhile (· != 0x5D) ++ [0x5D],
          if (portOf authority).isEmpty then none else some ((portOf authority).drop 1))
      else .error ipv6Error := by
  have hhead : (authority.head? == some 0x5B) = true := h
  simp only [splitAuthority, hhead, if_true, bracketOk, portOf, h]
  unfold findByte
  cases hclose : authority.dropWhile (· != 0x5D) with
  | nil => simp
  | cons b close =>
    dsimp only [List.drop_one, List.tail_cons]
    by_cases hlength : (authority.takeWhile (· != 0x5D)).length = 1
    · simp [hlength]
    · by_cases hall : ((authority.takeWhile (· != 0x5D)).tail.all ipv6Char) = true
      · cases close with
        | nil => simp [hlength, hall]
        | cons c port =>
          by_cases hc : c = 0x3A
          · simp [hlength, hall, hc]
          · simp [hlength, hall, hc]
      · simp [hlength, hall]

theorem splitAuthority_named {authority : Bytes} (h : isBracketed authority = false) :
    splitAuthority authority =
      if hostOk (authority.takeWhile (· != 0x3A)) then
        .ok (authority.takeWhile (· != 0x3A),
          if (portOf authority).isEmpty then none else some ((portOf authority).drop 1))
      else .error hostError := by
  have hhead : (authority.head? == some 0x5B) = false := h
  have hhost : ∀ host : Bytes, (host.isEmpty || !host.all hostChar) = !hostOk host := by
    simp [hostOk]
  simp only [splitAuthority, hhead, Bool.false_eq_true, if_false, portOf, h, hhost]
  unfold findByte
  cases hcolon : authority.dropWhile (· != 0x3A) with
  | nil =>
    have hself : authority.takeWhile (· != 0x3A) = authority := by
      have := List.takeWhile_append_dropWhile (p := (· != (0x3A : UInt8))) (l := authority)
      rw [hcolon, List.append_nil] at this
      exact this
    rw [hself]
    cases hostOk authority <;> rfl
  | cons b port =>
    dsimp only
    cases hostOk (authority.takeWhile (· != 0x3A)) <;> rfl

theorem portValue_refused (port : Bytes) :
    portValue (if port.isEmpty then none else some (port.drop 1)) =
      if portOk port then .ok (if port.isEmpty then 80 else ofDigits (port.drop 1))
      else .error portError := by
  cases port with
  | nil => rfl
  | cons c port =>
    have hbroken : (port.isEmpty || !port.all isDigit || decide (ofDigits port < 1) ||
        decide (ofDigits port > 65535)) = !portOk (c :: port) := by
      cases port with
      | nil => rfl
      | cons d port =>
        have hsmall : decide (ofDigits (d :: port) < 1) = !decide (1 ≤ ofDigits (d :: port)) := by
          rw [← decide_not, decide_eq_decide]
          omega
        have hlarge : decide (ofDigits (d :: port) > 65535) =
          !decide (ofDigits (d :: port) ≤ 65535) := by
          rw [← decide_not, decide_eq_decide]
          omega
        rw [hsmall, hlarge]
        simp [portOk]
    simp only [portValue, List.isEmpty_cons, Bool.false_eq_true, if_false, List.drop_one,
      List.tail_cons, hbroken]
    cases portOk (c :: port) <;> rfl

/-- The host and port, or the first of the last three rules. -/
theorem splitAuthority_refused (authority : Bytes) :
    splitAuthority authority =
      if isBracketed authority && !bracketOk authority then .error ipv6Error
      else if !isBracketed authority && !hostOk (authority.takeWhile (· != 0x3A)) then
        .error hostError
      else .ok (if isBracketed authority then authority.takeWhile (· != 0x5D) ++ [0x5D]
          else authority.takeWhile (· != 0x3A),
        if (portOf authority).isEmpty then none else some ((portOf authority).drop 1)) := by
  cases h : isBracketed authority with
  | true =>
    rw [splitAuthority_bracketed h]
    cases bracketOk authority <;> rfl
  | false =>
    rw [splitAuthority_named h]
    cases hostOk (authority.takeWhile (· != 0x3A)) <;> rfl

theorem refused_iff (rule : Rule) (problem : Bytes) :
    (.error rule.text : Except Bytes ParsedEndpoint) = .error problem ↔
      ∃ r, some rule = some r ∧ problem = r.text := by
  constructor
  · intro h
    cases h
    exact ⟨rule, rfl, rfl⟩
  · rintro ⟨r, h, rfl⟩
    cases h
    rfl

/-- **What a refusal shows.** The text is that of the first rule the endpoint
breaks, and only that. -/
theorem parseEndpoint_refused (endpoint problem : Bytes) :
    parseEndpoint endpoint = .error problem ↔
      ∃ rule, refusedBy endpoint = some rule ∧ problem = rule.text := by
  have hauthority : (endpoint.drop kScheme.length).takeWhile (fun c => !endsAuthority c) =
      authorityOf endpoint := rfl
  simp only [parseEndpoint, refusedBy, Rule.all, List.find?_cons, List.find?_nil, Rule.broken,
    hauthority, splitAuthority_refused]
  generalize authorityOf endpoint = authority
  -- each rule in its order: the first that is broken decides both sides
  cases kScheme.isPrefixOf endpoint with
  | false => exact refused_iff .scheme problem
  | true =>
    cases endpoint.any isBlankOrControl with
    | true => exact refused_iff .blank problem
    | false =>
      cases authority.contains 0x40 with
      | true => exact refused_iff .credentials problem
      | false =>
        cases isBracketed authority && !bracketOk authority with
        | true => exact refused_iff .bracket problem
        | false =>
          cases !isBracketed authority && !hostOk (authority.takeWhile (· != 0x3A)) with
          | true => exact refused_iff .host problem
          | false =>
            simp only [Bool.false_eq_true, if_false, Bool.not_true, portValue_refused]
            cases portOk (portOf authority) with
            | true => simp
            | false => exact refused_iff .port problem

/-- Scheme, authority and tail of an accepted endpoint: the origin is what
stands before the tail. -/
theorem endpointOrigin_eq {authority tail : Bytes} {parsed : ParsedEndpoint}
    (hends : authority.all (fun c => !endsAuthority c) = true)
    (hstarts : ∀ c, tail.head? = some c → endsAuthority c = true)
    (h : parseEndpoint (kScheme ++ authority ++ tail) = .ok parsed) :
    parsed.origin = kScheme ++ authority := by
  obtain ⟨authority', tail', host, port, value, ha, rfl⟩ := parseEndpoint_iff.1 h
  have htext : authority ++ tail = authority' ++ tail' := by
    have := ha.text
    rwa [List.append_assoc, List.append_assoc, List.append_cancel_left_eq] at this
  have hauthority : authority = authority' := by
    rw [← (takeWhile_authority hends hstarts).1, htext, (takeWhile_authority ha.ends ha.starts).1]
  rw [hauthority]

/-! ## Resolved endpoints -/

section Route
variable (path : Bytes)

theorem completeRoute_suffix : ascii "/chat/completions" <:+ completeRoute path := by
  unfold completeRoute
  dsimp only
  split
  · rename_i h
    exact List.isSuffixOf_iff_suffix.1 h
  · split
    · exact List.suffix_append _ _
    · exact ⟨path.rdropWhile (· == 0x2F) ++ ascii "/v1", by simp [ascii]⟩

/-- A path that has its route keeps it. -/
theorem completeRoute_eq {path : Bytes} (h : ascii "/chat/completions" <:+ path) :
    completeRoute path = path := by
  have hlast : path.rdropWhile (· == 0x2F) = path := by
    obtain ⟨front, rfl⟩ := h
    have hsplit : ascii "/chat/completions" = ascii "/chat/completion" ++ [0x73] := rfl
    rw [hsplit, ← List.append_assoc]
    exact List.rdropWhile_concat_neg _ _ _ (by decide)
  simp only [completeRoute, hlast, List.isSuffixOf_iff_suffix.2 h, if_true]

theorem mem_completeRoute {c : UInt8} (h : c ∈ completeRoute path) :
    c ∈ path ∨ c ∈ ascii "/v1/chat/completions" := by
  have hpath : ∀ c ∈ path.rdropWhile (· == 0x2F), c ∈ path := fun c hc =>
    (List.rdropWhile_prefix _ _).subset hc
  have hshort : ∀ c ∈ ascii "/chat/completions", c ∈ ascii "/v1/chat/completions" := by
    decide +kernel
  unfold completeRoute at h
  dsimp only at h
  split at h
  · exact .inl (hpath c h)
  · split at h
    · rcases List.mem_append.1 h with h | h
      · exact .inl (hpath c h)
      · exact .inr (hshort c h)
    · rcases List.mem_append.1 h with h | h
      · exact .inl (hpath c h)
      · exact .inr h

theorem completeRoute_head {path : Bytes} (h : ∀ c, path.head? = some c → c = 0x2F) :
    (completeRoute path).head? = some 0x2F := by
  have hhead : ∀ c, (path.rdropWhile (· == 0x2F)).head? = some c → c = 0x2F := by
    intro c hc
    obtain ⟨more, hmore⟩ := List.rdropWhile_prefix (· == (0x2F : UInt8)) path
    apply h c
    rw [← hmore]
    cases hp : path.rdropWhile (· == 0x2F) with
    | nil => rw [hp] at hc; cases hc
    | cons d l => rw [hp] at hc; exact hc
  unfold completeRoute
  dsimp only
  cases hp : path.rdropWhile (· == 0x2F) with
  | nil => rfl
  | cons d l =>
    rw [hp] at hhead
    cases hhead d rfl
    split
    · rfl
    · split <;> rfl

end Route

section Target
variable (tail : Bytes)

theorem mem_requestTarget {c : UInt8} (h : c ∈ requestTarget tail) :
    c ∈ tail ∨ c ∈ ascii "/v1/chat/completions" := by
  have htail : ∀ c ∈ tail.takeWhile (· != 0x23), c ∈ tail := fun c hc =>
    (List.takeWhile_prefix _).subset hc
  rcases List.mem_append.1 h with h | h
  · rcases mem_completeRoute _ h with h | h
    · exact .inl (htail c ((List.takeWhile_prefix _).subset h))
    · exact .inr h
  · exact .inl (htail c ((List.dropWhile_suffix _).subset h))

theorem requestTarget_head (h : ∀ c, tail.head? = some c → endsAuthority c = true) :
    (requestTarget tail).head? = some 0x2F := by
  have hpath : ∀ c, ((tail.takeWhile (· != 0x23)).takeWhile (· != 0x3F)).head? = some c →
    c = 0x2F := by
    intro c hc
    cases tail with
    | nil => cases hc
    | cons d tail =>
      have hd := h d rfl
      simp only [endsAuthority, Bool.or_eq_true, beq_iff_eq] at hd
      rcases hd with (rfl | rfl) | rfl
      · simpa using hc.symm
      · simp at hc
      · simp at hc
  have hroute := completeRoute_head hpath
  unfold requestTarget
  dsimp only
  rw [List.head?_append, hroute]
  rfl

/-- A target is its own target. -/
theorem requestTarget_idem : requestTarget (requestTarget tail) = requestTarget tail := by
  generalize hpath : (tail.takeWhile (· != 0x23)).takeWhile (· != 0x3F) = path
  generalize hquery : (tail.takeWhile (· != 0x23)).dropWhile (· != 0x3F) = query
  have htarget : requestTarget tail = completeRoute path ++ query := by
    rw [← hpath, ← hquery]
    rfl
  have hnoHash : ∀ c ∈ tail.takeWhile (· != 0x23), (c != 0x23) = true := fun c hc =>
    List.mem_takeWhile_imp (p := (· != 0x23)) hc
  have hnoMark : ∀ c ∈ path, (c != 0x3F) = true := by
    rw [← hpath]
    exact fun c hc => List.mem_takeWhile_imp (p := (· != 0x3F)) hc
  have hsuffix : ∀ c ∈ ascii "/v1/chat/completions", (c != 0x23) = true ∧ (c != 0x3F) = true := by
    decide +kernel
  have hroute : ∀ c ∈ completeRoute path, (c != 0x3F) = true := by
    intro c hc
    rcases mem_completeRoute path hc with hc | hc
    · exact hnoMark c hc
    · exact (hsuffix c hc).2
  have hhash : ∀ c ∈ completeRoute path ++ query, (c != 0x23) = true := by
    intro c hc
    rcases List.mem_append.1 hc with hc | hc
    · rcases mem_completeRoute path hc with hc | hc
      · rw [← hpath] at hc
        exact hnoHash c ((List.takeWhile_prefix _).subset hc)
      · exact (hsuffix c hc).1
    · rw [← hquery] at hc
      exact hnoHash c ((List.dropWhile_suffix _).subset hc)
  have hmark : ∀ c, query.head? = some c → c = 0x3F := by
    intro c hc
    have := List.head?_dropWhile_not (· != (0x3F : UInt8)) (tail.takeWhile (· != 0x23))
    rw [hquery, hc] at this
    simpa using this
  have hsplit : (completeRoute path ++ query).takeWhile (· != 0x3F) = completeRoute path ∧
      (completeRoute path ++ query).dropWhile (· != 0x3F) = query := by
    rw [List.takeWhile_append_of_pos hroute, List.dropWhile_append_of_pos hroute]
    cases query with
    | nil => simp
    | cons c query =>
      cases hmark c rfl
      simp
  rw [htarget]
  unfold requestTarget
  dsimp only
  rw [List.takeWhile_eq_self_iff.2 hhash, hsplit.1, hsplit.2,
    completeRoute_eq (completeRoute_suffix path)]

end Target

/-- **Resolution is idempotent.** The origin with the target behind it is an
endpoint with the same parts. -/
theorem parseEndpoint_resolved {endpoint : Bytes} {parsed : ParsedEndpoint}
    (h : parseEndpoint endpoint = .ok parsed) :
    parseEndpoint (parsed.origin ++ parsed.target) = .ok parsed := by
  obtain ⟨authority, tail, host, port, value, ha, rfl⟩ := parseEndpoint_iff.1 h
  have hclean : ∀ c ∈ endpoint, isBlankOrControl c = false := by
    intro c hc
    have := List.any_eq_false.1 ha.clean c hc
    simpa using this
  have hroute : ∀ c ∈ ascii "/v1/chat/completions", isBlankOrControl c = false := by decide +kernel
  have haccepts : Accepts (kScheme ++ authority ++ requestTarget tail) authority
    (requestTarget tail)
      host port value := by
    refine ⟨rfl, ?_, ha.ends, ?_, ha.noCredentials, ha.split, ha.number⟩
    · rw [List.any_eq_false]
      intro c hc
      rw [Bool.not_eq_true]
      rcases List.mem_append.1 hc with hc | hc
      · exact hclean c (by rw [ha.text]; exact List.mem_append_left _ hc)
      · rcases mem_requestTarget tail hc with hc | hc
        · exact hclean c (by rw [ha.text]; exact List.mem_append_right _ hc)
        · exact hroute c hc
    · intro c hc
      rw [requestTarget_head tail ha.starts] at hc
      cases hc
      rfl
  rw [parse_of_accepts haccepts, requestTarget_idem]

end Endpoint

end VlmConvert.L4
