import VlmConvert.L4Service.Presets

/-!
# The process configuration

`src/config.cpp`: `load_config_from_env` reads every `GRPC_VLM_*` variable in
turn and throws at the first that is malformed; `startup_banner` is the line
`main` prints once it listens.

An environment gives each name's value, if it has one; a value is a C string,
so it holds no zero byte.

Results:
* `load_valid`: a configuration that loads is within its ranges and keeps the
  rules between its fields.
* `serviceInfo_limits`: the limits the service tells are those its pipeline runs
  under.
* `startup_noninterference`: what a process says of itself is the same whatever
  its credentials are and whatever its endpoint's path is.
* `configuredList_join`, `isLoopbackHost_iff`.
-/
namespace VlmConvert.L4.Settings

open Bytes Endpoint Presets

/-- `std::getenv`. -/
abbrev Env := Bytes → Option Bytes

/-! ## Readers -/

/-- `std::strtoull` in base ten, with what it leaves; `none` without a digit. A
number out of range saturates and a minus sign negates what is in range. -/
def strtoull (raw : Bytes) : Option (Nat × Bytes) :=
  let text := raw.dropWhile isSpace
  let unsigned := if text.head? = some 0x2D ∨ text.head? = some 0x2B then text.tail else text
  let digits := unsigned.takeWhile isDigit
  if digits.isEmpty then none
  else
    let value :=
      if 2 ^ 64 ≤ ofDigits digits then 2 ^ 64 - 1
      else if text.head? = some 0x2D then (2 ^ 64 - ofDigits digits) % 2 ^ 64
      else ofDigits digits
    some (value, unsigned.dropWhile isDigit)

section Readers
variable (env : Env)

/-- The number a value has to be, if it is one in the range. -/
def sizeOf (raw : Bytes) (minimum maximum : Nat) : Option Nat :=
  match strtoull raw with
  | none => none
  | some (value, rest) => if rest ≠ [] ∨ value < minimum ∨ value > maximum then none else some value

/-- mirrors src/config.cpp:13-25 -/
def configuredSize (name : Bytes) (fallback minimum maximum : Nat) : Except Bytes Nat :=
  match env name with
  | none => .ok fallback
  | some raw =>
    if raw.isEmpty then .ok fallback
    else
      match sizeOf raw minimum maximum with
      | none =>
        .error (name ++ ascii " must be an integer between " ++ decimal minimum ++
          ascii " and " ++ decimal maximum)
      | some value => .ok value

/-- mirrors src/config.cpp:27-30 -/
def configuredString (name fallback : Bytes) : Bytes :=
  match env name with
  | none => fallback
  | some raw => if raw.isEmpty then fallback else raw

/-- mirrors src/config.cpp:32-47 -/
def configuredBool (name : Bytes) (fallback : Bool) : Except Bytes Bool :=
  match env name with
  | none => .ok fallback
  | some raw =>
    if raw.isEmpty then .ok fallback
    else if raw = ascii "true" ∨ raw = ascii "1" then .ok true
    else if raw = ascii "false" ∨ raw = ascii "0" then .ok false
    else .error (name ++ ascii " must be true, false, 1 or 0")

/-- A credential, as the operator wrote it.
mirrors src/config.cpp:49-53 -/
def configuredSecret (name : Bytes) : Bytes := (env name).getD []

def isListBlank (c : UInt8) : Bool := c == 0x20 || c == 0x09

def trimItem (item : Bytes) : Bytes := (item.dropWhile isListBlank).rdropWhile isListBlank

/-- The items between commas, without their blanks, but for empty ones.
mirrors src/config.cpp:76-97 -/
def listItems (buffer : Bytes) : List Bytes :=
  ((buffer.splitOn 0x2C).map trimItem).filter fun item => !item.isEmpty

def configuredList (name : Bytes) : List Bytes := listItems ((env name).getD [])

end Readers

/-- mirrors src/config.cpp:55-74 -/
def isLoopbackHost (host : Bytes) : Bool :=
  if host = ascii "localhost" ∨ host = ascii "::1" ∨ host = ascii "[::1]" then true
  else if !(ascii "127.").isPrefixOf host || decide (host.length > 15) then false
  else if host.any fun c => c != 0x2E && !isDigit c then false
  else host.count 0x2E == 3 && !(ascii ".").isSuffixOf host && (findSub (ascii "..") host).isNone

/-! ## The configuration -/

/-- mirrors src/config.h:14-80 -/
structure Config where
  listenAddress : Bytes := ascii "0.0.0.0:50058"
  endpoint : Bytes := []
  vlmApiKey : Bytes := []
  allowEndpointOverride : Bool := false
  requestLogprobs : Bool := true
  presets : List Bytes := []
  concurrency : Nat := 2
  maxInflight : Nat := 8
  maxPageBytes : Nat := 32 * 1024 * 1024
  maxPages : Nat := 512
  maxPageCropBytes : Nat := 3 * 1024 * 1024
  maxStreamBufferedBytes : Nat := 4 * (32 * 1024 * 1024)
  maxBufferedBytes : Nat := 16 * (32 * 1024 * 1024)
  vlmTimeoutSeconds : Nat := 300
  metricsIntervalSeconds : Nat := 60
  httpPort : Nat := 50059
  httpHost : Bytes := ascii "127.0.0.1"
  httpMaxBodyBytes : Nat := 64 * 1024 * 1024
  httpToken : Bytes := []
  deriving DecidableEq, Repr

/-- mirrors src/config.cpp:126 -/
def kMaxBufferedBytes : Nat := 2 ^ 40

/-- The HTTP port; an empty value turns the front end off.
mirrors src/config.cpp:139-146 -/
def configuredHttpPort (env : Env) : Except Bytes Nat :=
  if env (ascii "GRPC_VLM_HTTP_PORT") = some [] ∨
    env (ascii "GRPC_VLM_HTTP_PORT") = some (ascii "0") then .ok 0
  else configuredSize env (ascii "GRPC_VLM_HTTP_PORT") 50059 1 65535

/-- A malformed endpoint is not quoted.
mirrors src/config.cpp:103-110 -/
def configuredEndpoint (env : Env) : Except Bytes Bytes :=
  let endpoint := configuredString env (ascii "GRPC_VLM_ENDPOINT") []
  if !endpoint.isEmpty && !(endpointError endpoint).isEmpty then
    .error (ascii "GRPC_VLM_ENDPOINT: " ++ endpointError endpoint)
  else .ok endpoint

def openToAll (c : Config) : Bool :=
  c.httpPort != 0 && !isLoopbackHost c.httpHost && c.httpToken.isEmpty

/-- Off loopback, callers must authenticate.
mirrors src/config.cpp:151-160 -/
def authenticated (config : Config) : Except Bytes Config :=
  if openToAll config then
    .error (ascii "GRPC_VLM_HTTP_HOST binds the HTTP front end beyond loopback; set GRPC_VLM_HTTP_TOKEN so callers must authenticate (or GRPC_VLM_HTTP_PORT=0 to turn the front end off)")
  else .ok config

/-- mirrors src/config.cpp:101-161 -/
def loadConfigFromEnv (env : Env) : Except Bytes Config := do
  let endpoint ← configuredEndpoint env
  let allowEndpointOverride ← configuredBool env (ascii "GRPC_VLM_ALLOW_ENDPOINT_OVERRIDE") false
  let requestLogprobs ← configuredBool env (ascii "GRPC_VLM_LOGPROBS") true
  let concurrency ← configuredSize env (ascii "GRPC_VLM_CONCURRENCY") 2 1 64
  let maxInflight ← configuredSize env (ascii "GRPC_VLM_MAX_INFLIGHT") 8 1 4096
  let maxPageBytes ← configuredSize env (ascii "GRPC_VLM_MAX_PAGE_BYTES") (32 * 1024 * 1024) 1024
    (1024 * 1024 * 1024)
  let maxPages ← configuredSize env (ascii "GRPC_VLM_MAX_PAGES") 512 1 100000
  let maxPageCropBytes ← configuredSize env (ascii "GRPC_VLM_MAX_PAGE_CROP_BYTES")
    (3 * 1024 * 1024) 1024 (1024 * 1024 * 1024)
  let maxStreamBufferedBytes ← configuredSize env (ascii "GRPC_VLM_MAX_STREAM_BUFFERED_BYTES")
    (4 * maxPageBytes) maxPageBytes kMaxBufferedBytes
  let maxBufferedBytes ← configuredSize env (ascii "GRPC_VLM_MAX_BUFFERED_BYTES")
    (16 * maxPageBytes) maxPageBytes kMaxBufferedBytes
  let vlmTimeoutSeconds ← configuredSize env (ascii "GRPC_VLM_VLM_TIMEOUT_SECONDS") 300 1 86400
  let metricsIntervalSeconds ← configuredSize env
    (ascii "GRPC_VLM_METRICS_INTERVAL_SECONDS") 60 0 86400
  let httpPort ← configuredHttpPort env
  let httpMaxBodyBytes ← configuredSize env (ascii "GRPC_VLM_HTTP_MAX_BODY_BYTES")
    (64 * 1024 * 1024) 1024 (16 * 2 ^ 30)
  authenticated {
    listenAddress := configuredString env (ascii "GRPC_VLM_LISTEN_ADDRESS") (ascii "0.0.0.0:50058")
    endpoint, allowEndpointOverride, requestLogprobs, concurrency, maxInflight, maxPageBytes,
      maxPages
    maxPageCropBytes, maxStreamBufferedBytes, maxBufferedBytes, vlmTimeoutSeconds,
      metricsIntervalSeconds
    httpPort, httpMaxBodyBytes
    vlmApiKey := configuredSecret env (ascii "GRPC_VLM_API_KEY")
    presets := configuredList env (ascii "GRPC_VLM_PRESETS")
    httpHost := configuredString env (ascii "GRPC_VLM_HTTP_HOST") (ascii "127.0.0.1")
    httpToken := configuredSecret env (ascii "GRPC_VLM_HTTP_TOKEN") }

/-- What is printed of the endpoint.
mirrors src/config.cpp:172-179 -/
def bannerEndpoint (c : Config) : Bytes :=
  if c.endpoint.isEmpty then
    -- the dash is U+2014
    ascii "<none " ++ [0xE2, 0x80, 0x94] ++
      if c.allowEndpointOverride then ascii " per-request override required>"
      else ascii " ConvertPages fails until GRPC_VLM_ENDPOINT is set>"
  else endpointOrigin c.endpoint

/-- mirrors src/config.cpp:163-189 -/
def startupBanner (c : Config) : Bytes :=
  ascii "grpc-vlm-convert listening on " ++ c.listenAddress ++
    (if c.httpPort ≠ 0 then
      ascii " (HTTP on " ++ c.httpHost ++ ascii ":" ++ decimal c.httpPort ++
        (if c.httpToken.isEmpty then [] else ascii ", token required") ++ ascii ")"
    else []) ++
    ascii " (endpoint " ++ bannerEndpoint c ++
    (if c.vlmApiKey.isEmpty then [] else ascii ", API key set") ++ ascii ")" ++
    if c.allowEndpointOverride then ascii " (per-request endpoint overrides allowed)" else []

/-- What `main` prints of a configuration, once it listens.
mirrors src/main.cpp:48-139 -/
def startupLine (env : Env) : Bytes :=
  match loadConfigFromEnv env with
  | .error problem => ascii "Startup failed: " ++ problem
  | .ok config => startupBanner config

/-! ## Runs of `Except` -/

theorem bind_ok {α β : Type} {x : Except Bytes α} {f : α → Except Bytes β} {b : β} :
    (x >>= f) = .ok b ↔ ∃ a, x = .ok a ∧ f a = .ok b := by
  cases x with
  | error problem => simp [bind, Except.bind]
  | ok a => simp [bind, Except.bind]

/-- Two runs whose steps differ by a map differ by a map. -/
theorem bind_map {α α' β β' : Type} {x : Except Bytes α} {x' : Except Bytes α'}
    {f : α → Except Bytes β}
    {f' : α' → Except Bytes β'} (k : α → α') {g : β → β'} (hx : x' = x.map k)
    (h : ∀ a, f' (k a) = (f a).map g) : (x' >>= f') = (x >>= f).map g := by
  subst hx
  cases x with
  | error problem => rfl
  | ok a => exact h a

/-! ## Values -/

section Values
variable {env : Env} {name : Bytes}

/-- A value the operator set. -/
def Env.IsSet (env : Env) (name : Bytes) : Prop := ∃ raw, env name = some raw ∧ raw ≠ []

/-- What fails names a variable the operator set. -/
def Blames {α : Type} (env : Env) (x : Except Bytes α) : Prop :=
  ∀ problem, x = .error problem → ∃ name, name <+: problem ∧ env.IsSet name

theorem Blames.bind {α β : Type} {x : Except Bytes α} {f : α → Except Bytes β} (h : Blames env x)
    (hf : ∀ a, Blames env (f a)) : Blames env (x >>= f) := by
  intro problem hrun
  cases x with
  | error _ =>
    cases hrun
    exact h problem rfl
  | ok a => exact hf a problem hrun

theorem sizeOf_some {raw : Bytes} {minimum maximum value : Nat}
    (h : sizeOf raw minimum maximum = some value) :
    strtoull raw = some (value, []) ∧ minimum ≤ value ∧ value ≤ maximum := by
  unfold sizeOf at h
  split at h
  · cases h
  · rename_i value' rest hread
    split at h
    · cases h
    · rename_i hrange
      cases h
      obtain ⟨hrest, hmin, hmax⟩ : rest = [] ∧ minimum ≤ value ∧ value ≤ maximum := by
        simpa [not_or] using hrange
      exact ⟨hrest ▸ hread, hmin, hmax⟩

/-- A sized variable: the value it was set to, or the fallback. -/
theorem configuredSize_ok {fallback minimum maximum value : Nat}
    (h : configuredSize env name fallback minimum maximum = .ok value) :
    (value = fallback ∧ ¬ env.IsSet name) ∨
      (∃ raw, env name = some raw ∧ raw ≠ [] ∧ strtoull raw = some (value, [])) ∧
        minimum ≤ value ∧ value ≤ maximum := by
  unfold configuredSize at h
  split at h
  · rename_i hunset
    cases h
    exact .inl ⟨rfl, fun ⟨raw, hraw, _⟩ => by simp [hunset] at hraw⟩
  · rename_i raw hraw
    split at h
    · rename_i hempty
      cases h
      refine .inl ⟨rfl, fun hset => ?_⟩
      obtain ⟨raw', hraw', hne⟩ := hset
      rw [hraw] at hraw'
      cases hraw'
      exact hne (List.isEmpty_iff.1 hempty)
    · rename_i hne
      split at h
      · cases h
      · rename_i hsize
        cases h
        obtain ⟨hread, hrange⟩ := sizeOf_some hsize
        exact .inr ⟨⟨raw, hraw, by simpa using hne, hread⟩, hrange⟩

theorem blames_size {fallback minimum maximum : Nat} :
    Blames env (configuredSize env name fallback minimum maximum) := by
  intro problem h
  unfold configuredSize at h
  split at h
  · cases h
  · rename_i raw hraw
    split at h
    · cases h
    · rename_i hne
      split at h
      · cases h
        refine ⟨name, ?_, raw, hraw, by simpa using hne⟩
        simp only [List.append_assoc]
        exact List.prefix_append _ _
      · cases h

theorem blames_bool {fallback : Bool} : Blames env (configuredBool env name fallback) := by
  intro problem h
  unfold configuredBool at h
  split at h
  · cases h
  · rename_i raw hraw
    split at h
    · cases h
    · rename_i hne
      split at h
      · cases h
      · split at h
        · cases h
        · cases h
          exact ⟨name, List.prefix_append _ _, raw, hraw, by simpa using hne⟩

theorem isSet_of_configuredString {fallback : Bytes}
    (h : configuredString env name fallback ≠ fallback) :
    env.IsSet name := by
  unfold configuredString at h
  split at h
  · exact absurd rfl h
  · rename_i raw hraw
    split at h
    · exact absurd rfl h
    · rename_i hne
      exact ⟨raw, hraw, by simpa using hne⟩

theorem configuredEndpoint_ok {endpoint : Bytes} (h : configuredEndpoint env = .ok endpoint) :
    endpoint = configuredString env (ascii "GRPC_VLM_ENDPOINT") [] ∧
      (endpoint ≠ [] → ∃ parsed, parseEndpoint endpoint = .ok parsed) := by
  unfold configuredEndpoint at h
  dsimp only at h
  split at h
  · cases h
  · rename_i hproblem
    cases h
    refine ⟨rfl, fun hne => endpointError_isEmpty ?_⟩
    simpa [hne] using hproblem

theorem blames_endpoint : Blames env (configuredEndpoint env) := by
  intro problem h
  unfold configuredEndpoint at h
  dsimp only at h
  split at h
  · rename_i hproblem
    cases h
    refine ⟨ascii "GRPC_VLM_ENDPOINT", ?_, @isSet_of_configuredString env _ [] fun hempty => ?_⟩
    · have hname : ascii "GRPC_VLM_ENDPOINT: " = ascii "GRPC_VLM_ENDPOINT" ++ ascii ": " := by
        decide
      rw [hname, List.append_assoc]
      exact List.prefix_append _ _
    · simp [hempty] at hproblem
  · cases h

/-- The port its variable says: unset, the default; empty or `0`, no front
end at all. -/
def PortHolds (env : Env) (port : Nat) : Prop :=
  match env (ascii "GRPC_VLM_HTTP_PORT") with
  | none => port = 50059
  | some raw =>
    (raw = [] ∨ raw = ascii "0") ∧ port = 0 ∨
      strtoull raw = some (port, []) ∧ 1 ≤ port ∧ port ≤ 65535

theorem configuredHttpPort_ok {port : Nat} (h : configuredHttpPort env = .ok port) :
    PortHolds env port := by
  unfold configuredHttpPort at h
  split at h
  · rename_i hoff
    cases h
    rcases hoff with hoff | hoff
    · rw [PortHolds, hoff]
      exact .inl ⟨.inl rfl, rfl⟩
    · rw [PortHolds, hoff]
      exact .inl ⟨.inr rfl, rfl⟩
  · rename_i hon
    rcases configuredSize_ok h with ⟨rfl, hunset⟩ | ⟨⟨raw, hraw, -, hread⟩, hrange⟩
    · cases hraw : env (ascii "GRPC_VLM_HTTP_PORT") with
      | none => rw [PortHolds, hraw]
      | some raw =>
        have hset : raw ≠ [] := fun hempty => hon (.inl (by rw [hraw, hempty]))
        exact absurd ⟨raw, hraw, hset⟩ hunset
    · rw [PortHolds, hraw]
      exact .inr ⟨hread, hrange⟩

theorem PortHolds.le {port : Nat} (h : PortHolds env port) : port ≤ 65535 := by
  unfold PortHolds at h
  split at h
  · omega
  · rcases h with ⟨-, rfl⟩ | ⟨-, -, hmax⟩
    · omega
    · exact hmax

theorem blames_httpPort : Blames env (configuredHttpPort env) := by
  unfold configuredHttpPort
  split
  · intro problem h
    cases h
  · exact blames_size

end Values

/-! ## Lists and hosts -/

/-- An item of a comma list. -/
structure IsItem (item : Bytes) : Prop where
  nonempty : item ≠ []
  trimmed : trimItem item = item
  comma : 0x2C ∉ item

theorem trimItem_trimItem (item : Bytes) : trimItem (trimItem item) = trimItem item := by
  have hleft : ((item.dropWhile isListBlank).rdropWhile isListBlank).dropWhile isListBlank =
      (item.dropWhile isListBlank).rdropWhile isListBlank := by
    cases htrim : (item.dropWhile isListBlank).rdropWhile isListBlank with
    | nil => rfl
    | cons c rest =>
      have hbegins := List.rdropWhile_prefix isListBlank (item.dropWhile isListBlank)
      rw [htrim] at hbegins
      obtain ⟨more, hmore⟩ := hbegins
      have hc : isListBlank c = false := by
        have hhead := List.head?_dropWhile_not isListBlank item
        rw [← hmore] at hhead
        simpa using hhead
      rw [List.dropWhile_cons_of_neg (by simp [hc])]
  unfold trimItem
  rw [hleft, List.rdropWhile_idempotent]

theorem mem_splitOn {x : UInt8} {l : Bytes} : ∀ item ∈ l.splitOn x, x ∉ item := by
  induction l with
  | nil => simp
  | cons c rest ih =>
    rw [List.splitOn_cons_eq_if_modifyHead]
    split
    · exact List.forall_mem_cons.2 ⟨List.not_mem_nil, ih⟩
    · rename_i hc
      cases hrest : rest.splitOn x with
      | nil => exact absurd hrest (List.splitOn_ne_nil x rest)
      | cons item items =>
        rw [hrest] at ih
        obtain ⟨hitem, hitems⟩ := List.forall_mem_cons.1 ih
        refine List.forall_mem_cons.2 ⟨fun hx => ?_, hitems⟩
        rcases List.mem_cons.1 hx with rfl | hx
        · exact hc (beq_self_eq_true _)
        · exact hitem hx

theorem isItem_listItems {buffer item : Bytes} (h : item ∈ listItems buffer) : IsItem item := by
  unfold listItems at h
  obtain ⟨hmem, hne⟩ := List.mem_filter.1 h
  obtain ⟨raw, hraw, rfl⟩ := List.mem_map.1 hmem
  refine ⟨by simpa using hne, trimItem_trimItem raw, fun hcomma => mem_splitOn raw hraw ?_⟩
  exact (List.dropWhile_suffix _).subset ((List.rdropWhile_prefix _ _).subset hcomma)

/-- **The list read is the list written**, whatever the items. -/
theorem listItems_join {items : List Bytes} (h : ∀ item ∈ items, IsItem item) :
    listItems ([0x2C].intercalate items) = items := by
  unfold listItems
  rcases items with - | ⟨item, rest⟩
  · rfl
  · rw [List.splitOn_intercalate _ (fun l hl => (h l hl).comma) (by simp)]
    have hmap : (item :: rest).map trimItem = item :: rest :=
      (List.map_congr_left fun l hl => (h l hl).trimmed).trans (List.map_id _)
    rw [hmap]
    exact List.filter_eq_self.2 fun l hl => by simpa using (h l hl).nonempty

/-- A run of digits. -/
structure IsOctet (text : Bytes) : Prop where
  nonempty : text ≠ []
  digits : ∀ c ∈ text, isDigit c = true

theorem exists_split {x : UInt8} {l : Bytes} {n : Nat} (h : l.count x = n + 1) :
    ∃ a b, l = a ++ x :: b ∧ x ∉ a ∧ b.count x = n := by
  have hmem : x ∈ l := List.count_pos_iff.1 (by omega)
  obtain ⟨a, b, rfl, hnot⟩ := List.eq_append_cons_of_mem hmem
  refine ⟨a, b, rfl, hnot, ?_⟩
  rw [List.count_append, List.count_cons_self, List.count_eq_zero.2 hnot] at h
  omega

theorem ne_dot {c : UInt8} (h : isDigit c = true) : c ≠ 0x2E := by
  rintro rfl
  cases h

/-- No dot follows a dot. -/
def Dotted (l : Bytes) : Prop := ¬ [0x2E, 0x2E] <:+: l

theorem dotted_iff {l : Bytes} : (findSub (ascii "..") l).isNone = true ↔ Dotted l := by
  rw [Option.isNone_iff_eq_none]
  refine ⟨fun h => not_infix_of_findSub (by decide) h, fun h => ?_⟩
  cases hfind : findSub (ascii "..") l with
  | none => rfl
  | some found =>
    refine absurd ((findSub_starts hfind).isInfix.trans ?_) h
    rw [findSub_eq hfind]
    exact (List.suffix_append _ _).isInfix

theorem dotted_octet {text : Bytes} (htext : ∀ c ∈ text, isDigit c = true) {l : Bytes}
    (h : Dotted l) :
    Dotted (text ++ l) := by
  induction text with
  | nil => exact h
  | cons c rest ih =>
    obtain ⟨hc, hrest⟩ := List.forall_mem_cons.1 htext
    intro hinfix
    rcases List.infix_cons_iff.1 hinfix with hbegins | hinfix
    · exact ne_dot hc (List.cons_prefix_cons.1 hbegins).1.symm
    · exact ih hrest hinfix

theorem dotted_dot {text l : Bytes} (htext : IsOctet text) (h : Dotted (text ++ l)) :
    Dotted (0x2E :: (text ++ l)) := by
  intro hinfix
  rcases List.infix_cons_iff.1 hinfix with hbegins | hinfix
  · obtain ⟨c, rest, rfl⟩ := List.exists_cons_of_ne_nil htext.nonempty
    have hhead := (List.cons_prefix_cons.1 (List.cons_prefix_cons.1 hbegins).2).1
    exact ne_dot (htext.digits c List.mem_cons_self) hhead.symm
  · exact h hinfix

theorem IsOctet.count {text : Bytes} (h : IsOctet text) : text.count 0x2E = 0 :=
  List.count_eq_zero.2 fun hmem => ne_dot (h.digits _ hmem) rfl

/-- The bytes between two dots. -/
theorem isOctet_between {before text after : Bytes}
    (hchars : ∀ c ∈ text, c = 0x2E ∨ isDigit c = true)
    (hdot : 0x2E ∉ text) (hdotted : Dotted (before ++ 0x2E :: (text ++ 0x2E :: after))) :
    IsOctet text := by
  refine ⟨fun hnil => hdotted ?_, fun c hc => ?_⟩
  · subst hnil
    exact ⟨before, after, by simp⟩
  · rcases hchars c hc with rfl | hc
    · contradiction
    · exact hc

/-- The addresses of the loopback network, as they are recognised. -/
structure IsLoopbackAddress (host : Bytes) : Prop where
  length : host.length ≤ 15
  octets : ∃ a b c, host = ascii "127." ++ (a ++ 0x2E :: (b ++ 0x2E :: c)) ∧
    IsOctet a ∧ IsOctet b ∧ IsOctet c

theorem isLoopbackAddress_of_bytes {rest : Bytes} (hlength : (ascii "127." ++ rest).length ≤ 15)
    (hbytes : ∀ x ∈ rest, x = 0x2E ∨ isDigit x = true) (hcount : rest.count 0x2E = 2)
    (hend : ¬ ascii "." <:+ ascii "127." ++ rest) (hdotted : Dotted (ascii "127." ++ rest)) :
    IsLoopbackAddress (ascii "127." ++ rest) := by
  obtain ⟨a, tail, rfl, hdota, htail⟩ := exists_split hcount
  obtain ⟨b, c, rfl, hdotb, hdotc⟩ := exists_split htail
  have ha : IsOctet a :=
    @isOctet_between (ascii "127") a (b ++ 0x2E :: c)
      (fun x hx => hbytes x (by simp [hx])) hdota hdotted
  have hb : IsOctet b :=
    @isOctet_between (ascii "127." ++ a) b c (fun x hx => hbytes x (by simp [hx])) hdotb
      (by simpa using hdotted)
  have hc : IsOctet c := by
    refine ⟨fun hnil => ?_, fun x hx => ?_⟩
    · subst hnil
      exact hend ⟨ascii "127." ++ (a ++ 0x2E :: b), by simp [ascii]⟩
    · rcases hbytes x (by simp [hx]) with rfl | hx
      · exact absurd hx (List.count_eq_zero.1 hdotc)
      · exact hx
  exact ⟨hlength, a, b, c, rfl, ha, hb, hc⟩

theorem IsLoopbackAddress.dotted {host : Bytes} (h : IsLoopbackAddress host) : Dotted host := by
  obtain ⟨-, a, b, c, rfl, ha, hb, hc⟩ := h
  have hname : ascii "127." = ascii "127" ++ [0x2E] := by decide
  have h127 : ∀ c ∈ ascii "127", isDigit c = true := by decide +kernel
  have hend : Dotted (c ++ []) := dotted_octet hc.digits (by simp [Dotted])
  have hdotted :=
    dotted_octet ha.digits (dotted_dot hb (dotted_octet hb.digits (dotted_dot hc hend)))
  rw [hname, List.append_assoc]
  simpa using dotted_octet h127 (dotted_dot ha hdotted)

theorem IsLoopbackAddress.bytes {host : Bytes} (h : IsLoopbackAddress host) :
    (host.any fun c => c != 0x2E && !isDigit c) = false := by
  obtain ⟨-, a, b, c, rfl, ha, hb, hc⟩ := h
  have h127 : (ascii "127.").any (fun c => c != 0x2E && !isDigit c) = false := by decide
  have hoctet : ∀ {text : Bytes}, IsOctet text →
    text.any (fun c => c != 0x2E && !isDigit c) = false :=
    fun htext => List.any_eq_false.2 fun x hx => by simp [htext.digits x hx]
  simp [List.any_append, List.any_cons, h127, hoctet ha, hoctet hb, hoctet hc]

theorem IsLoopbackAddress.count {host : Bytes} (h : IsLoopbackAddress host) :
    host.count 0x2E = 3 := by
  obtain ⟨-, a, b, c, rfl, ha, hb, hc⟩ := h
  have h127 : (ascii "127.").count 0x2E = 1 := by decide
  simp only [List.count_append, List.count_cons_self, h127, ha.count, hb.count, hc.count]

theorem IsLoopbackAddress.end {host : Bytes} (h : IsLoopbackAddress host) :
    ¬ ascii "." <:+ host := by
  obtain ⟨-, a, b, c, rfl, ha, hb, hc⟩ := h
  rintro ⟨before, hbefore⟩
  obtain ⟨front, last, rfl⟩ := (List.eq_nil_or_concat c).resolve_left hc.nonempty
  have hsame : before ++ ascii "." = (ascii "127." ++ (a ++ 0x2E :: (b ++ 0x2E :: front))) ++
    [last] := by
    simpa using hbefore
  have hdot : [0x2E] = [last] := List.append_inj_right' hsame rfl
  exact ne_dot (hc.digits last (by simp)) (List.head_eq_of_cons_eq hdot).symm

/-- **The hosts only this machine reaches**: the names of the loopback, or
`127.` and three runs of digits in at most fifteen bytes. -/
theorem isLoopbackHost_iff {host : Bytes} :
    isLoopbackHost host = true ↔
      host = ascii "localhost" ∨ host = ascii "::1" ∨ host = ascii "[::1]" ∨
        IsLoopbackAddress host := by
  unfold isLoopbackHost
  constructor
  · intro h
    split at h
    · rename_i hnamed
      rcases hnamed with h | h | h <;> simp [h]
    · refine .inr (.inr (.inr ?_))
      split at h
      · cases h
      · rename_i hstart
        split at h
        · cases h
        · rename_i hchars
          simp only [Bool.or_eq_true, Bool.not_eq_true', decide_eq_true_eq, not_or,
            Bool.not_eq_false, List.isPrefixOf_iff_prefix, gt_iff_lt, not_lt] at hstart
          simp only [Bool.and_eq_true, beq_iff_eq, Bool.not_eq_true', dotted_iff] at h
          obtain ⟨⟨rest, rfl⟩, hlength⟩ := hstart
          obtain ⟨⟨hcount, hend⟩, hdotted⟩ := h
          have h127 : (ascii "127.").count 0x2E = 1 := by decide
          rw [List.count_append] at hcount
          rw [Bool.eq_false_iff, ne_eq, List.isSuffixOf_iff_suffix] at hend
          refine isLoopbackAddress_of_bytes hlength (fun x hx => ?_) (by omega) hend hdotted
          have hx' := List.any_eq_false.1 (Bool.not_eq_true _ ▸ hchars) x
            (List.mem_append_right _ hx)
          by_cases hdot : x = 0x2E
          · exact .inl hdot
          · exact .inr (by simpa [hdot] using hx')
  · rintro (rfl | rfl | rfl | h)
    · rfl
    · rfl
    · rfl
    · have hbegins : (ascii "127.").isPrefixOf host = true := by
        obtain ⟨-, a, b, c, rfl, -⟩ := h
        exact List.isPrefixOf_iff_prefix.2 (List.prefix_append _ _)
      have hend : (ascii ".").isSuffixOf host = false := by
        rw [Bool.eq_false_iff, ne_eq, List.isSuffixOf_iff_suffix]
        exact h.end
      have hlength : decide (host.length > 15) = false := decide_eq_false (Nat.not_lt.2 h.length)
      split
      · rfl
      · rw [hbegins, hlength, h.bytes, h.count, hend, dotted_iff.2 h.dotted]
        rfl

/-! ## What loads -/

/-- A variable that holds a number, and where it ends up. -/
structure SizeVar where
  name : Bytes
  field : Config → Nat
  fallback : Config → Nat
  minimum : Config → Nat
  maximum : Nat

/-- The numbers of `load_config_from_env`, in its order. -/
def sizeVars : List SizeVar :=
  [⟨ascii "GRPC_VLM_CONCURRENCY", (·.concurrency), fun _ => 2, fun _ => 1, 64⟩,
    ⟨ascii "GRPC_VLM_MAX_INFLIGHT", (·.maxInflight), fun _ => 8, fun _ => 1, 4096⟩,
    ⟨ascii "GRPC_VLM_MAX_PAGE_BYTES", (·.maxPageBytes), fun _ => 32 * 1024 * 1024, fun _ => 1024,
      1024 * 1024 * 1024⟩,
    ⟨ascii "GRPC_VLM_MAX_PAGES", (·.maxPages), fun _ => 512, fun _ => 1, 100000⟩,
    ⟨ascii "GRPC_VLM_MAX_PAGE_CROP_BYTES", (·.maxPageCropBytes), fun _ => 3 * 1024 * 1024,
      fun _ => 1024, 1024 * 1024 * 1024⟩,
    ⟨ascii "GRPC_VLM_MAX_STREAM_BUFFERED_BYTES", (·.maxStreamBufferedBytes),
      fun c => 4 * c.maxPageBytes, (·.maxPageBytes), kMaxBufferedBytes⟩,
    ⟨ascii "GRPC_VLM_MAX_BUFFERED_BYTES", (·.maxBufferedBytes), fun c => 16 * c.maxPageBytes,
      (·.maxPageBytes), kMaxBufferedBytes⟩,
    ⟨ascii "GRPC_VLM_VLM_TIMEOUT_SECONDS", (·.vlmTimeoutSeconds), fun _ => 300, fun _ => 1, 86400⟩,
    ⟨ascii "GRPC_VLM_METRICS_INTERVAL_SECONDS", (·.metricsIntervalSeconds), fun _ => 60,
      fun _ => 0, 86400⟩,
    ⟨ascii "GRPC_VLM_HTTP_MAX_BODY_BYTES", (·.httpMaxBodyBytes), fun _ => 64 * 1024 * 1024,
      fun _ => 1024, 16 * 2 ^ 30⟩]

/-- The field holds what the variable says, or its fallback. -/
def SizeVar.Holds (v : SizeVar) (env : Env) (c : Config) : Prop :=
  configuredSize env v.name (v.fallback c) (v.minimum c) v.maximum = .ok (v.field c)

/-- What the rest of the process relies on. -/
structure Config.Valid (c : Config) : Prop where
  endpoint : c.endpoint ≠ [] → ∃ parsed, parseEndpoint c.endpoint = .ok parsed
  presets : ∀ name ∈ c.presets, IsItem name
  sizes : ∀ v ∈ sizeVars, v.minimum c ≤ v.field c ∧ v.field c ≤ v.maximum
  httpPort : c.httpPort ≤ 65535
  authenticated : c.httpPort ≠ 0 → isLoopbackHost c.httpHost = false → c.httpToken ≠ []

section Loading
variable {env : Env} {c : Config} {problem : Bytes}

/-- What each field of a loaded configuration was read from. -/
theorem load_fields (h : loadConfigFromEnv env = .ok c) :
    (∀ v ∈ sizeVars, v.Holds env c) ∧ configuredEndpoint env = .ok c.endpoint ∧
      c.presets = configuredList env (ascii "GRPC_VLM_PRESETS") ∧
        configuredHttpPort env = .ok c.httpPort ∧
      c.vlmApiKey = configuredSecret env (ascii "GRPC_VLM_API_KEY") ∧
      c.httpToken = configuredSecret env (ascii "GRPC_VLM_HTTP_TOKEN") ∧ openToAll c = false := by
  unfold loadConfigFromEnv at h
  obtain ⟨endpoint, hendpoint, h⟩ := bind_ok.1 h
  obtain ⟨allowEndpointOverride, -, h⟩ := bind_ok.1 h
  obtain ⟨requestLogprobs, -, h⟩ := bind_ok.1 h
  obtain ⟨concurrency, hconcurrency, h⟩ := bind_ok.1 h
  obtain ⟨maxInflight, hinflight, h⟩ := bind_ok.1 h
  obtain ⟨maxPageBytes, hpageBytes, h⟩ := bind_ok.1 h
  obtain ⟨maxPages, hpages, h⟩ := bind_ok.1 h
  obtain ⟨maxPageCropBytes, hcrop, h⟩ := bind_ok.1 h
  obtain ⟨maxStreamBufferedBytes, hstream, h⟩ := bind_ok.1 h
  obtain ⟨maxBufferedBytes, hbuffered, h⟩ := bind_ok.1 h
  obtain ⟨vlmTimeoutSeconds, htimeout, h⟩ := bind_ok.1 h
  obtain ⟨metricsIntervalSeconds, hmetrics, h⟩ := bind_ok.1 h
  obtain ⟨httpPort, hport, h⟩ := bind_ok.1 h
  obtain ⟨httpMaxBodyBytes, hbody, h⟩ := bind_ok.1 h
  unfold authenticated at h
  split at h
  · cases h
  · rename_i hopen
    cases h
    refine ⟨?_, hendpoint, rfl, hport, rfl, rfl, by simpa using hopen⟩
    simp only [sizeVars, List.forall_mem_cons, SizeVar.Holds]
    exact ⟨hconcurrency, hinflight, hpageBytes, hpages, hcrop, hstream, hbuffered, htimeout,
      hmetrics, hbody, List.forall_mem_nil _⟩

/-- The fallback of a number is within its range. -/
theorem sizeVars_fallback (h : 1024 ≤ c.maxPageBytes ∧ c.maxPageBytes ≤ 1024 * 1024 * 1024) :
    ∀ v ∈ sizeVars, v.minimum c ≤ v.fallback c ∧ v.fallback c ≤ v.maximum := by
  simp only [sizeVars, List.forall_mem_cons, kMaxBufferedBytes]
  refine ⟨?_, ?_, ?_, ?_, ?_, ?_, ?_, ?_, ?_, ?_, List.forall_mem_nil _⟩ <;> omega

theorem SizeVar.Holds.range {v : SizeVar} (h : v.Holds env c)
    (hfallback : v.minimum c ≤ v.fallback c ∧ v.fallback c ≤ v.maximum) :
    v.minimum c ≤ v.field c ∧ v.field c ≤ v.maximum := by
  rcases configuredSize_ok h with ⟨heq, -⟩ | ⟨-, hrange⟩
  · rwa [heq]
  · exact hrange

theorem load_valid (h : loadConfigFromEnv env = .ok c) : c.Valid := by
  obtain ⟨hsizes, hendpoint, hpresets, hport, -, -, hopen⟩ := load_fields h
  have hpage : 1024 ≤ c.maxPageBytes ∧ c.maxPageBytes ≤ 1024 * 1024 * 1024 := by
    have hholds :=
      hsizes ⟨ascii "GRPC_VLM_MAX_PAGE_BYTES", (·.maxPageBytes), fun _ => 32 * 1024 * 1024,
      fun _ => 1024, 1024 * 1024 * 1024⟩ (by simp [sizeVars])
    exact hholds.range (by dsimp only; omega)
  refine ⟨(configuredEndpoint_ok hendpoint).2, fun name hname => ?_,
    fun v hv => (hsizes v hv).range (sizeVars_fallback hpage v hv),
    (configuredHttpPort_ok hport).le, fun hon hfar => ?_⟩
  · rw [hpresets] at hname
    exact isItem_listItems hname
  · simpa [openToAll, hon, hfar] using hopen

/-- A configuration that does not load names a variable the operator set. -/
theorem load_blames (env : Env) : Blames env (loadConfigFromEnv env) := by
  unfold loadConfigFromEnv
  refine blames_endpoint.bind fun _ => blames_bool.bind fun _ => blames_bool.bind fun _ => ?_
  refine blames_size.bind fun _ => blames_size.bind fun _ => blames_size.bind fun _ => ?_
  refine blames_size.bind fun _ => blames_size.bind fun _ => blames_size.bind fun _ => ?_
  refine blames_size.bind fun _ => blames_size.bind fun _ => blames_size.bind fun _ => ?_
  refine blames_httpPort.bind fun _ => blames_size.bind fun _ => ?_
  intro problem h
  unfold authenticated at h
  split at h
  · rename_i hopen
    rw [← Except.error.inj h]
    -- the host the front end has by default is a loopback
    refine ⟨ascii "GRPC_VLM_HTTP_HOST", ?_, @isSet_of_configuredString env _ (ascii "127.0.0.1") ?_⟩
    · rw [ascii_ofList, ascii_ofList]
      decide
    intro hdefault
    have hloop : isLoopbackHost (ascii "127.0.0.1") = true := by decide
    simp [openToAll, hdefault, hloop] at hopen
  · cases h

end Loading

/-- **A configuration that loads is valid**, and each number in it is what
`strtoull` reads of its variable or, unset or empty, the fallback; an HTTP
port of 0 is an empty variable or `0`. One that does not load is put down to a
variable that is set. -/
theorem loadConfigFromEnv_sound (env : Env) :
    (∀ c, loadConfigFromEnv env = .ok c → c.Valid ∧ PortHolds env c.httpPort ∧ ∀ v ∈ sizeVars,
      (v.field c = v.fallback c ∧ ¬ env.IsSet v.name) ∨
        ∃ raw, env v.name = some raw ∧ raw ≠ [] ∧ strtoull raw = some (v.field c, [])) ∧
    ∀ problem, loadConfigFromEnv env = .error problem →
      ∃ name, name <+: problem ∧ env.IsSet name := by
  refine ⟨fun c h => ?_, load_blames env⟩
  obtain ⟨hsizes, -, -, hport, -⟩ := load_fields h
  refine ⟨load_valid h, configuredHttpPort_ok hport, fun v hv => ?_⟩
  rcases configuredSize_ok (hsizes v hv) with hdefault | ⟨hset, -⟩
  · exact .inl hdefault
  · exact .inr hset

/-! ## The pipeline's limits -/

section Limits
variable {c : Config}

theorem Config.Valid.concurrency (h : c.Valid) : 1 ≤ c.concurrency ∧ c.concurrency ≤ 64 :=
  h.sizes ⟨ascii "GRPC_VLM_CONCURRENCY", (·.concurrency), fun _ => 2, fun _ => 1, 64⟩
    (by simp [sizeVars])

theorem Config.Valid.maxInflight (h : c.Valid) : 1 ≤ c.maxInflight ∧ c.maxInflight ≤ 4096 :=
  h.sizes ⟨ascii "GRPC_VLM_MAX_INFLIGHT", (·.maxInflight), fun _ => 8, fun _ => 1, 4096⟩
    (by simp [sizeVars])

theorem Config.Valid.maxPageBytes (h : c.Valid) :
    1024 ≤ c.maxPageBytes ∧ c.maxPageBytes ≤ 1024 * 1024 * 1024 :=
  h.sizes ⟨ascii "GRPC_VLM_MAX_PAGE_BYTES", (·.maxPageBytes), fun _ => 32 * 1024 * 1024,
    fun _ => 1024, 1024 * 1024 * 1024⟩ (by simp [sizeVars])

theorem Config.Valid.maxPages (h : c.Valid) : 1 ≤ c.maxPages ∧ c.maxPages ≤ 100000 :=
  h.sizes ⟨ascii "GRPC_VLM_MAX_PAGES", (·.maxPages), fun _ => 512, fun _ => 1, 100000⟩
    (by simp [sizeVars])

theorem Config.Valid.maxStreamBufferedBytes (h : c.Valid) :
    c.maxPageBytes ≤ c.maxStreamBufferedBytes ∧ c.maxStreamBufferedBytes ≤ 2 ^ 40 :=
  h.sizes ⟨ascii "GRPC_VLM_MAX_STREAM_BUFFERED_BYTES", (·.maxStreamBufferedBytes),
    fun c => 4 * c.maxPageBytes, (·.maxPageBytes), kMaxBufferedBytes⟩ (by simp [sizeVars])

theorem Config.Valid.maxBufferedBytes (h : c.Valid) :
    c.maxPageBytes ≤ c.maxBufferedBytes ∧ c.maxBufferedBytes ≤ 2 ^ 40 :=
  h.sizes ⟨ascii "GRPC_VLM_MAX_BUFFERED_BYTES", (·.maxBufferedBytes), fun c => 16 * c.maxPageBytes,
    (·.maxPageBytes), kMaxBufferedBytes⟩ (by simp [sizeVars])

/-- The limits the pipeline runs under. -/
def Config.limits (c : Config) (h : c.Valid) : Pipeline.Config where
  concurrency := c.concurrency
  maxInflight := c.maxInflight
  maxPageBytes := c.maxPageBytes
  maxPages := c.maxPages
  maxStreamBufferedBytes := c.maxStreamBufferedBytes
  maxBufferedBytes := c.maxBufferedBytes
  concurrency_ok := h.concurrency.1
  maxInflight_ok := h.maxInflight
  maxPageBytes_ok := h.maxPageBytes
  maxPages_ok := h.maxPages
  maxStreamBufferedBytes_ok := h.maxStreamBufferedBytes
  maxBufferedBytes_ok := h.maxBufferedBytes

/-- What the service tells of the configuration. -/
def Config.serviceInfo (c : Config) : ServiceInfo :=
  getServiceInfo c.endpoint c.presets ⟨c.concurrency, c.maxPageBytes, c.maxPages⟩

/-- **The limits told are the limits kept**: the casts lose nothing of a
loaded configuration. -/
theorem serviceInfo_limits (h : c.Valid) :
    c.serviceInfo.concurrency = (c.limits h).concurrency ∧
      c.serviceInfo.maxPageBytes = (c.limits h).maxPageBytes ∧
      c.serviceInfo.maxPages = (c.limits h).maxPages := by
  have hconcurrency := h.concurrency
  have hpages := h.maxPages
  refine ⟨Nat.mod_eq_of_lt ?_, rfl, Nat.mod_eq_of_lt ?_⟩
  · exact Nat.lt_of_le_of_lt hconcurrency.2 (by decide)
  · exact Nat.lt_of_le_of_lt hpages.2 (by decide)

/-- What a stream's calls are made from. -/
def Config.policy (c : Config) : EndpointPolicy.Config :=
  ⟨c.endpoint, c.vlmApiKey, c.allowEndpointOverride, c.requestLogprobs, c.vlmTimeoutSeconds⟩

end Limits

/-! ## What a process says of itself -/

/-- The credentials, and the endpoint, whose path may hold one. -/
def kPrivate : List Bytes :=
  [ascii "GRPC_VLM_ENDPOINT", ascii "GRPC_VLM_API_KEY", ascii "GRPC_VLM_HTTP_TOKEN"]

/-- Environments that may differ in their credentials and in the rest of their
endpoint. -/
structure SameFace (env env' : Env) : Prop where
  others : ∀ name, name ∉ kPrivate → env' name = env name
  apiKey : (configuredSecret env' (ascii "GRPC_VLM_API_KEY")).isEmpty =
    (configuredSecret env (ascii "GRPC_VLM_API_KEY")).isEmpty
  token : (configuredSecret env' (ascii "GRPC_VLM_HTTP_TOKEN")).isEmpty =
    (configuredSecret env (ascii "GRPC_VLM_HTTP_TOKEN")).isEmpty
  unset : (configuredString env' (ascii "GRPC_VLM_ENDPOINT") []).isEmpty =
    (configuredString env (ascii "GRPC_VLM_ENDPOINT") []).isEmpty
  problem : endpointError (configuredString env' (ascii "GRPC_VLM_ENDPOINT") []) =
    endpointError (configuredString env (ascii "GRPC_VLM_ENDPOINT") [])
  origin : endpointOrigin (configuredString env' (ascii "GRPC_VLM_ENDPOINT") []) =
    endpointOrigin (configuredString env (ascii "GRPC_VLM_ENDPOINT") [])

/-- The configuration with another environment's secrets. -/
def Config.withSecrets (c : Config) (env : Env) : Config :=
  { c with
    endpoint := configuredString env (ascii "GRPC_VLM_ENDPOINT") []
    vlmApiKey := configuredSecret env (ascii "GRPC_VLM_API_KEY")
    httpToken := configuredSecret env (ascii "GRPC_VLM_HTTP_TOKEN") }

section Face
variable {env env' : Env}

theorem configuredSize_congr {name : Bytes} {fallback minimum maximum : Nat}
    (h : env' name = env name) :
    configuredSize env' name fallback minimum maximum =
      (configuredSize env name fallback minimum maximum).map id := by
  simp only [configuredSize, h, Except.map_id, id]

theorem configuredBool_congr {name : Bytes} {fallback : Bool} (h : env' name = env name) :
    configuredBool env' name fallback = (configuredBool env name fallback).map id := by
  simp only [configuredBool, h, Except.map_id, id]

theorem configuredString_congr {name fallback : Bytes} (h : env' name = env name) :
    configuredString env' name fallback = configuredString env name fallback := by
  simp only [configuredString, h]

theorem SameFace.configuredEndpoint (h : SameFace env env') :
    configuredEndpoint env' =
      (configuredEndpoint env).map fun _ =>
        configuredString env' (ascii "GRPC_VLM_ENDPOINT") [] := by
  simp only [Settings.configuredEndpoint, h.unset, h.problem]
  split <;> rfl

/-- A token is as good as another. -/
theorem authenticated_withSecrets {c : Config}
    (h : (configuredSecret env' (ascii "GRPC_VLM_HTTP_TOKEN")).isEmpty = c.httpToken.isEmpty) :
    authenticated (c.withSecrets env') = (authenticated c).map (·.withSecrets env') := by
  have hopen : openToAll (c.withSecrets env') = openToAll c := by
    simp only [openToAll, Config.withSecrets, h]
  unfold authenticated
  rw [hopen]
  split <;> rfl

/-- Loading reads the same but for the secrets. -/
theorem SameFace.load (h : SameFace env env') :
    loadConfigFromEnv env' = (loadConfigFromEnv env).map (·.withSecrets env') := by
  have hport : configuredHttpPort env' = (configuredHttpPort env).map id := by
    simp only [configuredHttpPort, configuredSize,
      h.others (ascii "GRPC_VLM_HTTP_PORT") (by decide), Except.map_id, id]
  unfold loadConfigFromEnv
  refine bind_map _ h.configuredEndpoint fun _ => ?_
  refine bind_map id (configuredBool_congr (h.others _ (by decide))) fun _ => ?_
  refine bind_map id (configuredBool_congr (h.others _ (by decide))) fun _ => ?_
  refine bind_map id (configuredSize_congr (h.others _ (by decide))) fun _ => ?_
  refine bind_map id (configuredSize_congr (h.others _ (by decide))) fun _ => ?_
  refine bind_map id (configuredSize_congr (h.others _ (by decide))) fun _ => ?_
  refine bind_map id (configuredSize_congr (h.others _ (by decide))) fun _ => ?_
  refine bind_map id (configuredSize_congr (h.others _ (by decide))) fun _ => ?_
  refine bind_map id (configuredSize_congr (h.others _ (by decide))) fun _ => ?_
  refine bind_map id (configuredSize_congr (h.others _ (by decide))) fun _ => ?_
  refine bind_map id (configuredSize_congr (h.others _ (by decide))) fun _ => ?_
  refine bind_map id (configuredSize_congr (h.others _ (by decide))) fun _ => ?_
  refine bind_map id hport fun _ => ?_
  refine bind_map id (configuredSize_congr (h.others _ (by decide))) fun _ => ?_
  have hhost := @configuredString_congr env env' _ (ascii "127.0.0.1")
    (h.others (ascii "GRPC_VLM_HTTP_HOST") (by decide))
  have hlisten := @configuredString_congr env env' _ (ascii "0.0.0.0:50058")
    (h.others (ascii "GRPC_VLM_LISTEN_ADDRESS") (by decide))
  have hpresets : configuredList env' (ascii "GRPC_VLM_PRESETS") =
    configuredList env (ascii "GRPC_VLM_PRESETS") := by
    rw [configuredList, h.others (ascii "GRPC_VLM_PRESETS") (by decide), configuredList]
  simp only [hhost, hlisten, hpresets, id]
  symm
  refine (authenticated_withSecrets ?_).symm
  exact h.token

/-- What is printed of a loaded endpoint. -/
theorem SameFace.banner (h : SameFace env env') {c : Config}
    (hload : loadConfigFromEnv env = .ok c) :
    startupBanner (c.withSecrets env') = startupBanner c := by
  obtain ⟨-, hendpoint, -, -, hkey, htoken, -⟩ := load_fields hload
  have hendpoint := (configuredEndpoint_ok hendpoint).1
  simp only [startupBanner, bannerEndpoint, Config.withSecrets, h.apiKey, h.token, h.unset,
    h.origin, hkey, htoken, hendpoint]
  rfl

/-- **Startup tells nothing of the secrets.** Environments that differ in their
credentials, as long as the same ones are set, and in their endpoint, as long as
it breaks the same rule or has the same origin, print the same line and
advertise the same service. -/
theorem startup_noninterference (h : SameFace env env') :
    startupLine env' = startupLine env ∧
      (loadConfigFromEnv env').map Config.serviceInfo =
        (loadConfigFromEnv env).map Config.serviceInfo := by
  unfold startupLine
  rw [h.load]
  cases hload : loadConfigFromEnv env with
  | error problem => exact ⟨rfl, rfl⟩
  | ok c =>
    refine ⟨h.banner hload, ?_⟩
    have hendpoint := (configuredEndpoint_ok (load_fields hload).2.1).1
    simp only [Except.map, Config.serviceInfo, Config.withSecrets, getServiceInfo, h.unset,
      h.origin, hendpoint]

end Face

/-- A front end beyond loopback. -/
def sampleEnv (endpoint token : Bytes) : Env := fun name =>
  if name = ascii "GRPC_VLM_ENDPOINT" then some endpoint
  else if name = ascii "GRPC_VLM_HTTP_TOKEN" then some token
  else if name = ascii "GRPC_VLM_HTTP_HOST" then some (ascii "0.0.0.0")
  else none

theorem sameFace_sample : SameFace (sampleEnv (ascii "http://vlm:8080/a?key=1") (ascii "one"))
    (sampleEnv (ascii "http://vlm:8080/b") (ascii "two")) := by
  refine ⟨fun name hname => ?_, by decide, by decide, by decide,
    by decide, by decide⟩
  simp only [kPrivate, List.mem_cons, List.not_mem_nil, or_false, not_or] at hname
  simp only [sampleEnv, if_neg hname.1, if_neg hname.2.2]

theorem startup_noninterference_sample :
    startupLine (sampleEnv (ascii "http://vlm:8080/b") (ascii "two")) =
      startupLine (sampleEnv (ascii "http://vlm:8080/a?key=1") (ascii "one")) :=
  (startup_noninterference sameFace_sample).1

/-- What it loads as. -/
def sampleConfig : Config :=
  { endpoint := ascii "http://vlm:8080", httpHost := ascii "0.0.0.0", httpToken := ascii "one" }

theorem sampleEnv_loads :
    loadConfigFromEnv (sampleEnv (ascii "http://vlm:8080") (ascii "one")) = .ok sampleConfig := by
  have h : (loadConfigFromEnv (sampleEnv (ascii "http://vlm:8080") (ascii "one"))).toOption =
    some sampleConfig := by
    decide
  cases hload : loadConfigFromEnv (sampleEnv (ascii "http://vlm:8080") (ascii "one")) with
  | error problem =>
    rw [hload] at h
    cases h
  | ok config =>
    rw [hload] at h
    exact congrArg Except.ok (Option.some.inj h)

theorem loadConfigFromEnv_sound_sample :
    ∃ c, loadConfigFromEnv (sampleEnv (ascii "http://vlm:8080") (ascii "one")) = .ok c ∧ c.Valid :=
  ⟨sampleConfig, sampleEnv_loads, ((loadConfigFromEnv_sound _).1 sampleConfig sampleEnv_loads).1⟩

end VlmConvert.L4.Settings
