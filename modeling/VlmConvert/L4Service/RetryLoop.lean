import VlmConvert.L4Service.VlmClient

/-!
# The retry loop and its watchdog

`generate` and the thread its `CallGuard` runs (`src/vlm_client.cpp:58-156`,
`322-485`), one atomic action at a time: the loads and stores of the two flags,
the probe, the clock, the mutex. The transport's answers, the clock and the
probe are free, and a wait on the condition variable may end at any time
(`notify_all` and `stop` only make it end sooner, or the transport fail).

`asked`, `posts` and `cleared` are not of the source: whether the probe ever
said yes, the posts so far, and whether the call had not tripped when its last
attempt was registered.

Results, over every interleaving (`lts`):
* `inv_reachable`: where the call stands against its posts, its last answer and
  the mutex.
* `retry_loop`: how often and when it posts, that trips stay and keep their
  cause, and what every result holds.
-/
namespace VlmConvert.L4.VlmClient.RetryLoop

open Bytes

/-! ## `tripped()` -/

structure Flags where
  tripped : Bool := false
  byCaller : Bool := false
  asked : Bool := false
  deriving DecidableEq, Repr

/-- The next action of a run of `tripped()`. -/
inductive Trip where
  | load | probe | clock | storeCaller | storeTripped | reload
  deriving DecidableEq, Repr

/-- One action: where the run goes on, or what it returns.
mirrors src/vlm_client.cpp:78-90 -/
def Flags.trip (hasProbe answer expired : Bool) (f : Flags) : Trip → Flags × (Trip ⊕ Bool)
  | .load => (f, if f.tripped then .inr true else .inl (if hasProbe then .probe else .clock))
  | .probe => if answer then ({ f with asked := true }, .inl .storeCaller) else (f, .inl .clock)
  | .clock => (f, .inl (if expired then .storeTripped else .reload))
  | .storeCaller => ({ f with byCaller := true }, .inl .storeTripped)
  | .storeTripped => ({ f with tripped := true }, .inl .reload)
  | .reload => (f, .inr f.tripped)

/-! ## The two threads -/

inductive Thread where
  | call | watchdog
  deriving DecidableEq, Repr

/-- Where the call is; `posting` may be inside the upload hook. -/
inductive CallAt where
  | start
  | threw
  | checking (t : Trip)
  | connecting
  | locking
  | registering (t : Trip)
  | register
  | post
  | posting (hook : Option Trip)
  | unregister
  | answered
  | answerTrip (t : Trip)
  | retry
  | sleepLock
  | sleeping (timedOut : Bool) (t : Trip)
  | waiting
  | sleepEnd (t : Trip)
  | leaving
  | ending (t : Trip)
  | blaming
  | closing (r : VlmResult)
  | joining (r : VlmResult)
  | returned (r : VlmResult)

inductive WatchdogAt where
  | idle
  | lock
  | loop
  | polling (t : Trip)
  | waiting
  | ended
  deriving DecidableEq, Repr

/-- The guard's fields, both threads, and the locals of the call. -/
structure Sys where
  flags : Flags := {}
  now : Nat := 0
  deadline : Nat := 0
  mutex : Option Thread := none
  client : Bool := false
  done : Bool := false
  call : CallAt := .start
  watchdog : WatchdogAt := .idle
  origin : Bytes := []
  response : Option Outcome := none
  retries : Nat := 0
  posts : Nat := 0
  cleared : Bool := false

/-- What one action of the call may see: the probe's answer, the attempt's
outcome (`none`: the upload hook runs first), and whether a wait timed out. -/
structure Input where
  probe : Bool
  outcome : Option Outcome
  timedOut : Bool

inductive Label where
  | tick (milliseconds : Nat)
  | call (input : Input)
  | watchdog (probe : Bool)

section Steps
variable (lib : Library) (backoffBase : Int) (call : VlmCall)

/-- A run of `tripped()` inside another action. -/
def Sys.poll (s : Sys) (answer : Bool) (t : Trip) (next : Sys → Trip → Sys)
    (back : Sys → Bool → Sys) : Sys :=
  let (flags, out) := s.flags.trip call.hasProbe answer (decide (s.now ≥ s.deadline)) t
  match out with
  | .inl t => next { s with flags := flags } t
  | .inr b => back { s with flags := flags } b

/-- Takes the mutex, or is blocked. -/
def Sys.lock (s : Sys) (me : Thread) (next : Sys → Sys) : Option Sys :=
  if s.mutex.isNone then some (next { s with mutex := some me }) else none

/-- The result where no answer of status 200 came.
mirrors src/vlm_client.cpp:459-472 -/
def failureResult (origin : Bytes) (response : Option Outcome) (retries : Nat) : VlmResult :=
  match response with
  | some (.answer status _) =>
    { error := ascii "endpoint returned HTTP " ++ decimal status ++ attemptsText retries }
  | _ => { error := ascii "endpoint unreachable: " ++ origin }

/-- mirrors src/vlm_client.cpp:445-458 -/
def blame (byCaller : Bool) (retries : Nat) : VlmResult :=
  if byCaller then { cancelled := true, error := ascii "VLM call cancelled" }
  else
    { error := ascii "VLM call exceeded its " ++ decimalInt call.timeoutSeconds ++
      ascii " s budget" ++ attemptsText retries }

/-- One action of the call.
mirrors src/vlm_client.cpp:322-485 (`generate`), 101-116 (`watch`, `sleep_for`), 64-71
(`~CallGuard`) -/
def callStep (input : Input) (s : Sys) : Option Sys :=
  match s.call with
  | .start =>
    match Endpoint.parseEndpoint call.endpoint with
    | .error problem => some { s with call := .returned { error := problem } }
    | .ok parsed =>
      if call.hasProbe && input.probe then
        some { s with
          flags := { s.flags with asked := true }
          call := .returned
            { cancelled := true, error := ascii "VLM call cancelled before it started" } }
      else
        match lib.dump (requestBody call) with
        | none => some { s with call := .threw }
        | some _ => some { s with
            deadline := s.now + (max call.timeoutSeconds 0).toNat * 1000
            origin := parsed.origin
            watchdog := .lock
            call := .checking .load }
  | .checking t => some (s.poll call input.probe t (fun s t => { s with call := .checking t })
      fun s tripped => { s with call := if tripped then .leaving else .connecting })
  | .connecting =>
    if lib.isValid s.origin then some { s with call := .locking }
    else some { s with call := .closing { error := ascii "endpoint is not usable: " ++ s.origin } }
  | .locking => s.lock .call fun s => { s with call := .registering .load }
  | .registering t => some (s.poll call input.probe t (fun s t => { s with call := .registering t })
      fun s tripped =>
        if tripped then { s with client := false, mutex := none, call := .leaving }
        else { s with call := .register })
  | .register =>
      some { s with client := true, mutex := none, cleared := !s.flags.tripped, call := .post }
  | .post => some { s with posts := s.posts + 1, call := .posting none }
  | .posting none =>
    match input.outcome with
    | none => some { s with call := .posting (some .load) }
    | some outcome => some { s with response := some outcome, call := .unregister }
  | .posting (some t) =>
      some (s.poll call input.probe t (fun s t => { s with call := .posting (some t) })
      fun s _ => { s with call := .posting none })
  | .unregister =>
      s.lock .call fun s => { s with client := false, mutex := none, call := .answered }
  | .answered => some { s with
      call := if s.response.any Outcome.isOk then .leaving else .answerTrip .load }
  | .answerTrip t => some (s.poll call input.probe t (fun s t => { s with call := .answerTrip t })
      fun s tripped => { s with call := if tripped then .leaving else .retry })
  | .retry =>
    if !s.response.any Outcome.retryable || s.retries == kMaxRetries then
      some { s with call := .leaving }
    else some { s with
      retries := s.retries + 1
      call := if backoffBase * 2 ^ s.retries > 0 then .sleepLock else .checking .load }
  | .sleepLock => s.lock .call fun s => { s with call := .sleeping false .load }
  | .sleeping timedOut t =>
      some (s.poll call input.probe t (fun s t => { s with call := .sleeping timedOut t })
      fun s tripped =>
        if tripped || timedOut then { s with call := .sleepEnd .load }
        else { s with mutex := none, call := .waiting })
  | .waiting => s.lock .call fun s => { s with call := .sleeping input.timedOut .load }
  | .sleepEnd t => some (s.poll call input.probe t (fun s t => { s with call := .sleepEnd t })
      fun s tripped =>
        { s with mutex := none, call := if tripped then .leaving else .checking .load })
  | .leaving =>
    match s.response with
    | some (.answer 200 body) => some { s with call := .closing (readAnswer lib body) }
    | _ => some { s with call := .ending .load }
  | .ending t => some (s.poll call input.probe t (fun s t => { s with call := .ending t })
      fun s tripped =>
        if tripped then { s with call := .blaming }
        else { s with call := .closing (failureResult s.origin s.response s.retries) })
  | .blaming => some { s with call := .closing (blame call s.flags.byCaller s.retries) }
  | .closing r => s.lock .call fun s => { s with mutex := none, done := true, call := .joining r }
  | .joining r => if s.watchdog = .ended then some { s with call := .returned r } else none
  | .threw | .returned _ => none

/-- One action of the watchdog.
mirrors src/vlm_client.cpp:119-143 -/
def watchdogStep (probe : Bool) (s : Sys) : Option Sys :=
  match s.watchdog with
  | .lock | .waiting => s.lock .watchdog fun s => { s with watchdog := .loop }
  | .loop =>
    if s.done then some { s with mutex := none, watchdog := .ended }
    else some { s with watchdog := .polling .load }
  | .polling t => some (s.poll call probe t (fun s t => { s with watchdog := .polling t })
      fun s _ => { s with mutex := none, watchdog := .waiting })
  | .idle | .ended => none

def step (s : Sys) : Label → Option Sys
  | .tick milliseconds => some { s with now := s.now + milliseconds }
  | .call input => callStep lib backoffBase call input s
  | .watchdog probe => watchdogStep call probe s

def lts : LTS Sys Label := .ofFn (fun s => ∃ now, s = { now := now }) (step lib backoffBase call)

end Steps

/-! ## What one action of `tripped()` does -/

section Trip
variable {hasProbe answer expired : Bool} {f : Flags} {t : Trip}

/-- Flags are only ever set. -/
structure Flags.Le (f f' : Flags) : Prop where
  tripped : f.tripped = true → f'.tripped = true
  byCaller : f.byCaller = true → f'.byCaller = true
  asked : f.asked = true → f'.asked = true

theorem Flags.Le.refl (f : Flags) : f.Le f := ⟨id, id, id⟩

theorem trip_le : f.Le (f.trip hasProbe answer expired t).1 := by
  cases t with
  | load => exact .refl f
  | probe =>
    simp only [Flags.trip]
    split
    · exact ⟨id, id, fun _ => rfl⟩
    · exact .refl f
  | clock => exact .refl f
  | storeCaller => exact ⟨id, fun _ => rfl, id⟩
  | storeTripped => exact ⟨fun _ => rfl, id, id⟩
  | reload => exact .refl f

/-- The caller is named only after the probe said yes. -/
def Flags.Honest (f : Flags) (t : Option Trip) : Prop :=
  f.byCaller = true ∨ t = some .storeCaller → f.asked = true

theorem Flags.Honest.mono {f' : Flags} {t t' : Option Trip} (h : f.Honest t) (hle : f.Le f')
    (h' : f'.Honest t') : f'.Honest t := by
  rintro (hf | ht)
  · exact h' (.inl hf)
  · exact hle.asked (h (.inr ht))

theorem trip_honest (h : f.Honest (some t)) : (f.trip hasProbe answer expired t).1.Honest
    (f.trip hasProbe answer expired t).2.getLeft? := by
  have hf : f.byCaller = true → f.asked = true := fun hf => h (.inl hf)
  cases t with
  | load =>
    simp only [Flags.trip]
    split
    · simpa [Flags.Honest] using hf
    · split <;> simpa [Flags.Honest] using hf
  | probe =>
    simp only [Flags.trip]
    split
    · simp [Flags.Honest]
    · simpa [Flags.Honest] using hf
  | clock =>
    simp only [Flags.trip]
    split <;> simpa [Flags.Honest] using hf
  | storeCaller =>
    have hasked : f.asked = true := h (.inr rfl)
    simp [Flags.trip, Flags.Honest, hasked]
  | storeTripped => simpa [Flags.trip, Flags.Honest] using hf
  | reload => simpa [Flags.trip, Flags.Honest] using hf

/-- The run says no only if the flag is not set. -/
theorem trip_no (h : (f.trip hasProbe answer expired t).2 = .inr false) :
    (f.trip hasProbe answer expired t).1.tripped = false := by
  cases t with
  | load =>
    simp only [Flags.trip] at h
    split at h <;> cases h
  | probe =>
    simp only [Flags.trip] at h
    split at h <;> cases h
  | clock => cases h
  | storeCaller => cases h
  | storeTripped => cases h
  | reload => simpa [Flags.trip] using h

end Trip

/-! ## Where the threads stand -/

/-- The run of `tripped()` the call is in. -/
def CallAt.trip : CallAt → Option Trip
  | .checking t | .registering t | .posting (some t) | .answerTrip t | .sleeping _ t | .sleepEnd t
  | .ending t => some t
  | _ => none

def CallAt.holds : CallAt → Bool
  | .registering _ | .register | .sleeping _ _ | .sleepEnd _ => true
  | _ => false

def WatchdogAt.trip : WatchdogAt → Option Trip
  | .polling t => some t
  | _ => none

def WatchdogAt.holds : WatchdogAt → Bool
  | .loop | .polling _ => true
  | _ => false

/-- The result of a call that has one. -/
def CallAt.result : CallAt → Option VlmResult
  | .closing r | .joining r | .returned r => some r
  | _ => none

def Sys.result (s : Sys) : Option VlmResult := s.call.result

/-- What every result holds. -/
structure GoodResult (lib : Library) (asked : Bool) (response : Option Outcome) (r : VlmResult) :
    Prop where
  notBoth : ¬(r.ok = true ∧ r.cancelled = true)
  asked : r.cancelled = true → asked = true
  error : r.ok = false → r.error ≠ []
  answer : ∀ body, response = some (.answer 200 body) → r = readAnswer lib body

/-- The attempts so far were failures that may pass. -/
def Retried (retries : Nat) (response : Option Outcome) : Prop :=
  (retries = 0 → response = none) ∧
    (0 < retries → ∃ outcome, response = some outcome ∧ outcome.retryable = true)

/-- The posts against the place in the loop. -/
def Counted (lib : Library) (s : Sys) : Prop :=
  match s.call with
  | .start => s.posts = 0 ∧ s.retries = 0 ∧ s.response = none ∧ s.watchdog = .idle
  | .threw => s.posts = 0
  | .checking _ | .connecting | .locking | .registering _ | .register | .sleepLock | .sleeping _ _
  | .waiting | .sleepEnd _ => s.posts = s.retries ∧ Retried s.retries s.response
  | .post => s.posts = s.retries ∧ Retried s.retries s.response ∧ s.cleared = true
  | .posting _ => s.posts = s.retries + 1 ∧ Retried s.retries s.response
  | .unregister | .answered => s.posts = s.retries + 1 ∧ s.response.isSome = true
  | .answerTrip _ | .retry => s.posts = s.retries + 1 ∧ s.response.isSome = true ∧
      s.response.any Outcome.isOk = false
  | .leaving => s.posts ≤ s.retries + 1
  | .ending _ | .blaming => s.posts ≤ s.retries + 1 ∧ s.response.any Outcome.isOk = false
  | .closing r | .joining r | .returned r => s.posts ≤ s.retries + 1 ∧
      GoodResult lib s.flags.asked s.response r

structure Inv (lib : Library) (s : Sys) : Prop where
  few : s.retries ≤ kMaxRetries
  counted : Counted lib s
  callHolds : s.call.holds = true → s.mutex = some .call
  watchdogHolds : s.watchdog.holds = true → s.mutex = some .watchdog
  register : s.call = .register → s.flags.tripped = false
  callHonest : s.flags.Honest s.call.trip
  watchdogHonest : s.flags.Honest s.watchdog.trip

section Invariant
variable {lib : Library} {backoffBase : Int} {call : VlmCall} {s s' : Sys}

/-- A step of the call: what is left to show of the invariant. -/
theorem Inv.byCall (h : Inv lib s) (hle : s.flags.Le s'.flags)
    (hhonest : s'.flags.Honest s'.call.trip)
    (hwatchdog : s'.watchdog.holds = true → s'.mutex = some .watchdog)
    (htrip : s'.watchdog.trip = s.watchdog.trip) (hfew : s'.retries ≤ kMaxRetries)
    (hcounted : Counted lib s') (hholds : s'.call.holds = true → s'.mutex = some .call)
    (hregister : s'.call = .register → s'.flags.tripped = false) : Inv lib s' where
  few := hfew
  counted := hcounted
  callHolds := hholds
  watchdogHolds := hwatchdog
  register := hregister
  callHonest := hhonest
  watchdogHonest := by
    rw [htrip]
    exact h.watchdogHonest.mono hle hhonest

/-- A step of the call after which it does not hold the mutex. -/
theorem Inv.byCallOutside (h : Inv lib s) (hle : s.flags.Le s'.flags)
    (hhonest : s'.flags.Honest s'.call.trip)
    (hwatchdog : s'.watchdog.holds = true → s'.mutex = some .watchdog)
    (htrip : s'.watchdog.trip = s.watchdog.trip) (hfew : s'.retries ≤ kMaxRetries)
    (hcounted : Counted lib s') (hout : s'.call.holds = false) : Inv lib s' := by
  refine h.byCall hle hhonest hwatchdog htrip hfew hcounted (fun hholds => ?_) (fun hregister => ?_)
  · rw [hout] at hholds
    cases hholds
  · rw [hregister] at hout
    cases hout

/-- A step of the call after which it holds the mutex. -/
theorem Inv.byCallInside (h : Inv lib s) (hle : s.flags.Le s'.flags)
    (hhonest : s'.flags.Honest s'.call.trip)
    (hwatchdog : s'.watchdog.holds = true → s'.mutex = some .watchdog)
    (htrip : s'.watchdog.trip = s.watchdog.trip) (hfew : s'.retries ≤ kMaxRetries)
    (hcounted : Counted lib s') (hmutex : s'.mutex = some .call) (hother : s'.call ≠ .register) :
    Inv lib s' :=
  h.byCall hle hhonest hwatchdog htrip hfew hcounted (fun _ => hmutex) fun hregister =>
    absurd hregister hother

/-- A run of `tripped()` in the call goes on or returns. -/
theorem Inv.polled (h : Inv lib s) {answer : Bool} {t : Trip} (ht : s.call.trip = some t)
    {next : Sys → Trip → Sys} {back : Sys → Bool → Sys}
    (hnext : ∀ flags t', s.flags.Le flags → flags.Honest (some t') →
      Inv lib (next { s with flags := flags } t'))
    (hback : ∀ flags tripped, s.flags.Le flags → flags.Honest none →
    (tripped = false → flags.tripped = false) →
      Inv lib (back { s with flags := flags } tripped)) :
    Inv lib (s.poll call answer t next back) := by
  have hhonest := h.callHonest
  rw [ht] at hhonest
  have hle := @trip_le call.hasProbe answer (decide (s.now ≥ s.deadline)) s.flags t
  have hafter := @trip_honest call.hasProbe answer (decide (s.now ≥ s.deadline)) _ _ hhonest
  have hno := @trip_no call.hasProbe answer (decide (s.now ≥ s.deadline)) s.flags t
  unfold Sys.poll
  generalize s.flags.trip call.hasProbe answer (decide (s.now ≥ s.deadline)) t = r at *
  obtain ⟨flags, out⟩ := r
  cases out with
  | inl t' => exact hnext flags t' hle hafter
  | inr tripped => exact hback flags tripped hle hafter fun e => hno (by rw [e])

theorem lock_cases {me : Thread} {next : Sys → Sys} (h : s.lock me next = some s') :
    s.mutex = none ∧ s' = next { s with mutex := some me } := by
  unfold Sys.lock at h
  split at h
  · rename_i hnone
    exact ⟨Option.isNone_iff_eq_none.1 hnone, (Option.some.inj h).symm⟩
  · cases h

/-- While the call holds the mutex the watchdog does not run. -/
theorem Inv.apart (h : Inv lib s) (hcall : s.call.holds = true) {P : Prop}
    (hholds : s.watchdog.holds = true) : P := by
  have hmutex := h.watchdogHolds hholds
  rw [h.callHolds hcall] at hmutex
  cases hmutex

theorem Inv.unlocked (h : Inv lib s) (hmutex : s.mutex = none) {P : Prop}
    (hholds : s.watchdog.holds = true) : P := by
  have := h.watchdogHolds hholds
  rw [hmutex] at this
  cases this

theorem goodResult_failure {asked : Bool} {response : Option Outcome} {r : VlmResult}
    (hok : response.any Outcome.isOk = false) (hr : r.ok = false)
    (hcancel : r.cancelled = true → asked = true)
    (herror : r.error ≠ []) : GoodResult lib asked response r where
  notBoth := by
    rw [hr]
    simp
  asked := hcancel
  error := fun _ => herror
  answer := by
    rintro body rfl
    cases hok

theorem retryable_notOk {outcome : Outcome} (h : outcome.retryable = true) :
    outcome.isOk = false := by
  cases outcome with
  | failure error => rfl
  | answer status body =>
    simp only [Outcome.retryable, retryableStatus, Bool.or_eq_true, beq_iff_eq] at h
    simp only [Outcome.isOk, beq_eq_false_iff_ne]
    omega

theorem Retried.notOk {retries : Nat} {response : Option Outcome} (h : Retried retries response) :
    response.any Outcome.isOk = false := by
  rcases Nat.eq_zero_or_pos retries with hzero | hpos
  · rw [h.1 hzero]
    rfl
  · obtain ⟨outcome, houtcome, hretryable⟩ := h.2 hpos
    rw [houtcome]
    exact retryable_notOk hretryable

/-- Every refusal of an endpoint begins with its name. -/
theorem rule_head (rule : Endpoint.Rule) : rule.text.head? = some 0x65 := by
  cases rule <;> decide

theorem goodResult_answer {asked : Bool} {body : Bytes} :
    GoodResult lib asked (some (.answer 200 body)) (readAnswer lib body) := by
  have hanswer : ∀ body', some (Outcome.answer 200 body) = some (.answer 200 body') →
      readAnswer lib body = readAnswer lib body' := by
    intro body' h
    cases h
    rfl
  obtain ⟨hnever, herror⟩ : (readAnswer lib body).cancelled = false ∧
      ((readAnswer lib body).ok = false → (readAnswer lib body).error ≠ []) := by
    unfold readAnswer
    split
    · exact ⟨rfl, fun _ => by decide⟩
    · split
      · exact ⟨rfl, fun _ => by decide⟩
      · split
        · exact ⟨rfl, fun _ => by decide⟩
        · exact ⟨rfl, nofun⟩
  exact ⟨by rw [hnever]; simp, by rw [hnever]; nofun, herror, hanswer⟩

theorem failureResult_good {asked : Bool} {origin : Bytes} {response : Option Outcome}
    {retries : Nat}
    (hok : response.any Outcome.isOk = false) :
    GoodResult lib asked response (failureResult origin response retries) := by
  unfold failureResult
  split
  · exact goodResult_failure hok rfl (by simp) (by simp [ascii])
  · exact goodResult_failure hok rfl (by simp) (by simp [ascii])

theorem blame_good {asked byCaller : Bool} {response : Option Outcome} {retries : Nat}
    (hok : response.any Outcome.isOk = false) (hasked : byCaller = true → asked = true) :
    GoodResult lib asked response (blame call byCaller retries) := by
  cases byCaller with
  | true => exact goodResult_failure hok rfl (fun _ => hasked rfl) (by simp [blame, ascii])
  | false => exact goodResult_failure hok rfl (by simp [blame]) (by simp [blame, ascii])

/-- What leaves the loop without a 200 is no answer. -/
theorem notOk_of_ne {response : Option Outcome} (h : ∀ body, response ≠ some (.answer 200 body)) :
    response.any Outcome.isOk = false := by
  cases response with
  | none => rfl
  | some outcome =>
    cases outcome with
    | failure error => rfl
    | answer status body =>
      have hstatus : status ≠ 200 := by
        rintro rfl
        exact h body rfl
      simpa [Outcome.isOk] using hstatus

theorem inv_start {now : Nat} : Inv lib { now := now } where
  few := Nat.zero_le _
  counted := ⟨rfl, rfl, rfl, rfl⟩
  callHolds := nofun
  watchdogHolds := nofun
  register := nofun
  callHonest := by simp [Flags.Honest, CallAt.trip]
  watchdogHonest := by simp [Flags.Honest, WatchdogAt.trip]

theorem Flags.Honest.other {f : Flags} {t t' : Option Trip} (h : f.Honest t)
    (ht : t' ≠ some .storeCaller) :
    f.Honest t' := by
  rintro (hf | ht')
  · exact h (.inl hf)
  · exact absurd ht' ht

/-- **One action of the call** keeps the invariant. -/
theorem inv_call {input : Input} (h : Inv lib s)
    (hs : callStep lib backoffBase call input s = some s') :
    Inv lib s' := by
  have hcounted := h.counted
  have hnone : s.flags.Honest none := h.callHonest.other (by simp)
  have hload : s.flags.Honest (some .load) := h.callHonest.other (by simp)
  have hsame := Flags.Le.refl s.flags
  unfold callStep at hs
  cases hc : s.call with
  | start =>
    simp only [Counted, hc] at hcounted
    obtain ⟨hposts, hretries, hresponse, hidle⟩ := hcounted
    have hnotOk : s.response.any Outcome.isOk = false := by
      rw [hresponse]
      rfl
    have hfew : s.posts ≤ s.retries + 1 := by omega
    simp only [hc] at hs
    split at hs
    · rename_i problem hparse
      cases hs
      obtain ⟨rule, -, rfl⟩ := (Endpoint.parseEndpoint_refused _ problem).1 hparse
      refine h.byCallOutside hsame hnone h.watchdogHolds rfl h.few ⟨hfew, ?_⟩ rfl
      refine goodResult_failure hnotOk rfl (by simp) fun (hnil : rule.text = []) => ?_
      have hhead := rule_head rule
      rw [hnil] at hhead
      cases hhead
    · split at hs
      · cases hs
        refine h.byCallOutside ⟨id, id, fun _ => rfl⟩ (fun _ => rfl) h.watchdogHolds rfl h.few
          ⟨hfew, ?_⟩ rfl
        exact goodResult_failure hnotOk rfl (fun _ => rfl) (by decide)
      · split at hs
        · cases hs
          exact h.byCallOutside hsame hnone h.watchdogHolds rfl h.few hposts rfl
        · cases hs
          refine h.byCallOutside hsame hload (by simp [WatchdogAt.holds]) (by rw [hidle]; rfl) h.few
            ⟨hposts.trans hretries.symm, ?_⟩ rfl
          exact ⟨fun _ => hresponse, fun hpos => absurd hretries (Nat.ne_of_gt hpos)⟩
  | threw =>
    simp only [hc] at hs
    cases hs
  | checking t =>
    simp only [hc] at hs
    cases hs
    simp only [Counted, hc] at hcounted
    refine h.polled (by rw [hc]; rfl) (fun flags t' hle hhonest => ?_)
      (fun flags tripped hle hhonest _ => ?_)
    · exact h.byCallOutside hle hhonest h.watchdogHolds rfl h.few hcounted rfl
    · cases tripped with
      | false => exact h.byCallOutside hle hhonest h.watchdogHolds rfl h.few hcounted rfl
      | true =>
        exact h.byCallOutside hle hhonest h.watchdogHolds rfl h.few
          (Nat.le_succ_of_le hcounted.1.le) rfl
  | connecting =>
    simp only [Counted, hc] at hcounted
    simp only [hc] at hs
    split at hs
    · cases hs
      exact h.byCallOutside hsame hnone h.watchdogHolds rfl h.few hcounted rfl
    · cases hs
      refine h.byCallOutside hsame hnone h.watchdogHolds rfl h.few
        ⟨Nat.le_succ_of_le hcounted.1.le, ?_⟩ rfl
      exact goodResult_failure hcounted.2.notOk rfl (by simp) (by simp [ascii])
  | locking =>
    simp only [Counted, hc] at hcounted
    simp only [hc] at hs
    obtain ⟨hmutex, rfl⟩ := lock_cases hs
    exact h.byCallInside hsame hload (h.unlocked hmutex) rfl h.few hcounted rfl (by simp)
  | registering t =>
    simp only [hc] at hs
    cases hs
    simp only [Counted, hc] at hcounted
    have hholds : s.call.holds = true := by rw [hc]; rfl
    have hmutex := h.callHolds hholds
    refine h.polled (by rw [hc]; rfl) (fun flags t' hle hhonest => ?_)
      (fun flags tripped hle hhonest hno => ?_)
    · exact h.byCallInside hle hhonest h.watchdogHolds rfl h.few hcounted hmutex (by simp)
    · cases tripped with
      | false =>
        exact h.byCall hle hhonest h.watchdogHolds rfl h.few hcounted (fun _ => hmutex)
          fun _ => hno rfl
      | true =>
        exact h.byCallOutside hle hhonest (h.apart hholds) rfl h.few
          (Nat.le_succ_of_le hcounted.1.le) rfl
  | register =>
    simp only [hc] at hs
    cases hs
    simp only [Counted, hc] at hcounted
    have hholds : s.call.holds = true := by rw [hc]; rfl
    have htripped := h.register hc
    refine h.byCallOutside hsame hnone (h.apart hholds) rfl h.few
      ⟨hcounted.1, hcounted.2, ?_⟩ rfl
    simp only [htripped]
    rfl
  | post =>
    simp only [hc] at hs
    cases hs
    simp only [Counted, hc] at hcounted
    refine h.byCallOutside hsame hnone h.watchdogHolds rfl h.few ⟨?_, hcounted.2.1⟩ rfl
    exact congrArg (· + 1) hcounted.1
  | posting hook =>
    simp only [Counted, hc] at hcounted
    cases hook with
    | none =>
      simp only [hc] at hs
      split at hs
      · cases hs
        exact h.byCallOutside hsame hload h.watchdogHolds rfl h.few hcounted rfl
      · cases hs
        exact h.byCallOutside hsame hnone h.watchdogHolds rfl h.few ⟨hcounted.1, rfl⟩ rfl
    | some t =>
      simp only [hc] at hs
      cases hs
      refine h.polled (by rw [hc]; rfl) (fun flags t' hle hhonest => ?_)
        (fun flags tripped hle hhonest _ => ?_)
      · exact h.byCallOutside hle hhonest h.watchdogHolds rfl h.few hcounted rfl
      · exact h.byCallOutside hle hhonest h.watchdogHolds rfl h.few hcounted rfl
  | unregister =>
    simp only [Counted, hc] at hcounted
    simp only [hc] at hs
    obtain ⟨hmutex, rfl⟩ := lock_cases hs
    exact h.byCallOutside hsame hnone (h.unlocked hmutex) rfl h.few hcounted rfl
  | answered =>
    simp only [hc] at hs
    cases hs
    simp only [Counted, hc] at hcounted
    cases hok : s.response.any Outcome.isOk with
    | true => exact h.byCallOutside hsame hnone h.watchdogHolds rfl h.few hcounted.1.le rfl
    | false =>
      exact h.byCallOutside hsame hload h.watchdogHolds rfl h.few ⟨hcounted.1, hcounted.2, hok⟩ rfl
  | answerTrip t =>
    simp only [hc] at hs
    cases hs
    simp only [Counted, hc] at hcounted
    refine h.polled (by rw [hc]; rfl) (fun flags t' hle hhonest => ?_)
      (fun flags tripped hle hhonest _ => ?_)
    · exact h.byCallOutside hle hhonest h.watchdogHolds rfl h.few hcounted rfl
    · cases tripped with
      | false => exact h.byCallOutside hle hhonest h.watchdogHolds rfl h.few hcounted rfl
      | true => exact h.byCallOutside hle hhonest h.watchdogHolds rfl h.few hcounted.1.le rfl
  | retry =>
    simp only [Counted, hc] at hcounted
    obtain ⟨hposts, hsome, -⟩ := hcounted
    simp only [hc] at hs
    split at hs
    · cases hs
      exact h.byCallOutside hsame hnone h.watchdogHolds rfl h.few hposts.le rfl
    · rename_i hagain
      rw [Bool.or_eq_true, not_or, Bool.not_eq_true', Bool.not_eq_false, beq_iff_eq] at hagain
      obtain ⟨outcome, houtcome⟩ := Option.isSome_iff_exists.1 hsome
      have hretried : Retried (s.retries + 1) s.response := by
        refine ⟨fun hnone => absurd hnone (Nat.succ_ne_zero _), fun _ => ⟨outcome, houtcome, ?_⟩⟩
        have hretryable := hagain.1
        rw [houtcome] at hretryable
        exact hretryable
      have hfew : s.retries + 1 ≤ kMaxRetries := by
        have := h.few
        omega
      cases hs
      split
      · exact h.byCallOutside hsame hnone h.watchdogHolds rfl hfew ⟨hposts, hretried⟩ rfl
      · exact h.byCallOutside hsame hload h.watchdogHolds rfl hfew ⟨hposts, hretried⟩ rfl
  | sleepLock =>
    simp only [Counted, hc] at hcounted
    simp only [hc] at hs
    obtain ⟨hmutex, rfl⟩ := lock_cases hs
    exact h.byCallInside hsame hload (h.unlocked hmutex) rfl h.few hcounted rfl (by simp)
  | sleeping timedOut t =>
    simp only [hc] at hs
    cases hs
    simp only [Counted, hc] at hcounted
    have hholds : s.call.holds = true := by rw [hc]; rfl
    have hmutex := h.callHolds hholds
    refine h.polled (by rw [hc]; rfl) (fun flags t' hle hhonest => ?_)
      (fun flags tripped hle hhonest _ => ?_)
    · exact h.byCallInside hle hhonest h.watchdogHolds rfl h.few hcounted hmutex (by simp)
    · cases hend : tripped || timedOut with
      | true =>
        simp only [if_true]
        exact h.byCallInside hle
          (hhonest.other (by simp [CallAt.trip])) h.watchdogHolds rfl h.few hcounted hmutex
          (by simp)
      | false =>
        simp only [Bool.false_eq_true, if_false]
        exact h.byCallOutside hle hhonest (h.apart hholds) rfl h.few hcounted rfl
  | waiting =>
    simp only [Counted, hc] at hcounted
    simp only [hc] at hs
    obtain ⟨hmutex, rfl⟩ := lock_cases hs
    exact h.byCallInside hsame hload (h.unlocked hmutex) rfl h.few hcounted rfl (by simp)
  | sleepEnd t =>
    simp only [hc] at hs
    cases hs
    simp only [Counted, hc] at hcounted
    have hholds : s.call.holds = true := by rw [hc]; rfl
    refine h.polled (by rw [hc]; rfl) (fun flags t' hle hhonest => ?_)
      (fun flags tripped hle hhonest _ => ?_)
    · exact h.byCallInside hle hhonest h.watchdogHolds rfl h.few hcounted (h.callHolds hholds)
        (by simp)
    · cases tripped with
      | false =>
        exact h.byCallOutside hle (hhonest.other (by simp [CallAt.trip])) (h.apart hholds) rfl
          h.few hcounted rfl
      | true =>
        exact h.byCallOutside hle hhonest (h.apart hholds) rfl h.few
          (Nat.le_succ_of_le hcounted.1.le) rfl
  | leaving =>
    simp only [Counted, hc] at hcounted
    simp only [hc] at hs
    split at hs
    · rename_i body hresponse
      cases hs
      refine h.byCallOutside hsame hnone h.watchdogHolds rfl h.few ⟨hcounted, ?_⟩ rfl
      rw [hresponse]
      exact goodResult_answer
    · rename_i hnot
      cases hs
      exact h.byCallOutside hsame hload h.watchdogHolds rfl h.few ⟨hcounted, notOk_of_ne hnot⟩ rfl
  | ending t =>
    simp only [hc] at hs
    cases hs
    simp only [Counted, hc] at hcounted
    refine h.polled (by rw [hc]; rfl) (fun flags t' hle hhonest => ?_)
      (fun flags tripped hle hhonest _ => ?_)
    · exact h.byCallOutside hle hhonest h.watchdogHolds rfl h.few hcounted rfl
    · cases tripped with
      | false =>
        exact h.byCallOutside hle hhonest h.watchdogHolds rfl h.few ⟨hcounted.1,
          failureResult_good hcounted.2⟩ rfl
      | true => exact h.byCallOutside hle hhonest h.watchdogHolds rfl h.few hcounted rfl
  | blaming =>
    simp only [hc] at hs
    cases hs
    simp only [Counted, hc] at hcounted
    exact h.byCallOutside hsame hnone h.watchdogHolds rfl h.few
      ⟨hcounted.1, blame_good hcounted.2 fun hf => hnone (.inl hf)⟩ rfl
  | closing r =>
    simp only [Counted, hc] at hcounted
    simp only [hc] at hs
    obtain ⟨hmutex, rfl⟩ := lock_cases hs
    exact h.byCallOutside hsame hnone (h.unlocked hmutex) rfl h.few hcounted rfl
  | joining r =>
    simp only [Counted, hc] at hcounted
    simp only [hc] at hs
    split at hs
    · cases hs
      exact h.byCallOutside hsame hnone h.watchdogHolds rfl h.few hcounted rfl
    · cases hs
  | returned r =>
    simp only [hc] at hs
    cases hs

/-- The place of the call and its locals do not depend on the flags, but for
the probe that a result may need. -/
theorem Counted.of_watchdog {flags : Flags} {mutex : Option Thread} {watchdog : WatchdogAt}
    (h : Counted lib s)
    (hle : s.flags.Le flags) (hidle : s.watchdog ≠ .idle) :
    Counted lib { s with flags := flags, mutex := mutex, watchdog := watchdog } := by
  have hgood : ∀ {r}, GoodResult lib s.flags.asked s.response r →
    GoodResult lib flags.asked s.response r :=
    fun hr => ⟨hr.notBoth, fun hc => hle.asked (hr.asked hc), hr.error, hr.answer⟩
  unfold Counted at h ⊢
  cases hc : s.call <;> simp only [hc] at h ⊢ <;>
    first
      | exact h
      | exact absurd h.2.2.2 hidle
      | exact ⟨h.1, hgood h.2⟩

/-- A step of the watchdog: what is left to show of the invariant. -/
theorem Inv.byWatchdog (h : Inv lib s) (hidle : s.watchdog ≠ .idle) {flags : Flags}
    {mutex : Option Thread}
    {watchdog : WatchdogAt} (hle : s.flags.Le flags) (hhonest : flags.Honest watchdog.trip)
    (hcall : s.call.holds = false) (hholds : watchdog.holds = true → mutex = some .watchdog) :
    Inv lib { s with flags := flags, mutex := mutex, watchdog := watchdog } where
  few := h.few
  counted := h.counted.of_watchdog hle hidle
  callHolds := fun hc => (Bool.false_ne_true (hcall.symm.trans hc)).elim
  watchdogHolds := hholds
  register := by
    intro hc
    rw [show s.call = .register from hc] at hcall
    cases hcall
  callHonest := h.callHonest.mono hle hhonest
  watchdogHonest := hhonest

/-- **One action of the watchdog** keeps the invariant. -/
theorem inv_watchdog {probe : Bool} (h : Inv lib s) (hs : watchdogStep call probe s = some s') :
    Inv lib s' := by
  have hsame := Flags.Le.refl s.flags
  have hother : ∀ {t}, t ≠ some .storeCaller → s.flags.Honest t :=
    fun ht => h.watchdogHonest.other ht
  have hfree : s.mutex ≠ some .call → s.call.holds = false := by
    intro hmutex
    by_contra hholds
    exact hmutex (h.callHolds (by simpa using hholds))
  have hown : s.watchdog.holds = true → s.call.holds = false := by
    intro hholds
    refine hfree ?_
    rw [h.watchdogHolds hholds]
    nofun
  have hlock : ∀ {s'}, s.watchdog ≠ .idle →
      s.lock .watchdog (fun s => { s with watchdog := .loop }) = some s' → Inv lib s' := by
    intro s' hidle hs
    obtain ⟨hmutex, rfl⟩ := lock_cases hs
    exact h.byWatchdog hidle hsame (hother nofun) (hfree (by rw [hmutex]; nofun)) fun _ => rfl
  unfold watchdogStep at hs
  cases hw : s.watchdog with
  | idle =>
    simp only [hw] at hs
    cases hs
  | lock =>
    simp only [hw] at hs
    exact hlock (by rw [hw]; nofun) hs
  | loop =>
    have hidle : s.watchdog ≠ .idle := by rw [hw]; nofun
    have hholds : s.watchdog.holds = true := by rw [hw]; rfl
    simp only [hw] at hs
    split at hs
    · cases hs
      exact h.byWatchdog hidle hsame (hother nofun) (hown hholds) nofun
    · cases hs
      exact h.byWatchdog hidle hsame (hother nofun) (hown hholds) fun _ => h.watchdogHolds hholds
  | polling t =>
    have hidle : s.watchdog ≠ .idle := by rw [hw]; nofun
    have hholds : s.watchdog.holds = true := by rw [hw]; rfl
    have hhonest := h.watchdogHonest
    rw [hw] at hhonest
    have hle := @trip_le call.hasProbe probe (decide (s.now ≥ s.deadline)) s.flags t
    have hafter := @trip_honest call.hasProbe probe (decide (s.now ≥ s.deadline)) _ _ hhonest
    simp only [hw] at hs
    cases hs
    unfold Sys.poll
    generalize s.flags.trip call.hasProbe probe (decide (s.now ≥ s.deadline)) t = r at *
    obtain ⟨flags, out⟩ := r
    cases out with
    | inl t' => exact h.byWatchdog hidle hle hafter (hown hholds) fun _ => h.watchdogHolds hholds
    | inr tripped => exact h.byWatchdog hidle hle hafter (hown hholds) nofun
  | waiting =>
    simp only [hw] at hs
    exact hlock (by rw [hw]; nofun) hs
  | ended =>
    simp only [hw] at hs
    cases hs

/-- **The invariant of both threads.** -/
theorem inv_reachable (h : (lts lib backoffBase call).Reachable s) : Inv lib s := by
  refine LTS.Inductive.reachable ⟨?_, ?_⟩ s h
  · rintro s ⟨now, rfl⟩
    exact inv_start
  · intro s label s' hs hstep
    cases label with
    | tick milliseconds =>
      cases hstep
      exact ⟨hs.few, hs.counted, hs.callHolds, hs.watchdogHolds, hs.register, hs.callHonest,
        hs.watchdogHonest⟩
    | call input => exact inv_call hs hstep
    | watchdog probe => exact inv_watchdog hs hstep

end Invariant

/-! ## What a run does -/

/-- The error of a spent budget. -/
def spentText (r : VlmResult) : Bool := (ascii "VLM call exceeded its ").isPrefixOf r.error

section Run
variable {lib : Library} {backoffBase : Int} {call : VlmCall} {s s' : Sys}

/-- What one action can change. -/
structure Effect (call : VlmCall) (s s' : Sys) : Prop where
  flags : s.flags.Le s'.flags
  posts : s'.posts = s.posts ∨ s.call = .post
  response : s'.response = s.response ∨ s.call = .posting none
  result : ∀ r, s'.result = some r →
    s.result = some r ∨ spentText r = false ∨ r = blame call s.flags.byCaller s.retries

theorem Effect.inside (hflags : s.flags.Le s'.flags) (hposts : s'.posts = s.posts)
    (hresponse : s'.response = s.response) (hresult : s'.result = none) : Effect call s s' := by
  refine ⟨hflags, .inl hposts, .inl hresponse, fun r hr => ?_⟩
  rw [hresult] at hr
  cases hr

theorem effect_poll {answer : Bool} {t : Trip} {next : Sys → Trip → Sys} {back : Sys → Bool → Sys}
    (hnext : ∀ flags t', s.flags.Le flags → Effect call s (next { s with flags := flags } t'))
    (hback : ∀ flags tripped, s.flags.Le flags →
      Effect call s (back { s with flags := flags } tripped)) :
    Effect call s (s.poll call answer t next back) := by
  have hle := @trip_le call.hasProbe answer (decide (s.now ≥ s.deadline)) s.flags t
  unfold Sys.poll
  generalize s.flags.trip call.hasProbe answer (decide (s.now ≥ s.deadline)) t = r at *
  obtain ⟨flags, out⟩ := r
  cases out with
  | inl t' => exact hnext flags t' hle
  | inr tripped => exact hback flags tripped hle

theorem readAnswer_spent (body : Bytes) : spentText (readAnswer lib body) = false := by
  unfold readAnswer
  split
  · rfl
  · split
    · rfl
    · split <;> rfl

theorem failureResult_spent (origin : Bytes) (response : Option Outcome) (retries : Nat) :
    spentText (failureResult origin response retries) = false := by
  unfold failureResult
  split <;> rfl

theorem rule_spent (rule : Endpoint.Rule) : spentText { error := rule.text } = false := by
  cases rule <;> decide

theorem call_effect {input : Input} (h : callStep lib backoffBase call input s = some s') :
    Effect call s s' := by
  have hsame := Flags.Le.refl s.flags
  have ended : ∀ {r : VlmResult}, s'.flags = s.flags → s'.posts = s.posts →
    s'.response = s.response →
      s'.result = some r → spentText r = false ∨ r = blame call s.flags.byCaller s.retries →
        Effect call s s' := by
    intro r hflags hposts hresponse hresult hr
    refine ⟨hflags ▸ hsame, .inl hposts, .inl hresponse, fun r' hr' => ?_⟩
    rw [hresult] at hr'
    cases hr'
    exact .inr hr
  unfold callStep at h
  cases hc : s.call with
  | start =>
    simp only [hc] at h
    split at h
    · rename_i problem hparse
      obtain ⟨rule, -, rfl⟩ := (Endpoint.parseEndpoint_refused _ problem).1 hparse
      cases h
      exact ended rfl rfl rfl rfl (.inl (rule_spent rule))
    · split at h
      · cases h
        refine ⟨⟨id, id, fun _ => rfl⟩, .inl rfl, .inl rfl, fun r hr => .inr (.inl ?_)⟩
        cases hr
        rfl
      · split at h <;> cases h <;> exact .inside hsame rfl rfl rfl
  | checking t =>
    simp only [hc] at h
    cases h
    refine effect_poll (fun flags t' hle => .inside hle rfl rfl rfl) fun flags tripped hle =>
      .inside hle rfl rfl ?_
    cases tripped <;> rfl
  | connecting =>
    simp only [hc] at h
    split at h
    · cases h
      exact .inside hsame rfl rfl rfl
    · cases h
      exact ended rfl rfl rfl rfl (.inl rfl)
  | registering t =>
    simp only [hc] at h
    cases h
    refine effect_poll (fun flags t' hle => .inside hle rfl rfl rfl) fun flags tripped hle => ?_
    cases tripped <;> exact .inside hle rfl rfl rfl
  | post =>
    simp only [hc] at h
    cases h
    exact ⟨hsame, .inr hc, .inl rfl, nofun⟩
  | posting hook =>
    cases hook with
    | none =>
      simp only [hc] at h
      split at h
      · cases h
        exact .inside hsame rfl rfl rfl
      · cases h
        exact ⟨hsame, .inl rfl, .inr hc, nofun⟩
    | some t =>
      simp only [hc] at h
      cases h
      exact effect_poll (fun flags t' hle => .inside hle rfl rfl rfl) fun flags tripped hle =>
        .inside hle rfl rfl rfl
  | answered =>
    simp only [hc] at h
    cases h
    refine .inside hsame rfl rfl ?_
    show CallAt.result (if _ then _ else _) = none
    split <;> rfl
  | answerTrip t =>
    simp only [hc] at h
    cases h
    refine effect_poll (fun flags t' hle => .inside hle rfl rfl rfl) fun flags tripped hle =>
      .inside hle rfl rfl ?_
    cases tripped <;> rfl
  | retry =>
    simp only [hc] at h
    split at h
    · cases h
      exact .inside hsame rfl rfl rfl
    · cases h
      refine .inside hsame rfl rfl ?_
      show CallAt.result (if _ then _ else _) = none
      split <;> rfl
  | sleeping timedOut t =>
    simp only [hc] at h
    cases h
    refine effect_poll (fun flags t' hle => .inside hle rfl rfl rfl) fun flags tripped hle => ?_
    dsimp only
    split <;> exact .inside hle rfl rfl rfl
  | sleepEnd t =>
    simp only [hc] at h
    cases h
    refine effect_poll (fun flags t' hle => .inside hle rfl rfl rfl) fun flags tripped hle =>
      .inside hle rfl rfl ?_
    cases tripped <;> rfl
  | leaving =>
    simp only [hc] at h
    split at h
    · cases h
      exact ended rfl rfl rfl rfl (.inl (readAnswer_spent _))
    · cases h
      exact .inside hsame rfl rfl rfl
  | ending t =>
    simp only [hc] at h
    cases h
    refine effect_poll (fun flags t' hle => .inside hle rfl rfl rfl) fun flags tripped hle => ?_
    cases tripped with
    | false =>
      refine ⟨hle, .inl rfl, .inl rfl, fun r hr => .inr (.inl ?_)⟩
      cases hr
      exact failureResult_spent _ _ _
    | true => exact .inside hle rfl rfl rfl
  | blaming =>
    simp only [hc] at h
    cases h
    exact ended rfl rfl rfl rfl (.inr rfl)
  | joining r =>
    simp only [hc] at h
    split at h
    · cases h
      refine ⟨hsame, .inl rfl, .inl rfl, fun r' hr' => .inl ?_⟩
      rw [Sys.result, hc]
      exact hr'
    · cases h
  | closing r =>
    simp only [hc] at h
    obtain ⟨-, rfl⟩ := lock_cases h
    refine ⟨hsame, .inl rfl, .inl rfl, fun r' hr' => .inl ?_⟩
    rw [Sys.result, hc]
    exact hr'
  | locking | unregister | sleepLock | waiting =>
    simp only [hc] at h
    obtain ⟨-, rfl⟩ := lock_cases h
    exact .inside hsame rfl rfl rfl
  | register =>
    simp only [hc] at h
    cases h
    exact .inside hsame rfl rfl rfl
  | threw =>
    simp only [hc] at h
    cases h
  | returned r =>
    simp only [hc] at h
    cases h

theorem watchdog_effect {probe : Bool} (h : watchdogStep call probe s = some s') :
    Effect call s s' := by
  have hkept : ∀ {s'' : Sys}, s.flags.Le s''.flags → s''.posts = s.posts →
    s''.response = s.response →
      s''.call = s.call → Effect call s s'' := by
    intro s'' hle hposts hresponse hcall
    refine ⟨hle, .inl hposts, .inl hresponse, fun r hr => .inl ?_⟩
    rw [Sys.result, ← hcall]
    exact hr
  have hsame := Flags.Le.refl s.flags
  unfold watchdogStep at h
  cases hw : s.watchdog with
  | lock | waiting =>
    simp only [hw] at h
    obtain ⟨-, rfl⟩ := lock_cases h
    exact hkept hsame rfl rfl rfl
  | loop =>
    simp only [hw] at h
    split at h <;> cases h <;> exact hkept hsame rfl rfl rfl
  | polling t =>
    simp only [hw] at h
    cases h
    exact effect_poll (fun flags t' hle => hkept hle rfl rfl rfl) fun flags tripped hle =>
      hkept hle rfl rfl rfl
  | idle | ended =>
    simp only [hw] at h
    cases h

theorem step_effect {label : Label} (h : step lib backoffBase call s label = some s') :
    Effect call s s' := by
  cases label with
  | tick milliseconds =>
    cases h
    exact ⟨.refl _, .inl rfl, .inl rfl, fun r hr => .inl hr⟩
  | call input => exact call_effect h
  | watchdog probe => exact watchdog_effect h

/-- No action posts again, or changes the answer, once it is a 200. -/
theorem answer_kept {label : Label} {body : Bytes} (hr : (lts lib backoffBase call).Reachable s)
    (hs : s.response = some (.answer 200 body)) (h : step lib backoffBase call s label = some s') :
    s'.response = s.response ∧ s'.posts = s.posts := by
  have heffect := step_effect h
  have hcounted := (inv_reachable hr).counted
  have hok : ¬Retried s.retries s.response := by
    intro hretried
    have := hretried.notOk
    rw [hs] at this
    cases this
  constructor
  · rcases heffect.response with hsame | hc
    · exact hsame
    · simp only [Counted, hc] at hcounted
      exact absurd hcounted.2 hok
  · rcases heffect.posts with hsame | hc
    · exact hsame
    · simp only [Counted, hc] at hcounted
      exact absurd hcounted.2.1 hok

theorem result_good (hr : (lts lib backoffBase call).Reachable s) {r : VlmResult}
    (h : s.result = some r) :
    GoodResult lib s.flags.asked s.response r := by
  have hcounted := (inv_reachable hr).counted
  unfold Counted at hcounted
  cases hc : s.call with
  | closing r' | joining r' | returned r' =>
    rw [Sys.result, hc] at h
    cases h
    simp only [hc] at hcounted
    exact hcounted.2
  | _ =>
    rw [Sys.result, hc] at h
    cases h

theorem posts_le (hr : (lts lib backoffBase call).Reachable s) : s.posts ≤ kMaxRetries + 1 := by
  have hfew := (inv_reachable hr).few
  have hcounted := (inv_reachable hr).counted
  unfold Counted at hcounted
  cases hc : s.call <;> simp only [hc] at hcounted <;> omega

/-- **The retry loop**, in any state of any interleaving of the call and its
watchdog. At most six posts are made; one is made only if the call had not
tripped when the attempt was registered and, behind the first, only after a
failure that may pass. From any state on: a trip stays, one that names the
caller is not reported as a spent budget, and an answer of status 200 is the
last and decides the result. Every result is not both ok and cancelled, is
cancelled only if the probe said yes, and has an error unless it is ok. -/
theorem retry_loop (hr : (lts lib backoffBase call).Reachable s) :
    s.posts ≤ 6 ∧
    (∀ label s', step lib backoffBase call s label = some s' → s'.posts ≠ s.posts →
      s.cleared = true ∧
        (s.posts ≠ 0 → ∃ outcome, s.response = some outcome ∧ outcome.retryable = true)) ∧
    (∀ s', (lts lib backoffBase call).Leads s s' →
      (s.flags.tripped = true → s'.flags.tripped = true) ∧
      (s.flags.byCaller = true → s.result = none → ∀ r, s'.result = some r → spentText r = false) ∧
      ∀ body, s.response = some (.answer 200 body) →
        s'.posts = s.posts ∧ ∀ r, s'.result = some r → r = readAnswer lib body) ∧
    ∀ r, s.result = some r → ¬(r.ok = true ∧ r.cancelled = true) ∧
      (r.cancelled = true → s.flags.asked = true) ∧ (r.ok = false → r.error ≠ []) := by
  refine ⟨posts_le hr, ?_, ?_, ?_⟩
  · intro label s' hstep hposts
    rcases (step_effect hstep).posts with hsame | hc
    · exact absurd hsame hposts
    · have hcounted := (inv_reachable hr).counted
      simp only [Counted, hc] at hcounted
      obtain ⟨hcount, hretried, hcleared⟩ := hcounted
      refine ⟨hcleared, fun hne => hretried.2 ?_⟩
      omega
  · intro s' hleads
    refine ⟨?_, ?_, ?_⟩
    · refine hleads.keeps (P := fun s => s.flags.tripped = true) hr fun s label s' _ hs hstep => ?_
      exact (step_effect hstep).flags.tripped hs
    · intro hcaller hnone
      refine (hleads.keeps (P := fun s => s.flags.byCaller = true ∧
        ∀ r, s.result = some r → spentText r = false)
        hr (fun s label s' _ hs hstep => ?_) ⟨hcaller, fun r hr => ?_⟩).2
      · have heffect := step_effect hstep
        refine ⟨heffect.flags.byCaller hs.1, fun r hr => ?_⟩
        rcases heffect.result r hr with hold | hspent | hblame
        · exact hs.2 r hold
        · exact hspent
        · rw [hblame, hs.1]
          rfl
      · rw [hnone] at hr
        cases hr
    · intro body hbody
      obtain ⟨hresponse, hposts⟩ := hleads.keeps
        (P := fun s' => s'.response = some (.answer 200 body) ∧ s'.posts = s.posts) hr
        (fun s₁ label s₂ hr₁ hs₁ hstep => by
          obtain ⟨hresponse, hposts⟩ := answer_kept hr₁ hs₁.1 hstep
          exact ⟨hresponse.trans hs₁.1, hposts.trans hs₁.2⟩) ⟨hbody, rfl⟩
      exact ⟨hposts, fun r hres => (result_good (hr.leads hleads) hres).answer body hresponse⟩
  · intro r hres
    have hgood := result_good hr hres
    exact ⟨hgood.notBoth, hgood.asked, hgood.error⟩

end Run

/-! ## A run -/

def sampleLibrary : Library where
  isValid := fun _ => true
  parse := fun _ => none
  dump := fun _ => some []

def sampleCall : VlmCall := { plainCall with endpoint := ascii "http://vlm", hasProbe := true }

/-- An action of the call with nothing to see, and one with an answer. -/
def quiet : Label := .call ⟨false, none, false⟩

def answers (status : Nat) : Label := .call ⟨false, some (.answer status []), false⟩

/-- Up to the first post, a 503, and the same again up to a 200. -/
def sampleRun : List Label :=
  List.replicate 13 quiet ++ [answers 503] ++ List.replicate 19 quiet ++ [answers 200]

/-- The call recovers from the 503 with its second post, and the answer of that
one stays the last. -/
theorem retry_loop_recovers : ∃ s, (lts sampleLibrary 0 sampleCall).Reachable s ∧ s.posts = 2 ∧
    s.response = some (.answer 200 []) ∧
      ∀ s', (lts sampleLibrary 0 sampleCall).Leads s s' → s'.posts = 2 := by
  have hrun : ((LTS.exec (step sampleLibrary 0 sampleCall) {} sampleRun).any fun s =>
      s.posts == 2 && s.response == some (.answer 200 [])) = true := by decide
  obtain ⟨s, hs, hend⟩ := (Option.any_eq_true _ _).1 hrun
  simp only [Bool.and_eq_true, beq_iff_eq] at hend
  have hr : (lts sampleLibrary 0 sampleCall).Reachable s := LTS.reachable_exec (.init ⟨0, rfl⟩) hs
  refine ⟨s, hr, hend.1, hend.2, fun s' hleads => ?_⟩
  exact (((retry_loop hr).2.2.1 s' hleads).2.2 [] hend.2).1.trans hend.1

end VlmConvert.L4.VlmClient.RetryLoop
