import VlmConvert.L4Service.Admission

/-!
# Every stream comes to its end

`Admission` shows that a waiting thread is never stuck for good. Here the
whole of `ConvertPagesCore` (`src/service/vlm_convert_service.cpp:226-582`),
from the first message to the returned status: closing the channels, joining
the workers and the writer, and the trailer.

`Sys.work` counts what is left to do: the steps each thread still has before
it, the queued jobs and the queued events. Every step lowers it, but for two
that the outside decides: a message of the client brings at most 23 steps of
work with it, and a `pop_for` that timed out sends the writer round once more.

Results:

* `run_length_le`: a run is no longer than its work, its messages and its
  timeouts allow, for any interleaving. No thread spins.
* `streams_complete`: from every reachable state all streams can return.
-/
namespace VlmConvert.L4.Pipeline

open BudgetLease

/-! ## What is left to do -/

/-- The reader's own steps up to its return, and what the page in its hand
brings with it. -/
def Reader.work : Reader → Nat
  | .returned _ => 0
  | .finish => 1
  | .joinWriter => 2
  | .joinWorkers => 3
  | .closeJobs => 4
  | .leave => 5
  | .read | .dropStream _ => 6
  | .check => 7
  | .push _ => 22
  | .starting _ _ _ => 26
  | .waitProcess _ _ => 27
  | .gotStream _ _ => 28
  | .waitStream _ => 29

/-- The worker's steps up to its next `pop` and out of the loop. -/
def Worker.work : Worker → Nat
  | .exited => 0
  | .pop => 1
  | .dropStream _ => 2
  | .dropProcess _ => 3
  | .dropSlot _ _ => 4
  | .pushed _ _ _ => 5
  | .counted _ _ _ => 9
  | .converted _ _ _ => 10
  | .converting _ _ => 11
  | .waitSlot _ => 12
  | .enter _ => 13
  | .got _ => 14

def Writer.work : Writer → Nat
  | .exited => 0
  | .halting => 1
  | .gone | .pop => 2
  | .check => 3
  | .write _ => 4

/-- A queued job and a queued event are one thread's work. -/
def Stream.work (st : Stream) : Nat :=
  st.reader.work + (st.workers.map Worker.work).sum + st.writer.work + 14 * st.jobs.length +
    3 * st.events.length

def Sys.work (s : Sys) : Nat := (s.streams.map Stream.work).sum

/-! ## What the outside decides -/

/-- The client's message is there. -/
def Act.isMessage : Act → Bool
  | .reader (.read (some _)) => true
  | _ => false

/-- `pop_for` found the channel open and empty. -/
def Stream.timesOut (st : Stream) : Act → Bool
  | .writer .go => decide (st.writer = .pop) && st.events.isEmpty && !st.eventsClosed
  | _ => false

/-- What a step may add to the work, itself included. -/
def Stream.allowance (st : Stream) (a : Act) : Nat :=
  (if a.isMessage then 24 else 0) + if st.timesOut a then 2 else 0

section Step
variable {c : Config} {k i : Nat} {sh sh' : Shared} {st st' : Stream}

/-- The reader moves on and queues what it has made; `n` is what it may add. -/
theorem work_of_reader {jobs : List Job} {events : List Event} {n : Nat}
    (hworkers : st'.workers = st.workers)
    (hwriter : st'.writer = st.writer) (hjobs : st'.jobs = st.jobs ++ jobs)
    (hevents : st'.events = st.events ++ events)
    (h : st'.reader.work + 14 * jobs.length + 3 * events.length + 1 ≤ st.reader.work + n) :
    st'.work + 1 ≤ st.work + n := by
  simp only [Stream.work, hworkers, hwriter, hjobs, hevents, List.length_append]
  omega

/-- The reader moves on and queues nothing. -/
theorem work_of_reader_only {n : Nat} (hworkers : st'.workers = st.workers)
    (hwriter : st'.writer = st.writer)
    (hjobs : st'.jobs = st.jobs) (hevents : st'.events = st.events)
    (h : st'.reader.work + 1 ≤ st.reader.work + n) : st'.work + 1 ≤ st.work + n :=
  work_of_reader hworkers hwriter (hjobs.trans (List.append_nil st.jobs).symm)
    (hevents.trans (List.append_nil st.events).symm) h

theorem readRequest_work (hr : st.reader = .read) (request : Option Request) :
    (readRequest c k st request).work + 1 ≤ st.work + st.allowance (.reader (.read request)) := by
  have hread : Reader.work st.reader = 6 := by rw [hr]; rfl
  cases request with
  | none => exact work_of_reader_only rfl rfl rfl rfl (by rw [hread]; exact Nat.le_refl 6)
  | some q =>
    have hmessage : st.allowance (.reader (.read (some q))) = 24 := rfl
    have hskip : ∀ st' : Stream, st'.workers = st.workers → st'.writer = st.writer →
      st'.jobs = st.jobs →
        st'.events = st.events → st'.reader.work ≤ 29 → st'.work + 1 ≤ st.work + 24 :=
      fun st' h1 h2 h3 h4 h5 => work_of_reader_only h1 h2 h3 h4 (by omega)
    rw [hmessage]
    cases q with
    | options => exact hskip _ rfl rfl rfl rfl (show 5 ≤ 29 by decide)
    | pdfChunk => exact hskip _ rfl rfl rfl rfl (show 5 ≤ 29 by decide)
    | empty => exact hskip _ rfl rfl rfl rfl (show 7 ≤ 29 by decide)
    | pageImage image =>
      simp only [readRequest]
      split
      · exact hskip _ rfl rfl rfl rfl (show 5 ≤ 29 by decide)
      · exact hskip _ rfl rfl rfl rfl (Nat.le_refl 29)

/-- **The reader** works off one step, or takes a message. -/
theorem reader_work {a : RAct} (h : readerStep c k sh st a = some (sh', st')) :
    st'.work + 1 ≤ st.work + st.allowance (.reader a) := by
  cases readerStep_cases h with
  | read request hr => exact readRequest_work hr request
  | starting image n p hr =>
    exact work_of_reader rfl rfl (List.append_nil _).symm rfl (by rw [hr]; exact Nat.le_refl _)
  | push job hr =>
    exact work_of_reader rfl rfl rfl (List.append_nil _).symm (by rw [hr]; exact Nat.le_refl _)
  | streamGranted image n b hr | joinLine image n hr | processGranted image n p b hr =>
    exact work_of_reader_only rfl rfl rfl rfl (by rw [hr]; exact Nat.le_refl _)
  | streamAbandoned image b hr | processAbandoned image n b hr | dropStream n hr =>
    exact work_of_reader_only rfl rfl rfl rfl (by rw [hr]; simp only [Reader.work]; omega)
  | silent hm =>
    cases hm with
    | again hr | halted hr | leave hr | closeJobs hr | joinWorkers hr hall | joinWriter hr hw =>
      exact work_of_reader_only rfl rfl rfl rfl (by rw [hr]; simp only [Reader.work]; omega)
    | finish cancelled hr =>
      exact work_of_reader_only rfl rfl rfl rfl (by rw [hr]; exact Nat.le_refl _)

/-- A worker moves on; its step may take a job and push an event. -/
theorem work_of_worker {w w' : Worker} {taken : List Job} {pushed : List Event}
    (hi : st.workers[i]? = some w)
    (hworkers : st'.workers = st.workers.set i w') (hreader : st'.reader = st.reader)
    (hwriter : st'.writer = st.writer) (hjobs : st.jobs = taken ++ st'.jobs)
    (hevents : st'.events = st.events ++ pushed)
    (h : w'.work + 3 * pushed.length + 1 ≤ w.work + 14 * taken.length) :
    st'.work + 1 ≤ st.work := by
  have hsum := sum_map_set Worker.work st.workers i w w' hi
  simp only [Stream.work, hworkers, hreader, hwriter, hevents, hjobs, List.length_append]
  omega

theorem work_of_worker_only {w w' : Worker} (hi : st.workers[i]? = some w)
    (hworkers : st'.workers = st.workers.set i w') (hreader : st'.reader = st.reader)
    (hwriter : st'.writer = st.writer) (hjobs : st'.jobs = st.jobs)
    (hevents : st'.events = st.events)
    (h : w'.work + 1 ≤ w.work) : st'.work + 1 ≤ st.work :=
  @work_of_worker i st st' w w' [] [] hi hworkers hreader hwriter hjobs.symm
    (hevents.trans (List.append_nil st.events).symm) h

/-- **A worker** works off one step. -/
theorem worker_work {w : Worker} {a : WAct} (hi : st.workers[i]? = some w)
    (h : workerAt k sh st i w a = some (sh', st')) : st'.work + 1 ≤ st.work := by
  obtain ⟨w', hm⟩ := workerAt_cases h
  cases hm with
  | pop job rest hjobs =>
    exact @work_of_worker i st _ .pop _ [job] [] hi rfl rfl rfl hjobs (List.append_nil _).symm
      (Nat.le_refl _)
  | joinLine | granted | dropSlot | dropProcess | dropStream =>
    exact work_of_worker_only hi rfl rfl rfl rfl rfl (Nat.le_refl _)
  | abandoned =>
    exact work_of_worker_only hi rfl rfl rfl rfl rfl (by simp only [Worker.work]; omega)
  | silent hm =>
    cases hm with
    | exit | take | converted | count | abort =>
      exact work_of_worker_only hi rfl rfl rfl rfl rfl (Nat.le_refl _)
    | skip | cut =>
      exact work_of_worker_only hi rfl rfl rfl rfl rfl (by simp only [Worker.work]; omega)
    | answer =>
      exact @work_of_worker i st _ _ _ [] _ hi rfl rfl rfl rfl rfl (Nat.le_refl _)

/-- **The writer** works off one step, or its `pop_for` times out. -/
theorem writer_work {a : OAct} (h : writerStep st a = some st') :
    st'.work + 1 ≤ st.work + st.allowance (.writer a) := by
  cases writerStep_cases h with
  | check cancelled hw =>
    cases cancelled with
    | false => simp only [Stream.work, hw, Writer.work, Bool.false_eq_true, if_false]; omega
    | true => simp only [Stream.work, hw, Writer.work, if_true]; omega
  | pop event rest hw hevents =>
    simp only [Stream.work, hw, hevents, Writer.work, List.length_cons]
    omega
  | drained hw =>
    simp only [Stream.work, hw, Writer.work]
    omega
  | timesOut hw hevents hopen =>
    have hout : st.allowance (.writer .go) = 2 := by
      simp [Stream.allowance, Act.isMessage, Stream.timesOut, hw, hevents, hopen]
    rw [hout]
    simp only [Stream.work, hw, Writer.work]
    omega
  | write event ok hw =>
    cases ok with
    | false => simp only [Stream.work, hw, Writer.work, Bool.false_eq_true, if_false]; omega
    | true => simp only [Stream.work, hw, Writer.work, if_true]; omega
  | gone hw | halting hw =>
    simp only [Stream.work, hw, Writer.work]
    omega

theorem streamStep_work {a : Act} (h : streamStep c k sh st a = some (sh', st')) :
    st'.work + 1 ≤ st.work + st.allowance a := by
  cases a with
  | reader a => exact reader_work h
  | worker i a =>
    simp only [streamStep, workerStep] at h
    split at h
    · cases h
    · rename_i w hi
      exact worker_work hi h
  | writer a =>
    obtain ⟨st₁, hstep, he⟩ := Option.map_eq_some_iff.1 h
    cases he
    exact writer_work hstep

end Step

/-! ## How long a run is -/

/-- What a step of the system may add to its work, itself included. -/
def Sys.allowance (s : Sys) (l : Nat × Act) : Nat :=
  ((s.streams[l.1]?).map (·.allowance l.2)).getD 0

def Sys.timesOut (s : Sys) (l : Nat × Act) : Bool := (s.streams[l.1]?).any (·.timesOut l.2)

theorem sysStep_work {c : Config} {s s' : Sys} {l : Nat × Act} (h : sysStep c s l = some s') :
    s'.work + 1 ≤ s.work + s.allowance l := by
  obtain ⟨st, sh', st', hk, hstep, rfl⟩ := sysStep_cases h
  have hone := streamStep_work hstep
  have hsum := sum_map_set Stream.work s.streams l.1 st st' hk
  have hadds : s.allowance l = st.allowance l.2 := by rw [Sys.allowance, hk]; rfl
  rw [hadds]
  simp only [Sys.work]
  omega

/-- The messages the readers take in a run, whatever they carry. -/
def messages (ls : List (Nat × Act)) : Nat := ls.countP (·.2.isMessage)

/-- The writers' polls in a run that find the event channel open and empty. -/
def timeouts (c : Config) : Sys → List (Nat × Act) → Nat :=
  LTS.tally (sysStep c) fun s l => if s.timesOut l then 1 else 0

theorem allowance_run {c : Config} {ls : List (Nat × Act)} : ∀ {s s' : Sys},
    LTS.exec (sysStep c) s ls = some s' →
    LTS.tally (sysStep c) Sys.allowance s ls = 24 * messages ls + 2 * timeouts c s ls := by
  induction ls with
  | nil => exact fun _ => rfl
  | cons l ls ih =>
    intro s s' h
    obtain ⟨s₁, hstep, h⟩ := LTS.exec_cons h
    obtain ⟨st, -, -, hk, -, -⟩ := sysStep_cases hstep
    have hrest := ih h
    have hfirst : s.allowance l =
      (if l.2.isMessage then 24 else 0) + if s.timesOut l then 2 else 0 := by
      simp only [Sys.allowance, Sys.timesOut, hk]
      rfl
    have hmessages : messages (l :: ls) = messages ls + if l.2.isMessage then 1 else 0 :=
      List.countP_cons
    have htimeouts : timeouts c s (l :: ls) = (if s.timesOut l then 1 else 0) + timeouts c s₁ ls :=
      LTS.tally_cons _ ls hstep
    rw [LTS.tally_cons _ ls hstep, hfirst, hrest, hmessages, htimeouts]
    split <;> split <;> omega

theorem work_init (c : Config) (os : List Options) :
    (Sys.init c os).work = (os.map fun o => 10 + effectiveConcurrency c o).sum := by
  have hone : ∀ o, (Stream.init c o).work = 10 + effectiveConcurrency c o := by
    intro o
    simp only [Stream.work, Stream.init, Reader.work, Writer.work, List.map_replicate,
      List.sum_replicate, Worker.work, List.length_nil, smul_eq_mul, Nat.mul_one]
    omega
  simp only [Sys.work, Sys.init, List.map_map]
  exact congrArg List.sum (List.map_congr_left fun o _ => hone o)

/-- **No thread spins.** Whatever the interleaving, a run is at most as long
as the streams' fixed work, 24 steps for each message, page or not, and 2 for
each empty poll of a writer. -/
theorem run_length_le {c : Config} {os : List Options} {ls : List (Nat × Act)} {s : Sys}
    (h : LTS.exec (sysStep c) (Sys.init c os) ls = some s) :
    ls.length ≤ (os.map fun o => 10 + effectiveConcurrency c o).sum + 24 * messages ls +
      2 * timeouts c (Sys.init c os) ls := by
  have hle := LTS.exec_length_le Sys.work Sys.allowance (fun _ _ _ => sysStep_work) h
  rw [allowance_run h, work_init] at hle
  omega

/-- Both pages of `sampleRun` and its three events, no timeout: one step short
of the bound. -/
theorem run_length_le_sampleRun :
    ∃ s, LTS.exec (sysStep smallConfig) (Sys.init smallConfig [⟨0, false⟩]) sampleRun = some s ∧
      sampleRun.length = 59 ∧ sampleRun.length ≤ 60 := by
  have hs : (LTS.exec (sysStep smallConfig) (Sys.init smallConfig [⟨0, false⟩]) sampleRun).isSome =
    true := by
    decide
  obtain ⟨s, he⟩ := Option.isSome_iff_exists.1 hs
  have hbound : ([⟨0, false⟩].map fun o => 10 + effectiveConcurrency smallConfig o).sum +
      24 * messages sampleRun + 2 * timeouts smallConfig
        (Sys.init smallConfig [⟨0, false⟩]) sampleRun = 60 := by
    decide
  exact ⟨s, he, rfl, (run_length_le he).trans hbound.le⟩

/-! ## All streams return -/

/-- A step that lowers the work is enabled. -/
def Lowers (c : Config) (s : Sys) : Prop := ∃ l s', sysStep c s l = some s' ∧ s.allowance l = 0

section Progress
variable {c : Config} {s : Sys} {k i : Nat} {st : Stream} {w : Worker}

theorem lowers_of_step {a : Act} (hk : s.streams[k]? = some st) (hadds : st.allowance a = 0)
    (h : (streamStep c k s.shared st a).isSome = true) : Lowers c s := by
  obtain ⟨r, hr⟩ := Option.isSome_iff_exists.1 h
  refine ⟨(k, a), ⟨s.streams.set k r.2, r.1⟩, ?_, ?_⟩
  · simp only [sysStep, hk, hr, Option.map_some]
  · simp only [Sys.allowance, hk]
    exact hadds

theorem reader_lowers (a : RAct) (hk : s.streams[k]? = some st)
    (ha : (Act.reader a).isMessage = false)
    (h : (readerStep c k s.shared st a).isSome = true) : Lowers c s :=
  lowers_of_step (a := .reader a) hk (by simp [Stream.allowance, ha, Stream.timesOut]) h

theorem worker_lowers (a : WAct) (hk : s.streams[k]? = some st) (hi : st.workers[i]? = some w)
    (h : (workerAt k s.shared st i w a).isSome = true) : Lowers c s := by
  refine lowers_of_step (a := .worker i a) hk rfl ?_
  simpa only [streamStep, workerStep, hi] using h

theorem writer_lowers (a : OAct) (hk : s.streams[k]? = some st)
    (ha : st.timesOut (.writer a) = false)
    (h : (writerStep st a).isSome = true) : Lowers c s := by
  refine lowers_of_step (a := .writer a) hk (by simp [Stream.allowance, ha, Act.isMessage]) ?_
  simpa only [streamStep, Option.isSome_map] using h

theorem reading_of_read {sh : Shared} {request : Option Request} {r : Shared × Stream}
    (h : readerStep c k sh st (.read request) = some r) : st.reader = .read := by
  obtain ⟨sh', st'⟩ := r
  cases readerStep_cases h with
  | read request hr => exact hr
  | silent hm => cases hm

/-- The steps of `no_deadlock` lower the work. -/
theorem canProgress_lowers (h : CanProgress c s) : Lowers c s := by
  obtain ⟨k, st, a, s', hk, hp, hstep⟩ := h
  refine ⟨(k, a), s', hstep, ?_⟩
  simp only [Sys.allowance, hk, Option.map_some, Option.getD_some]
  cases a with
  | writer a => exact hp.elim
  | worker i a => rfl
  | reader a =>
    cases a with
    | read request =>
      obtain ⟨st₀, sh', st', hk', hread, -⟩ := sysStep_cases hstep
      cases hk.symm.trans hk'
      have hpage : st.reader.hasPage = true := hp
      rw [reading_of_read hread] at hpage
      cases hpage
    | _ => rfl

/-- `convert_page` can return. -/
theorem converting_lowers (h : Converting s) : Lowers c s := by
  obtain ⟨st, hst, job, slot, hw⟩ := h
  obtain ⟨k, hk⟩ := List.mem_iff_getElem?.1 hst
  obtain ⟨i, hi⟩ := List.mem_iff_getElem?.1 hw
  exact worker_lowers (.convert .document) hk hi rfl

theorem lowers_of_waiting (h : Converting s ∨ CanProgress c s) : Lowers c s :=
  h.elim converting_lowers canProgress_lowers

/-- Behind `jobs.close()` a worker that has not left the loop can step, or
waits for another that can. -/
theorem worker_leaves (h : Sound c s) (hinv : Inv c st) (hk : s.streams[k]? = some st)
    (hclosed : st.reader.closedJobs = true) (hw : w ∈ st.workers) (hne : w ≠ .exited) :
    Lowers c s := by
  obtain ⟨i, hi⟩ := List.mem_iff_getElem?.1 hw
  cases hpage : w.hasPage st.jobs with
  | true => exact lowers_of_waiting (page_holder h hk hi hpage)
  | false =>
    cases w with
    | pop =>
      have hjobs : st.jobs = [] := by simpa [Worker.hasPage] using hpage
      refine worker_lowers .go hk hi ?_
      simp only [workerAt, hjobs, hinv.jobs_closed, hclosed, if_true, Option.isSome_some]
    | exited => exact absurd rfl hne
    | _ => cases hpage

/-- Behind `events.close()` the writer can step until it has left. -/
theorem writer_leaves (hinv : Inv c st) (hk : s.streams[k]? = some st)
    (hclosed : st.reader.closedEvents = true) (hne : st.writer ≠ .exited) : Lowers c s := by
  have hout : ∀ a, st.timesOut (.writer a) = false := by
    intro a
    cases a with
    | go => simp [Stream.timesOut, hinv.events_closed, hclosed]
    | _ => rfl
  cases hw : st.writer with
  | check => exact writer_lowers (.check false) hk (hout _) (by simp [writerStep, hw])
  | pop =>
    refine writer_lowers .go hk (hout _) ?_
    cases hevents : st.events <;> simp [writerStep, hw, hevents]
  | write event => exact writer_lowers (.write true) hk (hout _) (by simp [writerStep, hw])
  | gone => exact writer_lowers .go hk (hout _) (by simp [writerStep, hw])
  | halting => exact writer_lowers .go hk (hout _) (by simp [writerStep, hw])
  | exited => exact absurd hw hne

/-- A stream that has not returned can step, or waits for a thread that can. -/
theorem stream_lowers (h : Sound c s) (hinv : ∀ st ∈ s.streams, Inv c st)
    (hk : s.streams[k]? = some st)
    (hopen : ∀ status, st.reader ≠ .returned status) : Lowers c s := by
  have hst := List.mem_of_getElem? hk
  have go : (readerStep c k s.shared st .go).isSome = true → Lowers c s := reader_lowers .go hk rfl
  cases hr : st.reader with
  | read => exact reader_lowers (.read none) hk rfl (by simp [readerStep, hr])
  | waitStream image => exact lowers_of_waiting (stream_waiter h (hinv st hst) hk hr)
  | waitProcess image n => exact lowers_of_waiting (process_waiter h hinv hk hr)
  | joinWorkers =>
    by_cases hall : ∀ w ∈ st.workers, w = .exited
    · exact go (by simp only [readerStep, hr, if_pos hall, Option.isSome_some])
    · obtain ⟨w, hw, hne⟩ : ∃ w ∈ st.workers, w ≠ .exited := by
        simpa only [not_forall, exists_prop] using hall
      exact worker_leaves h (hinv st hst) hk (by rw [hr]; rfl) hw hne
  | joinWriter =>
    by_cases hexit : st.writer = .exited
    · exact go (by simp [readerStep, hr, hexit])
    · exact writer_leaves (hinv st hst) hk (by rw [hr]; rfl) hexit
  | finish => exact reader_lowers (.finish false) hk rfl (by simp [readerStep, hr])
  | returned status => exact absurd hr (hopen status)
  | check => exact go (by simp [readerStep, hr])
  | gotStream image n => exact go (by simp [readerStep, hr])
  | dropStream n => exact go (by simp [readerStep, hr])
  | starting image n p => exact go (by simp [readerStep, hr])
  | push job => exact go (by simp [readerStep, hr])
  | leave => exact go (by simp [readerStep, hr])
  | closeJobs => exact go (by simp [readerStep, hr])

end Progress

/-- `ConvertPagesCore` has returned for every stream. -/
def AllReturned (s : Sys) : Prop := ∀ st ∈ s.streams, ∃ status, st.reader = .returned status

/-- **Every stream can come to its end**, from any reachable state: no
interleaving of admission, shutdown, halting and joining leaves a thread that
waits for good. -/
theorem streams_complete {c : Config} {os : List Options} {s : Sys} (hr : (lts c os).Reachable s) :
    ∃ s', (lts c os).Leads s s' ∧ AllReturned s' := by
  refine hr.leads_to Sys.work fun s hr hopen => ?_
  simp only [AllReturned, not_forall, not_exists] at hopen
  obtain ⟨st, hst, hopen⟩ := hopen
  obtain ⟨k, hk⟩ := List.mem_iff_getElem?.1 hst
  obtain ⟨l, s', hstep, hadds⟩ := stream_lowers (sound_reachable hr) (inv_reachable hr) hk hopen
  have hwork := sysStep_work hstep
  exact ⟨l, s', hstep, by omega⟩

/-- With a page in the slot pool's line and another one being converted. -/
theorem streams_complete_sampleWait :
    ∃ s, (lts smallConfig [⟨0, false⟩]).Reachable s ∧ Waiting s ∧
      ∃ s', (lts smallConfig [⟨0, false⟩]).Leads s s' ∧ AllReturned s' := by
  have hs : ((LTS.exec (sysStep smallConfig) (Sys.init smallConfig [⟨0, false⟩])
      ((admitActs ++ takeActs 0 ++ admitActs ++ (takeActs 1).take 3).map fun a => (0, a))).map
      fun s => s.streams.map fun st => st.workers[1]?) =
      some [some (.waitSlot ⟨1, samplePage, 8, 8⟩)] := by decide
  obtain ⟨s, he, hv⟩ := Option.map_eq_some_iff.1 hs
  obtain ⟨st, hst, hv⟩ := List.map_eq_singleton_iff.1 hv
  have hr : (lts smallConfig [⟨0, false⟩]).Reachable s := LTS.reachable_exec (.init rfl) he
  have hwait : Waiting s := ⟨st, by rw [hst]; exact List.mem_singleton.2 rfl,
    .inr (.inr ⟨_, List.mem_of_getElem? hv⟩)⟩
  exact ⟨s, hr, hwait, streams_complete hr⟩

end VlmConvert.L4.Pipeline
