import VlmConvert.L4Service.Pipeline

/-!
# The event protocol of one stream

What a client of `ConvertPagesCore` sees, for every interleaving of reader,
workers and writer of any number of streams. `st.wire` is what was passed to
`write`, in order.

The proof follows each page by admission index. A page that was started is,
at every moment, in exactly one of four places: pending (in the reader's
hand, in the queue, or with a worker that has not pushed its event yet),
answered (its terminal event is in `log st`: written, in the writer's hand
or queued), or dropped (`Inv.pages`). Pages are dropped only once `halt` is
set, and `halt` always has a reason the final status reports
(`Inv.halt_why`); so an OK stream dropped nothing, and all events were
written because the writer leaves early only when the client is gone.
-/
namespace VlmConvert.L4.Pipeline

open BudgetLease

/-! ## Events and pages -/

def Event.started? : Event → Option Nat
  | .pageStarted i _ => some i
  | _ => none

def Event.terminal? : Event → Option Nat
  | .pageDocument i _ => some i
  | .pageRaw i _ _ _ => some i
  | _ => none

def Event.isDocument : Event → Bool
  | .pageDocument .. => true
  | _ => false

def Event.isComplete : Event → Bool
  | .complete .. => true
  | _ => false

def starteds (l : List Event) : List Nat := l.filterMap Event.started?

def terminals (l : List Event) : List Nat := l.filterMap Event.terminal?

/-- No page's terminal event before its `PageStarted`. -/
def Ordered (l : List Event) : Prop :=
  ∀ pre e post, l = pre ++ e :: post → ∀ i, e.terminal? = some i → i ∈ starteds pre

def hand : Writer → List Event
  | .write e => [e]
  | _ => []

/-- Everything pushed to the event channel so far, in order. -/
def log (st : Stream) : List Event := st.wire ++ hand st.writer ++ st.events

/-- The page a worker holds whose terminal event is still to come. -/
def Worker.pending : Worker → List Nat
  | .got j | .enter j | .waitSlot j | .converting j _ | .converted j _ _ | .counted j _ _ => [j.idx]
  | _ => []

def Reader.pending : Reader → List Nat
  | .push j => [j.idx]
  | _ => []

/-- How often page `i` is pending. -/
def pendingCount (i : Nat) (st : Stream) : Nat :=
  st.reader.pending.count i + (st.jobs.map Job.idx).count i +
    (st.workers.map fun w => w.pending.count i).sum

/-- 1 for a worker that has counted a page (as failed: `raw`) and not
pushed its event yet. -/
def Worker.countedAs (raw : Bool) : Worker → Nat
  | .counted _ _ e => if e.isRaw = raw then 1 else 0
  | _ => 0

/-- The event a worker holds is a terminal event of its page. -/
def Worker.EventOk : Worker → Prop
  | .converted j _ e | .counted j _ e =>
    e.terminal? = some j.idx ∧ e.started? = none ∧ e.isComplete = false ∧ e.isDocument = !e.isRaw
  | _ => True

/-- Between the checks of `refusePage` and the page's `started++`. -/
def Reader.admitting : Reader → Bool
  | .waitStream _ | .gotStream _ _ | .waitProcess _ _ | .starting _ _ _ => true
  | _ => false

/-- The reader has closed the job channel. -/
def Reader.closedJobs : Reader → Bool
  | .joinWorkers | .joinWriter | .finish | .returned _ => true
  | _ => false

/-- The reader has closed the event channel. -/
def Reader.closedEvents : Reader → Bool
  | .joinWriter | .finish | .returned _ => true
  | _ => false

def Reader.joinedWriter : Reader → Bool
  | .finish | .returned _ => true
  | _ => false

theorem closedEvents_of_joinedWriter {r : Reader} (h : r.joinedWriter = true) :
    r.closedEvents = true := by cases r <;> simp_all [Reader.joinedWriter, Reader.closedEvents]

@[simp] theorem starteds_append (l l' : List Event) :
    starteds (l ++ l') = starteds l ++ starteds l' :=
  List.filterMap_append

@[simp] theorem terminals_append (l l' : List Event) :
    terminals (l ++ l') = terminals l ++ terminals l' := List.filterMap_append

theorem ordered_nil : Ordered [] := by
  intro pre e post h; simp at h

/-- One more event: it needs its page started, the rest is as before. -/
theorem ordered_snoc {l : List Event} {e : Event} (h : Ordered l)
    (he : ∀ i, e.terminal? = some i → i ∈ starteds l) : Ordered (l ++ [e]) := by
  intro pre x post hx i hi
  rcases List.eq_nil_or_concat post with rfl | ⟨post', y, rfl⟩
  · obtain ⟨rfl, hxe⟩ := List.append_inj' hx rfl
    simp only [List.cons.injEq, and_true] at hxe; subst hxe
    exact he i hi
  · have hx' : l ++ [e] = (pre ++ x :: post') ++ [y] := by simpa using hx
    obtain ⟨rfl, -⟩ := List.append_inj' hx' rfl
    exact h pre x post' rfl i hi

theorem Ordered.of_append {l l' : List Event} (h : Ordered (l ++ l')) : Ordered l := by
  intro pre e post hl i hi
  exact h pre e (post ++ l') (by rw [hl]; simp) i hi

/-! ## Invariant -/

/-- The part about the worker threads. -/
structure WorkersInv (st : Stream) : Prop where
  event_ok : ∀ w ∈ st.workers, w.EventOk
  pushed_failed : ∀ j n, Worker.pushed j n true ∈ st.workers → 0 < st.failed
  worker_exit : Worker.exited ∈ st.workers → st.jobsClosed = true ∧ st.jobs = []
  workers_ne : st.workers ≠ []
  joined : st.reader.closedEvents = true → ∀ w ∈ st.workers, w = .exited

structure Inv (c : Config) (st : Stream) : Prop extends WorkersInv st where
  started_log : starteds (log st) = List.range st.started
  pages : ∀ i, pendingCount i st + (terminals (log st)).count i + st.dropped.count i =
    (List.range st.started).count i
  ordered : Ordered (log st)
  ok_eq : st.ok = (log st).countP Event.isDocument + (st.workers.map (Worker.countedAs false)).sum
  failed_eq : st.failed = (log st).countP Event.isRaw + (st.workers.map (Worker.countedAs true)).sum
  started_le : st.started ≤ c.maxPages
  admitting_lt : st.reader.admitting = true → st.started < c.maxPages
  halt_why : st.halt = true → st.clientGone = true ∨ st.status.isOk = false ∨
    (st.options.abortOnError = true ∧ 0 < st.failed)
  dropped_halt : st.dropped ≠ [] → st.halt = true
  halting_gone : st.writer = .halting → st.clientGone = true
  writer_exit : st.writer = .exited → st.clientGone = true ∨
    (st.eventsClosed = true ∧ st.events = [])
  jobs_closed : st.jobsClosed = st.reader.closedJobs
  events_closed : st.eventsClosed = st.reader.closedEvents
  joined_writer : st.reader.joinedWriter = true → st.writer = .exited
  no_complete : ∀ e ∈ hand st.writer ++ st.events, e.isComplete = false
  wire_open : (∀ s, st.reader = .returned s → s.isOk = false) → ∀ e ∈ st.wire, e.isComplete = false
  returned_final : ∀ s, st.reader = .returned s → ∃ b, s = finalStatus st b
  returned_ok : ∀ s, st.reader = .returned s → s.isOk = true →
    ∃ pre, st.wire = pre ++ [.complete st.started st.ok st.failed] ∧ ∀ e ∈ pre, e.isComplete = false

theorem effectiveConcurrency_pos (c : Config) (o : Options) : 1 ≤ effectiveConcurrency c o := by
  have := c.concurrency_ok
  unfold effectiveConcurrency
  split <;> omega

theorem inv_init (c : Config) (o : Options) : Inv c (Stream.init c o) := by
  have hn := effectiveConcurrency_pos c o
  have hz : ∀ f : Worker → Nat, f .pop = 0 →
      ((List.replicate (effectiveConcurrency c o) Worker.pop).map f).sum = 0 := by
    intro f hf; simp [hf]
  have hmem : ∀ w ∈ (Stream.init c o).workers, w = .pop := fun w hw => List.eq_of_mem_replicate hw
  exact {
    started_log := rfl
    pages := fun i => by
      simp [pendingCount, Stream.init, Reader.pending, Worker.pending, log, hand, terminals]
    ordered := ordered_nil
    event_ok := fun w hw => by rw [hmem w hw]; trivial
    ok_eq := by simpa [Stream.init, log, hand] using (hz _ rfl).symm
    failed_eq := by simpa [Stream.init, log, hand] using (hz _ rfl).symm
    started_le := Nat.zero_le _
    admitting_lt := fun h => by cases h
    halt_why := fun h => by cases h
    dropped_halt := fun h => absurd rfl h
    pushed_failed := fun j n h => by cases hmem _ h
    halting_gone := fun h => by cases h
    writer_exit := fun h => by cases h
    worker_exit := fun h => by cases hmem _ h
    workers_ne := by simp [Stream.init]; omega
    jobs_closed := rfl
    events_closed := rfl
    joined := fun h => by cases h
    joined_writer := fun h => by cases h
    no_complete := fun e he => by simp [Stream.init, hand] at he
    wire_open := fun _ e he => by simp [Stream.init] at he
    returned_final := fun s h => by cases h
    returned_ok := fun s h => by cases h }

/-! ## The reader keeps it -/

/-- Still on its way to `jobs.close()`, the reader has closed and joined
nothing. -/
theorem closed_of_open {r : Reader} (h : r.closedJobs = false) :
    r.closedEvents = false ∧ r.joinedWriter = false ∧ ∀ s, r ≠ .returned s := by
  cases r <;> simp_all [Reader.closedJobs, Reader.closedEvents, Reader.joinedWriter]

/-- The reader moved on before `jobs.close()` and touched nothing the
protocol looks at but its own status. -/
theorem Inv.reader_moves {c : Config} {st : Stream} (h : Inv c st) {r : Reader} {b : Budget Tid}
    {s : Status} {saw : Bool} (hj : st.reader.closedJobs = false) (hp : st.reader.pending = [])
    (hj' : r.closedJobs = false) (hp' : r.pending = [])
    (ha : r.admitting = true → st.started < c.maxPages)
    (hs : st.status.isOk = false → s.isOk = false) :
    Inv c { st with reader := r, streamBytes := b, status := s, sawInput := saw } := by
  obtain ⟨he, -, hr⟩ := closed_of_open hj
  obtain ⟨he', hw', hr'⟩ := closed_of_open hj'
  exact { h with
    pages := fun i => by simpa [pendingCount, log, hp, hp'] using h.pages i
    admitting_lt := ha
    halt_why := fun hh => by
      rcases h.halt_why hh with h1 | h1 | h1
      · exact .inl h1
      · exact .inr (.inl (hs h1))
      · exact .inr (.inr h1)
    jobs_closed := by simpa [hj, hj'] using h.jobs_closed
    events_closed := by simpa [he, he'] using h.events_closed
    joined := fun e => by simp [he'] at e
    joined_writer := fun e => by simp [hw'] at e
    wire_open := fun _ => h.wire_open fun s e => absurd e (hr s)
    returned_final := fun s e => absurd e (hr' s)
    returned_ok := fun s e => absurd e (hr' s) }

theorem refusePage_none {c : Config} {n : Nat} {image : PageImage}
    (h : refusePage c n image = none) : n < c.maxPages := by
  unfold refusePage at h
  repeat' split at h
  all_goals first | omega | cases h

theorem refusePage_not_ok {c : Config} {n : Nat} {image : PageImage} {s : Status}
    (h : refusePage c n image = some s) : s.isOk = false := by
  unfold refusePage at h
  repeat' split at h
  all_goals cases h
  all_goals rfl

theorem Inv.read {c : Config} {k : Nat} {st : Stream} (h : Inv c st) (hr : st.reader = .read)
    (request : Option Request) : Inv c (readRequest c k st request) := by
  have hj : st.reader.closedJobs = false := by rw [hr]; rfl
  have hp : st.reader.pending = [] := by rw [hr]; rfl
  cases request with
  | none => exact h.reader_moves hj hp rfl rfl (fun e => by cases e) id
  | some q =>
    cases q with
    | options => exact h.reader_moves hj hp rfl rfl (fun e => by cases e) fun _ => rfl
    | pdfChunk => exact h.reader_moves hj hp rfl rfl (fun e => by cases e) fun _ => rfl
    | empty => exact h.reader_moves hj hp rfl rfl (fun e => by cases e) id
    | pageImage image =>
      simp only [readRequest]
      split
      · rename_i s hs
        exact h.reader_moves hj hp rfl rfl (fun e => by cases e) fun _ => refusePage_not_ok hs
      · rename_i hs
        exact h.reader_moves hj hp rfl rfl (fun _ => refusePage_none hs) id

/-- `started++` and the push of the page's `PageStarted`. -/
theorem Inv.starting {c : Config} {st : Stream} (h : Inv c st) {image : PageImage} {n p : Nat}
    (hr : st.reader = .starting image n p) :
    Inv c { st with
      started := incr st.started
      events := st.events ++ [.pageStarted st.started image.pageNo]
      reader := .push ⟨st.started, image, n, p⟩ } := by
  have hlt := h.admitting_lt (by rw [hr]; rfl)
  have hmax := c.maxPages_ok
  have hinc : incr st.started = st.started + 1 := incr_eq (by omega)
  rw [hinc]
  have hlog : log { st with
      started := st.started + 1
      events := st.events ++ [Event.pageStarted st.started image.pageNo]
      reader := Reader.push ⟨st.started, image, n, p⟩ } =
      log st ++ [.pageStarted st.started image.pageNo] := by simp [log]
  exact { h with
    started_log := by
      rw [hlog, starteds_append, h.started_log, List.range_succ]; rfl
    pages := fun i => by
      have := h.pages i
      rw [hlog]
      simp only [pendingCount, hr, Reader.pending, terminals_append, List.range_succ,
        List.count_append, List.count_nil, Nat.zero_add] at this ⊢
      have ht : terminals [Event.pageStarted st.started image.pageNo] = [] := rfl
      rw [ht, List.count_nil]
      omega
    ordered := by rw [hlog]; exact ordered_snoc h.ordered fun i hi => by cases hi
    ok_eq := by rw [hlog, List.countP_append]; simpa [Event.isDocument] using h.ok_eq
    failed_eq := by rw [hlog, List.countP_append]; simpa [Event.isRaw] using h.failed_eq
    started_le := hlt
    admitting_lt := fun e => by cases e
    writer_exit := fun e => by
      rcases h.writer_exit e with h1 | ⟨h1, -⟩
      · exact .inl h1
      · rw [h.events_closed, hr] at h1; cases h1
    jobs_closed := by rw [h.jobs_closed, hr]; rfl
    events_closed := by rw [h.events_closed, hr]; rfl
    joined := fun e => by cases e
    joined_writer := fun e => by cases e
    no_complete := fun e he => by
      rw [← List.append_assoc] at he
      rcases List.mem_append.1 he with he | he
      · exact h.no_complete e he
      · rw [List.mem_singleton.1 he]; rfl
    wire_open := fun _ => h.wire_open fun s e => by rw [hr] at e; cases e
    returned_final := fun s e => by cases e
    returned_ok := fun s e => by cases e }

theorem Inv.push {c : Config} {st : Stream} (h : Inv c st) {job : Job}
    (hr : st.reader = .push job) :
    Inv c { st with jobs := st.jobs ++ [job], reader := .check } := by
  exact { h with
    pages := fun i => by
      have := h.pages i
      simp only [pendingCount, hr, Reader.pending, List.map_append, List.map_cons, List.map_nil,
        List.count_append, List.count_nil, log] at this ⊢
      omega
    admitting_lt := fun e => by cases e
    worker_exit := fun e => by
      have := (h.worker_exit e).1
      rw [h.jobs_closed, hr] at this; cases this
    jobs_closed := by rw [h.jobs_closed, hr]; rfl
    events_closed := by rw [h.events_closed, hr]; rfl
    joined := fun e => by cases e
    joined_writer := fun e => by cases e
    wire_open := fun _ => h.wire_open fun s e => by rw [hr] at e; cases e
    returned_final := fun s e => by cases e
    returned_ok := fun s e => by cases e }

/-- Leaving the read loop: a bad page raises `halt`. -/
theorem Inv.leave {c : Config} {st : Stream} (h : Inv c st) (hr : st.reader = .leave) :
    Inv c { st with halt := st.halt || !st.status.isOk, reader := .closeJobs } := by
  exact { h with
    pages := fun i => by
      have := h.pages i
      simpa [pendingCount, hr, Reader.pending, log] using this
    admitting_lt := fun e => by cases e
    halt_why := fun e => by
      simp only [Bool.or_eq_true, Bool.not_eq_true'] at e
      rcases e with e | e
      · exact h.halt_why e
      · exact .inr (.inl e)
    dropped_halt := fun e => by simp [h.dropped_halt e]
    jobs_closed := by rw [h.jobs_closed, hr]; rfl
    events_closed := by rw [h.events_closed, hr]; rfl
    joined := fun e => by cases e
    joined_writer := fun e => by cases e
    wire_open := fun _ => h.wire_open fun s e => by rw [hr] at e; cases e
    returned_final := fun s e => by cases e
    returned_ok := fun s e => by cases e }

theorem Inv.closeJobs {c : Config} {st : Stream} (h : Inv c st) (hr : st.reader = .closeJobs) :
    Inv c { st with jobsClosed := true, reader := .joinWorkers } := by
  exact { h with
    pages := fun i => by
      have := h.pages i
      simpa [pendingCount, hr, Reader.pending, log] using this
    admitting_lt := fun e => by cases e
    worker_exit := fun e => by
      have := (h.worker_exit e).1
      rw [h.jobs_closed, hr] at this; cases this
    jobs_closed := rfl
    events_closed := by rw [h.events_closed, hr]; rfl
    joined := fun e => by cases e
    joined_writer := fun e => by cases e
    wire_open := fun _ => h.wire_open fun s e => by rw [hr] at e; cases e
    returned_final := fun s e => by cases e
    returned_ok := fun s e => by cases e }

theorem Inv.joinWorkers {c : Config} {st : Stream} (h : Inv c st) (hr : st.reader = .joinWorkers)
    (hall : ∀ w ∈ st.workers, w = .exited) :
    Inv c { st with eventsClosed := true, reader := .joinWriter } := by
  exact { h with
    pages := fun i => by
      have := h.pages i
      simpa [pendingCount, hr, Reader.pending, log] using this
    admitting_lt := fun e => by cases e
    writer_exit := fun e => by
      rcases h.writer_exit e with h1 | ⟨-, h2⟩
      · exact .inl h1
      · exact .inr ⟨rfl, h2⟩
    jobs_closed := by rw [h.jobs_closed, hr]; rfl
    events_closed := rfl
    joined := fun _ => hall
    joined_writer := fun e => by cases e
    wire_open := fun _ => h.wire_open fun s e => by rw [hr] at e; cases e
    returned_final := fun s e => by cases e
    returned_ok := fun s e => by cases e }

theorem Inv.joinWriter {c : Config} {st : Stream} (h : Inv c st) (hr : st.reader = .joinWriter)
    (hw : st.writer = .exited) : Inv c { st with reader := .finish } := by
  exact { h with
    pages := fun i => by
      have := h.pages i
      simpa [pendingCount, hr, Reader.pending, log] using this
    admitting_lt := fun e => by cases e
    jobs_closed := by rw [h.jobs_closed, hr]; rfl
    events_closed := by rw [h.events_closed, hr]; rfl
    joined := fun _ => h.joined (by rw [hr]; rfl)
    joined_writer := fun _ => hw
    wire_open := fun _ => h.wire_open fun s e => by rw [hr] at e; cases e
    returned_final := fun s e => by cases e
    returned_ok := fun s e => by cases e }

theorem finalStatus_congr {st st' : Stream} {b : Bool} (h1 : st'.status = st.status)
    (h2 : st'.clientGone = st.clientGone) (h3 : st'.sawInput = st.sawInput)
    (h4 : st'.options = st.options) (h5 : st'.failed = st.failed) :
    finalStatus st' b = finalStatus st b := by
  simp only [finalStatus, h1, h2, h3, h4, h5]

theorem finalStatus_ok {st : Stream} {b : Bool} (h : (finalStatus st b).isOk = true) :
    st.status.isOk = true ∧ st.clientGone = false ∧
      ¬ (st.options.abortOnError = true ∧ 0 < st.failed) := by
  unfold finalStatus at h
  split at h
  · rename_i hs; simp at hs; rw [hs] at h; cases h
  · rename_i hs
    split at h
    · cases h
    · rename_i hg
      split at h
      · cases h
      · split at h
        · cases h
        · rename_i ha
          simp at hs hg ha
          refine ⟨hs, hg.1, fun ⟨h1, h2⟩ => ?_⟩
          have := ha h1; omega

/-- On an OK return nothing is left in the channel or the writer's hand. -/
theorem Inv.drained {c : Config} {st : Stream} (h : Inv c st)
    (hr : st.reader.joinedWriter = true) (hg : st.clientGone = false) :
    st.writer = .exited ∧ st.events = [] := by
  have hw := h.joined_writer hr
  refine ⟨hw, ?_⟩
  rcases h.writer_exit hw with h1 | ⟨-, h1⟩
  · rw [hg] at h1; cases h1
  · exact h1

/-- The return, with the trailer first when the status is OK. -/
theorem Inv.finish {c : Config} {st : Stream} (h : Inv c st) (hr : st.reader = .finish) (b : Bool) :
    Inv c (finishStream st b) := by
  have hj : st.reader.joinedWriter = true := by rw [hr]; rfl
  have hopen := h.wire_open fun s e => by rw [hr] at e; cases e
  have hfinal : finalStatus (finishStream st b) b = finalStatus st b :=
    finalStatus_congr rfl rfl rfl rfl rfl
  -- what is pushed behind the log: the trailer, which is no page's event, or nothing
  have hlog : ∃ l, log (finishStream st b) = log st ++ l ∧ starteds l = [] ∧ terminals l = [] ∧
      l.countP Event.isDocument = 0 ∧ l.countP Event.isRaw = 0 ∧ Ordered (log st ++ l) := by
    by_cases hok : (finalStatus st b).isOk = true
    · obtain ⟨hw, he⟩ := h.drained hj (finalStatus_ok hok).2.1
      refine ⟨[.complete st.started st.ok st.failed], ?_, rfl, rfl, rfl, rfl,
        ordered_snoc h.ordered fun i hi => by cases hi⟩
      simp [log, finishStream, hok, hw, he, hand]
    · exact ⟨[], by simp [log, finishStream, hok], rfl, rfl, rfl, rfl, by simpa using h.ordered⟩
  obtain ⟨l, hl, h1, h2, h3, h4, h5⟩ := hlog
  exact { h with
    started_log := by rw [hl, starteds_append, h1, List.append_nil]; exact h.started_log
    pages := fun i => by
      rw [hl, terminals_append, h2, List.append_nil]
      simpa [pendingCount, hr, Reader.pending, finishStream] using h.pages i
    ordered := by rw [hl]; exact h5
    ok_eq := by rw [hl, List.countP_append, h3]; exact h.ok_eq
    failed_eq := by rw [hl, List.countP_append, h4]; exact h.failed_eq
    admitting_lt := fun e => by cases e
    jobs_closed := by
      have := h.jobs_closed
      rw [hr] at this; exact this
    events_closed := by
      have := h.events_closed
      rw [hr] at this; exact this
    joined := fun _ => h.joined (by rw [hr]; rfl)
    joined_writer := fun _ => h.joined_writer hj
    wire_open := fun hne => by
      have hok : (finalStatus st b).isOk = false := hne _ rfl
      simpa [finishStream, hok] using hopen
    returned_final := fun s e => by
      simp only [finishStream, Reader.returned.injEq] at e
      exact ⟨b, by rw [hfinal]; exact e.symm⟩
    returned_ok := fun s e hok => by
      simp only [finishStream, Reader.returned.injEq] at e
      subst e
      exact ⟨st.wire, by simp [finishStream, hok], hopen⟩ }

theorem inv_readerStep {c : Config} {k : Nat} {sh sh' : Shared} {st st' : Stream} {a : RAct}
    (h : Inv c st) (hs : readerStep c k sh st a = some (sh', st')) : Inv c st' := by
  cases readerStep_cases hs with
  | read request hr => exact h.read hr request
  | streamGranted image n b hr =>
    exact h.reader_moves (by rw [hr]; rfl) (by rw [hr]; rfl) rfl rfl
      (fun _ => h.admitting_lt (by rw [hr]; rfl)) id
  | streamAbandoned image b hr =>
    exact h.reader_moves (by rw [hr]; rfl) (by rw [hr]; rfl) rfl rfl (fun e => by cases e) id
  | joinLine image n hr =>
    exact h.reader_moves (by rw [hr]; rfl) (by rw [hr]; rfl) rfl rfl
      (fun _ => h.admitting_lt (by rw [hr]; rfl)) id
  | processGranted image n p b hr =>
    exact h.reader_moves (by rw [hr]; rfl) (by rw [hr]; rfl) rfl rfl
      (fun _ => h.admitting_lt (by rw [hr]; rfl)) id
  | processAbandoned image n b hr =>
    exact h.reader_moves (by rw [hr]; rfl) (by rw [hr]; rfl) rfl rfl (fun e => by cases e) id
  | dropStream n hr =>
    exact h.reader_moves (by rw [hr]; rfl) (by rw [hr]; rfl) rfl rfl (fun e => by cases e) id
  | starting image n p hr => exact h.starting hr
  | push job hr => exact h.push hr
  | silent hm =>
    cases hm with
    | again hr =>
      exact h.reader_moves (by rw [hr]; rfl) (by rw [hr]; rfl) rfl rfl (fun e => by cases e) id
    | halted hr =>
      exact h.reader_moves (by rw [hr]; rfl) (by rw [hr]; rfl) rfl rfl (fun e => by cases e) id
    | leave hr => exact h.leave hr
    | closeJobs hr => exact h.closeJobs hr
    | joinWorkers hr hall => exact h.joinWorkers hr hall
    | joinWriter hr hw => exact h.joinWriter hr hw
    | finish cancelled hr => exact h.finish hr cancelled

/-! ## The workers keep it -/

theorem mem_setWorker {st : Stream} {i : Nat} {w x : Worker} (h : x ∈ (setWorker st i w).workers) :
    x ∈ st.workers ∨ x = w := mem_set_cases h

/-- A worker that can still step keeps the reader before `events.close()`. -/
theorem Inv.not_joined {c : Config} {st : Stream} (h : Inv c st) {w : Worker}
    (hm : w ∈ st.workers) (hx : w ≠ .exited) :
    st.reader.closedEvents = false ∧ st.reader.joinedWriter = false ∧
      ∀ s, st.reader ≠ .returned s := by
  have he : st.reader.closedEvents = false := by
    cases hc : st.reader.closedEvents
    · rfl
    · exact absurd (h.joined hc w hm) hx
  refine ⟨he, ?_, ?_⟩
  · cases hj : st.reader.joinedWriter
    · rfl
    · rw [closedEvents_of_joinedWriter hj] at he; cases he
  · intro s hs; rw [hs] at he; cases he

/-- What every worker's move from `w` to `w'` needs of the two. -/
structure Moved (w w' : Worker) : Prop where
  from_live : w ≠ .exited
  to_live : w' ≠ .exited
  event : w.EventOk → w'.EventOk

/-- Worker `i` moved from `w` to `w'`; no other worker did. -/
theorem WorkersInv.moved {c : Config} {st st' : Stream} (h : Inv c st) {i : Nat} {w w' : Worker}
    (hi : st.workers[i]? = some w) (hm : Moved w w') (h1 : st'.workers = st.workers.set i w')
    (h2 : st'.jobsClosed = st.jobsClosed) (h3 : st.jobs = [] → st'.jobs = [])
    (h4 : st'.reader = st.reader) (h5 : 0 < st.failed → 0 < st'.failed)
    (h6 : ∀ j n, w' = .pushed j n true → 0 < st'.failed) : WorkersInv st' := by
  have hmem := List.mem_of_getElem? hi
  have hcase : ∀ v ∈ st'.workers, v ∈ st.workers ∨ v = w' := fun v hv => by
    rw [h1] at hv; exact mem_set_cases hv
  refine ⟨fun v hv => ?_, fun j n hv => ?_, fun hv => ?_, ?_, fun e => ?_⟩
  · rcases hcase v hv with hv | rfl
    · exact h.event_ok v hv
    · exact hm.event (h.event_ok w hmem)
  · rcases hcase _ hv with hv | hv
    · exact h5 (h.pushed_failed j n hv)
    · exact h6 j n hv.symm
  · rcases hcase _ hv with hv | hv
    · obtain ⟨e1, e2⟩ := h.worker_exit hv
      exact ⟨h2.trans e1, h3 e2⟩
    · exact absurd hv.symm hm.to_live
  · rw [h1]; simpa using h.workers_ne
  · rw [h4, (h.not_joined hmem hm.from_live).1] at e; cases e

/-- Worker `i` moved without touching the page it holds, the counters or
the channels. -/
theorem Inv.worker_moves {c : Config} {st : Stream} (h : Inv c st) {i : Nat} {w w' : Worker}
    {b : Budget Tid} (hi : st.workers[i]? = some w) (hm : Moved w w')
    (hp : w'.pending = w.pending) (hc : ∀ raw, w'.countedAs raw = w.countedAs raw)
    (hf : ∀ j n, w' ≠ .pushed j n true) :
    Inv c { setWorker st i w' with streamBytes := b } := by
  exact { h with
    toWorkersInv := WorkersInv.moved h hi hm rfl rfl id rfl id fun j n e => absurd e (hf j n)
    pages := fun x => by
      have h1 := sum_map_set (fun v : Worker => v.pending.count x) st.workers i w w' hi
      have h2 := h.pages x
      simp only [hp] at h1
      simp only [pendingCount, setWorker, log] at h2 ⊢
      omega
    ok_eq := by
      have h1 := sum_map_set (Worker.countedAs false) st.workers i w w' hi
      have h2 := h.ok_eq
      have h3 := hc false
      simp only [setWorker, log] at h2 ⊢
      omega
    failed_eq := by
      have h1 := sum_map_set (Worker.countedAs true) st.workers i w w' hi
      have h2 := h.failed_eq
      have h3 := hc true
      simp only [setWorker, log] at h2 ⊢
      omega }

/-- A page is dropped: its worker moves on without an event, under `halt`. -/
theorem Inv.drop {c : Config} {st : Stream} (h : Inv c st) {i : Nat} {w w' : Worker} {idx : Nat}
    (hi : st.workers[i]? = some w) (hm : Moved w w') (hp : w.pending = [idx])
    (hp' : w'.pending = [])
    (hc : ∀ raw, w'.countedAs raw = w.countedAs raw) (hf : ∀ j n, w' ≠ .pushed j n true)
    (hh : st.halt = true) :
    Inv c { setWorker st i w' with dropped := st.dropped ++ [idx] } := by
  exact { h with
    toWorkersInv := WorkersInv.moved h hi hm rfl rfl id rfl id fun j n e => absurd e (hf j n)
    pages := fun x => by
      have h1 := sum_map_set (fun v : Worker => v.pending.count x) st.workers i w w' hi
      have h2 := h.pages x
      simp only [hp, hp', List.count_nil] at h1
      simp only [pendingCount, setWorker, List.count_append, log] at h2 ⊢
      omega
    ok_eq := by
      have h1 := sum_map_set (Worker.countedAs false) st.workers i w w' hi
      have h2 := h.ok_eq
      have h3 := hc false
      simp only [setWorker, log] at h2 ⊢
      omega
    failed_eq := by
      have h1 := sum_map_set (Worker.countedAs true) st.workers i w w' hi
      have h2 := h.failed_eq
      have h3 := hc true
      simp only [setWorker, log] at h2 ⊢
      omega
    dropped_halt := fun _ => hh }

/-- A worker takes the next job. -/
theorem Inv.pop {c : Config} {st : Stream} (h : Inv c st) {i : Nat} {job : Job} {rest : List Job}
    (hi : st.workers[i]? = some .pop) (hj : st.jobs = job :: rest) :
    Inv c { setWorker st i (.got job) with jobs := rest } := by
  have hm : Moved .pop (.got job) := ⟨by simp, by simp, fun _ => trivial⟩
  exact { h with
    toWorkersInv := WorkersInv.moved h hi hm rfl rfl (fun e => by rw [hj] at e; cases e) rfl id
      fun j n e => by cases e
    pages := fun x => by
      have h1 := sum_map_set (fun v : Worker => v.pending.count x) st.workers i .pop (.got job) hi
      have h2 := h.pages x
      have hp : (Worker.got job).pending = [job.idx] := rfl
      have hp' : Worker.pop.pending = [] := rfl
      simp only [hp, hp', List.count_cons, List.count_nil] at h1
      simp only [pendingCount, setWorker, hj, List.map_cons, log, List.count_cons] at h2 ⊢
      omega
    ok_eq := by
      have h1 := sum_map_set (Worker.countedAs false) st.workers i .pop (.got job) hi
      have h2 := h.ok_eq
      simp only [Worker.countedAs] at h1
      simp only [setWorker, log] at h2 ⊢
      omega
    failed_eq := by
      have h1 := sum_map_set (Worker.countedAs true) st.workers i .pop (.got job) hi
      have h2 := h.failed_eq
      simp only [Worker.countedAs] at h1
      simp only [setWorker, log] at h2 ⊢
      omega }

/-- A worker finds the channel closed and drained. -/
theorem Inv.exit {c : Config} {st : Stream} (h : Inv c st) {i : Nat}
    (hi : st.workers[i]? = some .pop) (hj : st.jobs = []) (hcl : st.jobsClosed = true) :
    Inv c (setWorker st i .exited) := by
  have hmem := List.mem_of_getElem? hi
  have he := (h.not_joined hmem (by simp)).1
  have hz : ∀ f : Worker → Nat, f .pop = 0 → f .exited = 0 →
      ((st.workers.set i .exited).map f).sum = (st.workers.map f).sum := by
    intro f h1 h2
    have := sum_map_set f st.workers i .pop .exited hi
    omega
  exact { h with
    event_ok := fun v hv => by
      rcases mem_setWorker hv with hv | rfl
      · exact h.event_ok v hv
      · trivial
    pushed_failed := fun j n hv => by
      rcases mem_setWorker hv with hv | hv
      · exact h.pushed_failed j n hv
      · cases hv
    worker_exit := fun _ => ⟨hcl, hj⟩
    workers_ne := by simpa [setWorker] using h.workers_ne
    joined := fun e => by
      have e' : st.reader.closedEvents = true := e
      rw [he] at e'; cases e'
    pages := fun x => by
      have h1 := hz (fun v : Worker => v.pending.count x) rfl rfl
      have h2 := h.pages x
      simp only [pendingCount, setWorker, log] at h2 ⊢
      omega
    ok_eq := by
      have h1 := hz (Worker.countedAs false) rfl rfl
      have h2 := h.ok_eq
      simp only [setWorker, log] at h2 ⊢
      omega
    failed_eq := by
      have h1 := hz (Worker.countedAs true) rfl rfl
      have h2 := h.failed_eq
      simp only [setWorker, log] at h2 ⊢
      omega }

/-- All pages together: pending, answered and dropped ones are as many as
were started. -/
theorem Inv.total {c : Config} {st : Stream} (h : Inv c st) :
    st.reader.pending.length + st.jobs.length + (st.workers.map fun w => w.pending.length).sum +
      (terminals (log st)).length + st.dropped.length = st.started := by
  have hcount : ∀ (ws : List Worker) (x : Nat),
      (ws.map fun w => w.pending.count x).sum = (ws.flatMap Worker.pending).count x := by
    intro ws x; rw [List.count_flatMap]; rfl
  have hperm : (st.reader.pending ++ st.jobs.map Job.idx ++ st.workers.flatMap Worker.pending ++
      terminals (log st) ++ st.dropped).Perm (List.range st.started) := by
    rw [List.perm_iff_count]
    intro x
    have := h.pages x
    simp only [pendingCount, hcount] at this
    simp only [List.count_append]
    omega
  have := hperm.length_eq
  simpa [List.length_flatMap, Nat.add_assoc] using this

theorem countedAs_le (raw : Bool) (w : Worker) : w.countedAs raw ≤ w.pending.length := by
  cases w with
  | counted j n e =>
    simp only [Worker.countedAs, Worker.pending, List.length_cons, List.length_nil]
    split <;> omega
  | _ => exact Nat.zero_le _

/-- Every terminal event is a document or a raw page. -/
theorem terminals_length (l : List Event) :
    (terminals l).length = l.countP Event.isDocument + l.countP Event.isRaw := by
  induction l with
  | nil => rfl
  | cons e l ih =>
    have hcons : terminals (e :: l) = terminals [e] ++ terminals l := terminals_append [e] l
    rw [hcons, List.length_append, ih, List.countP_cons, List.countP_cons]
    cases e <;> simp only [terminals, Event.terminal?, Event.isDocument, Event.isRaw,
      List.filterMap_cons, List.filterMap_nil, List.length_cons, List.length_nil, if_true, if_false,
      Bool.false_eq_true] <;> omega

/-- The counter goes up: it counts a page whose event the worker still
holds. -/
theorem Inv.count {c : Config} {st : Stream} (h : Inv c st) {i : Nat} {job : Job} {slot : Nat}
    {event : Event} (hi : st.workers[i]? = some (.converted job slot event)) :
    Inv c { setWorker st i (.counted job slot event) with
      ok := if event.isRaw then st.ok else incr st.ok
      failed := if event.isRaw then incr st.failed else st.failed } := by
  have hm : Moved (.converted job slot event) (.counted job slot event) :=
    ⟨by simp, by simp, fun e => e⟩
  have hsum := fun raw => sum_map_set (Worker.countedAs raw) st.workers i
    (.converted job slot event) (.counted job slot event) hi
  -- no wrap: the counted pages are among the started ones
  have hbound : ∀ raw, (terminals (log st)).length +
      ((st.workers.set i (.counted job slot event)).map (Worker.countedAs raw)).sum ≤
        st.started := by
    intro raw
    have h1 := h.total
    have h2 := sum_map_set (fun w : Worker => w.pending.length) st.workers i
      (.converted job slot event) (.counted job slot event) hi
    have h3 : ((st.workers.set i (Worker.counted job slot event)).map (Worker.countedAs raw)).sum ≤
        ((st.workers.set i (Worker.counted job slot event)).map fun w => w.pending.length).sum :=
      List.sum_le_sum fun w _ => countedAs_le raw w
    have hp : (Worker.counted job slot event).pending.length = 1 := rfl
    have hp' : (Worker.converted job slot event).pending.length = 1 := rfl
    simp only [hp, hp'] at h2
    omega
  have hterm := terminals_length (log st)
  have hmax := c.maxPages_ok
  have hst := h.started_le
  have hok := h.ok_eq
  have hfailed := h.failed_eq
  have hb0 := hbound false
  have hb1 := hbound true
  have hs0 := hsum false
  have hs1 := hsum true
  simp only [Worker.countedAs, Nat.add_zero] at hs0 hs1
  have hfailed' : st.failed ≤ if event.isRaw then incr st.failed else st.failed := by
    split
    · rename_i hr
      simp only [hr, if_true] at hs1
      rw [incr_eq (by omega)]; omega
    · exact Nat.le_refl _
  exact { h with
    toWorkersInv := WorkersInv.moved h hi hm rfl rfl id rfl (fun e => Nat.lt_of_lt_of_le e hfailed')
      fun j n e => by cases e
    pages := fun x => by
      have h1 := sum_map_set (fun v : Worker => v.pending.count x) st.workers i _
        (.counted job slot event) hi
      have h2 := h.pages x
      have hp : (Worker.counted job slot event).pending =
        (Worker.converted job slot event).pending := rfl
      simp only [hp] at h1
      simp only [pendingCount, setWorker, log] at h2 ⊢
      omega
    ok_eq := by
      simp only [setWorker, log] at hok hterm ⊢
      cases hr : event.isRaw <;>
        simp only [hr, if_true, if_false, Bool.false_eq_true, Bool.true_eq_false] at hs0 ⊢
      · rw [incr_eq (by simp only [log] at hb0; omega)]; omega
      · omega
    failed_eq := by
      simp only [setWorker, log] at hfailed hterm ⊢
      cases hr : event.isRaw <;>
        simp only [hr, if_true, if_false, Bool.false_eq_true] at hs1 ⊢
      · omega
      · rw [incr_eq (by simp only [log] at hb1; omega)]; omega
    halt_why := fun e => by
      rcases h.halt_why e with h1 | h1 | ⟨h1, h2⟩
      · exact .inl h1
      · exact .inr (.inl h1)
      · exact .inr (.inr ⟨h1, Nat.lt_of_lt_of_le h2 hfailed'⟩)
    returned_final := fun s e =>
      absurd e ((h.not_joined (List.mem_of_getElem? hi) (by simp)).2.2 s)
    returned_ok := fun s e =>
      absurd e ((h.not_joined (List.mem_of_getElem? hi) (by simp)).2.2 s) }

/-- A page some worker holds has been started. -/
theorem Inv.started_of_pending {c : Config} {st : Stream} (h : Inv c st) {w : Worker} {idx : Nat}
    (hm : w ∈ st.workers) (hp : w.pending = [idx]) : idx ∈ starteds (log st) := by
  have h1 := h.pages idx
  have h2 : w.pending.count idx ≤ (st.workers.map fun w => w.pending.count idx).sum :=
    le_sum_map (fun w : Worker => w.pending.count idx) hm
  rw [hp, List.count_singleton_self] at h2
  rw [h.started_log]
  apply List.count_pos_iff.1
  simp only [pendingCount] at h1
  omega

/-- The terminal event goes out: the page is answered. -/
theorem Inv.answer {c : Config} {st : Stream} (h : Inv c st) {i : Nat} {job : Job} {slot : Nat}
    {event : Event} (hi : st.workers[i]? = some (.counted job slot event)) :
    Inv c { setWorker st i (.pushed job slot event.isRaw) with
      events := st.events ++ [event] } := by
  have hmem := List.mem_of_getElem? hi
  obtain ⟨hterm, hstart, hcomp, hdoc⟩ : (Worker.counted job slot event).EventOk := h.event_ok _ hmem
  obtain ⟨hclosed, hjoined, hret⟩ := h.not_joined hmem (by simp)
  have hm : Moved (.counted job slot event) (.pushed job slot event.isRaw) :=
    ⟨by simp, by simp, fun _ => trivial⟩
  have hlog : log { setWorker st i (.pushed job slot event.isRaw) with
      events := st.events ++ [event] } = log st ++ [event] := by simp [log, setWorker]
  have hs1 : starteds [event] = [] := by simp [starteds, hstart]
  have ht1 : terminals [event] = [job.idx] := by simp [terminals, hterm]
  have hsum := fun raw => sum_map_set (Worker.countedAs raw) st.workers i _
    (.pushed job slot event.isRaw) hi
  have hs := fun raw => le_sum_map (Worker.countedAs raw) hmem
  simp only [Worker.countedAs] at hsum hs
  exact { h with
    toWorkersInv := WorkersInv.moved h hi hm rfl rfl id rfl id fun j n e => by
      -- a failed page was counted before its event went out
      simp only [Worker.pushed.injEq] at e
      have h1 := hs true
      have h2 := h.failed_eq
      simp only [e.2.2, if_true] at h1
      show 0 < st.failed
      omega
    started_log := by rw [hlog, starteds_append, hs1, List.append_nil]; exact h.started_log
    pages := fun x => by
      have h1 := sum_map_set (fun v : Worker => v.pending.count x) st.workers i _
        (.pushed job slot event.isRaw) hi
      have h2 := h.pages x
      have hp : (Worker.pushed job slot event.isRaw).pending = [] := rfl
      have hp' : (Worker.counted job slot event).pending = [job.idx] := rfl
      simp only [hp, hp', List.count_nil] at h1
      rw [hlog, terminals_append, ht1, List.count_append]
      simp only [pendingCount, setWorker] at h2 ⊢
      omega
    ordered := by
      rw [hlog]
      refine ordered_snoc h.ordered fun x hx => ?_
      rw [hterm, Option.some.injEq] at hx; subst hx
      exact h.started_of_pending hmem rfl
    ok_eq := by
      have h1 := hsum false
      have h2 := h.ok_eq
      rw [hlog, List.countP_append]
      simp only [setWorker, List.countP_cons, List.countP_nil, hdoc] at h1 ⊢
      cases hr : event.isRaw
      · simp only [hr, if_true, Bool.not_false] at h1 ⊢
        omega
      · simp only [hr, Bool.true_eq_false, Bool.not_true, Bool.false_eq_true, if_false] at h1 ⊢
        omega
    failed_eq := by
      have h1 := hsum true
      have h2 := h.failed_eq
      rw [hlog, List.countP_append]
      simp only [setWorker, List.countP_cons, List.countP_nil] at h1 ⊢
      omega
    writer_exit := fun e => by
      rcases h.writer_exit e with h1 | ⟨h1, -⟩
      · exact .inl h1
      · rw [h.events_closed, hclosed] at h1; cases h1
    no_complete := fun e he => by
      rw [← List.append_assoc] at he
      rcases List.mem_append.1 he with he | he
      · exact h.no_complete e he
      · rw [List.mem_singleton.1 he]; exact hcomp
    wire_open := fun _ => h.wire_open fun s e => absurd e (hret s)
    returned_final := fun s e => absurd e (hret s)
    returned_ok := fun s e => absurd e (hret s) }

/-- After the push the worker may raise `halt`. -/
theorem Inv.raise {c : Config} {st : Stream} (h : Inv c st) {i : Nat} {job : Job} {slot : Nat}
    {failedPage : Bool} (hi : st.workers[i]? = some (.pushed job slot failedPage)) :
    Inv c { setWorker st i (.dropSlot job slot) with
      halt := st.halt || (failedPage && st.options.abortOnError) } := by
  have hmem := List.mem_of_getElem? hi
  have hm : Moved (.pushed job slot failedPage) (.dropSlot job slot) :=
    ⟨by simp, by simp, fun _ => trivial⟩
  have hmoved := h.worker_moves (b := st.streamBytes) hi hm rfl (fun _ => rfl) fun j n e => by
    cases e
  exact { hmoved with
    halt_why := fun e => by
      simp only [Bool.or_eq_true, Bool.and_eq_true] at e
      rcases e with e | ⟨rfl, e⟩
      · exact h.halt_why e
      · exact .inr (.inr ⟨e, h.pushed_failed job slot hmem⟩)
    dropped_halt := fun e => by
      have := h.dropped_halt e
      simp [this] }

theorem eventOk_resultEvent {job : Job} {slot : Nat} {result : Result} {event : Event}
    (h : resultEvent job result = some event) : (Worker.converted job slot event).EventOk := by
  cases result with
  | nothing => cases h
  | _ => cases h; exact ⟨rfl, rfl, rfl, rfl⟩

theorem inv_workerStep {c : Config} {k i : Nat} {sh sh' : Shared} {st st' : Stream} {a : WAct}
    (h : Inv c st) (hs : workerStep k sh st i a = some (sh', st')) : Inv c st' := by
  unfold workerStep at hs
  split at hs
  · cases hs
  rename_i w hi
  have hmv : ∀ w' (b : Budget Tid), Moved w w' → w'.pending = w.pending →
      (∀ raw, w'.countedAs raw = w.countedAs raw) → (∀ j n, w' ≠ .pushed j n true) →
      Inv c { setWorker st i w' with streamBytes := b } :=
    fun w' b h1 h2 h3 h4 => h.worker_moves hi h1 h2 h3 h4
  obtain ⟨w', hm⟩ := workerAt_cases hs
  cases hm with
  | pop job rest hjobs => exact h.pop hi hjobs
  | abandoned job b hhalt =>
    exact h.drop hi ⟨by simp, by simp, fun _ => trivial⟩ rfl rfl (fun _ => rfl)
      (fun j n e => by cases e) hhalt
  | joinLine | granted | dropSlot | dropProcess =>
    exact hmv _ st.streamBytes ⟨by simp, by simp, fun _ => trivial⟩ rfl (fun _ => rfl)
      fun j n e => by cases e
  | dropStream job =>
    exact hmv _ _ ⟨by simp, by simp, fun _ => trivial⟩ rfl (fun _ => rfl) fun j n e => by cases e
  | silent hm =>
    cases hm with
    | exit hjobs hclosed => exact h.exit hi hjobs hclosed
    | skip job hhalt | cut job slot result hhalt =>
      exact h.drop hi ⟨by simp, by simp, fun _ => trivial⟩ rfl rfl (fun _ => rfl)
        (fun j n e => by cases e) hhalt
    | take job =>
      exact hmv _ st.streamBytes ⟨by simp, by simp, fun _ => trivial⟩ rfl (fun _ => rfl)
        fun j n e => by cases e
    | converted job slot result event hevent =>
      exact hmv _ st.streamBytes ⟨by simp, by simp, fun _ => eventOk_resultEvent hevent⟩ rfl
        (fun _ => rfl) fun j n e => by cases e
    | count job slot event => exact h.count hi
    | answer job slot event => exact h.answer hi
    | abort job slot failedPage => exact h.raise hi

/-! ## The writer keeps it -/

/-- The writer moved; what was pushed to the event channel is still all
there, in the same order. -/
theorem Inv.writer_moves {c : Config} {st : Stream} (h : Inv c st) {w : Writer}
    {ev wire : List Event}
    {gone hlt : Bool} (hlive : st.writer ≠ .exited)
    (hlog : wire ++ hand w ++ ev = log st)
    (hsub : ∀ e ∈ wire, e ∈ st.wire ∨ e ∈ hand st.writer)
    (hev : ∀ e ∈ hand w ++ ev, e ∈ hand st.writer ++ st.events)
    (hgone : st.clientGone = true → gone = true) (hhalt : st.halt = true → hlt = true)
    (hwhy : hlt = true → st.halt = true ∨ gone = true) (hw1 : w = .halting → gone = true)
    (hw2 : w = .exited → gone = true ∨ (st.eventsClosed = true ∧ ev = [])) :
    Inv c { st with writer := w, events := ev, wire := wire, clientGone := gone, halt := hlt } := by
  have hj : st.reader.joinedWriter = false := by
    cases hj : st.reader.joinedWriter
    · rfl
    · exact absurd (h.joined_writer hj) hlive
  have hret : ∀ s, st.reader ≠ .returned s := fun s e => by rw [e] at hj; cases hj
  have hl : log
      { st with writer := w, events := ev, wire := wire, clientGone := gone, halt := hlt } =
      log st := hlog
  exact { h with
    started_log := by rw [hl]; exact h.started_log
    pages := fun i => by rw [hl]; exact h.pages i
    ordered := by rw [hl]; exact h.ordered
    ok_eq := by rw [hl]; exact h.ok_eq
    failed_eq := by rw [hl]; exact h.failed_eq
    halt_why := fun e => by
      rcases hwhy e with e | e
      · rcases h.halt_why e with h1 | h1
        · exact .inl (hgone h1)
        · exact .inr h1
      · exact .inl e
    dropped_halt := fun e => hhalt (h.dropped_halt e)
    halting_gone := hw1
    writer_exit := hw2
    joined_writer := fun e => by
      have e' : st.reader.joinedWriter = true := e
      rw [hj] at e'; cases e'
    no_complete := fun e he => h.no_complete e (hev e he)
    wire_open := fun _ e he => by
      rcases hsub e he with he | he
      · exact h.wire_open (fun s hs => absurd hs (hret s)) e he
      · exact h.no_complete e (List.mem_append_left _ he)
    returned_final := fun s e => absurd e (hret s)
    returned_ok := fun s e => absurd e (hret s) }

theorem inv_writerStep {c : Config} {st st' : Stream} {a : OAct} (h : Inv c st)
    (hs : writerStep st a = some st') : Inv c st' := by
  cases writerStep_cases hs with
  | check cancelled hw =>
    cases cancelled with
    | false =>
      exact h.writer_moves (by simp [hw]) (by simp [log, hand, hw]) (fun e => .inl)
        (by simp [hand, hw]) id id .inl (by simp) (by simp)
    | true =>
      exact h.writer_moves (by simp [hw]) (by simp [log, hand, hw]) (fun e => .inl)
        (by simp [hand, hw]) id id .inl (by simp) (by simp)
  | pop event rest hw he =>
    exact h.writer_moves (by simp [hw]) (by simp [log, hand, hw, he]) (fun e => .inl)
      (by simp [hand, hw, he]) id id .inl (by simp) (by simp)
  | drained hw he hc =>
    exact h.writer_moves (by simp [hw]) (by simp [log, hand, hw]) (fun e => .inl)
      (by simp [hand, hw]) id id .inl (by simp) fun _ => .inr ⟨hc, he⟩
  | timesOut hw =>
    exact h.writer_moves (by simp [hw]) (by simp [log, hand, hw]) (fun e => .inl)
      (by simp [hand, hw]) id id .inl (by simp) (by simp)
  | write event ok hw =>
    have hsub : ∀ e ∈ st.wire ++ [event], e ∈ st.wire ∨ e ∈ hand st.writer := by
      intro e he
      simpa [hand, hw] using he
    cases ok with
    | false =>
      exact h.writer_moves (by simp [hw]) (by simp [log, hand, hw]) hsub
        (fun e he => List.mem_append_right _ he) id id .inl (by simp) (by simp)
    | true =>
      exact h.writer_moves (by simp [hw]) (by simp [log, hand, hw]) hsub
        (fun e he => List.mem_append_right _ he) id id .inl (by simp) (by simp)
  | gone hw =>
    exact h.writer_moves (by simp [hw]) (by simp [log, hand, hw]) (fun e => .inl)
      (by simp [hand, hw]) (fun _ => rfl) id .inl (fun _ => rfl) (by simp)
  | halting hw =>
    have hg := h.halting_gone hw
    exact h.writer_moves (by simp [hw]) (by simp [log, hand, hw]) (fun e => .inl)
      (by simp [hand, hw]) id (fun _ => rfl) (fun _ => .inr hg) (by simp) fun _ => .inl hg

/-- **Every step of every thread keeps the stream's protocol invariant.** -/
theorem inv_streamStep {c : Config} {k : Nat} {sh sh' : Shared} {st st' : Stream} {a : Act}
    (h : Inv c st) (hs : streamStep c k sh st a = some (sh', st')) : Inv c st' := by
  cases a with
  | reader a => exact inv_readerStep h hs
  | worker i a => exact inv_workerStep h hs
  | writer a =>
    simp only [streamStep, Option.map_eq_some_iff, Prod.mk.injEq] at hs
    obtain ⟨st₁, hs, -, rfl⟩ := hs
    exact inv_writerStep h hs

theorem inv_reachable {c : Config} {os : List Options} {s : Sys} (hr : (lts c os).Reachable s) :
    ∀ st ∈ s.streams, Inv c st :=
  stream_invariant (inv_init c) (fun _ _ _ _ _ _ h hs => inv_streamStep h hs) hr

/-! ## What the client sees -/

/-- (a) At most one `PageStarted` and at most one terminal event per page, in
that order. -/
def PagesOnce (wire : List Event) : Prop :=
  (∀ i, (starteds wire).count i ≤ 1 ∧ (terminals wire).count i ≤ 1) ∧ Ordered wire

/-- (b) `ConvertComplete` is written at most once, as the last event, by a
stream that returned OK. -/
def CompleteLast (st : Stream) : Prop :=
  st.wire.countP Event.isComplete ≤ 1 ∧
    ∀ e ∈ st.wire, e.isComplete = true →
      st.wire.getLast? = some e ∧ ∃ status, st.reader = .returned status ∧ status.isOk = true

/-- (c) A stream that returned OK answered every admitted page exactly once,
and its trailer counts them. -/
def AllAnswered (st : Stream) : Prop :=
  ∀ status, st.reader = .returned status → status.isOk = true →
    (∀ i < st.started, (starteds st.wire).count i = 1 ∧ (terminals st.wire).count i = 1) ∧
    ∃ started ok failed, st.wire.getLast? = some (.complete started ok failed) ∧
      started = st.started ∧ started = ok + failed ∧
      ok = st.wire.countP Event.isDocument ∧ failed = st.wire.countP Event.isRaw

theorem count_range_le (n i : Nat) : (List.range n).count i ≤ 1 :=
  List.nodup_iff_count_le_one.1 List.nodup_range i

theorem Inv.pagesOnce {c : Config} {st : Stream} (h : Inv c st) : PagesOnce st.wire := by
  have hsplit : log st = st.wire ++ (hand st.writer ++ st.events) := by simp [log]
  refine ⟨fun i => ?_, ?_⟩
  · have h1 := count_range_le st.started i
    have h2 := h.pages i
    have h3 := h.started_log
    rw [hsplit, starteds_append] at h3
    rw [hsplit, terminals_append, List.count_append] at h2
    have h4 : (starteds st.wire).count i ≤ (List.range st.started).count i := by
      rw [← h3, List.count_append]; omega
    exact ⟨by omega, by omega⟩
  · have := h.ordered
    rw [hsplit] at this
    exact this.of_append

theorem Inv.completeLast {c : Config} {st : Stream} (h : Inv c st) : CompleteLast st := by
  by_cases hret : ∃ status, st.reader = .returned status ∧ status.isOk = true
  · obtain ⟨status, hr, hok⟩ := hret
    obtain ⟨pre, hw, hpre⟩ := h.returned_ok status hr hok
    have hzero : pre.countP Event.isComplete = 0 :=
      List.countP_eq_zero.2 fun e he => by simp [hpre e he]
    refine ⟨by rw [hw, List.countP_append, hzero]; exact Nat.le_refl 1, fun e he hc => ?_⟩
    rw [hw] at he ⊢
    rcases List.mem_append.1 he with he | he
    · rw [hpre e he] at hc; cases hc
    · rw [List.mem_singleton.1 he]
      exact ⟨by simp, status, hr, hok⟩
  · have hopen := h.wire_open fun s hs => by
      cases hok : s.isOk
      · rfl
      · exact absurd ⟨s, hs, hok⟩ hret
    refine ⟨?_, fun e he hc => ?_⟩
    · rw [List.countP_eq_zero.2 fun e he => by simp [hopen e he]]; exact Nat.zero_le 1
    · rw [hopen e he] at hc; cases hc

/-- An OK return finds nothing pending, queued or dropped: the wire has it all. -/
theorem Inv.returned_wire {c : Config} {st : Stream} (h : Inv c st) {status : Status}
    (hr : st.reader = .returned status) (hok : status.isOk = true) :
    starteds st.wire = List.range st.started ∧ (terminals st.wire).Perm (List.range st.started) ∧
      st.ok = st.wire.countP Event.isDocument ∧ st.failed = st.wire.countP Event.isRaw := by
  have hj : st.reader.joinedWriter = true := by rw [hr]; rfl
  have hce : st.reader.closedEvents = true := by rw [hr]; rfl
  obtain ⟨b, hb⟩ := h.returned_final status hr
  rw [hb] at hok
  obtain ⟨hstat, hgone, habort⟩ := finalStatus_ok hok
  obtain ⟨hw, he⟩ := h.drained hj hgone
  have hlog : log st = st.wire := by simp [log, hw, he, hand]
  have hall := h.joined hce
  have hidle : ∀ f : Worker → Nat, f .exited = 0 → (st.workers.map f).sum = 0 := by
    intro f hf
    exact List.sum_eq_zero fun n hn => by
      obtain ⟨w, hw, rfl⟩ := List.mem_map.1 hn
      rw [hall w hw, hf]
  have hdrop : st.dropped = [] := by
    by_contra hne
    rcases h.halt_why (h.dropped_halt hne) with h1 | h1 | h1
    · rw [hgone] at h1; cases h1
    · rw [hstat] at h1; cases h1
    · exact habort h1
  have hjobs : st.jobs = [] := by
    obtain ⟨w, hw⟩ := List.exists_mem_of_ne_nil _ h.workers_ne
    have hx := hall w hw
    subst hx
    exact (h.worker_exit hw).2
  have hpend : ∀ i, pendingCount i st = 0 := by
    intro i
    simp [pendingCount, hr, Reader.pending, hjobs, hidle (fun w => w.pending.count i) rfl]
  have hpages : ∀ i, (terminals st.wire).count i = (List.range st.started).count i := by
    intro i
    have := h.pages i
    rw [hpend, hlog, hdrop, List.count_nil] at this
    omega
  refine ⟨hlog ▸ h.started_log, List.perm_iff_count.2 hpages, ?_, ?_⟩
  · rw [h.ok_eq, hlog, hidle _ rfl]; rfl
  · rw [h.failed_eq, hlog, hidle _ rfl]; rfl

/-- An OK return finds every page answered. -/
theorem Inv.allAnswered {c : Config} {st : Stream} (h : Inv c st) : AllAnswered st := by
  intro status hr hok
  obtain ⟨hstarted, hterminals, hokc, hfailc⟩ := h.returned_wire hr hok
  obtain ⟨pre, hwire, -⟩ := h.returned_ok status hr hok
  refine ⟨fun i hi => ?_, st.started, st.ok, st.failed, by rw [hwire]; simp, rfl, ?_, hokc, hfailc⟩
  · have h1 : (List.range st.started).count i = 1 :=
      List.count_eq_one_of_mem List.nodup_range (List.mem_range.2 hi)
    exact ⟨by rw [hstarted]; exact h1, (hterminals.count_eq i).trans h1⟩
  · have hlen : (terminals st.wire).length = st.started := by simpa using hterminals.length_eq
    rw [← hlen, hokc, hfailc, terminals_length]

/-- **The event protocol holds in every reachable state of every stream**,
whatever the other streams, the transport and the model do. -/
theorem event_protocol {c : Config} {os : List Options} {s : Sys} (hr : (lts c os).Reachable s)
    {st : Stream} (hst : st ∈ s.streams) :
    PagesOnce st.wire ∧ CompleteLast st ∧ AllAnswered st := by
  have h := inv_reachable hr st hst
  exact ⟨h.pagesOnce, h.completeLast, h.allAnswered⟩

/-- Two workers, room for one page of 1024 bytes at a time. -/
def smallConfig : Config where
  concurrency := 2
  maxInflight := 1
  maxPageBytes := 1024
  maxPages := 2
  maxStreamBufferedBytes := 1024
  maxBufferedBytes := 1024
  concurrency_ok := Nat.le_succ 1
  maxInflight_ok := by decide
  maxPageBytes_ok := by decide
  maxPages_ok := by decide
  maxStreamBufferedBytes_ok := by decide
  maxBufferedBytes_ok := by decide

def samplePage : PageImage := ⟨1, [0x89, 0x50, 0x4E, 0x47, 0x0D, 0x0A, 0x1A, 0x0A]⟩

/-- What the threads of one stream do to admit a page, to take it up to
its slot, to finish it, and to write one event. -/
def admitActs : List Act :=
  [.reader .go, .reader (.read (some (.pageImage samplePage))), .reader .grant, .reader .go,
   .reader .grant, .reader .go, .reader .go]

def takeActs (i : Nat) : List Act := [.worker i .go, .worker i .go, .worker i .go, .worker i .grant]

def finishActs (i : Nat) (r : Result) : List Act :=
  .worker i (.convert r) :: List.replicate 6 (.worker i .go)

def sendActs : List Act := [.writer (.check false), .writer .go, .writer (.write true)]

def returnActs : List Act :=
  [.reader .go, .reader (.read none), .reader .go, .reader .go, .worker 0 .go, .worker 1 .go,
   .reader .go] ++ sendActs ++ sendActs ++ sendActs ++
  [.writer (.check false), .writer .go, .reader .go, .reader (.finish false)]

/-- The same page twice; the second one's conversion throws. -/
def sampleRun : List (Nat × Act) :=
  (admitActs ++ takeActs 0 ++ admitActs ++ finishActs 0 .document ++ takeActs 1 ++ sendActs ++
    finishActs 1 (.exception "x") ++ returnActs).map fun a => (0, a)

theorem event_protocol_sampleRun :
    ∃ s st, (lts smallConfig [⟨0, false⟩]).Reachable s ∧ s.streams = [st] ∧
      st.reader = .returned Status.OK ∧ st.wire.getLast? = some (.complete 2 1 1) ∧
      (PagesOnce st.wire ∧ CompleteLast st ∧ AllAnswered st) := by
  have hs : ((LTS.exec (sysStep smallConfig) (Sys.init smallConfig [⟨0, false⟩]) sampleRun).map
      fun s => s.streams.map fun st => (st.reader, st.wire.getLast?)) =
      some [(.returned Status.OK, some (.complete 2 1 1))] := by decide
  obtain ⟨s, he, hv⟩ := Option.map_eq_some_iff.1 hs
  obtain ⟨st, hst, hv⟩ := List.map_eq_singleton_iff.1 hv
  simp only [Prod.mk.injEq] at hv
  have hr : (lts smallConfig [⟨0, false⟩]).Reachable s := LTS.reachable_exec (.init rfl) he
  exact ⟨s, st, hr, hst, hv.1, hv.2,
    event_protocol hr (by rw [hst]; exact List.mem_singleton.2 rfl)⟩

end VlmConvert.L4.Pipeline
