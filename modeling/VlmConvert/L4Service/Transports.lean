import VlmConvert.L4Service.Protocol
import VlmConvert.Core.Bytes

/-!
# The transports of `ConvertPagesCore`

The pipeline reads messages and writes events through two functions its caller
gives it: `ConvertPages` passes the gRPC stream's own (`vlm_convert_service.cpp:116-123`),
the HTTP front end replays the messages of a request body and makes each event a
JSON text (`http_gateway.cpp:124-141`, 222-236, 273-295).

`Pipeline` leaves what those functions answer open. Here each stream has a
transport with the messages its client sends, and the answers are the
transport's: any number of streams of either kind run on one process.

Results:
* `reachable_pipe`: the system is the pipeline's with less choice.
* `pages_in_order`: the pages a stream starts are those its client sent, in
  order, and an event of a page has that page's number.
* `body_answered`: a request body that is answered OK has every page of it
  started and answered.
-/
namespace VlmConvert.L4.Transports

open Pipeline

/-! ## Transports -/

/-- gRPC, `/v1/convert` and `/v1/convert/stream`. -/
inductive Framing
  | grpc | whole | lines
  deriving DecidableEq, Repr

/-- What a stream's client has yet to send, and what went out of the events in
JSON. -/
structure Transport where
  framing : Framing
  unread : List Request
  sent : List Bytes
  serializeFailed : Bool

/-- A stream, and what its client sends after the options. -/
structure Call where
  framing : Framing
  options : Options
  messages : List Request
  deriving DecidableEq, Repr

def Transport.init (call : Call) : Transport := ⟨call.framing, call.messages, [], false⟩

/-- A gRPC client may stop anywhere; a body is read to its end.
mirrors src/service/vlm_convert_service.cpp:120 and src/http_gateway.cpp:128-136 -/
def Transport.read (t : Transport) : Option Request → Option Transport
  | none => if t.unread = [] ∨ t.framing = .grpc then some t else none
  | some request =>
    match t.unread with
    | [] => none
    | next :: rest => if next = request then some { t with unread := rest } else none

/-- `MessageToJsonString`; `none` when it fails. -/
abbrev Printer := Event → Option Bytes

/-- An event goes out, with the answer `write` gives; `taken` is whether the
connection took it.
mirrors src/service/vlm_convert_service.cpp:121 and src/http_gateway.cpp:224-232, 279-283 -/
def Transport.write (print : Printer) (t : Transport) (event : Event) (taken : Bool) :
    Transport × Bool :=
  match t.framing, print event with
  | .grpc, _ => (t, taken)
  | .whole, none => ({ t with serializeFailed := true }, false)
  | .whole, some json => ({ t with sent := t.sent ++ [json] }, true)
  | .lines, none => (t, false)
  | .lines, some json => if taken then ({ t with sent := t.sent ++ [json] }, true) else (t, false)

/-- The transport's part of a step of its stream, which stands at `st`; the
answer of the last write is not looked at. -/
def Transport.step (print : Printer) (st : Stream) (t : Transport) (a : Act) (taken : Bool) :
    Option Transport :=
  match a with
  | .reader (.read request) => t.read request
  | .reader (.finish cancelled) =>
    if (finalStatus st cancelled).isOk then
      some (t.write print (.complete st.started st.ok st.failed) taken).1
    else some t
  | .writer (.write ok) =>
    match st.writer with
    | .write event =>
      if (t.write print event taken).2 = ok then some (t.write print event taken).1 else none
    | _ => none
  | _ => some t

/-! ## The system -/

structure Process where
  pipe : Sys
  transports : List Transport

structure Label where
  stream : Nat
  act : Act
  taken : Bool

def Process.init (c : Config) (calls : List Call) : Process :=
  ⟨Sys.init c (calls.map (·.options)), calls.map Transport.init⟩

def processStep (c : Config) (print : Printer) (p : Process) (l : Label) : Option Process :=
  match p.pipe.streams[l.stream]?, p.transports[l.stream]?, sysStep c p.pipe (l.stream, l.act) with
  | some st, some t, some pipe =>
    (t.step print st l.act l.taken).map fun t' => ⟨pipe, p.transports.set l.stream t'⟩
  | _, _, _ => none

def lts (c : Config) (print : Printer) (calls : List Call) : LTS Process Label :=
  LTS.ofFn (· = Process.init c calls) (processStep c print)

section System
variable {c : Config} {print : Printer} {calls : List Call} {p p' : Process} {l : Label}

/-- A step is one of the pipeline and one of the transport of the same stream. -/
theorem processStep_cases (h : processStep c print p l = some p') :
    ∃ st t t' sh' st', p.pipe.streams[l.stream]? = some st ∧ p.transports[l.stream]? = some t ∧
      streamStep c l.stream p.pipe.shared st l.act = some (sh', st') ∧
        t.step print st l.act l.taken = some t' ∧
      p' = ⟨⟨p.pipe.streams.set l.stream st', sh'⟩, p.transports.set l.stream t'⟩ ∧
      sysStep c p.pipe (l.stream, l.act) = some p'.pipe := by
  unfold processStep at h
  split at h
  · rename_i st t pipe hst ht hpipe
    obtain ⟨t', ht', rfl⟩ := Option.map_eq_some_iff.1 h
    obtain ⟨st₁, sh', st', hst₁, hstream, rfl⟩ := sysStep_cases hpipe
    have hsame : st₁ = st := Option.some.inj (hst₁.symm.trans hst)
    subst hsame
    exact ⟨st₁, t, t', sh', st', hst, ht, hstream, ht', rfl, hpipe⟩
  · cases h

/-- **Every run is a run of the pipeline.** -/
theorem reachable_pipe (hr : (lts c print calls).Reachable p) :
    (Pipeline.lts c (calls.map (·.options))).Reachable p.pipe := by
  induction hr with
  | init h =>
    rw [show _ = Process.init c calls from h]
    exact .init rfl
  | step hr hs ih =>
    obtain ⟨-, -, -, -, -, -, -, -, -, -, hpipe⟩ := processStep_cases hs
    exact .step ih hpipe

/-- What a stream and its transport keep together holds of every call. -/
theorem call_invariant {P : Call → Stream → Transport → Prop}
    (h0 : ∀ call, P call (Stream.init c call.options) (Transport.init call))
    (hstep : ∀ {k sh st a sh' st' taken call t t'}, Inv c st → P call st t →
      streamStep c k sh st a = some (sh', st') → t.step print st a taken = some t' → P call st' t')
    (hr : (lts c print calls).Reachable p) :
    ∀ (k : Nat) call st t, calls[k]? = some call → p.pipe.streams[k]? = some st →
      p.transports[k]? = some t →
      P call st t := by
  induction hr with
  | init h =>
    intro k call st t hcall hst ht
    rw [show _ = Process.init c calls from h] at hst ht
    simp only [Process.init, Sys.init, List.map_map, List.getElem?_map, hcall, Option.map_some,
      Option.some.injEq] at hst ht
    rw [← hst, ← ht]
    exact h0 call
  | @step q q' l hr hs ih =>
    intro k call st t hcall hst ht
    obtain ⟨st₀, t₀, t', sh', st', hst₀, ht₀, hstream, hstept, rfl, -⟩ := processStep_cases hs
    by_cases hk : l.stream = k
    · subst hk
      have hlt := (List.getElem?_eq_some_iff.1 hst₀).1
      have hlt' := (List.getElem?_eq_some_iff.1 ht₀).1
      simp only [List.getElem?_set_self hlt, List.getElem?_set_self hlt', Option.some.injEq]
        at hst ht
      subst hst ht
      have hinv : Inv c st₀ := inv_reachable (reachable_pipe hr) st₀ (List.mem_of_getElem? hst₀)
      exact hstep hinv (ih l.stream call st₀ t₀ hcall hst₀ ht₀) hstream hstept
    · simp only [List.getElem?_set_ne hk] at hst ht
      exact ih k call st t hcall hst ht

end System

/-! ## Pages and their events -/

def pageOf : Request → Option PageImage
  | .pageImage image => some image
  | _ => none

/-- The pages among a client's messages. -/
def pagesOf (messages : List Request) : List PageImage := messages.filterMap pageOf

/-- The index of an event's page with the number it carries. -/
def eventPage : Event → Option (Nat × Nat)
  | .pageStarted i n => some (i, n)
  | .pageDocument i n => some (i, n)
  | .pageRaw i n _ _ => some (i, n)
  | .complete .. => none

section Tagged
variable {images : List PageImage} {c : Config} {k i : Nat} {sh sh' : Shared} {st st' : Stream}

/-- The job is that of the page at its index. -/
def Names (images : List PageImage) (job : Job) : Prop := images[job.idx]? = some job.image

/-- The event carries the number of the page at its index. -/
def Tells (images : List PageImage) (e : Event) : Prop :=
  ∀ i n, eventPage e = some (i, n) → (images[i]?).map (·.pageNo) = some n

def WorkerTagged (images : List PageImage) : Worker → Prop
  | .got j | .enter j | .waitSlot j | .converting j _ => Names images j
  | .converted _ _ e | .counted _ _ e => Tells images e
  | _ => True

def ReaderTagged (images : List PageImage) : Reader → Prop
  | .push j => Names images j
  | _ => True

/-- Every job and every event of a stream is a page's of `images`. -/
structure Tagged (images : List PageImage) (st : Stream) : Prop where
  reader : ReaderTagged images st.reader
  jobs : ∀ job ∈ st.jobs, Names images job
  workers : ∀ w ∈ st.workers, WorkerTagged images w
  events : ∀ e ∈ log st, Tells images e

theorem tagged_init (images : List PageImage) (c : Config) (o : Options) :
    Tagged images (Stream.init c o) := by
  refine ⟨trivial, List.forall_mem_nil _, fun w hw => ?_, List.forall_mem_nil _⟩
  rw [List.eq_of_mem_replicate hw]
  trivial

theorem tells_complete (started ok failed : Nat) : Tells images (.complete started ok failed) := by
  intro i n h
  cases h

theorem tells_of_names {job : Job} {e : Event} (h : Names images job)
    (he : eventPage e = some (job.idx, job.image.pageNo)) : Tells images e := by
  intro i n hpage
  rw [he] at hpage
  cases hpage
  rw [h, Option.map_some]

theorem tells_resultEvent {job : Job} {result : Result} {event : Event} (h : Names images job)
    (he : resultEvent job result = some event) : Tells images event := by
  cases result with
  | nothing => cases he
  | document | raw | exception =>
    cases he
    exact tells_of_names h rfl

/-- A worker moves on; it may take a job and push an event. -/
theorem Tagged.worker_moves (h : Tagged images st) {w' : Worker} {pushed : List Event}
    (hworkers : st'.workers = st.workers.set i w') (hreader : st'.reader = st.reader)
    (hjobs : ∀ job ∈ st'.jobs, job ∈ st.jobs) (hlog : log st' = log st ++ pushed)
    (hw : WorkerTagged images w') (hpushed : ∀ e ∈ pushed, Tells images e) : Tagged images st' := by
  refine ⟨hreader ▸ h.reader, fun job hjob => h.jobs job (hjobs job hjob), fun w hmem => ?_,
    fun e he => ?_⟩
  · rw [hworkers] at hmem
    rcases mem_set_cases hmem with hmem | rfl
    · exact h.workers w hmem
    · exact hw
  · rw [hlog] at he
    rcases List.mem_append.1 he with he | he
    · exact h.events e he
    · exact hpushed e he

theorem Tagged.worker_moves_only (h : Tagged images st) {w' : Worker}
    (hworkers : st'.workers = st.workers.set i w')
    (hreader : st'.reader = st.reader) (hjobs : st'.jobs = st.jobs) (hlog : log st' = log st)
    (hw : WorkerTagged images w') : Tagged images st' :=
  h.worker_moves hworkers hreader (fun _ hjob => hjobs ▸ hjob)
    (hlog.trans (List.append_nil _).symm) hw (List.forall_mem_nil _)

/-- **A worker** converts the page of its job's index. -/
theorem tagged_worker {w : Worker} {a : WAct} (h : Tagged images st) (hi : st.workers[i]? = some w)
    (hs : workerAt k sh st i w a = some (sh', st')) : Tagged images st' := by
  have hw := h.workers w (List.mem_of_getElem? hi)
  obtain ⟨w', hm⟩ := workerAt_cases hs
  cases hm with
  | pop job rest hjobs =>
    have hnames := h.jobs job (by simp [hjobs])
    exact h.worker_moves rfl rfl (fun j hj => by simp [hjobs, hj]) (List.append_nil _).symm hnames
      (List.forall_mem_nil _)
  | joinLine | granted => exact h.worker_moves_only rfl rfl rfl rfl hw
  | abandoned | dropSlot | dropProcess | dropStream =>
    exact h.worker_moves_only rfl rfl rfl rfl trivial
  | silent hm =>
    cases hm with
    | exit | skip | cut | abort => exact h.worker_moves_only rfl rfl rfl rfl trivial
    | take | count => exact h.worker_moves_only rfl rfl rfl rfl hw
    | converted job slot result event hevent =>
      exact h.worker_moves_only rfl rfl rfl rfl (tells_resultEvent hw hevent)
    | answer =>
      exact h.worker_moves rfl rfl (fun _ hj => hj) (List.append_assoc _ _ _).symm trivial
        (List.forall_mem_singleton.2 hw)

/-- **The writer** passes events on. -/
theorem tagged_writer {a : OAct} (h : Tagged images st) (hs : writerStep st a = some st') :
    Tagged images st' := by
  have hsame : st'.reader = st.reader ∧ st'.jobs = st.jobs ∧ st'.workers = st.workers ∧
    log st' = log st := by
    cases writerStep_cases hs with
    | check cancelled hw => cases cancelled <;> simp [log, hand, hw]
    | pop event rest hw hevents => simp [log, hand, hw, hevents]
    | write event ok hw => cases ok <;> simp [log, hand, hw]
    | drained hw | timesOut hw | gone hw | halting hw => simp [log, hand, hw]
  obtain ⟨hreader, hjobs, hworkers, hlog⟩ := hsame
  exact ⟨hreader ▸ h.reader, hjobs ▸ h.jobs, hworkers ▸ h.workers, hlog ▸ h.events⟩

end Tagged

/-! ## What is read and what is left -/

/-- The page the reader has read and not started. -/
def holds : Reader → List PageImage
  | .waitStream image | .gotStream image _ | .waitProcess image _ | .starting image _ _ => [image]
  | _ => []

/-- The reader is in its loop. -/
def reads : Reader → Bool
  | .check | .read | .waitStream _ | .gotStream .. | .waitProcess .. | .starting .. | .push _ =>
      true
  | _ => false

/-- A stream and its transport have the client's pages between them. -/
structure Replayed (call : Call) (st : Stream) (t : Transport) : Prop where
  framing : t.framing = call.framing
  tagged : Tagged (pagesOf call.messages) st
  started_le : st.started ≤ (pagesOf call.messages).length
  reading : reads st.reader = true →
    (pagesOf call.messages).drop st.started = holds st.reader ++ pagesOf t.unread
  left : reads st.reader = false → call.framing ≠ .grpc →
    st.halt = true ∨ st.status.isOk = false ∨ st.started = (pagesOf call.messages).length

section Replayed
variable {c : Config} {print : Printer} {call : Call} {st st' : Stream} {t t' : Transport} {k : Nat}
  {sh sh' : Shared} {taken : Bool}

theorem replayed_init (c : Config) (call : Call) :
    Replayed call (Stream.init c call.options) (Transport.init call) :=
  ⟨rfl, tagged_init _ c _, Nat.zero_le _, fun _ => rfl, fun h => by cases h⟩

/-- What a step has to keep: of the stream, which jobs and events it adds; of the
reader, whether it stays in its loop with the page it holds. -/
theorem Replayed.moves (h : Replayed call st t)
    (hreader : ReaderTagged (pagesOf call.messages) st'.reader)
    (hjobs : ∀ job ∈ st'.jobs, job ∈ st.jobs ∨ Names (pagesOf call.messages) job)
    (hworkers : ∀ w ∈ st'.workers, WorkerTagged (pagesOf call.messages) w)
    (hevents : ∀ e ∈ log st', e ∈ log st ∨ Tells (pagesOf call.messages) e)
    (hstarted : st'.started = st.started) (hstatus : st'.status = st.status)
    (hhalt : st.halt = true → st'.halt = true) (hframing : t'.framing = t.framing)
    (hunread : t'.unread = t.unread)
    (hstays : reads st'.reader = true → reads st.reader = true ∧ holds st'.reader = holds st.reader)
    (hleaves : reads st'.reader = false → reads st.reader = false ∨ st.halt = true) :
    Replayed call st' t' := by
  refine ⟨hframing.trans h.framing, ⟨hreader, fun job hjob => ?_, hworkers, fun e he => ?_⟩,
    hstarted ▸ h.started_le, fun hreads => ?_, fun hreads hbody => ?_⟩
  · exact (hjobs job hjob).elim (h.tagged.jobs job) id
  · exact (hevents e he).elim (h.tagged.events e) id
  · obtain ⟨hwas, hsame⟩ := hstays hreads
    rw [hstarted, hsame, hunread]
    exact h.reading hwas
  · rw [hstarted, hstatus]
    rcases hleaves hreads with hwas | hhalted
    · exact (h.left hwas hbody).imp_left hhalt
    · exact .inl (hhalt hhalted)

/-- A step of a thread other than the reader. -/
theorem Replayed.same (h : Replayed call st t) (htagged : Tagged (pagesOf call.messages) st')
    (hreader : st'.reader = st.reader) (hstarted : st'.started = st.started)
    (hstatus : st'.status = st.status)
    (hhalt : st.halt = true → st'.halt = true) (hframing : t'.framing = t.framing)
    (hunread : t'.unread = t.unread) :
    Replayed call st' t' :=
  h.moves htagged.reader (fun job hjob => .inr (htagged.jobs job hjob)) htagged.workers
    (fun e he => .inr (htagged.events e he)) hstarted hstatus hhalt hframing hunread
    (fun hreads => ⟨hreader ▸ hreads, by rw [hreader]⟩) (fun hreads => .inl (hreader ▸ hreads))

/-- A step of the reader that queues nothing. -/
theorem Replayed.reader_moves (h : Replayed call st t)
    (hreader : ReaderTagged (pagesOf call.messages) st'.reader)
    (hjobs : st'.jobs = st.jobs) (hworkers : st'.workers = st.workers) (hlog : log st' = log st)
    (hstarted : st'.started = st.started) (hstatus : st'.status = st.status)
    (hhalt : st.halt = true → st'.halt = true)
    (hstays : reads st'.reader = true → reads st.reader = true ∧ holds st'.reader = holds st.reader)
    (hleaves : reads st'.reader = false → reads st.reader = false ∨ st.halt = true) :
    Replayed call st' t :=
  h.moves hreader (fun _ hjob => .inl (hjobs ▸ hjob)) (hworkers ▸ h.tagged.workers)
    (fun _ he => .inl (hlog ▸ he))
    hstarted hstatus hhalt rfl rfl hstays hleaves

theorem read_some {request : Request} (h : t.read (some request) = some t') :
    ∃ rest, t.unread = request :: rest ∧ t' = { t with unread := rest } := by
  simp only [Transport.read] at h
  split at h
  · cases h
  · rename_i next rest hunread
    split at h
    · rename_i hnext
      exact ⟨rest, by rw [hunread, hnext], (Option.some.inj h).symm⟩
    · cases h

theorem read_none (h : t.read none = some t') : t' = t ∧ (t.unread = [] ∨ t.framing = .grpc) := by
  simp only [Transport.read] at h
  split at h
  · rename_i hend
    cases h
    exact ⟨rfl, hend⟩
  · cases h

/-- The message just read: a page is held, a bad one fails the stream. -/
theorem replayed_read (h : Replayed call st t) (hr : st.reader = .read) {request : Option Request}
    (hread : t.read request = some t') : Replayed call (readRequest c k st request) t' := by
  have htagged : ∀ r, ReaderTagged (pagesOf call.messages) r → ∀ {st' : Stream}, st'.reader = r →
      st'.jobs = st.jobs → st'.workers = st.workers → log st' = log st →
        Tagged (pagesOf call.messages) st' := by
    intro r hr st' hreader hjobs hworkers hlog
    exact ⟨hreader ▸ hr, hjobs ▸ h.tagged.jobs, hworkers ▸ h.tagged.workers, hlog ▸ h.tagged.events⟩
  have hnow : (pagesOf call.messages).drop st.started = pagesOf t.unread := by
    have hreading := h.reading (by rw [hr]; rfl)
    rwa [hr] at hreading
  cases request with
  | none =>
    obtain ⟨rfl, hend⟩ := read_none hread
    refine ⟨h.framing, htagged .leave trivial rfl rfl rfl rfl, h.started_le,
      fun hreads => (by cases hreads), fun _ hbody => .inr (.inr ?_)⟩
    have hunread : t'.unread = [] := hend.resolve_right fun hgrpc => hbody (h.framing ▸ hgrpc)
    rw [hunread] at hnow
    exact Nat.le_antisymm h.started_le (List.drop_eq_nil_iff.1 hnow)
  | some request =>
    obtain ⟨rest, hunread, rfl⟩ := read_some hread
    rw [hunread] at hnow
    have hleaves : ∀ {status : Status} {saw : Bool}, status.isOk = false →
        Replayed call { st with status := status, sawInput := saw, reader := .leave }
          { t with unread := rest } := fun hbad =>
      ⟨h.framing, htagged .leave trivial rfl rfl rfl rfl, h.started_le,
        fun hreads => (by cases hreads), fun _ _ => .inr (.inl hbad)⟩
    cases request with
    | options => exact hleaves rfl
    | pdfChunk => exact hleaves rfl
    | empty =>
      exact ⟨h.framing, htagged .check trivial rfl rfl rfl rfl, h.started_le, fun _ => hnow,
        fun hreads => by cases hreads⟩
    | pageImage image =>
      unfold readRequest
      dsimp only
      split
      · rename_i status hrefused
        exact hleaves (refusePage_not_ok hrefused)
      · exact ⟨h.framing, htagged (.waitStream image) trivial rfl rfl rfl rfl, h.started_le,
          fun _ => hnow, fun hreads => by cases hreads⟩

theorem drop_cons {α : Type} {l : List α} {n : Nat} {a : α} {rest : List α}
    (h : l.drop n = a :: rest) :
    l[n]? = some a ∧ l.drop (n + 1) = rest := by
  refine ⟨?_, ?_⟩
  · have hhead := @List.getElem?_drop α l n 0
    rw [h] at hhead
    exact hhead.symm
  · rw [← List.tail_drop, h]
    rfl

/-- The page the reader holds is started under the next index. -/
theorem replayed_starting (hinv : Inv c st) (h : Replayed call st t) {image : PageImage} {n m : Nat}
    (hr : st.reader = .starting image n m) :
    Replayed call { st with
      started := incr st.started
      events := st.events ++ [.pageStarted st.started image.pageNo]
      reader := .push ⟨st.started, image, n, m⟩ } t := by
  have hlt := hinv.admitting_lt (by rw [hr]; rfl)
  have hcap := c.maxPages_ok
  have hincr : incr st.started = st.started + 1 := incr_eq (by omega)
  have hnow := h.reading (by rw [hr]; rfl)
  rw [hr] at hnow
  obtain ⟨hpage, hrest⟩ := drop_cons hnow
  have hnames : Names (pagesOf call.messages) ⟨st.started, image, n, m⟩ := hpage
  refine ⟨h.framing, ⟨hnames, h.tagged.jobs, h.tagged.workers, fun e he => ?_⟩, ?_, fun _ => ?_,
    fun hreads => by cases hreads⟩
  · rw [show log _ = log st ++ [.pageStarted st.started image.pageNo]
      from (List.append_assoc _ _ _).symm] at he
    rcases List.mem_append.1 he with he | he
    · exact h.tagged.events e he
    · rw [List.mem_singleton.1 he]
      exact tells_of_names hnames rfl
  · show incr st.started ≤ _
    rw [hincr]
    exact (List.getElem?_eq_some_iff.1 hpage).1
  · show (pagesOf call.messages).drop (incr st.started) = _
    rw [hincr]
    exact hrest

theorem write_kept (event : Event) :
    (t.write print event taken).1.framing = t.framing ∧
      (t.write print event taken).1.unread = t.unread := by
  unfold Transport.write
  split
  · exact ⟨rfl, rfl⟩
  · exact ⟨rfl, rfl⟩
  · exact ⟨rfl, rfl⟩
  · exact ⟨rfl, rfl⟩
  · split <;> exact ⟨rfl, rfl⟩

/-- Only a read takes from what is unread. -/
theorem step_kept {a : Act} (hread : ∀ request, a ≠ .reader (.read request))
    (ht : t.step print st a taken = some t') : t'.framing = t.framing ∧ t'.unread = t.unread := by
  unfold Transport.step at ht
  split at ht
  · exact absurd rfl (hread _)
  · split at ht
    · cases ht
      exact write_kept _
    · cases ht
      exact ⟨rfl, rfl⟩
  · split at ht
    · split at ht
      · cases ht
        exact write_kept _
      · cases ht
    · cases ht
  · cases ht
    exact ⟨rfl, rfl⟩

/-- The trailer goes on the wire and the stream returns. -/
theorem replayed_finish (h : Replayed call st t) (hr : st.reader = .finish) {cancelled : Bool}
    (hframing : t'.framing = t.framing) (hunread : t'.unread = t.unread) :
    Replayed call (finishStream st cancelled) t' := by
  refine h.moves trivial (fun _ hjob => .inl hjob) h.tagged.workers
    (fun e he => ?_) rfl rfl id hframing hunread
    (fun hreads => by cases hreads) (fun _ => .inl (by rw [hr]; rfl))
  unfold finishStream log at he
  dsimp only at he
  split at he
  · simp only [List.append_assoc, List.mem_append, List.mem_singleton] at he
    rcases he with he | rfl | he | he
    · exact .inl (by simp [log, he])
    · exact .inr (tells_complete _ _ _)
    · exact .inl (by simp [log, he])
    · exact .inl (by simp [log, he])
  · exact .inl he

/-- **The reader** starts the client's pages in their order. -/
theorem replayed_reader (hinv : Inv c st) (h : Replayed call st t) {a : RAct}
    (hs : readerStep c k sh st a = some (sh', st'))
    (ht : t.step print st (.reader a) taken = some t') :
    Replayed call st' t' := by
  cases readerStep_cases hs with
  | read request hr => exact replayed_read h hr ht
  | streamGranted image n b hr | joinLine image n hr | processGranted image n p b hr =>
    obtain rfl : t = t' := Option.some.inj ht
    exact h.reader_moves trivial rfl rfl rfl rfl rfl id
      (fun _ => ⟨by rw [hr]; rfl, by rw [hr]; rfl⟩) (fun hreads => by cases hreads)
  | streamAbandoned image b hr hhalt | processAbandoned image n b hr hhalt =>
    obtain rfl : t = t' := Option.some.inj ht
    exact h.reader_moves trivial rfl rfl rfl rfl rfl id (fun hreads => by cases hreads)
      (fun _ => .inr hhalt)
  | dropStream n hr =>
    obtain rfl : t = t' := Option.some.inj ht
    exact h.reader_moves trivial rfl rfl rfl rfl rfl id (fun hreads => by cases hreads)
      (fun _ => .inl (by rw [hr]; rfl))
  | starting image n p hr =>
    obtain rfl : t = t' := Option.some.inj ht
    exact replayed_starting hinv h hr
  | push job hr =>
    obtain rfl : t = t' := Option.some.inj ht
    have hnames : Names (pagesOf call.messages) job := by
      have hreader := h.tagged.reader
      rwa [hr] at hreader
    refine h.moves trivial (fun j hj => ?_) h.tagged.workers
      (fun _ he => .inl he) rfl rfl id rfl rfl
      (fun _ => ⟨by rw [hr]; rfl, by rw [hr]; rfl⟩) (fun hreads => by cases hreads)
    rcases List.mem_append.1 hj with hj | hj
    · exact .inl hj
    · exact .inr (List.mem_singleton.1 hj ▸ hnames)
  | silent hm =>
    cases hm with
    | again hr =>
      obtain rfl : t = t' := Option.some.inj ht
      exact h.reader_moves trivial rfl rfl rfl rfl rfl id
        (fun _ => ⟨by rw [hr]; rfl, by rw [hr]; rfl⟩) (fun hreads => by cases hreads)
    | halted hr hhalt =>
      obtain rfl : t = t' := Option.some.inj ht
      exact h.reader_moves trivial rfl rfl rfl rfl rfl id (fun hreads => by cases hreads)
        (fun _ => .inr hhalt)
    | leave hr =>
      obtain rfl : t = t' := Option.some.inj ht
      exact h.reader_moves trivial rfl rfl rfl rfl rfl (fun hhalt => by simp [hhalt])
        (fun hreads => by cases hreads)
        (fun _ => .inl (by rw [hr]; rfl))
    | closeJobs hr | joinWorkers hr | joinWriter hr =>
      obtain rfl : t = t' := Option.some.inj ht
      exact h.reader_moves trivial rfl rfl rfl rfl rfl id (fun hreads => by cases hreads)
        (fun _ => .inl (by rw [hr]; rfl))
    | finish cancelled hr =>
      obtain ⟨hframing, hunread⟩ := step_kept (fun request heq => by cases heq) ht
      exact replayed_finish h hr hframing hunread

/-- What a worker leaves alone. -/
theorem worker_frame {i : Nat} {w : Worker} {a : WAct}
    (hs : workerAt k sh st i w a = some (sh', st')) :
    st'.reader = st.reader ∧ st'.started = st.started ∧ st'.status = st.status ∧
      st'.wire = st.wire ∧
      st'.writer = st.writer ∧ st'.clientGone = st.clientGone ∧
        (st.halt = true → st'.halt = true) := by
  obtain ⟨w', hm⟩ := workerAt_cases hs
  cases hm with
  | silent hm =>
    cases hm with
    | abort => exact ⟨rfl, rfl, rfl, rfl, rfl, rfl, fun hhalt => by simp [hhalt]⟩
    | _ => exact ⟨rfl, rfl, rfl, rfl, rfl, rfl, id⟩
  | _ => exact ⟨rfl, rfl, rfl, rfl, rfl, rfl, id⟩

/-- What the writer leaves alone. -/
theorem writer_frame {a : OAct} (hs : writerStep st a = some st') :
    st'.reader = st.reader ∧ st'.started = st.started ∧ st'.status = st.status ∧
      (st.halt = true → st'.halt = true) := by
  cases writerStep_cases hs with
  | halting => exact ⟨rfl, rfl, rfl, fun _ => rfl⟩
  | _ => exact ⟨rfl, rfl, rfl, id⟩

/-- **Every step of every thread** leaves the client's pages accounted for. -/
theorem replayed_step {a : Act} (hinv : Inv c st) (h : Replayed call st t)
    (hs : streamStep c k sh st a = some (sh', st')) (ht : t.step print st a taken = some t') :
    Replayed call st' t' := by
  cases a with
  | reader a => exact replayed_reader hinv h hs ht
  | worker i a =>
    obtain rfl : t = t' := Option.some.inj ht
    change workerStep k sh st i a = some (sh', st') at hs
    unfold workerStep at hs
    split at hs
    · cases hs
    · rename_i w hi
      obtain ⟨hreader, hstarted, hstatus, -, -, -, hhalt⟩ := worker_frame hs
      exact h.same (tagged_worker h.tagged hi hs) hreader hstarted hstatus hhalt rfl rfl
  | writer a =>
    obtain ⟨st₁, hwrite, hs⟩ := Option.map_eq_some_iff.1 hs
    cases hs
    obtain ⟨hreader, hstarted, hstatus, hhalt⟩ := writer_frame hwrite
    obtain ⟨hframing, hunread⟩ := step_kept (fun request heq => by cases heq) ht
    exact h.same (tagged_writer h.tagged hwrite) hreader hstarted hstatus hhalt hframing hunread

end Replayed

theorem replayed_reachable {c : Config} {print : Printer} {calls : List Call} {p : Process}
    (hr : (lts c print calls).Reachable p) {k : Nat} {call : Call} {st : Stream} {t : Transport}
    (hcall : calls[k]? = some call) (hst : p.pipe.streams[k]? = some st)
    (ht : p.transports[k]? = some t) :
    Replayed call st t :=
  call_invariant (fun call => replayed_init c call)
    (fun hinv h hs ht => replayed_step hinv h hs ht) hr k call st t hcall hst ht

/-! ## What is delivered -/

/-- The trailer of a stream that returned may not have been taken. -/
def trailer : Reader → Nat
  | .returned _ => 1
  | _ => 0

/-- What went out is the JSON of what the stream wrote. -/
structure Delivered (print : Printer) (st : Stream) (t : Transport) : Prop where
  gone : st.clientGone = true → st.writer = .halting ∨ st.writer = .exited
  whole : t.framing = .whole →
    t.sent = st.wire.filterMap print ∧ t.serializeFailed = st.wire.any fun e => (print e).isNone
  lines : t.framing = .lines → t.sent.map some <+: st.wire.map print
  all_lines : t.framing = .lines → st.clientGone = false → st.writer ≠ .gone →
    st.wire.length ≤ t.sent.length + trailer st.reader

section Delivered
variable {c : Config} {print : Printer} {st st' : Stream} {t t' : Transport} {k : Nat}
    {sh sh' : Shared}
  {taken : Bool}

theorem delivered_init (c : Config) (print : Printer) (call : Call) :
    Delivered print (Stream.init c call.options) (Transport.init call) where
  gone h := by cases h
  whole _ := ⟨rfl, rfl⟩
  lines _ := List.nil_prefix
  all_lines _ _ _ := Nat.zero_le _

/-- A step that writes nothing. -/
theorem Delivered.same (h : Delivered print st t) (hwire : st'.wire = st.wire)
    (hgone : st'.clientGone = true → st'.writer = .halting ∨ st'.writer = .exited)
    (hopen : st'.clientGone = false → st'.writer ≠ .gone → st.clientGone = false ∧
      st.writer ≠ .gone)
    (htrailer : trailer st.reader ≤ trailer st'.reader) (hframing : t'.framing = t.framing)
    (hsent : t'.sent = t.sent) (hfailed : t'.serializeFailed = t.serializeFailed) :
    Delivered print st' t' where
  gone := hgone
  whole := by rw [hframing, hwire, hsent, hfailed]; exact h.whole
  lines := by rw [hframing, hwire, hsent]; exact h.lines
  all_lines hlines hopen' hw := by
    obtain ⟨hwas, hwas'⟩ := hopen hopen' hw
    have hall := h.all_lines (hframing ▸ hlines) hwas hwas'
    rw [hwire, hsent]
    exact Nat.le_trans hall (Nat.add_le_add_left htrailer _)

/-- Everything so far went out. -/
theorem Delivered.all_sent (h : Delivered print st t) (hlines : t.framing = .lines)
    (hopen : st.clientGone = false)
    (hwriter : st.writer ≠ .gone) (htrailer : trailer st.reader = 0) :
    t.sent.map some = st.wire.map print := by
  have hall := h.all_lines hlines hopen hwriter
  rw [htrailer] at hall
  exact (h.lines hlines).eq_of_length_le (by simpa using hall)

/-- A writer that has not stopped has not seen the client leave. -/
theorem Delivered.open_of_writing (h : Delivered print st t) (hhalting : st.writer ≠ .halting)
    (hexited : st.writer ≠ .exited) : st.clientGone = false :=
  Bool.eq_false_iff.2 fun hgone => (h.gone hgone).elim hhalting hexited

theorem write_whole {event : Event} (h : t.framing = .whole) :
    (t.write print event taken).1.sent = t.sent ++ (print event).toList ∧
      (t.write print event taken).1.serializeFailed =
        (t.serializeFailed || (print event).isNone) := by
  unfold Transport.write
  rw [h]
  cases print event <;> simp

theorem write_lines {event : Event} (h : t.framing = .lines) :
    (∃ json, print event = some json ∧ (t.write print event taken).1.sent = t.sent ++ [json]) ∨
      ((t.write print event taken).2 = false ∧ (t.write print event taken).1.sent = t.sent) := by
  unfold Transport.write
  rw [h]
  cases print event with
  | none => exact .inr ⟨rfl, rfl⟩
  | some json =>
    cases taken with
    | false => exact .inr ⟨rfl, rfl⟩
    | true => exact .inl ⟨json, rfl, rfl⟩

/-- An event goes out after all those before it. -/
theorem Delivered.write (h : Delivered print st t) {event : Event} (hopen : st.clientGone = false)
    (hwriter : st.writer ≠ .gone) (htrailer : trailer st.reader = 0)
    (hwire : st'.wire = st.wire ++ [event])
    (hgone : st'.clientGone = false)
    (hlost : (t.write print event taken).2 = false → st'.writer ≠ .gone → trailer st'.reader = 1) :
    Delivered print st' (t.write print event taken).1 := by
  have hframing := (@write_kept print t taken event).1
  refine ⟨fun hg => absurd (hgone.symm.trans hg) Bool.false_ne_true, fun hwhole => ?_,
    fun hlines => ?_, fun hlines _ hw => ?_⟩
  · obtain ⟨hsent, hfailed⟩ := h.whole (hframing ▸ hwhole)
    obtain ⟨hsent', hfailed'⟩ := @write_whole print t taken event (hframing ▸ hwhole)
    rw [hwire, hsent', hfailed', hsent, hfailed]
    cases hprint : print event <;> simp [hprint]
  · have hall := h.all_sent (hframing ▸ hlines) hopen hwriter htrailer
    rw [hwire, List.map_append, ← hall]
    rcases @write_lines print t taken event (hframing ▸ hlines) with
      ⟨json, hjson, hsent⟩ | ⟨-, hsent⟩
    · rw [hsent, List.map_append, List.map_singleton, List.map_singleton, hjson]
    · rw [hsent]
      exact List.prefix_append _ _
  · have hall := congrArg List.length (h.all_sent (hframing ▸ hlines) hopen hwriter htrailer)
    rw [List.length_map, List.length_map] at hall
    rw [hwire, List.length_append, List.length_singleton]
    rcases @write_lines print t taken event (hframing ▸ hlines) with
      ⟨json, -, hsent⟩ | ⟨hfailed, hsent⟩
    · rw [hsent, List.length_append, List.length_singleton]
      omega
    · have := hlost hfailed hw
      rw [hsent]
      omega

theorem readRequest_frame (request : Option Request) :
    (readRequest c k st request).wire = st.wire ∧ (readRequest c k st request).writer = st.writer ∧
      (readRequest c k st request).clientGone = st.clientGone := by
  unfold readRequest
  split
  · exact ⟨rfl, rfl, rfl⟩
  · exact ⟨rfl, rfl, rfl⟩
  · exact ⟨rfl, rfl, rfl⟩
  · exact ⟨rfl, rfl, rfl⟩
  · split <;> exact ⟨rfl, rfl, rfl⟩

theorem readerStep_finish {cancelled : Bool}
    (hs : readerStep c k sh st (.finish cancelled) = some (sh', st')) :
    st.reader = .finish ∧ st' = finishStream st cancelled := by
  cases readerStep_cases hs with
  | silent hm =>
    cases hm with
    | finish cancelled hr => exact ⟨hr, rfl⟩

/-- What the reader leaves alone until the stream returns. -/
theorem reader_frame {a : RAct} (hs : readerStep c k sh st a = some (sh', st'))
    (hgoes : ∀ cancelled, a ≠ .finish cancelled) :
    trailer st.reader = 0 ∧ st'.wire = st.wire ∧ st'.writer = st.writer ∧
      st'.clientGone = st.clientGone := by
  cases readerStep_cases hs with
  | read request hr => exact ⟨by rw [hr]; rfl, readRequest_frame request⟩
  | streamGranted image n b hr | streamAbandoned image b hr | joinLine image n hr
  | processGranted image n p b hr | processAbandoned image n b hr | dropStream n hr
  | starting image n p hr | push job hr => exact ⟨by rw [hr]; rfl, rfl, rfl, rfl⟩
  | silent hm =>
    cases hm with
    | again hr | halted hr | leave hr | closeJobs hr | joinWorkers hr | joinWriter hr =>
      exact ⟨by rw [hr]; rfl, rfl, rfl, rfl⟩
    | finish cancelled => exact absurd rfl (hgoes cancelled)

/-- Nothing goes out but with an event or the trailer. -/
theorem step_unsent {a : Act} (hfinish : ∀ cancelled, a ≠ .reader (.finish cancelled))
    (hwrite : ∀ ok, a ≠ .writer (.write ok)) (ht : t.step print st a taken = some t') :
    t'.framing = t.framing ∧ t'.sent = t.sent ∧ t'.serializeFailed = t.serializeFailed := by
  unfold Transport.step at ht
  split at ht
  · rename_i request
    cases request with
    | none =>
      obtain ⟨rfl, -⟩ := read_none ht
      exact ⟨rfl, rfl, rfl⟩
    | some request =>
      obtain ⟨rest, -, rfl⟩ := read_some ht
      exact ⟨rfl, rfl, rfl⟩
  · exact absurd rfl (hfinish _)
  · exact absurd rfl (hwrite _)
  · cases ht
    exact ⟨rfl, rfl, rfl⟩

/-- The trailer goes out on an OK return. -/
theorem delivered_finish (hinv : Inv c st) (h : Delivered print st t) {cancelled : Bool}
    (hr : st.reader = .finish)
    (ht : t.step print st (.reader (.finish cancelled)) taken = some t') :
    Delivered print (finishStream st cancelled) t' := by
  change (if (finalStatus st cancelled).isOk then
    some (t.write print (.complete st.started st.ok st.failed) taken).1 else some t) = some t' at ht
  have htrailer : trailer st.reader = 0 := by rw [hr]; rfl
  have hexited := hinv.joined_writer (by rw [hr]; rfl)
  split at ht
  · rename_i hok
    cases ht
    have hopen := (finalStatus_ok hok).2.1
    refine h.write hopen (by simp [hexited]) htrailer ?_ hopen fun _ _ => rfl
    simp [finishStream, hok]
  · rename_i hok
    cases ht
    exact h.same (by simp [finishStream, hok]) h.gone (fun hopen hw => ⟨hopen, hw⟩)
      (htrailer ▸ Nat.zero_le _) rfl
      rfl rfl

/-- The writer hands an event to the transport, or notes that the client left. -/
theorem delivered_writer (hinv : Inv c st) (h : Delivered print st t) {a : OAct}
    (hs : writerStep st a = some st')
    (ht : t.step print st (.writer a) taken = some t') : Delivered print st' t' := by
  cases writerStep_cases hs with
  | check cancelled hw | pop event rest hw | drained hw | timesOut hw =>
    obtain rfl : t = t' := Option.some.inj ht
    have hopen := h.open_of_writing (by simp [hw]) (by simp [hw])
    exact h.same rfl (fun hgone => absurd (hopen.symm.trans hgone) Bool.false_ne_true)
      (fun _ _ => ⟨hopen, by simp [hw]⟩) (Nat.le_refl _) rfl rfl rfl
  | write event ok hw =>
    have hopen := h.open_of_writing (by simp [hw]) (by simp [hw])
    have htrailer : trailer st.reader = 0 := by
      cases hr : st.reader with
      | returned status =>
        have := hinv.joined_writer (by rw [hr]; rfl)
        rw [hw] at this
        cases this
      | _ => rfl
    simp only [Transport.step, hw] at ht
    split at ht
    · rename_i hok
      cases ht
      refine h.write hopen (by simp [hw]) htrailer rfl hopen fun hlost hstays => ?_
      rw [hok] at hlost
      subst hlost
      exact absurd rfl hstays
    · cases ht
  | gone hw =>
    obtain rfl : t = t' := Option.some.inj ht
    exact h.same rfl (fun _ => .inl rfl) (fun hopen => by cases hopen) (Nat.le_refl _) rfl rfl rfl
  | halting hw =>
    obtain rfl : t = t' := Option.some.inj ht
    exact h.same rfl (fun _ => .inr rfl) (fun hopen _ => ⟨hopen, by simp [hw]⟩)
      (Nat.le_refl _) rfl rfl rfl

/-- **Every step of every thread** sends what it writes. -/
theorem delivered_step {a : Act} (hinv : Inv c st) (h : Delivered print st t)
    (hs : streamStep c k sh st a = some (sh', st')) (ht : t.step print st a taken = some t') :
    Delivered print st' t' := by
  cases a with
  | reader a =>
    by_cases hfinish : ∃ cancelled, a = .finish cancelled
    · obtain ⟨cancelled, rfl⟩ := hfinish
      obtain ⟨hr, rfl⟩ := readerStep_finish hs
      exact delivered_finish hinv h hr ht
    · have hgoes : ∀ cancelled, a ≠ .finish cancelled :=
        fun cancelled heq => hfinish ⟨cancelled, heq⟩
      obtain ⟨htrailer, hwire, hwriter, hgone⟩ := reader_frame hs hgoes
      obtain ⟨hframing, hsent, hfailed⟩ :=
        step_unsent (fun cancelled heq => hgoes cancelled (Act.reader.inj heq))
        (fun _ heq => by cases heq) ht
      exact h.same hwire (by rw [hwriter, hgone]; exact h.gone)
        (by rw [hwriter, hgone]; exact fun h₁ h₂ => ⟨h₁, h₂⟩)
        (htrailer ▸ Nat.zero_le _) hframing hsent hfailed
  | worker i a =>
    obtain rfl : t = t' := Option.some.inj ht
    change workerStep k sh st i a = some (sh', st') at hs
    unfold workerStep at hs
    split at hs
    · cases hs
    · obtain ⟨hreader, -, -, hwire, hwriter, hgone, -⟩ := worker_frame hs
      exact h.same hwire (by rw [hwriter, hgone]; exact h.gone)
        (by rw [hwriter, hgone]; exact fun h₁ h₂ => ⟨h₁, h₂⟩) (by rw [hreader]) rfl rfl rfl
  | writer a =>
    obtain ⟨st₁, hwrite, hs⟩ := Option.map_eq_some_iff.1 hs
    cases hs
    exact delivered_writer hinv h hwrite ht

end Delivered

theorem delivered_reachable {c : Config} {print : Printer} {calls : List Call} {p : Process}
    (hr : (lts c print calls).Reachable p) {k : Nat} {call : Call} {st : Stream} {t : Transport}
    (hcall : calls[k]? = some call) (hst : p.pipe.streams[k]? = some st)
    (ht : p.transports[k]? = some t) :
    Delivered print st t :=
  call_invariant (fun call => delivered_init c print call)
    (fun hinv h hs ht => delivered_step hinv h hs ht) hr k call st t hcall hst ht

/-! ## What the client is sent -/

/-- The number a `PageStarted` carries. -/
def startedNo : Event → Option Nat
  | .pageStarted _ n => some n
  | _ => none

/-- The number a terminal event carries. -/
def terminalNo : Event → Option Nat
  | .pageDocument _ n => some n
  | .pageRaw _ n _ _ => some n
  | _ => none

def numberAt (images : List PageImage) (i : Nat) : Nat := ((images[i]?).map (·.pageNo)).getD 0

section Numbers
variable {images : List PageImage}

theorem startedNo_eq {e : Event} (h : Tells images e) :
    startedNo e = e.started?.map (numberAt images) := by
  cases e with
  | pageStarted i n => simp [startedNo, Event.started?, numberAt, h i n rfl]
  | pageDocument | pageRaw | complete => rfl

theorem terminalNo_eq {e : Event} (h : Tells images e) :
    terminalNo e = e.terminal?.map (numberAt images) := by
  cases e with
  | pageDocument i n => simp [terminalNo, Event.terminal?, numberAt, h i n rfl]
  | pageRaw i n => simp [terminalNo, Event.terminal?, numberAt, h i n rfl]
  | pageStarted | complete => rfl

theorem startedNos_eq {l : List Event} (h : ∀ e ∈ l, Tells images e) :
    l.filterMap startedNo = (starteds l).map (numberAt images) := by
  rw [starteds, List.map_filterMap]
  exact List.filterMap_congr fun e he => startedNo_eq (h e he)

theorem terminalNos_eq {l : List Event} (h : ∀ e ∈ l, Tells images e) :
    l.filterMap terminalNo = (terminals l).map (numberAt images) := by
  rw [terminals, List.map_filterMap]
  exact List.filterMap_congr fun e he => terminalNo_eq (h e he)

theorem numbers_range {n : Nat} (h : n ≤ images.length) :
    (List.range n).map (numberAt images) = (images.take n).map (·.pageNo) := by
  refine List.ext_getElem (by simp [h]) fun i hi hi' => ?_
  have hlt : i < n := by simpa using hi
  have hin : i < images.length := Nat.lt_of_lt_of_le hlt h
  simp [numberAt, hin]

end Numbers

theorem mem_starteds {l : List Event} {i : Nat} (h : i ∈ starteds l) :
    ∃ n, Event.pageStarted i n ∈ l := by
  obtain ⟨e, he, hi⟩ := List.mem_filterMap.1 h
  cases e with
  | pageStarted j n =>
    cases hi
    exact ⟨n, he⟩
  | pageDocument | pageRaw | complete => cases hi

/-- An event that ends a page comes after the one that starts it, with its
index and its number. -/
def Follows (wire : List Event) : Prop :=
  ∀ pre e post, wire = pre ++ e :: post → ∀ i, e.terminal? = some i →
    ∃ n, eventPage e = some (i, n) ∧ Event.pageStarted i n ∈ pre

theorem follows_of_ordered {images : List PageImage} {wire : List Event} (hordered : Ordered wire)
    (htells : ∀ e ∈ wire, Tells images e) : Follows wire := by
  intro pre e post hwire i hi
  obtain ⟨n, hstarted⟩ := mem_starteds (hordered pre e post hwire i hi)
  have he : Tells images e := htells e (by simp [hwire])
  have hs : Tells images (.pageStarted i n) := htells _ (by simp [hwire, hstarted])
  have hpage : ∃ n', eventPage e = some (i, n') := by
    cases e with
    | pageDocument j n' =>
      cases hi
      exact ⟨n', rfl⟩
    | pageRaw j n' text error =>
      cases hi
      exact ⟨n', rfl⟩
    | pageStarted | complete => cases hi
  obtain ⟨n', hpage⟩ := hpage
  have hsame : n' = n := Option.some.inj ((he i n' hpage).symm.trans (hs i n rfl))
  exact ⟨n, hsame ▸ hpage, hstarted⟩

/-- **Pages go in the client's order.** Whatever the threads, the transport and
the other streams do, the pages a stream has started are the first of those its
client sent. -/
theorem pages_in_order {c : Config} {print : Printer} {calls : List Call} {p : Process}
    (hr : (lts c print calls).Reachable p) {k : Nat} {call : Call} {st : Stream} {t : Transport}
    (hcall : calls[k]? = some call) (hst : p.pipe.streams[k]? = some st)
    (ht : p.transports[k]? = some t) :
    st.wire.filterMap startedNo <+: (pagesOf call.messages).map (·.pageNo) ∧ Follows st.wire := by
  have hinv : Inv c st := inv_reachable (reachable_pipe hr) st (List.mem_of_getElem? hst)
  have hreplayed := replayed_reachable hr hcall hst ht
  have hlog : log st = st.wire ++ (hand st.writer ++ st.events) := List.append_assoc _ _ _
  have htells : ∀ e ∈ st.wire, Tells (pagesOf call.messages) e := fun e he =>
    hreplayed.tagged.events e (by rw [hlog]; exact List.mem_append_left _ he)
  refine ⟨?_, follows_of_ordered hinv.pagesOnce.2 htells⟩
  have hwire : starteds st.wire <+: List.range st.started := by
    rw [← hinv.started_log, hlog, starteds_append]
    exact List.prefix_append _ _
  calc st.wire.filterMap startedNo
      = (starteds st.wire).map (numberAt (pagesOf call.messages)) := startedNos_eq htells
    _ <+: (List.range st.started).map (numberAt (pagesOf call.messages)) := hwire.map _
    _ = ((pagesOf call.messages).take st.started).map (·.pageNo) :=
      numbers_range hreplayed.started_le
    _ <+: (pagesOf call.messages).map (·.pageNo) := (List.take_prefix _ _).map _

/-- A body with the same page twice. -/
def sampleCalls : List Call :=
  [⟨.whole, ⟨0, false⟩, [.pageImage samplePage, .pageImage samplePage]⟩]

def samplePrint : Printer := fun _ => some []

def sampleLabels : List Label := sampleRun.map fun l => ⟨l.1, l.2, true⟩

/-- What the only client of a process sees. -/
def seen (p : Process) : List (Reader × List Nat) × List Bool :=
  (p.pipe.streams.map fun st => (st.reader, st.wire.filterMap startedNo),
    p.transports.map (·.serializeFailed))

theorem sample_reach {c : Config}
    (hrun : (LTS.exec (processStep c samplePrint)
    (Process.init c sampleCalls) sampleLabels).map seen =
      some ([(.returned Status.OK, [1, 1])], [false])) :
    ∃ p st t, (lts c samplePrint sampleCalls).Reachable p ∧ p.pipe.streams = [st] ∧
      p.transports = [t] ∧
      st.reader = .returned Status.OK ∧ st.wire.filterMap startedNo = [1, 1] ∧
        t.serializeFailed = false := by
  obtain ⟨p, hexec, hseen⟩ := Option.map_eq_some_iff.1 hrun
  obtain ⟨hstreams, htransports⟩ := Prod.mk.inj hseen
  obtain ⟨st, hst, hview⟩ := List.map_eq_singleton_iff.1 hstreams
  obtain ⟨t, ht, hfailed⟩ := List.map_eq_singleton_iff.1 htransports
  obtain ⟨hret, hwire⟩ := Prod.mk.inj hview
  exact ⟨p, st, t, LTS.reachable_exec (.init rfl) hexec, hst, ht, hret, hwire, hfailed⟩

theorem pages_in_order_sampleCalls :
    ∃ p st, (lts smallConfig samplePrint sampleCalls).Reachable p ∧ p.pipe.streams = [st] ∧
      st.wire.filterMap startedNo = [1, 1] ∧
      (st.wire.filterMap startedNo <+: (pagesOf [.pageImage samplePage, .pageImage samplePage]).map
      (·.pageNo) ∧
        Follows st.wire) := by
  obtain ⟨p, st, t, hr, hst, ht, -, hwire, -⟩ := sample_reach (c := smallConfig) (by decide)
  exact ⟨p, st, hr, hst, hwire, pages_in_order (k := 0) hr rfl (by rw [hst]; rfl) (by rw [ht]; rfl)⟩

/-! ## The answer to a body -/

/-- mirrors src/http_gateway.cpp:45-60 -/
def httpStatusFor : StatusCode → Nat
  | .invalidArgument => 400
  | .resourceExhausted => 413
  | .unimplemented => 501
  | _ => 500

/-- The HTTP status `/v1/convert` answers once the stream has returned.
mirrors src/http_gateway.cpp:237-252 -/
def convertHttpStatus (t : Transport) (status : Status) : Nat :=
  if status.isOk then
    if t.serializeFailed then 500 else 200
  else httpStatusFor status.code

/-- Every page is started in the client's order and ended once, and the
trailer counts them. -/
structure Answered (pages : List PageImage) (wire : List Event) : Prop where
  started : wire.filterMap startedNo = pages.map (·.pageNo)
  ended : (wire.filterMap terminalNo).Perm (pages.map (·.pageNo))
  counted : ∃ pre ok failed, wire = pre ++ [.complete pages.length ok failed] ∧
    ok + failed = pages.length ∧
    ok = wire.countP Event.isDocument ∧ failed = wire.countP Event.isRaw

section Answer
variable {c : Config} {print : Printer} {call : Call} {st : Stream} {t : Transport}
    {status : Status}

/-- A body's stream that returned OK read all of the body. -/
theorem Replayed.all_started (hinv : Inv c st) (h : Replayed call st t)
    (hbody : call.framing ≠ .grpc)
    (hr : st.reader = .returned status) (hok : status.isOk = true) :
    st.started = (pagesOf call.messages).length := by
  obtain ⟨cancelled, rfl⟩ := hinv.returned_final status hr
  obtain ⟨hstatus, hgone, habort⟩ := finalStatus_ok hok
  rcases h.left (by rw [hr]; rfl) hbody with hhalt | hbad | hall
  · rcases hinv.halt_why hhalt with hleft | hbad | hfailed
    · rw [hgone] at hleft
      cases hleft
    · rw [hstatus] at hbad
      cases hbad
    · exact absurd hfailed habort
  · rw [hstatus] at hbad
    cases hbad
  · exact hall

theorem Replayed.answered (hinv : Inv c st) (h : Replayed call st t) (hbody : call.framing ≠ .grpc)
    (hr : st.reader = .returned status) (hok : status.isOk = true) :
    Answered (pagesOf call.messages) st.wire := by
  have hall := h.all_started hinv hbody hr hok
  obtain ⟨hstarted, hterminals, hokc, hfailedc⟩ := hinv.returned_wire hr hok
  obtain ⟨pre, hwire, -⟩ := hinv.returned_ok status hr hok
  have htells : ∀ e ∈ st.wire, Tells (pagesOf call.messages) e := fun e he =>
    h.tagged.events e (List.mem_append_left _ (List.mem_append_left _ he))
  have hnumbers : (List.range st.started).map (numberAt (pagesOf call.messages)) =
      (pagesOf call.messages).map (·.pageNo) := by
    rw [numbers_range h.started_le, hall, List.take_length]
  refine ⟨?_, ?_, pre, st.ok, st.failed, hall ▸ hwire, ?_, hokc, hfailedc⟩
  · rw [startedNos_eq htells, hstarted, hnumbers]
  · rw [terminalNos_eq htells, ← hnumbers]
    exact hterminals.map _
  · have hlen : (terminals st.wire).length = st.started := by simpa using hterminals.length_eq
    rw [← hall, ← hlen, hokc, hfailedc, terminals_length]

/-- Where no event failed to become JSON, all of them went out. -/
theorem Delivered.whole_sent (h : Delivered print st t) (hwhole : t.framing = .whole)
    (hfailed : t.serializeFailed = false) : t.sent.map some = st.wire.map print := by
  obtain ⟨hsent, hany⟩ := h.whole hwhole
  have hprints : ∀ e ∈ st.wire, (print e).isNone = false := fun e he =>
    Bool.eq_false_iff.2 (List.any_eq_false.1 (hany ▸ hfailed) e he)
  rw [hsent, List.map_filterMap, ← List.filterMap_eq_map']
  refine List.filterMap_congr fun e he => ?_
  have hsome := hprints e he
  cases hprint : print e with
  | none =>
    rw [hprint] at hsome
    cases hsome
  | some json => rfl

theorem httpStatusFor_ne (code : StatusCode) : httpStatusFor code ≠ 200 := by
  cases code <;> decide

theorem convertHttpStatus_sent (h : t.serializeFailed = false) :
    convertHttpStatus t Status.OK = 200 := by
  unfold convertHttpStatus
  rw [h]
  rfl

theorem convertHttpStatus_ok (h : convertHttpStatus t status = 200) :
    status.isOk = true ∧ t.serializeFailed = false := by
  unfold convertHttpStatus at h
  split at h
  · rename_i hok
    split at h
    · cases h
    · rename_i hfailed
      exact ⟨hok, Bool.eq_false_iff.2 hfailed⟩
  · exact absurd h (httpStatusFor_ne _)

end Answer

/-- **An OK answer is whole.** A body answered 200 by `/v1/convert`, or whose
stream ends without an error line, has every page of it started and ended, and
the answer carries every event, the trailer of a stream maybe excepted. -/
theorem body_answered {c : Config} {print : Printer} {calls : List Call} {p : Process}
    (hr : (lts c print calls).Reachable p) {k : Nat} {call : Call} {st : Stream} {t : Transport}
    (hcall : calls[k]? = some call) (hst : p.pipe.streams[k]? = some st)
    (ht : p.transports[k]? = some t)
    {status : Status} (hret : st.reader = .returned status) :
    (call.framing = .whole → convertHttpStatus t status = 200 →
      Answered (pagesOf call.messages) st.wire ∧ t.sent.map some = st.wire.map print) ∧
    (call.framing = .lines → status.isOk = true →
      Answered (pagesOf call.messages) st.wire ∧ t.sent.map some <+: st.wire.map print ∧
        st.wire.length ≤ t.sent.length + 1) := by
  have hinv : Inv c st := inv_reachable (reachable_pipe hr) st (List.mem_of_getElem? hst)
  have hreplayed := replayed_reachable hr hcall hst ht
  have hdelivered := delivered_reachable hr hcall hst ht
  refine ⟨fun hwhole h200 => ?_, fun hlines hok => ?_⟩
  · obtain ⟨hok, hfailed⟩ := convertHttpStatus_ok h200
    exact ⟨hreplayed.answered hinv (by simp [hwhole]) hret hok,
      hdelivered.whole_sent (hreplayed.framing.trans hwhole) hfailed⟩
  · have hframing := hreplayed.framing.trans hlines
    obtain ⟨cancelled, rfl⟩ := hinv.returned_final status hret
    have hexited := hinv.joined_writer (by rw [hret]; rfl)
    have hall := hdelivered.all_lines hframing (finalStatus_ok hok).2.1 (by simp [hexited])
    rw [hret] at hall
    exact ⟨hreplayed.answered hinv (by simp [hlines]) hret hok, hdelivered.lines hframing, hall⟩

theorem body_answered_sampleCalls :
    ∃ p st t, (lts smallConfig samplePrint sampleCalls).Reachable p ∧ p.pipe.streams = [st] ∧
      p.transports = [t] ∧
      (Answered (pagesOf [.pageImage samplePage, .pageImage samplePage]) st.wire ∧
        t.sent.map some = st.wire.map samplePrint) := by
  obtain ⟨p, st, t, hr, hst, ht, hret, -, hfailed⟩ := sample_reach (c := smallConfig) (by decide)
  exact ⟨p, st, t, hr, hst, ht,
    (body_answered (k := 0) hr rfl (by rw [hst]; rfl) (by rw [ht]; rfl) hret).1 rfl
    (convertHttpStatus_sent hfailed)⟩

end VlmConvert.L4.Transports
