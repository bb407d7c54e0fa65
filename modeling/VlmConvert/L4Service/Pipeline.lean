import VlmConvert.L4Service.BudgetLease

/-!
# The page pipeline of `ConvertPagesCore`

`src/service/vlm_convert_service.cpp:226-582`. One stream is a reader (the
RPC thread), `concurrency` workers and a writer:

    reader → jobs → workers → events → writer

Any number of streams run against one process byte budget
(`buffered_bytes_`) and one slot pool (`vlm_slots_`); each has its own
stream byte budget. A state (`Sys`) is the streams plus the two shared
budgets, and a label names a stream and a step of one of its threads.

A step is what a thread does between two points where another thread can
be observed: one channel operation under its mutex, one pass of
`Budget::acquire` (`BudgetLease`), one atomic store, one lease given back.
The transport (`read`, `write`, `cancelled`) and `convert_page` are oracles:
their results are part of the label. `convert_page` answers nothing only
when its call was cut short, and `generate` reports that only after its
probe `halted` answered true, so that result needs `halt`.

Pages are told apart by admission index (`Job.idx`), not by `page_no`,
which a client may repeat. Ghost state: the indices on jobs and events, and
`dropped`, the pages a worker skipped.

Left out: the option checks before the pipeline starts (they return before
any thread exists), the fields of a job that only `convert_page` reads, and
the service-wide metrics.
-/
namespace VlmConvert.L4.Pipeline

open BudgetLease

/-! ## Configuration and messages -/

/-- The limits the pipeline reads, within the ranges `load_config_from_env`
admits; its upper bound on the number of workers (64) is not needed.
mirrors src/config.cpp:117-132 -/
structure Config where
  concurrency : Nat
  maxInflight : Nat
  maxPageBytes : Nat
  maxPages : Nat
  maxStreamBufferedBytes : Nat
  maxBufferedBytes : Nat
  concurrency_ok : 1 ≤ concurrency
  maxInflight_ok : 1 ≤ maxInflight ∧ maxInflight ≤ 4096
  maxPageBytes_ok : 1024 ≤ maxPageBytes ∧ maxPageBytes ≤ 1024 * 1024 * 1024
  maxPages_ok : 1 ≤ maxPages ∧ maxPages ≤ 100000
  maxStreamBufferedBytes_ok : maxPageBytes ≤ maxStreamBufferedBytes ∧
    maxStreamBufferedBytes ≤ 2 ^ 40
  maxBufferedBytes_ok : maxPageBytes ≤ maxBufferedBytes ∧ maxBufferedBytes ≤ 2 ^ 40

/-- What the pipeline reads of `ConvertOptions`. -/
structure Options where
  concurrency : Nat
  abortOnError : Bool
  deriving DecidableEq, Repr

/-- mirrors src/service/vlm_convert_service.cpp:221-224 -/
def effectiveConcurrency (c : Config) (o : Options) : Nat :=
  if o.concurrency = 0 then c.concurrency else min c.concurrency o.concurrency

inductive StatusCode
  | ok | cancelled | invalidArgument | resourceExhausted | aborted | unimplemented
  deriving DecidableEq, Repr

structure Status where
  code : StatusCode
  message : String
  deriving DecidableEq, Repr

def Status.OK : Status := ⟨.ok, ""⟩

def Status.isOk (s : Status) : Bool := decide (s.code = .ok)

structure PageImage where
  pageNo : Nat
  png : List UInt8
  deriving DecidableEq, Repr

inductive Request
  | options
  | pdfChunk
  | pageImage (image : PageImage)
  | empty
  deriving DecidableEq, Repr

/-- mirrors src/service/vlm_convert_service.cpp:90-93 -/
def isPng (bytes : List UInt8) : Bool :=
  [0x89, 0x50, 0x4E, 0x47, 0x0D, 0x0A, 0x1A, 0x0A].isPrefixOf bytes

/-- The stream's answer to a page image it will not admit; `none` when the
page goes on to the budgets.
mirrors src/service/vlm_convert_service.cpp:474-503 -/
def refusePage (c : Config) (started : Nat) (image : PageImage) : Option Status :=
  if image.pageNo = 0 then some ⟨.invalidArgument, "page_no is 1-based; got 0"⟩
  else if image.pageNo > 2147483647 then
    some ⟨.invalidArgument, "page_no above 2147483647: " ++ toString image.pageNo⟩
  else if image.png.length > c.maxPageBytes then
    some ⟨.resourceExhausted, "page PNG above the " ++ toString c.maxPageBytes ++ " byte cap"⟩
  else if !isPng image.png then some ⟨.invalidArgument, "page bytes are not a PNG"⟩
  else if started ≥ c.maxPages then
    some ⟨.resourceExhausted, "stream above the " ++ toString c.maxPages ++ " page cap"⟩
  else none

/-- `idx` (ghost): the page's admission index. -/
inductive Event
  | pageStarted (idx pageNo : Nat)
  | pageDocument (idx pageNo : Nat)
  | pageRaw (idx pageNo : Nat) (text error : String)
  | complete (pagesStarted pagesOk pagesFailed : Nat)
  deriving DecidableEq, Repr

/-- How a call of `convert_page` ended. -/
inductive Result
  | document
  | raw (text error : String)
  | nothing
  | exception (what : String)
  deriving DecidableEq, Repr

/-- A page in the model queue, with the amounts on its two leases.
mirrors src/service/vlm_convert_service.cpp:97-107 -/
structure Job where
  idx : Nat
  image : PageImage
  streamBytes : Nat
  processBytes : Nat
  deriving DecidableEq, Repr

/-! ## Threads -/

/-- Where the reader stands; the arguments are what it holds there (the
page, the amounts on its leases, the page's index).
mirrors src/service/vlm_convert_service.cpp:455-581 -/
inductive Reader
  | check
  | read
  | waitStream (image : PageImage)
  | gotStream (image : PageImage) (stream : Nat)
  | waitProcess (image : PageImage) (stream : Nat)
  | dropStream (stream : Nat)
  | starting (image : PageImage) (stream process : Nat)
  | push (job : Job)
  | leave
  | closeJobs
  | joinWorkers
  | joinWriter
  | finish
  | returned (status : Status)
  deriving DecidableEq, Repr

/-- Where a worker stands; `slot` is the amount on its slot lease. The last
three are the destructors at the end of an iteration: the slot, then the
job's members in reverse order.
mirrors src/service/vlm_convert_service.cpp:397-447 -/
inductive Worker
  | pop
  | got (job : Job)
  | enter (job : Job)
  | waitSlot (job : Job)
  | converting (job : Job) (slot : Nat)
  | converted (job : Job) (slot : Nat) (event : Event)
  | counted (job : Job) (slot : Nat) (event : Event)
  | pushed (job : Job) (slot : Nat) (failedPage : Bool)
  | dropSlot (job : Job) (slot : Nat)
  | dropProcess (job : Job)
  | dropStream (job : Job)
  | exited
  deriving DecidableEq, Repr

/-- mirrors src/service/vlm_convert_service.cpp:265-284 -/
inductive Writer
  | check
  | pop
  | write (event : Event)
  | gone
  | halting
  | exited
  deriving DecidableEq, Repr

/-- Who stands in a budget's line. -/
inductive Tid
  | reader (stream : Nat)
  | worker (stream i : Nat)
  deriving DecidableEq, Repr

structure Stream where
  options : Options
  reader : Reader
  workers : List Worker
  writer : Writer
  jobs : List Job
  jobsClosed : Bool
  events : List Event
  eventsClosed : Bool
  wire : List Event
  halt : Bool
  clientGone : Bool
  sawInput : Bool
  status : Status
  started : Nat
  ok : Nat
  failed : Nat
  streamBytes : Budget Tid
  dropped : List Nat

/-- `buffered_bytes_` and `vlm_slots_`. -/
structure Shared where
  process : Budget Tid
  slots : Budget Tid

structure Sys where
  streams : List Stream
  shared : Shared

def Stream.init (c : Config) (o : Options) : Stream where
  options := o
  reader := .check
  workers := List.replicate (effectiveConcurrency c o) .pop
  writer := .check
  jobs := []
  jobsClosed := false
  events := []
  eventsClosed := false
  wire := []
  halt := false
  clientGone := false
  sawInput := false
  status := Status.OK
  started := 0
  ok := 0
  failed := 0
  streamBytes := Budget.make c.maxStreamBufferedBytes
  dropped := []

/-- mirrors src/service/vlm_convert_service.cpp:111-114 -/
def Sys.init (c : Config) (os : List Options) : Sys :=
  ⟨os.map (Stream.init c), ⟨Budget.make c.maxBufferedBytes, Budget.make c.maxInflight⟩⟩

/-- `go` is a thread's own next step; the other labels carry an oracle's
answer or say how a pass of `acquire` ended. -/
inductive RAct
  | go
  | read (request : Option Request)
  | grant
  | abandon
  | finish (cancelled : Bool)
  deriving DecidableEq, Repr

inductive WAct
  | go
  | grant
  | abandon
  | convert (result : Result)
  deriving DecidableEq, Repr

inductive OAct
  | go
  | check (cancelled : Bool)
  | write (ok : Bool)
  deriving DecidableEq, Repr

inductive Act
  | reader (a : RAct)
  | worker (i : Nat) (a : WAct)
  | writer (a : OAct)
  deriving DecidableEq, Repr

/-- `std::atomic<uint32_t>::operator++`. -/
def incr (n : Nat) : Nat := (n + 1) % 2 ^ 32

theorem incr_eq {n : Nat} (h : n + 1 < 2 ^ 32) : incr n = n + 1 := Nat.mod_eq_of_lt h

/-! ## The reader -/

/-- The request just read.
mirrors src/service/vlm_convert_service.cpp:455-510 -/
def readRequest (c : Config) (k : Nat) (st : Stream) : Option Request → Stream
  | none => { st with reader := .leave }
  | some .options =>
    { st with
      status := ⟨.invalidArgument, "ConvertOptions must not repeat on the stream"⟩
      reader := .leave }
  | some .pdfChunk =>
    { st with
      status := ⟨.unimplemented, "PDF input needs a rasterizer this build does not carry; send " ++
        "PageImage PNGs instead"⟩
      reader := .leave }
  | some .empty => { st with reader := .check }
  | some (.pageImage image) =>
    match refusePage c st.started image with
    | some s => { st with sawInput := true, status := s, reader := .leave }
    | none =>
      { st with
        sawInput := true
        streamBytes := st.streamBytes.enter (.reader k) image.png.length
        reader := .waitStream image }

/-- What `ConvertPagesCore` returns once writer and workers are joined, and
the trailer it sends first when that is OK.
mirrors src/service/vlm_convert_service.cpp:554-581 -/
def finalStatus (st : Stream) (cancelled : Bool) : Status :=
  if !st.status.isOk then st.status
  else if st.clientGone || cancelled then ⟨.cancelled, "client cancelled the stream"⟩
  else if !st.sawInput then ⟨.invalidArgument, "stream carried no pages"⟩
  else if st.options.abortOnError && decide (st.failed > 0) then
    ⟨.aborted, "abort_on_error set and " ++ toString st.failed ++ " page(s) failed"⟩
  else Status.OK

def finishStream (st : Stream) (cancelled : Bool) : Stream :=
  { st with
    wire := if (finalStatus st cancelled).isOk then
      st.wire ++ [.complete st.started st.ok st.failed] else st.wire
    reader := .returned (finalStatus st cancelled) }

/-- mirrors src/service/vlm_convert_service.cpp:455-581 -/
def readerStep (c : Config) (k : Nat) (sh : Shared) (st : Stream) (a : RAct) :
    Option (Shared × Stream) :=
  match st.reader, a with
  | .check, .go => some (sh, { st with reader := if st.halt then .leave else .read })
  | .read, .read request => some (sh, readRequest c k st request)
  | .waitStream image, .grant =>
    (st.streamBytes.grant (.reader k)).map fun r =>
      (sh, { st with streamBytes := r.2, reader := .gotStream image r.1 })
  | .waitStream _, .abandon =>
    if st.halt then
      (st.streamBytes.abandon (.reader k)).map fun b =>
        (sh, { st with streamBytes := b, reader := .leave })
    else none
  | .gotStream image n, .go =>
    some ({ sh with process := sh.process.enter (.reader k) image.png.length },
      { st with reader := .waitProcess image n })
  | .waitProcess image n, .grant =>
    (sh.process.grant (.reader k)).map fun r =>
      ({ sh with process := r.2 }, { st with reader := .starting image n r.1 })
  | .waitProcess _ n, .abandon =>
    if st.halt then
      (sh.process.abandon (.reader k)).map fun b =>
        ({ sh with process := b }, { st with reader := .dropStream n })
    else none
  | .dropStream n, .go =>
    some (sh, { st with streamBytes := st.streamBytes.release n, reader := .leave })
  | .starting image n p, .go =>
    some (sh, { st with
      started := incr st.started
      events := st.events ++ [.pageStarted st.started image.pageNo]
      reader := .push ⟨st.started, image, n, p⟩ })
  | .push job, .go => some (sh, { st with jobs := st.jobs ++ [job], reader := .check })
  | .leave, .go =>
    some (sh, { st with halt := st.halt || !st.status.isOk, reader := .closeJobs })
  | .closeJobs, .go => some (sh, { st with jobsClosed := true, reader := .joinWorkers })
  | .joinWorkers, .go =>
    if ∀ w ∈ st.workers, w = .exited then
      some (sh, { st with eventsClosed := true, reader := .joinWriter })
    else none
  | .joinWriter, .go =>
    if st.writer = .exited then some (sh, { st with reader := .finish }) else none
  | .finish, .finish cancelled => some (sh, finishStream st cancelled)
  | _, _ => none

/-! ## The workers -/

/-- The page's terminal event; `none`: the page emits nothing. An exception
out of `convert_page` fails the page.
mirrors src/service/vlm_convert_service.cpp:420-433 -/
def resultEvent (job : Job) : Result → Option Event
  | .document => some (.pageDocument job.idx job.image.pageNo)
  | .raw text error => some (.pageRaw job.idx job.image.pageNo text error)
  | .nothing => none
  | .exception what =>
    some (.pageRaw job.idx job.image.pageNo "" ("internal error converting the page: " ++ what))

def Event.isRaw : Event → Bool
  | .pageRaw .. => true
  | _ => false

def setWorker (st : Stream) (i : Nat) (w : Worker) : Stream :=
  { st with workers := st.workers.set i w }

/-- Worker `i`, standing at `w`.
mirrors src/service/vlm_convert_service.cpp:397-447 -/
def workerAt (k : Nat) (sh : Shared) (st : Stream) (i : Nat) (w : Worker) (a : WAct) :
    Option (Shared × Stream) :=
  match w, a with
  | .pop, .go =>
    match st.jobs with
    | job :: rest => some (sh, { setWorker st i (.got job) with jobs := rest })
    | [] => if st.jobsClosed then some (sh, setWorker st i .exited) else none
  | .got job, .go =>
    if st.halt then
      some (sh, { setWorker st i (.dropProcess job) with dropped := st.dropped ++ [job.idx] })
    else some (sh, setWorker st i (.enter job))
  | .enter job, .go =>
    some ({ sh with slots := sh.slots.enter (.worker k i) 1 }, setWorker st i (.waitSlot job))
  | .waitSlot job, .grant =>
    (sh.slots.grant (.worker k i)).map fun r =>
      ({ sh with slots := r.2 }, setWorker st i (.converting job r.1))
  | .waitSlot job, .abandon =>
    if st.halt then
      (sh.slots.abandon (.worker k i)).map fun b =>
        ({ sh with slots := b },
          { setWorker st i (.dropProcess job) with dropped := st.dropped ++ [job.idx] })
    else none
  | .converting job slot, .convert result =>
    match resultEvent job result with
    | some event => some (sh, setWorker st i (.converted job slot event))
    | none =>
      if st.halt then
        some (sh, { setWorker st i (.dropSlot job slot) with dropped := st.dropped ++ [job.idx] })
      else none
  | .converted job slot event, .go =>
    some (sh, { setWorker st i (.counted job slot event) with
      ok := if event.isRaw then st.ok else incr st.ok
      failed := if event.isRaw then incr st.failed else st.failed })
  | .counted job slot event, .go =>
    some (sh, { setWorker st i (.pushed job slot event.isRaw) with events := st.events ++ [event] })
  | .pushed job slot failedPage, .go =>
    some (sh, { setWorker st i (.dropSlot job slot) with
      halt := st.halt || (failedPage && st.options.abortOnError) })
  | .dropSlot job slot, .go =>
    some ({ sh with slots := sh.slots.release slot }, setWorker st i (.dropProcess job))
  | .dropProcess job, .go =>
    some ({ sh with process := sh.process.release job.processBytes },
      setWorker st i (.dropStream job))
  | .dropStream job, .go =>
    some (sh, { setWorker st i .pop with streamBytes := st.streamBytes.release job.streamBytes })
  | _, _ => none

def workerStep (k : Nat) (sh : Shared) (st : Stream) (i : Nat) (a : WAct) :
    Option (Shared × Stream) :=
  match st.workers[i]? with
  | none => none
  | some w => workerAt k sh st i w a

/-! ## The writer -/

/-- `pop_for` times out only on an open, empty channel; the transport is
then asked again.
mirrors src/service/vlm_convert_service.cpp:265-284 -/
def writerStep (st : Stream) (a : OAct) : Option Stream :=
  match st.writer, a with
  | .check, .check cancelled => some { st with writer := if cancelled then .gone else .pop }
  | .pop, .go =>
    match st.events with
    | event :: rest => some { st with events := rest, writer := .write event }
    | [] => some { st with writer := if st.eventsClosed then .exited else .check }
  | .write event, .write ok =>
    some { st with wire := st.wire ++ [event], writer := if ok then .check else .gone }
  | .gone, .go => some { st with clientGone := true, writer := .halting }
  | .halting, .go => some { st with halt := true, writer := .exited }
  | _, _ => none

/-! ## What a step can do

The step functions read backwards: one constructor for each move of a
thread, with its guard and the states around it. A *silent* move is one
that touches no budget and hands no lease on. -/

/-- The reader's moves outside a page. -/
inductive ReaderSilent (st : Stream) : RAct → Stream → Prop
  | again (hr : st.reader = .check) (hhalt : st.halt = false) :
    ReaderSilent st .go { st with reader := .read }
  | halted (hr : st.reader = .check) (hhalt : st.halt = true) :
    ReaderSilent st .go { st with reader := .leave }
  | leave (hr : st.reader = .leave) :
    ReaderSilent st .go { st with halt := st.halt || !st.status.isOk, reader := .closeJobs }
  | closeJobs (hr : st.reader = .closeJobs) :
    ReaderSilent st .go { st with jobsClosed := true, reader := .joinWorkers }
  | joinWorkers (hr : st.reader = .joinWorkers) (hall : ∀ w ∈ st.workers, w = .exited) :
    ReaderSilent st .go { st with eventsClosed := true, reader := .joinWriter }
  | joinWriter (hr : st.reader = .joinWriter) (hw : st.writer = .exited) :
    ReaderSilent st .go { st with reader := .finish }
  | finish (cancelled : Bool) (hr : st.reader = .finish) :
    ReaderSilent st (.finish cancelled) (finishStream st cancelled)

inductive ReaderMove (c : Config) (k : Nat) (sh : Shared) (st : Stream) :
    RAct → Shared → Stream → Prop
  | silent {a : RAct} {st' : Stream} (hm : ReaderSilent st a st') : ReaderMove c k sh st a sh st'
  | read (request : Option Request) (hr : st.reader = .read) :
    ReaderMove c k sh st (.read request) sh (readRequest c k st request)
  | streamGranted (image : PageImage) (n : Nat) (b : Budget Tid)
    (hr : st.reader = .waitStream image) (hg : st.streamBytes.grant (.reader k) = some (n, b)) :
    ReaderMove c k sh st .grant sh { st with streamBytes := b, reader := .gotStream image n }
  | streamAbandoned (image : PageImage) (b : Budget Tid) (hr : st.reader = .waitStream image)
    (hhalt : st.halt = true) (hb : st.streamBytes.abandon (.reader k) = some b) :
    ReaderMove c k sh st .abandon sh { st with streamBytes := b, reader := .leave }
  | joinLine (image : PageImage) (n : Nat) (hr : st.reader = .gotStream image n) :
    ReaderMove c k sh st .go
      { sh with process := sh.process.enter (.reader k) image.png.length }
      { st with reader := .waitProcess image n }
  | processGranted (image : PageImage) (n p : Nat) (b : Budget Tid)
    (hr : st.reader = .waitProcess image n) (hg : sh.process.grant (.reader k) = some (p, b)) :
    ReaderMove c k sh st .grant { sh with process := b } { st with reader := .starting image n p }
  | processAbandoned (image : PageImage) (n : Nat) (b : Budget Tid)
    (hr : st.reader = .waitProcess image n) (hhalt : st.halt = true)
    (hb : sh.process.abandon (.reader k) = some b) :
    ReaderMove c k sh st .abandon { sh with process := b } { st with reader := .dropStream n }
  | dropStream (n : Nat) (hr : st.reader = .dropStream n) :
    ReaderMove c k sh st .go sh
      { st with streamBytes := st.streamBytes.release n, reader := .leave }
  | starting (image : PageImage) (n p : Nat) (hr : st.reader = .starting image n p) :
    ReaderMove c k sh st .go sh
      { st with
        started := incr st.started
        events := st.events ++ [.pageStarted st.started image.pageNo]
        reader := .push ⟨st.started, image, n, p⟩ }
  | push (job : Job) (hr : st.reader = .push job) :
    ReaderMove c k sh st .go sh { st with jobs := st.jobs ++ [job], reader := .check }

/-- The moves of worker `i` with the leases it holds; what it has become
comes last but one. -/
inductive WorkerSilent (st : Stream) (i : Nat) : Worker → WAct → Worker → Stream → Prop
  | exit (hjobs : st.jobs = []) (hclosed : st.jobsClosed = true) :
    WorkerSilent st i .pop .go .exited (setWorker st i .exited)
  | skip (job : Job) (hhalt : st.halt = true) :
    WorkerSilent st i (.got job) .go (.dropProcess job)
      { setWorker st i (.dropProcess job) with dropped := st.dropped ++ [job.idx] }
  | take (job : Job) (hhalt : st.halt = false) :
    WorkerSilent st i (.got job) .go (.enter job) (setWorker st i (.enter job))
  | converted (job : Job) (slot : Nat) (result : Result) (event : Event)
    (hevent : resultEvent job result = some event) :
    WorkerSilent st i (.converting job slot) (.convert result) (.converted job slot event)
      (setWorker st i (.converted job slot event))
  | cut (job : Job) (slot : Nat) (result : Result) (hhalt : st.halt = true) :
    WorkerSilent st i (.converting job slot) (.convert result) (.dropSlot job slot)
      { setWorker st i (.dropSlot job slot) with dropped := st.dropped ++ [job.idx] }
  | count (job : Job) (slot : Nat) (event : Event) :
    WorkerSilent st i (.converted job slot event) .go (.counted job slot event)
      { setWorker st i (.counted job slot event) with
        ok := if event.isRaw then st.ok else incr st.ok
        failed := if event.isRaw then incr st.failed else st.failed }
  | answer (job : Job) (slot : Nat) (event : Event) :
    WorkerSilent st i (.counted job slot event) .go (.pushed job slot event.isRaw)
      { setWorker st i (.pushed job slot event.isRaw) with events := st.events ++ [event] }
  | abort (job : Job) (slot : Nat) (failedPage : Bool) :
    WorkerSilent st i (.pushed job slot failedPage) .go (.dropSlot job slot)
      { setWorker st i (.dropSlot job slot) with
        halt := st.halt || (failedPage && st.options.abortOnError) }

inductive WorkerMove (k : Nat) (sh : Shared) (st : Stream) (i : Nat) :
    Worker → WAct → Worker → Shared → Stream → Prop
  | silent {w w' : Worker} {a : WAct} {st' : Stream} (hm : WorkerSilent st i w a w' st') :
    WorkerMove k sh st i w a w' sh st'
  | pop (job : Job) (rest : List Job) (hjobs : st.jobs = job :: rest) :
    WorkerMove k sh st i .pop .go (.got job) sh { setWorker st i (.got job) with jobs := rest }
  | joinLine (job : Job) :
    WorkerMove k sh st i (.enter job) .go (.waitSlot job)
      { sh with slots := sh.slots.enter (.worker k i) 1 } (setWorker st i (.waitSlot job))
  | granted (job : Job) (n : Nat) (b : Budget Tid)
    (hg : sh.slots.grant (.worker k i) = some (n, b)) :
    WorkerMove k sh st i (.waitSlot job) .grant (.converting job n) { sh with slots := b }
      (setWorker st i (.converting job n))
  | abandoned (job : Job) (b : Budget Tid) (hhalt : st.halt = true)
    (hb : sh.slots.abandon (.worker k i) = some b) :
    WorkerMove k sh st i (.waitSlot job) .abandon (.dropProcess job) { sh with slots := b }
      { setWorker st i (.dropProcess job) with dropped := st.dropped ++ [job.idx] }
  | dropSlot (job : Job) (slot : Nat) :
    WorkerMove k sh st i (.dropSlot job slot) .go (.dropProcess job)
      { sh with slots := sh.slots.release slot } (setWorker st i (.dropProcess job))
  | dropProcess (job : Job) :
    WorkerMove k sh st i (.dropProcess job) .go (.dropStream job)
      { sh with process := sh.process.release job.processBytes }
      (setWorker st i (.dropStream job))
  | dropStream (job : Job) :
    WorkerMove k sh st i (.dropStream job) .go .pop sh
      { setWorker st i .pop with streamBytes := st.streamBytes.release job.streamBytes }

inductive WriterMove (st : Stream) : OAct → Stream → Prop
  | check (cancelled : Bool) (hw : st.writer = .check) :
    WriterMove st (.check cancelled) { st with writer := if cancelled then .gone else .pop }
  | pop (event : Event) (rest : List Event) (hw : st.writer = .pop)
    (hevents : st.events = event :: rest) :
    WriterMove st .go { st with events := rest, writer := .write event }
  | drained (hw : st.writer = .pop) (hevents : st.events = []) (hclosed : st.eventsClosed = true) :
    WriterMove st .go { st with writer := .exited }
  | timesOut (hw : st.writer = .pop) (hevents : st.events = [])
    (hopen : st.eventsClosed = false) : WriterMove st .go { st with writer := .check }
  | write (event : Event) (ok : Bool) (hw : st.writer = .write event) :
    WriterMove st (.write ok)
      { st with wire := st.wire ++ [event], writer := if ok then .check else .gone }
  | gone (hw : st.writer = .gone) :
    WriterMove st .go { st with clientGone := true, writer := .halting }
  | halting (hw : st.writer = .halting) :
    WriterMove st .go { st with halt := true, writer := .exited }

section Moves
variable {c : Config} {k i : Nat} {sh sh' : Shared} {st st' : Stream}

/-- **The reader** has no other moves. -/
theorem readerStep_cases {a : RAct} (h : readerStep c k sh st a = some (sh', st')) :
    ReaderMove c k sh st a sh' st' := by
  unfold readerStep at h
  split at h
  case h_1 hr =>
    cases h
    by_cases hhalt : st.halt = true
    · rw [if_pos hhalt]
      exact .silent (.halted hr hhalt)
    · rw [if_neg hhalt]
      exact .silent (.again hr (Bool.eq_false_iff.2 hhalt))
  case h_2 request hr =>
    cases h
    exact .read request hr
  case h_3 image hr =>
    obtain ⟨⟨n, b⟩, hg, h⟩ := Option.map_eq_some_iff.1 h
    cases h
    exact .streamGranted image n b hr hg
  case h_4 image hr =>
    split at h
    case isTrue hhalt =>
      obtain ⟨b, hb, h⟩ := Option.map_eq_some_iff.1 h
      cases h
      exact .streamAbandoned image b hr hhalt hb
    case isFalse => cases h
  case h_5 image n hr =>
    cases h
    exact .joinLine image n hr
  case h_6 image n hr =>
    obtain ⟨⟨p, b⟩, hg, h⟩ := Option.map_eq_some_iff.1 h
    cases h
    exact .processGranted image n p b hr hg
  case h_7 image n hr =>
    split at h
    case isTrue hhalt =>
      obtain ⟨b, hb, h⟩ := Option.map_eq_some_iff.1 h
      cases h
      exact .processAbandoned image n b hr hhalt hb
    case isFalse => cases h
  case h_8 n hr =>
    cases h
    exact .dropStream n hr
  case h_9 image n p hr =>
    cases h
    exact .starting image n p hr
  case h_10 job hr =>
    cases h
    exact .push job hr
  case h_11 hr =>
    cases h
    exact .silent (.leave hr)
  case h_12 hr =>
    cases h
    exact .silent (.closeJobs hr)
  case h_13 hr =>
    split at h
    case isTrue hall =>
      cases h
      exact .silent (.joinWorkers hr hall)
    case isFalse => cases h
  case h_14 hr =>
    split at h
    case isTrue hw =>
      cases h
      exact .silent (.joinWriter hr hw)
    case isFalse => cases h
  case h_15 cancelled hr =>
    cases h
    exact .silent (.finish cancelled hr)
  case h_16 => cases h

/-- **A worker** has no other moves. -/
theorem workerAt_cases {w : Worker} {a : WAct} (h : workerAt k sh st i w a = some (sh', st')) :
    ∃ w', WorkerMove k sh st i w a w' sh' st' := by
  unfold workerAt at h
  split at h
  case h_1 =>
    split at h
    case h_1 job rest hjobs =>
      cases h
      exact ⟨_, .pop job rest hjobs⟩
    case h_2 hjobs =>
      split at h
      case isTrue hclosed =>
        cases h
        exact ⟨_, .silent (.exit hjobs hclosed)⟩
      case isFalse => cases h
  case h_2 job =>
    split at h
    case isTrue hhalt =>
      cases h
      exact ⟨_, .silent (.skip job hhalt)⟩
    case isFalse hhalt =>
      cases h
      exact ⟨_, .silent (.take job (Bool.eq_false_iff.2 hhalt))⟩
  case h_3 job =>
    cases h
    exact ⟨_, .joinLine job⟩
  case h_4 job =>
    obtain ⟨⟨n, b⟩, hg, h⟩ := Option.map_eq_some_iff.1 h
    cases h
    exact ⟨_, .granted job n b hg⟩
  case h_5 job =>
    split at h
    case isTrue hhalt =>
      obtain ⟨b, hb, h⟩ := Option.map_eq_some_iff.1 h
      cases h
      exact ⟨_, .abandoned job b hhalt hb⟩
    case isFalse => cases h
  case h_6 job slot result =>
    split at h
    case h_1 event hevent =>
      cases h
      exact ⟨_, .silent (.converted job slot result event hevent)⟩
    case h_2 =>
      split at h
      case isTrue hhalt =>
        cases h
        exact ⟨_, .silent (.cut job slot result hhalt)⟩
      case isFalse => cases h
  case h_7 job slot event =>
    cases h
    exact ⟨_, .silent (.count job slot event)⟩
  case h_8 job slot event =>
    cases h
    exact ⟨_, .silent (.answer job slot event)⟩
  case h_9 job slot failedPage =>
    cases h
    exact ⟨_, .silent (.abort job slot failedPage)⟩
  case h_10 job slot =>
    cases h
    exact ⟨_, .dropSlot job slot⟩
  case h_11 job =>
    cases h
    exact ⟨_, .dropProcess job⟩
  case h_12 job =>
    cases h
    exact ⟨_, .dropStream job⟩
  case h_13 => cases h

/-- **The writer** has no other moves. -/
theorem writerStep_cases {a : OAct} (h : writerStep st a = some st') : WriterMove st a st' := by
  unfold writerStep at h
  split at h
  case h_1 cancelled hw =>
    cases h
    exact .check cancelled hw
  case h_2 hw =>
    split at h
    case h_1 event rest hevents =>
      cases h
      exact .pop event rest hw hevents
    case h_2 hevents =>
      cases h
      by_cases hclosed : st.eventsClosed = true
      · rw [if_pos hclosed]
        exact .drained hw hevents hclosed
      · rw [if_neg hclosed]
        exact .timesOut hw hevents (Bool.eq_false_iff.2 hclosed)
  case h_3 event ok hw =>
    cases h
    exact .write event ok hw
  case h_4 hw =>
    cases h
    exact .gone hw
  case h_5 hw =>
    cases h
    exact .halting hw
  case h_6 => cases h

/-- What a worker leaves alone. -/
theorem WorkerMove.frame {w w' : Worker} {a : WAct} (hm : WorkerMove k sh st i w a w' sh' st') :
    st'.reader = st.reader ∧ st'.workers = st.workers.set i w' ∧ st'.options = st.options := by
  cases hm with
  | silent hm => cases hm <;> exact ⟨rfl, rfl, rfl⟩
  | _ => exact ⟨rfl, rfl, rfl⟩

end Moves

/-! ## The system -/

def streamStep (c : Config) (k : Nat) (sh : Shared) (st : Stream) : Act → Option (Shared × Stream)
  | .reader a => readerStep c k sh st a
  | .worker i a => workerStep k sh st i a
  | .writer a => (writerStep st a).map fun st' => (sh, st')

def sysStep (c : Config) (s : Sys) (l : Nat × Act) : Option Sys :=
  match s.streams[l.1]? with
  | none => none
  | some st =>
    (streamStep c l.1 s.shared st l.2).map fun r => ⟨s.streams.set l.1 r.2, r.1⟩

def lts (c : Config) (os : List Options) : LTS Sys (Nat × Act) :=
  LTS.ofFn (· = Sys.init c os) (sysStep c)

/-- A step of the system is a step of one stream. -/
theorem sysStep_cases {c : Config} {s s' : Sys} {l : Nat × Act} (h : sysStep c s l = some s') :
    ∃ st sh' st', s.streams[l.1]? = some st ∧ streamStep c l.1 s.shared st l.2 = some (sh', st') ∧
      s' = ⟨s.streams.set l.1 st', sh'⟩ := by
  unfold sysStep at h
  split at h
  · cases h
  · rename_i st hst
    simp only [Option.map_eq_some_iff] at h
    obtain ⟨⟨sh', st'⟩, h1, rfl⟩ := h
    exact ⟨st, sh', st', hst, h1, rfl⟩

/-- What every stream keeps on its own holds of every stream of every
reachable system. -/
theorem stream_invariant {c : Config} {os : List Options} {P : Stream → Prop}
    (h0 : ∀ o, P (Stream.init c o))
    (hstep : ∀ k sh st a sh' st', P st → streamStep c k sh st a = some (sh', st') → P st')
    {s : Sys} (hr : (lts c os).Reachable s) : ∀ st ∈ s.streams, P st := by
  have hind : (lts c os).Inductive fun s => ∀ st ∈ s.streams, P st := by
    refine ⟨fun s hs st hst => ?_, fun s l s' hP hs st hst => ?_⟩
    · rw [show s = Sys.init c os from hs] at hst
      simp only [Sys.init, List.mem_map] at hst
      obtain ⟨o, -, rfl⟩ := hst
      exact h0 o
    · obtain ⟨st₀, sh', st', hget, h1, rfl⟩ := sysStep_cases hs
      rcases mem_set_cases hst with hst | rfl
      · exact hP st hst
      · exact hstep _ _ _ _ _ _ (hP st₀ (List.mem_of_getElem? hget)) h1
  exact hind.reachable s hr

end VlmConvert.L4.Pipeline
