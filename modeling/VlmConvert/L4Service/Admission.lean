import VlmConvert.L4Service.Protocol

/-!
# Admission: who holds and who waits

The three budgets of the pipeline over all streams: each stream's own bytes,
the process's bytes and the slot pool. The invariant (`Sound`) says of every
budget that what is used is exactly what some thread or queued job holds,
and that its line is exactly the threads standing at the matching `acquire`.

A stream's step is proved against the rest of the process as a frame: `o` is
what the other streams hold, `f` who waits, and only the acting thread's
entries move (`reader_sound`, `worker_sound`); a silent move moves none
(`ReaderSilent.keeps`, `WorkerSilent.keeps`).

Results:
* `no_deadlock`: while anyone waits, a page is being converted or a thread
  that has a page in hand can step, writers aside;
* `resource_caps`: the byte, slot and page caps, and that a stream that
  returned holds nothing.
-/
namespace VlmConvert.L4.Pipeline

open BudgetLease

/-! ## A budget and its users -/

section Accounts
variable {ω : Type}

/-- `b` has capacity `cap`, its users hold `held` of it, and its line is
exactly the waiters `waits` names, with their amounts. -/
structure BudgetOk (b : Budget ω) (cap held : Nat) (waits : ω → Option Nat) : Prop where
  wf : b.WF
  capacity : b.capacity = cap
  used : b.used = held
  nodup : (b.line.map Waiter.me).Nodup
  line : ∀ t a, ⟨t, a⟩ ∈ b.line ↔ waits t = some a

variable {b b' : Budget ω} {cap held : Nat} {waits : ω → Option Nat} {t : ω} {a : Nat}

theorem budgetOk_make (h1 : 1 ≤ cap) (h2 : cap ≤ 2 ^ 40) :
    BudgetOk (Budget.make cap : Budget ω) cap 0 fun _ => none :=
  ⟨wf_make h2, by simp; omega, rfl, by simp, by simp⟩

theorem BudgetOk.fits (h : BudgetOk b cap held waits) : held ≤ cap := by
  rw [← h.used, ← h.capacity]; exact h.wf.used_le

theorem BudgetOk.waits_le (h : BudgetOk b cap held waits) (ht : waits t = some a) : a ≤ cap := by
  rw [← h.capacity]; exact h.wf.line_le _ ((h.line t a).2 ht)

theorem BudgetOk.release (h : BudgetOk b cap held waits) (held' a : Nat) (e : held = held' + a) :
    BudgetOk (b.release a) cap held' waits := by
  have hu := h.used
  have hle : a ≤ b.used := by omega
  refine ⟨h.wf.release hle, h.capacity, ?_, h.nodup, h.line⟩
  rw [release_used hle]; omega

theorem BudgetOk.congr {held' : Nat} {waits' : ω → Option Nat} (h : BudgetOk b cap held waits)
    (e : held' = held) (f : waits' = waits) : BudgetOk b cap held' waits' := by
  subst e; subst f; exact h

variable [DecidableEq ω]

theorem BudgetOk.enter (h : BudgetOk b cap held waits) (ht : waits t = none) (h1 : 1 ≤ a)
    (h2 : a ≤ cap) : BudgetOk (b.enter t a) cap held (Function.update waits t (some a)) := by
  have hfresh : ∀ x, (⟨t, x⟩ : Waiter ω) ∉ b.line := fun x hx => by
    rw [h.line, ht] at hx; cases hx
  have hclamp : b.clamp a = a := by simp only [Budget.clamp, h.capacity]; omega
  refine ⟨h.wf.enter t a, h.capacity, h.used, ?_, fun t' a' => ?_⟩
  · rw [enter_line, List.map_append, List.nodup_append]
    refine ⟨h.nodup, List.nodup_singleton _, fun x hx y hy e => ?_⟩
    obtain ⟨w, hw, rfl⟩ := List.mem_map.1 hx
    simp only [List.map_cons, List.map_nil, List.mem_singleton] at hy
    subst hy; subst e
    exact hfresh _ hw
  · rw [enter_line, List.mem_append, List.mem_singleton, hclamp, Waiter.mk.injEq]
    by_cases he : t' = t
    · subst he
      rw [Function.update_self, Option.some.injEq]
      exact ⟨fun h => h.elim (fun h => absurd h (hfresh _)) fun h => h.2.symm,
        fun h => .inr ⟨rfl, h.symm⟩⟩
    · rw [Function.update_of_ne he, ← h.line]
      exact ⟨fun h => h.elim id fun h => absurd h.1 he, .inl⟩

/-- The line without `t`'s entry is the line of the waiters but `t`. -/
theorem line_erase (l₁ : List (Waiter ω)) {l₂ : List (Waiter ω)} {w : Waiter ω} (hw : w.me = t)
    (hn : ((l₁ ++ w :: l₂).map Waiter.me).Nodup)
    (hl : ∀ t a, ⟨t, a⟩ ∈ l₁ ++ w :: l₂ ↔ waits t = some a) :
    ((l₁ ++ l₂).map Waiter.me).Nodup ∧
      ∀ t' a, ⟨t', a⟩ ∈ l₁ ++ l₂ ↔ Function.update waits t none t' = some a := by
  have hperm : (l₁ ++ w :: l₂).Perm (w :: (l₁ ++ l₂)) := List.perm_middle
  have hn' := (hperm.map Waiter.me).nodup_iff.1 hn
  rw [List.map_cons, List.nodup_cons] at hn'
  refine ⟨hn'.2, fun t' a => ?_⟩
  by_cases he : t' = t
  · subst he
    rw [Function.update_self]
    refine ⟨fun hm => absurd (List.mem_map.2 ⟨_, hm, ?_⟩) hn'.1, fun h => by cases h⟩
    exact hw.symm
  · rw [Function.update_of_ne he, ← hl, hperm.mem_iff, List.mem_cons]
    refine ⟨.inr, fun h => h.elim (fun e => ?_) id⟩
    subst e; exact absurd hw he

theorem BudgetOk.grant (h : BudgetOk b cap held waits) (hg : b.grant t = some (a, b')) :
    waits t = some a ∧ BudgetOk b' cap (held + a) (Function.update waits t none) := by
  obtain ⟨hl, hf, hu, hc⟩ := grant_cases h.wf hg
  have hline := h.line
  have hnodup := h.nodup
  rw [hl] at hline hnodup
  obtain ⟨hn', hl'⟩ := line_erase [] rfl hnodup hline
  exact ⟨(hline t a).1 List.mem_cons_self,
    h.wf.grant hg, hc.trans h.capacity, by rw [hu, h.used], hn', hl'⟩

theorem BudgetOk.abandon (h : BudgetOk b cap held waits) (ha : b.abandon t = some b') :
    BudgetOk b' cap held (Function.update waits t none) := by
  obtain ⟨l₁, w, l₂, hl, hw, -, hl', hu, hc⟩ := abandon_cases ha
  have hline := h.line
  have hnodup := h.nodup
  rw [hl] at hline hnodup
  obtain ⟨hn', hm'⟩ := line_erase l₁ hw hnodup hline
  rw [← hl'] at hn' hm'
  exact ⟨h.wf.abandon ha, hc.trans h.capacity, hu.trans h.used, hn', hm'⟩

/-- While anyone waits, the front waiter can take, or something is held. -/
theorem BudgetOk.front (h : BudgetOk b cap held waits) (ht : waits t = some a) :
    (∃ t' a' r, waits t' = some a' ∧ b.grant t' = some r) ∨ 0 < held := by
  have hmem := (h.line t a).2 ht
  cases hl : b.line with
  | nil => rw [hl] at hmem; cases hmem
  | cons w rest =>
    have hw : waits w.me = some w.amount := (h.line _ _).1 (by rw [hl]; exact List.mem_cons_self)
    by_cases hf : b.used + w.amount ≤ b.capacity
    · obtain ⟨b', hg⟩ := grant_of_fits h.wf hl hf
      exact .inl ⟨w.me, w.amount, _, hw, hg⟩
    · have h1 := h.waits_le hw
      have h2 := h.used
      have h3 := h.capacity
      exact .inr (by omega)

end Accounts

/-! ## What each thread holds -/

/-- A page whose bytes passed `refusePage`: it fits either byte budget. -/
def SizeOk (c : Config) (image : PageImage) : Prop :=
  1 ≤ image.png.length ∧ image.png.length ≤ c.maxPageBytes

/-- A job carries one lease of its page's size from each byte budget. -/
def JobOk (c : Config) (j : Job) : Prop :=
  SizeOk c j.image ∧ j.streamBytes = j.image.png.length ∧ j.processBytes = j.image.png.length

def Reader.Ok (c : Config) : Reader → Prop
  | .waitStream image => SizeOk c image
  | .gotStream image n | .waitProcess image n => SizeOk c image ∧ n = image.png.length
  | .starting image n p => SizeOk c image ∧ n = image.png.length ∧ p = image.png.length
  | .push j => JobOk c j
  | _ => True

def Reader.streamHeld : Reader → Nat
  | .gotStream _ n | .waitProcess _ n | .dropStream n | .starting _ n _ => n
  | .push j => j.streamBytes
  | _ => 0

def Reader.processHeld : Reader → Nat
  | .starting _ _ p => p
  | .push j => j.processBytes
  | _ => 0

def Reader.waitsStream : Reader → Option Nat
  | .waitStream image => some image.png.length
  | _ => none

def Reader.waitsProcess : Reader → Option Nat
  | .waitProcess image _ => some image.png.length
  | _ => none

/-- The job a worker holds; it is being destroyed from `dropStream` on. -/
def Worker.job? : Worker → Option Job
  | .got j | .enter j | .waitSlot j | .converting j _ | .converted j _ _ | .counted j _ _
  | .pushed j _ _ | .dropSlot j _ | .dropProcess j => some j
  | _ => none

def Worker.streamHeld : Worker → Nat
  | .dropStream j => j.streamBytes
  | w => (w.job?.map Job.streamBytes).getD 0

def Worker.processHeld (w : Worker) : Nat := (w.job?.map Job.processBytes).getD 0

/-- The amount on a worker's slot lease. -/
def Worker.slotHeld : Worker → Nat
  | .converting _ n | .converted _ n _ | .counted _ n _ | .pushed _ n _ | .dropSlot _ n => n
  | _ => 0

def Worker.waitsSlot : Worker → Option Nat
  | .waitSlot _ => some 1
  | _ => none

/-- The worker's page has its slot: from the grant until the lease is given
back, after the push of the page's event or its silent drop. -/
def Worker.inflight : Worker → Bool
  | .converting _ _ | .converted _ _ _ | .counted _ _ _ | .pushed _ _ _ | .dropSlot _ _ => true
  | _ => false

def Worker.Ok (c : Config) (w : Worker) : Prop :=
  (∀ j, w.job? = some j → JobOk c j) ∧ w.slotHeld = if w.inflight then 1 else 0

def streamHeld (st : Stream) : Nat :=
  st.reader.streamHeld + (st.jobs.map Job.streamBytes).sum + (st.workers.map Worker.streamHeld).sum

def processHeld (st : Stream) : Nat :=
  st.reader.processHeld + (st.jobs.map Job.processBytes).sum +
    (st.workers.map Worker.processHeld).sum

def slotHeld (st : Stream) : Nat := (st.workers.map Worker.slotHeld).sum

/-- Only its own reader waits for a stream's bytes. -/
def streamWaits (k : Nat) (r : Reader) : Tid → Option Nat :=
  Function.update (fun _ => none) (.reader k) r.waitsStream

/-- What one stream keeps about its own threads and its own budget. -/
structure StreamOk (c : Config) (k : Nat) (st : Stream) : Prop where
  bytes : BudgetOk st.streamBytes c.maxStreamBufferedBytes (streamHeld st) (streamWaits k st.reader)
  reader : st.reader.Ok c
  jobs : ∀ j ∈ st.jobs, JobOk c j
  workers : ∀ w ∈ st.workers, w.Ok c
  width : st.workers.length = effectiveConcurrency c st.options

theorem streamOk_init (c : Config) (k : Nat) (o : Options) : StreamOk c k (Stream.init c o) := by
  have h1 := c.maxPageBytes_ok
  have h2 := c.maxStreamBufferedBytes_ok
  refine ⟨?_, trivial, by simp [Stream.init], fun w hw => ?_, by simp [Stream.init]⟩
  · refine (budgetOk_make (by omega) h2.2).congr ?_ ?_
    · simp [streamHeld, Stream.init, Reader.streamHeld, Worker.streamHeld, Worker.job?]
    · simp [streamWaits, Stream.init, Reader.waitsStream]
  · rw [List.eq_of_mem_replicate hw]
    exact ⟨fun j hj => (by cases hj), rfl⟩

/-! ## The reader's steps -/

theorem isPng_length {l : List UInt8} (h : isPng l = true) : 1 ≤ l.length := by
  cases l with
  | nil => cases h
  | cons a l => exact Nat.succ_le_succ (Nat.zero_le _)

theorem refusePage_sizeOk {c : Config} {n : Nat} {image : PageImage}
    (h : refusePage c n image = none) : SizeOk c image := by
  unfold refusePage at h
  repeat' split at h
  all_goals try cases h
  rename_i h1 h2 h3
  simp only [Bool.not_eq_true', Bool.not_eq_false] at h2
  exact ⟨isPng_length h2, by omega⟩

/-- The reader holds no lease and stands in no line. -/
def Reader.idle : Reader → Bool
  | .waitStream _ | .gotStream _ _ | .waitProcess _ _ | .dropStream _ | .starting _ _ _ | .push _ =>
      false
  | _ => true

theorem Reader.idle_holds {c : Config} {r : Reader} (h : r.idle = true) :
    r.streamHeld = 0 ∧ r.processHeld = 0 ∧ r.waitsStream = none ∧ r.waitsProcess = none ∧
      r.Ok c := by
  cases r with
  | waitStream | gotStream | waitProcess | dropStream | starting | push => cases h
  | _ => exact ⟨rfl, rfl, rfl, rfl, trivial⟩

/-- What the accounts read of a stream beside its reader. -/
structure SameLoad (st st' : Stream) : Prop where
  jobs : st'.jobs = st.jobs
  workers : st'.workers = st.workers
  options : st'.options = st.options
  bytes : st'.streamBytes = st.streamBytes

/-- **A silent move of the reader** keeps the stream's load and starts and
ends without a lease. -/
theorem ReaderSilent.keeps {st st' : Stream} {a : RAct} (hm : ReaderSilent st a st') :
    SameLoad st st' ∧ st.reader.idle = true ∧ st'.reader.idle = true := by
  cases hm with
  | again hr | halted hr | leave hr | closeJobs hr | joinWorkers hr | joinWriter hr
  | finish cancelled hr => exact ⟨⟨rfl, rfl, rfl, rfl⟩, by rw [hr]; rfl, rfl⟩

/-- After a reader's step: its stream is fine, and the process budget has
seen exactly its moves. -/
structure ReaderSound (c : Config) (k o : Nat) (f : Tid → Option Nat) (sh : Shared) (st : Stream)
    (sh' : Shared) (st' : Stream) : Prop where
  stream : StreamOk c k st'
  process : BudgetOk sh'.process c.maxBufferedBytes (o + processHeld st')
    (Function.update f (.reader k) st'.reader.waitsProcess)
  slots : sh'.slots = sh.slots
  workers : st'.workers = st.workers

section Reader
variable {c : Config} {k o : Nat} {f : Tid → Option Nat} {sh : Shared} {st st' : Stream}

/-- The reader's move left the process budget alone. -/
theorem process_kept (hp : BudgetOk sh.process c.maxBufferedBytes (o + processHeld st) f)
    (hf : f (.reader k) = st.reader.waitsProcess) (h : processHeld st' = processHeld st)
    (hw : st'.reader.waitsProcess = st.reader.waitsProcess) :
    BudgetOk sh.process c.maxBufferedBytes (o + processHeld st')
      (Function.update f (.reader k) st'.reader.waitsProcess) :=
  hp.congr (by rw [h]) (by rw [hw, ← hf]; exact Function.update_eq_self _ _)

/-- The reader moves on with the same leases and waits for nothing, before
and after. -/
theorem reader_moves (h : StreamOk c k st)
    (hp : BudgetOk sh.process c.maxBufferedBytes (o + processHeld st) f)
    (hf : f (.reader k) = st.reader.waitsProcess)
    (hs : st'.reader.waitsStream = st.reader.waitsStream)
    (hw : st'.reader.waitsProcess = st.reader.waitsProcess)
    (h1 : streamHeld st' = streamHeld st) (h2 : processHeld st' = processHeld st)
    (hb : st'.streamBytes = st.streamBytes) (hok : st'.reader.Ok c)
    (hj : ∀ j ∈ st'.jobs, JobOk c j) (hws : st'.workers = st.workers)
    (ho : st'.options = st.options) : ReaderSound c k o f sh st sh st' where
  stream := ⟨by rw [hb, h1, streamWaits, hs]; exact h.bytes, hok, hj, by rw [hws]; exact h.workers,
    by rw [hws, ho]; exact h.width⟩
  process := process_kept hp hf h2 hw
  slots := rfl
  workers := hws

/-- The reader holds no lease and stands in no line, before and after. -/
theorem reader_idle (h : StreamOk c k st)
    (hp : BudgetOk sh.process c.maxBufferedBytes (o + processHeld st) f)
    (hf : f (.reader k) = st.reader.waitsProcess) (hl : SameLoad st st')
    (hi : st.reader.idle = true) (hi' : st'.reader.idle = true) :
    ReaderSound c k o f sh st sh st' := by
  obtain ⟨s1, p1, ws1, wp1, -⟩ := Reader.idle_holds (c := c) hi
  obtain ⟨s2, p2, ws2, wp2, hok⟩ := Reader.idle_holds (c := c) hi'
  refine reader_moves h hp hf (by rw [ws1, ws2]) (by rw [wp1, wp2]) ?_ ?_ hl.bytes hok
    (by rw [hl.jobs]; exact h.jobs) hl.workers hl.options
  · simp only [streamHeld, s1, s2, hl.jobs, hl.workers]
  · simp only [processHeld, p1, p2, hl.jobs, hl.workers]

theorem streamWaits_self (r : Reader) : streamWaits k r (.reader k) = r.waitsStream :=
  Function.update_self ..

theorem streamWaits_update (r r' : Reader) :
    Function.update (streamWaits k r) (.reader k) r'.waitsStream = streamWaits k r' :=
  Function.update_idem ..

/-- The stream's budget after its reader's own move, when only the reader's
share changed. -/
theorem streamOk_of_bytes (h : StreamOk c k st) {r : Reader} {b : Budget Tid} (hok : r.Ok c)
    (hb : BudgetOk b c.maxStreamBufferedBytes
      (r.streamHeld + (st.jobs.map Job.streamBytes).sum + (st.workers.map Worker.streamHeld).sum)
      (streamWaits k r)) : StreamOk c k { st with reader := r, streamBytes := b } :=
  ⟨hb, hok, h.jobs, h.workers, h.width⟩

theorem reader_read (h : StreamOk c k st)
    (hp : BudgetOk sh.process c.maxBufferedBytes (o + processHeld st) f)
    (hf : f (.reader k) = st.reader.waitsProcess) (hr : st.reader = .read)
    (request : Option Request) : ReaderSound c k o f sh st sh (readRequest c k st request) := by
  have hidle : st.reader.idle = true := by rw [hr]; rfl
  cases request with
  | none => exact reader_idle h hp hf ⟨rfl, rfl, rfl, rfl⟩ hidle rfl
  | some request =>
    cases request with
    | options | pdfChunk | empty => exact reader_idle h hp hf ⟨rfl, rfl, rfl, rfl⟩ hidle rfl
    | pageImage image =>
      cases hpage : refusePage c st.started image with
      | some status =>
        simp only [readRequest, hpage]
        exact reader_idle h hp hf ⟨rfl, rfl, rfl, rfl⟩ hidle rfl
      | none =>
        -- the page joins the stream's line
        simp only [readRequest, hpage]
        have hsize := refusePage_sizeOk hpage
        have hcap := c.maxStreamBufferedBytes_ok
        refine ⟨⟨?_, hsize, h.jobs, h.workers, h.width⟩, process_kept hp hf ?_ ?_, rfl, rfl⟩
        · have hb := h.bytes.enter (t := .reader k) (by rw [streamWaits_self, hr]; rfl) hsize.1
            (Nat.le_trans hsize.2 hcap.1)
          refine hb.congr ?_ (streamWaits_update _ _).symm
          simp only [streamHeld, hr]; rfl
        · simp only [processHeld, hr]; rfl
        · rw [hr]; rfl

/-- **The reader's steps** keep the accounts: a silent one moves nothing, a
grant moves an amount from a line into a lease, and `push` the leases into
the queue. -/
theorem reader_sound {sh' : Shared} {a : RAct} (h : StreamOk c k st)
    (hp : BudgetOk sh.process c.maxBufferedBytes (o + processHeld st) f)
    (hf : f (.reader k) = st.reader.waitsProcess)
    (hs : readerStep c k sh st a = some (sh', st')) : ReaderSound c k o f sh st sh' st' := by
  have hok := h.reader
  have hbytes := h.bytes
  have hcap := c.maxBufferedBytes_ok
  cases readerStep_cases hs with
  | silent hm =>
    obtain ⟨hl, hi, hi'⟩ := hm.keeps
    exact reader_idle h hp hf hl hi hi'
  | read request hr => exact reader_read h hp hf hr request
  | streamGranted image n b hr hg =>
    obtain ⟨hn, hb⟩ := hbytes.grant hg
    rw [streamWaits_self, hr] at hn
    have hn' : n = image.png.length := (Option.some.inj hn).symm
    rw [hr] at hok
    refine ⟨streamOk_of_bytes h ⟨hok, hn'⟩ (hb.congr ?_ ?_), process_kept hp hf ?_ ?_, rfl, rfl⟩
    · simp only [streamHeld, hr, Reader.streamHeld]; omega
    · exact (streamWaits_update _ (.gotStream image n)).symm
    · simp only [processHeld, hr]; rfl
    · rw [hr]; rfl
  | streamAbandoned image b hr hhalt ha =>
    have hb := hbytes.abandon ha
    refine ⟨streamOk_of_bytes h trivial (hb.congr ?_ ?_), process_kept hp hf ?_ ?_, rfl, rfl⟩
    · simp only [streamHeld, hr]; rfl
    · exact (streamWaits_update _ .leave).symm
    · simp only [processHeld, hr]; rfl
    · rw [hr]; rfl
  | joinLine image n hr =>
    rw [hr] at hok hf
    have hb := hp.enter hf hok.1.1 (Nat.le_trans hok.1.2 hcap.1)
    refine ⟨streamOk_of_bytes h (r := .waitProcess image n) hok (hbytes.congr ?_ ?_),
      hb.congr ?_ rfl, rfl, rfl⟩
    · simp only [streamHeld, hr]; rfl
    · simp only [streamWaits, hr]; rfl
    · simp only [processHeld, hr]; rfl
  | processGranted image n p b hr hg =>
    obtain ⟨hn, hb⟩ := hp.grant hg
    rw [hf, hr] at hn
    have hp' : p = image.png.length := (Option.some.inj hn).symm
    rw [hr] at hok
    refine ⟨streamOk_of_bytes h (r := .starting image n p) ⟨hok.1, hok.2, hp'⟩ (hbytes.congr ?_ ?_),
      hb.congr ?_ rfl, rfl, rfl⟩
    · simp only [streamHeld, hr]; rfl
    · simp only [streamWaits, hr]; rfl
    · simp only [processHeld, hr, Reader.processHeld]; omega
  | processAbandoned image n b hr hhalt ha =>
    have hb := hp.abandon ha
    refine ⟨streamOk_of_bytes h (r := .dropStream n) trivial (hbytes.congr ?_ ?_),
      hb.congr ?_ rfl, rfl, rfl⟩
    · simp only [streamHeld, hr]; rfl
    · simp only [streamWaits, hr]; rfl
    · simp only [processHeld, hr]; rfl
  | dropStream n hr =>
    have hb := hbytes.release ((st.jobs.map Job.streamBytes).sum +
      (st.workers.map Worker.streamHeld).sum) n
        (by simp only [streamHeld, hr, Reader.streamHeld]; omega)
    refine ⟨streamOk_of_bytes h (r := .leave) trivial (hb.congr ?_ ?_), process_kept hp hf ?_ ?_,
      rfl, rfl⟩
    · simp only [Reader.streamHeld]; omega
    · simp only [streamWaits, hr]; rfl
    · simp only [processHeld, hr]; rfl
    · rw [hr]; rfl
  | starting image n p hr =>
    rw [hr] at hok
    exact reader_moves h hp hf (by rw [hr]; rfl) (by rw [hr]; rfl)
      (by simp only [streamHeld, hr]; rfl) (by simp only [processHeld, hr]; rfl) rfl hok h.jobs
      rfl rfl
  | push job hr =>
    rw [hr] at hok
    refine reader_moves h hp hf (by rw [hr]; rfl) (by rw [hr]; rfl) ?_ ?_ rfl trivial ?_ rfl rfl
    · simp only [streamHeld, hr, Reader.streamHeld, List.map_append, List.map_cons, List.map_nil,
        List.sum_append, List.sum_cons, List.sum_nil]
      omega
    · simp only [processHeld, hr, Reader.processHeld, List.map_append, List.map_cons, List.map_nil,
        List.sum_append, List.sum_cons, List.sum_nil]
      omega
    · intro j hj
      rcases List.mem_append.1 hj with hj | hj
      · exact h.jobs j hj
      · rw [List.mem_singleton.1 hj]; exact hok

end Reader

/-! ## The workers' steps -/

/-- After a step of worker `i` to `w'`: its stream is fine, and the shared
budgets have seen exactly its moves. -/
structure WorkerSound (c : Config) (k i o o' : Nat) (f f' : Tid → Option Nat) (st : Stream)
    (w' : Worker) (sh' : Shared) (st' : Stream) : Prop where
  stream : StreamOk c k st'
  process : BudgetOk sh'.process c.maxBufferedBytes (o + processHeld st') f
  slots : BudgetOk sh'.slots c.maxInflight (o' + slotHeld st')
    (Function.update f' (.worker k i) w'.waitsSlot)
  reader : st'.reader = st.reader
  workers : st'.workers = st.workers.set i w'

section Worker
variable {c : Config} {k i o o' : Nat} {f f' : Tid → Option Nat} {sh : Shared}
  {st st' : Stream} {w w' : Worker}

theorem workerOk_of_job {j : Job} (hj : JobOk c j) (h : w.job? = some j)
    (h1 : w.slotHeld = if w.inflight then 1 else 0) :
    w.Ok c := ⟨fun j' hj' => by rw [h] at hj'; cases hj'; exact hj, h1⟩

/-- The stream after worker `i` moved to `w'`, given its new budget. -/
theorem streamOk_setWorker (h : StreamOk c k st) (w' : Worker) (hok : w'.Ok c)
    (hr : st'.reader = st.reader) (hj : ∀ j ∈ st'.jobs, JobOk c j)
    (hws : st'.workers = st.workers.set i w') (ho : st'.options = st.options)
    (hb : BudgetOk st'.streamBytes c.maxStreamBufferedBytes (streamHeld st')
      (streamWaits k st.reader)) : StreamOk c k st' := by
  refine ⟨by rw [hr]; exact hb, by rw [hr]; exact h.reader, hj, fun v hv => ?_, ?_⟩
  · rw [hws] at hv
    rcases mem_set_cases hv with hv | rfl
    · exact h.workers v hv
    · exact hok
  · rw [hws, ho, List.length_set]; exact h.width

/-- What the stream holds of each budget when worker `i` moved. -/
theorem held_set (st' : Stream) (w' : Worker) (hi : st.workers[i]? = some w)
    (hr : st'.reader = st.reader)
    (hj : st'.jobs = st.jobs) (hws : st'.workers = st.workers.set i w') :
    streamHeld st' + w.streamHeld = streamHeld st + w'.streamHeld ∧
      processHeld st' + w.processHeld = processHeld st + w'.processHeld ∧
      slotHeld st' + w.slotHeld = slotHeld st + w'.slotHeld := by
  have e1 := sum_map_set Worker.streamHeld st.workers i w w' hi
  have e2 := sum_map_set Worker.processHeld st.workers i w w' hi
  have e3 := sum_map_set Worker.slotHeld st.workers i w w' hi
  simp only [streamHeld, processHeld, slotHeld, hr, hj, hws]
  exact ⟨by omega, by omega, by omega⟩

/-- Worker `i`'s move left the slot pool alone. -/
theorem slots_kept (hs : BudgetOk sh.slots c.maxInflight (o' + slotHeld st) f')
    (hf : f' (.worker k i) = w.waitsSlot) (h : slotHeld st' = slotHeld st)
    (hw : w'.waitsSlot = w.waitsSlot) :
    BudgetOk sh.slots c.maxInflight (o' + slotHeld st')
      (Function.update f' (.worker k i) w'.waitsSlot) :=
  hs.congr (by rw [h]) (by rw [hw, ← hf]; exact Function.update_eq_self _ _)

/-- Worker `i` moved with its job and its byte leases; only the slot pool
may have seen it. -/
theorem worker_moves {sh' : Shared} {a : WAct} (h : StreamOk c k st)
    (hp : BudgetOk sh.process c.maxBufferedBytes (o + processHeld st) f)
    (hi : st.workers[i]? = some w) (hm : WorkerMove k sh st i w a w' sh' st')
    (hb : st'.streamBytes = st.streamBytes) (hj : st'.jobs = st.jobs)
    (hsp : sh'.process = sh.process) (hjob : w'.job? = w.job?)
    (hstream : w'.streamHeld = w.streamHeld) (hslot : w'.slotHeld = if w'.inflight then 1 else 0)
    (hs : BudgetOk sh'.slots c.maxInflight (o' + slotHeld st')
      (Function.update f' (.worker k i) w'.waitsSlot)) :
    WorkerSound c k i o o' f f' st w' sh' st' := by
  have hok := h.workers w (List.mem_of_getElem? hi)
  obtain ⟨hr, hws, ho⟩ := hm.frame
  obtain ⟨e1, e2, -⟩ := held_set st' w' hi hr hj hws
  rw [hstream] at e1
  rw [show w'.processHeld = w.processHeld by simp only [Worker.processHeld, hjob]] at e2
  refine ⟨streamOk_setWorker h w' ⟨by rw [hjob]; exact hok.1, hslot⟩ hr (by rw [hj]; exact h.jobs)
    hws ho ?_, ?_, hs, hr, hws⟩
  · rw [hb]
    exact h.bytes.congr (Nat.add_right_cancel e1) rfl
  · rw [hsp]
    exact hp.congr (congrArg (o + ·) (Nat.add_right_cancel e2)) rfl

/-- **A silent move of a worker** keeps its job and its leases. -/
theorem WorkerSilent.keeps {a : WAct} (hm : WorkerSilent st i w a w' st') :
    st'.streamBytes = st.streamBytes ∧ st'.jobs = st.jobs ∧ w'.job? = w.job? ∧
      w'.streamHeld = w.streamHeld ∧ w'.slotHeld = w.slotHeld ∧ w'.inflight = w.inflight ∧
      w'.waitsSlot = w.waitsSlot := by
  cases hm <;> exact ⟨rfl, rfl, rfl, rfl, rfl, rfl, rfl⟩

theorem worker_silent {a : WAct} (h : StreamOk c k st)
    (hp : BudgetOk sh.process c.maxBufferedBytes (o + processHeld st) f)
    (hs : BudgetOk sh.slots c.maxInflight (o' + slotHeld st) f')
    (hi : st.workers[i]? = some w) (hf : f' (.worker k i) = w.waitsSlot)
    (hm : WorkerSilent st i w a w' st') : WorkerSound c k i o o' f f' st w' sh st' := by
  have hok := h.workers w (List.mem_of_getElem? hi)
  have hmove : WorkerMove k sh st i w a w' sh st' := .silent hm
  obtain ⟨hb, hj, hjob, hstream, hslot, hinflight, hwaits⟩ := hm.keeps
  obtain ⟨hr, hws, -⟩ := hmove.frame
  obtain ⟨-, -, e3⟩ := held_set st' w' hi hr hj hws
  rw [hslot] at e3
  exact worker_moves h hp hi hmove hb hj rfl hjob hstream (by rw [hslot, hinflight]; exact hok.2)
    (slots_kept hs hf (Nat.add_right_cancel e3) hwaits)

/-- **The workers' steps** keep the accounts: a silent one moves nothing,
`pop` moves a job's leases out of the queue, and the destructors give the
three leases back. -/
theorem worker_sound {sh' : Shared} {a : WAct} (h : StreamOk c k st)
    (hp : BudgetOk sh.process c.maxBufferedBytes (o + processHeld st) f)
    (hs : BudgetOk sh.slots c.maxInflight (o' + slotHeld st) f')
    (hi : st.workers[i]? = some w) (hf : f' (.worker k i) = w.waitsSlot)
    (ha : workerAt k sh st i w a = some (sh', st')) :
    ∃ w', WorkerSound c k i o o' f f' st w' sh' st' := by
  have hok := h.workers w (List.mem_of_getElem? hi)
  have hcap := c.maxInflight_ok
  obtain ⟨w', hm⟩ := workerAt_cases ha
  have hmove := hm
  refine ⟨w', ?_⟩
  cases hm with
  | silent hm => exact worker_silent h hp hs hi hf hm
  | pop job rest hj =>
    obtain ⟨e1, e2, e3⟩ := held_set (setWorker st i (.got job)) (.got job) hi rfl rfl rfl
    have hjob : JobOk c job := h.jobs job (by rw [hj]; exact List.mem_cons_self)
    simp only [streamHeld, processHeld, setWorker, hj, List.map_cons, List.sum_cons,
      Worker.streamHeld, Worker.processHeld, Worker.job?, Option.map_some, Option.map_none,
      Option.getD_some, Option.getD_none] at e1 e2
    refine ⟨streamOk_setWorker h (.got job) (workerOk_of_job hjob rfl rfl) rfl
      (fun j hmem => h.jobs j (by rw [hj]; exact List.mem_cons_of_mem _ hmem)) rfl rfl
      (h.bytes.congr ?_ rfl), hp.congr ?_ rfl, slots_kept hs hf e3 rfl, rfl, rfl⟩
    · simp only [streamHeld, setWorker, hj, List.map_cons, List.sum_cons]; omega
    · simp only [processHeld, setWorker, hj, List.map_cons, List.sum_cons]; omega
  | joinLine job =>
    obtain ⟨-, -, e3⟩ := held_set (setWorker st i (.waitSlot job)) (.waitSlot job) hi rfl rfl rfl
    have hs' := hs.enter (t := .worker k i) (a := 1) hf (Nat.le_refl 1) hcap.1
    exact worker_moves h hp hi hmove rfl rfl rfl rfl rfl rfl
      (hs'.congr (congrArg (o' + ·) (Nat.add_right_cancel e3)) rfl)
  | granted job n b hg =>
    obtain ⟨hn, hs'⟩ := hs.grant hg
    rw [hf] at hn
    obtain rfl : n = 1 := (Option.some.inj hn).symm
    obtain ⟨-, -, e3⟩ :=
      held_set (setWorker st i (.converting job 1)) (.converting job 1) hi rfl rfl rfl
    simp only [Worker.slotHeld] at e3
    exact worker_moves h hp hi hmove rfl rfl rfl rfl rfl rfl (hs'.congr (by omega) rfl)
  | abandoned job b hhalt hb =>
    obtain ⟨-, -, e3⟩ :=
      held_set (setWorker st i (.dropProcess job)) (.dropProcess job) hi rfl rfl rfl
    exact worker_moves h hp hi hmove rfl rfl rfl rfl rfl rfl
      ((hs.abandon hb).congr (congrArg (o' + ·) (Nat.add_right_cancel e3)) rfl)
  | dropSlot job slot =>
    obtain ⟨-, -, e3⟩ :=
      held_set (setWorker st i (.dropProcess job)) (.dropProcess job) hi rfl rfl rfl
    simp only [Worker.slotHeld] at e3
    have hs' := hs.release (o' + slotHeld (setWorker st i (.dropProcess job))) slot (by omega)
    exact worker_moves h hp hi hmove rfl rfl rfl rfl rfl rfl
      (hs'.congr rfl (Function.update_eq_self_iff.2 hf.symm))
  | dropProcess job =>
    obtain ⟨e1, e2, e3⟩ :=
      held_set (setWorker st i (.dropStream job)) (.dropStream job) hi rfl rfl rfl
    simp only [Worker.processHeld, Worker.job?, Option.map_some, Option.map_none, Option.getD_some,
      Option.getD_none] at e2
    have hp' := hp.release (o + processHeld (setWorker st i (.dropStream job))) job.processBytes
      (by omega)
    exact ⟨streamOk_setWorker h (.dropStream job) ⟨fun j e => (by cases e), rfl⟩ rfl h.jobs rfl rfl
        (h.bytes.congr (Nat.add_right_cancel e1) rfl),
      hp', slots_kept hs hf (Nat.add_right_cancel e3) rfl, rfl, rfl⟩
  | dropStream job =>
    obtain ⟨e1, e2, e3⟩ := held_set (setWorker st i .pop) .pop hi rfl rfl rfl
    simp only [Worker.streamHeld, Worker.job?, Option.map_none, Option.getD_none] at e1
    have hb' := h.bytes.release (streamHeld (setWorker st i .pop)) job.streamBytes (by omega)
    exact ⟨streamOk_setWorker h .pop ⟨fun j e => (by cases e), rfl⟩ rfl h.jobs rfl rfl hb',
      hp.congr (congrArg (o + ·) (Nat.add_right_cancel e2)) rfl,
      slots_kept hs hf (Nat.add_right_cancel e3) rfl, rfl, rfl⟩

end Worker

/-! ## All streams together -/

/-- Who waits for the process's bytes. -/
def processWaits (streams : List Stream) : Tid → Option Nat
  | .reader k => streams[k]?.bind fun st => st.reader.waitsProcess
  | .worker _ _ => none

/-- Who waits for a slot. -/
def slotWaits (streams : List Stream) : Tid → Option Nat
  | .reader _ => none
  | .worker k i => streams[k]?.bind fun st => st.workers[i]?.bind Worker.waitsSlot

structure Sound (c : Config) (s : Sys) : Prop where
  streams : ∀ k st, s.streams[k]? = some st → StreamOk c k st
  process : BudgetOk s.shared.process c.maxBufferedBytes (s.streams.map processHeld).sum
    (processWaits s.streams)
  slots : BudgetOk s.shared.slots c.maxInflight (s.streams.map slotHeld).sum (slotWaits s.streams)

theorem sound_init (c : Config) (os : List Options) : Sound c (Sys.init c os) := by
  have h1 := c.maxPageBytes_ok
  have h2 := c.maxBufferedBytes_ok
  have h3 := c.maxInflight_ok
  have hget : ∀ (k : Nat) st, (Sys.init c os).streams[k]? = some st →
    ∃ o, st = Stream.init c o := by
    intro k st hst
    simp only [Sys.init, List.getElem?_map, Option.map_eq_some_iff] at hst
    obtain ⟨o, -, rfl⟩ := hst
    exact ⟨o, rfl⟩
  have hzero : ∀ g : Stream → Nat, (∀ o, g (Stream.init c o) = 0) →
      ((Sys.init c os).streams.map g).sum = 0 := by
    intro g hg
    exact List.sum_eq_zero fun n hn => by
      simp only [Sys.init, List.map_map, List.mem_map] at hn
      obtain ⟨o, -, rfl⟩ := hn
      exact hg o
  refine ⟨fun k st hst => ?_, ?_, ?_⟩
  · obtain ⟨o, rfl⟩ := hget k st hst
    exact streamOk_init c k o
  · refine (budgetOk_make (by omega) h2.2).congr (hzero _ fun o => ?_) (funext fun t => ?_)
    · simp [processHeld, Stream.init, Reader.processHeld, Worker.processHeld, Worker.job?]
    · cases t with
      | worker k i => rfl
      | reader k =>
        refine Option.bind_eq_none_iff.2 fun st hst => ?_
        obtain ⟨o, rfl⟩ := hget k st hst
        rfl
  · refine (budgetOk_make h3.1 (by omega)).congr (hzero _ fun o => ?_) (funext fun t => ?_)
    · simp [slotHeld, Stream.init, Worker.slotHeld]
    · cases t with
      | reader k => rfl
      | worker k i =>
        refine Option.bind_eq_none_iff.2 fun st hst => Option.bind_eq_none_iff.2 fun w hw => ?_
        obtain ⟨o, rfl⟩ := hget k st hst
        rw [List.eq_of_mem_replicate (List.mem_of_getElem? hw)]
        rfl

section System
variable {streams : List Stream} {k : Nat} {st st' : Stream}

/-- A stream's share of a total, and the total after its step. -/
theorem sum_split (g : Stream → Nat) (hk : streams[k]? = some st) :
    ∃ o, (streams.map g).sum = o + g st ∧ ∀ st', ((streams.set k st').map g).sum = o + g st' := by
  have hle : g st ≤ (streams.map g).sum := le_sum_map g (List.mem_of_getElem? hk)
  refine ⟨(streams.map g).sum - g st, by omega, fun st' => ?_⟩
  have := sum_map_set g streams k st st' hk
  omega

theorem lt_of_getElem? (hk : streams[k]? = some st) : k < streams.length :=
  (List.getElem?_eq_some_iff.1 hk).1

theorem processWaits_set (hk : streams[k]? = some st) :
    processWaits (streams.set k st') =
      Function.update (processWaits streams) (.reader k) st'.reader.waitsProcess := by
  funext t
  cases t with
  | worker k' i => rfl
  | reader k' =>
    by_cases h : k' = k
    · subst h
      rw [Function.update_self]
      simp [processWaits, lt_of_getElem? hk]
    · rw [Function.update_of_ne (by simpa using h)]
      simp [processWaits, List.getElem?_set_ne (Ne.symm h)]

theorem processWaits_same (hk : streams[k]? = some st) (hr : st'.reader = st.reader) :
    processWaits (streams.set k st') = processWaits streams := by
  rw [processWaits_set hk, hr]
  refine Function.update_eq_self_iff.2 ?_
  simp [processWaits, hk]

theorem slotWaits_same (hk : streams[k]? = some st) (hw : st'.workers = st.workers) :
    slotWaits (streams.set k st') = slotWaits streams := by
  funext t
  cases t with
  | reader k' => rfl
  | worker k' i =>
    by_cases h : k' = k
    · subst h
      simp only [slotWaits, List.getElem?_set_self (lt_of_getElem? hk), hk, Option.bind_some, hw]
    · simp [slotWaits, List.getElem?_set_ne (Ne.symm h)]

theorem slotWaits_set {i : Nat} {w w' : Worker} (hk : streams[k]? = some st)
    (hi : st.workers[i]? = some w) (hw : st'.workers = st.workers.set i w') :
    slotWaits (streams.set k st') =
      Function.update (slotWaits streams) (.worker k i) w'.waitsSlot := by
  have hlt : i < st.workers.length := (List.getElem?_eq_some_iff.1 hi).1
  funext t
  cases t with
  | reader k' => rfl
  | worker k' i' =>
    by_cases h : k' = k
    · subst h
      by_cases h' : i' = i
      · subst h'
        rw [Function.update_self]
        simp [slotWaits, lt_of_getElem? hk, hw, hlt]
      · rw [Function.update_of_ne (by simpa using h')]
        simp only [slotWaits, List.getElem?_set_self (lt_of_getElem? hk), hk, Option.bind_some, hw,
          List.getElem?_set_ne (Ne.symm h')]
    · rw [Function.update_of_ne (by simp [h])]
      simp [slotWaits, List.getElem?_set_ne (Ne.symm h)]

end System

/-- The writer holds and waits for nothing. -/
theorem writer_sound {c : Config} {k : Nat} {st st' : Stream} {a : OAct} (h : StreamOk c k st)
    (hs : writerStep st a = some st') :
    StreamOk c k st' ∧ processHeld st' = processHeld st ∧ slotHeld st' = slotHeld st ∧
      st'.reader = st.reader ∧ st'.workers = st.workers := by
  cases writerStep_cases hs <;>
    exact ⟨⟨h.bytes, h.reader, h.jobs, h.workers, h.width⟩, rfl, rfl, rfl, rfl⟩

theorem streams_set {c : Config} {streams : List Stream} {k : Nat} {st' : Stream}
    (h : ∀ k st, streams[k]? = some st → StreamOk c k st) (h' : StreamOk c k st') :
    ∀ j st, (streams.set k st')[j]? = some st → StreamOk c j st := by
  intro j st hst
  by_cases hj : j = k
  · subst hj
    obtain ⟨hlt, -⟩ := List.getElem?_eq_some_iff.1 hst
    rw [List.length_set] at hlt
    rw [List.getElem?_set_self hlt, Option.some.injEq] at hst
    exact hst ▸ h'
  · rw [List.getElem?_set_ne (Ne.symm hj)] at hst
    exact h j st hst

/-- **Every step of every thread keeps the accounts of all three budgets.** -/
theorem sound_step {c : Config} {s s' : Sys} {l : Nat × Act} (h : Sound c s)
    (hs : sysStep c s l = some s') : Sound c s' := by
  obtain ⟨st, sh', st', hk, hstep, rfl⟩ := sysStep_cases hs
  obtain ⟨k, a⟩ := l
  simp only at hk hstep
  have hst := h.streams k st hk
  obtain ⟨o, ho, ho'⟩ := sum_split processHeld hk
  obtain ⟨q, hq, hq'⟩ := sum_split slotHeld hk
  have hp := h.process.congr ho.symm rfl
  have hsl := h.slots.congr hq.symm rfl
  cases a with
  | reader a =>
    have hr := reader_sound hst hp (by simp [processWaits, hk]) hstep
    have hheld : slotHeld st' = slotHeld st := by simp only [slotHeld, hr.workers]
    refine ⟨streams_set h.streams hr.stream, hr.process.congr (ho' st') (processWaits_set hk), ?_⟩
    simp only [hr.slots]
    exact hsl.congr (by rw [hq', hheld]) (slotWaits_same hk hr.workers)
  | worker i a =>
    simp only [streamStep, workerStep] at hstep
    split at hstep
    · cases hstep
    · rename_i w hi
      obtain ⟨w', hw⟩ := worker_sound hst hp hsl hi (by simp [slotWaits, hk, hi]) hstep
      exact ⟨streams_set h.streams hw.stream,
        hw.process.congr (ho' st') (processWaits_same hk hw.reader),
        hw.slots.congr (hq' st') (slotWaits_set hk hi hw.workers)⟩
  | writer a =>
    simp only [streamStep, Option.map_eq_some_iff, Prod.mk.injEq] at hstep
    obtain ⟨st₁, hw, rfl, rfl⟩ := hstep
    obtain ⟨h1, h2, h3, h4, h5⟩ := writer_sound hst hw
    exact ⟨streams_set h.streams h1, hp.congr (by rw [ho', h2]) (processWaits_same hk h4),
      hsl.congr (by rw [hq', h3]) (slotWaits_same hk h5)⟩

theorem sound_reachable {c : Config} {os : List Options} {s : Sys} (hr : (lts c os).Reachable s) :
    Sound c s := by
  have hind : (lts c os).Inductive (Sound c) :=
    ⟨fun s hs => by rw [show s = Sys.init c os from hs]; exact sound_init c os,
      fun s l s' h hs => sound_step h hs⟩
  exact hind.reachable s hr

/-! ## No deadlock -/

/-- Some thread stands in a budget's line. -/
def Waiting (s : Sys) : Prop :=
  ∃ st ∈ s.streams, (∃ image, st.reader = .waitStream image) ∨
    (∃ image n, st.reader = .waitProcess image n) ∨ ∃ job, Worker.waitSlot job ∈ st.workers

/-- Some worker is inside `convert_page`. -/
def Converting (s : Sys) : Prop :=
  ∃ st ∈ s.streams, ∃ job slot, Worker.converting job slot ∈ st.workers

/-- The reader has a page (or its lease) in hand. -/
def Reader.hasPage : Reader → Bool
  | .waitStream _ | .gotStream _ _ | .waitProcess _ _ | .dropStream _ | .starting _ _ _ | .push _ =>
      true
  | _ => false

/-- The worker has a page in hand, or one to pop. -/
def Worker.hasPage (jobs : List Job) : Worker → Bool
  | .pop => !jobs.isEmpty
  | .exited => false
  | _ => true

/-- The steps that move a page along: a grant, an abandonment, an admission,
a push, a pop, a release. No writer's step, no `read`, no answer of
`convert_page` is one. -/
def Progress (st : Stream) : Act → Prop
  | .reader _ => st.reader.hasPage = true
  | .worker _ (.convert _) => False
  | .worker i _ => ∃ w, st.workers[i]? = some w ∧ w.hasPage st.jobs = true
  | .writer _ => False

def CanProgress (c : Config) (s : Sys) : Prop :=
  ∃ (k : Nat) (st : Stream) (a : Act) (s' : Sys),
    s.streams[k]? = some st ∧ Progress st a ∧ sysStep c s (k, a) = some s'

section Deadlock
variable {c : Config} {s : Sys} {k i : Nat} {st : Stream} {w : Worker}

theorem reader_can (a : RAct) (hk : s.streams[k]? = some st) (hp : st.reader.hasPage = true)
    (hs : (readerStep c k s.shared st a).isSome = true) : CanProgress c s := by
  obtain ⟨r, hs⟩ := Option.isSome_iff_exists.1 hs
  exact ⟨k, st, .reader a, ⟨s.streams.set k r.2, r.1⟩, hk, hp,
    by simp [sysStep, hk, streamStep, hs]⟩

theorem worker_can (a : WAct) (hk : s.streams[k]? = some st) (hi : st.workers[i]? = some w)
    (hp : w.hasPage st.jobs = true) (hc : ∀ x, a ≠ .convert x)
    (hs : (workerAt k s.shared st i w a).isSome = true) : CanProgress c s := by
  obtain ⟨r, hs⟩ := Option.isSome_iff_exists.1 hs
  refine ⟨k, st, .worker i a, ⟨s.streams.set k r.2, r.1⟩, hk, ?_, ?_⟩
  · cases a with
    | convert x => exact absurd rfl (hc x)
    | _ => exact ⟨w, hi, hp⟩
  · simp [sysStep, hk, streamStep, workerStep, hi, hs]

/-- A worker that holds something and stands neither in line nor inside
`convert_page` can step. -/
theorem worker_can_go (hk : s.streams[k]? = some st) (hi : st.workers[i]? = some w)
    (hp : w.hasPage st.jobs = true) (h1 : ∀ j, w ≠ .waitSlot j) (h2 : ∀ j n, w ≠ .converting j n) :
    CanProgress c s := by
  have can : (workerAt k s.shared st i w .go).isSome = true → CanProgress c s :=
    worker_can .go hk hi hp fun x e => by cases e
  cases w with
  | pop =>
    cases hj : st.jobs with
    | nil => rw [hj] at hp; cases hp
    | cons job rest => exact can (by simp [workerAt, hj])
  | got job => exact can (by simp only [workerAt]; split <;> rfl)
  | waitSlot j => exact absurd rfl (h1 j)
  | converting j n => exact absurd rfl (h2 j n)
  | exited => cases hp
  | _ => exact can rfl

/-- A worker in the slot pool's line: its front can take, or a slot is held
by a worker that can step or is converting. -/
theorem slot_waiter (h : Sound c s) {job : Job} (hk : s.streams[k]? = some st)
    (hi : st.workers[i]? = some (.waitSlot job)) : Converting s ∨ CanProgress c s := by
  have hw : slotWaits s.streams (.worker k i) = some 1 := by
    simp [slotWaits, hk, hi, Worker.waitsSlot]
  rcases h.slots.front hw with ⟨t, a, r, ht, hg⟩ | hheld
  · cases t with
    | reader k' => cases ht
    | worker k' i' =>
      simp only [slotWaits, Option.bind_eq_some_iff] at ht
      obtain ⟨st', hk', w', hi', hw'⟩ := ht
      cases w' with
      | waitSlot job' =>
        exact .inr (worker_can .grant hk' hi' rfl (fun x e => by cases e) (by simp [workerAt, hg]))
      | _ => cases hw'
  · obtain ⟨st', hst', hpos⟩ := exists_pos_of_sum_pos slotHeld hheld
    obtain ⟨w', hmem, hpos'⟩ := exists_pos_of_sum_pos Worker.slotHeld hpos
    obtain ⟨k', hk'⟩ := List.mem_iff_getElem?.1 hst'
    obtain ⟨i', hi'⟩ := List.mem_iff_getElem?.1 hmem
    cases w' with
    | converting j n => exact .inl ⟨st', hst', j, n, hmem⟩
    | converted j n e => exact .inr (worker_can_go hk' hi' rfl (by simp) (by simp))
    | counted j n e => exact .inr (worker_can_go hk' hi' rfl (by simp) (by simp))
    | pushed j n e => exact .inr (worker_can_go hk' hi' rfl (by simp) (by simp))
    | dropSlot j n => exact .inr (worker_can_go hk' hi' rfl (by simp) (by simp))
    | _ => exact absurd hpos' (Nat.lt_irrefl 0)

/-- A worker with a page in hand: it can step, is converting, or waits for a
slot. -/
theorem page_holder (h : Sound c s) (hk : s.streams[k]? = some st) (hi : st.workers[i]? = some w)
    (hp : w.hasPage st.jobs = true) : Converting s ∨ CanProgress c s := by
  cases w with
  | waitSlot j => exact slot_waiter h hk hi
  | converting j n =>
    exact .inl ⟨st, List.mem_of_getElem? hk, j, n, List.mem_of_getElem? hi⟩
  | _ => exact .inr (worker_can_go hk hi hp (by simp) (by simp))

/-- A queued job: no worker has left, so one pops it or has a page in hand. -/
theorem queued_job (h : Sound c s) (hinv : Inv c st) (hk : s.streams[k]? = some st)
    (hj : st.jobs ≠ []) : Converting s ∨ CanProgress c s := by
  obtain ⟨w, hw⟩ := List.exists_mem_of_ne_nil _ hinv.workers_ne
  obtain ⟨i, hi⟩ := List.mem_iff_getElem?.1 hw
  refine page_holder h hk hi ?_
  cases w with
  | pop => simpa [Worker.hasPage] using hj
  | exited => exact absurd (hinv.worker_exit hw).2 hj
  | _ => rfl

theorem process_holder (h : Sound c s) (hinv : Inv c st) (hk : s.streams[k]? = some st)
    (hpos : 0 < processHeld st) : Converting s ∨ CanProgress c s := by
  by_cases hr : 0 < st.reader.processHeld
  · cases hrd : st.reader with
    | starting image n p =>
      exact .inr (reader_can .go hk (by rw [hrd]; rfl) (by simp [readerStep, hrd]))
    | push job =>
      exact .inr (reader_can .go hk (by rw [hrd]; rfl) (by simp [readerStep, hrd]))
    | _ => rw [hrd] at hr; exact absurd hr (Nat.lt_irrefl 0)
  by_cases hj : st.jobs = []
  · simp only [processHeld, hj, List.map_nil, List.sum_nil] at hpos
    obtain ⟨w, hw, hpos'⟩ := exists_pos_of_sum_pos Worker.processHeld
      (show 0 < (st.workers.map Worker.processHeld).sum by omega)
    obtain ⟨i, hi⟩ := List.mem_iff_getElem?.1 hw
    refine page_holder h hk hi ?_
    cases w with
    | pop => exact absurd hpos' (Nat.lt_irrefl 0)
    | exited => exact absurd hpos' (Nat.lt_irrefl 0)
    | _ => rfl
  · exact queued_job h hinv hk hj

theorem process_waiter (h : Sound c s) (hinv : ∀ st ∈ s.streams, Inv c st) {image : PageImage}
    {n : Nat} (hk : s.streams[k]? = some st) (hr : st.reader = .waitProcess image n) :
    Converting s ∨ CanProgress c s := by
  have hw : processWaits s.streams (.reader k) = some image.png.length := by
    simp [processWaits, hk, hr, Reader.waitsProcess]
  rcases h.process.front hw with ⟨t, a, r, ht, hg⟩ | hheld
  · cases t with
    | worker k' i' => cases ht
    | reader k' =>
      simp only [processWaits, Option.bind_eq_some_iff] at ht
      obtain ⟨st', hk', hw'⟩ := ht
      cases hr' : st'.reader with
      | waitProcess image' n' =>
        exact .inr (reader_can .grant hk' (by rw [hr']; rfl) (by simp [readerStep, hr', hg]))
      | _ => rw [hr'] at hw'; cases hw'
  · obtain ⟨st', hst', hpos⟩ := exists_pos_of_sum_pos processHeld hheld
    obtain ⟨k', hk'⟩ := List.mem_iff_getElem?.1 hst'
    exact process_holder h (hinv st' hst') hk' hpos

theorem stream_waiter (h : Sound c s) (hinv : Inv c st) {image : PageImage}
    (hk : s.streams[k]? = some st) (hr : st.reader = .waitStream image) :
    Converting s ∨ CanProgress c s := by
  have hw : streamWaits k st.reader (.reader k) = some image.png.length := by
    rw [streamWaits_self, hr]; rfl
  rcases (h.streams k st hk).bytes.front hw with ⟨t, a, r, ht, hg⟩ | hheld
  · by_cases htk : t = .reader k
    · subst htk
      exact .inr (reader_can .grant hk (by rw [hr]; rfl) (by simp [readerStep, hr, hg]))
    · rw [streamWaits, Function.update_of_ne htk] at ht; cases ht
  · by_cases hj : st.jobs = []
    · simp only [streamHeld, hr, hj, List.map_nil, List.sum_nil, Reader.streamHeld] at hheld
      obtain ⟨w, hmem, hpos⟩ := exists_pos_of_sum_pos Worker.streamHeld
        (show 0 < (st.workers.map Worker.streamHeld).sum by omega)
      obtain ⟨i, hi⟩ := List.mem_iff_getElem?.1 hmem
      refine page_holder h hk hi ?_
      cases w with
      | pop => exact absurd hpos (Nat.lt_irrefl 0)
      | exited => exact absurd hpos (Nat.lt_irrefl 0)
      | _ => rfl
    · exact queued_job h hinv hk hj

end Deadlock

/-- **The admission pipeline does not deadlock.** In every reachable state in
which some thread waits for a budget, a page is being converted or a step
that moves a page along is enabled, whether or not any writer ever steps. -/
theorem no_deadlock {c : Config} {os : List Options} {s : Sys} (hr : (lts c os).Reachable s)
    (hw : Waiting s) : Converting s ∨ CanProgress c s := by
  have h := sound_reachable hr
  have hinv := inv_reachable hr
  obtain ⟨st, hst, hwait⟩ := hw
  obtain ⟨k, hk⟩ := List.mem_iff_getElem?.1 hst
  rcases hwait with ⟨image, hrd⟩ | ⟨image, n, hrd⟩ | ⟨job, hmem⟩
  · exact stream_waiter h (hinv st hst) hk hrd
  · exact process_waiter h hinv hk hrd
  · obtain ⟨i, hi⟩ := List.mem_iff_getElem?.1 hmem
    exact slot_waiter h hk hi

theorem no_deadlock_sampleWait :
    ∃ s, (lts smallConfig [⟨0, false⟩]).Reachable s ∧ Waiting s ∧
      (Converting s ∨ CanProgress smallConfig s) := by
  have hs : ((LTS.exec (sysStep smallConfig) (Sys.init smallConfig [⟨0, false⟩])
      ((admitActs ++ takeActs 0 ++ admitActs ++ (takeActs 1).take 3).map fun a => (0, a))).map
      fun s => s.streams.map fun st => st.workers[1]?) =
      some [some (.waitSlot ⟨1, samplePage, 8, 8⟩)] := by decide
  obtain ⟨s, he, hv⟩ := Option.map_eq_some_iff.1 hs
  obtain ⟨st, hst, hv⟩ := List.map_eq_singleton_iff.1 hv
  have hr : (lts smallConfig [⟨0, false⟩]).Reachable s := LTS.reachable_exec (.init rfl) he
  have hw : Waiting s := ⟨st, by rw [hst]; exact List.mem_singleton.2 rfl,
    .inr (.inr ⟨_, List.mem_of_getElem? hv⟩)⟩
  exact ⟨s, hr, hw, no_deadlock hr hw⟩

/-! ## Caps and release -/

def Reader.job? : Reader → Option Job
  | .push j => some j
  | _ => none

/-- The admitted pages of a stream whose job object exists: about to be
queued, queued, or with a worker until their destructor starts. -/
def liveJobs (st : Stream) : List Job :=
  st.reader.job?.toList ++ st.jobs ++ st.workers.filterMap Worker.job?

/-- Their PNG bytes. -/
def liveBytes (st : Stream) : Nat := ((liveJobs st).map fun j => j.image.png.length).sum

/-- The stream's pages that have a slot. -/
def inflight (st : Stream) : Nat := st.workers.countP Worker.inflight

/-- Nothing of the shared budgets is left with the stream: no lease, and no
thread in a line. -/
structure GaveBack (s : Sys) (k : Nat) (st : Stream) : Prop where
  process : processHeld st = 0
  slots : slotHeld st = 0
  process_line : ∀ w ∈ s.shared.process.line, w.me ≠ .reader k
  slots_line : ∀ w ∈ s.shared.slots.line, ∀ i, w.me ≠ .worker k i

theorem sum_filterMap (g : Job → Nat) (ws : List Worker) :
    ((ws.filterMap Worker.job?).map g).sum = (ws.map fun w => (w.job?.map g).getD 0).sum := by
  induction ws with
  | nil => rfl
  | cons w ws ih =>
    cases hj : w.job? with
    | none => simp [List.filterMap_cons_none hj, hj, ih]
    | some j => simp [List.filterMap_cons_some hj, hj, ih]

/-- The bytes of the live jobs, by where they are. -/
theorem liveBytes_eq (st : Stream) (g : Job → Nat)
    (h : ∀ j ∈ liveJobs st, g j = j.image.png.length) :
    liveBytes st = (st.reader.job?.map g).getD 0 + (st.jobs.map g).sum +
      (st.workers.map fun w => (w.job?.map g).getD 0).sum := by
  have hmap : (liveJobs st).map (fun j => j.image.png.length) = (liveJobs st).map g :=
    List.map_congr_left fun j hj => (h j hj).symm
  rw [liveBytes, hmap, liveJobs, List.map_append, List.map_append, List.sum_append, List.sum_append,
    sum_filterMap]
  cases st.reader.job? <;> simp

theorem StreamOk.liveJobs_ok {c : Config} {k : Nat} {st : Stream} (h : StreamOk c k st) :
    ∀ j ∈ liveJobs st, JobOk c j := by
  intro j hj
  simp only [liveJobs, List.mem_append, Option.mem_toList, List.mem_filterMap] at hj
  rcases hj with (hj | hj) | ⟨w, hw, hj⟩
  · have hr := h.reader
    cases hrd : st.reader with
    | push j' =>
      rw [hrd] at hj hr
      cases hj; exact hr
    | _ => rw [hrd] at hj; cases hj
  · exact h.jobs j hj
  · exact (h.workers w hw).1 j hj

theorem StreamOk.liveBytes_le_stream {c : Config} {k : Nat} {st : Stream} (h : StreamOk c k st) :
    liveBytes st ≤ streamHeld st := by
  rw [liveBytes_eq st Job.streamBytes fun j hj => (h.liveJobs_ok j hj).2.1]
  have h1 : (st.reader.job?.map Job.streamBytes).getD 0 ≤ st.reader.streamHeld := by
    cases st.reader <;> simp [Reader.job?, Reader.streamHeld]
  have h2 : (st.workers.map fun w => (w.job?.map Job.streamBytes).getD 0).sum ≤
      (st.workers.map Worker.streamHeld).sum :=
    List.sum_le_sum fun w _ => by cases w <;> simp [Worker.job?, Worker.streamHeld]
  simp only [streamHeld]
  omega

theorem StreamOk.liveBytes_le_process {c : Config} {k : Nat} {st : Stream} (h : StreamOk c k st) :
    liveBytes st ≤ processHeld st := by
  rw [liveBytes_eq st Job.processBytes fun j hj => (h.liveJobs_ok j hj).2.2]
  have h1 : (st.reader.job?.map Job.processBytes).getD 0 ≤ st.reader.processHeld := by
    cases st.reader <;> simp [Reader.job?, Reader.processHeld]
  simp only [processHeld]
  unfold Worker.processHeld
  omega

theorem countP_inflight {ws : List Worker}
    (h : ∀ w ∈ ws, w.slotHeld = if w.inflight then 1 else 0) :
    ws.countP Worker.inflight = (ws.map Worker.slotHeld).sum := by
  induction ws with
  | nil => rfl
  | cons w ws ih =>
    rw [List.countP_cons, List.map_cons, List.sum_cons, h w List.mem_cons_self,
      ih fun v hv => h v (List.mem_cons_of_mem _ hv), Nat.add_comm]

theorem StreamOk.inflight_eq {c : Config} {k : Nat} {st : Stream} (h : StreamOk c k st) :
    inflight st = slotHeld st := countP_inflight fun w hw => (h.workers w hw).2

theorem sum_le_of_index {c : Config} {s : Sys} (h : Sound c s) {g g' : Stream → Nat}
    (hg : ∀ k st, StreamOk c k st → g st ≤ g' st) :
    (s.streams.map g).sum ≤ (s.streams.map g').sum := by
  refine List.sum_le_sum fun st hst => ?_
  obtain ⟨k, hk⟩ := List.mem_iff_getElem?.1 hst
  exact hg k st (h.streams k st hk)

theorem gaveBack_of_returned {c : Config} {s : Sys} {k : Nat} {st : Stream} {status : Status}
    (h : Sound c s) (hinv : Inv c st) (hk : s.streams[k]? = some st)
    (hret : st.reader = .returned status) : GaveBack s k st := by
  have hall := hinv.joined (by rw [hret]; rfl)
  have hidle : ∀ g : Worker → Nat, g .exited = 0 → (st.workers.map g).sum = 0 := by
    intro g hg
    exact List.sum_eq_zero fun n hn => by
      obtain ⟨w, hw, rfl⟩ := List.mem_map.1 hn
      rw [hall w hw, hg]
  have hjobs : st.jobs = [] := by
    obtain ⟨w, hw⟩ := List.exists_mem_of_ne_nil _ hinv.workers_ne
    have hx := hall w hw
    subst hx
    exact (hinv.worker_exit hw).2
  refine ⟨?_, hidle _ rfl, fun w hw hme => ?_, fun w hw i hme => ?_⟩
  · simp [processHeld, hret, Reader.processHeld, hjobs, hidle Worker.processHeld rfl]
  · have := (h.process.line w.me w.amount).1 hw
    rw [hme] at this
    simp [processWaits, hk, hret, Reader.waitsProcess] at this
  · have := (h.slots.line w.me w.amount).1 hw
    rw [hme] at this
    simp only [slotWaits, hk, Option.bind_some, Option.bind_eq_some_iff] at this
    obtain ⟨v, hv, hv'⟩ := this
    rw [hall v (List.mem_of_getElem? hv)] at hv'
    cases hv'

/-- **The caps hold and everything comes back.** In every reachable state:
each stream's live pages fit its byte cap and all streams' the process's;
pages with a slot are at most `maxInflight` overall and the stream's worker
count in each stream; no stream admits more than `maxPages` pages. What the
shared budgets count as used is exactly what the streams hold, and a stream
that returned, on whatever path, holds nothing. -/
theorem resource_caps {c : Config} {os : List Options} {s : Sys} (hr : (lts c os).Reachable s) :
    (∀ st ∈ s.streams, liveBytes st ≤ c.maxStreamBufferedBytes ∧
      inflight st ≤ effectiveConcurrency c st.options ∧ st.started ≤ c.maxPages) ∧
    (s.streams.map liveBytes).sum ≤ c.maxBufferedBytes ∧
    (s.streams.map inflight).sum ≤ c.maxInflight ∧
    s.shared.process.used = (s.streams.map processHeld).sum ∧
    s.shared.slots.used = (s.streams.map slotHeld).sum ∧
    ∀ k st status, s.streams[k]? = some st → st.reader = .returned status → GaveBack s k st := by
  have h := sound_reachable hr
  have hinv := inv_reachable hr
  refine ⟨fun st hst => ?_, ?_, ?_, h.process.used, h.slots.used, fun k st status hk hret => ?_⟩
  · obtain ⟨k, hk⟩ := List.mem_iff_getElem?.1 hst
    have hok := h.streams k st hk
    refine ⟨Nat.le_trans hok.liveBytes_le_stream hok.bytes.fits, ?_, (hinv st hst).started_le⟩
    rw [← hok.width]
    exact List.countP_le_length
  · exact Nat.le_trans (sum_le_of_index h fun k st hok => hok.liveBytes_le_process) h.process.fits
  · exact Nat.le_trans (sum_le_of_index h fun k st hok => Nat.le_of_eq hok.inflight_eq) h.slots.fits
  · exact gaveBack_of_returned h (hinv st (List.mem_of_getElem? hk)) hk hret

theorem resource_caps_sampleRun :
    ∃ s st, (lts smallConfig [⟨0, false⟩]).Reachable s ∧ s.streams = [st] ∧
      st.reader = .returned Status.OK ∧ st.started = 2 ∧ liveBytes st ≤ 1024 ∧ inflight st ≤ 2 ∧
      s.shared.process.used = 0 ∧ s.shared.slots.used = 0 ∧ GaveBack s 0 st := by
  have hs : ((LTS.exec (sysStep smallConfig) (Sys.init smallConfig [⟨0, false⟩]) sampleRun).map
      fun s => s.streams.map fun st => (st.reader, st.started, st.options)) =
      some [(.returned Status.OK, 2, ⟨0, false⟩)] := by decide
  obtain ⟨s, he, hv⟩ := Option.map_eq_some_iff.1 hs
  obtain ⟨st, hst, hv⟩ := List.map_eq_singleton_iff.1 hv
  simp only [Prod.mk.injEq] at hv
  have hr : (lts smallConfig [⟨0, false⟩]).Reachable s := LTS.reachable_exec (.init rfl) he
  obtain ⟨h1, -, -, h4, h5, h6⟩ := resource_caps hr
  obtain ⟨hb, hf, -⟩ := h1 st (by rw [hst]; exact List.mem_singleton.2 rfl)
  have hg := h6 0 st _ (by rw [hst]; rfl) hv.1
  rw [hst] at h4 h5
  simp only [List.map_cons, List.map_nil, List.sum_cons, List.sum_nil, hg.process, hg.slots]
    at h4 h5
  rw [hv.2.2] at hf
  exact ⟨s, st, hr, hst, hv.1, hv.2.1, hb, hf, h4, h5, hg⟩

end VlmConvert.L4.Pipeline
