import Mathlib.Data.Finset.Card
import Mathlib.Algebra.BigOperators.Group.Finset.Basic
import Vmon.Sampler.Steps

/-!
# The two sampling modes

How many data responses a request brings, by bookkeeping: `owed` counts what the queue,
the calls in flight and the threads still have to deliver, and every step either keeps it
or pays a part of it with a visible event (`Flow.step`). So a complete run delivers what
its first task owed.

Without bulk sampling that is each active domain once for each active domain
(`fan_out_reports`), and with it nothing (`bulk_reports_nothing`), since the one request
names no domain. The two agree exactly where no domain is active.

## Main definitions

* `Libvirt.Contract` — what libvirt promises while the domains of `D` are active.
* `CompleteRun` — a run of one request, from `sampler_send_request` to rest.
* `Tally`, `paid`, `Daemon.owed` — the bookkeeping.
* `dataDomains`, `ModesAgree` — the data responses of a run, and the agreement.
-/

namespace Vmon

variable {δ : Type}

/-! ## Complete runs -/

/-- The promise of libvirt while the domains of `D` are active. -/
structure Libvirt.Contract (conn : Libvirt δ) (flags : UInt32) (D : Finset δ) : Prop where
  list : ∃ domains, conn.listAllDomains flags = some domains ∧ (domains : Multiset δ) = D.val
  all : ∀ stats, ∃ records, conn.getAllDomainStats stats = some records ∧
    (records.map StatsRecord.dom : Multiset δ) = D.val
  each : ∀ domains stats, domains ≠ [] → ∃ records,
    conn.domainListGetStats domains stats = some records ∧
      records.map StatsRecord.dom = domains
  none : ∀ stats, conn.domainListGetStats [] stats = none

/-- The program runs by itself: nobody else calls into the executor, no timeout fires,
every put finds room, and libvirt keeps its promise. -/
def Undisturbed (flags : UInt32) (D : Finset δ) (m : SamplerMove δ) : Prop :=
  match m.action with
  | .thread _ | .collect _ _ => True
  | .call _ _ => rbIsFull m.pre.exc.tasks = false
  | .work _ env => env.conn.Contract flags D
  | _ => False

/-- Nothing is left to do: no call in flight, an empty queue, and every thread waits for
the next task. -/
structure Daemon.AtRest (s : Daemon δ) : Prop where
  calls : s.exc.calls = []
  tasks : rbIsEmpty s.exc.tasks = true
  threads : ∀ t ∈ s.exc.threads, t.pc = .waiting

/-- A run of one request, from `sampler_send_request` on until nothing is left to do. -/
def CompleteRun (ctx : VmonContext) (workersCount maxTasks : ℕ) (D : Finset δ)
    (sr : SampleRequest) (h : List (SamplerEvent δ)) (s : Daemon δ) : Prop :=
  ∃ s₀ es, (samplerSystem δ ctx).step (.started workersCount maxTasks) (.send (.ofSample sr)) =
      some (s₀, es) ∧
    (samplerSystem δ ctx).Reach (Undisturbed ctx.flags D) s₀ h s ∧ s.AtRest

/-- The domains of the data responses, in the order they are written. -/
def dataDomains (h : List (SamplerEvent δ)) : List δ :=
  h.filterMap fun
    | .response _ _ dom _ (some _) => some dom
    | _ => none

/-- Both histories have the same data responses: one for each domain of `D`. -/
def ModesAgree (D : Finset δ) (h₁ h₂ : List (SamplerEvent δ)) : Prop :=
  (dataDomains h₁ : Multiset δ) = dataDomains h₂ ∧ (dataDomains h₁ : Multiset δ) = D.val

/-! ## Bookkeeping -/

/-- What counts: a put, and a data response by its domain. -/
structure Tally (δ : Type) where
  put : ℕ
  data : δ → ℕ

def SamplerEvent.worth (w : Tally δ) : SamplerEvent δ → ℕ
  | .exec (.dispatched _ _ ret) => if ret = 0 then w.put else 0
  | .response _ _ dom _ (some _) => w.data dom
  | _ => 0

/-- The worth of a history. -/
def paid (w : Tally δ) (h : List (SamplerEvent δ)) : ℕ := (h.map (SamplerEvent.worth w)).sum

section Paid

variable (w : Tally δ)

@[simp] theorem paid_nil : paid w [] = 0 := rfl

@[simp] theorem paid_cons (e : SamplerEvent δ) (h : List (SamplerEvent δ)) :
    paid w (e :: h) = e.worth w + paid w h := by simp [paid]

@[simp] theorem paid_append (h es : List (SamplerEvent δ)) :
    paid w (h ++ es) = paid w h + paid w es := by simp [paid]

@[simp] theorem paid_sampled (tid : ℕ) (ret : Option (List (StatsRecord δ))) :
    paid w (ret.toList.map (.sampled tid)) = 0 := by
  cases ret <;> simp [SamplerEvent.worth]

@[simp] theorem paid_freeDomain (tid : ℕ) (req : VmonRequest δ) :
    paid w (Daemon.freeDomain tid req) = 0 := by
  cases h : req.dom <;> simp [Daemon.freeDomain, h, SamplerEvent.worth]

/-- The data responses, counted by domain. -/
theorem paid_data (data : δ → ℕ) (h : List (SamplerEvent δ)) :
    paid ⟨0, data⟩ h = ((dataDomains h).map data).sum := by
  induction h with
  | nil => rfl
  | cons e h ih =>
    rw [paid_cons, ih, dataDomains, dataDomains, List.filterMap_cons]
    cases e with
    | response tid env dom events body => cases body <;> simp [SamplerEvent.worth]
    | exec e => cases e <;> simp [SamplerEvent.worth]
    | _ => simp [SamplerEvent.worth]

end Paid

section Owed

variable (ctx : VmonContext) (D : Finset δ) (w : Tally δ)

/-- What `n` data responses are worth, where only events may be wanted. -/
def dataOwed (n : ℕ) : ℕ := if ctx.conf.eventsOnly then 0 else n

def recordsOwed (records : List (StatsRecord δ)) : ℕ :=
  dataOwed ctx (records.map fun record => w.data record.dom).sum

/-- What a query of all active domains brings. -/
def sampleOwed : ℕ := dataOwed ctx (∑ dom ∈ D, w.data dom)

abbrev SamplerTask (δ : Type) := TaskData SamplerFunction (VmonRequest δ)

/-- The collect function of the task will report the records. -/
def TaskData.reports (task : SamplerTask δ) : Bool :=
  task.td.collect = .client .samplingCollect && !task.td.discarded

/-- After the work function returned `err`. -/
def collectOwed (task : SamplerTask δ) (err : ℤ) : ℕ :=
  if err = 0 ∧ task.reports = true then recordsOwed ctx w task.arg.reported else 0

/-- Inside the loop of `list_domains_work`. -/
def listingOwed (task : SamplerTask δ) (left : ℕ) : ℕ :=
  left * (w.put + sampleOwed ctx D w) + collectOwed ctx w task 0

/-- Before the work function. -/
def workOwed (task : SamplerTask δ) : ℕ :=
  match task.td.work with
  | .client .listDomainsWork => listingOwed ctx D w task D.card
  | .client .sampleDomainWork => if task.reports then sampleOwed ctx D w else 0
  | .client .bulkSamplingWork =>
    if task.reports then dataOwed ctx (task.arg.dom.toList.map w.data).sum else 0
  | _ => 0

/-- Inside the collect function. -/
def reportOwed (task : SamplerTask δ) : Frame δ → ℕ
  | .collecting error timeout =>
    if task.td.collect = .client .samplingCollect ∧ error = 0 ∧ timeout = false then
      recordsOwed ctx w task.arg.reported
    else 0
  | .reporting _ records =>
    if task.td.collect = .client .samplingCollect then recordsOwed ctx w records else 0
  | _ => 0

def threadOwed (t : Thread SamplerFunction (VmonRequest δ)) (frame : Frame δ) : ℕ :=
  match t.pc with
  | .got | .armed | .ready => workOwed ctx D w t.task
  | .working =>
    match frame with
    | .listing domains _ => listingOwed ctx D w t.task domains.length
    | _ => workOwed ctx D w t.task
  | .worked | .cleared | .deleting | .finished => collectOwed ctx w t.task t.err
  | .collecting => reportOwed ctx w t.task frame
  | .get | .waiting | .exited | .undefined => 0

def callOwed : Call SamplerFunction (VmonRequest δ) → ℕ
  | .dispatch _ args => w.put + workOwed ctx D w (dispatchTask args)
  | .stop _ _ => 0

/-- The threads of the pool, each with its frame. -/
def Daemon.threadsOwed (s : Daemon δ) : ℕ :=
  ∑ tid ∈ Finset.range s.exc.threads.length,
    ((s.exc.threads[tid]?).map fun t => threadOwed ctx D w t (s.frames tid)).getD 0

/-- **What is still to be delivered**, where the queue holds `q`. -/
def Daemon.owed (q : List (SamplerTask δ)) (s : Daemon δ) : ℕ :=
  (q.map (workOwed ctx D w)).sum + (s.exc.calls.map (callOwed ctx D w)).sum +
    s.threadsOwed ctx D w

end Owed

/-! ## One step -/

section Step

variable {ctx : VmonContext} {D : Finset δ} {cap : ℕ} {s s' : Daemon δ}
  {q q' : List (SamplerTask δ)} {es : List (SamplerEvent δ)}

variable (ctx D) in
/-- What the threads owe after one of them moved. -/
theorem threadsOwed_set {tid : ℕ} {t t' : Thread SamplerFunction (VmonRequest δ)}
    (ht : s.exc.threads[tid]? = some t) (hthreads : s'.exc.threads = s.exc.threads.set tid t')
    (hframes : ∀ j, j ≠ tid → s'.frames j = s.frames j) (w : Tally δ) :
    s'.threadsOwed ctx D w + threadOwed ctx D w t (s.frames tid) =
      s.threadsOwed ctx D w + threadOwed ctx D w t' (s'.frames tid) :=
  Daemon.sumThreads_set (threadOwed ctx D w) ht hthreads hframes

/-- Two frames of a thread that are worth the same. -/
theorem threadOwed_listing (w : Tally δ) (t : Thread SamplerFunction (VmonRequest δ))
    (domains : List δ) (err err' : ℤ) :
    threadOwed ctx D w t (.listing domains err) = threadOwed ctx D w t (.listing domains err') := by
  simp only [threadOwed, reportOwed]

/-- Puts only. -/
def puts : Tally δ := ⟨1, fun _ => 0⟩

/-- **The bookkeeping is sound in `s`**: the queue holds `q` and takes the puts to come, the
executor runs, and only `executor_dispatch` is being called, so far without an error. -/
structure Flow (ctx : VmonContext) (D : Finset δ) (cap : ℕ) (q : List (SamplerTask δ))
    (s : Daemon δ) : Prop where
  tracks : s.exc.tasks.Tracks cap q (s.owed ctx D puts q)
  running : s.exc.running = true
  calls : ∀ call ∈ s.exc.calls, ∃ caller args, call = .dispatch caller args
  listing : ∀ tid domains err, s.frames tid = .listing domains err → err = 0

/-- A step that keeps the books: what it makes visible is what is owed less. -/
def Settled (ctx : VmonContext) (D : Finset δ) (cap : ℕ) (q : List (SamplerTask δ))
    (s s' : Daemon δ) (es : List (SamplerEvent δ)) : Prop :=
  ∃ q', Flow ctx D cap q' s' ∧ ∀ w, paid w es + s'.owed ctx D w q' = s.owed ctx D w q

/-- A step of one thread that makes no call, with what the queue held and holds. -/
theorem Flow.move (F : Flow ctx D cap q s) {tid : ℕ}
    {t t' : Thread SamplerFunction (VmonRequest δ)} (ht : s.exc.threads[tid]? = some t)
    (hthreads : s'.exc.threads = s.exc.threads.set tid t') (hcalls : s'.exc.calls = s.exc.calls)
    (hrunning : s'.exc.running = s.exc.running)
    (hframes : ∀ j, j ≠ tid → s'.frames j = s.frames j)
    (hlisting : ∀ domains err, s'.frames tid = .listing domains err → err = 0)
    (htracks : s'.exc.tasks.Tracks cap q' (s.owed ctx D puts q)) (hputs : paid puts es = 0)
    (howed : ∀ w, paid w es + (q'.map (workOwed ctx D w)).sum +
        threadOwed ctx D w t' (s'.frames tid) =
      (q.map (workOwed ctx D w)).sum + threadOwed ctx D w t (s.frames tid)) :
    Settled ctx D cap q s s' es := by
  have hsettled : ∀ w, paid w es + s'.owed ctx D w q' = s.owed ctx D w q := by
    intro w
    have hset := threadsOwed_set ctx D ht hthreads hframes w
    have hw := howed w
    simp only [Daemon.owed, hcalls]
    omega
  refine ⟨q', ⟨?_, hrunning.trans F.running, by rw [hcalls]; exact F.calls, ?_⟩, hsettled⟩
  · have := hsettled puts
    rw [hputs, zero_add] at this
    rwa [this]
  · intro j domains err hj
    by_cases hne : j = tid
    · subst hne
      exact hlisting domains err hj
    · rw [hframes j hne] at hj
      exact F.listing j domains err hj

/-- A statement of a thread that leaves the queue alone, and moves what it owes to the
place where it is next. -/
theorem Flow.statement (F : Flow ctx D cap q s) {tid : ℕ}
    {t t' : Thread SamplerFunction (VmonRequest δ)} (ht : s.exc.threads[tid]? = some t)
    (hthreads : s'.exc.threads = s.exc.threads.set tid t') (hcalls : s'.exc.calls = s.exc.calls)
    (hrunning : s'.exc.running = s.exc.running) (htasks : s'.exc.tasks = s.exc.tasks)
    (hframes : ∀ j, j ≠ tid → s'.frames j = s.frames j)
    (hlisting : ∀ domains err, s'.frames tid = .listing domains err → err = 0)
    (hputs : paid puts es = 0)
    (howed : ∀ w, paid w es + threadOwed ctx D w t' (s'.frames tid) =
      threadOwed ctx D w t (s.frames tid)) :
    Settled ctx D cap q s s' es := by
  have htracks : s'.exc.tasks.Tracks cap q (s.owed ctx D puts q) := by
    rw [htasks]
    exact F.tracks
  refine F.move ht hthreads hcalls hrunning hframes hlisting htracks hputs ?_
  intro w
  have := howed w
  omega

/-- The statements outside the task functions. -/
theorem Flow.thread (F : Flow ctx D cap q s) {tid : ℕ} {exc : SamplerExecutor δ}
    {es : List (ExecutorEvent δ)} (hs : s.exc.Steps (.thread tid) exc es) :
    Settled ctx D cap q s (s.after exc es) (es.map .exec) := by
  have hsame : ∀ domains err, s.frames tid = .listing domains err → err = 0 := F.listing tid
  cases hs with
  | @wait _ t rb ht hpc hget =>
    have hpay : ∀ w frame, threadOwed ctx D w t frame = 0 := by
      intro w frame
      rcases hpc with hpc | hpc <;> simp only [threadOwed, hpc]
    rcases Executor.getSection_tracks F.tracks t.pc with ⟨-, rb', hget', hq⟩ | ⟨_, _, _, -, hget', -⟩
    · obtain rfl : rb = rb' := by simpa using congrArg Prod.fst (hget.symm.trans hget')
      refine F.move ht rfl rfl rfl (fun _ _ => rfl) hsame hq rfl ?_
      intro w
      rw [hpay, List.map_nil, paid_nil, zero_add]
      rfl
    · simp [hget'] at hget
  | @take _ t rb task ht hpc hget =>
    have hpay : ∀ w frame, threadOwed ctx D w t frame = 0 := by
      intro w frame
      rcases hpc with hpc | hpc <;> simp only [threadOwed, hpc]
    rcases Executor.getSection_tracks F.tracks t.pc with
      ⟨-, rb', hget', -⟩ | ⟨task', q', rb', rfl, hget', hq⟩
    · simp [hget'] at hget
    · simp only [hget', Prod.mk.injEq, GetOutcome.done.injEq, Option.some.injEq] at hget
      obtain ⟨rfl, rfl⟩ := hget
      refine F.move ht rfl rfl rfl (fun _ _ => rfl) hsame hq rfl ?_
      intro w
      rw [hpay]
      simp only [List.map_cons, List.map_nil, paid_cons, paid_nil, List.sum_cons,
        SamplerEvent.worth, threadOwed]
      omega
  | @takeUndefined _ t rb ht hpc hget =>
    rcases Executor.getSection_tracks F.tracks t.pc with ⟨-, rb', hget', -⟩ | ⟨_, _, _, -, hget', -⟩ <;>
      simp [hget'] at hget
  | @arm _ t ht hpc htimeout =>
    refine F.statement ht rfl rfl rfl rfl (fun _ _ => rfl) hsame rfl ?_
    intro w
    simp [threadOwed, hpc, SamplerEvent.worth]
  | @skipTimer _ t ht hpc htimeout =>
    refine F.statement ht rfl rfl rfl rfl (fun _ _ => rfl) hsame rfl ?_
    intro w
    simp [threadOwed, hpc]
  | @setCurrent _ t ht hpc =>
    refine F.statement ht rfl rfl rfl rfl (fun _ _ => rfl) hsame rfl ?_
    intro w
    simp [threadOwed, hpc]
  | @callWork _ t ht hpc =>
    refine F.statement ht rfl rfl rfl rfl ?_ ?_ rfl ?_
    · intro j hj
      exact Function.update_of_ne hj _ _
    · intro domains err h
      simp [Daemon.follow] at h
    · intro w
      simp [threadOwed, hpc, SamplerEvent.worth, Daemon.follow]
  | @clearCurrent _ t ht hpc =>
    refine F.statement ht rfl rfl rfl rfl (fun _ _ => rfl) hsame rfl ?_
    intro w
    simp [threadOwed, hpc]
  | @keepTimer _ t ht hpc htest =>
    refine F.statement ht rfl rfl rfl rfl (fun _ _ => rfl) hsame rfl ?_
    intro w
    simp [threadOwed, hpc]
  | @dropTimer _ t ht hpc htimeout hdiscarded =>
    refine F.statement ht rfl rfl rfl rfl (fun _ _ => rfl) hsame rfl ?_
    intro w
    simp [threadOwed, hpc]
  | @deleteTimer _ t worker ht hpc hw =>
    refine F.statement ht rfl rfl rfl rfl (fun _ _ => rfl) hsame rfl ?_
    intro w
    simp [threadOwed, hpc, SamplerEvent.worth]
  | @callCollect _ t ht hpc =>
    refine F.statement ht rfl rfl rfl rfl ?_ ?_ rfl ?_
    · intro j hj
      exact Function.update_of_ne hj _ _
    · intro domains err h
      simp [Daemon.follow] at h
    · intro w
      -- the arguments of the collect function are what the thread owed by
      have hreports : (t.err = 0 ∧ t.task.reports = true) ↔
          (t.task.td.collect = .client .samplingCollect ∧ t.err = 0 ∧
            t.task.td.discarded = false) := by
        simp only [TaskData.reports, Bool.and_eq_true, decide_eq_true_eq, Bool.not_eq_true']
        tauto
      simp [threadOwed, hpc, SamplerEvent.worth, Daemon.follow, reportOwed, collectOwed, hreports]

theorem reports_setArg (task : SamplerTask δ) (req : VmonRequest δ) :
    (task.setArg req).reports = task.reports := by simp [TaskData.reports]

theorem collectOwed_setArg (w : Tally δ) (task : SamplerTask δ) (req : VmonRequest δ) (err : ℤ) :
    collectOwed ctx w (task.setArg req) err =
      if err = 0 ∧ task.reports = true then recordsOwed ctx w req.reported else 0 := by
  rw [collectOwed, reports_setArg, TaskData.arg_setArg]

theorem reported_store_none (req : VmonRequest δ) : (req.store none).reported = [] := rfl

theorem reported_store_some (req : VmonRequest δ) (records : List (StatsRecord δ)) :
    (req.store (some records)).reported = records := by
  simp [VmonRequest.store, VmonRequest.reported]

/-- A query of all active domains brings what the contract says. -/
theorem recordsOwed_of_all (w : Tally δ) {records : List (StatsRecord δ)}
    (h : (records.map StatsRecord.dom : Multiset δ) = D.val) :
    recordsOwed ctx w records = sampleOwed ctx D w := by
  have hsum : (records.map fun record => w.data record.dom).sum = ∑ dom ∈ D, w.data dom := by
    have hmap : records.map (fun record => w.data record.dom) =
        (records.map StatsRecord.dom).map w.data := by simp
    rw [hmap, ← Multiset.sum_coe, ← Multiset.map_coe, h]
    rfl
  rw [recordsOwed, hsum, sampleOwed]

/-- A query of listed domains brings one record for each. -/
theorem recordsOwed_of_each (w : Tally δ) {records : List (StatsRecord δ)} {domains : List δ}
    (h : records.map StatsRecord.dom = domains) :
    recordsOwed ctx w records = dataOwed ctx (domains.map w.data).sum := by
  subst h
  rw [recordsOwed, List.map_map]
  rfl

/-- The return of a work function that left `req` in its argument and returned `ret`. -/
theorem Flow.workReturn (F : Flow ctx D cap q s) {tid : ℕ}
    {t : Thread SamplerFunction (VmonRequest δ)} (ht : s.exc.threads[tid]? = some t)
    {ret : ℤ} {req : VmonRequest δ} {exc : SamplerExecutor δ} {es' : List (ExecutorEvent δ)}
    (hs : s.exc.Steps (.workReturn tid ret req) exc es') (before : List (SamplerEvent δ))
    (hbefore : ∀ w, paid w before = 0)
    (howed : ∀ w, collectOwed ctx w (t.task.setArg (Executor.workResult t ret req).2)
        (Executor.workResult t ret req).1 = threadOwed ctx D w t (s.frames tid)) :
    Settled ctx D cap q s (s.after exc es') (before ++ es'.map .exec) := by
  cases hs with
  | @returnWork _ t' _ _ ht' hpc hcalling =>
    obtain rfl : t' = t := by simpa [ht] using ht'.symm
    refine F.statement ht rfl rfl rfl rfl ?_ ?_ ?_ ?_
    · intro j hj
      exact Function.update_of_ne hj _ _
    · intro domains err h
      simp [Daemon.follow] at h
    · simp [hbefore, SamplerEvent.worth]
    · intro w
      rw [← howed w]
      simp [hbefore, SamplerEvent.worth, threadOwed]

/-- The return of a collect function from a place where nothing more is owed. -/
theorem Flow.collectReturn (F : Flow ctx D cap q s) {tid : ℕ}
    {t : Thread SamplerFunction (VmonRequest δ)} (ht : s.exc.threads[tid]? = some t)
    {exc : SamplerExecutor δ} {es' : List (ExecutorEvent δ)}
    (hs : s.exc.Steps (.collectReturn tid 0) exc es') (before : List (SamplerEvent δ))
    (hbefore : ∀ w, paid w before = 0)
    (howed : ∀ w, threadOwed ctx D w t (s.frames tid) = 0) :
    Settled ctx D cap q s (s.after exc es') (before ++ es'.map .exec) := by
  cases hs with
  | @loop _ t' _ ht' hpc hret =>
    obtain rfl : t' = t := by simpa [ht] using ht'.symm
    refine F.statement ht rfl rfl rfl rfl ?_ ?_ ?_ ?_
    · intro j hj
      exact Function.update_of_ne hj _ _
    · intro domains err h
      simp [Daemon.follow] at h
    · simp [hbefore, SamplerEvent.worth]
    · intro w
      rw [howed w]
      simp [hbefore, SamplerEvent.worth, threadOwed]
  | @exit _ t' _ ht' hpc hret =>
    obtain rfl : t' = t := by simpa [ht] using ht'.symm
    refine F.statement ht rfl rfl rfl rfl ?_ ?_ ?_ ?_
    · intro j hj
      exact Function.update_of_ne hj _ _
    · intro domains err h
      simp [Daemon.follow] at h
    · simp [hbefore, SamplerEvent.worth]
    · intro w
      rw [howed w]
      simp [hbefore, SamplerEvent.worth, threadOwed]

/-- A step inside a task function that only moves the thread to another frame. -/
theorem Flow.frame (F : Flow ctx D cap q s) {tid : ℕ}
    {t : Thread SamplerFunction (VmonRequest δ)} (ht : s.exc.threads[tid]? = some t)
    {frame : Frame δ} (hlisting : ∀ domains err, frame = .listing domains err → err = 0)
    (hputs : paid puts es = 0)
    (howed : ∀ w, paid w es + threadOwed ctx D w t frame = threadOwed ctx D w t (s.frames tid)) :
    Settled ctx D cap q s (s.setFrame tid frame) es := by
  have hself : (s.setFrame tid frame).frames tid = frame := Function.update_self ..
  refine F.statement ht (set_of_getElem? ht).symm rfl rfl rfl ?_ ?_ hputs ?_
  · intro j hj
    exact Function.update_of_ne hj _ _
  · rw [hself]
    exact hlisting
  · rw [hself]
    exact howed

/-- A query in a work function brings what its task owed. -/
theorem Flow.query (F : Flow ctx D cap q s) {tid : ℕ} {env : Env δ}
    {t : Thread SamplerFunction (VmonRequest δ)} {f : SamplerFunction}
    {ret : Option (List (StatsRecord δ))} {exc : SamplerExecutor δ} {es' : List (ExecutorEvent δ)}
    (ht : s.exc.threads[tid]? = some t) (hpc : t.pc = .working)
    (hwork : t.task.td.work = .client f) (hframe : s.frames tid = .working)
    (hquery : Daemon.Query env t.task.arg f ret) (hconn : env.conn.Contract ctx.flags D)
    (hs : s.exc.Steps (.workReturn tid 0 (t.task.arg.store ret)) exc es') :
    Settled ctx D cap q s (s.after exc es')
      (ret.toList.map (.sampled tid) ++ es'.map .exec) := by
  refine F.workReturn ht hs _ (fun w => paid_sampled w tid ret) ?_
  intro w
  have hresult : Executor.workResult t 0 (t.task.arg.store ret) = (0, t.task.arg.store ret) := by
    simp [Executor.workResult, hwork]
  simp only [hresult, collectOwed_setArg, threadOwed, hpc, hframe]
  cases hquery with
  | sample =>
    obtain ⟨records, hrecords, hdoms⟩ := hconn.all t.task.arg.sr.stats
    rw [sampleDomainQuery, hrecords, reported_store_some, recordsOwed_of_all w hdoms]
    simp [workOwed, hwork]
  | bulk =>
    cases hdom : t.task.arg.dom with
    | none =>
      rw [bulkSamplingQuery, hdom, Option.toList_none, hconn.none, reported_store_none]
      simp [workOwed, hwork, hdom, recordsOwed]
    | some dom =>
      obtain ⟨records, hrecords, hdoms⟩ := hconn.each [dom] t.task.arg.sr.stats (by simp)
      rw [bulkSamplingQuery, hdom, Option.toList_some, hrecords, reported_store_some,
        recordsOwed_of_each w hdoms]
      simp [workOwed, hwork, hdom]

/-- The task that the loop of `list_domains_work` puts for one domain. -/
theorem workOwed_listDomainsDispatch (w : Tally δ) (req : VmonRequest δ) (dom : δ) :
    workOwed ctx D w (dispatchTask (listDomainsDispatch ctx req dom)) = sampleOwed ctx D w := by
  simp [workOwed, dispatchTask, listDomainsDispatch, TaskData.reports]

/-- A call of `executor_dispatch` begins, for one domain of the listing. -/
theorem Flow.listDispatch (F : Flow ctx D cap q s) {tid : ℕ} {env : Env δ}
    {t : Thread SamplerFunction (VmonRequest δ)} {dom : δ} {domains : List δ} {err : ℤ}
    {exc : SamplerExecutor δ} {es' : List (ExecutorEvent δ)}
    (ht : s.exc.threads[tid]? = some t) (hpc : t.pc = .working)
    (hframe : s.frames tid = .listing (dom :: domains) err)
    (hs : s.exc.Steps (.dispatch (.worker tid) (listDomainsDispatch ctx t.task.arg dom)) exc es') :
    Settled ctx D cap q s ((s.setFrame tid (.listing domains err)).after exc es')
      (es'.flatMap (Daemon.afterDispatch env)) := by
  have herr : err = 0 := F.listing tid _ err hframe
  cases hs with
  | refuse hcaller hcheck =>
    rw [F.running] at hcheck
    simp [Daemon.dispatchCheck_request] at hcheck
  | enter hcaller hcheck =>
    -- what one turn of the loop is worth goes from the thread to the call
    have hsettled : ∀ w, Daemon.owed ctx D w q ((s.setFrame tid (.listing domains err)).after
        { s.exc with calls := s.exc.calls ++
            [.dispatch (.worker tid) (listDomainsDispatch ctx t.task.arg dom)] } []) =
        s.owed ctx D w q := by
      intro w
      have hset : s.exc.threads = s.exc.threads.set tid t := (set_of_getElem? ht).symm
      have hthreads := @threadsOwed_set _ ctx D s ((s.setFrame tid (.listing domains err)).after
          { s.exc with calls := s.exc.calls ++
              [.dispatch (.worker tid) (listDomainsDispatch ctx t.task.arg dom)] } [])
        _ _ _ ht hset (fun j hj => Function.update_of_ne hj _ _) w
      have hself : Function.update s.frames tid (.listing domains err) tid =
          .listing domains err := Function.update_self ..
      simp only [Daemon.after_nil, Daemon.setFrame_frames, hself, hframe, threadOwed, hpc,
        listingOwed, List.length_cons, Nat.succ_mul] at hthreads
      simp only [Daemon.owed, Daemon.after_exc, List.map_append, List.sum_append, List.map_cons,
        List.map_nil, List.sum_cons, List.sum_nil, callOwed, workOwed_listDomainsDispatch]
      omega
    refine ⟨q, ⟨?_, F.running, ?_, ?_⟩, fun w => ?_⟩
    · rw [hsettled puts]
      exact F.tracks
    · intro call hcall
      rcases List.mem_append.mp hcall with hcall | hcall
      · exact F.calls call hcall
      · exact ⟨_, _, List.mem_singleton.mp hcall⟩
    · intro j ds err' hj
      by_cases hne : j = tid
      · subst hne
        simp only [Daemon.after_nil, Daemon.setFrame_frames, Function.update_self,
          Frame.listing.injEq] at hj
        rw [← hj.2, herr]
      · refine F.listing j ds err' ?_
        rwa [Daemon.after_nil, Daemon.setFrame_frames, Function.update_of_ne hne] at hj
    · rw [hsettled w]
      simp

/-- The return of `executor_dispatch` leaves the frames worth what they were. -/
theorem follow_dispatched (F : Flow ctx D cap q s) (caller : Caller)
    (args : DispatchArgs SamplerFunction (VmonRequest δ)) :
    (∀ w tid t, threadOwed ctx D w t (Daemon.follow s.frames (.dispatched caller args 0) tid) =
      threadOwed ctx D w t (s.frames tid)) ∧
    ∀ tid domains err, Daemon.follow s.frames (.dispatched caller args 0) tid =
      .listing domains err → err = 0 := by
  cases caller with
  | client => exact ⟨fun _ _ _ => rfl, F.listing⟩
  | worker tid =>
    cases hframe : s.frames tid with
    | listing domains err =>
      simp only [Daemon.follow, hframe]
      constructor
      · intro w j t
        by_cases hj : j = tid
        · subst hj
          rw [Function.update_self, hframe]
          exact threadOwed_listing w t domains 0 err
        · rw [Function.update_of_ne hj]
      · intro j ds err' h
        by_cases hj : j = tid
        · subst hj
          rw [Function.update_self, Frame.listing.injEq] at h
          exact h.2.symm
        · rw [Function.update_of_ne hj] at h
          exact F.listing j ds err' h
    | _ =>
      simp only [Daemon.follow, hframe]
      exact ⟨fun _ _ _ => trivial, F.listing⟩

/-- A call of `executor_dispatch` that finds room puts its task. -/
theorem Flow.call (F : Flow ctx D cap q s) {i : ℕ} {env : Env δ} {exc : SamplerExecutor δ}
    {es' : List (ExecutorEvent δ)} (hroom : rbIsFull s.exc.tasks = false)
    (hs : s.exc.Steps (.call i) exc es') :
    Settled ctx D cap q s (s.after exc es') (es'.flatMap (Daemon.afterDispatch env)) := by
  have hnotStop : ∀ wait phase, s.exc.calls[i]? ≠ some (.stop wait phase) := by
    intro wait phase hcall
    obtain ⟨caller, args, h⟩ := F.calls _ (List.mem_of_getElem? hcall)
    simp at h
  cases hs with
  | stopPut hcall hj => exact absurd hcall (hnotStop _ _)
  | stopPhase hcall hp hp' => exact absurd hcall (hnotStop _ _)
  | stopReturn hcall => exact absurd hcall (hnotStop _ _)
  | @dispatchPut _ caller args hcall =>
    have hcalls : ∀ w, ((s.exc.calls.eraseIdx i).map (callOwed ctx D w)).sum +
        (w.put + workOwed ctx D w (dispatchTask args)) =
        (s.exc.calls.map (callOwed ctx D w)).sum := by
      intro w
      exact Daemon.sum_map_eraseIdx (callOwed ctx D w) hcall
    have hput : ∃ k, s.owed ctx D puts q = k + 1 := by
      refine ⟨s.owed ctx D puts q - 1, ?_⟩
      have := hcalls puts
      simp only [Daemon.owed, puts] at this ⊢
      omega
    obtain ⟨k, hk⟩ := hput
    obtain ⟨hret, hq⟩ := (hk ▸ F.tracks).put hroom (dispatchTask args)
    rw [hret]
    obtain ⟨hworth, hlisting⟩ := follow_dispatched F caller args
    have hpaid : ∀ w, paid w (Daemon.afterDispatch env (.dispatched caller args 0)) = w.put := by
      intro w
      cases caller <;> simp [Daemon.afterDispatch, SamplerEvent.worth]
    have hsettled : ∀ w, w.put + Daemon.owed ctx D w (q ++ [dispatchTask args])
        (s.after { s.exc with tasks := (ringbufferPut s.exc.tasks (dispatchTask args)).1,
                              calls := s.exc.calls.eraseIdx i } [.dispatched caller args 0]) =
        s.owed ctx D w q := by
      intro w
      have := hcalls w
      simp only [Daemon.owed, Daemon.threadsOwed, Daemon.after_exc, Daemon.after_singleton, hworth,
        List.map_append, List.sum_append, List.map_cons, List.map_nil, List.sum_cons, List.sum_nil]
      omega
    refine ⟨q ++ [dispatchTask args], ⟨?_, F.running, ?_, hlisting⟩, fun w => ?_⟩
    · have := hsettled puts
      rw [hk] at this
      have hleft : Daemon.owed ctx D puts (q ++ [dispatchTask args])
          (s.after { s.exc with tasks := (ringbufferPut s.exc.tasks (dispatchTask args)).1,
                                calls := s.exc.calls.eraseIdx i }
            [.dispatched caller args 0]) = k := by
        simp only [puts] at this ⊢
        omega
      rw [hleft]
      exact hq
    · intro call hcall'
      exact F.calls call (List.mem_of_mem_eraseIdx hcall')
    · rw [List.flatMap_singleton, hpaid, hsettled]

/-- **One step keeps the books.** -/
theorem Flow.step (F : Flow ctx D cap q s) {h : List (SamplerEvent δ)} {a : SamplerAction δ}
    (hok : Undisturbed ctx.flags D ⟨h, s, a⟩) (hs : Daemon.Steps ctx s a s' es) :
    Settled ctx D cap q s s' es := by
  cases hs with
  | thread hs => exact F.thread hs
  | outer ha hs => cases ha <;> exact hok.elim
  | call hs => exact F.call hok hs
  | query ht hpc hwork hframe hquery hs => exact F.query ht hpc hwork hframe hquery hok hs
  | @listFails tid env t exc es' ht hpc hwork hframe hlist hs =>
    obtain ⟨domains, hlist', -⟩ := (show env.conn.Contract ctx.flags D from hok).list
    rw [hlist] at hlist'
    cases hlist'
  | @list tid env t domains ht hpc hwork hframe hlist =>
    obtain ⟨domains', hlist', hdoms⟩ := (show env.conn.Contract ctx.flags D from hok).list
    obtain rfl : domains = domains' := by simpa [hlist] using hlist'
    have hcard : domains.length = D.card := by
      rw [← Multiset.coe_card, hdoms]
      rfl
    refine F.frame ht ?_ rfl ?_
    · intro ds err h
      cases h
      rfl
    · intro w
      simp [threadOwed, hpc, hframe, hwork, workOwed, hcard, SamplerEvent.worth]
  | listDispatch ht hpc hwork hframe hs => exact F.listDispatch ht hpc hframe hs
  | @listReturn tid env t err exc es' ht hpc hwork hframe hs =>
    obtain rfl := F.listing _ _ _ hframe
    refine F.workReturn ht hs [] (fun w => rfl) ?_
    intro w
    simp [Executor.workResult, hwork, threadOwed, hpc, hframe, listingOwed, collectOwed,
      reports_setArg]
  | @stopWork tid env t exc es' ht hpc hwork hframe hs =>
    refine F.workReturn ht hs [] (fun w => rfl) ?_
    intro w
    simp [Executor.workResult, hwork, threadOwed, hpc, hframe, workOwed, collectOwed]
  | @collectFails tid env t error timeout exc es' ht hpc hcollect hframe herr hs =>
    refine F.collectReturn ht hs _ ?_ ?_
    · intro w
      simp [SamplerEvent.worth]
    · intro w
      rcases herr with herr | herr <;> simp [threadOwed, hpc, hframe, reportOwed, herr]
  | @collectStart tid env t ht hpc hcollect hframe =>
    refine F.frame ht (by simp) rfl ?_
    intro w
    simp [threadOwed, hpc, hframe, reportOwed, hcollect]
  | @collectRecord tid env t ts record records ht hpc hcollect hframe =>
    refine F.frame ht (by simp) ?_ ?_
    · cases h : ctx.conf.eventsOnly <;> simp [collectRecord, h, SamplerEvent.worth, puts]
    · intro w
      cases h : ctx.conf.eventsOnly <;>
        simp [threadOwed, hpc, hframe, reportOwed, hcollect, recordsOwed, dataOwed, collectRecord,
          h, SamplerEvent.worth]
  | @collectEnd tid env t ts exc es' ht hpc hcollect hframe hs =>
    refine F.collectReturn ht hs _ ?_ ?_
    · intro w
      simp [SamplerEvent.worth]
    · intro w
      simp [threadOwed, hpc, hframe, reportOwed, recordsOwed, dataOwed]
  | @stopCollect tid env t exc es' ht hpc hcollect hs =>
    refine F.collectReturn ht hs [] (fun w => rfl) ?_
    intro w
    cases hframe : s.frames tid <;> simp [threadOwed, hpc, reportOwed, hcollect]

end Step

/-! ## Complete runs -/

section Runs

variable {ctx : VmonContext} {D : Finset δ} {workersCount maxTasks : ℕ} {sr : SampleRequest}
  {h : List (SamplerEvent δ)} {s : Daemon δ}

/-- The first task of a request. -/
def firstTask (ctx : VmonContext) (sr : SampleRequest) : SamplerTask δ :=
  dispatchTask (samplerSendRequest ctx (.ofSample sr))

/-- What `sampler_send_request` leaves: the call of `executor_dispatch` in flight. -/
theorem send_cases {s₀ : Daemon δ} {es : List (SamplerEvent δ)}
    (hs : (samplerSystem δ ctx).step (.started workersCount maxTasks) (.send (.ofSample sr)) =
      some (s₀, es)) :
    s₀.exc = { (Executor.started workersCount maxTasks : SamplerExecutor δ) with
      calls := [.dispatch .client (samplerSendRequest ctx (.ofSample sr))] } ∧
    s₀.frames = fun _ => .outside := by
  cases Daemon.step_cases hs with
  | outer ha hs =>
    cases ha with
    | send =>
      obtain ⟨workers, hstarted, -⟩ := Executor.started_eq (ι := SamplerFunction)
        (β := VmonRequest δ) workersCount maxTasks
      cases hs with
      | refuse hcaller hcheck =>
        simp [Daemon.started, hstarted, Daemon.dispatchCheck_request] at hcheck
      | enter hcaller hcheck =>
        constructor
        · simp [Daemon.started, hstarted, Executor.executorInit]
        · rfl

variable (ctx D) in
/-- A thread at its start or at rest owes nothing. -/
theorem threadsOwed_eq_zero (w : Tally δ) (hidle : ∀ t ∈ s.exc.threads, t.pc = .get ∨ t.pc = .waiting) :
    s.threadsOwed ctx D w = 0 := by
  refine Daemon.sumThreads_eq_zero fun tid t ht => ?_
  rcases hidle t (List.mem_of_getElem? ht) with hpc | hpc <;> simp [threadOwed, hpc]

/-- The books when the run of a request begins: one put is owed, and what its task owes. -/
theorem Flow.of_send {s₀ : Daemon δ} {es : List (SamplerEvent δ)}
    (hfit : SlotsFit maxTasks taskDataSize ∨ workOwed ctx D puts (firstTask ctx sr) = 0)
    (hs : (samplerSystem δ ctx).step (.started workersCount maxTasks) (.send (.ofSample sr)) =
      some (s₀, es)) :
    Flow ctx D maxTasks [] s₀ ∧
      ∀ w, s₀.owed ctx D w [] = w.put + workOwed ctx D w (firstTask ctx sr) := by
  obtain ⟨hexc, hframes⟩ := send_cases hs
  obtain ⟨workers, hstarted, -⟩ := Executor.started_eq (ι := SamplerFunction)
    (β := VmonRequest δ) workersCount maxTasks
  rw [hstarted] at hexc
  have howed : ∀ w, s₀.owed ctx D w [] = w.put + workOwed ctx D w (firstTask ctx sr) := by
    intro w
    have hidle : s₀.threadsOwed ctx D w = 0 := by
      apply threadsOwed_eq_zero
      intro t ht
      rw [hexc] at ht
      obtain ⟨wo, -, -, rfl⟩ := Executor.mem_startThreads ht
      exact .inl rfl
    simp [Daemon.owed, hidle, hexc, callOwed, firstTask]
  refine ⟨⟨?_, ?_, ?_, ?_⟩, howed⟩
  · rw [hexc]
    by_cases hslots : SlotsFit maxTasks taskDataSize
    · exact .inl ⟨.empty, RingBuffer.holds_init (by decide) hslots rfl, rfl⟩
    · rw [howed puts, hfit.resolve_left hslots]
      exact .inr (.fresh rfl rfl rfl rfl)
  · rw [hexc]
  · intro call hcall
    rw [hexc] at hcall
    exact ⟨_, _, List.mem_singleton.mp hcall⟩
  · intro tid domains err h
    rw [hframes] at h
    cases h

/-- **A complete run delivers what its first task owed.** -/
theorem CompleteRun.delivers
    (hfit : SlotsFit maxTasks taskDataSize ∨ workOwed ctx D puts (firstTask ctx sr) = 0)
    (hrun : CompleteRun ctx workersCount maxTasks D sr h s) (data : δ → ℕ) :
    ((dataDomains h).map data).sum = workOwed ctx D ⟨0, data⟩ (firstTask ctx sr) := by
  obtain ⟨s₀, es, hsend, hreach, hrest⟩ := hrun
  obtain ⟨hflow, howed⟩ := Flow.of_send (D := D) hfit hsend
  have hinv : ∃ q, Flow ctx D maxTasks q s ∧
      ∀ w, paid w h + s.owed ctx D w q = w.put + workOwed ctx D w (firstTask ctx sr) := by
    refine Lts.Reach.invariant (P := fun h s => ∃ q, Flow ctx D maxTasks q s ∧
      ∀ w, paid w h + s.owed ctx D w q = w.put + workOwed ctx D w (firstTask ctx sr)) ?_ ?_ hreach
    · exact ⟨[], hflow, fun w => by rw [paid_nil, zero_add, howed w]⟩
    · rintro h s a s' es' - ⟨q, F, hpaid⟩ hok hs
      obtain ⟨q', F', hsettled⟩ := F.step hok (Daemon.step_cases hs)
      refine ⟨q', F', fun w => ?_⟩
      rw [paid_append, add_assoc, hsettled w, hpaid w]
  obtain ⟨q, F, hpaid⟩ := hinv
  obtain rfl := F.tracks.isEmpty hrest.tasks
  have hnothing : s.owed ctx D ⟨0, data⟩ [] = 0 := by
    have hidle := threadsOwed_eq_zero ctx D ⟨0, data⟩
      fun t ht => .inr (hrest.threads t ht)
    simp [Daemon.owed, hrest.calls, hidle]
  have htotal := hpaid ⟨0, data⟩
  rwa [hnothing, paid_data, add_zero, zero_add] at htotal

/-- Bulk sampling asks for the statistics of no domain, and writes nothing. -/
theorem bulk_reports_nothing
    (hrun : CompleteRun (ctx.withBulk true) workersCount maxTasks D sr h s) :
    dataDomains h = [] := by
  have htask : ∀ w, workOwed (ctx.withBulk true) D w (firstTask (ctx.withBulk true) sr) = 0 := by
    intro w
    simp [workOwed, firstTask, dispatchTask, samplerSendRequest, VmonContext.withBulk,
      TaskData.arg, VmonRequest.ofSample, dataOwed]
  have hcount := hrun.delivers (.inr (htask puts)) fun _ => 1
  rw [htask, List.map_const', List.sum_replicate_nat, mul_one] at hcount
  exact List.eq_nil_of_length_eq_zero hcount

/-- What the task of a request owes that is sampled domain by domain. -/
theorem workOwed_listing (w : Tally δ) :
    workOwed (ctx.withBulk false) D w (firstTask (ctx.withBulk false) sr) =
      D.card * (w.put + sampleOwed ctx D w) := by
  have hsample : sampleOwed (ctx.withBulk false) D w = sampleOwed ctx D w := rfl
  rw [← hsample]
  simp [workOwed, firstTask, dispatchTask, samplerSendRequest, VmonContext.withBulk, listingOwed,
    collectOwed, TaskData.arg, VmonRequest.ofSample, VmonRequest.reported, recordsOwed, dataOwed]

/-- Each of the tasks, one for each domain, samples all domains again. -/
theorem fan_out_reports (hfit : SlotsFit maxTasks taskDataSize)
    (hdata : ctx.conf.eventsOnly = false)
    (hrun : CompleteRun (ctx.withBulk false) workersCount maxTasks D sr h s) :
    (dataDomains h : Multiset δ) = D.card • D.val := by
  classical
  ext dom
  have hcount := hrun.delivers (.inl hfit) fun x => if x = dom then 1 else 0
  rw [workOwed_listing, zero_add] at hcount
  have hlist : ∀ l : List δ, (l.map fun x => if x = dom then 1 else 0).sum = l.count dom := by
    intro l
    induction l with
    | nil => rfl
    | cons x l ih => rw [List.map_cons, List.sum_cons, ih, List.count_cons]; simp [add_comm]
  have hsum : (∑ x ∈ D, if x = dom then 1 else 0) = D.val.count dom := by
    rw [Finset.sum_ite_eq' D dom, Multiset.count_eq_of_nodup D.nodup]
    rfl
  rw [hlist] at hcount
  rw [Multiset.coe_count, hcount, sampleOwed, dataOwed, hdata, Multiset.count_nsmul, ← hsum]
  rfl

end Runs

/-- **The modes agree only where no domain is active.** -/
theorem sampling_modes_agree_iff (ctx : VmonContext) (workersCount maxTasks : ℕ) (D : Finset δ)
    (sr : SampleRequest) {h₁ h₂ : List (SamplerEvent δ)} {s₁ s₂ : Daemon δ}
    (hrun₁ : CompleteRun (ctx.withBulk false) workersCount maxTasks D sr h₁ s₁)
    (hrun₂ : CompleteRun (ctx.withBulk true) workersCount maxTasks D sr h₂ s₂) :
    ModesAgree D h₁ h₂ ↔ D = ∅ := by
  have hbulk := bulk_reports_nothing hrun₂
  constructor
  · rintro ⟨hsame, hall⟩
    rw [hsame, hbulk] at hall
    exact Finset.val_eq_zero.mp hall.symm
  · rintro rfl
    -- the listing is empty, so nothing is dispatched
    have hcount := hrun₁.delivers (.inr (by rw [workOwed_listing]; simp)) fun _ => 1
    rw [workOwed_listing, Finset.card_empty, zero_mul, List.map_const',
      List.sum_replicate_nat, mul_one] at hcount
    have hnil := List.eq_nil_of_length_eq_zero hcount
    constructor <;> simp [hnil, hbulk]

/-! ## One domain -/

/-- Domain `0` is active, and libvirt says so. -/
private def conn₁ : Libvirt ℕ :=
  { listAllDomains := fun _ => some [0]
    getAllDomainStats := fun _ => some [⟨0, []⟩]
    domainListGetStats := fun domains _ =>
      if domains = [] then none else some (domains.map fun dom => ⟨dom, []⟩) }

private theorem conn₁_contract (flags : UInt32) : conn₁.Contract flags {0} where
  list := ⟨[0], rfl, rfl⟩
  all _ := ⟨[⟨0, []⟩], rfl, rfl⟩
  each domains _ hne := by
    refine ⟨_, if_neg hne, ?_⟩
    simp [Function.comp_def]
  none _ := rfl

private def env₁ : Env ℕ :=
  { host := { calloc := fun _ _ => true, strdup := fun _ => true, uuidString := fun _ => none,
              bigEndian := false, string := fun _ => [] }
    conn := conn₁, now := 0, uuidUnparse := fun _ => [] }

private def ctx₁ : VmonContext :=
  { conf := { timeout := 1000, bulkSampling := false, diskUsagePerc := 0, eventsOnly := false }
    flags := 0 }

private def request₁ : SampleRequest := ⟨Vector.replicate 16 0, 0⟩

/-- The only thread takes a task and goes through its work and its collect function. -/
private def taskSteps (work collect : List (SamplerAction ℕ)) : List (SamplerAction ℕ) :=
  List.replicate 4 (SamplerAction.thread 0) ++ work ++
    List.replicate 4 (SamplerAction.thread 0) ++ collect

/-- The listing, the call for the one domain, and the sampling of that domain. -/
private def fanOutSteps : List (SamplerAction ℕ) :=
  [SamplerAction.call 0 env₁] ++
    taskSteps [.work 0 env₁, .work 0 env₁, .call 0 env₁, .work 0 env₁]
      (List.replicate 2 (.collect 0 env₁)) ++
    taskSteps [.work 0 env₁] (List.replicate 3 (.collect 0 env₁)) ++ [SamplerAction.thread 0]

private def bulkSteps : List (SamplerAction ℕ) :=
  [SamplerAction.call 0 env₁] ++
    taskSteps [.work 0 env₁] (List.replicate 2 (.collect 0 env₁)) ++ [SamplerAction.thread 0]

/-- Room for every put. -/
private def hasRoom (m : SamplerMove ℕ) : Bool :=
  match m.action with
  | .call _ _ => !rbIsFull m.pre.exc.tasks
  | _ => true

/-- The labels of the two runs: nobody else calls in, and the environment is the one above. -/
private def Ours (a : SamplerAction ℕ) : Prop :=
  match a with
  | .thread _ | .collect _ _ | .call _ _ => True
  | .work _ env => env = env₁
  | _ => False

private theorem undisturbed_of_ours {m : SamplerMove ℕ} (hroom : hasRoom m = true)
    (hours : Ours m.action) (flags : UInt32) : Undisturbed flags {0} m := by
  rcases m with ⟨h, s, a⟩
  cases a with
  | work tid env =>
    obtain rfl : env = env₁ := hours
    exact conn₁_contract flags
  | call i env =>
    change rbIsFull s.exc.tasks = false
    simpa [hasRoom] using hroom
  | thread | collect => trivial
  | _ => exact hours.elim

/-- The state `sampler_send_request` leaves. -/
private def sent (bulk : Bool) : Daemon ℕ :=
  { (Daemon.started 1 4 : Daemon ℕ) with
    exc := { (Executor.started 1 4 : SamplerExecutor ℕ) with
      calls := [.dispatch .client
        (samplerSendRequest (ctx₁.withBulk bulk) (.ofSample request₁))] } }

private theorem exists_completeRun (bulk : Bool) (as : List (SamplerAction ℕ))
    (hours : ∀ a ∈ as, Ours a) (p : List (SamplerEvent ℕ) → Bool)
    (he : ((samplerSystem ℕ (ctx₁.withBulk bulk)).exec hasRoom [] (sent bulk) as).any (fun r =>
      r.2.exc.calls.isEmpty && rbIsEmpty r.2.exc.tasks &&
        r.2.exc.threads.all (fun t => t.pc == .waiting) && p r.1) = true) :
    ∃ h s, CompleteRun (ctx₁.withBulk bulk) 1 4 {0} request₁ h s ∧ p h = true := by
  obtain ⟨h, s, hreach, hp⟩ := Lts.exists_reach_mem_of_exec (samplerSystem ℕ (ctx₁.withBulk bulk))
    hasRoom (sent bulk) as (fun h s => s.exc.calls.isEmpty && rbIsEmpty s.exc.tasks &&
      s.exc.threads.all (fun t => t.pc == .waiting) && p h) he
  simp only [Bool.and_eq_true, List.isEmpty_iff, List.all_eq_true, beq_iff_eq] at hp
  obtain ⟨⟨⟨hcalls, htasks⟩, hthreads⟩, hp⟩ := hp
  refine ⟨h, s, ⟨sent bulk, [], rfl, hreach.mono fun m hm => ?_, hcalls, htasks, hthreads⟩, hp⟩
  exact undisturbed_of_ours hm.1 (hours _ hm.2) _

private theorem exists_fanOut : ∃ h s,
    CompleteRun (ctx₁.withBulk false) 1 4 {0} request₁ h s ∧ (dataDomains h == [0]) = true := by
  refine exists_completeRun false fanOutSteps ?_ (fun h => dataDomains h == [0]) ?_
  · simp [fanOutSteps, taskSteps, Ours]
  · decide

private theorem exists_bulk : ∃ h s,
    CompleteRun (ctx₁.withBulk true) 1 4 {0} request₁ h s ∧ (dataDomains h == []) = true := by
  refine exists_completeRun true bulkSteps ?_ (fun h => dataDomains h == []) ?_
  · simp [bulkSteps, taskSteps, Ours]
  · decide

theorem sampling_modes_agree_iff_one_domain : ∃ h₁ h₂ s₁ s₂,
    CompleteRun (ctx₁.withBulk false) 1 4 {0} request₁ h₁ s₁ ∧
    CompleteRun (ctx₁.withBulk true) 1 4 {0} request₁ h₂ s₂ ∧
    (ModesAgree {0} h₁ h₂ ↔ ({0} : Finset ℕ) = ∅) := by
  obtain ⟨h₁, s₁, hrun₁, -⟩ := exists_fanOut
  obtain ⟨h₂, s₂, hrun₂, -⟩ := exists_bulk
  exact ⟨h₁, h₂, s₁, s₂, hrun₁, hrun₂, sampling_modes_agree_iff ctx₁ 1 4 {0} request₁ hrun₁ hrun₂⟩

/-- One active domain: one data response without bulk sampling, none with it. -/
theorem sampling_modes_agree_fails : ∃ h₁ h₂ s₁ s₂,
    CompleteRun (ctx₁.withBulk false) 1 4 {0} request₁ h₁ s₁ ∧
    CompleteRun (ctx₁.withBulk true) 1 4 {0} request₁ h₂ s₂ ∧
    dataDomains h₁ = [0] ∧ dataDomains h₂ = [] ∧ ¬ModesAgree {0} h₁ h₂ := by
  obtain ⟨h₁, s₁, hrun₁, hone⟩ := exists_fanOut
  obtain ⟨h₂, s₂, hrun₂, hnone⟩ := exists_bulk
  rw [beq_iff_eq] at hone hnone
  refine ⟨h₁, h₂, s₁, s₂, hrun₁, hrun₂, hone, hnone, ?_⟩
  rintro ⟨hsame, -⟩
  rw [hone, hnone] at hsame
  simp at hsame

end Vmon
