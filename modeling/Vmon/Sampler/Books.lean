import Vmon.Sampler.Steps

/-!
# Books for the objects of libvirt

Domain references and record lists come from libvirt, and go through the daemon from one place to
the next: the listing that `list_domains_work` still goes over, a call of `executor_dispatch`, a
task in the queue, the task of a thread. The books say how much is held in each place, for any
worth of an object. **Every step keeps them** (`Daemon.Steps.accounts`): what an event brings is
held, or is given back by an event, or is dropped in one that leaves it with nobody.

## Main definitions

* `Worth` — what an object counts for.
* `SamplerEvent.obtained`, `released`, `dropped` — the objects of an event.
* `Daemon.held` — what the daemon holds.
* `Accounts` — a step keeps the books.
-/

namespace Vmon

variable {δ : Type}

/-! ## Sums -/

/-- The sum of what the events of a history count for. -/
def sumEvents (f : SamplerEvent δ → ℕ) (h : List (SamplerEvent δ)) : ℕ := (h.map f).sum

section Sums

variable (f : SamplerEvent δ → ℕ)

@[simp] theorem sumEvents_nil : sumEvents f [] = 0 := rfl

@[simp] theorem sumEvents_cons (e : SamplerEvent δ) (h : List (SamplerEvent δ)) :
    sumEvents f (e :: h) = f e + sumEvents f h := by simp [sumEvents]

@[simp] theorem sumEvents_append (h es : List (SamplerEvent δ)) :
    sumEvents f (h ++ es) = sumEvents f h + sumEvents f es := by simp [sumEvents]

end Sums

/-- What a domain reference and a record list count for. -/
structure Worth (δ : Type) where
  dom : δ → ℕ
  records : List (StatsRecord δ) → ℕ

/-- Every object counts for one. -/
def ones : Worth δ := ⟨fun _ => 1, fun _ => 1⟩

/-! ## Books -/

section Books

variable (w : Worth δ)

namespace VmonRequest

variable (req : VmonRequest δ)

def domHeld : ℕ := (req.dom.map w.dom).getD 0

def recordsHeld : ℕ := (req.records.map w.records).getD 0

/-- What a request holds. -/
def held : ℕ := req.domHeld w + req.recordsHeld w

end VmonRequest

/-- What the event brings from libvirt. -/
def SamplerEvent.obtained : SamplerEvent δ → ℕ
  | .listed _ domains => (domains.map w.dom).sum
  | .sampled _ records => w.records records
  | _ => 0

/-- What it gives back. -/
def SamplerEvent.released : SamplerEvent δ → ℕ
  | .freeDomain _ dom => w.dom dom
  | .freeRecords _ records => (records.map w.records).getD 0
  | _ => 0

/-- What nobody has after it. -/
def SamplerEvent.dropped : SamplerEvent δ → ℕ
  | .exec (.dispatched _ args ret) => if ret ≠ 0 then args.data.held w else 0
  | .exec (.collectCalled _ _ _ req err timeout) =>
    if err ≠ 0 ∨ timeout = true then req.recordsHeld w else 0
  | _ => 0

/-- What a task holds. -/
def TaskData.held (task : TaskData SamplerFunction (VmonRequest δ)) : ℕ := task.arg.held w

/-- The domains that the loop of `list_domains_work` has not dispatched yet. -/
def listingHeld (task : TaskData SamplerFunction (VmonRequest δ)) : Frame δ → ℕ
  | .listing domains _ =>
    if task.td.work = .client .listDomainsWork then (domains.map w.dom).sum else 0
  | _ => 0

/-- Inside the collect function. -/
def collectHeld (task : TaskData SamplerFunction (VmonRequest δ)) : Frame δ → ℕ
  | .collecting error timeout =>
    if error ≠ 0 ∨ timeout = true then task.arg.domHeld w else task.held w
  | _ => task.held w

def threadHeld (t : Thread SamplerFunction (VmonRequest δ)) (frame : Frame δ) : ℕ :=
  match t.pc with
  | .got | .armed | .ready | .worked | .cleared | .deleting | .finished => t.task.held w
  | .working => t.task.held w + listingHeld w t.task frame
  | .collecting => collectHeld w t.task frame
  | .get | .waiting | .exited | .undefined => 0

def callHeld : Call SamplerFunction (VmonRequest δ) → ℕ
  | .dispatch _ args => args.data.held w
  | .stop _ _ => 0

/-- **What the daemon holds**, where the queue has the tasks `q`. -/
def Daemon.held (q : List (TaskData SamplerFunction (VmonRequest δ))) (s : Daemon δ) : ℕ :=
  (q.map (TaskData.held w)).sum + (s.exc.calls.map (callHeld w)).sum + s.sumThreads (threadHeld w)

end Books

/-! ## One step -/

section Step

variable {ctx : VmonContext} {cap : ℕ} {s s' : Daemon δ} {es : List (SamplerEvent δ)}
  {q q' : BoundedQueue (TaskData SamplerFunction (VmonRequest δ)) cap} {w : Worth δ}

/-- Up to the return of its work function a task has no records, and a stop task no domain. -/
structure TaskData.Unsampled (task : TaskData SamplerFunction (VmonRequest δ)) : Prop where
  records : task.arg.records = none
  stop : task.td.work = .stopWorker ∨ task.td.collect = .stopCollect →
    task.td.work = .stopWorker ∧ task.arg.dom = none

/-- From there on a stop task has neither. -/
def TaskData.StopsBare (task : TaskData SamplerFunction (VmonRequest δ)) : Prop :=
  task.td.work = .stopWorker ∨ task.td.collect = .stopCollect →
    task.arg.dom = none ∧ task.arg.records = none

/-- The step keeps the books, where the queue held `q`. -/
def Accounts (q : BoundedQueue (TaskData SamplerFunction (VmonRequest δ)) cap) (s s' : Daemon δ)
    (es : List (SamplerEvent δ)) : Prop :=
  ∃ q' : BoundedQueue (TaskData SamplerFunction (VmonRequest δ)) cap, s'.exc.tasks.Holds q' ∧
    ∀ w, sumEvents (SamplerEvent.released w) es + sumEvents (SamplerEvent.dropped w) es +
      s'.held w q'.elems = s.held w q.elems + sumEvents (SamplerEvent.obtained w) es

@[simp] theorem released_exec (e : ExecutorEvent δ) : SamplerEvent.released w (.exec e) = 0 := rfl

@[simp] theorem obtained_exec (e : ExecutorEvent δ) : SamplerEvent.obtained w (.exec e) = 0 := rfl

@[simp] theorem sumEvents_released_exec (es : List (ExecutorEvent δ)) :
    sumEvents (SamplerEvent.released w) (es.map .exec) = 0 := by
  induction es with
  | nil => rfl
  | cons e es ih => simpa using ih

@[simp] theorem sumEvents_obtained_exec (es : List (ExecutorEvent δ)) :
    sumEvents (SamplerEvent.obtained w) (es.map .exec) = 0 := by
  induction es with
  | nil => rfl
  | cons e es ih => simpa using ih

theorem sumEvents_freeDomain (tid : ℕ) (req : VmonRequest δ) :
    sumEvents (SamplerEvent.released w) (Daemon.freeDomain tid req) = req.domHeld w ∧
      sumEvents (SamplerEvent.dropped w) (Daemon.freeDomain tid req) = 0 ∧
      sumEvents (SamplerEvent.obtained w) (Daemon.freeDomain tid req) = 0 := by
  cases hdom : req.dom <;>
    simp [Daemon.freeDomain, hdom, VmonRequest.domHeld, SamplerEvent.released,
      SamplerEvent.dropped, SamplerEvent.obtained]

theorem sumEvents_sampled (tid : ℕ) (ret : Option (List (StatsRecord δ))) :
    sumEvents (SamplerEvent.released w) (ret.toList.map (.sampled tid)) = 0 ∧
      sumEvents (SamplerEvent.dropped w) (ret.toList.map (.sampled tid)) = 0 ∧
      sumEvents (SamplerEvent.obtained w) (ret.toList.map (.sampled tid)) =
        (ret.map w.records).getD 0 := by
  cases ret <;> simp [SamplerEvent.released, SamplerEvent.dropped, SamplerEvent.obtained]

/-- A step of one thread that makes no call, with what the queue held and holds. -/
theorem Accounts.move (q' : BoundedQueue (TaskData SamplerFunction (VmonRequest δ)) cap)
    {tid : ℕ} {t t' : Thread SamplerFunction (VmonRequest δ)}
    (ht : s.exc.threads[tid]? = some t) (hthreads : s'.exc.threads = s.exc.threads.set tid t')
    (hcalls : s'.exc.calls = s.exc.calls) (hframes : ∀ j, j ≠ tid → s'.frames j = s.frames j)
    (hq : s'.exc.tasks.Holds q')
    (hheld : ∀ w, sumEvents (SamplerEvent.released w) es + sumEvents (SamplerEvent.dropped w) es +
        (q'.elems.map (TaskData.held w)).sum + threadHeld w t' (s'.frames tid) =
      (q.elems.map (TaskData.held w)).sum + threadHeld w t (s.frames tid) +
        sumEvents (SamplerEvent.obtained w) es) :
    Accounts q s s' es := by
  refine ⟨q', hq, fun w => ?_⟩
  have hset := Daemon.sumThreads_set (threadHeld w) ht hthreads hframes
  have hw := hheld w
  simp only [Daemon.held, hcalls]
  omega

/-- A statement of a thread that leaves the queue alone. -/
theorem Accounts.statement {tid : ℕ} {t t' : Thread SamplerFunction (VmonRequest δ)}
    (hq : s.exc.tasks.Holds q) (ht : s.exc.threads[tid]? = some t)
    (hthreads : s'.exc.threads = s.exc.threads.set tid t') (hcalls : s'.exc.calls = s.exc.calls)
    (htasks : s'.exc.tasks = s.exc.tasks) (hframes : ∀ j, j ≠ tid → s'.frames j = s.frames j)
    (hheld : ∀ w, sumEvents (SamplerEvent.released w) es + sumEvents (SamplerEvent.dropped w) es +
        threadHeld w t' (s'.frames tid) =
      threadHeld w t (s.frames tid) + sumEvents (SamplerEvent.obtained w) es) :
    Accounts q s s' es := by
  refine Accounts.move q ht hthreads hcalls hframes (by rwa [htasks]) fun w => ?_
  have := hheld w
  omega

/-- The statements outside the task functions. -/
theorem Accounts.thread (hq : s.exc.tasks.Holds q) {tid : ℕ} {exc : SamplerExecutor δ}
    {es : List (ExecutorEvent δ)} (hs : s.exc.Steps (.thread tid) exc es) :
    Accounts q s (s.after exc es) (es.map .exec) := by
  cases hs with
  | @wait _ t rb ht hpc hget =>
    have hnone : ∀ w frame, threadHeld w t frame = 0 := by
      intro w frame
      rcases hpc with hpc | hpc <;> simp only [threadHeld, hpc]
    rcases Executor.getSection_cases hq t.pc with ⟨-, rb', hget', hq'⟩ | ⟨_, _, _, -, hget', -⟩
    · obtain rfl : rb = rb' := by simpa using congrArg Prod.fst (hget.symm.trans hget')
      refine Accounts.move q ht rfl rfl (fun _ _ => rfl) hq' fun w => ?_
      rw [hnone]
      simp [threadHeld]
    · simp [hget'] at hget
  | @take _ t rb task ht hpc hget =>
    have hnone : ∀ w frame, threadHeld w t frame = 0 := by
      intro w frame
      rcases hpc with hpc | hpc <;> simp only [threadHeld, hpc]
    rcases Executor.getSection_cases hq t.pc with
      ⟨-, rb', hget', -⟩ | ⟨task', q', rb', helems, hget', hq'⟩
    · simp [hget'] at hget
    · simp only [hget', Prod.mk.injEq, GetOutcome.done.injEq, Option.some.injEq] at hget
      obtain ⟨rfl, rfl⟩ := hget
      refine Accounts.move q' ht rfl rfl (fun _ _ => rfl) hq' fun w => ?_
      rw [hnone, helems]
      simp [threadHeld, SamplerEvent.dropped, add_comm]
  | @takeUndefined _ t rb ht hpc hget =>
    rcases Executor.getSection_cases hq t.pc with ⟨-, rb', hget', -⟩ | ⟨_, _, _, -, hget', -⟩ <;>
      simp [hget'] at hget
  | @arm _ t ht hpc htimeout =>
    refine Accounts.statement hq ht rfl rfl rfl (fun _ _ => rfl) fun w => ?_
    simp [threadHeld, hpc, SamplerEvent.dropped]
  | @skipTimer _ t ht hpc htimeout =>
    refine Accounts.statement hq ht rfl rfl rfl (fun _ _ => rfl) fun w => ?_
    simp [threadHeld, hpc]
  | @setCurrent _ t ht hpc =>
    refine Accounts.statement hq ht rfl rfl rfl (fun _ _ => rfl) fun w => ?_
    simp [threadHeld, hpc]
  | @callWork _ t ht hpc =>
    refine Accounts.statement hq ht rfl rfl rfl (fun j hj => Function.update_of_ne hj _ _) fun w => ?_
    simp [threadHeld, hpc, SamplerEvent.dropped, Daemon.follow, listingHeld]
  | @clearCurrent _ t ht hpc =>
    refine Accounts.statement hq ht rfl rfl rfl (fun _ _ => rfl) fun w => ?_
    simp [threadHeld, hpc]
  | @keepTimer _ t ht hpc htest =>
    refine Accounts.statement hq ht rfl rfl rfl (fun _ _ => rfl) fun w => ?_
    simp [threadHeld, hpc]
  | @dropTimer _ t ht hpc htimeout hdiscarded =>
    refine Accounts.statement hq ht rfl rfl rfl (fun _ _ => rfl) fun w => ?_
    simp [threadHeld, hpc]
  | @deleteTimer _ t worker ht hpc hw =>
    refine Accounts.statement hq ht rfl rfl rfl (fun _ _ => rfl) fun w => ?_
    simp [threadHeld, hpc, SamplerEvent.dropped]
  | @callCollect _ t ht hpc =>
    -- a task that comes to its collect function with an error loses its records here
    refine Accounts.statement hq ht rfl rfl rfl (fun j hj => Function.update_of_ne hj _ _) fun w => ?_
    simp only [List.map_cons, List.map_nil, sumEvents_cons, sumEvents_nil, released_exec,
      obtained_exec, SamplerEvent.dropped, threadHeld, hpc, Daemon.after_singleton,
      Daemon.follow, Function.update_self, collectHeld, TaskData.held, VmonRequest.held]
    split <;> omega

/-- The return of a work function that left `req` in its argument. -/
theorem Accounts.workReturn (hq : s.exc.tasks.Holds q) {tid : ℕ}
    {t : Thread SamplerFunction (VmonRequest δ)} (ht : s.exc.threads[tid]? = some t)
    {ret : ℤ} {req : VmonRequest δ} {exc : SamplerExecutor δ} {es' : List (ExecutorEvent δ)}
    (hs : s.exc.Steps (.workReturn tid ret req) exc es') (before : List (SamplerEvent δ))
    (hheld : ∀ w, sumEvents (SamplerEvent.released w) before +
        sumEvents (SamplerEvent.dropped w) before + (Executor.workResult t ret req).2.held w =
      threadHeld w t (s.frames tid) + sumEvents (SamplerEvent.obtained w) before) :
    Accounts q s (s.after exc es') (before ++ es'.map .exec) := by
  cases hs with
  | @returnWork _ t' _ _ ht' hpc hcalling =>
    obtain rfl : t' = t := by simpa [ht] using ht'.symm
    refine Accounts.statement hq ht rfl rfl rfl (fun j hj => Function.update_of_ne hj _ _) fun w => ?_
    have := hheld w
    simpa [SamplerEvent.dropped, threadHeld, TaskData.held] using this

/-- The return of a collect function, where `before` gives back all that the thread holds. -/
theorem Accounts.collectReturn (hq : s.exc.tasks.Holds q) {tid : ℕ}
    {t : Thread SamplerFunction (VmonRequest δ)} (ht : s.exc.threads[tid]? = some t)
    {exc : SamplerExecutor δ} {es' : List (ExecutorEvent δ)}
    (hs : s.exc.Steps (.collectReturn tid 0) exc es') (before : List (SamplerEvent δ))
    (hheld : ∀ w, sumEvents (SamplerEvent.released w) before +
        sumEvents (SamplerEvent.dropped w) before =
      threadHeld w t (s.frames tid) + sumEvents (SamplerEvent.obtained w) before) :
    Accounts q s (s.after exc es') (before ++ es'.map .exec) := by
  cases hs with
  | @loop _ t' _ ht' hpc hret =>
    obtain rfl : t' = t := by simpa [ht] using ht'.symm
    refine Accounts.statement hq ht rfl rfl rfl (fun j hj => Function.update_of_ne hj _ _) fun w => ?_
    simpa [SamplerEvent.dropped, threadHeld] using hheld w
  | @exit _ t' _ ht' hpc hret =>
    obtain rfl : t' = t := by simpa [ht] using ht'.symm
    refine Accounts.statement hq ht rfl rfl rfl (fun j hj => Function.update_of_ne hj _ _) fun w => ?_
    simpa [SamplerEvent.dropped, threadHeld] using hheld w

/-- A step inside a task function that only moves the thread to another frame. -/
theorem Accounts.frame (hq : s.exc.tasks.Holds q) {tid : ℕ}
    {t : Thread SamplerFunction (VmonRequest δ)} (ht : s.exc.threads[tid]? = some t)
    {frame : Frame δ}
    (hheld : ∀ w, sumEvents (SamplerEvent.released w) es + sumEvents (SamplerEvent.dropped w) es +
        threadHeld w t frame =
      threadHeld w t (s.frames tid) + sumEvents (SamplerEvent.obtained w) es) :
    Accounts q s (s.setFrame tid frame) es := by
  have hself : (s.setFrame tid frame).frames tid = frame := Function.update_self ..
  refine Accounts.statement hq ht (set_of_getElem? ht).symm rfl rfl (fun j hj => Function.update_of_ne hj _ _) ?_
  rw [hself]
  exact hheld

/-- What a caller adds where `executor_dispatch` returns counts for nothing. -/
theorem sumEvents_afterDispatch {f : SamplerEvent δ → ℕ}
    (hf : ∀ tid env dom text, f (.error tid env dom text) = 0) (env : Env δ)
    (es : List (ExecutorEvent δ)) :
    sumEvents f (es.flatMap (Daemon.afterDispatch env)) = sumEvents f (es.map .exec) := by
  induction es with
  | nil => rfl
  | cons e es ih =>
    have hone : sumEvents f (Daemon.afterDispatch env e) = f (.exec e) := by
      rcases e with ⟨_ | tid, args, ret⟩ | _ <;> try rfl
      by_cases hret : ret = 0 <;> simp [Daemon.afterDispatch, hret, hf]
    rw [List.flatMap_cons, sumEvents_append, ih, hone, List.map_cons, sumEvents_cons]

/-- The return of `executor_dispatch` leaves every thread with what it held. -/
theorem threadHeld_follow (t : Thread SamplerFunction (VmonRequest δ)) (frames : ℕ → Frame δ)
    (caller : Caller) (args : DispatchArgs SamplerFunction (VmonRequest δ)) (ret : ℤ) (tid : ℕ) :
    threadHeld w t (Daemon.follow frames (.dispatched caller args ret) tid) =
      threadHeld w t (frames tid) := by
  cases caller with
  | client => rfl
  | worker j =>
    cases hframe : frames j with
    | listing domains err =>
      simp only [Daemon.follow, hframe]
      by_cases hj : tid = j
      · subst hj
        rw [Function.update_self, hframe]
        simp only [threadHeld, listingHeld, collectHeld]
      · rw [Function.update_of_ne hj]
    | _ => simp only [Daemon.follow, hframe]

/-- A call goes on, and leaves the threads alone. -/
theorem Accounts.calls (q' : BoundedQueue (TaskData SamplerFunction (VmonRequest δ)) cap)
    {exc : SamplerExecutor δ} {es : List (ExecutorEvent δ)}
    (hthreads : exc.threads = s.exc.threads)
    (hframes : ∀ w t tid, threadHeld w t ((s.after exc es).frames tid) =
      threadHeld w t (s.frames tid)) (hq : exc.tasks.Holds q')
    (hheld : ∀ w, sumEvents (SamplerEvent.dropped w) (es.map .exec) +
        (q'.elems.map (TaskData.held w)).sum + (exc.calls.map (callHeld w)).sum =
      (q.elems.map (TaskData.held w)).sum + (s.exc.calls.map (callHeld w)).sum) :
    Accounts q s (s.after exc es) (es.map .exec) := by
  refine ⟨q', hq, fun w => ?_⟩
  have hw := hheld w
  simp only [Daemon.held, Daemon.sumThreads, Daemon.after_exc, hthreads, hframes,
    sumEvents_released_exec, sumEvents_obtained_exec]
  omega

/-- A new call that holds nothing. -/
theorem Accounts.enter (hq : s.exc.tasks.Holds q) {call : Call SamplerFunction (VmonRequest δ)}
    (hcall : ∀ w, callHeld w call = 0) :
    Accounts q s (s.after { s.exc with calls := s.exc.calls ++ [call] } []) [] := by
  change Accounts q s _ (([] : List (ExecutorEvent δ)).map .exec)
  refine Accounts.calls q rfl (fun _ _ _ => rfl) hq fun w => ?_
  simp [hcall]

/-- A call of `executor_dispatch` begins, for one domain of the listing. -/
theorem Accounts.listDispatch (hq : s.exc.tasks.Holds q) {tid : ℕ} {env : Env δ}
    {t : Thread SamplerFunction (VmonRequest δ)} {dom : δ} {domains : List δ} {err : ℤ}
    {exc : SamplerExecutor δ} {es' : List (ExecutorEvent δ)}
    (ht : s.exc.threads[tid]? = some t) (hpc : t.pc = .working)
    (hwork : t.task.td.work = .client .listDomainsWork)
    (hframe : s.frames tid = .listing (dom :: domains) err)
    (hrecords : t.task.arg.records = none)
    (hs : s.exc.Steps (.dispatch (.worker tid) (listDomainsDispatch ctx t.task.arg dom)) exc es') :
    Accounts q s ((s.setFrame tid (.listing domains err)).after exc es')
      (es'.flatMap (Daemon.afterDispatch env)) := by
  have hset : s.exc.threads = s.exc.threads.set tid t := (set_of_getElem? ht).symm
  have hargs : ∀ w : Worth δ, (listDomainsDispatch ctx t.task.arg dom).data.held w = w.dom dom := by
    intro w
    simp [listDomainsDispatch, VmonRequest.held, VmonRequest.domHeld, VmonRequest.recordsHeld,
      hrecords]
  have hlisting : ∀ (w : Worth δ) (err' : ℤ), w.dom dom + threadHeld w t (.listing domains err') =
      threadHeld w t (.listing (dom :: domains) err) := by
    intro w err'
    simp only [threadHeld, hpc, listingHeld, hwork, if_true, List.map_cons, List.sum_cons]
    omega
  cases hs with
  | @refuse _ _ ret hcaller hcheck =>
    have hret := Executor.dispatchCheck_error hcheck
    refine Accounts.statement hq ht hset rfl rfl ?_ fun w => ?_
    · intro j hj
      simp [Daemon.follow, Function.update_of_ne hj]
    · have hw := hlisting w ret
      rw [sumEvents_afterDispatch fun _ _ _ _ => rfl, sumEvents_afterDispatch fun _ _ _ _ => rfl,
        sumEvents_afterDispatch fun _ _ _ _ => rfl]
      simpa [SamplerEvent.dropped, hret, hargs, hframe, Daemon.follow] using hw
  | enter hcaller hcheck =>
    -- the domain goes from the thread to the call
    refine ⟨q, hq, fun w => ?_⟩
    have hthreads := @Daemon.sumThreads_set _ s ((s.setFrame tid (.listing domains err)).after
        { s.exc with calls := s.exc.calls ++
            [.dispatch (.worker tid) (listDomainsDispatch ctx t.task.arg dom)] } [])
      (threadHeld w) tid t t ht hset (fun j hj => Function.update_of_ne hj _ _)
    have hself : Function.update s.frames tid (.listing domains err) tid =
        .listing domains err := Function.update_self ..
    have hw := hlisting w err
    simp only [Daemon.after_nil, Daemon.setFrame_frames, hself, hframe] at hthreads
    simp only [Daemon.held, Daemon.after_exc, List.flatMap_nil, sumEvents_nil, List.map_append,
      List.sum_append, List.map_cons, List.map_nil, List.sum_cons, List.sum_nil, callHeld, hargs]
    omega

/-- A call of `executor_stop` goes on. -/
theorem sum_callHeld_set {calls : List (Call SamplerFunction (VmonRequest δ))} {i : ℕ}
    {wait wait' : Bool} {p p' : StopPhase} (hi : calls[i]? = some (.stop wait p)) :
    ((calls.set i (.stop wait' p')).map (callHeld w)).sum = (calls.map (callHeld w)).sum := by
  have hzero : (calls.map (callHeld w))[i]? = some 0 := by
    rw [List.getElem?_map, hi]
    rfl
  rw [List.map_set, callHeld, set_of_getElem? hzero]

/-- A call into the executor goes on. -/
theorem Accounts.call (hq : s.exc.tasks.Holds q) {i : ℕ} {exc : SamplerExecutor δ}
    {es : List (ExecutorEvent δ)} (hs : s.exc.Steps (.call i) exc es) :
    Accounts q s (s.after exc es) (es.map .exec) := by
  cases hs with
  | @dispatchPut _ caller args hcall =>
    rcases hq.put_cases (dispatchTask args) with ⟨-, hput⟩ | ⟨q', helems, hret, hq'⟩
    · refine Accounts.calls q rfl (fun w t => threadHeld_follow t _ _ _ _) ?_ fun w => ?_
      · rwa [hput]
      · have := Daemon.sum_map_eraseIdx (callHeld w) hcall
        rw [hput]
        simp only [callHeld] at this
        simp [SamplerEvent.dropped]
        omega
    · refine Accounts.calls q' rfl (fun w t => threadHeld_follow t _ _ _ _) hq' fun w => ?_
      have := Daemon.sum_map_eraseIdx (callHeld w) hcall
      simp only [callHeld] at this
      rw [hret, helems]
      simp [SamplerEvent.dropped, TaskData.held]
      omega
  | @stopPut _ j wait hcall hj =>
    have hstop : ∀ w : Worth δ, (stopTask : TaskData SamplerFunction (VmonRequest δ)).held w = 0 :=
      fun _ => rfl
    rcases hq.put_cases stopTask with ⟨-, hput⟩ | ⟨q', helems, hret, hq'⟩
    · refine Accounts.calls q rfl (fun _ _ _ => rfl) ?_ fun w => ?_
      · rwa [hput]
      · rw [sum_callHeld_set hcall]
        simp [SamplerEvent.dropped]
    · refine Accounts.calls q' rfl (fun _ _ _ => rfl) hq' fun w => ?_
      rw [sum_callHeld_set hcall, helems]
      simp [SamplerEvent.dropped, hstop]
  | @stopPhase _ wait p p' hcall hp hp' =>
    refine Accounts.calls q rfl (fun _ _ _ => rfl) hq fun w => ?_
    rw [sum_callHeld_set hcall]
    simp
  | @stopReturn _ wait err hcall =>
    refine Accounts.calls q rfl (fun _ _ _ => rfl) hq fun w => ?_
    have := Daemon.sum_map_eraseIdx (callHeld w) hcall
    simp only [callHeld] at this
    simp [SamplerEvent.dropped]
    omega

/-- New threads, and marks on the tasks of the others. -/
theorem Accounts.extend (hq : s.exc.tasks.Holds q) {exc : SamplerExecutor δ}
    {es : List (ExecutorEvent δ)} (htasks : exc.tasks = s.exc.tasks)
    (hcalls : exc.calls = s.exc.calls) (hframes : (s.after exc es).frames = s.frames)
    (hdropped : ∀ w, sumEvents (SamplerEvent.dropped w) (es.map .exec) = 0)
    (hold : ∀ (tid : ℕ) t, s.exc.threads[tid]? = some t →
      exc.threads[tid]? = some t ∨ exc.threads[tid]? = some t.mark)
    (hnew : ∀ (tid : ℕ) t, exc.threads[tid]? = some t → s.exc.threads.length ≤ tid → t.pc = .get) :
    Accounts q s (s.after exc es) (es.map .exec) := by
  refine ⟨q, by rwa [Daemon.after_exc, htasks], fun w => ?_⟩
  have hlen : s.exc.threads.length ≤ exc.threads.length := by
    by_contra hlt
    have hsome := List.getElem?_eq_getElem (Nat.lt_of_not_le hlt)
    rcases hold _ _ hsome with h | h <;> simp at h
  have hthreads : (s.after exc es).sumThreads (threadHeld w) = s.sumThreads (threadHeld w) := by
    apply Daemon.sumThreads_extend hlen
    intro tid t' ht'
    rw [Daemon.after_exc] at ht'
    rw [hframes]
    by_cases hlt : tid < s.exc.threads.length
    · refine .inl ⟨_, List.getElem?_eq_getElem hlt, ?_⟩
      rcases hold tid _ (List.getElem?_eq_getElem hlt) with h | h
      · obtain rfl : s.exc.threads[tid] = t' := by simpa [h] using ht'
        rfl
      · obtain rfl : (s.exc.threads[tid]).mark = t' := by simpa [h] using ht'
        rfl
    · refine .inr ⟨by omega, ?_⟩
      rw [threadHeld, hnew tid t' ht' (by omega)]
  simp only [Daemon.held, Daemon.after_exc, hcalls, hthreads, hdropped,
    sumEvents_released_exec, sumEvents_obtained_exec]
  omega

/-- Somebody else calls into the executor, or a timeout source fires. -/
theorem Accounts.outer (hq : s.exc.tasks.Holds q) {a : SamplerAction δ} {b : ExecutorAction δ}
    {exc : SamplerExecutor δ} {es : List (ExecutorEvent δ)} (ha : Daemon.Outer ctx a b)
    (hsend : ∀ req, a = .send req → ∃ sr, req = .ofSample sr) (hs : s.exc.Steps b exc es) :
    Accounts q s (s.after exc es) (es.map .exec) := by
  cases ha with
  | @send req =>
    obtain ⟨sr, rfl⟩ := hsend _ rfl
    have hnone : ∀ w : Worth δ, (samplerSendRequest ctx (.ofSample sr)).data.held w = 0 :=
      fun _ => rfl
    cases hs with
    | refuse hcaller hcheck =>
      refine Accounts.calls q rfl (fun _ _ _ => rfl) hq fun w => ?_
      simp [SamplerEvent.dropped, hnone]
    | enter hcaller hcheck => exact Accounts.enter hq hnone
  | fire =>
    cases hs with
    | fire htm hid hw =>
      refine Accounts.extend hq (by simp) (by simp) rfl (fun _ => rfl) ?_ ?_
      · intro tid t ht
        obtain ⟨t', ht', rfl | rfl⟩ := Executor.workerDiscard_kept ht _ _
        · exact .inl ht'
        · exact .inr ht'
      · intro tid t ht hle
        rcases Executor.workerDiscard_thread ht with ⟨u, hu, -⟩ | ⟨-, rfl⟩
        · have := (List.getElem?_eq_some_iff.mp hu).1
          omega
        · rfl
  | stop =>
    cases hs with
    | stop => exact Accounts.enter hq fun _ => rfl
  | @start created =>
    cases hs with
    | startAgain hrunning =>
      exact Accounts.extend hq rfl rfl rfl (fun _ => rfl) (fun _ _ ht => .inl ht)
        (fun tid t ht hle => absurd (List.getElem?_eq_some_iff.mp ht).1 (by omega))
    | start hlen hrunning =>
      obtain ⟨workers, heq, -⟩ := Executor.startLoop_eq { s.exc with running := true } 0 0 created
      refine Accounts.extend hq (by rw [heq]) (by rw [heq]) rfl (fun _ => rfl) ?_ ?_
      · intro tid t ht
        have hlt := (List.getElem?_eq_some_iff.mp ht).1
        rw [heq, List.getElem?_append_left hlt]
        exact .inl ht
      · intro tid t ht hle
        rw [heq, List.getElem?_append_right hle] at ht
        obtain ⟨_, -, -, rfl⟩ := Executor.mem_startThreads (List.mem_of_getElem? ht)
        rfl

/-- **One step keeps the books**, where the requests are fresh. -/
theorem Daemon.Steps.accounts {a : SamplerAction δ} (hs : Daemon.Steps ctx s a s' es)
    (hq : s.exc.tasks.Holds q)
    (H : s.exc.AllTasks TaskData.Unsampled TaskData.StopsBare)
    (hsend : ∀ req, a = .send req → ∃ sr, req = .ofSample sr) : Accounts q s s' es := by
  have hfresh : ∀ (tid : ℕ) t, s.exc.threads[tid]? = some t → t.pc = .working →
      t.task.Unsampled := by
    intro tid t ht hpc
    have hcarries := H.holder tid t ht
    simpa only [Thread.Carries, hpc] using hcarries
  cases hs with
  | thread hs => exact Accounts.thread hq hs
  | outer ha hs => exact Accounts.outer hq ha hsend hs
  | @call i env exc es hs =>
    obtain ⟨q', hq', hheld⟩ := Accounts.call hq hs
    refine ⟨q', hq', fun w => ?_⟩
    rw [sumEvents_afterDispatch fun _ _ _ _ => rfl, sumEvents_afterDispatch fun _ _ _ _ => rfl,
      sumEvents_afterDispatch fun _ _ _ _ => rfl]
    exact hheld w
  | @query tid env t f ret exc es ht hpc hwork hframe hquery hs =>
    refine Accounts.workReturn hq ht hs _ fun w => ?_
    have hrecords := (hfresh tid t ht hpc).records
    obtain ⟨hreleased, hdropped, hobtained⟩ := sumEvents_sampled (w := w) tid ret
    rw [hreleased, hdropped, hobtained]
    cases ret <;>
      simp [Executor.workResult, hwork, VmonRequest.store, VmonRequest.held, VmonRequest.domHeld,
        VmonRequest.recordsHeld, hrecords, threadHeld, hpc, hframe, listingHeld, TaskData.held]
  | @listFails tid env t exc es ht hpc hwork hframe hlist hs =>
    refine Accounts.workReturn hq ht hs [_] fun w => ?_
    rw [Executor.workResult_arg]
    simp [SamplerEvent.released, SamplerEvent.dropped, SamplerEvent.obtained, threadHeld, hpc,
      hframe, listingHeld, TaskData.held]
  | @list tid env t domains ht hpc hwork hframe hlist =>
    refine Accounts.frame hq ht fun w => ?_
    simp [SamplerEvent.released, SamplerEvent.dropped, SamplerEvent.obtained, threadHeld, hpc,
      hframe, hwork, listingHeld]
  | @listDispatch tid env t dom domains err exc es ht hpc hwork hframe hs =>
    exact Accounts.listDispatch hq ht hpc hwork hframe (hfresh tid t ht hpc).records hs
  | @listReturn tid env t err exc es ht hpc hwork hframe hs =>
    refine Accounts.workReturn hq ht hs [] fun w => ?_
    rw [Executor.workResult_arg]
    simp [threadHeld, hpc, hframe, listingHeld, TaskData.held]
  | @stopWork tid env t exc es ht hpc hwork hframe hs =>
    refine Accounts.workReturn hq ht hs [] fun w => ?_
    rw [Executor.workResult_arg]
    simp [threadHeld, hpc, hframe, listingHeld, TaskData.held]
  | @collectFails tid env t error timeout exc es ht hpc hcollect hframe herr hs =>
    refine Accounts.collectReturn hq ht hs _ fun w => ?_
    obtain ⟨hreleased, hdropped, hobtained⟩ := sumEvents_freeDomain (w := w) tid t.task.arg
    simp [hreleased, hdropped, hobtained, SamplerEvent.released, SamplerEvent.dropped,
      SamplerEvent.obtained, threadHeld, hpc, hframe, collectHeld, herr]
  | @collectStart tid env t ht hpc hcollect hframe =>
    refine Accounts.frame hq ht fun w => ?_
    simp [threadHeld, hpc, hframe, collectHeld]
  | @collectRecord tid env t ts record records ht hpc hcollect hframe =>
    refine Accounts.frame hq ht fun w => ?_
    simp [SamplerEvent.released, SamplerEvent.dropped, SamplerEvent.obtained, threadHeld, hpc,
      hframe, collectHeld]
  | @collectEnd tid env t ts exc es ht hpc hcollect hframe hs =>
    refine Accounts.collectReturn hq ht hs _ fun w => ?_
    obtain ⟨hreleased, hdropped, hobtained⟩ := sumEvents_freeDomain (w := w) tid t.task.arg
    simp [hreleased, hdropped, hobtained, SamplerEvent.released, SamplerEvent.dropped,
      SamplerEvent.obtained, threadHeld, hpc, hframe, collectHeld, TaskData.held, VmonRequest.held,
      VmonRequest.recordsHeld, add_comm]
  | @stopCollect tid env t exc es ht hpc hcollect hs =>
    -- a stop task holds nothing, wherever its collect function is
    refine Accounts.collectReturn hq ht hs [] fun w => ?_
    have hcarries := H.holder tid t ht
    simp only [Thread.Carries, hpc] at hcarries
    obtain ⟨hdom, hrecords⟩ := hcarries (.inr hcollect)
    cases hframe : s.frames tid <;>
      simp [threadHeld, hpc, collectHeld, TaskData.held, VmonRequest.held, VmonRequest.domHeld,
        VmonRequest.recordsHeld, hdom, hrecords]

/-- The tasks of the daemon are what they are. -/
theorem Daemon.Steps.unsampled {a : SamplerAction δ} (hs : Daemon.Steps ctx s a s' es)
    (H : s.exc.AllTasks TaskData.Unsampled TaskData.StopsBare)
    (hsend : ∀ req, a = .send req → ∃ sr, req = .ofSample sr) :
    s'.exc.AllTasks TaskData.Unsampled TaskData.StopsBare := by
  refine hs.allTasks H ⟨rfl, fun _ => ⟨rfl, rfl⟩⟩ ?_ ?_ ?_ ?_ ?_
  · exact fun task => ⟨fun hfresh => ⟨hfresh.records, hfresh.stop⟩, id⟩
  · intro req ha
    obtain ⟨sr, rfl⟩ := hsend req ha
    exact ⟨rfl, by simp [dispatchTask]⟩
  · intro task dom hfresh _
    exact ⟨hfresh.records, by simp [dispatchTask, listDomainsDispatch]⟩
  · intro task env f ret hfresh hf _ hstop
    rw [TaskData.setArg_td] at hstop
    have hwork := (hfresh.stop hstop).1
    simp [hf] at hwork
  · intro task hfresh _ hstop
    rw [TaskData.setArg_td] at hstop
    rw [TaskData.arg_setArg]
    exact ⟨(hfresh.stop hstop).2, hfresh.records⟩

end Step

end Vmon
