import Vmon.Executor.Codes
import Vmon.Executor.Shutdown

/-!
# Stopping a pool that does not run

`executor_stop` puts its stop tasks without a look at `running`. On an executor that is not
running no thread is left to take them: they stay in the queue, and the workers of the next
`executor_start` take them instead of tasks.

A pool that is stopped and started any number of times is intact as long as no stop task is
put that no thread is left for, and no thread leaves before the stop task that is queued
for it.

## Main definitions

* `stopPuts` — what the loop of `executor_stop` makes of the queue; `exec_stopPuts`.
* `StopsCovered` — the condition on the moves of a run.
* `Unpoisoned` — what the claims of a restart are about; `stop_idempotent_iff`.
-/

namespace Vmon

variable {ι β : Type} [Payload β]

/-! ## One call -/

/-- `n` turns of the loop of `executor_stop`. -/
def stopPuts (n : ℕ) (rb : RingBuffer (TaskData ι β)) : RingBuffer (TaskData ι β) :=
  (fun rb => (ringbufferPut rb stopTask).1)^[n] rb

/-- The queue that `executor_stop` leaves. -/
def Executor.afterStop (s : Executor ι β) : RingBuffer (TaskData ι β) :=
  stopPuts s.workersCount s.tasks

/-- The loop, in the call at position `i` that nothing interrupts. -/
theorem exec_puts {i j : ℕ} {wait : Bool} (k : ℕ) (s : Executor ι β)
    (hcall : s.calls[i]? = some (.stop wait (.putting j))) (hj : j + k ≤ s.workersCount)
    (h : List (Event ι β)) : ∃ h', (executorSystem ι β).exec (fun _ => true) h s
      (List.replicate k (.call i)) = some (h', { s with
        tasks := stopPuts k s.tasks
        calls := s.calls.set i (.stop wait (.putting (j + k))) }) := by
  induction k generalizing s j h with
  | zero =>
    have hset := set_of_getElem? hcall
    exact ⟨h, by simp [Lts.exec, stopPuts, hset]⟩
  | succ k ih =>
    have hlt : j < s.workersCount := by omega
    have hstep : (executorSystem ι β).step s (.call i) = some ({ s with
        tasks := (ringbufferPut s.tasks stopTask).1
        calls := s.calls.set i (.stop wait (.putting (j + 1))) },
        [.stopPut (ringbufferPut s.tasks (stopTask : TaskData ι β)).2]) := by
      simp [executorSystem, Executor.step, hcall, Executor.callStep, hlt]
    obtain ⟨hi, -⟩ := List.getElem?_eq_some_iff.mp hcall
    obtain ⟨h', hrest⟩ := ih (j := j + 1) { s with
        tasks := (ringbufferPut s.tasks stopTask).1
        calls := s.calls.set i (.stop wait (.putting (j + 1))) }
      (List.getElem?_set_self hi) (by simp only; omega)
      (h ++ [Event.stopPut (ringbufferPut s.tasks (stopTask : TaskData ι β)).2])
    refine ⟨h', ?_⟩
    rw [List.replicate_succ, Lts.exec, if_pos rfl, hstep]
    have hnext : j + 1 + k = j + (k + 1) := by omega
    simp only [hrest, List.set_set, hnext]
    rfl

/-- A call of `executor_stop` up to the end of its loop. -/
theorem exec_afterStop (s : Executor ι β) (wait : Bool) (h : List (Event ι β)) :
    ∃ h', (executorSystem ι β).exec (fun _ => true) h s
      (.stop wait :: List.replicate s.workersCount (.call s.calls.length)) =
        some (h', { s with
          tasks := s.afterStop
          calls := s.calls ++ [Call.stop wait (.putting s.workersCount)] }) := by
  have hcall : (s.calls ++ [Call.stop wait (.putting 0)])[s.calls.length]? =
      some (.stop wait (.putting 0)) := by simp
  obtain ⟨h', hrest⟩ := exec_puts s.workersCount
    { s with calls := s.calls ++ [Call.stop wait (.putting 0)] } hcall (by simp) (h ++ [])
  refine ⟨h', ?_⟩
  have hstep : (executorSystem ι β).step s (.stop wait) =
      some ({ s with calls := s.calls ++ [Call.stop wait (.putting 0)] }, []) := rfl
  rw [Lts.exec, if_pos rfl, hstep]
  simp only [hrest]
  simp [Executor.afterStop]

theorem used_stopPuts (n : ℕ) (rb : RingBuffer (TaskData ι β)) :
    rb.used ≤ (stopPuts n rb).used := by
  induction n generalizing rb with
  | zero => exact le_rfl
  | succ n ih =>
    have hput : rb.used ≤ (ringbufferPut rb (stopTask : TaskData ι β)).1.used := by
      by_cases hfull : rbIsFull rb
      · simp [ringbufferPut, hfull]
      · rw [ringbufferPut_of_not_full (by simpa using hfull)]
        simp
    exact hput.trans (ih _)

/-- **A stop leaves the queue alone** only where there is nothing to put, or no room. -/
theorem stopPuts_eq_iff (n : ℕ) (rb : RingBuffer (TaskData ι β)) :
    stopPuts n rb = rb ↔ n = 0 ∨ rbIsFull rb = true := by
  by_cases hfull : rbIsFull rb = true
  · have hput : (ringbufferPut rb (stopTask : TaskData ι β)).1 = rb := by
      simp [ringbufferPut, hfull]
    refine iff_of_true ?_ (.inr hfull)
    exact Function.iterate_fixed hput n
  · rw [Bool.not_eq_true] at hfull
    cases n with
    | zero => simp [stopPuts]
    | succ n =>
      refine iff_of_false ?_ (by simp [hfull])
      intro heq
      have hused := used_stopPuts n (ringbufferPut rb (stopTask : TaskData ι β)).1
      have hsame : stopPuts n (ringbufferPut rb (stopTask : TaskData ι β)).1 = rb := heq
      rw [hsame, ringbufferPut_of_not_full hfull] at hused
      simp only at hused
      omega

/-! ## Stops and restarts -/

/-- The number of stop tasks in the queue. -/
def Executor.stopsQueued (s : Executor ι β) : ℕ :=
  s.tasks.heldElems.countP fun slot => slot.any TaskData.isStop

/-- A stop task is put only while there are fewer of them in the queue than threads that
will come back; and so it is when a thread ends whose task was none. -/
def StopsCovered (m : Move (Executor ι β) (Action ι β) (Event ι β)) : Prop :=
  match m.action with
  | .call i => ∀ c ∈ m.pre.calls[i]?, c.isPutting m.pre.workersCount = true →
      rbIsFull m.pre.tasks = false → m.pre.stopsQueued < m.pre.returning
  | .collectReturn tid ret => ∀ t ∈ m.pre.threads[tid]?, t.task.isStop = false →
      Executor.collectResult t ret ≠ 0 → m.pre.stopsQueued < m.pre.returning
  | _ => True

instance (m : Move (Executor ι β) (Action ι β) (Event ι β)) : Decidable (StopsCovered m) :=
  match m with
  | ⟨_, s, .call i⟩ => inferInstanceAs (Decidable (∀ c ∈ s.calls[i]?,
      c.isPutting s.workersCount = true → rbIsFull s.tasks = false →
        s.stopsQueued < s.returning))
  | ⟨_, s, .collectReturn tid ret⟩ => inferInstanceAs (Decidable (∀ t ∈ s.threads[tid]?,
      t.task.isStop = false → Executor.collectResult t ret ≠ 0 → s.stopsQueued < s.returning))
  | ⟨_, _, .thread _⟩ | ⟨_, _, .workReturn ..⟩ | ⟨_, _, .fire ..⟩ | ⟨_, _, .dispatch ..⟩
  | ⟨_, _, .stop _⟩ | ⟨_, _, .start _⟩ => inferInstanceAs (Decidable True)

/-- An executor that does not run is started when `executor_stop` has returned and let all
its workers end. -/
def LetsAllEnd (m : Move (Executor ι β) (Action ι β) (Event ι β)) : Prop :=
  match m.action with
  | .start _ => m.pre.running = false →
      (∀ t ∈ m.pre.threads, t.pc = .exited) ∧ ∀ c ∈ m.pre.calls, c.isDispatch = true
  | _ => True

instance (m : Move (Executor ι β) (Action ι β) (Event ι β)) : Decidable (LetsAllEnd m) :=
  match m with
  | ⟨_, s, .start _⟩ => inferInstanceAs (Decidable (s.running = false →
      (∀ t ∈ s.threads, t.pc = .exited) ∧ ∀ c ∈ s.calls, c.isDispatch = true))
  | ⟨_, _, .thread _⟩ | ⟨_, _, .workReturn ..⟩ | ⟨_, _, .collectReturn ..⟩ | ⟨_, _, .fire ..⟩
  | ⟨_, _, .dispatch ..⟩ | ⟨_, _, .stop _⟩ | ⟨_, _, .call _⟩ => inferInstanceAs (Decidable True)

/-- The threads that ended with an error of their collect function. -/
def workerExits (h : List (Event ι β)) : ℕ :=
  h.countP fun
    | .collectReturned _ _ ret => ret != 0
    | _ => false

/-- What the events `h` since a start, and the state after them, show of a pool that takes
no stop task: its workers are there, but for those that a task of a client ended. -/
structure Unpoisoned (created : List Bool) (h : List (Event ι β)) (s : Executor ι β) : Prop where
  taken : ∀ tid ticket task, .taken tid ticket task ∈ h → task.isStop = false
  available : created.count true ≤ s.returning + workerExits h

section Covered

variable {cap n : ℕ} {h es : List (Event ι β)} {s s' : Executor ι β} {a : Action ι β}

theorem Queued.stopsQueued_eq (H : Queued cap h s) :
    s.stopsQueued = (queued h).countP TaskData.isStop := by
  obtain ⟨q, hq, hqueued⟩ := H.queued_eq
  rw [Executor.stopsQueued, hq.heldElems_eq, hqueued, List.countP_map]
  rfl

/-- A step that meets the condition keeps a thread for each stop task. -/
theorem covered_step (HQ : Queued cap h s)
    (H : (queued h).countP TaskData.isStop ≤ s.returning) (hok : StopsCovered ⟨h, s, a⟩)
    (hs : s.Steps a s' es) :
    (queued (h ++ es)).countP TaskData.isStop ≤ s'.returning := by
  have hrest : takenTasks es = [] → accepted es = [] → queued (h ++ es) = queued h := by
    intro htaken hacc
    rw [HQ.queued_append htaken, hacc, List.append_nil]
  cases hs.turnover with
  | @take tid task rb pc hes hget hcount =>
    subst hes
    rw [HQ.queued_take hget tid s.taken, List.countP_cons] at H
    omega
  | same htaken hcount =>
    rw [HQ.queued_append htaken, List.countP_append, hcount]
    rcases hs.accepted_cases with hacc | ⟨i, c, rfl, hcall, hputting, hfull, hacc⟩ |
      ⟨i, caller, args, rfl, hcall, hfull, hacc⟩
    · simpa [hacc] using H
    · have hlt := hok c hcall hputting hfull
      simp only [HQ.stopsQueued_eq] at hlt
      rw [hacc, List.countP_singleton]
      split <;> omega
    · simpa [hacc, TaskData.isStop, dispatchTask] using H
  | back ha ht hpc hret htaken hacc hcount =>
    rw [hrest htaken hacc]
    omega
  | @leave tid t ret ha ht hret htaken hacc hcount =>
    subst ha
    rw [hrest htaken hacc]
    cases hstop : t.task.isStop with
    | true =>
      rw [hstop, if_pos rfl] at hcount
      omega
    | false =>
      have hlt := hok t ht hstop hret
      simp only [HQ.stopsQueued_eq] at hlt
      simp only [hstop, Bool.false_eq_true, if_false] at hcount
      omega
  | fire ha htaken hacc hle hadd =>
    rw [hrest htaken hacc]
    omega
  | start ha hrunning htaken hacc hle =>
    rw [hrest htaken hacc]
    omega

theorem covered_of_init (hfit : SlotsFit cap taskDataSize)
    (hr : (executorSystem ι β).Reach StopsCovered (Executor.executorInit n cap) h s) :
    (queued h).countP TaskData.isStop ≤ s.returning := by
  apply Lts.Reach.invariant
    (P := fun h s => (queued h).countP TaskData.isStop ≤ s.returning) (Nat.zero_le _) ?_ hr
  intro h s a s' es hreach ih hok hs
  exact covered_step (queued_of_init hfit hreach) ih hok (Executor.step_cases hs)

end Covered

/-! ## From a start to the next stop -/

/-- The invariant between a start that creates `count` threads and the next call of
`executor_stop`, with the whole history `h` and the part `h'` since the start. -/
structure SinceStart (count : ℕ) (h' h : List (Event ι β)) (s : Executor ι β) : Prop where
  running : s.running = true
  calls : ∀ c ∈ s.calls, c.isDispatch = true
  queue : (queued h).countP TaskData.isStop = 0
  tasks : ∀ (tid : ℕ) (t : Thread ι β), s.threads[tid]? = some t → t.pc ≠ .exited →
    t.task.isStop = false
  taken : ∀ tid ticket task, .taken tid ticket task ∈ h' → task.isStop = false
  count : count ≤ s.returning + workerExits h'

section SinceStart

variable {cap n count : ℕ} {h h' es : List (Event ι β)} {s s' : Executor ι β} {a : Action ι β}

theorem returning_startThreads (j : ℕ) (created : List Bool) :
    (Executor.startThreads j created : List (Thread ι β)).countP Thread.returning =
      created.count true := by
  induction created generalizing j with
  | nil => rfl
  | cons c rest ih =>
    have hspawn : (Thread.spawn j : Thread ι β).returning = true := rfl
    rw [Executor.startThreads, List.countP_append, ih, List.count_cons]
    cases c with
    | false => simp
    | true =>
      simp [hspawn]
      omega

/-- A start on a stopped pool whose threads have all ended. -/
theorem SinceStart.start (HQ : Queued cap h s)
    (H : (queued h).countP TaskData.isStop ≤ s.returning) {created : List Bool}
    (hended : LetsAllEnd ⟨h, s, .start created⟩) (hrunning : s.running = false)
    (hs : s.Steps (.start created) s' es) : SinceStart (created.count true) es (h ++ es) s' := by
  obtain ⟨hexited, hcalls⟩ := hended hrunning
  have hzero : s.returning = 0 := by
    rw [Executor.returning, List.countP_eq_zero]
    intro t ht
    simp [Thread.returning, hexited t ht]
  cases hs with
  | startAgain hagain => simp [hrunning] at hagain
  | start hlen =>
    obtain ⟨workers, heq, -⟩ := Executor.startLoop_eq { s with running := true } 0 0 created
    rw [heq]
    constructor
    · rfl
    · exact hcalls
    · rw [HQ.queued_append rfl, List.countP_append]
      have hnone : accepted [Event.startReturned (Executor.startLoop
        { s with running := true } 0 0 created).2] = ([] : List (TaskData ι β)) := rfl
      rw [hnone, List.countP_nil]
      omega
    · intro tid t ht hpc
      rcases List.mem_append.mp (List.mem_of_getElem? ht) with hmem | hmem
      · exact absurd (hexited t hmem) hpc
      · obtain ⟨w, -, -, rfl⟩ := Executor.mem_startThreads hmem
        rfl
    · simp
    · rw [Executor.returning, List.countP_append, returning_startThreads]
      omega

namespace SinceStart

/-- No call of `executor_stop` is in flight. -/
theorem no_stop (H : SinceStart count h' h s) {i : ℕ} {wait : Bool} {phase : StopPhase}
    (hcall : s.calls[i]? = some (.stop wait phase)) : False := by
  have hdispatch := H.calls _ (List.mem_of_getElem? hcall)
  cases hdispatch

/-- The head of the queue is no stop task. -/
theorem head (H : SinceStart count h' h s) (HQ : Queued cap h s) {pc : Pc}
    {rb : RingBuffer (TaskData ι β)} {task : TaskData ι β}
    (hget : Executor.getSection pc s.tasks = (rb, .done (some task))) : task.isStop = false := by
  have hqueue := H.queue
  rw [HQ.queued_take hget 0 0, List.countP_cons] at hqueue
  by_contra hstop
  rw [Bool.not_eq_false] at hstop
  simp [hstop] at hqueue

theorem step_calls (H : SinceStart count h' h s) (hstop : ∀ wait, a ≠ .stop wait)
    (hs : s.Steps a s' es) : s'.running = true ∧ ∀ c ∈ s'.calls, c.isDispatch = true := by
  cases hs with
  | enter =>
    refine ⟨H.running, ?_⟩
    intro c hc
    rcases List.mem_append.mp hc with hc | hc
    · exact H.calls c hc
    · rw [List.mem_singleton.mp hc]
      rfl
  | dispatchPut => exact ⟨H.running, fun c hc => H.calls c (List.mem_of_mem_eraseIdx hc)⟩
  | stop => exact absurd rfl (hstop _)
  | stopPut hcall => exact (H.no_stop hcall).elim
  | stopPhase hcall => exact (H.no_stop hcall).elim
  | stopReturn hcall => exact (H.no_stop hcall).elim
  | fire => exact ⟨by simpa using H.running, by simpa using H.calls⟩
  | start hlen hrunning => simp [H.running] at hrunning
  | _ => exact ⟨H.running, H.calls⟩

theorem step_queue (H : SinceStart count h' h s) (HQ : Queued cap h s) (hs : s.Steps a s' es) :
    (queued (h ++ es)).countP TaskData.isStop = 0 := by
  have hqueue := H.queue
  cases hs.turnover with
  | @take tid task rb pc hes hget hcount =>
    subst hes
    rw [HQ.queued_take hget tid s.taken, List.countP_cons] at hqueue
    omega
  | same htaken hcount =>
    rw [HQ.queued_append htaken, List.countP_append, hqueue]
    rcases hs.accepted_cases with hacc | ⟨i, c, -, hcall, hputting, -, -⟩ |
      ⟨i, caller, args, -, -, -, hacc⟩
    · rw [hacc]
      rfl
    · cases c with
      | dispatch => cases hputting
      | stop => exact (H.no_stop hcall).elim
    · rw [hacc]
      rfl
  | back _ _ _ _ htaken hacc => rw [HQ.queued_append htaken, hacc, List.append_nil, hqueue]
  | leave _ _ _ htaken hacc => rw [HQ.queued_append htaken, hacc, List.append_nil, hqueue]
  | fire _ htaken hacc => rw [HQ.queued_append htaken, hacc, List.append_nil, hqueue]
  | start _ _ htaken hacc => rw [HQ.queued_append htaken, hacc, List.append_nil, hqueue]

/-- One thread moved. -/
theorem tasks_set (H : SinceStart count h' h s) {tid : ℕ} {t t' : Thread ι β}
    (ht : s.threads[tid]? = some t) (hthreads : s'.threads = s.threads.set tid t')
    (hnew : t'.pc ≠ .exited → t'.task.isStop = false) :
    ∀ (j : ℕ) (u : Thread ι β), s'.threads[j]? = some u → u.pc ≠ .exited →
      u.task.isStop = false := by
  intro j u hu
  rw [hthreads, getElem?_set_some ht] at hu
  rcases hu with ⟨rfl, rfl⟩ | ⟨-, hu⟩
  · exact hnew
  · exact H.tasks j u hu

/-- One thread moved, and has the task it had. -/
theorem tasks_keep (H : SinceStart count h' h s) {tid : ℕ} {t t' : Thread ι β} {pc : Pc}
    (ht : s.threads[tid]? = some t) (hpc : t.pc = pc) (hne : pc ≠ .exited)
    (hthreads : s'.threads = s.threads.set tid t') (hsame : t'.task.isStop = t.task.isStop) :
    ∀ (j : ℕ) (u : Thread ι β), s'.threads[j]? = some u → u.pc ≠ .exited →
      u.task.isStop = false := by
  apply H.tasks_set ht hthreads
  intro _
  rw [hsame]
  exact H.tasks tid t ht (by rwa [hpc])

theorem step_tasks (H : SinceStart count h' h s) (HQ : Queued cap h s) (hs : s.Steps a s' es) :
    ∀ (tid : ℕ) (t : Thread ι β), s'.threads[tid]? = some t → t.pc ≠ .exited →
      t.task.isStop = false := by
  cases hs with
  | wait ht => exact H.tasks_set ht rfl fun _ => rfl
  | take ht _ hget => exact H.tasks_set ht rfl fun _ => H.head HQ hget
  | takeUndefined ht => exact H.tasks_set ht rfl fun _ => rfl
  | arm ht hpc => exact H.tasks_keep ht hpc (by decide) rfl rfl
  | skipTimer ht hpc => exact H.tasks_keep ht hpc (by decide) rfl rfl
  | setCurrent ht hpc => exact H.tasks_keep ht hpc (by decide) rfl rfl
  | callWork ht hpc => exact H.tasks_keep ht hpc (by decide) rfl rfl
  | returnWork ht hpc =>
    apply H.tasks_keep ht hpc (by decide) rfl
    rw [TaskData.isStop, TaskData.setArg_td]
    rfl
  | clearCurrent ht hpc => exact H.tasks_keep ht hpc (by decide) rfl rfl
  | keepTimer ht hpc => exact H.tasks_keep ht hpc (by decide) rfl rfl
  | dropTimer ht hpc => exact H.tasks_keep ht hpc (by decide) rfl rfl
  | deleteTimer ht hpc => exact H.tasks_keep ht hpc (by decide) rfl rfl
  | callCollect ht hpc => exact H.tasks_keep ht hpc (by decide) rfl rfl
  | loop ht hpc => exact H.tasks_keep ht hpc (by decide) rfl rfl
  | exit ht => exact H.tasks_set ht rfl fun hpc => absurd rfl hpc
  | fire =>
    intro j u hu hpc
    rcases Executor.workerDiscard_thread hu with ⟨v, hv, hmark⟩ | ⟨-, rfl⟩
    · have hsame : u.pc = v.pc ∧ u.task.isStop = v.task.isStop := by
        rw [hmark]
        split <;> exact ⟨rfl, rfl⟩
      rw [hsame.2]
      exact H.tasks j v hv (by rwa [← hsame.1])
    · rfl
  | start hlen hrunning => simp [H.running] at hrunning
  | _ => exact H.tasks

theorem step_count (H : SinceStart count h' h s) (HQ : Queued cap h s) (hs : s.Steps a s' es) :
    count ≤ s'.returning + workerExits (h' ++ es) := by
  have hle := H.count
  rw [workerExits, List.countP_append]
  rw [workerExits] at hle
  cases hs.turnover with
  | take hes hget hcount =>
    rw [H.head HQ hget] at hcount
    simp only [Bool.false_eq_true, if_false] at hcount
    omega
  | same htaken hcount => omega
  | back _ _ _ _ _ _ hcount => omega
  | @leave tid t ret ha ht hret _ _ hcount =>
    subst ha
    have hone : workerExits es = 1 := by
      cases hs with
      | @loop _ u _ hu hpc hret' =>
        obtain rfl : u = t := Option.some.inj (hu.symm.trans ht)
        exact absurd hret' hret
      | @exit _ u _ hu hpc hret' => simp [workerExits, hret']
    rw [workerExits] at hone
    split at hcount <;> omega
  | fire _ _ _ hge => omega
  | start _ hrunning => simp [H.running] at hrunning

/-- **A step that is no call of `executor_stop`** keeps the invariant. -/
theorem step (H : SinceStart count h' h s) (HQ : Queued cap h s) (hstop : ∀ wait, a ≠ .stop wait)
    (hs : s.Steps a s' es) : SinceStart count (h' ++ es) (h ++ es) s' := by
  refine ⟨(H.step_calls hstop hs).1, (H.step_calls hstop hs).2, H.step_queue HQ hs,
    H.step_tasks HQ hs, ?_, H.step_count HQ hs⟩
  intro tid ticket task hmem
  rcases List.mem_append.mp hmem with hmem | hmem
  · exact H.taken tid ticket task hmem
  · cases hs with
    | take ht _ hget =>
      simp only [List.mem_singleton, Event.taken.injEq] at hmem
      rw [hmem.2.2]
      exact H.head HQ hget
    | _ => simp at hmem

end SinceStart

/-- The pool after each start of a run, up to the next stop. -/
theorem sinceStart_of_run (hfit : SlotsFit cap taskDataSize)
    {moves : List (Move (Executor ι β) (Action ι β) (Event ι β))}
    (hr : (executorSystem ι β).Run (Executor.executorInit n cap) moves h s)
    (hended : ∀ m ∈ moves, LetsAllEnd m) (hcovered : ∀ m ∈ moves, StopsCovered m)
    {before after : List (Move (Executor ι β) (Action ι β) (Event ι β))}
    {h₁ : List (Event ι β)} {s₁ : Executor ι β} {created : List Bool}
    (hmoves : moves = before ++ ⟨h₁, s₁, .start created⟩ :: after) (hrunning : s₁.running = false)
    (hstop : ∀ m ∈ after, ∀ wait, m.action ≠ .stop wait) :
    ∃ h', h = h₁ ++ h' ∧ SinceStart (created.count true) h' h s := by
  induction hr generalizing after with
  | init => simp at hmoves
  | @step moves h s s' a es hrun hs ih =>
    have hreach : (executorSystem ι β).Reach StopsCovered (Executor.executorInit n cap) h s :=
      ⟨moves, hrun, fun m hm => hcovered m (List.mem_append_left _ hm)⟩
    have HQ := queued_of_init hfit hreach
    rcases List.eq_nil_or_concat after with rfl | ⟨rest, m, rfl⟩
    · obtain ⟨-, hlast⟩ := List.append_inj' hmoves rfl
      simp only [List.cons.injEq, Move.mk.injEq, and_true] at hlast
      obtain ⟨rfl, rfl, rfl⟩ := hlast
      exact ⟨es, rfl, .start HQ (covered_of_init hfit hreach) (hended _ (by simp)) hrunning
        (Executor.step_cases hs)⟩
    · rw [List.concat_eq_append] at hmoves hstop
      rw [← List.cons_append, ← List.append_assoc] at hmoves
      obtain ⟨hinit, hlast⟩ := List.append_inj' hmoves rfl
      rw [List.cons.injEq] at hlast
      obtain ⟨rfl, -⟩ := hlast
      obtain ⟨h', heq, H⟩ := ih (fun m hm => hended m (List.mem_append_left _ hm))
        (fun m hm => hcovered m (List.mem_append_left _ hm)) hinit
        (fun m hm => hstop m (List.mem_append_left _ hm))
      refine ⟨h' ++ es, by rw [heq, List.append_assoc], ?_⟩
      have hnot : ∀ wait, a ≠ .stop wait := hstop ⟨h, s, a⟩ (by simp)
      exact H.step HQ hnot (Executor.step_cases hs)

end SinceStart

/-- **Stopping is idempotent on a full queue only, or without workers**; and a pool that is
stopped and started again is intact in every run whose stop tasks all have a thread. -/
theorem stop_idempotent_iff {n cap : ℕ} (hfit : SlotsFit cap taskDataSize) :
    (∀ s : Executor ι β, s.running = false →
      (s.afterStop = s.tasks ↔ s.workersCount = 0 ∨ rbIsFull s.tasks = true)) ∧
    ∀ (moves : List (Move (Executor ι β) (Action ι β) (Event ι β))) (h : List (Event ι β))
      (s : Executor ι β), (executorSystem ι β).Run (Executor.executorInit n cap) moves h s →
      (∀ m ∈ moves, LetsAllEnd m) → (∀ m ∈ moves, StopsCovered m) →
      ∀ before h₁ s₁ created after, moves = before ++ ⟨h₁, s₁, .start created⟩ :: after →
        s₁.running = false → (∀ m ∈ after, ∀ wait, m.action ≠ .stop wait) →
        ∃ h', h = h₁ ++ h' ∧ Unpoisoned created h' s := by
  constructor
  · intro s _
    exact stopPuts_eq_iff s.workersCount s.tasks
  · intro moves h s hr hended hcovered before h₁ s₁ created after hmoves hrunning hstop
    obtain ⟨h', heq, H⟩ := sinceStart_of_run hfit hr hended hcovered hmoves hrunning hstop
    exact ⟨h', heq, H.taken, H.count⟩

def Event.isTaken : Event ι β → Bool
  | .taken .. => true
  | _ => false

omit [Payload β] in
/-- A run of labels, split at one of them. -/
private theorem moves_split {moves : List (Move (Executor ι β) (Action ι β) (Event ι β))}
    {as bs : List (Action ι β)} {created : List Bool}
    (h : moves.map Move.action = as ++ .start created :: bs) :
    ∃ before h₁ s₁ after, moves = before ++ ⟨h₁, s₁, .start created⟩ :: after ∧
      ∀ m ∈ after, m.action ∈ bs := by
  obtain ⟨before, rest, rfl, -, hrest⟩ := List.map_eq_append_iff.mp h
  obtain ⟨⟨h₁, s₁, a⟩, after, rfl, rfl, hafter⟩ := List.map_eq_cons_iff.mp hrest
  refine ⟨before, h₁, s₁, after, rfl, fun m hm => ?_⟩
  rw [← hafter]
  exact List.mem_map_of_mem hm

/-- The task that a thread took is a stop task. -/
def Event.takesStop : Event ι β → Bool
  | .taken _ _ task => task.isStop
  | _ => false

/-- The move satisfies `p` where it is a call of `executor_start`. -/
private def atStart (p : Move (Executor ι β) (Action ι β) (Event ι β) → Bool)
    (m : Move (Executor ι β) (Action ι β) (Event ι β)) : Bool :=
  match m.action with
  | .start _ => p m
  | _ => true

/-- A worker is stopped, and the next one runs a task. -/
theorem stop_idempotent_restart : ∃ (h h₁ h' : List (Event Unit (List UInt8)))
    (s : Executor Unit (List UInt8)),
    h.countP Event.isTaken = 2 ∧ h = h₁ ++ h' ∧ Unpoisoned [true] h' s := by
  obtain ⟨moves, h, s, hr, hactions, hp⟩ := Lts.exists_run_of_trace
    (executorSystem Unit (List UInt8)) (Executor.executorInit 1 1)
    (([Action.start [true], .stop false] ++ List.replicate 3 (Action.call 0) ++ runSteps 0 1 [] ++
      [Action.collectReturn 0 1]) ++ .start [true] :: (dispatchSteps [] 0 ++ runSteps 1 0 []))
    (fun moves h _ => moves.all (fun m => decide (LetsAllEnd m) && decide (StopsCovered m) &&
        atStart (fun m => !m.pre.running) m) && h.countP Event.isTaken == 2) (by decide)
  simp only [Bool.and_eq_true, List.all_eq_true, decide_eq_true_eq, beq_iff_eq] at hp
  obtain ⟨hall, htaken⟩ := hp
  obtain ⟨before, h₁, s₁, after, rfl, hafter⟩ := moves_split hactions
  obtain ⟨h', heq, H⟩ := (stop_idempotent_iff (by decide : SlotsFit (1 : ℕ) taskDataSize)).2 _ h s
    hr (fun m hm => (hall m hm).1.1) (fun m hm => (hall m hm).1.2) before h₁ s₁ [true] after rfl
    (by simpa [atStart] using (hall ⟨h₁, s₁, .start [true]⟩ (by simp)).2) (by
      intro m hm wait hstop
      have := hafter m hm
      simp [hstop, dispatchSteps, runSteps] at this)
  exact ⟨h, h₁, h', s, htaken, heq, H⟩

/-- An executor that was never started is stopped: the stop task waits for the first worker
of the start. -/
theorem stop_idempotent_fails :
    (¬∀ s : Executor Unit (List UInt8), s.running = false → s.afterStop = s.tasks) ∧
    ¬∀ (n cap : ℕ) (moves : List (Move (Executor Unit (List UInt8)) (Action Unit (List UInt8))
      (Event Unit (List UInt8)))) (h : List (Event Unit (List UInt8)))
      (s : Executor Unit (List UInt8)), SlotsFit cap taskDataSize →
      (executorSystem Unit (List UInt8)).Run (Executor.executorInit n cap) moves h s →
      (∀ m ∈ moves, LetsAllEnd m) →
      ∀ before h₁ s₁ created after, moves = before ++ ⟨h₁, s₁, .start created⟩ :: after →
        s₁.running = false → (∀ m ∈ after, ∀ wait, m.action ≠ .stop wait) →
        ∃ h', h = h₁ ++ h' ∧ Unpoisoned created h' s := by
  constructor
  · intro hall
    have hused := congrArg RingBuffer.used (hall (Executor.executorInit 1 1) rfl)
    exact absurd hused (by decide)
  · intro hall
    obtain ⟨moves, h, s, hr, hactions, hp⟩ := Lts.exists_run_of_trace
      (executorSystem Unit (List UInt8)) (Executor.executorInit 1 1)
      ([Action.stop false, .call 0, .call 0, .call 0] ++ .start [true] :: [Action.thread 0])
      (fun moves h _ => moves.all (fun m => decide (LetsAllEnd m) &&
        atStart (fun m => !m.pre.running && !m.hist.any Event.isTaken) m) &&
        h.any Event.takesStop) (by decide)
    simp only [Bool.and_eq_true, List.all_eq_true, decide_eq_true_eq, List.any_eq_true] at hp
    obtain ⟨hmoves, e, he, hstop⟩ := hp
    obtain ⟨before, h₁, s₁, after, rfl, hafter⟩ := moves_split hactions
    have hstart := (hmoves ⟨h₁, s₁, .start [true]⟩ (by simp)).2
    simp only [atStart, Bool.and_eq_true, Bool.not_eq_true', List.any_eq_false] at hstart
    obtain ⟨h', rfl, H⟩ := hall 1 1 _ h s (by decide) hr (fun m hm => (hmoves m hm).1) before h₁ s₁
      [true] after rfl hstart.1 (by
        intro m hm wait hstop
        have := hafter m hm
        simp [hstop] at this)
    cases e with
    | taken tid ticket task =>
      rcases List.mem_append.mp he with he | he
      · exact hstart.2 _ he rfl
      · have hnone := H.taken tid ticket task he
        rw [Event.takesStop, hnone] at hstop
        cases hstop
    | _ => cases hstop

end Vmon
