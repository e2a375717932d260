import Vmon.Executor.Accounting

/-!
# Stopping the pool

`executor_stop` puts one stop task for each worker slot, and each stop task ends one
thread. Both promises about it are counts: of the stop tasks against the threads that
will come back for another task.

No accepted task is lost as long as every queued one has fewer stop tasks before it
than there are such threads; `executor_dispatch` does not look, and accepts tasks
behind the last stop task. Every thread is reached if there is a stop task in the queue for
each thread that waits there when `executor_stop` returns, and for each that comes there
afterwards; a full queue drops stop tasks, and replaced threads are not counted.

## Main definitions

* `Thread.returning` — the thread will come back for another task.
* `served` — every queued task has a thread left to run it.
* `NoneLost`, `none_lost` — no accepted task is lost.
* `Thread.atQueue` — the thread waits for a task, or is about to.
* `StopReaches`, `stop_reaches` — no thread is left waiting.
-/

namespace Vmon

variable {ι β : Type}

/-! ## Threads that come back -/

def TaskData.isStop (task : TaskData ι β) : Bool :=
  match task.td.work with
  | .stopWorker => true
  | _ => false

/-- The thread has not ended and does not hold a stop task. -/
def Thread.returning (t : Thread ι β) : Bool :=
  t.pc != .exited && !(t.pc.holds && t.task.isStop)

namespace Executor

/-- The number of threads that will come back for another task. -/
def returning (s : Executor ι β) : ℕ := s.threads.countP Thread.returning

section Returning

variable {s s' : Executor ι β} {tid : ℕ} {t t' : Thread ι β}

/-- The threads with `p`, after one of them changed. -/
theorem countP_threads_set (p : Thread ι β → Bool) (ht : s.threads[tid]? = some t)
    (s' : Executor ι β) (hthreads : s'.threads = s.threads.set tid t') :
    s'.threads.countP p + (if p t then 1 else 0) =
      s.threads.countP p + (if p t' then 1 else 0) := by
  rw [hthreads]
  exact countP_set_add _ ht _

theorem countP_markCurrent {p : Thread ι β → Bool} (hmark : ∀ t, p t.mark = p t)
    (threads : List (Thread ι β)) (current : Option ℕ) :
    (markCurrent threads current).countP p = threads.countP p := by
  cases current with
  | none => rfl
  | some c => exact countP_modify_same _ _ hmark

/-- A callback adds one thread at most, and none where `pthread_create` fails. -/
theorem countP_workerDiscard [Payload β] {p : Thread ι β → Bool} (hmark : ∀ t, p t.mark = p t)
    (s : Executor ι β) (wk : Worker) (created : Bool) :
    s.threads.countP p ≤ (s.workerDiscard wk created).1.threads.countP p ∧
      (s.workerDiscard wk created).1.threads.countP p ≤
        s.threads.countP p + if created then 1 else 0 := by
  have hold := countP_markCurrent hmark s.threads wk.current
  by_cases hid : wk.id < s.workersCount
  · rw [workerDiscard_of_lt hid, List.countP_append, hold]
    cases created
    · simp
    · have : ([Thread.spawn wk.id] : List (Thread ι β)).countP p ≤ 1 := List.countP_le_length
      simp only [if_true]
      omega
  · rw [workerDiscard_of_not_lt hid, hold]
    exact ⟨le_rfl, Nat.le_add_right _ _⟩

theorem returning_set (ht : s.threads[tid]? = some t) (s' : Executor ι β)
    (hthreads : s'.threads = s.threads.set tid t') :
    s'.returning + (if t.returning then 1 else 0) =
      s.returning + (if t'.returning then 1 else 0) :=
  countP_threads_set Thread.returning ht s' hthreads

/-- A statement that neither takes a task nor ends the thread. -/
theorem returning_same (ht : s.threads[tid]? = some t)
    (hthreads : s'.threads = s.threads.set tid t')
    (hiff : t'.returning = true ↔ t.returning = true) : s'.returning = s.returning := by
  have := returning_set ht s' hthreads
  rw [Bool.eq_iff_iff.mpr hiff] at this
  omega

variable [Payload β]

/-- A step, as far as it changes the number of threads that come back. -/
inductive Turnover (s : Executor ι β) (a : Action ι β) (s' : Executor ι β)
    (es : List (Event ι β)) : Prop
  | take {tid : ℕ} {task : TaskData ι β} {rb : RingBuffer (TaskData ι β)} {pc : Pc}
      (hes : es = [.taken tid s.taken task])
      (hget : getSection pc s.tasks = (rb, .done (some task)))
      (hcount : s'.returning + (if task.isStop then 1 else 0) = s.returning)
  | same (htaken : takenTasks es = []) (hcount : s'.returning = s.returning)
  | back {tid : ℕ} {t : Thread ι β} {ret : ℤ} (ha : a = .collectReturn tid ret)
      (ht : s.threads[tid]? = some t) (hpc : t.pc = .collecting) (hret : collectResult t ret = 0)
      (htaken : takenTasks es = []) (hacc : accepted es = [])
      (hcount : s'.returning = s.returning + if t.task.isStop then 1 else 0)
  | leave {tid : ℕ} {t : Thread ι β} {ret : ℤ} (ha : a = .collectReturn tid ret)
      (ht : s.threads[tid]? = some t) (hret : collectResult t ret ≠ 0)
      (htaken : takenTasks es = []) (hacc : accepted es = [])
      (hcount : s'.returning + (if t.task.isStop then 0 else 1) = s.returning)
  | fire {id : ℕ} {created : Bool} (ha : a = .fire id created) (htaken : takenTasks es = [])
      (hacc : accepted es = []) (hle : s.returning ≤ s'.returning)
      (hadd : s'.returning ≤ s.returning + if created then 1 else 0)
  | start {created : List Bool} (ha : a = .start created) (hrunning : s.running = false)
      (htaken : takenTasks es = []) (hacc : accepted es = []) (hle : s.returning ≤ s'.returning)

theorem Steps.turnover {a : Action ι β} {es : List (Event ι β)} (hs : s.Steps a s' es) :
    s.Turnover a s' es := by
  cases hs with
  | wait ht hpc =>
    refine .same rfl (returning_same ht rfl ?_)
    rcases hpc with hpc | hpc <;> simp [Thread.returning, hpc, Pc.holds]
  | @take tid t rb task ht hpc hget =>
    refine .take rfl hget ?_
    have hold : t.returning = true := by
      rcases hpc with hpc | hpc <;> simp [Thread.returning, hpc, Pc.holds]
    have hcount := returning_set ht ({ s with tasks := rb, taken := s.taken + 1 }.setThread tid
      { t with pc := .got, task := task, err := 0, ticket := s.taken }) rfl
    rw [hold, if_pos rfl] at hcount
    cases hstop : task.isStop <;> simp [Thread.returning, Pc.holds, hstop] at hcount ⊢ <;> omega
  | takeUndefined ht hpc =>
    refine .same rfl (returning_same ht rfl ?_)
    rcases hpc with hpc | hpc <;> simp [Thread.returning, hpc, Pc.holds]
  | arm ht hpc => exact .same rfl (returning_same ht rfl (by simp [Thread.returning, hpc, Pc.holds]))
  | skipTimer ht hpc =>
    exact .same rfl (returning_same ht rfl (by simp [Thread.returning, hpc, Pc.holds]))
  | setCurrent ht hpc =>
    exact .same rfl (returning_same ht rfl (by simp [Thread.returning, hpc, Pc.holds]))
  | callWork ht hpc =>
    exact .same rfl (returning_same ht rfl (by simp [Thread.returning, hpc, Pc.holds]))
  | returnWork ht hpc =>
    exact .same rfl (returning_same ht rfl
      (by simp [Thread.returning, hpc, Pc.holds, TaskData.isStop]))
  | clearCurrent ht hpc =>
    exact .same rfl (returning_same ht rfl (by simp [Thread.returning, hpc, Pc.holds]))
  | keepTimer ht hpc =>
    exact .same rfl (returning_same ht rfl (by simp [Thread.returning, hpc, Pc.holds]))
  | dropTimer ht hpc =>
    exact .same rfl (returning_same ht rfl (by simp [Thread.returning, hpc, Pc.holds]))
  | deleteTimer ht hpc =>
    exact .same rfl (returning_same ht rfl (by simp [Thread.returning, hpc, Pc.holds]))
  | callCollect ht hpc =>
    exact .same rfl (returning_same ht rfl (by simp [Thread.returning, hpc, Pc.holds]))
  | @loop tid t ret ht hpc hret =>
    refine .back rfl ht hpc hret rfl rfl ?_
    have hcount := returning_set ht (s.setThread tid { t with pc := .get, err := 0 }) rfl
    cases hstop : t.task.isStop <;> simp [Thread.returning, hpc, Pc.holds, hstop] at hcount ⊢ <;>
      omega
  | @exit tid t ret ht hpc hret =>
    refine .leave rfl ht hret rfl rfl ?_
    have hcount := returning_set ht
      (s.setThread tid { t with pc := .exited, err := collectResult t ret }) rfl
    cases hstop : t.task.isStop <;> simp [Thread.returning, hpc, Pc.holds, hstop] at hcount ⊢ <;>
      omega
  | @fire id created tm wk =>
    have hmark : ∀ t : Thread ι β, t.mark.returning = t.returning := fun _ => rfl
    have hcount := countP_workerDiscard hmark s wk created
    exact .fire rfl rfl rfl hcount.1 hcount.2
  | start =>
    obtain ⟨workers, heq, -⟩ := startLoop_eq { s with running := true } 0 0 _
    refine .start rfl (by assumption) rfl rfl ?_
    rw [heq, returning, returning, List.countP_append]
    exact Nat.le_add_right _ _
  | _ => exact .same rfl rfl

end Returning

end Executor

/-! ## No accepted task is lost -/

/-- With `k` threads to come back, every task in the queue that is no stop task has a
thread left when its turn comes. -/
def served : ℕ → List (TaskData ι β) → Bool
  | _, [] => true
  | k, task :: tasks =>
    if task.isStop then served (k - 1) tasks else decide (0 < k) && served k tasks

section Served

variable {k k' : ℕ} {task : TaskData ι β} {tasks : List (TaskData ι β)}

theorem served_mono (hle : k ≤ k') (h : served k tasks = true) : served k' tasks = true := by
  induction tasks generalizing k k' with
  | nil => rfl
  | cons task tasks ih =>
    simp only [served] at h ⊢
    by_cases hstop : task.isStop
    · rw [if_pos hstop] at h ⊢
      exact ih (by omega) h
    · rw [if_neg hstop, Bool.and_eq_true, decide_eq_true_eq] at h ⊢
      exact ⟨by omega, ih hle h.2⟩

/-- The next task is taken. -/
theorem served_tail (h : served k (task :: tasks) = true) (hk : k' + (if task.isStop then 1 else 0) = k) :
    served k' tasks = true := by
  simp only [served] at h
  by_cases hstop : task.isStop
  · rw [if_pos hstop] at h hk
    exact served_mono (by omega) h
  · rw [if_neg hstop, Bool.and_eq_true] at h
    rw [if_neg hstop] at hk
    exact served_mono (by omega) h.2

theorem served_append_stop (h : served k tasks = true) (hstop : task.isStop = true) :
    served k (tasks ++ [task]) = true := by
  induction tasks generalizing k with
  | nil => simp [served, hstop]
  | cons head tasks ih =>
    simp only [List.cons_append, served] at h ⊢
    by_cases hhead : head.isStop
    · rw [if_pos hhead] at h ⊢
      exact ih h
    · rw [if_neg hhead, Bool.and_eq_true] at h ⊢
      exact ⟨h.1, ih h.2⟩

/-- A task at the end is served, if there are fewer stop tasks than threads. -/
theorem served_append (h : served k tasks = true) (hlt : tasks.countP TaskData.isStop < k) :
    served k (tasks ++ [task]) = true := by
  induction tasks generalizing k with
  | nil =>
    have : 0 < k := by simpa using hlt
    simp [served, this]
  | cons head tasks ih =>
    simp only [List.cons_append, served] at h ⊢
    rw [List.countP_cons] at hlt
    by_cases hhead : head.isStop
    · rw [if_pos hhead] at h ⊢
      rw [if_pos hhead] at hlt
      exact ih h (by omega)
    · rw [if_neg hhead, Bool.and_eq_true] at h ⊢
      rw [if_neg hhead] at hlt
      exact ⟨h.1, ih h.2 (by omega)⟩

/-- With no thread to come back, only stop tasks are served. -/
theorem isStop_of_served_zero (h : served 0 tasks = true) (hmem : task ∈ tasks) :
    task.isStop = true := by
  induction tasks with
  | nil => simp at hmem
  | cons head tasks ih =>
    simp only [served] at h
    by_cases hhead : head.isStop
    · rw [if_pos hhead] at h
      rcases List.mem_cons.mp hmem with rfl | hmem
      · exact hhead
      · exact ih h hmem
    · simp [hhead] at h

end Served

def Call.isDispatch : Call ι β → Bool
  | .dispatch .. => true
  | .stop .. => false

/-- The call of `executor_stop` is about to put a stop task. -/
def Call.isPutting (n : ℕ) : Call ι β → Bool
  | .stop _ (.putting j) => decide (j < n)
  | _ => false

section NoneLost

variable [Payload β]

/-- A dispatch puts its task only while there are fewer stop tasks in the queue than
threads that will come back; a thread whose task was no stop task ends only if the
others can serve the queue. -/
def KeepsServed (m : Move (Executor ι β) (Action ι β) (Event ι β)) : Prop :=
  match m.action with
  | .call i => ∀ c ∈ m.pre.calls[i]?, c.isDispatch = true → rbIsFull m.pre.tasks = false →
      (queued m.hist).countP TaskData.isStop < m.pre.returning
  | .collectReturn tid ret => ∀ t ∈ m.pre.threads[tid]?, t.task.isStop = false →
      Executor.collectResult t ret ≠ 0 → served (m.pre.returning - 1) (queued m.hist) = true
  | _ => True

instance (m : Move (Executor ι β) (Action ι β) (Event ι β)) : Decidable (KeepsServed m) :=
  match m with
  | ⟨h, s, .call i⟩ => inferInstanceAs (Decidable (∀ c ∈ s.calls[i]?, c.isDispatch = true →
      rbIsFull s.tasks = false → (queued h).countP TaskData.isStop < s.returning))
  | ⟨h, s, .collectReturn tid ret⟩ => inferInstanceAs (Decidable (∀ t ∈ s.threads[tid]?,
      t.task.isStop = false → Executor.collectResult t ret ≠ 0 →
        served (s.returning - 1) (queued h) = true))
  | ⟨_, _, .thread _⟩ | ⟨_, _, .workReturn ..⟩ | ⟨_, _, .fire ..⟩ | ⟨_, _, .dispatch ..⟩
  | ⟨_, _, .stop _⟩ | ⟨_, _, .start _⟩ => inferInstanceAs (Decidable True)

/-- When all threads have ended, the queue holds no task of `executor_dispatch`. -/
def NoneLost (s : Executor ι β) : Prop :=
  (∀ t ∈ s.threads, t.pc = .exited) → ∀ args, some (dispatchTask args) ∉ s.tasks.heldElems

variable {cap : ℕ} {h es : List (Event ι β)} {s s' : Executor ι β} {a : Action ι β}

/-- What a step adds to the queue. -/
theorem Executor.Steps.accepted_cases (hs : s.Steps a s' es) :
    accepted es = [] ∨
    (∃ i c, a = .call i ∧ s.calls[i]? = some c ∧ c.isPutting s.workersCount = true ∧
      rbIsFull s.tasks = false ∧ accepted es = [stopTask]) ∨
    ∃ i caller args, a = .call i ∧ s.calls[i]? = some (.dispatch caller args) ∧
      rbIsFull s.tasks = false ∧ accepted es = [dispatchTask args] := by
  cases hs with
  | refuse hcaller hcheck => exact .inl (by simp [Executor.dispatchCheck_error hcheck])
  | @dispatchPut i caller args hcall =>
    by_cases hret : (ringbufferPut s.tasks (dispatchTask args)).2 = 0
    · exact .inr (.inr ⟨i, caller, args, rfl, hcall, not_full_of_put hret, by simp [hret]⟩)
    · exact .inl (by simp [hret])
  | @stopPut i j wait hcall hj =>
    by_cases hret : (ringbufferPut s.tasks (stopTask : TaskData ι β)).2 = 0
    · exact .inr (.inl ⟨i, _, rfl, hcall, by simpa [Call.isPutting] using hj, not_full_of_put hret,
        by simp [accepted, hret, Submission.task]⟩)
    · exact .inl (by simp [accepted, hret])
  | _ => exact .inl rfl

/-- A step that meets the condition leaves the queue served. -/
theorem served_step (HQ : Queued cap h s) (H : served s.returning (queued h) = true)
    (hok : KeepsServed ⟨h, s, a⟩) (hs : s.Steps a s' es) :
    served s'.returning (queued (h ++ es)) = true := by
  have hrest : takenTasks es = [] → accepted es = [] → queued (h ++ es) = queued h := by
    intro htaken hacc
    rw [HQ.queued_append htaken, hacc, List.append_nil]
  cases hs.turnover with
  | take hes hget hcount =>
    subst hes
    rw [HQ.queued_take hget] at H
    exact served_tail H hcount
  | same htaken hcount =>
    rw [HQ.queued_append htaken, hcount]
    rcases hs.accepted_cases with hacc | ⟨-, -, -, -, -, -, hacc⟩ |
      ⟨i, caller, args, rfl, hcall, hfull, hacc⟩
    · rwa [hacc, List.append_nil]
    · rw [hacc]
      exact served_append_stop H rfl
    · rw [hacc]
      exact served_append H (hok _ hcall rfl hfull)
  | back ha ht hpc hret htaken hacc hcount =>
    rw [hrest htaken hacc, hcount]
    exact served_mono (Nat.le_add_right _ _) H
  | @leave tid t ret ha ht hret htaken hacc hcount =>
    subst ha
    rw [hrest htaken hacc]
    cases hstop : t.task.isStop with
    | true =>
      rw [hstop, if_pos rfl] at hcount
      rwa [show s'.returning = s.returning by omega]
    | false =>
      simp only [hstop, Bool.false_eq_true, if_false] at hcount
      have := hok t ht hstop hret
      rwa [show s'.returning = s.returning - 1 by omega]
  | fire ha htaken hacc hle hadd =>
    rw [hrest htaken hacc]
    exact served_mono hle H
  | start ha hrunning htaken hacc hle =>
    rw [hrest htaken hacc]
    exact served_mono hle H

/-- **No accepted task is lost** in a run that keeps the queue served. -/
theorem none_lost {n : ℕ} (hfit : SlotsFit cap taskDataSize)
    (hr : (executorSystem ι β).Reach KeepsServed (Executor.started n cap) h s) : NoneLost s := by
  have hserved : served s.returning (queued h) = true := by
    refine Lts.Reach.invariant (P := fun h s => served s.returning (queued h) = true) rfl ?_ hr
    intro h s a s' es hreach ih hok hs
    exact served_step (queued_of_reach hfit hreach) ih hok (Executor.step_cases hs)
  intro hall args hmem
  have hzero : s.returning = 0 := by
    rw [Executor.returning, List.countP_eq_zero]
    intro t ht
    simp [Thread.returning, hall t ht]
  obtain ⟨q, hq, hqueued⟩ := (queued_of_reach hfit hr).queued_eq
  rw [hq.heldElems_eq] at hmem
  rw [hzero, hqueued] at hserved
  have := isStop_of_served_zero hserved (by simpa using hmem)
  simp [TaskData.isStop, dispatchTask] at this

end NoneLost

/-! ## Stop tasks -/

/-- The work function of the task has returned, and its collect function has not. -/
def Pc.afterWork : Pc → Bool
  | .worked | .cleared | .deleting | .finished | .collecting => true
  | _ => false

/-- A stop task comes with `StopCollect`, which returns what `StopWorker` returned. -/
def Thread.StopReady (t : Thread ι β) : Prop :=
  t.pc.holds = true → t.task.isStop = true →
    t.task.td.collect = .stopCollect ∧ (t.pc.afterWork = true → t.err = 1)

/-- The invariant of the stop tasks. -/
structure StopHolders (s : Executor ι β) : Prop where
  queue : ∀ o task, s.tasks.elems o = some task → task.isStop = true →
    task.td.collect = .stopCollect
  holder : ∀ (tid : ℕ) (t : Thread ι β), s.threads[tid]? = some t → t.StopReady

section StopHolders

variable {h es : List (Event ι β)} {s s' : Executor ι β} {a : Action ι β} {tid : ℕ}
  {t t' : Thread ι β}

theorem StopHolders.set (H : StopHolders s) (ht : s.threads[tid]? = some t)
    (helems : s'.tasks.elems = s.tasks.elems) (hthreads : s'.threads = s.threads.set tid t')
    (hready : t.StopReady → t'.StopReady) : StopHolders s' where
  queue := by rw [helems]; exact H.queue
  holder j u hu := by
    rw [hthreads, getElem?_set_some ht] at hu
    rcases hu with ⟨rfl, rfl⟩ | ⟨-, hu⟩
    · exact hready (H.holder _ t ht)
    · exact H.holder j u hu

/-- A stop task ends its thread. -/
theorem StopHolders.collectResult_ne (H : StopHolders s) (ht : s.threads[tid]? = some t)
    (hpc : t.pc = .collecting) (hstop : t.task.isStop = true) (ret : ℤ) :
    Executor.collectResult t ret ≠ 0 := by
  obtain ⟨hcollect, herr⟩ := H.holder tid t ht (by simp [hpc, Pc.holds]) hstop
  simp [Executor.collectResult, hcollect, herr (by simp [hpc, Pc.afterWork])]

private theorem stopHolders_put (H : StopHolders s) {task : TaskData ι β}
    (hnew : task.isStop = true → task.td.collect = .stopCollect)
    (htasks : s'.tasks = (ringbufferPut s.tasks task).1) (hthreads : s'.threads = s.threads) :
    StopHolders s' where
  queue o task' ho := by
    rw [htasks] at ho
    rcases ringbufferPut_elems ho with rfl | ho
    · exact hnew
    · exact H.queue o task' ho
  holder := by rw [hthreads]; exact H.holder

variable [Payload β]

theorem StopHolders.step (H : StopHolders s) (hs : s.Steps a s' es) : StopHolders s' := by
  have helems : ∀ {pc : Pc} {rb : RingBuffer (TaskData ι β)} {out : GetOutcome (TaskData ι β)},
      Executor.getSection pc s.tasks = (rb, out) → rb.elems = s.tasks.elems := by
    intro pc rb out hget
    have := (Executor.getSection_elems pc s.tasks).1
    rwa [hget] at this
  cases hs with
  | wait ht hpc hget => exact H.set ht (helems hget) rfl fun _ hc => by simp [Pc.holds] at hc
  | @take tid t rb task ht hpc hget =>
    refine H.set ht (helems hget) rfl fun _ _ hstop => ?_
    obtain ⟨o, ho⟩ := (Executor.getSection_elems t.pc s.tasks).2 task (by rw [hget])
    exact ⟨H.queue o task ho hstop, by simp [Pc.afterWork]⟩
  | takeUndefined ht hpc hget =>
    exact H.set ht (helems hget) rfl fun _ hc => by simp [Pc.holds] at hc
  | arm ht hpc => exact H.set ht rfl rfl (by simp [Thread.StopReady, hpc, Pc.holds, Pc.afterWork])
  | skipTimer ht hpc =>
    exact H.set ht rfl rfl (by simp [Thread.StopReady, hpc, Pc.holds, Pc.afterWork])
  | setCurrent ht hpc =>
    exact H.set ht rfl rfl (by simp [Thread.StopReady, hpc, Pc.holds, Pc.afterWork])
  | callWork ht hpc =>
    exact H.set ht rfl rfl (by simp [Thread.StopReady, hpc, Pc.holds, Pc.afterWork])
  | @returnWork tid t ret data ht hpc hcalling =>
    refine H.set ht rfl rfl fun hready _ hstop => ?_
    simp only [TaskData.isStop, TaskData.setArg_td] at hstop ⊢
    refine ⟨(hready (by simp [hpc, Pc.holds]) hstop).1, fun _ => ?_⟩
    split at hstop
    · rename_i hwork
      simp [Executor.workResult, hwork]
    · simp at hstop
  | clearCurrent ht hpc =>
    exact H.set ht rfl rfl (by simp [Thread.StopReady, hpc, Pc.holds, Pc.afterWork])
  | keepTimer ht hpc =>
    exact H.set ht rfl rfl (by simp [Thread.StopReady, hpc, Pc.holds, Pc.afterWork])
  | dropTimer ht hpc =>
    exact H.set ht rfl rfl (by simp [Thread.StopReady, hpc, Pc.holds, Pc.afterWork])
  | deleteTimer ht hpc =>
    exact H.set ht rfl rfl (by simp [Thread.StopReady, hpc, Pc.holds, Pc.afterWork])
  | callCollect ht hpc =>
    exact H.set ht rfl rfl (by simp [Thread.StopReady, hpc, Pc.holds, Pc.afterWork])
  | loop ht hpc => exact H.set ht rfl rfl fun _ hc => by simp [Pc.holds] at hc
  | exit ht hpc => exact H.set ht rfl rfl (by simp +contextual [Thread.StopReady, hpc, Pc.holds, Pc.afterWork])
  | @fire id created tm wk =>
    refine ⟨by simpa using H.queue, fun j u hu => ?_⟩
    rcases Executor.workerDiscard_thread hu with ⟨v, hv, rfl⟩ | ⟨-, rfl⟩
    · have hready := H.holder j v hv
      split
      · exact hready
      · exact hready
    · exact fun hc => by simp [Thread.spawn, Pc.holds] at hc
  | dispatchPut => exact stopHolders_put H (by simp [TaskData.isStop, dispatchTask]) rfl rfl
  | stopPut => exact stopHolders_put H (fun _ => rfl) rfl rfl
  | start =>
    obtain ⟨workers, heq, -⟩ := Executor.startLoop_eq { s with running := true } 0 0 _
    rw [heq]
    refine ⟨H.queue, fun j u hu => ?_⟩
    rcases List.mem_append.mp (List.mem_of_getElem? hu) with hmem | hmem
    · obtain ⟨i, hi⟩ := List.getElem?_of_mem hmem
      exact H.holder i u hi
    · obtain ⟨w, -, -, rfl⟩ := Executor.mem_startThreads hmem
      exact fun hc => by simp [Thread.spawn, Pc.holds] at hc
  | _ => exact ⟨H.queue, H.holder⟩

theorem stopHolders_of_reach {ok : Move (Executor ι β) (Action ι β) (Event ι β) → Prop} {n cap : ℕ}
    (hr : (executorSystem ι β).Reach ok (Executor.started n cap) h s) : StopHolders s := by
  refine Lts.Reach.invariant (P := fun _ s => StopHolders s) ?_
    (fun _ _ _ _ _ _ H _ hs => H.step (Executor.step_cases hs)) hr
  obtain ⟨workers, heq, -⟩ := Executor.started_eq (ι := ι) (β := β) n cap
  rw [heq]
  refine ⟨by simp [Executor.executorInit, ringbufferClear], fun j u hu => ?_⟩
  obtain ⟨w, -, -, rfl⟩ := Executor.mem_startThreads (List.mem_of_getElem? hu)
  exact fun hc => by simp [Thread.spawn, Pc.holds] at hc

end StopHolders

/-! ## Threads at the queue -/

/-- The thread waits for a task, or is about to. -/
def Thread.atQueue (t : Thread ι β) : Bool := t.pc == .get || t.pc == .waiting

namespace Executor

/-- The number of threads at the queue. -/
def atQueue (s : Executor ι β) : ℕ := s.threads.countP Thread.atQueue

section AtQueue

variable {s s' : Executor ι β} {tid : ℕ} {t t' : Thread ι β}

theorem atQueue_set (ht : s.threads[tid]? = some t) (s' : Executor ι β)
    (hthreads : s'.threads = s.threads.set tid t') :
    s'.atQueue + (if t.atQueue then 1 else 0) = s.atQueue + (if t'.atQueue then 1 else 0) :=
  countP_threads_set Thread.atQueue ht s' hthreads

/-- A thread that stays away from the queue, stays there, or leaves it. -/
theorem atQueue_set_le (ht : s.threads[tid]? = some t) (hthreads : s'.threads = s.threads.set tid t')
    (himp : t'.atQueue = true → t.atQueue = true) : s'.atQueue ≤ s.atQueue := by
  have hcount := atQueue_set ht s' hthreads
  cases hold : t.atQueue <;> cases hnew : t'.atQueue <;> simp [hold, hnew] at hcount himp <;> omega

variable [Payload β]

/-- A step, as far as it changes the number of threads at the queue. -/
inductive Arrivals (s : Executor ι β) (a : Action ι β) (s' : Executor ι β)
    (es : List (Event ι β)) : Prop
  | take {tid : ℕ} {task : TaskData ι β} {rb : RingBuffer (TaskData ι β)} {pc : Pc}
      (hes : es = [.taken tid s.taken task])
      (hget : getSection pc s.tasks = (rb, .done (some task)))
      (hcount : s'.atQueue + 1 = s.atQueue)
  | stay (htaken : takenTasks es = []) (hle : s'.atQueue ≤ s.atQueue)
  | back {tid : ℕ} {t : Thread ι β} {ret : ℤ} (ha : a = .collectReturn tid ret)
      (ht : s.threads[tid]? = some t) (hpc : t.pc = .collecting) (hret : collectResult t ret = 0)
      (htaken : takenTasks es = []) (hcount : s'.atQueue = s.atQueue + 1)
  | fire {id : ℕ} {created : Bool} (ha : a = .fire id created) (htaken : takenTasks es = [])
      (hle : s'.atQueue ≤ s.atQueue + if created then 1 else 0)
  | start {created : List Bool} (ha : a = .start created) (hrunning : s.running = false)

theorem Steps.arrivals {a : Action ι β} {es : List (Event ι β)} (hs : s.Steps a s' es) :
    s.Arrivals a s' es := by
  cases hs with
  | @take tid t rb task ht hpc hget =>
    refine .take rfl hget ?_
    have hold : t.atQueue = true := by
      rcases hpc with hpc | hpc <;> simp [Thread.atQueue, hpc]
    have hcount := atQueue_set ht ({ s with tasks := rb, taken := s.taken + 1 }.setThread tid
      { t with pc := .got, task := task, err := 0, ticket := s.taken }) rfl
    rwa [hold] at hcount
  | @loop tid t ret ht hpc hret =>
    refine .back rfl ht hpc hret rfl ?_
    have hcount := atQueue_set ht (s.setThread tid { t with pc := .get, err := 0 }) rfl
    rwa [show t.atQueue = false by simp [Thread.atQueue, hpc]] at hcount
  | @fire id created tm wk =>
    have hmark : ∀ t : Thread ι β, t.mark.atQueue = t.atQueue := fun _ => rfl
    exact .fire rfl rfl (countP_workerDiscard hmark s wk created).2
  | start => exact .start rfl (by assumption)
  | wait ht hpc =>
    refine .stay rfl (atQueue_set_le ht rfl fun _ => ?_)
    rcases hpc with hpc | hpc <;> simp [Thread.atQueue, hpc]
  | takeUndefined ht | arm ht | skipTimer ht | setCurrent ht | callWork ht | returnWork ht
  | clearCurrent ht | keepTimer ht | dropTimer ht | deleteTimer ht | callCollect ht | exit ht =>
    exact .stay rfl (atQueue_set_le ht rfl (by simp [Thread.atQueue]))
  | _ => exact .stay rfl le_rfl

end AtQueue

end Executor

/-! ## Every thread is reached -/

/-- `executor_stop` has returned. -/
def hasStopped (h : List (Event ι β)) : Bool :=
  h.any fun
    | .stopReturned _ => true
    | _ => false

theorem hasStopped_iff {h : List (Event ι β)} :
    hasStopped h = true ↔ ∃ err, .stopReturned err ∈ h := by
  rw [hasStopped, List.any_eq_true]
  constructor
  · rintro ⟨e, he, hstopped⟩
    split at hstopped
    · exact ⟨_, he⟩
    · cases hstopped
  · rintro ⟨err, he⟩
    exact ⟨_, he, rfl⟩

/-- The call of `executor_stop` is about to return. -/
def Call.isClearing : Call ι β → Bool
  | .stop _ (.clearing _) => true
  | _ => false

section StopReaches

variable [Payload β]

/-- The number of stop tasks in the queue. -/
def queuedStops (h : List (Event ι β)) : ℕ := (queued h).countP TaskData.isStop

/-- Where `executor_stop` returns, there is a stop task in the queue for each thread that is at
the queue; afterwards a thread that a callback creates, and one that comes back from a task that
is no stop task, finds one more; and the pool is not started again. -/
def KeepsReach (m : Move (Executor ι β) (Action ι β) (Event ι β)) : Prop :=
  match m.action with
  | .call i => ∀ c ∈ m.pre.calls[i]?, c.isClearing = true → m.pre.atQueue ≤ queuedStops m.hist
  | .fire _ created => hasStopped m.hist = true → created = true →
      m.pre.atQueue < queuedStops m.hist
  | .collectReturn tid ret => ∀ t ∈ m.pre.threads[tid]?, hasStopped m.hist = true →
      t.task.isStop = false → Executor.collectResult t ret = 0 → m.pre.atQueue < queuedStops m.hist
  | .start _ => m.pre.running = true
  | _ => True

instance (m : Move (Executor ι β) (Action ι β) (Event ι β)) : Decidable (KeepsReach m) :=
  match m with
  | ⟨h, s, .call i⟩ => inferInstanceAs (Decidable (∀ c ∈ s.calls[i]?,
      c.isClearing = true → s.atQueue ≤ queuedStops h))
  | ⟨h, s, .fire _ created⟩ => inferInstanceAs (Decidable (hasStopped h = true →
      created = true → s.atQueue < queuedStops h))
  | ⟨h, s, .collectReturn tid ret⟩ => inferInstanceAs (Decidable (∀ t ∈ s.threads[tid]?,
      hasStopped h = true → t.task.isStop = false → Executor.collectResult t ret = 0 →
        s.atQueue < queuedStops h))
  | ⟨_, s, .start _⟩ => inferInstanceAs (Decidable (s.running = true))
  | ⟨_, _, .thread _⟩ | ⟨_, _, .workReturn ..⟩ | ⟨_, _, .dispatch ..⟩ | ⟨_, _, .stop _⟩ =>
    inferInstanceAs (Decidable True)

/-- Once `executor_stop` has returned and the queue is empty, no thread outside of the
task functions waits for a task. -/
def StopReaches (h : List (Event ι β)) (s : Executor ι β) : Prop :=
  (∃ err, .stopReturned err ∈ h) → ringbufferEmpty s.tasks = true →
    (∀ t ∈ s.threads, t.pc ≠ .working ∧ t.pc ≠ .collecting) →
    ∀ t ∈ s.threads, t.pc ≠ .get ∧ t.pc ≠ .waiting

variable {cap n : ℕ} {h es : List (Event ι β)} {s s' : Executor ι β} {a : Action ι β}

/-- A step after which `executor_stop` has returned is the return, or comes after it. -/
theorem Executor.Steps.hasStopped_cases (hs : s.Steps a s' es) (h : List (Event ι β))
    (hstopped : hasStopped (h ++ es) = true) :
    hasStopped h = true ∨
      ∃ i c, a = .call i ∧ s.calls[i]? = some c ∧ c.isClearing = true := by
  rw [hasStopped_iff] at hstopped ⊢
  obtain ⟨err, hmem⟩ := hstopped
  rcases List.mem_append.mp hmem with hmem | hmem
  · exact .inl ⟨err, hmem⟩
  · cases hs with
    | stopReturn hcall => exact .inr ⟨_, _, rfl, hcall, rfl⟩
    | _ => simp at hmem

/-- **What one step keeps**: a stop task for each thread at the queue. -/
theorem reached_step (HQ : Queued cap h s) (HH : StopHolders s)
    (H : hasStopped h = true → s.atQueue ≤ queuedStops h) (hok : KeepsReach ⟨h, s, a⟩)
    (hs : s.Steps a s' es) (hstopped : hasStopped (h ++ es) = true) :
    s'.atQueue ≤ queuedStops (h ++ es) := by
  have hold : (∀ i, a ≠ .call i) → hasStopped h = true := by
    intro hcall
    rcases hs.hasStopped_cases h hstopped with hold | ⟨i, c, ha, -⟩
    · exact hold
    · exact absurd ha (hcall i)
  have hle : s.atQueue ≤ queuedStops h := by
    rcases hs.hasStopped_cases h hstopped with hold | ⟨i, c, rfl, hcall, hclearing⟩
    · exact H hold
    · exact hok c hcall hclearing
  have hrest : takenTasks es = [] → queuedStops h ≤ queuedStops (h ++ es) := by
    intro htaken
    rw [queuedStops, queuedStops, HQ.queued_append htaken, List.countP_append]
    exact Nat.le_add_right _ _
  cases hs.arrivals with
  | @take tid task rb pc hes hget hcount =>
    subst hes
    rw [queuedStops, HQ.queued_take hget tid s.taken, List.countP_cons] at hle
    rw [queuedStops]
    split at hle <;> omega
  | stay htaken hstay => exact (hstay.trans hle).trans (hrest htaken)
  | @back tid t ret ha ht hpc hret htaken hcount =>
    subst ha
    -- a thread that ran a stop task does not come back
    have hstop : t.task.isStop = false := by
      rw [← Bool.not_eq_true]
      exact fun hstop => HH.collectResult_ne ht hpc hstop ret hret
    have hlt : s.atQueue < queuedStops h := hok t ht (hold (by simp)) hstop hret
    have := hrest htaken
    omega
  | @fire id created ha htaken hadd =>
    subst ha
    have := hrest htaken
    cases created with
    | false =>
      simp only [Bool.false_eq_true, if_false] at hadd
      omega
    | true =>
      have hlt : s.atQueue < queuedStops h := hok (hold (by simp)) rfl
      simp only [if_true] at hadd
      omega
  | start ha hrunning =>
    subst ha
    rw [show s.running = true from hok] at hrunning
    cases hrunning

end StopReaches

/-! ## Explicit runs -/

/-- The threads have all ended. -/
def Executor.allExited (s : Executor ι β) : Bool := s.threads.all fun t => t.pc == .exited

/-- One worker runs a task, and is stopped. -/
def stopSteps : List (Action Unit (List UInt8)) :=
  dispatchSteps [] 0 ++ runSteps 0 0 [] ++ [Action.collectReturn 0 0, .stop false] ++
    List.replicate 3 (Action.call 0) ++ runSteps 0 1 [] ++ [Action.collectReturn 0 1]

/-- A stopped pool of one worker has lost nothing. -/
theorem none_lost_one_task : ∃ (h : List (Event Unit (List UInt8)))
    (s : Executor Unit (List UInt8)),
    (h.any Event.isCollectCall && s.allExited) = true ∧ NoneLost s := by
  obtain ⟨h, s, hr, hp⟩ := Lts.exists_reach_of_exec (executorSystem Unit (List UInt8))
    (fun m => decide (KeepsServed m)) (Executor.started 1 1) stopSteps
    (fun h s => h.any Event.isCollectCall && s.allExited) (by decide)
  exact ⟨h, s, hp, none_lost (by decide : SlotsFit (1 : ℕ) taskDataSize)
    (hr.mono fun _ hm => of_decide_eq_true hm)⟩

/-- A task dispatched behind the stop task of the only worker is accepted, and never
taken. -/
theorem none_lost_fails :
    ¬∀ (n cap : ℕ) (h : List (Event Unit (List UInt8))) (s : Executor Unit (List UInt8)),
      (executorSystem Unit (List UInt8)).Reach (fun _ => True) (Executor.started n cap) h s →
        NoneLost s := by
  intro hall
  obtain ⟨h, s, hr, hp⟩ := Lts.exists_reach_of_exec (executorSystem Unit (List UInt8))
    (fun _ => true) (Executor.started 1 2)
    ([Action.stop false, .call 0, .dispatch .client ⟨(), (), [], 0⟩, .call 1, .call 0, .call 0] ++
      runSteps 0 1 [] ++ [Action.collectReturn 0 1])
    (fun _ s => s.allExited &&
      decide (some (dispatchTask ⟨(), (), [], 0⟩) ∈ s.tasks.heldElems)) (by decide)
  rw [Bool.and_eq_true, Executor.allExited, List.all_eq_true] at hp
  obtain ⟨hexited, hmem⟩ := hp
  exact hall 1 2 h s (hr.mono fun _ _ => trivial) (fun t ht => by simpa using hexited t ht) _
    (of_decide_eq_true hmem)

/-- A worker whose task timed out leaves; the one that replaced it is in the next task when the
pool is stopped, times out, too, and leaves; and the one that replaced that takes the stop task. -/
def replacedSteps : List (Action Unit (List UInt8)) :=
  dispatchSteps [] 1000 ++ List.replicate 4 (Action.thread 0) ++
    [Action.fire 1 true, .workReturn 0 0 []] ++ List.replicate 3 (Action.thread 0) ++
    [Action.collectReturn 0 1] ++ dispatchSteps [] 1000 ++ List.replicate 4 (Action.thread 1) ++
    [Action.stop false] ++ List.replicate 3 (Action.call 0) ++
    [Action.fire 2 true, .workReturn 1 0 []] ++ List.replicate 3 (Action.thread 1) ++
    [Action.collectReturn 1 1] ++ runSteps 2 1 [] ++ [Action.collectReturn 2 1]

end Vmon
