import Vmon.Executor

/-!
# What one step of the executor can do

`Steps s a s' es` lists the steps of the system, one constructor for each
statement or branch, with the tests it went through and the state it leaves.
`step_cases` is the inversion of `Executor.step` that every invariant uses, so that
none of them unfolds the system again.

The second half says what each update leaves alone.
-/

namespace Vmon

variable {ι β : Type}

/-! ## Lists of threads and slots -/

section Lists

variable {α : Type} {l : List α} {i j : ℕ} {x y : α}

/-- What a list holds after a write to a position it has. -/
theorem getElem?_set_some (hi : l[i]? = some x) (z : α) :
    (l.set i z)[j]? = some y ↔ (j = i ∧ y = z) ∨ (j ≠ i ∧ l[j]? = some y) := by
  have hlt := (List.getElem?_eq_some_iff.mp hi).1
  by_cases hj : j = i
  · subst hj
    simp [List.getElem?_set_self hlt, eq_comm]
  · simp [List.getElem?_set_ne (Ne.symm hj), hj]

/-- Writing what is there changes nothing. -/
theorem set_of_getElem? (hi : l[i]? = some x) : l.set i x = l := by
  obtain ⟨hlt, rfl⟩ := List.getElem?_eq_some_iff.mp hi
  exact List.set_getElem_self hlt

theorem getElem?_modify_some (f : α → α) :
    (l.modify i f)[j]? = some y ↔
      (j = i ∧ ∃ x, l[i]? = some x ∧ y = f x) ∨ (j ≠ i ∧ l[j]? = some y) := by
  by_cases hj : j = i
  · subst hj
    simp [eq_comm]
  · simp [List.getElem?_modify_ne _ _ (Ne.symm hj), hj]

/-- A count after a write to a position the list has. -/
theorem countP_set_add (p : α → Bool) (hi : l[i]? = some x) (z : α) :
    (l.set i z).countP p + (if p x then 1 else 0) = l.countP p + (if p z then 1 else 0) := by
  induction l generalizing i with
  | nil => simp at hi
  | cons w l ih =>
    cases i with
    | zero =>
      simp only [List.getElem?_cons_zero, Option.some.injEq] at hi
      rw [List.set_cons_zero, List.countP_cons, List.countP_cons, hi]
      omega
    | succ i =>
      have := ih (by simpa using hi)
      rw [List.set_cons_succ, List.countP_cons, List.countP_cons]
      omega

theorem countP_modify_same (p : α → Bool) (f : α → α) (hf : ∀ x, p (f x) = p x) :
    (l.modify i f).countP p = l.countP p := by
  induction l generalizing i with
  | nil => cases i <;> rfl
  | cons w l ih => cases i <;> simp [List.countP_cons, hf, ih]

end Lists

/-! ## The argument of a task -/

@[simp] theorem TaskData.arg_setArg (task : TaskData ι β) (d : β) : (task.setArg d).arg = d := by
  cases hx : task.ud.xdata <;> simp [TaskData.setArg, TaskData.arg, hx]

@[simp] theorem TaskData.setArg_td (task : TaskData ι β) (d : β) :
    (task.setArg d).td = task.td := by
  cases hx : task.ud.xdata <;> simp [TaskData.setArg, hx]

@[simp] theorem TaskData.arg_dispatchTask [Payload β] (args : DispatchArgs ι β) :
    (dispatchTask args).arg = args.data := rfl

namespace Executor

/-! ## Updates -/

section Updates

variable (s : Executor ι β) (tid w : ℕ) (t : Thread ι β) (f : Worker → Worker)

@[simp] theorem setThread_workersCount : (s.setThread tid t).workersCount = s.workersCount := rfl
@[simp] theorem setThread_workers : (s.setThread tid t).workers = s.workers := rfl
@[simp] theorem setThread_tasks : (s.setThread tid t).tasks = s.tasks := rfl
@[simp] theorem setThread_running : (s.setThread tid t).running = s.running := rfl
@[simp] theorem setThread_threads : (s.setThread tid t).threads = s.threads.set tid t := rfl
@[simp] theorem setThread_timers : (s.setThread tid t).timers = s.timers := rfl
@[simp] theorem setThread_nextId : (s.setThread tid t).nextId = s.nextId := rfl
@[simp] theorem setThread_calls : (s.setThread tid t).calls = s.calls := rfl
@[simp] theorem setThread_taken : (s.setThread tid t).taken = s.taken := rfl

@[simp] theorem setWorker_workersCount : (s.setWorker w f).workersCount = s.workersCount := rfl
@[simp] theorem setWorker_workers : (s.setWorker w f).workers = s.workers.modify w f := rfl
@[simp] theorem setWorker_tasks : (s.setWorker w f).tasks = s.tasks := rfl
@[simp] theorem setWorker_running : (s.setWorker w f).running = s.running := rfl
@[simp] theorem setWorker_threads : (s.setWorker w f).threads = s.threads := rfl
@[simp] theorem setWorker_timers : (s.setWorker w f).timers = s.timers := rfl
@[simp] theorem setWorker_nextId : (s.setWorker w f).nextId = s.nextId := rfl
@[simp] theorem setWorker_calls : (s.setWorker w f).calls = s.calls := rfl
@[simp] theorem setWorker_taken : (s.setWorker w f).taken = s.taken := rfl

end Updates

/-- The slot a replacement or a start leaves: cleared, with the new thread if there is one. -/
def freshWorker (w : ℕ) (thread : Option ℕ) : Worker :=
  { id := w, thread := thread, schedId := 0, current := none }

/-- `worker_init` touches the slot and the thread list only. -/
theorem workerInit_eq [Payload β] (s : Executor ι β) (w : ℕ) (created : Bool) :
    s.workerInit w created =
      ({ s with
          workers := s.workers.modify w fun _ =>
            freshWorker w (if created then some s.threads.length else none)
          threads := s.threads ++ if created then [Thread.spawn w] else [] },
        if created then 0 else eagain) := by
  cases created <;> simp [workerInit, freshWorker]

/-- `worker_discard` marks the task `current` points at, and replaces the worker. -/
theorem workerDiscard_eq [Payload β] (s : Executor ι β) (w : Worker) (created : Bool) :
    s.workerDiscard w created =
      let marked := match w.current with
        | some tid => s.markDiscarded tid
        | none => s
      ((marked.executorReplace w.id created).1,
        w.current.bind fun tid => (s.threads[tid]?).map Thread.ticket,
        (marked.executorReplace w.id created).2) := by
  cases h : w.current <;> simp [workerDiscard, h]

/-- The threads of the pool once the callback marked the task of `current`. -/
def markCurrent (threads : List (Thread ι β)) : Option ℕ → List (Thread ι β)
  | some tid => threads.modify tid Thread.mark
  | none => threads

@[simp] theorem markCurrent_length (threads : List (Thread ι β)) (current : Option ℕ) :
    (markCurrent threads current).length = threads.length := by
  cases current <;> simp [markCurrent]

/-- The callback of a worker that the executor has. -/
theorem workerDiscard_of_lt [Payload β] {s : Executor ι β} {w : Worker}
    (hid : w.id < s.workersCount) (created : Bool) :
    s.workerDiscard w created =
      ({ s with
          workers := s.workers.modify w.id fun _ =>
            freshWorker w.id (if created then some s.threads.length else none)
          threads := markCurrent s.threads w.current ++
            if created then [Thread.spawn w.id] else [] },
        w.current.bind fun tid => (s.threads[tid]?).map Thread.ticket,
        if created then 0 else eagain) := by
  rw [workerDiscard_eq]
  cases h : w.current <;>
    simp [executorReplace, markDiscarded, workerInit_eq, hid, markCurrent]

/-- The callback of a worker that the executor does not have. -/
theorem workerDiscard_of_not_lt [Payload β] {s : Executor ι β} {w : Worker}
    (hid : ¬w.id < s.workersCount) (created : Bool) :
    (s.workerDiscard w created).1 = { s with threads := markCurrent s.threads w.current } := by
  rw [workerDiscard_eq]
  cases hcurrent : w.current <;>
    simp [executorReplace, hid, markDiscarded, markCurrent]

/-- A mark leaves a thread where it is. -/
theorem map_pc_markCurrent (threads : List (Thread ι β)) (current : Option ℕ) :
    (markCurrent threads current).map Thread.pc = threads.map Thread.pc := by
  cases current with
  | none => rfl
  | some tid =>
    apply List.ext_getElem?
    intro i
    rw [List.getElem?_map, List.getElem?_map, markCurrent, List.getElem?_modify]
    cases threads[i]? with
    | none => rfl
    | some t => by_cases hi : tid = i <;> simp [hi, Thread.mark]

/-- A timer that fires starts one thread at most. -/
theorem workerDiscard_pcs [Payload β] (s : Executor ι β) (w : Worker) (created : Bool) :
    ∃ pcs, (s.workerDiscard w created).1.threads.map Thread.pc = s.threads.map Thread.pc ++ pcs ∧
      (pcs = [] ∨ pcs = [.get]) := by
  by_cases hid : w.id < s.workersCount
  · refine ⟨if created then [.get] else [], ?_, by cases created <;> simp⟩
    rw [workerDiscard_of_lt hid, List.map_append, map_pc_markCurrent]
    cases created <;> rfl
  · refine ⟨[], ?_, .inl rfl⟩
    rw [workerDiscard_of_not_lt hid, List.append_nil, map_pc_markCurrent]

/-- The thread at `tid` after a callback: as before, or marked, or just started. -/
theorem workerDiscard_thread [Payload β] {s : Executor ι β} {w : Worker} {created : Bool} {tid : ℕ}
    {t' : Thread ι β} (h : (s.workerDiscard w created).1.threads[tid]? = some t') :
    (∃ t, s.threads[tid]? = some t ∧ t' = if w.current = some tid then t.mark else t) ∨
    (tid = s.threads.length ∧ t' = Thread.spawn w.id) := by
  have hmark : (markCurrent s.threads w.current)[tid]? = some t' →
      ∃ t, s.threads[tid]? = some t ∧ t' = if w.current = some tid then t.mark else t := by
    intro hm
    cases hc : w.current with
    | none => exact ⟨t', by simpa [markCurrent, hc] using hm, by simp⟩
    | some c =>
      rw [hc, markCurrent, getElem?_modify_some] at hm
      rcases hm with ⟨rfl, t, ht, rfl⟩ | ⟨hne, ht⟩
      · exact ⟨t, ht, by simp⟩
      · exact ⟨t', ht, by simp [Ne.symm hne]⟩
  by_cases hid : w.id < s.workersCount
  · rw [workerDiscard_of_lt hid] at h
    simp only [List.getElem?_append, markCurrent_length] at h
    split at h
    · exact .inl (hmark h)
    · rename_i hge
      cases created <;> simp [List.getElem?_singleton] at h
      exact .inr ⟨by omega, h.2.symm⟩
  · refine .inl (hmark ?_)
    rw [workerDiscard_eq] at h
    cases hc : w.current <;>
      simpa [hc, executorReplace, hid, markDiscarded, markCurrent] using h

section WorkerDiscard

variable [Payload β] (s : Executor ι β) (w : Worker) (created : Bool)

@[simp] theorem workerDiscard_tasks : (s.workerDiscard w created).1.tasks = s.tasks := by
  cases h : w.current <;>
    simp only [workerDiscard, h, executorReplace, workerInit_eq] <;> split <;> rfl

@[simp] theorem workerDiscard_calls : (s.workerDiscard w created).1.calls = s.calls := by
  cases h : w.current <;>
    simp only [workerDiscard, h, executorReplace, workerInit_eq] <;> split <;> rfl

@[simp] theorem workerDiscard_taken : (s.workerDiscard w created).1.taken = s.taken := by
  cases h : w.current <;>
    simp only [workerDiscard, h, executorReplace, workerInit_eq] <;> split <;> rfl

@[simp] theorem workerDiscard_running : (s.workerDiscard w created).1.running = s.running := by
  cases h : w.current <;>
    simp only [workerDiscard, h, executorReplace, workerInit_eq] <;> split <;> rfl

@[simp] theorem workerDiscard_nextId : (s.workerDiscard w created).1.nextId = s.nextId := by
  cases h : w.current <;>
    simp only [workerDiscard, h, executorReplace, workerInit_eq] <;> split <;> rfl

@[simp] theorem workerDiscard_workersCount :
    (s.workerDiscard w created).1.workersCount = s.workersCount := by
  cases h : w.current <;>
    simp only [workerDiscard, h, executorReplace, workerInit_eq] <;> split <;> rfl

end WorkerDiscard

/-- The threads that the loop of `executor_start` creates, from slot `j` on. -/
def startThreads [Payload β] (j : ℕ) : List Bool → List (Thread ι β)
  | [] => []
  | created :: rest => (if created then [Thread.spawn j] else []) ++ startThreads (j + 1) rest

theorem mem_startThreads [Payload β] {j : ℕ} {created : List Bool} {t : Thread ι β}
    (ht : t ∈ startThreads j created) :
    ∃ w, j ≤ w ∧ w < j + created.length ∧ t = Thread.spawn w := by
  induction created generalizing j with
  | nil => simp [startThreads] at ht
  | cons c rest ih =>
    rw [startThreads, List.mem_append] at ht
    rcases ht with ht | ht
    · have hj : t = Thread.spawn j := by cases c <;> simp at ht; exact ht
      exact ⟨j, le_rfl, by simp, hj⟩
    · obtain ⟨w, hle, hlt, rfl⟩ := ih ht
      exact ⟨w, by omega, by simp only [List.length_cons]; omega, rfl⟩

/-- Their slots ascend. -/
theorem pairwise_startThreads [Payload β] (j : ℕ) (created : List Bool) :
    (startThreads j created : List (Thread ι β)).Pairwise fun t u => t.wo < u.wo := by
  induction created generalizing j with
  | nil => exact .nil
  | cons c rest ih =>
    cases c
    · simpa [startThreads] using ih (j + 1)
    · refine List.pairwise_cons.mpr ⟨fun u hu => ?_, ih (j + 1)⟩
      obtain ⟨w, hle, -, rfl⟩ := mem_startThreads hu
      exact hle

/-- The loop of `executor_start` clears the slots it goes over, adds threads that
have not run, and leaves the rest of the executor as it found it. -/
theorem startLoop_eq [Payload β] (s : Executor ι β) (err : ℤ) (j : ℕ) (created : List Bool) :
    ∃ workers : List Worker,
      (s.startLoop err j created).1 =
        { s with workers := workers, threads := s.threads ++ startThreads j created } ∧
      workers.length = s.workers.length ∧
      ∀ w wk, workers[w]? = some wk → (∃ thread, wk = freshWorker w thread) ∨
        (s.workers[w]? = some wk ∧ (w < j ∨ j + created.length ≤ w)) := by
  induction created generalizing s err j with
  | nil =>
    refine ⟨s.workers, by simp [startLoop, startThreads], rfl, ?_⟩
    intro w wk hw
    exact .inr ⟨hw, by simp only [List.length_nil]; omega⟩
  | cons c rest ih =>
    obtain ⟨workers, heq, hlen, hall⟩ := ih (s.workerInit j c).1 (s.workerInit j c).2 (j + 1)
    rw [workerInit_eq] at heq hlen hall
    refine ⟨workers, ?_, by simpa using hlen, ?_⟩
    · rw [startLoop, workerInit_eq, heq, startThreads, List.append_assoc]
    · intro w wk hw
      rcases hall w wk hw with hfresh | ⟨hold, hout⟩
      · exact .inl hfresh
      · by_cases hj : j = w
        · subst hj
          rw [List.getElem?_modify_eq, Option.map_eq_map, Option.map_eq_some_iff] at hold
          obtain ⟨_, -, rfl⟩ := hold
          exact .inl ⟨_, rfl⟩
        · rw [List.getElem?_modify_ne _ _ hj] at hold
          refine .inr ⟨hold, ?_⟩
          rw [List.length_cons]
          omega

/-- What a start leaves, up to the slots. -/
theorem started_eq [Payload β] (n cap : ℕ) : ∃ workers : List Worker,
    (started n cap : Executor ι β) =
      { (executorInit n cap : Executor ι β) with
        workers := workers, running := true
        threads := startThreads 0 (List.replicate n true) } ∧
    workers.length = n ∧
    ∀ w wk, workers[w]? = some wk → ∃ thread, wk = freshWorker w thread := by
  obtain ⟨workers, heq, hlen, hall⟩ := startLoop_eq
    { (executorInit n cap : Executor ι β) with running := true } 0 0 (List.replicate n true)
  have hn : workers.length = n := by simpa [executorInit] using hlen
  refine ⟨workers, heq, hn, ?_⟩
  intro w wk hw
  have hlt : w < n := by rw [← hn]; exact (List.getElem?_eq_some_iff.mp hw).1
  rcases hall w wk hw with hfresh | ⟨-, hout⟩
  · exact hfresh
  · simp at hout
    omega

theorem getSection_eq (pc : Pc) (rb : RingBuffer (TaskData ι β)) :
    ∃ n, getSection pc rb = ringbufferGetWoken { rb with waiters := n } := by
  by_cases hpc : pc = .get
  · exact ⟨rb.waiters + 1, by simp [getSection, hpc, ringbufferGet]⟩
  · exact ⟨rb.waiters, by simp [getSection, hpc]⟩

theorem getSection_elems (pc : Pc) (rb : RingBuffer (TaskData ι β)) :
    (getSection pc rb).1.elems = rb.elems ∧
      ∀ task, (getSection pc rb).2 = .done (some task) → ∃ o, rb.elems o = some task := by
  obtain ⟨n, hn⟩ := getSection_eq pc rb
  rw [hn]
  exact ringbufferGetWoken_elems _

/-- A thread in `ringbuffer_get` waits on an empty queue, and takes the oldest task
of any other. -/
theorem getSection_cases {cap : ℕ} {rb : RingBuffer (TaskData ι β)}
    {q : BoundedQueue (TaskData ι β) cap} (hq : rb.Holds q) (pc : Pc) :
    (q.elems = [] ∧ ∃ rb', getSection pc rb = (rb', .wait) ∧ rb'.Holds q) ∨
    ∃ (task : TaskData ι β) (q' : BoundedQueue (TaskData ι β) cap)
      (rb' : RingBuffer (TaskData ι β)), q.elems = task :: q'.elems ∧
        getSection pc rb = (rb', .done (some task)) ∧ rb'.Holds q' := by
  obtain ⟨n, hn⟩ := getSection_eq pc rb
  rw [hn]
  rcases (hq.waiters n).get_cases with ⟨hnil, hwait⟩ | hdone
  · exact .inl ⟨hnil, _, hwait, hq.waiters n⟩
  · exact .inr hdone

/-- The same of a queue that is tracked. -/
theorem getSection_tracks {cap k : ℕ} {rb : RingBuffer (TaskData ι β)} {q : List (TaskData ι β)}
    (hq : rb.Tracks cap q k) (pc : Pc) :
    (q = [] ∧ ∃ rb', getSection pc rb = (rb', .wait) ∧ rb'.Tracks cap q k) ∨
    ∃ (task : TaskData ι β) (q' : List (TaskData ι β)) (rb' : RingBuffer (TaskData ι β)),
      q = task :: q' ∧ getSection pc rb = (rb', .done (some task)) ∧ rb'.Tracks cap q' k := by
  obtain ⟨n, hn⟩ := getSection_eq pc rb
  rw [hn]
  exact hq.get_cases n

/-- A work function that leaves its argument alone. -/
theorem workResult_arg (t : Thread ι β) (ret : ℤ) :
    (workResult t ret t.task.arg).2 = t.task.arg := by
  simp only [workResult]
  split <;> rfl

/-- The errors of `executor_dispatch` are not `0`. -/
theorem dispatchCheck_error [Payload β] {running : Bool} {args : DispatchArgs ι β} {ret : ℤ}
    (h : dispatchCheck running args = .error ret) : ret ≠ 0 := by
  simp only [dispatchCheck] at h
  split at h
  · cases h
    decide
  · split at h <;> cases h
    decide

/-- What passes the checks of `executor_dispatch` fits in a task, and finds the
executor running. -/
theorem dispatchCheck_ok [Payload β] {running : Bool} {args : DispatchArgs ι β}
    {task : TaskData ι β} (h : dispatchCheck running args = .ok task) :
    task = dispatchTask args ∧ Payload.size args.data ≤ taskDataEmbedMaxSize ∧
      running = true := by
  simp only [dispatchCheck] at h
  split at h
  · cases h
  · split at h <;> cases h
    rename_i hrunning
    exact ⟨rfl, by omega, by simpa using hrunning⟩

/-! ## The steps -/

variable [Payload β] {s s' : Executor ι β} {a : Action ι β} {es : List (Event ι β)}

/-- One step, by the statement that runs. -/
inductive Steps (s : Executor ι β) : Action ι β → Executor ι β → List (Event ι β) → Prop
  | wait {tid : ℕ} {t : Thread ι β} {rb : RingBuffer (TaskData ι β)}
      (ht : s.threads[tid]? = some t) (hpc : t.pc = .get ∨ t.pc = .waiting)
      (hget : getSection t.pc s.tasks = (rb, .wait)) :
      Steps s (.thread tid)
        ({ s with tasks := rb }.setThread tid
          { t with pc := .waiting, task := TaskData.zero, err := 0 }) []
  | take {tid : ℕ} {t : Thread ι β} {rb : RingBuffer (TaskData ι β)} {task : TaskData ι β}
      (ht : s.threads[tid]? = some t) (hpc : t.pc = .get ∨ t.pc = .waiting)
      (hget : getSection t.pc s.tasks = (rb, .done (some task))) :
      Steps s (.thread tid)
        ({ s with tasks := rb, taken := s.taken + 1 }.setThread tid
          { t with pc := .got, task := task, err := 0, ticket := s.taken })
        [.taken tid s.taken task]
  | takeUndefined {tid : ℕ} {t : Thread ι β} {rb : RingBuffer (TaskData ι β)}
      (ht : s.threads[tid]? = some t) (hpc : t.pc = .get ∨ t.pc = .waiting)
      (hget : getSection t.pc s.tasks = (rb, .done none)) :
      Steps s (.thread tid)
        ({ s with tasks := rb }.setThread tid
          { t with pc := .undefined, task := TaskData.zero, err := 0 }) []
  | arm {tid : ℕ} {t : Thread ι β} (ht : s.threads[tid]? = some t) (hpc : t.pc = .got)
      (htimeout : t.task.td.timeout ≠ 0) :
      Steps s (.thread tid)
        (((s.schedulerAdd t.wo t.task.td.timeout t.ticket).1.setWorker t.wo
          fun w => { w with schedId := s.nextId }).setThread tid { t with pc := .armed })
        [.armed tid t.ticket s.nextId]
  | skipTimer {tid : ℕ} {t : Thread ι β} (ht : s.threads[tid]? = some t) (hpc : t.pc = .got)
      (htimeout : t.task.td.timeout = 0) :
      Steps s (.thread tid) (s.setThread tid { t with pc := .armed }) []
  | setCurrent {tid : ℕ} {t : Thread ι β} (ht : s.threads[tid]? = some t) (hpc : t.pc = .armed) :
      Steps s (.thread tid)
        ((s.setWorker t.wo fun w => { w with current := some tid }).setThread tid
          { t with pc := .ready }) []
  | callWork {tid : ℕ} {t : Thread ι β} (ht : s.threads[tid]? = some t) (hpc : t.pc = .ready) :
      Steps s (.thread tid) (s.setThread tid { t with pc := .working })
        [.workCalled tid t.ticket t.task.td.work t.task.arg]
  | returnWork {tid : ℕ} {t : Thread ι β} {ret : ℤ} {data : β} (ht : s.threads[tid]? = some t)
      (hpc : t.pc = .working) (hcalling : s.calling tid = false) :
      Steps s (.workReturn tid ret data)
        (s.setThread tid
          { t with pc := .worked, err := (workResult t ret data).1,
                   task := t.task.setArg (workResult t ret data).2 })
        [.workReturned tid t.ticket (workResult t ret data).1 (workResult t ret data).2]
  | clearCurrent {tid : ℕ} {t : Thread ι β} (ht : s.threads[tid]? = some t)
      (hpc : t.pc = .worked) :
      Steps s (.thread tid)
        ((s.setWorker t.wo fun w => { w with current := none }).setThread tid
          { t with pc := .cleared }) []
  | keepTimer {tid : ℕ} {t : Thread ι β} (ht : s.threads[tid]? = some t) (hpc : t.pc = .cleared)
      (htest : t.task.td.timeout = 0 ∨ t.task.td.discarded = true) :
      Steps s (.thread tid) (s.setThread tid { t with pc := .finished }) []
  | dropTimer {tid : ℕ} {t : Thread ι β} (ht : s.threads[tid]? = some t) (hpc : t.pc = .cleared)
      (htimeout : t.task.td.timeout ≠ 0) (hdiscarded : t.task.td.discarded = false) :
      Steps s (.thread tid) (s.setThread tid { t with pc := .deleting }) []
  | deleteTimer {tid : ℕ} {t : Thread ι β} {w : Worker} (ht : s.threads[tid]? = some t)
      (hpc : t.pc = .deleting) (hw : s.workers[t.wo]? = some w) :
      Steps s (.thread tid) ((s.schedulerDel w.schedId).setThread tid { t with pc := .finished })
        [.deleted tid t.ticket w.schedId]
  | callCollect {tid : ℕ} {t : Thread ι β} (ht : s.threads[tid]? = some t)
      (hpc : t.pc = .finished) :
      Steps s (.thread tid) (s.setThread tid { t with pc := .collecting })
        [.collectCalled tid t.ticket t.task.td.collect t.task.arg t.err t.task.td.discarded]
  | loop {tid : ℕ} {t : Thread ι β} {ret : ℤ} (ht : s.threads[tid]? = some t)
      (hpc : t.pc = .collecting) (hret : collectResult t ret = 0) :
      Steps s (.collectReturn tid ret) (s.setThread tid { t with pc := .get, err := 0 })
        [.collectReturned tid t.ticket 0]
  | exit {tid : ℕ} {t : Thread ι β} {ret : ℤ} (ht : s.threads[tid]? = some t)
      (hpc : t.pc = .collecting) (hret : collectResult t ret ≠ 0) :
      Steps s (.collectReturn tid ret)
        (s.setThread tid { t with pc := .exited, err := collectResult t ret })
        [.collectReturned tid t.ticket (collectResult t ret)]
  | fire {id : ℕ} {created : Bool} {tm : Timer} {w : Worker} (htm : tm ∈ s.timers)
      (hid : tm.id = id) (hw : s.workers[tm.wo]? = some w) :
      Steps s (.fire id created)
        { (s.workerDiscard w created).1 with timers := s.timers.filter fun tm => tm.id != id }
        [.fired tm.ticket (s.workerDiscard w created).2.1
          (if (s.workerDiscard w created).2.2 = 0 then some s.threads.length else none)]
  | refuse {caller : Caller} {args : DispatchArgs ι β} {ret : ℤ}
      (hcaller : s.mayDispatch caller = true) (hcheck : dispatchCheck s.running args = .error ret) :
      Steps s (.dispatch caller args) s [.dispatched caller args ret]
  | enter {caller : Caller} {args : DispatchArgs ι β} {task : TaskData ι β}
      (hcaller : s.mayDispatch caller = true) (hcheck : dispatchCheck s.running args = .ok task) :
      Steps s (.dispatch caller args) { s with calls := s.calls ++ [.dispatch caller args] } []
  | dispatchPut {i : ℕ} {caller : Caller} {args : DispatchArgs ι β}
      (hcall : s.calls[i]? = some (.dispatch caller args)) :
      Steps s (.call i)
        { s with tasks := (ringbufferPut s.tasks (dispatchTask args)).1,
                 calls := s.calls.eraseIdx i }
        [.dispatched caller args (ringbufferPut s.tasks (dispatchTask args)).2]
  | stop {wait : Bool} :
      Steps s (.stop wait) { s with calls := s.calls ++ [.stop wait (.putting 0)] } []
  | stopPut {i j : ℕ} {wait : Bool} (hcall : s.calls[i]? = some (.stop wait (.putting j)))
      (hj : j < s.workersCount) :
      Steps s (.call i)
        { s with tasks := (ringbufferPut s.tasks stopTask).1,
                 calls := s.calls.set i (.stop wait (.putting (j + 1))) }
        [.stopPut (ringbufferPut s.tasks stopTask).2]
  | stopPhase {i : ℕ} {wait : Bool} {p p' : StopPhase} (hcall : s.calls[i]? = some (.stop wait p))
      (hp : ∀ j, p = .putting j → s.workersCount ≤ j) (hp' : ∀ j, p' ≠ .putting j) :
      Steps s (.call i) { s with calls := s.calls.set i (.stop wait p') } []
  | stopReturn {i : ℕ} {wait : Bool} {err : ℤ}
      (hcall : s.calls[i]? = some (.stop wait (.clearing err))) :
      Steps s (.call i) { s with running := false, calls := s.calls.eraseIdx i }
        [.stopReturned err]
  | startAgain {created : List Bool} (hrunning : s.running = true) :
      Steps s (.start created) s [.startReturned executorErrorAlreadyStarted]
  | start {created : List Bool} (hlen : created.length = s.workersCount)
      (hrunning : s.running = false) :
      Steps s (.start created) (startLoop { s with running := true } 0 0 created).1
        [.startReturned (startLoop { s with running := true } 0 0 created).2]

/-- A step makes one event visible at most. -/
theorem Steps.length_le_one (hs : s.Steps a s' es) : es.length ≤ 1 := by
  cases hs <;> simp

theorem Steps.workersCount_eq (hs : s.Steps a s' es) : s'.workersCount = s.workersCount := by
  cases hs with
  | fire => exact workerDiscard_workersCount ..
  | start =>
    obtain ⟨workers, heq, -⟩ := startLoop_eq { s with running := true } 0 0 _
    rw [heq]
  | _ => rfl

/-- A thread statement, by the thread it belongs to. -/
private theorem threadStep_cases {tid : ℕ} {t : Thread ι β} (ht : s.threads[tid]? = some t)
    (hs : s.threadStep tid t = some (s', es)) : Steps s (.thread tid) s' es := by
  have hget : t.pc = .get ∨ t.pc = .waiting → ∀ r, getSection t.pc s.tasks = r →
      s.afterGet tid t r = (s', es) → Steps s (.thread tid) s' es := by
    rintro hpc ⟨rb, _ | _ | task⟩ hr h <;> obtain ⟨rfl, rfl⟩ := Prod.mk.inj h
    · exact .wait (t := t) ht hpc hr
    · exact .takeUndefined (t := t) ht hpc hr
    · exact .take (t := t) ht hpc hr
  cases hpc : t.pc <;> simp only [threadStep, hpc, Option.some.injEq, reduceCtorEq] at hs
  case get => exact hget (.inl hpc) _ (by rw [hpc]) hs
  case waiting => exact hget (.inr hpc) _ (by rw [hpc]) hs
  case got =>
    split at hs <;> simp only [Option.some.injEq, Prod.mk.injEq] at hs <;>
      obtain ⟨rfl, rfl⟩ := hs
    · exact .arm ht hpc (by assumption)
    · exact .skipTimer ht hpc (by simp_all)
  case armed => obtain ⟨rfl, rfl⟩ := Prod.mk.inj hs; exact .setCurrent ht hpc
  case ready => obtain ⟨rfl, rfl⟩ := Prod.mk.inj hs; exact .callWork ht hpc
  case worked => obtain ⟨rfl, rfl⟩ := Prod.mk.inj hs; exact .clearCurrent ht hpc
  case cleared =>
    obtain ⟨rfl, rfl⟩ := Prod.mk.inj hs
    split
    · exact .dropTimer ht hpc (by tauto) (by tauto)
    · refine .keepTimer ht hpc ?_
      by_cases h : t.task.td.timeout = 0 <;> simp_all
  case deleting =>
    split at hs <;> simp only [Option.some.injEq, Prod.mk.injEq, reduceCtorEq] at hs
    obtain ⟨rfl, rfl⟩ := hs
    exact .deleteTimer ht hpc (by assumption)
  case finished => obtain ⟨rfl, rfl⟩ := Prod.mk.inj hs; exact .callCollect ht hpc

private theorem callStep_cases {i : ℕ} {c : Call ι β} (hc : s.calls[i]? = some c)
    (hs : s.callStep i c = some (s', es)) : Steps s (.call i) s' es := by
  cases c with
  | dispatch caller args =>
    simp only [callStep, Option.some.injEq, Prod.mk.injEq] at hs
    obtain ⟨rfl, rfl⟩ := hs
    exact .dispatchPut hc
  | stop wait phase =>
    cases phase with
    | putting j =>
      simp only [callStep] at hs
      split at hs <;> simp only [Option.some.injEq, Prod.mk.injEq] at hs <;>
        obtain ⟨rfl, rfl⟩ := hs
      · exact .stopPut hc (by assumption)
      · refine .stopPhase hc (fun j' h => by cases h; omega) (fun j' => ?_)
        split <;> simp
    | joining j err phase =>
      simp only [callStep] at hs
      split at hs
      · simp only [Option.map_eq_some_iff, Prod.mk.injEq] at hs
        obtain ⟨r, -, rfl, rfl⟩ := hs
        refine .stopPhase hc (by simp) fun j' => ?_
        cases r <;> simp [afterJoin]
      · simp only [Option.some.injEq, Prod.mk.injEq] at hs
        obtain ⟨rfl, rfl⟩ := hs
        exact .stopPhase hc (by simp) (by simp)
    | clearing err =>
      simp only [callStep, Option.some.injEq, Prod.mk.injEq] at hs
      obtain ⟨rfl, rfl⟩ := hs
      exact .stopReturn hc

/-- **Inversion of a step.** -/
theorem step_cases (hs : (executorSystem ι β).step s a = some (s', es)) : Steps s a s' es := by
  change s.step a = some (s', es) at hs
  cases a with
  | thread tid =>
    simp only [step, Option.bind_eq_some_iff] at hs
    obtain ⟨t, ht, hs⟩ := hs
    exact threadStep_cases ht hs
  | workReturn tid ret data =>
    simp only [step] at hs
    split at hs <;> try simp at hs
    rename_i t ht
    obtain ⟨⟨hpc, hcalling⟩, rfl, rfl⟩ := hs
    exact .returnWork ht hpc hcalling
  | collectReturn tid ret =>
    simp only [step] at hs
    split at hs <;> try simp at hs
    rename_i t ht
    obtain ⟨hpc, rfl, rfl⟩ := hs
    by_cases hret : collectResult t ret = 0
    · simp only [hret, if_true]
      exact .loop ht hpc hret
    · simp only [if_neg hret]
      exact .exit ht hpc hret
  | fire id created =>
    simp only [step] at hs
    split at hs <;> try simp only [reduceCtorEq] at hs
    rename_i tm htm
    split at hs <;> simp only [Option.some.injEq, Prod.mk.injEq, reduceCtorEq] at hs
    rename_i w hw
    obtain ⟨rfl, rfl⟩ := hs
    have hid := List.find?_some htm
    exact .fire (List.mem_of_find?_eq_some htm) (by simpa using hid) hw
  | dispatch caller args =>
    simp only [step] at hs
    split at hs <;> try simp at hs
    rename_i hcaller
    split at hs <;> simp only [Option.some.injEq, Prod.mk.injEq] at hs <;>
      obtain ⟨rfl, rfl⟩ := hs
    · exact .refuse hcaller (by assumption)
    · exact .enter hcaller (by assumption)
  | stop wait =>
    simp only [step, Option.some.injEq, Prod.mk.injEq] at hs
    obtain ⟨rfl, rfl⟩ := hs
    exact .stop
  | call i =>
    simp only [step, Option.bind_eq_some_iff] at hs
    obtain ⟨c, hc, hs⟩ := hs
    exact callStep_cases hc hs
  | start created =>
    simp only [step] at hs
    split at hs <;> simp only [Option.some.injEq, Prod.mk.injEq, reduceCtorEq] at hs
    rename_i hlen
    obtain ⟨rfl, rfl⟩ := hs
    by_cases hrunning : s.running = true
    · simp only [executorStart, hrunning, if_true]
      exact .startAgain hrunning
    · simp only [executorStart, hrunning, Bool.false_eq_true, if_false]
      exact .start hlen (by simpa using hrunning)

theorem workersCount_of_reach {ok : Move (Executor ι β) (Action ι β) (Event ι β) → Prop}
    {n cap : ℕ} {h : List (Event ι β)}
    (hr : (executorSystem ι β).Reach ok (started n cap) h s) : s.workersCount = n := by
  refine Lts.Reach.invariant (P := fun _ s => s.workersCount = n) ?_
    (fun _ _ _ _ _ _ ih _ hs => (step_cases hs).workersCount_eq.trans ih) hr
  obtain ⟨workers, heq, -⟩ := started_eq (ι := ι) (β := β) n cap
  rw [heq]
  rfl

end Executor

end Vmon
