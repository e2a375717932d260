import Vmon.Executor.Steps

/-!
# The life of a taken task

`ringbuffer_get` hands out tasks one at a time, and the ticket of a task is its
position in that order. Whatever the interleaving, the events of one ticket are
those of one pass through `worker_execute` by one thread, cut off where the thread
is now. This needs nothing of the queue.

## Main definitions

* `Submission`, `submissions`, `accepted` — the accepted tasks of a history.
* `takenTasks`, `ticketEvents` — the tasks handed out, and the events of one.
* `Lifecycle` — the passes through `worker_execute`.
* `Tickets` — the invariant; `tickets_of_reach` proves it of every run.
-/

namespace Vmon

variable {ι β : Type}

/-- A task that was accepted: by `executor_dispatch`, or by `executor_stop_worker`. -/
inductive Submission (ι β : Type)
  | dispatch (args : DispatchArgs ι β)
  | stop

def Submission.task [Payload β] : Submission ι β → TaskData ι β
  | .dispatch args => dispatchTask args
  | .stop => stopTask

/-- The data that comes with the task. -/
def Submission.data [Payload β] : Submission ι β → β
  | .dispatch args => args.data
  | .stop => Payload.zero

theorem Submission.task_arg [Payload β] (sub : Submission ι β) : sub.task.arg = sub.data := by
  cases sub <;> rfl

namespace Event

/-- What the event accepted: the call returned `0`. -/
def submission : Event ι β → Option (Submission ι β)
  | .dispatched _ args ret => if ret = 0 then some (.dispatch args) else none
  | .stopPut ret => if ret = 0 then some .stop else none
  | _ => none

/-- The task that the event handed out. -/
def takenTask : Event ι β → Option (TaskData ι β)
  | .taken _ _ task => some task
  | _ => none

/-- The ticket whose pass through `worker_execute` the event belongs to. -/
def pass : Event ι β → Option ℕ
  | .taken _ k _ | .workCalled _ k _ _ | .workReturned _ k _ _ | .collectCalled _ k _ _ _ _
  | .collectReturned _ k _ => some k
  | _ => none

def isWorkCall : Event ι β → Bool
  | .workCalled .. => true
  | _ => false

def isCollectCall : Event ι β → Bool
  | .collectCalled .. => true
  | _ => false

end Event

def submissions (h : List (Event ι β)) : List (Submission ι β) := h.filterMap Event.submission

/-- The accepted tasks, in the order in which they were accepted. -/
def accepted [Payload β] (h : List (Event ι β)) : List (TaskData ι β) :=
  (submissions h).map Submission.task

/-- The tasks handed out, in that order. -/
def takenTasks (h : List (Event ι β)) : List (TaskData ι β) := h.filterMap Event.takenTask

def ticketEvents (h : List (Event ι β)) (k : ℕ) : List (Event ι β) :=
  h.filter fun e => e.pass == some k

@[simp] theorem submissions_append (h h' : List (Event ι β)) :
    submissions (h ++ h') = submissions h ++ submissions h' := List.filterMap_append

@[simp] theorem takenTasks_append (h h' : List (Event ι β)) :
    takenTasks (h ++ h') = takenTasks h ++ takenTasks h' := List.filterMap_append

@[simp] theorem ticketEvents_append (h h' : List (Event ι β)) (k : ℕ) :
    ticketEvents (h ++ h') k = ticketEvents h k ++ ticketEvents h' k := List.filter_append ..

@[simp] theorem submissions_dispatched (caller : Caller) (args : DispatchArgs ι β) (ret : ℤ) :
    submissions [Event.dispatched caller args ret] = if ret = 0 then [.dispatch args] else [] := by
  by_cases h : ret = 0 <;> simp [submissions, Event.submission, h]

@[simp] theorem submissions_stopPut (ret : ℤ) :
    submissions ([Event.stopPut ret] : List (Event ι β)) = if ret = 0 then [.stop] else [] := by
  by_cases h : ret = 0 <;> simp [submissions, Event.submission, h]

@[simp] theorem submissions_taken (tid k : ℕ) (task : TaskData ι β) :
    submissions [Event.taken tid k task] = [] := rfl

@[simp] theorem takenTasks_taken (tid k : ℕ) (task : TaskData ι β) :
    takenTasks [Event.taken tid k task] = [task] := rfl

@[simp] theorem submissions_nil : submissions ([] : List (Event ι β)) = [] := rfl
@[simp] theorem takenTasks_nil : takenTasks ([] : List (Event ι β)) = [] := rfl

@[simp] theorem accepted_append [Payload β] (h h' : List (Event ι β)) :
    accepted (h ++ h') = accepted h ++ accepted h' := by simp [accepted]

@[simp] theorem accepted_taken [Payload β] (tid k : ℕ) (task : TaskData ι β) :
    accepted [Event.taken tid k task] = [] := rfl

@[simp] theorem accepted_dispatched [Payload β] (caller : Caller) (args : DispatchArgs ι β)
    (ret : ℤ) :
    accepted [Event.dispatched caller args ret] = if ret = 0 then [dispatchTask args] else [] := by
  by_cases h : ret = 0 <;> simp [accepted, h, Submission.task]

@[simp] theorem takenTasks_dispatched (caller : Caller) (args : DispatchArgs ι β) (ret : ℤ) :
    takenTasks [Event.dispatched caller args ret] = [] := rfl

@[simp] theorem accepted_nil [Payload β] : accepted ([] : List (Event ι β)) = [] := rfl

theorem mem_ticketEvents {h : List (Event ι β)} {k : ℕ} {e : Event ι β} :
    e ∈ ticketEvents h k ↔ e ∈ h ∧ e.pass = some k := by simp [ticketEvents]

/-- Events that belong to other passes do not show up in this one. -/
theorem ticketEvents_eq_nil {es : List (Event ι β)} {k : ℕ} (h : ∀ e ∈ es, e.pass ≠ some k) :
    ticketEvents es k = [] := by simpa [ticketEvents] using h

/-! ## One pass through `worker_execute` -/

section Pass

variable (tid k : ℕ) (task : TaskData ι β)

def passTaken : List (Event ι β) := [.taken tid k task]

def passCalled : List (Event ι β) :=
  passTaken tid k task ++ [Event.workCalled tid k task.td.work task.arg]

def passReturned (ret : ℤ) (data : β) : List (Event ι β) :=
  passCalled tid k task ++ [Event.workReturned tid k ret data]

def passCollecting (ret : ℤ) (data : β) (timeout : Bool) : List (Event ι β) :=
  passReturned tid k task ret data ++ [Event.collectCalled tid k task.td.collect data ret timeout]

def passDone (ret : ℤ) (data : β) (timeout : Bool) (err : ℤ) : List (Event ι β) :=
  passCollecting tid k task ret data timeout ++ [Event.collectReturned tid k err]

/-- The beginnings of a pass of thread `tid` with the task of ticket `k`. -/
inductive Lifecycle : List (Event ι β) → Prop
  | taken : Lifecycle (passTaken tid k task)
  | called : Lifecycle (passCalled tid k task)
  | returned (ret : ℤ) (data : β) : Lifecycle (passReturned tid k task ret data)
  | collecting (ret : ℤ) (data : β) (timeout : Bool) :
      Lifecycle (passCollecting tid k task ret data timeout)
  | done (ret : ℤ) (data : β) (timeout : Bool) (err : ℤ) :
      Lifecycle (passDone tid k task ret data timeout err)

end Pass

/-- The thread has a task, or had one when it ended. -/
def Pc.holds : Pc → Bool
  | .get | .waiting | .undefined => false
  | _ => true

/-- The events of its pass so far, for a thread with the task `task`. -/
def Progress (tid : ℕ) (t : Thread ι β) (task : TaskData ι β) (es : List (Event ι β)) : Prop :=
  match t.pc with
  | .got | .armed | .ready => es = passTaken tid t.ticket task ∧ t.task.arg = task.arg
  | .working => es = passCalled tid t.ticket task
  | .worked | .cleared | .deleting | .finished =>
    es = passReturned tid t.ticket task t.err t.task.arg
  | .collecting => ∃ timeout, es = passCollecting tid t.ticket task t.err t.task.arg timeout
  | .exited => ∃ ret data timeout, es = passDone tid t.ticket task ret data timeout t.err
  | .get | .waiting | .undefined => False

theorem Progress.lifecycle {tid : ℕ} {t : Thread ι β} {task : TaskData ι β}
    {es : List (Event ι β)} (h : Progress tid t task es) : Lifecycle tid t.ticket task es := by
  cases hpc : t.pc <;> simp only [Progress, hpc] at h
  case got | armed | ready => rw [h.1]; exact .taken
  case working => rw [h]; exact .called
  case worked | cleared | deleting | finished => rw [h]; exact .returned _ _
  case collecting =>
    obtain ⟨timeout, rfl⟩ := h
    exact .collecting _ _ _
  case exited =>
    obtain ⟨ret, data, timeout, rfl⟩ := h
    exact .done _ _ _ _

/-- A pass begins with its thread taking the task. -/
theorem Lifecycle.head {tid k : ℕ} {task : TaskData ι β} {es : List (Event ι β)}
    (h : Lifecycle tid k task es) : es.head? = some (.taken tid k task) := by
  cases h <;> rfl

theorem Lifecycle.mem_taken {tid k tid' k' : ℕ} {task task' : TaskData ι β}
    {es : List (Event ι β)} (h : Lifecycle tid k task es) (he : .taken tid' k' task' ∈ es) :
    tid' = tid ∧ task' = task := by
  cases h <;>
    simp_all [passTaken, passCalled, passReturned, passCollecting, passDone]

/-- The work call of a pass is the task's, with the data the task came with. -/
theorem Lifecycle.mem_workCalled {tid k tid' k' : ℕ} {task : TaskData ι β}
    {es : List (Event ι β)} {work : TaskFunction ι} {data : β} (h : Lifecycle tid k task es)
    (he : .workCalled tid' k' work data ∈ es) :
    tid' = tid ∧ work = task.td.work ∧ data = task.arg := by
  cases h <;>
    simp_all [passTaken, passCalled, passReturned, passCollecting, passDone]

/-- The collect call of a pass comes right after the return of the work call, with
what that returned and left in the data. -/
theorem Lifecycle.before_collectCalled {tid k tid' k' : ℕ} {task : TaskData ι β}
    {es₁ es₂ : List (Event ι β)} {collect : TaskCollect ι} {data : β} {error : ℤ} {timeout : Bool}
    (h : Lifecycle tid k task (es₁ ++ .collectCalled tid' k' collect data error timeout :: es₂)) :
    tid' = tid ∧ collect = task.td.collect ∧ es₁ = passReturned tid k task error data := by
  generalize hes : es₁ ++ Event.collectCalled tid' k' collect data error timeout :: es₂ = es at h
  rcases es₁ with _ | ⟨e₁, _ | ⟨e₂, _ | ⟨e₃, _ | ⟨e₄, _ | ⟨e₅, es₁⟩⟩⟩⟩⟩ <;>
    cases h <;>
    simp_all [passTaken, passCalled, passReturned, passCollecting, passDone]

theorem Lifecycle.countP_isWorkCall_le {tid k : ℕ} {task : TaskData ι β} {es : List (Event ι β)}
    (h : Lifecycle tid k task es) : es.countP Event.isWorkCall ≤ 1 := by
  cases h <;>
    simp [passTaken, passCalled, passReturned, passCollecting, passDone, List.countP_cons,
      Event.isWorkCall]

theorem Lifecycle.countP_isCollectCall_le {tid k : ℕ} {task : TaskData ι β}
    {es : List (Event ι β)} (h : Lifecycle tid k task es) : es.countP Event.isCollectCall ≤ 1 := by
  cases h <;>
    simp [passTaken, passCalled, passReturned, passCollecting, passDone, List.countP_cons,
      Event.isCollectCall]

/-- The fields of a task that its thread never changes. -/
structure SameTask (a b : TaskData ι β) : Prop where
  work : a.td.work = b.td.work
  collect : a.td.collect = b.td.collect
  timeout : a.td.timeout = b.td.timeout

/-- What the history says of the thread at `tid`, which has a task. -/
def Held (h : List (Event ι β)) (tid : ℕ) (t : Thread ι β) : Prop :=
  ∃ task, (takenTasks h)[t.ticket]? = some task ∧ SameTask t.task task ∧
    Progress tid t task (ticketEvents h t.ticket)

/-- The invariant of the taken tasks. -/
structure Tickets (h : List (Event ι β)) (s : Executor ι β) : Prop where
  count : (takenTasks h).length = s.taken
  fresh : ∀ k, s.taken ≤ k → ticketEvents h k = []
  cycle : ∀ k task, (takenTasks h)[k]? = some task →
    ∃ tid, Lifecycle tid k task (ticketEvents h k)
  held : ∀ tid t, s.threads[tid]? = some t → t.pc.holds = true → Held h tid t

namespace Tickets

variable {h es : List (Event ι β)} {s s' : Executor ι β} {tid : ℕ} {t t' : Thread ι β}

theorem ticket_lt (H : Tickets h s) (ht : s.threads[tid]? = some t) (hpc : t.pc.holds = true) :
    t.ticket < s.taken := by
  obtain ⟨task, htask, -⟩ := H.held tid t ht hpc
  rw [← H.count]
  exact (List.getElem?_eq_some_iff.mp htask).1

/-- An event of a pass belongs to the pass of a task that was handed out. -/
theorem pass_of_mem (H : Tickets h s) {e : Event ι β} {k : ℕ} (he : e ∈ h)
    (hk : e.pass = some k) : ∃ tid task, (takenTasks h)[k]? = some task ∧
      Lifecycle tid k task (ticketEvents h k) ∧ .taken tid k task ∈ h := by
  have hmem : e ∈ ticketEvents h k := mem_ticketEvents.mpr ⟨he, hk⟩
  have hlt : k < (takenTasks h).length := by
    by_contra hc
    rw [H.fresh k (by rw [← H.count]; omega)] at hmem
    simp at hmem
  obtain ⟨tid, hlife⟩ := H.cycle k _ (List.getElem?_eq_getElem hlt)
  exact ⟨tid, _, List.getElem?_eq_getElem hlt, hlife,
    (mem_ticketEvents.mp (List.mem_of_mem_head? hlife.head)).1⟩

/-- A task is handed out to one thread. -/
theorem taker_unique (H : Tickets h s) {tid' k : ℕ} {task task' : TaskData ι β}
    (hm : .taken tid k task ∈ h) (hm' : .taken tid' k task' ∈ h) : tid' = tid := by
  obtain ⟨i, v, -, hlife, -⟩ := H.pass_of_mem hm rfl
  have h1 := (hlife.mem_taken (mem_ticketEvents.mpr ⟨hm, rfl⟩)).1
  have h2 := (hlife.mem_taken (mem_ticketEvents.mpr ⟨hm', rfl⟩)).1
  rw [h1, h2]

/-- A thread that has a task has taken it. -/
theorem taken_of_holds (H : Tickets h s) (ht : s.threads[tid]? = some t)
    (hpc : t.pc.holds = true) : ∃ task, .taken tid t.ticket task ∈ h := by
  obtain ⟨task, -, -, hp⟩ := H.held tid t ht hpc
  exact ⟨task, (mem_ticketEvents.mp (List.mem_of_mem_head? hp.lifecycle.head)).1⟩

/-- No two threads have the same ticket. -/
theorem tid_eq (H : Tickets h s) {tid' : ℕ} (ht : s.threads[tid]? = some t)
    (ht' : s.threads[tid']? = some t') (hpc : t.pc.holds = true) (hpc' : t'.pc.holds = true)
    (hticket : t.ticket = t'.ticket) : tid = tid' := by
  obtain ⟨task, -, -, hp⟩ := H.held tid t ht hpc
  obtain ⟨task', -, -, hp'⟩ := H.held tid' t' ht' hpc'
  have h1 := hp.lifecycle.head
  have h2 := hp'.lifecycle.head
  rw [hticket] at h1
  have := h1.symm.trans h2
  simp only [Option.some.injEq, Event.taken.injEq] at this
  exact this.1

/-- A step that takes no task and makes no call of a task function. -/
theorem frame (H : Tickets h s) (hes : ∀ e ∈ es, e.pass = none) (htaken : s'.taken = s.taken)
    (hthreads : ∀ tid t', s'.threads[tid]? = some t' → t'.pc.holds = true →
      ∃ t, s.threads[tid]? = some t ∧ t.pc.holds = true ∧ t'.ticket = t.ticket ∧
        SameTask t'.task t.task ∧
        ∀ task old, Progress tid t task old → Progress tid t' task old) :
    Tickets (h ++ es) s' := by
  have htasks : takenTasks es = [] := by
    rw [takenTasks, List.filterMap_eq_nil_iff]
    intro e he
    have := hes e he
    cases e <;> simp [Event.pass] at this <;> rfl
  have hevents : ∀ k, ticketEvents es k = [] := fun k =>
    ticketEvents_eq_nil fun e he => by simp [hes e he]
  refine ⟨by simp [htasks, H.count, htaken], fun k hk => ?_, fun k task hk => ?_, ?_⟩
  · simp [hevents, H.fresh k (htaken ▸ hk)]
  · simpa [hevents] using H.cycle k task (by simpa [htasks] using hk)
  · intro tid t' ht' hpc'
    obtain ⟨t, ht, hpc, hticket, hsame, hprog⟩ := hthreads tid t' ht' hpc'
    obtain ⟨task, htask, hst, hp⟩ := H.held tid t ht hpc
    refine ⟨task, by simpa [htasks, hticket] using htask, ⟨hsame.work.trans hst.work,
      hsame.collect.trans hst.collect, hsame.timeout.trans hst.timeout⟩, ?_⟩
    simpa [hevents, hticket] using hprog task _ hp

/-- A step of a thread inside its pass. -/
theorem advance (H : Tickets h s) (ht : s.threads[tid]? = some t) (hpc : t.pc.holds = true)
    (hthreads : s'.threads = s.threads.set tid t') (htaken : s'.taken = s.taken)
    (hticket : t'.ticket = t.ticket) (hsame : SameTask t'.task t.task)
    (hes : takenTasks es = []) (hpass : ∀ e ∈ es, e.pass = some t.ticket ∨ e.pass = none)
    (hprog : ∀ task old, SameTask t.task task → Progress tid t task old →
      Lifecycle tid t.ticket task (old ++ ticketEvents es t.ticket) ∧
        (t'.pc.holds = true → Progress tid t' task (old ++ ticketEvents es t.ticket))) :
    Tickets (h ++ es) s' := by
  have hother : ∀ k, k ≠ t.ticket → ticketEvents es k = [] := by
    intro k hk
    refine ticketEvents_eq_nil fun e he hc => ?_
    rcases hpass e he with hp | hp <;> rw [hp] at hc
    · exact hk (by simpa using hc.symm)
    · simp at hc
  have hlt := H.ticket_lt ht hpc
  obtain ⟨task, htask, hst, hp⟩ := H.held tid t ht hpc
  refine ⟨by simp [hes, H.count, htaken], fun k hk => ?_, fun k task' hk => ?_, ?_⟩
  · simp [hother k (by omega), H.fresh k (by omega)]
  · rw [takenTasks_append, hes, List.append_nil] at hk
    rw [ticketEvents_append]
    by_cases heq : k = t.ticket
    · subst heq
      obtain rfl : task = task' := by simpa [htask] using hk
      exact ⟨tid, (hprog task _ hst hp).1⟩
    · rw [hother k heq, List.append_nil]
      exact H.cycle k task' hk
  · intro tid₁ t₁ ht₁ hpc₁
    rw [hthreads, List.getElem?_set] at ht₁
    split at ht₁
    · -- the thread that moved
      rename_i heq
      subst heq
      simp only [Option.ite_none_right_eq_some, Option.some.injEq] at ht₁
      obtain ⟨-, rfl⟩ := ht₁
      refine ⟨task, by simpa [hes, hticket] using htask, ⟨hsame.work.trans hst.work,
        hsame.collect.trans hst.collect, hsame.timeout.trans hst.timeout⟩, ?_⟩
      rw [hticket, ticketEvents_append]
      exact (hprog task _ hst hp).2 hpc₁
    · -- another thread: it has another ticket
      rename_i hne
      have hk : t₁.ticket ≠ t.ticket := fun hk => hne (H.tid_eq ht ht₁ hpc hpc₁ hk.symm)
      obtain ⟨task₁, htask₁, hst₁, hp₁⟩ := H.held tid₁ t₁ ht₁ hpc₁
      exact ⟨task₁, by simpa [hes] using htask₁, hst₁, by simpa [hother _ hk] using hp₁⟩

/-- A thread takes the next task. -/
theorem take (H : Tickets h s) {task : TaskData ι β}
    (hthreads : s'.threads = s.threads.set tid t') (htaken : s'.taken = s.taken + 1)
    (hpc' : t'.pc = .got) (hticket : t'.ticket = s.taken) (htask : t'.task = task) :
    Tickets (h ++ [Event.taken tid s.taken task]) s' := by
  have htasks : takenTasks (h ++ [Event.taken tid s.taken task]) = takenTasks h ++ [task] := by
    simp [takenTasks, Event.takenTask]
  have hsame : ticketEvents [Event.taken tid s.taken task] s.taken = passTaken tid s.taken task := by
    simp [ticketEvents, Event.pass, passTaken]
  have hother : ∀ k, k ≠ s.taken → ticketEvents [Event.taken tid s.taken task] k = [] :=
    fun k hk => ticketEvents_eq_nil (by simp [Event.pass, hk.symm])
  have hnew : ticketEvents (h ++ [Event.taken tid s.taken task]) s.taken =
      passTaken tid s.taken task := by
    rw [ticketEvents_append, H.fresh _ le_rfl, hsame, List.nil_append]
  refine ⟨by simp [htasks, H.count, htaken], fun k hk => ?_, fun k task' hk => ?_, ?_⟩
  · rw [ticketEvents_append, hother k (by omega), H.fresh k (by omega), List.append_nil]
  · rw [htasks] at hk
    by_cases heq : k = s.taken
    · subst heq
      obtain rfl : task = task' := by simpa [← H.count] using hk
      exact ⟨tid, by rw [hnew]; exact .taken⟩
    · have hk' : (takenTasks h)[k]? = some task' := by
        have := (List.getElem?_eq_some_iff.mp hk).1
        rw [List.length_append, List.length_singleton, H.count] at this
        rwa [List.getElem?_append_left (by rw [H.count]; omega)] at hk
      rw [ticketEvents_append, hother k heq, List.append_nil]
      exact H.cycle k task' hk'
  · intro tid₁ t₁ ht₁ hpc₁
    rw [hthreads, List.getElem?_set] at ht₁
    split at ht₁
    · rename_i heq
      subst heq
      simp only [Option.ite_none_right_eq_some, Option.some.injEq] at ht₁
      obtain ⟨-, rfl⟩ := ht₁
      refine ⟨task, ?_, ⟨by rw [htask], by rw [htask], by rw [htask]⟩, ?_⟩
      · rw [htasks, hticket, ← H.count]
        simp
      · rw [hticket, hnew]
        simp [Progress, hpc', hticket, htask]
    · have hlt := H.ticket_lt ht₁ hpc₁
      obtain ⟨task₁, htask₁, hst₁, hp₁⟩ := H.held tid₁ t₁ ht₁ hpc₁
      refine ⟨task₁, ?_, hst₁, by simpa [hother _ (Nat.ne_of_lt hlt)] using hp₁⟩
      rw [htasks, List.getElem?_append_left (by rw [H.count]; omega)]
      exact htask₁

/-- A step that leaves the threads alone. -/
theorem frame_threads (H : Tickets h s) (hes : ∀ e ∈ es, e.pass = none)
    (htaken : s'.taken = s.taken) (hthreads : s'.threads = s.threads) : Tickets (h ++ es) s' :=
  H.frame hes htaken fun _ t' ht' hpc' =>
    ⟨t', hthreads ▸ ht', hpc', rfl, ⟨rfl, rfl, rfl⟩, fun _ _ hp => hp⟩

/-- A step after which thread `tid` has no task. -/
theorem frame_idle (H : Tickets h s) (htaken : s'.taken = s.taken)
    (hthreads : s'.threads = s.threads.set tid t') (hpc' : t'.pc.holds = false) :
    Tickets (h ++ []) s' := by
  refine H.frame (by simp) htaken fun tid₁ t₁ ht₁ hpc₁ => ?_
  rw [hthreads, List.getElem?_set] at ht₁
  split at ht₁
  · simp only [Option.ite_none_right_eq_some, Option.some.injEq] at ht₁
    rw [← ht₁.2, hpc'] at hpc₁
    simp at hpc₁
  · exact ⟨t₁, ht₁, hpc₁, rfl, ⟨rfl, rfl, rfl⟩, fun _ _ hp => hp⟩

/-- A statement of a thread that has a task, makes no call and writes none of its task. -/
theorem advance_silent (H : Tickets h s) (ht : s.threads[tid]? = some t)
    (hpc : t.pc.holds = true) (hthreads : s'.threads = s.threads.set tid t')
    (htaken : s'.taken = s.taken) (hticket : t'.ticket = t.ticket) (htask : t'.task = t.task)
    (hes : ∀ e ∈ es, e.pass = none) (htasks : takenTasks es = [])
    (hprog : ∀ task old, Progress tid t task old → Progress tid t' task old) :
    Tickets (h ++ es) s' := by
  refine H.advance ht hpc hthreads htaken hticket ⟨by rw [htask], by rw [htask], by rw [htask]⟩
    htasks (fun e he => .inr (hes e he)) fun task old _ hp => ?_
  rw [ticketEvents_eq_nil fun e he => by simp [hes e he], List.append_nil]
  exact ⟨hp.lifecycle, fun _ => hprog task old hp⟩

end Tickets

theorem TaskData.sameTask_setArg (task : TaskData ι β) (d : β) : SameTask (task.setArg d) task :=
  ⟨by simp, by simp, by simp⟩

/-- Every step keeps the passes in order. -/
theorem Tickets.step [Payload β] {h es : List (Event ι β)} {s s' : Executor ι β} {a : Action ι β}
    (H : Tickets h s) (hs : s.Steps a s' es) : Tickets (h ++ es) s' := by
  cases hs with
  | wait => exact H.frame_idle rfl rfl rfl
  | take => exact H.take rfl rfl rfl rfl rfl
  | takeUndefined => exact H.frame_idle rfl rfl rfl
  | arm ht hpc =>
    exact H.advance_silent ht (by rw [hpc]; rfl) rfl rfl rfl rfl (by simp [Event.pass]) rfl
      (by simp [Progress, hpc])
  | skipTimer ht hpc =>
    exact H.advance_silent ht (by rw [hpc]; rfl) rfl rfl rfl rfl (by simp) rfl
      (by simp [Progress, hpc])
  | setCurrent ht hpc =>
    exact H.advance_silent ht (by rw [hpc]; rfl) rfl rfl rfl rfl (by simp) rfl
      (by simp [Progress, hpc])
  | @callWork tid t ht hpc =>
    refine H.advance ht (by rw [hpc]; rfl) rfl rfl rfl ⟨rfl, rfl, rfl⟩ rfl
      (by simp [Event.pass]) fun task old hsame hp => ?_
    simp only [Progress, hpc] at hp
    have hnew : old ++ ticketEvents [.workCalled tid t.ticket t.task.td.work t.task.arg] t.ticket =
        passCalled tid t.ticket task := by
      simp [ticketEvents, Event.pass, passCalled, hp.1, hp.2, hsame.work]
    rw [hnew]
    exact ⟨.called, fun _ => rfl⟩
  | @returnWork tid t ret data ht hpc =>
    refine H.advance ht (by rw [hpc]; rfl) rfl rfl rfl (t.task.sameTask_setArg _) rfl
      (by simp [Event.pass]) fun task old _ hp => ?_
    simp only [Progress, hpc] at hp
    have hnew : old ++ ticketEvents [.workReturned tid t.ticket (Executor.workResult t ret data).1
        (Executor.workResult t ret data).2] t.ticket = passReturned tid t.ticket task
          (Executor.workResult t ret data).1 (Executor.workResult t ret data).2 := by
      simp [ticketEvents, Event.pass, passReturned, hp]
    rw [hnew]
    exact ⟨.returned _ _, fun _ => by simp [Progress]⟩
  | clearCurrent ht hpc =>
    exact H.advance_silent ht (by rw [hpc]; rfl) rfl rfl rfl rfl (by simp) rfl
      (by simp [Progress, hpc])
  | keepTimer ht hpc =>
    exact H.advance_silent ht (by rw [hpc]; rfl) rfl rfl rfl rfl (by simp) rfl
      (by simp [Progress, hpc])
  | dropTimer ht hpc =>
    exact H.advance_silent ht (by rw [hpc]; rfl) rfl rfl rfl rfl (by simp) rfl
      (by simp [Progress, hpc])
  | deleteTimer ht hpc =>
    exact H.advance_silent ht (by rw [hpc]; rfl) rfl rfl rfl rfl (by simp [Event.pass]) rfl
      (by simp [Progress, hpc])
  | @callCollect tid t ht hpc =>
    refine H.advance ht (by rw [hpc]; rfl) rfl rfl rfl ⟨rfl, rfl, rfl⟩ rfl
      (by simp [Event.pass]) fun task old hsame hp => ?_
    simp only [Progress, hpc] at hp
    have hnew : old ++ ticketEvents [.collectCalled tid t.ticket t.task.td.collect t.task.arg t.err
        t.task.td.discarded] t.ticket =
          passCollecting tid t.ticket task t.err t.task.arg t.task.td.discarded := by
      simp [ticketEvents, Event.pass, passCollecting, hp, hsame.collect]
    rw [hnew]
    exact ⟨.collecting _ _ _, fun _ => ⟨_, rfl⟩⟩
  | @loop tid t ret ht hpc =>
    refine H.advance ht (by rw [hpc]; rfl) rfl rfl rfl ⟨rfl, rfl, rfl⟩ rfl
      (by simp [Event.pass]) fun task old _ hp => ?_
    simp only [Progress, hpc] at hp
    obtain ⟨timeout, rfl⟩ := hp
    have hnew : ticketEvents [.collectReturned tid t.ticket 0] t.ticket =
        [(.collectReturned tid t.ticket 0 : Event ι β)] := by simp [ticketEvents, Event.pass]
    rw [hnew]
    exact ⟨.done _ _ _ _, by simp [Pc.holds]⟩
  | @exit tid t ret ht hpc =>
    refine H.advance ht (by rw [hpc]; rfl) rfl rfl rfl ⟨rfl, rfl, rfl⟩ rfl
      (by simp [Event.pass]) fun task old _ hp => ?_
    simp only [Progress, hpc] at hp
    obtain ⟨timeout, rfl⟩ := hp
    have hnew : ticketEvents [.collectReturned tid t.ticket (Executor.collectResult t ret)] t.ticket =
        [(.collectReturned tid t.ticket (Executor.collectResult t ret) : Event ι β)] := by
      simp [ticketEvents, Event.pass]
    rw [hnew]
    exact ⟨.done _ _ _ _, fun _ => ⟨_, _, _, rfl⟩⟩
  | @fire id created tm w htm hid hw =>
    refine H.frame (by simp [Event.pass]) (by simp) fun tid t' ht' hpc' => ?_
    rcases Executor.workerDiscard_thread ht' with ⟨t, ht, rfl⟩ | ⟨-, rfl⟩
    · -- marking a task as discarded changes nothing that its pass depends on
      split at hpc' <;> rename_i hc
      · rw [if_pos hc]
        exact ⟨t, ht, hpc', rfl, ⟨rfl, rfl, rfl⟩, fun _ _ hp => hp⟩
      · rw [if_neg hc]
        exact ⟨t, ht, hpc', rfl, ⟨rfl, rfl, rfl⟩, fun _ _ hp => hp⟩
    · simp [Thread.spawn, Pc.holds] at hpc'
  | refuse => exact H.frame_threads (by simp [Event.pass]) rfl rfl
  | enter => exact H.frame_threads (by simp) rfl rfl
  | dispatchPut => exact H.frame_threads (by simp [Event.pass]) rfl rfl
  | stop => exact H.frame_threads (by simp) rfl rfl
  | stopPut => exact H.frame_threads (by simp [Event.pass]) rfl rfl
  | stopPhase => exact H.frame_threads (by simp) rfl rfl
  | stopReturn => exact H.frame_threads (by simp [Event.pass]) rfl rfl
  | startAgain => exact H.frame_threads (by simp [Event.pass]) rfl rfl
  | @start created hlen hrunning =>
    obtain ⟨workers, heq, -⟩ := Executor.startLoop_eq { s with running := true } 0 0 created
    rw [heq]
    refine H.frame (by simp [Event.pass]) rfl fun tid t' ht' hpc' => ?_
    rw [List.getElem?_append] at ht'
    split at ht'
    · exact ⟨t', ht', hpc', rfl, ⟨rfl, rfl, rfl⟩, fun _ _ hp => hp⟩
    · obtain ⟨w, -, -, rfl⟩ := Executor.mem_startThreads (List.mem_of_getElem? ht')
      simp [Thread.spawn, Pc.holds] at hpc'

theorem tickets_of_reach [Payload β] {ok : Move (Executor ι β) (Action ι β) (Event ι β) → Prop}
    {n cap : ℕ} {h : List (Event ι β)} {s : Executor ι β}
    (hr : (executorSystem ι β).Reach ok (Executor.started n cap) h s) : Tickets h s := by
  refine Lts.Reach.invariant ?_ (fun _ _ _ _ _ _ H _ hs => H.step (Executor.step_cases hs)) hr
  obtain ⟨workers, heq, -⟩ := Executor.started_eq (ι := ι) (β := β) n cap
  rw [heq]
  refine ⟨rfl, fun k _ => rfl, fun k task hk => by simp at hk, ?_⟩
  intro tid t ht hpc
  obtain ⟨w, -, -, rfl⟩ := Executor.mem_startThreads (List.mem_of_getElem? ht)
  simp [Thread.spawn, Pc.holds] at hpc

end Vmon
