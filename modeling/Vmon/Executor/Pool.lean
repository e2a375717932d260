import Vmon.Lib.Simulation
import Vmon.Lib.TaskPool
import Vmon.Executor.Accounting
import Vmon.Executor.Threads

/-!
# The executor is a task pool

The threads, the slots, the timers and the ring buffer of the executor are there to be a
pool of workers, and nothing they do shows otherwise: each step is one step of a `TaskPool`
or none. A thread that replaced another is one more worker, and a worker whose collect
function reports an error keeps its last task for ever.

## Main definitions

* `TaskData.toPool`, `Event.toPool` — what a pool shows of the executor.
* `Thread.Runs` — the job of a thread.
* `Executor.Embodies` — the executor is in the state of the pool.
* `Executor.simulation`, `executor_refines_pool`.
-/

namespace Vmon

variable {ι β : Type}

/-- The task that a pool sees. -/
def TaskData.toPool (task : TaskData ι β) : PoolTask (TaskFunction ι) (TaskCollect ι) β :=
  { work := task.td.work, collect := task.td.collect, data := task.arg }

/-- What a pool sees of an event: not the calls that were refused, the timers, or the ends of
a start and of a stop. -/
def Event.toPool [Payload β] :
    Event ι β → Option (PoolEvent (TaskFunction ι) (TaskCollect ι) β)
  | .dispatched _ args ret =>
    if ret = 0 then some (.accepted (dispatchTask args).toPool) else none
  | .stopPut ret => if ret = 0 then some (.accepted stopTask.toPool) else none
  | .taken tid k task => some (.taken tid k task.toPool)
  | .workCalled tid k work data => some (.workCalled tid k work data)
  | .workReturned tid k ret data => some (.workReturned tid k ret data)
  | .collectCalled tid k collect data error timeout =>
    some (.collectCalled tid k collect data error timeout)
  | .collectReturned tid k ret => some (.collectReturned tid k ret)
  | .stopReturned _ | .startReturned _ | .armed .. | .deleted .. | .fired .. => none

/-- The stage of the task that a thread has. -/
def Thread.AtStage (t : Thread ι β) (stage : Stage β) : Prop :=
  match t.pc with
  | .got | .armed | .ready => stage = .taken
  | .working => stage = .working
  | .worked | .cleared | .deleting | .finished => stage = .worked t.err t.task.arg
  | .collecting => ∃ timeout, stage = .collecting t.err t.task.arg timeout
  | .exited => ∃ ret data timeout, stage = .done ret data timeout t.err ∧ t.err ≠ 0
  | .get | .waiting | .undefined => False

/-- The thread is where the job says. -/
structure Thread.Runs (t : Thread ι β) (j : Job (TaskFunction ι) (TaskCollect ι) β) : Prop where
  work : t.task.td.work = j.task.work
  collect : t.task.td.collect = j.task.collect
  /-- Until its work function is called, a task has the data it came with. -/
  data : j.stage = .taken → t.task.arg = j.task.data
  stage : t.AtStage j.stage

/-- A thread that has the same task, but for the mark, and is as far. -/
theorem Thread.Runs.keep {t t' : Thread ι β} {j : Job (TaskFunction ι) (TaskCollect ι) β}
    (h : t.Runs j) (hwork : t'.task.td.work = t.task.td.work)
    (hcollect : t'.task.td.collect = t.task.td.collect) (harg : t'.task.arg = t.task.arg)
    (hstage : t.AtStage j.stage → t'.AtStage j.stage) : t'.Runs j :=
  ⟨hwork.trans h.work, hcollect.trans h.collect, fun hj => harg.trans (h.data hj), hstage h.stage⟩

theorem Thread.Runs.mark {t : Thread ι β} {j : Job (TaskFunction ι) (TaskCollect ι) β}
    (h : t.Runs j) : t.mark.Runs j :=
  h.keep rfl rfl rfl id

namespace Executor

/-- The executor is in the state of the pool. -/
structure Embodies (cap : ℕ) (s : Executor ι β)
    (p : TaskPool (TaskFunction ι) (TaskCollect ι) β) : Prop where
  queue : ∃ q : BoundedQueue (TaskData ι β) cap, s.tasks.Holds q ∧
    p.queue = q.elems.map TaskData.toPool
  count : p.jobs.length = s.taken
  /-- A thread that has a task runs the job of its ticket. -/
  held : ∀ (tid : ℕ) (t : Thread ι β), s.threads[tid]? = some t → t.pc.holds = true →
    ∃ j, p.jobs[t.ticket]? = some j ∧ j.owner = tid ∧ t.Runs j
  /-- A job that is not over has its thread. -/
  busy : ∀ (k : ℕ) (j : Job (TaskFunction ι) (TaskCollect ι) β), p.jobs[k]? = some j →
    j.stage.isOver = false → ∃ t, s.threads[j.owner]? = some t ∧ t.pc.holds = true ∧ t.ticket = k

namespace Embodies

variable {cap : ℕ} {s s' : Executor ι β} {p : TaskPool (TaskFunction ι) (TaskCollect ι) β}
  {tid : ℕ} {t t' : Thread ι β} {j : Job (TaskFunction ι) (TaskCollect ι) β}

/-- A step that no pool makes. -/
theorem frame (H : s.Embodies cap p) (htasks : s'.tasks = s.tasks) (htaken : s'.taken = s.taken)
    (hback : ∀ (tid : ℕ) (t' : Thread ι β), s'.threads[tid]? = some t' → t'.pc.holds = true →
      ∃ t, s.threads[tid]? = some t ∧ t.pc.holds = true ∧ t'.ticket = t.ticket ∧
        ∀ j, t.Runs j → t'.Runs j)
    (hforth : ∀ (tid : ℕ) (t : Thread ι β), s.threads[tid]? = some t → t.pc.holds = true →
      ∃ t', s'.threads[tid]? = some t' ∧ t'.pc.holds = true ∧ t'.ticket = t.ticket) :
    s'.Embodies cap p where
  queue := by
    rw [htasks]
    exact H.queue
  count := H.count.trans htaken.symm
  held tid t' ht' hpc' := by
    obtain ⟨t, ht, hpc, hticket, hruns⟩ := hback tid t' ht' hpc'
    obtain ⟨j, hj, howner, hrun⟩ := H.held tid t ht hpc
    exact ⟨j, by rw [hticket, hj], howner, hruns j hrun⟩
  busy k j hj hbusy := by
    obtain ⟨t, ht, hpc, hticket⟩ := H.busy k j hj hbusy
    obtain ⟨t', ht', hpc', hticket'⟩ := hforth j.owner t ht hpc
    exact ⟨t', ht', hpc', hticket'.trans hticket⟩

/-- The queue, and nothing else. -/
theorem frame_queue (H : s.Embodies cap p)
    {queue : List (PoolTask (TaskFunction ι) (TaskCollect ι) β)}
    (hqueue : ∃ q : BoundedQueue (TaskData ι β) cap, s'.tasks.Holds q ∧
      queue = q.elems.map TaskData.toPool)
    (htaken : s'.taken = s.taken) (hthreads : s'.threads = s.threads) :
    s'.Embodies cap { p with queue := queue } where
  queue := hqueue
  count := H.count.trans htaken.symm
  held tid t ht hpc := H.held tid t (hthreads ▸ ht) hpc
  busy k j hj hbusy := by
    rw [hthreads]
    exact H.busy k j hj hbusy

/-- A thread with no task, before and after. -/
theorem frame_idle (H : s.Embodies cap p) (ht : s.threads[tid]? = some t)
    (hpc : t.pc.holds = false) (hpc' : t'.pc.holds = false)
    (hqueue : ∃ q : BoundedQueue (TaskData ι β) cap, s'.tasks.Holds q ∧
      p.queue = q.elems.map TaskData.toPool)
    (hthreads : s'.threads = s.threads.set tid t') (htaken : s'.taken = s.taken) :
    s'.Embodies cap p where
  queue := hqueue
  count := H.count.trans htaken.symm
  held tid₁ t₁ ht₁ hpc₁ := by
    rw [hthreads, getElem?_set_some ht] at ht₁
    rcases ht₁ with ⟨-, rfl⟩ | ⟨-, ht₁⟩
    · rw [hpc'] at hpc₁
      cases hpc₁
    · exact H.held tid₁ t₁ ht₁ hpc₁
  busy k j hj hbusy := by
    obtain ⟨t₁, ht₁, hpc₁, hticket⟩ := H.busy k j hj hbusy
    refine ⟨t₁, ?_, hpc₁, hticket⟩
    rw [hthreads, getElem?_set_some ht]
    refine .inr ⟨?_, ht₁⟩
    rintro rfl
    rw [ht] at ht₁
    cases ht₁
    rw [hpc] at hpc₁
    cases hpc₁

/-- A statement of a thread that a pool does not see. -/
theorem silent (H : s.Embodies cap p) (ht : s.threads[tid]? = some t) (hpc : t.pc.holds = true)
    (hthreads : s'.threads = s.threads.set tid t') (hpc' : t'.pc.holds = true)
    (hticket : t'.ticket = t.ticket) (htask : t'.task = t.task)
    (hstage : ∀ stage, t.AtStage stage → t'.AtStage stage) (htasks : s'.tasks = s.tasks)
    (htaken : s'.taken = s.taken) : s'.Embodies cap p := by
  have hruns : ∀ j, t.Runs j → t'.Runs j := fun j hj =>
    hj.keep (by rw [htask]) (by rw [htask]) (by rw [htask]) (hstage j.stage)
  refine H.frame htasks htaken ?_ ?_
  · intro tid₁ t₁ ht₁ hpc₁
    rw [hthreads, getElem?_set_some ht] at ht₁
    rcases ht₁ with ⟨rfl, rfl⟩ | ⟨-, ht₁⟩
    · exact ⟨t, ht, hpc, hticket, hruns⟩
    · exact ⟨t₁, ht₁, hpc₁, rfl, fun _ h => h⟩
  · intro tid₁ t₁ ht₁ hpc₁
    rw [hthreads]
    by_cases htid : tid₁ = tid
    · subst htid
      obtain rfl : t = t₁ := by simpa [ht] using ht₁
      exact ⟨t', (getElem?_set_some ht _).mpr (.inl ⟨rfl, rfl⟩), hpc', hticket⟩
    · exact ⟨t₁, (getElem?_set_some ht _).mpr (.inr ⟨htid, ht₁⟩), hpc₁, rfl⟩

/-- A statement of a thread that moves its job. -/
theorem advance (H : s.Embodies cap p) (stage : Stage β) (ht : s.threads[tid]? = some t)
    (hpc : t.pc.holds = true) (hj : p.jobs[t.ticket]? = some j)
    (hthreads : s'.threads = s.threads.set tid t') (htasks : s'.tasks = s.tasks)
    (htaken : s'.taken = s.taken) (hticket : t'.ticket = t.ticket)
    (hpc' : t'.pc.holds = true ↔ stage.isOver = false)
    (hruns : t'.pc.holds = true → t'.Runs { j with stage := stage }) :
    s'.Embodies cap (p.advance t.ticket stage) where
  queue := by
    rw [htasks]
    exact H.queue
  count := by
    rw [TaskPool.advance, List.length_modify, H.count, htaken]
  held tid₁ t₁ ht₁ hpc₁ := by
    rw [hthreads, getElem?_set_some ht] at ht₁
    simp only [TaskPool.advance, getElem?_modify_some]
    obtain ⟨j₀, hj₀, howner, -⟩ := H.held tid t ht hpc
    obtain rfl : j = j₀ := by simpa [hj] using hj₀
    rcases ht₁ with ⟨rfl, rfl⟩ | ⟨hne, ht₁⟩
    · exact ⟨{ j with stage := stage }, .inl ⟨hticket, j, hj, rfl⟩, howner, hruns hpc₁⟩
    · -- another thread has another job
      obtain ⟨j₁, hj₁, howner₁, hrun₁⟩ := H.held tid₁ t₁ ht₁ hpc₁
      refine ⟨j₁, .inr ⟨fun hk => ?_, hj₁⟩, howner₁, hrun₁⟩
      rw [hk, hj] at hj₁
      cases hj₁
      exact hne (howner₁.symm.trans howner)
  busy k j₁ hj₁ hbusy := by
    simp only [TaskPool.advance, getElem?_modify_some] at hj₁
    obtain ⟨j₀, hj₀, howner, -⟩ := H.held tid t ht hpc
    obtain rfl : j = j₀ := by simpa [hj] using hj₀
    simp only [hthreads, getElem?_set_some ht]
    rcases hj₁ with ⟨rfl, j₁', hj₁', rfl⟩ | ⟨hne, hj₁⟩
    · obtain rfl : j = j₁' := by simpa [hj] using hj₁'
      exact ⟨t', .inl ⟨howner, rfl⟩, hpc'.mpr hbusy, hticket⟩
    · obtain ⟨t₁, ht₁, hpc₁, hticket₁⟩ := H.busy k j₁ hj₁ hbusy
      refine ⟨t₁, .inr ⟨fun hown => hne ?_, ht₁⟩, hpc₁, hticket₁⟩
      rw [hown, ht] at ht₁
      cases ht₁
      exact hticket₁.symm

/-- A thread without a task takes one. -/
theorem take (H : s.Embodies cap p) {task : TaskData ι β}
    {queue : List (PoolTask (TaskFunction ι) (TaskCollect ι) β)}
    (ht : s.threads[tid]? = some t) (hpc : t.pc.holds = false)
    (hqueue : ∃ q : BoundedQueue (TaskData ι β) cap, s'.tasks.Holds q ∧
      queue = q.elems.map TaskData.toPool)
    (hthreads : s'.threads = s.threads.set tid t') (htaken : s'.taken = s.taken + 1)
    (hpc' : t'.pc = .got) (hticket : t'.ticket = s.taken) (htask : t'.task = task) :
    s'.Embodies cap ⟨queue, p.jobs ++ [⟨tid, task.toPool, .taken⟩]⟩ where
  queue := hqueue
  count := by simp [H.count, htaken]
  held tid₁ t₁ ht₁ hpc₁ := by
    rw [hthreads, getElem?_set_some ht] at ht₁
    rcases ht₁ with ⟨rfl, rfl⟩ | ⟨hne, ht₁⟩
    · refine ⟨⟨tid₁, task.toPool, .taken⟩, ?_, rfl, ?_⟩
      · rw [hticket, ← H.count, List.getElem?_concat_length]
      · exact ⟨by rw [htask]; rfl, by rw [htask]; rfl, fun _ => by rw [htask]; rfl,
          by simp only [Thread.AtStage, hpc']⟩
    · obtain ⟨j₁, hj₁, howner₁, hrun₁⟩ := H.held tid₁ t₁ ht₁ hpc₁
      refine ⟨j₁, ?_, howner₁, hrun₁⟩
      rw [List.getElem?_append_left (List.getElem?_eq_some_iff.mp hj₁).1, hj₁]
  busy k j₁ hj₁ hbusy := by
    simp only [hthreads, getElem?_set_some ht]
    rw [List.getElem?_append] at hj₁
    split at hj₁
    · obtain ⟨t₁, ht₁, hpc₁, hticket₁⟩ := H.busy k j₁ hj₁ hbusy
      refine ⟨t₁, .inr ⟨fun hown => ?_, ht₁⟩, hpc₁, hticket₁⟩
      rw [hown, ht] at ht₁
      cases ht₁
      rw [hpc] at hpc₁
      cases hpc₁
    · simp only [List.getElem?_singleton, Option.ite_none_right_eq_some, Option.some.injEq] at hj₁
      obtain ⟨hk, rfl⟩ := hj₁
      refine ⟨t', .inl ⟨rfl, rfl⟩, by rw [hpc']; rfl, ?_⟩
      rw [hticket, ← H.count]
      omega

/-- The thread is idle in the pool. -/
theorem idle (H : s.Embodies cap p) (ht : s.threads[tid]? = some t) (hpc : t.pc.holds = false) :
    p.idle tid = true := by
  rw [TaskPool.idle, List.all_eq_true]
  intro j hmem
  obtain ⟨k, hj⟩ := List.getElem?_of_mem hmem
  by_contra hc
  simp only [Bool.or_eq_true, bne_iff_ne, ne_eq, not_or, not_not, Bool.not_eq_true] at hc
  obtain ⟨t₁, ht₁, hpc₁, -⟩ := H.busy k j hj hc.2
  rw [hc.1, ht] at ht₁
  cases ht₁
  rw [hpc] at hpc₁
  cases hpc₁

variable [Payload β]

/-- A put, whose event reports what it returned. -/
theorem put (H : s.Embodies cap p) {g : List (PoolEvent (TaskFunction ι) (TaskCollect ι) β)}
    {es : List (Event ι β)} (task : TaskData ι β)
    (htasks : s'.tasks = (ringbufferPut s.tasks task).1)
    (hes : es.filterMap Event.toPool =
      if (ringbufferPut s.tasks task).2 = 0 then [.accepted task.toPool] else [])
    (htaken : s'.taken = s.taken) (hthreads : s'.threads = s.threads) :
    ∃ p', (poolSystem (TaskFunction ι) (TaskCollect ι) β cap).Follows (fun _ => True) g p
      (es.filterMap Event.toPool) p' ∧ s'.Embodies cap p' := by
  obtain ⟨q, hq, hqueue⟩ := H.queue
  rw [hes]
  rcases hq.put_cases task with ⟨-, hput⟩ | ⟨q', helems, hret, hq'⟩
  · rw [hput] at htasks ⊢
    exact ⟨p, .inl ⟨by simp, rfl⟩, H.frame_queue ⟨q, htasks ▸ hq, hqueue⟩ htaken hthreads⟩
  · refine ⟨{ p with queue := p.queue ++ [task.toPool] }, .inr ⟨.accept task.toPool, trivial, ?_⟩,
      H.frame_queue ⟨q', htasks ▸ hq', by rw [hqueue, helems, List.map_append]; rfl⟩ htaken
        hthreads⟩
    have hroom : p.queue.length < cap := by
      have hb := q'.bounded
      rw [helems, List.length_append, List.length_singleton] at hb
      rw [hqueue, List.length_map]
      omega
    rw [if_pos hret]
    simp only [poolSystem, TaskPool.step, if_pos hroom]

end Embodies

variable [Payload β]

/-- **A step of the executor is one of the pool, or none.** -/
theorem Embodies.step {cap : ℕ} {s s' : Executor ι β} {a : Action ι β} {es : List (Event ι β)}
    {p : TaskPool (TaskFunction ι) (TaskCollect ι) β} (H : s.Embodies cap p)
    (hs : s.Steps a s' es) (g : List (PoolEvent (TaskFunction ι) (TaskCollect ι) β)) :
    ∃ p', (poolSystem (TaskFunction ι) (TaskCollect ι) β cap).Follows (fun _ => True) g p
      (es.filterMap Event.toPool) p' ∧ s'.Embodies cap p' := by
  have hidle : ∀ {t : Thread ι β}, t.pc = .get ∨ t.pc = .waiting → t.pc.holds = false := by
    rintro t (hpc | hpc) <;> rw [hpc] <;> rfl
  -- the events are read off the step, and the job off the thread
  cases hs with
  | @wait tid t rb ht hpc hget =>
    obtain ⟨q, hq, hqueue⟩ := H.queue
    rcases getSection_cases hq t.pc with ⟨-, rb', hget', hq'⟩ | ⟨_, _, _, -, hget', -⟩
    · obtain ⟨rfl, -⟩ := Prod.mk.inj (hget.symm.trans hget')
      exact ⟨p, .inl ⟨rfl, rfl⟩, H.frame_idle ht (hidle hpc) rfl ⟨q, hq', hqueue⟩ rfl rfl⟩
    · simp [hget'] at hget
  | @take tid t rb task ht hpc hget =>
    obtain ⟨q, hq, hqueue⟩ := H.queue
    rcases getSection_cases hq t.pc with
      ⟨-, rb', hget', -⟩ | ⟨task', q', rb', helems, hget', hq'⟩
    · simp [hget'] at hget
    · simp only [hget', Prod.mk.injEq, GetOutcome.done.injEq, Option.some.injEq] at hget
      obtain ⟨rfl, rfl⟩ := hget
      rw [helems, List.map_cons] at hqueue
      refine ⟨_, .inr ⟨.take tid, trivial, ?_⟩,
        H.take ht (hidle hpc) ⟨q', hq', rfl⟩ rfl rfl rfl rfl rfl⟩
      simp only [poolSystem, TaskPool.step, hqueue, H.idle ht (hidle hpc), if_true, H.count]
      rfl
  | @takeUndefined tid t rb ht hpc hget =>
    obtain ⟨q, hq, -⟩ := H.queue
    rcases getSection_cases hq t.pc with ⟨-, rb', hget', -⟩ | ⟨_, _, _, -, hget', -⟩ <;>
      simp [hget'] at hget
  | @arm tid t ht hpc htimeout =>
    exact ⟨p, .inl ⟨rfl, rfl⟩, H.silent ht (by rw [hpc]; rfl) rfl rfl rfl rfl
      (by simp [Thread.AtStage, hpc]) rfl rfl⟩
  | @skipTimer tid t ht hpc htimeout =>
    exact ⟨p, .inl ⟨rfl, rfl⟩, H.silent ht (by rw [hpc]; rfl) rfl rfl rfl rfl
      (by simp [Thread.AtStage, hpc]) rfl rfl⟩
  | @setCurrent tid t ht hpc =>
    exact ⟨p, .inl ⟨rfl, rfl⟩, H.silent ht (by rw [hpc]; rfl) rfl rfl rfl rfl
      (by simp [Thread.AtStage, hpc]) rfl rfl⟩
  | @callWork tid t ht hpc =>
    obtain ⟨j, hj, rfl, hrun⟩ := H.held tid t ht (by rw [hpc]; rfl)
    have hstage : j.stage = .taken := by simpa [Thread.AtStage, hpc] using hrun.stage
    refine ⟨_, .inr ⟨.work t.ticket, trivial, ?_⟩,
      H.advance .working ht (by rw [hpc]; rfl) hj rfl rfl rfl rfl
        (by simp [Pc.holds, Stage.isOver])
        fun _ => ⟨hrun.work, hrun.collect, by simp, by simp [Thread.AtStage]⟩⟩
    obtain ⟨owner, task, stage⟩ := j
    subst hstage
    simp only [poolSystem, TaskPool.step, hj, hrun.work, hrun.data rfl]
    rfl
  | @returnWork tid t ret data ht hpc =>
    obtain ⟨j, hj, rfl, hrun⟩ := H.held tid t ht (by rw [hpc]; rfl)
    have hstage : j.stage = .working := by simpa [Thread.AtStage, hpc] using hrun.stage
    refine ⟨_, .inr ⟨.workReturn t.ticket (workResult t ret data).1 (workResult t ret data).2,
      trivial, ?_⟩, H.advance (.worked (workResult t ret data).1 (workResult t ret data).2)
        ht (by rw [hpc]; rfl) hj rfl rfl rfl rfl (by simp [Pc.holds, Stage.isOver])
        fun _ => ⟨by simpa using hrun.work, by simpa using hrun.collect, by simp,
          by simp [Thread.AtStage]⟩⟩
    obtain ⟨owner, task, stage⟩ := j
    subst hstage
    simp only [poolSystem, TaskPool.step, hj]
    rfl
  | @clearCurrent tid t ht hpc =>
    exact ⟨p, .inl ⟨rfl, rfl⟩, H.silent ht (by rw [hpc]; rfl) rfl rfl rfl rfl
      (by simp [Thread.AtStage, hpc]) rfl rfl⟩
  | @keepTimer tid t ht hpc htest =>
    exact ⟨p, .inl ⟨rfl, rfl⟩, H.silent ht (by rw [hpc]; rfl) rfl rfl rfl rfl
      (by simp [Thread.AtStage, hpc]) rfl rfl⟩
  | @dropTimer tid t ht hpc htimeout hdiscarded =>
    exact ⟨p, .inl ⟨rfl, rfl⟩, H.silent ht (by rw [hpc]; rfl) rfl rfl rfl rfl
      (by simp [Thread.AtStage, hpc]) rfl rfl⟩
  | @deleteTimer tid t w ht hpc hw =>
    exact ⟨p, .inl ⟨rfl, rfl⟩, H.silent ht (by rw [hpc]; rfl) rfl rfl rfl rfl
      (by simp [Thread.AtStage, hpc]) rfl rfl⟩
  | @callCollect tid t ht hpc =>
    obtain ⟨j, hj, rfl, hrun⟩ := H.held tid t ht (by rw [hpc]; rfl)
    have hstage : j.stage = .worked t.err t.task.arg := by
      simpa [Thread.AtStage, hpc] using hrun.stage
    refine ⟨_, .inr ⟨.collect t.ticket t.task.td.discarded, trivial, ?_⟩,
      H.advance (.collecting t.err t.task.arg t.task.td.discarded) ht (by rw [hpc]; rfl)
        hj rfl rfl rfl rfl (by simp [Pc.holds, Stage.isOver])
        fun _ => ⟨hrun.work, hrun.collect, by simp, by simp [Thread.AtStage]⟩⟩
    obtain ⟨owner, task, stage⟩ := j
    subst hstage
    simp only [poolSystem, TaskPool.step, hj, hrun.collect]
    rfl
  | @loop tid t ret ht hpc hret =>
    obtain ⟨j, hj, rfl, hrun⟩ := H.held tid t ht (by rw [hpc]; rfl)
    obtain ⟨timeout, hstage⟩ : ∃ timeout, j.stage = .collecting t.err t.task.arg timeout := by
      simpa [Thread.AtStage, hpc] using hrun.stage
    refine ⟨_, .inr ⟨.collectReturn t.ticket 0, trivial, ?_⟩,
      H.advance (.done t.err t.task.arg timeout 0) ht (by rw [hpc]; rfl) hj rfl rfl rfl rfl
        (by simp [Pc.holds, Stage.isOver]) (by simp [Pc.holds])⟩
    obtain ⟨owner, task, stage⟩ := j
    subst hstage
    simp only [poolSystem, TaskPool.step, hj]
    rfl
  | @exit tid t ret ht hpc hret =>
    obtain ⟨j, hj, rfl, hrun⟩ := H.held tid t ht (by rw [hpc]; rfl)
    obtain ⟨timeout, hstage⟩ : ∃ timeout, j.stage = .collecting t.err t.task.arg timeout := by
      simpa [Thread.AtStage, hpc] using hrun.stage
    refine ⟨_, .inr ⟨.collectReturn t.ticket (collectResult t ret), trivial, ?_⟩,
      H.advance (.done t.err t.task.arg timeout (collectResult t ret)) ht
        (by rw [hpc]; rfl) hj rfl rfl rfl rfl (by simp [Pc.holds, Stage.isOver, hret])
        fun _ => ⟨hrun.work, hrun.collect, by simp,
          by simpa [Thread.AtStage] using hret⟩⟩
    obtain ⟨owner, task, stage⟩ := j
    subst hstage
    simp only [poolSystem, TaskPool.step, hj]
    rfl
  | @fire id created tm w htm hid hw =>
    refine ⟨p, .inl ⟨rfl, rfl⟩, H.frame (by simp) (by simp) ?_ ?_⟩
    · intro tid t' ht' hpc'
      rcases workerDiscard_thread ht' with ⟨t, ht, rfl⟩ | ⟨-, rfl⟩
      · split at hpc' <;> rename_i hc
        · rw [if_pos hc]
          exact ⟨t, ht, hpc', rfl, fun _ hj => hj.mark⟩
        · rw [if_neg hc]
          exact ⟨t, ht, hpc', rfl, fun _ hj => hj⟩
      · simp [Thread.spawn, Pc.holds] at hpc'
    · intro tid t ht hpc
      obtain ⟨t', ht', rfl | rfl⟩ := workerDiscard_kept ht w created
      · exact ⟨t', ht', hpc, rfl⟩
      · exact ⟨t.mark, ht', hpc, rfl⟩
  | refuse hcaller hcheck =>
    have hret := dispatchCheck_error hcheck
    exact ⟨p, .inl ⟨by simp [Event.toPool, hret], rfl⟩, H⟩
  | enter => exact ⟨p, .inl ⟨rfl, rfl⟩, H.frame_queue H.queue rfl rfl⟩
  | @dispatchPut i caller args hcall =>
    refine H.put (dispatchTask args) rfl ?_ rfl rfl
    by_cases hret : (ringbufferPut s.tasks (dispatchTask args)).2 = 0 <;> simp [Event.toPool, hret]
  | stop => exact ⟨p, .inl ⟨rfl, rfl⟩, H.frame_queue H.queue rfl rfl⟩
  | stopPut =>
    refine H.put stopTask rfl ?_ rfl rfl
    by_cases hret : (ringbufferPut s.tasks stopTask).2 = 0 <;> simp [Event.toPool, hret]
  | stopPhase => exact ⟨p, .inl ⟨rfl, rfl⟩, H.frame_queue H.queue rfl rfl⟩
  | stopReturn => exact ⟨p, .inl ⟨rfl, rfl⟩, H.frame_queue H.queue rfl rfl⟩
  | startAgain => exact ⟨p, .inl ⟨rfl, rfl⟩, H⟩
  | @start created hlen hrunning =>
    obtain ⟨workers, heq, -⟩ := startLoop_eq { s with running := true } 0 0 created
    rw [heq]
    refine ⟨p, .inl ⟨rfl, rfl⟩, H.frame rfl rfl ?_ ?_⟩
    · intro tid t' ht' hpc'
      rw [List.getElem?_append] at ht'
      split at ht'
      · exact ⟨t', ht', hpc', rfl, fun _ hj => hj⟩
      · obtain ⟨w, -, -, rfl⟩ := mem_startThreads (List.mem_of_getElem? ht')
        simp [Thread.spawn, Pc.holds] at hpc'
    · intro tid t ht hpc
      refine ⟨t, ?_, hpc, rfl⟩
      rw [List.getElem?_append_left (List.getElem?_eq_some_iff.mp ht).1, ht]

theorem Embodies.of_started {n cap : ℕ} (hfit : SlotsFit cap taskDataSize) :
    (started n cap : Executor ι β).Embodies cap .empty := by
  obtain ⟨workers, heq, -⟩ := started_eq (ι := ι) (β := β) n cap
  rw [heq]
  refine ⟨⟨.empty, RingBuffer.holds_init (by decide) hfit rfl, rfl⟩, rfl, ?_, ?_⟩
  · intro tid t ht hpc
    obtain ⟨w, -, -, rfl⟩ := mem_startThreads (List.mem_of_getElem? ht)
    simp [Thread.spawn, Pc.holds] at hpc
  · intro k j hj
    simp [TaskPool.empty] at hj

/-- The executor simulates the pool, whatever its runs are admitted for. -/
def simulation (ok : Move (Executor ι β) (Action ι β) (Event ι β) → Prop) {n cap : ℕ}
    (hfit : SlotsFit cap taskDataSize) :
    Simulation (executorSystem ι β) ok (started n cap)
      (poolSystem (TaskFunction ι) (TaskCollect ι) β cap) (fun _ => True) .empty Event.toPool where
  rel _ s p := s.Embodies cap p
  init := .of_started hfit
  step _ _ hrel _ hs := hrel.step (step_cases hs) _

end Executor

/-- **The executor is a task pool.** What every run shows is what a run of the pool shows,
and the threads, the tickets and the ring buffer are in its state. -/
theorem executor_refines_pool [Payload β] {n cap : ℕ} {h : List (Event ι β)} {s : Executor ι β}
    (hfit : SlotsFit cap taskDataSize)
    (hr : (executorSystem ι β).Reach (fun _ => True) (Executor.started n cap) h s) :
    ∃ p, (poolSystem (TaskFunction ι) (TaskCollect ι) β cap).Reach (fun _ => True) .empty
      (h.filterMap Event.toPool) p ∧ s.Embodies cap p :=
  (Executor.simulation _ hfit).reach hr

/-- One worker, one slot, and a task that its worker collects. -/
theorem executor_refines_pool_one_task : ∃ (h : List (Event Unit (List UInt8)))
    (s : Executor Unit (List UInt8)) (p : TaskPool (TaskFunction Unit) (TaskCollect Unit) (List UInt8)),
    h.any Event.isCollectCall = true ∧
      (poolSystem (TaskFunction Unit) (TaskCollect Unit) (List UInt8) 1).Reach (fun _ => True) .empty
        (h.filterMap Event.toPool) p ∧ s.Embodies 1 p := by
  obtain ⟨h, s, hr, hcollect⟩ := Lts.exists_reach_of_exec (executorSystem Unit (List UInt8))
    (fun _ => true) (Executor.started 1 1) (dispatchSteps [1] 0 ++ runSteps 0 0 [2])
    (fun h _ => h.any Event.isCollectCall) (by decide)
  obtain ⟨p, hp, hrel⟩ := executor_refines_pool (by decide : SlotsFit (1 : ℕ) taskDataSize)
    (hr.mono fun _ _ => trivial)
  exact ⟨h, s, p, hcollect, hp, hrel⟩

end Vmon
