import Vmon.Executor.Pool
import Vmon.Lib.Settling

/-!
# The executor settles

No thread of the executor is ever stuck. As long as nobody stops it, the workers and the calls
under way need only be left to themselves, in whatever order they move, whatever the task functions
return and whichever timers fire among them: after a bounded number of moves, unless every worker
has left, all of them wait on an empty queue, and every task that was ever accepted has been
collected (`executor_settles`). It does not matter what happened before: which threads were
replaced, and which puts found the queue full.

## Main definitions

* `Executor.AtRest` — nothing is left to do.
* `Closing` — the moves that the executor makes by itself.
* `Executor.work` — how many of them there can be.
* `Executor.Serviced` — what holds as long as nobody stops the executor.
-/

namespace Vmon

variable {ι β : Type}

/-! ## What is left to do -/

/-- The number of statements that a worker runs until it waits again. -/
def Pc.work : Pc → ℕ
  | .waiting | .exited | .undefined => 0
  | .get => 1
  | .collecting => 2
  | .finished => 3
  | .deleting => 4
  | .cleared => 5
  | .worked => 6
  | .working => 7
  | .ready => 8
  | .armed => 9
  | .got => 12

namespace Executor

/-- A task in the queue takes a get and what follows it, and a call its put besides. A timer fires,
and may start a thread, which looks for a task. -/
def work (s : Executor ι β) : ℕ :=
  13 * s.tasks.used.toNat + 14 * s.calls.length + 2 * s.timers.length +
    (s.threads.map fun t => t.pc.work).sum

/-- No call is under way, the queue is empty, and every worker waits, or has left. -/
structure AtRest (s : Executor ι β) : Prop where
  calls : s.calls = []
  queue : rbIsEmpty s.tasks = true
  threads : ∀ t ∈ s.threads, t.pc = .waiting ∨ t.pc = .exited

/-- Some worker has not left. -/
def Staffed (s : Executor ι β) : Prop := ∃ t ∈ s.threads, t.pc ≠ .exited

end Executor

/-- The moves of the workers, of the calls under way and of the timers: no one dispatches or starts
anything, nor does a work function, and a thread that waits is not woken for nothing. -/
def Closing (m : Move (Executor ι β) (Action ι β) (Event ι β)) : Prop :=
  match m.action with
  | .thread tid => ∀ t ∈ m.pre.threads[tid]?, t.pc = .waiting → rbIsEmpty m.pre.tasks = false
  | .workReturn .. | .collectReturn .. | .call _ | .fire .. => True
  | .dispatch .. | .stop _ | .start _ => False

/-- Nobody calls `executor_stop`. -/
def NoStop (m : Move (Executor ι β) (Action ι β) (Event ι β)) : Prop := ∀ wait, m.action ≠ .stop wait

theorem sum_map_set {α : Type} {l : List α} {i : ℕ} {x : α} (hi : l[i]? = some x) (f : α → ℕ) (z : α) :
    ((l.set i z).map f).sum + f x = (l.map f).sum + f z := by
  induction l generalizing i with
  | nil => simp at hi
  | cons y l ih =>
    cases i with
    | zero =>
      obtain rfl : y = x := by simpa using hi
      simp only [List.set_cons_zero, List.map_cons, List.sum_cons]
      omega
    | succ i =>
      have hrest := ih (i := i) (by simpa using hi)
      simp only [List.set_cons_succ, List.map_cons, List.sum_cons]
      omega

namespace Executor

/-! ## As long as nobody stops it -/

theorem mem_markCurrent {threads : List (Thread ι β)} {current : Option ℕ} {t' : Thread ι β}
    (h : t' ∈ markCurrent threads current) :
    ∃ t ∈ threads, t'.wo = t.wo ∧ (t'.pc = .undefined → t.pc = .undefined) := by
  cases current with
  | none => exact ⟨t', h, rfl, id⟩
  | some tid =>
    obtain ⟨i, hi⟩ := List.getElem?_of_mem h
    rw [markCurrent, getElem?_modify_some] at hi
    rcases hi with ⟨-, t, ht, rfl⟩ | ⟨-, ht⟩
    · exact ⟨t, List.mem_of_getElem? ht, rfl, id⟩
    · exact ⟨t', List.mem_of_getElem? ht, rfl, id⟩

/-- The slots are there for the threads, no thread copied bytes that are no task, and no stop task
was ever put. -/
structure Serviced (h : List (Event ι β)) (s : Executor ι β) : Prop where
  slots : s.workers.length = s.workersCount
  wo_lt : ∀ t ∈ s.threads, t.wo < s.workersCount
  defined : ∀ t ∈ s.threads, t.pc ≠ .undefined
  calls : ∀ wait phase, Call.stop wait phase ∉ s.calls
  puts : ∀ ret, .stopPut ret ∉ h

namespace Serviced

variable {h es : List (Event ι β)} {s s' : Executor ι β}

/-- A step that makes no stop task. -/
theorem frame (H : Serviced h s) (hputs : ∀ ret, .stopPut ret ∉ es)
    (hcount : s'.workersCount = s.workersCount) (hslots : s'.workers.length = s.workers.length)
    (hcalls : ∀ wait phase, Call.stop wait phase ∈ s'.calls → Call.stop wait phase ∈ s.calls)
    (hthreads : ∀ t' ∈ s'.threads, (∃ t ∈ s.threads, t'.wo = t.wo ∧
      (t'.pc = .undefined → t.pc = .undefined)) ∨ t'.wo < s.workersCount ∧ t'.pc = .get) :
    Serviced (h ++ es) s' where
  slots := by rw [hslots, hcount, H.slots]
  wo_lt t' ht' := by
    rw [hcount]
    rcases hthreads t' ht' with ⟨t, ht, hwo, -⟩ | ⟨hlt, -⟩
    · rw [hwo]
      exact H.wo_lt t ht
    · exact hlt
  defined t' ht' hpc := by
    rcases hthreads t' ht' with ⟨t, ht, -, hundef⟩ | ⟨-, hget⟩
    · exact H.defined t ht (hundef hpc)
    · rw [hget] at hpc
      cases hpc
  calls wait phase hmem := H.calls wait phase (hcalls wait phase hmem)
  puts ret hmem := by
    rcases List.mem_append.mp hmem with hmem | hmem
    · exact H.puts ret hmem
    · exact hputs ret hmem

/-- A statement of one thread. -/
theorem move (H : Serviced h s) {tid : ℕ} {t t' : Thread ι β} (ht : s.threads[tid]? = some t)
    (hputs : ∀ ret, .stopPut ret ∉ es) (hcount : s'.workersCount = s.workersCount)
    (hslots : s'.workers.length = s.workers.length) (hcalls : s'.calls = s.calls)
    (hthreads : s'.threads = s.threads.set tid t') (hwo : t'.wo = t.wo) (hpc : t'.pc ≠ .undefined) :
    Serviced (h ++ es) s' := by
  refine H.frame hputs hcount hslots (fun _ _ hmem => hcalls ▸ hmem) fun t₁ ht₁ => .inl ?_
  rw [hthreads] at ht₁
  rcases List.mem_or_eq_of_mem_set ht₁ with hmem | rfl
  · exact ⟨t₁, hmem, rfl, id⟩
  · exact ⟨t, List.mem_of_getElem? ht, hwo, fun hundef => absurd hundef hpc⟩

variable [Payload β] {a : Action ι β} {cap : ℕ} {q : BoundedQueue (TaskData ι β) cap}

theorem step (H : Serviced h s) (hq : s.tasks.Holds q) (hs : s.Steps a s' es)
    (hstop : ∀ wait, a ≠ .stop wait) : Serviced (h ++ es) s' := by
  cases hs with
  | wait ht => exact H.move ht (by simp) rfl rfl rfl rfl rfl (by simp)
  | take ht => exact H.move ht (by simp) rfl rfl rfl rfl rfl (by simp)
  | @takeUndefined tid t rb ht hpc hget =>
    rcases getSection_cases hq t.pc with ⟨-, _, hget', -⟩ | ⟨_, _, _, -, hget', -⟩ <;>
      simp [hget'] at hget
  | arm ht => exact H.move ht (by simp) rfl (List.length_modify ..) rfl rfl rfl (by simp)
  | setCurrent ht => exact H.move ht (by simp) rfl (List.length_modify ..) rfl rfl rfl (by simp)
  | clearCurrent ht => exact H.move ht (by simp) rfl (List.length_modify ..) rfl rfl rfl (by simp)
  | skipTimer ht => exact H.move ht (by simp) rfl rfl rfl rfl rfl (by simp)
  | callWork ht => exact H.move ht (by simp) rfl rfl rfl rfl rfl (by simp)
  | returnWork ht => exact H.move ht (by simp) rfl rfl rfl rfl rfl (by simp)
  | keepTimer ht => exact H.move ht (by simp) rfl rfl rfl rfl rfl (by simp)
  | dropTimer ht => exact H.move ht (by simp) rfl rfl rfl rfl rfl (by simp)
  | deleteTimer ht => exact H.move ht (by simp) rfl rfl rfl rfl rfl (by simp)
  | callCollect ht => exact H.move ht (by simp) rfl rfl rfl rfl rfl (by simp)
  | loop ht => exact H.move ht (by simp) rfl rfl rfl rfl rfl (by simp)
  | exit ht => exact H.move ht (by simp) rfl rfl rfl rfl rfl (by simp)
  | @fire id created tm w =>
    by_cases hid : w.id < s.workersCount
    · rw [workerDiscard_of_lt hid]
      refine H.frame (by simp) rfl (List.length_modify ..) (fun _ _ h => h) fun t' ht' => ?_
      rcases List.mem_append.mp ht' with ht' | ht'
      · exact .inl (mem_markCurrent ht')
      · obtain rfl : t' = Thread.spawn w.id := by cases created <;> simp_all
        exact .inr ⟨hid, rfl⟩
    · rw [workerDiscard_of_not_lt hid]
      exact H.frame (by simp) rfl rfl (fun _ _ h => h) fun t' ht' => .inl (mem_markCurrent ht')
  | refuse => exact H.frame (by simp) rfl rfl (fun _ _ h => h) fun t ht => .inl ⟨t, ht, rfl, id⟩
  | enter => exact H.frame (by simp) rfl rfl (by simp) fun t ht => .inl ⟨t, ht, rfl, id⟩
  | dispatchPut => 
    exact H.frame (by simp) rfl rfl (fun _ _ => List.mem_of_mem_eraseIdx)
      fun t ht => .inl ⟨t, ht, rfl, id⟩
  | stop => exact absurd rfl (hstop _)
  | stopPut hcall => exact absurd (List.mem_of_getElem? hcall) (H.calls _ _)
  | stopPhase hcall => exact absurd (List.mem_of_getElem? hcall) (H.calls _ _)
  | stopReturn hcall => exact absurd (List.mem_of_getElem? hcall) (H.calls _ _)
  | startAgain => exact H.frame (by simp) rfl rfl (fun _ _ h => h) fun t ht => .inl ⟨t, ht, rfl, id⟩
  | @start created hlen hrunning =>
    obtain ⟨workers, heq, hworkers, -⟩ := startLoop_eq { s with running := true } 0 0 created
    rw [heq]
    refine H.frame (by simp) rfl hworkers (fun _ _ h => h) fun t' ht' => ?_
    rcases List.mem_append.mp ht' with ht' | ht'
    · exact .inl ⟨t', ht', rfl, id⟩
    · obtain ⟨w, -, hw, rfl⟩ := mem_startThreads ht'
      have hlt : w < s.workersCount := by omega
      exact .inr ⟨hlt, rfl⟩

theorem of_started (n cap : ℕ) : Serviced [] (started n cap : Executor ι β) := by
  obtain ⟨workers, heq, hlen, -⟩ := started_eq (ι := ι) (β := β) n cap
  rw [heq]
  have hthreads : ∀ t ∈ (startThreads 0 (List.replicate n true) : List (Thread ι β)),
      t.wo < n ∧ t.pc = .get := by
    intro t ht
    obtain ⟨w, -, hw, rfl⟩ := mem_startThreads ht
    have hlt : w < n := by simpa using hw
    exact ⟨hlt, rfl⟩
  refine ⟨hlen, fun t ht => (hthreads t ht).1, fun t ht hpc => ?_, by simp [executorInit], by simp⟩
  rw [(hthreads t ht).2] at hpc
  cases hpc

end Serviced

variable {cap : ℕ} {h es : List (Event ι β)} {s s' : Executor ι β} {tid : ℕ} {t t' : Thread ι β}

/-- Then every task that a worker has is one of a client. -/
theorem Serviced.client [Payload β] {p : TaskPool (TaskFunction ι) (TaskCollect ι) β}
    (H : Serviced h s) (hp : s.Embodies cap p) (hlaws : p.Laws cap (h.filterMap Event.toPool))
    (ht : s.threads[tid]? = some t) (hpc : t.pc.holds = true) :
    ∃ f, t.task.td.collect = .client f := by
  obtain ⟨j, hj, -, hrun⟩ := hp.held tid t ht hpc
  have hmem : j.task ∈ (h.filterMap Event.toPool).filterMap PoolEvent.acceptedTask := by
    rw [hlaws.fifo]
    exact List.mem_append_left _ (List.mem_map_of_mem (List.mem_of_getElem? hj))
  obtain ⟨e', he', hacc⟩ := List.mem_filterMap.mp hmem
  obtain ⟨e, he, htoPool⟩ := List.mem_filterMap.mp he'
  rw [hrun.collect]
  cases e <;> simp only [Event.toPool, Option.some.injEq, reduceCtorEq, Option.ite_none_right_eq_some]
    at htoPool
  case dispatched caller args ret =>
    obtain ⟨-, rfl⟩ := htoPool
    have htask : (dispatchTask args).toPool = j.task := by simpa [PoolEvent.acceptedTask] using hacc
    rw [← htask]
    exact ⟨args.collect, rfl⟩
  case stopPut ret => exact absurd he (H.puts ret)
  all_goals
    subst htoPool
    cases hacc

/-! ## One move -/

theorem work_set (ht : s.threads[tid]? = some t) (hthreads : s'.threads = s.threads.set tid t')
    (htasks : s'.tasks.used = s.tasks.used) (hcalls : s'.calls = s.calls)
    (hlt : 2 * s'.timers.length + t'.pc.work < 2 * s.timers.length + t.pc.work) :
    s'.work < s.work := by
  have hsum := sum_map_set ht (fun t : Thread ι β => t.pc.work) t'
  rw [work, work, hthreads, htasks, hcalls]
  omega

theorem staffed_set (ht : s.threads[tid]? = some t) (hthreads : s'.threads = s.threads.set tid t')
    (hpc : t'.pc ≠ .exited) : s'.Staffed := by
  have hlt := (List.getElem?_eq_some_iff.mp ht).1
  refine ⟨t', ?_, hpc⟩
  rw [hthreads]
  exact List.mem_of_getElem? (List.getElem?_set_self hlt)

variable [Payload β] {a : Action ι β} {q : BoundedQueue (TaskData ι β) cap}

/-- A timer that fires is gone. -/
theorem work_fire {id : ℕ} {tm : Timer} (htm : tm ∈ s.timers) (hid : tm.id = id) (w : Worker)
    (created : Bool) :
    work { (s.workerDiscard w created).1 with timers := s.timers.filter fun tm => tm.id != id } <
      s.work := by
  obtain ⟨pcs, hpcs, hnew⟩ := workerDiscard_pcs s w created
  have htimers : (s.timers.filter fun tm => tm.id != id).length < s.timers.length :=
    List.length_filter_lt_length_iff_exists.mpr ⟨tm, htm, by simp [hid]⟩
  have hsum : ∀ threads : List (Thread ι β),
      (threads.map fun t => t.pc.work).sum = ((threads.map Thread.pc).map Pc.work).sum := by
    intro threads
    rw [List.map_map]
    rfl
  have hwork : (pcs.map Pc.work).sum ≤ 1 := by rcases hnew with rfl | rfl <;> simp [Pc.work]
  simp only [work, hsum, hpcs, workerDiscard_tasks, workerDiscard_calls, List.map_append,
    List.sum_append]
  omega

/-- **A closing move takes something from the work.** -/
theorem work_lt (H : Serviced h s) (hq : s.tasks.Holds q) (hs : s.Steps a s' es)
    {g : List (Event ι β)} (hclosing : Closing ⟨g, s, a⟩) : s'.work < s.work := by
  cases hs with
  | @wait tid t rb ht hpc hget =>
    rcases getSection_cases hq t.pc with ⟨hnil, rb', hget', hq'⟩ | ⟨_, _, _, -, hget', -⟩
    · obtain ⟨rfl, -⟩ := Prod.mk.inj (hget.symm.trans hget')
      have hused : rb.used = s.tasks.used := by rw [hq'.used_eq, hq.used_eq]
      rcases hpc with hpc | hpc
      · exact work_set ht rfl hused rfl (by simp [hpc, Pc.work])
      · -- nobody wakes a thread for nothing
        have hsome := hclosing t ht hpc
        rw [hq.isEmpty_iff.mpr hnil] at hsome
        cases hsome
    · simp [hget'] at hget
  | @take tid t rb task ht hpc hget =>
    rcases getSection_cases hq t.pc with ⟨-, _, hget', -⟩ | ⟨task', q', rb', helems, hget', hq'⟩
    · simp [hget'] at hget
    · obtain ⟨rfl, -⟩ := Prod.mk.inj (hget.symm.trans hget')
      have hsum := sum_map_set ht (fun t : Thread ι β => t.pc.work)
        { t with pc := .got, task := task, err := 0, ticket := s.taken }
      have hused : s.tasks.used.toNat = rb.used.toNat + 1 := by
        rw [hq'.used_eq, hq.used_eq, helems]
        simp
      have hgot : Pc.got.work = 12 := rfl
      simp only [work, setThread] at hsum ⊢
      omega
  | @takeUndefined tid t rb ht hpc hget =>
    rcases getSection_cases hq t.pc with ⟨-, _, hget', -⟩ | ⟨_, _, _, -, hget', -⟩ <;>
      simp [hget'] at hget
  | arm ht hpc =>
    refine work_set ht rfl rfl rfl ?_
    simp only [setThread_timers, setWorker_timers, schedulerAdd, List.length_append,
      List.length_singleton, hpc, Pc.work]
    omega
  | skipTimer ht hpc => exact work_set ht rfl rfl rfl (by simp [hpc, Pc.work])
  | setCurrent ht hpc => exact work_set ht rfl rfl rfl (by simp [hpc, Pc.work])
  | callWork ht hpc => exact work_set ht rfl rfl rfl (by simp [hpc, Pc.work])
  | returnWork ht hpc => exact work_set ht rfl rfl rfl (by simp [hpc, Pc.work])
  | clearCurrent ht hpc => exact work_set ht rfl rfl rfl (by simp [hpc, Pc.work])
  | keepTimer ht hpc => exact work_set ht rfl rfl rfl (by simp [hpc, Pc.work])
  | dropTimer ht hpc => exact work_set ht rfl rfl rfl (by simp [hpc, Pc.work])
  | @deleteTimer tid t w ht hpc =>
    refine work_set ht rfl rfl rfl ?_
    have hle := List.length_filter_le (fun tm : Timer => tm.id != w.schedId) s.timers
    simp only [setThread_timers, schedulerDel, hpc, Pc.work]
    omega
  | callCollect ht hpc => exact work_set ht rfl rfl rfl (by simp [hpc, Pc.work])
  | loop ht hpc => exact work_set ht rfl rfl rfl (by simp [hpc, Pc.work])
  | exit ht hpc => exact work_set ht rfl rfl rfl (by simp [hpc, Pc.work])
  | fire htm hid => exact work_fire htm hid _ _
  | @dispatchPut i caller args hcall =>
    have hlt := (List.getElem?_eq_some_iff.mp hcall).1
    have hlen : (s.calls.eraseIdx i).length + 1 = s.calls.length := by
      rw [List.length_eraseIdx, if_pos hlt]
      omega
    have hused : (ringbufferPut s.tasks (dispatchTask args)).1.used.toNat ≤
        s.tasks.used.toNat + 1 := by
      rcases hq.put_cases (dispatchTask args) with ⟨-, hput⟩ | ⟨q', helems, -, hq'⟩
      · rw [hput]
        exact Nat.le_succ _
      · rw [hq'.used_eq, hq.used_eq, helems]
        simp
    simp only [work]
    omega
  | stopPut hcall => exact absurd (List.mem_of_getElem? hcall) (H.calls _ _)
  | stopPhase hcall => exact absurd (List.mem_of_getElem? hcall) (H.calls _ _)
  | stopReturn hcall => exact absurd (List.mem_of_getElem? hcall) (H.calls _ _)
  | refuse | enter | stop | startAgain | start => exact hclosing.elim

/-- Where collect functions report no error, no worker leaves. -/
theorem Steps.staffed (hs : s.Steps a s' es) (hstaffed : s.Staffed)
    (hclient : ∀ (tid : ℕ) (t : Thread ι β), s.threads[tid]? = some t → t.pc.holds = true →
      ∃ f, t.task.td.collect = .client f)
    (hreturn : ∀ tid ret, a = .collectReturn tid ret → ret = 0) : s'.Staffed := by
  have hpcs : ∀ pcs, s'.threads.map Thread.pc = s.threads.map Thread.pc ++ pcs → s'.Staffed := by
    intro pcs hpcs
    obtain ⟨t, ht, hpc⟩ := hstaffed
    have hmem : t.pc ∈ s'.threads.map Thread.pc := by
      rw [hpcs]
      exact List.mem_append_left _ (List.mem_map_of_mem ht)
    obtain ⟨t', ht', heq⟩ := List.mem_map.mp hmem
    exact ⟨t', ht', by rwa [heq]⟩
  cases hs with
  | wait ht => exact staffed_set ht rfl (by simp)
  | take ht => exact staffed_set ht rfl (by simp)
  | takeUndefined ht => exact staffed_set ht rfl (by simp)
  | arm ht => exact staffed_set ht rfl (by simp)
  | skipTimer ht => exact staffed_set ht rfl (by simp)
  | setCurrent ht => exact staffed_set ht rfl (by simp)
  | callWork ht => exact staffed_set ht rfl (by simp)
  | returnWork ht => exact staffed_set ht rfl (by simp)
  | clearCurrent ht => exact staffed_set ht rfl (by simp)
  | keepTimer ht => exact staffed_set ht rfl (by simp)
  | dropTimer ht => exact staffed_set ht rfl (by simp)
  | deleteTimer ht => exact staffed_set ht rfl (by simp)
  | callCollect ht => exact staffed_set ht rfl (by simp)
  | loop ht => exact staffed_set ht rfl (by simp)
  | @exit tid t ret ht hpc hret =>
    obtain ⟨f, hf⟩ := hclient tid t ht (by rw [hpc]; rfl)
    refine absurd ?_ hret
    obtain rfl := hreturn tid ret rfl
    simp [collectResult, hf]
  | @fire id created tm w =>
    obtain ⟨pcs, hpcs', -⟩ := workerDiscard_pcs s w created
    exact hpcs pcs hpcs'
  | @start created =>
    obtain ⟨workers, heq, -⟩ := startLoop_eq { s with running := true } 0 0 created
    rw [heq] at hpcs ⊢
    exact hpcs _ List.map_append
  | _ => exact hstaffed

/-- A pool of workers is staffed at its start. -/
theorem staffed_of_started {n : ℕ} (hn : 0 < n) (cap : ℕ) : (started n cap : Executor ι β).Staffed := by
  obtain ⟨workers, heq, -⟩ := started_eq (ι := ι) (β := β) n cap
  rw [heq]
  cases n with
  | zero => cases hn
  | succ n => exact ⟨Thread.spawn 0, List.mem_cons_self, by simp [Thread.spawn]⟩

/-- A worker that has not left, and waits for nothing, runs its next statement or returns from the
task function that it is inside. -/
theorem exists_thread_step (H : Serviced h s) (hcalls : s.calls = [])
    (ht : s.threads[tid]? = some t) (hexited : t.pc ≠ .exited)
    (hwaiting : t.pc = .waiting → rbIsEmpty s.tasks = false) (g : List (Event ι β)) :
    ∃ a s' es, Closing ⟨g, s, a⟩ ∧ (executorSystem ι β).step s a = some (s', es) := by
  have hgo : ∀ a, Closing ⟨g, s, a⟩ → (s.step a).isSome = true →
      ∃ a s' es, Closing ⟨g, s, a⟩ ∧ (executorSystem ι β).step s a = some (s', es) := by
    intro a hclosing hsome
    obtain ⟨⟨s', es⟩, hs⟩ := Option.isSome_iff_exists.mp hsome
    exact ⟨a, s', es, hclosing, hs⟩
  have hthread : (s.threadStep tid t).isSome = true →
      ∃ a s' es, Closing ⟨g, s, a⟩ ∧ (executorSystem ι β).step s a = some (s', es) := by
    intro hsome
    refine hgo (.thread tid) (fun u hu => ?_) (by simpa [Executor.step, ht] using hsome)
    obtain rfl : t = u := by simpa [ht] using hu
    exact hwaiting
  have hcalling : s.calling tid = false := by simp [calling, hcalls]
  cases hpc : t.pc with
  | exited => exact absurd hpc hexited
  | undefined => exact absurd hpc (H.defined t (List.mem_of_getElem? ht))
  | working => exact hgo (.workReturn tid 0 t.task.arg) trivial (by simp [Executor.step, ht, hpc, hcalling])
  | collecting => exact hgo (.collectReturn tid 0) trivial (by simp [Executor.step, ht, hpc])
  | got =>
    refine hthread ?_
    simp only [threadStep, hpc]
    split <;> rfl
  | deleting =>
    have hwo : t.wo < s.workers.length := by
      rw [H.slots]
      exact H.wo_lt t (List.mem_of_getElem? ht)
    exact hthread (by simp [threadStep, hpc, List.getElem?_eq_getElem hwo])
  | get | waiting | armed | ready | worked | cleared | finished =>
    exact hthread (by simp [threadStep, hpc])

/-- **Short of rest something can move.** -/
theorem exists_step (H : Serviced h s) (hstaffed : s.Staffed)
    (hrest : ¬s.AtRest) (g : List (Event ι β)) :
    ∃ a s' es, Closing ⟨g, s, a⟩ ∧ (executorSystem ι β).step s a = some (s', es) := by
  cases hcalls : s.calls with
  | cons call calls =>
    -- the first call puts its task
    cases call with
    | dispatch caller args =>
      have hsome : (s.step (.call 0)).isSome = true := by simp [Executor.step, hcalls, callStep]
      obtain ⟨⟨s', es⟩, hs⟩ := Option.isSome_iff_exists.mp hsome
      exact ⟨.call 0, s', es, trivial, hs⟩
    | stop wait phase => exact absurd (by simp [hcalls]) (H.calls wait phase)
  | nil =>
    cases hempty : rbIsEmpty s.tasks with
    | false =>
      -- any worker has something to do
      obtain ⟨t, ht, hpc⟩ := hstaffed
      obtain ⟨tid, ht⟩ := List.getElem?_of_mem ht
      exact exists_thread_step H hcalls ht hpc (fun _ => hempty) g
    | true =>
      have hbusy : ∃ t ∈ s.threads, t.pc ≠ .waiting ∧ t.pc ≠ .exited := by
        by_contra hnone
        push Not at hnone
        refine hrest ⟨hcalls, hempty, fun t ht => ?_⟩
        by_cases hpc : t.pc = .waiting
        · exact .inl hpc
        · exact .inr (hnone t ht hpc)
      obtain ⟨t, ht, hwaiting, hexited⟩ := hbusy
      obtain ⟨tid, ht⟩ := List.getElem?_of_mem ht
      exact exists_thread_step H hcalls ht hexited (fun hpc => absurd hpc hwaiting) g

end Executor

/-! ## Every run -/

theorem Closing.noStop {m : Move (Executor ι β) (Action ι β) (Event ι β)} (h : Closing m) :
    NoStop m := by
  intro wait hstop
  rw [Closing, hstop] at h
  exact h

/-- At rest, every task that was taken is collected, and none waits. -/
theorem Executor.AtRest.done {cap : ℕ} {s : Executor ι β}
    {p : TaskPool (TaskFunction ι) (TaskCollect ι) β} (H : s.AtRest) (hp : s.Embodies cap p) :
    p.queue = [] ∧ ∀ j ∈ p.jobs, ∃ ret data timeout err, j.stage = .done ret data timeout err := by
  constructor
  · obtain ⟨q, hq, hqueue⟩ := hp.queue
    rw [hqueue, hq.isEmpty_iff.mp H.queue]
    rfl
  · intro j hj
    obtain ⟨k, hk⟩ := List.getElem?_of_mem hj
    cases hover : j.stage.isOver with
    | true =>
      unfold Stage.isOver at hover
      split at hover
      · exact ⟨_, _, _, _, ‹_›⟩
      · cases hover
    | false =>
      obtain ⟨t, ht, hpc, hticket⟩ := hp.busy k j hk hover
      obtain ⟨j', hj', -, hrun⟩ := hp.held j.owner t ht hpc
      obtain rfl : j = j' := by
        rw [hticket, hk] at hj'
        exact Option.some.inj hj'
      rcases H.threads t (List.mem_of_getElem? ht) with hwaiting | hexited
      · rw [hwaiting] at hpc
        cases hpc
      · have hstage := hrun.stage
        simp only [Thread.AtStage, hexited] at hstage
        obtain ⟨ret, data, timeout, hdone, -⟩ := hstage
        exact ⟨ret, data, timeout, _, hdone⟩

variable [Payload β] {n cap : ℕ} {h : List (Event ι β)} {s : Executor ι β}

theorem serviced_of_reach (hfit : SlotsFit cap taskDataSize)
    (hr : (executorSystem ι β).Reach NoStop (Executor.started n cap) h s) :
    Executor.Serviced h s := by
  refine Lts.Reach.invariant (.of_started n cap) ?_ hr
  intro h s a s' es hr H hok hs
  obtain ⟨p, -, hp⟩ := executor_refines_pool hfit (hr.mono fun _ _ => trivial)
  obtain ⟨q, hq, -⟩ := hp.queue
  exact H.step hq (Executor.step_cases hs) hok

/-- **The executor settles.** As long as nobody stops it and nobody dispatches, at most `s.work`
moves are left to its workers, calls and timers, in whatever order they come and whatever the task
functions return, and where they end all is at rest, unless every worker has left. At rest every
task it ever accepted has been taken and collected. -/
theorem executor_settles (hfit : SlotsFit cap taskDataSize)
    (hr : (executorSystem ι β).Reach NoStop (Executor.started n cap) h s) :
    (executorSystem ι β).Settles Closing (fun s => s.Staffed → s.AtRest) s s.work ∧
      ∀ h' s', (executorSystem ι β).Reach Closing s h' s' → s'.AtRest →
        ∃ p, (poolSystem (TaskFunction ι) (TaskCollect ι) β cap).Reach (fun _ => True) .empty
            ((h ++ h').filterMap Event.toPool) p ∧
          p.queue = [] ∧ ∀ j ∈ p.jobs, ∃ ret data timeout err, j.stage = .done ret data timeout err := by
  constructor
  · refine Lts.settles_of_measure (I := fun s =>
      ∃ h, (executorSystem ι β).Reach NoStop (Executor.started n cap) h s) ⟨h, hr⟩ ?_ ?_
    · rintro g s a s' es ⟨h, hr⟩ hclosing hs
      obtain ⟨p, hreach, hp⟩ := executor_refines_pool hfit (hr.mono fun _ _ => trivial)
      obtain ⟨q, hq, -⟩ := hp.queue
      have H := serviced_of_reach hfit hr
      exact ⟨⟨_, hr.step (Closing.noStop (m := ⟨h, s, a⟩) hclosing) hs⟩,
        Executor.work_lt H hq (Executor.step_cases hs) hclosing⟩
    · rintro g s ⟨h, hr⟩ hgoal
      rw [Classical.not_imp] at hgoal
      exact Executor.exists_step (serviced_of_reach hfit hr) hgoal.1 hgoal.2 g
  · intro h' s' hr' hrest
    have hall : (executorSystem ι β).Reach (fun _ => True) (Executor.started n cap) (h ++ h') s' :=
      (hr.trans hr' fun m hm => Closing.noStop (m := m) hm).mono fun _ _ => trivial
    obtain ⟨p, hreach, hp⟩ := executor_refines_pool hfit hall
    exact ⟨p, hreach, hrest.done hp⟩

/-- A worker whose time-out fired in its work function, the worker that replaced it, and one more
task in the queue. -/
theorem executor_settles_replaced : ∃ (h : List (Event Unit (List UInt8)))
    (s : Executor Unit (List UInt8)), s.threads.length = 2 ∧ s.work = 21 ∧
      ∃ h' s', (executorSystem Unit (List UInt8)).Reach Closing s h' s' ∧
        (s'.Staffed → s'.AtRest ∧ ∃ p, (poolSystem (TaskFunction Unit) (TaskCollect Unit)
            (List UInt8) 1).Reach (fun _ => True) .empty ((h ++ h').filterMap Event.toPool) p ∧
          p.queue = [] ∧ ∀ j ∈ p.jobs, ∃ ret data timeout err,
            j.stage = .done ret data timeout err) := by
  obtain ⟨h, s, hr, hp⟩ := Lts.exists_reach_of_exec (executorSystem Unit (List UInt8))
    (fun m => match m.action with
      | .stop _ => false
      | _ => true) (Executor.started 1 1)
    (dispatchSteps [1] 1000 ++ List.replicate 4 (Action.thread 0) ++ [Action.fire 1 true] ++
      dispatchSteps [2] 0)
    (fun _ s => s.threads.length == 2 && s.work == 21) (by decide)
  rw [Bool.and_eq_true, beq_iff_eq, beq_iff_eq] at hp
  have hstop : (executorSystem Unit (List UInt8)).Reach NoStop (Executor.started 1 1) h s := by
    refine hr.mono fun m hm wait hstop => ?_
    rw [hstop] at hm
    cases hm
  obtain ⟨hsettles, hdone⟩ := executor_settles (by decide : SlotsFit (1 : ℕ) taskDataSize) hstop
  obtain ⟨h', s', hr', hrest⟩ := hsettles.exists_reach
  exact ⟨h, s, hp.1, hp.2, h', s', hr', fun hstaffed =>
    ⟨hrest hstaffed, hdone h' s' hr' (hrest hstaffed)⟩⟩

end Vmon
