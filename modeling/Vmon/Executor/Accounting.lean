import Vmon.Executor.Tickets

/-!
# Every accepted task is run once

Where the slot offsets of the task queue fit an `int`, the ring buffer holds at any
time what was accepted and not yet taken. With the passes of the tickets this
accounts for every accepted task: who took it, what its functions were called with,
and in which order.

A task function may write to its data, and `collect` sees what `work` left there.

## Main definitions

* `Queued` — the queue holds what was accepted and not taken.
* `Embedded` — the data of every accepted dispatch fits in its task.
* `TaskAccounting` — the promise of the pool; `task_accounting` proves it.
-/

namespace Vmon

variable {ι β : Type} [Payload β]

/-! ## The task queue -/

section Queue

variable {cap : ℕ} {h es : List (Event ι β)} {s s' : Executor ι β} {a : Action ι β}

/-- The task queue holds what was accepted and not yet taken. -/
def Queued (cap : ℕ) (h : List (Event ι β)) (s : Executor ι β) : Prop :=
  ∃ q : BoundedQueue (TaskData ι β) cap, s.tasks.Holds q ∧ accepted h = takenTasks h ++ q.elems

namespace Queued

/-- A step that neither puts nor gets. -/
theorem frame (H : Queued cap h s) (htasks : s'.tasks = s.tasks)
    (hacc : submissions es = []) (htaken : takenTasks es = []) : Queued cap (h ++ es) s' := by
  obtain ⟨q, hq, hlaw⟩ := H
  exact ⟨q, htasks ▸ hq, by simp [accepted, hacc, htaken, ← hlaw]⟩

/-- A put, whose event reports what it returned. -/
theorem put (H : Queued cap h s) (sub : Submission ι β)
    (htasks : s'.tasks = (ringbufferPut s.tasks sub.task).1)
    (hacc : submissions es = if (ringbufferPut s.tasks sub.task).2 = 0 then [sub] else [])
    (htaken : takenTasks es = []) : Queued cap (h ++ es) s' := by
  obtain ⟨q, hq, hlaw⟩ := H
  rcases hq.put_cases sub.task with ⟨-, hput⟩ | ⟨q', helems, hret, hq'⟩
  · rw [hput] at htasks hacc
    exact ⟨q, htasks ▸ hq, by simpa [accepted, hacc, htaken] using hlaw⟩
  · rw [if_pos hret] at hacc
    refine ⟨q', htasks ▸ hq', ?_⟩
    rw [accepted_append, hlaw, takenTasks_append, htaken, helems]
    simp [accepted, hacc]

/-- Where the queue is intact, no thread copies out bytes that are no task. -/
theorem getSection_ne (H : Queued cap h s) (pc : Pc) (rb : RingBuffer (TaskData ι β)) :
    Executor.getSection pc s.tasks ≠ (rb, .done none) := by
  obtain ⟨q, hq, -⟩ := H
  rcases Executor.getSection_cases hq pc with ⟨-, rb', hget, -⟩ | ⟨_, _, _, -, hget, -⟩ <;>
    simp [hget]

theorem step (H : Queued cap h s) (hs : s.Steps a s' es) : Queued cap (h ++ es) s' := by
  cases hs with
  | @wait tid t rb ht hpc hget =>
    obtain ⟨q, hq, hlaw⟩ := H
    rcases Executor.getSection_cases hq t.pc with
      ⟨-, rb', hget', hq'⟩ | ⟨_, _, _, -, hget', -⟩
    · obtain ⟨rfl, -⟩ := Prod.mk.inj (hget.symm.trans hget')
      exact ⟨q, hq', by simpa using hlaw⟩
    · simp [hget'] at hget
  | @take tid t rb task ht hpc hget =>
    obtain ⟨q, hq, hlaw⟩ := H
    rcases Executor.getSection_cases hq t.pc with
      ⟨-, rb', hget', -⟩ | ⟨task', q', rb', helems, hget', hq'⟩
    · simp [hget'] at hget
    · simp only [hget', Prod.mk.injEq, GetOutcome.done.injEq, Option.some.injEq] at hget
      obtain ⟨rfl, rfl⟩ := hget
      exact ⟨q', hq', by simpa [helems] using hlaw⟩
  | takeUndefined ht hpc hget => exact absurd hget (H.getSection_ne _ _)
  | dispatchPut hcall => exact H.put (.dispatch _) rfl (submissions_dispatched ..) rfl
  | stopPut hcall hj => exact H.put .stop rfl (submissions_stopPut _) rfl
  | refuse hcaller hcheck =>
    have hret := Executor.dispatchCheck_error hcheck
    exact H.frame rfl (by simp [hret]) rfl
  | fire => exact H.frame (by simp) rfl rfl
  | start hlen hrunning =>
    obtain ⟨workers, heq, -⟩ := Executor.startLoop_eq { s with running := true } 0 0 _
    exact H.frame (by rw [heq]) rfl rfl
  | _ => exact H.frame rfl rfl rfl

theorem of_started {n : ℕ} (hfit : SlotsFit cap taskDataSize) :
    Queued cap [] (Executor.started n cap : Executor ι β) := by
  obtain ⟨workers, heq, -⟩ := Executor.started_eq (ι := ι) (β := β) n cap
  rw [heq]
  exact ⟨.empty, RingBuffer.holds_init (by decide) hfit rfl, by simp⟩

end Queued

/-- The tasks in the queue: accepted, and not handed out. -/
def queued (h : List (Event ι β)) : List (TaskData ι β) :=
  (accepted h).drop (takenTasks h).length

namespace Queued

theorem queued_eq (H : Queued cap h s) : ∃ q : BoundedQueue (TaskData ι β) cap,
    s.tasks.Holds q ∧ queued h = q.elems := by
  obtain ⟨q, hq, hlaw⟩ := H
  exact ⟨q, hq, by simp [queued, hlaw]⟩

theorem queued_append (H : Queued cap h s) (htaken : takenTasks es = []) :
    queued (h ++ es) = queued h ++ accepted es := by
  obtain ⟨q, -, hlaw⟩ := H
  simp [queued, htaken, hlaw]

/-- What a get hands out is the head of the queue. -/
theorem queued_take (H : Queued cap h s) {pc : Pc} {rb : RingBuffer (TaskData ι β)}
    {task : TaskData ι β} (hget : Executor.getSection pc s.tasks = (rb, .done (some task)))
    (tid k : ℕ) : queued h = task :: queued (h ++ [.taken tid k task]) := by
  obtain ⟨q, hq, hlaw⟩ := H
  rcases Executor.getSection_cases hq pc with ⟨-, rb', hget', -⟩ | ⟨task', q', rb', helems, hget', -⟩
  · simp [hget'] at hget
  · obtain rfl : task' = task := by simpa [hget'] using congrArg Prod.snd hget
    simp [queued, hlaw, helems]

end Queued

theorem queued_of_reach {ok : Move (Executor ι β) (Action ι β) (Event ι β) → Prop} {n : ℕ}
    (hfit : SlotsFit cap taskDataSize)
    (hr : (executorSystem ι β).Reach ok (Executor.started n cap) h s) : Queued cap h s :=
  Lts.Reach.invariant (.of_started hfit)
    (fun _ _ _ _ _ _ H _ hs => H.step (Executor.step_cases hs)) hr

end Queue

/-! ## The data of a task -/

section Embed

variable {h es : List (Event ι β)} {s s' : Executor ι β} {a : Action ι β}

/-- The data of every accepted dispatch, and of every one about to put its task,
fits in the task. -/
structure Embedded (h : List (Event ι β)) (s : Executor ι β) : Prop where
  accepted : ∀ args, .dispatch args ∈ submissions h → Payload.size args.data ≤ taskDataEmbedMaxSize
  calls : ∀ caller args, .dispatch caller args ∈ s.calls →
    Payload.size args.data ≤ taskDataEmbedMaxSize

namespace Embedded

/-- A step that accepts nothing and makes no call. -/
theorem frame (H : Embedded h s) (hacc : submissions es = [])
    (hcalls : ∀ caller args, .dispatch caller args ∈ s'.calls → .dispatch caller args ∈ s.calls) :
    Embedded (h ++ es) s' :=
  ⟨fun args hargs => H.accepted args (by simpa [hacc] using hargs),
    fun caller args hargs => H.calls caller args (hcalls caller args hargs)⟩

theorem step (H : Embedded h s) (hs : s.Steps a s' es) : Embedded (h ++ es) s' := by
  cases hs with
  | refuse hcaller hcheck =>
    exact H.frame (by simp [Executor.dispatchCheck_error hcheck]) fun _ _ hc => hc
  | @enter caller args task hcaller hcheck =>
    refine ⟨fun args' hargs => H.accepted args' (by simpa using hargs), fun caller' args' hc => ?_⟩
    rcases List.mem_append.mp hc with hc | hc
    · exact H.calls caller' args' hc
    · obtain ⟨rfl, rfl⟩ : caller' = caller ∧ args' = args := by simpa using hc
      exact (Executor.dispatchCheck_ok hcheck).2.1
  | @dispatchPut i caller args hcall =>
    refine ⟨fun args' hargs => ?_, fun _ _ hc => H.calls _ _ (List.mem_of_mem_eraseIdx hc)⟩
    rw [submissions_append, submissions_dispatched] at hargs
    rcases List.mem_append.mp hargs with hargs | hargs
    · exact H.accepted args' hargs
    · split at hargs <;> simp only [List.mem_singleton, Submission.dispatch.injEq,
        List.not_mem_nil] at hargs
      rw [hargs]
      exact H.calls caller args (List.mem_of_getElem? hcall)
  | stop => exact H.frame rfl (by simp)
  | stopPut =>
    refine ⟨fun args' hargs => H.accepted args' ?_, fun caller args' hc => H.calls caller args' ?_⟩
    · rw [submissions_append, submissions_stopPut] at hargs
      rcases List.mem_append.mp hargs with hargs | hargs
      · exact hargs
      · split at hargs <;> simp at hargs
    · exact (List.mem_or_eq_of_mem_set hc).resolve_right (by simp)
  | stopPhase =>
    exact H.frame rfl fun _ _ hc => (List.mem_or_eq_of_mem_set hc).resolve_right (by simp)
  | stopReturn => exact H.frame rfl fun _ _ hc => List.mem_of_mem_eraseIdx hc
  | fire => exact H.frame rfl (by simp)
  | start hlen hrunning =>
    obtain ⟨workers, heq, -⟩ := Executor.startLoop_eq { s with running := true } 0 0 _
    exact H.frame rfl fun _ _ hc => by rwa [heq] at hc
  | _ => exact H.frame rfl fun _ _ hc => hc

end Embedded

theorem embedded_of_reach {ok : Move (Executor ι β) (Action ι β) (Event ι β) → Prop} {n cap : ℕ}
    (hr : (executorSystem ι β).Reach ok (Executor.started n cap) h s) : Embedded h s := by
  refine Lts.Reach.invariant ⟨by simp, fun caller args hc => ?_⟩
    (fun _ _ _ _ _ _ H _ hs => H.step (Executor.step_cases hs)) hr
  obtain ⟨workers, heq, -⟩ := Executor.started_eq (ι := ι) (β := β) n cap
  rw [heq] at hc
  simp [Executor.executorInit] at hc

end Embed

/-! ## The promise -/

/-- What the pool promises of the tasks, after the history `h`. A ticket is the
position of a task both among the accepted tasks and among those handed out. -/
structure TaskAccounting (h : List (Event ι β)) (s : Executor ι β) : Prop where
  /-- What was accepted is what was handed out, then what is queued. -/
  accepted_eq : (accepted h).map some = (takenTasks h).map some ++ s.tasks.heldElems
  accepted_size : ∀ args, .dispatch args ∈ submissions h →
    Payload.size args.data ≤ taskDataEmbedMaxSize
  /-- Each task handed out went to one thread, and no two threads have the same. -/
  one_taker : ∀ k < (takenTasks h).length, ∃! tid, ∃ task, .taken tid k task ∈ h
  one_holder : ∀ (tid tid' : ℕ) (t t' : Thread ι β), s.threads[tid]? = some t →
    s.threads[tid']? = some t' → t.pc.holds = true → t'.pc.holds = true →
    t.ticket = t'.ticket → tid = tid'
  work_once : ∀ k, (ticketEvents h k).countP Event.isWorkCall ≤ 1
  collect_once : ∀ k, (ticketEvents h k).countP Event.isCollectCall ≤ 1
  /-- A work call is that of an accepted task, by the thread that took it, with the
  data that came with the task. -/
  work_call : ∀ tid k work data, .workCalled tid k work data ∈ h →
    ∃ sub, (submissions h)[k]? = some sub ∧ .taken tid k sub.task ∈ h ∧
      work = sub.task.td.work ∧ data = sub.data
  /-- A collect call is that of an accepted task, by the thread that took it, after
  the return of its work call, with what that returned and left in the data. -/
  collect_call : ∀ h₁ h₂ tid k collect data error timeout,
    h = h₁ ++ .collectCalled tid k collect data error timeout :: h₂ →
    .workReturned tid k error data ∈ h₁ ∧
    ∃ sub, (submissions h)[k]? = some sub ∧ .taken tid k sub.task ∈ h ∧
      collect = sub.task.td.collect

section Promise

variable {cap : ℕ} {h : List (Event ι β)} {s : Executor ι β}

/-- The task with ticket `k` is the `k`-th that was accepted. -/
theorem Queued.submission_of_taken (H : Queued cap h s) {k : ℕ} {task : TaskData ι β}
    (hk : (takenTasks h)[k]? = some task) :
    ∃ sub, (submissions h)[k]? = some sub ∧ sub.task = task := by
  obtain ⟨q, -, hlaw⟩ := H
  have hacc : (accepted h)[k]? = some task := by
    rw [hlaw, List.getElem?_append_left (List.getElem?_eq_some_iff.mp hk).1, hk]
  simpa [accepted, List.getElem?_map, Option.map_eq_some_iff] using hacc

theorem taskAccounting_of_invariants (HT : Tickets h s) (HQ : Queued cap h s)
    (HE : Embedded h s) : TaskAccounting h s where
  accepted_eq := by
    obtain ⟨q, hq, hlaw⟩ := HQ
    rw [hq.heldElems_eq, hlaw, List.map_append]
  accepted_size := HE.accepted
  one_taker k hk := by
    obtain ⟨tid, hlife⟩ := HT.cycle k _ (List.getElem?_eq_getElem hk)
    refine ⟨tid, ⟨_, (mem_ticketEvents.mp (List.mem_of_mem_head? hlife.head)).1⟩, ?_⟩
    rintro tid' ⟨task', hmem⟩
    exact (hlife.mem_taken (mem_ticketEvents.mpr ⟨hmem, rfl⟩)).1
  one_holder _ _ _ _ ht ht' hpc hpc' hticket := HT.tid_eq ht ht' hpc hpc' hticket
  work_once k := by
    by_cases hk : k < (takenTasks h).length
    · obtain ⟨tid, hlife⟩ := HT.cycle k _ (List.getElem?_eq_getElem hk)
      exact hlife.countP_isWorkCall_le
    · simp [HT.fresh k (by rw [← HT.count]; omega)]
  collect_once k := by
    by_cases hk : k < (takenTasks h).length
    · obtain ⟨tid, hlife⟩ := HT.cycle k _ (List.getElem?_eq_getElem hk)
      exact hlife.countP_isCollectCall_le
    · simp [HT.fresh k (by rw [← HT.count]; omega)]
  work_call tid k work data he := by
    obtain ⟨tid', task, htask, hlife, hmem⟩ := HT.pass_of_mem he rfl
    obtain ⟨sub, hsub, rfl⟩ := HQ.submission_of_taken htask
    obtain ⟨rfl, rfl, rfl⟩ := hlife.mem_workCalled (mem_ticketEvents.mpr ⟨he, rfl⟩)
    exact ⟨sub, hsub, hmem, rfl, sub.task_arg⟩
  collect_call h₁ h₂ tid k collect data error timeout heq := by
    obtain ⟨tid', task, htask, hlife, hmem⟩ := HT.pass_of_mem (k := k)
      (e := .collectCalled tid k collect data error timeout) (by rw [heq]; simp) rfl
    obtain ⟨sub, hsub, rfl⟩ := HQ.submission_of_taken htask
    have hsplit : ticketEvents h k = ticketEvents h₁ k ++
        .collectCalled tid k collect data error timeout :: ticketEvents h₂ k := by
      simp [heq, ticketEvents, Event.pass]
    rw [hsplit] at hlife
    obtain ⟨rfl, rfl, hbefore⟩ := hlife.before_collectCalled
    have hreturned : .workReturned tid k error data ∈ ticketEvents h₁ k := by
      simp [hbefore, passReturned]
    exact ⟨(mem_ticketEvents.mp hreturned).1, sub, hsub, hmem, rfl⟩

end Promise

/-! ## Explicit runs -/

/-- A client dispatches a task with the data `data`. -/
def dispatchSteps (data : List UInt8) (timeout : ℤ) : List (Action Unit (List UInt8)) :=
  [.dispatch .client ⟨(), (), data, timeout⟩, .call 0]

/-- Thread `tid` takes a task and runs it, up to its call of `collect`. The work
function returns `ret` and leaves `data` in its argument. -/
def runSteps (tid : ℕ) (ret : ℤ) (data : List UInt8) : List (Action Unit (List UInt8)) :=
  List.replicate 4 (Action.thread tid) ++ [Action.workReturn tid ret data] ++
    List.replicate 3 (Action.thread tid)

/-! ## What does not hold -/

section Failures

/-- A client that dispatches again and again, while no worker runs. -/
private theorem reach_dispatches (cap : ℕ) (args : DispatchArgs Unit (List UInt8))
    (hsize : args.data.length ≤ taskDataEmbedMaxSize) (k : ℕ) (hk : k ≤ cap) :
    ∃ h s, (executorSystem Unit (List UInt8)).Reach (fun _ => True) (Executor.started 1 cap) h s ∧
      accepted h = List.replicate k (dispatchTask args) ∧ takenTasks h = [] ∧ s.calls = [] ∧
      s.running = true ∧
      RingBuffer.AfterPuts cap taskDataSize (List.replicate k (dispatchTask args)) s.tasks := by
  induction k with
  | zero => exact ⟨[], _, .init, rfl, rfl, rfl, rfl, .init rfl⟩
  | succ k ih =>
    obtain ⟨h, s, hr, hacc, htaken, hcalls, hrunning, H⟩ := ih (by omega)
    obtain ⟨hret, H'⟩ := H.put (dispatchTask args) (by rw [List.length_replicate]; omega)
    have hcheck : Executor.dispatchCheck true args = .ok (dispatchTask args) := by
      have : ¬taskDataEmbedMaxSize < Payload.size args.data := not_lt.mpr hsize
      simp [Executor.dispatchCheck, this]
    have hcall : (executorSystem Unit (List UInt8)).step s (.dispatch .client args) =
        some ({ s with calls := [.dispatch .client args] }, []) := by
      simp [executorSystem, Executor.step, Executor.mayDispatch, hrunning, hcheck, hcalls]
    have hput : (executorSystem Unit (List UInt8)).step
        { s with calls := [.dispatch .client args] } (.call 0) =
        some ({ s with tasks := (ringbufferPut s.tasks (dispatchTask args)).1, calls := [] },
          [.dispatched .client args 0]) := by
      simp [executorSystem, Executor.step, Executor.callStep, hret]
    refine ⟨_, _, (hr.step trivial hcall).step trivial hput, ?_, ?_, rfl, hrunning, ?_⟩
    · simp [hacc, List.replicate_succ']
    · simp [htaken]
    · rwa [List.replicate_succ']

/-- The `collect` function of some task gets other data than was dispatched. -/
private theorem exists_rewritten : ∃ h s, (executorSystem Unit (List UInt8)).Reach (fun _ => True)
      (Executor.started 1 1) h s ∧
    (h.any fun
      | .collectCalled _ 0 _ data _ _ => data == [2]
      | _ => false) = true ∧
    ((submissions h)[0]?.any fun
      | .dispatch args => args.data == [1]
      | .stop => false) = true := by
  obtain ⟨h, s, hr, hp⟩ := Lts.exists_reach_of_exec (executorSystem Unit (List UInt8))
    (fun _ => true) (Executor.started 1 1) (dispatchSteps [1] 0 ++ runSteps 0 0 [2])
    (fun h _ => (h.any fun
      | .collectCalled _ 0 _ data _ _ => data == [2]
      | _ => false) && ((submissions h)[0]?.any fun
      | .dispatch args => args.data == [1]
      | .stop => false)) (by decide)
  exact ⟨h, s, hr.mono fun _ _ => trivial, by simpa using hp⟩

end Failures

/-- **Every accepted task is accounted for**, in every run of a started executor
whose queue has slots that fit an `int`. -/
theorem task_accounting {n cap : ℕ} {h : List (Event ι β)} {s : Executor ι β}
    (hfit : SlotsFit cap taskDataSize)
    (hr : (executorSystem ι β).Reach (fun _ => True) (Executor.started n cap) h s) :
    TaskAccounting h s :=
  taskAccounting_of_invariants (tickets_of_reach hr) (queued_of_reach hfit hr)
    (embedded_of_reach hr)

/-- One worker, one slot, and one task that its worker collects. -/
theorem task_accounting_one_task : ∃ (h : List (Event Unit (List UInt8)))
    (s : Executor Unit (List UInt8)), h.any Event.isCollectCall = true ∧ TaskAccounting h s := by
  obtain ⟨h, s, hr, hcollect⟩ := Lts.exists_reach_of_exec (executorSystem Unit (List UInt8))
    (fun _ => true) (Executor.started 1 1) (dispatchSteps [1] 0 ++ runSteps 0 0 [2])
    (fun h _ => h.any Event.isCollectCall) (by decide)
  exact ⟨h, s, hcollect,
    task_accounting (by decide : SlotsFit (1 : ℕ) taskDataSize) (hr.mono fun _ _ => trivial)⟩

/-- A work function may write to its data before `collect` sees them, and a queue of
more than `2 ^ 24` slots loses what it accepts. -/
theorem task_accounting_fails :
    (¬∀ h s, (executorSystem Unit (List UInt8)).Reach (fun _ => True) (Executor.started 1 1) h s →
      ∀ tid k collect data error timeout args,
        .collectCalled tid k collect data error timeout ∈ h →
        (submissions h)[k]? = some (.dispatch args) → data = args.data) ∧
    (¬∀ h s, (executorSystem Unit (List UInt8)).Reach (fun _ => True)
      (Executor.started 1 (2 ^ 24 + 1)) h s →
      (accepted h).map some = (takenTasks h).map some ++ s.tasks.heldElems) := by
  constructor
  · intro hall
    obtain ⟨h, s, hr, hcollect, hsub⟩ := exists_rewritten
    rw [List.any_eq_true] at hcollect
    obtain ⟨e, he, hcollect⟩ := hcollect
    rw [Option.any_eq_true] at hsub
    obtain ⟨sub, hsub, hdata⟩ := hsub
    split at hcollect <;> simp only [beq_iff_eq, Bool.false_eq_true] at hcollect
    split at hdata <;> simp only [beq_iff_eq, Bool.false_eq_true] at hdata
    have := hall h s hr _ _ _ _ _ _ _ he hsub
    simp [hcollect, hdata] at this
  · intro hall
    obtain ⟨h, s, hr, hacc, htaken, -, -, H⟩ :=
      reach_dispatches (2 ^ 24 + 1) ⟨(), (), [], 0⟩ (by decide) (2 ^ 24 + 1) le_rfl
    have hheld := hall h s hr
    rw [hacc, htaken, List.map_nil, List.nil_append] at hheld
    rw [List.replicate_succ'] at H hheld
    exact H.lost_of_negative (by rw [List.length_replicate]; norm_num)
      (by rw [List.length_replicate]; decide) hheld.symm

end Vmon
