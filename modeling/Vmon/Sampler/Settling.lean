import Vmon.Executor.Settling
import Vmon.Sampler.Books
import Vmon.Sampler.Threads

/-!
# The sampler settles

A work function of the sampler may dispatch tasks of its own, one for each domain that libvirt
lists, and a collect function goes over as many records as libvirt returned. While libvirt answers
with at most `N` entries, all of this is bounded: each step takes something from the work that is
left (`Daemon.work_lt`). And no thread is ever stuck inside a task function, whatever libvirt
answers (`Daemon.exists_step`).

## Main definitions

* `Daemon.Closing` — the moves that the daemon makes by itself.
* `Daemon.load`, `Daemon.work` — how many of them there can be.
* `Daemon.Placed` — the frames are those of the functions that the threads are inside.
* `Daemon.Able` — what holds as long as nobody stops the daemon.
-/

namespace Vmon

variable {δ : Type}

/-- libvirt answers with at most `N` domains, or records. -/
structure Env.Within (N : ℕ) (env : Env δ) : Prop where
  listed : ∀ flags domains, env.conn.listAllDomains flags = some domains → domains.length ≤ N
  sampled : ∀ stats records, env.conn.getAllDomainStats stats = some records → records.length ≤ N
  queried : ∀ domains stats records, env.conn.domainListGetStats domains stats = some records →
    records.length ≤ N

/-- The moves of the workers, of the calls under way and of the timers, where the environment is
one of `answers`. -/
def Daemon.Closing (answers : Env δ → Prop) (s : Daemon δ) : SamplerAction δ → Prop
  | .thread tid => ∀ t ∈ s.exc.threads[tid]?, t.pc = .waiting → rbIsEmpty s.exc.tasks = false
  | .work _ env | .collect _ env | .call _ env => answers env
  | .fire .. => True
  | .send _ | .stop _ | .start _ => False

/-! ## What is left to do -/

section Load

variable (N : ℕ)

/-- A task asks for its records and goes over them, or lists the domains, dispatches a task for
each, and goes over none. Its other moves are those of the executor. -/
def taskLoad (task : TaskData SamplerFunction (VmonRequest δ)) : ℕ :=
  match task.td.work with
  | .client .listDomainsWork => N * (N + 16) + 2
  | _ => N + 1

/-- After the return of the work function. -/
def reportLoad (task : TaskData SamplerFunction (VmonRequest δ)) : ℕ := task.arg.reported.length + 1

def threadLoad (t : Thread SamplerFunction (VmonRequest δ)) (frame : Frame δ) : ℕ :=
  match t.pc with
  | .got | .armed | .ready => taskLoad N t.task
  | .working =>
    match frame with
    | .listing domains _ => domains.length * (N + 16) + 1
    | _ => taskLoad N t.task
  | .worked | .cleared | .deleting | .finished => reportLoad t.task
  | .collecting =>
    match frame with
    | .reporting _ records => records.length
    | _ => reportLoad t.task
  | .get | .waiting | .exited | .undefined => 0

def callLoad : Call SamplerFunction (VmonRequest δ) → ℕ
  | .dispatch _ args => taskLoad N (dispatchTask args)
  | .stop _ _ => 0

namespace Daemon

/-- What the tasks make the sampler do. -/
def load (s : Daemon δ) : ℕ :=
  (s.exc.tasks.heldElems.map fun task => (task.map (taskLoad N)).getD 0).sum +
    (s.exc.calls.map (callLoad N)).sum + s.sumThreads (threadLoad N)

/-- What they make the daemon do. -/
def work (s : Daemon δ) : ℕ := s.exc.work + s.load N

end Daemon

end Load

namespace Daemon

variable {ctx : VmonContext} {N cap : ℕ} {s s' : Daemon δ}
  {q q' : BoundedQueue (TaskData SamplerFunction (VmonRequest δ)) cap}

theorem load_eq (hq : s.exc.tasks.Holds q) :
    s.load N = (q.elems.map (taskLoad N)).sum + (s.exc.calls.map (callLoad N)).sum +
      s.sumThreads (threadLoad N) := by
  have hmap : (fun task : Option (TaskData SamplerFunction (VmonRequest δ)) =>
      (task.map (taskLoad N)).getD 0) ∘ some = taskLoad N := rfl
  rw [load, hq.heldElems_eq, List.map_map, hmap]

/-- One thread moves, and takes `k` from what its task makes it do. -/
theorem load_set (hq : s.exc.tasks.Holds q) (hq' : s'.exc.tasks.Holds q') {tid k : ℕ}
    {t t' : Thread SamplerFunction (VmonRequest δ)} (ht : s.exc.threads[tid]? = some t)
    (hthreads : s'.exc.threads = s.exc.threads.set tid t')
    (hcalls : s'.exc.calls = s.exc.calls) (hframes : ∀ j, j ≠ tid → s'.frames j = s.frames j)
    (hle : (q'.elems.map (taskLoad N)).sum + threadLoad N t' (s'.frames tid) + k ≤
      (q.elems.map (taskLoad N)).sum + threadLoad N t (s.frames tid)) :
    s'.load N + k ≤ s.load N := by
  have hset := sumThreads_set (threadLoad N) ht hthreads hframes
  rw [load_eq hq, load_eq hq', hcalls]
  omega

/-- A thread moves that leaves the queue alone. -/
theorem load_move (hq : s.exc.tasks.Holds q) {tid k : ℕ}
    {t t' : Thread SamplerFunction (VmonRequest δ)} (ht : s.exc.threads[tid]? = some t)
    (hthreads : s'.exc.threads = s.exc.threads.set tid t') (hcalls : s'.exc.calls = s.exc.calls)
    (htasks : s'.exc.tasks = s.exc.tasks) (hframes : ∀ j, j ≠ tid → s'.frames j = s.frames j)
    (hle : threadLoad N t' (s'.frames tid) + k ≤ threadLoad N t (s.frames tid)) :
    s'.load N + k ≤ s.load N := by
  refine load_set hq (htasks ▸ hq) ht hthreads hcalls hframes ?_
  omega

/-- A thread goes to another frame. -/
theorem load_setFrame (hq : s.exc.tasks.Holds q) {tid k : ℕ}
    {t : Thread SamplerFunction (VmonRequest δ)} (ht : s.exc.threads[tid]? = some t)
    {frame : Frame δ} (hle : threadLoad N t frame + k ≤ threadLoad N t (s.frames tid)) :
    (s.setFrame tid frame).load N + k ≤ s.load N := by
  refine load_move hq ht (set_of_getElem? ht).symm rfl rfl
    (fun j hj => Function.update_of_ne hj _ _) ?_
  rwa [setFrame_frames, Function.update_self]

/-- A statement of a thread outside the task functions. -/
theorem load_thread (hq : s.exc.tasks.Holds q) {tid : ℕ} {exc : SamplerExecutor δ}
    {es : List (ExecutorEvent δ)} (hs : s.exc.Steps (.thread tid) exc es) :
    (s.after exc es).load N ≤ s.load N := by
  cases hs with
  | @wait _ t rb ht hpc hget =>
    rcases Executor.getSection_cases hq t.pc with ⟨-, rb', hget', hq'⟩ | ⟨_, _, _, -, hget', -⟩
    · obtain rfl : rb = rb' := by simpa using congrArg Prod.fst (hget.symm.trans hget')
      refine load_set (k := 0) hq hq' ht rfl rfl (fun _ _ => rfl) ?_
      simp [threadLoad]
    · simp [hget'] at hget
  | @take _ t rb task ht hpc hget =>
    rcases Executor.getSection_cases hq t.pc with
      ⟨-, rb', hget', -⟩ | ⟨task', q', rb', helems, hget', hq'⟩
    · simp [hget'] at hget
    · simp only [hget', Prod.mk.injEq, GetOutcome.done.injEq, Option.some.injEq] at hget
      obtain ⟨rfl, rfl⟩ := hget
      refine load_set (k := 0) hq hq' ht rfl rfl (fun _ _ => rfl) ?_
      simp only [helems, threadLoad, List.map_cons, List.sum_cons]
      omega
  | @takeUndefined _ t rb ht hpc hget =>
    rcases Executor.getSection_cases hq t.pc with ⟨-, rb', hget', -⟩ | ⟨_, _, _, -, hget', -⟩ <;>
      simp [hget'] at hget
  | arm ht hpc =>
    exact load_move (k := 0) hq ht rfl rfl rfl (fun _ _ => rfl) (by simp [threadLoad, hpc])
  | skipTimer ht hpc =>
    exact load_move (k := 0) hq ht rfl rfl rfl (fun _ _ => rfl) (by simp [threadLoad, hpc])
  | setCurrent ht hpc =>
    exact load_move (k := 0) hq ht rfl rfl rfl (fun _ _ => rfl) (by simp [threadLoad, hpc])
  | callWork ht hpc =>
    refine load_move (k := 0) hq ht rfl rfl rfl (fun j hj => Function.update_of_ne hj _ _) ?_
    simp [threadLoad, hpc, follow]
  | clearCurrent ht hpc =>
    exact load_move (k := 0) hq ht rfl rfl rfl (fun _ _ => rfl) (by simp [threadLoad, hpc])
  | keepTimer ht hpc =>
    exact load_move (k := 0) hq ht rfl rfl rfl (fun _ _ => rfl) (by simp [threadLoad, hpc])
  | dropTimer ht hpc =>
    exact load_move (k := 0) hq ht rfl rfl rfl (fun _ _ => rfl) (by simp [threadLoad, hpc])
  | deleteTimer ht hpc =>
    exact load_move (k := 0) hq ht rfl rfl rfl (fun _ _ => rfl) (by simp [threadLoad, hpc])
  | callCollect ht hpc =>
    refine load_move (k := 0) hq ht rfl rfl rfl (fun j hj => Function.update_of_ne hj _ _) ?_
    simp [threadLoad, hpc, follow]

/-- The return of a work function that left `req` in its argument. -/
theorem load_workReturn (hq : s.exc.tasks.Holds q) {tid : ℕ}
    {t : Thread SamplerFunction (VmonRequest δ)} (ht : s.exc.threads[tid]? = some t)
    {ret : ℤ} {req : VmonRequest δ} {exc : SamplerExecutor δ} {es : List (ExecutorEvent δ)}
    (hs : s.exc.Steps (.workReturn tid ret req) exc es)
    (hle : (Executor.workResult t ret req).2.reported.length + 1 ≤
      threadLoad N t (s.frames tid)) : (s.after exc es).load N ≤ s.load N := by
  cases hs with
  | @returnWork _ t' _ _ ht' =>
    obtain rfl : t' = t := by simpa [ht] using ht'.symm
    refine load_move (k := 0) hq ht rfl rfl rfl (fun j hj => Function.update_of_ne hj _ _) ?_
    simpa [threadLoad, reportLoad] using hle

theorem load_collectReturn (hq : s.exc.tasks.Holds q) {tid : ℕ} {exc : SamplerExecutor δ}
    {es : List (ExecutorEvent δ)} (hs : s.exc.Steps (.collectReturn tid 0) exc es) :
    (s.after exc es).load N ≤ s.load N := by
  cases hs with
  | loop ht =>
    exact load_move (k := 0) hq ht rfl rfl rfl (fun j hj => Function.update_of_ne hj _ _)
      (by simp [threadLoad])
  | exit ht =>
    exact load_move (k := 0) hq ht rfl rfl rfl (fun j hj => Function.update_of_ne hj _ _)
      (by simp [threadLoad])

/-- The return of `executor_dispatch` gives the loop over the domains its error code. -/
theorem threadLoad_follow (t : Thread SamplerFunction (VmonRequest δ)) (frames : ℕ → Frame δ)
    (caller : Caller) (args : DispatchArgs SamplerFunction (VmonRequest δ)) (ret : ℤ) (tid : ℕ) :
    threadLoad N t (follow frames (.dispatched caller args ret) tid) =
      threadLoad N t (frames tid) := by
  cases caller with
  | client => rfl
  | worker j =>
    cases hframe : frames j with
    | listing domains err =>
      simp only [follow, hframe]
      by_cases hj : tid = j
      · subst hj
        rw [Function.update_self, hframe]
        rfl
      · rw [Function.update_of_ne hj]
    | _ => simp only [follow, hframe]

/-- The threads are where they were. -/
theorem load_calls (hq : s.exc.tasks.Holds q) (hq' : s'.exc.tasks.Holds q')
    (hthreads : s'.exc.threads = s.exc.threads)
    (hframes : ∀ t tid, threadLoad N t (s'.frames tid) = threadLoad N t (s.frames tid))
    (hle : (q'.elems.map (taskLoad N)).sum + (s'.exc.calls.map (callLoad N)).sum ≤
      (q.elems.map (taskLoad N)).sum + (s.exc.calls.map (callLoad N)).sum) :
    s'.load N ≤ s.load N := by
  have hsum : s'.sumThreads (threadLoad N) = s.sumThreads (threadLoad N) := by
    simp only [sumThreads, hthreads, hframes]
  rw [load_eq hq, load_eq hq', hsum]
  omega

/-- A call of `executor_dispatch` puts its task. -/
theorem load_dispatchPut (hq : s.exc.tasks.Holds q) {i : ℕ} {caller : Caller}
    {args : DispatchArgs SamplerFunction (VmonRequest δ)}
    (hcall : s.exc.calls[i]? = some (.dispatch caller args)) (ret : ℤ) :
    (s.after { s.exc with
        tasks := (ringbufferPut s.exc.tasks (dispatchTask args)).1
        calls := s.exc.calls.eraseIdx i } [.dispatched caller args ret]).load N ≤ s.load N := by
  have hcalls := sum_map_eraseIdx (callLoad N) hcall
  simp only [callLoad] at hcalls
  rcases hq.put_cases (dispatchTask args) with ⟨-, hput⟩ | ⟨q', helems, -, hq'⟩
  · rw [hput]
    refine load_calls hq hq rfl (fun t tid => threadLoad_follow t _ _ _ _ _) ?_
    simp only [after_exc]
    omega
  · refine load_calls hq hq' rfl (fun t tid => threadLoad_follow t _ _ _ _ _) ?_
    rw [helems]
    simp only [after_exc, List.map_append, List.sum_append, List.map_singleton, List.sum_singleton]
    omega

/-- A timeout source fires. -/
theorem load_fire (hq : s.exc.tasks.Holds q) {id : ℕ} {created : Bool} {exc : SamplerExecutor δ}
    {es : List (ExecutorEvent δ)} (hs : s.exc.Steps (.fire id created) exc es) :
    (s.after exc es).load N = s.load N := by
  cases hs with
  | @fire _ _ tm w htm hid hw =>
    rw [load_eq hq, load_eq (s := s.after _ _) (q := q) (by simpa using hq)]
    simp only [after_exc, Executor.workerDiscard_calls]
    congr 1
    refine sumThreads_extend ?_ fun tid t' ht' => ?_
    · rw [after_exc]
      by_contra hlt
      have hsome := List.getElem?_eq_getElem (Nat.lt_of_not_le hlt)
      obtain ⟨t', ht', -⟩ := Executor.workerDiscard_kept hsome w created
      simp at ht'
    · rw [after_singleton]
      rcases Executor.workerDiscard_thread ht' with ⟨t, ht, rfl⟩ | ⟨rfl, rfl⟩
      · refine .inl ⟨t, ht, ?_⟩
        split <;> rfl
      · exact .inr ⟨le_rfl, rfl⟩

/-- A call of `executor_dispatch` begins, for one domain of the listing. -/
theorem load_listDispatch (hq : s.exc.tasks.Holds q) {tid : ℕ}
    {t : Thread SamplerFunction (VmonRequest δ)} {dom : δ} {domains : List δ} {err err' : ℤ}
    (ht : s.exc.threads[tid]? = some t) (hpc : t.pc = .working)
    (hframe : s.frames tid = .listing (dom :: domains) err)
    {exc : SamplerExecutor δ} {es : List (ExecutorEvent δ)}
    (hs : s.exc.Steps (.dispatch (.worker tid) (listDomainsDispatch ctx t.task.arg dom)) exc es) :
    ((s.setFrame tid (.listing domains err')).after exc es).work N < s.work N := by
  have hset : s.exc.threads = s.exc.threads.set tid t := (set_of_getElem? ht).symm
  have hself : ∀ frames : ℕ → Frame δ, Function.update frames tid (.listing domains err') tid =
      .listing domains err' := fun _ => Function.update_self ..
  cases hs with
  | @refuse _ _ ret hcaller hcheck =>
    have hload : ((s.setFrame tid (.listing domains err')).after s.exc
        [.dispatched (.worker tid) (listDomainsDispatch ctx t.task.arg dom) ret]).load N + 1 ≤
          s.load N := by
      refine load_move hq ht hset rfl rfl (fun j hj => ?_) ?_
      · simp [follow, Function.update_of_ne hj]
      · rw [after_singleton, threadLoad_follow, setFrame_frames, hself, hframe]
        simp only [threadLoad, hpc, List.length_cons, Nat.add_mul]
        omega
    simp only [work, after_exc]
    omega
  | enter hcaller hcheck =>
    let s' := (s.setFrame tid (.listing domains err')).after { s.exc with calls := s.exc.calls ++
      [.dispatch (.worker tid) (listDomainsDispatch ctx t.task.arg dom)] } []
    have hthreads : s'.sumThreads (threadLoad N) + threadLoad N t (s.frames tid) =
        s.sumThreads (threadLoad N) + threadLoad N t (s'.frames tid) :=
      sumThreads_set (threadLoad N) ht hset fun j hj => Function.update_of_ne hj _ _
    have hframe' : s'.frames tid = .listing domains err' := hself _
    have htask : taskLoad N (dispatchTask (listDomainsDispatch ctx t.task.arg dom)) = N + 1 := rfl
    have hcalls : (s'.exc.calls.map (callLoad N)).sum = (s.exc.calls.map (callLoad N)).sum +
        (N + 1) := by
      simp [s', callLoad, htask]
    have hexc : s'.exc.work = s.exc.work + 14 := by
      simp only [s', after_exc, Executor.work, List.length_append, List.length_singleton]
      omega
    have hload := load_eq (s := s') (N := N) (q := q) hq
    simp only [hframe, hframe', threadLoad, hpc, List.length_cons, Nat.add_mul] at hthreads
    change s'.work N < s.work N
    rw [work, work, hexc, hload, hcalls, load_eq hq]
    omega

/-- **A closing move takes something from the work.** -/
theorem work_lt {answers : Env δ → Prop} (hwithin : ∀ env, answers env → env.Within N)
    {h : List (ExecutorEvent δ)} (H : Executor.Serviced h s.exc) (hq : s.exc.tasks.Holds q)
    (hfresh : s.exc.AllTasks TaskData.Unsampled TaskData.StopsBare) {a : SamplerAction δ}
    {es : List (SamplerEvent δ)} (hs : Steps ctx s a s' es) (hclosing : s.Closing answers a) :
    s'.work N < s.work N := by
  have hrecords : ∀ {tid : ℕ} {t : Thread SamplerFunction (VmonRequest δ)},
      s.exc.threads[tid]? = some t → t.pc = .working → t.task.arg.records = none := by
    intro tid t ht hpc
    have hcarries := hfresh.holder tid t ht
    simp only [Thread.Carries, hpc] at hcarries
    exact hcarries.records
  have hunsampled : ∀ {tid : ℕ} {t : Thread SamplerFunction (VmonRequest δ)},
      s.exc.threads[tid]? = some t → t.pc = .working → t.task.arg.reported = [] := by
    intro tid t ht hpc
    simp [VmonRequest.reported, hrecords ht hpc]
  have hexc : ∀ {b : ExecutorAction δ} {exc : SamplerExecutor δ} {es' : List (ExecutorEvent δ)},
      s.exc.Steps b exc es' → Vmon.Closing ⟨h, s.exc, b⟩ →
      (s.after exc es').load N ≤ s.load N → (s.after exc es').work N < s.work N := by
    intro b exc es' hs hb hload
    have hlt := Executor.work_lt H hq hs hb
    simp only [work, after_exc]
    omega
  have hframe : ∀ {tid : ℕ} {t : Thread SamplerFunction (VmonRequest δ)} {frame : Frame δ},
      s.exc.threads[tid]? = some t → threadLoad N t frame < threadLoad N t (s.frames tid) →
      (s.setFrame tid frame).work N < s.work N := by
    intro tid t frame ht hlt
    have hload := load_setFrame (k := 1) hq ht hlt
    simp only [work, setFrame_exc]
    omega
  cases hs with
  | thread hs => exact hexc hs hclosing (load_thread hq hs)
  | outer ha hs =>
    cases ha with
    | fire => exact hexc hs trivial (load_fire hq hs).le
    | send | stop | start => exact hclosing.elim
  | call hs =>
    refine hexc hs trivial ?_
    cases hs with
    | dispatchPut hcall => exact load_dispatchPut hq hcall _
    | stopPut hcall => exact absurd (List.mem_of_getElem? hcall) (H.calls _ _)
    | stopPhase hcall => exact absurd (List.mem_of_getElem? hcall) (H.calls _ _)
    | stopReturn hcall => exact absurd (List.mem_of_getElem? hcall) (H.calls _ _)
  | @query tid env t f ret exc es ht hpc hwork hframe hquery hs =>
    refine hexc hs trivial (load_workReturn hq ht hs ?_)
    have hresult : (Executor.workResult t 0 (t.task.arg.store ret)).2 = t.task.arg.store ret := by
      simp [Executor.workResult, hwork]
    have hload : threadLoad N t (s.frames tid) = N + 1 := by
      cases hquery <;> simp [threadLoad, hpc, hframe, taskLoad, hwork]
    have hlen : (t.task.arg.store ret).reported.length ≤ N := by
      have hanswer : ∀ records, ret = some records → records.length ≤ N := by
        rintro records rfl
        generalize hret : some records = ret at hquery
        cases hquery with
        | sample => exact (hwithin env hclosing).sampled _ _ hret.symm
        | bulk => exact (hwithin env hclosing).queried _ _ _ hret.symm
      cases ret with
      | none => simp [VmonRequest.reported, VmonRequest.store, hrecords ht hpc]
      | some records => simpa [VmonRequest.reported, VmonRequest.store] using hanswer records rfl
    rw [hresult, hload]
    omega
  | @listFails tid env t exc es ht hpc hwork hframe hlist hs =>
    refine hexc hs trivial (load_workReturn hq ht hs ?_)
    rw [Executor.workResult_arg, hunsampled ht hpc]
    simp [threadLoad, hpc, hframe, taskLoad, hwork]
  | @list tid env t domains ht hpc hwork hworking hlist =>
    refine hframe ht ?_
    have hle := Nat.mul_le_mul_right (N + 16) ((hwithin env hclosing).listed _ _ hlist)
    simp only [threadLoad, hpc, hworking, taskLoad, hwork]
    omega
  | listDispatch ht hpc hwork hlisting hs => exact load_listDispatch hq ht hpc hlisting hs
  | @listReturn tid env t err exc es ht hpc hwork hframe hs =>
    refine hexc hs trivial (load_workReturn hq ht hs ?_)
    rw [Executor.workResult_arg, hunsampled ht hpc]
    simp [threadLoad, hpc, hframe]
  | @stopWork tid env t exc es ht hpc hwork hframe hs =>
    refine hexc hs trivial (load_workReturn hq ht hs ?_)
    rw [Executor.workResult_arg, hunsampled ht hpc]
    simp [threadLoad, hpc, hframe, taskLoad, hwork]
  | collectFails ht hpc hcollect hframe herr hs => exact hexc hs trivial (load_collectReturn hq hs)
  | collectStart ht hpc hcollect hcollecting =>
    refine hframe ht ?_
    simp [threadLoad, hpc, hcollecting, reportLoad]
  | collectRecord ht hpc hcollect hreporting =>
    refine hframe ht ?_
    simp [threadLoad, hpc, hreporting]
  | collectEnd ht hpc hcollect hframe hs => exact hexc hs trivial (load_collectReturn hq hs)
  | stopCollect ht hpc hcollect hs => exact hexc hs trivial (load_collectReturn hq hs)

/-! ## Progress -/

/-- A thread inside a work function is at its start, or in the loop of `list_domains_work`; one
inside a collect function is at its start, or in its loop. -/
def FrameOf (t : Thread SamplerFunction (VmonRequest δ)) (frame : Frame δ) : Prop :=
  match t.pc with
  | .working => frame = .working ∨
      (t.task.td.work = .client .listDomainsWork ∧ ∃ domains err, frame = .listing domains err)
  | .collecting => (∃ error timeout, frame = .collecting error timeout) ∨
      ∃ ts records, frame = .reporting ts records
  | _ => True

/-- The frames are those of the functions that the threads are inside. -/
def Placed (s : Daemon δ) : Prop :=
  ∀ (tid : ℕ) t, s.exc.threads[tid]? = some t → FrameOf t (s.frames tid)

namespace Placed

theorem set (H : s.Placed) {tid : ℕ} {t t' : Thread SamplerFunction (VmonRequest δ)}
    (ht : s.exc.threads[tid]? = some t) (hthreads : s'.exc.threads = s.exc.threads.set tid t')
    (hframes : ∀ j, j ≠ tid → s'.frames j = s.frames j) (hframe : FrameOf t' (s'.frames tid)) :
    s'.Placed := by
  intro j u hu
  rw [hthreads, getElem?_set_some ht] at hu
  rcases hu with ⟨rfl, rfl⟩ | ⟨hj, hu⟩
  · exact hframe
  · rw [hframes j hj]
    exact H j u hu

theorem setFrame (H : s.Placed) {tid : ℕ} {t : Thread SamplerFunction (VmonRequest δ)}
    (ht : s.exc.threads[tid]? = some t) {frame : Frame δ} (hframe : FrameOf t frame) :
    (s.setFrame tid frame).Placed := by
  refine H.set ht (set_of_getElem? ht).symm (fun j hj => Function.update_of_ne hj _ _) ?_
  rwa [setFrame_frames, Function.update_self]

/-- The return of `executor_dispatch` leaves a loop over domains where it is. -/
theorem follow_dispatched (t : Thread SamplerFunction (VmonRequest δ)) {frames : ℕ → Frame δ}
    {tid : ℕ} (h : FrameOf t (frames tid)) (caller : Caller)
    (args : DispatchArgs SamplerFunction (VmonRequest δ)) (ret : ℤ) :
    FrameOf t (follow frames (.dispatched caller args ret) tid) := by
  cases caller with
  | client => exact h
  | worker j =>
    cases hframe : frames j with
    | listing domains err =>
      simp only [follow, hframe]
      by_cases hj : tid = j
      · subst hj
        rw [Function.update_self]
        rw [hframe] at h
        cases hpc : t.pc <;> simp_all [FrameOf]
      · rwa [Function.update_of_ne hj]
    | _ =>
      simp only [follow, hframe]
      exact h

/-- A step of the executor. -/
theorem after (H : s.Placed) {b : ExecutorAction δ} {exc : SamplerExecutor δ}
    {es : List (ExecutorEvent δ)} (hs : s.exc.Steps b exc es) : (s.after exc es).Placed := by
  have hother : ∀ {tid : ℕ} {frame : Frame δ} (j : ℕ), j ≠ tid →
      Function.update s.frames tid frame j = s.frames j :=
    fun j hj => Function.update_of_ne hj _ _
  cases hs with
  | wait ht => exact H.set ht rfl (fun _ _ => rfl) trivial
  | take ht => exact H.set ht rfl (fun _ _ => rfl) trivial
  | takeUndefined ht => exact H.set ht rfl (fun _ _ => rfl) trivial
  | arm ht => exact H.set ht rfl (fun _ _ => rfl) trivial
  | skipTimer ht => exact H.set ht rfl (fun _ _ => rfl) trivial
  | setCurrent ht => exact H.set ht rfl (fun _ _ => rfl) trivial
  | callWork ht => exact H.set ht rfl hother (.inl (Function.update_self ..))
  | returnWork ht => exact H.set ht rfl hother trivial
  | clearCurrent ht => exact H.set ht rfl (fun _ _ => rfl) trivial
  | keepTimer ht => exact H.set ht rfl (fun _ _ => rfl) trivial
  | dropTimer ht => exact H.set ht rfl (fun _ _ => rfl) trivial
  | deleteTimer ht => exact H.set ht rfl (fun _ _ => rfl) trivial
  | callCollect ht => exact H.set ht rfl hother (.inl ⟨_, _, Function.update_self ..⟩)
  | loop ht => exact H.set ht rfl hother trivial
  | exit ht => exact H.set ht rfl hother trivial
  | @fire id created tm w =>
    intro tid t' ht'
    rcases Executor.workerDiscard_thread ht' with ⟨t, ht, rfl⟩ | ⟨rfl, rfl⟩
    · have hframe := H tid t ht
      split
      · exact hframe
      · exact hframe
    · exact trivial
  | dispatchPut => exact fun tid t ht => follow_dispatched t (H tid t ht) _ _ _
  | refuse => exact fun tid t ht => follow_dispatched t (H tid t ht) _ _ _
  | @start created =>
    obtain ⟨workers, heq, -⟩ := Executor.startLoop_eq { s.exc with running := true } 0 0 created
    intro tid t ht
    rw [after_exc, heq] at ht
    by_cases hlt : tid < s.exc.threads.length
    · rw [List.getElem?_append_left hlt] at ht
      exact H tid t ht
    · rw [List.getElem?_append_right (Nat.le_of_not_lt hlt)] at ht
      obtain ⟨w, -, -, rfl⟩ := Executor.mem_startThreads (List.mem_of_getElem? ht)
      exact trivial
  | _ => exact H

theorem step (H : s.Placed) {a : SamplerAction δ} {es : List (SamplerEvent δ)}
    (hs : Steps ctx s a s' es) : s'.Placed := by
  cases hs with
  | thread hs => exact H.after hs
  | outer ha hs => exact H.after hs
  | call hs => exact H.after hs
  | query _ _ _ _ _ hs => exact H.after hs
  | listFails _ _ _ _ _ hs => exact H.after hs
  | list ht hpc hwork =>
    refine H.setFrame ht ?_
    simp only [FrameOf, hpc]
    exact .inr ⟨hwork, _, _, rfl⟩
  | @listDispatch tid env t dom domains err exc es ht hpc hwork hframe hs =>
    have hlisting : FrameOf t (.listing domains err) := by
      simp only [FrameOf, hpc]
      exact .inr ⟨hwork, _, _, rfl⟩
    exact (H.setFrame ht hlisting).after hs
  | listReturn _ _ _ _ hs => exact H.after hs
  | stopWork _ _ _ _ hs => exact H.after hs
  | collectFails _ _ _ _ _ hs => exact H.after hs
  | collectStart ht hpc =>
    refine H.setFrame ht ?_
    simp only [FrameOf, hpc]
    exact .inr ⟨_, _, rfl⟩
  | collectRecord ht hpc =>
    refine H.setFrame ht ?_
    simp only [FrameOf, hpc]
    exact .inr ⟨_, _, rfl⟩
  | collectEnd _ _ _ _ hs => exact H.after hs
  | stopCollect _ _ _ hs => exact H.after hs

theorem of_started (workersCount maxTasks : ℕ) :
    (started workersCount maxTasks : Daemon δ).Placed := by
  obtain ⟨workers, heq, -⟩ :=
    Executor.started_eq (ι := SamplerFunction) (β := VmonRequest δ) workersCount maxTasks
  intro tid t ht
  rw [started, heq] at ht
  obtain ⟨w, -, -, rfl⟩ := Executor.mem_startThreads (List.mem_of_getElem? ht)
  exact trivial

end Placed

end Daemon

/-- Each function of a task is in its place. -/
structure TaskData.Known (task : TaskData SamplerFunction (VmonRequest δ)) : Prop where
  work : task.td.work = .stopWorker ∨ ∃ f, task.td.work = .client f ∧ f ≠ .samplingCollect
  collect : task.td.collect = .client .samplingCollect ∨ task.td.collect = .stopCollect

namespace Daemon

variable {ctx : VmonContext} {s s' : Daemon δ} {a : SamplerAction δ}
  {es : List (SamplerEvent δ)} {tid : ℕ} {t : Thread SamplerFunction (VmonRequest δ)}

theorem Steps.known (hs : Steps ctx s a s' es)
    (H : s.exc.AllTasks TaskData.Known TaskData.Known) :
    s'.exc.AllTasks TaskData.Known TaskData.Known := by
  refine hs.allTasks H ⟨.inl rfl, .inr rfl⟩ ?_ ?_ ?_ ?_ ?_
  · exact fun task => ⟨fun h => ⟨h.work, h.collect⟩, fun h => ⟨h.work, h.collect⟩⟩
  · intro req _
    refine ⟨.inr ⟨_, rfl, ?_⟩, .inl rfl⟩
    simp only [samplerSendRequest]
    split <;> simp
  · exact fun task dom _ _ => ⟨.inr ⟨_, rfl, by simp [listDomainsDispatch]⟩, .inl rfl⟩
  · exact fun task env f ret h _ _ => ⟨by simpa using h.work, by simpa using h.collect⟩
  · exact fun task h _ => ⟨by simpa using h.work, by simpa using h.collect⟩

/-- A thread inside a work function goes on, whatever libvirt answers. -/
theorem work_isSome (env : Env δ) (ht : s.exc.threads[tid]? = some t) (hpc : t.pc = .working)
    (hcalling : s.exc.calling tid = false)
    (hwork : t.task.td.work = .stopWorker ∨ ∃ f, t.task.td.work = .client f ∧ f ≠ .samplingCollect)
    (hframe : FrameOf t (s.frames tid)) : (s.step ctx (.work tid env)).isSome = true := by
  have hreturn : ∀ before ret req,
      (s.passAfter before (.workReturn tid ret req)).isSome = true := by
    intro before ret req
    simp [passAfter, exec, Executor.step, ht, hpc, hcalling]
  have hinside : s.inside tid .working = some t := inside_eq_some.mpr ⟨ht, hpc⟩
  simp only [FrameOf, hpc] at hframe
  simp only [step, hinside, Option.bind_some, workStep]
  rcases hframe with hframe | ⟨hlist, domains, err, hframe⟩
  · rcases hwork with hwork | ⟨f, hwork, hf⟩
    · simp [hwork, hframe, pass, exec, Executor.step, ht, hpc, hcalling]
    · rw [hwork, hframe]
      cases f with
      | listDomainsWork =>
        simp only [listDomainsWork]
        cases env.conn.listAllDomains ctx.flags with
        | none => exact hreturn _ _ _
        | some domains => rfl
      | sampleDomainWork => exact hreturn _ _ _
      | bulkSamplingWork => exact hreturn _ _ _
      | samplingCollect => exact absurd rfl hf
  · rw [hlist, hframe]
    cases domains with
    | nil => exact hreturn _ _ _
    | cons dom domains =>
      have hmay : s.exc.mayDispatch (.worker tid) = true := by
        simp [Executor.mayDispatch, ht, hpc, hcalling]
      simp only [listDomainsWork, passDispatch, exec, setFrame_exc, Executor.step, hmay, if_true]
      split <;> rfl

/-- A thread inside a collect function goes on. -/
theorem collect_isSome (env : Env δ) (ht : s.exc.threads[tid]? = some t) (hpc : t.pc = .collecting)
    (hcollect : t.task.td.collect = .client .samplingCollect ∨ t.task.td.collect = .stopCollect)
    (hframe : FrameOf t (s.frames tid)) : (s.step ctx (.collect tid env)).isSome = true := by
  have hexec : (s.exec (.collectReturn tid 0)).isSome = true := by
    simp [exec, Executor.step, ht, hpc]
  have hinside : s.inside tid .collecting = some t := inside_eq_some.mpr ⟨ht, hpc⟩
  simp only [FrameOf, hpc] at hframe
  simp only [step, hinside, Option.bind_some, collectStep]
  rcases hcollect with hcollect | hcollect
  · simp only [hcollect]
    rcases hframe with ⟨error, timeout, hframe⟩ | ⟨ts, records, hframe⟩
    · rw [hframe, samplingCollect]
      split
      · simpa [passAfter] using hexec
      · rfl
    · rw [hframe]
      cases records with
      | nil => simpa [samplingCollect, passAfter] using hexec
      | cons record records => rfl
  · simpa [hcollect, pass] using hexec

/-- **Short of rest something can move**, whatever libvirt answers. -/
theorem exists_step {answers : Env δ → Prop} {env : Env δ} (henv : answers env)
    {h : List (ExecutorEvent δ)} (H : Executor.Serviced h s.exc)
    (hknown : s.exc.AllTasks TaskData.Known TaskData.Known) (hplaced : s.Placed)
    (hstaffed : s.exc.Staffed) (hrest : ¬s.exc.AtRest) :
    ∃ a s' es, s.Closing answers a ∧ (samplerSystem δ ctx).step s a = some (s', es) := by
  obtain ⟨b, exc, es, hclosing, hb⟩ := Executor.exists_step H hstaffed hrest []
  have hexec : s.exec b = some (s.after exc es, es) := by
    change s.exc.step b = some (exc, es) at hb
    rw [exec, hb]
    rfl
  have hsome : ∀ a, s.Closing answers a → (s.step ctx a).isSome = true →
      ∃ a s' es, s.Closing answers a ∧ (samplerSystem δ ctx).step s a = some (s', es) := by
    intro a ha hsome
    obtain ⟨⟨s', es⟩, hs⟩ := Option.isSome_iff_exists.mp hsome
    exact ⟨a, s', es, ha, hs⟩
  cases b with
  | thread tid => exact hsome (.thread tid) hclosing (by simp [step, pass, hexec])
  | fire id created => exact hsome (.fire id created) trivial (by simp [step, pass, hexec])
  | call i => exact hsome (.call i env) henv (by simp [step, passDispatch, hexec])
  | workReturn tid ret data =>
    cases Executor.step_cases hb with
    | returnWork ht hpc hcalling =>
      have hcarries := hknown.holder _ _ ht
      simp only [Thread.Carries, hpc] at hcarries
      exact hsome (.work tid env) henv
        (work_isSome env ht hpc hcalling hcarries.work (hplaced _ _ ht))
  | collectReturn tid ret =>
    have hgo : ∀ t, s.exc.threads[tid]? = some t → t.pc = .collecting →
        ∃ a s' es, s.Closing answers a ∧ (samplerSystem δ ctx).step s a = some (s', es) := by
      intro t ht hpc
      have hcarries := hknown.holder _ _ ht
      simp only [Thread.Carries, hpc] at hcarries
      exact hsome (.collect tid env) henv
        (collect_isSome env ht hpc hcarries.collect (hplaced _ _ ht))
    cases Executor.step_cases hb with
    | loop ht hpc => exact hgo _ ht hpc
    | exit ht hpc => exact hgo _ ht hpc
  | dispatch | stop | start => exact hclosing.elim

/-! ## Every run -/

/-- What holds as long as nobody stops the daemon: no thread is ever stuck or gone. -/
structure Able (h : List (SamplerEvent δ)) (s : Daemon δ) : Prop where
  exc : Executor.Serviced (execEvents h) s.exc
  fresh : s.exc.AllTasks TaskData.Unsampled TaskData.StopsBare
  known : s.exc.AllTasks TaskData.Known TaskData.Known
  placed : s.Placed
  staffed : s.exc.Staffed

theorem Able.step {cap : ℕ} {q : BoundedQueue (TaskData SamplerFunction (VmonRequest δ)) cap}
    {h : List (SamplerEvent δ)} (H : s.Able h) (hq : s.exc.tasks.Holds q)
    (hclient : ∀ (tid : ℕ) (t : Thread SamplerFunction (VmonRequest δ)),
      s.exc.threads[tid]? = some t → t.pc.holds = true → ∃ f, t.task.td.collect = .client f)
    (hs : Steps ctx s a s' es) (hstop : ∀ wait, a ≠ .stop wait)
    (hsend : ∀ req, a = .send req → ∃ sr, req = .ofSample sr) : s'.Able (h ++ es) := by
  have hexc : Executor.Serviced (execEvents (h ++ es)) s'.exc ∧ s'.exc.Staffed := by
    rw [execEvents_append]
    rcases hs.exc_cases with ⟨heq, hnone⟩ | ⟨b, hb, htold⟩
    · rw [heq, hnone, List.append_nil]
      exact ⟨H.exc, H.staffed⟩
    · refine ⟨H.exc.step hq hb ?_, hb.staffed H.staffed hclient ?_⟩
      · rintro wait rfl
        cases htold
        exact hstop wait rfl
      · rintro tid ret rfl
        cases htold
        rfl
  exact ⟨hexc.1, hs.unsampled H.fresh hsend, hs.known H.known, H.placed.step hs, hexc.2⟩

theorem able_of_started {n : ℕ} (hn : 0 < n) (cap : ℕ) : (started n cap : Daemon δ).Able [] :=
  ⟨.of_started n cap, .of_started n cap, .of_started n cap, .of_started n cap,
    Executor.staffed_of_started hn cap⟩

end Daemon

end Vmon
