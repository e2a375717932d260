import Vmon.Executor.Steps

/-!
# The executor as one thread sees it

A step is made by one thread, or by none, and leaves of every other thread all but the mark
on its task (`Steps.kept`). What the tasks of the queue satisfy, the tasks of the threads
satisfy as well, until their work function returns (`AllTasks`).

## Main definitions

* `Event.tid`, `Executor.mover` — whose event, and whose step.
* `Executor.pending` — the calls of `executor_dispatch` that a thread is inside.
* `Executor.Kept` — what the step of another thread leaves of a thread.
* `Executor.OneCall`, `Executor.AllTasks` — two invariants.
* `ErrorCode`, `Executor.Codes` — the codes that errors take.
-/

namespace Vmon

variable {ι β : Type}

/-- The thread that an event is about. -/
def Event.tid : Event ι β → Option ℕ
  | .dispatched (.worker tid) _ _ => some tid
  | .taken tid _ _ | .armed tid _ _ | .workCalled tid _ _ _ | .workReturned tid _ _ _
  | .deleted tid _ _ | .collectCalled tid _ _ _ _ _ | .collectReturned tid _ _ => some tid
  | _ => none

/-- The worker thread that called. -/
def Call.tid : Call ι β → Option ℕ
  | .dispatch (.worker tid) _ => some tid
  | _ => none

namespace Executor

/-- The calls of `executor_dispatch` that thread `tid` is inside. -/
def pending (s : Executor ι β) (tid : ℕ) : List (DispatchArgs ι β) :=
  s.calls.filterMap fun
    | .dispatch (.worker tid') args => if tid' = tid then some args else none
    | _ => none

/-- The thread that makes the step. -/
def mover (s : Executor ι β) : Action ι β → Option ℕ
  | .thread tid | .workReturn tid _ _ | .collectReturn tid _ | .dispatch (.worker tid) _ => some tid
  | .call i => (s.calls[i]?).bind Call.tid
  | _ => none

variable {s s' : Executor ι β} {tid : ℕ} {t : Thread ι β}

theorem pending_append (s : Executor ι β) (tid : ℕ) (call : Call ι β) (hcall : call.tid ≠ some tid) :
    ({ s with calls := s.calls ++ [call] } : Executor ι β).pending tid = s.pending tid := by
  rcases call with ⟨_ | tid', args⟩ | _
  · simp [pending]
  · simpa [pending] using fun h => hcall (by rw [h, Call.tid])
  · simp [pending]

theorem pending_erase {calls : List (Call ι β)} {i : ℕ} {call : Call ι β}
    {f : Call ι β → Option (DispatchArgs ι β)} (hi : calls[i]? = some call) (hf : f call = none) :
    (calls.eraseIdx i).filterMap f = calls.filterMap f := by
  induction calls generalizing i with
  | nil => simp at hi
  | cons c calls ih =>
    cases i with
    | zero =>
      obtain rfl : c = call := by simpa using hi
      simp [hf]
    | succ i => simp [List.filterMap_cons, ih (by simpa using hi)]

theorem pending_set {calls : List (Call ι β)} {i : ℕ} {call call' : Call ι β}
    {f : Call ι β → Option (DispatchArgs ι β)} (hi : calls[i]? = some call) (hf : f call = none)
    (hf' : f call' = none) : (calls.set i call').filterMap f = calls.filterMap f := by
  induction calls generalizing i with
  | nil => simp at hi
  | cons c calls ih =>
    cases i with
    | zero =>
      obtain rfl : c = call := by simpa using hi
      simp [hf, hf']
    | succ i => simp [List.filterMap_cons, ih (by simpa using hi)]

/-- A call that a step ends was the only one of its thread. -/
theorem pending_erase_self {calls : List (Call ι β)} {i : ℕ} {call : Call ι β}
    {f : Call ι β → Option (DispatchArgs ι β)} {args : DispatchArgs ι β}
    (hi : calls[i]? = some call) (hf : f call = some args)
    (hone : (calls.filterMap f).length ≤ 1) :
    calls.filterMap f = [args] ∧ (calls.eraseIdx i).filterMap f = [] := by
  induction calls generalizing i with
  | nil => simp at hi
  | cons c calls ih =>
    cases i with
    | zero =>
      obtain rfl : c = call := by simpa using hi
      simpa [hf] using hone
    | succ i =>
      have hi' : calls[i]? = some call := by simpa using hi
      cases hc : f c with
      | none =>
        rw [List.filterMap_cons, hc] at hone
        simpa [List.filterMap_cons, hc] using ih hi' hone
      | some x =>
        -- two calls of one thread
        have hmem : args ∈ calls.filterMap f :=
          List.mem_filterMap.mpr ⟨call, List.mem_of_getElem? hi', hf⟩
        rw [List.filterMap_cons, hc, List.length_cons] at hone
        have := List.length_pos_of_mem hmem
        omega

theorem calling_eq_false (h : s.calling tid = false) : s.pending tid = [] := by
  rw [pending, List.filterMap_eq_nil_iff]
  intro call hcall
  rw [calling, List.any_eq_false] at h
  have := h call hcall
  rcases call with ⟨_ | tid', args⟩ | _
  · rfl
  · simpa using this
  · rfl

/-- What the step of another thread leaves of a thread. -/
structure Kept (tid : ℕ) (t : Thread ι β) (s s' : Executor ι β) (es : List (Event ι β)) : Prop where
  thread : ∃ t', s'.threads[tid]? = some t' ∧ (t' = t ∨ t' = t.mark)
  pending : s'.pending tid = s.pending tid
  events : ∀ e ∈ es, e.tid ≠ some tid

variable {a : Action ι β} {es : List (Event ι β)}

/-- A statement of another thread. -/
theorem Kept.set {j : ℕ} {u : Thread ι β} (ht : s.threads[tid]? = some t)
    (hthreads : s'.threads = s.threads.set j u) (hcalls : s'.calls = s.calls)
    (hne : some j ≠ some tid) (hes : ∀ e ∈ es, e.tid = some j) : Kept tid t s s' es := by
  have hj : j ≠ tid := fun h => hne (by rw [h])
  refine ⟨⟨t, ?_, .inl rfl⟩, ?_, ?_⟩
  · rw [hthreads, List.getElem?_set_ne hj, ht]
  · simp only [Executor.pending, hcalls]
  · intro e he
    rw [hes e he]
    exact hne

/-- A step that leaves the threads alone. -/
theorem Kept.calls (ht : s.threads[tid]? = some t) (hthreads : s'.threads = s.threads)
    (hpending : s'.pending tid = s.pending tid) (hes : ∀ e ∈ es, e.tid ≠ some tid) :
    Kept tid t s s' es :=
  ⟨⟨t, by rw [hthreads, ht], .inl rfl⟩, hpending, hes⟩

/-- A timer callback marks a task at most. -/
theorem workerDiscard_kept [Payload β] (ht : s.threads[tid]? = some t) (w : Worker)
    (created : Bool) : ∃ t', (s.workerDiscard w created).1.threads[tid]? = some t' ∧
      (t' = t ∨ t' = t.mark) := by
  have hlt := (List.getElem?_eq_some_iff.mp ht).1
  obtain ⟨t', ht'⟩ : ∃ t', (s.workerDiscard w created).1.threads[tid]? = some t' := by
    refine ⟨_, List.getElem?_eq_getElem ?_⟩
    rw [workerDiscard_eq]
    cases w.current <;> simp only [executorReplace, workerInit_eq, markDiscarded] <;> split <;>
      simp <;> omega
  refine ⟨t', ht', ?_⟩
  rcases workerDiscard_thread ht' with ⟨u, hu, rfl⟩ | ⟨rfl, -⟩
  · obtain rfl : u = t := by simpa [ht] using hu.symm
    split
    · exact .inr rfl
    · exact .inl rfl
  · omega

theorem Steps.kept [Payload β] (hs : s.Steps a s' es) (ht : s.threads[tid]? = some t)
    (hne : s.mover a ≠ some tid) : Kept tid t s s' es := by
  cases hs with
  | wait => exact .set ht rfl rfl hne (by simp)
  | take => exact .set ht rfl rfl hne (by simp [Event.tid])
  | takeUndefined => exact .set ht rfl rfl hne (by simp)
  | arm => exact .set ht rfl rfl hne (by simp [Event.tid])
  | skipTimer => exact .set ht rfl rfl hne (by simp)
  | setCurrent => exact .set ht rfl rfl hne (by simp)
  | callWork => exact .set ht rfl rfl hne (by simp [Event.tid])
  | returnWork => exact .set ht rfl rfl hne (by simp [Event.tid])
  | clearCurrent => exact .set ht rfl rfl hne (by simp)
  | keepTimer => exact .set ht rfl rfl hne (by simp)
  | dropTimer => exact .set ht rfl rfl hne (by simp)
  | deleteTimer => exact .set ht rfl rfl hne (by simp [Event.tid])
  | callCollect => exact .set ht rfl rfl hne (by simp [Event.tid])
  | loop => exact .set ht rfl rfl hne (by simp [Event.tid])
  | exit => exact .set ht rfl rfl hne (by simp [Event.tid])
  | @fire id created tm w htm hid hw =>
    refine ⟨workerDiscard_kept ht w created, ?_, by simp [Event.tid]⟩
    simp [pending]
  | @refuse caller args ret hcaller hcheck =>
    refine .calls ht rfl rfl ?_
    intro e he
    obtain rfl := List.mem_singleton.mp he
    cases caller with
    | client => simp [Event.tid]
    | worker j => exact hne
  | @enter caller args task hcaller hcheck =>
    refine .calls ht rfl (pending_append s tid _ ?_) (by simp)
    cases caller with
    | client => simp [Call.tid]
    | worker j => exact hne
  | @dispatchPut i caller args hcall =>
    have hcaller : (Call.dispatch caller args : Call ι β).tid ≠ some tid := by
      simpa [mover, hcall] using hne
    refine .calls ht rfl (pending_erase hcall ?_) ?_
    · cases caller with
      | client => rfl
      | worker j => simpa using fun h => hcaller (by rw [h, Call.tid])
    · intro e he
      obtain rfl := List.mem_singleton.mp he
      cases caller with
      | client => simp [Event.tid]
      | worker j => exact hcaller
  | stop => exact .calls ht rfl (pending_append s tid _ (by simp [Call.tid])) (by simp)
  | stopPut hcall => exact .calls ht rfl (pending_set hcall rfl rfl) (by simp [Event.tid])
  | stopPhase hcall => exact .calls ht rfl (pending_set hcall rfl rfl) (by simp)
  | stopReturn hcall => exact .calls ht rfl (pending_erase hcall rfl) (by simp [Event.tid])
  | startAgain => exact .calls ht rfl rfl (by simp [Event.tid])
  | @start created hlen hrunning =>
    obtain ⟨workers, heq, -, -⟩ := startLoop_eq { s with running := true } 0 0 created
    refine ⟨⟨t, ?_, .inl rfl⟩, ?_, by simp [Event.tid]⟩
    · have hlt := (List.getElem?_eq_some_iff.mp ht).1
      rw [heq, List.getElem?_append_left hlt, ht]
    · rw [heq]
      rfl

/-! ### One call at a time -/

/-- A thread is inside one call of `executor_dispatch` at most, and only from a work
function. -/
def OneCall (s : Executor ι β) : Prop :=
  ∀ tid, (s.pending tid).length ≤ 1 ∧
    (s.pending tid ≠ [] → (s.threads[tid]?).map Thread.pc = some .working)

namespace OneCall

/-- A thread that is inside no call moves. -/
theorem set (H : OneCall s) {j : ℕ} {u : Thread ι β}
    (hthreads : s'.threads = s.threads.set j u) (hcalls : s'.calls = s.calls)
    (hidle : s.pending j = []) : OneCall s' := by
  intro tid
  have hpending : s'.pending tid = s.pending tid := by simp only [pending, hcalls]
  rw [hpending]
  refine ⟨(H tid).1, ?_⟩
  intro hne
  have hj : j ≠ tid := by
    rintro rfl
    exact hne hidle
  rw [hthreads, List.getElem?_set_ne hj]
  exact (H tid).2 hne

/-- No thread moves, and no call is added. -/
theorem calls (H : OneCall s)
    (hthreads : ∀ tid : ℕ, (s.threads[tid]?).map Thread.pc = some .working →
      (s'.threads[tid]?).map Thread.pc = some .working)
    (hpending : ∀ tid, s'.pending tid = s.pending tid ∨ s'.pending tid = []) : OneCall s' := by
  intro tid
  rcases hpending tid with heq | hnil
  · rw [heq]
    exact ⟨(H tid).1, fun hne => hthreads tid ((H tid).2 hne)⟩
  · simp [hnil]

/-- A thread that is not inside a work function is inside no call. -/
theorem idle (H : OneCall s) (ht : s.threads[tid]? = some t) (hpc : t.pc ≠ .working) :
    s.pending tid = [] := by
  by_contra hne
  have := (H tid).2 hne
  rw [ht, Option.map_some, Option.some.injEq] at this
  exact hpc this

/-- Where a call ends, its thread is inside none. -/
theorem pending_eraseIdx (H : OneCall s) {i : ℕ} {call : Call ι β} (hi : s.calls[i]? = some call)
    (hcalls : s'.calls = s.calls.eraseIdx i) (tid : ℕ) :
    s'.pending tid = s.pending tid ∨ s'.pending tid = [] := by
  simp only [pending, hcalls]
  have hone := (H tid).1
  rw [pending] at hone
  generalize hf : (fun c : Call ι β => match c with
    | .dispatch (.worker tid') args => if tid' = tid then some args else none
    | _ => none) = f at hone ⊢
  cases hcall : f call with
  | none => exact .inl (pending_erase hi hcall)
  | some args => exact .inr (pending_erase_self hi hcall hone).2

theorem step [Payload β] (H : OneCall s) (hs : s.Steps a s' es) : OneCall s' := by
  have hsame : ∀ tid : ℕ, (s.threads[tid]?).map Thread.pc = some .working →
      (s.threads[tid]?).map Thread.pc = some .working := fun _ h => h
  cases hs with
  | wait ht hpc => exact H.set rfl rfl (H.idle ht (by rcases hpc with h | h <;> simp [h]))
  | take ht hpc => exact H.set rfl rfl (H.idle ht (by rcases hpc with h | h <;> simp [h]))
  | takeUndefined ht hpc =>
    exact H.set rfl rfl (H.idle ht (by rcases hpc with h | h <;> simp [h]))
  | arm ht hpc => exact H.set rfl rfl (H.idle ht (by simp [hpc]))
  | skipTimer ht hpc => exact H.set rfl rfl (H.idle ht (by simp [hpc]))
  | setCurrent ht hpc => exact H.set rfl rfl (H.idle ht (by simp [hpc]))
  | callWork ht hpc => exact H.set rfl rfl (H.idle ht (by simp [hpc]))
  | returnWork ht hpc hcalling => exact H.set rfl rfl (calling_eq_false hcalling)
  | clearCurrent ht hpc => exact H.set rfl rfl (H.idle ht (by simp [hpc]))
  | keepTimer ht hpc => exact H.set rfl rfl (H.idle ht (by simp [hpc]))
  | dropTimer ht hpc => exact H.set rfl rfl (H.idle ht (by simp [hpc]))
  | deleteTimer ht hpc => exact H.set rfl rfl (H.idle ht (by simp [hpc]))
  | callCollect ht hpc => exact H.set rfl rfl (H.idle ht (by simp [hpc]))
  | loop ht hpc => exact H.set rfl rfl (H.idle ht (by simp [hpc]))
  | exit ht hpc => exact H.set rfl rfl (H.idle ht (by simp [hpc]))
  | @fire id created tm w =>
    refine H.calls ?_ fun tid => .inl (by simp [pending])
    intro tid htid
    obtain ⟨t, ht, hpc⟩ := Option.map_eq_some_iff.mp htid
    obtain ⟨t', ht', heq⟩ := workerDiscard_kept ht w created
    rw [ht', Option.map_some]
    rcases heq with rfl | rfl
    · rw [hpc]
    · exact congrArg some hpc
  | refuse => exact H
  | @enter caller args task hcaller hcheck =>
    cases caller with
    | client => exact H.calls hsame fun tid => .inl (pending_append s tid _ (by simp [Call.tid]))
    | worker j =>
      simp only [mayDispatch, Bool.and_eq_true, decide_eq_true_eq, Bool.not_eq_true'] at hcaller
      have hidle := calling_eq_false hcaller.2
      intro tid
      by_cases hj : j = tid
      · subst hj
        rw [pending] at hidle
        refine ⟨?_, fun _ => hcaller.1⟩
        rw [pending, List.filterMap_append, hidle]
        simp
      · rw [pending_append s tid _ (by simp [Call.tid, hj])]
        exact H tid
  | dispatchPut hcall => exact H.calls hsame (H.pending_eraseIdx hcall rfl)
  | stop => exact H.calls hsame fun tid => .inl (pending_append s tid _ (by simp [Call.tid]))
  | stopPut hcall => exact H.calls hsame fun tid => .inl (pending_set hcall rfl rfl)
  | stopPhase hcall => exact H.calls hsame fun tid => .inl (pending_set hcall rfl rfl)
  | stopReturn hcall => exact H.calls hsame (H.pending_eraseIdx hcall rfl)
  | startAgain => exact H
  | @start created =>
    obtain ⟨workers, heq, -, -⟩ := startLoop_eq { s with running := true } 0 0 created
    rw [heq]
    refine H.calls ?_ fun tid => .inl rfl
    intro tid htid
    obtain ⟨t, ht, hpc⟩ := Option.map_eq_some_iff.mp htid
    have hlt := (List.getElem?_eq_some_iff.mp ht).1
    rw [List.getElem?_append_left hlt]
    exact htid

theorem of_started [Payload β] (n cap : ℕ) : OneCall (started n cap : Executor ι β) := by
  obtain ⟨workers, heq, -⟩ := started_eq (ι := ι) (β := β) n cap
  intro tid
  simp [heq, pending, executorInit]

end OneCall

/-! ### What every task satisfies -/

end Executor

/-- The task of the thread satisfies `fresh` up to the return of its work function, and `done`
from there on. -/
def Thread.Carries (fresh done : TaskData ι β → Prop) (t : Thread ι β) : Prop :=
  match t.pc with
  | .got | .armed | .ready | .working => fresh t.task
  | .worked | .cleared | .deleting | .finished | .collecting => done t.task
  | .get | .waiting | .exited | .undefined => True

namespace Executor

/-- The tasks that are put satisfy `fresh`, and work functions turn that into `done`. -/
structure AllTasks [Payload β] (fresh done : TaskData ι β → Prop) (s : Executor ι β) :
    Prop where
  queue : ∀ o task, s.tasks.elems o = some task → fresh task
  calls : ∀ caller args, Call.dispatch caller args ∈ s.calls → fresh (dispatchTask args)
  holder : ∀ (tid : ℕ) (t : Thread ι β), s.threads[tid]? = some t → t.Carries fresh done

namespace AllTasks

variable [Payload β] {fresh done : TaskData ι β → Prop}

theorem set (H : AllTasks fresh done s) {j : ℕ} {u : Thread ι β} (ht : s.threads[j]? = some t)
    (helems : s'.tasks.elems = s.tasks.elems) (hthreads : s'.threads = s.threads.set j u)
    (hcalls : s'.calls = s.calls)
    (hcarries : t.Carries fresh done → u.Carries fresh done) : AllTasks fresh done s' where
  queue := by rw [helems]; exact H.queue
  calls := by rw [hcalls]; exact H.calls
  holder tid v hv := by
    rw [hthreads, getElem?_set_some ht] at hv
    rcases hv with ⟨rfl, rfl⟩ | ⟨-, hv⟩
    · exact hcarries (H.holder _ t ht)
    · exact H.holder tid v hv

theorem put (H : AllTasks fresh done s) {task : TaskData ι β} (hfresh : fresh task)
    (htasks : s'.tasks = (ringbufferPut s.tasks task).1) (hthreads : s'.threads = s.threads)
    (hcalls : ∀ caller args, Call.dispatch caller args ∈ s'.calls →
      Call.dispatch caller args ∈ s.calls) : AllTasks fresh done s' where
  queue o task' ho := by
    rw [htasks] at ho
    rcases ringbufferPut_elems ho with rfl | ho
    · exact hfresh
    · exact H.queue o task' ho
  calls caller args hcall := H.calls caller args (hcalls caller args hcall)
  holder := by rw [hthreads]; exact H.holder

theorem step (H : AllTasks fresh done s) (hs : s.Steps a s' es) (hstop : fresh stopTask)
    (hmark : ∀ task, (fresh task → fresh task.setDiscarded) ∧ (done task → done task.setDiscarded))
    (hdispatch : ∀ caller args, a = .dispatch caller args → fresh (dispatchTask args))
    (hreturn : ∀ tid ret data t, a = .workReturn tid ret data → s.threads[tid]? = some t →
      fresh t.task → done (t.task.setArg (workResult t ret data).2)) :
    AllTasks fresh done s' := by
  have helems : ∀ {pc : Pc} {rb : RingBuffer (TaskData ι β)} {out : GetOutcome (TaskData ι β)},
      getSection pc s.tasks = (rb, out) → rb.elems = s.tasks.elems := by
    intro pc rb out hget
    have := (getSection_elems pc s.tasks).1
    rwa [hget] at this
  cases hs with
  | wait ht hpc hget => exact H.set ht (helems hget) rfl rfl fun _ => trivial
  | @take tid t rb task ht hpc hget =>
    refine H.set ht (helems hget) rfl rfl fun _ => ?_
    obtain ⟨o, ho⟩ := (getSection_elems t.pc s.tasks).2 task (by rw [hget])
    exact H.queue o task ho
  | takeUndefined ht hpc hget => exact H.set ht (helems hget) rfl rfl fun _ => trivial
  | arm ht hpc => exact H.set ht rfl rfl rfl (by simp [Thread.Carries, hpc])
  | skipTimer ht hpc => exact H.set ht rfl rfl rfl (by simp [Thread.Carries, hpc])
  | setCurrent ht hpc => exact H.set ht rfl rfl rfl (by simp [Thread.Carries, hpc])
  | callWork ht hpc => exact H.set ht rfl rfl rfl (by simp [Thread.Carries, hpc])
  | @returnWork tid t ret data ht hpc hcalling =>
    refine H.set ht rfl rfl rfl fun hcarries => ?_
    simp only [Thread.Carries, hpc] at hcarries
    exact hreturn tid ret data t rfl ht hcarries
  | clearCurrent ht hpc => exact H.set ht rfl rfl rfl (by simp [Thread.Carries, hpc])
  | keepTimer ht hpc => exact H.set ht rfl rfl rfl (by simp [Thread.Carries, hpc])
  | dropTimer ht hpc => exact H.set ht rfl rfl rfl (by simp [Thread.Carries, hpc])
  | deleteTimer ht hpc => exact H.set ht rfl rfl rfl (by simp [Thread.Carries, hpc])
  | callCollect ht hpc => exact H.set ht rfl rfl rfl (by simp [Thread.Carries, hpc])
  | loop ht hpc => exact H.set ht rfl rfl rfl fun _ => trivial
  | exit ht hpc => exact H.set ht rfl rfl rfl fun _ => trivial
  | @fire id created tm w =>
    refine ⟨by simpa using H.queue, by simpa using H.calls, fun tid u hu => ?_⟩
    rcases workerDiscard_thread hu with ⟨t, ht, rfl⟩ | ⟨-, rfl⟩
    · have hcarries := H.holder tid t ht
      split
      · cases hpc : t.pc <;> simp only [Thread.Carries, Thread.mark, hpc] at hcarries ⊢
        all_goals first | exact (hmark _).1 hcarries | exact (hmark _).2 hcarries
      · exact hcarries
    · trivial
  | refuse => exact H
  | enter hcaller hcheck =>
    refine ⟨H.queue, fun caller' args' hcall => ?_, H.holder⟩
    rcases List.mem_append.mp hcall with hcall | hcall
    · exact H.calls caller' args' hcall
    · cases List.mem_singleton.mp hcall
      exact hdispatch _ _ rfl
  | dispatchPut hcall =>
    exact H.put (H.calls _ _ (List.mem_of_getElem? hcall)) rfl rfl
      fun _ _ => List.mem_of_mem_eraseIdx
  | stop =>
    refine ⟨H.queue, fun caller args hcall => ?_, H.holder⟩
    rcases List.mem_append.mp hcall with hcall | hcall
    · exact H.calls caller args hcall
    · cases List.mem_singleton.mp hcall
  | stopPut hcall =>
    refine H.put hstop rfl rfl fun caller args hmem => ?_
    rcases List.mem_or_eq_of_mem_set hmem with hmem | hmem
    · exact hmem
    · cases hmem
  | stopPhase hcall =>
    refine ⟨H.queue, fun caller args hmem => ?_, H.holder⟩
    rcases List.mem_or_eq_of_mem_set hmem with hmem | hmem
    · exact H.calls caller args hmem
    · cases hmem
  | stopReturn hcall =>
    exact ⟨H.queue, fun caller args hmem => H.calls caller args (List.mem_of_mem_eraseIdx hmem),
      H.holder⟩
  | startAgain => exact H
  | @start created =>
    obtain ⟨workers, heq, -⟩ := startLoop_eq { s with running := true } 0 0 created
    rw [heq]
    refine ⟨H.queue, H.calls, fun tid u hu => ?_⟩
    rcases List.mem_append.mp (List.mem_of_getElem? hu) with hmem | hmem
    · obtain ⟨i, hi⟩ := List.getElem?_of_mem hmem
      exact H.holder i u hi
    · obtain ⟨w, -, -, rfl⟩ := mem_startThreads hmem
      trivial

theorem of_started (n cap : ℕ) : AllTasks fresh done (started n cap : Executor ι β) := by
  obtain ⟨workers, heq, -⟩ := started_eq (ι := ι) (β := β) n cap
  rw [heq]
  refine ⟨by simp [executorInit, ringbufferClear], by simp [executorInit], fun tid u hu => ?_⟩
  obtain ⟨w, -, -, rfl⟩ := mem_startThreads (List.mem_of_getElem? hu)
  trivial

end AllTasks

end Executor

/-! ## Error codes -/

/-- The values that `err` and the results of the executor take: its own errors, the `1` of
`StopWorker`, and what lies between. -/
def ErrorCode (err : ℤ) : Prop := executorErrorTooMuchData ≤ err ∧ err ≤ 1

instance (err : ℤ) : Decidable (ErrorCode err) := inferInstanceAs (Decidable (_ ∧ _))

theorem errorCode_zero : ErrorCode 0 := by decide

/-- The code that an event hands to the client. -/
def Event.Coded : Event ι β → Prop
  | .dispatched _ _ ret => ErrorCode ret
  | .collectCalled _ _ _ _ err _ => ErrorCode err
  | _ => True

namespace Executor

variable {s s' : Executor ι β} {a : Action ι β} {es : List (Event ι β)}

/-- The workers keep such a code. -/
def Codes (s : Executor ι β) : Prop := ∀ t ∈ s.threads, ErrorCode t.err

namespace Codes

theorem set (H : Codes s) {j : ℕ} {u : Thread ι β} (hthreads : s'.threads = s.threads.set j u)
    (hu : ErrorCode u.err) : Codes s' := by
  intro t ht
  rw [hthreads] at ht
  rcases List.mem_or_eq_of_mem_set ht with ht | rfl
  · exact H t ht
  · exact hu

theorem keep (H : Codes s) {j : ℕ} {t u : Thread ι β} (ht : s.threads[j]? = some t)
    (hthreads : s'.threads = s.threads.set j u) (hu : u.err = t.err) : Codes s' := by
  apply H.set hthreads
  rw [hu]
  exact H t (List.mem_of_getElem? ht)

theorem step [Payload β] (H : Codes s) (hs : s.Steps a s' es)
    (hwork : ∀ tid ret data, a = .workReturn tid ret data → ErrorCode ret)
    (hcollect : ∀ tid ret, a = .collectReturn tid ret → ErrorCode ret) :
    Codes s' ∧ ∀ e ∈ es, e.Coded := by
  have hone : ErrorCode 1 := by decide
  cases hs with
  | wait ht => exact ⟨H.set rfl errorCode_zero, by simp⟩
  | take ht => exact ⟨H.set rfl errorCode_zero, by simp [Event.Coded]⟩
  | takeUndefined ht => exact ⟨H.set rfl errorCode_zero, by simp⟩
  | arm ht => exact ⟨H.keep ht rfl rfl, by simp [Event.Coded]⟩
  | skipTimer ht => exact ⟨H.keep ht rfl rfl, by simp⟩
  | setCurrent ht => exact ⟨H.keep ht rfl rfl, by simp⟩
  | callWork ht => exact ⟨H.keep ht rfl rfl, by simp [Event.Coded]⟩
  | @returnWork tid t ret data ht =>
    refine ⟨H.set rfl ?_, by simp [Event.Coded]⟩
    unfold workResult
    split
    · exact hone
    · exact hwork tid ret data rfl
  | clearCurrent ht => exact ⟨H.keep ht rfl rfl, by simp⟩
  | keepTimer ht => exact ⟨H.keep ht rfl rfl, by simp⟩
  | dropTimer ht => exact ⟨H.keep ht rfl rfl, by simp⟩
  | deleteTimer ht => exact ⟨H.keep ht rfl rfl, by simp [Event.Coded]⟩
  | @callCollect tid t ht => exact ⟨H.keep ht rfl rfl, by simpa [Event.Coded] using H t (List.mem_of_getElem? ht)⟩
  | loop ht => exact ⟨H.set rfl errorCode_zero, by simp [Event.Coded]⟩
  | @exit tid t ret ht =>
    refine ⟨H.set rfl ?_, by simp [Event.Coded]⟩
    unfold collectResult
    split
    · exact H t (List.mem_of_getElem? ht)
    · exact hcollect tid ret rfl
  | fire =>
    refine ⟨?_, by simp [Event.Coded]⟩
    intro u hu
    obtain ⟨tid, htid⟩ := List.getElem?_of_mem hu
    rcases workerDiscard_thread htid with ⟨t, ht, rfl⟩ | ⟨-, rfl⟩
    · have herr : ErrorCode t.err := H t (List.mem_of_getElem? ht)
      split <;> exact herr
    · exact errorCode_zero
  | refuse hcaller hcheck =>
    refine ⟨H, ?_⟩
    simp only [List.mem_singleton, forall_eq, Event.Coded]
    unfold dispatchCheck at hcheck
    split_ifs at hcheck <;> cases hcheck <;> decide
  | enter => exact ⟨H, by simp⟩
  | dispatchPut =>
    refine ⟨H, ?_⟩
    have hput : ∀ rb : RingBuffer (TaskData ι β), ∀ task,
        (ringbufferPut rb task).2 = 0 ∨ (ringbufferPut rb task).2 = -1 := by
      intro rb task
      unfold ringbufferPut
      split <;> simp
    simp only [List.mem_singleton, forall_eq, Event.Coded]
    rcases hput s.tasks _ with hret | hret <;> rw [hret] <;> decide
  | stop => exact ⟨H, by simp⟩
  | stopPut => exact ⟨H, by simp [Event.Coded]⟩
  | stopPhase => exact ⟨H, by simp⟩
  | stopReturn => exact ⟨H, by simp [Event.Coded]⟩
  | startAgain => exact ⟨H, by simp [Event.Coded]⟩
  | @start created =>
    obtain ⟨workers, heq, -⟩ := startLoop_eq { s with running := true } 0 0 created
    refine ⟨?_, by simp [Event.Coded]⟩
    rw [heq]
    intro u hu
    rcases List.mem_append.mp hu with hmem | hmem
    · exact H u hmem
    · obtain ⟨w, -, -, rfl⟩ := mem_startThreads hmem
      exact errorCode_zero

theorem of_started [Payload β] (n cap : ℕ) : Codes (started n cap : Executor ι β) := by
  obtain ⟨workers, heq, -⟩ := started_eq (ι := ι) (β := β) n cap
  rw [heq]
  intro u hu
  obtain ⟨w, -, -, rfl⟩ := mem_startThreads hu
  exact errorCode_zero

end Codes

end Executor

end Vmon
