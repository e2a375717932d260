import Mathlib.Data.List.Count
import Vmon.Sampler.Books
import Vmon.Sampler.Responses

/-!
# The release of libvirt objects

Two paths of the sampler drop an object. A dispatch that fails leaves its domain with nobody, and
`sampling_collect` frees no records where it reports an error or a timeout. Everything that libvirt
handed out is released once, as soon as all accepted tasks were collected, exactly as long as
neither happens to a task that holds such an object (`release_iff`).

## Main definitions

* `Released` — the promise.
* `AllCollected` — the accepted tasks are done.
* `Releases` — the moves that drop nothing.
-/

namespace Vmon

variable {δ : Type}

/-! ## The promise -/

/-- What `virConnectListAllDomains` returned. -/
def listedDomains (h : List (SamplerEvent δ)) : List δ :=
  h.flatMap fun
    | .listed _ domains => domains
    | _ => []

/-- The record lists that a statistics call stored in `req->records`. -/
def sampledRecords (h : List (SamplerEvent δ)) : List (List (StatsRecord δ)) :=
  h.filterMap fun
    | .sampled _ records => some records
    | _ => none

/-- The calls of `virDomainFree`. -/
def freedDomains (h : List (SamplerEvent δ)) : List δ :=
  h.filterMap fun
    | .freeDomain _ dom => some dom
    | _ => none

/-- The calls of `virDomainStatsRecordListFree` with a list. -/
def freedRecords (h : List (SamplerEvent δ)) : List (List (StatsRecord δ)) :=
  h.filterMap fun
    | .freeRecords _ records => records
    | _ => none

/-- **The promise**: each object is released once. -/
structure Released (h : List (SamplerEvent δ)) : Prop where
  domains : (freedDomains h).Perm (listedDomains h)
  records : (freedRecords h).Perm (sampledRecords h)

/-- All accepted tasks were collected: the queue holds no task of the sampler, no thread has one,
and no domain is inside a call of `executor_dispatch`. -/
structure AllCollected (s : Daemon δ) : Prop where
  queue : ∀ task, some task ∈ s.exc.tasks.heldElems → task.td.work = .stopWorker
  threads : ∀ t ∈ s.exc.threads,
    t.pc = .get ∨ t.pc = .waiting ∨ t.pc = .exited ∨ t.task.td.work = .stopWorker
  calls : ∀ caller args, .dispatch caller args ∈ s.exc.calls → args.data.dom = none

/-- The move drops no object: a put of a task with a domain finds room, a domain of the listing
finds the executor running, and a task with records comes to its collect function without an
error and not discarded. -/
def Releases (m : SamplerMove δ) : Prop :=
  match m.action with
  | .call i _ => ∀ caller args, m.pre.exc.calls[i]? = some (.dispatch caller args) →
      args.data.dom ≠ none → rbIsFull m.pre.exc.tasks = false
  | .work tid _ => ∀ dom domains err, m.pre.frames tid = .listing (dom :: domains) err →
      m.pre.exc.running = true
  | .thread tid => ∀ t, m.pre.exc.threads[tid]? = some t → t.pc = .finished →
      t.task.arg.records ≠ none → t.err = 0 ∧ t.task.td.discarded = false
  | _ => True

/-! ## What is dropped -/

section Step

variable {ctx : VmonContext} {cap : ℕ} {s s' : Daemon δ} {es : List (SamplerEvent δ)}
  {q : BoundedQueue (TaskData SamplerFunction (VmonRequest δ)) cap}

@[simp] theorem domHeld_ones (req : VmonRequest δ) : req.domHeld ones = 0 ↔ req.dom = none := by
  cases hdom : req.dom <;> simp [VmonRequest.domHeld, hdom, ones]

@[simp] theorem recordsHeld_ones (req : VmonRequest δ) :
    req.recordsHeld ones = 0 ↔ req.records = none := by
  cases hrecords : req.records <;> simp [VmonRequest.recordsHeld, hrecords, ones]

/-- Where every object counts, what counts for nothing is no object. -/
theorem dropped_of_ones {e : SamplerEvent δ} (h : e.dropped ones = 0) (w : Worth δ) :
    e.dropped w = 0 := by
  have hheld : ∀ req : VmonRequest δ, req.held ones = 0 → req.held w = 0 := by
    intro req hreq
    obtain ⟨hdom, hrecords⟩ := Nat.add_eq_zero_iff.mp hreq
    rw [domHeld_ones] at hdom
    rw [recordsHeld_ones] at hrecords
    simp [VmonRequest.held, VmonRequest.domHeld, VmonRequest.recordsHeld, hdom, hrecords]
  have hrecords : ∀ req : VmonRequest δ, req.recordsHeld ones = 0 → req.recordsHeld w = 0 := by
    intro req hreq
    rw [recordsHeld_ones] at hreq
    simp [VmonRequest.recordsHeld, hreq]
  simp only [SamplerEvent.dropped] at h ⊢
  split at h
  · rw [ite_eq_right_iff] at h ⊢
    exact fun hret => hheld _ (h hret)
  · rw [ite_eq_right_iff] at h ⊢
    exact fun hfails => hrecords _ (h hfails)
  · rfl

theorem sumEvents_dropped_of_ones {h : List (SamplerEvent δ)}
    (hones : sumEvents (SamplerEvent.dropped ones) h = 0) (w : Worth δ) :
    sumEvents (SamplerEvent.dropped w) h = 0 := by
  induction h with
  | nil => rfl
  | cons e h ih =>
    rw [sumEvents_cons, Nat.add_eq_zero_iff] at hones
    rw [sumEvents_cons, dropped_of_ones hones.1, ih hones.2]

/-- The statements outside the task functions. -/
theorem dropped_thread_iff {tid : ℕ} {exc : SamplerExecutor δ} {es : List (ExecutorEvent δ)}
    (hs : s.exc.Steps (.thread tid) exc es) (h : List (SamplerEvent δ)) :
    sumEvents (SamplerEvent.dropped ones) (es.map .exec) = 0 ↔ Releases ⟨h, s, .thread tid⟩ := by
  have hquiet : ∀ t, s.exc.threads[tid]? = some t → t.pc ≠ .finished →
      Releases (⟨h, s, .thread tid⟩ : SamplerMove δ) := by
    intro t ht hpc u hu hfinished
    obtain rfl : u = t := by simpa [ht] using hu.symm
    exact absurd hfinished hpc
  cases hs with
  | @callCollect _ t ht hpc =>
    have hdropped : sumEvents (SamplerEvent.dropped ones) [SamplerEvent.exec (.collectCalled tid
        t.ticket t.task.td.collect t.task.arg t.err t.task.td.discarded)] = 0 ↔
        (t.task.arg.records ≠ none → t.err = 0 ∧ t.task.td.discarded = false) := by
      simp only [sumEvents_cons, sumEvents_nil, SamplerEvent.dropped, Nat.add_zero]
      split
      · rw [recordsHeld_ones]
        constructor
        · intro hnone hsome
          exact absurd hnone hsome
        · intro himp
          by_contra hsome
          obtain ⟨herr, hdiscarded⟩ := himp hsome
          simp [herr, hdiscarded] at *
      · next hok =>
        simp only [ne_eq, not_or, not_not, Bool.not_eq_true] at hok
        exact ⟨fun _ _ => hok, fun _ => rfl⟩
    refine hdropped.trans ⟨fun H u hu hfinished => ?_, fun H => H t ht hpc⟩
    obtain rfl : u = t := by simpa [ht] using hu.symm
    exact H
  | wait ht hpc => exact iff_of_true rfl (hquiet _ ht (by rcases hpc with h | h <;> simp [h]))
  | take ht hpc => exact iff_of_true rfl (hquiet _ ht (by rcases hpc with h | h <;> simp [h]))
  | takeUndefined ht hpc =>
    exact iff_of_true rfl (hquiet _ ht (by rcases hpc with h | h <;> simp [h]))
  | arm ht hpc | skipTimer ht hpc | setCurrent ht hpc | callWork ht hpc | clearCurrent ht hpc
  | keepTimer ht hpc | dropTimer ht hpc | deleteTimer ht hpc =>
    exact iff_of_true rfl (hquiet _ ht (by simp [hpc]))

/-- A call into the executor goes on. -/
theorem dropped_call_iff (hq : s.exc.tasks.Holds q)
    (H : s.exc.AllTasks TaskData.Unsampled TaskData.StopsBare) {i : ℕ} {env : Env δ}
    {exc : SamplerExecutor δ} {es : List (ExecutorEvent δ)} (hs : s.exc.Steps (.call i) exc es)
    (h : List (SamplerEvent δ)) :
    sumEvents (SamplerEvent.dropped ones) (es.map .exec) = 0 ↔ Releases ⟨h, s, .call i env⟩ := by
  have hquiet : ∀ wait p, s.exc.calls[i]? = some (.stop wait p) →
      Releases (⟨h, s, .call i env⟩ : SamplerMove δ) := by
    intro wait p hcall caller args hargs
    simp [hcall] at hargs
  cases hs with
  | @dispatchPut _ caller args hcall =>
    have hrecords : args.data.records = none :=
      (H.calls _ _ (List.mem_of_getElem? hcall)).records
    have hone : Releases (⟨h, s, .call i env⟩ : SamplerMove δ) ↔
        (args.data.dom ≠ none → rbIsFull s.exc.tasks = false) := by
      refine ⟨fun H => H caller args hcall, fun H caller' args' hcall' => ?_⟩
      obtain ⟨-, rfl⟩ : caller = caller' ∧ args = args' := by simpa [hcall] using hcall'
      exact H
    rw [hone]
    rcases hq.put_cases (dispatchTask args) with ⟨hfull, hput⟩ | ⟨q', helems, hret, hq'⟩
    · rw [hput, hq.isFull_iff.mpr hfull]
      simp [SamplerEvent.dropped, VmonRequest.held, hrecords]
    · have hroom : rbIsFull s.exc.tasks = false := by
        rw [← Bool.not_eq_true, hq.isFull_iff]
        have hlength := congrArg List.length helems
        have := q'.bounded
        rw [List.length_append, List.length_singleton] at hlength
        omega
      rw [hret, hroom]
      simp [SamplerEvent.dropped]
  | stopPut hcall | stopPhase hcall | stopReturn hcall =>
    exact iff_of_true rfl (hquiet _ _ hcall)

/-- A call of `executor_dispatch` begins, or is refused. -/
theorem dropped_listDispatch_iff {tid : ℕ} {req : VmonRequest δ} {dom : δ}
    {exc : SamplerExecutor δ} {es : List (ExecutorEvent δ)}
    (hs : s.exc.Steps (.dispatch (.worker tid) (listDomainsDispatch ctx req dom)) exc es) :
    sumEvents (SamplerEvent.dropped ones) (es.map .exec) = 0 ↔ s.exc.running = true := by
  cases hs with
  | @refuse _ _ ret hcaller hcheck =>
    have hret := Executor.dispatchCheck_error hcheck
    have hstopped : s.exc.running ≠ true := by
      intro hrunning
      rw [hrunning] at hcheck
      simp [Daemon.dispatchCheck_request] at hcheck
    refine iff_of_false ?_ hstopped
    simp [SamplerEvent.dropped, hret, listDomainsDispatch, VmonRequest.held]
  | enter hcaller hcheck => exact iff_of_true rfl (Executor.dispatchCheck_ok hcheck).2.2

/-- **A step drops nothing exactly if it is one that releases.** -/
theorem Daemon.Steps.dropped_iff {a : SamplerAction δ} (hs : Daemon.Steps ctx s a s' es)
    (hq : s.exc.tasks.Holds q)
    (H : s.exc.AllTasks TaskData.Unsampled TaskData.StopsBare)
    (hsend : ∀ req, a = .send req → ∃ sr, req = .ofSample sr) (h : List (SamplerEvent δ)) :
    sumEvents (SamplerEvent.dropped ones) es = 0 ↔ Releases ⟨h, s, a⟩ := by
  have hwork : ∀ {tid : ℕ} {ret : ℤ} {req : VmonRequest δ} {exc : SamplerExecutor δ}
      {es : List (ExecutorEvent δ)}, s.exc.Steps (.workReturn tid ret req) exc es →
      sumEvents (SamplerEvent.dropped ones) (es.map .exec) = 0 := by
    intro tid ret req exc es hs
    cases hs
    rfl
  have hcollect : ∀ {tid : ℕ} {exc : SamplerExecutor δ} {es : List (ExecutorEvent δ)},
      s.exc.Steps (.collectReturn tid 0) exc es →
      sumEvents (SamplerEvent.dropped ones) (es.map .exec) = 0 := by
    intro tid exc es hs
    cases hs <;> rfl
  have hframe : ∀ {tid : ℕ} {env : Env δ},
      (∀ dom domains err, s.frames tid ≠ .listing (dom :: domains) err) →
      Releases (⟨h, s, .work tid env⟩ : SamplerMove δ) := by
    intro tid env hne dom domains err hlisting
    exact absurd hlisting (hne _ _ _)
  cases hs with
  | thread hs => exact dropped_thread_iff hs h
  | outer ha hs =>
    cases ha with
    | @send req =>
      obtain ⟨sr, rfl⟩ := hsend _ rfl
      refine iff_of_true ?_ trivial
      cases hs with
      | refuse => simp [SamplerEvent.dropped, samplerSendRequest, VmonRequest.ofSample,
          VmonRequest.held]
      | enter => rfl
    | fire =>
      cases hs
      exact iff_of_true rfl trivial
    | stop =>
      cases hs
      exact iff_of_true rfl trivial
    | start => cases hs <;> exact iff_of_true rfl trivial
  | @call i env exc es hs =>
    rw [sumEvents_afterDispatch fun _ _ _ _ => rfl]
    exact dropped_call_iff hq H hs h
  | @query tid env t f ret exc es ht hpc hclient hworking hquery hs =>
    refine iff_of_true ?_ (hframe (by simp [hworking]))
    rw [sumEvents_append, (sumEvents_sampled tid ret).2.1, hwork hs]
  | listFails ht hpc hclient hworking hlist hs =>
    exact iff_of_true (by simpa [SamplerEvent.dropped] using hwork hs) (hframe (by simp [hworking]))
  | list ht hpc hclient hworking hlist => exact iff_of_true rfl (hframe (by simp [hworking]))
  | @listDispatch tid env t dom domains err exc es ht hpc hclient hlisting hs =>
    rw [sumEvents_afterDispatch fun _ _ _ _ => rfl, dropped_listDispatch_iff hs]
    exact ⟨fun hrunning _ _ _ _ => hrunning, fun H => H _ _ _ hlisting⟩
  | listReturn ht hpc hclient hlisting hs =>
    exact iff_of_true (hwork hs) (hframe (by simp [hlisting]))
  | stopWork ht hpc hstop hworking hs => exact iff_of_true (hwork hs) (hframe (by simp [hworking]))
  | collectFails ht hpc hclient hcollecting herr hs =>
    refine iff_of_true ?_ trivial
    simp [SamplerEvent.dropped, (sumEvents_freeDomain _ _).2.1, hcollect hs]
  | collectStart | collectRecord => exact iff_of_true rfl trivial
  | collectEnd ht hpc hclient hreporting hs =>
    refine iff_of_true ?_ trivial
    simp [SamplerEvent.dropped, (sumEvents_freeDomain _ _).2.1, hcollect hs]
  | stopCollect ht hpc hstop hs => exact iff_of_true (hcollect hs) trivial

end Step

/-! ## Runs -/

/-- Lists have the same elements where all sums over them agree. -/
theorem perm_of_sums {α : Type} {l l' : List α}
    (h : ∀ f : α → ℕ, (l.map f).sum = (l'.map f).sum) : l.Perm l' := by
  classical
  have hcount : ∀ (x : α) (l : List α), (l.map fun y => if y = x then 1 else 0).sum = l.count x := by
    intro x l
    induction l with
    | nil => rfl
    | cons y l ih =>
      rw [List.map_cons, List.sum_cons, ih, List.count_cons]
      simp [add_comm]
  rw [List.perm_iff_count]
  intro x
  rw [← hcount, ← hcount, h]


section Runs

variable {ctx : VmonContext} {cap : ℕ} {h : List (SamplerEvent δ)} {s : Daemon δ}
  {q : BoundedQueue (TaskData SamplerFunction (VmonRequest δ)) cap} {w : Worth δ}

/-- What was released, in the books. -/
theorem sumEvents_released (w : Worth δ) (h : List (SamplerEvent δ)) :
    sumEvents (SamplerEvent.released w) h =
      ((freedDomains h).map w.dom).sum + ((freedRecords h).map w.records).sum := by
  induction h with
  | nil => rfl
  | cons e h ih =>
    rw [sumEvents_cons, ih]
    cases e with
    | freeDomain tid dom =>
      simp [SamplerEvent.released, freedDomains, freedRecords]
      omega
    | freeRecords tid records =>
      cases records <;> simp [SamplerEvent.released, freedDomains, freedRecords]
      omega
    | _ => simp [SamplerEvent.released, freedDomains, freedRecords]

/-- What was obtained. -/
theorem sumEvents_obtained (w : Worth δ) (h : List (SamplerEvent δ)) :
    sumEvents (SamplerEvent.obtained w) h =
      ((listedDomains h).map w.dom).sum + ((sampledRecords h).map w.records).sum := by
  induction h with
  | nil => rfl
  | cons e h ih =>
    rw [sumEvents_cons, ih]
    cases e with
    | listed tid domains =>
      simp [SamplerEvent.obtained, listedDomains, sampledRecords]
      omega
    | sampled tid records =>
      simp [SamplerEvent.obtained, listedDomains, sampledRecords]
      omega
    | _ => simp [SamplerEvent.obtained, listedDomains, sampledRecords]

/-- Everything was released exactly if the books agree on every object. -/
theorem released_iff : Released h ↔ ∀ w : Worth δ,
    sumEvents (SamplerEvent.released w) h = sumEvents (SamplerEvent.obtained w) h := by
  simp only [sumEvents_released, sumEvents_obtained]
  constructor
  · intro H w
    rw [(H.domains.map w.dom).sum_eq, (H.records.map w.records).sum_eq]
  · intro H
    constructor
    · apply perm_of_sums
      intro f
      have := H ⟨f, fun _ => 0⟩
      simpa using this
    · apply perm_of_sums
      intro g
      have := H ⟨fun _ => 0, g⟩
      simpa using this

/-- A stop task holds nothing. -/
theorem held_of_stop {task : TaskData SamplerFunction (VmonRequest δ)}
    (hdom : task.arg.dom = none) (hrecords : task.arg.records = none) : task.held w = 0 := by
  simp [TaskData.held, VmonRequest.held, VmonRequest.domHeld, VmonRequest.recordsHeld, hdom,
    hrecords]

theorem threadHeld_of_stop {t : Thread SamplerFunction (VmonRequest δ)} {frame : Frame δ}
    (hcarries : t.Carries TaskData.Unsampled TaskData.StopsBare)
    (hstop : t.task.td.work = .stopWorker) : threadHeld w t frame = 0 := by
  have hfresh : t.task.Unsampled → t.task.held w = 0 := fun H =>
    held_of_stop (H.stop (.inl hstop)).2 H.records
  have hdone : t.task.StopsBare → t.task.held w = 0 ∧ t.task.arg.domHeld w = 0 := by
    intro H
    obtain ⟨hdom, hrecords⟩ := H (.inl hstop)
    exact ⟨held_of_stop hdom hrecords, by simp [VmonRequest.domHeld, hdom]⟩
  cases hpc : t.pc <;> simp only [Thread.Carries, hpc] at hcarries <;> simp only [threadHeld, hpc]
  case working =>
    rw [hfresh hcarries]
    cases frame <;> simp [listingHeld, hstop]
  case collecting =>
    obtain ⟨hheld, hdom⟩ := hdone hcarries
    cases frame <;> simp [collectHeld, hheld, hdom]
  all_goals first | exact hfresh hcarries | exact (hdone hcarries).1

/-- **Once all accepted tasks were collected the daemon holds nothing.** -/
theorem AllCollected.held (hdone : AllCollected s) (hq : s.exc.tasks.Holds q)
    (H : s.exc.AllTasks TaskData.Unsampled TaskData.StopsBare) : s.held w q.elems = 0 := by
  have hqueue : (q.elems.map (TaskData.held w)).sum = 0 := by
    apply List.sum_eq_zero
    intro n hn
    obtain ⟨task, htask, rfl⟩ := List.mem_map.mp hn
    have hheld : some task ∈ s.exc.tasks.heldElems := by
      rw [hq.heldElems_eq]
      exact List.mem_map_of_mem htask
    have hstop := hdone.queue task hheld
    obtain ⟨k, -, hk⟩ := List.mem_map.mp hheld
    have hfresh := H.queue _ task hk
    exact held_of_stop (hfresh.stop (.inl hstop)).2 hfresh.records
  have hcalls : (s.exc.calls.map (callHeld w)).sum = 0 := by
    apply List.sum_eq_zero
    intro n hn
    obtain ⟨call, hcall, rfl⟩ := List.mem_map.mp hn
    cases call with
    | stop => rfl
    | dispatch caller args =>
      have hrecords : args.data.records = none := (H.calls caller args hcall).records
      simp [callHeld, VmonRequest.held, VmonRequest.domHeld, VmonRequest.recordsHeld,
        hdone.calls caller args hcall, hrecords]
  have hthreads : s.sumThreads (threadHeld w) = 0 := by
    apply Daemon.sumThreads_eq_zero
    intro tid t ht
    rcases hdone.threads t (List.mem_of_getElem? ht) with hpc | hpc | hpc | hstop
    · simp only [threadHeld, hpc]
    · simp only [threadHeld, hpc]
    · simp only [threadHeld, hpc]
    · exact threadHeld_of_stop (H.holder tid t ht) hstop
  rw [Daemon.held, hqueue, hcalls, hthreads]

/-- The daemon starts with nothing. -/
theorem held_started (w : Worth δ) (workersCount maxTasks : ℕ) :
    (Daemon.started workersCount maxTasks : Daemon δ).held w [] = 0 := by
  obtain ⟨workers, hstarted, -⟩ := Executor.started_eq (ι := SamplerFunction)
    (β := VmonRequest δ) workersCount maxTasks
  have hthreads : (Daemon.started workersCount maxTasks : Daemon δ).sumThreads
      (threadHeld w) = 0 := by
    apply Daemon.sumThreads_eq_zero
    intro tid t ht
    rw [Daemon.started, hstarted] at ht
    obtain ⟨_, -, -, rfl⟩ := Executor.mem_startThreads (List.mem_of_getElem? ht)
    rfl
  have hcalls : (Daemon.started workersCount maxTasks : Daemon δ).exc.calls = [] := by
    rw [Daemon.started, hstarted]
    rfl
  rw [Daemon.held, hthreads, hcalls]
  rfl

end Runs

/-- **When everything is released**: exactly as long as every move of the run is one that
releases. -/
theorem release_iff {ctx : VmonContext} {workersCount maxTasks : ℕ}
    {moves : List (SamplerMove δ)} {h : List (SamplerEvent δ)} {s : Daemon δ}
    (hfit : SlotsFit maxTasks taskDataSize)
    (hr : (samplerSystem δ ctx).Run (Daemon.started workersCount maxTasks) moves h s)
    (hsend : ∀ m ∈ moves, ∀ req, m.action = .send req → ∃ sr, req = .ofSample sr)
    (hdone : AllCollected s) : Released h ↔ ∀ m ∈ moves, Releases m := by
  have hrun : ∃ q : BoundedQueue (TaskData SamplerFunction (VmonRequest δ)) maxTasks,
      s.exc.tasks.Holds q ∧ s.exc.AllTasks TaskData.Unsampled TaskData.StopsBare ∧
      (∀ w, sumEvents (SamplerEvent.released w) h + sumEvents (SamplerEvent.dropped w) h +
        s.held w q.elems = sumEvents (SamplerEvent.obtained w) h) ∧
      (sumEvents (SamplerEvent.dropped ones) h = 0 ↔ ∀ m ∈ moves, Releases m) := by
    clear hdone
    induction hr with
    | init =>
      obtain ⟨workers, hstarted, -⟩ := Executor.started_eq (ι := SamplerFunction)
        (β := VmonRequest δ) workersCount maxTasks
      refine ⟨.empty, ?_, Executor.AllTasks.of_started _ _, ?_, by simp⟩
      · rw [Daemon.started, hstarted]
        exact RingBuffer.holds_init (by decide) hfit rfl
      · intro w
        simpa using held_started w workersCount maxTasks
    | @step moves h s s' a es hr hs ih =>
      obtain ⟨q, hq, H, hheld, hdropped⟩ := ih fun m hm => hsend m (List.mem_append_left _ hm)
      have hfresh : ∀ req, a = .send req → ∃ sr, req = .ofSample sr :=
        hsend ⟨h, s, a⟩ (by simp)
      have hstep := Daemon.step_cases hs
      obtain ⟨q', hq', hbooks⟩ := hstep.accounts hq H hfresh
      refine ⟨q', hq', hstep.unsampled H hfresh, fun w => ?_, ?_⟩
      · have hbefore := hheld w
        have hafter := hbooks w
        simp only [sumEvents_append]
        omega
      · rw [sumEvents_append, Nat.add_eq_zero_iff, hdropped, hstep.dropped_iff hq H hfresh h]
        simp [or_imp, forall_and]
  obtain ⟨q, hq, H, hheld, hdropped⟩ := hrun
  have hbooks : ∀ w, sumEvents (SamplerEvent.released w) h + sumEvents (SamplerEvent.dropped w) h =
      sumEvents (SamplerEvent.obtained w) h := by
    intro w
    have := hheld w
    rwa [hdone.held hq H, Nat.add_zero] at this
  rw [← hdropped, released_iff]
  constructor
  · intro hall
    have := hbooks ones
    have := hall ones
    omega
  · intro hones w
    have := hbooks w
    have := sumEvents_dropped_of_ones hones w
    omega

/-! ## One request -/

private def allCollected (s : Daemon ℕ) : Bool :=
  s.exc.tasks.heldElems.isEmpty && s.exc.calls.isEmpty &&
    s.exc.threads.all fun t => t.pc = .get

private theorem allCollected_of {s : Daemon ℕ} (h : allCollected s = true) : AllCollected s := by
  simp only [allCollected, Bool.and_eq_true, List.isEmpty_iff, List.all_eq_true,
    decide_eq_true_eq] at h
  obtain ⟨⟨hqueue, hcalls⟩, hthreads⟩ := h
  exact ⟨by simp [hqueue], fun t ht => .inl (hthreads t ht), by simp [hcalls]⟩

/-- A request, its listing with a call of `executor_dispatch` for each of `n` domains, and `k`
steps of its collect function. -/
private def listingSteps (env : Env ℕ) (n k : ℕ) : List (SamplerAction ℕ) :=
  requestSteps env ++ [SamplerAction.thread 0, .work 0 env] ++
    (List.replicate n [SamplerAction.work 0 env, .call 0 env]).flatten ++
    [SamplerAction.work 0 env] ++ List.replicate 4 (SamplerAction.thread 0) ++
    List.replicate k (SamplerAction.collect 0 env)

/-- The task of a domain with one record. -/
private def domainSteps (env : Env ℕ) : List (SamplerAction ℕ) :=
  List.replicate 4 (SamplerAction.thread 0) ++ [SamplerAction.work 0 env] ++
    List.replicate 4 (SamplerAction.thread 0) ++ List.replicate 3 (SamplerAction.collect 0 env)

/-- The same, where its timer fires after its query. -/
private def discardedSteps (env : Env ℕ) : List (SamplerAction ℕ) :=
  List.replicate 4 (SamplerAction.thread 0) ++ [SamplerAction.work 0 env, .fire 2 true] ++
    List.replicate 3 (SamplerAction.thread 0) ++ [SamplerAction.collect 0 env]

/-- Domain `0` and its record are released. -/
theorem release_iff_one_domain : ∃ (moves : List (SamplerMove ℕ)) (h : List (SamplerEvent ℕ))
    (s : Daemon ℕ),
    (samplerSystem ℕ sampleContext).Run (Daemon.started 1 4) moves h s ∧ AllCollected s ∧
      freedDomains h = [0] ∧ (Released h ↔ ∀ m ∈ moves, Releases m) := by
  let env := sampleEnv (some [0]) (some [⟨0, []⟩])
  obtain ⟨moves, h, s, hr, hmoves, hp⟩ := Lts.exists_run_of_trace
    (samplerSystem ℕ sampleContext) (Daemon.started 1 4) (listingSteps env 1 2 ++ domainSteps env)
    (fun _ h s => allCollected s && decide (freedDomains h = [0])) (by decide +kernel)
  simp only [Bool.and_eq_true, decide_eq_true_eq] at hp
  refine ⟨moves, h, s, hr, allCollected_of hp.1, hp.2, ?_⟩
  refine release_iff (by decide : SlotsFit (4 : ℕ) taskDataSize) hr ?_ (allCollected_of hp.1)
  intro m hm req hsend
  have hmem : m.action ∈ listingSteps env 1 2 ++ domainSteps env :=
    hmoves ▸ List.mem_map_of_mem hm
  have hreq : (.send req : SamplerAction ℕ) ∈ listingSteps env 1 2 ++ domainSteps env :=
    hsend ▸ hmem
  exact ⟨_, by simpa [listingSteps, requestSteps, domainSteps] using hreq⟩

/-- A full queue leaves the second domain with nobody, and a timeout the records of a task. -/
theorem release_fails :
    (∃ (moves : List (SamplerMove ℕ)) (h : List (SamplerEvent ℕ)) (s : Daemon ℕ),
      (samplerSystem ℕ sampleContext).Run (Daemon.started 1 1) moves h s ∧ AllCollected s ∧
        listedDomains h = [0, 1] ∧ freedDomains h = [0] ∧ ¬Released h) ∧
    ∃ (moves : List (SamplerMove ℕ)) (h : List (SamplerEvent ℕ)) (s : Daemon ℕ),
      (samplerSystem ℕ sampleContext).Run (Daemon.started 1 4) moves h s ∧ AllCollected s ∧
        (sampledRecords h).length = 1 ∧ (freedRecords h).length = 0 ∧ ¬Released h := by
  constructor
  · let env := sampleEnv (some [0, 1]) (some [⟨0, []⟩])
    obtain ⟨moves, h, s, hr, -, hp⟩ := Lts.exists_run_of_trace
      (samplerSystem ℕ sampleContext) (Daemon.started 1 1)
      (listingSteps env 2 1 ++ domainSteps env)
      (fun _ h s => allCollected s && decide (listedDomains h = [0, 1]) &&
        decide (freedDomains h = [0])) (by decide +kernel)
    simp only [Bool.and_eq_true, decide_eq_true_eq] at hp
    obtain ⟨⟨hdone, hlisted⟩, hfreed⟩ := hp
    refine ⟨moves, h, s, hr, allCollected_of hdone, hlisted, hfreed, ?_⟩
    intro H
    have hlength := H.domains.length_eq
    simp [hlisted, hfreed] at hlength
  · let env := sampleEnv (some [0]) (some [⟨0, []⟩])
    obtain ⟨moves, h, s, hr, -, hp⟩ := Lts.exists_run_of_trace
      (samplerSystem ℕ sampleContext) (Daemon.started 1 4)
      (listingSteps env 1 2 ++ discardedSteps env)
      (fun _ h s => allCollected s && decide ((sampledRecords h).length = 1) &&
        decide ((freedRecords h).length = 0)) (by decide +kernel)
    simp only [Bool.and_eq_true, decide_eq_true_eq] at hp
    obtain ⟨⟨hdone, hsampled⟩, hfreed⟩ := hp
    refine ⟨moves, h, s, hr, allCollected_of hdone, hsampled, hfreed, ?_⟩
    intro H
    have hlength := H.records.length_eq
    simp [hsampled, hfreed] at hlength

end Vmon
