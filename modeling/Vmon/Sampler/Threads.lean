import Vmon.Sampler.Steps

/-!
# The daemon as one thread sees it

Between the call of a work function and the return of the collect function, a thread goes
through its task alone: the others only mark the task as discarded. `Local` lists what the
thread does of a step of the daemon, on its own data (`View`), and `Replay` is a run of it.
`replay_of_run` finds in every run of the daemon the replay of each thread.

## Main definitions

* `SamplerEvent.tid`, `SamplerAction.mover` — whose event, and whose step.
* `View` — the thread, its frame, and its call of `executor_dispatch`.
* `TaskInput` — what the environment answers to the task.
* `Local`, `Replay` — the sequential program.
-/

namespace Vmon

/-! ## The view -/

variable {δ : Type}

/-- The thread that an event is about. -/
def SamplerEvent.tid : SamplerEvent δ → Option ℕ
  | .exec e => e.tid
  | .listed tid _ | .sampled tid _ | .response tid _ _ _ _ | .error tid _ _ _ | .freeDomain tid _
  | .freeRecords tid _ => some tid

/-- The thread that makes the step. -/
def SamplerAction.mover (s : Daemon δ) : SamplerAction δ → Option ℕ
  | .thread tid | .work tid _ | .collect tid _ => some tid
  | .call i _ => s.exc.mover (.call i)
  | _ => none

/-- What the sampler has of one thread: the thread, where it is inside a task function, and
its call of `executor_dispatch`. -/
structure View (δ : Type) where
  thread : Thread SamplerFunction (VmonRequest δ)
  frame : Frame δ
  pending : List (DispatchArgs SamplerFunction (VmonRequest δ))

def Daemon.view (s : Daemon δ) (tid : ℕ) : Option (View δ) :=
  (s.exc.threads[tid]?).map fun t => ⟨t, s.frames tid, s.exc.pending tid⟩

/-- What the environment answers to a task: the result of its query, and the value of
`vminfo_parse` for a record. -/
inductive TaskInput (δ : Type)
  | answer (ret : Option (List (StatsRecord δ)))
  | parsed (record : StatsRecord δ) (code : ℤ)

/-- What a move answers to the task of thread `tid`. -/
def taskInput (tid : ℕ) (m : SamplerMove δ) : Option (TaskInput δ) :=
  match m.action with
  | .work j env =>
    if j = tid then
      (m.pre.view tid).bind fun v =>
        match v.thread.task.td.work, v.frame with
        | .client .sampleDomainWork, .working =>
          some (.answer (sampleDomainQuery env v.thread.task.arg))
        | .client .bulkSamplingWork, .working =>
          some (.answer (bulkSamplingQuery env v.thread.task.arg))
        | _, _ => none
    else none
  | .collect j env =>
    if j = tid then
      match m.pre.frames tid with
      | .reporting _ (record :: _) =>
        some (.parsed record (vminfoParse env.host vminfoInit record).1)
      | _ => none
    else none
  | _ => none

namespace View

/-- The thread after its work function returned. -/
def returned (v : View δ) (ret : ℤ) (req : VmonRequest δ) : View δ :=
  { thread := { v.thread with pc := .worked, err := ret, task := v.thread.task.setArg req }
    frame := .outside
    pending := [] }

/-- The thread after its collect function returned. -/
def ended (v : View δ) : View δ :=
  { thread := { v.thread with pc := .get, err := 0 }, frame := .outside, pending := v.pending }

/-- Where `executor_dispatch` returns `ret` to the loop over the domains. -/
def dispatched (v : View δ) (ret : ℤ) : View δ :=
  { v with
    frame := match v.frame with
      | .listing domains _ => .listing domains ret
      | frame => frame
    pending := [] }

/-- The thread carries out a task of the sampler, from inside its work function on. -/
structure InTask (v : View δ) : Prop where
  pc : v.thread.pc ∈ [Pc.working, .worked, .cleared, .deleting, .finished, .collecting]
  work : ∃ f, v.thread.task.td.work = .client f
  collect : v.thread.task.td.collect = .client .samplingCollect
  pending : v.pending.length ≤ 1

end View

open Daemon in
/-- **What thread `tid` does alone**: its input, what it makes visible, and where it is then. -/
inductive Local (ctx : VmonContext) (tid : ℕ) (v : View δ) :
    Option (TaskInput δ) → List (SamplerEvent δ) → View δ → Prop
  | stay : Local ctx tid v none [] v
  | mark : Local ctx tid v none [] { v with thread := v.thread.mark }
  | query {env : Env δ} {f : SamplerFunction} {ret : Option (List (StatsRecord δ))}
      (hpc : v.thread.pc = .working) (hwork : v.thread.task.td.work = .client f)
      (hframe : v.frame = .working) (hquery : Query env v.thread.task.arg f ret) :
      Local ctx tid v (some (.answer ret))
        (ret.toList.map (.sampled tid) ++ [.exec (.workReturned tid v.thread.ticket 0
          (v.thread.task.arg.store ret))])
        (v.returned 0 (v.thread.task.arg.store ret))
  | listFails {env : Env δ} (hpc : v.thread.pc = .working)
      (hwork : v.thread.task.td.work = .client .listDomainsWork) (hframe : v.frame = .working) :
      Local ctx tid v none
        [.error tid env v.thread.task.arg.dom (collectError env v.thread.task.arg libvirtError false),
          .exec (.workReturned tid v.thread.ticket libvirtError v.thread.task.arg)]
        (v.returned libvirtError v.thread.task.arg)
  | list {domains : List δ} (hpc : v.thread.pc = .working)
      (hwork : v.thread.task.td.work = .client .listDomainsWork) (hframe : v.frame = .working) :
      Local ctx tid v none [.listed tid domains] { v with frame := .listing domains 0 }
  | refuse {env : Env δ} {dom : δ} {domains : List δ} {err ret : ℤ} (hpc : v.thread.pc = .working)
      (hwork : v.thread.task.td.work = .client .listDomainsWork)
      (hframe : v.frame = .listing (dom :: domains) err) (hpending : v.pending = [])
      (hret : ret ≠ 0) :
      Local ctx tid v none
        (afterDispatch env
          (.dispatched (.worker tid) (listDomainsDispatch ctx v.thread.task.arg dom) ret))
        { v with frame := .listing domains ret }
  | enter {dom : δ} {domains : List δ} {err : ℤ} (hpc : v.thread.pc = .working)
      (hwork : v.thread.task.td.work = .client .listDomainsWork)
      (hframe : v.frame = .listing (dom :: domains) err) (hpending : v.pending = []) :
      Local ctx tid v none []
        { v with
          frame := .listing domains err
          pending := [listDomainsDispatch ctx v.thread.task.arg dom] }
  | put {env : Env δ} {args : DispatchArgs SamplerFunction (VmonRequest δ)} {ret : ℤ}
      (hpending : v.pending = [args]) :
      Local ctx tid v none (afterDispatch env (.dispatched (.worker tid) args ret))
        (v.dispatched ret)
  | listReturn {err : ℤ} (hpc : v.thread.pc = .working)
      (hwork : v.thread.task.td.work = .client .listDomainsWork)
      (hframe : v.frame = .listing [] err) (hpending : v.pending = []) :
      Local ctx tid v none [.exec (.workReturned tid v.thread.ticket err v.thread.task.arg)]
        (v.returned err v.thread.task.arg)
  | statement {pc : Pc} {es : List (ExecutorEvent δ)}
      (hpc : (v.thread.pc, pc) ∈ [(Pc.worked, Pc.cleared), (.cleared, .finished),
        (.cleared, .deleting), (.deleting, .finished)])
      (hes : es = [] ∨ ∃ id, es = [.deleted tid v.thread.ticket id]) :
      Local ctx tid v none (es.map .exec) { v with thread := { v.thread with pc := pc } }
  | callCollect (hpc : v.thread.pc = .finished) :
      Local ctx tid v none
        [.exec (.collectCalled tid v.thread.ticket v.thread.task.td.collect v.thread.task.arg
          v.thread.err v.thread.task.td.discarded)]
        { v with
          thread := { v.thread with pc := .collecting }
          frame := .collecting v.thread.err v.thread.task.td.discarded }
  | collectFails {env : Env δ} {error : ℤ} {timeout : Bool} (hpc : v.thread.pc = .collecting)
      (hframe : v.frame = .collecting error timeout) (herr : error ≠ 0 ∨ timeout = true) :
      Local ctx tid v none
        (.error tid env v.thread.task.arg.dom (collectError env v.thread.task.arg error timeout) ::
          freeDomain tid v.thread.task.arg ++ [.exec (.collectReturned tid v.thread.ticket 0)])
        v.ended
  | collectStart {ts : UInt64} (hpc : v.thread.pc = .collecting)
      (hframe : v.frame = .collecting 0 false) :
      Local ctx tid v none [] { v with frame := .reporting ts v.thread.task.arg.reported }
  | collectRecord {env : Env δ} {ts : UInt64} {record : StatsRecord δ}
      {records : List (StatsRecord δ)} (hpc : v.thread.pc = .collecting)
      (hframe : v.frame = .reporting ts (record :: records)) :
      Local ctx tid v (some (.parsed record (vminfoParse env.host vminfoInit record).1))
        [.response tid env record.dom (collectRecord ctx env ts v.thread.task.arg record).1
          (collectRecord ctx env ts v.thread.task.arg record).2]
        { v with frame := .reporting ts records }
  | collectEnd {ts : UInt64} (hpc : v.thread.pc = .collecting)
      (hframe : v.frame = .reporting ts []) :
      Local ctx tid v none
        (.freeRecords tid v.thread.task.arg.records :: freeDomain tid v.thread.task.arg ++
          [.exec (.collectReturned tid v.thread.ticket 0)])
        v.ended

/-! ## The simulation -/

namespace Daemon

variable {ctx : VmonContext} {s s' : Daemon δ} {tid : ℕ}
  {t t' : Thread SamplerFunction (VmonRequest δ)}

theorem view_eq (ht : s.exc.threads[tid]? = some t) :
    s.view tid = some ⟨t, s.frames tid, s.exc.pending tid⟩ := by
  rw [view, ht, Option.map_some]

theorem view_set (ht : s.exc.threads[tid]? = some t)
    (hthreads : s'.exc.threads = s.exc.threads.set tid t') :
    s'.view tid = some ⟨t', s'.frames tid, s'.exc.pending tid⟩ := by
  have hlt := (List.getElem?_eq_some_iff.mp ht).1
  apply view_eq
  rw [hthreads, List.getElem?_set_self hlt]

theorem follow_other {frames : ℕ → Frame δ} {e : ExecutorEvent δ} (he : e.tid ≠ some tid) :
    follow frames e tid = frames tid := by
  have hne : ∀ {j : ℕ}, some j ≠ some tid → tid ≠ j := fun h heq => h (by rw [heq])
  cases e with
  | workCalled j => exact Function.update_of_ne (hne he) _ _
  | workReturned j => exact Function.update_of_ne (hne he) _ _
  | collectCalled j => exact Function.update_of_ne (hne he) _ _
  | collectReturned j => exact Function.update_of_ne (hne he) _ _
  | dispatched caller args ret =>
    cases caller with
    | client => rfl
    | worker j =>
      cases hframe : frames j with
      | listing domains err =>
        simp only [follow, hframe]
        exact Function.update_of_ne (hne he) _ _
      | _ => simp only [follow, hframe]
  | _ => rfl

theorem foldl_follow_other {frames : ℕ → Frame δ} {es : List (ExecutorEvent δ)}
    (hes : ∀ e ∈ es, e.tid ≠ some tid) : es.foldl follow frames tid = frames tid := by
  induction es generalizing frames with
  | nil => rfl
  | cons e es ih =>
    obtain ⟨he, hes⟩ := List.forall_mem_cons.mp hes
    rw [List.foldl_cons, ih hes, follow_other he]

theorem afterDispatch_tid (env : Env δ) (e : ExecutorEvent δ) :
    ∀ e' ∈ afterDispatch env e, e'.tid = e.tid := by
  intro e' he'
  rcases e with ⟨_ | j, args, ret⟩ | _ <;> simp only [afterDispatch] at he'
  case dispatched.worker =>
    split at he' <;> simp only [List.mem_cons, List.not_mem_nil, or_false] at he'
    · rcases he' with rfl | rfl <;> rfl
    · rw [he']
      rfl
  all_goals
    rw [List.mem_singleton.mp he']
    rfl

variable (ctx) in
/-- What a thread sees of a step of the executor that is not its own. -/
theorem local_kept {exc : SamplerExecutor δ} {es : List (ExecutorEvent δ)}
    (hk : Executor.Kept tid t s.exc exc es) : ∃ v', (s.after exc es).view tid = some v' ∧
      Local ctx tid ⟨t, s.frames tid, s.exc.pending tid⟩ none [] v' := by
  obtain ⟨t', ht', heq⟩ := hk.thread
  refine ⟨_, view_eq ht', ?_⟩
  have hframe : (s.after exc es).frames tid = s.frames tid := foldl_follow_other hk.events
  rw [hframe, after_exc, hk.pending]
  rcases heq with rfl | rfl
  · exact .stay
  · exact .mark

theorem view_setFrame_other {j : ℕ} (ht : s.exc.threads[tid]? = some t) (hne : some j ≠ some tid)
    (frame : Frame δ) :
    (s.setFrame j frame).view tid = some ⟨t, s.frames tid, s.exc.pending tid⟩ := by
  have hj : tid ≠ j := fun h => hne (by rw [h])
  rw [view_eq (s := s.setFrame j frame) ht]
  have hframe : (s.setFrame j frame).frames tid = s.frames tid := Function.update_of_ne hj _ _
  rw [hframe]
  rfl

/-- A step of another thread, or of none. -/
theorem local_other {a : SamplerAction δ} {es : List (SamplerEvent δ)}
    (hs : Steps ctx s a s' es) (ht : s.exc.threads[tid]? = some t) (hne : a.mover s ≠ some tid) :
    (∃ v', s'.view tid = some v' ∧
      Local ctx tid ⟨t, s.frames tid, s.exc.pending tid⟩ none [] v') ∧
    ∀ e ∈ es, e.tid ≠ some tid := by
  have hexec : ∀ {es' : List (ExecutorEvent δ)}, (∀ e ∈ es', e.tid ≠ some tid) →
      ∀ e ∈ es'.map SamplerEvent.exec, e.tid ≠ some tid := by
    intro es' h e he
    obtain ⟨e', he', rfl⟩ := List.mem_map.mp he
    exact h e' he'
  have hafter : ∀ {es' : List (ExecutorEvent δ)} {env : Env δ}, (∀ e ∈ es', e.tid ≠ some tid) →
      ∀ e ∈ es'.flatMap (afterDispatch env), e.tid ≠ some tid := by
    intro es' env h e he
    obtain ⟨e', he', he⟩ := List.mem_flatMap.mp he
    rw [afterDispatch_tid env e' e he]
    exact h e' he'
  have hbefore : ∀ {before es' : List (SamplerEvent δ)}, (∀ e ∈ before, e.tid ≠ some tid) →
      (∀ e ∈ es', e.tid ≠ some tid) → ∀ e ∈ before ++ es', e.tid ≠ some tid := by
    intro before es' h h' e he
    rcases List.mem_append.mp he with he | he
    · exact h e he
    · exact h' e he
  have hfree : ∀ {j : ℕ} {req : VmonRequest δ}, some j ≠ some tid →
      ∀ e ∈ freeDomain j req, e.tid ≠ some tid := by
    intro j req hj e he
    obtain ⟨dom, -, rfl⟩ := List.mem_map.mp he
    exact hj
  cases hs with
  | thread hs =>
    have hk := hs.kept ht hne
    exact ⟨local_kept ctx hk, hexec hk.events⟩
  | outer ha hs =>
    have hk := hs.kept ht (by cases ha <;> simp [Executor.mover])
    exact ⟨local_kept ctx hk, hexec hk.events⟩
  | call hs =>
    have hk := hs.kept ht hne
    exact ⟨local_kept ctx hk, hafter hk.events⟩
  | @query _ _ _ _ ret _ _ hu hpc hwork hframe hquery hs =>
    have hk := hs.kept ht hne
    refine ⟨local_kept ctx hk, hbefore ?_ (hexec hk.events)⟩
    intro e he
    obtain ⟨records, -, rfl⟩ := List.mem_map.mp he
    exact hne
  | listFails hu hpc hwork hframe hlist hs =>
    have hk := hs.kept ht hne
    exact ⟨local_kept ctx hk, List.forall_mem_cons.mpr ⟨hne, hexec hk.events⟩⟩
  | list hu hpc hwork hframe hlist =>
    exact ⟨⟨_, view_setFrame_other ht hne _, .stay⟩, List.forall_mem_singleton.mpr hne⟩
  | @listDispatch j _ _ _ domains err _ _ hu hpc hwork hframe hs =>
    have hk := hs.kept ht hne
    have hk' : Executor.Kept tid t (s.setFrame j (.listing domains err)).exc _ _ := hk
    have hj : tid ≠ j := fun h => hne (by rw [h]; rfl)
    have hsame : (s.setFrame j (.listing domains err)).frames tid = s.frames tid :=
      Function.update_of_ne hj _ _
    have hview := local_kept ctx hk'
    rw [hsame] at hview
    exact ⟨hview, hafter hk.events⟩
  | listReturn hu hpc hwork hframe hs =>
    have hk := hs.kept ht hne
    exact ⟨local_kept ctx hk, hexec hk.events⟩
  | stopWork hu hpc hwork hframe hs =>
    have hk := hs.kept ht hne
    exact ⟨local_kept ctx hk, hexec hk.events⟩
  | collectFails hu hpc hcollect hframe herr hs =>
    have hk := hs.kept ht hne
    refine ⟨local_kept ctx hk, hbefore ?_ (hexec hk.events)⟩
    exact List.forall_mem_cons.mpr ⟨hne, hfree hne⟩
  | collectStart hu hpc hcollect hframe =>
    exact ⟨⟨_, view_setFrame_other ht hne _, .stay⟩, by simp⟩
  | collectRecord hu hpc hcollect hframe =>
    exact ⟨⟨_, view_setFrame_other ht hne _, .stay⟩, List.forall_mem_singleton.mpr hne⟩
  | collectEnd hu hpc hcollect hframe hs =>
    have hk := hs.kept ht hne
    refine ⟨local_kept ctx hk, hbefore ?_ (hexec hk.events)⟩
    exact List.forall_mem_cons.mpr ⟨hne, hfree hne⟩
  | stopCollect hu hpc hcollect hs =>
    have hk := hs.kept ht hne
    exact ⟨local_kept ctx hk, hexec hk.events⟩

/-- A statement of `worker_execute` between the two functions of a task. -/
theorem local_thread {exc : SamplerExecutor δ} {es : List (ExecutorEvent δ)}
    (ht : s.exc.threads[tid]? = some t)
    (hin : (⟨t, s.frames tid, s.exc.pending tid⟩ : View δ).InTask)
    (hs : s.exc.Steps (.thread tid) exc es) :
    ∃ v', (s.after exc es).view tid = some v' ∧
      Local ctx tid ⟨t, s.frames tid, s.exc.pending tid⟩ none (es.map .exec) v' := by
  have hpcs := hin.pc
  cases hs with
  | @clearCurrent _ u hu hpc =>
    obtain rfl : u = t := by simpa [ht] using hu.symm
    exact ⟨_, view_set hu rfl, .statement (by simp [hpc]) (.inl rfl)⟩
  | @keepTimer _ u hu hpc htest =>
    obtain rfl : u = t := by simpa [ht] using hu.symm
    exact ⟨_, view_set hu rfl, .statement (by simp [hpc]) (.inl rfl)⟩
  | @dropTimer _ u hu hpc htimeout hdiscarded =>
    obtain rfl : u = t := by simpa [ht] using hu.symm
    exact ⟨_, view_set hu rfl, .statement (by simp [hpc]) (.inl rfl)⟩
  | @deleteTimer _ u w hu hpc hw =>
    obtain rfl : u = t := by simpa [ht] using hu.symm
    exact ⟨_, view_set hu rfl, .statement (by simp [hpc]) (.inr ⟨_, rfl⟩)⟩
  | @callCollect _ u hu hpc =>
    obtain rfl : u = t := by simpa [ht] using hu.symm
    refine ⟨_, view_set hu rfl, ?_⟩
    have hframe : (s.after (s.exc.setThread tid { u with pc := .collecting })
        [.collectCalled tid u.ticket u.task.td.collect u.task.arg u.err
          u.task.td.discarded]).frames tid = .collecting u.err u.task.td.discarded :=
      Function.update_self ..
    rw [hframe]
    exact .callCollect hpc
  | @wait _ u _ hu hpc =>
    obtain rfl : u = t := by simpa [ht] using hu.symm
    rcases hpc with hpc | hpc <;> simp [hpc] at hpcs
  | @take _ u _ _ hu hpc =>
    obtain rfl : u = t := by simpa [ht] using hu.symm
    rcases hpc with hpc | hpc <;> simp [hpc] at hpcs
  | @takeUndefined _ u _ hu hpc =>
    obtain rfl : u = t := by simpa [ht] using hu.symm
    rcases hpc with hpc | hpc <;> simp [hpc] at hpcs
  | @arm _ u hu hpc =>
    obtain rfl : u = t := by simpa [ht] using hu.symm
    simp [hpc] at hpcs
  | @skipTimer _ u hu hpc =>
    obtain rfl : u = t := by simpa [ht] using hu.symm
    simp [hpc] at hpcs
  | @setCurrent _ u hu hpc =>
    obtain rfl : u = t := by simpa [ht] using hu.symm
    simp [hpc] at hpcs
  | @callWork _ u hu hpc =>
    obtain rfl : u = t := by simpa [ht] using hu.symm
    simp [hpc] at hpcs

/-- The return of a work function of the sampler. -/
theorem view_workReturn {exc : SamplerExecutor δ} {es : List (ExecutorEvent δ)} {ret : ℤ}
    {req : VmonRequest δ} (ht : s.exc.threads[tid]? = some t)
    (hwork : ∃ f, t.task.td.work = .client f) (hs : s.exc.Steps (.workReturn tid ret req) exc es) :
    (s.after exc es).view tid =
        some ((⟨t, s.frames tid, s.exc.pending tid⟩ : View δ).returned ret req) ∧
      es = [.workReturned tid t.ticket ret req] ∧ s.exc.pending tid = [] := by
  cases hs with
  | @returnWork _ u _ _ hu hpc hcalling =>
    obtain rfl : u = t := by simpa [ht] using hu.symm
    obtain ⟨f, hf⟩ := hwork
    have hresult : Executor.workResult u ret req = (ret, req) := by
      simp [Executor.workResult, hf]
    have hpending := Executor.calling_eq_false hcalling
    simp only [hresult]
    refine ⟨?_, trivial, hpending⟩
    rw [view_set hu rfl]
    have hframe : ∀ exc', (s.after exc' [.workReturned tid u.ticket ret req]).frames tid =
        .outside := fun _ => Function.update_self ..
    rw [hframe]
    exact congrArg (fun p => some (View.mk _ _ p)) hpending

/-- The return of `sampling_collect`. -/
theorem view_collectReturn {exc : SamplerExecutor δ} {es : List (ExecutorEvent δ)}
    (ht : s.exc.threads[tid]? = some t) (hcollect : t.task.td.collect = .client .samplingCollect)
    (hs : s.exc.Steps (.collectReturn tid 0) exc es) :
    (s.after exc es).view tid =
        some (⟨t, s.frames tid, s.exc.pending tid⟩ : View δ).ended ∧
      es = [.collectReturned tid t.ticket 0] := by
  have hresult : ∀ u : Thread SamplerFunction (VmonRequest δ), u = t →
      Executor.collectResult u 0 = 0 := by
    rintro u rfl
    simp [Executor.collectResult, hcollect]
  cases hs with
  | @loop _ u _ hu hpc hret =>
    obtain rfl : u = t := by simpa [ht] using hu.symm
    refine ⟨?_, rfl⟩
    rw [view_set hu rfl]
    have hframe : ∀ exc', (s.after exc' [.collectReturned tid u.ticket 0]).frames tid =
        .outside := fun _ => Function.update_self ..
    rw [hframe]
    rfl
  | @exit _ u _ hu hpc hret =>
    exact absurd (hresult u (by simpa [ht] using hu.symm)) hret

/-- The return of `executor_dispatch` to the loop over the domains. -/
theorem view_dispatchPut {i : ℕ} {args : DispatchArgs SamplerFunction (VmonRequest δ)}
    (ht : s.exc.threads[tid]? = some t) (hone : (s.exc.pending tid).length ≤ 1)
    (hcall : s.exc.calls[i]? = some (.dispatch (.worker tid) args)) (exc : SamplerExecutor δ)
    (ret : ℤ) (hthreads : exc.threads = s.exc.threads) (hcalls : exc.calls = s.exc.calls.eraseIdx i) :
    s.exc.pending tid = [args] ∧
      (s.after exc [.dispatched (.worker tid) args ret]).view tid =
        some ((⟨t, s.frames tid, s.exc.pending tid⟩ : View δ).dispatched ret) := by
  obtain ⟨hpending, herase⟩ := Executor.pending_erase_self hcall (if_pos rfl) hone
  refine ⟨hpending, ?_⟩
  have ht' : (s.after exc [.dispatched (.worker tid) args ret]).exc.threads[tid]? = some t := by
    rw [after_exc, hthreads, ht]
  rw [view_eq ht']
  have hnone : (s.after exc [.dispatched (.worker tid) args ret]).exc.pending tid = [] := by
    rw [after_exc, Executor.pending, hcalls]
    exact herase
  rw [hnone, after_singleton, follow]
  cases hframe : s.frames tid with
  | listing domains err =>
    simp only [Function.update_self]
    rfl
  | _ => simp only [hframe, View.dispatched]

/-- The input of a step inside a work function that makes a query. -/
theorem taskInput_query {h : List (SamplerEvent δ)} {env : Env δ} {f : SamplerFunction}
    {ret : Option (List (StatsRecord δ))} (ht : s.exc.threads[tid]? = some t)
    (hwork : t.task.td.work = .client f) (hframe : s.frames tid = .working)
    (hquery : Query env t.task.arg f ret) :
    taskInput tid ⟨h, s, .work tid env⟩ = some (.answer ret) := by
  simp only [taskInput, if_true, view_eq ht, Option.bind_some, hwork, hframe]
  cases hquery <;> rfl

theorem taskInput_list {h : List (SamplerEvent δ)} {env : Env δ}
    (ht : s.exc.threads[tid]? = some t) (hwork : t.task.td.work = .client .listDomainsWork) :
    taskInput tid ⟨h, s, .work tid env⟩ = none := by
  simp only [taskInput, if_true, view_eq ht, Option.bind_some, hwork]

/-- A step of the thread itself. -/
theorem local_own {a : SamplerAction δ} {es : List (SamplerEvent δ)} (h : List (SamplerEvent δ))
    (hs : Steps ctx s a s' es) (ht : s.exc.threads[tid]? = some t)
    (hin : (⟨t, s.frames tid, s.exc.pending tid⟩ : View δ).InTask)
    (hown : a.mover s = some tid) :
    ∃ v', s'.view tid = some v' ∧
      Local ctx tid ⟨t, s.frames tid, s.exc.pending tid⟩ (taskInput tid ⟨h, s, a⟩) es v' := by
  cases hs with
  | thread hs =>
    obtain rfl := Option.some.inj hown
    exact local_thread ht hin hs
  | outer ha hs => cases ha <;> cases hown
  | @call i env exc es' hs =>
    cases hs with
    | @dispatchPut _ caller args hcall =>
      obtain rfl : caller = .worker tid := by
        simp only [SamplerAction.mover, Executor.mover, hcall, Option.bind_some] at hown
        cases caller with
        | client => cases hown
        | worker j => rw [Option.some.inj hown]
      obtain ⟨hpending, hview⟩ := view_dispatchPut ht hin.pending hcall
        { s.exc with
          tasks := (ringbufferPut s.exc.tasks (dispatchTask args)).1
          calls := s.exc.calls.eraseIdx i }
        (ringbufferPut s.exc.tasks (dispatchTask args)).2 rfl rfl
      refine ⟨_, hview, ?_⟩
      rw [List.flatMap_singleton]
      exact .put hpending
    | stopPut hcall => simp [SamplerAction.mover, Executor.mover, hcall, Call.tid] at hown
    | stopPhase hcall => simp [SamplerAction.mover, Executor.mover, hcall, Call.tid] at hown
    | stopReturn hcall => simp [SamplerAction.mover, Executor.mover, hcall, Call.tid] at hown
  | @query j env u f ret exc es' hu hpc hwork hframe hquery hs =>
    obtain rfl := Option.some.inj hown
    obtain rfl : u = t := by simpa [ht] using hu.symm
    obtain ⟨hview, rfl, -⟩ := view_workReturn hu ⟨f, hwork⟩ hs
    refine ⟨_, hview, ?_⟩
    rw [taskInput_query hu hwork hframe hquery]
    exact .query hpc hwork hframe hquery
  | @listFails j env u exc es' hu hpc hwork hframe hlist hs =>
    obtain rfl := Option.some.inj hown
    obtain rfl : u = t := by simpa [ht] using hu.symm
    obtain ⟨hview, rfl, -⟩ := view_workReturn hu ⟨_, hwork⟩ hs
    refine ⟨_, hview, ?_⟩
    rw [taskInput_list hu hwork]
    exact .listFails hpc hwork hframe
  | @list j env u domains hu hpc hwork hframe hlist =>
    obtain rfl := Option.some.inj hown
    obtain rfl : u = t := by simpa [ht] using hu.symm
    refine ⟨_, view_eq hu, ?_⟩
    rw [taskInput_list hu hwork, setFrame_frames, Function.update_self]
    exact .list hpc hwork hframe
  | @listDispatch j env u dom domains err exc es' hu hpc hwork hframe hs =>
    obtain rfl := Option.some.inj hown
    obtain rfl : u = t := by simpa [ht] using hu.symm
    rw [taskInput_list hu hwork]
    cases hs with
    | @refuse _ _ ret hcaller hcheck =>
      have hcalling : s.exc.calling j = false := by
        simpa [Executor.mayDispatch, hu, hpc] using hcaller
      refine ⟨_, view_eq hu, ?_⟩
      have hframe' : ((s.setFrame j (.listing domains err)).after s.exc
          [.dispatched (.worker j) (listDomainsDispatch ctx u.task.arg dom) ret]).frames j =
            .listing domains ret := by
        simp [follow]
      rw [List.flatMap_singleton, hframe']
      exact .refuse hpc hwork hframe (Executor.calling_eq_false hcalling)
        (Executor.dispatchCheck_error hcheck)
    | enter hcaller hcheck =>
      have hcalling : s.exc.calling j = false := by
        simpa [Executor.mayDispatch, hu, hpc] using hcaller
      have hpending := Executor.calling_eq_false hcalling
      refine ⟨_, view_eq hu, ?_⟩
      have hframe' : ((s.setFrame j (.listing domains err)).after { s.exc with
          calls := s.exc.calls ++ [.dispatch (.worker j)
            (listDomainsDispatch ctx u.task.arg dom)] } []).frames j = .listing domains err := by
        simp
      have hpending' : Executor.pending { s.exc with
          calls := s.exc.calls ++ [.dispatch (.worker j)
            (listDomainsDispatch ctx u.task.arg dom)] } j =
              [listDomainsDispatch ctx u.task.arg dom] := by
        rw [Executor.pending, List.filterMap_append]
        rw [Executor.pending] at hpending
        simp [hpending]
      rw [hframe', after_exc, hpending']
      exact .enter hpc hwork hframe hpending
  | @listReturn j env u err exc es' hu hpc hwork hframe hs =>
    obtain rfl := Option.some.inj hown
    obtain rfl : u = t := by simpa [ht] using hu.symm
    obtain ⟨hview, rfl, hpending⟩ := view_workReturn hu ⟨_, hwork⟩ hs
    refine ⟨_, hview, ?_⟩
    rw [taskInput_list hu hwork]
    exact .listReturn hpc hwork hframe hpending
  | @stopWork j env u exc es' hu hpc hwork hframe hs =>
    obtain rfl := Option.some.inj hown
    obtain rfl : u = t := by simpa [ht] using hu.symm
    obtain ⟨f, hf⟩ := hin.work
    rw [hwork] at hf
    cases hf
  | @collectFails j env u error timeout exc es' hu hpc hcollect hframe herr hs =>
    obtain rfl := Option.some.inj hown
    obtain rfl : u = t := by simpa [ht] using hu.symm
    obtain ⟨hview, rfl⟩ := view_collectReturn hu hcollect hs
    refine ⟨_, hview, ?_⟩
    have hinput : taskInput j ⟨h, s, .collect j env⟩ = none := by simp [taskInput, hframe]
    rw [hinput]
    exact .collectFails hpc hframe herr
  | @collectStart j env u hu hpc hcollect hframe =>
    obtain rfl := Option.some.inj hown
    obtain rfl : u = t := by simpa [ht] using hu.symm
    refine ⟨_, view_eq hu, ?_⟩
    have hinput : taskInput j ⟨h, s, .collect j env⟩ = none := by simp [taskInput, hframe]
    rw [hinput, setFrame_frames, Function.update_self]
    exact .collectStart hpc hframe
  | @collectRecord j env u ts record records hu hpc hcollect hframe =>
    obtain rfl := Option.some.inj hown
    obtain rfl : u = t := by simpa [ht] using hu.symm
    refine ⟨_, view_eq hu, ?_⟩
    have hinput : taskInput j ⟨h, s, .collect j env⟩ =
        some (.parsed record (vminfoParse env.host vminfoInit record).1) := by
      simp [taskInput, hframe]
    rw [hinput, setFrame_frames, Function.update_self]
    exact .collectRecord hpc hframe
  | @collectEnd j env u ts exc es' hu hpc hcollect hframe hs =>
    obtain rfl := Option.some.inj hown
    obtain rfl : u = t := by simpa [ht] using hu.symm
    obtain ⟨hview, rfl⟩ := view_collectReturn hu hcollect hs
    refine ⟨_, hview, ?_⟩
    have hinput : taskInput j ⟨h, s, .collect j env⟩ = none := by simp [taskInput, hframe]
    rw [hinput]
    exact .collectEnd hpc hframe
  | @stopCollect j env u exc es' hu hpc hcollect hs =>
    obtain rfl := Option.some.inj hown
    obtain rfl : u = t := by simpa [ht] using hu.symm
    have hclient := hin.collect
    rw [hcollect] at hclient
    cases hclient

/-- A call of a work function of the sampler. -/
theorem view_callWork {es : List (SamplerEvent δ)} {k : ℕ} {f : SamplerFunction}
    {req : VmonRequest δ} (hone : s.exc.OneCall) (hs : Steps ctx s (.thread tid) s' es)
    (hes : es = [.exec (.workCalled tid k (.client f) req)]) :
    ∃ t, s.exc.threads[tid]? = some t ∧ t.pc = .ready ∧ t.task.td.work = .client f ∧
      t.task.arg = req ∧ s'.view tid = some ⟨{ t with pc := .working }, .working, []⟩ := by
  cases hs with
  | outer ha => cases ha
  | @thread _ exc es hs =>
    cases hs with
    | @callWork _ t ht hpc =>
      simp only [List.map_cons, List.map_nil, List.cons.injEq, and_true, SamplerEvent.exec.injEq,
        Event.workCalled.injEq] at hes
      obtain ⟨-, rfl, hwork, rfl⟩ := hes
      refine ⟨t, ht, hpc, hwork, rfl, ?_⟩
      have hidle := hone.idle ht (by simp [hpc])
      have hframe : ∀ exc', (s.after exc' [.workCalled tid t.ticket t.task.td.work
          t.task.arg]).frames tid = .working := fun _ => Function.update_self ..
      rw [view_set ht rfl, hframe]
      exact congrArg (fun p => some (View.mk _ _ p)) hidle
    | _ => simp at hes

end Daemon

/-! ## Runs -/

section Runs

variable {ctx : VmonContext} {tid : ℕ} {v₀ v v' : View δ} {input : Option (TaskInput δ)}
  {events es : List (SamplerEvent δ)}

/-- Thread `tid` returned from a collect function. -/
def Collected (tid : ℕ) (h : List (SamplerEvent δ)) : Prop :=
  ∃ k ret, .exec (.collectReturned tid k ret) ∈ h

/-- A run of thread `tid` alone, through one task. -/
inductive Replay (ctx : VmonContext) (tid : ℕ) (v₀ : View δ) :
    List (TaskInput δ) → List (SamplerEvent δ) → View δ → Prop
  | refl : Replay ctx tid v₀ [] [] v₀
  | snoc {inputs : List (TaskInput δ)} {events : List (SamplerEvent δ)} {v : View δ}
      {input : Option (TaskInput δ)} {es : List (SamplerEvent δ)} {v' : View δ}
      (hr : Replay ctx tid v₀ inputs events v) (hin : v.InTask)
      (hs : Local ctx tid v input es v') :
      Replay ctx tid v₀ (inputs ++ input.toList) (events ++ es) v'

/-- The thread is at the start of the work function `f`, with the request `req`. -/
structure View.Called (v : View δ) (f : SamplerFunction) (req : VmonRequest δ) : Prop where
  pc : v.thread.pc = .working
  frame : v.frame = .working
  work : v.thread.task.td.work = .client f
  collect : v.thread.task.td.collect = .client .samplingCollect
  arg : v.thread.task.arg = req
  pending : v.pending = []

theorem View.Called.inTask {f : SamplerFunction} {req : VmonRequest δ} (H : v.Called f req) :
    v.InTask :=
  ⟨by simp [H.pc], ⟨f, H.work⟩, H.collect, by simp [H.pending]⟩

namespace Local

theorem events_tid (hs : Local ctx tid v input es v') : ∀ e ∈ es, e.tid = some tid := by
  intro e he
  cases hs with
  | stay | mark | enter | collectStart => cases he
  | query hpc hwork hframe hquery =>
    rcases List.mem_append.mp he with he | he
    · obtain ⟨records, -, rfl⟩ := List.mem_map.mp he
      rfl
    · rw [List.mem_singleton.mp he]
      rfl
  | listFails =>
    rcases List.mem_cons.mp he with rfl | he
    · rfl
    · rw [List.mem_singleton.mp he]
      rfl
  | list | listReturn | callCollect | collectRecord =>
    rw [List.mem_singleton.mp he]
    rfl
  | refuse => exact Daemon.afterDispatch_tid _ _ e he
  | put => exact Daemon.afterDispatch_tid _ _ e he
  | statement hpc hes =>
    rcases hes with rfl | ⟨id, rfl⟩
    · cases he
    · rw [List.mem_singleton.mp he]
      rfl
  | collectFails | collectEnd =>
    simp only [Daemon.freeDomain, List.cons_append, List.mem_cons, List.mem_append, List.mem_map,
      List.not_mem_nil, or_false] at he
    rcases he with rfl | ⟨dom, -, rfl⟩ | rfl <;> rfl

/-- The task ends where the collect function returns. -/
theorem ended (hs : Local ctx tid v input es v') (hend : Collected tid es) :
    v'.thread.pc = .get := by
  obtain ⟨k, ret, hmem⟩ := hend
  cases hs with
  | collectFails => rfl
  | collectEnd => rfl
  | @refuse env dom domains err ret =>
    simp only [Daemon.afterDispatch] at hmem
    split at hmem <;> simp at hmem
  | @put env args ret =>
    simp only [Daemon.afterDispatch] at hmem
    split at hmem <;> simp at hmem
  | statement hpc hes => rcases hes with rfl | ⟨id, rfl⟩ <;> simp at hmem
  | _ => simp at hmem

theorem inTask (hin : v.InTask) (hs : Local ctx tid v input es v') (hopen : ¬Collected tid es) :
    v'.InTask := by
  obtain ⟨hpc, hwork, hcollect, hpending⟩ := hin
  cases hs with
  | stay => exact ⟨hpc, hwork, hcollect, hpending⟩
  | mark => exact ⟨hpc, hwork, hcollect, hpending⟩
  | query => exact ⟨by simp [View.returned], by simpa [View.returned] using hwork,
      by simpa [View.returned] using hcollect, by simp [View.returned]⟩
  | listFails => exact ⟨by simp [View.returned], by simpa [View.returned] using hwork,
      by simpa [View.returned] using hcollect, by simp [View.returned]⟩
  | list => exact ⟨hpc, hwork, hcollect, hpending⟩
  | refuse => exact ⟨hpc, hwork, hcollect, hpending⟩
  | enter => exact ⟨hpc, hwork, hcollect, by simp⟩
  | put => exact ⟨hpc, hwork, hcollect, by simp [View.dispatched]⟩
  | listReturn => exact ⟨by simp [View.returned], by simpa [View.returned] using hwork,
      by simpa [View.returned] using hcollect, by simp [View.returned]⟩
  | statement hnext =>
    simp only [List.mem_cons, Prod.mk.injEq, List.not_mem_nil, or_false] at hnext
    refine ⟨?_, hwork, hcollect, hpending⟩
    rcases hnext with ⟨-, rfl⟩ | ⟨-, rfl⟩ | ⟨-, rfl⟩ | ⟨-, rfl⟩ <;> simp
  | callCollect => exact ⟨by simp, hwork, hcollect, hpending⟩
  | collectFails => exact absurd ⟨_, _, List.mem_append_right _ (List.mem_singleton_self _)⟩ hopen
  | collectStart => exact ⟨hpc, hwork, hcollect, hpending⟩
  | collectRecord => exact ⟨hpc, hwork, hcollect, hpending⟩
  | collectEnd => exact absurd ⟨_, _, List.mem_append_right _ (List.mem_singleton_self _)⟩ hopen

end Local

/-- One step of the daemon, as a thread inside a task sees it. -/
theorem local_of_step {s s' : Daemon δ} {a : SamplerAction δ} (h : List (SamplerEvent δ))
    (hs : Daemon.Steps ctx s a s' es) (hview : s.view tid = some v) (hin : v.InTask) :
    ∃ v', s'.view tid = some v' ∧
      Local ctx tid v (taskInput tid ⟨h, s, a⟩) (es.filter fun e => e.tid = some tid) v' := by
  obtain ⟨t, ht, rfl⟩ := Option.map_eq_some_iff.mp hview
  by_cases hown : a.mover s = some tid
  · obtain ⟨v', hv', hlocal⟩ := Daemon.local_own h hs ht hin hown
    refine ⟨v', hv', ?_⟩
    have hall : es.filter (fun e => e.tid = some tid) = es :=
      List.filter_eq_self.mpr fun e he => by simpa using hlocal.events_tid e he
    rwa [hall]
  · obtain ⟨⟨v', hv', hlocal⟩, hes⟩ := Daemon.local_other hs ht hown
    refine ⟨v', hv', ?_⟩
    have hnone : es.filter (fun e => e.tid = some tid) = [] :=
      List.filter_eq_nil_iff.mpr fun e he => by simpa using hes e he
    have hinput : taskInput tid ⟨h, s, a⟩ = none := by
      cases a with
      | work j env => exact if_neg fun hj => hown (by rw [← hj]; rfl)
      | collect j env => exact if_neg fun hj => hown (by rw [← hj]; rfl)
      | _ => rfl
    rwa [hnone, hinput]

/-- **The replay of a thread in a run of the daemon**, as long as its task goes on. -/
theorem replay_of_run {s₀ s : Daemon δ} {moves : List (SamplerMove δ)}
    {h : List (SamplerEvent δ)} (hr : (samplerSystem δ ctx).Run s₀ moves h s)
    (hview : s₀.view tid = some v₀) (hin : v₀.InTask) (hopen : ¬Collected tid h) :
    ∃ v, s.view tid = some v ∧ v.InTask ∧
      Replay ctx tid v₀ (moves.filterMap (taskInput tid))
        (h.filter fun e => e.tid = some tid) v := by
  induction hr with
  | init => exact ⟨v₀, hview, hin, .refl⟩
  | @step moves h s s' a es hr hs ih =>
    have hopen₁ : ¬Collected tid h := fun ⟨k, ret, hmem⟩ =>
      hopen ⟨k, ret, List.mem_append_left _ hmem⟩
    have hopen₂ : ¬Collected tid (es.filter fun e => e.tid = some tid) := fun ⟨k, ret, hmem⟩ =>
      hopen ⟨k, ret, List.mem_append_right _ (List.mem_of_mem_filter hmem)⟩
    obtain ⟨v, hv, hin, hreplay⟩ := ih hopen₁
    obtain ⟨v', hv', hlocal⟩ := local_of_step h (Daemon.step_cases hs) hv hin
    refine ⟨v', hv', hlocal.inTask hin hopen₂, ?_⟩
    rw [List.filterMap_append, List.filter_append]
    have hlast : [(⟨h, s, a⟩ : SamplerMove δ)].filterMap (taskInput tid) =
        (taskInput tid ⟨h, s, a⟩).toList := by
      cases hinput : taskInput tid ⟨h, s, a⟩ <;> simp [hinput]
    rw [hlast]
    exact hreplay.snoc hin hlocal

/-- The tasks that the sampler dispatches come with `sampling_collect`. -/
def TaskData.OfSampler (task : TaskData SamplerFunction (VmonRequest δ)) : Prop :=
  ∀ f, task.td.work = .client f → task.td.collect = .client .samplingCollect

theorem ofSampler_of_reach {ok : SamplerMove δ → Prop} {workersCount maxTasks : ℕ}
    {h : List (SamplerEvent δ)} {s : Daemon δ}
    (hr : (samplerSystem δ ctx).Reach ok (.started workersCount maxTasks) h s) :
    s.exc.AllTasks TaskData.OfSampler TaskData.OfSampler ∧ s.exc.OneCall := by
  refine Lts.Reach.invariant (P := fun _ s =>
    s.exc.AllTasks TaskData.OfSampler TaskData.OfSampler ∧ s.exc.OneCall) ?_ ?_ hr
  · exact ⟨Executor.AllTasks.of_started _ _, Executor.OneCall.of_started _ _⟩
  · intro h s a s' es _ ⟨H, hone⟩ _ hs
    have hs := Daemon.step_cases hs
    refine ⟨hs.allTasks H ?_ ?_ ?_ ?_ ?_ ?_, hs.oneCall hone⟩
    · intro f hf
      cases hf
    · exact fun task => ⟨id, id⟩
    · exact fun req _ f _ => rfl
    · exact fun task dom _ _ f _ => rfl
    · intro task env f ret hfresh _ _
      simpa [TaskData.OfSampler] using hfresh
    · intro task hfresh _
      simpa [TaskData.OfSampler] using hfresh

/-- In a run of the daemon, thread `tid` calls the work function `f` with the request `req`,
and `moves` and `h` are all that happens from there on, until its collect function returns. -/
inductive TaskRun (ctx : VmonContext) (workersCount maxTasks tid : ℕ) (f : SamplerFunction)
    (req : VmonRequest δ) : List (SamplerMove δ) → List (SamplerEvent δ) → Prop
  | mk {h₀ h es : List (SamplerEvent δ)} {s s₀ s₁ s₂ : Daemon δ} {k : ℕ}
      {moves : List (SamplerMove δ)} {a : SamplerAction δ}
      (hr : (samplerSystem δ ctx).Reach (fun _ => True) (.started workersCount maxTasks) h₀ s)
      (hcall : (samplerSystem δ ctx).step s (.thread tid) =
        some (s₀, [.exec (.workCalled tid k (.client f) req)]))
      (hrun : (samplerSystem δ ctx).Run s₀ moves h s₁) (hopen : ¬Collected tid h)
      (hs : (samplerSystem δ ctx).step s₁ a = some (s₂, es)) (hend : Collected tid es) :
      TaskRun ctx workersCount maxTasks tid f req (moves ++ [⟨h, s₁, a⟩]) (h ++ es)

/-- **A task in a run of the daemon is a replay**, from the call of its work function to the
return of its collect function. -/
theorem TaskRun.replay {workersCount maxTasks : ℕ} {f : SamplerFunction} {req : VmonRequest δ}
    {moves : List (SamplerMove δ)} {h : List (SamplerEvent δ)}
    (hr : TaskRun ctx workersCount maxTasks tid f req moves h) :
    ∃ v₀ v, v₀.Called f req ∧ v.thread.pc = .get ∧
      Replay ctx tid v₀ (moves.filterMap (taskInput tid))
        (h.filter fun e => e.tid = some tid) v := by
  obtain ⟨hreach, hcall, hrun, hopen, hs, hend⟩ := hr
  rename_i h₀ h es s s₀ s₁ s₂ k moves a
  obtain ⟨hall, hone⟩ := ofSampler_of_reach hreach
  obtain ⟨t, ht, hpc, hwork, harg, hview⟩ :=
    Daemon.view_callWork hone (Daemon.step_cases hcall) rfl
  have hcarries := hall.holder tid t ht
  simp only [Thread.Carries, hpc] at hcarries
  have hcalled : (⟨{ t with pc := .working }, .working, []⟩ : View δ).Called f req :=
    ⟨rfl, rfl, hwork, hcarries f hwork, harg, rfl⟩
  obtain ⟨v, hv, hin, hreplay⟩ := replay_of_run hrun hview hcalled.inTask hopen
  obtain ⟨v', hv', hlocal⟩ := local_of_step h (Daemon.step_cases hs) hv hin
  refine ⟨_, v', hcalled, hlocal.ended ?_, ?_⟩
  · obtain ⟨k, ret, hmem⟩ := hend
    exact ⟨k, ret, List.mem_filter.mpr ⟨hmem, by simp [SamplerEvent.tid, Event.tid]⟩⟩
  · rw [List.filterMap_append, List.filter_append]
    have hlast : [(⟨h, s₁, a⟩ : SamplerMove δ)].filterMap (taskInput tid) =
        (taskInput tid ⟨h, s₁, a⟩).toList := by
      cases hinput : taskInput tid ⟨h, s₁, a⟩ <;> simp [hinput]
    rw [hlast]
    exact hreplay.snoc hin hlocal

/-! ### Runs of explicit labels -/

instance (tid : ℕ) (h : List (SamplerEvent δ)) : Decidable (Collected tid h) :=
  decidable_of_iff (h.any (fun e => match e with
    | .exec (.collectReturned j _ _) => j == tid
    | _ => false) = true) <| by
    rw [List.any_eq_true]
    constructor
    · rintro ⟨e, he, hp⟩
      split at hp
      · rw [beq_iff_eq] at hp
        exact ⟨_, _, hp ▸ he⟩
      · cases hp
    · rintro ⟨k, ret, he⟩
      exact ⟨_, he, by simp⟩

/-- The call of a work function by thread `tid` that `es` shows. -/
def workCall (tid : ℕ) : List (SamplerEvent δ) → Option (SamplerFunction × VmonRequest δ)
  | [.exec (.workCalled j _ (.client f) req)] => if j = tid then some (f, req) else none
  | _ => none

theorem workCall_eq_some {f : SamplerFunction} {req : VmonRequest δ}
    (h : workCall tid es = some (f, req)) :
    ∃ k, es = [.exec (.workCalled tid k (.client f) req)] := by
  unfold workCall at h
  split at h
  · simp only [Option.ite_none_right_eq_some, Option.some.injEq, Prod.mk.injEq] at h
    obtain ⟨rfl, rfl, rfl⟩ := h
    exact ⟨_, rfl⟩
  · cases h

/-- The task of the labels `as` up to the call of its work function, `bs` from there on, and
`b`, in which its collect function returns. -/
def taskTrace (ctx : VmonContext) (workersCount maxTasks tid : ℕ) (as bs : List (SamplerAction δ))
    (b : SamplerAction δ) :
    Option (SamplerFunction × VmonRequest δ × List (SamplerMove δ) × List (SamplerEvent δ)) := do
  let before ← (samplerSystem δ ctx).trace [] (.started workersCount maxTasks) as
  let called ← (samplerSystem δ ctx).step before.2.2 (.thread tid)
  let task ← workCall tid called.2
  let run ← (samplerSystem δ ctx).trace [] called.1 bs
  let last ← (samplerSystem δ ctx).step run.2.2 b
  if ¬Collected tid run.2.1 ∧ Collected tid last.2 then
    some (task.1, task.2, run.1 ++ [⟨run.2.1, run.2.2, b⟩], run.2.1 ++ last.2)
  else none

theorem taskRun_of_trace {workersCount maxTasks : ℕ} {as bs : List (SamplerAction δ)}
    {b : SamplerAction δ} {f : SamplerFunction} {req : VmonRequest δ}
    {moves : List (SamplerMove δ)} {h : List (SamplerEvent δ)}
    (he : taskTrace ctx workersCount maxTasks tid as bs b = some (f, req, moves, h)) :
    TaskRun ctx workersCount maxTasks tid f req moves h ∧ moves.map Move.action = bs ++ [b] := by
  simp only [taskTrace, Option.bind_eq_bind, Option.bind_eq_some_iff,
    Option.ite_none_right_eq_some, Option.some.injEq, Prod.mk.injEq] at he
  obtain ⟨⟨_, _, s⟩, hbefore, ⟨s₀, es₀⟩, hcall, ⟨f', req'⟩, htask, ⟨moves', h', s₁⟩, hrun,
    ⟨s₂, es⟩, hs, ⟨hopen, hend⟩, rfl, rfl, rfl, rfl⟩ := he
  obtain ⟨k, rfl⟩ := workCall_eq_some htask
  have hreach := Lts.Run.trace .init hbefore
  refine ⟨.mk ⟨_, hreach, fun _ _ => trivial⟩ hcall (Lts.Run.trace .init hrun) hopen hs hend, ?_⟩
  rw [List.map_append, Lts.trace_actions hrun, List.map_singleton]

/-- What an explicit task shows, checked on its moves and its history. -/
theorem exists_taskRun (ctx : VmonContext) (workersCount maxTasks tid : ℕ)
    (as bs : List (SamplerAction δ)) (b : SamplerAction δ)
    (p : SamplerFunction → VmonRequest δ → List (SamplerMove δ) → List (SamplerEvent δ) → Bool)
    (he : (taskTrace ctx workersCount maxTasks tid as bs b).any
      (fun r => p r.1 r.2.1 r.2.2.1 r.2.2.2) = true) :
    ∃ f req moves h, TaskRun ctx workersCount maxTasks tid f req moves h ∧
      moves.map Move.action = bs ++ [b] ∧ p f req moves h = true := by
  obtain ⟨⟨f, req, moves, h⟩, htrace, hp⟩ := (Option.any_eq_true _ _).mp he
  obtain ⟨hr, hmoves⟩ := taskRun_of_trace htrace
  exact ⟨f, req, moves, h, hr, hmoves, hp⟩

end Runs

end Vmon
