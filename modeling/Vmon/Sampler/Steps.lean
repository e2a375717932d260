import Mathlib.Algebra.BigOperators.Group.Finset.Basic
import Vmon.Executor.Threads
import Vmon.Sampler

/-!
# What one step of the sampler can do

`Daemon.Steps ctx s a s' es` lists the steps, one constructor for each branch, over the
steps of the executor. `Daemon.step_cases` is the inversion of `Daemon.step` that every
invariant of the sampler uses.
-/

namespace Vmon

variable {δ : Type}

abbrev SamplerMove (δ : Type) := Move (Daemon δ) (SamplerAction δ) (SamplerEvent δ)

/-- What the environment of a step answers. -/
def SamplerAction.env : SamplerAction δ → Option (Env δ)
  | .work _ env | .collect _ env | .call _ env => some env
  | _ => none

/-- The environment of the step that wrote. -/
def SamplerEvent.env : SamplerEvent δ → Option (Env δ)
  | .response _ env _ _ _ | .error _ env _ _ => some env
  | _ => none

namespace Daemon

/-- Some other part of the process calls into the executor, or a timeout source fires. -/
inductive Outer (ctx : VmonContext) : SamplerAction δ → ExecutorAction δ → Prop
  | send {req : VmonRequest δ} :
      Outer ctx (.send req) (.dispatch .client (samplerSendRequest ctx req))
  | fire {id : ℕ} {created : Bool} : Outer ctx (.fire id created) (.fire id created)
  | stop {wait : Bool} : Outer ctx (.stop wait) (.stop wait)
  | start {created : List Bool} : Outer ctx (.start created) (.start created)

/-- The query of a work function that makes one. -/
inductive Query (env : Env δ) (req : VmonRequest δ) :
    SamplerFunction → Option (List (StatsRecord δ)) → Prop
  | sample : Query env req .sampleDomainWork (sampleDomainQuery env req)
  | bulk : Query env req .bulkSamplingWork (bulkSamplingQuery env req)

/-- The daemon after a step of the executor with the events `es`. -/
def after (s : Daemon δ) (exc : SamplerExecutor δ) (es : List (ExecutorEvent δ)) : Daemon δ :=
  { exc := exc, frames := es.foldl follow s.frames }

@[simp] theorem after_exc (s : Daemon δ) (exc : SamplerExecutor δ) (es : List (ExecutorEvent δ)) :
    (s.after exc es).exc = exc := rfl

@[simp] theorem after_nil (s : Daemon δ) (exc : SamplerExecutor δ) :
    (s.after exc []).frames = s.frames := rfl

@[simp] theorem after_singleton (s : Daemon δ) (exc : SamplerExecutor δ) (e : ExecutorEvent δ) :
    (s.after exc [e]).frames = follow s.frames e := rfl

@[simp] theorem setFrame_exc (s : Daemon δ) (tid : ℕ) (frame : Frame δ) :
    (s.setFrame tid frame).exc = s.exc := rfl

@[simp] theorem setFrame_frames (s : Daemon δ) (tid : ℕ) (frame : Frame δ) :
    (s.setFrame tid frame).frames = Function.update s.frames tid frame := rfl

/-- One step, by the part of the program that runs. -/
inductive Steps (ctx : VmonContext) (s : Daemon δ) :
    SamplerAction δ → Daemon δ → List (SamplerEvent δ) → Prop
  | thread {tid : ℕ} {exc : SamplerExecutor δ} {es : List (ExecutorEvent δ)}
      (hs : s.exc.Steps (.thread tid) exc es) :
      Steps ctx s (.thread tid) (s.after exc es) (es.map .exec)
  | outer {a : SamplerAction δ} {b : ExecutorAction δ} {exc : SamplerExecutor δ}
      {es : List (ExecutorEvent δ)} (ha : Outer ctx a b) (hs : s.exc.Steps b exc es) :
      Steps ctx s a (s.after exc es) (es.map .exec)
  | call {i : ℕ} {env : Env δ} {exc : SamplerExecutor δ} {es : List (ExecutorEvent δ)}
      (hs : s.exc.Steps (.call i) exc es) :
      Steps ctx s (.call i env) (s.after exc es) (es.flatMap (afterDispatch env))
  | query {tid : ℕ} {env : Env δ} {t : Thread SamplerFunction (VmonRequest δ)}
      {f : SamplerFunction} {ret : Option (List (StatsRecord δ))} {exc : SamplerExecutor δ}
      {es : List (ExecutorEvent δ)} (ht : s.exc.threads[tid]? = some t) (hpc : t.pc = .working)
      (hwork : t.task.td.work = .client f) (hframe : s.frames tid = .working)
      (hquery : Query env t.task.arg f ret)
      (hs : s.exc.Steps (.workReturn tid 0 (t.task.arg.store ret)) exc es) :
      Steps ctx s (.work tid env) (s.after exc es)
        (ret.toList.map (.sampled tid) ++ es.map .exec)
  | listFails {tid : ℕ} {env : Env δ} {t : Thread SamplerFunction (VmonRequest δ)}
      {exc : SamplerExecutor δ} {es : List (ExecutorEvent δ)}
      (ht : s.exc.threads[tid]? = some t) (hpc : t.pc = .working)
      (hwork : t.task.td.work = .client .listDomainsWork) (hframe : s.frames tid = .working)
      (hlist : env.conn.listAllDomains ctx.flags = none)
      (hs : s.exc.Steps (.workReturn tid libvirtError t.task.arg) exc es) :
      Steps ctx s (.work tid env) (s.after exc es)
        (.error tid env t.task.arg.dom (collectError env t.task.arg libvirtError false) ::
          es.map .exec)
  | list {tid : ℕ} {env : Env δ} {t : Thread SamplerFunction (VmonRequest δ)} {domains : List δ}
      (ht : s.exc.threads[tid]? = some t) (hpc : t.pc = .working)
      (hwork : t.task.td.work = .client .listDomainsWork) (hframe : s.frames tid = .working)
      (hlist : env.conn.listAllDomains ctx.flags = some domains) :
      Steps ctx s (.work tid env) (s.setFrame tid (.listing domains 0)) [.listed tid domains]
  | listDispatch {tid : ℕ} {env : Env δ} {t : Thread SamplerFunction (VmonRequest δ)} {dom : δ}
      {domains : List δ} {err : ℤ} {exc : SamplerExecutor δ} {es : List (ExecutorEvent δ)}
      (ht : s.exc.threads[tid]? = some t) (hpc : t.pc = .working)
      (hwork : t.task.td.work = .client .listDomainsWork)
      (hframe : s.frames tid = .listing (dom :: domains) err)
      (hs : s.exc.Steps (.dispatch (.worker tid) (listDomainsDispatch ctx t.task.arg dom)) exc es) :
      Steps ctx s (.work tid env) ((s.setFrame tid (.listing domains err)).after exc es)
        (es.flatMap (afterDispatch env))
  | listReturn {tid : ℕ} {env : Env δ} {t : Thread SamplerFunction (VmonRequest δ)} {err : ℤ}
      {exc : SamplerExecutor δ} {es : List (ExecutorEvent δ)}
      (ht : s.exc.threads[tid]? = some t) (hpc : t.pc = .working)
      (hwork : t.task.td.work = .client .listDomainsWork) (hframe : s.frames tid = .listing [] err)
      (hs : s.exc.Steps (.workReturn tid err t.task.arg) exc es) :
      Steps ctx s (.work tid env) (s.after exc es) (es.map .exec)
  | stopWork {tid : ℕ} {env : Env δ} {t : Thread SamplerFunction (VmonRequest δ)}
      {exc : SamplerExecutor δ} {es : List (ExecutorEvent δ)}
      (ht : s.exc.threads[tid]? = some t) (hpc : t.pc = .working)
      (hwork : t.task.td.work = .stopWorker) (hframe : s.frames tid = .working)
      (hs : s.exc.Steps (.workReturn tid 0 t.task.arg) exc es) :
      Steps ctx s (.work tid env) (s.after exc es) (es.map .exec)
  | collectFails {tid : ℕ} {env : Env δ} {t : Thread SamplerFunction (VmonRequest δ)} {error : ℤ}
      {timeout : Bool} {exc : SamplerExecutor δ} {es : List (ExecutorEvent δ)}
      (ht : s.exc.threads[tid]? = some t) (hpc : t.pc = .collecting)
      (hcollect : t.task.td.collect = .client .samplingCollect)
      (hframe : s.frames tid = .collecting error timeout) (herr : error ≠ 0 ∨ timeout = true)
      (hs : s.exc.Steps (.collectReturn tid 0) exc es) :
      Steps ctx s (.collect tid env) (s.after exc es)
        (.error tid env t.task.arg.dom (collectError env t.task.arg error timeout) ::
          freeDomain tid t.task.arg ++ es.map .exec)
  | collectStart {tid : ℕ} {env : Env δ} {t : Thread SamplerFunction (VmonRequest δ)}
      (ht : s.exc.threads[tid]? = some t) (hpc : t.pc = .collecting)
      (hcollect : t.task.td.collect = .client .samplingCollect)
      (hframe : s.frames tid = .collecting 0 false) :
      Steps ctx s (.collect tid env)
        (s.setFrame tid (.reporting env.now t.task.arg.reported)) []
  | collectRecord {tid : ℕ} {env : Env δ} {t : Thread SamplerFunction (VmonRequest δ)}
      {ts : UInt64} {record : StatsRecord δ} {records : List (StatsRecord δ)}
      (ht : s.exc.threads[tid]? = some t) (hpc : t.pc = .collecting)
      (hcollect : t.task.td.collect = .client .samplingCollect)
      (hframe : s.frames tid = .reporting ts (record :: records)) :
      Steps ctx s (.collect tid env) (s.setFrame tid (.reporting ts records))
        [.response tid env record.dom (collectRecord ctx env ts t.task.arg record).1
          (collectRecord ctx env ts t.task.arg record).2]
  | collectEnd {tid : ℕ} {env : Env δ} {t : Thread SamplerFunction (VmonRequest δ)} {ts : UInt64}
      {exc : SamplerExecutor δ} {es : List (ExecutorEvent δ)}
      (ht : s.exc.threads[tid]? = some t) (hpc : t.pc = .collecting)
      (hcollect : t.task.td.collect = .client .samplingCollect)
      (hframe : s.frames tid = .reporting ts [])
      (hs : s.exc.Steps (.collectReturn tid 0) exc es) :
      Steps ctx s (.collect tid env) (s.after exc es)
        (.freeRecords tid t.task.arg.records :: freeDomain tid t.task.arg ++ es.map .exec)
  | stopCollect {tid : ℕ} {env : Env δ} {t : Thread SamplerFunction (VmonRequest δ)}
      {exc : SamplerExecutor δ} {es : List (ExecutorEvent δ)}
      (ht : s.exc.threads[tid]? = some t) (hpc : t.pc = .collecting)
      (hcollect : t.task.td.collect = .stopCollect)
      (hs : s.exc.Steps (.collectReturn tid 0) exc es) :
      Steps ctx s (.collect tid env) (s.after exc es) (es.map .exec)

variable {ctx : VmonContext} {s s' : Daemon δ} {a : SamplerAction δ} {es : List (SamplerEvent δ)}

theorem inside_eq_some {tid : ℕ} {pc : Pc} {t : Thread SamplerFunction (VmonRequest δ)} :
    s.inside tid pc = some t ↔ s.exc.threads[tid]? = some t ∧ t.pc = pc := by
  simp [inside, Option.filter_eq_some_iff]

/-- A request fits in a task, so `executor_dispatch` only asks whether the executor runs. -/
theorem dispatchCheck_request (running : Bool)
    (args : DispatchArgs SamplerFunction (VmonRequest δ)) :
    Executor.dispatchCheck running args =
      if running then .ok (dispatchTask args) else .error executorErrorNotRunning := by
  have hsize : ¬taskDataEmbedMaxSize < Payload.size args.data := by
    change ¬taskDataEmbedMaxSize < vmonRequestSize
    decide
  cases running <;> simp [Executor.dispatchCheck, hsize]

/-- A step of the executor inside the daemon. -/
private theorem exec_cases {b : ExecutorAction δ} {r : Daemon δ × List (ExecutorEvent δ)}
    (h : s.exec b = some r) :
    ∃ exc es, s.exc.Steps b exc es ∧ r = (s.after exc es, es) := by
  simp only [exec, Option.map_eq_some_iff] at h
  obtain ⟨⟨exc, es⟩, hstep, rfl⟩ := h
  exact ⟨exc, es, Executor.step_cases hstep, rfl⟩

private theorem pass_cases {b : ExecutorAction δ} (h : s.pass b = some (s', es)) :
    ∃ exc es', s.exc.Steps b exc es' ∧ s' = s.after exc es' ∧ es = es'.map .exec := by
  simp only [pass, Option.map_eq_some_iff] at h
  obtain ⟨r, hr, heq⟩ := h
  obtain ⟨exc, es', hs, rfl⟩ := exec_cases hr
  obtain ⟨rfl, rfl⟩ := Prod.mk.inj heq
  exact ⟨exc, es', hs, rfl, rfl⟩

private theorem passDispatch_cases {env : Env δ} {b : ExecutorAction δ}
    (h : s.passDispatch env b = some (s', es)) :
    ∃ exc es', s.exc.Steps b exc es' ∧ s' = s.after exc es' ∧
      es = es'.flatMap (afterDispatch env) := by
  simp only [passDispatch, Option.map_eq_some_iff] at h
  obtain ⟨r, hr, heq⟩ := h
  obtain ⟨exc, es', hs, rfl⟩ := exec_cases hr
  obtain ⟨rfl, rfl⟩ := Prod.mk.inj heq
  exact ⟨exc, es', hs, rfl, rfl⟩

private theorem passAfter_cases {before : List (SamplerEvent δ)} {b : ExecutorAction δ}
    (h : s.passAfter before b = some (s', es)) :
    ∃ exc es', s.exc.Steps b exc es' ∧ s' = s.after exc es' ∧ es = before ++ es'.map .exec := by
  simp only [passAfter, Option.map_eq_some_iff] at h
  obtain ⟨r, hr, heq⟩ := h
  obtain ⟨exc, es', hs, rfl⟩ := exec_cases hr
  obtain ⟨rfl, rfl⟩ := Prod.mk.inj heq
  exact ⟨exc, es', hs, rfl, rfl⟩

private theorem listDomainsWork_cases {tid : ℕ} {t : Thread SamplerFunction (VmonRequest δ)}
    {env : Env δ} (ht : s.exc.threads[tid]? = some t) (hpc : t.pc = .working)
    (hwork : t.task.td.work = .client .listDomainsWork)
    (h : s.listDomainsWork ctx tid t.task.arg env (s.frames tid) = some (s', es)) :
    Steps ctx s (.work tid env) s' es := by
  cases hframe : s.frames tid with
  | working =>
    rw [hframe, listDomainsWork] at h
    cases hlist : env.conn.listAllDomains ctx.flags with
    | none =>
      rw [hlist] at h
      obtain ⟨exc, es', hs, rfl, rfl⟩ := passAfter_cases h
      exact .listFails ht hpc hwork hframe hlist hs
    | some domains =>
      simp only [hlist, Option.some.injEq, Prod.mk.injEq] at h
      obtain ⟨rfl, rfl⟩ := h
      exact .list ht hpc hwork hframe hlist
  | listing domains err =>
    rw [hframe] at h
    cases domains with
    | nil =>
      obtain ⟨exc, es', hs, rfl, rfl⟩ := passAfter_cases h
      exact .listReturn ht hpc hwork hframe hs
    | cons dom domains =>
      obtain ⟨exc, es', hs, rfl, rfl⟩ := passDispatch_cases h
      exact .listDispatch ht hpc hwork hframe hs
  | _ => simp [hframe, listDomainsWork] at h

private theorem workStep_cases {tid : ℕ} {t : Thread SamplerFunction (VmonRequest δ)}
    {env : Env δ} (ht : s.exc.threads[tid]? = some t) (hpc : t.pc = .working)
    (h : s.workStep ctx tid t env = some (s', es)) : Steps ctx s (.work tid env) s' es := by
  simp only [workStep] at h
  split at h
  case h_1 hwork hframe =>
    obtain ⟨exc, es', hs, rfl, rfl⟩ := passAfter_cases h
    exact .query ht hpc hwork hframe .sample hs
  case h_2 hwork hframe =>
    obtain ⟨exc, es', hs, rfl, rfl⟩ := passAfter_cases h
    exact .query ht hpc hwork hframe .bulk hs
  case h_3 _ hwork => exact listDomainsWork_cases ht hpc hwork h
  case h_4 hwork hframe =>
    obtain ⟨exc, es', hs, rfl, rfl⟩ := pass_cases h
    exact .stopWork ht hpc hwork hframe hs
  case h_5 => simp at h

private theorem collectStep_cases {tid : ℕ} {t : Thread SamplerFunction (VmonRequest δ)}
    {env : Env δ} (ht : s.exc.threads[tid]? = some t) (hpc : t.pc = .collecting)
    (h : s.collectStep ctx tid t env = some (s', es)) : Steps ctx s (.collect tid env) s' es := by
  simp only [collectStep] at h
  split at h
  case h_1 hcollect =>
    cases hframe : s.frames tid with
    | collecting error timeout =>
      rw [hframe, samplingCollect] at h
      split at h
      case isTrue herr =>
        obtain ⟨exc, es', hs, rfl, rfl⟩ := passAfter_cases h
        exact .collectFails ht hpc hcollect hframe herr hs
      case isFalse hok =>
        simp only [Option.some.injEq, Prod.mk.injEq] at h
        obtain ⟨rfl, rfl⟩ := h
        simp only [ne_eq, not_or, not_not, Bool.not_eq_true] at hok
        exact .collectStart ht hpc hcollect (by rw [hframe, hok.1, hok.2])
    | reporting ts records =>
      rw [hframe] at h
      cases records with
      | nil =>
        obtain ⟨exc, es', hs, rfl, rfl⟩ := passAfter_cases h
        exact .collectEnd ht hpc hcollect hframe hs
      | cons record records =>
        simp only [samplingCollect, Option.some.injEq, Prod.mk.injEq] at h
        obtain ⟨rfl, rfl⟩ := h
        exact .collectRecord ht hpc hcollect hframe
    | _ => simp [hframe, samplingCollect] at h
  case h_2 hcollect =>
    obtain ⟨exc, es', hs, rfl, rfl⟩ := pass_cases h
    exact .stopCollect ht hpc hcollect hs
  case h_3 => simp at h

/-- **Inversion of a step.** -/
theorem step_cases (hs : (samplerSystem δ ctx).step s a = some (s', es)) :
    Steps ctx s a s' es := by
  change s.step ctx a = some (s', es) at hs
  cases a with
  | work tid env =>
    simp only [step, Option.bind_eq_some_iff, inside_eq_some] at hs
    obtain ⟨t, ⟨ht, hpc⟩, hs⟩ := hs
    exact workStep_cases ht hpc hs
  | collect tid env =>
    simp only [step, Option.bind_eq_some_iff, inside_eq_some] at hs
    obtain ⟨t, ⟨ht, hpc⟩, hs⟩ := hs
    exact collectStep_cases ht hpc hs
  | thread tid =>
    obtain ⟨exc, es', hexc, rfl, rfl⟩ := pass_cases hs
    exact .thread hexc
  | call i env =>
    obtain ⟨exc, es', hexc, rfl, rfl⟩ := passDispatch_cases hs
    exact .call hexc
  | send req =>
    obtain ⟨exc, es', hexc, rfl, rfl⟩ := pass_cases hs
    exact .outer .send hexc
  | fire id created =>
    obtain ⟨exc, es', hexc, rfl, rfl⟩ := pass_cases hs
    exact .outer .fire hexc
  | stop wait =>
    obtain ⟨exc, es', hexc, rfl, rfl⟩ := pass_cases hs
    exact .outer .stop hexc
  | start created =>
    obtain ⟨exc, es', hexc, rfl, rfl⟩ := pass_cases hs
    exact .outer .start hexc

/-! ## The environment of a write -/

theorem env_of_mem_afterDispatch {env env' : Env δ} {es : List (ExecutorEvent δ)}
    {e : SamplerEvent δ} (he : e ∈ es.flatMap (afterDispatch env)) (henv : e.env = some env') :
    env = env' := by
  obtain ⟨x, -, hx⟩ := List.mem_flatMap.mp he
  unfold afterDispatch at hx
  split at hx
  · rcases List.mem_cons.mp hx with rfl | hx
    · cases henv
    · split at hx
      · rw [List.mem_singleton.mp hx] at henv
        exact Option.some.inj henv
      · cases hx
  · rw [List.mem_singleton.mp hx] at henv
    cases henv

/-- **A write shows the environment of its step.** -/
theorem Steps.env_eq (hs : Steps ctx s a s' es) {e : SamplerEvent δ} (he : e ∈ es) {env : Env δ}
    (henv : e.env = some env) : a.env = some env := by
  have hexec : ∀ (es : List (ExecutorEvent δ)), e ∉ es.map .exec := by
    intro es hmem
    obtain ⟨x, -, rfl⟩ := List.mem_map.mp hmem
    cases henv
  have hfree : ∀ (tid : ℕ) (req : VmonRequest δ), e ∉ freeDomain tid req := by
    intro tid req hmem
    obtain ⟨dom, -, rfl⟩ := List.mem_map.mp hmem
    cases henv
  cases hs with
  | thread | outer | listReturn | stopWork | stopCollect => exact absurd he (hexec _)
  | call | listDispatch => exact congrArg some (env_of_mem_afterDispatch he henv)
  | query =>
    rcases List.mem_append.mp he with he | he
    · obtain ⟨records, -, rfl⟩ := List.mem_map.mp he
      cases henv
    · exact absurd he (hexec _)
  | listFails =>
    rcases List.mem_cons.mp he with rfl | he
    · exact henv
    · exact absurd he (hexec _)
  | list =>
    rw [List.mem_singleton.mp he] at henv
    cases henv
  | collectStart => cases he
  | collectFails =>
    rcases List.mem_cons.mp he with rfl | he
    · exact henv
    · rcases List.mem_append.mp he with he | he
      · exact absurd he (hfree _ _)
      · exact absurd he (hexec _)
  | collectRecord =>
    rw [List.mem_singleton.mp he] at henv
    exact henv
  | collectEnd =>
    rcases List.mem_cons.mp he with rfl | he
    · cases henv
    · rcases List.mem_append.mp he with he | he
      · exact absurd he (hfree _ _)
      · exact absurd he (hexec _)

/-! ## The executor inside -/

/-- What the executor is told in a step of the sampler: the arguments of `executor_dispatch`,
and what a work function leaves in its argument. -/
inductive Told (ctx : VmonContext) (s : Daemon δ) : SamplerAction δ → ExecutorAction δ → Prop
  | send {req : VmonRequest δ} :
      Told ctx s (.send req) (.dispatch .client (samplerSendRequest ctx req))
  | dispatch {tid : ℕ} {env : Env δ} {t : Thread SamplerFunction (VmonRequest δ)} {dom : δ}
      (ht : s.exc.threads[tid]? = some t) (hpc : t.pc = .working)
      (hwork : t.task.td.work = .client .listDomainsWork) :
      Told ctx s (.work tid env)
        (.dispatch (.worker tid) (listDomainsDispatch ctx t.task.arg dom))
  | query {tid : ℕ} {env : Env δ} {t : Thread SamplerFunction (VmonRequest δ)}
      {f : SamplerFunction} {ret : Option (List (StatsRecord δ))}
      (ht : s.exc.threads[tid]? = some t) (hwork : t.task.td.work = .client f)
      (hquery : Query env t.task.arg f ret) :
      Told ctx s (.work tid env) (.workReturn tid 0 (t.task.arg.store ret))
  | same {tid : ℕ} {env : Env δ} {t : Thread SamplerFunction (VmonRequest δ)} {ret : ℤ}
      (ht : s.exc.threads[tid]? = some t)
      (hwork : ∀ f, t.task.td.work = .client f → f = .listDomainsWork) :
      Told ctx s (.work tid env) (.workReturn tid ret t.task.arg)
  | thread {tid : ℕ} : Told ctx s (.thread tid) (.thread tid)
  | collect {tid : ℕ} {env : Env δ} : Told ctx s (.collect tid env) (.collectReturn tid 0)
  | call {i : ℕ} {env : Env δ} : Told ctx s (.call i env) (.call i)
  | fire {id : ℕ} {created : Bool} : Told ctx s (.fire id created) (.fire id created)
  | stop {wait : Bool} : Told ctx s (.stop wait) (.stop wait)
  | start {created : List Bool} : Told ctx s (.start created) (.start created)

/-- The events of the executor among those of a step. -/
def execEvents (es : List (SamplerEvent δ)) : List (ExecutorEvent δ) :=
  es.filterMap fun
    | .exec e => some e
    | _ => none

@[simp] theorem execEvents_append (es es' : List (SamplerEvent δ)) :
    execEvents (es ++ es') = execEvents es ++ execEvents es' := List.filterMap_append

@[simp] theorem execEvents_map (es : List (ExecutorEvent δ)) :
    execEvents (es.map .exec) = es := by
  rw [execEvents, List.filterMap_map]
  exact List.filterMap_some

@[simp] theorem execEvents_afterDispatch (env : Env δ) (es : List (ExecutorEvent δ)) :
    execEvents (es.flatMap (afterDispatch env)) = es := by
  induction es with
  | nil => rfl
  | cons e es ih =>
    rw [List.flatMap_cons, execEvents_append, ih]
    have hone : execEvents (afterDispatch env e) = [e] := by
      rcases e with ⟨_ | j, args, ret⟩ | _ <;> simp only [afterDispatch, execEvents]
      case dispatched.worker => split <;> rfl
      all_goals rfl
    rw [hone]
    rfl

theorem execEvents_sampled (tid : ℕ) (ret : Option (List (StatsRecord δ))) :
    execEvents (ret.toList.map (.sampled tid)) = [] := by cases ret <;> rfl

/-- At the end of `sampling_collect`. -/
theorem execEvents_collect {e : SamplerEvent δ} (he : execEvents [e] = []) (tid : ℕ)
    (req : VmonRequest δ) (es : List (ExecutorEvent δ)) :
    execEvents (e :: freeDomain tid req ++ es.map .exec) = es := by
  have hfree : execEvents (freeDomain tid req) = [] := by
    cases hdom : req.dom <;> simp [freeDomain, hdom, execEvents]
  rw [← List.singleton_append, execEvents_append, execEvents_append, he, hfree, execEvents_map]
  rfl

/-- **Every step of the sampler is one of the executor, or none.** -/
theorem Steps.exc_cases (hs : Steps ctx s a s' es) :
    (s'.exc = s.exc ∧ execEvents es = []) ∨
      ∃ b, s.exc.Steps b s'.exc (execEvents es) ∧ Told ctx s a b := by
  cases hs with
  | thread hs => exact .inr ⟨_, by simpa using hs, .thread⟩
  | outer ha hs =>
    rw [execEvents_map]
    cases ha with
    | send => exact .inr ⟨_, hs, .send⟩
    | fire => exact .inr ⟨_, hs, .fire⟩
    | stop => exact .inr ⟨_, hs, .stop⟩
    | start => exact .inr ⟨_, hs, .start⟩
  | call hs => exact .inr ⟨_, by simpa using hs, .call⟩
  | query ht hpc hwork hframe hquery hs =>
    exact .inr ⟨_, by simpa [execEvents_sampled] using hs, .query ht hwork hquery⟩
  | listFails ht hpc hwork hframe hlist hs =>
    exact .inr ⟨_, by simpa [execEvents] using hs,
      .same ht fun f hf => by simpa [hwork] using hf.symm⟩
  | list => exact .inl ⟨rfl, rfl⟩
  | listDispatch ht hpc hwork hframe hs =>
    exact .inr ⟨_, by simpa using hs, .dispatch ht hpc hwork⟩
  | listReturn ht hpc hwork hframe hs =>
    exact .inr ⟨_, by simpa using hs, .same ht fun f hf => by simpa [hwork] using hf.symm⟩
  | stopWork ht hpc hwork hframe hs =>
    exact .inr ⟨_, by simpa using hs, .same ht fun f hf => by simp [hwork] at hf⟩
  | collectFails ht hpc hcollect hframe herr hs =>
    exact .inr ⟨_, by rwa [execEvents_collect rfl], .collect⟩
  | collectStart => exact .inl ⟨rfl, rfl⟩
  | collectRecord => exact .inl ⟨rfl, rfl⟩
  | collectEnd ht hpc hcollect hframe hs =>
    exact .inr ⟨_, by rwa [execEvents_collect rfl], .collect⟩
  | stopCollect ht hpc hcollect hs => exact .inr ⟨_, by simpa using hs, .collect⟩

theorem Steps.oneCall (hs : Steps ctx s a s' es) (H : s.exc.OneCall) : s'.exc.OneCall := by
  rcases hs.exc_cases with ⟨heq, -⟩ | ⟨b, hexc, -⟩
  · rwa [heq]
  · exact H.step hexc

/-- The tasks of the sampler keep what they satisfy. -/
theorem Steps.allTasks {fresh done : TaskData SamplerFunction (VmonRequest δ) → Prop}
    (hs : Steps ctx s a s' es) (H : s.exc.AllTasks fresh done) (hstop : fresh stopTask)
    (hmark : ∀ task, (fresh task → fresh task.setDiscarded) ∧ (done task → done task.setDiscarded))
    (hsend : ∀ req, a = .send req → fresh (dispatchTask (samplerSendRequest ctx req)))
    (hdispatch : ∀ task dom, fresh task → task.td.work = .client .listDomainsWork →
      fresh (dispatchTask (listDomainsDispatch ctx task.arg dom)))
    (hquery : ∀ task (env : Env δ) f ret, fresh task → task.td.work = .client f →
      Query env task.arg f ret → done (task.setArg (task.arg.store ret)))
    (hsame : ∀ task, fresh task → (∀ f, task.td.work = .client f → f = .listDomainsWork) →
      done (task.setArg task.arg)) : s'.exc.AllTasks fresh done := by
  rcases hs.exc_cases with ⟨heq, -⟩ | ⟨b, hexc, htold⟩
  · rwa [heq]
  have hresult : ∀ {t : Thread SamplerFunction (VmonRequest δ)} {f : SamplerFunction} (ret : ℤ)
      (data : VmonRequest δ), t.task.td.work = .client f →
        (Executor.workResult t ret data).2 = data := by
    intro t f ret data hf
    simp [Executor.workResult, hf]
  refine H.step hexc hstop hmark ?_ ?_
  · rintro caller args rfl
    cases htold with
    | send => exact hsend _ rfl
    | dispatch ht hpc hwork =>
      have hcarries := H.holder _ _ ht
      simp only [Thread.Carries, hpc] at hcarries
      exact hdispatch _ _ hcarries hwork
  · rintro tid ret data t rfl ht hfresh
    cases htold with
    | @query _ env u f ret hu hwork hq =>
      obtain rfl : u = t := by simpa [ht] using hu.symm
      rw [hresult _ _ hwork]
      exact hquery _ env f ret hfresh hwork hq
    | @same _ env u ret hu hwork =>
      obtain rfl : u = t := by simpa [ht] using hu.symm
      rw [Executor.workResult_arg]
      exact hsame _ hfresh hwork

/-! ## Sums over the calls and the threads -/

/-- A sum over a list, and the part of one element in it. -/
theorem sum_map_eraseIdx {α : Type} {l : List α} {i : ℕ} {x : α} (f : α → ℕ)
    (hi : l[i]? = some x) : ((l.eraseIdx i).map f).sum + f x = (l.map f).sum := by
  obtain ⟨hlt, rfl⟩ := List.getElem?_eq_some_iff.mp hi
  have hperm := (List.getElem_cons_eraseIdx_perm hlt).map f
  rw [← hperm.sum_eq, List.map_cons, List.sum_cons, add_comm]

/-- The sum of what each thread of the pool holds, by its frame. -/
def sumThreads (f : Thread SamplerFunction (VmonRequest δ) → Frame δ → ℕ) (s : Daemon δ) : ℕ :=
  ∑ tid ∈ Finset.range s.exc.threads.length,
    ((s.exc.threads[tid]?).map fun t => f t (s.frames tid)).getD 0

/-- A sum after one of its terms changed. -/
private theorem sum_range_change {f g : ℕ → ℕ} {n i : ℕ} (hi : i < n) (h : ∀ j, j ≠ i → g j = f j) :
    (∑ j ∈ Finset.range n, g j) + f i = (∑ j ∈ Finset.range n, f j) + g i := by
  have hmem : i ∈ Finset.range n := Finset.mem_range.mpr hi
  have hrest : ∑ j ∈ (Finset.range n).erase i, g j = ∑ j ∈ (Finset.range n).erase i, f j :=
    Finset.sum_congr rfl fun j hj => h j (Finset.ne_of_mem_erase hj)
  have hf := Finset.add_sum_erase (Finset.range n) f hmem
  have hg := Finset.add_sum_erase (Finset.range n) g hmem
  omega

/-- **What the threads hold after one of them moved.** -/
theorem sumThreads_set (f : Thread SamplerFunction (VmonRequest δ) → Frame δ → ℕ) {tid : ℕ}
    {t t' : Thread SamplerFunction (VmonRequest δ)} (ht : s.exc.threads[tid]? = some t)
    (hthreads : s'.exc.threads = s.exc.threads.set tid t')
    (hframes : ∀ j, j ≠ tid → s'.frames j = s.frames j) :
    s'.sumThreads f + f t (s.frames tid) = s.sumThreads f + f t' (s'.frames tid) := by
  have hlt := (List.getElem?_eq_some_iff.mp ht).1
  have hsum := sum_range_change hlt
    (f := fun j => ((s.exc.threads[j]?).map fun t => f t (s.frames j)).getD 0)
    (g := fun j => ((s'.exc.threads[j]?).map fun t => f t (s'.frames j)).getD 0)
    (fun j hj => by
      simp only [hthreads, List.getElem?_set_ne (Ne.symm hj), hframes j hj])
  simpa only [sumThreads, hthreads, List.length_set, ht, List.getElem?_set_self hlt,
    Option.map_some, Option.getD_some] using hsum

/-- Threads that hold nothing. -/
theorem sumThreads_eq_zero {f : Thread SamplerFunction (VmonRequest δ) → Frame δ → ℕ}
    (h : ∀ (tid : ℕ) t, s.exc.threads[tid]? = some t → f t (s.frames tid) = 0) :
    s.sumThreads f = 0 := by
  apply Finset.sum_eq_zero
  intro tid _
  cases ht : s.exc.threads[tid]? with
  | none => rfl
  | some t => exact h tid t ht

/-- **What the threads hold after new ones started**, which hold nothing. -/
theorem sumThreads_extend {f : Thread SamplerFunction (VmonRequest δ) → Frame δ → ℕ}
    (hlen : s.exc.threads.length ≤ s'.exc.threads.length)
    (h : ∀ (tid : ℕ) t', s'.exc.threads[tid]? = some t' →
      (∃ t, s.exc.threads[tid]? = some t ∧ f t' (s'.frames tid) = f t (s.frames tid)) ∨
      (s.exc.threads.length ≤ tid ∧ f t' (s'.frames tid) = 0)) :
    s'.sumThreads f = s.sumThreads f := by
  have hterm : ∀ tid < s.exc.threads.length,
      ((s.exc.threads[tid]?).map fun t => f t (s.frames tid)).getD 0 =
        ((s'.exc.threads[tid]?).map fun t => f t (s'.frames tid)).getD 0 := by
    intro tid htid
    have hsome := List.getElem?_eq_getElem (lt_of_lt_of_le htid hlen)
    rw [hsome]
    rcases h tid _ hsome with ⟨t, ht, heq⟩ | ⟨hge, -⟩
    · rw [ht, Option.map_some, Option.map_some, heq]
    · omega
  rw [sumThreads, sumThreads, Finset.sum_congr rfl fun tid htid => hterm tid (Finset.mem_range.mp htid)]
  refine (Finset.sum_subset (Finset.range_mono hlen) fun tid htid hnew => ?_).symm
  rw [Finset.mem_range] at htid hnew
  have hsome := List.getElem?_eq_getElem htid
  rw [hsome]
  rcases h tid _ hsome with ⟨t, ht, -⟩ | ⟨-, hzero⟩
  · exact absurd (List.getElem?_eq_some_iff.mp ht).1 hnew
  · rw [Option.map_some, hzero, Option.getD_some]

end Daemon

end Vmon
