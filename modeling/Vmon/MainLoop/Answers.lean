import Vmon.MainLoop.Pool

/-!
# Every response answers a request that was read

Requests of several clients are under way at the same time, on workers that are replaced, and
a task of one request may be the second task of a thread. None of it mixes them up: what the
program writes carries the id of a line that it read and accepted, and the records it reports
under that id are records that libvirt returned to a query for the statistics of that request.

## Main definitions

* `requestsRead`, `StatsAnswered` — what a run read, and what libvirt answered in it.
* `Answers` — what each response is.
* `Daemon.Bound` — the invariant: each task and each loop over records belongs to a request.
-/

namespace Vmon

variable {δ : Type} {ctx : VmonContext} {lib : UuidLib} {stray : ℕ → Bool}

/-! ## The promise -/

/-- The request of the line that a move reads. -/
def MainMove.read (lib : UuidLib) (stray : ℕ → Bool) (m : MainMove δ) : Option SampleRequest :=
  match m.action with
  | .input (.normal line) => (samplerParseRequest lib stray line line.length).toOption
  | _ => none

/-- The requests that the lines of a run asked for. -/
def requestsRead (lib : UuidLib) (stray : ℕ → Bool) (moves : List (MainMove δ)) :
    List SampleRequest :=
  moves.filterMap (MainMove.read lib stray)

/-- Libvirt returned the record to a query for the statistics `stats`. -/
def StatsAnswered (moves : List (MainMove δ)) (stats : UInt32) (record : StatsRecord δ) : Prop :=
  ∃ m ∈ moves, ∃ (tid : ℕ) (env : Env δ) (records : List (StatsRecord δ)),
    m.action = .daemon (.work tid env) ∧
      (env.conn.getAllDomainStats stats = some records ∨
        ∃ doms, env.conn.domainListGetStats doms stats = some records) ∧ record ∈ records

/-- What libvirt and libuuid answer in a move. -/
def MainAction.env : MainAction δ → Option (Env δ)
  | .daemon a => a.env
  | .input _ => none

/-- What the event writes, where libvirt and libuuid answer `told`, answers one of the requests.
The main thread writes nothing itself. -/
def MainEvent.Answers (ctx : VmonContext) (told : Option (Env δ)) (asked : SampleRequest → Prop)
    (answered : UInt32 → StatsRecord δ → Prop) : MainEvent δ → Prop
  | .daemon (.response _ env dom events data) =>
    told = some env ∧ ∃ (ts : UInt64) (req : VmonRequest δ) (record : StatsRecord δ),
      asked req.sr ∧ answered req.sr.stats record ∧ dom = record.dom ∧
        (events, data) = collectRecord ctx env ts req record
  | .daemon (.error _ env dom text) =>
    told = some env ∧ ∃ (req : VmonRequest δ) (code : ℤ) (timeout : Bool),
      asked req.sr ∧ dom = req.dom ∧ text = collectError env req code timeout
  | .response _ => False
  | _ => True

/-! ## A thread in its collect function -/

namespace Executor

variable {ι β : Type} [Payload β] {s s' : Executor ι β} {a : Action ι β} {es : List (Event ι β)}

/-- A thread stays in its collect function, with its task, until that returns. -/
theorem Steps.collecting (hs : s.Steps a s' es) {tid : ℕ} {t : Thread ι β}
    (ht : s.threads[tid]? = some t) (hpc : t.pc = .collecting)
    (hopen : ∀ k ret, .collectReturned tid k ret ∉ es) :
    ∃ t', s'.threads[tid]? = some t' ∧ t'.pc = .collecting ∧ t'.task.arg = t.task.arg := by
  by_cases hne : s.mover a = some tid
  · have hsame : ∀ {u : Thread ι β}, s.threads[tid]? = some u → u.pc = .collecting := by
      intro u hu
      obtain rfl : t = u := by simpa [ht] using hu
      exact hpc
    cases hs with
    | fire | stop | startAgain | start => simp [mover] at hne
    | refuse | enter | dispatchPut | stopPut | stopPhase | stopReturn => exact ⟨t, ht, hpc, rfl⟩
    | loop | exit =>
      simp only [mover, Option.some.injEq] at hne
      subst hne
      exact absurd (List.mem_singleton_self _) (hopen _ _)
    | wait hu hget | take hu hget | takeUndefined hu hget =>
      simp only [mover, Option.some.injEq] at hne
      subst hne
      rw [hsame hu] at hget
      simp at hget
    | arm hu hat | skipTimer hu hat | setCurrent hu hat | callWork hu hat | returnWork hu hat
    | clearCurrent hu hat | keepTimer hu hat | dropTimer hu hat | deleteTimer hu hat
    | callCollect hu hat =>
      simp only [mover, Option.some.injEq] at hne
      subst hne
      rw [hsame hu] at hat
      cases hat
  · obtain ⟨t', ht', rfl | rfl⟩ := (hs.kept ht hne).thread
    · exact ⟨t', ht', hpc, rfl⟩
    · exact ⟨t.mark, ht', hpc, rfl⟩

theorem AllTasks.mono {fresh done fresh' done' : TaskData ι β → Prop}
    (H : s.AllTasks fresh done) (hfresh : ∀ task, fresh task → fresh' task)
    (hdone : ∀ task, done task → done' task) : s.AllTasks fresh' done' where
  queue o task ho := hfresh _ (H.queue o task ho)
  calls caller args hcall := hfresh _ (H.calls caller args hcall)
  holder tid t ht := by
    have hcarries := H.holder tid t ht
    cases hpc : t.pc <;> simp only [Thread.Carries, hpc] at hcarries ⊢
    case got | armed | ready | working => exact hfresh _ hcarries
    case worked | cleared | deleting | finished | collecting => exact hdone _ hcarries

end Executor

/-! ## The invariant -/

/-- The task is one of the sampler, for a request of which `P` holds, or a stop task. -/
def TaskData.For (P : VmonRequest δ → Prop) (task : TaskData SamplerFunction (VmonRequest δ)) :
    Prop :=
  (task.td.work = .stopWorker ∧ task.td.collect = .stopCollect) ∨ P task.arg

section For

variable {P Q : VmonRequest δ → Prop} {task : TaskData SamplerFunction (VmonRequest δ)}

theorem TaskData.For.of_work {f : SamplerFunction} (H : task.For P)
    (hwork : task.td.work = .client f) : P task.arg := by
  rcases H with ⟨hstop, -⟩ | H
  · rw [hstop] at hwork
    cases hwork
  · exact H

theorem TaskData.For.of_collect {f : SamplerFunction} (H : task.For P)
    (hcollect : task.td.collect = .client f) : P task.arg := by
  rcases H with ⟨-, hstop⟩ | H
  · rw [hstop] at hcollect
    cases hcollect
  · exact H

theorem TaskData.For.setArg {req : VmonRequest δ} (H : task.For P) (hreq : P task.arg → Q req) :
    (task.setArg req).For Q := by
  rcases H with H | H
  · exact .inl (by simpa using H)
  · exact .inr (by simpa using hreq H)

end For

/-- The request was asked for, and no query was made for it. -/
def VmonRequest.Open (asked : SampleRequest → Prop) (req : VmonRequest δ) : Prop :=
  asked req.sr ∧ req.records = none

/-- The request was asked for, and its records answer it. -/
def VmonRequest.Filled (asked : SampleRequest → Prop) (answered : UInt32 → StatsRecord δ → Prop)
    (req : VmonRequest δ) : Prop :=
  asked req.sr ∧ ∀ records, req.records = some records →
    ∀ record ∈ records, answered req.sr.stats record

theorem VmonRequest.Filled.reported {asked : SampleRequest → Prop}
    {answered : UInt32 → StatsRecord δ → Prop} {req : VmonRequest δ} (H : req.Filled asked answered)
    {record : StatsRecord δ} (hrecord : record ∈ req.reported) :
    answered req.sr.stats record := by
  cases hrecords : req.records with
  | none => simp [VmonRequest.reported, hrecords] at hrecord
  | some records =>
    refine H.2 records hrecords record ?_
    rw [VmonRequest.reported, hrecords] at hrecord
    exact List.mem_of_mem_take hrecord

namespace Daemon

/-- Each task belongs to a request that was asked for, and the records that a thread goes over
answer the request of its task. -/
structure Bound (asked : SampleRequest → Prop) (answered : UInt32 → StatsRecord δ → Prop)
    (s : Daemon δ) : Prop where
  tasks : s.exc.AllTasks (TaskData.For (VmonRequest.Open asked))
    (TaskData.For (VmonRequest.Filled asked answered))
  frames : ∀ (tid : ℕ) (ts : UInt64) (records : List (StatsRecord δ)),
    s.frames tid = .reporting ts records → ∃ t, s.exc.threads[tid]? = some t ∧
      t.pc = .collecting ∧ ∀ record ∈ records, answered t.task.arg.sr.stats record

theorem follow_reporting {frames : ℕ → Frame δ} {e : ExecutorEvent δ} {tid : ℕ} {ts : UInt64}
    {records : List (StatsRecord δ)} (h : follow frames e tid = .reporting ts records) :
    frames tid = .reporting ts records ∧ ∀ k ret, e ≠ .collectReturned tid k ret := by
  have hset : ∀ {j : ℕ} {frame : Frame δ}, (∀ ts records, frame ≠ .reporting ts records) →
      Function.update frames j frame tid = .reporting ts records →
      frames tid = .reporting ts records ∧ tid ≠ j := by
    intro j frame hframe hupdate
    by_cases hj : tid = j
    · rw [hj, Function.update_self] at hupdate
      exact absurd hupdate (hframe _ _)
    · rw [Function.update_of_ne hj] at hupdate
      exact ⟨hupdate, hj⟩
  cases e with
  | workCalled j | workReturned j | collectCalled j => exact ⟨(hset (by simp) h).1, by simp⟩
  | collectReturned j k ret =>
    obtain ⟨hold, hj⟩ := hset (by simp) h
    refine ⟨hold, ?_⟩
    rintro k' ret' heq
    cases heq
    exact hj rfl
  | dispatched caller args ret =>
    refine ⟨?_, by simp⟩
    cases caller with
    | client => exact h
    | worker j =>
      cases hframe : frames j with
      | listing domains err =>
        simp only [follow, hframe] at h
        exact (hset (by simp) h).1
      | _ =>
        simp only [follow, hframe] at h
        exact h
  | _ => exact ⟨h, by simp⟩

theorem foldl_follow_reporting {frames : ℕ → Frame δ} {es : List (ExecutorEvent δ)} {tid : ℕ}
    {ts : UInt64} {records : List (StatsRecord δ)}
    (h : es.foldl follow frames tid = .reporting ts records) :
    frames tid = .reporting ts records ∧ ∀ k ret, .collectReturned tid k ret ∉ es := by
  induction es generalizing frames with
  | nil => exact ⟨h, by simp⟩
  | cons e es ih =>
    obtain ⟨hrest, hes⟩ := ih h
    obtain ⟨hold, he⟩ := follow_reporting hrest
    refine ⟨hold, fun k ret hmem => ?_⟩
    rcases List.mem_cons.mp hmem with heq | hmem
    · exact he k ret heq.symm
    · exact hes k ret hmem

namespace Bound

variable {asked asked' : SampleRequest → Prop} {answered answered' : UInt32 → StatsRecord δ → Prop}
  {s s' : Daemon δ} {a : SamplerAction δ} {es : List (SamplerEvent δ)}

theorem mono (H : s.Bound asked answered) (hasked : ∀ sr, asked sr → asked' sr)
    (hanswered : ∀ stats record, answered stats record → answered' stats record) :
    s.Bound asked' answered' where
  tasks := H.tasks.mono (fun _ h => h.imp_right fun h => ⟨hasked _ h.1, h.2⟩) fun _ h =>
    h.imp_right fun h => ⟨hasked _ h.1, fun rs hrs r hr => hanswered _ _ (h.2 rs hrs r hr)⟩
  frames tid ts records hframe := by
    obtain ⟨t, ht, hpc, hall⟩ := H.frames tid ts records hframe
    exact ⟨t, ht, hpc, fun r hr => hanswered _ _ (hall r hr)⟩

/-- The loops over records go on in a step of the executor. -/
theorem frames_after (H : s.Bound asked answered) {b : ExecutorAction δ} {exc : SamplerExecutor δ}
    {es : List (ExecutorEvent δ)} (hs : s.exc.Steps b exc es) {tid : ℕ} {ts : UInt64}
    {records : List (StatsRecord δ)} (hframe : (s.after exc es).frames tid = .reporting ts records) :
    ∃ t, exc.threads[tid]? = some t ∧ t.pc = .collecting ∧
      ∀ record ∈ records, answered t.task.arg.sr.stats record := by
  obtain ⟨hold, hopen⟩ := foldl_follow_reporting hframe
  obtain ⟨t, ht, hpc, hall⟩ := H.frames tid ts records hold
  obtain ⟨t', ht', hpc', harg⟩ := hs.collecting ht hpc hopen
  exact ⟨t', ht', hpc', by rwa [harg]⟩

/-- A thread that is not in a loop over records leaves those loops alone. -/
theorem setFrame (H : s.Bound asked answered) {tid : ℕ} {frame : Frame δ}
    (hframe : ∀ ts records, frame = .reporting ts records → ∃ t, s.exc.threads[tid]? = some t ∧
      t.pc = .collecting ∧ ∀ record ∈ records, answered t.task.arg.sr.stats record) :
    (s.setFrame tid frame).Bound asked answered where
  tasks := H.tasks
  frames j ts records hj := by
    rw [setFrame_frames] at hj
    by_cases heq : j = tid
    · subst heq
      rw [Function.update_self] at hj
      exact hframe ts records hj
    · rw [Function.update_of_ne heq] at hj
      exact H.frames j ts records hj

/-- The tasks: a dispatch takes over the request, and a query answers it. -/
theorem step_tasks (H : s.Bound asked answered) (hs : Steps ctx s a s' es)
    (hsend : ∀ req, a = .send req → ∃ sr, asked sr ∧ req = .ofSample sr)
    (hquery : ∀ (tid : ℕ) (env : Env δ) (stats : UInt32) (records : List (StatsRecord δ)),
      a = .work tid env → (env.conn.getAllDomainStats stats = some records ∨
        ∃ doms, env.conn.domainListGetStats doms stats = some records) →
      ∀ record ∈ records, answered stats record) :
    s'.exc.AllTasks (TaskData.For (VmonRequest.Open asked))
      (TaskData.For (VmonRequest.Filled asked answered)) := by
  have hstored : ∀ {tid : ℕ} {env : Env δ} {req : VmonRequest δ} {f : SamplerFunction}
      {ret : Option (List (StatsRecord δ))}, a = .work tid env → Query env req f ret →
      req.Open asked → (req.store ret).Filled asked answered := by
    rintro tid env req f ret ha hq ⟨hasked, hnone⟩
    cases ret with
    | none => exact ⟨hasked, fun records hrecords => by simp [VmonRequest.store, hnone] at hrecords⟩
    | some records =>
      refine ⟨hasked, fun records' hrecords => ?_⟩
      obtain rfl : records = records' := by simpa [VmonRequest.store] using hrecords
      refine hquery tid env req.sr.stats records ha ?_
      generalize some records = ret at hq
      cases hq with
      | sample => exact .inl rfl
      | bulk => exact .inr ⟨_, rfl⟩
  rcases hs.exc_cases with ⟨heq, -⟩ | ⟨b, hexc, htold⟩
  · rw [heq]
    exact H.tasks
  refine H.tasks.step hexc (.inl ⟨rfl, rfl⟩) (fun _ => ⟨id, id⟩) ?_ ?_
  · rintro caller args rfl
    cases htold with
    | @send req =>
      obtain ⟨sr, hasked, rfl⟩ := hsend req rfl
      exact .inr ⟨hasked, rfl⟩
    | dispatch ht hpc hwork =>
      have hcarries := H.tasks.holder _ _ ht
      simp only [Thread.Carries, hpc] at hcarries
      have hopen := hcarries.of_work hwork
      exact .inr ⟨hopen.1, hopen.2⟩
  · rintro tid ret data t rfl ht hfresh
    cases htold with
    | @query _ env u f ret hu hwork hq =>
      obtain rfl : u = t := by simpa [ht] using hu.symm
      have hresult : (Executor.workResult u 0 (u.task.arg.store ret)).2 = u.task.arg.store ret := by
        simp [Executor.workResult, hwork]
      rw [hresult]
      exact hfresh.setArg fun hopen => hstored rfl hq hopen
    | @same _ env u ret hu hwork =>
      obtain rfl : u = t := by simpa [ht] using hu.symm
      rw [Executor.workResult_arg]
      refine hfresh.setArg fun hopen => ⟨hopen.1, fun records hrecords => ?_⟩
      rw [hopen.2] at hrecords
      cases hrecords

/-- The request of a thread in `sampling_collect`. -/
theorem filled (H : s.Bound asked answered) {tid : ℕ} {t : Thread SamplerFunction (VmonRequest δ)}
    (ht : s.exc.threads[tid]? = some t) (hpc : t.pc = .collecting)
    (hcollect : t.task.td.collect = .client .samplingCollect) :
    t.task.arg.Filled asked answered := by
  have hcarries := H.tasks.holder _ _ ht
  simp only [Thread.Carries, hpc] at hcarries
  exact hcarries.of_collect hcollect

theorem step_frames (H : s.Bound asked answered) (hs : Steps ctx s a s' es) {tid : ℕ} {ts : UInt64}
    {records : List (StatsRecord δ)} (hframe : s'.frames tid = .reporting ts records) :
    ∃ t, s'.exc.threads[tid]? = some t ∧ t.pc = .collecting ∧
      ∀ record ∈ records, answered t.task.arg.sr.stats record := by
  cases hs with
  | thread hs => exact H.frames_after hs hframe
  | outer ha hs => exact H.frames_after hs hframe
  | call hs => exact H.frames_after hs hframe
  | query _ _ _ _ _ hs => exact H.frames_after hs hframe
  | listFails _ _ _ _ _ hs => exact H.frames_after hs hframe
  | list => exact (H.setFrame (by simp)).frames _ _ _ hframe
  | listDispatch _ _ _ _ hs => exact (H.setFrame (by simp)).frames_after hs hframe
  | listReturn _ _ _ _ hs => exact H.frames_after hs hframe
  | stopWork _ _ _ _ hs => exact H.frames_after hs hframe
  | collectFails _ _ _ _ _ hs => exact H.frames_after hs hframe
  | @collectStart tid' env t ht hpc hcollect hcollecting =>
    refine (H.setFrame fun ts' records' heq => ⟨t, ht, hpc, fun record hrecord => ?_⟩).frames
      _ _ _ hframe
    cases heq
    exact (H.filled ht hpc hcollect).reported hrecord
  | @collectRecord tid' env t ts' record records' ht hpc hcollect hreporting =>
    obtain ⟨u, hu, hupc, hall⟩ := H.frames _ _ _ hreporting
    refine (H.setFrame fun ts' records' heq => ⟨u, hu, hupc, fun record hrecord => ?_⟩).frames
      _ _ _ hframe
    cases heq
    exact hall record (List.mem_cons_of_mem _ hrecord)
  | collectEnd _ _ _ _ hs => exact H.frames_after hs hframe
  | stopCollect _ _ _ hs => exact H.frames_after hs hframe

/-- **Every step keeps the tasks bound to their requests.** -/
theorem step (H : s.Bound asked answered) (hs : Steps ctx s a s' es)
    (hsend : ∀ req, a = .send req → ∃ sr, asked sr ∧ req = .ofSample sr)
    (hquery : ∀ (tid : ℕ) (env : Env δ) (stats : UInt32) (records : List (StatsRecord δ)),
      a = .work tid env → (env.conn.getAllDomainStats stats = some records ∨
        ∃ doms, env.conn.domainListGetStats doms stats = some records) →
      ∀ record ∈ records, answered stats record) : s'.Bound asked answered :=
  ⟨H.step_tasks hs hsend hquery, fun _ _ _ => H.step_frames hs⟩

/-- The error response of a refused dispatch. -/
theorem afterDispatch_answers (H : s.Bound asked answered) {b : ExecutorAction δ}
    {exc : SamplerExecutor δ} {es : List (ExecutorEvent δ)} (hs : s.exc.Steps b exc es)
    (hdispatch : ∀ caller args, b = .dispatch caller args → asked args.data.sr) {env : Env δ}
    {e : SamplerEvent δ} (he : e ∈ es.flatMap (afterDispatch env)) :
    MainEvent.Answers ctx (some env) asked answered (.daemon e) := by
  obtain ⟨e', he', hmem⟩ := List.mem_flatMap.mp he
  have hother : e = .exec e' → MainEvent.Answers ctx (some env) asked answered (.daemon e) := by
    rintro rfl
    trivial
  cases e' with
  | dispatched caller args ret =>
    cases caller with
    | client => exact hother (List.mem_singleton.mp hmem)
    | worker tid =>
      simp only [afterDispatch] at hmem
      split at hmem
      · rcases List.mem_cons.mp hmem with heq | hmem
        · exact hother heq
        · rw [List.mem_singleton.mp hmem]
          refine ⟨rfl, args.data, ret, false, ?_, rfl, rfl⟩
          -- the arguments are those of the step, or of a call that was under way
          cases hs <;> simp only [List.mem_singleton, Event.dispatched.injEq, List.not_mem_nil,
            reduceCtorEq] at he'
          case refuse =>
            obtain ⟨rfl, rfl, rfl⟩ := he'
            exact hdispatch _ _ rfl
          case dispatchPut hcall =>
            obtain ⟨rfl, rfl, -⟩ := he'
            rcases H.tasks.calls _ _ (List.mem_of_getElem? hcall) with ⟨hstop, -⟩ | hopen
            · cases hstop
            · exact hopen.1
      · exact hother (List.mem_singleton.mp hmem)
  | _ => exact hother (List.mem_singleton.mp hmem)

/-- **What a step writes answers a request that was asked for.** -/
theorem step_answers (H : s.Bound asked answered) (hs : Steps ctx s a s' es) :
    ∀ e ∈ es, MainEvent.Answers ctx a.env asked answered (.daemon e) := by
  have hexec : ∀ {told : Option (Env δ)} {es : List (ExecutorEvent δ)},
      ∀ e ∈ es.map SamplerEvent.exec, MainEvent.Answers ctx told asked answered (.daemon e) := by
    intro told es e he
    obtain ⟨e', -, rfl⟩ := List.mem_map.mp he
    trivial
  have hfree : ∀ {told : Option (Env δ)} {tid : ℕ} {req : VmonRequest δ}, ∀ e ∈ freeDomain tid req,
      MainEvent.Answers ctx told asked answered (.daemon e) := by
    intro told tid req e he
    obtain ⟨dom, -, rfl⟩ := List.mem_map.mp he
    trivial
  have hwork : ∀ {tid : ℕ} {t : Thread SamplerFunction (VmonRequest δ)} {f : SamplerFunction},
      s.exc.threads[tid]? = some t → t.pc = .working → t.task.td.work = .client f →
      asked t.task.arg.sr := by
    intro tid t f ht hpc hf
    have hcarries := H.tasks.holder _ _ ht
    simp only [Thread.Carries, hpc] at hcarries
    exact (hcarries.of_work hf).1
  cases hs with
  | thread => exact hexec
  | outer => exact hexec
  | listReturn => exact hexec
  | stopWork => exact hexec
  | stopCollect => exact hexec
  | collectStart => simp
  | call hs => exact fun e he => H.afterDispatch_answers hs (by simp) he
  | @listDispatch tid env t dom domains err exc es ht hpc hf hframe hs =>
    intro e he
    have hset : (s.setFrame tid (.listing domains err)).Bound asked answered :=
      H.setFrame (by simp)
    refine hset.afterDispatch_answers hs ?_ he
    rintro caller args heq
    cases heq
    exact hwork ht hpc hf
  | @query tid env t f ret =>
    intro e he
    rcases List.mem_append.mp he with he | he
    · obtain ⟨records, -, rfl⟩ := List.mem_map.mp he
      trivial
    · exact hexec e he
  | @listFails tid env t exc es ht hpc hf =>
    intro e he
    rcases List.mem_cons.mp he with rfl | he
    · exact ⟨rfl, t.task.arg, libvirtError, false, hwork ht hpc hf, rfl, rfl⟩
    · exact hexec e he
  | list =>
    intro e he
    rw [List.mem_singleton.mp he]
    trivial
  | @collectFails tid env t error timeout exc es ht hpc hcollect =>
    intro e he
    rcases List.mem_cons.mp he with rfl | he
    · exact ⟨rfl, t.task.arg, error, timeout, (H.filled ht hpc hcollect).1, rfl, rfl⟩
    · rcases List.mem_append.mp he with he | he
      · exact hfree e he
      · exact hexec e he
  | @collectRecord tid env t ts record records ht hpc hcollect hreporting =>
    intro e he
    rw [List.mem_singleton.mp he]
    obtain ⟨u, hu, -, hall⟩ := H.frames _ _ _ hreporting
    obtain rfl : u = t := by simpa [ht] using hu.symm
    exact ⟨rfl, ts, u.task.arg, record, (H.filled ht hpc hcollect).1,
      hall record List.mem_cons_self, rfl, rfl⟩
  | @collectEnd tid env t ts =>
    intro e he
    rcases List.mem_cons.mp he with rfl | he
    · trivial
    · rcases List.mem_append.mp he with he | he
      · exact hfree e he
      · exact hexec e he

theorem of_started (workersCount maxTasks : ℕ) :
    (started workersCount maxTasks : Daemon δ).Bound asked answered :=
  ⟨Executor.AllTasks.of_started _ _, by simp [started]⟩

end Bound

end Daemon

/-! ## The program -/

theorem MainEvent.Answers.mono {told : Option (Env δ)} {asked asked' : SampleRequest → Prop}
    {answered answered' : UInt32 → StatsRecord δ → Prop} {e : MainEvent δ}
    (H : e.Answers ctx told asked answered) (hasked : ∀ sr, asked sr → asked' sr)
    (hanswered : ∀ stats record, answered stats record → answered' stats record) :
    e.Answers ctx told asked' answered' := by
  cases e with
  | daemon e =>
    cases e with
    | response tid env dom events data =>
      obtain ⟨hold, ts, req, record, h₁, h₂, h₃, h₄⟩ := H
      exact ⟨hold, ts, req, record, hasked _ h₁, hanswered _ _ h₂, h₃, h₄⟩
    | error tid env dom text =>
      obtain ⟨hold, req, code, timeout, h₁, h₂, h₃⟩ := H
      exact ⟨hold, req, code, timeout, hasked _ h₁, h₂, h₃⟩
    | _ => trivial
  | response text => exact H
  | _ => trivial

/-- What the main loop shows beside the sampler writes nothing. -/
theorem MainLoop.response_not_mem {s s' : MainLoop δ} {a : MainAction δ} {es : List (MainEvent δ)}
    (hs : (mainSystem δ ctx lib stray).step s a = some (s', es)) (text : Bytes) :
    .response text ∉ es := by
  have hhandled : ∀ (s : MainLoop δ) (err : ℤ), .response text ∉ (s.handled err).2 := by
    intro s err
    unfold handled
    split <;> simp
  have hresume : ∀ (s : MainLoop δ) (r : Daemon δ × List (SamplerEvent δ)),
      .response text ∉ (s.resume r).2 := by
    intro s r
    unfold resume
    split
    · simp
    · simpa using hhandled _ _
  change s.step ctx lib stray a = some (s', es) at hs
  cases a with
  | daemon b =>
    simp only [step, Option.ite_none_right_eq_some, Option.map_eq_some_iff] at hs
    obtain ⟨-, r, -, heq⟩ := hs
    have hnot := hresume s r
    rwa [heq] at hnot
  | input status =>
    simp only [step, Option.ite_none_right_eq_some] at hs
    obtain ⟨-, hs⟩ := hs
    cases status with
    | normal line =>
      simp only [vmonIoCallback] at hs
      split at hs
      · rename_i err _
        have hnot := hhandled s err
        rwa [Option.some.inj hs] at hnot
      · rename_i args _
        obtain ⟨r, -, heq⟩ := Option.map_eq_some_iff.mp hs
        have hnot := hresume { s with callback := some args } r
        rwa [heq] at hnot
    | error | eof | again =>
      simp only [vmonIoCallback, Option.some.injEq, Prod.mk.injEq] at hs
      rw [← hs.2]
      simp

/-- **Every response answers a request that was read**, under its id as libuuid gives it in the
move that writes, with records that were sampled for it. -/
theorem responses_answer_requests {n cap : ℕ} {moves : List (MainMove δ)} {h : List (MainEvent δ)}
    {s : MainLoop δ} (hr : (mainSystem δ ctx lib stray).Run (.started n cap) moves h s) :
    ∀ e ∈ h, ∃ m ∈ moves, (mainSystem δ ctx lib stray).Shows m e ∧
      e.Answers ctx m.action.env (· ∈ requestsRead lib stray moves) (StatsAnswered moves) := by
  suffices hall : s.daemon.Bound (· ∈ requestsRead lib stray moves) (StatsAnswered moves) ∧
      ∀ e ∈ h, ∃ m ∈ moves, (mainSystem δ ctx lib stray).Shows m e ∧
        e.Answers ctx m.action.env (· ∈ requestsRead lib stray moves) (StatsAnswered moves)
    from hall.2
  induction hr with
  | init => exact ⟨Daemon.Bound.of_started _ _, by simp⟩
  | @step moves h s s' a es hrun hs ih =>
    -- what was asked for and answered before still is
    have hread : requestsRead lib stray (moves ++ [⟨h, s, a⟩]) =
        requestsRead lib stray moves ++ (MainMove.read lib stray ⟨h, s, a⟩).toList := by
      rw [requestsRead, List.filterMap_append]
      cases hone : MainMove.read lib stray (⟨h, s, a⟩ : MainMove δ) <;> simp [requestsRead, hone]
    have hasked : ∀ sr, sr ∈ requestsRead lib stray moves →
        sr ∈ requestsRead lib stray (moves ++ [⟨h, s, a⟩]) := by
      intro sr hsr
      rw [hread]
      exact List.mem_append_left _ hsr
    have hanswered : ∀ stats record, StatsAnswered moves stats record →
        StatsAnswered (moves ++ [⟨h, s, a⟩]) stats record := by
      rintro stats record ⟨m, hm, hrest⟩
      exact ⟨m, List.mem_append_left _ hm, hrest⟩
    have H := ih.1.mono hasked hanswered
    have hnew : ∀ {b : SamplerAction δ}, ((a = .daemon b ∧ s.mayMove b = true) ∨
        ∃ line sr, a = .input (.normal line) ∧
          samplerParseRequest lib stray line line.length = .ok sr ∧ b = .send (.ofSample sr)) →
        (∀ req, b = .send req → ∃ sr, sr ∈ requestsRead lib stray (moves ++ [⟨h, s, a⟩]) ∧
          req = .ofSample sr) ∧ (∀ tid env, b = .work tid env → a = .daemon b) ∧ a.env = b.env := by
      rintro b (⟨rfl, hmay⟩ | ⟨line, sr, rfl, hparse, rfl⟩)
      · refine ⟨?_, fun _ _ _ => rfl, rfl⟩
        rintro req rfl
        simp [MainLoop.mayMove] at hmay
      · refine ⟨?_, by simp, rfl⟩
        intro req hreq
        cases hreq
        refine ⟨sr, ?_, rfl⟩
        rw [hread]
        simp [MainMove.read, hparse, Except.toOption]
    have hdaemon : s'.daemon.Bound (· ∈ requestsRead lib stray (moves ++ [⟨h, s, a⟩]))
          (StatsAnswered (moves ++ [⟨h, s, a⟩])) ∧
        ∀ e ∈ es.filterMap MainEvent.daemonEvent, MainEvent.Answers ctx a.env
          (· ∈ requestsRead lib stray (moves ++ [⟨h, s, a⟩]))
          (StatsAnswered (moves ++ [⟨h, s, a⟩])) (.daemon e) := by
      rcases MainLoop.daemon_cases hs with ⟨hsame, hnone⟩ | ⟨b, hb, horigin⟩
      · rw [hsame, hnone]
        exact ⟨H, by simp⟩
      · obtain ⟨hsend, hwork, henv⟩ := hnew horigin
        have hsteps := Daemon.step_cases hb
        rw [henv]
        refine ⟨H.step hsteps hsend ?_, H.step_answers hsteps⟩
        intro tid env stats records hb hanswer record hrecord
        exact ⟨⟨h, s, a⟩, List.mem_append_right _ (List.mem_singleton_self _), tid, env, records,
          (hwork tid env hb).trans (by rw [hb]), hanswer, hrecord⟩
    refine ⟨hdaemon.1, fun e he => ?_⟩
    rcases List.mem_append.mp he with he | he
    · obtain ⟨m, hm, hshows, hanswers⟩ := ih.2 e he
      exact ⟨m, List.mem_append_left _ hm, hshows, hanswers.mono hasked hanswered⟩
    · refine ⟨⟨h, s, a⟩, by simp, ⟨s', es, hs, he⟩, ?_⟩
      cases e with
      | daemon e => exact hdaemon.2 e (List.mem_filterMap.mpr ⟨_, he, rfl⟩)
      | response text => exact absurd he (MainLoop.response_not_mem hs text)
      | quit | returned => trivial

/-- The program answers the one request that it read. -/
theorem responses_answer_requests_one_record : ∃ (moves : List (MainMove ℕ))
    (h : List (MainEvent ℕ)) (s : MainLoop ℕ), h.any (fun e => match e with
        | .daemon (.response ..) => true
        | _ => false) = true ∧
      reportSystem.Run (.started 1 1) moves h s ∧
      ∀ e ∈ h, ∃ m ∈ moves, reportSystem.Shows m e ∧
        e.Answers (sampleContext.withBulk true) m.action.env
          (· ∈ requestsRead sampleLib (fun _ => false) moves) (StatsAnswered moves) := by
  obtain ⟨moves, h, s, hr, -, hp⟩ := Lts.exists_run_of_trace reportSystem (.started 1 1)
    (reportSteps reportEnv) (fun _ h _ => h.any fun e => match e with
      | .daemon (.response ..) => true
      | _ => false) (by decide +kernel)
  exact ⟨moves, h, s, hp, hr, responses_answer_requests hr⟩

end Vmon
