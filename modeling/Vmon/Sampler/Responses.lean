import Vmon.Sampler.Threads

/-!
# The responses of a sampling task

A task that queries libvirt keeps the answer in its request and returns `0` whatever the
answer was, so its collect function never learns of a failure: a query that failed is
answered by nothing at all. And `collect_success` prints every record, also one that
`vminfo_parse` gave up on. The responses match the outcome exactly where the query succeeded
and all its records were parsed (`responses_match_iff`).

## Main definitions

* `errorWrites`, `recordWrites` — what a thread wrote.
* `answers`, `parses` — what the environment answered to it.
* `ResponsesMatch`, `Sampled` — the promise, and where it is kept.
* `Sampling` — how far a task is.
-/

namespace Vmon

variable {δ : Type}

/-! ## What is written -/

/-- An error response, and the environment of the step that wrote it. -/
structure ErrorWrite (δ : Type) where
  env : Env δ
  dom : Option δ
  text : Bytes

/-- What is written for a record, and the environment of the step that wrote it. -/
structure RecordWrite (δ : Type) where
  env : Env δ
  dom : δ
  events : Bytes
  data : Option Bytes

/-- The error responses of thread `tid`. -/
def errorWrites (tid : ℕ) (h : List (SamplerEvent δ)) : List (ErrorWrite δ) :=
  h.filterMap fun
    | .error j env dom text => if j = tid then some ⟨env, dom, text⟩ else none
    | _ => none

/-- What thread `tid` wrote for records. -/
def recordWrites (tid : ℕ) (h : List (SamplerEvent δ)) : List (RecordWrite δ) :=
  h.filterMap fun
    | .response j env dom events data => if j = tid then some ⟨env, dom, events, data⟩ else none
    | _ => none

/-- The collect function of thread `tid` was told that the task was discarded. -/
def TimedOut (tid : ℕ) (h : List (SamplerEvent δ)) : Prop :=
  ∃ k collect req error, .exec (.collectCalled tid k collect req error true) ∈ h

instance (tid : ℕ) (h : List (SamplerEvent δ)) : Decidable (TimedOut tid h) :=
  decidable_of_iff (h.any (fun e => match e with
    | .exec (.collectCalled j _ _ _ _ timeout) => j == tid && timeout
    | _ => false) = true) <| by
    rw [List.any_eq_true]
    constructor
    · rintro ⟨e, he, hp⟩
      split at hp
      · rw [Bool.and_eq_true, beq_iff_eq] at hp
        obtain ⟨rfl, rfl⟩ := hp
        exact ⟨_, _, _, _, he⟩
      · cases hp
    · rintro ⟨k, collect, req, error, he⟩
      exact ⟨_, he, by simp⟩

section Writes

variable {tid : ℕ}

@[simp] theorem errorWrites_append (h es : List (SamplerEvent δ)) :
    errorWrites tid (h ++ es) = errorWrites tid h ++ errorWrites tid es :=
  List.filterMap_append

@[simp] theorem recordWrites_append (h es : List (SamplerEvent δ)) :
    recordWrites tid (h ++ es) = recordWrites tid h ++ recordWrites tid es :=
  List.filterMap_append

/-- What is read off the events of a thread, is read off the events of all. -/
theorem filterMap_filter_tid {α : Type} {g : SamplerEvent δ → Option α}
    (hg : ∀ e x, g e = some x → e.tid = some tid) (h : List (SamplerEvent δ)) :
    (h.filter fun e => e.tid = some tid).filterMap g = h.filterMap g := by
  induction h with
  | nil => rfl
  | cons e h ih =>
    rw [List.filter_cons, List.filterMap_cons]
    cases he : g e with
    | none =>
      split
      · rw [List.filterMap_cons, he, ih]
      · rw [ih]
    | some x => rw [if_pos (by simpa using hg e x he), List.filterMap_cons, he, ih]

theorem errorWrites_filter (h : List (SamplerEvent δ)) :
    errorWrites tid (h.filter fun e => e.tid = some tid) = errorWrites tid h := by
  apply filterMap_filter_tid
  intro e x he
  cases e <;> simp only [reduceCtorEq, Option.ite_none_right_eq_some] at he
  rw [← he.1]
  rfl

theorem recordWrites_filter (h : List (SamplerEvent δ)) :
    recordWrites tid (h.filter fun e => e.tid = some tid) = recordWrites tid h := by
  apply filterMap_filter_tid
  intro e x he
  cases e <;> simp only [reduceCtorEq, Option.ite_none_right_eq_some] at he
  rw [← he.1]
  rfl

theorem timedOut_filter {h : List (SamplerEvent δ)} :
    TimedOut tid (h.filter fun e => e.tid = some tid) ↔ TimedOut tid h := by
  simp [TimedOut, SamplerEvent.tid, Event.tid]

/-- Events of other kinds write nothing. -/
theorem errorWrites_append_of_forall {h es : List (SamplerEvent δ)}
    (hes : ∀ env dom text, .error tid env dom text ∉ es) :
    errorWrites tid (h ++ es) = errorWrites tid h := by
  rw [errorWrites_append, List.append_right_eq_self, errorWrites, List.filterMap_eq_nil_iff]
  intro e he
  cases e with
  | error j env dom text =>
    apply if_neg
    rintro rfl
    exact hes env dom text he
  | _ => rfl

theorem recordWrites_append_of_forall {h es : List (SamplerEvent δ)}
    (hes : ∀ env dom events data, .response tid env dom events data ∉ es) :
    recordWrites tid (h ++ es) = recordWrites tid h := by
  rw [recordWrites_append, List.append_right_eq_self, recordWrites, List.filterMap_eq_nil_iff]
  intro e he
  cases e with
  | response j env dom events data =>
    apply if_neg
    rintro rfl
    exact hes env dom events data he
  | _ => rfl

theorem TimedOut.append {h : List (SamplerEvent δ)} (H : TimedOut tid h)
    (es : List (SamplerEvent δ)) : TimedOut tid (h ++ es) := by
  obtain ⟨k, collect, req, error, hmem⟩ := H
  exact ⟨k, collect, req, error, List.mem_append_left _ hmem⟩

end Writes

/-! ## What is answered -/

/-- The results of the queries. -/
def answers (inputs : List (TaskInput δ)) : List (Option (List (StatsRecord δ))) :=
  inputs.filterMap fun
    | .answer ret => some ret
    | _ => none

/-- The records that `vminfo_parse` was called on, with what it returned. -/
def parses (inputs : List (TaskInput δ)) : List (StatsRecord δ × ℤ) :=
  inputs.filterMap fun
    | .parsed record code => some (record, code)
    | _ => none

/-! ## The promise -/

/-- One write carries the data of `record`, in a response to `req`. -/
def Reports (req : VmonRequest δ) (record : StatsRecord δ) (w : RecordWrite δ) : Prop :=
  w.dom = record.dom ∧ ∃ ts : UInt64, w.data = some (responseBegin w.env ts req.sr.uuid ++
    vminfoPrintJson (vminfoParse w.env.host vminfoInit record).2 ++ responseFinish)

/-- Each event that writes, does so in the environment of its move. -/
def WrittenInMoves (ctx : VmonContext) (moves : List (SamplerMove δ))
    (h : List (SamplerEvent δ)) : Prop :=
  ∀ e ∈ h, ∀ env ∈ e.env, ∃ m ∈ moves, (samplerSystem δ ctx).Shows m e ∧ m.action.env = some env

/-- The responses of thread `tid` to `req` match the outcome of the query: one error response
where it failed, and otherwise one data response for each record that was parsed. -/
structure ResponsesMatch (ctx : VmonContext) (tid : ℕ) (req : VmonRequest δ)
    (moves : List (SamplerMove δ)) (h : List (SamplerEvent δ)) : Prop where
  written : WrittenInMoves ctx moves h
  asked : ∃ ret, answers (moves.filterMap (taskInput tid)) = [ret]
  failed : answers (moves.filterMap (taskInput tid)) = [none] →
    (∃ (env : Env δ) (code : ℤ),
      errorWrites tid h = [⟨env, req.dom, collectError env req code false⟩]) ∧
    recordWrites tid h = []
  answered : ∀ records, answers (moves.filterMap (taskInput tid)) = [some records] →
    (parses (moves.filterMap (taskInput tid))).map Prod.fst = records ∧
      List.Forall₂ (Reports req)
        (((parses (moves.filterMap (taskInput tid))).filter fun p => p.2 = 0).map Prod.fst)
        (recordWrites tid h)

/-- The query succeeded, and all its records were parsed. -/
def Sampled (inputs : List (TaskInput δ)) : Prop :=
  (∃ records, answers inputs = [some records]) ∧ ∀ p ∈ parses inputs, p.2 = 0

/-! ## The progress of a task -/

/-- The write of `collect_success` for a record, with what `vminfo_parse` returned. -/
def Written (ctx : VmonContext) (req : VmonRequest δ) (p : StatsRecord δ × ℤ)
    (w : RecordWrite δ) : Prop :=
  p.2 = (vminfoParse w.env.host vminfoInit p.1).1 ∧ w.dom = p.1.dom ∧
    ∃ ts : UInt64, (w.events, w.data) = collectRecord ctx w.env ts req p.1

/-- The inputs of a task so far. -/
def taskInputs (ret : Option (List (StatsRecord δ))) (parsed : List (StatsRecord δ × ℤ)) :
    List (TaskInput δ) :=
  .answer ret :: parsed.map fun p => .parsed p.1 p.2

/-- How far thread `tid` is in a task that queries libvirt. -/
inductive Sampling (ctx : VmonContext) (tid : ℕ) (f : SamplerFunction) (req : VmonRequest δ)
    (v : View δ) (inputs : List (TaskInput δ)) (events : List (SamplerEvent δ)) : Prop
  | called (hv : v.Called f req) (hinputs : inputs = []) (herrors : errorWrites tid events = [])
      (hwrites : recordWrites tid events = [])
  | queried {ret : Option (List (StatsRecord δ))}
      (hpc : v.thread.pc ∈ [Pc.worked, .cleared, .deleting, .finished]) (herr : v.thread.err = 0)
      (harg : v.thread.task.arg = req.store ret) (hpending : v.pending = [])
      (hinputs : inputs = taskInputs ret []) (herrors : errorWrites tid events = [])
      (hwrites : recordWrites tid events = [])
  | collecting {ret : Option (List (StatsRecord δ))} {timeout : Bool}
      (hpc : v.thread.pc = .collecting) (hframe : v.frame = .collecting 0 timeout)
      (htimeout : timeout = true → TimedOut tid events)
      (harg : v.thread.task.arg = req.store ret) (hpending : v.pending = [])
      (hinputs : inputs = taskInputs ret []) (herrors : errorWrites tid events = [])
      (hwrites : recordWrites tid events = [])
  | reporting {ret : Option (List (StatsRecord δ))} {ts : UInt64}
      {parsed : List (StatsRecord δ × ℤ)} {records : List (StatsRecord δ)}
      (hpc : v.thread.pc = .collecting) (hframe : v.frame = .reporting ts records)
      (hrecords : ret.getD [] = parsed.map Prod.fst ++ records)
      (harg : v.thread.task.arg = req.store ret) (hpending : v.pending = [])
      (hinputs : inputs = taskInputs ret parsed) (herrors : errorWrites tid events = [])
      (hwrites : List.Forall₂ (Written ctx req) parsed (recordWrites tid events))
  | timedOut (hpc : v.thread.pc = .get) (htimeout : TimedOut tid events)
  | reported {ret : Option (List (StatsRecord δ))} {parsed : List (StatsRecord δ × ℤ)}
      (hpc : v.thread.pc = .get) (hrecords : ret.getD [] = parsed.map Prod.fst)
      (hinputs : inputs = taskInputs ret parsed) (herrors : errorWrites tid events = [])
      (hwrites : List.Forall₂ (Written ctx req) parsed (recordWrites tid events))

section Progress

variable {ctx : VmonContext} {tid : ℕ} {f : SamplerFunction} {req : VmonRequest δ}
  {v v' : View δ} {input : Option (TaskInput δ)} {inputs : List (TaskInput δ)}
  {events es : List (SamplerEvent δ)}

theorem collectRecord_store (env : Env δ) (ts : UInt64) (ret : Option (List (StatsRecord δ)))
    (record : StatsRecord δ) :
    collectRecord ctx env ts (req.store ret) record = collectRecord ctx env ts req record := by
  cases ret <;> rfl

theorem reported_store (req : VmonRequest δ) (ret : Option (List (StatsRecord δ))) :
    (req.store ret).reported = ret.getD [] := by
  cases ret with
  | none => simp [VmonRequest.store, VmonRequest.reported, libvirtError]
  | some records => simp [VmonRequest.store, VmonRequest.reported]

/-- What a step adds to the inputs. -/
theorem taskInputs_append (ret : Option (List (StatsRecord δ)))
    (parsed : List (StatsRecord δ × ℤ)) (record : StatsRecord δ) (code : ℤ) :
    taskInputs ret parsed ++ [.parsed record code] = taskInputs ret (parsed ++ [(record, code)]) := by
  simp [taskInputs]

/-- **One step of a sampling task.** -/
theorem Sampling.step (H : Sampling ctx tid f req v inputs events)
    (hf : f ≠ .listDomainsWork) (hin : v.InTask) (hs : Local ctx tid v input es v') :
    Sampling ctx tid f req v' (inputs ++ input.toList) (events ++ es) := by
  cases H with
  | called hv hinputs herrors hwrites =>
    have hnot : v.thread.task.td.work ≠ .client .listDomainsWork := by
      rw [hv.work]
      exact fun h => hf (by simpa using h)
    cases hs with
    | stay => exact .called hv (by simpa using hinputs) (by simpa) (by simpa)
    | mark =>
      refine .called ⟨hv.pc, hv.frame, hv.work, hv.collect, hv.arg, hv.pending⟩ ?_ ?_ ?_
      · simpa using hinputs
      · simpa
      · simpa
    | @query env g ret hpc hwork hframe hquery =>
      refine @Sampling.queried _ _ _ _ _ _ _ _ ret ?_ rfl ?_ rfl ?_ ?_ ?_
      · simp [View.returned]
      · simp [View.returned, hv.arg]
      · simp [hinputs, taskInputs]
      · rw [errorWrites_append_of_forall (by simp), herrors]
      · rw [recordWrites_append_of_forall (by simp), hwrites]
    | listFails _ hwork => exact absurd hwork hnot
    | list _ hwork => exact absurd hwork hnot
    | refuse _ hwork => exact absurd hwork hnot
    | enter _ hwork => exact absurd hwork hnot
    | put hpending => simp [hv.pending] at hpending
    | listReturn _ hwork => exact absurd hwork hnot
    | statement hpc => simp [hv.pc] at hpc
    | callCollect hpc => simp [hv.pc] at hpc
    | collectFails hpc => simp [hv.pc] at hpc
    | collectStart hpc => simp [hv.pc] at hpc
    | collectRecord hpc => simp [hv.pc] at hpc
    | collectEnd hpc => simp [hv.pc] at hpc
  | @queried ret hpc herr harg hpending hinputs herrors hwrites =>
    have hworking : v.thread.pc ≠ .working := fun h => by simp [h] at hpc
    have hcollecting : v.thread.pc ≠ .collecting := fun h => by simp [h] at hpc
    cases hs with
    | stay => exact .queried hpc herr harg hpending (by simpa using hinputs) (by simpa) (by simpa)
    | mark => exact .queried hpc herr harg hpending (by simpa using hinputs) (by simpa) (by simpa)
    | put h => simp [hpending] at h
    | @statement pc es hnext hes =>
      refine .queried ?_ herr harg hpending (by simpa using hinputs) ?_ ?_
      · simp only [List.mem_cons, Prod.mk.injEq, List.not_mem_nil, or_false] at hnext
        rcases hnext with ⟨-, rfl⟩ | ⟨-, rfl⟩ | ⟨-, rfl⟩ | ⟨-, rfl⟩ <;> simp
      · rw [errorWrites_append_of_forall (by simp), herrors]
      · rw [recordWrites_append_of_forall (by simp), hwrites]
    | callCollect =>
      refine @Sampling.collecting _ _ _ _ _ _ _ _ _ v.thread.task.td.discarded rfl ?_ ?_ harg hpending
        ?_ ?_ ?_
      · rw [herr]
      · intro htimeout
        rw [htimeout]
        exact ⟨_, _, _, _, List.mem_append_right _ (List.mem_singleton_self _)⟩
      · simpa using hinputs
      · rw [errorWrites_append_of_forall (by simp), herrors]
      · rw [recordWrites_append_of_forall (by simp), hwrites]
    | query h => exact absurd h hworking
    | listFails h => exact absurd h hworking
    | list h => exact absurd h hworking
    | refuse h => exact absurd h hworking
    | enter h => exact absurd h hworking
    | listReturn h => exact absurd h hworking
    | collectFails h => exact absurd h hcollecting
    | collectStart h => exact absurd h hcollecting
    | collectRecord h => exact absurd h hcollecting
    | collectEnd h => exact absurd h hcollecting
  | @collecting ret timeout hpc hframe htimeout harg hpending hinputs herrors hwrites =>
    cases hs with
    | stay =>
      exact .collecting hpc hframe (fun h => (htimeout h).append _) harg hpending
        (by simpa using hinputs) (by simpa) (by simpa)
    | mark =>
      exact .collecting hpc hframe (fun h => (htimeout h).append _) harg hpending
        (by simpa using hinputs) (by simpa) (by simpa)
    | put h => simp [hpending] at h
    | @collectFails env error timeout' hpc' hframe' herr =>
      obtain ⟨rfl, rfl⟩ : 0 = error ∧ timeout = timeout' := by simpa [hframe] using hframe'
      refine .timedOut rfl ((htimeout ?_).append _)
      simpa using herr
    | @collectStart ts hpc' hframe' =>
      refine @Sampling.reporting _ _ _ _ _ _ _ _ ret _ [] _ hpc rfl ?_ harg hpending ?_ ?_ ?_
      · rw [harg, reported_store]
        rfl
      · simpa using hinputs
      · rw [errorWrites_append_of_forall (by simp), herrors]
      · rw [recordWrites_append_of_forall (by simp), hwrites]
        exact .nil
    | collectRecord _ h => simp [hframe] at h
    | collectEnd _ h => simp [hframe] at h
    | query h => simp [hpc] at h
    | listFails h => simp [hpc] at h
    | list h => simp [hpc] at h
    | refuse h => simp [hpc] at h
    | enter h => simp [hpc] at h
    | listReturn h => simp [hpc] at h
    | statement h => simp [hpc] at h
    | callCollect h => simp [hpc] at h
  | @reporting ret ts parsed records hpc hframe hrecords harg hpending hinputs herrors hwrites =>
    cases hs with
    | stay =>
      exact .reporting hpc hframe hrecords harg hpending (by simpa using hinputs) (by simpa)
        (by simpa)
    | mark =>
      exact .reporting hpc hframe hrecords harg hpending (by simpa using hinputs) (by simpa)
        (by simpa)
    | put h => simp [hpending] at h
    | @collectRecord env ts' record rest hpc' hframe' =>
      obtain ⟨rfl, rfl⟩ : ts = ts' ∧ records = record :: rest := by simpa [hframe] using hframe'
      refine @Sampling.reporting _ _ _ _ _ _ _ _ ret _
        (parsed ++ [(record, (vminfoParse env.host vminfoInit record).1)]) _ hpc rfl ?_ harg hpending ?_ ?_ ?_
      · simpa using hrecords
      · rw [hinputs, Option.toList_some, taskInputs_append]
      · rw [errorWrites_append_of_forall (by simp), herrors]
      · rw [recordWrites_append]
        refine List.rel_append hwrites ?_
        simp only [recordWrites, List.filterMap_cons, if_true, List.filterMap_nil]
        refine .cons ⟨rfl, rfl, ts, ?_⟩ .nil
        rw [harg, collectRecord_store]
    | @collectEnd ts' hpc' hframe' =>
      obtain ⟨rfl, rfl⟩ : ts = ts' ∧ records = [] := by simpa [hframe] using hframe'
      refine @Sampling.reported _ _ _ _ _ _ _ _ ret parsed rfl ?_ ?_ ?_ ?_
      · simpa using hrecords
      · simpa using hinputs
      · rw [errorWrites_append_of_forall (by simp [Daemon.freeDomain]), herrors]
      · rwa [recordWrites_append_of_forall (by simp [Daemon.freeDomain])]
    | collectFails _ h => simp [hframe] at h
    | collectStart _ h => simp [hframe] at h
    | query h => simp [hpc] at h
    | listFails h => simp [hpc] at h
    | list h => simp [hpc] at h
    | refuse h => simp [hpc] at h
    | enter h => simp [hpc] at h
    | listReturn h => simp [hpc] at h
    | statement h => simp [hpc] at h
    | callCollect h => simp [hpc] at h
  | timedOut hpc htimeout => exact absurd hin.pc (by simp [hpc])
  | reported hpc hrecords hinputs herrors hwrites => exact absurd hin.pc (by simp [hpc])

theorem sampling_of_replay {v₀ : View δ} (hcalled : v₀.Called f req) (hf : f ≠ .listDomainsWork)
    (hr : Replay ctx tid v₀ inputs events v) : Sampling ctx tid f req v inputs events := by
  induction hr with
  | refl => exact .called hcalled rfl rfl rfl
  | snoc _ hin hs ih => exact ih.step hf hin hs

end Progress

/-! ## The responses of a run -/

section Runs

variable {ctx : VmonContext} {workersCount maxTasks tid : ℕ} {f : SamplerFunction}
  {req : VmonRequest δ} {moves : List (SamplerMove δ)} {h : List (SamplerEvent δ)}

@[simp] theorem answers_taskInputs (ret : Option (List (StatsRecord δ)))
    (parsed : List (StatsRecord δ × ℤ)) : answers (taskInputs ret parsed) = [ret] := by
  rw [answers, taskInputs, List.filterMap_cons, List.filterMap_map]
  simp

@[simp] theorem parses_taskInputs (ret : Option (List (StatsRecord δ)))
    (parsed : List (StatsRecord δ × ℤ)) : parses (taskInputs ret parsed) = parsed := by
  rw [parses, taskInputs, List.filterMap_cons, List.filterMap_map]
  exact List.filterMap_some

theorem TaskRun.writtenInMoves (hr : TaskRun ctx workersCount maxTasks tid f req moves h) :
    WrittenInMoves ctx moves h := by
  obtain ⟨-, -, hrun, -, hs, -⟩ := hr
  intro e he env henv
  obtain ⟨m, hm, s', es, hstep, hmem⟩ := (hrun.step hs).exists_shows he
  exact ⟨m, hm, ⟨s', es, hstep, hmem⟩, (Daemon.step_cases hstep).env_eq hmem henv⟩

/-- What a task of a run did, unless it timed out. -/
theorem reported_of_taskRun (hr : TaskRun ctx workersCount maxTasks tid f req moves h)
    (hf : f ≠ .listDomainsWork) (htime : ¬TimedOut tid h) :
    ∃ ret parsed, ret.getD [] = parsed.map Prod.fst ∧
      moves.filterMap (taskInput tid) = taskInputs ret parsed ∧ errorWrites tid h = [] ∧
      List.Forall₂ (Written ctx req) parsed (recordWrites tid h) := by
  obtain ⟨v₀, v, hcalled, hget, hreplay⟩ := hr.replay
  cases sampling_of_replay hcalled hf hreplay with
  | called hv => simp [hv.pc] at hget
  | queried hpc => simp [hget] at hpc
  | collecting hpc => simp [hpc] at hget
  | reporting hpc => simp [hpc] at hget
  | timedOut hpc htimeout => exact absurd (timedOut_filter.mp htimeout) htime
  | @reported ret parsed hpc hrecords hinputs herrors hwrites =>
    rw [errorWrites_filter] at herrors
    rw [recordWrites_filter] at hwrites
    exact ⟨ret, parsed, hrecords, hinputs, herrors, hwrites⟩

theorem Written.reports {p : StatsRecord δ × ℤ} {w : RecordWrite δ}
    (hw : Written ctx req p w) (hconf : ctx.conf.eventsOnly = false) : Reports req p.1 w := by
  obtain ⟨-, hdom, ts, htext⟩ := hw
  refine ⟨hdom, ts, ?_⟩
  rw [show w.data = (collectRecord ctx w.env ts req p.1).2 from congrArg Prod.snd htext]
  simp [collectRecord, hconf]

/-- **The responses of a sampling task match the outcome of its query exactly where the query
succeeded and all its records were parsed.** -/
theorem responses_match_iff (hr : TaskRun ctx workersCount maxTasks tid f req moves h)
    (hf : f = .sampleDomainWork ∨ f = .bulkSamplingWork) (htime : ¬TimedOut tid h)
    (hconf : ctx.conf.eventsOnly = false) :
    ResponsesMatch ctx tid req moves h ↔ Sampled (moves.filterMap (taskInput tid)) := by
  have hnot : f ≠ .listDomainsWork := by rcases hf with rfl | rfl <;> simp
  obtain ⟨ret, parsed, hrecords, hinputs, herrors, hwrites⟩ := reported_of_taskRun hr hnot htime
  have hanswers := answers_taskInputs ret parsed
  have hparses := parses_taskInputs ret parsed
  rw [← hinputs] at hanswers hparses
  constructor
  · intro H
    cases ret with
    | none =>
      -- nothing was written for the failure
      obtain ⟨⟨env, code, herror⟩, -⟩ := H.failed hanswers
      simp [herrors] at herror
    | some records =>
      refine ⟨⟨records, hanswers⟩, ?_⟩
      rw [hparses]
      obtain ⟨-, hreports⟩ := H.answered records hanswers
      rw [hparses] at hreports
      -- a write for every record, so as many as there are records
      have hlength := hreports.length_eq.trans hwrites.length_eq.symm
      rw [List.length_map, List.length_filter_eq_length_iff] at hlength
      simpa using hlength
  · rintro ⟨⟨records, hret⟩, hparsed⟩
    rw [hparses] at hparsed
    obtain rfl : ret = some records := by simpa [hanswers] using hret
    refine ⟨hr.writtenInMoves, ⟨_, hanswers⟩, fun hnone => by simp [hanswers] at hnone, ?_⟩
    intro records' hsome
    obtain rfl : records = records' := by simpa [hanswers] using hsome
    rw [hparses]
    refine ⟨hrecords.symm, ?_⟩
    have hall : (parsed.filter fun p => p.2 = 0) = parsed :=
      List.filter_eq_self.mpr fun p hp => by simpa using hparsed p hp
    rw [hall, List.forall₂_map_left_iff]
    exact hwrites.imp fun p w hw => hw.reports hconf

end Runs

/-! ## One domain -/

/-- An environment with fixed answers. -/
def sampleEnv (domains : Option (List ℕ)) (ret : Option (List (StatsRecord ℕ))) : Env ℕ :=
  { host := { calloc := fun _ _ => true, strdup := fun _ => true, uuidString := fun _ => some [],
              bigEndian := false, string := fun _ => [] }
    conn := { listAllDomains := fun _ => domains, getAllDomainStats := fun _ => ret,
              domainListGetStats := fun _ _ => ret }
    now := 0, uuidUnparse := fun _ => [] }

def sampleContext : VmonContext :=
  { conf := { timeout := 1000, bulkSampling := false, diskUsagePerc := 0, eventsOnly := false }
    flags := 0 }

/-- The request, up to the work function of its task. -/
def requestSteps (env : Env ℕ) : List (SamplerAction ℕ) :=
  [SamplerAction.send (.ofSample ⟨Vector.replicate 16 0, 0⟩), .call 0 env] ++
    List.replicate 3 (SamplerAction.thread 0)

/-- Its listing, and the task of the one domain up to its work function. -/
private def listSteps (env : Env ℕ) : List (SamplerAction ℕ) :=
  requestSteps env ++ [SamplerAction.thread 0] ++
    [SamplerAction.work 0 env, .work 0 env, .call 0 env, .work 0 env] ++
    List.replicate 4 (SamplerAction.thread 0) ++ List.replicate 2 (SamplerAction.collect 0 env) ++
    List.replicate 3 (SamplerAction.thread 0)

/-- The task of the domain, with `n` steps of its collect function before the last. -/
private def sampleSteps (env : Env ℕ) (n : ℕ) : List (SamplerAction ℕ) :=
  [SamplerAction.work 0 env] ++ List.replicate 4 (SamplerAction.thread 0) ++
    List.replicate n (SamplerAction.collect 0 env)

private def sampleTrace (ret : Option (List (StatsRecord ℕ))) (n : ℕ) :=
  taskTrace sampleContext 1 4 0 (listSteps (sampleEnv (some [0]) ret))
    (sampleSteps (sampleEnv (some [0]) ret) n) (.collect 0 (sampleEnv (some [0]) ret))

theorem responses_match_iff_one_record : ∃ (f : SamplerFunction) (req : VmonRequest ℕ)
    (moves : List (SamplerMove ℕ)) (h : List (SamplerEvent ℕ)),
    TaskRun sampleContext 1 4 0 f req moves h ∧
      (ResponsesMatch sampleContext 0 req moves h ↔ Sampled (moves.filterMap (taskInput 0))) ∧
      recordWrites 0 h ≠ [] := by
  obtain ⟨f, req, moves, h, hr, -, hp⟩ := exists_taskRun sampleContext 1 4 0 _ _ _
    (fun f _ _ h => decide (f = .sampleDomainWork) && !decide (TimedOut 0 h) &&
      !(recordWrites 0 h).isEmpty)
    (by decide : (sampleTrace (some [⟨0, []⟩]) 2).any _ = true)
  simp only [Bool.and_eq_true, decide_eq_true_eq, Bool.not_eq_true', decide_eq_false_iff_not,
    List.isEmpty_eq_false_iff] at hp
  exact ⟨f, req, moves, h, hr, responses_match_iff hr (.inl hp.1.1) hp.1.2 rfl, hp.2⟩

/-- A query that fails is answered by nothing. -/
theorem responses_match_fails : ∃ (f : SamplerFunction) (req : VmonRequest ℕ)
    (moves : List (SamplerMove ℕ)) (h : List (SamplerEvent ℕ)),
    TaskRun sampleContext 1 4 0 f req moves h ∧ sampleContext.conf.eventsOnly = false ∧
      f = .sampleDomainWork ∧ ¬TimedOut 0 h ∧ answers (moves.filterMap (taskInput 0)) = [none] ∧
      errorWrites 0 h = [] ∧ ¬ResponsesMatch sampleContext 0 req moves h := by
  obtain ⟨f, req, moves, h, hr, -, hp⟩ := exists_taskRun sampleContext 1 4 0 _ _ _
    (fun f _ moves h => decide (f = .sampleDomainWork) && !decide (TimedOut 0 h) &&
      decide (answers (moves.filterMap (taskInput 0)) = [none]) && decide (errorWrites 0 h = []))
    (by decide : (sampleTrace none 1).any _ = true)
  simp only [Bool.and_eq_true, decide_eq_true_eq, Bool.not_eq_true',
    decide_eq_false_iff_not] at hp
  obtain ⟨⟨⟨hf, htime⟩, hanswers⟩, herrors⟩ := hp
  refine ⟨f, req, moves, h, hr, rfl, hf, htime, hanswers, herrors, ?_⟩
  intro H
  obtain ⟨⟨env, code, herror⟩, -⟩ := H.failed hanswers
  simp [herrors] at herror

end Vmon
