import Vmon.Executor.Codes

/-!
# Starting up

`executor_init` makes three allocations and `executor_start` as many threads as there are workers,
each with one variable for the code of all its steps. In `executor_init` the code of the queue is
overwritten and the array of the workers is not looked at; in `executor_start` the code of each
thread is overwritten by the next, and `running` is set before the first and stays set.

`startup_reports_iff` says when nothing is lost this way, and `slots_apart_iff` for which of the
sizes that a command line may ask for the slots of the queue are where they should be.

## Main definitions

* `InitAllocs`, `RawExecutor`, `executorInitAlloc` — `executor_init` with its allocations.
* `tasksAccepted` — the check of the command line.
* `ReportsFailures` — the promise of the two functions.
-/

namespace Vmon

variable {ι β : Type}

/-! ## The allocations -/

/-- Which of the allocations of `executor_init` succeed: the executor, its queue, its workers. -/
structure InitAllocs where
  exc : Bool
  tasks : Bool
  workers : Bool

/-- What `executor_init` fills in; a pointer is null where its allocation failed. -/
structure RawExecutor (ι β : Type) where
  workersCount : ℕ
  tasks : Option (RingBuffer (TaskData ι β))
  workers : Option (List Worker)

/-- The conversion of an `int` to `WorkerID`, an `unsigned long`. -/
def toWorkerID (n : ℤ) : ℕ := (n % 2 ^ 64).toNat

/-- The return value of `ringbuffer_init`. -/
def ringbufferInitCode {α : Type} (rb : Option (RingBuffer α)) : ℤ := if rb.isSome then 0 else -1

/-- `executor_init`: its return value, and what it leaves in `*exc`. -/
def executorInitAlloc (alloc : InitAllocs) (workersCount maxTasks : ℤ) :
    ℤ × Option (RawExecutor ι β) :=
  let err := -1
  if alloc.exc then
    let tasks := ringbufferInit alloc.tasks maxTasks taskDataSize
    let _err := ringbufferInitCode tasks
    let workers :=
      if alloc.workers then
        some (List.replicate (toWorkerID workersCount)
          { id := 0, thread := none, schedId := 0, current := none })
      else none
    -- overwrites the code of `ringbuffer_init`
    let err := 0
    (err, some { workersCount := toWorkerID workersCount, tasks := tasks, workers := workers })
  else (err, none)

theorem executorInitAlloc_tasks {alloc : InitAllocs} {workersCount maxTasks : ℤ}
    {exc : RawExecutor ι β} {rb : RingBuffer (TaskData ι β)}
    (hexc : (executorInitAlloc alloc workersCount maxTasks).2 = some exc)
    (hrb : exc.tasks = some rb) : ringbufferInit true maxTasks taskDataSize = some rb := by
  unfold executorInitAlloc at hexc
  split at hexc
  · obtain rfl := Option.some.inj hexc
    simp only at hrb
    cases htasks : alloc.tasks with
    | false => simp [ringbufferInit, htasks] at hrb
    | true => rwa [htasks] at hrb
  · cases hexc

/-! ## The slots of the queue -/

/-- The check of `--max-tasks` in `config_parse_cmdline`. -/
def tasksAccepted (tasks : Int32) : Bool := !decide (tasks ≤ 0)

/-- **The slots of the queue are where they should be up to a size of `2 ^ 24`**, for any size that
the command line accepts and the allocation grants. -/
theorem slots_apart_iff {tasks : Int32} {alloc : InitAllocs} {workersCount : ℤ}
    {exc : RawExecutor ι β} {rb : RingBuffer (TaskData ι β)} (hacc : tasksAccepted tasks = true)
    (hexc : (executorInitAlloc alloc workersCount tasks.toInt).2 = some exc)
    (hrb : exc.tasks = some rb) : SlotsApart rb ↔ tasks.toInt ≤ 2 ^ 24 := by
  have hpos : 0 < tasks.toInt := by
    rw [tasksAccepted, Bool.not_eq_true', decide_eq_false_iff_not, Int32.not_le,
      Int32.lt_iff_toInt_lt] at hacc
    simpa using hacc
  have hinit := executorInitAlloc_tasks hexc hrb
  simp only [ringbufferInit, if_true, Option.some.injEq] at hinit
  subst hinit
  rw [slotsApart_iff hpos]
  simp only [SlotsFit, ringbufferClear, taskDataSize]
  omega

/-- A queue of two slots. -/
theorem slots_apart_two : ∃ (exc : RawExecutor Unit (List UInt8))
    (rb : RingBuffer (TaskData Unit (List UInt8))),
    (executorInitAlloc ⟨true, true, true⟩ 1 (2 : Int32).toInt).2 = some exc ∧
      exc.tasks = some rb ∧ (SlotsApart rb ↔ (2 : Int32).toInt ≤ 2 ^ 24) :=
  ⟨_, _, rfl, rfl,
    @slots_apart_iff Unit (List UInt8) 2 ⟨true, true, true⟩ 1 _ _ (by decide) rfl rfl⟩

/-- One slot more than `2 ^ 24`: the last one starts before the element area. -/
theorem slots_apart_fails :
    ¬∀ (tasks : Int32) (alloc : InitAllocs) (workersCount : ℤ) (exc : RawExecutor Unit (List UInt8))
      (rb : RingBuffer (TaskData Unit (List UInt8))), tasksAccepted tasks = true →
      (executorInitAlloc alloc workersCount tasks.toInt).2 = some exc → exc.tasks = some rb →
        SlotsApart rb := by
  intro hall
  have H := hall 16777217 ⟨true, true, true⟩ 1 _ _ (by decide) rfl rfl
  have hlast := (H.inside 16777216 (by decide) (by decide)).1
  revert hlast
  decide

/-! ## Reporting failures -/

variable [Payload β]

/-- Where all three succeed it is `executorInit`. -/
theorem executorInitAlloc_eq {alloc : InitAllocs} (hexc : alloc.exc = true)
    (htasks : alloc.tasks = true) (hworkers : alloc.workers = true) {n : ℕ} (hn : n < 2 ^ 64)
    (maxTasks : ℕ) :
    executorInitAlloc (ι := ι) (β := β) alloc n maxTasks =
      (0, some { workersCount := (Executor.executorInit n maxTasks : Executor ι β).workersCount
                 tasks := some (Executor.executorInit n maxTasks : Executor ι β).tasks
                 workers := some (Executor.executorInit n maxTasks : Executor ι β).workers }) := by
  have hid : toWorkerID n = n := by
    rw [toWorkerID]
    omega
  simp only [executorInitAlloc, hexc, htasks, hworkers, ringbufferInit, if_true, hid]
  rfl

/-- **The promise** for the outcomes of one start-up. -/
structure ReportsFailures (alloc : InitAllocs) (workersCount maxTasks : ℤ) (s : Executor ι β)
    (created : List Bool) : Prop where
  /-- `executor_init` returns `0` only with everything there. -/
  init : (executorInitAlloc (ι := ι) (β := β) alloc workersCount maxTasks).1 = 0 →
    ∃ exc : RawExecutor ι β,
      (executorInitAlloc alloc workersCount maxTasks).2 = some exc ∧
      exc.tasks.isSome = true ∧ exc.workers.isSome = true
  /-- `executor_start` returns `0` only with every thread created. -/
  start : (s.executorStart created).2 = 0 → ∀ c ∈ created, c = true
  /-- Any other value leaves an executor that takes no tasks. -/
  refused : (s.executorStart created).2 ≠ 0 → (s.executorStart created).1.running = false ∧
    ∀ args : DispatchArgs ι β, ((s.executorStart created).1.executorDispatch args).2 ≠ 0

namespace Executor

theorem startLoop_running (s : Executor ι β) (err : ℤ) (j : ℕ) (created : List Bool) :
    (s.startLoop err j created).1.running = s.running := by
  obtain ⟨workers, heq, -⟩ := startLoop_eq s err j created
  rw [heq]

/-- **The code of `executor_start`** is that of the last thread. -/
theorem startLoop_code (s : Executor ι β) (err : ℤ) (j : ℕ) (created : List Bool) :
    (s.startLoop err j created).2 =
      (created.getLast?.map fun c => if c then 0 else eagain).getD err := by
  induction created generalizing s err j with
  | nil => rfl
  | cons c rest ih =>
    have hcode : (s.workerInit j c).2 = if c then 0 else eagain := by cases c <;> rfl
    rw [startLoop, ih, hcode, List.getLast?_cons]
    cases rest.getLast? <;> rfl

theorem executorStart_stopped {s : Executor ι β} (hs : s.running = false) (created : List Bool) :
    (s.executorStart created).1.running = true ∧
      ((s.executorStart created).2 = 0 ↔ created.getLast? ≠ some false) := by
  simp only [executorStart, hs, Bool.false_eq_true, if_false, startLoop_running, startLoop_code,
    true_and]
  cases created.getLast? with
  | none => simp
  | some c => cases c <;> simp [eagain]

end Executor

/-- **Start-up reports every failure exactly when there is none to lose**: with the executor, its
queue and its workers are allocated, and every thread is created. -/
theorem startup_reports_iff (alloc : InitAllocs) (workersCount maxTasks : ℤ) {s : Executor ι β}
    (hs : s.running = false) (created : List Bool) :
    ReportsFailures alloc workersCount maxTasks s created ↔
      (alloc.exc = true → alloc.tasks = true ∧ alloc.workers = true) ∧ ∀ c ∈ created, c = true := by
  obtain ⟨hrunning, hcode⟩ := Executor.executorStart_stopped hs created
  constructor
  · intro H
    constructor
    · intro hexc
      have hinit := H.init
      simp only [executorInitAlloc, hexc, if_true, Option.some.injEq, exists_eq_left',
        forall_const] at hinit
      cases htasks : alloc.tasks <;> cases hworkers : alloc.workers <;>
        simp [ringbufferInit, htasks, hworkers] at hinit ⊢
    · apply H.start
      by_contra hne
      have hstopped := (H.refused hne).1
      rw [hrunning] at hstopped
      cases hstopped
  · rintro ⟨halloc, hall⟩
    have hzero : (s.executorStart created).2 = 0 := by
      rw [hcode]
      intro hlast
      have := hall false (List.mem_of_getLast? hlast)
      cases this
    refine ⟨?_, fun _ => hall, fun hne => absurd hzero hne⟩
    cases hexc : alloc.exc with
    | false => simp [executorInitAlloc, hexc]
    | true =>
      obtain ⟨htasks, hworkers⟩ := halloc hexc
      simp [executorInitAlloc, hexc, ringbufferInit, htasks, hworkers]

/-- Two workers, and the second thread cannot be created. -/
theorem startup_reports_two_workers :
    ReportsFailures ⟨true, true, true⟩ 2 1 (Executor.executorInit 2 1 : Executor Unit (List UInt8))
        [true, false] ↔
      ((true : Bool) = true → (true : Bool) = true ∧ (true : Bool) = true) ∧
        ∀ c ∈ [true, false], c = true :=
  startup_reports_iff ⟨true, true, true⟩ 2 1 rfl [true, false]

/-- The first of two threads cannot be created, and nobody is told. -/
theorem startup_reports_fails :
    ¬∀ (alloc : InitAllocs) (workersCount maxTasks : ℤ) (s : Executor Unit (List UInt8))
      (created : List Bool), s.running = false → created.length = s.workersCount →
        ReportsFailures alloc workersCount maxTasks s created := by
  intro hall
  have H := hall ⟨true, true, true⟩ 2 1 (Executor.executorInit 2 1) [false, true] rfl rfl
  have hcode : ((Executor.executorInit 2 1 : Executor Unit (List UInt8)).executorStart
      [false, true]).2 = 0 := rfl
  exact absurd (H.start hcode false (by simp)) (by decide)

end Vmon
