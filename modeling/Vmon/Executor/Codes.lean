import Vmon.Executor.Accounting

/-!
# What `executor_dispatch` returns

`executor_dispatch` has three reasons to refuse a task and an error code for each, but the
code of a full queue is the one `ringbuffer_put` returns, `-1`, which the executor's own
enumeration gives to an executor that does not run. `EXECUTOR_ERROR_TOO_MANY_TASKS` is
returned nowhere.

The states are those of any run from `executor_init` on, also before the first
`executor_start`.

## Main definitions

* `executorDispatch` — the whole function; `executorDispatch_refuse`,
  `executorDispatch_enter` relate it to the steps of the system.
* `DispatchCodes` — each code for its own cause, and no change on an error.
* `executorDispatch_codes_iff` — when a call keeps that.
-/

namespace Vmon

variable {ι β : Type} [Payload β]

/-! ## Runs from `executor_init` -/

section Init

variable {cap n : ℕ} {h : List (Event ι β)} {s : Executor ι β}
  {ok : Move (Executor ι β) (Action ι β) (Event ι β) → Prop}

theorem Queued.of_init (hfit : SlotsFit cap taskDataSize) :
    Queued cap [] (Executor.executorInit n cap : Executor ι β) :=
  ⟨.empty, RingBuffer.holds_init (by decide) hfit rfl, by simp⟩

theorem queued_of_init (hfit : SlotsFit cap taskDataSize)
    (hr : (executorSystem ι β).Reach ok (Executor.executorInit n cap) h s) : Queued cap h s := by
  apply Lts.Reach.invariant (.of_init hfit) ?_ hr
  intro h s a s' es _ H _ hs
  exact H.step (Executor.step_cases hs)

end Init

/-! ## The function -/

/-- `executor_dispatch`, from its call to its return. -/
def Executor.executorDispatch (s : Executor ι β) (args : DispatchArgs ι β) : Executor ι β × ℤ :=
  match Executor.dispatchCheck s.running args with
  | .error err => (s, err)
  | .ok task =>
    let r := ringbufferPut s.tasks task
    ({ s with tasks := r.1 }, r.2)

/-- What each code of `executor_dispatch` stands for, in a state whose queue takes
`maxTasks` tasks. -/
structure DispatchCodes (maxTasks : ℕ) (s : Executor ι β) (args : DispatchArgs ι β) : Prop where
  tooMuchData : (s.executorDispatch args).2 = executorErrorTooMuchData ↔
    Payload.size args.data > taskDataEmbedMaxSize
  notRunning : Payload.size args.data ≤ taskDataEmbedMaxSize →
    ((s.executorDispatch args).2 = executorErrorNotRunning ↔ s.running = false)
  tooManyTasks : Payload.size args.data ≤ taskDataEmbedMaxSize → s.running = true →
    ((s.executorDispatch args).2 = executorErrorTooManyTasks ↔ s.tasks.heldElems.length = maxTasks)
  appended : Payload.size args.data ≤ taskDataEmbedMaxSize → s.running = true →
    s.tasks.heldElems.length ≠ maxTasks → (s.executorDispatch args).2 = 0 ∧
      (s.executorDispatch args).1.tasks.heldElems =
        s.tasks.heldElems ++ [some (dispatchTask args)]
  unchanged : (s.executorDispatch args).2 ≠ 0 → (s.executorDispatch args).1 = s

namespace Executor

variable {s : Executor ι β} {args : DispatchArgs ι β}

theorem executorDispatch_tooMuchData (hsize : Payload.size args.data > taskDataEmbedMaxSize) :
    s.executorDispatch args = (s, executorErrorTooMuchData) := by
  simp only [executorDispatch, dispatchCheck, if_pos hsize]

theorem executorDispatch_notRunning (hsize : Payload.size args.data ≤ taskDataEmbedMaxSize)
    (hrunning : s.running = false) : s.executorDispatch args = (s, executorErrorNotRunning) := by
  simp [executorDispatch, dispatchCheck, Nat.not_lt.mpr hsize, hrunning]

theorem executorDispatch_put (hsize : Payload.size args.data ≤ taskDataEmbedMaxSize)
    (hrunning : s.running = true) : s.executorDispatch args =
      ({ s with tasks := (ringbufferPut s.tasks (dispatchTask args)).1 },
        (ringbufferPut s.tasks (dispatchTask args)).2) := by
  simp [executorDispatch, dispatchCheck, Nat.not_lt.mpr hsize, hrunning]

/-- A call that its checks refuse is one step of the system. -/
theorem executorDispatch_refuse {caller : Caller} {err : ℤ} (hmay : s.mayDispatch caller = true)
    (hcheck : dispatchCheck s.running args = .error err) :
    (executorSystem ι β).step s (.dispatch caller args) =
      some ((s.executorDispatch args).1, [.dispatched caller args (s.executorDispatch args).2]) := by
  simp [executorSystem, step, executorDispatch, hmay, hcheck]

/-- Any other call is two: the one that enters, and the put. -/
theorem executorDispatch_enter {caller : Caller} {task : TaskData ι β}
    (hmay : s.mayDispatch caller = true) (hcheck : dispatchCheck s.running args = .ok task) :
    ∃ s₁, (executorSystem ι β).step s (.dispatch caller args) = some (s₁, []) ∧
      (executorSystem ι β).step s₁ (.call s.calls.length) =
        some ((s.executorDispatch args).1,
          [.dispatched caller args (s.executorDispatch args).2]) := by
  refine ⟨{ s with calls := s.calls ++ [Call.dispatch caller args] }, ?_, ?_⟩
  · simp [executorSystem, step, hmay, hcheck]
  · obtain ⟨rfl, -, -⟩ := dispatchCheck_ok hcheck
    simp [executorSystem, step, callStep, executorDispatch, hcheck,
      List.eraseIdx_append_of_length_le le_rfl]

end Executor

open Executor

/-- **Every code names its cause unless the queue is full**: a task that the two checks
let through and a full queue refuses comes back with the code of a stopped executor. -/
theorem executorDispatch_codes_iff {n cap : ℕ} (hfit : SlotsFit cap taskDataSize)
    {h : List (Event ι β)} {s : Executor ι β}
    (hr : (executorSystem ι β).Reach (fun _ => True) (executorInit n cap) h s)
    (args : DispatchArgs ι β) :
    DispatchCodes cap s args ↔ Payload.size args.data > taskDataEmbedMaxSize ∨
      s.running = false ∨ rbIsFull s.tasks = false := by
  obtain ⟨q, hq, -⟩ := queued_of_init hfit hr
  have hlength : s.tasks.heldElems.length = q.elems.length := by
    rw [hq.heldElems_eq, List.length_map]
  have hfull := hq.isFull_iff
  by_cases hsize : Payload.size args.data > taskDataEmbedMaxSize
  · have heq := executorDispatch_tooMuchData (s := s) hsize
    refine iff_of_true ⟨?_, ?_, ?_, ?_, ?_⟩ (.inl hsize)
    · simp [heq, hsize]
    · omega
    · omega
    · omega
    · simp [heq]
  · have hle : Payload.size args.data ≤ taskDataEmbedMaxSize := by omega
    by_cases hrunning : s.running = true
    · rcases hq.put_cases (dispatchTask args) with ⟨hcap, hput⟩ | ⟨q', helems, hret, hq'⟩
      · -- the queue is full
        have heq := executorDispatch_put hle hrunning
        rw [hput] at heq
        refine iff_of_false ?_ ?_
        · intro hcodes
          have hwrong := (hcodes.notRunning hle).mp (by rw [heq]; rfl)
          rw [hrunning] at hwrong
          cases hwrong
        · simp [hsize, hrunning, hfull.mpr hcap]
      · have heq := executorDispatch_put hle hrunning
        have hroom : q.elems.length ≠ cap := by
          have hbound := q'.bounded
          rw [helems, List.length_append, List.length_singleton] at hbound
          omega
        rw [hret] at heq
        refine iff_of_true ⟨?_, ?_, ?_, ?_, ?_⟩ (.inr (.inr ?_))
        · simp [heq, hsize, executorErrorTooMuchData]
        · simp [heq, hrunning, executorErrorNotRunning]
        · simp [heq, hlength, hroom, executorErrorTooManyTasks]
        · intro _ _ _
          rw [heq, hq'.heldElems_eq, hq.heldElems_eq, helems]
          simp
        · simp [heq]
        · simpa [hroom] using hfull
    · have hstopped : s.running = false := by simpa using hrunning
      have heq := executorDispatch_notRunning hle hstopped
      refine iff_of_true ⟨?_, ?_, ?_, ?_, ?_⟩ (.inr (.inl hstopped))
      · simp [heq, hsize, executorErrorNotRunning, executorErrorTooMuchData]
      · simp [heq, hstopped]
      · simp [hrunning]
      · simp [hrunning]
      · simp [heq]

/-- One task in a queue of two. -/
theorem executorDispatch_codes_one_task : ∃ s : Executor Unit (List UInt8),
    s.running = true ∧ s.tasks.used = 1 ∧
    (DispatchCodes 2 s ⟨(), (), [1], 0⟩ ↔ Payload.size [(1 : UInt8)] > taskDataEmbedMaxSize ∨
      s.running = false ∨ rbIsFull s.tasks = false) := by
  obtain ⟨h, s, hr, hp⟩ := Lts.exists_reach_of_exec (executorSystem Unit (List UInt8))
    (fun _ => true) (executorInit 1 2) ([Action.start [true]] ++ dispatchSteps [] 0)
    (fun _ s => s.running && s.tasks.used == 1) (by decide)
  simp only [Bool.and_eq_true, beq_iff_eq] at hp
  exact ⟨s, hp.1, hp.2, executorDispatch_codes_iff (by decide : SlotsFit (2 : ℕ) taskDataSize)
    (hr.mono fun _ _ => trivial) _⟩

/-- The second task of a queue of one is refused as if the executor did not run. -/
theorem executorDispatch_codes_fails :
    ¬∀ (n cap : ℕ) (h : List (Event Unit (List UInt8))) (s : Executor Unit (List UInt8)),
      SlotsFit cap taskDataSize →
      (executorSystem Unit (List UInt8)).Reach (fun _ => True) (executorInit n cap) h s →
      ∀ args, DispatchCodes cap s args := by
  intro hall
  obtain ⟨h, s, hr, hp⟩ := Lts.exists_reach_of_exec (executorSystem Unit (List UInt8))
    (fun _ => true) (executorInit 1 1) ([Action.start [true]] ++ dispatchSteps [] 0)
    (fun _ s => s.running && (s.executorDispatch ⟨(), (), [], 0⟩).2 == executorErrorNotRunning)
    (by decide)
  simp only [Bool.and_eq_true, beq_iff_eq] at hp
  have hcodes := hall 1 1 h s (by decide) (hr.mono fun _ _ => trivial) ⟨(), (), [], 0⟩
  have hstopped := (hcodes.notRunning (Nat.zero_le _)).mp hp.2
  rw [hp.1] at hstopped
  cases hstopped

end Vmon
