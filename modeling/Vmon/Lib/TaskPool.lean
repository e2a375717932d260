import Mathlib.Data.Int.Notation
import Vmon.Lib.Transition

/-!
# Task pools

What a pool of workers is for, whatever its workers are: it accepts tasks while it has room,
its workers take them in that order, each no more than one at a time, and a task that was
taken is run once and collected once, with what its run returned and left in the data.

The tasks that were taken are kept, so that a state says what became of each of them.

## Main definitions

* `PoolTask`, `Stage`, `Job`, `TaskPool` — the states.
* `PoolAction`, `PoolEvent`, `poolSystem` — the system.
* `Job.events` — what the history shows of a task.
* `TaskPool.Laws` — the laws of a pool; `TaskPool.laws_of_reach` proves them of every run.
-/

namespace Vmon

universe u v w

/-- What to run, what to tell afterwards, and the data that both get. -/
structure PoolTask (ω : Type u) (κ : Type v) (β : Type w) where
  work : ω
  collect : κ
  data : β
  deriving DecidableEq

/-- Where a task is that was taken. -/
inductive Stage (β : Type w)
  | taken
  | working
  | worked (ret : ℤ) (data : β)
  | collecting (ret : ℤ) (data : β) (timeout : Bool)
  | done (ret : ℤ) (data : β) (timeout : Bool) (err : ℤ)

/-- The worker is back for the next task: where a collect function reports an error, it is
not. -/
def Stage.isOver {β : Type w} : Stage β → Bool
  | .done _ _ _ err => err == 0
  | _ => false

/-- A task that was taken. -/
structure Job (ω : Type u) (κ : Type v) (β : Type w) where
  owner : ℕ
  task : PoolTask ω κ β
  stage : Stage β

/-- The tasks that wait, and those that were taken, both in the order of their acceptance. -/
structure TaskPool (ω : Type u) (κ : Type v) (β : Type w) where
  queue : List (PoolTask ω κ β)
  jobs : List (Job ω κ β)

/-- What the steps make visible. The number of a job is its place among all of them. -/
inductive PoolEvent (ω : Type u) (κ : Type v) (β : Type w)
  | accepted (task : PoolTask ω κ β)
  | taken (owner k : ℕ) (task : PoolTask ω κ β)
  | workCalled (owner k : ℕ) (work : ω) (data : β)
  | workReturned (owner k : ℕ) (ret : ℤ) (data : β)
  | collectCalled (owner k : ℕ) (collect : κ) (data : β) (ret : ℤ) (timeout : Bool)
  | collectReturned (owner k : ℕ) (err : ℤ)

inductive PoolAction (ω : Type u) (κ : Type v) (β : Type w)
  | accept (task : PoolTask ω κ β)
  | take (owner : ℕ)
  | work (k : ℕ)
  | workReturn (k : ℕ) (ret : ℤ) (data : β)
  | collect (k : ℕ) (timeout : Bool)
  | collectReturn (k : ℕ) (err : ℤ)

variable {ω : Type u} {κ : Type v} {β : Type w}

namespace TaskPool

def empty : TaskPool ω κ β := ⟨[], []⟩

/-- Worker `owner` has no task. -/
def idle (p : TaskPool ω κ β) (owner : ℕ) : Bool :=
  p.jobs.all fun j => j.owner != owner || j.stage.isOver

def advance (p : TaskPool ω κ β) (k : ℕ) (stage : Stage β) : TaskPool ω κ β :=
  { p with jobs := p.jobs.modify k fun j => { j with stage := stage } }

def step (cap : ℕ) (p : TaskPool ω κ β) :
    PoolAction ω κ β → Option (TaskPool ω κ β × List (PoolEvent ω κ β))
  | .accept task =>
    if p.queue.length < cap then some ({ p with queue := p.queue ++ [task] }, [.accepted task])
    else none
  | .take owner =>
    match p.queue with
    | [] => none
    | task :: queue =>
      if p.idle owner then
        some (⟨queue, p.jobs ++ [⟨owner, task, .taken⟩]⟩, [.taken owner p.jobs.length task])
      else none
  | .work k =>
    match p.jobs[k]? with
    | some ⟨owner, task, .taken⟩ =>
      some (p.advance k .working, [.workCalled owner k task.work task.data])
    | _ => none
  | .workReturn k ret data =>
    match p.jobs[k]? with
    | some ⟨owner, _, .working⟩ =>
      some (p.advance k (.worked ret data), [.workReturned owner k ret data])
    | _ => none
  | .collect k timeout =>
    match p.jobs[k]? with
    | some ⟨owner, task, .worked ret data⟩ =>
      some (p.advance k (.collecting ret data timeout),
        [.collectCalled owner k task.collect data ret timeout])
    | _ => none
  | .collectReturn k err =>
    match p.jobs[k]? with
    | some ⟨owner, _, .collecting ret data timeout⟩ =>
      some (p.advance k (.done ret data timeout err), [.collectReturned owner k err])
    | _ => none

end TaskPool

/-- The pool whose queue has room for `cap` tasks. -/
def poolSystem (ω : Type u) (κ : Type v) (β : Type w) (cap : ℕ) :
    Lts (TaskPool ω κ β) (PoolAction ω κ β) (PoolEvent ω κ β) :=
  ⟨TaskPool.step cap⟩

/-! ## The laws -/

namespace PoolEvent

/-- The job that the event belongs to. -/
def job : PoolEvent ω κ β → Option ℕ
  | .accepted _ => none
  | .taken _ k _ | .workCalled _ k _ _ | .workReturned _ k _ _ | .collectCalled _ k _ _ _ _
  | .collectReturned _ k _ => some k

def acceptedTask : PoolEvent ω κ β → Option (PoolTask ω κ β)
  | .accepted task => some task
  | _ => none

end PoolEvent

/-- The call of the work function of job `k`, and all before it. -/
def Job.called (k : ℕ) (j : Job ω κ β) : List (PoolEvent ω κ β) :=
  [.taken j.owner k j.task, .workCalled j.owner k j.task.work j.task.data]

/-- The call of its collect function, and all before it. -/
def Job.collected (k : ℕ) (j : Job ω κ β) (ret : ℤ) (data : β) (timeout : Bool) :
    List (PoolEvent ω κ β) :=
  j.called k ++ [PoolEvent.workReturned j.owner k ret data,
    .collectCalled j.owner k j.task.collect data ret timeout]

/-- The events of job `k`. -/
def Job.events (k : ℕ) (j : Job ω κ β) : List (PoolEvent ω κ β) :=
  match j.stage with
  | .taken => [.taken j.owner k j.task]
  | .working => j.called k
  | .worked ret data => j.called k ++ [PoolEvent.workReturned j.owner k ret data]
  | .collecting ret data timeout => j.collected k ret data timeout
  | .done ret data timeout err =>
    j.collected k ret data timeout ++ [PoolEvent.collectReturned j.owner k err]

/-- The part of a history that belongs to job `k`. -/
def jobEvents (h : List (PoolEvent ω κ β)) (k : ℕ) : List (PoolEvent ω κ β) :=
  h.filter fun e => e.job == some k

theorem jobEvents_snoc (h : List (PoolEvent ω κ β)) (e : PoolEvent ω κ β) (k : ℕ) :
    jobEvents (h ++ [e]) k = jobEvents h k ++ if e.job = some k then [e] else [] := by
  by_cases hk : e.job = some k <;> simp [jobEvents, List.filter_append, hk]

namespace TaskPool

/-- What holds of a pool after the history `h`. -/
structure Laws (cap : ℕ) (h : List (PoolEvent ω κ β)) (p : TaskPool ω κ β) : Prop where
  /-- What was accepted was taken in that order, or waits. -/
  fifo : h.filterMap PoolEvent.acceptedTask = p.jobs.map Job.task ++ p.queue
  bounded : p.queue.length ≤ cap
  /-- The history of a task is one pass, as far as its job says. -/
  passes : ∀ k, jobEvents h k = ((p.jobs[k]?).map (Job.events k)).getD []
  /-- No worker has two tasks. -/
  one_job : ∀ (k k' : ℕ) (j j' : Job ω κ β), p.jobs[k]? = some j → p.jobs[k']? = some j' →
    j.owner = j'.owner → j.stage.isOver = false → j'.stage.isOver = false → k = k'

namespace Laws

variable {cap k : ℕ} {h : List (PoolEvent ω κ β)} {p p' : TaskPool ω κ β} {j : Job ω κ β}

/-- A job goes on, and the event says so. -/
theorem advance (H : Laws cap h p) (hj : p.jobs[k]? = some j) (hbusy : j.stage.isOver = false)
    {stage : Stage β} {e : PoolEvent ω κ β} (hjob : e.job = some k) (hacc : e.acceptedTask = none)
    (hevents : ({ j with stage := stage } : Job ω κ β).events k = j.events k ++ [e]) :
    Laws cap (h ++ [e]) (p.advance k stage) where
  fifo := by
    have hmap : (p.jobs.modify k fun j => { j with stage := stage }).map Job.task =
        p.jobs.map Job.task := by
      apply List.ext_getElem? fun i => ?_
      rw [List.getElem?_map, List.getElem?_map, List.getElem?_modify]
      split <;> cases p.jobs[i]? <;> rfl
    simp only [List.filterMap_append, H.fifo, TaskPool.advance, hmap]
    simp [hacc]
  bounded := H.bounded
  passes i := by
    rw [jobEvents_snoc, H.passes, hjob]
    simp only [TaskPool.advance, List.getElem?_modify]
    by_cases hi : k = i
    · subst hi
      simp [hj, hevents]
    · simp [hi]
  one_job := by
    -- the job that moved had its worker to itself
    have hback : ∀ (i : ℕ) (j' : Job ω κ β), (p.advance k stage).jobs[i]? = some j' →
        j'.stage.isOver = false →
        ∃ j₀, p.jobs[i]? = some j₀ ∧ j₀.owner = j'.owner ∧ j₀.stage.isOver = false := by
      intro i j' hj' hbusy'
      simp only [TaskPool.advance, List.getElem?_modify] at hj'
      by_cases hi : k = i
      · subst hi
        simp only [hj, if_true, Option.map_eq_map, Option.map_some, Option.some.injEq] at hj'
        exact ⟨j, hj, by rw [← hj'], hbusy⟩
      · simp only [if_neg hi, Option.map_eq_map, Option.map_id'] at hj'
        exact ⟨j', by simpa using hj', rfl, hbusy'⟩
    intro i i' j₁ j₂ h₁ h₂ howner hbusy₁ hbusy₂
    obtain ⟨j₁', h₁', hown₁, hb₁⟩ := hback i j₁ h₁ hbusy₁
    obtain ⟨j₂', h₂', hown₂, hb₂⟩ := hback i' j₂ h₂ hbusy₂
    exact H.one_job i i' j₁' j₂' h₁' h₂' (by rw [hown₁, hown₂, howner]) hb₁ hb₂

/-- The pool accepts a task. -/
theorem accept (H : Laws cap h p) (task : PoolTask ω κ β) (hroom : p.queue.length < cap) :
    Laws cap (h ++ [.accepted task]) { p with queue := p.queue ++ [task] } where
  fifo := by simp [H.fifo, PoolEvent.acceptedTask]
  bounded := by
    rw [List.length_append]
    exact hroom
  passes k := by simp [jobEvents_snoc, H.passes, PoolEvent.job]
  one_job := H.one_job

/-- An idle worker takes the first task that waits. -/
theorem take (H : Laws cap h p) {owner : ℕ} {task : PoolTask ω κ β}
    {queue : List (PoolTask ω κ β)} (hqueue : p.queue = task :: queue)
    (hidle : p.idle owner = true) :
    Laws cap (h ++ [.taken owner p.jobs.length task])
      ⟨queue, p.jobs ++ [⟨owner, task, .taken⟩]⟩ where
  fifo := by simp [H.fifo, hqueue, PoolEvent.acceptedTask]
  bounded := by
    have hcap := H.bounded
    rw [hqueue] at hcap
    exact Nat.le_of_succ_le hcap
  passes k := by
    rw [jobEvents_snoc, H.passes]
    rcases Nat.lt_trichotomy k p.jobs.length with hk | rfl | hk
    · simp [PoolEvent.job, List.getElem?_append_left hk, Nat.ne_of_gt hk]
    · simp [PoolEvent.job, Job.events]
    · have hnone : (p.jobs ++ [⟨owner, task, .taken⟩])[k]? = none :=
        List.getElem?_eq_none (by simpa using Nat.succ_le_of_lt hk)
      simp [PoolEvent.job, Nat.ne_of_lt hk, hnone, List.getElem?_eq_none (Nat.le_of_lt hk)]
  one_job := by
    -- every other job of the owner is over
    have hover : ∀ (k : ℕ) (j : Job ω κ β), p.jobs[k]? = some j → j.owner = owner →
        j.stage.isOver = true := by
      intro k j hj howner
      have hall := List.all_eq_true.mp hidle j (List.mem_of_getElem? hj)
      simpa [howner] using hall
    have hsplit : ∀ (k : ℕ) (j : Job ω κ β),
        (p.jobs ++ [(⟨owner, task, .taken⟩ : Job ω κ β)])[k]? = some j →
        p.jobs[k]? = some j ∨ (k = p.jobs.length ∧ j = ⟨owner, task, .taken⟩) := by
      intro k j hj
      rw [List.getElem?_append] at hj
      split at hj
      · exact .inl hj
      · simp only [List.getElem?_singleton, Option.ite_none_right_eq_some, Option.some.injEq] at hj
        exact .inr ⟨by omega, hj.2.symm⟩
    intro k k' j j' hj hj' howner hbusy hbusy'
    rcases hsplit k j hj with hold | ⟨rfl, rfl⟩ <;>
      rcases hsplit k' j' hj' with hold' | ⟨rfl, rfl⟩
    · exact H.one_job k k' j j' hold hold' howner hbusy hbusy'
    · rw [hover k j hold howner] at hbusy
      cases hbusy
    · rw [hover k' j' hold' howner.symm] at hbusy'
      cases hbusy'
    · rfl

theorem step (H : Laws cap h p) {a : PoolAction ω κ β} {es : List (PoolEvent ω κ β)}
    (hs : p.step cap a = some (p', es)) : Laws cap (h ++ es) p' := by
  cases a with
  | accept task =>
    simp only [TaskPool.step, Option.ite_none_right_eq_some, Option.some.injEq,
      Prod.mk.injEq] at hs
    obtain ⟨hroom, rfl, rfl⟩ := hs
    exact H.accept task hroom
  | take owner =>
    simp only [TaskPool.step] at hs
    split at hs
    · cases hs
    · simp only [Option.ite_none_right_eq_some, Option.some.injEq, Prod.mk.injEq] at hs
      obtain ⟨hidle, rfl, rfl⟩ := hs
      exact H.take ‹_› hidle
  | work k =>
    simp only [TaskPool.step] at hs
    split at hs <;> simp only [Option.some.injEq, Prod.mk.injEq, reduceCtorEq] at hs
    rename_i hj
    obtain ⟨rfl, rfl⟩ := hs
    exact H.advance hj rfl rfl rfl rfl
  | workReturn k ret data =>
    simp only [TaskPool.step] at hs
    split at hs <;> simp only [Option.some.injEq, Prod.mk.injEq, reduceCtorEq] at hs
    rename_i hj
    obtain ⟨rfl, rfl⟩ := hs
    exact H.advance hj rfl rfl rfl rfl
  | collect k timeout =>
    simp only [TaskPool.step] at hs
    split at hs <;> simp only [Option.some.injEq, Prod.mk.injEq, reduceCtorEq] at hs
    rename_i hj
    obtain ⟨rfl, rfl⟩ := hs
    exact H.advance hj rfl rfl rfl rfl
  | collectReturn k err =>
    simp only [TaskPool.step] at hs
    split at hs <;> simp only [Option.some.injEq, Prod.mk.injEq, reduceCtorEq] at hs
    rename_i hj
    obtain ⟨rfl, rfl⟩ := hs
    exact H.advance hj rfl rfl rfl rfl

end Laws

/-- **The laws hold of every run of the pool.** -/
theorem laws_of_reach {cap : ℕ} {h : List (PoolEvent ω κ β)} {p : TaskPool ω κ β}
    (hr : (poolSystem ω κ β cap).Reach (fun _ => True) .empty h p) : p.Laws cap h := by
  refine Lts.Reach.invariant (P := fun h p => Laws cap h p) ?_ ?_ hr
  · exact ⟨rfl, Nat.zero_le _, fun k => by simp [jobEvents, empty], by simp [empty]⟩
  · exact fun _ _ _ _ _ _ H _ hs => H.step hs

end TaskPool

end Vmon
