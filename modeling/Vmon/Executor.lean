import Vmon.Lib.Transition
import Vmon.RingBuffer

/-!
# The task executor

`lib/executor.c`: a fixed array of `Worker` slots, a thread in each, one ring
buffer of tasks, and a timer per task that asks for a replacement thread when the
task takes too long. The scheduler is the non-standalone one, whose timeout
sources live in the default context (`lib/scheduler.c`).

A step is one statement of `worker_execute`, one locked section of the ring
buffer, one whole run of a timer callback, or one step of a call into the executor.
What the task functions return and when timers fire is left to the label.

The data a task carries is an object of an arbitrary type, copied whole by
`memcpy` and handed to the task functions by address, so that they may change it.
A thread that copies a task out of bytes that hold none has no defined behaviour
from then on, and takes no further step here.

## Main definitions

* `TaskData`, `Worker`, `Executor` — the structs of the source.
* `Thread`, `Pc` — a worker thread inside `worker_execute`.
* `executorInit`, `executorStart`, `workerInit`, `executorReplace`,
  `workerDiscard`, `threadStep`, `dispatchCheck`, `callStep` — the functions.
* `Action`, `Event`, `executorSystem` — the system.
-/

namespace Vmon

/-- Objects that `executor_dispatch` embeds in a task. -/
class Payload (β : Type) where
  /-- The number of bytes of the object. -/
  size : β → ℕ
  /-- The object whose bytes are all zero. -/
  zero : β

/-- Plain bytes. -/
instance : Payload (List UInt8) := ⟨List.length, []⟩

/-- A value of type `TaskFunction`: the functions of the executor itself, or one
that a client passes. -/
inductive TaskFunction (ι : Type)
  | null
  | stopWorker
  | client (f : ι)
  deriving DecidableEq

/-- A value of type `TaskCollect`. -/
inductive TaskCollect (ι : Type)
  | null
  | stopCollect
  | client (f : ι)
  deriving DecidableEq

structure TaskBaseData (ι : Type) where
  work : TaskFunction ι
  collect : TaskCollect ι
  timeout : ℤ
  discarded : Bool
  deriving DecidableEq

structure TaskUserData (β : Type) where
  xdata : Option β
  size : ℕ
  deriving DecidableEq

structure TaskData (ι β : Type) where
  td : TaskBaseData ι
  ud : TaskUserData β
  data : β
  deriving DecidableEq

/-- `TASK_DATA_SIZE`, which is also `sizeof(TaskData)`. -/
def taskDataSize : ℕ := 128

/-- `TASK_DATA_EMBED_MAX_SIZE`: what the two headers of a task leave. -/
def taskDataEmbedMaxSize : ℕ := taskDataSize - 24 - 16

def executorErrorNotRunning : ℤ := -1
def executorErrorAlreadyStarted : ℤ := -2
def executorErrorTooManyTasks : ℤ := -3
def executorErrorTooMuchData : ℤ := -4

variable {ι β : Type}

namespace TaskData

/-- `memset` to zero. -/
def zero [Payload β] : TaskData ι β :=
  { td := { work := .null, collect := .null, timeout := 0, discarded := false },
    ud := { xdata := none, size := 0 }, data := Payload.zero }

/-- What `data` points at in `worker_execute`. -/
def arg (t : TaskData ι β) : β := t.ud.xdata.getD t.data

/-- The task after a task function wrote through `data`. -/
def setArg (t : TaskData ι β) (d : β) : TaskData ι β :=
  match t.ud.xdata with
  | some _ => { t with ud := { t.ud with xdata := some d } }
  | none => { t with data := d }

def setDiscarded (t : TaskData ι β) : TaskData ι β := { t with td := { t.td with discarded := true } }

end TaskData

/-- The arguments of `executor_dispatch`; `size` is that of the data. -/
structure DispatchArgs (ι β : Type) where
  work : ι
  collect : ι
  data : β
  timeout : ℤ

/-- The task that `executor_stop_worker` puts. -/
def stopTask [Payload β] : TaskData ι β :=
  { (TaskData.zero : TaskData ι β) with
    td := { work := .stopWorker, collect := .stopCollect, timeout := 0, discarded := false } }

/-- The task that `executor_dispatch` puts. -/
def dispatchTask [Payload β] (args : DispatchArgs ι β) : TaskData ι β :=
  { td := { work := .client args.work, collect := .client args.collect,
            timeout := args.timeout, discarded := false },
    ud := { xdata := none, size := Payload.size args.data }, data := args.data }

/-- Where a worker thread is: the next statement of `worker_execute` it runs, or
the function it is inside. -/
inductive Pc
  /-- About to enter `ringbuffer_get`. -/
  | get
  /-- In `pthread_cond_wait`. -/
  | waiting
  /-- Holds a task; next is the test of `task.td.timeout`. -/
  | got
  /-- Next is `wo->current = &task`. -/
  | armed
  /-- Next is the call of `task.td.work`. -/
  | ready
  /-- Inside `task.td.work`. -/
  | working
  /-- Next is `wo->current = NULL`. -/
  | worked
  /-- Next is the test of `timeout && !task.td.discarded`. -/
  | cleared
  /-- Next is `scheduler_del`. -/
  | deleting
  /-- Next is the call of `task.td.collect`. -/
  | finished
  /-- Inside `task.td.collect`. -/
  | collecting
  /-- Returned from `worker_run`. -/
  | exited
  /-- Copied bytes that are no task. -/
  | undefined
  deriving DecidableEq

/-- A worker thread: its argument `wo`, as an index into the workers, and the
locals of `worker_execute`. The ticket is not in the source: it is the number of
the `ringbuffer_get` that filled `task`. -/
structure Thread (ι β : Type) where
  wo : ℕ
  pc : Pc
  task : TaskData ι β
  err : ℤ
  ticket : ℕ

/-- A thread that `pthread_create` just started on slot `wo`. -/
def Thread.spawn [Payload β] (wo : ℕ) : Thread ι β :=
  { wo := wo, pc := .get, task := .zero, err := 0, ticket := 0 }

/-- The thread with its task marked as discarded. -/
def Thread.mark (t : Thread ι β) : Thread ι β := { t with task := t.task.setDiscarded }

/-- `struct Worker`. `current` is the address of the `task` of some thread. -/
structure Worker where
  id : ℕ
  thread : Option ℕ
  schedId : ℕ
  current : Option ℕ

/-- A pending timeout source with callback `worker_discard`. The ticket of the task
it was armed for is not in the source. -/
structure Timer where
  id : ℕ
  wo : ℕ
  delay : ℤ
  ticket : ℕ

/-- Who calls `executor_dispatch`: the work function of a worker thread, or any
other thread. -/
inductive Caller
  | client
  | worker (tid : ℕ)
  deriving DecidableEq

/-- Where a call of `worker_join` is. -/
inductive JoinPhase
  /-- Next is the test of `wait && wo->current`. -/
  | testing
  /-- Next is the call of `pthread_join`, with `wo->thread`. -/
  | passing
  /-- Inside `pthread_join`, for thread `tid`. -/
  | blocked (tid : ℕ)

/-- Where a call of `executor_stop` is. -/
inductive StopPhase
  /-- The loop that puts stop tasks, at `j`. -/
  | putting (j : ℕ)
  /-- The loop that joins the workers, inside `worker_join` for slot `j`, with `err` so far. -/
  | joining (j : ℕ) (err : ℤ) (phase : JoinPhase)
  /-- Next is `exc->running = 0`. -/
  | clearing (err : ℤ)

/-- A call into the executor that has not returned. -/
inductive Call (ι β : Type)
  /-- `executor_dispatch`, about to put its task. -/
  | dispatch (caller : Caller) (args : DispatchArgs ι β)
  | stop (wait : Bool) (phase : StopPhase)

/-- `struct Executor`, the threads it started, the pending sources of the default
context, and the calls in flight. `taken` is not in the source: it counts the
tasks that `ringbuffer_get` handed out. -/
structure Executor (ι β : Type) where
  workersCount : ℕ
  workers : List Worker
  tasks : RingBuffer (TaskData ι β)
  running : Bool
  threads : List (Thread ι β)
  timers : List Timer
  nextId : ℕ
  calls : List (Call ι β)
  taken : ℕ

/-- What the steps make visible. -/
inductive Event (ι β : Type)
  | dispatched (caller : Caller) (args : DispatchArgs ι β) (ret : ℤ)
  | stopPut (ret : ℤ)
  | stopReturned (err : ℤ)
  | startReturned (err : ℤ)
  | taken (tid ticket : ℕ) (task : TaskData ι β)
  | armed (tid ticket id : ℕ)
  | workCalled (tid ticket : ℕ) (work : TaskFunction ι) (data : β)
  | workReturned (tid ticket : ℕ) (ret : ℤ) (data : β)
  | deleted (tid ticket id : ℕ)
  | collectCalled (tid ticket : ℕ) (collect : TaskCollect ι) (data : β) (error : ℤ)
      (timeout : Bool)
  | collectReturned (tid ticket : ℕ) (ret : ℤ)
  /-- The timer armed for `ticket` ran `worker_discard`: the task it marked as
  discarded, if any, and the thread it started, if any. -/
  | fired (ticket : ℕ) (marked : Option ℕ) (replacement : Option ℕ)

namespace Executor

def setThread (s : Executor ι β) (tid : ℕ) (t : Thread ι β) : Executor ι β :=
  { s with threads := s.threads.set tid t }

def setWorker (s : Executor ι β) (w : ℕ) (f : Worker → Worker) : Executor ι β :=
  { s with workers := s.workers.modify w f }

/-! ## Starting and replacing workers -/

/-- The error `pthread_create` returns when it has no resources. -/
def eagain : ℤ := 11

/-- `created` tells whether `pthread_create` succeeds. -/
def workerInit [Payload β] (s : Executor ι β) (w : ℕ) (created : Bool) : Executor ι β × ℤ :=
  if created then
    ({ s with
        workers := s.workers.modify w fun _ =>
          { id := w, thread := some s.threads.length, schedId := 0, current := none }
        threads := s.threads ++ [Thread.spawn w] }, 0)
  else
    ({ s with
        workers := s.workers.modify w fun _ =>
          { id := w, thread := none, schedId := 0, current := none } }, eagain)

def executorReplace [Payload β] (s : Executor ι β) (workerId : ℕ) (created : Bool) :
    Executor ι β × ℤ :=
  if workerId < s.workersCount then s.workerInit workerId created else (s, -1)

/-- Allocations succeed. -/
def executorInit [Payload β] (workersCount maxTasks : ℕ) : Executor ι β :=
  { workersCount := workersCount
    workers := List.replicate workersCount { id := 0, thread := none, schedId := 0, current := none }
    tasks := ringbufferClear
      { waiters := 0, size := maxTasks, used := 0, start := 0, end_ := 0,
        elems := fun _ => none, elemSize := taskDataSize }
    running := false, threads := [], timers := [], nextId := 1, calls := [], taken := 0 }

/-- The loop of `executor_start` over the workers from `j` on. -/
def startLoop [Payload β] (s : Executor ι β) (err : ℤ) (j : ℕ) : List Bool → Executor ι β × ℤ
  | [] => (s, err)
  | created :: rest =>
    let r := s.workerInit j created
    startLoop r.1 r.2 (j + 1) rest

/-- `created` tells, worker by worker, whether `pthread_create` succeeds. -/
def executorStart [Payload β] (s : Executor ι β) (created : List Bool) : Executor ι β × ℤ :=
  if s.running then (s, executorErrorAlreadyStarted)
  else startLoop { s with running := true } 0 0 created

/-- A started executor: every thread was created, and none has run yet. -/
def started [Payload β] (workersCount maxTasks : ℕ) : Executor ι β :=
  ((executorInit workersCount maxTasks).executorStart (List.replicate workersCount true)).1

/-! ## Timers -/

/-- `scheduler_add`: the id of the new source is the next of the default context. -/
def schedulerAdd (s : Executor ι β) (wo : ℕ) (delay : ℤ) (ticket : ℕ) : Executor ι β × ℕ :=
  ({ s with
      timers := s.timers ++ [{ id := s.nextId, wo := wo, delay := delay, ticket := ticket }]
      nextId := s.nextId + 1 }, s.nextId)

/-- `scheduler_del` removes the source with the id, and no other. -/
def schedulerDel (s : Executor ι β) (id : ℕ) : Executor ι β :=
  { s with timers := s.timers.filter fun tm => tm.id != id }

/-- `wo->current->td.discarded = 1`. -/
def markDiscarded (s : Executor ι β) (tid : ℕ) : Executor ι β :=
  { s with threads := s.threads.modify tid Thread.mark }

/-- `worker_discard`, with the ticket of the task it marked and the value of
`executor_replace`, which it ignores. -/
def workerDiscard [Payload β] (s : Executor ι β) (w : Worker) (created : Bool) :
    Executor ι β × Option ℕ × ℤ :=
  match w.current with
  | some tid =>
    let r := (s.markDiscarded tid).executorReplace w.id created
    (r.1, (s.threads[tid]?).map Thread.ticket, r.2)
  | none =>
    let r := s.executorReplace w.id created
    (r.1, none, r.2)

/-! ## Worker threads -/

/-- The locked section of `ringbuffer_get` that a thread runs next. -/
def getSection (pc : Pc) (rb : RingBuffer (TaskData ι β)) :
    RingBuffer (TaskData ι β) × GetOutcome (TaskData ι β) :=
  if pc = .get then ringbufferGet rb else ringbufferGetWoken rb

/-- The thread after a locked section of `ringbuffer_get` into a cleared `task`. -/
def afterGet [Payload β] (s : Executor ι β) (tid : ℕ) (t : Thread ι β)
    (r : RingBuffer (TaskData ι β) × GetOutcome (TaskData ι β)) :
    Executor ι β × List (Event ι β) :=
  let t := { t with task := TaskData.zero, err := 0 }
  let s := { s with tasks := r.1 }
  match r.2 with
  | .wait => (s.setThread tid { t with pc := .waiting }, [])
  | .done (some task) =>
    ({ s with taken := s.taken + 1 }.setThread tid
      { t with pc := .got, task := task, ticket := s.taken }, [.taken tid s.taken task])
  | .done none => (s.setThread tid { t with pc := .undefined }, [])

/-- One statement of `worker_execute`, for a thread that is not inside a task function. -/
def threadStep [Payload β] (s : Executor ι β) (tid : ℕ) (t : Thread ι β) :
    Option (Executor ι β × List (Event ι β)) :=
  match t.pc with
  | .get | .waiting => some (s.afterGet tid t (getSection t.pc s.tasks))
  | .got =>
    if t.task.td.timeout ≠ 0 then
      let r := s.schedulerAdd t.wo t.task.td.timeout t.ticket
      some ((r.1.setWorker t.wo fun w => { w with schedId := r.2 }).setThread tid
        { t with pc := .armed }, [.armed tid t.ticket r.2])
    else some (s.setThread tid { t with pc := .armed }, [])
  | .armed =>
    some ((s.setWorker t.wo fun w => { w with current := some tid }).setThread tid
      { t with pc := .ready }, [])
  | .ready =>
    some (s.setThread tid { t with pc := .working },
      [.workCalled tid t.ticket t.task.td.work t.task.arg])
  | .worked =>
    some ((s.setWorker t.wo fun w => { w with current := none }).setThread tid
      { t with pc := .cleared }, [])
  | .cleared =>
    let pc := if t.task.td.timeout ≠ 0 ∧ t.task.td.discarded = false then Pc.deleting else .finished
    some (s.setThread tid { t with pc := pc }, [])
  | .deleting =>
    match s.workers[t.wo]? with
    | none => none
    | some w =>
      some ((s.schedulerDel w.schedId).setThread tid { t with pc := .finished },
        [.deleted tid t.ticket w.schedId])
  | .finished =>
    some (s.setThread tid { t with pc := .collecting },
      [.collectCalled tid t.ticket t.task.td.collect t.task.arg t.err t.task.td.discarded])
  | .working | .collecting | .exited | .undefined => none

/-- What a work function returns and leaves in its argument. `StopWorker` returns
`1`; that of a client is free to do anything. -/
def workResult (t : Thread ι β) (ret : ℤ) (data : β) : ℤ × β :=
  match t.task.td.work with
  | .stopWorker => (1, t.task.arg)
  | _ => (ret, data)

/-- What a collect function returns. `StopCollect` returns its argument `error`. -/
def collectResult (t : Thread ι β) (ret : ℤ) : ℤ :=
  match t.task.td.collect with
  | .stopCollect => t.err
  | _ => ret

/-! ## Calls into the executor -/

/-- `executor_dispatch` up to its call of `ringbuffer_put`. -/
def dispatchCheck [Payload β] (running : Bool) (args : DispatchArgs ι β) :
    Except ℤ (TaskData ι β) :=
  if Payload.size args.data > taskDataEmbedMaxSize then .error executorErrorTooMuchData
  else if !running then .error executorErrorNotRunning
  else .ok (dispatchTask args)

/-- One step of `worker_join(exc->workers + j, wait)`: it goes on, or returns a value. It takes
none while `pthread_join` blocks, or where the slot has no thread to join. The thread that is
joined is the one whose handle was in the slot at the call of `pthread_join`. -/
def workerJoin (s : Executor ι β) (w : Worker) (wait : Bool) : JoinPhase → Option (JoinPhase ⊕ ℤ)
  | .testing => some (if wait && w.current.isSome then .inr (-1) else .inl .passing)
  | .passing => w.thread.map fun tid => .inl (.blocked tid)
  | .blocked tid => if (s.threads[tid]?).map Thread.pc = some .exited then some (.inr 0) else none

/-- The loop of `executor_stop` after a step of `worker_join` for slot `j`. -/
def afterJoin (j : ℕ) (err : ℤ) : JoinPhase ⊕ ℤ → StopPhase
  | .inl phase => .joining j err phase
  | .inr e => .joining (j + 1) e .testing

/-- One step of the call at position `i`. -/
def callStep [Payload β] (s : Executor ι β) (i : ℕ) : Call ι β →
    Option (Executor ι β × List (Event ι β))
  | .dispatch caller args =>
    let r := ringbufferPut s.tasks (dispatchTask args)
    some ({ s with tasks := r.1, calls := s.calls.eraseIdx i }, [.dispatched caller args r.2])
  | .stop wait (.putting j) =>
    if j < s.workersCount then
      let r := ringbufferPut s.tasks stopTask
      some ({ s with tasks := r.1, calls := s.calls.set i (.stop wait (.putting (j + 1))) },
        [.stopPut r.2])
    else
      let phase := if wait then StopPhase.joining 0 0 .testing else .clearing 0
      some ({ s with calls := s.calls.set i (.stop wait phase) }, [])
  | .stop wait (.joining j err phase) =>
    match s.workers[j]? with
    | some w =>
      (s.workerJoin w wait phase).map fun r =>
        ({ s with calls := s.calls.set i (.stop wait (afterJoin j err r)) }, [])
    | none => some ({ s with calls := s.calls.set i (.stop wait (.clearing err)) }, [])
  | .stop _ (.clearing err) =>
    some ({ s with running := false, calls := s.calls.eraseIdx i }, [.stopReturned err])

/-- The thread `tid` is inside `executor_dispatch`. -/
def calling (s : Executor ι β) (tid : ℕ) : Bool :=
  s.calls.any fun
    | .dispatch (.worker tid') _ => tid' == tid
    | _ => false

/-- A work function calls `executor_dispatch` only while it runs, and one call at a time. -/
def mayDispatch (s : Executor ι β) : Caller → Bool
  | .client => true
  | .worker tid => decide ((s.threads[tid]?).map Thread.pc = some .working) && !s.calling tid

end Executor

/-- What moves next, and what the step cannot know. -/
inductive Action (ι β : Type)
  /-- Thread `tid` runs its next statement. -/
  | thread (tid : ℕ)
  /-- The work function of thread `tid` returns `ret`, leaving `data` in its argument. -/
  | workReturn (tid : ℕ) (ret : ℤ) (data : β)
  /-- The collect function of thread `tid` returns `ret`. -/
  | collectReturn (tid : ℕ) (ret : ℤ)
  /-- The timeout source `id` fires. -/
  | fire (id : ℕ) (created : Bool)
  /-- Someone calls `executor_dispatch`. -/
  | dispatch (caller : Caller) (args : DispatchArgs ι β)
  /-- Someone calls `executor_stop`. -/
  | stop (wait : Bool)
  /-- The call at position `i` goes on. -/
  | call (i : ℕ)
  /-- Someone calls `executor_start`. -/
  | start (created : List Bool)

namespace Executor

def step [Payload β] (s : Executor ι β) : Action ι β → Option (Executor ι β × List (Event ι β))
  | .thread tid => (s.threads[tid]?).bind (s.threadStep tid)
  | .workReturn tid ret data =>
    match s.threads[tid]? with
    | none => none
    | some t =>
      if t.pc = .working ∧ s.calling tid = false then
        let r := workResult t ret data
        some (s.setThread tid { t with pc := .worked, err := r.1, task := t.task.setArg r.2 },
          [.workReturned tid t.ticket r.1 r.2])
      else none
  | .collectReturn tid ret =>
    match s.threads[tid]? with
    | none => none
    | some t =>
      if t.pc = .collecting then
        let err := collectResult t ret
        let pc := if err = 0 then Pc.get else .exited
        some (s.setThread tid { t with pc := pc, err := err }, [.collectReturned tid t.ticket err])
      else none
  | .fire id created =>
    match s.timers.find? (fun tm => tm.id == id) with
    | none => none
    | some tm =>
      match s.workers[tm.wo]? with
      | none => none
      | some w =>
        let r := s.workerDiscard w created
        some ({ r.1 with timers := s.timers.filter fun tm => tm.id != id },
          [.fired tm.ticket r.2.1 (if r.2.2 = 0 then some s.threads.length else none)])
  | .dispatch caller args =>
    if s.mayDispatch caller then
      match dispatchCheck s.running args with
      | .error ret => some (s, [.dispatched caller args ret])
      | .ok _ => some ({ s with calls := s.calls ++ [.dispatch caller args] }, [])
    else none
  | .stop wait => some ({ s with calls := s.calls ++ [.stop wait (.putting 0)] }, [])
  | .call i => (s.calls[i]?).bind (s.callStep i)
  | .start created =>
    if created.length = s.workersCount then
      let r := s.executorStart created
      some (r.1, [.startReturned r.2])
    else none

end Executor

def executorSystem (ι β : Type) [Payload β] : Lts (Executor ι β) (Action ι β) (Event ι β) :=
  ⟨Executor.step⟩

end Vmon
