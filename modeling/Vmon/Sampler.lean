import Vmon.Executor
import Vmon.VmInfo.Events
import Vmon.VmInfo.Parse
import Vmon.VmInfo.Print

/-!
# The sampler

`src/sampler.c` on top of the executor. A request is one task. With bulk sampling its
work function asks libvirt for the statistics at once; without, it lists the domains
and dispatches a task for each, whose work function asks. The collect function writes
one response for each record that came back.

A step is a statement of a worker thread outside the task functions, a step of a call
into the executor, or the part of a task function up to its next visible effect. What
libvirt and the host answer is left to the label.

## Main definitions

* `VmonRequest`, `VmonContext` — the structs of the source.
* `Libvirt`, `Env` — the answers of the environment.
* `samplerSendRequest`, `sampleDomainWork`, `bulkSamplingWork`, `listDomainsWork`,
  `samplingCollect` — the functions.
* `Daemon`, `SamplerAction`, `SamplerEvent`, `samplerSystem` — the system.
-/

namespace Vmon

variable {δ : Type}

/-! ## Data -/

abbrev Uuid := Vector UInt8 16

structure SampleRequest where
  uuid : Uuid
  stats : UInt32
  deriving DecidableEq

/-- `struct VmonRequest`; its pointer to the one context is left out. -/
structure VmonRequest (δ : Type) where
  sr : SampleRequest
  dom : Option δ
  records : Option (List (StatsRecord δ))
  recordsNum : ℤ

/-- `sizeof(VmonRequest)` on a 64-bit machine. -/
def vmonRequestSize : ℕ := 8 + 24 + 8 + 8 + 8

/-- A request as its senders fill it, the other members zero. -/
def VmonRequest.ofSample (sr : SampleRequest) : VmonRequest δ :=
  { sr := sr, dom := none, records := none, recordsNum := 0 }

instance : Payload (VmonRequest δ) :=
  ⟨fun _ => vmonRequestSize, .ofSample ⟨Vector.replicate 16 0, 0⟩⟩

structure VmonConfig where
  timeout : ℤ
  bulkSampling : Bool
  diskUsagePerc : ℤ
  eventsOnly : Bool

structure VmonContext where
  conf : VmonConfig
  flags : UInt32

/-- The context with bulk sampling on or off. -/
def VmonContext.withBulk (ctx : VmonContext) (bulk : Bool) : VmonContext :=
  { ctx with conf := { ctx.conf with bulkSampling := bulk } }

/-- What libvirt answers: `virConnectListAllDomains` to its flags,
`virConnectGetAllDomainStats` to its statistics mask, `virDomainListGetStats` to the
domains before the NULL of its array and the mask. `none` is the return value `-1`. -/
structure Libvirt (δ : Type) where
  listAllDomains : UInt32 → Option (List δ)
  getAllDomainStats : UInt32 → Option (List (StatsRecord δ))
  domainListGetStats : List δ → UInt32 → Option (List (StatsRecord δ))

/-- The return value of a libvirt function that fails. -/
def libvirtError : ℤ := -1

/-- The environment of one piece of a task function. -/
structure Env (δ : Type) where
  host : Host δ
  conn : Libvirt δ
  now : UInt64
  uuidUnparse : Uuid → Bytes

/-- The functions the sampler passes to the executor. -/
inductive SamplerFunction
  | listDomainsWork
  | sampleDomainWork
  | bulkSamplingWork
  | samplingCollect
  deriving DecidableEq

/-! ## Sending and sampling -/

/-- The call of `executor_dispatch` in `sampler_send_request`. -/
def samplerSendRequest (ctx : VmonContext) (req : VmonRequest δ) :
    DispatchArgs SamplerFunction (VmonRequest δ) :=
  { work := if ctx.conf.bulkSampling then .bulkSamplingWork else .listDomainsWork
    collect := .samplingCollect
    data := req
    timeout := ctx.conf.timeout }

/-- The request after a query stored what it returned. -/
def VmonRequest.store (req : VmonRequest δ) : Option (List (StatsRecord δ)) → VmonRequest δ
  | none => { req with recordsNum := libvirtError }
  | some records => { req with records := some records, recordsNum := records.length }

def sampleDomainQuery (env : Env δ) (req : VmonRequest δ) : Option (List (StatsRecord δ)) :=
  env.conn.getAllDomainStats req.sr.stats

/-- The array is `{ req->dom, NULL }`: where `dom` is null it ends at once. -/
def bulkSamplingQuery (env : Env δ) (req : VmonRequest δ) : Option (List (StatsRecord δ)) :=
  env.conn.domainListGetStats req.dom.toList req.sr.stats

/-- The call of `executor_dispatch` for one domain, in `list_domains_work`. -/
def listDomainsDispatch (ctx : VmonContext) (req : VmonRequest δ) (dom : δ) :
    DispatchArgs SamplerFunction (VmonRequest δ) :=
  { work := .sampleDomainWork
    collect := .samplingCollect
    data := { req with dom := some dom }
    timeout := ctx.conf.timeout }

/-! ## Responses -/

/-- The buffer of `collect_error`. -/
def errorBufferSize : ℕ := 4096

/-- The text of `collect_error`. -/
def collectError (env : Env δ) (req : VmonRequest δ) (error : ℤ) (timeout : Bool) : Bytes :=
  let domUuid := (req.dom.bind env.host.uuidString).getD []
  let text :=
    lit "\x7b \"req-id\": \"" ++ env.uuidUnparse req.sr.uuid ++
    lit "\", \"timestamp\": " ++ decimal env.now.toNat ++
    lit ", \"data\": \x7b \"vm-id\": \"" ++ domUuid ++
    lit "\", \"error\": \x7b \"code\": " ++ decimalInt error ++
    lit ", \"message\": \"\" \x7d, \"timeout\": \"" ++ (if timeout then lit "yes" else lit "no") ++
    lit "\" \x7d \x7d\n"
  text.take (errorBufferSize - 1)

def responseBegin (env : Env δ) (ts : UInt64) (reqId : Uuid) : Bytes :=
  lit "\x7b \"req-id\": \"" ++ env.uuidUnparse reqId ++ lit "\", \"timestamp\": " ++
  decimal ts.toNat ++ lit ", \"data\": "

def responseFinish : Bytes := lit " \x7d\n"

/-- The records that the loop of `collect_success` goes over. -/
def VmonRequest.reported (req : VmonRequest δ) : List (StatsRecord δ) :=
  (req.records.getD []).take req.recordsNum.toNat

/-- What the loop of `collect_success` writes for one record, in one piece: the events,
then the data unless only events are wanted. -/
def collectRecord (ctx : VmonContext) (env : Env δ) (ts : UInt64) (req : VmonRequest δ)
    (record : StatsRecord δ) : Bytes × Option Bytes :=
  let vm := (vminfoParse env.host vminfoInit record).2
  (vminfoSendEvents vm { diskUsagePerc := ctx.conf.diskUsagePerc },
    if ctx.conf.eventsOnly then none
    else some (responseBegin env ts req.sr.uuid ++ vminfoPrintJson vm ++ responseFinish))

/-! ## The daemon -/

/-- Where a thread is inside a task function of the sampler. -/
inductive Frame (δ : Type)
  /-- Outside, or inside a function of someone else. -/
  | outside
  /-- At the start of a work function. -/
  | working
  /-- In the loop of `list_domains_work`, with the domains to go and `err` so far. -/
  | listing (domains : List δ) (err : ℤ)
  /-- At the start of a collect function, with its arguments. -/
  | collecting (error : ℤ) (timeout : Bool)
  /-- In the loop of `collect_success`, with the timestamp and the records to go. -/
  | reporting (ts : UInt64) (records : List (StatsRecord δ))

abbrev SamplerExecutor (δ : Type) := Executor SamplerFunction (VmonRequest δ)
abbrev ExecutorAction (δ : Type) := Action SamplerFunction (VmonRequest δ)
abbrev ExecutorEvent (δ : Type) := Event SamplerFunction (VmonRequest δ)

/-- The executor, and where each of its threads is inside a task function. -/
structure Daemon (δ : Type) where
  exc : SamplerExecutor δ
  frames : ℕ → Frame δ

/-- What the steps make visible. -/
inductive SamplerEvent (δ : Type)
  | exec (e : ExecutorEvent δ)
  | listed (tid : ℕ) (domains : List δ)
  | sampled (tid : ℕ) (records : List (StatsRecord δ))
  /-- One write: the events of a record of `dom`, then its data if any. The environment is the
  one of the step. -/
  | response (tid : ℕ) (env : Env δ) (dom : δ) (events : Bytes) (data : Option Bytes)
  | error (tid : ℕ) (env : Env δ) (dom : Option δ) (text : Bytes)
  | freeDomain (tid : ℕ) (dom : δ)
  | freeRecords (tid : ℕ) (records : Option (List (StatsRecord δ)))

/-- What moves next, and what the environment answers. -/
inductive SamplerAction (δ : Type)
  /-- Thread `tid` runs its next statement. -/
  | thread (tid : ℕ)
  /-- Thread `tid` goes on in its work function. -/
  | work (tid : ℕ) (env : Env δ)
  /-- Thread `tid` goes on in its collect function. -/
  | collect (tid : ℕ) (env : Env δ)
  /-- The call into the executor at position `i` goes on. -/
  | call (i : ℕ) (env : Env δ)
  /-- The main loop calls `sampler_send_request`. -/
  | send (req : VmonRequest δ)
  | fire (id : ℕ) (created : Bool)
  | stop (wait : Bool)
  | start (created : List Bool)

namespace Daemon

def started (workersCount maxTasks : ℕ) : Daemon δ :=
  { exc := Executor.started workersCount maxTasks, frames := fun _ => .outside }

def setFrame (s : Daemon δ) (tid : ℕ) (frame : Frame δ) : Daemon δ :=
  { s with frames := Function.update s.frames tid frame }

/-- A thread enters and leaves the task functions, and its calls of `executor_dispatch`
return to it, as the executor says. -/
def follow (frames : ℕ → Frame δ) : ExecutorEvent δ → ℕ → Frame δ
  | .workCalled tid _ _ _ => Function.update frames tid .working
  | .workReturned tid _ _ _ => Function.update frames tid .outside
  | .collectCalled tid _ _ _ error timeout =>
    Function.update frames tid (.collecting error timeout)
  | .collectReturned tid _ _ => Function.update frames tid .outside
  | .dispatched (.worker tid) _ ret =>
    match frames tid with
    | .listing domains _ => Function.update frames tid (.listing domains ret)
    | _ => frames
  | _ => frames

/-- A step of the executor. -/
def exec (s : Daemon δ) (a : ExecutorAction δ) : Option (Daemon δ × List (ExecutorEvent δ)) :=
  (s.exc.step a).map fun r => ({ exc := r.1, frames := r.2.foldl follow s.frames }, r.2)

/-- A step of the executor that needs nothing from the sampler. -/
def pass (s : Daemon δ) (a : ExecutorAction δ) : Option (Daemon δ × List (SamplerEvent δ)) :=
  (s.exec a).map fun r => (r.1, r.2.map .exec)

/-- What the caller does where `executor_dispatch` returns: `list_domains_work` reports
the error. -/
def afterDispatch (env : Env δ) : ExecutorEvent δ → List (SamplerEvent δ)
  | .dispatched (.worker tid) args ret =>
    .exec (.dispatched (.worker tid) args ret) ::
      if ret ≠ 0 then [.error tid env args.data.dom (collectError env args.data ret false)] else []
  | e => [.exec e]

/-- A step of the executor in which a call of `executor_dispatch` may return. -/
def passDispatch (s : Daemon δ) (env : Env δ) (a : ExecutorAction δ) :
    Option (Daemon δ × List (SamplerEvent δ)) :=
  (s.exec a).map fun r => (r.1, r.2.flatMap (afterDispatch env))

/-- A function returns to the executor after the events `before`. -/
def passAfter (s : Daemon δ) (before : List (SamplerEvent δ)) (a : ExecutorAction δ) :
    Option (Daemon δ × List (SamplerEvent δ)) :=
  (s.exec a).map fun r => (r.1, before ++ r.2.map .exec)

/-- A work function that stores what a query returned, and returns `0`. -/
def queryWork (s : Daemon δ) (tid : ℕ) (req : VmonRequest δ)
    (ret : Option (List (StatsRecord δ))) : Option (Daemon δ × List (SamplerEvent δ)) :=
  s.passAfter (ret.toList.map (.sampled tid)) (.workReturn tid 0 (req.store ret))

def sampleDomainWork (s : Daemon δ) (tid : ℕ) (req : VmonRequest δ) (env : Env δ) :
    Option (Daemon δ × List (SamplerEvent δ)) :=
  s.queryWork tid req (sampleDomainQuery env req)

def bulkSamplingWork (s : Daemon δ) (tid : ℕ) (req : VmonRequest δ) (env : Env δ) :
    Option (Daemon δ × List (SamplerEvent δ)) :=
  s.queryWork tid req (bulkSamplingQuery env req)

/-- The next part of `list_domains_work`: the listing, a call of `executor_dispatch`, or
the return. -/
def listDomainsWork (ctx : VmonContext) (s : Daemon δ) (tid : ℕ) (req : VmonRequest δ)
    (env : Env δ) : Frame δ → Option (Daemon δ × List (SamplerEvent δ))
  | .working =>
    match env.conn.listAllDomains ctx.flags with
    | none =>
      s.passAfter [.error tid env req.dom (collectError env req libvirtError false)]
        (.workReturn tid libvirtError req)
    | some domains => some (s.setFrame tid (.listing domains 0), [.listed tid domains])
  | .listing (dom :: domains) err =>
    (s.setFrame tid (.listing domains err)).passDispatch env
      (.dispatch (.worker tid) (listDomainsDispatch ctx req dom))
  | .listing [] err => s.passAfter [] (.workReturn tid err req)
  | _ => none

/-- The next part of the work function that thread `tid` is inside. -/
def workStep (ctx : VmonContext) (s : Daemon δ) (tid : ℕ) (t : Thread SamplerFunction (VmonRequest δ))
    (env : Env δ) : Option (Daemon δ × List (SamplerEvent δ)) :=
  match t.task.td.work, s.frames tid with
  | .client .sampleDomainWork, .working => s.sampleDomainWork tid t.task.arg env
  | .client .bulkSamplingWork, .working => s.bulkSamplingWork tid t.task.arg env
  | .client .listDomainsWork, frame => s.listDomainsWork ctx tid t.task.arg env frame
  | .stopWorker, .working => s.pass (.workReturn tid 0 t.task.arg)
  | _, _ => none

/-- `virDomainFree`, where the request has a domain. -/
def freeDomain (tid : ℕ) (req : VmonRequest δ) : List (SamplerEvent δ) :=
  req.dom.toList.map (.freeDomain tid)

/-- The next part of `sampling_collect`: the error response and the return, the start of
the loop over the records, one turn of it, or the return after the last. -/
def samplingCollect (ctx : VmonContext) (s : Daemon δ) (tid : ℕ) (req : VmonRequest δ)
    (env : Env δ) : Frame δ → Option (Daemon δ × List (SamplerEvent δ))
  | .collecting error timeout =>
    if error ≠ 0 ∨ timeout = true then
      s.passAfter (.error tid env req.dom (collectError env req error timeout) :: freeDomain tid req)
        (.collectReturn tid 0)
    else some (s.setFrame tid (.reporting env.now req.reported), [])
  | .reporting ts (record :: records) =>
    let r := collectRecord ctx env ts req record
    some (s.setFrame tid (.reporting ts records), [.response tid env record.dom r.1 r.2])
  | .reporting _ [] =>
    s.passAfter (.freeRecords tid req.records :: freeDomain tid req) (.collectReturn tid 0)
  | _ => none

/-- The next part of the collect function that thread `tid` is inside. -/
def collectStep (ctx : VmonContext) (s : Daemon δ) (tid : ℕ)
    (t : Thread SamplerFunction (VmonRequest δ)) (env : Env δ) :
    Option (Daemon δ × List (SamplerEvent δ)) :=
  match t.task.td.collect with
  | .client .samplingCollect => s.samplingCollect ctx tid t.task.arg env (s.frames tid)
  | .stopCollect => s.pass (.collectReturn tid 0)
  | _ => none

/-- Thread `tid`, where it is inside a function of kind `pc`. -/
def inside (s : Daemon δ) (tid : ℕ) (pc : Pc) : Option (Thread SamplerFunction (VmonRequest δ)) :=
  (s.exc.threads[tid]?).filter fun t => t.pc = pc

def step (ctx : VmonContext) (s : Daemon δ) :
    SamplerAction δ → Option (Daemon δ × List (SamplerEvent δ))
  | .thread tid => s.pass (.thread tid)
  | .work tid env => (s.inside tid .working).bind fun t => s.workStep ctx tid t env
  | .collect tid env => (s.inside tid .collecting).bind fun t => s.collectStep ctx tid t env
  | .call i env => s.passDispatch env (.call i)
  | .send req => s.pass (.dispatch .client (samplerSendRequest ctx req))
  | .fire id created => s.pass (.fire id created)
  | .stop wait => s.pass (.stop wait)
  | .start created => s.pass (.start created)

end Daemon

def samplerSystem (δ : Type) (ctx : VmonContext) :
    Lts (Daemon δ) (SamplerAction δ) (SamplerEvent δ) :=
  ⟨Daemon.step ctx⟩

end Vmon
