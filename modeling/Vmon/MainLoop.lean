import Vmon.Sampler.Request
import Vmon.Sampler.Steps

/-!
# The main loop

`vmon_io_callback` of `src/vmon_int.c`: the watch on the standard input reads a line and hands
it to `sampler_handle_request`. Whatever error comes back, a refused line or a full queue, the
callback ends the service: it quits the main loop and takes the watch away, and it writes no
response. So a request is served exactly where the queue has room at its put
(`callback_serves_iff`).

The callback waits inside `executor_dispatch` while the other threads go on, so the queue
that decides is the one at the put.

## Main definitions

* `IoStatus`, `MainLoop`, `mainSystem` — the system.
* `samplerHandleRequest`, `vmonIoCallback` — the functions of the source.
* `Handling`, `Served` — the handling of one line, and the promise.
* `Executor.Serving` — the executor under a running main loop.
-/

namespace Vmon

variable {δ : Type}

/-! ## The system -/

/-- What `g_io_channel_read_line` returns. -/
inductive IoStatus
  | normal (line : Bytes)
  | error
  | eof
  | again

abbrev SamplerArgs (δ : Type) := DispatchArgs SamplerFunction (VmonRequest δ)

/-- The daemon under its main loop. -/
structure MainLoop (δ : Type) where
  daemon : Daemon δ
  /-- The call of `executor_dispatch` that `vmon_io_callback` is inside. -/
  callback : Option (SamplerArgs δ)
  /-- The watch on the standard input is installed. -/
  watch : Bool
  /-- The loop has not been told to quit. -/
  running : Bool

/-- What the steps make visible. -/
inductive MainEvent (δ : Type)
  | daemon (e : SamplerEvent δ)
  /-- The main thread writes a response. -/
  | response (text : Bytes)
  | quit
  /-- `vmon_io_callback` returns; `FALSE` takes the watch away. -/
  | returned (keep : Bool)

/-- What moves next, and what the environment answers. -/
inductive MainAction (δ : Type)
  /-- The watch fires. -/
  | input (status : IoStatus)
  /-- A part of the daemon moves, or the call that the callback is inside. -/
  | daemon (a : SamplerAction δ)

namespace MainLoop

def started (workersCount maxTasks : ℕ) : MainLoop δ :=
  { daemon := .started workersCount maxTasks, callback := none, watch := true, running := true }

/-- `sampler_handle_request` up to its call of `executor_dispatch`. -/
def samplerHandleRequest (ctx : VmonContext) (lib : UuidLib) (stray : ℕ → Bool) (text : Bytes)
    (size : ℕ) : Except ℤ (SamplerArgs δ) :=
  match samplerParseRequest lib stray text size with
  | .error err => .error (requestCode (.error err))
  | .ok sr => .ok (samplerSendRequest ctx (.ofSample sr))

/-- The rest of `vmon_io_callback` after `sampler_handle_request` returned `err`. -/
def handled (s : MainLoop δ) (err : ℤ) : MainLoop δ × List (MainEvent δ) :=
  if err = 0 then ({ s with callback := none }, [.returned true])
  else ({ s with callback := none, watch := false, running := false }, [.quit, .returned false])

/-- What the call of the main thread returned, where one of `es` is its return. -/
def dispatchReturn (es : List (SamplerEvent δ)) : Option ℤ :=
  es.findSome? fun
    | .exec (.dispatched .client _ ret) => some ret
    | _ => none

/-- A step of the daemon, and the rest of the callback where its call returns. -/
def resume (s : MainLoop δ) (r : Daemon δ × List (SamplerEvent δ)) :
    MainLoop δ × List (MainEvent δ) :=
  match dispatchReturn r.2 with
  | none => ({ s with daemon := r.1 }, r.2.map .daemon)
  | some err =>
    let q := handled { s with daemon := r.1 } err
    (q.1, r.2.map .daemon ++ q.2)

/-- `vmon_io_callback`, up to the put of the request. -/
def vmonIoCallback (ctx : VmonContext) (lib : UuidLib) (stray : ℕ → Bool) (s : MainLoop δ) :
    IoStatus → Option (MainLoop δ × List (MainEvent δ))
  | .normal line =>
    match samplerHandleRequest ctx lib stray line line.length with
    | .error err => some (s.handled err)
    | .ok args =>
      (s.daemon.pass (.dispatch .client args)).map ({ s with callback := some args }).resume
  | .error => some ({ s with watch := false }, [.returned false])
  | .eof => some ({ s with watch := false, running := false }, [.quit, .returned false])
  | .again => some (s, [.returned true])

/-- The main thread stops the executor after the loop only, it started it before, and it sends
no request but those it reads. -/
def mayMove (s : MainLoop δ) : SamplerAction δ → Bool
  | .send _ | .start _ => false
  | .stop _ => !s.running
  | _ => true

def step (ctx : VmonContext) (lib : UuidLib) (stray : ℕ → Bool) (s : MainLoop δ) :
    MainAction δ → Option (MainLoop δ × List (MainEvent δ))
  | .input status =>
    if s.watch && s.running && s.callback.isNone then s.vmonIoCallback ctx lib stray status
    else none
  | .daemon a => if s.mayMove a then (s.daemon.step ctx a).map s.resume else none

end MainLoop

def mainSystem (δ : Type) (ctx : VmonContext) (lib : UuidLib) (stray : ℕ → Bool) :
    Lts (MainLoop δ) (MainAction δ) (MainEvent δ) :=
  ⟨MainLoop.step ctx lib stray⟩

abbrev MainMove (δ : Type) := Move (MainLoop δ) (MainAction δ) (MainEvent δ)

/-! ## The promise -/

/-- `vmon_io_callback` returned. -/
def CallbackReturned (h : List (MainEvent δ)) : Prop := ∃ keep, .returned keep ∈ h

/-- In a run of the daemon, the watch reads `line`, which is a request `sr`; `moves` and `h`
are all that happens from there on, until the callback returns and leaves `s`. -/
inductive Handling (ctx : VmonContext) (lib : UuidLib) (stray : ℕ → Bool)
    (workersCount maxTasks : ℕ) (line : Bytes) (sr : SampleRequest) :
    List (MainMove δ) → List (MainEvent δ) → MainLoop δ → Prop
  | mk {h₀ h es : List (MainEvent δ)} {s₀ s₁ s₂ : MainLoop δ} {moves : List (MainMove δ)}
      {a : MainAction δ}
      (hr : (mainSystem δ ctx lib stray).Reach (fun _ => True) (.started workersCount maxTasks)
        h₀ s₀)
      (hparse : samplerParseRequest lib stray line line.length = .ok sr)
      (hrun : (mainSystem δ ctx lib stray).Run s₀ moves h s₁) (hopen : ¬CallbackReturned h)
      (hs : (mainSystem δ ctx lib stray).step s₁ a = some (s₂, es)) (hend : CallbackReturned es)
      (hinput : (moves ++ [(⟨h, s₁, a⟩ : MainMove δ)]).head?.map Move.action =
        some (.input (.normal line))) :
      Handling ctx lib stray workersCount maxTasks line sr (moves ++ [⟨h, s₁, a⟩]) (h ++ es) s₂

/-- The task of the request is in the queue, or an error response with its id is written, and
the service goes on. -/
structure Served (ctx : VmonContext) (sr : SampleRequest) (h : List (MainEvent δ))
    (s : MainLoop δ) : Prop where
  answered :
    .daemon (.exec (.dispatched .client (samplerSendRequest ctx (.ofSample sr)) 0)) ∈ h ∨
      ∃ (env : Env δ) (code : ℤ),
        .response (collectError env (.ofSample sr : VmonRequest δ) code false) ∈ h
  watch : s.watch = true
  running : s.running = true

/-- The put of the request, by the main thread. -/
def MainMove.Puts (m : MainMove δ) : Prop :=
  ∃ i env args, m.action = .daemon (.call i env) ∧
    m.pre.daemon.exc.calls[i]? = some (.dispatch .client args)

/-! ## The executor under a running main loop -/

section Executor

variable {ι β : Type}

/-- The arguments of a call of `executor_dispatch` by the main thread. -/
def Call.client : Call ι β → Option (DispatchArgs ι β)
  | .dispatch .client args => some args
  | _ => none

namespace Executor

/-- Nobody stops the executor, and `client` is what the main thread dispatches. -/
structure Serving (client : Option (DispatchArgs ι β)) (s : Executor ι β) : Prop where
  running : s.running = true
  stops : ∀ wait phase, Call.stop wait phase ∉ s.calls
  client : s.calls.filterMap Call.client = client.toList

variable {s s' : Executor ι β} {a : Action ι β} {es : List (Event ι β)}
  {client : Option (DispatchArgs ι β)}

theorem Serving.calls (H : Serving client s) (hrunning : s'.running = s.running)
    (hcalls : s'.calls = s.calls) : Serving client s' :=
  ⟨hrunning.trans H.running, by rw [hcalls]; exact H.stops, by rw [hcalls]; exact H.client⟩

variable [Payload β]

/-- A step of the executor that the main thread does not begin: where its own call returns, the
queue says what. -/
theorem Serving.step (H : Serving client s) (hs : s.Steps a s' es)
    (hdispatch : ∀ args, a ≠ .dispatch .client args) (hstop : ∀ wait, a ≠ .stop wait)
    (hstart : ∀ created, a ≠ .start created) :
    (Serving client s' ∧ (∀ args ret, .dispatched .client args ret ∉ es) ∧
      ∀ i args, a = .call i → s.calls[i]? ≠ some (.dispatch .client args)) ∨
    ∃ i args, a = .call i ∧ s.calls[i]? = some (.dispatch .client args) ∧ client = some args ∧
      Serving none s' ∧
      es = [.dispatched .client args (ringbufferPut s.tasks (dispatchTask args)).2] := by
  cases hs with
  | @fire id created tm w =>
    exact .inl ⟨H.calls (workerDiscard_running s w created) (workerDiscard_calls s w created),
      by simp, by simp⟩
  | @refuse caller args ret =>
    cases caller with
    | client => exact absurd rfl (hdispatch args)
    | worker tid => exact .inl ⟨H, by simp, by simp⟩
  | @enter caller args =>
    cases caller with
    | client => exact absurd rfl (hdispatch args)
    | worker tid =>
      refine .inl ⟨⟨H.running, ?_, ?_⟩, by simp, by simp⟩
      · simpa using H.stops
      · rw [List.filterMap_append, H.client]
        exact List.append_nil _
  | @dispatchPut i caller args hcall =>
    have hstops : ∀ wait phase, Call.stop wait phase ∉ s.calls.eraseIdx i :=
      fun wait phase hmem => H.stops wait phase (List.mem_of_mem_eraseIdx hmem)
    cases caller with
    | worker tid =>
      refine .inl ⟨⟨H.running, hstops, ?_⟩, by simp, ?_⟩
      · rw [pending_erase hcall rfl]
        exact H.client
      · rintro j args' hj
        cases hj
        simp [hcall]
    | client =>
      have hone : (s.calls.filterMap Call.client).length ≤ 1 := by
        rw [H.client]
        cases client <;> simp
      obtain ⟨hbefore, hafter⟩ := pending_erase_self hcall (f := Call.client) rfl hone
      refine .inr ⟨i, args, rfl, hcall, ?_, ⟨H.running, hstops, hafter⟩, rfl⟩
      rw [H.client] at hbefore
      cases client with
      | none => simp at hbefore
      | some args' => simpa using hbefore
  | stop => exact absurd rfl (hstop _)
  | stopPut hcall => exact absurd (List.mem_of_getElem? hcall) (H.stops _ _)
  | stopPhase hcall => exact absurd (List.mem_of_getElem? hcall) (H.stops _ _)
  | stopReturn hcall => exact absurd (List.mem_of_getElem? hcall) (H.stops _ _)
  | startAgain => exact absurd rfl (hstart _)
  | start => exact absurd rfl (hstart _)
  | _ => exact .inl ⟨H.calls rfl rfl, by simp, by simp⟩

theorem Serving.of_started (n cap : ℕ) :
    Serving none (started n cap : Executor ι β) := by
  obtain ⟨workers, heq, -⟩ := started_eq (ι := ι) (β := β) n cap
  rw [heq]
  exact ⟨rfl, by simp [executorInit], by simp [executorInit]⟩

end Executor

end Executor

/-! ## The handling of a line -/

section Handling

variable {ctx : VmonContext} {lib : UuidLib} {stray : ℕ → Bool}

theorem dispatchReturn_eq_none {es : List (SamplerEvent δ)}
    (h : ∀ args ret, .dispatched .client args ret ∉ Daemon.execEvents es) :
    MainLoop.dispatchReturn es = none := by
  rw [MainLoop.dispatchReturn, List.findSome?_eq_none_iff]
  intro e he
  split
  · rename_i args ret
    refine absurd ?_ (h args ret)
    rw [Daemon.execEvents, List.mem_filterMap]
    exact ⟨_, he, rfl⟩
  · rfl

/-- A step of the daemon that the main thread does not begin. -/
theorem Daemon.Steps.serving {s s' : Daemon δ} {a : SamplerAction δ}
    {es : List (SamplerEvent δ)} {client : Option (SamplerArgs δ)}
    (hs : Daemon.Steps ctx s a s' es) (H : s.exc.Serving client) (hsend : ∀ req, a ≠ .send req)
    (hstop : ∀ wait, a ≠ .stop wait) (hstart : ∀ created, a ≠ .start created) :
    (s'.exc.Serving client ∧ MainLoop.dispatchReturn es = none ∧
      ∀ i env args, a = .call i env → s.exc.calls[i]? ≠ some (.dispatch .client args)) ∨
    ∃ i env args, a = .call i env ∧ s.exc.calls[i]? = some (.dispatch .client args) ∧
      client = some args ∧ s'.exc.Serving none ∧
      es = [.exec (.dispatched .client args
        (ringbufferPut s.exc.tasks (dispatchTask args)).2)] := by
  rcases hs.exc_cases with ⟨heq, hnone⟩ | ⟨b, hexc, htold⟩
  · refine .inl ⟨by rwa [heq], dispatchReturn_eq_none (by simp [hnone]), ?_⟩
    rintro i env args rfl
    cases hs with
    | outer ha => cases ha
    | @call _ _ exc es' hs =>
      -- the call that ends shows its event
      intro hcall
      rw [Daemon.execEvents_afterDispatch] at hnone
      subst hnone
      cases hs with
      | stopPhase hcall' => simp [hcall] at hcall'
  · have hb : (∀ args, b ≠ .dispatch .client args) ∧ (∀ wait, b ≠ .stop wait) ∧
        ∀ created, b ≠ .start created := by
      cases htold with
      | send => exact absurd rfl (hsend _)
      | stop => exact absurd rfl (hstop _)
      | start => exact absurd rfl (hstart _)
      | _ => simp
    rcases H.step hexc hb.1 hb.2.1 hb.2.2 with
      ⟨H', hnone, hcalls⟩ | ⟨i, args, rfl, hcall, hclient, H', hes⟩
    · refine .inl ⟨H', dispatchReturn_eq_none hnone, ?_⟩
      rintro i env args rfl
      cases htold
      exact hcalls i args rfl
    · right
      cases htold with
      | @call _ env =>
        refine ⟨i, env, args, rfl, hcall, hclient, H', ?_⟩
        cases hs with
        | outer ha => cases ha
        | @call _ _ exc es' hs =>
          rw [Daemon.execEvents_afterDispatch] at hes
          rw [hes]
          rfl

namespace MainLoop

variable {s s' : MainLoop δ} {a : MainAction δ} {es : List (MainEvent δ)}

/-- While the loop runs, the callback is inside the one call of the main thread. -/
def Sound (s : MainLoop δ) : Prop := s.running = true → s.daemon.exc.Serving s.callback

variable (ctx) in
/-- `sampler_send_request` under a running main loop reaches the put. -/
theorem pass_dispatch {d : Daemon δ} (H : d.exc.Serving none) (req : VmonRequest δ) :
    ∃ d', d.pass (.dispatch .client (samplerSendRequest ctx req)) = some (d', []) ∧
      d'.exc.Serving (some (samplerSendRequest ctx req)) := by
  refine ⟨{ d with exc := { d.exc with
    calls := d.exc.calls ++ [.dispatch .client (samplerSendRequest ctx req)] } }, ?_, ?_⟩
  · simp [Daemon.pass, Daemon.exec, Executor.step, Executor.mayDispatch,
      Daemon.dispatchCheck_request, H.running]
  · refine ⟨H.running, by simpa using H.stops, ?_⟩
    rw [List.filterMap_append, H.client]
    rfl

variable (ctx) in
/-- The watch reads a request: the callback goes as far as the put. -/
theorem vmonIoCallback_accepted (H : s.daemon.exc.Serving none) {line : Bytes}
    {sr : SampleRequest} (hparse : samplerParseRequest lib stray line line.length = .ok sr) :
    ∃ d, s.vmonIoCallback ctx lib stray (.normal line) = some ({ s with
        daemon := d, callback := some (samplerSendRequest ctx (.ofSample sr)) }, []) ∧
      d.exc.Serving (some (samplerSendRequest ctx (.ofSample sr))) := by
  obtain ⟨d, hpass, hd⟩ := pass_dispatch ctx H (.ofSample sr)
  refine ⟨d, ?_, hd⟩
  simp [vmonIoCallback, samplerHandleRequest, hparse, hpass, resume, dispatchReturn]

theorem resume_running (r : Daemon δ × List (SamplerEvent δ))
    (h : (s.resume r).1.running = true) : s.running = true := by
  unfold resume at h
  split at h
  · exact h
  · simp only [handled] at h
    split at h
    · exact h
    · cases h

/-- **A step of the daemon under a running main loop**: the call of the callback goes on, or
it returns what the queue says. -/
theorem step_daemon {b : SamplerAction δ} (H : s.daemon.exc.Serving s.callback)
    (hrunning : s.running = true)
    (hs : s.step ctx lib stray (.daemon b) = some (s', es)) :
    (s'.daemon.exc.Serving s.callback ∧ s'.callback = s.callback ∧ s'.watch = s.watch ∧
      s'.running = true ∧ ¬CallbackReturned es ∧
      ∀ h, ¬MainMove.Puts ⟨h, s, .daemon b⟩) ∨
    ∃ args, s.callback = some args ∧ s'.daemon.exc.Serving none ∧
      (∀ h, MainMove.Puts ⟨h, s, .daemon b⟩) ∧ s'.callback = none ∧ CallbackReturned es ∧
      (rbIsFull s.daemon.exc.tasks = false → s'.watch = s.watch ∧ s'.running = true ∧
        es = [.daemon (.exec (.dispatched .client args 0)), .returned true]) ∧
      (rbIsFull s.daemon.exc.tasks = true → s'.watch = false ∧ s'.running = false) := by
  simp only [step] at hs
  split at hs
  · rename_i hmay
    simp only [Option.map_eq_some_iff] at hs
    obtain ⟨⟨d, es'⟩, hstep, heq⟩ := hs
    have hsteps := @Daemon.step_cases _ ctx _ _ _ _ hstep
    have hsend : ∀ req, b ≠ .send req := by
      rintro req rfl
      simp [mayMove] at hmay
    have hstop : ∀ wait, b ≠ .stop wait := by
      rintro wait rfl
      simp [mayMove, hrunning] at hmay
    have hstart : ∀ created, b ≠ .start created := by
      rintro created rfl
      simp [mayMove] at hmay
    rcases hsteps.serving H hsend hstop hstart with
      ⟨H', hnone, hcalls⟩ | ⟨i, env, args, rfl, hcall, hclient, H', rfl⟩
    · left
      simp only [resume, hnone, Prod.mk.injEq] at heq
      obtain ⟨rfl, rfl⟩ := heq
      refine ⟨H', rfl, rfl, hrunning, ?_, ?_⟩
      · rintro ⟨keep, hmem⟩
        simp at hmem
      · rintro h ⟨i, env, args, ha, hcall⟩
        cases ha
        exact hcalls i env args rfl hcall
    · right
      have hreturn : dispatchReturn [(.exec (.dispatched .client args
          (ringbufferPut s.daemon.exc.tasks (dispatchTask args)).2) : SamplerEvent δ)] =
            some (ringbufferPut s.daemon.exc.tasks (dispatchTask args)).2 := rfl
      simp only [resume, hreturn, handled] at heq
      cases hfull : rbIsFull s.daemon.exc.tasks with
      | false =>
        rw [(ringbufferPut_of_not_full hfull), if_pos rfl, Prod.mk.injEq] at heq
        obtain ⟨rfl, rfl⟩ := heq
        exact ⟨args, hclient, H', fun h => ⟨i, env, args, rfl, hcall⟩, rfl, ⟨true, by simp⟩,
          fun _ => ⟨rfl, hrunning, rfl⟩, by simp⟩
      | true =>
        have hput : (ringbufferPut s.daemon.exc.tasks (dispatchTask args)).2 = -1 := by
          simp [ringbufferPut, hfull]
        rw [hput, if_neg (by decide), Prod.mk.injEq] at heq
        obtain ⟨rfl, rfl⟩ := heq
        exact ⟨args, hclient, H', fun h => ⟨i, env, args, rfl, hcall⟩, rfl, ⟨false, by simp⟩,
          by simp, fun _ => ⟨rfl, rfl⟩⟩
  · cases hs

theorem sound_of_reach {ok : MainMove δ → Prop} {workersCount maxTasks : ℕ}
    {h : List (MainEvent δ)}
    (hr : (mainSystem δ ctx lib stray).Reach ok (.started workersCount maxTasks) h s) :
    s.Sound := by
  refine Lts.Reach.invariant (P := fun _ s => s.Sound) ?_ ?_ hr
  · exact fun _ => Executor.Serving.of_started _ _
  · intro h s a s' es _ H _ hs
    change s.step ctx lib stray a = some (s', es) at hs
    cases a with
    | input status =>
      simp only [step] at hs
      split at hs
      · rename_i hmay
        simp only [Bool.and_eq_true, Option.isNone_iff_eq_none] at hmay
        obtain ⟨⟨-, hrunning⟩, hnone⟩ := hmay
        have hserving := H hrunning
        cases status with
        | normal line =>
          cases hparse : samplerParseRequest lib stray line line.length with
          | error err =>
            simp only [vmonIoCallback, samplerHandleRequest, hparse, requestCode, handled,
              Option.some.injEq] at hs
            obtain ⟨rfl, -⟩ := Prod.mk.inj hs
            intro hfalse
            cases hfalse
          | ok sr =>
            rw [hnone] at hserving
            obtain ⟨d, hcallback, hd⟩ := vmonIoCallback_accepted ctx hserving hparse
            rw [hcallback] at hs
            simp only [Option.some.injEq, Prod.mk.injEq] at hs
            obtain ⟨rfl, -⟩ := hs
            exact fun _ => hd
        | error =>
          simp only [vmonIoCallback, Option.some.injEq, Prod.mk.injEq] at hs
          obtain ⟨rfl, -⟩ := hs
          exact H
        | eof =>
          simp only [vmonIoCallback, Option.some.injEq, Prod.mk.injEq] at hs
          obtain ⟨rfl, -⟩ := hs
          intro hfalse
          cases hfalse
        | again =>
          simp only [vmonIoCallback, Option.some.injEq, Prod.mk.injEq] at hs
          obtain ⟨rfl, -⟩ := hs
          exact H
      · cases hs
    | daemon b =>
      cases hrunning : s.running with
      | false =>
        intro htrue
        simp only [step] at hs
        split at hs
        · simp only [Option.map_eq_some_iff] at hs
          obtain ⟨r, -, heq⟩ := hs
          have := resume_running (s := s) r (by rw [heq]; exact htrue)
          rw [hrunning] at this
          cases this
        · cases hs
      | true =>
        intro _
        rcases step_daemon (H hrunning) hrunning hs with
          ⟨H', hcallback, -⟩ | ⟨args, -, H', -, hcallback, -⟩
        · rwa [hcallback]
        · rwa [hcallback]

/-- The callback waits for the return of its call. -/
structure Waiting (args : SamplerArgs δ) (s : MainLoop δ) : Prop where
  callback : s.callback = some args
  watch : s.watch = true
  running : s.running = true
  serving : s.daemon.exc.Serving (some args)

/-- The watch fires on a request. -/
theorem waiting_of_input {line : Bytes} {sr : SampleRequest} (H : s.Sound)
    (hparse : samplerParseRequest lib stray line line.length = .ok sr)
    (hs : s.step ctx lib stray (.input (.normal line)) = some (s', es)) :
    Waiting (samplerSendRequest ctx (.ofSample sr)) s' ∧ es = [] := by
  simp only [step] at hs
  split at hs
  · rename_i hmay
    simp only [Bool.and_eq_true, Option.isNone_iff_eq_none] at hmay
    obtain ⟨⟨hwatch, hrunning⟩, hnone⟩ := hmay
    have hserving := H hrunning
    rw [hnone] at hserving
    obtain ⟨d, hcallback, hd⟩ := vmonIoCallback_accepted ctx hserving hparse
    rw [hcallback] at hs
    simp only [Option.some.injEq, Prod.mk.injEq] at hs
    obtain ⟨rfl, rfl⟩ := hs
    exact ⟨⟨rfl, hwatch, hrunning, hd⟩, rfl⟩
  · cases hs

/-- From the reading of a request on, until the callback returns. -/
theorem waiting_of_run {s₀ : MainLoop δ} {line : Bytes} {sr : SampleRequest}
    {moves : List (MainMove δ)} {h : List (MainEvent δ)} (H : s₀.Sound)
    (hparse : samplerParseRequest lib stray line line.length = .ok sr)
    (hr : (mainSystem δ ctx lib stray).Run s₀ moves h s) (hopen : ¬CallbackReturned h)
    (hinput : moves.head?.map Move.action = some (.input (.normal line))) :
    Waiting (samplerSendRequest ctx (.ofSample sr)) s ∧ ∀ m ∈ moves, ¬MainMove.Puts m := by
  induction hr with
  | init => simp at hinput
  | @step moves h s s' a es hr hs ih =>
    change s.step ctx lib stray a = some (s', es) at hs
    have hopen₁ : ¬CallbackReturned h := fun ⟨keep, hmem⟩ =>
      hopen ⟨keep, List.mem_append_left _ hmem⟩
    have hopen₂ : ¬CallbackReturned es := fun ⟨keep, hmem⟩ =>
      hopen ⟨keep, List.mem_append_right _ hmem⟩
    cases moves with
    | nil =>
      -- the watch fires
      obtain ⟨rfl, rfl⟩ := hr.of_nil
      obtain rfl : a = .input (.normal line) := by simpa using hinput
      refine ⟨(waiting_of_input H hparse hs).1, ?_⟩
      intro m hm
      rintro ⟨i, env, args, ha, -⟩
      rw [List.mem_singleton.mp hm] at ha
      cases ha
    | cons m moves =>
      obtain ⟨hwait, hputs⟩ := ih hopen₁ (by simpa using hinput)
      cases a with
      | input status => simp [step, hwait.callback] at hs
      | daemon b =>
        have hserving : s.daemon.exc.Serving s.callback := by
          rw [hwait.callback]
          exact hwait.serving
        rcases step_daemon hserving hwait.running hs with
          ⟨H', hcallback, hwatch, hrunning, -, hnot⟩ | ⟨args, -, -, -, -, hreturned, -⟩
        · rw [hwait.callback] at H' hcallback
          refine ⟨⟨hcallback, hwatch.trans hwait.watch, hrunning, H'⟩, ?_⟩
          intro m' hm'
          rcases List.mem_append.mp hm' with hm' | hm'
          · exact hputs m' hm'
          · rw [List.mem_singleton.mp hm']
            exact hnot h
        · exact absurd hreturned hopen₂

end MainLoop

variable {workersCount maxTasks : ℕ} {line : Bytes} {sr : SampleRequest}
  {moves : List (MainMove δ)} {h : List (MainEvent δ)} {s : MainLoop δ}

/-- **A request is served exactly where the queue has room at its put.** -/
theorem callback_serves_iff
    (hr : Handling ctx lib stray workersCount maxTasks line sr moves h s) :
    Served ctx sr h s ↔ ∀ m ∈ moves, MainMove.Puts m → rbIsFull m.pre.daemon.exc.tasks = false := by
  obtain ⟨hreach, hparse, hrun, hopen, hs, hend, hinput⟩ := hr
  rename_i h₀ h es s₀ s₁ moves a
  have hsound := MainLoop.sound_of_reach hreach
  cases moves with
  | nil =>
    -- the callback of a running loop does not return before the put
    obtain ⟨rfl, rfl⟩ := hrun.of_nil
    obtain rfl : a = .input (.normal line) := by simpa using hinput
    obtain ⟨-, rfl⟩ := MainLoop.waiting_of_input hsound hparse hs
    obtain ⟨keep, hmem⟩ := hend
    cases hmem
  | cons m moves =>
    have hfirst : (m :: moves).head?.map Move.action = some (.input (.normal line)) := by
      simpa using hinput
    obtain ⟨hwait, hputs⟩ := MainLoop.waiting_of_run hsound hparse hrun hopen hfirst
    change s₁.step ctx lib stray a = some (s, es) at hs
    cases a with
    | input status => simp [MainLoop.step, hwait.callback] at hs
    | daemon b =>
      have hserving : s₁.daemon.exc.Serving s₁.callback := by
        rw [hwait.callback]
        exact hwait.serving
      rcases MainLoop.step_daemon hserving hwait.running hs with
        ⟨-, -, -, -, hnot, -⟩ | ⟨args, hargs, -, hlast, -, -, hroom, hfull⟩
      · exact absurd hend hnot
      · obtain rfl : samplerSendRequest ctx (.ofSample sr) = args := by
          simpa [hwait.callback] using hargs
        constructor
        · intro H m' hm' hput
          rcases List.mem_append.mp hm' with hm' | hm'
          · exact absurd hput (hputs m' hm')
          · rw [List.mem_singleton.mp hm']
            by_contra hnot
            rw [Bool.not_eq_false] at hnot
            have := H.watch
            rw [(hfull hnot).1] at this
            cases this
        · intro H
          obtain ⟨hwatch, hrunning, hes⟩ :=
            hroom (H _ (List.mem_append_right _ (List.mem_singleton_self _)) (hlast h))
          refine ⟨.inl ?_, hwatch.trans hwait.watch, hrunning⟩
          rw [hes]
          simp

end Handling

/-! ## Two requests -/

instance (h : List (MainEvent δ)) : Decidable (CallbackReturned h) :=
  decidable_of_iff (h.any (fun e => match e with
    | .returned _ => true
    | _ => false) = true) <| by
    rw [List.any_eq_true]
    constructor
    · rintro ⟨e, he, hp⟩
      split at hp
      · exact ⟨_, he⟩
      · cases hp
    · rintro ⟨keep, he⟩
      exact ⟨_, he, rfl⟩

private def loopContext : VmonContext :=
  { conf := { timeout := 1000, bulkSampling := false, diskUsagePerc := 0, eventsOnly := false }
    flags := 0 }

private def loopEnv : Env ℕ :=
  { host := { calloc := fun _ _ => true, strdup := fun _ => true, uuidString := fun _ => none,
              bigEndian := false, string := fun _ => [] }
    conn := { listAllDomains := fun _ => none, getAllDomainStats := fun _ => none,
              domainListGetStats := fun _ _ => none }
    now := 0, uuidUnparse := fun _ => [] }

private def loopLib : UuidLib := ⟨fun _ => [], fun _ => none⟩

/-- A request for nothing. -/
private def loopLine : Bytes := lit "\x7b\x7d\n"

private abbrev loopSystem : Lts (MainLoop ℕ) (MainAction ℕ) (MainEvent ℕ) :=
  mainSystem ℕ loopContext loopLib fun _ => false

/-- A read and its put, after `n` others, with room for one task. -/
private def loopTrace (n : ℕ) : Option (List (MainMove ℕ) × List (MainEvent ℕ) × MainLoop ℕ) := do
  let before ← loopSystem.trace [] (.started 1 1)
    (List.replicate n [.input (.normal loopLine), .daemon (.call 0 loopEnv)]).flatten
  let read ← loopSystem.trace [] before.2.2 [.input (.normal loopLine)]
  let last ← loopSystem.step read.2.2 (.daemon (.call 0 loopEnv))
  if ¬CallbackReturned read.2.1 ∧ CallbackReturned last.2 then
    some (read.1 ++ [⟨read.2.1, read.2.2, .daemon (.call 0 loopEnv)⟩], read.2.1 ++ last.2, last.1)
  else none

private theorem exists_handling (n : ℕ) (p : MainLoop ℕ → Bool)
    (he : (loopTrace n).any (fun r => p r.2.2) = true) : ∃ moves h s,
    Handling loopContext loopLib (fun _ => false) 1 1 loopLine .zero moves h s ∧
      p s = true := by
  obtain ⟨⟨moves, h, s⟩, hr, hp⟩ := (Option.any_eq_true _ _).mp he
  refine ⟨moves, h, s, ?_, hp⟩
  simp only [loopTrace, Option.bind_eq_bind, Option.bind_eq_some_iff,
    Option.ite_none_right_eq_some, Option.some.injEq, Prod.mk.injEq] at hr
  obtain ⟨⟨_, _, s₀⟩, hbefore, ⟨moves', h', s₁⟩, hread, ⟨s₂, es⟩, hs, ⟨hopen, hend⟩, rfl, rfl,
    rfl⟩ := hr
  have hreach := Lts.Run.trace .init hbefore
  have hactions := Lts.trace_actions hread
  refine .mk ⟨_, hreach, fun _ _ => trivial⟩ (by decide +kernel) (Lts.Run.trace .init hread)
    hopen hs hend ?_
  rw [← List.head?_map, List.map_append, hactions]
  rfl

theorem callback_serves_iff_room : ∃ (moves : List (MainMove ℕ)) (h : List (MainEvent ℕ))
    (s : MainLoop ℕ),
    Handling loopContext loopLib (fun _ => false) 1 1 loopLine .zero moves h s ∧
      s.running = true ∧ (Served loopContext .zero h s ↔
        ∀ m ∈ moves, MainMove.Puts m → rbIsFull m.pre.daemon.exc.tasks = false) := by
  obtain ⟨moves, h, s, hr, hp⟩ := exists_handling 0 (fun s => s.running) (by decide +kernel)
  exact ⟨moves, h, s, hr, hp, callback_serves_iff hr⟩

/-- A second request before the worker took the first: the service ends. -/
theorem callback_serves_fails : ∃ (moves : List (MainMove ℕ)) (h : List (MainEvent ℕ))
    (s : MainLoop ℕ),
    Handling loopContext loopLib (fun _ => false) 1 1 loopLine .zero moves h s ∧
      s.watch = false ∧ s.running = false ∧ ¬Served loopContext .zero h s := by
  obtain ⟨moves, h, s, hr, hp⟩ := exists_handling 1 (fun s => !s.watch && !s.running)
    (by decide +kernel)
  simp only [Bool.and_eq_true, Bool.not_eq_true'] at hp
  refine ⟨moves, h, s, hr, hp.1, hp.2, ?_⟩
  intro H
  have := H.running
  rw [hp.2] at this
  cases this

end Vmon
