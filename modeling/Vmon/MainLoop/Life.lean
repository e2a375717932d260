import Vmon.MainLoop.Pool

/-!
# The life of the main loop

`vmon_io_callback` ends the service of its watch in two ways. A line that is refused, a full
queue and the end of the input quit the loop, once, and the executor is stopped after that only.
An error on the input takes the watch away and quits nothing: the program then goes on for ever
without reading, serving or ending (`io_error_deafens`). There is no other end (`main_loop_life`).

## Main definitions

* `MainLoop.Turns` — a step of the main loop, by what becomes of the callback.
* `MainLoop.Life` — what holds along every run.
-/

namespace Vmon

variable {δ : Type} {ctx : VmonContext} {lib : UuidLib} {stray : ℕ → Bool}

/-! ## The call of the main thread -/

section Executor

variable {ι β : Type} [Payload β] {s s' : Executor ι β} {a : Action ι β} {es : List (Event ι β)}

/-- What a dispatch by the main thread returned. -/
def Event.clientReturn : Event ι β → Option ℤ
  | .dispatched .client _ ret => some ret
  | _ => none

/-- The event belongs to a call of `executor_stop`. -/
def Event.stops : Event ι β → Bool
  | .stopPut _ | .stopReturned _ => true
  | _ => false

/-- A step that does not begin a dispatch of the main thread may end the one under way. -/
theorem Executor.Steps.client (hs : s.Steps a s' es) {client : Option (DispatchArgs ι β)}
    (H : s.calls.filterMap Call.client = client.toList)
    (hdispatch : ∀ args, a ≠ .dispatch .client args) :
    (s'.calls.filterMap Call.client = client.toList ∧ es.findSome? Event.clientReturn = none) ∨
    ∃ args ret, client = some args ∧ s'.calls.filterMap Call.client = [] ∧
      es = [.dispatched .client args ret] := by
  have hkept : ∀ {calls : List (Call ι β)}, calls = s.calls →
      calls.filterMap Call.client = client.toList := by
    rintro _ rfl
    exact H
  cases hs with
  | @dispatchPut i caller args hcall =>
    cases caller with
    | worker tid => exact .inl ⟨(pending_erase hcall rfl).trans H, rfl⟩
    | client =>
      have hone : (s.calls.filterMap Call.client).length ≤ 1 := by
        rw [H]
        cases client <;> simp
      obtain ⟨hbefore, hafter⟩ := pending_erase_self hcall (f := Call.client) rfl hone
      refine .inr ⟨args, _, ?_, hafter, rfl⟩
      rw [H] at hbefore
      cases client with
      | none => simp at hbefore
      | some args' => simpa using hbefore
  | @refuse caller args ret =>
    cases caller with
    | client => exact absurd rfl (hdispatch args)
    | worker tid => exact .inl ⟨H, rfl⟩
  | @enter caller args =>
    cases caller with
    | client => exact absurd rfl (hdispatch args)
    | worker tid =>
      refine .inl ⟨?_, rfl⟩
      rw [List.filterMap_append, H]
      exact List.append_nil _
  | stop =>
    refine .inl ⟨?_, rfl⟩
    rw [List.filterMap_append, H]
    exact List.append_nil _
  | stopPut hcall => exact .inl ⟨(pending_set hcall rfl rfl).trans H, rfl⟩
  | stopPhase hcall => exact .inl ⟨(pending_set hcall rfl rfl).trans H, rfl⟩
  | stopReturn hcall => exact .inl ⟨(pending_erase hcall rfl).trans H, rfl⟩
  | @fire id created tm w => exact .inl ⟨hkept (workerDiscard_calls s w created), rfl⟩
  | @start created =>
    obtain ⟨workers, heq, -⟩ := startLoop_eq { s with running := true } 0 0 created
    exact .inl ⟨hkept (by rw [heq]), rfl⟩
  | _ => exact .inl ⟨H, rfl⟩

/-- Only a call of `executor_stop` shows its events. -/
theorem Executor.Steps.stops_eq_false (hs : s.Steps a s' es)
    (hstops : ∀ wait phase, Call.stop wait phase ∉ s.calls) : ∀ e ∈ es, e.stops = false := by
  cases hs with
  | stopPut hcall => exact absurd (List.mem_of_getElem? hcall) (hstops _ _)
  | stopReturn hcall => exact absurd (List.mem_of_getElem? hcall) (hstops _ _)
  | _ => simp [Event.stops]

end Executor

namespace MainLoop

theorem dispatchReturn_eq (es : List (SamplerEvent δ)) :
    dispatchReturn es = (Daemon.execEvents es).findSome? Event.clientReturn := by
  induction es with
  | nil => rfl
  | cons e es ih =>
    have hcons : ∀ es',
        Daemon.execEvents (e :: es') = Daemon.execEvents [e] ++ Daemon.execEvents es' :=
      fun es' => Daemon.execEvents_append [e] es'
    rw [hcons, List.findSome?_append, ← ih]
    cases e with
    | exec e =>
      cases e with
      | dispatched caller args ret => cases caller <;> rfl
      | _ => rfl
    | _ => rfl

variable {s s' : MainLoop δ} {a : MainAction δ} {es : List (MainEvent δ)}

/-- The main thread is inside a dispatch exactly while the callback waits for one. -/
def OneClient (s : MainLoop δ) : Prop :=
  s.daemon.exc.calls.filterMap Call.client = s.callback.toList

/-- The watch may fire. -/
structure Listens (s : MainLoop δ) : Prop where
  watch : s.watch = true
  running : s.running = true
  callback : s.callback = none

/-- One step, by what becomes of the callback. -/
inductive Turns (s : MainLoop δ) : MainAction δ → MainLoop δ → List (MainEvent δ) → Prop
  | again (hs : s.Listens) : Turns s (.input .again) s [.returned true]
  /-- The end of the input, or a line that is refused. -/
  | ended {status : IoStatus} (hs : s.Listens) (hstatus : status ≠ .error) :
      Turns s (.input status) { s with callback := none, watch := false, running := false }
        [.quit, .returned false]
  | deafened (hs : s.Listens) : Turns s (.input .error) { s with watch := false } [.returned false]
  | waits {line : Bytes} {d : Daemon δ} {args : SamplerArgs δ} (hs : s.Listens) :
      Turns s (.input (.normal line)) { s with daemon := d, callback := some args } []
  /-- The dispatch of the main thread, if any, does not return. -/
  | daemon {b : SamplerAction δ} {d : Daemon δ} {es : List (SamplerEvent δ)}
      (hnone : dispatchReturn es = none) :
      Turns s (.daemon b) { s with daemon := d } (es.map .daemon)
  | served {b : SamplerAction δ} {d : Daemon δ} {es : List (SamplerEvent δ)}
      {args : SamplerArgs δ} (hcallback : s.callback = some args) :
      Turns s (.daemon b) { s with daemon := d, callback := none }
        (es.map .daemon ++ [.returned true])
  /-- The queue was full. -/
  | full {b : SamplerAction δ} {d : Daemon δ} {es : List (SamplerEvent δ)}
      {args : SamplerArgs δ} (hcallback : s.callback = some args) :
      Turns s (.daemon b) { s with daemon := d, callback := none, watch := false, running := false }
        (es.map .daemon ++ [.quit, .returned false])

/-- A step of the daemon, and the call of the main thread. -/
theorem daemon_client {b : SamplerAction δ} {d : Daemon δ} {es : List (SamplerEvent δ)}
    (H : s.OneClient) (hs : Daemon.Steps ctx s.daemon b d es) (hsend : ∀ req, b ≠ .send req) :
    (d.exc.calls.filterMap Call.client = s.callback.toList ∧ dispatchReturn es = none) ∨
    ∃ args ret, s.callback = some args ∧ d.exc.calls.filterMap Call.client = [] ∧
      dispatchReturn es = some ret := by
  rw [dispatchReturn_eq]
  rcases hs.exc_cases with ⟨hexc, hnone⟩ | ⟨c, hexc, htold⟩
  · refine .inl ⟨by rw [hexc]; exact H, by rw [hnone]; rfl⟩
  · have hdispatch : ∀ args, c ≠ .dispatch .client args := by
      cases htold with
      | send => exact absurd rfl (hsend _)
      | _ => simp
    rcases hexc.client H hdispatch with hnone | ⟨args, ret, hargs, hcalls, hes⟩
    · exact .inl hnone
    · refine .inr ⟨args, ret, hargs, hcalls, ?_⟩
      rw [hes]
      rfl

theorem step_turns (hsound : s.Sound) (H : s.OneClient)
    (hs : (mainSystem δ ctx lib stray).step s a = some (s', es)) :
    s.Turns a s' es ∧ s'.OneClient := by
  change s.step ctx lib stray a = some (s', es) at hs
  cases a with
  | daemon b =>
    simp only [step, Option.ite_none_right_eq_some, Option.map_eq_some_iff] at hs
    obtain ⟨hmay, ⟨d, es'⟩, hstep, heq⟩ := hs
    have hsend : ∀ req, b ≠ .send req := by
      rintro req rfl
      simp [mayMove] at hmay
    have hsteps := @Daemon.step_cases _ ctx _ _ _ _ hstep
    rcases daemon_client H hsteps hsend with ⟨hcalls, hnone⟩ | ⟨args, ret, hargs, hcalls, hret⟩
    · simp only [resume, hnone, Prod.mk.injEq] at heq
      obtain ⟨rfl, rfl⟩ := heq
      exact ⟨.daemon hnone, hcalls⟩
    · simp only [resume, hret, handled] at heq
      split at heq
      · obtain ⟨rfl, rfl⟩ := Prod.mk.inj heq
        exact ⟨.served hargs, hcalls⟩
      · obtain ⟨rfl, rfl⟩ := Prod.mk.inj heq
        exact ⟨.full hargs, hcalls⟩
  | input status =>
    simp only [step, Option.ite_none_right_eq_some, Bool.and_eq_true, Option.isNone_iff_eq_none]
      at hs
    obtain ⟨⟨⟨hwatch, hrunning⟩, hidle⟩, hs⟩ := hs
    have hlistens : s.Listens := ⟨hwatch, hrunning, hidle⟩
    have hnone : s.daemon.exc.calls.filterMap Call.client = [] := by
      rw [H, hidle]
      rfl
    cases status with
    | again =>
      cases hs
      exact ⟨.again hlistens, H⟩
    | error =>
      cases hs
      exact ⟨.deafened hlistens, H⟩
    | eof =>
      simp only [vmonIoCallback, Option.some.injEq, Prod.mk.injEq] at hs
      obtain ⟨rfl, rfl⟩ := hs
      rw [hidle]
      exact ⟨.ended hlistens (by simp), hnone⟩
    | normal line =>
      cases hparse : samplerParseRequest lib stray line line.length with
      | error err =>
        have hcode : requestCode (.error err) ≠ 0 := by simp [requestCode]
        simp only [vmonIoCallback, samplerHandleRequest, hparse, handled, hcode, if_false,
          Option.some.injEq, Prod.mk.injEq] at hs
        obtain ⟨rfl, rfl⟩ := hs
        exact ⟨.ended hlistens (by simp), hnone⟩
      | ok sr =>
        have hserving := hsound hrunning
        rw [hidle] at hserving
        obtain ⟨d, hcallback, hd⟩ := vmonIoCallback_accepted ctx hserving hparse
        rw [hcallback] at hs
        obtain ⟨rfl, rfl⟩ := Prod.mk.inj (Option.some.inj hs)
        exact ⟨.waits hlistens, hd.client⟩

/-- The event belongs to a call of `executor_stop`. -/
def stops : MainEvent δ → Bool
  | .daemon (.exec e) => e.stops
  | _ => false

/-- No such event while the loop runs. -/
theorem stops_step (hsound : s.Sound) (hs : (mainSystem δ ctx lib stray).step s a = some (s', es)) :
    ∀ e ∈ es, stops e = true → s.running = false := by
  intro e he hstops
  by_contra hrunning
  have hserving := hsound (by simpa using hrunning)
  cases e with
  | daemon d =>
    cases d with
    | exec e =>
      have hmem : SamplerEvent.exec e ∈ es.filterMap MainEvent.daemonEvent :=
        List.mem_filterMap.mpr ⟨_, he, rfl⟩
      rcases daemon_cases hs with ⟨-, hnone⟩ | ⟨b, hb, -⟩
      · rw [hnone] at hmem
        cases hmem
      · have hexec : e ∈ Daemon.execEvents (es.filterMap MainEvent.daemonEvent) :=
          List.mem_filterMap.mpr ⟨_, hmem, rfl⟩
        rcases (Daemon.step_cases hb).exc_cases with ⟨-, hnone⟩ | ⟨c, hexc, -⟩
        · rw [hnone] at hexec
          cases hexec
        · have hfalse := hexc.stops_eq_false hserving.stops e hexec
          simp only [stops] at hstops
          rw [hfalse] at hstops
          cases hstops
    | _ => cases hstops
  | _ => cases hstops

end MainLoop

/-! ## The laws -/

def MainEvent.isQuit : MainEvent δ → Bool
  | .quit => true
  | _ => false

def MainEvent.isReturn : MainEvent δ → Bool
  | .returned _ => true
  | _ => false

def MainAction.isInput : MainAction δ → Bool
  | .input _ => true
  | _ => false

namespace MainLoop

/-- What holds of the loop after the moves and their history. -/
structure Life (moves : List (MainMove δ)) (h : List (MainEvent δ)) (s : MainLoop δ) : Prop where
  /-- The loop runs until it is told to quit. -/
  running_iff : s.running = true ↔ .quit ∉ h
  /-- The watch is there until the callback returns `FALSE`. -/
  watch_iff : s.watch = true ↔ .returned false ∉ h
  quit_once : h.countP MainEvent.isQuit ≤ 1
  /-- The loop runs on without a watch after an error on the input, and only then. -/
  deaf_iff : s.running = true ∧ s.watch = false ↔ ∃ m ∈ moves, m.action = .input .error
  /-- No watch outlives the loop. -/
  quits : s.running = false → s.watch = false
  callback : s.callback.isSome = true → s.watch = true ∧ s.running = true
  /-- Each time the watch fires the callback returns once, unless it still waits. -/
  returns : moves.countP (fun m => m.action.isInput) =
    h.countP MainEvent.isReturn + if s.callback.isSome then 1 else 0
  /-- Nobody stops the executor before the loop was told to quit. -/
  stops_after : ∀ h₁ h₂ e, h = h₁ ++ e :: h₂ → stops e = true → .quit ∈ h₁

namespace Life

variable {moves : List (MainMove δ)} {h es : List (MainEvent δ)} {s s' : MainLoop δ}
  {a : MainAction δ}

/-- An event of a stop comes from a step after the quit. -/
theorem stops_append (H : Life moves h s) (hstops : ∀ e ∈ es, stops e = true → s.running = false) :
    ∀ h₁ h₂ e, h ++ es = h₁ ++ e :: h₂ → stops e = true → .quit ∈ h₁ := by
  intro h₁ h₂ e heq he
  have hquit : e ∈ es → .quit ∈ h := by
    intro hmem
    by_contra hnot
    have hrunning := H.running_iff.mpr hnot
    rw [hstops e hmem he] at hrunning
    cases hrunning
  rcases List.append_eq_append_iff.mp heq with ⟨as, rfl, hes⟩ | ⟨bs, rfl, hbs⟩
  · exact List.mem_append_left _ (hquit (by rw [hes]; simp))
  · cases bs with
    | nil =>
      have hmem : e ∈ es := by
        rw [List.nil_append] at hbs
        rw [← hbs]
        exact List.mem_cons_self
      simpa using hquit hmem
    | cons b bs =>
      rw [List.cons_append, List.cons.injEq] at hbs
      obtain ⟨rfl, -⟩ := hbs
      exact H.stops_after h₁ bs _ rfl he

theorem step (H : Life moves h s) (hs : s.Turns a s' es)
    (hstops : ∀ e ∈ es, stops e = true → s.running = false) :
    Life (moves ++ [⟨h, s, a⟩]) (h ++ es) s' := by
  have hafter := H.stops_append hstops
  have hmoves : ∀ a, (moves ++ [(⟨h, s, a⟩ : MainMove δ)]).countP (fun m => m.action.isInput) =
      moves.countP (fun m => m.action.isInput) + if a.isInput then 1 else 0 := by
    intro a
    rw [List.countP_append, List.countP_singleton]
  have hreturns := H.returns
  -- what the steps of the daemon alone leave of a history
  have hquiet : ∀ es : List (SamplerEvent δ),
      (es.map MainEvent.daemon).countP MainEvent.isQuit = 0 ∧
      (es.map MainEvent.daemon).countP MainEvent.isReturn = 0 := by
    intro es
    constructor <;> rw [List.countP_eq_zero] <;> rintro e he <;>
      obtain ⟨e', -, rfl⟩ := List.mem_map.mp he <;> simp [MainEvent.isQuit, MainEvent.isReturn]
  have hnever : s.watch = true → ∀ m ∈ moves, m.action ≠ .input .error := by
    intro hwatch m hm herror
    have hdeaf := (H.deaf_iff.mpr ⟨m, hm, herror⟩).2
    rw [hwatch] at hdeaf
    cases hdeaf
  have hfirst : s.running = true → h.countP MainEvent.isQuit = 0 := by
    intro hrunning
    rw [List.countP_eq_zero]
    intro e he hquit
    cases e <;> simp only [MainEvent.isQuit, Bool.false_eq_true] at hquit
    exact H.running_iff.mp hrunning he
  cases hs with
  | again hl =>
    refine ⟨by simpa using H.running_iff, by simpa using H.watch_iff,
      by simpa [List.countP_append, MainEvent.isQuit] using H.quit_once,
      by simpa using H.deaf_iff, H.quits, H.callback, ?_, hafter⟩
    rw [hmoves, List.countP_append, hreturns]
    simp [MainAction.isInput, MainEvent.isReturn, hl.callback]
  | ended hl hstatus =>
    refine ⟨by simp, by simp, ?_, ?_, fun _ => rfl, by simp, ?_, hafter⟩
    · rw [List.countP_append, hfirst hl.running]
      simp [List.countP_cons, MainEvent.isQuit]
    · simpa [hstatus] using hnever hl.watch
    · rw [hmoves, List.countP_append, hreturns]
      simp [MainAction.isInput, MainEvent.isReturn, hl.callback]
  | deafened hl =>
    refine ⟨by simpa using H.running_iff, by simp,
      by simpa [List.countP_append, MainEvent.isQuit] using H.quit_once,
      by simp [hl.running], fun _ => rfl, by simp [hl.callback], ?_, hafter⟩
    rw [hmoves, List.countP_append, hreturns]
    simp [MainAction.isInput, MainEvent.isReturn, hl.callback]
  | waits hl =>
    refine ⟨by simpa using H.running_iff, by simpa using H.watch_iff, by simpa using H.quit_once,
      by simpa using H.deaf_iff, H.quits, fun _ => ⟨hl.watch, hl.running⟩, ?_, hafter⟩
    rw [hmoves, List.append_nil, hreturns]
    simp [MainAction.isInput, hl.callback]
  | @daemon b d es hnone =>
    obtain ⟨hquit, hreturn⟩ := hquiet es
    refine ⟨by simpa using H.running_iff, by simpa using H.watch_iff,
      by simpa [List.countP_append, hquit] using H.quit_once,
      by simpa using H.deaf_iff, H.quits, H.callback, ?_, hafter⟩
    rw [hmoves, List.countP_append, hreturns, hreturn]
    simp [MainAction.isInput]
  | @served b d es args hcallback =>
    obtain ⟨hquit, hreturn⟩ := hquiet es
    refine ⟨by simpa using H.running_iff, by simpa using H.watch_iff,
      by simpa [List.countP_append, hquit, MainEvent.isQuit] using H.quit_once,
      by simpa using H.deaf_iff, H.quits, by simp, ?_, hafter⟩
    rw [hmoves, List.countP_append, List.countP_append, hreturns, hreturn]
    simp [MainAction.isInput, MainEvent.isReturn, hcallback]
  | @full b d es args hcallback =>
    obtain ⟨hquit, hreturn⟩ := hquiet es
    obtain ⟨hwatch, hrunning⟩ := H.callback (by simp [hcallback])
    refine ⟨by simp, by simp, ?_, ?_, fun _ => rfl, by simp, ?_, hafter⟩
    · rw [List.countP_append, List.countP_append, hfirst hrunning, hquit]
      simp [List.countP_cons, MainEvent.isQuit]
    · simpa using hnever hwatch
    · rw [hmoves, List.countP_append, List.countP_append, hreturns, hreturn]
      simp [MainAction.isInput, MainEvent.isReturn, hcallback]

end Life

variable {n cap : ℕ} {moves : List (MainMove δ)} {h h' : List (MainEvent δ)} {s s' : MainLoop δ}

/-- The loop runs without a watch. -/
structure Deaf (s : MainLoop δ) : Prop where
  running : s.running = true
  watch : s.watch = false
  callback : s.callback = none

/-- A deaf loop stays one: what moves are the threads of the executor. -/
theorem Deaf.step {a : MainAction δ} {es : List (MainEvent δ)} (H : s.Deaf) (hsound : s.Sound)
    (hs : (mainSystem δ ctx lib stray).step s a = some (s', es)) :
    s'.Deaf ∧ ∀ e ∈ es, ∃ d, e = .daemon d ∧
      ∀ ev, d = .exec ev → ev.clientReturn = none ∧ ev.stops = false := by
  have hone : s.OneClient := by
    rw [OneClient, H.callback]
    simpa [H.callback] using (hsound H.running).client
  have hnever : ¬s.Listens := by
    intro hl
    have hwatch := hl.watch
    rw [H.watch] at hwatch
    cases hwatch
  have hstops := stops_step hsound hs
  cases (step_turns hsound hone hs).1 with
  | again hl => exact absurd hl hnever
  | ended hl => exact absurd hl hnever
  | deafened hl => exact absurd hl hnever
  | waits hl => exact absurd hl hnever
  | served hcallback => rw [H.callback] at hcallback; cases hcallback
  | full hcallback => rw [H.callback] at hcallback; cases hcallback
  | daemon hnone =>
    refine ⟨⟨H.running, H.watch, H.callback⟩, ?_⟩
    intro e he
    obtain ⟨d, hd, rfl⟩ := List.mem_map.mp he
    refine ⟨d, rfl, ?_⟩
    rintro ev rfl
    constructor
    · rw [dispatchReturn_eq, List.findSome?_eq_none_iff] at hnone
      exact hnone ev (List.mem_filterMap.mpr ⟨_, hd, rfl⟩)
    · rw [← Bool.not_eq_true]
      intro hev
      have hstopped := hstops _ he hev
      rw [H.running] at hstopped
      cases hstopped

theorem oneClient_of_run (hr : (mainSystem δ ctx lib stray).Run (.started n cap) moves h s) :
    s.OneClient := by
  induction hr with
  | init => exact (Executor.Serving.of_started n cap).client
  | step hr hs ih => exact (step_turns (sound_of_reach ⟨_, hr, fun _ _ => trivial⟩) ih hs).2

end MainLoop

variable {n cap : ℕ} {moves : List (MainMove δ)} {h h' : List (MainEvent δ)} {s s' : MainLoop δ}

/-- **The life of the main loop**, along every run. -/
theorem main_loop_life (hr : (mainSystem δ ctx lib stray).Run (.started n cap) moves h s) :
    MainLoop.Life moves h s := by
  induction hr with
  | init => exact ⟨by simp [MainLoop.started], by simp [MainLoop.started], by simp,
      by simp [MainLoop.started], by simp [MainLoop.started], by simp [MainLoop.started],
      by simp [MainLoop.started], by simp⟩
  | step hr hs ih =>
    have hsound := MainLoop.sound_of_reach ⟨_, hr, fun _ _ => trivial⟩
    exact ih.step (MainLoop.step_turns hsound (MainLoop.oneClient_of_run hr) hs).1
      (MainLoop.stops_step hsound hs)

/-- **An error on the input is for ever.** Where the loop runs without a watch, it does so in every
state from there on: it reads nothing, sends nothing, and neither it nor the executor ends. -/
theorem io_error_deafens
    (hr : (mainSystem δ ctx lib stray).Reach (fun _ => True) (.started n cap) h s)
    (hrunning : s.running = true) (hwatch : s.watch = false)
    (hr' : (mainSystem δ ctx lib stray).Reach (fun _ => True) s h' s') :
    (s'.running = true ∧ s'.watch = false ∧ s'.daemon.exc.running = true) ∧
      ∀ e ∈ h', ∃ d, e = .daemon d ∧
        ∀ ev, d = .exec ev → ev.clientReturn = none ∧ ev.stops = false := by
  have hidle : s.callback = none := by
    obtain ⟨moves, hrun, -⟩ := hr
    rw [← Option.not_isSome_iff_eq_none]
    intro hsome
    have hlisten := (main_loop_life hrun).callback hsome
    rw [hwatch] at hlisten
    cases hlisten.1
  have hinv : s'.Deaf ∧ ∀ e ∈ h', ∃ d, e = .daemon d ∧
      ∀ ev, d = .exec ev → ev.clientReturn = none ∧ ev.stops = false := by
    refine Lts.Reach.invariant (P := fun h' s' => s'.Deaf ∧ ∀ e ∈ h', ∃ d, e = .daemon d ∧
      ∀ ev, d = .exec ev → ev.clientReturn = none ∧ ev.stops = false) ?_ ?_ hr'
    · exact ⟨⟨hrunning, hwatch, hidle⟩, by simp⟩
    · intro h₁ s₁ a s₂ es hr₁ ⟨hdeaf, hquiet⟩ _ hs
      have hsound := MainLoop.sound_of_reach (hr.trans hr₁ fun _ _ => trivial)
      obtain ⟨hdeaf', hes⟩ := hdeaf.step hsound hs
      refine ⟨hdeaf', fun e he => ?_⟩
      rcases List.mem_append.mp he with he | he
      · exact hquiet e he
      · exact hes e he
  have hsound := MainLoop.sound_of_reach (hr.trans hr' fun _ _ => trivial)
  exact ⟨⟨hinv.1.running, hinv.1.watch, (hsound hinv.1.running).running⟩, hinv.2⟩

/-! ## A request, an error, and the request goes on -/

theorem main_loop_life_one_request : ∃ (moves : List (MainMove ℕ)) (h : List (MainEvent ℕ))
    (s : MainLoop ℕ),
    h.countP MainEvent.isReturn = 2 ∧ s.watch = false ∧ MainLoop.Life moves h s := by
  obtain ⟨moves, h, s, hr, -, hp⟩ := Lts.exists_run_of_trace reportSystem (.started 1 1)
    (serveSteps reportEnv ++ [.input .error])
    (fun _ h s => h.countP MainEvent.isReturn == 2 && !s.watch) (by decide +kernel)
  simp only [Bool.and_eq_true, beq_iff_eq, Bool.not_eq_true'] at hp
  exact ⟨moves, h, s, hp.1, hp.2, main_loop_life hr⟩

theorem io_error_deafens_serving : ∃ (h' : List (MainEvent ℕ)) (s' : MainLoop ℕ),
    h' ≠ [] ∧ (s'.running = true ∧ s'.watch = false ∧ s'.daemon.exc.running = true) ∧
      ∀ e ∈ h', ∃ d, e = .daemon d ∧
        ∀ ev, d = .exec ev → ev.clientReturn = none ∧ ev.stops = false := by
  -- the error strikes while a worker has a request in its hands
  obtain ⟨h, s, hr, hp⟩ := Lts.exists_reach_of_exec reportSystem (fun _ => true) (.started 1 1)
    (serveSteps reportEnv ++ [.input .error]) (fun _ s => s.running && !s.watch &&
      (reportSystem.exec (fun _ => true) [] s
        (List.replicate 3 (.daemon (.collect 0 reportEnv)))).any fun r => !r.1.isEmpty)
    (by decide +kernel)
  simp only [Bool.and_eq_true, Bool.not_eq_true'] at hp
  obtain ⟨⟨hrunning, hwatch⟩, hp⟩ := hp
  obtain ⟨h', s', hr', hne⟩ := Lts.exists_reach_of_exec reportSystem (fun _ => true) s
    (List.replicate 3 (.daemon (.collect 0 reportEnv))) (fun h _ => !h.isEmpty) hp
  refine ⟨h', s', by simpa using hne, ?_⟩
  exact io_error_deafens (hr.mono fun _ _ => trivial) hrunning hwatch
    (hr'.mono fun _ _ => trivial)

end Vmon
