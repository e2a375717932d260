import Vmon.Executor.Pool
import Vmon.MainLoop
import Vmon.Sampler.Responses

/-!
# The program is a task pool

Three levels in two steps. The main loop adds to the sampler that it reads lines, and sends a
request for each line that it accepts (`MainLoop.simulation`). The sampler adds to the executor
what its task functions do (`Daemon.simulation`). Under both is a pool of tasks, whatever the
threads do and libvirt answers (`program_refines_pool`).

## Main definitions

* `MainEvent.daemonEvent`, `SamplerEvent.toPool` — what the levels below show.
* `Readable`, `SamplerMove.SendsRead` — the requests that the main loop sends.
* `MainLoop.daemon_cases` — a step of the main loop, seen from the sampler.
-/

namespace Vmon

variable {δ : Type} {ctx : VmonContext} {lib : UuidLib} {stray : ℕ → Bool}

/-! ## The sampler on the executor -/

/-- The events of the executor among those of the sampler. -/
def SamplerEvent.execEvent : SamplerEvent δ → Option (ExecutorEvent δ)
  | .exec e => some e
  | _ => none

abbrev SamplerWork := TaskFunction SamplerFunction
abbrev SamplerCollect := TaskCollect SamplerFunction

/-- What a pool sees of the sampler. -/
def SamplerEvent.toPool (e : SamplerEvent δ) :
    Option (PoolEvent SamplerWork SamplerCollect (VmonRequest δ)) :=
  e.execEvent.bind Event.toPool

theorem filterMap_toPool (es : List (SamplerEvent δ)) :
    es.filterMap SamplerEvent.toPool = (Daemon.execEvents es).filterMap Event.toPool := by
  rw [Daemon.execEvents, List.filterMap_filterMap]
  apply List.filterMap_congr
  intro e _
  cases e <;> rfl

/-- The sampler simulates the pool. -/
def Daemon.simulation (ok : SamplerMove δ → Prop) {n cap : ℕ} (hfit : SlotsFit cap taskDataSize) :
    Simulation (samplerSystem δ ctx) ok (Daemon.started n cap)
      (poolSystem SamplerWork SamplerCollect (VmonRequest δ) cap) (fun _ => True) .empty
      SamplerEvent.toPool where
  rel _ s p := s.exc.Embodies cap p
  init := .of_started hfit
  step := by
    intro h s s' a es p _ _ hrel _ hs
    rw [filterMap_toPool es]
    rcases (Daemon.step_cases hs).exc_cases with ⟨hexc, hnone⟩ | ⟨b, hexc, -⟩
    · refine ⟨p, .inl ⟨by rw [hnone]; rfl, rfl⟩, ?_⟩
      rwa [hexc]
    · exact hrel.step hexc _

/-! ## The main loop on the sampler -/

/-- The events of the sampler among those of the main loop. -/
def MainEvent.daemonEvent : MainEvent δ → Option (SamplerEvent δ)
  | .daemon e => some e
  | _ => none

theorem daemonEvent_map (es : List (SamplerEvent δ)) :
    (es.map .daemon).filterMap MainEvent.daemonEvent = es := by
  rw [List.filterMap_map]
  exact List.filterMap_some

/-- What some line asks for. -/
def Readable (lib : UuidLib) (stray : ℕ → Bool) (req : VmonRequest δ) : Prop :=
  ∃ line sr, samplerParseRequest lib stray line line.length = .ok sr ∧ req = .ofSample sr

/-- The main loop does not start the executor, and what it sends was read off a line. -/
def SamplerMove.SendsRead (lib : UuidLib) (stray : ℕ → Bool) (m : SamplerMove δ) : Prop :=
  match m.action with
  | .send req => Readable lib stray req
  | .start _ => False
  | _ => True

namespace MainLoop

variable {s s' : MainLoop δ} {a : MainAction δ} {es : List (MainEvent δ)}

theorem handled_daemon (s : MainLoop δ) (err : ℤ) : (s.handled err).1.daemon = s.daemon := by
  unfold handled
  split <;> rfl

theorem handled_events (s : MainLoop δ) (err : ℤ) :
    (s.handled err).2.filterMap MainEvent.daemonEvent = [] := by
  unfold handled
  split <;> rfl

theorem resume_daemon (s : MainLoop δ) (r : Daemon δ × List (SamplerEvent δ)) :
    (s.resume r).1.daemon = r.1 ∧ (s.resume r).2.filterMap MainEvent.daemonEvent = r.2 := by
  unfold resume
  split
  · exact ⟨rfl, daemonEvent_map r.2⟩
  · refine ⟨handled_daemon _ _, ?_⟩
    rw [List.filterMap_append, daemonEvent_map, handled_events, List.append_nil]

/-- **A step of the main loop is a step of the sampler, or none**: what the loop sends is what
it reads, and it stops the executor when it was told to quit. -/
theorem daemon_cases (hs : (mainSystem δ ctx lib stray).step s a = some (s', es)) :
    (s'.daemon = s.daemon ∧ es.filterMap MainEvent.daemonEvent = []) ∨
    ∃ b, (samplerSystem δ ctx).step s.daemon b =
        some (s'.daemon, es.filterMap MainEvent.daemonEvent) ∧
      ((a = .daemon b ∧ s.mayMove b = true) ∨
        ∃ line sr, a = .input (.normal line) ∧
          samplerParseRequest lib stray line line.length = .ok sr ∧ b = .send (.ofSample sr)) := by
  change s.step ctx lib stray a = some (s', es) at hs
  cases a with
  | daemon b =>
    simp only [step, Option.ite_none_right_eq_some, Option.map_eq_some_iff] at hs
    obtain ⟨hmay, r, hr, heq⟩ := hs
    obtain ⟨hdaemon, hevents⟩ := resume_daemon s r
    rw [heq] at hdaemon hevents
    refine .inr ⟨b, ?_, .inl ⟨rfl, hmay⟩⟩
    rw [hdaemon, hevents]
    exact hr
  | input status =>
    simp only [step, Option.ite_none_right_eq_some] at hs
    obtain ⟨-, hs⟩ := hs
    cases status with
    | normal line =>
      simp only [vmonIoCallback, samplerHandleRequest] at hs
      cases hparse : samplerParseRequest lib stray line line.length with
      | error err =>
        simp only [hparse, Option.some.injEq] at hs
        refine .inl ⟨?_, ?_⟩
        · rw [← handled_daemon s, hs]
        · rw [← handled_events s, hs]
      | ok sr =>
        simp only [hparse, Option.map_eq_some_iff] at hs
        obtain ⟨r, hr, heq⟩ := hs
        obtain ⟨hdaemon, hevents⟩ := resume_daemon
          { s with callback := some (samplerSendRequest ctx (.ofSample sr)) } r
        rw [heq] at hdaemon hevents
        refine .inr ⟨.send (.ofSample sr), ?_, .inr ⟨line, sr, rfl, hparse, rfl⟩⟩
        rw [hdaemon, hevents]
        exact hr
    | error | eof | again =>
      simp only [vmonIoCallback, Option.some.injEq, Prod.mk.injEq] at hs
      obtain ⟨rfl, rfl⟩ := hs
      exact .inl ⟨rfl, rfl⟩

/-- The main loop simulates the sampler. -/
def simulation (ok : MainMove δ → Prop) (n cap : ℕ) :
    Simulation (mainSystem δ ctx lib stray) ok (.started n cap) (samplerSystem δ ctx)
      (SamplerMove.SendsRead lib stray) (Daemon.started n cap) MainEvent.daemonEvent where
  rel _ s d := s.daemon = d
  init := rfl
  step := by
    rintro h s s' a es d _ _ rfl _ hs
    rcases daemon_cases hs with ⟨hdaemon, hnone⟩ | ⟨b, hb, ⟨rfl, hmay⟩ | ⟨line, sr, rfl, hparse, rfl⟩⟩
    · exact ⟨s.daemon, .inl ⟨hnone, rfl⟩, hdaemon⟩
    · refine ⟨s'.daemon, .inr ⟨b, ?_, hb⟩, rfl⟩
      cases b <;> simp [mayMove, SamplerMove.SendsRead] at hmay ⊢
    · have hread : Readable lib stray (.ofSample sr : VmonRequest δ) := ⟨line, sr, hparse, rfl⟩
      exact ⟨s'.daemon, .inr ⟨.send (.ofSample sr), hread, hb⟩, rfl⟩

end MainLoop

/-! ## The program -/

/-- What a pool sees of the program. -/
def MainEvent.toPool (e : MainEvent δ) :
    Option (PoolEvent SamplerWork SamplerCollect (VmonRequest δ)) :=
  e.daemonEvent.bind SamplerEvent.toPool

/-- **The program is a task pool.** What every run of the main loop shows is what a run of the
pool shows: what it accepted is taken in that order, each task by one worker, and is run once
and collected once. -/
theorem program_refines_pool {n cap : ℕ} {h : List (MainEvent δ)} {s : MainLoop δ}
    (hfit : SlotsFit cap taskDataSize)
    (hr : (mainSystem δ ctx lib stray).Reach (fun _ => True) (.started n cap) h s) :
    ∃ p, (poolSystem SamplerWork SamplerCollect (VmonRequest δ) cap).Reach (fun _ => True) .empty
        (h.filterMap MainEvent.toPool) p ∧
      p.Laws cap (h.filterMap MainEvent.toPool) ∧ s.daemon.exc.Embodies cap p := by
  obtain ⟨p, hp, -, -, rfl, hrel⟩ :=
    ((MainLoop.simulation _ n cap).trans (Daemon.simulation _ hfit)).reach hr
  exact ⟨p, hp, TaskPool.laws_of_reach hp, hrel⟩

/-! ## One request -/

def sampleLib : UuidLib := ⟨fun _ => [], fun _ => none⟩

/-- A request for nothing is read and put, and its worker goes on to its collect function. -/
def serveSteps (env : Env ℕ) : List (MainAction ℕ) :=
  [MainAction.input (.normal (lit "\x7b\x7d\n")), .daemon (.call 0 env)] ++
    List.replicate 4 (MainAction.daemon (.thread 0)) ++ [MainAction.daemon (.work 0 env)] ++
    List.replicate 4 (MainAction.daemon (.thread 0))

/-- Its collect function writes one record. -/
def reportSteps (env : Env ℕ) : List (MainAction ℕ) :=
  serveSteps env ++ List.replicate 3 (MainAction.daemon (.collect 0 env))

/-- A record of domain `0`. -/
def reportEnv : Env ℕ := sampleEnv none (some [⟨0, []⟩])

abbrev reportSystem : Lts (MainLoop ℕ) (MainAction ℕ) (MainEvent ℕ) :=
  mainSystem ℕ (sampleContext.withBulk true) sampleLib fun _ => false

theorem program_refines_pool_one_request : ∃ (h : List (MainEvent ℕ)) (s : MainLoop ℕ)
    (p : TaskPool SamplerWork SamplerCollect (VmonRequest ℕ)),
    (h.filterMap MainEvent.toPool).length = 6 ∧
      (poolSystem SamplerWork SamplerCollect (VmonRequest ℕ) 1).Reach (fun _ => True) .empty
        (h.filterMap MainEvent.toPool) p ∧
      p.Laws 1 (h.filterMap MainEvent.toPool) ∧ s.daemon.exc.Embodies 1 p := by
  obtain ⟨h, s, hr, hlen⟩ := Lts.exists_reach_of_exec reportSystem (fun _ => true) (.started 1 1)
    (reportSteps reportEnv) (fun h _ => (h.filterMap MainEvent.toPool).length == 6)
    (by decide +kernel)
  obtain ⟨p, hp, hlaws, hrel⟩ := program_refines_pool
    (by decide : SlotsFit (1 : ℕ) taskDataSize) (hr.mono fun _ _ => trivial)
  exact ⟨h, s, p, by simpa using hlen, hp, hlaws, hrel⟩

end Vmon
