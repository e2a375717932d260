import Vmon.Scheduler

/-!
# The start of a standalone scheduler

`scheduler_start` of a standalone scheduler returns as soon as its thread exists. The thread then
makes the context and the loop and stores them in the struct, statement by statement, while the
caller already uses them: `scheduler_add` reads the context, and `scheduler_stop` the loop.

A null context is the default one, and a quit is forgotten if the loop does not run yet.
`startup_ordered_iff` says which runs notice nothing of this.

## Main definitions

* `RunPc`, `CallerPc`, `Startup` — the thread in `scheduler_run`, its caller, and the struct.
* `standaloneSystem` — the system.
* `StartupOrdered` — the promise.
* `InOrder` — the moves that keep it.
-/

namespace Vmon

namespace Standalone

/-- The next statement of `scheduler_run`. -/
inductive RunPc
  | contextNew
  | pushDefault
  | loopNew
  | loopRun
  /-- Inside `g_main_loop_run`. -/
  | running
  | loopQuit
  | exited
  deriving DecidableEq

/-- Where the caller is. -/
inductive CallerPc
  /-- It may call `scheduler_add`, and then `scheduler_stop`. -/
  | adding
  /-- In `g_thread_join` of `scheduler_stop`. -/
  | joining
  | stopped
  deriving DecidableEq

/-- `sched->context`, and `sched->loop` with whether the loop runs; null pointers are `none`. -/
structure Startup where
  context : Option ContextId
  loop : Option Bool
  run : RunPc
  caller : CallerPc
  deriving DecidableEq

inductive StartupAction
  /-- The thread runs its next statement. -/
  | thread
  | add
  | stop
  /-- `g_thread_join` returns. -/
  | join

inductive StartupEvent
  /-- `scheduler_add` attached its source to the context. -/
  | attached (c : ContextId)
  /-- `scheduler_stop` called `g_main_loop_quit` on the loop. -/
  | quit (loop : Option Bool)
  | joined
  deriving DecidableEq

namespace Startup

/-- `g_main_loop_quit`; on a null pointer it does nothing. -/
def gMainLoopQuit (s : Startup) : Startup := { s with loop := s.loop.map fun _ => false }

/-- One statement of the thread of scheduler `i`. -/
def threadStep (i : ℕ) (s : Startup) : Option Startup :=
  match s.run with
  | .contextNew => some { s with context := some (.own i), run := .pushDefault }
  | .pushDefault => some { s with run := .loopNew }
  | .loopNew => some { s with loop := some false, run := .loopRun }
  | .loopRun => some { s with loop := s.loop.map fun _ => true, run := .running }
  -- `g_main_loop_run` returns when the loop was told to quit
  | .running => if s.loop = some false then some { s with run := .loopQuit } else none
  | .loopQuit => some { s.gMainLoopQuit with run := .exited }
  | .exited => none

def step (i : ℕ) (s : Startup) : StartupAction → Option (Startup × List StartupEvent)
  | .thread => (s.threadStep i).map fun s' => (s', [])
  | .add =>
    if s.caller = .adding then some (s, [.attached (s.context.getD .default)]) else none
  | .stop =>
    if s.caller = .adding then
      some ({ s.gMainLoopQuit with caller := .joining }, [.quit s.loop])
    else none
  | .join =>
    if s.caller = .joining ∧ s.run = .exited then some ({ s with caller := .stopped }, [.joined])
    else none

/-- `scheduler_start` has returned `0`. -/
def start : Startup := { context := none, loop := none, run := .contextNew, caller := .adding }

/-- The struct, as the other results about schedulers have it. -/
def scheduler (s : Startup) : Scheduler :=
  { context := s.context, loop := s.loop == some true, thread := s.caller != .stopped,
    standalone := true }

end Startup

def standaloneSystem (i : ℕ) : Lts Startup StartupAction StartupEvent := ⟨Startup.step i⟩

abbrev StartupMove := Move Startup StartupAction StartupEvent

/-- **The promise**: sources go to the scheduler's own context, and a stop finds a loop that runs,
so that the thread can be joined. -/
structure StartupOrdered (i : ℕ) (h : List StartupEvent) (s : Startup) : Prop where
  own : ∀ c, .attached c ∈ h → c = .own i
  quits : ∀ loop, .quit loop ∈ h → loop = some true
  joins : s.caller = .joining →
    ∃ moves h' s', (standaloneSystem i).Run s moves h' s' ∧ s'.caller = .stopped

/-- A call comes once the thread has stored what it reads: an add needs the context, a stop the
loop, and that it runs. -/
def InOrder (m : StartupMove) : Prop :=
  match m.action with
  | .add => m.pre.context ≠ none
  | .stop => m.pre.loop = some true
  | .thread | .join => True

section Runs

variable {i : ℕ} {h : List StartupEvent} {s s' : Startup} {es : List StartupEvent}

/-- What the thread has stored, by its next statement. -/
def Startup.Stored (i : ℕ) (s : Startup) : Prop :=
  match s.run with
  | .contextNew => s.context = none ∧ s.loop = none
  | .pushDefault | .loopNew => s.context = some (.own i) ∧ s.loop = none
  | .loopRun => s.context = some (.own i) ∧ s.loop = some false
  | .running => s.context = some (.own i) ∧ s.loop.isSome = true
  | .loopQuit | .exited => s.context = some (.own i) ∧ s.loop = some false

/-- The loop was told to quit while it ran. -/
def Startup.Leaves (s : Startup) : Prop :=
  s.loop = some false ∧ (s.run = .running ∨ s.run = .loopQuit ∨ s.run = .exited)

/-- What holds in every run. -/
structure Coherent (i : ℕ) (h : List StartupEvent) (s : Startup) : Prop where
  stored : s.Stored i
  /-- Nobody but a stop ends the loop. -/
  runs : s.caller = .adding → ¬s.Leaves
  stopped : s.caller = .joining → ∃ loop, .quit loop ∈ h ∧ (loop = some true → s.Leaves)

/-- **The thread** alone: what it has stored goes with its next statement, and a loop that was told
to quit stays so. -/
theorem Startup.Stored.thread (H : s.Stored i) (hs : s.threadStep i = some s') :
    s'.Stored i ∧ s'.caller = s.caller ∧ (s.Leaves → s'.Leaves) ∧ (s'.Leaves → s.Leaves) := by
  cases hrun : s.run <;>
    simp only [Startup.Stored, Startup.threadStep, hrun, Option.some.injEq,
      Option.ite_none_right_eq_some, reduceCtorEq] at H hs
  case running =>
    obtain ⟨hquit, rfl⟩ := hs
    simp [Startup.Stored, Startup.Leaves, hrun, H, hquit]
  all_goals
    subst hs
    simp [Startup.Stored, Startup.Leaves, Startup.gMainLoopQuit, hrun, H]

/-- **A quit** changes nothing of this, and reaches a loop that runs. -/
theorem Startup.Stored.quit (H : s.Stored i) :
    s.gMainLoopQuit.Stored i ∧ (s.loop = some true → s.gMainLoopQuit.Leaves) := by
  cases hrun : s.run <;> simp only [Startup.Stored, hrun] at H <;>
    simp [Startup.Stored, Startup.Leaves, Startup.gMainLoopQuit, hrun, H]
  -- left is the quit of a loop that runs
  exact .inr

theorem coherent_start (i : ℕ) : Coherent i [] .start := by
  constructor
  · exact ⟨rfl, rfl⟩
  · simp [Startup.Leaves, Startup.start]
  · intro hcaller
    cases hcaller

theorem Coherent.step (H : Coherent i h s) {a : StartupAction}
    (hs : s.step i a = some (s', es)) : Coherent i (h ++ es) s' := by
  cases a with
  | thread =>
    simp only [Startup.step, Option.map_eq_some_iff, Prod.mk.injEq] at hs
    obtain ⟨_, hthread, rfl, rfl⟩ := hs
    obtain ⟨hstored, hcaller, hleaves, hback⟩ := H.stored.thread hthread
    rw [List.append_nil]
    refine ⟨hstored, ?_, ?_⟩
    · intro hadding hleft
      exact H.runs (hcaller ▸ hadding) (hback hleft)
    · intro hjoining
      obtain ⟨loop, hmem, hquit⟩ := H.stopped (hcaller ▸ hjoining)
      exact ⟨loop, hmem, fun hloop => hleaves (hquit hloop)⟩
  | add =>
    simp only [Startup.step, Option.ite_none_right_eq_some, Option.some.injEq, Prod.mk.injEq] at hs
    obtain ⟨hadding, rfl, rfl⟩ := hs
    refine ⟨H.stored, H.runs, ?_⟩
    intro hjoining
    rw [hadding] at hjoining
    cases hjoining
  | stop =>
    simp only [Startup.step, Option.ite_none_right_eq_some, Option.some.injEq, Prod.mk.injEq] at hs
    obtain ⟨-, rfl, rfl⟩ := hs
    obtain ⟨hstored, hleaves⟩ := H.stored.quit
    refine ⟨hstored, ?_, ?_⟩
    · intro hcaller
      cases hcaller
    · intro _
      exact ⟨s.loop, by simp, hleaves⟩
  | join =>
    simp only [Startup.step, Option.ite_none_right_eq_some, Option.some.injEq, Prod.mk.injEq] at hs
    obtain ⟨-, rfl, rfl⟩ := hs
    refine ⟨H.stored, ?_, ?_⟩
    · intro hcaller
      cases hcaller
    · intro hcaller
      cases hcaller

theorem coherent_of_run {moves : List StartupMove}
    (hr : (standaloneSystem i).Run .start moves h s) : Coherent i h s := by
  induction hr with
  | init => exact coherent_start i
  | step _ hs ih => exact ih.step hs

/-- **A loop that was told to quit** lets the thread exit, and the caller join it. -/
theorem Startup.Leaves.joins (H : s.Leaves) (hcaller : s.caller = .joining) :
    ∃ moves h' s', (standaloneSystem i).Run s moves h' s' ∧ s'.caller = .stopped := by
  -- the join, once the thread has exited
  have hjoin : ∀ moves h' (t : Startup), (standaloneSystem i).Run s moves h' t →
      t.caller = .joining → t.run = .exited →
      ∃ moves h' s', (standaloneSystem i).Run s moves h' s' ∧ s'.caller = .stopped := by
    intro moves h' t hr hjoining hexited
    have hstep : (standaloneSystem i).step t .join = some ({ t with caller := .stopped }, [.joined]) := by
      simp [standaloneSystem, Startup.step, hjoining, hexited]
    exact ⟨_, _, _, hr.step hstep, rfl⟩
  -- the last statement of the thread before it
  have hquit : ∀ moves h' (t : Startup), (standaloneSystem i).Run s moves h' t →
      t.caller = .joining → t.run = .loopQuit →
      ∃ moves h' s', (standaloneSystem i).Run s moves h' s' ∧ s'.caller = .stopped := by
    intro moves h' t hr hjoining hlast
    have hstep : (standaloneSystem i).step t .thread =
        some ({ t.gMainLoopQuit with run := .exited }, []) := by
      simp [standaloneSystem, Startup.step, Startup.threadStep, hlast]
    exact hjoin _ _ _ (hr.step hstep) hjoining rfl
  obtain ⟨hloop, hrun | hrun | hrun⟩ := H
  · have hstep : (standaloneSystem i).step s .thread = some ({ s with run := .loopQuit }, []) := by
      simp [standaloneSystem, Startup.step, Startup.threadStep, hrun, hloop]
    exact hquit _ _ _ (Lts.Run.init.step hstep) hcaller rfl
  · exact hquit _ _ _ .init hcaller hrun
  · exact hjoin _ _ _ .init hcaller hrun

/-- Before the thread has run, and while its loop does, the struct is the one that the other results
about schedulers have. -/
theorem Coherent.scheduler_eq (H : Coherent i h s) (hloop : s.loop = some true)
    (hcaller : s.caller = .adding) :
    Startup.start.scheduler = schedulerStart (schedulerInit true) true ∧
      s.scheduler = schedulerRun i Startup.start.scheduler := by
  have hcontext : s.context = some (.own i) := by
    have hstored := H.stored
    unfold Startup.Stored at hstored
    split at hstored <;> simp_all
  refine ⟨rfl, ?_⟩
  simp [Startup.scheduler, schedulerRun, hcontext, hloop, hcaller, Startup.start]

/-- What a history tells of the adds and the stop. -/
def Ordered (i : ℕ) (h : List StartupEvent) : Prop :=
  (∀ c, .attached c ∈ h → c = .own i) ∧ ∀ loop, .quit loop ∈ h → loop = some true

/-- In any run, the history decides whether the thread can be joined. -/
theorem Coherent.ordered_iff (H : Coherent i h s) : StartupOrdered i h s ↔ Ordered i h := by
  constructor
  · intro H'
    exact ⟨H'.own, H'.quits⟩
  · rintro ⟨hown, hquits⟩
    refine ⟨hown, hquits, ?_⟩
    intro hcaller
    obtain ⟨loop, hmem, hleaves⟩ := H.stopped hcaller
    exact (hleaves (hquits loop hmem)).joins hcaller

/-- **One step** adds what its move decides. -/
theorem Coherent.step_ordered_iff (H : Coherent i h s) {a : StartupAction}
    (hs : s.step i a = some (s', es)) : Ordered i es ↔ InOrder ⟨h, s, a⟩ := by
  have hcontext : s.context = none ∨ s.context = some (.own i) := by
    have hstored := H.stored
    unfold Startup.Stored at hstored
    split at hstored <;> simp [hstored.1]
  cases a with
  | thread =>
    simp only [Startup.step, Option.map_eq_some_iff, Prod.mk.injEq] at hs
    obtain ⟨_, -, -, rfl⟩ := hs
    simp [Ordered, InOrder]
  | add =>
    simp only [Startup.step, Option.ite_none_right_eq_some, Option.some.injEq, Prod.mk.injEq] at hs
    obtain ⟨-, -, rfl⟩ := hs
    rcases hcontext with hcontext | hcontext <;> simp [Ordered, InOrder, hcontext]
  | stop =>
    simp only [Startup.step, Option.ite_none_right_eq_some, Option.some.injEq, Prod.mk.injEq] at hs
    obtain ⟨-, -, rfl⟩ := hs
    simp [Ordered, InOrder]
  | join =>
    simp only [Startup.step, Option.ite_none_right_eq_some, Option.some.injEq, Prod.mk.injEq] at hs
    obtain ⟨-, -, rfl⟩ := hs
    simp [Ordered, InOrder]

theorem ordered_append {h' : List StartupEvent} :
    Ordered i (h ++ h') ↔ Ordered i h ∧ Ordered i h' := by
  simp only [Ordered, List.mem_append]
  constructor
  · rintro ⟨hown, hquits⟩
    exact ⟨⟨fun c hc => hown c (.inl hc), fun l hl => hquits l (.inl hl)⟩,
      ⟨fun c hc => hown c (.inr hc), fun l hl => hquits l (.inr hl)⟩⟩
  · rintro ⟨⟨hown, hquits⟩, ⟨hown', hquits'⟩⟩
    exact ⟨fun c hc => hc.elim (hown c) (hown' c), fun l hl => hl.elim (hquits l) (hquits' l)⟩

end Runs

/-- **The start of a standalone scheduler is ordered exactly where its caller waits for it**: every
add of the run comes after the thread has stored the context, and the stop after its loop has
started to run. Any interleaving of the thread with any adds and a stop. -/
theorem startup_ordered_iff {i : ℕ} {moves : List StartupMove} {h : List StartupEvent} {s : Startup}
    (hr : (standaloneSystem i).Run .start moves h s) :
    StartupOrdered i h s ↔ ∀ m ∈ moves, InOrder m := by
  rw [(coherent_of_run hr).ordered_iff]
  induction hr with
  | init => simp [Ordered]
  | step hrun hs ih =>
    rw [ordered_append, ih, (coherent_of_run hrun).step_ordered_iff hs]
    simp only [List.forall_mem_append, List.forall_mem_singleton]

/-- The thread reaches its loop, and then come an add and a stop. -/
theorem startup_ordered_served : ∃ (moves : List StartupMove) (h : List StartupEvent) (s : Startup),
    h = [.attached (.own 0), .quit (some true)] ∧
      (StartupOrdered 0 h s ↔ ∀ m ∈ moves, InOrder m) := by
  obtain ⟨moves, h, s, hr, -, hp⟩ := Lts.exists_run_of_trace (standaloneSystem 0) .start
    [.thread, .thread, .thread, .thread, .add, .stop]
    (fun _ h _ => h == [.attached (.own 0), .quit (some true)]) (by decide)
  exact ⟨moves, h, s, by simpa using hp, startup_ordered_iff hr⟩

/-- An add before the thread has run at all, and a stop between the making of the loop and its
start. -/
theorem startup_ordered_fails :
    ¬∀ (moves : List StartupMove) (h : List StartupEvent) (s : Startup),
      (standaloneSystem 0).Run .start moves h s → StartupOrdered 0 h s := by
  intro hall
  obtain ⟨moves, h, s, hr, -, hp⟩ := Lts.exists_run_of_trace (standaloneSystem 0) .start
    [.add, .thread, .thread, .thread, .stop]
    (fun _ h _ => h == [.attached .default, .quit (some false)]) (by decide)
  have H := hall moves h s hr
  rw [beq_iff_eq.mp hp] at H
  have hdefault := H.own .default (by simp)
  cases hdefault

end Standalone

end Vmon
