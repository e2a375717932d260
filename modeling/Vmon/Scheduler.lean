import Vmon.Executor

/-!
# Scheduled tasks

`lib/scheduler.c` over the main contexts of GLib. A scheduler attaches its timeout sources to
its own context: the default one, or where it is standalone the one its thread makes. But
`scheduler_del` goes by the bare id, which `g_source_remove` looks up in the default context
only. So the deletion of a task of a standalone scheduler cancels nothing, and takes away
whatever source of the default context has the same id (`del_cancels_iff`).

Delays are left out, since the sources of a context fire in any order. The default context has
a main loop that runs, as it has in `vmon.c`.

## Main definitions

* `MainContext` — the sources that wait in a context, and the ids it has given.
* `Scheduler`, `Process` — the struct of the source, and a process with some of them.
* `schedulerInit`, `schedulerStart`, `schedulerRun`, `schedulerStop`, `schedulerAdd`,
  `schedulerDel` — the functions.
* `WhileServing` — calls made while the loop of the scheduler runs.
* `Cancels` — what a deletion promises.
* `Executor.TimersIn` — the timers of the executor as sources of a context.
-/

namespace Vmon

variable {τ : Type}

/-! ## Main contexts -/

/-- A source, by its id and the callback it has. -/
structure Source (τ : Type) where
  id : ℕ
  task : τ
  deriving DecidableEq

/-- `GMainContext`. An id is never given again, and `0` never. -/
structure MainContext (τ : Type) where
  sources : List (Source τ)
  ids : List ℕ
  given : ∀ src ∈ sources, src.id ∈ ids
  unique : (sources.map Source.id).Nodup

namespace MainContext

def new : MainContext τ := ⟨[], [], by simp, by simp⟩

/-- `g_source_attach`, where the context gives the id `id`. -/
def attach (c : MainContext τ) (task : τ) (id : ℕ) : Option (MainContext τ) :=
  if h : id ≠ 0 ∧ id ∉ c.ids then
    some {
      sources := c.sources ++ [⟨id, task⟩]
      ids := id :: c.ids
      given := by
        intro src hsrc
        rcases List.mem_append.mp hsrc with hsrc | hsrc
        · exact List.mem_cons_of_mem id (c.given src hsrc)
        · rw [List.mem_singleton.mp hsrc]
          exact List.mem_cons_self
      unique := by
        rw [List.map_append, List.nodup_append]
        refine ⟨c.unique, by simp, ?_⟩
        intro old hold new hnew
        obtain ⟨src, hsrc, rfl⟩ := List.mem_map.mp hold
        obtain rfl : new = id := by simpa using hnew
        rintro rfl
        exact h.2 (c.given src hsrc) }
  else none

/-- Take the source with the id away, if one waits. -/
def remove (c : MainContext τ) (id : ℕ) : MainContext τ where
  sources := c.sources.filter fun src => src.id != id
  ids := c.ids
  given := fun src hsrc => c.given src (List.mem_of_mem_filter hsrc)
  unique := c.unique.sublist (List.filter_sublist.map Source.id)

/-- A source with the id waits. -/
def Waits (c : MainContext τ) (id : ℕ) : Prop := ∃ src ∈ c.sources, src.id = id

/-- The id was given, and its source is gone. -/
structure Spent (c : MainContext τ) (id : ℕ) : Prop where
  given : id ∈ c.ids
  gone : ¬c.Waits id

variable {c c' : MainContext τ} {id id' : ℕ} {task : τ}

theorem mem_remove {src : Source τ} :
    src ∈ (c.remove id).sources ↔ src ∈ c.sources ∧ src.id ≠ id := by
  simp [remove]

theorem attach_cases (h : c.attach task id = some c') :
    id ∉ c.ids ∧ c'.sources = c.sources ++ [⟨id, task⟩] ∧ c'.ids = id :: c.ids := by
  unfold attach at h
  split at h
  · next hid =>
    obtain rfl := Option.some.inj h
    exact ⟨hid.2, rfl, rfl⟩
  · cases h

theorem Spent.attach (H : c.Spent id) (h : c.attach task id' = some c') : c'.Spent id := by
  obtain ⟨hnew, hsources, hids⟩ := attach_cases h
  refine ⟨by rw [hids]; exact List.mem_cons_of_mem id' H.given, ?_⟩
  rintro ⟨src, hsrc, rfl⟩
  rw [hsources] at hsrc
  rcases List.mem_append.mp hsrc with hsrc | hsrc
  · exact H.gone ⟨src, hsrc, rfl⟩
  · rw [List.mem_singleton.mp hsrc] at H
    exact hnew H.given

theorem Spent.remove (H : c.Spent id) (id' : ℕ) : (c.remove id').Spent id :=
  ⟨H.given, fun ⟨src, hsrc, hid⟩ => H.gone ⟨src, (mem_remove.mp hsrc).1, hid⟩⟩

/-- **Removal** spends the id. -/
theorem spent_remove (h : id ∈ c.ids) : (c.remove id).Spent id :=
  ⟨h, fun ⟨_, hsrc, hid⟩ => (mem_remove.mp hsrc).2 hid⟩

end MainContext

/-! ## Schedulers -/

/-- The main contexts of a process: the default one, and the one that the thread of a
standalone scheduler makes. -/
inductive ContextId
  | default
  | own (sched : ℕ)
  deriving DecidableEq

/-- `struct Scheduler`, with whether its thread exists and its loop runs. -/
structure Scheduler where
  context : Option ContextId
  loop : Bool
  thread : Bool
  standalone : Bool
  deriving DecidableEq

/-- A process with its schedulers. A context that no thread has made yet is empty. -/
structure Process (τ : Type) where
  schedulers : List Scheduler
  contexts : ContextId → MainContext τ

inductive SchedulerEvent (τ : Type)
  /-- The call of `scheduler_add` returned the id. -/
  | added (sched id : ℕ)
  | deleted (sched id : ℕ)
  /-- A source was attached to the default context by other means. -/
  | attached (id : ℕ)
  /-- The context called the callback of one of its sources. -/
  | invoked (c : ContextId) (id : ℕ) (task : τ)
  deriving DecidableEq

/-- What moves next. -/
inductive SchedulerAction (τ : Type)
  | init (standalone : Bool)
  | start (sched : ℕ) (created : Bool)
  /-- The thread of a standalone scheduler reaches its loop. -/
  | run (sched : ℕ)
  | stop (sched : ℕ)
  | add (sched : ℕ) (task : τ) (id : ℕ)
  | del (sched : ℕ) (id : ℕ)
  | attach (task : τ) (id : ℕ)
  /-- A source fires; its callback returns `keep`. -/
  | fire (c : ContextId) (id : ℕ) (keep : Bool)

def schedulerInit (standalone : Bool) : Scheduler :=
  { context := none, loop := false, thread := false, standalone := standalone }

def schedulerStart (sched : Scheduler) (created : Bool) : Scheduler :=
  if !sched.standalone then { sched with context := some .default }
  else { sched with thread := created }

/-- `scheduler_run`, up to its call of `g_main_loop_run`. -/
def schedulerRun (i : ℕ) (sched : Scheduler) : Scheduler :=
  { sched with context := some (.own i), loop := true }

def schedulerStop (sched : Scheduler) : Scheduler :=
  if sched.standalone then { sched with loop := false, thread := false } else sched

namespace Process

def started : Process τ := ⟨[], fun _ => .new⟩

/-- `g_source_attach`; a null context is the default one. -/
def gSourceAttach (s : Process τ) (context : Option ContextId) (task : τ) (id : ℕ) :
    Option (Process τ) :=
  let c := context.getD .default
  ((s.contexts c).attach task id).map fun ctx =>
    { s with contexts := Function.update s.contexts c ctx }

/-- `g_source_remove`. -/
def gSourceRemove (s : Process τ) (id : ℕ) : Process τ :=
  { s with
    contexts := Function.update s.contexts .default ((s.contexts .default).remove id) }

@[simp] theorem gSourceRemove_default (s : Process τ) (id : ℕ) :
    (s.gSourceRemove id).contexts .default = (s.contexts .default).remove id := by
  simp [gSourceRemove]

@[simp] theorem gSourceRemove_own (s : Process τ) (id i : ℕ) :
    (s.gSourceRemove id).contexts (.own i) = s.contexts (.own i) := by
  simp [gSourceRemove]

def schedulerAdd (s : Process τ) (sched : Scheduler) (task : τ) (id : ℕ) : Option (Process τ) :=
  s.gSourceAttach sched.context task id

/-- The scheduler is unused. -/
def schedulerDel (s : Process τ) (_sched : Scheduler) (id : ℕ) : Process τ := s.gSourceRemove id

def setScheduler (s : Process τ) (i : ℕ) (sched : Scheduler) : Process τ :=
  { s with schedulers := s.schedulers.set i sched }

/-- The loop of a context runs. -/
def loops (s : Process τ) : ContextId → Bool
  | .default => true
  | .own i => (s.schedulers[i]?).any Scheduler.loop

def step (s : Process τ) : SchedulerAction τ → Option (Process τ × List (SchedulerEvent τ))
  | .init standalone =>
    some ({ s with schedulers := s.schedulers ++ [schedulerInit standalone] }, [])
  | .start i created =>
    (s.schedulers[i]?).map fun sched => (s.setScheduler i (schedulerStart sched created), [])
  | .run i =>
    ((s.schedulers[i]?).filter fun sched => sched.thread && sched.context.isNone).map fun sched =>
      (s.setScheduler i (schedulerRun i sched), [])
  | .stop i => (s.schedulers[i]?).map fun sched => (s.setScheduler i (schedulerStop sched), [])
  | .add i task id =>
    (s.schedulers[i]?).bind fun sched =>
      (s.schedulerAdd sched task id).map fun s' => (s', [.added i id])
  | .del i id =>
    (s.schedulers[i]?).map fun sched => (s.schedulerDel sched id, [.deleted i id])
  | .attach task id => (s.gSourceAttach none task id).map fun s' => (s', [.attached id])
  | .fire c id keep =>
    if s.loops c then
      ((s.contexts c).sources.find? fun src => src.id == id).map fun src =>
        (if keep then s
          else { s with contexts := Function.update s.contexts c ((s.contexts c).remove id) },
          [.invoked c id src.task])
    else none

end Process

def schedulerSystem (τ : Type) : Lts (Process τ) (SchedulerAction τ) (SchedulerEvent τ) :=
  ⟨Process.step⟩

abbrev SchedulerMove (τ : Type) := Move (Process τ) (SchedulerAction τ) (SchedulerEvent τ)

/-! ## What one step can do -/

namespace Process

variable {s s' : Process τ} {a : SchedulerAction τ} {es : List (SchedulerEvent τ)}

/-- One step, by the function that runs. -/
inductive Steps (s : Process τ) :
    SchedulerAction τ → Process τ → List (SchedulerEvent τ) → Prop
  | init {standalone : Bool} :
      Steps s (.init standalone) { s with schedulers := s.schedulers ++ [schedulerInit standalone] }
        []
  | start {i : ℕ} {created : Bool} {sched : Scheduler} (hsched : s.schedulers[i]? = some sched) :
      Steps s (.start i created) (s.setScheduler i (schedulerStart sched created)) []
  | run {i : ℕ} {sched : Scheduler} (hsched : s.schedulers[i]? = some sched)
      (hthread : sched.thread = true) (hnone : sched.context = none) :
      Steps s (.run i) (s.setScheduler i (schedulerRun i sched)) []
  | stop {i : ℕ} {sched : Scheduler} (hsched : s.schedulers[i]? = some sched) :
      Steps s (.stop i) (s.setScheduler i (schedulerStop sched)) []
  | add {i id : ℕ} {task : τ} {sched : Scheduler} {c' : MainContext τ}
      (hsched : s.schedulers[i]? = some sched)
      (hattach : (s.contexts (sched.context.getD .default)).attach task id = some c') :
      Steps s (.add i task id)
        { s with contexts := Function.update s.contexts (sched.context.getD .default) c' }
        [.added i id]
  | del {i id : ℕ} {sched : Scheduler} (hsched : s.schedulers[i]? = some sched) :
      Steps s (.del i id) (s.gSourceRemove id) [.deleted i id]
  | attach {id : ℕ} {task : τ} {c' : MainContext τ}
      (hattach : (s.contexts .default).attach task id = some c') :
      Steps s (.attach task id)
        { s with contexts := Function.update s.contexts .default c' } [.attached id]
  | fire {c : ContextId} {id : ℕ} {keep : Bool} {src : Source τ} (hloop : s.loops c = true)
      (hsrc : src ∈ (s.contexts c).sources) (hid : src.id = id) :
      Steps s (.fire c id keep)
        (if keep then s
          else { s with contexts := Function.update s.contexts c ((s.contexts c).remove id) })
        [.invoked c id src.task]

/-- **Inversion of a step.** -/
theorem step_cases (hs : (schedulerSystem τ).step s a = some (s', es)) : Steps s a s' es := by
  change s.step a = some (s', es) at hs
  cases a with
  | init standalone =>
    simp only [step, Option.some.injEq, Prod.mk.injEq] at hs
    obtain ⟨rfl, rfl⟩ := hs
    exact .init
  | start i created =>
    simp only [step, Option.map_eq_some_iff, Prod.mk.injEq] at hs
    obtain ⟨sched, hsched, rfl, rfl⟩ := hs
    exact .start hsched
  | run i =>
    simp only [step, Option.map_eq_some_iff, Option.filter_eq_some_iff, Bool.and_eq_true,
      Option.isNone_iff_eq_none, Prod.mk.injEq] at hs
    obtain ⟨sched, ⟨hsched, hthread, hnone⟩, rfl, rfl⟩ := hs
    exact .run hsched hthread hnone
  | stop i =>
    simp only [step, Option.map_eq_some_iff, Prod.mk.injEq] at hs
    obtain ⟨sched, hsched, rfl, rfl⟩ := hs
    exact .stop hsched
  | add i task id =>
    simp only [step, schedulerAdd, gSourceAttach, Option.bind_eq_some_iff, Option.map_eq_some_iff,
      Prod.mk.injEq] at hs
    obtain ⟨sched, hsched, _, ⟨c', hattach, rfl⟩, rfl, rfl⟩ := hs
    exact .add hsched hattach
  | del i id =>
    simp only [step, Option.map_eq_some_iff, Prod.mk.injEq] at hs
    obtain ⟨sched, hsched, rfl, rfl⟩ := hs
    exact .del hsched
  | attach task id =>
    simp only [step, gSourceAttach, Option.map_eq_some_iff, Prod.mk.injEq] at hs
    obtain ⟨_, ⟨c', hattach, rfl⟩, rfl, rfl⟩ := hs
    exact .attach hattach
  | fire c id keep =>
    simp only [step, Option.ite_none_right_eq_some, Option.map_eq_some_iff, Prod.mk.injEq] at hs
    obtain ⟨hloop, src, hfind, rfl, rfl⟩ := hs
    have hid := List.find?_some hfind
    exact .fire hloop (List.mem_of_find?_eq_some hfind) (by simpa using hid)

/-! ## Spent ids -/

/-- A context other than the changed one is as it was. -/
private theorem spent_update {contexts : ContextId → MainContext τ} {c c₁ : ContextId}
    {ctx : MainContext τ} {id : ℕ} (H : (contexts c).Spent id)
    (hctx : c = c₁ → ctx.Spent id) : ((Function.update contexts c₁ ctx) c).Spent id := by
  by_cases hc : c = c₁
  · rw [hc, Function.update_self]
    exact hctx hc
  · rwa [Function.update_of_ne hc]

/-- **A spent id** stays spent, and its callback is not invoked. -/
theorem Steps.spent (hs : Steps s a s' es) {c : ContextId} {id : ℕ}
    (H : (s.contexts c).Spent id) :
    (s'.contexts c).Spent id ∧ ∀ task, .invoked c id task ∉ es := by
  cases hs with
  | init => exact ⟨H, by simp⟩
  | start => exact ⟨H, by simp⟩
  | run => exact ⟨H, by simp⟩
  | stop => exact ⟨H, by simp⟩
  | add hsched hattach =>
    refine ⟨spent_update H ?_, by simp⟩
    rintro rfl
    exact H.attach hattach
  | del =>
    refine ⟨spent_update H ?_, by simp⟩
    rintro rfl
    exact H.remove _
  | attach hattach =>
    refine ⟨spent_update H ?_, by simp⟩
    rintro rfl
    exact H.attach hattach
  | @fire c₁ id₁ keep src hloop hsrc hid =>
    constructor
    · split
      · exact H
      · apply spent_update H
        rintro rfl
        exact H.remove _
    · intro task hmem
      simp only [List.mem_singleton, SchedulerEvent.invoked.injEq] at hmem
      obtain ⟨rfl, rfl, -⟩ := hmem
      exact H.gone ⟨src, hsrc, hid⟩

/-- In no run from here is the callback of a spent id invoked. -/
theorem spent_of_run {moves : List (SchedulerMove τ)} {h : List (SchedulerEvent τ)}
    {c : ContextId} {id : ℕ} (H : (s.contexts c).Spent id)
    (hr : (schedulerSystem τ).Run s moves h s') :
    (s'.contexts c).Spent id ∧ ∀ task, .invoked c id task ∉ h := by
  induction hr with
  | init => exact ⟨H, by simp⟩
  | step hr hs ih =>
    obtain ⟨hspent, hh⟩ := ih
    obtain ⟨hspent', hes⟩ := (step_cases hs).spent hspent
    refine ⟨hspent', ?_⟩
    intro task hmem
    rcases List.mem_append.mp hmem with hmem | hmem
    · exact hh task hmem
    · exact hes task hmem

/-! ## Where tasks are added -/

/-- The context of a scheduler that was started. -/
def home (i : ℕ) (sched : Scheduler) : ContextId :=
  if sched.standalone then .own i else .default

/-- The loop of the scheduler runs. -/
def Serves (s : Process τ) (i : ℕ) : Prop :=
  ∃ sched ∈ s.schedulers[i]?, sched.context.isSome = true ∧ s.loops (home i sched) = true

instance (s : Process τ) (i : ℕ) : Decidable (s.Serves i) :=
  inferInstanceAs (Decidable (∃ sched ∈ s.schedulers[i]?, _ ∧ _))

/-- A call into a scheduler is made while its loop runs. -/
def WhileServing (m : SchedulerMove τ) : Prop :=
  match m.action with
  | .add i _ _ | .del i _ => m.pre.Serves i
  | _ => True

instance (m : SchedulerMove τ) : Decidable (WhileServing m) := by
  unfold WhileServing
  split <;> infer_instance

/-- A scheduler has no context but its own, and a thread only where it is standalone. -/
structure Homed (i : ℕ) (sched : Scheduler) : Prop where
  context : ∀ c, sched.context = some c → c = home i sched
  thread : sched.thread = true → sched.standalone = true

theorem homed_init (i : ℕ) (standalone : Bool) : Homed i (schedulerInit standalone) :=
  ⟨by simp [schedulerInit], by simp [schedulerInit]⟩

theorem Homed.start {i : ℕ} {sched : Scheduler} (H : Homed i sched) (created : Bool) :
    Homed i (schedulerStart sched created) := by
  unfold schedulerStart
  split
  · next hstandalone =>
    refine ⟨?_, H.thread⟩
    rintro c hc
    obtain rfl := Option.some.inj hc
    simp [home, by simpa using hstandalone]
  · next hstandalone => exact ⟨H.context, fun _ => by simpa using hstandalone⟩

theorem Homed.run {i : ℕ} {sched : Scheduler} (H : Homed i sched) (hthread : sched.thread = true) :
    Homed i (schedulerRun i sched) := by
  refine ⟨?_, H.thread⟩
  intro c hc
  obtain rfl := Option.some.inj hc
  simp [home, schedulerRun, H.thread hthread]

theorem Homed.stop {i : ℕ} {sched : Scheduler} (H : Homed i sched) :
    Homed i (schedulerStop sched) := by
  unfold schedulerStop
  split
  · exact ⟨H.context, by simp⟩
  · exact H

/-- Every scheduler is at home, and what was added to one got its id there. -/
structure Placed (h : List (SchedulerEvent τ)) (s : Process τ) : Prop where
  homed : ∀ i sched, s.schedulers[i]? = some sched → Homed i sched
  added : ∀ i id, .added i id ∈ h → ∃ sched, s.schedulers[i]? = some sched ∧
    id ∈ (s.contexts (home i sched)).ids

/-- A scheduler in the place of one as standalone as it. -/
private theorem home_set {i : ℕ} {old new : Scheduler} (hold : s.schedulers[i]? = some old)
    (hnew : new.standalone = old.standalone) :
    ∀ j sched, s.schedulers[j]? = some sched →
      ∃ sched', (s.setScheduler i new).schedulers[j]? = some sched' ∧
        home j sched' = home j sched := by
  intro j sched hsched
  by_cases hij : i = j
  · obtain rfl : old = sched := by simpa [← hij, hold] using hsched
    refine ⟨new, ?_, by simp [home, hnew]⟩
    rw [setScheduler, ← hij, List.getElem?_set_self (List.getElem?_eq_some_iff.mp hold).1]
  · refine ⟨sched, ?_, rfl⟩
    rw [setScheduler, List.getElem?_set_ne hij, hsched]

private theorem homed_set (H : ∀ i sched, s.schedulers[i]? = some sched → Homed i sched) {i : ℕ}
    {new : Scheduler} (hnew : Homed i new) :
    ∀ j sched, (s.setScheduler i new).schedulers[j]? = some sched → Homed j sched := by
  intro j sched hsched
  by_cases hij : i = j
  · rw [setScheduler, ← hij, List.getElem?_set_self'] at hsched
    cases hold : s.schedulers[i]? with
    | none => simp [hold] at hsched
    | some old =>
      obtain rfl : new = sched := by simpa [hold] using hsched
      exact hij ▸ hnew
  · rw [setScheduler, List.getElem?_set_ne hij] at hsched
    exact H j sched hsched

private theorem ids_update {contexts : ContextId → MainContext τ} {c₁ : ContextId}
    {ctx : MainContext τ} (hctx : (contexts c₁).ids ⊆ ctx.ids) (c : ContextId) :
    (contexts c).ids ⊆ ((Function.update contexts c₁ ctx) c).ids := by
  by_cases hc : c = c₁
  · rw [hc, Function.update_self]
    exact hctx
  · rw [Function.update_of_ne hc]
    exact List.Subset.refl _

private theorem ids_attach {c c' : MainContext τ} {task : τ} {id : ℕ}
    (h : c.attach task id = some c') : c.ids ⊆ c'.ids := by
  rw [(MainContext.attach_cases h).2.2]
  exact List.subset_cons_self id c.ids

/-- What a step keeps: where a scheduler is at home, and the ids that were given. -/
theorem Steps.kept (hs : Steps s a s' es) :
    (∀ i sched, s.schedulers[i]? = some sched →
      ∃ sched', s'.schedulers[i]? = some sched' ∧ home i sched' = home i sched) ∧
    ∀ c, (s.contexts c).ids ⊆ (s'.contexts c).ids := by
  have hsame : ∀ i sched, s.schedulers[i]? = some sched →
      ∃ sched', s.schedulers[i]? = some sched' ∧ home i sched' = home i sched :=
    fun i sched hsched => ⟨sched, hsched, rfl⟩
  have hids : ∀ c, (s.contexts c).ids ⊆ (s.contexts c).ids := fun c => List.Subset.refl _
  cases hs with
  | init =>
    refine ⟨?_, hids⟩
    intro i sched hsched
    refine ⟨sched, ?_, rfl⟩
    rw [List.getElem?_append_left (List.getElem?_eq_some_iff.mp hsched).1, hsched]
  | start hsched =>
    refine ⟨home_set hsched ?_, hids⟩
    unfold schedulerStart
    split <;> rfl
  | run hsched => exact ⟨home_set hsched rfl, hids⟩
  | stop hsched =>
    refine ⟨home_set hsched ?_, hids⟩
    unfold schedulerStop
    split <;> rfl
  | add hsched hattach => exact ⟨hsame, ids_update (ids_attach hattach)⟩
  | del => exact ⟨hsame, ids_update (List.Subset.refl _)⟩
  | attach hattach => exact ⟨hsame, ids_update (ids_attach hattach)⟩
  | fire =>
    split
    · exact ⟨hsame, hids⟩
    · exact ⟨hsame, ids_update (List.Subset.refl _)⟩

/-- What was added earlier. -/
theorem Placed.earlier {h : List (SchedulerEvent τ)} (H : Placed h s) (hs : Steps s a s' es)
    {i id : ℕ} (hadded : .added i id ∈ h) :
    ∃ sched, s'.schedulers[i]? = some sched ∧ id ∈ (s'.contexts (home i sched)).ids := by
  obtain ⟨sched, hsched, hid⟩ := H.added i id hadded
  obtain ⟨hhome, hids⟩ := hs.kept
  obtain ⟨sched', hsched', heq⟩ := hhome i sched hsched
  exact ⟨sched', hsched', hids _ (by rwa [heq])⟩

theorem Placed.step {h : List (SchedulerEvent τ)} (H : Placed h s) (hok : WhileServing ⟨h, s, a⟩)
    (hs : Steps s a s' es) : Placed (h ++ es) s' := by
  refine ⟨?_, ?_⟩
  · cases hs with
    | init =>
      intro i sched hsched
      rw [List.getElem?_append] at hsched
      split at hsched
      · exact H.homed i sched hsched
      · rw [List.mem_singleton.mp (List.mem_of_getElem? hsched)]
        exact homed_init i _
    | start hsched => exact homed_set H.homed ((H.homed _ _ hsched).start _)
    | run hsched hthread => exact homed_set H.homed ((H.homed _ _ hsched).run hthread)
    | stop hsched => exact homed_set H.homed (H.homed _ _ hsched).stop
    | add => exact H.homed
    | del => exact H.homed
    | attach => exact H.homed
    | fire => split <;> exact H.homed
  · intro i id hadded
    rcases List.mem_append.mp hadded with hadded | hadded
    · exact H.earlier hs hadded
    · cases hs with
      | @add j id' task sched c' hsched hattach =>
        simp only [List.mem_singleton, SchedulerEvent.added.injEq] at hadded
        obtain ⟨rfl, rfl⟩ := hadded
        refine ⟨sched, hsched, ?_⟩
        -- the scheduler has a context, its loop being up
        obtain ⟨sched', hsched', hsome, -⟩ := hok
        obtain rfl : sched' = sched := by simpa [hsched] using hsched'.symm
        obtain ⟨c, hc⟩ := Option.isSome_iff_exists.mp hsome
        obtain rfl := (H.homed i sched' hsched).context c hc
        have hids := (MainContext.attach_cases hattach).2.2
        simp [hc, hids]
      | _ => simp at hadded

/-! ## Deletions -/

/-- What `scheduler_del` promises: the callback of the task is never invoked again, and no
other source is removed. -/
structure Cancels (s s' : Process τ) (i id : ℕ) (sched : Scheduler) : Prop where
  silent : ∀ moves h s'', (schedulerSystem τ).Run s' moves h s'' →
    ∀ task, .invoked (home i sched) id task ∉ h
  others : ∀ c, ∀ src ∈ (s.contexts c).sources, (c, src.id) ≠ (home i sched, id) →
    src ∈ (s'.contexts c).sources

/-- A source that waits in a context whose loop runs can fire. -/
theorem exists_fire {c : ContextId} {id : ℕ} (hloop : s.loops c = true)
    (hw : (s.contexts c).Waits id) :
    ∃ task, (schedulerSystem τ).step s (.fire c id true) = some (s, [.invoked c id task]) := by
  obtain ⟨src, hsrc, hid⟩ := hw
  have hfind : ((s.contexts c).sources.find? fun src => src.id == id).isSome = true :=
    List.find?_isSome.mpr ⟨src, hsrc, by simpa using hid⟩
  obtain ⟨found, hfound⟩ := Option.isSome_iff_exists.mp hfind
  exact ⟨found.task, by simp [schedulerSystem, step, hloop, hfound]⟩

/-- Removal by id takes no source of another id, and none of another context. -/
theorem mem_gSourceRemove {id : ℕ} {c : ContextId} {src : Source τ}
    (hsrc : src ∈ (s.contexts c).sources) (hne : c = .default → src.id ≠ id) :
    src ∈ ((s.gSourceRemove id).contexts c).sources := by
  cases c with
  | default =>
    rw [gSourceRemove_default]
    exact MainContext.mem_remove.mpr ⟨hsrc, hne rfl⟩
  | own i => simpa using hsrc

theorem cancels_of_default {i id : ℕ} {sched : Scheduler} (hstandalone : sched.standalone = false)
    (hid : id ∈ (s.contexts (home i sched)).ids) :
    Cancels s (s.gSourceRemove id) i id sched := by
  have hhome : home i sched = .default := by simp [home, hstandalone]
  rw [hhome] at hid
  have hspent : ((s.gSourceRemove id).contexts .default).Spent id := by
    rw [gSourceRemove_default]
    exact MainContext.spent_remove hid
  constructor
  · intro moves h s'' hr
    rw [hhome]
    exact (spent_of_run hspent hr).2
  · intro c src hsrc hne
    apply mem_gSourceRemove hsrc
    rintro rfl
    simpa [hhome] using hne

theorem cancels_of_gone {i id : ℕ} {sched : Scheduler} (hstandalone : sched.standalone = true)
    (hid : id ∈ (s.contexts (home i sched)).ids) (hown : ¬(s.contexts (.own i)).Waits id)
    (hdefault : ¬(s.contexts .default).Waits id) :
    Cancels s (s.gSourceRemove id) i id sched := by
  have hhome : home i sched = .own i := by simp [home, hstandalone]
  rw [hhome] at hid
  have hspent : ((s.gSourceRemove id).contexts (.own i)).Spent id := by
    rw [gSourceRemove_own]
    exact ⟨hid, hown⟩
  constructor
  · intro moves h s'' hr
    rw [hhome]
    exact (spent_of_run hspent hr).2
  · intro c src hsrc hne
    apply mem_gSourceRemove hsrc
    rintro rfl rfl
    exact hdefault ⟨src, hsrc, rfl⟩

/-- A task of a standalone scheduler that still waits is not cancelled. -/
theorem not_cancels_of_waits {i id : ℕ} {sched : Scheduler} (hstandalone : sched.standalone = true)
    (hloop : s.loops (home i sched) = true) (hown : (s.contexts (.own i)).Waits id) :
    ¬Cancels s (s.gSourceRemove id) i id sched := by
  intro H
  have hhome : home i sched = .own i := by simp [home, hstandalone]
  rw [hhome] at hloop
  have hown' : ((s.gSourceRemove id).contexts (.own i)).Waits id := by
    rwa [gSourceRemove_own]
  have hloop' : (s.gSourceRemove id).loops (.own i) = true := hloop
  obtain ⟨task, hfire⟩ := exists_fire hloop' hown'
  apply H.silent _ _ _ (.step .init hfire) task
  simp [hhome]

end Process

open Process

/-- **When a deletion cancels the task**: the scheduler is not standalone, or the task was gone
already and no source of the default context has its id. -/
theorem del_cancels_iff {h : List (SchedulerEvent τ)} {s s' : Process τ}
    {es : List (SchedulerEvent τ)} {i id : ℕ} {sched : Scheduler}
    (hr : (schedulerSystem τ).Reach WhileServing .started h s) (hadded : .added i id ∈ h)
    (hsched : s.schedulers[i]? = some sched) (hserves : s.Serves i)
    (hs : (schedulerSystem τ).step s (.del i id) = some (s', es)) :
    Cancels s s' i id sched ↔ sched.standalone = false ∨
      ¬(s.contexts (.own i)).Waits id ∧ ¬(s.contexts .default).Waits id := by
  have hplaced : Process.Placed h s := by
    refine Lts.Reach.invariant (P := fun h s => Process.Placed h s) ⟨by simp [started], by simp⟩ ?_ hr
    intro h s a s' es _ ih hok hs
    exact ih.step hok (step_cases hs)
  obtain ⟨sched', hsched', hid⟩ := hplaced.added i id hadded
  obtain rfl : sched' = sched := by simpa [hsched] using hsched'.symm
  obtain ⟨sched₁, hsched₁, hsome, hloop⟩ := hserves
  obtain rfl : sched₁ = sched' := by simpa [hsched] using hsched₁.symm
  cases step_cases hs with
  | del =>
    cases hstandalone : sched₁.standalone with
    | false => simp [cancels_of_default hstandalone hid]
    | true =>
      simp only [Bool.true_eq_false, false_or]
      constructor
      · intro H
        refine ⟨fun hown => not_cancels_of_waits hstandalone hloop hown H, ?_⟩
        rintro ⟨src, hsrc, rfl⟩
        have hkept := H.others .default src hsrc (by simp [home, hstandalone])
        rw [gSourceRemove_default] at hkept
        exact (MainContext.mem_remove.mp hkept).2 rfl
      · rintro ⟨hown, hdefault⟩
        exact cancels_of_gone hstandalone hid hown hdefault

/-! ## The timers of the executor -/

/-- The timeout sources of the executor are those of the context, which gives its ids in
order. -/
structure Executor.TimersIn {ι β : Type} (s : Executor ι β) (c : MainContext Timer) : Prop where
  sources : c.sources = s.timers.map fun tm => ⟨tm.id, tm⟩
  ids : ∀ id ∈ c.ids, id < s.nextId
  pos : 0 < s.nextId

theorem Executor.timersIn_init {ι β : Type} [Payload β] (workersCount maxTasks : ℕ) :
    (Executor.executorInit workersCount maxTasks : Executor ι β).TimersIn .new :=
  ⟨rfl, by simp [MainContext.new], Nat.one_pos⟩

/-- `scheduler_add` as the executor has it attaches a source to the context. -/
theorem Executor.TimersIn.add {ι β : Type} {s : Executor ι β} {c : MainContext Timer}
    (H : s.TimersIn c) (wo : ℕ) (delay : ℤ) (ticket : ℕ) :
    ∃ c', c.attach ⟨s.nextId, wo, delay, ticket⟩ (s.schedulerAdd wo delay ticket).2 = some c' ∧
      (s.schedulerAdd wo delay ticket).1.TimersIn c' := by
  have hnew : s.nextId ≠ 0 ∧ s.nextId ∉ c.ids :=
    ⟨H.pos.ne', fun hmem => lt_irrefl _ (H.ids _ hmem)⟩
  refine ⟨_, dif_pos hnew, ?_, ?_, Nat.succ_pos _⟩
  · simp [Executor.schedulerAdd, H.sources]
  · intro id hid
    rcases List.mem_cons.mp hid with rfl | hid
    · exact Nat.lt_succ_self _
    · exact Nat.lt_succ_of_lt (H.ids id hid)

/-- `scheduler_del` as the executor has it removes a source from the context. -/
theorem Executor.TimersIn.del {ι β : Type} {s : Executor ι β} {c : MainContext Timer}
    (H : s.TimersIn c) (id : ℕ) : (s.schedulerDel id).TimersIn (c.remove id) := by
  refine ⟨?_, H.ids, H.pos⟩
  simp only [MainContext.remove, Executor.schedulerDel, H.sources, List.filter_map]
  rfl

/-! ## One scheduler -/

/-- A scheduler is made and started, and its thread runs where it has one. -/
private def startSteps (standalone : Bool) : List (SchedulerAction Unit) :=
  [SchedulerAction.init standalone, .start 0 true] ++ if standalone then [.run 0] else []

theorem del_cancels_iff_default : ∃ (h : List (SchedulerEvent Unit)) (s s' : Process Unit)
    (es : List (SchedulerEvent Unit)) (sched : Scheduler),
    (schedulerSystem Unit).Reach WhileServing .started h s ∧
      (schedulerSystem Unit).step s (.del 0 1) = some (s', es) ∧
      (Cancels s s' 0 1 sched ↔ sched.standalone = false ∨
        ¬(s.contexts (.own 0)).Waits 1 ∧ ¬(s.contexts .default).Waits 1) := by
  obtain ⟨h, s, hr, hp⟩ := Lts.exists_reach_of_exec (schedulerSystem Unit)
    (fun m => decide (WhileServing m)) .started (startSteps false ++ [SchedulerAction.add 0 () 1])
    (fun h s => decide (.added 0 1 ∈ h ∧ s.Serves 0)) (by decide)
  obtain ⟨hadded, sched, hsched, hserves⟩ := of_decide_eq_true hp
  have hs : (schedulerSystem Unit).step s (.del 0 1) =
      some (s.gSourceRemove 1, [.deleted 0 1]) := by
    simp [schedulerSystem, step, schedulerDel, Option.mem_def.mp hsched]
  have hreach := hr.mono fun m hm => of_decide_eq_true hm
  exact ⟨h, s, _, _, sched, hreach, hs,
    del_cancels_iff hreach hadded hsched ⟨sched, hsched, hserves⟩ hs⟩

/-- The task of a standalone scheduler fires after its deletion, and the source of the default
context that has the same id is gone. -/
theorem del_cancels_fails : ∃ (h : List (SchedulerEvent Unit)) (s : Process Unit),
    (schedulerSystem Unit).Reach WhileServing .started h s ∧
      h = [.attached 1, .added 0 1, .deleted 0 1, .invoked (.own 0) 1 ()] ∧
      (s.contexts .default).sources = [] := by
  obtain ⟨h, s, hr, hp⟩ := Lts.exists_reach_of_exec (schedulerSystem Unit)
    (fun m => decide (WhileServing m)) .started
    (startSteps true ++
      [SchedulerAction.attach () 1, .add 0 () 1, .del 0 1, .fire (.own 0) 1 false])
    (fun h s => decide (h = [.attached 1, .added 0 1, .deleted 0 1, .invoked (.own 0) 1 ()] ∧
      (s.contexts .default).sources = [])) (by decide)
  exact ⟨h, s, hr.mono fun m hm => of_decide_eq_true hm, of_decide_eq_true hp⟩

end Vmon
