import Vmon.Executor.Slots
import Vmon.Executor.Accounting
import Mathlib.Data.List.Perm.Subperm

/-!
# Timeouts and discarded workers

What the pool promises of timers and of the threads whose tasks were discarded, in
the runs that are orderly. Neither promise survives outside of them: a thread that
`collect` sends back for more after its task was discarded stays in the pool beside
its replacement, and from then on the two write to one slot.

## Main definitions

* `TimerIsolation` — a timer concerns its own task only; `timer_isolation`.
* `WorkersRetire` — a discarded worker is replaced, not joined; `workers_retire`.
-/

namespace Vmon

variable {ι β : Type}

/-! ## Timer isolation -/

/-- What the pool promises of its timers. -/
structure TimerIsolation (h : List (Event ι β)) (s : Executor ι β) : Prop where
  /-- A timer marks the task it was armed for, and no other. -/
  marks_own : ∀ k m replacement, .fired k (some m) replacement ∈ h → m = k
  /-- No timer of a task is pending once its `collect` was called. -/
  none_after_collect : ∀ tm ∈ s.timers, ∀ tid collect data error timeout,
    .collectCalled tid tm.ticket collect data error timeout ∉ h
  /-- A thread deletes the timer that it armed for its task. -/
  deletes_own : ∀ tid k id, .deleted tid k id ∈ h → .armed tid k id ∈ h

section Isolation

variable {h es : List (Event ι β)} {s s' : Executor ι β} {a : Action ι β}

/-- A thread that still has a timer has not called `collect`. -/
private theorem collect_not_called (HK : Tickets h s) {tid : ℕ} {t : Thread ι β}
    (ht : s.threads[tid]? = some t) (harmed : t.armed = true) :
    ∀ tid' collect data error timeout,
      .collectCalled tid' t.ticket collect data error timeout ∉ h := by
  intro tid' collect data error timeout hmem
  have hpc : t.pc.holds = true := by cases hpc : t.pc <;> simp_all [Thread.armed, Pc.holds]
  obtain ⟨task, -, -, hp⟩ := HK.held tid t ht hpc
  have hin := mem_ticketEvents.mpr ⟨hmem, rfl⟩
  cases hpc : t.pc <;> simp only [Progress, hpc] at hp <;>
    simp_all [Thread.armed, passTaken, passCalled, passReturned]

variable [Payload β]

/-- The timer events of one orderly step. -/
private theorem timer_events (HS : Slots s) (HT : Timers h s) (hok : Orderly ⟨h, s, a⟩)
    (hs : s.Steps a s' es) :
    (∀ k m replacement, .fired k (some m) replacement ∈ es → m = k) ∧
      ∀ tid k id, .deleted tid k id ∈ es → .armed tid k id ∈ h := by
  cases hs with
  | @deleteTimer tid t wk ht hpc hwk =>
    have htidy := HS.tidy tid t ht
    have harmed : t.armed = true := by
      simp [Thread.armed, hpc, htidy.early (.inr (.inr hpc)), htidy.timeout hpc]
    obtain ⟨wk', hwk', hmem, -⟩ := HT.schedId tid t ht harmed
    obtain rfl : wk' = wk := Option.some.inj (hwk'.symm.trans hwk)
    refine ⟨by simp, ?_⟩
    intro tid' k id he
    simp only [List.mem_singleton, Event.deleted.injEq] at he
    obtain ⟨rfl, rfl, rfl⟩ := he
    exact hmem
  | @fire id created tm wk htm hid hwk =>
    obtain ⟨c, hc⟩ := Option.isSome_iff_exists.mp (hok tm htm hid wk hwk)
    obtain ⟨t, ht, -, httk, -⟩ := HT.target HS htm hwk hc
    refine ⟨?_, by simp⟩
    intro k m replacement he
    simp only [List.mem_singleton, Event.fired.injEq] at he
    obtain ⟨rfl, hm, -⟩ := he
    rw [Executor.workerDiscard_eq] at hm
    simp only [hc, Option.bind_some, ht, Option.map_some, Option.some.injEq] at hm
    rw [hm, httk]
  | _ => exact ⟨by simp, by simp⟩

/-- **Timers are isolated** in every orderly run. -/
theorem timer_isolation {n cap : ℕ}
    (hr : (executorSystem ι β).Reach Orderly (Executor.started n cap) h s) :
    TimerIsolation h s := by
  obtain ⟨HS, HT⟩ := slots_of_reach (fun _ hm => hm) hr
  have HK := tickets_of_reach hr
  have hevents : (∀ k m replacement, .fired k (some m) replacement ∈ h → m = k) ∧
      ∀ tid k id, .deleted tid k id ∈ h → .armed tid k id ∈ h := by
    refine Lts.Reach.invariant (P := fun h _ =>
      (∀ k m replacement, .fired k (some m) replacement ∈ h → m = k) ∧
        ∀ tid k id, .deleted tid k id ∈ h → .armed tid k id ∈ h) (by simp) ?_ hr
    intro h s a s' es hreach ih hok hs
    obtain ⟨HS, HT⟩ := slots_of_reach (fun _ hm => hm) hreach
    obtain ⟨hmarks, hdeletes⟩ := timer_events HS HT hok (Executor.step_cases hs)
    constructor
    · intro k m replacement he
      rcases List.mem_append.mp he with he | he
      · exact ih.1 k m replacement he
      · exact hmarks k m replacement he
    · intro tid k id he
      rcases List.mem_append.mp he with he | he
      · exact List.mem_append_left _ (ih.2 tid k id he)
      · exact List.mem_append_left _ (hdeletes tid k id he)
  refine ⟨hevents.1, ?_, hevents.2⟩
  intro tm htm
  obtain ⟨tid, t, ht, -, hticket, harmed⟩ := HT.owner tm htm
  rw [← hticket]
  exact collect_not_called HK ht harmed

end Isolation

/-- One task with a timeout, whose worker deletes the timer and calls `collect`. -/
theorem timer_isolation_one_task : ∃ (h : List (Event Unit (List UInt8)))
    (s : Executor Unit (List UInt8)), h.any Event.isCollectCall = true ∧ TimerIsolation h s := by
  obtain ⟨h, s, hr, hcollect⟩ := Lts.exists_reach_of_exec (executorSystem Unit (List UInt8))
    (fun m => decide (Orderly m)) (Executor.started 1 1)
    (dispatchSteps [] 5 ++ runSteps 0 0 [] ++ [Action.thread 0])
    (fun h _ => h.any Event.isCollectCall) (by decide)
  exact ⟨h, s, hcollect, timer_isolation (hr.mono fun _ hm => of_decide_eq_true hm)⟩

/-! ## Discarded workers -/

/-- What the pool promises of the threads whose tasks were discarded. -/
structure WorkersRetire (n : ℕ) (h : List (Event ι β)) (s : Executor ι β) : Prop where
  /-- A thread whose task was marked takes no further task. -/
  takes_no_more : ∀ h₁ h₂ k m replacement tid task,
    h = h₁ ++ .fired k (some m) replacement :: h₂ → .taken tid m task ∈ h₁ →
    ∀ j task', .taken tid j task' ∉ h₂
  /-- No more than `n` threads wait for a task or run one that is not discarded. -/
  active_le : s.threads.countP Thread.active ≤ n

section Retire

variable {h es : List (Event ι β)} {s s' : Executor ι β} {a : Action ι β} {tid : ℕ}
  {t : Thread ι β}

/-- The active threads have a slot each. -/
theorem Slots.active_le (HS : Slots s) : s.threads.countP Thread.active ≤ s.workersCount := by
  have hpair : (s.threads.filter Thread.active).Pairwise fun t u => t.wo ≠ u.wo := by
    rw [List.pairwise_filter, List.pairwise_iff_getElem]
    intro i j hi hj hlt hai haj hslot
    have := HS.unique i j _ _ (List.getElem?_eq_getElem hi) (List.getElem?_eq_getElem hj) hai haj
      hslot
    omega
  have hnodup : ((s.threads.filter Thread.active).map Thread.wo).Nodup :=
    List.pairwise_map.mpr hpair
  have hsub : (s.threads.filter Thread.active).map Thread.wo ⊆ List.range s.workersCount := by
    intro w hw
    rw [List.mem_map] at hw
    obtain ⟨t, ht, rfl⟩ := hw
    obtain ⟨j, hj⟩ := List.getElem?_of_mem (List.mem_filter.mp ht).1
    exact List.mem_range.mpr (HS.wo_lt j t hj)
  have hle := (List.subperm_of_subset hnodup hsub).length_le
  rwa [List.length_map, List.length_range, ← List.countP_eq_length_filter] at hle

/-- A thread with a discarded task. -/
def Thread.retired (t : Thread ι β) : Bool := t.pc.holds && t.task.td.discarded

/-- In place of a thread with a discarded task stands one with the same task, discarded,
and the step takes none for it. -/
private def Stays (tid : ℕ) (t : Thread ι β) (s' : Executor ι β) (es : List (Event ι β)) : Prop :=
  (∃ t', s'.threads[tid]? = some t' ∧ t'.ticket = t.ticket ∧ t'.retired = true) ∧
    ∀ j task, .taken tid j task ∉ es

private theorem not_taken_of_nil (hes : takenTasks es = []) (j : ℕ) (task : TaskData ι β) :
    .taken tid j task ∉ es := by
  intro hmem
  have : task ∈ takenTasks es := List.mem_filterMap.mpr ⟨_, hmem, rfl⟩
  rw [hes] at this
  simp at this

private theorem Stays.same (ht : s.threads[tid]? = some t) (hret : t.retired = true)
    (hthreads : s'.threads = s.threads) (hes : takenTasks es = []) : Stays tid t s' es :=
  ⟨⟨t, hthreads ▸ ht, rfl, hret⟩, not_taken_of_nil hes⟩

/-- A statement of some thread `i` that takes no task. -/
private theorem Stays.set (ht : s.threads[tid]? = some t) (hret : t.retired = true) {i : ℕ}
    {u u' : Thread ι β} (hu : s.threads[i]? = some u) (hthreads : s'.threads = s.threads.set i u')
    (hes : takenTasks es = [])
    (hself : u.retired = true → u'.ticket = u.ticket ∧ u'.retired = true) : Stays tid t s' es := by
  refine ⟨?_, not_taken_of_nil hes⟩
  by_cases hi : tid = i
  · subst hi
    obtain rfl : u = t := Option.some.inj (hu.symm.trans ht)
    obtain ⟨hticket, hret'⟩ := hself hret
    exact ⟨u', by rw [hthreads, getElem?_set_some hu]; exact .inl ⟨rfl, rfl⟩, hticket, hret'⟩
  · exact ⟨t, by rw [hthreads, getElem?_set_some hu]; exact .inr ⟨hi, ht⟩, rfl, hret⟩

/-- A thread in `ringbuffer_get`, which has no task yet, moves on. -/
private theorem Stays.set_get (ht : s.threads[tid]? = some t) (hret : t.retired = true) {i : ℕ}
    {u u' : Thread ι β} (hu : s.threads[i]? = some u) (hpc : u.pc = .get ∨ u.pc = .waiting)
    (hthreads : s'.threads = s.threads.set i u')
    (hes : ∀ tid' j task, .taken tid' j task ∈ es → tid' = i) : Stays tid t s' es := by
  have hne : tid ≠ i := by
    rintro rfl
    obtain rfl : u = t := Option.some.inj (hu.symm.trans ht)
    rcases hpc with hpc | hpc <;> simp [Thread.retired, hpc, Pc.holds] at hret
  refine ⟨⟨t, by rw [hthreads, getElem?_set_some hu]; exact .inr ⟨hne, ht⟩, rfl, hret⟩, ?_⟩
  intro j task hmem
  exact hne (hes tid j task hmem)

variable [Payload β]

/-- No orderly step lets a thread with a discarded task have another. -/
private theorem stays_of_step (hok : Orderly ⟨h, s, a⟩) (hs : s.Steps a s' es)
    (ht : s.threads[tid]? = some t) (hret : t.retired = true) : Stays tid t s' es := by
  cases hs with
  | wait hu hpc => exact .set_get ht hret hu hpc rfl (by simp)
  | take hu hpc =>
    refine .set_get ht hret hu hpc rfl ?_
    intro tid' j task hmem
    simp only [List.mem_singleton, Event.taken.injEq] at hmem
    exact hmem.1
  | takeUndefined hu hpc => exact .set_get ht hret hu hpc rfl (by simp)
  | arm hu hpc => exact .set ht hret hu rfl rfl (by simp [Thread.retired, Pc.holds])
  | skipTimer hu hpc => exact .set ht hret hu rfl rfl (by simp [Thread.retired, Pc.holds])
  | setCurrent hu hpc => exact .set ht hret hu rfl rfl (by simp [Thread.retired, Pc.holds])
  | callWork hu hpc => exact .set ht hret hu rfl rfl (by simp [Thread.retired, Pc.holds])
  | returnWork hu hpc => exact .set ht hret hu rfl rfl (by simp [Thread.retired, Pc.holds])
  | clearCurrent hu hpc => exact .set ht hret hu rfl rfl (by simp [Thread.retired, Pc.holds])
  | keepTimer hu hpc => exact .set ht hret hu rfl rfl (by simp [Thread.retired, Pc.holds])
  | dropTimer hu hpc => exact .set ht hret hu rfl rfl (by simp [Thread.retired, Pc.holds])
  | deleteTimer hu hpc => exact .set ht hret hu rfl rfl (by simp [Thread.retired, Pc.holds])
  | callCollect hu hpc => exact .set ht hret hu rfl rfl (by simp [Thread.retired, Pc.holds])
  | @loop i u ret hu hpc hzero =>
    refine .set ht hret hu rfl rfl fun huret => ?_
    have hdisc : u.task.td.discarded = true := by simp_all [Thread.retired]
    exact absurd hzero (hok u hu hdisc)
  | exit hu hpc => exact .set ht hret hu rfl rfl (by simp [Thread.retired, Pc.holds])
  | @fire id created tm wk =>
    refine ⟨?_, by simp⟩
    have hkeep : ∀ threads : List (Thread ι β),
        (Executor.markCurrent s.threads wk.current ++ threads)[tid]? =
          some (if wk.current = some tid then t.mark else t) := by
      intro threads
      have hlt := (List.getElem?_eq_some_iff.mp ht).1
      rw [List.getElem?_append_left (by simpa using hlt)]
      cases hc : wk.current with
      | none => simp [Executor.markCurrent, ht]
      | some c => by_cases hcid : c = tid <;> simp [Executor.markCurrent, ht, hcid]
    have hmark : ∀ u : Thread ι β, u = (if wk.current = some tid then t.mark else t) →
        u.ticket = t.ticket ∧ u.retired = true := by
      rintro u rfl
      split
      · simp_all [Thread.retired, Thread.mark, TaskData.setDiscarded]
      · exact ⟨rfl, hret⟩
    by_cases hid : wk.id < s.workersCount
    · rw [Executor.workerDiscard_of_lt hid]
      exact ⟨_, hkeep _, hmark _ rfl⟩
    · refine ⟨_, ?_, hmark _ rfl⟩
      have := hkeep []
      rw [List.append_nil] at this
      rw [← this, Executor.workerDiscard_eq]
      cases hc : wk.current <;>
        simp [Executor.executorReplace, hid, Executor.markDiscarded, Executor.markCurrent]
  | start hlen hrunning =>
    obtain ⟨workers, heq, -⟩ := Executor.startLoop_eq { s with running := true } 0 0 _
    refine ⟨⟨t, ?_, rfl, hret⟩, by simp⟩
    rw [heq, List.getElem?_append_left (List.getElem?_eq_some_iff.mp ht).1, ht]
  | _ => exact .same ht hret rfl rfl

/-- The thread whose task each callback marked still has that task, and took no other. -/
private def MarkedStay (h : List (Event ι β)) (s : Executor ι β) : Prop :=
  ∀ h₁ h₂ k m replacement, h = h₁ ++ .fired k (some m) replacement :: h₂ →
    ∃ tid t, s.threads[tid]? = some t ∧ t.ticket = m ∧ t.retired = true ∧
      (∃ task, .taken tid m task ∈ h₁) ∧ ∀ j task, .taken tid j task ∉ h₂

/-- What a callback reports as marked, it has marked. -/
private theorem fired_marks {k m : ℕ} {replacement : Option ℕ} (HS : Slots s)
    (hs : s.Steps a s' es) (hmem : .fired k (some m) replacement ∈ es) :
    ∃ (tid : ℕ) (t t' : Thread ι β), s.threads[tid]? = some t ∧ t.ticket = m ∧ t.pc.holds = true ∧
      s'.threads[tid]? = some t' ∧ t'.ticket = m ∧ t'.retired = true := by
  cases hs with
  | @fire id created tm wk htm hid hwk =>
    simp only [List.mem_singleton, Event.fired.injEq, Executor.workerDiscard_eq] at hmem
    obtain ⟨-, hm, -⟩ := hmem
    rw [eq_comm, Option.bind_eq_some_iff] at hm
    obtain ⟨c, hc, hm⟩ := hm
    obtain ⟨t, ht, htwo, hin⟩ := HS.current _ wk c hwk hc
    have hwid := HS.id_eq _ wk hwk
    have hlt : wk.id < s.workersCount := by rw [hwid, ← htwo]; exact HS.wo_lt c t ht
    obtain rfl : t.ticket = m := by simpa [ht] using hm
    have hpc : t.pc.holds = true := by cases hpc : t.pc <;> simp_all [Thread.inWork, Pc.holds]
    refine ⟨c, t, t.mark, ht, rfl, hpc, ?_, rfl, ?_⟩
    · rw [Executor.workerDiscard_of_lt hlt, hc]
      have hclt := (List.getElem?_eq_some_iff.mp ht).1
      rw [List.getElem?_append_left (by simpa using hclt), Executor.markCurrent,
        List.getElem?_modify_eq, ht]
      rfl
    · simp [Thread.retired, Thread.mark, TaskData.setDiscarded, hpc]
  | _ => simp at hmem

private theorem markedStay_step (HS : Slots s) (HK : Tickets h s) (H : MarkedStay h s)
    (hok : Orderly ⟨h, s, a⟩) (hs : s.Steps a s' es) : MarkedStay (h ++ es) s' := by
  intro h₁ h₂ k m replacement heq
  rcases append_eq_split hs.length_le_one heq with ⟨rfl, rfl, rfl⟩ | ⟨g, hg, rfl⟩
  · -- the callback is this step
    obtain ⟨tid, t, t', ht, rfl, hpc, ht', hticket, hret⟩ :=
      fired_marks HS hs (List.mem_singleton_self _)
    exact ⟨tid, t', ht', hticket, hret, HK.taken_of_holds ht hpc, by simp⟩
  · -- the callback came before it
    obtain ⟨tid, t, ht, rfl, hret, htook, hnone⟩ := H h₁ g k m replacement hg
    obtain ⟨⟨t', ht', hticket, hret'⟩, htaken⟩ := stays_of_step hok hs ht hret
    refine ⟨tid, t', ht', hticket, hret', htook, fun j task hmem => ?_⟩
    rcases List.mem_append.mp hmem with hmem | hmem
    · exact hnone j task hmem
    · exact htaken j task hmem

/-- **Discarded workers retire** in every orderly run. -/
theorem workers_retire {n cap : ℕ}
    (hr : (executorSystem ι β).Reach Orderly (Executor.started n cap) h s) :
    WorkersRetire n h s := by
  have hmarked : MarkedStay h s := by
    refine Lts.Reach.invariant (fun h₁ h₂ k m replacement heq => by simp at heq) ?_ hr
    intro h s a s' es hreach ih hok hs
    exact markedStay_step (slots_of_reach (fun _ hm => hm) hreach).1 (tickets_of_reach hreach) ih
      hok (Executor.step_cases hs)
  constructor
  · intro h₁ h₂ k m replacement tid task heq htook
    obtain ⟨tid', t, -, -, -, ⟨task', htook'⟩, hnone⟩ := hmarked h₁ h₂ k m replacement heq
    have hmem : ∀ e ∈ h₁, e ∈ h := fun e he => by rw [heq]; exact List.mem_append_left _ he
    have htid := (tickets_of_reach hr).taker_unique (hmem _ htook) (hmem _ htook')
    rwa [← htid]
  · have hle := (slots_of_reach (fun _ hm => hm) hr).1.active_le
    rwa [Executor.workersCount_of_reach hr] at hle

end Retire

/-! ## Explicit runs -/

/-- Thread `0` takes a task, whose timer `id` fires while its work function runs. -/
def discardSteps (id : ℕ) : List (Action Unit (List UInt8)) :=
  dispatchSteps [] 5 ++ List.replicate 4 (Action.thread 0) ++ [Action.fire id true]

/-- The work function of thread `0` returns after all, and so does its `collect`. -/
def resumeSteps : List (Action Unit (List UInt8)) :=
  [Action.workReturn 0 0 []] ++ List.replicate 3 (Action.thread 0) ++ [Action.collectReturn 0 0]

/-- One worker, discarded while it runs its task. -/
theorem workers_retire_one_task : ∃ (h : List (Event Unit (List UInt8)))
    (s : Executor Unit (List UInt8)), s.threads.length = 2 ∧ WorkersRetire 1 h s := by
  obtain ⟨h, s, hr, htwo⟩ := Lts.exists_reach_of_exec (executorSystem Unit (List UInt8))
    (fun m => decide (Orderly m)) (Executor.started 1 1) (discardSteps 1)
    (fun _ s => decide (s.threads.length = 2)) (by decide)
  exact ⟨h, s, of_decide_eq_true htwo, workers_retire (hr.mono fun _ hm => of_decide_eq_true hm)⟩

/-- No one stops the pool, and every collect function returns `0`. -/
def Action.serving : Action ι β → Bool
  | .stop _ | .start _ => false
  | .collectReturn _ ret => ret == 0
  | _ => true

/-- The discarded worker of a pool of one comes back, and the pool has two. -/
theorem workers_retire_fails :
    ¬∀ (n cap : ℕ) (h : List (Event Unit (List UInt8))) (s : Executor Unit (List UInt8)),
      (executorSystem Unit (List UInt8)).Reach (fun m => m.action.serving = true)
        (Executor.started n cap) h s → WorkersRetire n h s := by
  intro hall
  obtain ⟨h, s, hr, hcount⟩ := Lts.exists_reach_of_exec (executorSystem Unit (List UInt8))
    (fun m => m.action.serving) (Executor.started 1 1) (discardSteps 1 ++ resumeSteps)
    (fun _ s => decide (s.threads.countP Thread.active = 2)) (by decide)
  have hle := (hall 1 1 h s hr).active_le
  rw [of_decide_eq_true hcount] at hle
  omega

/-- The timer of task `k` marked task `m`. -/
def Event.marks (k m : ℕ) : Event ι β → Bool
  | .fired ticket (some marked) _ => ticket == k && marked == m
  | _ => false

theorem fired_of_marks {k m : ℕ} {h : List (Event ι β)} (hany : h.any (Event.marks k m) = true) :
    ∃ replacement, .fired k (some m) replacement ∈ h := by
  rw [List.any_eq_true] at hany
  obtain ⟨e, he, hmarks⟩ := hany
  simp only [Event.marks] at hmarks
  split at hmarks
  · simp only [Bool.and_eq_true, beq_iff_eq] at hmarks
    obtain ⟨rfl, rfl⟩ := hmarks
    exact ⟨_, he⟩
  · cases hmarks

/-- The discarded worker comes back to the slot of its replacement, and the timer of
its next task marks the task of the other. -/
theorem timer_isolation_fails :
    ¬∀ (n cap : ℕ) (h : List (Event Unit (List UInt8))) (s : Executor Unit (List UInt8)),
      (executorSystem Unit (List UInt8)).Reach (fun _ => True) (Executor.started n cap) h s →
        TimerIsolation h s := by
  intro hall
  obtain ⟨h, s, hr, hmarked⟩ := Lts.exists_reach_of_exec (executorSystem Unit (List UInt8))
    (fun _ => true) (Executor.started 1 1)
    (discardSteps 1 ++ resumeSteps ++ dispatchSteps [] 5 ++ List.replicate 4 (Action.thread 0) ++
      dispatchSteps [] 5 ++ List.replicate 4 (Action.thread 1) ++ [Action.fire 2 true])
    (fun h _ => h.any (Event.marks 1 2)) (by decide)
  obtain ⟨_, he⟩ := fired_of_marks hmarked
  have := (hall 1 1 h s (hr.mono fun _ _ => trivial)).marks_own _ _ _ he
  omega

end Vmon
