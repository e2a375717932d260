import Vmon.Executor.Slots
import Vmon.Executor.Accounting

/-!
# One task and its callback

A thread that has just taken a task with a timeout, and the callback of the timer it
arms, in any interleaving. `worker_discard` marks the task only if `current` is set,
and asks for a replacement in any case; `collect` is told of a timeout if the task was
marked. The two agree exactly when `pthread_create` succeeds where, and only where,
`current` is set.

## Main definitions

* `TaskTaken` — the state in which the thread is about to arm the timer.
* `Solo` — the moves of the thread and of its callback.
* `CurrentIffCreated` — the condition on the callback.
* `replacement_iff` — the exact characterization.
-/

namespace Vmon

variable {ι β : Type}

/-- Thread `i` has taken a task with a timeout and is about to arm its timer. -/
structure TaskTaken (s : Executor ι β) (i : ℕ) (t : Thread ι β) : Prop where
  thread : s.threads[i]? = some t
  pc : t.pc = .got
  timeout : t.task.td.timeout ≠ 0
  discarded : t.task.td.discarded = false
  worker : ∃ wk ∈ s.workers[t.wo]?, wk.id = t.wo ∧ wk.current = none
  wo_lt : t.wo < s.workersCount
  timers : ∀ tm ∈ s.timers, tm.wo ≠ t.wo

/-- A statement of thread `i`, or a callback for slot `w`. -/
def Solo (i w : ℕ) (m : Move (Executor ι β) (Action ι β) (Event ι β)) : Prop :=
  match m.action with
  | .thread j | .workReturn j _ _ => j = i
  | .fire id _ => ∀ tm ∈ m.pre.timers, tm.id = id → tm.wo = w
  | _ => False

instance (i w : ℕ) (m : Move (Executor ι β) (Action ι β) (Event ι β)) : Decidable (Solo i w m) :=
  match m with
  | ⟨_, _, .thread j⟩ | ⟨_, _, .workReturn j _ _⟩ => inferInstanceAs (Decidable (j = i))
  | ⟨_, s, .fire id _⟩ => inferInstanceAs (Decidable (∀ tm ∈ s.timers, tm.id = id → tm.wo = w))
  | ⟨_, _, .collectReturn ..⟩ | ⟨_, _, .dispatch ..⟩ | ⟨_, _, .stop _⟩ | ⟨_, _, .call _⟩
  | ⟨_, _, .start _⟩ => inferInstanceAs (Decidable False)

/-- `current` of slot `w` is set. -/
def Executor.currentSet (s : Executor ι β) (w : ℕ) : Bool :=
  ((s.workers[w]?).bind Worker.current).isSome

/-- A callback creates a thread if and only if `current` is set. -/
def CurrentIffCreated (w : ℕ) (m : Move (Executor ι β) (Action ι β) (Event ι β)) : Prop :=
  match m.action with
  | .fire _ created => m.pre.currentSet w = created
  | _ => True

namespace Solo

variable {i : ℕ} {t₀ : Thread ι β} {moves : List (Move (Executor ι β) (Action ι β) (Event ι β))}
  {h es : List (Event ι β)} {s s' : Executor ι β} {a : Action ι β} {t : Thread ι β} {wk : Worker}

/-- What holds of the thread and its slot throughout. -/
structure Inside (i : ℕ) (t₀ : Thread ι β) (h : List (Event ι β)) (s : Executor ι β)
    (t : Thread ι β) (wk : Worker) : Prop where
  thread : s.threads[i]? = some t
  wo : t.wo = t₀.wo
  ticket : t.ticket = t₀.ticket
  timeout : t.task.td.timeout ≠ 0
  pc : t.pc.holds = true ∧ t.pc ≠ .exited
  worker : s.workers[t₀.wo]? = some wk
  id : wk.id = t₀.wo
  wo_lt : t₀.wo < s.workersCount
  collect : ∀ collect data error timeout,
    .collectCalled i t₀.ticket collect data error timeout ∈ h →
      t.pc = .collecting ∧ timeout = t.task.td.discarded

/-- The timer has not fired. -/
structure Unfired (i : ℕ) (t₀ : Thread ι β)
    (moves : List (Move (Executor ι β) (Action ι β) (Event ι β))) (h : List (Event ι β))
    (s : Executor ι β) (t : Thread ι β) (wk : Worker) : Prop where
  holds_when : ∀ m ∈ moves, CurrentIffCreated t₀.wo m
  none_fired : ∀ k marked replacement, .fired k marked replacement ∉ h
  discarded : t.task.td.discarded = false
  current : wk.current = if t.inWork then some i else none
  timers : ∀ tm ∈ s.timers, tm.wo = t₀.wo →
    tm.ticket = t₀.ticket ∧ tm.id = wk.schedId ∧ t.armed = true

/-- The timer has fired, with `current` set or not, and a thread created or not. -/
structure Fired (t₀ : Thread ι β) (moves : List (Move (Executor ι β) (Action ι β) (Event ι β)))
    (h : List (Event ι β)) (s : Executor ι β) (t : Thread ι β) (current created : Bool) : Prop where
  holds_when : (∀ m ∈ moves, CurrentIffCreated t₀.wo m) ↔ current = created
  replaced : (∃ marked r, .fired t₀.ticket marked (some r) ∈ h) ↔ created = true
  discarded : t.task.td.discarded = current
  pc : t.pc ≠ .got
  timers : ∀ tm ∈ s.timers, tm.wo ≠ t₀.wo

/-- The invariant. -/
def Inv (i : ℕ) (t₀ : Thread ι β) (moves : List (Move (Executor ι β) (Action ι β) (Event ι β)))
    (h : List (Event ι β)) (s : Executor ι β) : Prop :=
  ∃ t wk, Inside i t₀ h s t wk ∧
    (Unfired i t₀ moves h s t wk ∨ ∃ current created, Fired t₀ moves h s t current created)

/-- The condition of a run with one more move, which is not a callback. -/
private theorem holds_when_append {w : ℕ} (hfire : ∀ id created, a ≠ .fire id created) :
    (∀ m ∈ moves ++ [⟨h, s, a⟩], CurrentIffCreated w m) ↔ ∀ m ∈ moves, CurrentIffCreated w m := by
  have htrue : CurrentIffCreated w ⟨h, s, a⟩ := by
    cases a <;> first | trivial | exact absurd rfl (hfire _ _)
  constructor
  · exact fun hall m hm => hall m (List.mem_append_left _ hm)
  · intro hall m hm
    rcases List.mem_append.mp hm with hm | hm
    · exact hall m hm
    · rwa [List.mem_singleton.mp hm]

/-- A statement of the thread inside its pass, other than the one that arms the timer. -/
private theorem Inv.move (hin : Inside i t₀ h s t wk) {t' : Thread ι β} {wk' : Worker}
    (hinv : Unfired i t₀ moves h s t wk ∨
      ∃ current created, Fired t₀ moves h s t current created)
    (hfire : ∀ id created, a ≠ .fire id created)
    (hcount : s'.workersCount = s.workersCount) (hworker : s'.workers[t₀.wo]? = some wk')
    (hid : wk'.id = wk.id) (hthreads : s'.threads = s.threads.set i t')
    (hsame : t'.wo = t.wo ∧ t'.ticket = t.ticket ∧ t'.task.td.timeout = t.task.td.timeout ∧
      t'.task.td.discarded = t.task.td.discarded)
    (hpc : t'.pc.holds = true ∧ t'.pc ≠ .exited ∧ t'.pc ≠ .got)
    (hevents : ∀ k marked replacement, .fired k marked replacement ∉ es)
    (hcollect : t.pc ≠ .collecting ∧ ∀ collect data error timeout,
      .collectCalled i t₀.ticket collect data error timeout ∈ es →
        t'.pc = .collecting ∧ timeout = t'.task.td.discarded)
    (hcurrent : t.task.td.discarded = false → wk.current = (if t.inWork then some i else none) →
      wk'.current = if t'.inWork then some i else none)
    (htimers : ∀ tm ∈ s'.timers, tm ∈ s.timers ∧
      (tm.wo = t₀.wo → tm.id = wk.schedId → t.armed = true →
        tm.id = wk'.schedId ∧ t'.armed = true)) :
    Inv i t₀ (moves ++ [⟨h, s, a⟩]) (h ++ es) s' := by
  have hself : s'.threads[i]? = some t' := by
    rw [hthreads, getElem?_set_some hin.thread]
    exact .inl ⟨rfl, rfl⟩
  refine ⟨t', wk', ⟨hself, hsame.1.trans hin.wo, hsame.2.1.trans hin.ticket,
    hsame.2.2.1.symm ▸ hin.timeout, ⟨hpc.1, hpc.2.1⟩, hworker, hid.trans hin.id,
    hcount.symm ▸ hin.wo_lt, ?_⟩, ?_⟩
  · intro collect data error timeout hmem
    rcases List.mem_append.mp hmem with hmem | hmem
    · exact absurd (hin.collect _ _ _ _ hmem).1 hcollect.1
    · exact hcollect.2 _ _ _ _ hmem
  · rcases hinv with H | ⟨current, created, H⟩
    · refine .inl ⟨(holds_when_append hfire).mpr H.holds_when, ?_,
        hsame.2.2.2.trans H.discarded, hcurrent H.discarded H.current, ?_⟩
      · intro k marked replacement hmem
        rcases List.mem_append.mp hmem with hmem | hmem
        · exact H.none_fired _ _ _ hmem
        · exact hevents _ _ _ hmem
      · intro tm htm hslot
        obtain ⟨hold, hkeep⟩ := htimers tm htm
        obtain ⟨hticket, htmid, harmed⟩ := H.timers tm hold hslot
        exact ⟨hticket, hkeep hslot htmid harmed⟩
    · refine .inr ⟨current, created, (holds_when_append hfire).trans H.holds_when, ?_,
        hsame.2.2.2.trans H.discarded, hpc.2.2, fun tm htm => H.timers tm (htimers tm htm).1⟩
      rw [← H.replaced]
      constructor
      · rintro ⟨marked, r, hmem⟩
        rcases List.mem_append.mp hmem with hmem | hmem
        · exact ⟨marked, r, hmem⟩
        · exact absurd hmem (hevents _ _ _)
      · exact fun ⟨marked, r, hmem⟩ => ⟨marked, r, List.mem_append_left _ hmem⟩

variable [Payload β]

/-- The callback. -/
private theorem Inv.fire (hin : Inside i t₀ h s t wk)
    (hinv : Unfired i t₀ moves h s t wk ∨
      ∃ current created, Fired t₀ moves h s t current created)
    {id : ℕ} {created : Bool} {tm : Timer} {wk' : Worker} (htm : tm ∈ s.timers) (hid : tm.id = id)
    (hslot : tm.wo = t₀.wo) (hwk : s.workers[tm.wo]? = some wk') :
    Inv i t₀ (moves ++ [⟨h, s, .fire id created⟩])
      (h ++ [Event.fired tm.ticket (s.workerDiscard wk' created).2.1
        (if (s.workerDiscard wk' created).2.2 = 0 then some s.threads.length else none)])
      { (s.workerDiscard wk' created).1 with timers := s.timers.filter fun tm => tm.id != id } := by
  obtain rfl : wk' = wk := by
    rw [hslot, hin.worker] at hwk
    exact (Option.some.inj hwk).symm
  rcases hinv with H | ⟨_, _, H⟩
  · obtain ⟨hticket, hsched, harmed⟩ := H.timers tm htm hslot
    have hlt : wk'.id < s.workersCount := by rw [hin.id]; exact hin.wo_lt
    have hcur : s.currentSet t₀.wo = t.inWork := by
      rw [Executor.currentSet, hin.worker, Option.bind_some, H.current]
      cases t.inWork <;> rfl
    -- the thread afterwards: marked if `current` was set
    let t' := if t.inWork then t.mark else t
    have hpc' : t'.pc = t.pc := by simp only [t']; split <;> rfl
    have hthread : (s.workerDiscard wk' created).1.threads[i]? = some t' := by
      rw [Executor.workerDiscard_of_lt hlt, H.current]
      have hilt := (List.getElem?_eq_some_iff.mp hin.thread).1
      rw [List.getElem?_append_left (by simpa using hilt)]
      cases hwork : t.inWork <;> simp [t', hwork, Executor.markCurrent, hin.thread]
    refine ⟨t', Executor.freshWorker wk'.id (if created then some s.threads.length else none),
      ⟨hthread, ?_, ?_, ?_, hpc' ▸ hin.pc, ?_, hin.id, ?_, ?_⟩,
      .inr ⟨t.inWork, created, ?_, ?_, ?_, ?_, ?_⟩⟩
    · rw [← hin.wo]
      simp only [t']; split <;> rfl
    · rw [← hin.ticket]
      simp only [t']; split <;> rfl
    · have := hin.timeout
      simp only [t']; split <;> exact this
    · rw [Executor.workerDiscard_of_lt hlt]
      rw [hin.id, List.getElem?_modify_eq, hin.worker]
      rfl
    · rw [Executor.workerDiscard_workersCount]
      exact hin.wo_lt
    · intro collect data error timeout hmem
      have hcall := (hin.collect collect data error timeout (by simpa using hmem)).1
      simp [Thread.armed, hcall] at harmed
    · rw [← hcur]
      constructor
      · intro hall
        exact hall ⟨h, s, .fire id created⟩ (by simp)
      · intro heq m hm
        rcases List.mem_append.mp hm with hm | hm
        · exact H.holds_when m hm
        · rw [List.mem_singleton.mp hm]
          exact heq
    · rw [Executor.workerDiscard_of_lt hlt]
      have hnone := H.none_fired
      cases created <;> simp [hnone, hticket, Executor.eagain]
    · cases hwork : t.inWork <;>
        simp [t', hwork, Thread.mark, TaskData.setDiscarded, H.discarded]
    · rw [hpc']
      intro hgot
      simp [Thread.armed, hgot] at harmed
    · intro tm' htm' hslot'
      rw [List.mem_filter, bne_iff_ne] at htm'
      exact htm'.2 (((H.timers tm' htm'.1 hslot').2.1.trans hsched.symm).trans hid)
  · exact absurd hslot (H.timers tm htm)

omit [Payload β] in
/-- The slot of the thread after a write to it. -/
private theorem Inside.modify (hin : Inside i t₀ h s t wk) (f : Worker → Worker) :
    (s.workers.modify t.wo f)[t₀.wo]? = some (f wk) := by
  rw [hin.wo, List.getElem?_modify_eq, hin.worker]
  rfl

omit [Payload β] in
/-- The thread has a task, so it is not in `ringbuffer_get`. -/
private theorem Inside.not_get (hin : Inside i t₀ h s t wk) {tid : ℕ} {u : Thread ι β}
    (htid : tid = i) (hu : s.threads[tid]? = some u) (hpc : u.pc = .get ∨ u.pc = .waiting) :
    False := by
  subst htid
  obtain rfl : u = t := Option.some.inj (hu.symm.trans hin.thread)
  have hholds := hin.pc.1
  rcases hpc with hpc | hpc <;> simp [hpc, Pc.holds] at hholds

/-- Every move keeps the invariant. -/
theorem Inv.step (H : Inv i t₀ moves h s) (hsolo : Solo i t₀.wo ⟨h, s, a⟩)
    (hs : s.Steps a s' es) : Inv i t₀ (moves ++ [⟨h, s, a⟩]) (h ++ es) s' := by
  obtain ⟨t, wk, hin, hinv⟩ := H
  cases hs with
  | wait hu hpc => exact absurd hpc fun hpc => hin.not_get hsolo hu hpc
  | take hu hpc => exact absurd hpc fun hpc => hin.not_get hsolo hu hpc
  | takeUndefined hu hpc => exact absurd hpc fun hpc => hin.not_get hsolo hu hpc
  | @arm tid u hu hpc htimeout =>
    obtain rfl : tid = i := hsolo
    obtain rfl : u = t := Option.some.inj (hu.symm.trans hin.thread)
    rcases hinv with H | ⟨current, created, H⟩
    · -- the only timer of the slot from here on
      have hself : (s.threads.set tid { u with pc := .armed })[tid]? = some { u with pc := .armed } :=
        (getElem?_set_some hu _).mpr (.inl ⟨rfl, rfl⟩)
      refine ⟨{ u with pc := .armed }, { wk with schedId := s.nextId },
        ⟨hself, hin.wo, hin.ticket, hin.timeout, by simp [Pc.holds], hin.modify _, hin.id,
          hin.wo_lt, ?_⟩,
        .inl ⟨(holds_when_append (by simp)).mpr H.holds_when, ?_, H.discarded, ?_, ?_⟩⟩
      · intro collect data error timeout hmem
        have hcall := (hin.collect collect data error timeout (by simpa using hmem)).1
        rw [hpc] at hcall
        simp at hcall
      · intro k marked replacement hmem
        exact H.none_fired k marked replacement (by simpa using hmem)
      · simpa [Thread.inWork, hpc] using H.current
      · intro tm htm hslot
        rcases List.mem_append.mp htm with htm | htm
        · have := (H.timers tm htm hslot).2.2
          simp [Thread.armed, hpc] at this
        · rw [List.mem_singleton.mp htm]
          exact ⟨hin.ticket, rfl, by simp [Thread.armed, htimeout, H.discarded]⟩
    · exact absurd hpc H.pc
  | skipTimer hu hpc htimeout =>
    obtain rfl : _ = i := hsolo
    obtain rfl := Option.some.inj (hu.symm.trans hin.thread)
    exact absurd htimeout hin.timeout
  | @setCurrent tid u hu hpc =>
    obtain rfl : tid = i := hsolo
    obtain rfl : u = t := Option.some.inj (hu.symm.trans hin.thread)
    refine Inv.move hin hinv (by simp) rfl (hin.modify _) rfl rfl ⟨rfl, rfl, rfl, rfl⟩
      (by simp [Pc.holds]) (by simp) (by simp [hpc]) ?_ ?_
    · intro hdisc _
      simp [Thread.inWork, hdisc]
    · exact fun tm htm => ⟨htm, fun _ hid harmed => ⟨hid, by simpa [Thread.armed, hpc] using harmed⟩⟩
  | @callWork tid u hu hpc =>
    obtain rfl : tid = i := hsolo
    obtain rfl : u = t := Option.some.inj (hu.symm.trans hin.thread)
    refine Inv.move hin hinv (by simp) rfl hin.worker rfl rfl ⟨rfl, rfl, rfl, rfl⟩
      (by simp [Pc.holds]) (by simp) (by simp [hpc]) ?_ ?_
    · intro hdisc hcur
      simpa [Thread.inWork, hpc, hdisc] using hcur
    · exact fun tm htm => ⟨htm, fun _ hid harmed => ⟨hid, by simpa [Thread.armed, hpc] using harmed⟩⟩
  | @returnWork tid u ret data hu hpc hcalling =>
    obtain rfl : tid = i := hsolo
    obtain rfl : u = t := Option.some.inj (hu.symm.trans hin.thread)
    refine Inv.move hin hinv (by simp) rfl hin.worker rfl rfl ⟨rfl, rfl, by simp, by simp⟩
      (by simp [Pc.holds]) (by simp) (by simp [hpc]) ?_ ?_
    · intro hdisc hcur
      simpa [Thread.inWork, hpc, hdisc] using hcur
    · exact fun tm htm => ⟨htm, fun _ hid harmed => ⟨hid, by simpa [Thread.armed, hpc] using harmed⟩⟩
  | @clearCurrent tid u hu hpc =>
    obtain rfl : tid = i := hsolo
    obtain rfl : u = t := Option.some.inj (hu.symm.trans hin.thread)
    refine Inv.move hin hinv (by simp) rfl (hin.modify _) rfl rfl ⟨rfl, rfl, rfl, rfl⟩
      (by simp [Pc.holds]) (by simp) (by simp [hpc]) (by simp [Thread.inWork]) ?_
    exact fun tm htm => ⟨htm, fun _ hid harmed => ⟨hid, by simpa [Thread.armed, hpc] using harmed⟩⟩
  | @keepTimer tid u hu hpc htest =>
    obtain rfl : tid = i := hsolo
    obtain rfl : u = t := Option.some.inj (hu.symm.trans hin.thread)
    refine Inv.move hin hinv (by simp) rfl hin.worker rfl rfl ⟨rfl, rfl, rfl, rfl⟩
      (by simp [Pc.holds]) (by simp) (by simp [hpc]) (by simp [Thread.inWork, hpc]) ?_
    refine fun tm htm => ⟨htm, fun _ _ harmed => ?_⟩
    rcases htest with htest | htest <;> simp [Thread.armed, htest] at harmed
  | @dropTimer tid u hu hpc htimeout hdisc =>
    obtain rfl : tid = i := hsolo
    obtain rfl : u = t := Option.some.inj (hu.symm.trans hin.thread)
    refine Inv.move hin hinv (by simp) rfl hin.worker rfl rfl ⟨rfl, rfl, rfl, rfl⟩
      (by simp [Pc.holds]) (by simp) (by simp [hpc]) (by simp [Thread.inWork, hpc]) ?_
    exact fun tm htm => ⟨htm, fun _ hid harmed => ⟨hid, by simpa [Thread.armed, hpc] using harmed⟩⟩
  | @deleteTimer tid u wk' hu hpc hwk =>
    obtain rfl : tid = i := hsolo
    obtain rfl : u = t := Option.some.inj (hu.symm.trans hin.thread)
    obtain rfl : wk' = wk := by
      rw [hin.wo, hin.worker] at hwk
      exact (Option.some.inj hwk).symm
    refine Inv.move hin hinv (by simp) rfl hin.worker rfl rfl ⟨rfl, rfl, rfl, rfl⟩
      (by simp [Pc.holds]) (by simp) (by simp [hpc]) (by simp [Thread.inWork, hpc]) ?_
    intro tm htm
    have htm' := List.mem_filter.mp htm
    exact ⟨htm'.1, fun _ hid => absurd hid (bne_iff_ne.mp htm'.2)⟩
  | @callCollect tid u hu hpc =>
    obtain rfl : tid = i := hsolo
    obtain rfl : u = t := Option.some.inj (hu.symm.trans hin.thread)
    refine Inv.move hin hinv (by simp) rfl hin.worker rfl rfl ⟨rfl, rfl, rfl, rfl⟩
      (by simp [Pc.holds]) (by simp) ⟨by simp [hpc], ?_⟩ (by simp [Thread.inWork, hpc]) ?_
    · intro collect data error timeout hmem
      simp only [List.mem_singleton, Event.collectCalled.injEq] at hmem
      exact ⟨rfl, hmem.2.2.2.2.2⟩
    · exact fun tm htm => ⟨htm, by simp [Thread.armed, hpc]⟩
  | @fire id created tm wk' htm hid hwk => exact Inv.fire hin hinv htm hid (hsolo tm htm hid) hwk
  | _ => exact absurd hsolo (by simp [Solo])

end Solo

open Solo

/-- **Replacement and timeout agree** in a run of the thread and its callback if and
only if each callback created a thread where, and only where, `current` was set. -/
theorem replacement_iff [Payload β] {i : ℕ} {t : Thread ι β}
    {moves : List (Move (Executor ι β) (Action ι β) (Event ι β))} {h : List (Event ι β)}
    {s₀ s : Executor ι β} {collect : TaskCollect ι} {data : β} {error : ℤ} {timeout : Bool}
    (ht : TaskTaken s₀ i t) (hrun : (executorSystem ι β).Run s₀ moves h s)
    (hsolo : ∀ m ∈ moves, Solo i t.wo m)
    (hdone : .collectCalled i t.ticket collect data error timeout ∈ h) :
    ((∃ marked r, .fired t.ticket marked (some r) ∈ h) ↔ timeout = true) ↔
      ∀ m ∈ moves, CurrentIffCreated t.wo m := by
  have hinv : Inv i t moves h s := by
    clear hdone
    induction hrun with
    | init =>
      obtain ⟨wk, hwk, hid, hcur⟩ := ht.worker
      refine ⟨t, wk, ⟨ht.thread, rfl, rfl, ht.timeout, by simp [ht.pc, Pc.holds], hwk, hid,
        ht.wo_lt, by simp⟩, .inl ⟨by simp, by simp, ht.discarded, ?_, ?_⟩⟩
      · simp [hcur, Thread.inWork, ht.pc]
      · exact fun tm htm hslot => absurd hslot (ht.timers tm htm)
    | step _ hs ih =>
      exact (ih fun m hm => hsolo m (List.mem_append_left _ hm)).step
        (hsolo _ (by simp)) (Executor.step_cases hs)
  obtain ⟨t', wk, hin, hcase⟩ := hinv
  rw [(hin.collect _ _ _ _ hdone).2]
  rcases hcase with H | ⟨current, created, H⟩
  · have hnone : ¬∃ marked r, .fired t.ticket marked (some r) ∈ h := by
      rintro ⟨marked, r, hmem⟩
      exact H.none_fired _ _ _ hmem
    rw [H.discarded]
    exact iff_of_true (iff_of_false hnone (by simp)) H.holds_when
  · rw [H.replaced, H.discarded, H.holds_when]
    cases current <;> cases created <;> decide

/-! ## Explicit runs -/

/-- One worker that has just taken a task with a timeout. -/
def takenState : Executor Unit (List UInt8) :=
  (((executorSystem Unit (List UInt8)).exec (fun _ => true) [] (Executor.started 1 1)
    (dispatchSteps [] 5 ++ [Action.thread 0])).map Prod.snd).getD (Executor.started 1 1)

/-- Its thread. -/
def takenThread : Thread Unit (List UInt8) :=
  { wo := 0, pc := .got, task := dispatchTask ⟨(), (), [], 5⟩, err := 0, ticket := 0 }

private theorem taskTaken_takenState : TaskTaken takenState 0 takenThread where
  thread := rfl
  pc := rfl
  timeout := by decide
  discarded := rfl
  worker := ⟨⟨0, some 0, 0, none⟩, rfl, rfl, rfl⟩
  wo_lt := by decide
  timers := by decide

/-- The thread runs `k` statements, the timer fires, and the thread goes on to its call of
`collect`, which is `left` statements away. -/
def soloSteps (k left : ℕ) : List (Action Unit (List UInt8)) :=
  let steps := List.replicate 3 (Action.thread 0) ++ [Action.workReturn 0 0 []] ++
    List.replicate left (Action.thread 0)
  steps.take k ++ [Action.fire 1 true] ++ steps.drop k

/-- A run that ends in the call of `collect`. -/
private theorem exists_solo (as : List (Action Unit (List UInt8)))
    (p : List (Event Unit (List UInt8)) → Bool)
    (he : (Lts.exec (executorSystem Unit (List UInt8)) (fun m => decide (Solo 0 0 m)) []
      takenState as).any (fun r => p r.1) = true) :
    ∃ moves h s, (executorSystem Unit (List UInt8)).Run takenState moves h s ∧
      (∀ m ∈ moves, Solo 0 0 m) ∧ p h = true := by
  obtain ⟨h, s, ⟨moves, hrun, hsolo⟩, hp⟩ := Lts.exists_reach_of_exec
    (executorSystem Unit (List UInt8)) (fun m => decide (Solo 0 0 m)) takenState as
    (fun h _ => p h) he
  exact ⟨moves, h, s, hrun, fun m hm => of_decide_eq_true (hsolo m hm), hp⟩

private def collectedWith (timeout : Bool) (h : List (Event Unit (List UInt8))) : Bool :=
  h.any fun
    | .collectCalled 0 0 _ _ _ b => b == timeout
    | _ => false

private theorem exists_collectCalled {timeout : Bool} {h : List (Event Unit (List UInt8))}
    (hp : collectedWith timeout h = true) :
    ∃ collect data error, .collectCalled 0 0 collect data error timeout ∈ h := by
  rw [collectedWith, List.any_eq_true] at hp
  obtain ⟨e, he, hp⟩ := hp
  split at hp <;> simp only [beq_iff_eq, Bool.false_eq_true] at hp
  subst hp
  exact ⟨_, _, _, he⟩

/-- The timer fires while the work function runs. -/
theorem replacement_iff_working : ∃ (moves : List (Move (Executor Unit (List UInt8))
      (Action Unit (List UInt8)) (Event Unit (List UInt8)))) (h : List (Event Unit (List UInt8))),
    collectedWith true h = true ∧
      (((∃ marked r, .fired 0 marked (some r) ∈ h) ↔ true = true) ↔
        ∀ m ∈ moves, CurrentIffCreated 0 m) := by
  obtain ⟨moves, h, s, hrun, hsolo, hp⟩ :=
    exists_solo (soloSteps 3 3) (collectedWith true) (by decide)
  obtain ⟨collect, data, error, hdone⟩ := exists_collectCalled hp
  exact ⟨moves, h, hp, replacement_iff taskTaken_takenState hrun hsolo hdone⟩

/-- The timer of task `0` fired, and a thread was created. -/
private def replaced (h : List (Event Unit (List UInt8))) : Bool :=
  h.any fun
    | .fired ticket _ (some _) => ticket == 0
    | _ => false

private theorem exists_fired {h : List (Event Unit (List UInt8))} (hp : replaced h = true) :
    ∃ marked r, .fired 0 marked (some r) ∈ h := by
  rw [replaced, List.any_eq_true] at hp
  obtain ⟨e, he, hp⟩ := hp
  split at hp <;> simp only [beq_iff_eq, Bool.false_eq_true] at hp
  subst hp
  exact ⟨_, _, he⟩

/-- The timer fires before `current` is set: a thread is created, and `collect` is not
told of a timeout. -/
theorem replacement_iff_fails :
    ¬∀ (s₀ s : Executor Unit (List UInt8)) (i : ℕ) (t : Thread Unit (List UInt8))
      (moves : List (Move (Executor Unit (List UInt8)) (Action Unit (List UInt8))
        (Event Unit (List UInt8)))) (h : List (Event Unit (List UInt8)))
      (collect : TaskCollect Unit) (data : List UInt8) (error : ℤ) (timeout : Bool),
      TaskTaken s₀ i t → (executorSystem Unit (List UInt8)).Run s₀ moves h s →
      (∀ m ∈ moves, Solo i t.wo m) →
      .collectCalled i t.ticket collect data error timeout ∈ h →
      ((∃ marked r, .fired t.ticket marked (some r) ∈ h) ↔ timeout = true) := by
  intro hall
  obtain ⟨moves, h, s, hrun, hsolo, hp⟩ := exists_solo (soloSteps 1 4)
    (fun h => collectedWith false h && replaced h) (by decide)
  rw [Bool.and_eq_true] at hp
  obtain ⟨collect, data, error, hdone⟩ := exists_collectCalled hp.1
  have := (hall _ _ _ _ _ _ _ _ _ _ taskTaken_takenState hrun hsolo hdone).mp (exists_fired hp.2)
  simp at this

end Vmon
