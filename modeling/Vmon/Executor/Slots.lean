import Vmon.Executor.Tickets

/-!
# Slots, threads and timers

A `Worker` slot is shared by the threads that were started on it one after the
other. As long as a timer fires only while its slot has a current task, and no
thread goes back for more once its task is discarded, at most one thread of a slot
is active at any time. Then `current` and `sched_id` are that thread's own, and a
pending timer is the one of its task.

## Main definitions

* `Thread.active`, `Thread.inWork`, `Thread.armed` — the phases that matter.
* `Orderly` — the condition on the moves of a run.
* `Slots`, `Timers` — the invariants; `slots_of_reach`, `timers_of_reach`.
-/

namespace Vmon

variable {ι β : Type}

/-! ## Phases of a thread -/

namespace Thread

/-- The thread has not ended, and its task, if it has one, is not discarded. -/
def active (t : Thread ι β) : Bool :=
  t.pc != .exited && !(t.pc.holds && t.task.td.discarded)

/-- `current` of its slot may point at its task. -/
def inWork (t : Thread ι β) : Bool :=
  (t.pc == .ready || t.pc == .working || t.pc == .worked) && !t.task.td.discarded

/-- It has armed a timer for its task, which has not fired, and not deleted it. -/
def armed (t : Thread ι β) : Bool :=
  (t.pc == .armed || t.pc == .ready || t.pc == .working || t.pc == .worked ||
    t.pc == .cleared || t.pc == .deleting) &&
    t.task.td.timeout != 0 && !t.task.td.discarded

/-- The phases in which its task is known to be not discarded. -/
structure Tidy (t : Thread ι β) : Prop where
  early : t.pc = .got ∨ t.pc = .armed ∨ t.pc = .deleting → t.task.td.discarded = false
  timeout : t.pc = .deleting → t.task.td.timeout ≠ 0

theorem active_of_inWork {t : Thread ι β} (h : t.inWork = true) : t.active = true := by
  cases hpc : t.pc <;> simp_all [inWork, active]

theorem active_of_armed {t : Thread ι β} (h : t.armed = true) : t.active = true := by
  cases hpc : t.pc <;> simp_all [armed, active]

/-- A thread in `ringbuffer_get` is active, and has no timer. -/
theorem get_phases {t : Thread ι β} (h : t.pc = .get ∨ t.pc = .waiting) :
    t.active = true ∧ t.inWork = false ∧ t.armed = false := by
  rcases h with h | h <;> simp [active, inWork, armed, h, Pc.holds]

/-- Marking a task in its work function takes the thread out of every phase. -/
theorem mark_phases {t : Thread ι β} (h : t.inWork = true) :
    t.mark.active = false ∧ t.mark.armed = false ∧ t.mark.Tidy := by
  refine ⟨?_, by simp [mark, armed, TaskData.setDiscarded], ?_, ?_⟩
  · cases hpc : t.pc <;> simp_all [inWork, active, mark, Pc.holds, TaskData.setDiscarded]
  all_goals
    intro hc
    cases hpc : t.pc <;> simp_all [inWork, mark]

theorem spawn_phases [Payload β] (w : ℕ) :
    (spawn w : Thread ι β).active = true ∧ (spawn w : Thread ι β).armed = false ∧
      (spawn w : Thread ι β).Tidy :=
  ⟨rfl, rfl, by simp [spawn], by simp [spawn]⟩

end Thread

/-! ## The condition -/

/-- A timer fires only while its slot has a current task, a collect function does not
send a thread with a discarded task back for more, and a pool that was stopped is
started again only when all its threads have ended. -/
def Orderly (m : Move (Executor ι β) (Action ι β) (Event ι β)) : Prop :=
  match m.action with
  | .fire id _ => ∀ tm ∈ m.pre.timers, tm.id = id →
      ∀ wk ∈ m.pre.workers[tm.wo]?, wk.current.isSome = true
  | .collectReturn tid ret => ∀ t ∈ m.pre.threads[tid]?,
      t.task.td.discarded = true → Executor.collectResult t ret ≠ 0
  | .start _ => m.pre.running = true ∨ ∀ t ∈ m.pre.threads, t.pc = .exited
  | _ => True

instance (m : Move (Executor ι β) (Action ι β) (Event ι β)) : Decidable (Orderly m) :=
  match m with
  | ⟨_, s, .fire id _⟩ => inferInstanceAs (Decidable (∀ tm ∈ s.timers, tm.id = id →
      ∀ wk ∈ s.workers[tm.wo]?, wk.current.isSome = true))
  | ⟨_, s, .collectReturn tid ret⟩ => inferInstanceAs (Decidable (∀ t ∈ s.threads[tid]?,
      t.task.td.discarded = true → Executor.collectResult t ret ≠ 0))
  | ⟨_, s, .start _⟩ => inferInstanceAs (Decidable (s.running = true ∨
      ∀ t ∈ s.threads, t.pc = .exited))
  | ⟨_, _, .thread _⟩ | ⟨_, _, .workReturn ..⟩ | ⟨_, _, .dispatch ..⟩ | ⟨_, _, .stop _⟩
  | ⟨_, _, .call _⟩ => inferInstanceAs (Decidable True)

/-! ## Slots -/

/-- The invariant of the slots. -/
structure Slots (s : Executor ι β) : Prop where
  length_eq : s.workers.length = s.workersCount
  id_eq : ∀ (w : ℕ) (wk : Worker), s.workers[w]? = some wk → wk.id = w
  wo_lt : ∀ (tid : ℕ) (t : Thread ι β), s.threads[tid]? = some t → t.wo < s.workersCount
  /-- A slot has one active thread at most. -/
  unique : ∀ (tid tid' : ℕ) (t t' : Thread ι β), s.threads[tid]? = some t →
    s.threads[tid']? = some t' → t.active = true → t'.active = true → t.wo = t'.wo → tid = tid'
  current : ∀ (w : ℕ) (wk : Worker) (tid : ℕ), s.workers[w]? = some wk → wk.current = some tid →
    ∃ t : Thread ι β, s.threads[tid]? = some t ∧ t.wo = w ∧ t.inWork = true
  tidy : ∀ (tid : ℕ) (t : Thread ι β), s.threads[tid]? = some t → t.Tidy
  queue : ∀ o task, s.tasks.elems o = some task → task.td.discarded = false

namespace Slots

variable {s s' : Executor ι β} {tid : ℕ} {t t' : Thread ι β}

/-- A step that leaves slots and threads alone. -/
theorem frame (H : Slots s) (hcount : s'.workersCount = s.workersCount)
    (hworkers : s'.workers = s.workers) (hthreads : s'.threads = s.threads)
    (hqueue : ∀ o task, s'.tasks.elems o = some task → task.td.discarded = false) : Slots s' where
  length_eq := by rw [hworkers, hcount, H.length_eq]
  id_eq := by rw [hworkers]; exact H.id_eq
  wo_lt := by rw [hthreads, hcount]; exact H.wo_lt
  unique := by rw [hthreads]; exact H.unique
  current := by rw [hworkers, hthreads]; exact H.current
  tidy := by rw [hthreads]; exact H.tidy
  queue := hqueue

/-- A statement of thread `tid`, which may write to its slot. -/
theorem move (H : Slots s) (ht : s.threads[tid]? = some t) (f : Worker → Worker)
    (hcount : s'.workersCount = s.workersCount)
    (hworkers : s'.workers = s.workers.modify t.wo f) (hid : ∀ wk, (f wk).id = wk.id)
    (hthreads : s'.threads = s.threads.set tid t') (hwo : t'.wo = t.wo)
    (hqueue : ∀ o task, s'.tasks.elems o = some task → task.td.discarded = false)
    (hactive : t'.active = true → t.active = true) (htidy : t'.Tidy)
    (hcurrent : ∀ wk c, (f wk).current = some c → (c = tid ∧ t'.inWork = true) ∨
      (wk.current = some c ∧ (t.inWork = true → t'.inWork = true))) : Slots s' where
  length_eq := by rw [hworkers, List.length_modify, hcount, H.length_eq]
  id_eq w wk hw := by
    rw [hworkers, getElem?_modify_some] at hw
    rcases hw with ⟨rfl, old, hold, rfl⟩ | ⟨-, hw⟩
    · rw [hid, H.id_eq _ old hold]
    · exact H.id_eq w wk hw
  wo_lt j u hu := by
    rw [hthreads, getElem?_set_some ht] at hu
    rw [hcount]
    rcases hu with ⟨rfl, rfl⟩ | ⟨-, hu⟩
    · rw [hwo]
      exact H.wo_lt j t ht
    · exact H.wo_lt j u hu
  unique i j u v hu hv hau hav hslot := by
    rw [hthreads, getElem?_set_some ht] at hu hv
    rcases hu with ⟨rfl, rfl⟩ | ⟨-, hu⟩ <;> rcases hv with ⟨rfl, rfl⟩ | ⟨-, hv⟩
    · rfl
    · exact H.unique _ _ t v ht hv (hactive hau) hav (hwo ▸ hslot)
    · exact H.unique _ _ u t hu ht hau (hactive hav) (hwo ▸ hslot)
    · exact H.unique _ _ u v hu hv hau hav hslot
  current w wk c hw hc := by
    have hkeep : ∀ u, c ≠ tid → s.threads[c]? = some u → s'.threads[c]? = some u := by
      intro u hne hu
      rw [hthreads, getElem?_set_some ht]
      exact .inr ⟨hne, hu⟩
    have hself : s'.threads[tid]? = some t' := by
      rw [hthreads, getElem?_set_some ht]
      exact .inl ⟨rfl, rfl⟩
    rw [hworkers, getElem?_modify_some] at hw
    rcases hw with ⟨rfl, old, hold, rfl⟩ | ⟨hne, hw⟩
    · rcases hcurrent old c hc with ⟨rfl, hin⟩ | ⟨hcur, hin⟩
      · exact ⟨t', hself, hwo, hin⟩
      · obtain ⟨u, hu, huwo, huin⟩ := H.current _ old c hold hcur
        by_cases hcid : c = tid
        · subst hcid
          obtain rfl : u = t := Option.some.inj (hu.symm.trans ht)
          exact ⟨t', hself, hwo, hin huin⟩
        · exact ⟨u, hkeep u hcid hu, huwo, huin⟩
    · obtain ⟨u, hu, huwo, huin⟩ := H.current w wk c hw hc
      refine ⟨u, hkeep u ?_ hu, huwo, huin⟩
      rintro rfl
      obtain rfl : u = t := Option.some.inj (hu.symm.trans ht)
      exact hne huwo.symm
  tidy j u hu := by
    rw [hthreads, getElem?_set_some ht] at hu
    rcases hu with ⟨rfl, rfl⟩ | ⟨-, hu⟩
    · exact htidy
    · exact H.tidy j u hu
  queue := hqueue

/-- A statement of thread `tid` that leaves its slot alone. -/
theorem move_thread (H : Slots s) (ht : s.threads[tid]? = some t)
    (hcount : s'.workersCount = s.workersCount) (hworkers : s'.workers = s.workers)
    (hthreads : s'.threads = s.threads.set tid t') (hwo : t'.wo = t.wo)
    (hqueue : ∀ o task, s'.tasks.elems o = some task → task.td.discarded = false)
    (hactive : t'.active = true → t.active = true) (htidy : t'.Tidy)
    (hinWork : t.inWork = true → t'.inWork = true) : Slots s' :=
  H.move ht id hcount (by simp [hworkers]) (fun _ => rfl) hthreads hwo hqueue hactive htidy
    fun _ _ hc => .inr ⟨hc, hinWork⟩

end Slots

/-! ## Timers -/

/-- The invariant of the timers: a pending timer is that of the task of an active
thread, and is the one the slot of that thread names. -/
structure Timers (h : List (Event ι β)) (s : Executor ι β) : Prop where
  owner : ∀ tm ∈ s.timers, ∃ (tid : ℕ) (t : Thread ι β), s.threads[tid]? = some t ∧
    t.wo = tm.wo ∧ t.ticket = tm.ticket ∧ t.armed = true
  schedId : ∀ (tid : ℕ) (t : Thread ι β), s.threads[tid]? = some t → t.armed = true →
    ∃ wk : Worker, s.workers[t.wo]? = some wk ∧ .armed tid t.ticket wk.schedId ∈ h ∧
      ∀ tm ∈ s.timers, tm.wo = t.wo → tm.id = wk.schedId

namespace Timers

variable {h es : List (Event ι β)} {s s' : Executor ι β} {tid : ℕ} {t t' : Thread ι β}

/-- A step that leaves slots, threads and timers alone. -/
theorem frame (H : Timers h s) (hworkers : s'.workers = s.workers)
    (hthreads : s'.threads = s.threads) (htimers : s'.timers = s.timers) :
    Timers (h ++ es) s' where
  owner := by rw [hthreads, htimers]; exact H.owner
  schedId j u hu harmed := by
    rw [hthreads] at hu
    obtain ⟨wk, hwk, hmem, hall⟩ := H.schedId j u hu harmed
    exact ⟨wk, hworkers ▸ hwk, List.mem_append_left _ hmem, htimers ▸ hall⟩

/-- A statement of thread `tid` that neither arms nor deletes its timer. -/
theorem move (H : Timers h s) (ht : s.threads[tid]? = some t) (f : Worker → Worker)
    (hworkers : s'.workers = s.workers.modify t.wo f)
    (hschedId : ∀ wk, (f wk).schedId = wk.schedId)
    (hthreads : s'.threads = s.threads.set tid t') (htimers : s'.timers = s.timers)
    (hwo : t'.wo = t.wo) (harmed : t'.armed = true ↔ t.armed = true)
    (hticket : t.armed = true → t'.ticket = t.ticket) : Timers (h ++ es) s' where
  owner tm htm := by
    rw [htimers] at htm
    obtain ⟨j, u, hu, huwo, hutk, huarmed⟩ := H.owner tm htm
    rw [hthreads]
    by_cases hj : j = tid
    · subst hj
      obtain rfl : u = t := Option.some.inj (hu.symm.trans ht)
      exact ⟨j, t', (getElem?_set_some ht _).mpr (.inl ⟨rfl, rfl⟩), hwo.trans huwo,
        (hticket huarmed).trans hutk, harmed.mpr huarmed⟩
    · exact ⟨j, u, (getElem?_set_some ht _).mpr (.inr ⟨hj, hu⟩), huwo, hutk, huarmed⟩
  schedId j u hu huarmed := by
    have hslot : ∀ (w : ℕ) (wk : Worker), s.workers[w]? = some wk →
        ∃ wk', s'.workers[w]? = some wk' ∧ wk'.schedId = wk.schedId := by
      intro w wk hw
      rw [hworkers, List.getElem?_modify, hw]
      refine ⟨_, rfl, ?_⟩
      split
      · exact hschedId wk
      · rfl
    have hprev : ∃ v : Thread ι β, s.threads[j]? = some v ∧ v.armed = true ∧ u.wo = v.wo ∧
        u.ticket = v.ticket := by
      rw [hthreads, getElem?_set_some ht] at hu
      rcases hu with ⟨rfl, rfl⟩ | ⟨-, hu⟩
      · have htarmed := harmed.mp huarmed
        exact ⟨t, ht, htarmed, hwo, hticket htarmed⟩
      · exact ⟨u, hu, huarmed, rfl, rfl⟩
    obtain ⟨v, hv, hvarmed, hvwo, hvtk⟩ := hprev
    obtain ⟨wk, hwk, hmem, hall⟩ := H.schedId j v hv hvarmed
    obtain ⟨wk', hwk', hid⟩ := hslot _ _ hwk
    rw [hvwo, hvtk, htimers]
    exact ⟨wk', hwk', by rw [hid]; exact List.mem_append_left _ hmem, by rw [hid]; exact hall⟩

/-- A statement of thread `tid` outside the phases of its timer, and not writing to its slot. -/
theorem move_thread (H : Timers h s) (ht : s.threads[tid]? = some t)
    (hworkers : s'.workers = s.workers) (hthreads : s'.threads = s.threads.set tid t')
    (htimers : s'.timers = s.timers) (hwo : t'.wo = t.wo) (harmed : t'.armed = true ↔ t.armed = true)
    (hticket : t.armed = true → t'.ticket = t.ticket) : Timers (h ++ es) s' :=
  H.move ht id (by simp [hworkers]) (fun _ => rfl) hthreads htimers hwo harmed hticket

/-- The thread arms a timer for its task, with a new id. -/
theorem arm (H : Timers h s) (HS : Slots s) (ht : s.threads[tid]? = some t) (id : ℕ) (delay : ℤ)
    (hactive : t.active = true) (hnot : t.armed = false)
    (hworkers : s'.workers = s.workers.modify t.wo fun wk => { wk with schedId := id })
    (hthreads : s'.threads = s.threads.set tid t')
    (htimers : s'.timers = s.timers ++ [⟨id, t.wo, delay, t.ticket⟩])
    (hwo : t'.wo = t.wo) (hticket : t'.ticket = t.ticket) (harmed : t'.armed = true) :
    Timers (h ++ [Event.armed tid t.ticket id]) s' := by
  -- no other thread of the slot is active, so none has a timer there
  have hfree : ∀ (j : ℕ) (u : Thread ι β), s.threads[j]? = some u → u.armed = true →
      u.wo ≠ t.wo := by
    intro j u hu huarmed hslot
    have hj := HS.unique j tid u t hu ht (Thread.active_of_armed huarmed) hactive hslot
    subst hj
    obtain rfl : u = t := Option.some.inj (hu.symm.trans ht)
    rw [hnot] at huarmed
    simp at huarmed
  have hself : s'.threads[tid]? = some t' := by
    rw [hthreads, getElem?_set_some ht]
    exact .inl ⟨rfl, rfl⟩
  constructor
  · intro tm htm
    rw [htimers, List.mem_append, List.mem_singleton] at htm
    rcases htm with htm | rfl
    · obtain ⟨j, u, hu, huwo, hutk, huarmed⟩ := H.owner tm htm
      refine ⟨j, u, ?_, huwo, hutk, huarmed⟩
      rw [hthreads, getElem?_set_some ht]
      refine .inr ⟨?_, hu⟩
      rintro rfl
      obtain rfl : u = t := Option.some.inj (hu.symm.trans ht)
      exact hfree j u hu huarmed rfl
    · exact ⟨tid, t', hself, hwo, hticket, harmed⟩
  · intro j u hu huarmed
    rw [hthreads, getElem?_set_some ht] at hu
    rcases hu with ⟨rfl, rfl⟩ | ⟨-, hu⟩
    · -- the thread itself: the only timer of the slot is the new one
      have hlt : t.wo < s.workers.length := by rw [HS.length_eq]; exact HS.wo_lt j t ht
      refine ⟨{ s.workers[t.wo] with schedId := id }, ?_, by simp [hticket], ?_⟩
      · rw [hworkers, hwo, List.getElem?_modify_eq, List.getElem?_eq_getElem hlt]
        rfl
      · intro tm htm hslot
        rw [htimers, List.mem_append, List.mem_singleton] at htm
        rcases htm with htm | rfl
        · obtain ⟨i, v, hv, hvwo, -, hvarmed⟩ := H.owner tm htm
          exact absurd (hvwo.trans (hslot.trans hwo)) (hfree i v hv hvarmed)
        · rfl
    · -- another thread: it has another slot
      have hne := hfree j u hu huarmed
      obtain ⟨wk, hwk, hmem, hall⟩ := H.schedId j u hu huarmed
      refine ⟨wk, ?_, List.mem_append_left _ hmem, ?_⟩
      · rw [hworkers, List.getElem?_modify_ne _ _ (Ne.symm hne), hwk]
      · intro tm htm hslot
        rw [htimers, List.mem_append, List.mem_singleton] at htm
        rcases htm with htm | rfl
        · exact hall tm htm hslot
        · exact absurd hslot.symm hne

/-- The thread deletes the timer that its slot names. -/
theorem delete (H : Timers h s) (ht : s.threads[tid]? = some t) {wk : Worker}
    (hwk : s.workers[t.wo]? = some wk) (harmed : t.armed = true) (hnot : t'.armed = false)
    (hworkers : s'.workers = s.workers) (hthreads : s'.threads = s.threads.set tid t')
    (htimers : s'.timers = s.timers.filter fun tm => tm.id != wk.schedId) :
    Timers (h ++ es) s' := by
  obtain ⟨wk', hwk', -, hall⟩ := H.schedId tid t ht harmed
  obtain rfl : wk' = wk := Option.some.inj (hwk'.symm.trans hwk)
  constructor
  · intro tm htm
    rw [htimers, List.mem_filter, bne_iff_ne] at htm
    obtain ⟨j, u, hu, huwo, hutk, huarmed⟩ := H.owner tm htm.1
    refine ⟨j, u, ?_, huwo, hutk, huarmed⟩
    rw [hthreads, getElem?_set_some ht]
    refine .inr ⟨?_, hu⟩
    rintro rfl
    obtain rfl : u = t := Option.some.inj (hu.symm.trans ht)
    exact htm.2 (hall tm htm.1 huwo.symm)
  · intro j u hu huarmed
    rw [hthreads, getElem?_set_some ht] at hu
    rcases hu with ⟨rfl, rfl⟩ | ⟨-, hu⟩
    · rw [hnot] at huarmed
      simp at huarmed
    · obtain ⟨wk', hwk', hmem, hall'⟩ := H.schedId j u hu huarmed
      refine ⟨wk', hworkers ▸ hwk', List.mem_append_left _ hmem, ?_⟩
      intro tm htm
      rw [htimers, List.mem_filter] at htm
      exact hall' tm htm.1

end Timers

/-! ## Callbacks -/

section Fire

variable {h es : List (Event ι β)} {s : Executor ι β} {tm : Timer} {wk : Worker} {c : ℕ}

/-- Where `current` is set when a timer fires, it points at the task the timer was
armed for. -/
theorem Timers.target (HT : Timers h s) (HS : Slots s) (htm : tm ∈ s.timers)
    (hwk : s.workers[tm.wo]? = some wk) (hc : wk.current = some c) :
    ∃ t : Thread ι β, s.threads[c]? = some t ∧ t.wo = tm.wo ∧ t.ticket = tm.ticket ∧
      t.inWork = true ∧ t.armed = true ∧ ∀ tm' ∈ s.timers, tm'.wo = tm.wo → tm'.id = tm.id := by
  obtain ⟨u, hu, huwo, huin⟩ := HS.current _ wk c hwk hc
  obtain ⟨j, t, ht, htwo, httk, harmed⟩ := HT.owner tm htm
  have hj := HS.unique j c t u ht hu (Thread.active_of_armed harmed) (Thread.active_of_inWork huin)
    (htwo.trans huwo.symm)
  subst hj
  obtain rfl : u = t := Option.some.inj (hu.symm.trans ht)
  obtain ⟨wk', -, -, hall⟩ := HT.schedId j u hu harmed
  refine ⟨u, hu, huwo, httk, huin, harmed, fun tm' htm' hslot => ?_⟩
  rw [hall tm' htm' (hslot.trans huwo.symm), hall tm htm huwo.symm]

variable [Payload β] {created : Bool} {id : ℕ}

/-- The thread at `j` after a callback that found `current` set. -/
private theorem fire_thread (hc : wk.current = some c) {j : ℕ} {u : Thread ι β}
    (hu : (s.workerDiscard wk created).1.threads[j]? = some u) :
    (j = c ∧ ∃ t, s.threads[c]? = some t ∧ u = t.mark) ∨ (j ≠ c ∧ s.threads[j]? = some u) ∨
      (j = s.threads.length ∧ u = Thread.spawn wk.id) := by
  rcases Executor.workerDiscard_thread hu with ⟨t, ht, rfl⟩ | hnew
  · by_cases hj : c = j
    · subst hj
      exact .inl ⟨rfl, t, ht, by simp [hc]⟩
    · exact .inr (.inl ⟨Ne.symm hj, by simpa [hc, hj] using ht⟩)
  · exact .inr (.inr hnew)

/-- Every other thread is still there. -/
private theorem thread_fire (hid : wk.id < s.workersCount) (hc : wk.current = some c) {j : ℕ}
    {u : Thread ι β} (hj : j ≠ c) (hu : s.threads[j]? = some u) :
    (s.workerDiscard wk created).1.threads[j]? = some u := by
  rw [Executor.workerDiscard_of_lt hid, hc]
  have hlt := (List.getElem?_eq_some_iff.mp hu).1
  rw [List.getElem?_append_left (by simpa using hlt), Executor.markCurrent,
    List.getElem?_modify_ne _ _ (Ne.symm hj), hu]

theorem Slots.fire (HS : Slots s) (HT : Timers h s) (htm : tm ∈ s.timers)
    (hwk : s.workers[tm.wo]? = some wk) (hc : wk.current = some c) (timers : List Timer) :
    Slots { (s.workerDiscard wk created).1 with timers := timers } := by
  obtain ⟨t, ht, htwo, httk, hin, harmed, -⟩ := HT.target HS htm hwk hc
  have hid := HS.id_eq _ wk hwk
  have hlt : wk.id < s.workersCount := by rw [hid, ← htwo]; exact HS.wo_lt c t ht
  have hworkers : (s.workerDiscard wk created).1.workers = s.workers.modify tm.wo fun _ =>
      Executor.freshWorker tm.wo (if created then some s.threads.length else none) := by
    rw [Executor.workerDiscard_of_lt hlt, hid]
  obtain ⟨hmark, -, hmarktidy⟩ := Thread.mark_phases hin
  constructor
  · rw [hworkers]
    simp [HS.length_eq]
  · intro w wk' hw
    rw [hworkers, getElem?_modify_some] at hw
    rcases hw with ⟨rfl, -, -, rfl⟩ | ⟨-, hw⟩
    · rfl
    · exact HS.id_eq w wk' hw
  · intro j u hu
    rw [Executor.workerDiscard_workersCount]
    rcases fire_thread hc hu with ⟨rfl, v, hv, rfl⟩ | ⟨-, hu⟩ | ⟨-, rfl⟩
    · exact HS.wo_lt j v hv
    · exact HS.wo_lt j u hu
    · exact hlt
  · -- the marked thread is out, and the new one takes its place
    have hout : ∀ v : Thread ι β, s.threads[c]? = some v → v.mark.active = true → False := by
      intro v hv hav
      obtain rfl : v = t := Option.some.inj (hv.symm.trans ht)
      rw [hmark] at hav
      simp at hav
    have hplace : ∀ (j : ℕ) (u : Thread ι β), j ≠ c → s.threads[j]? = some u →
        u.active = true → u.wo ≠ wk.id := by
      intro j u hj hu hau hslot
      exact hj (HS.unique j c u t hu ht hau (Thread.active_of_inWork hin)
        (by rw [hslot, hid, htwo]))
    intro i j u v hu hv hau hav hslot
    rcases fire_thread hc hu with ⟨rfl, u', hu', rfl⟩ | ⟨hi, hu⟩ | ⟨rfl, rfl⟩
    · exact absurd hau fun h => hout u' hu' h
    · rcases fire_thread hc hv with ⟨rfl, v', hv', rfl⟩ | ⟨hj, hv⟩ | ⟨rfl, rfl⟩
      · exact absurd hav fun h => hout v' hv' h
      · exact HS.unique i j u v hu hv hau hav hslot
      · exact absurd hslot (hplace i u hi hu hau)
    · rcases fire_thread hc hv with ⟨rfl, v', hv', rfl⟩ | ⟨hj, hv⟩ | ⟨rfl, rfl⟩
      · exact absurd hav fun h => hout v' hv' h
      · exact absurd hslot.symm (hplace j v hj hv hav)
      · rfl
  · intro w wk' c' hw hc'
    rw [hworkers, getElem?_modify_some] at hw
    rcases hw with ⟨rfl, -, -, rfl⟩ | ⟨hne, hw⟩
    · simp [Executor.freshWorker] at hc'
    · obtain ⟨u, hu, huwo, huin⟩ := HS.current w wk' c' hw hc'
      refine ⟨u, thread_fire hlt hc ?_ hu, huwo, huin⟩
      rintro rfl
      obtain rfl : u = t := Option.some.inj (hu.symm.trans ht)
      exact hne (huwo.symm.trans htwo)
  · intro j u hu
    rcases fire_thread hc hu with ⟨rfl, v, hv, rfl⟩ | ⟨-, hu⟩ | ⟨-, rfl⟩
    · obtain rfl : v = t := Option.some.inj (hv.symm.trans ht)
      exact hmarktidy
    · exact HS.tidy j u hu
    · exact (Thread.spawn_phases _).2.2
  · rw [Executor.workerDiscard_tasks]
    exact HS.queue

theorem Timers.fire (HT : Timers h s) (HS : Slots s) (htm : tm ∈ s.timers) (hid : tm.id = id)
    (hwk : s.workers[tm.wo]? = some wk) (hc : wk.current = some c) :
    Timers (h ++ es) { (s.workerDiscard wk created).1 with
      timers := s.timers.filter fun tm => tm.id != id } := by
  obtain ⟨t, ht, htwo, httk, hin, harmed, hall⟩ := HT.target HS htm hwk hc
  have hwid := HS.id_eq _ wk hwk
  have hlt : wk.id < s.workersCount := by rw [hwid, ← htwo]; exact HS.wo_lt c t ht
  constructor
  · intro tm' htm'
    rw [List.mem_filter, bne_iff_ne] at htm'
    obtain ⟨j, u, hu, huwo, hutk, huarmed⟩ := HT.owner tm' htm'.1
    refine ⟨j, u, thread_fire hlt hc ?_ hu, huwo, hutk, huarmed⟩
    rintro rfl
    obtain rfl : u = t := Option.some.inj (hu.symm.trans ht)
    exact htm'.2 ((hall tm' htm'.1 (huwo.symm.trans htwo)).trans hid)
  · intro j u hu huarmed
    rcases fire_thread hc hu with ⟨rfl, v, hv, rfl⟩ | ⟨hj, hu⟩ | ⟨-, rfl⟩
    · obtain rfl : v = t := Option.some.inj (hv.symm.trans ht)
      rw [(Thread.mark_phases hin).2.1] at huarmed
      simp at huarmed
    · have hne : tm.wo ≠ u.wo := by
        intro hslot
        exact hj (HS.unique j c u t hu ht (Thread.active_of_armed huarmed)
          (Thread.active_of_inWork hin) (hslot.symm.trans htwo.symm))
      obtain ⟨wk', hwk', hmem, hall'⟩ := HT.schedId j u hu huarmed
      refine ⟨wk', ?_, List.mem_append_left _ hmem, ?_⟩
      · rw [Executor.workerDiscard_of_lt hlt, hwid]
        rw [List.getElem?_modify_ne _ _ hne, hwk']
      · intro tm' htm'
        exact hall' tm' (List.mem_filter.mp htm').1
    · rw [(Thread.spawn_phases _).2.1] at huarmed
      simp at huarmed

end Fire

/-! ## Starts -/

section Start

variable [Payload β] {h es : List (Event ι β)} {s : Executor ι β} {created : List Bool}

omit [Payload β] in
/-- A pool whose threads have all ended has no timer. -/
theorem Timers.nil_of_exited (HT : Timers h s) (hall : ∀ t ∈ s.threads, t.pc = .exited) :
    s.timers = [] := by
  rw [List.eq_nil_iff_forall_not_mem]
  intro tm htm
  obtain ⟨j, u, hu, -, -, huarmed⟩ := HT.owner tm htm
  simp [Thread.armed, hall u (List.mem_of_getElem? hu)] at huarmed

/-- The state that the loop of `executor_start` leaves, when no earlier thread is left. -/
theorem Slots.start (hall : ∀ t ∈ s.threads, t.pc = .exited)
    (hlen : created.length = s.workersCount) (hslots : s.workers.length = s.workersCount)
    (hwo : ∀ t ∈ s.threads, t.wo < s.workersCount)
    (hqueue : ∀ o task, s.tasks.elems o = some task → task.td.discarded = false) (err : ℤ) :
    Slots (s.startLoop err 0 created).1 := by
  obtain ⟨workers, heq, hwlen, hfresh⟩ := Executor.startLoop_eq s err 0 created
  rw [heq]
  have hclear : ∀ (w : ℕ) (wk : Worker), workers[w]? = some wk →
      ∃ thread, wk = Executor.freshWorker w thread := by
    intro w wk hw
    have hlt := (List.getElem?_eq_some_iff.mp hw).1
    rcases hfresh w wk hw with hf | ⟨-, hout⟩
    · exact hf
    · omega
  -- a thread is an earlier one that has ended, or one that has just started
  have hthread : ∀ (j : ℕ) (u : Thread ι β),
      (s.threads ++ Executor.startThreads 0 created)[j]? = some u →
      (u ∈ s.threads ∧ u.pc = .exited) ∨
      (∃ w < s.workersCount, u = Thread.spawn w) := by
    intro j u hu
    rcases List.mem_append.mp (List.mem_of_getElem? hu) with hmem | hmem
    · exact .inl ⟨hmem, hall u hmem⟩
    · obtain ⟨w, -, hlt, rfl⟩ := Executor.mem_startThreads hmem
      exact .inr ⟨w, by omega, rfl⟩
  constructor
  · exact hwlen.trans hslots
  · intro w wk hw
    obtain ⟨thread, rfl⟩ := hclear w wk hw
    rfl
  · intro j u hu
    rcases hthread j u hu with ⟨hmem, -⟩ | ⟨w, hw, rfl⟩
    · exact hwo u hmem
    · exact hw
  · intro i j u v hu hv hau hav hslot
    have hnew : ∀ (k : ℕ) (x : Thread ι β),
        (s.threads ++ Executor.startThreads 0 created)[k]? = some x → x.active = true →
        s.threads.length ≤ k ∧
          (Executor.startThreads 0 created)[k - s.threads.length]? = some x := by
      intro k x hx hax
      rw [List.getElem?_append] at hx
      split at hx
      · simp [Thread.active, hall x (List.mem_of_getElem? hx)] at hax
      · exact ⟨by omega, hx⟩
    obtain ⟨hi, hu⟩ := hnew i u hu hau
    obtain ⟨hj, hv⟩ := hnew j v hv hav
    have hpair := List.pairwise_iff_getElem.mp
      (Executor.pairwise_startThreads (ι := ι) (β := β) 0 created)
    obtain ⟨hil, rfl⟩ := List.getElem?_eq_some_iff.mp hu
    obtain ⟨hjl, rfl⟩ := List.getElem?_eq_some_iff.mp hv
    rcases Nat.lt_trichotomy (i - s.threads.length) (j - s.threads.length) with hlt | heq | hlt
    · have := hpair _ _ hil hjl hlt
      omega
    · omega
    · have := hpair _ _ hjl hil hlt
      omega
  · intro w wk c hw hc
    obtain ⟨thread, rfl⟩ := hclear w wk hw
    simp [Executor.freshWorker] at hc
  · intro j u hu
    rcases hthread j u hu with ⟨-, hpc⟩ | ⟨w, -, rfl⟩
    · exact ⟨by simp [hpc], by simp [hpc]⟩
    · exact (Thread.spawn_phases w).2.2
  · exact hqueue

theorem Timers.start (hall : ∀ t ∈ s.threads, t.pc = .exited) (htimers : s.timers = [])
    (err : ℤ) : Timers h (s.startLoop err 0 created).1 := by
  obtain ⟨workers, heq, -⟩ := Executor.startLoop_eq s err 0 created
  rw [heq]
  constructor
  · rw [htimers]
    simp
  · intro j u hu huarmed
    rcases List.mem_append.mp (List.mem_of_getElem? hu) with hmem | hmem
    · simp [Thread.armed, hall u hmem] at huarmed
    · obtain ⟨w, -, -, rfl⟩ := Executor.mem_startThreads hmem
      simp [(Thread.spawn_phases w).2.1] at huarmed

end Start

/-! ## Every orderly run -/

section Run

variable [Payload β] {h es : List (Event ι β)} {s s' : Executor ι β} {a : Action ι β}

omit [Payload β] in
/-- What lies in the queue after a get was there before it. -/
private theorem queue_get (HS : Slots s) {pc : Pc} {rb : RingBuffer (TaskData ι β)}
    {out : GetOutcome (TaskData ι β)} (hget : Executor.getSection pc s.tasks = (rb, out)) :
    ∀ o task, rb.elems o = some task → task.td.discarded = false := by
  have helems := (Executor.getSection_elems pc s.tasks).1
  rw [hget] at helems
  rw [helems]
  exact HS.queue

omit [Payload β] in
private theorem queue_put (HS : Slots s) {task : TaskData ι β} (hnew : task.td.discarded = false) :
    ∀ o task', (ringbufferPut s.tasks task).1.elems o = some task' →
      task'.td.discarded = false := by
  intro o task' h
  rcases ringbufferPut_elems h with rfl | h
  · exact hnew
  · exact HS.queue o task' h

/-- Every orderly step keeps both invariants. -/
theorem slots_step (HS : Slots s) (HT : Timers h s) (hok : Orderly ⟨h, s, a⟩)
    (hs : s.Steps a s' es) : Slots s' ∧ Timers (h ++ es) s' := by
  cases hs with
  | @wait tid t rb ht hpc hget =>
    obtain ⟨hactive, hwork, hnot⟩ := Thread.get_phases hpc
    exact ⟨HS.move_thread ht rfl rfl rfl rfl (queue_get HS hget) (fun _ => hactive)
      ⟨by simp, by simp⟩ (by simp [hwork]),
      HT.move_thread ht rfl rfl rfl rfl (by rw [hnot]; simp [Thread.armed]) (by simp [hnot])⟩
  | @take tid t rb task ht hpc hget =>
    obtain ⟨hactive, hwork, hnot⟩ := Thread.get_phases hpc
    obtain ⟨o, ho⟩ := (Executor.getSection_elems t.pc s.tasks).2 task (by rw [hget])
    exact ⟨HS.move_thread ht rfl rfl rfl rfl (queue_get HS hget) (fun _ => hactive)
      ⟨fun _ => HS.queue o task ho, by simp⟩ (by simp [hwork]),
      HT.move_thread ht rfl rfl rfl rfl (by rw [hnot]; simp [Thread.armed]) (by simp [hnot])⟩
  | @takeUndefined tid t rb ht hpc hget =>
    obtain ⟨hactive, hwork, hnot⟩ := Thread.get_phases hpc
    exact ⟨HS.move_thread ht rfl rfl rfl rfl (queue_get HS hget) (fun _ => hactive)
      ⟨by simp, by simp⟩ (by simp [hwork]),
      HT.move_thread ht rfl rfl rfl rfl (by rw [hnot]; simp [Thread.armed]) (by simp [hnot])⟩
  | @arm tid t ht hpc htimeout =>
    have hdisc := (HS.tidy tid t ht).early (.inl hpc)
    have hactive : t.active = true := by simp [Thread.active, hpc, hdisc]
    constructor
    · refine HS.move ht (fun wk => { wk with schedId := s.nextId }) rfl rfl (fun _ => rfl) rfl rfl
        HS.queue (fun _ => hactive) ⟨fun _ => hdisc, by simp⟩ ?_
      exact fun wk c hc => .inr ⟨hc, by simp [Thread.inWork, hpc]⟩
    · exact HT.arm HS ht s.nextId t.task.td.timeout hactive (by simp [Thread.armed, hpc])
        rfl rfl rfl rfl rfl (by simp [Thread.armed, htimeout, hdisc])
  | @skipTimer tid t ht hpc htimeout =>
    have hdisc := (HS.tidy tid t ht).early (.inl hpc)
    constructor
    · exact HS.move_thread ht rfl rfl rfl rfl HS.queue (by simp [Thread.active, hpc, hdisc])
        ⟨fun _ => hdisc, by simp⟩ (by simp [Thread.inWork, hpc])
    · exact HT.move_thread ht rfl rfl rfl rfl (by simp [Thread.armed, hpc, htimeout]) (by simp)
  | @setCurrent tid t ht hpc =>
    have hdisc := (HS.tidy tid t ht).early (.inr (.inl hpc))
    constructor
    · refine HS.move ht (fun wk => { wk with current := some tid }) rfl rfl (fun _ => rfl) rfl rfl
        HS.queue (by simp [Thread.active, hpc, hdisc]) ⟨by simp, by simp⟩ ?_
      intro wk c hc
      exact .inl ⟨(Option.some.inj hc).symm, by simp [Thread.inWork, hdisc]⟩
    · exact HT.move ht _ rfl (fun _ => rfl) rfl rfl rfl (by simp [Thread.armed, hpc]) (by simp)
  | @callWork tid t ht hpc =>
    constructor
    · exact HS.move_thread ht rfl rfl rfl rfl HS.queue (by simp [Thread.active, hpc, Pc.holds])
        ⟨by simp, by simp⟩ (by simp [Thread.inWork, hpc])
    · exact HT.move_thread ht rfl rfl rfl rfl (by simp [Thread.armed, hpc]) (by simp)
  | @returnWork tid t ret data ht hpc hcalling =>
    constructor
    · exact HS.move_thread ht rfl rfl rfl rfl HS.queue
        (by simp [Thread.active, hpc, Pc.holds]) ⟨by simp, by simp⟩
        (by simp [Thread.inWork, hpc])
    · exact HT.move_thread ht rfl rfl rfl rfl (by simp [Thread.armed, hpc]) (by simp)
  | @clearCurrent tid t ht hpc =>
    constructor
    · refine HS.move ht (fun wk => { wk with current := none }) rfl rfl (fun _ => rfl) rfl rfl
        HS.queue (by simp [Thread.active, hpc, Pc.holds]) ⟨by simp, by simp⟩ ?_
      exact fun wk c hc => by simp at hc
    · exact HT.move ht _ rfl (fun _ => rfl) rfl rfl rfl (by simp [Thread.armed, hpc]) (by simp)
  | @keepTimer tid t ht hpc htest =>
    constructor
    · exact HS.move_thread ht rfl rfl rfl rfl HS.queue (by simp [Thread.active, hpc, Pc.holds])
        ⟨by simp, by simp⟩ (by simp [Thread.inWork, hpc])
    · refine HT.move_thread ht rfl rfl rfl rfl ?_ (by simp)
      rcases htest with htest | htest <;> simp [Thread.armed, htest]
  | @dropTimer tid t ht hpc htimeout hdisc =>
    constructor
    · exact HS.move_thread ht rfl rfl rfl rfl HS.queue (by simp [Thread.active, hpc, Pc.holds])
        ⟨fun _ => hdisc, fun _ => htimeout⟩ (by simp [Thread.inWork, hpc])
    · exact HT.move_thread ht rfl rfl rfl rfl (by simp [Thread.armed, hpc]) (by simp)
  | @deleteTimer tid t wk ht hpc hwk =>
    have htidy := HS.tidy tid t ht
    have hdisc := htidy.early (.inr (.inr hpc))
    constructor
    · exact HS.move_thread ht rfl rfl rfl rfl HS.queue (by simp [Thread.active, hpc, hdisc])
        ⟨by simp, by simp⟩ (by simp [Thread.inWork, hpc])
    · exact HT.delete ht hwk (by simp [Thread.armed, hpc, hdisc, htidy.timeout hpc])
        (by simp [Thread.armed]) rfl rfl rfl
  | @callCollect tid t ht hpc =>
    constructor
    · exact HS.move_thread ht rfl rfl rfl rfl HS.queue (by simp [Thread.active, hpc, Pc.holds])
        ⟨by simp, by simp⟩ (by simp [Thread.inWork, hpc])
    · exact HT.move_thread ht rfl rfl rfl rfl (by simp [Thread.armed, hpc]) (by simp)
  | @loop tid t ret ht hpc hret =>
    have hdisc : t.task.td.discarded = false := by
      by_contra hc
      exact hok t ht (by simpa using hc) hret
    constructor
    · exact HS.move_thread ht rfl rfl rfl rfl HS.queue (by simp [Thread.active, hpc, hdisc])
        ⟨by simp, by simp⟩ (by simp [Thread.inWork, hpc])
    · exact HT.move_thread ht rfl rfl rfl rfl (by simp [Thread.armed, hpc]) (by simp)
  | @exit tid t ret ht hpc hret =>
    constructor
    · exact HS.move_thread ht rfl rfl rfl rfl HS.queue (by simp [Thread.active])
        ⟨by simp, by simp⟩ (by simp [Thread.inWork, hpc])
    · exact HT.move_thread ht rfl rfl rfl rfl (by simp [Thread.armed, hpc]) (by simp)
  | @fire id created tm wk htm hid hwk =>
    obtain ⟨c, hc⟩ := Option.isSome_iff_exists.mp (hok tm htm hid wk hwk)
    exact ⟨HS.fire HT htm hwk hc _, HT.fire HS htm hid hwk hc⟩
  | dispatchPut => exact ⟨HS.frame rfl rfl rfl (queue_put HS rfl), HT.frame rfl rfl rfl⟩
  | stopPut => exact ⟨HS.frame rfl rfl rfl (queue_put HS rfl), HT.frame rfl rfl rfl⟩
  | start hlen hrunning =>
    have hall : ∀ t ∈ s.threads, t.pc = .exited := by
      rcases hok with hc | hall
      · rw [hrunning] at hc
        simp at hc
      · exact hall
    have hwo : ∀ t ∈ s.threads, t.wo < s.workersCount := by
      intro t ht
      obtain ⟨j, hj⟩ := List.getElem?_of_mem ht
      exact HS.wo_lt j t hj
    exact ⟨Slots.start (s := { s with running := true }) hall hlen HS.length_eq hwo HS.queue 0,
      Timers.start (s := { s with running := true }) hall (HT.nil_of_exited hall) 0⟩
  | _ => exact ⟨HS.frame rfl rfl rfl HS.queue, HT.frame rfl rfl rfl⟩

theorem slots_of_reach {ok : Move (Executor ι β) (Action ι β) (Event ι β) → Prop} {n cap : ℕ}
    (hok : ∀ m, ok m → Orderly m)
    (hr : (executorSystem ι β).Reach ok (Executor.started n cap) h s) : Slots s ∧ Timers h s := by
  refine Lts.Reach.invariant (P := fun h s => Slots s ∧ Timers h s) ⟨?_, ?_⟩
    (fun _ _ _ _ _ _ H hm hs => slots_step H.1 H.2 (hok _ hm) (Executor.step_cases hs)) hr
  · exact Slots.start (by simp [Executor.executorInit]) (by simp [Executor.executorInit])
      (by simp [Executor.executorInit]) (by simp [Executor.executorInit])
      (by simp [Executor.executorInit, ringbufferClear]) 0
  · exact Timers.start (by simp [Executor.executorInit]) rfl 0

end Run

end Vmon
