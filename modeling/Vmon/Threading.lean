import Vmon.Lib.Transition
import Mathlib.Algebra.Order.Group.Int

/-!
# Events

`lib/threading.c`: a sticky flag that any number of threads wait for. Each locked section is one
step. A thread that finds the flag down blocks; a signal wakes one blocked thread, a spurious
wake-up or a timeout wakes one at any time, and a woken thread runs its section once it has the
lock back.

`event_set` signals once. So it wakes all that wait for the flag exactly when one thread at most is
blocked at that moment (`event_wakes_iff`); the others sleep on under a flag that is up.

## Main definitions

* `Event` — the struct; `eventInit`, `eventSet`, `eventClear`, `eventIsSet` and `eventWait` — the
  functions.
* `EventState`, `EventAction`, `Waited`, `eventSystem` — the system.
* `WakesAll` — the promise.
* `SetsOne` — the moves that keep it.
-/

namespace Vmon

namespace Threading

/-- `struct Event`, less its lock and its condition. -/
structure Event where
  nwaiters : ℤ
  flag : Bool
  deriving DecidableEq

def eventInit : Event := ⟨0, false⟩

/-- `event_set`, and whether it calls `pthread_cond_signal`. -/
def eventSet (ev : Event) : Event × Bool :=
  ({ ev with flag := true }, ev.nwaiters != 0)

def eventClear (ev : Event) : Event := { ev with flag := false }

def eventIsSet (ev : Event) : Bool := ev.flag

/-- How a locked section of `event_wait` ends. -/
inductive WaitOutcome
  | wait
  | done (ret : Bool)

/-- The loop of `event_wait` from a test of its condition on. -/
def eventWaitLoop (ev : Event) (rc : ℤ) : Event × WaitOutcome :=
  if !ev.flag && rc == 0 then (ev, .wait)
  else ({ ev with nwaiters := ev.nwaiters - 1 }, .done ev.flag)

/-- `event_wait`, up to its first wait or to its end. -/
def eventWait (ev : Event) : Event × WaitOutcome :=
  eventWaitLoop { ev with nwaiters := ev.nwaiters + 1 } 0

/-- Where a thread stands. -/
inductive WaitPc
  /-- Not in `event_wait`. -/
  | out
  /-- In `pthread_cond_timedwait`, and not signalled. -/
  | blocked
  /-- Awake, with the result of that call, and without the lock yet. -/
  | woken (rc : ℤ)
  deriving DecidableEq

/-- The thread counts as a waiter. -/
def WaitPc.waits (pc : WaitPc) : Bool := pc != .out

/-- An event, and the threads that may wait for it. -/
structure EventState where
  ev : Event
  threads : List WaitPc
  deriving DecidableEq

inductive EventAction
  /-- `event_set`, whose signal wakes the thread if it wakes one. -/
  | set (tid : ℕ)
  | clear
  | isSet
  /-- A thread enters `event_wait`. -/
  | wait (tid : ℕ)
  /-- A blocked thread wakes without a signal, by itself or by the time; the call returns `rc`. -/
  | wake (tid : ℕ) (rc : ℤ)
  /-- A woken thread has the lock again. -/
  | reacquire (tid : ℕ)

/-- What a call returned. -/
inductive Waited
  | isSet (ret : Bool)
  | waited (tid : ℕ) (ret : Bool)
  deriving DecidableEq

namespace EventState

/-- Where a thread goes after a locked section of `event_wait`. -/
def settle (s : EventState) (tid : ℕ) (r : Event × WaitOutcome) : EventState × List Waited :=
  match r.2 with
  | .wait => (⟨r.1, s.threads.set tid .blocked⟩, [])
  | .done ret => (⟨r.1, s.threads.set tid .out⟩, [.waited tid ret])

def step (s : EventState) : EventAction → Option (EventState × List Waited)
  | .set tid =>
    let r := eventSet s.ev
    if r.2 && decide (.blocked ∈ s.threads) then
      if s.threads[tid]? = some .blocked then some (⟨r.1, s.threads.set tid (.woken 0)⟩, [])
      else none
    else some (⟨r.1, s.threads⟩, [])
  | .clear => some (⟨eventClear s.ev, s.threads⟩, [])
  | .isSet => some (s, [.isSet (eventIsSet s.ev)])
  | .wait tid =>
    if s.threads[tid]? = some .out then some (s.settle tid (eventWait s.ev)) else none
  | .wake tid rc =>
    if s.threads[tid]? = some .blocked then some (⟨s.ev, s.threads.set tid (.woken rc)⟩, [])
    else none
  | .reacquire tid =>
    match s.threads[tid]? with
    | some (.woken rc) => some (s.settle tid (eventWaitLoop s.ev rc))
    | _ => none

/-- A fresh event among `n` threads. -/
def start (n : ℕ) : EventState := ⟨eventInit, List.replicate n .out⟩

end EventState

def eventSystem : Lts EventState EventAction Waited := ⟨EventState.step⟩

abbrev EventMove := Move EventState EventAction Waited

/-- **The promise**: under a flag that is up no thread sleeps, and the waiters are counted. -/
structure WakesAll (s : EventState) : Prop where
  awake : s.ev.flag = true → .blocked ∉ s.threads
  nwaiters_eq : s.ev.nwaiters = s.threads.countP WaitPc.waits

/-- A set finds one blocked thread at most. -/
def SetsOne (m : EventMove) : Prop :=
  match m.action with
  | .set _ => m.pre.threads.count .blocked ≤ 1
  | _ => True

instance (m : EventMove) : Decidable (SetsOne m) := by
  unfold SetsOne
  split <;> infer_instance

@[simp] theorem WaitPc.waits_out : waits .out = false := rfl
@[simp] theorem WaitPc.waits_blocked : waits .blocked = true := rfl
@[simp] theorem WaitPc.waits_woken (rc : ℤ) : waits (.woken rc) = true := rfl

/-! ## Counting threads -/

section Counts

variable {threads : List WaitPc} {tid : ℕ} {old : WaitPc}

/-- One thread moves. -/
theorem countP_move (p : WaitPc → Bool) (new : WaitPc) (h : threads[tid]? = some old) :
    (threads.set tid new).countP p + (p old).toNat = threads.countP p + (p new).toNat := by
  obtain ⟨hlt, rfl⟩ := List.getElem?_eq_some_iff.mp h
  rw [List.countP_set hlt]
  by_cases hp : p threads[tid] = true
  · have hpos : 0 < threads.countP p := List.countP_pos_iff.mpr ⟨_, List.getElem_mem hlt, hp⟩
    cases p new <;> simp only [hp, if_true, Bool.toNat_true] <;> simp <;> omega
  · cases p new <;> simp [hp]

theorem blocked_count : .blocked ∉ threads ↔ threads.countP (· == .blocked) = 0 :=
  List.count_eq_zero.symm

/-- Whoever is blocked waits. -/
theorem waits_of_blocked (h : .blocked ∈ threads) : 0 < threads.countP WaitPc.waits :=
  List.countP_pos_iff.mpr ⟨_, h, rfl⟩

end Counts

/-! ## One step -/

section Steps

variable {s s' : EventState} {es : List Waited} {tid : ℕ}

theorem eventWaitLoop_cases (ev : Event) (rc : ℤ) :
    (ev.flag = false ∧ eventWaitLoop ev rc = (ev, .wait)) ∨
      eventWaitLoop ev rc = ({ ev with nwaiters := ev.nwaiters - 1 }, .done ev.flag) := by
  by_cases h : ev.flag = false ∧ rc = 0
  · exact .inl ⟨h.1, by simp [eventWaitLoop, h.1, h.2]⟩
  · refine .inr ?_
    rw [eventWaitLoop, if_neg]
    simpa using h

/-- A thread in `event_wait` with the lock, counted in `nwaiters`: it sleeps under a flag that is
down only. -/
theorem WakesAll.settle {old : WaitPc} (ev : Event) (rc : ℤ) (ht : s.threads[tid]? = some old)
    (hcount : ev.nwaiters + old.waits.toNat = s.threads.countP WaitPc.waits + 1)
    (hawake : ev.flag = true → .blocked ∉ s.threads) :
    WakesAll (s.settle tid (eventWaitLoop ev rc)).1 := by
  obtain ⟨hflag, heq⟩ | heq := eventWaitLoop_cases ev rc
  · have hwaits := countP_move WaitPc.waits .blocked ht
    rw [heq]
    constructor
    · intro hup
      simp [EventState.settle, hflag] at hup
    · simp only [EventState.settle]
      simp only [WaitPc.waits_blocked, Bool.toNat_true] at hwaits
      omega
  · have hwaits := countP_move WaitPc.waits .out ht
    rw [heq]
    constructor
    · intro hup hmem
      rcases List.mem_or_eq_of_mem_set hmem with hmem | hmem
      · exact hawake hup hmem
      · cases hmem
    · simp only [EventState.settle]
      simp only [WaitPc.waits_out, Bool.toNat_false] at hwaits
      omega

/-- **A set** keeps the promise exactly where it finds one blocked thread at most. -/
theorem WakesAll.set_iff (H : WakesAll s) (hs : s.step (.set tid) = some (s', es)) :
    WakesAll s' ↔ s.threads.count .blocked ≤ 1 := by
  have hn := H.nwaiters_eq
  by_cases hmem : .blocked ∈ s.threads
  · have hpos := waits_of_blocked hmem
    have hsignal : (eventSet s.ev).2 = true := by
      simp only [eventSet, bne_iff_ne]
      omega
    simp only [EventState.step, hsignal, hmem, decide_true, Bool.and_self, if_true] at hs
    by_cases ht : s.threads[tid]? = some .blocked
    · simp only [ht, if_true, Option.some.injEq, Prod.mk.injEq] at hs
      obtain ⟨rfl, -⟩ := hs
      have hblocked := countP_move (· == .blocked) (.woken 0) ht
      have hwaits := countP_move WaitPc.waits (.woken 0) ht
      simp only [beq_self_eq_true, Bool.toNat_true,
        show (WaitPc.woken 0 == WaitPc.blocked) = false from rfl, Bool.toNat_false] at hblocked
      simp only [WaitPc.waits_blocked, WaitPc.waits_woken] at hwaits
      constructor
      · intro H'
        have := blocked_count.mp (H'.awake rfl)
        simp only at this
        rw [List.count]
        omega
      · intro hone
        rw [List.count] at hone
        constructor
        · intro _
          apply blocked_count.mpr
          simp only
          omega
        · simp only [eventSet]
          omega
    · simp [ht] at hs
  · -- nobody sleeps, so whether it signals makes no difference
    have hzero : s.threads.count .blocked = 0 := blocked_count.mp hmem
    simp only [EventState.step, hmem, decide_false, Bool.and_false, Bool.false_eq_true, if_false,
      Option.some.injEq, Prod.mk.injEq] at hs
    obtain ⟨rfl, -⟩ := hs
    constructor
    · intro _
      omega
    · intro _
      exact ⟨fun _ => hmem, hn⟩

/-- Every other step keeps it. -/
theorem WakesAll.step (H : WakesAll s) {a : EventAction} (hset : ∀ tid, a ≠ .set tid)
    (hs : s.step a = some (s', es)) : WakesAll s' := by
  have hn := H.nwaiters_eq
  cases a with
  | set tid => exact absurd rfl (hset tid)
  | clear =>
    simp only [EventState.step, Option.some.injEq, Prod.mk.injEq] at hs
    obtain ⟨rfl, -⟩ := hs
    exact ⟨fun hup => by simp [eventClear] at hup, hn⟩
  | isSet =>
    simp only [EventState.step, Option.some.injEq, Prod.mk.injEq] at hs
    obtain ⟨rfl, -⟩ := hs
    exact H
  | wait tid =>
    by_cases ht : s.threads[tid]? = some .out
    · simp only [EventState.step, ht, if_true, Option.some.injEq, eventWait] at hs
      have hcount : s.ev.nwaiters + 1 + (WaitPc.waits .out).toNat =
          s.threads.countP WaitPc.waits + 1 := by
        simp only [WaitPc.waits_out, Bool.toNat_false]
        omega
      have H' := settle { s.ev with nwaiters := s.ev.nwaiters + 1 } 0 ht hcount H.awake
      rwa [hs] at H'
    · simp [EventState.step, ht] at hs
  | wake tid rc =>
    by_cases ht : s.threads[tid]? = some .blocked
    · simp only [EventState.step, ht, if_true, Option.some.injEq, Prod.mk.injEq] at hs
      obtain ⟨rfl, -⟩ := hs
      have hwaits := countP_move WaitPc.waits (.woken rc) ht
      simp only [WaitPc.waits_blocked, WaitPc.waits_woken] at hwaits
      constructor
      · intro hup
        exact absurd (List.mem_of_getElem? ht) (H.awake hup)
      · simp only
        omega
    · simp [EventState.step, ht] at hs
  | reacquire tid =>
    simp only [EventState.step] at hs
    split at hs
    · next rc ht =>
      have hcount : s.ev.nwaiters + (WaitPc.waits (.woken rc)).toNat =
          s.threads.countP WaitPc.waits + 1 := by
        simp only [WaitPc.waits_woken, Bool.toNat_true]
        omega
      have H' := settle s.ev rc ht hcount H.awake
      rwa [Option.some.inj hs] at H'
    · cases hs

theorem WakesAll.step_iff (H : WakesAll s) {h : List Waited} {a : EventAction}
    (hs : s.step a = some (s', es)) : WakesAll s' ↔ SetsOne ⟨h, s, a⟩ := by
  by_cases hset : ∃ tid, a = .set tid
  · obtain ⟨tid, rfl⟩ := hset
    exact H.set_iff hs
  · have hother : ∀ tid, a ≠ .set tid := fun tid ha => hset ⟨tid, ha⟩
    have hok : SetsOne ⟨h, s, a⟩ := by
      cases a with
      | set tid => exact absurd rfl (hother tid)
      | _ => trivial
    exact iff_of_true (H.step hother hs) hok

end Steps

theorem wakesAll_start (n : ℕ) : WakesAll (.start n) := by
  constructor
  · intro hup
    simp [EventState.start, eventInit] at hup
  · simp [EventState.start, eventInit, List.countP_replicate]

/-! ## Runs -/

/-- **An event wakes all its waiters exactly when it is never set above two of them.** Any number
of threads, in any order: in every state of a run no thread sleeps under a flag that is up, and
`nwaiters` counts the waiters, if and only if each set of the run finds one blocked thread at
most. -/
theorem event_wakes_iff {n : ℕ} {moves : List EventMove} {h : List Waited} {s : EventState}
    (hr : eventSystem.Run (.start n) moves h s) :
    ((∀ m ∈ moves, WakesAll m.pre) ∧ WakesAll s) ↔ ∀ m ∈ moves, SetsOne m :=
  hr.always_iff (P := fun _ s => WakesAll s) (wakesAll_start n)
    fun _ _ _ _ _ _ _ H hs => H.step_iff hs

/-- One thread waits, and is woken by a set. -/
theorem event_wakes_one_waiter : ∃ (moves : List EventMove) (s : EventState),
    s.ev.flag = true ∧ s.threads = [.woken 0] ∧
      (((∀ m ∈ moves, WakesAll m.pre) ∧ WakesAll s) ↔ ∀ m ∈ moves, SetsOne m) := by
  obtain ⟨moves, h, s, hr, -, hp⟩ := Lts.exists_run_of_trace eventSystem (.start 1)
    [.wait 0, .set 0] (fun _ _ s => s.ev.flag && s.threads == [.woken 0]) (by decide)
  simp only [Bool.and_eq_true, beq_iff_eq] at hp
  exact ⟨moves, s, hp.1, hp.2, event_wakes_iff hr⟩

/-- Two threads wait, and a set leaves one of them asleep. -/
theorem event_wakes_fails : ¬∀ (n : ℕ) (moves : List EventMove) (h : List Waited) (s : EventState),
    eventSystem.Run (.start n) moves h s → WakesAll s := by
  intro hall
  obtain ⟨moves, h, s, hr, -, hp⟩ := Lts.exists_run_of_trace eventSystem (.start 2)
    [.wait 0, .wait 1, .set 0] (fun _ _ s => s.ev.flag && decide (.blocked ∈ s.threads)) (by decide)
  simp only [Bool.and_eq_true, decide_eq_true_eq] at hp
  exact (hall 2 moves h s hr).awake hp.1 hp.2

end Threading

end Vmon
