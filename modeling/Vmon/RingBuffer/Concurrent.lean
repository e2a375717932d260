import Vmon.Lib.Transition
import Vmon.RingBuffer
import Mathlib.Data.List.Induction

/-!
# Producers and consumers on one ring buffer

Any number of threads inside `ringbuffer_put` and `ringbuffer_get`, each locked
section being one step. A consumer that finds the buffer empty blocks; a signal
moves at most one blocked consumer to the woken ones, a spurious wake-up does so at
any time, and a woken consumer runs its section once it has the lock back, which
may be after any number of others had it.

The buffer refines the bounded queue of its size exactly when every slot offset
fits the `int` that `rb_item_at` stores it in. Past that bound the offset of some
slot turns negative, or falls on a slot in use.

## Main definitions

* `RbState`, `RbAction`, `RbEvent`, `ringbufferSystem` — the system.
* `accepted`, `delivered` — the elements put and got in a history.
* `FifoRefined` — what a bounded queue of `size` elements promises.
* `ringbuffer_fifo_iff` — the promise is kept exactly when the offsets fit.
* `NoLostWakeup` — no element stays while the consumers sleep.
-/

namespace Vmon

universe u

variable {α : Type u}

/-- A ring buffer and the threads inside `ringbuffer_get`: those blocked in
`pthread_cond_wait`, and those woken that have not taken the lock again. -/
structure RbState (α : Type u) where
  rb : RingBuffer α
  blocked : ℕ
  woken : ℕ

inductive RbAction (α : Type u)
  /-- A producer runs `ringbuffer_put`. -/
  | put (elem : α)
  /-- A consumer enters `ringbuffer_get`. -/
  | get
  /-- A blocked consumer wakes without a signal. -/
  | wakeSpurious
  /-- A woken consumer has the lock again. -/
  | reacquire

inductive RbEvent (α : Type u)
  | put (elem : α) (ret : ℤ)
  | got (elem : Option α)

namespace RbState

/-- Where a consumer goes after a locked section of `ringbuffer_get`. -/
def settle (r : RingBuffer α × GetOutcome α) (blocked woken : ℕ) :
    RbState α × List (RbEvent α) :=
  match r.2 with
  | .wait => (⟨r.1, blocked + 1, woken⟩, [])
  | .done elem => (⟨r.1, blocked, woken⟩, [.got elem])

def step (s : RbState α) : RbAction α → Option (RbState α × List (RbEvent α))
  | .put elem =>
    let r := ringbufferPut s.rb elem
    if ringbufferPutSignals s.rb && decide (0 < s.blocked) then
      some (⟨r.1, s.blocked - 1, s.woken + 1⟩, [.put elem r.2])
    else some (⟨r.1, s.blocked, s.woken⟩, [.put elem r.2])
  | .get => some (settle (ringbufferGet s.rb) s.blocked s.woken)
  | .wakeSpurious =>
    if 0 < s.blocked then some (⟨s.rb, s.blocked - 1, s.woken + 1⟩, []) else none
  | .reacquire =>
    if 0 < s.woken then some (settle (ringbufferGetWoken s.rb) s.blocked (s.woken - 1)) else none

end RbState

def ringbufferSystem (α : Type u) : Lts (RbState α) (RbAction α) (RbEvent α) := ⟨RbState.step⟩

/-- No thread is inside the buffer yet. -/
def RbState.start (rb : RingBuffer α) : RbState α := ⟨rb, 0, 0⟩

namespace RingBuffer

/-- The elements whose put returned `0`, in the order of the lock. -/
def accepted (h : List (RbEvent α)) : List α :=
  h.filterMap fun
    | .put elem ret => if ret = 0 then some elem else none
    | .got _ => none

/-- What the completed gets copied out, in the order of the lock. -/
def delivered (h : List (RbEvent α)) : List (Option α) :=
  h.filterMap fun
    | .put _ _ => none
    | .got elem => some elem

@[simp] theorem accepted_append (h h' : List (RbEvent α)) :
    accepted (h ++ h') = accepted h ++ accepted h' := List.filterMap_append

@[simp] theorem delivered_append (h h' : List (RbEvent α)) :
    delivered (h ++ h') = delivered h ++ delivered h' := List.filterMap_append

@[simp] theorem accepted_put (elem : α) (ret : ℤ) :
    accepted [.put elem ret] = if ret = 0 then [elem] else [] := by
  by_cases h : ret = 0 <;> simp [accepted, h]

@[simp] theorem accepted_got (elem : Option α) : accepted [RbEvent.got elem] = [] := rfl
@[simp] theorem accepted_nil : accepted ([] : List (RbEvent α)) = [] := rfl
@[simp] theorem delivered_put (elem : α) (ret : ℤ) : delivered [RbEvent.put elem ret] = [] := rfl
@[simp] theorem delivered_got (elem : Option α) : delivered [RbEvent.got elem] = [elem] := rfl
@[simp] theorem delivered_nil : delivered ([] : List (RbEvent α)) = [] := rfl

/-- The length of the abstract queue after a history. -/
def queueLength (h : List (RbEvent α)) : ℤ := (accepted h).length - (delivered h).length

/-- A ring buffer of `size` slots behaves as a bounded queue, after the history `h`. -/
structure FifoRefined (size : ℤ) (h : List (RbEvent α)) (s : RbState α) : Prop where
  used_bounds : 0 ≤ s.rb.used ∧ s.rb.used ≤ size
  start_bounds : 0 ≤ s.rb.start ∧ s.rb.start < size
  end_bounds : 0 ≤ s.rb.end_ ∧ s.rb.end_ < size
  end_eq : s.rb.end_ = (s.rb.start + s.rb.used) % size
  /-- What was delivered, then what is held, is what was accepted. -/
  fifo : delivered h ++ heldElems s.rb = (accepted h).map some
  /-- A put fails exactly on a full queue, and then changes nothing. -/
  put_ret : ∀ x, (ringbufferPut s.rb x).2 = if queueLength h = size then -1 else 0
  put_full : queueLength h = size → ∀ x, (ringbufferPut s.rb x).1 = s.rb
  full_iff : ringbufferFull s.rb = true ↔ queueLength h = size
  empty_iff : ringbufferEmpty s.rb = true ↔ queueLength h = 0

/-! ## The refinement, where the offsets fit -/

section Refinement

variable {cap : ℕ} {h : List (RbEvent α)} {s s' : RbState α}

/-- The invariant of every run: the buffer holds the queue that the history leads to. -/
def Refines (cap : ℕ) (h : List (RbEvent α)) (s : RbState α) : Prop :=
  ∃ (q : BoundedQueue α cap) (ds : List α),
    s.rb.Holds q ∧ delivered h = ds.map some ∧ BoundedQueue.Trace (accepted h) ds q

/-- A locked section of `ringbuffer_get` keeps the invariant. -/
theorem Refines.settle (hr : Refines cap h s) (waiters : ℤ) (blocked woken : ℕ) :
    Refines cap (h ++ (RbState.settle (ringbufferGetWoken { s.rb with waiters := waiters })
        blocked woken).2)
      (RbState.settle (ringbufferGetWoken { s.rb with waiters := waiters }) blocked woken).1 := by
  rcases hr with ⟨q, ds, hq, hds, htrace⟩
  have hq' := hq.waiters waiters
  rcases hq'.get_cases with ⟨-, hwait⟩ | ⟨x, q', rb', helems, hrb', hholds⟩
  · rw [hwait]
    exact ⟨q, ds, hq', by simpa [RbState.settle] using hds, by simpa [RbState.settle] using htrace⟩
  · rw [hrb']
    refine ⟨q', ds ++ [x], hholds, ?_, ?_⟩
    · simp [RbState.settle, hds]
    · simpa [RbState.settle] using htrace.get (BoundedQueue.get_eq_some.mpr helems)

/-- Every step keeps the invariant. -/
theorem Refines.step (hr : Refines cap h s) {a : RbAction α} {es : List (RbEvent α)}
    (hs : s.step a = some (s', es)) : Refines cap (h ++ es) s' := by
  cases a with
  | put x =>
    rcases hr with ⟨q, ds, hq, hds, htrace⟩
    have hrb : s'.rb = (ringbufferPut s.rb x).1 ∧ es = [.put x (ringbufferPut s.rb x).2] := by
      simp only [RbState.step] at hs
      split at hs <;> simp only [Option.some.injEq, Prod.mk.injEq] at hs <;>
        exact ⟨by rw [← hs.1], hs.2.symm⟩
    rcases hrb with ⟨hrb, rfl⟩
    rcases hq.put_cases x with ⟨-, hput⟩ | ⟨q', helems, hret, hholds⟩
    · rw [hput] at hrb ⊢
      exact ⟨q, ds, hrb ▸ hq, by simpa using hds, by simpa using htrace⟩
    · exact ⟨q', ds, hrb ▸ hholds, by simpa using hds,
        by simpa [hret] using htrace.put (BoundedQueue.put_eq_some.mpr helems)⟩
  | get =>
    simp only [RbState.step, Option.some.injEq] at hs
    have := hr.settle (s.rb.waiters + 1) s.blocked s.woken
    rw [ringbufferGet] at hs
    rwa [hs] at this
  | wakeSpurious =>
    simp only [RbState.step] at hs
    split at hs <;> simp at hs
    rcases hs with ⟨rfl, rfl⟩
    rw [List.append_nil]
    exact hr
  | reacquire =>
    simp only [RbState.step] at hs
    split at hs <;> simp only [Option.some.injEq, reduceCtorEq] at hs
    have := hr.settle s.rb.waiters s.blocked (s.woken - 1)
    rwa [hs] at this

/-- The buffer then keeps every promise of the queue. -/
theorem Refines.fifoRefined (hcap : (0 : ℤ) < cap) (hr : Refines cap h s) :
    FifoRefined cap h s := by
  rcases hr with ⟨q, ds, hq, hds, htrace⟩
  have hlaw := htrace.fifo
  have hbound := q.bounded
  have hlen : queueLength h = q.elems.length := by
    have := congrArg List.length hlaw
    simp only [List.length_append] at this
    simp only [queueLength, hds, List.length_map]
    omega
  have hfull : queueLength h = cap ↔ q.elems.length = cap := by rw [hlen]; omega
  refine ⟨?_, ⟨hq.start_nonneg, hq.start_lt (by omega)⟩, ?_, hq.end_eq, ?_, ?_, ?_, ?_, ?_⟩
  · rw [hq.used_eq]; omega
  · rw [hq.end_eq]
    exact ⟨Int.emod_nonneg _ hcap.ne', Int.emod_lt_of_pos _ hcap⟩
  · rw [hds, hq.heldElems_eq, ← hlaw, List.map_append]
  · intro x
    cases hput : q.put x with
    | none =>
      rw [if_pos (hfull.mpr (BoundedQueue.put_eq_none.mp hput)), hq.put_full hput]
    | some q' =>
      have hne : ¬queueLength h = cap := fun hc => by
        rw [BoundedQueue.put_eq_none.mpr (hfull.mp hc)] at hput
        simp at hput
      rw [if_neg hne, (hq.put hput).1]
  · intro hc x
    rw [hq.put_full (BoundedQueue.put_eq_none.mpr (hfull.mp hc))]
  · rw [ringbufferFull, hq.isFull_iff, hfull]
  · rw [ringbufferEmpty, hq.isEmpty_iff, hlen, ← List.length_eq_zero_iff]
    omega

theorem refines_of_reach {rb : RingBuffer α} {elemSize : ℕ} (he : 0 < elemSize)
    (hfit : SlotsFit cap elemSize)
    (hinit : ringbufferInit true cap elemSize = some rb)
    (hr : (ringbufferSystem α).Reach (fun _ => True) (.start rb) h s) : Refines cap h s :=
  Lts.Reach.invariant ⟨.empty, [], holds_init he hfit hinit, rfl, .empty⟩
    (fun _ _ _ _ _ _ hpre _ hs => hpre.step hs) hr

end Refinement

/-! ## The failure, where they do not -/

section Overflow

variable {size : ℤ} {elemSize : ℕ} {rb : RingBuffer α}

/-- Puts alone, up to the size, are all accepted. -/
private theorem reach_puts (hinit : ringbufferInit true size elemSize = some rb) (xs : List α)
    (hlen : (xs.length : ℤ) ≤ size) :
    ∃ h s, (ringbufferSystem α).Reach (fun _ => True) (.start rb) h s ∧
      accepted h = xs ∧ delivered h = [] ∧ s.blocked = 0 ∧ AfterPuts size elemSize xs s.rb := by
  induction xs using List.reverseRecOn with
  | nil => exact ⟨[], _, .init, rfl, rfl, rfl, .init hinit⟩
  | append_singleton xs x ih =>
    simp only [List.length_append, List.length_singleton, Nat.cast_add, Nat.cast_one] at hlen
    rcases ih (by omega) with ⟨h, s, hr, hacc, hdel, hblk, H⟩
    rcases H.put x (by omega) with ⟨hret, H'⟩
    have hstep : (ringbufferSystem α).step s (.put x) =
        some (⟨(ringbufferPut s.rb x).1, s.blocked, s.woken⟩, [.put x 0]) := by
      simp [ringbufferSystem, RbState.step, hblk, hret]
    exact ⟨_, _, hr.step trivial hstep, by simp [hacc], by simp [hdel], hblk, H'⟩

/-- Some slot offset does not fit an `int`: then some run breaks the promise. -/
theorem not_fifo_of_not_fit [Nontrivial α] (hs : 0 < size)
    (hinit : ringbufferInit true size elemSize = some rb) (hfit : ¬SlotsFit size elemSize) :
    ¬∀ h s, (ringbufferSystem α).Reach (fun _ => True) (.start rb) h s → FifoRefined size h s := by
  intro hall
  rcases exists_lost α hs hfit with ⟨xs, hlen, hlost⟩
  rcases reach_puts hinit xs hlen with ⟨h, s, hr, hacc, hdel, -, H⟩
  have hfifo := (hall h s hr).fifo
  rw [hacc, hdel, List.nil_append] at hfifo
  exact hlost s.rb H hfifo

end Overflow

end RingBuffer

open RingBuffer

/-- **The ring buffer is a bounded queue exactly when its slot offsets fit an `int`.**
Any number of producers and consumers, in any order. -/
theorem ringbuffer_fifo_iff [Nontrivial α] {size : ℤ} {elemSize : ℕ} {rb : RingBuffer α}
    (hsize : 0 < size) (helem : 0 < elemSize)
    (hinit : ringbufferInit true size elemSize = some rb) :
    (∀ h s, (ringbufferSystem α).Reach (fun _ => True) (.start rb) h s → FifoRefined size h s) ↔
      SlotsFit size elemSize := by
  constructor
  · intro hall
    by_contra hfit
    exact not_fifo_of_not_fit hsize hinit hfit hall
  · intro hfit h s hr
    lift size to ℕ using hsize.le
    exact (refines_of_reach helem hfit hinit hr).fifoRefined hsize

/-- Two slots of one byte each. -/
theorem ringbuffer_fifo_two_slots :
    (∀ h s, (ringbufferSystem Bool).Reach (fun _ => True)
      (.start ⟨0, 2, 0, 0, 0, fun _ => none, 1⟩) h s → FifoRefined 2 h s) ↔ SlotsFit 2 1 :=
  ringbuffer_fifo_iff (by decide) Nat.one_pos rfl

/-- A queue of one slot more than `2 ^ 24`, each the size of a `TaskData`, breaks it. -/
theorem ringbuffer_fifo_fails :
    ¬∀ (size : ℤ) (elemSize : ℕ) (rb : RingBuffer Bool), 0 < size → 0 < elemSize →
      ringbufferInit true size elemSize = some rb →
      ∀ h s, (ringbufferSystem Bool).Reach (fun _ => True) (.start rb) h s →
        FifoRefined size h s := by
  intro hall
  have hfit : ¬SlotsFit (2 ^ 24 + 1) 128 := by decide
  exact not_fifo_of_not_fit (by decide) rfl hfit
    (hall (2 ^ 24 + 1) 128 _ (by decide) (by decide) rfl)

/-! ## Wake-ups -/

/-- No wake-up is lost: while a consumer sleeps unsignalled, there are no more elements
than consumers on their way back to the lock. -/
structure NoLostWakeup (s : RbState α) : Prop where
  waiters_eq : s.rb.waiters = s.blocked + s.woken
  awake : 0 < s.blocked → s.rb.used ≤ s.woken
  /-- No element stays while every consumer inside `ringbuffer_get` sleeps. -/
  asleep : 0 < s.blocked → s.woken = 0 → s.rb.used ≤ 0

section Wakeups

variable {h : List (RbEvent α)} {s s' : RbState α}

/-- The counting invariant, with the bound from below that the test for an empty buffer
relies on. -/
structure Counted (s : RbState α) : Prop where
  nonneg : 0 ≤ s.rb.used
  waiters_eq : s.rb.waiters = s.blocked + s.woken
  awake : 0 < s.blocked → s.rb.used ≤ s.woken

/-- A consumer with the lock, counted in `waiters` and no longer blocked or woken, goes to
sleep on an empty buffer only, and takes an element of any other. -/
theorem Counted.settle (rb : RingBuffer α) (blocked woken : ℕ) (hnonneg : 0 ≤ rb.used)
    (hwaiters : rb.waiters = blocked + woken + 1) (hawake : 0 < blocked → rb.used ≤ woken + 1) :
    Counted (RbState.settle (ringbufferGetWoken rb) blocked woken).1 := by
  by_cases hempty : rb.used = 0
  · have hwait : ringbufferGetWoken rb = (rb, .wait) := by
      simp [ringbufferGetWoken, rbIsEmpty, hempty]
    rw [hwait]
    constructor
    · exact hnonneg
    · simp only [RbState.settle]
      omega
    · simp only [RbState.settle]
      omega
  · have hget : ringbufferGetWoken rb =
        ({ rb with waiters := rb.waiters - 1, used := rb.used - 1,
                   start := (rb.start + 1).tmod rb.size },
          .done (rb.elems (rbItemAt rb rb.start))) := by
      simp [ringbufferGetWoken, rbIsEmpty, hempty]
      rfl
    rw [hget]
    constructor
    · simp only [RbState.settle]
      omega
    · simp only [RbState.settle]
      omega
    · intro hblocked
      have := hawake hblocked
      simp only [RbState.settle]
      omega

/-- A put adds at most one element, and wakes a blocked consumer if it does. -/
theorem Counted.put (H : Counted s) (elem : α) {es : List (RbEvent α)}
    (hs : s.step (.put elem) = some (s', es)) : Counted s' := by
  have hwaiters := H.waiters_eq
  have hawake := H.awake
  have hnonneg := H.nonneg
  cases hfull : rbIsFull s.rb with
  | true =>
    simp only [RbState.step, ringbufferPutSignals, ringbufferPut, hfull, Bool.not_true,
      Bool.false_and, Bool.false_eq_true, if_false, Option.some.injEq, Prod.mk.injEq] at hs
    obtain ⟨rfl, -⟩ := hs
    exact H
  | false =>
    simp only [RbState.step, ringbufferPutSignals, ringbufferPut_of_not_full hfull, hfull,
      Bool.not_false, Bool.true_and, Bool.and_eq_true, decide_eq_true_eq] at hs
    split at hs <;> simp only [Option.some.injEq, Prod.mk.injEq] at hs <;> obtain ⟨rfl, -⟩ := hs
    · -- a blocked consumer is signalled
      constructor <;> simp only [RingBuffer.memcpyTo] <;> omega
    · -- nobody is blocked, since whoever is counts as a waiter
      have hnone : s.blocked = 0 := by omega
      constructor <;> simp only [RingBuffer.memcpyTo, hnone] <;> omega

theorem Counted.step (H : Counted s) {a : RbAction α} {es : List (RbEvent α)}
    (hs : s.step a = some (s', es)) : Counted s' := by
  have hwaiters := H.waiters_eq
  have hawake := H.awake
  cases a with
  | put elem => exact H.put elem hs
  | get =>
    simp only [RbState.step, Option.some.injEq] at hs
    have := Counted.settle { s.rb with waiters := s.rb.waiters + 1 } s.blocked s.woken H.nonneg
      (by simp only; omega) (fun hb => (hawake hb).trans (by omega))
    rw [ringbufferGet] at hs
    rwa [hs] at this
  | wakeSpurious =>
    simp only [RbState.step] at hs
    split at hs <;> simp only [Option.some.injEq, Prod.mk.injEq, reduceCtorEq] at hs
    obtain ⟨rfl, -⟩ := hs
    refine ⟨H.nonneg, ?_, ?_⟩
    · simp only
      omega
    · intro hb
      have := hawake (by omega)
      simp only
      omega
  | reacquire =>
    simp only [RbState.step] at hs
    split at hs <;> simp only [Option.some.injEq, reduceCtorEq] at hs
    have := Counted.settle s.rb s.blocked (s.woken - 1) H.nonneg (by omega)
      (fun hb => (hawake hb).trans (by omega))
    rwa [hs] at this

theorem counted_of_reach {size : ℤ} {elemSize : ℕ} {rb : RingBuffer α}
    (hinit : ringbufferInit true size elemSize = some rb)
    (hr : (ringbufferSystem α).Reach (fun _ => True) (.start rb) h s) : Counted s := by
  refine Lts.Reach.invariant (P := fun _ s => Counted s) ?_
    (fun _ _ _ _ _ _ H _ hs => H.step hs) hr
  simp only [ringbufferInit, if_true, Option.some.injEq] at hinit
  subst hinit
  constructor <;> simp [RbState.start, ringbufferClear]

end Wakeups

/-- **No wake-up is lost**, for any number of producers and consumers, in any order. -/
theorem ringbuffer_no_lost_wakeup {size : ℤ} {elemSize : ℕ} {rb : RingBuffer α}
    (hinit : ringbufferInit true size elemSize = some rb) {h : List (RbEvent α)} {s : RbState α}
    (hr : (ringbufferSystem α).Reach (fun _ => True) (.start rb) h s) : NoLostWakeup s := by
  have H := counted_of_reach hinit hr
  refine ⟨H.waiters_eq, H.awake, ?_⟩
  intro hblocked hwoken
  have := H.awake hblocked
  omega

/-- Two consumers go to sleep, and a put wakes one of them. -/
theorem ringbuffer_no_lost_wakeup_two_consumers : ∃ s : RbState Bool,
    s.blocked = 1 ∧ s.woken = 1 ∧ s.rb.used = 1 ∧ NoLostWakeup s := by
  obtain ⟨h, s, hr, hp⟩ := Lts.exists_reach_of_exec (ringbufferSystem Bool) (fun _ => true)
    (.start ⟨0, 2, 0, 0, 0, fun _ => none, 1⟩) [.get, .get, .put true]
    (fun _ s => s.blocked == 1 && s.woken == 1 && s.rb.used == 1) (by decide)
  simp only [Bool.and_eq_true, beq_iff_eq] at hp
  exact ⟨s, hp.1.1, hp.1.2, hp.2, ringbuffer_no_lost_wakeup
    (rfl : ringbufferInit true 2 1 = some _) (hr.mono fun _ _ => trivial)⟩

end Vmon
