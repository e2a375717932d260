import Vmon.RingBuffer.Concurrent

/-!
# Clearing a ring buffer

`ringbuffer_clear` next to the puts and gets of `Vmon.RingBuffer.Concurrent`. It sets
both positions back to the first slot and leaves `used` alone: with elements pending the
buffer counts them still, and reads their number from slots that `start` has moved off.

## Main definitions

* `ClearAction`, `ClearEvent`, `clearSystem` — the system with the fifth operation.
* `sinceClear` — what the history holds after its last clear.
* `Emptied` — the buffer is the queue of what came after the clear.
* `ringbuffer_clear_iff` — a run keeps it exactly when it clears empty buffers only.
-/

namespace Vmon

universe u

variable {α : Type u}

inductive ClearAction (α : Type u)
  | op (a : RbAction α)
  /-- Some thread runs `ringbuffer_clear`. -/
  | clear

inductive ClearEvent (α : Type u)
  | op (e : RbEvent α)
  | cleared

def RbState.stepClear (s : RbState α) : ClearAction α → Option (RbState α × List (ClearEvent α))
  | .op a => (s.step a).map fun r => (r.1, r.2.map .op)
  | .clear => some ({ s with rb := ringbufferClear s.rb }, [.cleared])

def clearSystem (α : Type u) : Lts (RbState α) (ClearAction α) (ClearEvent α) :=
  ⟨RbState.stepClear⟩

abbrev ClearMove (α : Type u) := Move (RbState α) (ClearAction α) (ClearEvent α)

namespace RingBuffer

/-- The events after the last clear, and all of them before the first. -/
def sinceClear (h : List (ClearEvent α)) : List (RbEvent α) :=
  h.foldl (fun seen e => match e with
    | .op e => seen ++ [e]
    | .cleared => []) []

@[simp] theorem sinceClear_nil : sinceClear ([] : List (ClearEvent α)) = [] := rfl

@[simp] theorem sinceClear_cleared (h : List (ClearEvent α)) : sinceClear (h ++ [.cleared]) = [] := by
  simp [sinceClear]

@[simp] theorem sinceClear_ops (h : List (ClearEvent α)) (es : List (RbEvent α)) :
    sinceClear (h ++ es.map .op) = sinceClear h ++ es := by
  induction es generalizing h with
  | nil => simp
  | cons e es ih =>
    have hone : sinceClear (h ++ [.op e]) = sinceClear h ++ [e] := by simp [sinceClear]
    rw [List.map_cons, ← List.singleton_append, ← List.append_assoc, ih, hone, List.append_assoc]
    rfl

/-- Once cleared, the buffer is the bounded queue of what was put and got since: it is
empty at first, takes `size` elements, and gives them back in order, and no older ones. -/
def Emptied (size : ℤ) (h : List (ClearEvent α)) (s : RbState α) : Prop :=
  .cleared ∈ h → FifoRefined size (sinceClear h) s

/-- The move does not clear a buffer that still holds elements. -/
def ClearsEmpty (m : ClearMove α) : Prop :=
  match m.action with
  | .clear => rbIsEmpty m.pre.rb = true
  | .op _ => True

/-! ## Runs that clear empty buffers -/

section EmptyBuffers

variable {cap : ℕ} {h : List (ClearEvent α)} {s s' : RbState α}

/-- A buffer that holds nothing holds nothing after a clear. -/
theorem Holds.clear {rb : RingBuffer α} {q : BoundedQueue α cap} (H : rb.Holds q)
    (hempty : rbIsEmpty rb = true) :
    (ringbufferClear rb).Holds (BoundedQueue.empty : BoundedQueue α cap) := by
  have hused : rb.used = 0 := by
    rw [H.used_eq, H.isEmpty_iff.mp hempty]
    rfl
  constructor
  · exact H.size_eq
  · exact H.elemSize_pos
  · exact H.fits
  · simpa [ringbufferClear] using hused
  · exact le_rfl
  · intro hcap
    simpa [ringbufferClear] using hcap
  · simp [ringbufferClear, hused]
  · intro k hk
    simp at hk

/-- **Every step keeps the invariant**, a clear as a new start. -/
theorem Refines.stepClear (hr : Refines cap (sinceClear h) s) {a : ClearAction α}
    {es : List (ClearEvent α)} (hok : ClearsEmpty ⟨h, s, a⟩)
    (hs : s.stepClear a = some (s', es)) : Refines cap (sinceClear (h ++ es)) s' := by
  cases a with
  | op a =>
    simp only [RbState.stepClear, Option.map_eq_some_iff] at hs
    obtain ⟨⟨t, es'⟩, hstep, heq⟩ := hs
    simp only [Prod.mk.injEq] at heq
    rw [← heq.1, ← heq.2, sinceClear_ops]
    exact hr.step hstep
  | clear =>
    simp only [RbState.stepClear, Option.some.injEq, Prod.mk.injEq] at hs
    rw [← hs.1, ← hs.2, sinceClear_cleared]
    obtain ⟨q, -, hq, -⟩ := hr
    exact ⟨.empty, [], hq.clear hok, rfl, .empty⟩

theorem refines_sinceClear {rb : RingBuffer α} {elemSize : ℕ} (he : 0 < elemSize)
    (hfit : SlotsFit cap elemSize) (hinit : ringbufferInit true cap elemSize = some rb)
    (hr : (clearSystem α).Reach ClearsEmpty (.start rb) h s) : Refines cap (sinceClear h) s := by
  apply Lts.Reach.invariant (P := fun h s => Refines cap (sinceClear h) s) ?_ ?_ hr
  · exact ⟨.empty, [], holds_init he hfit hinit, rfl, .empty⟩
  · intro h s a s' es _ hpre hok hs
    exact hpre.stepClear hok hs

end EmptyBuffers

/-! ## Runs that clear another one -/

section PendingElements

variable {size : ℤ} {rb : RingBuffer α} {moves : List (ClearMove α)} {h : List (ClearEvent α)}
  {s : RbState α}

/-- A clear that leaves the buffer empty found it so. -/
theorem clearsEmpty_of_emptied {s' : RbState α} {es : List (ClearEvent α)} {a : ClearAction α}
    (hs : (clearSystem α).step s a = some (s', es)) (hemptied : Emptied size (h ++ es) s') :
    ClearsEmpty ⟨h, s, a⟩ := by
  cases a with
  | op a => trivial
  | clear =>
    simp only [clearSystem, RbState.stepClear, Option.some.injEq, Prod.mk.injEq] at hs
    obtain ⟨rfl, rfl⟩ := hs
    have hfifo := hemptied (by simp)
    rw [sinceClear_cleared] at hfifo
    exact hfifo.empty_iff.mpr rfl

theorem clearsEmpty_of_run (hr : (clearSystem α).Run (.start rb) moves h s)
    (hall : ∀ moves' h' s', moves' <+: moves → (clearSystem α).Run (.start rb) moves' h' s' →
      Emptied size h' s') : ∀ m ∈ moves, ClearsEmpty m := by
  induction hr with
  | init => simp
  | @step moves h s s' a es hrun hs ih =>
    intro m hm
    rcases List.mem_append.mp hm with hm | hm
    · apply ih ?_ m hm
      intro moves' h' s' hpre
      exact hall moves' h' s' (hpre.trans (List.prefix_append _ _))
    · rw [List.mem_singleton.mp hm]
      exact clearsEmpty_of_emptied hs (hall _ _ _ (List.prefix_refl _) (hrun.step hs))

/-- The runs of the buffer without clears, after one on the fresh buffer. -/
theorem reach_cleared {h : List (RbEvent α)} {elemSize : ℕ}
    (hinit : ringbufferInit true size elemSize = some rb)
    (hr : (ringbufferSystem α).Reach (fun _ => True) (.start rb) h s) :
    (clearSystem α).Reach ClearsEmpty (.start rb) (.cleared :: h.map .op) s := by
  apply Lts.Reach.invariant
    (P := fun h s => (clearSystem α).Reach ClearsEmpty (.start rb) (.cleared :: h.map .op) s) ?_ ?_ hr
  · simp only [ringbufferInit, if_true, Option.some.injEq] at hinit
    have hempty : ClearsEmpty ⟨[], .start rb, .clear⟩ := by
      rw [← hinit]
      rfl
    have hstep : (clearSystem α).step (.start rb) .clear = some (.start rb, [.cleared]) := by
      rw [← hinit]
      rfl
    exact Lts.Reach.init.step hempty hstep
  · intro h s a s' es _ hreach _ hs
    have hstep : (clearSystem α).step s (.op a) = some (s', es.map .op) := by
      change (s.step a).map _ = _
      rw [show s.step a = some (s', es) from hs]
      rfl
    rw [List.map_append, ← List.cons_append]
    have hop : ClearsEmpty ⟨.cleared :: h.map .op, s, .op a⟩ := trivial
    exact hreach.step hop hstep

end PendingElements

end RingBuffer

open RingBuffer

/-- **A clear empties the buffer exactly when it is empty.** With any producers and
consumers, and as long as the slot offsets fit an `int`: a buffer is the queue of what
came after each clear, all along a run, exactly when no clear of the run finds elements. -/
theorem ringbuffer_clear_iff [Nontrivial α] {size : ℤ} {elemSize : ℕ} {rb : RingBuffer α}
    (hsize : 0 < size) (helem : 0 < elemSize)
    (hinit : ringbufferInit true size elemSize = some rb) :
    (∀ moves h s, (clearSystem α).Run (.start rb) moves h s →
      ((∀ moves' h' s', moves' <+: moves → (clearSystem α).Run (.start rb) moves' h' s' →
        Emptied size h' s') ↔ ∀ m ∈ moves, ClearsEmpty m)) ↔ SlotsFit size elemSize := by
  constructor
  · intro hall
    by_contra hfit
    apply not_fifo_of_not_fit hsize hinit hfit
    intro h s hr
    obtain ⟨moves, hrun, hok⟩ := reach_cleared hinit hr
    have hemptied := (hall _ _ _ hrun).mpr hok _ _ _ (List.prefix_refl _) hrun
    have hfifo := hemptied List.mem_cons_self
    have hsince := sinceClear_ops [ClearEvent.cleared] h
    rw [List.singleton_append] at hsince
    rwa [hsince] at hfifo
  · intro hfit moves h s hr
    lift size to ℕ using hsize.le
    constructor
    · exact clearsEmpty_of_run hr
    · intro hok moves' h' s' hpre hrun _
      have hreach : (clearSystem α).Reach ClearsEmpty (.start rb) h' s' :=
        ⟨moves', hrun, fun m hm => hok m (hpre.subset hm)⟩
      exact (refines_sinceClear helem hfit hinit hreach).fifoRefined hsize

/-- Two slots of one byte each. -/
def twoSlots : RingBuffer Bool := ⟨0, 2, 0, 0, 0, fun _ => none, 1⟩

theorem ringbuffer_clear_two_slots :
    (∀ moves h s, (clearSystem Bool).Run (.start twoSlots) moves h s →
      ((∀ moves' h' s', moves' <+: moves → (clearSystem Bool).Run (.start twoSlots) moves' h' s' →
        Emptied 2 h' s') ↔ ∀ m ∈ moves, ClearsEmpty m)) ↔ SlotsFit 2 1 :=
  ringbuffer_clear_iff (by decide) Nat.one_pos rfl

/-- One element of two, and a clear that leaves it counted. -/
theorem ringbuffer_clear_fails :
    ¬∀ (size : ℤ) (elemSize : ℕ) (rb : RingBuffer Bool), 0 < size → 0 < elemSize →
      ringbufferInit true size elemSize = some rb →
      ∀ moves h s, (clearSystem Bool).Run (.start rb) moves h s → Emptied size h s := by
  intro hall
  have hput : (clearSystem Bool).Run (.start twoSlots) [⟨[], _, .op (.put true)⟩]
      [.op (.put true 0)] ⟨(ringbufferPut twoSlots true).1, 0, 0⟩ := .step .init rfl
  have hclear : (clearSystem Bool).step ⟨(ringbufferPut twoSlots true).1, 0, 0⟩ .clear =
      some (⟨ringbufferClear (ringbufferPut twoSlots true).1, 0, 0⟩, [.cleared]) := rfl
  have hemptied := hall 2 1 twoSlots (by decide) Nat.one_pos rfl _ _ _ (hput.step hclear)
  have hempty : rbIsEmpty (ringbufferPut twoSlots true).1 = true :=
    clearsEmpty_of_emptied hclear hemptied
  exact absurd hempty (by decide)

end Vmon
