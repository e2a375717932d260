import Mathlib.Data.List.Basic

/-!
# Bounded first-in first-out queues

The abstract queue: a list no longer than its capacity, the bound being part of
the value. `put` fails exactly on a full queue and `get` exactly on an empty one.

A `Trace` records what a run of the queue accepted and what it delivered;
`Trace.fifo` is the law that makes it a queue.

## Main definitions

* `BoundedQueue α cap` — at most `cap` elements, oldest first.
* `put`, `get` — the two operations.
* `Trace` — the sequences accepted and delivered on the way to a queue.
-/

namespace Vmon

universe u

/-- At most `cap` elements, the oldest first. -/
@[ext] structure BoundedQueue (α : Type u) (cap : ℕ) where
  elems : List α
  bounded : elems.length ≤ cap

namespace BoundedQueue

variable {α : Type u} {cap : ℕ}

def empty : BoundedQueue α cap := ⟨[], Nat.zero_le _⟩

/-- Append an element, or fail when the queue is full. -/
def put (q : BoundedQueue α cap) (x : α) : Option (BoundedQueue α cap) :=
  if h : q.elems.length < cap then
    some ⟨q.elems ++ [x], by simp only [List.length_append, List.length_singleton]; omega⟩
  else none

/-- Remove the oldest element, or fail when the queue is empty. -/
def get (q : BoundedQueue α cap) : Option (α × BoundedQueue α cap) :=
  match q with
  | ⟨[], _⟩ => none
  | ⟨x :: xs, h⟩ => some (x, ⟨xs, Nat.le_of_succ_le h⟩)

@[simp] theorem elems_empty : (empty : BoundedQueue α cap).elems = [] := rfl

theorem put_eq_none {q : BoundedQueue α cap} {x : α} :
    q.put x = none ↔ q.elems.length = cap := by
  have := q.bounded
  simp only [put]
  split <;> simp <;> omega

theorem put_eq_some {q q' : BoundedQueue α cap} {x : α} :
    q.put x = some q' ↔ q'.elems = q.elems ++ [x] := by
  simp only [put]
  constructor
  · intro h
    split at h
    · simp only [Option.some.injEq] at h
      rw [← h]
    · simp at h
  · intro h
    have hb := q'.bounded
    rw [h] at hb
    have hlt : q.elems.length < cap := by
      simp only [List.length_append, List.length_singleton] at hb
      omega
    simp only [hlt, dite_true, Option.some.injEq]
    exact BoundedQueue.ext h.symm

theorem get_eq_none {q : BoundedQueue α cap} : q.get = none ↔ q.elems = [] := by
  rcases q with ⟨_ | ⟨y, ys⟩, hq⟩ <;> simp [get]

theorem get_eq_some {q q' : BoundedQueue α cap} {x : α} :
    q.get = some (x, q') ↔ q.elems = x :: q'.elems := by
  rcases q with ⟨_ | ⟨y, ys⟩, hq⟩
  · simp [get]
  · simp [get, BoundedQueue.ext_iff]

/-- `Trace accepted delivered q`: some run from the empty queue accepts `accepted`,
delivers `delivered` and ends in `q`. -/
inductive Trace : List α → List α → BoundedQueue α cap → Prop
  | empty : Trace [] [] empty
  | put {as ds : List α} {q q' : BoundedQueue α cap} {x : α} :
      Trace as ds q → q.put x = some q' → Trace (as ++ [x]) ds q'
  | get {as ds : List α} {q q' : BoundedQueue α cap} {x : α} :
      Trace as ds q → q.get = some (x, q') → Trace as (ds ++ [x]) q'

/-- **The queue law.** What was delivered, followed by what is held, is what was
accepted, in the same order. -/
theorem Trace.fifo {as ds : List α} {q : BoundedQueue α cap} (h : Trace as ds q) :
    ds ++ q.elems = as := by
  induction h with
  | empty => rfl
  | put _ hput ih => rw [put_eq_some.mp hput, ← List.append_assoc, ih]
  | get _ hget ih =>
    rw [get_eq_some.mp hget] at ih
    simpa using ih

end BoundedQueue

end Vmon
