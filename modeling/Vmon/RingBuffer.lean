import Vmon.Lib.BoundedQueue
import Mathlib.Data.Int.ModEq
import Mathlib.Tactic.Linarith
import Mathlib.Tactic.Ring

/-!
# The ring buffer

`lib/ringbuffer.c`: a fixed number of slots of `elem_size` bytes each, addressed
by byte offset. `rb_item_at` computes the offset in `size_t` and stores it in an
`int`, so the model keeps the element area as a map from byte offsets: what it
holds at an offset is the object whose bytes start there, if they are intact.

The mutex makes each locked section one step, so every function here is the body
of one section. `ringbuffer_get` has two: the one that enters, and the one a
thread runs each time `pthread_cond_wait` gives it the lock back. The `dump` hook
is `no_dump` unless a debugger sets it, and is left out.

## Main definitions

* `RingBuffer` — the `struct RingBuffer`.
* `ringbufferInit`, `ringbufferPut`, `ringbufferGet`, `ringbufferGetWoken`,
  `ringbufferFull`, `ringbufferEmpty`, `ringbufferClear` — the operations.
* `RingBuffer.Holds` — the buffer represents a bounded queue.
* `Holds.put`, `Holds.get` — the operations realize those of the queue.
-/

namespace Vmon

universe u

/-- `struct RingBuffer`. The field `end` is `end_` here, since `end` is a keyword. -/
structure RingBuffer (α : Type u) where
  waiters : ℤ
  size : ℤ
  used : ℤ
  start : ℤ
  end_ : ℤ
  /-- The object whose bytes start at an offset into the element area, if intact. -/
  elems : ℤ → Option α
  elemSize : ℕ

/-- Conversion to a 32-bit `int`: modulo `2 ^ 32`, signed. -/
def toInt32 (n : ℤ) : ℤ := n.bmod (2 ^ 32)

variable {α : Type u}

namespace RingBuffer

/-- `memcpy` of an object to an offset. It destroys every other object whose bytes
it overlaps; outside the element area it stores nothing the buffer could read. -/
def memcpyTo (rb : RingBuffer α) (off : ℤ) (x : α) : RingBuffer α :=
  { rb with
    elems := fun o =>
      if o = off then
        if 0 ≤ off ∧ off + rb.elemSize ≤ rb.size * rb.elemSize then some x else none
      else if o - off < rb.elemSize ∧ off - o < rb.elemSize then none
      else rb.elems o }

theorem memcpyTo_elems_self {rb : RingBuffer α} {off : ℤ} {x : α} (h0 : 0 ≤ off)
    (hle : off + rb.elemSize ≤ rb.size * rb.elemSize) : (rb.memcpyTo off x).elems off = some x := by
  simp [memcpyTo, h0, hle]

theorem memcpyTo_elems_apart {rb : RingBuffer α} {off o : ℤ} {x : α} (hne : o ≠ off)
    (hapart : ¬(o - off < rb.elemSize ∧ off - o < rb.elemSize)) :
    (rb.memcpyTo off x).elems o = rb.elems o := by
  simp only [memcpyTo, if_neg hne, if_neg hapart]

end RingBuffer

/-- Forgets the positions, but not the number of used slots. -/
def ringbufferClear (rb : RingBuffer α) : RingBuffer α :=
  { rb with start := 0, end_ := 0 }

/-- `calloc` tells whether the allocation succeeds; `none` is the return value `-1`. -/
def ringbufferInit (calloc : Bool) (size : ℤ) (elemSize : ℕ) : Option (RingBuffer α) :=
  if calloc then
    some (ringbufferClear
      { waiters := 0, size := size, used := 0, start := 0, end_ := 0,
        elems := fun _ => none, elemSize := elemSize })
  else none

def rbIsFull (rb : RingBuffer α) : Bool := rb.used == rb.size

def ringbufferFull (rb : RingBuffer α) : Bool := rbIsFull rb

def rbIsEmpty (rb : RingBuffer α) : Bool := !(rb.used != 0)

def ringbufferEmpty (rb : RingBuffer α) : Bool := rbIsEmpty rb

/-- The offset of a slot. The product is a `size_t`, the variable it goes to an `int`. -/
def rbItemAt (rb : RingBuffer α) (pos : ℤ) : ℤ := toInt32 (pos * rb.elemSize)

def ringbufferPut (rb : RingBuffer α) (elem : α) : RingBuffer α × ℤ :=
  if !rbIsFull rb then
    let rb := { rb with used := rb.used + 1 }
    let rb := rb.memcpyTo (rbItemAt rb rb.end_) elem
    ({ rb with end_ := (rb.end_ + 1).tmod rb.size }, 0)
  else (rb, -1)

/-- Whether `ringbuffer_put` signals the condition on its way. -/
def ringbufferPutSignals (rb : RingBuffer α) : Bool :=
  !rbIsFull rb && decide (rb.waiters > 0)

/-- How a locked section of `ringbuffer_get` ends: in `pthread_cond_wait`, or with
the element copied out. `none` is a copy of bytes that are no intact object. -/
inductive GetOutcome (α : Type u)
  | wait
  | done (elem : Option α)

/-- The section of `ringbuffer_get` from the test of `rb_is_empty` on. A thread
that `pthread_cond_wait` lets go runs it again, whatever woke it. -/
def ringbufferGetWoken (rb : RingBuffer α) : RingBuffer α × GetOutcome α :=
  if rbIsEmpty rb then (rb, .wait)
  else
    let rb := { rb with waiters := rb.waiters - 1, used := rb.used - 1 }
    let elem := rb.elems (rbItemAt rb rb.start)
    ({ rb with start := (rb.start + 1).tmod rb.size }, .done elem)

/-- The first section of `ringbuffer_get`. -/
def ringbufferGet (rb : RingBuffer α) : RingBuffer α × GetOutcome α :=
  ringbufferGetWoken { rb with waiters := rb.waiters + 1 }

theorem ringbufferPut_of_not_full {rb : RingBuffer α} {x : α} (h : rbIsFull rb = false) :
    ringbufferPut rb x =
      ({ rb.memcpyTo (rbItemAt rb rb.end_) x with
          used := rb.used + 1, end_ := (rb.end_ + 1).tmod rb.size }, 0) := by
  simp only [ringbufferPut, h, Bool.not_false, if_true]
  rfl

theorem not_full_of_put {rb : RingBuffer α} {x : α} (h : (ringbufferPut rb x).2 = 0) :
    rbIsFull rb = false := by
  by_contra hc
  rw [Bool.not_eq_false] at hc
  simp [ringbufferPut, hc] at h

/-- A put stores nothing but its element. -/
theorem ringbufferPut_elems {rb : RingBuffer α} {x y : α} {o : ℤ}
    (h : (ringbufferPut rb x).1.elems o = some y) : y = x ∨ rb.elems o = some y := by
  by_cases hfull : rbIsFull rb
  · simp only [ringbufferPut, hfull, Bool.not_true, Bool.false_eq_true, if_false] at h
    exact .inr h
  · rw [ringbufferPut_of_not_full (by simpa using hfull)] at h
    simp only [RingBuffer.memcpyTo] at h
    split at h
    · split at h <;> simp only [Option.some.injEq, reduceCtorEq] at h
      exact .inl h.symm
    · split at h
      · simp at h
      · exact .inr h

/-- A get leaves the element area alone, and copies out what lies there. -/
theorem ringbufferGetWoken_elems (rb : RingBuffer α) :
    (ringbufferGetWoken rb).1.elems = rb.elems ∧
      ∀ x, (ringbufferGetWoken rb).2 = .done (some x) → ∃ o, rb.elems o = some x := by
  by_cases hempty : rbIsEmpty rb
  · simp [ringbufferGetWoken, hempty]
  · simp only [ringbufferGetWoken, hempty, Bool.false_eq_true, if_false, true_and]
    intro x hx
    exact ⟨_, by simpa using hx⟩

/-! ## Slot offsets -/

/-- The largest slot offset fits an `int`. -/
def SlotsFit (size : ℤ) (elemSize : ℕ) : Prop := (size - 1) * elemSize < 2 ^ 31

instance (size : ℤ) (elemSize : ℕ) : Decidable (SlotsFit size elemSize) :=
  inferInstanceAs (Decidable (_ < _))

/-- Where the offsets fit, `rb_item_at` computes the product over the integers. -/
theorem rbItemAt_eq {rb : RingBuffer α} {pos size : ℤ} (hfit : SlotsFit size rb.elemSize)
    (h0 : 0 ≤ pos) (hlt : pos < size) : rbItemAt rb pos = pos * rb.elemSize := by
  have hle : pos * rb.elemSize ≤ (size - 1) * rb.elemSize :=
    mul_le_mul_of_nonneg_right (by omega) (Int.natCast_nonneg _)
  have hnonneg : 0 ≤ pos * (rb.elemSize : ℤ) := mul_nonneg h0 (Int.natCast_nonneg _)
  have hsmall : (size - 1) * rb.elemSize < 2 ^ 31 := hfit
  exact Int.bmod_eq_of_le (by omega) (by omega)

/-- Distinct slots are at least one element apart. -/
private theorem slot_apart {e p q : ℤ} (he : 0 < e) (hne : p ≠ q) :
    p * e ≠ q * e ∧ ¬(p * e - q * e < e ∧ q * e - p * e < e) := by
  rcases lt_or_gt_of_ne hne with h | h
  · have : (p + 1) * e ≤ q * e := mul_le_mul_of_nonneg_right (by omega) he.le
    constructor <;> grind
  · have : (q + 1) * e ≤ p * e := mul_le_mul_of_nonneg_right (by omega) he.le
    constructor <;> grind

/-- **Every slot is where it should be**: at its multiple of the element size, inside the element
area, and apart from the others. -/
structure SlotsApart (rb : RingBuffer α) : Prop where
  offset : ∀ p, 0 ≤ p → p < rb.size → rbItemAt rb p = p * rb.elemSize
  inside : ∀ p, 0 ≤ p → p < rb.size →
    0 ≤ rbItemAt rb p ∧ rbItemAt rb p + rb.elemSize ≤ rb.size * rb.elemSize
  apart : ∀ p q, 0 ≤ p → p < rb.size → 0 ≤ q → q < rb.size → p ≠ q →
    rbItemAt rb p + rb.elemSize ≤ rbItemAt rb q ∨ rbItemAt rb q + rb.elemSize ≤ rbItemAt rb p

/-- The offset of the last slot decides. -/
theorem slotsApart_iff {rb : RingBuffer α} (hsize : 0 < rb.size) :
    SlotsApart rb ↔ SlotsFit rb.size rb.elemSize := by
  constructor
  · intro H
    have hlast := H.offset (rb.size - 1) (by omega) (by omega)
    rw [SlotsFit, ← hlast]
    exact Int.bmod_lt (by decide)
  · intro hfit
    have hoffset : ∀ p, 0 ≤ p → p < rb.size → rbItemAt rb p = p * rb.elemSize :=
      fun p h0 hlt => rbItemAt_eq hfit h0 hlt
    have he : (0 : ℤ) ≤ rb.elemSize := Int.natCast_nonneg _
    have hstep : ∀ p q : ℤ, p < q → p * rb.elemSize + rb.elemSize ≤ q * rb.elemSize := by
      intro p q hpq
      have hle : (p + 1) * rb.elemSize ≤ q * rb.elemSize := mul_le_mul_of_nonneg_right hpq he
      linarith
    constructor
    · exact hoffset
    · intro p h0 hlt
      rw [hoffset p h0 hlt]
      exact ⟨mul_nonneg h0 he, hstep p rb.size hlt⟩
    · intro p q hp hp' hq hq' hne
      rw [hoffset p hp hp', hoffset q hq hq']
      rcases lt_or_gt_of_ne hne with h | h
      · exact .inl (hstep p q h)
      · exact .inr (hstep q p h)

/-- Positions `k` and `n` steps after `start` are different slots. -/
private theorem wrap_ne {size start k n : ℤ} (h0 : 0 ≤ k) (hkn : k < n) (hn : n < size) :
    (start + k) % size ≠ (start + n) % size := by
  intro h
  have hdvd : size ∣ n - k := by
    have := (Int.emod_emod_of_dvd (start + n) (dvd_refl size))
    have hd : size ∣ (start + n) - (start + k) := Int.ModEq.dvd h
    simpa using hd
  have := Int.le_of_dvd (by omega) hdvd
  omega

/-! ## Representing a bounded queue -/

namespace RingBuffer

variable {cap : ℕ}

/-- The buffer has `cap` slots, and the used ones, read from `start` on and around
the end, hold the elements of the queue. -/
structure Holds (rb : RingBuffer α) (q : BoundedQueue α cap) : Prop where
  size_eq : rb.size = cap
  elemSize_pos : 0 < rb.elemSize
  fits : SlotsFit cap rb.elemSize
  used_eq : rb.used = q.elems.length
  start_nonneg : 0 ≤ rb.start
  start_lt : 0 < cap → rb.start < cap
  end_eq : rb.end_ = (rb.start + rb.used) % cap
  slots : ∀ k (hk : k < q.elems.length),
    rb.elems (rbItemAt rb ((rb.start + k) % cap)) = some q.elems[k]

/-- What `ringbuffer_get` would copy out, slot after slot, from `start` on. -/
def heldElems (rb : RingBuffer α) : List (Option α) :=
  (List.range rb.used.toNat).map fun k : ℕ =>
    rb.elems (rbItemAt rb ((rb.start + k) % rb.size))

/-- A fresh buffer holds the empty queue. -/
theorem holds_init {elemSize : ℕ} {rb : RingBuffer α} (he : 0 < elemSize)
    (hfit : SlotsFit cap elemSize) (h : ringbufferInit true cap elemSize = some rb) :
    rb.Holds (BoundedQueue.empty : BoundedQueue α cap) := by
  simp only [ringbufferInit, if_true, Option.some.injEq] at h
  subst h
  constructor <;> simp [ringbufferClear, he, hfit]

namespace Holds

variable {rb : RingBuffer α} {q q' : BoundedQueue α cap} {x : α}

theorem heldElems_eq (h : rb.Holds q) : rb.heldElems = q.elems.map some := by
  apply List.ext_getElem
  · simp [heldElems, h.used_eq]
  · intro k hk _
    have hk' : k < q.elems.length := by simpa [heldElems, h.used_eq] using hk
    simp only [heldElems, List.getElem_map, List.getElem_range, h.size_eq]
    exact h.slots k hk'

theorem isFull_iff (h : rb.Holds q) : rbIsFull rb = true ↔ q.elems.length = cap := by
  simp [rbIsFull, h.used_eq, h.size_eq]

theorem isEmpty_iff (h : rb.Holds q) : rbIsEmpty rb = true ↔ q.elems = [] := by
  simp [rbIsEmpty, h.used_eq]

/-- The number of waiters is no part of what the buffer holds. -/
theorem waiters (h : rb.Holds q) (n : ℤ) : Holds { rb with waiters := n } q :=
  { h with slots := h.slots }

/-- **`ringbuffer_put` on a full buffer** returns `-1` and changes nothing. -/
theorem put_full (h : rb.Holds q) (hfull : q.put x = none) : ringbufferPut rb x = (rb, -1) := by
  have hf := h.isFull_iff.mpr (BoundedQueue.put_eq_none.mp hfull)
  simp [ringbufferPut, hf]

/-- **`ringbuffer_put` with room** returns `0` and appends the element. -/
theorem put (h : rb.Holds q) (hput : q.put x = some q') :
    (ringbufferPut rb x).2 = 0 ∧ (ringbufferPut rb x).1.Holds q' := by
  have helems := BoundedQueue.put_eq_some.mp hput
  have hbound := q'.bounded
  simp only [helems, List.length_append, List.length_singleton] at hbound
  have hnot : rbIsFull rb = false := by
    rw [← Bool.not_eq_true, h.isFull_iff]
    omega
  have hcap : (0 : ℤ) < cap := by omega
  have he : (0 : ℤ) < rb.elemSize := by have := h.elemSize_pos; omega
  have hend : 0 ≤ rb.end_ ∧ rb.end_ < cap := by
    rw [h.end_eq]
    exact ⟨Int.emod_nonneg _ hcap.ne', Int.emod_lt_of_pos _ hcap⟩
  have htmod : (rb.end_ + 1).tmod rb.size = (rb.end_ + 1) % cap := by
    rw [h.size_eq, Int.tmod_eq_emod_of_nonneg (by omega)]
  rw [ringbufferPut_of_not_full hnot, rbItemAt_eq h.fits hend.1 hend.2, htmod]
  refine ⟨rfl, h.size_eq, h.elemSize_pos, h.fits, ?_, h.start_nonneg, h.start_lt, ?_, ?_⟩
  · simp [h.used_eq, helems]
  · change (rb.end_ + 1) % (cap : ℤ) = (rb.start + (rb.used + 1)) % cap
    rw [h.end_eq, Int.emod_add_emod, add_assoc]
  · intro k hk
    have hk' : k ≤ q.elems.length := by
      simp only [helems, List.length_append, List.length_singleton] at hk
      omega
    have hpos : 0 ≤ (rb.start + k) % cap ∧ (rb.start + k) % cap < cap :=
      ⟨Int.emod_nonneg _ hcap.ne', Int.emod_lt_of_pos _ hcap⟩
    change (rb.memcpyTo _ x).elems (rbItemAt rb ((rb.start + k) % cap)) = _
    rw [rbItemAt_eq h.fits hpos.1 hpos.2]
    rcases hk'.lt_or_eq with hlt | heq
    · -- an older element: its slot is another one, and its bytes are left alone
      have hne : (rb.start + k) % cap ≠ rb.end_ := by
        rw [h.end_eq]
        exact wrap_ne (by omega) (by rw [h.used_eq]; omega) (by rw [h.used_eq]; omega)
      have hslot := h.slots k hlt
      rw [rbItemAt_eq h.fits hpos.1 hpos.2] at hslot
      rw [memcpyTo_elems_apart (slot_apart he hne).1 (slot_apart he hne).2, hslot]
      simp only [helems, List.getElem_append_left hlt]
    · -- the new element, in the slot at `end`
      have hself : (rb.start + k) % cap = rb.end_ := by rw [h.end_eq, h.used_eq, heq]
      have hroom : (rb.end_ + 1) * rb.elemSize ≤ cap * (rb.elemSize : ℤ) :=
        mul_le_mul_of_nonneg_right (by omega) he.le
      rw [hself, memcpyTo_elems_self (mul_nonneg hend.1 he.le) (by rw [h.size_eq]; linarith)]
      simp [helems, heq]

/-- The locked section of `ringbuffer_get` on an empty buffer goes to wait. -/
theorem get_wait (h : rb.Holds q) (hq : q.elems = []) : ringbufferGetWoken rb = (rb, .wait) := by
  simp [ringbufferGetWoken, h.isEmpty_iff.mpr hq]

/-- **`ringbuffer_get` on a nonempty buffer** copies the oldest element out. -/
theorem get (h : rb.Holds q) (hget : q.get = some (x, q')) :
    ∃ rb', ringbufferGetWoken rb = (rb', .done (some x)) ∧ rb'.Holds q' := by
  have helems := BoundedQueue.get_eq_some.mp hget
  have hbound := q.bounded
  have hcap : 0 < cap := by
    simp only [helems, List.length_cons] at hbound
    omega
  have hcap' : (0 : ℤ) < cap := by omega
  have hnot : rbIsEmpty rb = false := by
    rw [← Bool.not_eq_true, h.isEmpty_iff, helems]
    simp
  have hlen : q.elems.length = q'.elems.length + 1 := by simp [helems]
  have hstart : (rb.start + 1).tmod rb.size = (rb.start + 1) % cap := by
    rw [h.size_eq, Int.tmod_eq_emod_of_nonneg (by have := h.start_nonneg; omega)]
  have hfirst : rb.elems (rbItemAt rb rb.start) = some x := by
    have := h.slots 0 (by omega)
    simpa [helems, Int.emod_eq_of_lt h.start_nonneg (h.start_lt hcap)] using this
  refine ⟨{ rb with waiters := rb.waiters - 1, used := rb.used - 1,
                    start := (rb.start + 1).tmod rb.size }, ?_, ?_⟩
  · simp only [ringbufferGetWoken, hnot, Bool.false_eq_true, if_false, ← hfirst]
    rfl
  · refine ⟨h.size_eq, h.elemSize_pos, h.fits, ?_, ?_, ?_, ?_, ?_⟩
    · simp [h.used_eq, hlen]
    · rw [hstart]
      exact Int.emod_nonneg _ hcap'.ne'
    · rw [hstart]
      exact fun _ => Int.emod_lt_of_pos _ hcap'
    · rw [hstart, Int.emod_add_emod, h.end_eq]
      congr 1
      ring
    · intro k hk
      have hslot := h.slots (k + 1) (by omega)
      have hpos : (rb.start + ((k + 1 : ℕ) : ℤ)) % cap = ((rb.start + 1) % cap + k) % cap := by
        rw [Int.emod_add_emod]
        congr 1
        push_cast
        ring
      rw [hpos] at hslot
      simp only [hstart]
      simpa only [rbItemAt, helems, List.getElem_cons_succ] using hslot

/-- What a put does, whether there is room or not. -/
theorem put_cases (h : rb.Holds q) (x : α) :
    (q.elems.length = cap ∧ ringbufferPut rb x = (rb, -1)) ∨
    ∃ q' : BoundedQueue α cap, q'.elems = q.elems ++ [x] ∧ (ringbufferPut rb x).2 = 0 ∧
      (ringbufferPut rb x).1.Holds q' := by
  cases hput : q.put x with
  | none => exact .inl ⟨BoundedQueue.put_eq_none.mp hput, h.put_full hput⟩
  | some q' => exact .inr ⟨q', BoundedQueue.put_eq_some.mp hput, h.put hput⟩

/-- What a get does, whether there is an element or not. -/
theorem get_cases (h : rb.Holds q) :
    (q.elems = [] ∧ ringbufferGetWoken rb = (rb, .wait)) ∨
    ∃ (x : α) (q' : BoundedQueue α cap) (rb' : RingBuffer α), q.elems = x :: q'.elems ∧
      ringbufferGetWoken rb = (rb', .done (some x)) ∧ rb'.Holds q' := by
  cases hget : q.get with
  | none =>
    have hnil := BoundedQueue.get_eq_none.mp hget
    exact .inl ⟨hnil, h.get_wait hnil⟩
  | some r =>
    rcases r with ⟨x, q'⟩
    rcases h.get hget with ⟨rb', hrb', hholds⟩
    exact .inr ⟨x, q', rb', BoundedQueue.get_eq_some.mp hget, hrb', hholds⟩

end Holds

/-! ## What a buffer will deliver -/

/-- A buffer that gets one element at most, before its put, up to the get, and after. No
size is too large for it: the one element goes to the start of the element area. -/
inductive Single (cap : ℕ) (rb : RingBuffer α) : List α → ℕ → Prop
  | fresh (hsize : rb.size = cap) (hused : rb.used = 0) (hstart : rb.start = 0)
      (hend : rb.end_ = 0) : Single cap rb [] 1
  | one {x : α} (hused : rb.used = 1) (hstart : rb.start = 0) (hslot : rb.elems 0 = some x) :
      Single cap rb [x] 0
  | spent (hused : rb.used = 0) : Single cap rb [] 0

/-- The buffer delivers the elements of `q`, and `k` more if they are put. -/
def Tracks (cap : ℕ) (rb : RingBuffer α) (q : List α) (k : ℕ) : Prop :=
  (∃ held : BoundedQueue α cap, rb.Holds held ∧ held.elems = q) ∨ rb.Single cap q k

namespace Tracks

variable {rb : RingBuffer α} {q : List α} {k : ℕ}

theorem isEmpty (h : rb.Tracks cap q k) (hempty : rbIsEmpty rb = true) : q = [] := by
  rcases h with ⟨held, hheld, rfl⟩ | hsingle
  · exact hheld.isEmpty_iff.mp hempty
  · cases hsingle with
    | one hused => simp [rbIsEmpty, hused] at hempty
    | _ => rfl

/-- A put that finds room is delivered in its turn. -/
theorem put (h : rb.Tracks cap q (k + 1)) (hroom : rbIsFull rb = false) (x : α) :
    (ringbufferPut rb x).2 = 0 ∧ (ringbufferPut rb x).1.Tracks cap (q ++ [x]) k := by
  rcases h with ⟨held, hheld, rfl⟩ | hsingle
  · cases hput : held.put x with
    | none => simp [hheld.isFull_iff.mpr (BoundedQueue.put_eq_none.mp hput)] at hroom
    | some held' =>
      have hnext := hheld.put hput
      exact ⟨hnext.1, .inl ⟨held', hnext.2, BoundedQueue.put_eq_some.mp hput⟩⟩
  · cases hsingle with
    | fresh hsize hused hstart hend =>
      have hcap : (1 : ℤ) ≤ cap := by
        simp only [rbIsFull, hused, hsize, beq_eq_false_iff_ne] at hroom
        omega
      have hslot : rbItemAt rb 0 = 0 := by
        rw [rbItemAt, zero_mul]
        rfl
      have hle : (1 : ℤ) * rb.elemSize ≤ cap * rb.elemSize :=
        mul_le_mul_of_nonneg_right hcap (Int.natCast_nonneg _)
      rw [ringbufferPut_of_not_full hroom, hend, hslot]
      refine ⟨rfl, .inr (.one ?_ hstart ?_)⟩
      · simp [hused]
      · exact memcpyTo_elems_self le_rfl (by rw [hsize]; omega)

/-- A get waits on an empty buffer, and delivers the oldest element of any other. -/
theorem get_cases (h : rb.Tracks cap q k) (n : ℤ) :
    (q = [] ∧ ∃ rb', ringbufferGetWoken { rb with waiters := n } = (rb', .wait) ∧
      rb'.Tracks cap q k) ∨
    ∃ (x : α) (q' : List α) (rb' : RingBuffer α), q = x :: q' ∧
      ringbufferGetWoken { rb with waiters := n } = (rb', .done (some x)) ∧
      rb'.Tracks cap q' k := by
  rcases h with ⟨held, hheld, rfl⟩ | hsingle
  · rcases (hheld.waiters n).get_cases with ⟨hnil, hwait⟩ | ⟨x, held', rb', helems, hget, hheld'⟩
    · exact .inl ⟨hnil, _, hwait, .inl ⟨held, hheld.waiters n, rfl⟩⟩
    · exact .inr ⟨x, _, rb', helems, hget, .inl ⟨held', hheld', rfl⟩⟩
  · cases hsingle with
    | fresh hsize hused hstart hend =>
      have hnext : Single cap { rb with waiters := n } [] 1 := .fresh hsize hused hstart hend
      refine .inl ⟨rfl, _, ?_, .inr hnext⟩
      simp [ringbufferGetWoken, rbIsEmpty, hused]
    | spent hused =>
      have hnext : Single cap { rb with waiters := n } [] 0 := .spent hused
      refine .inl ⟨rfl, _, ?_, .inr hnext⟩
      simp [ringbufferGetWoken, rbIsEmpty, hused]
    | @one x hused hstart hslot =>
      have hzero : ∀ rb' : RingBuffer α, rbItemAt rb' 0 = 0 := by
        intro rb'
        rw [rbItemAt, zero_mul]
        rfl
      have hget : ringbufferGetWoken { rb with waiters := n } =
          ({ rb with waiters := n - 1, used := 0, start := (1 : ℤ).tmod rb.size },
            .done (some x)) := by
        simp [ringbufferGetWoken, rbIsEmpty, hused, hstart, hzero, hslot]
      exact .inr ⟨x, [], _, rfl, hget, .inr (.spent rfl)⟩

end Tracks

/-! ## Offsets that do not fit -/

section Overflow

variable {size : ℤ} {elemSize : ℕ} {rb : RingBuffer α} {xs : List α}

/-- A fresh buffer after accepting `xs`, one put after the other and nothing else. -/
structure AfterPuts (size : ℤ) (elemSize : ℕ) (xs : List α) (rb : RingBuffer α) : Prop where
  size_eq : rb.size = size
  elemSize_eq : rb.elemSize = elemSize
  used_eq : rb.used = xs.length
  start_eq : rb.start = 0
  end_eq : rb.end_ = xs.length % size
  /-- The last put wrote its element over what the area held before. -/
  last : ∀ ys y, xs = ys ++ [y] → ∃ rb₀ : RingBuffer α, rb₀.elemSize = elemSize ∧
    rb.elems = (rb₀.memcpyTo (toInt32 (ys.length * elemSize)) y).elems

namespace AfterPuts

theorem init (hinit : ringbufferInit true size elemSize = some rb) :
    AfterPuts size elemSize [] rb := by
  simp only [ringbufferInit, if_true, Option.some.injEq] at hinit
  constructor <;> simp [← hinit, ringbufferClear]

theorem put (H : AfterPuts size elemSize xs rb) (x : α) (hlen : (xs.length : ℤ) < size) :
    (ringbufferPut rb x).2 = 0 ∧ AfterPuts size elemSize (xs ++ [x]) (ringbufferPut rb x).1 := by
  have hnot : rbIsFull rb = false := by
    rw [← Bool.not_eq_true, rbIsFull, beq_iff_eq, H.used_eq, H.size_eq]
    omega
  have hend0 : rb.end_ = xs.length := by
    rw [H.end_eq, Int.emod_eq_of_lt (by omega) (by omega)]
  have htmod : (rb.end_ + 1).tmod size = ((xs.length : ℤ) + 1) % size := by
    rw [Int.tmod_eq_emod_of_nonneg (by omega), hend0]
  rw [ringbufferPut_of_not_full hnot]
  refine ⟨rfl, H.size_eq, H.elemSize_eq, by simp [H.used_eq], H.start_eq, ?_, ?_⟩
  · change (rb.end_ + 1).tmod rb.size = _
    rw [H.size_eq, htmod, List.length_append]
    simp
  · intro ys y hxs
    rcases List.append_inj' hxs rfl with ⟨rfl, hy⟩
    obtain rfl : x = y := by simpa using hy
    refine ⟨rb, H.elemSize_eq, ?_⟩
    rw [rbItemAt, hend0, H.elemSize_eq]

/-- Where the queue is intact, slot `k` still holds the `k`-th element put. -/
private theorem slot (H : AfterPuts size elemSize xs rb)
    (hheld : rb.heldElems = xs.map some) {k : ℕ} (hk : k < xs.length) (hlt : (k : ℤ) < size) :
    rb.elems (toInt32 (k * elemSize)) = some xs[k] := by
  have hget := congrArg (·[k]?) hheld
  simp only [heldElems, H.used_eq, H.start_eq, H.size_eq, Int.toNat_natCast, List.getElem?_map,
    List.getElem?_range hk, Option.map_some, List.getElem?_eq_getElem hk, Option.some.injEq,
    zero_add, rbItemAt, H.elemSize_eq] at hget
  rwa [Int.emod_eq_of_lt (by omega) hlt] at hget

/-- A slot whose offset is negative loses what is put into it. -/
theorem lost_of_negative {x : α} (H : AfterPuts size elemSize (xs ++ [x]) rb)
    (hlt : (xs.length : ℤ) < size) (hneg : toInt32 (xs.length * elemSize) < 0) :
    rb.heldElems ≠ (xs ++ [x]).map some := by
  intro hheld
  rcases H.last _ _ rfl with ⟨rb₀, _, hmem⟩
  have hslot := H.slot hheld (k := xs.length) (by simp) hlt
  rw [hmem] at hslot
  simp [memcpyTo, hneg.not_ge] at hslot

/-- A second slot that starts inside the first overwrites the element there. -/
private theorem lost_of_overlap {a b : α} (hab : a ≠ b) (H : AfterPuts size elemSize [a, b] rb)
    (hs : 1 < size) (h0 : 0 ≤ toInt32 elemSize) (hlt : toInt32 elemSize < elemSize) :
    rb.heldElems ≠ [a, b].map some := by
  intro hheld
  rcases H.last [a] b rfl with ⟨rb₀, he, hmem⟩
  have hslot := H.slot hheld (k := 0) (by simp) (by simp; omega)
  have hzero : toInt32 0 = 0 := rfl
  simp only [hmem, memcpyTo, he, List.length_singleton, Nat.cast_one, one_mul,
    Nat.cast_zero, zero_mul, hzero, zero_sub, sub_zero, hlt, and_true] at hslot
  split at hslot
  · split at hslot
    · simp [hab.symm] at hslot
    · simp at hslot
  · rw [if_pos (by omega)] at hslot
    simp at hslot

end AfterPuts

/-- Past the range of `int` some sequence of puts, no longer than the buffer, is not
what the buffer then holds. -/
theorem exists_lost (α : Type u) [Nontrivial α] (hs : 0 < size) (hfit : ¬SlotsFit size elemSize) :
    ∃ xs : List α, (xs.length : ℤ) ≤ size ∧
      ∀ rb, AfterPuts size elemSize xs rb → rb.heldElems ≠ xs.map some := by
  rcases exists_pair_ne α with ⟨a, b, hab⟩
  simp only [SlotsFit, not_lt] at hfit
  lift size to ℕ using hs.le
  have hlast : 2 ^ 31 ≤ (size - 1) * elemSize := by
    zify [show 1 ≤ size by omega]
    exact hfit
  -- the first slot past the range of `int`
  have hex : ∃ p, 2 ^ 31 ≤ p * elemSize := ⟨_, hlast⟩
  let p := Nat.find hex
  have hp : 2 ^ 31 ≤ p * elemSize := Nat.find_spec hex
  have hple : p ≤ size - 1 := Nat.find_min' hex hlast
  have hp0 : p ≠ 0 := fun h0 => by simp [h0] at hp
  have hpred : (p - 1) * elemSize < 2 ^ 31 := by
    by_contra hc
    have := Nat.find_min' hex (not_lt.mp hc)
    omega
  have hstep : p * elemSize = (p - 1) * elemSize + elemSize := by
    conv_lhs => rw [show p = p - 1 + 1 by omega, Nat.succ_mul]
  have hnegative : toInt32 (p * elemSize) < 0 → ∃ xs : List α, (xs.length : ℤ) ≤ size ∧
      ∀ rb, AfterPuts size elemSize xs rb → rb.heldElems ≠ xs.map some := by
    intro hneg
    refine ⟨List.replicate p a ++ [a], by simp; omega, fun rb H => ?_⟩
    exact H.lost_of_negative (by simp; omega) (by simpa using hneg)
  by_cases hsmall : p * elemSize < 2 ^ 32
  · -- it wraps around to a negative offset
    refine hnegative ?_
    have : ((p : ℤ) * elemSize) = ((p * elemSize : ℕ) : ℤ) := by push_cast; rfl
    rw [this, toInt32, Int.bmod_def]
    omega
  · -- one element alone exceeds the range, so this slot is the second one
    have hone : p = 1 := by
      by_contra hne
      have : 1 * elemSize ≤ (p - 1) * elemSize := Nat.mul_le_mul_right _ (by omega)
      omega
    rw [hone, one_mul] at hp
    by_cases hneg : toInt32 elemSize < 0
    · exact hnegative (by rw [hone]; simpa using hneg)
    · have hsmall : toInt32 elemSize < 2 ^ 31 := Int.bmod_lt (by decide)
      exact ⟨[a, b], by simp; omega, fun rb H =>
        H.lost_of_overlap hab (by omega) (not_lt.mp hneg) (by omega)⟩

end Overflow

end RingBuffer

end Vmon
