import Mathlib.Data.List.Basic

/-!
# Nested spans

A reader that meets opening and closing marks builds a row of trees: a span, with the spans
inside it in order. A flat table lists the same spans in the order of their starts, each with
its bounds and none of the structure; while a span is open its end is missing there.

`Nesting` is the state of the reader, and `Nesting.table` the table that goes with it. In the
table of spans that were read from left to right, two of them are apart or one lies inside the
other (`Nesting.laminar`).

## Main definitions

* `Nest`, `Span` — the trees, and the entries of a table.
* `Nesting` — the spans read so far, and those that are open.
* `Nesting.leaf`, `Nesting.push`, `Nesting.pop` — what a mark does.
* `Nesting.InOrder` — all was read from left to right.
-/

namespace Vmon

universe u

/-- A span, with the spans inside it. -/
inductive Nest (α : Type u)
  | mk (label : α) (start stop : ℕ) (inner : List (Nest α))

/-- An entry of a table of spans. The end of an open one is not known. -/
structure Span (α : Type u) where
  label : α
  start : ℕ
  stop : Option ℕ

variable {α : Type u}

namespace Nest

mutual

/-- A span, then the spans inside it. -/
def spans : Nest α → List (Span α)
  | .mk label start stop inner => ⟨label, start, some stop⟩ :: rowSpans inner

def rowSpans : List (Nest α) → List (Span α)
  | [] => []
  | n :: ns => n.spans ++ rowSpans ns

end

theorem rowSpans_append (ns ms : List (Nest α)) :
    rowSpans (ns ++ ms) = rowSpans ns ++ rowSpans ms := by
  induction ns with
  | nil => rfl
  | cons n ns ih => rw [List.cons_append, rowSpans, rowSpans, ih, List.append_assoc]

mutual

/-- Every span of a tree is closed. -/
theorem stop_of_mem_spans : ∀ {n : Nest α}, ∀ s ∈ n.spans, ∃ stop, s.stop = some stop
  | .mk label start stop inner => by
    intro s hs
    rw [spans, List.mem_cons] at hs
    rcases hs with rfl | hs
    · exact ⟨stop, rfl⟩
    · exact stop_of_mem_rowSpans s hs

theorem stop_of_mem_rowSpans : ∀ {ns : List (Nest α)}, ∀ s ∈ rowSpans ns, ∃ stop, s.stop = some stop
  | [] => by simp [rowSpans]
  | n :: ns => by
    intro s hs
    rw [rowSpans, List.mem_append] at hs
    rcases hs with hs | hs
    · exact stop_of_mem_spans s hs
    · exact stop_of_mem_rowSpans s hs

end

end Nest

/-! ## The reader -/

/-- An open span, with the trees before it. -/
structure OpenSpan (α : Type u) where
  label : α
  start : ℕ
  before : List (Nest α)

/-- The open spans, the innermost first, and the trees inside it. -/
structure Nesting (α : Type u) where
  opened : List (OpenSpan α)
  inner : List (Nest α)

namespace Nesting

def empty : Nesting α := ⟨[], []⟩

/-- A span with nothing inside. -/
def leaf (s : Nesting α) (label : α) (start stop : ℕ) : Nesting α :=
  { s with inner := s.inner ++ [.mk label start stop []] }

def push (s : Nesting α) (label : α) (start : ℕ) : Nesting α :=
  { opened := ⟨label, start, s.inner⟩ :: s.opened, inner := [] }

/-- The innermost open span ends; what it ends with is in the trees of the one around it. -/
def pop (s : Nesting α) (stop : ℕ) : Option (OpenSpan α × Nesting α) :=
  match s.opened with
  | [] => none
  | o :: os => some (o, { opened := os, inner := o.before ++ [.mk o.label o.start stop s.inner] })

/-- The spans of the trees `inner`, after those of the open spans and of what is before them. -/
def tableOf : List (OpenSpan α) → List (Nest α) → List (Span α)
  | [], inner => Nest.rowSpans inner
  | o :: os, inner => tableOf os o.before ++ ⟨o.label, o.start, none⟩ :: Nest.rowSpans inner

def table (s : Nesting α) : List (Span α) := tableOf s.opened s.inner

theorem tableOf_append (os : List (OpenSpan α)) (inner more : List (Nest α)) :
    tableOf os (inner ++ more) = tableOf os inner ++ Nest.rowSpans more := by
  cases os <;> simp [tableOf, Nest.rowSpans_append]

theorem table_leaf (s : Nesting α) (label : α) (start stop : ℕ) :
    (s.leaf label start stop).table = s.table ++ [⟨label, start, some stop⟩] := by
  simp [table, leaf, tableOf_append, Nest.rowSpans, Nest.spans]

theorem table_push (s : Nesting α) (label : α) (start : ℕ) :
    (s.push label start).table = s.table ++ [⟨label, start, none⟩] := by
  simp [table, push, tableOf, Nest.rowSpans]

/-- Where a span ends, its entry is the last open one of the table. -/
theorem table_pop {s s' : Nesting α} {stop : ℕ} {o : OpenSpan α} (h : s.pop stop = some (o, s')) :
    ∃ before after : List (Span α), s.table = before ++ ⟨o.label, o.start, none⟩ :: after ∧
      (∀ e ∈ after, ∃ stop, e.stop = some stop) ∧
      s'.table = before ++ ⟨o.label, o.start, some stop⟩ :: after := by
  rcases s with ⟨_ | ⟨o', os⟩, inner⟩
  · cases h
  · simp only [pop, Option.some.injEq, Prod.mk.injEq] at h
    obtain ⟨rfl, rfl⟩ := h
    refine ⟨tableOf os o'.before, Nest.rowSpans inner, rfl, Nest.stop_of_mem_rowSpans, ?_⟩
    simp [table, tableOf_append, Nest.rowSpans, Nest.spans]

/-- Where nothing is open, the table has no open span. -/
theorem table_closed {s : Nesting α} (h : s.opened = []) :
    ∀ e ∈ s.table, ∃ stop, e.stop = some stop := by
  rw [table, h]
  exact Nest.stop_of_mem_rowSpans

end Nesting

/-! ## From left to right -/

namespace Nest

variable {P : α → Prop}

mutual

/-- The tree lies between `lo` and `hi`, what is inside it between its bounds, and only a label
with `P` has anything inside. -/
def Within (P : α → Prop) (lo hi : ℕ) : Nest α → Prop
  | .mk label start stop inner =>
    lo ≤ start ∧ stop ≤ hi ∧ Row P start stop inner ∧ (inner = [] ∨ P label)

/-- One tree after the other, from `lo` on up to `hi`. -/
def Row (P : α → Prop) (lo hi : ℕ) : List (Nest α) → Prop
  | [] => lo ≤ hi
  | n :: ns => ∃ mid, n.Within P lo mid ∧ Row P mid hi ns

end

theorem Row.append {lo mid hi : ℕ} {ns ms : List (Nest α)} (hn : Row P lo mid ns)
    (hm : Row P mid hi ms) : Row P lo hi (ns ++ ms) := by
  induction ns generalizing lo with
  | nil =>
    cases ms with
    | nil => exact Nat.le_trans hn hm
    | cons m ms =>
      rcases m with ⟨label, start, stop, inner⟩
      simp only [Row, Within] at hn hm ⊢
      obtain ⟨mid', ⟨hlo, hrest⟩, hrow⟩ := hm
      exact ⟨mid', ⟨Nat.le_trans hn hlo, hrest⟩, hrow⟩
  | cons n ns ih =>
    rw [List.cons_append]
    simp only [Row] at hn ⊢
    obtain ⟨mid', hwithin, hrow⟩ := hn
    exact ⟨mid', hwithin, ih hrow⟩

theorem Row.mono {lo hi hi' : ℕ} {ns : List (Nest α)} (h : Row P lo hi ns) (hle : hi ≤ hi') :
    Row P lo hi' ns := by
  have hend : Row P hi hi' ([] : List (Nest α)) := hle
  simpa using h.append hend

end Nest

/-- Two spans in the order of a table are apart, or the second lies inside the first, which is
one that has `P`. -/
def Span.Laminar (P : α → Prop) (a b : Span α) : Prop :=
  ∃ stop stop', a.stop = some stop ∧ b.stop = some stop' ∧
    (stop ≤ b.start ∨ P a.label ∧ a.start ≤ b.start ∧ stop' ≤ stop)

/-- The span is closed, and lies between `lo` and `hi`. -/
def Span.Between (lo hi : ℕ) (s : Span α) : Prop :=
  ∃ stop, s.stop = some stop ∧ lo ≤ s.start ∧ s.start ≤ stop ∧ stop ≤ hi

theorem Span.Between.mono {lo lo' hi hi' : ℕ} {s : Span α} (h : s.Between lo hi) (hlo : lo' ≤ lo)
    (hhi : hi ≤ hi') : s.Between lo' hi' := by
  obtain ⟨stop, hstop, h₁, h₂, h₃⟩ := h
  exact ⟨stop, hstop, Nat.le_trans hlo h₁, h₂, Nat.le_trans h₃ hhi⟩

namespace Nest

variable {P : α → Prop}

mutual

/-- The spans of a tree between `lo` and `hi`. -/
theorem Within.laminar {lo hi : ℕ} : ∀ {n : Nest α}, n.Within P lo hi →
    lo ≤ hi ∧ (∀ s ∈ n.spans, s.Between lo hi) ∧ n.spans.Pairwise (Span.Laminar P)
  | .mk label start stop inner, h => by
    obtain ⟨hlo, hhi, hrow, hlabel⟩ := h
    obtain ⟨hle, hbetween, hpair⟩ := Row.laminar hrow
    refine ⟨Nat.le_trans hlo (Nat.le_trans hle hhi), ?_, ?_⟩
    · intro s hs
      rw [spans, List.mem_cons] at hs
      rcases hs with rfl | hs
      · exact ⟨stop, rfl, hlo, hle, hhi⟩
      · exact (hbetween s hs).mono hlo hhi
    · rw [spans, List.pairwise_cons]
      refine ⟨?_, hpair⟩
      intro s hs
      obtain ⟨stop', hstop', hstart, -, hend⟩ := hbetween s hs
      rcases hlabel with rfl | hlabel
      · simp [rowSpans] at hs
      · exact ⟨stop, stop', rfl, hstop', .inr ⟨hlabel, hstart, hend⟩⟩

/-- The spans of a row between `lo` and `hi`. -/
theorem Row.laminar {lo hi : ℕ} : ∀ {ns : List (Nest α)}, Row P lo hi ns →
    lo ≤ hi ∧ (∀ s ∈ rowSpans ns, s.Between lo hi) ∧ (rowSpans ns).Pairwise (Span.Laminar P)
  | [], h => ⟨h, by simp [rowSpans], by simp [rowSpans]⟩
  | n :: ns, h => by
    obtain ⟨mid, hwithin, hrow⟩ := h
    obtain ⟨hle, hbetween, hpair⟩ := Within.laminar hwithin
    obtain ⟨hle', hbetween', hpair'⟩ := Row.laminar hrow
    refine ⟨Nat.le_trans hle hle', ?_, ?_⟩
    · intro s hs
      rw [rowSpans, List.mem_append] at hs
      rcases hs with hs | hs
      · exact (hbetween s hs).mono (Nat.le_refl _) hle'
      · exact (hbetween' s hs).mono hle (Nat.le_refl _)
    · rw [rowSpans, List.pairwise_append]
      refine ⟨hpair, hpair', ?_⟩
      intro a ha b hb
      obtain ⟨stop, hstop, -, -, hmid⟩ := hbetween a ha
      obtain ⟨stop', hstop', hmid', -, -⟩ := hbetween' b hb
      exact ⟨stop, stop', hstop, hstop', .inl (Nat.le_trans hmid hmid')⟩

end

end Nest

namespace Nesting

/-- The trees lie one after the other up to `hi`, those of an open span after its start. -/
def InOrderOf (P : α → Prop) (hi : ℕ) : List (OpenSpan α) → List (Nest α) → Prop
  | [], inner => Nest.Row P 0 hi inner
  | o :: os, inner => P o.label ∧ InOrderOf P o.start os o.before ∧ Nest.Row P o.start hi inner

/-- What was read lies before `hi`, in the order in which it was read, and only spans with `P`
have others inside. -/
def InOrder (P : α → Prop) (hi : ℕ) (s : Nesting α) : Prop := InOrderOf P hi s.opened s.inner

variable {P : α → Prop} {s s' : Nesting α} {hi hi' : ℕ}

theorem InOrderOf.append {os : List (OpenSpan α)} {inner more : List (Nest α)}
    (h : InOrderOf P hi os inner) (hmore : Nest.Row P hi hi' more) :
    InOrderOf P hi' os (inner ++ more) := by
  cases os with
  | nil => exact Nest.Row.append h hmore
  | cons o os => exact ⟨h.1, h.2.1, h.2.2.append hmore⟩

theorem InOrder.mono (h : s.InOrder P hi) (hle : hi ≤ hi') : s.InOrder P hi' := by
  have hend : Nest.Row P hi hi' ([] : List (Nest α)) := hle
  simpa [InOrder] using InOrderOf.append h hend

theorem InOrder.leaf (h : s.InOrder P hi) {label : α} {start stop : ℕ} (hstart : hi ≤ start)
    (hstop : start ≤ stop) : (s.leaf label start stop).InOrder P stop := by
  refine InOrderOf.append h ?_
  exact ⟨stop, ⟨hstart, Nat.le_refl _, hstop, .inl rfl⟩, Nat.le_refl _⟩

theorem InOrder.push (h : s.InOrder P hi) {label : α} {start : ℕ} (hlabel : P label)
    (hstart : hi ≤ start) : (s.push label start).InOrder P start :=
  ⟨hlabel, h.mono hstart, Nat.le_refl _⟩

theorem InOrder.pop (h : s.InOrder P hi) {stop : ℕ} {o : OpenSpan α} (hstop : hi ≤ stop)
    (hpop : s.pop stop = some (o, s')) : s'.InOrder P stop := by
  rcases s with ⟨_ | ⟨o', os⟩, inner⟩
  · cases hpop
  · simp only [Nesting.pop, Option.some.injEq, Prod.mk.injEq] at hpop
    obtain ⟨rfl, rfl⟩ := hpop
    obtain ⟨hlabel, hbefore, hinner⟩ := h
    refine InOrderOf.append hbefore ?_
    exact ⟨stop, ⟨Nat.le_refl _, Nat.le_refl _, hinner.mono hstop, .inr hlabel⟩, Nat.le_refl _⟩

/-- **The spans of a table are apart or nested**, once all of them are closed. -/
theorem laminar (h : s.InOrder P hi) (hclosed : s.opened = []) :
    (∀ e ∈ s.table, e.Between 0 hi) ∧ s.table.Pairwise (Span.Laminar P) := by
  rw [InOrder, hclosed] at h
  rw [table, hclosed]
  exact (Nest.Row.laminar h).2

end Nesting

end Vmon
