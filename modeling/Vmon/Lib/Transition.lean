import Mathlib.Data.List.Basic

/-!
# Labelled transition systems with a history

A system whose every step is a partial function of the state and a label. The
label resolves everything the program does not decide: which thread moves, what a
foreign call returns, which timer fires. A step reports the events it makes
visible, and a run collects them in order, so a safety property may speak of the
past without a history variable in the state.

A run also records its moves, so that a property can be stated for the runs whose
every move satisfies a condition on the state before it.

## Main definitions

* `Lts` — a system: its step function.
* `Run` — the moves, the history and the last state of a run.
* `Shows` — an event of a move.
* `Reach` — a history and state at the end of a run whose moves are all admitted.
* `Reach.invariant` — the induction rule every invariant goes through.
* `Run.always_iff` — a property that holds all along a run exactly if its moves are admitted.
* `exec`, `trace` — the run of an explicit list of labels; `exists_reach_of_exec`.
-/

namespace Vmon

universe u v w

/-- A labelled transition system. `step s a = none` where the label `a` is not
enabled in `s`. -/
structure Lts (σ : Type u) (α : Type v) (ε : Type w) where
  step : σ → α → Option (σ × List ε)

/-- One move of a run: the history and the state before it, and its label. -/
structure Move (σ : Type u) (α : Type v) (ε : Type w) where
  hist : List ε
  pre : σ
  action : α

/-- Where a history grows by one event at most, an event in it is the new one, or was
there before. -/
theorem append_eq_split {ε : Type w} {h es h₁ h₂ : List ε} {e : ε} (hone : es.length ≤ 1)
    (heq : h ++ es = h₁ ++ e :: h₂) :
    (es = [e] ∧ h₁ = h ∧ h₂ = []) ∨ ∃ g, h = h₁ ++ e :: g ∧ h₂ = g ++ es := by
  rcases es with _ | ⟨x, _ | ⟨y, es⟩⟩
  · exact .inr ⟨h₂, by simpa using heq, by simp⟩
  · rcases List.eq_nil_or_concat h₂ with rfl | ⟨g, z, rfl⟩
    · rcases List.append_inj' heq rfl with ⟨rfl, hx⟩
      exact .inl ⟨hx, rfl, rfl⟩
    · have heq' : h ++ [x] = (h₁ ++ e :: g) ++ [z] := by simpa using heq
      rcases List.append_inj' heq' rfl with ⟨rfl, hx⟩
      exact .inr ⟨g, rfl, by rw [hx]; simp⟩
  · simp at hone

namespace Lts

variable {σ : Type u} {α : Type v} {ε : Type w} (M : Lts σ α ε)

/-- `Run s₀ moves h s`: from `s₀`, the moves `moves` produce the history `h` and
end in `s`. -/
inductive Run (s₀ : σ) : List (Move σ α ε) → List ε → σ → Prop
  | init : Run s₀ [] [] s₀
  | step {moves : List (Move σ α ε)} {h : List ε} {s s' : σ} {a : α} {es : List ε} :
      Run s₀ moves h s → M.step s a = some (s', es) →
      Run s₀ (moves ++ [⟨h, s, a⟩]) (h ++ es) s'

theorem Run.of_nil {M : Lts σ α ε} {s₀ s : σ} {h : List ε} (hr : M.Run s₀ [] h s) :
    h = [] ∧ s = s₀ := by
  generalize hmoves : ([] : List (Move σ α ε)) = moves at hr
  cases hr with
  | init => exact ⟨rfl, rfl⟩
  | step => simp at hmoves

/-- The event is one of those of the move. -/
def Shows (m : Move σ α ε) (e : ε) : Prop :=
  ∃ s' es, M.step m.pre m.action = some (s', es) ∧ e ∈ es

/-- What a run shows, it shows in one of its moves. -/
theorem Run.exists_shows {M : Lts σ α ε} {s₀ s : σ} {moves : List (Move σ α ε)} {h : List ε}
    (hr : M.Run s₀ moves h s) {e : ε} (he : e ∈ h) : ∃ m ∈ moves, M.Shows m e := by
  induction hr with
  | init => simp at he
  | @step moves h s s' a es hr hs ih =>
    rcases List.mem_append.mp he with he | he
    · obtain ⟨m, hm, hshows⟩ := ih he
      exact ⟨m, List.mem_append_left _ hm, hshows⟩
    · exact ⟨⟨h, s, a⟩, by simp, s', es, hs, he⟩

/-- The histories and states at the end of the runs whose moves all satisfy `ok`. -/
def Reach (ok : Move σ α ε → Prop) (s₀ : σ) (h : List ε) (s : σ) : Prop :=
  ∃ moves, M.Run s₀ moves h s ∧ ∀ m ∈ moves, ok m

variable {M} {ok ok' : Move σ α ε → Prop} {s₀ s s' : σ} {h h' es : List ε} {a : α}

theorem Reach.init : M.Reach ok s₀ [] s₀ := ⟨[], .init, by simp⟩

theorem Reach.step (hr : M.Reach ok s₀ h s) (hok : ok ⟨h, s, a⟩)
    (hs : M.step s a = some (s', es)) : M.Reach ok s₀ (h ++ es) s' := by
  rcases hr with ⟨moves, hrun, hall⟩
  refine ⟨_, hrun.step hs, fun m hm => ?_⟩
  rcases List.mem_append.mp hm with hm | hm
  · exact hall m hm
  · rwa [List.mem_singleton.mp hm]

/-- One run after the other. -/
theorem Reach.trans (hr : M.Reach ok s₀ h s) (hr' : M.Reach ok' s h' s')
    (hok : ∀ m, ok' m → ok ⟨h ++ m.hist, m.pre, m.action⟩) : M.Reach ok s₀ (h ++ h') s' := by
  obtain ⟨moves, hrun, hall⟩ := hr'
  induction hrun with
  | init => rwa [List.append_nil]
  | step hrun hs ih =>
    rw [← List.append_assoc]
    have hlast := hall _ (List.mem_append_right _ (List.mem_singleton_self _))
    exact (ih fun m hm => hall m (List.mem_append_left _ hm)).step (hok _ hlast) hs

theorem Reach.mono (hr : M.Reach ok s₀ h s) (hsub : ∀ m, ok m → ok' m) :
    M.Reach ok' s₀ h s := by
  rcases hr with ⟨moves, hrun, hall⟩
  exact ⟨moves, hrun, fun m hm => hsub m (hall m hm)⟩

/-- **Induction along admitted runs.** The step case may use that the state before
it is itself reached by an admitted run. -/
theorem Reach.invariant {P : List ε → σ → Prop} (h0 : P [] s₀)
    (hstep : ∀ h s a s' es, M.Reach ok s₀ h s → P h s → ok ⟨h, s, a⟩ →
      M.step s a = some (s', es) → P (h ++ es) s')
    (hr : M.Reach ok s₀ h s) : P h s := by
  rcases hr with ⟨moves, hrun, hall⟩
  induction hrun with
  | init => exact h0
  | step hrun hs ih =>
    have hpre : ∀ m ∈ _, ok m := fun m hm => hall m (List.mem_append_left _ hm)
    exact hstep _ _ _ _ _ ⟨_, hrun, hpre⟩ (ih hpre) (hall _ (by simp)) hs

/-- **A property that the moves decide.** Where a step keeps `P` exactly if its move is admitted,
`P` holds all along a run exactly if every move of it is. -/
theorem Run.always_iff {P : List ε → σ → Prop} {moves : List (Move σ α ε)} (h0 : P [] s₀)
    (hstep : ∀ moves h s a s' es, M.Run s₀ moves h s → P h s → M.step s a = some (s', es) →
      (P (h ++ es) s' ↔ ok ⟨h, s, a⟩)) (hr : M.Run s₀ moves h s) :
    ((∀ m ∈ moves, P m.hist m.pre) ∧ P h s) ↔ ∀ m ∈ moves, ok m := by
  induction hr with
  | init => simpa using h0
  | step hrun hs ih =>
    constructor
    · rintro ⟨hpre, hlast⟩ m hm
      have hbefore : P _ _ := hpre _ (List.mem_append_right _ (List.mem_singleton.mpr rfl))
      rcases List.mem_append.mp hm with hm | hm
      · exact ih.mp ⟨fun m hm => hpre m (List.mem_append_left _ hm), hbefore⟩ m hm
      · rw [List.mem_singleton.mp hm]
        exact (hstep _ _ _ _ _ _ hrun hbefore hs).mp hlast
    · intro hok
      obtain ⟨hpre, hbefore⟩ := ih.mpr fun m hm => hok m (List.mem_append_left _ hm)
      refine ⟨?_, (hstep _ _ _ _ _ _ hrun hbefore hs).mpr (hok _ (by simp))⟩
      intro m hm
      rcases List.mem_append.mp hm with hm | hm
      · exact hpre m hm
      · rwa [List.mem_singleton.mp hm]

variable (M) in
/-- The run of the labels `as`, continuing the history `h` from the state `s`, if all
its moves satisfy `ok`. -/
def exec (ok : Move σ α ε → Bool) : List ε → σ → List α → Option (List ε × σ)
  | h, s, [] => some (h, s)
  | h, s, a :: as =>
    if ok ⟨h, s, a⟩ then
      match M.step s a with
      | none => none
      | some (s', es) => exec ok (h ++ es) s' as
    else none

/-- The moves of such a run are the labels of the list. -/
theorem reach_mem_of_exec {ok : Move σ α ε → Bool} {as bs : List α} (hsub : as ⊆ bs)
    (hr : M.Reach (fun m => ok m = true ∧ m.action ∈ bs) s₀ h s)
    (he : M.exec ok h s as = some (h', s')) :
    M.Reach (fun m => ok m = true ∧ m.action ∈ bs) s₀ h' s' := by
  induction as generalizing h s with
  | nil =>
    simp only [exec, Option.some.injEq, Prod.mk.injEq] at he
    rcases he with ⟨rfl, rfl⟩
    exact hr
  | cons a as ih =>
    rw [List.cons_subset] at hsub
    simp only [exec] at he
    by_cases hok : ok ⟨h, s, a⟩ = true
    · rw [if_pos hok] at he
      cases hs : M.step s a with
      | none => simp [hs] at he
      | some next =>
        rcases next with ⟨t, es⟩
        simp only [hs] at he
        exact ih hsub.2 (hr.step ⟨hok, hsub.1⟩ hs) he
    · rw [if_neg hok] at he
      simp at he

theorem reach_of_exec {ok : Move σ α ε → Bool} {as : List α}
    (he : M.exec ok [] s₀ as = some (h', s')) :
    M.Reach (fun m => ok m = true ∧ m.action ∈ as) s₀ h' s' :=
  reach_mem_of_exec (fun _ ha => ha) .init he

/-- What an explicit list of labels shows, checked where it ends. -/
theorem exists_reach_mem_of_exec (M : Lts σ α ε) (ok : Move σ α ε → Bool) (s₀ : σ) (as : List α)
    (p : List ε → σ → Bool) (he : (M.exec ok [] s₀ as).any (fun r => p r.1 r.2) = true) :
    ∃ h s, M.Reach (fun m => ok m = true ∧ m.action ∈ as) s₀ h s ∧ p h s = true := by
  rcases (Option.any_eq_true_iff_get _ _).mp he with ⟨hsome, hp⟩
  rcases Option.isSome_iff_exists.mp hsome with ⟨⟨h, s⟩, hrun⟩
  exact ⟨h, s, reach_of_exec hrun, by simpa [hrun] using hp⟩

theorem exists_reach_of_exec (M : Lts σ α ε) (ok : Move σ α ε → Bool) (s₀ : σ) (as : List α)
    (p : List ε → σ → Bool) (he : (M.exec ok [] s₀ as).any (fun r => p r.1 r.2) = true) :
    ∃ h s, M.Reach (fun m => ok m = true) s₀ h s ∧ p h s = true := by
  rcases exists_reach_mem_of_exec M ok s₀ as p he with ⟨h, s, hr, hp⟩
  exact ⟨h, s, hr.mono fun m hm => hm.1, hp⟩

variable (M) in
/-- The run of the labels `as` from the state `s`, after the history `h`, with its moves. -/
def trace (h : List ε) (s : σ) : List α → Option (List (Move σ α ε) × List ε × σ)
  | [] => some ([], h, s)
  | a :: as =>
    match M.step s a with
    | none => none
    | some (s', es) => (trace (h ++ es) s' as).map fun r => (⟨h, s, a⟩ :: r.1, r.2)

theorem trace_actions {moves : List (Move σ α ε)} {as : List α}
    (he : M.trace h s as = some (moves, h', s')) : moves.map Move.action = as := by
  induction as generalizing moves h s with
  | nil =>
    simp only [Lts.trace, Option.some.injEq, Prod.mk.injEq] at he
    rw [← he.1, List.map_nil]
  | cons a as ih =>
    simp only [Lts.trace] at he
    cases hs : M.step s a with
    | none => simp [hs] at he
    | some next =>
      rcases next with ⟨t, es⟩
      simp only [hs, Option.map_eq_some_iff, Prod.mk.injEq] at he
      rcases he with ⟨⟨rest, h'', s''⟩, hrest, rfl, rfl, rfl⟩
      rw [List.map_cons, ih hrest]

theorem Run.trace {moves moves' : List (Move σ α ε)} {as : List α} (hr : M.Run s₀ moves h s)
    (he : M.trace h s as = some (moves', h', s')) : M.Run s₀ (moves ++ moves') h' s' := by
  induction as generalizing moves moves' h s with
  | nil =>
    simp only [Lts.trace, Option.some.injEq, Prod.mk.injEq] at he
    rcases he with ⟨rfl, rfl, rfl⟩
    rwa [List.append_nil]
  | cons a as ih =>
    simp only [Lts.trace] at he
    cases hs : M.step s a with
    | none => simp [hs] at he
    | some next =>
      rcases next with ⟨t, es⟩
      simp only [hs, Option.map_eq_some_iff, Prod.mk.injEq] at he
      rcases he with ⟨⟨rest, h'', s''⟩, hrest, rfl, rfl, rfl⟩
      simpa using ih (hr.step hs) hrest

/-- What the run of an explicit list of labels shows, checked where it ends. -/
theorem exists_run_of_trace (M : Lts σ α ε) (s₀ : σ) (as : List α)
    (p : List (Move σ α ε) → List ε → σ → Bool)
    (he : (M.trace [] s₀ as).any (fun r => p r.1 r.2.1 r.2.2) = true) :
    ∃ moves h s, M.Run s₀ moves h s ∧ moves.map Move.action = as ∧ p moves h s = true := by
  rcases (Option.any_eq_true_iff_get _ _).mp he with ⟨hsome, hp⟩
  rcases Option.isSome_iff_exists.mp hsome with ⟨⟨moves, h, s⟩, htrace⟩
  refine ⟨moves, h, s, ?_, trace_actions htrace, by simpa [htrace] using hp⟩
  exact Run.trace .init htrace

end Lts

end Vmon
