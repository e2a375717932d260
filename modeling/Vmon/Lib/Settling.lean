import Vmon.Lib.Transition

/-!
# Systems that settle

Safety says what a run never does; this is about what it can still do. From a state, some moves
settle towards a goal when only so many of them fit in a run, and a run of them that has not
reached the goal can go on: it is reached then in whatever order they are taken.

## Main definitions

* `Lts.Settles` — the promise.
* `Lts.settles_of_measure` — the rule: an invariant, and a measure that each of the moves takes
  from.
* `Lts.Settles.exists_reach` — the goal is reached.
-/

namespace Vmon

universe u v w

namespace Lts

variable {σ : Type u} {α : Type v} {ε : Type w} {M : Lts σ α ε} {ok : Move σ α ε → Prop} {s : σ}

variable (M) in
/-- At most `k` of the moves `ok` can be made from `s`, one after the other, and where they end
short of `goal` another one can be made. -/
def Settles (ok : Move σ α ε → Prop) (goal : σ → Prop) (s : σ) (k : ℕ) : Prop :=
  ∀ ⦃moves : List (Move σ α ε)⦄ ⦃h : List ε⦄ ⦃s' : σ⦄, M.Run s moves h s' → (∀ m ∈ moves, ok m) →
    moves.length ≤ k ∧ (goal s' ∨ ∃ a s'' es, ok ⟨h, s', a⟩ ∧ M.step s' a = some (s'', es))

/-- **The rule.** Each move takes something from the measure, and short of the goal there is
one. -/
theorem settles_of_measure {goal : σ → Prop} {I : σ → Prop} {μ : σ → ℕ} (hI : I s)
    (hstep : ∀ h s a s' es, I s → ok ⟨h, s, a⟩ → M.step s a = some (s', es) → I s' ∧ μ s' < μ s)
    (hgo : ∀ h s, I s → ¬goal s → ∃ a s' es, ok ⟨h, s, a⟩ ∧ M.step s a = some (s', es)) :
    M.Settles ok goal s (μ s) := by
  intro moves h s' hr hok
  have hrun : I s' ∧ moves.length + μ s' ≤ μ s := by
    induction hr with
    | init => exact ⟨hI, by simp⟩
    | step hr hs ih =>
      obtain ⟨hpre, hle⟩ := ih fun m hm => hok m (List.mem_append_left _ hm)
      have hlast := hok _ (List.mem_append_right _ (List.mem_singleton_self _))
      obtain ⟨hpost, hlt⟩ := hstep _ _ _ _ _ hpre hlast hs
      refine ⟨hpost, ?_⟩
      rw [List.length_append, List.length_singleton]
      omega
  refine ⟨by omega, ?_⟩
  by_cases hgoal : goal s'
  · exact .inl hgoal
  · exact .inr (hgo h s' hrun.1 hgoal)

/-- Some run of the moves reaches the goal, for every one does that goes on. -/
theorem Settles.exists_reach {goal : σ → Prop} {k : ℕ} (H : M.Settles ok goal s k) :
    ∃ h s', M.Reach ok s h s' ∧ goal s' := by
  have hlong : ∀ n, (∃ moves h s', M.Run s moves h s' ∧ (∀ m ∈ moves, ok m) ∧ moves.length = n) ∨
      ∃ h s', M.Reach ok s h s' ∧ goal s' := by
    intro n
    induction n with
    | zero => exact .inl ⟨[], [], s, .init, by simp, rfl⟩
    | succ n ih =>
      rcases ih with ⟨moves, h, s', hr, hok, hlen⟩ | hdone
      · rcases (H hr hok).2 with hgoal | ⟨a, s'', es, ha, hs⟩
        · exact .inr ⟨h, s', ⟨moves, hr, hok⟩, hgoal⟩
        · refine .inl ⟨_, _, _, hr.step hs, ?_, by simp [hlen]⟩
          intro m hm
          rcases List.mem_append.mp hm with hm | hm
          · exact hok m hm
          · rwa [List.mem_singleton.mp hm]
      · exact .inr hdone
  rcases hlong (k + 1) with ⟨moves, h, s', hr, hok, hlen⟩ | hdone
  · have hle := (H hr hok).1
    omega
  · exact hdone

end Lts

end Vmon
