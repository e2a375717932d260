import Vmon.Lib.Transition

/-!
# Forward simulations

One system refines another if each of its steps, taken from related states, is one step of
the other or none, and shows there what a projection leaves of its events. The history of
every run, projected, is then the history of a run of the other (`Simulation.reach`), so
that a law of the abstract system is one of the concrete system as well, and simulations
compose (`Simulation.trans`).

The relation may speak of the history of the concrete run, and a step may use that both
states are reached by admitted runs.

## Main definitions

* `Lts.Follows` — a step, or none where there is nothing to show.
* `Simulation` — a forward simulation, with the condition on the moves of either system.
* `Simulation.reach`, `Simulation.trans`.
-/

namespace Vmon

universe u₁ u₂ u₃ v₁ v₂ v₃ w₁ w₂ w₃

variable {σ : Type u₁} {α : Type u₂} {ε : Type u₃} {τ : Type v₁} {β : Type v₂} {φ : Type v₃}
  {υ : Type w₁} {γ : Type w₂} {ψ : Type w₃}

/-- From `t`, after the history `g`, one admitted step that shows `es` and leads to `t'`; or
none, where there is nothing to show. -/
def Lts.Follows (N : Lts τ β φ) (ok : Move τ β φ → Prop) (g : List φ) (t : τ) (es : List φ)
    (t' : τ) : Prop :=
  (es = [] ∧ t' = t) ∨ ∃ b, ok ⟨g, t, b⟩ ∧ N.step t b = some (t', es)

theorem Lts.Reach.follows {N : Lts τ β φ} {ok : Move τ β φ → Prop} {t₀ t t' : τ} {g es : List φ}
    (hr : N.Reach ok t₀ g t) (h : N.Follows ok g t es t') : N.Reach ok t₀ (g ++ es) t' := by
  rcases h with ⟨rfl, rfl⟩ | ⟨b, hok, hs⟩
  · rwa [List.append_nil]
  · exact hr.step hok hs

/-- A forward simulation of the runs of `M` from `s₀` by those of `N` from `t₀`. Of the
events of `M`, `obs` leaves those of `N`. -/
structure Simulation (M : Lts σ α ε) (ok : Move σ α ε → Prop) (s₀ : σ) (N : Lts τ β φ)
    (ok' : Move τ β φ → Prop) (t₀ : τ) (obs : ε → Option φ) where
  rel : List ε → σ → τ → Prop
  init : rel [] s₀ t₀
  step : ∀ {h : List ε} {s s' : σ} {a : α} {es : List ε} {t : τ}, M.Reach ok s₀ h s →
    N.Reach ok' t₀ (h.filterMap obs) t → rel h s t → ok ⟨h, s, a⟩ → M.step s a = some (s', es) →
    ∃ t', N.Follows ok' (h.filterMap obs) t (es.filterMap obs) t' ∧ rel (h ++ es) s' t'

namespace Simulation

variable {M : Lts σ α ε} {ok : Move σ α ε → Prop} {s₀ : σ} {N : Lts τ β φ}
  {ok' : Move τ β φ → Prop} {t₀ : τ} {obs : ε → Option φ} {O : Lts υ γ ψ}
  {ok'' : Move υ γ ψ → Prop} {u₀ : υ} {obs' : φ → Option ψ}

/-- **A run of the one system is a run of the other.** -/
theorem reach (S : Simulation M ok s₀ N ok' t₀ obs) {h : List ε} {s : σ}
    (hr : M.Reach ok s₀ h s) : ∃ t, N.Reach ok' t₀ (h.filterMap obs) t ∧ S.rel h s t := by
  refine Lts.Reach.invariant
    (P := fun h s => ∃ t, N.Reach ok' t₀ (h.filterMap obs) t ∧ S.rel h s t) ?_ ?_ hr
  · exact ⟨t₀, .init, S.init⟩
  · intro h s a s' es hreach ⟨t, ht, hrel⟩ hok hs
    obtain ⟨t', hfollows, hrel'⟩ := S.step hreach ht hrel hok hs
    refine ⟨t', ?_, hrel'⟩
    rw [List.filterMap_append]
    exact ht.follows hfollows

/-- Simulations compose. -/
def trans (S : Simulation M ok s₀ N ok' t₀ obs) (T : Simulation N ok' t₀ O ok'' u₀ obs') :
    Simulation M ok s₀ O ok'' u₀ (fun e => (obs e).bind obs') where
  rel h s u := ∃ t, N.Reach ok' t₀ (h.filterMap obs) t ∧ S.rel h s t ∧ T.rel (h.filterMap obs) t u
  init := ⟨t₀, .init, S.init, T.init⟩
  step := by
    rintro h s s' a es u hs hu ⟨t, ht, hS, hT⟩ hok hstep
    simp only [← List.filterMap_filterMap] at hu ⊢
    obtain ⟨t', hfollows, hS'⟩ := S.step hs ht hS hok hstep
    have ht' := ht.follows hfollows
    rw [List.filterMap_append]
    rcases hfollows with ⟨hnil, rfl⟩ | ⟨b, hokb, hb⟩
    · refine ⟨u, .inl ⟨by rw [hnil]; rfl, rfl⟩, t', ht', hS', ?_⟩
      rwa [hnil, List.append_nil]
    · obtain ⟨u', hfollows', hT'⟩ := T.step ht hu hT hokb hb
      exact ⟨u', hfollows', t', ht', hS', hT'⟩

end Simulation

end Vmon
