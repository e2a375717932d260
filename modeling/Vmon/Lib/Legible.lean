import Mathlib.Data.List.Basic

/-!
# Texts that can be read back

A printer writes a value in front of the text that follows. It is legible when two values that
leave the same text are one value, and what follows them is the same: nothing of the value is
lost, and nothing of the text can belong to it or to its successor as well. Most printers are
so only in front of some texts: a number must not be followed by a digit, a name must be
followed by the mark that ends it.

Legible printers compose: one after the other, between constant texts, over the entries of a
list.

## Main definitions

* `Legible P Q write` — values with `P` can be read in front of texts with `Q`.
-/

namespace Vmon

universe u v w

variable {σ : Type u} {α : Type v} {β : Type w}

/-- What `write` puts in front of a text can be read: the value, and where it ends. -/
def Legible (P : α → Prop) (Q : List σ → Prop) (write : α → List σ) : Prop :=
  ∀ ⦃a a' : α⦄ ⦃r r' : List σ⦄, P a → P a' → Q r → Q r' → write a ++ r = write a' ++ r' →
    a = a' ∧ r = r'

namespace Legible

variable {P : α → Prop} {P' : β → Prop} {Q Q' : List σ → Prop} {f : α → List σ} {g : β → List σ}

theorem mono {P₁ : α → Prop} (h : Legible P Q f) (hP : ∀ a, P₁ a → P a) (hQ : ∀ r, Q' r → Q r) :
    Legible P₁ Q' f := by
  intro a a' r r' ha ha' hr hr' heq
  exact h (hP a ha) (hP a' ha') (hQ r hr) (hQ r' hr') heq

/-- Whole texts tell their values apart. -/
theorem eq (h : Legible P Q f) (hQ : Q []) {a a' : α} (ha : P a) (ha' : P a') (heq : f a = f a') :
    a = a' :=
  (h ha ha' hQ hQ (by rw [heq])).1

theorem comap (h : Legible P Q f) {e : β → α} (he : Function.Injective e) :
    Legible (fun b => P (e b)) Q fun b => f (e b) := by
  intro b b' r r' hb hb' hr hr' heq
  obtain ⟨hval, hrest⟩ := h hb hb' hr hr' heq
  exact ⟨he hval, hrest⟩

/-- After a constant text. -/
theorem prefixed (h : Legible P Q f) (before : List σ) : Legible P Q fun a => before ++ f a := by
  intro a a' r r' ha ha' hr hr' heq
  rw [List.append_assoc, List.append_assoc, List.append_cancel_left_eq] at heq
  exact h ha ha' hr hr' heq

/-- Before a constant text. -/
theorem suffixed (h : Legible P Q f) (after : List σ) (hafter : ∀ r, Q' r → Q (after ++ r)) :
    Legible P Q' fun a => f a ++ after := by
  intro a a' r r' ha ha' hr hr' heq
  rw [List.append_assoc, List.append_assoc] at heq
  obtain ⟨hval, hrest⟩ := h ha ha' (hafter r hr) (hafter r' hr') heq
  exact ⟨hval, List.append_cancel_left hrest⟩

/-- One after the other. -/
theorem pair (hf : Legible P Q f) (hg : Legible P' Q' g)
    (hnext : ∀ b r, P' b → Q' r → Q (g b ++ r)) :
    Legible (fun p : α × β => P p.1 ∧ P' p.2) Q' fun p => f p.1 ++ g p.2 := by
  rintro ⟨a, b⟩ ⟨a', b'⟩ r r' ⟨ha, hb⟩ ⟨ha', hb'⟩ hr hr' heq
  rw [List.append_assoc, List.append_assoc] at heq
  obtain ⟨rfl, hnext⟩ := hf ha ha' (hnext b r hb hr) (hnext b' r' hb' hr') heq
  obtain ⟨rfl, hrest⟩ := hg hb hb' hr hr' hnext
  exact ⟨rfl, hrest⟩

/-- The entries of a list, where what follows the list is no entry. -/
theorem list (h : Legible P Q f) (hnext : ∀ a r, P a → Q (f a ++ r)) (hend : ∀ r, Q' r → Q r)
    (hstop : ∀ a r r', P a → Q' r' → f a ++ r ≠ r') :
    Legible (fun as : List α => ∀ a ∈ as, P a) Q' fun as => as.flatMap f := by
  have hrest : ∀ (as : List α) (r : List σ), (∀ a ∈ as, P a) → Q' r → Q (as.flatMap f ++ r) := by
    intro as r has hr
    cases as with
    | nil => exact hend r hr
    | cons a as =>
      rw [List.flatMap_cons, List.append_assoc]
      exact hnext a _ (has a List.mem_cons_self)
  intro as as' r r' has has' hr hr' heq
  change as.flatMap f ++ r = as'.flatMap f ++ r' at heq
  induction as generalizing as' with
  | nil =>
    cases as' with
    | nil => exact ⟨rfl, heq⟩
    | cons a' as' =>
      refine absurd heq.symm ?_
      rw [List.flatMap_cons, List.append_assoc]
      exact hstop a' _ r (has' a' List.mem_cons_self) hr
  | cons a as ih =>
    obtain ⟨ha, has⟩ := List.forall_mem_cons.mp has
    cases as' with
    | nil =>
      refine absurd heq ?_
      rw [List.flatMap_cons, List.append_assoc]
      exact hstop a _ r' ha hr'
    | cons a' as' =>
      obtain ⟨ha', hmore'⟩ := List.forall_mem_cons.mp has'
      simp only [List.flatMap_cons, List.append_assoc] at heq
      obtain ⟨rfl, hrow⟩ := h ha ha' (hrest as r has hr) (hrest as' r' hmore' hr') heq
      obtain ⟨rfl, hend⟩ := ih has hmore' hrow
      exact ⟨rfl, hend⟩

/-- A word of symbols with `p`, in front of one without. -/
theorem run (p : σ → Prop) :
    Legible (fun word : List σ => ∀ s ∈ word, p s) (fun r => ∀ s ∈ r.head?, ¬p s) fun word => word := by
  intro word word' r r' hword hword' hr hr' heq
  induction word generalizing word' with
  | nil =>
    cases word' with
    | nil => exact ⟨rfl, heq⟩
    | cons s word' =>
      rw [List.nil_append] at heq
      exact absurd (hword' s List.mem_cons_self) (hr s (by rw [heq]; rfl))
  | cons s word ih =>
    obtain ⟨hs, hword⟩ := List.forall_mem_cons.mp hword
    cases word' with
    | nil =>
      rw [List.nil_append] at heq
      exact absurd hs (hr' s (by rw [← heq]; rfl))
    | cons s' word' =>
      obtain ⟨-, hmore'⟩ := List.forall_mem_cons.mp hword'
      rw [List.cons_append, List.cons_append, List.cons.injEq] at heq
      obtain ⟨rfl, htail⟩ := heq
      obtain ⟨rfl, hrest⟩ := ih hword hmore' htail
      exact ⟨rfl, hrest⟩

/-- A mark, or none. -/
theorem mark (c : σ) :
    Legible (fun _ : Bool => True) (fun r => r.head? ≠ some c) fun b => if b then [] else [c] := by
  rintro (_ | _) (_ | _) r r' - - hr hr' heq
  · simpa using heq
  · exact absurd (by simpa using heq : c :: r = r') (fun h => hr' (by rw [← h]; rfl))
  · exact absurd (by simpa using heq : r = c :: r') (fun h => hr (by rw [h]; rfl))
  · simpa using heq

end Legible

end Vmon
