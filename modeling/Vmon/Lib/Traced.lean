import Mathlib.Data.List.Basic

/-!
# Computations with a log

A computation that does something to a memory, such as reading it, keeps a log of what it does.
`Closed` are the properties of logs that hold of a computation as soon as they hold of its parts.

## Main definitions

* `Traced` — a value, and the events on the way to it.
* `Traced.Closed` — properties that go from the parts to the whole.
-/

namespace Vmon

/-- A value, and the events on the way to it. -/
@[ext] structure Traced (ε α : Type) where
  value : α
  log : List ε

namespace Traced

variable {ε α β : Type}

instance : Monad (Traced ε) where
  pure a := ⟨a, []⟩
  bind x f := ⟨(f x.value).value, x.log ++ (f x.value).log⟩

@[simp] theorem value_pure (a : α) : (pure a : Traced ε α).value = a := rfl
@[simp] theorem log_pure (a : α) : (pure a : Traced ε α).log = [] := rfl

@[simp] theorem value_bind (x : Traced ε α) (f : α → Traced ε β) :
    (x >>= f).value = (f x.value).value := rfl

@[simp] theorem log_bind (x : Traced ε α) (f : α → Traced ε β) :
    (x >>= f).log = x.log ++ (f x.value).log := rfl

@[simp] theorem value_map (f : α → β) (x : Traced ε α) : (f <$> x).value = f x.value := rfl

@[simp] theorem log_map (f : α → β) (x : Traced ε α) : (f <$> x).log = x.log :=
  List.append_nil x.log

/-- A property of the empty log, and of two logs one after the other if it is one of both. -/
structure Closed (C : List ε → Prop) : Prop where
  nil : C []
  append : ∀ {a b}, C a → C b → C (a ++ b)

namespace Closed

variable {C : List ε → Prop}

theorem pure (hC : Closed C) (a : α) : C (Pure.pure a : Traced ε α).log := hC.nil

/-- **Sequencing.** -/
theorem bind (hC : Closed C) {x : Traced ε α} {f : α → Traced ε β} (hx : C x.log)
    (hf : C (f x.value).log) : C (x >>= f).log :=
  hC.append hx hf

/-- What holds of every event is closed. -/
theorem forall_mem (P : ε → Prop) : Closed fun log : List ε => ∀ e ∈ log, P e :=
  ⟨by simp, fun ha hb => List.forall_mem_append.mpr ⟨ha, hb⟩⟩

end Closed

end Traced

end Vmon
