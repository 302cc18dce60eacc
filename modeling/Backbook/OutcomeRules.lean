import Mathlib

/-! Inversion rules for computations that end in a value or in an error. Every
fallible operation of the development is taken apart with these and with
nothing else, so that a proof never unfolds a bind by hand. -/
namespace Outcome

variable {ε ε' : Type*} {α β : Type _}

@[simp] theorem ok_bind {a : α} {f : α → Except ε β} : (Except.ok a >>= f) = f a := rfl

@[simp] theorem error_bind {e : ε} {f : α → Except ε β} :
    ((Except.error e : Except ε α) >>= f) = .error e := rfl

@[simp] theorem bind_ok_iff {x : Except ε α} {f : α → Except ε β} {b : β} :
    (x >>= f) = .ok b ↔ ∃ a, x = .ok a ∧ f a = .ok b := by
  cases x with
  | error e => simp [bind, Except.bind]
  | ok a => simp [bind, Except.bind]

@[simp] theorem bind_error_iff {x : Except ε α} {f : α → Except ε β} {e : ε} :
    (x >>= f) = .error e ↔ x = .error e ∨ ∃ a, x = .ok a ∧ f a = .error e := by
  cases x with
  | error e' => simp [bind, Except.bind]
  | ok a => simp [bind, Except.bind]

/-- A check in front of a result. -/
theorem check_ok_iff {x : Except ε Unit} {y : Except ε β} {b : β} :
    (do x; y) = .ok b ↔ x = .ok () ∧ y = .ok b := by
  cases x <;> simp

@[simp] theorem pure_ok_iff {a b : α} : (pure a : Except ε α) = .ok b ↔ a = b := by
  simp [pure, Except.pure]

@[simp] theorem pure_ne_error {a : α} {e : ε} : (pure a : Except ε α) ≠ .error e := by
  simp [pure, Except.pure]

@[simp] theorem mapError_ok_iff {x : Except ε α} {g : ε → ε'} {a : α} :
    x.mapError g = .ok a ↔ x = .ok a := by
  cases x <;> simp [Except.mapError]

@[simp] theorem mapError_error_iff {x : Except ε α} {g : ε → ε'} {e : ε'} :
    x.mapError g = .error e ↔ ∃ d, x = .error d ∧ g d = e := by
  cases x <;> simp [Except.mapError]

@[simp] theorem map_ok_iff {x : Except ε α} {f : α → β} {b : β} :
    x.map f = .ok b ↔ ∃ a, x = .ok a ∧ f a = b := by
  cases x <;> simp [Except.map]

@[simp] theorem map_error_iff {x : Except ε α} {f : α → β} {e : ε} :
    x.map f = .error e ↔ x = .error e := by
  cases x <;> simp [Except.map]

def Below (x y : Except ε α) : Prop := ∀ a, x = .ok a → y = .ok a

theorem Below.refl (x : Except ε α) : Below x x := fun _ h => h

theorem Below.bind {x y : Except ε α} {f g : α → Except ε β} (h : Below x y)
    (hf : ∀ a, Below (f a) (g a)) : Below (x >>= f) (y >>= g) := by
  intro b hb
  obtain ⟨a, ha, hfa⟩ := bind_ok_iff.mp hb
  rw [h a ha, ok_bind]
  exact hf a b hfa

end Outcome
