import LoxLang.Action

/-!
# Approximation

An action precedes another one if it is the same unless its fuel runs out. Actions on less fuel
precede those on more.
-/

namespace LoxLang.Action

variable {ε σ α β : Type}

/-- The two actions are the same unless the first one's fuel runs out. -/
def Precedes (x y : Action ε σ α) : Prop := ∀ s, x s = .outOfFuel ∨ y s = x s

namespace Precedes

variable {x y : Action ε σ α}

theorem refl (x : Action ε σ α) : Precedes x x := fun _ => .inr rfl

theorem outOfFuel (x : Action ε σ α) : Precedes Action.outOfFuel x := fun _ => .inl rfl

theorem bind {f g : α → Action ε σ β} (hx : Precedes x y)
    (hf : ∀ a, Precedes (f a) (g a)) : Precedes (x >>= f) (y >>= g) := by
  intro s
  obtain hnone | heq := hx s
  · exact .inl (bind_of_outOfFuel hnone)
  · cases hxs : x s with
    | ok a s₁ =>
      rw [bind_of_ok hxs, bind_of_ok (heq.trans hxs)]
      exact hf a s₁
    | error e s₁ =>
      rw [bind_of_error hxs, bind_of_error (heq.trans hxs)]
      exact .inr rfl
    | outOfFuel => exact .inl (bind_of_outOfFuel hxs)

/-- An action and what is made of its value. -/
theorem map (hx : Precedes x y) (f : α → β) : Precedes (f <$> x) (f <$> y) :=
  hx.bind fun _ => .refl _

/-- An action that goes on in the one or in the other way. -/
theorem ite {p : Prop} [Decidable p] {x' y' : Action ε σ α} (hx : Precedes x y)
    (hx' : Precedes x' y') : Precedes (if p then x else x') (if p then y else y') := by
  split
  · exact hx
  · exact hx'

/-- One of two actions, and what is done behind it. -/
theorem orElse {p : Prop} [Decidable p] {x' y' : Action ε σ α} {f g : α → Action ε σ β}
    (hx : Precedes x y) (hx' : Precedes x' y') (hf : ∀ a, Precedes (f a) (g a)) :
    Precedes (if p then x >>= f else x' >>= f) (if p then y >>= g else y' >>= g) :=
  .ite (hx.bind hf) (hx'.bind hf)

/-- An action that has come to an end. -/
theorem eq_of_ne (hx : Precedes x y) {s : σ} (h : x s ≠ .outOfFuel) : y s = x s :=
  (hx s).resolve_left h

end Precedes

end LoxLang.Action
