/-!
# Actions

An action changes a state and ends in one of three ways: with a value, with a failure that keeps
the state reached so far, or without an answer because its fuel ran out. Parsing and running a
program are both written as actions.
-/

namespace LoxLang

/-- How an action ends. -/
inductive Outcome (ε σ α : Type)
  | ok (value : α) (state : σ)
  | error (cause : ε) (state : σ)
  | outOfFuel

/-- A computation over a state `σ` that yields an `α` or fails with an `ε`. -/
def Action (ε σ α : Type) : Type := σ → Outcome ε σ α

namespace Action

variable {ε σ α β : Type}

@[inline] def run (x : Action ε σ α) (s : σ) : Outcome ε σ α := x s

@[inline] protected def pure (a : α) : Action ε σ α := fun s => .ok a s

@[inline] protected def bind (x : Action ε σ α) (f : α → Action ε σ β) : Action ε σ β := fun s =>
  match x s with
  | .ok a s' => f a s'
  | .error e s' => .error e s'
  | .outOfFuel => .outOfFuel

instance : Monad (Action ε σ) where
  pure := Action.pure
  bind := Action.bind

/-- The state as it is. -/
@[inline] def get : Action ε σ σ := fun s => .ok s s

/-- Changes the state. -/
@[inline] def modify (f : σ → σ) : Action ε σ Unit := fun s => .ok () (f s)

/-- Ends with a failure. -/
@[inline] def fail (e : ε) : Action ε σ α := fun s => .error e s

/-- Ends without an answer. -/
@[inline] def outOfFuel : Action ε σ α := fun _ => .outOfFuel

/-- A value or a failure that leaves the state alone. -/
@[inline] def ofExcept : Except ε α → Action ε σ α
  | .ok a => fun s => .ok a s
  | .error e => fun s => .error e s

@[simp] theorem run_pure (a : α) (s : σ) : (pure a : Action ε σ α).run s = .ok a s := rfl

@[simp] theorem run_bind (x : Action ε σ α) (f : α → Action ε σ β) (s : σ) :
    (x >>= f).run s =
      match x.run s with
      | .ok a s' => (f a).run s'
      | .error e s' => .error e s'
      | .outOfFuel => .outOfFuel := rfl

@[simp] theorem run_get (s : σ) : (get : Action ε σ σ).run s = .ok s s := rfl

@[simp] theorem run_modify (f : σ → σ) (s : σ) :
    (modify f : Action ε σ Unit).run s = .ok () (f s) := rfl

@[simp] theorem run_fail (e : ε) (s : σ) : (fail e : Action ε σ α).run s = .error e s := rfl

@[simp] theorem run_outOfFuel (s : σ) : (outOfFuel : Action ε σ α).run s = .outOfFuel := rfl

/-- Two actions in a row succeed just when both do. -/
theorem bind_eq_ok {x : Action ε σ α} {f : α → Action ε σ β} {s s'' : σ} {b : β} :
    (x >>= f) s = .ok b s'' ↔ ∃ a s', x s = .ok a s' ∧ f a s' = .ok b s'' := by
  change (match x s with
    | .ok a s' => f a s'
    | .error e s' => .error e s'
    | .outOfFuel => .outOfFuel) = .ok b s'' ↔ _
  cases x s with
  | ok a s' => exact ⟨fun h => ⟨a, s', rfl, h⟩, by rintro ⟨_, _, h, h'⟩; cases h; exact h'⟩
  | error e s' => simp
  | outOfFuel => simp

theorem bind_of_ok {x : Action ε σ α} {f : α → Action ε σ β} {s s' : σ} {a : α}
    (h : x s = .ok a s') : (x >>= f) s = f a s' := by
  change (match x s with
    | .ok a s' => f a s'
    | .error e s' => .error e s'
    | .outOfFuel => .outOfFuel) = f a s'
  rw [h]

theorem bind_of_error {x : Action ε σ α} {f : α → Action ε σ β} {s s' : σ} {e : ε}
    (h : x s = .error e s') : (x >>= f) s = .error e s' := by
  change (match x s with
    | .ok a s' => f a s'
    | .error e s' => .error e s'
    | .outOfFuel => .outOfFuel) = .error e s'
  rw [h]

theorem bind_of_outOfFuel {x : Action ε σ α} {f : α → Action ε σ β} {s : σ}
    (h : x s = .outOfFuel) : (x >>= f) s = .outOfFuel := by
  change (match x s with
    | .ok a s' => f a s'
    | .error e s' => .error e s'
    | .outOfFuel => .outOfFuel) = .outOfFuel
  rw [h]

/-- What happens next only depends on how an action ends. -/
theorem bind_congr {x y : Action ε σ α} {s s' : σ} (h : x s = y s') (f : α → Action ε σ β) :
    (x >>= f) s = (y >>= f) s' := by
  cases hy : y s' with
  | ok a t => rw [bind_of_ok (h.trans hy), bind_of_ok hy]
  | error e t => rw [bind_of_error (h.trans hy), bind_of_error hy]
  | outOfFuel => rw [bind_of_outOfFuel (h.trans hy), bind_of_outOfFuel hy]

theorem bind_assoc {γ : Type} (x : Action ε σ α) (f : α → Action ε σ β) (g : β → Action ε σ γ) :
    x >>= f >>= g = x >>= fun a => f a >>= g := by
  funext s
  cases hx : x s with
  | ok a s' =>
    rw [bind_of_ok hx]
    cases hf : f a s' with
    | ok b s'' => rw [bind_of_ok ((bind_of_ok hx).trans hf), bind_of_ok hf]
    | error e s'' => rw [bind_of_error ((bind_of_ok hx).trans hf), bind_of_error hf]
    | outOfFuel => rw [bind_of_outOfFuel ((bind_of_ok hx).trans hf), bind_of_outOfFuel hf]
  | error e s' => rw [bind_of_error hx, bind_of_error (bind_of_error hx)]
  | outOfFuel => rw [bind_of_outOfFuel hx, bind_of_outOfFuel (bind_of_outOfFuel hx)]

end Action

end LoxLang
