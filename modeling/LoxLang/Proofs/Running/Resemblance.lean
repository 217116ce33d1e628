import LoxLang.Running.Evaluate
import LoxLang.Value.Text

/-!
# Values that look alike

A program that has two functions before it can see their names, the arguments they take and whether
they are the same; it sees nothing of their code or of the frames they close over. Values that are
alike in what can be seen are alike for all operators.

* `Value.Resembles`: values that are alike in all this;
* `Resembles.same`, `Resembles.binary` and the like: what they give is the same;
* `IsOrdinary`: what operators give, which is a value without parts or a failure of the operands.
-/

namespace LoxLang

/-- Values without parts. -/
def Value.IsPlain : Value → Prop
  | .nil | .bool _ | .number _ | .string _ => True
  | _ => False

/-- Values that are alike but for code and frames. -/
inductive Value.Resembles : Value → Value → Prop
  | plain {v : Value} : v.IsPlain → Resembles v v
  | native {f : Native} : Resembles (.native f) (.native f)
  | function {f f' : Closure} : f'.stamp = f.stamp → f'.name = f.name → f'.arity = f.arity →
      Resembles (.function f) (.function f')
  | ofClass {c c' : Class} : c'.stamp = c.stamp → c'.name = c.name → c'.arity = c.arity →
      Resembles (.ofClass c) (.ofClass c')
  | object {o : ObjectId} : Resembles (.object o) (.object o)

namespace Value.Resembles

variable {a a' b b' v v' : Value}

theorem isTruthy (h : Resembles v v') : v'.isTruthy = v.isTruthy := by
  cases h <;> rfl

theorem arity? (h : Resembles v v') : v'.arity? = v.arity? := by
  cases h with
  | function _ _ harity => exact congrArg some harity
  | ofClass _ _ harity => exact congrArg some harity
  | _ => rfl

theorem same (ha : Resembles a a') (hb : Resembles b b') : a'.same b' = a.same b := by
  cases ha with
  | plain _ =>
    cases hb with
    | plain _ => rfl
    | _ => cases a <;> first | rfl | contradiction
  | native =>
    cases hb with
    | plain _ => cases b <;> rfl
    | _ => rfl
  | function hc =>
    cases hb with
    | plain _ => cases b <;> first | rfl | contradiction
    | function hd => simp only [Value.same, hc, hd]
    | _ => rfl
  | ofClass hc =>
    cases hb with
    | plain _ => cases b <;> first | rfl | contradiction
    | ofClass hd => simp only [Value.same, hc, hd]
    | _ => rfl
  | object =>
    cases hb with
    | plain _ => cases b <;> rfl
    | _ => rfl

/-- They print alike where the objects have the same classes. -/
theorem display {s s' : Store} (h : Resembles v v')
    (hclass : ∀ o, s'.className o = s.className o) : s'.display v' = s.display v := by
  cases h with
  | plain hv => cases v <;> first | rfl | contradiction
  | native => rfl
  | function _ hname _ => simp only [Store.display, hname]
  | ofClass _ hname _ => exact hname
  | object => simp only [Store.display, hclass]

/-- Numbers are the same on both sides, and nothing else is a number. -/
theorem numbers (ha : Resembles a a') (hb : Resembles b b') (line : Nat) :
    BinaryOp.numbers line a' b' = BinaryOp.numbers line a b := by
  cases ha with
  | plain _ =>
    cases hb with
    | plain _ => rfl
    | _ => cases a <;> rfl
  | _ => rfl

theorem ordering (ha : Resembles a a') (hb : Resembles b b') (line : Nat) :
    BinaryOp.ordering line a' b' = BinaryOp.ordering line a b := by
  cases ha with
  | plain _ =>
    cases hb with
    | plain _ => rfl
    | _ => cases a <;> rfl
  | _ => rfl

theorem binary (ha : Resembles a a') (hb : Resembles b b') (op : BinaryOp) (line : Nat) :
    op.apply line a' b' = op.apply line a b := by
  cases op <;>
    simp only [BinaryOp.apply, ha.same hb, ha.numbers hb line, ha.ordering hb line]

theorem unary (h : Resembles v v') (op : UnaryOp) (line : Nat) :
    op.apply line v' = op.apply line v := by
  cases op with
  | not => simp only [UnaryOp.apply, h.isTruthy]
  | negate => cases h <;> rfl

theorem decidedBy (h : Resembles v v') (op : LogicalOp) : op.decidedBy v' = op.decidedBy v := by
  simp only [LogicalOp.decidedBy, h.isTruthy]

end Value.Resembles

/-! ## What operators give -/

variable {a b : Value}

/-- A value without parts, or a failure that no distance is to blame for. -/
def IsOrdinary (x : Except RuntimeError Value) : Prop :=
  (∃ v, x = .ok v ∧ v.IsPlain) ∨ ∃ e, x = .error e ∧ ∀ a d, e ≠ .unresolved a d

theorem IsOrdinary.bind {α : Type} {x : Except RuntimeError α} {f : α → Except RuntimeError Value}
    (hx : ∀ e, x = .error e → ∀ a d, e ≠ .unresolved a d) (hf : ∀ v, IsOrdinary (f v)) :
    IsOrdinary (x >>= f) := by
  cases x with
  | ok v => exact hf v
  | error e => exact .inr ⟨e, rfl, hx e rfl⟩

theorem numbers_error {line : Nat} {e : RuntimeError} (h : BinaryOp.numbers line a b = .error e) :
    ∀ x d, e ≠ .unresolved x d := by
  unfold BinaryOp.numbers at h
  split at h <;> cases h
  simp

theorem ordering_error {line : Nat} {e : RuntimeError}
    (h : BinaryOp.ordering line a b = .error e) : ∀ x d, e ≠ .unresolved x d := by
  unfold BinaryOp.ordering at h
  split at h <;> cases h
  simp

theorem UnaryOp.apply_ordinary (op : UnaryOp) (line : Nat) (v : Value) :
    IsOrdinary (op.apply line v) := by
  cases op with
  | not => exact .inl ⟨_, rfl, trivial⟩
  | negate =>
    unfold UnaryOp.apply
    dsimp only
    split
    · exact .inl ⟨_, rfl, trivial⟩
    · exact .inr ⟨_, rfl, by simp⟩

theorem BinaryOp.apply_ordinary (op : BinaryOp) (line : Nat) (a b : Value) :
    IsOrdinary (op.apply line a b) := by
  have plain : ∀ v : Value, v.IsPlain → IsOrdinary (.ok v) := fun v hv => .inl ⟨v, rfl, hv⟩
  cases op with
  | equal | notEqual => exact plain _ trivial
  | less | lessEqual | greater | greaterEqual =>
    exact .bind (fun _ => ordering_error) fun _ => plain _ trivial
  | add | subtract | multiply => exact .bind (fun _ => numbers_error) fun _ => plain _ trivial
  | divide =>
    refine .bind (fun _ => numbers_error) fun (x, y) => ?_
    dsimp only
    split
    · exact .inr ⟨_, rfl, by simp⟩
    · exact plain _ trivial

end LoxLang
