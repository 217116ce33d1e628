import LoxLang.RuntimeError
import LoxLang.Value

/-!
# Operators

What the operators do to values. Arithmetic takes numbers only; the order relates two numbers or
two strings; any two values can be compared for equality.
-/

namespace LoxLang

def UnaryOp.apply (op : UnaryOp) (line : Nat) (operand : Value) : Except RuntimeError Value :=
  match op with
  | .not => .ok (.bool !operand.isTruthy)
  | .negate =>
    match operand with
    | .number x => .ok (.number (-x))
    | _ => .error (.operandMustBeNumber line)

namespace BinaryOp

/-- The order of the operands, which must be two numbers or two strings. -/
def ordering (line : Nat) : Value → Value → Except RuntimeError (Option Ordering)
  | .number x, .number y => .ok ((Value.number x).compare? (.number y))
  | .string s, .string t => .ok ((Value.string s).compare? (.string t))
  | _, _ => .error (.operandsMustBeComparable line)

/-- The operands, which must be numbers. -/
def numbers (line : Nat) : Value → Value → Except RuntimeError (Float × Float)
  | .number x, .number y => .ok (x, y)
  | _, _ => .error (.operandsMustBeNumbers line)

def apply (op : BinaryOp) (line : Nat) (left right : Value) : Except RuntimeError Value :=
  match op with
  | equal => .ok (.bool (left.same right))
  | notEqual => .ok (.bool !left.same right)
  | less => do return .bool ((← ordering line left right) == some .lt)
  | lessEqual => do
    let o ← ordering line left right
    return .bool (o == some .lt || o == some .eq)
  | greater => do return .bool ((← ordering line left right) == some .gt)
  | greaterEqual => do
    let o ← ordering line left right
    return .bool (o == some .gt || o == some .eq)
  | add => do
    let (x, y) ← numbers line left right
    return .number (x + y)
  | subtract => do
    let (x, y) ← numbers line left right
    return .number (x - y)
  | multiply => do
    let (x, y) ← numbers line left right
    return .number (x * y)
  | divide => do
    let (x, y) ← numbers line left right
    if y == 0 then throw (.divisionByZero line) else return .number (x / y)

end BinaryOp

/-- Whether the left operand already decides the result. -/
def LogicalOp.decidedBy (op : LogicalOp) (left : Value) : Bool :=
  match op with
  | .or => left.isTruthy
  | .and => !left.isTruthy

end LoxLang
