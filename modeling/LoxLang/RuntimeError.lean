import LoxLang.Number.Format

/-!
# Failures at run time

The ways in which running a program can fail, their kinds and their wording.
-/

namespace LoxLang

inductive RuntimeError
  | undefinedVariable (name : String) (line : Nat)
  /-- A distance points to a frame or a binding that is not there. -/
  | unresolved (name : String) (distance : Nat)
  | operandMustBeNumber (line : Nat)
  | operandsMustBeNumbers (line : Nat)
  | operandsMustBeComparable (line : Nat)
  | notCallable (line : Nat)
  | arityMismatch (expected got line : Nat)
  | notAnObject (line : Nat)
  | undefinedProperty (name : String) (line : Nat)
  | divisionByZero (line : Nat)
  | stackOverflow (line : Nat)
  /-- A function of the host failed. -/
  | native (message : String)
  /-- The output was refused. -/
  | output (reason : String)
  deriving DecidableEq, Repr

inductive ErrorKind
  | name | type | argument | attribute | arithmetic | resource | internal
  deriving DecidableEq, Repr

namespace RuntimeError

def kind : RuntimeError → ErrorKind
  | undefinedVariable _ _ => .name
  | unresolved _ _ => .internal
  | operandMustBeNumber _ => .type
  | operandsMustBeNumbers _ => .type
  | operandsMustBeComparable _ => .type
  | notCallable _ => .type
  | arityMismatch _ _ _ => .argument
  | notAnObject _ => .type
  | undefinedProperty _ _ => .attribute
  | divisionByZero _ => .arithmetic
  | stackOverflow _ => .resource
  | native _ => .resource
  | output _ => .resource

/-- A text with the line below it. -/
def atLine (text : String) (line : Nat) : String := text ++ "\n[line " ++ digitsOf line ++ "]"

def message : RuntimeError → String
  | undefinedVariable name line => atLine ("Undefined variable '" ++ name ++ "'.") line
  | unresolved name distance =>
    "Internal error: '" ++ name ++ "' not found at distance " ++ digitsOf distance ++ "."
  | operandMustBeNumber line => atLine "Operand must be a number." line
  | operandsMustBeNumbers line => atLine "Operands must be numbers." line
  | operandsMustBeComparable line => atLine "Operands must be two numbers or two strings." line
  | notCallable line => atLine "Can only call functions and classes." line
  | arityMismatch expected got line =>
    atLine ("Expected " ++ digitsOf expected ++ " arguments but got " ++ digitsOf got ++ ".") line
  | notAnObject line => atLine "Only instances have properties." line
  | undefinedProperty name line => atLine ("Undefined property '" ++ name ++ "'.") line
  | divisionByZero line => atLine "Division by zero." line
  | stackOverflow line => atLine "Stack overflow." line
  | native message => message
  | output reason => "failed to write output: " ++ reason

end RuntimeError

end LoxLang
