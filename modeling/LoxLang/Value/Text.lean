import LoxLang.Store

/-!
# The text of values

`Store.display` is what `print` writes; `Store.describe?` tells the parts of a function, a class
or an object that have names.
-/

namespace LoxLang

namespace Value

/-- Whole numbers below 10^15 are written in full, others with the fewest digits that read back. -/
def numberFormat : NumberFormat := .plain (some (powerOfTen 15)) ""

/-- The names in a function, a class or an object; methods and fields in ascending order. -/
inductive Description
  | function (name : String) (arity : Nat) (isInitializer : Bool)
  | ofClass (name : String) (methods : List String)
  | object (ofClass : String) (fields : List String)
  deriving DecidableEq, Repr

end Value

namespace Store

/-- The class of an object. -/
def className (s : Store) (o : ObjectId) : String :=
  (s.objects[o]?.map (·.ofClass.name)).getD ""

/-- The text that `print` writes. -/
def display (s : Store) : Value → String
  | .nil => "nil"
  | .bool b => if b then "true" else "false"
  | .number x => Value.numberFormat.write x
  | .string text => text
  | .native _ => "<native fn>"
  | .function f => "<fn " ++ f.name ++ ">"
  | .ofClass c => c.name
  | .object o => s.className o ++ " instance"

/-- Names in ascending order. -/
def sorted (names : List String) : List String := names.mergeSort fun a b => decide (a ≤ b)

/-- What a function, a class or an object is called and has. -/
def describe? (s : Store) : Value → Option Value.Description
  | .function f => some (.function f.name f.arity f.isInitializer)
  | .ofClass c => some (.ofClass c.name (sorted c.methods.names))
  | .object o =>
    some (.object (s.className o) (sorted ((s.objects[o]?.map (·.fields.names)).getD [])))
  | _ => none

end Store

end LoxLang
