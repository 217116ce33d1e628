import LoxLang.Bindings
import LoxLang.Program

/-!
# Values

Functions and classes are values in their own right and never change; a stamp tells apart two that
were made from one declaration. Objects live in the store, and a value only names one.

* `Value.same`: equality, by stamp or name where a value has an identity;
* `Value.compare?`: the order of two numbers or two strings.
-/

namespace LoxLang

/-- A frame of the store. -/
abbrev FrameId : Type := Nat

/-- An object of the store. -/
abbrev ObjectId : Type := Nat

/-- A declared function with the frame it closes over. -/
structure Closure where
  stamp : Nat
  declaration : FunctionDecl
  frame : FrameId
  isInitializer : Bool

def Closure.name (f : Closure) : String := f.declaration.name.name

def Closure.arity (f : Closure) : Nat := f.declaration.params.length

structure Class where
  stamp : Nat
  name : String
  methods : Bindings Closure

namespace Class

def method? (c : Class) (name : String) : Option Closure := c.methods.find? name

/-- The method that runs on each new object. -/
def initializer? (c : Class) : Option Closure := c.method? "init"

/-- A class takes the arguments of its initializer. -/
def arity (c : Class) : Nat := (c.initializer?.map (·.arity)).getD 0

end Class

/-- A function that the host provides; its name tells which. -/
structure Native where
  name : String
  arity : Nat
  deriving DecidableEq, Repr

inductive Value
  | nil
  | bool (b : Bool)
  | number (x : Float)
  | string (s : String)
  | native (f : Native)
  | function (f : Closure)
  | ofClass (c : Class)
  | object (id : ObjectId)

instance : Inhabited Value := ⟨.nil⟩

namespace Value

/-- Everything but `nil` and `false` counts as true. -/
def isTruthy : Value → Bool
  | nil => false
  | bool b => b
  | _ => true

/-- How many arguments the value takes, if it can be called. -/
def arity? : Value → Option Nat
  | native f => some f.arity
  | function f => some f.arity
  | ofClass c => some c.arity
  | _ => none

/-- Equality. Values of different types differ, and so do two undefined numbers. -/
def same : Value → Value → Bool
  | nil, nil => true
  | bool a, bool b => a == b
  | number x, number y => x == y
  | string s, string t => s == t
  | native f, native g => f.name == g.name
  | function f, function g => f.stamp == g.stamp
  | ofClass c, ofClass d => c.stamp == d.stamp
  | object a, object b => a == b
  | _, _ => false

/-- The order of two numbers; an undefined number has none. -/
def compareNumbers? (x y : Float) : Option Ordering :=
  if x < y then some .lt
  else if x == y then some .eq
  else if y < x then some .gt
  else none

/-- The order of two numbers or two strings, strings by code point. -/
def compare? : Value → Value → Option Ordering
  | number x, number y => compareNumbers? x y
  | string s, string t => some (compare s t)
  | _, _ => none

def typeName : Value → String
  | nil => "nil"
  | bool _ => "boolean"
  | number _ => "number"
  | string _ => "string"
  | native _ => "function"
  | function _ => "function"
  | ofClass _ => "class"
  | object _ => "instance"

end Value

/-- The value of a literal. -/
def Literal.value : Literal → Value
  | number x => .number x
  | string s => .string s
  | bool b => .bool b
  | nil => .nil

end LoxLang
