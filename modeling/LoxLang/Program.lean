/-!
# Programs

The expressions and statements of Lox. A node that refers to a variable carries an identity of its
own, so that two references of one name stay apart; a node that can fail at run time carries the
line to report.
-/

namespace LoxLang

/-- The identity of a node that refers to a variable. -/
abbrev NodeId := Nat

/-- A name as written in the source, with its line. -/
structure Identifier where
  name : String
  line : Nat
  deriving DecidableEq, Repr

inductive Literal
  | number (value : Float)
  | string (value : String)
  | bool (value : Bool)
  | nil
  deriving Repr

inductive UnaryOp
  | negate | not
  deriving DecidableEq, Repr

inductive BinaryOp
  | add | subtract | multiply | divide
  | equal | notEqual | less | lessEqual | greater | greaterEqual
  deriving DecidableEq, Repr

/-- The operators that may leave their right operand alone. -/
inductive LogicalOp
  | and | or
  deriving DecidableEq, Repr

namespace UnaryOp

def symbol : UnaryOp → String
  | negate => "-"
  | not => "!"

def name : UnaryOp → String
  | negate => "Negate"
  | not => "Not"

end UnaryOp

namespace BinaryOp

def symbol : BinaryOp → String
  | add => "+"
  | subtract => "-"
  | multiply => "*"
  | divide => "/"
  | equal => "=="
  | notEqual => "!="
  | less => "<"
  | lessEqual => "<="
  | greater => ">"
  | greaterEqual => ">="

def name : BinaryOp → String
  | add => "Add"
  | subtract => "Subtract"
  | multiply => "Multiply"
  | divide => "Divide"
  | equal => "Equal"
  | notEqual => "NotEqual"
  | less => "Less"
  | lessEqual => "LessEqual"
  | greater => "Greater"
  | greaterEqual => "GreaterEqual"

end BinaryOp

namespace LogicalOp

def symbol : LogicalOp → String
  | and => "and"
  | or => "or"

def name : LogicalOp → String
  | and => "And"
  | or => "Or"

end LogicalOp

inductive Expr
  | literal (value : Literal)
  | grouping (inner : Expr)
  | variable (id : NodeId) (name : Identifier)
  | this (id : NodeId) (line : Nat)
  | assign (id : NodeId) (name : Identifier) (value : Expr)
  | unary (op : UnaryOp) (line : Nat) (operand : Expr)
  | binary (op : BinaryOp) (line : Nat) (left right : Expr)
  | logical (op : LogicalOp) (left right : Expr)
  /-- A call reports errors at the line of its closing parenthesis. -/
  | call (callee : Expr) (line : Nat) (arguments : List Expr)
  | get (object : Expr) (name : Identifier)
  | set (object : Expr) (name : Identifier) (value : Expr)
  deriving Repr, Inhabited

mutual

inductive Stmt
  | expression (expr : Expr)
  | print (expr : Expr)
  | varDecl (name : Identifier) (initializer : Expr)
  | block (body : List Stmt)
  | ifElse (condition : Expr) (thenBranch : Stmt) (elseBranch : Option Stmt)
  | whileLoop (condition : Expr) (body : Stmt)
  | breakLoop (line : Nat)
  | funDecl (function : FunctionDecl)
  | returnValue (line : Nat) (value : Option Expr)
  | classDecl (name : Identifier) (methods : List FunctionDecl)

/-- A function or a method as declared. -/
inductive FunctionDecl
  | mk (name : Identifier) (params : List Identifier) (body : List Stmt)

end

instance : Inhabited Stmt := ⟨.block []⟩

namespace FunctionDecl

def name : FunctionDecl → Identifier
  | mk name _ _ => name

def params : FunctionDecl → List Identifier
  | mk _ params _ => params

def body : FunctionDecl → List Stmt
  | mk _ _ body => body

/-- The method that a class runs on each new instance. -/
def isInitializer (f : FunctionDecl) : Bool := f.name.name == "init"

end FunctionDecl

abbrev Program := List Stmt

end LoxLang
