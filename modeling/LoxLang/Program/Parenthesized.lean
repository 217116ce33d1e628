import LoxLang.Program
import LoxLang.Number.Format

/-!
# Programs in parentheses

Every node as a list that starts with its operator or kind and goes on with its parts.
-/

namespace LoxLang

namespace Literal

/-- Whole literals are written with all their digits and one decimal. -/
def numberFormat : NumberFormat := .plain none ".0"

def parenthesized : Literal → String
  | number value => numberFormat.write value
  | string value => value
  | bool value => if value then "true" else "false"
  | nil => "nil"

end Literal

mutual

def Expr.parenthesized : Expr → String
  | .literal value => value.parenthesized
  | .grouping inner => "(group " ++ inner.parenthesized ++ ")"
  | .variable _ name => name.name
  | .this _ _ => "this"
  | .assign _ name value => "(= " ++ name.name ++ " " ++ value.parenthesized ++ ")"
  | .unary op _ operand => "(" ++ op.symbol ++ " " ++ operand.parenthesized ++ ")"
  | .binary op _ left right =>
    "(" ++ op.symbol ++ " " ++ left.parenthesized ++ " " ++ right.parenthesized ++ ")"
  | .logical op left right =>
    "(" ++ op.symbol ++ " " ++ left.parenthesized ++ " " ++ right.parenthesized ++ ")"
  | .call callee _ arguments =>
    "(call " ++ callee.parenthesized ++ Expr.parenthesizedParts arguments ++ ")"
  | .get object name => "(. " ++ object.parenthesized ++ " " ++ name.name ++ ")"
  | .set object name value =>
    "(= (. " ++ object.parenthesized ++ " " ++ name.name ++ ") " ++ value.parenthesized ++ ")"

/-- Expressions, each behind a space. -/
def Expr.parenthesizedParts : List Expr → String
  | [] => ""
  | e :: rest => " " ++ e.parenthesized ++ Expr.parenthesizedParts rest

end

mutual

def Stmt.parenthesized : Stmt → String
  | .expression expr => "(; " ++ expr.parenthesized ++ ")"
  | .print expr => "(print " ++ expr.parenthesized ++ ")"
  | .varDecl name initializer => "(var " ++ name.name ++ " " ++ initializer.parenthesized ++ ")"
  | .block body => "(block" ++ Stmt.parenthesizedParts body ++ ")"
  | .ifElse condition thenBranch none =>
    "(if " ++ condition.parenthesized ++ " " ++ thenBranch.parenthesized ++ ")"
  | .ifElse condition thenBranch (some elseBranch) =>
    "(if " ++ condition.parenthesized ++ " " ++ thenBranch.parenthesized ++ " "
      ++ elseBranch.parenthesized ++ ")"
  | .whileLoop condition body =>
    "(while " ++ condition.parenthesized ++ " " ++ body.parenthesized ++ ")"
  | .breakLoop _ => "(break)"
  | .funDecl function => "(fun " ++ function.parenthesizedTail ++ ")"
  | .returnValue _ none => "(return)"
  | .returnValue _ (some value) => "(return " ++ value.parenthesized ++ ")"
  | .classDecl name methods =>
    "(class " ++ name.name ++ FunctionDecl.parenthesizedMethods methods ++ ")"

/-- Statements, each behind a space. -/
def Stmt.parenthesizedParts : List Stmt → String
  | [] => ""
  | s :: rest => " " ++ s.parenthesized ++ Stmt.parenthesizedParts rest

/-- Name, parameters and body of a function. -/
def FunctionDecl.parenthesizedTail : FunctionDecl → String
  | .mk name params body =>
    name.name ++ " (" ++ " ".intercalate (params.map (·.name)) ++ ")"
      ++ Stmt.parenthesizedParts body

/-- Methods, each behind a space. -/
def FunctionDecl.parenthesizedMethods : List FunctionDecl → String
  | [] => ""
  | f :: rest =>
    " (method " ++ f.parenthesizedTail ++ ")" ++ FunctionDecl.parenthesizedMethods rest

end

end LoxLang
