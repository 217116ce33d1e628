import LoxLang.Number.Format
import LoxLang.Scoping.Distances

/-!
# Scopes

* `ScopeFault`: the ways in which a program can be wrong before it runs;
* `Context`: the scopes around a node, and what it stands in;
* `Program.resolve`: the distance of every reference to a local variable, or the first fault.

A block, a function and a class each open a scope; global names are in none. A scope marks each
name it declares as ready or not: a variable is not ready inside its own initializer.
-/

namespace LoxLang

inductive ScopeFault
  | duplicateBinding (name : String)
  | selfReference (name : String)
  | returnOutsideFunction
  | returnValueFromInitializer
  | breakOutsideLoop
  | thisOutsideClass
  deriving DecidableEq, Repr

namespace ScopeFault

/-- The word the fault is found at. -/
def place : ScopeFault → String
  | duplicateBinding name => name
  | selfReference name => name
  | returnOutsideFunction => "return"
  | returnValueFromInitializer => "return"
  | breakOutsideLoop => "break"
  | thisOutsideClass => "this"

def message : ScopeFault → String
  | duplicateBinding _ => "Already a variable with this name in this scope."
  | selfReference _ => "Can't read local variable in its own initializer."
  | returnOutsideFunction => "Can't return from top-level code."
  | returnValueFromInitializer => "Can't return a value from an initializer."
  | breakOutsideLoop => "Can't break outside of a loop."
  | thisOutsideClass => "Can't use 'this' outside of a class."

end ScopeFault

structure ScopeError where
  fault : ScopeFault
  line : Nat
  deriving DecidableEq, Repr

def ScopeError.message (e : ScopeError) : String :=
  "[line " ++ digitsOf e.line ++ "] Error at '" ++ e.fault.place ++ "': " ++ e.fault.message

namespace Scoping

/-- The names of a scope, each with whether it is ready; the newest mark of a name counts. -/
abbrev Scope : Type := List (String × Bool)

/-- What a `return` may do in the function around it. -/
inductive Routine
  | ordinary | initializer
  deriving DecidableEq, Repr

/-- What a node stands in. -/
structure Context where
  /-- The local scopes, the innermost first. -/
  scopes : List Scope
  /-- The nearest function around the node. -/
  routine : Option Routine
  inClass : Bool
  /-- Whether a loop is around the node, in the nearest function. -/
  inLoop : Bool
  /-- The global variable whose initializer the node is in. -/
  initializing : Option String

namespace Context

/-- Outside of everything. -/
def top : Context := ⟨[], none, false, false, none⟩

/-- Marks a name in the innermost scope. -/
def mark (ctx : Context) (name : String) (ready : Bool) : Context :=
  match ctx.scopes with
  | [] => ctx
  | scope :: outer => { ctx with scopes := ((name, ready) :: scope) :: outer }

/-- Whether the innermost scope has the name. -/
def hasLocal (ctx : Context) (name : String) : Bool :=
  match ctx.scopes with
  | [] => false
  | scope :: _ => (scope.lookup name).isSome

/-- Adds a name that is not ready to the innermost scope, which must not have it. -/
def declare (ctx : Context) (name : Identifier) : Except ScopeError Context :=
  if ctx.hasLocal name.name then .error ⟨.duplicateBinding name.name, name.line⟩
  else .ok (ctx.mark name.name false)

/-- Adds a name that is ready at once. -/
def introduce (ctx : Context) (name : Identifier) : Except ScopeError Context := do
  return (← ctx.declare name).mark name.name true

/-- Adds the parameters of a function. -/
def introduceAll (ctx : Context) : List Identifier → Except ScopeError Context
  | [] => .ok ctx
  | name :: rest => do introduceAll (← ctx.introduce name) rest

/-- Inside a new scope. -/
def push (ctx : Context) (scope : Scope) : Context := { ctx with scopes := scope :: ctx.scopes }

/-- Inside the initializer of a variable. -/
def inInitializer (ctx : Context) (name : String) : Context :=
  if ctx.scopes.isEmpty then { ctx with initializing := some name } else ctx

/-- Inside the body of a function. -/
def inRoutine (ctx : Context) (routine : Routine) : Context :=
  { ctx.push [] with routine := some routine, inLoop := false }

/-- Among the methods of a class. -/
def inClassBody (ctx : Context) : Context :=
  { ctx.push [("this", true)] with inClass := true }

/-- Whether the name is the variable whose initializer the node is in. -/
def isInitializing (ctx : Context) (name : String) : Bool :=
  match ctx.scopes with
  | [] => ctx.initializing == some name
  | scope :: _ => scope.lookup name == some false

/-- How many scopes out the name is declared. -/
def distance? (ctx : Context) (name : String) : Option Nat :=
  ctx.scopes.findIdx? fun scope => (scope.lookup name).isSome

/-- The entry of a reference; a global one has none. -/
def entry (ctx : Context) (id : NodeId) (name : String) : Distances :=
  match ctx.distance? name with
  | some d => [(id, d)]
  | none => []

end Context

mutual

def resolveExpr (ctx : Context) : Expr → Except ScopeError Distances
  | .literal _ => .ok []
  | .grouping inner => resolveExpr ctx inner
  | .variable id name =>
    if ctx.isInitializing name.name then .error ⟨.selfReference name.name, name.line⟩
    else .ok (ctx.entry id name.name)
  | .this id line =>
    if ctx.inClass then .ok (ctx.entry id "this") else .error ⟨.thisOutsideClass, line⟩
  | .assign id name value => do
    let inside ← resolveExpr ctx value
    return ctx.entry id name.name ++ inside
  | .unary _ _ operand => resolveExpr ctx operand
  | .binary _ _ left right => do
    let first ← resolveExpr ctx left
    let second ← resolveExpr ctx right
    return second ++ first
  | .logical _ left right => do
    let first ← resolveExpr ctx left
    let second ← resolveExpr ctx right
    return second ++ first
  | .call callee _ arguments => do
    let first ← resolveExpr ctx callee
    let second ← resolveExprs ctx arguments
    return second ++ first
  | .get object _ => resolveExpr ctx object
  | .set object _ value => do
    let first ← resolveExpr ctx value
    let second ← resolveExpr ctx object
    return second ++ first

def resolveExprs (ctx : Context) : List Expr → Except ScopeError Distances
  | [] => .ok []
  | e :: rest => do
    let first ← resolveExpr ctx e
    let others ← resolveExprs ctx rest
    return others ++ first

end

/-- What a `return` of an optional value must obey. -/
def checkReturn (ctx : Context) (line : Nat) (value : Option Expr) : Except ScopeError Unit :=
  match ctx.routine, value with
  | none, _ => .error ⟨.returnOutsideFunction, line⟩
  | some .initializer, some _ => .error ⟨.returnValueFromInitializer, line⟩
  | _, _ => .ok ()

mutual

/-- The distances in a statement, and the context behind it. -/
def resolveStmt (ctx : Context) : Stmt → Except ScopeError (Context × Distances)
  | .expression expr => do return (ctx, ← resolveExpr ctx expr)
  | .print expr => do return (ctx, ← resolveExpr ctx expr)
  | .varDecl name initializer => do
    let declared ← ctx.declare name
    let inside ← resolveExpr (declared.inInitializer name.name) initializer
    return (declared.mark name.name true, inside)
  | .block body => do
    let (_, inside) ← resolveStmts (ctx.push []) body
    return (ctx, inside)
  | .ifElse condition thenBranch none => do
    let first ← resolveExpr ctx condition
    let (ctx, second) ← resolveStmt ctx thenBranch
    return (ctx, second ++ first)
  | .ifElse condition thenBranch (some elseBranch) => do
    let first ← resolveExpr ctx condition
    let (ctx, second) ← resolveStmt ctx thenBranch
    let (ctx, third) ← resolveStmt ctx elseBranch
    return (ctx, third ++ (second ++ first))
  | .whileLoop condition body => do
    let first ← resolveExpr ctx condition
    let (inner, second) ← resolveStmt { ctx with inLoop := true } body
    return ({ inner with inLoop := ctx.inLoop }, second ++ first)
  | .breakLoop line => if ctx.inLoop then .ok (ctx, []) else .error ⟨.breakOutsideLoop, line⟩
  | .funDecl function => do
    let ctx ← ctx.introduce function.name
    let inside ← resolveFunction (ctx.inRoutine .ordinary) function
    return (ctx, inside)
  | .returnValue line none => do
    checkReturn ctx line none
    return (ctx, [])
  | .returnValue line (some value) => do
    checkReturn ctx line (some value)
    return (ctx, ← resolveExpr ctx value)
  | .classDecl name methods => do
    let ctx ← ctx.introduce name
    let inside ← resolveMethods ctx.inClassBody methods
    return (ctx, inside)

/-- The distances in statements that follow each other in one scope. -/
def resolveStmts (ctx : Context) : List Stmt → Except ScopeError (Context × Distances)
  | [] => .ok (ctx, [])
  | s :: rest => do
    let (ctx, first) ← resolveStmt ctx s
    let (ctx, others) ← resolveStmts ctx rest
    return (ctx, others ++ first)

/-- The distances in a function, whose parameters and body share the context's innermost scope. -/
def resolveFunction (ctx : Context) : FunctionDecl → Except ScopeError Distances
  | .mk _ params body => do
    let ctx ← ctx.introduceAll params
    let (_, inside) ← resolveStmts ctx body
    return inside

def resolveMethods (ctx : Context) : List FunctionDecl → Except ScopeError Distances
  | [] => .ok []
  | f :: rest => do
    let routine := if f.isInitializer then Routine.initializer else .ordinary
    let first ← resolveFunction (ctx.inRoutine routine) f
    let others ← resolveMethods ctx rest
    return others ++ first

end

end Scoping

/-- The distances of all references to local variables, or the first fault. -/
def Program.resolve (p : Program) : Except ScopeError Distances := do
  let (_, distances) ← Scoping.resolveStmts .top p
  return distances

end LoxLang
