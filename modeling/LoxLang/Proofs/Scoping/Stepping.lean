import LoxLang.Proofs.Program
import LoxLang.Scoping.Resolve

/-!
# Loops with a step

A `for` loop with an increment is read into a `while` loop around a block, in which the increment
stands behind the body. Here such a loop can be one of its own kind: its body and its step stand
in the scope around the loop, and there is no block.

* `Stmt.step?`: the body and the step in the block of such a loop;
* `Choice`: which of these loops are taken for loops with a step;
* `Stepping.resolveStmt`: distances where they are, clause by clause as `Scoping.resolveStmt`;
* `Layers`: the scopes around a node, with those of the blocks that are not there;
* `Stmt.layered`: the references of a statement, each with its layers.
-/

namespace LoxLang

open Scoping

/-- A statement that declares nothing, and an expression behind it in a block of their own. -/
def Stmt.step? : Stmt → Option (Stmt × Expr)
  | .block [body, .expression step] =>
    if body.declaredName?.isNone then some (body, step) else none
  | _ => none

theorem Stmt.step?_eq_some {s body : Stmt} {step : Expr} :
    s.step? = some (body, step) ↔
      s = .block [body, .expression step] ∧ body.declaredName? = none := by
  constructor
  · intro h
    unfold Stmt.step? at h
    split at h
    · split at h
      · cases h
        exact ⟨rfl, Option.isNone_iff_eq_none.mp ‹_›⟩
      · cases h
    · cases h
  · rintro ⟨rfl, hnone⟩
    simp only [Stmt.step?, hnone, Option.isNone_none, if_true]

/-- Which loops are taken for loops with a step, by their conditions and bodies. -/
abbrev Choice : Type := Expr → Stmt → Bool

/-- The body and the step of a loop that is taken for one with a step. -/
def Choice.step? (chosen : Choice) (condition : Expr) (body : Stmt) : Option (Stmt × Expr) :=
  if chosen condition body then body.step? else none

theorem Choice.step?_eq_some {chosen : Choice} {condition step : Expr} {s body : Stmt} :
    chosen.step? condition s = some (body, step) ↔ chosen condition s = true ∧
      s = .block [body, .expression step] ∧ body.declaredName? = none := by
  unfold Choice.step?
  cases chosen condition s with
  | true => simp [Stmt.step?_eq_some]
  | false => simp

/-! ## Distances -/

namespace Stepping

variable (chosen : Choice)

mutual

/-- The distances in a statement, and the context behind it. -/
def resolveStmt (ctx : Context) : Stmt → Except ScopeError (Context × Distances)
  | .expression expr => do return (ctx, ← resolveExpr ctx expr)
  | .print expr => do return (ctx, ← resolveExpr ctx expr)
  | .varDecl name initializer => do
    let declared ← ctx.declare name
    let inside ← resolveExpr (declared.inInitializer name.name) initializer
    return (declared.mark name.name true, inside)
  | .block body => do
    let (_, inside) ← resolveStmts (ctx.push []) body
    return (ctx, inside)
  | .ifElse condition thenBranch none => do
    let first ← resolveExpr ctx condition
    let (ctx, second) ← resolveStmt ctx thenBranch
    return (ctx, second ++ first)
  | .ifElse condition thenBranch (some elseBranch) => do
    let first ← resolveExpr ctx condition
    let (ctx, second) ← resolveStmt ctx thenBranch
    let (ctx, third) ← resolveStmt ctx elseBranch
    return (ctx, third ++ (second ++ first))
  | .whileLoop condition body => do
    let first ← resolveExpr ctx condition
    if (chosen.step? condition body).isSome then
      let second ← resolveStepped { ctx with inLoop := true } body
      return (ctx, second ++ first)
    else
      let (inner, second) ← resolveStmt { ctx with inLoop := true } body
      return ({ inner with inLoop := ctx.inLoop }, second ++ first)
  | .breakLoop line => if ctx.inLoop then .ok (ctx, []) else .error ⟨.breakOutsideLoop, line⟩
  | .funDecl function => do
    let ctx ← ctx.introduce function.name
    let inside ← resolveFunction (ctx.inRoutine .ordinary) function
    return (ctx, inside)
  | .returnValue line none => do
    checkReturn ctx line none
    return (ctx, [])
  | .returnValue line (some value) => do
    checkReturn ctx line (some value)
    return (ctx, ← resolveExpr ctx value)
  | .classDecl name methods => do
    let ctx ← ctx.introduce name
    let inside ← resolveMethods ctx.inClassBody methods
    return (ctx, inside)

/-- The distances in the body and the step of a loop with a step. Both are in the same context. -/
def resolveStepped (ctx : Context) : Stmt → Except ScopeError Distances
  | .block [body, .expression step] => do
    let (_, first) ← resolveStmt ctx body
    let second ← resolveExpr ctx step
    return second ++ first
  | _ => .ok []

def resolveStmts (ctx : Context) : List Stmt → Except ScopeError (Context × Distances)
  | [] => .ok (ctx, [])
  | s :: rest => do
    let (ctx, first) ← resolveStmt ctx s
    let (ctx, others) ← resolveStmts ctx rest
    return (ctx, others ++ first)

def resolveFunction (ctx : Context) : FunctionDecl → Except ScopeError Distances
  | .mk _ params body => do
    let ctx ← ctx.introduceAll params
    let (_, inside) ← resolveStmts ctx body
    return inside

def resolveMethods (ctx : Context) : List FunctionDecl → Except ScopeError Distances
  | [] => .ok []
  | f :: rest => do
    let routine := if f.isInitializer then Routine.initializer else .ordinary
    let first ← resolveFunction (ctx.inRoutine routine) f
    let others ← resolveMethods ctx rest
    return others ++ first

end

/-- The distances of a program, or its first fault. -/
def resolve (p : Program) : Except ScopeError Distances := do
  let (_, distances) ← resolveStmts chosen .top p
  return distances

end Stepping

/-! ## Layers -/

/-- A scope around a node: one that is there in any case, or that of a block that is not there when
its loop is taken for a loop with a step. -/
inductive Layer
  | shared | extra
  deriving DecidableEq, Repr

/-- The innermost scopes around a node, the innermost first. -/
abbrev Layers : Type := List Layer

namespace Layers

/-- A distance with the blocks, from one without them. -/
def lift : Layers → Nat → Nat
  | [], d => d
  | .shared :: _, 0 => 0
  | .shared :: outer, d + 1 => lift outer d + 1
  | .extra :: outer, d => lift outer d + 1

/-- The scopes with those of the blocks, where nothing is declared. -/
def thicken : Layers → List Scope → List Scope
  | [], scopes => scopes
  | .shared :: _, [] => []
  | .shared :: outer, scope :: scopes => scope :: thicken outer scopes
  | .extra :: outer, scopes => [] :: thicken outer scopes

end Layers

def Expr.layered (layers : Layers) (e : Expr) : List (NodeId × Layers) := e.ids.map (·, layers)

section
variable (chosen : Choice)

mutual

/-- The references of a statement with the layers around them. -/
def Stmt.layered (layers : Layers) : Stmt → List (NodeId × Layers)
  | .expression e => e.layered layers
  | .print e => e.layered layers
  | .varDecl _ initializer => initializer.layered layers
  | .block body => Stmt.allLayered (.shared :: layers) body
  | .ifElse condition thenBranch none => condition.layered layers ++ thenBranch.layered layers
  | .ifElse condition thenBranch (some elseBranch) =>
    condition.layered layers ++ thenBranch.layered layers ++ elseBranch.layered layers
  | .whileLoop condition body =>
    condition.layered layers ++
      if (chosen.step? condition body).isSome then body.steppedLayered (.extra :: layers)
      else body.layered layers
  | .breakLoop _ => []
  | .funDecl f => f.layered layers
  | .returnValue _ none => []
  | .returnValue _ (some value) => value.layered layers
  | .classDecl _ methods => FunctionDecl.allLayered (.shared :: layers) methods

def Stmt.steppedLayered (layers : Layers) : Stmt → List (NodeId × Layers)
  | .block [body, .expression step] => body.layered layers ++ step.layered layers
  | _ => []

def Stmt.allLayered (layers : Layers) : List Stmt → List (NodeId × Layers)
  | [] => []
  | s :: rest => s.layered layers ++ Stmt.allLayered layers rest

def FunctionDecl.layered (layers : Layers) : FunctionDecl → List (NodeId × Layers)
  | .mk _ _ body => Stmt.allLayered (.shared :: layers) body

def FunctionDecl.allLayered (layers : Layers) : List FunctionDecl → List (NodeId × Layers)
  | [] => []
  | f :: rest => f.layered layers ++ FunctionDecl.allLayered layers rest

end

theorem Stmt.mem_allLayered {layers : Layers} {ss : List Stmt} {s : Stmt} (hs : s ∈ ss)
    {node : NodeId × Layers} (h : node ∈ s.layered chosen layers) :
    node ∈ Stmt.allLayered chosen layers ss := by
  induction ss with
  | nil => cases hs
  | cons first rest ih =>
    obtain rfl | hs := List.mem_cons.mp hs
    · exact List.mem_append_left _ h
    · exact List.mem_append_right _ (ih hs)

theorem FunctionDecl.mem_allLayered {layers : Layers} {fs : List FunctionDecl} {f : FunctionDecl}
    (hf : f ∈ fs) {node : NodeId × Layers} (h : node ∈ f.layered chosen layers) :
    node ∈ FunctionDecl.allLayered chosen layers fs := by
  induction fs with
  | nil => cases hf
  | cons first rest ih =>
    obtain rfl | hf := List.mem_cons.mp hf
    · exact List.mem_append_left _ h
    · exact List.mem_append_right _ (ih hf)

end

end LoxLang
