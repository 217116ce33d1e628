import LoxLang.Running.Machine
import LoxLang.Running.Operators

/-!
# Running programs

* `evaluate`, `execute`: the value of an expression and the completion of a statement;
* `call`: a call of any value, with its checks;
* `runProgram`: a whole program; a failure leaves the machine ready for the next one.

Fuel bounds how deeply these go into one another. More fuel never changes an answer, and a program
that ends has fuel enough to do so.
-/

namespace LoxLang

/-- How a statement ends when it does not fail. -/
inductive Completion
  | normal
  /-- The nearest loop ends. -/
  | breaking
  /-- The nearest call ends with a value. -/
  | returning (value : Value)

namespace Running

/-- The values of expressions, from left to right. -/
def inOrder (evaluate : Expr → Run Value) : List Expr → Run (List Value)
  | [] => pure []
  | e :: rest => do
    let first ← evaluate e
    let others ← inOrder evaluate rest
    return first :: others

/-- Statements one after the other, up to one that does not complete normally. -/
def inSequence (execute : Stmt → Run Completion) : List Stmt → Run Completion
  | [] => pure .normal
  | s :: rest => do
    match ← execute s with
    | .normal => inSequence execute rest
    | completion => return completion

/-- A call of a function of the host; the clock gives its next reading. -/
def callNative (f : Native) (arguments : List Value) : Run Value := fun m =>
  if f = .clock then .ok (.number (m.host.clock m.readings)) { m with readings := m.readings + 1 }
  else
    match m.host.call f m.store arguments with
    | .ok value => .ok value m
    | .error message => .error (.native message) m

/-- The bindings that a call starts with. -/
def argumentBindings (params : List Identifier) (arguments : List Value) : Bindings Value :=
  Bindings.insertAll [] ((params.map (·.name)).zip arguments)

/-- Runs the body of a function in a new frame. An initializer gives back its object, whatever its
body returns. -/
def callClosure (execute : Stmt → Run Completion) (f : Closure) (arguments : List Value) :
    Run Value := do
  let frame ← Run.make fun s =>
    s.newFrame (some f.frame) (argumentBindings f.declaration.params arguments)
  let completion ← Run.inFrame frame (inSequence execute f.declaration.body)
  if f.isInitializer then
    let m ← Action.get
    Action.ofExcept (m.store.getAt f.frame 0 "this")
  else
    match completion with
    | .returning value => return value
    | _ => return .nil

/-- Makes an object of a class and runs the initializer on it, if there is one. -/
def construct (execute : Stmt → Run Completion) (c : Class) (arguments : List Value) :
    Run Value := do
  let o ← Run.make (·.newObject c)
  match c.initializer? with
  | none => return .object o
  | some init =>
    let bound ← Run.make (·.bindMethod init o)
    let _ ← callClosure execute bound arguments
    return .object o

/-- Passes arguments to a value that takes so many. -/
def apply (execute : Stmt → Run Completion) (callee : Value) (arguments : List Value) :
    Run Value :=
  match callee with
  | .native f => callNative f arguments
  | .function f => callClosure execute f arguments
  | .ofClass c => construct execute c arguments
  | _ => return .nil

/-- Calls a value: it must be callable, take this many arguments, and find room for one more call
in progress. -/
def call (execute : Stmt → Run Completion) (callee : Value) (arguments : List Value)
    (line : Nat) : Run Value := do
  match callee.arity? with
  | none => Action.fail (.notCallable line)
  | some arity =>
    if arguments.length ≠ arity then
      Action.fail (.arityMismatch arity arguments.length line)
    else
      let m ← Action.get
      if m.maxDepth ≤ m.depth then Action.fail (.stackOverflow line)
      else Run.oneDeeper (apply execute callee arguments)

/-- Declares a class: its name is bound before its methods are made, and to the class after. -/
def declareClass (name : Identifier) (methods : List FunctionDecl) : Run Unit := do
  Run.define name.name .nil
  let m ← Action.get
  let c ← Run.make fun s => s.newClass name.name methods m.frame
  Run.assignIn (fun m => m.store.assignee m.frame name.name name.line) name.name (.ofClass c)

mutual

/-- The value of an expression. -/
def evaluate : Nat → Expr → Run Value
  | 0, _ => Action.outOfFuel
  | fuel + 1, e =>
    match e with
    | .literal value => return value.value
    | .grouping inner => evaluate fuel inner
    | .variable id name => Run.lookUp id name.name name.line
    | .this id line => Run.lookUp id "this" line
    | .assign id name value => do
      let value ← evaluate fuel value
      Run.assign id name value
      return value
    | .unary op line operand => do
      let operand ← evaluate fuel operand
      Action.ofExcept (op.apply line operand)
    | .binary op line left right => do
      let left ← evaluate fuel left
      let right ← evaluate fuel right
      Action.ofExcept (op.apply line left right)
    | .logical op left right => do
      let left ← evaluate fuel left
      if op.decidedBy left then return left else evaluate fuel right
    | .call callee line arguments => do
      let callee ← evaluate fuel callee
      let arguments ← inOrder (evaluate fuel) arguments
      call (execute fuel) callee arguments line
    | .get object name => do
      match ← evaluate fuel object with
      | .object o => Run.getProperty o name
      | _ => Action.fail (.notAnObject name.line)
    | .set object name value => do
      match ← evaluate fuel object with
      | .object o =>
        let value ← evaluate fuel value
        Run.modifyStore (·.setField o name.name value)
        return value
      | _ => Action.fail (.notAnObject name.line)

/-- Runs a statement. -/
def execute : Nat → Stmt → Run Completion
  | 0, _ => Action.outOfFuel
  | fuel + 1, s =>
    match s with
    | .expression expr => do
      let _ ← evaluate fuel expr
      return .normal
    | .print expr => do
      let value ← evaluate fuel expr
      Run.printLine value
      return .normal
    | .varDecl name initializer => do
      let value ← evaluate fuel initializer
      Run.define name.name value
      return .normal
    | .block body => do
      let m ← Action.get
      let frame ← Run.make (·.newFrame (some m.frame) [])
      Run.inFrame frame (inSequence (execute fuel) body)
    | .ifElse condition thenBranch elseBranch => do
      let value ← evaluate fuel condition
      if value.isTruthy then execute fuel thenBranch
      else
        match elseBranch with
        | some branch => execute fuel branch
        | none => return .normal
    | .whileLoop condition body => repeatWhile fuel condition body
    | .breakLoop _ => return .breaking
    | .funDecl function => do
      let m ← Action.get
      let closure ← Run.make (·.newClosure function m.frame false)
      Run.define function.name.name (.function closure)
      return .normal
    | .returnValue _ none => return .returning .nil
    | .returnValue _ (some value) => do
      let value ← evaluate fuel value
      return .returning value
    | .classDecl name methods => do
      declareClass name methods
      return .normal

/-- Runs a loop from a test of its condition on. -/
def repeatWhile : Nat → Expr → Stmt → Run Completion
  | 0, _, _ => Action.outOfFuel
  | fuel + 1, condition, body => do
    let value ← evaluate fuel condition
    if value.isTruthy then
      match ← execute fuel body with
      | .normal => repeatWhile fuel condition body
      | .breaking => return .normal
      | .returning value => return .returning value
    else return .normal

end

/-- Runs the statements of a program. What they complete with does not matter; a failure brings
the machine back into the global scope. -/
def runStatements (fuel : Nat) : List Stmt → Run Unit
  | [] => pure ()
  | s :: rest => fun m =>
    match execute fuel s m with
    | .ok _ m' => runStatements fuel rest m'
    | .error e m' => .error e m'.reset
    | .outOfFuel => .outOfFuel

/-- Runs a program with the distances of its references. The distances of earlier programs stay. -/
def runProgram (fuel : Nat) (program : Program) (distances : Distances) : Run Unit := do
  Action.modify fun m => { m with distances := m.distances.extend distances }
  runStatements fuel program
  Run.flush

end Running

end LoxLang
