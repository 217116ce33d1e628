import LoxLang.Parsing.Statement
import LoxLang.Proofs.Running.TracedSession
import LoxLang.Proofs.Scoping.Stepping

/-!
# Running loops with a step

Runs in which some loops are loops with a step: no frame is made for the body and the step, which
run in the frame around the loop, with the distances that they have there.

* `Stepping.evaluate`, `Stepping.execute`: clause by clause as `Running.evaluate` and
  `Running.execute`, but for these loops;
* `Stepping.repeatStepped`: such a loop from a test of its condition on;
* `Stepping.executeFor`: a `for` loop with all that may stand in its head;
* `execute_desugarFor`: what a `for` loop is read into runs as this loop, when the choice takes it
  for what it is;
* `Stepping.answer`: sessions with such loops.
-/

namespace LoxLang

namespace Stepping

variable (chosen : Choice)

mutual

def evaluate : Nat → Expr → Run Value
  | 0, _ => Action.outOfFuel
  | fuel + 1, e =>
    match e with
    | .literal value => return value.value
    | .grouping inner => evaluate fuel inner
    | .variable id name => Run.lookUp id name.name name.line
    | .this id line => Run.lookUp id "this" line
    | .assign id name value => do
      let value ← evaluate fuel value
      Run.assign id name value
      return value
    | .unary op line operand => do
      let operand ← evaluate fuel operand
      Action.ofExcept (op.apply line operand)
    | .binary op line left right => do
      let left ← evaluate fuel left
      let right ← evaluate fuel right
      Action.ofExcept (op.apply line left right)
    | .logical op left right => do
      let left ← evaluate fuel left
      if op.decidedBy left then return left else evaluate fuel right
    | .call callee line arguments => do
      let callee ← evaluate fuel callee
      let arguments ← Running.inOrder (evaluate fuel) arguments
      Running.call (execute fuel) callee arguments line
    | .get object name => do
      match ← evaluate fuel object with
      | .object o => Run.getProperty o name
      | _ => Action.fail (.notAnObject name.line)
    | .set object name value => do
      match ← evaluate fuel object with
      | .object o =>
        let value ← evaluate fuel value
        Run.modifyStore (·.setField o name.name value)
        return value
      | _ => Action.fail (.notAnObject name.line)

def execute : Nat → Stmt → Run Completion
  | 0, _ => Action.outOfFuel
  | fuel + 1, s =>
    match s with
    | .expression expr => do
      let _ ← evaluate fuel expr
      return .normal
    | .print expr => do
      let value ← evaluate fuel expr
      Run.printLine value
      return .normal
    | .varDecl name initializer => do
      let value ← evaluate fuel initializer
      Run.define name.name value
      return .normal
    | .block body => do
      let m ← Action.get
      let frame ← Run.make (·.newFrame (some m.frame) [])
      Run.inFrame frame (Running.inSequence (execute fuel) body)
    | .ifElse condition thenBranch elseBranch => do
      let value ← evaluate fuel condition
      if value.isTruthy then execute fuel thenBranch
      else
        match elseBranch with
        | some branch => execute fuel branch
        | none => return .normal
    | .whileLoop condition body =>
      match chosen.step? condition body with
      | some (body, step) => repeatStepped fuel condition body step
      | none => repeatWhile fuel condition body
    | .breakLoop _ => return .breaking
    | .funDecl function => do
      let m ← Action.get
      let closure ← Run.make (·.newClosure function m.frame false)
      Run.define function.name.name (.function closure)
      return .normal
    | .returnValue _ none => return .returning .nil
    | .returnValue _ (some value) => do
      let value ← evaluate fuel value
      return .returning value
    | .classDecl name methods => do
      Running.declareClass name methods
      return .normal

def repeatWhile : Nat → Expr → Stmt → Run Completion
  | 0, _, _ => Action.outOfFuel
  | fuel + 1, condition, body => do
    let value ← evaluate fuel condition
    if value.isTruthy then
      match ← execute fuel body with
      | .normal => repeatWhile fuel condition body
      | .breaking => return .normal
      | .returning value => return .returning value
    else return .normal

/-- Runs a loop with a step from a test of its condition on. -/
def repeatStepped : Nat → Expr → Stmt → Expr → Run Completion
  | 0, _, _, _ => Action.outOfFuel
  | fuel + 1, condition, body, step => do
    let value ← evaluate fuel condition
    if value.isTruthy then
      match ← turn fuel body step with
      | .normal => repeatStepped fuel condition body step
      | .breaking => return .normal
      | .returning value => return .returning value
    else return .normal

/-- The body of a loop, and its step unless the body breaks the loop or returns. -/
def turn : Nat → Stmt → Expr → Run Completion
  | 0, _, _ => Action.outOfFuel
  | fuel + 1, body, step => do
    match ← execute fuel body with
    | .normal => execute fuel (.expression step)
    | completion => return completion

end

/-! ## Loops as they are written -/

/-- A loop, perhaps with a step, from its condition on. -/
def executeLoop : Nat → Expr → Option Expr → Stmt → Run Completion
  | 0, _, _, _ => Action.outOfFuel
  | fuel + 1, condition, none, body => repeatWhile chosen fuel condition body
  | fuel + 1, condition, some step, body => repeatStepped chosen fuel condition body step

/-- The condition of a `for` loop. One that is missing is `true`. -/
def test (condition : Option Expr) : Expr := condition.getD (.literal (.bool true))

/-- A `for` loop: its initializer runs once, in a frame of its own that the loop stays in. -/
def executeFor : Nat → Option Stmt → Option Expr → Option Expr → Stmt → Run Completion
  | 0, _, _, _, _ => Action.outOfFuel
  | fuel + 1, none, condition, increment, body =>
    executeLoop chosen (fuel + 1) (test condition) increment body
  | fuel + 1, some initializer, condition, increment, body => do
    let m ← Action.get
    let frame ← Run.make (·.newFrame (some m.frame) [])
    Run.inFrame frame do
      match ← execute chosen fuel initializer with
      | .normal => executeLoop chosen fuel (test condition) increment body
      | completion => return completion

/-- The choice takes what a `for` loop is read into for a loop with a step if it has one. -/
def TakesFor (condition : Expr) (increment : Option Expr) (body : Stmt) : Prop :=
  match increment with
  | none => chosen condition body = false
  | some step => chosen condition (.block [body, .expression step]) = true

variable {chosen} {condition : Expr} {increment : Option Expr} {body : Stmt}

theorem execute_loop (h : TakesFor chosen condition increment body)
    (hnone : body.declaredName? = none) (fuel : Nat) :
    execute chosen fuel (Parsing.desugarFor none condition increment body)
      = executeLoop chosen fuel condition increment body := by
  cases fuel with
  | zero => cases increment <;> rfl
  | succ fuel =>
    cases increment with
    | none =>
      have hstep : chosen.step? condition body = none := if_neg (Bool.eq_false_iff.mp h)
      change (match chosen.step? condition body with
        | some (body, step) => repeatStepped chosen fuel condition body step
        | none => repeatWhile chosen fuel condition body) = _
      rw [hstep]
      rfl
    | some step =>
      have hstep : chosen.step? condition (.block [body, .expression step]) = some (body, step) :=
        Choice.step?_eq_some.mpr ⟨h, rfl, hnone⟩
      change (match chosen.step? condition (.block [body, .expression step]) with
        | some (body, step) => repeatStepped chosen fuel condition body step
        | none => repeatWhile chosen fuel condition (.block [body, .expression step])) = _
      rw [hstep]
      rfl

theorem inSequence_singleton (execute : Stmt → Run Completion) (s : Stmt) :
    Running.inSequence execute [s] = execute s := by
  funext m
  unfold Running.inSequence
  cases hs : execute s m with
  | ok completion m' =>
    rw [Action.bind_of_ok hs]
    cases completion <;> rfl
  | error e m' => rw [Action.bind_of_error hs]
  | outOfFuel => rw [Action.bind_of_outOfFuel hs]

/-- What a `for` loop is read into runs as the loop that is written. -/
theorem execute_desugarFor {condition : Option Expr}
    (h : TakesFor chosen (test condition) increment body) (hnone : body.declaredName? = none)
    (fuel : Nat) (initializer : Option Stmt) :
    execute chosen fuel (Parsing.desugarFor initializer (test condition) increment body)
      = executeFor chosen fuel initializer condition increment body := by
  cases fuel with
  | zero => cases initializer <;> cases increment <;> rfl
  | succ fuel =>
    cases initializer with
    | none => exact execute_loop h hnone (fuel + 1)
    | some s =>
      have hloop := (inSequence_singleton (execute chosen fuel) _).trans (execute_loop h hnone fuel)
      have hblock : execute chosen (fuel + 1)
          (Parsing.desugarFor (some s) (test condition) increment body) = (do
            let m ← Action.get
            let frame ← Run.make (·.newFrame (some m.frame) [])
            Run.inFrame frame (execute chosen fuel s >>= fun
              | .normal => Running.inSequence (execute chosen fuel)
                  [Parsing.desugarFor none (test condition) increment body]
              | completion => pure completion)) := rfl
      rw [hblock, hloop]
      rfl

/-! ## Sessions -/

variable (chosen)

def runStatements (fuel : Nat) : List Stmt → Run Unit
  | [] => pure ()
  | s :: rest => fun m =>
    match execute chosen fuel s m with
    | .ok _ m' => runStatements fuel rest m'
    | .error e m' => .error e m'.reset
    | .outOfFuel => .outOfFuel

def runProgram (fuel : Nat) (program : Program) (distances : Distances) : Run Unit := do
  Action.modify fun m => { m with distances := m.distances.extend distances }
  runStatements chosen fuel program
  Run.flush

/-- The program in a source with its distances, or what is wrong with it. -/
def checkSource (source : String) (nextId : NodeId) : Except (List Problem) Checked × NodeId :=
  match parseSource source nextId with
  | (.error problems, next) => (.error problems, next)
  | (.ok program, next) =>
    match resolve chosen program with
    | .error e => (.error [.scope e], next)
    | .ok distances => (.ok ⟨program, distances⟩, next)

def run (fuel : Nat) (source : String) (s : Session) :
    Option (Except (List Problem) Unit × Session) :=
  match checkSource chosen source s.nextId with
  | (.error problems, nextId) => some (.error problems, { s with nextId })
  | (.ok checked, nextId) =>
    { s with nextId }.perform (runProgram chosen fuel checked.program checked.distances)

def evaluateSource (fuel : Nat) (source : String) (s : Session) :
    Option (Except (List Problem) Value × Session) :=
  match parseExpressionSource source s.nextId with
  | (.error problems, nextId) => some (.error problems, { s with nextId })
  | (.ok e, nextId) => { s with nextId }.perform (evaluate chosen fuel e)

/-- What a request gives, and the session after it; `none` if the fuel ran out. -/
def answer (fuel : Nat) (request : Request) (s : Session) :
    Option (Except (List Problem) (Option Value) × Session) :=
  match request with
  | .run source => (run chosen fuel source s).map fun r => (r.1.map fun _ => none, r.2)
  | .evaluate source => (evaluateSource chosen fuel source s).map fun r => (r.1.map some, r.2)

end Stepping

end LoxLang
