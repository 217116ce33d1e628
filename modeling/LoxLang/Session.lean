import LoxLang.Problem
import LoxLang.Running.Evaluate

/-!
# Sessions

A session runs one program after the other on one machine: what a program defines stays for the
next. Every program is scanned, parsed and resolved as a whole before any of it runs.

* `parseSource`, `checkSource`: the front end, for a whole program;
* `Session.run`: runs a program;
* `Session.evaluate`: the value of a single expression, whose names are all looked up among the
  global variables.
-/

namespace LoxLang

/-- The statements of a source, or all its lexical or else all its syntax errors, with the next
free node identity. -/
def parseSource (source : String) (nextId : NodeId) : Except (List Problem) Program × NodeId :=
  match (scan source).tokens? with
  | .error faults => (.error (faults.map .lexical), nextId)
  | .ok tokens =>
    match Program.parse tokens nextId with
    | (.error errors, next) => (.error (errors.map .grammar), next)
    | (.ok program, next) => (.ok program, next)

/-- A program with the distances of its references. -/
structure Checked where
  program : Program
  distances : Distances

/-- The program in a source with its distances, or what is wrong with it. -/
def checkSource (source : String) (nextId : NodeId) : Except (List Problem) Checked × NodeId :=
  match parseSource source nextId with
  | (.error problems, next) => (.error problems, next)
  | (.ok program, next) =>
    match Program.resolve program with
    | .error e => (.error [.scope e], next)
    | .ok distances => (.ok ⟨program, distances⟩, next)

/-- The one expression in a source, or what is wrong with it. -/
def parseExpressionSource (source : String) (nextId : NodeId) :
    Except (List Problem) Expr × NodeId :=
  match (scan source).tokens? with
  | .error faults => (.error (faults.map .lexical), nextId)
  | .ok tokens =>
    match Expr.parse tokens nextId with
    | (.error e, next) => (.error [.grammar e], next)
    | (.ok e, next) => (.ok e, next)

/-- Fuel that no run can use up in a lifetime. -/
def ampleFuel : Nat := powerOfTwo 62

structure Session where
  machine : Machine
  nextId : NodeId

namespace Session

def initial (maxDepth : Nat) (output : Output) (host : Host) : Session :=
  ⟨.initial maxDepth output host, 0⟩

/-- The session after an action, and what the action gave; `none` if the fuel ran out. -/
def perform {α : Type} (s : Session) (x : Run α) : Option (Except (List Problem) α × Session) :=
  match x s.machine with
  | .ok a machine => some (.ok a, { s with machine })
  | .error e machine => some (.error [.runtime e], { s with machine })
  | .outOfFuel => none

/-- Runs a program. -/
def run (fuel : Nat) (source : String) (s : Session) :
    Option (Except (List Problem) Unit × Session) :=
  match checkSource source s.nextId with
  | (.error problems, nextId) => some (.error problems, { s with nextId })
  | (.ok checked, nextId) =>
    { s with nextId }.perform (Running.runProgram fuel checked.program checked.distances)

/-- The value of a single expression. -/
def evaluate (fuel : Nat) (source : String) (s : Session) :
    Option (Except (List Problem) Value × Session) :=
  match parseExpressionSource source s.nextId with
  | (.error problems, nextId) => some (.error problems, { s with nextId })
  | (.ok e, nextId) => { s with nextId }.perform (Running.evaluate fuel e)

/-- The value of a global variable; a missing one is reported at line 0. -/
def global (s : Session) (name : String) : Except RuntimeError Value :=
  s.machine.store.get globals name 0

/-- Defines a global variable. -/
def define (s : Session) (name : String) (value : Value) : Session :=
  { s with machine := { s.machine with store := s.machine.store.define globals name value } }

/-- The session with another limit on the calls in progress. -/
def withMaxDepth (s : Session) (maxDepth : Nat) : Session :=
  { s with machine := { s.machine with maxDepth } }

end Session

end LoxLang
