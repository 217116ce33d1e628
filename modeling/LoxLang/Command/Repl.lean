import LoxLang.Command.Report
import LoxLang.Session
import LoxLang.Text.Utf8

/-!
# Programs line by line

Every line is asked for and run as a program of its own, in one session. The problems of a line end
that line only; a line that is no text ends the program.

* `Repl.turn`: what one line, or the end of the input, leads to;
* `Repl.report`: the report on all lines of an input.
-/

namespace LoxLang.Repl

/-- What the user is asked with. -/
def prompt : String := "> "

/-- A session with what it has written to the error stream. -/
structure State where
  session : Session
  errors : String

namespace State

/-- Writes to the output of the session. -/
def write (r : State) (text : String) : State :=
  let m := r.session.machine
  { r with session := { r.session with machine := { m with
      output := { m.output with written := m.output.written ++ text } } } }

def initial (session : Session) : State := State.write ⟨session, ""⟩ prompt

def output (r : State) : String := r.session.machine.output.written

/-- The state with everything written so far handed over. -/
def clear (r : State) : State :=
  let m := r.session.machine
  { session := { r.session with machine := { m with output := { m.output with written := "" } } }
    errors := "" }

end State

/-- Runs one line. -/
def runLine (fuel : Nat) (r : State) (source : String) : Option State := do
  let (result, session) ← r.session.run fuel source
  match result with
  | .ok _ => return { r with session }
  | .error problems =>
    return { session, errors := r.errors ++ unlines (problems.map (·.message)) }

/-- A line without its end: a newline, and a carriage return before it. -/
def stripEnd (line : List UInt8) : List UInt8 :=
  match line.reverse with
  | 10 :: 13 :: rest => rest.reverse
  | 10 :: rest => rest.reverse
  | _ => line

/-- What comes of a line, or of the end of the input: a state, and an exit code if it is the
last. -/
def turn (fuel : Nat) (r : State) : Option (List UInt8) → Option (State × Option Nat)
  | none => some (r.write "\n", some 0)
  | some line =>
    match Utf8.decode (stripEnd line) with
    | .error _ =>
      let failure : Failure := ⟨"Failed to read from stdin", [Utf8.notText]⟩
      some ({ r with errors := r.errors ++ failure.text }, some ExitCode.failure)
    | .ok source => do
      let r ← runLine fuel r source
      return (r.write prompt, none)

/-- Cuts bytes behind each newline. -/
def splitLines : List UInt8 → List (List UInt8)
  | [] => []
  | b :: rest =>
    if b = 10 then [b] :: splitLines rest
    else
      match splitLines rest with
      | [] => [[b]]
      | line :: lines => (b :: line) :: lines

/-- Takes turns up to the end of the input. -/
def report (fuel : Nat) (r : State) : List (List UInt8) → Option Report
  | [] => do
    let (r, code) ← turn fuel r none
    return { code := code.getD 0, output := r.output, errors := r.errors }
  | line :: rest => do
    match ← turn fuel r (some line) with
    | (r, none) => report fuel r rest
    | (r, some code) => return { code, output := r.output, errors := r.errors }

end LoxLang.Repl
