import LoxLang.Command.Perform

/-!
# The program

Finds out what the task needs from outside, performs it, and shows the report. Programs from the
standard input are run as their lines arrive. Time does not pass inside a run, so the clock only
counts its readings.
-/

namespace LoxLang.CommandLine

/-- What a numbered error of the system says of a file. Some numbers come negated, as 32 bits. -/
def numberedFault (code : UInt32) (text : String) : FileFault :=
  match code.toInt32.toInt.natAbs with
  | 2 => .missing
  | 20 => .notDirectory
  | 21 => .isDirectory
  | 36 => .nameTooLong
  | n => .other (text.capitalize ++ " (os error " ++ digitsOf n ++ ")")

/-- What an error of the system says of a file. -/
def fault : IO.Error → FileFault
  | .noFileOrDirectory _ code text | .inappropriateType _ code text
  | .permissionDenied _ code text | .resourceExhausted _ code text
  | .invalidArgument _ code text => numberedFault code text
  | e => .other (toString e)

/-- The result of a file operation. -/
def settle {α : Type} (act : IO α) : IO (Except FileFault α) := do
  try return .ok (← act) catch e => return .error (fault e)

/-- What a task finds outside: the files it names, and the log file made. -/
def surroundings (options : Options) (task : Task) : IO Surroundings := do
  let creation ←
    match options.log with
    | some path => settle (IO.FS.writeFile path "")
    | none => pure (.ok ())
  let files ← (options.config.toList ++ task.file?.toList).mapM fun (path : String) => do
    return (path, (← settle (IO.FS.readBinFile path)).map (·.toList))
  return {
    read := fun path => (files.lookup path).getD (.error .missing)
    creation := fun _ => creation
    input := []
    host := .nominal }

/-- The bytes up to and with the next newline, or to the end of the input; none at its end. -/
partial def readLine (input : IO.FS.Stream) (line : List UInt8) : IO (Option (List UInt8)) := do
  match (← input.read 1).toList with
  | [] => return if line.isEmpty then none else some line.reverse
  | b :: _ => if b = 10 then return some (b :: line).reverse else readLine input (b :: line)

/-- Shows what was written. -/
def emit (output errors : String) : IO Unit := do
  IO.print output
  (← IO.getStdout).flush
  IO.eprint errors

/-- Takes turns with the user. -/
partial def converse (input : IO.FS.Stream) (r : Repl.State) : IO Nat := do
  emit r.output r.errors
  match Repl.turn ampleFuel r.clear (← readLine input []) with
  | none => return ExitCode.runtime
  | some (r, none) => converse input r
  | some (r, some code) =>
    emit r.output r.errors
    return code

/-- Shows a report. -/
def conclude (r : Option Report) : IO Nat := do
  match r with
  | none => return ExitCode.runtime
  | some r =>
    emit r.output r.errors
    return r.code

def perform (arguments : List String) : IO Nat := do
  match Invocation.ofArguments? arguments with
  | some (.perform options task) =>
    let w ← surroundings options task
    match task, Invocation.prepare w options with
    | .repl, .ok (_, settings) =>
      converse (← IO.getStdin) (.initial (Task.session w settings))
    | _, _ => conclude (commandReport ampleFuel w arguments)
  | _ =>
    let w : Surroundings :=
      { read := fun _ => .error .missing
        creation := fun _ => .ok ()
        input := []
        host := .nominal }
    conclude (commandReport ampleFuel w arguments)

end LoxLang.CommandLine

def main (arguments : List String) : IO UInt32 := do
  return (← LoxLang.CommandLine.perform arguments).toUInt32
