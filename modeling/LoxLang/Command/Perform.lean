import LoxLang.Command.Arguments
import LoxLang.Command.Repl
import LoxLang.Program.Dump
import LoxLang.Program.Parenthesized
import LoxLang.Settings.Read
import LoxLang.Text.Quoted

/-!
# Performing a task

* `Surroundings`: the files, the input and the host that a run of the program finds;
* `Task.report`: what each task reports;
* `commandReport`: the report of the program on its arguments; without an answer only if the fuel
  runs out.
-/

namespace LoxLang

/-- Why a file cannot be used. -/
inductive FileFault
  | missing
  | notDirectory
  | isDirectory
  | nameTooLong
  | other (text : String)
  deriving DecidableEq, Repr

def FileFault.message : FileFault → String
  | missing => "No such file or directory (os error 2)"
  | notDirectory => "Not a directory (os error 20)"
  | isDirectory => "Is a directory (os error 21)"
  | nameTooLong => "File name too long (os error 36)"
  | other text => text

/-- What a run of the program finds. -/
structure Surroundings where
  /-- The bytes of a file. -/
  read : String → Except FileFault (List UInt8)
  /-- Why a file cannot be created. -/
  creation : String → Except FileFault Unit
  /-- The bytes of the standard input. -/
  input : List UInt8
  host : Host

namespace Task

/-- The source in a file. -/
def readSource (w : Surroundings) (file : String) : Except Failure String := do
  let bytes ← (w.read file).mapError fun e =>
    ⟨"Failed to open file " ++ Quoted.encode file, [e.message]⟩
  (Utf8.decode bytes).mapError fun e =>
    ⟨"File " ++ Quoted.encode file ++ " is not valid UTF-8", [e.message]⟩

/-- The settings in a file. -/
def readSettings (w : Surroundings) (file : String) : Except Failure Settings := do
  let context := "Failed to load config " ++ Quoted.encode file
  let bytes ← (w.read file).mapError fun e => ⟨context, [e.message]⟩
  let text ← (Utf8.decode bytes).mapError fun _ => ⟨context, [Utf8.notText]⟩
  (Settings.read text).mapError fun e =>
    ⟨context, ["invalid configuration: " ++ e.message, e.message]⟩

/-- The settings of a file, if one is named, with the options applied. -/
def settings (w : Surroundings) (o : Options) : Except Failure Settings := do
  let s ←
    match o.config with
    | some file => readSettings w file
    | none => pure {}
  return { s with maxCallDepth := o.maxCallDepth.getD s.maxCallDepth }

/-- A fresh session under some settings. -/
def session (w : Surroundings) (s : Settings) : Session :=
  .initial s.maxCallDepth .unlimited w.host

/-- The listing of a source: its tokens, and apart from them its lexical errors. -/
def tokenizeReport (source : String) : Report :=
  let s := scan source
  let (tokens, faults) := Scan.sort s.items
  { code := if faults.isEmpty then 0 else ExitCode.static
    output := unlines (tokens.map (·.display) ++ [Scan.endDisplay])
    errors := unlines (faults.map (·.message)) }

/-- The statements of a source, in parentheses or as JSON. -/
def parseReport (source : String) (json : Bool) : Report :=
  match (parseSource source 0).1 with
  | .error problems => .ofProblems "" problems
  | .ok program =>
    if json then { output := unlines [(Program.document program).pretty] }
    else { output := unlines (program.map (·.parenthesized)) }

/-- The value of a source that is one expression. -/
def evaluateReport (fuel : Nat) (source : String) (s : Session) : Option Report := do
  let (result, s) ← s.evaluate fuel source
  let written := s.machine.output.written
  match result with
  | .error problems => return .ofProblems written problems
  | .ok value => return { output := written ++ s.machine.store.display value ++ "\n" }

/-- What a program prints. -/
def runReport (fuel : Nat) (source : String) (s : Session) : Option Report := do
  let (result, s) ← s.run fuel source
  let written := s.machine.output.written
  match result with
  | .error problems => return .ofProblems written problems
  | .ok _ => return { output := written }

end Task

namespace Task

/-- The report of a task under some settings. -/
def report (fuel : Nat) (w : Surroundings) (s : Settings) (t : Task) : Option Report :=
  let onSource (file : String) (act : String → Option Report) : Option Report :=
    match readSource w file with
    | .error f => some f.report
    | .ok source => act source
  match t with
  | .tokenize file => onSource file fun source => some (tokenizeReport source)
  | .parse file json => onSource file fun source => some (parseReport source json)
  | .evaluate file => onSource file fun source => evaluateReport fuel source (session w s)
  | .run file => onSource file fun source => runReport fuel source (session w s)
  | .repl => Repl.report fuel (.initial (session w s)) (Repl.splitLines w.input)

end Task

namespace Invocation

def versionText : String := "treelox 0.1.0\n"

def helpText : String := unlines
  ["Tree-walking Lox interpreter",
   "",
   "Usage: treelox [OPTIONS] <COMMAND>",
   "",
   "Commands:",
   "  tokenize  Tokenizes input from a file, printing each token",
   "  parse     Parses a file and prints its syntax tree",
   "  evaluate  Evaluates a single expression from a file and prints its value",
   "  run       Runs a file as a Lox program",
   "  repl      Reads programs line by line from stdin",
   "  help      Print this message or the help of the given subcommand(s)",
   "",
   "Options:",
   "      --log[=<FILE>]        Write debug logs to FILE (app.log when no FILE is given)",
   "      --config <FILE>       JSON file with interpreter settings",
   "      --max-call-depth <N>  Maximum nesting of function calls before a stack overflow error",
   "  -h, --help                Print help",
   "  -V, --version             Print version"]

/-- Makes the log file, if one is asked for, then reads the settings. What was made counts also if
the settings cannot be read. -/
def prepare (w : Surroundings) (options : Options) : Except Report (List String × Settings) := do
  let created ←
    match options.log with
    | none => pure []
    | some file =>
      match w.creation file with
      | .ok _ => pure [file]
      | .error e =>
        throw (Failure.report ⟨"Failed to create " ++ Quoted.encode file, [e.message]⟩)
  match Task.settings w options with
  | .ok s => return (created, s)
  | .error f => throw { f.report with created }

def report (fuel : Nat) (w : Surroundings) : Invocation → Option Report
  | version => some { output := versionText }
  | help => some { output := helpText }
  | perform options task =>
    match prepare w options with
    | .error r => some r
    | .ok (created, settings) =>
      (task.report fuel w settings).map fun r => { r with created }

end Invocation

/-- The report of the program on its arguments. -/
def commandReport (fuel : Nat) (w : Surroundings) (arguments : List String) : Option Report :=
  match Invocation.ofArguments? arguments with
  | none => some { code := ExitCode.usage, errors := Invocation.helpText }
  | some invocation => invocation.report fuel w

end LoxLang
