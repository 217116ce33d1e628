import LoxLang.Settings

/-!
# The command line

`Invocation.ofArguments?` reads the arguments of the program; `none` is a usage error. Options that
hold for every task stand before or after the task's name, and the one after it counts. Arguments
are read from front to back, so a request for the version only counts before the first error.
-/

namespace LoxLang

/-- What to do. -/
inductive Task
  | tokenize (file : String)
  | parse (file : String) (json : Bool)
  | evaluate (file : String)
  | run (file : String)
  | repl
  deriving DecidableEq, Repr

/-- The source file of a task. -/
def Task.file? : Task → Option String
  | tokenize file => some file
  | parse file _ => some file
  | evaluate file => some file
  | run file => some file
  | repl => none

/-- The options of every task. -/
structure Options where
  log : Option String := none
  config : Option String := none
  maxCallDepth : Option Nat := none
  deriving DecidableEq, Repr

/-- What the arguments ask for. -/
inductive Invocation
  | version
  | help
  | perform (options : Options) (task : Task)
  deriving DecidableEq, Repr

namespace Arguments

/-- An argument by its shape. -/
inductive Word
  /-- Two dashes: what follows are names, whatever they start with. -/
  | escape
  | long (name : String) (value : Option String)
  | short (letters : List Char)
  | plain (text : String)

def Word.ofString (s : String) : Word :=
  match s.toList with
  | ['-', '-'] => .escape
  | ['-'] => .plain s
  | '-' :: '-' :: cs =>
    let name := String.ofList (cs.takeWhile (· != '='))
    match cs.dropWhile (· != '=') with
    | [] => .long name none
    | _ :: value => .long name (some (String.ofList value))
  | '-' :: cs => .short cs
  | _ => .plain s

/-- The value in the argument behind an option. -/
def Word.value? : Word → Option String
  | plain text => some text
  | _ => none

/-- A file name must not be empty. -/
def path? (s : String) : Option String := if s.isEmpty then none else some s

/-- A natural number below 2^64, perhaps with a plus sign. -/
def count? (s : String) : Option Nat :=
  let ds :=
    match s.toList with
    | '+' :: ds => ds
    | ds => ds
  if ds.isEmpty || !ds.all Char.isDigit then none
  else
    let n := ds.foldl (fun n d => 10 * n + (d.toNat - '0'.toNat)) 0
    if n < powerOfTwo 64 then some n else none

/-- An option that takes a value, once. -/
inductive Valued
  | config
  | maxCallDepth
  deriving DecidableEq

def Valued.ofName? : String → Option Valued
  | "config" => some config
  | "max-call-depth" => some maxCallDepth
  | _ => none

end Arguments

namespace Options

open Arguments

/-- The log file is optional and follows an equals sign. -/
def setLog (o : Options) (value : Option String) : Option Options :=
  if o.log.isSome then none
  else do return { o with log := some (← path? (value.getD "app.log")) }

def setValued (o : Options) (option : Valued) (value : String) : Option Options :=
  match option with
  | .config => if o.config.isSome then none else do return { o with config := some (← path? value) }
  | .maxCallDepth =>
    if o.maxCallDepth.isSome then none
    else do return { o with maxCallDepth := some (← count? value) }

/-- Options behind a task's name count over those before it. -/
def withDefaults (inner outer : Options) : Options where
  log := inner.log.or outer.log
  config := inner.config.or outer.config
  maxCallDepth := inner.maxCallDepth.or outer.maxCallDepth

end Options

namespace Arguments

/-- The tasks by name, before their own arguments are read. -/
inductive TaskName
  | tokenize | parse | evaluate | run | repl
  deriving DecidableEq

def TaskName.ofString? : String → Option TaskName
  | "tokenize" => some tokenize
  | "parse" => some parse
  | "evaluate" => some evaluate
  | "run" => some run
  | "repl" => some repl
  | _ => none

/-- The arguments read so far behind a task's name. -/
structure TaskArguments where
  options : Options := {}
  file : Option String := none
  json : Bool := false

namespace TaskArguments

/-- Adds the name of the task's only file. -/
def addFile (a : TaskArguments) (name : TaskName) (text : String) : Option TaskArguments :=
  if name = .repl || a.file.isSome then none
  else do return { a with file := some (← path? text) }

/-- Adds the wish for JSON, which only parsing has. -/
def addJson (a : TaskArguments) (name : TaskName) : Option TaskArguments :=
  if name = .parse && !a.json then some { a with json := true } else none

/-- The task that the arguments add up to. -/
def task? (a : TaskArguments) : TaskName → Option Task
  | .tokenize => a.file.map .tokenize
  | .parse => a.file.map (.parse · a.json)
  | .evaluate => a.file.map .evaluate
  | .run => a.file.map .run
  | .repl => some .repl

end TaskArguments

/-- Reads the arguments behind a task's name; `escaped` is whether two dashes came before. -/
def readTask (outer : Options) (name : TaskName) (escaped : Bool) (a : TaskArguments) :
    List String → Option Invocation
  | [] => (a.task? name).map (.perform (a.options.withDefaults outer))
  | arg :: rest =>
    if escaped then do readTask outer name true (← a.addFile name arg) rest
    else
      match Word.ofString arg with
      | .escape => readTask outer name true a rest
      | .plain text => do readTask outer name false (← a.addFile name text) rest
      | .short ('h' :: _) => some .help
      | .short _ => none
      | .long "help" none => some .help
      | .long "json" none => do readTask outer name false (← a.addJson name) rest
      | .long "log" value => do
        readTask outer name false { a with options := ← a.options.setLog value } rest
      | .long option value => do
        let option ← Valued.ofName? option
        match value with
        | some v =>
          readTask outer name false { a with options := ← a.options.setValued option v } rest
        | none =>
          match rest with
          | [] => none
          | next :: behind =>
            let v ← (Word.ofString next).value?
            readTask outer name false { a with options := ← a.options.setValued option v } behind

/-- Help is for the program, or for what one further argument names. -/
def readHelp : List String → Option Invocation
  | [] => some .help
  | ["help"] => some .help
  | [name] => (TaskName.ofString? name).map fun _ => .help
  | _ => none

/-- Reads the arguments up to a task's name. -/
def readTop (o : Options) : List String → Option Invocation
  | [] => none
  | arg :: rest =>
    match Word.ofString arg with
    | .escape => none
    | .plain "help" => readHelp rest
    | .plain text => do readTask o (← TaskName.ofString? text) false {} rest
    | .short ('V' :: _) => some .version
    | .short ('h' :: _) => some .help
    | .short _ => none
    | .long "version" none => some .version
    | .long "help" none => some .help
    | .long "log" value => do readTop (← o.setLog value) rest
    | .long option value => do
      let option ← Valued.ofName? option
      match value with
      | some v => readTop (← o.setValued option v) rest
      | none =>
        match rest with
        | [] => none
        | next :: behind =>
          let v ← (Word.ofString next).value?
          readTop (← o.setValued option v) behind

end Arguments

def Invocation.ofArguments? (arguments : List String) : Option Invocation :=
  Arguments.readTop {} arguments

end LoxLang
