import LoxLang.Problem

/-!
# Reports

* `Report`: what a run of the program leaves to the outside;
* `ExitCode`: 65 if a source is wrong, 70 if running it failed, 1 if a file could not be used, and
  2 on wrong usage;
* `Failure`: why a file could not be used, with its causes.

Problems of a source go to the error stream, one after the other.
-/

namespace LoxLang

/-- What a run of the program leaves. -/
structure Report where
  code : Nat := 0
  output : String := ""
  errors : String := ""
  /-- The files made. -/
  created : List String := []
  deriving DecidableEq, Repr

namespace ExitCode

def usage : Nat := 2
def failure : Nat := 1
def static : Nat := 65
def runtime : Nat := 70

/-- The code for the problems of a source; the first one counts. -/
def ofProblems : List Problem → Nat
  | [] => static
  | p :: _ => if p.isStatic then static else runtime

end ExitCode

/-- Texts, each ended by a newline. -/
def unlines (lines : List String) : String := String.join (lines.map (· ++ "\n"))

/-- A failure outside of a source: what was tried, and the causes from the nearest on. -/
structure Failure where
  context : String
  causes : List String

namespace Failure

/-- A text behind a label; its further lines are indented as far as the label goes. -/
def labelled (label text : String) : String :=
  let indented (c : Char) : List Char :=
    if c = '\n' then '\n' :: List.replicate label.length ' ' else [c]
  label ++ String.ofList (text.toList.flatMap indented)

/-- Several causes are numbered. -/
def causeLines : List String → List String
  | [cause] => [labelled "    " cause]
  | causes => causes.mapIdx fun i cause => labelled ("    " ++ digitsOf i ++ ": ") cause

def text (f : Failure) : String :=
  unlines (["Error: " ++ f.context, "", "Caused by:"] ++ causeLines f.causes)

def report (f : Failure) : Report := { code := ExitCode.failure, errors := f.text }

end Failure

namespace Report

/-- The report on a source with problems, after some output. -/
def ofProblems (output : String) (problems : List Problem) : Report where
  code := ExitCode.ofProblems problems
  output := output
  errors := unlines (problems.map (·.message))

end Report

end LoxLang
