import LoxLang.Command.Perform

/-!
# Directories

A directory with nothing but files in it, held in memory, for performing tasks in it.

* `Directory.locate`: where a path leads;
* `Directory.read`, `Directory.creation`: reading and creating files by path;
* `Directory.namesAfter`: the files that are there after a task.

A path leads through its parts from front to back. Outside of the directory nothing is known but
the empty file `/dev/null`.
-/

namespace LoxLang

/-- The files of a directory by name, with their bytes. -/
abbrev Directory : Type := List (String × List UInt8)

namespace Directory

/-- Where a path leads. -/
inductive Place
  /-- The directory itself, or another one. -/
  | folder
  | file (bytes : List UInt8)
  /-- A name in the directory that no file has. -/
  | free (name : String)
  /-- A name somewhere else. -/
  | outside
  deriving DecidableEq, Repr

/-- A part of a path has at most this many bytes. -/
def maxName : Nat := 255

/-- A path has fewer bytes than this. -/
def maxPath : Nat := 4096

/-- Where the parts of a path lead from the directory, or from somewhere else. -/
def walk (d : Directory) (inside : Bool) : List String → Except FileFault Place
  | [] => .ok .folder
  | "." :: rest => walk d inside rest
  | ".." :: rest => walk d false rest
  | name :: rest =>
    if maxName < name.utf8ByteSize then .error .nameTooLong
    else
      match if inside then d.lookup name else none with
      | some bytes => if rest.isEmpty then .ok (.file bytes) else .error .notDirectory
      | none =>
        if !rest.isEmpty then .error .missing
        else if inside then .ok (.free name)
        else .ok .outside

def locate (d : Directory) (path : String) : Except FileFault Place :=
  if maxPath ≤ path.utf8ByteSize then .error .nameTooLong
  else if path = "/dev/null" then .ok (.file [])
  else walk d (!path.startsWith "/") ((path.splitOn "/").filter (· ≠ ""))

/-- The bytes of the file at a path. With a slash behind it, a path leads to a directory. -/
def read (d : Directory) (path : String) : Except FileFault (List UInt8) := do
  match ← d.locate path with
  | .file bytes => if path.endsWith "/" then throw .notDirectory else return bytes
  | .folder => throw .isDirectory
  | _ => throw .missing

/-- The name that creating a file at a path adds to the directory, if any. -/
def creation (d : Directory) (path : String) : Except FileFault (Option String) := do
  match ← d.locate path with
  | .folder => throw .isDirectory
  | .free name => if path.endsWith "/" then throw .isDirectory else return some name
  | _ => if path.endsWith "/" then throw .isDirectory else return none

/-- What a task finds that is performed in the directory. -/
def surroundings (d : Directory) (input : List UInt8) (host : Host) : Surroundings where
  read := d.read
  creation := fun path => (d.creation path).map fun _ => ()
  input := input
  host := host

/-- The names in the directory after a task, in ascending order. -/
def namesAfter (d : Directory) (r : Report) : List String :=
  let made := r.created.filterMap fun path => (d.creation path).toOption.join
  Store.sorted (d.map (·.1) ++ made.eraseDups)

end Directory

end LoxLang
