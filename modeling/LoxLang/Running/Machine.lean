import LoxLang.Action
import LoxLang.Scoping.Distances
import LoxLang.Value.Text

/-!
# The machine

* `Machine`: everything a running program can read or change: the store, the current frame, the
  number of calls in progress, the distances of the programs seen so far, the output and the host;
* `Run`: actions on a machine that may fail at run time;
* `inFrame`, `oneDeeper`: running something in another frame, or as one more call in progress.
-/

namespace LoxLang

/-- Where printed text goes. -/
structure Output where
  /-- The text accepted so far. -/
  written : String
  /-- Why a further write is refused, by the text accepted so far. -/
  refusal? : String → Option String
  /-- Why flushing is refused. -/
  flushRefusal? : Option String

/-- An output that takes everything. -/
def Output.unlimited : Output := ⟨"", fun _ => none, none⟩

/-- What the surroundings of a program provide. -/
structure Host where
  /-- The readings of the clock, one after the other. -/
  clock : Nat → Float
  /-- The functions of the host beside the clock. -/
  call : Native → Store → List Value → Except String Value

namespace Native

/-- The seconds since the machine was made. -/
def clock : Native := ⟨"clock", 0⟩

end Native

/-- A host with a clock and no functions. -/
def Host.withClock (clock : Nat → Float) : Host :=
  ⟨clock, fun _ _ _ => .ok .nil⟩

/-- A host whose clock has advanced by a microsecond at each reading. -/
def Host.nominal : Host := .withClock fun n => nearestDouble (n + 1) 6

structure Machine where
  store : Store
  /-- The frame of the innermost scope around the code that runs. -/
  frame : FrameId
  /-- The number of calls in progress. -/
  depth : Nat
  distances : DistanceTable
  /-- At most this many calls can be in progress. -/
  maxDepth : Nat
  output : Output
  host : Host
  /-- How often the clock was read. -/
  readings : Nat

/-- The frame of the global variables. -/
def globals : FrameId := 0

/-- A store with the frame of global variables, where only the clock is defined. -/
def Store.initial : Store := ⟨#[⟨[("clock", .native .clock)], none⟩], #[], 0⟩

namespace Machine

def initial (maxDepth : Nat) (output : Output) (host : Host) : Machine where
  store := .initial
  frame := globals
  depth := 0
  distances := .empty
  maxDepth := maxDepth
  output := output
  host := host
  readings := 0

/-- Back in the global scope, with no call in progress. -/
def reset (m : Machine) : Machine := { m with frame := globals, depth := 0 }

end Machine

abbrev Run (α : Type) : Type := Action RuntimeError Machine α

namespace Run

variable {α : Type}

/-- Changes the store. -/
@[inline] def modifyStore (f : Store → Store) : Run Unit :=
  Action.modify fun m => { m with store := f m.store }

/-- Makes something in the store. -/
@[inline] def make (f : Store → α × Store) : Run α := fun m =>
  match f m.store with
  | (a, store) => .ok a { m with store }

/-- Runs in another frame and comes back to the current one, however that ends. -/
@[inline] def inFrame (frame : FrameId) (x : Run α) : Run α := fun m =>
  match x { m with frame } with
  | .ok a m' => .ok a { m' with frame := m.frame }
  | .error e m' => .error e { m' with frame := m.frame }
  | .outOfFuel => .outOfFuel

/-- Runs as one more call in progress, and counts it off however that ends. -/
@[inline] def oneDeeper (x : Run α) : Run α := fun m =>
  match x { m with depth := m.depth + 1 } with
  | .ok a m' => .ok a { m' with depth := m'.depth - 1 }
  | .error e m' => .error e { m' with depth := m'.depth - 1 }
  | .outOfFuel => .outOfFuel

/-- Writes a text. Nothing is written, and nothing refused, if the text is empty. -/
def write (text : String) : Run Unit := fun m =>
  if text.isEmpty then .ok () m
  else
    match m.output.refusal? m.output.written with
    | some reason => .error (.output reason) m
    | none => .ok () { m with output := { m.output with written := m.output.written ++ text } }

/-- Writes a value and a newline. -/
def printLine (value : Value) : Run Unit := do
  let m ← Action.get
  write (m.store.display value)
  write "\n"

def flush : Run Unit := fun m =>
  match m.output.flushRefusal? with
  | some reason => .error (.output reason) m
  | none => .ok () m

/-- The variable a node refers to: at its distance, or else a global one. -/
def lookUp (id : NodeId) (name : String) (line : Nat) : Run Value := fun m =>
  let found :=
    match m.distances.of? id with
    | some distance => m.store.getAt m.frame distance name
    | none => m.store.get globals name line
  match found with
  | .ok value => .ok value m
  | .error e => .error e m

/-- Binds a name in the frame that is found. -/
@[inline] def assignIn (find : Machine → Except RuntimeError FrameId) (name : String)
    (value : Value) : Run Unit := fun m =>
  match find m with
  | .ok f => .ok () { m with store := m.store.define f name value }
  | .error e => .error e m

/-- Assigns to the variable a node refers to. -/
def assign (id : NodeId) (name : Identifier) (value : Value) : Run Unit :=
  assignIn (fun m =>
    match m.distances.of? id with
    | some distance => m.store.assigneeAt m.frame distance name.name
    | none => m.store.assignee globals name.name name.line) name.name value

/-- The value of a property of an object. A method is bound to the object anew each time. -/
def getProperty (o : ObjectId) (name : Identifier) : Run Value := fun m =>
  match m.store.property o name with
  | .ok (.field value) => .ok value m
  | .ok (.method f) =>
    let (bound, store) := m.store.bindMethod f o
    .ok (.function bound) { m with store }
  | .error e => .error e m

/-- Binds a name in the current frame. -/
def define (name : String) (value : Value) : Run Unit :=
  Action.modify fun m => { m with store := m.store.define m.frame name value }

end Run

end LoxLang
