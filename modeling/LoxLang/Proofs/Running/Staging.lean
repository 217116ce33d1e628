import LoxLang.Proofs.Running.TracedSession
import LoxLang.Proofs.Scoping.Spots

/-!
# Runs that know for whom they run

A staged run does what a run does. Beside that it knows at every node which class statement is
around the node, and for which object the method around the node was called. It keeps a record of
every expression it enters, and of how the bodies of functions and of loops complete.

* `Scene`: the innermost class statement around code, and the object its method is bound to;
* `Staged`: a machine with its record, and the scene of each function and each class made so far;
* `Staging.evaluate`, `Staging.execute`: runs that carry the scene along, clause by clause as
  `Running.evaluate` and `Running.execute`;
* `evaluate_unstaged`, `execute_unstaged`: without its record a staged run is the run itself.
-/

namespace LoxLang

/-- For whom code runs. -/
structure Scene where
  /-- The object that the nearest method around the code was bound to when it was called. -/
  receiver : Option ObjectId
  /-- The innermost class statement around the code. -/
  classAround : Option ClassDecl

/-- In no class. -/
def Scene.top : Scene := ⟨none, none⟩

/-- An expression that is entered. -/
structure Entrance where
  scene : Scene
  expr : Expr
  machine : Machine
  /-- The scenes of the functions and classes that were made before. -/
  scenes : Nat → Scene

/-- How a piece of code completes that takes notice of a `break` or a `return`. -/
inductive Ending
  /-- A statement of a program that stands in no other one. -/
  | statement (completion : Completion)
  /-- The body of a function that is called. -/
  | body (f : Closure) (completion : Completion)
  | loop (completion : Completion)

/-- A machine with a record of what ran on it. -/
structure Staged where
  machine : Machine
  /-- The scene in which the body of a function runs, by the stamp of the function. For a class it
  tells the statement that made the class. -/
  scenes : Nat → Scene
  entrances : List Entrance
  endings : List Ending

/-- Functions and classes that are made from now on have this scene. -/
def Staged.stage (t : Staged) (scene : Scene) : Staged :=
  { t with scenes := fun stamp =>
      if stamp < t.machine.store.nextStamp then t.scenes stamp else scene }

abbrev Staging (α : Type) : Type := Action Stop Staged α

namespace Staging

variable {α : Type}

/-- A step that is not recorded. -/
def quietly (x : Run α) : Staging α := fun t =>
  match x t.machine with
  | .ok a machine => .ok a { t with machine }
  | .error e machine => .error (.failure e) { t with machine }
  | .outOfFuel => .error .outOfFuel t

def outOfFuel : Staging α := Action.fail .outOfFuel

/-- Records that an expression is entered. -/
def enter (scene : Scene) (e : Expr) : Staging Unit :=
  Action.modify fun t =>
    { t with entrances := ⟨scene, e, t.machine, t.scenes⟩ :: t.entrances }

/-- Records how a piece of code completes. -/
def conclude (ending : Ending) : Staging Unit :=
  Action.modify fun t => { t with endings := ending :: t.endings }

def stage (scene : Scene) : Staging Unit := Action.modify (·.stage scene)

def inFrame (frame : FrameId) (x : Staging α) : Staging α := fun t =>
  match x { t with machine := { t.machine with frame } } with
  | .ok a t' => .ok a { t' with machine := { t'.machine with frame := t.machine.frame } }
  | .error e t' => .error e { t' with machine := { t'.machine with frame := t.machine.frame } }
  | .outOfFuel => .outOfFuel

def oneDeeper (x : Staging α) : Staging α := fun t =>
  match x { t with machine := { t.machine with depth := t.machine.depth + 1 } } with
  | .ok a t' => .ok a { t' with machine := { t'.machine with depth := t'.machine.depth - 1 } }
  | .error e t' =>
    .error e { t' with machine := { t'.machine with depth := t'.machine.depth - 1 } }
  | .outOfFuel => .outOfFuel

/-- Binds a method of an object to the object. -/
def bindMethod (method : Closure) (o : ObjectId) : Staging Closure := do
  let t ← Action.get
  stage ⟨some o, (t.scenes method.stamp).classAround⟩
  quietly (Run.make (·.bindMethod method o))

def getProperty (o : ObjectId) (name : Identifier) : Staging Value := fun t =>
  match t.machine.store.property o name with
  | .ok (.field value) => .ok value t
  | .ok (.method f) => (bindMethod f o >>= fun bound => pure (.function bound)) t
  | .error e => .error (.failure e) t

def inOrder (evaluate : Expr → Staging Value) : List Expr → Staging (List Value)
  | [] => pure []
  | e :: rest => do
    let first ← evaluate e
    let others ← inOrder evaluate rest
    return first :: others

def inSequence (execute : Stmt → Staging Completion) : List Stmt → Staging Completion
  | [] => pure .normal
  | s :: rest => do
    match ← execute s with
    | .normal => inSequence execute rest
    | completion => return completion

/-- The body of a function runs in the scene of the function. -/
def callClosure (execute : Scene → Stmt → Staging Completion) (f : Closure)
    (arguments : List Value) : Staging Value := do
  let t ← Action.get
  let frame ← quietly <| Run.make fun s =>
    s.newFrame (some f.frame) (Running.argumentBindings f.declaration.params arguments)
  let completion ← inFrame frame (inSequence (execute (t.scenes f.stamp)) f.declaration.body)
  conclude (.body f completion)
  if f.isInitializer then
    let t ← Action.get
    quietly (Action.ofExcept (t.machine.store.getAt f.frame 0 "this"))
  else
    match completion with
    | .returning value => return value
    | _ => return .nil

def construct (execute : Scene → Stmt → Staging Completion) (c : Class) (arguments : List Value) :
    Staging Value := do
  let o ← quietly (Run.make (·.newObject c))
  match c.initializer? with
  | none => return .object o
  | some init =>
    let bound ← bindMethod init o
    let _ ← callClosure execute bound arguments
    return .object o

def apply (execute : Scene → Stmt → Staging Completion) (callee : Value)
    (arguments : List Value) : Staging Value :=
  match callee with
  | .native f => quietly (Running.callNative f arguments)
  | .function f => callClosure execute f arguments
  | .ofClass c => construct execute c arguments
  | _ => return .nil

def call (execute : Scene → Stmt → Staging Completion) (callee : Value) (arguments : List Value)
    (line : Nat) : Staging Value := do
  match callee.arity? with
  | none => Action.fail (.failure (.notCallable line))
  | some arity =>
    if arguments.length ≠ arity then
      Action.fail (.failure (.arityMismatch arity arguments.length line))
    else
      let t ← Action.get
      if t.machine.maxDepth ≤ t.machine.depth then Action.fail (.failure (.stackOverflow line))
      else oneDeeper (apply execute callee arguments)

/-- A function that is declared runs for whom the code around it does. -/
def declareFunction (scene : Scene) (f : FunctionDecl) : Staging Unit := do
  stage scene
  quietly do
    let m ← Action.get
    let closure ← Run.make (·.newClosure f m.frame false)
    Run.define f.name.name (.function closure)

/-- The methods of a class that is declared are bound to no object yet. -/
def declareClass (name : Identifier) (methods : List FunctionDecl) : Staging Unit := do
  stage ⟨none, some ⟨name, methods⟩⟩
  quietly (Running.declareClass name methods)

mutual

def evaluate : Nat → Scene → Expr → Staging Value
  | 0, _, _ => outOfFuel
  | fuel + 1, scene, e => do
    enter scene e
    match e with
    | .literal value => return value.value
    | .grouping inner => evaluate fuel scene inner
    | .variable id name => quietly (Run.lookUp id name.name name.line)
    | .this id line => quietly (Run.lookUp id "this" line)
    | .assign id name value =>
      let value ← evaluate fuel scene value
      quietly (Run.assign id name value)
      return value
    | .unary op line operand =>
      let operand ← evaluate fuel scene operand
      quietly (Action.ofExcept (op.apply line operand))
    | .binary op line left right =>
      let left ← evaluate fuel scene left
      let right ← evaluate fuel scene right
      quietly (Action.ofExcept (op.apply line left right))
    | .logical op left right =>
      let left ← evaluate fuel scene left
      if op.decidedBy left then return left else evaluate fuel scene right
    | .call callee line arguments =>
      let callee ← evaluate fuel scene callee
      let arguments ← inOrder (evaluate fuel scene) arguments
      call (execute fuel) callee arguments line
    | .get object name =>
      match ← evaluate fuel scene object with
      | .object o => getProperty o name
      | _ => Action.fail (.failure (.notAnObject name.line))
    | .set object name value =>
      match ← evaluate fuel scene object with
      | .object o =>
        let value ← evaluate fuel scene value
        quietly (Run.modifyStore (·.setField o name.name value))
        return value
      | _ => Action.fail (.failure (.notAnObject name.line))

def execute : Nat → Scene → Stmt → Staging Completion
  | 0, _, _ => outOfFuel
  | fuel + 1, scene, s =>
    match s with
    | .expression expr => do
      let _ ← evaluate fuel scene expr
      return .normal
    | .print expr => do
      let value ← evaluate fuel scene expr
      quietly (Run.printLine value)
      return .normal
    | .varDecl name initializer => do
      let value ← evaluate fuel scene initializer
      quietly (Run.define name.name value)
      return .normal
    | .block body => do
      let t ← Action.get
      let frame ← quietly (Run.make (·.newFrame (some t.machine.frame) []))
      inFrame frame (inSequence (execute fuel scene) body)
    | .ifElse condition thenBranch elseBranch => do
      let value ← evaluate fuel scene condition
      if value.isTruthy then execute fuel scene thenBranch
      else
        match elseBranch with
        | some branch => execute fuel scene branch
        | none => return .normal
    | .whileLoop condition body => do
      let completion ← repeatWhile fuel scene condition body
      conclude (.loop completion)
      return completion
    | .breakLoop _ => return .breaking
    | .funDecl function => do
      declareFunction scene function
      return .normal
    | .returnValue _ none => return .returning .nil
    | .returnValue _ (some value) => do
      let value ← evaluate fuel scene value
      return .returning value
    | .classDecl name methods => do
      declareClass name methods
      return .normal

def repeatWhile : Nat → Scene → Expr → Stmt → Staging Completion
  | 0, _, _, _ => outOfFuel
  | fuel + 1, scene, condition, body => do
    let value ← evaluate fuel scene condition
    if value.isTruthy then
      match ← execute fuel scene body with
      | .normal => repeatWhile fuel scene condition body
      | .breaking => return .normal
      | .returning value => return .returning value
    else return .normal

end

/-- The statements of a program, each with a record of how it completes. -/
def runStatements (fuel : Nat) : List Stmt → Staging Unit
  | [] => pure ()
  | s :: rest => fun t =>
    match (execute fuel .top s >>= fun completion => conclude (.statement completion)) t with
    | .ok _ t' => runStatements fuel rest t'
    | .error (.failure e) t' => .error (.failure e) { t' with machine := t'.machine.reset }
    | .error .outOfFuel t' => .error .outOfFuel t'
    | .outOfFuel => .outOfFuel

def runProgram (fuel : Nat) (program : Program) (distances : Distances) : Staging Unit := do
  quietly <| Action.modify fun m => { m with distances := m.distances.extend distances }
  runStatements fuel program
  quietly Run.flush

end Staging

/-! ## Without the record -/

namespace Outcome

variable {α : Type}

/-- How a staged run ends, without its record. -/
def unstaged : Outcome Stop Staged α → Outcome RuntimeError Machine α
  | .ok a t => .ok a t.machine
  | .error (.failure e) t => .error e t.machine
  | .error .outOfFuel _ => .outOfFuel
  | .outOfFuel => .outOfFuel

end Outcome

/-- Without its record the staged run does what the run does. -/
def Stages {α : Type} (x : Staging α) (y : Run α) : Prop := ∀ t, (x t).unstaged = y t.machine

namespace Stages

variable {α β : Type} {x : Staging α} {y : Run α}

theorem pure (a : α) : Stages (Pure.pure a) (Pure.pure a) := fun _ => rfl

theorem fail (e : RuntimeError) : Stages (Action.fail (.failure e) : Staging α) (Action.fail e) :=
  fun _ => rfl

theorem outOfFuel : Stages (Staging.outOfFuel : Staging α) Action.outOfFuel := fun _ => rfl

theorem bind (h : Stages x y) {f : α → Staging β} {g : α → Run β} (hf : ∀ a, Stages (f a) (g a)) :
    Stages (x >>= f) (y >>= g) := by
  intro t
  have hx := h t
  cases hxt : x t with
  | ok a t' =>
    rw [hxt] at hx
    rw [Action.bind_of_ok hxt, Action.bind_of_ok hx.symm]
    exact hf a t'
  | error e t' =>
    rw [hxt] at hx
    rw [Action.bind_of_error hxt]
    cases e with
    | failure e => exact (Action.bind_of_error hx.symm).symm
    | outOfFuel => exact (Action.bind_of_outOfFuel hx.symm).symm
  | outOfFuel =>
    rw [hxt] at hx
    rw [Action.bind_of_outOfFuel hxt, Action.bind_of_outOfFuel hx.symm]
    rfl

theorem quietly (y : Run α) : Stages (Staging.quietly y) y := by
  intro t
  unfold Staging.quietly
  cases y t.machine <;> rfl

/-- A step before that only adds to the record. -/
theorem record (f : Staged → Staged) (hf : ∀ t, (f t).machine = t.machine) (h : Stages x y) :
    Stages (Action.modify f >>= fun _ => x) y := by
  intro t
  rw [← hf t]
  exact h (f t)

/-- A step behind that only adds to the record. -/
theorem concluded {f : α → Staging β} {g : α → Run β} (h : Stages x y) (ending : α → Ending)
    (hf : ∀ a, Stages (f a) (g a)) :
    Stages (x >>= fun a => Staging.conclude (ending a) >>= fun _ => f a) (y >>= g) :=
  h.bind fun a => .record _ (fun _ => rfl) (hf a)

/-- A step behind that only notes how the code completed. -/
theorem noted (h : Stages x y) (ending : α → Ending) :
    Stages (x >>= fun a => Staging.conclude (ending a) >>= fun _ => Pure.pure a) y := by
  intro t
  rw [← h t]
  cases hx : x t with
  | ok a t' =>
    rw [Action.bind_of_ok hx]
    rfl
  | error e t' => rw [Action.bind_of_error hx]
  | outOfFuel => rw [Action.bind_of_outOfFuel hx]

/-- A look at the record. -/
theorem look {f : Staged → Staging α} (h : ∀ t, Stages (f t) y) : Stages (Action.get >>= f) y :=
  fun t => h t t

theorem get {f : Staged → Staging α} {g : Machine → Run α}
    (h : ∀ t, Stages (f t) (g t.machine)) : Stages (Action.get >>= f) (Action.get >>= g) :=
  fun t => h t t

theorem inFrame (frame : FrameId) (h : Stages x y) :
    Stages (Staging.inFrame frame x) (Run.inFrame frame y) := by
  intro t
  have hx := h { t with machine := { t.machine with frame } }
  simp only [Staging.inFrame, Run.inFrame]
  rw [← hx]
  cases x { t with machine := { t.machine with frame } } with
  | ok a t' => rfl
  | error e t' => cases e <;> rfl
  | outOfFuel => rfl

theorem oneDeeper (h : Stages x y) : Stages (Staging.oneDeeper x) (Run.oneDeeper y) := by
  intro t
  have hx := h { t with machine := { t.machine with depth := t.machine.depth + 1 } }
  simp only [Staging.oneDeeper, Run.oneDeeper]
  rw [← hx]
  cases x { t with machine := { t.machine with depth := t.machine.depth + 1 } } with
  | ok a t' => rfl
  | error e t' => cases e <;> rfl
  | outOfFuel => rfl

theorem bindMethod (method : Closure) (o : ObjectId) :
    Stages (Staging.bindMethod method o) (Run.make (·.bindMethod method o)) :=
  look fun _ => record _ (fun _ => rfl) (quietly _)

theorem getProperty (o : ObjectId) (name : Identifier) :
    Stages (Staging.getProperty o name) (Run.getProperty o name) := by
  intro t
  unfold Staging.getProperty Run.getProperty
  cases t.machine.store.property o name with
  | error e => rfl
  | ok found =>
    cases found with
    | field value => rfl
    | method f => exact (bindMethod f o).bind (fun bound => pure (Value.function bound)) t

section
variable {evaluate : Expr → Staging Value} {evaluate' : Expr → Run Value}
  {execute' : Stmt → Run Completion}

theorem inOrder (h : ∀ e, Stages (evaluate e) (evaluate' e)) (es : List Expr) :
    Stages (Staging.inOrder evaluate es) (Running.inOrder evaluate' es) := by
  induction es with
  | nil => exact pure _
  | cons e rest ih => exact (h e).bind fun _ => ih.bind fun _ => pure _

theorem inSequence {execute : Stmt → Staging Completion} (h : ∀ s, Stages (execute s) (execute' s))
    (body : List Stmt) :
    Stages (Staging.inSequence execute body) (Running.inSequence execute' body) := by
  induction body with
  | nil => exact pure _
  | cons s rest ih =>
    refine (h s).bind fun completion => ?_
    cases completion with
    | normal => exact ih
    | breaking => exact pure _
    | returning value => exact pure _

variable {execute : Scene → Stmt → Staging Completion}
  (h : ∀ scene s, Stages (execute scene s) (execute' s))
include h

theorem callClosure (f : Closure) (arguments : List Value) :
    Stages (Staging.callClosure execute f arguments)
      (Running.callClosure execute' f arguments) := by
  refine look fun t => (quietly _).bind fun frame => ?_
  refine (inFrame frame (inSequence (h _) _)).concluded (.body f) fun completion => ?_
  by_cases hinit : f.isInitializer = true
  · simp only [hinit, if_true]
    exact get fun t => quietly _
  · simp only [hinit]
    cases completion with
    | returning value => exact pure _
    | normal => exact pure _
    | breaking => exact pure _

theorem construct (c : Class) (arguments : List Value) :
    Stages (Staging.construct execute c arguments) (Running.construct execute' c arguments) := by
  refine (quietly _).bind fun o => ?_
  cases c.initializer? with
  | none => exact pure _
  | some init =>
    exact (bindMethod init o).bind fun bound => (callClosure h bound arguments).bind fun _ =>
      pure _

theorem apply (callee : Value) (arguments : List Value) :
    Stages (Staging.apply execute callee arguments) (Running.apply execute' callee arguments) := by
  cases callee with
  | native f => exact quietly _
  | function f => exact callClosure h f arguments
  | ofClass c => exact construct h c arguments
  | _ => exact pure _

theorem call (callee : Value) (arguments : List Value) (line : Nat) :
    Stages (Staging.call execute callee arguments line)
      (Running.call execute' callee arguments line) := by
  unfold Staging.call Running.call
  cases callee.arity? with
  | none => exact fail _
  | some arity =>
    dsimp only
    split
    · exact fail _
    · refine get fun t => ?_
      split
      · exact fail _
      · exact oneDeeper (apply h callee arguments)

end

theorem declareFunction (scene : Scene) (f : FunctionDecl) :
    Stages (Staging.declareFunction scene f) (do
      let m ← Action.get
      let closure ← Run.make (·.newClosure f m.frame false)
      Run.define f.name.name (.function closure)) :=
  record _ (fun _ => rfl) (quietly _)

theorem declareClass (name : Identifier) (methods : List FunctionDecl) :
    Stages (Staging.declareClass name methods) (Running.declareClass name methods) :=
  record _ (fun _ => rfl) (quietly _)

end Stages

namespace Staging

/-- The record changes nothing, on every fuel. -/
theorem unstaged (fuel : Nat) :
    (∀ scene e, Stages (evaluate fuel scene e) (Running.evaluate fuel e)) ∧
    (∀ scene s, Stages (execute fuel scene s) (Running.execute fuel s)) ∧
    (∀ scene condition body, Stages (repeatWhile fuel scene condition body)
      (Running.repeatWhile fuel condition body)) := by
  induction fuel with
  | zero => exact ⟨fun _ _ => .outOfFuel, fun _ _ => .outOfFuel, fun _ _ _ => .outOfFuel⟩
  | succ fuel ih =>
    obtain ⟨hevaluate, hexecute, hrepeat⟩ := ih
    refine ⟨fun scene e => ?_, fun scene s => ?_, fun scene condition body => ?_⟩
    · unfold evaluate Running.evaluate
      refine .record _ (fun _ => rfl) ?_
      cases e with
      | literal value => exact .pure _
      | grouping inner => exact hevaluate _ _
      | «variable» id name => exact .quietly _
      | this id line => exact .quietly _
      | assign id name value =>
        exact (hevaluate _ _).bind fun _ => (Stages.quietly _).bind fun _ => .pure _
      | unary op line operand => exact (hevaluate _ _).bind fun _ => .quietly _
      | binary op line left right =>
        exact (hevaluate _ _).bind fun _ => (hevaluate _ _).bind fun _ => .quietly _
      | logical op left right =>
        refine (hevaluate _ _).bind fun value => ?_
        split
        · exact .pure _
        · exact hevaluate _ _
      | call callee line arguments =>
        exact (hevaluate _ _).bind fun _ => (Stages.inOrder (hevaluate scene) _).bind fun _ =>
          .call hexecute _ _ _
      | get object name =>
        refine (hevaluate _ _).bind fun value => ?_
        cases value with
        | object o => exact .getProperty o name
        | _ => exact .fail _
      | set object name value =>
        refine (hevaluate _ _).bind fun target => ?_
        cases target with
        | object o => exact (hevaluate _ _).bind fun _ => (Stages.quietly _).bind fun _ => .pure _
        | _ => exact .fail _
    · unfold execute Running.execute
      cases s with
      | expression expr => exact (hevaluate _ _).bind fun _ => .pure _
      | print expr => exact (hevaluate _ _).bind fun _ => (Stages.quietly _).bind fun _ => .pure _
      | varDecl name initializer =>
        exact (hevaluate _ _).bind fun _ => (Stages.quietly _).bind fun _ => .pure _
      | block body =>
        exact .get fun t => (Stages.quietly _).bind fun frame =>
          .inFrame frame (.inSequence (hexecute scene) _)
      | ifElse condition thenBranch elseBranch =>
        refine (hevaluate _ _).bind fun value => ?_
        split
        · exact hexecute _ _
        · cases elseBranch with
          | none => exact .pure _
          | some branch => exact hexecute _ _
      | whileLoop condition body => exact (hrepeat _ _ _).noted .loop
      | breakLoop line => exact .pure _
      | funDecl f => exact (Stages.declareFunction scene f).bind fun _ => .pure _
      | returnValue line value =>
        cases value with
        | none => exact .pure _
        | some value => exact (hevaluate _ _).bind fun _ => .pure _
      | classDecl name methods => exact (Stages.declareClass name methods).bind fun _ => .pure _
    · unfold repeatWhile Running.repeatWhile
      refine (hevaluate _ _).bind fun value => ?_
      split
      · refine (hexecute _ _).bind fun completion => ?_
        cases completion with
        | normal => exact hrepeat _ _ _
        | breaking => exact .pure _
        | returning value => exact .pure _
      · exact .pure _

theorem evaluate_unstaged (fuel : Nat) (scene : Scene) (e : Expr) :
    Stages (evaluate fuel scene e) (Running.evaluate fuel e) := (unstaged fuel).1 scene e

theorem execute_unstaged (fuel : Nat) (scene : Scene) (s : Stmt) :
    Stages (execute fuel scene s) (Running.execute fuel s) := (unstaged fuel).2.1 scene s

theorem runStatements_unstaged (fuel : Nat) (body : List Stmt) :
    Stages (runStatements fuel body) (Running.runStatements fuel body) := by
  induction body with
  | nil => exact .pure _
  | cons s rest ih =>
    intro t
    have hs := execute_unstaged fuel .top s t
    simp only [runStatements, Running.runStatements]
    rw [← hs]
    cases hx : execute fuel .top s t with
    | ok c t' =>
      rw [Action.bind_of_ok hx]
      exact ih _
    | error e t' =>
      rw [Action.bind_of_error hx]
      cases e <;> rfl
    | outOfFuel =>
      rw [Action.bind_of_outOfFuel hx]
      rfl

theorem runProgram_unstaged (fuel : Nat) (program : Program) (distances : Distances) :
    Stages (runProgram fuel program distances) (Running.runProgram fuel program distances) :=
  (Stages.quietly _).bind fun _ => (runStatements_unstaged fuel program).bind fun _ =>
    .quietly _

end Staging

end LoxLang
