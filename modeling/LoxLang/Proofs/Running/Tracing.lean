import LoxLang.Proofs.Scoping.Sites
import LoxLang.Session

/-!
# Runs that keep their visits

A traced run does what a run does. Beside that it knows at every node the context in which the node
was resolved, and keeps a record of every expression it enters.

* `Visit`: an expression that is entered, with its site and the machine at that moment;
* `Visit.Aligned`, `Visit.Refers`: what a visit should find in the store;
* `Traced`: a machine, the visits so far, and for each function the site at which its body starts;
* `Tracing.evaluate`, `Tracing.execute`: runs that carry the site along, clause by clause as
  `Running.evaluate` and `Running.execute`;
* `evaluate_erases`, `execute_erases`: without its record a traced run is the run itself.
-/

namespace LoxLang

open Scoping (Context)

/-- An expression that is entered. -/
structure Visit where
  site : Site
  expr : Expr
  machine : Machine

/-- The reference that an expression is by itself. -/
def Expr.reference? : Expr → Option Reference
  | .variable id name => some ⟨.variable, id, name⟩
  | .this id line => some ⟨.this, id, ⟨"this", line⟩⟩
  | .assign id name _ => some ⟨.assign, id, name⟩
  | _ => none

namespace Visit

/-- The frames from the current one outwards are those of the scopes around the node, and then the
frame of the global variables, with nothing around it. Each of them binds the names that are ready
in its scope, and only names that are declared in it. -/
structure Aligned (v : Visit) : Prop where
  globals : v.machine.store.climb v.site.context.scopes.length v.machine.frame = .ok globals
  outermost : v.machine.store.enclosing? LoxLang.globals = none
  frames : ∀ k scope, v.site.context.scopes[k]? = some scope →
    ∃ f names, v.machine.store.climb k v.machine.frame = .ok f ∧
      v.site.declared[k]? = some names ∧
      (∀ name, scope.lookup name = some true → v.machine.store.binds f name = true) ∧
      (∀ name, v.machine.store.binds f name = true → name ∈ names)

/-- The expression assigns to a local variable in the initializer of that variable. -/
def AssignsEarly (v : Visit) : Prop :=
  ∃ id name value, v.expr = .assign id name value ∧ v.site.initializes name.name = true

/-- A reference with a distance finds a frame there. The frame binds the name, but for the variable
in whose initializer an assignment to it stands. -/
def Refers (v : Visit) : Prop :=
  ∀ r d, v.expr.reference? = some r → v.machine.distances.of? r.id = some d →
    ∃ f, v.machine.store.climb d v.machine.frame = .ok f ∧
      (v.machine.store.binds f r.name.name = true ↔ ¬v.AssignsEarly)

end Visit

/-- A machine with a record of what ran on it. -/
structure Traced where
  machine : Machine
  /-- Where the body of a function starts, by the stamp of the function. -/
  origins : Nat → Site
  visits : List Visit
  /-- Whether a local variable was about to be assigned in its own initializer. -/
  early : Bool

/-- Why a traced run ends without a value. -/
inductive Stop
  | failure (cause : RuntimeError)
  | outOfFuel

abbrev Tracing (α : Type) : Type := Action Stop Traced α

namespace Tracing

variable {α : Type}

/-- A step that is not recorded. -/
def quietly (x : Run α) : Tracing α := fun t =>
  match x t.machine with
  | .ok a machine => .ok a { t with machine }
  | .error e machine => .error (.failure e) { t with machine }
  | .outOfFuel => .error .outOfFuel t

def outOfFuel : Tracing α := Action.fail .outOfFuel

/-- Records that an expression is entered. -/
def visit (site : Site) (e : Expr) : Tracing Unit :=
  Action.modify fun t => { t with visits := ⟨site, e, t.machine⟩ :: t.visits }

/-- Records that a variable is about to be assigned. -/
def noteAssignment (site : Site) (name : String) : Tracing Unit :=
  Action.modify fun t => { t with early := t.early || site.initializes name }

/-- Records where the bodies of the next functions start. -/
def originate (sites : List Site) : Tracing Unit :=
  Action.modify fun t =>
    { t with origins := fun stamp =>
        if stamp < t.machine.store.nextStamp then t.origins stamp
        else (sites[stamp - t.machine.store.nextStamp]?).getD (t.origins stamp) }

def inFrame (frame : FrameId) (x : Tracing α) : Tracing α := fun t =>
  match x { t with machine := { t.machine with frame } } with
  | .ok a t' => .ok a { t' with machine := { t'.machine with frame := t.machine.frame } }
  | .error e t' => .error e { t' with machine := { t'.machine with frame := t.machine.frame } }
  | .outOfFuel => .outOfFuel

def oneDeeper (x : Tracing α) : Tracing α := fun t =>
  match x { t with machine := { t.machine with depth := t.machine.depth + 1 } } with
  | .ok a t' => .ok a { t' with machine := { t'.machine with depth := t'.machine.depth - 1 } }
  | .error e t' =>
    .error e { t' with machine := { t'.machine with depth := t'.machine.depth - 1 } }
  | .outOfFuel => .outOfFuel

/-- A method that is bound starts where the method starts. -/
def getProperty (o : ObjectId) (name : Identifier) : Tracing Value := do
  let t ← Action.get
  match t.machine.store.property o name with
  | .ok (.method f) => originate [t.origins f.stamp]
  | _ => pure ()
  quietly (Run.getProperty o name)

def inOrder (evaluate : Expr → Tracing Value) : List Expr → Tracing (List Value)
  | [] => pure []
  | e :: rest => do
    let first ← evaluate e
    let others ← inOrder evaluate rest
    return first :: others

def inSequence (execute : Site → Stmt → Tracing Completion) :
    Site → List Stmt → Tracing Completion
  | _, [] => pure .normal
  | site, s :: rest => do
    match ← execute site s with
    | .normal => inSequence execute (site.after s) rest
    | completion => return completion

def callClosure (execute : Site → Stmt → Tracing Completion) (f : Closure)
    (arguments : List Value) : Tracing Value := do
  let t ← Action.get
  let frame ← quietly <| Run.make fun s =>
    s.newFrame (some f.frame) (Running.argumentBindings f.declaration.params arguments)
  let completion ← inFrame frame (inSequence execute (t.origins f.stamp) f.declaration.body)
  quietly <|
    if f.isInitializer then do
      let m ← Action.get
      Action.ofExcept (m.store.getAt f.frame 0 "this")
    else
      match completion with
      | .returning value => return value
      | _ => return .nil

def construct (execute : Site → Stmt → Tracing Completion) (c : Class) (arguments : List Value) :
    Tracing Value := do
  let o ← quietly (Run.make (·.newObject c))
  match c.initializer? with
  | none => return .object o
  | some init =>
    let t ← Action.get
    originate [t.origins init.stamp]
    let bound ← quietly (Run.make (·.bindMethod init o))
    let _ ← callClosure execute bound arguments
    return .object o

def apply (execute : Site → Stmt → Tracing Completion) (callee : Value)
    (arguments : List Value) : Tracing Value :=
  match callee with
  | .native f => quietly (Running.callNative f arguments)
  | .function f => callClosure execute f arguments
  | .ofClass c => construct execute c arguments
  | _ => return .nil

def call (execute : Site → Stmt → Tracing Completion) (callee : Value) (arguments : List Value)
    (line : Nat) : Tracing Value := do
  match callee.arity? with
  | none => Action.fail (.failure (.notCallable line))
  | some arity =>
    if arguments.length ≠ arity then
      Action.fail (.failure (.arityMismatch arity arguments.length line))
    else
      let t ← Action.get
      if t.machine.maxDepth ≤ t.machine.depth then Action.fail (.failure (.stackOverflow line))
      else oneDeeper (apply execute callee arguments)

/-- Declares a function at a site. -/
def declareFunction (site : Site) (f : FunctionDecl) : Tracing Unit := do
  originate [(site.introduce f.name).inFunction .ordinary f]
  quietly do
    let m ← Action.get
    let closure ← Run.make (·.newClosure f m.frame false)
    Run.define f.name.name (.function closure)

def declareClass (site : Site) (name : Identifier) (methods : List FunctionDecl) :
    Tracing Unit := do
  originate (methods.map fun f => (site.introduce name).inClassBody.inFunction f.routine f)
  quietly (Running.declareClass name methods)

mutual

def evaluate : Nat → Site → Expr → Tracing Value
  | 0, _, _ => outOfFuel
  | fuel + 1, site, e => do
    visit site e
    match e with
    | .literal value => return value.value
    | .grouping inner => evaluate fuel site inner
    | .variable id name => quietly (Run.lookUp id name.name name.line)
    | .this id line => quietly (Run.lookUp id "this" line)
    | .assign id name value =>
      let value ← evaluate fuel site value
      noteAssignment site name.name
      quietly (Run.assign id name value)
      return value
    | .unary op line operand =>
      let operand ← evaluate fuel site operand
      quietly (Action.ofExcept (op.apply line operand))
    | .binary op line left right =>
      let left ← evaluate fuel site left
      let right ← evaluate fuel site right
      quietly (Action.ofExcept (op.apply line left right))
    | .logical op left right =>
      let left ← evaluate fuel site left
      if op.decidedBy left then return left else evaluate fuel site right
    | .call callee line arguments =>
      let callee ← evaluate fuel site callee
      let arguments ← inOrder (evaluate fuel site) arguments
      call (execute fuel) callee arguments line
    | .get object name =>
      match ← evaluate fuel site object with
      | .object o => getProperty o name
      | _ => Action.fail (.failure (.notAnObject name.line))
    | .set object name value =>
      match ← evaluate fuel site object with
      | .object o =>
        let value ← evaluate fuel site value
        quietly (Run.modifyStore (·.setField o name.name value))
        return value
      | _ => Action.fail (.failure (.notAnObject name.line))

def execute : Nat → Site → Stmt → Tracing Completion
  | 0, _, _ => outOfFuel
  | fuel + 1, site, s =>
    match s with
    | .expression expr => do
      let _ ← evaluate fuel site expr
      return .normal
    | .print expr => do
      let value ← evaluate fuel site expr
      quietly (Run.printLine value)
      return .normal
    | .varDecl name initializer => do
      let value ← evaluate fuel (site.inInitializer name) initializer
      quietly (Run.define name.name value)
      return .normal
    | .block body => do
      let t ← Action.get
      let frame ← quietly (Run.make (·.newFrame (some t.machine.frame) []))
      inFrame frame (inSequence (execute fuel) (site.inBlock body) body)
    | .ifElse condition thenBranch elseBranch => do
      let value ← evaluate fuel site condition
      if value.isTruthy then execute fuel site thenBranch
      else
        match elseBranch with
        | some branch => execute fuel (site.after thenBranch) branch
        | none => return .normal
    | .whileLoop condition body => repeatWhile fuel site condition body
    | .breakLoop _ => return .breaking
    | .funDecl function => do
      declareFunction site function
      return .normal
    | .returnValue _ none => return .returning .nil
    | .returnValue _ (some value) => do
      let value ← evaluate fuel site value
      return .returning value
    | .classDecl name methods => do
      declareClass site name methods
      return .normal

def repeatWhile : Nat → Site → Expr → Stmt → Tracing Completion
  | 0, _, _, _ => outOfFuel
  | fuel + 1, site, condition, body => do
    let value ← evaluate fuel site condition
    if value.isTruthy then
      match ← execute fuel site.inLoop body with
      | .normal => repeatWhile fuel site condition body
      | .breaking => return .normal
      | .returning value => return .returning value
    else return .normal

end

end Tracing

/-! ## Without the record -/

namespace Outcome

variable {α : Type}

/-- How a traced run ends, without its record. -/
def erase : Outcome Stop Traced α → Outcome RuntimeError Machine α
  | .ok a t => .ok a t.machine
  | .error (.failure e) t => .error e t.machine
  | .error .outOfFuel _ => .outOfFuel
  | .outOfFuel => .outOfFuel

end Outcome

/-- Without its record the traced run does what the run does. -/
def Erases {α : Type} (x : Tracing α) (y : Run α) : Prop := ∀ t, (x t).erase = y t.machine

namespace Erases

variable {α β : Type} {x : Tracing α} {y : Run α}

theorem pure (a : α) : Erases (Pure.pure a) (Pure.pure a) := fun _ => rfl

theorem fail (e : RuntimeError) : Erases (Action.fail (.failure e) : Tracing α) (Action.fail e) :=
  fun _ => rfl

theorem outOfFuel : Erases (Tracing.outOfFuel : Tracing α) Action.outOfFuel := fun _ => rfl

theorem bind (h : Erases x y) {f : α → Tracing β} {g : α → Run β} (hf : ∀ a, Erases (f a) (g a)) :
    Erases (x >>= f) (y >>= g) := by
  intro t
  have hx := h t
  cases hxt : x t with
  | ok a t' =>
    rw [hxt] at hx
    rw [Action.bind_of_ok hxt, Action.bind_of_ok hx.symm]
    exact hf a t'
  | error e t' =>
    rw [hxt] at hx
    rw [Action.bind_of_error hxt]
    cases e with
    | failure e => exact (Action.bind_of_error hx.symm).symm
    | outOfFuel => exact (Action.bind_of_outOfFuel hx.symm).symm
  | outOfFuel =>
    rw [hxt] at hx
    rw [Action.bind_of_outOfFuel hxt, Action.bind_of_outOfFuel hx.symm]
    rfl

theorem quietly (y : Run α) : Erases (Tracing.quietly y) y := by
  intro t
  unfold Tracing.quietly
  cases y t.machine <;> rfl

/-- A step that only adds to the record. -/
theorem record (f : Traced → Traced) (hf : ∀ t, (f t).machine = t.machine) (h : Erases x y) :
    Erases (Action.modify f >>= fun _ => x) y := by
  intro t
  rw [← hf t]
  exact h (f t)

/-- A look at the record. -/
theorem look {f : Traced → Tracing α} (h : ∀ t, Erases (f t) y) : Erases (Action.get >>= f) y :=
  fun t => h t t

theorem get {f : Traced → Tracing α} {g : Machine → Run α}
    (h : ∀ t, Erases (f t) (g t.machine)) : Erases (Action.get >>= f) (Action.get >>= g) :=
  fun t => h t t

theorem inFrame (frame : FrameId) (h : Erases x y) :
    Erases (Tracing.inFrame frame x) (Run.inFrame frame y) := by
  intro t
  have hx := h { t with machine := { t.machine with frame } }
  simp only [Tracing.inFrame, Run.inFrame]
  rw [← hx]
  cases x { t with machine := { t.machine with frame } } with
  | ok a t' => rfl
  | error e t' => cases e <;> rfl
  | outOfFuel => rfl

theorem oneDeeper (h : Erases x y) : Erases (Tracing.oneDeeper x) (Run.oneDeeper y) := by
  intro t
  have hx := h { t with machine := { t.machine with depth := t.machine.depth + 1 } }
  simp only [Tracing.oneDeeper, Run.oneDeeper]
  rw [← hx]
  cases x { t with machine := { t.machine with depth := t.machine.depth + 1 } } with
  | ok a t' => rfl
  | error e t' => cases e <;> rfl
  | outOfFuel => rfl

theorem getProperty (o : ObjectId) (name : Identifier) :
    Erases (Tracing.getProperty o name) (Run.getProperty o name) := by
  refine look fun t => ?_
  split
  · exact record _ (fun _ => rfl) (quietly _)
  · exact quietly _

section
variable {evaluate : Expr → Tracing Value} {evaluate' : Expr → Run Value}
  {execute : Site → Stmt → Tracing Completion} {execute' : Stmt → Run Completion}

theorem inOrder (h : ∀ e, Erases (evaluate e) (evaluate' e)) (es : List Expr) :
    Erases (Tracing.inOrder evaluate es) (Running.inOrder evaluate' es) := by
  induction es with
  | nil => exact pure _
  | cons e rest ih => exact (h e).bind fun _ => ih.bind fun _ => pure _

theorem inSequence (h : ∀ site s, Erases (execute site s) (execute' s)) (site : Site)
    (body : List Stmt) :
    Erases (Tracing.inSequence execute site body) (Running.inSequence execute' body) := by
  induction body generalizing site with
  | nil => exact pure _
  | cons s rest ih =>
    refine (h site s).bind fun completion => ?_
    cases completion with
    | normal => exact ih _
    | breaking => exact pure _
    | returning value => exact pure _

variable (h : ∀ site s, Erases (execute site s) (execute' s))
include h

theorem callClosure (f : Closure) (arguments : List Value) :
    Erases (Tracing.callClosure execute f arguments) (Running.callClosure execute' f arguments) :=
  look fun _ => (quietly _).bind fun frame =>
    (inFrame frame (inSequence h _ _)).bind fun _ => quietly _

theorem construct (c : Class) (arguments : List Value) :
    Erases (Tracing.construct execute c arguments) (Running.construct execute' c arguments) := by
  refine (quietly _).bind fun o => ?_
  cases c.initializer? with
  | none => exact pure _
  | some init =>
    exact look fun _ => record _ (fun _ => rfl) <|
      (quietly _).bind fun bound => (callClosure h bound arguments).bind fun _ => pure _

theorem apply (callee : Value) (arguments : List Value) :
    Erases (Tracing.apply execute callee arguments) (Running.apply execute' callee arguments) := by
  cases callee with
  | native f => exact quietly _
  | function f => exact callClosure h f arguments
  | ofClass c => exact construct h c arguments
  | _ => exact pure _

theorem call (callee : Value) (arguments : List Value) (line : Nat) :
    Erases (Tracing.call execute callee arguments line)
      (Running.call execute' callee arguments line) := by
  unfold Tracing.call Running.call
  cases callee.arity? with
  | none => exact fail _
  | some arity =>
    dsimp only
    split
    · exact fail _
    · refine get fun t => ?_
      split
      · exact fail _
      · exact oneDeeper (apply h callee arguments)

end

theorem declareFunction (site : Site) (f : FunctionDecl) :
    Erases (Tracing.declareFunction site f) (do
      let m ← Action.get
      let closure ← Run.make (·.newClosure f m.frame false)
      Run.define f.name.name (.function closure)) :=
  record _ (fun _ => rfl) (quietly _)

theorem declareClass (site : Site) (name : Identifier) (methods : List FunctionDecl) :
    Erases (Tracing.declareClass site name methods) (Running.declareClass name methods) :=
  record _ (fun _ => rfl) (quietly _)

end Erases

namespace Tracing

/-- Tracing changes nothing, on every fuel. -/
theorem erases (fuel : Nat) :
    (∀ site e, Erases (evaluate fuel site e) (Running.evaluate fuel e)) ∧
    (∀ site s, Erases (execute fuel site s) (Running.execute fuel s)) ∧
    (∀ site condition body, Erases (repeatWhile fuel site condition body)
      (Running.repeatWhile fuel condition body)) := by
  induction fuel with
  | zero => exact ⟨fun _ _ => .outOfFuel, fun _ _ => .outOfFuel, fun _ _ _ => .outOfFuel⟩
  | succ fuel ih =>
    obtain ⟨hevaluate, hexecute, hrepeat⟩ := ih
    refine ⟨fun site e => ?_, fun site s => ?_, fun site condition body => ?_⟩
    · unfold evaluate Running.evaluate
      refine .record _ (fun _ => rfl) ?_
      cases e with
      | literal value => exact .pure _
      | grouping inner => exact hevaluate _ _
      | «variable» id name => exact .quietly _
      | this id line => exact .quietly _
      | assign id name value =>
        exact (hevaluate _ _).bind fun _ => .record _ (fun _ => rfl)
          ((Erases.quietly _).bind fun _ => .pure _)
      | unary op line operand => exact (hevaluate _ _).bind fun _ => .quietly _
      | binary op line left right =>
        exact (hevaluate _ _).bind fun _ => (hevaluate _ _).bind fun _ => .quietly _
      | logical op left right =>
        refine (hevaluate _ _).bind fun value => ?_
        split
        · exact .pure _
        · exact hevaluate _ _
      | call callee line arguments =>
        exact (hevaluate _ _).bind fun _ => (Erases.inOrder (hevaluate site) _).bind fun _ =>
          .call hexecute _ _ _
      | get object name =>
        refine (hevaluate _ _).bind fun value => ?_
        cases value with
        | object o => exact .getProperty o name
        | _ => exact .fail _
      | set object name value =>
        refine (hevaluate _ _).bind fun target => ?_
        cases target with
        | object o => exact (hevaluate _ _).bind fun _ => (Erases.quietly _).bind fun _ => .pure _
        | _ => exact .fail _
    · unfold execute Running.execute
      cases s with
      | expression expr => exact (hevaluate _ _).bind fun _ => .pure _
      | print expr => exact (hevaluate _ _).bind fun _ => (Erases.quietly _).bind fun _ => .pure _
      | varDecl name initializer =>
        exact (hevaluate _ _).bind fun _ => (Erases.quietly _).bind fun _ => .pure _
      | block body =>
        exact .get fun t => (Erases.quietly _).bind fun frame =>
          .inFrame frame (.inSequence hexecute _ _)
      | ifElse condition thenBranch elseBranch =>
        refine (hevaluate _ _).bind fun value => ?_
        split
        · exact hexecute _ _
        · cases elseBranch with
          | none => exact .pure _
          | some branch => exact hexecute _ _
      | whileLoop condition body => exact hrepeat _ _ _
      | breakLoop line => exact .pure _
      | funDecl f => exact (Erases.declareFunction site f).bind fun _ => .pure _
      | returnValue line value =>
        cases value with
        | none => exact .pure _
        | some value => exact (hevaluate _ _).bind fun _ => .pure _
      | classDecl name methods => exact (Erases.declareClass site name methods).bind fun _ => .pure _
    · unfold repeatWhile Running.repeatWhile
      refine (hevaluate _ _).bind fun value => ?_
      split
      · refine (hexecute _ _).bind fun completion => ?_
        cases completion with
        | normal => exact hrepeat _ _ _
        | breaking => exact .pure _
        | returning value => exact .pure _
      · exact .pure _

theorem evaluate_erases (fuel : Nat) (site : Site) (e : Expr) :
    Erases (evaluate fuel site e) (Running.evaluate fuel e) := (erases fuel).1 site e

theorem execute_erases (fuel : Nat) (site : Site) (s : Stmt) :
    Erases (execute fuel site s) (Running.execute fuel s) := (erases fuel).2.1 site s

end Tracing

end LoxLang
