import LoxLang.Proofs.Running.Restoration

/-!
# Runs as plans

A plan is a run written down: pieces, and how they are put together. It can be performed, and what
then happens can be told in order, also of a run that fails or whose fuel runs out. How a value is
printed is left open.

* `Mark`, `Event`: what can be told of a run;
* `Plan.perform`, `Plan.tell`: a plan as a run, and what happens in it;
* `Plan.evaluate`, `Plan.execute`: plans for expressions and statements, clause by clause as
  `Running.evaluate` and `Running.execute`;
* `evaluate_performs`, `execute_performs`: performed with `Run.printLine` they are these runs;
* `Session.runWith`, `Session.answerWith`, `Session.story`: programs and other requests in a
  session, and what happens on them;
* `answer_run_accepted`, `answer_evaluate_accepted`: the machine that an answer leaves.
-/

namespace LoxLang

/-- A point that a run passes. -/
inductive Mark
  /-- An expression is entered. -/
  | expression (e : Expr)
  /-- A statement begins. -/
  | statement (s : Stmt)
  /-- The method of this name has been bound to an object, as this function. -/
  | binds (o : ObjectId) (name : String) (f : Closure)

def Mark.isBinding : Mark → Bool
  | binds .. => true
  | _ => false

inductive Event
  | passes (mark : Mark) (m : Machine)
  /-- A value is about to be printed. -/
  | prints (value : Value) (m : Machine)
  /-- A call that began on the one machine has given a result and left the other. -/
  | calls (callee : Value) (m : Machine) (result : Value) (m' : Machine)

/-- How a value is printed. -/
abbrev Printer : Type := Value → Run Unit

inductive Plan : Type → Type 1
  /-- A step that changes the store only. -/
  | step {α : Type} (f : DistanceTable → FrameId → Store → Except RuntimeError (α × Store)) : Plan α
  | print (value : Value) : Plan Unit
  | native (f : Native) (arguments : List Value) : Plan Value
  | outOfFuel {α : Type} : Plan α
  | bind {α β : Type} (x : Plan α) (f : α → Plan β) : Plan β
  | inFrame {α : Type} (frame : FrameId) (x : Plan α) : Plan α
  | ifRoom {α : Type} (line : Nat) (x : Plan α) : Plan α
  | note (mark : Mark) : Plan Unit
  /-- A call of this value, to be told when it has given a result. -/
  | called (callee : Value) (x : Plan Value) : Plan Value

namespace Plan

variable {α β : Type}

instance : Monad Plan where
  pure a := step fun _ _ s => .ok (a, s)
  bind := bind

def fail (e : RuntimeError) : Plan α := step fun _ _ _ => .error e

def ofExcept (x : Except RuntimeError α) : Plan α := step fun _ _ s => x.map (·, s)

/-- A step that cannot fail. -/
def make (f : FrameId → Store → α × Store) : Plan α := step fun _ frame s => .ok (f frame s)

def perform (print : Printer) {α : Type} : Plan α → Run α
  | step f, m => Run.onStore f m
  | .print value, m => print value m
  | native f arguments, m => Running.callNative f arguments m
  | outOfFuel, _ => .outOfFuel
  | bind x f, m => (x.perform print >>= fun a => (f a).perform print) m
  | inFrame frame x, m => Run.inFrame frame (x.perform print) m
  | ifRoom line x, m => Run.ifRoom line (x.perform print) m
  | note _, m => .ok () m
  | called _ x, m => x.perform print m

/-- What is told of the rest of a plan, if there is a value to go on with. -/
def onward (o : Outcome RuntimeError Machine α) (tell : α → Machine → List Event) : List Event :=
  match o with
  | .ok a m => tell a m
  | _ => []

@[simp] theorem onward_ok (a : α) (m : Machine) (tell : α → Machine → List Event) :
    onward (.ok a m) tell = tell a m := rfl

@[simp] theorem onward_error (e : RuntimeError) (m : Machine) (tell : α → Machine → List Event) :
    onward (.error e m) tell = [] := rfl

@[simp] theorem onward_outOfFuel (tell : α → Machine → List Event) :
    onward .outOfFuel tell = [] := rfl

/-- What happens when the plan is performed, in order. -/
def tell (print : Printer) {α : Type} : Plan α → Machine → List Event
  | step _, _ | native _ _, _ | outOfFuel, _ => []
  | .print value, m => [.prints value m]
  | bind x f, m => x.tell print m ++ onward (x.perform print m) fun a => (f a).tell print
  | inFrame frame x, m => x.tell print { m with frame }
  | ifRoom _ x, m =>
    if m.maxDepth ≤ m.depth then [] else x.tell print { m with depth := m.depth + 1 }
  | note mark, m => [.passes mark m]
  | called callee x, m =>
    x.tell print m ++ onward (x.perform print m) fun result m' => [.calls callee m result m']

theorem map_eq_ok {ε γ δ : Type} {x : Except ε γ} {f : γ → δ} {b : δ} (h : x.map f = .ok b) :
    ∃ a, x = .ok a ∧ f a = b := by
  cases x with
  | error e => cases h
  | ok a => exact ⟨a, rfl, Except.ok.inj h⟩

/-! ## Plans for the clauses -/

def lookUp (id : NodeId) (name : String) (line : Nat) : Plan Value :=
  step fun distances frame s => (Run.found id name line distances frame s).map (·, s)

def assign (id : NodeId) (name : Identifier) (value : Value) : Plan Unit :=
  step fun distances frame s =>
    (Run.target id name distances frame s).map fun f => ((), s.define f name.name value)

def define (name : String) (value : Value) : Plan Unit :=
  make fun frame s => ((), s.define frame name value)

def bindMethod (method : Closure) (o : ObjectId) (name : String) : Plan Closure := do
  let bound ← make fun _ s => s.bindMethod method o
  note (.binds o name bound)
  return bound

def getProperty (o : ObjectId) (name : Identifier) : Plan Value := do
  match ← step fun _ _ s => (s.property o name).map (·, s) with
  | .field value => return value
  | .method f => return .function (← bindMethod f o name.name)

def inOrder (evaluate : Expr → Plan Value) : List Expr → Plan (List Value)
  | [] => pure []
  | e :: rest => do
    let first ← evaluate e
    let others ← inOrder evaluate rest
    return first :: others

def inSequence (execute : Stmt → Plan Completion) : List Stmt → Plan Completion
  | [] => pure .normal
  | s :: rest => do
    match ← execute s with
    | .normal => inSequence execute rest
    | completion => return completion

def callClosure (execute : Stmt → Plan Completion) (f : Closure) (arguments : List Value) :
    Plan Value := do
  let frame ← make fun _ s =>
    s.newFrame (some f.frame) (Running.argumentBindings f.declaration.params arguments)
  let completion ← inFrame frame (inSequence execute f.declaration.body)
  if f.isInitializer then step fun _ _ s => (s.getAt f.frame 0 "this").map (·, s)
  else
    match completion with
    | .returning value => return value
    | _ => return .nil

def construct (execute : Stmt → Plan Completion) (c : Class) (arguments : List Value) :
    Plan Value := do
  let o ← make fun _ s => s.newObject c
  match c.initializer? with
  | none => return .object o
  | some init =>
    let bound ← bindMethod init o "init"
    let _ ← called (.function bound) (callClosure execute bound arguments)
    return .object o

def apply (execute : Stmt → Plan Completion) (callee : Value) (arguments : List Value) :
    Plan Value :=
  called callee <|
    match callee with
    | .native f => native f arguments
    | .function f => callClosure execute f arguments
    | .ofClass c => construct execute c arguments
    | _ => return .nil

def call (execute : Stmt → Plan Completion) (callee : Value) (arguments : List Value)
    (line : Nat) : Plan Value :=
  match callee.arity? with
  | none => fail (.notCallable line)
  | some arity =>
    if arguments.length ≠ arity then fail (.arityMismatch arity arguments.length line)
    else ifRoom line (apply execute callee arguments)

def declareFunction (f : FunctionDecl) : Plan Unit := do
  let closure ← make fun frame s => s.newClosure f frame false
  define f.name.name (.function closure)

def declareClass (name : Identifier) (methods : List FunctionDecl) : Plan Unit := do
  define name.name .nil
  let c ← make fun frame s => s.newClass name.name methods frame
  step fun _ frame s => (s.assignee frame name.name name.line).map fun f =>
    ((), s.define f name.name (.ofClass c))

mutual

def evaluate : Nat → Expr → Plan Value
  | 0, _ => outOfFuel
  | fuel + 1, e => do
    note (.expression e)
    match e with
    | .literal value => return value.value
    | .grouping inner => evaluate fuel inner
    | .variable id name => lookUp id name.name name.line
    | .this id line => lookUp id "this" line
    | .assign id name value =>
      let value ← evaluate fuel value
      assign id name value
      return value
    | .unary op line operand =>
      let operand ← evaluate fuel operand
      ofExcept (op.apply line operand)
    | .binary op line left right =>
      let left ← evaluate fuel left
      let right ← evaluate fuel right
      ofExcept (op.apply line left right)
    | .logical op left right =>
      let left ← evaluate fuel left
      if op.decidedBy left then return left else evaluate fuel right
    | .call callee line arguments =>
      let callee ← evaluate fuel callee
      let arguments ← inOrder (evaluate fuel) arguments
      call (execute fuel) callee arguments line
    | .get object name =>
      match ← evaluate fuel object with
      | .object o => getProperty o name
      | _ => fail (.notAnObject name.line)
    | .set object name value =>
      match ← evaluate fuel object with
      | .object o =>
        let value ← evaluate fuel value
        make fun _ s => ((), s.setField o name.name value)
        return value
      | _ => fail (.notAnObject name.line)

def execute : Nat → Stmt → Plan Completion
  | 0, _ => outOfFuel
  | fuel + 1, s => do
    note (.statement s)
    match s with
    | .expression expr =>
      let _ ← evaluate fuel expr
      return .normal
    | .print expr =>
      let value ← evaluate fuel expr
      print value
      return .normal
    | .varDecl name initializer =>
      let value ← evaluate fuel initializer
      define name.name value
      return .normal
    | .block body =>
      let frame ← make fun frame s => s.newFrame (some frame) []
      inFrame frame (inSequence (execute fuel) body)
    | .ifElse condition thenBranch elseBranch =>
      let value ← evaluate fuel condition
      if value.isTruthy then execute fuel thenBranch
      else
        match elseBranch with
        | some branch => execute fuel branch
        | none => return .normal
    | .whileLoop condition body => repeatWhile fuel condition body
    | .breakLoop _ => return .breaking
    | .funDecl function =>
      declareFunction function
      return .normal
    | .returnValue _ none => return .returning .nil
    | .returnValue _ (some value) =>
      let value ← evaluate fuel value
      return .returning value
    | .classDecl name methods =>
      declareClass name methods
      return .normal

def repeatWhile : Nat → Expr → Stmt → Plan Completion
  | 0, _, _ => outOfFuel
  | fuel + 1, condition, body => do
    let value ← evaluate fuel condition
    if value.isTruthy then
      match ← execute fuel body with
      | .normal => repeatWhile fuel condition body
      | .breaking => return .normal
      | .returning value => return .returning value
    else return .normal

end

/-- The statements of a program. What they complete with does not matter. -/
def inTurn (execute : Stmt → Plan Completion) : List Stmt → Plan Unit
  | [] => pure ()
  | s :: rest => do
    let _ ← execute s
    inTurn execute rest

def program (fuel : Nat) (p : Program) : Plan Unit := inTurn (execute fuel) p

/-! ## Performed plans -/

open Running

/-- Performed with `Run.printLine`, the plan is this run. -/
def Performs (x : Plan α) (y : Run α) : Prop := x.perform Run.printLine = y

namespace Performs

variable {x : Plan α} {y : Run α} {f : α → Plan β} {g : α → Run β}

theorem pure (a : α) : Performs (Pure.pure a) (Pure.pure a) := rfl

theorem fail (e : RuntimeError) : Performs (Plan.fail e : Plan α) (Action.fail e) := rfl

theorem ofExcept (e : Except RuntimeError α) : Performs (.ofExcept e) (Action.ofExcept e) :=
  (Run.ofExcept_eq e).symm

theorem bind (hx : Performs x y) (hf : ∀ a, Performs (f a) (g a)) :
    Performs (x >>= f) (y >>= g) := by
  have hperform : (x >>= f).perform Run.printLine
      = x.perform Run.printLine >>= fun a => (f a).perform Run.printLine := rfl
  unfold Performs at *
  rw [hperform, hx]
  exact congrArg (y >>= ·) (funext hf)

/-- What is told makes no difference to the run. -/
theorem noted (mark : Mark) (hx : Performs x y) : Performs (note mark >>= fun _ => x) y := hx

theorem inFrame (frame : FrameId) (hx : Performs x y) :
    Performs (.inFrame frame x) (Run.inFrame frame y) := congrArg (Run.inFrame frame) hx

theorem inOrder {evaluate : Expr → Plan Value} {evaluate' : Expr → Run Value}
    (he : ∀ e, Performs (evaluate e) (evaluate' e)) (es : List Expr) :
    Performs (inOrder evaluate es) (Running.inOrder evaluate' es) := by
  induction es with
  | nil => exact .pure _
  | cons e rest ih => exact (he e).bind fun _ => ih.bind fun _ => .pure _

theorem getProperty (o : ObjectId) (name : Identifier) :
    Performs (getProperty o name) (Run.getProperty o name) := by
  funext m
  change (Run.onStore _ >>= _) m = _
  unfold Run.getProperty
  cases hproperty : m.store.property o name with
  | error e =>
    have hstep : Run.onStore (fun _ _ s => (s.property o name).map (·, s)) m = .error e m := by
      simp only [Run.onStore, hproperty]
      rfl
    exact Action.bind_of_error hstep
  | ok p =>
    have hstep : Run.onStore (fun _ _ s => (s.property o name).map (·, s)) m = .ok p m := by
      simp only [Run.onStore, hproperty]
      rfl
    refine (Action.bind_of_ok hstep).trans ?_
    cases p <;> rfl

section
variable {execute : Stmt → Plan Completion} {execute' : Stmt → Run Completion}
  (hs : ∀ s, Performs (execute s) (execute' s))
include hs

theorem inSequence (body : List Stmt) :
    Performs (inSequence execute body) (Running.inSequence execute' body) := by
  induction body with
  | nil => exact .pure _
  | cons s rest ih =>
    refine (hs s).bind fun completion => ?_
    cases completion with
    | normal => exact ih
    | _ => exact .pure _

theorem callClosure (f : Closure) (arguments : List Value) :
    Performs (callClosure execute f arguments) (Running.callClosure execute' f arguments) := by
  rw [callClosure_eq]
  refine bind rfl fun frame => bind (inFrame frame (inSequence hs _)) fun completion => ?_
  split
  · rfl
  · cases completion <;> exact .pure _

theorem construct (c : Class) (arguments : List Value) :
    Performs (construct execute c arguments) (Running.construct execute' c arguments) := by
  refine bind rfl fun o => ?_
  cases c.initializer? with
  | none => exact .pure _
  | some init => exact bind rfl fun bound => bind (callClosure hs bound arguments) fun _ => .pure _

theorem apply (callee : Value) (arguments : List Value) :
    Performs (apply execute callee arguments) (Running.apply execute' callee arguments) := by
  cases callee with
  | function f => exact callClosure hs f arguments
  | ofClass c => exact construct hs c arguments
  | _ => rfl

theorem call (callee : Value) (arguments : List Value) (line : Nat) :
    Performs (call execute callee arguments line)
      (Running.call execute' callee arguments line) := by
  rw [call_eq]
  unfold Plan.call
  cases callee.arity? with
  | none => exact .fail _
  | some arity =>
    dsimp only
    split
    · exact .fail _
    · exact congrArg (Run.ifRoom line) (apply hs callee arguments)

end

end Performs

/-- The plans for expressions, statements and loops are plans for their runs. -/
structure ForRuns (fuel : Nat) : Prop where
  evaluate (e : Expr) : Performs (evaluate fuel e) (Running.evaluate fuel e)
  execute (s : Stmt) : Performs (execute fuel s) (Running.execute fuel s)
  repeatWhile (condition : Expr) (body : Stmt) :
    Performs (repeatWhile fuel condition body) (Running.repeatWhile fuel condition body)

namespace ForRuns

variable {fuel : Nat} (h : ForRuns fuel)
include h

theorem evaluate_step (e : Expr) :
    Performs (Plan.evaluate (fuel + 1) e) (Running.evaluate (fuel + 1) e) := by
  unfold Plan.evaluate Running.evaluate
  refine .noted _ ?_
  cases e with
  | literal value => exact .pure _
  | grouping inner => exact h.evaluate inner
  | «variable» id name => exact (Run.lookUp_eq id _ _).symm
  | this id line => exact (Run.lookUp_eq id _ _).symm
  | assign id name value =>
    exact (h.evaluate value).bind fun v => .bind (Run.assign_eq id name v).symm fun _ => .pure _
  | unary op line operand => exact (h.evaluate operand).bind fun _ => .ofExcept _
  | binary op line left right =>
    exact (h.evaluate left).bind fun _ => (h.evaluate right).bind fun _ => .ofExcept _
  | logical op left right =>
    refine (h.evaluate left).bind fun v => ?_
    split
    · exact .pure _
    · exact h.evaluate right
  | call callee line arguments =>
    exact (h.evaluate callee).bind fun _ => (Performs.inOrder h.evaluate arguments).bind fun _ =>
      .call h.execute _ _ _
  | get object name =>
    refine (h.evaluate object).bind fun v => ?_
    cases v with
    | object o => exact .getProperty o name
    | _ => exact .fail _
  | set object name value =>
    refine (h.evaluate object).bind fun v => ?_
    cases v with
    | object o =>
      exact (h.evaluate value).bind fun v => .bind rfl fun _ => .pure _
    | _ => exact .fail _

theorem execute_step (s : Stmt) :
    Performs (Plan.execute (fuel + 1) s) (Running.execute (fuel + 1) s) := by
  unfold Plan.execute Running.execute
  refine .noted _ ?_
  cases s with
  | expression expr => exact (h.evaluate expr).bind fun _ => .pure _
  | print expr => exact (h.evaluate expr).bind fun v => .bind rfl fun _ => .pure _
  | varDecl name initializer =>
    exact (h.evaluate initializer).bind fun v => .bind rfl fun _ => .pure _
  | block body => exact .bind rfl fun frame => .inFrame frame (.inSequence h.execute body)
  | ifElse condition thenBranch elseBranch =>
    refine (h.evaluate condition).bind fun v => ?_
    split
    · exact h.execute thenBranch
    · cases elseBranch with
      | none => exact .pure _
      | some branch => exact h.execute branch
  | whileLoop condition body => exact h.repeatWhile condition body
  | breakLoop line => exact .pure _
  | funDecl function => rfl
  | returnValue line value =>
    cases value with
    | none => exact .pure _
    | some value => exact (h.evaluate value).bind fun _ => .pure _
  | classDecl name methods =>
    dsimp only
    rw [declareClass_eq]
    rfl

theorem repeatWhile_step (condition : Expr) (body : Stmt) :
    Performs (Plan.repeatWhile (fuel + 1) condition body)
      (Running.repeatWhile (fuel + 1) condition body) := by
  unfold Plan.repeatWhile Running.repeatWhile
  refine (h.evaluate condition).bind fun v => ?_
  split
  · refine (h.execute body).bind fun completion => ?_
    cases completion with
    | normal => exact h.repeatWhile condition body
    | _ => exact .pure _
  · exact .pure _

end ForRuns

theorem forRuns (fuel : Nat) : ForRuns fuel := by
  induction fuel with
  | zero => exact ⟨fun _ => rfl, fun _ => rfl, fun _ _ => rfl⟩
  | succ fuel ih => exact ⟨ih.evaluate_step, ih.execute_step, ih.repeatWhile_step⟩

/-- The plan of an expression is a plan for its run. -/
theorem evaluate_performs (fuel : Nat) (e : Expr) :
    (evaluate fuel e).perform Run.printLine = Running.evaluate fuel e := (forRuns fuel).evaluate e

theorem execute_performs (fuel : Nat) (s : Stmt) :
    (execute fuel s).perform Run.printLine = Running.execute fuel s := (forRuns fuel).execute s

/-! ## Programs -/

/-- A flush follows on the statements of a program. A failure brings the machine back into the
global scope. -/
def finish : Outcome RuntimeError Machine Unit → Outcome RuntimeError Machine Unit
  | .ok _ m => Run.flush m
  | .error e m => .error e m.reset
  | .outOfFuel => .outOfFuel

/-- Runs a program with its distances. -/
def runProgram (print : Printer) (fuel : Nat) (p : Program) (d : Distances) : Run Unit := fun m =>
  finish ((program fuel p).perform print (m.extend d))

/-- The statements of a program one after the other, as their plan is performed. -/
theorem runStatements_apply (fuel : Nat) (p : Program) (m : Machine) :
    runStatements fuel p m =
      match (program fuel p).perform Run.printLine m with
      | .ok u m' => .ok u m'
      | .error e m' => .error e m'.reset
      | .outOfFuel => .outOfFuel := by
  induction p generalizing m with
  | nil => rfl
  | cons s rest ih =>
    have hperform : (program fuel (s :: rest)).perform Run.printLine
        = Running.execute fuel s >>= fun _ => (program fuel rest).perform Run.printLine :=
      Performs.bind (execute_performs fuel s) fun _ => rfl
    rw [hperform]
    unfold runStatements
    cases hs : Running.execute fuel s m with
    | ok c m₁ =>
      rw [Action.bind_of_ok hs]
      exact ih m₁
    | error e m₁ => rw [Action.bind_of_error hs]
    | outOfFuel => rw [Action.bind_of_outOfFuel hs]

theorem state?_finish {o : Outcome RuntimeError Machine Unit} {m : Machine}
    (h : (finish o).state? = some m) : ∃ m', o.state? = some m' ∧ (m = m' ∨ m = m'.reset) := by
  cases o with
  | ok u m' =>
    rw [finish, state?_flush] at h
    cases h
    exact ⟨m, rfl, .inl rfl⟩
  | error e m' =>
    cases h
    exact ⟨m', rfl, .inr rfl⟩
  | outOfFuel => cases h

theorem runProgram_printLine (fuel : Nat) (p : Program) (d : Distances) :
    runProgram Run.printLine fuel p d = Running.runProgram fuel p d := by
  funext m
  rw [runProgram_apply]
  unfold runProgram runToEnd
  have happly := runStatements_apply fuel p (m.extend d)
  cases hp : (program fuel p).perform Run.printLine (m.extend d) with
  | ok u m₁ =>
    rw [hp] at happly
    rw [Action.bind_of_ok happly, finish]
  | error e m₁ =>
    rw [hp] at happly
    rw [Action.bind_of_error happly, finish]
  | outOfFuel =>
    rw [hp] at happly
    rw [Action.bind_of_outOfFuel happly, finish]

/-- What a run has if its pieces have it, every performed plan has. -/
theorem respected {R : ∀ ⦃α : Type⦄, Run α → Run α → Prop} (h : Respects R) {p : Printer}
    (hp : ∀ v, R (p v) (p v)) (hfuel : ∀ α, R (Action.outOfFuel : Run α) Action.outOfFuel)
    (x : Plan α) : R (x.perform p) (x.perform p) := by
  induction x with
  | step f => exact h.onStore f
  | print value => exact hp value
  | native f arguments => exact h.callNative f arguments
  | outOfFuel => exact hfuel _
  | bind x f ihx ihf => exact h.bind ihx ihf
  | inFrame frame x ih => exact h.inFrame frame ih
  | ifRoom line x ih => exact h.ifRoom line ih
  | note mark => exact h.pure ()
  | called callee x ih => exact ih

end Plan

namespace Session

/-- Runs a program with this printer. -/
def runWith (print : Printer) (fuel : Nat) (source : String) (s : Session) :
    Option (Except (List Problem) Unit × Session) :=
  match checkSource source s.nextId with
  | (.error problems, nextId) => some (.error problems, { s with nextId })
  | (.ok checked, nextId) =>
    { s with nextId }.perform (Plan.runProgram print fuel checked.program checked.distances)

theorem runWith_printLine (s : Session) (fuel : Nat) (source : String) :
    s.runWith Run.printLine fuel source = s.run fuel source := by
  unfold runWith run
  cases checkSource source s.nextId with
  | mk answer next =>
    cases answer with
    | error problems => rfl
    | ok checked =>
      exact congrArg (perform _) (Plan.runProgram_printLine fuel checked.program checked.distances)

theorem runWith_of_accepted (print : Printer) {source : String} {s : Session} {checked : Checked}
    {next : NodeId} (h : checkSource source s.nextId = (.ok checked, next)) (fuel : Nat) :
    s.runWith print fuel source = { s with nextId := next }.perform
      (Plan.runProgram print fuel checked.program checked.distances) := by
  rw [runWith, h]

/-- What a request gives with this printer, and the session after it. -/
def answerWith (print : Printer) (fuel : Nat) (request : Request) (s : Session) :
    Option (Except (List Problem) (Option Value) × Session) :=
  match request with
  | .run source => (s.runWith print fuel source).map fun r => (r.1.map fun _ => none, r.2)
  | .evaluate source =>
    match parseExpressionSource source s.nextId with
    | (.error problems, nextId) => some (.error problems, { s with nextId })
    | (.ok e, nextId) =>
      (Session.perform { s with nextId } ((Plan.evaluate fuel e).perform print)).map fun r =>
        (r.1.map some, r.2)

theorem answerWith_printLine (s : Session) (fuel : Nat) (request : Request) :
    s.answerWith Run.printLine fuel request = s.answer fuel request := by
  cases request with
  | run source => rw [answerWith, runWith_printLine, answer]
  | evaluate source =>
    unfold answerWith answer evaluate
    dsimp only
    cases parseExpressionSource source s.nextId with
    | mk answer next =>
      cases answer with
      | error problems => rfl
      | ok e =>
        dsimp only
        rw [Plan.evaluate_performs]

/-- What happens on a request, in order. -/
def story (print : Printer) (fuel : Nat) (s : Session) : Request → List Event
  | .run source =>
    match checkSource source s.nextId with
    | (.error _, _) => []
    | (.ok checked, _) =>
      (Plan.program fuel checked.program).tell print (s.machine.extend checked.distances)
  | .evaluate source =>
    match parseExpressionSource source s.nextId with
    | (.error _, _) => []
    | (.ok e, _) => (Plan.evaluate fuel e).tell print s.machine

theorem story_of_accepted (print : Printer) {source : String} {s : Session} {checked : Checked}
    {next : NodeId} (h : checkSource source s.nextId = (.ok checked, next)) (fuel : Nat) :
    s.story print fuel (.run source) = (Plan.program fuel checked.program).tell print
      (s.machine.extend checked.distances) := by
  simp only [story, h]

/-! ## What an answer leaves -/

variable {fuel : Nat} {source : String} {s : Session} {r : Reply × Session}

theorem answer_run_refused {problems : List Problem} {next : NodeId}
    (h : checkSource source s.nextId = (.error problems, next))
    (hr : s.answer fuel (.run source) = some r) : r.2.machine = s.machine := by
  obtain ⟨r', hr', rfl⟩ := Option.map_eq_some_iff.mp hr
  rw [run, h] at hr'
  cases hr'
  rfl

/-- The machine that the plan of the program leaves, perhaps back in the global scope. -/
theorem answer_run_accepted {checked : Checked} {next : NodeId}
    (h : checkSource source s.nextId = (.ok checked, next))
    (hr : s.answer fuel (.run source) = some r) :
    ∃ m', ((Plan.program fuel checked.program).perform Run.printLine
        (s.machine.extend checked.distances)).state? = some m' ∧
      (r.2.machine = m' ∨ r.2.machine = m'.reset) := by
  obtain ⟨r', hr', rfl⟩ := Option.map_eq_some_iff.mp hr
  rw [← runWith_printLine, runWith_of_accepted _ h] at hr'
  exact Plan.state?_finish (perform_eq_some hr').1

theorem answer_evaluate_refused {problems : List Problem} {next : NodeId}
    (h : parseExpressionSource source s.nextId = (.error problems, next))
    (hr : s.answer fuel (.evaluate source) = some r) : r.2.machine = s.machine := by
  obtain ⟨r', hr', rfl⟩ := Option.map_eq_some_iff.mp hr
  rw [evaluate, h] at hr'
  cases hr'
  rfl

theorem answer_evaluate_accepted {e : Expr} {next : NodeId}
    (h : parseExpressionSource source s.nextId = (.ok e, next))
    (hr : s.answer fuel (.evaluate source) = some r) :
    ((Plan.evaluate fuel e).perform Run.printLine s.machine).state? = some r.2.machine := by
  obtain ⟨r', hr', rfl⟩ := Option.map_eq_some_iff.mp hr
  rw [evaluate, h] at hr'
  rw [Plan.evaluate_performs]
  exact (perform_eq_some hr').1

end Session

end LoxLang
