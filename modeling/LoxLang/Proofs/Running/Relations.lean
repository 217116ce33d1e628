import LoxLang.Session

/-!
# Relations between runs

Every run is put together from a few kinds of pieces. A relation between runs that respects how
they are put together therefore holds between any two runs of one expression or statement.

* `Run.onStore`: a step that changes the store only; it looks at the store, the current frame and
  the distances;
* `Run.ifRoom`: one more call in progress, if there is room for it;
* `block_eq`, `call_eq` and the like: what each clause is put together from;
* `Respects`: a relation that holds between pieces, and between what is put together from related
  runs;
* `Respects.runs`: what respects the pieces holds of evaluating and executing.
-/

namespace LoxLang

namespace Outcome

variable {ε σ α : Type}

/-- The state that is left, however an action ends. -/
def state? : Outcome ε σ α → Option σ
  | .ok _ s => some s
  | .error _ s => some s
  | .outOfFuel => none

/-- The same end in another state. -/
def mapState (f : σ → σ) : Outcome ε σ α → Outcome ε σ α
  | .ok a s => .ok a (f s)
  | .error e s => .error e (f s)
  | .outOfFuel => .outOfFuel

@[simp] theorem state?_mapState (f : σ → σ) (o : Outcome ε σ α) :
    (o.mapState f).state? = o.state?.map f := by
  cases o <;> rfl

end Outcome

namespace Run

variable {α : Type}

/-- A step that changes the store only. -/
def onStore (f : DistanceTable → FrameId → Store → Except RuntimeError (α × Store)) : Run α :=
  fun m =>
    match f m.distances m.frame m.store with
    | .ok (a, store) => .ok a { m with store }
    | .error e => .error e m

/-- Runs as one more call in progress, if there is room for one. -/
def ifRoom (line : Nat) (x : Run α) : Run α := fun m =>
  if m.maxDepth ≤ m.depth then .error (.stackOverflow line) m else oneDeeper x m

theorem inFrame_apply (frame : FrameId) (x : Run α) (m : Machine) :
    inFrame frame x m = (x { m with frame }).mapState fun m' => { m' with frame := m.frame } := by
  unfold inFrame
  cases x { m with frame } <;> rfl

theorem oneDeeper_apply (x : Run α) (m : Machine) :
    oneDeeper x m
      = (x { m with depth := m.depth + 1 }).mapState
        fun m' => { m' with depth := m'.depth - 1 } := by
  unfold oneDeeper
  cases x { m with depth := m.depth + 1 } <;> rfl

/-! ## Steps on the store -/

theorem ofExcept_eq (x : Except RuntimeError α) :
    (Action.ofExcept x : Run α) = onStore fun _ _ s => x.map (·, s) := by
  cases x <;> rfl

/-- What a node refers to. -/
def found (id : NodeId) (name : String) (line : Nat) (distances : DistanceTable) (frame : FrameId)
    (s : Store) : Except RuntimeError Value :=
  match distances.of? id with
  | some distance => s.getAt frame distance name
  | none => s.get globals name line

theorem lookUp_eq (id : NodeId) (name : String) (line : Nat) :
    lookUp id name line
      = onStore fun distances frame s => (found id name line distances frame s).map (·, s) := by
  funext m
  unfold lookUp onStore found
  dsimp only
  cases m.distances.of? id with
  | none =>
    dsimp only
    cases m.store.get globals name line <;> rfl
  | some distance =>
    dsimp only
    cases m.store.getAt m.frame distance name <;> rfl

/-- The frame in which an assignment by a node takes place. -/
def target (id : NodeId) (name : Identifier) (distances : DistanceTable) (frame : FrameId)
    (s : Store) : Except RuntimeError FrameId :=
  match distances.of? id with
  | some distance => s.assigneeAt frame distance name.name
  | none => s.assignee globals name.name name.line

theorem assign_eq (id : NodeId) (name : Identifier) (value : Value) :
    assign id name value = onStore fun distances frame s =>
      (target id name distances frame s).map fun f => ((), s.define f name.name value) := by
  funext m
  unfold assign assignIn onStore target
  dsimp only
  cases m.distances.of? id with
  | none =>
    dsimp only
    cases m.store.assignee globals name.name name.line <;> rfl
  | some distance =>
    dsimp only
    cases m.store.assigneeAt m.frame distance name.name <;> rfl

/-- What an object has under a name, with a method bound to the object. -/
def property (o : ObjectId) (name : Identifier) (s : Store) : Except RuntimeError (Value × Store) :=
  (s.property o name).map fun
    | .field value => (value, s)
    | .method f => ((s.bindMethod f o).1 |> .function, (s.bindMethod f o).2)

theorem getProperty_eq (o : ObjectId) (name : Identifier) :
    getProperty o name = onStore fun _ _ s => property o name s := by
  funext m
  simp only [getProperty, onStore, property]
  cases m.store.property o name with
  | ok p => cases p <;> rfl
  | error e => rfl

theorem printLine_eq (value : Value) :
    printLine value =
      onStore (fun _ _ s => .ok (s.display value, s)) >>= fun text =>
        write text >>= fun _ => write "\n" := rfl

end Run

/-- The machine with the distances of one more program. -/
def Machine.extend (m : Machine) (d : Distances) : Machine :=
  { m with distances := m.distances.extend d }

open Run (onStore ifRoom)

namespace Running

variable {execute : Stmt → Run Completion}

theorem declareClass_eq (name : Identifier) (methods : List FunctionDecl) :
    declareClass name methods = (do
      Run.define name.name .nil
      let c ← onStore fun _ frame s => .ok (s.newClass name.name methods frame)
      onStore fun _ frame s => (s.assignee frame name.name name.line).map fun f =>
        ((), s.define f name.name (.ofClass c))) := by
  have hassign : ∀ c, Run.assignIn (fun m => m.store.assignee m.frame name.name name.line)
      name.name (.ofClass c) = onStore fun _ frame s =>
        (s.assignee frame name.name name.line).map fun f =>
          ((), s.define f name.name (.ofClass c)) := by
    intro c
    funext m
    unfold Run.assignIn onStore
    dsimp only
    cases m.store.assignee m.frame name.name name.line <;> rfl
  simp only [declareClass, hassign]
  rfl

theorem callClosure_eq (f : Closure) (arguments : List Value) :
    callClosure execute f arguments = do
      let frame ← onStore fun _ _ s =>
        .ok (s.newFrame (some f.frame) (argumentBindings f.declaration.params arguments))
      let completion ← Run.inFrame frame (inSequence execute f.declaration.body)
      if f.isInitializer then onStore fun _ _ s => (s.getAt f.frame 0 "this").map (·, s)
      else
        match completion with
        | .returning value => return value
        | _ => return .nil := by
  have hthis : (do
      let m ← Action.get
      Action.ofExcept (m.store.getAt f.frame 0 "this") : Run Value)
        = onStore fun _ _ s => (s.getAt f.frame 0 "this").map (·, s) := by
    funext m
    change Action.ofExcept (m.store.getAt f.frame 0 "this") m = _
    rw [Run.ofExcept_eq]
    rfl
  simp only [callClosure, hthis]
  rfl

theorem call_eq (callee : Value) (arguments : List Value) (line : Nat) :
    call execute callee arguments line =
      match callee.arity? with
      | none => Action.fail (.notCallable line)
      | some arity =>
        if arguments.length ≠ arity then
          Action.fail (.arityMismatch arity arguments.length line)
        else ifRoom line (apply execute callee arguments) := by
  have hroom : (do
      let m ← Action.get
      if m.maxDepth ≤ m.depth then Action.fail (.stackOverflow line)
      else Run.oneDeeper (apply execute callee arguments))
        = ifRoom line (apply execute callee arguments) := by
    funext m
    change (if m.maxDepth ≤ m.depth then Action.fail (.stackOverflow line)
      else Run.oneDeeper (apply execute callee arguments) : Run Value) m = _
    unfold ifRoom
    split <;> rfl
  unfold call
  cases callee.arity? with
  | none => rfl
  | some arity =>
    dsimp only
    split
    · rfl
    · exact hroom

theorem block_eq (body : List Stmt) :
    (do
      let m ← Action.get
      let frame ← Run.make (·.newFrame (some m.frame) [])
      Run.inFrame frame (inSequence execute body))
      = (do
        let frame ← onStore fun _ frame s => .ok (s.newFrame (some frame) [])
        Run.inFrame frame (inSequence execute body)) := rfl

theorem declareFunction_eq (f : FunctionDecl) :
    (do
      let m ← Action.get
      let closure ← Run.make (·.newClosure f m.frame false)
      Run.define f.name.name (.function closure)
      return .normal : Run Completion)
      = (do
        let closure ← onStore fun _ frame s => .ok (s.newClosure f frame false)
        Run.define f.name.name (.function closure)
        return .normal) := rfl

/-! ## Programs -/

/-- The statements of a program, and the flush behind them. -/
def runToEnd (fuel : Nat) (p : Program) : Run Unit := runStatements fuel p >>= fun _ => Run.flush

/-- A program runs with its distances beside those of earlier programs. -/
theorem runProgram_apply (fuel : Nat) (p : Program) (d : Distances) (m : Machine) :
    runProgram fuel p d m = runToEnd fuel p (m.extend d) := rfl

theorem state?_flush (m : Machine) : (Run.flush m).state? = some m := by
  unfold Run.flush
  split <;> rfl

/-- The flush leaves the machine as the statements did. -/
theorem state?_runToEnd (fuel : Nat) (p : Program) (m : Machine) :
    (runToEnd fuel p m).state? = (runStatements fuel p m).state? := by
  unfold runToEnd
  cases h : runStatements fuel p m with
  | ok u m₁ =>
    rw [Action.bind_of_ok h, state?_flush]
    rfl
  | error e m₁ => rw [Action.bind_of_error h]
  | outOfFuel => rw [Action.bind_of_outOfFuel h]

end Running

open Running

/-- A relation between runs that holds between the pieces, and between what is put together from
related runs. -/
structure Respects (R : ∀ ⦃α : Type⦄, Run α → Run α → Prop) : Prop where
  onStore {α : Type} (f : DistanceTable → FrameId → Store → Except RuntimeError (α × Store)) :
    R (onStore f) (onStore f)
  write (text : String) : R (Run.write text) (Run.write text)
  callNative (f : Native) (arguments : List Value) :
    R (callNative f arguments) (callNative f arguments)
  bind {α β : Type} {x y : Run α} {f g : α → Run β} :
    R x y → (∀ a, R (f a) (g a)) → R (x >>= f) (y >>= g)
  inFrame {α : Type} {x y : Run α} (frame : FrameId) :
    R x y → R (Run.inFrame frame x) (Run.inFrame frame y)
  ifRoom {α : Type} {x y : Run α} (line : Nat) : R x y → R (ifRoom line x) (ifRoom line y)

namespace Respects

variable {R : ∀ ⦃α : Type⦄, Run α → Run α → Prop} (h : Respects R)

section
include h

theorem pure {α : Type} (a : α) : R (Pure.pure a) (Pure.pure a) :=
  h.onStore fun _ _ s => .ok (a, s)

theorem fail {α : Type} (e : RuntimeError) : R (Action.fail e : Run α) (Action.fail e) :=
  h.onStore fun _ _ _ => .error e

theorem make {α : Type} (f : Store → α × Store) : R (Run.make f) (Run.make f) :=
  h.onStore fun _ _ s => .ok (f s)

theorem modifyStore (f : Store → Store) : R (Run.modifyStore f) (Run.modifyStore f) :=
  h.onStore fun _ _ s => .ok ((), f s)

theorem define (name : String) (value : Value) :
    R (Run.define name value) (Run.define name value) :=
  h.onStore fun _ frame s => .ok ((), s.define frame name value)

theorem printLine (value : Value) : R (Run.printLine value) (Run.printLine value) := by
  rw [Run.printLine_eq]
  exact h.bind (h.onStore _) fun _ => h.bind (h.write _) fun _ => h.write _

theorem lookUp (id : NodeId) (name : String) (line : Nat) :
    R (Run.lookUp id name line) (Run.lookUp id name line) := by
  rw [Run.lookUp_eq]
  exact h.onStore _

theorem ofExcept {α : Type} (x : Except RuntimeError α) :
    R (Action.ofExcept x : Run α) (Action.ofExcept x) := by
  rw [Run.ofExcept_eq]
  exact h.onStore _

theorem inOrder {evaluate evaluate' : Expr → Run Value} (he : ∀ e, R (evaluate e) (evaluate' e))
    (es : List Expr) : R (inOrder evaluate es) (inOrder evaluate' es) := by
  induction es with
  | nil => exact h.pure _
  | cons e rest ih => exact h.bind (he e) fun _ => h.bind ih fun _ => h.pure _

end

section
variable {execute execute' : Stmt → Run Completion} (hs : ∀ s, R (execute s) (execute' s))
include h hs

theorem inSequence (body : List Stmt) : R (inSequence execute body) (inSequence execute' body) := by
  induction body with
  | nil => exact h.pure _
  | cons s rest ih =>
    refine h.bind (hs s) fun completion => ?_
    cases completion with
    | normal => exact ih
    | _ => exact h.pure _

theorem block (body : List Stmt) (frame : FrameId) :
    R (Run.inFrame frame (Running.inSequence execute body))
      (Run.inFrame frame (Running.inSequence execute' body)) :=
  h.inFrame frame (h.inSequence hs body)

theorem callClosure (f : Closure) (arguments : List Value) :
    R (callClosure execute f arguments) (callClosure execute' f arguments) := by
  rw [callClosure_eq, callClosure_eq]
  refine h.bind (h.onStore _) fun frame => h.bind (h.block hs _ frame) fun completion => ?_
  split
  · exact h.onStore _
  · cases completion <;> exact h.pure _

theorem construct (c : Class) (arguments : List Value) :
    R (construct execute c arguments) (construct execute' c arguments) := by
  unfold Running.construct
  refine h.bind (h.make _) fun o => ?_
  cases c.initializer? with
  | none => exact h.pure _
  | some init =>
    exact h.bind (h.make _) fun bound => h.bind (h.callClosure hs bound arguments) fun _ =>
      h.pure _

theorem apply (callee : Value) (arguments : List Value) :
    R (apply execute callee arguments) (apply execute' callee arguments) := by
  cases callee with
  | native f => exact h.callNative f arguments
  | function f => exact h.callClosure hs f arguments
  | ofClass c => exact h.construct hs c arguments
  | _ => exact h.pure _

theorem call (callee : Value) (arguments : List Value) (line : Nat) :
    R (call execute callee arguments line) (call execute' callee arguments line) := by
  rw [call_eq, call_eq]
  cases callee.arity? with
  | none => exact h.fail _
  | some arity =>
    dsimp only
    split
    · exact h.fail _
    · exact h.ifRoom line (h.apply hs callee arguments)

end

section
variable {fuel fuel' : Nat} (he : ∀ e, R (evaluate fuel e) (evaluate fuel' e))
  (hs : ∀ s, R (execute fuel s) (execute fuel' s))
  (hr : ∀ condition body, R (repeatWhile fuel condition body) (repeatWhile fuel' condition body))
include h he hs

theorem evaluate_step (e : Expr) : R (evaluate (fuel + 1) e) (evaluate (fuel' + 1) e) := by
  unfold evaluate
  cases e with
  | literal value => exact h.pure _
  | grouping inner => exact he inner
  | «variable» id name => exact h.lookUp id _ _
  | this id line => exact h.lookUp id _ _
  | assign id name value =>
    refine h.bind (he value) fun v => h.bind ?_ fun _ => h.pure _
    rw [Run.assign_eq]
    exact h.onStore _
  | unary op line operand => exact h.bind (he operand) fun _ => h.ofExcept _
  | binary op line left right =>
    exact h.bind (he left) fun _ => h.bind (he right) fun _ => h.ofExcept _
  | logical op left right =>
    refine h.bind (he left) fun v => ?_
    split
    · exact h.pure _
    · exact he right
  | call callee line arguments =>
    exact h.bind (he callee) fun _ => h.bind (h.inOrder he arguments) fun _ => h.call hs _ _ _
  | get object name =>
    refine h.bind (he object) fun v => ?_
    cases v with
    | object o =>
      dsimp only
      rw [Run.getProperty_eq]
      exact h.onStore _
    | _ => exact h.fail _
  | set object name value =>
    refine h.bind (he object) fun v => ?_
    cases v with
    | object o => exact h.bind (he value) fun _ => h.bind (h.modifyStore _) fun _ => h.pure _
    | _ => exact h.fail _

include hr

theorem execute_step (s : Stmt) : R (execute (fuel + 1) s) (execute (fuel' + 1) s) := by
  unfold execute
  cases s with
  | expression expr => exact h.bind (he expr) fun _ => h.pure _
  | print expr => exact h.bind (he expr) fun _ => h.bind (h.printLine _) fun _ => h.pure _
  | varDecl name initializer =>
    exact h.bind (he initializer) fun _ => h.bind (h.define _ _) fun _ => h.pure _
  | block body =>
    dsimp only
    rw [block_eq, block_eq]
    exact h.bind (h.onStore _) fun frame => h.block hs body frame
  | ifElse condition thenBranch elseBranch =>
    refine h.bind (he condition) fun v => ?_
    split
    · exact hs thenBranch
    · cases elseBranch with
      | none => exact h.pure _
      | some branch => exact hs branch
  | whileLoop condition body => exact hr condition body
  | breakLoop line => exact h.pure _
  | funDecl function =>
    dsimp only
    rw [declareFunction_eq]
    exact h.bind (h.onStore _) fun _ => h.bind (h.define _ _) fun _ => h.pure _
  | returnValue line value =>
    cases value with
    | none => exact h.pure _
    | some value => exact h.bind (he value) fun _ => h.pure _
  | classDecl name methods =>
    dsimp only
    rw [declareClass_eq]
    exact h.bind (h.bind (h.define _ _) fun _ => h.bind (h.onStore _) fun _ => h.onStore _)
      fun _ => h.pure _

theorem repeat_step (condition : Expr) (body : Stmt) :
    R (repeatWhile (fuel + 1) condition body) (repeatWhile (fuel' + 1) condition body) := by
  unfold repeatWhile
  refine h.bind (he condition) fun v => ?_
  split
  · refine h.bind (hs body) fun completion => ?_
    cases completion with
    | normal => exact hr condition body
    | _ => exact h.pure _
  · exact h.pure _

end

/-- A relation between the runs on two amounts of fuel. -/
structure Between (R : ∀ ⦃α : Type⦄, Run α → Run α → Prop) (fuel fuel' : Nat) : Prop where
  evaluate (e : Expr) : R (evaluate fuel e) (evaluate fuel' e)
  execute (s : Stmt) : R (execute fuel s) (execute fuel' s)
  repeatWhile (condition : Expr) (body : Stmt) :
    R (repeatWhile fuel condition body) (repeatWhile fuel' condition body)

include h

/-- **What respects the pieces holds of whole runs.** If it does where the smaller fuel is used
up, it does on any fuel and that much more. -/
theorem runs {more : Nat} (hstart : Between R 0 more) (fuel : Nat) :
    Between R fuel (fuel + more) := by
  induction fuel with
  | zero =>
    rw [Nat.zero_add]
    exact hstart
  | succ fuel ih =>
    rw [Nat.add_right_comm]
    exact ⟨h.evaluate_step ih.evaluate ih.execute,
      h.execute_step ih.evaluate ih.execute ih.repeatWhile,
      h.repeat_step ih.evaluate ih.execute ih.repeatWhile⟩

theorem runs_same (hnone : ∀ α : Type, R (Action.outOfFuel : Run α) Action.outOfFuel) (fuel : Nat) :
    Between R fuel fuel :=
  have hstart : Between R 0 0 := ⟨fun _ => hnone _, fun _ => hnone _, fun _ _ => hnone _⟩
  h.runs hstart fuel

theorem runs_more (hleast : ∀ (α : Type) (x : Run α), R Action.outOfFuel x) {fuel fuel' : Nat}
    (hle : fuel ≤ fuel') : Between R fuel fuel' := by
  obtain ⟨more, rfl⟩ := Nat.exists_eq_add_of_le hle
  exact h.runs ⟨fun _ => hleast _ _, fun _ => hleast _ _, fun _ _ => hleast _ _⟩ fuel

end Respects

end LoxLang
