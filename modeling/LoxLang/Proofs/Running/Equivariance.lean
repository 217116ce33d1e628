import LoxLang.Proofs.Relabeling
import LoxLang.Proofs.Running.Recoding
import LoxLang.Proofs.Running.Restoration

/-!
# Relabeled runs

A run only looks at a line to report it, and at the identity of a node to find its distance. So a
relabeled program does on a relabeled machine what the program does on the machine, relabeled.

* `Relabeling.recoding`, `Relabeling.machine`: other labels in the code of a store or a machine;
* `Host.IgnoresLabels`: the functions of the host do not see the labels in code;
* `Equivariant`: the one run does on relabeled machines what the other one does, relabeled;
* `execute_equivariant`, `runStatements_equivariant`: the runs of a program and of its relabeling.
-/

namespace LoxLang

open Running

namespace Relabeling

variable (r : Relabeling)

/-- Other labels in all the code of a store. -/
def recoding : Recoding where
  line := r.line
  node := r.node
  code := FunctionDecl.relabel r
  name f := by rw [FunctionDecl.name_relabel, Identifier.name_relabel]
  params f := by
    rw [FunctionDecl.params_relabel, List.map_map]
    rfl

/-- The machine with other labels in its store, and another table. -/
def machine (distances : DistanceTable) (m : Machine) : Machine :=
  { m with store := r.recoding.store m.store, distances }

/-- How the relabeled run ends. -/
def outcome {α β : Type} (distances : DistanceTable) (φ : α → β) :
    Outcome RuntimeError Machine α → Outcome RuntimeError Machine β
  | .ok a m => .ok (φ a) (r.machine distances m)
  | .error e m => .error (r.recoding.error e) (r.machine distances m)
  | .outOfFuel => .outOfFuel

/-- One change of labels after the other. -/
theorem store_comp (r' : Relabeling) (s : Store) :
    (r'.comp r).recoding.store s = r'.recoding.store (r.recoding.store s) :=
  (Recoding.store_store (FunctionDecl.relabel_relabel r' r) s).symm

end Relabeling

/-- The functions of the host do not see the lines and the identities in code. -/
def Host.IgnoresLabels (host : Host) : Prop :=
  ∀ (r : Relabeling) f s arguments,
    host.call f (r.recoding.store s) (arguments.map r.recoding.value)
      = (host.call f s arguments).map r.recoding.value

/-- On a relabeled machine the second run does what the first one does, relabeled. -/
structure Equivariant {α β : Type} (r : Relabeling) (φ : α → β) (x : Run α) (y : Run β) : Prop where
  keeps : Keeps x
  run (m : Machine) (distances : DistanceTable) :
    m.host.IgnoresLabels → r.recoding.Matches m.distances distances →
      y (r.machine distances m) = r.outcome distances φ (x m)

namespace Equivariant

variable {α β γ δ : Type} {r : Relabeling} {φ : α → β} {ψ : γ → δ} {x : Run α} {y : Run β}

theorem onStore {f : StoreStep α} {g : StoreStep β} (h : r.recoding.Carries φ f g) :
    Equivariant r φ (Run.onStore f) (Run.onStore g) where
  keeps := .onStore f
  run m distances _ hmatches := by
    have hstep : g (r.machine distances m).distances (r.machine distances m).frame
        (r.machine distances m).store
          = r.recoding.result (Prod.map φ r.recoding.store) (f m.distances m.frame m.store) :=
      h m.frame m.store hmatches
    unfold Run.onStore
    rw [hstep]
    cases f m.distances m.frame m.store <;> rfl

theorem make {g : FrameId → Store → α × Store} {k : FrameId → Store → β × Store}
    (h : ∀ frame s, k frame (r.recoding.store s)
      = (φ (g frame s).1, r.recoding.store (g frame s).2)) :
    Equivariant r φ (Run.onStore fun _ frame s => .ok (g frame s))
      (Run.onStore fun _ frame s => .ok (k frame s)) :=
  .onStore (Recoding.carries_make h)

theorem pure {a : α} {b : β} (h : b = φ a) :
    Equivariant r φ (Pure.pure a : Run α) (Pure.pure b) :=
  .make (g := fun _ s => (a, s)) (k := fun _ s => (b, s)) fun _ _ => by rw [h]

theorem fail {e e' : RuntimeError} (h : e' = r.recoding.error e) :
    Equivariant r φ (Action.fail e) (Action.fail e') where
  keeps := .onStore fun _ _ _ => .error e
  run m distances _ _ := by
    rw [h]
    rfl

theorem outOfFuel : Equivariant r φ Action.outOfFuel Action.outOfFuel where
  keeps := .outOfFuel
  run _ _ _ _ := rfl

theorem write (text : String) : Equivariant r (fun u => u) (Run.write text) (Run.write text) where
  keeps := .write text
  run m distances _ _ := by
    have houtput : (r.machine distances m).output = m.output := rfl
    unfold Run.write
    rw [houtput]
    split
    · rfl
    · cases m.output.refusal? m.output.written <;> rfl

theorem callNative (f : Native) (arguments : List Value) :
    Equivariant r r.recoding.value (callNative f arguments)
      (callNative f (arguments.map r.recoding.value)) where
  keeps := .callNative f arguments
  run m distances hhost _ := by
    have hcall : (r.machine distances m).host.call f (r.machine distances m).store
        (arguments.map r.recoding.value)
          = (m.host.call f m.store arguments).map r.recoding.value := hhost r f m.store arguments
    unfold Running.callNative
    rw [hcall]
    split
    · rfl
    · cases m.host.call f m.store arguments <;> rfl

theorem bind {f : α → Run γ} {g : β → Run δ} (h : Equivariant r φ x y)
    (hf : ∀ a, Equivariant r ψ (f a) (g (φ a))) : Equivariant r ψ (x >>= f) (y >>= g) where
  keeps := h.keeps.bind fun a => (hf a).keeps
  run m distances hhost hmatches := by
    have hy := h.run m distances hhost hmatches
    cases hx : x m with
    | ok a m₁ =>
      have hkept := h.keeps.ok hx
      rw [hx] at hy
      rw [Action.bind_of_ok hx, Action.bind_of_ok hy]
      exact (hf a).run m₁ distances (hkept.host ▸ hhost) (hkept.distances ▸ hmatches)
    | error e m₁ =>
      rw [hx] at hy
      rw [Action.bind_of_error hx, Action.bind_of_error hy]
      rfl
    | outOfFuel =>
      rw [hx] at hy
      rw [Action.bind_of_outOfFuel hx, Action.bind_of_outOfFuel hy]
      rfl

theorem inFrame (frame : FrameId) (h : Equivariant r φ x y) :
    Equivariant r φ (Run.inFrame frame x) (Run.inFrame frame y) where
  keeps := h.keeps.inFrame frame
  run m distances hhost hmatches := by
    have hy : y { r.machine distances m with frame } = r.outcome distances φ (x { m with frame }) :=
      h.run { m with frame } distances hhost hmatches
    rw [Run.inFrame_apply, Run.inFrame_apply, hy]
    cases x { m with frame } <;> rfl

theorem ifRoom (line : Nat) (h : Equivariant r φ x y) :
    Equivariant r φ (Run.ifRoom line x) (Run.ifRoom (r.line line) y) where
  keeps := h.keeps.ifRoom line
  run m distances hhost hmatches := by
    have hy : y { r.machine distances m with depth := m.depth + 1 }
        = r.outcome distances φ (x { m with depth := m.depth + 1 }) :=
      h.run { m with depth := m.depth + 1 } distances hhost hmatches
    unfold Run.ifRoom
    by_cases hfull : m.maxDepth ≤ m.depth
    · have hfull' : (r.machine distances m).maxDepth ≤ (r.machine distances m).depth := hfull
      rw [if_pos hfull, if_pos hfull']
      rfl
    · have hfull' : ¬(r.machine distances m).maxDepth ≤ (r.machine distances m).depth := hfull
      rw [if_neg hfull, if_neg hfull', Run.oneDeeper_apply, Run.oneDeeper_apply]
      change Outcome.mapState _ (y { r.machine distances m with depth := m.depth + 1 }) = _
      rw [hy]
      cases x { m with depth := m.depth + 1 } <;> rfl

theorem ite {p q : Prop} [Decidable p] [Decidable q] {x' : Run α} {y' : Run β} (hpq : q ↔ p)
    (h : Equivariant r φ x y) (h' : Equivariant r φ x' y') :
    Equivariant r φ (if p then x else x') (if q then y else y') := by
  by_cases hp : p
  · rw [if_pos hp, if_pos (hpq.mpr hp)]
    exact h
  · rw [if_neg hp, if_neg (mt hpq.mp hp)]
    exact h'

end Equivariant

/-! ## Calls -/

section
variable {r : Relabeling} {evaluate : Expr → Run Value} {execute : Stmt → Run Completion}

theorem define_equivariant (name : String) (v : Value) :
    Equivariant r (fun u => u) (Run.define name v) (Run.define name (r.recoding.value v)) :=
  .make (g := fun frame s => ((), s.define frame name v))
    (k := fun frame s => ((), s.define frame name (r.recoding.value v)))
    fun frame s => congrArg (Prod.mk ()) (r.recoding.define_store s frame name v)

theorem lookUp_equivariant (id : NodeId) (name : String) (line : Nat) :
    Equivariant r r.recoding.value (Run.lookUp id name line)
      (Run.lookUp (r.node id) name (r.line line)) := by
  rw [Run.lookUp_eq, Run.lookUp_eq]
  exact .onStore (Recoding.carries_found id name line)

theorem printLine_equivariant (v : Value) :
    Equivariant r (fun u => u) (Run.printLine v) (Run.printLine (r.recoding.value v)) := by
  have hdisplay : Equivariant r (fun text => text) (Run.onStore fun _ _ s => .ok (s.display v, s))
      (Run.onStore fun _ _ s => .ok (s.display (r.recoding.value v), s)) := by
    refine .make (g := fun _ s => (s.display v, s))
      (k := fun _ s => (s.display (r.recoding.value v), s)) fun _ s => ?_
    rw [Recoding.display_store]
  rw [Run.printLine_eq, Run.printLine_eq]
  exact hdisplay.bind fun text => (Equivariant.write text).bind fun _ => .write "\n"

theorem inOrder_equivariant
    (he : ∀ e, Equivariant r r.recoding.value (evaluate e) (evaluate (e.relabel r)))
    (es : List Expr) :
    Equivariant r (List.map r.recoding.value) (inOrder evaluate es)
      (inOrder evaluate (Expr.allRelabel r es)) := by
  induction es with
  | nil => exact .pure rfl
  | cons e rest ih => exact (he e).bind fun v => ih.bind fun vs => .pure rfl

section
variable (hs : ∀ s, Equivariant r r.recoding.completion (execute s) (execute (s.relabel r)))
include hs

theorem inSequence_equivariant (body : List Stmt) :
    Equivariant r r.recoding.completion (inSequence execute body)
      (inSequence execute (Stmt.allRelabel r body)) := by
  induction body with
  | nil => exact .pure rfl
  | cons s rest ih =>
    refine (hs s).bind fun completion => ?_
    cases completion with
    | normal => exact ih
    | breaking => exact .pure rfl
    | returning v => exact .pure rfl

theorem callClosure_equivariant (f : Closure) (arguments : List Value) :
    Equivariant r r.recoding.value (callClosure execute f arguments)
      (callClosure execute (r.recoding.closure f) (arguments.map r.recoding.value)) := by
  have hframe : Equivariant r (fun frame => frame)
      (Run.onStore fun _ _ s =>
        .ok (s.newFrame (some f.frame) (argumentBindings f.declaration.params arguments)))
      (Run.onStore fun _ _ s => .ok (s.newFrame (some f.frame)
        (argumentBindings (r.recoding.code f.declaration).params
          (arguments.map r.recoding.value)))) := by
    refine .make (g := fun _ s => s.newFrame (some f.frame)
        (argumentBindings f.declaration.params arguments))
      (k := fun _ s => s.newFrame (some f.frame)
        (argumentBindings (r.recoding.code f.declaration).params
          (arguments.map r.recoding.value))) fun _ s => ?_
    rw [Recoding.argumentBindings_recoded arguments (r.recoding.params f.declaration),
      Recoding.newFrame_store]
  have hbody := inSequence_equivariant hs f.declaration.body
  rw [← FunctionDecl.body_relabel] at hbody
  rw [callClosure_eq, callClosure_eq]
  refine hframe.bind fun frame => (hbody.inFrame frame).bind fun completion => .ite Iff.rfl ?_ ?_
  · exact .onStore (Recoding.carries_look fun _ s => Recoding.getAt_store _ s f.frame 0 "this")
  · cases completion with
    | returning v => exact .pure rfl
    | normal => exact .pure rfl
    | breaking => exact .pure rfl

theorem construct_equivariant (c : Class) (arguments : List Value) :
    Equivariant r r.recoding.value (construct execute c arguments)
      (construct execute (r.recoding.ofClass c) (arguments.map r.recoding.value)) := by
  have hobject : Equivariant r (fun o => o) (Run.make (·.newObject c))
      (Run.make (·.newObject (r.recoding.ofClass c))) :=
    .make (g := fun _ s => s.newObject c) (k := fun _ s => s.newObject (r.recoding.ofClass c))
      fun _ s => r.recoding.newObject_store s c
  unfold construct
  refine hobject.bind fun o => ?_
  rw [Recoding.initializer?_ofClass]
  cases c.initializer? with
  | none => exact .pure rfl
  | some init =>
    have hbound : Equivariant r r.recoding.closure (Run.make (·.bindMethod init o))
        (Run.make (·.bindMethod (r.recoding.closure init) o)) :=
      .make (g := fun _ s => s.bindMethod init o)
        (k := fun _ s => s.bindMethod (r.recoding.closure init) o)
        fun _ s => r.recoding.bindMethod_store s init o
    exact hbound.bind fun bound => (callClosure_equivariant hs bound arguments).bind
      fun _ => .pure rfl

theorem apply_equivariant (callee : Value) (arguments : List Value) :
    Equivariant r r.recoding.value (apply execute callee arguments)
      (apply execute (r.recoding.value callee) (arguments.map r.recoding.value)) := by
  cases callee with
  | native f => exact .callNative f arguments
  | function f => exact callClosure_equivariant hs f arguments
  | ofClass c => exact construct_equivariant hs c arguments
  | _ => exact .pure rfl

theorem call_equivariant (callee : Value) (arguments : List Value) (line : Nat) :
    Equivariant r r.recoding.value (call execute callee arguments line)
      (call execute (r.recoding.value callee) (arguments.map r.recoding.value) (r.line line)) := by
  rw [call_eq, call_eq, Recoding.arity?_value, List.length_map]
  cases callee.arity? with
  | none => exact .fail rfl
  | some arity =>
    exact .ite Iff.rfl (.fail rfl) ((apply_equivariant hs callee arguments).ifRoom line)

end

theorem declareClass_equivariant (name : Identifier) (methods : List FunctionDecl) :
    Equivariant r (fun u => u) (declareClass name methods)
      (declareClass (name.relabel r) (FunctionDecl.allRelabel r methods)) := by
  rw [FunctionDecl.allRelabel_eq_map, Running.declareClass_eq, Running.declareClass_eq]
  refine (define_equivariant name.name .nil).bind fun _ =>
    Equivariant.bind (φ := r.recoding.ofClass) ?_ fun c =>
      .onStore (Recoding.carries_assignClass name c)
  exact .make (g := fun frame s => s.newClass name.name methods frame)
    (k := fun frame s => s.newClass name.name (methods.map (FunctionDecl.relabel r)) frame)
    fun frame s => r.recoding.newClass_store s frame name.name methods

end

/-! ## Expressions and statements -/

section
variable {r : Relabeling} {fuel : Nat}
  (he : ∀ e, Equivariant r r.recoding.value (evaluate fuel e) (evaluate fuel (e.relabel r)))
  (hs : ∀ s, Equivariant r r.recoding.completion (execute fuel s) (execute fuel (s.relabel r)))
  (hr : ∀ condition body, Equivariant r r.recoding.completion (repeatWhile fuel condition body)
    (repeatWhile fuel (condition.relabel r) (body.relabel r)))

section
include he hs

theorem evaluate_step_equivariant (e : Expr) :
    Equivariant r r.recoding.value (evaluate (fuel + 1) e) (evaluate (fuel + 1) (e.relabel r)) := by
  unfold evaluate
  cases e with
  | literal l => exact .pure (r.recoding.value_literal l).symm
  | grouping inner => exact he inner
  | «variable» id name => exact lookUp_equivariant id name.name name.line
  | this id line => exact lookUp_equivariant id "this" line
  | assign id name value =>
    refine (he value).bind fun v => Equivariant.bind (φ := fun u => u) ?_ fun _ => .pure rfl
    rw [Run.assign_eq, Run.assign_eq]
    exact .onStore (Recoding.carries_target id name v)
  | unary op line operand =>
    refine (he operand).bind fun v => ?_
    rw [Run.ofExcept_eq, Run.ofExcept_eq]
    exact .onStore (Recoding.carries_look fun _ _ => r.recoding.unary_apply op line v)
  | binary op line left right =>
    refine (he left).bind fun v => (he right).bind fun w => ?_
    rw [Run.ofExcept_eq, Run.ofExcept_eq]
    exact .onStore (Recoding.carries_look fun _ _ => r.recoding.binary_apply op line v w)
  | logical op left right =>
    refine (he left).bind fun v => ?_
    rw [Recoding.decidedBy_value]
    exact .ite Iff.rfl (.pure rfl) (he right)
  | call callee line arguments =>
    exact (he callee).bind fun v => (inOrder_equivariant he arguments).bind fun vs =>
      call_equivariant hs v vs line
  | get object name =>
    refine (he object).bind fun v => ?_
    cases v with
    | object o =>
      dsimp only [Recoding.value_object]
      rw [Run.getProperty_eq, Run.getProperty_eq]
      exact .onStore (Recoding.carries_property o name)
    | _ => exact .fail rfl
  | set object name value =>
    refine (he object).bind fun v => ?_
    cases v with
    | object o =>
      refine (he value).bind fun w => Equivariant.bind (φ := fun u => u) ?_ fun _ => .pure rfl
      exact .make (g := fun _ s => ((), s.setField o name.name w))
        (k := fun _ s => ((), s.setField o name.name (r.recoding.value w)))
        fun _ s => congrArg (Prod.mk ()) (r.recoding.setField_store s o name.name w)
    | _ => exact .fail rfl

include hr

theorem execute_step_equivariant (s : Stmt) :
    Equivariant r r.recoding.completion (execute (fuel + 1) s)
      (execute (fuel + 1) (s.relabel r)) := by
  unfold execute
  cases s with
  | expression expr => exact (he expr).bind fun _ => .pure rfl
  | print expr =>
    exact (he expr).bind fun v => (printLine_equivariant v).bind fun _ => .pure rfl
  | varDecl name initializer =>
    exact (he initializer).bind fun v => (define_equivariant name.name v).bind fun _ => .pure rfl
  | block body =>
    have hframe : Equivariant r (fun frame => frame)
        (Run.onStore fun _ frame s => .ok (s.newFrame (some frame) []))
        (Run.onStore fun _ frame s => .ok (s.newFrame (some frame) [])) :=
      .make (g := fun frame s => s.newFrame (some frame) [])
        (k := fun frame s => s.newFrame (some frame) [])
        fun frame s => r.recoding.newFrame_store s (some frame) []
    exact hframe.bind fun frame => (inSequence_equivariant hs body).inFrame frame
  | ifElse condition thenBranch elseBranch =>
    cases elseBranch with
    | none =>
      refine (he condition).bind fun v => .ite ?_ (hs thenBranch) (.pure rfl)
      rw [Recoding.isTruthy_value]
    | some elseBranch =>
      refine (he condition).bind fun v => .ite ?_ (hs thenBranch) (hs elseBranch)
      rw [Recoding.isTruthy_value]
  | whileLoop condition body => exact hr condition body
  | breakLoop line => exact .pure rfl
  | funDecl f =>
    have hclosure : Equivariant r r.recoding.closure
        (Run.onStore fun _ frame s => .ok (s.newClosure f frame false))
        (Run.onStore fun _ frame s => .ok (s.newClosure (f.relabel r) frame false)) :=
      .make (g := fun frame s => s.newClosure f frame false)
        (k := fun frame s => s.newClosure (f.relabel r) frame false)
        fun frame s => r.recoding.newClosure_store s frame f false
    dsimp only [Stmt.relabel]
    rw [declareFunction_eq, declareFunction_eq, FunctionDecl.name_relabel]
    exact hclosure.bind fun c => (define_equivariant f.name.name (.function c)).bind fun _ =>
      .pure rfl
  | returnValue line value =>
    cases value with
    | none => exact .pure rfl
    | some value => exact (he value).bind fun v => .pure rfl
  | classDecl name methods =>
    exact (declareClass_equivariant name methods).bind fun _ => .pure rfl

theorem repeat_step_equivariant (condition : Expr) (body : Stmt) :
    Equivariant r r.recoding.completion (repeatWhile (fuel + 1) condition body)
      (repeatWhile (fuel + 1) (condition.relabel r) (body.relabel r)) := by
  unfold repeatWhile
  refine (he condition).bind fun v => .ite ?_ ((hs body).bind fun completion => ?_) (.pure rfl)
  · rw [Recoding.isTruthy_value]
  · cases completion with
    | normal => exact hr condition body
    | breaking => exact .pure rfl
    | returning v => exact .pure rfl

end

end

section
variable (r : Relabeling)

/-- Whatever runs on some fuel commutes with a relabeling, by induction on the fuel. -/
theorem runs_equivariant (fuel : Nat) :
    (∀ e, Equivariant r r.recoding.value (evaluate fuel e) (evaluate fuel (e.relabel r))) ∧
    (∀ s, Equivariant r r.recoding.completion (execute fuel s) (execute fuel (s.relabel r))) ∧
    ∀ condition body, Equivariant r r.recoding.completion (repeatWhile fuel condition body)
      (repeatWhile fuel (condition.relabel r) (body.relabel r)) := by
  induction fuel with
  | zero => exact ⟨fun _ => .outOfFuel, fun _ => .outOfFuel, fun _ _ => .outOfFuel⟩
  | succ fuel ih =>
    obtain ⟨he, hs, hr⟩ := ih
    exact ⟨evaluate_step_equivariant he hs, execute_step_equivariant he hs hr,
      repeat_step_equivariant he hs hr⟩

theorem evaluate_equivariant (fuel : Nat) (e : Expr) :
    Equivariant r r.recoding.value (evaluate fuel e) (evaluate fuel (e.relabel r)) :=
  (runs_equivariant r fuel).1 e

theorem execute_equivariant (fuel : Nat) (s : Stmt) :
    Equivariant r r.recoding.completion (execute fuel s) (execute fuel (s.relabel r)) :=
  (runs_equivariant r fuel).2.1 s

/-- A relabeled program does on a relabeled machine what the program does, relabeled. -/
theorem runStatements_equivariant (fuel : Nat) (body : List Stmt) (m : Machine)
    (distances : DistanceTable) (hhost : m.host.IgnoresLabels)
    (hmatches : r.recoding.Matches m.distances distances) :
    runStatements fuel (Stmt.allRelabel r body) (r.machine distances m)
      = r.outcome distances (fun u => u) (runStatements fuel body m) := by
  induction body generalizing m with
  | nil => rfl
  | cons s rest ih =>
    have hfirst := (execute_equivariant r fuel s).run m distances hhost hmatches
    dsimp only [Stmt.allRelabel]
    unfold runStatements
    rw [hfirst]
    cases hs : execute fuel s m with
    | ok c m₁ =>
      have hkept := (execute_keeps fuel s).ok hs
      exact ih m₁ (hkept.host ▸ hhost) (hkept.distances ▸ hmatches)
    | error e m₁ => rfl
    | outOfFuel => rfl

theorem flush_relabel (distances : DistanceTable) (m : Machine) :
    Run.flush (r.machine distances m) = r.outcome distances (fun u => u) (Run.flush m) := by
  have houtput : (r.machine distances m).output = m.output := rfl
  unfold Run.flush
  rw [houtput]
  cases m.output.flushRefusal? <;> rfl

/-- The same up to the end of a program. -/
theorem runToEnd_relabel (fuel : Nat) (p : Program) (m : Machine) (distances : DistanceTable)
    (hhost : m.host.IgnoresLabels) (hmatches : r.recoding.Matches m.distances distances) :
    runToEnd fuel (p.relabel r) (r.machine distances m)
      = r.outcome distances (fun u => u) (runToEnd fuel p m) := by
  unfold runToEnd
  have hstatements := runStatements_equivariant r fuel p m distances hhost hmatches
  cases hrun : runStatements fuel p m with
  | ok u m₁ =>
    rw [hrun] at hstatements
    rw [Action.bind_of_ok hrun, Action.bind_of_ok hstatements]
    exact flush_relabel r distances m₁
  | error e m₁ =>
    rw [hrun] at hstatements
    rw [Action.bind_of_error hrun, Action.bind_of_error hstatements]
    rfl
  | outOfFuel =>
    rw [hrun] at hstatements
    rw [Action.bind_of_outOfFuel hrun, Action.bind_of_outOfFuel hstatements]
    rfl

end

end LoxLang
