import LoxLang.Proofs.Parsing.Names
import LoxLang.Proofs.Running.Stories

/-!
# Objects and their initializers

* `callClosure_tells`, `construct_tells`: what functions and classes give when they are called;
* `Plan.tells`: the plans of expressions and statements tell only what fits, by induction on the
  fuel;
* `Session.Told`: what has happened on the requests of a session;
* `construction_and_initializers`: calls of classes and initializers give what fits, in every
  session.
-/

namespace LoxLang

/-- Whatever is read is proper. -/
theorem Store.Proper.getAt {s : Store} (h : s.Proper) {f : FrameId} {distance : Nat} {name : String}
    {v : Value} (hv : s.getAt f distance name = .ok v) : v.Proper := by
  obtain ⟨b, -, hlocal⟩ := Store.local?_of_getAt hv
  exact h.locals b name v hlocal

theorem Store.Proper.get {s : Store} (h : s.Proper) {f : FrameId} {name : String} {line : Nat}
    {v : Value} (hv : s.get f name line = .ok v) : v.Proper := by
  obtain ⟨b, -, hlocal⟩ := Store.local?_of_get hv
  exact h.locals b name v hlocal

namespace Plan

open Running

variable {m : Machine}

/-! ## Steps -/

theorem lookUp_tells (h : m.store.Proper) (id : NodeId) (name : String) (line : Nat) :
    Tells m (lookUp id name line) fun v _ => v.Proper := by
  refine .step h fun v s hv => ?_
  obtain ⟨w, hfound, heq⟩ := map_eq_ok hv
  cases heq
  refine ⟨.refl h, ?_⟩
  unfold Run.found at hfound
  split at hfound
  · exact h.getAt hfound
  · exact h.get hfound

theorem assign_tells (h : m.store.Proper) (id : NodeId) {name : Identifier} {v : Value}
    (hname : name.name ≠ "this") (hv : v.Proper) :
    Tells m (assign id name v) fun _ _ => True := by
  refine .step h fun _ s hs => ?_
  obtain ⟨f, -, heq⟩ := map_eq_ok hs
  cases heq
  exact ⟨.define h f hname hv, trivial⟩

theorem define_tells (h : m.store.Proper) {name : String} {v : Value} (hname : name ≠ "this")
    (hv : v.Proper) : Tells m (define name v) fun _ _ => True :=
  .make h (.define h _ hname hv) trivial

theorem ofExcept_tells {x : Except RuntimeError Value} (h : m.store.Proper) (hx : IsOrdinary x) :
    Tells m (ofExcept x) fun v _ => v.Proper := by
  refine .step h fun v s hv => ?_
  obtain ⟨w, hw, heq⟩ := map_eq_ok hv
  cases heq
  obtain ⟨w', hw', hplain⟩ | ⟨e, he, -⟩ := hx
  · cases hw.symm.trans hw'
    exact ⟨.refl h, hplain.proper⟩
  · cases hw.symm.trans he

/-- A method is bound in a frame of its own, where `this` is the object. -/
theorem bindMethod_tells {method : Closure} {o : ObjectId} {name : String} {c : Class}
    (h : m.store.Proper) (ho : m.store.class? o = some c) (hmethod : c.method? name = some method) :
    Tells m (bindMethod method o name) fun f _ => Value.Proper (.function f) := by
  have hc := h.classes o c ho
  have hbindings : ∀ x v, Bindings.find? [("this", Value.object o)] x = some v → v.Proper := by
    intro x v hv
    rw [Bindings.find?_cons] at hv
    split at hv <;> cases hv
    trivial
  have hframe := Store.Becomes.newFrame h (some method.frame) hbindings
  have hbecomes := hframe.trans (.newStamps hframe.proper 1)
  have hthis : (m.store.bindMethod method o).2.local? (m.store.bindMethod method o).1.frame "this"
      = some (.object o) := by
    change (Store.frame _ _).bindings.find? "this" = _
    exact congrArg (fun fr : Frame => fr.bindings.find? "this") Store.frame_newFrame_new
  refine .bind (.make h hbecomes (Q := fun f s => f.declaration = method.declaration ∧
    s.local? f.frame "this" = some (.object o) ∧ f.isInitializer = method.isInitializer)
    ⟨rfl, hthis, rfl⟩) fun f m₁ hreach hf => ?_
  obtain ⟨hdeclaration, hthis, hinit⟩ := hf
  refine .bind (.note hreach.proper fun o' name' f' heq => ?_) fun _ m₂ hreach₂ _ =>
    .pure hreach₂.proper ?_
  · cases heq
    refine ⟨hthis, fun hname => ?_, c, hreach.classes o c ho⟩
    rw [hinit]
    exact hc.initializer method (hname ▸ hmethod)
  · change "this" ∉ f.declaration.names
    rw [hdeclaration]
    exact hc.names name method hmethod

theorem getProperty_tells (h : m.store.Proper) (o : ObjectId) (name : Identifier) :
    Tells m (getProperty o name) fun v _ => v.Proper := by
  refine .bind (.step h (Q := fun p s => s.property o name = .ok p) fun p s hp => ?_)
    fun p m₁ hreach hp => ?_
  · obtain ⟨q, hq, heq⟩ := map_eq_ok hp
    cases heq
    exact ⟨.refl h, hq⟩
  · cases p with
    | field v =>
      exact .pure hreach.proper (hreach.proper.fields o _ v (Store.field?_of_property hp))
    | method f =>
      obtain ⟨c, hc, hf⟩ := Store.method?_of_property hp
      exact .bind (bindMethod_tells hreach.proper hc hf) fun bound m₂ hreach₂ hbound =>
        .pure hreach₂.proper hbound

/-! ## Calls -/

/-- An expression in which nothing is named `this` has a proper value. -/
def Evaluates (evaluate : Expr → Plan Value) : Prop :=
  ∀ m e, m.store.Proper → "this" ∉ e.names → Tells m (evaluate e) fun v _ => v.Proper

/-- What a statement returns is proper. -/
def Completion.Proper : Completion → Prop
  | .returning v => v.Proper
  | _ => True

def Executes (execute : Stmt → Plan Completion) : Prop :=
  ∀ m s, m.store.Proper → "this" ∉ s.names → Tells m (execute s) fun c _ => Completion.Proper c

/-- A function that was bound as an initializer gives the object that it was bound to. -/
theorem fits_of_initializer {f : Closure} {past : List Event} {v : Value} {m' : Machine}
    (hpast : Recalls past m'.store) (hbecomes : m.store.Becomes m'.store)
    (hv : f.isInitializer = true → m'.store.getAt f.frame 0 "this" = .ok v) :
    (Event.calls (.function f) m v m').Fits past := by
  intro o n hmem
  obtain ⟨hthis, hinit, c, hn, hc⟩ := hpast o "init" f n hmem
  have hget : m'.store.getAt f.frame 0 "this" = .ok (.object o) := by
    rw [getAt_of_climb rfl, hthis]
  refine ⟨Except.ok.inj ((hv (hinit rfl)).symm.trans hget), c, hn, hc, fun c' hc' => ?_⟩
  exact Option.some.inj ((hbecomes.classes o c' hc').symm.trans hc)

section
variable {execute : Stmt → Plan Completion} (hexecute : Executes execute)
include hexecute

theorem inSequence_tells (body : List Stmt) (h : m.store.Proper)
    (hbody : "this" ∉ Stmt.allNames body) :
    Tells m (inSequence execute body) fun c _ => Completion.Proper c := by
  induction body generalizing m with
  | nil => exact .pure h trivial
  | cons s rest ih =>
    obtain ⟨hs, hrest⟩ := not_or.mp (mt List.mem_append.mpr hbody)
    refine (hexecute m s h hs).bind fun c m₁ hreach hc => ?_
    cases c with
    | normal => exact ih hreach.proper hrest
    | _ => exact .pure hreach.proper hc

/-- The result of an initializer is what its `this` is when its body has run. -/
theorem callClosure_tells {f : Closure} {arguments : List Value} (h : m.store.Proper)
    (hf : "this" ∉ f.declaration.names) (harguments : ∀ v ∈ arguments, v.Proper) :
    Tells m (callClosure execute f arguments) fun v s =>
      v.Proper ∧ (f.isInitializer = true → s.getAt f.frame 0 "this" = .ok v) := by
  have hbody : "this" ∉ Stmt.allNames f.declaration.body := by
    cases hd : f.declaration with
    | mk name params body =>
      rw [hd] at hf
      exact fun hmem => hf (List.mem_cons_of_mem _ (List.mem_append_right _ hmem))
  have hframe := Store.Becomes.newFrame h (some f.frame)
    fun _ _ hv => argumentBindings_find? f.declaration.params harguments hv
  refine .bind (.make h hframe (Q := fun _ _ => True) trivial) fun frame m₁ hreach _ => ?_
  refine .bind (.inFrame (inSequence_tells hexecute _ hreach.proper hbody))
    fun c m₂ hreach₂ hc => ?_
  split
  · refine .step hreach₂.proper fun v s hv => ?_
    obtain ⟨w, hthis, heq⟩ := map_eq_ok hv
    cases heq
    exact ⟨.refl hreach₂.proper, hreach₂.proper.getAt hthis, fun _ => hthis⟩
  · rename_i hno
    have hvacuous {s : Store} {v : Value} (hinit : f.isInitializer = true) :
        s.getAt f.frame 0 "this" = .ok v := (hno hinit).elim
    cases c with
    | returning v => exact .pure hreach₂.proper ⟨hc, hvacuous⟩
    | _ => exact .pure hreach₂.proper ⟨trivial, hvacuous⟩

theorem callFunction_tells {f : Closure} {arguments : List Value} (h : m.store.Proper)
    (hf : "this" ∉ f.declaration.names) (harguments : ∀ v ∈ arguments, v.Proper) :
    Tells m (.called (.function f) (callClosure execute f arguments)) fun v _ => v.Proper :=
  ((callClosure_tells hexecute h hf harguments).called fun _ _ _ hpast hbecomes hv =>
    fits_of_initializer hpast hbecomes hv.2).imp fun _ _ _ hv => hv.1

/-- The object is made first, and is the result whatever the initializer does with it. -/
theorem construct_tells {c : Class} {arguments : List Value} (h : m.store.Proper) (hc : c.Proper)
    (harguments : ∀ v ∈ arguments, v.Proper) :
    Tells m (construct execute c arguments) fun v s =>
      ∃ o, v = .object o ∧ m.store.class? o = none ∧ s.class? o = some c := by
  have hnew : m.store.class? m.store.objects.size = none := by simp [Store.class?]
  refine .bind (.make h (.newObject h hc)
    (Q := fun o s => o = m.store.objects.size ∧ s.class? o = some c)
    ⟨rfl, Store.class?_newObject_self⟩) fun o m₁ hreach ho => ?_
  obtain ⟨rfl, ho⟩ := ho
  cases hinit : c.initializer? with
  | none => exact .pure hreach.proper ⟨_, rfl, hnew, ho⟩
  | some init =>
    refine .bind (bindMethod_tells hreach.proper ho hinit) fun bound m₂ hreach₂ hbound => ?_
    refine .bind (callFunction_tells hexecute hreach₂.proper hbound harguments)
      fun _ m₃ hreach₃ _ => ?_
    exact .pure hreach₃.proper ⟨_, rfl, hnew, hreach₃.classes _ c (hreach₂.classes _ c ho)⟩

theorem apply_tells {callee : Value} {arguments : List Value} (h : m.store.Proper)
    (hcallee : callee.Proper) (harguments : ∀ v ∈ arguments, v.Proper) :
    Tells m (apply execute callee arguments) fun v _ => v.Proper := by
  have hnil : Tells m (Pure.pure Value.nil) fun v _ => v.Proper := .pure h trivial
  cases callee with
  | native f =>
    cases hcallee
    exact (Tells.clock arguments h).called fun _ _ _ _ _ _ => trivial
  | function f => exact callFunction_tells hexecute h hcallee harguments
  | ofClass c =>
    have hcalled : Tells m (.called (.ofClass c) (construct execute c arguments)) _ :=
      (construct_tells hexecute h hcallee harguments).called fun _ _ _ _ _ hv => hv
    refine hcalled.imp fun v _ _ hv => ?_
    obtain ⟨o, rfl, -⟩ := hv
    trivial
  | _ => exact hnil.called fun _ _ _ _ _ _ => trivial

theorem call_tells {callee : Value} {arguments : List Value} (line : Nat) (h : m.store.Proper)
    (hcallee : callee.Proper) (harguments : ∀ v ∈ arguments, v.Proper) :
    Tells m (call execute callee arguments line) fun v _ => v.Proper := by
  unfold call
  split
  · exact .fail h
  · split
    · exact .fail h
    · exact .ifRoom line h (apply_tells hexecute h hcallee harguments)

end

theorem declareFunction_tells {f : FunctionDecl} (h : m.store.Proper) (hf : "this" ∉ f.names) :
    Tells m (declareFunction f) fun _ _ => True := by
  have hname : f.name.name ≠ "this" := by
    intro heq
    cases f
    exact hf (heq ▸ List.mem_cons_self)
  refine .bind (.make h (.newStamps h 1) (Q := fun c _ => Value.Proper (.function c)) hf)
    fun closure m₁ hreach hclosure => ?_
  exact define_tells hreach.proper hname hclosure

theorem newClass_proper {s : Store} {name : String} {methods : List FunctionDecl} {frame : FrameId}
    (hmethods : "this" ∉ FunctionDecl.allNames methods) :
    (s.newClass name methods frame).1.Proper := by
  rw [Store.newClass_eq]
  refine ⟨fun x f hf => ?_, fun f hf => ?_⟩ <;>
    obtain hnone | ⟨-, -, hmem, -, hinit⟩ := Store.find?_methodsFrom hf
  · cases hnone
  · exact fun hnames => hmethods (FunctionDecl.mem_allNames.mpr ⟨f.declaration, hmem, hnames⟩)
  · cases hnone
  · rw [hinit]
    exact beq_iff_eq.mpr (Store.name_of_methodsFrom hf fun _ hnone => by cases hnone)

theorem declareClass_tells {name : Identifier} {methods : List FunctionDecl} (h : m.store.Proper)
    (hname : name.name ≠ "this") (hmethods : "this" ∉ FunctionDecl.allNames methods) :
    Tells m (declareClass name methods) fun _ _ => True := by
  refine .bind (define_tells h hname trivial) fun _ m₁ hreach _ => ?_
  have hnew : m₁.store.Becomes (m₁.store.newClass name.name methods m₁.frame).2 := by
    rw [Store.newClass_eq]
    exact .newStamps hreach.proper _
  refine .bind (.make hreach.proper hnew (Q := fun c _ => c.Proper) (newClass_proper hmethods))
    fun c m₂ hreach₂ hc => ?_
  refine .step hreach₂.proper fun _ s hs => ?_
  obtain ⟨f, -, heq⟩ := map_eq_ok hs
  cases heq
  exact ⟨.define hreach₂.proper f hname hc, trivial⟩

/-! ## One step -/

section
variable {evaluate : Expr → Plan Value} (hevaluate : Evaluates evaluate)
include hevaluate

theorem inOrder_tells (es : List Expr) (h : m.store.Proper) (hes : "this" ∉ Expr.allNames es) :
    Tells m (inOrder evaluate es) fun vs _ => ∀ v ∈ vs, v.Proper := by
  induction es generalizing m with
  | nil => exact .pure h fun _ hv => absurd hv List.not_mem_nil
  | cons e rest ih =>
    obtain ⟨he, hrest⟩ := not_or.mp (mt List.mem_append.mpr hes)
    refine (hevaluate m e h he).bind fun v m₁ hreach hv => ?_
    refine (ih hreach.proper hrest).bind fun vs m₂ hreach₂ hvs => ?_
    exact .pure hreach₂.proper (List.forall_mem_cons.mpr ⟨hv, hvs⟩)

end

section
variable {fuel : Nat} (hevaluate : Evaluates (evaluate fuel)) (hexecute : Executes (execute fuel))
include hevaluate hexecute

theorem evaluate_step : Evaluates (evaluate (fuel + 1)) := by
  intro m e h he
  unfold evaluate
  refine .noted rfl h fun m h => ?_
  cases e with
  | literal value =>
    refine .pure h (Value.IsPlain.proper ?_)
    cases value <;> trivial
  | grouping inner => exact hevaluate m inner h he
  | «variable» id name => exact lookUp_tells h id name.name name.line
  | this id line => exact lookUp_tells h id "this" line
  | assign id name value =>
    obtain ⟨hname, hvalue⟩ := not_or.mp (mt List.mem_cons.mpr he)
    refine (hevaluate m value h hvalue).bind fun v m₁ hreach hv => ?_
    refine (assign_tells hreach.proper id (Ne.symm hname) hv).bind fun _ m₂ hreach₂ _ => ?_
    exact .pure hreach₂.proper hv
  | unary op line operand =>
    refine (hevaluate m operand h he).bind fun v m₁ hreach _ => ?_
    exact ofExcept_tells hreach.proper (op.apply_ordinary line v)
  | binary op line left right =>
    obtain ⟨hleft, hright⟩ := not_or.mp (mt List.mem_append.mpr he)
    refine (hevaluate m left h hleft).bind fun v m₁ hreach _ => ?_
    refine (hevaluate m₁ right hreach.proper hright).bind fun v' m₂ hreach₂ _ => ?_
    exact ofExcept_tells hreach₂.proper (op.apply_ordinary line v v')
  | logical op left right =>
    obtain ⟨hleft, hright⟩ := not_or.mp (mt List.mem_append.mpr he)
    refine (hevaluate m left h hleft).bind fun v m₁ hreach hv => ?_
    split
    · exact .pure hreach.proper hv
    · exact hevaluate m₁ right hreach.proper hright
  | call callee line arguments =>
    obtain ⟨hcallee, harguments⟩ := not_or.mp (mt List.mem_append.mpr he)
    refine (hevaluate m callee h hcallee).bind fun v m₁ hreach hv => ?_
    refine (inOrder_tells hevaluate arguments hreach.proper harguments).bind
      fun vs m₂ hreach₂ hvs => ?_
    exact call_tells hexecute line hreach₂.proper hv hvs
  | get object name =>
    obtain ⟨hobject, -⟩ := not_or.mp (mt List.mem_append.mpr he)
    refine (hevaluate m object h hobject).bind fun v m₁ hreach _ => ?_
    cases v with
    | object o => exact getProperty_tells hreach.proper o name
    | _ => exact .fail hreach.proper
  | set object name value =>
    obtain ⟨hobject, hrest⟩ := not_or.mp (mt List.mem_append.mpr he)
    obtain ⟨-, hvalue⟩ := not_or.mp (mt List.mem_cons.mpr hrest)
    refine (hevaluate m object h hobject).bind fun v m₁ hreach _ => ?_
    cases v with
    | object o =>
      refine (hevaluate m₁ value hreach.proper hvalue).bind fun w m₂ hreach₂ hw => ?_
      refine .bind (.make hreach₂.proper (.setField hreach₂.proper o name.name hw)
        (Q := fun _ _ => True) trivial) fun _ m₃ hreach₃ _ => ?_
      exact .pure hreach₃.proper hw
    | _ => exact .fail hreach.proper

/-- A loop from a test of its condition on. -/
def Repeats (repeatWhile : Expr → Stmt → Plan Completion) : Prop :=
  ∀ m condition body, m.store.Proper → "this" ∉ condition.names → "this" ∉ body.names →
    Tells m (repeatWhile condition body) fun c _ => Completion.Proper c

theorem execute_step (hrepeat : Repeats (repeatWhile fuel)) : Executes (execute (fuel + 1)) := by
  intro m s h hs
  unfold execute
  refine .noted rfl h fun m h => ?_
  cases s with
  | expression e =>
    refine (hevaluate m e h hs).bind fun _ m₁ hreach _ => ?_
    exact .pure hreach.proper trivial
  | print e =>
    refine (hevaluate m e h hs).bind fun v m₁ hreach _ => ?_
    refine (Tells.print v hreach.proper).bind fun _ m₂ hreach₂ _ => ?_
    exact .pure hreach₂.proper trivial
  | varDecl name e =>
    obtain ⟨hname, he⟩ := not_or.mp (mt List.mem_cons.mpr hs)
    refine (hevaluate m e h he).bind fun v m₁ hreach hv => ?_
    refine (define_tells hreach.proper (Ne.symm hname) hv).bind fun _ m₂ hreach₂ _ => ?_
    exact .pure hreach₂.proper trivial
  | block body =>
    have hframe : m.store.Becomes (m.store.newFrame (some m.frame) []).2 :=
      .newFrame h _ fun x v hv => by cases hv
    refine .bind (.make h hframe (Q := fun _ _ => True) trivial) fun frame m₁ hreach _ => ?_
    exact .inFrame (inSequence_tells hexecute body hreach.proper hs)
  | ifElse condition thenBranch elseBranch =>
    -- There may be no second branch, and then it has no names.
    have hparts : "this" ∉ condition.names ∧ "this" ∉ thenBranch.names ∧
        ∀ r, elseBranch = some r → "this" ∉ r.names := by
      cases elseBranch with
      | none =>
        obtain ⟨hcondition, hthen⟩ := not_or.mp (mt List.mem_append.mpr hs)
        refine ⟨hcondition, hthen, fun r heq => ?_⟩
        cases heq
      | some r =>
        obtain ⟨hfirst, helse⟩ := not_or.mp (mt List.mem_append.mpr hs)
        obtain ⟨hcondition, hthen⟩ := not_or.mp (mt List.mem_append.mpr hfirst)
        exact ⟨hcondition, hthen, fun _ heq => Option.some.inj heq ▸ helse⟩
    obtain ⟨hcondition, hthen, helse⟩ := hparts
    refine (hevaluate m condition h hcondition).bind fun v m₁ hreach _ => ?_
    split
    · exact hexecute m₁ thenBranch hreach.proper hthen
    · split
      · exact hexecute m₁ _ hreach.proper (helse _ rfl)
      · exact .pure hreach.proper trivial
  | whileLoop condition body =>
    obtain ⟨hcondition, hbody⟩ := not_or.mp (mt List.mem_append.mpr hs)
    exact hrepeat m condition body h hcondition hbody
  | breakLoop line => exact .pure h trivial
  | funDecl f =>
    refine (declareFunction_tells h hs).bind fun _ m₁ hreach _ => ?_
    exact .pure hreach.proper trivial
  | returnValue line value =>
    cases value with
    | none => exact .pure h trivial
    | some e =>
      refine (hevaluate m e h hs).bind fun v m₁ hreach hv => ?_
      exact .pure hreach.proper hv
  | classDecl name methods =>
    obtain ⟨hname, hmethods⟩ := not_or.mp (mt List.mem_cons.mpr hs)
    refine (declareClass_tells h (Ne.symm hname) hmethods).bind fun _ m₁ hreach _ => ?_
    exact .pure hreach.proper trivial

theorem repeatWhile_step (hrepeat : Repeats (repeatWhile fuel)) :
    Repeats (repeatWhile (fuel + 1)) := by
  intro m condition body h hcondition hbody
  unfold repeatWhile
  refine (hevaluate m condition h hcondition).bind fun v m₁ hreach _ => ?_
  split
  · refine (hexecute m₁ body hreach.proper hbody).bind fun c m₂ hreach₂ hc => ?_
    cases c with
    | normal => exact hrepeat m₂ condition body hreach₂.proper hcondition hbody
    | breaking => exact .pure hreach₂.proper trivial
    | returning v => exact .pure hreach₂.proper hc
  · exact .pure hreach.proper trivial

end

/-- **In every run calls give what fits**, on every fuel. -/
theorem tells (fuel : Nat) :
    Evaluates (evaluate fuel) ∧ Executes (execute fuel) ∧ Repeats (repeatWhile fuel) := by
  induction fuel with
  | zero =>
    exact ⟨fun _ _ _ _ => .outOfFuel, fun _ _ _ _ => .outOfFuel, fun _ _ _ _ _ _ => .outOfFuel⟩
  | succ fuel ih =>
    obtain ⟨hevaluate, hexecute, hrepeat⟩ := ih
    exact ⟨evaluate_step hevaluate hexecute, execute_step hevaluate hexecute hrepeat,
      repeatWhile_step hevaluate hexecute hrepeat⟩

theorem program_tells (fuel : Nat) (p : Program) (h : m.store.Proper)
    (hp : "this" ∉ Stmt.allNames p) : Tells m (program fuel p) fun _ _ => True := by
  unfold program
  induction p generalizing m with
  | nil => exact .pure h trivial
  | cons s rest ih =>
    obtain ⟨hs, hrest⟩ := not_or.mp (mt List.mem_append.mpr hp)
    refine ((tells fuel).2.1 m s h hs).bind fun _ m₁ hreach _ => ?_
    exact ih hreach.proper hrest

end Plan

/-! ## Sessions -/

namespace Session

/-- What has happened on the requests of a session so far, in order. -/
inductive Told (maxDepth : Nat) (output : Output) (host : Host) : List Event → Session → Prop
  | initial : Told maxDepth output host [] (.initial maxDepth output host)
  | answer {past : List Event} {s s' : Session} {fuel : Nat} {request : Request}
      {reply : Except (List Problem) (Option Value)} :
      Told maxDepth output host past s → s.answer fuel request = some (reply, s') →
      Told maxDepth output host (past ++ s.story Run.printLine fuel request) s'

variable {maxDepth : Nat} {output : Output} {host : Host} {past : List Event} {s s' : Session}

theorem Reachable.told (h : Reachable maxDepth output host s) :
    ∃ past, Told maxDepth output host past s := by
  induction h with
  | initial => exact ⟨[], .initial⟩
  | answer _ hanswer ih =>
    obtain ⟨past, hpast⟩ := ih
    exact ⟨_, hpast.answer hanswer⟩

/-- `this` is no name. -/
theorem this_not_mem {names : List String} (h : ∀ x ∈ names, Keyword.ofSpelling? x = none) :
    "this" ∉ names := by
  intro hmem
  have hkeyword : Keyword.ofSpelling? "this" ≠ none := by decide
  exact hkeyword (h "this" hmem)

/-- What happens on a request fits what happened before, and the session behind it recalls both. -/
structure Goes (past : List Event) (s : Session) (fuel : Nat) (request : Request) : Prop where
  fits : AllFit past (s.story Run.printLine fuel request)
  recalls (reply : Except (List Problem) (Option Value)) (s' : Session) :
    s.answer fuel request = some (reply, s') → s'.machine.store.Proper ∧
      Recalls (past ++ s.story Run.printLine fuel request) s'.machine.store

/-- What a plan tells on a machine with the store of the session. -/
theorem goes_of_tells {α : Type} {Q : α → Store → Prop} {fuel : Nat} {request : Request}
    {x : Plan α} {m : Machine} (hx : Plan.Tells m x Q) (hstore : m.store = s.machine.store)
    (hpast : Recalls past s.machine.store)
    (hstory : s.story Run.printLine fuel request = x.tell Run.printLine m)
    (hanswer : ∀ reply s', s.answer fuel request = some (reply, s') →
      ∃ m', (x.perform Run.printLine m).state? = some m' ∧ s'.machine.store = m'.store) :
    Goes past s fuel request := by
  rw [← hstore] at hpast
  refine ⟨?_, fun reply s' hs' => ?_⟩
  · rw [hstory]
    exact hx.fits past hpast
  · obtain ⟨m', hm', heq⟩ := hanswer reply s' hs'
    rw [hstory, heq]
    exact ⟨(hx.becomes m' hm').proper, hx.recalls past m' hpast hm'⟩

/-- Nothing happens on a source that is refused. -/
theorem goes_of_refused (hs : s.machine.store.Proper) (hpast : Recalls past s.machine.store)
    {fuel : Nat} {request : Request} (hstory : s.story Run.printLine fuel request = [])
    (hanswer : ∀ reply s', s.answer fuel request = some (reply, s') →
      s'.machine.store = s.machine.store) : Goes past s fuel request := by
  refine ⟨?_, fun reply s' hs' => ?_⟩
  · rw [hstory]
    exact .nil past
  · rw [hstory, List.append_nil, hanswer reply s' hs']
    exact ⟨hs, hpast⟩

theorem goes_run (hs : s.machine.store.Proper) (hpast : Recalls past s.machine.store) (fuel : Nat)
    (source : String) : Goes past s fuel (.run source) := by
  cases h : checkSource source s.nextId with
  | mk answer next =>
    cases answer with
    | error problems =>
      exact goes_of_refused hs hpast (by simp only [story, h]) fun reply s' hs' =>
        congrArg Machine.store (answer_run_refused h hs')
    | ok checked =>
      obtain ⟨hparse, -⟩ := checkSource_eq_ok h
      have hnames := this_not_mem (parseSource_names hparse)
      have htells := Plan.program_tells fuel checked.program
        (m := s.machine.extend checked.distances) hs hnames
      refine goes_of_tells htells rfl hpast (story_of_accepted _ h fuel) fun reply s' hs' => ?_
      obtain ⟨m', hm', hstate⟩ := answer_run_accepted h hs'
      refine ⟨m', hm', ?_⟩
      obtain hstate | hstate := hstate <;> rw [hstate]
      rfl

theorem goes_evaluate (hs : s.machine.store.Proper) (hpast : Recalls past s.machine.store)
    (fuel : Nat) (source : String) : Goes past s fuel (.evaluate source) := by
  cases h : parseExpressionSource source s.nextId with
  | mk answer next =>
    cases answer with
    | error problems =>
      exact goes_of_refused hs hpast (by simp only [story, h]) fun reply s' hs' =>
        congrArg Machine.store (answer_evaluate_refused h hs')
    | ok e =>
      have hnames := this_not_mem (parseExpressionSource_names h)
      have htells := (Plan.tells fuel).1 s.machine e hs hnames
      exact goes_of_tells htells rfl hpast (by simp only [story, h]) fun reply s' hs' =>
        ⟨s'.machine, answer_evaluate_accepted h hs', rfl⟩

theorem goes (hs : s.machine.store.Proper) (hpast : Recalls past s.machine.store) (fuel : Nat)
    (request : Request) : Goes past s fuel request := by
  cases request with
  | run source => exact goes_run hs hpast fuel source
  | evaluate source => exact goes_evaluate hs hpast fuel source

theorem initial_proper (maxDepth : Nat) (output : Output) (host : Host) :
    (initial maxDepth output host).machine.store.Proper := by
  have hempty : Store.empty.Proper := by
    constructor
    · intro f x v hv
      simp [Store.local?, Store.frame, Store.empty] at hv
    · intro o x v hv
      simp [Store.field?, Store.empty] at hv
    · intro o c hc
      simp [Store.class?, Store.empty] at hc
  refine (Store.Becomes.newFrame hempty none fun x v hv => ?_).proper
  rw [Bindings.find?_cons] at hv
  split at hv <;> cases hv
  rfl

theorem Told.recalls (h : Told maxDepth output host past s) :
    s.machine.store.Proper ∧ Recalls past s.machine.store ∧ AllFit [] past := by
  induction h with
  | initial =>
    have hnothing : Recalls [] (Session.initial maxDepth output host).machine.store :=
      fun _ _ _ _ hmem => absurd hmem List.not_mem_nil
    exact ⟨initial_proper _ _ _, hnothing, .nil []⟩
  | @answer _ _ _ fuel request _ _ hanswer ih =>
    obtain ⟨hproper, hpast, hfits⟩ := ih
    have hgoes := goes hproper hpast fuel request
    obtain ⟨hproper', hrecalls⟩ := hgoes.recalls _ _ hanswer
    exact ⟨hproper', hrecalls, hfits.append hgoes.fits⟩

end Session

/-- **Construction and initializers.** In every session, whatever happened on its requests, a call
of a class that succeeds gives an object of this class which did not exist before the call; and a
call that succeeds of an `init` that was bound to an object, at any time before, gives this object,
whose class stays what it was. The last request may as well fail or not come to an end. -/
theorem construction_and_initializers {maxDepth : Nat} {output : Output} {host : Host} {s : Session}
    (h : Session.Reachable maxDepth output host s) :
    (∃ past, Session.Told maxDepth output host past s) ∧
      ∀ past, Session.Told maxDepth output host past s → ∀ fuel request,
        s.answerWith Run.printLine fuel request = s.answer fuel request ∧
          ∀ earlier e later,
            past ++ s.story Run.printLine fuel request = earlier ++ e :: later →
              e.Fits earlier := by
  refine ⟨h.told, fun past hpast fuel request => ⟨s.answerWith_printLine fuel request, ?_⟩⟩
  obtain ⟨hproper, hrecalls, hfits⟩ := hpast.recalls
  exact hfits.append (Session.goes hproper hrecalls fuel request).fits

/-- The initializer of an object is kept, and another value is put in its place. -/
def keptInitializer : Request :=
  .run "class A \x7b init() \x7b \x7d \x7d var a = A(); var i = a.init; a.init = nil;"

def Event.binding? : Event → Option (ObjectId × String × Closure)
  | passes (.binds o name f) _ => some (o, name, f)
  | _ => none

theorem Event.eq_of_binding? {event : Event} {o : ObjectId} {name : String} {f : Closure}
    (h : event.binding? = some (o, name, f)) : ∃ n, event = .passes (.binds o name f) n := by
  unfold binding? at h
  split at h <;> cases h
  exact ⟨_, rfl⟩

def Event.call? : Event → Option (Value × Value)
  | calls callee _ result _ => some (callee, result)
  | _ => none

theorem Event.eq_of_call? {event : Event} {callee result : Value}
    (h : event.call? = some (callee, result)) : ∃ m m', event = .calls callee m result m' := by
  unfold call? at h
  split at h <;> cases h
  exact ⟨_, _, rfl⟩

set_option maxRecDepth 1000 in
theorem keptInitializer_gives_object :
    ∃ past s f n m m', Session.Told 8 .unlimited .nominal past s ∧
      .passes (.binds 0 "init" f) n ∈ past ∧
      .calls (.function f) m (.object 0) m' ∈ s.story Run.printLine 60 (.evaluate "i()") ∧
      ∃ c, n.store.class? 0 = some c ∧ m'.store.class? 0 = some c := by
  let s₀ : Session := .initial 8 .unlimited .nominal
  let f : Closure := ⟨3, .mk ⟨"init", 1⟩ [] [], 3, true⟩
  have hreply : (s₀.answer 60 keptInitializer).map (·.1) = some (.ok none) := by cbv
  have hbindings : (s₀.story Run.printLine 60 keptInitializer).filterMap Event.binding?
      = [(0, "init", { f with stamp := 2, frame := 1 }), (0, "init", f)] := by cbv
  have hcalls : (s₀.answer 60 keptInitializer).map (fun r =>
      (r.2.story Run.printLine 60 (.evaluate "i()")).filterMap Event.call?)
        = some [(.function f, .object 0)] := by cbv
  obtain ⟨⟨_, s⟩, hanswer, rfl⟩ := Option.map_eq_some_iff.mp hreply
  rw [hanswer, Option.map_some, Option.some.injEq] at hcalls
  have hbound : (0, "init", f) ∈ (s₀.story Run.printLine 60 keptInitializer).filterMap
      Event.binding? := by
    rw [hbindings]
    exact List.mem_cons_of_mem _ List.mem_cons_self
  have hcalled : (Value.function f, Value.object 0)
      ∈ (s.story Run.printLine 60 (.evaluate "i()")).filterMap Event.call? := by
    rw [hcalls]
    exact List.mem_cons_self
  obtain ⟨event, hevent, heq⟩ := List.mem_filterMap.mp hbound
  obtain ⟨n, rfl⟩ := Event.eq_of_binding? heq
  obtain ⟨event, hcall, heq⟩ := List.mem_filterMap.mp hcalled
  obtain ⟨m, m', rfl⟩ := Event.eq_of_call? heq
  have htold := Session.Told.initial.answer hanswer
  have hreachable : Session.Reachable 8 .unlimited .nominal s := .answer .initial hanswer
  obtain ⟨-, hfits⟩ := construction_and_initializers hreachable
  obtain ⟨before, behind, hstory⟩ := List.append_of_mem hcall
  have hfit := (hfits _ htold 60 (.evaluate "i()")).2 _ _ behind
    ((congrArg _ hstory).trans (List.append_assoc _ _ _).symm)
  obtain ⟨-, c, hn, hm', -⟩ := hfit 0 n (List.mem_append_left _ hevent)
  exact ⟨_, s, f, n, m, m', htold, hevent, hcall, c, hn, hm'⟩

end LoxLang
